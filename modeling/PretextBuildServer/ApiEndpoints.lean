import PretextBuildServer.CallbackUrl
import PretextBuildServer.Library.JsonTexts
import PretextBuildServer.StoreCalls

/-!
# Submitting and cancelling a job

The two endpoints of each kind that write to the store. The id of a new job is
drawn by the caller of these definitions; all calls are about that job.
-/

namespace PretextBuildServer.ApiEndpoints

open EffectProgram EffectProgram.Program JsonTexts TextCase
open PretextBuildServer.ServerSettings PretextBuildServer.JobRecord PretextBuildServer.JobCalls
open PretextBuildServer.StoreCalls PretextBuildServer.CallbackUrl
open PretextBuildServer.NameValidators

set_option autoImplicit false

def httpException {Result : Type} (statusCode : Nat) (detail : String) : JobProgram Result :=
  raise { kind := .httpException statusCode, message := detail }

/-- The token of the form, or else of the header, with or without `Bearer`. -/
def presentedToken (formToken authorization : Option String) : Option String :=
  match formToken, authorization with
  | some token, _ => some token
  | none, some header =>
      if header = "" then none
      else if "bearer ".toList.isPrefixOf (lower header.toList) then
        some (String.ofList (header.toList.drop 7))
      else some header
  | none, none => none

def checkToken (settings : Settings) (formToken authorization : Option String) :
    JobProgram Unit :=
  if settings.buildToken = "" ∨ presentedToken formToken authorization ≠ some settings.buildToken
  then httpException 401 "Invalid or missing token"
  else return

/-- The `project_id` a request contributes to the record, if it names one. -/
def projectIdField (value : Option String) : JobProgram (Option String) :=
  let text := strip (value.getD "").toList
  if text = [] then return none
  else if !matchesProjectId text then
    httpException 422 ("Invalid project_id: use 1-64 letters, digits, '-' or '_', " ++
      "not starting with '-' or '_'")
  else return some (String.ofList text)

/-- Unpack the archive into a fresh job dir, and create the job record. -/
def unpackAndCreate (settings : Settings) (fields : Fields) : JobProgram Unit := do
  jobCall .makeWorkDir
  jobCall .writeUpload
  rescue (jobCall .extractUpload) fun (raised : Raised) => do
    jobCall .removeJobDir
    httpException 422 s!"Could not extract archive: {raised.message}"
  jobCall .removeUpload
  storeCreate settings fields

/-- Validate the callback before anything is written. -/
def intake (settings : Settings) (callbackUrl : Option String) (fields : Fields) :
    JobProgram Unit := do
  match callbackUrl with
  | some url =>
      let allowed ← isAllowedCallbackUrl settings url.toList
      if !allowed then httpException 422 "Invalid or disallowed callback_url" else pure ()
  | none => pure ()
  unpackAndCreate settings { fields with callbackUrl := callbackUrl.filter (· ≠ "") }

structure QueuedResponse where
  jobId : String
  statusUrl : String
  deriving DecidableEq

def queued (jobId : String) (kind : Kind) : QueuedResponse where
  jobId := jobId
  statusUrl := s!"{jobPrefixes kind}/{jobId}"

def createBuild (settings : Settings) (jobId target : String)
    (projectId token callbackUrl authorization : Option String) : JobProgram QueuedResponse := do
  checkToken settings token authorization
  let project ← projectIdField projectId
  intake settings callbackUrl { kind := some .build, target := some target, projectId := project }
  jobCall (.enqueue .build)
  return queued jobId .build

/-- `re.split(r"[,\s]+", item)` over all items, without the empty names. -/
def assetNames (assets : List String) : List String :=
  assets.flatMap fun item =>
    (splitRuns (fun c => c == ',' || isSpace c) item.toList).map String.ofList

/-- A character in a `repr`, as far as the characters beyond Latin-1 print. -/
def reprChar (quote c : Char) : List Char :=
  if c = quote ∨ c = '\\' then ['\\', c]
  else if c = '\t' then ['\\', 't']
  else if c = '\n' then ['\\', 'n']
  else if c = '\r' then ['\\', 'r']
  else if c.toNat < 32 ∨ (127 ≤ c.toNat ∧ c.toNat ≤ 160) ∨ c.toNat = 173 then
    ['\\', 'x', hexDigit (c.toNat / 16), hexDigit (c.toNat % 16)]
  else [c]

def singleQuote : Char := '\x27'

def doubleQuote : Char := '\x22'

/-- `repr` of a text: in double quotes if only a single quote occurs in it. -/
def reprText (text : String) : String :=
  let chars := text.toList
  let quote :=
    if chars.contains singleQuote && !chars.contains doubleQuote then doubleQuote else singleQuote
  String.ofList (quote :: chars.flatMap (reprChar quote) ++ [quote])

def reprTexts (texts : List String) : String :=
  "[" ++ ", ".intercalate (texts.map reprText) ++ "]"

example : reprTexts ["it's", "a\"b'", "a\\"] =
    "[\"it's\", 'a\"b\\'', 'a\\\\']" := by decide +kernel

def createGenerate (settings : Settings) (jobId target : String) (assets : List String)
    (projectId token callbackUrl authorization : Option String) : JobProgram QueuedResponse := do
  checkToken settings token authorization
  let names := assetNames assets
  let bad := names.filter fun name => !matchesAssetName name.toList
  if bad ≠ [] then httpException 422 ("Invalid asset type name(s): " ++ reprTexts bad) else pure ()
  let project ← projectIdField projectId
  intake settings callbackUrl {
    kind := some .generate, target := some target, assets := some (" ".intercalate names),
    projectId := project }
  jobCall (.enqueue .generate)
  return queued jobId .generate

/-- The job record, or 404, also when the id belongs to the other kind. Records
written before generate jobs existed carry no kind; they are builds. -/
def load (kind : Kind) : JobProgram Fields := do
  match ← storeGet .load with
  | none => httpException 404 "Unknown job"
  | some data =>
      if data.kind.getD .build ≠ kind then httpException 404 "Unknown job" else return data

inductive CancelAnswer where
  | cancelled
  | cancelRequested
  deriving DecidableEq, Repr

def finishedDetail (data : Fields) : String :=
  let status := data.status.elim "None" Status.text
  s!"Job already finished (status={status})"

def cancel (kind : Kind) : JobProgram CancelAnswer := do
  let data ← load kind
  if data.isTerminal then httpException 409 (finishedDetail data)
  else
    -- Flag first: it is what a job that is already running checks to stop itself.
    storeUpdate { cancelRequested := some true }
    if data.status = some .queued then
      rescue
        (do
          jobCall .fetchJob
          jobCall .cancelJob
          let finished ← now
          storeUpdate { status := some .cancelled, finishedAt := some finished }
          return .cancelled)
        fun (raised : Raised) =>
          if raised.kind = .noSuchJobError ∨ raised.kind = .invalidJobOperation then
            return .cancelRequested
          else raise raised
    else return .cancelRequested

end PretextBuildServer.ApiEndpoints
