import PretextBuildServer.RecordTexts
import PretextBuildServer.ResultEndpoints
import PretextBuildServer.RunJournal

/-!
# What clients are sent, as JSON

The body of a callback and the answer to a status request are made of the texts
in Redis. A client that reads either gets back what the record says: the integers
as integers, the lists as lists, and null where there is nothing.
-/

namespace PretextBuildServer.JsonBodies

open JsonTexts TextHashes
open PretextBuildServer.ServerSettings PretextBuildServer.JobRecord PretextBuildServer.JobCalls
open PretextBuildServer.CompletionCallback PretextBuildServer.RunJournal
open PretextBuildServer.RecordTexts PretextBuildServer.ResultEndpoints
open PretextBuildServer.ApiEndpoints PretextBuildServer.StoreCalls

set_option autoImplicit false

/-! ## The body of a callback -/

def nullable (value : Option Json) : Json := value.getD .null

def textList (texts : List String) : Json := .list (texts.map .text)

/-- `JOB_PREFIXES[kind]`; there is none for another text. -/
def jobPrefixOf (kind : String) : Option String := (kindCodec.read kind).map jobPrefixes

/-- `json.loads(data["files"]) if data.get("files") else []` -/
def listedFiles (data : TextHash) : Option Json :=
  match data.lookup "files" with
  | none => some (.list [])
  | some text => if text = "" then some (.list []) else loads text.toList

/-- `_build_payload` on the texts of a record. -/
def payloadJson (settings : Settings) (jobId : String) (data : TextHash) (hasArtifact : Bool) :
    Option Json := do
  let (tail, truncated) := logTail settings.callbackLogTailChars ((data.lookup "log").getD "")
  let kind := (data.lookup "kind").getD "build"
  let urlPrefix ← jobPrefixOf kind
  let generated ←
    if kind = "generate" then
      (listedFiles data).map fun files =>
        [("assets", textList (splitWords ((data.lookup "assets").getD ""))), ("files", files)]
    else some []
  let offered :=
    if hasArtifact then [("artifact_url", .text s!"{urlPrefix}/{jobId}/artifact")] else []
  return .object ([
    ("job_id", .text jobId),
    ("kind", .text kind),
    ("status", nullable ((data.lookup "status").map .text)),
    ("target", nullable ((data.lookup "target").map .text)),
    ("exit_code", nullable (((data.lookup "exit_code").bind asInt).map .int)),
    ("log_tail", .text tail),
    ("log_truncated", .bool truncated),
    ("log_url", .text s!"{urlPrefix}/{jobId}/log")] ++ generated ++ offered)

/-- `json.dumps(payload).encode()`: all ASCII. -/
def bodyText (payload : Json) : List Char := dumps defaultLayout payload

/-- The same body, from the record as its fields are read. -/
def jsonOf (payload : Payload) : Json :=
  let generated :=
    (payload.assets.map fun assets => ("assets", textList assets)).toList ++
      (payload.files.map fun files => ("files", textList files)).toList
  let offered := (payload.artifactUrl.map fun url => ("artifact_url", Json.text url)).toList
  .object ([
    ("job_id", .text payload.jobId),
    ("kind", .text payload.kind.text),
    ("status", nullable (payload.status.map fun status => .text status.text)),
    ("target", nullable (payload.target.map .text)),
    ("exit_code", nullable (payload.exitCode.map .int)),
    ("log_tail", .text payload.logTail),
    ("log_truncated", .bool payload.logTruncated),
    ("log_url", .text payload.logUrl)] ++ generated ++ offered)

/-! ## Reading a body -/

def intOf : Json → Option Int
  | .int value => some value
  | _ => none

def boolOf : Json → Option Bool
  | .bool value => some value
  | _ => none

def statusOf (value : Json) : Option Status := (textOf value).bind statusCodec.read

def textsOf : Json → Option (List String)
  | .list items => items.mapM textOf
  | _ => none

def orNull {Value : Type} (read : Json → Option Value) : Json → Option (Option Value)
  | .null => some none
  | value => (read value).map some

def orMissing {Value : Type} (read : Json → Option Value) : Option Json → Option (Option Value)
  | none => some none
  | some value => (read value).map some

/-- What a receiver makes of a body. -/
def payloadOfJson : Json → Option Payload
  | .object members => do
      let jobId ← (members.lookup "job_id").bind textOf
      let kind ← ((members.lookup "kind").bind textOf).bind kindCodec.read
      let status ← (members.lookup "status").bind (orNull statusOf)
      let target ← (members.lookup "target").bind (orNull textOf)
      let exitCode ← (members.lookup "exit_code").bind (orNull intOf)
      let logTail ← (members.lookup "log_tail").bind textOf
      let logTruncated ← (members.lookup "log_truncated").bind boolOf
      let logUrl ← (members.lookup "log_url").bind textOf
      let assets ← orMissing textsOf (members.lookup "assets")
      let files ← orMissing textsOf (members.lookup "files")
      let artifactUrl ← orMissing textOf (members.lookup "artifact_url")
      return {
        jobId, kind, status, target, exitCode, logTail, logTruncated, logUrl, assets, files,
        artifactUrl }
  | _ => none

@[simp] theorem text_of_text (value : String) : textOf (.text value) = some value := rfl

theorem texts_of_list (texts : List String) : textsOf (textList texts) = some texts :=
  texts_of_names texts

theorem null_text (value : Option String) :
    orNull textOf (nullable (value.map .text)) = some value := by
  cases value <;> rfl

theorem null_int (value : Option Int) :
    orNull intOf (nullable (value.map .int)) = some value := by
  cases value <;> rfl

theorem null_status (value : Option Status) :
    orNull statusOf (nullable (value.map fun status => .text status.text)) = some value := by
  cases value with
  | none => rfl
  | some status => cases status <;> rfl

theorem kind_read (kind : Kind) : kindCodec.read kind.text = some kind := kindCodec.back kind

theorem payload_read (payload : Payload) : payloadOfJson (jsonOf payload) = some payload := by
  obtain ⟨jobId, kind, status, target, exitCode, tail, truncated, url, assets, files, artifact⟩ :=
    payload
  cases assets <;> cases files <;> cases artifact <;>
    simp [payloadOfJson, jsonOf, List.lookup_cons, boolOf, orMissing, texts_of_list,
      null_text, null_int, null_status, kind_read]

/-! ## From the texts -/

section Texts

variable (hash : RecordHash)

theorem kind_text (fields : Fields) :
    (fields.kind.map kindCodec.write).getD "build" = (fields.kind.getD .build).text := by
  cases fields.kind <;> rfl

theorem names_text_nonempty (names : List String) : namesText names ≠ "" := by
  intro empty
  have chars := congrArg String.toList empty
  rw [namesText, String.toList_ofList, dumps] at chars
  exact absurd chars (List.cons_ne_nil _ _)

theorem names_loaded (names : List String) :
    loads (namesText names).toList = some (textList names) := by
  rw [namesText, String.toList_ofList, loads_dumps default_readable]
  rfl

theorem listed_files : listedFiles hash.texts = some (textList (hash.fields.files.getD [])) := by
  have files : hash.texts.lookup "files" = hash.fields.files.map namesText :=
    hash.lookup_name .files
  rw [listedFiles, files]
  cases hash.fields.files with
  | none => rfl
  | some names =>
      simp only [Option.map_some, if_neg (names_text_nonempty names), names_loaded]
      rfl

theorem payload_of_texts (settings : Settings) (jobId : String) (hasArtifact : Bool) :
    payloadJson settings jobId hash.texts hasArtifact =
      some (jsonOf (payloadOf settings jobId hash.fields hasArtifact)) := by
  have log : hash.texts.lookup "log" = hash.fields.log.map textCodec.write :=
    hash.lookup_name .log
  have kind : hash.texts.lookup "kind" = hash.fields.kind.map kindCodec.write :=
    hash.lookup_name .kind
  have assets : hash.texts.lookup "assets" = hash.fields.assets.map textCodec.write :=
    hash.lookup_name .assets
  have status : hash.texts.lookup "status" = hash.fields.status.map statusCodec.write :=
    hash.lookup_name .status
  have target : hash.texts.lookup "target" = hash.fields.target.map textCodec.write :=
    hash.lookup_name .target
  have exitCode : hash.texts.lookup "exit_code" = hash.fields.exitCode.map intCodec.write :=
    hash.lookup_name .exitCode
  have plain : ∀ text : Option String, text.map textCodec.write = text := fun text => by
    cases text <;> rfl
  have code : (hash.fields.exitCode.map intCodec.write).bind asInt = hash.fields.exitCode :=
    read_written intCodec _
  have state : (hash.fields.status.map statusCodec.write).map Json.text =
      hash.fields.status.map fun status => Json.text status.text := by
    rw [Option.map_map]
    rfl
  simp only [payloadJson, log, kind, assets, status, target, exitCode, plain, kind_text, code,
    state, listed_files, jobPrefixOf, kind_read]
  cases named : hash.fields.kind.getD .build <;> cases hasArtifact <;>
    simp [jsonOf, payloadOf, Kind.text, named]

end Texts

/-- Whatever a record holds: the body the server computes from its texts, written
as JSON and read by any receiver, is the payload of the record. -/
theorem callback_body_read_back (settings : Settings) (jobId : String) (hash : RecordHash)
    (hasArtifact : Bool) :
    ∃ body, payloadJson settings jobId hash.texts hasArtifact = some body ∧
      (loads (bodyText body)).bind payloadOfJson =
        some (payloadOf settings jobId hash.fields hasArtifact) := by
  refine ⟨_, payload_of_texts hash settings jobId hasArtifact, ?_⟩
  rw [bodyText, loads_dumps default_readable, Option.bind_some, payload_read]

/-! ## The answer to a status request -/

/-- The two lists are sent as lists. -/
def isList (name : String) : Bool := name = "files" || name = "cached_files"

def shown (name text : String) : Option Json :=
  if isList name then loads text.toList else some (.text text)

/-- `{**data}`, with `json.loads` of the two lists. -/
def recordMembers (data : TextHash) : Option (List (String × Json)) :=
  data.entries.mapM fun entry => (shown entry.1 entry.2).map fun value => (entry.1, value)

def urlMember (name : String) (url : Option String) : List (String × Json) :=
  (url.map fun url => (name, Json.text url)).toList

/-- `_status` on the texts of a record that `_load` has let through. -/
def statusJson (jobId : String) (kind : Kind) (data : TextHash) (hasArtifact : Bool) :
    Option Json := do
  let record ← recordMembers data
  let urlPrefix := jobPrefixes kind
  let logUrl := (data.lookup "log").map fun _ => s!"{urlPrefix}/{jobId}/log"
  let artifactUrl := if hasArtifact then some s!"{urlPrefix}/{jobId}/artifact" else none
  return .object (("job_id", .text jobId) :: record ++ urlMember "log_url" logUrl ++
    urlMember "artifact_url" artifactUrl)

/-- As the framework renders a response. -/
def responseText (response : Json) : List Char := dumps compactLayout response

/-- What a client makes of a response. -/
def responseOfJson : Json → Option StatusResponse
  | .object members => do
      let jobId ← (members.lookup "job_id").bind textOf
      let files ← orMissing textsOf (members.lookup "files")
      let cachedFiles ← orMissing textsOf (members.lookup "cached_files")
      let logUrl ← orMissing textOf (members.lookup "log_url")
      let artifactUrl ← orMissing textOf (members.lookup "artifact_url")
      return {
        jobId
        data := { ofTexts fun field => (members.lookup field.name).bind textOf with
          files, cachedFiles }
        logUrl, artifactUrl }
  | _ => none

theorem lookup_shown (name : String) :
    ∀ (entries : List ((_ : String) × String)) (record : List (String × Json)),
      (entries.mapM fun entry => (shown entry.1 entry.2).map fun value => (entry.1, value)) =
        some record →
      record.lookup name = (entries.dlookup name).bind (shown name)
  | [], record, made => by
      obtain rfl := Option.some.inj made
      rfl
  | ⟨key, text⟩ :: entries, record, made => by
      rw [List.mapM_cons] at made
      obtain ⟨member, first, made⟩ := Option.bind_eq_some_iff.mp made
      obtain ⟨rest, others, made⟩ := Option.bind_eq_some_iff.mp made
      obtain rfl := Option.some.inj made
      obtain ⟨value, found, rfl⟩ := Option.map_eq_some_iff.mp first
      by_cases same : name = key
      · subst same
        simpa using found.symm
      · have differs : (name == key) = false := by simpa using same
        rw [List.lookup_cons, differs, List.dlookup_cons_ne _ _ same]
        exact lookup_shown name entries rest others

theorem all_shown :
    ∀ entries : List ((_ : String) × String), (∀ entry ∈ entries, (shown entry.1 entry.2).isSome) →
      ∃ record, (entries.mapM fun entry =>
        (shown entry.1 entry.2).map fun value => (entry.1, value)) = some record
  | [], _ => ⟨[], rfl⟩
  | entry :: entries, readable => by
      obtain ⟨value, first⟩ := Option.isSome_iff_exists.mp (readable entry List.mem_cons_self)
      obtain ⟨record, others⟩ :=
        all_shown entries fun other mem => readable other (List.mem_cons_of_mem _ mem)
      exact ⟨(entry.1, value) :: record, by rw [List.mapM_cons, first, others]; rfl⟩

section Status

variable (hash : RecordHash)

theorem shown_field (field : RecordField) (text : String)
    (stored : fieldText hash.fields field = some text) : (shown field.name text).isSome := by
  cases field
  case files =>
    obtain ⟨names, -, rfl⟩ := Option.map_eq_some_iff.mp stored
    exact Option.isSome_iff_exists.mpr ⟨_, names_loaded names⟩
  case cachedFiles =>
    obtain ⟨names, -, rfl⟩ := Option.map_eq_some_iff.mp stored
    exact Option.isSome_iff_exists.mpr ⟨_, names_loaded names⟩
  all_goals rfl

theorem record_shown : ∃ record, recordMembers hash.texts = some record ∧
    ∀ name, record.lookup name = (hash.texts.lookup name).bind (shown name) := by
  have readable : ∀ entry ∈ hash.texts.entries, (shown entry.1 entry.2).isSome := by
    rintro ⟨name, text⟩ mem
    have stored : hash.texts.lookup name = some text := AList.mem_lookup_iff.mpr mem
    obtain ⟨field, rfl⟩ := hash.named name (AList.lookup_isSome.mp (by simp [stored]))
    exact shown_field hash field text ((hash.lookup_name field).symm.trans stored)
  obtain ⟨record, made⟩ := all_shown hash.texts.entries readable
  exact ⟨record, made, fun name => lookup_shown name _ record made⟩

theorem unnamed_missing (name : String) (unnamed : ∀ field : RecordField, field.name ≠ name) :
    hash.texts.lookup name = none := by
  rw [AList.lookup_eq_none]
  intro mem
  obtain ⟨field, same⟩ := hash.named name mem
  exact unnamed field same

theorem of_texts_besides (text other : RecordField → Option String)
    (same : ∀ field, field ≠ .files → field ≠ .cachedFiles → text field = other field)
    (files cachedFiles : Option (List String)) :
    ({ ofTexts text with files, cachedFiles } : Fields) =
      { ofTexts other with files, cachedFiles } := by
  simp [ofTexts, same]

theorem lookup_url (name other : String) (url : Option String) :
    (urlMember name url).lookup other = if other = name then url.map .text else none := by
  cases url with
  | none => simp [urlMember]
  | some url =>
      by_cases same : other = name
      · subst same
        simp [urlMember]
      · have differs : (other == name) = false := by simpa using same
        simp [urlMember, List.lookup_cons, differs, same]

section Members

variable (jobId : String) {record : List (String × Json)} (logUrl artifactUrl : Option String)
  (lookups : ∀ name, record.lookup name = (hash.texts.lookup name).bind (shown name))

def responseMembers (record : List (String × Json)) : List (String × Json) :=
  ("job_id", .text jobId) :: record ++ urlMember "log_url" logUrl ++
    urlMember "artifact_url" artifactUrl

include lookups

theorem field_member (field : RecordField) :
    (responseMembers jobId logUrl artifactUrl record).lookup field.name =
      (fieldText hash.fields field).bind (shown field.name) := by
  have apart : field.name ≠ "job_id" ∧ field.name ≠ "log_url" ∧ field.name ≠ "artifact_url" := by
    cases field <;> decide
  have notId : (field.name == "job_id") = false := by simpa using apart.1
  rw [responseMembers, List.lookup_append, List.lookup_append, List.lookup_cons, notId,
    lookup_url, lookup_url, if_neg apart.2.1, if_neg apart.2.2, lookups, hash.lookup_name]
  simp

theorem log_url_member :
    (responseMembers jobId logUrl artifactUrl record).lookup "log_url" = logUrl.map .text := by
  have missing : hash.texts.lookup "log_url" = none :=
    unnamed_missing hash _ fun field => by cases field <;> decide
  simp [responseMembers, List.lookup_append, List.lookup_cons, lookup_url, lookups, missing]

theorem artifact_url_member :
    (responseMembers jobId logUrl artifactUrl record).lookup "artifact_url" =
      artifactUrl.map .text := by
  have missing : hash.texts.lookup "artifact_url" = none :=
    unnamed_missing hash _ fun field => by cases field <;> decide
  simp [responseMembers, List.lookup_append, List.lookup_cons, lookup_url, lookups, missing]

end Members

theorem missing_url (url : Option String) : orMissing textOf (url.map .text) = some url := by
  cases url <;> rfl

theorem missing_names (names : Option (List String)) (name : String) (list : isList name = true) :
    orMissing textsOf ((names.map namesText).bind (shown name)) = some names := by
  cases names with
  | none => rfl
  | some names =>
      simp only [Option.map_some, Option.bind_some, shown, list, if_true, names_loaded, orMissing,
        texts_of_list]

theorem plain_member (fields : Fields) (field : RecordField) (file : field ≠ .files)
    (cached : field ≠ .cachedFiles) :
    ((fieldText fields field).bind (shown field.name)).bind textOf = fieldText fields field := by
  have plain : isList field.name = false := by
    cases field <;> first | rfl | exact absurd rfl file | exact absurd rfl cached
  cases fieldText fields field with
  | none => rfl
  | some text => simp [shown, plain]

theorem response_read (jobId : String) {record : List (String × Json)}
    (logUrl artifactUrl : Option String)
    (lookups : ∀ name, record.lookup name = (hash.texts.lookup name).bind (shown name)) :
    responseOfJson (.object (responseMembers jobId logUrl artifactUrl record)) =
      some { jobId, data := hash.fields, logUrl, artifactUrl } := by
  have ofField := field_member hash jobId logUrl artifactUrl lookups
  have id : (responseMembers jobId logUrl artifactUrl record).lookup "job_id" =
      some (.text jobId) := by
    simp [responseMembers]
  have files : orMissing textsOf
      ((responseMembers jobId logUrl artifactUrl record).lookup "files") =
        some hash.fields.files :=
    (congrArg (orMissing textsOf) (ofField .files)).trans
      (missing_names hash.fields.files "files" rfl)
  have cached : orMissing textsOf
      ((responseMembers jobId logUrl artifactUrl record).lookup "cached_files") =
        some hash.fields.cachedFiles :=
    (congrArg (orMissing textsOf) (ofField .cachedFiles)).trans
      (missing_names hash.fields.cachedFiles "cached_files" rfl)
  have others := of_texts_besides
    (fun field => ((responseMembers jobId logUrl artifactUrl record).lookup
      field.name).bind textOf)
    (fieldText hash.fields)
    (fun field file notCached => by
      rw [ofField, plain_member hash.fields field file notCached])
    hash.fields.files hash.fields.cachedFiles
  rw [of_texts_text] at others
  simp only [responseOfJson, id, files, cached, log_url_member hash jobId _ _ lookups,
    artifact_url_member hash jobId _ _ lookups, missing_url, text_of_text,
    Option.bind_eq_bind, Option.bind_some, others]
  rfl

/-- Whatever a record holds: what a client reads in the response to a status
request, rendered as the framework does, is the record. -/
theorem status_body_read_back (jobId : String) (kind : Kind) (hasArtifact : Bool) :
    ∃ response, statusJson jobId kind hash.texts hasArtifact = some response ∧
      (loads (responseText response)).bind responseOfJson =
        some (statusOfRecord jobId kind hash.fields hasArtifact) := by
  obtain ⟨record, made, lookups⟩ := record_shown hash
  have log : hash.texts.lookup "log" = hash.fields.log.map textCodec.write :=
    hash.lookup_name .log
  have plain : hash.fields.log.map textCodec.write = hash.fields.log := by
    cases hash.fields.log <;> rfl
  refine ⟨_, by rw [statusJson, made, log, plain]; rfl, ?_⟩
  rw [responseText, loads_dumps compact_readable, Option.bind_some]
  exact response_read hash jobId _ _ lookups

end Status

end PretextBuildServer.JsonBodies
