import PretextBuildServer.CallbackUrl
import PretextBuildServer.StoreCalls

/-!
# The completion callback

Best effort: a failing delivery is recorded on the job. What the validation of
the URL raises, and what is raised outside the delivery attempts, leaves
`sendCallback` all the same.
-/

namespace PretextBuildServer.CompletionCallback

open EffectProgram EffectProgram.Program
open PretextBuildServer.ServerSettings PretextBuildServer.JobRecord PretextBuildServer.JobCalls
open PretextBuildServer.StoreCalls PretextBuildServer.CallbackUrl
open PretextBuildServer.NameValidators

set_option autoImplicit false

/-- `str.split()` -/
def splitWords (text : String) : List String :=
  (splitRuns isSpace text.toList).map String.ofList

/-- `log[-limit:] if truncated else log`, and whether it was truncated. -/
def logTail (limit : Int) (log : String) : String × Bool :=
  let truncated := 0 < limit && limit < log.length
  (if truncated then String.ofList (log.toList.drop (log.length - limit.toNat)) else log, truncated)

/-- The JSON body. `artifact_url` is added whenever an output.zip is there, and
a record that carries no kind is a build. -/
def buildPayload (settings : Settings) (jobId : String) (data : Fields) : JobProgram Payload := do
  let (tail, truncated) := logTail settings.callbackLogTailChars (data.log.getD "")
  let kind := data.kind.getD .build
  let urlPrefix := jobPrefixes kind
  let hasArtifact ← isFile (settings.jobDir jobId ++ ["output.zip"])
  return {
    jobId
    kind
    status := data.status
    target := data.target
    exitCode := data.exitCode
    logTail := tail
    logTruncated := truncated
    logUrl := s!"{urlPrefix}/{jobId}/log"
    assets := if kind = .generate then some (splitWords (data.assets.getD "")) else none
    files := if kind = .generate then some (data.files.getD []) else none
    artifactUrl := if hasArtifact then some s!"{urlPrefix}/{jobId}/artifact" else none }

/-- `_sign`, when a secret is configured. -/
def sign (settings : Settings) (body : Payload) : Option BodySignature :=
  if settings.callbackSecret != "" then some { secret := settings.callbackSecret, body } else none

/-- `Response.raise_for_status` -/
def raiseForStatus (response : Response) : JobProgram Unit :=
  if 400 ≤ response.statusCode && response.statusCode < 600 then
    let party := if response.statusCode < 500 then "Client" else "Server"
    raise {
      kind := .requestException
      message := s!"{response.statusCode} {party} Error: {response.reason} for url: {response.url}" }
  else return

/-- The attempts that are left, and the error of the last one made. -/
def attemptDelivery (settings : Settings) (url : String) (body : Payload) :
    Nat → Option Raised → JobProgram Unit
  | 0, lastError =>
      storeUpdate {
        callbackStatus := some .failed
        callbackError := some (lastError.elim "None" Raised.message) }
  | left + 1, _ =>
      rescue
        (do
          let response : Response ← jobCall
            (.post url body (sign settings body) settings.callbackTimeout)
          raiseForStatus response
          storeUpdate { callbackStatus := some .delivered })
        fun (raised : Raised) =>
          if raised.isRequestException then attemptDelivery settings url body left (some raised)
          else raise raised

def sendCallback (settings : Settings) (jobId : String) : JobProgram Unit := do
  match ← storeGet .sendCallback with
  | none => return
  | some data =>
      let url := data.callbackUrl.getD ""
      if url = "" then return
      -- Re-validated at send time: DNS may have rebound since the submission.
      let allowed ← isAllowedCallbackUrl settings url.toList
      if !allowed then
        storeUpdate {
          callbackStatus := some .blocked
          callbackError := some "callback_url failed validation at send time" }
      else
        let body ← buildPayload settings jobId data
        attemptDelivery settings url body (max 1 settings.callbackRetries).toNat none

end PretextBuildServer.CompletionCallback
