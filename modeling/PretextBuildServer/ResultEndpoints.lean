import PretextBuildServer.ApiEndpoints

/-!
# Asking for a job and for its archive

The endpoints that only read. The two file lists of the record are kept as
lists, so the status answers the record as it is.
-/

namespace PretextBuildServer.ResultEndpoints

open EffectProgram EffectProgram.Program
open PretextBuildServer.ServerSettings PretextBuildServer.JobRecord PretextBuildServer.JobCalls
open PretextBuildServer.StoreCalls PretextBuildServer.ApiEndpoints

set_option autoImplicit false

structure StatusResponse where
  jobId : String
  data : Fields
  logUrl : Option String
  artifactUrl : Option String

def statusOfRecord (jobId : String) (kind : Kind) (data : Fields) (hasArtifact : Bool) :
    StatusResponse where
  jobId
  data
  logUrl := data.log.map fun _ => s!"{jobPrefixes kind}/{jobId}/log"
  artifactUrl := if hasArtifact then some s!"{jobPrefixes kind}/{jobId}/artifact" else none

def status (settings : Settings) (jobId : String) (kind : Kind) : JobProgram StatusResponse := do
  let data ← load kind
  let hasArtifact ← isFile (settings.jobDir jobId ++ ["output.zip"])
  return statusOfRecord jobId kind data hasArtifact

def unfinishedDetail (data : Fields) : String :=
  let status := data.status.elim "None" Status.text
  s!"Job not finished (status={status})"

/-- A file on the disk, sent as it is found. -/
structure FileResponse where
  path : Path
  mediaType : String
  filename : String
  deriving DecidableEq, Repr

def artifact (settings : Settings) (jobId : String) (kind : Kind) : JobProgram FileResponse := do
  let data ← load kind
  if !data.isTerminal then httpException 409 (unfinishedDetail data)
  else
    let zipPath := settings.jobDir jobId ++ ["output.zip"]
    let found ← isFile zipPath
    if !found then httpException 404 "Artifact missing, expired, or job produced no output"
    else return {
      path := zipPath
      mediaType := "application/zip"
      filename := s!"{jobId}-output.zip" }

end PretextBuildServer.ResultEndpoints
