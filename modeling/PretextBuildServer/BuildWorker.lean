import PretextBuildServer.CompletionCallback

/-!
# The worker's run of one job

`runJob` is what RQ calls: one sandboxed run, then, in a `finally`, the
callback and the pruning. `runSandboxed` is cut where the source's blocks end;
its early returns are the `none` of the parts.
-/

namespace PretextBuildServer.BuildWorker

open EffectProgram EffectProgram.Program
open PretextBuildServer.ServerSettings PretextBuildServer.JobRecord PretextBuildServer.JobCalls
open PretextBuildServer.StoreCalls PretextBuildServer.CompletionCallback

set_option autoImplicit false

/-- The number of polls after which the counted time has reached `timeout`. -/
def pollCount (poll timeout : Int) : Nat := max 1 ((timeout + poll - 1) / poll).toNat

/-- The poll loop with the time counted so far. `left` bounds the polls still to
come; `wait_loop_bound_irrelevant` says it never ends the loop. -/
def waitLoop (poll timeout : Int) : Nat → Int → JobProgram (Option Int)
  | 0, _ => raise { kind := .other }
  | left + 1, elapsed =>
      rescue (jobCall (.wait poll)) fun (raised : Raised) =>
        if !raised.isTimedOutWait then raise raised
        else if elapsed + poll ≥ timeout then raise raised
        else do
          let data ← storeGet .poll
          if (data.getD {}).cancelled then raise { kind := .cancelled }
          else waitLoop poll timeout left (elapsed + poll)

theorem poll_count_enough (poll timeout : Int) (positive : 0 < poll) :
    timeout ≤ pollCount poll timeout * poll ∧ 0 < pollCount poll timeout := by
  have quotient := Int.mul_ediv_add_emod (timeout + poll - 1) poll
  have remainder := Int.emod_lt_of_pos (timeout + poll - 1) positive
  have reached : timeout ≤ poll * ((timeout + poll - 1) / poll) := by omega
  have counted : (timeout + poll - 1) / poll ≤ pollCount poll timeout := by
    unfold pollCount
    omega
  constructor
  · calc timeout ≤ poll * ((timeout + poll - 1) / poll) := reached
      _ ≤ poll * pollCount poll timeout := Int.mul_le_mul_of_nonneg_left counted positive.le
      _ = pollCount poll timeout * poll := Int.mul_comm _ _
  · unfold pollCount
    omega

/-- A larger bound on the polls gives the same loop: the overall timeout has
ended it before. -/
theorem wait_loop_bound_irrelevant (poll timeout : Int) (left more : Nat) (elapsed : Int)
    (some : 0 < left) (enough : timeout ≤ elapsed + left * poll) :
    waitLoop poll timeout (left + more) elapsed = waitLoop poll timeout left elapsed := by
  induction left generalizing elapsed with
  | zero => omega
  | succ left induction =>
      rw [Nat.add_right_comm]
      unfold waitLoop
      refine congrArg _ (funext fun raised => ?_)
      split
      · rfl
      split
      · rfl
      · rename_i inTime
        push_cast at enough
        rw [Int.add_mul, Int.one_mul] at enough
        have again : 0 < left := by
          rcases Nat.eq_zero_or_pos left with none | some
          · simp [none] at enough
            omega
          · exact some
        rw [induction (elapsed + poll) again (by omega)]

/-- Wait for the container, polling. A client call with a timeout that is not
positive raises `ValueError` before anything is sent. -/
def waitForContainer (settings : Settings) (timeout : Int) : JobProgram (Option Int) :=
  let poll := settings.buildPollInterval
  if 0 < poll then waitLoop poll timeout (pollCount poll timeout) 0
  else raise {
    kind := .valueError
    message := s!"Attempted to set connect timeout to {poll}, but the timeout cannot be set to a " ++
      "value less than or equal to 0." }

def containerEnvironment (settings : Settings) : List (String × String) :=
  (if settings.buildHome != "" then [("HOME", settings.buildHome)] else []) ++
    if settings.buildProxy != "" then
      ["HTTP_PROXY", "HTTPS_PROXY", "http_proxy", "https_proxy"].map (·, settings.buildProxy) ++
        ["NO_PROXY", "no_proxy"].map (·, "localhost,127.0.0.1")
    else []

def workVolume (hostWork : Path) : Volumes := [(hostWork, { bind := ["work"], mode := "rw" })]

/-- The mounts of the container: the project, and for a build that names a
project its persistent cache. Without the cache the job runs all the same. -/
def prepareVolumes (kind : Kind) (projectId : Option String) (workDir hostWork : Path) :
    JobProgram Volumes :=
  match projectId with
  | none => return workVolume hostWork
  | some projectId =>
      rescue
        (do
          jobCall (.touch projectId)
          if kind = .build then
            -- Files shipped inside the archive would be hidden by the mount.
            let _seeded ← jobCall (.harvest projectId workDir)
            let mounted : Volumes ← jobCall (.mounts projectId workDir)
            return (workVolume hostWork).update mounted
          else return workVolume hostWork)
        fun _ => return workVolume hostWork

/-- A product of floats, cut to a whole number. -/
def nanoCpus (cpus : CpuCount) : Int :=
  (cpus.number.times 1000000000 (by decide) cpus.room).truncate

def runKwargs (settings : Settings) (command : String) (sandbox : Sandbox) (volumes : Volumes) :
    RunKwargs where
  image := settings.buildImage
  command := ["sh", "-c", command]
  detach := true
  workingDir := ["work"]
  volumes := volumes
  networkMode := settings.buildNetwork
  memLimit := sandbox.memLimit
  nanoCpus := nanoCpus sandbox.cpus
  pidsLimit := sandbox.pidsLimit
  capDrop := ["ALL"]
  securityOpt := ["no-new-privileges"]
  user := if settings.buildUser != "" then some settings.buildUser else none
  environment := containerEnvironment settings

/-- The two branches that stop a container: kill it, keep its log, settle. -/
def stopContainer (status : Status) (note : String) : JobProgram Unit := do
  jobCall .kill
  let logs : String ← jobCall .logs
  let finished ← now
  storeUpdate { status := some status, finishedAt := some finished, log := some (logs ++ note) }

/-- The inner `try`: the log and exit code of a container that ended by itself,
`none` after a cancelled or timed-out wait has been settled. -/
def awaitContainer (settings : Settings) (kind : Kind) (sandbox : Sandbox) :
    JobProgram (Option (String × Int)) :=
  (waitForContainer settings sandbox.timeout).andThen fun
    | .ok statusCode => do
        let logs : String ← jobCall .logs
        return some (logs, statusCode.getD 1)
    | .error (raised : Raised) =>
        if raised.kind = .cancelled then do
          stopContainer .cancelled s!"\n\n[{kind.text} cancelled by request]"
          return none
        else if raised.isTimedOutWait then do
          stopContainer .failed s!"\n\n[{kind.text} exceeded {sandbox.timeout}s and was killed]"
          return none
        else raise raised

/-- `except ImageNotFound` -/
def imageMissing (settings : Settings) (raised : Raised) : JobProgram (Option (String × Int)) :=
  if raised.isImageNotFound then do
    let finished ← now
    storeUpdate {
      status := some .failed
      finishedAt := some finished
      log := some (s!"Build image not found locally: {settings.buildImage}. " ++
        s!"Run `docker pull {settings.buildImage}`.") }
    return none
  else raise raised

def removeContainer : JobProgram Unit :=
  rescue (jobCall .remove) fun (raised : Raised) =>
    if raised.isAPIError then return else raise raised

/-- The outer `try`. Its `finally` finds a container to remove only if `run` has
returned: when `run` raises, the variable is still `None`. -/
def superviseContainer (settings : Settings) (kind : Kind) (sandbox : Sandbox)
    (kwargs : RunKwargs) : JobProgram (Option (String × Int)) :=
  (jobCall (.containersRun kwargs)).andThen fun
    | .error raised => imageMissing settings raised
    | .ok _ =>
        ensuring (rescue (awaitContainer settings kind sandbox) (imageMissing settings))
          removeContainer

/-- Whether the project has an output directory. A symlinked one would lead out
of the project. -/
def presentOutput (outputDir : Path) : JobProgram Bool := do
  let outputIsDir ← isDir outputDir
  if outputIsDir then (! ·) <$> isLink outputDir else return false

def zipOutput (outputDir zipPath : Path) (sandbox : Sandbox) (listFiles hasOutput : Bool) :
    JobProgram Fields :=
  if hasOutput then do
    let names : List String ← jobCall
      (.zipDir outputDir zipPath sandbox.skipTopLevelDotfiles)
    return { files := if listFiles then some names else none }
  else return {}

/-- A clean generate job that names a project refreshes its cache; a failing
harvest only leaves `cached_files` out. -/
def harvestGenerated (kind : Kind) (projectId : Option String) (workDir : Path) (exitCode : Int)
    (extra : Fields) : JobProgram Fields :=
  match projectId with
  | some projectId =>
      if kind = .generate && exitCode = 0 then
        rescue
          (do
            let cached : List String ← jobCall (.harvest projectId workDir)
            return { extra with cachedFiles := some cached })
          fun _ => return extra
      else return extra
  | none => return extra

/-- The terminal write for a container that has ended by itself. -/
def endedFields (kind : Kind) (subdir : String) (hasOutput : Bool) (logs : String) (exitCode : Int)
    (extra : Fields) (finished : Nat) : Fields :=
  if exitCode ≠ 0 then
    let note := if hasOutput then
        s!"\n\n[{kind.text} exited with code {exitCode}, but produced output in '{subdir}/' -- " ++
          "see artifact_url]"
      else ""
    { extra with
      status := some .failed, finishedAt := some finished, log := some (logs ++ note),
      exitCode := some exitCode }
  else if !hasOutput then
    { status := some .failed, finishedAt := some finished, exitCode := some exitCode,
      log := some (logs ++ s!"\n\n[{kind.text} succeeded but produced no '{subdir}/' directory]") }
  else
    { extra with
      status := some .success, finishedAt := some finished, log := some logs,
      exitCode := some exitCode }

/-- After the container has ended by itself: zip what output there is, harvest,
and settle. -/
def packageOutput (settings : Settings) (jobId : String) (kind : Kind) (sandbox : Sandbox)
    (listFiles : Bool) (projectId : Option String) (logs : String) (exitCode : Int) :
    JobProgram Unit := do
  let workDir := settings.workDir jobId
  let outputDir := workDir ++ sandbox.outputSubdir
  let hasOutput ← presentOutput outputDir
  let zipped ← zipOutput outputDir (settings.jobDir jobId ++ ["output.zip"]) sandbox listFiles
    hasOutput
  let extra ← harvestGenerated kind projectId workDir exitCode zipped
  let finished ← now
  storeUpdate
    (endedFields kind ("/".intercalate sandbox.outputSubdir) hasOutput logs exitCode extra finished)

/-- `data.get("project_id") or None` -/
def Fields.namedProject (data : Fields) : Option String := data.projectId.filter (· ≠ "")

def runSandboxed (settings : Settings) (jobId : String) (kind : Kind) (command : String)
    (sandbox : Sandbox) (listFiles : Bool) : JobProgram Unit :=
  match settings.hostDataDir with
  | none => do
      let finished ← now
      storeUpdate {
        status := some .failed
        finishedAt := some finished
        log := some ("Server misconfigured: HOST_DATA_DIR is unset, so job dirs " ++
          "cannot be mounted into build containers. See README.") }
  | some hostDataDir => do
      let data := (← storeGet .preRun).getD {}
      if data.cancelled then
        let finished ← now
        storeUpdate {
          status := some .cancelled
          finishedAt := some finished
          log := some s!"{kind.text} cancelled before it started." }
      else
        let projectId := Fields.namedProject data
        let started ← now
        storeUpdate { status := some .running, startedAt := some started }
        let workDir := settings.workDir jobId
        let hostWork := hostDataDir ++ ["jobs", jobId, "work"]
        jobCall (.chmod workDir)
        let volumes ← prepareVolumes kind projectId workDir hostWork
        jobCall .fromEnv
        match ← superviseContainer settings kind sandbox
            (runKwargs settings command sandbox volumes) with
        | none => return
        | some (logs, exitCode) =>
            packageOutput settings jobId kind sandbox listFiles projectId logs exitCode

/-- The run, then, whatever its outcome, the callback and the pruning. -/
def runJob (settings : Settings) (jobId : String) (kind : Kind) (command : String)
    (sandbox : Sandbox) (listFiles : Bool := false) : JobProgram Unit :=
  ensuring (runSandboxed settings jobId kind command sandbox listFiles) do
    let data := (← storeGet .afterRun).getD {}
    sendCallback settings jobId
    jobCall .pruneExpiredJobs
    rescue
      (jobCall (.pruneAssetCache (Fields.namedProject data))) fun _ => return

end PretextBuildServer.BuildWorker
