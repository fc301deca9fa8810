import PretextBuildServer.JobSystem

/-!
# Which calls the parts of the code make

One inventory for each part of a run and for each endpoint. What is to be shown
of a part that lacks some call follows from its inventory alone.
-/

namespace PretextBuildServer.RunCalls

open EffectProgram EffectProgram.Program
open PretextBuildServer.ServerSettings PretextBuildServer.JobRecord PretextBuildServer.JobCalls
open PretextBuildServer.StoreCalls PretextBuildServer.CallbackUrl
open PretextBuildServer.CompletionCallback PretextBuildServer.BuildWorker
open PretextBuildServer.ApiEndpoints PretextBuildServer.JobSystem

set_option autoImplicit false

/-- A write with the time it is made at. -/
def settling : JobCall → Prop
  | .time | .hset _ => True
  | _ => False

/-- Waiting for a container that is up, and settling the job if that goes wrong. -/
def watching : JobCall → Prop
  | .wait _ | .hgetall .poll | .kill | .logs => True
  | request => settling request

def preparing : JobCall → Prop
  | .touch _ | .harvest .. | .mounts .. => True
  | _ => False

def looking : JobCall → Prop
  | .isDir _ | .isLink _ => True
  | _ => False

def packing : JobCall → Prop
  | .zipDir .. => True
  | _ => False

def harvesting : JobCall → Prop
  | .harvest .. => True
  | _ => False

/-- What is done with the output of a container that has ended by itself. -/
def packaging (request : JobCall) : Prop :=
  looking request ∨ packing request ∨ harvesting request ∨ settling request

/-- What a container that is up is good for. -/
def minding : JobCall → Prop
  | .remove => True
  | request => watching request

def validating : JobCall → Prop
  | .checkNetloc _ | .getaddrinfo _ => True
  | _ => False

/-- What the `finally` of a run does: the record is read, the callback sent and
noted, and what has expired is deleted. -/
def reporting : JobCall → Prop
  | .hgetall .afterRun | .hgetall .sendCallback | .isFile _ | .post .. | .pruneExpiredJobs
  | .pruneAssetCache _ => True
  | .hset fields => fields.status = none
  | request => validating request

/-- A submission, whose one write is as `written` says. -/
def submitting (written : Fields → Prop) : JobCall → Prop
  | .makeWorkDir | .writeUpload | .extractUpload | .removeUpload | .removeJobDir | .time
  | .expire _ | .enqueue _ => True
  | .hset fields => written fields
  | request => validating request

def cancelling : JobCall → Prop
  | .hgetall .load | .hset _ | .fetchJob | .cancelJob | .time => True
  | _ => False

/-! ## The container -/

theorem settle_makes (fields : Nat → Fields) :
    MakesOnly settling (now >>= fun clock => storeUpdate (fields clock)) := by
  refine ⟨trivial, fun reply => ?_⟩
  cases reply with
  | error raised => trivial
  | ok clock => exact ⟨trivial, fun _ => trivial⟩

theorem watching_of_settling (request : JobCall) (settles : settling request) :
    watching request := by
  cases request <;> trivial

theorem wait_loop_makes (poll timeout : Int) (left : Nat) (elapsed : Int) :
    MakesOnly watching (waitLoop poll timeout left elapsed) := by
  induction left generalizing elapsed with
  | zero => trivial
  | succ left induction =>
      refine ⟨trivial, fun reply => ?_⟩
      cases reply with
      | ok statusCode => trivial
      | error raised =>
          simp only [done_and_then, on_failure_error]
          split
          · trivial
          split
          · trivial
          · refine ⟨trivial, fun reply => ?_⟩
            cases reply with
            | error raised => trivial
            | ok record =>
                simp only [done_and_then, on_value_ok]
                split
                · trivial
                · exact induction _

theorem wait_makes (settings : Settings) (timeout : Int) :
    MakesOnly watching (waitForContainer settings timeout) := by
  unfold waitForContainer
  dsimp only
  split
  · exact wait_loop_makes _ _ _ _
  · trivial

theorem stop_makes (status : Status) (note : String) :
    MakesOnly watching (stopContainer status note) := by
  refine ⟨trivial, fun killed => ?_⟩
  cases killed with
  | error raised => trivial
  | ok _ =>
      refine ⟨trivial, fun logged => ?_⟩
      cases logged with
      | error raised => trivial
      | ok logs => exact makes_only_mono _ watching_of_settling (settle_makes _)

theorem await_makes (settings : Settings) (kind : Kind) (sandbox : Sandbox) :
    MakesOnly watching (awaitContainer settings kind sandbox) := by
  have stopped : ∀ (status : Status) (note : String), MakesOnly watching
      (do stopContainer status note; return none : JobProgram (Option (String × Int))) := by
    intro status note
    apply makes_only_and_then _ _ (stop_makes status note)
    rintro (raised | _) <;> trivial
  apply makes_only_and_then _ _ (wait_makes settings sandbox.timeout)
  rintro (raised | statusCode)
  · dsimp only
    split
    · exact stopped _ _
    split
    · exact stopped _ _
    · trivial
  · refine ⟨trivial, fun logged => ?_⟩
    cases logged <;> trivial

theorem image_missing_makes (settings : Settings) (raised : Raised) :
    MakesOnly watching (imageMissing settings raised) := by
  unfold imageMissing
  split
  · refine ⟨trivial, fun reply => ?_⟩
    cases reply with
    | error raised => trivial
    | ok clock =>
        refine ⟨trivial, fun reply => ?_⟩
        cases reply <;> trivial
  · trivial

theorem watch_makes (settings : Settings) (kind : Kind) (sandbox : Sandbox) :
    MakesOnly watching (rescue (awaitContainer settings kind sandbox) (imageMissing settings)) := by
  apply makes_only_and_then _ _ (await_makes settings kind sandbox)
  rintro (raised | ended)
  · exact image_missing_makes settings raised
  · trivial

/-! ## What comes before and after it -/

theorem volumes_make (kind : Kind) (projectId : Option String) (workDir hostWork : Path) :
    MakesOnly preparing (prepareVolumes kind projectId workDir hostWork) := by
  unfold prepareVolumes
  split
  · trivial
  · apply makes_only_and_then
    · refine ⟨trivial, fun touched => ?_⟩
      cases touched with
      | error raised => trivial
      | ok _ =>
          simp only [done_and_then, on_value_ok]
          split
          · refine ⟨trivial, fun seeded => ?_⟩
            cases seeded with
            | error raised => trivial
            | ok _ =>
                refine ⟨trivial, fun mounted => ?_⟩
                cases mounted <;> trivial
          · trivial
    · rintro (raised | volumes) <;> trivial

theorem present_makes (outputDir : Path) : MakesOnly looking (presentOutput outputDir) := by
  refine ⟨trivial, fun directory => ?_⟩
  rcases directory with raised | _ | _
  · trivial
  · trivial
  · refine ⟨trivial, fun link => ?_⟩
    cases link <;> trivial

theorem zip_makes (outputDir zipPath : Path) (sandbox : Sandbox) (listFiles hasOutput : Bool) :
    MakesOnly packing (zipOutput outputDir zipPath sandbox listFiles hasOutput) := by
  unfold zipOutput
  split
  · refine ⟨trivial, fun zipped => ?_⟩
    cases zipped <;> trivial
  · trivial

theorem harvest_makes (kind : Kind) (projectId : Option String) (workDir : Path) (exitCode : Int)
    (extra : Fields) :
    MakesOnly harvesting (harvestGenerated kind projectId workDir exitCode extra) := by
  unfold harvestGenerated
  split
  · split
    · refine ⟨trivial, fun harvested => ?_⟩
      cases harvested <;> trivial
    · trivial
  · trivial

/-! ## The callback -/

theorem urlparse_makes (url : List Char) : MakesOnly validating (urlparse url) := by
  unfold urlparse
  split
  split
  · dsimp only
    split
    · trivial
    · refine ⟨trivial, fun reply => ?_⟩
      cases reply <;> trivial
  · trivial

theorem allowed_url_makes (settings : Settings) (url : List Char) :
    MakesOnly validating (isAllowedCallbackUrl settings url) := by
  apply makes_only_and_then _ _ (urlparse_makes url)
  rintro (raised | parsed)
  · dsimp only
    split <;> trivial
  · dsimp only
    split
    · trivial
    split
    · trivial
    · refine ⟨trivial, fun reply => ?_⟩
      cases reply with
      | ok infos => trivial
      | error raised =>
          simp only [done_and_then]
          split <;> trivial

theorem reporting_of_validating (request : JobCall) (validates : validating request) :
    reporting request := by
  cases request <;> trivial

theorem attempts_make (settings : Settings) (url : String) (body : Payload) (left : Nat)
    (lastError : Option Raised) :
    MakesOnly reporting (attemptDelivery settings url body left lastError) := by
  induction left generalizing lastError with
  | zero => exact ⟨rfl, fun _ => trivial⟩
  | succ left induction =>
      unfold attemptDelivery
      apply makes_only_and_then
      · refine ⟨trivial, fun posted => ?_⟩
        cases posted with
        | error raised => trivial
        | ok response =>
            simp only [done_and_then, on_value_ok, raiseForStatus]
            split
            · trivial
            · exact ⟨rfl, fun _ => trivial⟩
      · rintro (raised | _)
        · simp only [on_failure_error]
          split
          · exact induction _
          · trivial
        · trivial

theorem callback_makes (settings : Settings) (jobId : String) :
    MakesOnly reporting (sendCallback settings jobId) := by
  refine ⟨trivial, fun reply => ?_⟩
  rcases reply with raised | _ | data
  · trivial
  · trivial
  simp only [done_and_then, on_value_ok]
  split
  · trivial
  apply makes_only_and_then _ _
    (makes_only_mono _ reporting_of_validating (allowed_url_makes settings _))
  rintro (raised | allowed)
  · trivial
  simp only [on_value_ok]
  split
  · exact ⟨rfl, fun _ => trivial⟩
  · refine ⟨trivial, fun found => ?_⟩
    cases found with
    | error raised => trivial
    | ok hasArtifact => exact attempts_make settings _ _ _ _

theorem cleanup_makes (settings : Settings) (jobId : String) :
    MakesOnly reporting
      (do
        let data := (← storeGet .afterRun).getD {}
        sendCallback settings jobId
        jobCall .pruneExpiredJobs
        rescue
          (jobCall (.pruneAssetCache (Fields.namedProject data))) fun _ => return) := by
  refine ⟨trivial, fun reply => ?_⟩
  cases reply with
  | error raised => trivial
  | ok record =>
      apply makes_only_and_then _ _ (callback_makes settings jobId)
      rintro (raised | _)
      · trivial
      refine ⟨trivial, fun pruned => ?_⟩
      cases pruned with
      | error raised => trivial
      | ok _ =>
          refine ⟨trivial, fun evicted => ?_⟩
          cases evicted <;> trivial

/-! ## The whole run -/

def working : JobCall → Prop
  | .hgetall .preRun | .chmod _ | .fromEnv | .containersRun _ | .remove => True
  | request => watching request ∨ preparing request ∨ looking request ∨ packing request ∨
      harvesting request ∨ reporting request

theorem working_of_watching (request : JobCall) (watches : watching request) : working request := by
  cases request
  case hgetall reader => cases reader <;> first | trivial | exact .inl watches
  all_goals first | trivial | exact .inl watches

theorem working_of_preparing (request : JobCall) (prepares : preparing request) :
    working request := by
  cases request <;> first | trivial | exact .inr (.inl prepares)

theorem working_of_reporting (request : JobCall) (reports : reporting request) :
    working request := by
  cases request
  case hgetall reader =>
      cases reader <;> first | trivial | exact .inr (.inr (.inr (.inr (.inr reports))))
  all_goals first | trivial | exact .inr (.inr (.inr (.inr (.inr reports))))

theorem working_of_minding (request : JobCall) (minds : minding request) : working request := by
  cases request
  case remove => trivial
  all_goals exact working_of_watching _ minds

theorem working_of_packaging (request : JobCall) (packs : packaging request) : working request := by
  rcases packs with looks | packs | harvests | settles
  · cases request <;> first | trivial | exact .inr (.inr (.inl looks))
  · cases request <;> first | trivial | exact .inr (.inr (.inr (.inl packs)))
  · cases request <;> first | trivial | exact .inr (.inr (.inr (.inr (.inl harvests))))
  · exact working_of_watching request (watching_of_settling request settles)

theorem minding_of_watching (request : JobCall) (watches : watching request) : minding request := by
  cases request <;> trivial

theorem up_makes (settings : Settings) (kind : Kind) (sandbox : Sandbox) :
    MakesOnly minding
      (ensuring (rescue (awaitContainer settings kind sandbox) (imageMissing settings))
        removeContainer) := by
  apply makes_only_and_then _ _
    (makes_only_mono _ minding_of_watching (watch_makes settings kind sandbox))
  intro outcome
  refine ⟨trivial, fun removed => ?_⟩
  cases removed with
  | ok _ => trivial
  | error raised =>
      simp only [done_and_then, on_failure_error]
      split <;> trivial

theorem supervise_makes (settings : Settings) (kind : Kind) (sandbox : Sandbox)
    (kwargs : RunKwargs) : MakesOnly working (superviseContainer settings kind sandbox kwargs) := by
  refine ⟨trivial, fun started => ?_⟩
  cases started with
  | error raised => exact makes_only_mono _ working_of_watching (image_missing_makes settings raised)
  | ok _ => exact makes_only_mono _ working_of_minding (up_makes settings kind sandbox)

theorem package_makes (settings : Settings) (jobId : String) (kind : Kind) (sandbox : Sandbox)
    (listFiles : Bool) (projectId : Option String) (logs : String) (exitCode : Int) :
    MakesOnly packaging
      (packageOutput settings jobId kind sandbox listFiles projectId logs exitCode) := by
  apply makes_only_and_then _ _ (makes_only_mono _ (fun _ => .inl) (present_makes _))
  rintro (raised | hasOutput)
  · trivial
  apply makes_only_and_then _ _ (makes_only_mono _ (fun _ packs => .inr (.inl packs)) (zip_makes ..))
  rintro (raised | zipped)
  · trivial
  apply makes_only_and_then _ _
    (makes_only_mono _ (fun _ harvests => .inr (.inr (.inl harvests))) (harvest_makes ..))
  rintro (raised | extra)
  · trivial
  · exact makes_only_mono _ (fun _ settles => .inr (.inr (.inr settles))) (settle_makes _)

theorem sandboxed_makes (settings : Settings) (jobId : String) (kind : Kind) (command : String)
    (sandbox : Sandbox) (listFiles : Bool) :
    MakesOnly working (runSandboxed settings jobId kind command sandbox listFiles) := by
  have settles : ∀ fields : Nat → Fields,
      MakesOnly working (now >>= fun clock => storeUpdate (fields clock)) := fun fields =>
    makes_only_mono _ (fun request settles =>
      working_of_watching request (watching_of_settling request settles)) (settle_makes fields)
  unfold runSandboxed
  split
  · exact settles _
  · refine ⟨trivial, fun read => ?_⟩
    cases read with
    | error raised => trivial
    | ok record =>
        simp only [done_and_then, on_value_ok]
        split
        · exact settles _
        · rw [← bind_assoc]
          apply makes_only_and_then _ _ (settles _)
          rintro (raised | _)
          · trivial
          refine ⟨trivial, fun opened => ?_⟩
          cases opened with
          | error raised => trivial
          | ok _ =>
              apply makes_only_and_then _ _
                (makes_only_mono _ working_of_preparing (volumes_make ..))
              rintro (raised | volumes)
              · trivial
              refine ⟨trivial, fun connected => ?_⟩
              cases connected with
              | error raised => trivial
              | ok _ =>
                  apply makes_only_and_then _ _ (supervise_makes ..)
                  rintro (raised | _ | ⟨logs, exitCode⟩)
                  · trivial
                  · trivial
                  · exact makes_only_mono _ working_of_packaging (package_makes ..)

theorem run_makes (settings : Settings) (jobId : String) (kind : Kind) (command : String)
    (sandbox : Sandbox) (listFiles : Bool) :
    MakesOnly working (runJob settings jobId kind command sandbox listFiles) := by
  apply makes_only_and_then _ _ (sandboxed_makes ..)
  intro outcome
  apply makes_only_and_then _ _ (makes_only_mono _ working_of_reporting (cleanup_makes ..))
  rintro (raised | _) <;> trivial

theorem run_function_makes (job : Job) : MakesOnly working job.runFunction := by
  unfold Job.runFunction
  split <;> exact run_makes ..

/-! ## The endpoints -/

section Submission

variable {written : Fields → Prop}

theorem submitting_of_validating (request : JobCall) (validates : validating request) :
    submitting written request := by
  cases request <;> trivial

theorem check_token_makes (settings : Settings) (formToken authorization : Option String) :
    MakesOnly (submitting written) (checkToken settings formToken authorization) := by
  unfold checkToken
  split <;> trivial

theorem project_id_makes (value : Option String) :
    MakesOnly (submitting written) (projectIdField value) := by
  unfold projectIdField
  dsimp only
  split
  · trivial
  split <;> trivial

theorem store_create_makes (settings : Settings) (fields : Fields)
    (writes : ∀ status createdAt, written { fields with status, createdAt }) :
    MakesOnly (submitting written) (storeCreate settings fields) := by
  refine ⟨trivial, fun read => ?_⟩
  cases read with
  | error raised => trivial
  | ok created =>
      refine ⟨writes _ _, fun wrote => ?_⟩
      cases wrote with
      | error raised => trivial
      | ok _ => exact ⟨trivial, fun _ => trivial⟩

theorem intake_makes (settings : Settings) (callbackUrl : Option String) (fields : Fields)
    (writes : ∀ callbackUrl status createdAt,
      written { fields with callbackUrl, status, createdAt }) :
    MakesOnly (submitting written) (intake settings callbackUrl fields) := by
  have unpack : MakesOnly (submitting written) (unpackAndCreate settings
      { fields with callbackUrl := callbackUrl.filter (· ≠ "") }) := by
    refine ⟨trivial, fun made => ?_⟩
    cases made with
    | error raised => trivial
    | ok _ =>
        refine ⟨trivial, fun uploaded => ?_⟩
        cases uploaded with
        | error raised => trivial
        | ok _ =>
            refine ⟨trivial, fun extracted => ?_⟩
            cases extracted with
            | error raised =>
                refine ⟨trivial, fun removed => ?_⟩
                cases removed <;> trivial
            | ok _ =>
                refine ⟨trivial, fun removed => ?_⟩
                cases removed with
                | error raised => trivial
                | ok _ => exact store_create_makes settings _ (writes _)
  unfold intake
  cases callbackUrl with
  | none => exact unpack
  | some url =>
      apply makes_only_and_then _ _
        (makes_only_mono _ submitting_of_validating (allowed_url_makes settings _))
      rintro (raised | allowed)
      · trivial
      simp only [on_value_ok]
      split
      · trivial
      · exact unpack

theorem enqueue_makes (settings : Settings) (jobId : String) (queue : Kind)
    (projectId callbackUrl : Option String) (fields : Option String → Fields)
    (writes : ∀ project callbackUrl status createdAt,
      written { fields project with callbackUrl, status, createdAt }) :
    MakesOnly (submitting written) (do
      let project ← projectIdField projectId
      intake settings callbackUrl (fields project)
      jobCall (.enqueue queue)
      return queued jobId queue) := by
  apply makes_only_and_then _ _ (project_id_makes projectId)
  rintro (raised | project)
  · trivial
  apply makes_only_and_then _ _ (intake_makes _ _ _ (writes project))
  rintro (raised | _)
  · trivial
  refine ⟨trivial, fun entered => ?_⟩
  cases entered <;> trivial

theorem create_build_makes (settings : Settings) (jobId target : String)
    (projectId token callbackUrl authorization : Option String)
    (writes : ∀ project callbackUrl status createdAt, written
      { kind := some .build, target := some target, projectId := project, callbackUrl, status,
        createdAt }) :
    MakesOnly (submitting written)
      (createBuild settings jobId target projectId token callbackUrl authorization) := by
  apply makes_only_and_then _ _ (check_token_makes _ _ _)
  rintro (raised | _)
  · trivial
  · exact enqueue_makes settings jobId .build projectId callbackUrl (fun project =>
      { kind := some .build, target := some target, projectId := project }) writes

theorem create_generate_makes (settings : Settings) (jobId target : String) (assets : List String)
    (projectId token callbackUrl authorization : Option String)
    (writes : ∀ project callbackUrl status createdAt, written
      { kind := some .generate, target := some target,
        assets := some (" ".intercalate (assetNames assets)), projectId := project, callbackUrl,
        status, createdAt }) :
    MakesOnly (submitting written)
      (createGenerate settings jobId target assets projectId token callbackUrl authorization) := by
  apply makes_only_and_then _ _ (check_token_makes _ _ _)
  rintro (raised | _)
  · trivial
  dsimp only [on_value_ok]
  split
  · trivial
  · exact enqueue_makes settings jobId .generate projectId callbackUrl (fun project =>
      { kind := some .generate, target := some target,
        assets := some (" ".intercalate (assetNames assets)), projectId := project }) writes

theorem submit_makes (job : Job) : MakesOnly (submitting fun _ => True) job.submit := by
  unfold Job.submit
  split
  · exact create_build_makes _ _ _ _ _ _ _ fun _ _ _ _ => trivial
  · exact create_generate_makes _ _ _ _ _ _ _ _ fun _ _ _ _ => trivial

end Submission

theorem cancel_makes (kind : Kind) : MakesOnly cancelling (ApiEndpoints.cancel kind) := by
  have lost : ∀ raised : Raised, MakesOnly cancelling
      (if raised.kind = .noSuchJobError ∨ raised.kind = .invalidJobOperation then
        (return .cancelRequested : JobProgram CancelAnswer) else raise raised) := by
    intro raised
    split <;> trivial
  apply makes_only_and_then
  · refine ⟨trivial, fun loaded => ?_⟩
    rcases loaded with raised | _ | data
    · trivial
    · trivial
    · simp only [done_and_then, on_value_ok]
      split <;> trivial
  rintro (raised | data)
  · trivial
  simp only [on_value_ok]
  split
  · trivial
  refine ⟨trivial, fun flagged => ?_⟩
  cases flagged with
  | error raised => trivial
  | ok _ =>
      simp only [done_and_then, on_value_ok]
      split
      · refine ⟨trivial, fun fetched => ?_⟩
        cases fetched with
        | error raised => exact lost raised
        | ok _ =>
            refine ⟨trivial, fun cancelled => ?_⟩
            cases cancelled with
            | error raised => exact lost raised
            | ok _ =>
                refine ⟨trivial, fun read => ?_⟩
                cases read with
                | error raised => exact lost raised
                | ok finished =>
                    refine ⟨trivial, fun written => ?_⟩
                    cases written with
                    | error raised => exact lost raised
                    | ok _ => trivial
      · trivial

end PretextBuildServer.RunCalls
