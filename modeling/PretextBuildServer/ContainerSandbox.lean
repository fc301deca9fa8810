import PretextBuildServer.CacheMounts
import PretextBuildServer.RunJournal
import PretextBuildServer.ServerViews

/-!
# What a job's container may do and where it may write

The limits of a container come from the settings and its mounts are its job's
own: the job's work directory and, for a build, the cache of the project its own
submission named. So no two jobs' containers write to one directory of the host,
unless both are builds that name the same project.
-/

namespace PretextBuildServer.ContainerSandbox

open EffectProgram EffectProgram.Program InterleavedParties BinaryFloats
open PretextBuildServer.ServerSettings PretextBuildServer.JobRecord PretextBuildServer.JobCalls
open PretextBuildServer.NameValidators PretextBuildServer.StoreCalls
open PretextBuildServer.CompletionCallback PretextBuildServer.BuildWorker
open PretextBuildServer.ApiEndpoints PretextBuildServer.JobSystem PretextBuildServer.RunCalls
open PretextBuildServer.DiskCalls PretextBuildServer.AssetCache PretextBuildServer.CacheMounts
open PretextBuildServer.WholeServer PretextBuildServer.ServerQueues
open PretextBuildServer.ServerViews

set_option autoImplicit false

/-! ## What a job is entitled to -/

/-- The project a form names. -/
def namedIn (projectId : Option String) : Option String :=
  let text := strip (projectId.getD "").toList
  if text = [] then none else some (String.ofList text)

def requestedProject : Request → Option String
  | .build _ projectId .. | .generate _ _ projectId .. => namedIn projectId

def sandboxOf (job : Job) : Sandbox :=
  match job.request.kind with
  | .build => job.settings.buildSandbox
  | .generate => job.settings.generateSandbox

/-- Where the daemon finds the job's work directory. -/
def hostWork (settings : Settings) (jobId : String) : Path :=
  settings.hostDataDir.getD [] ++ ["jobs", jobId, "work"]

/-- A cache directory of the project the job's own submission named. -/
def IsOwnCache (job : Job) (volume : Path × Bind) : Prop :=
  job.request.kind = .build ∧ ∃ project, requestedProject job.request = some project ∧
    matchesProjectId project.toList = true ∧
      ∃ assetType ∈ job.settings.assetCacheTypes, volume = typeVolume job.settings project assetType

/-- Either the job's work directory or a cache of its project. -/
def IsOwnVolume (job : Job) (volume : Path × Bind) : Prop :=
  volume = (hostWork job.settings job.jobId, { bind := ["work"], mode := "rw" }) ∨
    IsOwnCache job volume

/-- No capabilities and no way to gain any, and the limits of the job's kind. -/
structure LockedDown (job : Job) (kwargs : RunKwargs) : Prop where
  image : kwargs.image = job.settings.buildImage
  command : kwargs.command = ["sh", "-c", job.command]
  network : kwargs.networkMode = job.settings.buildNetwork
  memory : kwargs.memLimit = (sandboxOf job).memLimit
  cpus : kwargs.nanoCpus = nanoCpus (sandboxOf job).cpus
  nearCpus : |(kwargs.nanoCpus : ℚ) - (sandboxOf job).cpus.number.value * 1000000000| <
    1 + |(sandboxOf job).cpus.number.value * 1000000000| / 2 ^ 53
  processes : kwargs.pidsLimit = (sandboxOf job).pidsLimit
  capabilities : kwargs.capDrop = ["ALL"]
  privileges : kwargs.securityOpt = ["no-new-privileges"]
  user : kwargs.user = if job.settings.buildUser != "" then some job.settings.buildUser else none
  environment : kwargs.environment = containerEnvironment job.settings

theorem nano_cpus_near (cpus : CpuCount) :
    |(nanoCpus cpus : ℚ) - cpus.number.value * 1000000000| <
      1 + |cpus.number.value * 1000000000| / 2 ^ 53 := by
  have near := truncated_product_near cpus.number 1000000000 (by decide) cpus.room
  rwa [Nat.cast_ofNat] at near

theorem run_kwargs_locked_down (job : Job) (volumes : Volumes) :
    LockedDown job (runKwargs job.settings job.command (sandboxOf job) volumes) :=
  ⟨rfl, rfl, rfl, rfl, rfl, nano_cpus_near _, rfl, rfl, rfl, rfl, rfl⟩

/-! ## What the cache answers -/

/-- Mounts of the caches of a project whose name is a plain slug. -/
def MountsOf (settings : Settings) (project : String) (volumes : Volumes) : Prop :=
  ∀ volume ∈ volumes, matchesProjectId project.toList = true ∧
    ∃ assetType ∈ settings.assetCacheTypes, volume = typeVolume settings project assetType

/-- `mounts` answers mounts of the project it is asked about. -/
def Honest (settings : Settings) : (request : JobCall) → JobReply request → Prop
  | .mounts project _, .ok volumes => MountsOf settings project volumes
  | _, _ => True

/-- Whatever its calls answer. -/
def anyDisk : Machine DiskCall.Answer Raised Unit where
  admits _ _ := True
  step _ _ _ _ := True

/-- That is all `asset_cache.mounts` can answer, whatever the disk does. -/
theorem mounts_honest (settings : Settings) (project : String) (workDir : Path) :
    Guarantees anyDisk
      (fun _ outcome => ∀ volumes, outcome = .ok volumes → MountsOf settings project volumes) ()
      (AssetCache.mounts settings project workDir) := by
  unfold AssetCache.mounts projectDir
  by_cases valid : matchesProjectId project.toList = true
  · rw [if_pos valid]
    refine ⟨trivial, fun made _ _ => ?_⟩
    cases made with
    | error raised => exact fun _ impossible => nomatch impossible
    | ok _ =>
        refine ⟨trivial, fun opened _ _ => ?_⟩
        cases opened with
        | error raised => exact fun _ impossible => nomatch impossible
        | ok _ =>
            refine guarantees_fold (fun _ volumes => MountsOf settings project volumes) _ _ ?_ _ _
              (fun _ none => absurd none List.not_mem_nil)
            intro _ volumes assetType listed these
            refine ⟨trivial, fun made _ _ => ?_⟩
            cases made with
            | error raised => exact fun _ impossible => nomatch impossible
            | ok _ =>
                rintro _ ⟨⟩ volume mem
                rcases mem_update_one.mp mem with rfl | ⟨old, -⟩
                · exact ⟨valid, assetType, listed, rfl⟩
                · exact these volume old
  · rw [if_neg valid]
    exact fun _ impossible => nomatch impossible

/-! ## The protocol -/

/-- What may be mounted once the record has named a project. -/
def Mountable (job : Job) (named : Option String) (volumes : Volumes) : Prop :=
  ∀ volume ∈ volumes,
    volume = (hostWork job.settings job.jobId, { bind := ["work"], mode := "rw" }) ∨
      job.request.kind = .build ∧ ∃ project, named = some project ∧
        matchesProjectId project.toList = true ∧
          ∃ assetType ∈ job.settings.assetCacheTypes,
            volume = typeVolume job.settings project assetType

/-- `named` is the project of the record as the worker has read it before the
run. -/
def sandboxAdmits (job : Job) (named : Option String) : JobCall → Prop
  | .hset fields => ∀ project, fields.projectId = some project →
      project ≠ "" → requestedProject job.request = some project
  | .containersRun kwargs => LockedDown job kwargs ∧ Mountable job named kwargs.volumes
  | _ => True

def sandboxStep (settings : Settings) (named : Option String) :
    (request : JobCall) → JobReply request → Option String → Prop
  | .hgetall .preRun, reply, after =>
      ∃ record : Option Fields, reply = .ok record ∧ after = Fields.namedProject (record.getD {})
  | request, reply, after => after = named ∧ Honest settings request reply

def sandboxMachine (job : Job) : Machine JobCall.Answer Raised (Option String) where
  admits := sandboxAdmits job
  step := sandboxStep job.settings

/-- No write, no container, no mount and no look at the record before the run. -/
def plainCall : JobCall → Bool
  | .hset _ | .containersRun _ | .mounts .. | .hgetall .preRun => false
  | _ => true

section Parts

variable {job : Job} {named : Option String}

theorem plain_guarantees {Result : Type} (program : JobProgram Result)
    (only : MakesOnly (fun request => plainCall request = true) program) :
    Guarantees (sandboxMachine job) (fun after _ => after = named) named program := by
  refine guarantees_of_makes_only named program only ?_ ?_
  · intro request plain
    cases request <;> trivial
  · intro request reply after plain step
    cases request
    case hgetall reader =>
        cases reader
        case preRun => cases plain
        all_goals exact step.1
    all_goals exact step.1

theorem plain_of {Result : Type} {allowed : JobCall → Prop} (program : JobProgram Result)
    (only : MakesOnly allowed program)
    (implied : ∀ request, allowed request → plainCall request = true) :
    Guarantees (sandboxMachine job) (fun after _ => after = named) named program :=
  plain_guarantees program (makes_only_mono program implied only)

theorem write_keeps (fields : Fields) (nameless : fields.projectId = none) :
    Guarantees (sandboxMachine job) (fun after _ => after = named) named (storeUpdate fields) := by
  refine ⟨fun project some => ?_, fun _ _ step => step.1⟩
  rw [nameless] at some
  cases some

theorem stamp_keeps (fields : Nat → Fields) (nameless : ∀ clock, (fields clock).projectId = none) :
    Guarantees (sandboxMachine job) (fun after _ => after = named) named
      (now >>= fun clock => storeUpdate (fields clock)) := by
  refine ⟨trivial, ?_⟩
  rintro read _ ⟨rfl, -⟩
  cases read with
  | error raised => rfl
  | ok clock => exact write_keeps _ (nameless clock)

theorem wait_plain (settings : Settings) (timeout : Int) :
    MakesOnly (fun request => plainCall request = true) (waitForContainer settings timeout) := by
  refine makes_only_mono _ (fun request asks => ?_) (RunJournal.wait_polls settings timeout)
  cases request
  case hgetall reader => cases reader <;> first | rfl | cases asks
  case wait => rfl
  all_goals cases asks

theorem stop_keeps (status : Status) (note : String) :
    Guarantees (sandboxMachine job) (fun after _ => after = named) named
      (stopContainer status note) := by
  refine ⟨trivial, ?_⟩
  rintro killed _ ⟨rfl, -⟩
  cases killed with
  | error raised => rfl
  | ok _ =>
      refine ⟨trivial, ?_⟩
      rintro logged _ ⟨rfl, -⟩
      cases logged with
      | error raised => rfl
      | ok logs => exact stamp_keeps _ fun _ => rfl

theorem await_keeps (settings : Settings) (kind : Kind) (sandbox : Sandbox) :
    Guarantees (sandboxMachine job) (fun after _ => after = named) named
      (awaitContainer settings kind sandbox) := by
  refine guarantees_seq _ _ _ (plain_guarantees _ (wait_plain _ _)) ?_
  have stopped : ∀ (status : Status) (note : String),
      Guarantees (sandboxMachine job) (fun after _ => after = named) named
        (do stopContainer status note; return none : JobProgram (Option (String × Int))) := by
    intro status note
    refine guarantees_seq _ _ _ (stop_keeps status note) ?_
    rintro _ (raised | _) rfl <;> rfl
  rintro _ (raised | statusCode) rfl
  · dsimp only
    split
    · exact stopped _ _
    split
    · exact stopped _ _
    · rfl
  · refine ⟨trivial, ?_⟩
    rintro logged _ ⟨rfl, -⟩
    cases logged <;> rfl

theorem image_missing_keeps (settings : Settings) (raised : Raised) :
    Guarantees (sandboxMachine job) (fun after _ => after = named) named
      (imageMissing settings raised) := by
  unfold imageMissing
  split
  · rw [← bind_assoc]
    refine guarantees_seq _ _ _ (stamp_keeps _ fun _ => rfl) ?_
    rintro _ (raised | _) rfl <;> rfl
  · rfl

theorem remove_plain :
    MakesOnly (fun request => plainCall request = true) removeContainer := by
  refine ⟨rfl, fun removed => ?_⟩
  cases removed with
  | ok _ => trivial
  | error raised =>
      simp only [done_and_then, on_failure_error]
      split <;> trivial

theorem supervise_keeps (settings : Settings) (kind : Kind) (sandbox : Sandbox)
    (kwargs : RunKwargs) (locked : LockedDown job kwargs)
    (mountable : Mountable job named kwargs.volumes) :
    Guarantees (sandboxMachine job) (fun after _ => after = named) named
      (superviseContainer settings kind sandbox kwargs) := by
  refine ⟨⟨locked, mountable⟩, ?_⟩
  rintro started after ⟨same, -⟩
  subst after
  cases started with
  | error raised => exact image_missing_keeps settings raised
  | ok _ =>
      simp only [done_and_then, ensuring]
      refine guarantees_seq _ _ _ (?_ : Guarantees _ (fun after _ => after = named) _ _) ?_
      · refine guarantees_seq _ _ _ (await_keeps settings kind sandbox) ?_
        rintro _ (raised | ended) rfl
        · exact image_missing_keeps settings raised
        · rfl
      · rintro _ outcome rfl
        refine guarantees_seq _ _ _ (plain_guarantees _ remove_plain) ?_
        rintro _ (raised | _) rfl <;> rfl

/-! ### The mounts -/

theorem mountable_work : Mountable job named (workVolume (hostWork job.settings job.jobId)) := by
  intro volume mem
  exact .inl (List.mem_singleton.mp mem)

theorem mountable_update {project : String} {mounted : Volumes}
    (isBuild : job.request.kind = .build) (names : named = some project)
    (honest : MountsOf job.settings project mounted) :
    Mountable job named ((workVolume (hostWork job.settings job.jobId)).update mounted) := by
  intro volume mem
  rcases (update_covers (fun volume mem => (honest volume mem).2) volume).1 mem with own | cache
  · exact .inl (List.mem_singleton.mp own)
  · exact .inr ⟨isBuild, project, names, honest volume cache⟩

theorem volumes_keep (workDir : Path) :
    Guarantees (sandboxMachine job)
      (fun after outcome => after = named ∧ ∀ volumes, outcome = .ok volumes →
        Mountable job named volumes)
      named
      (prepareVolumes job.request.kind named workDir (hostWork job.settings job.jobId)) := by
  have work : ∀ volumes : Volumes,
      (Except.ok (workVolume (hostWork job.settings job.jobId)) : Except Raised Volumes) =
        .ok volumes → Mountable job named volumes := by
    rintro _ ⟨⟩
    exact mountable_work
  unfold prepareVolumes
  cases named with
  | none => exact ⟨rfl, work⟩
  | some project =>
      refine guarantees_seq _ _ _ (?_ : Guarantees _ (fun after outcome => after = some project ∧
        ∀ volumes, outcome = .ok volumes → Mountable job (some project) volumes) _ _) ?_
      · refine ⟨trivial, ?_⟩
        rintro touched after ⟨same, -⟩
        subst after
        cases touched with
        | error raised => exact ⟨rfl, fun _ impossible => nomatch impossible⟩
        | ok _ =>
            simp only [done_and_then, on_value_ok]
            split
            · rename_i isBuild
              refine ⟨trivial, ?_⟩
              rintro seeded after ⟨same, -⟩
              subst after
              cases seeded with
              | error raised => exact ⟨rfl, fun _ impossible => nomatch impossible⟩
              | ok _ =>
                  refine ⟨trivial, ?_⟩
                  rintro mounted after ⟨same, honest⟩
                  subst after
                  cases mounted with
                  | error raised => exact ⟨rfl, fun _ impossible => nomatch impossible⟩
                  | ok volumes =>
                      refine ⟨rfl, ?_⟩
                      rintro _ ⟨⟩
                      exact mountable_update isBuild rfl honest
            · exact ⟨rfl, work⟩
      · rintro _ (raised | volumes) ⟨rfl, mountable⟩
        · exact ⟨rfl, work⟩
        · exact ⟨rfl, mountable⟩

/-! ### The end of a run -/

theorem zip_keeps (outputDir zipPath : Path) (sandbox : Sandbox) (listFiles hasOutput : Bool) :
    Guarantees (sandboxMachine job)
      (fun after outcome => after = named ∧ ∀ fields, outcome = .ok fields →
        fields.projectId = none)
      named (zipOutput outputDir zipPath sandbox listFiles hasOutput) := by
  unfold zipOutput
  split
  · refine ⟨trivial, ?_⟩
    rintro zipped _ ⟨rfl, -⟩
    cases zipped with
    | error raised => exact ⟨rfl, fun _ impossible => nomatch impossible⟩
    | ok names =>
        refine ⟨rfl, ?_⟩
        rintro _ ⟨⟩
        rfl
  · refine ⟨rfl, ?_⟩
    rintro _ ⟨⟩
    rfl

theorem harvest_keeps (kind : Kind) (projectId : Option String) (workDir : Path) (exitCode : Int)
    (extra : Fields) (nameless : extra.projectId = none) :
    Guarantees (sandboxMachine job)
      (fun after outcome => after = named ∧ ∀ fields, outcome = .ok fields →
        fields.projectId = none)
      named (harvestGenerated kind projectId workDir exitCode extra) := by
  have unharvested : ∀ fields, (Except.ok extra : Except Raised Fields) = .ok fields →
      fields.projectId = none := by
    rintro _ ⟨⟩
    exact nameless
  unfold harvestGenerated
  split
  · split
    · refine ⟨trivial, ?_⟩
      rintro harvested _ ⟨rfl, -⟩
      cases harvested with
      | error raised => exact ⟨rfl, unharvested⟩
      | ok cached =>
          refine ⟨rfl, ?_⟩
          rintro _ ⟨⟩
          exact nameless
    · exact ⟨rfl, unharvested⟩
  · exact ⟨rfl, unharvested⟩

theorem ended_nameless (kind : Kind) (subdir : String) (hasOutput : Bool) (logs : String)
    (exitCode : Int) {extra : Fields} (nameless : extra.projectId = none) (clock : Nat) :
    (endedFields kind subdir hasOutput logs exitCode extra clock).projectId = none := by
  unfold endedFields
  split
  · exact nameless
  split
  · rfl
  · exact nameless

theorem package_keeps (settings : Settings) (jobId : String) (kind : Kind) (sandbox : Sandbox)
    (listFiles : Bool) (projectId : Option String) (logs : String) (exitCode : Int) :
    Guarantees (sandboxMachine job) (fun after _ => after = named) named
      (packageOutput settings jobId kind sandbox listFiles projectId logs exitCode) := by
  refine guarantees_seq _ _ _ (plain_of _ (present_makes _) fun request looks => by
    cases request <;> first | rfl | cases looks) ?_
  rintro _ (raised | hasOutput) rfl
  · rfl
  refine guarantees_seq _ _ _ (zip_keeps ..) ?_
  rintro _ (raised | zipped) ⟨rfl, nameless⟩
  · rfl
  refine guarantees_seq _ _ _ (harvest_keeps _ _ _ _ _ (nameless zipped rfl)) ?_
  rintro _ (raised | extra) ⟨rfl, nameless⟩
  · rfl
  · exact stamp_keeps _ fun clock => ended_nameless _ _ _ _ _ (nameless extra rfl) clock

theorem attempts_keep (settings : Settings) (url : String) (body : Payload) (left : Nat)
    (lastError : Option Raised) :
    Guarantees (sandboxMachine job) (fun after _ => after = named) named
      (attemptDelivery settings url body left lastError) := by
  induction left generalizing lastError with
  | zero => exact write_keeps _ rfl
  | succ left induction =>
      unfold attemptDelivery
      refine guarantees_seq _ _ _ (?_ : Guarantees _ (fun after _ => after = named) _ _) ?_
      · refine ⟨trivial, ?_⟩
        rintro posted _ ⟨rfl, -⟩
        cases posted with
        | error raised => rfl
        | ok response =>
            simp only [done_and_then, on_value_ok, raiseForStatus]
            split
            · rfl
            · exact write_keeps _ rfl
      · rintro after (raised | _) same
        · subst after
          simp only [on_failure_error]
          split
          · exact induction _
          · rfl
        · exact same

theorem callback_keeps (settings : Settings) (jobId : String) :
    Guarantees (sandboxMachine job) (fun after _ => after = named) named
      (sendCallback settings jobId) := by
  refine ⟨trivial, ?_⟩
  rintro (raised | _ | data) _ ⟨rfl, -⟩
  · rfl
  · rfl
  simp only [done_and_then, on_value_ok]
  split
  · rfl
  refine guarantees_seq _ _ _ (plain_of _ (allowed_url_makes settings _) fun request asks => by
    cases request <;> first | rfl | cases asks) ?_
  rintro _ (raised | allowed) rfl
  · rfl
  simp only [on_value_ok]
  split
  · exact write_keeps _ rfl
  · refine ⟨trivial, ?_⟩
    rintro found _ ⟨rfl, -⟩
    cases found with
    | error raised => rfl
    | ok hasArtifact => exact attempts_keep _ _ _ _ _

theorem sandboxed_keeps (listFiles : Bool) :
    Guarantees (sandboxMachine job) (fun _ _ => True) named
      (runSandboxed job.settings job.jobId job.request.kind job.command (sandboxOf job)
        listFiles) := by
  unfold runSandboxed
  cases host : job.settings.hostDataDir with
  | none => exact guarantees_mono _ _ (fun _ _ _ => trivial) (stamp_keeps _ fun _ => rfl)
  | some hostDataDir =>
      have mounted : hostDataDir ++ ["jobs", job.jobId, "work"] =
          hostWork job.settings job.jobId := by
        rw [hostWork, host]
        rfl
      refine ⟨trivial, ?_⟩
      rintro _ _ ⟨record, rfl, rfl⟩
      simp only [done_and_then, on_value_ok, mounted]
      split
      · exact guarantees_mono _ _ (fun _ _ _ => trivial) (stamp_keeps _ fun _ => rfl)
      rw [← bind_assoc]
      refine guarantees_seq _ _ _ (stamp_keeps _ fun _ => rfl) ?_
      rintro _ (raised | _) rfl
      · trivial
      refine ⟨trivial, ?_⟩
      rintro opened after ⟨same, -⟩
      subst after
      cases opened with
      | error raised => trivial
      | ok _ =>
          simp only [done_and_then, on_value_ok]
          refine guarantees_seq _ _ _ (volumes_keep _) ?_
          rintro _ (raised | volumes) ⟨rfl, mountable⟩
          · trivial
          refine ⟨trivial, ?_⟩
          rintro connected after ⟨same, -⟩
          subst after
          cases connected with
          | error raised => trivial
          | ok _ =>
              simp only [done_and_then, on_value_ok]
              refine guarantees_seq _ _ _ (supervise_keeps _ _ _ _
                (run_kwargs_locked_down job volumes) (mountable volumes rfl)) ?_
              rintro _ (raised | _ | ⟨logs, exitCode⟩) rfl
              · trivial
              · trivial
              · exact guarantees_mono _ _ (fun _ _ _ => trivial) (package_keeps ..)

theorem cleanup_keeps (settings : Settings) (jobId : String) :
    Guarantees (sandboxMachine job) (fun _ _ => True) named
      (do
        let data := (← storeGet .afterRun).getD {}
        sendCallback settings jobId
        jobCall .pruneExpiredJobs
        rescue
          (jobCall (.pruneAssetCache (Fields.namedProject data))) fun _ => return) := by
  refine ⟨trivial, ?_⟩
  rintro (raised | record) _ ⟨rfl, -⟩
  · trivial
  simp only [done_and_then, on_value_ok]
  refine guarantees_seq _ _ _ (callback_keeps settings jobId) ?_
  rintro _ (raised | _) rfl
  · trivial
  refine guarantees_mono _ _ (fun _ _ _ => trivial) (plain_guarantees _ ⟨rfl, fun pruned => ?_⟩)
  cases pruned with
  | error raised => trivial
  | ok _ =>
      refine ⟨rfl, fun evicted => ?_⟩
      cases evicted <;> trivial

theorem run_function_keeps : Guarantees (sandboxMachine job) (fun _ _ => True) named
    job.runFunction := by
  have runs : ∀ listFiles, Guarantees (sandboxMachine job) (fun _ _ => True) named
      (runJob job.settings job.jobId job.request.kind job.command (sandboxOf job) listFiles) := by
    intro listFiles
    refine guarantees_seq _ _ _ (sandboxed_keeps listFiles) fun _ outcome _ => ?_
    refine guarantees_seq _ _ _ (cleanup_keeps ..) ?_
    rintro _ (raised | _) - <;> trivial
  unfold Job.runFunction
  cases kind : job.request.kind with
  | build =>
      have sandbox : sandboxOf job = job.settings.buildSandbox := by rw [sandboxOf, kind]
      have run := runs false
      rwa [kind, sandbox] at run
  | generate =>
      have sandbox : sandboxOf job = job.settings.generateSandbox := by rw [sandboxOf, kind]
      have run := runs true
      rwa [kind, sandbox] at run

theorem work_keeps : Guarantees (sandboxMachine job) (fun _ _ => True) named job.work := by
  refine ⟨trivial, ?_⟩
  rintro (raised | _) _ ⟨rfl, -⟩
  · trivial
  · simp only [done_and_then, on_value_ok]
    refine guarantees_seq _ _ _ run_function_keeps fun _ outcome _ => ⟨trivial, ?_⟩
    intro finished _ _
    trivial

/-! ### The endpoints -/

/-- What `submit` may write. -/
def NamesRequested (job : Job) (fields : Fields) : Prop :=
  ∀ project, fields.projectId = some project →
    project ≠ "" → requestedProject job.request = some project

theorem submitting_guarantees {Result : Type} (program : JobProgram Result)
    (only : MakesOnly (submitting (NamesRequested job)) program) :
    Guarantees (sandboxMachine job) (fun after _ => after = named) named program := by
  refine guarantees_of_makes_only named program only ?_ ?_
  · intro request makes
    cases request
    case hset fields => exact makes
    all_goals trivial
  · intro request reply after makes step
    cases request
    case hgetall reader => cases makes
    all_goals exact step.1

theorem project_id_answers (value : Option String) :
    (∃ raised, projectIdField value = raise raised) ∨ projectIdField value = pure (namedIn value) := by
  unfold projectIdField namedIn
  dsimp only
  split
  · exact .inr rfl
  split
  · exact .inl ⟨_, rfl⟩
  · exact .inr rfl

theorem submit_names : MakesOnly (submitting (NamesRequested job)) job.submit := by
  have rest : ∀ (queue : Kind) (projectId callbackUrl : Option String)
      (fields : Option String → Fields), requestedProject job.request = namedIn projectId →
      (∀ project, (fields project).projectId = project) →
      MakesOnly (submitting (NamesRequested job)) (do
        let project ← projectIdField projectId
        intake job.settings callbackUrl (fields project)
        jobCall (.enqueue queue)
        return queued job.jobId queue) := by
    intro queue projectId callbackUrl fields requested carries
    rcases project_id_answers projectId with ⟨raised, raises⟩ | answers
    · rw [raises]
      trivial
    · rw [answers, pure_bind]
      refine makes_only_and_then _ _ (intake_makes _ _ _ fun _ _ _ project names _ => ?_) ?_
      · rw [requested, ← carries (namedIn projectId)]
        exact names
      · rintro (raised | _)
        · trivial
        · refine ⟨trivial, fun entered => ?_⟩
          cases entered <;> trivial
  unfold Job.submit
  cases request : job.request with
  | build target projectId token callbackUrl authorization =>
      refine makes_only_and_then _ _ (check_token_makes _ _ _) ?_
      rintro (raised | _)
      · trivial
      · exact rest .build projectId callbackUrl (fun project =>
          { kind := some .build, target := some target, projectId := project })
          (by rw [request]; rfl) fun _ => rfl
  | generate target assets projectId token callbackUrl authorization =>
      refine makes_only_and_then _ _ (check_token_makes _ _ _) ?_
      rintro (raised | _)
      · trivial
      dsimp only [on_value_ok]
      split
      · trivial
      · exact rest .generate projectId callbackUrl (fun project =>
          { kind := some .generate, target := some target,
            assets := some (" ".intercalate (assetNames assets)), projectId := project })
          (by rw [request]; rfl) fun _ => rfl

theorem cancel_keeps (kind : Kind) :
    Guarantees (sandboxMachine job) (fun _ _ => True) named (ApiEndpoints.cancel kind) := by
  have lost : ∀ (state : Option String) (raised : Raised),
      Guarantees (sandboxMachine job) (fun _ _ => True) state
        (if raised.kind = .noSuchJobError ∨ raised.kind = .invalidJobOperation then
          (return .cancelRequested : JobProgram CancelAnswer) else raise raised) := by
    intro state raised
    split <;> trivial
  have loads : MakesOnly (fun request => plainCall request = true) (load kind) := by
    refine ⟨rfl, fun loaded => ?_⟩
    rcases loaded with raised | _ | data
    · trivial
    · trivial
    · simp only [done_and_then, on_value_ok]
      split <;> trivial
  refine guarantees_seq _ _ _ (plain_guarantees _ loads) ?_
  rintro _ (raised | data) rfl
  · trivial
  simp only [on_value_ok]
  split
  · trivial
  refine guarantees_seq _ _ _ (write_keeps _ rfl) ?_
  rintro _ (raised | _) rfl
  · trivial
  simp only [on_value_ok]
  split
  · refine guarantees_seq _ _ _ (?_ : Guarantees _ (fun _ _ => True) _ _) ?_
    · refine guarantees_seq _ _ _ (plain_guarantees (jobCall .fetchJob) ⟨rfl, fun _ => trivial⟩) ?_
      rintro _ (raised | _) rfl
      · trivial
      refine guarantees_seq _ _ _ (plain_guarantees (jobCall .cancelJob) ⟨rfl, fun _ => trivial⟩) ?_
      rintro _ (raised | _) rfl
      · trivial
      simp only [on_value_ok]
      rw [← bind_assoc]
      refine guarantees_seq _ _ _ (stamp_keeps _ fun _ => rfl) ?_
      rintro _ (raised | _) rfl <;> trivial
    · rintro state (raised | answer) -
      · exact lost state raised
      · trivial
  · trivial

theorem program_keeps (job : Job) (named : Option String) (party : Party) :
    Guarantees (sandboxMachine job) (fun _ _ => True) named (job.program party) := by
  cases party with
  | submission =>
      exact guarantees_mono _ _ (fun _ _ _ => trivial) (submitting_guarantees _ submit_names)
  | worker => exact work_keeps
  | cancel index => exact cancel_keeps _

end Parts

/-! ## All interleavings -/

/-- The job alone, with a cache that answers mounts of the project it is asked
about. -/
def honestJob (job : Job) (lifetime : Lifetime) :
    Surroundings JobCall.Answer Raised JobWorld Party :=
  (jobSurroundings lifetime).restrict fun _ _ request reply => Honest job.settings request reply

/-- Whatever the record or a party's reading of it names, the submission has
named. -/
def Entitled (job : Job) (world : JobWorld) (named : Party → Option String) : Prop :=
  (∀ key, world.record = some key → NamesRequested job key.fields) ∧
    ∀ party project, named party = some project → requestedProject job.request = some project

section Steps

variable {job : Job} {lifetime : Lifetime} {world after : JobWorld}

theorem record_of_step (request : JobCall) (reply : JobReply request)
    (step : jobStep lifetime world request reply after) (key : Key)
    (found : after.record = some key) :
    (∃ old, world.record = some old ∧ key.fields = old.fields) ∨
      ∃ fields, request = .hset fields ∧ hset world.record fields = some key := by
  have kept : after.record = world.record →
      ∃ old, world.record = some old ∧ key.fields = old.fields :=
    fun same => ⟨key, same ▸ found, rfl⟩
  cases request
  case hgetall reader =>
      obtain ⟨-, rfl⟩ := step
      exact .inl (kept (by cases reader <;> rfl))
  case hset fields =>
      obtain ⟨-, rfl⟩ := step
      exact .inr ⟨fields, rfl, found⟩
  case expire seconds =>
      obtain ⟨-, rfl⟩ := step
      refine .inl ?_
      cases lifetime with
      | persistent =>
          obtain ⟨old, stored, rfl⟩ := Option.map_eq_some_iff.mp found
          exact ⟨old, stored, rfl⟩
      | expiring =>
          obtain ⟨set, -⟩ := Option.filter_eq_some_iff.mp found
          obtain ⟨old, stored, rfl⟩ := Option.map_eq_some_iff.mp set
          exact ⟨old, stored, rfl⟩
  case takeFromQueue =>
      obtain ⟨-, -, rfl⟩ := step
      exact .inl (kept rfl)
  case cancelJob =>
      simp only [jobStep] at step
      split at step
      · exact .inl (kept (by rw [step.2]))
      · exact .inl (kept (by rw [step.2]))
  case containersRun | wait | kill =>
      obtain ⟨-, rfl⟩ := step
      exact .inl (kept (by cases reply <;> rfl))
  all_goals
    obtain ⟨-, rfl⟩ := step
    exact .inl (kept rfl)

theorem names_after_write {record : Option Key} {fields : Fields} {key : Key}
    (before : ∀ old, record = some old → NamesRequested job old.fields)
    (writes : NamesRequested job fields) (stored : hset record fields = some key) :
    NamesRequested job key.fields := by
  intro project names
  cases record with
  | none =>
      obtain rfl := Option.some.inj stored
      exact writes project names
  | some old =>
      obtain rfl := Option.some.inj stored
      cases written : fields.projectId with
      | some other =>
          have same : other = project := by simpa [Fields.override, written] using names
          exact writes project (same ▸ written)
      | none =>
          have same : old.fields.projectId = some project := by
            simpa [Fields.override, written] using names
          exact before old rfl project same

theorem entitled_read {record : Option Key}
    (names : ∀ key, record = some key → NamesRequested job key.fields) (project : String)
    (read : Fields.namedProject ((record.map Key.fields).getD {}) = some project) :
    requestedProject job.request = some project := by
  obtain ⟨stored, nonempty⟩ := Option.filter_eq_some_iff.mp read
  cases record with
  | none => cases stored
  | some key => exact names key rfl project stored (by simpa using nonempty)

theorem entitled_upheld (job : Job) (lifetime : Lifetime) :
    Upholds (honestJob job lifetime) (fun _ => sandboxMachine job) (Entitled job) where
  act world named party request reply after entitled admitted step := by
    obtain ⟨recorded, read⟩ := entitled
    obtain ⟨stepped, honest⟩ := step
    have stored : ∀ key, after.record = some key → NamesRequested job key.fields := by
      intro key found
      rcases record_of_step request reply stepped key found with
        ⟨old, before, same⟩ | ⟨fields, rfl, writes⟩
      · rw [same]
        exact recorded old before
      · exact names_after_write recorded admitted writes
    have keeps : ∀ phase, (∀ project, phase = some project →
        requestedProject job.request = some project) →
        Entitled job after (Function.update named party phase) := by
      intro phase entitled
      refine ⟨stored, fun other project names => ?_⟩
      by_cases same : other = party
      · subst same
        rw [Function.update_self] at names
        exact entitled project names
      · rw [Function.update_of_ne same] at names
        exact read other project names
    by_cases looks : request = .hgetall .preRun
    · subst looks
      obtain ⟨rfl, -⟩ := stepped
      exact ⟨_, ⟨_, rfl, rfl⟩, keeps _ fun project names => entitled_read recorded project names⟩
    · refine ⟨named party, ?_, keeps _ (read party)⟩
      cases request
      case hgetall reader =>
          cases reader
          case preRun => exact absurd rfl looks
          all_goals exact ⟨rfl, honest⟩
      all_goals exact ⟨rfl, honest⟩
  drift world named after entitled drifts := by
    refine ⟨fun key found => ?_, entitled.2⟩
    cases drifts with
    | tick later passes =>
        cases lifetime with
        | persistent => exact entitled.1 key found
        | expiring => exact entitled.1 key (Option.filter_eq_some_iff.mp found).1
    | forget past => exact entitled.1 key found
    | exit statusCode up => exact entitled.1 key found

end Steps

def startsContainer {Result : Type} : JobProgram Result → Option RunKwargs
  | .call (.containersRun kwargs) _ => some kwargs
  | _ => none

theorem container_own (job : Job) (lifetime : Lifetime) (clock : Nat) (reached : JobConfiguration)
    (reaches : Reaches (honestJob job lifetime) (job.start clock) reached) (party : Party)
    (kwargs : RunKwargs) (starting : startsContainer (reached.rest party) = some kwargs) :
    LockedDown job kwargs ∧ ∀ volume ∈ kwargs.volumes, IsOwnVolume job volume := by
  have unnamed : Entitled job (job.start clock).world fun _ => none :=
    ⟨fun _ found => (nomatch found), fun _ _ names => (nomatch names)⟩
  have follows : Keeps (fun _ => sandboxMachine job) (fun _ _ _ => True) (fun _ => none)
      (job.start clock) := fun party => program_keeps job none party
  obtain ⟨named, ⟨-, read⟩, keeps⟩ :=
    keeps_reaches (entitled_upheld job lifetime) _ unnamed follows reaches
  have owed := keeps party
  revert owed starting
  cases reached.rest party with
  | done outcome => nofun
  | call request next =>
      cases request
      case containersRun =>
          rintro ⟨⟩ ⟨⟨locked, mountable⟩, -⟩
          refine ⟨locked, fun volume mem => ?_⟩
          rcases mountable volume mem with own | ⟨isBuild, project, names, cache⟩
          · exact .inl own
          · exact .inr ⟨isBuild, project, read party project names, cache⟩
      all_goals nofun

section Server

variable {Index : Type} [DecidableEq Index]

def honestServer (workload : Workload Index) (lifetime : Lifetime) (replicas : Kind → Nat) :
    Surroundings JobCall.Answer Raised ServerWorld (ServerParty Index) :=
  (serverSurroundings workload lifetime replicas).restrict fun _ party request reply =>
    Honest (workload.job party.1).settings request reply

theorem seen_alone (workload : Workload Index) (lifetime : Lifetime) (replicas : Kind → Nat)
    (clock : Nat) (reached : ServerConfiguration Index)
    (reaches : Reaches (honestServer workload lifetime replicas) (workload.start clock) reached)
    (index : Index) :
    Reaches (honestJob (workload.job index) lifetime) ((workload.job index).start clock)
      ((jobView workload index).part reached) :=
  part_reaches
    (projects_restrict (job_projects index) _
      (fun _ _ request reply => Honest (workload.job index).settings request reply)
      fun _ _ _ _ honest => honest)
    (upholds_restrict queues_upheld _) _ (start_upheld clock) (start_keeps_protocols clock)
    reaches

/-- Whatever else the server is doing: a container that is about to be started is
locked down, and all it may write to on the host is its own job's. -/
theorem containers_locked_in (workload : Workload Index) (lifetime : Lifetime)
    (replicas : Kind → Nat) (clock : Nat) (reached : ServerConfiguration Index)
    (reaches : Reaches (honestServer workload lifetime replicas) (workload.start clock) reached)
    (index : Index) (party : Party) (kwargs : RunKwargs)
    (starting : startsContainer (reached.rest (index, party)) = some kwargs) :
    LockedDown (workload.job index) kwargs ∧
      ∀ volume ∈ kwargs.volumes, IsOwnVolume (workload.job index) volume :=
  container_own (workload.job index) lifetime clock _
    (seen_alone workload lifetime replicas clock reached reaches index) party kwargs starting

end Server

/-! ## Two jobs on one host -/

/-- Neither path leads into the other. -/
def Apart (one other : Path) : Prop := ¬ one <+: other ∧ ¬ other <+: one

theorem apart_heads {one other : Path} {first second : String} (differ : first ≠ second) :
    Apart (first :: one) (second :: other) := by
  constructor
  · rw [List.cons_prefix_cons]
    exact fun within => differ within.1
  · rw [List.cons_prefix_cons]
    exact fun within => differ within.1.symm

theorem apart_below (base : Path) {one other : Path} (apart : Apart one other) :
    Apart (base ++ one) (base ++ other) := by
  obtain ⟨down, up⟩ := apart
  exact ⟨by rwa [List.prefix_append_right_inj], by rwa [List.prefix_append_right_inj]⟩

def SharedCache (first second : Job) (one other : Path × Bind) : Prop :=
  first.request.kind = .build ∧ second.request.kind = .build ∧ ∃ project,
    requestedProject first.request = some project ∧
      requestedProject second.request = some project ∧
        hostRoot first.settings ++ [project] <+: one.1 ∧
          hostRoot second.settings ++ [project] <+: other.1

theorem own_volumes_apart {first second : Job} (same : first.settings = second.settings)
    (ids : first.jobId ≠ second.jobId) (layout : first.settings.assetCacheSubdir ≠ "jobs")
    {one other : Path × Bind} (own : IsOwnVolume first one) (foreign : IsOwnVolume second other) :
    Apart one.1 other.1 ∨ SharedCache first second one other := by
  have caches : ∀ (settings : Settings) (project assetType : String),
      (typeVolume settings project assetType).1 =
        settings.hostDataDir.getD [] ++ settings.assetCacheSubdir :: [project, assetType] := by
    intro settings project assetType
    simp [typeVolume, hostRoot]
  rcases own with rfl | ⟨isBuild, project, names, -, assetType, -, rfl⟩
  · rcases foreign with rfl | ⟨-, project, -, -, assetType, -, rfl⟩
    · left
      rw [hostWork, hostWork, same]
      exact apart_below _ (apart_below ["jobs"] (apart_heads ids))
    · left
      rw [caches, hostWork, same]
      exact apart_below _ (apart_heads (same ▸ layout.symm))
  · rcases foreign with rfl | ⟨isBuildToo, twin, namesToo, -, otherType, -, rfl⟩
    · left
      rw [caches, hostWork, same]
      exact apart_below _ (apart_heads (same ▸ layout))
    · by_cases differ : project = twin
      · subst differ
        refine .inr ⟨isBuild, isBuildToo, project, names, namesToo, ?_, ?_⟩
        · exact List.prefix_append _ _
        · exact List.prefix_append _ _
      · left
        rw [caches, caches, same]
        exact apart_below _ (apart_below [_] (apart_heads differ))

section Isolation

variable {Index : Type} [DecidableEq Index]

/-- The containers of two jobs, whenever they are started, write to no common
directory of the host but the cache both submissions have named. -/
theorem containers_keep_apart (workload : Workload Index) (settings : Settings)
    (uniform : ∀ index, (workload.job index).settings = settings)
    (layout : settings.assetCacheSubdir ≠ "jobs") (lifetime : Lifetime) (replicas : Kind → Nat)
    (clock : Nat) (reached later : ServerConfiguration Index)
    (reaches : Reaches (honestServer workload lifetime replicas) (workload.start clock) reached)
    (further : Reaches (honestServer workload lifetime replicas) (workload.start clock) later)
    (first second : Index) (distinct : first ≠ second) (party other : Party)
    (kwargs others : RunKwargs)
    (starting : startsContainer (reached.rest (first, party)) = some kwargs)
    (startingToo : startsContainer (later.rest (second, other)) = some others) :
    ∀ one ∈ kwargs.volumes, ∀ volume ∈ others.volumes, Apart one.1 volume.1 ∨
      SharedCache (workload.job first) (workload.job second) one volume := by
  intro one mem volume listed
  have own := (container_own _ lifetime clock _
    (seen_alone workload lifetime replicas clock reached reaches first) party
    kwargs starting).2 one mem
  have foreign := (container_own _ lifetime clock _
    (seen_alone workload lifetime replicas clock later further second) other
    others startingToo).2 volume listed
  exact own_volumes_apart ((uniform first).trans (uniform second).symm)
    (fun same => distinct (workload.id_injective same)) ((uniform first).symm ▸ layout) own foreign

end Isolation

/-! ## Two builds that are both under way -/

def cachedBuilds : Workload (Fin 2) where
  job index := match index with
    | 0 => { plainBuild with
        jobId := "first", request := .build "web" (some "alpha") (some "token") none none }
    | 1 => { plainBuild with
        jobId := "second", request := .build "web" (some "beta") (some "token") none none }
  fresh first second := by
    revert first second
    decide

def mountingServer (jobId : String) (world : ServerWorld) :
    (request : JobCall) → JobReply request × ServerWorld
  | .mounts project _ =>
      (.ok (if matchesProjectId project.toList then
        defaults.assetCacheTypes.map (typeVolume plainBuild.settings project) else []), world)
  | request => obligingServer .persistent (fun _ => 2) jobId world request

theorem mounting_server_step (index : Fin 2) (world : ServerWorld) (request : JobCall)
    (turn : serverTurn (fun _ => 2) (cachedBuilds.id index) world request = true) :
    serverStep .persistent (fun _ => 2) (cachedBuilds.id index) world request
        (mountingServer (cachedBuilds.id index) world request).1
        (mountingServer (cachedBuilds.id index) world request).2 ∧
      Honest (cachedBuilds.job index).settings request
        (mountingServer (cachedBuilds.id index) world request).1 := by
  have settings : (cachedBuilds.job index).settings = plainBuild.settings := by
    match index with
    | 0 => rfl
    | 1 => rfl
  cases request
  case mounts project workDir =>
      refine ⟨⟨fun _ impossible => (nomatch impossible), rfl⟩, ?_⟩
      intro volume mem
      by_cases valid : matchesProjectId project.toList = true
      · rw [if_pos valid] at mem
        obtain ⟨assetType, listed, rfl⟩ := List.mem_map.mp mem
        exact ⟨valid, assetType, settings ▸ listed, by rw [settings]⟩
      · rw [if_neg valid] at mem
        exact absurd mem List.not_mem_nil
  all_goals exact ⟨obliging_server_step _ _ _ world _ turn, trivial⟩

def bothStarting : ServerConfiguration (Fin 2) :=
  playBy (fun world party request => serverTurn (fun _ => 2) (cachedBuilds.id party.1) world request)
    (fun party => mountingServer (cachedBuilds.id party.1))
    (List.replicate 8 (0, .submission) ++ List.replicate 8 (1, .submission) ++
      List.replicate 9 (0, .worker) ++ List.replicate 9 (1, .worker))
    (cachedBuilds.start 0)

theorem both_starting_reached :
    Reaches (honestServer cachedBuilds .persistent fun _ => 2) (cachedBuilds.start 0)
      bothStarting :=
  play_by_reaches _ _ _ (fun world party request turn =>
    mounting_server_step party.1 world request turn) _ _

theorem first_build_locked_in : ∃ kwargs,
    startsContainer (bothStarting.rest (0, .worker)) = some kwargs ∧
      LockedDown (cachedBuilds.job 0) kwargs ∧
        ∀ volume ∈ kwargs.volumes, IsOwnVolume (cachedBuilds.job 0) volume := by
  obtain ⟨kwargs, starting⟩ := Option.isSome_iff_exists.mp
    (by decide +kernel : (startsContainer (bothStarting.rest (0, .worker))).isSome = true)
  exact ⟨kwargs, starting, containers_locked_in cachedBuilds .persistent (fun _ => 2) 0 bothStarting
    both_starting_reached 0 .worker kwargs starting⟩

theorem two_builds_keep_apart : ∃ kwargs others,
    startsContainer (bothStarting.rest (0, .worker)) = some kwargs ∧
      startsContainer (bothStarting.rest (1, .worker)) = some others ∧
        ∀ one ∈ kwargs.volumes, ∀ volume ∈ others.volumes, Apart one.1 volume.1 ∨
          SharedCache (cachedBuilds.job 0) (cachedBuilds.job 1) one volume := by
  obtain ⟨kwargs, starting⟩ := Option.isSome_iff_exists.mp
    (by decide +kernel : (startsContainer (bothStarting.rest (0, .worker))).isSome = true)
  obtain ⟨others, startingToo⟩ := Option.isSome_iff_exists.mp
    (by decide +kernel : (startsContainer (bothStarting.rest (1, .worker))).isSome = true)
  refine ⟨kwargs, others, starting, startingToo, ?_⟩
  exact containers_keep_apart cachedBuilds plainBuild.settings
    (fun index => match index with
      | 0 => rfl
      | 1 => rfl)
    (by decide) .persistent (fun _ => 2) 0 bothStarting bothStarting both_starting_reached
    both_starting_reached 0 1 (by decide) .worker .worker kwargs others starting startingToo

end PretextBuildServer.ContainerSandbox
