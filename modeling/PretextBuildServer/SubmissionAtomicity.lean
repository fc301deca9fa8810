import PretextBuildServer.WorkerProtocol

/-!
# What a submission leaves behind when it fails

A submission makes a directory, a record and a queue entry, in this order. Only
the extraction cleans up after itself: a submission is all or nothing exactly if
no other step from the upload on fails.
-/

namespace PretextBuildServer.SubmissionAtomicity

open EffectProgram EffectProgram.Program
open PretextBuildServer.ServerSettings PretextBuildServer.JobRecord PretextBuildServer.JobCalls
open PretextBuildServer.StoreCalls PretextBuildServer.CallbackUrl PretextBuildServer.ApiEndpoints
open PretextBuildServer.JobSystem PretextBuildServer.WorkerProtocol

set_option autoImplicit false

/-- How much of the archive has been extracted. -/
inductive Extracted where
  | nothing
  | part
  | all
  deriving DecidableEq, Repr

structure JobDir where
  upload : Bool := false
  work : Extracted := .nothing
  deriving DecidableEq, Repr

/-- An entry of a queue, with what the worker that takes it will find. -/
structure QueueEntry where
  kind : Kind
  record : Option Key
  dir : Option JobDir
  deriving DecidableEq

/-- What there is of one job, all of it under the job's id. -/
structure Premises where
  calls : Nat := 0
  dir : Option JobDir := none
  record : Option Key := none
  queue : List QueueEntry := []
  deriving DecidableEq

/-- The answers to the calls of a submission, by the number of calls made
before; a step fails if its answer is an exception. -/
abbrev Answers := Nat → (request : JobCall) → JobReply request

/-- What a step does if it does not fail. -/
def Premises.done (world : Premises) : JobCall → Premises
  | .makeWorkDir => { world with dir := some {} }
  | .writeUpload => { world with dir := world.dir.map ({ · with upload := true }) }
  | .extractUpload => { world with dir := world.dir.map ({ · with work := .all }) }
  | .removeUpload => { world with dir := world.dir.map ({ · with upload := false }) }
  | .hset fields => { world with record := hset world.record fields }
  | .expire seconds => { world with record := JobRecord.expire 0 seconds world.record }
  | .enqueue kind =>
      { world with queue := world.queue ++ [{ kind, record := world.record, dir := world.dir }] }
  | _ => world

/-- What a failed step leaves. -/
def Premises.failed (world : Premises) : JobCall → Premises
  | .writeUpload => { world with dir := world.dir.map ({ · with upload := true }) }
  | .extractUpload => { world with dir := world.dir.map ({ · with work := .part }) }
  | _ => world

def Premises.counted (world : Premises) : Premises := { world with calls := world.calls + 1 }

variable (answers : Answers)

/-- `rmtree` with `ignore_errors` raises nothing, and is taken to work. -/
def submissionHandler : Handler JobCall.Answer Raised Premises
  | world, .removeJobDir => (.ok (), { world.counted with dir := none })
  | world, request =>
      (answers world.calls request,
        (match answers world.calls request with
          | .ok _ => world.done request
          | .error _ => world.failed request).counted)

/-- The steps after whose failure nothing is left: those before the directory is
made, and the extraction. -/
def leavesNothing : JobCall → Bool
  | .checkNetloc _ | .getaddrinfo _ | .makeWorkDir | .extractUpload | .removeJobDir => true
  | _ => false

def FailsClean (world : Premises) (request : JobCall) : Prop :=
  ∀ raised, answers world.calls request = .error raised → leavesNothing request = true

/-- There is no directory, no record and no queue entry. -/
def Premises.Nothing (world : Premises) : Prop :=
  world.dir = none ∧ world.record = none ∧ world.queue = []

/-- There is one queue entry, and when it was made there were a record that says
so and a directory with the whole archive extracted. -/
def Premises.Submitted (world : Premises) (kind : Kind) : Prop :=
  ∃ key, key.fields.status = some .queued ∧ world.record = some key ∧
    world.queue = [{ kind, record := some key, dir := some { work := .all } }]

def AllOrNothing (kind : Kind) (jobId : String) (world : Premises) :
    Except Raised QueuedResponse → Prop
  | .ok response => response = queued jobId kind ∧ world.Submitted kind
  | .error _ => world.Nothing

section Steps

variable {answers} {kind : Kind} {jobId : String} {world : Premises}

/-- From here on, all or nothing is the same as failing clean. -/
def Fair (answers : Answers) (kind : Kind) (jobId : String) (world : Premises)
    (program : JobProgram QueuedResponse) : Prop :=
  AllOrNothing kind jobId (run (submissionHandler answers) world program).2
      (run (submissionHandler answers) world program).1 ↔
    AtEachCall (submissionHandler answers) (FailsClean answers) world program

theorem handler_step {request : JobCall} (plain : request ≠ .removeJobDir) :
    submissionHandler answers world request =
      (answers world.calls request,
        (match answers world.calls request with
          | .ok _ => world.done request
          | .error _ => world.failed request).counted) := by
  cases request <;> first | rfl | exact absurd rfl plain

theorem fair_error (nothing : world.Nothing) (raised : Raised) :
    Fair answers kind jobId world (.done (.error raised)) :=
  iff_of_true nothing trivial

/-- One step: if it fails, what is left is as `leavesNothing` has it. -/
theorem fair_step {request : JobCall} {next : request.Answer → JobProgram QueuedResponse}
    (plain : request ≠ .removeJobDir)
    (fails : (world.failed request).Nothing ↔ leavesNothing request = true)
    (goes : ∀ value, Fair answers kind jobId (world.done request).counted (next value)) :
    Fair answers kind jobId world (jobCall request >>= next) := by
  unfold Fair
  rw [bind_is_and_then, run_and_then, at_each_call_and_then, run_perform, handler_step plain]
  have here : AtEachCall (submissionHandler answers) (FailsClean answers) world
      (jobCall request) ↔ FailsClean answers world request := and_iff_left trivial
  rw [here]
  unfold FailsClean
  cases reply : answers world.calls request with
  | error raised =>
      refine (show _ ↔ _ from fails).trans ⟨fun clean => ⟨fun _ _ => clean, trivial⟩, fun clean => ?_⟩
      exact clean.1 raised rfl
  | ok value =>
      refine (show _ ↔ _ from goes value).trans ⟨fun clean => ⟨nofun, clean⟩, And.right⟩

/-- The checks that leave no trace, whatever they answer. -/
def validates (request : JobCall) : Prop :=
  (∃ netloc, request = .checkNetloc netloc) ∨ ∃ hostname, request = .getaddrinfo hostname

theorem validation_leaves {Result : Type} {program : JobProgram Result}
    (only : MakesOnly validates program) (nothing : world.Nothing) :
    (run (submissionHandler answers) world program).2.Nothing ∧
      AtEachCall (submissionHandler answers) (FailsClean answers) world program := by
  induction program generalizing world with
  | done outcome => exact ⟨nothing, trivial⟩
  | call request next induction =>
      obtain ⟨validation, further⟩ := only
      have still : (submissionHandler answers world request).2.Nothing := by
        rcases validation with ⟨netloc, rfl⟩ | ⟨hostname, rfl⟩
        · simp only [submissionHandler]
          split <;> exact nothing
        · simp only [submissionHandler]
          split <;> exact nothing
      have clean : FailsClean answers world request := by
        rcases validation with ⟨netloc, rfl⟩ | ⟨hostname, rfl⟩
        · exact fun _ _ => rfl
        · exact fun _ _ => rfl
      exact ⟨(induction _ (further _) still).1, clean, (induction _ (further _) still).2⟩

theorem fair_validated {Result : Type} {first : JobProgram Result}
    {next : Result → JobProgram QueuedResponse} (only : MakesOnly validates first)
    (nothing : world.Nothing)
    (rest : ∀ world value, world.Nothing → Fair answers kind jobId world (next value)) :
    Fair answers kind jobId world (first >>= next) := by
  obtain ⟨still, clean⟩ := @validation_leaves answers world _ first only nothing
  unfold Fair
  rw [bind_is_and_then, run_and_then, at_each_call_and_then, and_iff_right clean]
  cases (run (submissionHandler answers) world first).1 with
  | error raised => exact fair_error still raised
  | ok value => exact rest _ value still

theorem urlparse_validates (url : List Char) : MakesOnly validates (urlparse url) := by
  unfold urlparse
  split
  split
  · dsimp only
    split
    · trivial
    · refine ⟨.inl ⟨_, rfl⟩, fun reply => ?_⟩
      cases reply <;> trivial
  · trivial

theorem allowed_url_validates (settings : Settings) (url : List Char) :
    MakesOnly validates (isAllowedCallbackUrl settings url) := by
  apply makes_only_and_then _ _ (urlparse_validates url)
  rintro (raised | parsed)
  · dsimp only
    split <;> trivial
  · dsimp only
    split
    · trivial
    split
    · trivial
    · refine ⟨.inr ⟨_, rfl⟩, fun reply => ?_⟩
      cases reply with
      | ok infos => trivial
      | error raised =>
          simp only [done_and_then]
          split <;> trivial

theorem fair_extract {next : JobCall.extractUpload.Answer → JobProgram QueuedResponse}
    (unrecorded : world.record = none) (unqueued : world.queue = [])
    (goes : Fair answers kind jobId (world.done .extractUpload).counted (next ())) :
    Fair answers kind jobId world
      (rescue (jobCall .extractUpload) (fun (raised : Raised) => do
        jobCall .removeJobDir
        httpException 422 s!"Could not extract archive: {raised.message}") >>= next) := by
  have clean : FailsClean answers world .extractUpload := fun _ _ => rfl
  unfold Fair
  rw [bind_is_and_then, run_and_then, at_each_call_and_then, rescue, run_and_then,
    at_each_call_and_then, run_perform, handler_step (by simp)]
  have here : AtEachCall (submissionHandler answers) (FailsClean answers) world
      (jobCall .extractUpload) := ⟨clean, trivial⟩
  rw [and_iff_right here]
  cases answers world.calls .extractUpload with
  | error raised => exact iff_of_true ⟨rfl, unrecorded, unqueued⟩ ⟨⟨fun _ _ => rfl, trivial⟩, trivial⟩
  | ok value => exact (show _ ↔ _ from goes).trans (and_iff_right trivial).symm

theorem fair_unpack (settings : Settings) (fields : Fields) (noStatus : fields.status = none)
    (made : world.dir = some {}) (unrecorded : world.record = none) (unqueued : world.queue = []) :
    Fair answers kind jobId world (do
      jobCall .writeUpload
      rescue (jobCall .extractUpload) fun (raised : Raised) => do
        jobCall .removeJobDir
        httpException 422 s!"Could not extract archive: {raised.message}"
      jobCall .removeUpload
      storeCreate settings fields
      jobCall (.enqueue kind)
      return queued jobId kind) := by
  have stays : ∀ {world : Premises} {dir : JobDir}, world.dir = some dir →
      (world.Nothing ↔ false = true) := by
    rintro world dir some
    simp [Premises.Nothing, some]
  apply fair_step (by simp)
  · exact stays (by simp [Premises.failed, made]; rfl)
  intro _
  apply fair_extract
  · exact unrecorded
  · exact unqueued
  apply fair_step (by simp)
  · exact stays (by simp [Premises.failed, Premises.done, Premises.counted, made]; rfl)
  intro _
  unfold storeCreate
  simp only [bind_assoc]
  apply fair_step (by simp)
  · exact stays (by simp [Premises.failed, Premises.done, Premises.counted, made]; rfl)
  intro clock
  apply fair_step (by simp)
  · exact stays (by simp [Premises.failed, Premises.done, Premises.counted, made]; rfl)
  intro _
  apply fair_step (by simp)
  · exact stays (by simp [Premises.failed, Premises.done, Premises.counted, made]; rfl)
  intro _
  apply fair_step (by simp)
  · exact stays (by simp [Premises.failed, Premises.done, Premises.counted, made]; rfl)
  intro _
  refine iff_of_true ⟨rfl, ?_⟩ trivial
  simp [Premises.Submitted, Premises.done, Premises.counted, made, unrecorded, unqueued, noStatus,
    hset, JobRecord.expire]

theorem fair_intake (settings : Settings) (callbackUrl : Option String) (fields : Fields)
    (noStatus : fields.status = none) (nothing : world.Nothing) :
    Fair answers kind jobId world (do
      intake settings callbackUrl fields
      jobCall (.enqueue kind)
      return queued jobId kind) := by
  have unpack : ∀ world : Premises, world.Nothing → Fair answers kind jobId world (do
      unpackAndCreate settings { fields with callbackUrl := callbackUrl.filter (· ≠ "") }
      jobCall (.enqueue kind)
      return queued jobId kind) := by
    intro world nothing
    simp only [unpackAndCreate, bind_assoc]
    apply fair_step (by simp)
    · exact iff_of_true nothing rfl
    intro _
    exact fair_unpack settings _ noStatus rfl nothing.2.1 nothing.2.2
  unfold intake
  cases callbackUrl with
  | none => exact unpack world nothing
  | some url =>
      simp only [bind_assoc]
      apply fair_validated (allowed_url_validates settings url.toList) nothing
      intro world allowed nothing
      cases allowed with
      | false => exact fair_error nothing _
      | true => exact unpack world nothing

theorem token_validates (settings : Settings) (token authorization : Option String) :
    MakesOnly validates (checkToken settings token authorization) := by
  unfold checkToken
  split <;> trivial

theorem project_validates (projectId : Option String) :
    MakesOnly validates (projectIdField projectId) := by
  unfold projectIdField
  dsimp only
  split
  · trivial
  split <;> trivial

theorem fair_submit (job : Job) (nothing : world.Nothing) :
    Fair answers job.request.kind job.jobId world job.submit := by
  unfold Job.submit
  split
  · rename_i target projectId token callbackUrl authorization same
    rw [same]
    apply fair_validated (token_validates _ _ _) nothing
    intro world _ nothing
    apply fair_validated (project_validates projectId) nothing
    intro world project nothing
    exact fair_intake _ _ _ rfl nothing
  · rename_i target assets projectId token callbackUrl authorization same
    rw [same]
    apply fair_validated (token_validates _ _ _) nothing
    intro world _ nothing
    dsimp only
    split
    · exact fair_error nothing _
    · apply fair_validated (project_validates projectId) nothing
      intro world project nothing
      exact fair_intake _ _ _ rfl nothing

end Steps

/-- A submission is all or nothing exactly if every step that fails is one
after which nothing is left. -/
theorem submission_all_or_nothing_iff (answers : Answers) (job : Job) :
    AllOrNothing job.request.kind job.jobId (run (submissionHandler answers) {} job.submit).2
        (run (submissionHandler answers) {} job.submit).1 ↔
      AtEachCall (submissionHandler answers) (FailsClean answers) {} job.submit :=
  fair_submit job ⟨rfl, rfl, rfl⟩

/-- Redis is gone when the job is put on its queue. -/
def failingEnqueue : Answers
  | _, .enqueue _ => .error { kind := .other }
  | _, request => (obliging .persistent { clock := 0 } request).1

/-- The request fails, and its directory and a record that says `queued` stay. -/
theorem failed_enqueue_leaves_record :
    ¬ ∀ (answers : Answers) (job : Job),
      AllOrNothing job.request.kind job.jobId (run (submissionHandler answers) {} job.submit).2
        (run (submissionHandler answers) {} job.submit).1 := by
  intro always
  have left := always failingEnqueue plainBuild
  have failed : (run (submissionHandler failingEnqueue) {} plainBuild.submit).1 =
      .error { kind := .other } := by decide +kernel
  have stays : (run (submissionHandler failingEnqueue) {} plainBuild.submit).2.dir =
      some { work := .all } := by decide +kernel
  rw [failed] at left
  have gone := left.1
  rw [stays] at gone
  cases gone

end PretextBuildServer.SubmissionAtomicity
