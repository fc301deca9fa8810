import PretextBuildServer.Library.SystemViews
import PretextBuildServer.RecordExpiry
import PretextBuildServer.WholeServer
import Mathlib.Data.List.Nodup

/-!
# The queues of the whole server

What is put on a queue is, at any time, waiting in it, begun by a worker or
taken off by a cancel request, and one of these only, once. A queue holds jobs
of its own kind and hands them out in the order they came in. This is proved
from the protocols the parties of a single job keep to, and with it each job is
seen to run as if it were the only one.
-/

namespace PretextBuildServer.ServerQueues

open EffectProgram EffectProgram.Program InterleavedParties
open PretextBuildServer.ServerSettings PretextBuildServer.JobRecord PretextBuildServer.JobCalls
open PretextBuildServer.StoreCalls PretextBuildServer.ApiEndpoints PretextBuildServer.JobSystem
open PretextBuildServer.WorkerProtocol PretextBuildServer.RequestProtocols
open PretextBuildServer.LifeCycle PretextBuildServer.RecordExpiry PretextBuildServer.WholeServer

set_option autoImplicit false

/-! ## Each kind has its own queue -/

/-- Put on no queue but the one of this kind. -/
def OwnQueue (kind : Kind) : JobCall → Prop
  | .enqueue queue => queue = kind
  | _ => True

theorem quiet_own_queue {Result : Type} {kind : Kind} (program : JobProgram Result)
    (only : MakesOnly (fun request => quiet request = true) program) :
    MakesOnly (OwnQueue kind) program :=
  makes_only_mono program (fun request isQuiet => by cases request <;> trivial) only

theorem intake_own_queue (kind : Kind) (settings : Settings) (callbackUrl : Option String)
    (fields : Fields) : MakesOnly (OwnQueue kind) (intake settings callbackUrl fields) := by
  have unpack : MakesOnly (OwnQueue kind) (unpackAndCreate settings
      { fields with callbackUrl := callbackUrl.filter (· ≠ "") }) := by
    refine ⟨trivial, fun made => ?_⟩
    cases made with
    | error raised => trivial
    | ok _ =>
    refine ⟨trivial, fun written => ?_⟩
    cases written with
    | error raised => trivial
    | ok _ =>
    refine ⟨trivial, fun extracted => ?_⟩
    cases extracted with
    | error raised => exact ⟨trivial, fun removed => by cases removed <;> trivial⟩
    | ok _ =>
    refine ⟨trivial, fun removed => ?_⟩
    cases removed with
    | error raised => trivial
    | ok _ =>
    refine ⟨trivial, fun clock => ?_⟩
    cases clock with
    | error raised => trivial
    | ok clock =>
    refine ⟨trivial, fun stored => ?_⟩
    cases stored with
    | error raised => trivial
    | ok _ => exact ⟨trivial, fun _ => trivial⟩
  unfold intake
  cases callbackUrl with
  | none => exact unpack
  | some url =>
      refine makes_only_and_then _ _ (quiet_own_queue _ (allowed_url_quiet settings _)) ?_
      rintro (raised | allowed)
      · trivial
      · simp only [on_value_ok]
        split
        · trivial
        · exact unpack

theorem submit_own_queue (job : Job) : MakesOnly (OwnQueue job.request.kind) job.submit := by
  have rest : ∀ (kind : Kind) (project callbackUrl : Option String)
      (fields : Option String → Fields),
      MakesOnly (OwnQueue kind) (do
        let project ← projectIdField project
        intake job.settings callbackUrl (fields project)
        jobCall (.enqueue kind)
        return queued job.jobId kind) := by
    intro kind project callbackUrl fields
    refine makes_only_and_then _ _ (quiet_own_queue _ (project_id_quiet _)) ?_
    rintro (raised | project)
    · trivial
    refine makes_only_and_then _ _ (intake_own_queue kind _ _ _) ?_
    rintro (raised | _)
    · trivial
    refine ⟨rfl, fun answered => ?_⟩
    cases answered <;> trivial
  unfold Job.submit
  cases job.request with
  | build target projectId token callbackUrl authorization =>
      refine makes_only_and_then _ _ (quiet_own_queue _ (check_token_quiet ..)) ?_
      rintro (raised | _)
      · trivial
      · exact rest .build projectId callbackUrl fun project =>
          { kind := some .build, target := some target, projectId := project }
  | generate target assets projectId token callbackUrl authorization =>
      refine makes_only_and_then _ _ (quiet_own_queue _ (check_token_quiet ..)) ?_
      rintro (raised | _)
      · trivial
      simp only [on_value_ok]
      split
      · trivial
      · exact rest .generate projectId callbackUrl fun project =>
          { kind := some .generate, target := some target,
            assets := some (" ".intercalate (assetNames assets)), projectId := project }

/-- The protocols of one job, with the submission held to its own queue. -/
def queueProtocol (job : Job) : (party : Party) → Machine JobCall.Answer Raised (Phase party)
  | .submission => (jobProtocol job false .submission).within (OwnQueue job.request.kind)
  | .worker => jobProtocol job false .worker
  | .cancel index => jobProtocol job false (.cancel index)

theorem program_follows (job : Job) (party : Party) :
    Guarantees (queueProtocol job party) (JobEnded false party) (startPhases party)
      (job.program party) := by
  have keeps := start_keeps job 0 false nofun party
  cases party with
  | submission => exact guarantees_within _ _ keeps (submit_own_queue job)
  | worker => exact keeps
  | cancel index => exact keeps

theorem own_queue_of_admitted (job : Job) (party : Party) (phase : Phase party)
    (request : JobCall) (admitted : (queueProtocol job party).admits phase request) :
    OwnQueue job.request.kind request := by
  cases party with
  | submission => exact admitted.2
  | worker => cases request <;> trivial
  | cancel index => cases request <;> trivial

/-! ## What the discipline is -/

variable {Index : Type} {workload : Workload Index}

structure QueueDiscipline (workload : Workload Index) (rq : Rq) : Prop where
  own : ∀ kind, ∀ jobId ∈ rq.enqueued kind,
    ∃ index, workload.id index = jobId ∧ workload.kind index = kind
  once : ∀ kind, (rq.enqueued kind).Nodup
  inOrder : ∀ kind, (rq.begun kind ++ rq.queues kind).Sublist (rq.enqueued kind)
  accounted : ∀ kind, (rq.begun kind ++ rq.queues kind ++ rq.dropped kind).Perm (rq.enqueued kind)
  waiting : ∀ kind, ∀ jobId ∈ rq.queues kind, rq.registry jobId = .queued
  listed : ∀ index, rq.registry (workload.id index) = .queued →
    workload.id index ∈ rq.queues (workload.kind index)

section Discipline

variable {rq : Rq} {index : Index} {kind : Kind}

theorem QueueDiscipline.kind_of (discipline : QueueDiscipline workload rq)
    (present : workload.id index ∈ rq.enqueued kind) : workload.kind index = kind := by
  obtain ⟨same, sameId, kindIs⟩ := discipline.own kind _ present
  rw [← workload.id_injective sameId, kindIs]

theorem QueueDiscipline.enqueued_of_waiting (discipline : QueueDiscipline workload rq)
    {jobId : String} (waits : jobId ∈ rq.queues kind) : jobId ∈ rq.enqueued kind :=
  (discipline.inOrder kind).subset (List.mem_append_right _ waits)

theorem QueueDiscipline.queue_nodup (discipline : QueueDiscipline workload rq) (kind : Kind) :
    (rq.begun kind ++ rq.queues kind).Nodup :=
  (discipline.once kind).sublist (discipline.inOrder kind)

theorem QueueDiscipline.begun_off_queue (discipline : QueueDiscipline workload rq)
    (begun : workload.id index ∈ rq.begun (workload.kind index)) (kind : Kind) :
    workload.id index ∉ rq.queues kind := by
  intro waits
  obtain rfl := discipline.kind_of (discipline.enqueued_of_waiting waits)
  exact (List.nodup_append.mp (discipline.queue_nodup _)).2.2 _ begun _ waits rfl

theorem discipline_enqueue (discipline : QueueDiscipline workload rq)
    (fresh : ∀ kind, workload.id index ∉ rq.enqueued kind) :
    QueueDiscipline workload (rq.enqueue (workload.id index) (workload.kind index)) := by
  constructor
  case own =>
    intro kind jobId present
    by_cases same : kind = workload.kind index
    · subst same
      simp only [Rq.enqueue, Function.update_self, List.mem_append, List.mem_singleton] at present
      rcases present with before | rfl
      · exact discipline.own _ _ before
      · exact ⟨index, rfl, rfl⟩
    · simp only [Rq.enqueue, Function.update_of_ne same] at present
      exact discipline.own _ _ present
  case once =>
    intro kind
    by_cases same : kind = workload.kind index
    · subst same
      simpa [Rq.enqueue] using List.Nodup.concat (fresh _) (discipline.once _)
    · simpa [Rq.enqueue, same] using discipline.once kind
  case inOrder =>
    intro kind
    by_cases same : kind = workload.kind index
    · subst same
      simpa [Rq.enqueue, Rq.register, ← List.append_assoc] using
        (discipline.inOrder _).append_right [workload.id index]
    · simpa [Rq.enqueue, Rq.register, same] using discipline.inOrder kind
  case accounted =>
    intro kind
    by_cases same : kind = workload.kind index
    · subst same
      simp only [Rq.enqueue, Rq.register, Function.update_self]
      calc (rq.begun _ ++ (rq.queues _ ++ [workload.id index]) ++ rq.dropped _).Perm
            (rq.begun _ ++ rq.queues _ ++ (rq.dropped _ ++ [workload.id index])) := by
              simp only [List.append_assoc]
              exact (List.perm_append_comm.append_left _).append_left _
        _ = (rq.begun _ ++ rq.queues _ ++ rq.dropped _) ++ [workload.id index] :=
              (List.append_assoc _ _ _).symm
        _ |>.Perm (rq.enqueued _ ++ [workload.id index]) :=
              (discipline.accounted _).append_right _
    · simpa [Rq.enqueue, Rq.register, same] using discipline.accounted kind
  case waiting =>
    intro kind jobId waits
    by_cases own : jobId = workload.id index
    · simp [Rq.enqueue, Rq.register, own]
    · have before : jobId ∈ rq.queues kind := by
        by_cases same : kind = workload.kind index
        · subst same
          simpa [Rq.enqueue, own] using waits
        · simpa [Rq.enqueue, same] using waits
      simpa [Rq.enqueue, Rq.register, own] using discipline.waiting kind jobId before
  case listed =>
    intro other known
    by_cases own : other = index
    · simp [Rq.enqueue, own]
    · have apart : workload.id other ≠ workload.id index :=
        fun same => own (workload.id_injective same)
      have before := discipline.listed other
        (by simpa [Rq.enqueue, Rq.register, apart] using known)
      by_cases same : workload.kind other = workload.kind index
      · rw [same] at before
        simp [Rq.enqueue, same, before]
      · simpa [Rq.enqueue, same] using before

theorem discipline_take (discipline : QueueDiscipline workload rq) {rest : List String}
    (head : rq.queues kind = workload.id index :: rest) :
    QueueDiscipline workload (rq.take (workload.id index) kind rest) := by
  have waits : workload.id index ∈ rq.queues kind := by rw [head]; exact List.mem_cons_self
  have kindIs := discipline.kind_of (discipline.enqueued_of_waiting waits)
  have moved : rq.begun kind ++ rq.queues kind =
      rq.begun kind ++ [workload.id index] ++ rest := by simp [head]
  constructor
  case own => exact discipline.own
  case once => exact discipline.once
  case inOrder =>
    intro other
    by_cases same : other = kind
    · subst same
      simpa only [Rq.take, Rq.register, Function.update_self, ← moved] using
        discipline.inOrder other
    · simpa [Rq.take, Rq.register, same] using discipline.inOrder other
  case accounted =>
    intro other
    by_cases same : other = kind
    · subst same
      simpa only [Rq.take, Rq.register, Function.update_self, ← moved] using
        discipline.accounted other
    · simpa [Rq.take, Rq.register, same] using discipline.accounted other
  case waiting =>
    intro other jobId still
    have before : jobId ∈ rq.queues other ∧ jobId ≠ workload.id index := by
      by_cases same : other = kind
      · subst same
        have unlike : workload.id index ∉ rest := by
          have apart := (List.nodup_append.mp (discipline.queue_nodup other)).2.1
          rw [head] at apart
          exact (List.nodup_cons.mp apart).1
        simp only [Rq.take, Function.update_self] at still
        refine ⟨by rw [head]; exact List.mem_cons_of_mem _ still, ?_⟩
        rintro rfl
        exact unlike still
      · simp only [Rq.take, Function.update_of_ne same] at still
        refine ⟨still, ?_⟩
        rintro rfl
        exact same ((discipline.kind_of (discipline.enqueued_of_waiting still)).symm.trans kindIs)
    simpa [Rq.take, Rq.register, before.2] using discipline.waiting other jobId before.1
  case listed =>
    intro other known
    by_cases own : other = index
    · subst own
      simp [Rq.take, Rq.register] at known
    · have apart : workload.id other ≠ workload.id index :=
        fun same => own (workload.id_injective same)
      have before := discipline.listed other
        (by simpa [Rq.take, Rq.register, apart] using known)
      by_cases same : workload.kind other = kind
      · rw [same, head, List.mem_cons] at before
        simpa [Rq.take, same] using before.resolve_left apart
      · simpa [Rq.take, same] using before

theorem discipline_cancel (discipline : QueueDiscipline workload rq) (jobId : String) :
    QueueDiscipline workload (rq.cancel jobId) := by
  have apart : ∀ kind, (rq.queues kind).Nodup := fun kind =>
    (List.nodup_append.mp (discipline.queue_nodup kind)).2.1
  constructor
  case own => exact discipline.own
  case once => exact discipline.once
  case inOrder =>
    intro kind
    exact ((List.erase_sublist).append_left _).trans (discipline.inOrder kind)
  case accounted =>
    intro kind
    by_cases waits : jobId ∈ rq.queues kind
    · simp only [Rq.cancel, Rq.register, if_pos waits]
      calc (rq.begun kind ++ (rq.queues kind).erase jobId ++ (rq.dropped kind ++ [jobId])).Perm
            (rq.begun kind ++ (jobId :: (rq.queues kind).erase jobId) ++ rq.dropped kind) := by
              simp only [List.append_assoc]
              refine List.Perm.append_left _ ?_
              rw [← List.append_assoc]
              exact List.perm_append_singleton _ _
        _ |>.Perm (rq.begun kind ++ rq.queues kind ++ rq.dropped kind) :=
              ((List.perm_cons_erase waits).symm.append_left _).append_right _
        _ |>.Perm (rq.enqueued kind) := discipline.accounted kind
    · simpa [Rq.cancel, Rq.register, waits, List.erase_of_not_mem] using discipline.accounted kind
  case waiting =>
    intro kind other still
    obtain ⟨unlike, before⟩ := (apart kind).mem_erase_iff.mp still
    simpa [Rq.cancel, Rq.register, unlike] using discipline.waiting kind other before
  case listed =>
    intro index known
    by_cases own : workload.id index = jobId
    · simp [Rq.cancel, Rq.register, own] at known
    · exact (List.mem_erase_of_ne own).mpr
        (discipline.listed index (by simpa [Rq.cancel, Rq.register, own] using known))

theorem discipline_register (discipline : QueueDiscipline workload rq) (jobId : String)
    (state : RqState) (off : ∀ kind, jobId ∉ rq.queues kind) (past : state ≠ .queued) :
    QueueDiscipline workload (rq.register jobId state) := by
  constructor
  case own => exact discipline.own
  case once => exact discipline.once
  case inOrder => exact discipline.inOrder
  case accounted => exact discipline.accounted
  case waiting =>
    intro kind other waits
    have unlike : other ≠ jobId := by
      rintro rfl
      exact off kind waits
    simpa [Rq.register, unlike] using discipline.waiting kind other waits
  case listed =>
    intro index known
    by_cases own : workload.id index = jobId
    · simp [Rq.register, own, past] at known
    · exact discipline.listed index (by simpa [Rq.register, own] using known)

theorem discipline_release (discipline : QueueDiscipline workload rq) (jobId : String) :
    QueueDiscipline workload (rq.release jobId) :=
  ⟨discipline.own, discipline.once, discipline.inOrder, discipline.accounted, discipline.waiting,
    discipline.listed⟩

end Discipline

/-! ## The parties keep the discipline -/

/-- With how far the parties have got: what is on a queue has been submitted, and
a worker that has begun is on record. -/
structure QueuesUpheld (workload : Workload Index) (world : ServerWorld)
    (phases : (party : ServerParty Index) → Phase party.2) : Prop where
  discipline : QueueDiscipline workload world.rq
  submitted : ∀ kind index, workload.id index ∈ world.rq.enqueued kind →
    phases (index, .submission) = SubmissionPhase.enqueued
  started : ∀ index, (phases (index, .worker) : WorkerPhase).stage ≠ .waiting →
    workload.id index ∈ world.rq.begun (workload.kind index)

/-- The calls that RQ answers and remembers. -/
def concernsRq : JobCall → Bool
  | .enqueue _ | .takeFromQueue | .cancelJob | .finishJob => true
  | _ => false

section Steps

variable {lifetime : Lifetime} {replicas : Kind → Nat} {world after : ServerWorld}
  {phases : (party : ServerParty Index) → Phase party.2} {jobId : String} {index : Index}

theorem rq_unchanged (request : JobCall) (reply : JobReply request)
    (spared : concernsRq request = false)
    (step : serverStep lifetime replicas jobId world request reply after) :
    after.rq = world.rq := by
  cases request
  case hgetall reader =>
      obtain ⟨-, rfl⟩ := step
      cases reader <;> rfl
  case enqueue | takeFromQueue | cancelJob | finishJob => cases spared
  case containersRun | wait | kill =>
      obtain ⟨-, rfl⟩ := step
      cases reply <;> rfl
  all_goals
    obtain ⟨-, rfl⟩ := step
    rfl

theorem worker_begins_by_taking {host : Bool} {phase later : WorkerPhase} (request : JobCall)
    (reply : JobReply request) (admitted : workerAdmits host false phase request)
    (step : workerStep false phase request reply later) (other : request ≠ .takeFromQueue)
    (begun : later.stage ≠ .waiting) : phase.stage ≠ .waiting := by
  intro waiting
  cases request
  case hgetall reader =>
      cases reader with
      | preRun =>
          obtain ⟨-, taken⟩ := admitted
          rw [waiting] at taken
          cases taken
      | poll =>
          obtain ⟨running, -⟩ := admitted
          rw [waiting] at running
          cases running
      | afterRun => exact admitted waiting
      | sendCallback => exact admitted.2 waiting
      | load => exact admitted
  case hset fields =>
      obtain ⟨-, rfl⟩ := step
      obtain ⟨-, written⟩ := admitted
      unfold afterWrite at begun
      cases status : fields.status with
      | none =>
          rw [status] at begun
          exact begun waiting
      | some status' =>
          rw [status] at written
          cases status' with
          | queued => exact written
          | running => simp [waiting] at written
          | success | failed | cancelled => simp [settles, waiting] at written
  case takeFromQueue => exact other rfl
  case finishJob => exact admitted.2 waiting
  case expire | enqueue | fetchJob | cancelJob => exact admitted
  all_goals
    obtain ⟨-, rfl⟩ := step
    exact begun waiting

variable [DecidableEq Index]

theorem upheld_by_submission (upheld : QueuesUpheld workload world phases) (request : JobCall)
    (reply : JobReply request)
    (admitted : (queueProtocol (workload.job index) .submission).admits
      (phases (index, .submission)) request)
    (step : serverStep lifetime replicas (workload.id index) world request reply after)
    {later : SubmissionPhase}
    (matching : submissionStep (phases (index, .submission)) request reply later) :
    QueuesUpheld workload after (Function.update phases (index, .submission) later) := by
  obtain ⟨admitted, ownQueue⟩ := admitted
  have unseen : phases (index, .submission) ≠ SubmissionPhase.enqueued →
      ∀ kind, workload.id index ∉ world.rq.enqueued kind :=
    fun early kind present => early (upheld.submitted kind index present)
  by_cases enqueues : ∃ kind, request = .enqueue kind
  · obtain ⟨kind, rfl⟩ := enqueues
    obtain rfl : kind = workload.kind index := ownQueue
    obtain ⟨-, rfl⟩ := step
    obtain ⟨-, rfl⟩ := matching
    have stored : phases (index, .submission) = SubmissionPhase.stored := admitted
    have fresh := unseen (by simp [stored])
    refine ⟨discipline_enqueue upheld.discipline fresh, ?_, ?_⟩
    · intro kind other present
      by_cases own : other = index
      · subst own
        exact Function.update_self ..
      · have apart : workload.id other ≠ workload.id index :=
          fun same => own (workload.id_injective same)
        have before : workload.id other ∈ world.rq.enqueued kind := by
          by_cases same : kind = workload.kind index
          · subst same
            simpa [Rq.enqueue, apart] using present
          · simpa [Rq.enqueue, same] using present
        simpa [Function.update, own] using upheld.submitted kind other before
    · intro other begun
      exact upheld.started other (by simpa [Function.update] using begun)
  · have same : after.rq = world.rq := by
      refine rq_unchanged request reply ?_ step
      cases request <;> first
        | rfl
        | exact absurd ⟨_, rfl⟩ enqueues
        | cases admitted
    have stays : phases (index, .submission) = SubmissionPhase.enqueued →
        later = SubmissionPhase.enqueued := by
      intro enqueued
      rw [enqueued] at admitted matching
      cases request
      case hset fields => cases admitted.1
      case expire seconds => cases admitted.1
      case enqueue kind => exact absurd ⟨_, rfl⟩ enqueues
      all_goals exact matching
    refine ⟨same ▸ upheld.discipline, ?_, ?_⟩
    · intro kind other present
      rw [same] at present
      have before := upheld.submitted kind other present
      by_cases own : other = index
      · subst own
        simpa using stays before
      · simpa [Function.update, own] using before
    · intro other begun
      rw [same]
      exact upheld.started other (by simpa [Function.update] using begun)

theorem upheld_by_worker (upheld : QueuesUpheld workload world phases) (request : JobCall)
    (reply : JobReply request)
    (admitted : (queueProtocol (workload.job index) .worker).admits
      (phases (index, .worker)) request)
    (step : serverStep lifetime replicas (workload.id index) world request reply after)
    {later : WorkerPhase} (matching : workerStep false (phases (index, .worker)) request reply later) :
    QueuesUpheld workload after (Function.update phases (index, .worker) later) := by
  have submitted : ∀ other, Function.update phases (index, Party.worker) later (other, .submission) =
      phases (other, .submission) := by
    intro other
    simp [Function.update]
  by_cases takes : request = .takeFromQueue
  · subst takes
    obtain ⟨kind, rest, head, -, -, rfl⟩ := step
    have waits : workload.id index ∈ world.rq.queues kind := by simp [head]
    have kindIs := upheld.discipline.kind_of (upheld.discipline.enqueued_of_waiting waits)
    refine ⟨discipline_take upheld.discipline head, ?_, ?_⟩
    · intro kind other present
      rw [submitted]
      exact upheld.submitted kind other present
    · intro other begun
      by_cases own : other = index
      · subst own
        simp [ServerWorld.take, Rq.take, kindIs]
      · have before := upheld.started other (by simpa [Function.update, own] using begun)
        by_cases same : workload.kind other = kind
        · rw [same] at before
          simp [ServerWorld.take, Rq.take, same, before]
        · simpa [ServerWorld.take, Rq.take, same] using before
  · have begins : later.stage ≠ .waiting →
        (phases (index, .worker) : WorkerPhase).stage ≠ .waiting :=
      worker_begins_by_taking request reply admitted matching takes
    have started : ∀ other,
        (Function.update phases (index, Party.worker) later (other, .worker) : WorkerPhase).stage ≠
          .waiting → workload.id other ∈ world.rq.begun (workload.kind other) := by
      intro other begun
      by_cases own : other = index
      · subst own
        exact upheld.started other (begins (by simpa using begun))
      · exact upheld.started other (by simpa [Function.update, own] using begun)
    by_cases finishes : request = .finishJob
    · subst finishes
      obtain ⟨-, rfl⟩ := step
      have off := upheld.discipline.begun_off_queue (upheld.started index admitted.2)
      have known := discipline_register upheld.discipline _ .finished off (by decide)
      refine ⟨discipline_release known _, ?_, started⟩
      intro kind other present
      rw [submitted]
      exact upheld.submitted kind other present
    · have same : after.rq = world.rq := by
        refine rq_unchanged request reply ?_ step
        cases request <;> first
          | rfl
          | exact absurd rfl takes
          | exact absurd rfl finishes
          | cases admitted
      refine ⟨same ▸ upheld.discipline, ?_, same ▸ started⟩
      intro kind other present
      rw [submitted]
      exact upheld.submitted kind other (same ▸ present)

theorem upheld_by_cancel (upheld : QueuesUpheld workload world phases) (number : Nat)
    (request : JobCall) (reply : JobReply request)
    (admitted : cancelAdmits (phases (index, .cancel number)) request)
    (step : serverStep lifetime replicas (workload.id index) world request reply after)
    (later : CancelPhase) :
    QueuesUpheld workload after (Function.update phases (index, .cancel number) later) := by
  have submitted : ∀ other, Function.update phases (index, Party.cancel number) later
      (other, .submission) = phases (other, .submission) := by
    intro other
    simp [Function.update]
  have worker : ∀ other, Function.update phases (index, Party.cancel number) later
      (other, .worker) = phases (other, .worker) := by
    intro other
    simp [Function.update]
  have kept : QueueDiscipline workload after.rq ∧ after.rq.enqueued = world.rq.enqueued ∧
      after.rq.begun = world.rq.begun := by
    by_cases cancels : request = .cancelJob
    · subst cancels
      simp only [serverStep] at step
      split at step
      · rw [step.2]
        exact ⟨upheld.discipline, rfl, rfl⟩
      · rw [step.2]
        exact ⟨discipline_cancel upheld.discipline _, rfl, rfl⟩
    · have same : after.rq = world.rq := by
        refine rq_unchanged request reply ?_ step
        cases request <;> first
          | rfl
          | exact absurd rfl cancels
          | cases admitted
      rw [same]
      exact ⟨upheld.discipline, rfl, rfl⟩
  refine ⟨kept.1, ?_, ?_⟩
  · intro kind other present
    rw [submitted]
    exact upheld.submitted kind other (kept.2.1 ▸ present)
  · intro other begun
    rw [worker] at begun
    rw [kept.2.2]
    exact upheld.started other begun

omit [DecidableEq Index] in
theorem upheld_by_drift (upheld : QueuesUpheld workload world phases)
    (drifts : ServerDrift lifetime world after) : QueuesUpheld workload after phases := by
  cases drifts with
  | tick later passes => exact ⟨upheld.discipline, upheld.submitted, upheld.started⟩
  | forget jobId past =>
      have off : ∀ kind, jobId ∉ world.rq.queues kind := by
        intro kind waits
        rw [upheld.discipline.waiting kind jobId waits] at past
        simp at past
      exact ⟨discipline_register upheld.discipline _ _ off (by decide), upheld.submitted,
        upheld.started⟩
  | exit jobId statusCode up => exact ⟨upheld.discipline, upheld.submitted, upheld.started⟩
  | die jobId =>
      exact ⟨discipline_release upheld.discipline _, upheld.submitted, upheld.started⟩

end Steps

section Runs

variable [DecidableEq Index] {lifetime : Lifetime} {replicas : Kind → Nat}

def serverProtocol (workload : Workload Index) (party : ServerParty Index) :
    Machine JobCall.Answer Raised (Phase party.2) :=
  queueProtocol (workload.job party.1) party.2

theorem queues_upheld :
    Upholds (serverSurroundings workload lifetime replicas) (serverProtocol workload)
      (QueuesUpheld workload) := by
  refine ⟨?_, fun world phases after upheld drifts => upheld_by_drift upheld drifts⟩
  rintro world phases ⟨index, party⟩ request reply after upheld admitted step
  have seen := own_step_seen request reply (fun takes => by
    subst takes
    obtain ⟨kind, rest, head, -⟩ := step
    exact upheld.discipline.waiting kind _ (head ▸ List.mem_cons_self)) step
  cases party with
  | submission =>
      obtain ⟨later, matching⟩ := submission_plays request reply admitted.1 seen
      exact ⟨later, matching, upheld_by_submission upheld request reply admitted step matching⟩
  | worker =>
      obtain ⟨later, matching⟩ := worker_plays request reply admitted seen
      exact ⟨later, matching, upheld_by_worker upheld request reply admitted step matching⟩
  | cancel number =>
      obtain ⟨later, matching⟩ := cancel_plays request reply admitted seen
      exact ⟨later, matching, upheld_by_cancel upheld number request reply admitted step later⟩

omit [DecidableEq Index] in
theorem start_upheld (clock : Nat) :
    QueuesUpheld workload { clock } fun party => startPhases party.2 := by
  refine ⟨⟨?_, ?_, ?_, ?_, ?_, ?_⟩, ?_, ?_⟩ <;> simp [startPhases]

omit [DecidableEq Index] in
theorem start_keeps_protocols (clock : Nat) :
    Keeps (serverProtocol workload) (fun party => JobEnded false party.2)
      (fun party => startPhases party.2) (workload.start clock) :=
  fun party => program_follows (workload.job party.1) party.2

end Runs

/-! ## First in, first out -/

theorem one_order {Element : Type} {first second : Element} (elements : List Element)
    (apart : elements.Nodup) (forwards : [first, second].Sublist elements) :
    ¬ [second, first].Sublist elements := by
  induction elements with
  | nil => cases forwards
  | cons element rest induction =>
      obtain ⟨new, apart⟩ := List.nodup_cons.mp apart
      intro backwards
      cases forwards with
      | cons _ forwards =>
          cases backwards with
          | cons _ backwards => exact induction apart forwards backwards
          | cons_cons _ backwards => exact new (forwards.subset (by simp))
      | cons_cons _ forwards =>
          cases backwards with
          | cons _ backwards => exact new (backwards.subset (by simp))
          | cons_cons _ backwards => exact new (forwards.subset (by simp))

/-- A job that came in before one that has been begun is not waiting any more. -/
theorem QueueDiscipline.no_overtaking {rq : Rq} (discipline : QueueDiscipline workload rq)
    {kind : Kind} {first second : String} (order : [first, second].Sublist (rq.enqueued kind))
    (begun : second ∈ rq.begun kind) : first ∉ rq.queues kind := by
  intro waits
  have reversed : [second, first].Sublist (rq.begun kind ++ rq.queues kind) :=
    (List.singleton_sublist.mpr begun).append (List.singleton_sublist.mpr waits)
  exact one_order _ (discipline.once kind) order (reversed.trans (discipline.inOrder kind))

section Reached

variable [DecidableEq Index] {lifetime : Lifetime} {replicas : Kind → Nat}

theorem reached_upheld {clock : Nat} {reached : ServerConfiguration Index}
    (reaches : Reaches (serverSurroundings workload lifetime replicas) (workload.start clock)
      reached) :
    ∃ phases, QueuesUpheld workload reached.world phases ∧
      Keeps (serverProtocol workload) (fun party => JobEnded false party.2) phases reached :=
  keeps_reaches queues_upheld _ (start_upheld clock) (start_keeps_protocols clock) reaches

/-- Whatever jobs come in, whatever is cancelled and whichever workers die. -/
theorem queues_keep_discipline (workload : Workload Index) (lifetime : Lifetime)
    (replicas : Kind → Nat) (clock : Nat) (reached : ServerConfiguration Index)
    (reaches : Reaches (serverSurroundings workload lifetime replicas) (workload.start clock)
      reached) :
    QueueDiscipline workload reached.world.rq ∧
      ∀ kind first second, [first, second].Sublist (reached.world.rq.enqueued kind) →
        second ∈ reached.world.rq.begun kind → first ∉ reached.world.rq.queues kind := by
  obtain ⟨phases, upheld, -⟩ := reached_upheld reaches
  exact ⟨upheld.discipline, fun _ _ _ order begun => upheld.discipline.no_overtaking order begun⟩

end Reached

/-! ## A run of three jobs -/

/-- The ids behind a job at the head of a queue that has a free worker. -/
def behind (rq : Rq) (replicas : Kind → Nat) (jobId : String) (kind : Kind) :
    Option (List String) :=
  match rq.queues kind with
  | [] => none
  | head :: rest =>
      if head = jobId ∧ (rq.serving kind).length < replicas kind then some rest else none

/-- Every call succeeds, as for a single job. -/
def obligingServer (lifetime : Lifetime) (replicas : Kind → Nat) (jobId : String)
    (world : ServerWorld) : (request : JobCall) → JobReply request × ServerWorld
  | .hgetall reader => (.ok ((world.hash jobId).map Key.fields), world.noteRead jobId reader)
  | .hset fields => (.ok (), world.write jobId fields)
  | .expire seconds => (.ok (), world.setExpiry jobId lifetime seconds)
  | .enqueue kind => (.ok (), { world with rq := world.rq.enqueue jobId kind })
  | .takeFromQueue =>
      match behind world.rq replicas jobId .build, behind world.rq replicas jobId .generate with
      | some rest, _ => (.ok (), world.take jobId .build rest)
      | none, some rest => (.ok (), world.take jobId .generate rest)
      | none, none => (.ok (), world)
  | .cancelJob =>
      if world.rq.registry jobId = .canceled then
        (.error { kind := .invalidJobOperation }, world)
      else (.ok (), { world with rq := world.rq.cancel jobId })
  | .finishJob =>
      (.ok (), { world with rq := (world.rq.register jobId .finished).release jobId })
  | .containersRun _ => (.ok (), world.setContainer jobId .up)
  | .wait _ => (.ok (some 0), world.setContainer jobId (.exited (some 0)))
  | .kill => (.ok (), world.setContainer jobId (.exited none))
  | request => ((obliging lifetime (world.seenFrom jobId) request).1, world)

def serverTurn (replicas : Kind → Nat) (jobId : String) (world : ServerWorld) : JobCall → Bool
  | .takeFromQueue =>
      (behind world.rq replicas jobId .build).isSome ||
        (behind world.rq replicas jobId .generate).isSome
  | _ => true

theorem take_possible {lifetime : Lifetime} {replicas : Kind → Nat} {jobId : String}
    {world : ServerWorld} {kind : Kind} {rest : List String}
    (found : behind world.rq replicas jobId kind = some rest) :
    serverStep lifetime replicas jobId world .takeFromQueue (.ok ()) (world.take jobId kind rest) := by
  unfold behind at found
  cases queue : world.rq.queues kind with
  | nil =>
      rw [queue] at found
      cases found
  | cons head others =>
      rw [queue] at found
      dsimp only at found
      split at found
      · rename_i ready
        obtain ⟨rfl, free⟩ := ready
        cases found
        exact ⟨kind, _, queue, free, rfl, rfl⟩
      · cases found

theorem obliging_server_step (lifetime : Lifetime) (replicas : Kind → Nat) (jobId : String)
    (world : ServerWorld) (request : JobCall) (turn : serverTurn replicas jobId world request = true) :
    serverStep lifetime replicas jobId world request
      (obligingServer lifetime replicas jobId world request).1
      (obligingServer lifetime replicas jobId world request).2 := by
  have foreign : ∀ {Answer : Type} (answer : Answer), Foreign (.ok answer) :=
    fun _ _ impossible => (nomatch impossible)
  cases request
  case takeFromQueue =>
      cases build : behind world.rq replicas jobId .build with
      | some rest => simpa only [obligingServer, build] using take_possible build
      | none =>
          cases generate : behind world.rq replicas jobId .generate with
          | some rest => simpa only [obligingServer, build, generate] using take_possible generate
          | none => simp [serverTurn, build, generate] at turn
  case fetchJob =>
      refine ⟨?_, rfl⟩
      by_cases unknown : world.rq.registry jobId = .unknown
      · simp [obligingServer, obliging, ServerWorld.seenFrom, unknown]
      · simp [obligingServer, obliging, ServerWorld.seenFrom, unknown]
  case cancelJob =>
      by_cases canceled : world.rq.registry jobId = .canceled
      · simp [serverStep, obligingServer, canceled]
      · simp [serverStep, obligingServer, canceled]
  all_goals first
    | exact ⟨rfl, rfl⟩
    | exact ⟨foreign _, rfl⟩

def threeJobs : Workload (Fin 3) where
  job index := match index with
    | 0 => { plainBuild with jobId := "first" }
    | 1 => { plainBuild with jobId := "second" }
    | 2 => { plainBuild with
        jobId := "third", request := .generate "web" [] none (some "token") none none }
  fresh first second := by
    revert first second
    decide

def oneEach : Kind → Nat := fun _ => 1

/-- All three are submitted; the first is cancelled in its queue; the workers take
the others. -/
def threeJobsRun : ServerConfiguration (Fin 3) :=
  playBy (fun world party request => serverTurn oneEach (threeJobs.id party.1) world request)
    (fun party => obligingServer .persistent oneEach (threeJobs.id party.1))
    (List.replicate 8 (0, .submission) ++ List.replicate 8 (1, .submission) ++
      List.replicate 8 (2, .submission) ++ List.replicate 6 (0, .cancel 0) ++
      [(0, .worker), (2, .worker), (1, .worker)])
    (threeJobs.start 0)

theorem three_jobs_reached :
    Reaches (serverSurroundings threeJobs .persistent oneEach) (threeJobs.start 0)
      threeJobsRun :=
  play_by_reaches _ _ _ (fun world party request turn =>
    obliging_server_step .persistent oneEach (threeJobs.id party.1) world request turn) _ _

theorem three_jobs_keep_discipline :
    QueueDiscipline threeJobs threeJobsRun.world.rq ∧
      threeJobsRun.world.rq.begun .build = ["second"] ∧
      threeJobsRun.world.rq.dropped .build = ["first"] :=
  ⟨(queues_keep_discipline threeJobs .persistent oneEach 0 threeJobsRun three_jobs_reached).1,
    by decide +kernel, by decide +kernel⟩

end PretextBuildServer.ServerQueues
