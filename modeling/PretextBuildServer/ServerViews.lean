import PretextBuildServer.ServerQueues

/-!
# One job, and one kind of job, on a shared server

Seen from one job, any run of the server is a run of that job alone: what is
proved of single jobs holds of all of them at once. Seen from one kind, it is a
run of a server that is never asked for the other; and from wherever the other
kind stands, everything that server could do next can be done, without a move of
the other kind.
-/

namespace PretextBuildServer.ServerViews

open EffectProgram EffectProgram.Program InterleavedParties
open PretextBuildServer.ServerSettings PretextBuildServer.JobRecord PretextBuildServer.JobCalls
open PretextBuildServer.JobSystem PretextBuildServer.WorkerProtocol
open PretextBuildServer.RequestProtocols PretextBuildServer.LifeCycle
open PretextBuildServer.WholeServer PretextBuildServer.ServerQueues

set_option autoImplicit false

variable {Index : Type} {lifetime : Lifetime} {replicas : Kind → Nat}

/-! ## One job -/

def jobView (workload : Workload Index) (index : Index) :
    View ServerWorld (ServerParty Index) JobWorld Party where
  see world := world.seenFrom (workload.id index)
  place party := (index, party)
  apart := Prod.mk_right_injective index

section Job

variable [DecidableEq Index] {workload : Workload Index}

omit [DecidableEq Index] in
theorem job_projects (index : Index) :
    Projects (jobView workload index) (serverSurroundings workload lifetime replicas)
      (jobSurroundings lifetime) (serverProtocol workload) (QueuesUpheld workload) where
  own world phases party request reply after upheld admitted step := by
    refine own_step_seen request reply (fun takes => ?_) step
    subst takes
    obtain ⟨kind, rest, head, -⟩ := step
    exact upheld.discipline.waiting kind _ (head ▸ List.mem_cons_self)
  others world phases party request reply after upheld admitted other step := by
    obtain ⟨stranger, role⟩ := party
    have apart : workload.id index ≠ workload.id stranger := by
      intro same
      obtain rfl := workload.id_injective same
      exact other role rfl
    rw [show (jobView workload index).see after = (jobView workload index).see world from
      other_step_hidden apart request reply step]
  drift world phases after upheld drifts := drift_seen drifts

/-- A run of the whole server, seen from one job, is a run of that job alone. -/
theorem each_job_runs_alone (workload : Workload Index) (lifetime : Lifetime)
    (replicas : Kind → Nat) (clock : Nat) (reached : ServerConfiguration Index)
    (reaches : Reaches (serverSurroundings workload lifetime replicas) (workload.start clock)
      reached) (index : Index) :
    Reaches (jobSurroundings lifetime) ((workload.job index).start clock)
      ((jobView workload index).part reached) :=
  part_reaches (job_projects index) queues_upheld _ (start_upheld clock)
    (start_keeps_protocols clock) reaches

end Job

/-- The build that comes second, in the run in which the first one is cancelled. -/
theorem second_build_runs_alone :
    Reaches (jobSurroundings .persistent) ((threeJobs.job 1).start 0)
        ((jobView threeJobs 1).part threeJobsRun) ∧
      ((jobView threeJobs 1).part threeJobsRun).world.taken = true :=
  ⟨each_job_runs_alone threeJobs .persistent oneEach 0 threeJobsRun three_jobs_reached 1,
    by decide +kernel⟩

/-! ## One kind of job -/

def onlyKind (workload : Workload Index) (kind : Kind) :
    Workload {index : Index // workload.kind index = kind} where
  job index := workload.job index
  fresh := workload.fresh.comp Subtype.val_injective

def idsOf (workload : Workload Index) (kind : Kind) (jobId : String) : Prop :=
  ∃ index, workload.id index = jobId ∧ workload.kind index = kind

section Shown

open Classical

variable (mine : String → Prop) (kind : Kind)

noncomputable def shownRq (rq : Rq) : Rq where
  registry jobId := if mine jobId then rq.registry jobId else .unknown
  queues := Function.update (fun _ => []) kind (rq.queues kind)
  serving := Function.update (fun _ => []) kind (rq.serving kind)
  enqueued := Function.update (fun _ => []) kind (rq.enqueued kind)
  begun := Function.update (fun _ => []) kind (rq.begun kind)
  dropped := Function.update (fun _ => []) kind (rq.dropped kind)

noncomputable def shown (world : ServerWorld) : ServerWorld where
  clock := world.clock
  redis key := if ∃ jobId, mine jobId ∧ key = storeKey jobId then world.redis key else none
  rq := shownRq mine kind world.rq
  runs jobId := if mine jobId then world.runs jobId else {}

variable {mine kind} {rq : Rq} {world : ServerWorld} {jobId : String}

@[simp] theorem shown_clock : (shown mine kind world).clock = world.clock := rfl

@[simp] theorem shown_rq : (shown mine kind world).rq = shownRq mine kind world.rq := rfl

section Own

variable (own : mine jobId)

include own

theorem shown_hash : (shown mine kind world).hash jobId = world.hash jobId :=
  if_pos ⟨jobId, own, rfl⟩

theorem shown_runs : (shown mine kind world).runs jobId = world.runs jobId := if_pos own

theorem shown_registry : (shownRq mine kind rq).registry jobId = rq.registry jobId := if_pos own

theorem shown_set_hash (key : Option Key) :
    shown mine kind (world.setHash jobId key) = (shown mine kind world).setHash jobId key := by
  unfold shown ServerWorld.setHash
  congr 1
  funext text
  by_cases same : text = storeKey jobId
  · subst same
    simp only [Function.update_self]
    exact if_pos ⟨jobId, own, rfl⟩
  · simp [Function.update_of_ne same]

theorem shown_set_run (run : JobRun) :
    shown mine kind (world.setRun jobId run) = (shown mine kind world).setRun jobId run := by
  unfold shown ServerWorld.setRun
  congr 1
  funext other
  by_cases same : other = jobId
  · subst same
    simp [own]
  · simp [Function.update_of_ne same]

theorem shown_register (kind : Kind) (rq : Rq) (state : RqState) :
    shownRq mine kind (rq.register jobId state) = (shownRq mine kind rq).register jobId state := by
  unfold shownRq Rq.register
  congr 1
  funext other
  by_cases same : other = jobId
  · subst same
    simp [own]
  · simp [Function.update_of_ne same]

theorem shown_enqueue :
    shownRq mine kind (rq.enqueue jobId kind) = (shownRq mine kind rq).enqueue jobId kind := by
  have known := shown_register own kind rq .queued
  unfold Rq.enqueue
  rw [← known]
  simp [shownRq, Rq.register]

theorem shown_take (rest : List String) :
    shownRq mine kind (rq.take jobId kind rest) = (shownRq mine kind rq).take jobId kind rest := by
  have known := shown_register own kind rq .started
  unfold Rq.take
  rw [← known]
  simp [shownRq, Rq.register]

theorem shown_cancel :
    shownRq mine kind (rq.cancel jobId) = (shownRq mine kind rq).cancel jobId := by
  have known := shown_register own kind rq .canceled
  unfold Rq.cancel
  rw [← known]
  unfold shownRq Rq.register
  congr 1
  · funext other
    by_cases same : other = kind
    · subst same
      simp
    · simp [Function.update_of_ne same]
  · funext other
    by_cases same : other = kind
    · subst same
      simp
    · simp [Function.update_of_ne same]

end Own

theorem shown_release :
    shownRq mine kind (rq.release jobId) = (shownRq mine kind rq).release jobId := by
  unfold shownRq Rq.release
  congr 1
  funext other
  by_cases same : other = kind
  · subst same
    simp
  · simp [Function.update_of_ne same]

section Strange

variable (strange : ¬ mine jobId)

include strange

theorem hidden_hash (key : Option Key) :
    shown mine kind (world.setHash jobId key) = shown mine kind world := by
  unfold shown ServerWorld.setHash
  congr 1
  funext text
  by_cases same : text = storeKey jobId
  · subst same
    have none : ¬ ∃ other, mine other ∧ storeKey jobId = storeKey other := by
      rintro ⟨other, own, sameKey⟩
      exact strange (store_key_injective sameKey ▸ own)
    rw [if_neg none, if_neg none]
  · simp [Function.update_of_ne same]

theorem hidden_run (run : JobRun) :
    shown mine kind (world.setRun jobId run) = shown mine kind world := by
  unfold shown ServerWorld.setRun
  congr 1
  funext other
  by_cases same : other = jobId
  · subst same
    simp [strange]
  · simp [Function.update_of_ne same]

theorem hidden_registry (kind : Kind) (rq : Rq) (state : RqState) :
    shownRq mine kind (rq.register jobId state) = shownRq mine kind rq := by
  unfold shownRq Rq.register
  congr 1
  funext other
  by_cases same : other = jobId
  · subst same
    simp [strange]
  · simp [Function.update_of_ne same]

theorem hidden_enqueue {other : Kind} (unlike : kind ≠ other) :
    shownRq mine kind (rq.enqueue jobId other) = shownRq mine kind rq := by
  rw [← hidden_registry strange kind rq .queued]
  simp [shownRq, Rq.enqueue, Rq.register, unlike]

theorem hidden_take {other : Kind} (unlike : kind ≠ other) (rest : List String) :
    shownRq mine kind (rq.take jobId other rest) = shownRq mine kind rq := by
  rw [← hidden_registry strange kind rq .started]
  simp [shownRq, Rq.take, Rq.register, unlike]

theorem hidden_cancel (off : jobId ∉ rq.queues kind) :
    shownRq mine kind (rq.cancel jobId) = shownRq mine kind rq := by
  rw [← hidden_registry strange kind rq .canceled]
  simp [shownRq, Rq.cancel, Rq.register, off, List.erase_of_not_mem]

end Strange

end Shown

/-- The rest of the server is left out, the jobs of one kind are shown. -/
noncomputable def kindView (workload : Workload Index) (kind : Kind) :
    View ServerWorld (ServerParty Index) ServerWorld
      (ServerParty {index : Index // workload.kind index = kind}) where
  see := shown (idsOf workload kind) kind
  place party := (party.1.val, party.2)
  apart first second same := by
    obtain ⟨⟨one, oneKind⟩, role⟩ := first
    obtain ⟨⟨other, otherKind⟩, otherRole⟩ := second
    cases same
    rfl

section Kind

variable {workload : Workload Index} {kind : Kind} {world after : ServerWorld}
  {jobId : String}

theorem shown_set_container {mine : String → Prop} (own : mine jobId) (container : Container) :
    shown mine kind (world.setContainer jobId container) =
      (shown mine kind world).setContainer jobId container := by
  unfold ServerWorld.setContainer
  rw [shown_set_run own, shown_runs own]

theorem shown_write {mine : String → Prop} (own : mine jobId) (fields : Fields) :
    shown mine kind (world.write jobId fields) = (shown mine kind world).write jobId fields := by
  unfold ServerWorld.write
  rw [shown_set_run own, shown_set_hash own, shown_hash own, shown_runs own]

theorem shown_set_expiry {mine : String → Prop} (own : mine jobId) (seconds : Int) :
    shown mine kind (world.setExpiry jobId lifetime seconds) =
      (shown mine kind world).setExpiry jobId lifetime seconds := by
  unfold ServerWorld.setExpiry
  rw [shown_set_run own, shown_set_hash own, shown_hash own, shown_runs own, shown_clock]

theorem shown_note_read {mine : String → Prop} (own : mine jobId) (reader : Reader) :
    shown mine kind (world.noteRead jobId reader) =
      (shown mine kind world).noteRead jobId reader := by
  have flagged : (shown mine kind world).flagged jobId = world.flagged jobId := by
    unfold ServerWorld.flagged
    rw [shown_hash own]
  unfold ServerWorld.noteRead
  rw [flagged, shown_hash own, shown_runs own]
  cases reader with
  | load | afterRun => rfl
  | preRun | poll | sendCallback => exact shown_set_run own _

theorem shown_take_world {mine : String → Prop} (own : mine jobId) (rest : List String) :
    shown mine kind (world.take jobId kind rest) =
      (shown mine kind world).take jobId kind rest := by
  have run : shown mine kind (world.setRun jobId { world.runs jobId with taken := true }) = _ :=
    shown_set_run own _
  unfold ServerWorld.take
  rw [shown_runs own, ← run, shown_rq, ← shown_take own]
  rfl

theorem own_step_shown {mine : String → Prop} (own : mine jobId) (request : JobCall)
    (reply : JobReply request) (ownQueue : OwnQueue kind request)
    (heads : ∀ other rest, world.rq.queues other = jobId :: rest → other = kind)
    (step : serverStep lifetime replicas jobId world request reply after) :
    serverStep lifetime replicas jobId (shown mine kind world) request reply
      (shown mine kind after) := by
  cases request
  case hgetall reader =>
      obtain ⟨rfl, rfl⟩ := step
      exact ⟨by rw [shown_hash own], shown_note_read own reader⟩
  case hset fields =>
      obtain ⟨rfl, rfl⟩ := step
      exact ⟨rfl, shown_write own fields⟩
  case expire seconds =>
      obtain ⟨rfl, rfl⟩ := step
      exact ⟨rfl, shown_set_expiry own seconds⟩
  case enqueue queue =>
      obtain rfl : queue = kind := ownQueue
      obtain ⟨rfl, rfl⟩ := step
      exact ⟨rfl, congrArg (ServerWorld.mk _ _ · _) (shown_enqueue own)⟩
  case takeFromQueue =>
      obtain ⟨queue, rest, head, free, rfl, rfl⟩ := step
      obtain rfl := heads queue rest head
      exact ⟨queue, rest, by simpa [shownRq] using head, by simpa [shownRq] using free, rfl,
        shown_take_world own rest⟩
  case fetchJob =>
      obtain ⟨answered, rfl⟩ := step
      refine ⟨?_, rfl⟩
      rw [shown_rq, shown_registry own]
      exact answered
  case cancelJob =>
      by_cases canceled : world.rq.registry jobId = .canceled
      · rw [serverStep, if_pos canceled] at step
        rw [serverStep, shown_rq, shown_registry own, if_pos canceled, step.2]
        exact ⟨step.1, rfl⟩
      · rw [serverStep, if_neg canceled] at step
        rw [serverStep, shown_rq, shown_registry own, if_neg canceled, step.2]
        exact ⟨step.1, congrArg (ServerWorld.mk _ _ · _) (shown_cancel own)⟩
  case finishJob =>
      obtain ⟨rfl, rfl⟩ := step
      refine ⟨rfl, congrArg (ServerWorld.mk _ _ · _) ?_⟩
      rw [shown_release, shown_register own]
      rfl
  case containersRun | wait | kill =>
      obtain ⟨foreign, rfl⟩ := step
      refine ⟨foreign, ?_⟩
      cases reply with
      | ok _ => exact shown_set_container own _
      | error raised => rfl
  all_goals
    obtain ⟨answered, rfl⟩ := step
    exact ⟨answered, rfl⟩

theorem own_step_lifts {mine : String → Prop} (own : mine jobId) (request : JobCall)
    (reply : JobReply request) (ownQueue : OwnQueue kind request) {seen : ServerWorld}
    (step : serverStep lifetime replicas jobId (shown mine kind world) request reply seen) :
    ∃ after, serverStep lifetime replicas jobId world request reply after ∧
      shown mine kind after = seen := by
  cases request
  case hgetall reader =>
      obtain ⟨rfl, rfl⟩ := step
      exact ⟨_, ⟨by rw [shown_hash own], rfl⟩, shown_note_read own reader⟩
  case hset fields =>
      obtain ⟨rfl, rfl⟩ := step
      exact ⟨_, ⟨rfl, rfl⟩, shown_write own fields⟩
  case expire seconds =>
      obtain ⟨rfl, rfl⟩ := step
      exact ⟨_, ⟨rfl, rfl⟩, shown_set_expiry own seconds⟩
  case enqueue queue =>
      obtain rfl : queue = kind := ownQueue
      obtain ⟨rfl, rfl⟩ := step
      exact ⟨_, ⟨rfl, rfl⟩, congrArg (ServerWorld.mk _ _ · _) (shown_enqueue own)⟩
  case takeFromQueue =>
      obtain ⟨queue, rest, head, free, rfl, rfl⟩ := step
      have same : queue = kind := by
        by_contra unlike
        simp [shownRq, Function.update_of_ne unlike] at head
      subst same
      exact ⟨_, ⟨queue, rest, by simpa [shownRq] using head, by simpa [shownRq] using free, rfl,
        rfl⟩, shown_take_world own rest⟩
  case fetchJob =>
      obtain ⟨answered, rfl⟩ := step
      rw [shown_rq, shown_registry own] at answered
      exact ⟨world, ⟨answered, rfl⟩, rfl⟩
  case cancelJob =>
      by_cases canceled : world.rq.registry jobId = .canceled
      · rw [serverStep, shown_rq, shown_registry own, if_pos canceled] at step
        exact ⟨world, by rw [serverStep, if_pos canceled]; exact ⟨step.1, rfl⟩, step.2.symm⟩
      · rw [serverStep, shown_rq, shown_registry own, if_neg canceled] at step
        refine ⟨{ world with rq := world.rq.cancel jobId },
          by rw [serverStep, if_neg canceled]; exact ⟨step.1, rfl⟩, ?_⟩
        rw [step.2]
        exact congrArg (ServerWorld.mk _ _ · _) (shown_cancel own)
  case finishJob =>
      obtain ⟨rfl, rfl⟩ := step
      refine ⟨_, ⟨rfl, rfl⟩, congrArg (ServerWorld.mk _ _ · _) ?_⟩
      rw [shown_release, shown_register own]
      rfl
  case containersRun | wait | kill =>
      obtain ⟨foreign, rfl⟩ := step
      refine ⟨_, ⟨foreign, rfl⟩, ?_⟩
      cases reply with
      | ok _ => exact shown_set_container own _
      | error raised => rfl
  all_goals
    obtain ⟨answered, rfl⟩ := step
    exact ⟨world, ⟨answered, rfl⟩, rfl⟩

/-- What a job of the other kind does shows at most as a worker that is set free,
which none of this kind is. -/
theorem strange_step_hidden {mine : String → Prop} (strange : ¬ mine jobId) (request : JobCall)
    (reply : JobReply request) {other : Kind} (unlike : kind ≠ other)
    (ownQueue : OwnQueue other request) (off : jobId ∉ world.rq.queues kind)
    (step : serverStep lifetime replicas jobId world request reply after) :
    Relation.ReflTransGen (ServerDrift lifetime) (shown mine kind world)
      (shown mine kind after) := by
  have unseen : ∀ later : ServerWorld, shown mine kind later = shown mine kind world →
      Relation.ReflTransGen (ServerDrift lifetime) (shown mine kind world)
        (shown mine kind later) := by
    intro later same
    rw [same]
  cases request
  case hgetall reader =>
      obtain ⟨-, rfl⟩ := step
      cases reader with
      | load | afterRun => exact .refl
      | preRun | poll | sendCallback => exact unseen _ (hidden_run strange _)
  case hset fields =>
      obtain ⟨-, rfl⟩ := step
      exact unseen _ ((hidden_run strange _).trans (hidden_hash strange _))
  case expire seconds =>
      obtain ⟨-, rfl⟩ := step
      exact unseen _ ((hidden_run strange _).trans (hidden_hash strange _))
  case enqueue queue =>
      obtain rfl : queue = other := ownQueue
      obtain ⟨-, rfl⟩ := step
      exact unseen _ (congrArg (ServerWorld.mk _ _ · _) (hidden_enqueue strange unlike))
  case takeFromQueue =>
      obtain ⟨queue, rest, head, -, -, rfl⟩ := step
      have elsewhere : kind ≠ queue := by
        rintro rfl
        exact off (head ▸ List.mem_cons_self)
      apply unseen
      change { shown mine kind (world.setRun jobId { world.runs jobId with taken := true }) with
        rq := shownRq mine kind (world.rq.take jobId queue rest) } = shown mine kind world
      rw [hidden_run strange, hidden_take strange elsewhere]
      rfl
  case cancelJob =>
      by_cases canceled : world.rq.registry jobId = .canceled
      · rw [serverStep, if_pos canceled] at step
        rw [step.2]
      · rw [serverStep, if_neg canceled] at step
        rw [step.2]
        exact unseen _ (congrArg (ServerWorld.mk _ _ · _) (hidden_cancel strange off))
  case finishJob =>
      obtain ⟨-, rfl⟩ := step
      have freed : ServerDrift lifetime (shown mine kind world) _ := .die _ jobId
      convert Relation.ReflTransGen.single freed using 1
      refine congrArg (ServerWorld.mk _ _ · _) ?_
      rw [shown_release, hidden_registry strange]
      rfl
  case containersRun | wait | kill =>
      obtain ⟨-, rfl⟩ := step
      cases reply with
      | ok _ => exact unseen _ (hidden_run strange _)
      | error raised => exact .refl
  all_goals
    obtain ⟨-, rfl⟩ := step
    exact .refl

theorem tick_shown {mine : String → Prop} (later : Nat) :
    shown mine kind
        { world with clock := later, redis := fun key => lifetime.survive later (world.redis key) } =
      { shown mine kind world with
        clock := later
        redis := fun key => lifetime.survive later ((shown mine kind world).redis key) } := by
  unfold shown
  congr 1
  funext key
  by_cases own : ∃ jobId, mine jobId ∧ key = storeKey jobId
  · simp only [if_pos own]
  · simp only [if_neg own]
    cases lifetime <;> rfl

theorem drift_shown {mine : String → Prop} (drifts : ServerDrift lifetime world after) :
    Relation.ReflTransGen (ServerDrift lifetime) (shown mine kind world)
      (shown mine kind after) := by
  cases drifts with
  | tick later passes =>
      rw [tick_shown]
      exact .single (.tick (shown mine kind world) later passes)
  | forget jobId past =>
      by_cases own : mine jobId
      · have forgotten : ServerDrift lifetime (shown mine kind world) _ :=
          .forget _ jobId (by rw [shown_rq, shown_registry own]; exact past)
        convert Relation.ReflTransGen.single forgotten using 1
        exact congrArg (ServerWorld.mk _ _ · _) (shown_register own kind _ _)
      · rw [show shown mine kind { world with rq := world.rq.register jobId .unknown } =
          shown mine kind world from
            congrArg (ServerWorld.mk _ _ · _) (hidden_registry own kind _ _)]
  | exit jobId statusCode up =>
      by_cases own : mine jobId
      · rw [shown_set_container own]
        exact .single (.exit _ jobId statusCode (by rw [shown_runs own]; exact up))
      · rw [show shown mine kind (world.setContainer jobId (.exited statusCode)) =
          shown mine kind world from hidden_run own _]
  | die jobId =>
      have freed : ServerDrift lifetime (shown mine kind world) _ := .die _ jobId
      convert Relation.ReflTransGen.single freed using 1
      exact congrArg (ServerWorld.mk _ _ · _) shown_release

theorem drift_lifts {mine : String → Prop} {seen : ServerWorld}
    (drifts : ServerDrift lifetime (shown mine kind world) seen) :
    ∃ after, ServerDrift lifetime world after ∧ shown mine kind after = seen := by
  generalize from_ : shown mine kind world = before at drifts
  cases drifts with
  | tick later passes =>
      subst from_
      exact ⟨_, .tick world later passes, tick_shown later⟩
  | forget jobId past =>
      subst from_
      have own : mine jobId := by
        by_contra strange
        simp [shownRq, strange] at past
      rw [shown_rq, shown_registry own] at past
      exact ⟨_, .forget world jobId past,
        congrArg (ServerWorld.mk _ _ · _) (shown_register own kind _ _)⟩
  | exit jobId statusCode up =>
      subst from_
      have own : mine jobId := by
        by_contra strange
        simp [shown, strange] at up
      rw [shown_runs own] at up
      exact ⟨_, .exit world jobId statusCode up, shown_set_container own _⟩
  | die jobId =>
      subst from_
      exact ⟨_, .die world jobId, congrArg (ServerWorld.mk _ _ · _) shown_release⟩

end Kind

section Runs

variable [DecidableEq Index] {workload : Workload Index} {kind : Kind}

omit [DecidableEq Index] in
theorem kind_projects :
    Projects (kindView workload kind) (serverSurroundings workload lifetime replicas)
      (serverSurroundings (onlyKind workload kind) lifetime replicas) (serverProtocol workload)
      (QueuesUpheld workload) where
  own world phases party request reply after upheld admitted step := by
    obtain ⟨⟨index, kindIs⟩, role⟩ := party
    refine own_step_shown ⟨index, rfl, kindIs⟩ request reply ?_ ?_ step
    · exact kindIs ▸ own_queue_of_admitted (workload.job index) role _ request admitted
    · intro other rest head
      have waits : workload.id index ∈ world.rq.queues other := head ▸ List.mem_cons_self
      exact (upheld.discipline.kind_of (upheld.discipline.enqueued_of_waiting waits)).symm.trans
        kindIs
  others world phases party request reply after upheld admitted other step := by
    obtain ⟨index, role⟩ := party
    have unlike : workload.kind index ≠ kind := fun same => other (⟨index, same⟩, role) rfl
    have strange : ¬ idsOf workload kind (workload.id index) := by
      rintro ⟨twin, sameId, kindIs⟩
      exact unlike (workload.id_injective sameId ▸ kindIs)
    refine strange_step_hidden strange request reply unlike.symm
      (own_queue_of_admitted (workload.job index) role _ request admitted) ?_ step
    intro waits
    exact unlike (upheld.discipline.kind_of (upheld.discipline.enqueued_of_waiting waits))
  drift world phases after upheld drifts := drift_shown drifts

omit [DecidableEq Index] in
theorem kind_lifts :
    Lifts (kindView workload kind) (serverSurroundings workload lifetime replicas)
      (serverSurroundings (onlyKind workload kind) lifetime replicas)
      (serverProtocol (onlyKind workload kind)) (QueuesUpheld (onlyKind workload kind)) where
  own world phases party request reply seen upheld admitted step := by
    obtain ⟨⟨index, kindIs⟩, role⟩ := party
    exact own_step_lifts ⟨index, rfl, kindIs⟩ request reply
      (kindIs ▸ own_queue_of_admitted (workload.job index) role _ request admitted) step
  drift world seen drifts := drift_lifts drifts

omit [DecidableEq Index] in
theorem start_shown (clock : Nat) :
    (kindView workload kind).part (workload.start clock) =
      (onlyKind workload kind).start clock := by
  have world : shown (idsOf workload kind) kind { clock } = { clock } := by
    simp [shown, shownRq]
  change Configuration.mk (shown (idsOf workload kind) kind { clock }) _ = _
  rw [world]
  rfl

/-- Builds and generate jobs share the server, and neither kind can tell: seen
from one, a run is a run of a server without the other, and whatever that server
could do next can be done with no move of the other kind. -/
theorem kinds_do_not_interfere (workload : Workload Index) (kind : Kind) (lifetime : Lifetime)
    (replicas : Kind → Nat) (clock : Nat) (reached : ServerConfiguration Index)
    (reaches : Reaches (serverSurroundings workload lifetime replicas) (workload.start clock)
      reached) :
    Reaches (serverSurroundings (onlyKind workload kind) lifetime replicas)
        ((onlyKind workload kind).start clock) ((kindView workload kind).part reached) ∧
      ∀ further, Reaches (serverSurroundings (onlyKind workload kind) lifetime replicas)
          ((kindView workload kind).part reached) further →
        ∃ later, Reaches (serverSurroundings workload lifetime replicas) reached later ∧
          (kindView workload kind).part later = further ∧
          ∀ party, workload.kind party.1 ≠ kind → later.rest party = reached.rest party := by
  have run : Reaches (serverSurroundings (onlyKind workload kind) lifetime replicas)
      ((onlyKind workload kind).start clock) ((kindView workload kind).part reached) := by
    rw [← start_shown]
    exact part_reaches kind_projects queues_upheld _ (start_upheld clock)
      (start_keeps_protocols clock) reaches
  refine ⟨run, fun further next => ?_⟩
  obtain ⟨phases, upheld, keeps⟩ := reached_upheld run
  obtain ⟨later, goes, same, untouched⟩ := part_lifts kind_lifts queues_upheld phases upheld keeps next
  refine ⟨later, goes, same, fun party unlike => untouched party ?_⟩
  rintro ⟨⟨index, kindIs⟩, role⟩ rfl
  exact unlike kindIs

end Runs

/-- The generate job, in the run in which one build is cancelled and one begun. -/
theorem generate_runs_beside_builds :
    Reaches (serverSurroundings (onlyKind threeJobs .generate) .persistent oneEach)
      ((onlyKind threeJobs .generate).start 0) ((kindView threeJobs .generate).part threeJobsRun) :=
  (kinds_do_not_interfere threeJobs .generate .persistent oneEach 0 threeJobsRun
    three_jobs_reached).1

end PretextBuildServer.ServerViews
