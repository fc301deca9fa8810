import PretextBuildServer.Library.PartyProgress
import PretextBuildServer.RunCalls
import PretextBuildServer.ServerQueues

/-!
# No job is stuck in its queue

Whatever has happened so far, whichever workers have died, and however many
requests have stopped half way: the workers can finish what they are in, take what
waits, one job after the other, and leave every one of these with a terminal
status.
-/

namespace PretextBuildServer.QueueProgress

open EffectProgram EffectProgram.Program InterleavedParties
open PretextBuildServer.ServerSettings PretextBuildServer.JobRecord PretextBuildServer.JobCalls
open PretextBuildServer.StoreCalls PretextBuildServer.JobSystem PretextBuildServer.RunCalls
open PretextBuildServer.WorkerProtocol PretextBuildServer.WorkerRun
open PretextBuildServer.RequestProtocols PretextBuildServer.LifeCycle
open PretextBuildServer.WholeServer PretextBuildServer.ServerQueues

set_option autoImplicit false

/-! ## A worker's turn -/

inductive Turn where
  | waiting
  | busy
  | through
  deriving DecidableEq

def turnAdmits : Turn → JobCall → Prop
  | .waiting, request => request = .takeFromQueue
  | .busy, request => request = .finishJob ∨ concernsRq request = false
  | .through, _ => False

def turnStep (turn : Turn) : (request : JobCall) → JobReply request → Turn → Prop
  | .takeFromQueue, reply, after => reply = .ok () ∧ after = .busy
  | .finishJob, reply, after => reply = .ok () ∧ after = .through
  | _, _, after => after = turn

def turnMachine : Machine JobCall.Answer Raised Turn where
  admits := turnAdmits
  step := turnStep

theorem working_off_queue (request : JobCall) (works : working request) :
    concernsRq request = false := by
  cases request
  case enqueue | takeFromQueue | cancelJob | finishJob => simp [working, watching, settling,
    preparing, looking, packing, harvesting, reporting, validating] at works
  all_goals rfl

theorem run_turns (job : Job) :
    Guarantees turnMachine (fun after _ => after = .busy) Turn.busy job.runFunction := by
  refine guarantees_of_makes_only Turn.busy _ (run_function_makes job) ?_ ?_
  · intro request works
    exact Or.inr (working_off_queue request works)
  · intro request reply after works step
    have off := working_off_queue request works
    cases request
    case takeFromQueue | finishJob => cases off
    all_goals exact step

/-- What a worker does with a job it has taken. -/
def afterTaking (job : Job) : JobProgram Unit :=
  job.runFunction.andThen fun _ => jobCall .finishJob

theorem taken_turns (job : Job) :
    Guarantees turnMachine (fun after _ => after = .through) Turn.busy (afterTaking job) := by
  refine guarantees_seq _ _ _ (run_turns job) ?_
  rintro _ _ rfl
  refine ⟨Or.inl rfl, ?_⟩
  rintro _ _ ⟨rfl, rfl⟩
  rfl

theorem taken_follows (job : Job) (pollable : 0 < job.settings.buildPollInterval) :
    Guarantees (workerProtocol job.settings.hostDataDir.isSome true)
      (fun after _ => WorkEnded true after) { stage := .taken } (afterTaking job) :=
  (work_follows job rfl fun _ => pollable).2 (.ok ()) _ ⟨rfl, rfl⟩

theorem work_turns (job : Job) :
    Guarantees turnMachine (fun after _ => after = .through) Turn.waiting job.work := by
  refine ⟨rfl, ?_⟩
  rintro _ _ ⟨rfl, rfl⟩
  exact taken_turns job

/-! ## The workers that are serving -/

/-- A submission or a cancel request leaves alone what a worker's turn is about. -/
def elsewhere : JobCall → Bool
  | .takeFromQueue | .finishJob => false
  | _ => true

def elsewhereMachine : Machine JobCall.Answer Raised Turn where
  admits _ request := elsewhere request = true
  step turn _ _ after := after = turn

variable {Index : Type} {workload : Workload Index} {lifetime : Lifetime}
  {replicas : Kind → Nat}

def partyTurns (party : ServerParty Index) : Machine JobCall.Answer Raised Turn :=
  match party.2 with
  | .worker => turnMachine
  | .submission | .cancel _ => elsewhereMachine

/-- The ids that are served are those of the workers that are busy. -/
structure ServedBusy (workload : Workload Index) (world : ServerWorld)
    (turns : ServerParty Index → Turn) : Prop where
  once : ∀ kind, (world.rq.serving kind).Nodup
  busy : ∀ kind, ∀ jobId ∈ world.rq.serving kind,
    ∃ index, workload.id index = jobId ∧ turns (index, .worker) = .busy

theorem elsewhere_guarantees {Result : Type} {allowed : JobCall → Prop}
    (program : JobProgram Result) (only : MakesOnly allowed program)
    (implied : ∀ request, allowed request → elsewhere request = true) (turn : Turn) :
    Guarantees elsewhereMachine (fun after _ => after = turn) turn program :=
  guarantees_of_makes_only turn program only implied fun _ _ _ _ step => step

theorem elsewhere_of_submitting (request : JobCall) (submits : submitting (fun _ => True) request) :
    elsewhere request = true := by
  cases request
  case takeFromQueue | finishJob => cases submits
  all_goals rfl

theorem elsewhere_of_cancelling (request : JobCall) (cancels : cancelling request) :
    elsewhere request = true := by
  cases request
  case takeFromQueue | finishJob => cases cancels
  all_goals rfl

section Steps

variable {world after : ServerWorld} {turns : ServerParty Index → Turn} {index : Index}
  {jobId : String}

theorem serving_elsewhere (request : JobCall) (reply : JobReply request)
    (isElsewhere : elsewhere request = true)
    (step : serverStep lifetime replicas jobId world request reply after) :
    after.rq.serving = world.rq.serving := by
  cases request
  case takeFromQueue | finishJob => cases isElsewhere
  case enqueue kind =>
      obtain ⟨-, rfl⟩ := step
      rfl
  case cancelJob =>
      rw [serverStep] at step
      split at step
      · rw [step.2]
      · rw [step.2]
        rfl
  all_goals rw [rq_unchanged _ reply rfl step]

variable [DecidableEq Index]

theorem served_by_take (served : ServedBusy workload world turns)
    (waiting : turns (index, .worker) = .waiting) (kind : Kind) (rest : List String) :
    ServedBusy workload (world.take (workload.id index) kind rest)
      (Function.update turns (index, .worker) .busy) := by
  have serving : (world.take (workload.id index) kind rest).rq.serving =
      Function.update world.rq.serving kind (workload.id index :: world.rq.serving kind) := rfl
  have free : ∀ other, workload.id index ∉ world.rq.serving other := by
    intro other serves
    obtain ⟨same, sameId, busy⟩ := served.busy other _ serves
    obtain rfl := workload.id_injective sameId
    rw [waiting] at busy
    cases busy
  have still : ∀ other, ∀ id ∈ world.rq.serving other, ∃ served, workload.id served = id ∧
      Function.update turns (index, .worker) .busy (served, .worker) = .busy := by
    intro other id serves
    obtain ⟨served, rfl, busy⟩ := served.busy other id serves
    refine ⟨served, rfl, ?_⟩
    by_cases same : served = index
    · subst same
      exact Function.update_self _ _ _
    · rw [Function.update_of_ne (by simp [same])]
      exact busy
  refine ⟨fun other => ?_, fun other id serves => ?_⟩
  · rw [serving]
    by_cases same : other = kind
    · subst same
      rw [Function.update_self]
      exact List.nodup_cons.mpr ⟨free other, served.once other⟩
    · rw [Function.update_of_ne same]
      exact served.once other
  · rw [serving] at serves
    by_cases same : other = kind
    · subst same
      rw [Function.update_self] at serves
      rcases List.mem_cons.mp serves with rfl | before
      · exact ⟨index, rfl, Function.update_self _ _ _⟩
      · exact still other id before
    · rw [Function.update_of_ne same] at serves
      exact still other id serves

theorem served_by_finish (served : ServedBusy workload world turns) :
    ServedBusy workload
      { world with
        rq := (world.rq.register (workload.id index) .finished).release (workload.id index) }
      (Function.update turns (index, .worker) .through) := by
  refine ⟨fun kind => (served.once kind).erase _, fun kind id serves => ?_⟩
  have stays : id ∈ (world.rq.serving kind).erase (workload.id index) := serves
  obtain ⟨apart, before⟩ := (served.once kind).mem_erase_iff.mp stays
  obtain ⟨other, rfl, busy⟩ := served.busy kind id before
  have unlike : other ≠ index := fun same => apart (congrArg workload.id same)
  refine ⟨other, rfl, ?_⟩
  rw [Function.update_of_ne (by simp [unlike])]
  exact busy

theorem served_upheld :
    Upholds (serverSurroundings workload lifetime replicas) partyTurns (ServedBusy workload) := by
  refine ⟨?_, ?_⟩
  · rintro world turns ⟨index, role⟩ request reply after served admitted step
    have spared : elsewhere request = true →
        ServedBusy workload after
          (Function.update turns (index, role) (turns (index, role))) := by
      intro isElsewhere
      rw [Function.update_eq_self]
      have same := serving_elsewhere request reply isElsewhere step
      refine ⟨?_, ?_⟩
      · rw [same]
        exact served.once
      · rw [same]
        exact served.busy
    cases role with
    | submission => exact ⟨_, rfl, spared admitted⟩
    | cancel number => exact ⟨_, rfl, spared admitted⟩
    | worker =>
        cases request
        case takeFromQueue =>
            have waiting : turns (index, .worker) = .waiting := by
              cases turn : turns (index, .worker) with
              | waiting => rfl
              | busy =>
                  rw [turn] at admitted
                  rcases admitted with impossible | impossible <;> cases impossible
              | through =>
                  rw [turn] at admitted
                  exact admitted.elim
            obtain ⟨kind, rest, head, free, rfl, rfl⟩ := step
            exact ⟨.busy, ⟨rfl, rfl⟩, served_by_take served waiting kind rest⟩
        case finishJob =>
            obtain ⟨rfl, rfl⟩ := step
            exact ⟨.through, ⟨rfl, rfl⟩, served_by_finish served⟩
        all_goals exact ⟨_, rfl, spared rfl⟩
  · intro world turns after served drifts
    cases drifts with
    | tick later passes => exact ⟨served.once, served.busy⟩
    | forget other past => exact ⟨served.once, served.busy⟩
    | exit other statusCode up => exact ⟨served.once, served.busy⟩
    | die other =>
        exact ⟨fun kind => (served.once kind).erase _, fun kind id serves =>
          served.busy kind id (List.mem_of_mem_erase serves)⟩

end Steps

theorem start_turns (clock : Nat) :
    Keeps partyTurns (fun party turn _ => party.2 = .worker → turn = .through)
      (fun _ => .waiting) (workload.start clock) := by
  rintro ⟨index, role⟩
  cases role with
  | worker =>
      exact guarantees_mono _ _ (fun _ _ through _ => through) (work_turns (workload.job index))
  | submission =>
      exact guarantees_mono _ _ (fun _ _ _ => nofun)
        (elsewhere_guarantees _ (submit_makes (workload.job index)) elsewhere_of_submitting _)
  | cancel number =>
      exact guarantees_mono _ _ (fun _ _ _ => nofun)
        (elsewhere_guarantees _ (cancel_makes _) elsewhere_of_cancelling _)

/-! ## A turn taken in one go -/

/-- What has become of the record since a worker was in its first phase: it shows
the status the worker has settled on since. -/
def ShowsSettled (first phase : WorkerPhase) (world : ServerWorld) (jobId : String) : Prop :=
  ∀ status, phase.stage = .settled status → first.stage = .settled status ∨
    (status.terminal = true ∧ (world.seenFrom jobId).status = some status)

section Answered

variable {host faultless : Bool} {first phase : WorkerPhase} {world : ServerWorld}
  {jobId : String}

theorem shown_after_write (shows : ShowsSettled first phase world jobId) (fields : Fields)
    (admitted : admitsWrite host faultless phase fields) :
    ShowsSettled first (afterWrite phase fields) (world.write jobId fields) jobId := by
  intro settled stage
  have status := status_after_write (world.seenFrom jobId) fields
  rw [← seen_write] at status
  obtain ⟨-, written⟩ := admitted
  unfold afterWrite at stage
  cases wrote : fields.status with
  | none =>
      rw [wrote] at stage status
      rcases shows settled stage with before | ⟨terminal, shown⟩
      · exact .inl before
      · exact .inr ⟨terminal, status.trans (by simpa using shown)⟩
  | some next =>
      rw [wrote] at stage status written
      have shown : ((world.write jobId fields).seenFrom jobId).status = some next := by
        simpa using status
      cases next with
      | queued => exact written.elim
      | running => cases stage
      | success | failed | cancelled =>
          cases stage
          exact .inr ⟨rfl, shown⟩

/-- A worker that is answered obligingly meets no fault, and the record shows what
it settles on. -/
theorem obliged_worker (lifetime : Lifetime) (replicas : Kind → Nat) (request : JobCall)
    (admitted : workerAdmits host faultless phase request) (taken : request ≠ .takeFromQueue)
    (shows : ShowsSettled first phase world jobId) :
    ∃ later, workerStep faultless phase request
        (obligingServer lifetime replicas jobId world request).1 later ∧
      ShowsSettled first later (obligingServer lifetime replicas jobId world request).2 jobId := by
  have foreign : ∀ {Answer : Type} (answer : Answer), Foreign (.ok answer) :=
    fun _ _ impossible => (nomatch impossible)
  have still : ∀ {after : ServerWorld},
      (after.seenFrom jobId).status = (world.seenFrom jobId).status →
      ShowsSettled first phase after jobId := by
    intro after same status stage
    rw [same]
    exact shows status stage
  have contained : ∀ container, ((world.setContainer jobId container).seenFrom jobId).status =
      (world.seenFrom jobId).status := by
    intro container
    rw [seen_set_container]
    rfl
  cases request
  case hgetall reader =>
      have same : ((world.noteRead jobId reader).seenFrom jobId).status =
          (world.seenFrom jobId).status := by
        rw [seen_note_read]
        cases reader <;> rfl
      refine ⟨_, ⟨_, rfl, rfl⟩, ?_⟩
      cases reader with
      | preRun => exact fun status stage => nomatch stage
      | poll | sendCallback | load | afterRun => exact still same
  case hset fields => exact ⟨_, ⟨rfl, rfl⟩, shown_after_write shows fields admitted⟩
  case time => exact ⟨_, ⟨⟨_, rfl⟩, rfl⟩, still rfl⟩
  case takeFromQueue => exact absurd rfl taken
  case expire | enqueue | fetchJob | cancelJob => exact admitted.elim
  case containersRun | wait | kill =>
      exact ⟨_, ⟨⟨foreign _, fun _ => trivial⟩, rfl⟩, still (contained _)⟩
  all_goals exact ⟨_, ⟨⟨foreign _, fun _ => trivial⟩, rfl⟩, still rfl⟩

end Answered

/-- A worker that has begun, and what has changed since: RQ only once it is
through, and no other job. -/
structure InTurn (begun : ServerWorld) (first : WorkerPhase) (jobId : String)
    (world : ServerWorld) (state : Turn × WorkerPhase) : Prop where
  began : state.1 ≠ .waiting
  busy : state.1 = .busy → world.rq = begun.rq
  through : state.1 = .through → world.rq = (begun.rq.register jobId .finished).release jobId
  others : ∀ other, other ≠ jobId → world.seenFrom other = begun.seenFrom other
  shows : ShowsSettled first state.2 world jobId

section OneTurn

variable {host faultless : Bool} {first : WorkerPhase} {index : Index}

theorem turn_goes_on (begun : ServerWorld) :
    GoesOn (serverSurroundings workload lifetime replicas).still (index, .worker)
      (turnMachine.both (workerProtocol host faultless))
      (InTurn begun first (workload.id index)) := by
  rintro world ⟨turn, phase⟩ request inTurn ⟨turns, works⟩
  cases turn with
  | waiting => exact absurd rfl inTurn.began
  | through => exact turns.elim
  | busy =>
      have taken : request ≠ .takeFromQueue := by
        rintro rfl
        rcases turns with impossible | impossible <;> cases impossible
      have step := obliging_server_step lifetime replicas (workload.id index) world request
        (by cases request <;> first | rfl | exact absurd rfl taken)
      obtain ⟨later, matching, shows⟩ :=
        obliged_worker lifetime replicas request works taken inTurn.shows
      have others : ∀ other, other ≠ workload.id index →
          (obligingServer lifetime replicas (workload.id index) world request).2.seenFrom other =
            begun.seenFrom other :=
        fun other apart =>
          (other_step_hidden apart request _ step).trans (inTurn.others other apart)
      have busy : Turn.busy ≠ .waiting ∧ Turn.busy ≠ .through := by decide
      have through : Turn.through ≠ .waiting ∧ Turn.through ≠ .busy := by decide
      rcases turns with rfl | off
      · refine ⟨_, _, (.through, later), step, ⟨⟨rfl, rfl⟩, matching⟩, through.1,
          fun same => absurd same through.2, fun _ => ?_, others, shows⟩
        simp only [obligingServer, inTurn.busy rfl]
      · refine ⟨_, _, (.busy, later), step, ⟨?_, matching⟩, busy.1, fun _ => ?_,
          fun same => absurd same busy.2, others, shows⟩
        · cases request
          case takeFromQueue | finishJob => cases off
          all_goals rfl
        · exact (rq_unchanged request _ off step).trans (inTurn.busy rfl)

variable [DecidableEq Index]

/-- What a turn that is brought to its end has come to. -/
structure TurnEnded (before after : ServerConfiguration Index) (jobId : String)
    (first last : WorkerPhase) : Prop where
  rq : after.world.rq = (before.world.rq.register jobId .finished).release jobId
  others : ∀ other, other ≠ jobId → after.world.seenFrom other = before.world.seenFrom other
  shows : ShowsSettled first last after.world jobId
  requests : ∀ party : ServerParty Index, party.2 ≠ .worker → after.rest party = before.rest party

theorem turn_finishes (lifetime : Lifetime) (replicas : Kind → Nat)
    (before : ServerConfiguration Index)
    (turns : Guarantees turnMachine (fun after _ => after = .through) Turn.busy
      (before.rest (index, .worker)))
    (works : Guarantees (workerProtocol host faultless) (fun after _ => WorkEnded faultless after)
      first (before.rest (index, .worker))) :
    ∃ after last, Reaches (serverSurroundings workload lifetime replicas).still before after ∧
      TurnEnded before after (workload.id index) first last ∧ WorkEnded faultless last := by
  have begins : InTurn before.world first (workload.id index) before.world (.busy, first) :=
    ⟨nofun, fun _ => rfl, nofun, fun _ _ => rfl, fun _ stage => .inl stage⟩
  obtain ⟨after, ⟨turn, last⟩, outcome, reaches, ends, ⟨rfl, ended⟩, rest⟩ :=
    party_finishes (turn_goes_on before.world) before (.busy, first) begins
      (guarantees_both _ turns works)
  refine ⟨after, last, reaches, ⟨ends.through rfl, ends.others, ends.shows, ?_⟩, ended⟩
  intro party request
  rw [rest, Function.update_of_ne]
  rintro rfl
  exact request rfl

end OneTurn

/-! ## From any state on -/

section Progress

variable [DecidableEq Index] {clock : Nat}

theorem begun_grows {world after : ServerWorld} {jobId : String} (request : JobCall)
    (reply : JobReply request) (step : serverStep lifetime replicas jobId world request reply after)
    (kind : Kind) : world.rq.begun kind ⊆ after.rq.begun kind := by
  cases request
  case takeFromQueue =>
      obtain ⟨own, rest, -, -, -, rfl⟩ := step
      by_cases same : kind = own
      · subst same
        simp [ServerWorld.take, Rq.take]
      · simp [ServerWorld.take, Rq.take, same]
  case enqueue | finishJob =>
      obtain ⟨-, rfl⟩ := step
      exact List.Subset.refl _
  case cancelJob =>
      rw [serverStep] at step
      split at step
      · rw [step.2]
        exact List.Subset.refl _
      · rw [step.2]
        exact List.Subset.refl _
  all_goals
    rw [rq_unchanged _ reply rfl step]
    exact List.Subset.refl _

theorem untouched_or_begun {reached : ServerConfiguration Index}
    (reaches : Reaches (serverSurroundings workload lifetime replicas) (workload.start clock)
      reached) (index : Index) :
    reached.rest (index, .worker) = (workload.job index).work ∨
      ∃ kind, workload.id index ∈ reached.world.rq.begun kind := by
  induction reaches with
  | refl => exact .inl rfl
  | @tail before _ _ move induction =>
      cases move with
      | drift world drifts =>
          have same : world.rq.begun = before.world.rq.begun := by cases drifts <;> rfl
          rcases induction with untouched | begun
          · exact .inl untouched
          · exact .inr (same ▸ begun)
      | act party request next reply world waiting step =>
          rcases induction with untouched | ⟨kind, begun⟩
          · by_cases own : party = (index, .worker)
            · subst own
              cases waiting.symm.trans untouched
              obtain ⟨kind, rest, -, -, -, rfl⟩ := step
              refine .inr ⟨kind, ?_⟩
              simp [ServerWorld.take, Rq.take]
            · exact .inl ((Function.update_of_ne (Ne.symm own) _ _).trans untouched)
          · exact .inr ⟨kind, begun_grows request reply step kind begun⟩

theorem serving_finishes (before : ServerConfiguration Index)
    (reaches : Reaches (serverSurroundings workload lifetime replicas) (workload.start clock)
      before) :
    ∃ after, Reaches (serverSurroundings workload lifetime replicas).still before after ∧
      (∀ kind, after.world.rq.serving kind = []) ∧
      after.world.rq.queues = before.world.rq.queues ∧
      after.world.rq.begun = before.world.rq.begun ∧
      ∀ party : ServerParty Index, party.2 ≠ .worker → after.rest party = before.rest party := by
  generalize size : (before.world.rq.serving .build).length +
    (before.world.rq.serving .generate).length = busy
  induction busy using Nat.strong_induction_on generalizing before with
  | _ busy induction =>
  by_cases idle : ∀ kind, before.world.rq.serving kind = []
  · exact ⟨before, .refl, idle, rfl, rfl, fun _ _ => rfl⟩
  obtain ⟨kind, occupied⟩ := not_forall.mp idle
  obtain ⟨jobId, serves⟩ := List.exists_mem_of_ne_nil _ occupied
  obtain ⟨turns, served, turning⟩ := keeps_reaches served_upheld _
    (⟨fun _ => List.nodup_nil, fun _ _ => nofun⟩ : ServedBusy workload { clock } _)
    (start_turns clock) reaches
  obtain ⟨phases, -, working⟩ := reached_upheld reaches
  obtain ⟨index, rfl, isBusy⟩ := served.busy kind jobId serves
  have turn := turning (index, .worker)
  rw [isBusy] at turn
  obtain ⟨after, last, run, ends, -⟩ := turn_finishes lifetime replicas before
    (guarantees_mono _ _ (fun _ _ through => through rfl) turn) (working (index, .worker))
  have erased : ∀ other, after.world.rq.serving other =
      (before.world.rq.serving other).erase (workload.id index) := by
    intro other
    rw [ends.rq]
    rfl
  have fewer : (after.world.rq.serving .build).length +
      (after.world.rq.serving .generate).length < busy := by
    have here := List.length_erase_of_mem serves
    have some := List.length_pos_of_mem serves
    have build := (before.world.rq.serving .build).length_erase_le (a := workload.id index)
    have generate := (before.world.rq.serving .generate).length_erase_le (a := workload.id index)
    rw [erased, erased]
    cases kind <;> omega
  obtain ⟨final, further, quiet, queues, begun, requests⟩ :=
    induction _ fewer after (reaches.trans (still_reaches run)) rfl
  refine ⟨final, run.trans further, quiet, queues.trans ?_, begun.trans ?_, fun party request =>
    (requests party request).trans (ends.requests party request)⟩
  · rw [ends.rq]
    rfl
  · rw [ends.rq]
    rfl

/-- The job at the head of a queue is run to its end. -/
theorem head_finishes (staffed : ∀ kind, 0 < replicas kind)
    (pollable : ∀ index, 0 < (workload.job index).settings.buildPollInterval)
    (before : ServerConfiguration Index)
    (reaches : Reaches (serverSurroundings workload lifetime replicas) (workload.start clock)
      before)
    (idle : ∀ kind, before.world.rq.serving kind = []) {kind : Kind} {jobId : String}
    {rest : List String} (head : before.world.rq.queues kind = jobId :: rest) :
    ∃ after status, Reaches (serverSurroundings workload lifetime replicas).still before after ∧
      after.world.rq = ((before.world.rq.take jobId kind rest).register jobId .finished).release
        jobId ∧
      (∀ other, other ≠ jobId → after.world.seenFrom other = before.world.seenFrom other) ∧
      (status.terminal = true ∧ (after.world.seenFrom jobId).status = some status) ∧
      ∀ party : ServerParty Index, party.2 ≠ .worker → after.rest party = before.rest party := by
  obtain ⟨phases, upheld, -⟩ := reached_upheld reaches
  have waits : jobId ∈ before.world.rq.queues kind := head ▸ List.mem_cons_self
  obtain ⟨index, rfl, kindIs⟩ :=
    upheld.discipline.own kind jobId (upheld.discipline.enqueued_of_waiting waits)
  have untouched : before.rest (index, .worker) = (workload.job index).work := by
    rcases untouched_or_begun reaches index with untouched | ⟨other, begun⟩
    · exact untouched
    · have present := (upheld.discipline.inOrder other).subset (List.mem_append_left _ begun)
      obtain rfl := upheld.discipline.kind_of present
      exact absurd waits (upheld.discipline.begun_off_queue begun kind)
  have step : serverStep lifetime replicas (workload.id index) before.world .takeFromQueue
      (.ok ()) (before.world.take (workload.id index) kind rest) :=
    ⟨kind, rest, head, by simpa [idle kind] using staffed kind, rfl, rfl⟩
  let begun : ServerConfiguration Index :=
    ⟨before.world.take (workload.id index) kind rest,
      Function.update before.rest (index, .worker) (afterTaking (workload.job index))⟩
  have taken : Reaches (serverSurroundings workload lifetime replicas).still before begun :=
    act_reaches _ before (index, .worker) (.ok () : JobReply .takeFromQueue) _ untouched step
  have left : begun.rest (index, .worker) = (afterTaking (workload.job index)) :=
    Function.update_self _ _ _
  obtain ⟨after, last, run, ends, -, -, settled⟩ := turn_finishes lifetime replicas begun
    (left ▸ taken_turns _) (left ▸ taken_follows _ (pollable index))
  obtain ⟨status, stage⟩ := settled rfl
  refine ⟨after, status, taken.trans run, ends.rq, ?_, ?_, ?_⟩
  · exact fun other apart =>
      (ends.others other apart).trans (other_step_hidden apart .takeFromQueue _ step)
  · rcases ends.shows status stage with impossible | shown
    · cases impossible
    · exact shown
  · intro party request
    rw [ends.requests party request]
    refine Function.update_of_ne ?_ _ _
    rintro rfl
    exact request rfl

/-- Nothing waits and nobody is busy. What waited before has been begun in its
order, and each of these jobs is settled; no request has been helped along. -/
structure Drained (before after : ServerConfiguration Index) : Prop where
  empty : ∀ kind, after.world.rq.queues kind = []
  idle : ∀ kind, after.world.rq.serving kind = []
  inOrder : ∀ kind,
    after.world.rq.begun kind = before.world.rq.begun kind ++ before.world.rq.queues kind
  settled : ∀ kind, ∀ jobId ∈ before.world.rq.queues kind, ∃ status : Status,
    status.terminal = true ∧ (after.world.seenFrom jobId).status = some status
  requests : ∀ party : ServerParty Index, party.2 ≠ .worker → after.rest party = before.rest party

theorem idle_drains (staffed : ∀ kind, 0 < replicas kind)
    (pollable : ∀ index, 0 < (workload.job index).settings.buildPollInterval)
    (before : ServerConfiguration Index)
    (reaches : Reaches (serverSurroundings workload lifetime replicas) (workload.start clock)
      before)
    (idle : ∀ kind, before.world.rq.serving kind = []) :
    ∃ after, Reaches (serverSurroundings workload lifetime replicas).still before after ∧
      Drained before after ∧
      ∀ jobId, (∀ kind, jobId ∉ before.world.rq.queues kind) →
        after.world.seenFrom jobId = before.world.seenFrom jobId := by
  generalize size : (before.world.rq.queues .build).length +
    (before.world.rq.queues .generate).length = waiting
  induction waiting using Nat.strong_induction_on generalizing before with
  | _ waiting induction =>
  by_cases empty : ∀ kind, before.world.rq.queues kind = []
  · refine ⟨before, .refl, ⟨empty, idle, ?_, ?_, fun _ _ => rfl⟩, fun _ _ => rfl⟩
    · intro kind
      rw [empty kind, List.append_nil]
    · intro kind jobId waits
      rw [empty kind] at waits
      cases waits
  obtain ⟨kind, listed⟩ := not_forall.mp empty
  obtain ⟨jobId, rest, head⟩ := List.exists_cons_of_ne_nil listed
  obtain ⟨after, status, run, rq, others, shown, requests⟩ :=
    head_finishes staffed pollable before reaches idle head
  have queues : after.world.rq.queues = Function.update before.world.rq.queues kind rest := by
    rw [rq]
    rfl
  have begun : after.world.rq.begun =
      Function.update before.world.rq.begun kind (before.world.rq.begun kind ++ [jobId]) := by
    rw [rq]
    rfl
  have quiet : ∀ other, after.world.rq.serving other = [] := by
    intro other
    rw [rq]
    by_cases same : other = kind
    · subst same
      simp [Rq.release, Rq.register, Rq.take, idle]
    · simp [Rq.release, Rq.register, Rq.take, idle, same]
  have off : ∀ other, jobId ∉ after.world.rq.queues other := by
    obtain ⟨_, upheld, -⟩ := reached_upheld (reaches.trans (still_reaches run))
    obtain ⟨_, early, -⟩ := reached_upheld reaches
    obtain ⟨index, rfl, rfl⟩ := early.discipline.own kind jobId
      (early.discipline.enqueued_of_waiting (head ▸ List.mem_cons_self))
    exact upheld.discipline.begun_off_queue (by simp [begun])
  have fewer : (after.world.rq.queues .build).length +
      (after.world.rq.queues .generate).length < waiting := by
    have longer := congrArg List.length head
    rw [List.length_cons] at longer
    rw [queues]
    cases kind <;> simp <;> omega
  obtain ⟨final, further, drained, spared⟩ :=
    induction _ fewer after (reaches.trans (still_reaches run)) quiet rfl
  refine ⟨final, run.trans further, ⟨drained.empty, drained.idle, ?_, ?_, ?_⟩, ?_⟩
  · intro other
    rw [drained.inOrder other, begun, queues]
    by_cases same : other = kind
    · subst same
      simp [head]
    · simp [same]
  · intro other waited waits
    by_cases own : waited = jobId
    · subst own
      rw [spared waited off]
      exact ⟨status, shown⟩
    · refine drained.settled other waited ?_
      rw [queues]
      by_cases same : other = kind
      · subst same
        rw [head] at waits
        simpa [own] using waits
      · simpa [same] using waits
  · exact fun party request => (drained.requests party request).trans (requests party request)
  · intro other absent
    have apart : other ≠ jobId := by
      rintro rfl
      exact absent kind (head ▸ List.mem_cons_self)
    refine (spared other fun queue waits => ?_).trans (others other apart)
    rw [queues] at waits
    by_cases same : queue = kind
    · subst same
      rw [Function.update_self] at waits
      exact absent queue (head ▸ List.mem_cons_of_mem _ waits)
    · exact absent queue (by simpa [same] using waits)

/-- Whatever has happened so far, the workers alone can clear both queues and leave
every job that waited with a terminal status: no time has to pass, no container has
to end by itself, no worker has to die. -/
theorem queues_can_drain (workload : Workload Index) (lifetime : Lifetime) (replicas : Kind → Nat)
    (staffed : ∀ kind, 0 < replicas kind)
    (pollable : ∀ index, 0 < (workload.job index).settings.buildPollInterval) (clock : Nat)
    (reached : ServerConfiguration Index)
    (reaches : Reaches (serverSurroundings workload lifetime replicas) (workload.start clock)
      reached) :
    ∃ drained, Reaches (serverSurroundings workload lifetime replicas).still reached drained ∧
      Drained reached drained := by
  obtain ⟨between, run, quiet, queues, begun, spared⟩ := serving_finishes reached reaches
  obtain ⟨drained, further, ended, -⟩ :=
    idle_drains staffed pollable between (reaches.trans (still_reaches run)) quiet
  refine ⟨drained, run.trans further, ended.empty, ended.idle, ?_, ?_, ?_⟩
  · intro kind
    rw [ended.inOrder, begun, queues]
  · intro kind jobId waits
    exact ended.settled kind jobId (queues ▸ waits)
  · exact fun party request => (ended.requests party request).trans (spared party request)

end Progress

/-- All three jobs are submitted, and the workers take what they can: the second
build waits behind the first. -/
def secondWaits : ServerConfiguration (Fin 3) :=
  playBy (fun world party request => serverTurn oneEach (threeJobs.id party.1) world request)
    (fun party => obligingServer .persistent oneEach (threeJobs.id party.1))
    ((List.finRange 3).flatMap (fun index => List.replicate 8 (index, .submission)) ++
      (List.finRange 3).map fun index => (index, .worker))
    (threeJobs.start 0)

theorem second_waits_reached :
    Reaches (serverSurroundings threeJobs .persistent oneEach) (threeJobs.start 0) secondWaits :=
  play_by_reaches _ _ _ (fun world party request turn =>
    obliging_server_step .persistent oneEach (threeJobs.id party.1) world request turn) _ _

theorem second_can_finish :
    secondWaits.world.rq.serving .build = ["first"] ∧
      ∃ drained, Reaches (serverSurroundings threeJobs .persistent oneEach).still secondWaits
          drained ∧
        drained.world.rq.begun .build = ["first", "second"] ∧
        ∃ status : Status, status.terminal = true ∧
          (drained.world.seenFrom "second").status = some status := by
  have begun : secondWaits.world.rq.begun .build = ["first"] := by decide +kernel
  have queue : secondWaits.world.rq.queues .build = ["second"] := by decide +kernel
  obtain ⟨drained, run, ended⟩ := queues_can_drain threeJobs .persistent oneEach
    (fun _ => Nat.one_pos) (by decide) 0 secondWaits second_waits_reached
  refine ⟨by decide +kernel, drained, run, ?_, ended.settled .build "second" (by simp [queue])⟩
  rw [ended.inOrder, begun, queue]
  rfl

end PretextBuildServer.QueueProgress
