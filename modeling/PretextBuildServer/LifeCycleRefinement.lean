import PretextBuildServer.LifeCycle

/-!
# The code refines the life cycle

For each party, one lemma turns a call that its protocol admits and the world
answers into a phase of the protocol and an event of the life cycle.
-/

namespace PretextBuildServer.LifeCycleRefinement

open EffectProgram EffectProgram.Program InterleavedParties
open PretextBuildServer.ServerSettings PretextBuildServer.JobRecord PretextBuildServer.JobCalls
open PretextBuildServer.JobSystem PretextBuildServer.WorkerProtocol PretextBuildServer.WorkerRun
open PretextBuildServer.RequestProtocols PretextBuildServer.LifeCycle

set_option autoImplicit false

variable {job : Job} {faultless : Bool} {world after : JobWorld}
  {phases : (party : Party) → Phase party}

/-- What a step of the world becomes on the side of protocols and life cycle. -/
def Matched (job : Job) (faultless : Bool) (world : JobWorld)
    (phases : (party : Party) → Phase party) (party : Party) (request : JobCall)
    (reply : JobReply request) (after : JobWorld) : Prop :=
  ∃ phase event, (jobProtocol job faultless party).step (phases party) request reply phase ∧
    Recorded after (Function.update phases party phase) ∧ Concerns party request event ∧
    LifeStep job.settings.hostDataDir.isSome faultless (lifeOf world phases) event
      (lifeOf after (Function.update phases party phase))

theorem quiet_world (request : JobCall) (reply : JobReply request)
    (isQuiet : quiet request = true) (step : jobStep .persistent world request reply after) :
    (∃ container, after = { world with container := container }) ∧ Foreign reply := by
  cases request
  case time =>
      obtain ⟨rfl, rfl⟩ := step
      exact ⟨⟨_, rfl⟩, fun raised impossible => (nomatch impossible)⟩
  case containersRun kwargs =>
      obtain ⟨foreign, rfl⟩ := step
      refine ⟨?_, foreign⟩
      cases reply <;> exact ⟨_, rfl⟩
  case wait timeout =>
      obtain ⟨foreign, rfl⟩ := step
      refine ⟨?_, foreign⟩
      cases reply <;> exact ⟨_, rfl⟩
  case kill =>
      obtain ⟨foreign, rfl⟩ := step
      refine ⟨?_, foreign⟩
      cases reply <;> exact ⟨_, rfl⟩
  all_goals first
    | exact ⟨⟨world.container, step.2⟩, step.1⟩
    | cases isQuiet

theorem matched_unchanged {party : Party} {request : JobCall} {reply : JobReply request}
    (container : Container)
    (step : (jobProtocol job faultless party).step (phases party) request reply (phases party))
    (recorded : Recorded world phases) :
    Matched job faultless world phases party request reply
      { world with container := container } := by
  refine ⟨phases party, .quiet, step, ?_, trivial, ?_⟩
  · rw [Function.update_eq_self]
    exact recorded
  · rw [Function.update_eq_self]
    exact .quiet

theorem recorded_write (fields : Fields) (party : Party) (phase : Phase party)
    (shows : (fields.status <|> world.status).isSome = true) :
    Recorded (world.write fields)
      (Function.update phases party phase) := by
  rw [← status_after_write] at shows
  unfold Recorded JobWorld.status at *
  cases found : (world.write fields).record with
  | none => simp [found] at shows
  | some key => simpa [found] using shows

theorem recorded_kept {party : Party} (phase : Phase party) (recorded : Recorded world phases)
    (present : world.record.isSome = true) (same : after.record = world.record) :
    Recorded after (Function.update phases party phase) := by
  unfold Recorded at *
  rw [same]
  revert recorded present
  cases world.record with
  | none => exact fun _ impossible => (nomatch impossible)
  | some key => exact fun recorded _ => recorded

theorem status_present (recorded : Recorded world phases)
    (present : world.record.isSome = true) : world.status.isSome = true := by
  unfold Recorded at recorded
  unfold JobWorld.status
  cases found : world.record with
  | none => simp [found] at present
  | some key => simpa [found] using recorded

theorem present_of_phase (recorded : Recorded world phases)
    (past : ¬ (phases .submission = SubmissionPhase.fresh ∧
      phases .worker = ({ stage := .waiting } : WorkerPhase) ∧ world.rq = .unknown ∧
      ∀ index, phases (.cancel index) = CancelPhase.start ∨
        phases (.cancel index) = CancelPhase.loaded none)) : world.record.isSome = true := by
  unfold Recorded at recorded
  cases found : world.record with
  | none => exact absurd (by simpa [found] using recorded) past
  | some key => rfl

theorem flagged_shows (recorded : Recorded world phases) (flagged : world.flagged = true) :
    world.status.isSome = true := by
  refine status_present recorded ?_
  unfold JobWorld.flagged at flagged
  cases found : world.record with
  | none => simp [found, Fields.cancelled] at flagged
  | some key => rfl

theorem submission_matched (request : JobCall) (reply : JobReply request)
    (recorded : Recorded world phases)
    (admitted : submissionAdmits job.request.kind job.settings.jobTtl (phases .submission) request)
    (step : jobStep .persistent world request reply after) :
    Matched job faultless world phases .submission request reply after := by
  by_cases isQuiet : quiet request = true
  · obtain ⟨⟨container, rfl⟩, -⟩ := quiet_world request reply isQuiet step
    refine matched_unchanged container ?_ recorded
    cases request <;> first | rfl | cases isQuiet
  · cases request
    case hset fields =>
        obtain ⟨fresh, creates⟩ := admitted
        obtain ⟨rfl, rfl⟩ := step
        refine ⟨SubmissionPhase.created, .create, ⟨rfl, rfl⟩, ?_, trivial, ?_⟩
        · exact recorded_write fields _ _ (by simp [creates.status])
        · have created := @LifeStep.create job.settings.hostDataDir.isSome faultless
            (lifeOf world phases) fresh
          convert created using 1
          rw [life_of_submission]
          simp [lifeOf, status_after_write, finished_after_write, flagged_after_write,
            creates.status, creates.finishedAt, creates.cancelRequested]
    case expire seconds =>
        obtain ⟨created, -⟩ := admitted
        obtain ⟨rfl, rfl⟩ := step
        refine ⟨SubmissionPhase.stored, .store, ⟨rfl, rfl⟩, ?_, trivial, ?_⟩
        · unfold Recorded at *
          cases found : world.record with
          | none => simp [found, created] at recorded
          | some key =>
              simpa [found, JobWorld.setExpiry, Lifetime.survive, expire] using recorded
        · have stored := @LifeStep.store job.settings.hostDataDir.isSome faultless
            (lifeOf world phases) created
          convert stored using 1
          rw [life_of_submission]
          unfold lifeOf JobWorld.status JobWorld.finished JobWorld.flagged JobWorld.setExpiry
          cases world.record <;> simp [Lifetime.survive, expire]
    case enqueue queue =>
        obtain ⟨rfl, rfl⟩ := step
        refine ⟨SubmissionPhase.enqueued, .enqueue, ⟨rfl, rfl⟩, ?_, trivial, ?_⟩
        · refine recorded_kept _ recorded ?_ rfl
          refine present_of_phase recorded fun absent => ?_
          simp [show phases .submission = .stored from admitted] at absent
        · exact @LifeStep.enqueue job.settings.hostDataDir.isSome faultless
            (lifeOf world phases) admitted
    all_goals first | exact absurd rfl isQuiet | cases admitted

theorem worker_begun (recorded : Recorded world phases)
    (phase : phases .worker ≠ ({ stage := .waiting } : WorkerPhase)) :
    world.record.isSome = true :=
  present_of_phase recorded fun absent => phase absent.2.1

theorem worker_write_life (fields : Fields) (phase : WorkerPhase) (others : LeavesOthers fields) :
    lifeOf (world.write fields)
        (Function.update phases .worker phase) =
      { lifeOf world phases with
        status := fields.status <|> world.status
        finished := fields.finishedAt.isSome || world.finished
        worker := phase } := by
  rw [life_of_worker]
  simp [lifeOf, status_after_write, finished_after_write, flagged_after_write,
    others.cancelRequested]

theorem worker_write_matched (fields : Fields) (recorded : Recorded world phases)
    (admitted : admitsWrite job.settings.hostDataDir.isSome faultless (phases .worker) fields) :
    Matched job faultless world phases .worker (.hset fields) (.ok ())
      (world.write fields) := by
  obtain ⟨others, legal⟩ := admitted
  have present : world.record.isSome = true := by
    refine worker_begun recorded fun start => ?_
    revert legal
    rw [start]
    cases fields.status with
    | none => exact fun legal => (nomatch legal.1)
    | some status => cases status <;> simp [settles]
  have shows : (fields.status <|> world.status).isSome = true := by
    have before := status_present recorded present
    cases fields.status with
    | none => exact before
    | some status => rfl
  have settled : ∀ status, fields.status = some status → status.terminal = true →
      (phases .worker).reported = false →
      settles job.settings.hostDataDir.isSome faultless (phases .worker) status →
      fields.finishedAt.isSome = true →
      Matched job faultless world phases .worker (.hset fields) (.ok ())
        (world.write fields) := by
    intro status writes terminal unreported legal finished
    refine ⟨{ phases .worker with stage := .settled status }, .settle status,
      ⟨rfl, (settle_leads fields writes legal).symm⟩, recorded_write fields _ _ shows, trivial, ?_⟩
    rw [worker_write_life fields _ others]
    convert @LifeStep.settle _ _ (lifeOf world phases) status unreported legal using 1
    simp [writes, finished, Life.setStage, lifeOf]
  cases writes : fields.status with
  | none =>
      simp only [writes] at legal
      refine ⟨phases .worker, .quiet, ⟨rfl, by simp [afterWrite, writes]⟩,
        recorded_write fields _ _ shows, trivial, ?_⟩
      rw [worker_write_life fields _ others]
      convert @LifeStep.quiet _ _ (lifeOf world phases) using 1
      simp [writes, legal.2, lifeOf]
  | some status =>
      simp only [writes] at legal
      cases status with
      | queued => cases legal
      | running =>
          refine ⟨{ phases .worker with stage := .running }, .begin,
            ⟨rfl, by simp [afterWrite, writes]⟩, recorded_write fields _ _ shows, trivial, ?_⟩
          rw [worker_write_life fields _ others]
          convert @LifeStep.begin _ _ (lifeOf world phases) legal.1 legal.2.1 legal.2.2.1 using 1
          simp [writes, legal.2.2.2, Life.setStage, lifeOf]
      | success | failed | cancelled =>
          exact settled _ writes rfl legal.1 legal.2.1 legal.2.2

theorem worker_read_matched (reader : Reader) (recorded : Recorded world phases)
    (admitted : workerAdmits job.settings.hostDataDir.isSome faultless (phases .worker)
      (.hgetall reader)) :
    Matched job faultless world phases .worker (.hgetall reader)
      (.ok (world.record.map Key.fields)) (world.noteRead reader) := by
  have present : world.record.isSome = true := by
    refine worker_begun recorded fun start => ?_
    revert admitted
    rw [start]
    cases reader <;> simp [workerAdmits]
  cases reader with
  | load => cases admitted
  | preRun =>
      refine ⟨_, .look, ⟨_, rfl, rfl⟩, recorded_kept _ recorded present rfl, trivial, ?_⟩
      rw [life_of_worker]
      exact @LifeStep.look _ _ (lifeOf world phases) admitted.1 admitted.2
  | poll =>
      refine ⟨_, .poll, ⟨_, rfl, rfl⟩, recorded_kept _ recorded present rfl, trivial, ?_⟩
      rw [life_of_worker]
      exact @LifeStep.poll _ _ (lifeOf world phases) admitted.1 admitted.2
  | afterRun =>
      refine ⟨_, .quiet, ⟨_, rfl, rfl⟩, recorded_kept _ recorded present rfl, trivial, ?_⟩
      rw [life_of_worker]
      exact .quiet
  | sendCallback =>
      refine ⟨_, .report, ⟨_, rfl, rfl⟩, recorded_kept _ recorded present rfl, trivial, ?_⟩
      rw [life_of_worker]
      exact @LifeStep.report _ _ (lifeOf world phases) admitted.1 admitted.2

theorem worker_matched (request : JobCall) (reply : JobReply request)
    (recorded : Recorded world phases)
    (admitted : workerAdmits job.settings.hostDataDir.isSome faultless (phases .worker) request)
    (faults : faultless = true → Faultless request reply)
    (step : jobStep .persistent world request reply after) :
    Matched job faultless world phases .worker request reply after := by
  by_cases isQuiet : quiet request = true
  · obtain ⟨⟨container, rfl⟩, foreign⟩ := quiet_world request reply isQuiet step
    refine matched_unchanged container ?_ recorded
    cases request <;> first | exact ⟨⟨foreign, faults⟩, rfl⟩ | skip
    case time =>
        obtain ⟨rfl, -⟩ := step
        exact ⟨⟨_, rfl⟩, rfl⟩
    all_goals cases isQuiet
  · cases request
    case hset fields =>
        obtain ⟨rfl, rfl⟩ := step
        exact worker_write_matched fields recorded admitted
    case hgetall reader =>
        obtain ⟨rfl, rfl⟩ := step
        exact worker_read_matched reader recorded admitted
    case takeFromQueue =>
        obtain ⟨queued, rfl, rfl⟩ := step
        refine ⟨{ phases .worker with stage := .taken }, .take, ⟨rfl, rfl⟩, ?_, trivial, ?_⟩
        · refine recorded_kept _ recorded (present_of_phase recorded fun absent => ?_) rfl
          simp [queued] at absent
        · rw [life_of_worker]
          exact @LifeStep.take _ _ (lifeOf world phases) admitted queued
    case finishJob =>
        obtain ⟨rfl, rfl⟩ := step
        refine ⟨phases .worker, .finish, ⟨⟨fun _ impossible => (nomatch impossible),
          fun _ => trivial⟩, rfl⟩, ?_, trivial, ?_⟩
        · refine recorded_kept _ recorded (worker_begun recorded fun start => ?_) rfl
          exact admitted.2 (by rw [start])
        · rw [life_of_worker]
          exact @LifeStep.finish _ _ (lifeOf world phases) admitted.1 admitted.2
    all_goals first | exact absurd rfl isQuiet | cases admitted

theorem cancel_begun (index : Nat) (recorded : Recorded world phases)
    (phase : ¬ (phases (.cancel index) = CancelPhase.start ∨
      phases (.cancel index) = CancelPhase.loaded none)) :
    world.record.isSome = true :=
  present_of_phase recorded fun absent => phase (absent.2.2.2 index)

theorem found_status (recorded : Recorded world phases) :
    (world.record.map Key.fields).map Fields.status = world.status.map some := by
  unfold Recorded at recorded
  unfold JobWorld.status
  cases found : world.record with
  | none => rfl
  | some key =>
      simp only [found] at recorded
      obtain ⟨status, shows⟩ := Option.isSome_iff_exists.mp recorded
      simp [shows]

theorem cancel_write_matched (index : Nat) (fields : Fields) (recorded : Recorded world phases)
    (admitted : cancelAdmits (phases (.cancel index)) (.hset fields)) :
    Matched job faultless world phases (.cancel index) (.hset fields) (.ok ())
      (world.write fields) := by
  unfold cancelAdmits at admitted
  dsimp only at admitted
  split at admitted
  · rename_i status loaded
    obtain ⟨unfinished, rfl⟩ := admitted
    have present := cancel_begun index recorded (by simp [loaded])
    refine ⟨.flagged (status == some .queued), .flag index, ⟨rfl, by simp [loaded]⟩,
      recorded_write _ _ _ (status_present recorded present), trivial, ?_⟩
    rw [life_of_cancel]
    convert @LifeStep.flag _ _ (lifeOf world phases) index status loaded unfinished using 1
    simp [lifeOf, Life.setCancel, status_after_write, finished_after_write, flagged_after_write]
  · rename_i won
    obtain ⟨clock, rfl⟩ := admitted
    refine ⟨.ended, .cancel index, ⟨rfl, by simp [won]⟩, recorded_write _ _ _ rfl,
      ⟨rfl, _, rfl, rfl⟩, ?_⟩
    rw [life_of_cancel]
    convert @LifeStep.cancel _ _ (lifeOf world phases) index won using 1
    simp [lifeOf, Life.setCancel, status_after_write, finished_after_write, flagged_after_write]
  · cases admitted

theorem cancel_matched (index : Nat) (request : JobCall) (reply : JobReply request)
    (recorded : Recorded world phases)
    (admitted : cancelAdmits (phases (.cancel index)) request)
    (step : jobStep .persistent world request reply after) :
    Matched job faultless world phases (.cancel index) request reply after := by
  cases request
  case hgetall reader =>
      cases reader <;> try cases admitted
      obtain ⟨rfl, rfl⟩ := step
      refine ⟨.loaded ((after.record.map Key.fields).map Fields.status), .load index,
        ⟨_, rfl, rfl⟩, ?_, trivial, ?_⟩
      · unfold Recorded at *
        cases found : after.record with
        | some key => simpa [found] using recorded
        | none =>
            simp only [found] at recorded ⊢
            obtain ⟨fresh, waiting, unknown, cancels⟩ := recorded
            refine ⟨fresh, waiting, unknown, fun other => ?_⟩
            by_cases same : other = index
            · subst same
              exact .inr (by simp)
            · rw [Function.update_of_ne (by simpa using same)]
              exact cancels other
      · rw [life_of_cancel, found_status recorded]
        exact @LifeStep.load _ _ (lifeOf after phases) index admitted
  case hset fields =>
      obtain ⟨rfl, rfl⟩ := step
      exact cancel_write_matched index fields recorded admitted
  case fetchJob =>
      have flagged : phases (.cancel index) = .flagged true := admitted
      have present := cancel_begun index recorded (by simp [flagged])
      obtain ⟨answer, rfl⟩ := step
      split at answer
      · rename_i unknown
        obtain ⟨message, rfl⟩ := answer
        refine ⟨.ended, .miss index, .inr ⟨⟨message, rfl⟩, rfl⟩, recorded_kept _ recorded present rfl,
          trivial, ?_⟩
        rw [life_of_cancel]
        exact @LifeStep.miss _ _ (lifeOf after phases) index flagged unknown
      · rename_i known
        subst answer
        refine ⟨.fetched, .fetch index, .inl ⟨rfl, rfl⟩, recorded_kept _ recorded present rfl,
          trivial, ?_⟩
        rw [life_of_cancel]
        exact @LifeStep.fetch _ _ (lifeOf after phases) index flagged known
  case cancelJob =>
      have fetched : phases (.cancel index) = .fetched := admitted
      have present := cancel_begun index recorded (by simp [fetched])
      simp only [jobStep] at step
      split at step
      · rename_i canceled
        obtain ⟨⟨message, rfl⟩, rfl⟩ := step
        refine ⟨.ended, .lose index, .inr ⟨⟨message, rfl⟩, rfl⟩, recorded_kept _ recorded present rfl,
          trivial, ?_⟩
        rw [life_of_cancel]
        exact @LifeStep.lose _ _ (lifeOf after phases) index fetched canceled
      · rename_i live
        obtain ⟨rfl, rfl⟩ := step
        refine ⟨.won, .win index, .inl ⟨rfl, rfl⟩, recorded_kept _ recorded present rfl,
          ⟨rfl, rfl⟩, ?_⟩
        rw [life_of_cancel]
        exact @LifeStep.win _ _ (lifeOf world phases) index fetched live
  case time =>
      obtain ⟨rfl, rfl⟩ := step
      exact matched_unchanged after.container ⟨⟨_, rfl⟩, rfl⟩ recorded
  all_goals cases admitted

theorem drift_life (job : Job) (faultless : Bool) (drifts : JobDrift .persistent world after)
    (recorded : Recorded world phases) :
    Recorded after phases ∧
      (lifeOf after phases = lifeOf world phases ∨
        LifeStep job.settings.hostDataDir.isSome faultless (lifeOf world phases) .forget
          (lifeOf after phases)) := by
  cases drifts with
  | tick later passes => exact ⟨recorded, .inl rfl⟩
  | forget past =>
      refine ⟨?_, .inr (.forget past)⟩
      unfold Recorded at *
      cases found : world.record with
      | some key => simpa [found] using recorded
      | none =>
          simp only [found] at recorded ⊢
          exact ⟨recorded.1, recorded.2.1, trivial, recorded.2.2.2⟩
  | exit statusCode up => exact ⟨recorded, .inl rfl⟩

section Runs

variable {condition : JobWorld → Party → (request : JobCall) → JobReply request → Prop}
  {permitted : Life → Event → Prop} {invariant : Life → Prop}

/-- A condition on steps of the world allows only events that are permitted in
the life cycle, and no fault of the worker where none is assumed. -/
structure Translates (faultless : Bool)
    (condition : JobWorld → Party → (request : JobCall) → JobReply request → Prop)
    (permitted : Life → Event → Prop) : Prop where
  events : ∀ world phases party request reply event, condition world party request reply →
    Concerns party request event → permitted (lifeOf world phases) event
  faults : faultless = true → ∀ world request reply,
    condition world .worker request reply → Faultless request reply
  forget : ∀ life, permitted life .forget

/-- What survives every permitted event of the life cycle. -/
def Preserved (job : Job) (faultless : Bool) (permitted : Life → Event → Prop)
    (invariant : Life → Prop) : Prop :=
  ∀ life event after, invariant life → permitted life event →
    LifeStep job.settings.hostDataDir.isSome faultless life event after → invariant after

theorem step_matched (translates : Translates faultless condition permitted)
    (party : Party) (request : JobCall) (reply : JobReply request)
    (recorded : Recorded world phases)
    (admitted : (jobProtocol job faultless party).admits (phases party) request)
    (step : jobStep .persistent world request reply after)
    (allowed : condition world party request reply) :
    Matched job faultless world phases party request reply after := by
  cases party with
  | submission => exact submission_matched request reply recorded admitted step
  | worker =>
      exact worker_matched request reply recorded admitted
        (fun faultlessly => translates.faults faultlessly world request reply allowed) step
  | cancel index => exact cancel_matched index request reply recorded admitted step

/-- The refinement: an invariant of the life cycle is one of the code. -/
theorem life_upholds (translates : Translates faultless condition permitted)
    (preserved : Preserved job faultless permitted invariant) :
    Upholds ((jobSurroundings .persistent).restrict condition) (jobProtocol job faultless)
      (fun world phases => Recorded world phases ∧ invariant (lifeOf world phases)) where
  act world phases party request reply after holds admitted step := by
    obtain ⟨phase, event, follows, recorded, concerns, lives⟩ :=
      step_matched translates party request reply holds.1 admitted step.1 step.2
    exact ⟨phase, follows, recorded, preserved _ event _ holds.2
      (translates.events world phases party request reply event step.2 concerns) lives⟩
  drift world phases after holds drifts := by
    obtain ⟨recorded, same | lives⟩ :=
      drift_life job faultless drifts holds.1
    · exact ⟨recorded, by rw [same]; exact holds.2⟩
    · exact ⟨recorded, preserved _ _ _ holds.2 (translates.forget _) lives⟩

variable {clock : Nat} {reached : JobConfiguration}

theorem start_recorded (clock : Nat) : Recorded { clock } startPhases :=
  ⟨rfl, rfl, rfl, fun _ => .inl rfl⟩

/-- From a configuration whose parties keep to their phases on. -/
theorem later_life (translates : Translates faultless condition permitted)
    (preserved : Preserved job faultless permitted invariant) {moment : JobConfiguration}
    (recorded : Recorded moment.world phases) (holds : invariant (lifeOf moment.world phases))
    (keeps : Keeps (jobProtocol job faultless) (JobEnded faultless) phases moment)
    (further : Reaches ((jobSurroundings .persistent).restrict condition) moment reached) :
    ∃ later, Recorded reached.world later ∧ invariant (lifeOf reached.world later) ∧
      Keeps (jobProtocol job faultless) (JobEnded faultless) later reached := by
  obtain ⟨later, ⟨recorded, holds⟩, keeps⟩ := keeps_reaches (life_upholds translates preserved)
    phases ⟨recorded, holds⟩ keeps further
  exact ⟨later, recorded, holds, keeps⟩

/-- Every configuration a job can reach shows a life in which the invariant
holds, with every party at a phase its remaining program keeps to. -/
theorem reached_life (translates : Translates faultless condition permitted)
    (preserved : Preserved job faultless permitted invariant)
    (pollable : faultless = true → 0 < job.settings.buildPollInterval)
    (start : invariant (lifeOf { clock } startPhases))
    (reaches : Reaches ((jobSurroundings .persistent).restrict condition) (job.start clock)
      reached) :
    ∃ phases, Recorded reached.world phases ∧ invariant (lifeOf reached.world phases) ∧
      Keeps (jobProtocol job faultless) (JobEnded faultless) phases reached :=
  later_life translates preserved (start_recorded clock) start
    (start_keeps job clock faultless pollable) reaches

/-- What every permitted event does to what a world shows, every move of a run
does. -/
theorem reached_move_shows {Shown : Type} (shown : JobWorld → Shown) (shownBy : Life → Shown)
    (agree : ∀ world phases, shownBy (lifeOf world phases) = shown world)
    (translates : Translates faultless condition permitted)
    (preserved : Preserved job faultless permitted invariant)
    (pollable : faultless = true → 0 < job.settings.buildPollInterval)
    (start : invariant (lifeOf { clock } startPhases))
    {moves : Shown → Shown → Prop} (same : ∀ view, moves view view)
    (steps : ∀ life event after, invariant life → permitted life event →
      LifeStep job.settings.hostDataDir.isSome faultless life event after →
      moves (shownBy life) (shownBy after))
    {next : JobConfiguration}
    (reaches : Reaches ((jobSurroundings .persistent).restrict condition) (job.start clock)
      reached)
    (move : Move ((jobSurroundings .persistent).restrict condition) reached next) :
    moves (shown reached.world) (shown next.world) := by
  refine reached_move_relates (fun world after => moves (shown world) (shown after))
    (life_upholds translates preserved) ?_ ?_ startPhases
    ⟨start_recorded clock, start⟩ (start_keeps job clock faultless pollable)
    reaches move
  · intro world phases party request reply after holds admitted step
    obtain ⟨phase, event, follows, recorded, concerns, lives⟩ :=
      step_matched translates party request reply holds.1 admitted step.1 step.2
    rw [← agree world phases, ← agree after]
    exact steps _ event _ holds.2
      (translates.events world phases party request reply event step.2 concerns) lives
  · intro world phases after holds drifts
    rw [← agree world phases, ← agree after phases]
    obtain ⟨recorded, unchanged | lives⟩ :=
      drift_life job faultless drifts holds.1
    · rw [unchanged]
      exact same _
    · exact steps _ _ _ holds.2 (translates.forget _) lives

end Runs

end PretextBuildServer.LifeCycleRefinement
