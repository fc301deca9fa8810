import PretextBuildServer.SoundLives

/-!
# One callback, with the final status

Only the worker's run calls `send_callback`. That accounts for every job as long
as no cancel request takes the job off its queue, and none writes `cancelled`
over another status after the callback has read it.
-/

namespace PretextBuildServer.CallbackAccounting

open EffectProgram EffectProgram.Program InterleavedParties
open PretextBuildServer.ServerSettings PretextBuildServer.JobRecord PretextBuildServer.JobCalls
open PretextBuildServer.JobSystem PretextBuildServer.WorkerProtocol PretextBuildServer.WorkerRun
open PretextBuildServer.RequestProtocols PretextBuildServer.LifeCycle
open PretextBuildServer.LifeCycleRefinement PretextBuildServer.SoundLives

set_option autoImplicit false

/-- The two things a cancel request must not do behind the callback's back. -/
def LeavesToWorker (life : Life) : Event → Prop
  | .win _ => life.rq ≠ .queued
  | .cancel _ => life.callbackReads = [] ∨ life.status = some .cancelled
  | _ => True

def LeftToWorker (world : JobWorld) (_ : Party) (request : JobCall) (_ : JobReply request) : Prop :=
  match request with
  | .cancelJob => world.rq ≠ .queued
  | .hset fields => fields.status = some .cancelled →
      world.callbackReads = [] ∨ world.status = some .cancelled
  | _ => True

structure Accounted (host : Bool) (life : Life) : Prop where
  worker : WorkerSound host life
  endpoints : EndpointsSound life
  queued : life.worker.stage = .waiting → life.submission = .enqueued → life.rq = .queued
  won : life.worker.stage = .waiting → ∀ index, life.cancels index ≠ .won
  early : life.worker.stage = .waiting → life.status = none ∨ life.status = some .queued
  read : life.worker.reported = true → life.callbackReads = [life.status]

variable {host faultless : Bool} {life after : Life} {event : Event}

theorem start_accounted (host : Bool) (clock : Nat) :
    Accounted host (lifeOf { clock } startPhases) := by
  refine ⟨start_worker_sound clock, start_endpoints_sound clock, ?_, ?_, ?_, ?_⟩
  · simp [lifeOf, startPhases]
  · simp [lifeOf, startPhases]
  · simp [lifeOf, JobWorld.status]
  · simp [lifeOf, startPhases]

theorem set_cancel_not_won {index : Nat} {phase : CancelPhase}
    (won : life.worker.stage = .waiting → ∀ index, life.cancels index ≠ .won)
    (notWon : life.worker.stage = .waiting → phase ≠ .won)
    (waiting : (life.setCancel index phase).worker.stage = .waiting) (other : Nat) :
    (life.setCancel index phase).cancels other ≠ .won := by
  by_cases same : other = index
  · subst same
    simpa [Life.setCancel] using notWon waiting
  · simpa [Life.setCancel, same] using won waiting other

theorem accounted_preserved (accounted : Accounted host life)
    (left : LeavesToWorker life event) (step : LifeStep host faultless life event after) :
    Accounted host after := by
  have workerSound := worker_sound_preserved accounted.worker step
  have endpointsSound := endpoints_sound_preserved accounted.endpoints step
  have held := accounted
  obtain ⟨-, -, queued, won, early, read⟩ := held
  cases step with
  | quiet => exact accounted
  | create fresh =>
      have waiting := accounted.endpoints.waiting (by simp [fresh])
      have unreported := accounted.worker.unreported waiting
      exact ⟨workerSound, endpointsSound, fun _ => (by simp), won,
        fun _ => .inr rfl, fun reported => by simp [unreported] at reported⟩
  | store created =>
      exact ⟨workerSound, endpointsSound, fun _ => (by simp), won, early, read⟩
  | enqueue stored => exact ⟨workerSound, endpointsSound, fun _ _ => rfl, won, early, read⟩
  | take waiting onQueue =>
      exact ⟨workerSound, endpointsSound, (by simp), (by simp), (by simp), read⟩
  | look set taken => exact ⟨workerSound, endpointsSound, (by simp), (by simp), (by simp), read⟩
  | poll running unseen => exact ⟨workerSound, endpointsSound, queued, won, early, read⟩
  | begin unreported looked unseen =>
      exact ⟨workerSound, endpointsSound, (by simp), (by simp), (by simp),
        fun reported => by simp [Life.setStage, unreported] at reported⟩
  | settle status unreported legal =>
      exact ⟨workerSound, endpointsSound, (by simp), (by simp), (by simp),
        fun reported => by simp [Life.setStage, unreported] at reported⟩
  | report unreported begun =>
      have none := accounted.worker.reads.mpr unreported
      exact ⟨workerSound, endpointsSound, queued, won, early, fun _ => by simp [none]⟩
  | finish reported begun =>
      exact ⟨workerSound, endpointsSound, fun waiting => absurd waiting begun, won, early, read⟩
  | load index start =>
      exact ⟨workerSound, endpointsSound, queued, set_cancel_not_won won fun _ => (by simp), early, read⟩
  | flag index status loaded unfinished =>
      exact ⟨workerSound, endpointsSound, queued,
        fun waiting => set_cancel_not_won won (fun _ => CancelPhase.noConfusion) waiting, early,
        read⟩
  | fetch index flagged known =>
      exact ⟨workerSound, endpointsSound, queued, set_cancel_not_won won fun _ => (by simp), early, read⟩
  | miss index flagged unknown =>
      exact ⟨workerSound, endpointsSound, queued, set_cancel_not_won won fun _ => (by simp), early, read⟩
  | win index fetched live =>
      have enqueued := enqueued_of_reached accounted.endpoints fetched rfl
      have begun : life.worker.stage ≠ .waiting := fun waiting => left (queued waiting enqueued)
      exact ⟨workerSound, endpointsSound, fun waiting => absurd waiting begun,
        fun waiting => absurd waiting begun, early, read⟩
  | lose index fetched canceled =>
      exact ⟨workerSound, endpointsSound, queued, set_cancel_not_won won fun _ => (by simp), early, read⟩
  | cancel index isWon =>
      have begun : life.worker.stage ≠ .waiting := fun waiting => won waiting index isWon
      refine ⟨workerSound, endpointsSound, queued, set_cancel_not_won won fun _ => (by simp),
        fun waiting => absurd waiting begun, fun reported => ?_⟩
      rcases left with none | cancelled
      · have unreported : life.worker.reported = false := accounted.worker.reads.mp none
        simp [Life.setCancel, unreported] at reported
      · have same := read reported
        rw [cancelled] at same
        exact same
  | forget past =>
      refine ⟨workerSound, endpointsSound, fun waiting enqueued => ?_, won, early, read⟩
      rcases past with finished | canceled
      · simp [queued waiting enqueued] at finished
      · simp [queued waiting enqueued] at canceled

theorem accounted_lives (job : Job) :
    Preserved job false LeavesToWorker (Accounted job.settings.hostDataDir.isSome) :=
  fun _ _ _ accounted left step => accounted_preserved accounted left step

theorem left_translates : Translates false LeftToWorker LeavesToWorker where
  events world phases party request reply event left concerns := by
    cases event with
    | win index =>
        obtain ⟨-, rfl⟩ := concerns
        exact left
    | cancel index =>
        obtain ⟨-, fields, rfl, writes⟩ := concerns
        exact left writes
    | _ => trivial
  faults := nofun
  forget _ := trivial

/-- A status and the reads of it: nothing changes once there has been one. -/
def ReadOnce (before after : Option Status × List (Option Status)) : Prop :=
  before.2 ≠ [] → after = before

theorem accounted_read_once (accounted : Accounted host life) (left : LeavesToWorker life event)
    (step : LifeStep host faultless life event after) :
    ReadOnce (life.status, life.callbackReads) (after.status, after.callbackReads) := by
  intro read
  have reported : life.worker.reported = true := by
    by_contra unreported
    exact read (accounted.worker.reads.mpr (by simpa using unreported))
  cases step with
  | quiet | store _ | enqueue _ | take _ _ | look _ _ | poll _ _ | finish _ _ | load _ _
  | flag _ _ _ _ | fetch _ _ _ | miss _ _ _ | win _ _ _ | lose _ _ _ | forget _ => rfl
  | create fresh =>
      have waiting := accounted.endpoints.waiting (by simp [fresh])
      simp [accounted.worker.unreported waiting] at reported
  | begin unreported looked unseen => simp [unreported] at reported
  | settle status unreported legal => simp [unreported] at reported
  | report unreported begun => simp [unreported] at reported
  | cancel index won =>
      rcases left with none | cancelled
      · exact absurd none read
      · simp [cancelled, Life.setCancel]

/-- The status is terminal, the queue has no entry for the job, and no worker
run of it is under way. -/
def Finished (reached : JobConfiguration) : Prop :=
  reached.world.status.any Status.terminal = true ∧ reached.world.rq ≠ .queued ∧
    ((reached.rest .worker).ended = true ∨ reached.world.taken = false)

/-- One call of `send_callback`, which has read the status the record keeps. -/
def Reported (shared : Surroundings JobCall.Answer Raised JobWorld Party)
    (reached : JobConfiguration) : Prop :=
  reached.world.callbackReads = [reached.world.status] ∧
    ∀ later, Reaches shared reached later →
      later.world.callbackReads = reached.world.callbackReads ∧
        later.world.status = reached.world.status

theorem finished_job_is_reported (job : Job) (clock : Nat) (reached : JobConfiguration)
    (reaches : Reaches ((jobSurroundings .persistent).restrict LeftToWorker) (job.start clock)
      reached) (finished : Finished reached) :
    Reported ((jobSurroundings .persistent).restrict LeftToWorker) reached := by
  obtain ⟨phases, -, accounted, keeps⟩ := reached_life left_translates (accounted_lives job) nofun
    (start_accounted _ clock) reaches
  have reads : reached.world.callbackReads = [reached.world.status] := by
    obtain ⟨terminal, -, past | untaken⟩ := finished
    · obtain ⟨outcome, -, reported, -⟩ := guarantees_ended (keeps .worker) past
      exact accounted.read reported
    · have waiting : (lifeOf reached.world phases).worker.stage = .waiting := by
        by_contra begun
        have taken : reached.world.taken = true := accounted.worker.taken.mpr begun
        simp [untaken] at taken
      have early : reached.world.status = none ∨ reached.world.status = some .queued :=
        accounted.early waiting
      rcases early with none | queued
      · simp [none] at terminal
      · simp [queued, Status.terminal] at terminal
  refine ⟨reads, fun later further => ?_⟩
  have once : (later.world.status, later.world.callbackReads) =
      (reached.world.status, reached.world.callbackReads) := by
    induction further with
    | refl => rfl
    | tail before move same =>
        have moved := reached_move_shows (fun world => (world.status, world.callbackReads))
          (fun life => (life.status, life.callbackReads)) (fun _ _ => rfl) left_translates
          (accounted_lives job) nofun (start_accounted _ clock) (fun _ _ => rfl)
          (fun life event after accounted left step => accounted_read_once accounted left step)
          (reaches.trans before) move
        refine (moved ?_).trans same
        rw [congrArg Prod.snd same, reads]
        simp
  exact ⟨congrArg Prod.snd once, congrArg Prod.fst once⟩

/-- The turns that leave the job to the worker. -/
def workerTurn (world : JobWorld) (_ : Party) (request : JobCall) : Bool :=
  canTurn world request && match request with
    | .cancelJob => false
    | .hset fields => fields.status != some .cancelled
    | _ => true

theorem worker_turn_possible (world : JobWorld) (party : Party) (request : JobCall)
    (turn : workerTurn world party request = true) :
    (((jobSurroundings .persistent).restrict LeftToWorker).machine party).step world request
      (obliging .persistent world request).1 (obliging .persistent world request).2 := by
  unfold workerTurn at turn
  rw [Bool.and_eq_true] at turn
  refine ⟨obliging_step _ world request turn.1, ?_⟩
  cases request
  case cancelJob => cases turn.2
  case hset fields =>
      intro writes
      simp [writes] at turn
  all_goals trivial

/-- A job with a callback, run to its end. -/
theorem run_to_end_is_reported :
    Reported ((jobSurroundings .persistent).restrict LeftToWorker)
      (play (obliging .persistent) workerTurn
        (List.replicate 10 .submission ++ List.replicate 30 .worker) (announcedBuild.start 0)) :=
  finished_job_is_reported announcedBuild 0 _
    (play_reaches _ _ _ worker_turn_possible _ _)
    ⟨by decide +kernel, by decide +kernel, by decide +kernel⟩

/-- A job cancelled on its queue: the API settles it, no worker runs, and
nobody calls `send_callback`. -/
theorem queued_cancel_is_not_reported :
    ¬ ∀ (job : Job) (clock : Nat) (reached : JobConfiguration),
      job.request.callbackUrl.isSome = true →
      Reaches (jobSurroundings .persistent) (job.start clock) reached → Finished reached →
      Reported (jobSurroundings .persistent) reached := by
  intro always
  have possible : ∀ world (_ : Party) request, canTurn world request = true →
      jobStep .persistent world request (obliging .persistent world request).1
        (obliging .persistent world request).2 := fun world _ => obliging_step _ world
  let cancelled := play (obliging .persistent) (fun world _ => canTurn world)
    (List.replicate 10 .submission ++ List.replicate 6 (.cancel 0)) (announcedBuild.start 0)
  have run : Reaches (jobSurroundings .persistent) (announcedBuild.start 0) cancelled :=
    play_reaches _ _ _ possible _ _
  have finished : Finished cancelled :=
    ⟨by decide +kernel, by decide +kernel, .inr (by decide +kernel)⟩
  have silent : cancelled.world.callbackReads = [] := by decide +kernel
  have reads := (always announcedBuild 0 cancelled rfl run finished).1
  rw [silent] at reads
  cases reads

end PretextBuildServer.CallbackAccounting
