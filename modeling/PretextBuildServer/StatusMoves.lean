import PretextBuildServer.SoundLives

/-!
# Which way the status moves

As long as `Job.cancel` takes effect only before the worker has looked at the
cancel flag, every `cancelled` an endpoint writes is one the worker is bound to
come to as well, and the status moves as the statuses are meant to. Past that
point the API overwrites what the worker has settled.
-/

namespace PretextBuildServer.StatusMoves

open EffectProgram EffectProgram.Program InterleavedParties
open PretextBuildServer.ServerSettings PretextBuildServer.JobRecord PretextBuildServer.JobCalls
open PretextBuildServer.JobSystem PretextBuildServer.WorkerProtocol PretextBuildServer.WorkerRun
open PretextBuildServer.RequestProtocols PretextBuildServer.LifeCycle
open PretextBuildServer.LifeCycleRefinement PretextBuildServer.SoundLives

set_option autoImplicit false

inductive StatusMove : Option Status → Option Status → Prop where
  | stay (status : Option Status) : StatusMove status status
  | submit : StatusMove none (some .queued)
  | start : StatusMove (some .queued) (some .running)
  | cancelQueued : StatusMove (some .queued) (some .cancelled)
  | failQueued : StatusMove (some .queued) (some .failed)
  | finish (status : Status) (terminal : status.terminal = true) :
      StatusMove (some .running) (some status)

/-- The worker will settle the job as cancelled, if it settles it at all. -/
def Bound (host : Bool) (life : Life) : Prop :=
  life.flagged = true ∧
    match life.worker.stage with
    | .waiting => life.submission = .enqueued ∧ life.rq ≠ .queued
    | .taken => host = true
    | .looked => life.worker.seen = true
    | .running => False
    | .settled status => status = .cancelled

/-- `Job.cancel` takes effect only on a job no worker has taken, or whose worker
has yet to look at the flag or has found it set. -/
def CancelsInTime (host : Bool) (life : Life) : Event → Prop
  | .win _ => ¬ (life.taken = true ∧ (life.preRunRead = some false ∨ host = false))
  | _ => True

structure Orderly (host : Bool) (life : Life) : Prop where
  worker : WorkerSound host life
  endpoints : EndpointsSound life
  won : ∀ index, life.cancels index = .won → Bound host life
  early : life.submission ≠ .fresh →
    life.worker.stage = .waiting ∨ life.worker.stage = .taken ∨ life.worker.stage = .looked →
    life.status = some .queued ∨ life.status = some .cancelled ∧ Bound host life
  running : life.worker.stage = .running → life.status = some .running
  settled : ∀ status, life.worker.stage = .settled status →
    life.status = some status ∧ status.terminal = true
  finished : life.finished = life.status.any Status.terminal

variable {host faultless : Bool} {life after : Life} {event : Event}

theorem bound_off_queue (bound : Bound host life) {rq : RqState} (off : rq ≠ .queued) :
    Bound host { life with rq := rq } := by
  obtain ⟨flagged, certain⟩ := bound
  refine ⟨flagged, ?_⟩
  cases stage : life.worker.stage with
  | waiting =>
      simp only [stage] at certain ⊢
      exact ⟨certain.1, off⟩
  | running => simp [stage] at certain
  | taken | looked | settled _ => simpa only [stage] using certain

theorem bound_preserved (orderly : Orderly host life) (bound : Bound host life)
    (step : LifeStep host faultless life event after) : Bound host after := by
  have ⟨flagged, certain⟩ := bound
  cases step with
  | quiet => exact bound
  | create fresh =>
      have waiting := orderly.endpoints.waiting (by simp [fresh])
      simp [waiting, fresh] at certain
  | store created =>
      have waiting := orderly.endpoints.waiting (by simp [created])
      simp [waiting, created] at certain
  | enqueue stored =>
      have waiting := orderly.endpoints.waiting (by simp [stored])
      simp [waiting, stored] at certain
  | take waiting queued => simp [waiting, queued] at certain
  | look set taken => exact ⟨flagged, flagged⟩
  | poll running unseen => simp [running] at certain
  | begin unreported looked unseen => simp [looked, unseen] at certain
  | settle status unreported legal =>
      refine ⟨flagged, ?_⟩
      unfold settles at legal
      cases stage : life.worker.stage with
      | waiting | settled _ => simp [stage] at legal
      | taken =>
          simp only [stage] at legal certain
          rw [legal.1] at certain
          cases certain
      | looked => simp only [stage] at legal; exact legal.2
      | running => simp [stage] at certain
  | report unreported begun => exact ⟨flagged, certain⟩
  | finish reported begun => exact bound_off_queue bound nofun
  | load index start => exact bound
  | flag index status loaded unfinished => exact ⟨rfl, certain⟩
  | fetch index flagged known => exact bound
  | miss index flagged unknown => exact bound
  | win index fetched live => exact bound_off_queue bound nofun
  | lose index fetched canceled => exact bound
  | cancel index won => exact bound
  | forget past => exact bound_off_queue bound nofun

/-- What `Job.cancel` gets hold of in time, the worker will see the flag of. -/
theorem won_in_time (orderly : Orderly host life) {index : Nat}
    (fetched : life.cancels index = .fetched)
    (inTime : CancelsInTime host life (.win index)) :
    Bound host { life with rq := .canceled } := by
  refine ⟨orderly.endpoints.flags index (by simp [fetched, CancelPhase.hasFlagged]), ?_⟩
  have enqueued := enqueued_of_reached orderly.endpoints fetched rfl
  have late : life.worker.stage ≠ .waiting → life.preRunRead ≠ some false ∧ host = true := by
    intro begun
    have taken := orderly.worker.taken.mpr begun
    exact ⟨fun unseen => inTime ⟨taken, .inl unseen⟩, by
      simpa using fun unset => inTime ⟨taken, .inr unset⟩⟩
  cases stage : life.worker.stage with
  | waiting => exact ⟨enqueued, (by simp)⟩
  | taken => exact (late (by simp [stage])).2
  | looked => simpa [orderly.worker.looked stage] using (late (by simp [stage])).1
  | running => exact (late (by simp [stage])).1 (orderly.worker.running stage)
  | settled status =>
      obtain ⟨looked, set⟩ := late (by simp [stage])
      rcases orderly.worker.settled status stage set with unseen | ⟨-, cancelled⟩
      · exact absurd unseen looked
      · exact cancelled

theorem set_cancel_won {index : Nat} {phase : CancelPhase}
    (won : ∀ index, life.cancels index = .won → Bound host life) (notWon : phase ≠ .won)
    (other : Nat) (isWon : (life.setCancel index phase).cancels other = .won) :
    Bound host life := by
  by_cases same : other = index
  · subst same
    exact absurd (by simpa [Life.setCancel] using isWon) notWon
  · exact won other (by simpa [Life.setCancel, same] using isWon)

theorem bound_status (orderly : Orderly host life) (bound : Bound host life) :
    life.status = some .queued ∨ life.status = some .cancelled := by
  obtain ⟨-, certain⟩ := bound
  have early : life.submission ≠ .fresh → life.worker.stage = .waiting ∨
      life.worker.stage = .taken ∨ life.worker.stage = .looked →
      life.status = some .queued ∨ life.status = some .cancelled := fun created stage =>
    (orderly.early created stage).imp id And.left
  have created : life.worker.stage ≠ .waiting → life.submission ≠ .fresh := fun begun => by
    simp [enqueued_of_begun orderly.endpoints begun]
  cases stage : life.worker.stage with
  | waiting =>
      simp only [stage] at certain
      exact early (by simp [certain.1]) (.inl stage)
  | taken => exact early (created (by simp [stage])) (.inr (.inl stage))
  | looked => exact early (created (by simp [stage])) (.inr (.inr stage))
  | running => simp [stage] at certain
  | settled status =>
      simp only [stage] at certain
      subst certain
      exact .inr (orderly.settled _ stage).1

theorem orderly_preserved (orderly : Orderly host life) (inTime : CancelsInTime host life event)
    (step : LifeStep host faultless life event after) : Orderly host after := by
  have workerSound := worker_sound_preserved orderly.worker step
  have endpointsSound := endpoints_sound_preserved orderly.endpoints step
  have kept := fun bound => bound_preserved orderly bound step
  have held := orderly
  obtain ⟨-, -, won, early, running, settled, finished⟩ := held
  have wonStill := fun index isWon => kept (won index isWon)
  have earlyStill := fun created stage => (early created stage).imp id (And.imp id kept)
  cases step with
  | quiet => exact orderly
  | create fresh =>
      have waiting := orderly.endpoints.waiting (by simp [fresh])
      refine ⟨workerSound, endpointsSound, wonStill, fun _ _ => .inl rfl, ?_, ?_, ?_⟩
      · simp [waiting]
      · simp [waiting]
      · simp [finished, orderly.endpoints.absent.mp fresh, Status.terminal]
  | store created =>
      exact ⟨workerSound, endpointsSound, wonStill,
        fun _ stage => earlyStill (by simp [created]) stage, running, settled, finished⟩
  | enqueue stored =>
      exact ⟨workerSound, endpointsSound, wonStill,
        fun _ stage => earlyStill (by simp [stored]) stage, running, settled, finished⟩
  | take waiting queued =>
      exact ⟨workerSound, endpointsSound, wonStill,
        fun created _ => earlyStill created (.inl waiting), (by simp), (by simp), finished⟩
  | look set taken =>
      exact ⟨workerSound, endpointsSound, wonStill,
        fun created _ => earlyStill created (.inr (.inl taken)), (by simp), (by simp), finished⟩
  | poll atRunning notSeen =>
      refine ⟨workerSound, endpointsSound, wonStill, fun _ stage => ?_, running, settled, finished⟩
      simp [Life.seeFlag, atRunning] at stage
  | begin unreported looked unseen =>
      have created : life.submission ≠ .fresh := by
        simp [enqueued_of_begun orderly.endpoints (by simp [looked])]
      have queued : life.status = some .queued := by
        rcases early created (.inr (.inr looked)) with queued | ⟨-, -, certain⟩
        · exact queued
        · simp [looked, unseen] at certain
      refine ⟨workerSound, endpointsSound, wonStill, ?_, fun _ => rfl, (by simp), ?_⟩
      · simp [Life.setStage]
      · simp [Life.setStage, finished, queued, Status.terminal]
  | settle status unreported legal =>
      have terminal := settles_terminal legal
      refine ⟨workerSound, endpointsSound, wonStill, ?_, (by simp), ?_, ?_⟩
      · simp [Life.setStage]
      · rintro _ ⟨⟩
        exact ⟨rfl, terminal⟩
      · simp [terminal]
  | report unreported begun =>
      exact ⟨workerSound, endpointsSound, wonStill, earlyStill, running, settled, finished⟩
  | finish reported begun =>
      exact ⟨workerSound, endpointsSound, wonStill, earlyStill, running, settled, finished⟩
  | load index start =>
      exact ⟨workerSound, endpointsSound, set_cancel_won won (by simp), earlyStill,
        running, settled, finished⟩
  | flag index status loaded unfinished =>
      exact ⟨workerSound, endpointsSound,
        fun other isWon => kept (set_cancel_won won CancelPhase.noConfusion other isWon), earlyStill, running,
        settled, finished⟩
  | fetch index flagged known =>
      exact ⟨workerSound, endpointsSound, set_cancel_won won (by simp), earlyStill,
        running, settled, finished⟩
  | miss index flagged unknown =>
      exact ⟨workerSound, endpointsSound, set_cancel_won won (by simp), earlyStill,
        running, settled, finished⟩
  | win index fetched live =>
      have bound := won_in_time orderly fetched inTime
      exact ⟨workerSound, endpointsSound, fun _ _ => bound, earlyStill, running, settled, finished⟩
  | lose index fetched canceled =>
      exact ⟨workerSound, endpointsSound, set_cancel_won won (by simp), earlyStill,
        running, settled, finished⟩
  | cancel index isWon =>
      have bound := won index isWon
      have certain := bound.2
      refine ⟨workerSound, endpointsSound, set_cancel_won won (by simp),
        fun _ _ => .inr ⟨rfl, bound⟩, fun atRunning => ?_, fun status atSettled => ?_, rfl⟩
      · have stage : life.worker.stage = .running := atRunning
        simp [stage] at certain
      · have stage : life.worker.stage = .settled status := atSettled
        simp only [stage] at certain
        subst certain
        exact ⟨rfl, rfl⟩
  | forget past =>
      exact ⟨workerSound, endpointsSound, wonStill, earlyStill, running, settled, finished⟩

/-- Every event moves the status the way it is meant to go. -/
theorem orderly_status_move (orderly : Orderly host life)
    (step : LifeStep host faultless life event after) : StatusMove life.status after.status := by
  cases step with
  | quiet | store _ | enqueue _ | take _ _ | look _ _ | poll _ _ | report _ _ | finish _ _
  | load _ _ | flag _ _ _ _ | fetch _ _ _ | miss _ _ _ | win _ _ _ | lose _ _ _ | forget _ =>
      exact .stay _
  | create fresh =>
      rw [orderly.endpoints.absent.mp fresh]
      exact .submit
  | begin unreported looked unseen =>
      have enqueued := enqueued_of_begun orderly.endpoints (by simp [looked])
      rcases orderly.early (by simp [enqueued]) (.inr (.inr looked)) with queued | ⟨-, -, certain⟩
      · rw [queued]
        exact .start
      · simp [looked, unseen] at certain
  | settle status unreported legal =>
      have begun : life.worker.stage ≠ .waiting := fun waiting => by
        simp [settles, waiting] at legal
      have created : life.submission ≠ .fresh := by
        simp [enqueued_of_begun orderly.endpoints begun]
      unfold settles at legal
      cases stage : life.worker.stage with
      | waiting | settled _ => simp [stage] at legal
      | taken =>
          simp only [stage] at legal
          obtain ⟨unset, rfl⟩ := legal
          rcases orderly.early created (.inr (.inl stage)) with queued | ⟨-, -, certain⟩
          · rw [queued]
            exact .failQueued
          · simp [stage, unset] at certain
      | looked =>
          simp only [stage] at legal
          obtain ⟨-, rfl⟩ := legal
          rcases orderly.early created (.inr (.inr stage)) with queued | ⟨cancelled, -⟩
          · rw [queued]
            exact .cancelQueued
          · rw [cancelled]
            exact .stay _
      | running =>
          rw [orderly.running stage]
          refine .finish status ?_
          simp only [stage] at legal
          split at legal
          · rcases legal with rfl | ⟨-, rfl⟩ <;> rfl
          · rcases legal with rfl | rfl <;> rfl
  | cancel index won =>
      rcases bound_status orderly (orderly.won index won) with queued | cancelled
      · rw [queued]
        exact .cancelQueued
      · rw [cancelled]
        exact .stay _

theorem terminal_stays {before after : Option Status} (move : StatusMove before after)
    (terminal : before.any Status.terminal = true) : after = before := by
  cases move with
  | stay => rfl
  | submit | start | cancelQueued | failQueued | finish _ _ => cases terminal

def CancelledInTime (job : Job) (world : JobWorld) (_ : Party) (request : JobCall)
    (_ : JobReply request) : Prop :=
  request = .cancelJob → world.rq ≠ .canceled →
    ¬ (world.taken = true ∧ (world.preRunRead = some false ∨ job.settings.hostDataDir = none))

theorem in_time_translates (job : Job) :
    Translates false (CancelledInTime job)
      fun life event => life.rq ≠ .canceled → CancelsInTime job.settings.hostDataDir.isSome life event where
  events world phases party request reply event inTime concerns := by
    cases event with
    | win index => simpa [CancelsInTime, lifeOf] using inTime concerns.2
    | _ => exact fun _ => trivial
  faults := nofun
  forget _ _ := trivial

theorem start_orderly (host : Bool) (clock : Nat) :
    Orderly host (lifeOf { clock } startPhases) := by
  refine ⟨start_worker_sound clock, start_endpoints_sound clock, ?_, ?_, ?_, ?_, ?_⟩
  · simp [lifeOf, startPhases]
  · simp [lifeOf, startPhases]
  · simp [lifeOf, startPhases]
  · simp [lifeOf, startPhases]
  · simp [lifeOf, JobWorld.status, JobWorld.finished]

theorem orderly_lives (job : Job) :
    Preserved job false
      (fun life event => life.rq ≠ .canceled → CancelsInTime job.settings.hostDataDir.isSome life event)
      (Orderly job.settings.hostDataDir.isSome) := by
  intro life event after orderly permitted step
  refine orderly_preserved orderly ?_ step
  cases step with
  | win index fetched live => exact permitted live
  | _ => trivial

/-- The status moves as it is meant to, `finished_at` is there exactly when it
is terminal, and a terminal status is final. -/
def MovesForward (shared : Surroundings JobCall.Answer Raised JobWorld Party)
    (reached : JobConfiguration) : Prop :=
  reached.world.finished = reached.world.status.any Status.terminal ∧
    (∀ next, Move shared reached next → StatusMove reached.world.status next.world.status) ∧
    ∀ later, Reaches shared reached later →
      reached.world.status.any Status.terminal = true → later.world.status = reached.world.status

/-- In every run in which no `Job.cancel` takes effect too late, whatever the
interleaving. -/
theorem status_moves_forward (job : Job) (clock : Nat) (reached : JobConfiguration)
    (reaches : Reaches ((jobSurroundings .persistent).restrict (CancelledInTime job))
      (job.start clock) reached) :
    MovesForward ((jobSurroundings .persistent).restrict (CancelledInTime job)) reached := by
  have moves : ∀ {between next : JobConfiguration},
      Reaches ((jobSurroundings .persistent).restrict (CancelledInTime job)) (job.start clock)
        between →
      Move ((jobSurroundings .persistent).restrict (CancelledInTime job)) between next →
      StatusMove between.world.status next.world.status := fun reaches move =>
    reached_move_shows JobWorld.status Life.status (fun _ _ => rfl) (in_time_translates job) (orderly_lives job) nofun
      (start_orderly _ clock) .stay
      (fun life event after orderly permitted step => orderly_status_move orderly step) reaches move
  refine ⟨?_, fun next => moves reaches, fun later further terminal => ?_⟩
  · obtain ⟨phases, -, orderly, -⟩ := reached_life (in_time_translates job) (orderly_lives job)
      nofun (start_orderly _ clock) reaches
    exact orderly.finished
  · induction further with
    | refl => rfl
    | tail before move same =>
        have stays := terminal_stays (moves (reaches.trans before) move)
        rw [same] at stays
        exact stays terminal

/-- The turns in which `Job.cancel` is not too late for a job whose server has a
host directory. -/
def inTimeTurn (world : JobWorld) (_ : Party) (request : JobCall) : Bool :=
  canTurn world request && match request with
    | .cancelJob => !(world.taken && world.preRunRead == some false)
    | _ => true

theorem in_time_turn_possible (world : JobWorld) (party : Party) (request : JobCall)
    (turn : inTimeTurn world party request = true) :
    (((jobSurroundings .persistent).restrict (CancelledInTime plainBuild)).machine party).step world
      request (obliging .persistent world request).1 (obliging .persistent world request).2 := by
  unfold inTimeTurn at turn
  rw [Bool.and_eq_true] at turn
  refine ⟨obliging_step _ world request turn.1, ?_⟩
  rintro rfl -
  have inTime : world.taken = true → ¬ world.preRunRead = some false := by
    simpa [← Bool.not_eq_true, ← imp_iff_not_or] using turn.2
  rintro ⟨taken, unseen | unset⟩
  · exact inTime taken unseen
  · cases unset

/-- A submission, and a cancel request that takes the job off the queue. -/
theorem cancelled_in_queue_moves_forward :
    MovesForward ((jobSurroundings .persistent).restrict (CancelledInTime plainBuild))
      (play (obliging .persistent) inTimeTurn
        (List.replicate 8 .submission ++ List.replicate 6 (.cancel 0)) (plainBuild.start 0)) :=
  status_moves_forward plainBuild 0 _
    (play_reaches _ _ _ in_time_turn_possible _ (plainBuild.start 0))

/-- The request has read `queued` when the worker takes the job and runs it to
`success`; its `Job.cancel` then succeeds, and `success` becomes `cancelled`. -/
theorem late_cancel_overwrites_success :
    ¬ ∀ (job : Job) (clock : Nat) (reached : JobConfiguration),
      Reaches (jobSurroundings .persistent) (job.start clock) reached →
      MovesForward (jobSurroundings .persistent) reached := by
  intro always
  have possible : ∀ world (_ : Party) request, canTurn world request = true →
      jobStep .persistent world request (obliging .persistent world request).1
        (obliging .persistent world request).2 := fun world _ => obliging_step _ world
  let succeeded := play (obliging .persistent) (fun world _ => canTurn world)
    (List.replicate 8 .submission ++ [.cancel 0] ++ List.replicate 15 .worker) (plainBuild.start 0)
  let overwritten := play (obliging .persistent) (fun world _ => canTurn world)
    (List.replicate 5 (.cancel 0)) succeeded
  have run : Reaches (jobSurroundings .persistent) (plainBuild.start 0) succeeded :=
    play_reaches _ _ _ possible _ _
  have further : Reaches (jobSurroundings .persistent) succeeded overwritten :=
    play_reaches _ _ _ possible _ _
  have before : succeeded.world.status = some .success := by decide +kernel
  have after : overwritten.world.status = some .cancelled := by decide +kernel
  have same := (always plainBuild 0 succeeded run).2.2 overwritten further (by rw [before]; rfl)
  rw [before, after] at same
  cases same

end PretextBuildServer.StatusMoves
