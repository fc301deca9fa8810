import PretextBuildServer.LifeCycleRefinement

/-!
# What holds of every life

Two invariants that no order of events breaks: the worker's looks and its report
are recorded as they happen, and nobody gets hold of the RQ job before it is on
its queue, nor without having set the flag.
-/

namespace PretextBuildServer.SoundLives

open EffectProgram EffectProgram.Program InterleavedParties
open PretextBuildServer.ServerSettings PretextBuildServer.JobRecord PretextBuildServer.JobCalls
open PretextBuildServer.JobSystem PretextBuildServer.WorkerProtocol PretextBuildServer.WorkerRun
open PretextBuildServer.RequestProtocols PretextBuildServer.LifeCycle
open PretextBuildServer.LifeCycleRefinement

set_option autoImplicit false

def CancelPhase.hasFlagged : CancelPhase → Bool
  | .start | .loaded _ => false
  | .flagged _ | .fetched | .won | .ended => true

def CancelPhase.reachedRq : CancelPhase → Bool
  | .fetched | .won => true
  | _ => false

/-- What holds of the worker's side of every life, in any order of events. -/
structure WorkerSound (host : Bool) (life : Life) : Prop where
  taken : life.taken = true ↔ life.worker.stage ≠ .waiting
  looked : life.worker.stage = .looked → life.preRunRead = some life.worker.seen
  running : life.worker.stage = .running → life.preRunRead = some false
  settled : ∀ status, life.worker.stage = .settled status → host = true →
    life.preRunRead = some false ∨ life.preRunRead = some true ∧ status = .cancelled
  seen : life.worker.seen = true → life.flagged = true
  flagSeen : life.flagSeen = true → life.worker.seen = true
  unseen : life.worker.stage = .waiting ∨ life.worker.stage = .taken → life.worker.seen = false
  reads : life.callbackReads = [] ↔ life.worker.reported = false
  unreported : life.worker.stage = .waiting → life.worker.reported = false

/-- What holds of the endpoints' side: before the job is on its queue nobody has
got hold of it, and the flag is set before RQ is asked. -/
structure EndpointsSound (life : Life) : Prop where
  absent : life.submission = .fresh ↔ life.status = none
  unknown : life.submission ≠ .enqueued → life.rq = .unknown
  waiting : life.submission ≠ .enqueued → life.worker.stage = .waiting
  unreached : life.submission ≠ .enqueued →
    ∀ index, CancelPhase.reachedRq (life.cancels index) = false
  flags : ∀ index, CancelPhase.hasFlagged (life.cancels index) = true → life.flagged = true

variable {host faultless : Bool} {life after : Life} {event : Event}

theorem start_worker_sound (clock : Nat) : WorkerSound host (lifeOf { clock } startPhases) := by
  constructor <;> simp [lifeOf, startPhases]

theorem start_endpoints_sound (clock : Nat) : EndpointsSound (lifeOf { clock } startPhases) := by
  constructor <;> simp [lifeOf, startPhases, JobWorld.status, CancelPhase.hasFlagged,
    CancelPhase.reachedRq]

theorem worker_sound_preserved (sound : WorkerSound host life)
    (step : LifeStep host faultless life event after) : WorkerSound host after := by
  obtain ⟨taken, looked, running, settled, seen, flagSeen, unseen, reads, unreported⟩ := sound
  cases step with
  | quiet | create _ | store _ | enqueue _ | finish _ _ | load _ _ | fetch _ _ _ | miss _ _ _
  | win _ _ _ | lose _ _ _ | cancel _ _ | forget _ =>
      exact ⟨taken, looked, running, settled, seen, flagSeen, unseen, reads, unreported⟩
  | flag index status loaded unfinished =>
      exact ⟨taken, looked, running, settled, fun _ => rfl, flagSeen, unseen, reads, unreported⟩
  | take waiting queued =>
      refine ⟨iff_of_true rfl (by simp), (by simp), (by simp), (by simp), seen, flagSeen, fun _ => ?_, reads,
        (by simp)⟩
      exact unseen (.inl waiting)
  | look set atTaken =>
      have notSeen := unseen (.inr atTaken)
      refine ⟨iff_of_true (taken.mpr (by simp [atTaken])) (by simp), fun _ => rfl, (by simp), (by simp), id,
        ?_, (by simp), reads, (by simp)⟩
      simp only [Life.setStage, Life.seeFlag]
      grind
  | poll atRunning notSeen =>
      refine ⟨taken, ?_, running, settled, id, ?_, ?_, reads, unreported⟩
      · simp [Life.seeFlag, atRunning]
      · simp only [Life.seeFlag]
        grind
      · simp [Life.seeFlag, atRunning]
  | begin pending atLooked notSeen =>
      refine ⟨iff_of_true (taken.mpr (by simp [atLooked])) (by simp), (by simp), fun _ => ?_, (by simp), seen,
        flagSeen, (by simp), reads, (by simp)⟩
      exact (looked atLooked).trans (by rw [notSeen])
  | settle status pending legal =>
      have begun : life.worker.stage ≠ .waiting := by
        intro waiting
        simp [settles, waiting] at legal
      refine ⟨iff_of_true (taken.mpr begun) (by simp), (by simp), (by simp), ?_, seen, flagSeen, (by simp), reads,
        (by simp)⟩
      rintro _ ⟨⟩ set
      unfold settles at legal
      cases stage : life.worker.stage with
      | waiting | settled _ => simp [stage] at legal
      | taken => simp [stage, set] at legal
      | looked =>
          simp only [stage] at legal
          exact .inr ⟨(looked stage).trans (by rw [legal.1]), legal.2⟩
      | running => exact .inl (running stage)
  | report pending begun =>
      exact ⟨taken, looked, running, settled, seen, flagSeen, unseen, by simp,
        fun waiting => absurd waiting begun⟩

theorem set_cancel_flags {index : Nat} {phase : CancelPhase} (sound : EndpointsSound life)
    (flagged : CancelPhase.hasFlagged phase = true → life.flagged = true) (other : Nat)
    (holds : CancelPhase.hasFlagged ((life.setCancel index phase).cancels other) = true) :
    life.flagged = true := by
  by_cases same : other = index
  · subst same
    exact flagged (by simpa [Life.setCancel] using holds)
  · exact sound.flags other (by simpa [Life.setCancel, same] using holds)

theorem set_cancel_unreached {index : Nat} {phase : CancelPhase} (sound : EndpointsSound life)
    (pending : life.submission ≠ .enqueued) (unreached : CancelPhase.reachedRq phase = false)
    (other : Nat) : CancelPhase.reachedRq ((life.setCancel index phase).cancels other) = false := by
  by_cases same : other = index
  · subst same
    simpa [Life.setCancel] using unreached
  · simpa [Life.setCancel, same] using sound.unreached pending other

theorem enqueued_of_reached (sound : EndpointsSound life) {index : Nat} {phase : CancelPhase}
    (at_phase : life.cancels index = phase) (reached : CancelPhase.reachedRq phase = true) :
    life.submission = .enqueued := by
  by_contra pending
  have never := sound.unreached pending index
  rw [at_phase, reached] at never
  cases never

theorem enqueued_of_begun (sound : EndpointsSound life) (begun : life.worker.stage ≠ .waiting) :
    life.submission = .enqueued := by
  by_contra pending
  exact begun (sound.waiting pending)

theorem endpoints_sound_preserved (sound : EndpointsSound life)
    (step : LifeStep host faultless life event after) : EndpointsSound after := by
  have held := sound
  obtain ⟨absent, unknown, waiting, unreached, flags⟩ := held
  cases step with
  | quiet => exact sound
  | create fresh =>
      have pending : life.submission ≠ .enqueued := by simp [fresh]
      exact ⟨by simp, fun _ => unknown pending, fun _ => waiting pending,
        fun _ => unreached pending, flags⟩
  | store created =>
      have pending : life.submission ≠ .enqueued := by simp [created]
      refine ⟨⟨(by simp), fun none => ?_⟩, fun _ => unknown pending, fun _ => waiting pending,
        fun _ => unreached pending, flags⟩
      rw [absent.mpr none] at created
      cases created
  | enqueue stored =>
      refine ⟨⟨(by simp), fun none => ?_⟩, (by simp), (by simp), (by simp), flags⟩
      rw [absent.mpr none] at stored
      cases stored
  | take atWaiting queued =>
      have enqueued : life.submission = .enqueued := by
        by_contra pending
        simp [unknown pending] at queued
      exact ⟨absent, absurd enqueued, absurd enqueued, unreached, flags⟩
  | look set taken =>
      have enqueued := enqueued_of_begun sound (by simp [taken])
      exact ⟨absent, unknown, absurd enqueued, unreached, flags⟩
  | poll running notSeen => exact ⟨absent, unknown, waiting, unreached, flags⟩
  | begin pending looked notSeen =>
      have enqueued := enqueued_of_begun sound (by simp [looked])
      exact ⟨iff_of_false (by simp [Life.setStage, enqueued]) (by simp), unknown, absurd enqueued,
        unreached, flags⟩
  | settle status pending legal =>
      have enqueued := enqueued_of_begun sound fun waiting => by simp [settles, waiting] at legal
      exact ⟨iff_of_false (by simp [Life.setStage, enqueued]) (by simp), unknown, absurd enqueued,
        unreached, flags⟩
  | report pending begun => exact ⟨absent, unknown, waiting, unreached, flags⟩
  | finish reported begun =>
      have enqueued := enqueued_of_begun sound begun
      exact ⟨absent, absurd enqueued, waiting, unreached, flags⟩
  | load index start =>
      exact ⟨absent, unknown, waiting, fun pending => set_cancel_unreached sound pending rfl,
        set_cancel_flags sound fun flagged => by cases flagged⟩
  | flag index status loaded unfinished =>
      exact ⟨absent, unknown, waiting, fun pending => set_cancel_unreached sound pending rfl,
        fun _ _ => rfl⟩
  | fetch index flagged known =>
      have enqueued : life.submission = .enqueued := by
        by_contra pending
        exact known (unknown pending)
      exact ⟨absent, unknown, waiting, absurd enqueued,
        set_cancel_flags sound fun _ => flags index (by simp [flagged, CancelPhase.hasFlagged])⟩
  | miss index flagged never =>
      exact ⟨absent, unknown, waiting, fun pending => set_cancel_unreached sound pending rfl,
        set_cancel_flags sound fun _ => flags index (by simp [flagged, CancelPhase.hasFlagged])⟩
  | win index fetched live =>
      have enqueued := enqueued_of_reached sound fetched rfl
      exact ⟨absent, absurd enqueued, waiting, absurd enqueued,
        set_cancel_flags sound fun _ => flags index (by simp [fetched, CancelPhase.hasFlagged])⟩
  | lose index fetched canceled =>
      have enqueued := enqueued_of_reached sound fetched rfl
      exact ⟨absent, unknown, waiting, absurd enqueued,
        set_cancel_flags sound fun _ => flags index (by simp [fetched, CancelPhase.hasFlagged])⟩
  | cancel index won =>
      have enqueued := enqueued_of_reached sound won rfl
      exact ⟨iff_of_false (by simp [Life.setCancel, enqueued]) (by simp), unknown, waiting,
        absurd enqueued,
        set_cancel_flags sound fun _ => flags index (by simp [won, CancelPhase.hasFlagged])⟩
  | forget past =>
      exact ⟨absent, fun _ => rfl, waiting, unreached, flags⟩

end PretextBuildServer.SoundLives
