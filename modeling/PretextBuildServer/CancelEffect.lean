import PretextBuildServer.SoundLives

/-!
# When an acknowledged cancel takes effect

The worker looks at the cancel flag before its run and after every wait that
times out before the overall timeout. A cancel request that is answered before
one of these looks decides the job; one that is answered after the last of them
does not.
-/

namespace PretextBuildServer.CancelEffect

open EffectProgram EffectProgram.Program InterleavedParties
open PretextBuildServer.ServerSettings PretextBuildServer.JobRecord PretextBuildServer.JobCalls
open PretextBuildServer.ApiEndpoints PretextBuildServer.JobSystem
open PretextBuildServer.WorkerProtocol PretextBuildServer.WorkerRun
open PretextBuildServer.RequestProtocols PretextBuildServer.LifeCycle
open PretextBuildServer.LifeCycleRefinement PretextBuildServer.SoundLives

set_option autoImplicit false

/-- No call of the worker fails but a wait that times out, and what lies behind
the callback. -/
def WorksFaultlessly (_ : JobWorld) (party : Party) (request : JobCall)
    (reply : JobReply request) : Prop :=
  party = .worker → Faultless request reply

theorem faultless_translates : Translates true WorksFaultlessly fun _ _ => True where
  events _ _ _ _ _ _ _ _ := trivial
  faults _ _ _ _ works := works rfl
  forget _ := trivial

structure Decided (life : Life) : Prop where
  worker : WorkerSound true life
  endpoints : EndpointsSound life
  settled : ∀ status, life.worker.stage = .settled status →
    (life.worker.seen = true → status = .cancelled) ∧
      (life.status = some status ∨ life.status = some .cancelled)
  dequeued : life.worker.stage = .waiting → life.submission = .enqueued → life.rq ≠ .queued →
    life.status = some .cancelled ∨ ∃ index, life.cancels index = .won

/-- The flag is set in time for the look before the run, or has been seen. -/
def InSight (life : Life) : Prop :=
  life.preRunRead = none ∧ life.flagged = true ∨ life.flagSeen = true

variable {life after : Life} {event : Event}

theorem start_decided (clock : Nat) : Decided (lifeOf { clock } startPhases) := by
  refine ⟨start_worker_sound clock, start_endpoints_sound clock, ?_, ?_⟩
  · simp [lifeOf, startPhases]
  · simp [lifeOf, startPhases]

theorem set_cancel_winner {index : Nat} {phase : CancelPhase}
    (notWon : life.cancels index ≠ .won)
    (winner : life.status = some .cancelled ∨ ∃ index, life.cancels index = .won) :
    life.status = some .cancelled ∨ ∃ other, (life.setCancel index phase).cancels other = .won := by
  rcases winner with cancelled | ⟨other, won⟩
  · exact .inl cancelled
  · refine .inr ⟨other, ?_⟩
    have different : other ≠ index := by
      rintro rfl
      exact notWon won
    simpa [Life.setCancel, different] using won

theorem decided_preserved (decided : Decided life)
    (step : LifeStep true true life event after) : Decided after := by
  have workerSound := worker_sound_preserved decided.worker step
  have endpointsSound := endpoints_sound_preserved decided.endpoints step
  have held := decided
  obtain ⟨-, -, settled, dequeued⟩ := held
  cases step with
  | quiet => exact decided
  | create fresh =>
      have waiting := decided.endpoints.waiting (by simp [fresh])
      refine ⟨workerSound, endpointsSound, ?_, fun _ => (by simp)⟩
      simp [waiting]
  | store created => exact ⟨workerSound, endpointsSound, settled, fun _ => (by simp)⟩
  | enqueue stored => exact ⟨workerSound, endpointsSound, settled, fun _ _ off => absurd rfl off⟩
  | take waiting queued => exact ⟨workerSound, endpointsSound, (by simp), (by simp)⟩
  | look set taken => exact ⟨workerSound, endpointsSound, (by simp), (by simp)⟩
  | poll running unseen =>
      refine ⟨workerSound, endpointsSound, ?_, ?_⟩
      · simp [Life.seeFlag, running]
      · simp [Life.seeFlag, running]
  | begin unreported looked unseen => exact ⟨workerSound, endpointsSound, (by simp), (by simp)⟩
  | settle status unreported legal =>
      refine ⟨workerSound, endpointsSound, ?_, (by simp)⟩
      rintro _ ⟨⟩
      refine ⟨fun seen => ?_, .inl rfl⟩
      have seenBefore : life.worker.seen = true := seen
      unfold settles at legal
      cases stage : life.worker.stage with
      | waiting | settled _ => simp [stage] at legal
      | taken => simp [stage] at legal
      | looked =>
          simp only [stage] at legal
          exact legal.2
      | running => simpa [stage, seenBefore] using legal
  | report unreported begun => exact ⟨workerSound, endpointsSound, settled, dequeued⟩
  | finish reported begun =>
      exact ⟨workerSound, endpointsSound, settled, fun waiting => absurd waiting begun⟩
  | load index start =>
      exact ⟨workerSound, endpointsSound, settled, fun waiting enqueued off =>
        set_cancel_winner (by simp [start]) (dequeued waiting enqueued off)⟩
  | flag index status loaded unfinished =>
      exact ⟨workerSound, endpointsSound, settled, fun waiting enqueued off =>
        set_cancel_winner (by simp [loaded]) (dequeued waiting enqueued off)⟩
  | fetch index flagged known =>
      exact ⟨workerSound, endpointsSound, settled, fun waiting enqueued off =>
        set_cancel_winner (by simp [flagged]) (dequeued waiting enqueued off)⟩
  | miss index flagged unknown =>
      exact ⟨workerSound, endpointsSound, settled, fun waiting enqueued off =>
        set_cancel_winner (by simp [flagged]) (dequeued waiting enqueued off)⟩
  | win index fetched live =>
      exact ⟨workerSound, endpointsSound, settled, fun _ _ _ =>
        .inr ⟨index, by simp [Life.setCancel]⟩⟩
  | lose index fetched canceled =>
      exact ⟨workerSound, endpointsSound, settled, fun waiting enqueued off =>
        set_cancel_winner (by simp [fetched]) (dequeued waiting enqueued off)⟩
  | cancel index won =>
      exact ⟨workerSound, endpointsSound,
        fun status stage => ⟨(settled status stage).1, .inr rfl⟩, fun _ _ _ => .inl rfl⟩
  | forget past =>
      refine ⟨workerSound, endpointsSound, settled, fun waiting enqueued _ => ?_⟩
      refine dequeued waiting enqueued ?_
      rcases past with finished | canceled
      · simp [finished]
      · simp [canceled]

theorem in_sight_preserved (inSight : InSight life) (step : LifeStep true true life event after) :
    InSight after := by
  cases step with
  | quiet | create _ | store _ | enqueue _ | take _ _ | begin _ _ _ | settle _ _ _ | report _ _
  | finish _ _ | load _ _ | fetch _ _ _ | miss _ _ _ | win _ _ _ | lose _ _ _ | cancel _ _
  | forget _ => exact inSight
  | look set taken =>
      refine .inr ?_
      rcases inSight with ⟨-, flagged⟩ | seen
      · simp [Life.setStage, Life.seeFlag, flagged]
      · simp [Life.setStage, Life.seeFlag, seen]
  | poll running unseen =>
      refine inSight.imp id fun seen => ?_
      simp [Life.seeFlag, seen]
  | flag index status loaded unfinished => exact inSight.imp (And.imp id fun _ => rfl) id

/-- Nobody has anything left to do with the job: its submission has ended, its
run has ended or will never begin, and every cancel request is over or has not
come in. -/
def Over (job : Job) (reached : JobConfiguration) : Prop :=
  (reached.rest .submission).ended = true ∧
    ((reached.rest .worker).ended = true ∨
      reached.world.taken = false ∧ reached.world.rq ≠ .queued) ∧
    ∀ index, (reached.rest (.cancel index)).ended = true ∨
      reached.rest (.cancel index) = job.program (.cancel index)

theorem over_not_won {job : Job} {reached : JobConfiguration}
    {phases : (party : Party) → Phase party} (past : Over job reached)
    (keeps : Keeps (jobProtocol job true) (JobEnded true) phases reached) (index : Nat) :
    (lifeOf reached.world phases).cancels index ≠ .won := by
  have owed := keeps (.cancel index)
  rcases past.2.2 index with ended | untouched
  · obtain ⟨outcome, -, done⟩ := guarantees_ended owed ended
    intro won
    have atWon : phases (.cancel index) = .won := won
    rcases outcome with raised | answer
    · obtain ⟨found, loaded⟩ := done
      simp [atWon] at loaded
    · rcases done with atOver | atFlagged
      · simp [atWon] at atOver
      · simp [atWon] at atFlagged
  · rw [untouched] at owed
    have start : phases (.cancel index) = .start := owed.1
    simp [lifeOf, start]

theorem over_in_sight_cancelled {job : Job} {reached : JobConfiguration}
    {phases : (party : Party) → Phase party} (past : Over job reached)
    (keeps : Keeps (jobProtocol job true) (JobEnded true) phases reached)
    (recorded : Recorded reached.world phases) (decided : Decided (lifeOf reached.world phases))
    (inSight : InSight (lifeOf reached.world phases)) :
    reached.world.status = some .cancelled := by
  rcases past.2.1 with ended | ⟨untaken, off⟩
  · obtain ⟨outcome, -, -, -, settles⟩ := guarantees_ended (keeps .worker) ended
    obtain ⟨status, settled⟩ := settles rfl
    have ⟨seen, shows⟩ := decided.settled status settled
    have looked : (lifeOf reached.world phases).worker.seen = true := by
      rcases inSight with ⟨unread, -⟩ | flagSeen
      · rcases decided.worker.settled status settled rfl with read | ⟨read, -⟩
        · rw [unread] at read
          cases read
        · rw [unread] at read
          cases read
      · exact decided.worker.flagSeen flagSeen
    rw [seen looked] at shows
    exact shows.elim id id
  · have waiting : (lifeOf reached.world phases).worker.stage = .waiting := by
      by_contra begun
      have taken : reached.world.taken = true := decided.worker.taken.mpr begun
      simp [untaken] at taken
    have flagged : (lifeOf reached.world phases).flagged = true := by
      rcases inSight with ⟨-, flagged⟩ | flagSeen
      · exact flagged
      · exact decided.worker.seen (decided.worker.flagSeen flagSeen)
    have enqueued : (lifeOf reached.world phases).submission = .enqueued := by
      obtain ⟨raised | answer, -, submitted⟩ := guarantees_ended (keeps .submission) past.1
      · have unrecorded : reached.world.status = none := decided.endpoints.absent.mp submitted
        have shows := flagged_shows recorded flagged
        rw [unrecorded] at shows
        cases shows
      · exact submitted
    rcases decided.dequeued waiting enqueued off with cancelled | ⟨index, won⟩
    · exact cancelled
    · exact absurd won (over_not_won past keeps index)

theorem in_sight_lives {job : Job} (host : job.settings.hostDataDir.isSome = true) :
    Preserved job true (fun _ _ => True) fun life => Decided life ∧ InSight life := by
  intro life event after holds _ step
  rw [host] at step
  exact ⟨decided_preserved holds.1 step, in_sight_preserved holds.2 step⟩

theorem flagged_lives {job : Job} (host : job.settings.hostDataDir.isSome = true) :
    Preserved job true (fun _ _ => True) fun life => Decided life ∧ life.flagged = true := by
  intro life event after holds _ step
  rw [host] at step
  refine ⟨decided_preserved holds.1 step, ?_⟩
  cases step with
  | flag => rfl
  | _ => exact holds.2

/-- The worker reads the record to see whether a cancel has been requested. -/
inductive Looks : JobConfiguration → JobConfiguration → Prop where
  | read (before : JobConfiguration) (reader : Reader) (forFlag : reader = .preRun ∨ reader = .poll)
      (next : JobReply (.hgetall reader) → JobProgram Unit) (reply : JobReply (.hgetall reader))
      (after : JobWorld) (waiting : before.rest .worker = .call (.hgetall reader) next)
      (step : jobStep .persistent before.world (.hgetall reader) reply after) :
      Looks before ⟨after, Function.update before.rest .worker (next reply)⟩

theorem look_reaches {before after : JobConfiguration} (looks : Looks before after) :
    Reaches ((jobSurroundings .persistent).restrict WorksFaultlessly) before after := by
  cases looks with
  | read reader forFlag next reply world waiting step =>
      refine act_reaches _ before .worker reply world waiting ⟨step, fun _ => ?_⟩
      obtain ⟨rfl, -⟩ := step
      trivial

theorem look_sees {before after : JobConfiguration} (looks : Looks before after)
    (flagged : before.world.flagged = true) : after.world.flagSeen = true := by
  cases looks with
  | read reader forFlag next reply world waiting step =>
      obtain ⟨-, rfl⟩ := step
      rcases forFlag with rfl | rfl
      · simp [JobWorld.noteRead, flagged]
      · simp [JobWorld.noteRead, flagged]

/-- A cancel request has been answered with 200. If the worker's look before the
run is still to come then, if a look has found the flag by then, or if the worker
looks after that, the job ends cancelled. -/
theorem noticed_cancel_takes_effect (job : Job) (clock : Nat) (moment final : JobConfiguration)
    (host : job.settings.hostDataDir.isSome = true) (pollable : 0 < job.settings.buildPollInterval)
    (reaches : Reaches ((jobSurroundings .persistent).restrict WorksFaultlessly) (job.start clock)
      moment)
    (further : Reaches ((jobSurroundings .persistent).restrict WorksFaultlessly) moment final)
    (index : Nat) (answer : CancelAnswer)
    (answered : moment.rest (.cancel index) = .done (.ok answer)) (past : Over job final)
    (noticed : moment.world.preRunRead = none ∨ moment.world.flagSeen = true ∨
      ∃ before after,
        Reaches ((jobSurroundings .persistent).restrict WorksFaultlessly) moment before ∧
        Looks before after ∧
        Reaches ((jobSurroundings .persistent).restrict WorksFaultlessly) after final) :
    final.world.status = some .cancelled := by
  have decidedLives : Preserved job true (fun _ _ => True) Decided := by
    intro life event after decided _ step
    rw [host] at step
    exact decided_preserved decided step
  obtain ⟨phases, recorded, decided, keeps⟩ := reached_life faultless_translates decidedLives
    (fun _ => pollable) (start_decided clock) reaches
  have flagged : (lifeOf moment.world phases).flagged = true := by
    refine decided.endpoints.flags index ?_
    have done := keeps (.cancel index)
    rw [answered] at done
    rcases done with atOver | atFlagged
    · simp [lifeOf, atOver, CancelPhase.hasFlagged]
    · simp [lifeOf, atFlagged, CancelPhase.hasFlagged]
  rcases noticed with unread | seen | ⟨before, after, toLook, looks, onward⟩
  · obtain ⟨later, recorded, holds, keeps⟩ := later_life faultless_translates (in_sight_lives host)
      recorded ⟨decided, .inl ⟨unread, flagged⟩⟩ keeps further
    exact over_in_sight_cancelled past keeps recorded holds.1 holds.2
  · obtain ⟨later, recorded, holds, keeps⟩ := later_life faultless_translates (in_sight_lives host)
      recorded ⟨decided, .inr seen⟩ keeps further
    exact over_in_sight_cancelled past keeps recorded holds.1 holds.2
  · obtain ⟨atLook, recorded, holds, keeps⟩ := later_life faultless_translates
      (flagged_lives host) recorded ⟨decided, flagged⟩ keeps toLook
    have sees := look_sees looks holds.2
    obtain ⟨looked, recorded, decided, keeps⟩ := later_life faultless_translates decidedLives
      recorded holds.1 keeps (look_reaches looks)
    obtain ⟨later, recorded, holds, keeps⟩ := later_life faultless_translates (in_sight_lives host)
      recorded ⟨decided, .inr sees⟩ keeps onward
    exact over_in_sight_cancelled past keeps recorded holds.1 holds.2

def faultlessTurn (world : JobWorld) (party : Party) : JobCall → Bool
  | .fetchJob | .cancelJob => party ≠ .worker
  | request => canTurn world request

theorem faultless_turn_possible (world : JobWorld) (party : Party) (request : JobCall)
    (turn : faultlessTurn world party request = true) :
    (((jobSurroundings .persistent).restrict WorksFaultlessly).machine party).step world request
      (obliging .persistent world request).1 (obliging .persistent world request).2 := by
  constructor
  · refine obliging_step _ world request ?_
    cases request <;> first | exact turn | rfl
  · rintro rfl
    cases request <;> trivial

/-- As in `obliging`, but a wait for the container times out. -/
def slow (world : JobWorld) : (request : JobCall) → JobReply request × JobWorld
  | .wait _ => (.error { kind := .readTimeout }, world)
  | request => obliging .persistent world request

theorem slow_turn_possible (world : JobWorld) (party : Party) (request : JobCall)
    (turn : faultlessTurn world party request = true) :
    (((jobSurroundings .persistent).restrict WorksFaultlessly).machine party).step world request
      (slow world request).1 (slow world request).2 := by
  cases request
  case wait timeout =>
      refine ⟨⟨?_, rfl⟩, fun _ => rfl⟩
      rintro raised ⟨⟩
      decide
  all_goals exact faultless_turn_possible world party _ turn

theorem turn_looks (before : JobConfiguration) (reader : Reader)
    (forFlag : reader = .preRun ∨ reader = .poll)
    (next : JobReply (.hgetall reader) → JobProgram Unit)
    (waiting : before.rest .worker = .call (.hgetall reader) next) :
    Looks before (play (obliging .persistent) faultlessTurn [.worker] before) := by
  have played : play (obliging .persistent) faultlessTurn [.worker] before =
      ⟨before.world.noteRead reader, Function.update before.rest .worker
        (next (.ok (before.world.record.map Key.fields)))⟩ := by
    unfold play
    rw [waiting]
    rfl
  rw [played]
  exact .read before reader forFlag next _ _ waiting ⟨rfl, rfl⟩

/-- The container is up, and a cancel request has been answered. -/
def askedWhileUp : JobConfiguration :=
  play (obliging .persistent) faultlessTurn
    (List.replicate 8 .submission ++ List.replicate 7 .worker ++ List.replicate 2 (.cancel 0))
    (plainBuild.start 0)

def aboutToLook : JobConfiguration := play slow faultlessTurn [.worker] askedWhileUp

def hasLooked : JobConfiguration := play (obliging .persistent) faultlessTurn [.worker] aboutToLook

def stopped : JobConfiguration :=
  play (obliging .persistent) faultlessTurn (List.replicate 20 .worker) hasLooked

theorem cancel_before_look_takes_effect :
    askedWhileUp.world.preRunRead = some false ∧ stopped.world.status = some .cancelled := by
  have past : Over plainBuild stopped := by
    refine ⟨by decide +kernel, .inl (by decide +kernel), fun index => ?_⟩
    cases index with
    | zero => exact .inl (by decide +kernel)
    | succ index =>
        refine .inr ?_
        rw [stopped, hasLooked, aboutToLook, askedWhileUp, play_rest_untouched _ _ _ _ _ (by simp),
          play_rest_untouched _ _ _ _ _ (by simp), play_rest_untouched _ _ _ _ _ (by simp),
          play_rest_untouched _ _ _ _ _ (by simp)]
        rfl
  have toLook := play_reaches slow faultlessTurn _ slow_turn_possible [.worker] askedWhileUp
  have looks : Looks aboutToLook hasLooked := turn_looks aboutToLook .poll (.inr rfl) _ rfl
  have onward := play_reaches (obliging .persistent) faultlessTurn _ faultless_turn_possible
    (List.replicate 20 .worker) hasLooked
  exact ⟨by decide +kernel, noticed_cancel_takes_effect plainBuild 0 askedWhileUp stopped rfl
    (by decide) (play_reaches _ _ _ faultless_turn_possible _ _)
    (toLook.trans ((look_reaches looks).trans onward)) 0 .cancelRequested rfl past
    (.inr (.inr ⟨aboutToLook, hasLooked, toLook, looks, onward⟩))⟩

/-- The flag is set while the container is up, and no wait times out any more:
the request has been answered with 200, and the job succeeds. -/
theorem late_flag_has_no_effect :
    ¬ ∀ (job : Job) (clock : Nat) (moment final : JobConfiguration),
      job.settings.hostDataDir.isSome = true → 0 < job.settings.buildPollInterval →
      Reaches ((jobSurroundings .persistent).restrict WorksFaultlessly) (job.start clock) moment →
      Reaches ((jobSurroundings .persistent).restrict WorksFaultlessly) moment final →
      ∀ (index : Nat) (answer : CancelAnswer),
        moment.rest (.cancel index) = .done (.ok answer) →
        (∀ statusCode, moment.world.container ≠ .exited statusCode) → Over job final →
        final.world.status = some .cancelled := by
  intro always
  let moment := play (obliging .persistent) faultlessTurn
    (List.replicate 8 .submission ++ List.replicate 7 .worker ++ List.replicate 2 (.cancel 0))
    (plainBuild.start 0)
  let final := play (obliging .persistent) faultlessTurn (List.replicate 20 .worker) moment
  have up : moment.world.container = .up := by decide +kernel
  have past : Over plainBuild final := by
    refine ⟨by decide +kernel, .inl (by decide +kernel), fun index => ?_⟩
    cases index with
    | zero => exact .inl (by decide +kernel)
    | succ index =>
        refine .inr ?_
        rw [play_rest_untouched _ _ _ _ _ (by simp), play_rest_untouched _ _ _ _ _ (by simp)]
        rfl
  have cancelled := always plainBuild 0 moment final rfl (by decide)
    (play_reaches _ _ _ faultless_turn_possible _ _)
    (play_reaches _ _ _ faultless_turn_possible _ _) 0 .cancelRequested rfl (by simp [up]) past
  have succeeded : final.world.status = some .success := by decide +kernel
  rw [succeeded] at cancelled
  cases cancelled

end PretextBuildServer.CancelEffect
