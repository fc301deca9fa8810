import PretextBuildServer.WorkerSettlement
import Mathlib.Algebra.BigOperators.Ring.Finset
import Mathlib.Algebra.Order.Floor.Ring
import Mathlib.Algebra.Order.Archimedean.Real.Basic

/-!
# When the wait for a container ends

The loop counts polls, not seconds: after a failed wait it adds the poll interval
to the elapsed time, however long the wait took. Polls are numbered from one.
-/

namespace PretextBuildServer.WaitTiming

open EffectProgram EffectProgram.Program
open PretextBuildServer.ServerSettings PretextBuildServer.JobRecord PretextBuildServer.JobCalls
open PretextBuildServer.BuildWorker PretextBuildServer.JobSystem
open PretextBuildServer.WorkerSettlement

set_option autoImplicit false

/-- How the loop ends at the `k`-th wait, by the first test that applies; `none`
if it goes on. -/
def ending (surprises : Surprises) (poll timeout : Int) (k : Nat) :
    Option (Except Raised (Option Int)) :=
  match surprises.answer (k - 1) (.wait poll) with
  | .ok statusCode => some (.ok statusCode)
  | .error raised =>
      if timeout ≤ k * poll then some (.error raised)
      else if surprises.flagged k then some (.error { kind := .cancelled })
      else none

/-- Every wait returns or times out, the read or the connection. -/
def OnlyTimesOut (surprises : Surprises) (poll : Int) : Prop :=
  ∀ k raised, surprises.answer k (.wait poll) = .error raised → raised.isTimedOutWait = true

section Loop

variable {surprises : Surprises} {poll timeout : Int}

theorem ending_of_passes {k : Nat} (passes : surprises.Passes poll timeout k) :
    ending surprises poll timeout (k + 1) = none := by
  obtain ⟨⟨raised, answered, -⟩, inTime, unflagged⟩ := passes
  have early : ¬ timeout ≤ (k + 1 : Nat) * poll := by
    push_cast
    omega
  simp only [ending, Nat.add_sub_cancel, answered, if_neg early, unflagged]
  rfl

/-- What the loop comes to if it ends at the wait after `k` others. -/
def lastAnswer (surprises : Surprises) (poll timeout : Int) (k : Nat) :
    Except Raised (Option Int) :=
  match surprises.answer k (.wait poll) with
  | .ok statusCode => .ok statusCode
  | .error raised =>
      if raised.isTimedOutWait ∧ (k + 1) * poll < timeout then .error { kind := .cancelled }
      else .error raised

theorem ending_of_stop (only : OnlyTimesOut surprises poll) {k : Nat}
    (stops : ¬ surprises.Passes poll timeout k) :
    ending surprises poll timeout (k + 1) = some (lastAnswer surprises poll timeout k) := by
  unfold lastAnswer
  unfold ending
  rw [Nat.add_sub_cancel]
  cases answered : surprises.answer k (.wait poll) with
  | ok statusCode => rfl
  | error raised =>
      have timedOut := only k raised answered
      push_cast
      by_cases late : timeout ≤ (k + 1) * poll
      · have ended : ¬ (raised.isTimedOutWait = true ∧ (k + 1) * poll < timeout) := by
          intro both
          omega
        rw [if_pos late, if_neg ended]
      · have inTime : ((k : Int) + 1) * poll < timeout := by omega
        have flagged : surprises.flagged (k + 1) = true := by
          by_contra unflagged
          exact stops ⟨⟨raised, answered, timedOut⟩, inTime, by simpa using unflagged⟩
        rw [if_neg late, if_pos flagged, if_pos ⟨timedOut, inTime⟩]

theorem container_wait_runs {settings : Settings} {record : Fields}
    (polls : 0 < settings.buildPollInterval) :
    ∃ k, (∀ j < k, surprises.Passes settings.buildPollInterval timeout j) ∧
      ¬ surprises.Passes settings.buildPollInterval timeout k ∧
      run surprises.handler { record } (waitForContainer settings timeout) =
        (lastAnswer surprises settings.buildPollInterval timeout k, { record, waits := k + 1 }) := by
  have counted := poll_count_enough settings.buildPollInterval timeout polls
  obtain ⟨k, -, before, stops, runs⟩ :=
    @wait_loop_runs surprises { record } settings.buildPollInterval timeout
      (pollCount settings.buildPollInterval timeout) counted.2 (by simpa using counted.1)
  refine ⟨k, fun j below => before j (Nat.zero_le j) below, stops, ?_⟩
  rw [waitForContainer, if_pos polls]
  simp only [Nat.cast_zero, zero_mul] at runs
  rw [runs]
  unfold lastAnswer
  cases surprises.answer k (.wait settings.buildPollInterval) with
  | ok statusCode => rfl
  | error raised => rfl

theorem polls_bounded (positive : 1 ≤ poll) {k : Nat}
    (before : ∀ j < k, surprises.Passes poll timeout j) :
    ((k + 1 : Nat) : Int) ≤ max 1 ⌈(timeout : ℚ) / poll⌉ := by
  cases k with
  | zero => simp
  | succ last =>
      have passes := before last (Nat.lt_succ_self last)
      have inTime := passes.2.1
      have counted : ((last + 1 : Int) : ℚ) < (timeout : ℚ) / poll := by
        rw [lt_div_iff₀ (by exact_mod_cast positive)]
        exact_mod_cast inTime
      have reached := Int.lt_ceil.mpr counted
      apply le_max_of_le_right
      push_cast
      omega

end Loop

/-- The loop ends at the least wait at which one of its three tests applies,
after at most as many waits as the timeout has poll intervals, and begins no
wait after one whose look at the flag finds it set. -/
theorem wait_ends_at_first_stop (surprises : Surprises) (settings : Settings) (timeout : Int)
    (record : Fields) (positive : 1 ≤ settings.buildPollInterval)
    (only : OnlyTimesOut surprises settings.buildPollInterval) :
    ∃ (k : Nat) (outcome : Except Raised (Option Int)), 1 ≤ k ∧
      (k : Int) ≤ max 1 ⌈(timeout : ℚ) / settings.buildPollInterval⌉ ∧
      ending surprises settings.buildPollInterval timeout k = some outcome ∧
      (∀ j, 1 ≤ j → j < k → ending surprises settings.buildPollInterval timeout j = none) ∧
      run surprises.handler { record } (waitForContainer settings timeout) =
        (outcome, { record, waits := k }) ∧
      ∀ j, 1 ≤ j → surprises.flagged j = true → k ≤ j := by
  have polls : 0 < settings.buildPollInterval := by omega
  obtain ⟨k, passes, stops, runs⟩ := @container_wait_runs surprises timeout settings record polls
  refine ⟨k + 1, _, by omega, polls_bounded positive passes, ending_of_stop only stops, ?_, runs,
    ?_⟩
  · intro j some below
    have previous := passes (j - 1) (by omega)
    have goesOn := ending_of_passes previous
    rwa [Nat.sub_add_cancel some] at goesOn
  · intro j some flagged
    by_contra later
    have previous := passes (j - 1) (by omega)
    have unflagged := previous.2.2
    rw [Nat.sub_add_cancel some, flagged] at unflagged
    cases unflagged

/-- Waits that end as given; the container can be killed and has an empty log. -/
def withWaits (waits : Nat → Except Raised (Option Int)) (foreign : ∀ k, Foreign (waits k)) :
    Surprises where
  answer k
    | .wait _ => waits k
    | .kill => .ok ()
    | .logs => .ok ""
    | _ => .error { kind := .other }
  started := .ok ()
  flagged _ := false
  clock _ := 0
  foreign k request := by
    cases request
    case wait => exact foreign k
    all_goals
      intro raised same
      cases same
    all_goals simp
  startedForeign := by
    intro raised same
    cases same

def endsAtSecondPoll : Surprises :=
  withWaits (fun k => if k = 0 then .error { kind := .readTimeout } else .ok (some 0)) (by
    intro k raised same
    split at same
    · cases same
      simp
    · cases same)

theorem second_poll_ends :
    ∃ (k : Nat) (outcome : Except Raised (Option Int)), 1 ≤ k ∧
      (k : Int) ≤ max 1 ⌈((600 : Int) : ℚ) / defaults.buildPollInterval⌉ ∧
      ending endsAtSecondPoll defaults.buildPollInterval 600 k = some outcome ∧
      (∀ j, 1 ≤ j → j < k → ending endsAtSecondPoll defaults.buildPollInterval 600 j = none) ∧
      run endsAtSecondPoll.handler { record := {} } (waitForContainer defaults 600) =
        (outcome, { record := {}, waits := k }) ∧
      ∀ j, 1 ≤ j → endsAtSecondPoll.flagged j = true → k ≤ j := by
  apply wait_ends_at_first_stop endsAtSecondPoll defaults 600 {} (by decide)
  intro k raised same
  simp only [endsAtSecondPoll, withWaits] at same
  split at same
  · cases same
    rfl
  · cases same

/-! ## Counted and real time -/

/-- The seconds the waits took, by their number less one; a read that timed out
took the poll interval, a failing connection any time. -/
structure Durations (surprises : Surprises) (poll : Int) where
  seconds : Nat → ℝ
  nonneg : ∀ k, 0 ≤ seconds k
  full : ∀ k raised, surprises.answer k (.wait poll) = .error raised →
    raised.kind = .readTimeout → seconds k = poll

def sandboxOf (settings : Settings) : Kind → Sandbox
  | .build => settings.buildSandbox
  | .generate => settings.generateSandbox

/-- The `default_timeout` of the queue of each kind. -/
def defaultTimeout (settings : Settings) : Kind → Int
  | .build => settings.buildTimeout + 120
  | .generate => settings.generateTimeout + 120

def exceededNote (kind : Kind) (timeout : Int) : String :=
  s!"\n\n[{kind.text} exceeded {timeout}s and was killed]"

def RecordedAsExceeded (kind : Kind) (timeout : Int) (record : Fields) : Prop :=
  record.status = some .failed ∧ ∃ logs, record.log = some (logs ++ exceededNote kind timeout)

/-- As many waits as the loop allows fail, none of the looks in between finds the
flag set, and the container can be killed and its log read. -/
def KilledForTime (surprises : Surprises) (poll timeout : Int) : Prop :=
  (∀ j < pollCount poll timeout, ∃ raised,
      surprises.answer j (.wait poll) = .error raised ∧ raised.isTimedOutWait = true) ∧
    (∀ j, 1 ≤ j → j < pollCount poll timeout → surprises.flagged j = false) ∧
    Returns (surprises.answer (pollCount poll timeout) .kill) ∧
    Returns (surprises.answer (pollCount poll timeout) .logs)

def disconnected (surprises : Surprises) (poll : Int) (k : Nat) : Bool :=
  match surprises.answer k (.wait poll) with
  | .ok _ => false
  | .error raised => raised.kind == .reqConnectionError

section Time

variable {surprises : Surprises} {poll timeout : Int}

theorem poll_count_exact (positive : 1 ≤ poll) (allowed : 1 ≤ timeout) :
    ((pollCount poll timeout : Int) - 1) * poll < timeout ∧
      timeout ≤ pollCount poll timeout * poll := by
  have enough := poll_count_enough poll timeout (by omega)
  refine ⟨?_, enough.1⟩
  have quotient := Int.mul_ediv_add_emod (timeout + poll - 1) poll
  have remainder := Int.emod_nonneg (timeout + poll - 1) (show poll ≠ 0 by omega)
  have least : 1 ≤ (timeout + poll - 1) / poll := by
    rw [Int.le_ediv_iff_mul_le (by omega)]
    omega
  have counted : (pollCount poll timeout : Int) = (timeout + poll - 1) / poll := by
    unfold pollCount
    omega
  rw [counted, sub_mul, one_mul, mul_comm]
  omega

/-- The loop goes on for `k` waits in time and is late at the next one: then that
is the last one it allows. -/
theorem last_poll (positive : 1 ≤ poll) (allowed : 1 ≤ timeout) {k : Nat}
    (early : (k : Int) * poll < timeout) (late : timeout ≤ (k + 1) * poll) :
    k + 1 = pollCount poll timeout := by
  have exact := poll_count_exact positive allowed
  have upper : (pollCount poll timeout : Int) - 1 < k + 1 :=
    lt_of_mul_lt_mul_right (exact.1.trans_le late) (by omega)
  have lower : (k : Int) < pollCount poll timeout :=
    lt_of_mul_lt_mul_right (early.trans_le exact.2) (by omega)
  omega

theorem killed_passes (positive : 1 ≤ poll) (allowed : 1 ≤ timeout)
    (killed : KilledForTime surprises poll timeout) {j : Nat}
    (before : j + 1 < pollCount poll timeout) : surprises.Passes poll timeout j := by
  have exact := poll_count_exact positive allowed
  refine ⟨killed.1 j (by omega), ?_, killed.2.1 (j + 1) (by omega) before⟩
  have counted : ((j : Int) + 1) * poll ≤ (pollCount poll timeout - 1) * poll := by
    apply mul_le_mul_of_nonneg_right _ (by omega)
    omega
  omega

/-- The wait that ends the loop is the last one it allows if all that is allowed
fail unflagged. -/
theorem killed_at_limit (positive : 1 ≤ poll) (allowed : 1 ≤ timeout)
    (killed : KilledForTime surprises poll timeout) {k : Nat}
    (passes : ∀ j < k, surprises.Passes poll timeout j)
    (stops : ¬ surprises.Passes poll timeout k) : k + 1 = pollCount poll timeout := by
  have exact := poll_count_exact positive allowed
  have one := (poll_count_enough poll timeout (by omega)).2
  have below : ¬ k + 1 < pollCount poll timeout :=
    fun before => stops (killed_passes positive allowed killed before)
  by_contra other
  have previous := passes (pollCount poll timeout - 1) (by omega)
  have inTime := previous.2.1
  have counted : ((pollCount poll timeout - 1 : Nat) : Int) + 1 = pollCount poll timeout := by
    omega
  rw [counted] at inTime
  omega

theorem last_answer_in_time {k : Nat} {raised : Raised}
    (answered : lastAnswer surprises poll timeout k = .error raised)
    (notCancelled : raised.kind ≠ .cancelled) (timedOut : raised.isTimedOutWait = true) :
    surprises.answer k (.wait poll) = .error raised ∧ timeout ≤ (k + 1) * poll := by
  unfold lastAnswer at answered
  split at answered
  · cases answered
  · rename_i failure failed
    split at answered
    · cases answered
      exact absurd rfl notCancelled
    · rename_i late
      cases answered
      refine ⟨failed, ?_⟩
      by_contra early
      exact late ⟨timedOut, by omega⟩

end Time

section Recorded

variable {surprises : Surprises} {settings : Settings} {kind : Kind} {sandbox : Sandbox}
  {record : Fields}

theorem await_runs (polls : 0 < settings.buildPollInterval) :
    ∃ k, (∀ j < k, surprises.Passes settings.buildPollInterval sandbox.timeout j) ∧
      ¬ surprises.Passes settings.buildPollInterval sandbox.timeout k ∧
      (run surprises.handler { record } (awaitContainer settings kind sandbox)).2 =
        match lastAnswer surprises settings.buildPollInterval sandbox.timeout k with
        | .ok _ => { record, waits := k + 1 }
        | .error raised =>
            if raised.kind = .cancelled then
              (run surprises.handler { record, waits := k + 1 }
                (stopContainer .cancelled s!"\n\n[{kind.text} cancelled by request]")).2
            else if raised.isTimedOutWait then
              (run surprises.handler { record, waits := k + 1 }
                (stopContainer .failed (exceededNote kind sandbox.timeout))).2
            else { record, waits := k + 1 } := by
  obtain ⟨k, passes, stops, runs⟩ := @container_wait_runs surprises sandbox.timeout settings record polls
  refine ⟨k, passes, stops, ?_⟩
  rw [awaitContainer, run_and_then, runs]
  cases lastAnswer surprises settings.buildPollInterval sandbox.timeout k with
  | ok statusCode =>
      have logged : surprises.handler { record, waits := k + 1 } .logs =
        (surprises.answer (k + 1) .logs, { record, waits := k + 1 }) := rfl
      simp only [bind_is_and_then]
      rw [run_and_then, run_perform, logged]
      cases surprises.answer (k + 1) .logs with
      | ok logs => rfl
      | error raised => rfl
  | error raised =>
      have stopped : ∀ (status : Status) (note : String),
          (run surprises.handler { record, waits := k + 1 }
            (do stopContainer status note; return none : JobProgram (Option (String × Int)))).2 =
          (run surprises.handler { record, waits := k + 1 } (stopContainer status note)).2 := by
        intro status note
        rw [bind_is_and_then, run_and_then]
        cases (run surprises.handler { record, waits := k + 1 } (stopContainer status note)).1 with
        | ok value => rfl
        | error failure => rfl
      simp only
      split
      · exact stopped _ _
      · split
        · exact stopped _ _
        · rfl

theorem killed_iff_stopped (positive : 1 ≤ settings.buildPollInterval) (allowed : 1 ≤ sandbox.timeout)
    {k : Nat} (passes : ∀ j < k, surprises.Passes settings.buildPollInterval sandbox.timeout j)
    {raised : Raised}
    (answered : lastAnswer surprises settings.buildPollInterval sandbox.timeout k = .error raised)
    (notCancelled : raised.kind ≠ .cancelled) (timedOut : raised.isTimedOutWait = true) :
    KilledForTime surprises settings.buildPollInterval sandbox.timeout ↔
      Returns (surprises.answer (k + 1) .kill) ∧ Returns (surprises.answer (k + 1) .logs) := by
  obtain ⟨failed, late⟩ := last_answer_in_time answered notCancelled timedOut
  have early : (k : Int) * settings.buildPollInterval < sandbox.timeout := by
    cases k with
    | zero =>
        simp only [Nat.cast_zero, zero_mul]
        omega
    | succ last => exact_mod_cast (passes last (Nat.lt_succ_self last)).2.1
  have limit := last_poll positive allowed early late
  rw [KilledForTime, ← limit]
  constructor
  · intro killed
    exact killed.2.2
  · intro stopped
    refine ⟨?_, ?_, stopped⟩
    · intro j below
      by_cases before : j < k
      · exact (passes j before).1
      · have last : j = k := by omega
        exact ⟨raised, last ▸ failed, timedOut⟩
    · intro j one below
      have unflagged := (passes (j - 1) (by omega)).2.2
      rwa [Nat.sub_add_cancel one] at unflagged

theorem killed_timed_out (positive : 1 ≤ settings.buildPollInterval) (allowed : 1 ≤ sandbox.timeout)
    {k : Nat} (passes : ∀ j < k, surprises.Passes settings.buildPollInterval sandbox.timeout j)
    (stops : ¬ surprises.Passes settings.buildPollInterval sandbox.timeout k)
    (killed : KilledForTime surprises settings.buildPollInterval sandbox.timeout) :
    ∃ raised, lastAnswer surprises settings.buildPollInterval sandbox.timeout k = .error raised ∧
      raised.kind ≠ .cancelled ∧ raised.isTimedOutWait = true := by
  have limit := killed_at_limit positive allowed killed passes stops
  obtain ⟨raised, failed, timedOut⟩ := killed.1 k (by omega)
  refine ⟨raised, ?_, surprises.foreign k _ raised failed, timedOut⟩
  have late := (poll_count_exact positive allowed).2
  rw [← limit] at late
  push_cast at late
  rw [lastAnswer, failed]
  simp only
  rw [if_neg]
  intro inTime
  omega

/-- A container is recorded as killed for its time exactly if it is. -/
theorem exceeded_iff (positive : 1 ≤ settings.buildPollInterval) (allowed : 1 ≤ sandbox.timeout)
    (unsettled : record.status ≠ some .failed) :
    RecordedAsExceeded kind sandbox.timeout
        (run surprises.handler { record } (awaitContainer settings kind sandbox)).2.record ↔
      KilledForTime surprises settings.buildPollInterval sandbox.timeout := by
  have unrecorded : ¬ RecordedAsExceeded kind sandbox.timeout record :=
    fun recorded => unsettled recorded.1
  obtain ⟨k, passes, stops, after⟩ :=
    @await_runs surprises settings kind sandbox record (by omega)
  rw [after]
  cases answered : lastAnswer surprises settings.buildPollInterval sandbox.timeout k with
  | ok statusCode =>
      apply iff_of_false unrecorded
      intro killed
      obtain ⟨raised, same, -⟩ := killed_timed_out positive allowed passes stops killed
      rw [answered] at same
      cases same
  | error raised =>
      have ended : KilledForTime surprises settings.buildPollInterval sandbox.timeout →
          raised.kind ≠ .cancelled ∧ raised.isTimedOutWait = true := by
        intro killed
        obtain ⟨failure, same, timed⟩ := killed_timed_out positive allowed passes stops killed
        rw [answered] at same
        cases same
        exact timed
      simp only
      split
      · rename_i cancelled
        apply iff_of_false
        · rw [stop_runs]
          intro recorded
          split at recorded
          · exact unrecorded recorded
          · split at recorded
            · exact unrecorded recorded
            · simp [RecordedAsExceeded, Lonely.write, Fields.override] at recorded
        · exact fun killed => (ended killed).1 cancelled
      · rename_i notCancelled
        split
        · rename_i timedOut
          rw [killed_iff_stopped positive allowed passes answered notCancelled timedOut, stop_runs]
          cases surprises.answer (k + 1) .kill with
          | error failure =>
              apply iff_of_false unrecorded
              simp [Returns]
          | ok value =>
              cases surprises.answer (k + 1) .logs with
              | error failure =>
                  apply iff_of_false unrecorded
                  simp [Returns]
              | ok logs =>
                  apply iff_of_true
                  · exact ⟨rfl, logs, rfl⟩
                  · exact ⟨⟨value, rfl⟩, logs, rfl⟩
        · rename_i untimed
          apply iff_of_false unrecorded
          exact fun killed => untimed (ended killed).2

theorem stop_waits (world : Lonely) (status : Status) (note : String) :
    (run surprises.handler world (stopContainer status note)).2.waits = world.waits := by
  rw [stop_runs]
  split
  · rfl
  · split
    · rfl
    · rfl

theorem killed_waits (positive : 1 ≤ settings.buildPollInterval) (allowed : 1 ≤ sandbox.timeout)
    (killed : KilledForTime surprises settings.buildPollInterval sandbox.timeout) :
    (run surprises.handler { record } (awaitContainer settings kind sandbox)).2.waits =
      pollCount settings.buildPollInterval sandbox.timeout := by
  obtain ⟨k, passes, stops, after⟩ :=
    @await_runs surprises settings kind sandbox record (by omega)
  rw [after, ← killed_at_limit positive allowed killed passes stops]
  split
  · rfl
  · split
    · exact stop_waits _ _ _
    · split
      · exact stop_waits _ _ _
      · rfl

end Recorded

/-- Failing connections are all that makes the time counted differ from the time
spent. -/
theorem time_spent {surprises : Surprises} {poll : Int} (durations : Durations surprises poll)
    (n : Nat) (fails : ∀ j < n, ∃ raised,
      surprises.answer j (.wait poll) = .error raised ∧ raised.isTimedOutWait = true) :
    ∑ j ∈ Finset.range n, durations.seconds j =
      n * poll - ∑ j ∈ (Finset.range n).filter fun j => disconnected surprises poll j,
        (poll - durations.seconds j) := by
  have spared : ∑ j ∈ (Finset.range n).filter fun j => disconnected surprises poll j,
      ((poll : ℝ) - durations.seconds j) =
      ∑ j ∈ Finset.range n, ((poll : ℝ) - durations.seconds j) := by
    apply Finset.sum_filter_of_ne
    intro j inside short
    obtain ⟨raised, failed, timedOut⟩ := fails j (Finset.mem_range.mp inside)
    rw [disconnected, failed, beq_iff_eq]
    by_contra connected
    have timeout : raised.kind = .readTimeout := by
      unfold Raised.isTimedOutWait at timedOut
      split at timedOut
      · assumption
      · rename_i refused
        exact absurd refused connected
      · cases timedOut
    apply short
    rw [durations.full j raised failed timeout, sub_self]
  rw [spared, Finset.sum_sub_distrib, Finset.sum_const, Finset.card_range, nsmul_eq_mul]
  ring

/-- A job recorded as killed for its time has had it, and the loop stays within
what RQ allows, exactly if the connections that failed made the polls no shorter
than rounding the timeout up to whole polls makes them longer, and that rounding
adds less than the two minutes the queue has to spare. -/
theorem timeout_is_real_iff (surprises : Surprises) (settings : Settings) (kind : Kind)
    (record : Fields) (durations : Durations surprises settings.buildPollInterval)
    (positive : 1 ≤ settings.buildPollInterval) (allowed : 1 ≤ (sandboxOf settings kind).timeout)
    (running : record.status = some .running) :
    let timeout := (sandboxOf settings kind).timeout
    let poll := settings.buildPollInterval
    let polls := pollCount poll timeout
    let after := (run surprises.handler { record }
      (awaitContainer settings kind (sandboxOf settings kind))).2
    ((RecordedAsExceeded kind timeout after.record →
          (timeout : ℝ) ≤ ∑ j ∈ Finset.range after.waits, durations.seconds j) ∧
        polls * poll < defaultTimeout settings kind) ↔
      (KilledForTime surprises poll timeout →
          ∑ j ∈ (Finset.range polls).filter fun j => disconnected surprises poll j,
            (poll - durations.seconds j) ≤ ((polls * poll - timeout : Int) : ℝ)) ∧
        polls * poll - timeout < 120 := by
  intro timeout poll polls after
  have unsettled : record.status ≠ some .failed := by simp [running]
  have spare : defaultTimeout settings kind = timeout + 120 := by
    cases kind with
    | build => rfl
    | generate => rfl
  rw [spare, exceeded_iff positive allowed unsettled]
  apply and_congr
  · apply forall_congr'
    intro killed
    have waits : after.waits = polls := killed_waits positive allowed killed
    rw [waits, time_spent durations polls killed.1]
    push_cast
    constructor
    · intro real
      linarith
    · intro short
      linarith
  · constructor
    · intro below
      omega
    · intro below
      omega

/-! ## A daemon that is down -/

def daemonDown : Surprises :=
  withWaits (fun _ => .error { kind := .reqConnectionError }) (by
    intro k raised same
    cases same
    simp)

def noTime : Durations daemonDown defaults.buildPollInterval where
  seconds _ := 0
  nonneg _ := le_rfl
  full k raised same timeout := by
    cases same
    cases timeout

/-- The job is recorded as having exceeded ten minutes that nobody has waited. -/
theorem refused_connections_exceed_timeout :
    RecordedAsExceeded .build 600
        (run daemonDown.handler { record := { status := some .running } }
          (awaitContainer defaults .build (sandboxOf defaults .build))).2.record ∧
      ¬ ((600 : ℝ) ≤ ∑ j ∈ Finset.range
          (run daemonDown.handler { record := { status := some .running } }
            (awaitContainer defaults .build (sandboxOf defaults .build))).2.waits,
        noTime.seconds j) := by
  have killed : KilledForTime daemonDown defaults.buildPollInterval
      (sandboxOf defaults .build).timeout := by
    refine ⟨fun j _ => ⟨_, rfl, rfl⟩, fun _ _ _ => rfl, ⟨_, rfl⟩, _, rfl⟩
  constructor
  · exact (exceeded_iff (by decide) (by decide) (by simp)).mpr killed
  · simp only [noTime, Finset.sum_const_zero]
    norm_num

def readsTimeOut : Surprises :=
  withWaits (fun _ => .error { kind := .readTimeout }) (by
    intro k raised same
    cases same
    simp)

def wholePolls : Durations readsTimeOut defaults.buildPollInterval where
  seconds _ := 2
  nonneg _ := by norm_num
  full _ _ _ _ := by norm_num [defaults]

theorem read_timeouts_are_real :
    (RecordedAsExceeded .build 600
        (run readsTimeOut.handler { record := { status := some .running } }
          (awaitContainer defaults .build (sandboxOf defaults .build))).2.record →
      (((600 : Int) : ℝ)) ≤ ∑ j ∈ Finset.range
        (run readsTimeOut.handler { record := { status := some .running } }
          (awaitContainer defaults .build (sandboxOf defaults .build))).2.waits,
        wholePolls.seconds j) ∧
      (pollCount 2 600 : Int) * 2 < defaultTimeout defaults .build := by
  apply (timeout_is_real_iff readsTimeOut defaults .build { status := some .running } wholePolls
    (by decide) (by decide) rfl).mpr
  constructor
  · intro killed
    simp [wholePolls, defaults, pollCount, sandboxOf, Settings.buildSandbox]
  · decide

end PretextBuildServer.WaitTiming
