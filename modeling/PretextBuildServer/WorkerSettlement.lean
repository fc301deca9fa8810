import PretextBuildServer.WorkerRun
import Mathlib.Tactic.Linarith
import Mathlib.Tactic.Ring

/-!
# Which failures leave a job unsettled

The worker runs alone, against surroundings that may answer every call as they
like. `Settling` lists the answers under which the record ends in a terminal
status; under all others an exception leaves the run past every `except`, the
record says `running`, and so does the callback.
-/

namespace PretextBuildServer.WorkerSettlement

open EffectProgram EffectProgram.Program
open PretextBuildServer.ServerSettings PretextBuildServer.JobRecord PretextBuildServer.JobCalls
open PretextBuildServer.StoreCalls PretextBuildServer.CompletionCallback
open PretextBuildServer.BuildWorker PretextBuildServer.JobSystem
open PretextBuildServer.WorkerProtocol PretextBuildServer.WorkerRun

set_option autoImplicit false

/-- The answers the worker gets. They may differ from one wait to the next:
`answer k` is what is answered after `k` waits, `flagged k` whether the record
shows `cancel_requested` then, `clock k` the time. `started` answers the one
call of `containers.run`. -/
structure Surprises where
  answer : Nat → (request : JobCall) → JobReply request
  started : Except Raised Unit
  flagged : Nat → Bool
  clock : Nat → Nat
  foreign : ∀ k request, Foreign (answer k request)
  startedForeign : Foreign started

/-- What the worker's run has left: the record, the number of waits made, and
the statuses `send_callback` has read. -/
structure Lonely where
  record : Fields
  waits : Nat := 0
  callbackReads : List (Option Status) := []

def Lonely.noteRead (world : Lonely) : Reader → Lonely
  | .sendCallback => { world with callbackReads := world.callbackReads ++ [world.record.status] }
  | _ => world

def Lonely.write (world : Lonely) (fields : Fields) : Lonely :=
  { world with record := world.record.override fields }

variable (surprises : Surprises)

/-- The store works; everything else is a surprise. -/
def Surprises.handler : Handler JobCall.Answer Raised Lonely
  | world, .hgetall reader =>
      (.ok (some { world.record with cancelRequested := some (surprises.flagged world.waits) }),
        world.noteRead reader)
  | world, .hset fields => (.ok (), world.write fields)
  | world, .time => (.ok (surprises.clock world.waits), world)
  | world, .wait timeout =>
      (surprises.answer world.waits (.wait timeout), { world with waits := world.waits + 1 })
  | world, .containersRun _ => (surprises.started, world)
  | world, request => (surprises.answer world.waits request, world)

/-! ## The condition -/

/-- A call that returns, or raises what the outer `except` catches. -/
def ImageMissingAtMost {Answer : Type} (reply : Except Raised Answer) : Prop :=
  ∀ raised, reply = .error raised → raised.isImageNotFound = true

def Returns {Answer : Type} (reply : Except Raised Answer) : Prop :=
  ∃ value, reply = .ok value

/-- The `k`-th wait times out, in time and without a cancel request: the loop
goes on. -/
def Surprises.Passes (poll timeout : Int) (k : Nat) : Prop :=
  (∃ raised, surprises.answer k (.wait poll) = .error raised ∧ raised.isTimedOutWait = true) ∧
    (k + 1) * poll < timeout ∧ surprises.flagged (k + 1) = false

/-- `kill` and `logs` of a container that is to be stopped. -/
def Surprises.StopSettles (k : Nat) : Prop :=
  ImageMissingAtMost (surprises.answer k .kill) ∧
    (Returns (surprises.answer k .kill) → ImageMissingAtMost (surprises.answer k .logs))

/-- Looking for the output directory and zipping it. -/
def Surprises.PackageSettles (outputDir zipPath : Path) (sandbox : Sandbox) (k : Nat) : Prop :=
  Returns (surprises.answer k (.isDir outputDir)) ∧
    (surprises.answer k (.isDir outputDir) = .ok true →
      Returns (surprises.answer k (.isLink outputDir)) ∧
        (surprises.answer k (.isLink outputDir) = .ok false →
          Returns (surprises.answer k
            (.zipDir outputDir zipPath sandbox.skipTopLevelDotfiles))))

/-- What has to go well after a container has ended by itself. -/
def Surprises.EndSettles (outputDir zipPath : Path) (sandbox : Sandbox) (k : Nat) : Prop :=
  (∀ raised, surprises.answer k .remove = .error raised → raised.isAPIError = true) ∧
    surprises.PackageSettles outputDir zipPath sandbox k

/-- The `k`-th wait passes, or ends the loop in a way that settles the job. -/
def Surprises.WaitSettles (poll : Int) (outputDir zipPath : Path) (sandbox : Sandbox) (k : Nat) :
    Prop :=
  match surprises.answer k (.wait poll) with
  | .ok _ =>
      ImageMissingAtMost (surprises.answer (k + 1) .logs) ∧
        (Returns (surprises.answer (k + 1) .logs) →
          surprises.EndSettles outputDir zipPath sandbox (k + 1))
  | .error raised =>
      if raised.isTimedOutWait then
        surprises.Passes poll sandbox.timeout k ∨ surprises.StopSettles (k + 1)
      else raised.isImageNotFound = true

/-- A started container: the wait that ends the loop settles the job. -/
def Surprises.StartedSettles (settings : Settings) (outputDir zipPath : Path)
    (sandbox : Sandbox) : Prop :=
  0 < settings.buildPollInterval ∧
    ∀ k, (∀ j < k, surprises.Passes settings.buildPollInterval sandbox.timeout j) →
      surprises.WaitSettles settings.buildPollInterval outputDir zipPath sandbox k

/-- Either the container is not started for want of the image, or it is and the
wait for it ends well. -/
def Surprises.ContainerSettles (settings : Settings) (outputDir zipPath : Path)
    (sandbox : Sandbox) : Prop :=
  match surprises.started with
  | .error raised => raised.isImageNotFound = true
  | .ok _ => surprises.StartedSettles settings outputDir zipPath sandbox

/-- The answers under which a run settles its job. -/
def Surprises.Settling (settings : Settings) (jobId : String) (sandbox : Sandbox) : Prop :=
  settings.hostDataDir = none ∨ surprises.flagged 0 = true ∨
    Returns (surprises.answer 0 (.chmod (settings.workDir jobId))) ∧
      Returns (surprises.answer 0 .fromEnv) ∧
      surprises.ContainerSettles settings (settings.workDir jobId ++ sandbox.outputSubdir)
        (settings.jobDir jobId ++ ["output.zip"]) sandbox

/-! ## Running the parts -/

variable {surprises} {world : Lonely}

theorem stop_runs (status : Status) (note : String) :
    run surprises.handler world (stopContainer status note) =
      match surprises.answer world.waits .kill with
      | .error raised => (.error raised, world)
      | .ok _ =>
          match surprises.answer world.waits .logs with
          | .error raised => (.error raised, world)
          | .ok logs => (.ok (), world.write {
              status := some status
              finishedAt := some (surprises.clock world.waits)
              log := some (logs ++ note) }) := by
  have killed : surprises.handler world .kill = (surprises.answer world.waits .kill, world) := rfl
  have logged : surprises.handler world .logs = (surprises.answer world.waits .logs, world) := rfl
  unfold stopContainer
  rw [bind_is_and_then, run_and_then, run_perform, killed]
  cases surprises.answer world.waits .kill with
  | error raised => rfl
  | ok _ =>
      simp only [on_value_ok]
      rw [bind_is_and_then, run_and_then, run_perform, logged]
      cases surprises.answer world.waits .logs with
      | error raised => rfl
      | ok logs => rfl

theorem missing_runs (settings : Settings) (raised : Raised) :
    run surprises.handler world (imageMissing settings raised) =
      if raised.isImageNotFound then
        (.ok none, world.write {
          status := some .failed
          finishedAt := some (surprises.clock world.waits)
          log := some (s!"Build image not found locally: {settings.buildImage}. " ++
            s!"Run `docker pull {settings.buildImage}`.") })
      else (.error raised, world) := by
  unfold imageMissing
  split
  · rfl
  · rfl

theorem removal_runs :
    run surprises.handler world removeContainer =
      (match surprises.answer world.waits .remove with
        | .ok _ => .ok ()
        | .error raised => if raised.isAPIError then .ok () else .error raised, world) := by
  have removed : surprises.handler world .remove =
    (surprises.answer world.waits .remove, world) := rfl
  unfold removeContainer rescue
  rw [run_and_then, run_perform, removed]
  cases surprises.answer world.waits .remove with
  | ok _ => rfl
  | error raised =>
      simp only [on_failure_error]
      split
      · rfl
      · rfl

theorem look_runs {Result : Type} (rest : JobProgram Result) :
    run surprises.handler world (do
        let data ← storeGet .poll
        if (data.getD {}).cancelled then raise { kind := .cancelled } else rest) =
      if surprises.flagged world.waits then (.error { kind := .cancelled }, world)
      else run surprises.handler world rest := by
  have looked : surprises.handler world (.hgetall .poll) =
    (.ok (some { world.record with cancelRequested := some (surprises.flagged world.waits) }),
      world) := rfl
  rw [bind_is_and_then, run_and_then, storeGet, run_perform, looked]
  cases flagged : surprises.flagged world.waits with
  | true => rfl
  | false => rfl

/-- The loop makes waits that pass, and one that does not. -/
theorem wait_loop_runs (poll timeout : Int) (left : Nat) (positive : 0 < left)
    (enough : timeout ≤ world.waits * poll + left * poll) :
    ∃ k, world.waits ≤ k ∧ (∀ j, world.waits ≤ j → j < k → surprises.Passes poll timeout j) ∧
      ¬ surprises.Passes poll timeout k ∧
      run surprises.handler world (waitLoop poll timeout left (world.waits * poll)) =
        (match surprises.answer k (.wait poll) with
          | .ok statusCode => .ok statusCode
          | .error raised =>
              if raised.isTimedOutWait ∧ (k + 1) * poll < timeout then
                .error { kind := .cancelled }
              else .error raised, { world with waits := k + 1 }) := by
  induction left generalizing world with
  | zero => omega
  | succ left induction =>
      have waited : surprises.handler world (.wait poll) =
        (surprises.answer world.waits (.wait poll), { world with waits := world.waits + 1 }) := rfl
      have next : world.waits * poll + poll = (world.waits + 1) * poll := by ring
      unfold waitLoop rescue
      rw [run_and_then, run_perform, waited]
      cases answered : surprises.answer world.waits (.wait poll) with
      | ok statusCode =>
          refine ⟨world.waits, le_rfl, by omega, ?_, by rw [answered]; rfl⟩
          rintro ⟨⟨raised, timedOut, -⟩, -⟩
          simp [answered] at timedOut
      | error raised =>
          simp only [on_failure_error]
          by_cases timedOut : raised.isTimedOutWait = true
          · by_cases late : world.waits * poll + poll ≥ timeout
            · refine ⟨world.waits, le_rfl, by omega, fun passes => ?_, ?_⟩
              · have inTime := passes.2.1
                omega
              · have ended : ¬ ((world.waits : Int) + 1) * poll < timeout := by omega
                simp [answered, timedOut, late, ended]
            · have inTime : ((world.waits : Int) + 1) * poll < timeout := by omega
              simp only [timedOut, late, Bool.not_true, Bool.false_eq_true, if_false]
              rw [look_runs]
              cases flagged : surprises.flagged (world.waits + 1) with
              | true =>
                  refine ⟨world.waits, le_rfl, by omega, fun passes => ?_, ?_⟩
                  · simpa [flagged] using passes.2.2
                  · simp [answered, timedOut, inTime]
              | false =>
                  have passes : surprises.Passes poll timeout world.waits :=
                    ⟨⟨raised, answered, timedOut⟩, inTime, flagged⟩
                  push_cast at enough
                  have total : timeout ≤ (world.waits + 1) * poll + left * poll := by
                    linarith
                  have more : 0 < left := by
                    rcases Nat.eq_zero_or_pos left with none | more
                    · subst none
                      simp only [Nat.cast_zero, zero_mul, add_zero] at total
                      omega
                    · exact more
                  obtain ⟨k, later, before, ends, runs⟩ := @induction
                    { world with waits := world.waits + 1 } more (by exact_mod_cast total)
                  refine ⟨k, Nat.le_of_succ_le later, fun j fromHere below => ?_, ends, ?_⟩
                  · rcases Nat.eq_or_lt_of_le fromHere with rfl | further
                    · exact passes
                    · exact before j further below
                  · rw [next]
                    push_cast at runs
                    simpa using runs
          · refine ⟨world.waits, le_rfl, by omega, ?_, ?_⟩
            · rintro ⟨⟨other, same, passes⟩, -⟩
              rw [answered] at same
              cases same
              exact timedOut passes
            · simp [answered, timedOut]

/-- All conditions on the waits come down to the one that ends the loop. -/
theorem wait_settles_at_end (poll : Int) (outputDir zipPath : Path) (sandbox : Sandbox) (k : Nat)
    (before : ∀ j < k, surprises.Passes poll sandbox.timeout j)
    (ends : ¬ surprises.Passes poll sandbox.timeout k) :
    (∀ n, (∀ j < n, surprises.Passes poll sandbox.timeout j) →
        surprises.WaitSettles poll outputDir zipPath sandbox n) ↔
      surprises.WaitSettles poll outputDir zipPath sandbox k := by
  constructor
  · intro all
    exact all k before
  · intro atEnd n passed
    rcases Nat.lt_trichotomy n k with below | rfl | above
    · have passes := before n below
      obtain ⟨⟨raised, answered, timedOut⟩, -⟩ := passes
      unfold Surprises.WaitSettles
      rw [answered]
      simp only [timedOut, if_true]
      exact .inl (before n below)
    · exact atEnd
    · exact absurd (passed k above) ends

/-- How the part of the run up to the removal of the container ends: settled, at
the end of the container, or with an exception that nothing catches. -/
def InnerRuns (surprises : Surprises) (outputDir zipPath : Path) (sandbox : Sandbox)
    (settles : Prop) (before after : Lonely) : Except Raised (Option (String × Int)) → Prop
  | .ok none => after.record.isTerminal = true ∧ settles
  | .ok (some _) =>
      after.record = before.record ∧
        (settles ↔ surprises.EndSettles outputDir zipPath sandbox after.waits)
  | .error _ => after.record = before.record ∧ ¬ settles

variable {outputDir zipPath : Path} {sandbox : Sandbox}

theorem caught_runs (settings : Settings) (raised : Raised) (settles : Prop)
    (matters : settles ↔ raised.isImageNotFound = true) :
    ∃ outcome after,
      run surprises.handler world (imageMissing settings raised) = (outcome, after) ∧
        after.callbackReads = world.callbackReads ∧
        InnerRuns surprises outputDir zipPath sandbox settles world after outcome := by
  rw [missing_runs]
  split
  · rename_i missing
    exact ⟨_, _, rfl, rfl, rfl, matters.mpr missing⟩
  · rename_i other
    exact ⟨_, _, rfl, rfl, rfl, fun settled => other (matters.mp settled)⟩

theorem stopped_runs (settings : Settings) (status : Status) (note : String)
    (terminal : status.terminal = true) :
    ∃ outcome after,
      run surprises.handler world
          ((do stopContainer status note; return none : JobProgram (Option (String × Int))).andThen
            (onFailure (imageMissing settings))) = (outcome, after) ∧
        after.callbackReads = world.callbackReads ∧
        InnerRuns surprises outputDir zipPath sandbox (surprises.StopSettles world.waits) world
          after outcome := by
  rw [run_and_then, bind_is_and_then, run_and_then, stop_runs]
  unfold Surprises.StopSettles
  cases killed : surprises.answer world.waits .kill with
  | error raised =>
      refine caught_runs settings raised _ ⟨fun settles => settles.1 raised rfl, fun missing => ?_⟩
      exact ⟨by rintro _ ⟨⟩; exact missing, by rintro ⟨_, impossible⟩; cases impossible⟩
  | ok _ =>
      cases logged : surprises.answer world.waits .logs with
      | error raised =>
          refine caught_runs settings raised _
            ⟨fun settles => settles.2 ⟨_, rfl⟩ raised rfl, fun missing => ?_⟩
          exact ⟨nofun, fun _ => by rintro _ ⟨⟩; exact missing⟩
      | ok logs =>
          exact ⟨_, _, rfl, rfl, terminal, nofun, fun _ => nofun⟩

theorem inner_runs (settings : Settings) (kind : Kind) (fresh : world.waits = 0) :
    ∃ outcome after,
      run surprises.handler world
          (rescue (awaitContainer settings kind sandbox) (imageMissing settings)) =
        (outcome, after) ∧ after.callbackReads = world.callbackReads ∧
      InnerRuns surprises outputDir zipPath sandbox
        (surprises.StartedSettles settings outputDir zipPath sandbox) world after outcome := by
  unfold rescue awaitContainer waitForContainer Surprises.StartedSettles
  rw [and_then_assoc, run_and_then]
  by_cases positive : 0 < settings.buildPollInterval
  · have enough := poll_count_enough settings.buildPollInterval sandbox.timeout positive
    obtain ⟨k, -, before, ends, runs⟩ := @wait_loop_runs surprises world
      settings.buildPollInterval sandbox.timeout _ enough.2 (by simpa [fresh] using enough.1)
    have settles := wait_settles_at_end settings.buildPollInterval outputDir zipPath sandbox k
      (fun j below => before j (by omega) below) ends
    rw [fresh, Nat.cast_zero, zero_mul] at runs
    simp only [positive, if_true, true_and]
    rw [settles, runs]
    unfold Surprises.WaitSettles
    cases answered : surprises.answer k (.wait settings.buildPollInterval) with
    | ok statusCode =>
        have logged : surprises.handler { world with waits := k + 1 } .logs =
          (surprises.answer (k + 1) .logs, { world with waits := k + 1 }) := rfl
        dsimp only
        rw [run_and_then, bind_is_and_then, run_and_then, run_perform, logged]
        cases surprises.answer (k + 1) .logs with
        | error raised =>
            refine @caught_runs surprises { world with waits := k + 1 } _ _ _ settings raised _
              ⟨fun settles => settles.1 raised rfl, fun missing => ?_⟩
            exact ⟨by rintro _ ⟨⟩; exact missing, by rintro ⟨_, impossible⟩; cases impossible⟩
        | ok logs =>
            refine ⟨_, _, rfl, rfl, rfl, fun settles => settles.2 ⟨_, rfl⟩, fun settles => ?_⟩
            exact ⟨nofun, fun _ => settles⟩
    | error raised =>
        have foreign := surprises.foreign k _ raised answered
        by_cases timedOut : raised.isTimedOutWait = true
        · simp only [timedOut, ends, true_and, if_true, false_or]
          by_cases inTime : ((k : Int) + 1) * settings.buildPollInterval < sandbox.timeout
          · simp only [inTime, if_true]
            exact @stopped_runs surprises { world with waits := k + 1 } _ _ _ settings _ _ rfl
          · simp only [inTime, if_false, foreign, timedOut, if_true]
            exact @stopped_runs surprises { world with waits := k + 1 } _ _ _ settings _ _ rfl
        · simp only [timedOut, Bool.false_eq_true, false_and, if_false, foreign]
          exact @caught_runs surprises { world with waits := k + 1 } _ _ _ settings raised _ Iff.rfl
  · simp only [positive, if_false, false_and]
    exact ⟨_, _, rfl, rfl, rfl, id⟩

/-- The same after the removal of the container, which may raise even though the
job is settled. -/
def OuterRuns (surprises : Surprises) (outputDir zipPath : Path) (sandbox : Sandbox)
    (settles : Prop) (before after : Lonely) : Except Raised (Option (String × Int)) → Prop
  | .ok none => after.record.isTerminal = true ∧ settles
  | .ok (some _) =>
      after.record = before.record ∧
        (settles ↔ surprises.PackageSettles outputDir zipPath sandbox after.waits)
  | .error _ => after.record.isTerminal = true ↔ settles

theorem supervised_runs (settings : Settings) (kind : Kind) (kwargs : RunKwargs)
    (fresh : world.waits = 0) (unsettled : world.record.isTerminal = false) :
    ∃ outcome after,
      run surprises.handler world (superviseContainer settings kind sandbox kwargs) =
        (outcome, after) ∧ after.callbackReads = world.callbackReads ∧
      OuterRuns surprises outputDir zipPath sandbox
        (surprises.ContainerSettles settings outputDir zipPath sandbox) world after outcome := by
  have called : surprises.handler world (.containersRun kwargs) = (surprises.started, world) := rfl
  unfold superviseContainer Surprises.ContainerSettles
  rw [run_and_then, run_perform, called]
  cases surprises.started with
  | error raised =>
      dsimp only
      obtain ⟨outcome, after, runs, reads, caught⟩ := @caught_runs surprises world outputDir zipPath
        sandbox settings raised _ Iff.rfl
      refine ⟨outcome, after, runs, reads, ?_⟩
      rcases outcome with failure | (_ | ended)
      · simpa [OuterRuns, caught.1, unsettled] using caught.2
      · exact caught
      · rw [missing_runs] at runs
        split at runs <;> cases runs
  | ok _ =>
      dsimp only
      obtain ⟨outcome, after, runs, reads, inner⟩ := @inner_runs surprises world outputDir zipPath
        sandbox settings kind fresh
      unfold ensuring
      rw [run_and_then, runs, run_and_then, removal_runs]
      have removed : ∀ raised, surprises.answer after.waits .remove = .error raised →
          raised.isAPIError = false →
          OuterRuns surprises outputDir zipPath sandbox
            (surprises.StartedSettles settings outputDir zipPath sandbox) world after
            (.error raised) := by
        intro raised answered uncaught
        rcases outcome with failure | (_ | ended)
        · simpa [OuterRuns, inner.1, unsettled] using inner.2
        · simpa [OuterRuns, inner.1] using inner.2
        · have raises : ¬ surprises.EndSettles outputDir zipPath sandbox after.waits := fun settles => by
            simp [settles.1 raised answered] at uncaught
          simp [OuterRuns, inner.1, unsettled, inner.2, raises]
      have kept : (∀ raised, surprises.answer after.waits .remove = .error raised →
          raised.isAPIError = true) →
          OuterRuns surprises outputDir zipPath sandbox
            (surprises.StartedSettles settings outputDir zipPath sandbox) world after outcome := by
        intro caught
        rcases outcome with failure | (_ | ended)
        · simpa [OuterRuns, inner.1, unsettled] using inner.2
        · exact inner
        · exact ⟨inner.1, inner.2.trans ⟨And.right, fun settles => ⟨caught, settles⟩⟩⟩
      cases answered : surprises.answer after.waits .remove with
      | ok _ => exact ⟨_, _, rfl, reads, kept (by simp [answered])⟩
      | error raised =>
          cases caught : raised.isAPIError with
          | true =>
              simp only [caught, if_true, on_value_ok]
              refine ⟨_, _, rfl, reads, kept fun other same => ?_⟩
              rw [answered] at same
              cases same
              exact caught
          | false =>
              simp only [caught, Bool.false_eq_true, if_false, on_value_error]
              exact ⟨_, _, rfl, reads, removed raised answered caught⟩

theorem present_runs :
    run surprises.handler world (presentOutput outputDir) =
      (match surprises.answer world.waits (.isDir outputDir) with
        | .error raised => .error raised
        | .ok false => .ok false
        | .ok true =>
            match surprises.answer world.waits (.isLink outputDir) with
            | .error raised => .error raised
            | .ok isLink => .ok !isLink, world) := by
  have isDirAnswer : surprises.handler world (.isDir outputDir) =
    (surprises.answer world.waits (.isDir outputDir), world) := rfl
  have isLinkAnswer : surprises.handler world (.isLink outputDir) =
    (surprises.answer world.waits (.isLink outputDir), world) := rfl
  unfold presentOutput
  rw [bind_is_and_then, run_and_then, isDir, run_perform, isDirAnswer]
  rcases surprises.answer world.waits (.isDir outputDir) with raised | (_ | _)
  · rfl
  · rfl
  · simp only [on_value_ok, if_true, map_is_and_then]
    rw [run_and_then, isLink, run_perform, isLinkAnswer]
    rcases surprises.answer world.waits (.isLink outputDir) with raised | isLink
    · rfl
    · rfl

theorem zip_runs (listFiles hasOutput : Bool) :
    run surprises.handler world (zipOutput outputDir zipPath sandbox listFiles hasOutput) =
      (if hasOutput then
        match surprises.answer world.waits
            (.zipDir outputDir zipPath sandbox.skipTopLevelDotfiles) with
        | .error raised => .error raised
        | .ok names => .ok { files := if listFiles then some names else none }
      else .ok {}, world) := by
  have zipped : surprises.handler world (.zipDir outputDir zipPath sandbox.skipTopLevelDotfiles) =
    (surprises.answer world.waits (.zipDir outputDir zipPath sandbox.skipTopLevelDotfiles),
      world) := rfl
  unfold zipOutput
  cases hasOutput with
  | false => rfl
  | true =>
      simp only [if_true]
      rw [bind_is_and_then, run_and_then, run_perform, zipped]
      rcases surprises.answer world.waits (.zipDir outputDir zipPath _) with raised | names
      · rfl
      · rfl

theorem harvest_runs (kind : Kind) (projectId : Option String) (workDir : Path) (exitCode : Int)
    (extra : Fields) :
    ∃ later, run surprises.handler world
      (harvestGenerated kind projectId workDir exitCode extra) = (.ok later, world) := by
  unfold harvestGenerated
  split
  · rename_i projectId
    split
    · have harvested : surprises.handler world (.harvest projectId workDir) =
        (surprises.answer world.waits (.harvest projectId workDir), world) := rfl
      unfold rescue
      rw [run_and_then, bind_is_and_then, run_and_then, run_perform, harvested]
      rcases surprises.answer world.waits (.harvest projectId workDir) with raised | cached
      · exact ⟨_, rfl⟩
      · exact ⟨_, rfl⟩
    · exact ⟨_, rfl⟩
  · exact ⟨_, rfl⟩

theorem ended_fields_terminal (kind : Kind) (subdir : String) (hasOutput : Bool) (logs : String)
    (exitCode : Int) (extra : Fields) (finished : Nat) (stored : Fields) :
    (stored.override (endedFields kind subdir hasOutput logs exitCode extra
      finished)).isTerminal = true := by
  unfold endedFields
  split
  · rfl
  split
  · rfl
  · rfl

theorem package_runs (settings : Settings) (jobId : String) (kind : Kind) (listFiles : Bool)
    (projectId : Option String) (logs : String) (exitCode : Int)
    (unsettled : world.record.isTerminal = false) :
    ∃ outcome after,
      run surprises.handler world
          (packageOutput settings jobId kind sandbox listFiles projectId logs exitCode) =
        (outcome, after) ∧ after.callbackReads = world.callbackReads ∧
      (after.record.isTerminal = true ↔
        surprises.PackageSettles (settings.workDir jobId ++ sandbox.outputSubdir)
          (settings.jobDir jobId ++ ["output.zip"]) sandbox world.waits) := by
  -- Once it is known what there is to zip and the zipping has gone well, the job is settled.
  have settles : ∀ (hasOutput : Bool) (zipped : Fields), ∃ outcome after,
      run surprises.handler world (do
          let extra ← harvestGenerated kind projectId (settings.workDir jobId) exitCode zipped
          let finished ← now
          storeUpdate (endedFields kind ("/".intercalate sandbox.outputSubdir) hasOutput logs
            exitCode extra finished)) = (outcome, after) ∧
        after.callbackReads = world.callbackReads ∧ after.record.isTerminal = true := by
    intro hasOutput zipped
    obtain ⟨extra, harvested⟩ := @harvest_runs surprises world kind projectId
      (settings.workDir jobId) exitCode zipped
    rw [bind_is_and_then, run_and_then, harvested]
    exact ⟨_, _, rfl, rfl, ended_fields_terminal ..⟩
  unfold packageOutput Surprises.PackageSettles
  dsimp only
  rw [bind_is_and_then, run_and_then, present_runs]
  rcases surprises.answer world.waits
    (.isDir (settings.workDir jobId ++ sandbox.outputSubdir)) with raised | (_ | _)
  · refine ⟨_, _, rfl, rfl, iff_of_false (by simp [unsettled]) ?_⟩
    rintro ⟨⟨_, impossible⟩, -⟩
    cases impossible
  · simp only [on_value_ok]
    rw [bind_is_and_then, run_and_then, zip_runs]
    obtain ⟨outcome, after, runs, reads, terminal⟩ := settles false {}
    exact ⟨outcome, after, runs, reads, iff_of_true terminal ⟨⟨_, rfl⟩, nofun⟩⟩
  · dsimp only
    rcases surprises.answer world.waits
      (.isLink (settings.workDir jobId ++ sandbox.outputSubdir)) with raised | (_ | _)
    · refine ⟨_, _, rfl, rfl, iff_of_false (by simp [unsettled]) ?_⟩
      rintro ⟨-, links⟩
      obtain ⟨⟨_, impossible⟩, -⟩ := links rfl
      cases impossible
    · simp only [Bool.not_false, on_value_ok]
      rw [bind_is_and_then, run_and_then, zip_runs]
      simp only [if_true]
      rcases surprises.answer world.waits (.zipDir (settings.workDir jobId ++ sandbox.outputSubdir)
        (settings.jobDir jobId ++ ["output.zip"]) sandbox.skipTopLevelDotfiles) with raised | names
      · refine ⟨_, _, rfl, rfl, iff_of_false (by simp [unsettled]) ?_⟩
        rintro ⟨-, links⟩
        obtain ⟨-, zips⟩ := links trivial
        obtain ⟨_, impossible⟩ := zips trivial
        cases impossible
      · obtain ⟨outcome, after, runs, reads, terminal⟩ := settles true
          { files := if listFiles then some names else none }
        exact ⟨outcome, after, runs, reads, iff_of_true terminal
          ⟨⟨_, rfl⟩, fun _ => ⟨⟨_, rfl⟩, fun _ => ⟨_, rfl⟩⟩⟩⟩
    · simp only [Bool.not_true, on_value_ok]
      rw [bind_is_and_then, run_and_then, zip_runs]
      obtain ⟨outcome, after, runs, reads, terminal⟩ := settles false {}
      exact ⟨outcome, after, runs, reads, iff_of_true terminal
        ⟨⟨_, rfl⟩, fun _ => ⟨⟨_, rfl⟩, nofun⟩⟩⟩

theorem volumes_run (kind : Kind) (projectId : Option String) (workDir hostWork : Path) :
    ∃ volumes, run surprises.handler world (prepareVolumes kind projectId workDir hostWork) =
      (.ok volumes, world) := by
  unfold prepareVolumes
  split
  · exact ⟨_, rfl⟩
  · rename_i projectId
    have touched : surprises.handler world (.touch projectId) =
      (surprises.answer world.waits (.touch projectId), world) := rfl
    have harvested : surprises.handler world (.harvest projectId workDir) =
      (surprises.answer world.waits (.harvest projectId workDir), world) := rfl
    have mounted : surprises.handler world (.mounts projectId workDir) =
      (surprises.answer world.waits (.mounts projectId workDir), world) := rfl
    unfold rescue
    rw [run_and_then, bind_is_and_then, run_and_then, run_perform, touched]
    rcases surprises.answer world.waits (.touch projectId) with raised | _
    · exact ⟨_, rfl⟩
    simp only [on_value_ok]
    split
    · rw [bind_is_and_then, run_and_then, run_perform, harvested]
      rcases surprises.answer world.waits (.harvest projectId workDir) with raised | _
      · exact ⟨_, rfl⟩
      simp only [on_value_ok]
      rw [bind_is_and_then, run_and_then, run_perform, mounted]
      rcases surprises.answer world.waits (.mounts projectId workDir) with raised | volumes
      · exact ⟨_, rfl⟩
      · exact ⟨_, rfl⟩
    · exact ⟨_, rfl⟩

theorem begun_runs (settings : Settings) (jobId : String) (kind : Kind) (command : String)
    (listFiles : Bool) (projectId : Option String) (hostWork : Path) (fresh : world.waits = 0)
    (unsettled : world.record.isTerminal = false) :
    ∃ outcome after,
      run surprises.handler world (do
          jobCall (.chmod (settings.workDir jobId))
          let volumes ← prepareVolumes kind projectId (settings.workDir jobId) hostWork
          jobCall .fromEnv
          match ← superviseContainer settings kind sandbox
              (runKwargs settings command sandbox volumes) with
          | none => return
          | some (logs, exitCode) =>
              packageOutput settings jobId kind sandbox listFiles projectId logs exitCode) =
        (outcome, after) ∧ after.callbackReads = world.callbackReads ∧
      (after.record.isTerminal = true ↔
        Returns (surprises.answer 0 (.chmod (settings.workDir jobId))) ∧
          Returns (surprises.answer 0 .fromEnv) ∧
          surprises.ContainerSettles settings (settings.workDir jobId ++ sandbox.outputSubdir)
            (settings.jobDir jobId ++ ["output.zip"]) sandbox) := by
  have opened : surprises.handler world (.chmod (settings.workDir jobId)) =
    (surprises.answer world.waits (.chmod (settings.workDir jobId)), world) := rfl
  have connected : surprises.handler world .fromEnv =
    (surprises.answer world.waits .fromEnv, world) := rfl
  have raises : ∀ {Answer : Type} {raised : Raised},
      ¬ Returns (.error raised : Except Raised Answer) := nofun
  rw [bind_is_and_then, run_and_then, run_perform, opened, fresh]
  rcases surprises.answer 0 (.chmod (settings.workDir jobId)) with raised | _
  · exact ⟨_, _, rfl, rfl, iff_of_false (by simp [unsettled]) fun settles => raises settles.1⟩
  simp only [on_value_ok]
  obtain ⟨volumes, prepared⟩ := @volumes_run surprises world kind projectId
    (settings.workDir jobId) hostWork
  rw [bind_is_and_then, run_and_then, prepared]
  simp only [on_value_ok]
  rw [bind_is_and_then, run_and_then, run_perform, connected, fresh]
  rcases surprises.answer 0 .fromEnv with raised | _
  · exact ⟨_, _, rfl, rfl, iff_of_false (by simp [unsettled]) fun settles => raises settles.2.1⟩
  simp only [on_value_ok]
  obtain ⟨outcome, after, runs, reads, outer⟩ := @supervised_runs surprises world
    (settings.workDir jobId ++ sandbox.outputSubdir) (settings.jobDir jobId ++ ["output.zip"])
    sandbox settings kind (runKwargs settings command sandbox volumes) fresh unsettled
  have returned : ∀ {Answer : Type} {value : Answer}, Returns (.ok value : Except Raised Answer) :=
    ⟨_, rfl⟩
  rw [bind_is_and_then, run_and_then, runs]
  simp only [returned, true_and]
  rcases outcome with raised | (_ | ⟨logs, exitCode⟩)
  · exact ⟨_, _, rfl, reads, outer⟩
  · exact ⟨_, _, rfl, reads, iff_of_true outer.1 outer.2⟩
  · obtain ⟨same, settles⟩ := outer
    obtain ⟨packaged, last, ran, lastReads, ends⟩ := @package_runs surprises after sandbox settings
      jobId kind listFiles projectId logs exitCode (by rw [same]; exact unsettled)
    exact ⟨packaged, last, ran, lastReads.trans reads, ends.trans settles.symm⟩

theorem sandboxed_runs (settings : Settings) (jobId : String) (kind : Kind) (command : String)
    (listFiles : Bool) (fresh : world.waits = 0) :
    ∃ outcome after,
      run surprises.handler world
          (runSandboxed settings jobId kind command sandbox listFiles) = (outcome, after) ∧
        after.callbackReads = world.callbackReads ∧
        (after.record.isTerminal = true ↔ surprises.Settling settings jobId sandbox) := by
  unfold runSandboxed Surprises.Settling
  cases host : settings.hostDataDir with
  | none => exact ⟨_, _, rfl, rfl, iff_of_true rfl (.inl rfl)⟩
  | some hostDataDir =>
      have looked : surprises.handler world (.hgetall .preRun) =
        (.ok (some { world.record with cancelRequested := some (surprises.flagged world.waits) }),
          world) := rfl
      dsimp only
      rw [bind_is_and_then, run_and_then, storeGet, run_perform, looked]
      rw [fresh]
      cases flagged : surprises.flagged 0 with
      | true => exact ⟨_, _, rfl, rfl, iff_of_true rfl (.inr (.inl rfl))⟩
      | false =>
          simp only [on_value_ok, Option.getD_some]
          have unflagged : Fields.cancelled { world.record with cancelRequested := some false } =
            false := rfl
          rw [unflagged]
          simp only [Bool.false_eq_true, if_false]
          simp only [reduceCtorEq, false_or]
          exact @begun_runs surprises (world.write _) sandbox settings jobId kind command listFiles _
            (hostDataDir ++ ["jobs", jobId, "work"]) fresh rfl

/-! ## The callback, and the run as a whole -/

/-- The phase of a run that has no status left to write. -/
def Closing (status : Option Status) (world : Lonely) (phase : WorkerPhase) : Prop :=
  phase.stage = .settled .failed ∧ world.record.status = status ∧
    world.callbackReads = if phase.reported then [status] else []

theorem closing_plays (status : Option Status) (world : Lonely) (phase : WorkerPhase)
    (request : JobCall) (closing : Closing status world phase)
    (admitted : (workerProtocol true false).admits phase request) :
    ∃ later, (workerProtocol true false).step phase request
        (surprises.handler world request).1 later ∧
      Closing status (surprises.handler world request).2 later := by
  obtain ⟨stage, shows, reads⟩ := closing
  have foreign := surprises.foreign world.waits
  cases request
  case hgetall reader =>
      cases reader with
      | load => cases admitted
      | preRun => simp [workerProtocol, workerAdmits, stage] at admitted
      | poll => simp [workerProtocol, workerAdmits, stage] at admitted
      | afterRun => exact ⟨phase, ⟨_, rfl, rfl⟩, stage, shows, reads⟩
      | sendCallback =>
          refine ⟨{ phase with reported := true }, ⟨_, rfl, rfl⟩, stage, shows, ?_⟩
          have unreported : phase.reported = false := admitted.1
          simp [Surprises.handler, Lonely.noteRead, reads, unreported, shows]
  case hset fields =>
      have noStatus : fields.status = none := by
        obtain ⟨-, legal⟩ := admitted
        cases writes : fields.status with
        | none => rfl
        | some written => cases written <;> simp [writes, settles, stage] at legal
      refine ⟨phase, ⟨rfl, by simp [afterWrite, noStatus]⟩, stage, ?_, reads⟩
      simp [Surprises.handler, Lonely.write, noStatus, shows]
  case takeFromQueue => simp [workerProtocol, workerAdmits, stage] at admitted
  case time => exact ⟨phase, ⟨⟨_, rfl⟩, rfl⟩, stage, shows, reads⟩
  case containersRun kwargs =>
      exact ⟨phase, ⟨⟨surprises.startedForeign, (by simp)⟩, rfl⟩, stage, shows, reads⟩
  case expire | enqueue | fetchJob | cancelJob => cases admitted
  all_goals exact ⟨phase, ⟨⟨foreign _, (by simp)⟩, rfl⟩, stage, shows, reads⟩

/-- The record ends in a terminal status, and that is what `send_callback` has
read, once. -/
def SettlesAndReports (after : Lonely) : Prop :=
  after.record.isTerminal = true ∧ after.callbackReads = [after.record.status]

/-- A run settles its job, and reports it settled, exactly under the answers
listed by `Settling`. -/
theorem run_settles_iff (surprises : Surprises) (settings : Settings) (jobId : String) (kind : Kind)
    (command : String) (sandbox : Sandbox) (listFiles : Bool) (record : Fields) :
    SettlesAndReports (run surprises.handler { record }
        (runJob settings jobId kind command sandbox listFiles)).2 ↔
      surprises.Settling settings jobId sandbox := by
  obtain ⟨outcome, ended, runs, reads, settles⟩ := @sandboxed_runs surprises { record } sandbox
    settings jobId kind command listFiles rfl
  have closing : Closing ended.record.status ended { stage := .settled .failed } :=
    ⟨rfl, rfl, reads⟩
  obtain ⟨phase, ⟨-, same, callback⟩, reported⟩ := run_delivers surprises.handler
    (Closing ended.record.status) _ (closing_plays ended.record.status) _ ended _ closing
    (cleanup_follows settings jobId (by simp) rfl)
  have unchanged : ∀ (world : Lonely) (cleaned : Except Raised Unit),
      (run surprises.handler world (onValue (fun _ => .done outcome) cleaned)).2 = world := by
    intro world cleaned
    cases cleaned <;> rfl
  unfold runJob ensuring
  rw [run_and_then, runs, run_and_then, unchanged, ← settles]
  subst reported
  rw [if_pos rfl] at callback
  unfold SettlesAndReports Fields.isTerminal
  dsimp only at same callback ⊢
  rw [callback, same]
  exact and_iff_left rfl

/-- A Docker daemon that refuses to run the container, for another reason than
the image. -/
def refusing : Surprises where
  answer _ request := (obliging .persistent { clock := 0 } request).1
  started := .error { kind := .apiError }
  flagged _ := false
  clock _ := 0
  foreign := by
    rintro k request raised answered
    cases request
    case fetchJob => cases answered; decide
    all_goals cases answered
  startedForeign := by
    rintro _ ⟨⟩
    decide

/-- The exception of `containers.run` passes the `except ImageNotFound`: the job
stays `running`, and the callback says so. -/
theorem refused_container_leaves_running :
    ¬ ∀ (surprises : Surprises) (settings : Settings) (jobId : String) (kind : Kind)
      (command : String) (sandbox : Sandbox) (listFiles : Bool) (record : Fields),
      record.status = some .queued →
      SettlesAndReports (run surprises.handler { record }
        (runJob settings jobId kind command sandbox listFiles)).2 := by
  intro always
  have settled := always refusing plainBuild.settings "job" .build "pretext build web"
    plainBuild.settings.buildSandbox false { status := some .queued } rfl
  have running : (run refusing.handler { record := { status := some .queued } }
      (runJob plainBuild.settings "job" .build "pretext build web"
        plainBuild.settings.buildSandbox)).2.record.isTerminal = false := by decide +kernel
  have terminal := settled.1
  rw [running] at terminal
  cases terminal

end PretextBuildServer.WorkerSettlement
