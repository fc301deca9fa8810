import PretextBuildServer.WorkerProtocol
import Mathlib.Tactic.Linarith

/-!
# The worker's run keeps to its protocol

One lemma for each part of the run, in the order the source has them; a part
with an early return ends settled or goes on in the phase it began in.
-/

namespace PretextBuildServer.WorkerRun

open EffectProgram EffectProgram.Program
open PretextBuildServer.ServerSettings PretextBuildServer.JobRecord PretextBuildServer.JobCalls
open PretextBuildServer.StoreCalls PretextBuildServer.CompletionCallback
open PretextBuildServer.BuildWorker PretextBuildServer.JobSystem
open PretextBuildServer.WorkerProtocol

set_option autoImplicit false

section Run

variable {host faultless : Bool} {phase : WorkerPhase}

/-- How the waiting can end: with a status code, with a look that has seen the
flag, or with an exception that is no `_Cancelled`, without faults a timed-out
wait. -/
def WaitEnded (faultless : Bool) (phase after : WorkerPhase) :
    Except Raised (Option Int) → Prop
  | .ok _ => after = phase
  | .error raised =>
      if raised.kind = .cancelled then after = { phase with seen := true }
      else after = phase ∧ (faultless = true → raised.isTimedOutWait = true)

theorem wait_loop_follows (poll timeout : Int) (left : Nat) (elapsed : Int)
    (running : phase.stage = .running) (unseen : phase.seen = false)
    (enough : faultless = true → timeout ≤ elapsed + left * poll ∧ 0 < left) :
    Guarantees (workerProtocol host faultless) (WaitEnded faultless phase) phase
      (waitLoop poll timeout left elapsed) := by
  induction left generalizing elapsed with
  | zero =>
      refine ⟨rfl, fun faultlessly => ?_⟩
      have positive := (enough faultlessly).2
      omega
  | succ left induction =>
      refine guarantees_seq _ _ _ (quiet_perform host faultless phase (.wait poll) rfl) ?_
      rintro after reply ⟨rfl, foreign, faults⟩
      cases reply with
      | ok statusCode => rfl
      | error raised =>
          have notCancelled := foreign raised rfl
          have ended : WaitEnded faultless after after (.error raised) := by
            simp only [WaitEnded, if_neg notCancelled, true_and]
            exact faults
          simp only [on_failure_error]
          split
          · exact ended
          split
          · exact ended
          · rename_i timedOut inTime
            refine ⟨⟨running, unseen⟩, ?_⟩
            rintro reply _ ⟨record, rfl, rfl⟩
            simp only [done_and_then, on_value_ok]
            split
            · rename_i flagged
              simp [WaitEnded, raise, flagged]
            · rename_i unflagged
              have stays : { after with seen := (record.getD {}).cancelled } = after := by
                cases after
                simp_all
              rw [stays]
              refine induction _ fun faultlessly => ?_
              have bound := (enough faultlessly).1
              push_cast at bound
              have more : 0 < left := by
                by_contra none
                have zero : left = 0 := by omega
                subst zero
                simp at bound
                omega
              constructor
              · linarith
              · exact more

theorem wait_follows (settings : Settings) (timeout : Int)
    (running : phase.stage = .running) (unseen : phase.seen = false)
    (pollable : faultless = true → 0 < settings.buildPollInterval) :
    Guarantees (workerProtocol host faultless) (WaitEnded faultless phase) phase
      (waitForContainer settings timeout) := by
  unfold waitForContainer
  dsimp only
  split
  · rename_i positive
    refine wait_loop_follows _ _ _ _ running unseen fun _ => ?_
    simpa using poll_count_enough _ timeout positive
  · rename_i negative
    simp only [raise, guarantees_done, WaitEnded]
    exact ⟨trivial, fun faultlessly => absurd (pollable faultlessly) negative⟩

/-- A phase in which the job is settled and the callback still to come. -/
def Settled (phase : WorkerPhase) : Prop :=
  phase.reported = false ∧ ∃ status, phase.stage = .settled status

/-- A phase a failed call can leave behind: the run has begun, and the callback
is still to come. -/
def Failed (faultless : Bool) (phase : WorkerPhase) : Prop :=
  faultless = false ∧ phase.reported = false ∧ phase.stage ≠ .waiting

theorem settles_terminal {status : Status} (legal : settles host faultless phase status) :
    status.terminal = true := by
  unfold settles at legal
  cases stage : phase.stage with
  | waiting | settled _ => simp [stage] at legal
  | taken => simp only [stage] at legal; rw [legal.2]; rfl
  | looked => simp only [stage] at legal; rw [legal.2]; rfl
  | running =>
      simp only [stage] at legal
      split at legal
      · rcases legal with rfl | ⟨-, rfl⟩ <;> rfl
      · rcases legal with rfl | rfl <;> rfl

theorem settle_admitted {status : Status} (fields : Fields) (writes : fields.status = some status)
    (unreported : phase.reported = false) (legal : settles host faultless phase status)
    (finished : fields.finishedAt.isSome = true)
    (others : LeavesOthers fields) : admitsWrite host faultless phase fields := by
  have terminal := settles_terminal legal
  refine ⟨others, ?_⟩
  rw [writes]
  cases status with
  | queued | running => cases terminal
  | success | failed | cancelled => exact ⟨unreported, legal, finished⟩

theorem settle_leads {status : Status} (fields : Fields) (writes : fields.status = some status)
    (legal : settles host faultless phase status) :
    afterWrite phase fields = { phase with stage := .settled status } := by
  have terminal := settles_terminal legal
  unfold afterWrite
  rw [writes]
  cases status with
  | queued | running => cases terminal
  | success | failed | cancelled => rfl

theorem settle_guarantees (status : Status) (fields : Nat → Fields)
    (writes : ∀ clock, (fields clock).status = some status)
    (unreported : phase.reported = false) (legal : settles host faultless phase status)
    (finished : ∀ clock, (fields clock).finishedAt.isSome = true)
    (others : ∀ clock, LeavesOthers (fields clock)) :
    Guarantees (workerProtocol host faultless)
      (fun after reply => reply = .ok () ∧ Settled after)
      phase (now >>= fun clock => storeUpdate (fields clock)) := by
  refine guarantees_mono _ _ ?_ (stamped_update_guarantees fields
    (fun clock => settle_admitted _ (writes clock) unreported legal (finished clock) (others clock))
    (fun clock => settle_leads _ (writes clock) legal))
  rintro after reply ⟨ok, rfl⟩
  exact ⟨ok, unreported, status, rfl⟩

theorem stop_follows (status : Status) (note : String) (running : phase.stage = .running)
    (unreported : phase.reported = false) (legal : settles host faultless phase status) :
    Guarantees (workerProtocol host faultless)
      (fun after outcome => (outcome = .ok () ∧ Settled after) ∨
        ((∃ raised, outcome = .error raised) ∧ faultless = false ∧ after = phase))
      phase (stopContainer status note) := by
  refine guarantees_seq _ _ _ (quiet_perform host faultless phase .kill rfl) ?_
  rintro after reply ⟨rfl, -, faults⟩
  cases reply with
  | error raised => exact .inr ⟨⟨_, rfl⟩, by simpa [Faultless] using faults, rfl⟩
  | ok _ =>
      refine guarantees_seq _ _ _ (quiet_perform host faultless after .logs rfl) ?_
      rintro after reply ⟨rfl, -, faults⟩
      cases reply with
      | error raised => exact .inr ⟨⟨_, rfl⟩, by simpa [Faultless] using faults, rfl⟩
      | ok logs =>
          exact guarantees_mono _ _ (fun later outcome settled => .inl settled)
            (settle_guarantees status _ (fun _ => rfl) unreported legal (fun _ => rfl) fun _ => ⟨rfl, rfl, rfl, rfl, rfl⟩)

/-- How a part of the run with early returns can end. -/
def PartEnded {Result : Type} (faultless : Bool) (phase after : WorkerPhase) :
    Except Raised (Option Result) → Prop
  | .ok none => Settled after
  | .ok (some _) => after = phase
  | .error _ => Failed faultless after

/-- Where the inner `try` can raise, a container is running or has been. -/
def InnerEnded {Result : Type} (faultless : Bool) (phase after : WorkerPhase) :
    Except Raised (Option Result) → Prop
  | .ok none => Settled after
  | .ok (some _) => after = phase
  | .error _ => faultless = false ∧ after.reported = false ∧ after.stage = .running

theorem await_follows (settings : Settings) (kind : Kind) (sandbox : Sandbox)
    (running : phase.stage = .running) (unseen : phase.seen = false)
    (unreported : phase.reported = false)
    (pollable : faultless = true → 0 < settings.buildPollInterval) :
    Guarantees (workerProtocol host faultless) (InnerEnded faultless phase) phase
      (awaitContainer settings kind sandbox) := by
  refine guarantees_seq _ _ _ (wait_follows settings sandbox.timeout running unseen pollable) ?_
  intro after waited ended
  cases waited with
  | ok statusCode =>
      obtain rfl : after = phase := ended
      refine guarantees_seq _ _ _ (quiet_perform host faultless after .logs rfl) ?_
      rintro later reply ⟨rfl, -, faults⟩
      cases reply with
      | error raised => exact ⟨by simpa [Faultless] using faults, unreported, running⟩
      | ok logs => rfl
  | error raised =>
      dsimp only
      by_cases noticed : raised.kind = .cancelled
      · simp only [WaitEnded, if_pos noticed] at ended
        subst ended
        simp only [if_pos noticed]
        refine guarantees_seq _ _ _ (stop_follows .cancelled _ running unreported ?_) ?_
        · simp [settles, running]
        · rintro later outcome (⟨rfl, settled⟩ | ⟨⟨_, rfl⟩, fault, rfl⟩)
          · exact settled
          · exact ⟨fault, unreported, running⟩
      · simp only [WaitEnded, if_neg noticed] at ended
        obtain ⟨rfl, faults⟩ := ended
        simp only [if_neg noticed]
        split
        · refine guarantees_seq _ _ _ (stop_follows .failed _ running unreported ?_) ?_
          · simp [settles, running, unseen]
          · rintro later outcome (⟨rfl, settled⟩ | ⟨⟨_, rfl⟩, fault, rfl⟩)
            · exact settled
            · exact ⟨fault, unreported, running⟩
        · rename_i notTimedOut
          exact ⟨by simpa [notTimedOut] using faults, unreported, running⟩

theorem image_missing_follows (settings : Settings) (raised : Raised)
    (fault : faultless = false) (running : phase.stage = .running)
    (unreported : phase.reported = false) (original : WorkerPhase) :
    Guarantees (workerProtocol host faultless) (PartEnded faultless original) phase
      (imageMissing settings raised) := by
  unfold imageMissing
  split
  · rw [← bind_assoc]
    refine guarantees_seq _ _ _ (settle_guarantees .failed _ (fun _ => rfl)
      unreported ?_ (fun _ => rfl) fun _ => ⟨rfl, rfl, rfl, rfl, rfl⟩) ?_
    · simp only [settles, running]
      split <;> simp [fault]
    · rintro after outcome ⟨rfl, settled⟩
      exact settled
  · exact ⟨fault, unreported, by simp [running]⟩


theorem remove_follows :
    Guarantees (workerProtocol host faultless)
      (fun after outcome => after = phase ∧ (faultless = true → outcome = .ok ()))
      phase removeContainer := by
  refine guarantees_seq _ _ _ (quiet_perform host faultless phase .remove rfl) ?_
  rintro after reply ⟨rfl, -, faults⟩
  cases reply with
  | ok _ => exact ⟨rfl, fun _ => rfl⟩
  | error raised =>
      have faulty : faultless = false := by simpa [Faultless] using faults
      simp only [on_failure_error]
      split
      · exact ⟨rfl, fun _ => rfl⟩
      · exact ⟨rfl, by simp [faulty]⟩

/-- The `finally` of the outer `try` does not undo what the body has settled. -/
theorem supervise_follows (settings : Settings) (kind : Kind) (sandbox : Sandbox)
    (kwargs : RunKwargs) (running : phase.stage = .running) (unseen : phase.seen = false)
    (unreported : phase.reported = false)
    (pollable : faultless = true → 0 < settings.buildPollInterval) :
    Guarantees (workerProtocol host faultless) (PartEnded faultless phase) phase
      (superviseContainer settings kind sandbox kwargs) := by
  refine guarantees_seq _ _ _ (quiet_perform host faultless phase (.containersRun kwargs) rfl) ?_
  rintro started reply ⟨rfl, -, faults⟩
  cases reply with
  | error raised =>
      have faulty : faultless = false := by simpa [Faultless] using faults
      exact image_missing_follows settings raised faulty running unreported _
  | ok _ =>
      refine guarantees_seq _ _ _ (?_ : Guarantees _ (PartEnded faultless started) started _) ?_
      · refine guarantees_seq _ _ _
          (await_follows settings kind sandbox running unseen unreported pollable) ?_
        rintro after (raised | (_ | ended)) inner
        · exact image_missing_follows settings raised inner.1 inner.2.2 inner.2.1 _
        · exact inner
        · exact inner
      · intro after outcome body
        refine guarantees_seq _ _ _ remove_follows ?_
        rintro later (raised | _) ⟨rfl, removed⟩
        · have faulty : faultless = false := by simpa using removed
          rcases outcome with raised | (_ | ended)
          · exact body
          · obtain ⟨unreported, status, settled⟩ := body
            exact ⟨faulty, unreported, by simp [settled]⟩
          · obtain rfl : later = started := body
            exact ⟨faulty, unreported, by simp [running]⟩
        · exact body

/-- A part of the run that changes no phase, and raises only where calls fail. -/
def Undisturbed {Result : Type} (faultless : Bool) (phase after : WorkerPhase)
    (outcome : Except Raised Result) : Prop :=
  after = phase ∧ (faultless = true → ∃ value, outcome = .ok value)

/-- How the run as a whole can end. -/
def RunEnded (faultless : Bool) (after : WorkerPhase) : Except Raised Unit → Prop
  | .ok _ => Settled after
  | .error _ => Failed faultless after

theorem undisturbed_then {Result : Type} (first : JobProgram Result)
    (next : Result → JobProgram Unit) (begun : phase.stage ≠ .waiting)
    (unreported : phase.reported = false)
    (part : Guarantees (workerProtocol host faultless) (Undisturbed faultless phase) phase first)
    (rest : ∀ value, Guarantees (workerProtocol host faultless) (RunEnded faultless) phase
      (next value)) :
    Guarantees (workerProtocol host faultless) (RunEnded faultless) phase (first >>= next) := by
  refine guarantees_seq _ _ _ part ?_
  rintro after (raised | value) ⟨rfl, faults⟩
  · exact ⟨by simpa using faults, unreported, begun⟩
  · exact rest value

theorem undisturbed_call (request : JobCall) (isQuiet : quiet request = true)
    (fails : ∀ raised, ¬ Faultless request (.error raised)) :
    Guarantees (workerProtocol host faultless) (Undisturbed faultless phase) phase
      (jobCall request) := by
  refine guarantees_mono _ _ ?_ (quiet_perform host faultless phase request isQuiet)
  rintro after (raised | value) ⟨rfl, -, faults⟩
  · exact ⟨rfl, fun faultlessly => absurd (faults faultlessly) (fails raised)⟩
  · exact ⟨rfl, fun _ => ⟨value, rfl⟩⟩

theorem undisturbed_done {Result : Type} (value : Result) :
    Undisturbed faultless phase phase (.ok value) :=
  ⟨rfl, fun _ => ⟨value, rfl⟩⟩

theorem undisturbed_rescue {Result : Type} (body : JobProgram Result) (value : Result)
    (only : MakesOnly (fun request => quiet request = true) body) :
    Guarantees (workerProtocol host faultless) (Undisturbed faultless phase) phase
      (rescue body fun _ => pure value) := by
  refine guarantees_seq _ _ _ (quiet_guarantees host faultless phase body only) ?_
  rintro after (raised | result) rfl
  · exact ⟨rfl, fun _ => ⟨_, rfl⟩⟩
  · exact ⟨rfl, fun _ => ⟨_, rfl⟩⟩

theorem volumes_follow (kind : Kind) (projectId : Option String) (workDir hostWork : Path) :
    Guarantees (workerProtocol host faultless) (Undisturbed faultless phase) phase
      (prepareVolumes kind projectId workDir hostWork) := by
  cases projectId with
  | none => exact undisturbed_done _
  | some projectId =>
      refine undisturbed_rescue _ _ ⟨rfl, fun touched => ?_⟩
      cases touched with
      | error raised => trivial
      | ok _ =>
          simp only [done_and_then, on_value_ok]
          split
          · refine ⟨rfl, fun seeded => ?_⟩
            cases seeded with
            | error raised => trivial
            | ok _ => exact ⟨rfl, fun mounted => by cases mounted <;> trivial⟩
          · trivial

theorem present_output_follows (outputDir : Path) :
    Guarantees (workerProtocol host faultless) (Undisturbed faultless phase) phase
      (presentOutput outputDir) := by
  refine guarantees_seq _ _ _
    (@undisturbed_call host faultless phase (.isDir outputDir) rfl fun _ => id) ?_
  rintro after (raised | isDir) ⟨rfl, faults⟩
  · exact ⟨rfl, by simpa using faults⟩
  · simp only [on_value_ok]
    split
    · refine guarantees_seq _ _ _ (undisturbed_call (.isLink outputDir) rfl fun _ => id) ?_
      rintro later (raised | isLink) ⟨rfl, faults⟩
      · exact ⟨rfl, by simpa using faults⟩
      · exact undisturbed_done (!isLink)
    · exact undisturbed_done false

theorem zip_output_follows (outputDir zipPath : Path) (sandbox : Sandbox)
    (listFiles hasOutput : Bool) :
    Guarantees (workerProtocol host faultless)
      (fun after outcome => Undisturbed faultless phase after outcome ∧
        ∀ fields, outcome = .ok fields → LeavesOthers fields)
      phase (zipOutput outputDir zipPath sandbox listFiles hasOutput) := by
  unfold zipOutput
  split
  · refine guarantees_seq _ _ _
      (@undisturbed_call host faultless phase (.zipDir outputDir zipPath _) rfl fun _ => id) ?_
    rintro after (raised | names) ⟨rfl, faults⟩
    · exact ⟨⟨rfl, by simpa using faults⟩, by simp⟩
    · exact ⟨undisturbed_done _, by rintro fields ⟨⟩; exact ⟨rfl, rfl, rfl, rfl, rfl⟩⟩
  · exact ⟨undisturbed_done _, by rintro fields ⟨⟩; exact ⟨rfl, rfl, rfl, rfl, rfl⟩⟩

theorem harvest_follows (kind : Kind) (projectId : Option String) (workDir : Path)
    (exitCode : Int) (extra : Fields) (others : LeavesOthers extra) :
    Guarantees (workerProtocol host faultless)
      (fun after outcome => Undisturbed faultless phase after outcome ∧
        ∀ fields, outcome = .ok fields → LeavesOthers fields)
      phase (harvestGenerated kind projectId workDir exitCode extra) := by
  have kept : ∀ {cached : Option (List String)},
      LeavesOthers { extra with cachedFiles := cached } :=
    ⟨others.kind, others.target, others.createdAt, others.callbackUrl, others.cancelRequested⟩
  have untouched : Undisturbed faultless phase phase (.ok extra) ∧
      ∀ fields, (.ok extra : Except Raised Fields) = .ok fields → LeavesOthers fields :=
    ⟨undisturbed_done _, by rintro fields ⟨⟩; exact others⟩
  unfold harvestGenerated
  split
  · split
    · refine guarantees_seq _ _ _ (?_ : Guarantees _ (fun after outcome => after = phase ∧
          ∀ fields, outcome = .ok fields → LeavesOthers fields) phase _) ?_
      · refine guarantees_seq _ _ _
          (quiet_perform host faultless phase (.harvest _ workDir) rfl) ?_
        rintro after (raised | cached) ⟨rfl, -⟩
        · exact ⟨rfl, by simp⟩
        · exact ⟨rfl, by rintro fields ⟨⟩; exact kept⟩
      · rintro after (raised | fields) ⟨rfl, left⟩
        · exact untouched
        · exact ⟨undisturbed_done _, left⟩
    · exact untouched
  · exact untouched

theorem ended_fields_settle (kind : Kind) (subdir : String) (hasOutput : Bool) (logs : String)
    (exitCode : Int) (extra : Fields) (others : LeavesOthers extra) :
    ∃ status, (status = .success ∨ status = .failed) ∧ ∀ finished,
      let fields := endedFields kind subdir hasOutput logs exitCode extra finished
      fields.status = some status ∧ fields.finishedAt.isSome = true ∧ LeavesOthers fields := by
  have kept : ∀ (status : Status) (finished : Nat) (log : String),
      LeavesOthers { extra with
        status := some status, finishedAt := some finished, log := some log,
        exitCode := some exitCode } := fun _ _ _ =>
    ⟨others.kind, others.target, others.createdAt, others.callbackUrl, others.cancelRequested⟩
  by_cases failing : exitCode ≠ 0
  · refine ⟨.failed, .inr rfl, fun finished => ?_⟩
    unfold endedFields
    rw [if_pos failing]
    exact ⟨rfl, rfl, kept ..⟩
  · cases hasOutput with
    | false =>
        refine ⟨.failed, .inr rfl, fun finished => ?_⟩
        unfold endedFields
        rw [if_neg failing]
        exact ⟨rfl, rfl, rfl, rfl, rfl, rfl, rfl⟩
    | true =>
        refine ⟨.success, .inl rfl, fun finished => ?_⟩
        unfold endedFields
        rw [if_neg failing]
        exact ⟨rfl, rfl, kept ..⟩

theorem package_follows (settings : Settings) (jobId : String) (kind : Kind) (sandbox : Sandbox)
    (listFiles : Bool) (projectId : Option String) (logs : String) (exitCode : Int)
    (running : phase.stage = .running) (unseen : phase.seen = false)
    (unreported : phase.reported = false) :
    Guarantees (workerProtocol host faultless) (RunEnded faultless) phase
      (packageOutput settings jobId kind sandbox listFiles projectId logs exitCode) := by
  have begun : phase.stage ≠ .waiting := by simp [running]
  have failed : ∀ {Result : Type} {after : WorkerPhase} {raised : Raised},
      Undisturbed faultless phase after (.error raised : Except Raised Result) →
      Failed faultless after := by
    rintro Result after raised ⟨rfl, faults⟩
    exact ⟨by simpa using faults, unreported, begun⟩
  refine guarantees_seq _ _ _ (present_output_follows _) ?_
  rintro after (raised | hasOutput) part
  · exact failed part
  obtain ⟨rfl, -⟩ := part
  refine guarantees_seq _ _ _ (zip_output_follows _ _ sandbox listFiles hasOutput) ?_
  rintro after (raised | zipped) ⟨part, others⟩
  · exact failed part
  obtain ⟨rfl, -⟩ := part
  refine guarantees_seq _ _ _ (harvest_follows kind projectId _ exitCode zipped
    (others zipped rfl)) ?_
  rintro after (raised | extra) ⟨part, others⟩
  · exact failed part
  obtain ⟨rfl, -⟩ := part
  obtain ⟨status, ended, fields⟩ := ended_fields_settle kind
    ("/".intercalate sandbox.outputSubdir) hasOutput logs exitCode extra (others extra rfl)
  refine guarantees_mono _ _ ?_ (settle_guarantees status _ (fun clock => (fields clock).1) unreported
    ?_ (fun clock => (fields clock).2.1) fun clock => (fields clock).2.2)
  · rintro later _ ⟨rfl, settled⟩
    exact settled
  · simpa [settles, running, unseen] using ended

theorem run_follows (settings : Settings) (jobId : String) (kind : Kind) (command : String)
    (sandbox : Sandbox) (listFiles : Bool)
    (hostSet : host = settings.hostDataDir.isSome) (fresh : phase.stage = .taken)
    (unreported : phase.reported = false)
    (pollable : faultless = true → 0 < settings.buildPollInterval) :
    Guarantees (workerProtocol host faultless) (RunEnded faultless) phase
      (runSandboxed settings jobId kind command sandbox listFiles) := by
  have settle : ∀ {phase : WorkerPhase} (status : Status) (fields : Nat → Fields),
      (∀ clock, (fields clock).status = some status) → phase.reported = false →
      settles host faultless phase status → (∀ clock, (fields clock).finishedAt.isSome = true) →
      (∀ clock, LeavesOthers (fields clock)) →
      Guarantees (workerProtocol host faultless) (RunEnded faultless) phase
        (now >>= fun clock => storeUpdate (fields clock)) := by
    intro phase status fields writes unreported legal finished others
    refine guarantees_mono _ _ ?_
      (settle_guarantees status fields writes unreported legal finished others)
    rintro after _ ⟨rfl, settled⟩
    exact settled
  unfold runSandboxed
  split
  · rename_i unset
    refine settle .failed _ (fun _ => rfl) unreported ?_ (fun _ => rfl) fun _ =>
      ⟨rfl, rfl, rfl, rfl, rfl⟩
    simp [settles, fresh, hostSet, unset]
  · rename_i hostDataDir set
    refine ⟨⟨by simp [hostSet, set], fresh⟩, ?_⟩
    rintro _ _ ⟨record, rfl, rfl⟩
    simp only [done_and_then, on_value_ok]
    split
    · rename_i flagged
      refine settle .cancelled _ (fun _ => rfl) unreported ?_ (fun _ => rfl) fun _ =>
        ⟨rfl, rfl, rfl, rfl, rfl⟩
      simp [settles, flagged]
    · rename_i unflagged
      have unseen : (record.getD {}).cancelled = false := by simpa using unflagged
      have running : Guarantees (workerProtocol host faultless)
          (fun after outcome => outcome = .ok () ∧
            after = { phase with stage := .running, seen := false })
          { phase with stage := .looked, seen := (record.getD {}).cancelled }
          (now >>= fun clock =>
            storeUpdate { status := some .running, startedAt := some clock }) := by
        refine stamped_update_guarantees _ (fun clock => ?_) fun clock => ?_
        · exact ⟨⟨rfl, rfl, rfl, rfl, rfl⟩, unreported, rfl, unseen, rfl⟩
        · simp [afterWrite, unseen]
      rw [← bind_assoc]
      refine guarantees_seq _ _ _ running ?_
      rintro after _ ⟨rfl, rfl⟩
      simp only [on_value_ok]
      have begun : Stage.running ≠ .waiting := by simp
      refine undisturbed_then _ _ begun unreported
        (undisturbed_call _ rfl fun _ => id) fun _ => ?_
      refine undisturbed_then _ _ begun unreported (volumes_follow ..) fun volumes => ?_
      refine undisturbed_then _ _ begun unreported
        (undisturbed_call _ rfl fun _ => id) fun _ => ?_
      refine guarantees_seq _ _ _
        (supervise_follows settings kind sandbox _ rfl rfl unreported pollable) ?_
      rintro after (raised | (_ | ⟨logs, exitCode⟩)) ended
      · exact ended
      · exact ended
      · obtain rfl := ended
        exact package_follows settings jobId kind sandbox listFiles _ logs exitCode rfl rfl
          unreported

/-- The `finally` reads the record, calls the callback and prunes; nothing it does
settles or unsettles the job. -/
theorem cleanup_follows (settings : Settings) (jobId : String) (begun : phase.stage ≠ .waiting)
    (unreported : phase.reported = false) :
    Guarantees (workerProtocol host faultless)
      (fun after _ => after = { phase with reported := true }) phase
      (do
        let data := (← storeGet .afterRun).getD {}
        sendCallback settings jobId
        jobCall .pruneExpiredJobs
        rescue
          (jobCall (.pruneAssetCache (Fields.namedProject data))) fun _ => return) := by
  refine ⟨begun, ?_⟩
  rintro _ _ ⟨record, rfl, rfl⟩
  simp only [done_and_then, on_value_ok]
  refine guarantees_seq _ _ _ (callback_follows settings jobId unreported begun) ?_
  rintro _ (raised | _) rfl
  · rfl
  refine quiet_guarantees host faultless _ _ ⟨rfl, fun pruned => ?_⟩
  cases pruned with
  | error raised => trivial
  | ok _ => exact ⟨rfl, fun evicted => by cases evicted <;> trivial⟩

theorem job_follows (settings : Settings) (jobId : String) (kind : Kind) (command : String)
    (sandbox : Sandbox) (listFiles : Bool) (hostSet : host = settings.hostDataDir.isSome)
    (fresh : phase.stage = .taken) (unreported : phase.reported = false)
    (pollable : faultless = true → 0 < settings.buildPollInterval) :
    Guarantees (workerProtocol host faultless) (fun after _ => WorkEnded faultless after) phase
      (runJob settings jobId kind command sandbox listFiles) := by
  refine guarantees_seq _ _ _ (run_follows settings jobId kind command sandbox listFiles hostSet
    fresh unreported pollable) ?_
  intro after outcome ran
  have state : after.reported = false ∧ after.stage ≠ .waiting ∧
      (faultless = true → ∃ status, after.stage = .settled status) := by
    rcases outcome with raised | _
    · obtain ⟨faulty, unreported, begun⟩ := ran
      exact ⟨unreported, begun, by simp [faulty]⟩
    · obtain ⟨unreported, status, settled⟩ := ran
      exact ⟨unreported, by simp [settled], fun _ => ⟨status, settled⟩⟩
  refine guarantees_seq _ _ _ (cleanup_follows settings jobId state.2.1 state.1) ?_
  rintro later (raised | _) rfl
  · exact ⟨rfl, state.2⟩
  · exact ⟨rfl, state.2⟩

/-- Every run of the worker keeps to the protocol, whatever its calls answer. -/
theorem work_follows (job : Job) (hostSet : host = job.settings.hostDataDir.isSome)
    (pollable : faultless = true → 0 < job.settings.buildPollInterval) :
    Guarantees (workerProtocol host faultless) (fun after _ => WorkEnded faultless after)
      { stage := .waiting } job.work := by
  refine ⟨rfl, ?_⟩
  rintro _ _ ⟨rfl, rfl⟩
  simp only [done_and_then, on_value_ok]
  have ran : Guarantees (workerProtocol host faultless)
      (fun after _ => WorkEnded faultless after) { stage := .taken } job.runFunction := by
    unfold Job.runFunction
    split
    · exact job_follows _ _ _ _ _ _ hostSet rfl rfl pollable
    · exact job_follows _ _ _ _ _ _ hostSet rfl rfl pollable
  refine guarantees_seq _ _ _ ran ?_
  intro after _ ended
  refine ⟨⟨ended.1, ended.2.1⟩, ?_⟩
  rintro reply _ ⟨-, rfl⟩
  exact ended

end Run

end PretextBuildServer.WorkerRun
