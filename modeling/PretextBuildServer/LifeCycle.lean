import PretextBuildServer.WorkerRun
import PretextBuildServer.RequestProtocols

/-!
# The life cycle of a job, in the abstract

The state machine behind the record: the status, the cancel flag, the place of
the job in RQ, and how far each party has got. `life_upholds` connects it to the
code: every call a party makes is one event here, or changes nothing here, so an
invariant of the events is an invariant of all interleavings. The record is
taken not to expire while the job is looked at.
-/

namespace PretextBuildServer.LifeCycle

open EffectProgram EffectProgram.Program InterleavedParties
open PretextBuildServer.ServerSettings PretextBuildServer.JobRecord PretextBuildServer.JobCalls
open PretextBuildServer.JobSystem PretextBuildServer.WorkerProtocol
open PretextBuildServer.WorkerRun PretextBuildServer.RequestProtocols

set_option autoImplicit false

structure Life where
  status : Option Status
  finished : Bool
  flagged : Bool
  rq : RqState
  taken : Bool
  preRunRead : Option Bool
  flagSeen : Bool
  callbackReads : List (Option Status)
  submission : SubmissionPhase
  worker : WorkerPhase
  cancels : Nat → CancelPhase

inductive Event where
  | quiet
  | create
  | store
  | enqueue
  | take
  | look
  | poll
  | begin
  | settle (status : Status)
  | report
  | finish
  | load (index : Nat)
  | flag (index : Nat)
  | fetch (index : Nat)
  | miss (index : Nat)
  | win (index : Nat)
  | lose (index : Nat)
  | cancel (index : Nat)
  | forget
  deriving DecidableEq

def Life.setCancel (life : Life) (index : Nat) (phase : CancelPhase) : Life :=
  { life with cancels := Function.update life.cancels index phase }

def Life.setStage (life : Life) (stage : Stage) : Life :=
  { life with worker := { life.worker with stage := stage } }

@[simp]
theorem Life.set_stage_stage (life : Life) (stage : Stage) :
    (life.setStage stage).worker.stage = stage := by
  rfl

def Life.seeFlag (life : Life) : Life :=
  { life with
    flagSeen := life.flagSeen || life.flagged
    worker := { life.worker with seen := life.flagged } }

@[simp]
theorem Life.see_flag_stage (life : Life) : life.seeFlag.worker.stage = life.worker.stage := by
  rfl

inductive LifeStep (host faultless : Bool) (life : Life) : Event → Life → Prop where
  | quiet : LifeStep host faultless life .quiet life
  | create (fresh : life.submission = .fresh) :
      LifeStep host faultless life .create
        { life with submission := .created, status := some .queued }
  | store (created : life.submission = .created) :
      LifeStep host faultless life .store { life with submission := .stored }
  | enqueue (stored : life.submission = .stored) :
      LifeStep host faultless life .enqueue { life with submission := .enqueued, rq := .queued }
  | take (waiting : life.worker.stage = .waiting) (queued : life.rq = .queued) :
      LifeStep host faultless life .take
        { life.setStage .taken with rq := .started, taken := true }
  | look (set : host = true) (taken : life.worker.stage = .taken) :
      LifeStep host faultless life .look
        { life.seeFlag.setStage .looked with preRunRead := some life.flagged }
  | poll (running : life.worker.stage = .running) (unseen : life.worker.seen = false) :
      LifeStep host faultless life .poll life.seeFlag
  | begin (unreported : life.worker.reported = false) (looked : life.worker.stage = .looked)
      (unseen : life.worker.seen = false) :
      LifeStep host faultless life .begin { life.setStage .running with status := some .running }
  | settle (status : Status) (unreported : life.worker.reported = false)
      (legal : settles host faultless life.worker status) :
      LifeStep host faultless life (.settle status)
        { life.setStage (.settled status) with status := some status, finished := true }
  | report (unreported : life.worker.reported = false) (begun : life.worker.stage ≠ .waiting) :
      LifeStep host faultless life .report
        { life with
          callbackReads := life.callbackReads ++ [life.status]
          worker := { life.worker with reported := true } }
  | finish (reported : life.worker.reported = true) (begun : life.worker.stage ≠ .waiting) :
      LifeStep host faultless life .finish { life with rq := .finished }
  | load (index : Nat) (start : life.cancels index = .start) :
      LifeStep host faultless life (.load index)
        (life.setCancel index (.loaded (life.status.map some)))
  | flag (index : Nat) (status : Option Status)
      (loaded : life.cancels index = .loaded (some status))
      (unfinished : status.any Status.terminal = false) :
      LifeStep host faultless life (.flag index)
        { life.setCancel index (.flagged (status == some .queued)) with flagged := true }
  | fetch (index : Nat) (flagged : life.cancels index = .flagged true)
      (known : life.rq ≠ .unknown) :
      LifeStep host faultless life (.fetch index) (life.setCancel index .fetched)
  | miss (index : Nat) (flagged : life.cancels index = .flagged true)
      (unknown : life.rq = .unknown) :
      LifeStep host faultless life (.miss index) (life.setCancel index .ended)
  | win (index : Nat) (fetched : life.cancels index = .fetched) (live : life.rq ≠ .canceled) :
      LifeStep host faultless life (.win index) { life.setCancel index .won with rq := .canceled }
  | lose (index : Nat) (fetched : life.cancels index = .fetched) (canceled : life.rq = .canceled) :
      LifeStep host faultless life (.lose index) (life.setCancel index .ended)
  | cancel (index : Nat) (won : life.cancels index = .won) :
      LifeStep host faultless life (.cancel index)
        { life.setCancel index .ended with status := some .cancelled, finished := true }
  | forget (past : life.rq = .finished ∨ life.rq = .canceled) :
      LifeStep host faultless life .forget { life with rq := .unknown }

/-! ## The code is an instance -/

abbrev Phase : Party → Type
  | .submission => SubmissionPhase
  | .worker => WorkerPhase
  | .cancel _ => CancelPhase

def jobProtocol (job : Job) (faultless : Bool) :
    (party : Party) → Machine JobCall.Answer Raised (Phase party)
  | .submission => submissionProtocol job.request.kind job.settings.jobTtl
  | .worker => workerProtocol job.settings.hostDataDir.isSome faultless
  | .cancel _ => cancelProtocol

def JobEnded (faultless : Bool) :
    (party : Party) → Phase party → Except Raised (Outcome party) → Prop
  | .submission => SubmissionEnded .enqueued
  | .worker => fun phase _ => WorkEnded faultless phase
  | .cancel _ => CancelEnded

def startPhases : (party : Party) → Phase party
  | .submission => SubmissionPhase.fresh
  | .worker => ({ stage := .waiting } : WorkerPhase)
  | .cancel _ => CancelPhase.start

theorem start_keeps (job : Job) (clock : Nat) (faultless : Bool)
    (pollable : faultless = true → 0 < job.settings.buildPollInterval) :
    Keeps (jobProtocol job faultless) (JobEnded faultless) startPhases (job.start clock) := by
  intro party
  cases party with
  | submission => exact submit_follows job
  | worker => exact work_follows job rfl pollable
  | cancel index => exact cancel_follows (job.endpoint index)

def lifeOf (world : JobWorld) (phases : (party : Party) → Phase party) : Life where
  status := world.status
  finished := world.finished
  flagged := world.flagged
  rq := world.rq
  taken := world.taken
  preRunRead := world.preRunRead
  flagSeen := world.flagSeen
  callbackReads := world.callbackReads
  submission := phases .submission
  worker := phases .worker
  cancels := fun index => phases (.cancel index)

/-- A record shows a status, and without one nobody has anything to go on. -/
def Recorded (world : JobWorld) (phases : (party : Party) → Phase party) : Prop :=
  match world.record with
  | some key => key.fields.status.isSome = true
  | none =>
      phases .submission = SubmissionPhase.fresh ∧
        phases .worker = ({ stage := .waiting } : WorkerPhase) ∧ world.rq = .unknown ∧
        ∀ index, phases (.cancel index) = CancelPhase.start ∨
          phases (.cancel index) = CancelPhase.loaded none

/-- The call of a cancel request that an event stands for. -/
def Concerns (party : Party) (request : JobCall) : Event → Prop
  | .win index => party = .cancel index ∧ request = .cancelJob
  | .cancel index => party = .cancel index ∧ ∃ fields, request = .hset fields ∧
      fields.status = some .cancelled
  | _ => True

section Observations

variable (world : JobWorld) (phases : (party : Party) → Phase party)

@[simp] theorem life_of_submission (phase : SubmissionPhase) :
    lifeOf world (Function.update phases .submission phase) =
      { lifeOf world phases with submission := phase } := by
  simp [lifeOf, Function.update]

@[simp] theorem life_of_worker (phase : WorkerPhase) :
    lifeOf world (Function.update phases .worker phase) =
      { lifeOf world phases with worker := phase } := by
  simp [lifeOf, Function.update]

@[simp] theorem life_of_cancel (index : Nat) (phase : CancelPhase) :
    lifeOf world (Function.update phases (.cancel index) phase) =
      (lifeOf world phases).setCancel index phase := by
  have other := Function.update_comp_eq_of_injective' phases (fun _ _ same => Party.cancel.inj same)
    index phase
  simp only [lifeOf, Life.setCancel, ← other]
  simp [Function.update]

theorem status_after_write (fields : Fields) :
    (world.write fields).status =
      (fields.status <|> world.status) := hset_status world.record fields

theorem finished_after_write (fields : Fields) :
    (world.write fields).finished =
      (fields.finishedAt.isSome || world.finished) := by
  unfold JobWorld.finished JobWorld.write
  cases world.record <;> cases written : fields.finishedAt <;> simp [hset, written]

theorem flagged_after_write (fields : Fields) :
    (world.write fields).flagged =
      fields.cancelRequested.getD world.flagged := by
  unfold JobWorld.flagged JobWorld.write Fields.cancelled
  cases world.record <;> cases written : fields.cancelRequested <;> simp [hset, written]

end Observations

end PretextBuildServer.LifeCycle
