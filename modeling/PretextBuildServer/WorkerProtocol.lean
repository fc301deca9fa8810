import PretextBuildServer.JobSystem

/-!
# What a worker does to the record, in phases

The protocol abstracts the worker's run to the accesses that matter to others:
it takes the job, looks at the cancel flag, writes `running`, polls the flag,
writes one terminal status, and calls `send_callback`.
-/

namespace PretextBuildServer.WorkerProtocol

open EffectProgram EffectProgram.Program
open PretextBuildServer.ServerSettings PretextBuildServer.JobRecord PretextBuildServer.JobCalls
open PretextBuildServer.StoreCalls PretextBuildServer.CallbackUrl
open PretextBuildServer.CompletionCallback PretextBuildServer.BuildWorker
open PretextBuildServer.JobSystem

set_option autoImplicit false

inductive Stage where
  | waiting
  | taken
  | looked
  | running
  | settled (status : Status)
  deriving DecidableEq

/-- `seen`: a look at the flag has found it set; `reported`: the read in
`send_callback` has been made. -/
structure WorkerPhase where
  stage : Stage
  seen : Bool := false
  reported : Bool := false
  deriving DecidableEq

/-- The calls that concern neither the record nor the RQ job. -/
def quiet : JobCall → Bool
  | .hgetall _ | .hset _ | .expire _ | .enqueue _ | .takeFromQueue | .fetchJob | .cancelJob
  | .finishJob => false
  | _ => true

/-- Nothing fails but a wait that times out, and what lies behind the callback. -/
def Faultless : (request : JobCall) → JobReply request → Prop
  | .wait _, .error raised => raised.isTimedOutWait = true
  | .checkNetloc _, _ | .getaddrinfo _, _ | .post .., _ => True
  | _, .ok _ => True
  | _, .error _ => False

/-- A write that leaves alone what the submission and the cancel requests write. -/
structure LeavesOthers (fields : Fields) : Prop where
  kind : fields.kind = none
  target : fields.target = none
  createdAt : fields.createdAt = none
  callbackUrl : fields.callbackUrl = none
  cancelRequested : fields.cancelRequested = none

/-- Which terminal status may be written in a phase. Stopping a container after
the flag was seen can end in `failed` only if a Docker call fails. -/
def settles (host faultless : Bool) (phase : WorkerPhase) (status : Status) : Prop :=
  match phase.stage with
  | .taken => host = false ∧ status = .failed
  | .looked => phase.seen = true ∧ status = .cancelled
  | .running =>
      if phase.seen then status = .cancelled ∨ (faultless = false ∧ status = .failed)
      else status = .success ∨ status = .failed
  | .waiting | .settled _ => False

def admitsWrite (host faultless : Bool) (phase : WorkerPhase) (fields : Fields) : Prop :=
  LeavesOthers fields ∧
    match fields.status with
    | none => phase.reported = true ∧ fields.finishedAt = none
    | some .queued => False
    | some .running =>
        phase.reported = false ∧ phase.stage = .looked ∧ phase.seen = false ∧
          fields.finishedAt = none
    | some status =>
        phase.reported = false ∧ settles host faultless phase status ∧
          fields.finishedAt.isSome = true

def workerAdmits (host faultless : Bool) (phase : WorkerPhase) : JobCall → Prop
  | .takeFromQueue => phase.stage = .waiting
  | .hgetall .preRun => host = true ∧ phase.stage = .taken
  | .hgetall .poll => phase.stage = .running ∧ phase.seen = false
  | .hgetall .afterRun => phase.stage ≠ .waiting
  | .hgetall .sendCallback => phase.reported = false ∧ phase.stage ≠ .waiting
  | .hgetall .load => False
  | .hset fields => admitsWrite host faultless phase fields
  | .finishJob => phase.reported = true ∧ phase.stage ≠ .waiting
  | .expire _ | .enqueue _ | .fetchJob | .cancelJob => False
  | _ => True

def afterWrite (phase : WorkerPhase) (fields : Fields) : WorkerPhase :=
  match fields.status with
  | none => phase
  | some .running => { phase with stage := .running }
  | some status => { phase with stage := .settled status }

def workerStep (faultless : Bool) (phase : WorkerPhase) :
    (request : JobCall) → JobReply request → WorkerPhase → Prop
  | .takeFromQueue, reply, after => reply = .ok () ∧ after = { phase with stage := .taken }
  | .hgetall reader, reply, after =>
      ∃ record : Option Fields, reply = .ok record ∧
        after = match reader with
          | .preRun => { phase with stage := .looked, seen := (record.getD {}).cancelled }
          | .poll => { phase with seen := (record.getD {}).cancelled }
          | .sendCallback => { phase with reported := true }
          | _ => phase
  | .hset fields, reply, after => reply = .ok () ∧ after = afterWrite phase fields
  | .time, reply, after => (∃ clock, reply = .ok clock) ∧ after = phase
  | request, reply, after =>
      (Foreign reply ∧ (faultless = true → Faultless request reply)) ∧ after = phase

def workerProtocol (host faultless : Bool) : Machine JobCall.Answer Raised WorkerPhase where
  admits := workerAdmits host faultless
  step := workerStep faultless

/-- At the end of the run the callback has been called, and the job is settled
unless a call has failed. -/
def WorkEnded (faultless : Bool) (phase : WorkerPhase) : Prop :=
  phase.reported = true ∧ phase.stage ≠ .waiting ∧
    (faultless = true → ∃ status, phase.stage = .settled status)

section Quiet

theorem quiet_admitted (host faultless : Bool) (phase : WorkerPhase) (request : JobCall)
    (isQuiet : quiet request = true) : (workerProtocol host faultless).admits phase request := by
  cases request <;> trivial

theorem quiet_unchanged (host faultless : Bool) (phase : WorkerPhase) (request : JobCall)
    (reply : JobReply request) (after : WorkerPhase) (isQuiet : quiet request = true)
    (step : (workerProtocol host faultless).step phase request reply after) : after = phase := by
  cases request <;> first | exact step.2 | cases isQuiet

theorem quiet_guarantees {Result : Type} (host faultless : Bool) (phase : WorkerPhase)
    (program : JobProgram Result) (only : MakesOnly (fun request => quiet request = true) program) :
    Guarantees (workerProtocol host faultless) (fun after _ => after = phase) phase program :=
  guarantees_of_makes_only phase program only (quiet_admitted host faultless phase)
    (fun request reply after => quiet_unchanged host faultless phase request reply after)

theorem quiet_answer (host faultless : Bool) (phase : WorkerPhase) (request : JobCall)
    (reply : JobReply request) (after : WorkerPhase) (isQuiet : quiet request = true)
    (step : (workerProtocol host faultless).step phase request reply after) :
    Foreign reply ∧ (faultless = true → Faultless request reply) := by
  cases request
  case time =>
      obtain ⟨⟨clock, rfl⟩, -⟩ := step
      exact ⟨fun raised impossible => (nomatch impossible), fun _ => trivial⟩
  all_goals first | exact step.1 | cases isQuiet

theorem quiet_perform (host faultless : Bool) (phase : WorkerPhase) (request : JobCall)
    (isQuiet : quiet request = true) :
    Guarantees (workerProtocol host faultless)
      (fun after reply => after = phase ∧ Foreign reply ∧
        (faultless = true → Faultless request reply))
      phase (jobCall request) :=
  ⟨quiet_admitted host faultless phase request isQuiet, fun reply after step =>
    ⟨quiet_unchanged host faultless phase request reply after isQuiet step,
      quiet_answer host faultless phase request reply after isQuiet step⟩⟩

end Quiet

section Writes

variable {host faultless : Bool} {phase : WorkerPhase}

theorem update_guarantees (fields : Fields)
    (admitted : admitsWrite host faultless phase fields) :
    Guarantees (workerProtocol host faultless)
      (fun after reply => reply = .ok () ∧ after = afterWrite phase fields)
      phase (storeUpdate fields) :=
  ⟨admitted, fun _ _ step => step⟩

theorem stamped_update_guarantees (fields : Nat → Fields)
    (admitted : ∀ clock, admitsWrite host faultless phase (fields clock))
    {later : WorkerPhase} (leads : ∀ clock, afterWrite phase (fields clock) = later) :
    Guarantees (workerProtocol host faultless)
      (fun after reply => reply = .ok () ∧ after = later)
      phase (now >>= fun clock => storeUpdate (fields clock)) := by
  refine guarantees_seq _ _ _ (⟨trivial, fun _ _ step => step⟩ : Guarantees _
    (fun after reply => (∃ clock, reply = .ok clock) ∧ after = phase) phase now) ?_
  rintro _ _ ⟨⟨clock, rfl⟩, rfl⟩
  refine guarantees_mono _ _ ?_ (update_guarantees (fields clock) (admitted clock))
  rintro after reply ⟨ok, rfl⟩
  exact ⟨ok, leads clock⟩

end Writes

theorem urlparse_quiet (url : List Char) :
    MakesOnly (fun request => quiet request = true) (urlparse url) := by
  unfold urlparse
  split
  split
  · dsimp only
    split
    · trivial
    · exact ⟨rfl, fun reply => by cases reply <;> trivial⟩
  · trivial

theorem resolves_quiet (hostname : List Char) :
    MakesOnly (fun request => quiet request = true) (resolvesToBlockedIp hostname) := by
  refine ⟨rfl, fun reply => ?_⟩
  cases reply with
  | ok infos => trivial
  | error raised =>
      simp only [done_and_then]
      split <;> trivial

theorem allowed_url_quiet (settings : Settings) (url : List Char) :
    MakesOnly (fun request => quiet request = true) (isAllowedCallbackUrl settings url) := by
  refine makes_only_and_then _ _ (urlparse_quiet url) fun outcome => ?_
  cases outcome with
  | error raised =>
      dsimp only
      split <;> trivial
  | ok parsed =>
      dsimp only
      split
      · trivial
      split
      · trivial
      · refine makes_only_and_then _ _ (resolves_quiet _) fun blocked => ?_
        cases blocked <;> trivial

theorem payload_quiet (settings : Settings) (jobId : String) (data : Fields) :
    MakesOnly (fun request => quiet request = true) (buildPayload settings jobId data) := by
  refine ⟨rfl, fun reply => ?_⟩
  cases reply <;> trivial

theorem raise_for_status_quiet (response : Response) :
    MakesOnly (fun request => quiet request = true) (raiseForStatus response) := by
  unfold raiseForStatus
  split <;> trivial

section Callback

variable {host faultless : Bool} {phase : WorkerPhase}

theorem callback_update (reported : phase.reported = true) (fields : Fields)
    (others : LeavesOthers fields) (noStatus : fields.status = none)
    (noTime : fields.finishedAt = none) :
    Guarantees (workerProtocol host faultless) (fun after _ => after = phase) phase
      (storeUpdate fields) := by
  refine guarantees_mono _ _ ?_ (@update_guarantees host faultless phase fields ?_)
  · rintro after reply ⟨-, rfl⟩
    simp [afterWrite, noStatus]
  · simp [admitsWrite, noStatus, noTime, reported, others]

theorem attempts_keep_phase (settings : Settings) (url : String) (body : Payload)
    (reported : phase.reported = true) (left : Nat) (lastError : Option Raised) :
    Guarantees (workerProtocol host faultless) (fun after _ => after = phase) phase
      (attemptDelivery settings url body left lastError) := by
  induction left generalizing lastError with
  | zero => exact callback_update reported _ ⟨rfl, rfl, rfl, rfl, rfl⟩ rfl rfl
  | succ left induction =>
      unfold attemptDelivery
      refine guarantees_seq _ _ _ (?_ : Guarantees _ (fun after _ => after = phase) phase _) ?_
      · refine guarantees_seq _ _ _ (quiet_perform host faultless phase _ rfl) ?_
        rintro after reply ⟨rfl, -⟩
        cases reply with
        | error raised => rfl
        | ok response =>
            refine guarantees_seq _ _ _
              (quiet_guarantees host faultless _ _ (raise_for_status_quiet response)) ?_
            rintro after checked rfl
            cases checked with
            | error raised => rfl
            | ok _ => exact callback_update reported _ ⟨rfl, rfl, rfl, rfl, rfl⟩ rfl rfl
      · rintro after outcome rfl
        cases outcome with
        | ok _ => rfl
        | error raised =>
            simp only [on_failure_error]
            split
            · exact induction (some raised)
            · rfl

theorem callback_follows (settings : Settings) (jobId : String)
    (unreported : phase.reported = false) (begun : phase.stage ≠ .waiting) :
    Guarantees (workerProtocol host faultless)
      (fun after _ => after = { phase with reported := true }) phase
      (sendCallback settings jobId) := by
  refine ⟨⟨unreported, begun⟩, ?_⟩
  rintro _ _ ⟨record, rfl, rfl⟩
  simp only [done_and_then, on_value_ok]
  cases record with
  | none => rfl
  | some data =>
      dsimp only
      split
      · rfl
      refine guarantees_seq _ _ _
        (quiet_guarantees host faultless _ _ (allowed_url_quiet settings _)) ?_
      rintro _ allowed rfl
      cases allowed with
      | error raised => rfl
      | ok allowed =>
          simp only [on_value_ok]
          split
          · exact callback_update rfl _ ⟨rfl, rfl, rfl, rfl, rfl⟩ rfl rfl
          · refine guarantees_seq _ _ _
              (quiet_guarantees host faultless _ _ (payload_quiet settings jobId data)) ?_
            rintro _ body rfl
            cases body with
            | error raised => rfl
            | ok body => exact attempts_keep_phase settings _ _ rfl _ _

end Callback

end PretextBuildServer.WorkerProtocol
