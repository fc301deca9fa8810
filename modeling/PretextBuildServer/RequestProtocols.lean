import PretextBuildServer.WorkerProtocol

/-!
# What the endpoints do to the record, in phases

The submission writes the record, sets its expiry and puts the job on its
queue, in this order and at most once. A cancel request reads the record, sets
the flag, and only for a job it has read as queued goes on to RQ; it writes
`cancelled` only after `Job.cancel` has returned.
-/

namespace PretextBuildServer.RequestProtocols

open EffectProgram EffectProgram.Program
open PretextBuildServer.ServerSettings PretextBuildServer.JobRecord PretextBuildServer.JobCalls
open PretextBuildServer.StoreCalls PretextBuildServer.ApiEndpoints
open PretextBuildServer.JobSystem PretextBuildServer.WorkerProtocol

set_option autoImplicit false

/-! ## The submission -/

inductive SubmissionPhase where
  | fresh
  | created
  | stored
  | enqueued
  deriving DecidableEq

/-- The write of `create`: everything a reader relies on, and no more. -/
structure Creates (kind : Kind) (fields : Fields) : Prop where
  kind : fields.kind = some kind
  target : fields.target.isSome = true
  createdAt : fields.createdAt.isSome = true
  status : fields.status = some .queued
  finishedAt : fields.finishedAt = none
  cancelRequested : fields.cancelRequested = none

def submissionAdmits (kind : Kind) (ttl : Int) (phase : SubmissionPhase) : JobCall → Prop
  | .hset fields => phase = .fresh ∧ Creates kind fields
  | .expire seconds => phase = .created ∧ seconds = ttl
  | .enqueue _ => phase = .stored
  | .hgetall _ | .takeFromQueue | .fetchJob | .cancelJob | .finishJob => False
  | _ => True

def submissionStep (phase : SubmissionPhase) :
    (request : JobCall) → JobReply request → SubmissionPhase → Prop
  | .hset _, reply, after => reply = .ok () ∧ after = .created
  | .expire _, reply, after => reply = .ok () ∧ after = .stored
  | .enqueue _, reply, after => reply = .ok () ∧ after = .enqueued
  | _, _, after => after = phase

def submissionProtocol (kind : Kind) (ttl : Int) :
    Machine JobCall.Answer Raised SubmissionPhase where
  admits := submissionAdmits kind ttl
  step := submissionStep

section Submission

variable {kind : Kind} {ttl : Int} {phase : SubmissionPhase}

theorem submission_quiet {Result : Type} (program : JobProgram Result)
    (only : MakesOnly (fun request => quiet request = true) program) :
    Guarantees (submissionProtocol kind ttl) (fun after _ => after = phase) phase program := by
  refine guarantees_of_makes_only phase program only ?_ ?_
  · intro request isQuiet
    cases request <;> trivial
  · intro request reply after isQuiet step
    cases request <;> first | exact step | cases isQuiet

/-- A submission that goes wrong leaves nothing behind in Redis or RQ. -/
def SubmissionEnded {Result : Type} (reached phase : SubmissionPhase) :
    Except Raised Result → Prop
  | .ok _ => phase = reached
  | .error _ => phase = .fresh

theorem quiet_then {Result Other : Type} {reached : SubmissionPhase} (first : JobProgram Result)
    (next : Result → JobProgram Other)
    (only : MakesOnly (fun request => quiet request = true) first)
    (rest : ∀ value, Guarantees (submissionProtocol kind ttl) (SubmissionEnded reached) .fresh
      (next value)) :
    Guarantees (submissionProtocol kind ttl) (SubmissionEnded reached) .fresh (first >>= next) := by
  refine guarantees_seq _ _ _ (submission_quiet first only) ?_
  rintro after (raised | value) rfl
  · rfl
  · exact rest value

theorem store_create_follows (settings : Settings) (fields : Fields)
    (hasKind : fields.kind = some kind) (hasTarget : fields.target.isSome = true)
    (noStatus : fields.status = none) (noFinish : fields.finishedAt = none)
    (noFlag : fields.cancelRequested = none) :
    Guarantees (submissionProtocol kind settings.jobTtl) (SubmissionEnded .stored) .fresh
      (storeCreate settings fields) := by
  refine quiet_then _ _ ⟨rfl, fun _ => trivial⟩ fun clock => ?_
  refine ⟨⟨rfl, ?_⟩, ?_⟩
  · exact ⟨hasKind, hasTarget, by cases fields.createdAt <;> rfl, by simp [noStatus],
      noFinish, noFlag⟩
  · rintro _ _ ⟨rfl, rfl⟩
    refine ⟨⟨rfl, rfl⟩, ?_⟩
    rintro _ _ ⟨rfl, rfl⟩
    rfl

theorem intake_follows (settings : Settings) (callbackUrl : Option String) (fields : Fields)
    (hasKind : fields.kind = some kind) (hasTarget : fields.target.isSome = true)
    (noStatus : fields.status = none) (noFinish : fields.finishedAt = none)
    (noFlag : fields.cancelRequested = none) :
    Guarantees (submissionProtocol kind settings.jobTtl) (SubmissionEnded .stored) .fresh
      (intake settings callbackUrl fields) := by
  have unpack : Guarantees (submissionProtocol kind settings.jobTtl) (SubmissionEnded .stored)
      .fresh (unpackAndCreate settings
        { fields with callbackUrl := callbackUrl.filter (· ≠ "") }) := by
    refine quiet_then _ _ ⟨rfl, fun _ => trivial⟩ fun _ => ?_
    refine quiet_then _ _ ⟨rfl, fun _ => trivial⟩ fun _ => ?_
    refine quiet_then _ _ ⟨rfl, fun extracted => ?_⟩ fun _ => ?_
    · cases extracted with
      | ok _ => trivial
      | error raised => exact ⟨rfl, fun removed => by cases removed <;> trivial⟩
    · refine quiet_then _ _ ⟨rfl, fun _ => trivial⟩ fun _ => ?_
      exact store_create_follows settings _ hasKind hasTarget noStatus noFinish noFlag
  unfold intake
  cases callbackUrl with
  | none => exact unpack
  | some url =>
      refine quiet_then _ _ (allowed_url_quiet settings _) fun allowed => ?_
      split
      · rfl
      · exact unpack

theorem check_token_quiet (settings : Settings) (formToken authorization : Option String) :
    MakesOnly (fun request => quiet request = true)
      (checkToken settings formToken authorization) := by
  unfold checkToken
  split <;> trivial

theorem project_id_quiet (value : Option String) :
    MakesOnly (fun request => quiet request = true) (projectIdField value) := by
  unfold projectIdField
  dsimp only
  split
  · trivial
  split <;> trivial

theorem enqueue_follows {Result : Type} (queue : Kind) (answer : Result)
    (create : JobProgram Unit)
    (created : Guarantees (submissionProtocol kind ttl) (SubmissionEnded .stored) .fresh create) :
    Guarantees (submissionProtocol kind ttl) (SubmissionEnded .enqueued) .fresh
      (do
        create
        jobCall (.enqueue queue)
        return answer) := by
  refine guarantees_seq _ _ _ created ?_
  rintro after (raised | _) ended
  · exact ended
  · refine ⟨ended, ?_⟩
    rintro _ _ ⟨rfl, rfl⟩
    rfl

/-- Every submission keeps to the protocol, whatever its calls answer. -/
theorem submit_follows (job : Job) :
    Guarantees (submissionProtocol job.request.kind job.settings.jobTtl)
      (SubmissionEnded .enqueued) .fresh job.submit := by
  unfold Job.submit
  cases job.request with
  | build target projectId token callbackUrl authorization =>
      refine quiet_then _ _ (check_token_quiet ..) fun _ => ?_
      refine quiet_then _ _ (project_id_quiet _) fun project => ?_
      exact enqueue_follows _ _ _ (intake_follows job.settings _ _ rfl rfl rfl rfl rfl)
  | generate target assets projectId token callbackUrl authorization =>
      have rest : Guarantees (submissionProtocol .generate job.settings.jobTtl)
          (SubmissionEnded .enqueued) .fresh (do
            let project ← projectIdField projectId
            intake job.settings callbackUrl {
              kind := some .generate, target := some target,
              assets := some (" ".intercalate (assetNames assets)), projectId := project }
            jobCall (.enqueue .generate)
            return queued job.jobId .generate) := by
        refine quiet_then _ _ (project_id_quiet _) fun project => ?_
        exact enqueue_follows _ _ _ (intake_follows job.settings _ _ rfl rfl rfl rfl rfl)
      refine quiet_then _ _ (check_token_quiet ..) fun _ => ?_
      dsimp only
      split
      · rfl
      · exact rest

end Submission

/-! ## A cancel request -/

/-- `loaded` holds what was found: nothing, or a record with its status;
`flagged` whether that status was `queued`. -/
inductive CancelPhase where
  | start
  | loaded (found : Option (Option Status))
  | flagged (queued : Bool)
  | fetched
  | won
  | ended
  deriving DecidableEq

def cancelAdmits (phase : CancelPhase) : JobCall → Prop
  | .hgetall .load => phase = .start
  | .hset fields =>
      match phase with
      | .loaded (some status) =>
          status.any Status.terminal = false ∧ fields = { cancelRequested := some true }
      | .won => ∃ clock, fields = { status := some .cancelled, finishedAt := some clock }
      | _ => False
  | .fetchJob => phase = .flagged true
  | .cancelJob => phase = .fetched
  | .time => phase = .won
  | _ => False

def cancelStep (phase : CancelPhase) :
    (request : JobCall) → JobReply request → CancelPhase → Prop
  | .hgetall _, reply, after =>
      ∃ record : Option Fields, reply = .ok record ∧ after = .loaded (record.map Fields.status)
  | .hset _, reply, after =>
      reply = .ok () ∧ after = match phase with
        | .loaded found => .flagged (found == some (some .queued))
        | _ => .ended
  | .fetchJob, reply, after =>
      (reply = .ok () ∧ after = .fetched) ∨
        (∃ message, reply = .error { kind := .noSuchJobError, message }) ∧ after = .ended
  | .cancelJob, reply, after =>
      (reply = .ok () ∧ after = .won) ∨
        (∃ message, reply = .error { kind := .invalidJobOperation, message }) ∧ after = .ended
  | .time, reply, after => (∃ clock, reply = .ok clock) ∧ after = phase
  | _, _, after => after = phase

def cancelProtocol : Machine JobCall.Answer Raised CancelPhase where
  admits := cancelAdmits
  step := cancelStep

/-- An answered cancel request has set the flag and has nothing left to write; a
refused one has written nothing. -/
def CancelEnded (phase : CancelPhase) : Except Raised CancelAnswer → Prop
  | .ok _ => phase = .ended ∨ phase = .flagged false
  | .error _ => ∃ found, phase = .loaded found

/-- Every cancel request keeps to the protocol, whatever its calls answer. -/
theorem cancel_follows (kind : Kind) :
    Guarantees cancelProtocol CancelEnded .start (ApiEndpoints.cancel kind) := by
  refine guarantees_seq _ _ _ (?_ : Guarantees _ (fun after outcome => match outcome with
    | .ok (data : Fields) => after = .loaded (some data.status)
    | .error _ => ∃ found, after = .loaded found) _ _) ?_
  · refine ⟨rfl, ?_⟩
    rintro _ _ ⟨record, rfl, rfl⟩
    cases record with
    | none => exact ⟨none, rfl⟩
    | some data =>
        simp only [done_and_then, on_value_ok]
        split
        · exact ⟨_, rfl⟩
        · rfl
  · rintro after (raised | data) found
    · exact found
    · obtain rfl := found
      simp only [on_value_ok]
      split
      · exact ⟨_, rfl⟩
      · rename_i notTerminal
        refine ⟨⟨by simpa [Fields.isTerminal] using notTerminal, rfl⟩, ?_⟩
        rintro _ _ ⟨rfl, rfl⟩
        simp only [done_and_then, on_value_ok]
        have lost : ∀ raised : Raised,
            raised.kind = .noSuchJobError ∨ raised.kind = .invalidJobOperation →
            Guarantees cancelProtocol CancelEnded .ended
              (if raised.kind = .noSuchJobError ∨ raised.kind = .invalidJobOperation then
                (return .cancelRequested : JobProgram CancelAnswer) else raise raised) := by
          intro raised expected
          rw [if_pos expected]
          exact .inl rfl
        by_cases queued : data.status = some .queued
        · simp only [queued, if_pos]
          refine ⟨rfl, ?_⟩
          rintro _ _ (⟨rfl, rfl⟩ | ⟨⟨message, rfl⟩, rfl⟩)
          · refine ⟨rfl, ?_⟩
            rintro _ _ (⟨rfl, rfl⟩ | ⟨⟨message, rfl⟩, rfl⟩)
            · refine ⟨rfl, ?_⟩
              rintro _ _ ⟨⟨clock, rfl⟩, rfl⟩
              refine ⟨⟨clock, rfl⟩, ?_⟩
              rintro _ _ ⟨rfl, rfl⟩
              exact .inl rfl
            · exact lost { kind := .invalidJobOperation, message } (.inr rfl)
          · exact lost { kind := .noSuchJobError, message } (.inl rfl)
        · simp only [queued, if_false]
          exact .inr (by simp [queued])

end PretextBuildServer.RequestProtocols
