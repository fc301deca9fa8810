import PretextBuildServer.CallbackDelivery

/-!
# Whether the validation of a callback comes to an answer

`getaddrinfo` may raise more than `gaierror`: the idna codec refuses a host with
an empty or over-long label by a `UnicodeError`, which neither the validation nor
its two callers catch.
-/

namespace PretextBuildServer.CallbackValidation

open EffectProgram EffectProgram.Program
open PretextBuildServer.ServerSettings PretextBuildServer.JobRecord PretextBuildServer.JobCalls
open PretextBuildServer.StoreCalls PretextBuildServer.CallbackUrl PretextBuildServer.ApiEndpoints
open PretextBuildServer.CompletionCallback PretextBuildServer.CallbackDelivery
open PretextBuildServer.NameValidators

set_option autoImplicit false

/-- The parsed URL, unless `urlparse` raises. -/
def parsedUrl (outside : Outside) (url : List Char) : Option ParsedUrl :=
  (run outside.handler { record := {} } (urlparse url)).1.toOption

/-- The host that has to be resolved to validate a URL, if it comes to that. -/
def hostToResolve (outside : Outside) (settings : Settings)
    (url : List Char) : Option (List Char) :=
  (parsedUrl outside url).bind fun parsed =>
    if allowlistAdmits settings parsed && !settings.callbackAllowPrivateIps then
      some (validatedHost parsed)
    else none

section Validating

variable {outside : Outside} {world : Reporting} {settings : Settings} {url : List Char}

theorem run_urlparse (url : List Char) :
    ∃ raised : Raised, raised.isValueError = true ∧
      run outside.handler world (urlparse url) =
        (match parsedUrl outside url with | some parsed => .ok parsed | none => .error raised, world) := by
  have parses : ∃ raised : Raised, raised.isValueError = true ∧
      ∃ parsed : Option ParsedUrl, ∀ world : Reporting,
        run outside.handler world (urlparse url) =
          (match parsed with | some parsed => .ok parsed | none => .error raised, world) := by
    unfold urlparse
    simp only
    split
    · split
      · exact ⟨_, rfl, none, fun _ => rfl⟩
      · rename_i rest _ _
        cases accepted : outside.authority (rest.takeWhile fun c => !endsAuthority c) with
        | true =>
            refine ⟨{ kind := .valueError }, rfl, some {
              scheme := (splitScheme (cleaned url)).1
              netloc := rest.takeWhile fun c => !endsAuthority c }, fun world => ?_⟩
            rw [bind_is_and_then, run_and_then, run_perform]
            simp only [Outside.handler, accepted, if_true]
            rfl
        | false =>
            refine ⟨{ kind := .valueError }, rfl, none, fun world => ?_⟩
            rw [bind_is_and_then, run_and_then, run_perform]
            simp only [Outside.handler, accepted]
            rfl
    · exact ⟨{ kind := .valueError }, rfl, some _, fun _ => rfl⟩
  obtain ⟨raised, valueError, parsed, runs⟩ := parses
  refine ⟨raised, valueError, ?_⟩
  have same : parsedUrl outside url = parsed := by
    rw [parsedUrl, runs]
    cases parsed with
    | none => rfl
    | some parsed => rfl
  rw [runs, same]

theorem run_validation (url : List Char) :
    run outside.handler world (isAllowedCallbackUrl settings url) =
      (match hostToResolve outside settings url with
        | some host =>
            match outside.lookup host with
            | .ok infos => .ok (!infos.any ResolvedAddress.blocked)
            | .error .gaierror => .ok false
            | .error .unicodeError => .error LookupFailure.unicodeError.raised
        | none => .ok ((parsedUrl outside url).any (allowlistAdmits settings)), world) := by
  obtain ⟨raised, valueError, parses⟩ := @run_urlparse outside world url
  rw [isAllowedCallbackUrl, run_and_then, parses, hostToResolve]
  cases parsedUrl outside url with
  | none =>
      simp only [if_pos valueError]
      rfl
  | some parsed =>
      simp only [Option.bind_some, Option.any_some]
      cases admitted : allowlistAdmits settings parsed with
      | false => rfl
      | true =>
          cases free : settings.callbackAllowPrivateIps with
          | true => rfl
          | false =>
              have looked : outside.handler world (.getaddrinfo (validatedHost parsed)) =
                ((outside.lookup (validatedHost parsed)).mapError LookupFailure.raised, world) := rfl
              simp only [Bool.not_true, Bool.false_eq_true, if_false, Bool.not_false, Bool.and_self,
                if_true]
              rw [bind_is_and_then, run_and_then, resolvesToBlockedIp, run_and_then, run_perform,
                looked]
              cases outside.lookup (validatedHost parsed) with
              | ok infos => rfl
              | error failure => cases failure <;> rfl

end Validating

/-! ## Its two callers -/

def Presented (settings : Settings) (token authorization : Option String) : Prop :=
  settings.buildToken ≠ "" ∧ presentedToken token authorization = some settings.buildToken

/-- A 202 with the new job, or a 422. -/
def Answered : Except Raised QueuedResponse → Prop
  | .ok _ => True
  | .error raised => raised.kind = .httpException 422

section Callers

variable {outside : Outside} {world : Reporting} {settings : Settings} {url : String}
  {allowed : Bool}

theorem token_passes {token authorization : Option String}
    (presented : Presented settings token authorization) :
    checkToken settings token authorization = .done (.ok ()) := by
  rw [checkToken, if_neg]
  · rfl
  · intro refused
    rcases refused with unset | different
    · exact presented.1 unset
    · exact different presented.2

theorem unpack_answers (fields : Fields) (Goes : Except Raised Unit × Reporting → Prop)
    (goesOn : ∀ after, Goes (.ok (), after))
    (refused : ∀ message after, Goes (.error { kind := .httpException 422, message }, after)) :
    Goes (run outside.handler world (unpackAndCreate settings fields)) := by
  have extracted : outside.handler world .extractUpload = (outside.extract, world) := rfl
  have made : outside.handler world .makeWorkDir = (.ok (), world) := rfl
  have written : outside.handler world .writeUpload = (.ok (), world) := rfl
  simp only [unpackAndCreate, bind_is_and_then, rescue]
  rw [run_and_then, run_perform, made, on_value_ok, run_and_then, run_perform, written, on_value_ok,
    run_and_then, run_and_then, run_perform, extracted]
  cases outside.extract with
  | ok value => exact goesOn _
  | error raised => exact refused _ _

theorem intake_answers (fields : Fields)
    (valid : run outside.handler world (isAllowedCallbackUrl settings url.toList) =
      (.ok allowed, world))
    (Goes : Except Raised Unit × Reporting → Prop) (goesOn : ∀ after, Goes (.ok (), after))
    (refused : ∀ message after, Goes (.error { kind := .httpException 422, message }, after)) :
    Goes (run outside.handler world (intake settings (some url) fields)) := by
  unfold intake
  simp only
  rw [bind_is_and_then, run_and_then, valid, on_value_ok]
  cases allowed with
  | false => exact refused _ _
  | true => exact unpack_answers _ Goes goesOn refused

theorem submission_answers (kind : Kind) (jobId : String) (fields : Fields)
    (valid : run outside.handler world (isAllowedCallbackUrl settings url.toList) =
      (.ok allowed, world)) :
    Answered (run outside.handler world (do
      intake settings (some url) fields
      jobCall (.enqueue kind)
      return queued jobId kind)).1 := by
  rw [bind_is_and_then, run_and_then]
  apply intake_answers fields valid fun ended => Answered (run outside.handler ended.2
    (onValue (fun _ => do
      jobCall (.enqueue kind)
      return queued jobId kind) ended.1)).1
  · intro after
    trivial
  · intro message after
    rfl

end Callers

/-! ## Failing closed -/

/-- What any text a client gives as the callback URL is to come to. -/
structure FailsClosed (outside : Outside) (settings : Settings) (url : String) : Prop where
  answers : ∃ allowed, (run outside.handler { record := {} }
    (isAllowedCallbackUrl settings url.toList)).1 = .ok allowed
  closed : ∀ host failure, hostToResolve outside settings url.toList = some host →
    outside.lookup host = .error failure →
    (run outside.handler { record := {} } (isAllowedCallbackUrl settings url.toList)).1 = .ok false
  build : ∀ jobId target projectId token authorization, Presented settings token authorization →
    Answered (run outside.handler { record := {} }
      (createBuild settings jobId target projectId token (some url) authorization)).1
  generate : ∀ jobId target assets projectId token authorization,
    Presented settings token authorization →
    Answered (run outside.handler { record := {} }
      (createGenerate settings jobId target assets projectId token (some url) authorization)).1
  callback : ∀ jobId record, record.callbackUrl = some url →
    let ended := run outside.handler { record } (sendCallback settings jobId)
    ended.1 = .ok () ∧
      (url ≠ "" → (run outside.handler { record } (isAllowedCallbackUrl settings url.toList)).1 ≠
        .ok true → ended.2.record.callbackStatus = some .blocked)

section Closed

variable {outside : Outside} {world : Reporting} {settings : Settings} {url : String}
  {allowed : Bool}

theorem project_answers {projectId : Option String}
    {rest : Option String → JobProgram QueuedResponse}
    (answered : ∀ project, Answered (run outside.handler world (rest project)).1) :
    Answered (run outside.handler world (projectIdField projectId >>= rest)).1 := by
  rw [bind_is_and_then, run_and_then]
  unfold projectIdField
  simp only
  split
  · exact answered none
  · split
    · rfl
    · exact answered _

theorem build_answers (jobId target : String) {projectId token authorization : Option String}
    (presented : Presented settings token authorization)
    (valid : run outside.handler world (isAllowedCallbackUrl settings url.toList) =
      (.ok allowed, world)) :
    Answered (run outside.handler world
      (createBuild settings jobId target projectId token (some url) authorization)).1 := by
  rw [createBuild, token_passes presented]
  apply project_answers
  intro project
  exact submission_answers .build jobId _ valid

theorem generate_answers (jobId target : String) {assets : List String}
    {projectId token authorization : Option String}
    (presented : Presented settings token authorization)
    (valid : run outside.handler world (isAllowedCallbackUrl settings url.toList) =
      (.ok allowed, world)) :
    Answered (run outside.handler world
      (createGenerate settings jobId target assets projectId token (some url) authorization)).1 := by
  rw [createGenerate, token_passes presented]
  simp only [bind_is_and_then]
  split
  · rfl
  · apply project_answers
    intro project
    exact submission_answers .generate jobId _ valid

theorem callback_ends (jobId : String) (named : world.record.callbackUrl = some url)
    (valid : run outside.handler world (isAllowedCallbackUrl settings url.toList) =
      (.ok allowed, world)) :
    let ended := run outside.handler world (sendCallback settings jobId)
    ended.1 = .ok () ∧
      (url ≠ "" → allowed ≠ true → ended.2.record.callbackStatus = some .blocked) := by
  intro ended
  have read : outside.handler world (.hgetall .sendCallback) = (.ok (some world.record), world) := rfl
  by_cases empty : url = ""
  · have nothing : ended = (.ok (), world) := by
      simp only [ended]
      rw [sendCallback, bind_is_and_then, run_and_then, storeGet, run_perform, read]
      simp only [on_value_ok, named, Option.getD_some, if_pos empty]
      rfl
    rw [nothing]
    exact ⟨rfl, fun nonempty => absurd empty nonempty⟩
  · cases allowed with
    | true =>
        obtain ⟨body, same⟩ := callback_runs jobId named empty (by rw [valid])
        refine ⟨?_, fun _ refused => absurd rfl refused⟩
        simp only [ended]
        rw [same]
        rcases attempts_run (max 1 settings.callbackRetries).toNat none world with
          ⟨_, _, _, _, runs⟩ | ⟨_, runs⟩
        · rw [runs]
        · rw [runs]
    | false =>
        have blocked : ended = run outside.handler world (storeUpdate {
            callbackStatus := some .blocked
            callbackError := some "callback_url failed validation at send time" }) := by
          simp only [ended]
          rw [sendCallback, bind_is_and_then, run_and_then, storeGet, run_perform, read]
          simp only [on_value_ok, named, Option.getD_some, if_neg empty]
          rw [bind_is_and_then, run_and_then, valid]
          rfl
        rw [blocked]
        exact ⟨rfl, fun _ _ => rfl⟩

end Closed

/-- Validation fails closed exactly if the resolver does not raise `UnicodeError`
for a host that has to be resolved. -/
theorem validation_fails_closed_iff (outside : Outside) (settings : Settings) (url : String) :
    FailsClosed outside settings url ↔
      ∀ host, hostToResolve outside settings url.toList = some host →
        outside.lookup host ≠ .error .unicodeError := by
  constructor
  · intro closed host resolved raises
    obtain ⟨allowed, answers⟩ := closed.answers
    rw [run_validation, resolved] at answers
    simp only [raises] at answers
    cases answers
  · intro resolvable
    have valid : ∃ allowed, ∀ world : Reporting,
        run outside.handler world (isAllowedCallbackUrl settings url.toList) =
          (.ok allowed, world) := by
      simp only [run_validation]
      cases resolved : hostToResolve outside settings url.toList with
      | none => exact ⟨_, fun _ => rfl⟩
      | some host =>
          simp only
          cases found : outside.lookup host with
          | ok infos => exact ⟨_, fun _ => rfl⟩
          | error failure =>
              cases failure with
              | gaierror => exact ⟨_, fun _ => rfl⟩
              | unicodeError => exact absurd found (resolvable host resolved)
    obtain ⟨allowed, valid⟩ := valid
    constructor
    · exact ⟨allowed, by rw [valid]⟩
    · intro host failure resolved failed
      rw [run_validation, resolved]
      simp only [failed]
      cases failure with
      | gaierror => rfl
      | unicodeError => exact absurd failed (resolvable host resolved)
    · intro jobId target projectId token authorization presented
      exact build_answers jobId target presented (valid _)
    · intro jobId target assets projectId token authorization presented
      exact generate_answers jobId target presented (valid _)
    · intro jobId record named
      obtain ⟨returns, blocked⟩ := callback_ends jobId named (valid { record })
      refine ⟨returns, fun nonempty refused => blocked nonempty ?_⟩
      rw [valid] at refused
      simpa using refused

/-! ## A host with an empty label -/

def unencodable : Outside where
  authority _ := true
  lookup _ := .error .unicodeError
  deliver _ := .ok { statusCode := 200 }

/-- The host `a..b` has to be resolved, and the idna codec refuses it. -/
theorem empty_label_escapes :
    hostToResolve unencodable defaults "http://a..b/".toList = some "a..b".toList ∧
      ¬ FailsClosed unencodable defaults "http://a..b/" := by
  have resolved : hostToResolve unencodable defaults "http://a..b/".toList = some "a..b".toList := by
    decide +kernel
  refine ⟨resolved, fun closed => ?_⟩
  obtain ⟨allowed, answers⟩ := closed.answers
  rw [run_validation, resolved] at answers
  cases answers

end PretextBuildServer.CallbackValidation
