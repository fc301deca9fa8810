import PretextBuildServer.RunCalls

/-!
# What becomes of a callback

One request at a time in surroundings that work but for the resolver, the
archive and the receiver, whose answers are given beforehand. A response counts
as delivered unless `raise_for_status` raises, which it does for 400 to 599
only.
-/

namespace PretextBuildServer.CallbackDelivery

open EffectProgram EffectProgram.Program
open PretextBuildServer.ServerSettings PretextBuildServer.JobRecord PretextBuildServer.JobCalls
open PretextBuildServer.StoreCalls PretextBuildServer.CallbackUrl
open PretextBuildServer.CompletionCallback PretextBuildServer.RunCalls

set_option autoImplicit false

/-- What `getaddrinfo` raises: `gaierror`, or the `UnicodeError` of a label that
is empty or too long. -/
inductive LookupFailure where
  | gaierror
  | unicodeError
  deriving DecidableEq

def LookupFailure.raised : LookupFailure → Raised
  | .gaierror => { kind := .gaierror }
  | .unicodeError => { kind := .unicodeError }

/-- An exception `requests` raises for a request that fails. -/
structure RequestFailure where
  raised : Raised
  isRequest : raised.isRequestException = true

/-- Whether `urlparse` takes an authority for a valid one, what the resolver
answers for a host, what comes of unpacking an archive, whether there is an
artifact, and what the POSTs are answered, in their order. -/
structure Outside where
  authority : List Char → Bool
  lookup : List Char → Except LookupFailure (List ResolvedAddress)
  extract : Except Raised Unit := .ok ()
  hasArtifact : Bool := false
  deliver : Nat → Except RequestFailure Response

structure Post where
  url : String
  body : Payload
  signature : Option BodySignature

/-- The record, and the POSTs made so far. -/
structure Reporting where
  record : Fields
  posts : List Post := []

def Outside.handler (outside : Outside) : Handler JobCall.Answer Raised Reporting
  | world, .hgetall _ => (.ok (some world.record), world)
  | world, .hset fields => (.ok (), { world with record := world.record.override fields })
  | world, .checkNetloc netloc =>
      (if outside.authority netloc then .ok () else .error { kind := .valueError }, world)
  | world, .getaddrinfo hostname =>
      ((outside.lookup hostname).mapError LookupFailure.raised, world)
  | world, .post url body signature _ =>
      ((outside.deliver world.posts.length).mapError RequestFailure.raised,
        { world with posts := world.posts ++ [{ url, body, signature }] })
  | world, .isFile _ => (.ok outside.hasArtifact, world)
  | world, .extractUpload => (outside.extract, world)
  | world, .time => (.ok 0, world)
  | world, .expire _ | world, .enqueue _ | world, .makeWorkDir | world, .writeUpload
  | world, .removeUpload | world, .removeJobDir => (.ok (), world)
  | world, _ => (.error { kind := .other }, world)

/-! ## The attempts -/

def statusFailure (response : Response) : Option Raised :=
  if 400 ≤ response.statusCode && response.statusCode < 600 then
    let party := if response.statusCode < 500 then "Client" else "Server"
    some {
      kind := .requestException
      message := s!"{response.statusCode} {party} Error: {response.reason} for url: {response.url}" }
  else none

/-- The error the `k`-th attempt fails with, if it does; attempts are numbered
from zero. -/
def Outside.failure (outside : Outside) (k : Nat) : Option Raised :=
  match outside.deliver k with
  | .ok response => statusFailure response
  | .error failure => some failure.raised

/-- The receiver has accepted the `k`-th attempt. -/
def Outside.Accepted (outside : Outside) (k : Nat) : Prop :=
  ∃ response, outside.deliver k = .ok response ∧ 200 ≤ response.statusCode ∧
    response.statusCode < 300

section Attempts

variable {outside : Outside} {world : Reporting} {settings : Settings} {url : String}
  {body : Payload}

theorem run_raise_for_status (response : Response) :
    run outside.handler world (raiseForStatus response) =
      (match statusFailure response with | some raised => .error raised | none => .ok (), world) := by
  unfold raiseForStatus statusFailure
  split
  · rfl
  · rfl

theorem accepted_not_failed {k : Nat} (accepted : outside.Accepted k) :
    outside.failure k = none := by
  obtain ⟨response, answered, least, most⟩ := accepted
  rw [Outside.failure, answered]
  simp only [statusFailure]
  rw [if_neg]
  simp
  omega

theorem failure_is_request {k : Nat} {raised : Raised}
    (failed : outside.failure k = some raised) : raised.isRequestException = true := by
  unfold Outside.failure at failed
  split at failed
  · unfold statusFailure at failed
    split at failed
    · cases failed
      rfl
    · cases failed
  · rename_i failure _
    cases failed
    exact failure.isRequest

theorem run_attempt :
    run outside.handler world
      (do
        let response : Response ← jobCall
          (.post url body (sign settings body) settings.callbackTimeout)
        raiseForStatus response
        storeUpdate { callbackStatus := some .delivered }) =
      match outside.failure world.posts.length with
      | some raised =>
          (.error raised, { world with posts := world.posts ++ [⟨url, body, sign settings body⟩] })
      | none =>
          (.ok (), {
            record := world.record.override { callbackStatus := some .delivered }
            posts := world.posts ++ [⟨url, body, sign settings body⟩] }) := by
  have posted : outside.handler world
      (.post url body (sign settings body) settings.callbackTimeout) =
    ((outside.deliver world.posts.length).mapError RequestFailure.raised,
      { world with posts := world.posts ++ [⟨url, body, sign settings body⟩] }) := rfl
  rw [bind_is_and_then, run_and_then, run_perform, posted, Outside.failure]
  cases outside.deliver world.posts.length with
  | error failure => rfl
  | ok response =>
      simp only [Except.mapError, on_value_ok]
      rw [bind_is_and_then, run_and_then, run_raise_for_status]
      cases statusFailure response with
      | some raised => rfl
      | none => rfl

def failedFields (lastError : Option Raised) : Fields where
  callbackStatus := some .failed
  callbackError := some (lastError.elim "None" Raised.message)

/-- Attempts are made up to the first that does not fail, or all of them. -/
theorem attempts_run (left : Nat) (lastError : Option Raised) (world : Reporting) :
    let post : Post := ⟨url, body, sign settings body⟩
    let made := world.posts.length
    (∃ k < left, (∀ j < k, outside.failure (made + j) ≠ none) ∧
      outside.failure (made + k) = none ∧
      run outside.handler world (attemptDelivery settings url body left lastError) =
        (.ok (), {
          record := world.record.override { callbackStatus := some .delivered }
          posts := world.posts ++ List.replicate (k + 1) post })) ∨
    ((∀ j < left, outside.failure (made + j) ≠ none) ∧
      run outside.handler world (attemptDelivery settings url body left lastError) =
        (.ok (), {
          record := world.record.override (failedFields
            (if left = 0 then lastError else outside.failure (made + left - 1)))
          posts := world.posts ++ List.replicate left post })) := by
  intro post made
  induction left generalizing lastError world with
  | zero =>
      right
      constructor
      · intro j below
        omega
      · simp only [List.replicate_zero, List.append_nil]
        rfl
  | succ left induction =>
      cases failed : outside.failure made with
      | none =>
          left
          refine ⟨0, by omega, by omega, failed, ?_⟩
          rw [attemptDelivery, rescue, run_and_then, run_attempt, failed]
          rfl
      | some raised =>
          let next : Reporting := { world with posts := world.posts ++ [post] }
          have again : run outside.handler world (attemptDelivery settings url body (left + 1) lastError) =
              run outside.handler next (attemptDelivery settings url body left (some raised)) := by
            rw [attemptDelivery, rescue, run_and_then, run_attempt, failed]
            simp only [on_failure_error]
            rw [if_pos (failure_is_request failed)]
          have count : next.posts.length = made + 1 := by simp [next, made]
          have earlier : ∀ k, (∀ j < k, outside.failure (next.posts.length + j) ≠ none) →
              ∀ j < k + 1, outside.failure (made + j) ≠ none := by
            intro k others j below
            cases j with
            | zero => simp [failed]
            | succ j =>
                have later := others j (by omega)
                rwa [count, Nat.add_assoc, Nat.add_comm 1] at later
          have posts : ∀ k, next.posts ++ List.replicate k post =
              world.posts ++ List.replicate (k + 1) post := by
            intro k
            rw [List.append_assoc, List.singleton_append, ← List.replicate_succ]
          rw [again]
          rcases induction (some raised) next with ⟨k, below, others, taken, runs⟩ | ⟨others, runs⟩
          · left
            refine ⟨k + 1, by omega, earlier k others, ?_, ?_⟩
            · rwa [count, Nat.add_assoc, Nat.add_comm 1] at taken
            · rw [runs, posts (k + 1)]
          · right
            refine ⟨earlier left others, ?_⟩
            rw [runs, posts left, count, if_neg (Nat.succ_ne_zero left)]
            cases left with
            | zero => rw [if_pos rfl, Nat.zero_add, Nat.add_sub_cancel, failed]
            | succ left =>
                rw [if_neg (Nat.succ_ne_zero left), Nat.add_right_comm made 1 (left + 1)]
                rfl

end Attempts

/-! ## The whole of `send_callback` -/

section Sending

variable {outside : Outside} {world : Reporting} {settings : Settings}

theorem validation_keeps_world (url : List Char) :
    (run outside.handler world (isAllowedCallbackUrl settings url)).2 = world := by
  apply run_unchanged _ _ (allowed_url_makes settings url)
  intro request validates
  cases request
  case checkNetloc | getaddrinfo => rfl
  all_goals cases validates

theorem run_payload (jobId : String) (data : Fields) :
    ∃ body, run outside.handler world (buildPayload settings jobId data) = (.ok body, world) := by
  exact ⟨_, rfl⟩

theorem callback_runs (jobId : String) {url : String} (named : world.record.callbackUrl = some url)
    (nonempty : url ≠ "")
    (valid : (run outside.handler world (isAllowedCallbackUrl settings url.toList)).1 = .ok true) :
    ∃ body, run outside.handler world (sendCallback settings jobId) =
      run outside.handler world
        (attemptDelivery settings url body (max 1 settings.callbackRetries).toNat none) := by
  obtain ⟨body, payload⟩ := @run_payload outside world settings jobId world.record
  have read : outside.handler world (.hgetall .sendCallback) = (.ok (some world.record), world) := rfl
  refine ⟨body, ?_⟩
  rw [sendCallback, bind_is_and_then, run_and_then, storeGet, run_perform, read]
  simp only [on_value_ok, named, Option.getD_some, if_neg nonempty]
  rw [bind_is_and_then, run_and_then, validation_keeps_world, valid]
  simp only [on_value_ok, Bool.not_true, Bool.false_eq_true, if_false]
  rw [bind_is_and_then, run_and_then, payload]
  rfl

/-- What a record is to tell of the attempts made. -/
structure Truthful (outside : Outside) (settings : Settings) (before after : Reporting) : Prop where
  bounded : (after.posts.length : Int) ≤ max 1 settings.callbackRetries
  alike : ∃ post, ∀ made ∈ after.posts, made = post
  last : ∀ k < after.posts.length, outside.failure k = none → k + 1 = after.posts.length
  delivered : after.record.callbackStatus = some .delivered ↔
    ∃ k < after.posts.length, outside.Accepted k
  failed : (∀ k < after.posts.length, ¬ outside.Accepted k) →
    after.record.callbackStatus = some .failed ∧
      ∃ raised, outside.failure (after.posts.length - 1) = some raised ∧
        after.record.callbackError = some raised.message
  others : ∀ status error, { after.record with callbackStatus := status, callbackError := error } =
    { before.record with callbackStatus := status, callbackError := error }

/-- Of the attempts that may be made, the first that does not fail is accepted. -/
def Outside.FirstIsAccepted (outside : Outside) (settings : Settings) : Prop :=
  ∀ k < (max 1 settings.callbackRetries).toNat, (∀ j < k, outside.failure j ≠ none) →
    outside.failure k = none → outside.Accepted k

end Sending

/-- The record tells the truth about the attempts exactly if the first of them
that does not fail, if there is one, is answered with a 2xx status. -/
theorem delivery_truthful_iff (outside : Outside) (settings : Settings) (jobId : String)
    (record : Fields) (url : String) (named : record.callbackUrl = some url) (nonempty : url ≠ "")
    (valid : (run outside.handler { record } (isAllowedCallbackUrl settings url.toList)).1 =
      .ok true) :
    Truthful outside settings { record }
        (run outside.handler { record } (sendCallback settings jobId)).2 ↔
      outside.FirstIsAccepted settings := by
  let attempts := (max 1 settings.callbackRetries).toNat
  have counted : (attempts : Int) = max 1 settings.callbackRetries := by omega
  obtain ⟨body, same⟩ := @callback_runs outside { record } settings jobId url named nonempty valid
  rw [same]
  rcases @attempts_run outside settings url body attempts none { record } with
    ⟨k, below, others, taken, runs⟩ | ⟨others, runs⟩
  · simp only [List.length_nil, Nat.zero_add] at others taken runs
    have first : ∀ j, outside.failure j = none → k ≤ j := by
      intro j taken
      by_contra before
      exact others j (by omega) taken
    rw [runs]
    constructor
    · intro truthful other _ before next
      obtain ⟨j, inside, accepted⟩ := truthful.delivered.mp rfl
      have upper : j < k + 1 := by simpa using inside
      have atLeast := first j (accepted_not_failed accepted)
      have same : other = j := by
        have later := first other next
        by_contra apart
        exact before j (by omega) (accepted_not_failed accepted)
      rwa [same]
    · intro accepted
      have takenAccepted := accepted k below others taken
      constructor
      · simp only [List.nil_append, List.length_replicate]
        omega
      · exact ⟨_, fun made member => List.eq_of_mem_replicate member⟩
      · intro j inside next
        have later := first j next
        simp only [List.nil_append, List.length_replicate] at inside ⊢
        omega
      · apply iff_of_true rfl
        exact ⟨k, by simp, takenAccepted⟩
      · intro rejected
        exact absurd takenAccepted (rejected k (by simp))
      · intro status error
        rfl
  · simp only [List.length_nil, Nat.zero_add] at others runs
    have positive : 0 < attempts := by omega
    have rejected : ∀ k < attempts, ¬ outside.Accepted k :=
      fun k below accepted => others k below (accepted_not_failed accepted)
    rw [runs, if_neg positive.ne']
    apply iff_of_true
    · constructor
      · simp only [List.nil_append, List.length_replicate]
        omega
      · exact ⟨_, fun made member => List.eq_of_mem_replicate member⟩
      · intro k inside taken
        exact absurd taken (others k (by simpa using inside))
      · apply iff_of_false
        · simp [failedFields, Fields.override]
        · rintro ⟨k, inside, accepted⟩
          exact rejected k (by simpa using inside) accepted
      · intro _
        have lastFails := others (attempts - 1) (by omega)
        obtain ⟨raised, failed⟩ := Option.ne_none_iff_exists'.mp lastFails
        simp only [List.nil_append, List.length_replicate]
        refine ⟨rfl, raised, failed, ?_⟩
        rw [failed]
        rfl
      · intro status error
        rfl
    · intro k below _ taken
      exact absurd taken (others k below)

/-! ## A receiver that has moved -/

def answering (statusCode : Nat) : Outside where
  authority _ := true
  lookup _ := .ok [{
    text := "93.184.215.14"
    isLoopback := false
    isPrivate := false
    isLinkLocal := false
    isReserved := false
    isUnspecified := false
    isMulticast := false }]
  deliver _ := .ok { statusCode }

def reported : Fields where
  kind := some .build
  status := some .success
  callbackUrl := some "http://pretext.plus/done"

/-- A redirect is not followed, and counts as delivered. -/
theorem redirect_counts_as_delivered :
    (run (answering 301).handler { record := reported } (sendCallback defaults "j")).2.record.callbackStatus =
        some .delivered ∧
      ¬ Truthful (answering 301) defaults { record := reported }
        (run (answering 301).handler { record := reported } (sendCallback defaults "j")).2 := by
  have delivered : (run (answering 301).handler { record := reported }
      (sendCallback defaults "j")).2.record.callbackStatus = some .delivered := by
    decide +kernel
  refine ⟨delivered, ?_⟩
  intro truthful
  obtain ⟨k, -, response, answered, -, most⟩ := truthful.delivered.mp delivered
  cases answered
  exact absurd most (by decide)

theorem plain_answer_is_truthful :
    Truthful (answering 200) defaults { record := reported }
      (run (answering 200).handler { record := reported } (sendCallback defaults "j")).2 := by
  apply (delivery_truthful_iff (answering 200) defaults "j" reported "http://pretext.plus/done" rfl
    (by decide) (by decide +kernel)).mpr
  intro k _ _ _
  exact ⟨_, rfl, by decide, by decide⟩

end PretextBuildServer.CallbackDelivery
