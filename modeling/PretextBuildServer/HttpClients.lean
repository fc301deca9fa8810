import PretextBuildServer.HttpServer
import PretextBuildServer.RecordGrowth

/-!
# What clients get to see

Without the token nothing of a job ever happens, and whoever asks for it is told
that there is no such job. Whatever two requests about one job are answered, if
the second was made after the first had its answer, they tell two states of the
record of which the later takes nothing back.
-/

namespace PretextBuildServer.HttpClients

open EffectProgram EffectProgram.Program InterleavedParties
open PretextBuildServer.ServerSettings PretextBuildServer.JobRecord PretextBuildServer.JobCalls
open PretextBuildServer.StoreCalls PretextBuildServer.ApiEndpoints
open PretextBuildServer.ResultEndpoints PretextBuildServer.JobSystem
open PretextBuildServer.RequestProtocols
open PretextBuildServer.WholeServer PretextBuildServer.ServerQueues
open PretextBuildServer.ServerViews PretextBuildServer.RecordGrowth
open PretextBuildServer.HttpServer

set_option autoImplicit false

/-! ## Without the token -/

/-- The submission presents the token. -/
def Admitted (settings : Settings) : Request → Prop
  | .build _ _ token _ authorization | .generate _ _ _ token _ authorization =>
      Authorised settings token authorization

theorem refused_submission {job : Job} (refused : ¬ Admitted job.settings job.request) :
    job.submit = .done
      (.error { kind := .httpException 401, message := "Invalid or missing token" }) := by
  unfold Job.submit
  cases request : job.request with
  | build target projectId token callbackUrl authorization =>
      rw [request] at refused
      show createBuild _ _ _ _ _ _ _ = _
      rw [createBuild, check_token_refuses refused]
      rfl
  | generate target assets projectId token callbackUrl authorization =>
      rw [request] at refused
      show createGenerate _ _ _ _ _ _ _ _ = _
      rw [createGenerate, check_token_refuses refused]
      rfl

section Refused

variable {job : Job} {lifetime : Lifetime}

/-- Where there is no job, the worker waits for ever and a cancel request finds
nothing. -/
def absentMachine : Party → Machine JobCall.Answer Raised Unit
  | .submission => { admits := fun _ _ => False, step := fun _ _ _ _ => False }
  | .worker => {
      admits := fun _ request => request = .takeFromQueue
      step := fun _ _ _ _ => False }
  | .cancel _ => {
      admits := fun _ request => request = .hgetall .load
      step
        | _, .hgetall _, reply, _ => reply = .ok none
        | _, _, _, _ => False }

theorem start_absent (refused : ¬ Admitted job.settings job.request) (clock : Nat) :
    Keeps absentMachine (fun _ _ _ => True) (fun _ => ()) (job.start clock) := by
  intro party
  cases party with
  | submission =>
      have ended : (job.start clock).rest .submission = job.submit := rfl
      rw [ended, refused_submission refused]
      trivial
  | worker => exact ⟨rfl, fun _ _ impossible => impossible.elim⟩
  | cancel index =>
      refine ⟨rfl, ?_⟩
      rintro _ _ rfl
      trivial

theorem blank_upheld :
    Upholds (jobSurroundings lifetime) absentMachine (fun world _ => Blank world) where
  act world phases party request reply after blank admitted step := by
    obtain ⟨clock, rfl⟩ := blank
    cases party with
    | submission => exact admitted.elim
    | worker =>
        obtain rfl : request = .takeFromQueue := admitted
        obtain ⟨impossible, -⟩ := step
        cases impossible
    | cancel index =>
        obtain rfl : request = .hgetall .load := admitted
        obtain ⟨rfl, rfl⟩ := step
        exact ⟨(), rfl, clock, rfl⟩
  drift world phases after blank drifts := blank_drift blank (.single drifts)

theorem refused_job_blank (refused : ¬ Admitted job.settings job.request) (clock : Nat)
    {reached : JobConfiguration}
    (reaches : Reaches (jobSurroundings lifetime) (job.start clock) reached) :
    Blank reached.world := by
  obtain ⟨-, blank, -⟩ := keeps_reaches blank_upheld (fun _ => ()) ⟨clock, rfl⟩
    (start_absent refused clock) reaches
  exact blank

end Refused

section Runs

variable {Index : Type} [DecidableEq Index] {traffic : Traffic Index} {lifetime : Lifetime}
  {replicas : Kind → Nat} {clock : Nat}

theorem job_between {early late : HttpConfiguration Index}
    (reaches : Reaches (httpSurroundings traffic lifetime replicas) (traffic.start clock) early)
    (further : Reaches (httpSurroundings traffic lifetime replicas) early late) (index : Index) :
    ∃ first second : JobConfiguration,
      Reaches (jobSurroundings lifetime) ((traffic.workload.job index).start clock) first ∧
      Reaches (jobSurroundings lifetime) first second ∧
      first.world = early.world.seenFrom (traffic.workload.id index) ∧
      second.world = late.world.seenFrom (traffic.workload.id index) := by
  obtain ⟨served, run, follows⟩ := follows_reaches (start_follows clock) reaches
  obtain ⟨later, goesOn, again⟩ := follows_reaches follows further
  obtain ⟨phases, upheld, keeps⟩ := keeps_reaches queues_upheld _ (start_upheld clock)
    (start_keeps_protocols clock) run
  refine ⟨(jobView traffic.workload index).part served, (jobView traffic.workload index).part later,
    part_reaches (job_projects index) queues_upheld _ (start_upheld clock)
      (start_keeps_protocols clock) run,
    part_reaches (job_projects index) queues_upheld phases upheld keeps goesOn, ?_, ?_⟩
  · rw [← follows.shows.world]
    rfl
  · rw [← again.shows.world]
    rfl

/-- Nobody has been let in with a job of that id. -/
def Unasked (traffic : Traffic Index) (jobId : String) : Prop :=
  ∀ index, traffic.workload.id index = jobId →
    ¬ Admitted traffic.settings (traffic.submission index).request

theorem unasked_blank {jobId : String} (unasked : Unasked traffic jobId)
    {reached : HttpConfiguration Index}
    (reaches : Reaches (httpSurroundings traffic lifetime replicas) (traffic.start clock)
      reached) : Blank (reached.world.seenFrom jobId) := by
  by_cases known : ∃ index, traffic.workload.id index = jobId
  · obtain ⟨index, rfl⟩ := known
    obtain ⟨first, -, run, -, same, -⟩ := job_between reaches .refl index
    rw [← same]
    exact refused_job_blank (unasked index rfl) clock run
  · obtain ⟨served, -, follows⟩ := follows_reaches (start_follows clock) reaches
    exact follows.onlyAsked jobId fun index same => known ⟨index, same⟩

/-- The request is turned away, or told that there is no such job. -/
def TurnedAway (outcome : Except Raised HttpAnswer) : Prop :=
  ∃ raised, outcome = .error raised ∧
    (raised.kind = .httpException 401 ∨ raised.kind = .httpException 404)

theorem nothing_to_load {Result : Type} (kind : Kind) (next : Fields → JobProgram Result)
    (make : Result → HttpAnswer) :
    Guarantees (lookMachine False) (fun _ outcome => TurnedAway outcome) ()
      (make <$> (load kind >>= next)) := by
  refine ⟨rfl, fun read after step => ?_⟩
  rcases step with impossible | rfl
  · exact impossible.elim
  · exact ⟨_, rfl, .inr rfl⟩

theorem start_turned_away (settings : Settings) (request : HttpRequest) :
    Guarantees (lookMachine False) (fun _ outcome => TurnedAway outcome) ()
      (answer settings request) := by
  rw [answer_of_kind]
  cases request.endpoint with
  | status => exact nothing_to_load _ _ _
  | log => exact nothing_to_load _ _ _
  | artifact => exact nothing_to_load _ _ _
  | cancel =>
      dsimp only
      by_cases authorised : Authorised settings request.token request.authorization
      · rw [cancelJob, check_token_passes authorised]
        exact nothing_to_load _ _ _
      · rw [cancelJob, check_token_refuses authorised]
        exact ⟨_, rfl, .inl rfl⟩

theorem request_turned_away {jobId : String} (unasked : Unasked traffic jobId) {number : Nat}
    (about : (traffic.request number).jobId = jobId) {reached : HttpConfiguration Index}
    (reaches : Reaches (httpSurroundings traffic lifetime replicas) (traffic.start clock)
      reached) :
    Guarantees (lookMachine False) (fun _ outcome => TurnedAway outcome) ()
      (reached.rest (.request number)) := by
  induction reaches with
  | refl => exact start_turned_away _ _
  | tail earlier move induction =>
      have blank := unasked_blank unasked earlier
      cases move with
      | drift later drifts => exact induction
      | act party request next reply later waiting step =>
          by_cases same : party = .request number
          · subst same
            rw [waiting] at induction
            rw [← about] at blank
            have answered := absent_answered False (no_record_of_blank blank) request reply step
            simpa using induction.2 reply () answered
          · simpa [Function.update_of_ne (Ne.symm same)] using induction

/-- Where no submission with the token has got a job of an id, Redis and RQ know
nothing of it, no container is started for it, and whoever asks for it is turned
away. -/
theorem nothing_without_token {Index : Type} [DecidableEq Index] (traffic : Traffic Index)
    (lifetime : Lifetime) (replicas : Kind → Nat) (clock : Nat) (reached : HttpConfiguration Index)
    (reaches : Reaches (httpSurroundings traffic lifetime replicas) (traffic.start clock) reached)
    (jobId : String) (unasked : Unasked traffic jobId) :
    Blank (reached.world.seenFrom jobId) ∧
      ∀ number outcome, (traffic.request number).jobId = jobId →
        reached.rest (.request number) = .done outcome → TurnedAway outcome := by
  refine ⟨unasked_blank unasked reaches, fun number outcome about ended => ?_⟩
  have holds := request_turned_away unasked about reaches
  rw [ended] at holds
  exact holds

def askedForBoth : HttpConfiguration Bool :=
  letTurn (List.replicate 8 (.submission true) ++ List.replicate 2 (.request 2) ++
    [.submission false, .worker false, .request 4]) (twoSubmissions.start 0)

theorem guessed_token_gets_nothing :
    Blank (askedForBoth.world.seenFrom "other") ∧
      ∀ number outcome, (twoSubmissions.request number).jobId = "other" →
        askedForBoth.rest (.request number) = .done outcome → TurnedAway outcome := by
  have each : ∀ index, twoSubmissions.workload.id index = "other" → index = false := by decide
  refine nothing_without_token twoSubmissions .persistent oneEach 0 askedForBoth
    (let_turn_reaches _ _) "other" fun index same => ?_
  obtain rfl := each index same
  rintro ⟨-, presented⟩
  revert presented
  decide

/-! ## What answers tell -/

def HttpAnswer.TellsOf (answer : HttpAnswer) (request : HttpRequest) (data : Fields) : Prop :=
  data.kind.getD .build = request.kind ∧
    match answer with
    | .status response =>
        response.jobId = request.jobId ∧ response.data = data ∧
          response.logUrl =
            data.log.map fun _ => s!"{jobPrefixes request.kind}/{request.jobId}/log"
    | .log text => text = data.log.getD ""
    | .artifact _ => data.isTerminal = true
    | .cancel _ _ => False

/-- A request that has read the record remembers what it has found. -/
def readMachine : Machine JobCall.Answer Raised (Option Fields) where
  admits _ request := looks request = true
  step
    | _, .hgetall _, reply, after => ∃ found, reply = .ok found ∧ after = found
    | found, _, _, after => after = found

def ToldRightly (request : HttpRequest) (found : Option Fields)
    (outcome : Except Raised HttpAnswer) : Prop :=
  ∀ answer, outcome = .ok answer →
    ∃ data, found = some data ∧ HttpAnswer.TellsOf answer request data

theorem loaded_rightly {request : HttpRequest} {found : Option Fields} {Result : Type}
    (next : Fields → JobProgram Result) (make : Result → HttpAnswer)
    (rest : ∀ data, data.kind.getD .build = request.kind →
      Guarantees readMachine (ToldRightly request) (some data) (make <$> next data)) :
    Guarantees readMachine (ToldRightly request) found
      (make <$> (load request.kind >>= next)) := by
  refine ⟨rfl, ?_⟩
  rintro _ seen ⟨_, rfl, rfl⟩
  rcases seen with _ | data
  · rintro answer ⟨⟩
  · simp only [done_and_then, on_value_ok]
    split
    · rintro answer ⟨⟩
    · rename_i same
      exact rest data (not_not.mp same)

theorem answered_rightly (settings : Settings) (request : HttpRequest)
    (reads : request.endpoint ≠ .cancel) (found : Option Fields) :
    Guarantees readMachine (ToldRightly request) found (answer settings request) := by
  rw [answer_of_kind]
  cases endpoint : request.endpoint with
  | cancel => exact absurd endpoint reads
  | log =>
      refine loaded_rightly _ _ fun data same => ?_
      rintro answer ⟨⟩
      exact ⟨data, rfl, same, rfl⟩
  | status =>
      refine loaded_rightly _ _ fun data same => ⟨rfl, ?_⟩
      rintro looked _ rfl
      cases looked with
      | error raised => rintro answer ⟨⟩
      | ok hasArtifact =>
          rintro answer ⟨⟩
          exact ⟨data, rfl, same, rfl, rfl, rfl⟩
  | artifact =>
      refine loaded_rightly _ _ fun data same => ?_
      simp only [map_is_and_then]
      split
      · rintro answer ⟨⟩
      · rename_i ended
        refine ⟨rfl, ?_⟩
        rintro looked _ rfl
        rcases looked with raised | _ | _
        · rintro answer ⟨⟩
        · rintro answer ⟨⟩
        · rintro answer ⟨⟩
          exact ⟨data, rfl, same, by simpa using ended⟩

/-- The record of the job a request is about has shown this between two moments. -/
def Seen (traffic : Traffic Index) (lifetime : Lifetime) (replicas : Kind → Nat) (number : Nat)
    (before reached : HttpConfiguration Index) (data : Fields) : Prop :=
  ∃ moment, Reaches (httpSurroundings traffic lifetime replicas) before moment ∧
    Reaches (httpSurroundings traffic lifetime replicas) moment reached ∧
    (moment.world.hash (traffic.request number).jobId).map Key.fields = some data

theorem answers_seen {number : Nat} (reads : (traffic.request number).endpoint ≠ .cancel)
    {before reached : HttpConfiguration Index}
    (unasked : before.rest (.request number) = traffic.program (.request number))
    (reaches : Reaches (httpSurroundings traffic lifetime replicas) before reached) :
    ∃ found, Guarantees readMachine (ToldRightly (traffic.request number)) found
        (reached.rest (.request number)) ∧
      ∀ data, found = some data → Seen traffic lifetime replicas number before reached data := by
  induction reaches with
  | refl =>
      refine ⟨none, ?_, ?_⟩
      · rw [unasked]
        exact answered_rightly _ _ reads none
      · rintro data ⟨⟩
  | @tail middle after earlier move induction =>
      obtain ⟨found, owed, seen⟩ := induction
      have still : ∀ data, found = some data →
          Seen traffic lifetime replicas number before after data := by
        intro data isFound
        obtain ⟨moment, run, further, shown⟩ := seen data isFound
        exact ⟨moment, run, further.tail move, shown⟩
      cases move with
      | drift later drifts => exact ⟨found, owed, still⟩
      | act party request next reply later waiting step =>
          by_cases same : party = .request number
          · subst same
            rw [waiting] at owed
            cases request
            case hgetall reader =>
                refine ⟨_, by simpa using owed.2 reply _ ⟨_, step.1, rfl⟩, fun data shown => ?_⟩
                exact ⟨_, earlier, .single (.act _ _ _ next reply later waiting step), shown⟩
            all_goals exact ⟨found, by simpa using owed.2 reply found rfl, still⟩
          · exact ⟨found, by simpa [Function.update_of_ne (Ne.symm same)] using owed, still⟩

theorem shown_between {early late : HttpConfiguration Index}
    (reaches : Reaches (httpSurroundings traffic .persistent replicas) (traffic.start clock) early)
    (further : Reaches (httpSurroundings traffic .persistent replicas) early late)
    {jobId : String} {shown : Fields}
    (found : (early.world.hash jobId).map Key.fields = some shown) :
    ∃ later, (late.world.hash jobId).map Key.fields = some later ∧ Extends shown later := by
  have known : ∃ index, traffic.workload.id index = jobId := by
    by_contra stray
    obtain ⟨served, -, follows⟩ := follows_reaches (start_follows clock) reaches
    have blank := follows.onlyAsked jobId fun index same => stray ⟨index, same⟩
    rw [no_record_of_blank blank] at found
    cases found
  obtain ⟨index, rfl⟩ := known
  obtain ⟨first, second, run, goesOn, before, after⟩ := job_between reaches further index
  have foundFirst : first.world.record.map Key.fields = some shown := by
    rw [before]
    exact found
  obtain ⟨later, foundSecond, extended⟩ := grown_between _ clock run goesOn foundFirst
  rw [after] at foundSecond
  exact ⟨later, foundSecond, extended⟩

end Runs

/-- Of two answers about one job, the second asked for after the first was given,
both tell a state the record was in, and the second takes back
nothing of what the first has told. -/
theorem later_answers_tell_more {Index : Type} [DecidableEq Index] (traffic : Traffic Index)
    (replicas : Kind → Nat) (clock : Nat) (first second : HttpConfiguration Index)
    (reaches : Reaches (httpSurroundings traffic .persistent replicas) (traffic.start clock) first)
    (further : Reaches (httpSurroundings traffic .persistent replicas) first second)
    (early late : Nat) (sameJob : (traffic.request late).jobId = (traffic.request early).jobId)
    (reads : (traffic.request early).endpoint ≠ .cancel)
    (readsLater : (traffic.request late).endpoint ≠ .cancel) (told more : HttpAnswer)
    (answered : first.rest (.request early) = .done (.ok told))
    (unasked : first.rest (.request late) = traffic.program (.request late))
    (answeredLater : second.rest (.request late) = .done (.ok more)) :
    ∃ shown later,
      Seen traffic .persistent replicas early (traffic.start clock) first shown ∧
      Seen traffic .persistent replicas late first second later ∧
      HttpAnswer.TellsOf told (traffic.request early) shown ∧
      HttpAnswer.TellsOf more (traffic.request late) later ∧ Extends shown later := by
  obtain ⟨found, owed, seen⟩ := answers_seen reads rfl reaches
  rw [answered] at owed
  obtain ⟨shown, rfl, tells⟩ := owed told rfl
  obtain ⟨moment, run, goesOn, isShown⟩ := seen shown rfl
  obtain ⟨foundLater, owedLater, seenLater⟩ := answers_seen readsLater unasked further
  rw [answeredLater] at owedLater
  obtain ⟨later, rfl, tellsLater⟩ := owedLater more rfl
  obtain ⟨last, runLater, -, isLater⟩ := seenLater later rfl
  obtain ⟨grown, isGrown, extended⟩ := shown_between run (goesOn.trans runLater) isShown
  rw [← sameJob, isLater] at isGrown
  cases isGrown
  exact ⟨shown, later, seen shown rfl, seenLater later rfl, tells, tellsLater, extended⟩

def askedForLog : HttpConfiguration Bool :=
  letTurn (List.replicate 20 (.worker true) ++ [.request 3]) askedForBoth

theorem log_tells_more :
    ∃ told more shown later, askedForBoth.rest (.request 2) = .done (.ok told) ∧
      askedForLog.rest (.request 3) = .done (.ok more) ∧
      Seen twoSubmissions .persistent oneEach 2 (twoSubmissions.start 0) askedForBoth shown ∧
      Seen twoSubmissions .persistent oneEach 3 askedForBoth askedForLog later ∧
      HttpAnswer.TellsOf told (twoSubmissions.request 2) shown ∧
      HttpAnswer.TellsOf more (twoSubmissions.request 3) later ∧ Extends shown later := by
  obtain ⟨told, answered⟩ : ∃ told, askedForBoth.rest (.request 2) = .done (.ok told) :=
    ⟨_, rfl⟩
  obtain ⟨more, answeredLater⟩ : ∃ more, askedForLog.rest (.request 3) = .done (.ok more) :=
    ⟨_, rfl⟩
  obtain ⟨shown, later, tells⟩ := later_answers_tell_more twoSubmissions oneEach 0
    askedForBoth askedForLog (let_turn_reaches _ _) (let_turn_reaches _ _) 2 3 rfl nofun nofun told
    more answered rfl answeredLater
  exact ⟨told, more, shown, later, answered, answeredLater, tells⟩

end PretextBuildServer.HttpClients
