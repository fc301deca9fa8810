import PretextBuildServer.ResultEndpoints
import PretextBuildServer.ServerViews

/-!
# The server behind its routes

Anybody may send any request at any time, with any job id. Only a submission and
a cancel request ask for the token; the other requests read the record, and at
most look for the archive. A run of the server behind its routes is a run of the
server of `WholeServer`, in which nobody but the authorised cancels jobs.
-/

namespace PretextBuildServer.HttpServer

open EffectProgram EffectProgram.Program InterleavedParties
open PretextBuildServer.ServerSettings PretextBuildServer.JobRecord PretextBuildServer.JobCalls
open PretextBuildServer.StoreCalls PretextBuildServer.ApiEndpoints
open PretextBuildServer.ResultEndpoints PretextBuildServer.JobSystem
open PretextBuildServer.WholeServer PretextBuildServer.ServerQueues
open PretextBuildServer.ServerViews

set_option autoImplicit false

/-! ## The routes -/

/-- The full, untruncated log; empty while there is none. -/
def log (kind : Kind) : JobProgram String := do
  let data ← load kind
  return data.log.getD ""

def cancelJob (settings : Settings) (kind : Kind) (token authorization : Option String) :
    JobProgram CancelAnswer := do
  checkToken settings token authorization
  cancel kind

section Routes

variable (settings : Settings) (jobId : String) (token authorization : Option String)

def cancelBuild : JobProgram CancelAnswer := cancelJob settings .build token authorization

def getBuild : JobProgram StatusResponse := status settings jobId .build

def getBuildLog : JobProgram String := log .build

def getBuildArtifact : JobProgram FileResponse := artifact settings jobId .build

def cancelGenerate : JobProgram CancelAnswer := cancelJob settings .generate token authorization

def getGenerate : JobProgram StatusResponse := status settings jobId .generate

def getGenerateLog : JobProgram String := log .generate

def getGenerateArtifact : JobProgram FileResponse := artifact settings jobId .generate

end Routes

/-- The fifth route under `/generate` reads the archive; it is in `FileRetrieval`. -/
inductive Endpoint where
  | status
  | log
  | artifact
  | cancel
  deriving DecidableEq, Repr

/-- A request about a job, under `/builds` or `/generate`. -/
structure HttpRequest where
  kind : Kind
  jobId : String
  endpoint : Endpoint
  token : Option String := none
  authorization : Option String := none

inductive HttpAnswer where
  | status (response : StatusResponse)
  | log (text : String)
  | artifact (response : FileResponse)
  | cancel (jobId : String) (answer : CancelAnswer)

def answer (settings : Settings) (request : HttpRequest) : JobProgram HttpAnswer :=
  let { jobId, token, authorization, .. } := request
  match request.kind, request.endpoint with
  | .build, .status => .status <$> getBuild settings jobId
  | .build, .log => .log <$> getBuildLog
  | .build, .artifact => .artifact <$> getBuildArtifact settings jobId
  | .build, .cancel => .cancel jobId <$> cancelBuild settings token authorization
  | .generate, .status => .status <$> getGenerate settings jobId
  | .generate, .log => .log <$> getGenerateLog
  | .generate, .artifact => .artifact <$> getGenerateArtifact settings jobId
  | .generate, .cancel => .cancel jobId <$> cancelGenerate settings token authorization

theorem answer_of_kind (settings : Settings) (request : HttpRequest) :
    answer settings request = match request.endpoint with
      | .status => .status <$> status settings request.jobId request.kind
      | .log => .log <$> log request.kind
      | .artifact => .artifact <$> artifact settings request.jobId request.kind
      | .cancel =>
          .cancel request.jobId <$>
            cancelJob settings request.kind request.token request.authorization := by
  obtain ⟨kind, jobId, endpoint, token, authorization⟩ := request
  cases kind <;> cases endpoint <;> rfl

/-! ## The server -/

structure Submission where
  jobId : String
  request : Request
  command : String

/-- All that one server is ever asked for. `uuid4` draws no id twice. -/
structure Traffic (Index : Type) where
  settings : Settings
  submission : Index → Submission
  fresh : Function.Injective fun index => (submission index).jobId
  request : Nat → HttpRequest

inductive HttpParty (Index : Type) where
  | submission (index : Index)
  | worker (index : Index)
  | request (number : Nat)
  deriving DecidableEq

abbrev HttpOutcome {Index : Type} : HttpParty Index → Type
  | .submission _ => Outcome .submission
  | .worker _ => Outcome .worker
  | .request _ => HttpAnswer

abbrev HttpConfiguration (Index : Type) :=
  Configuration JobCall.Answer Raised ServerWorld (HttpParty Index) HttpOutcome

namespace Traffic

variable {Index : Type} (traffic : Traffic Index)

/-- The jobs, each with what the requests to cancel it would do. -/
def workload : Workload Index where
  job index := {
    settings := traffic.settings
    jobId := (traffic.submission index).jobId
    request := (traffic.submission index).request
    command := (traffic.submission index).command
    endpoint := fun number => (traffic.request number).kind }
  fresh := traffic.fresh

/-- The job a party acts on. -/
def jobId : HttpParty Index → String
  | .submission index | .worker index => traffic.workload.id index
  | .request number => (traffic.request number).jobId

def program : (party : HttpParty Index) → JobProgram (HttpOutcome party)
  | .submission index => (traffic.workload.job index).submit
  | .worker index => (traffic.workload.job index).work
  | .request number => answer traffic.settings (traffic.request number)

def start (clock : Nat) : HttpConfiguration Index where
  world := { clock }
  rest := traffic.program

end Traffic

def httpSurroundings {Index : Type} (traffic : Traffic Index) (lifetime : Lifetime)
    (replicas : Kind → Nat) :
    Surroundings JobCall.Answer Raised ServerWorld (HttpParty Index) where
  machine party := {
    admits := fun _ _ => True
    step := serverStep lifetime replicas (traffic.jobId party) }
  drift := ServerDrift lifetime

/-- What `_check_token` lets pass. -/
def Authorised (settings : Settings) (token authorization : Option String) : Prop :=
  settings.buildToken ≠ "" ∧ presentedToken token authorization = some settings.buildToken

section Token

variable {settings : Settings} {token authorization : Option String}

theorem check_token_passes (authorised : Authorised settings token authorization) :
    checkToken settings token authorization = .done (.ok ()) := by
  rw [checkToken, if_neg]
  · rfl
  · rintro (unset | wrong)
    · exact authorised.1 unset
    · exact wrong authorised.2

theorem check_token_refuses (unauthorised : ¬ Authorised settings token authorization) :
    checkToken settings token authorization =
      .done (.error { kind := .httpException 401, message := "Invalid or missing token" }) := by
  rw [checkToken, if_pos]
  · rfl
  · by_contra passes
    obtain ⟨isSet, right⟩ := not_or.mp passes
    exact unauthorised ⟨isSet, not_not.mp right⟩

end Token

/-- An authorised request to cancel the job with that index. -/
def Traffic.Cancels {Index : Type} (traffic : Traffic Index) (number : Nat) (index : Index) :
    Prop :=
  let request := traffic.request number
  request.endpoint = .cancel ∧ request.jobId = traffic.workload.id index ∧
    Authorised traffic.settings request.token request.authorization

/-- What a cancel request is answered with, from what `_cancel` returns. -/
def cancelAnswer (request : HttpRequest) (outcome : Except Raised CancelAnswer) :
    Except Raised HttpAnswer :=
  outcome.map (.cancel request.jobId)

/-- The two servers side by side: one world, the same submissions and workers,
and the authorised cancel requests where `_cancel` is in them. -/
structure Shows {Index : Type} (traffic : Traffic Index) (reached : HttpConfiguration Index)
    (served : ServerConfiguration Index) : Prop where
  world : served.world = reached.world
  submission : ∀ index, served.rest (index, .submission) = reached.rest (.submission index)
  worker : ∀ index, served.rest (index, .worker) = reached.rest (.worker index)
  cancels : ∀ number index, traffic.Cancels number index →
    reached.rest (.request number) = (served.rest (index, .cancel number)).andThen fun outcome =>
      .done (cancelAnswer (traffic.request number) outcome)
  others : ∀ number index, ¬ traffic.Cancels number index →
    served.rest (index, .cancel number) = cancel (traffic.request number).kind

/-! ## The requests that change nothing -/

def looks : JobCall → Bool
  | .hgetall .load | .isFile _ => true
  | _ => false

/-- Nobody but a party of the job has ever written to a record: where there is no
such job, none is found. -/
def lookMachine (known : Prop) : Machine JobCall.Answer Raised Unit where
  admits _ request := looks request = true
  step
    | _, .hgetall _, reply, _ => known ∨ reply = .ok none
    | _, _, _, _ => True

section Requests

variable {settings : Settings} {request : HttpRequest}

theorem load_looks (kind : Kind) :
    MakesOnly (fun request => looks request = true) (load kind) := by
  refine ⟨rfl, fun read => ?_⟩
  rcases read with raised | _ | data
  · trivial
  · trivial
  · simp only [done_and_then, on_value_ok]
    split <;> trivial

theorem status_looks (jobId : String) (kind : Kind) :
    MakesOnly (fun request => looks request = true) (status settings jobId kind) := by
  apply makes_only_and_then _ _ (load_looks kind)
  rintro (raised | data)
  · trivial
  · refine ⟨rfl, fun found => ?_⟩
    cases found <;> trivial

theorem log_looks (kind : Kind) :
    MakesOnly (fun request => looks request = true) (log kind) := by
  apply makes_only_and_then _ _ (load_looks kind)
  rintro (raised | data) <;> trivial

theorem artifact_looks (jobId : String) (kind : Kind) :
    MakesOnly (fun request => looks request = true) (artifact settings jobId kind) := by
  apply makes_only_and_then _ _ (load_looks kind)
  rintro (raised | data)
  · trivial
  simp only [on_value_ok]
  split
  · trivial
  · refine ⟨rfl, fun found => ?_⟩
    rcases found with raised | _ | _ <;> trivial

theorem answer_looks (reads : request.endpoint ≠ .cancel) :
    MakesOnly (fun request => looks request = true) (answer settings request) := by
  have mapped : ∀ {Result : Type} (program : JobProgram Result) (make : Result → HttpAnswer),
      MakesOnly (fun request => looks request = true) program →
      MakesOnly (fun request => looks request = true) (make <$> program) := by
    intro Result program make only
    apply makes_only_and_then _ _ only
    rintro (raised | result) <;> trivial
  rw [answer_of_kind]
  cases endpoint : request.endpoint with
  | status => exact mapped _ _ (status_looks _ _)
  | log => exact mapped _ _ (log_looks _)
  | artifact => exact mapped _ _ (artifact_looks _ _)
  | cancel => exact absurd endpoint reads

theorem looking_guarantees (known : Prop) {Result : Type} (program : JobProgram Result)
    (only : MakesOnly (fun request => looks request = true) program) :
    Guarantees (lookMachine known) (fun _ _ => True) () program := by
  have same : Guarantees (lookMachine known) (fun after _ => after = ()) () program :=
    guarantees_of_makes_only () program only (fun _ looks => looks) fun _ _ _ _ _ => rfl
  exact guarantees_mono () program (fun _ _ _ => trivial) same

theorem stray_guarantees (cancels : request.endpoint = .cancel) :
    Guarantees (lookMachine False) (fun _ _ => True) () (answer settings request) := by
  rw [answer_of_kind, cancels]
  by_cases authorised : Authorised settings request.token request.authorization
  · rw [cancelJob, check_token_passes authorised]
    refine ⟨rfl, fun read after step => ?_⟩
    rcases step with impossible | rfl
    · exact impossible.elim
    · trivial
  · rw [cancelJob, check_token_refuses authorised]
    trivial

end Requests

section Runs

variable {Index : Type} {traffic : Traffic Index} {lifetime : Lifetime} {replicas : Kind → Nat}

/-- Nothing of a job has happened: there is no record, RQ has not heard of it, and
no container has been started for it. -/
def Blank (seen : JobWorld) : Prop := ∃ clock, seen = { clock }

theorem blank_drift {seen after : JobWorld} (blank : Blank seen)
    (drifts : Relation.ReflTransGen (JobDrift lifetime) seen after) : Blank after := by
  induction drifts with
  | refl => exact blank
  | tail _ drift induction =>
      obtain ⟨clock, rfl⟩ := induction
      cases drift with
      | tick later passes =>
          refine ⟨later, ?_⟩
          cases lifetime <;> rfl
      | forget past => rcases past with impossible | impossible <;> cases impossible
      | exit statusCode up => cases up

/-- Where nobody has asked for a job of an id, there is nothing of it. -/
def OnlyAsked (traffic : Traffic Index) (world : ServerWorld) : Prop :=
  ∀ jobId, (∀ index, traffic.workload.id index ≠ jobId) → Blank (world.seenFrom jobId)

theorem no_record_of_blank {world : ServerWorld} {jobId : String}
    (blank : Blank (world.seenFrom jobId)) : world.hash jobId = none := by
  obtain ⟨clock, same⟩ := blank
  exact congrArg JobWorld.record same

theorem look_unchanged {jobId : String} {world after : ServerWorld} (request : JobCall)
    (reply : JobReply request) (isLook : looks request = true)
    (step : serverStep lifetime replicas jobId world request reply after) : after = world := by
  cases request
  case hgetall reader =>
      cases reader
      case load => exact step.2
      all_goals cases isLook
  case isFile path => exact step.2
  all_goals cases isLook

theorem bystander_guarantees (number : Nat) (none : ∀ index, ¬ traffic.Cancels number index) :
    Guarantees (lookMachine (∃ index, traffic.workload.id index = (traffic.request number).jobId))
      (fun _ _ => True) () (answer traffic.settings (traffic.request number)) := by
  by_cases cancels : (traffic.request number).endpoint = .cancel
  · by_cases known : ∃ index, traffic.workload.id index = (traffic.request number).jobId
    · obtain ⟨index, same⟩ := known
      have unauthorised : ¬ Authorised traffic.settings (traffic.request number).token
          (traffic.request number).authorization := fun authorised =>
        none index ⟨cancels, same.symm, authorised⟩
      rw [answer_of_kind, cancels, cancelJob, check_token_refuses unauthorised]
      trivial
    · rw [eq_false known]
      exact stray_guarantees cancels
  · exact looking_guarantees _ _ (answer_looks cancels)

/-- Side by side, with what is needed to go on so. -/
structure Follows (traffic : Traffic Index) (reached : HttpConfiguration Index)
    (served : ServerConfiguration Index) : Prop where
  shows : Shows traffic reached served
  onlyAsked : OnlyAsked traffic reached.world
  looking : ∀ number, (∀ index, ¬ traffic.Cancels number index) →
    Guarantees (lookMachine (∃ index, traffic.workload.id index = (traffic.request number).jobId))
      (fun _ _ => True) () (reached.rest (.request number))

theorem start_follows (clock : Nat) :
    Follows traffic (traffic.start clock) (traffic.workload.start clock) where
  shows := {
    world := rfl
    submission := fun _ => rfl
    worker := fun _ => rfl
    cancels := by
      rintro number index ⟨cancels, -, authorised⟩
      have asked : (traffic.start clock).rest (.request number) =
        answer traffic.settings (traffic.request number) := rfl
      have answered : ∀ outcome, 
          onValue (fun result => .done (.ok (.cancel (traffic.request number).jobId result)))
              outcome =
            (.done (cancelAnswer (traffic.request number) outcome) : JobProgram HttpAnswer) := by
        rintro (raised | result) <;> rfl
      rw [asked, answer_of_kind, cancels, cancelJob, check_token_passes authorised]
      exact congrArg (andThen (cancel (traffic.request number).kind)) (funext answered)
    others := fun _ _ _ => rfl }
  onlyAsked _ _ := ⟨clock, rfl⟩
  looking number none := bystander_guarantees number none

theorem asked_by_step {world after : ServerWorld} (onlyAsked : OnlyAsked traffic world)
    {jobId : String} {request : JobCall} {reply : JobReply request}
    (known : ∃ index, traffic.workload.id index = jobId)
    (step : serverStep lifetime replicas jobId world request reply after) :
    OnlyAsked traffic after := by
  intro other stray
  obtain ⟨index, rfl⟩ := known
  rw [other_step_hidden (Ne.symm (stray index)) request reply step]
  exact onlyAsked other stray

theorem asked_by_drift {world after : ServerWorld} (onlyAsked : OnlyAsked traffic world)
    (drifts : ServerDrift lifetime world after) : OnlyAsked traffic after :=
  fun jobId stray => blank_drift (onlyAsked jobId stray) (drift_seen drifts)

theorem absent_answered (known : Prop) {jobId : String} {world after : ServerWorld}
    (absent : world.hash jobId = none) (request : JobCall) (reply : JobReply request)
    (step : serverStep lifetime replicas jobId world request reply after) :
    (lookMachine known).step () request reply () := by
  cases request
  case hgetall reader =>
      refine .inr (step.1.trans ?_)
      rw [absent]
      rfl
  all_goals trivial

theorem look_answered {jobId : String} {world after : ServerWorld}
    (onlyAsked : OnlyAsked traffic world) (request : JobCall) (reply : JobReply request)
    (step : serverStep lifetime replicas jobId world request reply after) :
    (lookMachine (∃ index, traffic.workload.id index = jobId)).step () request reply () := by
  by_cases known : ∃ index, traffic.workload.id index = jobId
  · cases request
    case hgetall reader => exact .inl known
    all_goals trivial
  · have blank := onlyAsked jobId fun index same => known ⟨index, same⟩
    exact absent_answered _ (no_record_of_blank blank) request reply step

section Moves

variable [DecidableEq Index] {reached after : HttpConfiguration Index}
  {served : ServerConfiguration Index}

theorem follows_submission (follows : Follows traffic reached served) {index : Index}
    {request : JobCall}
    {next : JobReply request → JobProgram (Outcome .submission)}
    (waiting : reached.rest (.submission index) = .call request next) {reply : JobReply request}
    {world : ServerWorld}
    (step : serverStep lifetime replicas (traffic.workload.id index) reached.world request reply
      world) :
    ∃ later, Reaches (serverSurroundings traffic.workload lifetime replicas) served later ∧
      Follows traffic ⟨world, Function.update reached.rest (.submission index) (next reply)⟩
        later := by
  have shown := follows.shows.submission index
  rw [waiting] at shown
  rw [← follows.shows.world] at step
  refine ⟨_, act_reaches _ served (index, .submission) reply world shown step,
    ⟨rfl, fun job => ?_, fun job => ?_, fun number job isCancel => ?_,
      fun number job isOther => ?_⟩,
    asked_by_step follows.onlyAsked ⟨index, rfl⟩ (follows.shows.world ▸ step),
    fun number none => ?_⟩
  · by_cases same : job = index
    · subst same
      simp
    · simpa [same] using follows.shows.submission job
  · simpa using follows.shows.worker job
  · simpa using follows.shows.cancels number job isCancel
  · simpa using follows.shows.others number job isOther
  · simpa using follows.looking number none

theorem follows_worker (follows : Follows traffic reached served) {index : Index}
    {request : JobCall}
    {next : JobReply request → JobProgram (Outcome .worker)}
    (waiting : reached.rest (.worker index) = .call request next) {reply : JobReply request}
    {world : ServerWorld}
    (step : serverStep lifetime replicas (traffic.workload.id index) reached.world request reply
      world) :
    ∃ later, Reaches (serverSurroundings traffic.workload lifetime replicas) served later ∧
      Follows traffic ⟨world, Function.update reached.rest (.worker index) (next reply)⟩ later := by
  have shown := follows.shows.worker index
  rw [waiting] at shown
  rw [← follows.shows.world] at step
  refine ⟨_, act_reaches _ served (index, .worker) reply world shown step,
    ⟨rfl, fun job => ?_, fun job => ?_, fun number job isCancel => ?_,
      fun number job isOther => ?_⟩,
    asked_by_step follows.onlyAsked ⟨index, rfl⟩ (follows.shows.world ▸ step),
    fun number none => ?_⟩
  · simpa using follows.shows.submission job
  · by_cases same : job = index
    · subst same
      simp
    · simpa [same] using follows.shows.worker job
  · simpa using follows.shows.cancels number job isCancel
  · simpa using follows.shows.others number job isOther
  · simpa using follows.looking number none

theorem follows_cancel (follows : Follows traffic reached served) {number : Nat} {index : Index}
    (cancels : traffic.Cancels number index) {request : JobCall}
    {next : JobReply request → JobProgram HttpAnswer}
    (waiting : reached.rest (.request number) = .call request next) {reply : JobReply request}
    {world : ServerWorld}
    (step : serverStep lifetime replicas (traffic.request number).jobId reached.world request reply
      world) :
    ∃ later, Reaches (serverSurroundings traffic.workload lifetime replicas) served later ∧
      Follows traffic ⟨world, Function.update reached.rest (.request number) (next reply)⟩
        later := by
  have shown := follows.shows.cancels number index cancels
  rw [waiting] at shown
  cases rest : served.rest (index, .cancel number) with
  | done outcome =>
      rw [rest] at shown
      cases shown
  | call asked following =>
      rw [rest] at shown
      cases shown
      rw [cancels.2.1, ← follows.shows.world] at step
      refine ⟨_, act_reaches _ served (index, .cancel number) reply world rest step, ?_⟩
      refine ⟨⟨rfl, fun job => ?_, fun job => ?_, fun later job isCancel => ?_,
        fun later job isOther => ?_⟩,
        asked_by_step follows.onlyAsked ⟨index, rfl⟩ (follows.shows.world ▸ step),
        fun later none => ?_⟩
      · simpa using follows.shows.submission job
      · simpa using follows.shows.worker job
      · by_cases same : later = number
        · subst same
          obtain rfl : job = index :=
            traffic.workload.id_injective (isCancel.2.1.symm.trans cancels.2.1)
          simp
        · simpa [same] using follows.shows.cancels later job isCancel
      · have apart : (job, Party.cancel later) ≠ (index, Party.cancel number) := by
          rintro ⟨⟩
          exact isOther cancels
        exact (Function.update_of_ne apart _ _).trans (follows.shows.others later job isOther)
      · have unlike : later ≠ number := by
          rintro rfl
          exact none index cancels
        simpa [unlike] using follows.looking later none

theorem follows_look (follows : Follows traffic reached served) {number : Nat}
    (none : ∀ index, ¬ traffic.Cancels number index) {request : JobCall}
    {next : JobReply request → JobProgram HttpAnswer}
    (waiting : reached.rest (.request number) = .call request next) {reply : JobReply request}
    {world : ServerWorld}
    (step : serverStep lifetime replicas (traffic.request number).jobId reached.world request reply
      world) :
    Follows traffic ⟨world, Function.update reached.rest (.request number) (next reply)⟩
      served := by
  have owed := follows.looking number none
  rw [waiting] at owed
  obtain rfl := look_unchanged request reply owed.1 step
  have goesOn := owed.2 reply () (look_answered follows.onlyAsked request reply step)
  refine ⟨⟨follows.shows.world, fun job => ?_, fun job => ?_, fun later job isCancel => ?_,
    follows.shows.others⟩, follows.onlyAsked, fun later stillNone => ?_⟩
  · simpa using follows.shows.submission job
  · simpa using follows.shows.worker job
  · have unlike : later ≠ number := by
      rintro rfl
      exact none job isCancel
    simpa [unlike] using follows.shows.cancels later job isCancel
  · by_cases same : later = number
    · subst same
      simpa using goesOn
    · simpa [same] using follows.looking later stillNone

/-- Step lemma: every move of the one server is a move of the other, or none. -/
theorem follows_move (follows : Follows traffic reached served)
    (move : Move (httpSurroundings traffic lifetime replicas) reached after) :
    ∃ later, Reaches (serverSurroundings traffic.workload lifetime replicas) served later ∧
      Follows traffic after later := by
  have world := follows.shows.world
  cases move with
  | drift later drifts =>
      refine ⟨⟨later, served.rest⟩, .single (.drift served later (by rw [world]; exact drifts)), ?_⟩
      exact ⟨⟨rfl, follows.shows.submission, follows.shows.worker, follows.shows.cancels,
        follows.shows.others⟩, asked_by_drift follows.onlyAsked drifts, follows.looking⟩
  | act party request next reply later waiting step =>
      cases party with
      | request number =>
          by_cases cancels : ∃ index, traffic.Cancels number index
          · obtain ⟨index, cancels⟩ := cancels
            exact follows_cancel follows cancels waiting step
          · have none : ∀ index, ¬ traffic.Cancels number index := fun index isCancel =>
              cancels ⟨index, isCancel⟩
            exact ⟨served, .refl, follows_look follows none waiting step⟩
      | submission index => exact follows_submission follows waiting step
      | worker index => exact follows_worker follows waiting step

/-- Run lemma: from side by side on, every run has one at its side. -/
theorem follows_reaches (follows : Follows traffic reached served)
    (reaches : Reaches (httpSurroundings traffic lifetime replicas) reached after) :
    ∃ later, Reaches (serverSurroundings traffic.workload lifetime replicas) served later ∧
      Follows traffic after later := by
  induction reaches with
  | refl => exact ⟨served, .refl, follows⟩
  | tail _ move induction =>
      obtain ⟨middle, run, beside⟩ := induction
      obtain ⟨later, further, again⟩ := follows_move beside move
      exact ⟨later, run.trans further, again⟩

end Moves

end Runs

/-- Behind its routes the server does what the server of `WholeServer` does: only
authorised requests cancel, and no other request does anything to a job. -/
theorem http_server_is_server {Index : Type} [DecidableEq Index] (traffic : Traffic Index)
    (lifetime : Lifetime) (replicas : Kind → Nat) (clock : Nat) (reached : HttpConfiguration Index)
    (reaches : Reaches (httpSurroundings traffic lifetime replicas) (traffic.start clock) reached) :
    ∃ served, Reaches (serverSurroundings traffic.workload lifetime replicas)
      (traffic.workload.start clock) served ∧ Shows traffic reached served := by
  obtain ⟨served, run, follows⟩ := follows_reaches (start_follows clock) reaches
  exact ⟨served, run, follows.shows⟩

/-- Two builds, the second submitted without the right token; two requests to
cancel the first, one without and one with it; two requests that ask for the
first, and one that asks for the second. -/
def twoSubmissions : Traffic Bool where
  settings := plainBuild.settings
  submission trusted := match trusted with
    | true => { jobId := "job", request := plainBuild.request, command := plainBuild.command }
    | false => {
        jobId := "other"
        request := .build "web" none (some "guess") none none
        command := plainBuild.command }
  fresh first second := by
    revert first second
    decide
  request number := match number with
    | 0 => { kind := .build, jobId := "job", endpoint := .cancel, token := some "guess" }
    | 1 => { kind := .build, jobId := "job", endpoint := .cancel, token := some "token" }
    | 2 => { kind := .build, jobId := "job", endpoint := .status }
    | 3 => { kind := .build, jobId := "job", endpoint := .log }
    | _ => { kind := .build, jobId := "other", endpoint := .status }

def letTurn (order : List (HttpParty Bool)) :
    HttpConfiguration Bool → HttpConfiguration Bool :=
  playBy (fun world party => serverTurn oneEach (twoSubmissions.jobId party) world)
    (fun party => obligingServer .persistent oneEach (twoSubmissions.jobId party)) order

theorem let_turn_reaches (order : List (HttpParty Bool)) (start : HttpConfiguration Bool) :
    Reaches (httpSurroundings twoSubmissions .persistent oneEach) start (letTurn order start) :=
  play_by_reaches _ _ _ (fun world party request turn =>
    obliging_server_step .persistent oneEach (twoSubmissions.jobId party) world request turn) _ _

def cancelledOnce : HttpConfiguration Bool :=
  letTurn (List.replicate 8 (.submission true) ++ List.replicate 6 (.request 0) ++
    List.replicate 6 (.request 1)) (twoSubmissions.start 0)

theorem cancelled_once_is_served :
    ∃ served, Reaches (serverSurroundings twoSubmissions.workload .persistent oneEach)
        (twoSubmissions.workload.start 0) served ∧ Shows twoSubmissions cancelledOnce served ∧
      cancelledOnce.world.rq.dropped .build = ["job"] := by
  obtain ⟨served, run, shows⟩ := http_server_is_server twoSubmissions .persistent oneEach 0
    cancelledOnce (let_turn_reaches _ _)
  exact ⟨served, run, shows, by decide +kernel⟩

end PretextBuildServer.HttpServer
