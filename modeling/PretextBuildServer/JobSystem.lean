import PretextBuildServer.Library.InterleavedParties
import PretextBuildServer.BuildWorker
import PretextBuildServer.ApiEndpoints

/-!
# One job, its parties and the world they share

The submission, the one worker run and any number of cancel requests act on one
record and one RQ job. A store access and an RQ call are one step each. Calls
to anything else may answer anything here; where the answer matters, the machine
is restricted.
-/

namespace PretextBuildServer.JobSystem

open EffectProgram EffectProgram.Program InterleavedParties
open PretextBuildServer.ServerSettings PretextBuildServer.JobRecord PretextBuildServer.JobCalls
open PretextBuildServer.StoreCalls PretextBuildServer.BuildWorker PretextBuildServer.ApiEndpoints

set_option autoImplicit false

/-- What RQ knows of the job. -/
inductive RqState where
  | unknown
  | queued
  | started
  | finished
  | canceled
  deriving DecidableEq, Repr

inductive Container where
  | notStarted
  | up
  | exited (statusCode : Option Int)
  deriving DecidableEq, Repr

/-- The last six fields record what has happened: that a worker has begun the
job, what its look at the cancel flag before the run has found, that one of its
looks has found it set, the statuses that calls of `send_callback` have read,
what `create` has written, and when it has set the expiry. -/
structure JobWorld where
  clock : Nat
  record : Option Key := none
  rq : RqState := .unknown
  container : Container := .notStarted
  taken : Bool := false
  preRunRead : Option Bool := none
  flagSeen : Bool := false
  callbackReads : List (Option Status) := []
  created : Option Fields := none
  expirySet : Option Nat := none
  deriving DecidableEq

def JobWorld.status (world : JobWorld) : Option Status := world.record.bind (·.fields.status)

/-- Whether the record carries a `finished_at`. -/
def JobWorld.finished (world : JobWorld) : Bool :=
  (world.record.bind (·.fields.finishedAt)).isSome

/-- Whether keys vanish at their expiry, or the record outlives all that is
looked at. -/
inductive Lifetime where
  | persistent
  | expiring
  deriving DecidableEq

def Lifetime.survive (lifetime : Lifetime) (now : Nat) (key : Option Key) : Option Key :=
  match lifetime with
  | .persistent => key
  | .expiring => vanish now key

/-- Whether a read of the record shows `cancel_requested`. -/
def JobWorld.flagged (world : JobWorld) : Bool :=
  ((world.record.map Key.fields).getD {}).cancelled

def JobWorld.noteRead (world : JobWorld) (reader : Reader) : JobWorld :=
  match reader with
  | .preRun => { world with preRunRead := some world.flagged, flagSeen := world.flagSeen || world.flagged }
  | .poll => { world with flagSeen := world.flagSeen || world.flagged }
  | .sendCallback => { world with callbackReads := world.callbackReads ++ [world.status] }
  | _ => world

/-- A write; the one that carries `created_at` is the one `create` makes. -/
def JobWorld.write (world : JobWorld) (fields : Fields) : JobWorld :=
  { world with
    record := hset world.record fields
    created := if fields.createdAt.isSome then some fields else world.created }

section Write

variable (world : JobWorld) (fields : Fields)

@[simp] theorem write_rq : (world.write fields).rq = world.rq := rfl

@[simp] theorem write_taken : (world.write fields).taken = world.taken := rfl

@[simp] theorem write_pre_run_read : (world.write fields).preRunRead = world.preRunRead := rfl

@[simp] theorem write_flag_seen : (world.write fields).flagSeen = world.flagSeen := rfl

@[simp] theorem write_callback_reads :
    (world.write fields).callbackReads = world.callbackReads := rfl

end Write

def JobWorld.setExpiry (world : JobWorld) (lifetime : Lifetime) (seconds : Int) : JobWorld :=
  { world with
    record := lifetime.survive world.clock (expire world.clock seconds world.record)
    expirySet := some world.clock }

/-- `_Cancelled` is raised by the poll loop alone, by no call. -/
def Foreign {Answer : Type} (reply : Except Raised Answer) : Prop :=
  ∀ raised, reply = .error raised → raised.kind ≠ .cancelled

/-- `Job.fetch` raises only if RQ does not know the job. `Job.cancel` raises only
if the job is canceled already; otherwise it takes the job off the queue, if it
is there, and leaves alone a worker that has begun. -/
def jobStep (lifetime : Lifetime) (world : JobWorld) :
    (request : JobCall) → JobReply request → JobWorld → Prop
  | .hgetall reader, reply, after =>
      reply = .ok (world.record.map Key.fields) ∧ after = world.noteRead reader
  | .hset fields, reply, after =>
      reply = .ok () ∧ after = world.write fields
  | .expire seconds, reply, after =>
      reply = .ok () ∧ after = world.setExpiry lifetime seconds
  | .time, reply, after => reply = .ok world.clock ∧ after = world
  | .enqueue _, reply, after => reply = .ok () ∧ after = { world with rq := .queued }
  | .takeFromQueue, reply, after =>
      world.rq = .queued ∧ reply = .ok () ∧ after = { world with rq := .started, taken := true }
  | .fetchJob, reply, after =>
      (if world.rq = .unknown then ∃ message, reply = .error { kind := .noSuchJobError, message }
        else reply = .ok ()) ∧ after = world
  | .cancelJob, reply, after =>
      if world.rq = .canceled then
        (∃ message, reply = .error { kind := .invalidJobOperation, message }) ∧ after = world
      else reply = .ok () ∧ after = { world with rq := .canceled }
  | .finishJob, reply, after => reply = .ok () ∧ after = { world with rq := .finished }
  | .containersRun _, reply, after =>
      Foreign reply ∧ after = match reply with
        | .ok _ => { world with container := .up }
        | .error _ => world
  | .wait _, reply, after =>
      Foreign reply ∧ after = match reply with
        | .ok statusCode => { world with container := .exited statusCode }
        | .error _ => world
  | .kill, reply, after =>
      Foreign reply ∧ after = match reply with
        | .ok _ => { world with container := .exited none }
        | .error _ => world
  | _, reply, after => Foreign reply ∧ after = world

/-- Time passes, RQ forgets a job it has finished with, the container ends. -/
inductive JobDrift (lifetime : Lifetime) : JobWorld → JobWorld → Prop where
  | tick (world : JobWorld) (later : Nat) (passes : world.clock ≤ later) :
      JobDrift lifetime world
        { world with clock := later, record := lifetime.survive later world.record }
  | forget (world : JobWorld) (past : world.rq = .finished ∨ world.rq = .canceled) :
      JobDrift lifetime world { world with rq := .unknown }
  | exit (world : JobWorld) (statusCode : Option Int) (up : world.container = .up) :
      JobDrift lifetime world { world with container := .exited statusCode }

/-- The world in which every call succeeds: a container ends with exit code 0, the
output directory is there, a host name resolves to nothing suspicious. -/
def obliging (lifetime : Lifetime) (world : JobWorld) :
    (request : JobCall) → JobReply request × JobWorld
  | .hgetall reader => (.ok (world.record.map Key.fields), world.noteRead reader)
  | .hset fields => (.ok (), world.write fields)
  | .expire seconds => (.ok (), world.setExpiry lifetime seconds)
  | .time => (.ok world.clock, world)
  | .enqueue _ => (.ok (), { world with rq := .queued })
  | .takeFromQueue => (.ok (), { world with rq := .started, taken := true })
  | .fetchJob =>
      (if world.rq = .unknown then .error { kind := .noSuchJobError } else .ok (), world)
  | .cancelJob =>
      if world.rq = .canceled then (.error { kind := .invalidJobOperation }, world)
      else (.ok (), { world with rq := .canceled })
  | .finishJob => (.ok (), { world with rq := .finished })
  | .containersRun _ => (.ok (), { world with container := .up })
  | .wait _ => (.ok (some 0), { world with container := .exited (some 0) })
  | .kill => (.ok (), { world with container := .exited none })
  | .getaddrinfo _ => (.ok [], world)
  | .post .. => (.ok { statusCode := 200 }, world)
  | .isDir _ => (.ok true, world)
  | .isLink _ | .isFile _ => (.ok false, world)
  | .zipDir .. => (.ok [], world)
  | .logs => (.ok "", world)
  | .harvest .. => (.ok [], world)
  | .mounts .. => (.ok [], world)
  | .checkNetloc _ | .makeWorkDir | .writeUpload | .extractUpload | .removeUpload | .removeJobDir
  | .chmod _ | .pruneExpiredJobs | .fromEnv | .remove | .touch _ | .pruneAssetCache _ =>
      (.ok (), world)

/-- A job can be taken only from the queue it is on. -/
def canTurn (world : JobWorld) : JobCall → Bool
  | .takeFromQueue => world.rq = .queued
  | _ => true

theorem obliging_step (lifetime : Lifetime) (world : JobWorld) (request : JobCall)
    (turn : canTurn world request = true) :
    jobStep lifetime world request (obliging lifetime world request).1
      (obliging lifetime world request).2 := by
  have foreign : ∀ {Answer : Type} (answer : Answer), Foreign (.ok answer) :=
    fun _ _ impossible => (nomatch impossible)
  cases request
  case takeFromQueue => exact ⟨by simpa [canTurn] using turn, rfl, rfl⟩
  case fetchJob =>
      refine ⟨?_, rfl⟩
      by_cases unknown : world.rq = .unknown
      · simp [obliging, unknown]
      · simp [obliging, unknown]
  case cancelJob =>
      by_cases canceled : world.rq = .canceled
      · simp [jobStep, obliging, canceled]
      · simp [jobStep, obliging, canceled]
  all_goals first
    | exact ⟨rfl, rfl⟩
    | exact ⟨foreign _, rfl⟩

inductive Party where
  | submission
  | worker
  | cancel (index : Nat)
  deriving DecidableEq

def Outcome : Party → Type
  | .submission => QueuedResponse
  | .worker => Unit
  | .cancel _ => CancelAnswer

inductive Request where
  | build (target : String) (projectId token callbackUrl authorization : Option String)
  | generate (target : String) (assets : List String)
      (projectId token callbackUrl authorization : Option String)

def Request.kind : Request → Kind
  | .build .. => .build
  | .generate .. => .generate

def Request.callbackUrl : Request → Option String
  | .build _ _ _ callbackUrl _ | .generate _ _ _ _ callbackUrl _ => callbackUrl

/-- One job: its request, the command its worker runs, and the endpoint each of
the cancel requests comes in at. -/
structure Job where
  settings : Settings
  jobId : String
  request : Request
  command : String
  endpoint : Nat → Kind

def Job.submit (job : Job) : JobProgram QueuedResponse :=
  match job.request with
  | .build target projectId token callbackUrl authorization =>
      createBuild job.settings job.jobId target projectId token callbackUrl authorization
  | .generate target assets projectId token callbackUrl authorization =>
      createGenerate job.settings job.jobId target assets projectId token callbackUrl authorization

/-- `run_build` and `run_generate`, up to the command line they format. -/
def Job.runFunction (job : Job) : JobProgram Unit :=
  match job.request.kind with
  | .build => runJob job.settings job.jobId .build job.command job.settings.buildSandbox
  | .generate =>
      runJob job.settings job.jobId .generate job.command job.settings.generateSandbox true

/-- The RQ worker: take the job off the queue, run its function, note the end. -/
def Job.work (job : Job) : JobProgram Unit := do
  jobCall .takeFromQueue
  job.runFunction.andThen fun _ => jobCall .finishJob

def Job.program (job : Job) : (party : Party) → JobProgram (Outcome party)
  | .submission => job.submit
  | .worker => job.work
  | .cancel index => ApiEndpoints.cancel (job.endpoint index)

abbrev JobConfiguration := Configuration JobCall.Answer Raised JobWorld Party Outcome

def jobMachine (lifetime : Lifetime) : Machine JobCall.Answer Raised JobWorld where
  admits _ _ := True
  step := jobStep lifetime

def jobSurroundings (lifetime : Lifetime) : Surroundings JobCall.Answer Raised JobWorld Party where
  machine _ := jobMachine lifetime
  drift := JobDrift lifetime

def Job.start (job : Job) (clock : Nat) : JobConfiguration where
  world := { clock }
  rest := job.program

/-- A build job on a server whose containers can be given a directory. -/
def plainBuild : Job where
  settings := { defaults with buildToken := "token", hostDataDir := some ["host"] }
  jobId := "job"
  request := .build "web" none (some "token") none none
  command := "pretext build web"
  endpoint _ := .build

/-- The same job, submitted with a callback. -/
def announcedBuild : Job :=
  { plainBuild with
    request := .build "web" none (some "token") (some "https://host.example/done") none }

end PretextBuildServer.JobSystem
