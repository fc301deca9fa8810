import PretextBuildServer.JobSystem

/-!
# The whole server: many jobs over one Redis

Every job has its hash in Redis under a key of its own and its entry in RQ; the
two queues, the clock and the workers are shared. A party is a submission, a
worker run or a cancel request of one of the jobs. A worker takes the job at the
head of its queue, and each queue has its number of workers.
-/

namespace PretextBuildServer.WholeServer

open EffectProgram InterleavedParties
open PretextBuildServer.ServerSettings PretextBuildServer.JobRecord PretextBuildServer.JobCalls
open PretextBuildServer.JobSystem

set_option autoImplicit false

/-- `Store._key` -/
def storeKey (jobId : String) : String := "job:" ++ jobId

theorem store_key_injective : Function.Injective storeKey :=
  fun _ _ same => (String.append_right_inj "job:").mp same

/-! ## RQ -/

/-- `registry` holds what RQ knows of a job id, `queues` the ids on each queue,
the oldest first, and `serving` those whose functions the workers of a queue are
in. The last three record, in order, what has been put on a queue, what workers
have taken off it, and what `Job.cancel` has. -/
structure Rq where
  registry : String → RqState := fun _ => .unknown
  queues : Kind → List String := fun _ => []
  serving : Kind → List String := fun _ => []
  enqueued : Kind → List String := fun _ => []
  begun : Kind → List String := fun _ => []
  dropped : Kind → List String := fun _ => []

namespace Rq

variable (rq : Rq) (jobId : String)

def register (state : RqState) : Rq :=
  { rq with registry := Function.update rq.registry jobId state }

/-- `Queue.enqueue`: the id goes to the end of the queue. -/
def enqueue (kind : Kind) : Rq :=
  { rq.register jobId .queued with
    queues := Function.update rq.queues kind (rq.queues kind ++ [jobId])
    enqueued := Function.update rq.enqueued kind (rq.enqueued kind ++ [jobId]) }

/-- A worker takes the id at the head of its queue and is busy from now on. -/
def take (kind : Kind) (rest : List String) : Rq :=
  { rq.register jobId .started with
    queues := Function.update rq.queues kind rest
    serving := Function.update rq.serving kind (jobId :: rq.serving kind)
    begun := Function.update rq.begun kind (rq.begun kind ++ [jobId]) }

/-- `Job.cancel`: the id goes off the queue it is on, if it is still there. -/
def cancel : Rq :=
  { rq.register jobId .canceled with
    queues := fun kind => (rq.queues kind).erase jobId
    dropped := fun kind =>
      if jobId ∈ rq.queues kind then rq.dropped kind ++ [jobId] else rq.dropped kind }

/-- The worker that serves a job is free again: it is done, or it has died and
another has been started in its place. -/
def release : Rq :=
  { rq with serving := fun kind => (rq.serving kind).erase jobId }

end Rq

/-! ## The world -/

/-- The container of a job's run, and what has happened to the job so far. -/
structure JobRun where
  container : Container := .notStarted
  taken : Bool := false
  preRunRead : Option Bool := none
  flagSeen : Bool := false
  callbackReads : List (Option Status) := []
  created : Option Fields := none
  expirySet : Option Nat := none

/-- `redis` holds the hashes by the texts of their keys. -/
structure ServerWorld where
  clock : Nat
  redis : String → Option Key := fun _ => none
  rq : Rq := {}
  runs : String → JobRun := fun _ => {}

namespace ServerWorld

variable (world : ServerWorld) (jobId : String)

def hash : Option Key := world.redis (storeKey jobId)

def setHash (key : Option Key) : ServerWorld :=
  { world with redis := Function.update world.redis (storeKey jobId) key }

def setRun (run : JobRun) : ServerWorld :=
  { world with runs := Function.update world.runs jobId run }

def setContainer (container : Container) : ServerWorld :=
  world.setRun jobId { world.runs jobId with container := container }

def flagged : Bool := (((world.hash jobId).map Key.fields).getD {}).cancelled

def noteRead (reader : Reader) : ServerWorld :=
  let run := world.runs jobId
  let flagged := world.flagged jobId
  match reader with
  | .preRun =>
      world.setRun jobId
        { run with preRunRead := some flagged, flagSeen := run.flagSeen || flagged }
  | .poll => world.setRun jobId { run with flagSeen := run.flagSeen || flagged }
  | .sendCallback =>
      world.setRun jobId
        { run with
          callbackReads := run.callbackReads ++ [(world.hash jobId).bind (·.fields.status)] }
  | _ => world

def write (fields : Fields) : ServerWorld :=
  let run := world.runs jobId
  (world.setHash jobId (hset (world.hash jobId) fields)).setRun jobId
    { run with created := if fields.createdAt.isSome then some fields else run.created }

def setExpiry (lifetime : Lifetime) (seconds : Int) : ServerWorld :=
  let key := lifetime.survive world.clock (JobRecord.expire world.clock seconds (world.hash jobId))
  (world.setHash jobId key).setRun jobId
    { world.runs jobId with expirySet := some world.clock }

/-- The worker that has taken a job goes into its function. -/
def take (kind : Kind) (rest : List String) : ServerWorld :=
  { world.setRun jobId { world.runs jobId with taken := true } with
    rq := world.rq.take jobId kind rest }

end ServerWorld

/-- One call about the job `jobId`. A worker of a queue takes only the id at its
head, and only if a worker of that queue is free. -/
def serverStep (lifetime : Lifetime) (replicas : Kind → Nat) (jobId : String)
    (world : ServerWorld) : (request : JobCall) → JobReply request → ServerWorld → Prop
  | .hgetall reader, reply, after =>
      reply = .ok ((world.hash jobId).map Key.fields) ∧ after = world.noteRead jobId reader
  | .hset fields, reply, after => reply = .ok () ∧ after = world.write jobId fields
  | .expire seconds, reply, after =>
      reply = .ok () ∧ after = world.setExpiry jobId lifetime seconds
  | .time, reply, after => reply = .ok world.clock ∧ after = world
  | .enqueue kind, reply, after =>
      reply = .ok () ∧ after = { world with rq := world.rq.enqueue jobId kind }
  | .takeFromQueue, reply, after =>
      ∃ kind rest, world.rq.queues kind = jobId :: rest ∧
        (world.rq.serving kind).length < replicas kind ∧
        reply = .ok () ∧ after = world.take jobId kind rest
  | .fetchJob, reply, after =>
      (if world.rq.registry jobId = .unknown then
          ∃ message, reply = .error { kind := .noSuchJobError, message }
        else reply = .ok ()) ∧ after = world
  | .cancelJob, reply, after =>
      if world.rq.registry jobId = .canceled then
        (∃ message, reply = .error { kind := .invalidJobOperation, message }) ∧ after = world
      else reply = .ok () ∧ after = { world with rq := world.rq.cancel jobId }
  | .finishJob, reply, after =>
      reply = .ok () ∧ after = { world with rq := (world.rq.register jobId .finished).release jobId }
  | .containersRun _, reply, after =>
      Foreign reply ∧ after = match reply with
        | .ok _ => world.setContainer jobId .up
        | .error _ => world
  | .wait _, reply, after =>
      Foreign reply ∧ after = match reply with
        | .ok statusCode => world.setContainer jobId (.exited statusCode)
        | .error _ => world
  | .kill, reply, after =>
      Foreign reply ∧ after = match reply with
        | .ok _ => world.setContainer jobId (.exited none)
        | .error _ => world
  | _, reply, after => Foreign reply ∧ after = world

/-- Time passes for all, RQ forgets a job, a container ends, a worker dies. -/
inductive ServerDrift (lifetime : Lifetime) : ServerWorld → ServerWorld → Prop where
  | tick (world : ServerWorld) (later : Nat) (passes : world.clock ≤ later) :
      ServerDrift lifetime world
        { world with
          clock := later, redis := fun key => lifetime.survive later (world.redis key) }
  | forget (world : ServerWorld) (jobId : String)
      (past : world.rq.registry jobId = .finished ∨ world.rq.registry jobId = .canceled) :
      ServerDrift lifetime world { world with rq := world.rq.register jobId .unknown }
  | exit (world : ServerWorld) (jobId : String) (statusCode : Option Int)
      (up : (world.runs jobId).container = .up) :
      ServerDrift lifetime world (world.setContainer jobId (.exited statusCode))
  | die (world : ServerWorld) (jobId : String) :
      ServerDrift lifetime world { world with rq := world.rq.release jobId }

/-- The jobs a server is ever asked for. `uuid4` draws no id twice. -/
structure Workload (Index : Type) where
  job : Index → Job
  fresh : Function.Injective fun index => (job index).jobId

/-- A party of the job with that index. -/
abbrev ServerParty (Index : Type) : Type := Index × Party

abbrev ServerOutcome {Index : Type} (party : ServerParty Index) : Type := Outcome party.2

abbrev ServerConfiguration (Index : Type) :=
  Configuration JobCall.Answer Raised ServerWorld (ServerParty Index) ServerOutcome

section Workload

variable {Index : Type} (workload : Workload Index)

def Workload.id (index : Index) : String := (workload.job index).jobId

def Workload.kind (index : Index) : Kind := (workload.job index).request.kind

theorem Workload.id_injective : Function.Injective workload.id := workload.fresh

def serverSurroundings (lifetime : Lifetime) (replicas : Kind → Nat) :
    Surroundings JobCall.Answer Raised ServerWorld (ServerParty Index) where
  machine party := {
    admits := fun _ _ => True
    step := serverStep lifetime replicas (workload.id party.1) }
  drift := ServerDrift lifetime

def Workload.start (clock : Nat) : ServerConfiguration Index where
  world := { clock }
  rest party := (workload.job party.1).program party.2

end Workload

/-! ## The server as one of its jobs sees it -/

def ServerWorld.seenFrom (world : ServerWorld) (jobId : String) : JobWorld where
  clock := world.clock
  record := world.hash jobId
  rq := world.rq.registry jobId
  container := (world.runs jobId).container
  taken := (world.runs jobId).taken
  preRunRead := (world.runs jobId).preRunRead
  flagSeen := (world.runs jobId).flagSeen
  callbackReads := (world.runs jobId).callbackReads
  created := (world.runs jobId).created
  expirySet := (world.runs jobId).expirySet

section Seen

variable {lifetime : Lifetime} {replicas : Kind → Nat} {world after : ServerWorld}
  {jobId other : String}

theorem seen_note_read (reader : Reader) :
    (world.noteRead jobId reader).seenFrom jobId = (world.seenFrom jobId).noteRead reader := by
  cases reader <;>
    simp [ServerWorld.noteRead, JobWorld.noteRead, ServerWorld.seenFrom, ServerWorld.setRun,
      ServerWorld.hash, ServerWorld.flagged, JobWorld.flagged, JobWorld.status]

theorem seen_write (fields : Fields) :
    (world.write jobId fields).seenFrom jobId = (world.seenFrom jobId).write fields := by
  simp [ServerWorld.write, JobWorld.write, ServerWorld.seenFrom, ServerWorld.setRun,
    ServerWorld.setHash, ServerWorld.hash]

theorem seen_set_expiry (seconds : Int) :
    (world.setExpiry jobId lifetime seconds).seenFrom jobId =
      (world.seenFrom jobId).setExpiry lifetime seconds := by
  simp [ServerWorld.setExpiry, JobWorld.setExpiry, ServerWorld.seenFrom, ServerWorld.setRun,
    ServerWorld.setHash, ServerWorld.hash]

theorem seen_set_container (container : Container) :
    (world.setContainer jobId container).seenFrom jobId =
      { world.seenFrom jobId with container := container } := by
  simp [ServerWorld.setContainer, ServerWorld.seenFrom, ServerWorld.setRun, ServerWorld.hash]

/-- A job's own call is answered as if the job were alone, provided what it takes
off a queue is known to RQ as queued. -/
theorem own_step_seen (request : JobCall) (reply : JobReply request)
    (listed : request = .takeFromQueue → world.rq.registry jobId = .queued)
    (step : serverStep lifetime replicas jobId world request reply after) :
    jobStep lifetime (world.seenFrom jobId) request reply (after.seenFrom jobId) := by
  cases request
  case hgetall reader =>
      obtain ⟨rfl, rfl⟩ := step
      exact ⟨rfl, seen_note_read reader⟩
  case hset fields =>
      obtain ⟨rfl, rfl⟩ := step
      exact ⟨rfl, seen_write fields⟩
  case expire seconds =>
      obtain ⟨rfl, rfl⟩ := step
      exact ⟨rfl, seen_set_expiry seconds⟩
  case enqueue kind =>
      obtain ⟨rfl, rfl⟩ := step
      refine ⟨rfl, ?_⟩
      simp [ServerWorld.seenFrom, Rq.enqueue, Rq.register, ServerWorld.hash]
  case takeFromQueue =>
      obtain ⟨kind, rest, head, free, rfl, rfl⟩ := step
      refine ⟨listed rfl, rfl, ?_⟩
      simp [ServerWorld.seenFrom, ServerWorld.take, Rq.take, Rq.register, ServerWorld.setRun,
        ServerWorld.hash]
  case cancelJob =>
      by_cases canceled : (world.seenFrom jobId).rq = .canceled
      · rw [serverStep, if_pos (by exact canceled)] at step
        obtain ⟨failed, rfl⟩ := step
        rw [jobStep, if_pos canceled]
        exact ⟨failed, rfl⟩
      · rw [serverStep, if_neg (by exact canceled)] at step
        obtain ⟨rfl, rfl⟩ := step
        rw [jobStep, if_neg canceled]
        refine ⟨rfl, ?_⟩
        simp [ServerWorld.seenFrom, Rq.cancel, Rq.register, ServerWorld.hash]
  case finishJob =>
      obtain ⟨rfl, rfl⟩ := step
      refine ⟨rfl, ?_⟩
      simp [ServerWorld.seenFrom, Rq.release, Rq.register, ServerWorld.hash]
  case containersRun kwargs =>
      obtain ⟨foreign, rfl⟩ := step
      refine ⟨foreign, ?_⟩
      cases reply with
      | ok _ => exact seen_set_container _
      | error raised => rfl
  case wait timeout =>
      obtain ⟨foreign, rfl⟩ := step
      refine ⟨foreign, ?_⟩
      cases reply with
      | ok statusCode => exact seen_set_container _
      | error raised => rfl
  case kill =>
      obtain ⟨foreign, rfl⟩ := step
      refine ⟨foreign, ?_⟩
      cases reply with
      | ok _ => exact seen_set_container _
      | error raised => rfl
  all_goals
    obtain ⟨answered, rfl⟩ := step
    exact ⟨answered, rfl⟩

section Hidden

variable (apart : other ≠ jobId)

include apart

theorem hidden_register (state : RqState) :
    ({ world with rq := world.rq.register jobId state } : ServerWorld).seenFrom other =
      world.seenFrom other := by
  simp [ServerWorld.seenFrom, Rq.register, ServerWorld.hash, apart]

theorem hidden_set_run (run : JobRun) :
    (world.setRun jobId run).seenFrom other = world.seenFrom other := by
  simp [ServerWorld.seenFrom, ServerWorld.setRun, ServerWorld.hash, apart]

theorem hidden_set_hash (key : Option Key) :
    (world.setHash jobId key).seenFrom other = world.seenFrom other := by
  have keys : storeKey other ≠ storeKey jobId := fun same => apart (store_key_injective same)
  simp [ServerWorld.seenFrom, ServerWorld.setHash, ServerWorld.hash, keys]

theorem hidden_note_read (reader : Reader) :
    (world.noteRead jobId reader).seenFrom other = world.seenFrom other := by
  cases reader with
  | load | afterRun => rfl
  | preRun | poll | sendCallback => exact hidden_set_run apart _

/-- What is done about one job no other job sees. -/
theorem other_step_hidden (request : JobCall) (reply : JobReply request)
    (step : serverStep lifetime replicas jobId world request reply after) :
    after.seenFrom other = world.seenFrom other := by
  cases request
  case hgetall reader =>
      obtain ⟨-, rfl⟩ := step
      exact hidden_note_read apart reader
  case hset fields =>
      obtain ⟨-, rfl⟩ := step
      exact (hidden_set_run apart _).trans (hidden_set_hash apart _)
  case expire seconds =>
      obtain ⟨-, rfl⟩ := step
      exact (hidden_set_run apart _).trans (hidden_set_hash apart _)
  case enqueue kind =>
      obtain ⟨-, rfl⟩ := step
      exact hidden_register apart .queued
  case takeFromQueue =>
      obtain ⟨kind, rest, head, free, -, rfl⟩ := step
      exact (hidden_register apart .started).trans (hidden_set_run apart _)
  case cancelJob =>
      simp only [serverStep] at step
      split at step
      · rw [step.2]
      · obtain ⟨-, rfl⟩ := step
        exact hidden_register apart .canceled
  case finishJob =>
      obtain ⟨-, rfl⟩ := step
      exact hidden_register apart .finished
  case containersRun | wait | kill =>
      obtain ⟨-, rfl⟩ := step
      cases reply with
      | ok _ => exact hidden_set_run apart _
      | error raised => rfl
  all_goals rw [step.2]

end Hidden

/-- What the surroundings of the server do is, for each job, what the
surroundings of a job can do, or nothing at all. -/
theorem drift_seen (drifts : ServerDrift lifetime world after) :
    Relation.ReflTransGen (JobDrift lifetime) (world.seenFrom jobId) (after.seenFrom jobId) := by
  cases drifts with
  | tick later passes => exact .single (.tick (world.seenFrom jobId) later passes)
  | forget other past =>
      by_cases same : jobId = other
      · subst same
        refine .single ?_
        have forgotten : JobDrift lifetime _ _ := .forget (world.seenFrom jobId) past
        convert forgotten using 1
        simp [ServerWorld.seenFrom, Rq.register, ServerWorld.hash]
      · rw [hidden_register same]
  | exit other statusCode up =>
      by_cases same : jobId = other
      · subst same
        rw [seen_set_container]
        exact .single (.exit (world.seenFrom jobId) statusCode up)
      · rw [show (world.setContainer other (.exited statusCode)).seenFrom jobId =
          world.seenFrom jobId from hidden_set_run same _]
  | die other => exact .refl

end Seen

end PretextBuildServer.WholeServer
