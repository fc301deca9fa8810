import PretextBuildServer.RecordTexts
import PretextBuildServer.WholeServer
import PretextBuildServer.Library.SystemViews

/-!
# The server over a Redis that holds texts

The same jobs and the same calls as before, but what Redis keeps under a job's
key is a hash of texts: a write puts texts in, a read decodes them. Decoded, the
two servers are the same.
-/

namespace PretextBuildServer.TextServer

open EffectProgram InterleavedParties
open PretextBuildServer.ServerSettings PretextBuildServer.JobRecord PretextBuildServer.JobCalls
open PretextBuildServer.JobSystem PretextBuildServer.WholeServer PretextBuildServer.RecordTexts

set_option autoImplicit false

structure TextKey where
  hash : RecordHash
  expiry : Option Int := none

namespace TextKey

def decoded (key : TextKey) : Key where
  fields := key.hash.fields
  expiry := key.expiry

/-- `HSET` with the `mapping` of `Store._write`. -/
def hset (key : Option TextKey) (written : Fields) : TextKey :=
  match key with
  | none => { hash := RecordHash.empty.write written }
  | some key => { key with hash := key.hash.write written }

def expire (now : Nat) (seconds : Int) (key : Option TextKey) : Option TextKey :=
  key.map fun key => { key with expiry := some (now + seconds) }

def survive (lifetime : Lifetime) (now : Nat) (key : Option TextKey) : Option TextKey :=
  match lifetime with
  | .persistent => key
  | .expiring => key.filter fun key => key.expiry.all ((now : Int) < ·)

theorem override_empty (written : Fields) : Fields.override {} written = written := by
  cases written
  simp [Fields.override]

theorem decoded_hset (key : Option TextKey) (written : Fields) :
    some (hset key written).decoded = JobRecord.hset (key.map decoded) written := by
  cases key with
  | none => simp [hset, decoded, override_empty]
  | some key => simp [hset, decoded]

theorem decoded_expire (now : Nat) (seconds : Int) (key : Option TextKey) :
    (expire now seconds key).map decoded = JobRecord.expire now seconds (key.map decoded) := by
  cases key <;> rfl

theorem decoded_survive (lifetime : Lifetime) (now : Nat) (key : Option TextKey) :
    (survive lifetime now key).map decoded = lifetime.survive now (key.map decoded) := by
  cases lifetime with
  | persistent => rfl
  | expiring =>
      cases key with
      | none => rfl
      | some key =>
          by_cases lives : key.expiry.all ((now : Int) < ·) = true <;>
            simp [survive, Lifetime.survive, vanish, decoded, Option.filter, lives]

end TextKey

structure TextWorld where
  clock : Nat
  redis : String → Option TextKey := fun _ => none
  rq : Rq := {}
  runs : String → JobRun := fun _ => {}

namespace TextWorld

variable (world : TextWorld) (jobId : String)

/-- The world with every text read. -/
def decoded : ServerWorld where
  clock := world.clock
  redis key := (world.redis key).map TextKey.decoded
  rq := world.rq
  runs := world.runs

def hash : Option TextKey := world.redis (storeKey jobId)

def setHash (key : Option TextKey) : TextWorld :=
  { world with redis := Function.update world.redis (storeKey jobId) key }

/-- Whatever is no text in Redis, taken from another world. -/
def besides (other : ServerWorld) : TextWorld := { world with rq := other.rq, runs := other.runs }

theorem decoded_set_hash (key : Option TextKey) :
    (world.setHash jobId key).decoded = world.decoded.setHash jobId (key.map TextKey.decoded) := by
  simp only [decoded, setHash, ServerWorld.setHash, ServerWorld.mk.injEq, true_and, and_true]
  funext name
  by_cases same : name = storeKey jobId
  · subst same
    simp
  · simp [same]

end TextWorld

/-- `Store.get`, `Store._write` and `EXPIRE` work on the texts; all other calls
leave them alone. -/
def textStep (lifetime : Lifetime) (replicas : Kind → Nat) (jobId : String) (world : TextWorld) :
    (request : JobCall) → JobReply request → TextWorld → Prop
  | .hgetall reader, reply, after =>
      reply = .ok ((world.hash jobId).map fun key => key.hash.fields) ∧
        after = world.besides (world.decoded.noteRead jobId reader)
  | .hset fields, reply, after =>
      reply = .ok () ∧
        after = (world.setHash jobId (some (TextKey.hset (world.hash jobId) fields))).besides
          (world.decoded.write jobId fields)
  | .expire seconds, reply, after =>
      reply = .ok () ∧
        after = (world.setHash jobId (TextKey.survive lifetime world.clock
            (TextKey.expire world.clock seconds (world.hash jobId)))).besides
          (world.decoded.setExpiry jobId lifetime seconds)
  | request, reply, after =>
      ∃ seen, serverStep lifetime replicas jobId world.decoded request reply seen ∧
        after = world.besides seen

inductive TextDrift (lifetime : Lifetime) : TextWorld → TextWorld → Prop where
  | tick (world : TextWorld) (later : Nat) (passes : world.clock ≤ later) :
      TextDrift lifetime world
        { world with
          clock := later, redis := fun key => TextKey.survive lifetime later (world.redis key) }
  | forget (world : TextWorld) (jobId : String)
      (past : world.rq.registry jobId = .finished ∨ world.rq.registry jobId = .canceled) :
      TextDrift lifetime world { world with rq := world.rq.register jobId .unknown }
  | exit (world : TextWorld) (jobId : String) (statusCode : Option Int)
      (up : (world.runs jobId).container = .up) :
      TextDrift lifetime world (world.besides (world.decoded.setContainer jobId (.exited statusCode)))
  | die (world : TextWorld) (jobId : String) :
      TextDrift lifetime world { world with rq := world.rq.release jobId }

section Workload

variable {Index : Type} (workload : Workload Index)

abbrev TextConfiguration (Index : Type) :=
  Configuration JobCall.Answer Raised TextWorld (ServerParty Index) ServerOutcome

def textSurroundings (lifetime : Lifetime) (replicas : Kind → Nat) :
    Surroundings JobCall.Answer Raised TextWorld (ServerParty Index) where
  machine party := {
    admits := fun _ _ => True
    step := textStep lifetime replicas (workload.id party.1) }
  drift := TextDrift lifetime

def startOnTexts (clock : Nat) : TextConfiguration Index where
  world := { clock }
  rest party := (workload.job party.1).program party.2

end Workload

/-! ## Decoded, it is the server -/

section Decoded

variable {lifetime : Lifetime} {replicas : Kind → Nat} {jobId : String}

/-- What a call other than to Redis does to a world, it does beside the texts. -/
theorem besides_decoded (world : TextWorld) (other : ServerWorld)
    (clock : other.clock = world.clock)
    (redis : other.redis = fun key => (world.redis key).map TextKey.decoded) :
    (world.besides other).decoded = other := by
  cases other
  simp_all [TextWorld.besides, TextWorld.decoded]

theorem hash_decoded (world : TextWorld) :
    world.decoded.hash jobId = (world.hash jobId).map TextKey.decoded := rfl

theorem note_read_decoded (world : TextWorld) (reader : Reader) :
    (world.besides (world.decoded.noteRead jobId reader)).decoded =
      world.decoded.noteRead jobId reader :=
  besides_decoded world _ (by cases reader <;> rfl) (by cases reader <;> rfl)

theorem write_decoded (world : TextWorld) (fields : Fields) :
    ((world.setHash jobId (some (TextKey.hset (world.hash jobId) fields))).besides
        (world.decoded.write jobId fields)).decoded = world.decoded.write jobId fields := by
  refine besides_decoded _ _ rfl ?_
  have stored := congrArg ServerWorld.redis
    (world.decoded_set_hash jobId (some (TextKey.hset (world.hash jobId) fields)))
  rw [Option.map_some, TextKey.decoded_hset, ← hash_decoded] at stored
  exact stored.symm

theorem set_expiry_decoded (world : TextWorld) (seconds : Int) :
    ((world.setHash jobId (TextKey.survive lifetime world.clock
        (TextKey.expire world.clock seconds (world.hash jobId)))).besides
        (world.decoded.setExpiry jobId lifetime seconds)).decoded =
      world.decoded.setExpiry jobId lifetime seconds := by
  refine besides_decoded _ _ rfl ?_
  have stored := congrArg ServerWorld.redis (world.decoded_set_hash jobId
    (TextKey.survive lifetime world.clock
      (TextKey.expire world.clock seconds (world.hash jobId))))
  rw [TextKey.decoded_survive, TextKey.decoded_expire, ← hash_decoded] at stored
  exact stored.symm

def isRedisCall : JobCall → Bool
  | .hgetall _ | .hset _ | .expire _ => true
  | _ => false

theorem other_call_keeps_redis {world after : ServerWorld} (request : JobCall)
    (reply : JobReply request) (other : isRedisCall request = false)
    (step : serverStep lifetime replicas jobId world request reply after) :
    after.clock = world.clock ∧ after.redis = world.redis := by
  cases request
  case hgetall reader => cases other
  case hset fields => cases other
  case expire seconds => cases other
  case takeFromQueue =>
      obtain ⟨kind, rest, -, -, -, rfl⟩ := step
      exact ⟨rfl, rfl⟩
  case cancelJob =>
      rw [serverStep] at step
      split at step
      · exact step.2 ▸ ⟨rfl, rfl⟩
      · exact step.2 ▸ ⟨rfl, rfl⟩
  case containersRun kwargs => cases reply <;> exact step.2 ▸ ⟨rfl, rfl⟩
  case wait timeout => cases reply <;> exact step.2 ▸ ⟨rfl, rfl⟩
  case kill => cases reply <;> exact step.2 ▸ ⟨rfl, rfl⟩
  all_goals exact step.2 ▸ ⟨rfl, rfl⟩

theorem text_step_other {world after : TextWorld} (request : JobCall) (reply : JobReply request)
    (other : isRedisCall request = false) :
    textStep lifetime replicas jobId world request reply after ↔
      ∃ seen, serverStep lifetime replicas jobId world.decoded request reply seen ∧
        after = world.besides seen := by
  cases request
  case hgetall reader => cases other
  case hset fields => cases other
  case expire seconds => cases other
  all_goals rfl

theorem text_step_decoded {world after : TextWorld} (request : JobCall) (reply : JobReply request)
    (step : textStep lifetime replicas jobId world request reply after) :
    serverStep lifetime replicas jobId world.decoded request reply after.decoded := by
  by_cases other : isRedisCall request = false
  · obtain ⟨seen, stepped, rfl⟩ := (text_step_other request reply other).mp step
    obtain ⟨clock, redis⟩ := other_call_keeps_redis request reply other stepped
    rwa [besides_decoded world seen clock redis]
  · cases request
    case hgetall reader =>
        obtain ⟨rfl, rfl⟩ := step
        exact ⟨by rw [hash_decoded, Option.map_map]; rfl, note_read_decoded world reader⟩
    case hset fields =>
        obtain ⟨rfl, rfl⟩ := step
        exact ⟨rfl, write_decoded world fields⟩
    case expire seconds =>
        obtain ⟨rfl, rfl⟩ := step
        exact ⟨rfl, set_expiry_decoded world seconds⟩
    all_goals exact absurd rfl other

theorem server_step_on_texts {world : TextWorld} {seen : ServerWorld} (request : JobCall)
    (reply : JobReply request)
    (step : serverStep lifetime replicas jobId world.decoded request reply seen) :
    ∃ after, textStep lifetime replicas jobId world request reply after ∧ after.decoded = seen := by
  by_cases other : isRedisCall request = false
  · obtain ⟨clock, redis⟩ := other_call_keeps_redis request reply other step
    exact ⟨world.besides seen, (text_step_other request reply other).mpr ⟨seen, step, rfl⟩,
      besides_decoded world seen clock redis⟩
  · cases request
    case hgetall reader =>
        obtain ⟨rfl, rfl⟩ := step
        exact ⟨_, ⟨by rw [hash_decoded, Option.map_map]; rfl, rfl⟩, note_read_decoded world reader⟩
    case hset fields =>
        obtain ⟨rfl, rfl⟩ := step
        exact ⟨_, ⟨rfl, rfl⟩, write_decoded world fields⟩
    case expire seconds =>
        obtain ⟨rfl, rfl⟩ := step
        exact ⟨_, ⟨rfl, rfl⟩, set_expiry_decoded world seconds⟩
    all_goals exact absurd rfl other

theorem tick_decoded (world : TextWorld) (later : Nat) :
    TextWorld.decoded { world with
        clock := later, redis := fun key => TextKey.survive lifetime later (world.redis key) } =
      { world.decoded with
        clock := later, redis := fun key => lifetime.survive later (world.decoded.redis key) } := by
  simp only [TextWorld.decoded, TextKey.decoded_survive]

theorem text_drift_decoded {world after : TextWorld} (drifts : TextDrift lifetime world after) :
    ServerDrift lifetime world.decoded after.decoded := by
  cases drifts with
  | tick later passes =>
      rw [tick_decoded]
      exact .tick world.decoded later passes
  | forget other past => exact .forget world.decoded other past
  | exit other statusCode up =>
      rw [besides_decoded world _ rfl rfl]
      exact .exit world.decoded other statusCode up
  | die other => exact .die world.decoded other

theorem drift_on_texts {world : TextWorld} {seen : ServerWorld}
    (drifts : ServerDrift lifetime world.decoded seen) :
    ∃ after, TextDrift lifetime world after ∧ after.decoded = seen := by
  cases drifts with
  | tick later passes => exact ⟨_, .tick world later passes, tick_decoded world later⟩
  | forget other past => exact ⟨_, .forget world other past, rfl⟩
  | exit other statusCode up =>
      exact ⟨_, .exit world other statusCode up, besides_decoded world _ rfl rfl⟩
  | die other => exact ⟨_, .die world other, rfl⟩

end Decoded

section Runs

variable {Index : Type} [DecidableEq Index]

omit [DecidableEq Index] in
theorem texts_render (workload : Workload Index) (lifetime : Lifetime) (replicas : Kind → Nat) :
    Renders TextWorld.decoded (textSurroundings workload lifetime replicas)
      (serverSurroundings workload lifetime replicas) where
  act _ _ request reply _ step := text_step_decoded request reply step
  drift _ _ drifts := text_drift_decoded drifts
  actBack _ _ request reply _ step := server_step_on_texts request reply step
  driftBack _ _ drifts := drift_on_texts drifts

/-- Whatever jobs come in and however their parties interleave: what the server
does over texts is, once they are read, what it does over records, and it can do
all of that. -/
theorem text_server_is_server (workload : Workload Index) (lifetime : Lifetime)
    (replicas : Kind → Nat) (clock : Nat) (seen : ServerConfiguration Index) :
    Reaches (serverSurroundings workload lifetime replicas) (workload.start clock) seen ↔
      ∃ reached, Reaches (textSurroundings workload lifetime replicas)
        (startOnTexts workload clock) reached ∧ reached.rendered TextWorld.decoded = seen :=
  rendered_reaches_iff (texts_render workload lifetime replicas) (startOnTexts workload clock) seen

end Runs

end PretextBuildServer.TextServer
