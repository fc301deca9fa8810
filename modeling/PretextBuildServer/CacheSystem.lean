import Mathlib.Algebra.Order.BigOperators.Group.List
import PretextBuildServer.HarvestRuns
import PretextBuildServer.Library.InterleavedParties
import PretextBuildServer.Library.PosixFiles

/-!
# Harvests and prunes that share one cache

Any number of harvests of one project and of prunes, one call at a time. A call
is answered as the disk stands, or fails; a party that dies makes no further
call. The log keeps what a harvest's test has found missing, what it has put
into place, and what a prune has removed.
-/

namespace PretextBuildServer.CacheSystem

open EffectProgram EffectProgram.Program InterleavedParties PosixDisk
open PretextBuildServer.ServerSettings PretextBuildServer.JobCalls
open PretextBuildServer.DiskCalls PretextBuildServer.AssetCache

set_option autoImplicit false

inductive Party (Caller : Type) where
  | harvest (caller : Caller)
  | prune (caller : Caller)
  deriving DecidableEq

abbrev Outcome {Caller : Type} : Party Caller → Type
  | .harvest _ => List String
  | .prune _ => Unit

/-- What the parties are called with. `sources` are the bytes of the files that
are harvested; they do not change meanwhile. -/
structure Calls (Caller : Type) where
  settings : Settings
  projectId : String
  pid : Caller → Nat
  depth : Caller → Nat
  workDir : Caller → Path
  keepProjectId : Caller → Option String
  sources : Path → Option Bytes

inductive Event (Caller : Type) where
  | missed (caller : Caller) (place : Place)
  | published (caller : Caller) (place : Place)
  | evicted (place : Place)
  deriving DecidableEq

/-- `given` are the times `time_ns` has told, each with the process it told it;
the log has its latest event first. -/
structure CacheWorld (Caller : Type) where
  base : DiskWorld
  given : List (Nat × Nat) := []
  log : List (Event Caller) := []

def CacheWorld.fileAt {Caller : Type} (world : CacheWorld Caller) (place : Place) : Option Bytes :=
  world.base.drive.disk.fileAt place

abbrev CacheWorld.Spares {Caller : Type} (world after : CacheWorld Caller) (place : Place) : Prop :=
  world.base.drive.Spares after.base.drive place

/-! ## Steps -/

/-- A call that goes through. A file may be read in any blocks. -/
def goesThrough (sources : Path → Option Bytes) (world : DiskWorld) :
    (request : DiskCall) → DiskReply request → DiskWorld → Prop
  | .readFile src, reply, after => after = world ∧ ∃ blocks : List Bytes, reply = .ok blocks ∧
      world.drive.disk.stat src = some (.file blocks.flatten) ∧ sources src = some blocks.flatten
  | .timeNs, reply, after => after = world ∧ ∃ now, reply = .ok now
  | request, reply, after => (reply, after) = onDisk world request

/-- A call that fails. Of a chunk, some of the bytes may have been written. -/
def fails (world : DiskWorld) : (request : DiskCall) → DiskReply request → DiskWorld → Prop
  | .write file chunk, reply, after => (∃ raised, reply = .error raised ∧ raised.isOSError = true) ∧
      ∃ part, part <+: chunk ∧ after = { world with drive := (world.drive.append file part).2 }
  | _, reply, after => (∃ raised, reply = .error raised ∧ raised.isOSError = true) ∧ after = world

section System

variable {Caller : Type} (calls : Calls Caller)

def Calls.pdir : Path := root calls.settings ++ [calls.projectId]

/-- What a process is told is a time it has not been told before. -/
def Calls.tells (party : Party Caller) (given : List (Nat × Nat)) :
    (request : DiskCall) → DiskReply request → List (Nat × Nat) → Prop
  | .timeNs, .ok now, after => match party with
      | .harvest caller => (calls.pid caller, now) ∉ given ∧ after = (calls.pid caller, now) :: given
      | .prune _ => after = given
  | _, _, after => after = given

def events (party : Party Caller) (disk : Disk) :
    (request : DiskCall) → DiskReply request → List (Event Caller)
  | .exist path, .ok there => match party with
      | .harvest caller => if there then [] else [.missed caller path]
      | .prune _ => []
  | .replace _ target, .ok _ => match party with
      | .harvest caller => [.published caller target]
      | .prune _ => []
  | .remove path, .ok _ => match party with
      | .harvest _ => []
      | .prune _ => (disk.spot path).toList.map .evicted
  | _, _ => []

structure Calls.Step (party : Party Caller) (world : CacheWorld Caller) (request : DiskCall)
    (reply : DiskReply request) (after : CacheWorld Caller) : Prop where
  disk : goesThrough calls.sources world.base request reply after.base ∨
    fails world.base request reply after.base
  given : calls.tells party world.given request reply after.given
  log : after.log = events party world.base.drive.disk request reply ++ world.log

def later (world after : CacheWorld Caller) : Prop :=
  ∃ clock, world.base.clock ≤ clock ∧ after = { world with base := { world.base with clock } }

def Calls.surroundings : Surroundings DiskCall.Answer Raised (CacheWorld Caller)
    (Party Caller) where
  machine party := { admits := fun _ _ => True, step := calls.Step party }
  drift := later

abbrev CacheConfiguration (Caller : Type) :=
  Configuration DiskCall.Answer Raised (CacheWorld Caller) (Party Caller) Outcome

def Calls.program : (party : Party Caller) → DiskProgram (Outcome party)
  | .harvest caller =>
      harvest calls.settings (calls.pid caller) (calls.depth caller) calls.projectId
        (calls.workDir caller)
  | .prune caller => prune calls.settings (calls.depth caller) (calls.keepProjectId caller)

def Calls.start (base : DiskWorld) : CacheConfiguration Caller where
  world := { base }
  rest := calls.program

/-! ## One way to answer -/

def nextTime (given : List (Nat × Nat)) : Nat := (given.map Prod.snd).sum + 1

def Calls.readAnswer (world : CacheWorld Caller) (src : Path) : DiskReply (.readFile src) :=
  match world.base.drive.disk.stat src with
  | some (.file bytes) => if calls.sources src = some bytes then .ok [bytes] else refused
  | _ => refused

/-- Nothing fails that need not, and a file is read in one block. -/
def Calls.answer (party : Party Caller) : Handler DiskCall.Answer Raised (CacheWorld Caller)
  | world, .timeNs => match party with
      | .harvest caller => (.ok (nextTime world.given),
          { world with given := (calls.pid caller, nextTime world.given) :: world.given })
      | .prune _ => (.ok (nextTime world.given), world)
  | world, .readFile src => (calls.readAnswer world src, world)
  | world, request =>
      let answered := onDisk world.base request
      (answered.1, { world with
        base := answered.2
        log := events party world.base.drive.disk request answered.1 ++ world.log })

theorem next_time_fresh (pid : Nat) (given : List (Nat × Nat)) : (pid, nextTime given) ∉ given := by
  intro member
  have small : nextTime given ≤ (given.map Prod.snd).sum :=
    List.le_sum_of_mem (List.mem_map.mpr ⟨_, member, rfl⟩)
  unfold nextTime at small
  omega

theorem answer_is_step (party : Party Caller) (world : CacheWorld Caller) (request : DiskCall) :
    calls.Step party world request (calls.answer party world request).1
      (calls.answer party world request).2 := by
  cases request
  case timeNs =>
      cases party with
      | harvest caller =>
          exact ⟨.inl ⟨rfl, _, rfl⟩, ⟨next_time_fresh _ _, rfl⟩, rfl⟩
      | prune caller => exact ⟨.inl ⟨rfl, _, rfl⟩, rfl, rfl⟩
  case readFile src =>
      change calls.Step party world (.readFile src) (calls.readAnswer world src) world
      unfold Calls.readAnswer
      split
      · rename_i bytes found
        split
        · rename_i source
          refine ⟨.inl ⟨rfl, [bytes], rfl, ?_, ?_⟩, rfl, rfl⟩
          · rw [found, List.flatten_singleton]
          · rw [source, List.flatten_singleton]
        · exact ⟨.inr ⟨⟨_, rfl, rfl⟩, rfl⟩, rfl, rfl⟩
      · exact ⟨.inr ⟨⟨_, rfl, rfl⟩, rfl⟩, rfl, rfl⟩
  all_goals exact ⟨.inl rfl, by cases party <;> rfl, rfl⟩

end System

end PretextBuildServer.CacheSystem
