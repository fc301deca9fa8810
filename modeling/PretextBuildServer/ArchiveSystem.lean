import PretextBuildServer.Library.CallExpansion
import PretextBuildServer.JobSystem

/-!
# The archive of a job, next to its record

`output.zip` is opened, filled and closed while the other parties go on, so the
call that zips is two steps here. Another worker may prune the job's directory
at any time.
-/

namespace PretextBuildServer.ArchiveSystem

open EffectProgram EffectProgram.Program InterleavedParties
open PretextBuildServer.ServerSettings PretextBuildServer.JobRecord PretextBuildServer.JobCalls
open PretextBuildServer.JobSystem

set_option autoImplicit false

/-- What stands at `output.zip`. -/
inductive Archive where
  | absent
  | part
  | whole
  deriving DecidableEq, Repr

inductive ArchiveCall where
  | job (request : JobCall)
  | openZip (zipPath : Path)

abbrev ArchiveCall.Answer : ArchiveCall → Type
  | .job request => request.Answer
  | .openZip _ => Unit

abbrev ArchiveProgram := Program ArchiveCall.Answer Raised

abbrev archivePerform (request : ArchiveCall) : ArchiveProgram request.Answer := perform request

/-- `_zip_dir` opens the archive, which creates or empties the file, and then
writes the members. -/
def archiveCall : (request : JobCall) → ArchiveProgram request.Answer
  | .zipDir srcDir zipPath skipTopLevelDotfiles => do
      archivePerform (.openZip zipPath)
      archivePerform (.job (.zipDir srcDir zipPath skipTopLevelDotfiles))
  | request => archivePerform (.job request)

structure ArchiveWorld where
  job : JobWorld
  zip : Archive := .absent
  deriving DecidableEq

/-- A file that has been unlinked under its writer stays unlinked. -/
def ArchiveWorld.zipAfter (world : ArchiveWorld) (request : JobCall) (reply : JobReply request) :
    Archive :=
  match request, reply with
  | .zipDir .., .ok _ => if world.zip = .absent then .absent else .whole
  | _, _ => world.zip

def archiveStep (lifetime : Lifetime) (world : ArchiveWorld) :
    (request : ArchiveCall) → Except Raised request.Answer → ArchiveWorld → Prop
  | .job request, reply, after =>
      jobStep lifetime world.job request reply after.job ∧ after.zip = world.zipAfter request reply
  | .openZip _, reply, after =>
      Foreign reply ∧ after = match reply with
        | .ok _ => { world with zip := .part }
        | .error _ => world

/-- What drifts for the job drifts here, and `_prune_expired_jobs` of another
worker may come by. -/
inductive ArchiveDrift (lifetime : Lifetime) : ArchiveWorld → ArchiveWorld → Prop where
  | job (world : ArchiveWorld) (after : JobWorld) (drifts : JobDrift lifetime world.job after) :
      ArchiveDrift lifetime world { world with job := after }
  | prune (world : ArchiveWorld) : ArchiveDrift lifetime world { world with zip := .absent }

abbrev ArchiveConfiguration := Configuration ArchiveCall.Answer Raised ArchiveWorld Party Outcome

def archiveSurroundings (lifetime : Lifetime) :
    Surroundings ArchiveCall.Answer Raised ArchiveWorld Party where
  machine _ := { admits := fun _ _ => True, step := archiveStep lifetime }
  drift := ArchiveDrift lifetime

/-- A condition on the steps of the job, as one on the steps here. -/
def OnJob (condition : JobWorld → Party → (request : JobCall) → JobReply request → Prop)
    (world : ArchiveWorld) (party : Party) :
    (request : ArchiveCall) → Except Raised request.Answer → Prop
  | .job request, reply => condition world.job party request reply
  | .openZip _, _ => True

def startArchive (job : Job) (clock : Nat) : ArchiveConfiguration where
  world := { job := { clock } }
  rest party := (job.program party).expand archiveCall

def ArchiveCall.writesZip : ArchiveCall → Bool
  | .openZip _ | .job (.zipDir ..) => true
  | _ => false

def obligingArchive (lifetime : Lifetime) (world : ArchiveWorld) :
    (request : ArchiveCall) → Except Raised request.Answer × ArchiveWorld
  | .job request =>
      let answered := obliging lifetime world.job request
      (answered.1, { job := answered.2, zip := world.zipAfter request answered.1 })
  | .openZip _ => (.ok (), { world with zip := .part })

def canTurnArchive (world : ArchiveWorld) : ArchiveCall → Bool
  | .job request => canTurn world.job request
  | .openZip _ => true

theorem obliging_archive_step (lifetime : Lifetime) (world : ArchiveWorld) (request : ArchiveCall)
    (turn : canTurnArchive world request = true) :
    archiveStep lifetime world request (obligingArchive lifetime world request).1
      (obligingArchive lifetime world request).2 := by
  cases request with
  | job request => exact ⟨obliging_step lifetime world.job request turn, rfl⟩
  | openZip zipPath => exact ⟨nofun, rfl⟩

theorem zip_unchanged {lifetime : Lifetime} {world after : ArchiveWorld} {request : ArchiveCall}
    {reply : Except Raised request.Answer} (step : archiveStep lifetime world request reply after)
    (other : request.writesZip = false) : after.zip = world.zip := by
  cases request with
  | openZip zipPath => cases other
  | job request =>
      rw [step.2]
      cases request <;> first | rfl | cases other

end PretextBuildServer.ArchiveSystem
