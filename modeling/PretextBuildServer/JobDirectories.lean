import PretextBuildServer.AssetCache
import PretextBuildServer.JobSystem
import PretextBuildServer.Library.CallExpansion

/-!
# The directory of a job, and the workers that prune

One job, its parties, and the runs of `_prune_expired_jobs` of any number of
workers. The time stamp of the job's directory tells when an entry was last made
in it, taken from it or renamed in it; what happens deeper down leaves it alone.
The job's own worker prunes as well, and passes over the job's directory.
-/

namespace PretextBuildServer.JobDirectories

open EffectProgram EffectProgram.Program InterleavedParties
open PretextBuildServer.ServerSettings PretextBuildServer.JobRecord PretextBuildServer.JobCalls
open PretextBuildServer.DiskCalls PretextBuildServer.AssetCache PretextBuildServer.JobSystem

set_option autoImplicit false

/-- `stat` is `entry.stat(follow_symlinks=False).st_mtime`. -/
inductive SweepCall where
  | job (request : JobCall)
  | disk (request : DiskCall)
  | stat (path : Path)

abbrev SweepCall.Answer : SweepCall → Type
  | .job request => request.Answer
  | .disk request => request.Answer
  | .stat _ => Int

abbrev SweepProgram := Program SweepCall.Answer Raised

abbrev sweepPerform (request : SweepCall) : SweepProgram request.Answer := perform request

def onDiskCall (request : DiskCall) : SweepProgram request.Answer := sweepPerform (.disk request)

def onJobCall (request : JobCall) : SweepProgram request.Answer := sweepPerform (.job request)

def jobsDir (settings : Settings) : Path := settings.dataDir ++ ["jobs"]

/-! ## Pruning -/

/-- The body of the loop over the directories. -/
def pruneEntry (settings : Settings) (depth : Nat) (currentJobId : String) (cutoff : Int)
    (entry : DirEntry) : SweepProgram Unit :=
  if entry.name == currentJobId || !entry.isRealDir then return
  else do
    let mtime : Int ← sweepPerform (.stat (jobsDir settings ++ [entry.name]))
    if mtime < cutoff then (rmtree depth (jobsDir settings ++ [entry.name])).expand onDiskCall
    else return

def pruneExpiredJobs (settings : Settings) (depth : Nat) (currentJobId : String) :
    SweepProgram Unit := do
  let now : Int ← onDiskCall .time
  let cutoff := now - settings.jobTtl
  rescue
    (do
      let entries : List DirEntry ← onDiskCall (.scandir (jobsDir settings))
      entries.forM (pruneEntry settings depth currentJobId cutoff))
    fun (raised : Raised) => if raised.isOSError then return else raise raised

/-! ## The world -/

/-- `stamp` is the time stamp of the directory while it is there. The other
fields record what has happened: when the job itself has last changed its
directory, and whether a submission is setting it up or a worker running it. -/
structure DirWorld where
  job : JobWorld
  stamp : Option Nat := none
  changed : Option Nat := none
  submitting : Bool := false
  running : Bool := false
  deriving DecidableEq

def DirWorld.clock (world : DirWorld) : Nat := world.job.clock

/-- The calls that make an entry in the job's directory or take one from it. -/
def changesDir : JobCall → Bool
  | .makeWorkDir | .writeUpload | .removeUpload | .removeJobDir | .zipDir .. => true
  | _ => false

/-- The stamps a call of the job itself may leave. -/
def DirWorld.mayLeave (world : DirWorld) :
    (request : JobCall) → JobReply request → Option Nat → Prop
  | .makeWorkDir, .ok _, stamp => stamp = some world.clock
  | .makeWorkDir, .error _, stamp => stamp = world.stamp ∨ stamp = some world.clock
  | .writeUpload, .ok _, stamp | .removeUpload, .ok _, stamp | .zipDir .., .ok _, stamp =>
      stamp = world.stamp.map fun _ => world.clock
  | .writeUpload, .error _, stamp | .removeUpload, .error _, stamp | .zipDir .., .error _, stamp =>
      stamp = world.stamp ∨ stamp = world.stamp.map fun _ => world.clock
  | .removeJobDir, _, stamp =>
      stamp = none ∨ stamp = world.stamp ∨ stamp = world.stamp.map fun _ => world.clock
  | _, _, stamp => stamp = world.stamp

/-- From the directory's making to the job's place on its queue, or to the call
that fails. -/
def DirWorld.submits (world : DirWorld) : (request : JobCall) → JobReply request → Bool
  | .makeWorkDir, .ok _ => true
  | .writeUpload, .error _ | .removeUpload, .error _ | .removeJobDir, _ | .enqueue _, _ => false
  | _, _ => world.submitting

def DirWorld.runs (world : DirWorld) : (request : JobCall) → JobReply request → Bool
  | .takeFromQueue, .ok _ => true
  | .finishJob, _ => false
  | _, _ => world.running

/-- The world after a call of the job, which has done `job` to the record and has
left the directory with `stamp`. -/
def DirWorld.afterJob (world : DirWorld) (request : JobCall) (reply : JobReply request)
    (job : JobWorld) (stamp : Option Nat) : DirWorld where
  job := job
  stamp := stamp
  changed :=
    if changesDir request = true ∧ stamp = some world.clock then stamp else world.changed
  submitting := world.submits request reply
  running := world.runs request reply

/-- The stamp after a call of a pruning worker that has gone through. -/
def DirWorld.afterDisk (world : DirWorld) (jobDir : Path) : DiskCall → Option Nat
  | .remove path =>
      if path.dropLast = jobDir then world.stamp.map fun _ => world.clock else world.stamp
  | .rmdir path =>
      if path = jobDir then none
      else if path.dropLast = jobDir then world.stamp.map fun _ => world.clock
      else world.stamp
  | _ => world.stamp

def dirStep (job : Job) (world : DirWorld) :
    (request : SweepCall) → Except Raised request.Answer → DirWorld → Prop
  | .job request, reply, after =>
      ∃ later stamp, jobStep .expiring world.job request reply later ∧
        world.mayLeave request reply stamp ∧ after = world.afterJob request reply later stamp
  | .disk .time, reply, after =>
      (∀ now, reply = .ok now → now = (world.clock : Int)) ∧ after = world
  | .disk request, .ok _, after =>
      after = { world with stamp := world.afterDisk (job.settings.jobDir job.jobId) request }
  | .disk _, .error _, after => after = world
  | .stat path, reply, after =>
      (path = job.settings.jobDir job.jobId → ∀ mtime, reply = .ok mtime →
        ∃ stamp : Nat, world.stamp = some stamp ∧ mtime = stamp) ∧ after = world

def dirDrift (world after : DirWorld) : Prop :=
  ∃ later, JobDrift .expiring world.job later ∧ after = { world with job := later }

/-! ## The parties -/

inductive Sweeper where
  | job (party : Party)
  | sweep (index : Nat)
  deriving DecidableEq

abbrev SweepOutcome : Sweeper → Type
  | .job party => Outcome party
  | .sweep _ => Unit

/-- A job among others: how deep a walk goes, and for which jobs the workers run
that prune. -/
structure SharedHost where
  job : Job
  depth : Nat
  currentJobId : Nat → String

def SharedHost.program (host : SharedHost) : (party : Sweeper) → SweepProgram (SweepOutcome party)
  | .job party => (host.job.program party).expand onJobCall
  | .sweep index => pruneExpiredJobs host.job.settings host.depth (host.currentJobId index)

def SharedHost.jobDir (host : SharedHost) : Path := host.job.settings.jobDir host.job.jobId

abbrev DirConfiguration := Configuration SweepCall.Answer Raised DirWorld Sweeper SweepOutcome

def SharedHost.surroundings (host : SharedHost) :
    Surroundings SweepCall.Answer Raised DirWorld Sweeper where
  machine _ := { admits := fun _ _ => True, step := dirStep host.job }
  drift := dirDrift

def SharedHost.start (host : SharedHost) (clock : Nat) : DirConfiguration where
  world := { job := { clock } }
  rest := host.program

end PretextBuildServer.JobDirectories
