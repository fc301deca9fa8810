import PretextBuildServer.JobDirectories
import PretextBuildServer.PruneProtocol
import PretextBuildServer.RecordExpiry
import PretextBuildServer.RunCalls

/-!
# Which jobs the workers prune

A worker takes the directory of a job for dead once its time stamp is older than
the lifetime of a record. That is right as long as the job is set up, run and
forgotten within that time of its last change to its directory.
-/

namespace PretextBuildServer.PrunedJobs

open EffectProgram EffectProgram.Program InterleavedParties
open PretextBuildServer.ServerSettings PretextBuildServer.JobRecord PretextBuildServer.JobCalls
open PretextBuildServer.StoreCalls PretextBuildServer.ApiEndpoints
open PretextBuildServer.DiskCalls PretextBuildServer.AssetCache PretextBuildServer.PruneProtocol
open PretextBuildServer.JobSystem PretextBuildServer.RunCalls PretextBuildServer.LifeCycle
open PretextBuildServer.RecordExpiry PretextBuildServer.RequestProtocols
open PretextBuildServer.JobDirectories

set_option autoImplicit false

/-! ## How far the parties have got with the directory -/

inductive Turn where
  | before
  | unpacking
  | storing
  | working
  | ended
  deriving DecidableEq

def unpacks : JobCall → Prop
  | .writeUpload | .extractUpload | .removeUpload | .removeJobDir | .time | .hset _ => True
  | _ => False

def stores : JobCall → Prop
  | .expire _ | .enqueue _ => True
  | _ => False

def turnAdmits : Party → Turn → JobCall → Prop
  | .submission, .before, request => request = .makeWorkDir ∨ validating request
  | .submission, .unpacking, request => unpacks request
  | .submission, .storing, request => stores request
  | .worker, .before, request => request = .takeFromQueue
  | .worker, .working, request => working request ∨ request = .finishJob
  | .cancel _, _, request => cancelling request
  | _, _, _ => False

def turnAfter (turn : Turn) : (request : JobCall) → JobReply request → Turn
  | .makeWorkDir, .ok _ => .unpacking
  | .makeWorkDir, .error _ | .writeUpload, .error _ | .removeUpload, .error _ => .ended
  | .removeJobDir, _ | .enqueue _, _ | .finishJob, _ => .ended
  | .hset _, _ => if turn = .unpacking then .storing else turn
  | .takeFromQueue, _ => .working
  | _, _ => turn

/-- Redis and the clock answer, and a job that is taken has been on its queue. -/
def answersSurely : (request : JobCall) → JobReply request → Prop
  | .hset _, reply | .expire _, reply | .takeFromQueue, reply => reply = .ok ()
  | .time, reply => ∃ clock, reply = .ok clock
  | _, _ => True

def turns (party : Party) : Machine JobCall.Answer Raised Turn where
  admits := turnAdmits party
  step turn request reply after := answersSurely request reply ∧ after = turnAfter turn request reply

theorem cancel_turn {index : Nat} {turn : Turn} {request : JobCall}
    (inTurn : turnAdmits (.cancel index) turn request) : cancelling request := by
  cases turn <;> exact inTurn

theorem working_only {turn : Turn} {request : JobCall} (inTurn : turnAdmits .worker turn request) :
    request = .takeFromQueue ∨ working request ∨ request = .finishJob := by
  cases turn <;> first | exact .inl inTurn | exact .inr inTurn | cases inTurn

theorem work_goes_on {request : JobCall} (works : working request) (reply : JobReply request) :
    turnAfter .working request reply = .working := by
  cases request <;> first | rfl | simp [working, watching, settling, preparing, looking, packing,
    harvesting, reporting, validating] at works

theorem validating_stays {Result : Type} (program : JobProgram Result)
    (only : MakesOnly validating program) :
    Guarantees (turns .submission) (fun after _ => after = .before) .before program := by
  apply guarantees_of_makes_only _ _ only
  · exact fun request validates => .inr validates
  · rintro request reply after validates ⟨-, rfl⟩
    cases request <;> first | rfl | cases validates

/-- A submission that has gone wrong is over, or has made no directory. -/
def Stored (turn : Turn) : Except Raised Unit → Prop
  | .ok _ => turn = .storing
  | .error _ => turn = .before ∨ turn = .ended

theorem store_create_turns (settings : Settings) (fields : Fields) :
    Guarantees (turns .submission) Stored .unpacking (storeCreate settings fields) := by
  refine ⟨trivial, ?_⟩
  rintro _ _ ⟨⟨clock, rfl⟩, rfl⟩
  refine ⟨trivial, ?_⟩
  rintro _ _ ⟨rfl, rfl⟩
  refine ⟨trivial, ?_⟩
  rintro _ _ ⟨rfl, rfl⟩
  rfl

theorem intake_turns (settings : Settings) (callbackUrl : Option String) (fields : Fields) :
    Guarantees (turns .submission) Stored .before (intake settings callbackUrl fields) := by
  have unpack : Guarantees (turns .submission) Stored .before (unpackAndCreate settings
      { fields with callbackUrl := callbackUrl.filter (· ≠ "") }) := by
    refine ⟨.inl rfl, ?_⟩
    rintro (raised | _) _ ⟨-, rfl⟩
    · exact .inr rfl
    refine ⟨trivial, ?_⟩
    rintro (raised | _) _ ⟨-, rfl⟩
    · exact .inr rfl
    refine ⟨trivial, ?_⟩
    rintro (raised | _) _ ⟨-, rfl⟩
    · refine ⟨trivial, ?_⟩
      rintro (failure | _) _ ⟨-, rfl⟩ <;> exact .inr rfl
    · refine ⟨trivial, ?_⟩
      rintro (raised | _) _ ⟨-, rfl⟩
      · exact .inr rfl
      · exact store_create_turns settings _
  unfold intake
  cases callbackUrl with
  | none => exact unpack
  | some url =>
      apply guarantees_seq _ _ _ (validating_stays _ (allowed_url_makes settings _))
      rintro _ (raised | allowed) rfl
      · exact .inl rfl
      simp only [on_value_ok]
      split
      · exact .inl rfl
      · exact unpack

def Submitted {Result : Type} (turn : Turn) (_ : Except Raised Result) : Prop :=
  turn = .before ∨ turn = .ended

theorem enqueue_turns {Result : Type} (settings : Settings) (callbackUrl projectId : Option String)
    (fields : Option String → Fields) (queue : Kind) (answer : Result) :
    Guarantees (turns .submission) Submitted .before (do
      let project ← projectIdField projectId
      intake settings callbackUrl (fields project)
      jobCall (.enqueue queue)
      return answer) := by
  have named : MakesOnly validating (projectIdField projectId) := by
    unfold projectIdField
    dsimp only
    split
    · trivial
    split <;> trivial
  apply guarantees_seq _ _ _ (validating_stays _ named)
  rintro _ (raised | project) rfl
  · exact .inl rfl
  apply guarantees_seq _ _ _ (intake_turns settings callbackUrl (fields project))
  rintro turn (raised | _) stored
  · exact stored
  · obtain rfl : turn = .storing := stored
    refine ⟨trivial, ?_⟩
    rintro (raised | _) _ ⟨-, rfl⟩ <;> exact .inr rfl

theorem submit_turns (job : Job) :
    Guarantees (turns .submission) Submitted .before job.submit := by
  have checked : ∀ token authorization,
      MakesOnly validating (checkToken job.settings token authorization) := by
    intro token authorization
    unfold checkToken
    split <;> trivial
  unfold Job.submit
  split
  · apply guarantees_seq _ _ _ (validating_stays _ (checked _ _))
    rintro _ (raised | _) rfl
    · exact .inl rfl
    · exact enqueue_turns job.settings _ _ (fun project =>
        { kind := some .build, target := some _, projectId := project }) _ _
  · apply guarantees_seq _ _ _ (validating_stays _ (checked _ _))
    rintro _ (raised | _) rfl
    · exact .inl rfl
    dsimp only [on_value_ok]
    split
    · exact .inl rfl
    · exact enqueue_turns job.settings _ _ (fun project =>
        { kind := some .generate, target := some _, assets := some _, projectId := project }) _ _

theorem work_turns (job : Job) :
    Guarantees (turns .worker) (fun after _ => after = .ended) .before job.work := by
  refine ⟨rfl, ?_⟩
  rintro _ _ ⟨rfl, rfl⟩
  have ran : Guarantees (turns .worker) (fun after _ => after = .working) .working job.runFunction := by
    apply guarantees_of_makes_only _ _ (run_function_makes job)
    · exact fun request works => .inl works
    · rintro request reply after works ⟨-, rfl⟩
      exact work_goes_on works reply
  apply guarantees_seq _ _ _ ran
  rintro _ outcome rfl
  refine ⟨.inr rfl, ?_⟩
  rintro reply _ ⟨-, rfl⟩
  rfl

theorem cancel_turns (index : Nat) (kind : Kind) :
    Guarantees (turns (.cancel index)) (fun after _ => after = .before) .before
      (ApiEndpoints.cancel kind) := by
  apply guarantees_of_makes_only _ _ (cancel_makes kind)
  · exact fun request cancels => cancels
  · rintro request reply after cancels ⟨-, rfl⟩
    cases request <;> first | rfl | cases cancels

/-! ## What a pruning worker goes by -/

/-- The time a pruning worker has been told, and the stamp it has found on the
directory of the job. -/
structure Look where
  now : Int := 0
  found : Option Int := none

def Look.note (jobDir : Path) (look : Look) :
    (request : SweepCall) → Except Raised request.Answer → Look
  | .disk .time, .ok now => { now }
  | .stat path, .ok mtime => if path = jobDir then { look with found := some mtime } else look
  | _, _ => look

def Look.Old (ttl : Int) (look : Look) : Prop :=
  ∃ mtime, look.found = some mtime ∧ mtime < look.now - ttl

def sweeping (host : SharedHost) : Machine SweepCall.Answer Raised Look where
  admits look
    | .disk request => ∀ path, removal request = some path → host.jobDir <+: path →
        look.Old host.job.settings.jobTtl
    | .stat _ => True
    | .job _ => False
  step look request reply after := after = look.note host.jobDir request reply

section Sweep

variable {host : SharedHost} {look : Look}

theorem job_dir_of_name {name : String} {path : Path}
    (within : jobsDir host.job.settings ++ [name] <+: path) (ours : host.jobDir <+: path) :
    name = host.job.jobId := by
  have spelled : host.jobDir = jobsDir host.job.settings ++ [host.job.jobId] := by
    simp [SharedHost.jobDir, Settings.jobDir, jobsDir]
  rw [spelled] at ours
  have shorter := List.prefix_of_prefix_length_le within ours (by simp)
  simpa using shorter.eq_of_length (by simp)

theorem removal_keeps {dir : Path} (program : DiskProgram Unit)
    (only : MakesOnly (removesUnder dir) program)
    (old : ∀ path, dir <+: path → host.jobDir <+: path → look.Old host.job.settings.jobTtl) :
    Guarantees (sweeping host) (fun after _ => after = look) look (program.expand onDiskCall) := by
  induction program with
  | done outcome => rfl
  | call request next induction =>
      refine ⟨?_, ?_⟩
      · intro path taken ours
        have under := only.1
        cases request with
        | remove other | rmdir other =>
            cases taken
            exact old _ under ours
        | _ => cases taken
      · rintro reply after rfl
        have same : look.note host.jobDir (.disk request) reply = look := by
          have under := only.1
          cases request <;> first | rfl | cases under
        rw [same]
        exact induction reply (only.2 reply)

theorem entry_keeps (currentJobId : String) (entry : DirEntry) :
    Guarantees (sweeping host) (fun after _ => after.now = look.now) look
      (pruneEntry host.job.settings host.depth currentJobId
        (look.now - host.job.settings.jobTtl) entry) := by
  unfold pruneEntry
  split
  · rfl
  · refine ⟨trivial, ?_⟩
    rintro (raised | mtime) after rfl
    · rfl
    · have told : (look.note host.jobDir (.stat (jobsDir host.job.settings ++ [entry.name]))
          (.ok mtime)).now = look.now := by
        simp only [Look.note]
        split <;> rfl
      simp only [done_and_then, on_value_ok]
      split
      · rename_i older
        apply guarantees_mono _ _ _ (removal_keeps _ (rmtree_removes_under _ _) _)
        · rintro after outcome rfl
          exact told
        · intro path within ours
          have named := job_dir_of_name within ours
          have spelled : jobsDir host.job.settings ++ [entry.name] = host.jobDir := by
            rw [named]
            simp [SharedHost.jobDir, Settings.jobDir, jobsDir]
          rw [spelled]
          exact ⟨mtime, by simp [Look.note], by simpa [Look.note] using older⟩
      · exact told

theorem sweep_keeps (currentJobId : String) :
    Guarantees (sweeping host) (fun _ _ => True) look
      (pruneExpiredJobs host.job.settings host.depth currentJobId) := by
  refine ⟨nofun, ?_⟩
  rintro (raised | now) after rfl
  · trivial
  · refine ⟨nofun, ?_⟩
    rintro (raised | entries) after rfl
    · simp only [done_and_then, on_value_error, on_failure_error]
      split <;> trivial
    · simp only [done_and_then, on_value_ok]
      apply guarantees_seq _ _ _ (guarantees_for (fun look : Look => look.now = now) _ _ _ _ rfl)
      · rintro after (raised | value) -
        · rw [on_failure_error]
          split <;> trivial
        · trivial
      · rintro look entry - rfl
        exact entry_keeps currentJobId entry

end Sweep

/-! ## A job that is done with in time -/

/-- A submission or a worker at the job's directory has last changed it within
the lifetime of a record. -/
def Timely (ttl : Int) (world : DirWorld) : Prop :=
  ∀ changed, world.changed = some changed → world.submitting = true ∨ world.running = true →
    (world.clock : Int) ≤ changed + ttl

def ExpiryPassed (ttl : Int) (world : DirWorld) : Prop :=
  ∀ returned, world.job.expirySet = some returned → returned + ttl ≤ (world.clock : Int)

/-- A look that finds the directory older than the lifetime of a record comes no
sooner than that time after the record's expiry was set. -/
def LooksAfterExpiry (host : SharedHost) (world : DirWorld) :
    (request : SweepCall) → Except Raised request.Answer → Prop
  | .stat path, .ok mtime => path = host.jobDir →
      mtime + host.job.settings.jobTtl < (world.clock : Int) →
        ExpiryPassed host.job.settings.jobTtl world
  | _, _ => True

/-- An update other than the one of `create` finds the key still there. -/
def FindsKey (world : DirWorld) (request : SweepCall) : Prop :=
  ∀ fields, request = .job (.hset fields) → fields.createdAt = none →
    world.job.record.isSome = true

/-- The runs all of whose steps find the key and leave the world timely, and in
which nobody looks before the expiry has passed. -/
def timely (host : SharedHost) : Surroundings SweepCall.Answer Raised DirWorld Sweeper where
  machine _ := {
    admits := fun _ _ => True
    step := fun world request reply after => dirStep host.job world request reply after ∧
      FindsKey world request ∧ LooksAfterExpiry host world request reply ∧
      Timely host.job.settings.jobTtl after }
  drift world after := dirDrift world after ∧ Timely host.job.settings.jobTtl after

/-! ## What holds in such runs -/

abbrev DirPhase : Sweeper → Type
  | .job party => Phase party × Turn
  | .sweep _ => Look

def onJobs {State : Type} (machine : Machine JobCall.Answer Raised State) :
    Machine SweepCall.Answer Raised State where
  admits state
    | .job request => machine.admits state request
    | _ => False
  step state
    | .job request, reply, after => machine.step state request reply after
    | _, _, _ => False

def dirProtocol (host : SharedHost) :
    (party : Sweeper) → Machine SweepCall.Answer Raised (DirPhase party)
  | .job party => onJobs ((jobProtocol host.job false party).both (turns party))
  | .sweep _ => sweeping host

/-- The directory has not been changed by its job for the lifetime of a record. -/
def Expired (ttl : Int) (world : DirWorld) : Prop :=
  ∃ changed : Nat, world.changed = some changed ∧ changed + ttl < (world.clock : Int)

structure Overdue (ttl : Int) (world : DirWorld) : Prop where
  unchanged : Expired ttl world
  passed : ExpiryPassed ttl world

/-- How a submission's place in its protocols shows in the world. -/
structure Underway (world : DirWorld) (phase : SubmissionPhase) (turn : Turn) : Prop where
  stored : phase = .stored ∨ phase = .enqueued → world.job.expirySet.isSome = true
  created : phase = .created → turn = .storing
  unmade : turn = .before → world.changed = none ∧ world.stamp = none
  submitting : world.submitting = true ↔ turn = .unpacking ∨ turn = .storing

/-- The same for the worker. -/
structure AtWork (world : DirWorld) (turn : Turn) : Prop where
  running : world.running = true ↔ turn = .working
  taken : world.job.taken = true → turn ≠ .before

/-- The stamp is no older than the last change of the job itself. -/
structure Stamped (world : DirWorld) : Prop where
  past : ∀ changed, world.changed = some changed → changed ≤ world.clock
  stamp : ∀ stamp, world.stamp = some stamp → ∃ changed, world.changed = some changed ∧
    changed ≤ stamp

structure Watched (host : SharedHost) (world : DirWorld)
    (phases : (party : Sweeper) → DirPhase party) :
    Prop where
  record : RecordKept host.job world.job (phases (.job .submission)).1
  underway : Underway world (phases (.job .submission)).1 (phases (.job .submission)).2
  atWork : AtWork world (phases (.job .worker)).2
  stamped : Stamped world
  told : ∀ index, (phases (.sweep index)).now ≤ (world.clock : Int)
  old : ∀ index, (phases (.sweep index)).Old host.job.settings.jobTtl →
    Overdue host.job.settings.jobTtl world
  timely : Timely host.job.settings.jobTtl world

section Steps

variable {host : SharedHost} {world : DirWorld}

theorem job_step_frame {world after : JobWorld} {request : JobCall} {reply : JobReply request}
    (step : jobStep .expiring world request reply after) :
    after.clock = world.clock ∧
      ((∀ seconds, request ≠ .expire seconds) → after.expirySet = world.expirySet) ∧
      (request ≠ .takeFromQueue → after.taken = world.taken) := by
  cases request
  case hgetall reader =>
      obtain ⟨-, rfl⟩ := step
      cases reader <;> exact ⟨rfl, fun _ => rfl, fun _ => rfl⟩
  case expire seconds =>
      obtain ⟨-, rfl⟩ := step
      exact ⟨rfl, fun other => absurd rfl (other seconds), fun _ => rfl⟩
  case takeFromQueue =>
      obtain ⟨-, -, rfl⟩ := step
      exact ⟨rfl, fun _ => rfl, fun other => absurd rfl other⟩
  case cancelJob =>
      simp only [jobStep] at step
      split at step
      · obtain ⟨-, rfl⟩ := step
        exact ⟨rfl, fun _ => rfl, fun _ => rfl⟩
      · obtain ⟨-, rfl⟩ := step
        exact ⟨rfl, fun _ => rfl, fun _ => rfl⟩
  all_goals
    obtain ⟨-, rfl⟩ := step
    first
      | exact ⟨rfl, fun _ => rfl, fun _ => rfl⟩
      | cases reply <;> exact ⟨rfl, fun _ => rfl, fun _ => rfl⟩

theorem job_step_answers {world after : JobWorld} {request : JobCall} {reply : JobReply request}
    (step : jobStep .expiring world request reply after) : answersSurely request reply := by
  cases request
  case hset fields => exact step.1
  case expire seconds => exact step.1
  case takeFromQueue => exact step.2.1
  case time => exact ⟨_, step.1⟩
  all_goals trivial

theorem may_leave_cases {request : JobCall} {reply : JobReply request} {stamp : Option Nat}
    (leaves : world.mayLeave request reply stamp) :
    stamp = world.stamp ∨ stamp = none ∨ stamp = some world.clock ∧ changesDir request = true ∧
      (request = .makeWorkDir ∨ world.stamp ≠ none) := by
  have mapped : ∀ other : Option Nat, other = world.stamp.map (fun _ => world.clock) →
      other = none ∨ other = some world.clock ∧ world.stamp ≠ none := by
    rintro _ rfl
    cases world.stamp with
    | none => exact .inl rfl
    | some old => exact .inr ⟨rfl, by simp⟩
  cases request
  case makeWorkDir =>
      cases reply with
      | ok value => exact .inr (.inr ⟨leaves, rfl, .inl rfl⟩)
      | error raised =>
          rcases leaves with same | now
          · exact .inl same
          · exact .inr (.inr ⟨now, rfl, .inl rfl⟩)
  case removeJobDir =>
      rcases leaves with gone | same | now
      · exact .inr (.inl gone)
      · exact .inl same
      · rcases mapped stamp now with gone | ⟨now, there⟩
        · exact .inr (.inl gone)
        · exact .inr (.inr ⟨now, rfl, .inr there⟩)
  case writeUpload | removeUpload | zipDir =>
      cases reply with
      | ok value =>
          rcases mapped stamp leaves with gone | ⟨now, there⟩
          · exact .inr (.inl gone)
          · exact .inr (.inr ⟨now, rfl, .inr there⟩)
      | error raised =>
          rcases leaves with same | now
          · exact .inl same
          · rcases mapped stamp now with gone | ⟨now, there⟩
            · exact .inr (.inl gone)
            · exact .inr (.inr ⟨now, rfl, .inr there⟩)
  all_goals exact .inl leaves

theorem stamped_by_job (stamped : Stamped world) {request : JobCall} {reply : JobReply request}
    {later : JobWorld} {stamp : Option Nat} (leaves : world.mayLeave request reply stamp)
    (clock : later.clock = world.job.clock) :
    Stamped (world.afterJob request reply later stamp) := by
  have now : (world.afterJob request reply later stamp).clock = world.clock := clock
  constructor
  · intro changed same
    rw [now]
    simp only [DirWorld.afterJob] at same
    split at same
    · rename_i fresh
      rw [fresh.2, Option.some_inj] at same
      omega
    · exact stamped.past changed same
  · rintro left rfl
    by_cases fresh : changesDir request = true ∧ some left = some world.clock
    · exact ⟨left, by simp only [DirWorld.afterJob]; rw [if_pos fresh], le_rfl⟩
    · rcases may_leave_cases leaves with same | gone | ⟨present, changes, -⟩
      · obtain ⟨changed, was, older⟩ := stamped.stamp left same.symm
        exact ⟨changed, by simp only [DirWorld.afterJob]; rw [if_neg fresh, was], older⟩
      · cases gone
      · exact absurd ⟨changes, present⟩ fresh

/-- The calls by which a job puts off its end. -/
def putsOff : JobCall → Bool
  | .expire _ => true
  | request => changesDir request

theorem overdue_by_job {ttl : Int} (overdue : Overdue ttl world) {request : JobCall}
    {reply : JobReply request} {later : JobWorld} {stamp : Option Nat}
    (step : jobStep .expiring world.job request reply later) (quiet : putsOff request = false) :
    Overdue ttl (world.afterJob request reply later stamp) := by
  obtain ⟨clock, expirySet, -⟩ := job_step_frame step
  have now : (world.afterJob request reply later stamp).clock = world.clock := clock
  have unchanging : changesDir request = false := by
    cases request <;> first | exact quiet | rfl
  constructor
  · obtain ⟨changed, was, passed⟩ := overdue.unchanged
    refine ⟨changed, ?_, by rw [now]; exact passed⟩
    simp [DirWorld.afterJob, unchanging, was]
  · intro returned returns
    have same : later.expirySet = world.job.expirySet := by
      apply expirySet
      rintro seconds rfl
      cases quiet
    change later.expirySet = some returned at returns
    rw [same] at returns
    rw [now]
    exact overdue.passed returned returns

/-- The calls by which a submission gets on with the directory. -/
def furthers : JobCall → Bool
  | .makeWorkDir | .writeUpload | .removeUpload | .removeJobDir | .expire _ | .enqueue _ => true
  | _ => false

theorem worker_furthers_nothing {turn : Turn} {request : JobCall}
    (inTurn : turnAdmits .worker turn request) : furthers request = false := by
  rcases working_only inTurn with rfl | works | rfl
  · rfl
  · cases request <;> first | rfl | simp [working, watching, settling, preparing, looking, packing,
      harvesting, reporting, validating] at works
  · rfl

theorem underway_elsewhere {phase : SubmissionPhase} {turn : Turn}
    (underway : Underway world phase turn) {request : JobCall} {reply : JobReply request}
    {later : JobWorld} {stamp : Option Nat} (leaves : world.mayLeave request reply stamp)
    (step : jobStep .expiring world.job request reply later) (other : furthers request = false) :
    Underway (world.afterJob request reply later stamp) phase turn := by
  have frame := job_step_frame step
  constructor
  · intro stored
    have same : later.expirySet = world.job.expirySet := by
      apply frame.2.1
      rintro seconds rfl
      cases other
    change later.expirySet.isSome = true
    rw [same]
    exact underway.stored stored
  · exact underway.created
  · intro before
    obtain ⟨unchanged, unmade⟩ := underway.unmade before
    have still : stamp = none := by
      rcases may_leave_cases leaves with same | gone | ⟨-, -, rfl | there⟩
      · rw [same, unmade]
      · exact gone
      · cases other
      · exact absurd unmade there
    simp [DirWorld.afterJob, still, unchanged]
  · have same : world.submits request reply = world.submitting := by
      cases request <;> first | rfl | cases other
    change world.submits request reply = true ↔ _
    rw [same]
    exact underway.submitting

theorem underway_moved {phase : SubmissionPhase} {turn next : Turn}
    (underway : Underway world phase turn) {request : JobCall} {reply : JobReply request}
    {later : JobWorld} {stamp : Option Nat} (expirySet : later.expirySet = world.job.expirySet)
    (apart : turn ≠ .storing) (begun : next ≠ .before)
    (submits : world.submits request reply = true ↔ next = .unpacking ∨ next = .storing) :
    Underway (world.afterJob request reply later stamp) phase next := by
  refine ⟨?_, ?_, fun before => absurd before begun, submits⟩
  · intro stored
    change later.expirySet.isSome = true
    rw [expirySet]
    exact underway.stored stored
  · intro created
    exact absurd (underway.created created) apart

theorem underway_step {phase next : SubmissionPhase} {turn : Turn} {kind : Kind} {ttl : Int}
    (underway : Underway world phase turn) {request : JobCall} {reply : JobReply request}
    {later : JobWorld} {stamp : Option Nat} (leaves : world.mayLeave request reply stamp)
    (step : jobStep .expiring world.job request reply later)
    (admitted : submissionAdmits kind ttl phase request)
    (inTurn : turnAdmits .submission turn request)
    (follows : submissionStep phase request reply next) :
    Underway (world.afterJob request reply later stamp) next (turnAfter turn request reply) := by
  have frame := job_step_frame step
  cases turn with
  | before =>
      rcases inTurn with rfl | validates
      · obtain rfl : next = phase := follows
        have idle : world.submitting = false := by
          have submitting := underway.submitting
          simpa using submitting
        cases reply with
        | ok value => exact underway_moved underway (frame.2.1 nofun) nofun nofun (by simp [DirWorld.submits, turnAfter])
        | error raised =>
            exact underway_moved underway (frame.2.1 nofun) nofun nofun
              (by simp [DirWorld.submits, turnAfter, idle])
      · have same : next = phase := by
          cases request <;> first | exact follows | cases validates
        have stays : turnAfter .before request reply = .before := by
          cases request <;> first | rfl | cases validates
        rw [same, stays]
        apply underway_elsewhere underway leaves step
        cases request <;> first | rfl | cases validates
  | unpacking =>
      have busy : world.submitting = true := underway.submitting.mpr (.inl rfl)
      cases request
      case hset fields =>
          obtain ⟨rfl, rfl⟩ := follows
          refine ⟨by simp, fun _ => rfl, nofun, ?_⟩
          exact iff_of_true busy (.inr rfl)
      case time =>
          obtain rfl : next = phase := follows
          exact underway_elsewhere underway leaves step rfl
      case extractUpload =>
          obtain rfl : next = phase := follows
          exact underway_elsewhere underway leaves step rfl
      case removeJobDir =>
          obtain rfl : next = phase := follows
          exact underway_moved underway (frame.2.1 nofun) nofun nofun (by simp [DirWorld.submits, turnAfter])
      case writeUpload | removeUpload =>
          obtain rfl : next = phase := follows
          cases reply with
          | ok value =>
              exact underway_moved underway (frame.2.1 nofun) nofun nofun (iff_of_true busy (.inl rfl))
          | error raised =>
              exact underway_moved underway (frame.2.1 nofun) nofun nofun
                (by simp [DirWorld.submits, turnAfter])
      all_goals cases inTurn
  | storing =>
      have busy : world.submitting = true := underway.submitting.mpr (.inr rfl)
      cases request
      case expire seconds =>
          obtain ⟨rfl, rfl⟩ := follows
          obtain ⟨-, rfl⟩ := step
          exact ⟨fun _ => rfl, nofun, nofun, iff_of_true busy (.inr rfl)⟩
      case enqueue queue =>
          obtain ⟨rfl, rfl⟩ := follows
          refine ⟨?_, nofun, nofun, by simp [DirWorld.afterJob, DirWorld.submits, turnAfter]⟩
          intro _
          change later.expirySet.isSome = true
          rw [frame.2.1 nofun]
          exact underway.stored (.inl admitted)
      all_goals cases inTurn
  | working => cases inTurn
  | ended => cases inTurn

theorem at_work_step {turn : Turn} (atWork : AtWork world turn) {request : JobCall}
    {reply : JobReply request} {later : JobWorld} {stamp : Option Nat}
    (step : jobStep .expiring world.job request reply later)
    (inTurn : turnAdmits .worker turn request) :
    AtWork (world.afterJob request reply later stamp) (turnAfter turn request reply) := by
  cases turn with
  | before =>
      obtain rfl := inTurn
      obtain ⟨-, rfl, -⟩ := step
      exact ⟨iff_of_true rfl rfl, fun _ => nofun⟩
  | working =>
      have busy : world.running = true := atWork.running.mpr rfl
      rcases inTurn with works | rfl
      · have runs : world.runs request reply = world.running := by
          cases request <;> first | rfl | simp [working, watching, settling, preparing, looking,
            packing, harvesting, reporting, validating] at works
        rw [work_goes_on works reply]
        exact ⟨iff_of_true (runs.trans busy) rfl, fun _ => nofun⟩
      · exact ⟨iff_of_false (by simp [DirWorld.afterJob, DirWorld.runs]) nofun, fun _ => nofun⟩
  | unpacking => cases inTurn
  | storing => cases inTurn
  | ended => cases inTurn

theorem at_work_elsewhere {turn : Turn} (atWork : AtWork world turn) {request : JobCall}
    {reply : JobReply request} {later : JobWorld} {stamp : Option Nat}
    (step : jobStep .expiring world.job request reply later) (notTaken : request ≠ .takeFromQueue)
    (notFinished : request ≠ .finishJob) :
    AtWork (world.afterJob request reply later stamp) turn := by
  have runs : world.runs request reply = world.running := by
    cases request <;> first | rfl | exact absurd rfl notTaken | exact absurd rfl notFinished
  constructor
  · change world.runs request reply = true ↔ _
    rw [runs]
    exact atWork.running
  · intro taken
    apply atWork.taken
    rw [← (job_step_frame step).2.2 notTaken]
    exact taken

end Steps

section Runs

variable {host : SharedHost} {world : DirWorld} {phases : (party : Sweeper) → DirPhase party}

theorem change_unexpired (watched : Watched host world phases) (party : Party) {request : JobCall}
    (inTurn : turnAdmits party (phases (.job party)).2 request)
    (changes : putsOff request = true) : ¬ Expired host.job.settings.jobTtl world := by
  rintro ⟨changed, was, passed⟩
  have busy : ¬ (world.submitting = true ∨ world.running = true) := by
    intro busy
    have inTime := watched.timely changed was busy
    omega
  rw [watched.underway.submitting, watched.atWork.running] at busy
  cases party with
  | submission =>
      cases turn : (phases (.job .submission)).2 with
      | before =>
          rw [(watched.underway.unmade turn).1] at was
          cases was
      | unpacking => exact busy (.inl (.inl turn))
      | storing => exact busy (.inl (.inr turn))
      | working | ended =>
          rw [turn] at inTurn
          cases inTurn
  | worker =>
      cases turn : (phases (.job .worker)).2 with
      | working => exact busy (.inr turn)
      | before =>
          rw [turn] at inTurn
          obtain rfl := inTurn
          cases changes
      | unpacking | storing | ended =>
          rw [turn] at inTurn
          cases inTurn
  | cancel index =>
      have cancels : cancelling request := cancel_turn inTurn
      cases request <;> first | exact absurd changes Bool.false_ne_true | cases cancels

theorem watched_around (watched : Watched host world phases) (party : Party) {request : JobCall}
    {reply : JobReply request} {later : JobWorld} {stamp : Option Nat}
    (inTurn : turnAdmits party (phases (.job party)).2 request)
    (leaves : world.mayLeave request reply stamp)
    (step : jobStep .expiring world.job request reply later) :
    Stamped (world.afterJob request reply later stamp) ∧
      (∀ next index, (Function.update phases (.job party) next (.sweep index)).now ≤
        ((world.afterJob request reply later stamp).clock : Int)) ∧
      ∀ next index, Look.Old host.job.settings.jobTtl
        (Function.update phases (.job party) next (.sweep index)) →
        Overdue host.job.settings.jobTtl (world.afterJob request reply later stamp) := by
  have clock := (job_step_frame step).1
  refine ⟨stamped_by_job watched.stamped leaves clock, ?_, ?_⟩
  · intro next index
    have now : (world.afterJob request reply later stamp).clock = world.clock := clock
    rw [Function.update_of_ne (by simp), now]
    exact watched.told index
  · intro next index old
    rw [Function.update_of_ne (by simp)] at old
    have overdue := watched.old index old
    by_cases changes : putsOff request = true
    · exact absurd overdue.unchanged (change_unexpired watched party inTurn changes)
    · exact overdue_by_job overdue step (by simpa using changes)

theorem watched_act (watched : Watched host world phases) (party : Party) (request : JobCall)
    (reply : JobReply request) (later : JobWorld) (stamp : Option Nat)
    (admitted : ((jobProtocol host.job false party).both (turns party)).admits
      (phases (.job party)) request)
    (step : jobStep .expiring world.job request reply later)
    (leaves : world.mayLeave request reply stamp) (finds : FindsKey world (.job request))
    (inTime : Timely host.job.settings.jobTtl (world.afterJob request reply later stamp)) :
    ∃ next, ((jobProtocol host.job false party).both (turns party)).step
        (phases (.job party)) request reply next ∧
      Watched host (world.afterJob request reply later stamp)
        (Function.update phases (.job party) next) := by
  obtain ⟨stamped, told, old⟩ := watched_around watched party admitted.2 leaves step
  have lands : ∀ party, LandsOnKey world.job party request reply := by
    intro _ fields same
    exact finds fields (congrArg SweepCall.job same)
  have answers := job_step_answers step
  cases party with
  | submission =>
      obtain ⟨next, follows⟩ := submission_plays request reply admitted.1 step
      refine ⟨⟨next, _⟩, ⟨follows, answers, rfl⟩, ?_, ?_, ?_, stamped, told _, old _, inTime⟩
      · rw [Function.update_self]
        exact submission_keeps request reply next watched.record admitted.1 follows step
      · rw [Function.update_self]
        exact underway_step watched.underway leaves step admitted.1 admitted.2 follows
      · rw [Function.update_of_ne (by simp)]
        apply at_work_elsewhere watched.atWork step
        · rintro rfl
          exact admitted.1
        · rintro rfl
          exact admitted.1
  | worker =>
      obtain ⟨next, follows⟩ := worker_plays request reply admitted.1 step
      have other : furthers request = false := worker_furthers_nothing admitted.2
      refine ⟨⟨next, _⟩, ⟨follows, answers, rfl⟩, ?_, ?_, ?_, stamped, told _, old _, inTime⟩
      · rw [Function.update_of_ne (by simp)]
        exact worker_keeps request reply watched.record admitted.1 (lands .worker) step
      · rw [Function.update_of_ne (by simp)]
        exact underway_elsewhere watched.underway leaves step other
      · rw [Function.update_self]
        exact at_work_step watched.atWork step admitted.2
  | cancel index =>
      obtain ⟨next, follows⟩ := cancel_plays request reply admitted.1 step
      have inTurn : turnAdmits (.cancel index) (phases (.job (.cancel index))).2 request := admitted.2
      have cancels : cancelling request := cancel_turn inTurn
      refine ⟨⟨next, _⟩, ⟨follows, answers, rfl⟩, ?_, ?_, ?_, stamped, told _, old _, inTime⟩
      · rw [Function.update_of_ne (by simp)]
        exact cancel_keeps index request reply watched.record admitted.1 (lands (.cancel index)) step
      · rw [Function.update_of_ne (by simp)]
        apply underway_elsewhere watched.underway leaves step
        cases request <;> first | rfl | cases cancels
      · rw [Function.update_of_ne (by simp)]
        apply at_work_elsewhere watched.atWork step
        · rintro rfl
          cases cancels
        · rintro rfl
          cases cancels

theorem after_disk_cases (jobDir : Path) (request : DiskCall) :
    world.afterDisk jobDir request = world.stamp ∨ world.afterDisk jobDir request = none ∨
      world.afterDisk jobDir request = world.stamp.map fun _ => world.clock := by
  unfold DirWorld.afterDisk
  split
  · split
    · exact .inr (.inr rfl)
    · exact .inl rfl
  · split
    · exact .inr (.inl rfl)
    split
    · exact .inr (.inr rfl)
    · exact .inl rfl
  · exact .inl rfl

theorem stamped_by_disk (stamped : Stamped world) (jobDir : Path) (request : DiskCall) :
    Stamped { world with stamp := world.afterDisk jobDir request } := by
  refine ⟨stamped.past, ?_⟩
  rintro stamp same
  simp only at same ⊢
  rcases after_disk_cases jobDir request with kept | gone | now
  · rw [kept] at same
    exact stamped.stamp stamp same
  · rw [gone] at same
    cases same
  · rw [now, Option.map_eq_some_iff] at same
    obtain ⟨old, was, rfl⟩ := same
    obtain ⟨changed, has, -⟩ := stamped.stamp old was
    exact ⟨changed, has, stamped.past changed has⟩

theorem watched_disk (watched : Watched host world phases) (jobDir : Path) (request : DiskCall) :
    Watched host { world with stamp := world.afterDisk jobDir request } phases := by
  refine ⟨watched.record, ?_, ⟨watched.atWork.running, watched.atWork.taken⟩,
    stamped_by_disk watched.stamped jobDir request, watched.told, ?_, watched.timely⟩
  · refine ⟨watched.underway.stored, watched.underway.created, ?_, watched.underway.submitting⟩
    intro before
    obtain ⟨unchanged, unmade⟩ := watched.underway.unmade before
    refine ⟨unchanged, ?_⟩
    rcases @after_disk_cases world jobDir request with same | same | same
    · rw [same, unmade]
    · exact same
    · rw [same, unmade]
      rfl
  · intro index old
    obtain ⟨unchanged, passed⟩ := watched.old index old
    exact ⟨unchanged, passed⟩

theorem watched_look (watched : Watched host world phases) (index : Nat) (look : Look)
    (told : look.now ≤ (world.clock : Int))
    (old : look.Old host.job.settings.jobTtl → Overdue host.job.settings.jobTtl world) :
    Watched host world (Function.update phases (.sweep index) look) := by
  have submission : Function.update phases (.sweep index) look (.job .submission) =
      phases (.job .submission) := Function.update_of_ne (by simp) _ _
  have worker : Function.update phases (.sweep index) look (.job .worker) = phases (.job .worker) :=
    Function.update_of_ne (by simp) _ _
  refine ⟨?_, ?_, ?_, watched.stamped, ?_, ?_, watched.timely⟩
  · rw [submission]
    exact watched.record
  · rw [submission]
    exact watched.underway
  · rw [worker]
    exact watched.atWork
  · intro other
    by_cases same : other = index
    · rw [same, Function.update_self]
      exact told
    · rw [Function.update_of_ne (by simpa using same)]
      exact watched.told other
  · intro other
    by_cases same : other = index
    · rw [same, Function.update_self]
      exact old
    · rw [Function.update_of_ne (by simpa using same)]
      exact watched.old other

theorem watched_sweep (watched : Watched host world phases) (index : Nat) (request : SweepCall)
    (reply : Except Raised request.Answer) (after : DirWorld)
    (admitted : (sweeping host).admits (phases (.sweep index)) request)
    (step : dirStep host.job world request reply after)
    (looks : LooksAfterExpiry host world request reply) :
    Watched host after (Function.update phases (.sweep index)
      ((phases (.sweep index)).note host.jobDir request reply)) := by
  cases request with
  | job request => cases admitted
  | stat path =>
      obtain ⟨found, rfl⟩ := step
      apply watched_look watched
      · cases reply with
        | error raised => exact watched.told index
        | ok mtime =>
            simp only [Look.note]
            split <;> exact watched.told index
      · cases reply with
        | error raised => exact watched.old index
        | ok mtime =>
            simp only [Look.note]
            split
            · rename_i same
              rintro ⟨_, ⟨⟩, older⟩
              obtain ⟨stamp, has, rfl⟩ := found same mtime rfl
              obtain ⟨changed, was, before⟩ := watched.stamped.stamp stamp has
              have told := watched.told index
              have late : (stamp : Int) + host.job.settings.jobTtl < (after.clock : Int) := by
                simp only at older
                omega
              exact ⟨⟨changed, was, by omega⟩, looks same late⟩
            · exact watched.old index
  | disk request =>
      cases request
      case time =>
          obtain ⟨told, rfl⟩ := step
          apply watched_look watched
          · cases reply with
            | error raised => exact watched.told index
            | ok now => exact le_of_eq (told now rfl)
          · cases reply with
            | error raised => exact watched.old index
            | ok now =>
                rintro ⟨mtime, ⟨⟩, -⟩
      all_goals
        have same : (phases (.sweep index)).note host.jobDir (.disk _) reply = phases (.sweep index) := rfl
        rw [same, Function.update_eq_self]
        cases reply with
        | error raised =>
            obtain rfl := step
            exact watched
        | ok value =>
            obtain rfl := step
            exact watched_disk watched _ _

theorem watched_drift (watched : Watched host world phases) {after : DirWorld}
    (drifts : dirDrift world after) (inTime : Timely host.job.settings.jobTtl after) :
    Watched host after phases := by
  obtain ⟨later, drifts, rfl⟩ := drifts
  have passes : world.job.clock ≤ later.clock := by
    cases drifts with
    | tick later passes => exact passes
    | forget past => exact le_rfl
    | exit statusCode up => exact le_rfl
  have kept : later.expirySet = world.job.expirySet ∧ later.taken = world.job.taken := by
    cases drifts <;> exact ⟨rfl, rfl⟩
  refine ⟨kept_by_drift watched.record drifts, ?_, ?_, ?_, ?_, ?_, inTime⟩
  · refine ⟨?_, watched.underway.created, watched.underway.unmade, watched.underway.submitting⟩
    simp only
    rw [kept.1]
    exact watched.underway.stored
  · refine ⟨watched.atWork.running, ?_⟩
    simp only
    rw [kept.2]
    exact watched.atWork.taken
  · exact ⟨fun changed was => (watched.stamped.past changed was).trans passes,
      watched.stamped.stamp⟩
  · intro index
    have told := watched.told index
    simp only [DirWorld.clock] at told ⊢
    omega
  · intro index old
    obtain ⟨⟨changed, was, late⟩, passed⟩ := watched.old index old
    simp only [ExpiryPassed, DirWorld.clock] at late passed
    refine ⟨⟨changed, was, ?_⟩, ?_⟩
    · simp only [DirWorld.clock]
      omega
    · intro returned returns
      have since := passed returned (kept.1 ▸ returns)
      simp only [DirWorld.clock]
      omega

theorem watch_upheld (host : SharedHost) :
    Upholds (timely host) (dirProtocol host) (Watched host) where
  act world phases party request reply after watched admitted step := by
    obtain ⟨step, finds, looks, inTime⟩ := step
    cases party with
    | job party =>
        cases request with
        | job request =>
            obtain ⟨later, stamp, job, leaves, rfl⟩ := step
            exact watched_act watched party request reply later stamp admitted job leaves finds inTime
        | disk request => cases admitted
        | stat path => cases admitted
    | sweep index =>
        exact ⟨_, rfl, watched_sweep watched index request reply after admitted step looks⟩
  drift world phases after watched drifts := watched_drift watched drifts.1 drifts.2

/-! ## Over a whole run -/

theorem job_calls_keep {State Result : Type} {machine : Machine JobCall.Answer Raised State}
    {post : State → Except Raised Result → Prop} {state : State} (program : JobProgram Result)
    (holds : Guarantees machine post state program) :
    Guarantees (onJobs machine) post state (program.expand onJobCall) := by
  induction program generalizing state with
  | done outcome => exact holds
  | call request next induction =>
      exact ⟨holds.1, fun reply after step => induction reply (holds.2 reply after step)⟩

def startDirPhases : (party : Sweeper) → DirPhase party
  | .job party => (startPhases party, .before)
  | .sweep _ => {}

/-- A party that has ended is over and done with, or has not begun. -/
def Ended : (party : Party) → Turn → Prop
  | .worker, turn => turn = .ended
  | .submission, turn => turn = .before ∨ turn = .ended
  | .cancel _, turn => turn = .before

def dirEnded : (party : Sweeper) → DirPhase party → Except Raised (SweepOutcome party) → Prop
  | .job party, phase, _ => Ended party phase.2
  | .sweep _, _, _ => True

theorem start_dir_keeps (host : SharedHost) (clock : Nat) :
    Keeps (dirProtocol host) dirEnded startDirPhases (host.start clock) := by
  intro party
  cases party with
  | sweep index => exact sweep_keeps _
  | job party =>
      have record := start_keeps host.job clock false nofun party
      have turn : Guarantees (turns party) (fun turn _ => Ended party turn) .before
          (host.job.program party) := by
        cases party with
        | submission => exact submit_turns host.job
        | worker => exact work_turns host.job
        | cancel index => exact cancel_turns index _
      apply job_calls_keep
      apply guarantees_mono _ _ _ (guarantees_both _ record turn)
      exact fun _ _ ended => ended.2

/-- A pruning worker is about to take away the job's directory or something in it. -/
def Deletes (host : SharedHost) (reached : DirConfiguration) (index : Nat) : Prop :=
  ∃ request next path, reached.rest (.sweep index) = .call (.disk request) next ∧
    removal request = some path ∧ host.jobDir <+: path

/-- The store has no record of the job, and nobody is running it or setting it up. -/
structure Dead (reached : DirConfiguration) : Prop where
  unrecorded : reached.world.job.record = none
  notRunning : reached.world.job.taken = false ∨ (reached.rest (.job .worker)).ended = true
  notSubmitting : (reached.rest (.job .submission)).ended = true

theorem overdue_unrecorded (watched : Watched host world phases)
    (overdue : Overdue host.job.settings.jobTtl world)
    (past : (phases (.job .submission)).2 = .ended) : world.job.record = none := by
  cases found : world.job.record with
  | none => rfl
  | some key =>
      have set : world.job.expirySet.isSome = true := by
        apply watched.underway.stored
        cases phase : (phases (.job .submission)).1 with
        | fresh =>
            have absent := watched.record.absent phase
            rw [found] at absent
            cases absent
        | created =>
            have storing := watched.underway.created phase
            rw [past] at storing
            cases storing
        | stored => exact .inl rfl
        | enqueued => exact .inr rfl
      obtain ⟨returned, returns⟩ := Option.isSome_iff_exists.mp set
      obtain ⟨expiry, -, bound, alive⟩ := watched.record.expiry key returned found returns
      have passed := overdue.passed returned returns
      simp only [DirWorld.clock] at passed
      omega

theorem start_watched (host : SharedHost) (clock : Nat) :
    Watched host (host.start clock).world startDirPhases := by
  refine ⟨?_, ?_, ?_, ⟨nofun, nofun⟩, fun _ => Int.natCast_nonneg clock, ?_, nofun⟩
  · constructor <;> simp [startDirPhases, startPhases, SharedHost.start]
  · exact ⟨by simp [startDirPhases, startPhases], nofun, fun _ => ⟨rfl, rfl⟩,
      by simp [SharedHost.start, startDirPhases]⟩
  · exact ⟨by simp [SharedHost.start, startDirPhases], nofun⟩
  · rintro index ⟨mtime, ⟨⟩, -⟩

theorem job_ended {reached : DirConfiguration} {party : Party}
    (keeps : Keeps (dirProtocol host) dirEnded phases reached)
    (refused : ∀ request, ¬ turnAdmits party (phases (.job party)).2 request) :
    (reached.rest (.job party)).ended = true := by
  apply ended_of_refused (keeps (.job party))
  rintro (request | request | path) admitted
  · exact refused request admitted.2
  · exact admitted
  · exact admitted

/-- In every run that is timely, what the workers prune is dead. -/
theorem pruned_job_is_dead (host : SharedHost) (clock : Nat) (reached : DirConfiguration)
    (reaches : Reaches (timely host) (host.start clock) reached) (index : Nat)
    (deletes : Deletes host reached index) : Dead reached := by
  obtain ⟨phases, watched, keeps⟩ := keeps_reaches (watch_upheld host) startDirPhases
    (start_watched host clock) (start_dir_keeps host clock) reaches
  obtain ⟨request, next, path, calls, removes, within⟩ := deletes
  have owed := keeps (.sweep index)
  rw [calls] at owed
  have overdue := watched.old index (owed.1 path removes within)
  have idle : ¬ (reached.world.submitting = true ∨ reached.world.running = true) := by
    obtain ⟨changed, was, passed⟩ := overdue.unchanged
    intro busy
    have inTime := watched.timely changed was busy
    omega
  rw [watched.underway.submitting, watched.atWork.running] at idle
  have submitted : (reached.rest (.job .submission)).ended = true ∧
      (phases (.job .submission)).2 = .ended := by
    cases turn : (phases (.job .submission)).2 with
    | before =>
        obtain ⟨changed, was, -⟩ := overdue.unchanged
        rw [(watched.underway.unmade turn).1] at was
        cases was
    | unpacking => exact absurd (.inl (.inl turn)) idle
    | storing => exact absurd (.inl (.inr turn)) idle
    | ended =>
        refine ⟨job_ended keeps ?_, rfl⟩
        rw [turn]
        exact fun _ => id
    | working =>
        have ended : (reached.rest (.job .submission)).ended = true := by
          apply job_ended keeps
          rw [turn]
          exact fun _ => id
        obtain ⟨outcome, -, post⟩ := guarantees_ended (keeps (.job .submission)) ended
        rcases post with same | same <;> rw [turn] at same <;> cases same
  refine ⟨overdue_unrecorded watched overdue submitted.2, ?_, submitted.1⟩
  cases turn : (phases (.job .worker)).2 with
  | before =>
      left
      by_contra taken
      exact watched.atWork.taken (by simpa using taken) turn
  | working => exact absurd (.inr turn) idle
  | ended | unpacking | storing =>
      right
      apply job_ended keeps
      rw [turn]
      exact fun _ => id

end Runs

/-! ## A job that is pruned in time, and one that is not -/

/-- What a call that goes through leaves of the directory. -/
def DirWorld.leaves (world : DirWorld) : JobCall → Option Nat
  | .makeWorkDir => some world.clock
  | .writeUpload | .removeUpload | .zipDir .. => world.stamp.map fun _ => world.clock
  | .removeJobDir => none
  | _ => world.stamp

/-- Every call goes through; the only directory there is is that of the job, and
a pruning worker finds it empty. -/
def obligingHost (host : SharedHost) (world : DirWorld) :
    (request : SweepCall) → Except Raised request.Answer × DirWorld
  | .job request =>
      let answered := obliging .expiring world.job request
      (answered.1, world.afterJob request answered.1 answered.2 (DirWorld.leaves world request))
  | .stat path =>
      match world.stamp with
      | some stamp => (if path = host.jobDir then .ok (stamp : Int) else refused, world)
      | none => (refused, world)
  | .disk .time => (.ok (world.clock : Int), world)
  | .disk (.scandir path) =>
      (.ok (if path = jobsDir host.job.settings then [⟨host.job.jobId, true, true, 0⟩] else []), world)
  | .disk (.rmdir path) => (.ok (), { world with stamp := world.afterDisk host.jobDir (.rmdir path) })
  | .disk _ => (refused, world)

def canTurnHost (world : DirWorld) : SweepCall → Bool
  | .job request => canTurn world.job request
  | _ => true

theorem obliging_host_step (host : SharedHost) (world : DirWorld) (request : SweepCall)
    (turn : canTurnHost world request = true) :
    dirStep host.job world request (obligingHost host world request).1
      (obligingHost host world request).2 := by
  cases request with
  | job request =>
      refine ⟨_, _, obliging_step .expiring world.job request turn, ?_, rfl⟩
      cases request
      case removeJobDir => exact .inl rfl
      all_goals rfl
  | stat path =>
      simp only [obligingHost]
      split
      · rename_i stamp has
        refine ⟨?_, rfl⟩
        rintro rfl mtime same
        have ours : host.job.settings.jobDir host.job.jobId = host.jobDir := rfl
        rw [if_pos ours, Except.ok.injEq] at same
        exact ⟨stamp, has, same.symm⟩
      · exact ⟨nofun, rfl⟩
  | disk request =>
      cases request
      case time => exact ⟨by rintro now ⟨⟩; rfl, rfl⟩
      all_goals rfl

def isTimely (ttl : Int) (world : DirWorld) : Bool :=
  world.changed.all fun changed =>
    !(world.submitting || world.running) || (world.clock : Int) ≤ changed + ttl

theorem timely_of_check {ttl : Int} {world : DirWorld} (checked : isTimely ttl world = true) :
    Timely ttl world := by
  unfold isTimely at checked
  intro changed was busy
  rw [was] at checked
  rcases busy with busy | busy <;> simp_all

def findsKey (world : DirWorld) : SweepCall → Bool
  | .job (.hset fields) => fields.createdAt.isSome || world.job.record.isSome
  | _ => true

def looksAfterExpiry (host : SharedHost) (world : DirWorld) : SweepCall → Bool
  | .stat _ => world.job.expirySet.all fun returned =>
      returned + host.job.settings.jobTtl ≤ (world.clock : Int)
  | _ => true

def timelyTurn (host : SharedHost) (world : DirWorld) (_ : Sweeper) (request : SweepCall) : Bool :=
  canTurnHost world request && findsKey world request && looksAfterExpiry host world request &&
    isTimely host.job.settings.jobTtl (obligingHost host world request).2

theorem timely_turn_step (host : SharedHost) (world : DirWorld) (party : Sweeper)
    (request : SweepCall) (turn : timelyTurn host world party request = true) :
    ((timely host).machine party).step world request (obligingHost host world request).1
      (obligingHost host world request).2 := by
  rw [timelyTurn, Bool.and_eq_true, Bool.and_eq_true, Bool.and_eq_true] at turn
  obtain ⟨⟨⟨can, finds⟩, looks⟩, inTime⟩ := turn
  refine ⟨obliging_host_step host world request can, ?_, ?_, timely_of_check inTime⟩
  · rintro fields rfl unset
    simpa [findsKey, unset] using finds
  · cases request with
    | stat path =>
        have passed : ExpiryPassed host.job.settings.jobTtl world := by
          intro returned returns
          simpa [looksAfterExpiry, returns] using looks
        unfold LooksAfterExpiry
        split
        · exact fun _ _ => passed
        · trivial
    | job request | disk request => trivial

def sharedHost : SharedHost where
  job := plainBuild
  depth := 4
  currentJobId _ := "other"

def DirConfiguration.pass (reached : DirConfiguration) (later : Nat) : DirConfiguration :=
  ⟨{ reached.world with job := { reached.world.job with
      clock := later, record := vanish later reached.world.job.record } }, reached.rest⟩

def unpackedRun : DirConfiguration :=
  play (obligingHost sharedHost) (timelyTurn sharedHost) (List.replicate 4 (.job .submission))
    (sharedHost.start 0)

/-- The record is written a second after the last change to the directory. -/
def finishedRun : DirConfiguration :=
  play (obligingHost sharedHost) (timelyTurn sharedHost)
    (List.replicate 4 (.job .submission) ++ List.replicate 30 (.job .worker))
    (DirConfiguration.pass unpackedRun 1)

/-- The job has ended, its record expires, and another worker prunes. -/
def prunedInTime : DirConfiguration :=
  play (obligingHost sharedHost) (timelyTurn sharedHost) (List.replicate 4 (.sweep 0))
    (DirConfiguration.pass finishedRun 90000)

def deletesNow (host : SharedHost) (reached : DirConfiguration) : Bool :=
  match reached.rest (.sweep 0) with
  | .call (.disk (.rmdir path)) _ => path = host.jobDir
  | _ => false

theorem deletes_of_check {host : SharedHost} {reached : DirConfiguration}
    (checked : deletesNow host reached = true) : Deletes host reached 0 := by
  unfold deletesNow at checked
  split at checked
  · rename_i path next waiting
    exact ⟨.rmdir path, next, path, waiting, rfl, by rw [of_decide_eq_true checked]⟩
  · cases checked

theorem pruned_in_time_is_dead : Dead prunedInTime := by
  have unpacks : Reaches (timely sharedHost) (sharedHost.start 0) unpackedRun :=
    play_reaches _ _ _ (timely_turn_step sharedHost) _ _
  have passes : Move (timely sharedHost) unpackedRun (DirConfiguration.pass unpackedRun 1) := by
    have later : unpackedRun.world.job.clock ≤ 1 := by decide +kernel
    have inTime : isTimely 86400 (DirConfiguration.pass unpackedRun 1).world = true := by
      decide +kernel
    exact .drift _ _ ⟨⟨_, .tick _ 1 later, rfl⟩, timely_of_check inTime⟩
  have runs : Reaches (timely sharedHost) (DirConfiguration.pass unpackedRun 1) finishedRun :=
    play_reaches _ _ _ (timely_turn_step sharedHost) _ _
  have expires : Move (timely sharedHost) finishedRun (DirConfiguration.pass finishedRun 90000) := by
    have later : finishedRun.world.job.clock ≤ 90000 := by decide +kernel
    have inTime : isTimely 86400 (DirConfiguration.pass finishedRun 90000).world = true := by
      decide +kernel
    exact .drift _ _ ⟨⟨_, .tick _ 90000 later, rfl⟩, timely_of_check inTime⟩
  have prunes : Reaches (timely sharedHost) (DirConfiguration.pass finishedRun 90000) prunedInTime :=
    play_reaches _ _ _ (timely_turn_step sharedHost) _ _
  have checked : deletesNow sharedHost prunedInTime = true := by decide +kernel
  exact pruned_job_is_dead sharedHost 0 prunedInTime
    (((unpacks.tail passes).trans (runs.tail expires)).trans prunes) 0
    (deletes_of_check checked)

def anyTurn (world : DirWorld) (_ : Sweeper)
    (request : SweepCall) : Bool := canTurnHost world request

/-- The job waits on its queue until its record has expired; then a worker runs it. -/
def lateRun : DirConfiguration :=
  play (obligingHost sharedHost) anyTurn (List.replicate 4 (.job .worker))
    (DirConfiguration.pass
      (play (obligingHost sharedHost) anyTurn (List.replicate 8 (.job .submission))
        (sharedHost.start 0)) 90000)

/-- Meanwhile another worker prunes. -/
def prunedLate : DirConfiguration :=
  play (obligingHost sharedHost) anyTurn (List.replicate 4 (.sweep 0)) lateRun

/-- Its directory is deleted under the run, with the job on record as running. -/
theorem running_job_is_pruned :
    ¬ ∀ (host : SharedHost) (clock : Nat) (reached : DirConfiguration),
      Reaches host.surroundings (host.start clock) reached →
      ∀ index, Deletes host reached index → Dead reached := by
  intro always
  have possible : ∀ world (party : Sweeper) request, anyTurn world party request = true →
      (sharedHost.surroundings.machine party).step world request
        (obligingHost sharedHost world request).1 (obligingHost sharedHost world request).2 :=
    fun world _ request turn => obliging_host_step sharedHost world request turn
  let submitted := play (obligingHost sharedHost) anyTurn (List.replicate 8 (.job .submission))
    (sharedHost.start 0)
  have submits : Reaches sharedHost.surroundings (sharedHost.start 0) submitted :=
    play_reaches _ _ _ possible _ _
  have expires : Move sharedHost.surroundings submitted (DirConfiguration.pass submitted 90000) := by
    have passes : submitted.world.job.clock ≤ 90000 := by decide +kernel
    exact .drift _ _ ⟨_, .tick _ 90000 passes, rfl⟩
  have runs : Reaches sharedHost.surroundings (DirConfiguration.pass submitted 90000) lateRun :=
    play_reaches _ _ _ possible _ _
  have prunes : Reaches sharedHost.surroundings lateRun prunedLate :=
    play_reaches _ _ _ possible _ _
  have checked : deletesNow sharedHost prunedLate = true := by decide +kernel
  have dead := always sharedHost 0 prunedLate (((submits.tail expires).trans runs).trans prunes) 0
    (deletes_of_check checked)
  have recorded : prunedLate.world.job.record ≠ none := by decide +kernel
  exact recorded dead.unrecorded

end PretextBuildServer.PrunedJobs
