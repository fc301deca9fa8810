import PretextBuildServer.LifeCycle

/-!
# The expiry of a job's record

Keys vanish at their expiry here. As long as every update finds the key still
there, the record carries the expiry `create` has set and the fields `create`
has written. An update of a vanished key makes a new one, without either.
-/

namespace PretextBuildServer.RecordExpiry

open EffectProgram EffectProgram.Program InterleavedParties
open PretextBuildServer.ServerSettings PretextBuildServer.JobRecord PretextBuildServer.JobCalls
open PretextBuildServer.JobSystem PretextBuildServer.WorkerProtocol
open PretextBuildServer.RequestProtocols PretextBuildServer.LifeCycle

set_option autoImplicit false

variable {lifetime : Lifetime} {world after : JobWorld}

/-! ## Whatever the lifetime, a step of the world is one of the protocols -/

theorem submission_plays {kind : Kind} {ttl : Int} {phase : SubmissionPhase} (request : JobCall)
    (reply : JobReply request) (admitted : submissionAdmits kind ttl phase request)
    (step : jobStep lifetime world request reply after) :
    ∃ later, submissionStep phase request reply later := by
  cases request
  case hset fields => exact ⟨.created, step.1, rfl⟩
  case expire seconds => exact ⟨.stored, step.1, rfl⟩
  case enqueue queue => exact ⟨.enqueued, step.1, rfl⟩
  all_goals exact ⟨phase, rfl⟩

theorem worker_plays {host : Bool} {phase : WorkerPhase} (request : JobCall)
    (reply : JobReply request) (admitted : workerAdmits host false phase request)
    (step : jobStep lifetime world request reply after) :
    ∃ later, workerStep false phase request reply later := by
  cases request
  case hgetall reader => exact ⟨_, _, step.1, rfl⟩
  case hset fields => exact ⟨_, step.1, rfl⟩
  case takeFromQueue => exact ⟨_, step.2.1, rfl⟩
  case time => exact ⟨phase, ⟨_, step.1⟩, rfl⟩
  case finishJob =>
      obtain ⟨rfl, -⟩ := step
      exact ⟨phase, ⟨nofun, nofun⟩, rfl⟩
  case expire | enqueue | fetchJob | cancelJob => cases admitted
  all_goals exact ⟨phase, ⟨step.1, nofun⟩, rfl⟩

theorem cancel_plays {phase : CancelPhase} (request : JobCall) (reply : JobReply request)
    (admitted : cancelAdmits phase request) (step : jobStep lifetime world request reply after) :
    ∃ later, cancelStep phase request reply later := by
  cases request
  case hgetall reader => exact ⟨_, _, step.1, rfl⟩
  case hset fields => exact ⟨_, step.1, rfl⟩
  case fetchJob =>
      obtain ⟨answer, -⟩ := step
      split at answer
      · exact ⟨_, .inr ⟨answer, rfl⟩⟩
      · exact ⟨_, .inl ⟨answer, rfl⟩⟩
  case cancelJob =>
      simp only [jobStep] at step
      split at step
      · exact ⟨_, .inr ⟨step.1, rfl⟩⟩
      · exact ⟨_, .inl ⟨step.1, rfl⟩⟩
  case time => exact ⟨phase, ⟨_, step.1⟩, rfl⟩
  all_goals cases admitted

/-! ## What the record keeps -/

/-- An update other than the one of `create` finds the key still there. -/
def LandsOnKey (world : JobWorld) (_ : Party) (request : JobCall) (_ : JobReply request) : Prop :=
  ∀ fields, request = .hset fields → fields.createdAt = none → world.record.isSome = true

/-- The fields of a key that `create` has written. -/
def FieldsKept (world : JobWorld) (key : Key) : Prop :=
  ∃ wrote, world.created = some wrote ∧ key.fields.kind = wrote.kind ∧
    key.fields.target = wrote.target ∧ key.fields.createdAt = wrote.createdAt

/-- The expiry of a key, counted from the time `create` has set it. -/
def ExpiryKept (ttl : Int) (world : JobWorld) (returned : Nat) (key : Key) : Prop :=
  ∃ expiry, key.expiry = some expiry ∧ expiry ≤ returned + ttl ∧ (world.clock : Int) < expiry

structure RecordKept (job : Job) (world : JobWorld) (phase : SubmissionPhase) : Prop where
  absent : phase = .fresh → world.record = none
  unset : phase = .fresh ∨ phase = .created → world.expirySet = none
  wrote : ∀ fields, world.created = some fields → fields.kind = some job.request.kind
  fields : ∀ key, world.record = some key → FieldsKept world key
  expiry : ∀ key returned, world.record = some key → world.expirySet = some returned →
    ExpiryKept job.settings.jobTtl world returned key

variable {job : Job} {phase : SubmissionPhase}

theorem kept_by_update (kept : RecordKept job world phase) (fields : Fields)
    (present : world.record.isSome = true) (noKind : fields.kind = none)
    (noTarget : fields.target = none) (noTime : fields.createdAt = none) :
    RecordKept job (world.write fields) phase := by
  obtain ⟨key, found⟩ := Option.isSome_iff_exists.mp present
  have written : (world.write fields).record =
      some { key with fields := key.fields.override fields } := by
    simp [JobWorld.write, found]
  have created : (world.write fields).created = world.created := by
    simp [JobWorld.write, noTime]
  refine ⟨fun fresh => ?_, kept.unset, ?_, ?_, ?_⟩
  · rw [kept.absent fresh] at found
    cases found
  · rw [created]
    exact kept.wrote
  · intro later same
    rw [written] at same
    cases same
    obtain ⟨wrote, byCreate, kind, target, time⟩ := kept.fields key found
    exact ⟨wrote, created.trans byCreate, by simp [noKind, kind], by simp [noTarget, target],
      by simp [noTime, time]⟩
  · intro later returned same set
    rw [written] at same
    cases same
    exact kept.expiry key returned found set

/-- Neither a write nor the setting of the expiry. -/
def sparesRecord : JobCall → Bool
  | .hset _ | .expire _ => false
  | _ => true

theorem kept_unchanged (kept : RecordKept job world phase) (request : JobCall)
    (reply : JobReply request) (step : jobStep .expiring world request reply after)
    (spares : sparesRecord request = true) : RecordKept job after phase := by
  have same : after.record = world.record ∧ after.created = world.created ∧
      after.expirySet = world.expirySet ∧ after.clock = world.clock := by
    cases request
    case hset fields => cases spares
    case expire seconds => cases spares
    case hgetall reader =>
        obtain ⟨-, rfl⟩ := step
        cases reader <;> exact ⟨rfl, rfl, rfl, rfl⟩
    case takeFromQueue =>
        obtain ⟨-, -, rfl⟩ := step
        exact ⟨rfl, rfl, rfl, rfl⟩
    case cancelJob =>
        simp only [jobStep] at step
        split at step
        · obtain ⟨-, rfl⟩ := step
          exact ⟨rfl, rfl, rfl, rfl⟩
        · obtain ⟨-, rfl⟩ := step
          exact ⟨rfl, rfl, rfl, rfl⟩
    all_goals
      obtain ⟨-, rfl⟩ := step
      first
        | exact ⟨rfl, rfl, rfl, rfl⟩
        | cases reply <;> exact ⟨rfl, rfl, rfl, rfl⟩
  obtain ⟨record, created, set, clock⟩ := same
  refine ⟨?_, ?_, ?_, ?_, ?_⟩
  · rw [record]
    exact kept.absent
  · rw [set]
    exact kept.unset
  · rw [created]
    exact kept.wrote
  · intro key
    rw [record]
    unfold FieldsKept
    rw [created]
    exact kept.fields key
  · intro key returned
    rw [record, set]
    unfold ExpiryKept
    rw [clock]
    exact kept.expiry key returned

theorem kept_by_create (kept : RecordKept job world phase) (fields : Fields)
    (fresh : phase = .fresh) (creates : Creates job.request.kind fields) :
    RecordKept job (world.write fields) .created := by
  have written : (world.write fields).record = some { fields } := by
    simp [JobWorld.write, kept.absent fresh]
  have created : (world.write fields).created = some fields := by
    simp [JobWorld.write, creates.createdAt]
  have unset : (world.write fields).expirySet = none := kept.unset (.inl fresh)
  refine ⟨nofun, fun _ => unset, ?_, ?_, ?_⟩
  · intro wrote same
    rw [created] at same
    cases same
    exact creates.kind
  · intro key same
    rw [written] at same
    cases same
    exact ⟨fields, created, rfl, rfl, rfl⟩
  · intro key returned _ set
    rw [unset] at set
    cases set

theorem kept_by_expire (kept : RecordKept job world phase) :
    RecordKept job (world.setExpiry .expiring job.settings.jobTtl) .stored := by
  refine ⟨nofun, by simp, kept.wrote, ?_, ?_⟩
  · intro key same
    unfold JobWorld.setExpiry Lifetime.survive vanish expire at same
    simp only [Option.filter_eq_some_iff, Option.map_eq_some_iff] at same
    obtain ⟨⟨old, found, rfl⟩, -⟩ := same
    exact kept.fields old found
  · rintro key _ same ⟨⟩
    unfold JobWorld.setExpiry Lifetime.survive vanish expire at same
    simp only [Option.filter_eq_some_iff, Option.map_eq_some_iff] at same
    obtain ⟨⟨old, found, rfl⟩, alive⟩ := same
    exact ⟨_, rfl, le_rfl, by simpa [JobWorld.setExpiry] using alive⟩

theorem kept_by_drift (kept : RecordKept job world phase)
    (drifts : JobDrift .expiring world after) :
    RecordKept job after phase := by
  cases drifts with
  | tick later passes =>
      have survives : ∀ key, vanish later world.record = some key →
          world.record = some key ∧ ∀ expiry, key.expiry = some expiry → (later : Int) < expiry := by
        intro key same
        unfold vanish at same
        obtain ⟨found, alive⟩ := Option.filter_eq_some_iff.mp same
        refine ⟨found, fun expiry set => ?_⟩
        simpa [set] using alive
      refine ⟨fun fresh => ?_, kept.unset, kept.wrote, ?_, ?_⟩
      · simp [Lifetime.survive, vanish, kept.absent fresh]
      · intro key same
        exact kept.fields key (survives key same).1
      · intro key returned same set
        obtain ⟨found, alive⟩ := survives key same
        obtain ⟨expiry, carries, bound, -⟩ := kept.expiry key returned found set
        exact ⟨expiry, carries, bound, alive expiry carries⟩
  | forget past => exact ⟨kept.absent, kept.unset, kept.wrote, kept.fields, kept.expiry⟩
  | exit statusCode up => exact ⟨kept.absent, kept.unset, kept.wrote, kept.fields, kept.expiry⟩

theorem submission_keeps (request : JobCall) (reply : JobReply request) (later : SubmissionPhase)
    (kept : RecordKept job world phase)
    (admitted : submissionAdmits job.request.kind job.settings.jobTtl phase request)
    (follows : submissionStep phase request reply later)
    (step : jobStep .expiring world request reply after) : RecordKept job after later := by
  cases request
  case hset fields =>
      obtain ⟨-, rfl⟩ := step
      obtain ⟨-, rfl⟩ := follows
      exact kept_by_create kept fields admitted.1 admitted.2
  case expire seconds =>
      obtain ⟨-, rfl⟩ := step
      obtain ⟨-, rfl⟩ := follows
      obtain ⟨-, rfl⟩ := admitted
      exact kept_by_expire kept
  case enqueue queue =>
      obtain ⟨-, rfl⟩ := follows
      have same := kept_unchanged kept (.enqueue queue) reply step rfl
      exact ⟨nofun, by simp, same.wrote, same.fields, same.expiry⟩
  all_goals
    obtain rfl := follows
    exact kept_unchanged kept _ reply step rfl

theorem kept_by_others (kept : RecordKept job world phase) (request : JobCall)
    (reply : JobReply request) (step : jobStep .expiring world request reply after)
    (writes : ∀ fields, request = .hset fields → world.record.isSome = true ∧
      fields.kind = none ∧ fields.target = none ∧ fields.createdAt = none)
    (unexpired : ∀ seconds, request ≠ .expire seconds) : RecordKept job after phase := by
  by_cases spares : sparesRecord request = true
  · exact kept_unchanged kept request reply step spares
  · cases request
    case hset fields =>
        obtain ⟨-, rfl⟩ := step
        obtain ⟨present, noKind, noTarget, noTime⟩ := writes fields rfl
        exact kept_by_update kept fields present noKind noTarget noTime
    case expire seconds => exact absurd rfl (unexpired seconds)
    all_goals exact absurd rfl spares

theorem worker_keeps {host : Bool} {workerPhase : WorkerPhase} (request : JobCall)
    (reply : JobReply request) (kept : RecordKept job world phase)
    (admitted : workerAdmits host false workerPhase request)
    (lands : LandsOnKey world .worker request reply)
    (step : jobStep .expiring world request reply after) : RecordKept job after phase := by
  apply kept_by_others kept request reply step
  · rintro fields rfl
    have others : LeavesOthers fields := admitted.1
    exact ⟨lands fields rfl others.createdAt, others.kind, others.target, others.createdAt⟩
  · rintro seconds rfl
    cases admitted

theorem cancel_keeps {cancelPhase : CancelPhase} (index : Nat) (request : JobCall)
    (reply : JobReply request) (kept : RecordKept job world phase)
    (admitted : cancelAdmits cancelPhase request)
    (lands : LandsOnKey world (.cancel index) request reply)
    (step : jobStep .expiring world request reply after) : RecordKept job after phase := by
  apply kept_by_others kept request reply step
  · rintro fields rfl
    have others : fields.kind = none ∧ fields.target = none ∧ fields.createdAt = none := by
      unfold cancelAdmits at admitted
      dsimp only at admitted
      split at admitted
      · obtain ⟨-, rfl⟩ := admitted
        exact ⟨rfl, rfl, rfl⟩
      · obtain ⟨clock, rfl⟩ := admitted
        exact ⟨rfl, rfl, rfl⟩
      · cases admitted
    exact ⟨lands fields rfl others.2.2, others⟩
  · rintro seconds rfl
    cases admitted

theorem record_upheld (job : Job) :
    Upholds ((jobSurroundings .expiring).restrict LandsOnKey) (jobProtocol job false)
      (fun world phases => RecordKept job world (phases .submission)) where
  act world phases party request reply after kept admitted step := by
    obtain ⟨step, lands⟩ := step
    cases party with
    | submission =>
        obtain ⟨later, follows⟩ := submission_plays request reply admitted step
        refine ⟨later, follows, ?_⟩
        rw [Function.update_self]
        exact submission_keeps request reply later kept admitted follows step
    | worker =>
        obtain ⟨later, follows⟩ := worker_plays request reply admitted step
        refine ⟨later, follows, ?_⟩
        rw [Function.update_of_ne (by simp)]
        exact worker_keeps request reply kept admitted lands step
    | cancel index =>
        obtain ⟨later, follows⟩ := cancel_plays request reply admitted step
        refine ⟨later, follows, ?_⟩
        rw [Function.update_of_ne (by simp)]
        exact cancel_keeps index request reply kept admitted lands step
  drift world phases after kept drifts := kept_by_drift kept drifts

/-- Once `create` has returned, a key that is there expires within the job's
lifetime counted from then, and holds the kind, target and time `create` wrote:
no other record is served, and only under the endpoint it was created at. -/
def RecordIntact (job : Job) (world : JobWorld) : Prop :=
  ∀ key returned, world.record = some key → world.expirySet = some returned →
    (∃ expiry, key.expiry = some expiry ∧ expiry ≤ returned + job.settings.jobTtl) ∧
      (world.clock : Int) < returned + job.settings.jobTtl ∧
      FieldsKept world key ∧ key.fields.kind = some job.request.kind

/-- In every run in which each update finds the key still there. -/
theorem record_stays_intact (job : Job) (clock : Nat) (reached : JobConfiguration)
    (reaches : Reaches ((jobSurroundings .expiring).restrict LandsOnKey) (job.start clock)
      reached) : RecordIntact job reached.world := by
  have start : RecordKept job { clock } .fresh := by
    constructor <;> simp
  obtain ⟨phases, kept, -⟩ := keeps_reaches (record_upheld job) startPhases start
    (start_keeps job clock false nofun) reaches
  intro key returned found set
  obtain ⟨expiry, carries, bound, alive⟩ := kept.expiry key returned found set
  have fields := kept.fields key found
  obtain ⟨wrote, byCreate, kind, -⟩ := kept.fields key found
  exact ⟨⟨expiry, carries, bound⟩, by omega, fields, kind.trans (kept.wrote wrote byCreate)⟩

def landingTurn (world : JobWorld) (_ : Party) (request : JobCall) : Bool :=
  canTurn world request && match request with
    | .hset fields => fields.createdAt.isSome || world.record.isSome
    | _ => true

theorem landing_turn_possible (world : JobWorld) (party : Party) (request : JobCall)
    (turn : landingTurn world party request = true) :
    (((jobSurroundings .expiring).restrict LandsOnKey).machine party).step world request
      (obliging .expiring world request).1 (obliging .expiring world request).2 := by
  unfold landingTurn at turn
  rw [Bool.and_eq_true] at turn
  refine ⟨obliging_step _ world request turn.1, ?_⟩
  rintro fields rfl noTime
  simpa [noTime] using turn.2

/-- A job that is run to its end before its record expires. -/
theorem prompt_run_stays_intact :
    RecordIntact plainBuild (play (obliging .expiring) landingTurn
      (List.replicate 8 .submission ++ List.replicate 30 .worker) (plainBuild.start 0)).world :=
  record_stays_intact plainBuild 0 _ (play_reaches _ _ _ landing_turn_possible _ _)

/-- The record expires while the job waits on its queue. The worker's write of
`running` makes a new key that never expires and carries no kind. -/
theorem late_run_revives_record :
    ¬ ∀ (job : Job) (clock : Nat) (reached : JobConfiguration),
      Reaches (jobSurroundings .expiring) (job.start clock) reached →
      RecordIntact job reached.world := by
  intro always
  have possible : ∀ world (_ : Party) request, canTurn world request = true →
      jobStep .expiring world request (obliging .expiring world request).1
        (obliging .expiring world request).2 := fun world _ => obliging_step _ world
  let submitted := play (obliging .expiring) (fun world _ => canTurn world)
    (List.replicate 8 .submission) (plainBuild.start 0)
  let expired : JobConfiguration :=
    { submitted with world := { submitted.world with
        clock := 86400, record := vanish 86400 submitted.world.record } }
  let revived := play (obliging .expiring) (fun world _ => canTurn world)
    (List.replicate 4 .worker) expired
  have submits : Reaches (jobSurroundings .expiring) (plainBuild.start 0) submitted :=
    play_reaches _ _ _ possible _ _
  have expires : Move (jobSurroundings .expiring) submitted expired :=
    .drift submitted _ (.tick _ 86400 (by decide +kernel))
  have revives : Reaches (jobSurroundings .expiring) expired revived :=
    play_reaches _ _ _ possible _ _
  have intact := always plainBuild 0 revived ((submits.tail expires).trans revives)
  have found : revived.world.record =
      some { fields := { status := some .running, startedAt := some 86400 } } := by decide +kernel
  have set : revived.world.expirySet = some 0 := by decide +kernel
  obtain ⟨⟨expiry, carries, -⟩, -⟩ := intact _ 0 found set
  cases carries

end PretextBuildServer.RecordExpiry
