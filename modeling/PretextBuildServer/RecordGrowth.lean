import PretextBuildServer.RecordTimes

/-!
# What a record has told it goes on telling

A job's record is written to by the submission, the worker and any number of
cancel requests. What the submission has written nobody touches again; what the
worker finds out about the run it writes once; and a cancel request only adds to
the record. So of two reads the later one tells everything the earlier has told,
but for the status, which has a life of its own.
-/

namespace PretextBuildServer.RecordGrowth

open EffectProgram EffectProgram.Program InterleavedParties
open PretextBuildServer.ServerSettings PretextBuildServer.JobRecord PretextBuildServer.JobCalls
open PretextBuildServer.StoreCalls PretextBuildServer.CallbackUrl
open PretextBuildServer.CompletionCallback PretextBuildServer.BuildWorker
open PretextBuildServer.ApiEndpoints PretextBuildServer.JobSystem PretextBuildServer.RunCalls
open PretextBuildServer.WorkerProtocol PretextBuildServer.RequestProtocols
open PretextBuildServer.LifeCycle PretextBuildServer.LifeCycleRefinement
open PretextBuildServer.SoundLives PretextBuildServer.RunJournal
open PretextBuildServer.ReportedContents PretextBuildServer.RecordTimes

set_option autoImplicit false

/-- What is there stays as it is. -/
def Lasts {Value : Type} (shown later : Option Value) : Prop :=
  ∀ value, shown = some value → later = some value

section Lasting

variable {Value : Type}

theorem lasts_refl (shown : Option Value) : Lasts shown shown := fun _ same => same

theorem lasts_trans {shown later last : Option Value} (first : Lasts shown later)
    (second : Lasts later last) : Lasts shown last :=
  fun value same => second value (first value same)

theorem unwritten {shown written : Option Value} (none : written = none) :
    (written <|> shown) = shown := by
  rw [none]
  rfl

theorem lasts_written {shown written : Option Value} (new : written = none ∨ shown = none) :
    Lasts shown (written <|> shown) := by
  rintro value rfl
  rcases new with rfl | impossible
  · rfl
  · cases impossible

end Lasting

/-- A later record, held against an earlier one. -/
structure Extends (shown later : Fields) : Prop where
  kind : later.kind = shown.kind
  target : later.target = shown.target
  assets : later.assets = shown.assets
  projectId : later.projectId = shown.projectId
  callbackUrl : later.callbackUrl = shown.callbackUrl
  createdAt : later.createdAt = shown.createdAt
  startedAt : Lasts shown.startedAt later.startedAt
  cancelled : shown.cancelled = true → later.cancelled = true
  log : Lasts shown.log later.log
  exitCode : Lasts shown.exitCode later.exitCode
  files : Lasts shown.files later.files
  cachedFiles : Lasts shown.cachedFiles later.cachedFiles
  finished : shown.finishedAt.isSome = true → later.finishedAt.isSome = true
  begun : shown.status ≠ some .queued → later.status ≠ some .queued

theorem extends_refl (shown : Fields) : Extends shown shown :=
  ⟨rfl, rfl, rfl, rfl, rfl, rfl, lasts_refl _, id, lasts_refl _, lasts_refl _, lasts_refl _,
    lasts_refl _, id, id⟩

theorem extends_trans {shown later last : Fields} (first : Extends shown later)
    (second : Extends later last) : Extends shown last where
  kind := second.kind.trans first.kind
  target := second.target.trans first.target
  assets := second.assets.trans first.assets
  projectId := second.projectId.trans first.projectId
  callbackUrl := second.callbackUrl.trans first.callbackUrl
  createdAt := second.createdAt.trans first.createdAt
  startedAt := lasts_trans first.startedAt second.startedAt
  cancelled shows := second.cancelled (first.cancelled shows)
  log := lasts_trans first.log second.log
  exitCode := lasts_trans first.exitCode second.exitCode
  files := lasts_trans first.files second.files
  cachedFiles := lasts_trans first.cachedFiles second.cachedFiles
  finished shows := second.finished (first.finished shows)
  begun shows := second.begun (first.begun shows)

/-! ## What each party writes -/

/-- What only a run of the container, or the lack of one, can tell. -/
structure Bare (fields : Fields) : Prop where
  log : fields.log = none
  exitCode : fields.exitCode = none
  files : fields.files = none
  cachedFiles : fields.cachedFiles = none

/-- How the callback has gone, that the run starts, or how it has ended. -/
def WorkerWrites (fields : Fields) : Prop :=
  match fields.status with
  | none => NotesCallback fields
  | some .running => fields = { status := fields.status, startedAt := fields.startedAt }
  | some _ =>
      fields = {
        status := fields.status
        finishedAt := fields.finishedAt
        log := fields.log
        exitCode := fields.exitCode
        files := fields.files
        cachedFiles := fields.cachedFiles }

/-- The write of a submission tells nothing of a run. -/
structure SubmissionWrites (fields : Fields) : Prop where
  bare : Bare fields
  startedAt : fields.startedAt = none

/-- The calls a party may make, whatever it is answered. -/
def writesAs (written : Fields → Prop) : JobCall → Prop
  | .hset fields => written fields
  | _ => True

def writesOf : Party → JobCall → Prop
  | .submission => writesAs SubmissionWrites
  | .worker => writesAs WorkerWrites
  | .cancel _ => fun _ => True

section Programs

variable {written : Fields → Prop}

theorem writes_settled (fields : Nat → Fields) (each : ∀ clock, written (fields clock)) :
    MakesOnly (writesAs written) (now >>= fun clock => storeUpdate (fields clock)) := by
  refine ⟨trivial, fun reply => ?_⟩
  cases reply with
  | error raised => trivial
  | ok clock => exact ⟨each clock, fun _ => trivial⟩

/-- A program that never writes. -/
def writeless : JobCall → Bool
  | .hset _ => false
  | _ => true

theorem writes_of_writeless {Result : Type} {allowed : JobCall → Prop}
    (program : JobProgram Result) (only : MakesOnly allowed program)
    (implied : ∀ request, allowed request → writeless request = true) :
    MakesOnly (writesAs written) program := by
  refine makes_only_mono program (fun request holds => ?_) only
  have quiet := implied request holds
  cases request
  case hset fields => cases quiet
  all_goals trivial

theorem stop_writes (status : Status) (note : String)
    (ends : status = .cancelled ∨ status = .failed) :
    MakesOnly (writesAs WorkerWrites) (stopContainer status note) := by
  refine ⟨trivial, fun killed => ?_⟩
  cases killed with
  | error raised => trivial
  | ok _ =>
      refine ⟨trivial, fun logged => ?_⟩
      cases logged with
      | error raised => trivial
      | ok logs =>
          refine writes_settled _ fun clock => ?_
          rcases ends with rfl | rfl <;> rfl

theorem image_missing_writes (settings : Settings) (raised : Raised) :
    MakesOnly (writesAs WorkerWrites) (imageMissing settings raised) := by
  unfold imageMissing
  split
  · refine ⟨trivial, fun reply => ?_⟩
    cases reply with
    | error raised => trivial
    | ok clock =>
        refine ⟨rfl, fun reply => ?_⟩
        cases reply <;> trivial
  · trivial

theorem await_writes (settings : Settings) (kind : Kind) (sandbox : Sandbox) :
    MakesOnly (writesAs WorkerWrites) (awaitContainer settings kind sandbox) := by
  have stopped : ∀ (status : Status) (note : String), status = .cancelled ∨ status = .failed →
      MakesOnly (writesAs WorkerWrites)
        (do stopContainer status note; return none : JobProgram (Option (String × Int))) := by
    intro status note ends
    apply makes_only_and_then _ _ (stop_writes status note ends)
    rintro (raised | _) <;> trivial
  apply makes_only_and_then _ _
    (writes_of_writeless _ (wait_polls settings sandbox.timeout) fun request asks => ?_)
  · rintro (raised | statusCode)
    · dsimp only
      split
      · exact stopped _ _ (.inl rfl)
      split
      · exact stopped _ _ (.inr rfl)
      · trivial
    · refine ⟨trivial, fun logged => ?_⟩
      cases logged <;> trivial
  · cases request <;> first | rfl | cases asks

theorem supervise_writes (settings : Settings) (kind : Kind) (sandbox : Sandbox)
    (kwargs : RunKwargs) :
    MakesOnly (writesAs WorkerWrites) (superviseContainer settings kind sandbox kwargs) := by
  refine ⟨trivial, fun started => ?_⟩
  cases started with
  | error raised => exact image_missing_writes settings raised
  | ok _ =>
      apply makes_only_and_then _ _
        (makes_only_and_then _ _ (await_writes settings kind sandbox) ?_)
      · intro outcome
        refine ⟨trivial, fun removed => ?_⟩
        cases removed with
        | ok _ => trivial
        | error raised =>
            simp only [done_and_then, on_failure_error]
            split <;> trivial
      · rintro (raised | ended)
        · exact image_missing_writes settings raised
        · trivial

theorem zip_adds (outputDir zipPath : Path) (sandbox : Sandbox) (listFiles hasOutput : Bool)
    {Result : Type} (next : Fields → JobProgram Result)
    (rest : ∀ extra : Fields, extra = { files := extra.files } →
      MakesOnly (writesAs WorkerWrites) (next extra)) :
    MakesOnly (writesAs WorkerWrites)
      (zipOutput outputDir zipPath sandbox listFiles hasOutput >>= next) := by
  unfold zipOutput
  split
  · refine ⟨trivial, fun zipped => ?_⟩
    cases zipped with
    | error raised => trivial
    | ok names => exact rest _ rfl
  · exact rest _ rfl

theorem harvest_adds (kind : Kind) (projectId : Option String) (workDir : Path) (exitCode : Int)
    {extra : Fields} (only : extra = { files := extra.files }) {Result : Type}
    (next : Fields → JobProgram Result)
    (rest : ∀ extra : Fields, extra = { files := extra.files, cachedFiles := extra.cachedFiles } →
      MakesOnly (writesAs WorkerWrites) (next extra)) :
    MakesOnly (writesAs WorkerWrites)
      (harvestGenerated kind projectId workDir exitCode extra >>= next) := by
  have plain : extra = { files := extra.files, cachedFiles := extra.cachedFiles } := by
    rw [only]
  unfold harvestGenerated
  split
  · split
    · refine ⟨trivial, fun harvested => ?_⟩
      cases harvested with
      | error raised => exact rest _ plain
      | ok cached => exact rest _ (by rw [only])
    · exact rest _ plain
  · exact rest _ plain

theorem ended_writes (kind : Kind) (subdir : String) (hasOutput : Bool) (logs : String)
    (exitCode : Int) {extra : Fields}
    (only : extra = { files := extra.files, cachedFiles := extra.cachedFiles }) (finished : Nat) :
    WorkerWrites (endedFields kind subdir hasOutput logs exitCode extra finished) := by
  rw [only]
  unfold endedFields
  split
  · exact rfl
  split <;> exact rfl

theorem package_writes (settings : Settings) (jobId : String) (kind : Kind) (sandbox : Sandbox)
    (listFiles : Bool) (projectId : Option String) (logs : String) (exitCode : Int) :
    MakesOnly (writesAs WorkerWrites)
      (packageOutput settings jobId kind sandbox listFiles projectId logs exitCode) := by
  apply makes_only_and_then _ _ (writes_of_writeless _ (present_makes _) fun request looks => ?_)
  · rintro (raised | hasOutput)
    · trivial
    refine zip_adds _ _ _ _ _ _ fun zipped only => ?_
    refine harvest_adds _ _ _ _ only _ fun extra only => ?_
    exact writes_settled _ fun finished => ended_writes _ _ _ _ _ only finished
  · cases request <;> first | rfl | cases looks

theorem sandboxed_writes (settings : Settings) (jobId : String) (kind : Kind) (command : String)
    (sandbox : Sandbox) (listFiles : Bool) :
    MakesOnly (writesAs WorkerWrites)
      (runSandboxed settings jobId kind command sandbox listFiles) := by
  have starts : MakesOnly (writesAs WorkerWrites) (now >>= fun started =>
      storeUpdate { status := some .running, startedAt := some started }) :=
    writes_settled _ fun _ => rfl
  unfold runSandboxed
  split
  · exact writes_settled _ fun _ => rfl
  · refine ⟨trivial, fun read => ?_⟩
    cases read with
    | error raised => trivial
    | ok record =>
        simp only [done_and_then, on_value_ok]
        split
        · exact writes_settled _ fun _ => rfl
        · rw [← bind_assoc]
          apply makes_only_and_then _ _ starts
          rintro (raised | _)
          · trivial
          refine ⟨trivial, fun opened => ?_⟩
          cases opened with
          | error raised => trivial
          | ok _ =>
              apply makes_only_and_then _ _
                (writes_of_writeless _ (volumes_make ..) fun request prepares => ?_)
              · rintro (raised | volumes)
                · trivial
                refine ⟨trivial, fun connected => ?_⟩
                cases connected with
                | error raised => trivial
                | ok _ =>
                    apply makes_only_and_then _ _ (supervise_writes ..)
                    rintro (raised | _ | ⟨logs, exitCode⟩)
                    · trivial
                    · trivial
                    · exact package_writes ..
              · cases request <;> first | rfl | cases prepares

theorem attempts_write (settings : Settings) (url : String) (body : Payload) (left : Nat)
    (lastError : Option Raised) :
    MakesOnly (writesAs WorkerWrites) (attemptDelivery settings url body left lastError) := by
  induction left generalizing lastError with
  | zero => exact ⟨rfl, fun _ => trivial⟩
  | succ left induction =>
      apply makes_only_and_then
      · refine ⟨trivial, fun reply => ?_⟩
        cases reply with
        | error raised => trivial
        | ok response =>
            simp only [done_and_then, on_value_ok]
            unfold raiseForStatus
            split
            · trivial
            · exact ⟨rfl, fun _ => trivial⟩
      · rintro (raised | _)
        · simp only [on_failure_error]
          split
          · exact induction _
          · trivial
        · trivial

theorem validating_writeless (request : JobCall) (validates : validating request) :
    writeless request = true := by
  cases request <;> first | rfl | cases validates

theorem callback_writes (settings : Settings) (jobId : String) :
    MakesOnly (writesAs WorkerWrites) (sendCallback settings jobId) := by
  refine ⟨trivial, fun reply => ?_⟩
  rcases reply with raised | _ | data
  · trivial
  · trivial
  simp only [done_and_then, on_value_ok]
  split
  · trivial
  apply makes_only_and_then _ _
    (writes_of_writeless _ (allowed_url_makes settings _) validating_writeless)
  rintro (raised | allowed)
  · trivial
  simp only [on_value_ok]
  split
  · exact ⟨rfl, fun _ => trivial⟩
  · refine ⟨trivial, fun found => ?_⟩
    cases found with
    | error raised => trivial
    | ok hasArtifact => exact attempts_write settings _ _ _ _

theorem run_writes (settings : Settings) (jobId : String) (kind : Kind) (command : String)
    (sandbox : Sandbox) (listFiles : Bool) :
    MakesOnly (writesAs WorkerWrites) (runJob settings jobId kind command sandbox listFiles) := by
  apply makes_only_and_then _ _ (sandboxed_writes ..)
  intro outcome
  apply makes_only_and_then
  · refine ⟨trivial, fun reply => ?_⟩
    cases reply with
    | error raised => trivial
    | ok record =>
        apply makes_only_and_then _ _ (callback_writes settings jobId)
        rintro (raised | _)
        · trivial
        refine ⟨trivial, fun pruned => ?_⟩
        cases pruned with
        | error raised => trivial
        | ok _ =>
            refine ⟨trivial, fun evicted => ?_⟩
            cases evicted <;> trivial
  · rintro (raised | _) <;> trivial

theorem work_writes (job : Job) : MakesOnly (writesAs WorkerWrites) job.work := by
  refine ⟨trivial, fun taken => ?_⟩
  cases taken with
  | error raised => trivial
  | ok _ =>
      have runs : MakesOnly (writesAs WorkerWrites) job.runFunction := by
        unfold Job.runFunction
        split <;> exact run_writes ..
      simp only [done_and_then, on_value_ok]
      exact makes_only_and_then _ _ runs fun outcome => ⟨trivial, fun _ => trivial⟩

theorem submit_writes (job : Job) : MakesOnly (writesAs SubmissionWrites) job.submit := by
  have shape : ∀ request, submitting SubmissionWrites request →
      writesAs SubmissionWrites request := by
    intro request submits
    cases request
    case hset fields => exact submits
    all_goals trivial
  unfold Job.submit
  split
  · exact makes_only_mono _ shape
      (create_build_makes _ _ _ _ _ _ _ fun _ _ _ _ => ⟨⟨rfl, rfl, rfl, rfl⟩, rfl⟩)
  · exact makes_only_mono _ shape
      (create_generate_makes _ _ _ _ _ _ _ _ fun _ _ _ _ => ⟨⟨rfl, rfl, rfl, rfl⟩, rfl⟩)

theorem program_writes (job : Job) (party : Party) :
    MakesOnly (writesOf party) (job.program party) := by
  cases party with
  | submission => exact submit_writes job
  | worker => exact work_writes job
  | cancel index => exact makes_only_mono _ (fun _ _ => trivial) (cancel_makes _)

end Programs

/-! ## What a write does to a record -/

/-- A write that takes nothing back of what the record shows. -/
structure Adds (shown fields : Fields) : Prop where
  kind : fields.kind = none
  target : fields.target = none
  assets : fields.assets = none
  projectId : fields.projectId = none
  callbackUrl : fields.callbackUrl = none
  createdAt : fields.createdAt = none
  startedAt : fields.startedAt = none ∨ shown.startedAt = none
  cancelRequested : fields.cancelRequested = none ∨ fields.cancelRequested = some true
  log : fields.log = none ∨ shown.log = none
  exitCode : fields.exitCode = none ∨ shown.exitCode = none
  files : fields.files = none ∨ shown.files = none
  cachedFiles : fields.cachedFiles = none ∨ shown.cachedFiles = none
  status : fields.status ≠ some .queued

theorem extends_override {shown fields : Fields} (adds : Adds shown fields) :
    Extends shown (shown.override fields) where
  kind := unwritten adds.kind
  target := unwritten adds.target
  assets := unwritten adds.assets
  projectId := unwritten adds.projectId
  callbackUrl := unwritten adds.callbackUrl
  createdAt := unwritten adds.createdAt
  startedAt := lasts_written adds.startedAt
  cancelled shows := by
    unfold Fields.cancelled Fields.override
    rcases adds.cancelRequested with none | flag
    · rw [none]
      exact shows
    · rw [flag]
      rfl
  log := lasts_written adds.log
  exitCode := lasts_written adds.exitCode
  files := lasts_written adds.files
  cachedFiles := lasts_written adds.cachedFiles
  finished shows := by
    rw [Fields.override]
    cases fields.finishedAt with
    | none => exact shows
    | some time => rfl
  begun shows := by
    rw [override_status]
    cases written : fields.status with
    | none => exact shows
    | some status => exact fun queued => adds.status (written.trans queued)

/-! ## The steps of a run -/

def WorkerPhase.early (phase : WorkerPhase) : Prop :=
  phase.stage = .waiting ∨ phase.stage = .taken ∨ phase.stage = .looked

def WorkerPhase.unsettled (phase : WorkerPhase) : Prop :=
  ∀ status, phase.stage ≠ .settled status

/-- The fields there are, none if there is no record. -/
def told (record : Option Key) : Fields := (record.map Key.fields).getD {}

theorem told_of_found {record : Option Key} {shown : Fields}
    (found : record.map Key.fields = some shown) : told record = shown := by
  rw [told, found]
  rfl

theorem told_after_write (record : Option Key) (fields : Fields) :
    told (hset record fields) = (told record).override fields := by
  cases record with
  | some key => rfl
  | none =>
      have nothing : ∀ {Value : Type} (written : Option Value), written = (written <|> none) := by
        rintro Value (_ | value) <;> rfl
      unfold told Fields.override
      simp only [hset, Option.map_some, Option.getD_some, Option.map_none, Option.getD_none,
        ← nothing]

/-- What the worker has not told yet the record does not tell. -/
structure Untold (world : JobWorld) (phases : (party : Party) → Phase party) : Prop where
  started : WorkerPhase.early (phases .worker) → (told world.record).startedAt = none
  bare : WorkerPhase.unsettled (phases .worker) → Bare (told world.record)

section Steps

variable {job : Job} {host : Bool} {world after : JobWorld}
  {phases : (party : Party) → Phase party}

theorem unsettled_of_settles {phase : WorkerPhase} {status : Status}
    (settled : settles host false phase status) : WorkerPhase.unsettled phase := by
  intro other same
  rw [settles, same] at settled
  exact settled

theorem worker_adds {fields shown : Fields} (untold : Untold world phases)
    (found : world.record.map Key.fields = some shown)
    (admitted : workerAdmits host false (phases .worker) (.hset fields))
    (writes : WorkerWrites fields) : Adds shown fields := by
  obtain ⟨-, written⟩ := admitted
  unfold WorkerWrites at writes
  have ends : ∀ status, settles host false (phases .worker) status →
      fields = {
        status := fields.status
        finishedAt := fields.finishedAt
        log := fields.log
        exitCode := fields.exitCode
        files := fields.files
        cachedFiles := fields.cachedFiles } →
      fields.status ≠ some .queued → Adds shown fields := by
    intro status settled only unqueued
    have bare := untold.bare (unsettled_of_settles settled)
    rw [told_of_found found] at bare
    rw [only] at unqueued ⊢
    exact ⟨rfl, rfl, rfl, rfl, rfl, rfl, .inl rfl, .inl rfl, .inr bare.log, .inr bare.exitCode,
      .inr bare.files, .inr bare.cachedFiles, unqueued⟩
  cases status : fields.status with
  | none =>
      rw [status] at writes
      rw [writes]
      exact ⟨rfl, rfl, rfl, rfl, rfl, rfl, .inl rfl, .inl rfl, .inl rfl, .inl rfl, .inl rfl,
        .inl rfl, nofun⟩
  | some status' =>
      rw [status] at writes written
      cases status' with
      | queued => cases written
      | running =>
          obtain ⟨-, looked, -, -⟩ := written
          have unstarted := untold.started (.inr (.inr looked))
          rw [told_of_found found] at unstarted
          rw [writes]
          exact ⟨rfl, rfl, rfl, rfl, rfl, rfl, .inr unstarted, .inl rfl, .inl rfl, .inl rfl,
            .inl rfl, .inl rfl, by simp⟩
      | success | failed | cancelled =>
          exact ends _ written.2.1 (by rw [status]; exact writes) (by simp [status])

theorem cancel_adds {phase : CancelPhase} {fields shown : Fields}
    (admitted : cancelAdmits phase (.hset fields)) : Adds shown fields := by
  rcases cancel_writes admitted with rfl | ⟨clock, rfl⟩
  · exact ⟨rfl, rfl, rfl, rfl, rfl, rfl, .inl rfl, .inr rfl, .inl rfl, .inl rfl, .inl rfl,
      .inl rfl, nofun⟩
  · exact ⟨rfl, rfl, rfl, rfl, rfl, rfl, .inl rfl, .inl rfl, .inl rfl, .inl rfl, .inl rfl,
      .inl rfl, by simp⟩

theorem left_after {request : JobCall} {shown : Fields}
    (found : world.record.map Key.fields = some shown) :
    (writtenBy world.record request).map Key.fields = some (match request with
      | .hset fields => shown.override fields
      | _ => shown) := by
  cases request
  case hset fields =>
      obtain ⟨key, keyed, rfl⟩ := Option.map_eq_some_iff.mp found
      rw [writtenBy, keyed]
      rfl
  all_goals exact found

/-- Step lemma: what a record shows, it shows after any party's next call. -/
theorem shown_after_step (recorded : Recorded world phases)
    (sound : Sound host (lifeOf world phases)) (untold : Untold world phases) {party : Party}
    (request : JobCall) (reply : JobReply request)
    (admitted : (jobProtocol job false party).admits (phases party) request)
    (allowed : writesOf party request)
    (step : jobStep .persistent world request reply after) {shown : Fields}
    (found : world.record.map Key.fields = some shown) :
    ∃ later, after.record.map Key.fields = some later ∧ Extends shown later := by
  obtain ⟨-, record⟩ := record_after request reply step
  rw [left_after found] at record
  refine ⟨_, record, ?_⟩
  cases request
  case hset fields =>
      refine extends_override ?_
      cases party with
      | submission =>
          have absent := absent_of_fresh recorded sound admitted.1
          rw [absent] at found
          cases found
      | worker => exact worker_adds untold found admitted allowed
      | cancel index => exact cancel_adds admitted
  all_goals exact extends_refl shown

theorem told_after (request : JobCall) (reply : JobReply request)
    (step : jobStep .persistent world request reply after) :
    told after.record = match request with
      | .hset fields => (told world.record).override fields
      | _ => told world.record := by
  obtain ⟨-, record⟩ := record_after request reply step
  rw [told, record]
  cases request
  case hset fields => exact told_after_write world.record fields
  all_goals rfl

theorem bare_override {stored fields : Fields} (bare : Bare stored) (adds : Bare fields) :
    Bare (stored.override fields) :=
  ⟨(unwritten adds.log).trans bare.log, (unwritten adds.exitCode).trans bare.exitCode,
    (unwritten adds.files).trans bare.files, (unwritten adds.cachedFiles).trans bare.cachedFiles⟩

theorem untold_kept (untold : Untold world phases) (request : JobCall) (reply : JobReply request)
    (step : jobStep .persistent world request reply after)
    {later : (party : Party) → Phase party}
    (early : WorkerPhase.early (later .worker) → WorkerPhase.early (phases .worker) ∧
      ∀ fields, request = .hset fields → fields.startedAt = none)
    (unsettled : WorkerPhase.unsettled (later .worker) → WorkerPhase.unsettled (phases .worker) ∧
      ∀ fields, request = .hset fields → Bare fields) :
    Untold after later := by
  have same := told_after request reply step
  refine ⟨fun isEarly => ?_, fun isUnsettled => ?_⟩
  · obtain ⟨before, silent⟩ := early isEarly
    rw [same]
    cases request
    case hset fields => exact (unwritten (silent fields rfl)).trans (untold.started before)
    all_goals exact untold.started before
  · obtain ⟨before, silent⟩ := unsettled isUnsettled
    rw [same]
    cases request
    case hset fields => exact bare_override (untold.bare before) (silent fields rfl)
    all_goals exact untold.bare before

theorem stage_without_write {phase later : WorkerPhase} (request : JobCall)
    (reply : JobReply request) (writeless : writeless request = true)
    (admitted : workerAdmits host false phase request)
    (goes : workerStep false phase request reply later) :
    later.stage = phase.stage ∨
      WorkerPhase.early phase ∧ (later.stage = .taken ∨ later.stage = .looked) := by
  cases request
  case hset fields => cases writeless
  case takeFromQueue =>
      obtain ⟨-, rfl⟩ := goes
      exact .inr ⟨.inl admitted, .inl rfl⟩
  case hgetall reader =>
      obtain ⟨found, -, rfl⟩ := goes
      cases reader
      case preRun => exact .inr ⟨.inr (.inl admitted.2), .inr rfl⟩
      all_goals exact .inl rfl
  all_goals
    obtain ⟨-, rfl⟩ := goes
    exact .inl rfl

theorem unsettled_of_early {phase : WorkerPhase} (early : WorkerPhase.early phase) :
    WorkerPhase.unsettled phase := by
  intro status settled
  rcases early with stage | stage | stage
  all_goals
    rw [stage] at settled
    cases settled

theorem untold_by_write (untold : Untold world phases) {fields : Fields}
    (reply : JobReply (.hset fields)) (step : jobStep .persistent world (.hset fields) reply after)
    (admitted : admitsWrite host false (phases .worker) fields) (writes : WorkerWrites fields) :
    Untold after (Function.update phases .worker (afterWrite (phases .worker) fields)) := by
  obtain ⟨-, written⟩ := admitted
  unfold WorkerWrites at writes
  refine untold_kept untold _ reply step ?_ ?_
  · intro isEarly
    rw [Function.update_self] at isEarly
    cases status : fields.status with
    | none =>
        rw [status] at writes
        rw [afterWrite, status] at isEarly
        refine ⟨isEarly, ?_⟩
        rintro _ ⟨⟩
        rw [writes]
    | some status' =>
        rw [afterWrite, status] at isEarly
        cases status' <;> rcases isEarly with impossible | impossible | impossible <;>
          cases impossible
  · intro isUnsettled
    rw [Function.update_self] at isUnsettled
    cases status : fields.status with
    | none =>
        rw [status] at writes
        rw [afterWrite, status] at isUnsettled
        refine ⟨isUnsettled, ?_⟩
        rintro _ ⟨⟩
        rw [writes]
        exact ⟨rfl, rfl, rfl, rfl⟩
    | some status' =>
        rw [status] at writes written
        rw [afterWrite, status] at isUnsettled
        cases status' with
        | running =>
            refine ⟨unsettled_of_early (.inr (.inr written.2.1)), ?_⟩
            rintro _ ⟨⟩
            rw [writes]
            exact ⟨rfl, rfl, rfl, rfl⟩
        | queued | success | failed | cancelled => exact absurd rfl (isUnsettled _)

/-- Step lemma: what the worker has not told yet nobody tells for it. -/
theorem untold_by_step (untold : Untold world phases) {party : Party} (request : JobCall)
    (reply : JobReply request)
    (admitted : (jobProtocol job false party).admits (phases party) request)
    (allowed : writesOf party request)
    (step : jobStep .persistent world request reply after) {phase : Phase party}
    (goes : (jobProtocol job false party).step (phases party) request reply phase) :
    Untold after (Function.update phases party phase) := by
  have silent : ∀ {later : (party : Party) → Phase party}, later .worker = phases .worker →
      (∀ fields, request = .hset fields → fields.startedAt = none ∧ Bare fields) →
      Untold after later := by
    intro later same bare
    refine untold_kept untold request reply step (fun isEarly => ?_) fun isUnsettled => ?_
    · exact ⟨same ▸ isEarly, fun fields writes => (bare fields writes).1⟩
    · exact ⟨same ▸ isUnsettled, fun fields writes => (bare fields writes).2⟩
  cases party with
  | submission =>
      refine silent (by simp) ?_
      rintro fields rfl
      exact ⟨allowed.startedAt, allowed.bare⟩
  | cancel index =>
      refine silent (by simp) ?_
      rintro fields rfl
      rcases cancel_writes admitted with rfl | ⟨clock, rfl⟩
      · exact ⟨rfl, rfl, rfl, rfl, rfl⟩
      · exact ⟨rfl, rfl, rfl, rfl, rfl⟩
  | worker =>
      by_cases isWriteless : writeless request = true
      · have noWrite : ∀ fields, request ≠ .hset fields := by
          rintro fields rfl
          cases isWriteless
        have stages := stage_without_write request reply isWriteless admitted goes
        refine untold_kept untold request reply step (fun isEarly => ?_) fun isUnsettled => ?_
        · refine ⟨?_, fun fields writes => absurd writes (noWrite fields)⟩
          rw [Function.update_self] at isEarly
          rcases stages with same | ⟨early, -⟩
          · rw [WorkerPhase.early, same] at isEarly
            exact isEarly
          · exact early
        · refine ⟨?_, fun fields writes => absurd writes (noWrite fields)⟩
          rw [Function.update_self] at isUnsettled
          rcases stages with same | ⟨early, -⟩
          · rw [WorkerPhase.unsettled, same] at isUnsettled
            exact isUnsettled
          · exact unsettled_of_early early
      · cases request
        case hset fields =>
            obtain ⟨-, rfl⟩ := goes
            exact untold_by_write untold reply step admitted allowed
        all_goals exact absurd rfl isWriteless

end Steps

/-! ## Runs -/

/-- The protocols, with what each party may write. -/
def writing (job : Job) (party : Party) : Machine JobCall.Answer Raised (Phase party) :=
  (jobProtocol job false party).within (writesOf party)

theorem start_writing (job : Job) (clock : Nat) :
    Keeps (writing job) (JobEnded false) startPhases (job.start clock) := fun party =>
  guarantees_within _ _ (start_keeps job clock false nofun party) (program_writes job party)

/-- The record, from the moment on at which it has shown `shown`. -/
def GrownFrom (shown : Option Fields) (job : Job) (world : JobWorld)
    (phases : (party : Party) → Phase party) : Prop :=
  Recorded world phases ∧ Sound job.settings.hostDataDir.isSome (lifeOf world phases) ∧
    Untold world phases ∧ ∀ fields, shown = some fields →
      ∃ later, world.record.map Key.fields = some later ∧ Extends fields later

theorem growth_upheld (shown : Option Fields) (job : Job) :
    Upholds (jobSurroundings .persistent) (writing job) (GrownFrom shown job) where
  act world phases party request reply after holds admitted step := by
    obtain ⟨recorded, sound, untold, grown⟩ := holds
    have free : Translates false (fun _ _ _ _ => True) (fun _ _ => True) :=
      ⟨fun _ _ _ _ _ _ _ _ => trivial, nofun, fun _ => trivial⟩
    obtain ⟨phase, event, follows, again, -, lives⟩ :=
      step_matched free party request reply recorded admitted.1 step trivial
    refine ⟨phase, follows, again, sound_preserved job _ event _ sound trivial lives,
      untold_by_step untold request reply admitted.1 admitted.2 step follows, ?_⟩
    intro fields isShown
    obtain ⟨later, found, extended⟩ := grown fields isShown
    obtain ⟨last, foundLast, further⟩ :=
      shown_after_step recorded sound untold request reply admitted.1 admitted.2 step found
    exact ⟨last, foundLast, extends_trans extended further⟩
  drift world phases after holds drifts := by
    obtain ⟨recorded, sound, untold, grown⟩ := holds
    have same := drift_record drifts
    obtain ⟨again, sameLife | lives⟩ := drift_life job false drifts recorded
    · refine ⟨again, by rw [sameLife]; exact sound, ⟨?_, ?_⟩, by rw [same]; exact grown⟩
      · rw [same]
        exact untold.started
      · rw [same]
        exact untold.bare
    · refine ⟨again, sound_preserved job _ _ _ sound trivial lives, ⟨?_, ?_⟩,
        by rw [same]; exact grown⟩
      · rw [same]
        exact untold.started
      · rw [same]
        exact untold.bare

theorem start_untold (clock : Nat) : Untold { clock } startPhases :=
  ⟨fun _ => rfl, fun _ => ⟨rfl, rfl, rfl, rfl⟩⟩

theorem grown_between (job : Job) (clock : Nat) {reached later : JobConfiguration}
    (reaches : Reaches (jobSurroundings .persistent) (job.start clock) reached)
    (further : Reaches (jobSurroundings .persistent) reached later) {shown : Fields}
    (found : reached.world.record.map Key.fields = some shown) :
    ∃ fields, later.world.record.map Key.fields = some fields ∧ Extends shown fields := by
  have start : GrownFrom none job { clock } startPhases := by
    refine ⟨start_recorded clock, start_sound _ clock, start_untold clock, ?_⟩
    rintro fields ⟨⟩
  obtain ⟨phases, ⟨recorded, sound, untold, -⟩, keeps⟩ := keeps_reaches (growth_upheld none job)
    startPhases start (start_writing job clock) reaches
  have grown : GrownFrom (some shown) job reached.world phases := by
    refine ⟨recorded, sound, untold, ?_⟩
    rintro _ ⟨⟩
    exact ⟨shown, found, extends_refl shown⟩
  obtain ⟨-, ⟨-, -, -, atLast⟩, -⟩ :=
    keeps_reaches (growth_upheld (some shown) job) phases grown keeps further
  exact atLast shown rfl

end PretextBuildServer.RecordGrowth
