import PretextBuildServer.RunCalls
import PretextBuildServer.SoundLives

/-!
# What a party has heard, and what it writes and sends

Every time a party writes into the record is the last one the clock has told it,
and what the worker sends to the callback is made of the record as it has read
it. Both are properties of each party's program alone; with the life cycle they
become properties of all interleavings.
-/

namespace PretextBuildServer.RunJournal

open EffectProgram EffectProgram.Program InterleavedParties
open PretextBuildServer.ServerSettings PretextBuildServer.JobRecord PretextBuildServer.JobCalls
open PretextBuildServer.StoreCalls PretextBuildServer.CallbackUrl
open PretextBuildServer.CompletionCallback PretextBuildServer.BuildWorker
open PretextBuildServer.ApiEndpoints PretextBuildServer.JobSystem PretextBuildServer.RunCalls
open PretextBuildServer.WorkerProtocol PretextBuildServer.RequestProtocols
open PretextBuildServer.LifeCycle PretextBuildServer.LifeCycleRefinement

set_option autoImplicit false

/-- The body `_build_payload` makes of a record. -/
def payloadOf (settings : Settings) (jobId : String) (data : Fields) (hasArtifact : Bool) :
    Payload :=
  let tail := logTail settings.callbackLogTailChars (data.log.getD "")
  let kind := data.kind.getD .build
  { jobId
    kind
    status := data.status
    target := data.target
    exitCode := data.exitCode
    logTail := tail.1
    logTruncated := tail.2
    logUrl := s!"{jobPrefixes kind}/{jobId}/log"
    assets := if kind = .generate then some (splitWords (data.assets.getD "")) else none
    files := if kind = .generate then some (data.files.getD []) else none
    artifactUrl := if hasArtifact then some s!"{jobPrefixes kind}/{jobId}/artifact" else none }

theorem build_payload_is (settings : Settings) (jobId : String) (data : Fields) :
    buildPayload settings jobId data = (do
      let hasArtifact ← isFile (settings.jobDir jobId ++ ["output.zip"])
      return payloadOf settings jobId data hasArtifact) := rfl

/-! ## The journal -/

/-- `begun`: the party may read the clock; `heard`: what it was told last; `read`:
the record `send_callback` has read. -/
structure Journal where
  begun : Bool := false
  heard : Option Nat := none
  read : Option Fields := none

/-- Every time that is written is the one heard, and none but `created_at` is
written without a status. -/
structure Stamped (heard : Option Nat) (fields : Fields) : Prop where
  created : ∀ time, fields.createdAt = some time → heard = some time
  started : ∀ time, fields.startedAt = some time → heard = some time
  finished : ∀ time, fields.finishedAt = some time → heard = some time
  untimed : fields.status = none → fields.startedAt = none ∧ fields.finishedAt = none

/-- Nothing is written but how the callback has gone. -/
def NotesCallback (fields : Fields) : Prop :=
  fields = { callbackStatus := fields.callbackStatus, callbackError := fields.callbackError }

def journalAdmits (settings : Settings) (jobId : String) (journal : Journal) : JobCall → Prop
  | .hset fields =>
      Stamped journal.heard fields ∧ (journal.read.isSome = true → NotesCallback fields)
  | .post _ body signature _ =>
      ∃ data hasArtifact, journal.read = some data ∧
        body = payloadOf settings jobId data hasArtifact ∧ signature = sign settings body
  | .time => journal.begun = true
  | _ => True

def journalStep (journal : Journal) :
    (request : JobCall) → JobReply request → Journal → Prop
  | .takeFromQueue, _, after => after = { journal with begun := true }
  | .time, reply, after =>
      ∃ clock, reply = .ok clock ∧ after = { journal with heard := some clock }
  | .hgetall .sendCallback, reply, after =>
      ∃ record : Option Fields, reply = .ok record ∧
        after = { journal with read := record <|> journal.read }
  | _, _, after => after = journal

def journalMachine (settings : Settings) (jobId : String) :
    Machine JobCall.Answer Raised Journal where
  admits := journalAdmits settings jobId
  step := journalStep

/-! ## The parts of a run keep the journal -/

def polls : JobCall → Bool
  | .wait _ | .hgetall .poll => true
  | _ => false

theorem wait_loop_polls (poll timeout : Int) (left : Nat) (elapsed : Int) :
    MakesOnly (fun request => polls request = true) (waitLoop poll timeout left elapsed) := by
  induction left generalizing elapsed with
  | zero => trivial
  | succ left induction =>
      refine ⟨rfl, fun waited => ?_⟩
      cases waited with
      | ok statusCode => trivial
      | error raised =>
          simp only [done_and_then, on_failure_error]
          split
          · trivial
          split
          · trivial
          refine ⟨rfl, fun polled => ?_⟩
          cases polled with
          | error raised => trivial
          | ok data =>
              simp only [done_and_then, on_value_ok]
              split
              · trivial
              · exact induction _

theorem wait_polls (settings : Settings) (timeout : Int) :
    MakesOnly (fun request => polls request = true) (waitForContainer settings timeout) := by
  unfold waitForContainer
  dsimp only
  split
  · exact wait_loop_polls _ _ _ _
  · trivial

/-- Neither the clock nor the store is asked, and nothing is sent. -/
def idle : JobCall → Bool
  | .hset _ | .time | .takeFromQueue | .post .. | .hgetall .sendCallback => false
  | _ => true

section Parts

variable {settings : Settings} {jobId : String} {journal : Journal}

/-- The worker before its callback: the clock may be read, nothing has been read
for sending. -/
def Underway (journal : Journal) : Prop := journal.begun = true ∧ journal.read = none

theorem idle_guarantees {Result : Type} (program : JobProgram Result)
    (only : MakesOnly (fun request => idle request = true) program) :
    Guarantees (journalMachine settings jobId) (fun after _ => after = journal) journal program := by
  refine guarantees_of_makes_only journal program only ?_ ?_
  · intro request isIdle
    cases request <;> trivial
  · intro request reply after isIdle step
    cases request
    case hgetall reader =>
        cases reader
        case sendCallback => cases isIdle
        all_goals exact step
    case hset | time | takeFromQueue | post => cases isIdle
    all_goals exact step

theorem idle_of {Result : Type} {allowed : JobCall → Prop} (program : JobProgram Result)
    (only : MakesOnly allowed program)
    (implied : ∀ request, allowed request → idle request = true) :
    Guarantees (journalMachine settings jobId) (fun after _ => after = journal) journal program :=
  idle_guarantees program (makes_only_mono program implied only)

theorem stamp_guarantees (underway : Underway journal) (fields : Nat → Fields)
    (stamped : ∀ clock, Stamped (some clock) (fields clock)) :
    Guarantees (journalMachine settings jobId) (fun after _ => Underway after) journal
      (now >>= fun clock => storeUpdate (fields clock)) := by
  obtain ⟨begun, unread⟩ := underway
  refine ⟨begun, ?_⟩
  rintro _ _ ⟨clock, rfl, rfl⟩
  refine ⟨⟨stamped clock, fun some => by simp [unread] at some⟩, ?_⟩
  rintro _ _ rfl
  exact ⟨begun, unread⟩

theorem wait_keeps (timeout : Int) :
    Guarantees (journalMachine settings jobId) (fun after _ => after = journal) journal
      (waitForContainer settings timeout) := by
  refine idle_of _ (wait_polls settings timeout) fun request asks => ?_
  cases request
  case hgetall reader => cases reader <;> first | rfl | cases asks
  case wait => rfl
  all_goals cases asks

theorem stop_keeps (underway : Underway journal) (status : Status) (note : String) :
    Guarantees (journalMachine settings jobId) (fun after _ => Underway after) journal
      (stopContainer status note) := by
  refine ⟨trivial, ?_⟩
  rintro killed _ rfl
  cases killed with
  | error raised => exact underway
  | ok _ =>
      refine ⟨trivial, ?_⟩
      rintro logged _ rfl
      cases logged with
      | error raised => exact underway
      | ok logs =>
          exact stamp_guarantees underway (fun finished =>
            { status := some status, finishedAt := some finished, log := some (logs ++ note) })
            fun clock => ⟨nofun, nofun, fun time same => same, nofun⟩

theorem await_keeps (underway : Underway journal) (kind : Kind) (sandbox : Sandbox) :
    Guarantees (journalMachine settings jobId) (fun after _ => Underway after) journal
      (awaitContainer settings kind sandbox) := by
  refine guarantees_seq _ _ _ (wait_keeps _) ?_
  have ended : ∀ {after : Journal} (answer : Option (String × Int)) {outcome : Except Raised Unit},
      Underway after → Guarantees (journalMachine settings jobId) (fun after _ => Underway after)
        after (onValue (fun _ => (return answer : JobProgram (Option (String × Int)))) outcome) := by
    intro after answer outcome still
    cases outcome <;> exact still
  rintro _ (raised | statusCode) rfl
  · dsimp only
    split
    · exact guarantees_seq _ _ _ (stop_keeps underway _ _) fun _ _ still => ended none still
    split
    · exact guarantees_seq _ _ _ (stop_keeps underway _ _) fun _ _ still => ended none still
    · exact underway
  · refine ⟨trivial, ?_⟩
    rintro logged _ rfl
    cases logged <;> exact underway

theorem image_missing_keeps (underway : Underway journal) (raised : Raised) :
    Guarantees (journalMachine settings jobId) (fun after _ => Underway after) journal
      (imageMissing settings raised) := by
  unfold imageMissing
  split
  · rw [← bind_assoc]
    refine guarantees_seq _ _ _ (stamp_guarantees underway (fun finished => {
      status := some .failed
      finishedAt := some finished
      log := some (s!"Build image not found locally: {settings.buildImage}. " ++
        s!"Run `docker pull {settings.buildImage}`.") })
      fun clock => ⟨nofun, nofun, fun time same => same, nofun⟩) ?_
    rintro after (raised | _) still
    · exact still
    · exact still
  · exact underway

theorem remove_keeps :
    Guarantees (journalMachine settings jobId) (fun after _ => after = journal) journal
      removeContainer := by
  refine idle_guarantees _ ⟨rfl, fun removed => ?_⟩
  cases removed with
  | ok _ => trivial
  | error raised =>
      simp only [done_and_then, on_failure_error]
      split <;> trivial

theorem supervise_keeps (underway : Underway journal) (kind : Kind) (sandbox : Sandbox)
    (kwargs : RunKwargs) :
    Guarantees (journalMachine settings jobId) (fun after _ => Underway after) journal
      (superviseContainer settings kind sandbox kwargs) := by
  refine ⟨trivial, ?_⟩
  rintro started _ rfl
  cases started with
  | error raised => exact image_missing_keeps underway raised
  | ok _ =>
      simp only [done_and_then, ensuring]
      refine guarantees_seq _ _ _ (?_ : Guarantees _ (fun after _ => Underway after) _ _) ?_
      · refine guarantees_seq _ _ _ (await_keeps underway kind sandbox) ?_
        rintro after (raised | ended) still
        · exact image_missing_keeps still raised
        · exact still
      · intro after outcome still
        refine guarantees_seq _ _ _ remove_keeps ?_
        rintro _ (raised | _) rfl
        · exact still
        · exact still

theorem volumes_keep (kind : Kind) (projectId : Option String) (workDir hostWork : Path) :
    Guarantees (journalMachine settings jobId) (fun after _ => after = journal) journal
      (prepareVolumes kind projectId workDir hostWork) :=
  idle_of _ (volumes_make ..) fun request prepares => by
    cases request <;> first | rfl | cases prepares

/-- What is written beside the ending names no time. -/
def Timeless (fields : Fields) : Prop := fields.createdAt = none ∧ fields.startedAt = none

theorem zip_keeps (outputDir zipPath : Path) (sandbox : Sandbox) (listFiles hasOutput : Bool) :
    Guarantees (journalMachine settings jobId)
      (fun after outcome => after = journal ∧ ∀ fields, outcome = .ok fields → Timeless fields)
      journal (zipOutput outputDir zipPath sandbox listFiles hasOutput) := by
  unfold zipOutput
  split
  · refine ⟨trivial, ?_⟩
    rintro zipped _ rfl
    cases zipped with
    | error raised =>
        simp only [done_and_then, on_value_error]
        exact ⟨rfl, fun fields impossible => nomatch impossible⟩
    | ok names =>
        simp only [done_and_then, on_value_ok]
        refine ⟨rfl, fun fields same => ?_⟩
        cases same
        exact ⟨rfl, rfl⟩
  · refine ⟨rfl, fun fields same => ?_⟩
    cases same
    exact ⟨rfl, rfl⟩

theorem harvest_keeps (kind : Kind) (projectId : Option String) (workDir : Path) (exitCode : Int)
    (extra : Fields) (timeless : Timeless extra) :
    Guarantees (journalMachine settings jobId)
      (fun after outcome => after = journal ∧ ∀ fields, outcome = .ok fields → Timeless fields)
      journal (harvestGenerated kind projectId workDir exitCode extra) := by
  have unharvested : ∀ fields, (Except.ok extra : Except Raised Fields) = .ok fields →
      Timeless fields := fun fields same => by cases same; exact timeless
  unfold harvestGenerated
  split
  · split
    · refine ⟨trivial, ?_⟩
      rintro harvested _ rfl
      cases harvested with
      | error raised => exact ⟨rfl, unharvested⟩
      | ok cached =>
          refine ⟨rfl, fun fields same => ?_⟩
          cases same
          exact timeless
    · exact ⟨rfl, unharvested⟩
  · exact ⟨rfl, unharvested⟩

theorem ended_stamped (kind : Kind) (subdir : String) (hasOutput : Bool) (logs : String)
    (exitCode : Int) {extra : Fields} (timeless : Timeless extra) (clock : Nat) :
    Stamped (some clock) (endedFields kind subdir hasOutput logs exitCode extra clock) := by
  obtain ⟨uncreated, unstarted⟩ := timeless
  unfold endedFields
  split
  · exact ⟨by simp [uncreated], by simp [unstarted], fun time same => same, nofun⟩
  split
  · exact ⟨nofun, nofun, fun time same => same, nofun⟩
  · exact ⟨by simp [uncreated], by simp [unstarted], fun time same => same, nofun⟩

theorem package_keeps (underway : Underway journal) (kind : Kind) (sandbox : Sandbox)
    (listFiles : Bool) (projectId : Option String) (logs : String) (exitCode : Int) :
    Guarantees (journalMachine settings jobId) (fun after _ => Underway after) journal
      (packageOutput settings jobId kind sandbox listFiles projectId logs exitCode) := by
  refine guarantees_seq _ _ _ (idle_of _ (present_makes _) fun request looks => by
    cases request <;> first | rfl | cases looks) ?_
  rintro _ (raised | hasOutput) rfl
  · exact underway
  refine guarantees_seq _ _ _ (zip_keeps ..) ?_
  rintro _ (raised | zipped) ⟨rfl, timeless⟩
  · exact underway
  refine guarantees_seq _ _ _ (harvest_keeps _ _ _ _ _ (timeless zipped rfl)) ?_
  rintro _ (raised | extra) ⟨rfl, timeless⟩
  · exact underway
  · exact stamp_guarantees underway _ fun clock => ended_stamped _ _ _ _ _ (timeless extra rfl) clock

theorem sandboxed_keeps (underway : Underway journal) (kind : Kind) (command : String)
    (sandbox : Sandbox) (listFiles : Bool) :
    Guarantees (journalMachine settings jobId) (fun after _ => Underway after) journal
      (runSandboxed settings jobId kind command sandbox listFiles) := by
  unfold runSandboxed
  split
  · exact stamp_guarantees underway _ fun clock => ⟨nofun, nofun, fun time same => same, nofun⟩
  · refine ⟨trivial, ?_⟩
    rintro read _ rfl
    cases read with
    | error raised => exact underway
    | ok record =>
        simp only [done_and_then, on_value_ok]
        split
        · exact stamp_guarantees underway _ fun clock => ⟨nofun, nofun, fun time same => same, nofun⟩
        · rw [← bind_assoc]
          refine guarantees_seq _ _ _ (stamp_guarantees underway (fun started =>
            { status := some .running, startedAt := some started })
            fun clock => ⟨nofun, fun time same => same, nofun, nofun⟩) ?_
          rintro after (raised | _) still
          · exact still
          refine ⟨trivial, ?_⟩
          rintro opened _ rfl
          cases opened with
          | error raised => exact still
          | ok _ =>
              simp only [done_and_then, on_value_ok]
              refine guarantees_seq _ _ _ (volumes_keep ..) ?_
              rintro _ (raised | volumes) rfl
              · exact still
              refine ⟨trivial, ?_⟩
              rintro connected _ rfl
              cases connected with
              | error raised => exact still
              | ok _ =>
                  simp only [done_and_then, on_value_ok]
                  refine guarantees_seq _ _ _ (supervise_keeps still ..) ?_
                  rintro later (raised | _ | ⟨logs, exitCode⟩) goes
                  · exact goes
                  · exact goes
                  · exact package_keeps goes ..

/-! ## The callback keeps the journal -/

theorem note_keeps (fields : Fields) (notes : NotesCallback fields) :
    Guarantees (journalMachine settings jobId) (fun after _ => after = journal) journal
      (storeUpdate fields) := by
  refine ⟨⟨?_, fun _ => notes⟩, fun reply after step => step⟩
  rw [notes]
  exact ⟨nofun, nofun, nofun, fun _ => ⟨rfl, rfl⟩⟩

theorem attempts_keep_journal (url : String) {data : Fields} (read : journal.read = some data)
    (hasArtifact : Bool) (left : Nat) (lastError : Option Raised) :
    Guarantees (journalMachine settings jobId) (fun after _ => after = journal) journal
      (attemptDelivery settings url (payloadOf settings jobId data hasArtifact) left lastError) := by
  induction left generalizing lastError with
  | zero => exact note_keeps _ rfl
  | succ left induction =>
      unfold attemptDelivery
      refine guarantees_seq _ _ _ (?_ : Guarantees _ (fun after _ => after = journal) _ _) ?_
      · refine ⟨⟨data, hasArtifact, read, rfl, rfl⟩, ?_⟩
        rintro posted _ rfl
        cases posted with
        | error raised => rfl
        | ok response =>
            simp only [done_and_then, on_value_ok, raiseForStatus]
            split
            · rfl
            · exact note_keeps _ rfl
      · rintro _ (raised | _) rfl
        · simp only [on_failure_error]
          split
          · exact induction _
          · rfl
        · rfl

theorem callback_keeps :
    Guarantees (journalMachine settings jobId) (fun _ _ => True) journal
      (sendCallback settings jobId) := by
  refine ⟨trivial, ?_⟩
  rintro _ _ ⟨record, rfl, rfl⟩
  simp only [done_and_then, on_value_ok]
  cases record with
  | none => trivial
  | some data =>
      dsimp only
      split
      · trivial
      refine guarantees_seq _ _ _ (idle_of _ (allowed_url_makes settings _) fun request asks => by
        cases request <;> first | rfl | cases asks) ?_
      rintro _ (raised | allowed) rfl
      · trivial
      simp only [on_value_ok]
      split
      · exact guarantees_mono _ _ (fun _ _ _ => trivial) (note_keeps _ rfl)
      · rw [build_payload_is]
        refine ⟨trivial, ?_⟩
        rintro found _ rfl
        cases found with
        | error raised => trivial
        | ok hasArtifact =>
            exact guarantees_mono _ _ (fun _ _ _ => trivial)
              (attempts_keep_journal _ rfl hasArtifact _ _)

theorem run_keeps_journal (underway : Underway journal) (kind : Kind) (command : String)
    (sandbox : Sandbox) (listFiles : Bool) :
    Guarantees (journalMachine settings jobId) (fun _ _ => True) journal
      (runJob settings jobId kind command sandbox listFiles) := by
  refine guarantees_seq _ _ _ (sandboxed_keeps underway ..) fun ran outcome _ => ?_
  refine guarantees_seq _ _ _ (?_ : Guarantees _ (fun _ _ => True) _ _) ?_
  · refine ⟨trivial, ?_⟩
    rintro read _ rfl
    cases read with
    | error raised => trivial
    | ok record =>
        simp only [done_and_then, on_value_ok]
        refine guarantees_seq _ _ _ callback_keeps fun after sent _ => ?_
        have rest : MakesOnly (fun request => idle request = true) (do
            jobCall .pruneExpiredJobs
            rescue (jobCall (.pruneAssetCache (Fields.namedProject (record.getD {}))))
              fun _ => return) := by
          refine ⟨rfl, fun pruned => ?_⟩
          cases pruned with
          | error raised => trivial
          | ok _ =>
              refine ⟨rfl, fun evicted => ?_⟩
              cases evicted <;> trivial
        cases sent with
        | error raised => trivial
        | ok _ => exact guarantees_mono _ _ (fun _ _ _ => trivial) (idle_guarantees _ rest)
  · rintro after (raised | _) -
    · trivial
    · trivial

theorem work_keeps_journal (job : Job) :
    Guarantees (journalMachine job.settings job.jobId) (fun _ _ => True) {} job.work := by
  refine ⟨trivial, ?_⟩
  rintro taken _ rfl
  cases taken with
  | error raised => trivial
  | ok _ =>
      have ran : Guarantees (journalMachine job.settings job.jobId) (fun _ _ => True)
          { begun := true } job.runFunction := by
        unfold Job.runFunction
        split
        · exact run_keeps_journal ⟨rfl, rfl⟩ ..
        · exact run_keeps_journal ⟨rfl, rfl⟩ ..
      simp only [done_and_then, on_value_ok]
      refine guarantees_seq _ _ _ ran fun after outcome _ => ⟨trivial, ?_⟩
      rintro finished _ rfl
      trivial

/-! ## The endpoints keep the journal -/

theorem create_keeps (begun : journal.begun = true) (fields : Fields)
    (untimed : fields.createdAt = none ∧ fields.startedAt = none ∧ fields.finishedAt = none)
    (unread : journal.read = none) :
    Guarantees (journalMachine settings jobId) (fun _ _ => True) journal
      (storeCreate settings fields) := by
  obtain ⟨uncreated, unstarted, unfinished⟩ := untimed
  refine ⟨begun, ?_⟩
  rintro _ _ ⟨clock, rfl, rfl⟩
  refine ⟨⟨⟨by simp [uncreated], by simp [unstarted], by simp [unfinished],
      fun _ => ⟨unstarted, unfinished⟩⟩,
    fun some => by simp [unread] at some⟩, ?_⟩
  rintro stored _ rfl
  cases stored with
  | error raised => trivial
  | ok _ => exact ⟨trivial, fun _ _ _ => trivial⟩

theorem idle_then {Result Other : Type} (first : JobProgram Result)
    (next : Result → JobProgram Other)
    (only : MakesOnly (fun request => idle request = true) first)
    (rest : ∀ value, Guarantees (journalMachine settings jobId) (fun _ _ => True) journal
      (next value)) :
    Guarantees (journalMachine settings jobId) (fun _ _ => True) journal (first >>= next) := by
  refine guarantees_seq _ _ _ (idle_guarantees first only) ?_
  rintro _ (raised | value) rfl
  · trivial
  · exact rest value

theorem intake_keeps (begun : journal.begun = true) (callbackUrl : Option String) (fields : Fields)
    (untimed : fields.createdAt = none ∧ fields.startedAt = none ∧ fields.finishedAt = none)
    (unread : journal.read = none) :
    Guarantees (journalMachine settings jobId) (fun _ _ => True) journal
      (intake settings callbackUrl fields) := by
  have unpack : Guarantees (journalMachine settings jobId) (fun _ _ => True) journal
      (unpackAndCreate settings { fields with callbackUrl := callbackUrl.filter (· ≠ "") }) := by
    refine idle_then _ _ ⟨rfl, fun _ => trivial⟩ fun _ => ?_
    refine idle_then _ _ ⟨rfl, fun _ => trivial⟩ fun _ => ?_
    refine idle_then _ _ ⟨rfl, fun extracted => ?_⟩ fun _ => ?_
    · cases extracted with
      | ok _ => trivial
      | error raised => exact ⟨rfl, fun removed => by cases removed <;> trivial⟩
    · refine idle_then _ _ ⟨rfl, fun _ => trivial⟩ fun _ => ?_
      exact create_keeps begun _ untimed unread
  unfold intake
  cases callbackUrl with
  | none => exact unpack
  | some url =>
      refine idle_then _ _ (makes_only_mono _ (fun request asks => by
        cases request <;> first | rfl | cases asks) (allowed_url_makes settings _)) fun allowed => ?_
      split
      · trivial
      · exact unpack

end Parts

theorem check_token_idle (settings : Settings) (formToken authorization : Option String) :
    MakesOnly (fun request => idle request = true)
      (checkToken settings formToken authorization) := by
  unfold checkToken
  split <;> trivial

theorem project_id_idle (value : Option String) :
    MakesOnly (fun request => idle request = true) (projectIdField value) := by
  unfold projectIdField
  dsimp only
  split
  · trivial
  split <;> trivial

theorem submit_keeps_journal (job : Job) :
    Guarantees (journalMachine job.settings job.jobId) (fun _ _ => True) { begun := true }
      job.submit := by
  have rest : ∀ (kind : Kind) (project callbackUrl : Option String)
      (fields : Option String → Fields),
      (∀ project, (fields project).createdAt = none ∧ (fields project).startedAt = none ∧
        (fields project).finishedAt = none) →
      Guarantees (journalMachine job.settings job.jobId) (fun _ _ => True) { begun := true } (do
        let project ← projectIdField project
        intake job.settings callbackUrl (fields project)
        jobCall (.enqueue kind)
        return queued job.jobId kind) := by
    intro kind project callbackUrl fields untimed
    refine idle_then _ _ (project_id_idle _) fun project => ?_
    refine guarantees_seq _ _ _ (intake_keeps rfl callbackUrl _ (untimed project) rfl) ?_
    rintro after (raised | _) -
    · trivial
    refine ⟨trivial, ?_⟩
    rintro entered _ rfl
    cases entered <;> trivial
  unfold Job.submit
  cases job.request with
  | build target projectId token callbackUrl authorization =>
      refine idle_then _ _ (check_token_idle ..) fun _ => ?_
      exact rest .build projectId callbackUrl (fun project =>
        { kind := some .build, target := some target, projectId := project })
        fun _ => ⟨rfl, rfl, rfl⟩
  | generate target assets projectId token callbackUrl authorization =>
      refine idle_then _ _ (check_token_idle ..) fun _ => ?_
      dsimp only
      split
      · trivial
      · exact rest .generate projectId callbackUrl (fun project =>
          { kind := some .generate, target := some target,
            assets := some (" ".intercalate (assetNames assets)), projectId := project })
          fun _ => ⟨rfl, rfl, rfl⟩

theorem cancel_keeps_journal (settings : Settings) (jobId : String) (kind : Kind) :
    Guarantees (journalMachine settings jobId) (fun _ _ => True) { begun := true }
      (ApiEndpoints.cancel kind) := by
  have lost : ∀ (journal : Journal) (raised : Raised),
      Guarantees (journalMachine settings jobId) (fun _ _ => True) journal
        (if raised.kind = .noSuchJobError ∨ raised.kind = .invalidJobOperation then
          (return .cancelRequested : JobProgram CancelAnswer) else raise raised) := by
    intro journal raised
    split <;> trivial
  have loads : MakesOnly (fun request => idle request = true) (load kind) := by
    refine ⟨rfl, fun loaded => ?_⟩
    rcases loaded with raised | _ | data
    · trivial
    · trivial
    · simp only [done_and_then, on_value_ok]
      split <;> trivial
  refine idle_then _ _ loads fun data => ?_
  split
  · trivial
  refine ⟨⟨⟨nofun, nofun, nofun, fun _ => ⟨rfl, rfl⟩⟩, nofun⟩, ?_⟩
  rintro flagged _ rfl
  cases flagged with
  | error raised => trivial
  | ok _ =>
      simp only [done_and_then, on_value_ok]
      split
      · refine ⟨trivial, ?_⟩
        rintro fetched _ rfl
        cases fetched with
        | error raised => exact lost _ raised
        | ok _ =>
            refine ⟨trivial, ?_⟩
            rintro cancelled _ rfl
            cases cancelled with
            | error raised => exact lost _ raised
            | ok _ =>
                refine ⟨rfl, ?_⟩
                rintro _ _ ⟨clock, rfl, rfl⟩
                refine ⟨⟨⟨nofun, nofun, fun time same => same, nofun⟩, nofun⟩, ?_⟩
                rintro stored _ rfl
                cases stored with
                | error raised => exact lost _ raised
                | ok _ => trivial
      · trivial

/-! ## Protocols with journals -/

/-- A phase of the protocol, and what is in the journal. -/
abbrev JournalPhase (party : Party) : Type := Phase party × Journal

def journalled (job : Job) (party : Party) :
    Machine JobCall.Answer Raised (JournalPhase party) :=
  (jobProtocol job false party).both (journalMachine job.settings job.jobId)

/-- Only the worker waits before it looks at the clock. -/
def startJournals : Party → Journal
  | .worker => {}
  | .submission | .cancel _ => { begun := true }

theorem program_keeps_journal (job : Job) (party : Party) :
    Guarantees (journalMachine job.settings job.jobId) (fun _ _ => True) (startJournals party)
      (job.program party) := by
  cases party with
  | submission => exact submit_keeps_journal job
  | worker => exact work_keeps_journal job
  | cancel index => exact cancel_keeps_journal _ _ _

theorem start_journalled (job : Job) (clock : Nat) :
    Keeps (journalled job) (fun party phase outcome => JobEnded false party phase.1 outcome ∧ True)
      (fun party => (startPhases party, startJournals party)) (job.start clock) := fun party =>
  guarantees_both _ (start_keeps job clock false nofun party) (program_keeps_journal job party)

theorem journal_plays {lifetime : Lifetime} {world after : JobWorld} (journal : Journal)
    (request : JobCall) (reply : JobReply request)
    (step : jobStep lifetime world request reply after) :
    ∃ later, journalStep journal request reply later := by
  cases request
  case hgetall reader =>
      cases reader
      case sendCallback => exact ⟨_, _, step.1, rfl⟩
      all_goals exact ⟨journal, rfl⟩
  case time => exact ⟨_, _, step.1, rfl⟩
  case takeFromQueue => exact ⟨_, rfl⟩
  all_goals exact ⟨journal, rfl⟩

/-- The record after a call that may be a write. -/
def writtenBy (record : Option Key) : JobCall → Option Key
  | .hset fields => hset record fields
  | _ => record

theorem record_after {world after : JobWorld} (request : JobCall) (reply : JobReply request)
    (step : jobStep .persistent world request reply after) :
    after.clock = world.clock ∧
      after.record.map Key.fields = (writtenBy world.record request).map Key.fields := by
  cases request
  case hgetall reader =>
      obtain ⟨-, rfl⟩ := step
      cases reader <;> exact ⟨rfl, rfl⟩
  case expire seconds =>
      obtain ⟨-, rfl⟩ := step
      refine ⟨rfl, ?_⟩
      simp only [JobWorld.setExpiry, Lifetime.survive, expire]
      cases world.record <;> rfl
  case takeFromQueue =>
      obtain ⟨-, -, rfl⟩ := step
      exact ⟨rfl, rfl⟩
  case cancelJob =>
      simp only [jobStep] at step
      split at step
      · rw [step.2]
        exact ⟨rfl, rfl⟩
      · rw [step.2]
        exact ⟨rfl, rfl⟩
  case containersRun | wait | kill =>
      obtain ⟨-, rfl⟩ := step
      cases reply <;> exact ⟨rfl, rfl⟩
  all_goals
    obtain ⟨-, rfl⟩ := step
    exact ⟨rfl, rfl⟩

theorem cancel_writes {phase : CancelPhase} {fields : Fields}
    (admitted : cancelAdmits phase (.hset fields)) :
    fields = { cancelRequested := some true } ∨
      ∃ clock, fields = { status := some .cancelled, finishedAt := some clock } := by
  cases phase with
  | loaded found =>
      cases found with
      | none => cases admitted
      | some status => exact .inl admitted.2
  | won => exact .inr admitted
  | start | flagged _ | fetched | ended => cases admitted

theorem read_unchanged {journal later : Journal} (request : JobCall) (reply : JobReply request)
    (other : request ≠ .hgetall .sendCallback) (step : journalStep journal request reply later) :
    later.read = journal.read := by
  cases request
  case hgetall reader =>
      cases reader
      case sendCallback => exact absurd rfl other
      all_goals exact congrArg Journal.read step
  case time =>
      obtain ⟨clock, -, rfl⟩ := step
      rfl
  all_goals
    obtain rfl := step
    rfl

section Journals

variable {job : Job} {alive : Life → Prop}
  {kept : JobWorld → ((party : Party) → Phase party) → (Party → Journal) → Prop}

/-- The life cycle, and what is kept of the world, the phases and the journals. -/
def Together (alive : Life → Prop)
    (kept : JobWorld → ((party : Party) → Phase party) → (Party → Journal) → Prop)
    (world : JobWorld) (both : (party : Party) → JournalPhase party) : Prop :=
  Recorded world (fun party => (both party).1) ∧
    alive (lifeOf world fun party => (both party).1) ∧
    kept world (fun party => (both party).1) fun party => (both party).2

theorem update_sides (both : (party : Party) → JournalPhase party) (party : Party)
    (phase : Phase party) (journal : Journal) :
    ((fun other => (Function.update both party (phase, journal) other).1) =
        Function.update (fun other => (both other).1) party phase) ∧
      (fun other => (Function.update both party (phase, journal) other).2) =
        Function.update (fun other => (both other).2) party journal := by
  constructor
  · funext other
    by_cases same : other = party
    · subst same
      simp
    · simp [Function.update_of_ne same]
  · funext other
    by_cases same : other = party
    · subst same
      simp
    · simp [Function.update_of_ne same]

/-- Run rule: what every step that life cycle and journals admit keeps, every
interleaving keeps. -/
theorem journals_uphold
    (preserved : Preserved job false (fun _ _ => True) alive)
    (acts : ∀ world phases journals party request reply after phase journal,
      Recorded world phases → alive (lifeOf world phases) → kept world phases journals →
      (jobProtocol job false party).admits (phases party) request →
      journalAdmits job.settings job.jobId (journals party) request →
      jobStep .persistent world request reply after →
      (jobProtocol job false party).step (phases party) request reply phase →
      journalStep (journals party) request reply journal →
      kept after (Function.update phases party phase) (Function.update journals party journal))
    (drifts : ∀ world phases journals after, kept world phases journals →
      JobDrift .persistent world after → kept after phases journals) :
    Upholds (jobSurroundings .persistent) (journalled job) (Together alive kept) where
  act world both party request reply after together admitted step := by
    obtain ⟨recorded, living, keeps⟩ := together
    have free : Translates false (fun _ _ _ _ => True) (fun _ _ => True) :=
      ⟨fun _ _ _ _ _ _ _ _ => trivial, nofun, fun _ => trivial⟩
    obtain ⟨phase, event, follows, again, -, lives⟩ :=
      step_matched free party request reply recorded admitted.1 step trivial
    obtain ⟨journal, noted⟩ := journal_plays (both party).2 request reply step
    refine ⟨(phase, journal), ⟨follows, noted⟩, ?_⟩
    unfold Together
    rw [(update_sides both party phase journal).1, (update_sides both party phase journal).2]
    exact ⟨again, preserved _ event _ living trivial lives,
      acts world (fun other => (both other).1) (fun other => (both other).2) party request reply
        after phase journal recorded living keeps admitted.1 admitted.2 step follows noted⟩
  drift world both after together drifted := by
    obtain ⟨recorded, living, keeps⟩ := together
    obtain ⟨again, same | lives⟩ := drift_life job false drifted recorded
    · exact ⟨again, by rw [same]; exact living, drifts _ _ _ _ keeps drifted⟩
    · exact ⟨again, preserved _ _ _ living trivial lives, drifts _ _ _ _ keeps drifted⟩

end Journals

end PretextBuildServer.RunJournal
