import PretextBuildServer.RunJournal

/-!
# What the callback says is what a poll would find

The body of a callback is made from one read of the record. Nothing a receiver
is told can change after that read, except that a late cancel request may still
turn the status into `cancelled`: a client that polls instead sees the same.
-/

namespace PretextBuildServer.ReportedContents

open EffectProgram EffectProgram.Program InterleavedParties
open PretextBuildServer.ServerSettings PretextBuildServer.JobRecord PretextBuildServer.JobCalls
open PretextBuildServer.CompletionCallback PretextBuildServer.JobSystem
open PretextBuildServer.WorkerProtocol PretextBuildServer.RequestProtocols
open PretextBuildServer.LifeCycle PretextBuildServer.LifeCycleRefinement
open PretextBuildServer.SoundLives PretextBuildServer.RunJournal

set_option autoImplicit false

/-- A record that tells a receiver the same, but for a cancel that came late. -/
structure TellsSame (data shown : Fields) : Prop where
  kind : shown.kind = data.kind
  target : shown.target = data.target
  assets : shown.assets = data.assets
  exitCode : shown.exitCode = data.exitCode
  log : shown.log = data.log
  files : shown.files = data.files
  status : shown.status = data.status ∨ shown.status = some .cancelled

theorem tells_same_refl (data : Fields) : TellsSame data data :=
  ⟨rfl, rfl, rfl, rfl, rfl, rfl, .inl rfl⟩

theorem told_after_note {data shown fields : Fields} (same : TellsSame data shown)
    (notes : NotesCallback fields) : TellsSame data (shown.override fields) := by
  rw [notes]
  exact ⟨same.kind, same.target, same.assets, same.exitCode, same.log, same.files, same.status⟩

theorem payload_of_same (settings : Settings) (jobId : String) {data shown : Fields}
    (same : TellsSame data shown) (hasArtifact : Bool) :
    payloadOf settings jobId data hasArtifact =
      { payloadOf settings jobId shown hasArtifact with status := data.status } := by
  unfold payloadOf
  rw [same.kind, same.target, same.assets, same.exitCode, same.log, same.files]

/-- A life whose worker and endpoints are sound. -/
def Sound (host : Bool) (life : Life) : Prop := WorkerSound host life ∧ EndpointsSound life

theorem sound_preserved (job : Job) :
    Preserved job false (fun _ _ => True) (Sound job.settings.hostDataDir.isSome) :=
  fun _ _ _ sound _ step =>
    ⟨worker_sound_preserved sound.1 step, endpoints_sound_preserved sound.2 step⟩

theorem start_sound (host : Bool) (clock : Nat) : Sound host (lifeOf { clock } startPhases) :=
  ⟨start_worker_sound clock, start_endpoints_sound clock⟩

/-- Once the worker has read the record for the callback, that is what the record
tells. -/
structure ReadKept (world : JobWorld) (phases : (party : Party) → Phase party)
    (journals : Party → Journal) : Prop where
  reported : ∀ data, (journals .worker).read = some data →
    (phases .worker : WorkerPhase).reported = true
  tells : ∀ data, (journals .worker).read = some data →
    ∃ shown, world.record.map Key.fields = some shown ∧ TellsSame data shown

section Steps

variable {job : Job} {host : Bool} {world after : JobWorld}
  {phases : (party : Party) → Phase party} {journals : Party → Journal}

theorem read_kept_unread (unread : (journals .worker).read = none) :
    ReadKept world phases journals :=
  ⟨fun data read => by simp [unread] at read, fun data read => by simp [unread] at read⟩

theorem submitted_of_read (sound : Sound host (lifeOf world phases))
    (kept : ReadKept world phases journals) {data : Fields}
    (read : (journals .worker).read = some data) :
    phases .submission = SubmissionPhase.enqueued := by
  by_contra early
  have waiting := sound.2.waiting early
  have unreported := sound.1.unreported waiting
  have reported : (lifeOf world phases).worker.reported = true := kept.reported data read
  rw [unreported] at reported
  cases reported

theorem read_kept_by_submission (sound : Sound host (lifeOf world phases))
    (kept : ReadKept world phases journals) (request : JobCall) (reply : JobReply request)
    (admitted : (jobProtocol job false .submission).admits (phases .submission) request)
    (step : jobStep .persistent world request reply after) (phase : SubmissionPhase)
    (journal : Journal) :
    ReadKept after (Function.update phases .submission phase)
      (Function.update journals .submission journal) := by
  obtain ⟨-, record⟩ := record_after request reply step
  refine ⟨fun data read => ?_, fun data read => ?_⟩
  · exact kept.reported data (by simpa using read)
  · have readBefore : (journals .worker).read = some data := by simpa using read
    have enqueued := submitted_of_read sound kept readBefore
    cases request
    case hset fields =>
        obtain ⟨fresh, -⟩ := admitted
        rw [enqueued] at fresh
        cases fresh
    all_goals
      rw [record]
      exact kept.tells data readBefore

theorem read_kept_by_cancel (kept : ReadKept world phases journals) (index : Nat)
    (request : JobCall) (reply : JobReply request)
    (admitted : cancelAdmits (phases (.cancel index)) request)
    (step : jobStep .persistent world request reply after) (phase : CancelPhase)
    (journal : Journal) :
    ReadKept after (Function.update phases (.cancel index) phase)
      (Function.update journals (.cancel index) journal) := by
  obtain ⟨-, record⟩ := record_after request reply step
  refine ⟨fun data read => ?_, fun data read => ?_⟩
  · exact kept.reported data (by simpa using read)
  · obtain ⟨shown, found, same⟩ := kept.tells data (by simpa using read)
    cases request
    case hset fields =>
        obtain ⟨key, keyed, rfl⟩ := Option.map_eq_some_iff.mp found
        rw [keyed] at record
        refine ⟨_, record, ?_⟩
        rcases cancel_writes admitted with rfl | ⟨clock, rfl⟩
        · exact ⟨same.kind, same.target, same.assets, same.exitCode, same.log, same.files,
            same.status⟩
        · exact ⟨same.kind, same.target, same.assets, same.exitCode, same.log, same.files,
            .inr rfl⟩
    all_goals
      rw [record]
      exact ⟨shown, found, same⟩

theorem read_kept_by_worker (kept : ReadKept world phases journals)
    (request : JobCall) (reply : JobReply request)
    (admitted : workerAdmits host false (phases .worker) request)
    (noted : journalAdmits job.settings job.jobId (journals .worker) request)
    (step : jobStep .persistent world request reply after) {phase : WorkerPhase}
    {journal : Journal} (goes : workerStep false (phases .worker) request reply phase)
    (writes : journalStep (journals .worker) request reply journal) :
    ReadKept after (Function.update phases .worker phase)
      (Function.update journals .worker journal) := by
  obtain ⟨-, record⟩ := record_after request reply step
  by_cases reads : request = .hgetall .sendCallback
  · subst reads
    obtain ⟨found, rfl, rfl⟩ := goes
    obtain ⟨answered, -⟩ := step
    obtain ⟨again, same, rfl⟩ := writes
    cases same
    have foundIs : found = world.record.map Key.fields := Except.ok.inj answered
    have unread : (journals .worker).read = none := by
      cases read : (journals .worker).read with
      | none => rfl
      | some data =>
          have reported := kept.reported data read
          rw [admitted.1] at reported
          cases reported
    refine ⟨fun data read => by simp, fun data read => ?_⟩
    have found' : found = some data := by simpa [unread] using read
    refine ⟨data, ?_, tells_same_refl data⟩
    rw [record]
    exact foundIs.symm.trans found'
  · have unread := read_unchanged request reply reads writes
    refine ⟨fun data read => ?_, fun data read => ?_⟩
    · have before := kept.reported data (by simpa [unread] using read)
      rw [Function.update_self]
      cases request
      case hgetall reader =>
          obtain ⟨found, -, rfl⟩ := goes
          cases reader <;> first | exact before | rfl
      case hset fields =>
          obtain ⟨-, rfl⟩ := goes
          unfold afterWrite
          split <;> exact before
      case takeFromQueue =>
          obtain ⟨-, rfl⟩ := goes
          exact before
      all_goals
        obtain ⟨-, rfl⟩ := goes
        exact before
    · have readBefore : (journals .worker).read = some data := by simpa [unread] using read
      obtain ⟨shown, found, same⟩ := kept.tells data readBefore
      cases request
      case hset fields =>
          obtain ⟨key, keyed, rfl⟩ := Option.map_eq_some_iff.mp found
          rw [keyed] at record
          exact ⟨_, record, told_after_note same (noted.2 (by simp [readBefore]))⟩
      all_goals
        rw [record]
        exact ⟨shown, found, same⟩

end Steps

/-! ## Runs -/

section Runs

variable {job : Job}

theorem read_kept_by_step (world : JobWorld) (phases : (party : Party) → Phase party)
    (journals : Party → Journal) (party : Party) (request : JobCall) (reply : JobReply request)
    (after : JobWorld) (phase : Phase party) (journal : Journal)
    (sound : Sound job.settings.hostDataDir.isSome (lifeOf world phases))
    (kept : ReadKept world phases journals)
    (admitted : (jobProtocol job false party).admits (phases party) request)
    (noted : journalAdmits job.settings job.jobId (journals party) request)
    (step : jobStep .persistent world request reply after)
    (goes : (jobProtocol job false party).step (phases party) request reply phase)
    (writes : journalStep (journals party) request reply journal) :
    ReadKept after (Function.update phases party phase) (Function.update journals party journal) := by
  cases party with
  | submission => exact read_kept_by_submission sound kept request reply admitted step phase journal
  | worker => exact read_kept_by_worker kept request reply admitted noted step goes writes
  | cancel index => exact read_kept_by_cancel kept index request reply admitted step phase journal

theorem drift_record {world after : JobWorld} (drifts : JobDrift .persistent world after) :
    after.record = world.record := by
  cases drifts <;> rfl

theorem read_kept_upheld :
    Upholds (jobSurroundings .persistent) (journalled job)
      (Together (Sound job.settings.hostDataDir.isSome) ReadKept) :=
  journals_uphold (sound_preserved job)
    (fun world phases journals party request reply after phase journal _ sound kept admitted noted
      step goes writes => read_kept_by_step world phases journals party request reply after phase
        journal sound kept admitted noted step goes writes)
    fun world phases journals after kept drifts => by
      refine ⟨kept.reported, ?_⟩
      rw [drift_record drifts]
      exact kept.tells

/-- The same, for a record that has been read. -/
def ReadIs (data : Fields) (world : JobWorld) (phases : (party : Party) → Phase party)
    (journals : Party → Journal) : Prop :=
  ReadKept world phases journals ∧ (journals .worker).read = some data

theorem read_stays {data : Fields} {world : JobWorld} {phases : (party : Party) → Phase party}
    {journals : Party → Journal} {party : Party} (request : JobCall) (reply : JobReply request)
    {journal : Journal} (kept : ReadKept world phases journals)
    (read : (journals .worker).read = some data)
    (admitted : (jobProtocol job false party).admits (phases party) request)
    (writes : journalStep (journals party) request reply journal) :
    (Function.update journals party journal .worker).read = some data := by
  cases party with
  | submission => simpa using read
  | cancel index => simpa using read
  | worker =>
      rw [Function.update_self, read_unchanged request reply ?_ writes]
      · exact read
      · rintro rfl
        have reported := kept.reported data read
        rw [admitted.1] at reported
        cases reported

theorem read_upheld (data : Fields) :
    Upholds (jobSurroundings .persistent) (journalled job)
      (Together (Sound job.settings.hostDataDir.isSome) (ReadIs data)) :=
  journals_uphold (sound_preserved job)
    (fun world phases journals party request reply after phase journal _ sound kept admitted noted
      step goes writes =>
        ⟨read_kept_by_step world phases journals party request reply after phase journal sound
          kept.1 admitted noted step goes writes,
        read_stays request reply kept.1 kept.2 admitted writes⟩)
    fun world phases journals after kept drifts => by
      refine ⟨⟨kept.1.reported, ?_⟩, kept.2⟩
      rw [drift_record drifts]
      exact kept.1.tells

theorem log_tail_is_tail (limit : Int) (log : String) :
    ∃ skipped, log = skipped ++ (logTail limit log).1 ∧
      ((logTail limit log).2 = false → skipped = "") := by
  unfold logTail
  dsimp only
  split
  · rename_i truncated
    refine ⟨String.ofList (log.toList.take (log.length - limit.toNat)), ?_, ?_⟩
    · rw [← String.ofList_append, List.take_append_drop, String.ofList_toList]
    · intro whole
      rw [truncated] at whole
      cases whole
  · exact ⟨"", by simp, fun _ => rfl⟩

/-- A body that tells what a record tells: everything in it but the status is made
of the record, the end of the log included. -/
structure AgreesWith (settings : Settings) (jobId : String) (body : Payload) (shown : Fields) :
    Prop where
  contents : ∃ hasArtifact,
    body = { payloadOf settings jobId shown hasArtifact with status := body.status }
  status : shown.status = body.status ∨ shown.status = some .cancelled
  log : ∃ skipped, shown.log.getD "" = skipped ++ body.logTail ∧
    (body.logTruncated = false → skipped = "")

theorem agrees_of_same (settings : Settings) (jobId : String) {data shown : Fields}
    (same : TellsSame data shown) (hasArtifact : Bool) :
    AgreesWith settings jobId (payloadOf settings jobId data hasArtifact) shown := by
  refine ⟨⟨hasArtifact, payload_of_same settings jobId same hasArtifact⟩, same.status, ?_⟩
  rw [same.log]
  exact log_tail_is_tail settings.callbackLogTailChars (data.log.getD "")

/-- Whenever the worker is about to post, the body it posts, and its signature,
agree with the record as it is then and as it will ever be. -/
theorem callback_agrees_with_polling (job : Job) (clock : Nat) (reached : JobConfiguration)
    (reaches : Reaches (jobSurroundings .persistent) (job.start clock) reached)
    (url : String) (body : Payload) (signature : Option BodySignature) (timeout : Int)
    (posting : ∃ next, reached.rest .worker = .call (.post url body signature timeout) next)
    (later : JobConfiguration) (further : Reaches (jobSurroundings .persistent) reached later) :
    signature = sign job.settings body ∧
      ∃ key, later.world.record = some key ∧
        AgreesWith job.settings job.jobId body key.fields := by
  obtain ⟨both, together, keeps⟩ := keeps_reaches read_kept_upheld
    (fun party => (startPhases party, startJournals party))
    ⟨start_recorded clock, start_sound _ clock, read_kept_unread rfl⟩ (start_journalled job clock)
    reaches
  obtain ⟨next, posting⟩ := posting
  have owed := keeps .worker
  rw [posting] at owed
  obtain ⟨data, hasArtifact, read, rfl, signed⟩ := owed.1.2
  obtain ⟨recorded, sound, kept⟩ := together
  obtain ⟨after, ⟨-, -, still, isRead⟩, -⟩ := keeps_reaches (read_upheld data) both
    ⟨recorded, sound, kept, read⟩ keeps further
  obtain ⟨shown, found, same⟩ := still.tells data isRead
  obtain ⟨key, keyed, rfl⟩ := Option.map_eq_some_iff.mp found
  exact ⟨signed, key, keyed, agrees_of_same job.settings job.jobId same hasArtifact⟩

end Runs

def posts {Result : Type} : JobProgram Result →
    Option (String × Payload × Option BodySignature × Int)
  | .call (.post url body signature timeout) _ => some (url, body, signature, timeout)
  | _ => none

theorem posting_of_posts {Result : Type} {program : JobProgram Result} {url : String}
    {body : Payload} {signature : Option BodySignature} {timeout : Int}
    (found : posts program = some (url, body, signature, timeout)) :
    ∃ next, program = .call (.post url body signature timeout) next := by
  unfold posts at found
  split at found
  · cases found
    exact ⟨_, rfl⟩
  · cases found

/-! ## A signed callback, and a cancel that comes late -/

/-- Four characters of its log are sent, with a signature. -/
def signedBuild : Job :=
  { announcedBuild with
    settings := { announcedBuild.settings with
      callbackSecret := "secret"
      callbackLogTailChars := 4 } }

/-- The container has logged a line. -/
def logging (world : JobWorld) : (request : JobCall) → JobReply request × JobWorld
  | .logs => (.ok "built web\n", world)
  | request => obliging .persistent world request

theorem logging_step (world : JobWorld) (request : JobCall) (turn : canTurn world request = true) :
    jobStep .persistent world request (logging world request).1 (logging world request).2 := by
  cases request
  case logs => exact ⟨nofun, rfl⟩
  all_goals exact obliging_step .persistent world _ turn

/-- The body for a build that has succeeded; no archive is found. -/
def successBody : Payload where
  jobId := "job"
  kind := .build
  status := some .success
  target := some "web"
  exitCode := some 0
  logTail := "web\n"
  logTruncated := true
  logUrl := "/builds/job/log"
  assets := none
  files := none
  artifactUrl := none

/-- A cancel request reads `queued`, and the worker runs the build up to its callback. -/
def aboutToPost : JobConfiguration :=
  play logging (fun world _ => canTurn world)
    (List.replicate 10 .submission ++ [.cancel 0] ++ List.replicate 20 .worker) (signedBuild.start 0)

/-- Then the callback is posted, and the cancel request goes on. -/
def cancelledLate : JobConfiguration :=
  play logging (fun world _ => canTurn world)
    (List.replicate 10 .worker ++ List.replicate 5 (.cancel 0)) aboutToPost

/-- In the end the record still tells what the callback has told, but for the status. -/
theorem signed_success_agrees_with_polling :
    cancelledLate.world.status = some .cancelled ∧
      some { secret := "secret", body := successBody } = sign signedBuild.settings successBody ∧
      ∃ key, cancelledLate.world.record = some key ∧
        AgreesWith signedBuild.settings signedBuild.jobId successBody key.fields := by
  have possible : ∀ world (_ : Party) request, canTurn world request = true →
      jobStep .persistent world request (logging world request).1 (logging world request).2 :=
    fun world _ => logging_step world
  refine ⟨by decide +kernel, ?_⟩
  exact callback_agrees_with_polling signedBuild 0 aboutToPost
    (play_reaches _ _ (jobSurroundings .persistent) possible _ _) "https://host.example/done"
    successBody _ 10 (posting_of_posts (by decide +kernel)) cancelledLate
    (play_reaches _ _ (jobSurroundings .persistent) possible _ _)

end PretextBuildServer.ReportedContents
