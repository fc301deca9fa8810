import PretextBuildServer.ArchiveSystem
import PretextBuildServer.RunCalls
import PretextBuildServer.StatusMoves

/-!
# When the archive of a finished job is final

The worker writes the archive between `running` and its terminal write, and an
archive it could not finish is never followed by one. So the archive is as
final as the status: the two are lost together when a cancel request overwrites
the status of a job that is running.
-/

namespace PretextBuildServer.ArtifactFinality

open EffectProgram EffectProgram.Program InterleavedParties
open PretextBuildServer.ServerSettings PretextBuildServer.JobRecord PretextBuildServer.JobCalls
open PretextBuildServer.StoreCalls PretextBuildServer.CompletionCallback
open PretextBuildServer.BuildWorker PretextBuildServer.JobSystem
open PretextBuildServer.WorkerProtocol PretextBuildServer.WorkerRun PretextBuildServer.RunCalls
open PretextBuildServer.RequestProtocols PretextBuildServer.LifeCycle
open PretextBuildServer.LifeCycleRefinement PretextBuildServer.SoundLives
open PretextBuildServer.StatusMoves PretextBuildServer.ArchiveSystem

set_option autoImplicit false

/-! ## The protocol of packing, call by call -/

/-- The phase in which a party may write the archive. -/
def Packs : (party : Party) → Phase party → Prop
  | .worker, phase => phase.stage = .running
  | _, _ => False

/-- The protocol of the job, with a mark that is set when zipping fails: the
status is not written from then on. -/
def packProtocol (job : Job) (party : Party) :
    Machine JobCall.Answer Raised (Phase party × Bool) where
  admits phase request := (jobProtocol job false party).admits phase.1 request ∧
    match request with
    | .zipDir .. => Packs party phase.1
    | .hset fields => phase.2 = true → fields.status = none
    | _ => True
  step phase request reply after :=
    (jobProtocol job false party).step phase.1 request reply after.1 ∧
      after.2 = match request, reply with
        | .zipDir .., .error _ => true
        | _, _ => phase.2

/-- The calls that neither pack nor, once packing has failed, write a status. -/
def unpacked (spoilt : Bool) : JobCall → Prop
  | .zipDir .. => False
  | .hset fields => spoilt = true → fields.status = none
  | _ => True

section Alongside

variable {job : Job} {party : Party}

theorem unpacked_guarantees {Result : Type} {post : Phase party → Except Raised Result → Prop}
    {phase : Phase party} {spoilt : Bool} (program : JobProgram Result)
    (holds : Guarantees (jobProtocol job false party) post phase program)
    (only : MakesOnly (unpacked spoilt) program) :
    Guarantees (packProtocol job party)
      (fun after outcome => post after.1 outcome ∧ after.2 = spoilt) (phase, spoilt) program := by
  induction program generalizing phase with
  | done outcome => exact ⟨holds, rfl⟩
  | call request next induction =>
      refine ⟨⟨holds.1, ?_⟩, ?_⟩
      · have allowed := only.1
        cases request <;> trivial
      · rintro reply ⟨after, mark⟩ ⟨step, marked⟩
        obtain rfl : mark = spoilt := by
          have allowed := only.1
          cases request <;> first | exact marked | cases allowed
        exact induction reply (holds.2 reply after step) (only.2 reply)

end Alongside

section Worker

variable {job : Job} {phase : WorkerPhase}

theorem worker_unpacked {Result : Type} {post : WorkerPhase → Except Raised Result → Prop}
    {spoilt : Bool} (program : JobProgram Result)
    (holds : Guarantees (workerProtocol job.settings.hostDataDir.isSome false) post phase program)
    (only : MakesOnly (unpacked spoilt) program) :
    Guarantees (packProtocol job .worker)
      (fun after outcome => post after.1 outcome ∧ after.2 = spoilt) (phase, spoilt) program :=
  @unpacked_guarantees job .worker _ _ _ _ program holds only

theorem unpacked_of_looking (request : JobCall) (looks : looking request) :
    unpacked false request := by
  cases request <;> trivial

theorem unpacked_of_harvesting (request : JobCall) (harvests : harvesting request) :
    unpacked false request := by
  cases request <;> trivial

theorem unpacked_of_preparing (request : JobCall) (prepares : preparing request) :
    unpacked false request := by
  cases request <;> trivial

theorem unpacked_of_watching (request : JobCall) (watches : watching request) :
    unpacked false request := by
  cases request <;> first | trivial | exact fun spoilt => absurd spoilt Bool.false_ne_true

theorem unpacked_of_settling (request : JobCall) (settles : settling request) :
    unpacked false request :=
  unpacked_of_watching request (watching_of_settling request settles)

theorem unpacked_of_reporting (spoilt : Bool) (request : JobCall) (reports : reporting request) :
    unpacked spoilt request := by
  cases request <;> first | trivial | exact fun _ => reports

theorem supervise_unpacked (settings : Settings) (kind : Kind) (sandbox : Sandbox)
    (kwargs : RunKwargs) :
    MakesOnly (unpacked false) (superviseContainer settings kind sandbox kwargs) := by
  refine ⟨trivial, fun started => ?_⟩
  cases started with
  | error raised => exact makes_only_mono _ unpacked_of_watching (image_missing_makes settings raised)
  | ok _ =>
      apply makes_only_and_then _ _
        (makes_only_mono _ unpacked_of_watching (watch_makes settings kind sandbox))
      intro outcome
      refine ⟨trivial, fun removed => ?_⟩
      cases removed with
      | ok _ => trivial
      | error raised =>
          simp only [done_and_then, on_failure_error]
          split <;> trivial

theorem undisturbed_unpacked {Result : Type} (first : JobProgram Result)
    (next : Result → JobProgram Unit) (begun : phase.stage ≠ .waiting)
    (unreported : phase.reported = false)
    (part : Guarantees (workerProtocol job.settings.hostDataDir.isSome false) (Undisturbed false phase) phase first)
    (only : MakesOnly (unpacked false) first)
    (rest : ∀ value, Guarantees (packProtocol job .worker)
      (fun after outcome => RunEnded false after.1 outcome) (phase, false) (next value)) :
    Guarantees (packProtocol job .worker) (fun after outcome => RunEnded false after.1 outcome)
      (phase, false) (first >>= next) := by
  apply guarantees_seq _ _ _ (worker_unpacked first part only)
  rintro ⟨after, mark⟩ (raised | value) ⟨⟨same, -⟩, unspoilt⟩
  · simp only at same unspoilt
    subst same unspoilt
    exact ⟨rfl, unreported, begun⟩
  · simp only at same unspoilt
    subst same unspoilt
    exact rest value

theorem zip_packs (outputDir zipPath : Path) (skip : Bool) (running : phase.stage = .running) :
    Guarantees (packProtocol job .worker)
      (fun after outcome => after.1 = phase ∧ ∀ names, outcome = .ok names → after.2 = false)
      (phase, false) (jobCall (.zipDir outputDir zipPath skip)) := by
  refine ⟨⟨trivial, running⟩, ?_⟩
  rintro (raised | names) ⟨after, mark⟩ ⟨⟨-, same⟩, marked⟩
  · exact ⟨same, nofun⟩
  · exact ⟨same, fun _ _ => marked⟩

theorem zip_output_packs (outputDir zipPath : Path) (sandbox : Sandbox) (listFiles hasOutput : Bool)
    (running : phase.stage = .running) :
    Guarantees (packProtocol job .worker)
      (fun after outcome => after.1 = phase ∧
        ∀ fields, outcome = .ok fields → after.2 = false ∧ LeavesOthers fields)
      (phase, false) (zipOutput outputDir zipPath sandbox listFiles hasOutput) := by
  unfold zipOutput
  split
  · apply guarantees_seq _ _ _ (zip_packs outputDir zipPath _ running)
    rintro after (raised | names) ⟨same, marked⟩
    · rw [on_value_error, guarantees_done]
      exact ⟨same, by simp⟩
    · rw [on_value_ok, pure_is_done, guarantees_done]
      refine ⟨same, ?_⟩
      rintro fields ⟨⟩
      exact ⟨marked names rfl, rfl, rfl, rfl, rfl, rfl⟩
  · refine ⟨rfl, ?_⟩
    rintro fields ⟨⟩
    exact ⟨rfl, rfl, rfl, rfl, rfl, rfl⟩

theorem package_packs (settings : Settings) (jobId : String) (kind : Kind) (sandbox : Sandbox)
    (listFiles : Bool) (projectId : Option String) (logs : String) (exitCode : Int)
    (running : phase.stage = .running) (unseen : phase.seen = false)
    (unreported : phase.reported = false) :
    Guarantees (packProtocol job .worker) (fun after outcome => RunEnded false after.1 outcome)
      (phase, false)
      (packageOutput settings jobId kind sandbox listFiles projectId logs exitCode) := by
  have begun : phase.stage ≠ .waiting := by simp [running]
  refine undisturbed_unpacked _ _ begun unreported (present_output_follows _)
    (makes_only_mono _ unpacked_of_looking (present_makes _)) fun hasOutput => ?_
  apply guarantees_seq _ _ _ (zip_output_packs _ _ sandbox listFiles hasOutput running)
  rintro ⟨after, mark⟩ (raised | zipped) ⟨same, zippedWell⟩
  · simp only at same
    subst same
    exact ⟨rfl, unreported, begun⟩
  obtain ⟨unspoilt, others⟩ := zippedWell zipped rfl
  simp only at same unspoilt
  subst same unspoilt
  apply guarantees_seq _ _ _ (worker_unpacked _
    (harvest_follows kind projectId _ exitCode zipped others)
    (makes_only_mono _ unpacked_of_harvesting (harvest_makes kind projectId _ exitCode zipped)))
  rintro ⟨after, mark⟩ (raised | extra) ⟨⟨⟨same, -⟩, left⟩, unspoilt⟩
  · simp only at same
    subst same
    exact ⟨rfl, unreported, begun⟩
  simp only at same unspoilt
  subst same unspoilt
  obtain ⟨status, ended, fields⟩ := ended_fields_settle kind
    ("/".intercalate sandbox.outputSubdir) hasOutput logs exitCode extra (left extra rfl)
  refine guarantees_mono _ _ ?_ (worker_unpacked _ (settle_guarantees status _
    (fun clock => (fields clock).1) unreported ?_ (fun clock => (fields clock).2.1)
    fun clock => (fields clock).2.2) (makes_only_mono _ unpacked_of_settling (settle_makes _)))
  · rintro ⟨later, mark⟩ _ ⟨⟨rfl, settled⟩, -⟩
    exact settled
  · simpa [settles, running, unseen] using ended

theorem run_packs (settings : Settings) (jobId : String) (kind : Kind) (command : String)
    (sandbox : Sandbox) (listFiles : Bool)
    (hostSet : job.settings.hostDataDir.isSome = settings.hostDataDir.isSome)
    (fresh : phase.stage = .taken) (unreported : phase.reported = false) :
    Guarantees (packProtocol job .worker) (fun after outcome => RunEnded false after.1 outcome)
      (phase, false) (runSandboxed settings jobId kind command sandbox listFiles) := by
  have settle : ∀ {phase : WorkerPhase} (status : Status) (fields : Nat → Fields),
      (∀ clock, (fields clock).status = some status) → phase.reported = false →
      settles job.settings.hostDataDir.isSome false phase status →
      (∀ clock, (fields clock).finishedAt.isSome = true) →
      (∀ clock, LeavesOthers (fields clock)) →
      Guarantees (packProtocol job .worker) (fun after outcome => RunEnded false after.1 outcome)
        (phase, false) (now >>= fun clock => storeUpdate (fields clock)) := by
    intro phase status fields writes unreported legal finished others
    refine guarantees_mono _ _ ?_ (worker_unpacked _
      (settle_guarantees status fields writes unreported legal finished others)
      (makes_only_mono _ unpacked_of_settling (settle_makes fields)))
    rintro ⟨after, mark⟩ _ ⟨⟨rfl, settled⟩, -⟩
    exact settled
  unfold runSandboxed
  split
  · rename_i unset
    refine settle .failed _ (fun _ => rfl) unreported ?_ (fun _ => rfl) fun _ =>
      ⟨rfl, rfl, rfl, rfl, rfl⟩
    simp [settles, fresh, hostSet, unset]
  · rename_i hostDataDir set
    refine ⟨⟨⟨by simp [hostSet, set], fresh⟩, trivial⟩, ?_⟩
    rintro _ ⟨_, mark⟩ ⟨⟨record, rfl, same⟩, unspoilt⟩
    simp only at same unspoilt
    subst same unspoilt
    simp only [done_and_then, on_value_ok]
    split
    · rename_i flagged
      refine settle .cancelled _ (fun _ => rfl) unreported ?_ (fun _ => rfl) fun _ =>
        ⟨rfl, rfl, rfl, rfl, rfl⟩
      simp [settles, flagged]
    · rename_i unflagged
      have unseen : (record.getD {}).cancelled = false := by simpa using unflagged
      have running : Guarantees (workerProtocol job.settings.hostDataDir.isSome false)
          (fun after outcome => outcome = .ok () ∧
            after = { phase with stage := .running, seen := false })
          { phase with stage := .looked, seen := (record.getD {}).cancelled }
          (now >>= fun clock =>
            storeUpdate { status := some .running, startedAt := some clock }) := by
        refine stamped_update_guarantees _ (fun clock => ?_) fun clock => ?_
        · exact ⟨⟨rfl, rfl, rfl, rfl, rfl⟩, unreported, rfl, unseen, rfl⟩
        · simp [afterWrite, unseen]
      rw [← bind_assoc]
      apply guarantees_seq _ _ _ (worker_unpacked _ running
        (makes_only_mono _ unpacked_of_settling (settle_makes _)))
      rintro ⟨after, mark⟩ _ ⟨⟨rfl, same⟩, unspoilt⟩
      simp only at same unspoilt
      subst same unspoilt
      simp only [on_value_ok]
      have begun : Stage.running ≠ .waiting := by simp
      refine undisturbed_unpacked _ _ begun unreported
        (undisturbed_call _ rfl fun _ => id) ⟨trivial, fun _ => trivial⟩ fun _ => ?_
      refine undisturbed_unpacked _ _ begun unreported (volumes_follow ..)
        (makes_only_mono _ unpacked_of_preparing (volumes_make ..)) fun volumes => ?_
      refine undisturbed_unpacked _ _ begun unreported
        (undisturbed_call _ rfl fun _ => id) ⟨trivial, fun _ => trivial⟩ fun _ => ?_
      have supervised := @supervise_follows job.settings.hostDataDir.isSome false
        { stage := .running, reported := phase.reported } settings kind sandbox
        (runKwargs settings command sandbox volumes) rfl rfl unreported (by simp)
      apply guarantees_seq _ _ _ (worker_unpacked _ supervised
        (supervise_unpacked settings kind sandbox _))
      rintro ⟨after, mark⟩ (raised | (_ | ⟨logs, exitCode⟩)) ⟨ended, unspoilt⟩
      · exact ended
      · exact ended
      · simp only [PartEnded] at ended
        simp only at unspoilt
        subst unspoilt
        obtain rfl := ended
        exact package_packs settings jobId kind sandbox listFiles _ logs exitCode rfl rfl
          unreported

theorem job_packs (settings : Settings) (jobId : String) (kind : Kind) (command : String)
    (sandbox : Sandbox) (listFiles : Bool)
    (hostSet : job.settings.hostDataDir.isSome = settings.hostDataDir.isSome)
    (fresh : phase.stage = .taken) (unreported : phase.reported = false) :
    Guarantees (packProtocol job .worker)
      (fun after _ => after.1.reported = true ∧ after.1.stage ≠ .waiting) (phase, false)
      (runJob settings jobId kind command sandbox listFiles) := by
  apply guarantees_seq _ _ _
    (run_packs settings jobId kind command sandbox listFiles hostSet fresh unreported)
  rintro ⟨after, spoilt⟩ outcome ran
  have state : after.reported = false ∧ after.stage ≠ .waiting := by
    rcases outcome with raised | _
    · exact ran.2
    · obtain ⟨unreported, status, settled⟩ := ran
      simp only at settled
      exact ⟨unreported, by simp [settled]⟩
  apply guarantees_seq _ _ _ (worker_unpacked _ (cleanup_follows settings jobId state.2 state.1)
    (makes_only_mono _ (unpacked_of_reporting spoilt) (cleanup_makes settings jobId)))
  rintro ⟨later, mark⟩ (raised | _) ⟨same, -⟩
  · simp only at same
    subst same
    exact ⟨rfl, state.2⟩
  · simp only at same
    subst same
    exact ⟨rfl, state.2⟩

theorem work_packs (job : Job) :
    Guarantees (packProtocol job .worker) (fun _ _ => True) ({ stage := .waiting }, false)
      job.work := by
  refine ⟨⟨rfl, trivial⟩, ?_⟩
  rintro _ ⟨_, spoilt⟩ ⟨⟨rfl, same⟩, unspoilt⟩
  simp only at same unspoilt
  subst same unspoilt
  simp only [done_and_then, on_value_ok]
  have ran : Guarantees (packProtocol job .worker)
      (fun after _ => after.1.reported = true ∧ after.1.stage ≠ .waiting)
      ({ stage := .taken }, false) job.runFunction := by
    unfold Job.runFunction
    split
    · exact job_packs _ _ _ _ _ _ rfl rfl rfl
    · exact job_packs _ _ _ _ _ _ rfl rfl rfl
  apply guarantees_seq _ _ _ ran
  intro after _ ended
  exact ⟨⟨ended, trivial⟩, fun _ _ _ => trivial⟩

end Worker

theorem unpacked_of_submitting (request : JobCall) (submits : submitting (fun _ => True) request) :
    unpacked false request := by
  cases request <;> first | trivial | exact fun spoilt => absurd spoilt Bool.false_ne_true

theorem unpacked_of_cancelling (request : JobCall) (cancels : cancelling request) :
    unpacked false request := by
  cases request <;> first | trivial | exact fun spoilt => absurd spoilt Bool.false_ne_true

theorem party_packs (job : Job) (party : Party) :
    Guarantees (packProtocol job party) (fun _ _ => True) (startPhases party, false)
      (job.program party) := by
  cases party with
  | submission =>
      exact guarantees_mono _ _ (fun _ _ _ => trivial) (@unpacked_guarantees job .submission _ _ _ _ _
        (submit_follows job) (makes_only_mono _ unpacked_of_submitting (submit_makes job)))
  | worker => exact work_packs job
  | cancel index =>
      exact guarantees_mono _ _ (fun _ _ _ => trivial)
        (@unpacked_guarantees job (.cancel index) _ _ _ _ _ (cancel_follows (job.endpoint index))
          (makes_only_mono _ unpacked_of_cancelling (cancel_makes _)))

/-! ## The protocol of packing, step by step -/

def markAfter (mark : Bool) (request : JobCall) (reply : JobReply request) : Bool :=
  match request, reply with
  | .zipDir .., .ok _ => false
  | _, _ => mark

/-- The mark is set from the opening of the archive until it is complete. -/
def zipProtocol (job : Job) (party : Party) :
    Machine ArchiveCall.Answer Raised (Phase party × Bool) where
  admits phase
    | .openZip _ => Packs party phase.1
    | .job request => (packProtocol job party).admits phase request
  step phase
    | .openZip _, reply, after => Foreign reply ∧ after.1 = phase.1 ∧
        after.2 = match reply with
          | .ok _ => true
          | .error _ => phase.2
    | .job request, reply, after =>
        (jobProtocol job false party).step phase.1 request reply after.1 ∧
          after.2 = markAfter phase.2 request reply

/-- Between calls an incomplete archive is one zipping has failed on. -/
def Incomplete {party : Party} (fine coarse : Phase party × Bool) : Prop :=
  fine.1 = coarse.1 ∧ (fine.2 = true → coarse.2 = true)

theorem zip_fails (job : Job) (party : Party) {phase : Phase party} (packs : Packs party phase)
    {srcDir zipPath : Path} {skip : Bool} (raised : Raised)
    (foreign : Foreign (.error raised : Except Raised Unit)) :
    (jobProtocol job false party).step phase (.zipDir srcDir zipPath skip)
    (.error raised) phase := by
  cases party with
  | submission | cancel _ => cases packs
  | worker =>
      refine ⟨⟨?_, nofun⟩, rfl⟩
      rintro _ ⟨⟩
      exact foreign raised rfl

theorem archive_call_plays (job : Job) (party : Party) :
    Plays archiveCall (packProtocol job party) (zipProtocol job party) Incomplete := by
  rintro ⟨phase, incomplete⟩ ⟨coarse, spoilt⟩ request ⟨same, known⟩ ⟨admitted, packs⟩
  obtain rfl : phase = coarse := same
  cases request
  case zipDir srcDir zipPath skip =>
      refine ⟨packs, ?_⟩
      rintro opened ⟨still, mark⟩ ⟨foreign, same, marked⟩
      obtain rfl : phase = still := same.symm
      cases opened with
      | error raised =>
          refine ⟨(phase, true), ⟨?_, rfl⟩, rfl, fun _ => rfl⟩
          exact zip_fails job party packs raised foreign
      | ok _ =>
          refine ⟨⟨admitted, packs⟩, ?_⟩
          rintro (raised | names) ⟨after, mark⟩ ⟨step, marked⟩
          · exact ⟨(after, true), ⟨step, rfl⟩, rfl, fun _ => rfl⟩
          · refine ⟨(after, spoilt), ⟨step, rfl⟩, rfl, fun still => ?_⟩
            rw [marked] at still
            cases still
  case hset fields =>
      refine ⟨⟨admitted, fun still => packs (known still)⟩, ?_⟩
      rintro reply ⟨after, mark⟩ ⟨step, rfl⟩
      exact ⟨(after, spoilt), ⟨step, rfl⟩, rfl, known⟩
  all_goals
    refine ⟨⟨admitted, trivial⟩, ?_⟩
    rintro reply ⟨after, mark⟩ ⟨step, rfl⟩
    exact ⟨(after, spoilt), ⟨step, rfl⟩, rfl, known⟩

/-! ## The archive next to the status -/

/-- An archive that is being written, or has not been finished, is the one of a
job whose worker is at `running`. -/
structure ArchiveSound (job : Job) (world : ArchiveWorld)
    (phases : (party : Party) → Phase party × Bool) : Prop where
  recorded : Recorded world.job fun party => (phases party).1
  orderly : Orderly job.settings.hostDataDir.isSome (lifeOf world.job fun party => (phases party).1)
  packing : (phases .worker).2 = true → (phases .worker).1.stage = .running
  part : world.zip = .part → (phases .worker).2 = true

/-- In every run in which no `Job.cancel` takes effect too late. -/
abbrev inTime (job : Job) : Surroundings ArchiveCall.Answer Raised ArchiveWorld Party :=
  (archiveSurroundings .persistent).restrict (OnJob (CancelledInTime job))

section Sound

variable {job : Job} {world after : ArchiveWorld} {phases : (party : Party) → Phase party × Bool}

theorem mark_after_set {mark : Bool} {request : JobCall} {reply : JobReply request}
    (marked : markAfter mark request reply = true) : mark = true := by
  unfold markAfter at marked
  split at marked
  · cases marked
  · exact marked

theorem part_after {request : JobCall} {reply : JobReply request}
    (part : world.zipAfter request reply = .part) :
    world.zip = .part ∧ ∀ mark, markAfter mark request reply = mark := by
  unfold ArchiveWorld.zipAfter at part
  split at part
  · split at part <;> cases part
  · rename_i other
    refine ⟨part, fun mark => ?_⟩
    unfold markAfter
    split
    · exact (other _ _ _ _ rfl HEq.rfl).elim
    · rfl

theorem first_of_update (party : Party) (phase : Phase party × Bool) :
    (fun other => (Function.update phases party phase other).1) =
      Function.update (fun other => (phases other).1) party phase.1 := by
  funext other
  exact Function.apply_update (fun _ => Prod.fst) phases party phase other

theorem stays_running {host : Bool} {phase later : WorkerPhase} (request : JobCall)
    (reply : JobReply request) (running : phase.stage = .running)
    (admitted : workerAdmits host false phase request)
    (unwritten : ∀ fields, request = .hset fields → fields.status = none)
    (step : workerStep false phase request reply later) : later.stage = .running := by
  cases request
  case takeFromQueue =>
      rw [admitted] at running
      cases running
  case hgetall reader =>
      obtain ⟨record, -, rfl⟩ := step
      cases reader with
      | preRun =>
          rw [admitted.2] at running
          cases running
      | load | poll | afterRun | sendCallback => exact running
  case hset fields =>
      obtain ⟨-, rfl⟩ := step
      simpa [afterWrite, unwritten fields rfl] using running
  case time =>
      obtain ⟨-, rfl⟩ := step
      exact running
  case expire | enqueue | fetchJob | cancelJob => cases admitted
  all_goals
    obtain ⟨-, rfl⟩ := step
    exact running

theorem running_status (sound : ArchiveSound job world phases)
    (running : (phases .worker).1.stage = .running) : world.job.status = some .running :=
  sound.orderly.running running

theorem writer_runs (sound : ArchiveSound job world phases) {party : Party} {request : ArchiveCall}
    (admitted : (zipProtocol job party).admits (phases party) request)
    (writes : request.writesZip = true) :
    party = .worker ∧ world.job.status = some .running := by
  have packs : Packs party (phases party).1 := by
    cases request with
    | openZip zipPath => exact admitted
    | job request => cases request <;> first | exact admitted.2 | cases writes
  cases party with
  | submission | cancel _ => cases packs
  | worker => exact ⟨rfl, running_status sound packs⟩

theorem open_sound (sound : ArchiveSound job world phases) {party : Party} {zipPath : Path}
    {reply : Except Raised Unit} (packs : Packs party (phases party).1)
    (step : archiveStep .persistent world (.openZip zipPath) reply after) :
    ∃ phase, (zipProtocol job party).step (phases party) (.openZip zipPath) reply phase ∧
      ArchiveSound job after (Function.update phases party phase) := by
  obtain ⟨recorded, orderly, packing, part⟩ := sound
  cases party with
  | submission | cancel _ => cases packs
  | worker =>
      obtain ⟨foreign, rfl⟩ := step
      cases reply with
      | error raised =>
          refine ⟨phases .worker, ⟨foreign, rfl, rfl⟩, ?_⟩
          rw [Function.update_eq_self]
          exact ⟨recorded, orderly, packing, part⟩
      | ok _ =>
          refine ⟨((phases .worker).1, true), ⟨foreign, rfl, rfl⟩, ?_⟩
          have same := @first_of_update phases .worker ((phases .worker).1, true)
          rw [Function.update_eq_self .worker fun party => (phases party).1] at same
          refine ⟨?_, ?_, ?_, ?_⟩
          · rw [same]
            exact recorded
          · rw [same]
            exact orderly
          · intro _
            rw [Function.update_self]
            exact packs
          · intro _
            rw [Function.update_self]

theorem job_sound (sound : ArchiveSound job world phases) {party : Party} {request : JobCall}
    {reply : JobReply request} (admitted : (packProtocol job party).admits (phases party) request)
    (step : jobStep .persistent world.job request reply after.job)
    (zipped : after.zip = world.zipAfter request reply)
    (timely : CancelledInTime job world.job party request reply) :
    ∃ phase, (zipProtocol job party).step (phases party) (.job request) reply phase ∧
      ArchiveSound job after (Function.update phases party phase) := by
  obtain ⟨recorded, orderly, packing, part⟩ := sound
  obtain ⟨phase, follows, recorded, orderly⟩ :=
    (life_upholds (in_time_translates job) (orderly_lives job)).act world.job _ party request reply
      after.job ⟨recorded, orderly⟩ admitted.1 ⟨step, timely⟩
  refine ⟨(phase, markAfter (phases party).2 request reply), ⟨follows, rfl⟩, ?_⟩
  rw [← @first_of_update phases party (phase, markAfter (phases party).2 request reply)]
    at recorded orderly
  refine ⟨recorded, orderly, ?_, ?_⟩
  · intro marked
    cases party with
    | submission | cancel _ => simpa using packing (by simpa using marked)
    | worker =>
        rw [Function.update_self] at marked ⊢
        have incomplete := mark_after_set marked
        apply stays_running request reply (packing incomplete) admitted.1 ?_ follows
        rintro fields rfl
        exact admitted.2 incomplete
  · intro isPart
    rw [zipped] at isPart
    obtain ⟨wasPart, kept⟩ := part_after isPart
    cases party with
    | submission | cancel _ => simpa using part wasPart
    | worker =>
        rw [Function.update_self]
        exact (kept _).trans (part wasPart)

theorem archive_upholds (job : Job) :
    Upholds (inTime job) (zipProtocol job) (ArchiveSound job) where
  act world phases party request reply after sound admitted step := by
    cases request with
    | openZip zipPath => exact open_sound sound admitted step.1
    | job request => exact job_sound sound admitted step.1.1 step.1.2 step.2
  drift world phases after sound drifts := by
    cases drifts with
    | prune => exact ⟨sound.recorded, sound.orderly, sound.packing, nofun⟩
    | job later drifted =>
        obtain ⟨recorded, orderly⟩ :=
          (life_upholds (in_time_translates job) (orderly_lives job)).drift world.job _ later
            ⟨sound.recorded, sound.orderly⟩ drifted
        exact ⟨recorded, orderly, sound.packing, sound.part⟩

/-- Once the status is terminal, it stays, and so does the archive unless the
directory is pruned. -/
def Lasting (world after : ArchiveWorld) : Prop :=
  world.job.status.any Status.terminal = true →
    after.job.status = world.job.status ∧ (after.zip = world.zip ∨ after.zip = .absent)

theorem lasting_act {party : Party} {request : ArchiveCall} {reply : Except Raised request.Answer}
    (sound : ArchiveSound job world phases)
    (admitted : (zipProtocol job party).admits (phases party) request)
    (step : ((inTime job).machine party).step world request reply after) : Lasting world after := by
  intro terminal
  have other : request.writesZip = false := by
    rw [← Bool.not_eq_true]
    intro writes
    rw [(writer_runs sound admitted writes).2] at terminal
    cases terminal
  refine ⟨?_, .inl (zip_unchanged step.1 other)⟩
  cases request with
  | openZip zipPath => cases other
  | job request =>
      obtain ⟨phase, event, follows, recorded, concerns, lives⟩ :=
        step_matched (in_time_translates job) party request reply sound.recorded admitted.1
          step.1.1 step.2
      exact terminal_stays (orderly_status_move sound.orderly lives) terminal

theorem lasting_drift (sound : ArchiveSound job world phases)
    (drifts : (inTime job).drift world after) : Lasting world after := by
  intro terminal
  cases drifts with
  | prune => exact ⟨rfl, .inr rfl⟩
  | job later drifted =>
      refine ⟨?_, .inl rfl⟩
      have status : ∀ job : JobWorld, (lifeOf job fun party => (phases party).1).status = job.status :=
        fun _ => rfl
      obtain ⟨-, same | lives⟩ := drift_life job false drifted sound.recorded
      · exact congrArg Life.status same
      · exact terminal_stays (orderly_status_move sound.orderly lives) terminal

end Sound

/-- Once the status is terminal, from then on the archive is absent or complete,
is never written to, and changes at most by being pruned. -/
def ArtifactFinal (shared : Surroundings ArchiveCall.Answer Raised ArchiveWorld Party)
    (reached : ArchiveConfiguration) : Prop :=
  reached.world.job.status.any Status.terminal = true →
    ∀ later, Reaches shared reached later →
      later.world.zip ≠ .part ∧
      (later.world.zip = reached.world.zip ∨ later.world.zip = .absent) ∧
      ∀ party request next, later.rest party = .call request next → request.writesZip = false

theorem start_sound (job : Job) (clock : Nat) :
    ArchiveSound job (startArchive job clock).world fun party => (startPhases party, false) :=
  ⟨start_recorded clock, start_orderly _ clock, nofun, nofun⟩

theorem start_zips (job : Job) (clock : Nat) :
    Keeps (zipProtocol job) (fun _ _ _ => True) (fun party => (startPhases party, false))
      (startArchive job clock) := by
  intro party
  exact guarantees_mono _ _ (fun _ _ _ => trivial) (guarantees_expand (archive_call_plays job party)
    (job.program party) ⟨rfl, id⟩ (party_packs job party))

/-- In every run in which no `Job.cancel` takes effect too late, whatever the
interleaving. -/
theorem finished_artifact_final (job : Job) (clock : Nat) (reached : ArchiveConfiguration)
    (reaches : Reaches (inTime job) (startArchive job clock) reached) :
    ArtifactFinal (inTime job) reached := by
  intro terminal later further
  have lasting : later.world.job.status = reached.world.job.status ∧
      (later.world.zip = reached.world.zip ∨ later.world.zip = .absent) := by
    induction further with
    | refl => exact ⟨rfl, .inl rfl⟩
    | tail before move known =>
        obtain ⟨same, zip⟩ := known
        have lasts := reached_move_relates Lasting (archive_upholds job)
          (fun _ _ _ _ _ _ sound admitted step => lasting_act sound admitted step)
          (fun _ _ _ sound drifts => lasting_drift sound drifts) _ (start_sound job clock)
          (start_zips job clock) (reaches.trans before) move
        obtain ⟨again, next⟩ := lasts (by rw [same]; exact terminal)
        refine ⟨again.trans same, ?_⟩
        rcases next with next | next
        · rw [next]
          exact zip
        · exact .inr next
  obtain ⟨phases, sound, keeps⟩ := keeps_reaches (archive_upholds job) _ (start_sound job clock)
    (start_zips job clock) (reaches.trans further)
  have idle : later.world.job.status ≠ some .running := by
    rintro running
    rw [← lasting.1, running] at terminal
    cases terminal
  refine ⟨fun part => ?_, lasting.2, fun party request next waiting => ?_⟩
  · exact idle (running_status sound (sound.packing (sound.part part)))
  · rw [← Bool.not_eq_true]
    intro writes
    have owed := keeps party
    rw [waiting] at owed
    exact idle (writer_runs sound owed.1 writes).2

def inTimeTurnArchive (world : ArchiveWorld) (party : Party) : ArchiveCall → Bool
  | .job request => inTimeTurn world.job party request
  | .openZip _ => true

theorem in_time_turn_archive_possible (world : ArchiveWorld) (party : Party) (request : ArchiveCall)
    (turn : inTimeTurnArchive world party request = true) :
    ((inTime plainBuild).machine party).step world request
      (obligingArchive .persistent world request).1 (obligingArchive .persistent world request).2 := by
  cases request with
  | openZip zipPath => exact ⟨obliging_archive_step .persistent world (.openZip zipPath) rfl, trivial⟩
  | job request =>
      have possible := in_time_turn_possible world.job party request turn
      exact ⟨⟨possible.1, rfl⟩, possible.2⟩

def inTimeRun (order : List Party) : ArchiveConfiguration :=
  play (obligingArchive .persistent) inTimeTurnArchive order (startArchive plainBuild 0)

/-- A cancel request finds the job running; the worker does not look at its flag, and
the run succeeds with an archive. -/
def succeededArchive : ArchiveConfiguration :=
  inTimeRun (List.replicate 8 .submission ++ List.replicate 5 .worker ++
    List.replicate 5 (.cancel 0) ++ List.replicate 12 .worker)

/-- Another finds the job queued, and its `Job.cancel` comes before the worker looks. -/
def cancelledArchive : ArchiveConfiguration :=
  inTimeRun (List.replicate 8 .submission ++ [.cancel 0, .worker] ++ List.replicate 5 (.cancel 0) ++
    List.replicate 16 .worker)

theorem cancelled_in_time_archives_final :
    (succeededArchive.world.job.status = some .success ∧ succeededArchive.world.zip = .whole ∧
        ArtifactFinal (inTime plainBuild) succeededArchive) ∧
      cancelledArchive.world.job.status = some .cancelled ∧ cancelledArchive.world.zip = .absent ∧
        ArtifactFinal (inTime plainBuild) cancelledArchive := by
  have final : ∀ order, ArtifactFinal (inTime plainBuild) (inTimeRun order) := fun order =>
    finished_artifact_final plainBuild 0 _
      (play_reaches _ _ _ in_time_turn_archive_possible _ (startArchive plainBuild 0))
  exact ⟨⟨by decide +kernel, by decide +kernel, final _⟩, by decide +kernel, by decide +kernel, final _⟩

/-- The request has read `queued` when the worker takes the job and runs it up to
its archive; its `Job.cancel` then succeeds, and the job is `cancelled` while
the archive is half written. -/
theorem late_cancel_finishes_unfinished_archive :
    ¬ ∀ (job : Job) (clock : Nat) (reached : ArchiveConfiguration),
      Reaches (archiveSurroundings .persistent) (startArchive job clock) reached →
      ArtifactFinal (archiveSurroundings .persistent) reached := by
  intro always
  let cancelled := play (obligingArchive .persistent) (fun world _ => canTurnArchive world)
    (List.replicate 8 .submission ++ [.cancel 0] ++ List.replicate 13 .worker ++
      List.replicate 5 (.cancel 0)) (startArchive plainBuild 0)
  have run : Reaches (archiveSurroundings .persistent) (startArchive plainBuild 0) cancelled :=
    play_reaches _ _ _ (fun world _ request => obliging_archive_step .persistent world request) _ _
  have status : cancelled.world.job.status = some .cancelled := by decide +kernel
  have part : cancelled.world.zip = .part := by decide +kernel
  exact (always plainBuild 0 cancelled run (by rw [status]; rfl) cancelled .refl).1 part

end PretextBuildServer.ArtifactFinality
