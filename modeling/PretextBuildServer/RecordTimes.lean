import PretextBuildServer.ReportedContents

/-!
# The times in a record are in order

`created_at`, `started_at` and `finished_at` are written by different parties,
each with a time it has read some calls before. In every interleaving none of
them lies in the future or before the creation, and a job that has succeeded or
failed has not finished before it started.
-/

namespace PretextBuildServer.RecordTimes

open EffectProgram EffectProgram.Program InterleavedParties
open PretextBuildServer.ServerSettings PretextBuildServer.JobRecord PretextBuildServer.JobCalls
open PretextBuildServer.JobSystem PretextBuildServer.WorkerProtocol
open PretextBuildServer.RequestProtocols PretextBuildServer.LifeCycle
open PretextBuildServer.LifeCycleRefinement PretextBuildServer.SoundLives
open PretextBuildServer.RunJournal PretextBuildServer.ReportedContents

set_option autoImplicit false

/-- The times of a record read at `clock`. -/
structure InOrder (clock : Nat) (fields : Fields) : Prop where
  created : ∃ created, fields.createdAt = some created ∧ created ≤ clock
  started : ∀ created started, fields.createdAt = some created →
    fields.startedAt = some started → created ≤ started ∧ started ≤ clock
  finished : ∀ created finished, fields.createdAt = some created →
    fields.finishedAt = some finished → created ≤ finished ∧ finished ≤ clock
  ran : ∀ started finished, fields.status = some .success ∨ fields.status = some .failed →
    fields.startedAt = some started → fields.finishedAt = some finished → started ≤ finished

/-- What is kept of the clock and of what the parties have heard of it. The worker
has heard no time before it took the job, and nobody but the submission has heard
one from before the creation. -/
structure TimesKept (world : JobWorld) (phases : (party : Party) → Phase party)
    (journals : Party → Journal) : Prop where
  inOrder : ∀ fields, world.record.map Key.fields = some fields → InOrder world.clock fields
  heard : ∀ party time, (journals party).heard = some time → time ≤ world.clock
  begun : (journals .worker).begun = true → (phases .worker : WorkerPhase).stage ≠ .waiting
  late : ∀ party time, party ≠ .submission → (journals party).heard = some time →
    ∃ fields created, world.record.map Key.fields = some fields ∧
      fields.createdAt = some created ∧ created ≤ time
  since : ∀ fields started time, world.record.map Key.fields = some fields →
    fields.startedAt = some started → (journals .worker).heard = some time → started ≤ time

theorem start_times (clock : Nat) : TimesKept { clock } startPhases startJournals := by
  refine ⟨?_, ?_, ?_, ?_, ?_⟩
  · simp
  · intro party time heard
    cases party <;> cases heard
  · simp [startJournals]
  · intro party time _ heard
    cases party <;> cases heard
  · simp

theorem InOrder.later {clock later : Nat} {fields : Fields} (inOrder : InOrder clock fields)
    (passes : clock ≤ later) : InOrder later fields := by
  obtain ⟨⟨created, isCreated, past⟩, started, finished, ran⟩ := inOrder
  refine ⟨⟨created, isCreated, past.trans passes⟩, ?_, ?_, ran⟩
  · intro created begin isCreated isStarted
    obtain ⟨after, before⟩ := started created begin isCreated isStarted
    exact ⟨after, before.trans passes⟩
  · intro created finish isCreated isFinished
    obtain ⟨after, before⟩ := finished created finish isCreated isFinished
    exact ⟨after, before.trans passes⟩

section Writes

variable {clock : Nat} {stored fields : Fields} {heard : Option Nat}

theorem in_order_first (stamped : Stamped heard fields) (isCreated : fields.createdAt.isSome = true)
    (past : ∀ time, heard = some time → time ≤ clock) : InOrder clock fields := by
  obtain ⟨created, written⟩ := Option.isSome_iff_exists.mp isCreated
  have told := stamped.created created written
  have same : ∀ time, heard = some time → time = created := by
    intro time again
    rw [told] at again
    cases again
    rfl
  refine ⟨⟨created, written, past created told⟩, ?_, ?_, ?_⟩
  · intro other started isCreated isStarted
    rw [written] at isCreated
    cases isCreated
    obtain rfl := same started (stamped.started started isStarted)
    exact ⟨le_rfl, past _ told⟩
  · intro other finished isCreated isFinished
    rw [written] at isCreated
    cases isCreated
    obtain rfl := same finished (stamped.finished finished isFinished)
    exact ⟨le_rfl, past _ told⟩
  · intro started finished _ isStarted isFinished
    rw [same started (stamped.started started isStarted),
      same finished (stamped.finished finished isFinished)]

theorem in_order_update (inOrder : InOrder clock stored) (stamped : Stamped heard fields)
    (uncreated : fields.createdAt = none) (past : ∀ time, heard = some time → time ≤ clock)
    (late : ∀ created time, stored.createdAt = some created → heard = some time → created ≤ time)
    (settles : fields.status = some .success ∨ fields.status = some .failed →
      fields.finishedAt.isSome = true ∧
        ∀ started time, stored.startedAt = some started → heard = some time → started ≤ time) :
    InOrder clock (stored.override fields) := by
  obtain ⟨⟨created, isCreated, before⟩, started, finished, ran⟩ := inOrder
  have createdIs : (stored.override fields).createdAt = stored.createdAt := by
    simp [uncreated]
  refine ⟨⟨created, createdIs.trans isCreated, before⟩, ?_, ?_, ?_⟩
  · intro created begin isCreated isStarted
    rw [createdIs] at isCreated
    change (fields.startedAt <|> stored.startedAt) = some begin at isStarted
    cases written : fields.startedAt with
    | none => exact started created begin isCreated (by simpa [written] using isStarted)
    | some time =>
        obtain rfl : time = begin := by simpa [written] using isStarted
        have told := stamped.started time written
        exact ⟨late created time isCreated told, past time told⟩
  · intro created finish isCreated isFinished
    rw [createdIs] at isCreated
    change (fields.finishedAt <|> stored.finishedAt) = some finish at isFinished
    cases written : fields.finishedAt with
    | none => exact finished created finish isCreated (by simpa [written] using isFinished)
    | some time =>
        obtain rfl : time = finish := by simpa [written] using isFinished
        have told := stamped.finished time written
        exact ⟨late created time isCreated told, past time told⟩
  · intro begin finish status isStarted isFinished
    change (fields.startedAt <|> stored.startedAt) = some begin at isStarted
    change (fields.finishedAt <|> stored.finishedAt) = some finish at isFinished
    rw [override_status] at status
    cases written : fields.status with
    | none =>
        obtain ⟨noStart, noFinish⟩ := stamped.untimed written
        exact ran begin finish (by simpa [written] using status) (by simpa [noStart] using isStarted)
          (by simpa [noFinish] using isFinished)
    | some now =>
        obtain ⟨hasFinish, since⟩ := settles (by simpa [written] using status)
        obtain ⟨time, finishes⟩ := Option.isSome_iff_exists.mp hasFinish
        obtain rfl : time = finish := by simpa [finishes] using isFinished
        have told := stamped.finished time finishes
        cases starts : fields.startedAt with
        | none => exact since begin time (by simpa [starts] using isStarted) told
        | some other =>
            obtain rfl : other = begin := by simpa [starts] using isStarted
            have again := stamped.started other starts
            rw [told] at again
            cases again
            exact le_rfl

end Writes

section Steps

variable {job : Job} {host : Bool} {world after : JobWorld}
  {phases : (party : Party) → Phase party} {journals : Party → Journal}

def asksTime : JobCall → Bool
  | .time => true
  | _ => false

theorem heard_after {journal later : Journal} (request : JobCall) (reply : JobReply request)
    (step : jobStep .persistent world request reply after)
    (writes : journalStep journal request reply later) :
    later.heard = if asksTime request then some world.clock else journal.heard := by
  cases request
  case hgetall reader =>
      cases reader
      case sendCallback =>
          obtain ⟨record, -, rfl⟩ := writes
          rfl
      all_goals exact congrArg Journal.heard writes
  case time =>
      obtain ⟨clock, same, rfl⟩ := writes
      obtain ⟨answered, -⟩ := step
      rw [same] at answered
      cases answered
      rfl
  all_goals
    obtain rfl := writes
    rfl

theorem begun_of_write (recorded : Recorded world phases) {fields : Fields}
    (admitted : workerAdmits host false (phases .worker) (.hset fields)) :
    world.record.isSome = true := by
  refine worker_begun recorded fun start => ?_
  obtain ⟨-, written⟩ := admitted
  rw [start] at written
  cases status : fields.status with
  | none => simp [status] at written
  | some status' => cases status' <;> simp [status, settles] at written

theorem stays_begun {phase : WorkerPhase} (request : JobCall) (reply : JobReply request)
    (begun : (phases .worker : WorkerPhase).stage ≠ .waiting)
    (goes : workerStep false (phases .worker) request reply phase) : phase.stage ≠ .waiting := by
  cases request
  case takeFromQueue =>
      obtain ⟨-, rfl⟩ := goes
      simp
  case hgetall reader =>
      obtain ⟨found, -, rfl⟩ := goes
      cases reader <;> first | exact begun | simp
  case hset fields =>
      obtain ⟨-, rfl⟩ := goes
      unfold afterWrite
      split
      · exact begun
      · simp
      · simp
  all_goals
    obtain ⟨-, rfl⟩ := goes
    exact begun

theorem present_of_time (recorded : Recorded world phases) (kept : TimesKept world phases journals)
    {party : Party} (other : party ≠ .submission)
    (admitted : (jobProtocol job false party).admits (phases party) .time)
    (noted : (journals party).begun = true) : world.record.isSome = true := by
  cases party with
  | submission => exact absurd rfl other
  | worker =>
      refine worker_begun recorded fun start => ?_
      exact kept.begun noted (by rw [start])
  | cancel index =>
      refine cancel_begun index recorded ?_
      rw [show phases (.cancel index) = CancelPhase.won from admitted]
      simp

theorem TimesKept.created_before (kept : TimesKept world phases journals) {party : Party}
    (other : party ≠ .submission) {stored : Fields}
    (found : world.record.map Key.fields = some stored) (created time : Nat)
    (isCreated : stored.createdAt = some created) (heard : (journals party).heard = some time) :
    created ≤ time := by
  obtain ⟨fields, begin, same, isBegin, before⟩ := kept.late party time other heard
  rw [found] at same
  cases same
  rw [isCreated] at isBegin
  cases isBegin
  exact before

theorem absent_of_fresh (recorded : Recorded world phases)
    (sound : Sound host (lifeOf world phases)) (fresh : phases .submission = SubmissionPhase.fresh) :
    world.record = none := by
  cases found : world.record with
  | none => rfl
  | some key =>
      have shows := status_present recorded (by simp [found])
      have absent : world.status = none := sound.2.absent.mp fresh
      rw [absent] at shows
      cases shows

/-- Every write leaves the times in order. -/
theorem in_order_after_write (recorded : Recorded world phases)
    (sound : Sound host (lifeOf world phases)) (kept : TimesKept world phases journals)
    (party : Party) (fields : Fields)
    (admitted : (jobProtocol job false party).admits (phases party) (.hset fields))
    (stamped : Stamped (journals party).heard fields) (written : Fields)
    (wrote : (hset world.record fields).map Key.fields = some written) :
    InOrder world.clock written := by
  have past : ∀ time, (journals party).heard = some time → time ≤ world.clock := kept.heard party
  have updated : party ≠ .submission → world.record.isSome = true → fields.createdAt = none →
      (fields.status = some .success ∨ fields.status = some .failed →
        fields.finishedAt.isSome = true ∧ party = .worker) → InOrder world.clock written := by
    intro other present uncreated settles
    obtain ⟨key, found⟩ := Option.isSome_iff_exists.mp present
    have stored : world.record.map Key.fields = some key.fields := by rw [found]; rfl
    rw [found] at wrote
    obtain rfl : key.fields.override fields = written := Option.some.inj wrote
    refine in_order_update (kept.inOrder _ stored) stamped uncreated past
      (kept.created_before other stored) fun terminal => ?_
    obtain ⟨finishes, rfl⟩ := settles terminal
    exact ⟨finishes, fun started time isStarted heard =>
      kept.since _ started time stored isStarted heard⟩
  cases party with
  | submission =>
      obtain ⟨fresh, creates⟩ := admitted
      rw [absent_of_fresh recorded sound fresh] at wrote
      obtain rfl : fields = written := Option.some.inj wrote
      exact in_order_first stamped creates.createdAt past
  | worker =>
      refine updated nofun (begun_of_write recorded admitted) admitted.1.createdAt fun terminal => ?_
      have writes := admitted.2
      rcases terminal with status | status
      · rw [status] at writes
        exact ⟨writes.2.2, rfl⟩
      · rw [status] at writes
        exact ⟨writes.2.2, rfl⟩
  | cancel index =>
      have present : world.record.isSome = true := by
        refine cancel_begun index recorded ?_
        rintro (start | loaded)
        · have refused : cancelAdmits CancelPhase.start (.hset fields) := start ▸ admitted
          cases refused
        · have refused : cancelAdmits (CancelPhase.loaded none) (.hset fields) := loaded ▸ admitted
          cases refused
      rcases cancel_writes admitted with rfl | ⟨clock, rfl⟩
      · exact updated nofun present rfl (by simp)
      · exact updated nofun present rfl (by simp)

theorem creation_untouched {party : Party} {fields : Fields} (other : party ≠ .submission)
    (admitted : (jobProtocol job false party).admits (phases party) (.hset fields)) :
    fields.createdAt = none := by
  cases party with
  | submission => exact absurd rfl other
  | worker => exact admitted.1.createdAt
  | cancel index =>
      rcases cancel_writes admitted with rfl | ⟨clock, rfl⟩
      · rfl
      · rfl

theorem begun_after {journal later : Journal} (request : JobCall) (reply : JobReply request)
    (writes : journalStep journal request reply later) (begun : later.begun = true) :
    request = .takeFromQueue ∨ journal.begun = true := by
  cases request
  case hgetall reader =>
      cases reader
      case sendCallback =>
          obtain ⟨record, -, rfl⟩ := writes
          exact .inr begun
      all_goals
        obtain rfl : later = journal := writes
        exact .inr begun
  case time =>
      obtain ⟨clock, -, rfl⟩ := writes
      exact .inr begun
  case takeFromQueue => exact .inl rfl
  all_goals
    obtain rfl : later = journal := writes
    exact .inr begun

section Step

variable {party : Party} {request : JobCall} {reply : JobReply request} {phase : Phase party}
  {journal : Journal} (recorded : Recorded world phases)
  (sound : Sound host (lifeOf world phases)) (kept : TimesKept world phases journals)
  (admitted : (jobProtocol job false party).admits (phases party) request)
  (noted : journalAdmits job.settings job.jobId (journals party) request)
  (step : jobStep .persistent world request reply after)
  (goes : (jobProtocol job false party).step (phases party) request reply phase)
  (writes : journalStep (journals party) request reply journal)

include step writes in
theorem heard_before {other : Party} {time : Nat}
    (heard : (Function.update journals party journal other).heard = some time) :
    (other = party ∧ request = .time ∧ time = world.clock) ∨
      (journals other).heard = some time := by
  by_cases same : other = party
  · subst same
    rw [Function.update_self, heard_after request reply step writes] at heard
    split at heard
    · rename_i asks
      refine .inl ⟨rfl, ?_, (Option.some.inj heard).symm⟩
      cases request <;> first | rfl | cases asks
    · exact .inr heard
  · exact .inr (by simpa [Function.update_of_ne same] using heard)

include recorded sound kept admitted noted step in
theorem in_order_by_step (fields : Fields) (found : after.record.map Key.fields = some fields) :
    InOrder after.clock fields := by
  obtain ⟨clock, record⟩ := record_after request reply step
  rw [clock]
  rw [record] at found
  cases request
  case hset written =>
      exact in_order_after_write recorded sound kept party written admitted noted.1 fields found
  all_goals exact kept.inOrder fields found

include kept goes writes in
theorem begun_by_step (begun : (Function.update journals party journal .worker).begun = true) :
    (Function.update phases party phase .worker : WorkerPhase).stage ≠ .waiting := by
  cases party with
  | submission => exact kept.begun (by simpa using begun)
  | cancel index => exact kept.begun (by simpa using begun)
  | worker =>
      rw [Function.update_self] at begun ⊢
      rcases begun_after request reply writes begun with rfl | before
      · obtain ⟨-, rfl⟩ := goes
        simp
      · exact stays_begun request reply (kept.begun before) goes

include recorded sound kept admitted noted step writes in
theorem late_by_step {other : Party} {time : Nat} (later : other ≠ .submission)
    (heard : (Function.update journals party journal other).heard = some time) :
    ∃ fields created, after.record.map Key.fields = some fields ∧
      fields.createdAt = some created ∧ created ≤ time := by
  obtain ⟨-, record⟩ := record_after request reply step
  rcases heard_before step writes heard with ⟨rfl, rfl, rfl⟩ | before
  · have present := present_of_time recorded kept later admitted noted
    obtain ⟨key, found⟩ := Option.isSome_iff_exists.mp present
    have stored : world.record.map Key.fields = some key.fields := by rw [found]; rfl
    obtain ⟨created, isCreated, past⟩ := (kept.inOrder _ stored).created
    exact ⟨key.fields, created, record.trans stored, isCreated, past⟩
  · obtain ⟨fields, created, stored, isCreated, past⟩ := kept.late other time later before
    cases request
    case hset written =>
        obtain ⟨key, found, rfl⟩ := Option.map_eq_some_iff.mp stored
        have elsewhere : party ≠ .submission := by
          rintro rfl
          rw [absent_of_fresh recorded sound admitted.1] at found
          cases found
        rw [found] at record
        refine ⟨_, created, record, ?_, past⟩
        change (written.createdAt <|> key.fields.createdAt) = some created
        rw [creation_untouched elsewhere admitted]
        exact isCreated
    all_goals exact ⟨fields, created, record.trans stored, isCreated, past⟩

include recorded sound kept admitted noted step writes in
theorem since_by_step {fields : Fields} {started time : Nat}
    (found : after.record.map Key.fields = some fields) (isStarted : fields.startedAt = some started)
    (heard : (Function.update journals party journal .worker).heard = some time) :
    started ≤ time := by
  obtain ⟨-, record⟩ := record_after request reply step
  rw [record] at found
  rcases heard_before step writes heard with ⟨rfl, rfl, rfl⟩ | before
  · obtain ⟨created, isCreated, -⟩ := (kept.inOrder fields found).created
    exact ((kept.inOrder fields found).started created started isCreated isStarted).2
  · cases request
    case hset written =>
        obtain ⟨stored, -, storedIs, -, -⟩ := kept.late .worker time nofun before
        obtain ⟨key, keyed, rfl⟩ := Option.map_eq_some_iff.mp storedIs
        simp only [writtenBy, keyed, hset_present, Option.map_some, Option.some.injEq] at found
        subst found
        change (written.startedAt <|> key.fields.startedAt) = some started at isStarted
        cases starts : written.startedAt with
        | none =>
            exact kept.since _ started time storedIs (by simpa [starts] using isStarted) before
        | some at_ =>
            obtain rfl : at_ = started := by simpa [starts] using isStarted
            cases party with
            | submission =>
                rw [absent_of_fresh recorded sound admitted.1] at keyed
                cases keyed
            | worker =>
                have told := noted.1.started at_ starts
                rw [before] at told
                cases told
                exact le_rfl
            | cancel index =>
                rcases cancel_writes admitted with rfl | ⟨clock, rfl⟩
                · cases starts
                · cases starts
    all_goals exact kept.since fields started time found isStarted before

include recorded sound kept admitted noted step goes writes in
theorem times_kept_by_step :
    TimesKept after (Function.update phases party phase)
      (Function.update journals party journal) where
  inOrder := in_order_by_step recorded sound kept admitted noted step
  heard other time heard := by
    rw [(record_after request reply step).1]
    rcases heard_before step writes heard with ⟨-, -, rfl⟩ | before
    · exact le_rfl
    · exact kept.heard other time before
  begun := begun_by_step kept goes writes
  late _ _ other heard := late_by_step recorded sound kept admitted noted step writes other heard
  since _ _ _ found isStarted heard :=
    since_by_step recorded sound kept admitted noted step writes found isStarted heard

end Step

theorem times_kept_by_drift (kept : TimesKept world phases journals)
    (drifts : JobDrift .persistent world after) : TimesKept after phases journals := by
  have same := drift_record drifts
  have passes : world.clock ≤ after.clock := by
    cases drifts with
    | tick later passes => exact passes
    | forget past => exact le_rfl
    | exit statusCode up => exact le_rfl
  refine ⟨?_, ?_, kept.begun, ?_, ?_⟩
  · rw [same]
    exact fun fields found => (kept.inOrder fields found).later passes
  · exact fun party time heard => (kept.heard party time heard).trans passes
  · rw [same]
    exact kept.late
  · rw [same]
    exact kept.since

end Steps

theorem times_upheld (job : Job) :
    Upholds (jobSurroundings .persistent) (journalled job)
      (Together (Sound job.settings.hostDataDir.isSome) TimesKept) :=
  journals_uphold (sound_preserved job)
    (fun _ _ _ _ _ _ _ _ _ recorded sound kept admitted noted step goes writes =>
      times_kept_by_step recorded sound kept admitted noted step goes writes)
    fun _ _ _ _ kept drifts => times_kept_by_drift kept drifts

def submittedEarlier : JobConfiguration :=
  play (obliging .persistent) (fun world _ => canTurn world) (List.replicate 8 .submission)
    (plainBuild.start 3)

def takenLater : JobConfiguration :=
  play (obliging .persistent) (fun world _ => canTurn world) (List.replicate 20 .worker)
    ⟨{ submittedEarlier.world with clock := 7 }, submittedEarlier.rest⟩

theorem taken_later_reached :
    Reaches (jobSurroundings .persistent) (plainBuild.start 3) takenLater := by
  have possible : ∀ world (_ : Party) request, canTurn world request = true →
      jobStep .persistent world request (obliging .persistent world request).1
        (obliging .persistent world request).2 := fun world _ => obliging_step _ world
  have submitted : Reaches (jobSurroundings .persistent) (plainBuild.start 3) submittedEarlier :=
    play_reaches _ _ _ possible _ _
  have passes : submittedEarlier.world.clock ≤ 7 := by decide +kernel
  have ticked := submitted.tail (.drift _ _ (JobDrift.tick submittedEarlier.world 7 passes))
  exact ticked.trans (play_reaches _ _ _ possible _ _)

end PretextBuildServer.RecordTimes
