import PretextBuildServer.WorkerRun

/-!
# How the fields of a finished job fit together

A run alone with its job: the record does not expire, nobody else writes it,
and no call raises anything but what the run handles. Status, archive, file list
and exit code are then told by how the container ended and by what stands at the
output directory.
-/

namespace PretextBuildServer.OutcomeCoherence

open EffectProgram EffectProgram.Program
open PretextBuildServer.ServerSettings PretextBuildServer.JobRecord PretextBuildServer.JobCalls
open PretextBuildServer.StoreCalls PretextBuildServer.BuildWorker PretextBuildServer.JobSystem

set_option autoImplicit false

/-- `sorted`, of texts. -/
def sortedNames (names : List String) : List String := names.mergeSort fun one other => one ≤ other

/-- The record and the job's directory, and what has happened: that a container
was asked for, and with which status code one has ended by itself. `zip` are the
names in output.zip, in the order they were put in. -/
structure Progress where
  record : Fields
  attempted : Bool := false
  exited : Option (Option Int) := none
  outputIsDir : Bool := false
  outputIsLink : Bool := false
  zip : Option (List String) := none

/-- The call returns, or raises an exception of the given class. -/
def ReturnsOr {Answer : Type} (handled : Raised → Bool) (reply : Except Raised Answer) : Prop :=
  ∀ raised, reply = .error raised → handled raised = true

/-- Only the exceptions the run handles are raised. What the container leaves at
the output directory is up to it. -/
def handledStep (outputDir : Path) (world : Progress) :
    (request : JobCall) → JobReply request → Progress → Prop
  | .hgetall _, reply, after =>
      (∃ flag, reply = .ok (some { world.record with cancelRequested := flag })) ∧ after = world
  | .hset fields, reply, after =>
      reply = .ok () ∧ after = { world with record := world.record.override fields }
  | .containersRun _, reply, after =>
      ReturnsOr Raised.isImageNotFound reply ∧ after = { world with attempted := true }
  | .wait _, reply, after =>
      match reply with
      | .ok statusCode => ∃ outputIsDir outputIsLink,
          after = { world with exited := some statusCode, outputIsDir, outputIsLink }
      | .error raised => raised.isTimedOutWait = true ∧ after = world
  | .remove, reply, after => ReturnsOr Raised.isAPIError reply ∧ after = world
  | .isDir path, reply, after =>
      (path = outputDir → reply = .ok world.outputIsDir) ∧ after = world
  | .isLink path, reply, after =>
      (path = outputDir → reply = .ok world.outputIsLink) ∧ after = world
  | .zipDir .., reply, after =>
      ∃ names, reply = .ok (sortedNames names) ∧ after = { world with zip := some names }
  | .touch _, _, after | .harvest .., _, after | .mounts .., _, after => after = world
  | _, reply, after => (∃ value, reply = .ok value) ∧ after = world

/-- Once a container has been asked for, a harvest is one of a generate job that
named its project and whose container has ended with code 0. -/
def harvestsRightly (kind : Kind) (world : Progress) : JobCall → Prop
  | .harvest projectId _ => world.attempted = true →
      kind = .generate ∧ Fields.namedProject world.record = some projectId ∧
        ∃ statusCode, world.exited = some statusCode ∧ statusCode.getD 1 = 0
  | _ => True

def handledMachine (kind : Kind) (outputDir : Path) : Machine JobCall.Answer Raised Progress where
  admits := harvestsRightly kind
  step := handledStep outputDir

def Progress.output (world : Progress) : Bool := world.outputIsDir && !world.outputIsLink

def Progress.exitCode (world : Progress) : Option Int := world.exited.map (·.getD 1)

structure Coherent (kind : Kind) (world : Progress) : Prop where
  success : world.record.status = some .success ↔ world.exitCode = some 0 ∧ world.output = true
  zip : world.zip.isSome = true ↔ world.exitCode.isSome = true ∧ world.output = true
  files : world.record.files = if kind = .generate then world.zip.map sortedNames else none
  exitCode : world.record.exitCode = world.exitCode

/-- The record of a submitted job: whatever it says, it is queued and nothing has
come of it yet. -/
def submitted (fields : Fields) : Fields :=
  { fields with status := some .queued, exitCode := none, files := none }

/-! ## The parts of a run -/

section Parts

variable {kind : Kind} {outputDir : Path} {world : Progress}

/-- No container has ended by itself, and nothing has come of the job. -/
structure Barren (world : Progress) : Prop where
  exited : world.exited = none
  zip : world.zip = none
  files : world.record.files = none
  exitCode : world.record.exitCode = none
  unsuccessful : world.record.status ≠ some .success

theorem barren_coherent (barren : Barren world) : Coherent kind world := by
  have noCode : world.exitCode = none := by
    rw [Progress.exitCode, barren.exited]
    rfl
  constructor
  · exact iff_of_false barren.unsuccessful (by simp [noCode])
  · simp [barren.zip, noCode]
  · simp [barren.files, barren.zip]
  · rw [barren.exitCode, noCode]

theorem barren_write (barren : Barren world) {fields : Fields} (noFiles : fields.files = none)
    (noCode : fields.exitCode = none) (other : fields.status ≠ some .success) :
    Barren { world with record := world.record.override fields } := by
  refine ⟨barren.exited, barren.zip, ?_, ?_, ?_⟩
  · simp [Fields.override, noFiles, barren.files]
  · simp [Fields.override, noCode, barren.exitCode]
  · rw [override_status]
    cases written : fields.status with
    | none => simpa using barren.unsuccessful
    | some status => simpa [written] using other

theorem settle_guarantees (barren : Barren world) (fields : Nat → Fields)
    (noFiles : ∀ clock, (fields clock).files = none)
    (noCode : ∀ clock, (fields clock).exitCode = none)
    (other : ∀ clock, (fields clock).status ≠ some .success) :
    Guarantees (handledMachine kind outputDir)
      (fun after outcome => outcome = .ok () ∧ Barren after) world
      (now >>= fun clock => storeUpdate (fields clock)) := by
  refine ⟨trivial, ?_⟩
  rintro _ _ ⟨⟨clock, rfl⟩, rfl⟩
  refine ⟨trivial, ?_⟩
  rintro _ _ ⟨rfl, rfl⟩
  exact ⟨rfl, barren_write barren (noFiles clock) (noCode clock) (other clock)⟩

/-- How waiting ends: the container has ended, or it is to be stopped, or the
client refuses to wait. -/
def WaitEnded (poll : Int) (world after : Progress) : Except Raised (Option Int) → Prop
  | .ok statusCode => ∃ outputIsDir outputIsLink,
      after = { world with exited := some statusCode, outputIsDir, outputIsLink }
  | .error raised => after = world ∧
      (raised.kind = .cancelled ∨ raised.isTimedOutWait = true ∨
        poll ≤ 0 ∧ raised.isImageNotFound = false)

theorem wait_loop_guarantees (poll timeout : Int) (left : Nat) (elapsed : Int)
    (enough : timeout ≤ elapsed + left * poll ∧ 0 < left) :
    Guarantees (handledMachine kind outputDir) (WaitEnded poll world) world
      (waitLoop poll timeout left elapsed) := by
  induction left generalizing elapsed with
  | zero => exact absurd enough.2 (Nat.lt_irrefl 0)
  | succ left induction =>
      refine ⟨trivial, ?_⟩
      intro reply after step
      cases reply with
      | ok statusCode => exact step
      | error raised =>
          obtain ⟨timedOut, rfl⟩ := step
          simp only [done_and_then, on_failure_error, timedOut, Bool.not_true, Bool.false_eq_true,
            if_false]
          split
          · exact ⟨rfl, .inr (.inl timedOut)⟩
          · rename_i inTime
            refine ⟨trivial, ?_⟩
            rintro _ _ ⟨⟨flag, rfl⟩, rfl⟩
            simp only [done_and_then, on_value_ok]
            split
            · exact ⟨rfl, .inl rfl⟩
            · apply induction
              have bound := enough.1
              push_cast at bound
              rw [Int.add_mul, Int.one_mul] at bound
              have more : 0 < left := by
                rcases Nat.eq_zero_or_pos left with none | more
                · simp [none] at bound
                  omega
                · exact more
              exact ⟨by omega, more⟩

theorem wait_guarantees (settings : Settings) (timeout : Int) :
    Guarantees (handledMachine kind outputDir) (WaitEnded settings.buildPollInterval world) world
      (waitForContainer settings timeout) := by
  unfold waitForContainer
  dsimp only
  split
  · rename_i positive
    apply wait_loop_guarantees
    simpa using poll_count_enough settings.buildPollInterval timeout positive
  · rename_i negative
    exact ⟨rfl, .inr (.inr ⟨by omega, rfl⟩)⟩

/-- How the part around the container ends: the job is settled without a code, or
one is to be reported, or the client has refused to wait. -/
def WatchEnded (poll : Int) (world after : Progress) :
    Except Raised (Option (String × Int)) → Prop
  | .ok none => Barren after
  | .ok (some (_, exitCode)) => after.exitCode = some exitCode ∧ after.zip = none ∧
      after.record = world.record ∧ after.attempted = true
  | .error raised => poll ≤ 0 ∧ raised.isImageNotFound = false

theorem stop_guarantees (barren : Barren world) (poll : Int) (status : Status) (note : String)
    (other : status ≠ .success) :
    Guarantees (handledMachine kind outputDir) (WatchEnded poll world) world
      (do stopContainer status note; return none : JobProgram (Option (String × Int))) := by
  refine guarantees_seq world (stopContainer status note) _ (?_ : Guarantees _
    (fun after outcome => outcome = .ok () ∧ Barren after) _ _) ?_
  · refine ⟨trivial, ?_⟩
    rintro _ _ ⟨⟨_, rfl⟩, rfl⟩
    refine ⟨trivial, ?_⟩
    rintro _ _ ⟨⟨logs, rfl⟩, rfl⟩
    apply settle_guarantees barren _ (fun _ => rfl) (fun _ => rfl)
    intro clock same
    exact other (Option.some.inj same)
  · rintro after outcome ⟨rfl, settled⟩
    exact settled

theorem await_guarantees (barren : Barren world) (attempted : world.attempted = true)
    (settings : Settings) (sandbox : Sandbox) :
    Guarantees (handledMachine kind outputDir) (WatchEnded settings.buildPollInterval world) world
      (awaitContainer settings kind sandbox) := by
  refine guarantees_seq _ _ _ (wait_guarantees settings sandbox.timeout) ?_
  rintro after (raised | statusCode) ended
  · obtain ⟨rfl, reason⟩ := ended
    dsimp only
    split
    · exact stop_guarantees barren _ _ _ (by decide)
    split
    · exact stop_guarantees barren _ _ _ (by decide)
    · rename_i other inTime
      rcases reason with cancelled | timedOut | refused
      · exact absurd cancelled other
      · exact absurd timedOut inTime
      · exact refused
  · obtain ⟨outputIsDir, outputIsLink, rfl⟩ := ended
    refine ⟨trivial, ?_⟩
    rintro _ _ ⟨⟨logs, rfl⟩, rfl⟩
    exact ⟨rfl, barren.zip, rfl, attempted⟩

theorem image_missing_guarantees (barren : Barren world) (settings : Settings) (raised : Raised)
    (poll : Int) (missing : raised.isImageNotFound = true) :
    Guarantees (handledMachine kind outputDir) (WatchEnded poll world) world
      (imageMissing settings raised) := by
  unfold imageMissing
  rw [if_pos missing]
  refine ⟨trivial, ?_⟩
  rintro _ _ ⟨⟨clock, rfl⟩, rfl⟩
  refine ⟨trivial, ?_⟩
  rintro _ _ ⟨rfl, rfl⟩
  exact barren_write barren rfl rfl (by simp)

theorem remove_guarantees :
    Guarantees (handledMachine kind outputDir) (fun after outcome => after = world ∧ outcome = .ok ())
      world removeContainer := by
  refine ⟨trivial, ?_⟩
  rintro reply _ ⟨handled, rfl⟩
  cases reply with
  | ok _ => exact ⟨rfl, rfl⟩
  | error raised =>
      simp only [done_and_then, on_failure_error, handled raised rfl, if_true]
      exact ⟨rfl, rfl⟩

theorem supervise_guarantees (barren : Barren world) (settings : Settings) (sandbox : Sandbox)
    (kwargs : RunKwargs) :
    Guarantees (handledMachine kind outputDir) (WatchEnded settings.buildPollInterval world) world
      (superviseContainer settings kind sandbox kwargs) := by
  have started : Barren { world with attempted := true } :=
    ⟨barren.exited, barren.zip, barren.files, barren.exitCode, barren.unsuccessful⟩
  have called : Guarantees (handledMachine kind outputDir)
      (fun after reply => ReturnsOr Raised.isImageNotFound reply ∧
        after = { world with attempted := true }) world (jobCall (.containersRun kwargs)) :=
    ⟨trivial, fun _ _ step => step⟩
  refine guarantees_seq _ _ _ called ?_
  rintro _ reply ⟨handled, rfl⟩
  cases reply with
  | error raised => exact image_missing_guarantees started settings raised _ (handled raised rfl)
  | ok _ =>
      refine guarantees_seq _ _ _ (?_ : Guarantees _
        (WatchEnded settings.buildPollInterval { world with attempted := true }) _ _) ?_
      · refine guarantees_seq _ _ _ (await_guarantees started rfl settings sandbox) ?_
        rintro after (raised | ended) watched
        · obtain ⟨refused, other⟩ := watched
          simp only [on_failure_error, imageMissing, other, Bool.false_eq_true, if_false]
          exact ⟨refused, other⟩
        · exact watched
      · intro after outcome watched
        refine guarantees_seq _ _ _ remove_guarantees ?_
        rintro _ _ ⟨rfl, rfl⟩
        exact watched

theorem volumes_guarantees (early : world.attempted = false) (projectId : Option String)
    (workDir hostWork : Path) :
    Guarantees (handledMachine kind outputDir)
      (fun after outcome => after = world ∧ ∃ volumes, outcome = .ok volumes) world
      (prepareVolumes kind projectId workDir hostWork) := by
  unfold prepareVolumes
  split
  · exact ⟨rfl, _, rfl⟩
  · refine guarantees_seq _ _ _ (?_ : Guarantees _ (fun after _ => after = world) _ _) ?_
    · refine ⟨trivial, ?_⟩
      rintro touched _ rfl
      cases touched with
      | error raised => rfl
      | ok _ =>
          simp only [done_and_then, on_value_ok]
          split
          · refine ⟨fun attempted => ?_, ?_⟩
            · rw [early] at attempted
              cases attempted
            rintro seeded _ rfl
            cases seeded with
            | error raised => rfl
            | ok _ =>
                refine ⟨trivial, ?_⟩
                rintro mounted _ rfl
                cases mounted <;> rfl
          · rfl
    · rintro after (raised | volumes) rfl
      · exact ⟨rfl, _, rfl⟩
      · exact ⟨rfl, _, rfl⟩

/-! ## After the container -/

theorem present_guarantees :
    Guarantees (handledMachine kind outputDir)
      (fun after outcome => after = world ∧ outcome = .ok world.output) world
      (presentOutput outputDir) := by
  refine ⟨trivial, ?_⟩
  intro reply after step
  obtain ⟨looked, same⟩ := step
  rw [looked rfl, same]
  simp only [done_and_then, on_value_ok]
  cases directory : world.outputIsDir with
  | false => exact ⟨rfl, by simp [Progress.output, directory]⟩
  | true =>
      refine ⟨trivial, ?_⟩
      intro link later step
      obtain ⟨looked, unchanged⟩ := step
      rw [looked rfl, unchanged]
      exact ⟨rfl, by simp [Progress.output, directory]⟩

theorem zip_guarantees (zipPath : Path) (sandbox : Sandbox) (listFiles hasOutput : Bool)
    (unzipped : world.zip = none) :
    Guarantees (handledMachine kind outputDir)
      (fun after outcome => ∃ zip, after = { world with zip } ∧ zip.isSome = hasOutput ∧
        outcome = .ok { files := if listFiles then zip.map sortedNames else none }) world
      (zipOutput outputDir zipPath sandbox listFiles hasOutput) := by
  unfold zipOutput
  cases hasOutput with
  | false =>
      refine ⟨none, ?_, rfl, ?_⟩
      · rw [← unzipped]
      · simp
  | true =>
      refine ⟨trivial, ?_⟩
      rintro _ _ ⟨names, rfl, rfl⟩
      exact ⟨some names, rfl, rfl, rfl⟩

theorem harvest_guarantees (projectId : Option String) (workDir : Path) (exitCode : Int)
    (extra : Fields) (named : projectId = Fields.namedProject world.record)
    (code : world.exitCode = some exitCode) :
    Guarantees (handledMachine kind outputDir)
      (fun after outcome => after = world ∧ ∃ cached,
        outcome = .ok { extra with cachedFiles := cached }) world
      (harvestGenerated kind projectId workDir exitCode extra) := by
  unfold harvestGenerated
  split
  · rename_i projectId
    split
    · rename_i due
      rw [Bool.and_eq_true, decide_eq_true_eq, decide_eq_true_eq] at due
      obtain ⟨generate, success⟩ := due
      refine guarantees_seq _ _ _ (?_ : Guarantees _ (fun after outcome => after = world ∧
        ∀ fields, outcome = .ok fields → ∃ cached, fields = { extra with cachedFiles := cached })
        _ _) ?_
      · refine ⟨fun _ => ⟨generate, named.symm, ?_⟩, ?_⟩
        · rw [Progress.exitCode, Option.map_eq_some_iff] at code
          obtain ⟨statusCode, exited, same⟩ := code
          exact ⟨statusCode, exited, same.trans success⟩
        · rintro harvested _ rfl
          cases harvested with
          | error raised => exact ⟨rfl, fun fields impossible => nomatch impossible⟩
          | ok cached => exact ⟨rfl, fun fields same => ⟨some cached, (Except.ok.inj same).symm⟩⟩
      · rintro after (raised | fields) ⟨rfl, extended⟩
        · exact ⟨rfl, extra.cachedFiles, rfl⟩
        · obtain ⟨cached, rfl⟩ := extended fields rfl
          exact ⟨rfl, cached, rfl⟩
    · exact ⟨rfl, extra.cachedFiles, rfl⟩
  · exact ⟨rfl, extra.cachedFiles, rfl⟩

theorem ended_fields_say (subdir : String) (hasOutput : Bool) (logs : String) (exitCode : Int)
    (extra : Fields) (finished : Nat) (files : extra.files.isSome = true → hasOutput = true) :
    let fields := endedFields kind subdir hasOutput logs exitCode extra finished
    fields.status.isSome = true ∧
      (fields.status = some .success ↔ exitCode = 0 ∧ hasOutput = true) ∧
      fields.exitCode = some exitCode ∧ fields.files = extra.files := by
  unfold endedFields
  by_cases failing : exitCode ≠ 0
  · simp [failing]
  · rw [if_neg failing]
    rw [not_not] at failing
    cases hasOutput with
    | true => simp [failing]
    | false =>
        have none : extra.files = none := by
          cases listed : extra.files with
          | none => rfl
          | some names => exact absurd (files (by rw [listed]; rfl)) (by decide)
        simp [failing, none]

theorem package_guarantees (settings : Settings) (jobId : String) (sandbox : Sandbox)
    (projectId : Option String) (logs : String) (exitCode : Int)
    (place : outputDir = settings.workDir jobId ++ sandbox.outputSubdir)
    (named : projectId = Fields.namedProject world.record)
    (code : world.exitCode = some exitCode) (unzipped : world.zip = none)
    (noFiles : world.record.files = none) :
    Guarantees (handledMachine kind outputDir)
      (fun after outcome => outcome = .ok () ∧ Coherent kind after) world
      (packageOutput settings jobId kind sandbox (kind = .generate) projectId logs exitCode) := by
  subst place
  refine guarantees_seq _ _ _ present_guarantees ?_
  rintro world _ ⟨rfl, rfl⟩
  refine guarantees_seq _ _ _ (zip_guarantees _ sandbox _ world.output unzipped) ?_
  rintro _ _ ⟨zip, rfl, present, rfl⟩
  refine guarantees_seq _ _ _
    (@harvest_guarantees kind _ { world with zip } projectId _ exitCode _ named code) ?_
  rintro _ _ ⟨rfl, cached, rfl⟩
  refine ⟨trivial, ?_⟩
  rintro _ _ ⟨⟨finished, rfl⟩, rfl⟩
  refine ⟨trivial, ?_⟩
  rintro _ _ ⟨rfl, rfl⟩
  refine ⟨rfl, ?_⟩
  dsimp only
  generalize listed : ({
    files := if decide (kind = .generate) = true then zip.map sortedNames else none
    cachedFiles := cached } : Fields) = extra
  have files : extra.files = if kind = .generate then zip.map sortedNames else none := by
    simp [← listed]
  have said := @ended_fields_say kind ("/".intercalate sandbox.outputSubdir) world.output logs
    exitCode extra finished (by
      intro some
      rw [← present]
      by_cases generate : kind = .generate
      · simpa [files, generate] using some
      · simp [files, generate] at some)
  dsimp only at said
  generalize endedFields kind _ world.output logs exitCode extra finished = fields at said
  obtain ⟨settled, success, exit, written⟩ := said
  rw [files] at written
  obtain ⟨status, writes⟩ := Option.isSome_iff_exists.mp settled
  have here : Progress.exitCode { world with record := world.record.override fields, zip } =
      some exitCode := code
  have output : Progress.output { world with record := world.record.override fields, zip } =
      world.output := rfl
  constructor
  · have status : (world.record.override fields).status = fields.status := by
      rw [override_status, writes]
      rfl
    rw [here, output, status, success, Option.some.injEq]
  · rw [here, output, present, Option.isSome_some, eq_self, true_and]
  · simp only [Fields.override, written, noFiles]
    split
    · cases zip <;> rfl
    · rfl
  · rw [here]
    simp [Fields.override, exit]

end Parts

/-- Whatever a run is answered, as long as nothing is raised that it does not
handle: it returns, unless the client refuses to wait, and its job is coherent. -/
theorem outcome_coherent (settings : Settings) (jobId : String) (kind : Kind) (command : String)
    (sandbox : Sandbox) (fields : Fields) (outputIsDir outputIsLink : Bool) :
    Guarantees (handledMachine kind (settings.workDir jobId ++ sandbox.outputSubdir))
      (fun world outcome => (outcome = .ok () ∨ settings.buildPollInterval ≤ 0) ∧
        (outcome = .ok () → Coherent kind world))
      { record := submitted fields, outputIsDir, outputIsLink }
      (runSandboxed settings jobId kind command sandbox (kind = .generate)) := by
  have ends : ∀ {world : Progress} {first : JobProgram Unit},
      Guarantees (handledMachine kind (settings.workDir jobId ++ sandbox.outputSubdir))
        (fun after outcome => outcome = .ok () ∧ Barren after) world first →
      Guarantees (handledMachine kind (settings.workDir jobId ++ sandbox.outputSubdir))
        (fun world outcome => (outcome = .ok () ∨ settings.buildPollInterval ≤ 0) ∧
          (outcome = .ok () → Coherent kind world)) world first := by
    intro world first settles
    apply guarantees_mono _ _ _ settles
    rintro after outcome ⟨rfl, barren⟩
    exact ⟨.inl rfl, fun _ => barren_coherent barren⟩
  have start : Barren { record := submitted fields, outputIsDir, outputIsLink } :=
    ⟨rfl, rfl, rfl, rfl, by simp [submitted]⟩
  unfold runSandboxed
  split
  · exact ends (settle_guarantees start _ (fun _ => rfl) (fun _ => rfl) (fun _ => by simp))
  · refine ⟨trivial, ?_⟩
    rintro _ _ ⟨⟨flag, rfl⟩, rfl⟩
    simp only [done_and_then, on_value_ok, Option.getD_some]
    split
    · exact ends (settle_guarantees start _ (fun _ => rfl) (fun _ => rfl) (fun _ => by simp))
    · refine ⟨trivial, ?_⟩
      rintro _ _ ⟨⟨started, rfl⟩, rfl⟩
      refine ⟨trivial, ?_⟩
      rintro _ _ ⟨rfl, rfl⟩
      have running := @barren_write _ start
        { status := some .running, startedAt := some started } rfl rfl (by simp)
      refine ⟨trivial, ?_⟩
      rintro _ _ ⟨⟨_, rfl⟩, rfl⟩
      simp only [done_and_then, on_value_ok]
      refine guarantees_seq _ _ _ (volumes_guarantees rfl _ _ _) ?_
      rintro _ _ ⟨rfl, volumes, rfl⟩
      refine ⟨trivial, ?_⟩
      rintro _ _ ⟨⟨_, rfl⟩, rfl⟩
      simp only [done_and_then, on_value_ok]
      refine guarantees_seq _ _ _ (supervise_guarantees running settings sandbox _) ?_
      rintro after (raised | _ | ⟨logs, exitCode⟩) ended
      · exact ⟨.inr ended.1, fun impossible => nomatch impossible⟩
      · exact ⟨.inl rfl, fun _ => barren_coherent ended⟩
      · obtain ⟨code, unzipped, same, -⟩ := ended
        apply guarantees_mono _ _ _ (package_guarantees settings jobId sandbox _ logs exitCode rfl
          (by rw [same]; rfl) code unzipped (by rw [same]; exact running.files))
        rintro last outcome ⟨rfl, coherent⟩
        exact ⟨.inl rfl, fun _ => coherent⟩

end PretextBuildServer.OutcomeCoherence
