import PretextBuildServer.ArchiveSystem
import PretextBuildServer.ResultEndpoints

/-!
# Which states offer an archive that can be fetched

The status and the callback look at the file, the artifact endpoint at the
status as well. They agree exactly where the file stands next to a terminal
status only; while the worker packs, and until its last write, they do not.
-/

namespace PretextBuildServer.ArtifactOffer

open EffectProgram EffectProgram.Program InterleavedParties
open PretextBuildServer.ServerSettings PretextBuildServer.JobRecord PretextBuildServer.JobCalls
open PretextBuildServer.StoreCalls PretextBuildServer.CompletionCallback
open PretextBuildServer.ApiEndpoints PretextBuildServer.ResultEndpoints
open PretextBuildServer.JobSystem PretextBuildServer.ArchiveSystem

set_option autoImplicit false

variable (job : Job) (world : ArchiveWorld)

def archivePath : Path := job.settings.jobDir job.jobId ++ ["output.zip"]

/-- The state answers, and nothing changes while it does. -/
def inState : Handler JobCall.Answer Raised ArchiveWorld
  | world, .hgetall _ => (.ok (world.job.record.map Key.fields), world)
  | world, .isFile path => (.ok (path = archivePath job && world.zip ≠ .absent), world)
  | world, request => ((obliging .persistent world.job request).1, world)

def StatusOffers (kind : Kind) : Prop :=
  ∃ response, (run (inState job) world (status job.settings job.jobId kind)).1 = .ok response ∧
    response.artifactUrl.isSome = true

/-- A GET of the artifact answers the archive. -/
def Serves (kind : Kind) : Prop :=
  ∃ file, (run (inState job) world (artifact job.settings job.jobId kind)).1 = .ok file ∧
    file.path = archivePath job

def PayloadOffers (data : Fields) : Prop :=
  ∃ body, (run (inState job) world (buildPayload job.settings job.jobId data)).1 = .ok body ∧
    body.artifactUrl.isSome = true

/-- What is offered can be fetched, and what can be fetched is offered. -/
structure OffersAgree : Prop where
  status : ∀ kind, StatusOffers job world kind ↔ Serves job world kind
  payload : ∀ key, world.job.record = some key →
    (PayloadOffers job world key.fields ↔ Serves job world (key.fields.kind.getD .build))

/-- An archive stands next to a terminal status only. -/
def FinishedWithArchive : Prop :=
  ∀ key, world.job.record = some key → world.zip ≠ .absent → key.fields.isTerminal = true

section Answers

variable {job world} {kind : Kind}

/-- The record an endpoint goes on with: there is one, of the endpoint's kind. -/
def Loads (world : ArchiveWorld) (kind : Kind) (key : Key) : Prop :=
  world.job.record = some key ∧ key.fields.kind.getD .build = kind

theorem run_load {key : Key} (loads : Loads world kind key) :
    run (inState job) world (load kind) = (.ok key.fields, world) := by
  obtain ⟨found, rfl⟩ := loads
  simp only [load, storeGet, bind_is_and_then, run_and_then, run_perform, inState, found,
    Option.map_some, on_value_ok, ne_eq, not_true_eq_false, if_false, pure_is_done, run_done]

theorem run_load_missing (missing : ∀ key, ¬ Loads world kind key) :
    ∃ raised, run (inState job) world (load kind) = (.error raised, world) := by
  simp only [load, storeGet, bind_is_and_then, run_and_then, run_perform, inState]
  cases found : world.job.record with
  | none => exact ⟨_, rfl⟩
  | some key =>
      have other : key.fields.kind.getD .build ≠ kind := fun same => missing key ⟨found, same⟩
      simp only [Option.map_some, on_value_ok, ne_eq, other, not_false_eq_true, if_true]
      exact ⟨_, rfl⟩

theorem run_is_file {Result : Type} (next : Bool → JobProgram Result) :
    run (inState job) world (isFile (archivePath job) >>= next) =
      run (inState job) world (next (world.zip ≠ .absent)) := by
  rw [bind_is_and_then, run_and_then, isFile, run_perform]
  simp [inState]

theorem status_offers_iff :
    StatusOffers job world kind ↔ world.zip ≠ .absent ∧ ∃ key, Loads world kind key := by
  unfold StatusOffers status
  rw [bind_is_and_then, run_and_then]
  by_cases loaded : ∃ key, Loads world kind key
  · obtain ⟨key, loads⟩ := loaded
    rw [run_load loads]
    simp only [on_value_ok]
    rw [show job.settings.jobDir job.jobId ++ ["output.zip"] = archivePath job from rfl, run_is_file]
    by_cases present : world.zip = .absent
    · simp [present, statusOfRecord]
    · simp only [pure_is_done, run_done, ne_eq, present, not_false_eq_true, decide_true, true_and]
      exact iff_of_true ⟨_, rfl, rfl⟩ ⟨key, loads⟩
  · obtain ⟨raised, missing⟩ := @run_load_missing job world kind (by simpa using loaded)
    rw [missing]
    simp [loaded]

theorem serves_iff :
    Serves job world kind ↔
      world.zip ≠ .absent ∧ ∃ key, Loads world kind key ∧ key.fields.isTerminal = true := by
  unfold Serves artifact
  rw [bind_is_and_then, run_and_then]
  by_cases loaded : ∃ key, Loads world kind key
  · obtain ⟨key, loads⟩ := loaded
    have only : (∃ key, Loads world kind key ∧ key.fields.isTerminal = true) ↔
        key.fields.isTerminal = true := by
      constructor
      · rintro ⟨other, ⟨found, -⟩, terminal⟩
        rw [loads.1] at found
        cases found
        exact terminal
      · exact fun terminal => ⟨key, loads, terminal⟩
    rw [run_load loads, only]
    simp only [on_value_ok]
    cases key.fields.isTerminal with
    | false => simp [httpException]
    | true =>
        simp only [Bool.not_true, Bool.false_eq_true, if_false]
        rw [show job.settings.jobDir job.jobId ++ ["output.zip"] = archivePath job from rfl,
          run_is_file]
        by_cases present : world.zip = .absent
        · simp [present, httpException]
        · simp [present]
  · obtain ⟨raised, missing⟩ := @run_load_missing job world kind (by simpa using loaded)
    have none : ¬ ∃ key, Loads world kind key ∧ key.fields.isTerminal = true :=
      fun ⟨key, loads, _⟩ => loaded ⟨key, loads⟩
    rw [missing]
    simp [none]

theorem payload_offers_iff (data : Fields) :
    PayloadOffers job world data ↔ world.zip ≠ .absent := by
  unfold PayloadOffers buildPayload
  dsimp only
  rw [show job.settings.jobDir job.jobId ++ ["output.zip"] = archivePath job from rfl, run_is_file]
  by_cases present : world.zip = .absent
  · simp [present]
  · simp [present]

theorem agree_finished (agree : OffersAgree job world) : FinishedWithArchive world := by
  intro key found present
  obtain ⟨-, other, loads, terminal⟩ :=
    serves_iff.mp ((agree.payload key found).mp ((payload_offers_iff _).mpr present))
  have same := loads.1
  rw [found] at same
  cases same
  exact terminal

theorem finished_agree (finished : FinishedWithArchive world) : OffersAgree job world := by
  have serves : ∀ kind key, Loads world kind key → world.zip ≠ .absent → Serves job world kind :=
    fun kind key loads present =>
      serves_iff.mpr ⟨present, key, loads, finished key loads.1 present⟩
  constructor
  · intro kind
    rw [status_offers_iff]
    constructor
    · rintro ⟨present, key, loads⟩
      exact serves kind key loads present
    · intro served
      obtain ⟨present, key, loads, -⟩ := serves_iff.mp served
      exact ⟨present, key, loads⟩
  · intro key found
    rw [payload_offers_iff]
    constructor
    · exact serves _ key ⟨found, rfl⟩
    · exact fun served => (serves_iff.mp served).1

end Answers

/-- In any state whatsoever, what is offered can be fetched, and the other way
round, exactly if no archive stands next to a status that is not terminal. -/
theorem offered_artifact_fetchable_iff : OffersAgree job world ↔ FinishedWithArchive world :=
  ⟨agree_finished, finished_agree⟩

/-- The worker has packed the output and not written the status yet. -/
theorem packed_archive_offered_early :
    ¬ ∀ (job : Job) (clock : Nat) (reached : ArchiveConfiguration),
      Reaches (archiveSurroundings .persistent) (startArchive job clock) reached →
      OffersAgree job reached.world := by
  intro always
  let packed := play (obligingArchive .persistent) (fun world _ => canTurnArchive world)
    (List.replicate 8 .submission ++ List.replicate 14 .worker) (startArchive plainBuild 0)
  have run : Reaches (archiveSurroundings .persistent) (startArchive plainBuild 0) packed :=
    play_reaches _ _ _ (fun world _ request => obliging_archive_step .persistent world request) _ _
  have whole : packed.world.zip = .whole := by decide +kernel
  have status : packed.world.job.status = some .running := by decide +kernel
  have finished := agree_finished (always plainBuild 0 packed run)
  cases found : packed.world.job.record with
  | none => simp [JobWorld.status, found] at status
  | some key =>
      have terminal := finished key found (by simp [whole])
      simp only [JobWorld.status, found, Option.bind_some] at status
      simp [Fields.isTerminal, status, Status.terminal] at terminal

end PretextBuildServer.ArtifactOffer
