import PretextBuildServer.CacheInvariant

/-!
# No half-written cache file

As long as no link stands on the way of a copy, every cache file is whole at
every moment, and is the file of its own path in one of the work directories.
-/

namespace PretextBuildServer.CacheCompleteness

open EffectProgram EffectProgram.Program InterleavedParties PosixDisk
open PretextBuildServer.ServerSettings PretextBuildServer.JobCalls
open PretextBuildServer.NameValidators PretextBuildServer.DiskCalls
open PretextBuildServer.AssetCache PretextBuildServer.HarvestConfinement
open PretextBuildServer.CacheSystem PretextBuildServer.HarvestProtocol
open PretextBuildServer.CacheChanges PretextBuildServer.CacheInvariant

set_option autoImplicit false

/-- Every cache file holds what it held at the start, or the bytes of the file
that stands at the same path among a caller's generated files. -/
def EntriesWhole {Caller : Type} (calls : Calls Caller) (base : DiskWorld)
    (world : CacheWorld Caller) : Prop :=
  ∀ dir name content, matchesCacheFilename name.toList = true →
    world.base.drive.disk.find (calls.pdir ++ dir ++ [name]) = some (.file content) →
    base.drive.disk.find (calls.pdir ++ dir ++ [name]) = some (.file content) ∨
      ∃ caller, calls.sources (cacheRoot calls caller ++ dir ++ [name]) = some content

/-- In every run of harvests and prunes in which no link stands on the way when a
copy is opened or renamed. -/
theorem cache_files_whole {Caller : Type} [DecidableEq Caller] (calls : Calls Caller)
    (plain : PlainPaths calls.settings) (valid : matchesProjectId calls.projectId.toList = true)
    (base : DiskWorld) (reached : CacheConfiguration Caller)
    (reaches : Reaches (unobstructed calls) (calls.start base) reached) :
    EntriesWhole calls base reached.world := by
  obtain ⟨phases, intact, -⟩ := reached_intact plain valid reaches
  intro dir name content cached found
  rcases intact.entries { dir, name } content cached (file_at_some.mpr found) with before | source
  · exact .inl (file_at_some.mp before)
  · exact .inr source

/-! ## Two jobs with a figure each -/

/-- Job `k` has another figure under the name job `j` has its own under. -/
def secondFigure : List (Place × Entry) := [
  (["data", "jobs", "k"], .directory), (defaults.workDir "k", .directory),
  (defaults.workDir "k" ++ [".cache"], .directory),
  (defaults.workDir "k" ++ [".cache", "latex-image"], .directory),
  (defaults.workDir "k" ++ [".cache", "latex-image", "sub"], .directory),
  (defaults.workDir "k" ++ [".cache", "latex-image", "sub", cacheKey], .file [2])]

def race : DiskWorld := twoProjects secondFigure

def raceCalls : Calls Bool where
  settings := { defaults with assetCacheTypes := ["latex-image"] }
  projectId := "p"
  pid := fun _ => 7
  depth := fun _ => 4
  workDir := fun first => if first then defaults.workDir "j" else defaults.workDir "k"
  keepProjectId := fun _ => none
  sources := fun path => match race.drive.disk.stat path with
    | some (.file bytes) => some bytes
    | _ => none

/-- There is room for a byte, and the project that is kept has two. -/
def crowdedCalls : Calls Bool :=
  { raceCalls with
    settings := { raceCalls.settings with assetCacheMaxBytes := 1 }
    keepProjectId := fun _ => some "q" }

def crowded : DiskWorld := twoProjects (secondFigure ++ [(typeDir "q" ++ [cacheKey], .file [7, 7])])

/-- A prune is under way when the first harvest puts its figure into the cache, and
when the second writes its copy. -/
def crowdedRun : CacheConfiguration Bool :=
  playBy wayIsClear crowdedCalls.answer
    (List.replicate 13 (.harvest true) ++ List.replicate 5 (.prune true) ++
      List.replicate 3 (.harvest true) ++ List.replicate 12 (.prune true) ++
      List.replicate 14 (.harvest false) ++ List.replicate 14 (.prune true) ++
      List.replicate 14 (.harvest false))
    (crowdedCalls.start crowded)

/-- The figure of the first is evicted, and that of the second takes its place. -/
theorem crowded_cache_files_whole :
    .evicted (typeDir "p" ++ ["sub", cacheKey]) ∈ crowdedRun.world.log ∧
      crowdedRun.world.base.drive.disk.find (typeDir "p" ++ ["sub", cacheKey]) = some (.file [2]) ∧
      EntriesWhole crowdedCalls crowded crowdedRun.world := by
  refine ⟨by decide +kernel, by decide +kernel, ?_⟩
  apply cache_files_whole crowdedCalls ⟨by decide, by decide⟩ (by decide)
  apply play_by_reaches
  intro world party request clear
  exact ⟨answer_is_step _ party world request, clear_of_check clear⟩

/-! ## A link in the cache -/

def figureCalls (base : DiskWorld) : Calls Unit where
  settings := { defaults with assetCacheTypes := ["latex-image"] }
  projectId := "p"
  pid := fun _ => 7
  depth := fun _ => 4
  workDir := fun _ => defaults.workDir "j"
  keepProjectId := fun _ => none
  sources := fun path => match base.drive.disk.stat path with
    | some (.file bytes) => some bytes
    | _ => none

def looped : DiskWorld :=
  twoProjects [(typeDir "p" ++ ["sub"], .link { absolute := false, names := ["..", "latex-image"] })]

def figureRun (allowed : CacheWorld Unit → Party Unit → DiskCall → Bool) (base : DiskWorld)
    (turns : Nat) : CacheConfiguration Unit :=
  playBy allowed (figureCalls base).answer (List.replicate turns (.harvest ()))
    ((figureCalls base).start base)

/-- With the link, the figure lands at a path it was not harvested for. -/
theorem linked_cache_file_misplaced :
    ¬ ∀ (calls : Calls Unit) (base : DiskWorld) (reached : CacheConfiguration Unit),
      PlainPaths calls.settings → matchesProjectId calls.projectId.toList = true →
      Reaches calls.surroundings (calls.start base) reached →
      EntriesWhole calls base reached.world := by
  intro always
  have whole := always (figureCalls looped) looped (figureRun (fun _ _ _ => true) looped 24)
    ⟨by decide, by decide⟩ (by decide)
    (play_by_reaches _ _ _ (fun world party request _ => answer_is_step _ party world request) _ _)
    ["latex-image"] cacheKey [1] (by decide +kernel) (by decide +kernel)
  rcases whole with before | ⟨⟨⟩, source⟩
  · exact absurd before (by decide +kernel)
  · exact absurd source (by decide +kernel)

end PretextBuildServer.CacheCompleteness
