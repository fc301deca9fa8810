import PretextBuildServer.Library.PosixTrees
import PretextBuildServer.PruneProtocol
import PretextBuildServer.TidyCache

/-!
# What harvests, touches and prunes leave

From a cache that is not there yet on, whatever these do to it, in whatever
order and for whichever projects, it stays one of directories and files.
-/

namespace PretextBuildServer.CacheStates

open EffectProgram EffectProgram.Program PosixDisk
open PretextBuildServer.ServerSettings PretextBuildServer.JobCalls
open PretextBuildServer.NameValidators PretextBuildServer.DiskCalls PretextBuildServer.AssetCache
open PretextBuildServer.HarvestRuns PretextBuildServer.HarvestConfinement
open PretextBuildServer.PruneProtocol PretextBuildServer.TidyCache

set_option autoImplicit false

section Kept

variable {settings : Settings} {project assetType : String} {dirs : Names} {world : DiskWorld}

theorem plain_dirs (plain : PlainPaths settings) (valid : matchesProjectId project.toList = true)
    (ofType : assetType ∈ settings.assetCacheTypes)
    (named : ∀ dir ∈ dirs, matchesSubdirName dir.toList = true) :
    ∀ part ∈ root settings ++ project :: assetType :: dirs, isPlain part = true := by
  obtain ⟨first, more, starts, noDot⟩ := project_id_starts valid
  rw [List.forall_mem_append, List.forall_mem_cons, List.forall_mem_cons]
  exact ⟨plain.1, plain_of_first starts noDot, plain.2 assetType ofType,
    fun dir member => subdir_plain (named dir member)⟩

theorem scan_cases (world : DiskWorld) (path : Path) :
    world.scandir path = refused ∨ ∃ entries, world.scandir path = .ok entries := by
  unfold DiskWorld.scandir
  split
  · split
    · exact .inr ⟨_, rfl⟩
    · exact .inl rfl
  · exact .inl rfl

theorem harvest_dir_underway (plain : PlainPaths settings)
    (valid : matchesProjectId project.toList = true)
    (ofType : assetType ∈ settings.assetCacheTypes) (pid : Nat) (srcTypeDir : Path) (depth : Nat)
    (named : ∀ dir ∈ dirs, matchesSubdirName dir.toList = true) {start : Disk}
    (underway : Underway settings project start world.drive.disk) (added : List String) :
    ∃ after all, run onDisk world
        (harvestDir pid (cacheRoute settings project assetType srcTypeDir) depth dirs added) =
        (.ok all, after) ∧ Underway settings project start after.drive.disk := by
  induction depth generalizing dirs world added with
  | zero => exact ⟨world, added, rfl, underway⟩
  | succ depth induction =>
      rw [harvestDir, run_and_then, run_perform]
      dsimp only [onDisk]
      rcases scan_cases world (srcTypeDir ++ dirs) with refuses | ⟨entries, scanned⟩
      · exact ⟨world, added, by simp only [cacheRoute, refuses]; rfl, underway⟩
      · simp only [cacheRoute, scanned, bind_is_and_then, run_and_then, on_value_ok,
          run_select (fun d => run_is_plain_subdir (srcTypeDir ++ dirs) d)]
        obtain ⟨middle, found, files, still⟩ := run_fold
          (fun (world : DiskWorld) (_ : List String) => Underway settings project start world.drive.disk)
          (harvestFile pid (cacheRoute settings project assetType srcTypeDir) dirs)
          ((entries.filter fun entry => !entry.isDir).map (·.name)) (by
            intro world added name _ underway
            obtain ⟨news, after, completes, harvested, -⟩ := harvest_file_completes
              (underway_tidy underway) (plain_dirs plain valid ofType named) named pid srcTypeDir added
            exact ⟨after, _, completes.runs, underway_trans underway ⟨_, _, harvested⟩⟩)
          world added underway
        rw [cacheRoute] at files
        simp only [files, on_value_ok, run_and_then,
          run_select (fun d => run_is_not_link (srcTypeDir ++ dirs ++ [d]))]
        apply run_fold
          (fun (world : DiskWorld) (_ : List String) => Underway settings project start world.drive.disk)
          _ _ _ middle found still
        intro world added d member underway
        obtain ⟨chosen, -⟩ := List.mem_filter.mp member
        obtain ⟨-, matched⟩ := List.mem_filter.mp chosen
        rw [Bool.and_eq_true] at matched
        apply induction _ underway
        exact List.forall_mem_append.mpr ⟨named, List.forall_mem_singleton.mpr matched.1⟩

theorem harvest_underway (plain : PlainPaths settings) (pid depth : Nat) (workDir : Path)
    (tidy : Tidy settings project world.drive.disk) :
    Underway settings project world.drive.disk
      (run onDisk world (harvest settings pid depth project workDir)).2.drive.disk := by
  unfold harvest projectDir
  by_cases valid : matchesProjectId project.toList = true
  · simp only [if_pos valid, pure_bind]
    have all : ∃ after added, run onDisk world (settings.assetCacheTypes.foldlM (harvestType pid depth
        (workDir ++ settings.generateOutputSubdir) (root settings ++ [project])) []) =
        (.ok added, after) ∧ Underway settings project world.drive.disk after.drive.disk := by
      apply run_fold (fun (now : DiskWorld) (_ : List String) =>
        Underway settings project world.drive.disk now.drive.disk) _ _ _ world [] (underway_start tidy)
      intro now added assetType ofType underway
      unfold harvestType
      rw [bind_is_and_then, run_and_then, run_is_real_dir, on_value_ok]
      split
      · exact harvest_dir_underway plain valid ofType pid _ depth (by simp) underway added
      · exact ⟨now, added, rfl, underway⟩
    obtain ⟨after, added, ran, still⟩ := all
    rw [ran]
    exact still
  · rw [if_neg valid]
    exact underway_start tidy

theorem touch_type_completes (plain : PlainPaths settings)
    (valid : matchesProjectId project.toList = true)
    (ofType : assetType ∈ settings.assetCacheTypes)
    (tidy : Tidy settings project world.drive.disk) :
    ∃ after, Completes onDisk world (touchType (root settings ++ [project]) assetType) () after ∧
      Harvested settings project [] world.drive.disk [] after.drive.disk ∧
      after.drive.disk.find (root settings ++ [project]) = some .directory := by
  have spelled : root settings ++ [project] ++ [assetType] = root settings ++ [project, assetType] := by
    simp
  have dir : CacheDir [assetType] := by simp [CacheDir]
  have plainDir := @plain_dirs settings project assetType [] plain valid ofType (by simp)
  obtain ⟨later, paved⟩ := make_dirs_paves (tidy_unlinked tidy dir plainDir) (tidy_no_file tidy dir)
  have made := paved_harvested tidy dir paved
  have exist : later.disk.exist (root settings ++ [project, assetType]) = true := by
    rw [exist_unlinked (tidy_unlinked made.tidy dir plainDir), paved.found, if_pos List.prefix_rfl]
    rfl
  have makes : onDisk world (.makedirs (root settings ++ [project, assetType])) =
      (.ok (), { world with drive := later }) := by
    rw [onDisk, DiskWorld.lift, paved.made]
    rfl
  have marks : onDisk { world with drive := later } (.chmod (root settings ++ [project, assetType])) =
      (.ok (), { world with drive := later }) := by
    rw [onDisk, exist]
    rfl
  refine ⟨{ world with drive := later }, ?_, made, ?_⟩
  · rw [touchType, spelled]
    exact completes_bind (completes_call makes) (completes_call marks)
  · rw [paved.found, if_pos ⟨[assetType], by simp⟩]

theorem types_complete (plain : PlainPaths settings)
    (valid : matchesProjectId project.toList = true)
    (types : List String) (ofSettings : ∀ assetType ∈ types, assetType ∈ settings.assetCacheTypes)
    (tidy : Tidy settings project world.drive.disk) :
    ∃ after, Completes onDisk world (types.forM (touchType (root settings ++ [project]))) () after ∧
      Harvested settings project [] world.drive.disk [] after.drive.disk ∧
      (types ≠ [] → after.drive.disk.find (root settings ++ [project]) = some .directory) := by
  induction types generalizing world with
  | nil =>
      exact ⟨world, completes_pure world (), harvested_nothing tidy (by simp), fun some => absurd rfl some⟩
  | cons assetType types induction =>
      obtain ⟨ofType, others⟩ := List.forall_mem_cons.mp ofSettings
      obtain ⟨middle, first, made, inside⟩ := touch_type_completes plain valid ofType tidy
      obtain ⟨after, rest, further, -⟩ := induction others made.tidy
      exact ⟨after, completes_bind first rest, harvested_trans made further,
        fun _ => (further.steady _).1 inside⟩

theorem touch_completes (plain : PlainPaths settings)
    (valid : matchesProjectId project.toList = true)
    (some : settings.assetCacheTypes ≠ []) (tidy : Tidy settings project world.drive.disk) :
    ∃ after, Completes onDisk world (touch settings project) () after ∧
      Harvested settings project [] world.drive.disk [] after.drive.disk := by
  obtain ⟨middle, completes, made, directory⟩ :=
    types_complete plain valid settings.assetCacheTypes (fun _ => id) tidy
  have inside := directory some
  obtain ⟨assetType, ofType⟩ := List.exists_mem_of_ne_nil _ some
  have plainDir : ∀ part ∈ root settings ++ [project], isPlain part = true := by
    have whole := @plain_dirs settings project assetType [] plain valid ofType (by simp)
    exact fun part member => whole part (by simp at member ⊢; tauto)
  let stamped : DiskWorld := { middle with
    lastUse := Function.update middle.lastUse (root settings ++ [project]) (middle.clock / 1000000000) }
  have stamps : onDisk middle (.utime (root settings ++ [project])) = (.ok (), stamped) := by
    have located := locate_straight (straight_to_directory plainDir inside)
    simp only [onDisk, located, inside, Option.isSome_some, if_true]
    rfl
  refine ⟨stamped, ?_, made⟩
  unfold touch projectDir
  rw [if_pos valid, pure_bind]
  exact completes_bind completes (completes_call stamps)

theorem touch_underway (plain : PlainPaths settings)
    (tidy : Tidy settings project world.drive.disk) :
    Underway settings project world.drive.disk (run onDisk world (touch settings project)).2.drive.disk := by
  unfold touch projectDir
  by_cases valid : matchesProjectId project.toList = true
  · obtain ⟨after, completes, made, -⟩ :=
      types_complete plain valid settings.assetCacheTypes (fun _ => id) tidy
    simp only [if_pos valid, pure_bind]
    rw [bind_is_and_then, run_and_then, completes.runs, on_value_ok, run_perform, look_keeps_drive after rfl]
    exact ⟨_, _, made⟩
  · rw [if_neg valid]
    exact underway_start tidy

theorem others_tidy {start now : Disk} {other : String}
    (underway : Underway settings project start now)
    (tidy : Tidy settings other start) : Tidy settings other now := by
  by_cases same : other = project
  · rw [same]
    exact underway_tidy underway
  · obtain ⟨items, news, harvested⟩ := underway
    refine ⟨harvested.tidy.above, ?_⟩
    intro rest entry found
    rw [harvested.only.1] at found
    · exact tidy.below rest entry found
    · rintro (within | within)
      · have front := (List.prefix_append_right_inj _).mp within
        exact same (List.cons_prefix_cons.mp front).1
      · have front := (List.prefix_append_right_inj _).mp within
        exact same (List.cons_prefix_cons.mp front).1.symm

theorem fewer_tidy {disk later : Disk} (tidy : Tidy settings project disk)
    (before : ∀ place entry, later.find place = some entry → disk.find place = some entry) :
    Tidy settings project later := by
  constructor
  · intro front within
    cases found : later.find front with
    | none => exact .inl rfl
    | some entry =>
        rcases tidy.above front within with none | directory
        · rw [before front entry found] at none
          cases none
        · rw [before front entry found] at directory
          exact .inr directory
  · intro rest entry found
    exact tidy.below rest entry (before _ entry found)

theorem dropped_tidy {drive : Drive} (tidy : Tidy settings project drive.disk) (place : Place) :
    Tidy settings project (drive.settle () (drive.drop place)).2.disk := by
  rcases settle_cases drive () (drive.drop place) with ⟨-, refused⟩ | ⟨later, drop, settled⟩
  · rw [refused]
    exact tidy
  · rw [settled]
    exact fewer_tidy tidy fun _ _ => found_before (drop_without (drive_drop_some drop).1)

theorem prune_call_tidy (world : DiskWorld) (request : DiskCall) (calls : pruneCall request)
    (tidy : Tidy settings project world.drive.disk) :
    Tidy settings project (onDisk world request).2.drive.disk := by
  cases request with
  | remove path =>
      rw [onDisk, DiskWorld.lift, Drive.remove]
      split
      · exact tidy
      · split
        · exact tidy
        · exact tidy
        · exact dropped_tidy tidy _
  | rmdir path =>
      rw [onDisk, DiskWorld.lift, Drive.rmdir]
      split
      · exact tidy
      · split
        · exact dropped_tidy tidy _
        · exact tidy
  | _ =>
      first
      | rw [look_keeps_drive world rfl]
        exact tidy
      | cases calls

theorem prune_tidy (current : Settings) (depth : Nat) (keepProjectId : Option String)
    (tidy : Tidy settings project world.drive.disk) :
    Tidy settings project (run onDisk world (prune current depth keepProjectId)).2.drive.disk :=
  @run_keeps _ _ _ _ _ _ onDisk (fun world => Tidy settings project world.drive.disk) prune_call_tidy world _
    (prune_makes current depth keepProjectId) tidy

end Kept

/-! ## The states of a cache -/

/-- The caches of certain projects stay as they are. Others may lie beside them, and
directories may come on the way there. -/
structure Spared (settings : Settings) (projects : String → Prop) (disk later : Disk) : Prop where
  above : ∀ front, front <+: root settings →
    disk.find front = none ∨ disk.find front = some .directory →
    later.find front = none ∨ later.find front = some .directory
  below : ∀ project, projects project → ∀ rest,
    later.find (root settings ++ project :: rest) = disk.find (root settings ++ project :: rest)

/-- Nobody but harvests, touches and prunes has been at the caches of certain projects,
in the directory `root settings`. From one to the next the other settings may differ. -/
inductive Produced (settings : Settings) (projects : String → Prop) : DiskWorld → Prop
  | fresh (world : DiskWorld)
      (above : ∀ front, front <+: root settings →
        world.drive.disk.find front = none ∨ world.drive.disk.find front = some .directory)
      (empty : ∀ project, projects project → world.drive.disk.find (root settings ++ [project]) = none) :
      Produced settings projects world
  | harvested (world : DiskWorld) (current : Settings) (pid depth : Nat) (project : String)
      (workDir : Path) (before : Produced settings projects world) (ofThese : projects project)
      (same : root current = root settings) (plain : PlainPaths current) :
      Produced settings projects (run onDisk world (harvest current pid depth project workDir)).2
  | touched (world : DiskWorld) (current : Settings) (project : String)
      (before : Produced settings projects world) (ofThese : projects project)
      (same : root current = root settings) (plain : PlainPaths current) :
      Produced settings projects (run onDisk world (touch current project)).2
  | pruned (world : DiskWorld) (current : Settings) (depth : Nat) (keepProjectId : Option String)
      (before : Produced settings projects world) :
      Produced settings projects (run onDisk world (prune current depth keepProjectId)).2
  | elsewhere (world later : DiskWorld) (before : Produced settings projects world)
      (spared : Spared settings projects world.drive.disk later.drive.disk) :
      Produced settings projects later

theorem tidy_of_root {settings current : Settings} {project : String} {disk : Disk}
    (same : root current = root settings) (tidy : Tidy settings project disk) :
    Tidy current project disk := by
  obtain ⟨above, below⟩ := tidy
  rw [← same] at above below
  exact ⟨above, below⟩

theorem spared_tidy {settings : Settings} {projects : String → Prop} {project : String}
    {disk later : Disk} (spared : Spared settings projects disk later) (ofThese : projects project)
    (tidy : Tidy settings project disk) : Tidy settings project later := by
  constructor
  · exact fun front within => spared.above front within (tidy.above front within)
  · intro rest entry found
    rw [spared.below project ofThese] at found
    exact tidy.below rest entry found

theorem produced_tidy {settings : Settings} {projects : String → Prop} {world : DiskWorld}
    (produced : Produced settings projects world) {project : String} (ofThese : projects project) :
    Tidy settings project world.drive.disk := by
  induction produced generalizing project with
  | fresh world above empty =>
      refine ⟨above, ?_⟩
      intro rest entry found
      rw [List.append_cons, below_free (empty project ofThese)] at found
      cases found
  | harvested world current pid depth other workDir before member same plain tidy =>
      have underway := harvest_underway plain pid depth workDir (tidy_of_root same (tidy member))
      exact tidy_of_root same.symm (others_tidy underway (tidy_of_root same (tidy ofThese)))
  | touched world current other before member same plain tidy =>
      have underway := touch_underway plain (tidy_of_root same (tidy member))
      exact tidy_of_root same.symm (others_tidy underway (tidy_of_root same (tidy ofThese)))
  | pruned world current depth keepProjectId before tidy =>
      exact prune_tidy current depth keepProjectId (tidy ofThese)
  | elsewhere world later before spared tidy => exact spared_tidy spared ofThese (tidy ofThese)

end PretextBuildServer.CacheStates
