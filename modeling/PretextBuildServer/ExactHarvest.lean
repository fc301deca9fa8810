import PretextBuildServer.CacheStates
import PretextBuildServer.TreeWalks

/-!
# What a harvest copies

From a tree apart from the cache, a harvest takes in what the walk comes upon:
the plain files with the name of a cache file, below real directories with plain
names. Nothing it calls fails, and a second harvest finds nothing to do.
-/

namespace PretextBuildServer.ExactHarvest

open EffectProgram EffectProgram.Program PosixDisk WriteOnce
open PretextBuildServer.ServerSettings PretextBuildServer.JobCalls
open PretextBuildServer.NameValidators PretextBuildServer.DiskCalls PretextBuildServer.AssetCache
open PretextBuildServer.HarvestRuns PretextBuildServer.HarvestConfinement
open PretextBuildServer.PathTexts PretextBuildServer.TidyCache PretextBuildServer.CacheStates
open PretextBuildServer.TreeWalks (Down link_below located_below scan_down chosen_names flat_map_filter)

set_option autoImplicit false

/-! ## Loops -/

section Loops

variable {settings : Settings} {project : String}

theorem entry_texts_append (news others : List Names) :
    entryTexts (news ++ others) = entryTexts news ++ entryTexts others :=
  List.map_append

theorem harvests_nothing {world : DiskWorld} (tidy : Tidy settings project world.drive.disk)
    (added : List String) :
    Harvests settings project [] world added (pure added) := by
  refine ⟨[], world, ?_, harvested_nothing tidy (by simp), fun _ => rfl⟩
  rw [entryTexts, List.map_nil, List.append_nil]
  exact completes_pure world added

theorem harvests_bind {world : DiskWorld} {added : List String} {first : DiskProgram (List String)}
    {next : List String → DiskProgram (List String)} {items more : List (Names × Bytes)}
    (begun : Harvests settings project items world added first)
    (rest : ∀ middle news, Harvested settings project items world.drive.disk news middle.drive.disk →
      Harvests settings project more middle (added ++ entryTexts news) (next (added ++ entryTexts news))) :
    Harvests settings project (items ++ more) world added (first >>= next) := by
  obtain ⟨news, middle, begun, taken, still⟩ := begun
  obtain ⟨others, after, ended, takenToo, stillToo⟩ := rest middle news taken
  refine ⟨news ++ others, after, ?_, harvested_trans taken takenToo, ?_⟩
  · rw [entry_texts_append, ← List.append_assoc]
    exact completes_bind begun ended
  · intro nothing
    obtain ⟨one, two⟩ := List.append_eq_nil_iff.mp nothing
    rw [stillToo two, still one]

theorem harvests_look {Result : Type} {world : DiskWorld} {added : List String}
    {look : DiskProgram Result} {value : Result}
    {next : Except Raised Result → DiskProgram (List String)} {items : List (Names × Bytes)}
    (looked : Completes onDisk world look value world)
    (rest : Harvests settings project items world added (next (.ok value))) :
    Harvests settings project items world added (look.andThen next) := by
  obtain ⟨news, after, ended, taken, still⟩ := rest
  exact ⟨news, after, completes_and_then looked ended, taken, still⟩

theorem harvests_fold {Element : Type} {start : Disk} (items : Element → List (Names × Bytes))
    (body : List String → Element → DiskProgram (List String)) (elements : List Element)
    (each : ∀ (world : DiskWorld) (added : List String), ∀ element ∈ elements,
      Underway settings project start world.drive.disk →
      Harvests settings project (items element) world added (body added element))
    (world : DiskWorld) (added : List String)
    (underway : Underway settings project start world.drive.disk) :
    Harvests settings project (elements.flatMap items) world added (elements.foldlM body added) := by
  obtain ⟨done, olds, harvested⟩ := underway
  induction elements generalizing world added done olds with
  | nil => exact harvests_nothing harvested.tidy added
  | cons element rest induction =>
      rw [List.foldlM_cons, List.flatMap_cons]
      apply harvests_bind (each world added element List.mem_cons_self ⟨done, olds, harvested⟩)
      intro middle news taken
      apply induction _ middle _ _ _ (harvested_trans harvested taken)
      intro world added other member
      exact each world added other (List.mem_cons_of_mem _ member)

end Loops

/-! ## The tree -/

/-- Neither place is in the other. -/
def Apart (place other : Place) : Prop := ¬ place <+: other ∧ ¬ other <+: place

instance (place other : Place) : Decidable (Apart place other) :=
  inferInstanceAs (Decidable (¬ place <+: other ∧ ¬ other <+: place))

def isCacheFile (_dirs : Names) (name : String) : Bool := matchesCacheFilename name.toList

def isSubdir (name : String) : Bool := matchesSubdirName name.toList

section Trees

variable {settings : Settings} {project assetType name : String} {cacheRoot : Path} {tree : Place}
  {parts dirs : Names} {world : DiskWorld} {start now : Disk}

theorem apart_untouched (apart : Apart tree (root settings ++ [project])) (rest : Names) :
    ¬ touched settings project (tree ++ rest) := by
  rintro (above | below)
  · exact apart.1 ((List.prefix_append tree rest).trans above)
  · rcases List.prefix_or_prefix_of_prefix below (List.prefix_append tree rest) with inside | outside
    · exact apart.2 inside
    · exact apart.1 outside

theorem underway_find (apart : Apart tree (root settings ++ [project]))
    (underway : Underway settings project start now) (rest : Names) :
    now.find (tree ++ rest) = start.find (tree ++ rest) := by
  obtain ⟨items, news, harvested⟩ := underway
  exact harvested.only.1 _ (apart_untouched apart rest)

theorem underway_names (apart : Apart tree (root settings ++ [project]))
    (underway : Underway settings project start now) (rest : Names) :
    now.names (tree ++ rest) = start.names (tree ++ rest) := by
  obtain ⟨items, news, harvested⟩ := underway
  apply harvested.only.2
  intro name
  rw [List.append_assoc]
  exact apart_untouched apart _

theorem underway_down (underway : Underway settings project start now)
    (down : Down start cacheRoot tree parts) : Down now cacheRoot tree parts := by
  obtain ⟨items, news, harvested⟩ := underway
  exact ⟨locate_steady harvested.steady down.located, (harvested.steady _).1 down.directory, down.names⟩

theorem source_below (down : Down world.drive.disk cacheRoot tree parts)
    (plain : isPlain name = true) :
    sourceAt world.drive.disk (cacheRoot ++ parts ++ [name]) =
      world.drive.disk.fileAt (tree ++ parts ++ [name]) := by
  have link := link_below down plain
  rw [sourceAt, Disk.fileAt, link]
  by_cases linked : ∃ target, world.drive.disk.find (tree ++ parts ++ [name]) = some (.link target)
  · obtain ⟨target, found⟩ := linked
    rw [found]
    rfl
  · have unlinked : ∀ target, world.drive.disk.find (tree ++ parts ++ [name]) ≠ some (.link target) :=
      fun target found => linked ⟨target, found⟩
    rw [Disk.stat, located_below down plain unlinked, Option.bind_some]
    cases found : world.drive.disk.find (tree ++ parts ++ [name]) with
    | none => rfl
    | some entry =>
        cases entry with
        | link target => exact absurd found (unlinked target)
        | file bytes => rfl
        | directory => rfl

theorem item_below (down : Down world.drive.disk cacheRoot tree (assetType :: dirs))
    (name : String) :
    itemAt world.drive.disk assetType (cacheRoot ++ assetType :: dirs ++ [name]) dirs name =
      (world.drive.disk.taken tree isCacheFile (assetType :: dirs) name).toList := by
  rw [itemAt, Disk.taken, isCacheFile]
  cases cached : matchesCacheFilename name.toList with
  | false => rfl
  | true =>
      rw [source_below down (cache_filename_plain cached)]
      cases world.drive.disk.fileAt (tree ++ assetType :: dirs ++ [name]) <;> rfl

theorem describe_below (down : Down world.drive.disk cacheRoot tree parts)
    (plain : isPlain name = true)
    {entry : Entry} (found : world.drive.disk.find (tree ++ parts ++ [name]) = some entry)
    (unlinked : ∀ target, entry ≠ .link target) :
    (world.describe (tree ++ parts) name).isDir = (entry == .directory) := by
  have names : ∀ part ∈ tree ++ parts ++ [name], isPlain part = true :=
    List.forall_mem_append.mpr ⟨locate_plain down.located, List.forall_mem_singleton.mpr plain⟩
  rw [DiskWorld.describe, Disk.isDir, stat_found names found unlinked]
  rfl

theorem chosen_dirs {later : DiskWorld} (down : Down world.drive.disk cacheRoot tree parts)
    (downLater : Down later.drive.disk cacheRoot tree parts)
    (same : ∀ rest, later.drive.disk.find (tree ++ rest) = world.drive.disk.find (tree ++ rest)) :
    (((world.drive.disk.names (tree ++ parts)).filter fun name =>
      (world.describe (tree ++ parts) name).isDir).filter fun d =>
        matchesSubdirName d.toList && !world.drive.disk.isLink (cacheRoot ++ parts ++ [d])).filter
          (fun d => !later.drive.disk.isLink (cacheRoot ++ parts ++ [d])) =
      world.drive.disk.entered isSubdir (tree ++ parts) := by
  rw [List.filter_filter, List.filter_filter, Disk.entered]
  apply List.filter_congr
  intro name listed
  rw [isSubdir]
  cases matched : matchesSubdirName name.toList with
  | false => simp
  | true =>
      have plain := subdir_plain matched
      obtain ⟨entry, found⟩ := Option.isSome_iff_exists.mp (mem_names.mp listed)
      have foundLater : later.drive.disk.find (tree ++ parts ++ [name]) = some entry := by
        rw [List.append_assoc, same, ← List.append_assoc, found]
      rw [link_below down plain, link_below downLater plain, found, foundLater]
      cases entry with
      | link target => simp [Entry.isLink]
      | directory => simp [Entry.isLink, describe_below down plain found]
      | file bytes => simp [Entry.isLink, describe_below down plain found]

theorem taken_files (down : Down world.drive.disk cacheRoot tree parts) :
    (((world.drive.disk.names (tree ++ parts)).filter fun name =>
      !(world.describe (tree ++ parts) name).isDir).flatMap fun name =>
        (world.drive.disk.taken tree isCacheFile parts name).toList) =
      (world.drive.disk.names (tree ++ parts)).filterMap
        (world.drive.disk.taken tree isCacheFile parts) := by
  rw [List.filterMap_eq_flatMap_toList]
  apply flat_map_filter
  intro name listed directory
  have none : world.drive.disk.taken tree isCacheFile parts name = none := by
    rw [Option.eq_none_iff_forall_not_mem]
    intro file taken
    obtain ⟨same, cached, found⟩ := mem_taken.mp taken
    rw [same, ← List.append_assoc] at found
    rw [describe_below down (cache_filename_plain cached) found (by simp)] at directory
    cases directory
  rw [none]
  rfl

theorem underway_walked (apart : Apart tree (root settings ++ [project]))
    (underway : Underway settings project start now) (depth : Nat) :
    now.walked tree isCacheFile isSubdir depth parts =
      start.walked tree isCacheFile isSubdir depth parts :=
  walked_same (underway_find apart underway) (underway_names apart underway) depth

theorem underway_taken (apart : Apart tree (root settings ++ [project]))
    (underway : Underway settings project start now) (name : String) :
    now.taken tree isCacheFile parts name = start.taken tree isCacheFile parts name := by
  rw [Disk.taken, Disk.taken, Disk.fileAt, Disk.fileAt, List.append_assoc,
    underway_find apart underway]

theorem down_entered (down : Down world.drive.disk cacheRoot tree parts)
    (entered : name ∈ world.drive.disk.entered isSubdir (tree ++ parts)) :
    Down world.drive.disk cacheRoot tree (parts ++ [name]) := by
  obtain ⟨matched, found⟩ := mem_entered.mp entered
  refine ⟨?_, by rwa [← List.append_assoc], ?_⟩
  · rw [← List.append_assoc, ← List.append_assoc]
    apply located_below down (subdir_plain matched)
    rw [found]
    simp
  · rw [List.forall_mem_append, List.forall_mem_singleton]
    exact ⟨down.names, valid_of_subdir matched⟩

/-- The walk from one directory on takes in what it comes upon. -/
theorem harvest_dir_exact (plain : PlainPaths settings)
    (valid : matchesProjectId project.toList = true)
    (ofType : assetType ∈ settings.assetCacheTypes)
    (apart : Apart tree (root settings ++ [project]))
    (pid depth : Nat) (named : ∀ dir ∈ dirs, matchesSubdirName dir.toList = true)
    (tidy : Tidy settings project world.drive.disk)
    (down : Down world.drive.disk cacheRoot tree (assetType :: dirs)) (added : List String) :
    Harvests settings project (world.drive.disk.walked tree isCacheFile isSubdir depth (assetType :: dirs))
      world added
      (harvestDir pid (cacheRoute settings project assetType (cacheRoot ++ [assetType])) depth dirs added) := by
  induction depth generalizing world dirs added with
  | zero => exact harvests_nothing tidy added
  | succ depth induction =>
      have spelled : (cacheRoute settings project assetType (cacheRoot ++ [assetType])).srcTypeDir ++ dirs =
          cacheRoot ++ assetType :: dirs := by simp [cacheRoute]
      have scanned : onDisk world (.scandir (cacheRoot ++ assetType :: dirs)) =
          (.ok ((world.drive.disk.names (tree ++ assetType :: dirs)).map
            (world.describe (tree ++ assetType :: dirs))), world) := by
        rw [onDisk, scan_down down]
      have files : ∀ (now : DiskWorld) (added : List String) (name : String),
          Underway settings project world.drive.disk now.drive.disk →
          Harvests settings project (world.drive.disk.taken tree isCacheFile (assetType :: dirs) name).toList
            now added
            (harvestFile pid (cacheRoute settings project assetType (cacheRoot ++ [assetType])) dirs added
              name) := by
        intro now added name underway
        obtain ⟨items, news, harvested⟩ := underway
        have here := @harvest_file_completes settings project assetType name dirs now harvested.tidy
          (plain_dirs plain valid ofType named) named pid (cacheRoot ++ [assetType]) added
        rw [List.append_assoc cacheRoot, List.singleton_append,
          item_below (underway_down ⟨_, _, harvested⟩ down),
          underway_taken apart ⟨_, _, harvested⟩] at here
        exact here
      have below : ∀ (now : DiskWorld) (added : List String),
          ∀ d ∈ world.drive.disk.entered isSubdir (tree ++ assetType :: dirs),
          Underway settings project world.drive.disk now.drive.disk →
          Harvests settings project
            (world.drive.disk.walked tree isCacheFile isSubdir depth (assetType :: dirs ++ [d])) now added
            (harvestDir pid (cacheRoute settings project assetType (cacheRoot ++ [assetType])) depth
              (dirs ++ [d]) added) := by
        intro now added d entered underway
        rw [← underway_walked apart underway]
        apply induction _ (underway_tidy underway) (underway_down underway (down_entered down entered))
        exact List.forall_mem_append.mpr
          ⟨named, List.forall_mem_singleton.mpr (mem_entered.mp entered).1⟩
      rw [harvestDir, spelled, Disk.walked, ← taken_files down]
      refine harvests_look (completes_call scanned) ?_
      dsimp only
      rw [chosen_names, chosen_names]
      refine harvests_look (looks_complete (makes_only_select
        (fun d => plain_subdir_makes_only trivial) _) (run_select (run_is_plain_subdir _) _)) ?_
      refine harvests_bind (harvests_fold _ _ _ (fun now added name _ => files now added name) world added
        (underway_start tidy)) ?_
      intro middle news harvested
      refine harvests_look (looks_complete (makes_only_select (fun d => not_link_makes_only trivial) _)
        (run_select (fun d => run_is_not_link _) _)) ?_
      rw [on_value_ok, chosen_dirs down (underway_down ⟨_, _, harvested⟩ down)
        (underway_find apart ⟨_, _, harvested⟩)]
      exact harvests_fold _ _ _ below middle _ ⟨_, _, harvested⟩

theorem real_dir_below (down : Down world.drive.disk cacheRoot tree [])
    (plain : isPlain name = true) :
    (world.drive.disk.isDir (cacheRoot ++ [name]) && !world.drive.disk.isLink (cacheRoot ++ [name])) =
      decide (world.drive.disk.find (tree ++ [name]) = some .directory) := by
  have link := link_below down plain
  rw [List.append_nil, List.append_nil] at link
  rw [link]
  by_cases linked : ∃ target, world.drive.disk.find (tree ++ [name]) = some (.link target)
  · obtain ⟨target, found⟩ := linked
    simp [found, Entry.isLink]
  · have unlinked : ∀ target, world.drive.disk.find (tree ++ [name]) ≠ some (.link target) :=
      fun target found => linked ⟨target, found⟩
    have located := @located_below world cacheRoot tree [] down name plain
    rw [List.append_nil, List.append_nil] at located
    rw [Disk.isDir, Disk.stat, located unlinked, Option.bind_some]
    cases found : world.drive.disk.find (tree ++ [name]) with
    | none => rfl
    | some entry =>
        cases entry with
        | link target => exact absurd found (unlinked target)
        | file bytes => rfl
        | directory => rfl

theorem harvest_type_exact (plain : PlainPaths settings)
    (valid : matchesProjectId project.toList = true)
    (ofType : assetType ∈ settings.assetCacheTypes) (validType : validName assetType = true)
    (apart : Apart tree (root settings ++ [project])) (pid depth : Nat)
    (tidy : Tidy settings project world.drive.disk) (down : Down world.drive.disk cacheRoot tree [])
    (added : List String) :
    Harvests settings project (world.drive.disk.walked tree isCacheFile isSubdir depth [assetType])
      world added (harvestType pid depth cacheRoot (root settings ++ [project]) added assetType) := by
  have looked : Completes onDisk world (isRealDir (cacheRoot ++ [assetType]))
      (decide (world.drive.disk.find (tree ++ [assetType]) = some .directory)) world := by
    apply looks_complete (real_dir_makes_only trivial trivial)
    rw [run_is_real_dir, real_dir_below down (plain_of_valid validType)]
  unfold harvestType
  refine harvests_look looked ?_
  rw [on_value_ok]
  by_cases directory : world.drive.disk.find (tree ++ [assetType]) = some .directory
  · rw [if_pos (by simpa using directory)]
    apply harvest_dir_exact plain valid ofType apart pid depth (by simp) tidy
    refine ⟨?_, directory, by simpa using validType⟩
    have located := @located_below world cacheRoot tree [] down assetType (plain_of_valid validType)
    rw [List.append_nil, List.append_nil] at located
    exact located (by rw [directory]; simp)
  · rw [if_neg (by simpa using directory)]
    have nothing : world.drive.disk.walked tree isCacheFile isSubdir depth [assetType] = [] := by
      rw [List.eq_nil_iff_forall_not_mem]
      intro file member
      obtain ⟨dirs, last, -, -, same, -, found⟩ := (mem_walked depth).mp member
      rw [same, List.append_assoc, ← List.append_assoc tree] at found
      exact directory (ancestor_is_directory (by simp) found)
    rw [nothing]
    exact harvests_nothing tidy added

end Trees

/-! ## The whole harvest -/

section Harvest

variable {settings : Settings} {project : String} {world : DiskWorld}

/-- The items of a harvest: what its walks come upon, type after type. -/
def sources (settings : Settings) (disk : Disk) (tree : Place)
    (depth : Nat) : List (Names × Bytes) :=
  settings.assetCacheTypes.flatMap fun assetType => disk.walked tree isCacheFile isSubdir depth [assetType]

theorem harvest_takes (plain : PlainPaths settings)
    (validTypes : ∀ assetType ∈ settings.assetCacheTypes, validName assetType = true)
    (valid : matchesProjectId project.toList = true) {workDir : Path} {tree : Place}
    (apart : Apart tree (root settings ++ [project])) (pid depth : Nat)
    (tidy : Tidy settings project world.drive.disk)
    (located : world.drive.disk.locate (workDir ++ settings.generateOutputSubdir) = some tree)
    (directory : world.drive.disk.find tree = some .directory) :
    Harvests settings project (sources settings world.drive.disk tree depth) world []
      (harvest settings pid depth project workDir) := by
  have down : Down world.drive.disk (workDir ++ settings.generateOutputSubdir) tree [] :=
    ⟨by simpa using located, by simpa using directory, by simp⟩
  unfold harvest projectDir
  rw [if_pos valid, pure_bind]
  apply harvests_fold _ _ _ _ world [] (underway_start tidy)
  intro now added assetType ofType underway
  rw [← underway_walked apart underway]
  exact harvest_type_exact plain valid ofType (validTypes assetType ofType) apart pid depth
    (underway_tidy underway) (underway_down underway down) added

theorem harvest_absent (valid : matchesProjectId project.toList = true) {workDir : Path}
    (pid depth : Nat)
    (absent : world.drive.disk.exist (workDir ++ settings.generateOutputSubdir) = false) :
    Completes onDisk world (harvest settings pid depth project workDir) [] world := by
  have passed : ∀ assetType, Completes onDisk world
      (harvestType pid depth (workDir ++ settings.generateOutputSubdir) (root settings ++ [project]) []
        assetType) [] world := by
    intro assetType
    have looked : Completes onDisk world
        (isRealDir (workDir ++ settings.generateOutputSubdir ++ [assetType])) false world := by
      apply looks_complete (real_dir_makes_only trivial trivial)
      rw [run_is_real_dir]
      cases directory : world.drive.disk.isDir (workDir ++ settings.generateOutputSubdir ++ [assetType]) with
      | false => rfl
      | true =>
          rw [exist_front (is_dir_exist directory)] at absent
          cases absent
    exact completes_bind looked (completes_pure world [])
  have all : ∀ types : List String, Completes onDisk world
      (types.foldlM (harvestType pid depth (workDir ++ settings.generateOutputSubdir)
        (root settings ++ [project])) []) [] world := by
    intro types
    induction types with
    | nil => exact completes_pure world []
    | cons assetType types induction =>
        rw [List.foldlM_cons]
        exact completes_bind (passed assetType) induction
  unfold harvest projectDir
  rw [if_pos valid, pure_bind]
  exact all settings.assetCacheTypes

end Harvest

/-! ## What is there to copy -/

/-- A file at `t/d1/…/dn/name` below the generated-cache root: the type is a configured
one, the directories are real and have plain names, and the name is that of a cache file. -/
structure Harvestable (settings : Settings) (disk : Disk) (tree : Place) (assetType : String)
    (dirs : Names) (name : String) (bytes : Bytes) : Prop where
  ofType : assetType ∈ settings.assetCacheTypes
  real : ∀ front, front <+: dirs → disk.find (tree ++ assetType :: front) = some .directory
  named : ∀ dir ∈ dirs, matchesSubdirName dir.toList = true
  cached : matchesCacheFilename name.toList = true
  file : disk.find (tree ++ (assetType :: dirs ++ [name])) = some (.file bytes)

def Offered (settings : Settings) (disk : Disk) (cacheRoot : Path) (key : Names)
    (bytes : Bytes) : Prop :=
  ∃ tree assetType dirs name, disk.locate cacheRoot = some tree ∧ key = assetType :: dirs ++ [name] ∧
    Harvestable settings disk tree assetType dirs name bytes

/-- The generated-cache root is a directory apart from the project's cache, or
there is none. -/
def Shipped (settings : Settings) (project : String) (disk : Disk) (cacheRoot : Path) : Prop :=
  disk.exist cacheRoot = false ∨ ∃ tree, disk.locate cacheRoot = some tree ∧
    disk.find tree = some .directory ∧ Apart tree (root settings ++ [project])

/-- What a harvest lists and leaves in the cache. -/
structure HarvestOutcome (settings : Settings) (project : String) (disk : Disk) (cacheRoot : Path)
    (added : List String) (later : Disk) : Prop where
  once : added.Nodup
  listed : ∀ path, path ∈ added ↔ ∃ key bytes, path = "/".intercalate key ∧
    Offered settings disk cacheRoot key bytes ∧ disk.find (root settings ++ project :: key) = none
  copied : ∀ key bytes, Offered settings disk cacheRoot key bytes →
    disk.find (root settings ++ project :: key) = none →
    later.find (root settings ++ project :: key) = some (.file bytes)
  kept : ∀ rest bytes, disk.find (root settings ++ rest) = some (.file bytes) →
    later.find (root settings ++ rest) = some (.file bytes)
  nothingElse : ∀ rest bytes, later.find (root settings ++ rest) = some (.file bytes) →
    disk.find (root settings ++ rest) = some (.file bytes) ∨
      ∃ key, rest = project :: key ∧ Offered settings disk cacheRoot key bytes
  elsewhere : ∀ place, ¬ place <+: root settings ++ [project] → ¬ root settings ++ [project] <+: place →
    later.find place = disk.find place

section Offers

variable {settings : Settings} {project : String} {disk later : Disk} {tree : Place}
  {cacheRoot : Path}

theorem harvestable_of_source {depth : Nat} {key : Names} {bytes : Bytes}
    (source : (key, bytes) ∈ sources settings disk tree depth) :
    ∃ assetType dirs name, key = assetType :: dirs ++ [name] ∧
      Harvestable settings disk tree assetType dirs name bytes := by
  obtain ⟨assetType, ofType, walked⟩ := List.mem_flatMap.mp source
  obtain ⟨dirs, name, -, named, same, cached, found⟩ := (mem_walked depth).mp walked
  rw [List.singleton_append] at same
  dsimp only at same found
  rw [same] at found
  refine ⟨assetType, dirs, name, same, ofType, ?_, named, cached, found⟩
  rintro front ⟨deeper, rfl⟩
  apply @ancestor_is_directory _ _ (deeper ++ [name]) (.file bytes) (by simp)
  rw [← found]
  simp

/-- The walk goes down to the bottom of the tree. -/
def Deep (disk : Disk) (tree : Place) (depth : Nat) : Prop :=
  ∀ rest, (disk.find (tree ++ rest)).isSome = true → rest.length ≤ depth

theorem deep_of_height {depth : Nat} (high : disk.height ≤ depth) : Deep disk tree depth := by
  intro rest found
  have bounded := length_le_height found
  rw [List.length_append] at bounded
  omega

theorem source_of_harvestable {depth : Nat} (deep : Deep disk tree depth) {assetType name : String}
    {dirs : Names} {bytes : Bytes} (there : Harvestable settings disk tree assetType dirs name bytes) :
    (assetType :: dirs ++ [name], bytes) ∈ sources settings disk tree depth := by
  refine List.mem_flatMap.mpr ⟨assetType, there.ofType, (mem_walked depth).mpr ?_⟩
  refine ⟨dirs, name, ?_, there.named, rfl, there.cached, there.file⟩
  have bounded := deep _ (by rw [there.file]; rfl)
  rw [List.length_append, List.length_cons, List.length_singleton] at bounded
  omega

theorem harvestable_names {assetType name : String} {dirs : Names} {bytes : Bytes}
    (validTypes : ∀ assetType ∈ settings.assetCacheTypes, validName assetType = true)
    (there : Harvestable settings disk tree assetType dirs name bytes) :
    ∀ part ∈ assetType :: dirs ++ [name], validName part = true := by
  rw [List.cons_append, List.forall_mem_cons, List.forall_mem_append, List.forall_mem_singleton]
  exact ⟨validTypes assetType there.ofType, fun dir member => valid_of_subdir (there.named dir member),
    valid_of_cache_filename there.cached⟩

theorem entry_texts_nodup {news : List Names}
    (valid : ∀ key ∈ news, ∀ part ∈ key, validName part = true)
    (once : news.Nodup) : (entryTexts news).Nodup := by
  apply once.map_on
  intro key member other inside same
  rw [← path_names_joined (valid key member), same, path_names_joined (valid other inside)]

theorem held_some {key : Names} {bytes : Bytes} :
    held settings project disk key = some bytes ↔
      disk.find (root settings ++ project :: key) = some (.file bytes) := by
  rw [held, file_at_some]

theorem held_none (tidy : Tidy settings project disk) {assetType name : String} {dirs : Names}
    {bytes : Bytes} (there : Harvestable settings later tree assetType dirs name bytes) :
    held settings project disk (assetType :: dirs ++ [name]) = none ↔
      disk.find (root settings ++ project :: (assetType :: dirs ++ [name])) = none := by
  rcases tidy_file_place tidy ⟨assetType, dirs, name, rfl, there.named, there.cached⟩ with
    none | ⟨bytes, found⟩
  · rw [← List.cons_append] at none
    rw [none, held, Disk.fileAt, none]
    simp
  · rw [← List.cons_append] at found
    rw [found, held_some.mpr found]
    simp

theorem offered_at {key : Names} {bytes : Bytes} (located : disk.locate cacheRoot = some tree) :
    Offered settings disk cacheRoot key bytes ↔
      ∃ assetType dirs name, key = assetType :: dirs ++ [name] ∧
      Harvestable settings disk tree assetType dirs name bytes := by
  constructor
  · rintro ⟨other, assetType, dirs, name, same, spelled, there⟩
    rw [located, Option.some.injEq] at same
    exact ⟨assetType, dirs, name, spelled, same ▸ there⟩
  · rintro ⟨assetType, dirs, name, spelled, there⟩
    exact ⟨tree, assetType, dirs, name, located, spelled, there⟩

theorem offered_iff {depth : Nat} (deep : Deep disk tree depth)
    (located : disk.locate cacheRoot = some tree) {key : Names} {bytes : Bytes} :
    Offered settings disk cacheRoot key bytes ↔
      (key, bytes) ∈ sources settings disk tree depth := by
  rw [offered_at located]
  constructor
  · rintro ⟨assetType, dirs, name, rfl, there⟩
    exact source_of_harvestable deep there
  · exact harvestable_of_source

theorem nothing_offered (absent : disk.exist cacheRoot = false) (key : Names) (bytes : Bytes) :
    ¬ Offered settings disk cacheRoot key bytes := by
  rintro ⟨tree, assetType, dirs, name, located, -, there⟩
  have inside := parent_is_directory (there.real [] List.nil_prefix)
  rw [Disk.exist, Disk.stat, located, Option.bind_some, inside] at absent
  cases absent

theorem outcome_absent (absent : disk.exist cacheRoot = false) :
    HarvestOutcome settings project disk cacheRoot [] disk := by
  constructor
  · exact List.nodup_nil
  · intro path
    constructor
    · rintro ⟨⟩
    · rintro ⟨key, bytes, -, offered, -⟩
      exact absurd offered (nothing_offered absent key bytes)
  · intro key bytes offered
    exact absurd offered (nothing_offered absent key bytes)
  · exact fun rest bytes => id
  · exact fun rest bytes => .inl
  · exact fun place _ _ => rfl

theorem cached_cases (tidy : Tidy settings project disk) {rest : Names} {bytes : Bytes}
    (found : disk.find (root settings ++ rest) = some (.file bytes)) :
    (∃ key, rest = project :: key) ∨ ¬ touched settings project (root settings ++ rest) := by
  by_cases within : root settings ++ [project] <+: root settings ++ rest
  · obtain ⟨key, same⟩ := (List.prefix_append_right_inj _).mp within
    exact .inl ⟨key, same.symm⟩
  · right
    rintro (above | below)
    · rcases List.prefix_cons_iff.mp ((List.prefix_append_right_inj (root settings)).mp above) with
        rfl | ⟨more, rfl, -⟩
      · rw [List.append_nil] at found
        cases passable_entry (tidy.above _ List.prefix_rfl) found
      · exact within ((List.prefix_append_right_inj _).mpr ⟨more, rfl⟩)
    · exact within below

theorem offered_file (located : disk.locate cacheRoot = some tree) {key : Names} {bytes : Bytes}
    (offered : Offered settings disk cacheRoot key bytes) :
    disk.find (tree ++ key) = some (.file bytes) := by
  obtain ⟨assetType, dirs, name, rfl, there⟩ := (offered_at located).mp offered
  exact there.file

theorem outcome_harvested {depth : Nat} {news : List Names} (deep : Deep disk tree depth)
    (validTypes : ∀ assetType ∈ settings.assetCacheTypes, validName assetType = true)
    (tidy : Tidy settings project disk) (located : disk.locate cacheRoot = some tree)
    (harvested : Harvested settings project (sources settings disk tree depth) disk news later) :
    HarvestOutcome settings project disk cacheRoot (entryTexts news) later := by
  obtain ⟨heldLater, listed⟩ := Prod.ext_iff.mp harvested.taken
  dsimp only at heldLater listed
  have keys : ∀ key, key ∈ news ↔ (∃ bytes, Offered settings disk cacheRoot key bytes) ∧
      held settings project disk key = none := by
    intro key
    rw [← listed, mem_absorbed, List.mem_map]
    apply and_congr_left
    intro _
    constructor
    · rintro ⟨⟨key, bytes⟩, source, rfl⟩
      exact ⟨bytes, (offered_iff deep located).mpr source⟩
    · rintro ⟨bytes, offered⟩
      exact ⟨(key, bytes), (offered_iff deep located).mp offered, rfl⟩
  have free : ∀ key bytes, Offered settings disk cacheRoot key bytes →
      (held settings project disk key = none ↔ disk.find (root settings ++ project :: key) = none) := by
    rintro key bytes ⟨other, assetType, dirs, name, -, rfl, there⟩
    exact held_none tidy there
  constructor
  · apply entry_texts_nodup
    · intro key member
      obtain ⟨⟨bytes, other, assetType, dirs, name, -, rfl, there⟩, -⟩ := (keys key).mp member
      exact harvestable_names validTypes there
    · rw [← listed]
      exact absorbed_nodup
  · intro path
    rw [entryTexts, List.mem_map]
    constructor
    · rintro ⟨key, member, rfl⟩
      obtain ⟨⟨bytes, offered⟩, absent⟩ := (keys key).mp member
      exact ⟨key, bytes, rfl, offered, (free key bytes offered).mp absent⟩
    · rintro ⟨key, bytes, rfl, offered, absent⟩
      exact ⟨key, (keys key).mpr ⟨⟨bytes, offered⟩, (free key bytes offered).mpr absent⟩, rfl⟩
  · intro key bytes offered absent
    have complete := @absorb_complete _ _ _ (held settings project disk) _ _ _
      ((offered_iff deep located).mp offered)
    obtain ⟨content, there⟩ := Option.isSome_iff_exists.mp complete
    rcases absorb_source there with before | source
    · rw [(free key bytes offered).mpr absent] at before
      cases before
    · have same := offered_file located ((offered_iff deep located).mpr source)
      rw [offered_file located offered, Option.some.injEq, Entry.file.injEq] at same
      rw [← held_some, ← heldLater, there, same]
  · intro rest bytes found
    rcases @cached_cases settings project disk tidy rest bytes found with ⟨key, rfl⟩ | untouched
    · rw [← held_some, ← heldLater]
      exact absorb_keeps (held_some.mpr found)
    · rw [harvested.only.1 _ untouched, found]
  · intro rest bytes found
    rcases @cached_cases settings project later harvested.tidy rest bytes found with ⟨key, rfl⟩ | untouched
    · rw [← held_some, ← heldLater] at found
      rcases absorb_source found with before | source
      · exact .inl (held_some.mp before)
      · exact .inr ⟨key, rfl, (offered_iff deep located).mpr source⟩
    · rw [harvested.only.1 _ untouched] at found
      exact .inl found
  · intro place below above
    apply harvested.only.1
    rintro (within | within)
    · exact below within
    · exact above within

end Offers

/-! ## The outcome -/

section Outcome

variable {settings : Settings} {project : String} {world after : DiskWorld} {news : List Names}
  {workDir : Path} {tree : Place}

/-- Once everything there is has come in, nothing is left to do. -/
theorem harvest_again (plain : PlainPaths settings)
    (validTypes : ∀ assetType ∈ settings.assetCacheTypes, validName assetType = true)
    (valid : matchesProjectId project.toList = true)
    (apart : Apart tree (root settings ++ [project]))
    {depth : Nat} (deep : Deep world.drive.disk tree depth)
    (located : world.drive.disk.locate (workDir ++ settings.generateOutputSubdir) = some tree)
    (directory : world.drive.disk.find tree = some .directory)
    (harvested : Harvested settings project (sources settings world.drive.disk tree depth)
      world.drive.disk news after.drive.disk) (pid again : Nat) :
    Completes onDisk after (harvest settings pid again project workDir) [] after := by
  obtain ⟨more, last, completes, taken, still⟩ := harvest_takes plain validTypes valid apart pid again
    harvested.tidy (locate_steady harvested.steady located) ((harvested.steady _).1 directory)
  have same : sources settings after.drive.disk tree again = sources settings world.drive.disk tree again := by
    rw [sources, sources]
    congr 1
    funext assetType
    exact underway_walked apart ⟨_, _, harvested⟩ again
  have there : ∀ item ∈ sources settings after.drive.disk tree again,
      (held settings project after.drive.disk item.1).isSome = true := by
    rintro ⟨key, bytes⟩ source
    rw [same] at source
    obtain ⟨assetType, dirs, name, rfl, found⟩ := harvestable_of_source source
    have stored := congrArg Prod.fst harvested.taken
    dsimp only at stored ⊢
    rw [← stored]
    exact absorb_complete (source_of_harvestable deep found)
  have nothing : more = [] := by
    have absorbed := taken.taken
    rw [absorb_nothing there] at absorbed
    exact (Prod.ext_iff.mp absorbed).2.symm
  rw [still nothing, nothing] at completes
  exact completes

/-- A harvest into a cache that harvests, touches and prunes have made copies what is
there to copy and not in the cache yet, no call of it fails, and another one does nothing. -/
theorem harvest_copies_exactly (settings : Settings) (pid depth : Nat) (project : String)
    (workDir : Path) (world : DiskWorld) (plain : PlainPaths settings)
    (validTypes : ∀ assetType ∈ settings.assetCacheTypes, validName assetType = true)
    (valid : matchesProjectId project.toList = true) (projects : String → Prop)
    (produced : Produced settings projects world) (ofThese : projects project)
    (shipped : Shipped settings project world.drive.disk (workDir ++ settings.generateOutputSubdir))
    (high : world.drive.disk.height ≤ depth) :
    ∃ added after, Completes onDisk world (harvest settings pid depth project workDir) added after ∧
      HarvestOutcome settings project world.drive.disk (workDir ++ settings.generateOutputSubdir) added
        after.drive.disk ∧
      ∀ otherPid again, Completes onDisk after (harvest settings otherPid again project workDir) [] after := by
  have tidy := produced_tidy produced ofThese
  rcases shipped with absent | ⟨tree, located, directory, apart⟩
  · exact ⟨[], world, harvest_absent valid pid depth absent, outcome_absent absent,
      fun otherPid again => harvest_absent valid otherPid again absent⟩
  · obtain ⟨news, after, completes, harvested, -⟩ :=
      harvest_takes plain validTypes valid apart pid depth tidy located directory
    have deep : Deep world.drive.disk tree depth := deep_of_height high
    exact ⟨entryTexts news, after, completes, outcome_harvested deep validTypes tidy located harvested,
      harvest_again plain validTypes valid apart deep located directory harvested⟩

end Outcome

/-! ## A job's first figures -/

/-- Two figures, one of them below `sub`, a text that is none and a link. -/
def firstFigures : DiskWorld where
  drive := {
    disk := .ofList [
      (["data"], .directory), (["data", "jobs"], .directory), (["data", "jobs", "j"], .directory),
      (defaults.workDir "j", .directory), (defaults.workDir "j" ++ [".cache"], .directory),
      (defaults.workDir "j" ++ [".cache", "latex-image"], .directory),
      (defaults.workDir "j" ++ [".cache", "latex-image", cacheKey], .file [1, 2]),
      (defaults.workDir "j" ++ [".cache", "latex-image", "notes.txt"], .file [3]),
      (defaults.workDir "j" ++ [".cache", "latex-image", "away"], .link ⟨true, ["data", "jobs"]⟩),
      (defaults.workDir "j" ++ [".cache", "latex-image", "sub"], .directory),
      (defaults.workDir "j" ++ [".cache", "latex-image", "sub", cacheKey], .file [4])]
    changed := [] }
  clock := 5
  lastUse := fun _ => 0

theorem first_figures_produced : Produced defaults (fun _ => True) firstFigures := by
  have bare : firstFigures.drive.disk.find (root defaults) = none := by decide +kernel
  apply Produced.fresh
  · intro front within
    rw [← List.mem_inits] at within
    revert front
    decide +kernel
  · intro project _
    exact below_free bare

theorem first_figures_harvested :
    ∃ added after, Completes onDisk firstFigures (harvest defaults 7 12 "p" (defaults.workDir "j")) added after ∧
      HarvestOutcome defaults "p" firstFigures.drive.disk
        (defaults.workDir "j" ++ defaults.generateOutputSubdir) added after.drive.disk ∧
      ∀ otherPid again,
        Completes onDisk after (harvest defaults otherPid again "p" (defaults.workDir "j")) [] after :=
  harvest_copies_exactly defaults 7 12 "p" (defaults.workDir "j") firstFigures ⟨by decide, by decide⟩
    (by decide) (by decide) (fun _ => True) first_figures_produced trivial
    (.inr ⟨defaults.workDir "j" ++ [".cache"], by decide +kernel, by decide +kernel, by decide⟩)
    (by decide +kernel)

end PretextBuildServer.ExactHarvest
