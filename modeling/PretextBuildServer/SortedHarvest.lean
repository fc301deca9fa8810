import PretextBuildServer.ExactHarvest
import PretextBuildServer.Library.JoinedNames
import PretextBuildServer.NameLanguages

/-!
# The order a harvest reports in

What a harvest adds it reports as it comes upon it: type after type as they are
configured, the files of a directory before what is in its subdirectories, both as
they are listed. Nothing sorts the list.
-/

namespace PretextBuildServer.SortedHarvest

open EffectProgram EffectProgram.Program PosixDisk JoinedNames
open PretextBuildServer.ServerSettings PretextBuildServer.JobCalls
open PretextBuildServer.NameValidators PretextBuildServer.DiskCalls PretextBuildServer.AssetCache
open PretextBuildServer.HarvestRuns PretextBuildServer.PathTexts PretextBuildServer.TidyCache
open PretextBuildServer.ExactHarvest PretextBuildServer.NameLanguages
open PretextBuildServer.TreeWalks (Down scan_down chosen_names)
open PretextBuildServer.HarvestConfinement (cacheKey)

set_option autoImplicit false

/-! ## The order of a tree -/

def typeTree (disk : Disk) (cacheRoot : Path) (assetType : String) : Option Place :=
  if disk.isDir (cacheRoot ++ [assetType]) && !disk.isLink (cacheRoot ++ [assetType]) then
    disk.locate (cacheRoot ++ [assetType])
  else none

/-- A cache file below a type, by its names from there on. -/
def FileAt (disk : Disk) (cacheRoot : Path) (assetType : String) (path : Names) : Prop :=
  ∃ tree, typeTree disk cacheRoot assetType = some tree ∧ disk.Offers tree isCacheFile isSubdir path

def FilesBelow (disk : Disk) (cacheRoot : Path) (assetType : String) (dir : Names) : Prop :=
  ∃ rest, rest ≠ [] ∧ FileAt disk cacheRoot assetType (dir ++ rest)

/-- The types are configured, and the directories below them list their files and
subdirectories, in the order of the paths; files come before subdirectories there too. -/
structure InOrder (settings : Settings) (disk : Disk) (cacheRoot : Path) : Prop where
  types : settings.assetCacheTypes.Pairwise fun assetType other => ∀ path more,
    FileAt disk cacheRoot assetType path → FileAt disk cacheRoot other more →
      joined (assetType :: path) ≤ joined (other :: more)
  files : ∀ assetType ∈ settings.assetCacheTypes, ∀ tree,
    typeTree disk cacheRoot assetType = some tree → ∀ dir,
      (disk.names (tree ++ dir)).Pairwise fun name other =>
        FileAt disk cacheRoot assetType (dir ++ [name]) →
        FileAt disk cacheRoot assetType (dir ++ [other]) → name ≤ other
  dirs : ∀ assetType ∈ settings.assetCacheTypes, ∀ tree,
    typeTree disk cacheRoot assetType = some tree → ∀ dir,
      (disk.names (tree ++ dir)).Pairwise fun name other =>
        FilesBelow disk cacheRoot assetType (dir ++ [name]) →
        FilesBelow disk cacheRoot assetType (dir ++ [other]) → name ++ "/" ≤ other ++ "/"
  mixed : ∀ assetType ∈ settings.assetCacheTypes, ∀ dir name other,
    FileAt disk cacheRoot assetType (dir ++ [name]) →
    FilesBelow disk cacheRoot assetType (dir ++ [other]) → name ≤ other ++ "/"

def typeFiles (disk : Disk) (cacheRoot : Path) (depth : Nat) (assetType : String) : List Names :=
  (typeTree disk cacheRoot assetType).toList.flatMap fun tree =>
    (disk.walked tree isCacheFile isSubdir depth []).map fun file => assetType :: file.1

def reportable (settings : Settings) (disk : Disk) (cacheRoot : Path) (depth : Nat) : List Names :=
  settings.assetCacheTypes.flatMap (typeFiles disk cacheRoot depth)

section Names

variable {name other : String}

theorem slash_not_in (valid : validName name = true) : '/' ∉ name.toList := by
  simp only [validName, Bool.and_eq_true, Bool.not_eq_true', List.contains_eq_mem,
    decide_eq_false_iff_not] at valid
  exact valid.1.2

theorem cache_filename_apart (cached : matchesCacheFilename name.toList = true)
    (matched : matchesSubdirName other.toList = true) :
    ¬ name.toList <+: other.toList ++ ['/'] := by
  intro within
  have dotted : '.' ∈ name.toList := of_before_newline (cache_filename_dotted cached)
  rcases List.mem_append.mp (within.subset dotted) with inside | last
  · exact absurd (subdir_character matched inside) (by decide)
  · exact absurd last (by decide)

end Names

section Order

variable {disk : Disk} {tree : Place} {cacheRoot : Path} {assetType : String}

theorem file_at_iff (typed : typeTree disk cacheRoot assetType = some tree) {path : Names} :
    FileAt disk cacheRoot assetType path ↔ disk.Offers tree isCacheFile isSubdir path := by
  constructor
  · rintro ⟨place, located, offered⟩
    rw [typed, Option.some.injEq] at located
    rwa [located]
  · exact fun offered => ⟨tree, typed, offered⟩

theorem files_below_iff (typed : typeTree disk cacheRoot assetType = some tree) {dir : Names}
    {name : String} :
    FilesBelow disk cacheRoot assetType (dir ++ [name]) ↔
      ∃ rest, rest ≠ [] ∧ disk.Offers tree isCacheFile isSubdir (dir ++ name :: rest) := by
  simp only [FilesBelow, file_at_iff typed, List.append_assoc, List.singleton_append]

theorem offered_subdir {dir rest : Names} {name : String} (some : rest ≠ [])
    (offered : disk.Offers tree isCacheFile isSubdir (dir ++ name :: rest)) :
    matchesSubdirName name.toList = true := by
  rw [List.append_cons] at offered
  exact (offered_way some offered).2 name (by simp)

theorem offered_cache_file {dir : Names} {name : String}
    (offered : disk.Offers tree isCacheFile isSubdir (dir ++ [name])) :
    matchesCacheFilename name.toList = true := by
  obtain ⟨⟨dirs, last, same, -, wanted⟩, -⟩ := offered
  rwa [← List.singleton_inj.mp (List.append_inj' same rfl).2] at wanted

theorem files_le (assetType : String) (dir : Names) {name other : String} :
    joined (assetType :: (dir ++ [name])) ≤ joined (assetType :: (dir ++ [other])) ↔
      name ≤ other := by
  rw [← List.cons_append, ← List.cons_append, same_dir_le (by simp) (by simp) (by simp),
    joined_singleton, joined_singleton]

theorem subdirs_le (assetType : String) {dir rest more : Names} {name other : String}
    (some : rest ≠ []) (someToo : more ≠ []) (apart : name ≠ other)
    (offered : disk.Offers tree isCacheFile isSubdir (dir ++ name :: rest))
    (offeredToo : disk.Offers tree isCacheFile isSubdir (dir ++ other :: more)) :
    joined (assetType :: (dir ++ name :: rest)) ≤ joined (assetType :: (dir ++ other :: more)) ↔
      name ++ "/" ≤ other ++ "/" := by
  rw [← List.cons_append, ← List.cons_append, same_dir_le (by simp) (by simp) (by simp)]
  exact dirs_le (slash_not_in (valid_of_subdir (offered_subdir some offered)))
    (slash_not_in (valid_of_subdir (offered_subdir someToo offeredToo))) apart some someToo

theorem file_subdir_le (assetType : String) {dir more : Names} {name other : String}
    (some : more ≠ []) (offered : disk.Offers tree isCacheFile isSubdir (dir ++ [name]))
    (offeredToo : disk.Offers tree isCacheFile isSubdir (dir ++ other :: more)) :
    joined (assetType :: (dir ++ [name])) ≤ joined (assetType :: (dir ++ other :: more)) ↔
      name ≤ other ++ "/" := by
  have cached := offered_cache_file offered
  rw [← List.cons_append, ← List.cons_append, same_dir_le (by simp) (by simp) (by simp)]
  exact file_dir_le (slash_not_in (valid_of_cache_filename cached))
    (cache_filename_apart cached (offered_subdir some offeredToo)) some

theorem in_step_iff (typed : typeTree disk cacheRoot assetType = some tree) :
    disk.InStep tree isCacheFile isSubdir
        (fun path other => joined (assetType :: path) ≤ joined (assetType :: other)) ↔
      (∀ dir, (disk.names (tree ++ dir)).Pairwise fun name other =>
        FileAt disk cacheRoot assetType (dir ++ [name]) →
        FileAt disk cacheRoot assetType (dir ++ [other]) → name ≤ other) ∧
      (∀ dir, (disk.names (tree ++ dir)).Pairwise fun name other =>
        FilesBelow disk cacheRoot assetType (dir ++ [name]) →
        FilesBelow disk cacheRoot assetType (dir ++ [other]) → name ++ "/" ≤ other ++ "/") ∧
      ∀ dir name other, FileAt disk cacheRoot assetType (dir ++ [name]) →
        FilesBelow disk cacheRoot assetType (dir ++ [other]) → name ≤ other ++ "/" := by
  simp only [file_at_iff typed, files_below_iff typed]
  constructor
  · intro inStep
    refine ⟨fun dir => ?_, fun dir => ?_, ?_⟩
    · apply (inStep.files dir).imp
      intro name other ordered offered offeredToo
      exact (files_le assetType dir).mp (ordered offered offeredToo)
    · apply ((inStep.dirs dir).and (names_nodup _)).imp
      rintro name other ⟨ordered, apart⟩ ⟨rest, some, offered⟩ ⟨more, someToo, offeredToo⟩
      exact (subdirs_le assetType some someToo apart offered offeredToo).mp
        (ordered rest more some someToo offered offeredToo)
    · rintro dir name other offered ⟨more, some, offeredToo⟩
      exact (file_subdir_le assetType some offered offeredToo).mp
        (inStep.mixed dir name other more some offered offeredToo)
  · rintro ⟨files, dirs, mixed⟩
    refine ⟨fun dir => ?_, fun dir => ?_, ?_⟩
    · apply (files dir).imp
      intro name other ordered offered offeredToo
      exact (files_le assetType dir).mpr (ordered offered offeredToo)
    · apply ((dirs dir).and (names_nodup _)).imp
      rintro name other ⟨ordered, apart⟩ rest more some someToo offered offeredToo
      exact (subdirs_le assetType some someToo apart offered offeredToo).mpr
        (ordered ⟨rest, some, offered⟩ ⟨more, someToo, offeredToo⟩)
    · intro dir name other more some offered offeredToo
      exact (file_subdir_le assetType some offered offeredToo).mpr
        (mixed dir name other offered ⟨more, some, offeredToo⟩)

theorem type_files_some (typed : typeTree disk cacheRoot assetType = some tree) (depth : Nat) :
    typeFiles disk cacheRoot depth assetType =
      (disk.walked tree isCacheFile isSubdir depth []).map fun file => assetType :: file.1 := by
  rw [typeFiles, typed, Option.toList_some, List.flatMap_singleton]

theorem type_files_none (untyped : typeTree disk cacheRoot assetType = none) (depth : Nat) :
    typeFiles disk cacheRoot depth assetType = [] := by
  rw [typeFiles, untyped, Option.toList_none, List.flatMap_nil]

theorem mem_type_files {depth : Nat} {key : Names} :
    key ∈ typeFiles disk cacheRoot depth assetType ↔
      ∃ path, key = assetType :: path ∧ path.length ≤ depth ∧
        FileAt disk cacheRoot assetType path := by
  cases typed : typeTree disk cacheRoot assetType with
  | none =>
      rw [type_files_none typed]
      constructor
      · rintro ⟨⟩
      · rintro ⟨path, -, -, tree, located, -⟩
        rw [typed] at located
        cases located
  | some tree =>
      have found : ∀ path, path ∈ (disk.walked tree isCacheFile isSubdir depth []).map Prod.fst ↔
          path.length ≤ depth ∧ FileAt disk cacheRoot assetType path := by
        intro path
        rw [offered_walked (by simp), file_at_iff typed]
        constructor
        · rintro ⟨more, -, short, rfl, offered⟩
          exact ⟨short, offered⟩
        · rintro ⟨short, offered⟩
          obtain ⟨dirs, name, same, -⟩ := offered.split
          exact ⟨path, by simp [same], short, rfl, offered⟩
      rw [type_files_some typed, ← Function.comp_def (List.cons assetType) Prod.fst, ← List.map_map,
        List.mem_map]
      constructor
      · rintro ⟨path, member, rfl⟩
        exact ⟨path, rfl, (found path).mp member⟩
      · rintro ⟨path, rfl, there⟩
        exact ⟨path, (found path).mpr there, rfl⟩

theorem type_files_sorted (typed : typeTree disk cacheRoot assetType = some tree) (depth : Nat) :
    (typeFiles disk cacheRoot depth assetType).Pairwise (fun key other => joined key ≤ joined other) ↔
      ((disk.walked tree isCacheFile isSubdir depth []).map Prod.fst).Pairwise
        fun path other => joined (assetType :: path) ≤ joined (assetType :: other) := by
  rw [type_files_some typed, List.pairwise_map, List.pairwise_map]

theorem file_at_short {path : Names} (there : FileAt disk cacheRoot assetType path) :
    path.length ≤ disk.height := by
  obtain ⟨tree, -, -, bytes, found⟩ := there
  have bounded := length_le_height (by rw [found]; rfl)
  rw [List.length_append] at bounded
  omega

variable {settings : Settings}

/-- All that can be reported is in order exactly if the types and the listings are. -/
theorem in_order_iff :
    (∀ depth, disk.height ≤ depth → (reportable settings disk cacheRoot depth).Pairwise
      (fun key other => joined key ≤ joined other)) ↔ InOrder settings disk cacheRoot := by
  simp only [reportable, List.pairwise_flatMap]
  constructor
  · intro sorted
    have inStep : ∀ assetType ∈ settings.assetCacheTypes, ∀ tree,
        typeTree disk cacheRoot assetType = some tree → disk.InStep tree isCacheFile isSubdir
          fun path other => joined (assetType :: path) ≤ joined (assetType :: other) := by
      intro assetType ofType tree typed
      apply in_step_of_walked
      intro depth deep
      exact (type_files_sorted typed depth).mp ((sorted depth deep).1 assetType ofType)
    refine ⟨?_, ?_, ?_, ?_⟩
    · apply (sorted disk.height le_rfl).2.imp
      intro assetType other ordered path more there thereToo
      exact ordered _ (mem_type_files.mpr ⟨path, rfl, file_at_short there, there⟩) _
        (mem_type_files.mpr ⟨more, rfl, file_at_short thereToo, thereToo⟩)
    · intro assetType ofType tree typed
      exact ((in_step_iff typed).mp (inStep assetType ofType tree typed)).1
    · intro assetType ofType tree typed
      exact ((in_step_iff typed).mp (inStep assetType ofType tree typed)).2.1
    · intro assetType ofType dir name other there
      obtain ⟨tree, typed, offered⟩ := there
      exact ((in_step_iff typed).mp (inStep assetType ofType tree typed)).2.2 dir name other
        ⟨tree, typed, offered⟩
  · rintro ⟨types, files, dirs, mixed⟩ depth -
    constructor
    · intro assetType ofType
      cases typed : typeTree disk cacheRoot assetType with
      | none =>
          rw [type_files_none typed]
          exact List.Pairwise.nil
      | some tree =>
          rw [type_files_sorted typed]
          apply walked_in_step _ depth (by simp)
          exact (in_step_iff typed).mpr ⟨files assetType ofType tree typed,
            dirs assetType ofType tree typed, mixed assetType ofType⟩
    · apply types.imp
      intro assetType other ordered key member more memberToo
      obtain ⟨path, rfl, -, there⟩ := mem_type_files.mp member
      obtain ⟨rest, rfl, -, thereToo⟩ := mem_type_files.mp memberToo
      exact ordered path rest there thereToo

end Order

/-! ## The work tree during a harvest -/

def looksAtTree : DiskCall → Prop
  | .isDir _ | .isLink _ | .isFile _ | .scandir _ => True
  | _ => False

/-- The work tree is seen as it stood at the start. What the cache holds, who else is
at it and what goes wrong there is left open. -/
def ShowsTree {World : Type} (start : DiskWorld) (handler : Handler DiskCall.Answer Raised World)
    (world : World) (request : DiskCall) : Prop :=
  looksAtTree request → (handler world request).1 = (onDisk start request).1

/-- What may come of a harvest: how the keys that are reported are related to those
that are come upon, and whether it may be given up. -/
structure Tally where
  fails : Prop
  reported : List Names → List Names → Prop
  nothing : reported [] []
  append : ∀ {news keys others more}, reported news keys → reported others more →
    reported (news ++ others) (keys ++ more)

def Tally.Counts (tally : Tally) (keys : List Names) (added : List String) :
    Except Raised (List String) → Prop
  | .ok all => ∃ news, tally.reported news keys ∧ all = added ++ entryTexts news
  | .error _ => tally.fails

/-- What is done with a file that is a cache file. -/
def storeOnce (pid : Nat) (src destDir : Path) (name text : String) (added : List String) :
    DiskProgram (List String) := do
  if ← diskCall (.exist (destDir ++ [name])) then return added
  else
    let promoted ← storeFile pid src destDir name
    return if promoted then added ++ [text] else added

def Tally.Stores {World : Type} (tally : Tally)
    (handler : Handler DiskCall.Answer Raised World) : Prop :=
  ∀ world pid src destDir name key added, tally.Counts [key] added
    (run handler world (storeOnce pid src destDir name (joined key) added)).1

section Runs

variable {World : Type} {handler : Handler DiskCall.Answer Raised World} {start : DiskWorld}
  {tally : Tally} {world : World} {keys more : List Names} {added : List String}

theorem look_leaves {request : DiskCall} (looks : looksAtTree request) :
    (onDisk start request).2 = start := by
  cases request <;> first | rfl | cases looks

theorem looks_alike {Result : Type} {program : DiskProgram Result}
    (only : MakesOnly looksAtTree program)
    (shows : AtEachCall handler (ShowsTree start handler) world program) :
    (run handler world program).1 = (run onDisk start program).1 := by
  induction program generalizing world with
  | done outcome => rfl
  | call request next induction =>
      have answered := shows.1 only.1
      rw [run_call, run_call, look_leaves only.1, ← answered]
      exact induction _ (only.2 _) shows.2

theorem look_then {Result Other : Type} {look : DiskProgram Result} {value : Result}
    {next : Except Raised Result → DiskProgram Other} (only : MakesOnly looksAtTree look)
    (looked : (run onDisk start look).1 = .ok value)
    (shows : AtEachCall handler (ShowsTree start handler) world (look.andThen next)) :
    ∃ after, AtEachCall handler (ShowsTree start handler) after (next (.ok value)) ∧
      run handler world (look.andThen next) = run handler after (next (.ok value)) := by
  obtain ⟨here, rest⟩ := (at_each_call_and_then _ _ _ _).mp shows
  have answered := looks_alike only here
  rw [looked] at answered
  rw [answered] at rest
  exact ⟨_, rest, by rw [run_and_then, answered]⟩

theorem counts_nothing (tally : Tally) (added : List String) : tally.Counts [] added (.ok added) :=
  ⟨[], tally.nothing, by simp [entryTexts]⟩

theorem counts_bind {first : DiskProgram (List String)}
    {next : List String → DiskProgram (List String)}
    (begun : AtEachCall handler (ShowsTree start handler) world first →
      tally.Counts keys added (run handler world first).1)
    (rest : ∀ middle added, AtEachCall handler (ShowsTree start handler) middle (next added) →
      tally.Counts more added (run handler middle (next added)).1)
    (shows : AtEachCall handler (ShowsTree start handler) world (first >>= next)) :
    tally.Counts (keys ++ more) added (run handler world (first >>= next)).1 := by
  rw [bind_is_and_then, at_each_call_and_then] at shows
  obtain ⟨here, later⟩ := shows
  have counted := begun here
  rw [bind_is_and_then, run_and_then]
  cases ended : (run handler world first).1 with
  | error raised =>
      rw [ended] at counted
      exact counted
  | ok all =>
      rw [ended] at counted later
      obtain ⟨news, reported, rfl⟩ := counted
      have further := rest _ _ later
      cases last : (run handler (run handler world first).2 (next (added ++ entryTexts news))).1 with
      | error raised =>
          rw [last] at further
          rw [on_value_ok, last]
          exact further
      | ok all =>
          rw [last] at further
          obtain ⟨others, reportedToo, rfl⟩ := further
          rw [on_value_ok, last]
          refine ⟨news ++ others, tally.append reported reportedToo, ?_⟩
          rw [entry_texts_append, List.append_assoc]

theorem counts_fold {Element : Type} (found : Element → List Names)
    (body : List String → Element → DiskProgram (List String)) (elements : List Element)
    (each : ∀ world added, ∀ element ∈ elements,
      AtEachCall handler (ShowsTree start handler) world (body added element) →
      tally.Counts (found element) added (run handler world (body added element)).1)
    (world : World) (added : List String)
    (shows : AtEachCall handler (ShowsTree start handler) world (elements.foldlM body added)) :
    tally.Counts (elements.flatMap found) added (run handler world (elements.foldlM body added)).1 := by
  induction elements generalizing world added with
  | nil => exact counts_nothing tally added
  | cons element rest induction =>
      rw [List.foldlM_cons] at shows ⊢
      rw [List.flatMap_cons]
      apply counts_bind (each world added element List.mem_cons_self) _ shows
      intro middle added
      apply induction
      intro world added other member
      exact each world added other (List.mem_cons_of_mem _ member)

variable {settings : Settings} {project assetType : String} {cacheRoot : Path} {tree : Place}
  {parts : Names}

theorem counts_file (stores : tally.Stores handler) (pid : Nat)
    (down : Down start.drive.disk (cacheRoot ++ [assetType]) tree parts) (name : String)
    (shows : AtEachCall handler (ShowsTree start handler) world
      (harvestFile pid (cacheRoute settings project assetType (cacheRoot ++ [assetType])) parts added name)) :
    tally.Counts ((start.drive.disk.taken tree isCacheFile parts name).toList.map
        fun file => assetType :: file.1) added
      (run handler world (harvestFile pid
        (cacheRoute settings project assetType (cacheRoot ++ [assetType])) parts added name)).1 := by
  rw [harvest_file_eq] at shows ⊢
  rw [Disk.taken, isCacheFile]
  cases cached : matchesCacheFilename name.toList with
  | false => exact counts_nothing tally added
  | true =>
      rw [cached] at shows
      have looked : (run onDisk start (isRealFile (cacheRoot ++ [assetType] ++ parts ++ [name]))).1 =
          .ok (start.drive.disk.fileAt (tree ++ parts ++ [name])).isSome := by
        rw [run_is_real_file, real_file_source, source_below down (cache_filename_plain cached)]
      obtain ⟨after, rest, ran⟩ := look_then (real_file_makes_only trivial trivial) looked shows
      rw [if_pos rfl, if_pos rfl, bind_is_and_then, ran]
      cases start.drive.disk.fileAt (tree ++ parts ++ [name]) with
      | none => exact counts_nothing tally added
      | some bytes => exact stores after pid _ _ name (assetType :: (parts ++ [name])) added

theorem counts_dir (stores : tally.Stores handler) (pid depth : Nat)
    (down : Down start.drive.disk (cacheRoot ++ [assetType]) tree parts)
    (shows : AtEachCall handler (ShowsTree start handler) world
      (harvestDir pid (cacheRoute settings project assetType (cacheRoot ++ [assetType])) depth parts added)) :
    tally.Counts ((start.drive.disk.walked tree isCacheFile isSubdir depth parts).map
        fun file => assetType :: file.1) added
      (run handler world (harvestDir pid
        (cacheRoute settings project assetType (cacheRoot ++ [assetType])) depth parts added)).1 := by
  induction depth generalizing world parts added with
  | zero => exact counts_nothing tally added
  | succ depth induction =>
      have scanned : (run onDisk start (diskCall (.scandir (cacheRoot ++ [assetType] ++ parts)))).1 =
          .ok ((start.drive.disk.names (tree ++ parts)).map (start.describe (tree ++ parts))) := by
        rw [run_perform, onDisk, scan_down down]
      have spelled : (cacheRoute settings project assetType (cacheRoot ++ [assetType])).srcTypeDir ++ parts =
          cacheRoot ++ [assetType] ++ parts := rfl
      rw [harvestDir, spelled] at shows ⊢
      have looks : MakesOnly looksAtTree (diskCall (.scandir (cacheRoot ++ [assetType] ++ parts))) :=
        ⟨trivial, fun _ => trivial⟩
      obtain ⟨middle, listed, ran⟩ := look_then looks scanned shows
      rw [ran, Disk.walked, ← taken_files down, List.map_append, List.map_flatMap, List.map_flatMap]
      clear shows ran
      dsimp only at listed ⊢
      rw [chosen_names, chosen_names] at listed ⊢
      obtain ⟨chosen, going, ran⟩ := look_then (makes_only_select
        (fun d => plain_subdir_makes_only trivial) _)
        (congrArg Prod.fst (run_select (run_is_plain_subdir _) _)) listed
      rw [bind_is_and_then, ran]
      apply counts_bind _ _ going
      · intro files
        exact counts_fold _ _ _ (fun world added name _ => counts_file stores pid down name) chosen added files
      · intro later added shows
        obtain ⟨after, going, ran⟩ := look_then (makes_only_select
          (fun d => not_link_makes_only trivial) _)
          (congrArg Prod.fst (run_select (fun d => run_is_not_link _) _)) shows
        rw [bind_is_and_then, ran]
        rw [on_value_ok, chosen_dirs down down (fun _ => rfl)] at going ⊢
        apply counts_fold _ _ _ _ after added going
        intro world added d entered
        exact induction (down_entered down entered)

theorem counts_type (stores : tally.Stores handler) (pid depth : Nat)
    (shows : AtEachCall handler (ShowsTree start handler) world
      (harvestType pid depth cacheRoot (root settings ++ [project]) added assetType)) :
    tally.Counts (typeFiles start.drive.disk cacheRoot depth assetType) added
      (run handler world (harvestType pid depth cacheRoot (root settings ++ [project]) added assetType)).1 := by
  unfold harvestType at shows ⊢
  obtain ⟨after, going, ran⟩ := look_then (real_dir_makes_only trivial trivial)
    (congrArg Prod.fst (run_is_real_dir _)) shows
  rw [bind_is_and_then, ran]
  rw [on_value_ok] at going ⊢
  cases real : start.drive.disk.isDir (cacheRoot ++ [assetType]) &&
      !start.drive.disk.isLink (cacheRoot ++ [assetType]) with
  | false =>
      rw [type_files_none (by rw [typeTree, real]; rfl)]
      exact counts_nothing tally added
  | true =>
      rw [real] at going
      obtain ⟨tree, located, directory⟩ := is_dir_iff.mp (Bool.and_eq_true_iff.mp real).1
      have typed : typeTree start.drive.disk cacheRoot assetType = some tree := by
        rw [typeTree, if_pos real, located]
      rw [type_files_some typed]
      exact counts_dir stores pid depth ⟨by simpa using located, by simpa using directory, by simp⟩ going

theorem counts_harvest (stores : tally.Stores handler)
    (valid : matchesProjectId project.toList = true) (pid depth : Nat) (workDir : Path)
    (shows : AtEachCall handler (ShowsTree start handler) world (harvest settings pid depth project workDir)) :
    tally.Counts (reportable settings start.drive.disk (workDir ++ settings.generateOutputSubdir) depth) []
      (run handler world (harvest settings pid depth project workDir)).1 := by
  unfold harvest projectDir at shows ⊢
  rw [if_pos valid, pure_bind] at shows ⊢
  apply counts_fold _ _ _ _ world [] shows
  intro world added assetType _
  exact counts_type stores pid depth

end Runs

/-! ## The report -/

/-- Whatever else is going on, no more is reported than what is come upon. -/
def atMost : Tally where
  fails := True
  reported := List.Sublist
  nothing := List.Sublist.refl []
  append := List.Sublist.append

/-- All that is come upon is reported. -/
def exactly : Tally where
  fails := False
  reported news keys := news = keys
  nothing := rfl
  append := by
    rintro news _ others _ rfl rfl
    rfl

/-- The tree as it stood, and beside it a cache that has nothing yet and takes in all it
is given. -/
def besideEmptyCache (start : DiskWorld) : Handler DiskCall.Answer Raised Unit
  | _, .isDir path => ((onDisk start (.isDir path)).1, ())
  | _, .isLink path => ((onDisk start (.isLink path)).1, ())
  | _, .isFile path => ((onDisk start (.isFile path)).1, ())
  | _, .scandir path => ((onDisk start (.scandir path)).1, ())
  | _, .readFile path => (.ok ((onDisk start (.readFile path)).1.toOption.getD []), ())
  | _, .exist _ => (.ok false, ())
  | _, .sameFile _ _ => (.ok false, ())
  | _, .fileSize _ => (.ok 0, ())
  | _, .time => (.ok 0, ())
  | _, .timeNs => (.ok 0, ())
  | _, .makedirs _ => (.ok (), ())
  | _, .chmod _ => (.ok (), ())
  | _, .utime _ => (.ok (), ())
  | _, .openWrite path => (.ok path, ())
  | _, .write _ _ => (.ok (), ())
  | _, .replace _ _ => (.ok (), ())
  | _, .remove _ => (.ok (), ())
  | _, .rmdir _ => (.ok (), ())

section Reports

variable {settings : Settings} {start : DiskWorld} {project : String} {workDir : Path}

/-- What a harvest of a tree returns is in order, whatever the cache has and takes in. -/
def ReturnsSorted (settings : Settings) (start : DiskWorld) (project : String)
    (workDir : Path) : Prop :=
  ∀ (World : Type) (handler : Handler DiskCall.Answer Raised World) (world after : World)
    (pid depth : Nat) (added : List String), start.drive.disk.height ≤ depth →
    AtEachCall handler (ShowsTree start handler) world (harvest settings pid depth project workDir) →
    run handler world (harvest settings pid depth project workDir) = (.ok added, after) →
      added.Pairwise (· ≤ ·)

theorem stores_at_most {World : Type} (handler : Handler DiskCall.Answer Raised World) :
    atMost.Stores handler := by
  intro world pid src destDir name key added
  unfold storeOnce
  rw [bind_is_and_then, run_and_then]
  rcases (run handler world (diskCall (.exist (destDir ++ [name])))).1 with raised | there
  · trivial
  cases there with
  | true => exact ⟨[], List.nil_sublist _, by simp [entryTexts]⟩
  | false =>
      rw [on_value_ok, if_neg (by decide), bind_is_and_then, run_and_then]
      rcases (run handler _ (storeFile pid src destDir name)).1 with raised | promoted
      · trivial
      cases promoted with
      | true => exact ⟨[key], List.Sublist.refl _, rfl⟩
      | false => exact ⟨[], List.nil_sublist _, by simp [entryTexts]⟩

theorem written_beside (file : Place) (blocks : List Bytes) :
    run (besideEmptyCache start) () (blocks.forM fun block => diskCall (.write file block)) =
      (.ok ⟨⟩, ()) := by
  induction blocks with
  | nil => rfl
  | cons block blocks induction => rw [run_for_cons _ block blocks rfl, induction]

theorem stored_beside (pid : Nat) (src destDir : Path) (name : String) :
    run (besideEmptyCache start) () (storeFile pid src destDir name) = (.ok true, ()) := by
  have transferred : ∀ dst, run (besideEmptyCache start) () (transfer src dst) = (.ok (), ()) :=
    fun dst => written_beside dst _
  have copied : ∀ dst, run (besideEmptyCache start) () (copyfile src dst) = (.ok (), ()) := transferred
  have promoted : ∀ tmp dest, run (besideEmptyCache start) () (promote src tmp dest) = (.ok true, ()) := by
    intro tmp dest
    rw [promote, rescue, run_and_then, bind_is_and_then, run_and_then, copied]
    rfl
  exact promoted _ _

theorem stores_exactly : exactly.Stores (besideEmptyCache start) := by
  intro world pid src destDir name key added
  have ran : run (besideEmptyCache start) world (storeOnce pid src destDir name (joined key) added) =
      (.ok (added ++ [joined key]), ()) := by
    change run (besideEmptyCache start) () (storeFile pid src destDir name >>= _) = _
    rw [bind_is_and_then, run_and_then, stored_beside]
    rfl
  rw [ran]
  exact ⟨[key], rfl, rfl⟩

theorem shows_beside {Result : Type} (program : DiskProgram Result) :
    AtEachCall (besideEmptyCache start) (ShowsTree start (besideEmptyCache start)) () program := by
  induction program with
  | done outcome => trivial
  | call request next induction =>
      refine ⟨?_, induction _⟩
      intro looks
      cases request <;> first | rfl | cases looks

/-- The report of a harvest is in order exactly for a project with no proper name, or if the
types are configured, and the directories listed, in the order of the paths. -/
theorem returns_sorted_iff : ReturnsSorted settings start project workDir ↔
    (matchesProjectId project.toList = true →
      InOrder settings start.drive.disk (workDir ++ settings.generateOutputSubdir)) := by
  constructor
  · intro sorted valid
    apply in_order_iff.mp
    intro depth deep
    have shows := @shows_beside start _ (harvest settings 0 depth project workDir)
    have counted := counts_harvest stores_exactly valid 0 depth workDir shows
    cases ended : (run (besideEmptyCache start) () (harvest settings 0 depth project workDir)).1 with
    | error raised =>
        rw [ended] at counted
        cases counted
    | ok added =>
        rw [ended] at counted
        obtain ⟨news, rfl, rfl⟩ := counted
        have ordered := sorted Unit _ () () 0 depth _ deep shows (Prod.ext ended rfl)
        rw [List.nil_append, entryTexts, List.pairwise_map] at ordered
        exact ordered
  · intro inOrder World handler world after pid depth added deep shows ran
    by_cases valid : matchesProjectId project.toList = true
    · have counted := counts_harvest (stores_at_most handler) valid pid depth workDir shows
      rw [ran] at counted
      obtain ⟨news, within, rfl⟩ := counted
      rw [List.nil_append, entryTexts, List.pairwise_map]
      exact (in_order_iff.mpr (inOrder valid) depth deep).sublist within
    · unfold harvest projectDir at ran
      rw [if_neg valid] at ran
      cases ran

end Reports

/-! ## Two types with a figure each -/

def typedFigures : DiskWorld where
  drive := {
    disk := .ofList [
      (["data"], .directory), (["data", "jobs"], .directory), (["data", "jobs", "j"], .directory),
      (defaults.workDir "j", .directory), (defaults.workDir "j" ++ [".cache"], .directory),
      (defaults.workDir "j" ++ [".cache", "asymptote"], .directory),
      (defaults.workDir "j" ++ [".cache", "asymptote", cacheKey], .file [1]),
      (defaults.workDir "j" ++ [".cache", "latex-image"], .directory),
      (defaults.workDir "j" ++ [".cache", "latex-image", cacheKey], .file [2])]
    changed := [] }
  clock := 5
  lastUse := fun _ => 0

/-- The types are taken as they are configured. -/
theorem configured_order_reported :
    (run onDisk typedFigures (harvest defaults 7 12 "p" (defaults.workDir "j"))).1 =
        .ok ["latex-image/" ++ cacheKey, "asymptote/" ++ cacheKey] ∧
      ¬ ReturnsSorted defaults typedFigures "p" (defaults.workDir "j") := by
  refine ⟨by decide +kernel, ?_⟩
  intro sorted
  have reported : run (besideEmptyCache typedFigures) () (harvest defaults 7 12 "p" (defaults.workDir "j")) =
      (.ok ["latex-image/" ++ cacheKey, "asymptote/" ++ cacheKey], ()) := by
    decide +kernel
  have ordered := sorted Unit (besideEmptyCache typedFigures) () () 7 12 _ (by decide +kernel)
    (shows_beside _) reported
  exact absurd ordered (by decide)

end PretextBuildServer.SortedHarvest
