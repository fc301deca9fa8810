import PretextBuildServer.EvictionRule
import PretextBuildServer.Library.EvictionOrder
import PretextBuildServer.Library.PosixTrees
import PretextBuildServer.TreeWalks

/-!
# What a prune evicts

On a disk that does not fail a prune takes away whole projects: those nobody has
used for too long, and then the least recently used, one after the other, until
the rest fits.
-/

namespace PretextBuildServer.LeastRecentlyUsed

open EffectProgram EffectProgram.Program PosixDisk EvictionOrder
open PretextBuildServer.ServerSettings PretextBuildServer.JobCalls PretextBuildServer.PathTexts
open PretextBuildServer.DiskCalls PretextBuildServer.AssetCache PretextBuildServer.HarvestRuns
open PretextBuildServer.EvictionRule PretextBuildServer.TreeWalks

set_option autoImplicit false

/-! ## Taking a directory away -/

/-- The world has lost what stood at certain places, and nothing else. -/
structure Loses (world : DiskWorld) (gone : Place → Prop) (after : DiskWorld) : Prop where
  clock : after.clock = world.clock
  lastUse : after.lastUse = world.lastUse
  disk : world.drive.disk.Without gone after.drive.disk

/-- All that stands at the named entries of a directory or below. -/
def UnderAny (dir : Place) (names : List String) (place : Place) : Prop :=
  ∃ name ∈ names, dir ++ [name] <+: place

/-- Nothing stands deeper below the place. -/
def Shallow (disk : Disk) (depth : Nat) (place : Place) : Prop :=
  ∀ below, (disk.find (place ++ below)).isSome = true → below.length ≤ depth

section Losing

variable {world middle after : DiskWorld} {gone further : Place → Prop} {dir : Place}

theorem loses_nothing (free : ∀ place, gone place → world.drive.disk.find place = none) :
    Loses world gone world := ⟨rfl, rfl, without_nothing free⟩

theorem loses_trans (first : Loses world gone middle) (second : Loses middle further after) :
    Loses world (fun place => gone place ∨ further place) after :=
  ⟨second.clock.trans first.clock, second.lastUse.trans first.lastUse,
    without_trans first.disk second.disk⟩

theorem loses_congr (loses : Loses world gone after) (same : ∀ place, gone place ↔ further place) :
    Loses world further after :=
  ⟨loses.clock, loses.lastUse, without_congr loses.disk same⟩

theorem valid_without (valid : ValidNames world.drive.disk) (loses : Loses world gone after) :
    ValidNames after.drive.disk :=
  fun dir name found => valid dir name (standing_before loses.disk found)

theorem shallow_without {depth : Nat} (shallow : Shallow world.drive.disk depth dir)
    (loses : Loses world gone after) : Shallow after.drive.disk depth dir :=
  fun below found => shallow below (standing_before loses.disk found)

theorem shallow_bottom (shallow : Shallow world.drive.disk 0 dir) (other : Place)
    (deeper : Below dir other) : world.drive.disk.find other = none := by
  obtain ⟨name, rest, rfl⟩ := below_iff.mp deeper
  by_contra found
  rw [List.append_assoc] at found
  have bounded := shallow ([name] ++ rest) (Option.isSome_iff_ne_none.mpr found)
  simp at bounded

theorem shallow_child {depth : Nat} {name : String}
    (shallow : Shallow world.drive.disk (depth + 1) dir) :
    Shallow world.drive.disk depth (dir ++ [name]) := by
  intro below found
  rw [List.append_assoc] at found
  have bounded := shallow ([name] ++ below) found
  rw [List.length_append, List.length_singleton] at bounded
  omega

theorem below_leaf_free {place : Place} (leaf : world.drive.disk.find place ≠ some .directory)
    (other : Place) (deeper : Below place other) : world.drive.disk.find other = none := by
  obtain ⟨name, rest, rfl⟩ := below_iff.mp deeper
  cases found : world.drive.disk.find (place ++ [name] ++ rest) with
  | none => rfl
  | some entry =>
      rw [List.append_assoc] at found
      exact absurd (ancestor_is_directory (by simp) found) leaf

theorem tree_of_parts (first : Loses world (Below dir) middle)
    (second : Loses middle (· = dir) after) :
    Loses world (dir <+: ·) after := by
  apply loses_congr (loses_trans first second)
  intro place
  constructor
  · rintro (deeper | rfl)
    · exact deeper.1
    · exact List.prefix_rfl
  · intro within
    by_cases same : place = dir
    · exact .inr same
    · exact .inl ⟨within, same⟩

theorem under_cons (name : String) (names : List String) (place : Place) :
    dir ++ [name] <+: place ∨ UnderAny dir names place ↔ UnderAny dir (name :: names) place := by
  simp [UnderAny]

theorem ignoring_runs {program : DiskProgram Unit}
    (ran : run onDisk world program = (.ok (), after)) :
    run onDisk world (ignoringOSError program) = (.ok (), after) := by
  rw [ignoringOSError, rescue, run_and_then, ran]
  rfl

end Losing

section Trees

variable {world : DiskWorld} {path : Path} {place : Place} {name : String} {depth : Nat}

/-- That the directory at a path is emptied. -/
def Clears (depth : Nat) : Prop :=
  ∀ {world : DiskWorld} {path : Path} {place : Place}, world.drive.disk.Anchored path place →
    ValidNames world.drive.disk → Shallow world.drive.disk depth place →
    ∃ after, run onDisk world (clearDir depth path) = (.ok (), after) ∧ Loses world (Below place) after

theorem tree_removed (clears : Clears depth) (anchored : world.drive.disk.Anchored path place)
    (valid : ValidNames world.drive.disk)
    (shallow : Shallow world.drive.disk depth (place ++ [name]))
    (found : world.drive.disk.find (place ++ [name]) = some .directory) :
    ∃ after, run onDisk world (rmtree depth (path ++ [name])) = (.ok (), after) ∧
      Loses world (place ++ [name] <+: ·) after := by
  have plain : isPlain name = true := plain_of_valid (valid_place valid found name (by simp))
  obtain ⟨middle, cleared, emptied⟩ :=
    clears (anchored_child anchored plain found (by simp)) valid shallow
  have located : middle.drive.disk.locate path = some place :=
    anchored _ _ (fun other deeper => below_child deeper.1) emptied.disk
  have still : middle.drive.disk.find (place ++ [name]) = some .directory := by
    rw [emptied.disk.kept _ fun deeper => deeper.2 rfl, found]
  obtain ⟨later, removed, without⟩ := rmdir_empty located plain still emptied.disk.removed
  refine ⟨{ middle with drive := later }, ?_, tree_of_parts emptied ⟨rfl, rfl, without⟩⟩
  rw [rmtree, bind_is_and_then, run_and_then, cleared]
  apply ignoring_runs
  rw [run_perform, onDisk, removed]
  rfl

theorem leaf_removed (anchored : world.drive.disk.Anchored path place)
    (valid : ValidNames world.drive.disk) {entry : Entry}
    (found : world.drive.disk.find (place ++ [name]) = some entry) (leaf : entry ≠ .directory) :
    ∃ after, run onDisk world (ignoringOSError (diskCall (.remove (path ++ [name])))) =
      (.ok (), after) ∧
      Loses world (place ++ [name] <+: ·) after := by
  have plain : isPlain name = true := plain_of_valid (valid_place valid found name (by simp))
  obtain ⟨later, removed, without⟩ := remove_leaf (anchored_locates anchored) plain found leaf
  refine ⟨{ world with drive := later }, ?_, ?_⟩
  · apply ignoring_runs
    rw [run_perform, onDisk, removed]
    rfl
  · have gone : Loses world (· = place ++ [name]) { world with drive := later } := ⟨rfl, rfl, without⟩
    exact tree_of_parts (loses_nothing (below_leaf_free (by simpa [found] using leaf))) gone

/-- What `rmtree` does with one entry of a directory. -/
def removeEntry (depth : Nat) (path : Path) (entry : DirEntry) : DiskProgram Unit :=
  if entry.isRealDir then rmtree depth (path ++ [entry.name])
  else ignoringOSError (diskCall (.remove (path ++ [entry.name])))

theorem clear_dir_succ (depth : Nat) (path : Path) :
    clearDir (depth + 1) path = ignoringOSError (do
      let entries : List DirEntry ← diskCall (.scandir path)
      entries.forM (removeEntry depth path)) := rfl

theorem entries_removed (clears : Clears depth) (listing : DiskWorld) (names : List String)
    (once : names.Nodup) (anchored : world.drive.disk.Anchored path place)
    (valid : ValidNames world.drive.disk) (shallow : Shallow world.drive.disk (depth + 1) place)
    (standing : ∀ name ∈ names, (world.drive.disk.find (place ++ [name])).isSome = true ∧
      world.drive.disk.find (place ++ [name]) = listing.drive.disk.find (place ++ [name])) :
    ∃ after, run onDisk world ((names.map (listing.describe place)).forM (removeEntry depth path)) =
        (.ok (), after) ∧
      Loses world (UnderAny place names) after := by
  induction names generalizing world with
  | nil => exact ⟨world, rfl, loses_nothing (by simp [UnderAny])⟩
  | cons name names induction =>
      obtain ⟨there, same⟩ := standing name List.mem_cons_self
      obtain ⟨entry, found⟩ := Option.isSome_iff_exists.mp there
      have first : ∃ middle, run onDisk world (removeEntry depth path (listing.describe place name)) =
          (.ok (), middle) ∧ Loses world (place ++ [name] <+: ·) middle := by
        unfold removeEntry
        by_cases directory : entry = .directory
        · rw [if_pos (by simp [DiskWorld.describe, ← same, found, directory])]
          rw [directory] at found
          exact tree_removed clears anchored valid (shallow_child shallow) found
        · rw [if_neg (by simp [DiskWorld.describe, ← same, found, directory])]
          exact leaf_removed anchored valid found directory
      obtain ⟨middle, ran, lost⟩ := first
      rw [List.nodup_cons] at once
      have others : ∀ other ∈ names,
          middle.drive.disk.find (place ++ [other]) = world.drive.disk.find (place ++ [other]) := by
        intro other member
        apply lost.disk.kept
        intro within
        exact once.1 (same_child within List.prefix_rfl ▸ member)
      obtain ⟨after, rest, gone⟩ := induction once.2
        (anchored_without anchored lost.disk fun other within => below_child within)
        (valid_without valid lost) (shallow_without shallow lost) (by
          intro other member
          rw [others other member]
          exact standing other (List.mem_cons_of_mem _ member))
      refine ⟨after, ?_, loses_congr (loses_trans lost gone) (under_cons name names)⟩
      rw [List.map_cons, run_for_cons _ _ _ ran]
      exact rest

theorem clear_dir_clears (depth : Nat) : Clears depth := by
  induction depth with
  | zero =>
      intro world path place anchored valid shallow
      exact ⟨world, rfl, loses_nothing (shallow_bottom shallow)⟩
  | succ depth induction =>
      intro world path place anchored valid shallow
      rw [clear_dir_succ]
      by_cases inside : world.drive.disk.find place = some .directory
      · obtain ⟨after, ran, lost⟩ := entries_removed induction world (world.drive.disk.names place)
          (names_nodup place) anchored valid shallow (fun name listed => ⟨mem_names.mp listed, rfl⟩)
        refine ⟨after, ?_, ?_⟩
        · apply ignoring_runs
          have scanned : world.scandir path =
              .ok ((world.drive.disk.names place).map (world.describe place)) := by
            rw [DiskWorld.scandir, anchored_locates anchored]
            simp only [inside, if_true]
          rw [bind_is_and_then, run_and_then, run_perform, onDisk, scanned]
          exact ran
        · refine ⟨lost.clock, lost.lastUse, without_also lost.disk ?_ ?_⟩
          · rintro other ⟨name, -, within⟩
            exact below_child within
          · intro other deeper unlisted
            obtain ⟨name, rest, rfl⟩ := below_iff.mp deeper
            apply below_free
            by_contra there
            exact unlisted ⟨name, mem_names.mpr (Option.isSome_iff_ne_none.mpr there), List.prefix_append _ _⟩
      · refine ⟨world, ?_, loses_nothing (below_leaf_free inside)⟩
        have refuses : world.scandir path = refused := by
          rw [DiskWorld.scandir, anchored_locates anchored]
          simp only [inside, if_false]
        rw [ignoringOSError, rescue, run_and_then, bind_is_and_then, run_and_then, run_perform,
          onDisk, refuses]
        rfl

end Trees

/-! ## What a tree takes -/

/-- A directory counts for nothing, and neither does a link to one. -/
def counted (disk : Disk) (place : Place) : Nat :=
  if disk.isDir place then 0 else (disk.find place).elim 0 entrySize

def bytesBelow (disk : Disk) (place : Place) : Nat := disk.totalBelow (counted disk) place

section Sizes

variable {world : DiskWorld} {srcDir : Path} {root : Place} {parts : List String} {depth : Nat}

theorem sum_filter {Element : Type} {keep : Element → Bool} {size : Element → Nat}
    {elements : List Element} (empty : ∀ element ∈ elements, keep element = false → size element = 0) :
    ((elements.filter keep).map size).sum = (elements.map size).sum := by
  induction elements with
  | nil => rfl
  | cons element rest induction =>
      obtain ⟨first, others⟩ := List.forall_mem_cons.mp empty
      cases kept : keep element with
      | true => rw [List.filter_cons_of_pos kept, List.map_cons, List.map_cons, List.sum_cons,
          List.sum_cons, induction others]
      | false => rw [List.filter_cons_of_neg (by simp [kept]), List.map_cons, List.sum_cons,
          first kept, Nat.zero_add, induction others]

theorem foldl_sum {Element : Type} (size : Element → Nat) (elements : List Element) (total : Nat) :
    elements.foldl (fun total element => total + size element) total =
      total + (elements.map size).sum := by
  induction elements generalizing total with
  | nil => rfl
  | cons element rest induction =>
      rw [List.foldl_cons, induction, List.map_cons, List.sum_cons, Nat.add_assoc]

theorem files_size_runs (valid : ValidNames world.drive.disk)
    (down : Down world.drive.disk srcDir root parts) {name : String}
    (listed : name ∈ world.drive.disk.names (root ++ parts))
    (file : (world.describe (root ++ parts) name).isDir = false) (total : Nat) :
    run onDisk world (filesSize (srcDir ++ parts) total (world.describe (root ++ parts) name)) =
      (.ok (total + counted world.drive.disk (root ++ parts ++ [name])), world) := by
  obtain ⟨entry, found⟩ := Option.isSome_iff_exists.mp (mem_names.mp listed)
  have plain : isPlain name = true := plain_of_valid (valid_place valid found name (by simp))
  have stated : world.drive.disk.lstat (srcDir ++ parts ++ [name]) = some entry := by
    rw [Disk.lstat, spot_located down.located down.directory plain, Option.bind_some, found]
  have size : counted world.drive.disk (root ++ parts ++ [name]) = entrySize entry := by
    rw [counted, if_neg, found, Option.elim_some]
    simpa [DiskWorld.describe] using file
  rw [filesSize, rescue, run_and_then, bind_is_and_then, run_and_then, run_perform]
  simp only [onDisk, DiskWorld.describe, stated, size]
  rfl

theorem file_sizes_added (valid : ValidNames world.drive.disk)
    (down : Down world.drive.disk srcDir root parts) (total : Nat) :
    run onDisk world ((((world.drive.disk.names (root ++ parts)).map
        (world.describe (root ++ parts))).filter fun entry => !entry.isDir).foldlM
        (filesSize (srcDir ++ parts)) total) =
      (.ok (total + ((world.drive.disk.names (root ++ parts)).map fun name =>
        counted world.drive.disk (root ++ parts ++ [name])).sum), world) := by
  rw [run_pure_fold _ (fun total entry =>
    total + counted world.drive.disk (root ++ parts ++ [entry.name]))]
  · rw [foldl_sum, List.filter_map, List.map_map]
    congr 3
    apply sum_filter
    intro name listed directory
    change counted world.drive.disk (root ++ parts ++ [name]) = 0
    rw [counted, if_pos]
    simpa [DiskWorld.describe] using directory
  · intro total entry member
    obtain ⟨described, file⟩ := List.mem_filter.mp member
    obtain ⟨name, listed, rfl⟩ := List.mem_map.mp described
    exact files_size_runs valid down listed (by simpa using file) total

theorem dir_size_runs (valid : ValidNames world.drive.disk) (depth : Nat)
    (down : Down world.drive.disk srcDir root parts)
    (shallow : Shallow world.drive.disk depth (root ++ parts)) (total : Nat) :
    run onDisk world (dirSize depth (srcDir ++ parts) total) =
      (.ok (total + bytesBelow world.drive.disk (root ++ parts)), world) := by
  induction depth generalizing parts total with
  | zero =>
      rw [bytesBelow, total_below_free (shallow_bottom shallow)]
      rfl
  | succ depth induction =>
      have deeper : ∀ total, run onDisk world ((realSubdirs world.drive.disk (root ++ parts)).foldlM
          (fun total d => dirSize depth (srcDir ++ parts ++ [d]) total) total) =
          (.ok (total + ((world.drive.disk.names (root ++ parts)).map fun name =>
            bytesBelow world.drive.disk (root ++ parts ++ [name])).sum), world) := by
        intro total
        rw [run_pure_fold _ (fun total d =>
          total + bytesBelow world.drive.disk (root ++ parts ++ [d]))]
        · rw [foldl_sum, realSubdirs]
          congr 3
          apply sum_filter
          intro name listed leaf
          exact total_below_free (below_leaf_free (by simpa using leaf))
        · intro total name member
          rw [List.append_assoc, List.append_assoc]
          apply induction (down_into valid down (mem_real_subdirs.mp member))
          rw [← List.append_assoc]
          exact shallow_child shallow
      rw [dirSize, run_and_then, run_perform]
      simp only [onDisk, scan_down down, bind_is_and_then, run_and_then, file_sizes_added valid down,
        on_value_ok, chosen_names, run_select (fun d => run_is_not_link (srcDir ++ parts ++ [d])),
        walked_dirs valid down, deeper]
      rw [bytesBelow, total_below_names, List.sum_map_add, Nat.add_assoc]
      rfl

end Sizes

/-! ## The cache and its projects -/

/-- The root of the cache is at `base`, on a disk of names that can be, none of
them deeper down than the walks go. -/
structure CacheAt (settings : Settings) (depth : Nat) (base : Place) (disk : Disk) : Prop where
  anchored : disk.Anchored (root settings) base
  valid : ValidNames disk
  bounded : ∀ place, (disk.find place).isSome = true → place.length ≤ depth

def others (disk : Disk) (base : Place) (keepProjectId : Option String) : List String :=
  (realSubdirs disk base).filter fun name => keepProjectId != some name

def now (world : DiskWorld) : Int := world.clock / 1000000000

def stamp (world : DiskWorld) (base : Place) (name : String) : Int := world.lastUse (base ++ [name])

def unused (settings : Settings) (world : DiskWorld) (base : Place) (name : String) : Bool :=
  now world - stamp world base name > settings.assetCacheMaxAge

/-- The size of what is kept in any case, as far as its path leads anywhere. -/
def keptBytes (settings : Settings) (keepProjectId : Option String) (disk : Disk) : Nat :=
  ((keepProjectId.filter (· ≠ "")).bind fun projectId =>
    disk.locate (root settings ++ [projectId])).elim 0 (bytesBelow disk)

section Prunes

variable {settings : Settings} {depth : Nat} {base : Place} {world : DiskWorld}

theorem cache_without {gone : Place → Prop} {after : DiskWorld}
    (cache : CacheAt settings depth base world.drive.disk) (loses : Loses world gone after)
    (deeper : ∀ place, gone place → Below base place) :
    CacheAt settings depth base after.drive.disk :=
  ⟨anchored_without cache.anchored loses.disk deeper, valid_without cache.valid loses,
    fun place found => cache.bounded place (standing_before loses.disk found)⟩

theorem cache_shallow (cache : CacheAt settings depth base world.drive.disk) (place : Place) :
    Shallow world.drive.disk depth place := by
  intro below found
  have bounded := cache.bounded _ found
  rw [List.length_append] at bounded
  omega

theorem under_any_below {names : List String} {place : Place} (under : UnderAny base names place) :
    Below base place := by
  obtain ⟨name, -, within⟩ := under
  exact below_child within

theorem project_removed (cache : CacheAt settings depth base world.drive.disk) {name : String}
    (found : world.drive.disk.find (base ++ [name]) = some .directory) :
    ∃ after, run onDisk world (rmtree depth (root settings ++ [name])) = (.ok (), after) ∧
      Loses world (base ++ [name] <+: ·) after :=
  tree_removed (clear_dir_clears depth) cache.anchored cache.valid (cache_shallow cache _) found

theorem other_stays {after : DiskWorld} {name : String} {names : List String}
    (lost : Loses world (base ++ [name] <+: ·) after) (apart : name ∉ names)
    (standing : ∀ other ∈ names, world.drive.disk.find (base ++ [other]) = some .directory) :
    ∀ other ∈ names, after.drive.disk.find (base ++ [other]) = some .directory := by
  intro other member
  rw [lost.disk.kept, standing other member]
  intro within
  exact apart (same_child within List.prefix_rfl ▸ member)

theorem evict_unused_runs (listing : DiskWorld) (names : List String) (once : names.Nodup)
    (cache : CacheAt settings depth base world.drive.disk)
    (standing : ∀ name ∈ names, world.drive.disk.find (base ++ [name]) = some .directory)
    (live : List DirEntry) :
    ∃ after, run onDisk world ((names.map (listing.describe base)).foldlM
        (evictUnused settings depth (now listing)) live) =
      (.ok (live ++ (names.filter fun name => !unused settings listing base name).map
        (listing.describe base)), after) ∧
      Loses world (UnderAny base (names.filter (unused settings listing base))) after := by
  induction names generalizing world live with
  | nil => exact ⟨world, by rw [List.filter_nil, List.map_nil, List.append_nil]; rfl,
      loses_nothing (by simp [UnderAny])⟩
  | cons name names induction =>
      rw [List.nodup_cons] at once
      obtain ⟨found, later⟩ := List.forall_mem_cons.mp standing
      rw [List.map_cons]
      cases old : unused settings listing base name with
      | true =>
          obtain ⟨middle, removed, lost⟩ := project_removed cache found
          have ran : run onDisk world (evictUnused settings depth (now listing) live
              (listing.describe base name)) = (.ok live, middle) := by
            rw [evictUnused, if_pos (by simpa [unused, stamp, DiskWorld.describe] using old), bind_is_and_then,
              run_and_then]
            simp only [DiskWorld.describe, removed]
            rfl
          obtain ⟨after, rest, gone⟩ := induction once.2
            (cache_without cache lost fun place => below_child) (other_stays lost once.1 later) live
          refine ⟨after, ?_, ?_⟩
          · rw [run_fold_cons _ _ _ ran, rest, List.filter_cons_of_neg (by simp [old])]
          · rw [List.filter_cons_of_pos old]
            exact loses_congr (loses_trans lost gone) (under_cons name _)
      | false =>
          have ran : run onDisk world (evictUnused settings depth (now listing) live
              (listing.describe base name)) = (.ok (live ++ [listing.describe base name]), world) := by
            rw [evictUnused, if_neg (by simpa [unused, stamp, DiskWorld.describe] using old)]
            rfl
          obtain ⟨after, rest, gone⟩ := induction once.2 cache later (live ++ [listing.describe base name])
          refine ⟨after, ?_, ?_⟩
          · rw [run_fold_cons _ _ _ ran, rest, List.filter_cons_of_pos (by simp [old]), List.map_cons,
              List.append_assoc, List.singleton_append]
          · rwa [List.filter_cons_of_neg (by simp [old])]

/-- The second loop: the running total is what is left and what is kept. -/
theorem evict_to_fit_runs (kept : Nat) (items : List (DirEntry × Nat))
    (once : (items.map (·.1.name)).Nodup) (cache : CacheAt settings depth base world.drive.disk)
    (standing : ∀ name ∈ items.map (·.1.name),
      world.drive.disk.find (base ++ [name]) = some .directory) :
    ∃ count total after, run onDisk world (items.foldlM (evictToFit settings depth)
        (weight Prod.snd kept items : Int)) = (.ok total, after) ∧
      Shortest Prod.snd kept settings.assetCacheMaxBytes items count ∧
      Loses world (UnderAny base ((items.take count).map (·.1.name))) after := by
  induction items generalizing world with
  | nil => exact ⟨0, _, world, rfl, shortest_empty, loses_nothing (by simp [UnderAny])⟩
  | cons item items induction =>
      by_cases fits : (weight Prod.snd kept (item :: items) : Int) ≤ settings.assetCacheMaxBytes
      · have idle : ∀ total : Int, total ≤ settings.assetCacheMaxBytes →
            ∀ items : List (DirEntry × Nat), run onDisk world
              (items.foldlM (evictToFit settings depth) total) = (.ok total, world) := by
          intro total small items
          induction items with
          | nil => rfl
          | cons item items induction =>
              rw [run_fold_cons _ item items (by rw [evictToFit, if_pos small]; rfl), induction]
        exact ⟨0, _, world, idle _ fits _, shortest_none fits, loses_nothing (by simp [UnderAny])⟩
      · rw [List.map_cons, List.nodup_cons] at once
        obtain ⟨found, later⟩ := List.forall_mem_cons.mp standing
        obtain ⟨middle, removed, lost⟩ := project_removed cache found
        have ran : run onDisk world (evictToFit settings depth (weight Prod.snd kept (item :: items)) item) =
            (.ok (weight Prod.snd kept items : Int), middle) := by
          have less : (weight Prod.snd kept (item :: items) : Int) - item.2 = weight Prod.snd kept items := by
            rw [weight_cons]
            omega
          rw [evictToFit, if_neg fits, bind_is_and_then, run_and_then, removed, on_value_ok, less]
          rfl
        obtain ⟨count, total, after, rest, shortest, gone⟩ := induction once.2
          (cache_without cache lost fun place => below_child) (other_stays lost once.1 later)
        refine ⟨count + 1, total, after, ?_, shortest_next (Int.not_le.mp fits) shortest, ?_⟩
        · rw [run_fold_cons _ _ _ ran, rest]
        · rw [List.take_succ_cons, List.map_cons]
          exact loses_congr (loses_trans lost gone) (under_cons _ _)

/-! ## The whole prune -/

/-- The size of a project, as it is when the sizes are taken. -/
def projectBytes (disk : Disk) (base : Place)
    (name : String) : Nat := bytesBelow disk (base ++ [name])

/-- The older stamp first, and of two alike the first name. -/
def Before (world : DiskWorld) (base : Place) (first second : String) : Prop :=
  stamp world base first < stamp world base second ∨
    stamp world base first = stamp world base second ∧ first < second

def measured (listing middle : DiskWorld) (base : Place) (name : String) : DirEntry × Nat :=
  (listing.describe base name, projectBytes middle.drive.disk base name)

/-- The names of the projects in the order `sorted` puts them in. -/
def evictionOrder (listing middle : DiskWorld) (base : Place) (names : List String) : List String :=
  ((names.map (measured listing middle base)).mergeSort olderThan).map (·.1.name)

theorem order_perm (listing middle : DiskWorld) (base : Place) (names : List String) :
    (evictionOrder listing middle base names).Perm names := by
  have sorted := List.mergeSort_perm (names.map (measured listing middle base)) olderThan
  have named := sorted.map (·.1.name)
  rw [List.map_map] at named
  exact named.trans (by
    change (names.map id).Perm names
    rw [List.map_id])

theorem order_ordered {listing middle : DiskWorld} {names : List String} (once : names.Nodup) :
    (evictionOrder listing middle base names).Pairwise (Before listing base) := by
  have distinct := (order_perm listing middle base names).nodup_iff.mpr once
  rw [evictionOrder, List.Nodup, List.pairwise_map] at distinct
  rw [evictionOrder, List.pairwise_map]
  apply ((older_sorted _).and distinct).imp_of_mem
  rintro one other first second ⟨older, apart⟩
  obtain ⟨name, -, rfl⟩ := List.mem_map.mp (List.mem_mergeSort.mp first)
  obtain ⟨later, -, rfl⟩ := List.mem_map.mp (List.mem_mergeSort.mp second)
  simp only [olderThan, Bool.or_eq_true, Bool.and_eq_true, decide_eq_true_eq, beq_iff_eq] at older
  rcases older with less | ⟨same, least⟩
  · exact .inl less
  · refine .inr ⟨same, ?_⟩
    rw [← String.not_le]
    intro most
    exact apart (String.le_antisymm least most)

/-- What a prune does. The sizes are those the projects have once what has been
unused for too long is gone. -/
structure Eviction (settings : Settings) (keepProjectId : Option String) (base : Place)
    (world middle : DiskWorld) (order : List String) (count : Nat) (after : DiskWorld) : Prop where
  overdue : Loses world (UnderAny base
    ((others world.drive.disk base keepProjectId).filter (unused settings world base))) middle
  candidates : order.Perm
    ((others world.drive.disk base keepProjectId).filter fun name => !unused settings world base name)
  ordered : order.Pairwise (Before world base)
  unlimited : settings.assetCacheMaxBytes ≤ 0 → count = 0
  shortest : 0 < settings.assetCacheMaxBytes →
    Shortest (projectBytes middle.drive.disk base) (keptBytes settings keepProjectId middle.drive.disk)
      settings.assetCacheMaxBytes order count
  evicted : Loses middle (UnderAny base (order.take count)) after

theorem scan_cache (inside : world.drive.disk.find base = some .directory)
    (cache : CacheAt settings depth base world.drive.disk) : world.scandir (root settings) =
      .ok ((world.drive.disk.names base).map (world.describe base)) := by
  rw [DiskWorld.scandir, anchored_locates cache.anchored]
  simp only [inside, if_true]

theorem listed_others (keepProjectId : Option String) :
    ((world.drive.disk.names base).map (world.describe base)).filter (fun entry =>
        keepProjectId != some entry.name && entry.isRealDir) =
      (others world.drive.disk base keepProjectId).map (world.describe base) := by
  rw [List.filter_map, others, realSubdirs, List.filter_filter]
  rfl

theorem mem_others {disk : Disk} {keepProjectId : Option String} {name : String} :
    name ∈ others disk base keepProjectId ↔
      disk.find (base ++ [name]) = some .directory ∧ keepProjectId ≠ some name := by
  rw [others, List.mem_filter, mem_real_subdirs, bne_iff_ne]

theorem others_nodup (disk : Disk) (keepProjectId : Option String) :
    (others disk base keepProjectId).Nodup := ((names_nodup base).filter _).filter _

theorem dir_size_at (cache : CacheAt settings depth base world.drive.disk) (path : Path) :
    run onDisk world (dirSize depth path 0) =
      (.ok ((world.drive.disk.locate path).elim 0 (bytesBelow world.drive.disk)), world) := by
  have refuses : world.scandir path = refused → run onDisk world (dirSize depth path 0) = (.ok 0, world) := by
    intro refuses
    cases depth with
    | zero => rfl
    | succ depth =>
        rw [dirSize, run_and_then, run_perform, onDisk, refuses]
        rfl
  cases located : world.drive.disk.locate path with
  | none => exact refuses (by rw [DiskWorld.scandir, located])
  | some place =>
      rw [Option.elim_some]
      by_cases inside : world.drive.disk.find place = some .directory
      · have down : Down world.drive.disk path place [] :=
          ⟨by rwa [List.append_nil, List.append_nil], by rwa [List.append_nil], by simp⟩
        have sized := dir_size_runs cache.valid depth down (cache_shallow cache _) 0
        rwa [List.append_nil, List.append_nil, Nat.zero_add] at sized
      · rw [bytesBelow, total_below_free (below_leaf_free inside)]
        exact refuses (by simp only [DiskWorld.scandir, located, inside, if_false])

theorem project_located (cache : CacheAt settings depth base world.drive.disk) {name : String}
    (found : world.drive.disk.find (base ++ [name]) = some .directory) :
    world.drive.disk.locate (root settings ++ [name]) = some (base ++ [name]) := by
  have plain : isPlain name = true := plain_of_valid (valid_place cache.valid found name (by simp))
  exact anchored_locates (anchored_child cache.anchored plain found (by simp))

theorem with_size_runs (listing : DiskWorld) (cache : CacheAt settings depth base world.drive.disk)
    {name : String} (found : world.drive.disk.find (base ++ [name]) = some .directory) :
    run onDisk world (withSize settings depth (listing.describe base name)) =
      (.ok (measured listing world base name), world) := by
  rw [withSize, bind_is_and_then, run_and_then]
  simp only [DiskWorld.describe, dir_size_at cache, project_located cache found]
  rfl

theorem kept_size_runs (keepProjectId : Option String)
    (cache : CacheAt settings depth base world.drive.disk) :
    run onDisk world (keptSize settings depth keepProjectId) =
      (.ok (keptBytes settings keepProjectId world.drive.disk), world) := by
  unfold keptSize keptBytes
  split
  · rename_i projectId named
    rw [named, Option.bind_some]
    exact dir_size_at cache _
  · rename_i named
    rw [named]
    rfl

/-- The second half of a prune: the sizes, and the second loop. -/
def fitLive (settings : Settings) (depth : Nat) (keepProjectId : Option String)
    (live : List DirEntry) : DiskProgram Unit := do
  let sized ← live.mapM (withSize settings depth)
  let kept ← keptSize settings depth keepProjectId
  let total := (sized.map (·.2)).sum + kept
  let _left ← (sized.mergeSort olderThan).foldlM (evictToFit settings depth) total
  return

theorem fit_live_runs (listing : DiskWorld) (keepProjectId : Option String) (names : List String)
    (once : names.Nodup) (cache : CacheAt settings depth base world.drive.disk)
    (standing : ∀ name ∈ names, world.drive.disk.find (base ++ [name]) = some .directory) :
    ∃ count after, run onDisk world
        (fitLive settings depth keepProjectId (names.map (listing.describe base))) = (.ok (), after) ∧
      Shortest (projectBytes world.drive.disk base) (keptBytes settings keepProjectId world.drive.disk)
        settings.assetCacheMaxBytes (evictionOrder listing world base names) count ∧
      Loses world (UnderAny base ((evictionOrder listing world base names).take count)) after := by
  let items := (names.map (measured listing world base)).mergeSort olderThan
  let kept := keptBytes settings keepProjectId world.drive.disk
  have perm := order_perm listing world base names
  obtain ⟨count, left, after, ran, shortest, lost⟩ := evict_to_fit_runs kept items
    (perm.nodup_iff.mpr once) cache (fun name member => standing name (perm.mem_iff.mp member))
  refine ⟨count, after, ?_, shortest_map (shortest_congr ?_ shortest), ?_⟩
  · have sized : run onDisk world ((names.map (listing.describe base)).mapM (withSize settings depth)) =
        (.ok (names.map (measured listing world base)), world) := by
      rw [List.mapM_map]
      exact run_pure_map _ _ _ fun name member => with_size_runs listing cache (standing name member)
    have total : weight Prod.snd kept items =
        ((names.map (measured listing world base)).map (·.2)).sum + kept :=
      weight_perm (List.mergeSort_perm _ olderThan)
    rw [total] at ran
    rw [fitLive]
    simp only [bind_is_and_then, run_and_then, sized, kept_size_runs keepProjectId cache, on_value_ok]
    rw [ran]
    rfl
  · intro item member
    obtain ⟨name, -, rfl⟩ := List.mem_map.mp (List.mem_mergeSort.mp member)
    rfl
  · rwa [evictionOrder, ← List.map_take]

theorem prune_absent (keepProjectId : Option String)
    (cache : CacheAt settings depth base world.drive.disk)
    (outside : world.drive.disk.find base ≠ some .directory) :
    run onDisk world (prune settings depth keepProjectId) = (.ok (), world) := by
  have isDir : world.drive.disk.isDir (root settings) = false := by
    rw [Disk.isDir, Disk.stat, anchored_locates cache.anchored]
    simpa using outside
  rw [prune, bind_is_and_then, run_and_then, run_perform]
  simp only [onDisk, isDir]
  rfl

theorem prune_goes_on (keepProjectId : Option String)
    (cache : CacheAt settings depth base world.drive.disk)
    (inside : world.drive.disk.find base = some .directory) {live : List DirEntry}
    {middle : DiskWorld}
    (first : run onDisk world (((others world.drive.disk base keepProjectId).map
      (world.describe base)).foldlM (evictUnused settings depth (now world)) []) = (.ok live, middle)) :
    run onDisk world (prune settings depth keepProjectId) =
      run onDisk middle (if settings.assetCacheMaxBytes ≤ 0 then return
        else fitLive settings depth keepProjectId live) := by
  have isDir : world.drive.disk.isDir (root settings) = true :=
    is_dir_iff.mpr ⟨base, anchored_locates cache.anchored, inside⟩
  rw [prune, bind_is_and_then, run_and_then, run_perform]
  simp only [onDisk, isDir, on_value_ok, Bool.not_true, Bool.false_eq_true, if_false,
    bind_is_and_then, run_and_then, run_perform, scan_cache inside cache, listed_others]
  rw [now] at first
  rw [first]
  rfl

theorem prune_runs (keepProjectId : Option String)
    (cache : CacheAt settings depth base world.drive.disk) :
    ∃ middle order count after, run onDisk world (prune settings depth keepProjectId) =
      (.ok (), after) ∧
      Eviction settings keepProjectId base world middle order count after := by
  let names := others world.drive.disk base keepProjectId
  let fresh := names.filter fun name => !unused settings world base name
  have standing : ∀ name ∈ names, world.drive.disk.find (base ++ [name]) = some .directory :=
    fun name member => (mem_others.mp member).1
  by_cases inside : world.drive.disk.find base = some .directory
  · obtain ⟨middle, first, overdue⟩ := evict_unused_runs world names (others_nodup _ _) cache standing []
    have once : fresh.Nodup := (others_nodup _ _).filter _
    have perm := order_perm world middle base fresh
    have goes := prune_goes_on keepProjectId cache inside first
    by_cases unlimited : settings.assetCacheMaxBytes ≤ 0
    · rw [if_pos unlimited] at goes
      exact ⟨middle, _, 0, middle, goes, overdue, perm, order_ordered once, fun _ => rfl,
        fun limited => absurd unlimited (Int.not_le.mpr limited), loses_nothing (by simp [UnderAny])⟩
    · have live : ∀ name ∈ fresh, middle.drive.disk.find (base ++ [name]) = some .directory := by
        intro name member
        obtain ⟨other, current⟩ := List.mem_filter.mp member
        rw [overdue.disk.kept, standing name other]
        rintro ⟨gone, old, within⟩
        rw [same_child within List.prefix_rfl] at old
        rw [(List.mem_filter.mp old).2] at current
        cases current
      obtain ⟨count, after, second, shortest, evicted⟩ := fit_live_runs world keepProjectId fresh once
        (cache_without cache overdue fun place => under_any_below) live
      rw [if_neg unlimited, List.nil_append, second] at goes
      exact ⟨middle, _, count, after, goes, overdue, perm, order_ordered once,
        fun small => absurd small unlimited, fun _ => shortest, evicted⟩
  · have none : names = [] := by
      rw [List.eq_nil_iff_forall_not_mem]
      intro name member
      exact inside (parent_is_directory (standing name member))
    refine ⟨world, [], 0, world, prune_absent keepProjectId cache inside, ?_, ?_, .nil, fun _ => rfl,
      fun _ => shortest_empty, loses_nothing (by simp [UnderAny])⟩
    · change Loses world (UnderAny base (names.filter _)) world
      rw [none]
      exact loses_nothing (by simp [UnderAny])
    · change [].Perm (names.filter _)
      rw [none]
      exact .nil

end Prunes

/-! ## What is left -/

/-- No link stands in the cache. -/
def LinkFree (disk : Disk) (base : Place) : Prop :=
  ∀ place target, Below base place → disk.find place ≠ some (.link target)

/-- What comes of the evictions, for the projects that are left. -/
structure Survival (settings : Settings) (keepProjectId : Option String) (base : Place)
    (world middle : DiskWorld) (order : List String) (count : Nat) (after : DiskWorld) : Prop where
  kept : ∀ name, keepProjectId = some name → ∀ place, base ++ [name] <+: place →
    after.drive.disk.find place = world.drive.disk.find place
  entries : ∀ name, world.drive.disk.find (base ++ [name]) ≠ some .directory →
    after.drive.disk.find (base ++ [name]) = world.drive.disk.find (base ++ [name])
  left : (others after.drive.disk base keepProjectId).Perm (order.drop count)
  fits : 0 < settings.assetCacheMaxBytes →
    ((realSubdirs after.drive.disk base).map (projectBytes middle.drive.disk base)).sum ≤
        settings.assetCacheMaxBytes ∨
      ∀ name ∈ realSubdirs after.drive.disk base, keepProjectId = some name
  older : ∀ evicted ∈ order.take count, ∀ name ∈ others after.drive.disk base keepProjectId,
    stamp world base evicted ≤ stamp world base name
  sizes : LinkFree world.drive.disk base → ∀ name ∈ realSubdirs after.drive.disk base,
    projectBytes after.drive.disk base name = projectBytes middle.drive.disk base name

section Left

variable {settings : Settings} {depth : Nat} {base : Place} {keepProjectId : Option String}
  {world middle after : DiskWorld} {order : List String} {count : Nat}

theorem stays_unless_other (eviction : Eviction settings keepProjectId base world middle order count after)
    {place : Place} (free : ¬ UnderAny base (others world.drive.disk base keepProjectId) place) :
    after.drive.disk.find place = world.drive.disk.find place := by
  rw [eviction.evicted.disk.kept, eviction.overdue.disk.kept]
  · rintro ⟨name, old, within⟩
    exact free ⟨name, (List.mem_filter.mp old).1, within⟩
  · rintro ⟨name, gone, within⟩
    have candidate := eviction.candidates.mem_iff.mp (List.mem_of_mem_take gone)
    exact free ⟨name, (List.mem_filter.mp candidate).1, within⟩

theorem order_nodup (eviction : Eviction settings keepProjectId base world middle order count after) :
    order.Nodup :=
  eviction.candidates.nodup_iff.mpr ((others_nodup _ _).filter _)

theorem left_iff (eviction : Eviction settings keepProjectId base world middle order count after)
    {name : String} :
    name ∈ others after.drive.disk base keepProjectId ↔ name ∈ order.drop count := by
  have split : order.take count ++ order.drop count = order := List.take_append_drop count order
  have apart : ∀ other ∈ order.take count, ∀ name ∈ order.drop count, other ≠ name := by
    have once := order_nodup eviction
    rw [← split, List.nodup_append] at once
    exact once.2.2
  rw [mem_others]
  constructor
  · rintro ⟨found, other⟩
    have before := found_before eviction.evicted.disk found
    have listed : name ∈ order := by
      rw [eviction.candidates.mem_iff, List.mem_filter]
      have real := found_before eviction.overdue.disk before
      refine ⟨mem_others.mpr ⟨real, other⟩, ?_⟩
      by_contra old
      rw [eviction.overdue.disk.removed] at before
      · cases before
      · refine ⟨name, ?_, List.prefix_rfl⟩
        exact List.mem_filter.mpr ⟨mem_others.mpr ⟨real, other⟩, by simpa using old⟩
    rw [← split, List.mem_append] at listed
    apply listed.resolve_left
    intro gone
    rw [eviction.evicted.disk.removed _ ⟨name, gone, List.prefix_rfl⟩] at found
    cases found
  · intro stays
    have candidate := eviction.candidates.mem_iff.mp (List.mem_of_mem_drop stays)
    obtain ⟨other, current⟩ := List.mem_filter.mp candidate
    obtain ⟨found, notKept⟩ := mem_others.mp other
    refine ⟨?_, notKept⟩
    rw [eviction.evicted.disk.kept, eviction.overdue.disk.kept, found]
    · rintro ⟨twin, old, within⟩
      rw [same_child within List.prefix_rfl] at old
      rw [(List.mem_filter.mp old).2] at current
      cases current
    · rintro ⟨twin, gone, within⟩
      exact apart twin gone name stays (same_child within List.prefix_rfl)

theorem counted_standing {disk : Disk} (valid : ValidNames disk) {place : Place} {entry : Entry}
    (found : disk.find place = some entry) (unlinked : ∀ target, entry ≠ .link target) :
    counted disk place = entrySize entry := by
  rw [counted, Disk.isDir, stat_standing valid found unlinked, found]
  cases entry <;> rfl

theorem sizes_stay (eviction : Eviction settings keepProjectId base world middle order count after)
    (valid : ValidNames world.drive.disk) (linkFree : LinkFree world.drive.disk base)
    {name : String} (stays : name ∉ order.take count) :
    projectBytes after.drive.disk base name = projectBytes middle.drive.disk base name := by
  have same : ∀ spot, Below (base ++ [name]) spot →
      after.drive.disk.find spot = middle.drive.disk.find spot := by
    intro spot deeper
    apply eviction.evicted.disk.kept
    rintro ⟨twin, gone, within⟩
    exact stays (same_child within deeper.1 ▸ gone)
  have middleValid := valid_without valid eviction.overdue
  apply total_below_same
  · intro spot deeper
    rw [same spot deeper]
  · intro spot deeper there
    obtain ⟨entry, found⟩ := Option.isSome_iff_exists.mp there
    have unlinked : ∀ target, entry ≠ .link target := by
      rintro target rfl
      exact linkFree spot target (below_child deeper.1) (found_before eviction.overdue.disk found)
    rw [counted_standing middleValid found unlinked,
      counted_standing (valid_without middleValid eviction.evicted) (by rw [same spot deeper, found]) unlinked]

theorem kept_counts (cache : CacheAt settings depth base world.drive.disk) {name : String}
    (found : world.drive.disk.find (base ++ [name]) = some .directory) :
    keptBytes settings (some name) world.drive.disk = projectBytes world.drive.disk base name := by
  have named : validName name = true := valid_place cache.valid found name (by simp)
  have nonempty : name ≠ "" := by
    simp only [validName, Bool.and_eq_true, bne_iff_ne] at named
    exact named.1.1.2
  have kept : (some name).filter (fun projectId => decide (projectId ≠ "")) = some name := by
    simp [Option.filter, nonempty]
  rw [keptBytes, kept, Option.bind_some, project_located cache found]
  rfl

theorem sum_of_one {names : List String} {size : String → Nat} {bound : Nat} (once : names.Nodup)
    (alike : ∀ first ∈ names, ∀ second ∈ names, first = second)
    (small : ∀ name ∈ names, size name ≤ bound) : (names.map size).sum ≤ bound := by
  cases names with
  | nil => exact Nat.zero_le _
  | cons first rest =>
      cases rest with
      | nil =>
          rw [List.map_singleton, List.sum_singleton]
          exact small first List.mem_cons_self
      | cons second more =>
          have same := alike first (by simp) second (by simp)
          rw [same] at once
          simp at once

theorem left_weighs (cache : CacheAt settings depth base world.drive.disk)
    (eviction : Eviction settings keepProjectId base world middle order count after) :
    ((realSubdirs after.drive.disk base).map (projectBytes middle.drive.disk base)).sum ≤
      weight (projectBytes middle.drive.disk base)
        (keptBytes settings keepProjectId middle.drive.disk)
        (others after.drive.disk base keepProjectId) := by
  let dirs := realSubdirs after.drive.disk base
  let own := dirs.filter fun name => !(keepProjectId != some name)
  have rest : CacheAt settings depth base middle.drive.disk :=
    cache_without cache eviction.overdue fun place => under_any_below
  have parts : (others after.drive.disk base keepProjectId ++ own).Perm dirs :=
    List.filter_append_perm _ dirs
  have once : own.Nodup := ((names_nodup base).filter _).filter _
  have counts : ∀ name ∈ own, keepProjectId = some name ∧
      projectBytes middle.drive.disk base name = keptBytes settings keepProjectId middle.drive.disk := by
    intro name member
    obtain ⟨real, same⟩ := List.mem_filter.mp member
    have keep : keepProjectId = some name := by simpa using same
    have found := found_before eviction.evicted.disk (mem_real_subdirs.mp real)
    exact ⟨keep, by rw [keep, kept_counts rest found]⟩
  have small : (own.map (projectBytes middle.drive.disk base)).sum ≤
      keptBytes settings keepProjectId middle.drive.disk := by
    apply sum_of_one once
    · intro first one second two
      have same := (counts first one).1
      rwa [(counts second two).1, Option.some.injEq, eq_comm] at same
    · exact fun name member => (counts name member).2.le
  rw [← (parts.map _).sum_eq, List.map_append, List.sum_append, weight]
  exact Nat.add_le_add_left small _

theorem eviction_survival (cache : CacheAt settings depth base world.drive.disk)
    (eviction : Eviction settings keepProjectId base world middle order count after) :
    Survival settings keepProjectId base world middle order count after := by
  have left : (others after.drive.disk base keepProjectId).Perm (order.drop count) := by
    rw [List.perm_ext_iff_of_nodup (others_nodup _ _)
      ((order_nodup eviction).sublist (List.drop_sublist _ _))]
    exact fun name => left_iff eviction
  constructor
  · intro name keep place within
    apply stays_unless_other eviction
    rintro ⟨other, member, under⟩
    rw [same_child within under] at keep
    exact (mem_others.mp member).2 keep
  · intro name other
    apply stays_unless_other eviction
    rintro ⟨twin, member, within⟩
    rw [same_child within List.prefix_rfl] at member
    exact other (mem_others.mp member).1
  · exact left
  · intro limited
    have weighs := left_weighs cache eviction
    rw [weight_perm left] at weighs
    rcases shortest_fits (eviction.shortest limited) with fits | none
    · exact .inl (by omega)
    · refine .inr ?_
      intro name real
      by_contra other
      have stays := (left_iff eviction).mp (mem_others.mpr ⟨mem_real_subdirs.mp real, other⟩)
      rw [none] at stays
      cases stays
  · intro evicted gone name stays
    have before := evicted_before eviction.ordered gone ((left_iff eviction).mp stays)
    rcases before with less | ⟨same, -⟩
    · exact less.le
    · exact same.le
  · intro linkFree name real
    apply sizes_stay eviction cache.valid linkFree
    intro gone
    have removed := eviction.evicted.disk.removed _ ⟨name, gone, List.prefix_rfl⟩
    rw [mem_real_subdirs.mp real] at removed
    cases removed

/-- A prune takes away the projects that have been unused for too long, and of
the rest the least recently used until what is left fits, and nothing else. -/
theorem prune_evicts_least_recent (settings : Settings) (depth : Nat)
    (keepProjectId : Option String)
    (base : Place) (world : DiskWorld) (cache : CacheAt settings depth base world.drive.disk) :
    ∃ middle order count after, run onDisk world (prune settings depth keepProjectId) =
      (.ok (), after) ∧
      Eviction settings keepProjectId base world middle order count after ∧
      Survival settings keepProjectId base world middle order count after := by
  obtain ⟨middle, order, count, after, ran, eviction⟩ := prune_runs keepProjectId cache
  exact ⟨middle, order, count, after, ran, eviction, eviction_survival cache eviction⟩

end Left

/-! ## A cache that does not fit -/

def crowdedCache : DiskWorld where
  drive := {
    disk := .ofList [
      (["data"], .directory), (["data", "asset-cache"], .directory),
      (["data", "asset-cache", "a"], .directory), (["data", "asset-cache", "a", "x.svg"], .file [1, 2]),
      (["data", "asset-cache", "b"], .directory), (["data", "asset-cache", "b", "t"], .directory),
      (["data", "asset-cache", "b", "t", "y.svg"], .file [3]),
      (["data", "asset-cache", "old"], .directory), (["data", "asset-cache", "own"], .directory),
      (["data", "asset-cache", "own", "z.svg"], .file [4]), (["data", "asset-cache", "note"], .file [])]
    changed := [] }
  clock := 10000000 * 1000000000
  lastUse place := if place.getLast? = some "old" then 0 else 9999999

def smallCache : Settings := { defaults with assetCacheMaxBytes := 2 }

theorem crowded_cache_pruned :
    ∃ middle order count after,
      run onDisk crowdedCache (prune smallCache 6 (some "own")) = (.ok (), after) ∧
      Eviction smallCache (some "own") ["data", "asset-cache"] crowdedCache middle order count after ∧
      Survival smallCache (some "own") ["data", "asset-cache"] crowdedCache middle order count after := by
  apply prune_evicts_least_recent
  constructor
  · exact anchored_unlinked (unlinked_of_no_link (by decide +kernel)) (by decide +kernel)
  · exact valid_names_of_keys (by decide +kernel)
  · exact fun place found => (length_le_height found).trans (by decide +kernel)

end PretextBuildServer.LeastRecentlyUsed
