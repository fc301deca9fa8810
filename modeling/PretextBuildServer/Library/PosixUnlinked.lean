import Mathlib.Data.List.Infix
import PretextBuildServer.Library.PosixCalls

/-!
# Paths without links

Where no link stands on the way, a path leads to the place it spells, and what a
call does there can be said in terms of `Disk.find` alone.
-/

namespace PosixDisk

set_option autoImplicit false

/-- No name is `.` or `..`, and no link stands on the way or at its end. -/
structure Disk.Unlinked (disk : Disk) (path : Names) : Prop where
  plain : ∀ name ∈ path, isPlain name = true
  unlinked : ∀ front, front <+: path → ∀ target, disk.find front ≠ some (.link target)

section Looking

variable {disk : Disk} {path dir : Names} {name : String}

theorem unlinked_front {front back : Names} (clear : disk.Unlinked (front ++ back)) :
    disk.Unlinked front := by
  constructor
  · intro name member
    exact clear.plain name (List.mem_append_left back member)
  · intro shorter within
    exact clear.unlinked shorter (within.trans (List.prefix_append front back))

theorem unlinked_concat (clear : disk.Unlinked dir) (plain : isPlain name = true)
    (noLink : ∀ target, disk.find (dir ++ [name]) ≠ some (.link target)) :
    disk.Unlinked (dir ++ [name]) := by
  constructor
  · exact List.forall_mem_append.mpr ⟨clear.plain, List.forall_mem_singleton.mpr plain⟩
  · intro front within
    rw [List.prefix_concat_iff] at within
    rcases within with rfl | shorter
    · exact noLink
    · exact clear.unlinked front shorter

theorem unlinked_to_directory (plain : ∀ name ∈ path, isPlain name = true)
    (inside : disk.find path = some .directory) : disk.Unlinked path := by
  refine ⟨plain, ?_⟩
  rintro front ⟨back, rfl⟩ target link
  cases back with
  | nil =>
      rw [List.append_nil, link] at inside
      cases inside
  | cons name rest =>
      rw [ancestor_is_directory (by simp) inside] at link
      cases link

/-- A directory stands here, or may be made. -/
def Disk.Passable (disk : Disk) (place : Place) : Prop :=
  disk.find place = none ∨ disk.find place = some .directory

theorem passable_entry {place : Place} {entry : Entry} (passable : disk.Passable place)
    (found : disk.find place = some entry) : entry = .directory := by
  rcases passable with none | directory
  · rw [none] at found
    cases found
  · rw [directory, Option.some.injEq] at found
    exact found.symm

theorem passable_unlinked (plain : ∀ name ∈ path, isPlain name = true)
    (passable : ∀ front, front <+: path → disk.Passable front) : disk.Unlinked path := by
  refine ⟨plain, ?_⟩
  intro front within target link
  cases passable_entry (passable front within) link

theorem passable_no_file (passable : ∀ front, front <+: path → disk.Passable front) (front : Names)
    (within : front <+: path) (bytes : Bytes) : disk.find front ≠ some (.file bytes) := by
  intro file
  cases passable_entry (passable front within) file

def Disk.hasNoLink (disk : Disk) (path : Names) : Bool :=
  path.all isPlain && path.inits.all fun front => !(disk.find front).any Entry.isLink

theorem unlinked_of_no_link (checked : disk.hasNoLink path = true) : disk.Unlinked path := by
  rw [Disk.hasNoLink, Bool.and_eq_true, List.all_eq_true, List.all_eq_true] at checked
  refine ⟨checked.1, ?_⟩
  intro front within target link
  have clear := checked.2 front ((List.mem_inits _ _).mpr within)
  rw [link] at clear
  cases clear

theorem homeless_is_free (outside : disk.find path.dropLast ≠ some .directory) :
    disk.find path = none := by
  cases path using List.reverseRecOn with
  | nil => exact absurd find_root outside
  | append_singleton dir name =>
      rw [List.dropLast_concat] at outside
      cases found : disk.find (dir ++ [name]) with
      | none => rfl
      | some entry => exact absurd (parent_is_directory found) outside

theorem locate_unlinked (clear : disk.Unlinked path) :
    disk.locate path = if disk.find path.dropLast = some .directory then some path else none := by
  induction path using List.reverseRecOn with
  | nil =>
      rw [List.dropLast_nil, if_pos find_root]
      exact @locate_straight disk [] trivial
  | append_singleton dir name induction =>
      rw [List.dropLast_concat]
      have above := unlinked_front clear
      split
      · rename_i inside
        apply locate_straight
        rw [straight_append, List.nil_append]
        exact ⟨straight_to_directory above.plain inside, clear.plain name (by simp), inside,
          clear.unlinked _ List.prefix_rfl, trivial⟩
      · rename_i outside
        cases located : disk.locate (dir ++ [name]) with
        | none => rfl
        | some place =>
            obtain ⟨real, front, inside⟩ := exist_head located
            rw [induction above] at front
            split at front
            · cases front
              exact absurd inside outside
            · cases front

theorem stat_unlinked (clear : disk.Unlinked path) : disk.stat path = disk.find path := by
  rw [Disk.stat, locate_unlinked clear]
  split
  · rfl
  · rename_i outside
    rw [homeless_is_free outside]
    rfl

theorem exist_unlinked (clear : disk.Unlinked path) :
    disk.exist path = (disk.find path).isSome := by
  rw [Disk.exist, stat_unlinked clear]

theorem is_dir_unlinked (clear : disk.Unlinked path) :
    disk.isDir path = true ↔ disk.find path = some .directory := by
  rw [Disk.isDir, stat_unlinked clear, beq_iff_eq]

theorem spot_unlinked (clear : disk.Unlinked dir) (plain : isPlain name = true) :
    disk.spot (dir ++ [name]) =
      if disk.find dir = some .directory then some (dir ++ [name]) else none := by
  rw [spot_concat, locate_unlinked clear]
  by_cases inside : disk.find dir = some .directory
  · rw [if_pos (above_directory inside), Option.bind_some, enter_plain plain]
  · rw [if_neg inside]
    split
    · rw [Option.bind_some, if_neg inside]
    · rfl

theorem lstat_unlinked (clear : disk.Unlinked dir) (plain : isPlain name = true) :
    disk.lstat (dir ++ [name]) = disk.find (dir ++ [name]) := by
  rw [Disk.lstat, spot_unlinked clear plain]
  split
  · rfl
  · rename_i outside
    rw [← @List.dropLast_concat _ dir name] at outside
    rw [homeless_is_free outside]
    rfl

end Looking

/-! ## What changes and what does not -/

/-- From one disk to the other nothing changes but at the places touched, and
the order in which a directory lists its names only if one of them is. -/
def Disk.ChangesOnly (touched : Place → Prop) (disk later : Disk) : Prop :=
  (∀ place, ¬ touched place → later.find place = disk.find place) ∧
    ∀ dir, (∀ name, ¬ touched (dir ++ [name])) → later.names dir = disk.names dir

section Frames

variable {touched further : Place → Prop} {disk middle later : Disk} {place : Place}

theorem changes_only_refl (disk : Disk) : disk.ChangesOnly touched disk :=
  ⟨fun _ _ => rfl, fun _ _ => rfl⟩

theorem changes_only_trans (first : disk.ChangesOnly touched middle)
    (second : middle.ChangesOnly touched later) : disk.ChangesOnly touched later := by
  constructor
  · intro place free
    rw [second.1 place free, first.1 place free]
  · intro dir free
    rw [second.2 dir free, first.2 dir free]

theorem changes_only_mono (implied : ∀ place, touched place → further place)
    (changes : disk.ChangesOnly touched later) : disk.ChangesOnly further later := by
  constructor
  · intro place free
    exact changes.1 place fun touch => free (implied place touch)
  · intro dir free
    exact changes.2 dir fun name touch => free name (implied _ touch)

theorem filter_map_erase {Key Value : Type} [DecidableEq Key] (f : Key → Option Value) {key : Key}
    (passed : f key = none) (keys : List Key) :
    (keys.erase key).filterMap f = keys.filterMap f := by
  induction keys with
  | nil => rfl
  | cons first keys induction =>
      by_cases same : first = key
      · rw [same, List.erase_cons_head, List.filterMap_cons_none passed]
      · rw [List.erase_cons_tail (by simpa using same), List.filterMap_cons, List.filterMap_cons,
          induction]

/-- The name under which `dir` lists a place. -/
def nameIn (dir place : Place) : Option String :=
  if place.dropLast = dir then place.getLast? else none

theorem names_listed (disk : Disk) (dir : Place) :
    disk.names dir = disk.entries.keys.filterMap (nameIn dir) := rfl

theorem name_in_none {dir : Place} (below : place ≠ []) (free : ∀ name, dir ++ [name] ≠ place) :
    nameIn dir place = none := by
  cases place using List.reverseRecOn with
  | nil => exact absurd rfl below
  | append_singleton parent name =>
      rw [nameIn, List.dropLast_concat, if_neg]
      intro same
      exact free name (by rw [same])

theorem put_changes_only {entry : Entry} (put : disk.put place entry = some later) :
    disk.ChangesOnly (· = place) later := by
  constructor
  · intro other apart
    rw [find_put put, if_neg apart]
  · intro dir free
    have needs := put_needs put
    rw [Disk.put, dif_pos needs] at put
    cases put
    have passed := name_in_none needs.1 free
    rw [names_listed, AList.keys_insert, List.filterMap_cons_none passed,
      filter_map_erase _ passed, names_listed]

theorem drop_changes_only (drop : disk.drop place = some later) :
    disk.ChangesOnly (· = place) later := by
  constructor
  · intro other apart
    rw [find_drop drop, if_neg apart]
  · intro dir free
    have needs := drop_needs drop
    rw [Disk.drop, dif_pos needs] at drop
    cases drop
    rw [names_listed, AList.keys_erase, filter_map_erase _ (name_in_none needs.1 free),
      names_listed]

end Frames

/-! ## Making directories -/

section Making

variable {drive : Drive} {path : Names}

/-- What making the directories of a path comes to if no file is in the way. -/
structure Drive.Paved (drive : Drive) (path : Names) (later : Drive) : Prop where
  made : drive.makeDirs path = (.ok (), later)
  found : ∀ place, later.disk.find place =
    if place <+: path then some .directory else drive.disk.find place
  only : drive.disk.ChangesOnly (· <+: path) later.disk

theorem mkdir_unlinked {head : Names} {name : String} (clear : drive.disk.Unlinked (head ++ [name]))
    (inside : drive.disk.find head = some .directory)
    (noFile : ∀ bytes, drive.disk.find (head ++ [name]) ≠ some (.file bytes)) :
    ∃ later, drive.mkdirUnlessThere (head ++ [name]) = (.ok (), later) ∧
      (∀ place, later.disk.find place =
        if place = head ++ [name] then some .directory else drive.disk.find place) ∧
      drive.disk.ChangesOnly (· = head ++ [name]) later.disk := by
  have plain : isPlain name = true := clear.plain name (by simp)
  have spotted : drive.disk.spot (head ++ [name]) = some (head ++ [name]) := by
    rw [spot_unlinked (unlinked_front clear) plain, if_pos inside]
  cases found : drive.disk.find (head ++ [name]) with
  | none =>
      have above : drive.disk.find (head ++ [name]).dropLast = some .directory := by
        rwa [List.dropLast_concat]
      obtain ⟨later, put, mkdir⟩ := mkdir_free spotted found above
      have onDisk := (drive_put_some put).1
      exact ⟨later, mkdir_there_made mkdir, find_put onDisk, put_changes_only onDisk⟩
  | some entry =>
      obtain ⟨refusal, refused⟩ := @mkdir_refuses drive (head ++ [name]) (by
        rintro place taken
        rw [spotted, Option.some.injEq] at taken
        simp [← taken, found])
      have directory : drive.disk.find (head ++ [name]) = some .directory := by
        cases entry with
        | directory => exact found
        | file bytes => exact absurd found (noFile bytes)
        | link target => exact absurd found (clear.unlinked _ List.prefix_rfl target)
      refine ⟨drive, ?_, ?_, changes_only_refl _⟩
      · rw [mkdir_there_refuses refused, if_pos ((is_dir_unlinked clear).mpr directory)]
      · intro place
        split
        · rename_i same
          rw [same, directory]
        · rfl

theorem make_dirs_paves (clear : drive.disk.Unlinked path)
    (noFile : ∀ front, front <+: path → ∀ bytes, drive.disk.find front ≠ some (.file bytes)) :
    ∃ later, drive.Paved path later := by
  induction path using List.reverseRecOn with
  | nil =>
      refine ⟨drive, rfl, ?_, changes_only_refl _⟩
      intro place
      split
      · rename_i front
        rw [List.prefix_nil.mp front, find_root]
      · rfl
  | append_singleton head name induction =>
      have above := unlinked_front clear
      have headFree : ∀ front, front <+: head → ∀ bytes,
          drive.disk.find front ≠ some (.file bytes) :=
        fun front within => noFile front (within.trans (List.prefix_append head [name]))
      have base : ∃ middle, (if drive.disk.exist head then (.ok (), drive)
          else drive.makeDirs head : Outcome Unit) = (.ok (), middle) ∧
          (∀ place, middle.disk.find place =
            if place <+: head then some .directory else drive.disk.find place) ∧
          drive.disk.ChangesOnly (· <+: head) middle.disk := by
        cases exist : drive.disk.exist head with
        | false =>
            obtain ⟨middle, made, found, only⟩ := induction above headFree
            exact ⟨middle, made, found, only⟩
        | true =>
            refine ⟨drive, rfl, ?_, changes_only_refl _⟩
            have directory : drive.disk.find head = some .directory := by
              rw [exist_unlinked above, Option.isSome_iff_exists] at exist
              obtain ⟨entry, found⟩ := exist
              cases entry with
              | directory => exact found
              | file bytes => exact absurd found (headFree head List.prefix_rfl bytes)
              | link target => exact absurd found (above.unlinked head List.prefix_rfl target)
            intro place
            split
            · rename_i within
              obtain ⟨rest, rfl⟩ := within
              cases rest with
              | nil => rwa [List.append_nil] at directory
              | cons next rest => exact ancestor_is_directory (by simp) directory
            · rfl
      obtain ⟨middle, made, found, only⟩ := base
      have longer : ¬ head ++ [name] <+: head := by
        intro within
        have short := within.length_le
        rw [List.length_append, List.length_singleton] at short
        omega
      have clearMiddle : middle.disk.Unlinked (head ++ [name]) := by
        refine ⟨clear.plain, ?_⟩
        intro front within target link
        rw [found] at link
        split at link
        · cases link
        · exact clear.unlinked front within target link
      obtain ⟨later, mkdir, last, lastOnly⟩ := mkdir_unlinked clearMiddle
        (by rw [found, if_pos List.prefix_rfl])
        (by
          intro bytes
          rw [found, if_neg longer]
          exact noFile _ List.prefix_rfl bytes)
      refine ⟨later, ?_, ?_, ?_⟩
      · rw [make_dirs_concat, made]
        exact mkdir
      · intro place
        rw [last, found]
        simp only [List.prefix_concat_iff]
        by_cases same : place = head ++ [name]
        · rw [if_pos same, if_pos (.inl same)]
        · simp only [same, if_false, false_or]
      · apply changes_only_trans (changes_only_mono _ only) (changes_only_mono _ lastOnly)
        · intro place within
          exact within.trans (List.prefix_append head [name])
        · rintro place rfl
          exact List.prefix_rfl

/-- The refusal of a path with a file in its way tells whether the file is at
its end. -/
theorem make_dirs_barred (clear : drive.disk.Unlinked path) {front : Names} {bytes : Bytes}
    (within : front <+: path) (file : drive.disk.find front = some (.file bytes)) :
    drive.makeDirs path =
      (.error (if drive.disk.find path = none then .failed else .fileExists), drive) := by
  induction path using List.reverseRecOn with
  | nil =>
      rw [List.prefix_nil.mp within, find_root] at file
      cases file
  | append_singleton head name induction =>
      have above := unlinked_front clear
      have plain : isPlain name = true := clear.plain name (by simp)
      rw [make_dirs_concat]
      rw [List.prefix_concat_iff] at within
      rcases within with rfl | shorter
      · have inside := parent_is_directory file
        have notDir : drive.disk.isDir (head ++ [name]) = false := by
          rw [Bool.eq_false_iff, ne_eq, is_dir_unlinked clear, file]
          simp
        have refused : drive.mkdir (head ++ [name]) = (.error .fileExists, drive) := by
          simp only [Drive.mkdir, spot_unlinked above plain, if_pos inside, file, reduceCtorEq,
            if_false]
        have there : drive.disk.exist head = true := by
          rw [exist_unlinked above, inside]
          rfl
        rw [if_pos there, file]
        simp only [mkdir_there_refuses refused, notDir]
        rfl
      · have outside : drive.disk.find head ≠ some .directory := by
          intro inside
          obtain ⟨rest, rfl⟩ := shorter
          cases rest with
          | nil =>
              rw [List.append_nil, file] at inside
              cases inside
          | cons next rest =>
              rw [ancestor_is_directory (by simp) inside] at file
              cases file
        have free : drive.disk.find (head ++ [name]) = none := by
          apply homeless_is_free
          rwa [List.dropLast_concat]
        have refused : drive.mkdir (head ++ [name]) = (.error .failed, drive) := by
          simp only [Drive.mkdir, spot_unlinked above plain, if_neg outside]
        have notDir : drive.disk.isDir (head ++ [name]) = false := by
          rw [Bool.eq_false_iff, ne_eq, is_dir_unlinked clear, free]
          simp
        have again : drive.mkdirUnlessThere (head ++ [name]) = (.error .failed, drive) := by
          rw [mkdir_there_refuses refused, notDir]
          rfl
        rw [if_pos free]
        cases exist : drive.disk.exist head with
        | true => exact again
        | false =>
            rw [exist_unlinked above, Option.isSome_eq_false_iff, Option.isNone_iff_eq_none] at exist
            have head_refused := induction above shorter
            rw [if_pos exist] at head_refused
            rw [head_refused]
            rfl

end Making

end PosixDisk
