import PretextBuildServer.HarvestRuns
import PretextBuildServer.PathTexts

/-!
# Walking down a tree

A walk looks at paths: what it comes upon stands at the place of the same names,
as long as no link is on the way.
-/

namespace PretextBuildServer.TreeWalks

open EffectProgram EffectProgram.Program PosixDisk
open PretextBuildServer.ServerSettings PretextBuildServer.DiskCalls
open PretextBuildServer.HarvestRuns PretextBuildServer.PathTexts

set_option autoImplicit false

/-! ## Names on a disk -/

def ValidNames (disk : Disk) : Prop :=
  ∀ dir name, (disk.find (dir ++ [name])).isSome = true → validName name = true

theorem valid_place {disk : Disk} (valid : ValidNames disk) {place : Place} {entry : Entry}
    (found : disk.find place = some entry) : ∀ name ∈ place, validName name = true := by
  induction place using List.reverseRecOn generalizing entry with
  | nil => simp
  | append_singleton dir name induction =>
      rw [List.forall_mem_append, List.forall_mem_singleton]
      exact ⟨induction (parent_is_directory found), valid dir name (by rw [found]; rfl)⟩

theorem stat_standing {disk : Disk} (valid : ValidNames disk) {place : Place} {entry : Entry}
    (found : disk.find place = some entry) (unlinked : ∀ target, entry ≠ .link target) :
    disk.stat place = some entry :=
  stat_found (fun name member => plain_of_valid (valid_place valid found name member)) found unlinked

theorem valid_names_of_keys {disk : Disk}
    (checked : disk.entries.keys.all (·.getLast?.all validName) = true) : ValidNames disk := by
  intro dir name found
  rw [find_child, AList.lookup_isSome, AList.mem_keys] at found
  have named := List.all_eq_true.mp checked _ found
  simpa using named

/-! ## The way down -/

/-- The walk has come down to a directory. -/
structure Down (disk : Disk) (srcDir : Path) (root : Place) (parts : List String) : Prop where
  located : disk.locate (srcDir ++ parts) = some (root ++ parts)
  directory : disk.find (root ++ parts) = some .directory
  names : ∀ name ∈ parts, validName name = true

section Walk

variable {world : DiskWorld} {srcDir : Path} {root : Place} {parts : List String}

theorem link_below (down : Down world.drive.disk srcDir root parts) {name : String}
    (plain : isPlain name = true) :
    world.drive.disk.isLink (srcDir ++ parts ++ [name]) =
      (world.drive.disk.find (root ++ parts ++ [name])).any Entry.isLink := by
  rw [Disk.isLink, Disk.lstat, spot_concat, down.located, Option.bind_some, if_pos down.directory,
    Option.bind_some, enter_plain plain]

theorem located_below (down : Down world.drive.disk srcDir root parts) {name : String}
    (plain : isPlain name = true)
    (unlinked : ∀ target, world.drive.disk.find (root ++ parts ++ [name]) ≠ some (.link target)) :
    world.drive.disk.locate (srcDir ++ parts ++ [name]) = some (root ++ parts ++ [name]) := by
  have named := enter_plain plain (root ++ parts)
  rw [← named] at unlinked ⊢
  exact locate_concat down.located down.directory unlinked

theorem listed_cases (valid : ValidNames world.drive.disk)
    (down : Down world.drive.disk srcDir root parts) {name : String}
    (listed : name ∈ world.drive.disk.names (root ++ parts)) :
    validName name = true ∧
      ((∃ target, world.drive.disk.find (root ++ parts ++ [name]) = some (.link target)) ∧
          world.drive.disk.isLink (srcDir ++ parts ++ [name]) = true ∨
        world.drive.disk.isLink (srcDir ++ parts ++ [name]) = false ∧
          world.drive.disk.locate (srcDir ++ parts ++ [name]) = some (root ++ parts ++ [name]) ∧
          (world.drive.disk.find (root ++ parts ++ [name]) = some .directory ∨ ∃ bytes,
            world.drive.disk.find (root ++ parts ++ [name]) = some (.file bytes))) := by
  obtain ⟨entry, found⟩ := Option.isSome_iff_exists.mp (mem_names.mp listed)
  have named : validName name = true := valid_place valid found name (by simp)
  have link := link_below down (plain_of_valid named)
  rw [found, Option.any_some] at link
  refine ⟨named, ?_⟩
  cases entry with
  | link target => exact .inl ⟨⟨target, found⟩, link⟩
  | directory =>
      refine .inr ⟨link, ?_, .inl found⟩
      exact located_below down (plain_of_valid named) (by rw [found]; simp)
  | file bytes =>
      refine .inr ⟨link, ?_, .inr ⟨bytes, found⟩⟩
      exact located_below down (plain_of_valid named) (by rw [found]; simp)

theorem down_into (valid : ValidNames world.drive.disk)
    (down : Down world.drive.disk srcDir root parts) {name : String}
    (found : world.drive.disk.find (root ++ parts ++ [name]) = some .directory) :
    Down world.drive.disk srcDir root (parts ++ [name]) := by
  have named : validName name = true := valid_place valid found name (by simp)
  refine ⟨?_, by rwa [← List.append_assoc], ?_⟩
  · rw [← List.append_assoc, ← List.append_assoc]
    apply located_below down (plain_of_valid named)
    rw [found]
    simp
  · rw [List.forall_mem_append, List.forall_mem_singleton]
    exact ⟨down.names, named⟩

end Walk

/-! ## Looking around -/

/-- The names of the real directories in a directory of the tree. -/
def realSubdirs (disk : Disk) (dir : Place) : List String :=
  (disk.names dir).filter fun name => disk.find (dir ++ [name]) = some .directory

theorem mem_real_subdirs {disk : Disk} {dir : Place} {name : String} :
    name ∈ realSubdirs disk dir ↔ disk.find (dir ++ [name]) = some .directory := by
  rw [realSubdirs, List.mem_filter, mem_names, decide_eq_true_eq, and_iff_right_of_imp]
  intro found
  rw [found]
  rfl

theorem flat_map_filter {Element Value : Type} {keep : Element → Bool}
    {found : Element → List Value}
    {elements : List Element} (empty : ∀ element ∈ elements, keep element = false → found element = []) :
    (elements.filter keep).flatMap found = elements.flatMap found := by
  induction elements with
  | nil => rfl
  | cons element rest induction =>
      obtain ⟨first, others⟩ := List.forall_mem_cons.mp empty
      cases kept : keep element with
      | true => rw [List.filter_cons_of_pos kept, List.flatMap_cons, List.flatMap_cons, induction others]
      | false =>
          rw [List.filter_cons_of_neg (by simp [kept]), List.flatMap_cons, first kept, induction others]
          rfl

section Looks

variable {world : DiskWorld} {srcDir : Path} {root : Place} {parts : List String}

theorem scan_down (down : Down world.drive.disk srcDir root parts) :
    world.scandir (srcDir ++ parts) =
      .ok ((world.drive.disk.names (root ++ parts)).map (world.describe (root ++ parts))) := by
  rw [DiskWorld.scandir, down.located]
  simp only [down.directory, if_true]

theorem chosen_names (dir : Place) (names : List String) (keep : DirEntry → Bool) :
    ((names.map (world.describe dir)).filter keep).map (·.name) =
      names.filter fun name => keep (world.describe dir name) := by
  rw [List.filter_map, List.map_map]
  exact List.map_id _

theorem walked_dirs (valid : ValidNames world.drive.disk)
    (down : Down world.drive.disk srcDir root parts) :
    ((world.drive.disk.names (root ++ parts)).filter fun name =>
      (world.describe (root ++ parts) name).isDir).filter
        (fun d => !world.drive.disk.isLink (srcDir ++ parts ++ [d])) =
      realSubdirs world.drive.disk (root ++ parts) := by
  rw [List.filter_filter, realSubdirs]
  apply List.filter_congr
  intro name listed
  obtain ⟨named, ⟨⟨target, found⟩, link⟩ | ⟨unlinked, -, found | ⟨bytes, found⟩⟩⟩ :=
    listed_cases valid down listed
  · rw [link, decide_eq_false (by rw [found]; simp)]
    rfl
  · have isDir : (world.describe (root ++ parts) name).isDir = true := by
      rw [DiskWorld.describe, Disk.isDir, stat_standing valid found (by simp)]
      rfl
    rw [unlinked, isDir, decide_eq_true found]
    rfl
  · have isFile : (world.describe (root ++ parts) name).isDir = false := by
      rw [DiskWorld.describe, Disk.isDir, stat_standing valid found (by simp)]
      rfl
    rw [isFile, Bool.and_false, decide_eq_false (by rw [found]; simp)]

end Looks

/-! ## Trees -/

/-- A tree that `isdir` finds, with names a directory can have. -/
structure IsTree (disk : Disk) (srcDir : Path) (root : Place) : Prop where
  valid : ValidNames disk
  located : disk.locate srcDir = some root
  directory : disk.find root = some .directory

theorem located_tree {disk : Disk} {srcDir : Path} {root : Place} (tree : IsTree disk srcDir root)
    {parts : List String} {entry : Entry} (found : disk.find (root ++ parts) = some entry)
    (unlinked : ∀ target, entry ≠ .link target) :
    disk.locate (srcDir ++ parts) = some (root ++ parts) := by
  induction parts using List.reverseRecOn generalizing entry with
  | nil => rw [List.append_nil, List.append_nil, tree.located]
  | append_singleton parts name induction =>
      have plain : isPlain name = true :=
        plain_of_valid (valid_place tree.valid found name (by simp))
      rw [← List.append_assoc] at found
      have inside := parent_is_directory found
      have named := enter_plain plain (root ++ parts)
      rw [← List.append_assoc, ← List.append_assoc, ← named]
      apply locate_concat (induction inside (by simp)) inside
      intro target link
      rw [named, found, Option.some.injEq] at link
      exact unlinked target link

end PretextBuildServer.TreeWalks
