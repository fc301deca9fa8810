import PretextBuildServer.UnpackedTree
import PretextBuildServer.ZipArchive

/-!
# Packing a tree and unpacking it again

What `_zip_dir` writes, `_safe_extract` takes, into any empty directory. There
the files of the tree stand again, in the directories they need, and packing
these gives what packing the tree gave.
-/

namespace PretextBuildServer.ArchiveRoundTrip

open EffectProgram EffectProgram.Program PosixDisk PathStrings TreeLayouts
open PretextBuildServer.ServerSettings PretextBuildServer.JobCalls PretextBuildServer.DiskCalls
open PretextBuildServer.ZipCalls PretextBuildServer.TreeWalks
open PretextBuildServer.PathTexts PretextBuildServer.ZipArchive
open PretextBuildServer.SafeExtract PretextBuildServer.UnpackedTree

set_option autoImplicit false

/-- The written archive, as it is read: of two members of one name, the last. -/
def archiveOf (members : List Member) : Archive where
  namelist := members.map fun member => member.name.toList
  data name := {
    bytes := ((members.reverse.find? fun member => member.name.toList = name).map
      Member.bytes).getD [] }

/-! ## The names of the members -/

section Names

variable {parts : List String} (valid : ∀ name ∈ parts, validName name = true)

include valid

theorem names_of_valid : ∀ name ∈ parts.map String.toList, IsName name := by
  intro text listed
  obtain ⟨name, inside, rfl⟩ := List.mem_map.mp listed
  have named := valid name inside
  simp only [validName, isPlain, Bool.and_eq_true, bne_iff_ne, Bool.not_eq_true', ne_eq,
    List.contains_eq_mem, decide_eq_false_iff_not] at named
  obtain ⟨⟨⟨⟨dot, dots⟩, nonempty⟩, slash⟩, -⟩ := named
  refine ⟨by simpa using nonempty, slash, fun same => dot ?_, fun same => dots ?_⟩
  · exact String.toList_injective (same.trans (by decide))
  · exact String.toList_injective (same.trans (by decide))

theorem components_joined (some : parts ≠ []) :
    components ("/".intercalate parts).toList = parts.map String.toList := by
  rw [components, String.toList_intercalate, show "/".toList = ['/'] by decide]
  apply List.splitOn_intercalate '/' fun name listed => (names_of_valid valid name listed).2.1
  simpa using some

theorem parts_of_joined (some : parts ≠ []) : partsOf ("/".intercalate parts).toList = parts := by
  have kept : (parts.map String.toList).filter
      (fun part => !([[], curdir, pardir] : List Text).contains part) =
        parts.map String.toList := by
    rw [List.filter_eq_self]
    intro name listed
    obtain ⟨nonempty, -, dot, dots⟩ := names_of_valid valid name listed
    simp [nonempty, dot, dots]
  rw [partsOf, arcComponents, components_joined valid some, kept]
  simp [Function.comp_def]

omit valid in
theorem joined_text (parts : List String) :
    ("/".intercalate parts).toList = render false (parts.map String.toList) := by
  rw [String.toList_intercalate]
  rfl

theorem joined_is_file (some : parts ≠ []) : isDirMember ("/".intercalate parts).toList = false := by
  obtain ⟨c, ends, apart⟩ := @render_last false _
    (fun name listed => part_of_name (names_of_valid valid name listed)) (by simpa using some)
  rw [isDirMember, joined_text, ends]
  simpa using apart

theorem joined_contained (some : parts ≠ []) (cwd : WorkingDirectory) (dest : Text) :
    Contained cwd dest ("/".intercalate parts).toList := by
  have names := names_of_valid valid
  have relative : isabs ("/".intercalate parts).toList = false := by
    rw [joined_text]
    exact isabs_render fun name listed => part_of_name (names name listed)
  rw [Contained, destination, relative, if_neg Bool.false_ne_true, components_joined valid some,
    resolve_names names]
  exact List.prefix_append _ _

end Names

/-! ## An exact archive -/

section Exact

variable {disk : Disk} {srcDir : Path} {root : Place} {skip : Bool} {members : List Member}
  {names : List String} (tree : IsTree disk srcDir root)
  (exact : ExactArchive disk root skip members names)

include tree

theorem output_named {parts : List String} {bytes : Bytes}
    (output : OutputFile disk root skip parts bytes) :
    parts ≠ [] ∧ ∀ name ∈ parts, validName name = true := by
  refine ⟨?_, output_names_valid tree.valid output⟩
  rintro rfl
  have found := output.found
  rw [List.append_nil, tree.directory] at found
  cases found

include exact

omit tree in
theorem data_of_member {member : Member} (listed : member ∈ members) :
    ((archiveOf members).data member.name.toList).bytes = member.bytes := by
  have present : (members.reverse.find? fun other => other.name.toList = member.name.toList).isSome := by
    rw [List.find?_isSome]
    exact ⟨member, List.mem_reverse.mpr listed, by simp⟩
  obtain ⟨other, found⟩ := Option.isSome_iff_exists.mp present
  have named : other.name = member.name := by
    have same := List.find?_some found
    exact String.toList_injective (by simpa using same)
  have inside := List.mem_reverse.mp (List.mem_of_find?_eq_some found)
  have same : other = member := List.inj_on_of_nodup_map exact.once inside listed named
  simp only [archiveOf, found, same, Option.map_some, Option.getD_some]

theorem item_of_member {member : Member} (listed : member ∈ members) :
    ∃ parts, OutputFile disk root skip parts member.bytes ∧
      member.name = "/".intercalate parts ∧
      itemOf (archiveOf members) member.name.toList = ⟨parts, some member.bytes⟩ := by
  obtain ⟨parts, named, output⟩ := (exact.entries member).mp listed
  obtain ⟨some, valid⟩ := output_named tree output
  refine ⟨parts, output, named, ?_⟩
  rw [item_file (by rw [named]; exact joined_is_file valid some), data_of_member exact listed,
    named, parts_of_joined valid some]

theorem mem_items_iff (parts : List String) (content : Option Bytes) :
    ⟨parts, content⟩ ∈ (archiveOf members).namelist.map (itemOf (archiveOf members)) ↔
      ∃ bytes, content = some bytes ∧ OutputFile disk root skip parts bytes := by
  rw [archiveOf, List.map_map, List.mem_map, ← archiveOf]
  constructor
  · rintro ⟨member, listed, same⟩
    obtain ⟨others, output, -, item⟩ := item_of_member tree exact listed
    rw [Function.comp_apply, item, Item.mk.injEq] at same
    obtain ⟨rfl, rfl⟩ := same
    exact ⟨member.bytes, rfl, output⟩
  · rintro ⟨bytes, rfl, output⟩
    have listed := (exact.entries ⟨"/".intercalate parts, bytes⟩).mpr ⟨parts, rfl, output⟩
    obtain ⟨some, valid⟩ := output_named tree output
    refine ⟨_, listed, ?_⟩
    rw [Function.comp_apply, item_file (joined_is_file valid some),
      data_of_member exact listed, parts_of_joined valid some]

theorem items_once :
    (((archiveOf members).namelist.map (itemOf (archiveOf members))).map Item.path).Nodup := by
  have paths : ((archiveOf members).namelist.map (itemOf (archiveOf members))).map Item.path =
      members.map fun member => partsOf member.name.toList := by
    simp [archiveOf, itemOf, Function.comp_def]
  rw [paths]
  apply exact.once.of_map.map_on
  intro one listed other inside same
  obtain ⟨parts, -, named, item⟩ := item_of_member tree exact listed
  obtain ⟨others, -, called, twin⟩ := item_of_member tree exact inside
  have first := congrArg Item.path item
  have second := congrArg Item.path twin
  simp only [itemOf] at first second
  apply List.inj_on_of_nodup_map exact.once listed inside
  rw [named, called, ← first, ← second, same]

theorem exact_archive_sound : Sound (archiveOf members) (archiveOf members).namelist := by
  have outputs := mem_items_iff tree exact
  constructor
  · constructor
    · rintro ⟨parts, content⟩ listed -
      obtain ⟨bytes, -, output⟩ := (outputs parts content).mp listed
      exact (output_named tree output).1
    · rintro ⟨parts, content⟩ listed - ⟨others, written⟩ member ⟨within, directory⟩
      obtain ⟨bytes, -, output⟩ := (outputs parts content).mp listed
      obtain ⟨more, rfl, further⟩ := (outputs others written).mp member
      obtain ⟨rest, rfl⟩ := within
      have file := output.found
      cases rest with
      | nil => cases directory (List.append_nil parts).symm
      | cons next rest =>
          have deeper := further.found
          rw [← List.append_assoc] at deeper
          rw [ancestor_is_directory (by simp) deeper] at file
          cases file
  · intro member listed isFile
    rfl

theorem exact_archive_contained (cwd : WorkingDirectory) (dest : Text) :
    ∀ member ∈ (archiveOf members).namelist, Contained cwd dest member := by
  intro text listed
  obtain ⟨member, inside, rfl⟩ := List.mem_map.mp listed
  obtain ⟨parts, named, output⟩ := (exact.entries member).mp inside
  obtain ⟨some, valid⟩ := output_named tree output
  rw [named]
  exact joined_contained valid some cwd dest

end Exact

/-- The files of the tree stand below `top` as they stood below `root`, with the
directories they need, and elsewhere nothing has changed. -/
structure Restored (disk : Disk) (root : Place) (skip : Bool) (top : Place)
    (before after : Disk) : Prop where
  files : ∀ parts bytes, after.find (top ++ parts) = some (.file bytes) ↔
    OutputFile disk root skip parts bytes
  directories : ∀ parts, after.find (top ++ parts) = some .directory ↔
    parts = [] ∨ ∃ rest bytes, rest ≠ [] ∧ OutputFile disk root skip (parts ++ rest) bytes
  unlinked : ∀ parts target, after.find (top ++ parts) ≠ some (.link target)
  outside : ∀ place, ¬ top <+: place → after.find place = before.find place

section Restoring

variable {disk before after : Disk} {srcDir : Path} {root top : Place} {skip : Bool}
  {members : List Member} {names : List String}

theorem restored_of_unpacked (tree : IsTree disk srcDir root)
    (exact : ExactArchive disk root skip members names)
    (unpacked : Unpacked (archiveOf members) top before after) :
    Restored disk root skip top before after where
  files parts bytes := by
    rw [unpacked.files, last_file_of_nodup (items_once tree exact), mem_items_iff tree exact]
    simp
  directories parts := by
    rw [unpacked.directories]
    apply or_congr_right
    constructor
    · rintro ⟨member, listed, within, directory⟩
      have inside := List.mem_map_of_mem (f := itemOf (archiveOf members)) listed
      obtain ⟨bytes, written, output⟩ := (mem_items_iff tree exact _ _).mp inside
      obtain ⟨rest, same⟩ := within
      refine ⟨rest, bytes, ?_, same ▸ output⟩
      rintro rfl
      cases (directory (by rw [← same, List.append_nil])).symm.trans written
    · rintro ⟨rest, bytes, more, output⟩
      obtain ⟨member, listed, item⟩ :=
        List.mem_map.mp ((mem_items_iff tree exact (parts ++ rest) (some bytes)).mpr ⟨bytes, rfl, output⟩)
      refine ⟨member, listed, ?_⟩
      rw [item]
      refine ⟨List.prefix_append parts rest, fun same => absurd ?_ more⟩
      exact List.append_right_eq_self.mp same.symm
  unlinked := unpacked.unlinked
  outside := unpacked.outside

variable (restored : Restored disk root skip top before after)

include restored

theorem restored_valid (valid : ValidNames disk) (earlier : ValidNames before)
    (standing : before.find top = some .directory) : ValidNames after := by
  intro dir name found
  by_cases within : top <+: dir ++ [name]
  · obtain ⟨parts, same⟩ := within
    cases parts using List.reverseRecOn with
    | nil =>
        rw [List.append_nil] at same
        exact earlier dir name (by rw [← same, standing]; rfl)
    | append_singleton init last =>
        rw [← List.append_assoc] at same
        obtain ⟨-, last_same⟩ := List.append_inj' same rfl
        rw [List.singleton_inj] at last_same
        rw [← same, List.append_assoc] at found
        obtain ⟨entry, stands⟩ := Option.isSome_iff_exists.mp found
        have listed : name ∈ init ++ [last] := by rw [last_same]; simp
        cases entry with
        | link target => exact absurd stands (restored.unlinked _ target)
        | file bytes =>
            exact output_names_valid valid ((restored.files _ _).mp stands) name listed
        | directory =>
            rcases (restored.directories _).mp stands with none | ⟨rest, bytes, -, output⟩
            · exact absurd none (by simp)
            · exact output_names_valid valid output name (List.mem_append_left rest listed)
  · rw [restored.outside _ within] at found
    exact earlier dir name found

theorem restored_tree (valid : ValidNames after) : IsTree after top top := by
  have directory : after.find top = some .directory := by
    have top := (restored.directories []).mpr (.inl rfl)
    rwa [List.append_nil] at top
  have whole : IsTree after [] [] := ⟨valid, rfl, find_root⟩
  have found : after.find ([] ++ top) = some .directory := by rwa [List.nil_append]
  have located := located_tree whole found (by simp)
  rw [List.nil_append] at located
  exact ⟨valid, located, directory⟩

theorem restored_exact {members : List Member} {names : List String}
    (exact : ExactArchive after top skip members names) :
    ExactArchive disk root skip members names := by
  have outputs : ∀ parts bytes, OutputFile after top skip parts bytes ↔
      OutputFile disk root skip parts bytes := by
    intro parts bytes
    constructor
    · intro output
      exact (restored.files parts bytes).mp output.found
    · intro output
      exact ⟨(restored.files parts bytes).mpr output, output.kept⟩
  constructor
  · intro member
    rw [exact.entries]
    simp only [outputs]
  · exact exact.once
  · intro name
    rw [exact.listed]
    simp only [outputs]
  · exact exact.increasing

end Restoring

/-- What is packed can be unpacked, and no file is lost, changed or added on the
way, so that packing again gives the same. -/
theorem packed_tree_unpacks (localYear : Int → Int) (world : DiskWorld) (srcDir : Path)
    (root : Place) (tree : IsTree world.drive.disk srcDir root) (depth : Nat)
    (deep : world.drive.disk.height < depth) (skip : Bool)
    (packable : Packable localYear world srcDir root skip) :
    ∃ members names,
      run (onTree localYear) world (zipDir depth srcDir skip) = (.ok (members, names), world) ∧
      ∀ (cwd : WorkingDirectory) (dest : Text) (upload : Upload) (drive : Drive),
        upload.Holds (archiveOf members) → Fresh cwd dest drive → ValidNames drive.disk →
        (safeExtract cwd dest upload drive).1 = .ok () ∧
        ∀ later : DiskWorld, later.drive = (safeExtract cwd dest upload drive).2 →
          Restored world.drive.disk root skip (place cwd dest) drive.disk later.drive.disk ∧
          (Packable localYear later (place cwd dest) (place cwd dest) skip →
            ∀ deeper, later.drive.disk.height < deeper → ∃ again,
              run (onTree localYear) later (zipDir deeper (place cwd dest) skip) =
                  (.ok (again, names), later) ∧
                ∀ member, member ∈ again ↔ member ∈ members) := by
  have exact := archive_exact tree deep skip
  refine ⟨_, _, zip_dir_runs tree packable depth, fun cwd dest upload drive holds fresh valid => ?_⟩
  rw [safe_extract_zip holds]
  have contained := exact_archive_contained tree exact cwd dest
  rcases extraction_cases fresh (archiveOf ((walkFiles world.drive.disk root skip depth []).map
      memberOf)) with ⟨-, written, extracted, unpacked⟩ | ⟨unfit, -⟩
  swap
  · exact absurd ⟨contained, exact_archive_sound tree exact⟩ unfit
  rw [extracted]
  refine ⟨rfl, fun later (same : later.drive = written) => ?_⟩
  have restored := restored_of_unpacked tree exact unpacked
  rw [← same] at restored
  have again := restored_tree restored (restored_valid restored tree.valid valid fresh.inside)
  refine ⟨restored, fun packable deeper enough => ?_⟩
  obtain ⟨names, members⟩ := exact_archive_unique (fun _ => rfl) exact
    (restored_exact restored (archive_exact again enough skip))
  exact ⟨_, by rw [zip_dir_runs again packable deeper, names], members⟩

/-! ## The tree with the planted link -/

theorem planted_tree_unpacks :
    ∃ members names, run (onTree meanYear) plantedTree (zipDir 4 ["out"] true) =
      (.ok (members, names), plantedTree) ∧
      (safeExtract atRoot "/data/work".toList (sentAsZip (archiveOf members)) jobDrive).1 = .ok () ∧
      Restored plantedTree.drive.disk ["out"] true (place atRoot "/data/work".toList) jobDrive.disk
        (safeExtract atRoot "/data/work".toList (sentAsZip (archiveOf members)) jobDrive).2.disk := by
  obtain ⟨members, names, packed, unpacks⟩ := packed_tree_unpacks meanYear plantedTree ["out"]
    ["out"] planted_is_tree 4 (by decide +kernel) true planted_packable
  obtain ⟨done, restored⟩ := unpacks atRoot "/data/work".toList _ jobDrive (sent_as_zip_holds _)
    job_drive_fresh (valid_names_of_keys (by decide +kernel))
  exact ⟨members, names, packed, done, (restored { plantedTree with drive := _ } rfl).1⟩

end PretextBuildServer.ArchiveRoundTrip
