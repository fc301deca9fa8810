import PretextBuildServer.Library.PosixFiles
import PretextBuildServer.Library.TreeLayouts
import PretextBuildServer.SafeExtract

/-!
# What unpacking a zip archive leaves

Extraction takes an archive exactly if the files and directories it names go
together, and then the destination holds these and nothing else. The invariant of
the loop over the members is that the destination is the layout of those that
have been extracted.
-/

namespace PretextBuildServer.UnpackedTree

open PosixDisk PathStrings TreeLayouts
open PretextBuildServer.ServerSettings PretextBuildServer.JobCalls PretextBuildServer.DiskCalls
open PretextBuildServer.SafeExtract

set_option autoImplicit false

/-! ## What an archive names -/

/-- The names a member is extracted under. -/
def partsOf (member : Text) : Place := (arcComponents member).map String.ofList

def itemOf (archive : Archive) (member : Text) : Item String Bytes where
  path := partsOf member
  content := if isDirMember member then none else some (archive.data member).bytes

/-- Every file can be read to its end, and no two members stand in each other's
way. -/
structure Sound (archive : Archive) (members : List Text) : Prop where
  compatible : Compatible (members.map (itemOf archive))
  readable : ∀ member ∈ members, isDirMember member = false →
    (archive.data member).broken = false

def entryOf : Node Bytes → Entry
  | .directory => .directory
  | .file bytes => .file bytes

/-- Below `root` stands what the items lay out, and elsewhere what stood there
before. -/
structure LaidOut (items : List (Item String Bytes)) (root : Place) (before disk : Disk) : Prop where
  inside : ∀ path, disk.find (root ++ path) = (layout items path).map entryOf
  outside : ∀ place, ¬ root <+: place → disk.find place = before.find place

theorem found_file_iff {items : List (Item String Bytes)} {root : Place} {before disk : Disk}
    (laid : LaidOut items root before disk) (path : List String) (bytes : Bytes) :
    disk.find (root ++ path) = some (.file bytes) ↔ layout items path = some (.file bytes) := by
  rw [laid.inside, Option.map_eq_some_iff]
  constructor
  · rintro ⟨node, found, same⟩
    cases node with
    | directory => cases same
    | file content =>
        cases same
        exact found
  · intro found
    exact ⟨_, found, rfl⟩

theorem found_directory_iff {items : List (Item String Bytes)} {root : Place} {before disk : Disk}
    (laid : LaidOut items root before disk) (path : List String) :
    disk.find (root ++ path) = some .directory ↔ layout items path = some .directory := by
  rw [laid.inside, Option.map_eq_some_iff]
  constructor
  · rintro ⟨node, found, same⟩
    cases node with
    | directory => exact found
    | file content => cases same
  · intro found
    exact ⟨_, found, rfl⟩

/-! ## Writing one member -/

section Writing

variable {drive : Drive} {dir : Names} {name : String}

theorem paved_unless_there (clear : drive.disk.Unlinked dir)
    (noFile : ∀ front, front <+: dir → ∀ bytes, drive.disk.find front ≠ some (.file bytes)) :
    ∃ later, (if drive.disk.exist dir = false then drive.makeDirs dir else (.ok (), drive)) =
        (.ok (), later) ∧
      ∀ place, later.disk.find place =
        if place <+: dir then some .directory else drive.disk.find place := by
  by_cases absent : drive.disk.exist dir = false
  · rw [if_pos absent]
    obtain ⟨later, made, found, -⟩ := make_dirs_paves clear noFile
    exact ⟨later, made, found⟩
  · rw [if_neg absent]
    rw [Bool.not_eq_false, exist_unlinked clear, Option.isSome_iff_exists] at absent
    obtain ⟨entry, found⟩ := absent
    have directory : drive.disk.find dir = some .directory := by
      cases entry with
      | directory => exact found
      | file bytes => exact absurd found (noFile dir List.prefix_rfl bytes)
      | link target => exact absurd found (clear.unlinked dir List.prefix_rfl target)
    refine ⟨drive, rfl, fun place => ?_⟩
    split
    · rename_i above
      obtain ⟨rest, rfl⟩ := above
      cases rest with
      | nil => rwa [List.append_nil] at directory
      | cons next rest => exact ancestor_is_directory (by simp) directory
    · rfl

theorem file_refused {path : Names} (clear : drive.disk.Unlinked path)
    (taken : drive.disk.find path = some .directory) (data : MemberData) :
    ∃ raised later, writeMember drive path false data = (.error raised, later) := by
  rcases create_cases drive path with ⟨refused, -⟩ | ⟨place, later, located, free, -, -⟩
  · rw [writeMember, if_neg Bool.false_ne_true, refused]
    exact ⟨_, _, rfl⟩
  · rw [locate_unlinked clear, Option.ite_none_right_eq_some, Option.some.injEq] at located
    rw [← located.2] at free
    exact absurd taken free

theorem write_homeless (clear : drive.disk.Unlinked (dir ++ [name]))
    (outside : drive.disk.find dir ≠ some .directory) (isDir : Bool) (data : MemberData) :
    ∃ raised later, writeMember drive (dir ++ [name]) isDir data = (.error raised, later) := by
  have homeless : drive.disk.find (dir ++ [name]).dropLast ≠ some .directory := by
    rwa [List.dropLast_concat]
  cases isDir with
  | true =>
      have notDir : drive.disk.isDir (dir ++ [name]) ≠ true := by
        rw [ne_eq, is_dir_unlinked clear, homeless_is_free homeless]
        simp
      have spotted : drive.disk.spot (dir ++ [name]) = none := by
        rw [spot_unlinked (unlinked_front clear) (clear.plain name (by simp)), if_neg outside]
      rw [writeMember, if_pos rfl, if_neg notDir, Drive.mkdir, spotted]
      exact ⟨_, _, rfl⟩
  | false =>
      have located : drive.disk.locate (dir ++ [name]) = none := by
        rw [locate_unlinked clear, if_neg homeless]
      rw [writeMember, if_neg Bool.false_ne_true, Drive.create, located]
      exact ⟨_, _, rfl⟩

variable (clear : drive.disk.Unlinked (dir ++ [name]))
  (inside : drive.disk.find dir = some .directory)
include clear inside

theorem directory_written (data : MemberData)
    (noFile : ∀ bytes, drive.disk.find (dir ++ [name]) ≠ some (.file bytes)) :
    ∃ later, writeMember drive (dir ++ [name]) true data = (.ok (), later) ∧
      ∀ place, later.disk.find place =
        if place = dir ++ [name] then some .directory else drive.disk.find place := by
  rw [writeMember, if_pos rfl]
  by_cases there : drive.disk.isDir (dir ++ [name]) = true
  · rw [if_pos there]
    refine ⟨drive, rfl, fun place => ?_⟩
    split
    · rename_i here
      rw [here, (is_dir_unlinked clear).mp there]
    · rfl
  · rw [if_neg there]
    have free : drive.disk.find (dir ++ [name]) = none := by
      rw [is_dir_unlinked clear] at there
      cases found : drive.disk.find (dir ++ [name]) with
      | none => rfl
      | some entry =>
          cases entry with
          | directory => exact absurd found there
          | file bytes => exact absurd found (noFile bytes)
          | link target => exact absurd found (clear.unlinked _ List.prefix_rfl target)
    have spotted : drive.disk.spot (dir ++ [name]) = some (dir ++ [name]) := by
      rw [spot_unlinked (unlinked_front clear) (clear.plain name (by simp)), if_pos inside]
    obtain ⟨later, put, made⟩ := mkdir_free spotted free (by rwa [List.dropLast_concat])
    rw [made]
    exact ⟨later, rfl, find_put (drive_put_some put).1⟩

theorem directory_refused (data : MemberData) {bytes : Bytes}
    (file : drive.disk.find (dir ++ [name]) = some (.file bytes)) :
    ∃ raised later, writeMember drive (dir ++ [name]) true data = (.error raised, later) := by
  have notDir : drive.disk.isDir (dir ++ [name]) ≠ true := by
    rw [ne_eq, is_dir_unlinked clear, file]
    simp
  obtain ⟨refusal, refused⟩ := @mkdir_refuses drive (dir ++ [name]) (by
    intro place spotted
    rw [spot_unlinked (unlinked_front clear) (clear.plain name (by simp)), if_pos inside,
      Option.some.injEq] at spotted
    simp [← spotted, file])
  rw [writeMember, if_pos rfl, if_neg notDir, refused]
  exact ⟨_, _, rfl⟩

theorem file_written (data : MemberData)
    (free : drive.disk.find (dir ++ [name]) ≠ some .directory) :
    ∃ later, writeMember drive (dir ++ [name]) false data =
        (if data.broken then .error { kind := .other } else .ok (), later) ∧
      ∀ place, later.disk.find place =
        if place = dir ++ [name] then some (.file data.bytes) else drive.disk.find place := by
  have above : drive.disk.find (dir ++ [name]).dropLast = some .directory := by
    rwa [List.dropLast_concat]
  have located : drive.disk.locate (dir ++ [name]) = some (dir ++ [name]) := by
    rw [locate_unlinked clear, if_pos above]
  obtain ⟨opened, put⟩ := @drive_put_free drive _ (.file []) above free
  have empty := find_put (drive_put_some put).1
  obtain ⟨later, appended, filled⟩ :=
    @append_first opened (dir ++ [name]) (by rw [empty, if_pos rfl]) data.bytes
  refine ⟨later, ?_, fun place => ?_⟩
  · simp only [writeMember, Drive.create, located, put, Drive.settle, appended,
      Bool.false_eq_true, if_false]
  · rw [find_put filled, empty]
    split <;> rfl

end Writing

/-! ## One member -/

section Member

variable {cwd : WorkingDirectory} {dest : Text} {drive : Drive} {archive : Archive}
  {before : Disk} {items : List (Item String Bytes)} {member : Text}

theorem plain_below (names : List Text) (valid : ∀ name ∈ names, IsName name) :
    ∀ name ∈ place cwd dest ++ names.map String.ofList, isPlain name = true := by
  rw [place, ← List.map_append]
  apply plain_place
  rw [List.forall_mem_append]
  exact ⟨located_valid cwd dest, valid⟩

theorem unlinked_below (extracting : Extracting cwd dest drive) (names : List Text)
    (valid : ∀ name ∈ names, IsName name) :
    drive.disk.Unlinked (place cwd dest ++ names.map String.ofList) :=
  enclosed_unlinked extracting (plain_below names valid) (List.prefix_append _ _)

theorem target_place (member : Text) :
    place cwd (normpath (join dest (arcname member))) = place cwd dest ++ partsOf member := by
  rw [place, target_located, List.map_append, place, partsOf]

theorem upper_dirs_none (extracting : Extracting cwd dest drive) (below : cwd.located dest ≠ [])
    (none : arcComponents member = []) :
    makeUpperDirs cwd drive (dirname (normpath (join dest (arcname member)))) =
      (.ok (), drive) := by
  have start := @isabs_join _ dest (arcname_relative member)
  have normal := @normal_target dest member
  rw [none, List.append_nil] at normal
  rw [makeUpperDirs, if_neg]
  rintro ⟨nonempty, absent⟩
  rw [upper_present extracting below start normal nonempty] at absent
  cases absent

theorem upper_dirs_eq (extracting : Extracting cwd dest drive) {init : List Text} {last : Text}
    (arcs : arcComponents member = init ++ [last]) :
    makeUpperDirs cwd drive (dirname (normpath (join dest (arcname member)))) =
      if drive.disk.exist (place cwd dest ++ init.map String.ofList) = false then
        drive.makeDirs (place cwd dest ++ init.map String.ofList)
      else (.ok (), drive) := by
  have start := @isabs_join _ dest (arcname_relative member)
  have normal := @normal_target dest member
  have valid := arc_valid member
  rw [arcs] at normal valid
  rw [← List.append_assoc] at normal
  have above := dirname_normpath cwd normal
  rw [start, resolve_append, located_normal,
    resolve_names fun name kept => valid name (List.mem_append_left _ kept)] at above
  have located : place cwd (dirname (normpath (join dest (arcname member)))) =
      place cwd dest ++ init.map String.ofList := by
    rw [place, above, List.map_append, place]
  rw [makeUpperDirs, located]
  by_cases empty : dirname (normpath (join dest (arcname member))) = []
  · -- No text stands for the working directory, which is there.
    have here : place cwd dest ++ init.map String.ofList = cwd.names.map String.ofList := by
      rw [← located, empty]
      rfl
    rw [if_neg fun missing => missing.1 empty, here,
      exists_above cwd.valid extracting.standing List.prefix_rfl]
    rfl
  · simp only [ne_eq, empty, not_false_eq_true, true_and]

theorem extract_member_made {middle : Drive}
    (made : makeUpperDirs cwd drive (dirname (normpath (join dest (arcname member)))) =
      (.ok (), middle)) :
    extractMember cwd archive dest drive member =
      writeMember middle (place cwd dest ++ partsOf member) (isDirMember member)
        (archive.data member) := by
  simp only [extractMember, made, target_place]

theorem extract_member_barred {refusal : Refusal} {middle : Drive}
    (barred : makeUpperDirs cwd drive (dirname (normpath (join dest (arcname member)))) =
      (.error refusal, middle)) :
    extractMember cwd archive dest drive member = (.error (raisedBy refusal), middle) := by
  simp only [extractMember, barred]

/-- The directory a member goes into has been made, and its own name is as it
was. -/
structure WayPaved (drive : Drive) (dir : Names) (name : String) (middle : Drive) : Prop where
  clear : middle.disk.Unlinked (dir ++ [name])
  inside : middle.disk.find dir = some .directory
  target : middle.disk.find (dir ++ [name]) = drive.disk.find (dir ++ [name])
  found : ∀ other, middle.disk.find other =
    if other <+: dir then some .directory else drive.disk.find other

theorem parts_concat {init : List Text} {last : Text} (arcs : arcComponents member = init ++ [last]) :
    partsOf member = init.map String.ofList ++ [String.ofList last] := by
  rw [partsOf, arcs, List.map_append, List.map_singleton]

theorem item_directory (isDir : isDirMember member = true) :
    itemOf archive member = ⟨partsOf member, none⟩ := by
  rw [itemOf, if_pos isDir]

theorem item_file (isFile : isDirMember member = false) :
    itemOf archive member = ⟨partsOf member, some (archive.data member).bytes⟩ := by
  rw [itemOf, if_neg (by rw [isFile]; simp)]

variable (extracting : Extracting cwd dest drive)
  (laid : LaidOut items (place cwd dest) before drive.disk)

include extracting laid

theorem file_on_way {path front : List String} (within : front <+: place cwd dest ++ path)
    {bytes : Bytes} (file : drive.disk.find front = some (.file bytes)) :
    ∃ rest, rest <+: path ∧ front = place cwd dest ++ rest ∧
      layout items rest = some (.file bytes) := by
  rcases List.prefix_or_prefix_of_prefix within (List.prefix_append _ path) with outer | inner
  · obtain ⟨back, same⟩ := outer
    have inside := extracting.inside
    rw [← same] at inside
    cases back with
    | nil =>
        rw [List.append_nil, file] at inside
        cases inside
    | cons name back =>
        rw [ancestor_is_directory (by simp) inside] at file
        cases file
  · obtain ⟨rest, rfl⟩ := inner
    exact ⟨rest, (List.prefix_append_right_inj _).mp within, rfl, (found_file_iff laid _ _).mp file⟩

theorem way_paved (below : cwd.located dest ≠ []) {init : List Text} {last : Text}
    (arcs : arcComponents member = init ++ [last])
    (noFile : ∀ front, front <+: init.map String.ofList → ∀ bytes,
      layout items front ≠ some (.file bytes)) :
    ∃ middle, makeUpperDirs cwd drive (dirname (normpath (join dest (arcname member)))) =
        (.ok (), middle) ∧
      WayPaved drive (place cwd dest ++ init.map String.ofList) (String.ofList last) middle := by
  have valid := arc_valid member
  rw [arcs] at valid
  obtain ⟨middle, made, found⟩ := @paved_unless_there drive
    (place cwd dest ++ init.map String.ofList)
    (unlinked_below extracting init fun name kept => valid name (List.mem_append_left _ kept)) (by
      intro front within bytes file
      obtain ⟨rest, further, -, stands⟩ := file_on_way extracting laid within file
      exact noFile rest further bytes stands)
  rw [← upper_dirs_eq extracting arcs] at made
  have enclosed := upper_encloses extracting below member
  rw [made] at enclosed
  have clear := unlinked_below enclosed (init ++ [last]) valid
  rw [List.map_append, List.map_singleton, ← List.append_assoc] at clear
  refine ⟨middle, made, clear, ?_, ?_, found⟩
  · rw [found, if_pos List.prefix_rfl]
  · rw [found, if_neg]
    intro within
    have length := within.length_le
    rw [List.length_append, List.length_singleton] at length
    omega

theorem laid_out_more {later : Disk} {item : Item String Bytes} {init : List String} {last : String}
    (path : item.path = init ++ [last])
    (found : ∀ other, later.find other =
      if other = place cwd dest ++ init ++ [last] then some (entryOf item.node)
      else if other <+: place cwd dest ++ init then some .directory else drive.disk.find other) :
    LaidOut (items ++ [item]) (place cwd dest) before later := by
  constructor
  · intro way
    rw [found, layout_concat, lay, path]
    simp only [List.append_assoc, List.append_cancel_left_eq, List.prefix_append_right_inj,
      List.prefix_concat_iff]
    by_cases here : way = init ++ [last]
    · rw [if_pos here, if_pos here]
      rfl
    · simp only [here, if_false, false_or]
      split
      · rfl
      · exact laid.inside way
  · intro other outside
    rw [found, if_neg]
    · split
      · rename_i within
        rw [← laid.outside other outside]
        rcases List.prefix_or_prefix_of_prefix within (List.prefix_append _ init) with outer | inner
        · obtain ⟨back, same⟩ := outer
          have inside := extracting.inside
          rw [← same] at inside
          cases back with
          | nil => rw [← inside, List.append_nil]
          | cons name back => exact (ancestor_is_directory (by simp) inside).symm
        · exact absurd inner outside
      · exact laid.outside other outside
    · rintro rfl
      exact outside (by rw [List.append_assoc]; exact List.prefix_append _ _)

theorem top_unpacks (below : cwd.located dest ≠ []) (compatible : Compatible items)
    (arcs : arcComponents member = []) (isDir : isDirMember member = true) :
    ∃ later, extractMember cwd archive dest drive member = (.ok (), later) ∧
      LaidOut (items ++ [itemOf archive member]) (place cwd dest) before later.disk := by
  have path : partsOf member = [] := by rw [partsOf, arcs, List.map_nil]
  have there : drive.disk.isDir (place cwd dest) = true := by
    have clear := unlinked_below extracting [] (by simp)
    rw [List.map_nil, List.append_nil] at clear
    exact (is_dir_unlinked clear).mpr extracting.inside
  rw [extract_member_made (upper_dirs_none extracting below arcs), path, List.append_nil]
  simp only [writeMember, isDir, if_true, there]
  refine ⟨drive, rfl, fun way => ?_, laid.outside⟩
  rw [laid.inside, layout_concat, item_directory isDir, path, lay]
  split
  · rename_i here
    rw [here, (layout_directory_iff compatible []).mpr (.inl rfl)]
    rfl
  · rename_i here
    rw [if_neg fun above => here (List.prefix_nil.mp above)]

/-- A member that fits is extracted to where the layout has it. -/
theorem member_unpacks (below : cwd.located dest ≠ []) (compatible : Compatible items)
    (fits : Fits (layout items) (itemOf archive member))
    (readable : isDirMember member = false → (archive.data member).broken = false) :
    ∃ later, extractMember cwd archive dest drive member = (.ok (), later) ∧
      LaidOut (items ++ [itemOf archive member]) (place cwd dest) before later.disk := by
  cases arcs : arcComponents member using List.reverseRecOn with
  | nil =>
      cases isDir : isDirMember member with
      | true => exact top_unpacks extracting laid below compatible arcs isDir
      | false =>
          have path : partsOf member = [] := by rw [partsOf, arcs, List.map_nil]
          have free := fits.free (by rw [item_file isDir]; rfl)
          rw [item_file isDir, path] at free
          exact absurd ((layout_directory_iff compatible []).mpr (.inl rfl)) free
  | append_singleton init last =>
      have parts := parts_concat arcs
      obtain ⟨middle, made, paved⟩ := way_paved extracting laid below arcs (by
        intro front within
        refine fits.above front ⟨?_, fun same => ?_⟩
        · rw [itemOf, parts]
          exact within.trans (List.prefix_append _ _)
        · have length := within.length_le
          rw [same, itemOf, parts, List.length_append, List.length_singleton] at length
          omega)
      have target := paved.target
      rw [List.append_assoc, ← parts] at target
      rw [extract_member_made made, parts, ← List.append_assoc]
      cases isDir : isDirMember member with
      | true =>
          obtain ⟨later, written, found⟩ :=
            directory_written paved.clear paved.inside (archive.data member) (by
              intro bytes file
              rw [List.append_assoc, ← parts, target, found_file_iff laid] at file
              refine fits.above (partsOf member) ?_ bytes file
              rw [item_directory isDir]
              exact ⟨List.prefix_rfl, fun _ => rfl⟩)
          refine ⟨later, written, laid_out_more extracting laid (by rw [itemOf, parts]) ?_⟩
          intro other
          rw [found, paved.found, item_directory isDir]
          rfl
      | false =>
          obtain ⟨later, written, found⟩ :=
            file_written paved.clear paved.inside (archive.data member) (by
              intro directory
              rw [List.append_assoc, ← parts, target, found_directory_iff laid] at directory
              have free := fits.free (by rw [item_file isDir]; rfl)
              rw [item_file isDir] at free
              exact free directory)
          rw [readable isDir] at written
          refine ⟨later, written, laid_out_more extracting laid (by rw [itemOf, parts]) ?_⟩
          intro other
          rw [found, paved.found, item_file isDir]
          rfl

theorem barred_member_refused {init : List Text} {last : Text}
    (arcs : arcComponents member = init ++ [last]) {front : List String}
    (within : front <+: init.map String.ofList) {bytes : Bytes}
    (stands : layout items front = some (.file bytes)) :
    ∃ raised later, extractMember cwd archive dest drive member = (.error raised, later) := by
  have valid := arc_valid member
  rw [arcs] at valid
  have clear := unlinked_below extracting (init ++ [last]) valid
  rw [List.map_append, List.map_singleton, ← List.append_assoc] at clear
  have above := unlinked_front clear
  have file := (found_file_iff laid front bytes).mpr stands
  have onWay : place cwd dest ++ front <+: place cwd dest ++ init.map String.ofList :=
    (List.prefix_append_right_inj _).mpr within
  have upper := upper_dirs_eq extracting arcs
  by_cases absent : drive.disk.exist (place cwd dest ++ init.map String.ofList) = false
  · rw [if_pos absent, make_dirs_barred above onWay file] at upper
    exact ⟨_, _, extract_member_barred upper⟩
  · rw [if_neg absent] at upper
    rw [extract_member_made upper, parts_concat arcs, ← List.append_assoc]
    apply write_homeless clear
    intro inside
    obtain ⟨rest, same⟩ := onWay
    rw [← same] at inside
    cases rest with
    | nil =>
        rw [List.append_nil, file] at inside
        cases inside
    | cons next rest =>
        rw [ancestor_is_directory (by simp) inside] at file
        cases file

omit extracting laid in
theorem fits_below {item : Item String Bytes} {init : List String} {last : String}
    (path : item.path = init ++ [last])
    (noFile : ∀ front, front <+: init → ∀ bytes, layout items front ≠ some (.file bytes))
    (here : item.content = none → ∀ bytes, layout items item.path ≠ some (.file bytes))
    (free : item.content.isSome = true → layout items item.path ≠ some .directory) :
    Fits (layout items) item := by
  refine ⟨fun front opens bytes stands => ?_, free⟩
  obtain ⟨within, directory⟩ := opens
  by_cases same : front = item.path
  · rw [same] at stands
    exact here (directory same) bytes stands
  · rw [path] at within same
    rcases List.prefix_concat_iff.mp within with whole | above
    · exact same whole
    · exact noFile front above bytes stands

theorem member_refused (below : cwd.located dest ≠ []) (compatible : Compatible items)
    (unfit : ¬ (Fits (layout items) (itemOf archive member) ∧
      (isDirMember member = false → (archive.data member).broken = false))) :
    ∃ raised later, extractMember cwd archive dest drive member = (.error raised, later) := by
  cases arcs : arcComponents member using List.reverseRecOn with
  | nil =>
      have path : partsOf member = [] := by rw [partsOf, arcs, List.map_nil]
      cases isDir : isDirMember member with
      | true =>
          refine absurd ⟨⟨?_, ?_⟩, fun isFile => ?_⟩ unfit
          · intro front opens content
            rw [item_directory isDir, path] at opens
            rw [List.prefix_nil.mp opens.1, (layout_directory_iff compatible []).mpr (.inl rfl)]
            simp
          · rw [item_directory isDir]
            simp
          · rw [isDir] at isFile
            cases isFile
      | false =>
          have clear := unlinked_below extracting [] (by simp)
          rw [extract_member_made (upper_dirs_none extracting below arcs), path, isDir]
          refine file_refused clear ?_ _
          rw [List.map_nil, List.append_nil]
          exact extracting.inside
  | append_singleton init last =>
      have parts := parts_concat arcs
      by_cases onWay : ∃ front, front <+: init.map String.ofList ∧
          ∃ bytes, layout items front = some (.file bytes)
      · obtain ⟨front, within, bytes, stands⟩ := onWay
        exact barred_member_refused extracting laid arcs within stands
      · have noFile : ∀ front, front <+: init.map String.ofList → ∀ bytes,
            layout items front ≠ some (.file bytes) :=
          fun front within bytes stands => onWay ⟨front, within, bytes, stands⟩
        obtain ⟨middle, made, paved⟩ := way_paved extracting laid below arcs noFile
        have target := paved.target
        rw [List.append_assoc, ← parts] at target
        rw [extract_member_made made, parts, ← List.append_assoc]
        cases isDir : isDirMember member with
        | true =>
            by_cases file : ∃ bytes, layout items (partsOf member) = some (.file bytes)
            · obtain ⟨bytes, stands⟩ := file
              have inWay := (found_file_iff laid _ _).mpr stands
              rw [← target, parts, ← List.append_assoc] at inWay
              exact directory_refused paved.clear paved.inside _ inWay
            · have item := @item_directory archive member isDir
              have fits : Fits (layout items) (itemOf archive member) :=
                fits_below (by rw [itemOf, parts]) noFile
                  (fun _ bytes stands => file ⟨bytes, by rwa [item] at stands⟩) (by rw [item]; simp)
              refine absurd ⟨fits, fun isFile => ?_⟩ unfit
              rw [isDir] at isFile
              cases isFile
        | false =>
            by_cases taken : layout items (partsOf member) = some .directory
            · refine file_refused paved.clear ?_ _
              rw [List.append_assoc, ← parts, target]
              exact (found_directory_iff laid _).mpr taken
            · have item := @item_file archive member isDir
              have fits : Fits (layout items) (itemOf archive member) :=
                fits_below (by rw [itemOf, parts]) noFile (by rw [item]; simp)
                  (fun _ => by rwa [item])
              have broken : (archive.data member).broken = true := by
                by_contra whole
                exact unfit ⟨fits, fun _ => by simpa using whole⟩
              obtain ⟨later, written, -⟩ :=
                file_written paved.clear paved.inside (archive.data member) (by
                  rw [List.append_assoc, ← parts, target]
                  exact mt (found_directory_iff laid _).mp taken)
              rw [broken, if_pos rfl] at written
              exact ⟨_, later, written⟩

end Member

/-! ## All members -/

section Members

variable {cwd : WorkingDirectory} {dest : Text} {drive : Drive} {archive : Archive} {before : Disk}

theorem sound_front {front back : List Text} (sound : Sound archive (front ++ back)) :
    Sound archive front := by
  constructor
  · have compatible := sound.compatible
    rw [List.map_append] at compatible
    exact compatible_front compatible
  · intro member listed
    exact sound.readable member (List.mem_append_left back listed)

theorem sound_concat_iff {members : List Text} (sound : Sound archive members) (member : Text) :
    Sound archive (members ++ [member]) ↔
      Fits (layout (members.map (itemOf archive))) (itemOf archive member) ∧
        (isDirMember member = false → (archive.data member).broken = false) := by
  rw [← compatible_concat_iff sound.compatible]
  constructor
  · intro longer
    have compatible := longer.compatible
    rw [List.map_append, List.map_singleton] at compatible
    exact ⟨compatible, longer.readable member (by simp)⟩
  · rintro ⟨compatible, readable⟩
    constructor
    · rwa [List.map_append, List.map_singleton]
    · intro other listed
      rcases List.mem_append.mp listed with earlier | last
      · exact sound.readable other earlier
      · rw [List.mem_singleton.mp last]
        exact readable

/-- From what the members before have left, the others are extracted exactly if
they all go together. -/
theorem members_unpack (below : cwd.located dest ≠ []) (rest : List Text) {front : List Text}
    (extracting : Extracting cwd dest drive) (sound : Sound archive front)
    (laid : LaidOut (front.map (itemOf archive)) (place cwd dest) before drive.disk) :
    (Sound archive (front ++ rest) ∧
      ∃ later, extractMembers cwd archive dest drive rest = (.ok (), later) ∧
        LaidOut ((front ++ rest).map (itemOf archive)) (place cwd dest) before later.disk) ∨
    (¬ Sound archive (front ++ rest) ∧
      ∃ raised later, extractMembers cwd archive dest drive rest = (.error raised, later)) := by
  induction rest generalizing front drive with
  | nil =>
      rw [List.append_nil]
      exact .inl ⟨sound, drive, rfl, laid⟩
  | cons member rest induction =>
      by_cases one : Sound archive (front ++ [member])
      · obtain ⟨fits, readable⟩ := (sound_concat_iff sound member).mp one
        obtain ⟨middle, extracted, further⟩ :=
          member_unpacks extracting laid below sound.compatible fits readable
        have enclosed := extract_member_encloses extracting below archive member
        rw [extracted] at enclosed
        have others := @induction middle (front ++ [member]) enclosed one
          (by rwa [List.map_append, List.map_singleton])
        rw [List.append_assoc, List.singleton_append] at others
        simpa only [extractMembers, extracted] using others
      · right
        constructor
        · intro whole
          rw [List.append_cons] at whole
          exact one (sound_front whole)
        · rw [sound_concat_iff sound] at one
          obtain ⟨raised, later, refused⟩ :=
            member_refused extracting laid below sound.compatible one
          exact ⟨raised, later, by simp only [extractMembers, refused]⟩

theorem fresh_laid_out (fresh : Fresh cwd dest drive) :
    LaidOut [] (place cwd dest) drive.disk drive.disk := by
  refine ⟨fun path => ?_, fun _ _ => rfl⟩
  rw [layout, List.foldl_nil]
  cases path with
  | nil => rw [if_pos rfl, List.append_nil, fresh.inside, Option.map_some, entryOf]
  | cons name path =>
      have free : drive.disk.find (place cwd dest ++ [name]) = none := by
        rw [← Option.not_isSome_iff_eq_none, ← mem_names, fresh.empty]
        simp
      rw [if_neg (by simp), List.append_cons, below_free free, Option.map_none]

end Members

/-- What stands where the archive has been unpacked: its files, each as the last
member of its name has it, the directories these need or that it names, and
nothing else. -/
structure Unpacked (archive : Archive) (root : Place) (before after : Disk) : Prop where
  files : ∀ path bytes, after.find (root ++ path) = some (.file bytes) ↔
    LastFile (archive.namelist.map (itemOf archive)) path bytes
  directories : ∀ path, after.find (root ++ path) = some .directory ↔
    path = [] ∨ ∃ member ∈ archive.namelist, (itemOf archive member).Opens path
  unlinked : ∀ path target, after.find (root ++ path) ≠ some (.link target)
  outside : ∀ place, ¬ root <+: place → after.find place = before.find place

theorem unpacked_of_laid_out {archive : Archive} {root : Place} {before after : Disk}
    (sound : Sound archive archive.namelist)
    (laid : LaidOut (archive.namelist.map (itemOf archive)) root before after) :
    Unpacked archive root before after where
  files path bytes := by rw [found_file_iff laid, layout_file_iff sound.compatible]
  directories path := by
    rw [found_directory_iff laid, layout_directory_iff sound.compatible]
    simp only [List.mem_map, exists_exists_and_eq_and]
  unlinked path target link := by
    rw [laid.inside, Option.map_eq_some_iff] at link
    obtain ⟨node, -, same⟩ := link
    cases node <;> cases same
  outside := laid.outside

theorem extraction_cases {cwd : WorkingDirectory} {dest : Text} {drive : Drive}
    (fresh : Fresh cwd dest drive) (archive : Archive) :
    (((∀ member ∈ archive.namelist, Contained cwd dest member) ∧ Sound archive archive.namelist) ∧
      ∃ later, extractZip cwd dest archive drive = (.ok (), later) ∧
        Unpacked archive (place cwd dest) drive.disk later.disk) ∨
    (¬ ((∀ member ∈ archive.namelist, Contained cwd dest member) ∧ Sound archive archive.namelist) ∧
      ∃ raised later, extractZip cwd dest archive drive = (.error raised, later)) := by
  have nothing : Sound archive [] := ⟨compatible_nil, by simp⟩
  rcases check_members_iff fresh.below archive.namelist with
    ⟨contained, passes⟩ | ⟨member, listed, outside, raises⟩
  · have extracts : extractZip cwd dest archive drive =
        extractMembers cwd archive dest drive archive.namelist := by
      rw [extractZip, passes]
    rw [extracts]
    rcases members_unpack fresh.below archive.namelist (fresh_encloses fresh) nothing
        (fresh_laid_out fresh) with ⟨sound, later, extracted, laid⟩ | ⟨unsound, raised, later, refused⟩
    · exact .inl ⟨⟨contained, sound⟩, later, extracted, unpacked_of_laid_out sound laid⟩
    · exact .inr ⟨fun whole => unsound whole.2, raised, later, refused⟩
  · have refuses : extractZip cwd dest archive drive = (.error (unsafePath member), drive) := by
      rw [extractZip, raises]
    exact .inr ⟨fun whole => outside (whole.1 member listed), _, _, refuses⟩

/-- A zip upload is unpacked exactly if none of its members leads out of the
destination, all its files can be read and its members go together; and then the
destination is what they say. -/
theorem zip_unpacks_exactly (cwd : WorkingDirectory) (dest : Text) (upload : Upload)
    (archive : Archive) (holds : upload.Holds archive) (drive : Drive)
    (fresh : Fresh cwd dest drive) :
    ((safeExtract cwd dest upload drive).1 = .ok () ↔
      (∀ member ∈ archive.namelist, Contained cwd dest member) ∧
        Sound archive archive.namelist) ∧
    ((safeExtract cwd dest upload drive).1 = .ok () →
      Unpacked archive (place cwd dest) drive.disk (safeExtract cwd dest upload drive).2.disk) := by
  rw [safe_extract_zip holds]
  rcases extraction_cases fresh archive with
    ⟨whole, later, extracted, unpacked⟩ | ⟨unfit, raised, later, refused⟩
  · rw [extracted]
    exact ⟨iff_of_true rfl whole, fun _ => unpacked⟩
  · rw [refused]
    exact ⟨iff_of_false (by simp) unfit, fun done => by cases done⟩

/-! ## A project as it is uploaded -/

/-- One file twice under the same path, and a directory nobody put anything in. -/
def uploaded : Archive where
  namelist := ["source/main.ptx".toList, "project.ptx".toList, "assets/".toList,
    "./source//main.ptx".toList]
  data member := { bytes := [member.length.toUInt8] }

theorem job_drive_fresh : Fresh atRoot "/data/work".toList jobDrive := by
  have dest : place atRoot "/data/work".toList = ["data", "work"] := by decide
  constructor
  · exact find_root
  · rw [dest]
    decide +kernel
  · decide
  · rw [dest]
    decide +kernel
  · rfl

theorem uploaded_unpacks_exactly :
    ((safeExtract atRoot "/data/work".toList (sentAsZip uploaded) jobDrive).1 = .ok () ↔
      (∀ member ∈ uploaded.namelist, Contained atRoot "/data/work".toList member) ∧
        Sound uploaded uploaded.namelist) ∧
    Unpacked uploaded (place atRoot "/data/work".toList) jobDrive.disk
      (safeExtract atRoot "/data/work".toList (sentAsZip uploaded) jobDrive).2.disk := by
  have exact := zip_unpacks_exactly atRoot "/data/work".toList _ uploaded
    (sent_as_zip_holds uploaded) jobDrive job_drive_fresh
  refine ⟨exact.1, exact.2 ?_⟩
  rw [safe_extract_zip (sent_as_zip_holds uploaded)]
  decide +kernel

end PretextBuildServer.UnpackedTree
