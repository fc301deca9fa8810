import PretextBuildServer.Library.PosixUnlinked

/-!
# What the calls do to the files of a disk

Each call is told by the contents it leaves at every place. A call that puts an
entry somewhere is told for paths that no link stands on.
-/

namespace PosixDisk

set_option autoImplicit false

def Entry.content : Entry → Option Bytes
  | .file bytes => some bytes
  | _ => none

def Disk.fileAt (disk : Disk) (place : Place) : Option Bytes :=
  (disk.find place).bind Entry.content

section Files

variable {disk : Disk} {drive later : Drive} {place : Place} {path : Names} {bytes : Bytes}

theorem file_at_some : disk.fileAt place = some bytes ↔ disk.find place = some (.file bytes) := by
  rw [Disk.fileAt, Option.bind_eq_some_iff]
  constructor
  · rintro ⟨entry, found, content⟩
    cases entry with
    | file written =>
        cases content
        exact found
    | directory => cases content
    | link target => cases content
  · intro found
    exact ⟨.file bytes, found, rfl⟩

theorem file_at_none : disk.fileAt place = none ↔
    ∀ content, disk.find place ≠ some (.file content) := by
  rw [Option.eq_none_iff_forall_ne_some]
  exact forall_congr' fun content => not_congr file_at_some

theorem exist_of_file (plain : ∀ name ∈ place, isPlain name = true)
    (file : (disk.fileAt place).isSome = true) : disk.exist place = true := by
  obtain ⟨content, found⟩ := Option.isSome_iff_exists.mp file
  rw [file_at_some] at found
  cases place using List.reverseRecOn with
  | nil =>
      rw [find_root] at found
      cases found
  | append_singleton dir name =>
      rw [List.forall_mem_append, List.forall_mem_singleton] at plain
      have inside := parent_is_directory found
      have straight : disk.Straight [] (dir ++ [name]) := by
        rw [straight_append, List.nil_append]
        exact ⟨straight_to_directory plain.1 inside, plain.2, inside, by simp [found], trivial⟩
      rw [Disk.exist, stat_straight straight, found]
      rfl

/-- From one drive to the other, no file came to the place, and one that was
there was left alone. -/
def Drive.Spares (drive later : Drive) (place : Place) : Prop :=
  later.disk.fileAt place = drive.disk.fileAt place ∧
    ((drive.disk.fileAt place).isSome = true →
      ∃ fresh, later.changed = fresh ++ drive.changed ∧ place ∉ fresh)

theorem spares_refl : drive.Spares drive place := ⟨rfl, fun _ => ⟨[], rfl, by simp⟩⟩

theorem spares_one {other : Place} (apart : place ≠ other)
    (changed : later.changed = other :: drive.changed)
    (same : later.disk.fileAt place = drive.disk.fileAt place) : drive.Spares later place :=
  ⟨same, fun _ => ⟨[other], changed, by simpa using apart⟩⟩

/-! ### Directories -/

theorem make_dirs_spares (plain : ∀ name ∈ path, isPlain name = true) (place : Place) :
    drive.Spares (drive.makeDirs path).2 place := by
  cases exist : drive.disk.exist path with
  | true =>
      obtain ⟨refusal, made⟩ := make_dirs_exist exist
      rw [made]
      exact spares_refl
  | false =>
      rcases make_dirs_absent plain exist with barred | founded
      · obtain ⟨⟨refusal, refused⟩, -⟩ := barred
        rw [refused]
        exact spares_refl
      · obtain ⟨front, name, rest, real, later, -, foundation, makes, made, -⟩ := founded
        rw [makes]
        by_cases member : place ∈ chain real (name :: rest)
        · have free := chain_free foundation.missing member
          have none : drive.disk.fileAt place = none := by
            rw [Disk.fileAt, free]
            rfl
          refine ⟨?_, by simp [none]⟩
          rw [none, Disk.fileAt, made.found, if_pos member]
          rfl
        · refine ⟨?_, fun _ => ⟨_, made.listed, by simpa using member⟩⟩
          rw [Disk.fileAt, Disk.fileAt, made.found, if_neg member]

theorem rmdir_spares (drive : Drive) (path : Names) (place : Place) :
    drive.Spares (drive.rmdir path).2 place := by
  unfold Drive.rmdir
  split
  · exact spares_refl
  · rename_i dir spotted
    split
    · rename_i directory
      cases drop : drive.drop dir with
      | none => exact spares_refl
      | some later =>
          obtain ⟨onDisk, changed⟩ := drive_drop_some drop
          by_cases same : place = dir
          · have none : drive.disk.fileAt place = none := by
              rw [Disk.fileAt, same, directory]
              rfl
            refine ⟨?_, by simp [none]⟩
            rw [none]
            simp only [Drive.settle]
            rw [Disk.fileAt, find_drop onDisk, if_pos same]
            rfl
          · apply spares_one same changed
            rw [Disk.fileAt, Disk.fileAt, find_drop onDisk, if_neg same]
    · exact spares_refl

/-! ### Writing, moving and removing -/

theorem create_files (clear : drive.disk.Unlinked path) :
    drive.create path = (.error .failed, drive) ∨
    ∃ later, drive.create path = (.ok path, later) ∧ later.changed = path :: drive.changed ∧
      ∀ place, later.disk.fileAt place = if place = path then some [] else drive.disk.fileAt place := by
  rcases create_cases drive path with ⟨refused, -⟩ | ⟨place, later, located, -, put, opened⟩
  · exact .inl refused
  · rw [locate_unlinked clear, Option.ite_none_right_eq_some, Option.some.injEq] at located
    obtain ⟨-, rfl⟩ := located
    obtain ⟨onDisk, changed⟩ := drive_put_some put
    refine .inr ⟨later, opened, changed, ?_⟩
    intro place
    rw [Disk.fileAt, Disk.fileAt, find_put onDisk]
    split <;> rfl

theorem append_files (drive : Drive) (file : Place) (bytes : Bytes) :
    (∀ place, (drive.append file bytes).2.disk.fileAt place =
      if place = file then (drive.disk.fileAt file).map (· ++ bytes) else drive.disk.fileAt place) ∧
    ((drive.append file bytes).2 = drive ∨
      (drive.append file bytes).2.changed = file :: drive.changed) := by
  rcases append_cases drive file bytes with ⟨none, same⟩ | ⟨written, later, found, put, appended⟩
  · rw [same]
    refine ⟨?_, .inl rfl⟩
    intro place
    split
    · rename_i here
      rw [here, file_at_none.mpr none]
      rfl
    · rfl
  · rw [appended]
    obtain ⟨onDisk, changed⟩ := drive_put_some put
    refine ⟨?_, .inr changed⟩
    intro place
    rw [file_at_some.mpr found, Disk.fileAt, Disk.fileAt, find_put onDisk]
    split <;> rfl

theorem remove_files (drive : Drive) (path : Names) :
    drive.remove path = (.error .failed, drive) ∨
    ∃ place later, drive.disk.spot path = some place ∧ drive.remove path = (.ok (), later) ∧
      later.changed = place :: drive.changed ∧
      ∀ other, later.disk.fileAt other = if other = place then none else drive.disk.fileAt other := by
  rcases remove_cases drive path with ⟨refused, -⟩ | ⟨place, entry, later, spotted, -, -, drop, removed⟩
  · exact .inl refused
  · obtain ⟨onDisk, changed⟩ := drive_drop_some drop
    refine .inr ⟨place, later, spotted, removed, changed, ?_⟩
    intro other
    rw [Disk.fileAt, Disk.fileAt, find_drop onDisk]
    split <;> rfl

theorem replace_files {dir : Names} {source name : String}
    (clear : drive.disk.Unlinked (dir ++ [source])) (plain : isPlain name = true)
    (apart : source ≠ name) :
    drive.replace (dir ++ [source]) (dir ++ [name]) = (.error .failed, drive) ∨
    ∃ later content, drive.replace (dir ++ [source]) (dir ++ [name]) = (.ok (), later) ∧
      drive.disk.fileAt (dir ++ [source]) = some content ∧
      later.changed = (dir ++ [name]) :: (dir ++ [source]) :: drive.changed ∧
      ∀ other, later.disk.fileAt other =
        if other = dir ++ [name] then some content
        else if other = dir ++ [source] then none else drive.disk.fileAt other := by
  have above := unlinked_front clear
  have plainSource : isPlain source = true := clear.plain source (by simp)
  have different : dir ++ [source] ≠ dir ++ [name] := by simpa using apart
  by_cases inside : drive.disk.find dir = some .directory
  · have spotted : drive.disk.spot (dir ++ [source]) = some (dir ++ [source]) := by
      rw [spot_unlinked above plainSource, if_pos inside]
    have onto : drive.disk.spot (dir ++ [name]) = some (dir ++ [name]) := by
      rw [spot_unlinked above plain, if_pos inside]
    by_cases taken : drive.disk.find (dir ++ [name]) = some .directory
    · exact .inl (replace_onto_directory spotted onto taken)
    · cases found : drive.disk.find (dir ++ [source]) with
      | none => exact .inl (by simp only [Drive.replace, spotted, onto, found])
      | some entry =>
          cases entry with
          | directory => exact .inl (by simp only [Drive.replace, spotted, onto, found])
          | link target => exact absurd found (clear.unlinked _ List.prefix_rfl target)
          | file content =>
              obtain ⟨later, moved, changed, everywhere⟩ :=
                replace_moves spotted onto found (by simp) taken different
              refine .inr ⟨later, content, moved, file_at_some.mpr found, changed, ?_⟩
              intro other
              rw [Disk.fileAt, Disk.fileAt, everywhere]
              split
              · rfl
              · split <;> rfl
  · have lost : drive.disk.spot (dir ++ [source]) = none := by
      rw [spot_unlinked above plainSource, if_neg inside]
    exact .inl (by simp only [Drive.replace, lost])

end Files

/-! ### A new file -/

section Fresh

variable {drive later : Drive} {dir : Names} {name tmp : String} {bytes : Bytes}

theorem create_free (clear : drive.disk.Unlinked (dir ++ [tmp]))
    (inside : drive.disk.find dir = some .directory)
    (free : drive.disk.find (dir ++ [tmp]) = none) :
    ∃ later, drive.create (dir ++ [tmp]) = (.ok (dir ++ [tmp]), later) ∧
      drive.disk.put (dir ++ [tmp]) (.file []) = some later.disk := by
  have above : drive.disk.find (dir ++ [tmp]).dropLast = some .directory := by
    rwa [List.dropLast_concat]
  obtain ⟨later, put⟩ := @drive_put_free drive _ (.file []) above (by simp [free])
  refine ⟨later, ?_, (drive_put_some put).1⟩
  have located : drive.disk.locate (dir ++ [tmp]) = some (dir ++ [tmp]) := by
    rw [locate_unlinked clear, if_pos above]
  simp only [Drive.create, located, put, Drive.settle]

theorem append_first {place : Place} (empty : drive.disk.find place = some (.file []))
    (bytes : Bytes) :
    ∃ later, drive.append place bytes = (.ok (), later) ∧
      drive.disk.put place (.file bytes) = some later.disk := by
  rcases append_cases drive place bytes with ⟨none, -⟩ | ⟨old, later, same, put, answer⟩
  · exact absurd empty (none [])
  · rw [empty, Option.some.injEq, Entry.file.injEq] at same
    rw [← same, List.nil_append] at put
    exact ⟨later, answer, (drive_put_some put).1⟩

theorem replace_free (clear : drive.disk.Unlinked dir) (plain : isPlain name = true)
    (plainTmp : isPlain tmp = true) (apart : tmp ≠ name)
    (file : drive.disk.find (dir ++ [tmp]) = some (.file bytes))
    (free : drive.disk.find (dir ++ [name]) = none) :
    ∃ later, drive.replace (dir ++ [tmp]) (dir ++ [name]) = (.ok (), later) ∧
      (∀ place, later.disk.find place =
        if place = dir ++ [name] then some (.file bytes)
        else if place = dir ++ [tmp] then none else drive.disk.find place) ∧
      drive.disk.ChangesOnly (fun place => place = dir ++ [tmp] ∨ place = dir ++ [name]) later.disk := by
  have inside := parent_is_directory file
  have spotted : drive.disk.spot (dir ++ [tmp]) = some (dir ++ [tmp]) := by
    rw [spot_unlinked clear plainTmp, if_pos inside]
  have onto : drive.disk.spot (dir ++ [name]) = some (dir ++ [name]) := by
    rw [spot_unlinked clear plain, if_pos inside]
  have different : dir ++ [tmp] ≠ dir ++ [name] := by simpa using apart
  obtain ⟨dropped, drop⟩ := @drop_some drive.disk (dir ++ [tmp]) (by simp) (by simp [file])
  have still : dropped.find (dir ++ [name]).dropLast = some .directory := by
    rw [List.dropLast_concat, find_drop drop, if_neg, inside]
    intro same
    have lengths := congrArg List.length same
    simp at lengths
  have stillFree : dropped.find (dir ++ [name]) ≠ some .directory := by
    rw [find_drop drop, if_neg (Ne.symm different), free]
    simp
  obtain ⟨last, put⟩ := @put_some _ _ (.file bytes) still stillFree
  refine ⟨⟨last, (dir ++ [name]) :: (dir ++ [tmp]) :: drive.changed⟩, ?_, ?_, ?_⟩
  · have notDirectory : drive.disk.find (dir ++ [name]) ≠ some .directory := by simp [free]
    have moved : ((drive.drop (dir ++ [tmp])).bind fun later => later.put (dir ++ [name]) (.file bytes)) =
        some ⟨last, (dir ++ [name]) :: (dir ++ [tmp]) :: drive.changed⟩ := by
      rw [Drive.drop, drop, Option.map_some, Option.bind_some, Drive.put, put, Option.map_some]
    simp only [Drive.replace, spotted, onto, file, if_neg notDirectory, if_neg different, moved,
      Drive.settle]
  · intro place
    rw [find_put put, find_drop drop]
  · apply changes_only_trans (changes_only_mono _ (drop_changes_only drop))
      (changes_only_mono _ (put_changes_only put))
    · exact fun place same => .inl same
    · exact fun place same => .inr same

/-- What the three calls come to: the file under its name, and nothing else. -/
theorem stored_fresh (clear : drive.disk.Unlinked dir)
    (inside : drive.disk.find dir = some .directory)
    (plain : isPlain name = true) (plainTmp : isPlain tmp = true) (apart : tmp ≠ name)
    (free : drive.disk.find (dir ++ [name]) = none)
    (freeTmp : drive.disk.find (dir ++ [tmp]) = none) (bytes : Bytes) :
    ∃ opened written later, drive.create (dir ++ [tmp]) = (.ok (dir ++ [tmp]), opened) ∧
      opened.append (dir ++ [tmp]) bytes = (.ok (), written) ∧
      written.replace (dir ++ [tmp]) (dir ++ [name]) = (.ok (), later) ∧
      (∀ place, later.disk.find place =
        if place = dir ++ [name] then some (.file bytes) else drive.disk.find place) ∧
      drive.disk.ChangesOnly (fun place => ∃ name, place = dir ++ [name]) later.disk := by
  have clearTmp : drive.disk.Unlinked (dir ++ [tmp]) :=
    unlinked_concat clear plainTmp (by simp [freeTmp])
  obtain ⟨opened, created, empty⟩ := create_free clearTmp inside freeTmp
  obtain ⟨written, appended, filled⟩ :=
    @append_first opened (dir ++ [tmp]) (by rw [find_put empty, if_pos rfl]) bytes
  have found : ∀ place, written.disk.find place =
      if place = dir ++ [tmp] then some (.file bytes) else drive.disk.find place := by
    intro place
    rw [find_put filled, find_put empty]
    split <;> rfl
  have clearWritten : written.disk.Unlinked dir := by
    refine ⟨clear.plain, ?_⟩
    intro front within target link
    rw [found] at link
    split at link
    · cases link
    · exact clear.unlinked front within target link
  have different : dir ++ [name] ≠ dir ++ [tmp] := by simpa using Ne.symm apart
  obtain ⟨later, replaced, finds, only⟩ := @replace_free written dir name tmp bytes clearWritten plain
    plainTmp apart (by rw [found, if_pos rfl]) (by rw [found, if_neg different, free])
  refine ⟨opened, written, later, created, appended, replaced, ?_, ?_⟩
  · intro place
    rw [finds, found]
    split
    · rfl
    · split
      · rename_i same
        rw [same, freeTmp]
      · rfl
  · apply changes_only_trans _ (changes_only_mono _ only)
    · apply changes_only_trans (changes_only_mono _ (put_changes_only empty))
        (changes_only_mono _ (put_changes_only filled))
      · exact fun place same => ⟨tmp, same⟩
      · exact fun place same => ⟨tmp, same⟩
    · rintro place (same | same)
      · exact ⟨tmp, same⟩
      · exact ⟨name, same⟩

end Fresh

end PosixDisk
