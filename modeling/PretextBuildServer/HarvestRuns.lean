import PretextBuildServer.AssetCache

/-!
# What the parts of a harvest do to a disk

The looks leave the disk alone and are answered from it; `promote` is four calls
that go wrong in a few ways.
-/

namespace PretextBuildServer.HarvestRuns

open EffectProgram EffectProgram.Program PosixDisk
open PretextBuildServer.ServerSettings PretextBuildServer.JobCalls
open PretextBuildServer.NameValidators PretextBuildServer.DiskCalls PretextBuildServer.AssetCache

set_option autoImplicit false

variable {world : DiskWorld}

/-! ## Looking -/

/-- The calls that change no drive. -/
def DiskCall.looks : DiskCall → Bool
  | .makedirs _ | .openWrite _ | .write .. | .replace .. | .remove _ | .rmdir _ => false
  | _ => true

theorem look_keeps_drive (world : DiskWorld) {request : DiskCall}
    (looks : DiskCall.looks request = true) :
    (onDisk world request).2.drive = world.drive := by
  cases request <;> simp only [DiskCall.looks, Bool.false_eq_true] at looks <;>
    simp only [onDisk] <;> split <;> rfl

theorem on_disk_leads (world : DiskWorld) (request : DiskCall) :
    world.drive.Leads (onDisk world request).2.drive := by
  cases looks : DiskCall.looks request with
  | true =>
      rw [look_keeps_drive world looks]
      exact leads_refl _
  | false =>
      cases request <;> simp only [DiskCall.looks, Bool.true_eq_false] at looks
      case makedirs path => exact make_dirs_leads _ path
      case openWrite path => exact create_leads _ path
      case write file chunk => exact append_leads _ file chunk
      case replace source target => exact replace_leads _ source target
      case remove path => exact remove_leads _ path
      case rmdir path => exact rmdir_leads _ path

@[simp] theorem run_is_real_file (path : Path) :
    run onDisk world (isRealFile path) =
      (.ok (!world.drive.disk.isLink path && world.drive.disk.isFile path), world) := by
  rw [isRealFile, bind_is_and_then, run_and_then, run_perform]
  simp only [onDisk, on_value_ok]
  cases world.drive.disk.isLink path <;> rfl

@[simp] theorem run_is_real_dir (path : Path) :
    run onDisk world (isRealDir path) =
      (.ok (world.drive.disk.isDir path && !world.drive.disk.isLink path), world) := by
  rw [isRealDir, bind_is_and_then, run_and_then, run_perform]
  simp only [onDisk, on_value_ok]
  cases world.drive.disk.isDir path <;> rfl

@[simp] theorem run_is_not_link (path : Path) :
    run onDisk world ((! ·) <$> diskCall (.isLink path)) = (.ok (!world.drive.disk.isLink path), world) := by
  rfl

@[simp] theorem run_is_plain_subdir (dir : Path) (name : String) :
    run onDisk world (isPlainSubdir dir name) =
      (.ok (matchesSubdirName name.toList && !world.drive.disk.isLink (dir ++ [name])), world) := by
  unfold isPlainSubdir
  cases matchesSubdirName name.toList <;> rfl

/-! ## Names -/

theorem starts_before_newline {text rest : List Char} {first : Char}
    (starts : beforeFinalNewline text = first :: rest) : ∃ more, text = first :: more := by
  unfold beforeFinalNewline at starts
  split at starts
  · obtain ⟨more, same⟩ := List.dropLast_prefix text
    rw [starts] at same
    exact ⟨rest ++ more, same.symm⟩
  · exact ⟨rest, starts⟩

theorem plain_of_first {name : String} {first : Char} {more : List Char}
    (starts : name.toList = first :: more) (noDot : first ≠ '.') : isPlain name = true := by
  rw [isPlain, Bool.and_eq_true, bne_iff_ne, bne_iff_ne]
  constructor
  · rintro rfl
    exact noDot (List.cons.inj starts).1.symm
  · rintro rfl
    exact noDot (List.cons.inj starts).1.symm

theorem project_id_starts {projectId : String}
    (valid : matchesProjectId projectId.toList = true) :
    ∃ first more, projectId.toList = first :: more ∧ first ≠ '.' := by
  unfold matchesProjectId at valid
  split at valid
  · cases valid
  · rename_i first rest starts
    obtain ⟨more, same⟩ := starts_before_newline starts
    refine ⟨first, more, same, ?_⟩
    rintro rfl
    revert valid
    simp [show isAlnum '.' = false by decide]

theorem subdir_plain {name : String} (valid : matchesSubdirName name.toList = true) :
    isPlain name = true := by
  unfold matchesSubdirName at valid
  split at valid
  · cases valid
  · rename_i first rest starts
    obtain ⟨more, same⟩ := starts_before_newline starts
    apply plain_of_first same
    rintro rfl
    revert valid
    simp [show isAlnum '.' = false by decide]

theorem cache_filename_plain {name : String} (valid : matchesCacheFilename name.toList = true) :
    isPlain name = true := by
  unfold matchesCacheFilename at valid
  simp only [Bool.and_eq_true] at valid
  obtain ⟨⟨-, digits⟩, tail⟩ := valid
  cases starts : beforeFinalNewline name.toList with
  | nil =>
      rw [starts] at tail
      cases tail
  | cons first rest =>
      obtain ⟨more, same⟩ := starts_before_newline starts
      apply plain_of_first same
      rintro rfl
      rw [starts, List.all_eq_true] at digits
      exact absurd (digits '.' (by simp)) (by decide)

theorem subdir_undotted {name : String} (valid : matchesSubdirName name.toList = true) :
    '.' ∉ beforeFinalNewline name.toList := by
  unfold matchesSubdirName at valid
  split at valid
  · cases valid
  · rename_i first rest starts
    rw [Bool.and_eq_true, List.all_eq_true] at valid
    rw [starts, List.mem_cons]
    rintro (rfl | member)
    · exact absurd valid.1 (by decide)
    · exact absurd (valid.2 '.' member) (by decide)

theorem cache_filename_dotted {name : String} (cached : matchesCacheFilename name.toList = true) :
    '.' ∈ beforeFinalNewline name.toList := by
  simp only [matchesCacheFilename, Bool.and_eq_true] at cached
  obtain ⟨-, tail⟩ := cached
  have dotted : '.' ∈ afterAnnotations ((beforeFinalNewline name.toList).drop 32) := by
    revert tail
    split
    · rename_i extension dot
      intro _
      rw [dot]
      exact List.mem_cons_self
    · intro tail
      cases tail
  apply List.mem_of_mem_drop (i := 32)
  unfold afterAnnotations at dotted
  split at dotted
  · exact List.mem_of_mem_drop dotted
  · exact dotted

/-- The name of a cache file has a dot in it, that of a directory below has none. -/
theorem subdir_uncached {name : String} (valid : matchesSubdirName name.toList = true) :
    matchesCacheFilename name.toList = false := by
  rw [Bool.eq_false_iff]
  exact fun cached => subdir_undotted valid (cache_filename_dotted cached)

theorem temp_name_text (name : String) (pid timeNs : Nat) :
    ∃ tail, (tempName name pid timeNs).toList = '.' :: (name.toList ++ '.' :: 't' :: tail) := by
  have stamp : tempName name pid timeNs =
      "." ++ name ++ ".tmp-" ++ toString pid ++ "-" ++ toString timeNs := rfl
  rw [stamp]
  simp only [String.toList_append, List.append_assoc]
  exact ⟨"mp-".toList ++ ((toString pid).toList ++ ("-".toList ++ (toString timeNs).toList)), rfl⟩

theorem temp_name_plain (name : String) (pid timeNs : Nat) :
    isPlain (tempName name pid timeNs) = true := by
  obtain ⟨tail, text⟩ := temp_name_text name pid timeNs
  have long : 2 < (tempName name pid timeNs).toList.length := by
    rw [text]
    simp
    omega
  rw [isPlain, Bool.and_eq_true, bne_iff_ne, bne_iff_ne]
  constructor <;> intro same <;> rw [same] at long <;> revert long <;> decide

theorem temp_name_apart (name : String) (pid timeNs : Nat) : tempName name pid timeNs ≠ name := by
  obtain ⟨tail, text⟩ := temp_name_text name pid timeNs
  intro same
  have lengths := congrArg List.length text
  rw [same] at lengths
  simp at lengths
  omega

/-- A temporary name starts with a dot, the name of a cache file does not. -/
theorem temp_name_uncached (name : String) (pid timeNs : Nat) :
    matchesCacheFilename (tempName name pid timeNs).toList = false := by
  obtain ⟨tail, text⟩ := temp_name_text name pid timeNs
  rw [Bool.eq_false_iff]
  intro cached
  simp only [matchesCacheFilename, Bool.and_eq_true] at cached
  obtain ⟨⟨long, digits⟩, -⟩ := cached
  have dotted : ∃ more, beforeFinalNewline (tempName name pid timeNs).toList = '.' :: more := by
    rw [text]
    unfold beforeFinalNewline
    split
    · exact ⟨_, List.dropLast_cons_of_ne_nil (by simp)⟩
    · exact ⟨_, rfl⟩
  obtain ⟨more, starts⟩ := dotted
  rw [starts, List.all_eq_true] at digits
  exact absurd (digits '.' (by simp)) (by decide)

theorem dash_not_in_digits (n : Nat) : '-' ∉ (toString n).toList := by
  intro member
  have digit := Nat.isDigit_of_mem_toDigits (by decide) (by decide) (Nat.toList_repr ▸ member)
  exact absurd digit (by decide)

theorem last_dash {front other back tail : List Char}
    (same : front ++ '-' :: back = other ++ '-' :: tail)
    (none : '-' ∉ back) (noneToo : '-' ∉ tail) : front = other ∧ back = tail := by
  rcases List.append_eq_append_iff.mp same with ⟨middle, longer, rest⟩ | ⟨middle, longer, rest⟩
  · cases middle with
    | nil => exact ⟨by rw [longer, List.append_nil], (List.cons.inj rest).2⟩
    | cons c middle =>
        have shorter := (List.cons.inj rest).2
        exact absurd (by rw [shorter]; simp) none
  · cases middle with
    | nil => exact ⟨by rw [longer, List.append_nil], (List.cons.inj rest).2.symm⟩
    | cons c middle =>
        have shorter := (List.cons.inj rest).2
        exact absurd (by rw [shorter]; simp) noneToo

theorem number_text_injective {n m : Nat}
    (same : (toString n).toList = (toString m).toList) : n = m := by
  have digits : Nat.toDigits 10 n = Nat.toDigits 10 m := by
    rw [← Nat.toList_repr, ← Nat.toList_repr]
    exact same
  rw [← @Nat.ofDigitChars_ten_toDigits n, digits, Nat.ofDigitChars_ten_toDigits]

theorem temp_name_tells {name other : String} {pid timeNs pid' timeNs' : Nat}
    (same : tempName name pid timeNs = tempName other pid' timeNs') :
    pid = pid' ∧ timeNs = timeNs' := by
  have text : ∀ (name : String) (pid timeNs : Nat), (tempName name pid timeNs).toList =
      ('.' :: name.toList ++ ".tmp".toList ++ '-' :: (toString pid).toList) ++
        '-' :: (toString timeNs).toList := by
    intro name pid timeNs
    have stamp : tempName name pid timeNs =
        "." ++ name ++ ".tmp-" ++ toString pid ++ "-" ++ toString timeNs := rfl
    rw [stamp]
    simp only [String.toList_append, String.reduceToList, List.append_assoc, List.cons_append,
      List.nil_append]
  have lists := congrArg String.toList same
  rw [text, text] at lists
  obtain ⟨front, stamps⟩ := last_dash lists (dash_not_in_digits _) (dash_not_in_digits _)
  obtain ⟨-, pids⟩ := last_dash front (dash_not_in_digits _) (dash_not_in_digits _)
  exact ⟨number_text_injective pids, number_text_injective stamps⟩

/-! ## Storing one file -/

theorem run_discard_temp (tmp : Path) :
    run onDisk world (discardTemp tmp) =
      (.ok (), { world with drive := (world.drive.remove tmp).2 }) := by
  rw [discardTemp, rescue, run_and_then, run_perform]
  simp only [onDisk, DiskWorld.lift]
  rcases remove_cases world.drive tmp with ⟨refused, -⟩ | ⟨_, _, later, -, -, -, -, removed⟩
  · rw [refused]
    rfl
  · rw [removed]
    rfl

/-! ### The calls it is made of -/

section Calls

variable {allowed : DiskCall → Prop}

theorem transfer_makes_only {src dst : Path} (read : allowed (.readFile src))
    (opens : allowed (.openWrite dst)) (writes : ∀ file block, allowed (.write file block)) :
    MakesOnly allowed (transfer src dst) := by
  refine ⟨read, fun reply => ?_⟩
  cases reply with
  | error raised => trivial
  | ok blocks =>
      refine ⟨opens, fun reply => ?_⟩
      cases reply with
      | error raised => trivial
      | ok file => exact makes_only_for _ blocks fun block => ⟨writes file block, fun _ => trivial⟩

theorem abandon_makes_only {tmp : Path} (removes : allowed (.remove tmp)) (raised : Raised) :
    MakesOnly allowed (abandon tmp raised) := by
  unfold abandon
  split
  · refine ⟨removes, fun reply => ?_⟩
    cases reply with
    | ok value => trivial
    | error raised =>
        simp only [done_and_then, on_failure_error]
        split <;> trivial
  · trivial

theorem real_file_makes_only {path : Path} (link : allowed (.isLink path))
    (file : allowed (.isFile path)) : MakesOnly allowed (isRealFile path) := by
  refine ⟨link, fun reply => ?_⟩
  rcases reply with raised | _ | _
  · trivial
  · exact ⟨file, fun _ => trivial⟩
  · trivial

theorem not_link_makes_only {path : Path} (link : allowed (.isLink path)) :
    MakesOnly allowed ((! ·) <$> diskCall (.isLink path)) := by
  refine ⟨link, fun reply => ?_⟩
  cases reply <;> trivial

theorem real_dir_makes_only {path : Path} (directory : allowed (.isDir path))
    (link : allowed (.isLink path)) : MakesOnly allowed (isRealDir path) := by
  refine ⟨directory, fun reply => ?_⟩
  rcases reply with raised | _ | _
  · trivial
  · trivial
  · exact not_link_makes_only link

theorem plain_subdir_makes_only {dir : Path} {name : String}
    (link : allowed (.isLink (dir ++ [name]))) : MakesOnly allowed (isPlainSubdir dir name) := by
  unfold isPlainSubdir
  split
  · exact not_link_makes_only link
  · trivial

end Calls

theorem source_stays {path src : Path} {bytes : Bytes} (plain : ∀ name ∈ path, isPlain name = true)
    (source : world.drive.disk.stat src = some (.file bytes)) :
    (world.drive.makeDirs path).2.disk.stat src = some (.file bytes) := by
  rw [Disk.stat, Option.bind_eq_some_iff] at source
  obtain ⟨place, located, found⟩ := source
  obtain ⟨steady, kept⟩ := @make_dirs_keeps world.drive path plain
  rw [Disk.stat, locate_steady steady located, Option.bind_some]
  exact kept place _ found

/-- Moving the temporary file into place, or removing it if that fails. -/
def moveOrRemove (drive : Drive) (tmp dest : Path) : Bool × Drive :=
  match drive.replace tmp dest with
  | (.ok _, last) => (true, last)
  | (.error _, last) => (false, (last.remove tmp).2)

/-- `promote` on a drive: `same` tells whether the temporary name leads to the
source, `bytes` what the source holds. -/
def promoteOn (drive : Drive) (same : Bool) (bytes : Bytes) (tmp dest : Path) : Bool × Drive :=
  if same then (false, (drive.remove tmp).2)
  else match drive.create tmp with
    | (.error _, later) => (false, (later.remove tmp).2)
    | (.ok file, later) => moveOrRemove (later.append file bytes).2 tmp dest

theorem append_goes_through (drive : Drive) (file : Place) (bytes : Bytes) :
    (drive.append file bytes).1 = .ok () := by
  rcases append_cases drive file bytes with ⟨-, answer⟩ | ⟨_, _, -, -, answer⟩ <;> rw [answer]

theorem raised_is_os_error (refusal : Refusal) : (raisedBy refusal).isOSError = true := by
  cases refusal <;> rfl

theorem run_copyfile {src tmp : Path} {bytes : Bytes}
    (source : world.drive.disk.stat src = some (.file bytes)) :
    ∃ raised : Raised, raised.isOSError = true ∧
    run onDisk world (copyfile src tmp) =
      if world.sameFile src tmp then (.error raised, world)
      else match world.drive.create tmp with
        | (.error _, later) => (.error raised, { world with drive := later })
        | (.ok file, later) => (.ok (), { world with drive := (later.append file bytes).2 }) := by
  rw [copyfile, bind_is_and_then, run_and_then, run_perform]
  simp only [onDisk, on_value_ok]
  cases same : world.sameFile src tmp with
  | true => exact ⟨_, rfl, rfl⟩
  | false =>
      simp only [Bool.false_eq_true, if_false, transfer, bind_is_and_then, run_and_then,
        run_perform, onDisk, source, on_value_ok, DiskWorld.lift]
      cases created : world.drive.create tmp with
      | mk answer later =>
          cases answer with
          | error refusal => exact ⟨raisedBy refusal, raised_is_os_error refusal, rfl⟩
          | ok file =>
              refine ⟨raisedBy .failed, rfl, ?_⟩
              simp only [Except.mapError, on_value_ok, List.forM_eq_forM, List.forM_cons, List.forM_nil,
                bind_is_and_then, run_and_then, run_perform, onDisk, DiskWorld.lift,
                append_goes_through, pure_is_done, run_done]

theorem run_promote {src tmp dest : Path} {bytes : Bytes}
    (source : world.drive.disk.stat src = some (.file bytes)) :
    run onDisk world (promote src tmp dest) =
      let promoted := promoteOn world.drive (world.sameFile src tmp) bytes tmp dest
      (.ok promoted.1, { world with drive := promoted.2 }) := by
  have cleaned : ∀ (raised : Raised) (drive : Drive), raised.isOSError = true →
      run onDisk { world with drive } (abandon tmp raised) =
        (.ok false, { world with drive := (drive.remove tmp).2 }) := by
    intro raised drive error
    rw [abandon, if_pos error, bind_is_and_then, run_and_then, run_discard_temp]
    rfl
  obtain ⟨raised, error, copied⟩ := @run_copyfile world src tmp bytes source
  rw [promote, rescue, run_and_then, bind_is_and_then, run_and_then, copied]
  unfold promoteOn
  cases same : world.sameFile src tmp with
  | true => exact cleaned raised world.drive error
  | false =>
      simp only [Bool.false_eq_true, if_false]
      cases created : world.drive.create tmp with
      | mk answer later =>
          cases answer with
          | error refusal => exact cleaned raised later error
          | ok file =>
              simp only [on_value_ok, bind_is_and_then, run_and_then, run_perform, onDisk,
                DiskWorld.lift, moveOrRemove]
              cases moved : (later.append file bytes).2.replace tmp dest with
              | mk answer last =>
                  cases answer with
                  | error refusal => exact cleaned _ last (raised_is_os_error refusal)
                  | ok _ => rfl

end PretextBuildServer.HarvestRuns
