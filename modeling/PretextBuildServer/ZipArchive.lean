import PretextBuildServer.Library.PosixWalks
import PretextBuildServer.OutcomeCoherence
import PretextBuildServer.TreeWalks
import PretextBuildServer.ZipCalls

/-!
# What goes into the archive

`_zip_dir` on a disk that does not fail. The archive is the list of its members;
each is a real file of the tree, under its path from the root of the tree. It
holds all of them exactly if the kernel takes their paths and the format their
dates.
-/

namespace PretextBuildServer.ZipArchive

open EffectProgram EffectProgram.Program PosixDisk
open PretextBuildServer.ServerSettings PretextBuildServer.JobCalls
open PretextBuildServer.DiskCalls PretextBuildServer.ZipCalls PretextBuildServer.HarvestRuns
open PretextBuildServer.OutcomeCoherence PretextBuildServer.PathTexts
open PretextBuildServer.TreeWalks

set_option autoImplicit false

structure Member where
  name : String
  bytes : Bytes
  deriving DecidableEq

/-- One file the walk comes upon. -/
def zipFile (srcDir : Path) (skipTopLevelDotfiles : Bool) (parts : List String)
    (members : List Member) (name : String) : ZipProgram (List Member) :=
  if skipTopLevelDotfiles && parts.isEmpty && name.toList.head? == some '.' then return members
  else do
    let full := srcDir ++ parts ++ [name]
    if ← zipCall (.isLink full) then return members
    else
      let bytes ← zipCall (.write full)
      return members ++ [{ name := "/".intercalate (parts ++ [name]), bytes }]

/-- `os.walk` from one directory on, with the body of the loop over it. A
directory that cannot be listed is passed over. -/
def zipWalk (srcDir : Path) (skipTopLevelDotfiles : Bool) : Nat → List String → List Member →
    ZipProgram (List Member)
  | 0, _, members => return members
  | depth + 1, parts, members =>
      let dir := srcDir ++ parts
      (zipCall (.scandir dir)).andThen fun
        | .error (raised : Raised) => if raised.isOSError then return members else raise raised
        | .ok (entries : List DirEntry) => do
            let dirs := (entries.filter (·.isDir)).map (·.name)
            let files := (entries.filter fun entry => !entry.isDir).map (·.name)
            let members ← files.foldlM (zipFile srcDir skipTopLevelDotfiles parts) members
            let walked ← select (fun d => (! ·) <$> zipCall (.isLink (dir ++ [d]))) dirs
            walked.foldlM
              (fun members d => zipWalk srcDir skipTopLevelDotfiles depth (parts ++ [d]) members)
              members

/-- The archive, and the archived paths, relative and sorted. -/
def zipDir (depth : Nat) (srcDir : Path) (skipTopLevelDotfiles : Bool) :
    ZipProgram (List Member × List String) := do
  let members ← zipWalk srcDir skipTopLevelDotfiles depth [] []
  return (members, sortedNames (members.map Member.name))

/-! ## What the walk is told -/

section Told

variable {world : DiskWorld} {srcDir : Path} {root : Place} {parts : List String}

/-- A listed name, as the walk is told of it. -/
def seen (world : DiskWorld) (srcDir : Path) (root : Place) (parts : List String)
    (name : String) : DirEntry :=
  seenBy (srcDir ++ parts) (world.describe (root ++ parts) name)

theorem seen_directory {name : String}
    (found : world.drive.disk.find (root ++ parts ++ [name]) = some .directory) :
    (seen world srcDir root parts name).isDir = true := by
  have real : (world.describe (root ++ parts) name).isRealDir = true := decide_eq_true found
  rw [seen, seenBy, real, Bool.true_or]

theorem seen_other {name : String}
    (found : world.drive.disk.find (root ++ parts ++ [name]) ≠ some .directory) :
    (seen world srcDir root parts name).isDir =
      (world.drive.disk.isDir (root ++ parts ++ [name]) &&
        fits (srcDir ++ parts ++ [name])) := by
  have real : (world.describe (root ++ parts) name).isRealDir = false := decide_eq_false found
  rw [seen, seenBy, real, Bool.false_or]
  rfl

theorem seen_file (valid : ValidNames world.drive.disk) {name : String} {bytes : Bytes}
    (found : world.drive.disk.find (root ++ parts ++ [name]) = some (.file bytes)) :
    (seen world srcDir root parts name).isDir = false := by
  rw [seen_other (by rw [found]; simp), Disk.isDir, stat_standing valid found (by simp)]
  rfl

end Told

/-! ## The files of a tree -/

/-- A file of the tree at `root`, by its names below it, that is not left out. -/
structure OutputFile (disk : Disk) (root : Place) (skip : Bool) (parts : List String)
    (bytes : Bytes) : Prop where
  found : disk.find (root ++ parts) = some (.file bytes)
  kept : ∀ name, parts = [name] → skip = true → name.toList.head? ≠ some '.'

/-- A dotfile at the top of the tree. -/
def isLeftOut (skip : Bool) (parts : List String) (name : String) : Bool :=
  skip && parts.isEmpty && name.toList.head? == some '.'

/-- The file under a name in a directory of the tree, unless it is left out. -/
def fileUnder (disk : Disk) (root : Place) (skip : Bool) (parts : List String) (name : String) :
    Option (List String × Bytes) :=
  if isLeftOut skip parts name then none
  else (disk.fileAt (root ++ parts ++ [name])).map fun bytes => (parts ++ [name], bytes)

/-- The files the walk comes upon from one directory on, in its order. -/
def walkFiles (disk : Disk) (root : Place) (skip : Bool) : Nat → List String →
    List (List String × Bytes)
  | 0, _ => []
  | depth + 1, parts =>
      (disk.names (root ++ parts)).filterMap (fileUnder disk root skip parts) ++
        (realSubdirs disk (root ++ parts)).flatMap fun d =>
          walkFiles disk root skip depth (parts ++ [d])

def memberOf (file : List String × Bytes) : Member where
  name := "/".intercalate file.1
  bytes := file.2

section Files

variable {disk : Disk} {root : Place} {skip : Bool} {parts : List String}

theorem kept_iff (name : String) :
    (∀ other, parts ++ [name] = [other] → skip = true → other.toList.head? ≠ some '.') ↔
      isLeftOut skip parts name = false := by
  cases parts with
  | nil => cases skip <;> simp [isLeftOut]
  | cons first parts => simp [isLeftOut]

theorem file_under_eq (name : String) : fileUnder disk root skip parts name =
    disk.taken root (fun parts name => !isLeftOut skip parts name) parts name := by
  unfold fileUnder Disk.taken
  cases leftOut : isLeftOut skip parts name <;> simp [leftOut]

theorem mem_file_under {name : String} {file : List String × Bytes} :
    file ∈ fileUnder disk root skip parts name ↔
      file.1 = parts ++ [name] ∧ OutputFile disk root skip file.1 file.2 := by
  rw [file_under_eq, mem_taken, Bool.not_eq_true', ← kept_iff]
  constructor
  · rintro ⟨same, kept, found⟩
    exact ⟨same, found, same ▸ kept⟩
  · rintro ⟨same, found, kept⟩
    exact ⟨same, same ▸ kept, found⟩

theorem walk_files_eq (depth : Nat) : walkFiles disk root skip depth parts =
    disk.walked root (fun parts name => !isLeftOut skip parts name) (fun _ => true) depth parts := by
  induction depth generalizing parts with
  | zero => rfl
  | succ depth induction =>
      have entered : realSubdirs disk (root ++ parts) = disk.entered (fun _ => true) (root ++ parts) := by
        simp [realSubdirs, Disk.entered]
      simp only [walkFiles, Disk.walked, induction, entered, funext file_under_eq]

/-- The walk comes upon the files of the tree down to its depth. -/
theorem mem_walk_files (depth : Nat) {file : List String × Bytes} :
    file ∈ walkFiles disk root skip depth parts ↔
      ∃ more, more ≠ [] ∧ more.length ≤ depth ∧ file.1 = parts ++ more ∧
        OutputFile disk root skip file.1 file.2 := by
  rw [walk_files_eq, mem_walked]
  constructor
  · rintro ⟨dirs, name, short, -, same, kept, found⟩
    refine ⟨dirs ++ [name], by simp, by simpa [Nat.succ_le_iff] using short, by rw [same, List.append_assoc], found, ?_⟩
    rw [Bool.not_eq_true', ← kept_iff] at kept
    exact same ▸ kept
  · rintro ⟨more, some, short, same, found, kept⟩
    cases more using List.reverseRecOn with
    | nil => exact absurd rfl some
    | append_singleton dirs name =>
        rw [← List.append_assoc] at same
        refine ⟨dirs, name, by simpa [Nat.succ_le_iff] using short, by simp, same, ?_, found⟩
        rw [Bool.not_eq_true', ← kept_iff]
        exact same ▸ kept

theorem walk_files_nodup (depth : Nat) :
    ((walkFiles disk root skip depth parts).map Prod.fst).Nodup := by
  rw [walk_files_eq]
  exact walked_nodup depth

end Files

/-! ## The walk through a tree -/

/-- The kernel takes the path of every file that goes into the archive, and the
format its date. A link whose path is not taken would not be told from a file. -/
structure Packable (localYear : Int → Int) (world : DiskWorld) (srcDir : Path) (root : Place)
    (skip : Bool) : Prop where
  files : ∀ parts bytes, OutputFile world.drive.disk root skip parts bytes →
    fits (srcDir ++ parts) = true ∧ inZipYears localYear (world.lastUse (root ++ parts)) = true
  links : ∀ parts name target,
    world.drive.disk.find (root ++ parts ++ [name]) = some (.link target) →
    fits (srcDir ++ parts) = true → isLeftOut skip parts name = false →
    fits (srcDir ++ parts ++ [name]) = true

section Runs

variable {localYear : Int → Int} {world : DiskWorld} {srcDir : Path} {root : Place}
  {parts : List String} {skip : Bool}

theorem zip_file_runs (valid : ValidNames world.drive.disk)
    (packable : Packable localYear world srcDir root skip)
    (down : Down world.drive.disk srcDir root parts) (near : fits (srcDir ++ parts) = true)
    {name : String} (listed : name ∈ world.drive.disk.names (root ++ parts))
    (file : (seen world srcDir root parts name).isDir = false) (members : List Member) :
    run (onTree localYear) world (zipFile srcDir skip parts members name) =
      (.ok (members ++ (fileUnder world.drive.disk root skip parts name).toList.map memberOf), world) := by
  unfold zipFile fileUnder isLeftOut
  split
  · simp
  · rename_i kept
    replace kept : isLeftOut skip parts name = false := Bool.eq_false_iff.mpr kept
    obtain ⟨named, cases⟩ := listed_cases valid down listed
    simp only [bind_is_and_then, run_and_then, run_perform, onTree, on_value_ok]
    rcases cases with ⟨⟨target, found⟩, link⟩ | ⟨unlinked, located, directory | ⟨bytes, found⟩⟩
    · have none : world.drive.disk.fileAt (root ++ parts ++ [name]) = none := by
        rw [file_at_none]
        intro content other
        rw [found] at other
        cases other
      rw [if_pos (by rw [packable.links parts name target found near kept, link]; rfl), none]
      simp
    · rw [seen_directory directory] at file
      cases file
    · have output : OutputFile world.drive.disk root skip (parts ++ [name]) bytes :=
        ⟨by rw [← List.append_assoc, found], (kept_iff name).mpr kept⟩
      obtain ⟨taken, inYears⟩ := packable.files _ _ output
      rw [← List.append_assoc] at taken inYears
      have written : zipWrite localYear world (srcDir ++ parts ++ [name]) = .ok bytes :=
        zip_write_ok_iff.mpr ⟨taken, _, located, found, inYears⟩
      rw [if_neg (by rw [unlinked]; simp), run_and_then, run_perform, file_at_some.mpr found]
      simp only [onTree, written, on_value_ok]
      simp [memberOf]

theorem scan_near (down : Down world.drive.disk srcDir root parts)
    (near : fits (srcDir ++ parts) = true) :
    onTree localYear world (.scandir (srcDir ++ parts)) =
      (.ok ((world.drive.disk.names (root ++ parts)).map (seen world srcDir root parts)), world) := by
  simp only [onTree, near, if_true, scan_down down, Except.map, List.map_map]
  rfl

theorem scan_far (far : fits (srcDir ++ parts) = false) :
    onTree localYear world (.scandir (srcDir ++ parts)) = (refused, world) := by
  simp [onTree, far]

theorem chosen_seen (names : List String) (keep : DirEntry → Bool) :
    ((names.map (seen world srcDir root parts)).filter keep).map (·.name) =
      names.filter fun name => keep (seen world srcDir root parts name) := by
  rw [List.filter_map, List.map_map]
  exact List.map_id _

theorem run_not_link (path : Path) :
    run (onTree localYear) world ((! ·) <$> zipCall (.isLink path)) =
      (.ok !(fits path && world.drive.disk.isLink path), world) := rfl

theorem walked_seen (valid : ValidNames world.drive.disk)
    (down : Down world.drive.disk srcDir root parts) :
    ((world.drive.disk.names (root ++ parts)).filter fun name =>
      (seen world srcDir root parts name).isDir).filter
        (fun d => !(fits (srcDir ++ parts ++ [d]) &&
          world.drive.disk.isLink (srcDir ++ parts ++ [d]))) =
      realSubdirs world.drive.disk (root ++ parts) := by
  rw [List.filter_filter, realSubdirs]
  apply List.filter_congr
  intro name listed
  obtain ⟨named, ⟨⟨target, found⟩, link⟩ | ⟨unlinked, -, found | ⟨bytes, found⟩⟩⟩ :=
    listed_cases valid down listed
  · rw [link, seen_other (by rw [found]; simp), decide_eq_false (by rw [found]; simp)]
    cases fits (srcDir ++ parts ++ [name]) <;> simp
  · rw [unlinked, seen_directory found, decide_eq_true found, Bool.and_false]
    rfl
  · rw [seen_file valid found, Bool.and_false, decide_eq_false (by rw [found]; simp)]

theorem walk_files_far (packable : Packable localYear world srcDir root skip)
    (far : fits (srcDir ++ parts) = false) (depth : Nat) :
    walkFiles world.drive.disk root skip depth parts = [] := by
  rw [List.eq_nil_iff_forall_not_mem]
  intro file member
  obtain ⟨more, -, -, same, output⟩ := (mem_walk_files depth).mp member
  have near := (packable.files _ _ output).1
  rw [same, ← List.append_assoc] at near
  rw [fits_front near] at far
  cases far

/-- What the walk takes for directories is no file. -/
theorem members_under (valid : ValidNames world.drive.disk) :
    ((world.drive.disk.names (root ++ parts)).filter fun name =>
      !(seen world srcDir root parts name).isDir).flatMap
        (fun name => (fileUnder world.drive.disk root skip parts name).toList.map memberOf) =
      ((world.drive.disk.names (root ++ parts)).filterMap
        (fileUnder world.drive.disk root skip parts)).map memberOf := by
  rw [List.filterMap_eq_flatMap_toList, List.map_flatMap]
  apply flat_map_filter
  intro name listed directory
  have none : fileUnder world.drive.disk root skip parts name = none := by
    rw [Option.eq_none_iff_forall_not_mem]
    intro file under
    have output := mem_file_under.mp under
    have found := output.2.found
    rw [output.1, ← List.append_assoc] at found
    rw [seen_file valid found] at directory
    cases directory
  rw [none]
  rfl

/-- The walk archives the files it comes upon. -/
theorem zip_walk_runs (valid : ValidNames world.drive.disk)
    (packable : Packable localYear world srcDir root skip) (depth : Nat)
    (down : Down world.drive.disk srcDir root parts) (members : List Member) :
    run (onTree localYear) world (zipWalk srcDir skip depth parts members) =
      (.ok (members ++ (walkFiles world.drive.disk root skip depth parts).map memberOf), world) := by
  induction depth generalizing parts members with
  | zero => simp [zipWalk, walkFiles]
  | succ depth induction =>
      cases near : fits (srcDir ++ parts) with
      | false =>
          have passedOver : (raisedBy .failed).isOSError = true := rfl
          rw [walk_files_far packable near, zipWalk, run_and_then, run_perform, scan_far near]
          simp only [refused, passedOver, if_true]
          simp
      | true =>
          have archived : run (onTree localYear) world
              (((world.drive.disk.names (root ++ parts)).filter fun name =>
                !(seen world srcDir root parts name).isDir).foldlM (zipFile srcDir skip parts) members) =
              (.ok (members ++ ((world.drive.disk.names (root ++ parts)).filter fun name =>
                !(seen world srcDir root parts name).isDir).flatMap fun name =>
                  (fileUnder world.drive.disk root skip parts name).toList.map memberOf), world) := by
            apply run_collect
            intro values name member
            obtain ⟨listed, file⟩ := List.mem_filter.mp member
            exact zip_file_runs valid packable down near listed (by simpa using file) values
          have descended : ∀ values : List Member, run (onTree localYear) world
              ((realSubdirs world.drive.disk (root ++ parts)).foldlM
                (fun members d => zipWalk srcDir skip depth (parts ++ [d]) members) values) =
              (.ok (values ++ (realSubdirs world.drive.disk (root ++ parts)).flatMap fun d =>
                (walkFiles world.drive.disk root skip depth (parts ++ [d])).map memberOf), world) := by
            apply run_collect
            intro values name member
            exact induction (down_into valid down (mem_real_subdirs.mp member)) values
          rw [zipWalk, run_and_then, run_perform]
          simp only [scan_near down near, chosen_seen, bind_is_and_then, run_and_then, archived,
            on_value_ok, run_select (fun d => run_not_link (srcDir ++ parts ++ [d])),
            walked_seen valid down, descended, members_under valid]
          rw [walkFiles, List.map_append, List.map_flatMap, List.append_assoc]

theorem zip_file_far {name : String} (far : fits (srcDir ++ parts ++ [name]) = false)
    (kept : isLeftOut skip parts name = false) (members : List Member) :
    ∃ raised, (run (onTree localYear) world (zipFile srcDir skip parts members name)).1 =
      .error raised := by
  refine ⟨raisedBy .failed, ?_⟩
  rw [zipFile, if_neg (by rw [← isLeftOut, kept]; simp)]
  simp only [bind_is_and_then, run_and_then, run_perform, onTree, far, Bool.false_and,
    on_value_ok, Bool.false_eq_true, if_false, zipWrite]
  rfl

/-- A link whose path is not taken makes the walk that comes upon it raise. -/
theorem zip_walk_raises (valid : ValidNames world.drive.disk) (more : List String) {name : String}
    {target : Target} {depth : Nat} (deep : more.length < depth)
    (down : Down world.drive.disk srcDir root parts)
    (found : world.drive.disk.find (root ++ parts ++ more ++ [name]) = some (.link target))
    (near : fits (srcDir ++ parts ++ more) = true)
    (far : fits (srcDir ++ parts ++ more ++ [name]) = false)
    (kept : isLeftOut skip (parts ++ more) name = false) (members : List Member) :
    ∃ raised, (run (onTree localYear) world (zipWalk srcDir skip depth parts members)).1 =
      .error raised := by
  induction more generalizing parts depth members with
  | nil =>
      obtain ⟨depth, rfl⟩ := Nat.exists_eq_succ_of_ne_zero (Nat.ne_of_gt deep)
      rw [List.append_nil] at found near far kept
      have listed : name ∈ (world.drive.disk.names (root ++ parts)).filter fun name =>
          !(seen world srcDir root parts name).isDir := by
        rw [List.mem_filter, mem_names, found, seen_other (by rw [found]; simp), far, Bool.and_false]
        exact ⟨rfl, rfl⟩
      have raises : ∀ values, ∃ raised, (run (onTree localYear) world
          (zipFile srcDir skip parts values name)).1 = .error raised := zip_file_far far kept
      obtain ⟨raised, ended⟩ := run_fold_raises (zipFile srcDir skip parts)
        (fun _ _ => tree_unchanged _) listed raises members
      refine ⟨raised, ?_⟩
      rw [zipWalk, run_and_then, run_perform, scan_near down near]
      simp only [chosen_seen, bind_is_and_then, run_and_then, ended]
      rfl
  | cons d rest induction =>
      obtain ⟨depth, rfl⟩ := Nat.exists_eq_succ_of_ne_zero (Nat.ne_of_gt (Nat.zero_lt_of_lt deep))
      have directory : world.drive.disk.find (root ++ parts ++ [d]) = some .directory := by
        have below : world.drive.disk.find (root ++ parts ++ [d] ++ (rest ++ [name])) =
            some (.link target) := by simpa using found
        exact ancestor_is_directory (by simp) below
      have further := down_into valid down directory
      have raises : ∀ values, ∃ raised, (run (onTree localYear) world
          (zipWalk srcDir skip depth (parts ++ [d]) values)).1 = .error raised := by
        apply induction (by simpa using deep) further
        · simpa using found
        · simpa using near
        · simpa using far
        · simpa using kept
      rw [List.append_assoc] at near
      rw [zipWalk, run_and_then, run_perform, scan_near down (fits_front (by simpa using near))]
      simp only [chosen_seen, bind_is_and_then, run_and_then, tree_unchanged]
      generalize (run (onTree localYear) world (List.foldlM (zipFile srcDir skip parts) members
        _)).1 = archived
      cases archived with
      | error raised => exact ⟨raised, rfl⟩
      | ok next =>
          simp only [on_value_ok, run_and_then,
            run_select (fun d => run_not_link (srcDir ++ parts ++ [d])), walked_seen valid down]
          exact run_fold_raises _ (fun _ _ => tree_unchanged _) (mem_real_subdirs.mpr directory)
            raises next

end Runs

/-! ## What the walk writes -/

/-- A file of the tree under its path, taken by the kernel and with a date the
format can tell. -/
def Written (localYear : Int → Int) (world : DiskWorld) (srcDir : Path) (member : Member) : Prop :=
  ∃ parts, (∀ name ∈ parts, validName name = true) ∧ member.name = "/".intercalate parts ∧
    zipWrite localYear world (srcDir ++ parts) = .ok member.bytes

section Writing

variable {localYear : Int → Int} {world : DiskWorld} {srcDir : Path} {skip : Bool}

theorem zip_file_writes {parts : List String} (named : ∀ name ∈ parts, validName name = true)
    {name : String} (valid : validName name = true) {members after : List Member}
    (before : ∀ member ∈ members, Written localYear world srcDir member)
    (ran : (run (onTree localYear) world (zipFile srcDir skip parts members name)).1 = .ok after) :
    ∀ member ∈ after, Written localYear world srcDir member := by
  unfold zipFile at ran
  split at ran
  · cases ran
    exact before
  · simp only [bind_is_and_then, run_and_then, run_perform, onTree, on_value_ok] at ran
    split at ran
    · cases ran
      exact before
    · rw [run_and_then, run_perform] at ran
      cases written : zipWrite localYear world (srcDir ++ parts ++ [name]) with
      | error raised =>
          simp only [onTree, written] at ran
          cases ran
      | ok bytes =>
          simp only [onTree, written] at ran
          cases ran
          rw [List.forall_mem_append, List.forall_mem_singleton]
          refine ⟨before, parts ++ [name], ?_, rfl, ?_⟩
          · rw [List.forall_mem_append, List.forall_mem_singleton]
            exact ⟨named, valid⟩
          · rw [← List.append_assoc, written]

theorem scanned_names_valid (valid : ValidNames world.drive.disk) {path : Path}
    {entries : List DirEntry}
    (scanned : (onTree localYear world (.scandir path)).1 = .ok entries) :
    ∀ entry ∈ entries, validName entry.name = true := by
  simp only [onTree] at scanned
  split at scanned
  case isFalse => cases scanned
  case isTrue =>
    unfold DiskWorld.scandir at scanned
    split at scanned
    case h_2 => cases scanned
    case h_1 dir located =>
      split at scanned
      case isFalse => cases scanned
      case isTrue =>
        cases scanned
        intro entry member
        obtain ⟨told, inside, rfl⟩ := List.mem_map.mp member
        obtain ⟨name, listed, rfl⟩ := List.mem_map.mp inside
        exact valid dir name (mem_names.mp listed)

theorem zip_walk_writes (valid : ValidNames world.drive.disk) (depth : Nat) {parts : List String}
    (named : ∀ name ∈ parts, validName name = true) {members after : List Member}
    (before : ∀ member ∈ members, Written localYear world srcDir member)
    (ran : (run (onTree localYear) world (zipWalk srcDir skip depth parts members)).1 = .ok after) :
    ∀ member ∈ after, Written localYear world srcDir member := by
  induction depth generalizing parts members after with
  | zero =>
      cases ran
      exact before
  | succ depth induction =>
      rw [zipWalk, run_and_then, run_perform] at ran
      cases scanned : (onTree localYear world (.scandir (srcDir ++ parts))).1 with
      | error raised =>
          rw [scanned] at ran
          simp only at ran
          split at ran <;> cases ran
          exact before
      | ok entries =>
          have names := scanned_names_valid valid scanned
          rw [scanned] at ran
          simp only [bind_is_and_then, run_and_then, tree_unchanged] at ran
          have still : (onTree localYear world (.scandir (srcDir ++ parts))).2 = world := rfl
          rw [still] at ran
          cases archived : (run (onTree localYear) world (((entries.filter fun entry =>
              !entry.isDir).map (·.name)).foldlM (zipFile srcDir skip parts) members)).1 with
          | error raised =>
              rw [archived] at ran
              cases ran
          | ok next =>
              have kept : ∀ member ∈ next, Written localYear world srcDir member := by
                refine run_fold_ok (zipFile srcDir skip parts) (fun _ _ => tree_unchanged _)
                  (fun members => ∀ member ∈ members, Written localYear world srcDir member)
                  ?_ before archived
                intro values name listed before after ran
                obtain ⟨entry, inside, rfl⟩ := List.mem_map.mp listed
                exact zip_file_writes named (names entry (List.mem_of_mem_filter inside)) before ran
              rw [archived] at ran
              simp only [on_value_ok, run_and_then,
                run_select (fun d => run_not_link (srcDir ++ parts ++ [d]))] at ran
              refine run_fold_ok (fun members d => zipWalk srcDir skip depth (parts ++ [d]) members)
                (fun _ _ => tree_unchanged _)
                (fun members => ∀ member ∈ members, Written localYear world srcDir member)
                ?_ kept ran
              intro values d listed before after ran
              obtain ⟨entry, inside, rfl⟩ := List.mem_map.mp (List.mem_of_mem_filter listed)
              apply induction _ before ran
              rw [List.forall_mem_append, List.forall_mem_singleton]
              exact ⟨named, names entry (List.mem_of_mem_filter inside)⟩

/-- Where packing succeeds, the members are files of the tree and the list is
that of their names. -/
theorem zip_dir_writes (valid : ValidNames world.drive.disk) {depth : Nat} {members : List Member}
    {names : List String}
    (ran : (run (onTree localYear) world (zipDir depth srcDir skip)).1 = .ok (members, names)) :
    names = sortedNames (members.map Member.name) ∧
      ∀ member ∈ members, Written localYear world srcDir member := by
  rw [zipDir, bind_is_and_then, run_and_then] at ran
  cases walked : (run (onTree localYear) world (zipWalk srcDir skip depth [] [])).1 with
  | error raised =>
      rw [walked] at ran
      cases ran
  | ok found =>
      rw [walked] at ran
      cases ran
      exact ⟨rfl, zip_walk_writes valid depth (by simp) (by simp) walked⟩

end Writing

/-! ## The archive -/

/-- The members are the files of the tree, each once, and the list is that of
their names in strictly increasing order. -/
structure ExactArchive (disk : Disk) (root : Place) (skip : Bool) (members : List Member)
    (names : List String) : Prop where
  entries : ∀ member, member ∈ members ↔ ∃ parts, member.name = "/".intercalate parts ∧
    OutputFile disk root skip parts member.bytes
  once : (members.map Member.name).Nodup
  listed : ∀ name, name ∈ names ↔ ∃ parts bytes, name = "/".intercalate parts ∧
    OutputFile disk root skip parts bytes
  increasing : names.Pairwise (· < ·)

theorem output_names_valid {disk : Disk} (valid : ValidNames disk) {root : Place} {skip : Bool}
    {parts : List String} {bytes : Bytes} (output : OutputFile disk root skip parts bytes) :
    ∀ name ∈ parts, validName name = true :=
  fun name member => valid_place valid output.found name (List.mem_append_right _ member)

theorem sorted_names_increasing {names : List String} (once : names.Nodup) :
    (sortedNames names).Pairwise (· < ·) := by
  have sorted : (sortedNames names).Pairwise fun one other => decide (one ≤ other) = true := by
    apply List.pairwise_mergeSort
    · intro one other third first second
      rw [decide_eq_true_eq] at first second ⊢
      exact String.le_trans first second
    · intro one other
      simpa using String.le_total one other
  have distinct : (sortedNames names).Nodup := (List.mergeSort_perm names _).nodup_iff.mpr once
  refine (sorted.and distinct).imp ?_
  rintro one other ⟨least, apart⟩
  rw [← String.not_le]
  intro most
  exact apart (String.le_antisymm (by simpa using least) most)

theorem zip_dir_runs {localYear : Int → Int} {world : DiskWorld} {srcDir : Path} {root : Place}
    {skip : Bool} (tree : IsTree world.drive.disk srcDir root)
    (packable : Packable localYear world srcDir root skip) (depth : Nat) :
    run (onTree localYear) world (zipDir depth srcDir skip) =
      (.ok ((walkFiles world.drive.disk root skip depth []).map memberOf,
        sortedNames (((walkFiles world.drive.disk root skip depth []).map memberOf).map Member.name)),
        world) := by
  have down : Down world.drive.disk srcDir root [] :=
    ⟨by simpa using tree.located, by simpa using tree.directory, by simp⟩
  rw [zipDir, bind_is_and_then, run_and_then, zip_walk_runs tree.valid packable depth down]
  rfl

theorem archive_exact {disk : Disk} {srcDir : Path} {root : Place} (tree : IsTree disk srcDir root)
    {depth : Nat} (deep : disk.height < depth) (skip : Bool) :
    let members := (walkFiles disk root skip depth []).map memberOf
    ExactArchive disk root skip members (sortedNames (members.map Member.name)) := by
  intro members
  have entries : ∀ member, member ∈ members ↔ ∃ parts, member.name = "/".intercalate parts ∧
      OutputFile disk root skip parts member.bytes := by
    intro member
    rw [List.mem_map]
    constructor
    · rintro ⟨file, inside, rfl⟩
      obtain ⟨more, -, -, -, output⟩ := (mem_walk_files depth).mp inside
      exact ⟨file.1, rfl, output⟩
    · rintro ⟨parts, named, output⟩
      refine ⟨(parts, member.bytes), (mem_walk_files depth).mpr ⟨parts, ?_, ?_, rfl, output⟩, ?_⟩
      · rintro rfl
        have found := output.found
        rw [List.append_nil, tree.directory] at found
        cases found
      · have bounded := length_le_height (by rw [output.found]; rfl)
        rw [List.length_append] at bounded
        omega
      · rw [memberOf, ← named]
  have once : (members.map Member.name).Nodup := by
    have names : members.map Member.name =
        ((walkFiles disk root skip depth []).map Prod.fst).map fun parts => "/".intercalate parts := by
      simp [members, memberOf, Function.comp_def]
    rw [names]
    apply (walk_files_nodup depth).map_on
    intro one inside other member same
    obtain ⟨file, listed, rfl⟩ := List.mem_map.mp inside
    obtain ⟨twin, found, rfl⟩ := List.mem_map.mp member
    obtain ⟨-, -, -, -, output⟩ := (mem_walk_files depth).mp listed
    obtain ⟨-, -, -, -, second⟩ := (mem_walk_files depth).mp found
    rw [← path_names_joined (output_names_valid tree.valid output), same,
      path_names_joined (output_names_valid tree.valid second)]
  refine ⟨entries, once, ?_, sorted_names_increasing once⟩
  intro name
  rw [sortedNames, List.mem_mergeSort, List.mem_map]
  constructor
  · rintro ⟨member, inside, rfl⟩
    obtain ⟨parts, named, output⟩ := (entries member).mp inside
    exact ⟨parts, member.bytes, named, output⟩
  · rintro ⟨parts, bytes, rfl, output⟩
    exact ⟨⟨_, bytes⟩, (entries ⟨_, bytes⟩).mpr ⟨parts, rfl, output⟩, rfl⟩

/-- An exact archive is determined by the files of its tree. -/
theorem exact_archive_unique {disk other : Disk} {root top : Place} {skip : Bool}
    (same : ∀ parts, other.find (top ++ parts) = disk.find (root ++ parts))
    {members later : List Member} {names listed : List String}
    (one : ExactArchive disk root skip members names)
    (two : ExactArchive other top skip later listed) :
    listed = names ∧ ∀ member, member ∈ later ↔ member ∈ members := by
  have outputs : ∀ parts bytes,
      OutputFile other top skip parts bytes ↔ OutputFile disk root skip parts bytes := by
    intro parts bytes
    constructor
    · rintro ⟨found, kept⟩
      exact ⟨by rw [← same, found], kept⟩
    · rintro ⟨found, kept⟩
      exact ⟨by rw [same, found], kept⟩
  constructor
  · have distinct : ∀ names : List String, names.Pairwise (· < ·) → names.Nodup := by
      intro names increasing
      apply increasing.imp
      rintro one other less rfl
      exact String.lt_irrefl one less
    have perm : listed.Perm names := by
      rw [List.perm_ext_iff_of_nodup (distinct listed two.increasing) (distinct names one.increasing)]
      intro name
      rw [one.listed, two.listed]
      simp only [outputs]
    exact perm.eq_of_pairwise (fun _ _ _ _ less more => absurd less (String.lt_asymm more))
      two.increasing one.increasing
  · intro member
    rw [one.entries, two.entries]
    simp only [outputs]

/-- Two trees of the same files, with the same dates, under paths of one length. -/
structure SameOutput (world other : DiskWorld) (srcDir dir : Path) (root top : Place) : Prop where
  entries : ∀ parts, other.drive.disk.find (top ++ parts) = world.drive.disk.find (root ++ parts)
  dates : ∀ parts, other.lastUse (top ++ parts) = world.lastUse (root ++ parts)
  length : pathBytes dir = pathBytes srcDir

theorem packable_of_same {localYear : Int → Int} {world other : DiskWorld} {srcDir dir : Path}
    {root top : Place} {skip : Bool} (same : SameOutput world other srcDir dir root top)
    (packable : Packable localYear world srcDir root skip) :
    Packable localYear other dir top skip := by
  have taken : ∀ parts, fits (dir ++ parts) = fits (srcDir ++ parts) := by
    intro parts
    rw [fits, fits, path_bytes_append, path_bytes_append, same.length]
  constructor
  · rintro parts bytes ⟨found, kept⟩
    rw [taken, same.dates]
    exact packable.files parts bytes ⟨by rw [← same.entries, found], kept⟩
  · intro parts name target found near kept
    rw [List.append_assoc, same.entries, ← List.append_assoc] at found
    rw [taken] at near
    rw [List.append_assoc, taken, ← List.append_assoc]
    exact packable.links parts name target found near kept

/-- The archive holds the files of the tree and nothing else, whatever the order
its directories are listed in and whatever stands outside it. -/
def HoldsOutputFiles (localYear : Int → Int) (world : DiskWorld) (srcDir : Path) (root : Place)
    (depth : Nat) (skip : Bool) : Prop :=
  ∃ members names,
    run (onTree localYear) world (zipDir depth srcDir skip) = (.ok (members, names), world) ∧
      ExactArchive world.drive.disk root skip members names ∧
      ∀ (other : DiskWorld) (dir : Path) (top : Place), IsTree other.drive.disk dir top →
        SameOutput world other srcDir dir root top →
        ∀ depth, other.drive.disk.height < depth →
          ∃ later, run (onTree localYear) other (zipDir depth dir skip) =
              (.ok (later, names), other) ∧
            ∀ member, member ∈ later ↔ member ∈ members

theorem packable_of_holds {localYear : Int → Int} {world : DiskWorld} {srcDir : Path}
    {root : Place} {depth : Nat} {skip : Bool} (tree : IsTree world.drive.disk srcDir root)
    (deep : world.drive.disk.height < depth)
    (holds : HoldsOutputFiles localYear world srcDir root depth skip) :
    Packable localYear world srcDir root skip := by
  obtain ⟨members, names, ran, exact, -⟩ := holds
  constructor
  · intro parts bytes output
    have member := (exact.entries ⟨"/".intercalate parts, bytes⟩).mpr ⟨parts, rfl, output⟩
    obtain ⟨others, valid, named, written⟩ :=
      (zip_dir_writes tree.valid (congrArg Prod.fst ran)).2 _ member
    have same : others = parts := by
      rw [← path_names_joined valid, ← named,
        path_names_joined (output_names_valid tree.valid output)]
    obtain ⟨taken, place, located, -, inYears⟩ := zip_write_ok_iff.mp written
    rw [same] at taken located
    rw [located_tree tree output.found (by simp), Option.some.injEq] at located
    rw [located]
    exact ⟨taken, inYears⟩
  · intro parts name target found near kept
    by_contra far
    have bounded := length_le_height (by rw [found]; rfl)
    rw [List.append_assoc, List.length_append, List.length_append, List.length_singleton] at bounded
    have down : Down world.drive.disk srcDir root [] :=
      ⟨by simpa using tree.located, by simpa using tree.directory, by simp⟩
    obtain ⟨raised, ended⟩ := @zip_walk_raises localYear world srcDir root [] skip tree.valid parts
      name target depth (by omega) down (by simpa using found) (by simpa using near)
      (by simpa using far) kept []
    rw [zipDir, bind_is_and_then, run_and_then, ended] at ran
    cases congrArg Prod.fst ran

/-- The archive holds the output files exactly if the kernel takes their paths
and the format their dates. -/
theorem artifact_holds_output_files_iff (localYear : Int → Int) (world : DiskWorld)
    (srcDir : Path) (root : Place) (tree : IsTree world.drive.disk srcDir root) (depth : Nat)
    (deep : world.drive.disk.height < depth) (skip : Bool) :
    HoldsOutputFiles localYear world srcDir root depth skip ↔
      Packable localYear world srcDir root skip := by
  refine ⟨packable_of_holds tree deep, fun packable => ?_⟩
  have exact := archive_exact tree deep skip
  refine ⟨_, _, zip_dir_runs tree packable depth, exact, ?_⟩
  intro other dir top further same depth deep
  obtain ⟨names, members⟩ :=
    exact_archive_unique same.entries exact (archive_exact further deep skip)
  exact ⟨_, by rw [zip_dir_runs further (packable_of_same same packable) depth, names], members⟩

/-! ## Two trees -/

theorem packable_of_keys {localYear : Int → Int} {world : DiskWorld} {root : Place}
    (taken : world.drive.disk.entries.keys.all fits = true)
    (inYears : ∀ place, inZipYears localYear (world.lastUse place) = true) (skip : Bool) :
    Packable localYear world root root skip := by
  have near : ∀ dir name, (world.drive.disk.find (dir ++ [name])).isSome = true →
      fits (dir ++ [name]) = true := by
    intro dir name found
    rw [find_child, AList.lookup_isSome, AList.mem_keys] at found
    exact List.all_eq_true.mp taken _ found
  constructor
  · rintro parts bytes ⟨found, -⟩
    refine ⟨?_, inYears _⟩
    generalize root ++ parts = place at found ⊢
    cases place using List.reverseRecOn with
    | nil => cases found
    | append_singleton dir name => exact near dir name (by rw [found]; rfl)
  · intro parts name target found _ _
    exact near (root ++ parts) name (by rw [found]; rfl)

/-- The year of a time, where no year is longer than another. -/
def meanYear (mtime : Int) : Int := 1970 + mtime / 31556952

def plantedTree : DiskWorld where
  drive := {
    disk := .ofList [
      (["etc"], .directory), (["etc", "passwd"], .file [7]), (["out"], .directory),
      (["out", ".log"], .file [1]), (["out", "b"], .directory), (["out", "b", ".x"], .file [2]),
      (["out", "b", "up"], .link { absolute := true, names := ["etc"] }),
      (["out", "a.html"], .file [3]),
      (["out", "leak"], .link { absolute := true, names := ["etc", "passwd"] })]
    changed := [] }
  clock := 0
  lastUse _ := 1750000000

theorem planted_is_tree : IsTree plantedTree.drive.disk ["out"] ["out"] :=
  ⟨valid_names_of_keys (by decide +kernel), by decide +kernel, by decide +kernel⟩

theorem planted_packable : Packable meanYear plantedTree ["out"] ["out"] true :=
  packable_of_keys (by decide +kernel)
    (fun _ => (by decide : inZipYears meanYear 1750000000 = true)) true

theorem planted_tree_archive : HoldsOutputFiles meanYear plantedTree ["out"] ["out"] 4 true :=
  (artifact_holds_output_files_iff meanYear plantedTree ["out"] ["out"] planted_is_tree 4
    (by decide +kernel) true).mpr planted_packable

def oneFile (name : String) (mtime : Int) : DiskWorld where
  drive := { disk := Disk.ofList [(["out"], .directory), (["out", name], .file [60, 62])], changed := [] }
  clock := 0
  lastUse _ := mtime

/-- A file dated at the start of 1970 cannot be packed. -/
theorem epoch_file_not_archived :
    IsTree (oneFile "index.html" 0).drive.disk ["out"] ["out"] ∧
      (oneFile "index.html" 0).drive.disk.height < 3 ∧
      (run (onTree meanYear) (oneFile "index.html" 0) (zipDir 3 ["out"] false)).1 =
        .error tooEarly ∧
      ¬ HoldsOutputFiles meanYear (oneFile "index.html" 0) ["out"] ["out"] 3 false := by
  have raised : (run (onTree meanYear) (oneFile "index.html" 0) (zipDir 3 ["out"] false)).1 =
      .error tooEarly := by rfl
  refine ⟨⟨valid_names_of_keys (by decide +kernel), by decide +kernel, by decide +kernel⟩,
    by decide +kernel, raised, ?_⟩
  rintro ⟨members, names, ran, -⟩
  rw [ran] at raised
  cases raised

end PretextBuildServer.ZipArchive
