import PretextBuildServer.DiskCalls
import PretextBuildServer.Library.PathStrings
import PretextBuildServer.Library.PosixUnlinked
import PretextBuildServer.Library.TextCase

/-!
# Unpacking an uploaded archive

A tar archive is left to the filter of its library. For a zip archive the guard
compares texts and acts before anything is written. Extraction has its own rule
for the names of members: it leaves out the components that lead nowhere or back.
No path involved has a symbolic link on it, so a path leads where its names lead
one after the other.
-/

namespace PretextBuildServer.SafeExtract

open PosixDisk PathStrings TextCase
open PretextBuildServer.ServerSettings PretextBuildServer.JobCalls PretextBuildServer.DiskCalls

set_option autoImplicit false

/-- What can be read of a member, and whether reading then fails. -/
structure MemberData where
  bytes : Bytes
  broken : Bool := false

/-- Names hold no zero byte: `ZipInfo` ends them there. -/
structure Archive where
  namelist : List Text
  data : Text → MemberData

/-- Where a path leads, among the places of the disk. -/
def place (cwd : WorkingDirectory) (path : Text) : Place := (cwd.located path).map String.ofList

/-! ## The guard -/

def unsafePath (member : Text) : Raised where
  kind := .valueError
  message := s!"unsafe path in archive: {String.ofList member}"

def checkMember (cwd : WorkingDirectory) (dest member : Text) : Except Raised Unit :=
  let destRoot := realpath cwd.text dest
  let target := realpath cwd.text (join dest member)
  if target ≠ destRoot ∧ ¬ (destRoot ++ ['/']).isPrefixOf target then .error (unsafePath member)
  else .ok ()

def checkMembers (cwd : WorkingDirectory) (dest : Text) : List Text → Except Raised Unit
  | [] => .ok ()
  | member :: rest => do
      checkMember cwd dest member
      checkMembers cwd dest rest

/-! ## `zipfile` -/

/-- The components of a name that extraction keeps. -/
def arcComponents (member : Text) : List Text :=
  (components member).filter fun part => !([[], curdir, pardir] : List Text).contains part

def arcname (member : Text) : Text := ['/'].intercalate (arcComponents member)

/-- `ZipInfo.is_dir` -/
def isDirMember (member : Text) : Bool := member.getLast? == some '/'

/-- Create all upper directories if necessary. -/
def makeUpperDirs (cwd : WorkingDirectory) (drive : Drive) (upperdirs : Text) : Outcome Unit :=
  if upperdirs ≠ [] ∧ drive.disk.exist (place cwd upperdirs) = false then
    drive.makeDirs (place cwd upperdirs)
  else (.ok (), drive)

/-- The member itself, a directory or a file. -/
def writeMember (drive : Drive) (target : Place) (isDir : Bool) (data : MemberData) :
    Except Raised Unit × Drive :=
  if isDir then
    if drive.disk.isDir target then (.ok (), drive)
    else ((drive.mkdir target).1.mapError raisedBy, (drive.mkdir target).2)
  else
    match drive.create target with
    | (.error refusal, later) => (.error (raisedBy refusal), later)
    | (.ok file, later) =>
        (if data.broken then .error { kind := .other } else .ok (), (later.append file data.bytes).2)

/-- `ZipFile._extract_member` -/
def extractMember (cwd : WorkingDirectory) (archive : Archive) (dest : Text) (drive : Drive)
    (member : Text) : Except Raised Unit × Drive :=
  let targetpath := normpath (join dest (arcname member))
  match makeUpperDirs cwd drive (dirname targetpath) with
  | (.error refusal, later) => (.error (raisedBy refusal), later)
  | (.ok _, later) =>
      writeMember later (place cwd targetpath) (isDirMember member) (archive.data member)

def extractMembers (cwd : WorkingDirectory) (archive : Archive) (dest : Text) (drive : Drive) :
    List Text → Except Raised Unit × Drive
  | [] => (.ok (), drive)
  | member :: rest =>
      match extractMember cwd archive dest drive member with
      | (.error raised, later) => (.error raised, later)
      | (.ok _, later) => extractMembers cwd archive dest later rest

/-- The zip branch: the guard, then `extractall`. -/
def extractZip (cwd : WorkingDirectory) (dest : Text) (archive : Archive) (drive : Drive) :
    Except Raised Unit × Drive :=
  match checkMembers cwd dest archive.namelist with
  | .error raised => (.error raised, drive)
  | .ok _ => extractMembers cwd archive dest drive archive.namelist

/-! ## The upload -/

/-- An uploaded file as the two libraries find it. Opening it as a zip archive
may fail; what unpacking it as a tar archive does is up to `tarfile`. -/
structure Upload where
  filename : Option Text
  isZipfile : Bool
  openZip : Except Raised Archive
  isTarfile : Bool
  extractTar : Text → Drive → Except Raised Unit × Drive

def Upload.takenAsZip (upload : Upload) : Bool :=
  ".zip".toList.isSuffixOf (lower (upload.filename.getD [])) || upload.isZipfile

def unsupportedArchive : Raised where
  kind := .valueError
  message := "unsupported archive: use .zip or .tar.gz"

def safeExtract (cwd : WorkingDirectory) (dest : Text) (upload : Upload) (drive : Drive) :
    Except Raised Unit × Drive :=
  if upload.takenAsZip then
    match upload.openZip with
    | .error raised => (.error raised, drive)
    | .ok archive => extractZip cwd dest archive drive
  else if upload.isTarfile then upload.extractTar dest drive
  else (.error unsupportedArchive, drive)

/-- The upload goes the way of a zip archive, and is this one. -/
structure Upload.Holds (upload : Upload) (archive : Archive) : Prop where
  taken : upload.takenAsZip = true
  opened : upload.openZip = .ok archive

theorem safe_extract_zip {upload : Upload} {archive : Archive} (holds : upload.Holds archive)
    (cwd : WorkingDirectory) (dest : Text) (drive : Drive) :
    safeExtract cwd dest upload drive = extractZip cwd dest archive drive := by
  rw [safeExtract, if_pos holds.taken, holds.opened]

/-! ## What the guard refuses -/

/-- Where a member leads, joined to the destination, one component after the
other. -/
def destination (cwd : WorkingDirectory) (dest member : Text) : List Text :=
  resolve (if isabs member then [] else cwd.located dest) (components member)

def Contained (cwd : WorkingDirectory) (dest member : Text) : Prop :=
  cwd.located dest <+: destination cwd dest member

section Guarding

variable {cwd : WorkingDirectory} {dest : Text}

theorem check_member_iff (below : cwd.located dest ≠ []) (member : Text) :
    (Contained cwd dest member ∧ checkMember cwd dest member = .ok ()) ∨
      (¬ Contained cwd dest member ∧ checkMember cwd dest member = .error (unsafePath member)) := by
  have same : cwd.located (join dest member) = destination cwd dest member := located_join
  have exact := prefix_render below (located_valid cwd dest) (located_valid cwd (join dest member))
  rw [same] at exact
  simp only [checkMember, realpath_text, same, List.isPrefixOf_iff_prefix]
  rw [Contained, ← exact]
  by_cases contained : render true (destination cwd dest member) = render true (cwd.located dest) ∨
      render true (cwd.located dest) ++ ['/'] <+: render true (destination cwd dest member)
  · left
    refine ⟨contained, ?_⟩
    rw [if_neg]
    rintro ⟨apart, outside⟩
    exact contained.elim apart outside
  · right
    refine ⟨contained, ?_⟩
    rw [if_pos (not_or.mp contained)]

theorem check_members_iff (below : cwd.located dest ≠ []) (members : List Text) :
    ((∀ member ∈ members, Contained cwd dest member) ∧ checkMembers cwd dest members = .ok ()) ∨
      ∃ member ∈ members, ¬ Contained cwd dest member ∧
        checkMembers cwd dest members = .error (unsafePath member) := by
  induction members with
  | nil => exact .inl ⟨by simp, rfl⟩
  | cons member rest induction =>
      rcases check_member_iff below member with ⟨contained, passes⟩ | ⟨outside, raises⟩
      · have next : checkMembers cwd dest (member :: rest) = checkMembers cwd dest rest := by
          rw [checkMembers, passes]
          rfl
        rw [next]
        rcases induction with ⟨others, passes⟩ | ⟨other, inside, outside, raises⟩
        · exact .inl ⟨List.forall_mem_cons.mpr ⟨contained, others⟩, passes⟩
        · exact .inr ⟨other, List.mem_cons_of_mem _ inside, outside, raises⟩
      · right
        refine ⟨member, List.mem_cons_self, outside, ?_⟩
        rw [checkMembers, raises]
        rfl

end Guarding

/-! ## What extraction touches -/

/-- The process stands in a directory; `dir` is one with no link below it, and
nothing outside it was changed. -/
structure Enclosed (base dir : Place) (drive : Drive) : Prop where
  standing : drive.disk.find base = some .directory
  inside : drive.disk.find dir = some .directory
  unlinked : ∀ below target, drive.disk.find (dir ++ below) ≠ some (.link target)
  changed : ∀ other ∈ drive.changed, dir <+: other

section Extracting

variable {base dir path : Place} {drive later : Drive}

theorem enclosed_unlinked (enclosed : Enclosed base dir drive)
    (plain : ∀ name ∈ path, isPlain name = true)
    (within : dir <+: path) : drive.disk.Unlinked path := by
  refine ⟨plain, ?_⟩
  intro front further target link
  rcases List.prefix_or_prefix_of_prefix further within with ⟨back, same⟩ | ⟨back, same⟩
  · have clear : drive.disk.Unlinked dir := by
      apply unlinked_to_directory _ enclosed.inside
      obtain ⟨rest, rfl⟩ := within
      exact fun name member => plain name (List.mem_append_left _ member)
    exact clear.unlinked front ⟨back, same⟩ target link
  · rw [← same] at link
    exact enclosed.unlinked back target link

theorem put_encloses {entry : Entry} (enclosed : Enclosed base dir drive)
    (put : drive.put path entry = some later) (within : dir <+: path)
    (noLink : ∀ target, entry ≠ .link target) : Enclosed base dir later := by
  obtain ⟨onDisk, listed⟩ := drive_put_some put
  have found := find_put onDisk
  have kept : ∀ place, drive.disk.find place = some .directory →
      later.disk.find place = some .directory := by
    intro place directory
    rw [found, if_neg]
    · exact directory
    · rintro rfl
      exact (put_needs onDisk).2.2 directory
  refine ⟨kept base enclosed.standing, kept dir enclosed.inside, ?_, ?_⟩
  · intro below target
    rw [found]
    split
    · intro link
      exact noLink target (Option.some.inj link)
    · exact enclosed.unlinked below target
  · rw [listed, List.forall_mem_cons]
    exact ⟨within, enclosed.changed⟩

theorem make_dirs_encloses (enclosed : Enclosed base dir drive)
    (plain : ∀ name ∈ path, isPlain name = true) (within : dir <+: path) :
    Enclosed base dir (drive.makeDirs path).2 := by
  obtain ⟨steady, kept⟩ := @make_dirs_keeps drive path plain
  refine ⟨kept base _ enclosed.standing, kept dir _ enclosed.inside, ?_, ?_⟩
  · intro below target link
    exact enclosed.unlinked below target (((steady _).2 target).mpr link)
  · cases present : drive.disk.exist path with
    | true =>
        obtain ⟨refusal, made⟩ := make_dirs_exist present
        rw [made]
        exact enclosed.changed
    | false =>
        rcases make_dirs_absent plain present with barred | founded
        · obtain ⟨⟨refusal, refused⟩, -⟩ := barred
          rw [refused]
          exact enclosed.changed
        · obtain ⟨front, name, rest, real, later, split, foundation, makes, made, -⟩ := founded
          have clear := enclosed_unlinked enclosed plain within
          have located : real = front := by
            have way : drive.disk.Unlinked front := unlinked_front (by rw [← split]; exact clear)
            have lands := foundation.located
            rw [locate_unlinked way] at lands
            split at lands
            · exact (Option.some.inj lands).symm
            · cases lands
          have above : dir <+: front := by
            have onWay : front ++ [name] <+: path := ⟨rest, by rw [split]; simp⟩
            rcases List.prefix_or_prefix_of_prefix within onWay with inner | outer
            · rcases List.prefix_concat_iff.mp inner with same | inner
              · have missing := foundation.missing
                rw [located, ← same, enclosed.inside] at missing
                cases missing
              · exact inner
            · have missing := foundation.missing
              obtain ⟨back, same⟩ := outer
              have inside := enclosed.inside
              rw [← same, ← located, below_free missing] at inside
              cases inside
          rw [makes]
          intro other changed
          rw [made.listed, List.mem_append, List.mem_reverse] at changed
          rcases changed with fresh | earlier
          · obtain ⟨names, -, -, rfl⟩ := mem_chain.mp fresh
            rw [located]
            exact above.trans (List.prefix_append _ _)
          · exact enclosed.changed other earlier

theorem mkdir_encloses (enclosed : Enclosed base dir drive)
    (plain : ∀ name ∈ path, isPlain name = true) (within : dir <+: path) :
    Enclosed base dir (drive.mkdir path).2 := by
  unfold Drive.mkdir
  split
  · exact enclosed
  · rename_i spot spotted
    split
    · cases put : drive.put spot .directory with
      | none => exact enclosed
      | some later =>
          apply put_encloses enclosed put _ (by simp)
          cases path using List.reverseRecOn with
          | nil =>
              rw [List.prefix_nil.mp within]
              exact List.nil_prefix
          | append_singleton front name =>
              have clear := enclosed_unlinked enclosed plain within
              rw [spot_unlinked (unlinked_front clear) (plain name (by simp))] at spotted
              split at spotted
              · rw [← Option.some.inj spotted]
                exact within
              · cases spotted
    · exact enclosed

theorem create_encloses (enclosed : Enclosed base dir drive)
    (plain : ∀ name ∈ path, isPlain name = true) (within : dir <+: path) :
    Enclosed base dir (drive.create path).2 ∧
      ∀ file, (drive.create path).1 = .ok file → dir <+: file := by
  rcases create_cases drive path with ⟨refused, -⟩ | ⟨file, later, located, -, put, created⟩
  · rw [refused]
    exact ⟨enclosed, by simp⟩
  · have same : path = file := by
      rw [locate_unlinked (enclosed_unlinked enclosed plain within)] at located
      split at located
      · exact Option.some.inj located
      · cases located
    rw [created]
    rw [same] at within
    refine ⟨put_encloses enclosed put within (by simp), ?_⟩
    rintro other ⟨⟩
    exact within

theorem append_encloses {file : Place} (enclosed : Enclosed base dir drive) (within : dir <+: file)
    (bytes : Bytes) : Enclosed base dir (drive.append file bytes).2 := by
  rcases append_cases drive file bytes with ⟨-, kept⟩ | ⟨written, later, -, put, appended⟩
  · rw [kept]
    exact enclosed
  · rw [appended]
    exact put_encloses enclosed put within (by simp)

theorem write_member_encloses (enclosed : Enclosed base dir drive)
    (plain : ∀ name ∈ path, isPlain name = true) (within : dir <+: path) (isDir : Bool)
    (data : MemberData) : Enclosed base dir (writeMember drive path isDir data).2 := by
  unfold writeMember
  split
  · split
    · exact enclosed
    · exact mkdir_encloses enclosed plain within
  · obtain ⟨opened, file⟩ := create_encloses enclosed plain within
    split
    · rename_i refusal later created
      rw [created] at opened
      exact opened
    · rename_i place later created
      rw [created] at opened file
      exact append_encloses opened (file place rfl) data.bytes

theorem plain_place {names : List Text} (valid : ∀ name ∈ names, IsName name) :
    ∀ name ∈ names.map String.ofList, isPlain name = true := by
  intro name member
  obtain ⟨text, inside, rfl⟩ := List.mem_map.mp member
  have isName := valid text inside
  rw [isPlain, Bool.and_eq_true, bne_iff_ne, bne_iff_ne]
  constructor
  · intro dot
    exact isName.2.2.1 (String.ofList_injective dot)
  · intro dots
    exact isName.2.2.2 (String.ofList_injective dots)

theorem exists_above {names : List Text} (valid : ∀ name ∈ names, IsName name)
    (inside : drive.disk.find (names.map String.ofList) = some .directory) {front : List Text}
    (above : front <+: names) : drive.disk.exist (front.map String.ofList) = true := by
  obtain ⟨back, rfl⟩ := above
  have clear := unlinked_to_directory (plain_place valid) inside
  rw [List.map_append] at inside clear
  rw [exist_unlinked (unlinked_front clear)]
  cases back with
  | nil =>
      rw [List.map_nil, List.append_nil] at inside
      rw [inside]
      rfl
  | cons name back =>
      rw [ancestor_is_directory (by simp) inside]
      rfl

end Extracting

/-! ## Members -/

section Members

variable {cwd : WorkingDirectory} {dest : Text} {drive : Drive}

theorem arc_valid (member : Text) : ∀ part ∈ arcComponents member, IsName part := by
  intro part kept
  obtain ⟨inside, leads⟩ := List.mem_filter.mp kept
  simp at leads
  exact ⟨leads.1, components_slash member part inside, leads.2.1, leads.2.2⟩

theorem arcname_relative (member : Text) : isabs (arcname member) = false :=
  @isabs_render false _ fun part kept => part_of_name (arc_valid member part kept)

theorem target_located (member : Text) :
    cwd.located (normpath (join dest (arcname member))) =
      cwd.located dest ++ arcComponents member := by
  have valid := arc_valid member
  rw [located_normpath, located_join, arcname_relative, if_neg Bool.false_ne_true, arcname,
    resolve_intercalate fun part kept => part_of_name (valid part kept), resolve_names valid]

/-- A destination that is not the root and has nothing in it. -/
structure Fresh (cwd : WorkingDirectory) (dest : Text) (drive : Drive) : Prop where
  standing : drive.disk.find (cwd.names.map String.ofList) = some .directory
  inside : drive.disk.find (place cwd dest) = some .directory
  below : cwd.located dest ≠ []
  empty : drive.disk.names (place cwd dest) = []
  unchanged : drive.changed = []

abbrev Extracting (cwd : WorkingDirectory) (dest : Text) (drive : Drive) : Prop :=
  Enclosed (cwd.names.map String.ofList) (place cwd dest) drive

theorem fresh_encloses (fresh : Fresh cwd dest drive) : Extracting cwd dest drive := by
  refine ⟨fresh.standing, fresh.inside, ?_, by simp [fresh.unchanged]⟩
  intro below target link
  cases below with
  | nil =>
      rw [List.append_nil, fresh.inside] at link
      cases link
  | cons name below =>
      have free : drive.disk.find (place cwd dest ++ [name]) = none := by
        rw [← Option.not_isSome_iff_eq_none, ← mem_names, fresh.empty]
        simp
      rw [List.append_cons, below_free free] at link
      cases link

theorem normal_target (member : Text) :
    normalNames (join dest (arcname member)) = normalNames dest ++ arcComponents member := by
  have valid := arc_valid member
  rw [normal_join (arcname_relative member)]
  by_cases none : arcComponents member = []
  · rw [arcname, none, List.append_nil]
    rfl
  · rw [arcname, components, List.splitOn_intercalate '/' (fun part kept => (valid part kept).2.1)
      none, push_names valid]

theorem located_normal :
    resolve (if isabs dest then [] else cwd.names) (normalNames dest) = cwd.located dest :=
  resolve_normal dest fun absolute => if_pos absolute

theorem upper_present (extracting : Extracting cwd dest drive) (below : cwd.located dest ≠ [])
    {text : Text} (same : isabs text = isabs dest) (normal : normalNames text = normalNames dest)
    (nonempty : dirname (normpath text) ≠ []) :
    drive.disk.exist (place cwd (dirname (normpath text))) = true := by
  have located := @located_normal cwd dest
  have bottom := normal_bottom dest
  cases reduced : normalNames dest using List.reverseRecOn with
  | nil =>
      have relative : isabs text = false := by
        rw [same]
        by_contra absolute
        rw [Bool.not_eq_false] at absolute
        rw [absolute, if_pos rfl, reduced] at located
        exact below located.symm
      have dot : normpath text = curdir := by
        rw [normpath, (slashes_iff text).mpr relative, normal, reduced]
        rfl
      rw [dot] at nonempty
      exact absurd (by decide) nonempty
  | append_singleton names last =>
      rw [reduced] at normal located bottom
      have above := dirname_normpath cwd normal
      rw [same] at above
      rw [place, above]
      by_cases up : last = pardir
      · have back : ∀ name ∈ names, name = pardir := bottom names [] (by rw [up])
        by_cases absolute : isabs dest = true
        · rw [if_pos absolute, List.prefix_nil.mp (resolve_pardirs back [])]
          rfl
        · rw [if_neg absolute]
          exact exists_above cwd.valid extracting.standing (resolve_pardirs back cwd.names)
      · have part := normal_parts dest last (by rw [reduced]; simp)
        have one : ∀ name ∈ [last], IsName name := by
          rw [List.forall_mem_singleton]
          exact ⟨part.1, part.2.1, part.2.2, up⟩
        rw [resolve_append, resolve_names one] at located
        apply exists_above (located_valid cwd dest) extracting.inside
        rw [← located]
        exact List.prefix_append _ _

theorem upper_encloses (extracting : Extracting cwd dest drive) (below : cwd.located dest ≠ [])
    (member : Text) :
    Extracting cwd dest
      (makeUpperDirs cwd drive (dirname (normpath (join dest (arcname member))))).2 := by
  have start : isabs (join dest (arcname member)) = isabs dest := isabs_join (arcname_relative member)
  have normal := @normal_target dest member
  unfold makeUpperDirs
  split
  · rename_i missing
    obtain ⟨nonempty, absent⟩ := missing
    cases arcs : arcComponents member using List.reverseRecOn with
    | nil =>
        rw [arcs, List.append_nil] at normal
        rw [upper_present extracting below start normal nonempty] at absent
        cases absent
    | append_singleton init last =>
        rw [arcs, ← List.append_assoc] at normal
        have above := dirname_normpath cwd normal
        have valid := arc_valid member
        rw [arcs] at valid
        have inner : ∀ name ∈ init, IsName name :=
          fun name kept => valid name (List.mem_append_left _ kept)
        rw [start, resolve_append, located_normal, resolve_names inner] at above
        apply make_dirs_encloses extracting
        · exact plain_place (located_valid cwd _)
        · rw [place, place, above, List.map_append]
          exact List.prefix_append _ _
  · exact extracting

theorem extract_member_encloses (extracting : Extracting cwd dest drive)
    (below : cwd.located dest ≠ []) (archive : Archive) (member : Text) :
    Extracting cwd dest (extractMember cwd archive dest drive member).2 := by
  have upper := upper_encloses extracting below member
  unfold extractMember
  simp only
  split
  · rename_i refusal later made
    rw [made] at upper
    exact upper
  · rename_i made later done
    rw [done] at upper
    apply write_member_encloses upper
    · exact plain_place (located_valid cwd _)
    · rw [place, place, target_located, List.map_append]
      exact List.prefix_append _ _

theorem extract_members_enclose (extracting : Extracting cwd dest drive)
    (below : cwd.located dest ≠ []) (archive : Archive) (members : List Text) :
    Extracting cwd dest (extractMembers cwd archive dest drive members).2 := by
  induction members generalizing drive with
  | nil => exact extracting
  | cons member rest induction =>
      have one := extract_member_encloses extracting below archive member
      unfold extractMembers
      split
      · rename_i raised later ended
        rw [ended] at one
        exact one
      · rename_i done later ended
        rw [ended] at one
        exact induction one

theorem extraction_error (archive : Archive) (members : List Text) {raised : Raised}
    (ended : (extractMembers cwd archive dest drive members).1 = .error raised) :
    raised.kind ≠ .valueError := by
  have refusals : ∀ refusal, (raisedBy refusal).kind ≠ .valueError := by
    intro refusal
    cases refusal <;> decide
  have written : ∀ (drive : Drive) (target : Place) (isDir : Bool) (data : MemberData),
      (writeMember drive target isDir data).1 = .error raised → raised.kind ≠ .valueError := by
    intro drive target isDir data ended
    unfold writeMember at ended
    split at ended
    · split at ended
      · cases ended
      · cases made : (drive.mkdir target).1 with
        | ok value =>
            rw [made] at ended
            cases ended
        | error refusal =>
            rw [made] at ended
            cases ended
            exact refusals refusal
    · split at ended
      · cases ended
        exact refusals _
      · simp only at ended
        split at ended
        · cases ended
          decide
        · cases ended
  induction members generalizing drive with
  | nil => cases ended
  | cons member rest induction =>
      unfold extractMembers at ended
      split at ended
      · rename_i other later one
        cases ended
        unfold extractMember at one
        simp only at one
        split at one
        · cases one
          exact refusals _
        · exact written _ _ _ _ (congrArg Prod.fst one)
      · exact induction ended

end Members

/-- The guard raises before anything is written exactly if a member leads out of
the destination; otherwise all that is written is in it. -/
theorem zip_guard_exact (cwd : WorkingDirectory) (dest : Text) (upload : Upload)
    (archive : Archive) (holds : upload.Holds archive) (drive : Drive)
    (fresh : Fresh cwd dest drive) :
    ((∃ member, safeExtract cwd dest upload drive = (.error (unsafePath member), drive)) ↔
      ∃ member ∈ archive.namelist, ¬ Contained cwd dest member) ∧
    ((∀ member ∈ archive.namelist, Contained cwd dest member) →
      ∀ changed ∈ (safeExtract cwd dest upload drive).2.changed, place cwd dest <+: changed) := by
  rw [safe_extract_zip holds]
  rcases check_members_iff fresh.below archive.namelist with
    ⟨contained, passes⟩ | ⟨member, inside, outside, raises⟩
  · have extracts : extractZip cwd dest archive drive =
        extractMembers cwd archive dest drive archive.namelist := by
      rw [extractZip, passes]
    rw [extracts]
    constructor
    · apply iff_of_false
      · rintro ⟨member, ended⟩
        exact extraction_error archive _ (congrArg Prod.fst ended) rfl
      · rintro ⟨member, inside, outside⟩
        exact outside (contained member inside)
    · intro _
      exact (extract_members_enclose (fresh_encloses fresh) fresh.below archive _).changed
  · have refuses : extractZip cwd dest archive drive = (.error (unsafePath member), drive) := by
      rw [extractZip, raises]
    rw [refuses]
    refine ⟨iff_of_true ⟨member, rfl⟩ ⟨member, inside, outside⟩, ?_⟩
    intro contained
    exact absurd (contained member inside) outside

/-! ## A job directory -/

def atRoot : WorkingDirectory where
  names := []
  valid := by simp

/-- A fresh job directory and an archive with a climbing member. -/
def jobDrive : Drive where
  disk := .ofList [(["data"], .directory), (["data", "work"], .directory)]
  changed := []

def climbing : Archive where
  namelist := ["a/../index.ptx".toList, "../workshop/x".toList]
  data _ := { bytes := [] }

/-- A zip archive under the name browsers give it. -/
def sentAsZip (archive : Archive) : Upload where
  filename := some "project.ZIP".toList
  isZipfile := true
  openZip := .ok archive
  isTarfile := false
  extractTar _ drive := (.error { kind := .other }, drive)

theorem sent_as_zip_holds (archive : Archive) : (sentAsZip archive).Holds archive :=
  ⟨by rw [Upload.takenAsZip, show (sentAsZip archive).isZipfile = true from rfl, Bool.or_true], rfl⟩

theorem climbing_member_is_refused :
    ((∃ member, safeExtract atRoot "/data/work".toList (sentAsZip climbing) jobDrive =
        (.error (unsafePath member), jobDrive)) ↔
      ∃ member ∈ climbing.namelist, ¬ Contained atRoot "/data/work".toList member) ∧
    ((∀ member ∈ climbing.namelist, Contained atRoot "/data/work".toList member) →
      ∀ changed ∈ (safeExtract atRoot "/data/work".toList (sentAsZip climbing) jobDrive).2.changed,
        place atRoot "/data/work".toList <+: changed) := by
  apply zip_guard_exact _ _ _ climbing (sent_as_zip_holds climbing)
  have dest : place atRoot "/data/work".toList = ["data", "work"] := by decide
  constructor
  · exact find_root
  · rw [dest]
    decide +kernel
  · decide
  · rw [dest]
    decide +kernel
  · rfl

end PretextBuildServer.SafeExtract
