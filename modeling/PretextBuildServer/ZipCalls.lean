import PretextBuildServer.DiskCalls

/-!
# What packing a tree calls

`os.walk` reads directories and tells links, `z.write` copies a file into the
archive. All of them take a path as a text, and the kernel takes no text of
`PATH_MAX` bytes or more. The format dates a member by its year, from 1980 to 2107.
-/

namespace PretextBuildServer.ZipCalls

open EffectProgram EffectProgram.Program PosixDisk
open PretextBuildServer.ServerSettings PretextBuildServer.JobCalls PretextBuildServer.DiskCalls

set_option autoImplicit false

inductive ZipCall where
  | scandir (path : Path)
  | isLink (path : Path)
  | write (path : Path)
  deriving DecidableEq

/-- `write` answers the bytes the archive now holds. -/
abbrev ZipCall.Answer : ZipCall → Type
  | .scandir _ => List DirEntry
  | .isLink _ => Bool
  | .write _ => Bytes

abbrev ZipProgram := Program ZipCall.Answer Raised

abbrev zipCall (request : ZipCall) : ZipProgram request.Answer := Program.perform request

abbrev ZipReply (request : ZipCall) : Type := Except Raised request.Answer

/-! ## Paths as the kernel takes them -/

/-- A slash in front of every name. -/
def pathBytes (path : Path) : Nat := (path.map fun name => name.utf8ByteSize + 1).sum

/-- With the zero byte at its end, a path has `PATH_MAX` bytes at most. -/
def fits (path : Path) : Bool := pathBytes path < 4096

theorem path_bytes_append (front back : Path) :
    pathBytes (front ++ back) = pathBytes front + pathBytes back := by
  simp [pathBytes]

theorem fits_front {front back : Path} (whole : fits (front ++ back) = true) :
    fits front = true := by
  rw [fits, decide_eq_true_eq, path_bytes_append] at whole
  rw [fits, decide_eq_true_eq]
  omega

/-! ## A tree that does not fail -/

/-- The kind of an entry is read with its directory, but what a link leads to is
looked up by its path. -/
def seenBy (path : Path) (entry : DirEntry) : DirEntry :=
  { entry with isDir := entry.isRealDir || entry.isDir && fits (path ++ [entry.name]) }

section Tree

-- `time.localtime(mtime).tm_year`
variable (localYear : Int → Int)

def inZipYears (mtime : Int) : Bool := 1980 ≤ localYear mtime && localYear mtime ≤ 2107

def tooEarly : Raised where
  kind := .valueError
  message := "ZIP does not support timestamps before 1980"

/-- `struct.error` -/
def tooLate : Raised where
  kind := .other
  message := "'H' format requires 0 <= number <= 65535"

/-- `z.write`: the file is dated by its modification time. -/
def zipWrite (world : DiskWorld) (path : Path) : Except Raised Bytes :=
  match fits path, world.drive.disk.locate path with
  | true, some place =>
      match world.drive.disk.find place with
      | some (.file bytes) =>
          if localYear (world.lastUse place) < 1980 then .error tooEarly
          else if 2107 < localYear (world.lastUse place) then .error tooLate
          else .ok bytes
      | _ => refused
  | _, _ => refused

def onTree (world : DiskWorld) : (request : ZipCall) → ZipReply request × DiskWorld
  | .scandir path =>
      (if fits path then (world.scandir path).map fun entries => entries.map (seenBy path)
        else refused, world)
  | .isLink path => (.ok (fits path && world.drive.disk.isLink path), world)
  | .write path => (zipWrite localYear world path, world)

variable {localYear} {world : DiskWorld} {path : Path}

/-- What is written is a file, its path is taken and its date can be told. -/
theorem zip_write_ok_iff {bytes : Bytes} : zipWrite localYear world path = .ok bytes ↔
    fits path = true ∧ ∃ place, world.drive.disk.locate path = some place ∧
      world.drive.disk.find place = some (.file bytes) ∧
        inZipYears localYear (world.lastUse place) = true := by
  unfold zipWrite inZipYears
  cases fits path with
  | false => simp [refused]
  | true =>
      cases world.drive.disk.locate path with
      | none => simp [refused]
      | some place =>
          cases found : world.drive.disk.find place with
          | none => simp [refused, found]
          | some entry =>
              cases entry with
              | directory => simp [refused, found]
              | link target => simp [refused, found]
              | file content =>
                  simp only [found]
                  split
                  · simp; omega
                  · split
                    · simp; omega
                    · have inYears : 1980 ≤ localYear (world.lastUse place) ∧
                          localYear (world.lastUse place) ≤ 2107 := by omega
                      simp [found, inYears]

theorem zip_write_stat {bytes : Bytes} (written : zipWrite localYear world path = .ok bytes) :
    world.drive.disk.stat path = some (.file bytes) := by
  obtain ⟨-, place, located, found, -⟩ := zip_write_ok_iff.mp written
  rw [Disk.stat, located, Option.bind_some, found]

theorem tree_unchanged {Result : Type} (program : ZipProgram Result) :
    (run (onTree localYear) world program).2 = world := by
  induction program with
  | done outcome => rfl
  | call request next induction =>
      rw [run_call]
      have still : (onTree localYear world request).2 = world := by cases request <;> rfl
      rw [still]
      exact induction _

end Tree

end PretextBuildServer.ZipCalls
