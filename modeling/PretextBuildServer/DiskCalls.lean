import PretextBuildServer.Library.PosixCalls
import PretextBuildServer.JobCalls

/-!
# What the asset cache calls, and a worker's disk

The calls of `os`, `os.path` and `shutil` the cache is written with, and what a
disk answers them when no device fails. A path is the list of its names from
the root. `makedirs` is one call here, and `copyfile` reads its source in one.
-/

namespace PretextBuildServer.DiskCalls

open EffectProgram EffectProgram.Program PosixDisk
open PretextBuildServer.ServerSettings PretextBuildServer.JobCalls

set_option autoImplicit false

/-- An entry of a directory, as `os.scandir` describes it. `isDir` looks
through a link, `isRealDir` does not. -/
structure DirEntry where
  name : String
  isDir : Bool
  isRealDir : Bool
  mtime : Int
  deriving DecidableEq, Repr

inductive DiskCall where
  | isDir (path : Path)
  | isLink (path : Path)
  | isFile (path : Path)
  | exist (path : Path)
  | sameFile (path other : Path)
  | scandir (path : Path)
  | fileSize (path : Path)
  | time
  | timeNs
  | makedirs (path : Path)
  | chmod (path : Path)
  | utime (path : Path)
  | readFile (path : Path)
  | openWrite (path : Path)
  | write (file : Place) (chunk : Bytes)
  | replace (source target : Path)
  | remove (path : Path)
  | rmdir (path : Path)
  deriving DecidableEq

/-- `readFile` answers the blocks that were read, `openWrite` the file that is
open for writing. -/
abbrev DiskCall.Answer : DiskCall → Type
  | .isDir _ | .isLink _ | .isFile _ | .exist _ | .sameFile .. => Bool
  | .scandir _ => List DirEntry
  | .fileSize _ => Nat
  | .time => Int
  | .timeNs => Nat
  | .readFile _ => List Bytes
  | .openWrite _ => Place
  | _ => Unit

abbrev DiskProgram := Program DiskCall.Answer Raised

abbrev diskCall (request : DiskCall) : DiskProgram request.Answer := Program.perform request

abbrev DiskReply (request : DiskCall) : Type := Except Raised request.Answer

/-! ## A disk that does not fail -/

/-- `lastUse` are the stamps `utime` sets; the clock counts nanoseconds. -/
structure DiskWorld where
  drive : Drive
  clock : Nat
  lastUse : Place → Int

def raisedBy : Refusal → Raised
  | .fileExists => { kind := .fileExistsError }
  | .failed => { kind := .osError }

def refused {Value : Type} : Except Raised Value := .error (raisedBy .failed)

/-- What a call does to the drive, as one to the world. -/
def DiskWorld.lift {Value : Type} (world : DiskWorld) (outcome : Outcome Value) :
    Except Raised Value × DiskWorld :=
  (outcome.1.mapError raisedBy, { world with drive := outcome.2 })

def DiskWorld.describe (world : DiskWorld) (dir : Place) (name : String) : DirEntry where
  name := name
  isDir := world.drive.disk.isDir (dir ++ [name])
  isRealDir := world.drive.disk.find (dir ++ [name]) = some .directory
  mtime := world.lastUse (dir ++ [name])

def DiskWorld.scandir (world : DiskWorld) (path : Path) : Except Raised (List DirEntry) :=
  match world.drive.disk.locate path with
  | some dir =>
      if world.drive.disk.find dir = some .directory then
        .ok ((world.drive.disk.names dir).map (world.describe dir))
      else refused
  | none => refused

/-- The text `readlink` gives. -/
def linkText (target : Target) : String :=
  (if target.absolute then "/" else "") ++ "/".intercalate target.names

/-- `st_size`, of anything but a directory. -/
def entrySize : Entry → Nat
  | .file bytes => bytes.length
  | .link target => (linkText target).utf8ByteSize
  | .directory => 0

def DiskWorld.sameFile (world : DiskWorld) (path other : Path) : Bool :=
  world.drive.disk.exist path && world.drive.disk.exist other &&
    world.drive.disk.locate path == world.drive.disk.locate other

def onDisk (world : DiskWorld) : (request : DiskCall) → DiskReply request × DiskWorld
  | .isDir path => (.ok (world.drive.disk.isDir path), world)
  | .isLink path => (.ok (world.drive.disk.isLink path), world)
  | .isFile path => (.ok (world.drive.disk.isFile path), world)
  | .exist path => (.ok (world.drive.disk.exist path), world)
  | .sameFile path other => (.ok (world.sameFile path other), world)
  | .scandir path => (world.scandir path, world)
  | .fileSize path =>
      match world.drive.disk.lstat path with
      | some entry => (.ok (entrySize entry), world)
      | none => (refused, world)
  | .time => (.ok (world.clock / 1000000000), world)
  | .timeNs => (.ok world.clock, { world with clock := world.clock + 1 })
  | .makedirs path => world.lift (world.drive.makeDirs path)
  | .chmod path => (if world.drive.disk.exist path then .ok () else refused, world)
  | .utime path =>
      match world.drive.disk.locate path with
      | some place =>
          (if (world.drive.disk.find place).isSome then .ok () else refused,
            { world with
              lastUse := Function.update world.lastUse place (world.clock / 1000000000) })
      | none => (refused, world)
  | .readFile path =>
      match world.drive.disk.stat path with
      | some (.file bytes) => (.ok [bytes], world)
      | _ => (refused, world)
  | .openWrite path => world.lift (world.drive.create path)
  | .write file chunk => world.lift (world.drive.append file chunk)
  | .replace source target => world.lift (world.drive.replace source target)
  | .remove path => world.lift (world.drive.remove path)
  | .rmdir path => world.lift (world.drive.rmdir path)

end PretextBuildServer.DiskCalls
