import Mathlib.Data.List.Sort
import PretextBuildServer.DiskCalls
import PretextBuildServer.NameValidators

/-!
# The persistent asset cache

Each project has a cache directory on the host, with one directory for each
asset type in it. `depth` bounds how deep a walk goes down a tree.
-/

namespace PretextBuildServer.AssetCache

open EffectProgram EffectProgram.Program PosixDisk
open PretextBuildServer.ServerSettings PretextBuildServer.JobCalls
open PretextBuildServer.NameValidators PretextBuildServer.DiskCalls

set_option autoImplicit false

def root (settings : Settings) : Path := settings.dataDir ++ [settings.assetCacheSubdir]

/-- A path on the Docker host, handed to the daemon as it is. -/
def hostRoot (settings : Settings) : Path :=
  settings.hostDataDir.getD [] ++ [settings.assetCacheSubdir]

def projectDir (settings : Settings) (projectId : String) : DiskProgram Path :=
  if matchesProjectId projectId.toList then return root settings ++ [projectId]
  else raise { kind := .valueError, message := s!"invalid project_id: '{projectId}'" }

def touchType (pdir : Path) (assetType : String) : DiskProgram Unit := do
  let d := pdir ++ [assetType]
  diskCall (.makedirs d)
  diskCall (.chmod d)

def touch (settings : Settings) (projectId : String) : DiskProgram Unit := do
  let pdir ← projectDir settings projectId
  settings.assetCacheTypes.forM (touchType pdir)
  diskCall (.utime pdir)

/-- The mount point of one type, and its entry among the volumes. -/
def mountType (settings : Settings) (hostPdir cacheRoot : Path) (volumes : Volumes)
    (assetType : String) : DiskProgram Volumes := do
  diskCall (.makedirs (cacheRoot ++ [assetType]))
  let bind := ["work"] ++ settings.generateOutputSubdir ++ [assetType]
  return volumes.update [(hostPdir ++ [assetType], { bind, mode := "rw" })]

def mounts (settings : Settings) (projectId : String) (workDir : Path) : DiskProgram Volumes := do
  let _pdir ← projectDir settings projectId
  let hostPdir := hostRoot settings ++ [projectId]
  let cacheRoot := workDir ++ settings.generateOutputSubdir
  diskCall (.makedirs cacheRoot)
  diskCall (.chmod cacheRoot)
  settings.assetCacheTypes.foldlM (mountType settings hostPdir cacheRoot) []

/-! ## Harvesting -/

/-- `os.path.isdir(path) and not os.path.islink(path)` -/
def isRealDir (path : Path) : DiskProgram Bool := do
  let directory ← diskCall (.isDir path)
  if directory then (! ·) <$> diskCall (.isLink path) else return false

/-- `not os.path.islink(path) and os.path.isfile(path)` -/
def isRealFile (path : Path) : DiskProgram Bool := do
  let link ← diskCall (.isLink path)
  if link then return false else diskCall (.isFile path)

/-- `_SUBDIR_NAME.match(d) and not os.path.islink(os.path.join(root, d))` -/
def isPlainSubdir (dir : Path) (name : String) : DiskProgram Bool :=
  if matchesSubdirName name.toList then (! ·) <$> diskCall (.isLink (dir ++ [name]))
  else return false

def transfer (src dst : Path) : DiskProgram Unit := do
  let blocks ← diskCall (.readFile src)
  let file ← diskCall (.openWrite dst)
  blocks.forM fun block => diskCall (.write file block)

/-- `shutil.copyfile` -/
def copyfile (src dst : Path) : DiskProgram Unit := do
  let same ← diskCall (.sameFile src dst)
  if same then raise { kind := .osError, message := "source and destination are the same file" }
  else transfer src dst

def tempName (name : String) (pid timeNs : Nat) : String := s!".{name}.tmp-{pid}-{timeNs}"

/-- `try: os.remove(tmp)`, `except OSError: pass` -/
def discardTemp (tmp : Path) : DiskProgram Unit :=
  rescue (diskCall (.remove tmp)) fun (raised : Raised) =>
    if raised.isOSError then return else raise raised

/-- `except OSError` of the copy -/
def abandon (tmp : Path) (raised : Raised) : DiskProgram Bool :=
  if raised.isOSError then do
    discardTemp tmp
    return false
  else raise raised

/-- Copy a file under a temporary name and rename it into place; whether that
went well. -/
def promote (src tmp dest : Path) : DiskProgram Bool :=
  rescue
    (do
      copyfile src tmp
      diskCall (.replace tmp dest)
      return true)
    (abandon tmp)

/-- Where the files of one type come from and go to. -/
structure Route where
  assetType : String
  srcTypeDir : Path
  destTypeDir : Path

def Route.entryName (route : Route) (parts : List String) (name : String) : String :=
  "/".intercalate (route.assetType :: parts ++ [name])

/-- One file the walk comes upon. A file already in the cache is left alone. -/
def harvestFile (pid : Nat) (route : Route) (parts : List String) (added : List String)
    (name : String) : DiskProgram (List String) := do
  let src := route.srcTypeDir ++ parts ++ [name]
  if !matchesCacheFilename name.toList then return added
  else if !(← isRealFile src) then return added
  else
    let destDir := route.destTypeDir ++ parts
    let dest := destDir ++ [name]
    if ← diskCall (.exist dest) then return added
    else
      diskCall (.makedirs destDir)
      let now ← diskCall .timeNs
      let promoted ← promote src (destDir ++ [tempName name pid now]) dest
      return if promoted then added ++ [route.entryName parts name] else added

/-- `os.walk` from one directory on, with the body of the loop over it. A
directory that cannot be listed is passed over. -/
def harvestDir (pid : Nat) (route : Route) : Nat → List String → List String →
    DiskProgram (List String)
  | 0, _, added => return added
  | depth + 1, parts, added =>
      let dir := route.srcTypeDir ++ parts
      (diskCall (.scandir dir)).andThen fun
        | .error (raised : Raised) => if raised.isOSError then return added else raise raised
        | .ok (entries : List DirEntry) => do
            let subdirs := (entries.filter (·.isDir)).map (·.name)
            let files := (entries.filter fun entry => !entry.isDir).map (·.name)
            let dirs ← select (isPlainSubdir dir) subdirs
            let added ← files.foldlM (harvestFile pid route parts) added
            -- the walk itself looks for links once more before it goes down
            let walked ← select (fun d => (! ·) <$> diskCall (.isLink (dir ++ [d]))) dirs
            walked.foldlM (fun added d => harvestDir pid route depth (parts ++ [d]) added) added

def harvestType (pid depth : Nat) (cacheRoot pdir : Path) (added : List String)
    (assetType : String) : DiskProgram (List String) := do
  let srcTypeDir := cacheRoot ++ [assetType]
  if ← isRealDir srcTypeDir then
    harvestDir pid { assetType, srcTypeDir, destTypeDir := pdir ++ [assetType] } depth [] added
  else return added

def harvest (settings : Settings) (pid depth : Nat) (projectId : String) (workDir : Path) :
    DiskProgram (List String) := do
  let pdir ← projectDir settings projectId
  let cacheRoot := workDir ++ settings.generateOutputSubdir
  settings.assetCacheTypes.foldlM (harvestType pid depth cacheRoot pdir) []

/-! ## Pruning -/

def ignoringOSError (program : DiskProgram Unit) : DiskProgram Unit :=
  rescue program fun (raised : Raised) => if raised.isOSError then return else raise raised

/-- What `shutil.rmtree(path, ignore_errors=True)` does inside a directory. -/
def clearDir : Nat → Path → DiskProgram Unit
  | 0, _ => return
  | depth + 1, path =>
      ignoringOSError do
        let entries : List DirEntry ← diskCall (.scandir path)
        entries.forM fun entry =>
          if entry.isRealDir then do
            clearDir depth (path ++ [entry.name])
            ignoringOSError (diskCall (.rmdir (path ++ [entry.name])))
          else ignoringOSError (diskCall (.remove (path ++ [entry.name])))

def rmtree (depth : Nat) (path : Path) : DiskProgram Unit := do
  clearDir depth path
  ignoringOSError (diskCall (.rmdir path))

def filesSize (dir : Path) (total : Nat) (entry : DirEntry) : DiskProgram Nat :=
  rescue
    (do
      let size : Nat ← diskCall (.fileSize (dir ++ [entry.name]))
      return total + size)
    fun (raised : Raised) => if raised.isOSError then return total else raise raised

def dirSize : Nat → Path → Nat → DiskProgram Nat
  | 0, _, total => return total
  | depth + 1, path, total =>
      (diskCall (.scandir path)).andThen fun
        | .error (raised : Raised) => if raised.isOSError then return total else raise raised
        | .ok (entries : List DirEntry) => do
            let total ← (entries.filter fun entry => !entry.isDir).foldlM (filesSize path) total
            let walked ← select (fun d => (! ·) <$> diskCall (.isLink (path ++ [d])))
              ((entries.filter (·.isDir)).map (·.name))
            walked.foldlM (fun total d => dirSize depth (path ++ [d]) total) total

/-- First what nobody has used for longer than the age limit. -/
def evictUnused (settings : Settings) (depth : Nat) (now : Int) (live : List DirEntry)
    (project : DirEntry) : DiskProgram (List DirEntry) :=
  if now - project.mtime > settings.assetCacheMaxAge then do
    rmtree depth (root settings ++ [project.name])
    return live
  else return live ++ [project]

/-- Then the least recently used, until the rest fits. -/
def evictToFit (settings : Settings) (depth : Nat) (total : Int) (project : DirEntry × Nat) :
    DiskProgram Int :=
  if total ≤ settings.assetCacheMaxBytes then return total
  else do
    rmtree depth (root settings ++ [project.1.name])
    return total - project.2

/-- The order `sorted` puts the tuples in; all paths start alike. -/
def olderThan (first second : DirEntry × Nat) : Bool :=
  first.1.mtime < second.1.mtime ||
    (first.1.mtime == second.1.mtime && first.1.name ≤ second.1.name)

def withSize (settings : Settings) (depth : Nat) (project : DirEntry) :
    DiskProgram (DirEntry × Nat) := do
  let size ← dirSize depth (root settings ++ [project.name]) 0
  return (project, size)

def keptSize (settings : Settings) (depth : Nat) (keepProjectId : Option String) :
    DiskProgram Nat :=
  match keepProjectId.filter (· ≠ "") with
  | some projectId => dirSize depth (root settings ++ [projectId]) 0
  | none => return 0

def prune (settings : Settings) (depth : Nat) (keepProjectId : Option String) :
    DiskProgram Unit := do
  if !(← diskCall (.isDir (root settings))) then return
  else
    let now ← diskCall .time
    (diskCall (.scandir (root settings))).andThen fun
      | .error (raised : Raised) => if raised.isOSError then return else raise raised
      | .ok (entries : List DirEntry) => do
          let projects := entries.filter fun entry =>
            keepProjectId != some entry.name && entry.isRealDir
          let live ← projects.foldlM (evictUnused settings depth now) []
          if settings.assetCacheMaxBytes ≤ 0 then return
          else
            let sized ← live.mapM (withSize settings depth)
            let kept ← keptSize settings depth keepProjectId
            let total := (sized.map (·.2)).sum + kept
            let _left ← (sized.mergeSort olderThan).foldlM (evictToFit settings depth) total
            return

end PretextBuildServer.AssetCache
