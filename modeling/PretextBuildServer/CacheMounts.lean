import Mathlib.Data.List.MinMax
import PretextBuildServer.BuildWorker
import PretextBuildServer.ExactHarvest

/-!
# The mounts of a build

The worker names the cache by its own paths, the daemon by those of the host, and
the container by those of its mounts. All three are one directory.
-/

namespace PretextBuildServer.CacheMounts

open EffectProgram EffectProgram.Program PosixDisk
open PretextBuildServer.ServerSettings PretextBuildServer.JobCalls
open PretextBuildServer.NameValidators PretextBuildServer.DiskCalls PretextBuildServer.AssetCache
open PretextBuildServer.BuildWorker PretextBuildServer.HarvestRuns

set_option autoImplicit false

/-! ## Volumes -/

/-- The volume a path of the container lies in: the one with the longest mount point. -/
def mostSpecific (volumes : Volumes) (path : Path) : Option (Path × Bind) :=
  (volumes.filter fun volume => volume.2.bind.isPrefixOf path).argmax fun volume => volume.2.bind.length

/-- A path of the Docker host as the worker has it: both data directories are the same. -/
def workerPath (settings : Settings) (host : Path) : Option Path :=
  settings.hostDataDir.bind fun hostDataDir =>
    if hostDataDir <+: host then some (settings.dataDir ++ host.drop hostDataDir.length) else none

/-- What the container finds at a path of one of its volumes. -/
def containerView (settings : Settings) (disk : Disk) (volumes : Volumes)
    (path : Path) : Option Entry :=
  (mostSpecific volumes path).bind fun volume =>
    (workerPath settings volume.1).bind fun source =>
      (disk.locate source).bind fun place => disk.find (place ++ path.drop volume.2.bind.length)

def typeVolume (settings : Settings) (project assetType : String) : Path × Bind :=
  (hostRoot settings ++ [project] ++ [assetType],
    { bind := ["work"] ++ settings.generateOutputSubdir ++ [assetType], mode := "rw" })

section Volumes

variable {volumes : Volumes} {entry volume : Path × Bind}

theorem update_one : volumes.update [entry] =
    if volumes.any (·.1 == entry.1) then
      volumes.map fun old => if old.1 == entry.1 then entry else old
    else volumes ++ [entry] := rfl

theorem mem_update_one : volume ∈ volumes.update [entry] ↔
    volume = entry ∨ volume ∈ volumes ∧ volume.1 ≠ entry.1 := by
  rw [update_one]
  split
  · rename_i present
    rw [List.mem_map]
    constructor
    · rintro ⟨old, member, rfl⟩
      by_cases same : old.1 = entry.1
      · simp [same]
      · simp [same, member]
    · rintro (rfl | ⟨member, other⟩)
      · obtain ⟨old, member, same⟩ := List.any_eq_true.mp present
        exact ⟨old, member, by rw [if_pos same]⟩
      · exact ⟨volume, member, by rw [if_neg (by simpa using other)]⟩
  · rename_i absent
    rw [List.mem_append, List.mem_singleton, or_comm]
    apply or_congr_right
    refine ⟨fun member => ⟨member, ?_⟩, And.left⟩
    intro same
    exact absent (List.any_eq_true.mpr ⟨volume, member, by simp [same]⟩)

theorem update_cons (entries : Volumes) :
    volumes.update (entry :: entries) = (volumes.update [entry]).update entries := rfl

end Volumes

section Views

variable {settings : Settings} {project assetType : String} {volumes more : Volumes}
  {types : List String}

theorem type_volume_injective {other : String}
    (same : (typeVolume settings project assetType).1 = (typeVolume settings project other).1) :
    assetType = other := by
  simpa [typeVolume] using same

def VolumesOf (settings : Settings) (project : String) (types : List String)
    (volumes : Volumes) : Prop :=
  ∀ volume, volume ∈ volumes ↔ ∃ assetType ∈ types, volume = typeVolume settings project assetType

theorem update_types (these : VolumesOf settings project types volumes) (assetType : String) :
    VolumesOf settings project (types ++ [assetType])
      (volumes.update [typeVolume settings project assetType]) := by
  intro volume
  rw [mem_update_one, these]
  constructor
  · rintro (rfl | ⟨⟨other, member, rfl⟩, -⟩)
    · exact ⟨assetType, by simp, rfl⟩
    · exact ⟨other, by simp [member], rfl⟩
  · rintro ⟨other, member, rfl⟩
    by_cases same : other = assetType
    · exact .inl (by rw [same])
    · rw [List.mem_append, List.mem_singleton] at member
      refine .inr ⟨⟨other, member.resolve_right same, rfl⟩, ?_⟩
      exact fun keys => same (type_volume_injective keys)

/-- The dict of the container: the volumes of the types stay, and nothing comes
but what is in either of the two. -/
theorem update_covers (these : ∀ volume ∈ more, ∃ assetType ∈ types, volume = typeVolume settings project assetType)
    (volume : Path × Bind) :
    (volume ∈ volumes.update more → volume ∈ volumes ∨ volume ∈ more) ∧
      (∀ assetType, volume = typeVolume settings project assetType →
        volume ∈ volumes ∨ volume ∈ more → volume ∈ volumes.update more) := by
  induction more generalizing volumes with
  | nil => exact ⟨.inl, fun assetType _ member => member.resolve_right (by simp)⟩
  | cons entry more induction =>
      obtain ⟨first, others⟩ := List.forall_mem_cons.mp these
      obtain ⟨within, stays⟩ := @induction (volumes.update [entry]) others
      rw [update_cons]
      constructor
      · intro member
        rcases within member with before | later
        · rcases mem_update_one.mp before with rfl | ⟨old, -⟩
          · exact .inr List.mem_cons_self
          · exact .inl old
        · exact .inr (List.mem_cons_of_mem _ later)
      · intro assetType named member
        apply stays assetType named
        rw [mem_update_one]
        by_cases same : volume = entry
        · exact .inl (.inl same)
        · rcases member with old | new
          · refine .inl (.inr ⟨old, ?_⟩)
            obtain ⟨other, -, rfl⟩ := first
            rw [named]
            intro keys
            rw [type_volume_injective keys] at named
            exact same named
          · exact .inr ((List.mem_cons.mp new).resolve_left same)

theorem mounted_lookup (hostWork : Path) (these : VolumesOf settings project types more)
    (ofType : assetType ∈ types) (rest : Names) :
    mostSpecific ((workVolume hostWork).update more)
        (["work"] ++ settings.generateOutputSubdir ++ assetType :: rest) =
      some (typeVolume settings project assetType) := by
  have covers := @update_covers settings project (workVolume hostWork) more types
    (fun volume member => (these volume).mp member)
  have present : typeVolume settings project assetType ∈ (workVolume hostWork).update more :=
    (covers _).2 assetType rfl (.inr ((these _).mpr ⟨assetType, ofType, rfl⟩))
  have longest : ∀ volume ∈ (workVolume hostWork).update more,
      volume.2.bind <+: ["work"] ++ settings.generateOutputSubdir ++ assetType :: rest →
      volume.2.bind.length ≤ (typeVolume settings project assetType).2.bind.length ∧
        ((typeVolume settings project assetType).2.bind.length ≤ volume.2.bind.length →
          volume = typeVolume settings project assetType) := by
    intro volume member within
    rcases (covers volume).1 member with work | mounted
    · rw [workVolume, List.mem_singleton] at work
      rw [work]
      constructor
      · simp [typeVolume]
      · intro longer
        simp [typeVolume] at longer
    · obtain ⟨other, -, rfl⟩ := (these volume).mp mounted
      refine ⟨by simp [typeVolume], fun _ => ?_⟩
      simp only [typeVolume, List.append_assoc, List.cons_append, List.nil_append] at within
      rw [List.cons_prefix_cons, List.prefix_append_right_inj, List.cons_prefix_cons] at within
      rw [within.2.1]
  have inside : typeVolume settings project assetType ∈ ((workVolume hostWork).update more).filter
      fun volume => volume.2.bind.isPrefixOf
        (["work"] ++ settings.generateOutputSubdir ++ assetType :: rest) := by
    apply List.mem_filter.mpr
    refine ⟨present, ?_⟩
    rw [List.isPrefixOf_iff_prefix]
    exact ⟨rest, by simp [typeVolume]⟩
  rw [mostSpecific, List.argmax_eq_some_iff]
  refine ⟨inside, ?_, ?_⟩
  · intro volume member
    obtain ⟨listed, within⟩ := List.mem_filter.mp member
    exact (longest volume listed (List.isPrefixOf_iff_prefix.mp within)).1
  · intro volume member longer
    obtain ⟨listed, within⟩ := List.mem_filter.mp member
    rw [(longest volume listed (List.isPrefixOf_iff_prefix.mp within)).2 longer]

theorem view_of_file {disk : Disk} {hostDataDir : Path}
    (hosted : settings.hostDataDir = some hostDataDir)
    (hostWork : Path) (these : VolumesOf settings project types more) (ofType : assetType ∈ types)
    (plain : ∀ part ∈ root settings ++ [project, assetType], isPlain part = true) {rest : Names}
    (some : rest ≠ []) {bytes : Bytes}
    (found : disk.find (root settings ++ project :: assetType :: rest) = .some (.file bytes)) :
    containerView settings disk ((workVolume hostWork).update more)
      (["work"] ++ settings.generateOutputSubdir ++ assetType :: rest) = .some (.file bytes) := by
  have inside : disk.find (root settings ++ [project, assetType]) = .some .directory := by
    apply ancestor_is_directory some
    rw [List.append_assoc, List.cons_append, List.cons_append, List.nil_append]
    exact found
  have host : workerPath settings (typeVolume settings project assetType).1 =
      .some (root settings ++ [project, assetType]) := by
    have spelled : (typeVolume settings project assetType).1 =
        hostDataDir ++ [settings.assetCacheSubdir, project, assetType] := by
      simp [typeVolume, hostRoot, hosted]
    rw [workerPath, hosted, Option.bind_some, spelled, if_pos (List.prefix_append _ _), List.drop_left]
    simp [root]
  have located := locate_straight (straight_to_directory plain inside)
  have rested : (["work"] ++ settings.generateOutputSubdir ++ assetType :: rest).drop
      (typeVolume settings project assetType).2.bind.length = rest := by
    have split : ["work"] ++ settings.generateOutputSubdir ++ assetType :: rest =
        (typeVolume settings project assetType).2.bind ++ rest := by simp [typeVolume]
    rw [split, List.drop_left]
  rw [containerView, mounted_lookup hostWork these ofType, Option.bind_some, host, Option.bind_some,
    located, Option.bind_some, rested, List.append_assoc, List.cons_append, List.cons_append,
    List.nil_append, found]

end Views

/-! ## Mount points -/

/-- A project as an archive may leave it: from its root to that of the generated cache
and to the types' directories in there stand real directories, or nothing. -/
structure Unpacked (settings : Settings) (workDir : Place) (disk : Disk) : Prop where
  plain : ∀ part ∈ workDir ++ settings.generateOutputSubdir, isPlain part = true
  directory : disk.find workDir = some .directory
  way : ∀ front, front <+: settings.generateOutputSubdir →
    disk.find (workDir ++ front) = none ∨ disk.find (workDir ++ front) = some .directory
  types : ∀ assetType ∈ settings.assetCacheTypes,
    disk.find (workDir ++ settings.generateOutputSubdir ++ [assetType]) = none ∨
      disk.find (workDir ++ settings.generateOutputSubdir ++ [assetType]) = some .directory

/-- Directories have come below a place, and nothing else has changed. -/
def Grown (tree : Place) (disk later : Disk) : Prop :=
  ∀ place, later.find place = disk.find place ∨
    tree <+: place ∧ disk.find place = none ∧ later.find place = some .directory

section Mounts

variable {settings : Settings} {project : String} {workDir : Place} {world : DiskWorld}

theorem grown_refl (tree : Place) (disk : Disk) : Grown tree disk disk := fun _ => .inl rfl

theorem grown_trans {tree : Place} {disk middle later : Disk} (first : Grown tree disk middle)
    (second : Grown tree middle later) : Grown tree disk later := by
  intro place
  rcases second place with same | ⟨within, free, directory⟩
  · rw [same]
    exact first place
  · rcases first place with before | ⟨-, -, made⟩
    · rw [before] at free
      exact .inr ⟨within, free, directory⟩
    · rw [free] at made
      cases made

theorem grown_file {tree place : Place} {disk later : Disk} (grown : Grown tree disk later)
    {bytes : Bytes}
    (file : disk.find place = some (.file bytes)) : later.find place = some (.file bytes) := by
  rcases grown place with same | ⟨-, free, -⟩
  · rw [same, file]
  · rw [file] at free
    cases free

theorem unpacked_above (unpacked : Unpacked settings workDir world.drive.disk) {front : Names}
    (within : front <+: workDir) : world.drive.disk.find front = some .directory := by
  obtain ⟨rest, whole⟩ := within
  by_cases top : rest = []
  · rw [top, List.append_nil] at whole
    rw [whole]
    exact unpacked.directory
  · apply ancestor_is_directory top
    rw [whole]
    exact unpacked.directory

theorem unpacked_way (unpacked : Unpacked settings workDir world.drive.disk) {front : Names}
    (within : front <+: workDir ++ settings.generateOutputSubdir) :
    world.drive.disk.find front = none ∨ world.drive.disk.find front = some .directory := by
  rcases List.prefix_or_prefix_of_prefix within (List.prefix_append workDir _) with
    above | ⟨rest, rfl⟩
  · exact .inr (unpacked_above unpacked above)
  · exact unpacked.way rest ((List.prefix_append_right_inj _).mp within)

theorem unpacked_type_way (unpacked : Unpacked settings workDir world.drive.disk)
    {assetType : String} (ofType : assetType ∈ settings.assetCacheTypes) {front : Names}
    (within : front <+: workDir ++ settings.generateOutputSubdir ++ [assetType]) :
    world.drive.disk.find front = none ∨ world.drive.disk.find front = some .directory := by
  rcases List.prefix_concat_iff.mp within with rfl | shorter
  · exact unpacked.types assetType ofType
  · exact unpacked_way unpacked shorter

theorem grown_unpacked {later : Disk} (unpacked : Unpacked settings workDir world.drive.disk)
    (grown : Grown workDir world.drive.disk later) : Unpacked settings workDir later := by
  have still : ∀ place, world.drive.disk.find place = none ∨ world.drive.disk.find place = some .directory →
      later.find place = none ∨ later.find place = some .directory := by
    intro place free
    rcases grown place with same | ⟨-, -, made⟩
    · rw [same]
      exact free
    · exact .inr made
  refine ⟨unpacked.plain, ?_, ?_, ?_⟩
  · rcases grown workDir with same | ⟨-, -, made⟩
    · rw [same]
      exact unpacked.directory
    · exact made
  · exact fun front within => still _ (unpacked.way front within)
  · exact fun assetType ofType => still _ (unpacked.types assetType ofType)

theorem makedirs_grows (unpacked : Unpacked settings workDir world.drive.disk) {path : Names}
    (plain : ∀ part ∈ path, isPlain part = true) (inside : workDir <+: path)
    (free : ∀ front, front <+: path →
      world.drive.disk.find front = none ∨ world.drive.disk.find front = some .directory) :
    ∃ later, Completes onDisk world (diskCall (.makedirs path)) () { world with drive := later } ∧
      Grown workDir world.drive.disk later.disk ∧ later.disk.find path = some .directory := by
  obtain ⟨later, paved⟩ := make_dirs_paves (passable_unlinked plain free) (passable_no_file free)
  refine ⟨later, completes_call ?_, ?_, ?_⟩
  · rw [onDisk, DiskWorld.lift, paved.made]
    rfl
  · intro place
    rw [paved.found]
    split
    · rename_i within
      rcases free place within with none | directory
      · refine .inr ⟨?_, none, rfl⟩
        apply (List.prefix_or_prefix_of_prefix inside within).resolve_right
        intro above
        rw [unpacked_above unpacked above] at none
        cases none
      · exact .inl directory.symm
    · exact .inl rfl
  · rw [paved.found, if_pos List.prefix_rfl]

theorem mount_types (unpacked : Unpacked settings workDir world.drive.disk)
    (plain : ∀ assetType ∈ settings.assetCacheTypes, isPlain assetType = true) (types : List String)
    (ofSettings : ∀ assetType ∈ types, assetType ∈ settings.assetCacheTypes) {done : List String}
    {volumes : Volumes} (these : VolumesOf settings project done volumes) :
    ∃ after more, Completes onDisk world (types.foldlM (mountType settings (hostRoot settings ++ [project])
        (workDir ++ settings.generateOutputSubdir)) volumes) more after ∧
      VolumesOf settings project (done ++ types) more ∧
      Grown workDir world.drive.disk after.drive.disk := by
  induction types generalizing world done volumes with
  | nil =>
      refine ⟨world, volumes, completes_pure world volumes, ?_, grown_refl workDir _⟩
      rw [List.append_nil]
      exact these
  | cons assetType types induction =>
      obtain ⟨ofType, others⟩ := List.forall_mem_cons.mp ofSettings
      have plainPath : ∀ part ∈ workDir ++ settings.generateOutputSubdir ++ [assetType], isPlain part = true :=
        List.forall_mem_append.mpr
          ⟨unpacked.plain, List.forall_mem_singleton.mpr (plain assetType ofType)⟩
      obtain ⟨later, made, grown, -⟩ := makedirs_grows unpacked plainPath
        (by rw [List.append_assoc]; exact List.prefix_append _ _)
        fun front within => unpacked_type_way unpacked ofType within
      obtain ⟨after, more, rest, volumesMore, further⟩ := @induction { world with drive := later }
        (grown_unpacked unpacked grown) others _ _ (update_types these assetType)
      refine ⟨after, more, ?_, ?_, grown_trans grown further⟩
      · rw [List.foldlM_cons]
        exact completes_bind (completes_bind made (completes_pure _ _)) rest
      · rwa [List.append_assoc, List.singleton_append] at volumesMore

theorem mounts_complete (unpacked : Unpacked settings workDir world.drive.disk)
    (plain : ∀ assetType ∈ settings.assetCacheTypes, isPlain assetType = true)
    (valid : matchesProjectId project.toList = true) :
    ∃ after volumes, Completes onDisk world (mounts settings project workDir) volumes after ∧
      VolumesOf settings project settings.assetCacheTypes volumes ∧
      Grown workDir world.drive.disk after.drive.disk := by
  obtain ⟨later, made, grown, directory⟩ := makedirs_grows unpacked unpacked.plain
    (List.prefix_append _ _) fun front within => unpacked_way unpacked within
  have exist : later.disk.exist (workDir ++ settings.generateOutputSubdir) = true := by
    rw [Disk.exist, Disk.stat, locate_straight (straight_to_directory unpacked.plain directory),
      Option.bind_some, directory]
    rfl
  have marks : onDisk { world with drive := later } (.chmod (workDir ++ settings.generateOutputSubdir)) =
      (.ok (), { world with drive := later }) := by
    rw [onDisk, exist]
    rfl
  have none : VolumesOf settings project [] [] := by simp [VolumesOf]
  obtain ⟨after, volumes, rest, these, further⟩ := @mount_types settings project workDir
    { world with drive := later } (grown_unpacked unpacked grown) plain settings.assetCacheTypes
    (fun _ => id) [] [] none
  refine ⟨after, volumes, ?_, these, grown_trans grown further⟩
  unfold mounts projectDir
  rw [if_pos valid, pure_bind]
  exact completes_bind made (completes_bind (completes_call marks) rest)

end Mounts

end PretextBuildServer.CacheMounts
