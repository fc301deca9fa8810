import PretextBuildServer.HarvestConfinement
import PretextBuildServer.Library.PosixWalks
import PretextBuildServer.Library.SmoothRuns
import PretextBuildServer.Library.WriteOnce
import PretextBuildServer.PathTexts

/-!
# A cache of directories and files

Left to harvests, touches and prunes, the cache has a directory for each project
and each of its types, and below them directories and files whose names tell
them apart: that of a file has a dot in it. So a copy is never in the way of a
directory, and every call on the way of one goes through.
-/

namespace PretextBuildServer.TidyCache

open EffectProgram EffectProgram.Program PosixDisk WriteOnce
open PretextBuildServer.ServerSettings PretextBuildServer.JobCalls
open PretextBuildServer.NameValidators PretextBuildServer.DiskCalls PretextBuildServer.AssetCache
open PretextBuildServer.HarvestRuns PretextBuildServer.HarvestConfinement

set_option autoImplicit false

/-- Below a project's directory: the directory itself, that of a type, or one below it. -/
def CacheDir (rest : Names) : Prop := ∀ dir ∈ rest.tail, matchesSubdirName dir.toList = true

def CacheFile (rest : Names) : Prop :=
  ∃ assetType dirs name, rest = assetType :: (dirs ++ [name]) ∧
    (∀ dir ∈ dirs, matchesSubdirName dir.toList = true) ∧ matchesCacheFilename name.toList = true

/-- A project's cache holds directories and cache files, and directories lead to it. -/
structure Tidy (settings : Settings) (project : String) (disk : Disk) : Prop where
  above : ∀ front, front <+: root settings →
    disk.find front = none ∨ disk.find front = some .directory
  below : ∀ rest entry, disk.find (root settings ++ project :: rest) = some entry →
    entry = .directory ∧ CacheDir rest ∨ (∃ bytes, entry = .file bytes) ∧ CacheFile rest

section Names

variable {rest : Names}

theorem cache_file_not_dir (file : CacheFile rest) : ¬ CacheDir rest := by
  obtain ⟨assetType, dirs, name, rfl, -, cached⟩ := file
  intro named
  rw [subdir_uncached (named name (by simp))] at cached
  cases cached

theorem cache_dir_front {front : Names} (within : front <+: rest) (dir : CacheDir rest) :
    CacheDir front := by
  cases front with
  | nil => simp [CacheDir]
  | cons first front =>
      obtain ⟨more, rfl⟩ := within
      exact fun name member => dir name (List.mem_append_left more member)

theorem temp_not_subdir (name : String) (pid timeNs : Nat) :
    matchesSubdirName (tempName name pid timeNs).toList = false := by
  rw [Bool.eq_false_iff]
  intro matched
  unfold matchesSubdirName at matched
  split at matched
  · cases matched
  · rename_i first rest starts
    obtain ⟨more, same⟩ := starts_before_newline starts
    obtain ⟨tail, text⟩ := temp_name_text name pid timeNs
    rw [text, List.cons.injEq] at same
    rw [← same.1, Bool.and_eq_true] at matched
    exact absurd matched.1 (by decide)

theorem temp_out_of_place (dirs : Names) (name : String) (pid timeNs : Nat) (assetType : String) :
    ¬ CacheDir (assetType :: (dirs ++ [tempName name pid timeNs])) ∧
      ¬ CacheFile (assetType :: (dirs ++ [tempName name pid timeNs])) := by
  constructor
  · intro named
    have last := named (tempName name pid timeNs) (by simp)
    rw [temp_not_subdir] at last
    cases last
  · rintro ⟨twin, others, last, same, -, cached⟩
    have ends := List.append_inj_right' (List.cons.inj same).2 rfl
    rw [List.cons.injEq] at ends
    rw [← ends.1, temp_name_uncached] at cached
    cases cached

end Names

section Places

variable {settings : Settings} {project : String} {disk : Disk} {rest : Names}

theorem tidy_free_or_dir (tidy : Tidy settings project disk) (dir : CacheDir rest) :
    disk.find (root settings ++ project :: rest) = none ∨
      disk.find (root settings ++ project :: rest) = some .directory := by
  cases found : disk.find (root settings ++ project :: rest) with
  | none => exact .inl rfl
  | some entry =>
      rcases tidy.below rest entry found with ⟨rfl, -⟩ | ⟨-, file⟩
      · exact .inr rfl
      · exact absurd dir (cache_file_not_dir file)

theorem tidy_way (tidy : Tidy settings project disk) (dir : CacheDir rest) {front : Names}
    (within : front <+: root settings ++ project :: rest) :
    disk.find front = none ∨ disk.find front = some .directory := by
  rcases List.prefix_or_prefix_of_prefix within (List.prefix_append _ (project :: rest)) with
    above | ⟨below, rfl⟩
  · exact tidy.above front above
  · rcases List.prefix_cons_iff.mp ((List.prefix_append_right_inj _).mp within) with
      rfl | ⟨deeper, rfl, front⟩
    · rw [List.append_nil]
      exact tidy.above _ List.prefix_rfl
    · exact tidy_free_or_dir tidy (cache_dir_front front dir)

theorem tidy_no_file (tidy : Tidy settings project disk) (dir : CacheDir rest) (front : Names)
    (within : front <+: root settings ++ project :: rest) (bytes : Bytes) :
    disk.find front ≠ some (.file bytes) :=
  passable_no_file (fun _ => tidy_way tidy dir) front within bytes

theorem tidy_unlinked (tidy : Tidy settings project disk) (dir : CacheDir rest)
    (plain : ∀ name ∈ root settings ++ project :: rest, isPlain name = true) :
    disk.Unlinked (root settings ++ project :: rest) :=
  passable_unlinked plain fun _ => tidy_way tidy dir

theorem tidy_file_place (tidy : Tidy settings project disk) (file : CacheFile rest) :
    disk.find (root settings ++ project :: rest) = none ∨
      ∃ bytes, disk.find (root settings ++ project :: rest) = some (.file bytes) := by
  cases found : disk.find (root settings ++ project :: rest) with
  | none => exact .inl rfl
  | some entry =>
      rcases tidy.below rest entry found with ⟨-, dir⟩ | ⟨⟨bytes, rfl⟩, -⟩
      · exact absurd dir (cache_file_not_dir file)
      · exact .inr ⟨bytes, rfl⟩

end Places

/-! ## What the cache takes in -/

/-- The project's cache, with its files by their names below the directory. -/
def held (settings : Settings) (project : String) (disk : Disk) (key : Names) : Option Bytes :=
  disk.fileAt (root settings ++ project :: key)

/-- The places of the project's cache, and those on the way to it. -/
def touched (settings : Settings) (project : String) (place : Place) : Prop :=
  place <+: root settings ++ [project] ∨ root settings ++ [project] <+: place

/-- The cache has taken in a list of files, those under `news` for the first time,
and nothing else has changed. -/
structure Harvested (settings : Settings) (project : String) (items : List (Names × Bytes))
    (disk : Disk) (news : List Names) (later : Disk) : Prop where
  tidy : Tidy settings project later
  steady : disk.Steady later
  only : disk.ChangesOnly (touched settings project) later
  taken : absorb (held settings project disk) items = (held settings project later, news)

theorem steady_refl (disk : Disk) : disk.Steady disk := fun _ => ⟨id, fun _ => Iff.rfl⟩

section Harvesting

variable {settings : Settings} {project : String} {disk middle later : Disk}
  {items more : List (Names × Bytes)} {news others : List Names}

theorem harvested_nothing (tidy : Tidy settings project disk)
    (there : ∀ item ∈ items, (held settings project disk item.1).isSome = true) :
    Harvested settings project items disk [] disk :=
  ⟨tidy, steady_refl disk, changes_only_refl disk, absorb_nothing there⟩

theorem harvested_trans (first : Harvested settings project items disk news middle)
    (second : Harvested settings project more middle others later) :
    Harvested settings project (items ++ more) disk (news ++ others) later := by
  refine ⟨second.tidy, steady_trans first.steady second.steady,
    changes_only_trans first.only second.only, ?_⟩
  rw [absorb_append, first.taken, second.taken]

/-- A harvest that began on the one disk has come to the other. -/
def Underway (settings : Settings) (project : String) (start now : Disk) : Prop :=
  ∃ items news, Harvested settings project items start news now

theorem underway_tidy (underway : Underway settings project disk later) :
    Tidy settings project later := by
  obtain ⟨items, news, harvested⟩ := underway
  exact harvested.tidy

theorem underway_start (tidy : Tidy settings project disk) : Underway settings project disk disk :=
  ⟨[], [], harvested_nothing tidy (by simp)⟩

theorem underway_trans (first : Underway settings project disk middle)
    (second : Underway settings project middle later) : Underway settings project disk later := by
  obtain ⟨items, news, harvested⟩ := first
  obtain ⟨more, others, further⟩ := second
  exact ⟨items ++ more, news ++ others, harvested_trans harvested further⟩

theorem touched_below (rest : Names) : touched settings project (root settings ++ project :: rest) :=
  .inr ⟨rest, by simp⟩

theorem touched_front {front rest : Names} (within : front <+: root settings ++ project :: rest) :
    touched settings project front :=
  List.prefix_or_prefix_of_prefix within ⟨rest, by simp⟩

theorem paved_harvested {rest : Names} {drive made : Drive}
    (tidy : Tidy settings project drive.disk)
    (dir : CacheDir rest) (paved : drive.Paved (root settings ++ project :: rest) made) :
    Harvested settings project [] drive.disk [] made.disk := by
  have free : ∀ front, front <+: root settings ++ project :: rest →
      drive.disk.find front = none ∨ drive.disk.find front = some .directory :=
    fun front within => tidy_way tidy dir within
  refine ⟨⟨?_, ?_⟩, ?_, ?_, ?_⟩
  · intro front within
    rw [paved.found, if_pos (within.trans (List.prefix_append _ _))]
    exact .inr rfl
  · intro below entry found
    rw [paved.found] at found
    split at found
    · rename_i within
      cases found
      have front := (List.prefix_append_right_inj _).mp within
      exact .inl ⟨rfl, cache_dir_front (List.cons_prefix_cons.mp front).2 dir⟩
    · exact tidy.below below entry found
  · intro place
    rw [paved.found]
    split
    · rename_i within
      rcases free place within with none | directory
      · simp [none]
      · simp [directory]
    · exact ⟨id, fun target => Iff.rfl⟩
  · exact changes_only_mono (fun front => touched_front) paved.only
  · rw [absorb]
    congr 1
    funext key
    rw [held, held, Disk.fileAt, Disk.fileAt, paved.found]
    split
    · rename_i within
      rcases free _ within with none | directory
      · rw [none]
        rfl
      · rw [directory]
    · rfl

end Harvesting

/-! ## Copying one file -/

section Copying

variable {world : DiskWorld} {dir : Place} {name tmp : String} {src : Path} {bytes : Bytes}

/-- A file has come into a directory, and nothing else has changed. -/
structure Placed (disk : Disk) (dir : Place) (name : String) (bytes : Bytes)
    (later : Disk) : Prop where
  find : ∀ place, later.find place =
    if place = dir ++ [name] then some (.file bytes) else disk.find place
  only : disk.ChangesOnly (fun place => ∃ name, place = dir ++ [name]) later

theorem promote_completes (source : world.drive.disk.stat src = some (.file bytes))
    (clear : world.drive.disk.Unlinked dir) (inside : world.drive.disk.find dir = some .directory)
    (plain : isPlain name = true) (plainTmp : isPlain tmp = true) (apart : tmp ≠ name)
    (free : world.drive.disk.find (dir ++ [name]) = none)
    (freeTmp : world.drive.disk.find (dir ++ [tmp]) = none) :
    ∃ after, Completes onDisk world (promote src (dir ++ [tmp]) (dir ++ [name])) true after ∧
      Placed world.drive.disk dir name bytes after.drive.disk := by
  have clearTmp : world.drive.disk.Unlinked (dir ++ [tmp]) :=
    unlinked_concat clear plainTmp (by simp [freeTmp])
  have missing : world.drive.disk.exist (dir ++ [tmp]) = false := by
    rw [exist_unlinked clearTmp, freeTmp]
    rfl
  obtain ⟨opened, written, later, created, appended, replaced, finds, only⟩ :=
    stored_fresh clear inside plain plainTmp apart free freeTmp bytes
  have different : world.sameFile src (dir ++ [tmp]) = false := by
    rw [DiskWorld.sameFile, missing, Bool.and_false, Bool.false_and]
  refine ⟨{ world with drive := later }, ?_, finds, only⟩
  have looked : onDisk world (.sameFile src (dir ++ [tmp])) = (.ok false, world) := by
    rw [onDisk, different]
  have read : onDisk world (.readFile src) = (.ok [bytes], world) := by
    simp only [onDisk, source]
  have opens : onDisk world (.openWrite (dir ++ [tmp])) = (.ok (dir ++ [tmp]), { world with drive := opened }) := by
    rw [onDisk, DiskWorld.lift, created]
    rfl
  have writes : onDisk { world with drive := opened } (.write (dir ++ [tmp]) bytes) =
      (.ok (), { world with drive := written }) := by
    rw [onDisk, DiskWorld.lift, appended]
    rfl
  have moves : onDisk { world with drive := written } (.replace (dir ++ [tmp]) (dir ++ [name])) =
      (.ok (), { world with drive := later }) := by
    rw [onDisk, DiskWorld.lift, replaced]
    rfl
  have copied : Completes onDisk world (copyfile src (dir ++ [tmp])) () { world with drive := written } := by
    refine completes_bind (completes_call looked) (completes_bind (completes_call read) ?_)
    refine completes_bind (completes_call opens) ?_
    exact completes_bind (completes_call writes) (completes_pure _ PUnit.unit)
  apply completes_rescue
  exact completes_bind copied (completes_bind (completes_call moves) (completes_pure _ true))

/-- What `harvest` does with a file that is not in the cache yet. -/
def storeFile (pid : Nat) (src destDir : Path) (name : String) : DiskProgram Bool := do
  diskCall (.makedirs destDir)
  let now ← diskCall .timeNs
  promote src (destDir ++ [tempName name pid now]) (destDir ++ [name])

section Storing

variable {settings : Settings} {project assetType : String} {dirs : Names} {disk later : Disk}

theorem placed_harvested (tidy : Tidy settings project disk)
    (named : ∀ dir ∈ dirs, matchesSubdirName dir.toList = true)
    (cached : matchesCacheFilename name.toList = true)
    (free : disk.find (root settings ++ project :: (assetType :: dirs ++ [name])) = none)
    (placed : Placed disk (root settings ++ project :: assetType :: dirs) name bytes later) :
    Harvested settings project [(assetType :: dirs ++ [name], bytes)] disk
      [assetType :: dirs ++ [name]] later := by
  have spelled : ∀ last, root settings ++ project :: assetType :: dirs ++ [last] =
      root settings ++ project :: (assetType :: dirs ++ [last]) := fun last => by simp
  have found : ∀ place, later.find place =
      if place = root settings ++ project :: (assetType :: dirs ++ [name]) then some (.file bytes)
      else disk.find place := by
    intro place
    rw [placed.find, spelled]
  refine ⟨⟨?_, ?_⟩, ?_, ?_, ?_⟩
  · intro front within
    rw [found, if_neg]
    · exact tidy.above front within
    · rintro rfl
      have short := within.length_le
      simp at short
  · intro below entry there
    rw [found] at there
    split at there
    · rename_i same
      rw [List.append_cancel_left_eq, List.cons.injEq] at same
      cases there
      exact .inr ⟨⟨bytes, rfl⟩, assetType, dirs, name, by simpa using same, named, cached⟩
    · exact tidy.below below entry there
  · intro place
    rw [found]
    split
    · rename_i same
      rw [same, free]
      simp
    · exact ⟨id, fun target => Iff.rfl⟩
  · apply changes_only_mono _ placed.only
    rintro place ⟨last, rfl⟩
    rw [spelled]
    exact touched_below _
  · have new : held settings project disk (assetType :: dirs ++ [name]) = none := by
      rw [held, Disk.fileAt, free]
      rfl
    rw [absorb_new _ new, absorb]
    congr 1
    funext key
    dsimp only
    by_cases same : key = assetType :: dirs ++ [name]
    · rw [same, Function.update_self, held, file_at_some.mpr]
      rw [found, if_pos rfl]
    · rw [Function.update_of_ne same, held, held, Disk.fileAt, Disk.fileAt, found,
        if_neg (by simpa using same)]

/-- In a tidy cache a file always gets to its place, without a call that fails. -/
theorem store_completes (tidy : Tidy settings project world.drive.disk)
    (plain : ∀ part ∈ root settings ++ project :: assetType :: dirs, isPlain part = true)
    (named : ∀ dir ∈ dirs, matchesSubdirName dir.toList = true)
    (cached : matchesCacheFilename name.toList = true)
    (source : world.drive.disk.stat src = some (.file bytes))
    (free : world.drive.disk.find (root settings ++ project :: (assetType :: dirs ++ [name])) = none)
    (pid : Nat) :
    ∃ after, Completes onDisk world
        (storeFile pid src (root settings ++ project :: assetType :: dirs) name) true after ∧
      Harvested settings project [(assetType :: dirs ++ [name], bytes)] world.drive.disk
        [assetType :: dirs ++ [name]] after.drive.disk := by
  have spelled : ∀ last, root settings ++ project :: assetType :: dirs ++ [last] =
      root settings ++ project :: (assetType :: dirs ++ [last]) := fun last => by simp
  have inCache : CacheDir (assetType :: dirs) := named
  have clear := tidy_unlinked tidy inCache plain
  obtain ⟨made, paved⟩ := make_dirs_paves clear (tidy_no_file tidy inCache)
  have directories := paved_harvested tidy inCache paved
  let tmp := tempName name pid world.clock
  have freeMade : made.disk.find (root settings ++ project :: (assetType :: dirs ++ [name])) = none := by
    rw [paved.found, if_neg, free]
    intro within
    have short := within.length_le
    simp at short
  have freeTmp : made.disk.find (root settings ++ project :: (assetType :: dirs ++ [tmp])) = none := by
    cases found : made.disk.find (root settings ++ project :: (assetType :: dirs ++ [tmp])) with
    | none => rfl
    | some entry =>
        obtain ⟨notDir, notFile⟩ := temp_out_of_place dirs name pid world.clock assetType
        rcases directories.tidy.below _ entry found with ⟨-, dir⟩ | ⟨-, file⟩
        · exact absurd dir notDir
        · exact absurd file notFile
  have sourceMade : made.disk.stat src = some (.file bytes) := by
    have stays := @source_stays world _ src bytes plain source
    rwa [paved.made] at stays
  let stamped : DiskWorld := { world with drive := made, clock := world.clock + 1 }
  obtain ⟨after, promoted, placed⟩ := @promote_completes stamped _ name tmp src bytes sourceMade
    (tidy_unlinked directories.tidy inCache plain) (by rw [paved.found, if_pos List.prefix_rfl])
    (cache_filename_plain cached) (temp_name_plain _ _ _) (temp_name_apart _ _ _)
    (by rw [spelled]; exact freeMade) (by rw [spelled]; exact freeTmp)
  refine ⟨after, ?_, ?_⟩
  · have makes : onDisk world (.makedirs (root settings ++ project :: assetType :: dirs)) =
        (.ok (), { world with drive := made }) := by
      rw [onDisk, DiskWorld.lift, paved.made]
      rfl
    have ticks : onDisk { world with drive := made } .timeNs = (.ok world.clock, stamped) := rfl
    exact completes_bind (completes_call makes) (completes_bind (completes_call ticks) promoted)
  · exact harvested_trans directories (placed_harvested directories.tidy named cached freeMade placed)

end Storing

end Copying

/-! ## Harvesting one file -/

/-- What stands at a path, if that is a file and no link. -/
def sourceAt (disk : Disk) (src : Path) : Option Bytes :=
  if disk.isLink src then none else (disk.stat src).bind Entry.content

/-- The looks that are answered whatever stands there. -/
def answered : DiskCall → Prop
  | .isDir _ | .isLink _ | .isFile _ | .exist _ => True
  | _ => False

theorem looks_complete {Result : Type} {world after : DiskWorld} {program : DiskProgram Result}
    {value : Result} (only : MakesOnly answered program)
    (runs : run onDisk world program = (.ok value, after)) :
    Completes onDisk world program value after := by
  refine ⟨runs, at_each_call_of_makes_only ?_ world program only⟩
  intro world request looks
  cases request <;> first | exact ⟨_, rfl⟩ | cases looks

theorem real_file_source (disk : Disk) (src : Path) :
    (!disk.isLink src && disk.isFile src) = (sourceAt disk src).isSome := by
  unfold sourceAt Disk.isFile
  cases disk.isLink src with
  | true => rfl
  | false =>
      cases disk.stat src with
      | none => rfl
      | some entry => cases entry <;> rfl

theorem source_at_some {disk : Disk} {src : Path} {bytes : Bytes}
    (source : sourceAt disk src = some bytes) : disk.stat src = some (.file bytes) := by
  unfold sourceAt at source
  split at source
  · cases source
  · obtain ⟨entry, found, content⟩ := Option.bind_eq_some_iff.mp source
    cases entry with
    | file written =>
        cases content
        exact found
    | directory => cases content
    | link target => cases content

/-- What a file of the work tree is for the cache, if it is a cache file at all. -/
def itemAt (disk : Disk) (assetType : String) (src : Path) (dirs : Names) (name : String) :
    List (Names × Bytes) :=
  if matchesCacheFilename name.toList then
    (sourceAt disk src).toList.map (assetType :: dirs ++ [name], ·)
  else []

def entryTexts (news : List Names) : List String := news.map fun key => "/".intercalate key

/-- The program goes through, takes the items in and adds the paths of those that
were new to the list. If none was, it leaves everything as it is. -/
def Harvests (settings : Settings) (project : String) (items : List (Names × Bytes))
    (world : DiskWorld) (added : List String) (program : DiskProgram (List String)) : Prop :=
  ∃ news after, Completes onDisk world program (added ++ entryTexts news) after ∧
    Harvested settings project items world.drive.disk news after.drive.disk ∧
    (news = [] → after = world)

section Rounds

variable {settings : Settings} {project assetType name : String} {dirs : Names} {world : DiskWorld}

theorem file_exists {disk : Disk} (tidy : Tidy settings project disk)
    (plain : ∀ part ∈ root settings ++ project :: assetType :: dirs, isPlain part = true)
    (named : ∀ dir ∈ dirs, matchesSubdirName dir.toList = true)
    (cached : matchesCacheFilename name.toList = true) :
    disk.exist (root settings ++ project :: assetType :: dirs ++ [name]) =
      (held settings project disk (assetType :: dirs ++ [name])).isSome := by
  have spelled : root settings ++ project :: assetType :: dirs ++ [name] =
      root settings ++ project :: (assetType :: dirs ++ [name]) := by simp
  have there := tidy_file_place tidy ⟨assetType, dirs, name, rfl, named, cached⟩
  rw [← List.cons_append, ← spelled] at there
  have clear : disk.Unlinked (root settings ++ project :: assetType :: dirs ++ [name]) := by
    apply unlinked_concat
    · exact tidy_unlinked tidy named plain
    · exact cache_filename_plain cached
    · rintro target link
      rcases there with none | ⟨bytes, found⟩
      · rw [link] at none
        cases none
      · rw [link] at found
        cases found
  rw [exist_unlinked clear, held, ← spelled, Disk.fileAt]
  rcases there with none | ⟨bytes, found⟩
  · rw [none]
    rfl
  · rw [found]
    rfl

def cacheRoute (settings : Settings) (project assetType : String) (srcTypeDir : Path) : Route where
  assetType := assetType
  srcTypeDir := srcTypeDir
  destTypeDir := root settings ++ [project] ++ [assetType]

theorem harvest_file_eq (pid : Nat) (srcTypeDir : Path) (added : List String) :
    harvestFile pid (cacheRoute settings project assetType srcTypeDir) dirs added name =
      if matchesCacheFilename name.toList then do
        if ← isRealFile (srcTypeDir ++ dirs ++ [name]) then
          if ← diskCall (.exist (root settings ++ project :: assetType :: dirs ++ [name])) then return added
          else
            let promoted ← storeFile pid (srcTypeDir ++ dirs ++ [name])
              (root settings ++ project :: assetType :: dirs) name
            return if promoted then added ++ ["/".intercalate (assetType :: dirs ++ [name])] else added
        else return added
      else return added := by
  have dest : root settings ++ [project] ++ [assetType] ++ dirs =
      root settings ++ project :: assetType :: dirs := by simp
  unfold harvestFile cacheRoute
  dsimp only
  rw [dest]
  simp only [storeFile, bind_assoc]
  cases matchesCacheFilename name.toList with
  | false => rfl
  | true =>
      simp only [Bool.not_true, Bool.false_eq_true, if_false, if_true]
      congr 1
      funext real
      cases real <;> rfl

theorem harvest_file_completes (tidy : Tidy settings project world.drive.disk)
    (plain : ∀ part ∈ root settings ++ project :: assetType :: dirs, isPlain part = true)
    (named : ∀ dir ∈ dirs, matchesSubdirName dir.toList = true) (pid : Nat) (srcTypeDir : Path)
    (added : List String) :
    Harvests settings project
      (itemAt world.drive.disk assetType (srcTypeDir ++ dirs ++ [name]) dirs name) world added
      (harvestFile pid (cacheRoute settings project assetType srcTypeDir) dirs added name) := by
  have idle : Completes onDisk world (pure added : DiskProgram (List String))
      (added ++ entryTexts []) world := by
    rw [entryTexts, List.map_nil, List.append_nil]
    exact completes_pure world added
  rw [harvest_file_eq, itemAt]
  cases cached : matchesCacheFilename name.toList with
  | false => exact ⟨[], world, idle, harvested_nothing tidy (by simp), fun _ => rfl⟩
  | true =>
      have looked : Completes onDisk world (isRealFile (srcTypeDir ++ dirs ++ [name]))
          (sourceAt world.drive.disk (srcTypeDir ++ dirs ++ [name])).isSome world := by
        apply looks_complete (real_file_makes_only trivial trivial)
        rw [run_is_real_file, real_file_source]
      simp only [if_true]
      cases source : sourceAt world.drive.disk (srcTypeDir ++ dirs ++ [name]) with
      | none =>
          rw [source] at looked
          exact ⟨[], world, completes_bind looked idle, harvested_nothing tidy (by simp), fun _ => rfl⟩
      | some bytes =>
          rw [source] at looked
          have asked : Completes onDisk world
              (diskCall (.exist (root settings ++ project :: assetType :: dirs ++ [name])))
              (held settings project world.drive.disk (assetType :: dirs ++ [name])).isSome world := by
            apply completes_call
            rw [onDisk, file_exists tidy plain named cached]
          cases there : held settings project world.drive.disk (assetType :: dirs ++ [name]) with
          | some old =>
              rw [there] at asked
              refine ⟨[], world, completes_bind looked (completes_bind asked idle), ?_, fun _ => rfl⟩
              apply harvested_nothing tidy
              intro item member
              rw [Option.toList_some, List.map_singleton, List.mem_singleton] at member
              rw [member, there]
              rfl
          | none =>
              rw [there] at asked
              have free : world.drive.disk.find
                  (root settings ++ project :: (assetType :: dirs ++ [name])) = none := by
                rw [held, file_at_none] at there
                rcases tidy_file_place tidy ⟨assetType, dirs, name, rfl, named, cached⟩ with
                  none | ⟨bytes, found⟩
                · exact none
                · exact absurd found (there bytes)
              obtain ⟨after, promoted, harvested⟩ := store_completes tidy plain named cached
                (source_at_some source) free pid
              refine ⟨[assetType :: dirs ++ [name]], after,
                completes_bind looked (completes_bind asked ?_), harvested, ?_⟩
              · exact completes_bind promoted (completes_pure after _)
              · rintro ⟨⟩

end Rounds

end PretextBuildServer.TidyCache
