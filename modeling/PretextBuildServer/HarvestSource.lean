import PretextBuildServer.HarvestRuns

/-!
# What a harvest reads

Type directories, the directories below them and the files are checked for
links, the generated-cache root is not: what is copied lies in the project by
real directories exactly if the root does.
-/

namespace PretextBuildServer.HarvestSource

open EffectProgram EffectProgram.Program PosixDisk
open PretextBuildServer.ServerSettings PretextBuildServer.JobCalls
open PretextBuildServer.NameValidators PretextBuildServer.DiskCalls PretextBuildServer.AssetCache
open PretextBuildServer.HarvestRuns

set_option autoImplicit false

/-- A regular file reached from `workDir` through real directories only. -/
def FromWorkDir (workDir : Place) (disk : Disk) (src : Path) : Prop :=
  ∃ names bytes, src = workDir ++ names ∧ disk.Straight workDir names ∧
    disk.find src = some (.file bytes)

/-- Every file opened for reading is one of the project. -/
def ReadsProject (workDir : Place) (world : DiskWorld) (request : DiskCall) : Prop :=
  ∀ src, request = .readFile src → FromWorkDir workDir world.drive.disk src

/-- Whenever a file is opened for reading, real directories lead to the
generated-cache root. -/
def RootIsReal (workDir : Place) (subdir : Names) (world : DiskWorld) (request : DiskCall) : Prop :=
  ∀ src, request = .readFile src → world.drive.disk.Straight workDir subdir

/-! ## What no call of a harvest does -/

/-- No directory goes, and no link comes but under the name of a cache file. -/
def Kept (world later : DiskWorld) : Prop :=
  (∀ place, world.drive.disk.find place = some .directory →
    later.drive.disk.find place = some .directory) ∧
  ∀ dir name target, matchesCacheFilename name.toList = false →
    later.drive.disk.find (dir ++ [name]) = some (.link target) →
    world.drive.disk.find (dir ++ [name]) = some (.link target)

theorem kept_refl (world : DiskWorld) : Kept world world := ⟨fun _ => id, fun _ _ _ _ => id⟩

theorem kept_trans {world middle later : DiskWorld} (first : Kept world middle)
    (second : Kept middle later) : Kept world later :=
  ⟨fun place directory => second.1 place (first.1 place directory),
    fun dir name target other link => first.2 dir name target other
      (second.2 dir name target other link)⟩

/-- The calls of a harvest: a rename gives a file the name of a cache file. -/
def harvestCall : DiskCall → Prop
  | .makedirs path => ∀ name ∈ path, isPlain name = true
  | .replace _ target => ∃ dir name, target = dir ++ [name] ∧
      matchesCacheFilename name.toList = true
  | .rmdir _ => False
  | _ => True

theorem put_kept {world : DiskWorld} {place : Place} {entry : Entry} {later : Drive}
    (put : world.drive.put place entry = some later)
    (named : (∀ target, entry ≠ .link target) ∨
      ∃ dir name, place = dir ++ [name] ∧ matchesCacheFilename name.toList = true) :
    Kept world { world with drive := later } := by
  obtain ⟨onDisk, -⟩ := drive_put_some put
  have free := put_needs onDisk
  constructor
  · intro other directory
    have apart : other ≠ place := by
      rintro rfl
      exact free.2.2 directory
    rwa [find_put onDisk, if_neg apart]
  · intro dir name target uncached link
    rw [find_put onDisk] at link
    split at link
    · rename_i same
      rcases named with noLink | ⟨real, last, rfl, cached⟩
      · exact absurd (Option.some.inj link) (noLink target)
      · rw [List.singleton_inj.mp (List.append_inj' same rfl).2, cached] at uncached
        cases uncached
    · exact link

theorem drop_kept {world : DiskWorld} {place : Place} {entry : Entry} {later : Drive}
    (drop : world.drive.drop place = some later) (found : world.drive.disk.find place = some entry)
    (leaf : entry ≠ .directory) : Kept world { world with drive := later } := by
  obtain ⟨onDisk, -⟩ := drive_drop_some drop
  constructor
  · intro other directory
    have apart : other ≠ place := by
      rintro rfl
      rw [found, Option.some.injEq] at directory
      exact leaf directory
    rwa [find_drop onDisk, if_neg apart]
  · intro dir name target _ link
    rw [find_drop onDisk] at link
    split at link
    · cases link
    · exact link

theorem replace_kept {world : DiskWorld} {source dir : Path} {name : String}
    (cached : matchesCacheFilename name.toList = true) :
    Kept world { world with drive := (world.drive.replace source (dir ++ [name])).2 } := by
  unfold Drive.replace
  split
  · rename_i place other _ onto
    obtain ⟨real, -, -, rfl⟩ := spot_in_directory (cache_filename_plain cached) onto
    split
    · exact kept_refl world
    · exact kept_refl world
    · rename_i entry leaf found
      split
      · exact kept_refl world
      · split
        · exact kept_refl world
        · rename_i free _
          cases moved : (world.drive.drop place).bind
              fun later => later.put (real ++ [name]) entry with
          | none => exact kept_refl world
          | some later =>
              rw [Option.bind_eq_some_iff] at moved
              obtain ⟨dropped, drop, put⟩ := moved
              have first := drop_kept drop found leaf
              exact kept_trans first (put_kept put (.inr ⟨real, name, rfl, cached⟩))
  · exact kept_refl world

theorem call_kept (world : DiskWorld) {request : DiskCall} (allowed : harvestCall request) :
    Kept world (onDisk world request).2 := by
  cases looks : DiskCall.looks request with
  | true =>
      have same := look_keeps_drive world looks
      rw [Kept, same]
      exact kept_refl world
  | false =>
      cases request <;> simp only [DiskCall.looks, Bool.true_eq_false] at looks
      case makedirs path =>
        obtain ⟨steady, -⟩ := @make_dirs_keeps world.drive path allowed
        exact ⟨fun place => (steady place).1, fun dir name target _ => ((steady _).2 target).mpr⟩
      case openWrite path =>
        rcases create_cases world.drive path with ⟨refused, -⟩ | ⟨place, later, -, -, put, created⟩
        · simp only [onDisk, DiskWorld.lift, refused]
          exact kept_refl world
        · simp only [onDisk, DiskWorld.lift, created]
          exact put_kept put (.inl (by simp))
      case write file chunk =>
        rcases append_cases world.drive file chunk with ⟨-, same⟩ | ⟨old, later, -, put, appended⟩
        · simp only [onDisk, DiskWorld.lift, same]
          exact kept_refl world
        · simp only [onDisk, DiskWorld.lift, appended]
          exact put_kept put (.inl (by simp))
      case replace source target =>
        obtain ⟨dir, name, rfl, cached⟩ := allowed
        exact replace_kept cached
      case remove path =>
        rcases remove_cases world.drive path with
          ⟨refused, -⟩ | ⟨place, entry, later, -, found, leaf, drop, removed⟩
        · simp only [onDisk, DiskWorld.lift, refused]
          exact kept_refl world
        · simp only [onDisk, DiskWorld.lift, removed]
          exact drop_kept drop found leaf
      case rmdir path => cases allowed

theorem run_kept {Result : Type} {world : DiskWorld} {program : DiskProgram Result}
    (only : AtEachCall onDisk (fun _ => harvestCall) world program) :
    Kept world (run onDisk world program).2 := by
  induction program generalizing world with
  | done outcome => exact kept_refl world
  | call request next induction =>
      exact kept_trans (call_kept world only.1) (induction _ only.2)

/-! ## The way to a file that is read -/

/-- What the walk has found out by the time it is in the directory `parts`
below that of a type: no link is on the way. -/
structure Walking (workDir : Place) (subdir : Names) (assetType : String) (parts : Names)
    (world : DiskWorld) : Prop where
  inside : world.drive.disk.find workDir = some .directory
  unlinked : ∀ front, front <+: parts → ∀ target,
    world.drive.disk.find (workDir ++ subdir ++ [assetType] ++ front) ≠ some (.link target)

section Walked

variable {workDir : Place} {subdir : Names} {assetType : String} {parts : Names}
  {world later : DiskWorld}

theorem walking_kept (walking : Walking workDir subdir assetType parts world)
    (kept : Kept world later) (uncached : matchesCacheFilename assetType.toList = false)
    (named : ∀ part ∈ parts, matchesSubdirName part.toList = true) :
    Walking workDir subdir assetType parts later := by
  refine ⟨kept.1 _ walking.inside, ?_⟩
  intro front below target link
  apply walking.unlinked front below target
  rcases List.eq_nil_or_concat front with rfl | ⟨above, last, rfl⟩
  · rw [List.append_nil] at link ⊢
    exact kept.2 _ _ target uncached link
  · rw [List.concat_eq_append, ← List.append_assoc] at link ⊢
    apply kept.2 _ _ target _ link
    apply subdir_uncached
    apply named
    exact below.subset (by simp)

/-- At a file the walk has come to, the way is one of real directories if that
to the generated-cache root is. -/
theorem source_alike {name : String} {bytes : Bytes}
    (walking : Walking workDir subdir assetType parts world)
    (plain : ∀ part ∈ subdir ++ [assetType] ++ parts ++ [name], isPlain part = true)
    (plainDir : ∀ part ∈ workDir, isPlain part = true)
    (unlinked : ∀ target, world.drive.disk.find
      (workDir ++ subdir ++ [assetType] ++ parts ++ [name]) ≠ some (.link target))
    (source : world.drive.disk.stat (workDir ++ subdir ++ [assetType] ++ parts ++ [name]) =
      some (.file bytes)) :
    FromWorkDir workDir world.drive.disk (workDir ++ subdir ++ [assetType] ++ parts ++ [name]) ↔
      world.drive.disk.Straight workDir subdir := by
  have regroup : workDir ++ subdir ++ [assetType] ++ parts ++ [name] =
      workDir ++ subdir ++ (assetType :: parts ++ [name]) := by simp
  rw [regroup] at unlinked source ⊢
  constructor
  · rintro ⟨names, content, same, straight, -⟩
    rw [List.append_assoc, List.append_cancel_left_eq] at same
    rw [← same, straight_append] at straight
    exact straight.1
  · intro root
    have base : world.drive.disk.Straight [] (workDir ++ subdir) := by
      rw [straight_append]
      exact ⟨straight_to_directory plainDir walking.inside, root⟩
    have further : world.drive.disk.Straight (workDir ++ subdir) (assetType :: parts ++ [name]) := by
      apply straight_of_exist base
      · intro part member
        apply plain part
        simp only [List.cons_append, List.mem_cons, List.mem_append] at member ⊢
        tauto
      · intro front some below
        rw [List.prefix_concat_iff] at below
        rcases below with rfl | within
        · exact unlinked
        · cases front with
          | nil => exact absurd rfl some
          | cons first front =>
              obtain ⟨rfl, short⟩ := List.cons_prefix_cons.mp within
              rw [List.append_cons]
              exact walking.unlinked front short
      · rw [Disk.exist, source]
        rfl
    refine ⟨subdir ++ (assetType :: parts ++ [name]), bytes, List.append_assoc _ _ _, ?_, ?_⟩
    · rw [straight_append]
      exact ⟨root, further⟩
    · rw [← stat_straight, source]
      rw [straight_append]
      exact ⟨base, further⟩

/-! ## Every read, wherever it stands in the walk -/

/-- A file opened for reading is one of the project if and only if the way to
the generated-cache root is one of real directories. -/
def ReadsAlike (workDir : Place) (subdir : Names) (world : DiskWorld) (request : DiskCall) : Prop :=
  harvestCall request ∧ ∀ src, request = .readFile src →
    (FromWorkDir workDir world.drive.disk src ↔ world.drive.disk.Straight workDir subdir)

def noRead (request : DiskCall) : Prop := harvestCall request ∧ ∀ src, request ≠ .readFile src

theorem unread_alike {Result : Type} (program : DiskProgram Result)
    (only : MakesOnly noRead program) :
    AtEachCall onDisk (ReadsAlike workDir subdir) world program := by
  apply at_each_call_of_makes_only _ world program only
  intro world request none
  exact ⟨none.1, fun src same => absurd same (none.2 src)⟩

theorem alike_kept {Result : Type} {program : DiskProgram Result}
    (alike : AtEachCall onDisk (ReadsAlike workDir subdir) world program) :
    Kept world (run onDisk world program).2 :=
  run_kept (at_each_call_mono world program (fun _ _ => And.left) alike)

theorem promote_alike {src tmp dir : Path} {name : String}
    (cached : matchesCacheFilename name.toList = true)
    (alike : FromWorkDir workDir world.drive.disk src ↔ world.drive.disk.Straight workDir subdir) :
    AtEachCall onDisk (ReadsAlike workDir subdir) world (promote src tmp (dir ++ [name])) := by
  have copying : AtEachCall onDisk (ReadsAlike workDir subdir) world (copyfile src tmp) := by
    rw [copyfile, bind_is_and_then, at_each_call_and_then]
    refine ⟨⟨⟨trivial, (by simp)⟩, trivial⟩, ?_⟩
    rw [run_perform]
    simp only [onDisk, on_value_ok]
    split
    · trivial
    · refine ⟨⟨trivial, ?_⟩, ?_⟩
      · rintro other ⟨⟩
        exact alike
      · apply unread_alike
        generalize (onDisk world (.readFile src)).1 = reply
        cases reply with
        | error raised => trivial
        | ok blocks =>
            refine ⟨⟨trivial, (by simp)⟩, fun reply => ?_⟩
            cases reply with
            | error raised => trivial
            | ok file =>
                exact makes_only_for _ blocks fun block => ⟨⟨trivial, (by simp)⟩, fun _ => trivial⟩
  rw [promote, rescue, bind_is_and_then, at_each_call_and_then, at_each_call_and_then]
  refine ⟨⟨copying, ?_⟩, ?_⟩
  · apply unread_alike
    cases (run onDisk world (copyfile src tmp)).1 with
    | error raised => trivial
    | ok copied =>
        refine ⟨⟨⟨dir, name, rfl, cached⟩, (by simp)⟩, fun reply => ?_⟩
        cases reply <;> trivial
  · apply unread_alike
    generalize (run onDisk world ((copyfile src tmp).andThen _)).1 = outcome
    cases outcome with
    | error raised => exact abandon_makes_only ⟨trivial, (by simp)⟩ raised
    | ok moved => trivial

theorem unlinked_of_looks {dir : Path} {name : String}
    (plain : ∀ part ∈ dir ++ [name], isPlain part = true)
    (looked : world.drive.disk.isLink (dir ++ [name]) = false) (target : Target) :
    world.drive.disk.find (dir ++ [name]) ≠ some (.link target) := by
  intro link
  rw [is_link_of_find plain link] at looked
  cases looked

theorem harvest_file_alike {pid : Nat} {destTypeDir : Path} {added : List String} {name : String}
    (walking : Walking workDir subdir assetType parts world)
    (plainDir : ∀ part ∈ workDir, isPlain part = true)
    (plain : ∀ part ∈ subdir ++ [assetType] ++ parts, isPlain part = true)
    (plainDest : ∀ part ∈ destTypeDir ++ parts, isPlain part = true) :
    AtEachCall onDisk (ReadsAlike workDir subdir) world
      (harvestFile pid ⟨assetType, workDir ++ subdir ++ [assetType], destTypeDir⟩ parts added
        name) := by
  unfold harvestFile
  cases cached : matchesCacheFilename name.toList with
  | false => trivial
  | true =>
      simp only [Bool.not_true, Bool.false_eq_true, if_false]
      rw [bind_is_and_then, at_each_call_and_then]
      refine ⟨unread_alike _ (real_file_makes_only ⟨trivial, (by simp)⟩ ⟨trivial, (by simp)⟩), ?_⟩
      rw [run_is_real_file]
      simp only [on_value_ok]
      split
      · trivial
      · rename_i real
        simp only [Bool.not_eq_true', Bool.not_eq_false, Bool.and_eq_true] at real
        obtain ⟨bytes, source⟩ := is_file_iff.mp real.2
        rw [bind_is_and_then, at_each_call_and_then]
        refine ⟨⟨⟨trivial, (by simp)⟩, trivial⟩, ?_⟩
        rw [run_perform]
        simp only [onDisk, on_value_ok]
        split
        · trivial
        · rw [bind_is_and_then, at_each_call_and_then]
          refine ⟨⟨⟨plainDest, (by simp)⟩, trivial⟩, ?_⟩
          rw [run_perform]
          simp only [onDisk, DiskWorld.lift]
          cases (world.drive.makeDirs (destTypeDir ++ parts)).1 with
          | error refusal => trivial
          | ok made =>
              simp only [Except.mapError, on_value_ok, bind_is_and_then]
              rw [at_each_call_and_then]
              refine ⟨⟨⟨trivial, (by simp)⟩, trivial⟩, ?_⟩
              rw [run_perform]
              simp only [onDisk, on_value_ok]
              rw [at_each_call_and_then]
              refine ⟨promote_alike cached ?_, ?_⟩
              · obtain ⟨steady, -⟩ := @make_dirs_keeps world.drive _ plainDest
                have further : Walking workDir subdir assetType parts
                    { world with
                      drive := (world.drive.makeDirs (destTypeDir ++ parts)).2
                      clock := world.clock + 1 } :=
                  ⟨(steady _).1 walking.inside, fun front below target link =>
                    walking.unlinked front below target (((steady _).2 target).mpr link)⟩
                have plainName : ∀ part ∈ subdir ++ [assetType] ++ parts ++ [name],
                    isPlain part = true := by
                  rw [List.forall_mem_append, List.forall_mem_singleton]
                  exact ⟨plain, cache_filename_plain cached⟩
                have plainSrc : ∀ part ∈ workDir ++ subdir ++ [assetType] ++ parts ++ [name],
                    isPlain part = true := by
                  intro part member
                  simp only [List.append_assoc, List.mem_append] at member plainName
                  rcases member with above | below
                  · exact plainDir part above
                  · exact plainName part below
                apply source_alike further plainName plainDir
                · intro target link
                  exact unlinked_of_looks plainSrc real.1 target
                    (((steady _).2 target).mpr link)
                · exact source_stays plainDest source
              · generalize (run onDisk _ (promote _ _ _)).1 = promoted
                cases promoted <;> trivial

theorem walking_deeper {name : String} (walking : Walking workDir subdir assetType parts world)
    (plain : ∀ part ∈ workDir ++ subdir ++ [assetType] ++ parts ++ [name], isPlain part = true)
    (looked : world.drive.disk.isLink (workDir ++ subdir ++ [assetType] ++ parts ++ [name]) =
      false) : Walking workDir subdir assetType (parts ++ [name]) world := by
  refine ⟨walking.inside, ?_⟩
  intro front below
  rw [List.prefix_concat_iff] at below
  rcases below with rfl | within
  · rw [← List.append_assoc]
    exact unlinked_of_looks plain looked
  · exact walking.unlinked front within

/-- What the configuration is taken to name: plain directories, none of them
like a cache file. -/
structure PlainNames (settings : Settings) (projectId : String) (workDir : Path) : Prop where
  work : ∀ part ∈ workDir, isPlain part = true
  subdir : ∀ part ∈ settings.generateOutputSubdir, isPlain part = true
  root : ∀ part ∈ root settings ++ [projectId], isPlain part = true
  types : ∀ assetType ∈ settings.assetCacheTypes,
    isPlain assetType = true ∧ matchesCacheFilename assetType.toList = false

theorem harvest_dir_alike {pid depth : Nat} {destTypeDir : Path} {added : List String}
    (walking : Walking workDir subdir assetType parts world)
    (uncached : matchesCacheFilename assetType.toList = false)
    (named : ∀ part ∈ parts, matchesSubdirName part.toList = true)
    (plainDir : ∀ part ∈ workDir, isPlain part = true)
    (plain : ∀ part ∈ subdir ++ [assetType], isPlain part = true)
    (plainDest : ∀ part ∈ destTypeDir, isPlain part = true) :
    AtEachCall onDisk (ReadsAlike workDir subdir) world
      (harvestDir pid ⟨assetType, workDir ++ subdir ++ [assetType], destTypeDir⟩ depth parts
        added) := by
  induction depth generalizing world parts added with
  | zero => trivial
  | succ depth induction =>
      have plainParts : ∀ part ∈ parts, isPlain part = true :=
        fun part member => subdir_plain (named part member)
      have plainFiles := List.forall_mem_append.mpr ⟨plainDest, plainParts⟩
      unfold harvestDir
      rw [at_each_call_and_then]
      refine ⟨⟨⟨trivial, (by simp)⟩, trivial⟩, ?_⟩
      rw [run_perform]
      simp only [onDisk]
      cases world.scandir (workDir ++ subdir ++ [assetType] ++ parts) with
      | error raised =>
          simp only
          split <;> trivial
      | ok entries =>
          simp only [bind_is_and_then]
          rw [at_each_call_and_then]
          refine ⟨unread_alike _ (makes_only_select
            (fun name => plain_subdir_makes_only ⟨trivial, (by simp)⟩) _), ?_⟩
          rw [run_select (run_is_plain_subdir _)]
          simp only [on_value_ok]
          rw [at_each_call_and_then]
          have files : AtEachCall onDisk (ReadsAlike workDir subdir) world
              (((entries.filter fun entry => !entry.isDir).map (·.name)).foldlM
                (harvestFile pid ⟨assetType, workDir ++ subdir ++ [assetType], destTypeDir⟩ parts)
                added) := by
            apply at_each_call_fold (Walking workDir subdir assetType parts) _ _ _ _ _ walking
            intro world value name _ walking
            have alike := @harvest_file_alike _ _ _ _ _ pid destTypeDir value name walking
              plainDir (List.forall_mem_append.mpr ⟨plain, plainParts⟩) plainFiles
            exact ⟨alike, walking_kept walking (alike_kept alike) uncached named⟩
          refine ⟨files, ?_⟩
          have kept := alike_kept files
          generalize run onDisk world (List.foldlM _ added _) = harvested at kept
          obtain ⟨answer, later⟩ := harvested
          cases answer with
          | error raised => trivial
          | ok added =>
              simp only [on_value_ok]
              rw [at_each_call_and_then]
              refine ⟨unread_alike _ (makes_only_select
                (fun name => not_link_makes_only ⟨trivial, (by simp)⟩) _), ?_⟩
              rw [run_select fun d => run_is_not_link _]
              simp only [on_value_ok]
              generalize dirs : ((entries.filter (·.isDir)).map (·.name)).filter _ = subdirs
              have further : ∀ d ∈ subdirs, matchesSubdirName d.toList = true ∧
                  Walking workDir subdir assetType (parts ++ [d]) world := by
                intro d member
                rw [← dirs, List.mem_filter, Bool.and_eq_true, Bool.not_eq_true'] at member
                obtain ⟨-, subdirName, looked⟩ := member
                refine ⟨subdirName, walking_deeper walking ?_ looked⟩
                intro part below
                simp only [List.append_assoc, List.mem_append, List.mem_singleton] at below plain
                rcases below with above | inRoot | rfl | inParts | rfl
                · exact plainDir part above
                · exact plain part (.inl inRoot)
                · exact plain part (.inr rfl)
                · exact plainParts part inParts
                · exact subdir_plain subdirName
              apply at_each_call_fold (fun world => ∀ d ∈ subdirs,
                Walking workDir subdir assetType (parts ++ [d]) world)
              · intro world value d member walkings
                have deep := (List.mem_filter.mp member).1
                have deepNamed : ∀ part ∈ parts ++ [d], matchesSubdirName part.toList = true :=
                  List.forall_mem_append.mpr ⟨named, List.forall_mem_singleton.mpr (further d deep).1⟩
                have alike := @induction (parts ++ [d]) world value (walkings d deep) deepNamed
                refine ⟨alike, ?_⟩
                intro other among
                apply walking_kept (walkings other among) (alike_kept alike) uncached
                exact List.forall_mem_append.mpr
                  ⟨named, List.forall_mem_singleton.mpr (further other among).1⟩
              · intro d member
                apply walking_kept (further d member).2 kept uncached
                exact List.forall_mem_append.mpr
                  ⟨named, List.forall_mem_singleton.mpr (further d member).1⟩

theorem harvest_alike {settings : Settings} {pid depth : Nat} {projectId : String}
    (plain : PlainNames settings projectId workDir)
    (work : world.drive.disk.find workDir = some .directory) :
    AtEachCall onDisk (ReadsAlike workDir settings.generateOutputSubdir) world
      (harvest settings pid depth projectId workDir) := by
  unfold harvest projectDir
  split
  · apply at_each_call_fold (fun world => world.drive.disk.find workDir = some .directory) _ _ _ _
      _ work
    intro world added assetType member work
    have plainType := plain.types assetType member
    suffices alike : AtEachCall onDisk (ReadsAlike workDir settings.generateOutputSubdir) world
        (harvestType pid depth (workDir ++ settings.generateOutputSubdir)
          (root settings ++ [projectId]) added assetType) from
      ⟨alike, (alike_kept alike).1 _ work⟩
    unfold harvestType
    rw [bind_is_and_then, at_each_call_and_then]
    refine ⟨unread_alike _ (real_dir_makes_only ⟨trivial, nofun⟩ ⟨trivial, nofun⟩), ?_⟩
    rw [run_is_real_dir]
    simp only [on_value_ok]
    split
    · rename_i real
      rw [Bool.and_eq_true, Bool.not_eq_true'] at real
      have below : ∀ part ∈ settings.generateOutputSubdir ++ [assetType], isPlain part = true :=
        List.forall_mem_append.mpr ⟨plain.subdir, List.forall_mem_singleton.mpr plainType.1⟩
      have way : ∀ part ∈ workDir ++ settings.generateOutputSubdir ++ [assetType],
          isPlain part = true := by
        rw [List.append_assoc]
        exact List.forall_mem_append.mpr ⟨plain.work, below⟩
      apply harvest_dir_alike _ plainType.2 (by simp) plain.work below
      · exact List.forall_mem_append.mpr ⟨plain.root, List.forall_mem_singleton.mpr plainType.1⟩
      · refine ⟨work, ?_⟩
        intro front empty
        rw [List.prefix_nil] at empty
        rw [empty, List.append_nil]
        exact unlinked_of_looks way real.2
    · trivial
  · trivial

/-- Everything read is from the project exactly if, whenever something is read,
real directories lead to the generated-cache root. -/
theorem harvest_reads_project_iff {settings : Settings} {pid depth : Nat} {projectId : String}
    (plain : PlainNames settings projectId workDir)
    (work : world.drive.disk.find workDir = some .directory) :
    AtEachCall onDisk (ReadsProject workDir) world
        (harvest settings pid depth projectId workDir) ↔
      AtEachCall onDisk (RootIsReal workDir settings.generateOutputSubdir) world
        (harvest settings pid depth projectId workDir) := by
  apply at_each_call_iff
  apply at_each_call_mono world _ _ (harvest_alike plain work)
  rintro world request ⟨-, alike⟩
  exact forall_congr' fun src => imp_congr_right (alike src)

end Walked

end PretextBuildServer.HarvestSource
