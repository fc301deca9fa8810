import PretextBuildServer.HarvestRuns

/-!
# Where a harvest writes

The source side of a harvest looks for links at every level; the destination is
a path joined from names, and whatever build jobs have left in the cache may
lead it anywhere. It stays in the project's cache exactly as long as the
directories it makes and the temporary names it opens do.
-/

namespace PretextBuildServer.HarvestConfinement

open EffectProgram EffectProgram.Program PosixDisk
open PretextBuildServer.ServerSettings PretextBuildServer.JobCalls
open PretextBuildServer.NameValidators PretextBuildServer.DiskCalls PretextBuildServer.AssetCache
open PretextBuildServer.HarvestRuns

set_option autoImplicit false

/-- Every place changed so far is in `pdir`. -/
def Within (pdir : Place) (drive : Drive) : Prop := ∀ place ∈ drive.changed, pdir <+: place

def Confined (pdir : Place) (world : DiskWorld) : Prop := Within pdir world.drive

/-- What has to hold when `harvest` makes the directories for a file and when it
starts to copy. The first directory missing, links followed, belongs in `pdir`.
So does what stands under the temporary name, and the place this name leads to;
directories, and the file to be copied, are not written to. -/
def StaysInside (pdir : Place) (world : DiskWorld) : DiskCall → Prop
  | .makedirs path => ∀ front name rest real, path = front ++ name :: rest →
      world.drive.disk.Foundation front name real → pdir <+: real ++ [name]
  | .sameFile src tmp =>
      (∀ place, world.drive.disk.spot tmp = some place → world.drive.disk.find place ≠ none →
        world.drive.disk.find place ≠ some .directory → pdir <+: place) ∧
      ∀ place, world.drive.disk.locate tmp = some place →
        world.drive.disk.find place ≠ some .directory → world.drive.disk.locate src ≠ some place →
        pdir <+: place
  | _ => True

section Drives

variable {pdir : Place} {drive later : Drive}

theorem within_before (leads : drive.Leads later) (within : Within pdir later) :
    Within pdir drive := by
  intro place changed
  exact within place (leads_changed leads changed)

theorem within_cons {place : Place} (changed : later.changed = place :: drive.changed) :
    Within pdir later ↔ pdir <+: place ∧ Within pdir drive := by
  rw [Within, changed, List.forall_mem_cons]
  rfl

theorem made_within {real : Place} {name : String} {rest : Names}
    (made : drive.Made real (name :: rest) later) (within : Within pdir drive) :
    Within pdir later ↔ pdir <+: real ++ [name] := by
  rw [Within, made.listed]
  constructor
  · intro inside
    apply inside
    rw [List.mem_append, List.mem_reverse]
    exact .inl List.mem_cons_self
  · intro inside place changed
    rw [List.mem_append, List.mem_reverse, mem_chain] at changed
    rcases changed with ⟨below, some, front, rfl⟩ | before
    · cases below with
      | nil => exact absurd rfl some
      | cons first below =>
          obtain ⟨rfl, -⟩ := List.cons_prefix_cons.mp front
          rw [List.append_cons]
          exact inside.trans (List.prefix_append _ _)
    · exact within place before

end Drives

section Calls

variable {pdir : Place} {world : DiskWorld}

theorem harvest_only_loses (world : DiskWorld) (request : DiskCall)
    (confined : Confined pdir (onDisk world request).2) : Confined pdir world :=
  within_before (on_disk_leads world request) confined

theorem makedirs_tracks {path : Path} (plain : ∀ name ∈ path, isPlain name = true) :
    Tracks onDisk (Confined pdir) (StaysInside pdir) world (diskCall (.makedirs path)) := by
  apply tracks_perform
  intro within
  simp only [onDisk, DiskWorld.lift, Confined]
  cases exist : world.drive.disk.exist path with
  | true =>
      obtain ⟨refusal, made⟩ := make_dirs_exist exist
      rw [made]
      refine iff_of_true within ?_
      rintro front name rest real rfl foundation
      have there := exist_through exist foundation.located
      rw [enter_plain (plain name (by simp))] at there
      exact absurd foundation.missing there
  | false =>
      rcases make_dirs_absent plain exist with barred | founded
      · obtain ⟨⟨refusal, refused⟩, none⟩ := barred
        rw [refused]
        refine iff_of_true within ?_
        intro front name rest real split foundation
        exact absurd foundation (none front name rest real split)
      · obtain ⟨front, name, rest, real, later, rfl, foundation, makes, made, -⟩ := founded
        rw [makes, made_within made within]
        constructor
        · intro inside other last further place split second
          have plainLast : isPlain last = true := plain last (by rw [split]; simp)
          obtain ⟨rfl, rfl⟩ :=
            foundation_unique (plain name (by simp)) plainLast split foundation second
          exact inside
        · intro inside
          exact inside front name rest real rfl foundation

/-! ## Copying one file -/

/-- With something other than a directory under the temporary name, that place
changes, and at most the one the file is for besides. -/
theorem move_or_remove_changes {drive : Drive} {tmp dest : Path} {place other : Place}
    {entry : Entry} (spotted : drive.disk.spot tmp = some place)
    (onto : drive.disk.spot dest = some other) (found : drive.disk.find place = some entry)
    (leaf : entry ≠ .directory) (apart : place ≠ other) :
    (moveOrRemove drive tmp dest).2.changed = place :: drive.changed ∨
      (moveOrRemove drive tmp dest).2.changed = other :: place :: drive.changed := by
  unfold moveOrRemove
  by_cases directory : drive.disk.find other = some .directory
  · left
    rw [replace_onto_directory spotted onto directory]
    rcases remove_cases drive tmp with ⟨-, kept⟩ | ⟨gone, _, later, named, -, -, drop, removed⟩
    · rcases kept place spotted with free | directory
      · rw [free] at found
        cases found
      · rw [directory, Option.some.injEq] at found
        exact absurd found.symm leaf
    · rw [spotted, Option.some.injEq] at named
      simp only [removed, named]
      exact (drive_drop_some drop).2
  · right
    obtain ⟨later, moved, changed, -⟩ :=
      replace_moves spotted onto found leaf directory apart
    rw [moved]
    exact changed

/-- The two names of one directory a file is copied under. -/
structure Slot (pdir destDir : Path) (tmp name : String) : Prop where
  plain_tmp : isPlain tmp = true
  plain_name : isPlain name = true
  apart : tmp ≠ name
  not_project : ∀ dir, pdir ≠ dir ++ [tmp]

theorem slot_sibling {destDir : Path} {tmp name : String} (slot : Slot pdir destDir tmp name)
    {dir : Place} (inside : pdir <+: dir ++ [tmp]) : pdir <+: dir ++ [name] := by
  rw [List.prefix_concat_iff] at inside
  rcases inside with same | front
  · exact absurd same (slot.not_project dir)
  · exact front.trans (List.prefix_append _ _)

theorem remove_within {drive : Drive} {tmp : Path} (within : Within pdir drive) :
    Within pdir (drive.remove tmp).2 ↔ ∀ place, drive.disk.spot tmp = some place →
      drive.disk.find place ≠ none → drive.disk.find place ≠ some .directory → pdir <+: place := by
  rcases remove_cases drive tmp with ⟨refused, kept⟩ | ⟨gone, entry, later, named, found, leaf, drop, removed⟩
  · rw [refused]
    refine iff_of_true within ?_
    intro place spotted there leaf
    rcases kept place spotted with free | directory
    · exact absurd free there
    · exact absurd directory leaf
  · rw [removed, within_cons (drive_drop_some drop).2]
    constructor
    · rintro ⟨inside, -⟩ place spotted - -
      rw [named, Option.some.injEq] at spotted
      rwa [← spotted]
    · intro inside
      exact ⟨inside gone named (by simp [found]) (by simpa [found] using leaf), within⟩

/-- Once the temporary file is open at `file`, the copy stays inside if `file`
and the temporary name do. -/
theorem finish_within {drive opened : Drive} {destDir : Path} {tmp name : String}
    (slot : Slot pdir destDir tmp name) {file place : Place} {bytes : Bytes}
    (within : Within pdir drive)
    (located : drive.disk.locate (destDir ++ [tmp]) = some file)
    (put : drive.put file (.file []) = some opened)
    (spotted : drive.disk.spot (destDir ++ [tmp]) = some place) :
    Within pdir (moveOrRemove (opened.append file bytes).2 (destDir ++ [tmp])
      (destDir ++ [name])).2 ↔ pdir <+: file ∧ pdir <+: place := by
  obtain ⟨dir, dirLocated, inside, rfl⟩ := spot_in_directory slot.plain_tmp spotted
  have landing := (locate_lands located).2
  have steady := put_file_steady put landing
  have opened_file : opened.disk.find file = some (.file []) := by
    rw [find_put (drive_put_some put).1, if_pos rfl]
  obtain ⟨filled, appended, filled_file, filled_steady, filled_changed⟩ :=
    append_to_file opened_file bytes
  rw [appended]
  have still : drive.disk.Steady filled.disk := steady_trans steady filled_steady
  have onto : drive.disk.spot (destDir ++ [name]) = some (dir ++ [name]) := by
    rw [spot_concat, dirLocated, Option.bind_some, if_pos inside, enter_plain slot.plain_name]
  have entry_there : ∃ entry, filled.disk.find (dir ++ [tmp]) = some entry ∧
      entry ≠ .directory := by
    by_cases linked : ∃ target, drive.disk.find (dir ++ [tmp]) = some (.link target)
    · obtain ⟨target, link⟩ := linked
      exact ⟨.link target, ((still _).2 target).mp link, by simp⟩
    · have same : file = dir ++ [tmp] := by
        rw [locate_concat dirLocated inside (by
          rw [enter_plain slot.plain_tmp]
          exact fun target link => linked ⟨target, link⟩), Option.some.injEq,
          enter_plain slot.plain_tmp] at located
        exact located.symm
      exact ⟨.file ([] ++ bytes), same ▸ filled_file, by simp⟩
  obtain ⟨entry, found, leaf⟩ := entry_there
  have apart : dir ++ [tmp] ≠ dir ++ [name] := by
    simpa using slot.apart
  have before : filled.changed = file :: file :: drive.changed := by
    rw [filled_changed, (drive_put_some put).2]
  have filledWithin : Within pdir filled ↔ pdir <+: file := by
    rw [Within, before, List.forall_mem_cons, List.forall_mem_cons, and_self_left]
    exact and_iff_left within
  rcases move_or_remove_changes (spot_steady still spotted) (spot_steady still onto) found leaf
    apart with changed | changed
  · rw [within_cons changed, filledWithin, and_comm]
  · rw [Within, changed, List.forall_mem_cons, List.forall_mem_cons]
    change _ ∧ _ ∧ Within pdir filled ↔ _
    rw [filledWithin, and_comm, and_comm (a := pdir <+: dir ++ [tmp]), and_assoc, and_congr_right_iff]
    intro _
    exact and_iff_left_of_imp (slot_sibling slot)

/-- `promoteOn` stays inside exactly if the temporary name does, with a link of
that name followed and not. -/
theorem promote_within {destDir src : Path} {tmp name : String} {bytes : Bytes}
    (slot : Slot pdir destDir tmp name) (confined : Confined pdir world)
    (source : world.drive.disk.stat src = some (.file bytes)) :
    Within pdir (promoteOn world.drive (world.sameFile src (destDir ++ [tmp])) bytes
      (destDir ++ [tmp]) (destDir ++ [name])).2 ↔
      StaysInside pdir world (.sameFile src (destDir ++ [tmp])) := by
  obtain ⟨origin, srcLocated, srcFound⟩ : ∃ origin, world.drive.disk.locate src = some origin ∧
      world.drive.disk.find origin = some (.file bytes) := by
    rwa [Disk.stat, Option.bind_eq_some_iff] at source
  have srcThere : world.drive.disk.exist src = true := by
    rw [Disk.exist, source]
    rfl
  have removal : Within pdir (world.drive.remove (destDir ++ [tmp])).2 ↔
      ∀ place, world.drive.disk.spot (destDir ++ [tmp]) = some place →
        world.drive.disk.find place ≠ none → world.drive.disk.find place ≠ some .directory →
        pdir <+: place := remove_within confined
  unfold promoteOn
  cases same : world.sameFile src (destDir ++ [tmp]) with
  | true =>
      simp only [DiskWorld.sameFile, Bool.and_eq_true, beq_iff_eq] at same
      simp only [if_true]
      rw [removal]
      refine (and_iff_left ?_).symm
      intro place located _ other
      rw [same.2, located] at other
      exact absurd rfl other
  | false =>
      simp only [Bool.false_eq_true, if_false]
      rcases create_cases world.drive (destDir ++ [tmp]) with
        ⟨refused, blocked⟩ | ⟨file, opened, located, leaf, put, created⟩
      · rw [refused]
        simp only
        rw [removal]
        refine (and_iff_left ?_).symm
        intro place located leaf
        exact absurd (blocked place located) leaf
      · obtain ⟨dir, dirLocated, inside⟩ := exist_head located
        have spotted : world.drive.disk.spot (destDir ++ [tmp]) = some (dir ++ [tmp]) := by
          rw [spot_concat, dirLocated, Option.bind_some, if_pos inside, enter_plain slot.plain_tmp]
        rw [created]
        simp only
        rw [finish_within slot confined located put spotted]
        have other : world.drive.disk.locate src ≠ some file := by
          intro srcFile
          rw [srcLocated, Option.some.injEq] at srcFile
          have tmpThere : world.drive.disk.exist (destDir ++ [tmp]) = true := by
            rw [Disk.exist, Disk.stat, located, Option.bind_some, ← srcFile, srcFound]
            rfl
          rw [DiskWorld.sameFile, srcThere, tmpThere, srcLocated, located, srcFile] at same
          simp at same
        have unlinked : (∀ target, world.drive.disk.find (dir ++ [tmp]) ≠ some (.link target)) →
            file = dir ++ [tmp] := by
          intro plain
          rw [← enter_plain slot.plain_tmp] at plain
          rw [locate_concat dirLocated inside plain, Option.some.injEq,
            enter_plain slot.plain_tmp] at located
          exact located.symm
        constructor
        · rintro ⟨fileInside, placeInside⟩
          refine ⟨?_, ?_⟩
          · intro place named _ _
            rw [spotted, Option.some.injEq] at named
            rwa [← named]
          · intro place named _ _
            rw [located, Option.some.injEq] at named
            rwa [← named]
        · rintro ⟨standing, leading⟩
          have fileInside := leading file located leaf other
          refine ⟨fileInside, ?_⟩
          by_cases linked : ∃ target, world.drive.disk.find (dir ++ [tmp]) = some (.link target)
          · obtain ⟨target, link⟩ := linked
            exact standing _ spotted (by simp [link]) (by simp [link])
          · rw [← unlinked fun target link => linked ⟨target, link⟩]
            exact fileInside

/-- The calls on which nothing depends. -/
def unchecked : DiskCall → Prop
  | .makedirs _ | .sameFile .. => False
  | _ => True

theorem unchecked_stays (world : DiskWorld) (request : DiskCall) (free : unchecked request) :
    StaysInside pdir world request := by
  cases request <;> trivial

theorem at_each_copyfile (src tmp : Path) :
    AtEachCall onDisk (StaysInside pdir) world (copyfile src tmp) ↔
      StaysInside pdir world (.sameFile src tmp) := by
  rw [copyfile, bind_is_and_then, at_each_call_and_then]
  refine (and_iff_left ?_).trans (and_iff_left trivial)
  apply at_each_call_of_makes_only unchecked_stays
  rw [run_perform]
  simp only [onDisk, on_value_ok]
  split
  · trivial
  · exact transfer_makes_only trivial trivial fun _ _ => trivial

theorem promote_tracks {destDir src : Path} {tmp name : String} {bytes : Bytes}
    (slot : Slot pdir destDir tmp name)
    (source : world.drive.disk.stat src = some (.file bytes)) :
    Tracks onDisk (Confined pdir) (StaysInside pdir) world
      (promote src (destDir ++ [tmp]) (destDir ++ [name])) := by
  intro confined
  rw [run_promote source]
  refine (promote_within slot confined source).trans ?_
  rw [← at_each_copyfile, promote, rescue, bind_is_and_then, at_each_call_and_then,
    at_each_call_and_then, and_assoc]
  refine (and_iff_left ⟨?_, ?_⟩).symm
  · apply at_each_call_of_makes_only unchecked_stays
    cases (run onDisk world (copyfile src (destDir ++ [tmp]))).1 with
    | error raised => trivial
    | ok copied =>
        refine ⟨trivial, fun reply => ?_⟩
        cases reply <;> trivial
  · apply at_each_call_of_makes_only unchecked_stays
    generalize (run onDisk world ((copyfile src (destDir ++ [tmp])).andThen _)).1 = outcome
    cases outcome with
    | error raised => exact abandon_makes_only trivial raised
    | ok moved => trivial

/-! ## The whole harvest -/

theorem looks_track {Result : Type} {program : DiskProgram Result}
    (looks : MakesOnly (fun request => DiskCall.looks request = true ∧ unchecked request) program) :
    Tracks onDisk (Confined pdir) (StaysInside pdir) world program := by
  apply tracks_of_makes_only _ _ world program looks
  · intro world request look confined
    rw [Confined, look_keeps_drive world look.1]
    exact confined
  · intro world request look
    exact unchecked_stays world request look.2

theorem look_tracks (request : DiskCall) (looks : DiskCall.looks request = true)
    (free : unchecked request) :
    Tracks onDisk (Confined pdir) (StaysInside pdir) world (diskCall request) := by
  apply tracks_perform
  intro confined
  refine iff_of_true ?_ (unchecked_stays world request free)
  rw [Confined, look_keeps_drive world looks]
  exact confined

theorem harvest_file_tracks {pid : Nat} {route : Route} {parts added : List String} {name : String}
    (plain : ∀ part ∈ route.destTypeDir ++ parts, isPlain part = true)
    (project : ∀ dir pid timeNs, pdir ≠ dir ++ [tempName name pid timeNs]) :
    Tracks onDisk (Confined pdir) (StaysInside pdir) world
      (harvestFile pid route parts added name) := by
  unfold harvestFile
  cases cached : matchesCacheFilename name.toList with
  | false => exact tracks_done _ _
  | true =>
      simp only [Bool.not_true, Bool.false_eq_true, if_false]
      rw [bind_is_and_then]
      apply tracks_and_then harvest_only_loses _ _ _ 
        (looks_track (real_file_makes_only ⟨rfl, trivial⟩ ⟨rfl, trivial⟩))
      rw [run_is_real_file]
      simp only [on_value_ok]
      split
      · exact tracks_done _ _
      · rename_i real
        simp only [Bool.not_eq_true', Bool.not_eq_false, Bool.and_eq_true] at real
        obtain ⟨bytes, source⟩ := is_file_iff.mp real.2
        rw [bind_is_and_then]
        apply tracks_and_then harvest_only_loses _ _ _ (look_tracks (.exist _) rfl trivial)
        rw [run_perform]
        simp only [onDisk, on_value_ok]
        split
        · exact tracks_done _ _
        · rw [bind_is_and_then]
          apply tracks_and_then harvest_only_loses _ _ _ (makedirs_tracks plain)
          rw [run_perform]
          simp only [onDisk, DiskWorld.lift]
          cases (world.drive.makeDirs (route.destTypeDir ++ parts)).1 with
          | error refusal => exact tracks_done _ _
          | ok made =>
              simp only [Except.mapError, on_value_ok, bind_is_and_then]
              apply tracks_and_then harvest_only_loses _ _ _ (look_tracks .timeNs rfl trivial)
              rw [run_perform]
              simp only [onDisk, on_value_ok]
              apply tracks_and_then harvest_only_loses
              · apply promote_tracks _ (source_stays plain source)
                exact ⟨temp_name_plain _ _ _, cache_filename_plain cached, temp_name_apart _ _ _,
                  fun dir => project dir _ _⟩
              · exact tracks_hand_on _ _ _

theorem harvest_dir_tracks {pid : Nat} {route : Route} {parts added : List String} {depth : Nat}
    (plain : ∀ part ∈ route.destTypeDir ++ parts, isPlain part = true)
    (project : ∀ dir name pid timeNs, pdir ≠ dir ++ [tempName name pid timeNs]) :
    Tracks onDisk (Confined pdir) (StaysInside pdir) world
      (harvestDir pid route depth parts added) := by
  induction depth generalizing world parts added with
  | zero => exact tracks_done _ _
  | succ depth induction =>
      unfold harvestDir
      apply tracks_and_then harvest_only_loses _ _ _ (look_tracks (.scandir _) rfl trivial)
      rw [run_perform]
      simp only [onDisk]
      cases world.scandir (route.srcTypeDir ++ parts) with
      | error raised =>
          simp only
          split <;> exact tracks_done _ _
      | ok entries =>
          simp only [bind_is_and_then]
          apply tracks_and_then harvest_only_loses _ _ _
            (looks_track (makes_only_select
              (fun name => plain_subdir_makes_only ⟨rfl, trivial⟩) _))
          rw [run_select (run_is_plain_subdir _)]
          simp only [on_value_ok]
          apply tracks_and_then harvest_only_loses _ _ _
            (tracks_fold harvest_only_loses _ _ (fun world value element _ =>
              harvest_file_tracks plain fun dir => project dir element) _ _)
          cases (run onDisk world (List.foldlM (harvestFile pid route parts) added _)).1 with
          | error raised => exact tracks_done _ _
          | ok harvested =>
              simp only [on_value_ok]
              apply tracks_and_then harvest_only_loses _ _ _
                (looks_track (makes_only_select (fun d => not_link_makes_only ⟨rfl, trivial⟩) _))
              rw [run_select fun d => run_is_not_link _]
              simp only [on_value_ok]
              apply tracks_fold harvest_only_loses
              intro world value d member
              apply induction
              have named : matchesSubdirName d.toList = true := by
                simp only [List.mem_filter, Bool.and_eq_true] at member
                exact member.1.2.1
              rw [← List.append_assoc, List.forall_mem_append]
              refine ⟨plain, ?_⟩
              rw [List.forall_mem_singleton]
              exact subdir_plain named

/-- No path of the settings goes through `.` or `..`. -/
def PlainPaths (settings : Settings) : Prop :=
  (∀ name ∈ root settings, isPlain name = true) ∧
    ∀ name ∈ settings.assetCacheTypes, isPlain name = true

theorem harvest_tracks {settings : Settings} {pid depth : Nat} {projectId : String}
    {workDir : Path} (plain : PlainPaths settings) :
    Tracks onDisk (Confined (root settings ++ [projectId]))
      (StaysInside (root settings ++ [projectId])) world
      (harvest settings pid depth projectId workDir) := by
  unfold harvest projectDir
  split
  · rename_i valid
    obtain ⟨first, more, starts, noDot⟩ := project_id_starts valid
    have plainId : isPlain projectId = true := plain_of_first starts noDot
    have project : ∀ dir name pid timeNs,
        root settings ++ [projectId] ≠ dir ++ [tempName name pid timeNs] := by
      intro dir name pid timeNs same
      obtain ⟨tail, text⟩ := temp_name_text name pid timeNs
      rw [← List.singleton_inj.mp (List.append_inj' same rfl).2, starts] at text
      exact noDot (List.cons.inj text).1
    apply tracks_fold harvest_only_loses
    intro world added assetType member
    unfold harvestType
    apply tracks_and_then harvest_only_loses _ _ _ 
      (looks_track (real_dir_makes_only ⟨rfl, trivial⟩ ⟨rfl, trivial⟩))
    rw [run_is_real_dir]
    simp only [on_value_ok]
    split
    · apply harvest_dir_tracks _ project
      intro name below
      simp only [List.append_nil, List.mem_append, List.mem_singleton] at below
      rcases below with (above | rfl) | rfl
      · exact plain.1 name above
      · exact plainId
      · exact plain.2 name member
    · exact tracks_done _ _
  · exact tracks_done _ _

/-- From an empty list of changes on, a harvest changes places of the project's
cache only if and only if, links followed, every directory it makes and every
temporary name it takes is in there. -/
theorem harvest_confined_iff (settings : Settings) (pid depth : Nat) (projectId : String)
    (workDir : Path) (world : DiskWorld) (plain : PlainPaths settings)
    (fresh : world.drive.changed = []) :
    (∀ place ∈ (run onDisk world (harvest settings pid depth projectId workDir)).2.drive.changed,
      root settings ++ [projectId] <+: place) ↔
      AtEachCall onDisk (StaysInside (root settings ++ [projectId])) world
        (harvest settings pid depth projectId workDir) := by
  apply harvest_tracks plain
  intro place changed
  rw [fresh] at changed
  cases changed

theorem run_leads {Result : Type} (world : DiskWorld) (program : DiskProgram Result) :
    world.drive.Leads (run onDisk world program).2.drive := by
  induction program generalizing world with
  | done outcome => exact leads_refl _
  | call request next induction => exact leads_trans (on_disk_leads world request) (induction _ _)

end Calls

/-! ## A cache a build job has left a link in -/

def cacheKey : String := "0123456789abcdef0123456789abcdef.svg"

def typeDir (projectId : String) : Path := root defaults ++ [projectId, "latex-image"]

/-- Two projects with a cache, and a job with one figure below `sub`. -/
def twoProjects (more : List (Place × Entry)) : DiskWorld where
  drive := {
    disk := .ofList ([
      (["data"], .directory), (root defaults, .directory),
      (root defaults ++ ["p"], .directory), (typeDir "p", .directory),
      (root defaults ++ ["q"], .directory), (typeDir "q", .directory),
      (["data", "jobs"], .directory), (["data", "jobs", "j"], .directory),
      (defaults.workDir "j", .directory), (defaults.workDir "j" ++ [".cache"], .directory),
      (defaults.workDir "j" ++ [".cache", "latex-image"], .directory),
      (defaults.workDir "j" ++ [".cache", "latex-image", "sub"], .directory),
      (defaults.workDir "j" ++ [".cache", "latex-image", "sub", cacheKey], .file [1])] ++ more)
    changed := [] }
  clock := 5
  lastUse := fun _ => 0

theorem tidy_cache_is_confined :
    (∀ place ∈ (run onDisk (twoProjects [])
      (harvest defaults 7 4 "p" (defaults.workDir "j"))).2.drive.changed,
      root defaults ++ ["p"] <+: place) ↔
      AtEachCall onDisk (StaysInside (root defaults ++ ["p"])) (twoProjects [])
        (harvest defaults 7 4 "p" (defaults.workDir "j")) :=
  harvest_confined_iff defaults 7 4 "p" (defaults.workDir "j") (twoProjects [])
    ⟨by decide, by decide⟩ rfl

/-- A link `sub` to the cache of another project: the file lands there. -/
def planted : DiskWorld :=
  twoProjects [(typeDir "p" ++ ["sub"],
    .link { absolute := false, names := ["..", "..", "q", "latex-image"] })]

theorem planted_link_reaches_other_project :
    planted.drive.changed = [] ∧ planted.drive.disk.find (typeDir "q" ++ [cacheKey]) = none ∧
      (run onDisk planted (harvest defaults 7 4 "p" (defaults.workDir "j"))).2.drive.disk.find
        (typeDir "q" ++ [cacheKey]) = some (.file [1]) ∧
      typeDir "q" ++ [cacheKey] ∈
        (run onDisk planted (harvest defaults 7 4 "p" (defaults.workDir "j"))).2.drive.changed ∧
      ¬ root defaults ++ ["p"] <+: typeDir "q" ++ [cacheKey] := by
  decide +kernel

end PretextBuildServer.HarvestConfinement
