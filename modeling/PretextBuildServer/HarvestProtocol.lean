import PretextBuildServer.CacheSystem

/-!
# How a harvest goes about one file

A harvest has at most one copy under way: it has missed the file, taken a time
for the temporary name, read the source, and is writing the copy, in that order.
What it reports are the copies it has renamed into place.
-/

namespace PretextBuildServer.HarvestProtocol

open EffectProgram EffectProgram.Program PosixDisk
open PretextBuildServer.ServerSettings PretextBuildServer.JobCalls
open PretextBuildServer.NameValidators PretextBuildServer.DiskCalls
open PretextBuildServer.AssetCache PretextBuildServer.HarvestRuns PretextBuildServer.CacheSystem

set_option autoImplicit false

/-- A file of a cache: its directories below the project's, and its name. -/
structure Item where
  dir : Names
  name : String
  deriving DecidableEq, Repr

def Item.path (item : Item) (base : Path) : Path := base ++ item.dir ++ [item.name]

def Item.temp (item : Item) (base : Path) (pid stamp : Nat) : Path :=
  base ++ item.dir ++ [tempName item.name pid stamp]

def Item.text (item : Item) : String := "/".intercalate (item.dir ++ [item.name])

/-- A cache file in directories that are named by a type or plainly. -/
structure Item.Cacheable (types : List String) (item : Item) : Prop where
  dir : ∀ name ∈ item.dir, name ∈ types ∨ matchesSubdirName name.toList = true
  name : matchesCacheFilename item.name.toList = true

inductive Stage where
  | idle
  | missed (item : Item)
  | stamped (item : Item) (stamp : Nat)
  | loaded (item : Item) (stamp : Nat) (bytes : Bytes)
  | writing (item : Item) (stamp : Nat) (bytes written : Bytes) (file : Place)

def Stage.item : Stage → Option Item
  | .idle => none
  | .missed item | .stamped item _ | .loaded item .. | .writing item .. => some item

/-- The item under way and the time in its temporary name, once there is one. -/
def Stage.stamp : Stage → Option (Item × Nat)
  | .idle | .missed _ => none
  | .stamped item stamp | .loaded item stamp _ | .writing item stamp .. => some (item, stamp)

structure Phase where
  stage : Stage := .idle
  reported : List Item := []

section Protocol

variable (types : List String) (pdir cacheRoot : Path) (pid : Nat)

def admitted (phase : Phase) : DiskCall → Prop
  | .isDir _ | .isLink _ | .isFile _ | .sameFile .. | .scandir _ => True
  | .exist path => phase.stage = .idle ∧ ∃ item : Item, item.Cacheable types ∧ path = item.path pdir
  | .makedirs path => ∃ item : Item, phase.stage = .missed item ∧ path = pdir ++ item.dir
  | .timeNs => ∃ item, phase.stage = .missed item
  | .readFile src => ∃ item stamp, phase.stage = .stamped item stamp ∧ src = item.path cacheRoot
  | .openWrite path => ∃ item stamp bytes, phase.stage = .loaded item stamp bytes ∧
      path = item.temp pdir pid stamp
  | .write file _ => ∃ item stamp bytes written, phase.stage = .writing item stamp bytes written file
  | .replace source target => ∃ item stamp bytes file,
      phase.stage = .writing item stamp bytes bytes file ∧
        source = item.temp pdir pid stamp ∧ target = item.path pdir
  | .remove path => ∃ item stamp, phase.stage.stamp = some (item, stamp) ∧
      path = item.temp pdir pid stamp
  | _ => False

/-- A failed write leaves a copy nobody renames. -/
def moves (phase : Phase) : (request : DiskCall) → DiskReply request → Phase → Prop
  | .exist path, .ok false, after => ∃ item : Item, item.Cacheable types ∧ path = item.path pdir ∧
      after = { phase with stage := .missed item }
  | .timeNs, .ok now, after => ∃ item, phase.stage = .missed item ∧
      after = { phase with stage := .stamped item now }
  | .readFile _, .ok blocks, after => ∃ item stamp, phase.stage = .stamped item stamp ∧
      after = { phase with stage := .loaded item stamp (List.flatten blocks) }
  | .openWrite _, .ok file, after => ∃ item stamp bytes, phase.stage = .loaded item stamp bytes ∧
      after = { phase with stage := .writing item stamp bytes [] file }
  | .write _ chunk, .ok _, after => ∃ item stamp bytes written file,
      phase.stage = .writing item stamp bytes written file ∧
        after = { phase with stage := .writing item stamp bytes (written ++ chunk) file }
  | .write .., .error _, after => ∃ item stamp bytes written file,
      phase.stage = .writing item stamp bytes written file ∧
        after = { phase with stage := .stamped item stamp }
  | .replace .., .ok _, after => ∃ item stamp bytes file,
      phase.stage = .writing item stamp bytes bytes file ∧
        after = { stage := .idle, reported := phase.reported ++ [item] }
  | .remove _, _, after => after = { phase with stage := .idle }
  | _, _, after => after = phase

def copying : Machine DiskCall.Answer Raised Phase where
  admits := admitted types pdir cacheRoot pid
  step := moves types pdir

end Protocol

/-- What a part of a harvest hands on: no copy is under way, and `added` names
the reported items. -/
def Reports (phase : Phase) (added : List String) : Prop :=
  phase.stage = .idle ∧ added = phase.reported.map Item.text

section Parts

variable {types : List String} {pdir cacheRoot : Path} {pid : Nat} {phase : Phase} {item : Item}
  {stamp : Nat}

/-- The part has a copy under a temporary name, or none if it has never got so far. -/
def Copying (phase : Phase) (reported : List Item) (item : Item) (stamp : Nat) : Prop :=
  phase.stage.stamp = some (item, stamp) ∧ phase.reported = reported

theorem select_keeps {Value : Type} {test : Value → DiskProgram Bool} {passes : Value → Prop}
    (tests : ∀ value, Guarantees (copying types pdir cacheRoot pid)
      (fun after outcome => after = phase ∧ (outcome = .ok true → passes value)) phase (test value))
    (values : List Value) :
    Guarantees (copying types pdir cacheRoot pid)
      (fun after outcome => after = phase ∧
        ∀ kept, outcome = .ok kept → ∀ value ∈ kept, passes value ∧ value ∈ values)
      phase (select test values) := by
  induction values with
  | nil =>
      refine ⟨rfl, ?_⟩
      rintro _ ⟨⟩
      simp
  | cons value rest induction =>
      rw [select, bind_is_and_then]
      apply guarantees_seq _ _ _ (tests value)
      rintro _ (raised | keep) ⟨rfl, passed⟩
      · exact ⟨rfl, (by simp)⟩
      · rw [on_value_ok, bind_is_and_then]
        apply guarantees_seq _ _ _ induction
        rintro _ (raised | later) ⟨rfl, kept⟩
        · exact ⟨rfl, (by simp)⟩
        · refine ⟨rfl, ?_⟩
          rintro _ ⟨⟩ other member
          cases keep with
          | false =>
              obtain ⟨holds, inside⟩ := kept later rfl other member
              exact ⟨holds, List.mem_cons_of_mem _ inside⟩
          | true =>
              rcases List.mem_cons.mp member with rfl | inside
              · exact ⟨passed rfl, List.mem_cons_self⟩
              · obtain ⟨holds, there⟩ := kept later rfl other inside
                exact ⟨holds, List.mem_cons_of_mem _ there⟩

theorem not_link_keeps (path : Path) :
    Guarantees (copying types pdir cacheRoot pid)
      (fun after outcome => after = phase ∧ (outcome = .ok true → True)) phase
      ((! ·) <$> diskCall (.isLink path)) := by
  refine ⟨trivial, ?_⟩
  rintro (raised | link) _ rfl
  · exact ⟨rfl, nofun⟩
  · exact ⟨rfl, fun _ => trivial⟩

theorem plain_subdir_keeps (dir : Path) (name : String) :
    Guarantees (copying types pdir cacheRoot pid)
      (fun after outcome => after = phase ∧
        (outcome = .ok true → matchesSubdirName name.toList = true))
      phase (isPlainSubdir dir name) := by
  unfold isPlainSubdir
  split
  · rename_i matched
    apply guarantees_mono _ _ _ (not_link_keeps _)
    rintro after outcome ⟨same, -⟩
    exact ⟨same, fun _ => matched⟩
  · refine ⟨rfl, ?_⟩
    rintro ⟨⟩

theorem real_file_keeps (path : Path) :
    Guarantees (copying types pdir cacheRoot pid) (fun after _ => after = phase) phase
      (isRealFile path) := by
  refine ⟨trivial, ?_⟩
  rintro (raised | _ | _) _ rfl
  · rfl
  · exact ⟨trivial, fun _ _ same => same⟩
  · rfl

theorem real_dir_keeps (path : Path) :
    Guarantees (copying types pdir cacheRoot pid) (fun after _ => after = phase) phase
      (isRealDir path) := by
  refine ⟨trivial, ?_⟩
  rintro (raised | _ | _) _ rfl
  · rfl
  · rfl
  · apply guarantees_mono _ _ _ (not_link_keeps _)
    exact fun _ _ kept => kept.1

theorem writes_keep {bytes : Bytes} {file : Place} {reported : List Item} (blocks : List Bytes)
    (written : Bytes) (whole : written ++ blocks.flatten = bytes) :
    Guarantees (copying types pdir cacheRoot pid)
      (fun after outcome => Copying after reported item stamp ∧
        (outcome = .ok () → after.stage = .writing item stamp bytes bytes file))
      { stage := .writing item stamp bytes written file, reported }
      (blocks.forM fun block => diskCall (.write file block)) := by
  induction blocks generalizing written with
  | nil =>
      rw [List.flatten_nil, List.append_nil] at whole
      subst whole
      exact ⟨⟨rfl, rfl⟩, fun _ => rfl⟩
  | cons block blocks induction =>
      refine ⟨⟨item, stamp, bytes, written, rfl⟩, ?_⟩
      rintro (raised | value) after ⟨_, _, _, _, _, same, rfl⟩
      · cases same
        exact ⟨⟨rfl, rfl⟩, nofun⟩
      · cases same
        exact induction _ (by rw [List.append_assoc, ← List.flatten_cons, whole])

theorem transfer_keeps (stamped : phase.stage = .stamped item stamp) :
    Guarantees (copying types pdir cacheRoot pid)
      (fun after outcome => Copying after phase.reported item stamp ∧
        (outcome = .ok () → ∃ bytes file, after.stage = .writing item stamp bytes bytes file))
      phase (transfer (item.path cacheRoot) (item.temp pdir pid stamp)) := by
  refine ⟨⟨item, stamp, stamped, rfl⟩, ?_⟩
  rintro (raised | blocks) after read
  · obtain rfl : after = phase := read
    exact ⟨⟨by rw [stamped]; rfl, rfl⟩, nofun⟩
  · obtain ⟨other, time, same, rfl⟩ := read
    rw [stamped] at same
    cases same
    refine ⟨⟨item, stamp, _, rfl, rfl⟩, ?_⟩
    rintro (raised | file) after opened
    · obtain rfl : after = _ := opened
      exact ⟨⟨rfl, rfl⟩, nofun⟩
    · obtain ⟨other, time, bytes, same, rfl⟩ := opened
      cases same
      apply guarantees_mono _ _ _ (writes_keep blocks [] rfl)
      rintro after outcome ⟨copies, done⟩
      exact ⟨copies, fun returned => ⟨_, file, done returned⟩⟩

theorem abandon_keeps {reported : List Item} (copies : Copying phase reported item stamp)
    (raised : Raised) :
    Guarantees (copying types pdir cacheRoot pid)
      (fun after outcome => ∀ promoted, outcome = .ok promoted →
        promoted = false ∧ after = { stage := .idle, reported })
      phase (abandon (item.temp pdir pid stamp) raised) := by
  obtain ⟨stamped, rfl⟩ := copies
  unfold abandon
  split
  · refine ⟨⟨item, stamp, stamped, rfl⟩, ?_⟩
    rintro (failure | value) _ rfl
    · simp only [done_and_then, on_failure_error]
      split
      · rintro _ ⟨⟩
        exact ⟨rfl, rfl⟩
      · nofun
    · rintro _ ⟨⟩
      exact ⟨rfl, rfl⟩
  · nofun

theorem promote_keeps (stamped : phase.stage = .stamped item stamp) :
    Guarantees (copying types pdir cacheRoot pid)
      (fun after outcome => ∀ promoted, outcome = .ok promoted → after =
        { stage := .idle, reported := if promoted then phase.reported ++ [item] else phase.reported })
      phase (promote (item.path cacheRoot) (item.temp pdir pid stamp) (item.path pdir)) := by
  have copied : Guarantees (copying types pdir cacheRoot pid)
      (fun after outcome => Copying after phase.reported item stamp ∧
        (outcome = .ok () → ∃ bytes file, after.stage = .writing item stamp bytes bytes file))
      phase (copyfile (item.path cacheRoot) (item.temp pdir pid stamp)) := by
    have here : Copying phase phase.reported item stamp := ⟨by rw [stamped]; rfl, rfl⟩
    refine ⟨trivial, ?_⟩
    rintro (raised | _ | _) after same
    · obtain rfl : after = phase := same
      exact ⟨here, nofun⟩
    · obtain rfl : after = phase := same
      exact transfer_keeps stamped
    · obtain rfl : after = phase := same
      exact ⟨here, nofun⟩
  have moved : Guarantees (copying types pdir cacheRoot pid)
      (fun after outcome => (∀ raised, outcome = .error raised →
          Copying after phase.reported item stamp) ∧ ∀ promoted, outcome = .ok promoted →
        promoted = true ∧ after = { stage := .idle, reported := phase.reported ++ [item] })
      phase (do
        copyfile (item.path cacheRoot) (item.temp pdir pid stamp)
        diskCall (.replace (item.temp pdir pid stamp) (item.path pdir))
        return true) := by
    rw [bind_is_and_then]
    apply guarantees_seq _ _ _ copied
    rintro middle (raised | _) ⟨copies, done⟩
    · exact ⟨fun _ _ => copies, nofun⟩
    · obtain ⟨bytes, file, writing⟩ := done rfl
      refine ⟨⟨item, stamp, bytes, file, writing, rfl, rfl⟩, ?_⟩
      rintro (raised | _) after renamed
      · obtain rfl : after = middle := renamed
        exact ⟨fun _ _ => copies, nofun⟩
      · obtain ⟨other, time, bytes, file, same, rfl⟩ := renamed
        rw [writing] at same
        cases same
        refine ⟨nofun, ?_⟩
        rintro _ ⟨⟩
        exact ⟨rfl, by rw [copies.2]⟩
  apply guarantees_seq _ _ _ moved
  rintro after (raised | promoted) ⟨failed, renamed⟩
  · apply guarantees_mono _ _ _ (abandon_keeps (failed raised rfl) raised)
    rintro last outcome ended promoted returned
    obtain ⟨rfl, rfl⟩ := ended promoted returned
    rfl
  · rintro _ ⟨⟩
    obtain ⟨rfl, rfl⟩ := renamed promoted rfl
    rfl

/-! ### The walk -/

abbrev HandsOnReports (after : Phase) (outcome : Except Raised (List String)) : Prop :=
  ∀ added, outcome = .ok added → Reports after added

theorem harvest_file_keeps {assetType : String} {parts added : List String} {name : String}
    (ofType : assetType ∈ types) (plain : ∀ part ∈ parts, matchesSubdirName part.toList = true)
    (reports : Reports phase added) :
    Guarantees (copying types pdir cacheRoot pid) HandsOnReports phase
      (harvestFile pid ⟨assetType, cacheRoot ++ [assetType], pdir ++ [assetType]⟩ parts added name) := by
  have stays : ∀ after, after = phase → HandsOnReports after (.ok added) := by
    rintro _ rfl _ ⟨⟩
    exact reports
  unfold harvestFile
  dsimp only
  split
  · exact stays phase rfl
  · rename_i matched
    rw [bind_is_and_then]
    apply guarantees_seq _ _ _ (real_file_keeps _)
    rintro start (raised | real) rfl
    · nofun
    · rw [on_value_ok]
      split
      · exact stays _ rfl
      · let item : Item := { dir := assetType :: parts, name }
        have cacheable : item.Cacheable types :=
          ⟨List.forall_mem_cons.mpr ⟨.inl ofType, fun part inside => .inr (plain part inside)⟩,
            by simpa using matched⟩
        have directory : pdir ++ [assetType] ++ parts = pdir ++ item.dir := by simp [item]
        have source : cacheRoot ++ [assetType] ++ parts ++ [name] = item.path cacheRoot := by
          simp [item, Item.path]
        rw [directory, source]
        refine ⟨⟨reports.1, item, cacheable, rfl⟩, ?_⟩
        rintro (raised | _ | _) after missed
        · nofun
        · obtain ⟨other, -, same, rfl⟩ := missed
          have here : pdir ++ item.dir ++ [name] = item.path pdir := rfl
          rw [here] at same ⊢
          obtain rfl : other = item := by
            have names := List.append_inj' same rfl
            have below := List.append_cancel_left names.1
            obtain ⟨dir, last⟩ := other
            obtain rfl : _ = dir := below
            obtain rfl : name = last := (List.cons.inj names.2).1
            rfl
          refine ⟨⟨_, rfl, rfl⟩, ?_⟩
          rintro (raised | _) _ rfl
          · nofun
          · refine ⟨⟨_, rfl⟩, ?_⟩
            rintro (raised | now) after stamped
            · nofun
            · obtain ⟨other, same, rfl⟩ := stamped
              cases same
              have promoted := @promote_keeps types pdir cacheRoot pid
                { start with stage := .stamped item now } item now rfl
              simp only [done_and_then, on_value_ok, bind_is_and_then]
              apply guarantees_seq _ _ _ promoted
              rintro last (raised | promoted) ended
              · nofun
              · rintro _ ⟨⟩
                obtain rfl := ended promoted rfl
                refine ⟨rfl, ?_⟩
                cases promoted with
                | false => exact reports.2
                | true =>
                    simp only [if_true, List.map_append, List.map_singleton, ← reports.2]
                    rfl
        · exact stays _ missed

theorem harvest_dir_keeps {assetType : String} {parts added : List String} (depth : Nat)
    (ofType : assetType ∈ types) (plain : ∀ part ∈ parts, matchesSubdirName part.toList = true)
    (reports : Reports phase added) :
    Guarantees (copying types pdir cacheRoot pid) HandsOnReports phase
      (harvestDir pid ⟨assetType, cacheRoot ++ [assetType], pdir ++ [assetType]⟩ depth parts added) := by
  induction depth generalizing parts added phase with
  | zero =>
      rintro _ ⟨⟩
      exact reports
  | succ depth induction =>
      refine ⟨trivial, ?_⟩
      rintro (raised | entries) _ rfl
      · simp only [done_and_then]
        split
        · rintro _ ⟨⟩
          exact reports
        · nofun
      · simp only [done_and_then, bind_is_and_then]
        apply guarantees_seq _ _ _ (select_keeps (plain_subdir_keeps _) _)
        rintro _ (raised | dirs) ⟨rfl, kept⟩
        · nofun
        · rw [on_value_ok]
          apply guarantees_seq _ _ _ (guarantees_fold Reports _ _
            (fun _ _ _ _ here => harvest_file_keeps ofType plain here) _ _ reports)
          rintro middle (raised | added) files
          · nofun
          · rw [on_value_ok]
            apply guarantees_seq _ _ _ (select_keeps (fun d => not_link_keeps _) _)
            rintro _ (raised | walked) ⟨rfl, below⟩
            · nofun
            · rw [on_value_ok]
              apply guarantees_fold Reports _ _ _ _ _ (files added rfl)
              intro world value d member here
              apply induction _ here
              have named := (kept dirs rfl d (below walked rfl d member).2).1
              rw [List.forall_mem_append, List.forall_mem_singleton]
              exact ⟨plain, named⟩

theorem harvest_keeps (settings : Settings) (depth : Nat) (projectId : String) (workDir : Path) :
    Guarantees (copying settings.assetCacheTypes (root settings ++ [projectId])
        (workDir ++ settings.generateOutputSubdir) pid) HandsOnReports {} (harvest settings pid depth projectId workDir) := by
  unfold harvest projectDir
  split
  · simp only [pure_is_done, bind_is_and_then, done_and_then, on_value_ok]
    apply guarantees_fold Reports _ _ _ _ _ ⟨rfl, rfl⟩
    intro phase added assetType member reports
    unfold harvestType
    rw [bind_is_and_then]
    apply guarantees_seq _ _ _ (real_dir_keeps _)
    rintro _ (raised | real) rfl
    · nofun
    · rw [on_value_ok]
      split
      · exact harvest_dir_keeps depth member (by simp) reports
      · rintro _ ⟨⟩
        exact reports
  · nofun

end Parts

end PretextBuildServer.HarvestProtocol
