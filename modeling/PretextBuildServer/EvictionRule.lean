import PretextBuildServer.PruneProtocol
import PretextBuildServer.Library.PosixUnlinked

/-!
# What a prune goes by

A prune asks the time, lists the projects, and asks for the sizes of their
files. It removes nothing but what stands in the directory of a project it has
found unused for too long, or that does not fit with those it has left.
-/

namespace PretextBuildServer.EvictionRule

open EffectProgram EffectProgram.Program PosixDisk
open PretextBuildServer.ServerSettings PretextBuildServer.JobCalls
open PretextBuildServer.DiskCalls PretextBuildServer.AssetCache PretextBuildServer.PruneProtocol

set_option autoImplicit false

/-- What a prune has been told, and which projects it has taken away. Each size
goes with the project the file is of. -/
structure Seen where
  now : Int := 0
  listed : List DirEntry := []
  measured : List (String × Nat) := []
  cleared : List String := []
  deriving DecidableEq

/-- The project a path below the cache's root belongs to. -/
def projectOf (base path : Path) : Option String :=
  if base <+: path then path[base.length]? else none

/-- A new listing starts a new account. -/
def Seen.note (base : Path) (seen : Seen) : (request : DiskCall) → DiskReply request → Seen
  | .time, .ok now => { seen with now }
  | .scandir path, .ok entries => if path = base then { now := seen.now, listed := entries } else seen
  | .fileSize path, .ok size =>
      { seen with measured := seen.measured ++ (projectOf base path).toList.map (·, size) }
  | .rmdir path, _ => { seen with cleared := seen.cleared ++ (nameIn base path).toList }
  | _, _ => seen

def sizeOf (measured : List (String × Nat)) (name : String) : Nat :=
  ((measured.filter fun size => size.1 = name).map (·.2)).sum

/-- The sizes of the projects that have not been taken away. -/
def Seen.left (seen : Seen) : Nat :=
  ((seen.measured.filter fun size => size.1 ∉ seen.cleared).map (·.2)).sum

/-- Before which other an `os.scandir` entry comes in `sorted(live)`. -/
def UsedBefore (older project : DirEntry) : Prop :=
  older.mtime < project.mtime ∨ older.mtime = project.mtime ∧ older.name < project.name

/-- Every project that was used before this one has been taken away, but the one to keep. -/
def Seen.LeastRecent (keepProjectId : Option String) (seen : Seen) (project : DirEntry) : Prop :=
  ∀ older ∈ seen.listed, older.isRealDir = true → keepProjectId ≠ some older.name →
    UsedBefore older project → older.name ∈ seen.cleared

structure Seen.Evictable (settings : Settings) (keepProjectId : Option String) (seen : Seen)
    (project : DirEntry) : Prop where
  listed : project ∈ seen.listed
  real : project.isRealDir = true
  other : keepProjectId ≠ some project.name
  due : settings.assetCacheMaxAge < seen.now - project.mtime ∨
    0 < settings.assetCacheMaxBytes ∧ settings.assetCacheMaxBytes < seen.left ∧
      seen.LeastRecent keepProjectId project

/-- No directory lists a name twice. -/
def listsOnce : (request : DiskCall) → DiskReply request → Prop
  | .scandir _, .ok entries => (entries.map DirEntry.name).Nodup
  | _, _ => True

def pruning (settings : Settings) (keepProjectId : Option String) :
    Machine DiskCall.Answer Raised Seen where
  admits seen request := ∀ path, removal request = some path → ∃ project,
    seen.Evictable settings keepProjectId project ∧ root settings ++ [project.name] <+: path
  step seen request reply after := after = seen.note (root settings) request reply ∧
    listsOnce request reply

theorem project_of_below (base rest : Path) (name : String) :
    projectOf base (base ++ name :: rest) = some name := by
  simp [projectOf]

theorem name_in_child (base : Path) (name : String) : nameIn base (base ++ [name]) = some name := by
  simp [nameIn]

theorem of_name_in {base path : Path} {name : String} (named : nameIn base path = some name) :
    path = base ++ [name] := by
  rw [nameIn, Option.ite_none_right_eq_some] at named
  rw [← named.1, List.dropLast_append_getLast? name named.2]

theorem below_is_not_base {base path : Path} {name : String} (under : base ++ [name] <+: path) :
    path ≠ base := by
  rintro rfl
  have longer := under.length_le
  simp at longer

theorem name_in_below {base path : Path} {name : String} (under : base ++ [name] <+: path)
    (deeper : path ≠ base ++ [name]) : nameIn base path = none := by
  cases listed : nameIn base path with
  | none => rfl
  | some other =>
      have spelled := of_name_in listed
      rw [spelled] at under deeper
      exact absurd (under.eq_of_length (by simp)).symm deeper

section Calls

variable {settings : Settings} {keepProjectId : Option String} {seen : Seen}

theorem ignoring_keeps {post : Seen → Prop} {program : DiskProgram Unit}
    (holds : Guarantees (pruning settings keepProjectId) (fun after _ => post after) seen program) :
    Guarantees (pruning settings keepProjectId) (fun after _ => post after) seen
      (ignoringOSError program) := by
  apply guarantees_seq _ _ _ holds
  rintro after (raised | value) kept
  · rw [on_failure_error]
    split <;> exact kept
  · exact kept

theorem not_link_free (path : Path) :
    Guarantees (pruning settings keepProjectId) (fun after _ => after = seen) seen
      ((! ·) <$> diskCall (.isLink path)) := by
  refine ⟨nofun, ?_⟩
  rintro (raised | link) after ⟨rfl, -⟩ <;> rfl

theorem select_free (test : String → Path) (names : List String) :
    Guarantees (pruning settings keepProjectId) (fun after _ => after = seen) seen
      (select (fun name => (! ·) <$> diskCall (.isLink (test name))) names) := by
  induction names with
  | nil => rfl
  | cons name rest induction =>
      unfold select
      rw [bind_is_and_then]
      apply guarantees_seq _ _ _ (not_link_free _)
      rintro _ (raised | keep) rfl
      · rfl
      · rw [on_value_ok, bind_is_and_then]
        apply guarantees_seq _ _ _ induction
        rintro _ (raised | later) rfl <;> rfl

/-- What is removed on the way is of the project, and the account stays. -/
theorem clear_dir_keeps {project : DirEntry}
    (evictable : seen.Evictable settings keepProjectId project) (depth : Nat) :
    Guarantees (pruning settings keepProjectId) (fun after _ => after = seen) seen
      (clearDir depth (root settings ++ [project.name])) := by
  apply guarantees_of_makes_only _ _ (clear_dir_inside depth (List.prefix_refl _))
  · intro request calls path taken
    refine ⟨project, evictable, ?_⟩
    cases request with
    | remove other | rmdir other =>
        cases taken
        exact calls.1
    | _ => cases calls <;> cases taken
  · rintro request reply after calls ⟨rfl, -⟩
    cases request
    case scandir path =>
        cases reply with
        | error raised => rfl
        | ok entries => rw [Seen.note, if_neg (below_is_not_base calls)]
    case remove path => rfl
    case rmdir path => simp [Seen.note, name_in_below calls.1 calls.2]
    all_goals cases calls

def Seen.clear (seen : Seen) (name : String) : Seen :=
  { seen with cleared := seen.cleared ++ [name] }

theorem rmtree_keeps {project : DirEntry}
    (evictable : seen.Evictable settings keepProjectId project) (depth : Nat) :
    Guarantees (pruning settings keepProjectId)
      (fun after outcome => outcome = .ok () → after = seen.clear project.name) seen
      (rmtree depth (root settings ++ [project.name])) := by
  have cleared : Guarantees (pruning settings keepProjectId)
      (fun after _ => after = seen.clear project.name) seen
      (ignoringOSError (diskCall (.rmdir (root settings ++ [project.name])))) := by
    apply ignoring_keeps
    refine ⟨?_, ?_⟩
    · rintro _ ⟨⟩
      exact ⟨project, evictable, List.prefix_refl _⟩
    · rintro reply after ⟨rfl, -⟩
      simp [Seen.note, name_in_child, Seen.clear]
  unfold rmtree
  rw [bind_is_and_then]
  apply guarantees_seq _ _ _ (clear_dir_keeps evictable depth)
  rintro middle (raised | value) same
  · nofun
  · rw [same]
    exact guarantees_mono _ _ (fun _ _ same _ => same) cleared

/-! ## The sizes -/

/-- The account once the sizes of some files of a project have come in. -/
def Seen.measure (seen : Seen) (name : String) (sizes : List Nat) : Seen :=
  { seen with measured := seen.measured ++ sizes.map (name, ·) }

theorem measure_none (name : String) : seen.measure name [] = seen := by
  simp [Seen.measure]

theorem measure_again (name : String) (sizes more : List Nat) :
    (seen.measure name sizes).measure name more = seen.measure name (sizes ++ more) := by
  simp [Seen.measure]

/-- A number that has grown by the sizes that have come in. -/
def Grown (seen : Seen) (name : String) (total : Nat) (after : Seen) (grown : Nat) : Prop :=
  ∃ sizes, after = seen.measure name sizes ∧ grown = total + sizes.sum

theorem grown_refl (name : String) (total : Nat) : Grown seen name total seen total :=
  ⟨[], (measure_none name).symm, rfl⟩

theorem grown_trans {name : String} {total middle last : Nat} {between after : Seen}
    (first : Grown seen name total between middle) (second : Grown between name middle after last) :
    Grown seen name total after last := by
  obtain ⟨sizes, rfl, rfl⟩ := first
  obtain ⟨more, rfl, rfl⟩ := second
  exact ⟨sizes ++ more, measure_again name sizes more, by rw [List.sum_append, Nat.add_assoc]⟩

abbrev Measures (settings : Settings) (keepProjectId : Option String) (seen : Seen) (name : String)
    (total : Nat) (program : DiskProgram Nat) : Prop :=
  Guarantees (pruning settings keepProjectId)
    (fun after outcome => ∀ grown, outcome = .ok grown → Grown seen name total after grown) seen
    program

theorem files_size_measures {name : String} {rest : Path} (total : Nat) (entry : DirEntry) :
    Measures settings keepProjectId seen name total
      (filesSize (root settings ++ name :: rest) total entry) := by
  refine ⟨nofun, ?_⟩
  rintro (raised | size) after ⟨rfl, -⟩
  · simp only [done_and_then, on_value_error, on_failure_error]
    split
    · rintro _ ⟨⟩
      exact grown_refl name total
    · nofun
  · rintro _ ⟨⟩
    refine ⟨[size], ?_, by simp⟩
    rw [Seen.note, List.append_assoc, List.cons_append, project_of_below]
    rfl

theorem measures_fold {Element : Type} (name : String)
    (body : Nat → Element → DiskProgram Nat) (elements : List Element)
    (each : ∀ between total, ∀ element ∈ elements,
      Measures settings keepProjectId between name total (body total element))
    (total : Nat) :
    Measures settings keepProjectId seen name total (elements.foldlM body total) := by
  apply guarantees_fold (fun after grown => Grown seen name total after grown) _ _ _ _ _
    (grown_refl name total)
  intro between middle element member grown
  apply guarantees_mono _ _ _ (each between middle element member)
  intro after outcome more last same
  exact grown_trans grown (more last same)

theorem dir_size_measures {name : String} (depth : Nat) (rest : Path) (total : Nat) :
    Measures settings keepProjectId seen name total
      (dirSize depth (root settings ++ name :: rest) total) := by
  induction depth generalizing rest total seen with
  | zero =>
      rintro _ ⟨⟩
      exact grown_refl name total
  | succ depth induction =>
      have under : root settings ++ [name] <+: root settings ++ name :: rest :=
        ⟨rest, by simp⟩
      refine ⟨nofun, ?_⟩
      rintro (raised | entries) after ⟨rfl, -⟩
      · simp only [done_and_then]
        split
        · rintro _ ⟨⟩
          exact grown_refl name total
        · nofun
      · rw [Seen.note, if_neg (below_is_not_base under)]
        simp only [done_and_then, bind_is_and_then]
        apply guarantees_seq _ _ _
          (measures_fold name _ _ (fun between total entry _ => files_size_measures total entry) total)
        rintro between (raised | middle) grown
        · nofun
        · rw [on_value_ok]
          apply guarantees_seq _ _ _ (select_free _ _)
          rintro same (raised | walked) rfl
          · nofun
          · apply guarantees_mono _ _ _ (measures_fold name _ _ ?_ middle)
            · intro after outcome more last ended
              exact grown_trans (grown middle rfl) (more last ended)
            · intro between total d _
              rw [List.append_assoc, List.cons_append]
              exact induction (rest ++ [d]) total

/-! ## The projects a prune has listed -/

/-- The projects a prune still has before it, and the one it is to keep. -/
structure Seen.Standing (keepProjectId : Option String) (seen : Seen) (projects : List DirEntry) :
    Prop where
  listed : ∀ project ∈ projects, project ∈ seen.listed
  real : ∀ project ∈ projects, project.isRealDir = true
  other : ∀ project ∈ projects, keepProjectId ≠ some project.name
  distinct : (projects.map DirEntry.name).Nodup
  uncleared : ∀ project ∈ projects, project.name ∉ seen.cleared
  kept : ∀ name, keepProjectId = some name → name ∉ seen.cleared
  accounted : ∀ project ∈ seen.listed, project.isRealDir = true →
    keepProjectId ≠ some project.name → project ∈ projects ∨ project.name ∈ seen.cleared

theorem standing_perm {projects others : List DirEntry} (perm : projects.Perm others)
    (standing : seen.Standing keepProjectId projects) : seen.Standing keepProjectId others where
  listed project member := standing.listed project (perm.mem_iff.mpr member)
  real project member := standing.real project (perm.mem_iff.mpr member)
  other project member := standing.other project (perm.mem_iff.mpr member)
  distinct := (perm.map _).nodup_iff.mp standing.distinct
  uncleared project member := standing.uncleared project (perm.mem_iff.mpr member)
  kept := standing.kept
  accounted project listed real other :=
    (standing.accounted project listed real other).imp_left perm.mem_iff.mp

theorem standing_measured {projects : List DirEntry} {measured : List (String × Nat)}
    (standing : seen.Standing keepProjectId projects) :
    ({ seen with measured } : Seen).Standing keepProjectId projects :=
  ⟨standing.listed, standing.real, standing.other, standing.distinct, standing.uncleared,
    standing.kept, standing.accounted⟩

theorem listing_standing {now : Int} {entries : List DirEntry}
    (once : (entries.map DirEntry.name).Nodup) :
    ({ now, listed := entries } : Seen).Standing keepProjectId ([] ++
      entries.filter fun entry => keepProjectId != some entry.name && entry.isRealDir) := by
  have passed : ∀ project ∈ entries.filter fun entry =>
      keepProjectId != some entry.name && entry.isRealDir,
      project ∈ entries ∧ keepProjectId ≠ some project.name ∧ project.isRealDir = true := by
    intro project member
    simpa using member
  constructor
  · exact fun project member => (passed project member).1
  · exact fun project member => (passed project member).2.2
  · exact fun project member => (passed project member).2.1
  · exact once.sublist (List.filter_sublist.map _)
  · exact fun project member => List.not_mem_nil
  · exact fun name keep => List.not_mem_nil
  · intro project listed real other
    refine .inl (List.mem_filter.mpr ⟨listed, ?_⟩)
    simpa [real] using other

theorem standing_clear {before after : List DirEntry} {project : DirEntry}
    (standing : seen.Standing keepProjectId (before ++ project :: after)) :
    (seen.clear project.name).Standing keepProjectId (before ++ after) := by
  have apart : ∀ other ∈ before ++ after, other.name ≠ project.name := by
    have distinct := standing.distinct
    rw [List.map_append, List.map_cons, List.nodup_middle, ← List.map_append,
      List.nodup_cons] at distinct
    intro other member same
    exact distinct.1 (same ▸ List.mem_map_of_mem member)
  have within : (before ++ after).Sublist (before ++ project :: after) :=
    (List.sublist_cons_self project after).append_left before
  constructor
  case listed => exact fun other member => standing.listed other (within.subset member)
  case real => exact fun other member => standing.real other (within.subset member)
  case other => exact fun other member => standing.other other (within.subset member)
  case distinct => exact standing.distinct.sublist (within.map _)
  case uncleared =>
    intro other member cleared
    rcases List.mem_append.mp cleared with before | this
    · exact standing.uncleared other (within.subset member) before
    · exact apart other member (List.mem_singleton.mp this)
  case kept =>
    intro name keep cleared
    rcases List.mem_append.mp cleared with before | this
    · exact standing.kept name keep before
    · rw [List.mem_singleton.mp this] at keep
      exact standing.other project (by simp) keep
  case accounted =>
    intro other listed real apart
    rcases standing.accounted other listed real apart with stands | gone
    · rcases List.mem_append.mp stands with before | after
      · exact .inl (List.mem_append_left _ before)
      · rcases List.mem_cons.mp after with rfl | after
        · exact .inr (List.mem_append_right _ (List.mem_singleton_self _))
        · exact .inl (List.mem_append_right _ after)
    · exact .inr (List.mem_append_left _ gone)

/-- The first loop: what is too old goes, the rest stays listed. -/
theorem evict_unused_keeps (depth : Nat) (projects live : List DirEntry)
    (standing : seen.Standing keepProjectId (live ++ projects)) (unmeasured : seen.measured = []) :
    Guarantees (pruning settings keepProjectId)
      (fun after outcome => ∀ last, outcome = .ok last →
        after.Standing keepProjectId last ∧ after.measured = []) seen
      (projects.foldlM (evictUnused settings depth seen.now) live) := by
  induction projects generalizing seen live with
  | nil =>
      rintro _ ⟨⟩
      rw [List.append_nil] at standing
      exact ⟨standing, unmeasured⟩
  | cons project rest induction =>
      rw [List.foldlM_cons, bind_is_and_then, evictUnused]
      split
      · rename_i old
        have evictable : seen.Evictable settings keepProjectId project :=
          ⟨standing.listed project (by simp), standing.real project (by simp),
            standing.other project (by simp), .inl old⟩
        rw [bind_is_and_then, and_then_assoc]
        apply guarantees_seq _ _ _ (rmtree_keeps evictable depth)
        rintro after (raised | value) cleared
        · nofun
        · rw [cleared rfl]
          exact induction live (standing_clear standing) unmeasured
      · apply induction (live ++ [project]) _ unmeasured
        rwa [List.append_assoc]

/-! ## Evicting until the rest fits -/

theorem size_of_append (measured more : List (String × Nat)) (name : String) :
    sizeOf (measured ++ more) name = sizeOf measured name + sizeOf more name := by
  simp [sizeOf]

theorem size_of_same (name : String) (sizes : List Nat) :
    sizeOf (sizes.map (name, ·)) name = sizes.sum := by
  simp [sizeOf, List.filter_map, Function.comp_def]

theorem size_of_other {measured : List (String × Nat)} {name : String}
    (apart : ∀ size ∈ measured, size.1 ≠ name) : sizeOf measured name = 0 := by
  rw [sizeOf, List.filter_eq_nil_iff.mpr]
  · rfl
  · simpa using apart

theorem sum_without (measured : List (String × Nat)) {cleared : List String} {name : String}
    (standing : name ∉ cleared) :
    ((measured.filter fun size => size.1 ∉ cleared).map (·.2)).sum =
      ((measured.filter fun size => size.1 ∉ cleared ++ [name]).map (·.2)).sum +
        sizeOf measured name := by
  unfold sizeOf
  induction measured with
  | nil => rfl
  | cons size rest induction =>
      by_cases this : size.1 = name
      · simp [this, standing] at induction ⊢
        omega
      · by_cases gone : size.1 ∈ cleared
        · simpa [this, gone] using induction
        · simp [this, gone] at induction ⊢
          omega

theorem left_clear {name : String} (standing : name ∉ seen.cleared) :
    seen.left = (seen.clear name).left + sizeOf seen.measured name :=
  sum_without seen.measured standing

theorem older_sorted (items : List (DirEntry × Nat)) :
    (items.mergeSort olderThan).Pairwise fun one other => olderThan one other = true := by
  apply List.pairwise_mergeSort
  · intro one other third first second
    simp only [olderThan, Bool.or_eq_true, Bool.and_eq_true, decide_eq_true_eq, beq_iff_eq] at *
    rcases first with less | ⟨same, least⟩ <;> rcases second with more | ⟨equal, most⟩
    · exact .inl (less.trans more)
    · exact .inl (by omega)
    · exact .inl (by omega)
    · exact .inr ⟨same.trans equal, String.le_trans least most⟩
  · intro one other
    simp only [olderThan, Bool.or_eq_true, Bool.and_eq_true, decide_eq_true_eq, beq_iff_eq]
    rcases lt_trichotomy one.1.mtime other.1.mtime with less | same | more
    · exact .inl (.inl less)
    · rcases String.le_total one.1.name other.1.name with least | most
      · exact .inl (.inr ⟨same, least⟩)
      · exact .inr (.inr ⟨same.symm, most⟩)
    · exact .inr (.inl more)

theorem evict_to_fit_done (depth : Nat) (sized : List (DirEntry × Nat)) (total : Int)
    (fits : total ≤ settings.assetCacheMaxBytes) :
    sized.foldlM (evictToFit settings depth) total = .done (.ok total) := by
  induction sized with
  | nil => rfl
  | cons project rest induction =>
      rw [List.foldlM_cons, evictToFit, if_pos fits]
      exact induction

theorem first_least_recent {project : DirEntry × Nat} {rest : List (DirEntry × Nat)}
    (standing : seen.Standing keepProjectId ((project :: rest).map Prod.fst))
    (sorted : (project :: rest).Pairwise fun one other => olderThan one other = true) :
    seen.LeastRecent keepProjectId project.1 := by
  intro older listed real other before
  rcases standing.accounted older listed real other with stands | gone
  · exfalso
    obtain ⟨item, member, rfl⟩ := List.mem_map.mp stands
    rcases List.mem_cons.mp member with rfl | later
    · rcases before with less | ⟨-, less⟩
      · exact lt_irrefl _ less
      · exact String.lt_irrefl _ less
    · have first := (List.pairwise_cons.mp sorted).1 item later
      rw [olderThan, Bool.or_eq_true, Bool.and_eq_true, decide_eq_true_eq, beq_iff_eq,
        decide_eq_true_eq] at first
      rcases before with less | ⟨same, less⟩
      · rcases first with more | ⟨equal, -⟩ <;> omega
      · rcases first with more | ⟨-, least⟩
        · omega
        · exact String.not_le.mpr less least
  · exact gone

/-- The second loop: what is evicted did not fit with all that was left, and
everything used before it has been evicted. -/
theorem evict_to_fit_keeps (depth : Nat) (limited : 0 < settings.assetCacheMaxBytes)
    (sized : List (DirEntry × Nat)) (total : Int) (exact : total = seen.left)
    (standing : seen.Standing keepProjectId (sized.map Prod.fst))
    (sizes : ∀ project ∈ sized, project.2 = sizeOf seen.measured project.1.name)
    (sorted : sized.Pairwise fun one other => olderThan one other = true) :
    Guarantees (pruning settings keepProjectId) (fun _ _ => True) seen
      (sized.foldlM (evictToFit settings depth) total) := by
  induction sized generalizing seen total with
  | nil => trivial
  | cons project rest induction =>
      have later : ∀ other ∈ rest, other.2 = sizeOf seen.measured other.1.name :=
        fun other member => sizes other (List.mem_cons_of_mem _ member)
      by_cases fits : total ≤ settings.assetCacheMaxBytes
      · rw [evict_to_fit_done depth _ total fits]
        trivial
      · rw [List.foldlM_cons, bind_is_and_then, evictToFit, if_neg fits]
        have evictable : seen.Evictable settings keepProjectId project.1 :=
          ⟨standing.listed project.1 (by simp), standing.real project.1 (by simp),
            standing.other project.1 (by simp), .inr ⟨limited, by omega,
              first_least_recent standing sorted⟩⟩
        rw [bind_is_and_then, and_then_assoc]
        apply guarantees_seq _ _ _ (rmtree_keeps evictable depth)
        rintro after (raised | value) cleared
        · trivial
        · rw [cleared rfl]
          have less := left_clear (standing.uncleared project.1 (by simp))
          have size := sizes project List.mem_cons_self
          have smaller : total - project.2 = (seen.clear project.1.name).left := by omega
          exact induction _ smaller (@standing_clear _ _ [] _ _ standing) later
            (List.pairwise_cons.mp sorted).2

/-! ## The whole prune -/

/-- What the sizes of some projects add to the account. -/
structure Sized (live : List DirEntry) (sized : List (DirEntry × Nat))
    (more : List (String × Nat)) : Prop where
  projects : sized.map Prod.fst = live
  sizes : ∀ project ∈ sized, project.2 = sizeOf more project.1.name
  total : (sized.map Prod.snd).sum = (more.map Prod.snd).sum
  named : ∀ size ∈ more, size.1 ∈ live.map DirEntry.name

theorem with_size_keeps (depth : Nat) (live : List DirEntry)
    (distinct : (live.map DirEntry.name).Nodup) :
    Guarantees (pruning settings keepProjectId)
      (fun after outcome => ∀ sized, outcome = .ok sized → ∃ more,
        after = { seen with measured := seen.measured ++ more } ∧ Sized live sized more) seen
      (live.mapM (withSize settings depth)) := by
  induction live generalizing seen with
  | nil =>
      rintro _ ⟨⟩
      exact ⟨[], by simp, rfl, by simp, rfl, by simp⟩
  | cons project rest induction =>
      rw [List.map_cons, List.nodup_cons] at distinct
      rw [List.mapM_cons, bind_is_and_then, withSize, bind_is_and_then, and_then_assoc]
      apply guarantees_seq _ _ _ (dir_size_measures depth [] 0)
      rintro middle (raised | size) measured
      · nofun
      · obtain ⟨sizes, rfl, rfl⟩ := measured size rfl
        rw [on_value_ok, pure_is_done, done_and_then, on_value_ok, bind_is_and_then]
        apply guarantees_seq _ _ _ (induction distinct.2)
        rintro after (raised | sized) added
        · nofun
        · obtain ⟨more, rfl, others⟩ := added sized rfl
          rintro _ ⟨⟩
          have unnamed : sizeOf more project.name = 0 := by
            apply size_of_other
            intro size member same
            exact distinct.1 (same ▸ others.named size member)
          refine ⟨sizes.map (project.name, ·) ++ more, ?_, ?_, ?_, ?_, ?_⟩
          · simp [Seen.measure]
          · rw [List.map_cons, others.projects]
          · rw [List.forall_mem_cons]
            constructor
            · rw [size_of_append, size_of_same, unnamed, Nat.zero_add, Nat.add_zero]
            · intro other member
              have apart : project.name ≠ other.1.name := by
                intro same
                apply distinct.1
                rw [same, ← others.projects, List.map_map]
                exact List.mem_map_of_mem member
              rw [size_of_append, size_of_other (by simpa using fun _ _ => apart), Nat.zero_add]
              exact others.sizes other member
          · rw [List.map_cons, List.sum_cons, others.total, List.map_append, List.sum_append,
              List.map_map]
            simp [Function.comp_def]
          · intro size member
            rcases List.mem_append.mp member with this | other
            · obtain ⟨n, -, rfl⟩ := List.mem_map.mp this
              exact List.mem_cons_self
            · exact List.mem_cons_of_mem _ (others.named size other)

theorem kept_size_keeps (depth : Nat) :
    Guarantees (pruning settings keepProjectId)
      (fun after outcome => ∀ kept, outcome = .ok kept → ∃ more : List (String × Nat),
        after = { seen with measured := seen.measured ++ more } ∧ kept = (more.map Prod.snd).sum ∧
          ∀ size ∈ more, keepProjectId = some size.1) seen
      (keptSize settings depth keepProjectId) := by
  unfold keptSize
  split
  · rename_i projectId named
    have keep : keepProjectId = some projectId := (Option.filter_eq_some_iff.mp named).1
    apply guarantees_mono _ _ _ (dir_size_measures depth [] 0)
    intro after outcome measured kept same
    obtain ⟨sizes, rfl, rfl⟩ := measured kept same
    refine ⟨sizes.map (projectId, ·), rfl, ?_, ?_⟩
    · simp [Function.comp_def]
    · intro size member
      obtain ⟨n, -, rfl⟩ := List.mem_map.mp member
      exact keep
  · rintro _ ⟨⟩
    exact ⟨[], by simp, rfl, by simp⟩

theorem left_all {projects : List DirEntry} {measured : List (String × Nat)}
    (standing : seen.Standing keepProjectId projects)
    (named : ∀ size ∈ measured, size.1 ∈ projects.map DirEntry.name ∨ keepProjectId = some size.1) :
    ({ seen with measured } : Seen).left = (measured.map Prod.snd).sum := by
  unfold Seen.left
  rw [List.filter_eq_self.mpr]
  intro size member
  rw [decide_eq_true_eq]
  rcases named size member with listed | keep
  · obtain ⟨project, inside, same⟩ := List.mem_map.mp listed
    rw [← same]
    exact standing.uncleared project inside
  · exact standing.kept size.1 keep

theorem prune_keeps (depth : Nat) :
    Guarantees (pruning settings keepProjectId) (fun _ _ => True) seen
      (prune settings depth keepProjectId) := by
  unfold prune
  refine ⟨nofun, ?_⟩
  rintro (raised | _ | _) after ⟨rfl, -⟩
  · trivial
  · trivial
  · refine ⟨nofun, ?_⟩
    rintro (raised | now) after ⟨rfl, -⟩
    · trivial
    · refine ⟨nofun, ?_⟩
      rintro (raised | entries) after ⟨rfl, once⟩
      · simp only [done_and_then]
        split <;> trivial
      · simp only [Seen.note, if_pos]
        simp only [done_and_then, bind_is_and_then]
        have standing := @listing_standing keepProjectId now entries once
        apply guarantees_seq _ _ _ (evict_unused_keeps depth _ [] standing rfl)
        rintro left (raised | live) evicted
        · trivial
        · obtain ⟨standing, unmeasured⟩ := evicted live rfl
          rw [on_value_ok]
          split
          · trivial
          · rename_i limited
            apply guarantees_seq _ _ _ (with_size_keeps depth live standing.distinct)
            rintro after (raised | sized) measured
            · trivial
            · obtain ⟨more, rfl, sizes⟩ := measured sized rfl
              rw [on_value_ok]
              apply guarantees_seq _ _ _ (kept_size_keeps depth)
              rintro after (raised | kept) measured
              · trivial
              · obtain ⟨rest, rfl, rfl, named⟩ := measured kept rfl
                rw [on_value_ok]
                have sorted := List.mergeSort_perm sized olderThan
                have unsized : ∀ project ∈ sized, sizeOf rest project.1.name = 0 := by
                  intro project member
                  apply size_of_other
                  intro size inside same
                  apply standing.other project.1
                  · rw [← sizes.projects]
                    exact List.mem_map_of_mem member
                  · rw [named size inside, same]
                apply guarantees_seq _ _ _ (evict_to_fit_keeps depth (by omega) _ _ ?_ ?_ ?_
                  (older_sorted sized))
                · rintro last (raised | value) - <;> trivial
                · rw [unmeasured, List.nil_append, left_all standing, sizes.total, List.map_append,
                    List.sum_append]
                  intro size member
                  rcases List.mem_append.mp member with listed | keep
                  · exact .inl (sizes.named size listed)
                  · exact .inr (named size keep)
                · have same : (sized.mergeSort olderThan).map Prod.fst |>.Perm live := by
                    rw [← sizes.projects]
                    exact sorted.map Prod.fst
                  exact @standing_measured _ left _ _ (standing_perm same.symm standing)
                · intro project member
                  have inside := sorted.mem_iff.mp member
                  rw [unmeasured, List.nil_append, size_of_append, unsized project inside,
                    Nat.add_zero]
                  exact sizes.sizes project inside

end Calls

end PretextBuildServer.EvictionRule
