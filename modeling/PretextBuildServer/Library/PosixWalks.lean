import Mathlib.Data.List.Induction
import PretextBuildServer.Library.PosixFiles

/-!
# The files a walk comes upon

A walk goes down the real directories of a tree, those it has a mind to enter,
and takes some of the files in them.
-/

namespace PosixDisk

set_option autoImplicit false

/-- The file under a name in a directory of the tree, if it is to be taken. -/
def Disk.taken (disk : Disk) (top : Place) (takes : Names → String → Bool) (parts : Names)
    (name : String) : Option (Names × Bytes) :=
  if takes parts name then (disk.fileAt (top ++ parts ++ [name])).map fun bytes => (parts ++ [name], bytes)
  else none

/-- The names of the real directories in a directory that are to be entered. -/
def Disk.entered (disk : Disk) (enters : String → Bool) (dir : Place) : List String :=
  (disk.names dir).filter fun name => enters name && disk.find (dir ++ [name]) = some .directory

/-- The files from one directory on, by their names from the top of the tree. -/
def Disk.walked (disk : Disk) (top : Place) (takes : Names → String → Bool)
    (enters : String → Bool) :
    Nat → Names → List (Names × Bytes)
  | 0, _ => []
  | depth + 1, parts =>
      (disk.names (top ++ parts)).filterMap (disk.taken top takes parts) ++
        (disk.entered enters (top ++ parts)).flatMap fun name =>
          disk.walked top takes enters depth (parts ++ [name])

section Walks

variable {disk : Disk} {top : Place} {takes : Names → String → Bool} {enters : String → Bool}
  {parts : Names}

theorem mem_taken {name : String} {file : Names × Bytes} :
    file ∈ disk.taken top takes parts name ↔
      file.1 = parts ++ [name] ∧ takes parts name = true ∧
        disk.find (top ++ file.1) = some (.file file.2) := by
  obtain ⟨path, bytes⟩ := file
  unfold Disk.taken
  by_cases wanted : takes parts name = true
  · simp only [if_pos wanted, Option.mem_def, Option.map_eq_some_iff, Prod.mk.injEq]
    constructor
    · rintro ⟨content, there, rfl, rfl⟩
      refine ⟨rfl, wanted, ?_⟩
      rw [← List.append_assoc]
      exact file_at_some.mp there
    · rintro ⟨rfl, -, found⟩
      refine ⟨bytes, ?_, rfl, rfl⟩
      rw [file_at_some, List.append_assoc]
      exact found
  · rw [if_neg wanted]
    constructor
    · rintro ⟨⟩
    · rintro ⟨-, taken, -⟩
      exact absurd taken wanted

theorem mem_entered {dir : Place} {name : String} :
    name ∈ disk.entered enters dir ↔ enters name = true ∧
      disk.find (dir ++ [name]) = some .directory := by
  rw [Disk.entered, List.mem_filter, mem_names, Bool.and_eq_true, decide_eq_true_eq,
    and_iff_right_of_imp]
  rintro ⟨-, found⟩
  rw [found]
  rfl

/-- The walk comes upon the files it is to take, down to its depth. -/
theorem mem_walked (depth : Nat) {file : Names × Bytes} :
    file ∈ disk.walked top takes enters depth parts ↔
      ∃ dirs name, dirs.length < depth ∧ (∀ dir ∈ dirs, enters dir = true) ∧
        file.1 = parts ++ dirs ++ [name] ∧ takes (parts ++ dirs) name = true ∧
        disk.find (top ++ file.1) = some (.file file.2) := by
  induction depth generalizing parts with
  | zero =>
      rw [Disk.walked]
      constructor
      · intro member
        cases member
      · rintro ⟨dirs, name, short, -⟩
        exact absurd short (Nat.not_lt_zero _)
  | succ depth induction =>
      rw [Disk.walked, List.mem_append, List.mem_filterMap, List.mem_flatMap]
      constructor
      · rintro (⟨name, -, here⟩ | ⟨dir, inside, below⟩)
        · obtain ⟨same, wanted, found⟩ := mem_taken.mp here
          exact ⟨[], name, Nat.succ_pos _, by simp, by simpa using same, by simpa using wanted, found⟩
        · obtain ⟨dirs, name, short, enterable, same, wanted, found⟩ := induction.mp below
          refine ⟨dir :: dirs, name, by simpa using short, ?_, by simpa using same,
            by simpa using wanted, found⟩
          exact List.forall_mem_cons.mpr ⟨(mem_entered.mp inside).1, enterable⟩
      · rintro ⟨dirs, name, short, enterable, same, wanted, found⟩
        cases dirs with
        | nil =>
            rw [List.append_nil] at same wanted
            left
            refine ⟨name, ?_, mem_taken.mpr ⟨same, wanted, found⟩⟩
            rw [mem_names, List.append_assoc, ← same, found]
            rfl
        | cons dir dirs =>
            obtain ⟨enterable, others⟩ := List.forall_mem_cons.mp enterable
            right
            have inside : disk.find (top ++ parts ++ [dir]) = some .directory := by
              apply @ancestor_is_directory _ _ (dirs ++ [name]) (.file file.2) (by simp)
              rw [← found, same]
              simp
            refine ⟨dir, mem_entered.mpr ⟨enterable, inside⟩, ?_⟩
            rw [induction]
            exact ⟨dirs, name, by simpa using short, others, by simpa using same,
              by simpa using wanted, found⟩

theorem walked_nodup (depth : Nat) :
    ((disk.walked top takes enters depth parts).map Prod.fst).Nodup := by
  induction depth generalizing parts with
  | zero => exact List.nodup_nil
  | succ depth induction =>
      have below : ∀ {name : String} {path : Names},
          path ∈ (disk.walked top takes enters depth (parts ++ [name])).map Prod.fst →
          ∃ more, more ≠ [] ∧ path = parts ++ name :: more := by
        intro name path member
        obtain ⟨file, inside, rfl⟩ := List.mem_map.mp member
        obtain ⟨dirs, last, -, -, same, -⟩ := (mem_walked depth).mp inside
        exact ⟨dirs ++ [last], by simp, by simp [same]⟩
      have here : ∀ {path : Names}, path ∈ ((disk.names (top ++ parts)).filterMap
          (disk.taken top takes parts)).map Prod.fst → ∃ name, path = parts ++ [name] := by
        intro path member
        obtain ⟨file, inside, rfl⟩ := List.mem_map.mp member
        obtain ⟨name, -, found⟩ := List.mem_filterMap.mp inside
        exact ⟨name, (mem_taken.mp found).1⟩
      rw [Disk.walked, List.map_append, List.nodup_append, List.map_flatMap, List.nodup_flatMap]
      refine ⟨?_, ⟨fun name _ => induction, ?_⟩, ?_⟩
      · rw [List.map_filterMap]
        apply List.Nodup.filterMap _ (names_nodup _)
        intro first second path one two
        obtain ⟨file, inside, rfl⟩ := Option.map_eq_some_iff.mp one
        obtain ⟨other, found, same⟩ := Option.map_eq_some_iff.mp two
        have left := (mem_taken.mp inside).1
        rw [← same, (mem_taken.mp found).1] at left
        simpa using left.symm
      · apply List.Pairwise.imp _ ((names_nodup (top ++ parts)).filter _)
        intro first second apart path one two
        obtain ⟨more, -, same⟩ := below one
        obtain ⟨other, -, equal⟩ := below two
        rw [same] at equal
        simp only [List.append_cancel_left_eq, List.cons.injEq] at equal
        exact apart equal.1
      · rintro path inside other member rfl
        obtain ⟨name, same⟩ := here inside
        obtain ⟨first, -, deeper⟩ := List.mem_flatMap.mp member
        obtain ⟨more, some, equal⟩ := below deeper
        rw [same] at equal
        simp only [List.append_cancel_left_eq, List.cons.injEq] at equal
        exact some equal.2.symm

/-- A file of the tree that is to be taken, below directories that are to be entered. -/
structure Disk.Offers (disk : Disk) (top : Place) (takes : Names → String → Bool)
    (enters : String → Bool) (path : Names) : Prop where
  split : ∃ dirs name, path = dirs ++ [name] ∧ (∀ dir ∈ dirs, enters dir = true) ∧
    takes dirs name = true
  file : ∃ bytes, disk.find (top ++ path) = some (.file bytes)

/-- What follows in the listings of the tree stands in a relation, if it is offered. -/
structure Disk.InStep (disk : Disk) (top : Place) (takes : Names → String → Bool)
    (enters : String → Bool) (related : Names → Names → Prop) : Prop where
  files : ∀ dir, (disk.names (top ++ dir)).Pairwise fun name other =>
    disk.Offers top takes enters (dir ++ [name]) → disk.Offers top takes enters (dir ++ [other]) →
      related (dir ++ [name]) (dir ++ [other])
  dirs : ∀ dir, (disk.names (top ++ dir)).Pairwise fun name other => ∀ rest more, rest ≠ [] → more ≠ [] →
    disk.Offers top takes enters (dir ++ name :: rest) →
      disk.Offers top takes enters (dir ++ other :: more) →
      related (dir ++ name :: rest) (dir ++ other :: more)
  mixed : ∀ dir name other more, more ≠ [] → disk.Offers top takes enters (dir ++ [name]) →
    disk.Offers top takes enters (dir ++ other :: more) → related (dir ++ [name]) (dir ++ other :: more)

theorem offered_walked (entered : ∀ part ∈ parts, enters part = true) (depth : Nat) {path : Names} :
    path ∈ (disk.walked top takes enters depth parts).map Prod.fst ↔
      ∃ more, more ≠ [] ∧ more.length ≤ depth ∧ path = parts ++ more ∧
        disk.Offers top takes enters path := by
  rw [List.mem_map]
  constructor
  · rintro ⟨file, member, rfl⟩
    obtain ⟨dirs, name, short, enterable, same, wanted, found⟩ := (mem_walked depth).mp member
    refine ⟨dirs ++ [name], by simp, ?_, by rw [same, List.append_assoc], ?_, file.2, found⟩
    · rw [List.length_append, List.length_singleton]
      exact short
    · exact ⟨parts ++ dirs, name, same, List.forall_mem_append.mpr ⟨entered, enterable⟩, wanted⟩
  · rintro ⟨more, some, short, rfl, ⟨⟨dirs, name, same, enterable, wanted⟩, bytes, found⟩⟩
    refine ⟨(parts ++ more, bytes), (mem_walked depth).mpr ?_, rfl⟩
    cases more using List.reverseRecOn with
    | nil => exact absurd rfl some
    | append_singleton more last =>
        rw [← List.append_assoc] at same
        obtain ⟨rfl, final⟩ := List.append_inj' same rfl
        rw [List.length_append, List.length_singleton] at short
        refine ⟨more, last, short, ?_, (List.append_assoc ..).symm, ?_, found⟩
        · exact fun dir member => enterable dir (List.mem_append_right _ member)
        · rwa [List.singleton_inj.mp final]

/-- Where every listing is in step, so is the walk. -/
theorem walked_in_step {related : Names → Names → Prop}
    (inStep : disk.InStep top takes enters related)
    (depth : Nat) (entered : ∀ part ∈ parts, enters part = true) :
    ((disk.walked top takes enters depth parts).map Prod.fst).Pairwise related := by
  induction depth generalizing parts with
  | zero => exact List.Pairwise.nil
  | succ depth induction =>
      have here : ∀ name path, path ∈ (disk.taken top takes parts name).map Prod.fst →
          path = parts ++ [name] ∧ disk.Offers top takes enters path := by
        intro name path member
        obtain ⟨file, inside, rfl⟩ := Option.map_eq_some_iff.mp member
        obtain ⟨same, wanted, found⟩ := mem_taken.mp inside
        exact ⟨same, ⟨parts, name, same, entered, wanted⟩, file.2, found⟩
      have deeper : ∀ name ∈ disk.entered enters (top ++ parts),
          ∀ part ∈ parts ++ [name], enters part = true := by
        intro name inside
        exact List.forall_mem_append.mpr
          ⟨entered, List.forall_mem_singleton.mpr (mem_entered.mp inside).1⟩
      have below : ∀ name ∈ disk.entered enters (top ++ parts),
          ∀ path ∈ (disk.walked top takes enters depth (parts ++ [name])).map Prod.fst,
          ∃ rest, rest ≠ [] ∧ path = parts ++ name :: rest ∧ disk.Offers top takes enters path := by
        intro name inside path member
        obtain ⟨rest, some, -, same, offered⟩ := (offered_walked (deeper name inside) depth).mp member
        exact ⟨rest, some, by simpa using same, offered⟩
      rw [Disk.walked, List.map_append, List.map_flatMap, List.map_filterMap, List.pairwise_append,
        List.pairwise_filterMap, List.pairwise_flatMap]
      refine ⟨?_, ⟨fun name inside => induction (deeper name inside), ?_⟩, ?_⟩
      · apply (inStep.files parts).imp
        intro name other ordered path one more two
        obtain ⟨rfl, offered⟩ := here name path one
        obtain ⟨rfl, offeredToo⟩ := here other more two
        exact ordered offered offeredToo
      · apply ((inStep.dirs parts).filter _).imp_of_mem
        intro name other inside insideToo ordered path one more two
        obtain ⟨rest, some, rfl, offered⟩ := below name inside path one
        obtain ⟨rest, someToo, rfl, offeredToo⟩ := below other insideToo more two
        exact ordered _ _ some someToo offered offeredToo
      · intro path one more two
        obtain ⟨name, -, taken⟩ := List.mem_filterMap.mp one
        obtain ⟨rfl, offered⟩ := here name path taken
        obtain ⟨other, inside, member⟩ := List.mem_flatMap.mp two
        obtain ⟨rest, some, rfl, offeredToo⟩ := below other inside more member
        exact inStep.mixed parts name other rest some offered offeredToo

theorem offered_way {dir rest : Names} (some : rest ≠ [])
    (offered : disk.Offers top takes enters (dir ++ rest)) :
    disk.find (top ++ dir) = .some .directory ∧ ∀ part ∈ dir, enters part = true := by
  obtain ⟨⟨dirs, name, same, enterable, -⟩, bytes, found⟩ := offered
  constructor
  · apply ancestor_is_directory some
    rw [List.append_assoc]
    exact found
  · intro part member
    cases rest using List.reverseRecOn with
    | nil => exact absurd rfl some
    | append_singleton rest last =>
        rw [← List.append_assoc] at same
        obtain ⟨rfl, -⟩ := List.append_inj' same rfl
        exact enterable part (List.mem_append_left _ member)

theorem walked_sublist (depth : Nat) {more : Names} (entered : ∀ part ∈ more, enters part = true)
    (standing : disk.find (top ++ (parts ++ more)) = some .directory) :
    (disk.walked top takes enters depth (parts ++ more)).Sublist
      (disk.walked top takes enters (depth + more.length) parts) := by
  induction more generalizing parts with
  | nil =>
      rw [List.append_nil]
      exact List.Sublist.refl _
  | cons name more induction =>
      obtain ⟨enterable, others⟩ := List.forall_mem_cons.mp entered
      have spelled : parts ++ name :: more = parts ++ [name] ++ more := by simp
      have inside : name ∈ disk.entered enters (top ++ parts) := by
        refine mem_entered.mpr ⟨enterable, ?_⟩
        by_cases last : more = []
        · rw [last, ← List.append_assoc] at standing
          exact standing
        · apply ancestor_is_directory last
          rw [← standing]
          simp
      rw [spelled] at standing ⊢
      refine (induction others standing).trans ?_
      rw [List.length_cons, ← Nat.add_assoc, Disk.walked]
      refine List.Sublist.trans ?_ (List.sublist_append_right _ _)
      rw [List.flatMap_def]
      exact List.sublist_flatten_of_mem (List.mem_map_of_mem inside)

/-- A walk that is in step all the way down shows that every listing is. -/
theorem in_step_of_walked {related : Names → Names → Prop} {high : Nat}
    (walks : ∀ depth, high ≤ depth →
      ((disk.walked top takes enters depth []).map Prod.fst).Pairwise related) :
    disk.InStep top takes enters related := by
  have here : ∀ dir, (∃ rest, rest ≠ [] ∧ disk.Offers top takes enters (dir ++ rest)) →
      ((disk.walked top takes enters (high + disk.height + 1) dir).map Prod.fst).Pairwise related := by
    rintro dir ⟨rest, some, offered⟩
    obtain ⟨standing, entered⟩ := offered_way some offered
    have whole := walks (high + disk.height + 1 + dir.length) (by omega)
    exact whole.sublist ((@walked_sublist _ _ _ _ [] _ dir entered standing).map Prod.fst)
  have taken : ∀ dir name, disk.Offers top takes enters (dir ++ [name]) →
      dir ++ [name] ∈ (disk.taken top takes dir name).map Prod.fst := by
    rintro dir name ⟨⟨dirs, last, same, -, wanted⟩, bytes, found⟩
    obtain ⟨rfl, final⟩ := List.append_inj' same rfl
    rw [← List.singleton_inj.mp final] at wanted
    exact Option.mem_map_of_mem Prod.fst
      ((@mem_taken _ _ _ _ _ (dir ++ [name], bytes)).mpr ⟨rfl, wanted, found⟩)
  have below : ∀ dir name rest, rest ≠ [] → disk.Offers top takes enters (dir ++ name :: rest) →
      name ∈ disk.entered enters (top ++ dir) ∧
        dir ++ name :: rest ∈
          (disk.walked top takes enters (high + disk.height) (dir ++ [name])).map Prod.fst := by
    intro dir name rest some offered
    have spelled : dir ++ name :: rest = dir ++ [name] ++ rest := by simp
    rw [spelled] at offered ⊢
    obtain ⟨standing, entered⟩ := offered_way some offered
    obtain ⟨bytes, found⟩ := offered.file
    have bounded := length_le_height (by rw [found]; rfl)
    simp only [List.length_append, List.length_singleton] at bounded
    refine ⟨mem_entered.mpr ⟨entered name (by simp), by rw [List.append_assoc, standing]⟩, ?_⟩
    exact (offered_walked entered _).mpr ⟨rest, some, by omega, rfl, offered⟩
  constructor
  · intro dir
    by_cases reached : ∃ rest, rest ≠ [] ∧ disk.Offers top takes enters (dir ++ rest)
    · have ordered := here dir reached
      rw [Disk.walked, List.map_append, List.map_filterMap, List.pairwise_append,
        List.pairwise_filterMap] at ordered
      apply ordered.1.imp
      intro name other related offered offeredToo
      exact related _ (taken dir name offered) _ (taken dir other offeredToo)
    · apply List.pairwise_of_forall
      intro name other offered
      exact absurd ⟨[name], by simp, offered⟩ reached
  · intro dir
    by_cases reached : ∃ rest, rest ≠ [] ∧ disk.Offers top takes enters (dir ++ rest)
    · have ordered := here dir reached
      rw [Disk.walked, List.map_append, List.map_flatMap, List.pairwise_append, List.pairwise_flatMap]
        at ordered
      have listed := ordered.2.1.2
      rw [Disk.entered, List.pairwise_filter] at listed
      apply listed.imp
      intro name other related rest more some someToo offered offeredToo
      obtain ⟨inside, member⟩ := below dir name rest some offered
      obtain ⟨insideToo, memberToo⟩ := below dir other more someToo offeredToo
      exact related (List.mem_filter.mp inside).2 (List.mem_filter.mp insideToo).2 _ member _ memberToo
    · apply List.pairwise_of_forall
      intro name other rest more _ _ offered
      exact absurd ⟨name :: rest, by simp, offered⟩ reached
  · intro dir name other more some offered offeredToo
    have ordered := here dir ⟨[name], by simp, offered⟩
    rw [Disk.walked, List.map_append, List.map_flatMap, List.map_filterMap, List.pairwise_append]
      at ordered
    obtain ⟨inside, member⟩ := below dir other more some offeredToo
    obtain ⟨bytes, found⟩ := offered.file
    apply ordered.2.2
    · refine List.mem_filterMap.mpr ⟨name, mem_names.mpr ?_, taken dir name offered⟩
      rw [List.append_assoc, found]
      rfl
    · exact List.mem_flatMap.mpr ⟨other, inside, member⟩

theorem walked_same {later : Disk} (found : ∀ rest, later.find (top ++ rest) = disk.find (top ++ rest))
    (listed : ∀ rest, later.names (top ++ rest) = disk.names (top ++ rest)) (depth : Nat) :
    later.walked top takes enters depth parts = disk.walked top takes enters depth parts := by
  induction depth generalizing parts with
  | zero => rfl
  | succ depth induction =>
      have taken : later.taken top takes parts = disk.taken top takes parts := by
        funext name
        rw [Disk.taken, Disk.taken, Disk.fileAt, Disk.fileAt, List.append_assoc, found]
      have entered : later.entered enters (top ++ parts) = disk.entered enters (top ++ parts) := by
        rw [Disk.entered, Disk.entered, listed]
        apply List.filter_congr
        intro name _
        rw [List.append_assoc, found]
      rw [Disk.walked, Disk.walked, listed, taken, entered, funext fun name => induction]

end Walks

end PosixDisk
