import Mathlib.Algebra.BigOperators.Group.List.Basic
import Mathlib.Algebra.GroupWithZero.Nat
import Mathlib.Data.List.Infix
import PretextBuildServer.Library.PosixUnlinked

/-!
# Taking trees off a disk

A tree is taken away bottom up, and what goes must not be what the path to it
leads through. What a tree weighs is the sum over all that stands below a place.
-/

namespace PosixDisk

set_option autoImplicit false

/-- The other place is deeper down. -/
def Below (place other : Place) : Prop := place <+: other ∧ other ≠ place

instance (place other : Place) : Decidable (Below place other) :=
  inferInstanceAs (Decidable (place <+: other ∧ other ≠ place))

/-- On the later disk all that stood at certain places is gone, and the rest is
as it was. -/
structure Disk.Without (disk : Disk) (gone : Place → Prop) (later : Disk) : Prop where
  removed : ∀ place, gone place → later.find place = none
  kept : ∀ place, ¬ gone place → later.find place = disk.find place

section Places

variable {place other : Place} {name : String}

theorem below_child (within : place ++ [name] <+: other) : Below place other := by
  refine ⟨(List.prefix_append place [name]).trans within, ?_⟩
  rintro rfl
  have longer := within.length_le
  rw [List.length_append, List.length_singleton] at longer
  omega

theorem below_iff : Below place other ↔ ∃ name, place ++ [name] <+: other := by
  constructor
  · rintro ⟨⟨rest, rfl⟩, deeper⟩
    cases rest with
    | nil => simp at deeper
    | cons name rest => exact ⟨name, rest, by simp⟩
  · rintro ⟨name, within⟩
    exact below_child within

theorem same_child {second : String} (one : place ++ [name] <+: other)
    (two : place ++ [second] <+: other) : name = second := by
  have same := List.prefix_of_prefix_length_le one two (by simp)
  simpa using same.eq_of_length (by simp)

end Places

section Removals

variable {disk middle later : Disk} {gone further : Place → Prop} {place : Place}

theorem without_nothing (free : ∀ place, gone place → disk.find place = none) :
    disk.Without gone disk := ⟨free, fun _ _ => rfl⟩

theorem without_trans (first : disk.Without gone middle) (second : middle.Without further later) :
    disk.Without (fun place => gone place ∨ further place) later := by
  constructor
  · intro place removed
    by_cases last : further place
    · exact second.removed place last
    · rw [second.kept place last]
      exact first.removed place (removed.resolve_right last)
  · intro place standing
    rw [not_or] at standing
    rw [second.kept place standing.2, first.kept place standing.1]

theorem without_also (without : disk.Without gone later)
    (more : ∀ place, gone place → further place)
    (free : ∀ place, further place → ¬ gone place → disk.find place = none) :
    disk.Without further later := by
  constructor
  · intro place removed
    by_cases before : gone place
    · exact without.removed place before
    · rw [without.kept place before]
      exact free place removed before
  · intro place standing
    exact without.kept place fun removed => standing (more place removed)

theorem without_congr (without : disk.Without gone later)
    (same : ∀ place, gone place ↔ further place) :
    disk.Without further later :=
  without_also without (fun place => (same place).mp)
    fun place removed kept => absurd ((same place).mpr removed) kept

theorem found_before (without : disk.Without gone later) {entry : Entry}
    (found : later.find place = some entry) : disk.find place = some entry := by
  by_cases removed : gone place
  · rw [without.removed place removed] at found
    cases found
  · rwa [without.kept place removed] at found

theorem standing_before (without : disk.Without gone later)
    (found : (later.find place).isSome = true) : (disk.find place).isSome = true := by
  obtain ⟨entry, found⟩ := Option.isSome_iff_exists.mp found
  rw [found_before without found]
  rfl

theorem drop_without (drop : disk.drop place = some later) : disk.Without (· = place) later := by
  constructor
  · rintro _ rfl
    rw [find_drop drop, if_pos rfl]
  · intro other apart
    rw [find_drop drop, if_neg apart]

/-! ## Paths that stay -/

/-- The path leads to the place, whatever is taken away below it. -/
def Disk.Anchored (disk : Disk) (path : Names) (place : Place) : Prop :=
  ∀ gone later, (∀ other, gone other → Below place other) → disk.Without gone later →
    later.locate path = some place

variable {path : Names}

theorem anchored_locates (anchored : disk.Anchored path place) : disk.locate path = some place :=
  anchored (fun _ => False) disk (fun _ => False.elim) (without_nothing fun _ => False.elim)

theorem anchored_without (anchored : disk.Anchored path place) (without : disk.Without gone later)
    (deeper : ∀ other, gone other → Below place other) : later.Anchored path place := by
  intro further last within after
  apply anchored _ last _ (without_trans without after)
  rintro other (before | now)
  · exact deeper other before
  · exact within other now

theorem anchored_child (anchored : disk.Anchored path place) {name : String} {entry : Entry}
    (plain : isPlain name = true) (found : disk.find (place ++ [name]) = some entry)
    (unlinked : ∀ target, entry ≠ .link target) :
    disk.Anchored (path ++ [name]) (place ++ [name]) := by
  intro gone later deeper without
  have stays : ∀ other, other <+: place ++ [name] → ¬ gone other := by
    intro other within removed
    have under := deeper other removed
    exact under.2 (within.eq_of_length_le under.1.length_le)
  have located : later.locate path = some place := by
    apply anchored gone later _ without
    intro other removed
    exact below_child (deeper other removed).1
  have still : later.find (place ++ [name]) = some entry := by
    rw [without.kept _ (stays _ List.prefix_rfl), found]
  have named := enter_plain plain place
  rw [← named] at still ⊢
  apply locate_concat located
  · rw [named] at still
    exact parent_is_directory still
  · intro target link
    rw [still, Option.some.injEq] at link
    exact unlinked target link

theorem anchored_unlinked (clear : disk.Unlinked path)
    (inside : disk.find path.dropLast = some .directory) : disk.Anchored path path := by
  intro gone later deeper without
  have still : later.Unlinked path := by
    refine ⟨clear.plain, ?_⟩
    intro front within target link
    exact clear.unlinked front within target (found_before without link)
  rw [locate_unlinked still, if_pos]
  rw [without.kept, inside]
  intro removed
  have under := deeper _ removed
  exact under.2 ((List.dropLast_prefix path).eq_of_length_le under.1.length_le)

end Removals

/-! ## Removing one entry -/

section Calls

variable {drive : Drive} {path : Names} {place : Place} {name : String}

theorem spot_located (located : drive.disk.locate path = some place)
    (inside : drive.disk.find place = some .directory) (plain : isPlain name = true) :
    drive.disk.spot (path ++ [name]) = some (place ++ [name]) := by
  rw [spot_concat, located, Option.bind_some, if_pos inside, enter_plain plain]

theorem remove_leaf (located : drive.disk.locate path = some place) (plain : isPlain name = true)
    {entry : Entry} (found : drive.disk.find (place ++ [name]) = some entry)
    (leaf : entry ≠ .directory) :
    ∃ later, drive.remove (path ++ [name]) = (.ok (), later) ∧
      drive.disk.Without (· = place ++ [name]) later.disk := by
  have spotted := spot_located located (parent_is_directory found) plain
  rcases remove_cases drive (path ++ [name]) with
    ⟨-, refused⟩ | ⟨other, -, later, taken, -, -, drop, removed⟩
  · rcases refused _ spotted with free | directory
    · rw [found] at free
      cases free
    · rw [found, Option.some.injEq] at directory
      exact absurd directory leaf
  · rw [spotted, Option.some.injEq] at taken
    rw [← taken] at drop
    exact ⟨later, removed, drop_without (drive_drop_some drop).1⟩

theorem rmdir_empty (located : drive.disk.locate path = some place) (plain : isPlain name = true)
    (found : drive.disk.find (place ++ [name]) = some .directory)
    (empty : ∀ other, Below (place ++ [name]) other → drive.disk.find other = none) :
    ∃ later, drive.rmdir (path ++ [name]) = (.ok (), later) ∧
      drive.disk.Without (· = place ++ [name]) later.disk := by
  have spotted := spot_located located (parent_is_directory found) plain
  have bare : drive.disk.names (place ++ [name]) = [] := by
    rw [List.eq_nil_iff_forall_not_mem]
    intro child listed
    have standing := mem_names.mp listed
    rw [empty _ (below_child List.prefix_rfl)] at standing
    cases standing
  have drop : drive.disk.drop (place ++ [name]) = some _ := dif_pos ⟨by simp, bare⟩
  refine ⟨⟨_, (place ++ [name]) :: drive.changed⟩, ?_, drop_without drop⟩
  rw [Drive.rmdir, spotted]
  simp only [found, if_true, Drive.drop, drop, Option.map_some, Drive.settle]

end Calls

/-! ## What stands below a place -/

/-- The sum of the weights of all that stands below a place. -/
def Disk.totalBelow (disk : Disk) (weigh : Place → Nat) (place : Place) : Nat :=
  ((disk.entries.keys.filter fun other => Below place other).map weigh).sum

section Totals

variable {disk later : Disk} {weigh : Place → Nat} {place : Place}

theorem mem_below {other : Place} :
    (other ∈ disk.entries.keys.filter fun other => Below place other) ↔
      Below place other ∧ (disk.find other).isSome = true := by
  rw [List.mem_filter, decide_eq_true_eq, and_comm]
  apply and_congr_right
  intro deeper
  obtain ⟨name, rest, rfl⟩ := below_iff.mp deeper
  rw [find_nonroot (by simp), AList.lookup_isSome, AList.mem_keys]

theorem total_below_same {other : Place → Nat}
    (standing : ∀ spot, Below place spot →
      ((later.find spot).isSome = true ↔ (disk.find spot).isSome = true))
    (weights : ∀ spot, Below place spot → (disk.find spot).isSome = true → other spot = weigh spot) :
    later.totalBelow other place = disk.totalBelow weigh place := by
  have same : (later.entries.keys.filter fun spot => Below place spot).Perm
      (disk.entries.keys.filter fun spot => Below place spot) := by
    rw [List.perm_ext_iff_of_nodup (later.entries.keys_nodup.filter _)
      (disk.entries.keys_nodup.filter _)]
    intro spot
    rw [mem_below, mem_below]
    exact and_congr_right (standing spot)
  rw [Disk.totalBelow, Disk.totalBelow, (same.map other).sum_eq]
  congr 1
  apply List.map_congr_left
  intro spot member
  obtain ⟨deeper, found⟩ := mem_below.mp member
  exact weights spot deeper found

theorem total_below_free (free : ∀ other, Below place other → disk.find other = none) :
    disk.totalBelow weigh place = 0 := by
  have nothing : (disk.entries.keys.filter fun other => Below place other) = [] := by
    rw [List.eq_nil_iff_forall_not_mem]
    intro other member
    obtain ⟨deeper, found⟩ := mem_below.mp member
    rw [free other deeper] at found
    cases found
  rw [Disk.totalBelow, nothing]
  rfl

theorem total_below_names : disk.totalBelow weigh place =
    ((disk.names place).map fun name =>
      weigh (place ++ [name]) + disk.totalBelow weigh (place ++ [name])).sum := by
  let below (spot : Place) := disk.entries.keys.filter fun other => Below spot other
  have within : ∀ {name : String} {other : Place},
      other ∈ (place ++ [name]) :: below (place ++ [name]) → place ++ [name] <+: other := by
    intro name other member
    rcases List.mem_cons.mp member with rfl | deeper
    · exact List.prefix_rfl
    · exact (mem_below.mp deeper).1.1
  have split : (below place).Perm
      ((disk.names place).flatMap fun name => (place ++ [name]) :: below (place ++ [name])) := by
    rw [List.perm_ext_iff_of_nodup (disk.entries.keys_nodup.filter _)]
    · intro other
      rw [mem_below, List.mem_flatMap]
      constructor
      · rintro ⟨deeper, found⟩
        obtain ⟨name, under⟩ := below_iff.mp deeper
        refine ⟨name, ?_, ?_⟩
        · rw [mem_names]
          by_contra missing
          obtain ⟨rest, rfl⟩ := under
          rw [below_free (by simpa using missing)] at found
          cases found
        · by_cases same : other = place ++ [name]
          · rw [same]
            exact List.mem_cons_self
          · exact List.mem_cons_of_mem _ (mem_below.mpr ⟨⟨under, same⟩, found⟩)
      · rintro ⟨name, listed, member⟩
        refine ⟨below_child (within member), ?_⟩
        rcases List.mem_cons.mp member with rfl | deeper
        · exact mem_names.mp listed
        · exact (mem_below.mp deeper).2
    · rw [List.nodup_flatMap]
      constructor
      · intro name listed
        rw [List.nodup_cons]
        refine ⟨?_, disk.entries.keys_nodup.filter _⟩
        intro member
        exact (mem_below.mp member).1.2 rfl
      · apply (names_nodup place).imp
        intro first second apart other one two
        exact apart (same_child (within one) (within two))
  rw [Disk.totalBelow, (split.map weigh).sum_eq, List.map_flatMap, List.flatMap, List.sum_flatten,
    List.map_map]
  rfl

end Totals

end PosixDisk
