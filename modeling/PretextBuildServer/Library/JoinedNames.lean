import Mathlib.Data.List.Induction
import Mathlib.Data.String.Basic

/-!
# The order of joined names

Paths that are joined with a separator are ordered by the first names in which they
differ, each with the separator behind it unless it is the last.
-/

namespace JoinedNames

set_option autoImplicit false

/-! ## Texts -/

theorem ended_apart {Letter : Type} {first second : List Letter} {last : Letter}
    (plain : last ∉ second) (within : first ++ [last] <+: second ++ [last]) : first = second := by
  obtain ⟨tail, whole⟩ := within
  cases tail using List.reverseRecOn with
  | nil => simpa using whole
  | append_singleton tail final =>
      rw [← List.append_assoc, List.append_assoc first] at whole
      have same := (List.append_inj' whole rfl).1
      exact absurd (by rw [← same]; simp) plain

section Texts

variable {Letter : Type} [LinearOrder Letter] {front first second rest more : List Letter}

theorem same_front_lt : front ++ first < front ++ second ↔ first < second := by
  induction front with
  | nil => rfl
  | cons letter front induction =>
      rw [List.cons_append, List.cons_append, List.cons_lt_cons_iff, induction]
      simp

theorem same_front_le : front ++ first ≤ front ++ second ↔ first ≤ second := by
  rw [← not_lt, ← not_lt, same_front_lt]

theorem apart_lt (apart : ¬ first <+: second) (other : ¬ second <+: first) :
    first ++ rest < second ++ more ↔ first < second := by
  induction first generalizing second with
  | nil => exact absurd List.nil_prefix apart
  | cons letter first induction =>
      cases second with
      | nil => exact absurd List.nil_prefix other
      | cons next second =>
          rw [List.cons_append, List.cons_append, List.cons_lt_cons_iff, List.cons_lt_cons_iff]
          apply or_congr_right
          apply and_congr_right
          rintro rfl
          apply induction
          · exact fun within => apart (List.cons_prefix_cons.mpr ⟨rfl, within⟩)
          · exact fun within => other (List.cons_prefix_cons.mpr ⟨rfl, within⟩)

theorem apart_le (apart : ¬ first <+: second) (other : ¬ second <+: first) :
    first ++ rest ≤ second ++ more ↔ first ≤ second := by
  rw [← not_lt, ← not_lt, apart_lt other apart]

end Texts

/-! ## Joined names -/

def joined (names : List String) : String := "/".intercalate names

section Joined

variable {front rest more : List String} {name other : String}

theorem joined_cons (some : rest ≠ []) : joined (name :: rest) = name ++ "/" ++ joined rest := by
  obtain ⟨next, rest, rfl⟩ := List.exists_cons_of_ne_nil some
  rw [joined, joined, ← String.toList_inj, String.toList_intercalate]
  simp [String.toList_intercalate]

@[simp] theorem joined_singleton : joined [name] = name := by
  rw [joined, ← String.toList_inj, String.toList_intercalate]
  simp

theorem joined_append (some : front ≠ []) (further : rest ≠ []) :
    joined (front ++ rest) = joined front ++ "/" ++ joined rest := by
  induction front with
  | nil => exact absurd rfl some
  | cons name front induction =>
      cases front with
      | nil => rw [List.singleton_append, joined_cons further, joined_singleton]
      | cons next front =>
          rw [List.cons_append, joined_cons (List.append_ne_nil_of_left_ne_nil (by simp) rest),
            induction (by simp), @joined_cons (next :: front) name (by simp)]
          simp only [String.append_assoc]

theorem same_dir_le (some : front ≠ []) (further : rest ≠ []) (deeper : more ≠ []) :
    joined (front ++ rest) ≤ joined (front ++ more) ↔ joined rest ≤ joined more := by
  rw [joined_append some further, joined_append some deeper, String.le_iff_toList_le,
    String.le_iff_toList_le, String.toList_append, String.toList_append (s := joined front ++ "/"),
    same_front_le]

theorem dirs_le (one : '/' ∉ name.toList) (two : '/' ∉ other.toList) (apart : name ≠ other)
    (further : rest ≠ []) (deeper : more ≠ []) :
    joined (name :: rest) ≤ joined (other :: more) ↔ name ++ "/" ≤ other ++ "/" := by
  have slash : "/".toList = ['/'] := rfl
  rw [joined_cons further, joined_cons deeper, String.le_iff_toList_le, String.le_iff_toList_le]
  simp only [String.toList_append, slash]
  apply apart_le
  · exact fun within => apart (String.toList_inj.mp (ended_apart two within))
  · exact fun within => apart (String.toList_inj.mp (ended_apart one within)).symm

theorem file_dir_le (plain : '/' ∉ name.toList) (differ : ¬ name.toList <+: other.toList ++ ['/'])
    (deeper : more ≠ []) : joined [name] ≤ joined (other :: more) ↔ name ≤ other ++ "/" := by
  have slash : "/".toList = ['/'] := rfl
  have back : ¬ other.toList ++ ['/'] <+: name.toList := fun within => plain (within.subset (by simp))
  rw [joined_cons deeper, joined_singleton, String.le_iff_toList_le, String.le_iff_toList_le]
  simp only [String.toList_append, slash]
  have compared := @apart_le _ _ _ _ [] (joined more).toList differ back
  rwa [List.append_nil] at compared

end Joined

end JoinedNames
