import Mathlib.Data.List.Nodup
import Mathlib.Logic.Function.Basic
import Mathlib.Tactic.Common

/-!
# Taking in what is not held yet

A store whose entries are written once takes in a list of items: an item under a
new key comes in, one under a key that is held is left out.
-/

namespace WriteOnce

set_option autoImplicit false

variable {Key Value : Type} [DecidableEq Key]

/-- What is held after all items have been offered, and the keys that came in. -/
def absorb (held : Key → Option Value) : List (Key × Value) → (Key → Option Value) × List Key
  | [] => (held, [])
  | (key, value) :: rest =>
      if (held key).isSome then absorb held rest
      else
        let later := absorb (Function.update held key (some value)) rest
        (later.1, key :: later.2)

section Absorbing

variable {held : Key → Option Value} {items : List (Key × Value)} {key : Key} {value : Value}

theorem absorb_held (rest : List (Key × Value)) (there : (held key).isSome = true) :
    absorb held ((key, value) :: rest) = absorb held rest := by
  rw [absorb, if_pos there]

theorem absorb_new (rest : List (Key × Value)) (free : held key = none) :
    absorb held ((key, value) :: rest) =
      ((absorb (Function.update held key (some value)) rest).1,
        key :: (absorb (Function.update held key (some value)) rest).2) := by
  rw [absorb, if_neg (by simp [free])]

theorem absorb_append (front back : List (Key × Value)) : absorb held (front ++ back) =
    ((absorb (absorb held front).1 back).1,
      (absorb held front).2 ++ (absorb (absorb held front).1 back).2) := by
  induction front generalizing held with
  | nil => rfl
  | cons item front induction =>
      obtain ⟨key, value⟩ := item
      rw [List.cons_append]
      cases found : held key with
      | none => rw [absorb_new _ found, absorb_new _ found, induction, List.cons_append]
      | some old => rw [absorb_held _ (by simp [found]), absorb_held _ (by simp [found]), induction]

theorem absorb_keeps (there : held key = some value) : (absorb held items).1 key = some value := by
  induction items generalizing held with
  | nil => exact there
  | cons item items induction =>
      obtain ⟨other, content⟩ := item
      cases found : held other with
      | none =>
          rw [absorb_new _ found]
          apply induction
          rw [Function.update_of_ne _ _ _, there]
          rintro rfl
          rw [found] at there
          cases there
      | some old =>
          rw [absorb_held _ (by simp [found])]
          exact induction there

theorem absorb_source (there : (absorb held items).1 key = some value) :
    held key = some value ∨ (key, value) ∈ items := by
  induction items generalizing held with
  | nil => exact .inl there
  | cons item items induction =>
      obtain ⟨other, content⟩ := item
      cases found : held other with
      | none =>
          rw [absorb_new _ found] at there
          rcases induction there with before | later
          · by_cases same : key = other
            · rw [same, Function.update_self, Option.some.injEq] at before
              exact .inr (by rw [same, before]; exact List.mem_cons_self)
            · rw [Function.update_of_ne same] at before
              exact .inl before
          · exact .inr (List.mem_cons_of_mem _ later)
      | some old =>
          rw [absorb_held _ (by simp [found])] at there
          rcases induction there with before | later
          · exact .inl before
          · exact .inr (List.mem_cons_of_mem _ later)

theorem absorb_complete (offered : (key, value) ∈ items) :
    ((absorb held items).1 key).isSome = true := by
  obtain ⟨front, back, rfl⟩ := List.append_of_mem offered
  rw [absorb_append]
  have here : ((absorb (absorb held front).1 [(key, value)]).1 key).isSome = true := by
    cases found : (absorb held front).1 key with
    | none => simp [absorb, found]
    | some old =>
        rw [absorb_held _ (by simp [found]), absorb, found]
        rfl
  obtain ⟨content, there⟩ := Option.isSome_iff_exists.mp here
  rw [← List.singleton_append, absorb_append, absorb_keeps there]
  rfl

theorem mem_absorbed :
    key ∈ (absorb held items).2 ↔ key ∈ items.map Prod.fst ∧ held key = none := by
  induction items generalizing held with
  | nil => simp [absorb]
  | cons item items induction =>
      obtain ⟨other, content⟩ := item
      rw [List.map_cons, List.mem_cons]
      cases found : held other with
      | none =>
          rw [absorb_new _ found, List.mem_cons, induction]
          by_cases same : key = other
          · simp [same, found]
          · simp [same]
      | some old =>
          rw [absorb_held _ (by simp [found]), induction]
          by_cases same : key = other
          · simp [same, found]
          · simp [same]

theorem absorbed_nodup : (absorb held items).2.Nodup := by
  induction items generalizing held with
  | nil => exact List.nodup_nil
  | cons item items induction =>
      obtain ⟨other, content⟩ := item
      cases found : held other with
      | none =>
          rw [absorb_new _ found, List.nodup_cons]
          refine ⟨?_, induction⟩
          rw [mem_absorbed, Function.update_self]
          rintro ⟨-, ⟨⟩⟩
      | some old =>
          rw [absorb_held _ (by simp [found])]
          exact induction

theorem absorb_nothing (there : ∀ item ∈ items, (held item.1).isSome = true) :
    absorb held items = (held, []) := by
  induction items with
  | nil => rfl
  | cons item items induction =>
      obtain ⟨first, others⟩ := List.forall_mem_cons.mp there
      rw [absorb_held items first, induction others]

end Absorbing

end WriteOnce
