import Mathlib.Algebra.BigOperators.Group.List.Basic
import Mathlib.Algebra.GroupWithZero.Nat
import Mathlib.Tactic.Common

/-!
# Evicting in order until the rest fits

Items go one after the other, the first of an order first, and only as long as
what is left is over the budget.
-/

namespace EvictionOrder

set_option autoImplicit false

variable {Item Other : Type}

/-- What the items take together with what is never evicted. -/
def weight (size : Item → Nat) (kept : Nat) (items : List Item) : Nat := (items.map size).sum + kept

/-- After the first `count` items of the order the rest fits, and after fewer it
does not; or it never fits, and all go. -/
structure Shortest (size : Item → Nat) (kept : Nat) (budget : Int) (order : List Item)
    (count : Nat) : Prop where
  within : count ≤ order.length
  needed : ∀ fewer < count, budget < weight size kept (order.drop fewer)
  enough : count < order.length → weight size kept (order.drop count) ≤ budget

section Prefixes

variable {size : Item → Nat} {kept : Nat} {budget : Int} {order : List Item} {count : Nat}

theorem weight_cons (item : Item) (items : List Item) :
    weight size kept (item :: items) = size item + weight size kept items := by
  rw [weight, List.map_cons, List.sum_cons, Nat.add_assoc, weight]

theorem weight_perm {items others : List Item} (perm : items.Perm others) :
    weight size kept items = weight size kept others := by
  rw [weight, (perm.map size).sum_eq, weight]

theorem shortest_none (fits : weight size kept order ≤ budget) :
    Shortest size kept budget order 0 :=
  ⟨Nat.zero_le _, nofun, fun _ => fits⟩

theorem shortest_empty : Shortest size kept budget [] 0 :=
  ⟨Nat.zero_le _, nofun, nofun⟩

theorem shortest_next {item : Item} (excess : budget < weight size kept (item :: order))
    (shortest : Shortest size kept budget order count) :
    Shortest size kept budget (item :: order) (count + 1) := by
  constructor
  · rw [List.length_cons]
    exact Nat.succ_le_succ shortest.within
  · intro fewer less
    cases fewer with
    | zero => exact excess
    | succ fewer => exact shortest.needed fewer (Nat.lt_of_succ_lt_succ less)
  · intro short
    exact shortest.enough (Nat.lt_of_succ_lt_succ short)

theorem shortest_fits (shortest : Shortest size kept budget order count) :
    weight size kept (order.drop count) ≤ budget ∨ order.drop count = [] := by
  rcases Nat.lt_or_ge count order.length with short | all
  · exact .inl (shortest.enough short)
  · exact .inr (List.drop_eq_nil_of_le all)

theorem weight_congr {other : Item → Nat} {items : List Item}
    (same : ∀ item ∈ items, other item = size item) :
    weight other kept items = weight size kept items := by
  rw [weight, List.map_congr_left same, weight]

theorem shortest_congr {other : Item → Nat} (same : ∀ item ∈ order, other item = size item)
    (shortest : Shortest size kept budget order count) :
    Shortest other kept budget order count := by
  have left : ∀ number, weight other kept (order.drop number) = weight size kept (order.drop number) :=
    fun number => weight_congr fun item member => same item (List.mem_of_mem_drop member)
  constructor
  · exact shortest.within
  · intro fewer less
    rw [left]
    exact shortest.needed fewer less
  · intro short
    rw [left]
    exact shortest.enough short

theorem shortest_map {rename : Other → Item} {items : List Other}
    (shortest : Shortest (size ∘ rename) kept budget items count) :
    Shortest size kept budget (items.map rename) count := by
  have same : ∀ number, weight size kept ((items.map rename).drop number) =
      weight (size ∘ rename) kept (items.drop number) := by
    intro number
    rw [weight, weight, ← List.map_drop, List.map_map]
  constructor
  · rw [List.length_map]
    exact shortest.within
  · intro fewer less
    rw [same]
    exact shortest.needed fewer less
  · intro short
    rw [List.length_map] at short
    rw [same]
    exact shortest.enough short

theorem evicted_before {before : Item → Item → Prop} (sorted : order.Pairwise before)
    {evicted left : Item} (gone : evicted ∈ order.take count) (stays : left ∈ order.drop count) :
    before evicted left := by
  rw [← List.take_append_drop count order, List.pairwise_append] at sorted
  exact sorted.2.2 evicted gone left stays

end Prefixes

end EvictionOrder
