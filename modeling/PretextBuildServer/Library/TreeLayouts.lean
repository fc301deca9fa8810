import Mathlib.Data.List.Infix

/-!
# What a list of files and directories lays out

Items are put below one directory, one after the other, each with the directories
above it. Of two files under one path the later one stays.
-/

namespace TreeLayouts

set_option autoImplicit false

/-- A file under its path, or a directory, which has no content. -/
structure Item (Name Content : Type) where
  path : List Name
  content : Option Content

inductive Node (Content : Type) where
  | directory
  | file (content : Content)

section Layouts

variable {Name Content : Type}

def Item.node (item : Item Name Content) : Node Content := item.content.elim .directory .file

/-- A directory has to stand there for the item. -/
def Item.Opens (item : Item Name Content) (path : List Name) : Prop :=
  path <+: item.path ∧ (path = item.path → item.content = none)

/-- The last item under the path is a file with this content. -/
def LastFile (items : List (Item Name Content)) (path : List Name) (content : Content) : Prop :=
  ∃ front back, items = front ++ ⟨path, some content⟩ :: back ∧ ∀ other ∈ back, other.path ≠ path

/-- No file is where the whole layout stands, and none where an item needs a
directory. -/
structure Compatible (items : List (Item Name Content)) : Prop where
  below : ∀ item ∈ items, item.content.isSome = true → item.path ≠ []
  apart : ∀ file ∈ items, file.content.isSome = true → ∀ other ∈ items, ¬ other.Opens file.path

variable [DecidableEq Name]

/-- What stands under each path, with one item more. -/
def lay (tree : List Name → Option (Node Content)) (item : Item Name Content) (path : List Name) :
    Option (Node Content) :=
  if path = item.path then some item.node
  else if path <+: item.path then some .directory
  else tree path

def layout (items : List (Item Name Content)) : List Name → Option (Node Content) :=
  items.foldl lay fun path => if path = [] then some .directory else none

/-- Whether an item can be put into what stands there already. -/
structure Fits (tree : List Name → Option (Node Content)) (item : Item Name Content) : Prop where
  above : ∀ front, item.Opens front → ∀ content, tree front ≠ some (.file content)
  free : item.content.isSome = true → tree item.path ≠ some .directory

theorem layout_concat (items : List (Item Name Content)) (item : Item Name Content) :
    layout (items ++ [item]) = lay (layout items) item := by
  rw [layout, List.foldl_append]
  rfl

section Last

omit [DecidableEq Name]

variable {items : List (Item Name Content)} {item : Item Name Content} {path : List Name}
  {content : Content}

theorem compatible_front {back : List (Item Name Content)} (compatible : Compatible (items ++ back)) :
    Compatible items := by
  constructor
  · intro item member
    exact compatible.below item (List.mem_append_left back member)
  · intro file member isFile other listed
    exact compatible.apart file (List.mem_append_left back member) isFile other
      (List.mem_append_left back listed)

theorem last_file_listed (last : LastFile items path content) : ⟨path, some content⟩ ∈ items := by
  obtain ⟨front, back, split, -⟩ := last
  rw [split]
  exact List.mem_append_right front List.mem_cons_self

theorem last_file_here : LastFile (items ++ [item]) item.path content ↔
    item.content = some content := by
  constructor
  · rintro ⟨front, back, split, later⟩
    cases back using List.reverseRecOn with
    | nil =>
        have same := (List.append_inj' split rfl).2
        rw [List.singleton_inj] at same
        rw [same]
    | append_singleton back other =>
        rw [← List.cons_append, ← List.append_assoc] at split
        have same := (List.append_inj' split rfl).2
        rw [List.singleton_inj] at same
        exact absurd (congrArg Item.path same.symm) (later other (by simp))
  · intro written
    refine ⟨items, [], ?_, by simp⟩
    rw [← written]

theorem last_file_elsewhere (apart : path ≠ item.path) :
    LastFile (items ++ [item]) path content ↔ LastFile items path content := by
  constructor
  · rintro ⟨front, back, split, later⟩
    cases back using List.reverseRecOn with
    | nil =>
        have same := (List.append_inj' split rfl).2
        rw [List.singleton_inj] at same
        exact absurd (congrArg Item.path same.symm) apart
    | append_singleton back other =>
        rw [← List.cons_append, ← List.append_assoc] at split
        refine ⟨front, back, (List.append_inj' split rfl).1, ?_⟩
        intro other member
        exact later other (List.mem_append_left _ member)
  · rintro ⟨front, back, split, later⟩
    refine ⟨front, back ++ [item], by rw [split, List.append_assoc, List.cons_append], ?_⟩
    intro other member
    rcases List.mem_append.mp member with earlier | last
    · exact later other earlier
    · rw [List.mem_singleton.mp last]
      exact apart.symm

theorem node_file_iff :
    some item.node = some (.file content) ↔ item.content = some content := by
  cases found : item.content <;> simp [Item.node, found]

theorem node_directory_iff : some item.node = some .directory ↔ item.content = none := by
  cases found : item.content <;> simp [Item.node, found]

theorem compatible_nil : Compatible ([] : List (Item Name Content)) := ⟨by simp, by simp⟩

theorem last_file_of_nodup (once : (items.map Item.path).Nodup) :
    LastFile items path content ↔ ⟨path, some content⟩ ∈ items := by
  refine ⟨last_file_listed, fun listed => ?_⟩
  obtain ⟨front, back, rfl⟩ := List.append_of_mem listed
  refine ⟨front, back, rfl, fun other member same => ?_⟩
  rw [List.map_append, List.map_cons, List.nodup_append, List.nodup_cons] at once
  exact once.2.1.1 (List.mem_map.mpr ⟨other, member, same⟩)

end Last

/-! ## What stands where -/

section Standing

variable {items : List (Item Name Content)} {item : Item Name Content} {path : List Name}

theorem lay_here (tree : List Name → Option (Node Content)) (item : Item Name Content) :
    lay tree item item.path = some item.node := if_pos rfl

theorem lay_above (tree : List Name → Option (Node Content)) (apart : path ≠ item.path)
    (above : path <+: item.path) : lay tree item path = some .directory := by
  rw [lay, if_neg apart, if_pos above]

theorem lay_aside (tree : List Name → Option (Node Content)) (aside : ¬ path <+: item.path) :
    lay tree item path = tree path := by
  rw [lay, if_neg, if_neg aside]
  rintro rfl
  exact aside List.prefix_rfl

theorem layout_file_iff (compatible : Compatible items) (path : List Name) (content : Content) :
    layout items path = some (.file content) ↔ LastFile items path content := by
  induction items using List.reverseRecOn with
  | nil =>
      have nothing : ¬ LastFile ([] : List (Item Name Content)) path content :=
        fun last => List.not_mem_nil (last_file_listed last)
      refine iff_of_false ?_ nothing
      rw [layout, List.foldl_nil]
      split <;> simp
  | append_singleton items item induction =>
      have earlier := induction (compatible_front compatible)
      rw [layout_concat]
      by_cases here : path = item.path
      · subst here
        rw [lay_here, node_file_iff, last_file_here]
      · rw [last_file_elsewhere here]
        by_cases above : path <+: item.path
        · rw [lay_above _ here above]
          refine iff_of_false (by simp) fun last => ?_
          exact compatible.apart _ (List.mem_append_left _ (last_file_listed last)) rfl item
            (by simp) ⟨above, fun same => absurd same here⟩
        · rw [lay_aside _ above, earlier]

theorem layout_directory_iff (compatible : Compatible items) (path : List Name) :
    layout items path = some .directory ↔ path = [] ∨ ∃ item ∈ items, item.Opens path := by
  induction items using List.reverseRecOn with
  | nil =>
      rw [layout, List.foldl_nil]
      split <;> simp_all
  | append_singleton items item induction =>
      have earlier := induction (compatible_front compatible)
      rw [layout_concat]
      by_cases here : path = item.path
      · subst here
        rw [lay_here, node_directory_iff]
        constructor
        · intro directory
          exact .inr ⟨item, by simp, List.prefix_rfl, fun _ => directory⟩
        · intro opened
          rw [← Option.not_isSome_iff_eq_none]
          intro isFile
          rcases opened with top | ⟨other, listed, opens⟩
          · exact compatible.below item (by simp) isFile top
          · exact compatible.apart item (by simp) isFile other listed opens
      · by_cases above : path <+: item.path
        · rw [lay_above _ here above]
          refine iff_of_true rfl (.inr ⟨item, by simp, above, fun same => absurd same here⟩)
        · rw [lay_aside _ above, earlier]
          have aside : ¬ item.Opens path := fun opens => above opens.1
          simp only [List.mem_append, List.mem_singleton, or_and_right, exists_or, exists_eq_left,
            aside, or_false]

theorem layout_stands (listed : item ∈ items) : layout items item.path ≠ none := by
  induction items using List.reverseRecOn with
  | nil => exact absurd listed List.not_mem_nil
  | append_singleton items last induction =>
      rw [layout_concat]
      by_cases above : item.path <+: last.path
      · by_cases here : item.path = last.path
        · rw [here, lay_here]
          simp
        · rw [lay_above _ here above]
          simp
      · rw [lay_aside _ above]
        rcases List.mem_append.mp listed with earlier | same
        · exact induction earlier
        · rw [List.mem_singleton.mp same] at above
          exact absurd List.prefix_rfl above

theorem layout_at_file (compatible : Compatible items) (listed : item ∈ items)
    (isFile : item.content.isSome = true) :
    ∃ content, layout items item.path = some (.file content) := by
  cases found : layout items item.path with
  | none => exact absurd found (layout_stands listed)
  | some node =>
      cases node with
      | file content => exact ⟨content, rfl⟩
      | directory =>
          rcases (layout_directory_iff compatible _).mp found with top | ⟨other, member, opens⟩
          · exact absurd top (compatible.below item listed isFile)
          · exact absurd opens (compatible.apart item listed isFile other member)

/-! ## One item more -/

theorem compatible_concat_iff (compatible : Compatible items) :
    Compatible (items ++ [item]) ↔ Fits (layout items) item := by
  constructor
  · intro longer
    constructor
    · intro front opens content stands
      have last := (layout_file_iff compatible front content).mp stands
      exact longer.apart _ (List.mem_append_left _ (last_file_listed last)) rfl item (by simp) opens
    · intro isFile stands
      rcases (layout_directory_iff compatible _).mp stands with top | ⟨other, listed, opens⟩
      · exact longer.below item (by simp) isFile top
      · exact longer.apart item (by simp) isFile other (List.mem_append_left _ listed) opens
  · intro fits
    have opened : ∀ path, path = [] ∨ (∃ other ∈ items, other.Opens path) →
        layout items path = some .directory := fun path =>
      (layout_directory_iff compatible path).mpr
    constructor
    · intro file listed isFile top
      rcases List.mem_append.mp listed with earlier | last
      · exact compatible.below file earlier isFile top
      · rw [List.mem_singleton.mp last] at isFile top
        exact fits.free isFile (opened _ (.inl top))
    · intro file listed isFile other member opens
      rcases List.mem_append.mp listed with earlier | last
      · rcases List.mem_append.mp member with early | late
        · exact compatible.apart file earlier isFile other early opens
        · rw [List.mem_singleton.mp late] at opens
          obtain ⟨content, stands⟩ := layout_at_file compatible earlier isFile
          exact fits.above _ opens content stands
      · rw [List.mem_singleton.mp last] at isFile opens
        rcases List.mem_append.mp member with early | late
        · exact fits.free isFile (opened _ (.inr ⟨other, early, opens⟩))
        · rw [List.mem_singleton.mp late] at opens
          rw [opens.2 rfl] at isFile
          cases isFile

end Standing

end Layouts

end TreeLayouts
