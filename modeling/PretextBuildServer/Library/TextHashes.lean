import Mathlib.Data.List.AList

/-!
# Records kept as hashes of texts

A store that knows only texts keeps a record as a hash: a text under the name of
each field that has a value. A codec says how the values of a field are written
and read. What is read after a write is what was written, and the old value
wherever nothing was.
-/

namespace TextHashes

set_option autoImplicit false

/-- How a value is kept as a text; reading gives back what was written. -/
structure Codec (Value : Type) where
  write : Value → String
  read : String → Option Value
  back : ∀ value, read (write value) = some value

def textCodec : Codec String where
  write := id
  read := some
  back _ := rfl

abbrev TextHash := AList fun _ : String => String

/-- Each entry replaces the one of its name, or is added. -/
def TextHash.write (hash : TextHash) (mapping : List (String × String)) : TextHash :=
  mapping.foldl (fun hash entry => hash.insert entry.1 entry.2) hash

theorem lookup_write (hash : TextHash) (mapping : List (String × String)) (name : String)
    (distinct : (mapping.map Prod.fst).Nodup) :
    (hash.write mapping).lookup name = (mapping.lookup name <|> hash.lookup name) := by
  induction mapping generalizing hash with
  | nil => rfl
  | cons entry mapping induction =>
      obtain ⟨written, text⟩ := entry
      rw [List.map_cons, List.nodup_cons] at distinct
      have rest := induction (hash.insert written text) distinct.2
      rw [TextHash.write, List.foldl_cons]
      refine rest.trans ?_
      by_cases same : name = written
      · subst same
        have absent : mapping.lookup name = none := by
          rw [List.lookup_eq_none_iff]
          intro entry mem
          have other : entry.1 ≠ name := by
            rintro rfl
            exact distinct.1 (List.mem_map.mpr ⟨entry, mem, rfl⟩)
          simpa using Ne.symm other
        simp [absent, AList.lookup_insert]
      · have differs : (name == written) = false := by simpa using same
        rw [AList.lookup_insert_ne same, List.lookup_cons, differs]

section Named

variable {Field : Type} (name : Field → String) (text : Field → Option String)

def entries (fields : List Field) : List (String × String) :=
  fields.filterMap fun field => (text field).map (name field, ·)

theorem entries_names (fields : List Field) :
    ((entries name text fields).map Prod.fst).Sublist (fields.map name) := by
  induction fields with
  | nil => exact .slnil
  | cons field fields induction =>
      rw [entries, List.filterMap_cons]
      cases value : text field with
      | none => exact induction.cons (name field)
      | some written => exact induction.cons_cons (name field)

theorem entries_distinct {fields : List Field} (injective : Function.Injective name)
    (once : fields.Nodup) : ((entries name text fields).map Prod.fst).Nodup :=
  (entries_names name text fields).nodup (once.map injective)

theorem lookup_entries {fields : List Field} (injective : Function.Injective name)
    (field : Field) (listed : field ∈ fields) :
    (entries name text fields).lookup (name field) = text field := by
  induction fields with
  | nil => exact absurd listed List.not_mem_nil
  | cons other fields induction =>
      rw [entries, List.filterMap_cons]
      by_cases same : field = other
      · subst same
        cases value : text field with
        | some written => simp
        | none =>
            simp only [Option.map_none]
            rw [List.lookup_eq_none_iff]
            intro entry mem
            obtain ⟨another, -, made⟩ := List.mem_filterMap.mp mem
            obtain ⟨written, found, rfl⟩ := Option.map_eq_some_iff.mp made
            have differs : field ≠ another := by
              rintro rfl
              exact absurd (value.symm.trans found) (by simp)
            simpa using fun named => differs (injective named)
      · have rest := induction ((List.mem_cons.mp listed).resolve_left same)
        have differs : (name field == name other) = false := by
          simpa using fun named => same (injective named)
        cases text other with
        | none => exact rest
        | some written =>
            simp only [Option.map_some, List.lookup_cons, differs]
            exact rest

end Named

theorem read_written {Value : Type} (codec : Codec Value) (value : Option Value) :
    (value.map codec.write).bind codec.read = value := by
  cases value with
  | none => rfl
  | some value => exact codec.back value

end TextHashes
