import PretextBuildServer.HarvestRuns

/-!
# Paths as texts

A path is told by joining its names with slashes. Names that a directory can
have come back out of the text as they went in.
-/

namespace PretextBuildServer.PathTexts

open PosixDisk PretextBuildServer.NameValidators PretextBuildServer.HarvestRuns

set_option autoImplicit false

/-- What Linux takes for a name in a directory. -/
def validName (name : String) : Bool :=
  isPlain name && name != "" && !name.toList.contains '/' && !name.toList.contains '\x00'

theorem plain_of_valid {name : String} (valid : validName name = true) : isPlain name = true := by
  simp only [validName, Bool.and_eq_true] at valid
  exact valid.1.1.1

/-- The names a path is joined from. -/
def pathNames (name : String) : Names := (splitRuns (· == '/') name.toList).map String.ofList

theorem path_names_joined {parts : Names} (valid : ∀ name ∈ parts, validName name = true) :
    pathNames ("/".intercalate parts) = parts := by
  have runs : ∀ run ∈ parts.map String.toList, IsRun (· == '/') run := by
    intro run member
    obtain ⟨name, inside, rfl⟩ := List.mem_map.mp member
    have named := valid name inside
    simp only [validName, Bool.and_eq_true, bne_iff_ne, Bool.not_eq_true', ne_eq] at named
    obtain ⟨⟨⟨-, nonempty⟩, plain⟩, -⟩ := named
    constructor
    · simpa using nonempty
    · intro c here
      rw [beq_eq_false_iff_ne]
      rintro rfl
      rw [List.contains_iff_mem.mpr here] at plain
      cases plain
  rw [pathNames, String.toList_intercalate, show "/".toList = ['/'] by decide,
    split_joined_runs (· == '/') (by decide) _ runs]
  simp [Function.comp_def]

/-! ## Names that match a pattern -/

theorem mem_before_newline {text : List Char} {c : Char} (member : c ∈ text) :
    c ∈ beforeFinalNewline text ∨ c = '\n' := by
  unfold beforeFinalNewline
  split
  · rename_i last
    rw [← List.dropLast_append_getLast? '\n' last, List.mem_append, List.mem_singleton] at member
    exact member
  · exact .inl member

theorem of_before_newline {text : List Char} {c : Char} (inside : c ∈ beforeFinalNewline text) :
    c ∈ text := by
  unfold beforeFinalNewline at inside
  split at inside
  · exact List.mem_of_mem_dropLast inside
  · exact inside

theorem subdir_character {text : List Char} (valid : matchesSubdirName text = true) {c : Char}
    (member : c ∈ text) : isSlugChar c = true ∨ c = '\n' := by
  rcases mem_before_newline member with inside | newline
  · unfold matchesSubdirName at valid
    split at valid
    · cases valid
    · rename_i first rest starts
      rw [Bool.and_eq_true, List.all_eq_true] at valid
      rw [starts] at inside
      rcases List.mem_cons.mp inside with rfl | later
      · left
        rw [isSlugChar, valid.1]
        rfl
      · exact .inl (valid.2 c later)
  · exact .inr newline

theorem cache_filename_character {text : List Char} (valid : matchesCacheFilename text = true)
    {c : Char} (member : c ∈ text) :
    isHexDigit c = true ∨ isAlnum c = true ∨ c ∈ "-annotations.\n".toList := by
  rcases mem_before_newline member with inside | rfl
  · simp only [matchesCacheFilename, Bool.and_eq_true] at valid
    obtain ⟨⟨-, digits⟩, tail⟩ := valid
    rw [← List.take_append_drop 32 (beforeFinalNewline text), List.mem_append] at inside
    rcases inside with key | more
    · exact .inl (List.all_eq_true.mp digits c key)
    · have dotted : c ∈ "-annotations".toList ∨
          c ∈ afterAnnotations ((beforeFinalNewline text).drop 32) := by
        unfold afterAnnotations
        split
        · rename_i annotated
          obtain ⟨rest, same⟩ := List.isPrefixOf_iff_prefix.mp annotated
          rw [← same, List.mem_append] at more
          rw [← same]
          exact more
        · exact .inr more
      rcases dotted with annotation | extended
      · right
        right
        revert annotation
        simp only [String.reduceToList, List.mem_cons, List.not_mem_nil, or_false]
        grind
      · split at tail
        · rename_i extension dot
          rw [Bool.and_eq_true, List.all_eq_true] at tail
          rw [dot] at extended
          rcases List.mem_cons.mp extended with rfl | letter
          · exact .inr (.inr (by decide))
          · exact .inr (.inl (tail.2 c letter))
        · cases tail
  · exact .inr (.inr (by decide))

theorem valid_of_characters {name : String} (plain : isPlain name = true) (some : name ≠ "")
    (slash : '/' ∉ name.toList) (zero : '\x00' ∉ name.toList) : validName name = true := by
  simp only [validName, Bool.and_eq_true, bne_iff_ne, Bool.not_eq_true', ne_eq,
    List.contains_eq_mem, decide_eq_false_iff_not]
  exact ⟨⟨⟨plain, some⟩, slash⟩, zero⟩

theorem valid_of_subdir {name : String} (matched : matchesSubdirName name.toList = true) :
    validName name = true := by
  apply valid_of_characters (subdir_plain matched)
  · rintro rfl
    exact absurd matched (by decide)
  · intro slash
    exact absurd (subdir_character matched slash) (by decide)
  · intro zero
    exact absurd (subdir_character matched zero) (by decide)

theorem valid_of_cache_filename {name : String}
    (matched : matchesCacheFilename name.toList = true) : validName name = true := by
  apply valid_of_characters (cache_filename_plain matched)
  · rintro rfl
    exact absurd matched (by decide)
  · intro slash
    exact absurd (cache_filename_character matched slash) (by decide)
  · intro zero
    exact absurd (cache_filename_character matched zero) (by decide)

end PretextBuildServer.PathTexts
