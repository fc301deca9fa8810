import Mathlib.Data.List.Basic

/-!
# Patterns as Python's `re` reads them

A pattern leads from a position of a text to others; a position is what is left of
the text from there on. `$` holds at the end, and in front of a newline at the end.
-/

namespace PythonPatterns

set_option autoImplicit false

abbrev Text := List Char

inductive Pattern where
  | start
  | stop
  | literal (text : Text)
  | oneOf (ranges : List (Char × Char))
  | sequence (first second : Pattern)
  | optional (body : Pattern)
  | repeated (body : Pattern) (least : Nat) (most : Option Nat)
  deriving DecidableEq

instance : Append Pattern := ⟨.sequence⟩

/-! ## How a pattern is written -/

def rangeSource (range : Char × Char) : Text :=
  if range.1 = range.2 then [range.1] else [range.1, '-', range.2]

def escaped (c : Char) : Text := if ".^$*+?()[\\|".toList.contains c then ['\\', c] else [c]

def countSource : Nat → Option Nat → Text
  | 0, none => ['*']
  | 1, none => ['+']
  | least, none => '\x7b' :: Nat.toDigits 10 least ++ [',', '\x7d']
  | least, some most =>
      if least = most then '\x7b' :: Nat.toDigits 10 least ++ ['\x7d']
      else '\x7b' :: Nat.toDigits 10 least ++ ',' :: Nat.toDigits 10 most ++ ['\x7d']

/-- Only what is one character or a class is repeated here, so that no further
brackets are needed. -/
def Pattern.source : Pattern → Text
  | start => ['^']
  | stop => ['$']
  | literal text => text.flatMap escaped
  | oneOf ranges => '[' :: ranges.flatMap rangeSource ++ [']']
  | sequence first second => first.source ++ second.source
  | optional body => "(?:".toList ++ body.source ++ ")?".toList
  | repeated body least most => body.source ++ countSource least most

/-! ## What a pattern matches -/

def admits (ranges : List (Char × Char)) (c : Char) : Bool :=
  ranges.any fun range => range.1 ≤ c && c ≤ range.2

/-- So many steps, one after the other. -/
def Steps (step : Text → Text → Prop) : Nat → Text → Text → Prop
  | 0, here, there => there = here
  | count + 1, here, there => ∃ middle, step here middle ∧ Steps step count middle there

def Pattern.Leads (whole : Text) : Pattern → Text → Text → Prop
  | start, here, there => here = whole ∧ there = here
  | stop, here, there => (here = [] ∨ here = ['\n']) ∧ there = here
  | literal text, here, there => here = text ++ there
  | oneOf ranges, here, there => ∃ c, admits ranges c = true ∧ here = c :: there
  | sequence first second, here, there =>
      ∃ middle, first.Leads whole here middle ∧ second.Leads whole middle there
  | optional body, here, there => there = here ∨ body.Leads whole here there
  | repeated body least most, here, there => ∃ count, least ≤ count ∧
      (∀ bound ∈ most, count ≤ bound) ∧ Steps (body.Leads whole) count here there

/-- `re.match` finds something. -/
def Pattern.Matches (pattern : Pattern) (text : Text) : Prop :=
  ∃ there, pattern.Leads text text there

/-! ## Patterns between anchors -/

/-- The texts a pattern without anchors runs over. -/
def Pattern.Spells : Pattern → Text → Prop
  | start, _ | stop, _ => False
  | literal text, name => name = text
  | oneOf ranges, name => ∃ c, admits ranges c = true ∧ name = [c]
  | sequence first second, name => ∃ front back, first.Spells front ∧ second.Spells back ∧
      name = front ++ back
  | optional body, name => name = [] ∨ body.Spells name
  | repeated body least most, name => ∃ pieces : List Text, least ≤ pieces.length ∧
      (∀ bound ∈ most, pieces.length ≤ bound) ∧ (∀ piece ∈ pieces, body.Spells piece) ∧
      name = pieces.flatten

def Pattern.free : Pattern → Bool
  | start | stop => false
  | literal _ | oneOf _ => true
  | sequence first second => first.free && second.free
  | optional body | repeated body _ _ => body.free

section Matching

variable {whole here there text name : Text} {pattern : Pattern} {ranges : List (Char × Char)}
  {least : Nat} {most : Option Nat}

theorem steps_spell {step : Text → Text → Prop} {spells : Text → Prop}
    (each : ∀ here there, step here there ↔ ∃ front, spells front ∧ here = front ++ there)
    (count : Nat) (here there : Text) :
    Steps step count here there ↔ ∃ pieces : List Text, pieces.length = count ∧
      (∀ piece ∈ pieces, spells piece) ∧ here = pieces.flatten ++ there := by
  induction count generalizing here with
  | zero =>
      constructor
      · intro same
        exact ⟨[], rfl, by simp, same.symm⟩
      · rintro ⟨pieces, none, -, spelled⟩
        rw [List.length_eq_zero_iff.mp none] at spelled
        exact spelled.symm
  | succ count induction =>
      constructor
      · rintro ⟨middle, first, rest⟩
        obtain ⟨front, isFront, rfl⟩ := (each here middle).mp first
        obtain ⟨pieces, counted, all, rfl⟩ := (induction middle).mp rest
        exact ⟨front :: pieces, by rw [List.length_cons, counted],
          List.forall_mem_cons.mpr ⟨isFront, all⟩, by simp⟩
      · rintro ⟨pieces, counted, all, rfl⟩
        cases pieces with
        | nil => cases counted
        | cons front pieces =>
            obtain ⟨isFront, others⟩ := List.forall_mem_cons.mp all
            refine ⟨pieces.flatten ++ there, (each _ _).mpr ⟨front, isFront, by simp⟩, ?_⟩
            exact (induction _).mpr ⟨pieces, Nat.succ.inj counted, others, rfl⟩

theorem leads_free (free : pattern.free = true) (here there : Text) :
    pattern.Leads whole here there ↔ ∃ front, pattern.Spells front ∧ here = front ++ there := by
  induction pattern generalizing here there with
  | start => cases free
  | stop => cases free
  | literal text => simp [Pattern.Leads, Pattern.Spells]
  | oneOf ranges =>
      constructor
      · rintro ⟨c, admitted, rfl⟩
        exact ⟨[c], ⟨c, admitted, rfl⟩, rfl⟩
      · rintro ⟨front, ⟨c, admitted, rfl⟩, rfl⟩
        exact ⟨c, admitted, rfl⟩
  | sequence first second one two =>
      rw [Pattern.free, Bool.and_eq_true] at free
      constructor
      · rintro ⟨middle, before, after⟩
        obtain ⟨front, isFront, rfl⟩ := (one free.1 here middle).mp before
        obtain ⟨back, isBack, rfl⟩ := (two free.2 middle there).mp after
        exact ⟨front ++ back, ⟨front, back, isFront, isBack, rfl⟩, by simp⟩
      · rintro ⟨whole, ⟨front, back, isFront, isBack, rfl⟩, rfl⟩
        refine ⟨back ++ there, (one free.1 _ _).mpr ⟨front, isFront, by simp⟩, ?_⟩
        exact (two free.2 _ _).mpr ⟨back, isBack, rfl⟩
  | optional body induction =>
      constructor
      · rintro (rfl | taken)
        · exact ⟨[], .inl rfl, rfl⟩
        · obtain ⟨front, isFront, rfl⟩ := (induction free here there).mp taken
          exact ⟨front, .inr isFront, rfl⟩
      · rintro ⟨front, rfl | isFront, rfl⟩
        · exact .inl rfl
        · exact .inr ((induction free _ _).mpr ⟨front, isFront, rfl⟩)
  | repeated body least most induction =>
      have each := steps_spell (induction free)
      constructor
      · rintro ⟨count, enough, few, rounds⟩
        obtain ⟨pieces, rfl, all, rfl⟩ := (each count here there).mp rounds
        exact ⟨pieces.flatten, ⟨pieces, enough, few, all, rfl⟩, rfl⟩
      · rintro ⟨front, ⟨pieces, enough, few, all, rfl⟩, rfl⟩
        exact ⟨pieces.length, enough, few, (each _ _ _).mpr ⟨pieces, rfl, all, rfl⟩⟩

/-- Between `^` and `$` a text is matched as a whole, or all of it but a final newline. -/
theorem anchored_matches (free : pattern.free = true) :
    (Pattern.start ++ pattern ++ .stop).Matches text ↔
      ∃ name, pattern.Spells name ∧ (text = name ∨ text = name ++ ['\n']) := by
  constructor
  · rintro ⟨there, last, ⟨first, ⟨-, rfl⟩, body⟩, ended, rfl⟩
    obtain ⟨name, spelled, same⟩ := (leads_free free _ _).mp body
    refine ⟨name, spelled, ?_⟩
    rcases ended with rfl | rfl
    · exact .inl (by rw [same, List.append_nil])
    · exact .inr same
  · rintro ⟨name, spelled, rfl | rfl⟩
    · exact ⟨[], [], ⟨_, ⟨rfl, rfl⟩, (leads_free free _ _).mpr ⟨text, spelled, by simp⟩⟩, .inl rfl, rfl⟩
    · exact ⟨['\n'], ['\n'], ⟨_, ⟨rfl, rfl⟩, (leads_free free _ _).mpr ⟨name, spelled, rfl⟩⟩, .inr rfl, rfl⟩

theorem singles_spelled {pieces : List Text}
    (each : ∀ piece ∈ pieces, ∃ c, admits ranges c = true ∧ piece = [c]) :
    ∃ letters : Text, (∀ c ∈ letters, admits ranges c = true) ∧
      pieces = letters.map fun c => [c] := by
  induction pieces with
  | nil => exact ⟨[], by simp, rfl⟩
  | cons piece pieces induction =>
      obtain ⟨⟨c, admitted, rfl⟩, others⟩ := List.forall_mem_cons.mp each
      obtain ⟨letters, all, rfl⟩ := induction others
      exact ⟨c :: letters, List.forall_mem_cons.mpr ⟨admitted, all⟩, rfl⟩

theorem spells_repeated_one_of : (Pattern.repeated (.oneOf ranges) least most).Spells name ↔
    least ≤ name.length ∧ (∀ bound ∈ most, name.length ≤ bound) ∧
      ∀ c ∈ name, admits ranges c = true := by
  constructor
  · rintro ⟨pieces, enough, few, each, rfl⟩
    obtain ⟨letters, all, rfl⟩ := singles_spelled each
    rw [List.length_map] at enough few
    rw [← List.flatMap_def, List.flatMap_singleton']
    exact ⟨enough, few, all⟩
  · rintro ⟨enough, few, all⟩
    refine ⟨name.map fun c => [c], ?_, ?_, ?_, ?_⟩
    · rwa [List.length_map]
    · rwa [List.length_map]
    · intro piece inside
      obtain ⟨c, member, rfl⟩ := List.mem_map.mp inside
      exact ⟨c, all c member, rfl⟩
    · exact (List.flatMap_singleton' name).symm

end Matching

end PythonPatterns
