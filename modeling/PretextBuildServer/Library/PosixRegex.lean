import Mathlib.Computability.RegularExpressions

/-!
# Regular expressions as POSIX tools read them

Extended expressions are Mathlib's regular expressions, with classes of
characters; the first half says what they match. The second half reads and
matches basic expressions without brackets, groups and intervals.
-/

namespace PosixRegex

set_option autoImplicit false

open RegularExpression

abbrev Text := List Char

/-! ## Classes of characters -/

/-- The ASCII characters from `low` to `high`. -/
def charRange (low high : Char) : List Char :=
  ((List.range 128).map Char.ofNat).filter fun c => low ≤ c && c ≤ high

def oneOf (chars : List Char) : RegularExpression Char := (chars.map .char).foldr (· + ·) 0

def optional (expression : RegularExpression Char) : RegularExpression Char := 1 + expression

section Classes

variable {chars : List Char} {text : Text} {expression : RegularExpression Char}

theorem mem_char_range {low high : Char} (ascii : high.toNat < 128) (c : Char) :
    c ∈ charRange low high ↔ low ≤ c ∧ c ≤ high := by
  rw [charRange, List.mem_filter, Bool.and_eq_true, decide_eq_true_eq, decide_eq_true_eq,
    and_iff_right_of_imp]
  intro between
  have small : c.toNat ≤ high.toNat := between.2
  exact List.mem_map.mpr ⟨c.toNat, List.mem_range.mpr (by omega), c.ofNat_toNat⟩

theorem mem_one_of : text ∈ (oneOf chars).matches' ↔ ∃ c ∈ chars, text = [c] := by
  induction chars with
  | nil => simp [oneOf]
  | cons c chars induction =>
      have split : oneOf (c :: chars) = .char c + oneOf chars := rfl
      have one : text ∈ (RegularExpression.char c).matches' ↔ text = [c] := Iff.rfl
      rw [split, matches'_add, Language.mem_add, induction, one]
      simp

theorem mem_one_of_star : text ∈ (oneOf chars).star.matches' ↔ ∀ c ∈ text, c ∈ chars := by
  rw [matches'_star, Language.mem_kstar]
  constructor
  · rintro ⟨pieces, rfl, each⟩ c member
    obtain ⟨piece, inside, here⟩ := List.mem_flatten.mp member
    obtain ⟨d, listed, rfl⟩ := mem_one_of.mp (each piece inside)
    rwa [List.mem_singleton.mp here]
  · intro all
    refine ⟨text.map fun c => [c], (List.flatMap_singleton' text).symm, ?_⟩
    intro piece inside
    obtain ⟨c, member, rfl⟩ := List.mem_map.mp inside
    exact mem_one_of.mpr ⟨c, all c member, rfl⟩

theorem mem_optional :
    text ∈ (optional expression).matches' ↔ text = [] ∨ text ∈ expression.matches' := by
  rw [optional, matches'_add, Language.mem_add, matches'_epsilon, Language.mem_one]

theorem mem_comp {first second : RegularExpression Char} : text ∈ (first * second).matches' ↔
    ∃ front ∈ first.matches', ∃ back ∈ second.matches', front ++ back = text := by
  rw [matches'_mul, Language.mem_mul]

theorem join_parts (separator : Char) (first : Text) (parts : List Text) :
    [separator].intercalate (first :: parts) = first ++ (parts.map (separator :: ·)).flatten := by
  induction parts generalizing first with
  | nil => simp
  | cons second parts induction =>
      rw [List.intercalate_cons_cons, induction]
      simp

theorem mem_joined {separator : Char} :
    text ∈ (expression * (.char separator * expression).star).matches' ↔
      ∃ parts, parts ≠ [] ∧ (∀ part ∈ parts, part ∈ expression.matches') ∧
        text = [separator].intercalate parts := by
  rw [mem_comp]
  constructor
  · rintro ⟨first, isFirst, rest, isRest, rfl⟩
    rw [matches'_star, Language.mem_kstar] at isRest
    obtain ⟨pieces, rfl, each⟩ := isRest
    have split : ∀ piece ∈ pieces, ∃ part ∈ expression.matches', separator :: part = piece := by
      intro piece inside
      obtain ⟨front, isFront, part, isPart, rfl⟩ := mem_comp.mp (each piece inside)
      rw [matches'_char] at isFront
      exact ⟨part, isPart, by rw [Set.mem_singleton_iff.mp isFront]; rfl⟩
    have parts : ∃ parts : List Text, (∀ part ∈ parts, part ∈ expression.matches') ∧
        parts.map (separator :: ·) = pieces := by
      clear each
      induction pieces with
      | nil => exact ⟨[], by simp, rfl⟩
      | cons piece pieces induction =>
          obtain ⟨here, others⟩ := List.forall_mem_cons.mp split
          obtain ⟨part, isPart, rfl⟩ := here
          obtain ⟨parts, areParts, rfl⟩ := induction others
          exact ⟨part :: parts, List.forall_mem_cons.mpr ⟨isPart, areParts⟩, rfl⟩
    obtain ⟨parts, areParts, rfl⟩ := parts
    exact ⟨first :: parts, by simp, List.forall_mem_cons.mpr ⟨isFirst, areParts⟩,
      (join_parts separator first parts).symm⟩
  · rintro ⟨parts, some, each, rfl⟩
    cases parts with
    | nil => exact absurd rfl some
    | cons first parts =>
        obtain ⟨isFirst, others⟩ := List.forall_mem_cons.mp each
        refine ⟨first, isFirst, _, ?_, (join_parts separator first parts).symm⟩
        rw [matches'_star]
        apply Language.join_mem_kstar
        intro piece inside
        obtain ⟨part, member, rfl⟩ := List.mem_map.mp inside
        exact mem_comp.mpr ⟨[separator], Set.mem_singleton _, part, others part member, rfl⟩

end Classes

/-! ## Basic expressions -/

inductive Token where
  | any
  | literal (c : Char)
  | star
  | last
  deriving DecidableEq

/-- The elements of an expression, unless there is one of those left out here. -/
def lex : Text → Option (List Token)
  | [] => some []
  | ['$'] => some [.last]
  | ['\\'] => none
  | '\\' :: c :: rest =>
      if ".[\\*^$".toList.contains c then (lex rest).map (.literal c :: ·) else none
  | c :: rest =>
      if c = '[' then none
      else (lex rest).map
        ((if c = '.' then .any else if c = '*' then .star else .literal c) :: ·)

/-- What one character may be, and whether it may stand any number of times. -/
structure Piece where
  only : Option Char
  starred : Bool := false
  deriving DecidableEq

def Piece.admits (piece : Piece) (c : Char) : Bool := piece.only.all (· == c)

/-- The pieces, and whether the expression ends in an anchor. -/
def assemble : List Token → Option (List Piece × Bool)
  | [] => some ([], false)
  | .last :: _ => some ([], true)
  | .star :: _ => none
  | .any :: .star :: rest => (assemble rest).map fun p => ({ only := none, starred := true } :: p.1, p.2)
  | .literal c :: .star :: rest =>
      (assemble rest).map fun p => ({ only := some c, starred := true } :: p.1, p.2)
  | .any :: rest => (assemble rest).map fun p => ({ only := none } :: p.1, p.2)
  | .literal c :: rest => (assemble rest).map fun p => ({ only := some c } :: p.1, p.2)

structure Basic where
  anchored : Bool
  pieces : List Piece
  ended : Bool
  deriving DecidableEq

/-- A star that nothing stands before is a character like others. -/
def parse (expression : Text) : Option Basic :=
  let anchored := expression.head? == some '^'
  (lex (if anchored then expression.drop 1 else expression)).bind fun tokens =>
    (assemble (if tokens.head? = some .star then .literal '*' :: tokens.drop 1 else tokens)).map
      fun p => { anchored, pieces := p.1, ended := p.2 }

def matchPieces (ended : Bool) : List Piece → Text → Bool
  | [], text => !ended || text.isEmpty
  | piece :: pieces, text =>
      if piece.starred then
        (List.range (text.length + 1)).any fun n =>
          (text.take n).all piece.admits && matchPieces ended pieces (text.drop n)
      else
        match text with
        | c :: rest => piece.admits c && matchPieces ended pieces rest
        | [] => false

def Basic.matches (expression : Basic) (text : Text) : Bool :=
  if expression.anchored then matchPieces expression.ended expression.pieces text
  else text.tails.any (matchPieces expression.ended expression.pieces)

/-- The text of an expression matches somewhere in a text. -/
def basicMatches (expression text : Text) : Bool := (parse expression).any (Basic.matches · text)

section Literal

/-- The characters of a basic expression that stand for themselves. -/
def isOrdinary (c : Char) : Bool := !"\\.[*^$".toList.contains c

variable {text : Text}

theorem lex_escaped (plain : ∀ c ∈ text, c = '.' ∨ isOrdinary c = true) :
    lex (text.flatMap (fun c => if c = '.' then ['\\', '.'] else [c]) ++ ['$']) =
      some (text.map Token.literal ++ [.last]) := by
  induction text with
  | nil => rfl
  | cons c text induction =>
      obtain ⟨first, others⟩ := List.forall_mem_cons.mp plain
      have later := induction others
      rw [List.flatMap_cons, List.append_assoc]
      by_cases dot : c = '.'
      · rw [if_pos dot, List.cons_append, List.cons_append, List.nil_append, lex, if_pos (by decide),
          later, dot]
        rfl
      · have ordinary := first.resolve_left dot
        simp only [isOrdinary, String.reduceToList, List.contains_eq_mem, List.mem_cons,
          List.not_mem_nil, or_false, Bool.not_eq_true', decide_eq_false_iff_not, not_or] at ordinary
        obtain ⟨back, -, bracket, star, -, dollar⟩ := ordinary
        rw [if_neg dot, List.singleton_append, lex.eq_def]
        split
        · rename_i none
          cases none
        · rename_i same
          exact absurd (List.cons.inj same).1 dollar
        · rename_i same
          exact absurd (List.cons.inj same).1 back
        · rename_i same
          exact absurd (List.cons.inj same).1 back
        · rename_i same
          obtain ⟨rfl, rfl⟩ := List.cons.inj same
          rw [if_neg bracket, if_neg dot, if_neg star, later]
          rfl

theorem assemble_literals (text : Text) : assemble (text.map Token.literal ++ [.last]) =
    some (text.map fun c => { only := some c }, true) := by
  induction text with
  | nil => rfl
  | cons c text induction =>
      have next : (text.map Token.literal ++ [Token.last]).head? ≠ some .star := by
        cases text <;> simp
      rw [List.map_cons, List.cons_append, assemble.eq_def]
      split
      · rename_i none
        cases none
      · rename_i same
        cases same
      · rename_i same
        cases same
      · rename_i same
        cases same
      · rename_i same
        obtain ⟨-, tail⟩ := List.cons.inj same
        rw [tail] at next
        exact absurd rfl next
      · rename_i same
        cases same
      · rename_i same
        obtain ⟨one, rfl⟩ := List.cons.inj same
        cases one
        rw [induction]
        rfl

theorem match_literals (text other : Text) :
    matchPieces true (text.map fun c => { only := some c }) other = decide (other = text) := by
  induction text generalizing other with
  | nil => cases other <;> rfl
  | cons c text induction =>
      cases other with
      | nil => rfl
      | cons d other =>
          rw [List.map_cons, matchPieces, if_neg Bool.false_ne_true]
          simp only [induction, Piece.admits, Option.all_some]
          by_cases same : d = c
          · simp [same]
          · simp [same, Ne.symm same]

/-- Anchored on both sides and with its dots escaped, a text matches itself only. -/
theorem escaped_matches (plain : ∀ c ∈ text, c = '.' ∨ isOrdinary c = true) (other : Text) :
    basicMatches ('^' :: (text.flatMap (fun c => if c = '.' then ['\\', '.'] else [c]) ++ ['$'])) other =
      decide (other = text) := by
  have first : (text.map Token.literal ++ [Token.last]).head? ≠ some .star := by
    cases text <;> simp
  have parsed : parse ('^' :: (text.flatMap (fun c => if c = '.' then ['\\', '.'] else [c]) ++ ['$'])) =
      some { anchored := true, pieces := text.map fun c => { only := some c }, ended := true } := by
    simp only [parse, List.head?_cons, beq_self_eq_true, if_true, List.drop_succ_cons, List.drop_zero,
      lex_escaped plain, Option.bind_some, if_neg first, assemble_literals, Option.map_some]
  rw [basicMatches, parsed]
  exact match_literals text other

end Literal

end PosixRegex
