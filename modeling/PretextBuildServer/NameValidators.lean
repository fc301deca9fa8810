import Mathlib.Data.List.Basic

/-!
# The patterns names are checked against

`re.match` with a pattern that ends in `$` also accepts a text whose last
character is a newline, since `$` matches in front of it. The validators keep
that: they look at the text without one final newline.
-/

namespace PretextBuildServer.NameValidators

set_option autoImplicit false

/-- `str.isspace`, which is also what `\s` matches. -/
def isSpace (c : Char) : Bool :=
  let n := c.toNat
  (9 ≤ n && n ≤ 13) || (28 ≤ n && n ≤ 32) || n == 0x85 || n == 0xa0 || n == 0x1680 ||
    (0x2000 ≤ n && n ≤ 0x200a) || n == 0x2028 || n == 0x2029 || n == 0x202f || n == 0x205f ||
    n == 0x3000

def strip (text : List Char) : List Char :=
  ((text.dropWhile isSpace).reverse.dropWhile isSpace).reverse

/-- `str.rstrip(".")` -/
def rstripDots (text : List Char) : List Char :=
  (text.reverse.dropWhile (· == '.')).reverse

/-- The maximal runs of characters that are not separators. -/
def splitRuns (isSeparator : Char → Bool) : List Char → List (List Char)
  | [] => []
  | c :: rest =>
      if isSeparator c then splitRuns isSeparator rest
      else match rest with
        | [] => [[c]]
        | d :: _ =>
            if isSeparator d then [c] :: splitRuns isSeparator rest
            else match splitRuns isSeparator rest with
              | [] => [[c]]
              | run :: runs => (c :: run) :: runs

/-- A maximal run: not empty, and without a separator. -/
def IsRun (isSeparator : Char → Bool) (run : List Char) : Prop :=
  run ≠ [] ∧ ∀ c ∈ run, isSeparator c = false

theorem split_runs_are_runs (isSeparator : Char → Bool) (text : List Char) :
    ∀ run ∈ splitRuns isSeparator text, IsRun isSeparator run := by
  fun_induction splitRuns isSeparator text with
  | case1 => simp
  | case2 c rest separates induction => exact induction
  | case3 c plain => simpa [IsRun] using plain
  | case4 c plain d rest following induction =>
      exact List.forall_mem_cons.mpr ⟨⟨by simp, by simpa using plain⟩, induction⟩
  | case5 c plain d rest following none induction =>
      rw [none]
      simpa [IsRun] using plain
  | case6 c plain d rest following run runs found induction =>
      rw [found] at induction ⊢
      obtain ⟨first, others⟩ := List.forall_mem_cons.mp induction
      refine List.forall_mem_cons.mpr ⟨⟨by simp, List.forall_mem_cons.mpr ⟨?_, first.2⟩⟩, others⟩
      simpa using plain

/-- One run in front of a separator is split off. -/
theorem split_run (isSeparator : Char → Bool) {run : List Char} (isRun : IsRun isSeparator run)
    {c : Char} (separates : isSeparator c = true) (rest : List Char) :
    splitRuns isSeparator (run ++ c :: rest) = run :: splitRuns isSeparator rest := by
  obtain ⟨nonempty, plain⟩ := isRun
  induction run with
  | nil => exact absurd rfl nonempty
  | cons first run induction =>
      obtain ⟨firstPlain, others⟩ := List.forall_mem_cons.mp plain
      cases run with
      | nil =>
          have following : splitRuns isSeparator (c :: rest) = splitRuns isSeparator rest := by
            rw [splitRuns.eq_def]
            simp only [separates, if_true]
          rw [List.cons_append, List.nil_append, splitRuns.eq_def]
          simp only [firstPlain, separates, Bool.false_eq_true, if_false, if_true, following]
      | cons second run =>
          have later := induction (by simp) others
          rw [List.cons_append] at later
          rw [List.cons_append, List.cons_append, splitRuns.eq_def]
          simp only [firstPlain, others second List.mem_cons_self, Bool.false_eq_true, if_false, later]

theorem split_last_run (isSeparator : Char → Bool) {run : List Char}
    (isRun : IsRun isSeparator run) :
    splitRuns isSeparator run = [run] := by
  obtain ⟨nonempty, plain⟩ := isRun
  induction run with
  | nil => exact absurd rfl nonempty
  | cons first run induction =>
      obtain ⟨firstPlain, others⟩ := List.forall_mem_cons.mp plain
      rw [splitRuns.eq_def]
      cases run with
      | nil => simp only [firstPlain, Bool.false_eq_true, if_false]
      | cons second run =>
          simp only [firstPlain, others second List.mem_cons_self, Bool.false_eq_true, if_false,
            induction (by simp) others]

/-- Runs joined with a separator are split into the same runs. -/
theorem split_joined_runs (isSeparator : Char → Bool) {c : Char} (separates : isSeparator c = true)
    (runs : List (List Char)) (areRuns : ∀ run ∈ runs, IsRun isSeparator run) :
    splitRuns isSeparator ([c].intercalate runs) = runs := by
  induction runs with
  | nil => rfl
  | cons run runs induction =>
      obtain ⟨isRun, others⟩ := List.forall_mem_cons.mp areRuns
      cases runs with
      | nil => rw [List.intercalate_singleton, split_last_run isSeparator isRun]
      | cons next runs =>
          rw [List.intercalate_cons_cons, List.append_assoc, List.singleton_append,
            split_run isSeparator isRun separates, induction others]

/-- `[A-Za-z0-9]` -/
def isAlnum (c : Char) : Bool :=
  ('A' ≤ c && c ≤ 'Z') || ('a' ≤ c && c ≤ 'z') || ('0' ≤ c && c ≤ '9')

/-- `[A-Za-z]` -/
def isLetter (c : Char) : Bool := ('A' ≤ c && c ≤ 'Z') || ('a' ≤ c && c ≤ 'z')

/-- `[A-Za-z0-9_-]` -/
def isSlugChar (c : Char) : Bool := isAlnum c || c == '_' || c == '-'

/-- `[0-9a-f]` -/
def isHexDigit (c : Char) : Bool := ('0' ≤ c && c ≤ '9') || ('a' ≤ c && c ≤ 'f')

def beforeFinalNewline (text : List Char) : List Char :=
  if text.getLast? = some '\n' then text.dropLast else text

/-- `^[A-Za-z0-9][A-Za-z0-9_-]{0,63}$` -/
def matchesProjectId (text : List Char) : Bool :=
  match beforeFinalNewline text with
  | [] => false
  | first :: rest => isAlnum first && rest.all isSlugChar && rest.length ≤ 63

/-- `^[A-Za-z0-9][A-Za-z0-9_-]*$` -/
def matchesSubdirName (text : List Char) : Bool :=
  match beforeFinalNewline text with
  | [] => false
  | first :: rest => isAlnum first && rest.all isSlugChar

/-- `^[A-Za-z][A-Za-z0-9-]*$` -/
def matchesAssetName (text : List Char) : Bool :=
  match beforeFinalNewline text with
  | [] => false
  | first :: rest => isLetter first && rest.all fun c => isAlnum c || c == '-'

/-- `(?:-annotations)?`: no name has two readings, a dot has to follow. -/
def afterAnnotations (text : List Char) : List Char :=
  if "-annotations".toList.isPrefixOf text then text.drop 12 else text

/-- `^[0-9a-f]{32}(?:-annotations)?\.[A-Za-z0-9]+$` -/
def matchesCacheFilename (text : List Char) : Bool :=
  let body := beforeFinalNewline text
  (body.take 32).length == 32 && (body.take 32).all isHexDigit &&
    match afterAnnotations (body.drop 32) with
    | '.' :: extension => extension != [] && extension.all isAlnum
    | _ => false

example : matchesCacheFilename "0123456789abcdef0123456789abcdef-annotations.xml".toList = true := by
  decide

end PretextBuildServer.NameValidators
