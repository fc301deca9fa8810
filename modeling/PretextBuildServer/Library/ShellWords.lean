import Mathlib.Data.List.Basic

/-!
# The words of a shell command line

Token recognition of the POSIX shell as a scan, one character a step. The scan
gives up where an expansion begins, so the tokens of a line it accepts are the
words the command gets. `quote` is the inverse: its text is scanned as one word
with the given characters, wherever a word may begin.
-/

namespace ShellWords

set_option autoImplicit false

/-- A character of a word, and whether it was quoted. -/
structure Piece where
  char : Char
  quoted : Bool
  deriving DecidableEq, Repr

abbrev Word := List Piece

/-- The word after quote removal. -/
def textOf (word : Word) : String := String.ofList (word.map Piece.char)

/-- Unquoted, these make a word subject to tilde or pathname expansion. -/
def Piece.expands (piece : Piece) : Bool :=
  !piece.quoted && ['~', '*', '?', '['].contains piece.char

/-- The word stands for its own text. -/
def isLiteral (word : Word) : Bool := word.all fun piece => !piece.expands

inductive Token where
  | word (word : Word)
  | operator (text : List Char)
  deriving DecidableEq, Repr

inductive Mode where
  | plain
  | single
  | double
  | escape
  | doubleEscape
  | comment
  | operator (text : List Char)
  | stuck
  deriving DecidableEq, Repr

/-- The tokens delimited so far, and the word that has been begun. -/
structure Scan where
  tokens : List Token := []
  word : Option Word := none
  mode : Mode := .plain
  deriving DecidableEq, Repr

def Scan.push (scan : Scan) (char : Char) (quoted : Bool) : Scan :=
  { scan with word := some (scan.word.getD [] ++ [{ char, quoted }]) }

def Scan.finishWord (scan : Scan) : Scan :=
  match scan.word with
  | none => scan
  | some word => { scan with tokens := scan.tokens ++ [.word word], word := none }

def Scan.finishOperator (scan : Scan) (text : List Char) : Scan :=
  { scan with tokens := scan.tokens ++ [.operator text], mode := .plain }

def operators : List (List Char) :=
  [['&'], ['&', '&'], ['|'], ['|', '|'], [';'], [';', ';'], ['('], [')'],
    ['<'], ['<', '<'], ['<', '<', '-'], ['<', '&'], ['<', '>'], ['>'], ['>', '>'], ['>', '&'],
    ['>', '|']]

/-- A character outside of quotes. A parameter, a command or an arithmetic
expansion is not followed. -/
def Scan.plainStep (scan : Scan) (c : Char) : Scan :=
  if c = ' ' ∨ c = '\t' then scan.finishWord
  else if c = '\n' then scan.finishWord.finishOperator ['\n']
  else if c = '\'' then { scan with word := some (scan.word.getD []), mode := .single }
  else if c = '"' then { scan with word := some (scan.word.getD []), mode := .double }
  else if c = '\\' then { scan with mode := .escape }
  else if c = '$' ∨ c = '\x60' then { scan with mode := .stuck }
  else if c = '#' ∧ scan.word = none then { scan with mode := .comment }
  else if operators.contains [c] then { scan.finishWord with mode := .operator [c] }
  else scan.push c false

def Scan.step (scan : Scan) (c : Char) : Scan :=
  match scan.mode with
  | .plain => scan.plainStep c
  | .single => if c = '\'' then { scan with mode := .plain } else scan.push c true
  | .double =>
      if c = '"' then { scan with mode := .plain }
      else if c = '\\' then { scan with mode := .doubleEscape }
      else if c = '$' ∨ c = '\x60' then { scan with mode := .stuck }
      else scan.push c true
  | .escape =>
      -- A backslash and a newline are a line continuation.
      if c = '\n' then { scan with mode := .plain }
      else { scan.push c true with mode := .plain }
  | .doubleEscape =>
      if c = '\n' then { scan with mode := .double }
      else if ['$', '\x60', '"', '\\'].contains c then { scan.push c true with mode := .double }
      else { (scan.push '\\' true).push c true with mode := .double }
  | .comment => if c = '\n' then scan.finishOperator ['\n'] else scan
  | .operator text =>
      if operators.contains (text ++ [c]) then { scan with mode := .operator (text ++ [c]) }
      else (scan.finishOperator text).plainStep c
  | .stuck => scan

/-- The tokens of a complete line. -/
def Scan.finish (scan : Scan) : Option (List Token) :=
  match scan.mode with
  | .plain => some scan.finishWord.tokens
  | .comment => some scan.tokens
  | .operator text => some (scan.finishOperator text).tokens
  | .single | .double | .escape | .doubleEscape | .stuck => none

def scanLine (scan : Scan) (line : List Char) : Scan := line.foldl Scan.step scan

/-- `none` if a quotation stays open or an expansion begins. -/
def tokenize (line : List Char) : Option (List Token) := (scanLine {} line).finish

/-! ## Simple commands -/

def controlOperators : List (List Char) :=
  [['&'], ['&', '&'], ['|'], ['|', '|'], [';'], [';', ';'], ['('], [')'], ['\n']]

def reservedWords : List String :=
  ["!", "\x7b", "\x7d", "case", "do", "done", "elif", "else", "esac", "fi", "for", "if", "in", "then",
    "until", "while"]

def isReserved (word : Word) : Bool :=
  word.all (fun piece => !piece.quoted) && reservedWords.contains (textOf word)

def Token.isControl : Token → Bool
  | .word _ => false
  | .operator text => controlOperators.contains text

def addToFirst (token : Token) : List (List Token) → List (List Token)
  | [] => [[token]]
  | first :: others => (token :: first) :: others

/-- What stands between the control operators. -/
def segments : List Token → List (List Token)
  | [] => [[]]
  | token :: rest =>
      if token.isControl then [] :: segments rest else addToFirst token (segments rest)

/-- The words of a segment, without its redirections. -/
def wordsOf : List Token → List Word
  | [] => []
  | .word word :: rest => word :: wordsOf rest
  | .operator _ :: .word _ :: rest => wordsOf rest
  | .operator _ :: rest => wordsOf rest

def simpleCommands (tokens : List Token) : List (List Word) :=
  ((segments tokens).map fun segment => (wordsOf segment).dropWhile isReserved).filter
    fun words => !words.isEmpty

theorem segments_nonempty (tokens : List Token) : segments tokens ≠ [] := by
  cases tokens with
  | nil => simp [segments]
  | cons token rest =>
      unfold segments
      split
      · simp
      · cases segments rest <;> simp [addToFirst]

theorem segments_append (front back : List Token) {token : Token}
    (control : token.isControl = true) :
    segments (front ++ token :: back) = segments front ++ segments back := by
  induction front with
  | nil => simp [segments, control]
  | cons first front induction =>
      rw [List.cons_append, segments, segments, induction]
      split
      · rfl
      · cases before : segments front with
        | nil => exact absurd before (segments_nonempty front)
        | cons segment others => rfl

theorem segments_words (words : List Word) : segments (words.map .word) = [words.map .word] := by
  induction words with
  | nil => rfl
  | cons word words induction =>
      rw [List.map_cons, segments, induction]
      rfl

theorem words_of_words (words : List Word) : wordsOf (words.map .word) = words := by
  induction words with
  | nil => rfl
  | cons word words induction => rw [List.map_cons, wordsOf, induction]

theorem one_command {first : Word} (rest : List Word) (named : isReserved first = false) :
    simpleCommands ((first :: rest).map .word) = [first :: rest] := by
  rw [simpleCommands, segments_words, List.map_singleton, words_of_words,
    List.dropWhile_cons_of_neg (by simp [named])]
  rfl

theorem last_command (front : List Token) {token : Token} (control : token.isControl = true)
    {first : Word} (rest : List Word) (named : isReserved first = false) :
    (simpleCommands (front ++ token :: (first :: rest).map .word)).getLast? =
      some (first :: rest) := by
  have last := one_command rest named
  rw [simpleCommands] at last ⊢
  rw [segments_append front _ control, List.map_append, List.filter_append, last,
    List.getLast?_append]
  rfl

/-! ## Quoting -/

/-- What a word may hold outside of quotes without standing for anything else. -/
def isSafe (c : Char) : Bool :=
  ('a' ≤ c && c ≤ 'z') || ('A' ≤ c && c ≤ 'Z') || ('0' ≤ c && c ≤ '9') ||
    ['_', '@', '%', '+', '=', ':', ',', '.', '/', '-'].contains c

def needsNoQuotes (text : List Char) : Bool := !text.isEmpty && text.all isSafe

/-- A single quote is put between double quotes, all else between single ones. -/
def quoteChar (c : Char) : List Char :=
  if c = '\'' then ['\'', '"', '\'', '"', '\''] else [c]

def quote (text : List Char) : List Char :=
  if needsNoQuotes text then text else '\'' :: text.flatMap quoteChar ++ ['\'']

/-- The word a quoted text is scanned as. -/
def quotedWord (text : List Char) : Word :=
  text.map fun char => { char, quoted := !needsNoQuotes text }

@[simp] theorem text_of_quoted_word (text : List Char) :
    textOf (quotedWord text) = String.ofList text := by
  simp [textOf, quotedWord, Function.comp_def]

theorem not_special {c d : Char} (safe : isSafe c = true)
    (special : isSafe d = false) : ¬ c = d := by
  rintro rfl
  rw [safe] at special
  cases special

theorem safe_step (scan : Scan) (plain : scan.mode = .plain) {c : Char} (safe : isSafe c = true) :
    scan.step c = scan.push c false := by
  have other : ∀ d, isSafe d = false → ¬ c = d := fun _ => not_special safe
  have noOperator : operators.contains [c] = false := by
    simp [operators, other '&' rfl, other '|' rfl, other ';' rfl, other '(' rfl, other ')' rfl,
      other '<' rfl, other '>' rfl]
  unfold Scan.step
  rw [plain]
  simp only [Scan.plainStep, other ' ' rfl, other '\t' rfl, other '\n' rfl, other '\'' rfl,
    other '"' rfl, other '\\' rfl, other '$' rfl, other '\x60' rfl, other '#' rfl, noOperator,
    or_self, false_and, if_false, Bool.false_eq_true]

theorem scan_safe (scan : Scan) (plain : scan.mode = .plain) (word : Word)
    (begun : scan.word = some word) (text : List Char) (safe : text.all isSafe = true) :
    scanLine scan text =
      { scan with word := some (word ++ text.map fun char => { char, quoted := false }) } := by
  induction text generalizing scan word with
  | nil => simp [scanLine, ← begun]
  | cons c text induction =>
      rw [List.all_cons, Bool.and_eq_true] at safe
      have first : scan.step c = { scan with word := some (word ++ [{ char := c, quoted := false }]) } := by
        rw [safe_step scan plain safe.1, Scan.push, begun, Option.getD_some]
      rw [scanLine, List.foldl_cons, first]
      have rest := induction { scan with word := some (word ++ [{ char := c, quoted := false }]) } plain
        _ rfl safe.2
      simpa [scanLine] using rest

theorem scan_quote_char (scan : Scan) (single : scan.mode = .single) (word : Word)
    (begun : scan.word = some word) (c : Char) :
    scanLine scan (quoteChar c) =
      { scan with word := some (word ++ [{ char := c, quoted := true }]) } := by
  obtain ⟨tokens, _, _⟩ := scan
  simp only at single begun
  subst single begun
  unfold quoteChar
  split
  · rename_i same
    subst same
    rfl
  · rename_i other
    simp [scanLine, Scan.step, Scan.push, other]

theorem scan_quoted (scan : Scan) (single : scan.mode = .single) (word : Word)
    (begun : scan.word = some word) (text : List Char) :
    scanLine scan (text.flatMap quoteChar) =
      { scan with word := some (word ++ text.map fun char => { char, quoted := true }) } := by
  induction text generalizing scan word with
  | nil => simp [scanLine, ← begun]
  | cons c text induction =>
      have first := scan_quote_char scan single word begun c
      have rest := induction { scan with word := some (word ++ [{ char := c, quoted := true }]) }
        single _ rfl
      rw [List.flatMap_cons, scanLine, List.foldl_append]
      rw [scanLine] at first rest
      rw [first, rest]
      simp

/-- Wherever a word may begin, a quoted text is scanned as one word. -/
theorem scan_quote (scan : Scan) (plain : scan.mode = .plain) (fresh : scan.word = none)
    (text : List Char) :
    scanLine scan (quote text) = { scan with word := some (quotedWord text) } := by
  unfold quote quotedWord
  cases bare : needsNoQuotes text with
  | true =>
      simp only [if_true, Bool.not_true]
      unfold needsNoQuotes at bare
      cases text with
      | nil => cases bare
      | cons c text =>
          simp only [List.isEmpty_cons, Bool.not_false, Bool.true_and, List.all_cons,
            Bool.and_eq_true] at bare
          have first : scan.step c = { scan with word := some [{ char := c, quoted := false }] } := by
            rw [safe_step scan plain bare.1, Scan.push, fresh]
            rfl
          have rest := scan_safe { scan with word := some [{ char := c, quoted := false }] } plain _
            rfl text bare.2
          rw [scanLine, List.foldl_cons, first]
          exact rest
  | false =>
      simp only [Bool.false_eq_true, if_false, Bool.not_false]
      obtain ⟨tokens, _, _⟩ := scan
      simp only at plain fresh
      subst plain fresh
      have opened : Scan.step { tokens } '\'' = { tokens, word := some [], mode := .single } := rfl
      have filled := scan_quoted { tokens, word := some [], mode := .single } rfl [] rfl text
      rw [List.cons_append, scanLine, List.foldl_cons, opened, List.foldl_append]
      rw [scanLine] at filled
      rw [filled]
      rfl

theorem quoted_word_literal (text : List Char) : isLiteral (quotedWord text) = true := by
  unfold isLiteral quotedWord
  rw [List.all_map, List.all_eq_true]
  intro c member
  cases bare : needsNoQuotes text with
  | false => rfl
  | true =>
      unfold needsNoQuotes at bare
      rw [Bool.and_eq_true, List.all_eq_true] at bare
      have other : ∀ d, isSafe d = false → ¬ c = d := fun _ => not_special (bare.2 c member)
      simp [Piece.expands, other '~' rfl, other '*' rfl, other '?' rfl, other '[' rfl]

theorem scan_blank (scan : Scan) (plain : scan.mode = .plain) (word : Word)
    (begun : scan.word = some word) :
    scan.step ' ' = { scan with tokens := scan.tokens ++ [.word word], word := none } := by
  obtain ⟨tokens, _, _⟩ := scan
  simp only at plain begun
  subst plain begun
  rfl

theorem scan_quoted_words (scan : Scan) (plain : scan.mode = .plain) (fresh : scan.word = none)
    (texts : List (List Char)) :
    scanLine scan ([' '].intercalate (texts.map quote) ++ [' ']) =
      { scan with tokens := scan.tokens ++ texts.map fun text => .word (quotedWord text) } := by
  induction texts generalizing scan with
  | nil =>
      obtain ⟨tokens, _, _⟩ := scan
      simp only at plain fresh
      subst plain fresh
      simp [scanLine, List.intercalate, Scan.step, Scan.plainStep, Scan.finishWord]
  | cons text texts induction =>
      have first := scan_quote scan plain fresh text
      have ended := scan_blank { scan with word := some (quotedWord text) } plain _ rfl
      cases texts with
      | nil =>
          rw [scanLine] at first
          rw [List.map_singleton, List.intercalate_singleton, scanLine, List.foldl_append, first,
            List.foldl_cons, List.foldl_nil, ended]
          simp [fresh]
      | cons next texts =>
          have rest := induction { scan with tokens := scan.tokens ++ [.word (quotedWord text)] } plain
            fresh
          rw [scanLine] at first rest
          rw [List.map_cons, List.map_cons, List.intercalate_cons_cons, ← List.map_cons, scanLine,
            List.append_assoc, List.append_assoc, List.foldl_append, first, List.foldl_append,
            List.foldl_cons, List.foldl_nil, ended]
          simpa [fresh] using rest

end ShellWords
