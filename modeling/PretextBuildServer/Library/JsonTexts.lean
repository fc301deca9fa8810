import Mathlib.Data.List.Basic
import Mathlib.Data.Nat.Digits.Defs
import Mathlib.Tactic.Common

/-!
# JSON as it is written and read

`dumps` writes a value, `loads` reads one, in the manner of Python's `json`: with
the separators and the choice of plain or escaped characters as parameters, with
surrogate pairs for what lies beyond the basic plane, and with white space
wherever a reader allows it. Numbers with a fraction or an exponent are not
values here, and a text with a lone surrogate is refused.
-/

namespace JsonTexts

set_option autoImplicit false

inductive Json where
  | null
  | bool (value : Bool)
  | int (value : Int)
  | text (value : String)
  | list (items : List Json)
  | object (members : List (String × Json))

/-- How values are written: what stands between items and behind a key, and
whether all that is not ASCII is escaped. -/
structure Layout where
  itemSeparator : List Char
  keySeparator : List Char
  ensureAscii : Bool

/-- What `json.dumps` does unless told otherwise. -/
def defaultLayout : Layout where
  itemSeparator := [',', ' ']
  keySeparator := [':', ' ']
  ensureAscii := true

/-- No blanks, and characters as they are. -/
def compactLayout : Layout where
  itemSeparator := [',']
  keySeparator := [':']
  ensureAscii := false

/-! ## Characters -/

def hexDigit (n : Nat) : Char := "0123456789abcdef".toList.getD n '0'

def hexValue (c : Char) : Option Nat :=
  if '0' ≤ c ∧ c ≤ '9' then some (c.toNat - 48)
  else if 'a' ≤ c ∧ c ≤ 'f' then some (c.toNat - 87)
  else if 'A' ≤ c ∧ c ≤ 'F' then some (c.toNat - 55)
  else none

def hexFour (n : Nat) : List Char :=
  [hexDigit (n / 4096 % 16), hexDigit (n / 256 % 16), hexDigit (n / 16 % 16), hexDigit (n % 16)]

def readHexFour (a b c d : Char) : Option Nat := do
  let a ← hexValue a
  let b ← hexValue b
  let c ← hexValue c
  let d ← hexValue d
  return ((a * 16 + b) * 16 + c) * 16 + d

/-- The code units a character is escaped as: itself, or a surrogate pair. -/
def unitsOf (c : Char) : List Nat :=
  if c.toNat < 0x10000 then [c.toNat]
  else [0xD800 + (c.toNat - 0x10000) / 0x400, 0xDC00 + (c.toNat - 0x10000) % 0x400]

def isHigh (unit : Nat) : Bool := 0xD800 ≤ unit && unit ≤ 0xDBFF

def isLow (unit : Nat) : Bool := 0xDC00 ≤ unit && unit ≤ 0xDFFF

def toChar (point : Nat) : Option Char :=
  if point.isValidChar then some (Char.ofNat point) else none

/-- Join surrogate pairs; a lone surrogate is no character. -/
def joinUnits : List Nat → Option (List Char)
  | [] => some []
  | [unit] => (toChar unit).map ([·])
  | high :: low :: rest =>
      if isHigh high && isLow low then do
        let c ← toChar (0x10000 + (high - 0xD800) * 0x400 + (low - 0xDC00))
        return c :: (← joinUnits rest)
      else do
        let c ← toChar high
        return c :: (← joinUnits (low :: rest))

/-- The short escapes, by the letter behind the backslash. -/
def shortEscape : Char → Option Nat
  | '"' => some 34
  | '\\' => some 92
  | '/' => some 47
  | 'b' => some 8
  | 'f' => some 12
  | 'n' => some 10
  | 'r' => some 13
  | 't' => some 9
  | _ => none

/-- The letter of a character that has a short escape. -/
def shortLetter (c : Char) : Option Char :=
  if c = '"' then some '"'
  else if c = '\\' then some '\\'
  else if c = '\n' then some 'n'
  else if c = '\r' then some 'r'
  else if c = '\t' then some 't'
  else if c.toNat = 12 then some 'f'
  else if c.toNat = 8 then some 'b'
  else none

def isPlain (ascii : Bool) (c : Char) : Bool := 32 ≤ c.toNat && (!ascii || c.toNat ≤ 126)

def escape (ascii : Bool) (c : Char) : List Char :=
  match shortLetter c with
  | some letter => ['\\', letter]
  | none =>
      if isPlain ascii c then [c]
      else (unitsOf c).flatMap fun unit => '\\' :: 'u' :: hexFour unit

def dumpsText (ascii : Bool) (text : String) : List Char :=
  '"' :: (text.toList.flatMap (escape ascii) ++ ['"'])

/-- The code units up to the closing quote, and what follows it. -/
def readUnits : List Char → Option (List Nat × List Char)
  | [] => none
  | '"' :: rest => some ([], rest)
  | '\\' :: 'u' :: a :: b :: c :: d :: rest => do
      let unit ← readHexFour a b c d
      let (units, rest) ← readUnits rest
      return (unit :: units, rest)
  | '\\' :: letter :: rest => do
      let unit ← shortEscape letter
      let (units, rest) ← readUnits rest
      return (unit :: units, rest)
  | c :: rest =>
      if c = '\\' ∨ c.toNat < 32 then none
      else do
        let (units, rest) ← readUnits rest
        return (c.toNat :: units, rest)

/-- A text, behind its opening quote. -/
def readText (input : List Char) : Option (String × List Char) := do
  let (units, rest) ← readUnits input
  let text ← joinUnits units
  return (String.ofList text, rest)

/-! ## Numbers -/

/-- `str` of an integer. -/
def decimal : Int → List Char
  | .ofNat n => Nat.toDigits 10 n
  | .negSucc n => '-' :: Nat.toDigits 10 (n + 1)

/-- The digits at the head of the input. Nothing follows a leading zero. -/
def leadingDigits : List Char → List Char
  | '0' :: _ => ['0']
  | input => input.takeWhile Char.isDigit

/-- What looks like a fraction or an exponent is not read. -/
def readNatural (input : List Char) : Option (Nat × List Char) :=
  let digits := leadingDigits input
  let rest := input.drop digits.length
  if digits = [] ∨ rest.head?.any (fun c => c = '.' || c = 'e' || c = 'E') then none
  else some (Nat.ofDigitChars 10 digits 0, rest)

def readInt : List Char → Option (Json × List Char)
  | '-' :: rest => (readNatural rest).map fun (n, rest) => (.int (-n), rest)
  | input => (readNatural input).map fun (n, rest) => (.int n, rest)

/-! ## Values -/

mutual

def dumps (layout : Layout) : Json → List Char
  | .null => ['n', 'u', 'l', 'l']
  | .bool true => ['t', 'r', 'u', 'e']
  | .bool false => ['f', 'a', 'l', 's', 'e']
  | .int value => decimal value
  | .text value => dumpsText layout.ensureAscii value
  | .list items => '[' :: dumpsItems layout items
  | .object members => '{' :: dumpsMembers layout members

def dumpsItems (layout : Layout) : List Json → List Char
  | [] => [']']
  | [item] => dumps layout item ++ [']']
  | item :: next :: rest =>
      dumps layout item ++ layout.itemSeparator ++ dumpsItems layout (next :: rest)

def dumpsMembers (layout : Layout) : List (String × Json) → List Char
  | [] => ['}']
  | [(key, value)] =>
      dumpsText layout.ensureAscii key ++ layout.keySeparator ++ dumps layout value ++ ['}']
  | (key, value) :: next :: rest =>
      dumpsText layout.ensureAscii key ++ layout.keySeparator ++ dumps layout value ++
        layout.itemSeparator ++ dumpsMembers layout (next :: rest)

end

def skipSpace (input : List Char) : List Char :=
  input.dropWhile fun c => c = ' ' || c = '\t' || c = '\n' || c = '\r'

mutual

/-- One value at the head of the input. The fuel bounds the depth of calls. -/
def readValue : Nat → List Char → Option (Json × List Char)
  | 0, _ => none
  | fuel + 1, input =>
      match input with
      | '"' :: rest => (readText rest).map fun (text, rest) => (.text text, rest)
      | '[' :: rest =>
          match skipSpace rest with
          | ']' :: rest => some (.list [], rest)
          | rest => (readItems fuel rest).map fun (items, rest) => (.list items, rest)
      | '{' :: rest =>
          match skipSpace rest with
          | '}' :: rest => some (.object [], rest)
          | rest => (readMembers fuel rest).map fun (members, rest) => (.object members, rest)
      | 'n' :: 'u' :: 'l' :: 'l' :: rest => some (.null, rest)
      | 't' :: 'r' :: 'u' :: 'e' :: rest => some (.bool true, rest)
      | 'f' :: 'a' :: 'l' :: 's' :: 'e' :: rest => some (.bool false, rest)
      | input => readInt input

def readItems : Nat → List Char → Option (List Json × List Char)
  | 0, _ => none
  | fuel + 1, input => do
      let (item, rest) ← readValue fuel input
      match skipSpace rest with
      | ']' :: rest => return ([item], rest)
      | ',' :: rest => do
          let (items, rest) ← readItems fuel (skipSpace rest)
          return (item :: items, rest)
      | _ => none

def readMembers : Nat → List Char → Option (List (String × Json) × List Char)
  | 0, _ => none
  | fuel + 1, input =>
      match input with
      | '"' :: rest => do
          let (key, rest) ← readText rest
          match skipSpace rest with
          | ':' :: rest => do
              let (value, rest) ← readValue fuel (skipSpace rest)
              match skipSpace rest with
              | '}' :: rest => return ([(key, value)], rest)
              | ',' :: rest => do
                  let (members, rest) ← readMembers fuel (skipSpace rest)
                  return ((key, value) :: members, rest)
              | _ => none
          | _ => none
      | _ => none

end

/-- One value with nothing but white space around it. -/
def loads (input : List Char) : Option Json :=
  match readValue (2 * input.length + 2) (skipSpace input) with
  | some (value, rest) => if skipSpace rest = [] then some value else none
  | none => none

example : loads (dumps defaultLayout (.list [.text "a\"b", .int (-12), .null])) matches
    some (.list [.text "a\"b", .int (-12), .null]) := by decide

/-! ## Characters read back -/

theorem hexValue_hexDigit : ∀ n < 16, hexValue (hexDigit n) = some n := by decide

theorem readHexFour_digits (n : Nat) (small : n < 65536) :
    readHexFour (hexDigit (n / 4096 % 16)) (hexDigit (n / 256 % 16)) (hexDigit (n / 16 % 16))
      (hexDigit (n % 16)) = some n := by
  have value : ((n / 4096 % 16 * 16 + n / 256 % 16) * 16 + n / 16 % 16) * 16 + n % 16 = n := by
    omega
  simp [readHexFour, hexValue_hexDigit _ (Nat.mod_lt _ (by decide : 0 < 16)), value]

theorem readUnits_hexFour (unit : Nat) (small : unit < 65536) (rest : List Char) :
    readUnits ('\\' :: 'u' :: (hexFour unit ++ rest)) =
      (readUnits rest).map fun (units, rest) => (unit :: units, rest) := by
  simp only [hexFour, List.cons_append, List.nil_append, readUnits,
    readHexFour_digits unit small]
  cases readUnits rest <;> rfl

/-- What a character is read back as, before pairs are joined. -/
def written (ascii : Bool) (c : Char) : List Nat :=
  if (shortLetter c).isSome || isPlain ascii c then [c.toNat] else unitsOf c

theorem units_small (c : Char) : ∀ unit ∈ unitsOf c, unit < 65536 := by
  have valid : c.toNat < 0x110000 := by
    have := c.valid
    simp only [UInt32.isValidChar, Nat.isValidChar] at this
    change c.val.toNat < _
    omega
  intro unit mem
  simp only [unitsOf] at mem
  split at mem
  · simp only [List.mem_singleton] at mem
    omega
  · simp only [List.mem_cons, List.not_mem_nil, or_false] at mem
    omega

theorem readUnits_escaped : ∀ units : List Nat, (∀ unit ∈ units, unit < 65536) →
    ∀ rest, readUnits ((units.flatMap fun unit => '\\' :: 'u' :: hexFour unit) ++ rest) =
      (readUnits rest).map fun (read, rest) => (units ++ read, rest)
  | [], _, rest => by
      rw [List.flatMap_nil, List.nil_append]
      cases readUnits rest <;> rfl
  | unit :: units, small, rest => by
      have ih := readUnits_escaped units (fun u mem => small u (List.mem_cons_of_mem _ mem)) rest
      simp only [List.flatMap_cons, List.cons_append, List.append_assoc]
      rw [readUnits_hexFour unit (small unit List.mem_cons_self), ih, Option.map_map]
      rfl

theorem readUnits_plain (c : Char) (rest : List Char) (quote : c ≠ '"') (slash : c ≠ '\\')
    (printable : 32 ≤ c.toNat) :
    readUnits (c :: rest) = (readUnits rest).map fun (units, rest) => (c.toNat :: units, rest) := by
  have refused : ¬ (c = '\\' ∨ c.toNat < 32) := by
    rintro (isSlash | control)
    · exact slash isSlash
    · exact absurd printable (by omega)
  rw [readUnits, if_neg refused]
  · cases readUnits rest <;> rfl
  · exact fun isQuote => absurd isQuote quote
  · exact fun _ _ _ _ _ isSlash => absurd isSlash slash
  · exact fun _ _ isSlash => absurd isSlash slash

theorem shortEscape_shortLetter (c letter : Char) (short : shortLetter c = some letter) :
    shortEscape letter = some c.toNat ∧ letter ≠ 'u' := by
  simp only [shortLetter] at short
  split_ifs at short with h h h h h h h
  all_goals
    obtain rfl := Option.some.inj short
    first
    | subst h; exact ⟨rfl, by decide⟩
    | rw [h]; exact ⟨rfl, by decide⟩

theorem readUnits_short (letter : Char) (unit : Nat) (rest : List Char)
    (short : shortEscape letter = some unit) (other : letter ≠ 'u') :
    readUnits ('\\' :: letter :: rest) =
      (readUnits rest).map fun (units, rest) => (unit :: units, rest) := by
  rw [readUnits, short]
  · cases readUnits rest <;> rfl
  · exact fun _ _ _ _ _ isLetter => absurd isLetter other

theorem readUnits_escape (ascii : Bool) (c : Char) (rest : List Char) :
    readUnits (escape ascii c ++ rest) =
      (readUnits rest).map fun (units, rest) => (written ascii c ++ units, rest) := by
  simp only [escape, written]
  cases short : shortLetter c with
  | some letter =>
      obtain ⟨reads, other⟩ := shortEscape_shortLetter c letter short
      exact readUnits_short letter _ rest reads other
  | none =>
      simp only [Option.isSome_none, Bool.false_or]
      split
      · next plain =>
          have quote : c ≠ '"' := by
            rintro rfl
            simp [shortLetter] at short
          have slash : c ≠ '\\' := by
            rintro rfl
            simp [shortLetter] at short
          simp only [isPlain, Bool.and_eq_true, decide_eq_true_eq] at plain
          exact readUnits_plain c rest quote slash plain.1
      · exact readUnits_escaped _ (units_small c) rest

theorem readUnits_flatMap (ascii : Bool) (rest : List Char) : ∀ text : List Char,
    readUnits (text.flatMap (escape ascii) ++ '"' :: rest) =
      some (text.flatMap (written ascii), rest)
  | [] => rfl
  | c :: text => by
      rw [List.flatMap_cons, List.append_assoc, readUnits_escape,
        readUnits_flatMap ascii rest text]
      rfl

theorem toChar_toNat (c : Char) : toChar c.toNat = some c := by
  have valid : c.toNat.isValidChar := c.valid
  simp [toChar, valid]

theorem joinUnits_single (unit : Nat) (units : List Nat) (single : isHigh unit = false) :
    joinUnits (unit :: units) = do
      let c ← toChar unit
      return c :: (← joinUnits units) := by
  cases units with
  | nil => simp only [joinUnits]; cases toChar unit <;> rfl
  | cons low rest => simp [joinUnits, single]

theorem joinUnits_of_char (c : Char) (units : List Nat) :
    joinUnits (c.toNat :: units) = (joinUnits units).map (c :: ·) := by
  have single : isHigh c.toNat = false := by
    have := c.valid
    simp only [UInt32.isValidChar, Nat.isValidChar] at this
    change _ ∨ _ at this
    have toNat : c.toNat = c.val.toNat := rfl
    simp only [isHigh, Bool.and_eq_false_iff, decide_eq_false_iff_not, toNat]
    omega
  rw [joinUnits_single _ _ single, toChar_toNat]
  cases joinUnits units <;> rfl

theorem joinUnits_pair (c : Char) (units : List Nat) (wide : ¬ c.toNat < 0x10000) :
    joinUnits (unitsOf c ++ units) = (joinUnits units).map (c :: ·) := by
  have valid : c.toNat < 0x110000 := by
    have := c.valid
    simp only [UInt32.isValidChar, Nat.isValidChar] at this
    change c.val.toNat < _
    omega
  have high : isHigh (0xD800 + (c.toNat - 0x10000) / 0x400) = true := by
    simp only [isHigh, Bool.and_eq_true, decide_eq_true_eq]
    omega
  have low : isLow (0xDC00 + (c.toNat - 0x10000) % 0x400) = true := by
    simp only [isLow, Bool.and_eq_true, decide_eq_true_eq]
    omega
  have back : 0x10000 + (0xD800 + (c.toNat - 0x10000) / 0x400 - 0xD800) * 0x400 +
      (0xDC00 + (c.toNat - 0x10000) % 0x400 - 0xDC00) = c.toNat := by
    omega
  simp only [unitsOf, if_neg wide, List.cons_append, List.nil_append, joinUnits, high, low,
    Bool.and_true, ↓reduceIte, back, toChar_toNat]
  cases joinUnits units <;> rfl

theorem joinUnits_written (ascii : Bool) (c : Char) (units : List Nat) :
    joinUnits (written ascii c ++ units) = (joinUnits units).map (c :: ·) := by
  simp only [written]
  split
  · exact joinUnits_of_char c units
  · by_cases wide : c.toNat < 0x10000
    · rw [unitsOf, if_pos wide]
      exact joinUnits_of_char c units
    · exact joinUnits_pair c units wide

theorem joinUnits_flatMap (ascii : Bool) : ∀ text : List Char,
    joinUnits (text.flatMap (written ascii)) = some text
  | [] => rfl
  | c :: text => by rw [List.flatMap_cons, joinUnits_written, joinUnits_flatMap ascii text]; rfl

theorem readText_dumpsText (ascii : Bool) (text : String) (rest : List Char) :
    readText (text.toList.flatMap (escape ascii) ++ '"' :: rest) = some (text, rest) := by
  simp [readText, readUnits_flatMap, joinUnits_flatMap]

/-! ## Numbers read back -/

/-- What may follow a number. -/
def EndsNumber (rest : List Char) : Prop :=
  ∀ c ∈ rest.head?, c.isDigit = false ∧ c ≠ '.' ∧ c ≠ 'e' ∧ c ≠ 'E'

theorem digits_start (n : Nat) (positive : 0 < n) :
    ∃ c tail, Nat.toDigits 10 n = c :: tail ∧ c ≠ '0' := by
  induction n using Nat.strongRecOn with
  | _ n ih =>
      by_cases small : n < 10
      · refine ⟨n.digitChar, [], Nat.toDigits_of_lt_base small, ?_⟩
        have all : ∀ n < 10, 0 < n → n.digitChar ≠ '0' := by decide
        exact all n small positive
      · obtain ⟨c, tail, starts, nonzero⟩ := ih (n / 10) (by omega) (by omega)
        refine ⟨c, tail ++ [(n % 10).digitChar], ?_, nonzero⟩
        rw [Nat.toDigits_of_base_le (by decide) (by omega), starts]
        rfl

theorem takeWhile_digits (n : Nat) (rest : List Char) (ends : EndsNumber rest) :
    (Nat.toDigits 10 n ++ rest).takeWhile Char.isDigit = Nat.toDigits 10 n := by
  have stops : rest.takeWhile Char.isDigit = [] := by
    cases rest with
    | nil => rfl
    | cons c rest => simp [(ends c rfl).1]
  rw [List.takeWhile_append_of_pos
    fun c mem => Nat.isDigit_of_mem_toDigits (by decide) (by decide) mem, stops, List.append_nil]

theorem leadingDigits_digits (n : Nat) (rest : List Char) (ends : EndsNumber rest) :
    leadingDigits (Nat.toDigits 10 n ++ rest) = Nat.toDigits 10 n := by
  rcases Nat.eq_zero_or_pos n with rfl | positive
  · rfl
  · obtain ⟨c, tail, starts, nonzero⟩ := digits_start n positive
    have whole := takeWhile_digits n rest ends
    rw [starts, List.cons_append] at whole ⊢
    rw [leadingDigits, whole]
    exact fun _ isZero => nonzero (List.cons.inj isZero).1

theorem readNatural_digits (n : Nat) (rest : List Char) (ends : EndsNumber rest) :
    readNatural (Nat.toDigits 10 n ++ rest) = some (n, rest) := by
  have follows : rest.head?.any (fun c => c = '.' || c = 'e' || c = 'E') = false := by
    cases rest with
    | nil => rfl
    | cons c rest =>
        obtain ⟨-, dot, small, large⟩ := ends c rfl
        simp [dot, small, large]
  simp [readNatural, leadingDigits_digits n rest ends, follows, Nat.toDigits_ne_nil,
    Nat.ofDigitChars_ten_toDigits]

/-- A number starts with a sign or a digit. -/
def StartsNumber (c : Char) : Prop := c = '-' ∨ c.isDigit = true

instance (c : Char) : Decidable (StartsNumber c) :=
  inferInstanceAs (Decidable (c = '-' ∨ c.isDigit = true))

theorem decimal_starts (value : Int) : ∃ c tail, decimal value = c :: tail ∧ StartsNumber c := by
  cases value with
  | ofNat n =>
      obtain ⟨c, tail, digits⟩ := List.exists_cons_of_ne_nil (Nat.toDigits_ne_nil (n := n) (b := 10))
      refine ⟨c, tail, digits, .inr ?_⟩
      exact Nat.isDigit_of_mem_toDigits (b := 10) (n := n) (by decide) (by decide) (by simp [digits])
  | negSucc n => exact ⟨'-', _, rfl, .inl rfl⟩

theorem readInt_decimal (value : Int) (rest : List Char) (ends : EndsNumber rest) :
    readInt (decimal value ++ rest) = some (.int value, rest) := by
  cases value with
  | ofNat n =>
      have plain : readInt (Nat.toDigits 10 n ++ rest) =
          (readNatural (Nat.toDigits 10 n ++ rest)).map fun (n, rest) => (.int n, rest) := by
        obtain ⟨c, tail, digits⟩ :=
          List.exists_cons_of_ne_nil (Nat.toDigits_ne_nil (n := n) (b := 10))
        have isDigit : c.isDigit = true :=
          Nat.isDigit_of_mem_toDigits (b := 10) (n := n) (by decide) (by decide) (by simp [digits])
        rw [digits, List.cons_append, readInt.eq_def]
        split
        · next heads =>
            rw [(List.cons.inj heads).1] at isDigit
            exact absurd isDigit (by decide)
        · rfl
      rw [decimal, plain, readNatural_digits n rest ends]
      rfl
  | negSucc n =>
      simp only [decimal, List.cons_append, readInt, readNatural_digits _ rest ends]
      rfl

/-! ## Values read back -/

def isWhite (c : Char) : Bool := c = ' ' || c = '\t' || c = '\n' || c = '\r'

def IsBlank (blank : List Char) : Prop := ∀ c ∈ blank, isWhite c = true

/-- A separator is its sign with white space around it. -/
def Separates (sign : Char) (separator : List Char) : Prop :=
  ∃ before after, separator = before ++ sign :: after ∧ IsBlank before ∧ IsBlank after

structure Layout.Readable (layout : Layout) : Prop where
  items : Separates ',' layout.itemSeparator
  keys : Separates ':' layout.keySeparator

theorem skipSpace_blank (blank rest : List Char) (isBlank : IsBlank blank) :
    skipSpace (blank ++ rest) = skipSpace rest :=
  List.dropWhile_append_of_pos isBlank

theorem skipSpace_solid (c : Char) (rest : List Char) (solid : isWhite c = false) :
    skipSpace (c :: rest) = c :: rest :=
  List.dropWhile_cons_of_neg (by simpa [isWhite] using solid)

theorem default_readable : defaultLayout.Readable where
  items := ⟨[], [' '], rfl, by simp [IsBlank], by simp [IsBlank, isWhite]⟩
  keys := ⟨[], [' '], rfl, by simp [IsBlank], by simp [IsBlank, isWhite]⟩

theorem compact_readable : compactLayout.Readable where
  items := ⟨[], [], rfl, by simp [IsBlank], by simp [IsBlank]⟩
  keys := ⟨[], [], rfl, by simp [IsBlank], by simp [IsBlank]⟩

/-- What a written value can start with. -/
def StartsValue (c : Char) : Prop :=
  isWhite c = false ∧ c ≠ ']' ∧ c ≠ '}'

instance (c : Char) : Decidable (StartsValue c) :=
  inferInstanceAs (Decidable (isWhite c = false ∧ c ≠ ']' ∧ c ≠ '}'))

theorem starts_of_number (c : Char) (number : StartsNumber c) : StartsValue c := by
  have digits : ∀ c : Char, c.isDigit = true → 48 ≤ c.toNat ∧ c.toNat ≤ 57 := by
    intro c isDigit
    simp only [Char.isDigit, Bool.and_eq_true, decide_eq_true_eq] at isDigit
    exact ⟨isDigit.1, isDigit.2⟩
  refine ⟨?_, ?_, ?_⟩
  all_goals rcases number with rfl | isDigit
  all_goals first | decide | skip
  · have := digits c isDigit
    simp only [isWhite, Bool.or_eq_false_iff, decide_eq_false_iff_not]
    refine ⟨⟨⟨?_, ?_⟩, ?_⟩, ?_⟩ <;> rintro rfl <;> exact absurd this (by decide)
  · rintro rfl
    exact absurd isDigit (by decide)
  · rintro rfl
    exact absurd isDigit (by decide)

theorem dumps_starts (layout : Layout) (value : Json) :
    ∃ c tail, dumps layout value = c :: tail ∧ StartsValue c := by
  cases value with
  | null => exact ⟨_, _, rfl, by decide⟩
  | bool value => cases value <;> exact ⟨_, _, rfl, by decide⟩
  | int value =>
      obtain ⟨c, tail, starts, number⟩ := decimal_starts value
      exact ⟨c, tail, starts, starts_of_number c number⟩
  | text value => exact ⟨_, _, rfl, by decide⟩
  | list items => exact ⟨_, _, by rw [dumps], by decide⟩
  | object members => exact ⟨_, _, by rw [dumps], by decide⟩

theorem dumpsItems_starts (layout : Layout) (item : Json) (items : List Json) :
    ∃ c tail, dumpsItems layout (item :: items) = c :: tail ∧ StartsValue c := by
  obtain ⟨c, tail, starts, value⟩ := dumps_starts layout item
  cases items with
  | nil => exact ⟨c, tail ++ [']'], by simp [dumpsItems, starts], value⟩
  | cons next rest =>
      exact ⟨c, tail ++ layout.itemSeparator ++ dumpsItems layout (next :: rest),
        by simp [dumpsItems, starts], value⟩

theorem dumpsMembers_starts (layout : Layout) (member : String × Json)
    (members : List (String × Json)) :
    ∃ tail, dumpsMembers layout (member :: members) = '"' :: tail := by
  obtain ⟨key, value⟩ := member
  cases members with
  | nil => exact ⟨_, rfl⟩
  | cons next rest => exact ⟨_, rfl⟩

theorem skip_separator (sign : Char) (separator : List Char) (solid : isWhite sign = false)
    (separates : Separates sign separator) :
    ∃ after, IsBlank after ∧
      ∀ rest, skipSpace (separator ++ rest) = sign :: (after ++ rest) := by
  obtain ⟨before, after, rfl, blank, isBlank⟩ := separates
  refine ⟨after, isBlank, fun rest => ?_⟩
  rw [List.append_assoc, skipSpace_blank before _ blank, List.cons_append,
    skipSpace_solid sign _ solid]

theorem ends_of_blank (c : Char) (rest : List Char) (blank : isWhite c = true) :
    EndsNumber (c :: rest) := by
  simp only [isWhite, Bool.or_eq_true, decide_eq_true_eq] at blank
  rintro _ ⟨⟩
  rcases blank with ((rfl | rfl) | rfl) | rfl <;> decide

theorem ends_separator (separator rest : List Char) (separates : Separates ',' separator) :
    EndsNumber (separator ++ rest) := by
  obtain ⟨before, after, rfl, blank, -⟩ := separates
  cases before with
  | nil =>
      rintro _ ⟨⟩
      decide
  | cons c before => exact ends_of_blank c _ (blank c List.mem_cons_self)

theorem ends_bracket (rest : List Char) : EndsNumber (']' :: rest) := by
  rintro _ ⟨⟩
  decide

theorem ends_brace (rest : List Char) : EndsNumber ('}' :: rest) := by
  rintro _ ⟨⟩
  decide

theorem readValue_number (fuel : Nat) (c : Char) (tail : List Char) (number : StartsNumber c) :
    readValue (fuel + 1) (c :: tail) = readInt (c :: tail) := by
  have apart : ∀ sign : Char, ¬ StartsNumber sign → ∀ rest, c :: tail = sign :: rest → False :=
    fun sign unlike rest heads => unlike ((List.cons.inj heads).1 ▸ number)
  rw [readValue]
  all_goals exact fun _ => apart _ (by decide) _

theorem readValue_list (fuel : Nat) (c : Char) (tail : List Char) (starts : StartsValue c) :
    readValue (fuel + 1) ('[' :: c :: tail) =
      (readItems fuel (c :: tail)).map fun (items, rest) => (.list items, rest) := by
  rw [readValue]
  simp only [skipSpace_solid c tail starts.1]
  split
  · next heads => exact absurd (List.cons.inj heads).1 starts.2.1
  · rfl

theorem readValue_object (fuel : Nat) (tail : List Char) :
    readValue (fuel + 1) ('{' :: '"' :: tail) =
      (readMembers fuel ('"' :: tail)).map fun (members, rest) => (.object members, rest) := by
  rw [readValue]
  rfl

section RoundTrip

variable {layout : Layout}

mutual

theorem readValue_dumps (readable : layout.Readable) :
    ∀ (value : Json) (fuel : Nat) (rest : List Char), EndsNumber rest →
    2 * (dumps layout value).length ≤ fuel →
      readValue fuel (dumps layout value ++ rest) = some (value, rest)
  | .null, fuel + 1, rest, _, _ => rfl
  | .bool true, fuel + 1, rest, _, _ => rfl
  | .bool false, fuel + 1, rest, _, _ => rfl
  | .int value, fuel + 1, rest, ends, _ => by
      obtain ⟨c, tail, starts, number⟩ := decimal_starts value
      have reads := readInt_decimal value rest ends
      rw [dumps]
      rw [starts, List.cons_append] at reads ⊢
      rw [readValue_number fuel c _ number, reads]
  | .text value, fuel + 1, rest, _, _ => by
      rw [dumps, dumpsText, List.cons_append, List.append_assoc, readValue]
      rw [List.singleton_append, readText_dumpsText]
      rfl
  | .list [], fuel + 1, rest, _, _ => by
      rw [dumps, dumpsItems]
      rfl
  | .list (item :: items), fuel + 1, rest, _, enough => by
      obtain ⟨c, tail, starts, value⟩ := dumpsItems_starts layout item items
      rw [dumps, List.length_cons] at enough
      have reads := readItems_dumps readable (item :: items) (by simp) fuel rest (by omega)
      rw [dumps, List.cons_append]
      rw [starts, List.cons_append] at reads ⊢
      rw [readValue_list fuel c _ value, reads]
      rfl
  | .object [], fuel + 1, rest, _, _ => by
      rw [dumps, dumpsMembers]
      rfl
  | .object (member :: members), fuel + 1, rest, _, enough => by
      obtain ⟨tail, starts⟩ := dumpsMembers_starts layout member members
      rw [dumps, List.length_cons] at enough
      have reads := readMembers_dumps readable (member :: members) (by simp) fuel rest (by omega)
      rw [dumps, List.cons_append]
      rw [starts, List.cons_append] at reads ⊢
      rw [readValue_object, reads]
      rfl
  | value, 0, _, _, enough => by
      obtain ⟨c, tail, starts, -⟩ := dumps_starts layout value
      rw [starts, List.length_cons] at enough
      omega

theorem readItems_dumps (readable : layout.Readable) :
    ∀ (items : List Json), items ≠ [] → ∀ (fuel : Nat) (rest : List Char),
    2 * (dumpsItems layout items).length ≤ fuel →
      readItems fuel (dumpsItems layout items ++ rest) = some (items, rest)
  | [], nonempty, _, _, _ => absurd rfl nonempty
  | [item], _, fuel + 1, rest, enough => by
      rw [dumpsItems, List.length_append, List.length_singleton] at enough
      have reads := readValue_dumps readable item fuel (']' :: rest) (ends_bracket rest) (by omega)
      rw [dumpsItems, List.append_assoc, List.singleton_append, readItems, reads]
      rfl
  | item :: next :: items, _, fuel + 1, rest, enough => by
      obtain ⟨c, tail, starts, value⟩ := dumpsItems_starts layout next items
      obtain ⟨after, blank, skips⟩ := skip_separator ',' _ (by decide) readable.items
      have separator : 0 < layout.itemSeparator.length := by
        obtain ⟨before, after, shape, -⟩ := readable.items
        simp [shape]
      rw [dumpsItems, List.length_append, List.length_append] at enough
      have reads := readValue_dumps readable item fuel
        (layout.itemSeparator ++ (dumpsItems layout (next :: items) ++ rest))
        (ends_separator _ _ readable.items) (by omega)
      have others := readItems_dumps readable (next :: items) (by simp) fuel rest (by omega)
      rw [dumpsItems, List.append_assoc, List.append_assoc, readItems, reads]
      simp only [Option.bind_eq_bind, Option.bind_some, skips]
      rw [skipSpace_blank after _ blank]
      rw [starts, List.cons_append] at others ⊢
      rw [skipSpace_solid c _ value.1, others]
      rfl
  | item :: next :: items, _, 0, _, enough => by
      obtain ⟨c, tail, starts, -⟩ := dumpsItems_starts layout item (next :: items)
      rw [starts, List.length_cons] at enough
      omega
  | [item], _, 0, _, enough => by
      obtain ⟨c, tail, starts, -⟩ := dumpsItems_starts layout item []
      rw [starts, List.length_cons] at enough
      omega

theorem readMembers_dumps (readable : layout.Readable) :
    ∀ (members : List (String × Json)), members ≠ [] →
    ∀ (fuel : Nat) (rest : List Char), 2 * (dumpsMembers layout members).length ≤ fuel →
      readMembers fuel (dumpsMembers layout members ++ rest) = some (members, rest)
  | [], nonempty, _, _, _ => absurd rfl nonempty
  | [(key, value)], _, fuel + 1, rest, enough => by
      obtain ⟨c, tail, starts, solid⟩ := dumps_starts layout value
      obtain ⟨after, blank, skips⟩ := skip_separator ':' _ (by decide) readable.keys
      simp only [dumpsMembers, dumpsText, List.length_append, List.length_cons] at enough
      have reads := readValue_dumps readable value fuel ('}' :: rest) (ends_brace rest) (by omega)
      rw [dumpsMembers, dumpsText]
      simp only [List.cons_append, List.append_assoc, List.nil_append]
      rw [readMembers, readText_dumpsText]
      simp only [Option.bind_eq_bind, Option.bind_some, skips]
      rw [skipSpace_blank after _ blank]
      rw [starts, List.cons_append] at reads ⊢
      rw [skipSpace_solid c _ solid.1, reads]
      rfl
  | (key, value) :: next :: members, _, fuel + 1, rest, enough => by
      obtain ⟨c, tail, starts, solid⟩ := dumps_starts layout value
      obtain ⟨others, follows⟩ := dumpsMembers_starts layout next members
      obtain ⟨after, blank, skips⟩ := skip_separator ':' _ (by decide) readable.keys
      obtain ⟨behind, between, passes⟩ := skip_separator ',' _ (by decide) readable.items
      simp only [dumpsMembers, dumpsText, List.length_append, List.length_cons] at enough
      have reads := readValue_dumps readable value fuel
        (layout.itemSeparator ++ (dumpsMembers layout (next :: members) ++ rest))
        (ends_separator _ _ readable.items) (by omega)
      have further := readMembers_dumps readable (next :: members) (by simp) fuel rest (by omega)
      rw [dumpsMembers, dumpsText]
      simp only [List.cons_append, List.append_assoc, List.nil_append]
      rw [readMembers, readText_dumpsText]
      simp only [Option.bind_eq_bind, Option.bind_some, skips]
      rw [skipSpace_blank after _ blank]
      rw [starts, List.cons_append] at reads ⊢
      rw [skipSpace_solid c _ solid.1, reads]
      simp only [Option.bind_some, passes]
      rw [skipSpace_blank behind _ between]
      rw [follows, List.cons_append] at further ⊢
      rw [skipSpace_solid '"' _ (by decide), further]
      rfl
  | member :: members, _, 0, _, enough => by
      obtain ⟨tail, starts⟩ := dumpsMembers_starts layout member members
      rw [starts, List.length_cons] at enough
      omega

end

/-- What is written is read back, whatever the separators and escapes. -/
theorem loads_dumps (readable : layout.Readable) (value : Json) :
    loads (dumps layout value) = some value := by
  obtain ⟨c, tail, starts, solid⟩ := dumps_starts layout value
  have reads := readValue_dumps readable value (2 * (dumps layout value).length + 2) []
    (by rintro _ ⟨⟩) (by omega)
  rw [List.append_nil, starts] at reads
  rw [loads, starts, skipSpace_solid c tail solid.1, reads]
  rfl

end RoundTrip

end JsonTexts
