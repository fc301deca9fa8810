import PretextBuildServer.NameValidators
import PretextBuildServer.Library.PosixRegex

/-!
# The egress proxy's filter

`entrypoint.sh`, on the value of `EGRESS_ALLOW_HOSTS`. The command substitution
of its loop is not quoted: the shell splits it into fields and then expands
every field against the files that are there.
-/

namespace PretextBuildServer.EgressFilter

open PosixRegex RegularExpression
open PretextBuildServer.NameValidators

set_option autoImplicit false

/-! ## The words of the loop -/

/-- What the shell splits fields at: a space, a tab or a newline. -/
def isBlank (c : Char) : Bool := c == ' ' || c == '\t' || c == '\n'

/-- `$(…)` drops the newlines its output ends in. -/
def substituted (output : Text) : Text := (output.reverse.dropWhile (· == '\n')).reverse

/-- `tr ',' ' '` -/
def commasToSpaces (text : Text) : Text := text.map fun c => if c = ',' then ' ' else c

/-- What a pattern of the shell is told by. -/
def isSpecial (c : Char) : Bool := c == '*' || c == '?' || c == '[' || c == '\\'

/-- Pathname expansion, for some content of the working directory. A word that is
no pattern stays as it is. -/
structure Expansion where
  expand : Text → List Text
  plain : ∀ word, word.any isSpecial = false → expand word = [word]

def hostWords (expansion : Expansion) (value : Text) : List Text :=
  (splitRuns isBlank (substituted (commasToSpaces value))).flatMap expansion.expand

/-! ## The script -/

def alnumChars : List Char := charRange 'A' 'Z' ++ charRange 'a' 'z' ++ charRange '0' '9'

/-- `[A-Za-z0-9]([A-Za-z0-9-]*[A-Za-z0-9])?` -/
def labelPattern : RegularExpression Char :=
  oneOf alnumChars * optional ((oneOf (alnumChars ++ ['-'])).star * oneOf alnumChars)

/-- The pattern of `grep -E`, between its anchors. -/
def hostPattern : RegularExpression Char := labelPattern * (.char '.' * labelPattern).star

/-- The lines of a text; the last one may lack its newline. -/
def textLines (text : Text) : List Text :=
  let lines := text.splitOn '\n'
  if lines.getLast? = some [] then lines.dropLast else lines

/-- `printf '%s' "$host" | grep -Eq …`: some line matches. -/
def grepsHost (host : Text) : Bool := (textLines host).any hostPattern.rmatch

/-- `sed 's/\./\\./g'` -/
def escapeDots (host : Text) : Text := host.flatMap fun c => if c = '.' then ['\\', '.'] else [c]

/-- `printf '^%s$\n' …` -/
def filterLine (host : Text) : Text := '^' :: (substituted (escapeDots host) ++ ['$', '\n'])

/-- The script exits with a message, or runs tinyproxy on a filter file. -/
inductive Ended where
  | exits (status : Nat) (message : String)
  | runsProxy (filter : Text)
  deriving DecidableEq

def invalidHost (host : Text) : String :=
  s!"egress-proxy: invalid host in EGRESS_ALLOW_HOSTS: '{String.ofList host}'"

/-- The loop, with what the filter file holds so far. -/
def addHosts : List Text → Text → Ended
  | [], filter => .runsProxy filter
  | host :: rest, filter =>
      if !grepsHost host then .exits 1 (invalidHost host)
      else addHosts rest (filter ++ filterLine host)

def entrypoint (expansion : Expansion) (value : Text) : Ended :=
  addHosts (hostWords expansion value) []

/-! ## What the filter is for -/

/-- The items of the list: the runs between commas and blanks. -/
def items (value : Text) : List Text := splitRuns (fun c => c == ',' || isBlank c) value

/-- Letters, digits and inner hyphens. -/
structure IsLabel (text : Text) : Prop where
  characters : ∀ c ∈ text, isAlnum c = true ∨ c = '-'
  first : text.head?.any isAlnum = true
  last : text.getLast?.any isAlnum = true

def HostName (text : Text) : Prop :=
  ∃ labels, labels ≠ [] ∧ (∀ label ∈ labels, IsLabel label) ∧ text = ['.'].intercalate labels

/-- With an item that is no host name the script fails; otherwise the items are
what the lines of the filter match. -/
structure FiltersExactly (expansion : Expansion) (value : Text) : Prop where
  refuses : (∃ item ∈ items value, ¬ HostName item) →
    ∃ status message, entrypoint expansion value = .exits status message ∧ status ≠ 0
  admits : (∀ item ∈ items value, HostName item) →
    ∃ filter, entrypoint expansion value = .runsProxy filter ∧
      ∀ host, (∃ line ∈ textLines filter, basicMatches line host = true) ↔ host ∈ items value

/-! ## Words and items -/

theorem split_runs_eq (isSeparator : Char → Bool) (text : Text) :
    splitRuns isSeparator text = (text.splitOnP isSeparator).filter fun run => !run.isEmpty := by
  fun_induction splitRuns isSeparator text with
  | case1 => rfl
  | case2 c rest separates induction =>
      rw [List.splitOnP_cons_eq_if_modifyHead, if_pos separates, induction]
      rfl
  | case3 c plain => simp [List.splitOnP_cons_eq_if_modifyHead, plain]
  | case4 c plain d rest following induction =>
      rw [List.splitOnP_cons_eq_if_modifyHead, if_neg plain, induction,
        List.splitOnP_cons_eq_if_modifyHead, if_pos following]
      rfl
  | case5 c plain d rest following none induction =>
      rw [none, List.splitOnP_cons_eq_if_modifyHead, if_neg following] at induction
      cases parts : rest.splitOnP isSeparator with
      | nil => exact absurd parts (List.splitOnP_ne_nil _ _)
      | cons first others => simp [parts] at induction
  | case6 c plain d rest following run runs found induction =>
      rw [found, List.splitOnP_cons_eq_if_modifyHead, if_neg following] at induction
      rw [List.splitOnP_cons_eq_if_modifyHead, if_neg plain, List.splitOnP_cons_eq_if_modifyHead,
        if_neg following]
      cases parts : rest.splitOnP isSeparator with
      | nil => exact absurd parts (List.splitOnP_ne_nil _ _)
      | cons first others =>
          rw [parts] at induction
          obtain ⟨rfl, rfl⟩ := List.cons.inj induction
          rw [found]
          rfl

theorem split_map {isSeparator other : Char → Bool} {f : Char → Char}
    (same : ∀ c, isSeparator (f c) = other c) (kept : ∀ c, other c = false → f c = c)
    (text : Text) :
    (text.map f).splitOnP isSeparator = text.splitOnP other := by
  induction text with
  | nil => rfl
  | cons c text induction =>
      rw [List.map_cons, List.splitOnP_cons_eq_if_modifyHead, List.splitOnP_cons_eq_if_modifyHead,
        same, induction]
      cases separates : other c with
      | true => rfl
      | false => rw [kept c separates]

theorem split_runs_concat {isSeparator : Char → Bool} {c : Char} (separates : isSeparator c = true)
    (text : Text) : splitRuns isSeparator (text ++ [c]) = splitRuns isSeparator text := by
  rw [split_runs_eq, split_runs_eq, List.splitOnP_append_cons text [] separates, List.filter_append]
  simp

theorem split_runs_substituted {isSeparator : Char → Bool} (separates : isSeparator '\n' = true)
    (text : Text) : splitRuns isSeparator (substituted text) = splitRuns isSeparator text := by
  induction text using List.reverseRecOn with
  | nil => rfl
  | append_singleton text c induction =>
      by_cases newline : c = '\n'
      · rw [newline, split_runs_concat separates, ← induction]
        simp [substituted]
      · simp [substituted, newline]

theorem fields_are_items (value : Text) :
    splitRuns isBlank (substituted (commasToSpaces value)) = items value := by
  rw [split_runs_substituted (by decide), items, split_runs_eq, split_runs_eq]
  congr 1
  apply split_map
  · intro c
    by_cases comma : c = ','
    · rw [if_pos comma, comma]
      decide
    · simp [comma]
  · intro c plain
    rw [Bool.or_eq_false_iff, beq_eq_false_iff_ne] at plain
    rw [if_neg plain.1]

theorem item_plain {value item : Text} (member : item ∈ items value) :
    item ≠ [] ∧ '\n' ∉ item := by
  obtain ⟨nonempty, plain⟩ := split_runs_are_runs _ value item member
  refine ⟨nonempty, fun newline => ?_⟩
  exact absurd (plain '\n' newline) (by decide)

/-! ## The pattern and host names -/

theorem mem_alnum_chars (c : Char) : c ∈ alnumChars ↔ isAlnum c = true := by
  simp only [alnumChars, List.mem_append, mem_char_range (by decide : ('Z' : Char).toNat < 128),
    mem_char_range (by decide : ('z' : Char).toNat < 128),
    mem_char_range (by decide : ('9' : Char).toNat < 128), isAlnum, Bool.or_eq_true, Bool.and_eq_true,
    decide_eq_true_eq]

theorem mem_label (text : Text) : text ∈ labelPattern.matches' ↔ IsLabel text := by
  rw [labelPattern, mem_comp]
  constructor
  · rintro ⟨front, isFront, back, isBack, rfl⟩
    obtain ⟨first, isFirst, rfl⟩ := mem_one_of.mp isFront
    rw [mem_alnum_chars] at isFirst
    rcases mem_optional.mp isBack with rfl | more
    · constructor <;> simp [isFirst]
    · obtain ⟨middle, isMiddle, ending, isEnding, rfl⟩ := mem_comp.mp more
      obtain ⟨last, isLast, rfl⟩ := mem_one_of.mp isEnding
      rw [mem_alnum_chars] at isLast
      rw [mem_one_of_star] at isMiddle
      constructor
      · intro c member
        simp only [List.singleton_append, List.mem_cons, List.mem_append, List.not_mem_nil,
          or_false] at member
        rcases member with rfl | inside | rfl
        · exact .inl isFirst
        · simpa [mem_alnum_chars] using isMiddle c inside
        · exact .inl isLast
      · simp [isFirst]
      · rw [← List.append_assoc, List.getLast?_concat]
        exact isLast
  · intro label
    cases text with
    | nil => exact absurd label.first (by decide)
    | cons first rest =>
        have isFirst : isAlnum first = true := by simpa using label.first
        refine ⟨[first], mem_one_of.mpr ⟨first, (mem_alnum_chars first).mpr isFirst, rfl⟩, rest, ?_, rfl⟩
        rw [mem_optional]
        cases rest using List.reverseRecOn with
        | nil => exact .inl rfl
        | append_singleton middle last =>
            right
            have isLast : isAlnum last = true := by
              have ends := label.last
              rw [← List.cons_append, List.getLast?_concat] at ends
              exact ends
            refine mem_comp.mpr ⟨middle, mem_one_of_star.mpr ?_, [last],
              mem_one_of.mpr ⟨last, (mem_alnum_chars last).mpr isLast, rfl⟩, rfl⟩
            intro c member
            have known := label.characters c (by simp [member])
            simpa [mem_alnum_chars] using known

theorem mem_host (text : Text) : hostPattern.rmatch text = true ↔ HostName text := by
  rw [rmatch_iff_matches', hostPattern, mem_joined]
  simp only [mem_label, HostName]

theorem label_nonempty {text : Text} (label : IsLabel text) : text ≠ [] := by
  rintro rfl
  exact absurd label.first (by decide)

theorem host_characters {host : Text} (valid : HostName host) :
    host ≠ [] ∧ ∀ c ∈ host, isAlnum c = true ∨ c = '-' ∨ c = '.' := by
  obtain ⟨labels, some, each, rfl⟩ := valid
  cases labels with
  | nil => exact absurd rfl some
  | cons first labels =>
      rw [join_parts]
      constructor
      · simp [label_nonempty (each first List.mem_cons_self)]
      · intro c member
        rw [List.mem_append, List.mem_flatten] at member
        rcases member with inside | ⟨piece, listed, inside⟩
        · rcases (each first List.mem_cons_self).characters c inside with alnum | hyphen
          · exact .inl alnum
          · exact .inr (.inl hyphen)
        · obtain ⟨label, further, rfl⟩ := List.mem_map.mp listed
          rcases List.mem_cons.mp inside with rfl | inner
          · exact .inr (.inr rfl)
          · rcases (each label (List.mem_cons_of_mem _ further)).characters c inner with alnum | hyphen
            · exact .inl alnum
            · exact .inr (.inl hyphen)

theorem host_all (P : Char → Prop) {host : Text} (valid : HostName host)
    (alnum : ∀ c, isAlnum c = true → P c) (hyphen : P '-') (dot : P '.') : ∀ c ∈ host, P c := by
  intro c member
  rcases (host_characters valid).2 c member with known | rfl | rfl
  · exact alnum c known
  · exact hyphen
  · exact dot

/-! ## The script on host names -/

theorem text_line {text : Text} (some : text ≠ [])
    (plain : '\n' ∉ text) : textLines text = [text] := by
  rw [textLines, List.splitOn_eq_singleton plain]
  simp [some]

theorem greps_host_iff {host : Text} (some : host ≠ []) (plain : '\n' ∉ host) :
    grepsHost host = true ↔ HostName host := by
  rw [grepsHost, text_line some plain, ← mem_host]
  simp

theorem host_no_newline {host : Text} (valid : HostName host) : '\n' ∉ host := by
  intro member
  have apart : ∀ c ∈ host, c ≠ '\n' := by
    apply host_all (· ≠ '\n') valid
    · rintro c alnum rfl
      exact absurd alnum (by decide)
    · decide
    · decide
  exact apart '\n' member rfl

theorem host_passes {host : Text} (valid : HostName host) : grepsHost host = true :=
  (greps_host_iff (host_characters valid).1 (host_no_newline valid)).mpr valid

theorem host_not_special {host : Text} (valid : HostName host) : host.any isSpecial = false := by
  rw [List.any_eq_false]
  apply host_all (fun c => ¬ isSpecial c = true) valid
  · intro c alnum special
    simp only [isSpecial, Bool.or_eq_true, beq_iff_eq] at special
    rcases special with ((rfl | rfl) | rfl) | rfl <;> exact absurd alnum (by decide)
  · decide
  · decide

theorem host_words_items (expansion : Expansion) (value : Text) :
    hostWords expansion value = (items value).flatMap expansion.expand := by
  rw [hostWords, fields_are_items]

theorem add_hosts_passing {hosts : List Text} (passing : ∀ host ∈ hosts, grepsHost host = true)
    (filter : Text) : addHosts hosts filter = .runsProxy (filter ++ hosts.flatMap filterLine) := by
  induction hosts generalizing filter with
  | nil => simp [addHosts]
  | cons host hosts induction =>
      obtain ⟨first, others⟩ := List.forall_mem_cons.mp passing
      rw [addHosts, first, if_neg (by simp), induction others, List.flatMap_cons, List.append_assoc]

theorem add_hosts_failing {hosts : List Text} {host : Text} (member : host ∈ hosts)
    (fails : grepsHost host = false) (filter : Text) :
    ∃ message, addHosts hosts filter = .exits 1 message := by
  induction hosts generalizing filter with
  | nil => cases member
  | cons first hosts induction =>
      unfold addHosts
      split
      · exact ⟨_, rfl⟩
      · rename_i passes
        rcases List.mem_cons.mp member with rfl | later
        · rw [fails] at passes
          exact absurd rfl passes
        · exact induction later _

theorem filter_line_host {host : Text} (valid : HostName host) :
    filterLine host = '^' :: (escapeDots host ++ ['$']) ++ ['\n'] := by
  have kept : substituted (escapeDots host) = escapeDots host := by
    cases host using List.reverseRecOn with
    | nil => rfl
    | append_singleton front last =>
        have plain : last ≠ '\n' := by
          rintro rfl
          exact host_no_newline valid (by simp)
        have ends : ∃ before, escapeDots (front ++ [last]) = before ++ [last] := by
          rw [escapeDots, List.flatMap_append, List.flatMap_singleton]
          by_cases dot : last = '.'
          · rw [if_pos dot, dot]
            exact ⟨front.flatMap (fun c => if c = '.' then ['\\', '.'] else [c]) ++ ['\\'], by simp⟩
          · rw [if_neg dot]
            exact ⟨_, rfl⟩
        obtain ⟨before, same⟩ := ends
        rw [same, substituted, List.reverse_concat, List.dropWhile_cons_of_neg (by simpa using plain)]
        simp
  rw [filterLine, kept]
  simp

theorem filter_lines {hosts : List Text} (valid : ∀ host ∈ hosts, HostName host) :
    textLines (hosts.flatMap filterLine) =
      hosts.map fun host => '^' :: (escapeDots host ++ ['$']) := by
  have split : (hosts.flatMap filterLine).splitOn '\n' =
      (hosts.map fun host => '^' :: (escapeDots host ++ ['$'])) ++ [[]] := by
    induction hosts with
    | nil => rfl
    | cons host hosts induction =>
        obtain ⟨first, others⟩ := List.forall_mem_cons.mp valid
        have plain : '\n' ∉ '^' :: (escapeDots host ++ ['$']) := by
          have escaped : '\n' ∉ escapeDots host := by
            intro member
            obtain ⟨c, inside, here⟩ := List.mem_flatMap.mp member
            split at here
            · simp at here
            · rw [← List.mem_singleton.mp here] at inside
              exact host_no_newline first inside
          simp [escaped]
        rw [List.flatMap_cons, filter_line_host first, List.append_assoc, List.singleton_append,
          List.splitOn_append_cons_self_of_not_mem plain, induction others]
        rfl
  rw [textLines, split]
  simp

theorem filter_matches {hosts : List Text} (valid : ∀ host ∈ hosts, HostName host) (host : Text) :
    (∃ line ∈ textLines (hosts.flatMap filterLine), basicMatches line host = true) ↔
      host ∈ hosts := by
  have each : ∀ listed ∈ hosts,
      basicMatches ('^' :: (escapeDots listed ++ ['$'])) host = decide (host = listed) := by
    intro listed member
    apply escaped_matches
    apply host_all (fun c => c = '.' ∨ isOrdinary c = true) (valid listed member)
    · intro c alnum
      right
      simp only [isOrdinary, Bool.not_eq_true', List.contains_eq_mem, decide_eq_false_iff_not]
      intro special
      simp only [String.reduceToList, List.mem_cons, List.not_mem_nil, or_false] at special
      rcases special with rfl | rfl | rfl | rfl | rfl | rfl <;> exact absurd alnum (by decide)
    · decide
    · decide
  rw [filter_lines valid]
  constructor
  · rintro ⟨line, listed, matched⟩
    obtain ⟨other, member, rfl⟩ := List.mem_map.mp listed
    rw [each other member, decide_eq_true_eq] at matched
    rwa [matched]
  · intro member
    refine ⟨_, List.mem_map.mpr ⟨host, member, rfl⟩, ?_⟩
    rw [each host member, decide_eq_true_eq]

/-- The filter admits the configured hosts exactly if all items are host names,
or an item is expanded to a word that `grep` refuses. -/
theorem filters_exactly_iff (expansion : Expansion) (value : Text) :
    FiltersExactly expansion value ↔ (∀ item ∈ items value, HostName item) ∨
      ∃ item ∈ items value, ∃ word ∈ expansion.expand item, grepsHost word = false := by
  have words := host_words_items expansion value
  constructor
  · intro filters
    by_cases valid : ∀ item ∈ items value, HostName item
    · exact .inl valid
    · right
      push Not at valid
      obtain ⟨status, message, ended, -⟩ := filters.refuses valid
      by_contra passing
      push Not at passing
      have all : ∀ host ∈ hostWords expansion value, grepsHost host = true := by
        intro host member
        rw [words, List.mem_flatMap] at member
        obtain ⟨item, listed, inside⟩ := member
        simpa using passing item listed host inside
      rw [entrypoint, add_hosts_passing all] at ended
      cases ended
  · rintro (valid | ⟨item, listed, word, inside, fails⟩)
    · have plain : hostWords expansion value = items value := by
        rw [words, List.flatMap_congr fun item listed =>
          expansion.plain item (host_not_special (valid item listed)), List.flatMap_singleton']
      constructor
      · rintro ⟨item, listed, invalid⟩
        exact absurd (valid item listed) invalid
      · intro _
        refine ⟨_, ?_, filter_matches valid⟩
        rw [entrypoint, plain, add_hosts_passing fun host listed => host_passes (valid host listed)]
        rfl
    · have member : word ∈ hostWords expansion value := by
        rw [words]
        exact List.mem_flatMap.mpr ⟨item, listed, inside⟩
      obtain ⟨message, ended⟩ := add_hosts_failing member fails []
      constructor
      · intro _
        exact ⟨1, message, ended, by decide⟩
      · intro valid
        have same := expansion.plain item (host_not_special (valid item listed))
        rw [same, List.mem_singleton] at inside
        rw [inside, host_passes (valid item listed)] at fails
        cases fails

/-! ## A star in the root directory -/

/-- `*` and `?` in a pattern without slashes and brackets. -/
def globMatches : Text → Text → Bool
  | [], name => name.isEmpty
  | '*' :: pattern, name =>
      (List.range (name.length + 1)).any fun n => globMatches pattern (name.drop n)
  | '?' :: pattern, _ :: name => globMatches pattern name
  | c :: pattern, d :: name => c == d && globMatches pattern name
  | _ :: _, [] => false

/-- A directory with these names, in their order, for such patterns. A period in
front is only matched by a period. -/
def inDirectory (names : List Text) : Expansion where
  expand word :=
    let found := names.filter fun name =>
      globMatches word name && (name.head? != some '.' || word.head? == some '.')
    if word.any isSpecial && !found.isEmpty then found else [word]
  plain := by
    intro word plain
    simp [plain]

def rootDirectory : List Text :=
  ["bin", "dev", "entrypoint.sh", "etc", "home", "lib", "media", "mnt", "opt", "proc", "root", "run",
    "sbin", "srv", "sys", "tmp", "usr", "var"].map String.toList

/-- The script takes the names in its working directory for hosts. -/
theorem star_becomes_directory :
    ¬ FiltersExactly (inDirectory rootDirectory) "*".toList := by
  intro filters
  have star : items "*".toList = ["*".toList] := by decide
  have invalid : ¬ HostName "*".toList := by
    intro valid
    exact absurd ((host_characters valid).2 '*' (by decide)) (by decide)
  obtain ⟨status, message, ended, -⟩ :=
    filters.refuses ⟨"*".toList, by rw [star]; exact List.mem_singleton_self _, invalid⟩
  have passing : (hostWords (inDirectory rootDirectory) "*".toList).all grepsHost = true := by
    decide +kernel
  rw [List.all_eq_true] at passing
  rw [entrypoint, add_hosts_passing passing] at ended
  cases ended

end PretextBuildServer.EgressFilter
