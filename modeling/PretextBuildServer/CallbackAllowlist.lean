import Mathlib.Data.List.DropRight
import PretextBuildServer.CallbackUrl

/-!
# The host a callback is posted to

`is_allowed_callback_url` reads the authority up to the first of `/`, `?`, `#`;
the library that makes the connection also ends it at a backslash, and removes
no tabs and line breaks from it. The allowlist binds the host contacted exactly
as long as that difference does not matter.
-/

namespace PretextBuildServer.CallbackAllowlist

open EffectProgram EffectProgram.Program TextCase
open PretextBuildServer.ServerSettings PretextBuildServer.JobCalls
open PretextBuildServer.NameValidators PretextBuildServer.CallbackUrl

set_option autoImplicit false

/-! ## What `requests.post` makes of the same text -/

def isHttp (scheme : List Char) : Bool := scheme = "http".toList || scheme = "https".toList

/-- What stands between the `//` of an http(s) URL and the first of `/`, `?`,
`#`, as `requests` comes upon it. -/
def rawAuthority (url : List Char) : Option (List Char) :=
  match splitScheme (url.dropWhile isSpace) with
  | (scheme, '/' :: '/' :: rest) =>
      if isHttp scheme then some (rest.takeWhile fun c => !endsAuthority c) else none
  | _ => none

/-- The host named in front of the first backslash. -/
def frontHost (authority : List Char) : List Char := hostinfo (authority.takeWhile (· != '\\'))

/-- Hosts are compared without letter case and trailing dots. -/
def normalise (host : List Char) : List Char := rstripDots (lower host)

def SameHost (one other : List Char) : Prop := normalise one = normalise other

def Listed (settings : Settings) (host : List Char) : Prop :=
  ∃ allowed ∈ settings.callbackAllowedHosts, SameHost allowed.toList host

/-- `connects` is the host that `requests.post` connects to, `none` where it
refuses the URL: whatever else it checks, that host is the one in front of the
first backslash. -/
def StopsAtBackslash (connects : List Char → Option (List Char)) : Prop :=
  ∀ url host, connects url = some host →
    ∃ authority, rawAuthority url = some authority ∧ SameHost host (frontHost authority)

/-! ## What the allowlist is to bind -/

/-- `urlsplit` refuses an authority or not, whenever it is asked. -/
def ChecksBy {World : Type} (passes : List Char → Bool)
    (handler : Handler JobCall.Answer Raised World) : Prop :=
  ∀ world netloc, (handler world (.checkNetloc netloc)).1 = .ok () ↔ passes netloc = true

/-- Whatever list is set and whatever the resolver answers, an accepted URL is
posted to no host that is not on the list. -/
def BindsHost (passes : List Char → Bool) (connects : List Char → Option (List Char))
    (url : List Char) : Prop :=
  ∀ (World : Type) (handler : Handler JobCall.Answer Raised World) (world : World)
    (settings : Settings), ChecksBy passes handler → settings.callbackAllowedHosts ≠ [] →
    (run handler world (isAllowedCallbackUrl settings url)).1 = .ok true →
    ∀ host, connects url = some host → Listed settings host

/-- The host `urlparse` reads from an http(s) URL it does not refuse. -/
def urlparseHost (passes : List Char → Bool) (url : List Char) : Option (List Char) :=
  match splitScheme (cleaned url) with
  | (scheme, '/' :: '/' :: rest) =>
      let netloc := rest.takeWhile fun c => !endsAuthority c
      if isHttp scheme && !bracketsUnbalanced netloc && passes netloc &&
          normalise (hostinfo netloc) != [] then
        some (hostinfo netloc)
      else none
  | _ => none

/-- Both libraries read one host from the URL, or one of them none. -/
def ReadAlike (passes : List Char → Bool) (url : List Char) : Prop :=
  ∀ authority host, rawAuthority url = some authority → urlparseHost passes url = some host →
    SameHost host (frontHost authority)

/-- No character at which the two readings of an authority part. -/
def plainAuthority (authority : List Char) : Bool :=
  authority.all fun c => c != '\\' && !isRemoved c

/-! ## Characters -/

theorem letter_beyond_controls {c : Char} (letter : isLetter c = true) :
    isControlOrSpace c = false ∧ isSpace c = false ∧ isRemoved c = false := by
  have range : 65 ≤ c.toNat ∧ c.toNat ≤ 122 := by
    simp only [isLetter, Bool.or_eq_true, Bool.and_eq_true, decide_eq_true_eq, Char.le_def,
      UInt32.le_iff_toNat_le] at letter
    change ('A'.toNat ≤ c.toNat ∧ c.toNat ≤ 'Z'.toNat) ∨
      ('a'.toNat ≤ c.toNat ∧ c.toNat ≤ 'z'.toNat) at letter
    simp only [Char.reduceToNat] at letter
    omega
  have other : ∀ d : Char, d.toNat < 65 → (c == d) = false := by
    intro d low
    rw [beq_eq_false_iff_ne]
    intro same
    rw [same] at range
    omega
  have space : isSpace c = false := by
    simp only [isSpace, Bool.or_eq_false_iff, Bool.and_eq_false_iff, decide_eq_false_iff_not,
      beq_eq_false_iff_ne]
    omega
  refine ⟨?_, space, ?_⟩
  · simp only [isControlOrSpace, decide_eq_false_iff_not]
    omega
  · simp only [isRemoved, Bool.or_eq_false_iff]
    exact ⟨⟨other '\t' (by decide), other '\r' (by decide)⟩, other '\n' (by decide)⟩

theorem scheme_char_stays {c : Char} (part : isSchemeChar c = true) :
    isRemoved c = false ∧ (c != ':') = true := by
  have apart : ∀ d : Char, isSchemeChar d = false → (c == d) = false := by
    intro d no
    rw [beq_eq_false_iff_ne]
    intro same
    rw [same, no] at part
    cases part
  constructor
  · simp only [isRemoved, Bool.or_eq_false_iff]
    exact ⟨⟨apart '\t' (by decide), apart '\r' (by decide)⟩, apart '\n' (by decide)⟩
  · rw [bne, apart ':' (by decide)]
    rfl

theorem normalised_settled (host : List Char) : ∀ c ∈ normalise host, Settled c := by
  intro c member
  have stripped : normalise host <+: lower host := List.rdropWhile_prefix (fun c => c == '.') _
  exact lower_settled [] host c (stripped.subset member)

theorem normalise_normalise (host : List Char) : normalise (normalise host) = normalise host := by
  have stays : lower (normalise host) = normalise host :=
    settled_stays (normalised_settled host) []
  rw [normalise, stays, normalise]
  exact List.rdropWhile_idempotent (fun c => c == '.') (lower host)

/-! ## Schemes -/

/-- A text that starts with a scheme and a colon. -/
structure Schemed (text : List Char) (first : Char) (raw rest : List Char) : Prop where
  text_is : text = first :: (raw ++ ':' :: rest)
  letter : isLetter first = true
  chars : ∀ c ∈ first :: raw, isSchemeChar c = true

theorem schemed_splits {text raw rest : List Char} {first : Char}
    (schemed : Schemed text first raw rest) : splitScheme text = (lower (first :: raw), rest) := by
  have colon_free : ∀ c ∈ first :: raw, (c != ':') = true := by
    intro c member
    exact (scheme_char_stays (schemed.chars c member)).2
  have taken : text.takeWhile (· != ':') = first :: raw := by
    rw [schemed.text_is, ← List.cons_append, List.takeWhile_append_of_pos colon_free,
      List.takeWhile_cons_of_neg (by decide), List.append_nil]
  have dropped : text.dropWhile (· != ':') = ':' :: rest := by
    rw [schemed.text_is, ← List.cons_append, List.dropWhile_append_of_pos colon_free,
      List.dropWhile_cons_of_neg (by decide)]
  have scheme : (isLetter first && (first :: raw).all isSchemeChar) = true := by
    rw [schemed.letter, Bool.true_and, List.all_eq_true]
    exact schemed.chars
  rw [splitScheme, taken, dropped]
  exact if_pos scheme

theorem split_is_schemed {text scheme rest : List Char} (split : splitScheme text = (scheme, rest))
    (found : scheme ≠ []) : ∃ first raw, Schemed text first raw rest := by
  have whole : text.takeWhile (· != ':') ++ text.dropWhile (· != ':') = text :=
    List.takeWhile_append_dropWhile
  rw [splitScheme] at split
  split at split
  case h_1 colon after first raw dropped taken =>
    split at split
    case isTrue valid =>
      cases split
      rw [taken, dropped] at whole
      rw [Bool.and_eq_true, List.all_eq_true] at valid
      have ends : colon = ':' := by
        have stopped := List.head?_dropWhile_not (· != ':') text
        rw [dropped] at stopped
        simpa using stopped
      rw [ends] at whole
      exact ⟨first, raw, whole.symm, valid.1, taken ▸ valid.2⟩
    case isFalse => exact absurd (congrArg Prod.fst split).symm found
  case h_2 => exact absurd (congrArg Prod.fst split).symm found

/-! ## The two readings of one text -/

/-- `urlsplit` strips controls and spaces; in front of a scheme these are the
blanks of `str.lstrip`, or it finds no scheme. -/
theorem cleaned_after_blanks {blanks tail : List Char} {first : Char}
    (blank : ∀ c ∈ blanks, isSpace c = true) (letter : isLetter first = true) :
    cleaned (blanks ++ first :: tail) = (first :: tail).filter (fun c => !isRemoved c) ∨
      ∃ c later, isSpace c = true ∧ cleaned (blanks ++ first :: tail) = c :: later := by
  induction blanks with
  | nil =>
      left
      have kept : isControlOrSpace first = false := (letter_beyond_controls letter).1
      rw [List.nil_append, cleaned, List.dropWhile_cons_of_neg (by simp [kept])]
  | cons c blanks induction =>
      by_cases stripped : isControlOrSpace c = true
      · have same : cleaned (c :: blanks ++ first :: tail) = cleaned (blanks ++ first :: tail) := by
          rw [List.cons_append, cleaned, cleaned, List.dropWhile_cons_of_pos stripped]
        rw [same]
        exact induction fun d member => blank d (List.mem_cons_of_mem c member)
      · right
        have kept : isRemoved c = false := by
          rw [Bool.eq_false_iff]
          intro removed
          simp only [isRemoved, Bool.or_eq_true, beq_iff_eq] at removed
          rcases removed with (rfl | rfl) | rfl <;> exact stripped (by decide)
        refine ⟨c, (blanks ++ first :: tail).filter fun c => !isRemoved c,
          blank c List.mem_cons_self, ?_⟩
        rw [List.cons_append, cleaned, List.dropWhile_cons_of_neg stripped,
          List.filter_cons_of_pos (by simp [kept])]

theorem schemed_not_blank {text raw rest later : List Char} {first c : Char}
    (schemed : Schemed text first raw rest) (starts : text = c :: later) : isSpace c = false := by
  have same : c = first := by
    rw [schemed.text_is] at starts
    exact (List.cons.inj starts).1.symm
  rw [same]
  exact (letter_beyond_controls schemed.letter).2.1

theorem schemed_filters {text raw rest : List Char} {first : Char}
    (schemed : Schemed text first raw rest) :
    Schemed (text.filter fun c => !isRemoved c) first raw (rest.filter fun c => !isRemoved c) := by
  have stays : (first :: raw).filter (fun c => !isRemoved c) = first :: raw := by
    rw [List.filter_eq_self]
    intro c member
    rw [(scheme_char_stays (schemed.chars c member)).1]
    rfl
  refine ⟨?_, schemed.letter, schemed.chars⟩
  rw [schemed.text_is, ← List.cons_append, List.filter_append, stays,
    List.filter_cons_of_pos (by decide), List.cons_append]

/-- No character `urlsplit` removes ends an authority. -/
theorem authority_of_filter (rest : List Char) :
    ((rest.filter fun c => !isRemoved c).takeWhile fun c => !endsAuthority c) =
      (rest.takeWhile fun c => !endsAuthority c).filter fun c => !isRemoved c := by
  induction rest with
  | nil => rfl
  | cons c rest induction =>
      by_cases removed : isRemoved c = true
      · have inside : endsAuthority c = false := by
          simp only [isRemoved, Bool.or_eq_true, beq_iff_eq] at removed
          rcases removed with (rfl | rfl) | rfl <;> decide
        rw [List.filter_cons_of_neg (by simp [removed]),
          List.takeWhile_cons_of_pos (by simp [inside]),
          List.filter_cons_of_neg (by simp [removed]), induction]
      · rw [List.filter_cons_of_pos (by simp [removed])]
        by_cases ends : endsAuthority c = true
        · rw [List.takeWhile_cons_of_neg (by simp [ends]),
            List.takeWhile_cons_of_neg (by simp [ends]), List.filter_nil]
        · rw [List.takeWhile_cons_of_pos (by simp [ends]),
            List.takeWhile_cons_of_pos (by simp [ends]),
            List.filter_cons_of_pos (by simp [removed]), induction]

/-- The authority `urlsplit` reads is the raw one without tabs and line breaks. -/
theorem netloc_of_raw_authority {url authority scheme rest : List Char}
    (raw : rawAuthority url = some authority) (http : isHttp scheme = true)
    (split : splitScheme (cleaned url) = (scheme, '/' :: '/' :: rest)) :
    (rest.takeWhile fun c => !endsAuthority c) = authority.filter fun c => !isRemoved c := by
  have named : ∀ scheme, isHttp scheme = true → scheme ≠ [] := by
    rintro _ http rfl
    exact absurd http (by decide)
  unfold rawAuthority at raw
  split at raw
  case h_1 rawScheme rawRest rawSplit =>
    split at raw
    case isFalse => cases raw
    case isTrue rawHttp =>
      cases raw
      obtain ⟨first, chars, schemed⟩ := split_is_schemed rawSplit (named rawScheme rawHttp)
      obtain ⟨_, _, reading⟩ := split_is_schemed split (named scheme http)
      have whole : url = url.takeWhile isSpace ++ first :: (chars ++ ':' :: '/' :: '/' :: rawRest) := by
        rw [← schemed.text_is, List.takeWhile_append_dropWhile]
      have blank : ∀ c ∈ url.takeWhile isSpace, isSpace c = true := fun c => List.mem_takeWhile_imp
      rcases cleaned_after_blanks blank schemed.letter with same | ⟨c, later, space, starts⟩
      · rw [← whole, ← schemed.text_is] at same
        rw [same, schemed_splits (schemed_filters schemed)] at split
        have rests : ('/' :: '/' :: rawRest).filter (fun c => !isRemoved c) = '/' :: '/' :: rest :=
          congrArg Prod.snd split
        rw [List.filter_cons_of_pos (by decide), List.filter_cons_of_pos (by decide)] at rests
        rw [← (List.cons.inj (List.cons.inj rests).2).2]
        exact authority_of_filter rawRest
      · rw [← whole] at starts
        rw [schemed_not_blank reading starts] at space
        cases space
  case h_2 => cases raw

theorem validated_host_is_normalised (parsed : ParsedUrl) :
    validatedHost parsed = normalise (hostinfo parsed.netloc) := by
  have whole : (hostinfo parsed.netloc).takeWhile (· != '%') ++
      (hostinfo parsed.netloc).dropWhile (· != '%') = hostinfo parsed.netloc :=
    List.takeWhile_append_dropWhile
  rw [validatedHost, ParsedUrl.hostname, normalise]
  generalize (hostinfo parsed.netloc).takeWhile (· != '%') = front at whole ⊢
  cases zone : (hostinfo parsed.netloc).dropWhile (· != '%') with
  | nil =>
      rw [zone, List.append_nil] at whole
      rw [List.append_nil, lower_lower, whole]
  | cons percent back =>
      have same : percent = '%' := by
        have stopped := List.head?_dropWhile_not (· != '%') (hostinfo parsed.netloc)
        rw [zone] at stopped
        simpa using stopped
      rw [zone, same] at whole
      rw [same, lower_at_end percent_ends_word, lower_lower, ← lower_at_end percent_ends_word, whole]

theorem front_host_plain {authority : List Char} (plain : plainAuthority authority = true) :
    frontHost authority = hostinfo authority ∧
      (authority.filter fun c => !isRemoved c) = authority := by
  rw [plainAuthority, List.all_eq_true] at plain
  constructor
  · have whole : authority.takeWhile (· != '\\') = authority := by
      rw [List.takeWhile_eq_self_iff]
      intro c member
      exact (Bool.and_eq_true_iff.mp (plain c member)).1
    rw [frontHost, whole]
  · rw [List.filter_eq_self]
    intro c member
    exact (Bool.and_eq_true_iff.mp (plain c member)).2

/-! ## What acceptance shows -/

section Accepted

variable {World : Type} {handler : Handler JobCall.Answer Raised World} {world : World}
  {settings : Settings} {passes : List Char → Bool} {url : List Char}

theorem urlparse_reads (checks : ChecksBy passes handler) {parsed : ParsedUrl}
    (read : (run handler world (urlparse url)).1 = .ok parsed) (named : parsed.netloc ≠ []) :
    ∃ rest, splitScheme (cleaned url) = (parsed.scheme, '/' :: '/' :: rest) ∧
      parsed.netloc = (rest.takeWhile fun c => !endsAuthority c) ∧
      bracketsUnbalanced parsed.netloc = false ∧ passes parsed.netloc = true := by
  unfold urlparse at read
  split at read
  case h_1 scheme rest split =>
    split at read
    case h_1 rest =>
      simp only at read
      split at read
      case isTrue => cases read
      case isFalse balanced =>
        rw [bind_is_and_then, run_and_then] at read
        cases checked : (run handler world (jobCall (.checkNetloc
            (rest.takeWhile fun c => !endsAuthority c)))).1 with
        | error raised =>
            rw [checked] at read
            cases read
        | ok value =>
            rw [checked] at read
            cases read
            exact ⟨rest, split, rfl, by simpa using balanced, (checks world _).mp checked⟩
    case h_2 =>
      cases read
      exact absurd rfl named

theorem accepted_url_admitted
    (accepted : (run handler world (isAllowedCallbackUrl settings url)).1 = .ok true) :
    ∃ parsed, (run handler world (urlparse url)).1 = .ok parsed ∧
      allowlistAdmits settings parsed = true := by
  rw [isAllowedCallbackUrl, run_and_then] at accepted
  cases read : (run handler world (urlparse url)).1 with
  | error raised =>
      rw [read] at accepted
      simp only at accepted
      split at accepted <;> cases accepted
  | ok parsed =>
      refine ⟨parsed, rfl, ?_⟩
      rw [read] at accepted
      simp only at accepted
      by_cases admitted : allowlistAdmits settings parsed = true
      · exact admitted
      · rw [if_pos (by simp [admitted])] at accepted
        cases accepted

theorem admitted_host_listed {parsed : ParsedUrl} (restricted : settings.callbackAllowedHosts ≠ [])
    (admitted : allowlistAdmits settings parsed = true) :
    isHttp parsed.scheme = true ∧ normalise (hostinfo parsed.netloc) ≠ [] ∧
      Listed settings (hostinfo parsed.netloc) := by
  unfold allowlistAdmits at admitted
  simp only [Bool.and_eq_true, Bool.or_eq_true, List.isEmpty_iff, restricted, false_or,
    List.contains_iff_mem, List.mem_map] at admitted
  obtain ⟨⟨http, named⟩, allowed, member, same⟩ := admitted
  rw [validated_host_is_normalised] at named same
  refine ⟨?_, by simpa using named, allowed, member, ?_⟩
  · simpa [isHttp] using http
  · rw [SameHost, same, normalise_normalise]

theorem accepted_host_listed (checks : ChecksBy passes handler)
    (restricted : settings.callbackAllowedHosts ≠ [])
    (accepted : (run handler world (isAllowedCallbackUrl settings url)).1 = .ok true) :
    ∃ host, urlparseHost passes url = some host ∧ Listed settings host := by
  obtain ⟨parsed, read, admitted⟩ := accepted_url_admitted accepted
  obtain ⟨http, named, listed⟩ := admitted_host_listed restricted admitted
  have authority : parsed.netloc ≠ [] := by
    intro none
    rw [none] at named
    exact named (by decide)
  obtain ⟨rest, split, netloc, balanced, passed⟩ := urlparse_reads checks read authority
  refine ⟨_, ?_, listed⟩
  simp only [urlparseHost, split, ← netloc, http, balanced, passed, Bool.not_false, Bool.and_true,
    bne_iff_ne.mpr named, if_true]

/-- The host a URL is checked by, with nothing else on the list. -/
def pinnedTo (host : List Char) : Settings :=
  { defaults with
    callbackAllowedHosts := [String.ofList (normalise host)], callbackAllowPrivateIps := true }

theorem pinned_accepts (checks : ChecksBy passes handler) {host : List Char}
    (read : urlparseHost passes url = some host) :
    (run handler world (isAllowedCallbackUrl (pinnedTo host) url)).1 = .ok true := by
  unfold urlparseHost at read
  split at read
  case h_2 => cases read
  case h_1 scheme rest split =>
    dsimp only at read
    split at read
    case isFalse => cases read
    case isTrue sound =>
      cases read
      simp only [Bool.and_eq_true, Bool.not_eq_true'] at sound
      obtain ⟨⟨⟨http, balanced⟩, passed⟩, named⟩ := sound
      have parsed : (run handler world (urlparse url)).1 =
          .ok { scheme, netloc := rest.takeWhile fun c => !endsAuthority c } := by
        simp only [urlparse, split]
        rw [balanced, if_neg (by simp), bind_is_and_then, run_and_then, run_perform,
          (checks world _).mpr passed]
        rfl
      have admitted : allowlistAdmits
          (pinnedTo (hostinfo (rest.takeWhile fun c => !endsAuthority c)))
          { scheme, netloc := rest.takeWhile fun c => !endsAuthority c } = true := by
        rw [allowlistAdmits, validated_host_is_normalised]
        simp only [pinnedTo, named, Bool.and_true, Bool.and_eq_true, Bool.or_eq_true]
        refine ⟨by simpa [isHttp] using http, .inr ?_⟩
        simp
      have unresolved : (pinnedTo (hostinfo (rest.takeWhile fun c =>
          !endsAuthority c))).callbackAllowPrivateIps = true := rfl
      rw [isAllowedCallbackUrl, run_and_then, parsed]
      simp only [admitted, unresolved, Bool.not_true, Bool.false_eq_true, if_false, if_true]
      rfl

end Accepted

/-! ## The host contacted -/

def publicNetwork (passes : List Char → Bool) (world : Unit) (request : JobCall) :
    JobReply request × Unit :=
  match request with
  | .checkNetloc netloc =>
      (if passes netloc = true then .ok () else .error { kind := .valueError }, world)
  | .getaddrinfo _ => (.ok [], world)
  | _ => (.error { kind := .osError }, world)

theorem public_network_checks (passes : List Char → Bool) :
    ChecksBy passes (publicNetwork passes) := by
  intro world netloc
  simp only [publicNetwork]
  split <;> simp_all

theorem plain_authority_read_alike (passes : List Char → Bool) {url authority : List Char}
    (raw : rawAuthority url = some authority) (plain : plainAuthority authority = true) :
    ReadAlike passes url := by
  intro other host found read
  rw [raw, Option.some.injEq] at found
  subst found
  unfold urlparseHost at read
  split at read
  case h_2 => cases read
  case h_1 scheme rest split =>
    dsimp only at read
    split at read
    case isFalse => cases read
    case isTrue sound =>
      cases read
      simp only [Bool.and_eq_true] at sound
      obtain ⟨front, unchanged⟩ := front_host_plain plain
      rw [netloc_of_raw_authority raw sound.1.1.1 split, unchanged, front, SameHost]

/-- The list binds the host contacted if and only if `requests` refuses the URL
or both libraries read one host from it, as they do from an authority without
backslash, tab and line break. -/
theorem accepted_callback_reaches_listed_host (passes : List Char → Bool)
    (connects : List Char → Option (List Char)) (stops : StopsAtBackslash connects)
    (url : List Char) :
    (BindsHost passes connects url ↔ connects url = none ∨ ReadAlike passes url) ∧
      ∀ authority, rawAuthority url = some authority → plainAuthority authority = true →
        BindsHost passes connects url := by
  have alike_binds : ReadAlike passes url → BindsHost passes connects url := by
    intro alike World handler world settings checks restricted accepted contacted connected
    obtain ⟨host, read, allowed, member, same⟩ :=
      accepted_host_listed checks restricted accepted
    obtain ⟨authority, raw, front⟩ := stops url contacted connected
    exact ⟨allowed, member, same.trans ((alike authority host raw read).trans front.symm)⟩
  refine ⟨⟨?_, ?_⟩, fun authority raw plain => alike_binds (plain_authority_read_alike passes raw plain)⟩
  · intro binds
    cases connected : connects url with
    | none => exact .inl rfl
    | some contacted =>
        right
        intro authority host raw read
        -- With the host that is checked alone on the list, no other may be contacted.
        obtain ⟨allowed, member, same⟩ := binds Unit (publicNetwork passes) () (pinnedTo host)
          (public_network_checks passes) (List.cons_ne_nil _ _)
          (pinned_accepts (public_network_checks passes) read) contacted connected
        obtain ⟨_, found, front⟩ := stops url contacted connected
        rw [raw, Option.some.injEq] at found
        subst found
        rw [List.mem_singleton.mp member, SameHost, String.toList_ofList, normalise_normalise] at same
        exact same.trans front
  · rintro (refused | alike)
    · intro World handler world settings _ _ _ contacted connected
      rw [refused] at connected
      cases connected
    · exact alike_binds alike

/-! ## Two URLs -/

/-- `requests.post`, for the names it takes as they are. -/
def plainRequests (url : List Char) : Option (List Char) :=
  (rawAuthority url).bind fun authority =>
    let host := frontHost authority
    if host != [] && host.all (fun c => isAlnum c || c == '.' || c == '-') then some (lower host)
    else none

theorem plain_requests_stops : StopsAtBackslash plainRequests := by
  intro url host connected
  rw [plainRequests, Option.bind_eq_some_iff] at connected
  obtain ⟨authority, raw, connected⟩ := connected
  refine ⟨authority, raw, ?_⟩
  dsimp only at connected
  split at connected
  case isFalse => cases connected
  case isTrue =>
    cases connected
    rw [SameHost, normalise, lower_lower, normalise]

/-- `urlsplit` refuses no authority of ASCII characters without brackets. -/
def asciiPasses (netloc : List Char) : Bool := netloc.all fun c => c.toNat < 128 && c != '['

theorem plain_callback_reaches_listed_host :
    let url := "https://u@Pretext.plus.:8443/hook".toList
    (BindsHost asciiPasses plainRequests url ↔
      plainRequests url = none ∨ ReadAlike asciiPasses url) ∧
      ∀ authority, rawAuthority url = some authority → plainAuthority authority = true →
        BindsHost asciiPasses plainRequests url :=
  accepted_callback_reaches_listed_host asciiPasses plainRequests plain_requests_stops _

def pinned : Settings := { defaults with callbackAllowedHosts := ["pretext.plus"] }

/-- Checked as `pretext.plus`, posted to `evil.example`. -/
theorem backslash_moves_callback :
    pinned.callbackAllowedHosts ≠ [] ∧ StopsAtBackslash plainRequests ∧
      (run (publicNetwork asciiPasses) () (isAllowedCallbackUrl pinned
        "http://evil.example\\@pretext.plus/".toList)).1 = .ok true ∧
      plainRequests "http://evil.example\\@pretext.plus/".toList = some "evil.example".toList ∧
      ¬ Listed pinned "evil.example".toList := by
  refine ⟨by decide, plain_requests_stops, by rfl, by decide, ?_⟩
  rintro ⟨allowed, member, same⟩
  rw [show pinned.callbackAllowedHosts = ["pretext.plus"] from rfl, List.mem_singleton] at member
  rw [member, SameHost] at same
  exact absurd same (by decide)

end PretextBuildServer.CallbackAllowlist
