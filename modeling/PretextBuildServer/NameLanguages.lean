import PretextBuildServer.Library.PythonPatterns
import PretextBuildServer.HarvestRuns

/-!
# The languages of the name validators

The three patterns, read as `re.match` reads them, accept the names they are meant
for, and these names with a newline behind them.
-/

namespace PretextBuildServer.NameLanguages

open EffectProgram EffectProgram.Program PosixDisk PythonPatterns
open PretextBuildServer.ServerSettings PretextBuildServer.JobCalls
open PretextBuildServer.NameValidators PretextBuildServer.DiskCalls PretextBuildServer.AssetCache
open PretextBuildServer.HarvestRuns

set_option autoImplicit false

/-! ## The patterns -/

def alnumRanges : List (Char × Char) := [('A', 'Z'), ('a', 'z'), ('0', '9')]

def slugRanges : List (Char × Char) := alnumRanges ++ [('_', '_'), ('-', '-')]

def hexRanges : List (Char × Char) := [('0', '9'), ('a', 'f')]

def projectIdBody : Pattern := .oneOf alnumRanges ++ .repeated (.oneOf slugRanges) 0 (some 63)

def cacheFilenameBody : Pattern :=
  .repeated (.oneOf hexRanges) 32 (some 32) ++ (.optional (.literal "-annotations".toList) ++
    (.literal ['.'] ++ .repeated (.oneOf alnumRanges) 1 none))

def subdirNameBody : Pattern := .oneOf alnumRanges ++ .repeated (.oneOf slugRanges) 0 none

/-- `PROJECT_ID` -/
def projectIdPattern : Pattern := .start ++ projectIdBody ++ .stop

/-- `_CACHE_FILENAME` -/
def cacheFilenamePattern : Pattern := .start ++ cacheFilenameBody ++ .stop

/-- `_SUBDIR_NAME` -/
def subdirNamePattern : Pattern := .start ++ subdirNameBody ++ .stop

example : projectIdPattern.source = "^[A-Za-z0-9][A-Za-z0-9_-]{0,63}$".toList := by decide

example : cacheFilenamePattern.source =
    "^[0-9a-f]{32}(?:-annotations)?\\.[A-Za-z0-9]+$".toList := by decide

example : subdirNamePattern.source = "^[A-Za-z0-9][A-Za-z0-9_-]*$".toList := by decide

/-! ## The languages -/

/-- 1 to 64 letters, digits, `-` and `_`, the first of them a letter or a digit. -/
def IsProjectId (name : Text) : Prop :=
  1 ≤ name.length ∧ name.length ≤ 64 ∧ (∀ c ∈ name, isSlugChar c = true) ∧
    ∀ c ∈ name.head?, isAlnum c = true

/-- 32 digits, an optional suffix, a dot, and letters or digits. -/
def IsCacheFilename (name : Text) : Prop :=
  ∃ digits suffix extension, name = digits ++ (suffix ++ '.' :: extension) ∧ digits.length = 32 ∧
    (∀ c ∈ digits, isHexDigit c = true) ∧ (suffix = [] ∨ suffix = "-annotations".toList) ∧
    extension ≠ [] ∧ ∀ c ∈ extension, isAlnum c = true

/-- Letters, digits, `-` and `_`, the first of them a letter or a digit. -/
def IsSubdirName (name : Text) : Prop :=
  name ≠ [] ∧ (∀ c ∈ name, isSlugChar c = true) ∧ ∀ c ∈ name.head?, isAlnum c = true

section Languages

variable {text name : Text} {c : Char}

theorem admits_alnum (c : Char) : admits alnumRanges c = isAlnum c := by
  simp [admits, alnumRanges, isAlnum, Bool.or_assoc]

theorem admits_hex (c : Char) : admits hexRanges c = isHexDigit c := by
  simp [admits, hexRanges, isHexDigit]

theorem admits_slug (c : Char) : admits slugRanges c = isSlugChar c := by
  have single : ∀ d : Char, (decide (d ≤ c) && decide (c ≤ d)) = (c == d) := by
    intro d
    rw [Bool.eq_iff_iff, Bool.and_eq_true, decide_eq_true_eq, decide_eq_true_eq, beq_iff_eq]
    exact ⟨fun between => Char.le_antisymm between.2 between.1,
      fun same => same ▸ ⟨Char.le_refl c, Char.le_refl c⟩⟩
  rw [isSlugChar, ← admits_alnum, ← single '_', ← single '-']
  simp [admits, slugRanges, Bool.or_assoc]

theorem slug_of_alnum (alnum : isAlnum c = true) : isSlugChar c = true := by
  rw [isSlugChar, alnum]
  rfl

theorem spells_slug {most : Option Nat} :
    (Pattern.oneOf alnumRanges ++ .repeated (.oneOf slugRanges) 0 most).Spells name ↔
      IsSubdirName name ∧ ∀ bound ∈ most, name.length ≤ bound + 1 := by
  constructor
  · rintro ⟨front, back, ⟨first, admitted, rfl⟩, rest, rfl⟩
    obtain ⟨-, few, all⟩ := spells_repeated_one_of.mp rest
    rw [admits_alnum] at admitted
    refine ⟨⟨by simp, ?_, by simpa using admitted⟩, ?_⟩
    · rw [List.singleton_append, List.forall_mem_cons]
      exact ⟨slug_of_alnum admitted, fun c member => admits_slug c ▸ all c member⟩
    · intro bound given
      simpa using few bound given
  · rintro ⟨⟨some, all, starts⟩, few⟩
    cases name with
    | nil => exact absurd rfl some
    | cons first rest =>
        obtain ⟨-, others⟩ := List.forall_mem_cons.mp all
        refine ⟨[first], rest, ⟨first, ?_, rfl⟩, spells_repeated_one_of.mpr ⟨by simp, ?_, ?_⟩, rfl⟩
        · rw [admits_alnum]
          exact starts first rfl
        · intro bound given
          simpa using few bound given
        · intro c member
          rw [admits_slug]
          exact others c member

theorem spells_project_id : projectIdBody.Spells name ↔ IsProjectId name := by
  rw [projectIdBody, spells_slug, IsSubdirName, IsProjectId, ← List.length_pos_iff]
  simp only [Option.mem_def, Option.some.injEq, forall_eq']
  constructor
  · rintro ⟨⟨some, all, starts⟩, few⟩
    exact ⟨some, few, all, starts⟩
  · rintro ⟨some, few, all, starts⟩
    exact ⟨⟨some, all, starts⟩, few⟩

theorem spells_subdir_name : subdirNameBody.Spells name ↔ IsSubdirName name := by
  rw [subdirNameBody, spells_slug]
  simp

theorem spells_cache_filename : cacheFilenameBody.Spells name ↔ IsCacheFilename name := by
  constructor
  · rintro ⟨digits, rest, isDigits, ⟨suffix, tail, isSuffix, ⟨dot, extension, rfl, letters, rfl⟩, rfl⟩,
      rfl⟩
    obtain ⟨enough, few, hex⟩ := spells_repeated_one_of.mp isDigits
    obtain ⟨some, -, all⟩ := spells_repeated_one_of.mp letters
    refine ⟨digits, suffix, extension, rfl, le_antisymm (few 32 rfl) enough, ?_, isSuffix, ?_, ?_⟩
    · exact fun c member => admits_hex c ▸ hex c member
    · exact List.length_pos_iff.mp some
    · exact fun c member => admits_alnum c ▸ all c member
  · rintro ⟨digits, suffix, extension, rfl, counted, hex, isSuffix, some, all⟩
    refine ⟨digits, _, spells_repeated_one_of.mpr ⟨counted.ge, ?_, ?_⟩,
      ⟨suffix, _, isSuffix, ⟨['.'], extension, rfl, spells_repeated_one_of.mpr ⟨?_, by simp, ?_⟩, rfl⟩,
        rfl⟩, rfl⟩
    · simp [counted]
    · exact fun c member => (admits_hex c).symm ▸ hex c member
    · exact List.length_pos_iff.mpr some
    · exact fun c member => (admits_alnum c).symm ▸ all c member

/-- Names without a newline, and what is read before a final one. -/
theorem before_final_newline {IsName : Text → Prop} (plain : ∀ name, IsName name → '\n' ∉ name) :
    (∃ name, IsName name ∧ (text = name ∨ text = name ++ ['\n'])) ↔
      IsName (beforeFinalNewline text) := by
  constructor
  · rintro ⟨name, isName, rfl | rfl⟩
    · rw [beforeFinalNewline, if_neg]
      · exact isName
      · intro last
        exact plain _ isName (List.mem_of_getLast? last)
    · rw [beforeFinalNewline, List.getLast?_concat, if_pos rfl, List.dropLast_concat]
      exact isName
  · intro isName
    refine ⟨beforeFinalNewline text, isName, ?_⟩
    rw [beforeFinalNewline]
    split
    · rename_i last
      exact .inr (List.dropLast_append_getLast? _ last).symm
    · exact .inl rfl

theorem slug_name_plain (all : ∀ c ∈ name, isSlugChar c = true) : '\n' ∉ name := by
  intro inside
  exact absurd (all _ inside) (by decide)

theorem project_id_plain (name : Text) (isId : IsProjectId name) : '\n' ∉ name :=
  slug_name_plain isId.2.2.1

theorem subdir_name_plain (name : Text) (isName : IsSubdirName name) : '\n' ∉ name :=
  slug_name_plain isName.2.1

theorem cache_name_plain (name : Text) (isName : IsCacheFilename name) : '\n' ∉ name := by
  obtain ⟨digits, suffix, extension, rfl, -, hex, isSuffix, -, all⟩ := isName
  rw [List.mem_append, List.mem_append, List.mem_cons]
  rintro (inside | inside | here | inside)
  · exact absurd (hex _ inside) (by decide)
  · rcases isSuffix with rfl | rfl
    · cases inside
    · revert inside
      decide
  · cases here
  · exact absurd (all _ inside) (by decide)

theorem valid_project_id : matchesProjectId text = true ↔
    IsProjectId (beforeFinalNewline text) := by
  unfold matchesProjectId IsProjectId
  cases beforeFinalNewline text with
  | nil => simp
  | cons first rest =>
      simp only [Bool.and_eq_true, List.all_eq_true, decide_eq_true_eq, List.length_cons,
        List.forall_mem_cons, List.head?_cons, Option.mem_def, Option.some.injEq, forall_eq']
      constructor
      · rintro ⟨⟨starts, all⟩, few⟩
        exact ⟨by omega, by omega, ⟨slug_of_alnum starts, all⟩, starts⟩
      · rintro ⟨-, few, ⟨-, all⟩, starts⟩
        exact ⟨⟨starts, all⟩, by omega⟩

theorem valid_subdir_name : matchesSubdirName text = true ↔
    IsSubdirName (beforeFinalNewline text) := by
  unfold matchesSubdirName IsSubdirName
  cases beforeFinalNewline text with
  | nil => simp
  | cons first rest =>
      simp only [Bool.and_eq_true, List.all_eq_true, List.forall_mem_cons, List.head?_cons,
        Option.mem_def, Option.some.injEq, forall_eq']
      constructor
      · rintro ⟨starts, all⟩
        exact ⟨by simp, ⟨slug_of_alnum starts, all⟩, starts⟩
      · rintro ⟨-, ⟨-, all⟩, starts⟩
        exact ⟨starts, all⟩

/-- No name has the suffix and is read without it: a dot has to follow. -/
theorem after_annotations {rest : Text} :
    (∃ extension, afterAnnotations rest = '.' :: extension ∧ extension ≠ [] ∧
      ∀ c ∈ extension, isAlnum c = true) ↔
      ∃ suffix extension, rest = suffix ++ '.' :: extension ∧
        (suffix = [] ∨ suffix = "-annotations".toList) ∧ extension ≠ [] ∧
        ∀ c ∈ extension, isAlnum c = true := by
  unfold afterAnnotations
  constructor
  · rintro ⟨extension, starts, some, all⟩
    split at starts
    · rename_i suffixed
      obtain ⟨tail, rfl⟩ := List.isPrefixOf_iff_prefix.mp suffixed
      exact ⟨_, extension, by rw [← starts]; rfl, .inr rfl, some, all⟩
    · exact ⟨[], extension, starts, .inl rfl, some, all⟩
  · rintro ⟨suffix, extension, rfl, rfl | rfl, some, all⟩
    · exact ⟨extension, by rw [if_neg (by simp)]; rfl, some, all⟩
    · refine ⟨extension, ?_, some, all⟩
      rw [if_pos (List.isPrefixOf_iff_prefix.mpr (List.prefix_append _ _))]
      rfl

theorem valid_cache_filename :
    matchesCacheFilename text = true ↔ IsCacheFilename (beforeFinalNewline text) := by
  unfold matchesCacheFilename IsCacheFilename
  generalize beforeFinalNewline text = body
  rw [Bool.and_eq_true, Bool.and_eq_true, List.all_eq_true, beq_iff_eq]
  constructor
  · rintro ⟨⟨counted, hex⟩, tail⟩
    split at tail
    · rename_i extension starts
      rw [Bool.and_eq_true, bne_iff_ne, List.all_eq_true] at tail
      obtain ⟨suffix, extension, spelled, rest⟩ := after_annotations.mp ⟨extension, starts, tail⟩
      exact ⟨body.take 32, suffix, extension, by rw [← spelled, List.take_append_drop], counted, hex, rest⟩
    · cases tail
  · rintro ⟨digits, suffix, extension, rfl, counted, hex, rest⟩
    rw [List.take_left' counted, List.drop_left' counted]
    obtain ⟨extension, starts, some, all⟩ := after_annotations.mpr ⟨suffix, extension, rfl, rest⟩
    have read : (extension != [] && extension.all isAlnum) = true := by
      rw [Bool.and_eq_true, bne_iff_ne, List.all_eq_true]
      exact ⟨some, all⟩
    refine ⟨⟨counted, hex⟩, ?_⟩
    rw [starts]
    exact read

/-! The validators are the patterns. -/

theorem match_project_id : projectIdPattern.Matches text ↔ matchesProjectId text = true := by
  rw [projectIdPattern, anchored_matches rfl, valid_project_id, ← before_final_newline project_id_plain]
  simp only [spells_project_id]

theorem match_cache_filename :
    cacheFilenamePattern.Matches text ↔ matchesCacheFilename text = true := by
  rw [cacheFilenamePattern, anchored_matches rfl, valid_cache_filename,
    ← before_final_newline cache_name_plain]
  simp only [spells_cache_filename]

theorem match_subdir_name : subdirNamePattern.Matches text ↔ matchesSubdirName text = true := by
  rw [subdirNamePattern, anchored_matches rfl, valid_subdir_name,
    ← before_final_newline subdir_name_plain]
  simp only [spells_subdir_name]

end Languages

/-! ## What is accepted -/

/-- `project_dir` gives a path. -/
def Accepts (settings : Settings) (s : String) : Prop := ∃ path, projectDir settings s = pure path

/-- A harvest does not pass a file over for its name. -/
def Takes (s : String) : Prop :=
  ∀ pid route parts added, (harvestFile pid route parts added s).ended = false

/-- A harvest goes into what is no link. -/
def Descends (s : String) : Prop := ∀ (world : DiskWorld) (dir : Path),
  world.drive.disk.isLink (dir ++ [s]) = false → (run onDisk world (isPlainSubdir dir s)).1 = .ok true

/-- A text is accepted where it is a name, and nowhere else. -/
structure NamesExact (settings : Settings) (s : String) : Prop where
  project : Accepts settings s ↔ IsProjectId s.toList
  file : Takes s ↔ IsCacheFilename s.toList
  directory : Descends s ↔ IsSubdirName s.toList

section Accepted

variable {settings : Settings} {s : String} {text : Text}

theorem accepts_iff : Accepts settings s ↔ projectIdPattern.Matches s.toList := by
  rw [match_project_id, Accepts]
  unfold projectDir
  cases matchesProjectId s.toList with
  | true => simp
  | false =>
      simp only [Bool.false_eq_true, if_false, iff_false, not_exists]
      rintro path ⟨⟩

theorem takes_iff : Takes s ↔ cacheFilenamePattern.Matches s.toList := by
  rw [match_cache_filename, Takes]
  unfold harvestFile
  cases matchesCacheFilename s.toList with
  | true => exact iff_of_true (fun pid route parts added => rfl) rfl
  | false =>
      simp only [Bool.false_eq_true, iff_false]
      intro taken
      exact Bool.noConfusion (taken 0 ⟨"", [], []⟩ [] [])

theorem descends_iff : Descends s ↔ subdirNamePattern.Matches s.toList := by
  rw [match_subdir_name, Descends]
  constructor
  · intro descends
    have nothing : (Disk.ofList []).isLink (["nowhere"] ++ [s]) = false := by
      rw [Disk.isLink, Disk.lstat, spot_concat]
      rfl
    have away := descends ⟨⟨.ofList [], []⟩, 0, fun _ => 0⟩ ["nowhere"] nothing
    rw [run_is_plain_subdir, nothing, Bool.not_false, Bool.and_true] at away
    exact Except.ok.inj away
  · intro matched world dir unlinked
    rw [run_is_plain_subdir, matched, unlinked]
    rfl

/-- A language without newlines is read exactly but for the newlines that are passed over. -/
theorem exact_iff {IsName : Text → Prop} (plain : ∀ name, IsName name → '\n' ∉ name) :
    ((∃ name, IsName name ∧ (text = name ∨ text = name ++ ['\n'])) ↔ IsName text) ↔
      ¬ ∃ name, IsName name ∧ text = name ++ ['\n'] := by
  constructor
  · rintro agree ⟨name, isName, rfl⟩
    exact plain _ (agree.mp ⟨name, isName, .inr rfl⟩) (by simp)
  · intro apart
    constructor
    · rintro ⟨name, isName, rfl | read⟩
      · exact isName
      · exact absurd ⟨name, isName, read⟩ apart
    · exact fun isName => ⟨text, isName, .inl rfl⟩

end Accepted

/-- A name with a newline behind it is accepted too. -/
theorem names_exact_iff (settings : Settings) (s : String) :
    NamesExact settings s ↔ ¬ ∃ name, s.toList = name ++ ['\n'] ∧
      (IsProjectId name ∨ IsCacheFilename name ∨ IsSubdirName name) := by
  have project := @exact_iff s.toList _ project_id_plain
  have file := @exact_iff s.toList _ cache_name_plain
  have directory := @exact_iff s.toList _ subdir_name_plain
  constructor
  · rintro ⟨projects, files, directories⟩ ⟨name, read, isName⟩
    rw [accepts_iff, projectIdPattern, anchored_matches rfl] at projects
    rw [takes_iff, cacheFilenamePattern, anchored_matches rfl] at files
    rw [descends_iff, subdirNamePattern, anchored_matches rfl] at directories
    simp only [spells_project_id, spells_cache_filename, spells_subdir_name] at projects files directories
    rcases isName with isId | isFile | isDir
    · exact project.mp projects ⟨name, isId, read⟩
    · exact file.mp files ⟨name, isFile, read⟩
    · exact directory.mp directories ⟨name, isDir, read⟩
  · intro apart
    constructor
    · rw [accepts_iff, projectIdPattern, anchored_matches rfl]
      simp only [spells_project_id]
      exact project.mpr fun ⟨name, isId, read⟩ => apart ⟨name, read, .inl isId⟩
    · rw [takes_iff, cacheFilenamePattern, anchored_matches rfl]
      simp only [spells_cache_filename]
      exact file.mpr fun ⟨name, isFile, read⟩ => apart ⟨name, read, .inr (.inl isFile)⟩
    · rw [descends_iff, subdirNamePattern, anchored_matches rfl]
      simp only [spells_subdir_name]
      exact directory.mpr fun ⟨name, isDir, read⟩ => apart ⟨name, read, .inr (.inr isDir)⟩

theorem final_newline_accepted :
    ¬ NamesExact defaults "book-42\n" ∧
      ¬ NamesExact defaults "0123456789abcdef0123456789abcdef.svg\n" := by
  constructor
  · rintro ⟨project, -, -⟩
    have accepted : Accepts defaults "book-42\n" := ⟨root defaults ++ ["book-42\n"], rfl⟩
    exact absurd (project_id_plain _ (project.mp accepted)) (by decide)
  · rintro ⟨-, file, -⟩
    have taken : Takes "0123456789abcdef0123456789abcdef.svg\n" := fun pid route parts added => rfl
    exact absurd (cache_name_plain _ (file.mp taken)) (by decide)

end PretextBuildServer.NameLanguages
