import PretextBuildServer.Library.ShellWords
import PretextBuildServer.RunCalls

/-!
# From a request to the words the CLI gets

The target and the asset names are quoted, put into a command template and
given to `sh -c`; the names also go through the record into the callback.
-/

namespace PretextBuildServer.CommandLines

open EffectProgram EffectProgram.Program ShellWords
open PretextBuildServer.ServerSettings PretextBuildServer.JobRecord PretextBuildServer.JobCalls
open PretextBuildServer.NameValidators PretextBuildServer.CompletionCallback
open PretextBuildServer.ApiEndpoints PretextBuildServer.BuildWorker PretextBuildServer.JobSystem
open PretextBuildServer.RunCalls

set_option autoImplicit false

/-- The value `BUILD_COMMAND` falls back to. -/
def defaultBuildCommand : String :=
  "if [ -d ~/.ptx/latex-packages ]; then mkdir -p generated-assets/latex-packages" ++
    " && cp -r ~/.ptx/latex-packages/. generated-assets/latex-packages/; fi;" ++
    " pretext build {target}"

/-- The value `GENERATE_COMMAND` falls back to. -/
def defaultGenerateCommand : String := "pretext generate {assets} -t {target}"

/-- `str.format` with keyword arguments; the first argument is the name of the
field that is being read. Fields with a conversion, a format or a lookup raise
here, no template of the server has one. -/
def formatFrom (arguments : List (String × List Char)) :
    Option (List Char) → List Char → Option (List Char)
  | none, [] => some []
  | some _, [] => none
  | none, '{' :: '{' :: rest => ('{' :: ·) <$> formatFrom arguments none rest
  | none, '}' :: '}' :: rest => ('}' :: ·) <$> formatFrom arguments none rest
  | none, '{' :: rest => formatFrom arguments (some []) rest
  | none, '}' :: _ => none
  | none, c :: rest => (c :: ·) <$> formatFrom arguments none rest
  | some name, '}' :: rest =>
      match arguments.lookup (String.ofList name) with
      | some value => (value ++ ·) <$> formatFrom arguments none rest
      | none => none
  | some name, c :: rest =>
      if ['{', '!', ':', '.', '['].contains c then none
      else formatFrom arguments (some (name ++ [c])) rest

def format (template : String) (arguments : List (String × List Char)) : Option (List Char) :=
  formatFrom arguments none template.toList

def buildLine (buildCommand target : String) : Option (List Char) :=
  format buildCommand [("target", quote target.toList)]

def generateLine (generateCommand target : String) (assets : List String) : Option (List Char) :=
  format generateCommand
    [("target", quote target.toList),
      ("assets", [' '].intercalate (assets.map fun asset => quote asset.toList))]

/-- A template that cannot be formatted raises before anything is run. -/
def runBuild (settings : Settings) (buildCommand jobId target : String) : JobProgram Unit :=
  match buildLine buildCommand target with
  | some command =>
      runJob settings jobId .build (String.ofList command) settings.buildSandbox
  | none => raise { kind := .other }

def runGenerate (settings : Settings) (generateCommand jobId target : String)
    (assets : List String) : JobProgram Unit :=
  match generateLine generateCommand target assets with
  | some command =>
      runJob settings jobId .generate (String.ofList command) settings.generateSandbox true
  | none => raise { kind := .other }

/-! ## Formatting the two templates -/

/-- What the build command does before `pretext` is called. -/
def buildPreamble : String :=
  "if [ -d ~/.ptx/latex-packages ]; then mkdir -p generated-assets/latex-packages" ++
    " && cp -r ~/.ptx/latex-packages/. generated-assets/latex-packages/; fi;"

theorem format_plain (arguments : List (String × List Char)) (text rest : List Char)
    (plain : ∀ c ∈ text, c ≠ '{' ∧ c ≠ '}') :
    formatFrom arguments none (text ++ rest) = (text ++ ·) <$> formatFrom arguments none rest := by
  induction text with
  | nil => simp
  | cons c text induction =>
      obtain ⟨first, others⟩ := List.forall_mem_cons.mp plain
      have step : formatFrom arguments none (c :: (text ++ rest)) =
          (c :: ·) <$> formatFrom arguments none (text ++ rest) := by
        rw [formatFrom]
        · exact fun _ same => absurd same first.1
        · exact fun _ same => absurd same first.2
        · exact first.1
        · exact first.2
      rw [List.cons_append, step, induction others]
      simp [Function.comp_def]

theorem build_line (target : String) :
    buildLine defaultBuildCommand target =
      some (buildPreamble.toList ++ " pretext build ".toList ++ quote target.toList) := by
  have unbraced : buildPreamble.toList.all (fun c => c != '{' && c != '}') = true := by
    unfold buildPreamble
    simp only [String.toList_append, String.reduceToList]
    decide +kernel
  have preamble : ∀ c ∈ buildPreamble.toList, c ≠ '{' ∧ c ≠ '}' := by
    simpa only [List.all_eq_true, Bool.and_eq_true, bne_iff_ne] using unbraced
  have parts : defaultBuildCommand.toList =
      buildPreamble.toList ++ " pretext build {target}".toList := by
    unfold defaultBuildCommand buildPreamble
    rw [String.toList_append]
  rw [buildLine, format, parts, format_plain _ _ _ preamble]
  simp [formatFrom]

theorem generate_line (target : String) (assets : List String) :
    generateLine defaultGenerateCommand target assets =
      some ("pretext generate ".toList ++
        [' '].intercalate (assets.map fun asset => quote asset.toList) ++ " -t ".toList ++
        quote target.toList) := by
  simp [generateLine, defaultGenerateCommand, format, formatFrom, List.lookup_cons]

/-! ## The words -/

/-- The tokens of the line are `before` and then one command of these words, each
of which stands for its own text. -/
def GivesWords (line : List Char) (before : List Token) (words : List String) : Prop :=
  ∃ given : List Word, tokenize line = some (before ++ given.map .word) ∧
    (simpleCommands (before ++ given.map .word)).getLast? = some given ∧
    given.map textOf = words ∧ given.all isLiteral = true

def quotedWords (texts : List String) : List Word := texts.map fun text => quotedWord text.toList

theorem texts_of_quoted_words (texts : List String) : (quotedWords texts).map textOf = texts := by
  simp [quotedWords, Function.comp_def]

theorem quoted_words_literal (texts : List String) : (quotedWords texts).all isLiteral = true := by
  simp [quotedWords, quoted_word_literal]

/-- After a line that ends where a word may begin, a quoted text is the last word. -/
theorem tokenize_quote (line : List Char) (tokens : List Token)
    (ready : scanLine {} line = { tokens }) (text : List Char) :
    tokenize (line ++ quote text) = some (tokens ++ [.word (quotedWord text)]) := by
  have last := scan_quote { tokens } rfl rfl text
  rw [scanLine] at ready last
  rw [tokenize, scanLine, List.foldl_append, ready, last]
  rfl

def preambleTokens : List Token := (tokenize buildPreamble.toList).getD []

theorem build_gives (target : String) :
    GivesWords (buildPreamble.toList ++ " pretext build ".toList ++ quote target.toList)
      preambleTokens ["pretext", "build", target] := by
  have ready : scanLine {} (buildPreamble.toList ++ " pretext build ".toList) =
      { tokens := preambleTokens ++ (quotedWords ["pretext", "build"]).map .word } := by
    unfold preambleTokens buildPreamble
    simp only [String.toList_append, String.reduceToList]
    decide +kernel
  refine ⟨quotedWords ["pretext", "build", target], ?_, ?_, texts_of_quoted_words _,
    quoted_words_literal _⟩
  · rw [tokenize_quote _ _ ready]
    simp [quotedWords]
  · have parts : preambleTokens = preambleTokens.dropLast ++ [.operator [';']] := by
      unfold preambleTokens buildPreamble
      simp only [String.toList_append, String.reduceToList]
      decide +kernel
    rw [parts, List.append_assoc]
    exact last_command _ rfl _ (by decide)

theorem generate_gives (target : String) (assets : List String) :
    GivesWords ("pretext generate ".toList ++
        [' '].intercalate (assets.map fun asset => quote asset.toList) ++ " -t ".toList ++
        quote target.toList) []
      (["pretext", "generate"] ++ assets ++ ["-t", target]) := by
  let texts := ["pretext", "generate"] ++ assets ++ ["-t", target]
  have ready : scanLine {} ("pretext generate ".toList ++
      [' '].intercalate (assets.map fun asset => quote asset.toList) ++ " -t ".toList) =
      { tokens := (quotedWords (["pretext", "generate"] ++ assets ++ ["-t"])).map .word } := by
    have start : scanLine {} "pretext generate ".toList =
        { tokens := (quotedWords ["pretext", "generate"]).map .word } := by
      decide +kernel
    have named := scan_quoted_words { tokens := (quotedWords ["pretext", "generate"]).map .word } rfl
      rfl (assets.map String.toList)
    have flag : ∀ tokens, scanLine { tokens } "-t ".toList =
        { tokens := tokens ++ (quotedWords ["-t"]).map .word } := by
      intro tokens
      rfl
    have blank : " -t ".toList = [' '] ++ "-t ".toList := by decide
    rw [List.map_map] at named
    rw [scanLine] at start named
    rw [blank, List.append_assoc, ← List.append_assoc _ [' '], scanLine, List.foldl_append, start,
      List.foldl_append, ← Function.comp_def quote String.toList, named]
    exact (flag _).trans (by simp [quotedWords])
  refine ⟨quotedWords texts, ?_, ?_, texts_of_quoted_words _, quoted_words_literal _⟩
  · rw [tokenize_quote _ _ ready]
    simp [quotedWords, texts]
  · rw [List.nil_append]
    exact (congrArg List.getLast? (one_command _ (by decide))).trans rfl

/-! ## The names -/

theorem split_asset_names (assets : List String) :
    splitWords (" ".intercalate (assetNames assets)) = assetNames assets := by
  have runs : ∀ run ∈ (assetNames assets).map String.toList, IsRun isSpace run := by
    intro run member
    simp only [assetNames, List.map_flatMap, List.map_map, List.mem_flatMap, List.mem_map] at member
    obtain ⟨item, -, run, found, rfl⟩ := member
    obtain ⟨nonempty, plain⟩ := split_runs_are_runs _ _ run found
    rw [Function.comp_apply, String.toList_ofList]
    refine ⟨nonempty, fun c inside => ?_⟩
    exact (Bool.or_eq_false_iff.mp (plain c inside)).2
  rw [splitWords, String.toList_intercalate,
    show " ".toList = [' '] by decide, split_joined_runs isSpace (by decide) _ runs]
  simp [Function.comp_def]

/-- The target and the names a request's asset items split into reach the CLI,
and the names the callback, as they are. Whatever they are, they add no command,
no redirection and no expansion to the line. -/
theorem arguments_reach_cli (settings : Settings) (jobId target : String) (assets : List String)
    (projectId token callbackUrl authorization : Option String) :
    (∃ line, runGenerate settings defaultGenerateCommand jobId target (assetNames assets) =
        runJob settings jobId .generate (String.ofList line) settings.generateSandbox true ∧
      GivesWords line [] (["pretext", "generate"] ++ assetNames assets ++ ["-t", target])) ∧
    (∃ line, runBuild settings defaultBuildCommand jobId target =
        runJob settings jobId .build (String.ofList line) settings.buildSandbox ∧
      GivesWords line preambleTokens ["pretext", "build", target]) ∧
    MakesOnly
      (submitting fun fields => fields.assets = some (" ".intercalate (assetNames assets)))
      (createGenerate settings jobId target assets projectId token callbackUrl authorization) ∧
    splitWords (" ".intercalate (assetNames assets)) = assetNames assets := by
  refine ⟨⟨_, ?_, generate_gives target _⟩, ⟨_, ?_, build_gives target⟩, ?_, split_asset_names assets⟩
  · rw [runGenerate, generate_line]
  · rw [runBuild, build_line]
  · exact create_generate_makes _ _ _ _ _ _ _ _ fun _ _ _ _ => rfl

end PretextBuildServer.CommandLines
