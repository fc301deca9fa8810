import PretextBuildServer.Library.CallExpansion
import PretextBuildServer.ResultEndpoints
import PretextBuildServer.ZipArchive

/-!
# Fetching one file of an archive

`get_generated_file`, and what becomes of it as an HTTP response. The route takes
a path without a line break as it is, and a header is made in Latin-1 or not at
all; the names in the archive know neither limit.
-/

namespace PretextBuildServer.FileRetrieval

open EffectProgram EffectProgram.Program PosixDisk
open PretextBuildServer.ServerSettings PretextBuildServer.JobRecord PretextBuildServer.JobCalls
open PretextBuildServer.NameValidators PretextBuildServer.StoreCalls
open PretextBuildServer.ApiEndpoints PretextBuildServer.ResultEndpoints
open PretextBuildServer.DiskCalls PretextBuildServer.ZipCalls
open PretextBuildServer.OutcomeCoherence PretextBuildServer.PathTexts
open PretextBuildServer.TreeWalks PretextBuildServer.ZipArchive

set_option autoImplicit false

/-! ## The endpoint -/

/-- What the other endpoints call, and `ZipFile.read`. -/
inductive FileCall where
  | job (request : JobCall)
  | readMember (zipPath : Path) (name : String)

abbrev FileCall.Answer : FileCall → Type
  | .job request => request.Answer
  | .readMember .. => Bytes

abbrev FileProgram := Program FileCall.Answer Raised

def ofJob {Result : Type} (program : JobProgram Result) : FileProgram Result :=
  program.expand fun request => perform (FileCall.job request)

structure ContentResponse where
  content : Bytes
  mediaType : String
  contentDisposition : String
  deriving DecidableEq

def isLatin1 (text : String) : Bool := text.toList.all fun c => c.toNat ≤ 0xFF

/-- `os.path.basename` -/
def basename (path : String) : String :=
  String.ofList (path.toList.reverse.takeWhile (· != '/')).reverse

/-- The headers are encoded when the response is made. -/
def contentResponse (content : Bytes) (mediaType contentDisposition : String) :
    FileProgram ContentResponse :=
  if isLatin1 mediaType && isLatin1 contentDisposition then
    return { content, mediaType, contentDisposition }
  else raise { kind := .unicodeError }

section Endpoint

variable (guessType : String → Option String)

def mediaTypeOf (path : String) : String := (guessType path).getD "application/octet-stream"

def dispositionOf (path : String) : String := s!"attachment; filename=\"{basename path}\""

/-- `guessType` is the first half of `mimetypes.guess_type`. -/
def getGeneratedFile (settings : Settings) (jobId path : String) :
    FileProgram ContentResponse := do
  let data ← ofJob (load .generate)
  if !data.isTerminal then ofJob (httpException 409 (unfinishedDetail data))
  else
    let zipPath := settings.jobDir jobId ++ ["output.zip"]
    let names := data.files.getD []
    let missing ← if path ∉ names then pure true else (! ·) <$> ofJob (isFile zipPath)
    if missing then ofJob (httpException 404 "No such file in this job's output")
    else
      let content ← perform (FileCall.readMember zipPath path)
      contentResponse content (mediaTypeOf guessType path) (dispositionOf path)

end Endpoint

/-! ## The response -/

/-- What the endpoint finds: the record, and the members of output.zip. -/
structure Served where
  record : Option Fields
  archive : Option (List Member)

/-- Of members with one name, the last one is read. -/
def readMember (members : List Member) (name : String) : Except Raised Bytes :=
  match members.reverse.find? fun member => member.name == name with
  | some member => .ok member.bytes
  | none => .error { kind := .other, message := "There is no such item in the archive" }

def fromStore (zipPath : Path) : Handler FileCall.Answer Raised Served
  | world, .job (.hgetall _) => (.ok world.record, world)
  | world, .job (.isFile path) => (.ok (path = zipPath && world.archive.isSome), world)
  | world, .job _ => (.error { kind := .osError }, world)
  | world, .readMember path name =>
      (if path = zipPath then readMember (world.archive.getD []) name
        else .error { kind := .osError }, world)

structure HttpResponse where
  statusCode : Nat
  content : Option Bytes := none
  deriving DecidableEq

/-- What stands around the endpoint: `mimetypes`, the path that a request path is
routed as, if any, the status of the answer to others, and the headers that are sent. -/
structure Framework where
  guessType : String → Option String
  route : String → Option String
  unrouted : String → Nat
  sends : (mediaType contentDisposition : String) → Bool

/-- The path convertor takes what has no line break. -/
def Framework.TakesPlainPaths (framework : Framework) : Prop :=
  ∀ path : String, '\n' ∉ path.toList → framework.route path = some path

/-- An exception that is no `HTTPException` is answered with 500, and headers that
cannot be sent with nothing. -/
def Framework.respond (framework : Framework) : Except Raised ContentResponse → Option HttpResponse
  | .ok response =>
      if framework.sends response.mediaType response.contentDisposition then
        some { statusCode := 200, content := some response.content }
      else none
  | .error { kind := .httpException statusCode, .. } => some { statusCode }
  | .error _ => some { statusCode := 500 }

/-- GET /generate/{job_id}/files/{path} -/
def getFile (framework : Framework) (settings : Settings) (jobId : String) (world : Served)
    (path : String) : Option HttpResponse :=
  match framework.route path with
  | none => some { statusCode := framework.unrouted path }
  | some taken =>
      framework.respond (run (fromStore (settings.jobDir jobId ++ ["output.zip"])) world
        (getGeneratedFile framework.guessType settings jobId taken)).1

/-! ## A finished job -/

/-- A generate job has finished, with the tree at `outputDir` packed, if there
was one. -/
structure Finished (world : Served) (progress : Progress) (tree : DiskWorld) (outputDir : Path) :
    Prop where
  record : world.record = some progress.record
  kind : progress.record.kind = some .generate
  terminal : progress.record.isTerminal = true
  coherent : Coherent .generate progress
  archive : progress.zip = world.archive.map (·.map Member.name)
  valid : ValidNames tree.drive.disk
  packed : ∀ members, world.archive = some members → tree.drive.disk.isDir outputDir = true ∧
    ∃ localYear depth skip names,
      (run (onTree localYear) tree (zipDir depth outputDir skip)).1 = .ok (members, names)

def Served.listed (world : Served) : List String := (world.record.bind Fields.files).getD []

/-- A listed path is answered with the bytes its file was packed with, every other
one with 404. -/
structure AnsweredRight (framework : Framework) (settings : Settings) (jobId : String)
    (world : Served) (tree : DiskWorld) (outputDir : Path) (path : String) : Prop where
  listed : path ∈ world.listed → ∃ bytes,
    tree.drive.disk.stat (outputDir ++ pathNames path) = some (.file bytes) ∧
      getFile framework settings jobId world path =
        some { statusCode := 200, content := some bytes }
  unlisted : path ∉ world.listed → ∃ response,
    getFile framework settings jobId world path = some response ∧ response.statusCode = 404

/-- The headers that a file comes with can be made and sent. -/
structure Sendable (framework : Framework) (name : String) : Prop where
  disposition : isLatin1 (basename name) = true
  mediaType : isLatin1 (mediaTypeOf framework.guessType name) = true
  sent : framework.sends (mediaTypeOf framework.guessType name) (dispositionOf name) = true

/-- A listed path is routed as one whose file has the same bytes and can be sent;
any other path as none that is listed, or not at all and then answered with 404. -/
structure Answerable (framework : Framework) (world : Served) (tree : DiskWorld)
    (outputDir : Path) (path : String) : Prop where
  listed : path ∈ world.listed → ∃ taken, framework.route path = some taken ∧
    taken ∈ world.listed ∧ Sendable framework taken ∧
      tree.drive.disk.stat (outputDir ++ pathNames taken) =
        tree.drive.disk.stat (outputDir ++ pathNames path)
  unlisted : path ∉ world.listed → (∀ taken, framework.route path = some taken →
    taken ∉ world.listed) ∧
      (framework.route path = none → framework.unrouted path = 404)

section Answers

variable {framework : Framework} {settings : Settings} {jobId : String}
  {world : Served} {progress : Progress} {tree : DiskWorld} {outputDir : Path}

theorem listed_names (finished : Finished world progress tree outputDir) :
    world.listed = (world.archive.map fun members => sortedNames (members.map Member.name)).getD [] := by
  rw [Served.listed, finished.record, Option.bind_some, finished.coherent.files, if_pos rfl,
    finished.archive, Option.map_map]
  rfl

theorem mem_listed (finished : Finished world progress tree outputDir) {name : String} :
    name ∈ world.listed ↔ ∃ members, world.archive = some members ∧
      ∃ member ∈ members, member.name = name := by
  rw [listed_names finished]
  cases world.archive with
  | none => simp
  | some members => simp [sortedNames]

theorem member_is_file (finished : Finished world progress tree outputDir) {members : List Member}
    (archive : world.archive = some members) {member : Member} (inside : member ∈ members) :
    tree.drive.disk.stat (outputDir ++ pathNames member.name) = some (.file member.bytes) := by
  obtain ⟨directory, localYear, depth, skip, names, ran⟩ := finished.packed members archive
  obtain ⟨parts, valid, named, written⟩ := (zip_dir_writes finished.valid ran).2 member inside
  rw [named, path_names_joined valid, zip_write_stat written]

theorem read_listed (finished : Finished world progress tree outputDir) {members : List Member}
    (archive : world.archive = some members) {name : String} {member : Member}
    (inside : member ∈ members) (named : member.name = name) :
    readMember members name = .ok member.bytes := by
  unfold readMember
  split
  · rename_i other found
    have same : other.name = name := by simpa using List.find?_some found
    have there : other ∈ members := List.mem_reverse.mp (List.mem_of_find?_eq_some found)
    have file := member_is_file finished archive there
    rw [same, ← named, member_is_file finished archive inside, Option.some.injEq,
      Entry.file.injEq] at file
    rw [file]
  · rename_i missing
    rw [List.find?_eq_none] at missing
    exact absurd (by simpa using named) (missing member (List.mem_reverse.mpr inside))

theorem disposition_latin1 (path : String) :
    isLatin1 (dispositionOf path) = isLatin1 (basename path) := by
  have front : "attachment; filename=\"".toList.all (fun c => c.toNat ≤ 0xFF) = true := by
    decide +kernel
  have back : "\"".toList.all (fun c => c.toNat ≤ 0xFF) = true := by decide
  change ("attachment; filename=\"" ++ basename path ++ "\"").toList.all _ = _
  rw [String.toList_append, String.toList_append, List.all_append, List.all_append, front, back,
    Bool.true_and, Bool.and_true]
  rfl

theorem run_load (zipPath : Path) (finished : Finished world progress tree outputDir) :
    run (fromStore zipPath) world (ofJob (load .generate)) = (.ok progress.record, world) := by
  simp only [load, storeGet, ofJob, bind_is_and_then, perform, call_and_then, done_and_then,
    expand_call, run_call, fromStore, finished.record, run_done, on_value_ok,
    finished.kind, Option.getD_some, ne_eq, not_true_eq_false, if_false, pure_is_done, expand_done]

theorem run_is_file (zipPath : Path) {Result : Type} (next : Bool → FileProgram Result) :
    run (fromStore zipPath) world ((! ·) <$> ofJob (isFile zipPath) >>= next) =
      run (fromStore zipPath) world (next !world.archive.isSome) := by
  simp [ofJob, isFile, perform, fromStore]

theorem answer_listed (finished : Finished world progress tree outputDir) {members : List Member}
    (archive : world.archive = some members) {member : Member} (inside : member ∈ members) :
    framework.respond (run (fromStore (settings.jobDir jobId ++ ["output.zip"])) world
        (getGeneratedFile framework.guessType settings jobId member.name)).1 =
      if isLatin1 (mediaTypeOf framework.guessType member.name) &&
          isLatin1 (basename member.name) then
        if framework.sends (mediaTypeOf framework.guessType member.name)
            (dispositionOf member.name) then
          some { statusCode := 200, content := some member.bytes }
        else none
      else some { statusCode := 500 } := by
  have listed : member.name ∈ progress.record.files.getD [] := by
    have named := (mem_listed finished).mpr ⟨members, archive, member, inside, rfl⟩
    rwa [Served.listed, finished.record] at named
  rw [getGeneratedFile, bind_is_and_then, run_and_then, run_load _ finished, on_value_ok,
    finished.terminal]
  simp only [Bool.not_true, Bool.false_eq_true, if_false, listed, not_true_eq_false]
  rw [run_is_file, archive]
  simp only [Option.isSome_some, Bool.not_true, Bool.false_eq_true, if_false]
  rw [bind_is_and_then, run_and_then, run_perform]
  simp only [fromStore, if_true, archive, Option.getD_some,
    read_listed finished archive inside rfl, on_value_ok]
  rw [contentResponse, disposition_latin1]
  split <;> rfl

theorem answer_unlisted (finished : Finished world progress tree outputDir) {path : String}
    (unlisted : path ∉ world.listed) :
    framework.respond (run (fromStore (settings.jobDir jobId ++ ["output.zip"])) world
      (getGeneratedFile framework.guessType settings jobId path)).1 = some { statusCode := 404 } := by
  rw [Served.listed, finished.record, Option.bind_some] at unlisted
  rw [getGeneratedFile, bind_is_and_then, run_and_then, run_load _ finished, on_value_ok,
    finished.terminal]
  simp only [Bool.not_true, Bool.false_eq_true, if_false, unlisted, not_false_eq_true, if_true]
  rfl

theorem answer_sends (finished : Finished world progress tree outputDir) {taken : String}
    (listed : taken ∈ world.listed) (bytes : Bytes) :
    framework.respond (run (fromStore (settings.jobDir jobId ++ ["output.zip"])) world
        (getGeneratedFile framework.guessType settings jobId taken)).1 =
      some { statusCode := 200, content := some bytes } ↔
    Sendable framework taken ∧
      tree.drive.disk.stat (outputDir ++ pathNames taken) = some (.file bytes) := by
  obtain ⟨members, archive, member, inside, rfl⟩ := (mem_listed finished).mp listed
  rw [answer_listed finished archive inside, member_is_file finished archive inside]
  constructor
  · intro answered
    split at answered
    case isFalse => cases answered
    case isTrue latin =>
      split at answered
      case isFalse => cases answered
      case isTrue sent =>
        cases answered
        rw [Bool.and_eq_true] at latin
        exact ⟨⟨latin.2, latin.1, sent⟩, rfl⟩
  · rintro ⟨⟨disposition, mediaType, sent⟩, same⟩
    cases same
    rw [disposition, mediaType, sent]
    rfl

theorem listed_found (finished : Finished world progress tree outputDir) {taken : String}
    (listed : taken ∈ world.listed) {response : HttpResponse}
    (answered : framework.respond (run (fromStore (settings.jobDir jobId ++ ["output.zip"])) world
      (getGeneratedFile framework.guessType settings jobId taken)).1 = some response) :
    response.statusCode ≠ 404 := by
  obtain ⟨members, archive, member, inside, rfl⟩ := (mem_listed finished).mp listed
  rw [answer_listed finished archive inside] at answered
  split at answered
  · split at answered <;> cases answered
    simp
  · cases answered
    simp

/-- A path that no route takes is answered without the endpoint. -/
theorem unrouted_right_iff {path : String} (routed : framework.route path = none) :
    AnsweredRight framework settings jobId world tree outputDir path ↔
      Answerable framework world tree outputDir path := by
  have got : getFile framework settings jobId world path =
      some { statusCode := framework.unrouted path } := by rw [getFile, routed]
  constructor
  · rintro ⟨listed, unlisted⟩
    refine ⟨fun inside => ?_, fun outside => ⟨fun taken same => ?_, fun _ => ?_⟩⟩
    · obtain ⟨bytes, -, answered⟩ := listed inside
      cases congrArg HttpResponse.content (Option.some.inj (got.symm.trans answered))
    · cases routed.symm.trans same
    · obtain ⟨response, answered, status⟩ := unlisted outside
      rw [← status, ← Option.some.inj (got.symm.trans answered)]
  · rintro ⟨listed, unlisted⟩
    refine ⟨fun inside => ?_, fun outside => ⟨_, got, (unlisted outside).2 routed⟩⟩
    obtain ⟨taken, same, -⟩ := listed inside
    cases routed.symm.trans same

theorem listed_is_file (finished : Finished world progress tree outputDir) {name : String}
    (listed : name ∈ world.listed) :
    ∃ bytes, tree.drive.disk.stat (outputDir ++ pathNames name) = some (.file bytes) := by
  obtain ⟨members, archive, member, inside, rfl⟩ := (mem_listed finished).mp listed
  exact ⟨member.bytes, member_is_file finished archive inside⟩

/-- A path that is routed is answered as the path it is routed as. -/
theorem routed_right_iff (finished : Finished world progress tree outputDir) {path taken : String}
    (routed : framework.route path = some taken) :
    AnsweredRight framework settings jobId world tree outputDir path ↔
      Answerable framework world tree outputDir path := by
  have got : getFile framework settings jobId world path = framework.respond
      (run (fromStore (settings.jobDir jobId ++ ["output.zip"])) world
        (getGeneratedFile framework.guessType settings jobId taken)).1 := by rw [getFile, routed]
  constructor
  · rintro ⟨listed, unlisted⟩
    refine ⟨fun inside => ?_, fun outside => ⟨fun other same => ?_, fun none => ?_⟩⟩
    · obtain ⟨bytes, content, answered⟩ := listed inside
      rw [got] at answered
      by_cases known : taken ∈ world.listed
      · obtain ⟨sendable, same⟩ := (answer_sends finished known bytes).mp answered
        exact ⟨taken, routed, known, sendable, same.trans content.symm⟩
      · rw [answer_unlisted finished known] at answered
        cases answered
    · obtain rfl := Option.some.inj (routed.symm.trans same)
      intro known
      obtain ⟨response, answered, status⟩ := unlisted outside
      exact listed_found finished known (got.symm.trans answered) status
    · cases routed.symm.trans none
  · rintro ⟨listed, unlisted⟩
    refine ⟨fun inside => ?_, fun outside => ?_⟩
    · obtain ⟨other, same, known, sendable, content⟩ := listed inside
      obtain rfl := Option.some.inj (routed.symm.trans same)
      obtain ⟨bytes, found⟩ := listed_is_file finished inside
      refine ⟨bytes, found, got.trans ?_⟩
      exact (answer_sends finished known bytes).mpr ⟨sendable, content.trans found⟩
    · refine ⟨_, got.trans (answer_unlisted finished ?_), rfl⟩
      exact (unlisted outside).1 taken routed

theorem answered_right_iff (finished : Finished world progress tree outputDir) (path : String) :
    AnsweredRight framework settings jobId world tree outputDir path ↔
      Answerable framework world tree outputDir path := by
  cases routed : framework.route path with
  | none => exact unrouted_right_iff routed
  | some taken => exact routed_right_iff finished routed

end Answers

/-- Every path to a finished job's files is answered rightly exactly if it is
answerable. A path without a line break is, unless it is listed and its headers
cannot be made and sent. -/
theorem listed_files_retrievable_iff {framework : Framework} {settings : Settings}
    {jobId : String} {world : Served} {progress : Progress} {tree : DiskWorld} {outputDir : Path}
    (plain : framework.TakesPlainPaths) (finished : Finished world progress tree outputDir) :
    (∀ path, AnsweredRight framework settings jobId world tree outputDir path ↔
      Answerable framework world tree outputDir path) ∧
    ∀ path : String, '\n' ∉ path.toList →
      (AnsweredRight framework settings jobId world tree outputDir path ↔
        (path ∈ world.listed → Sendable framework path)) := by
  refine ⟨answered_right_iff finished, fun path unbroken => ?_⟩
  have routed := plain path unbroken
  rw [answered_right_iff finished]
  constructor
  · rintro ⟨listed, -⟩ inside
    obtain ⟨taken, same, -, sendable, -⟩ := listed inside
    rwa [Option.some.inj (routed.symm.trans same)]
  · intro sendable
    refine ⟨fun inside => ⟨path, routed, inside, sendable inside, rfl⟩, fun outside => ⟨?_, ?_⟩⟩
    · intro taken same
      rwa [← Option.some.inj (routed.symm.trans same)]
    · intro none
      cases routed.symm.trans none

/-! ## One file -/

def oneFileProgress (name : String) : Progress where
  record := { kind := some .generate, status := some .success, exitCode := some 0, files := some [name] }
  attempted := true
  exited := some (some 0)
  outputIsDir := true
  zip := some [name]

def oneFileServed (name : String) : Served where
  record := some (oneFileProgress name).record
  archive := some [{ name, bytes := [60, 62] }]

theorem one_file_finished {name : String}
    (valid : (oneFile name 1750000000).drive.disk.entries.keys.all
      (·.getLast?.all validName) = true)
    (directory : (oneFile name 1750000000).drive.disk.isDir ["out"] = true)
    (walked : (run (onTree meanYear) (oneFile name 1750000000) (zipWalk ["out"] false 1 [] [])).1 =
      .ok [{ name, bytes := [60, 62] }]) :
    Finished (oneFileServed name) (oneFileProgress name) (oneFile name 1750000000) ["out"] := by
  refine ⟨rfl, rfl, rfl, ?_, rfl, ?_, ?_⟩
  · constructor
    · exact iff_of_true rfl ⟨rfl, rfl⟩
    · exact iff_of_true rfl ⟨rfl, rfl⟩
    · simp [oneFileProgress, sortedNames]
    · rfl
  · exact valid_names_of_keys valid
  · rintro members ⟨⟩
    refine ⟨directory, meanYear, 1, false, sortedNames [name], ?_⟩
    rw [zipDir, bind_is_and_then, run_and_then, walked]
    rfl

def guessSvg (path : String) : Option String :=
  if ".svg".toList.isSuffixOf path.toList then some "image/svg+xml" else none

/-- The pattern of the route ends in `$`, which matches in front of a final line
break as well. -/
def matchedPath (path : String) : Option String :=
  let body := beforeFinalNewline path.toList
  if body.contains '\n' then none else some (String.ofList body)

/-- A path that some route takes with its slashes at the end changed is redirected. -/
def slashRedirect (path : String) : Nat :=
  let other :=
    if path.toList.getLast? = some '/' then
      String.ofList (path.toList.reverse.dropWhile (· == '/')).reverse
    else path ++ "/"
  if (matchedPath other).isSome then 307 else 404

/-- A header value has no control character but the tab. -/
def plainHeader (value : String) : Bool :=
  value.toList.all fun c => c == '\t' || (32 ≤ c.toNat && c.toNat != 127)

def starlette : Framework where
  guessType := guessSvg
  route := matchedPath
  unrouted := slashRedirect
  sends mediaType contentDisposition := plainHeader mediaType && plainHeader contentDisposition

theorem starlette_takes_plain : starlette.TakesPlainPaths := by
  intro path unbroken
  have body : beforeFinalNewline path.toList = path.toList := by
    rw [beforeFinalNewline, if_neg]
    intro last
    exact unbroken (List.mem_of_getLast? last)
  have whole : path.toList.contains '\n' = false := by simpa using unbroken
  simp only [starlette, matchedPath, body, whole, Bool.false_eq_true, if_false, String.ofList_toList]

theorem hashed_file_finished : Finished (oneFileServed "d0.svg") (oneFileProgress "d0.svg")
    (oneFile "d0.svg" 1750000000) ["out"] :=
  one_file_finished (by decide +kernel) (by decide +kernel) (by rfl)

/-- With a line break behind it the same file is served again, unlisted. -/
theorem hashed_file_is_retrievable :
    AnsweredRight starlette defaults "job" (oneFileServed "d0.svg")
        (oneFile "d0.svg" 1750000000) ["out"] "d0.svg" ∧
      ¬ AnsweredRight starlette defaults "job" (oneFileServed "d0.svg")
        (oneFile "d0.svg" 1750000000) ["out"] "d0.svg\n" := by
  obtain ⟨always, unbroken⟩ := @listed_files_retrievable_iff starlette defaults "job" _ _ _ _
    starlette_takes_plain hashed_file_finished
  constructor
  · exact (unbroken "d0.svg" (by decide)).mpr fun _ =>
      ⟨by decide +kernel, by decide +kernel, by decide +kernel⟩
  · rw [always]
    rintro ⟨-, unlisted⟩
    exact (unlisted (by decide)).1 "d0.svg" (by decide +kernel) (by decide)

/-- The header cannot name a file called by a Chinese character. -/
theorem named_file_not_retrievable :
    ¬ ∀ (framework : Framework) (settings : Settings) (jobId : String) (world : Served)
      (progress : Progress) (tree : DiskWorld) (outputDir : Path),
      framework.TakesPlainPaths → Finished world progress tree outputDir →
      ∀ path, AnsweredRight framework settings jobId world tree outputDir path := by
  intro always
  have finished : Finished (oneFileServed "图.svg") (oneFileProgress "图.svg")
      (oneFile "图.svg" 1750000000) ["out"] :=
    one_file_finished (by decide +kernel) (by decide +kernel) (by rfl)
  have right := always starlette defaults "job" _ _ _ _ starlette_takes_plain finished "图.svg"
  obtain ⟨taken, routed, -, sendable, -⟩ :=
    ((answered_right_iff finished "图.svg").mp right).listed (by decide)
  obtain rfl : taken = "图.svg" := by
    rw [starlette_takes_plain "图.svg" (by decide), Option.some.injEq] at routed
    exact routed.symm
  exact absurd sendable.disposition (by decide +kernel)

end PretextBuildServer.FileRetrieval
