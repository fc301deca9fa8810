import PretextBuildServer.JobRecord
import PretextBuildServer.NameValidators
import PretextBuildServer.Library.JsonTexts
import PretextBuildServer.Library.TextHashes

/-!
# The record as Redis keeps it

Redis holds texts only: `Store._write` takes the `str` of every value, the two
lists of files go in as JSON, and whoever reads a field turns its text back.
-/

namespace PretextBuildServer.RecordTexts

open JsonTexts TextHashes
open PretextBuildServer.JobRecord PretextBuildServer.NameValidators

set_option autoImplicit false

inductive RecordField where
  | kind
  | target
  | assets
  | projectId
  | callbackUrl
  | status
  | createdAt
  | startedAt
  | finishedAt
  | cancelRequested
  | log
  | exitCode
  | files
  | cachedFiles
  | callbackStatus
  | callbackError
  deriving DecidableEq

def RecordField.name : RecordField → String
  | .kind => "kind"
  | .target => "target"
  | .assets => "assets"
  | .projectId => "project_id"
  | .callbackUrl => "callback_url"
  | .status => "status"
  | .createdAt => "created_at"
  | .startedAt => "started_at"
  | .finishedAt => "finished_at"
  | .cancelRequested => "cancel_requested"
  | .log => "log"
  | .exitCode => "exit_code"
  | .files => "files"
  | .cachedFiles => "cached_files"
  | .callbackStatus => "callback_status"
  | .callbackError => "callback_error"

def RecordField.all : List RecordField :=
  [.kind, .target, .assets, .projectId, .callbackUrl, .status, .createdAt, .startedAt,
    .finishedAt, .cancelRequested, .log, .exitCode, .files, .cachedFiles, .callbackStatus,
    .callbackError]

theorem mem_all (field : RecordField) : field ∈ RecordField.all := by
  cases field <;> decide

theorem all_once : RecordField.all.Nodup := by decide

theorem name_injective : Function.Injective RecordField.name := by
  intro first second same
  cases first <;> cases second <;> first | rfl | exact absurd same (by decide)

/-! ## Integers -/

/-- `str` of an integer, and `_now`'s format of a whole number of seconds. -/
def intText (value : Int) : String := String.ofList (decimal value)

/-- Digits with single underscores between them. -/
def readDigits (text : List Char) : Option Nat :=
  let groups := text.splitOn '_'
  if groups.all fun group => group ≠ [] && group.all Char.isDigit then
    some (Nat.ofDigitChars 10 groups.flatten 0)
  else none

/-- `int(value)`, as far as ASCII digits go. -/
def asInt (value : String) : Option Int :=
  match strip value.toList with
  | '-' :: digits => (readDigits digits).map fun n => -(n : Int)
  | '+' :: digits => (readDigits digits).map Int.ofNat
  | digits => (readDigits digits).map Int.ofNat

theorem readDigits_digits (n : Nat) : readDigits (Nat.toDigits 10 n) = some n := by
  have whole : (Nat.toDigits 10 n).splitOn '_' = [Nat.toDigits 10 n] :=
    List.splitOn_eq_singleton Nat.underscore_not_in_toDigits
  have digits : (Nat.toDigits 10 n).all Char.isDigit = true :=
    List.all_eq_true.mpr fun c mem => Nat.isDigit_of_mem_toDigits (by decide) (by decide) mem
  simp [readDigits, whole, digits, Nat.toDigits_ne_nil, Nat.ofDigitChars_ten_toDigits]

theorem decimal_numeric (value : Int) (c : Char) (mem : c ∈ decimal value) : StartsNumber c := by
  cases value with
  | ofNat n => exact .inr (Nat.isDigit_of_mem_toDigits (by decide) (by decide) mem)
  | negSucc n =>
      rcases List.mem_cons.mp mem with rfl | digit
      · exact .inl rfl
      · exact .inr (Nat.isDigit_of_mem_toDigits (by decide) (by decide) digit)

theorem number_not_space (c : Char) (number : StartsNumber c) : isSpace c = false := by
  have bounds : 45 ≤ c.toNat ∧ c.toNat ≤ 57 := by
    rcases number with rfl | isDigit
    · decide
    · simp only [Char.isDigit, Bool.and_eq_true, decide_eq_true_eq] at isDigit
      exact ⟨le_trans (by decide) isDigit.1, isDigit.2⟩
  simp only [isSpace]
  grind

theorem strip_solid (text : List Char) (solid : ∀ c ∈ text, isSpace c = false) :
    strip text = text := by
  have keeps : ∀ text : List Char, (∀ c ∈ text, isSpace c = false) →
      text.dropWhile isSpace = text := by
    intro text solid
    cases text with
    | nil => rfl
    | cons c text =>
        exact List.dropWhile_cons_of_neg (by simp [solid c List.mem_cons_self])
  rw [strip, keeps text solid, keeps _ fun c mem => solid c (List.mem_reverse.mp mem),
    List.reverse_reverse]

theorem asInt_intText (value : Int) : asInt (intText value) = some value := by
  obtain ⟨c, tail, starts, number⟩ := decimal_starts value
  have solid : ∀ c ∈ decimal value, isSpace c = false := fun c mem =>
    number_not_space c (decimal_numeric value c mem)
  rw [asInt, intText, String.toList_ofList, strip_solid _ solid]
  cases value with
  | negSucc n =>
      simp only [decimal, readDigits_digits]
      rfl
  | ofNat n =>
      have digit : ∀ c ∈ Nat.toDigits 10 n, c.isDigit = true := fun c mem =>
        Nat.isDigit_of_mem_toDigits (by decide) (by decide) mem
      simp only [decimal]
      split
      · next tail shape => exact absurd (digit '-' (shape ▸ List.mem_cons_self)) (by decide)
      · next tail shape => exact absurd (digit '+' (shape ▸ List.mem_cons_self)) (by decide)
      · rw [readDigits_digits]
        rfl

/-! ## How each field is written and read -/

def kindCodec : Codec Kind where
  write := Kind.text
  read
    | "build" => some .build
    | "generate" => some .generate
    | _ => none
  back kind := by cases kind <;> rfl

def statusCodec : Codec Status where
  write := Status.text
  read
    | "queued" => some .queued
    | "running" => some .running
    | "success" => some .success
    | "failed" => some .failed
    | "cancelled" => some .cancelled
    | _ => none
  back status := by cases status <;> rfl

def callbackStatusText : CallbackStatus → String
  | .delivered => "delivered"
  | .failed => "failed"
  | .blocked => "blocked"

def callbackStatusCodec : Codec CallbackStatus where
  write := callbackStatusText
  read
    | "delivered" => some .delivered
    | "failed" => some .failed
    | "blocked" => some .blocked
    | _ => none
  back status := by cases status <;> rfl

def intCodec : Codec Int where
  write := intText
  read := asInt
  back := asInt_intText

def timeCodec : Codec Nat where
  write seconds := intText seconds
  read text := (asInt text).bind fun value => if 0 ≤ value then some value.toNat else none
  back seconds := by simp [asInt_intText]

/-- `"1"` is the only text any caller writes; whatever else there was would be no
request. -/
def flagCodec : Codec Bool where
  write requested := if requested then "1" else ""
  read text := some (text == "1")
  back requested := by cases requested <;> rfl

/-- `json.dumps(names)` -/
def namesText (names : List String) : String :=
  String.ofList (dumps defaultLayout (.list (names.map .text)))

def textOf : Json → Option String
  | .text value => some value
  | _ => none

/-- `json.loads` of a list of texts. -/
def readNames (text : String) : Option (List String) :=
  match loads text.toList with
  | some (.list items) => items.mapM textOf
  | _ => none

theorem texts_of_names (names : List String) :
    (names.map Json.text).mapM textOf = some names := by
  induction names with
  | nil => rfl
  | cons name names induction =>
      rw [List.map_cons, List.mapM_cons, induction]
      rfl

def namesCodec : Codec (List String) where
  write := namesText
  read := readNames
  back names := by
    rw [readNames, namesText, String.toList_ofList, loads_dumps default_readable]
    exact texts_of_names names

/-! ## The whole record -/

/-- The text a write sets in a field, if it sets the field. -/
def fieldText (fields : Fields) : RecordField → Option String
  | .kind => fields.kind.map kindCodec.write
  | .target => fields.target.map textCodec.write
  | .assets => fields.assets.map textCodec.write
  | .projectId => fields.projectId.map textCodec.write
  | .callbackUrl => fields.callbackUrl.map textCodec.write
  | .status => fields.status.map statusCodec.write
  | .createdAt => fields.createdAt.map timeCodec.write
  | .startedAt => fields.startedAt.map timeCodec.write
  | .finishedAt => fields.finishedAt.map timeCodec.write
  | .cancelRequested => fields.cancelRequested.map flagCodec.write
  | .log => fields.log.map textCodec.write
  | .exitCode => fields.exitCode.map intCodec.write
  | .files => fields.files.map namesCodec.write
  | .cachedFiles => fields.cachedFiles.map namesCodec.write
  | .callbackStatus => fields.callbackStatus.map callbackStatusCodec.write
  | .callbackError => fields.callbackError.map textCodec.write

/-- `{k: str(v) for k, v in fields.items()}` -/
def hashMapping (fields : Fields) : List (String × String) :=
  entries RecordField.name (fieldText fields) RecordField.all

/-- What the texts of the fields stand for. -/
def ofTexts (text : RecordField → Option String) : Fields where
  kind := (text .kind).bind kindCodec.read
  target := (text .target).bind textCodec.read
  assets := (text .assets).bind textCodec.read
  projectId := (text .projectId).bind textCodec.read
  callbackUrl := (text .callbackUrl).bind textCodec.read
  status := (text .status).bind statusCodec.read
  createdAt := (text .createdAt).bind timeCodec.read
  startedAt := (text .startedAt).bind timeCodec.read
  finishedAt := (text .finishedAt).bind timeCodec.read
  cancelRequested := (text .cancelRequested).bind flagCodec.read
  log := (text .log).bind textCodec.read
  exitCode := (text .exitCode).bind intCodec.read
  files := (text .files).bind namesCodec.read
  cachedFiles := (text .cachedFiles).bind namesCodec.read
  callbackStatus := (text .callbackStatus).bind callbackStatusCodec.read
  callbackError := (text .callbackError).bind textCodec.read

theorem of_texts_text (fields : Fields) : ofTexts (fieldText fields) = fields := by
  simp only [ofTexts, fieldText, read_written]

theorem map_override {Value : Type} (write : Value → String) (written stored : Option Value) :
    (written <|> stored).map write = (written.map write <|> stored.map write) := by
  cases written <;> rfl

theorem text_override (stored written : Fields) (field : RecordField) :
    fieldText (stored.override written) field =
      (fieldText written field <|> fieldText stored field) := by
  cases field <;> exact map_override _ _ _

theorem lookup_mapping (fields : Fields) (field : RecordField) :
    (hashMapping fields).lookup field.name = fieldText fields field :=
  lookup_entries _ _ name_injective field (mem_all field)

theorem mapping_distinct (fields : Fields) :
    ((hashMapping fields).map Prod.fst).Nodup :=
  entries_distinct _ _ name_injective all_once

/-- A hash under whose names stand texts that writes have put there. -/
structure RecordHash where
  texts : TextHash
  spelled : ∀ field : RecordField, texts.lookup field.name =
    fieldText (ofTexts fun field => texts.lookup field.name) field
  named : ∀ name, name ∈ texts → ∃ field : RecordField, field.name = name

namespace RecordHash

variable (hash : RecordHash)

def fields : Fields := ofTexts fun field => hash.texts.lookup field.name

theorem lookup_name (field : RecordField) :
    hash.texts.lookup field.name = fieldText hash.fields field := hash.spelled field

theorem lookup_written (written : Fields) (field : RecordField) :
    (hash.texts.write (hashMapping written)).lookup field.name =
      fieldText (hash.fields.override written) field := by
  rw [lookup_write _ _ _ (mapping_distinct written), lookup_mapping, text_override,
    hash.lookup_name]

theorem fields_written (written : Fields) :
    (ofTexts fun field => (hash.texts.write (hashMapping written)).lookup field.name) =
      hash.fields.override written := by
  rw [funext (hash.lookup_written written), of_texts_text]

def write (written : Fields) : RecordHash where
  texts := hash.texts.write (hashMapping written)
  spelled field := by rw [hash.fields_written, hash.lookup_written]
  named name mem := by
    rw [← AList.lookup_isSome, lookup_write _ _ _ (mapping_distinct written)] at mem
    cases found : (hashMapping written).lookup name with
    | some text =>
        obtain ⟨before, after, shape, -⟩ := List.lookup_eq_some_iff.mp found
        have listed : (name, text) ∈ hashMapping written :=
          shape ▸ List.mem_append_right _ List.mem_cons_self
        obtain ⟨field, -, made⟩ := List.mem_filterMap.mp listed
        obtain ⟨_, -, same⟩ := Option.map_eq_some_iff.mp made
        exact ⟨field, (Prod.mk.inj same).1⟩
    | none =>
        rw [found] at mem
        exact hash.named name (AList.lookup_isSome.mp mem)

@[simp] theorem fields_write (written : Fields) :
    (hash.write written).fields = hash.fields.override written := hash.fields_written written

/-- No key in Redis yet. -/
def empty : RecordHash where
  texts := ∅
  spelled field := by cases field <;> rfl
  named name mem := absurd mem (AList.notMem_empty name)

@[simp] theorem fields_empty : empty.fields = {} := rfl

end RecordHash

end PretextBuildServer.RecordTexts
