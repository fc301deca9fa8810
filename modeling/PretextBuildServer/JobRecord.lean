import Mathlib.Data.Option.Basic

/-!
# The record of a job

One Redis hash per job holds the user-facing state. A write sets some fields
and leaves the others alone, so the argument of a write and the stored hash
have the same shape: every field may be missing.
-/

namespace PretextBuildServer.JobRecord

set_option autoImplicit false

inductive Kind where
  | build
  | generate
  deriving DecidableEq, Repr

def Kind.text : Kind → String
  | .build => "build"
  | .generate => "generate"

/-- URL prefix each job kind is served under. -/
def jobPrefixes : Kind → String
  | .build => "/builds"
  | .generate => "/generate"

inductive Status where
  | queued
  | running
  | success
  | failed
  | cancelled
  deriving DecidableEq, Repr

def Status.text : Status → String
  | .queued => "queued"
  | .running => "running"
  | .success => "success"
  | .failed => "failed"
  | .cancelled => "cancelled"

/-- `TERMINAL_STATUSES` -/
def Status.terminal : Status → Bool
  | .success | .failed | .cancelled => true
  | .queued | .running => false

inductive CallbackStatus where
  | delivered
  | failed
  | blocked
  deriving DecidableEq, Repr

/-- Times are whole seconds, as `_now` rounds them; the two file lists are kept
as the lists their JSON texts stand for. -/
structure Fields where
  kind : Option Kind := none
  target : Option String := none
  assets : Option String := none
  projectId : Option String := none
  callbackUrl : Option String := none
  status : Option Status := none
  createdAt : Option Nat := none
  startedAt : Option Nat := none
  finishedAt : Option Nat := none
  cancelRequested : Option Bool := none
  log : Option String := none
  exitCode : Option Int := none
  files : Option (List String) := none
  cachedFiles : Option (List String) := none
  callbackStatus : Option CallbackStatus := none
  callbackError : Option String := none
  deriving DecidableEq

/-- What the hash holds after a write: the written fields, and the old ones
wherever nothing was written. -/
def Fields.override (stored written : Fields) : Fields where
  kind := written.kind <|> stored.kind
  target := written.target <|> stored.target
  assets := written.assets <|> stored.assets
  projectId := written.projectId <|> stored.projectId
  callbackUrl := written.callbackUrl <|> stored.callbackUrl
  status := written.status <|> stored.status
  createdAt := written.createdAt <|> stored.createdAt
  startedAt := written.startedAt <|> stored.startedAt
  finishedAt := written.finishedAt <|> stored.finishedAt
  cancelRequested := written.cancelRequested <|> stored.cancelRequested
  log := written.log <|> stored.log
  exitCode := written.exitCode <|> stored.exitCode
  files := written.files <|> stored.files
  cachedFiles := written.cachedFiles <|> stored.cachedFiles
  callbackStatus := written.callbackStatus <|> stored.callbackStatus
  callbackError := written.callbackError <|> stored.callbackError

/-- `data.get("status") in TERMINAL_STATUSES` -/
def Fields.isTerminal (fields : Fields) : Bool := fields.status.any Status.terminal

/-- `data.get("cancel_requested") == "1"` -/
def Fields.cancelled (fields : Fields) : Bool := fields.cancelRequested == some true

/-- The key of one job in Redis: the hash and the moment it vanishes, if one was
ever set. -/
structure Key where
  fields : Fields
  expiry : Option Int := none
  deriving DecidableEq

/-- `HSET` keeps the expiry of an existing key and creates a missing key
without one. -/
def hset (key : Option Key) (written : Fields) : Option Key :=
  match key with
  | none => some { fields := written }
  | some key => some { key with fields := key.fields.override written }

def expire (now : Nat) (seconds : Int) (key : Option Key) : Option Key :=
  key.map fun key => { key with expiry := some (now + seconds) }

def vanish (now : Nat) (key : Option Key) : Option Key :=
  key.filter fun key => key.expiry.all ((now : Int) < ·)

section Override

variable (stored written : Fields)

@[simp] theorem override_status :
    (stored.override written).status = (written.status <|> stored.status) := rfl

@[simp] theorem override_kind :
    (stored.override written).kind = (written.kind <|> stored.kind) := rfl

@[simp] theorem override_target :
    (stored.override written).target = (written.target <|> stored.target) := rfl

@[simp] theorem override_created_at :
    (stored.override written).createdAt = (written.createdAt <|> stored.createdAt) := rfl

@[simp] theorem override_finished_at :
    (stored.override written).finishedAt = (written.finishedAt <|> stored.finishedAt) := rfl

@[simp] theorem override_cancel_requested :
    (stored.override written).cancelRequested =
      (written.cancelRequested <|> stored.cancelRequested) := rfl

end Override

@[simp] theorem hset_missing (written : Fields) : hset none written = some { fields := written } :=
  rfl

@[simp] theorem hset_present (key : Key) (written : Fields) :
    hset (some key) written = some { key with fields := key.fields.override written } := rfl

theorem hset_status (key : Option Key) (written : Fields) :
    (hset key written).bind (·.fields.status) =
      (written.status <|> key.bind (·.fields.status)) := by
  cases key with
  | none => simp [hset]
  | some key => simp [hset]

end PretextBuildServer.JobRecord
