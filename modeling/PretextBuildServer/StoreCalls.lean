import PretextBuildServer.JobCalls

/-!
# The calls under the names the source gives them

`Store.create`, `Store.update` and `Store.get` are methods of the thin wrapper
over Redis; the rest are single library calls.
-/

namespace PretextBuildServer.StoreCalls

open EffectProgram
open PretextBuildServer.ServerSettings PretextBuildServer.JobRecord PretextBuildServer.JobCalls

set_option autoImplicit false

def storeGet (reader : Reader) : JobProgram (Option Fields) :=
  jobCall (.hgetall reader)

def storeUpdate (fields : Fields) : JobProgram Unit :=
  jobCall (.hset fields)

def now : JobProgram Nat := jobCall .time

/-- `status` and `created_at` are set unless the caller sets them; the hash is
written first and gets its expiry by a second command. -/
def storeCreate (settings : Settings) (fields : Fields) : JobProgram Unit := do
  let created ← now
  storeUpdate { fields with
    status := fields.status <|> some .queued
    createdAt := fields.createdAt <|> some created }
  jobCall (.expire settings.jobTtl)

def isDir (path : Path) : JobProgram Bool := jobCall (.isDir path)

def isLink (path : Path) : JobProgram Bool := jobCall (.isLink path)

def isFile (path : Path) : JobProgram Bool := jobCall (.isFile path)

end PretextBuildServer.StoreCalls
