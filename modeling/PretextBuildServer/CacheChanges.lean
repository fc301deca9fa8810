import PretextBuildServer.HarvestConfinement
import PretextBuildServer.HarvestProtocol
import PretextBuildServer.PruneProtocol

/-!
# What one call can do to a shared cache

Each call of a harvest, made where its protocol has it, changes the files at the
copy's own temporary name or at the path the copy is for, and nowhere else. A
prune only ever takes files away.
-/

namespace PretextBuildServer.CacheChanges

open EffectProgram EffectProgram.Program InterleavedParties PosixDisk
open PretextBuildServer.ServerSettings PretextBuildServer.JobCalls
open PretextBuildServer.NameValidators PretextBuildServer.DiskCalls
open PretextBuildServer.AssetCache PretextBuildServer.HarvestRuns
open PretextBuildServer.HarvestConfinement PretextBuildServer.CacheSystem
open PretextBuildServer.HarvestProtocol PretextBuildServer.PruneProtocol

set_option autoImplicit false

variable {Caller : Type} (calls : Calls Caller)

def cacheRoot (caller : Caller) : Path :=
  calls.workDir caller ++ calls.settings.generateOutputSubdir

/-- Where a harvest opens its copy or renames it, no link stands on the way. -/
def clearWay (world : CacheWorld Caller) : Party Caller → DiskCall → Prop
  | .harvest _, .openWrite path | .harvest _, .replace path _ => world.base.drive.disk.Unlinked path
  | _, _ => True

def wayIsClear (world : CacheWorld Caller) : Party Caller → DiskCall → Bool
  | .harvest _, .openWrite path | .harvest _, .replace path _ =>
      world.base.drive.disk.hasNoLink path
  | _, _ => true

theorem clear_of_check {world : CacheWorld Caller} {party : Party Caller} {request : DiskCall}
    (checked : wayIsClear world party request = true) : clearWay world party request := by
  unfold wayIsClear at checked
  split at checked
  · exact unlinked_of_no_link checked
  · exact unlinked_of_no_link checked
  · unfold clearWay
    grind

/-- What a call of a harvest comes to, in the phase the harvest is in. -/
inductive Change (caller : Caller) (phase : Phase) (world after : CacheWorld Caller) : Phase → Prop
  | quiet (spares : ∀ place, world.Spares after place) (given : after.given = world.given)
      (log : after.log = world.log) : Change caller phase world after phase
  | missed (item : Item) (cacheable : item.Cacheable calls.settings.assetCacheTypes) (idle : phase.stage = .idle)
      (spares : ∀ place, world.Spares after place) (free : world.fileAt (item.path calls.pdir) = none)
      (given : after.given = world.given)
      (log : after.log = .missed caller (item.path calls.pdir) :: world.log) :
      Change caller phase world after { phase with stage := .missed item }
  | stamped (item : Item) (now : Nat) (missed : phase.stage = .missed item)
      (spares : ∀ place, world.Spares after place)
      (fresh : (calls.pid caller, now) ∉ world.given)
      (given : after.given = (calls.pid caller, now) :: world.given) (log : after.log = world.log) :
      Change caller phase world after { phase with stage := .stamped item now }
  | loaded (item : Item) (stamp : Nat) (bytes : Bytes) (stamped : phase.stage = .stamped item stamp)
      (source : calls.sources (item.path (cacheRoot calls caller)) = some bytes)
      (spares : ∀ place, world.Spares after place) (given : after.given = world.given)
      (log : after.log = world.log) :
      Change caller phase world after { phase with stage := .loaded item stamp bytes }
  | opened (item : Item) (stamp : Nat) (bytes : Bytes)
      (loaded : phase.stage = .loaded item stamp bytes)
      (spares : ∀ place, place ≠ item.temp calls.pdir (calls.pid caller) stamp →
        world.Spares after place)
      (empty : after.fileAt (item.temp calls.pdir (calls.pid caller) stamp) = some [])
      (given : after.given = world.given) (log : after.log = world.log) :
      Change caller phase world after
        { phase with stage := .writing item stamp bytes [] (item.temp calls.pdir (calls.pid caller) stamp) }
  | wrote (item : Item) (stamp : Nat) (bytes written part : Bytes) (file : Place) (next : Stage)
      (writing : phase.stage = .writing item stamp bytes written file)
      (spares : ∀ place, place ≠ file → world.Spares after place)
      (appended : after.fileAt file = (world.fileAt file).map (· ++ part))
      (stage : next = .writing item stamp bytes (written ++ part) file ∨ next = .stamped item stamp)
      (given : after.given = world.given) (log : after.log = world.log) :
      Change caller phase world after { phase with stage := next }
  | renamed (item : Item) (stamp : Nat) (bytes content : Bytes) (file : Place)
      (writing : phase.stage = .writing item stamp bytes bytes file)
      (copied : world.fileAt (item.temp calls.pdir (calls.pid caller) stamp) = some content)
      (moved : after.fileAt (item.temp calls.pdir (calls.pid caller) stamp) = none)
      (arrived : after.fileAt (item.path calls.pdir) = some content)
      (spares : ∀ place, place ≠ item.temp calls.pdir (calls.pid caller) stamp →
        place ≠ item.path calls.pdir → world.Spares after place)
      (given : after.given = world.given)
      (log : after.log = .published caller (item.path calls.pdir) :: world.log) :
      Change caller phase world after { stage := .idle, reported := phase.reported ++ [item] }
  | discarded (item : Item) (stamp : Nat) (stamped : phase.stage.stamp = some (item, stamp))
      (spares : ∀ dir name, name ≠ tempName item.name (calls.pid caller) stamp →
        world.Spares after (dir ++ [name]))
      (gone : ∀ place, after.fileAt place = world.fileAt place ∨ after.fileAt place = none)
      (given : after.given = world.given) (log : after.log = world.log) :
      Change caller phase world after { phase with stage := .idle }

/-- What a call of a prune comes to. -/
inductive Loss (world after : CacheWorld Caller) : Prop
  | quiet (spares : ∀ place, world.Spares after place) (given : after.given = world.given)
      (log : after.log = world.log) : Loss world after
  | evicted (place : Place) (spares : ∀ other, other ≠ place → world.Spares after other)
      (gone : after.fileAt place = none) (given : after.given = world.given)
      (log : after.log = .evicted place :: world.log) : Loss world after

section Steps

variable {calls : Calls Caller} {caller : Caller} {world after : CacheWorld Caller}
  {phase : Phase} {request : DiskCall} {reply : DiskReply request}

theorem spares_of_drive (same : after.base.drive = world.base.drive) (place : Place) :
    world.Spares after place := by
  rw [CacheWorld.Spares, same]
  exact spares_refl

theorem events_error (party : Party Caller) (disk : Disk) (request : DiskCall) (raised : Raised) :
    events party disk request (.error raised) = [] := by
  cases request <;> rfl

theorem tells_error {party : Party Caller} {given later : List (Nat × Nat)} {raised : Raised}
    (told : calls.tells party given request (.error raised) later) : later = given := by
  cases request <;> exact told

theorem look_step (looks : DiskCall.looks request = true) {base later : DiskWorld}
    (disk : goesThrough calls.sources base request reply later ∨ fails base request reply later) :
    later.drive = base.drive := by
  have answered : (reply, later) = onDisk base request → later.drive = base.drive := by
    intro same
    have kept := look_keeps_drive base looks
    rwa [← same] at kept
  cases request <;> simp only [DiskCall.looks, Bool.false_eq_true] at looks <;>
    simp only [goesThrough, fails] at disk <;> grind

theorem failed_step {party : Party Caller} (raised : Raised)
    (step : calls.Step party world request reply after) (failed : reply = .error raised)
    (same : after.base.drive = world.base.drive) :
    (∀ place, world.Spares after place) ∧ after.given = world.given ∧ after.log = world.log := by
  subst failed
  refine ⟨spares_of_drive same, tells_error step.given, ?_⟩
  rw [step.log, events_error]
  rfl

theorem remove_step {path : Path} {reply : DiskReply (.remove path)} {base later : DiskWorld}
    (disk : goesThrough calls.sources base (.remove path) reply later ∨
      fails base (.remove path) reply later) :
    (later.drive = base.drive ∧ ∃ raised, reply = .error raised) ∨
    ∃ place, base.drive.disk.spot path = some place ∧ reply = .ok () ∧
      (∀ other, other ≠ place → base.drive.Spares later.drive other) ∧
      later.drive.disk.fileAt place = none := by
  rcases disk with through | ⟨⟨raised, failed, -⟩, same⟩
  · rcases remove_files base.drive path with refused | ⟨place, drive, spotted, removed, changed, files⟩
    · simp only [goesThrough, onDisk, DiskWorld.lift, refused, Prod.mk.injEq] at through
      exact .inl ⟨by rw [through.2], _, through.1⟩
    · simp only [goesThrough, onDisk, DiskWorld.lift, removed, Prod.mk.injEq] at through
      obtain ⟨answered, rfl⟩ := through
      refine .inr ⟨place, spotted, answered, ?_, by rw [files, if_pos rfl]⟩
      intro other apart
      exact spares_one apart changed (by rw [files, if_neg apart])
  · exact .inl ⟨by rw [same], raised, failed⟩

theorem prune_step (step : calls.Step (.prune caller) world request reply after)
    (called : pruneCall request) : Loss world after := by
  have quiet : (∀ place, world.Spares after place) →
      events (.prune caller) world.base.drive.disk request reply = [] →
      after.given = world.given → Loss world after := by
    intro spares silent told
    exact .quiet spares told (by rw [step.log, silent]; rfl)
  have looked : DiskCall.looks request = true →
      events (.prune caller) world.base.drive.disk request reply = [] →
      after.given = world.given → Loss world after :=
    fun looks => quiet (spares_of_drive (look_step looks step.disk))
  cases request <;> simp only [pruneCall] at called
  case isDir path => exact looked rfl rfl step.given
  case isLink path => exact looked rfl rfl step.given
  case scandir path => exact looked rfl rfl step.given
  case fileSize path => exact looked rfl rfl step.given
  case time => exact looked rfl rfl step.given
  case remove path =>
      rcases remove_step step.disk with ⟨same, raised, failed⟩ | ⟨place, spotted, removed, spares, gone⟩
      · obtain ⟨kept, given, log⟩ := failed_step raised step failed same
        exact .quiet kept given log
      · refine .evicted place spares gone step.given ?_
        rw [step.log, removed]
        simp [events, spotted]
  case rmdir path =>
      refine quiet ?_ rfl step.given
      intro place
      rcases step.disk with through | ⟨-, same⟩
      · simp only [goesThrough, onDisk, DiskWorld.lift, Prod.mk.injEq] at through
        rw [CacheWorld.Spares, through.2]
        exact rmdir_spares _ _ place
      · exact spares_of_drive (by rw [same]) place

/-! ### Harvests -/

theorem ends_apart {dir other : Place} {name last : String} (apart : name ≠ last) :
    dir ++ [name] ≠ other ++ [last] := by
  intro same
  exact apart (List.cons.inj (List.append_inj_right' same rfl)).1

theorem temp_apart {base : Path} {item other : Item} {pid stamp : Nat}
    (cached : matchesCacheFilename other.name.toList = true) :
    other.path base ≠ item.temp base pid stamp := by
  apply ends_apart
  intro same
  rw [same, temp_name_uncached] at cached
  cases cached

theorem dirs_plain {types : List String} {item : Item}
    (plain : ∀ name ∈ types, isPlain name = true) (cacheable : item.Cacheable types) :
    ∀ name ∈ item.dir, isPlain name = true := by
  intro name inside
  rcases cacheable.dir name inside with ofType | named
  · exact plain name ofType
  · exact subdir_plain named

theorem item_plain {types : List String} {base : Path} {item : Item}
    (plain : ∀ name ∈ types, isPlain name = true) (above : ∀ name ∈ base, isPlain name = true)
    (cacheable : item.Cacheable types) : ∀ name ∈ item.path base, isPlain name = true := by
  rw [Item.path, List.forall_mem_append, List.forall_mem_append, List.forall_mem_singleton]
  exact ⟨⟨above, dirs_plain plain cacheable⟩, cache_filename_plain cacheable.name⟩

/-- What the item under way is known by. -/
def Phase.WellKept (types : List String) (phase : Phase) : Prop :=
  ∀ item, phase.stage.item = some item → item.Cacheable types

theorem make_dirs_step {path : Path} {reply : DiskReply (.makedirs path)} {base later : DiskWorld}
    (plain : ∀ name ∈ path, isPlain name = true)
    (disk : goesThrough calls.sources base (.makedirs path) reply later ∨
      fails base (.makedirs path) reply later) (place : Place) :
    base.drive.Spares later.drive place := by
  rcases disk with through | ⟨-, same⟩
  · simp only [goesThrough, onDisk, DiskWorld.lift, Prod.mk.injEq] at through
    rw [through.2]
    exact make_dirs_spares plain place
  · rw [same]
    exact spares_refl

theorem open_step {path : Path} {reply : DiskReply (.openWrite path)} {base later : DiskWorld}
    (clear : base.drive.disk.Unlinked path)
    (disk : goesThrough calls.sources base (.openWrite path) reply later ∨
      fails base (.openWrite path) reply later) :
    (later.drive = base.drive ∧ ∃ raised, reply = .error raised) ∨
    reply = .ok path ∧ (∀ place, place ≠ path → base.drive.Spares later.drive place) ∧
      later.drive.disk.fileAt path = some [] := by
  rcases disk with through | ⟨⟨raised, failed, -⟩, same⟩
  · rcases create_files clear with refused | ⟨drive, opened, changed, files⟩
    · simp only [goesThrough, onDisk, DiskWorld.lift, refused, Prod.mk.injEq] at through
      exact .inl ⟨by rw [through.2], _, through.1⟩
    · simp only [goesThrough, onDisk, DiskWorld.lift, opened, Prod.mk.injEq] at through
      obtain ⟨answered, rfl⟩ := through
      refine .inr ⟨answered, ?_, by rw [files, if_pos rfl]⟩
      intro place apart
      exact spares_one apart changed (by rw [files, if_neg apart])
  · exact .inl ⟨by rw [same], raised, failed⟩

theorem rename_step {item : Item} {stamp : Nat} {base later : DiskWorld}
    {reply : DiskReply (.replace (item.temp calls.pdir (calls.pid caller) stamp) (item.path calls.pdir))}
    (cacheable : item.Cacheable calls.settings.assetCacheTypes)
    (clear : base.drive.disk.Unlinked (item.temp calls.pdir (calls.pid caller) stamp))
    (disk : goesThrough calls.sources base _ reply later ∨ fails base _ reply later) :
    (later.drive = base.drive ∧ ∃ raised, reply = .error raised) ∨
    reply = .ok () ∧ ∃ content,
      base.drive.disk.fileAt (item.temp calls.pdir (calls.pid caller) stamp) = some content ∧
      later.drive.disk.fileAt (item.temp calls.pdir (calls.pid caller) stamp) = none ∧
      later.drive.disk.fileAt (item.path calls.pdir) = some content ∧
      ∀ place, place ≠ item.temp calls.pdir (calls.pid caller) stamp → place ≠ item.path calls.pdir →
        base.drive.Spares later.drive place := by
  rcases disk with through | ⟨⟨raised, failed, -⟩, same⟩
  · rcases replace_files clear (cache_filename_plain cacheable.name)
      (temp_name_apart item.name (calls.pid caller) stamp) with
      refused | ⟨drive, content, renamed, copied, changed, files⟩
    · simp only [goesThrough, onDisk, DiskWorld.lift, Item.temp, Item.path, refused,
        Prod.mk.injEq] at through
      exact .inl ⟨by rw [through.2], _, through.1⟩
    · simp only [goesThrough, onDisk, DiskWorld.lift, Item.temp, Item.path, renamed,
        Prod.mk.injEq] at through
      obtain ⟨answered, rfl⟩ := through
      have different := @temp_apart calls.pdir item item (calls.pid caller) stamp cacheable.name
      rw [Item.path, Item.temp] at different
      refine .inr ⟨answered, content, copied, ?_, ?_, ?_⟩
      · rw [Item.temp, files, if_neg different.symm, if_pos rfl]
      · rw [Item.path, files, if_pos rfl]
      · intro place notTemp notPath
        rw [Item.temp] at notTemp
        rw [Item.path] at notPath
        refine ⟨by rw [files, if_neg notPath, if_neg notTemp], fun _ => ⟨[_, _], changed, ?_⟩⟩
        simp only [List.mem_cons, List.not_mem_nil, or_false, not_or]
        exact ⟨notPath, notTemp⟩
  · exact .inl ⟨by rw [same], raised, failed⟩

theorem write_step {file : Place} {chunk : Bytes} {base later : DiskWorld}
    {reply : DiskReply (.write file chunk)}
    (disk : goesThrough calls.sources base (.write file chunk) reply later ∨
      fails base (.write file chunk) reply later) :
    ∃ part, (reply = .ok () ∧ part = chunk ∨ ∃ raised, reply = .error raised) ∧
      (∀ place, place ≠ file → base.drive.Spares later.drive place) ∧
      later.drive.disk.fileAt file = (base.drive.disk.fileAt file).map (· ++ part) := by
  have appends : ∀ part, later.drive = (base.drive.append file part).2 →
      (∀ place, place ≠ file → base.drive.Spares later.drive place) ∧
        later.drive.disk.fileAt file = (base.drive.disk.fileAt file).map (· ++ part) := by
    intro part same
    obtain ⟨files, touched⟩ := append_files base.drive file part
    rw [same]
    refine ⟨?_, by rw [files, if_pos rfl]⟩
    intro place apart
    rcases touched with untouched | changed
    · rw [untouched]
      exact spares_refl
    · exact spares_one apart changed (by rw [files, if_neg apart])
  rcases disk with through | ⟨⟨raised, failed, -⟩, part, -, rfl⟩
  · simp only [goesThrough, onDisk, DiskWorld.lift, Prod.mk.injEq] at through
    obtain ⟨answered, rfl⟩ := through
    refine ⟨chunk, .inl ⟨?_, rfl⟩, appends chunk rfl⟩
    rw [answered, append_goes_through]
    rfl
  · exact ⟨part, .inr ⟨raised, failed⟩, appends part rfl⟩

/-- A call that a harvest makes where its protocol has it, with nothing in the
way of its copy, is one of the changes. -/
theorem harvest_step (step : calls.Step (.harvest caller) world request reply after)
    (plain : PlainPaths calls.settings) (above : ∀ name ∈ calls.pdir, isPlain name = true)
    (kept : Phase.WellKept calls.settings.assetCacheTypes phase)
    (called : admitted calls.settings.assetCacheTypes calls.pdir (cacheRoot calls caller)
      (calls.pid caller) phase request)
    (clear : clearWay world (.harvest caller) request) :
    ∃ next, moves calls.settings.assetCacheTypes calls.pdir phase request reply next ∧
      Change calls caller phase world after next := by
  have failed : ∀ raised, reply = .error raised → after.base.drive = world.base.drive →
      Change calls caller phase world after phase := by
    intro raised refused same
    obtain ⟨spares, given, log⟩ := failed_step raised step refused same
    exact .quiet spares given log
  have looked : DiskCall.looks request = true → ∀ place, world.Spares after place :=
    fun looks => spares_of_drive (look_step looks step.disk)
  cases request <;> simp only [admitted] at called
  case isDir path => exact ⟨phase, rfl, .quiet (looked rfl) step.given step.log⟩
  case isLink path => exact ⟨phase, rfl, .quiet (looked rfl) step.given step.log⟩
  case isFile path => exact ⟨phase, rfl, .quiet (looked rfl) step.given step.log⟩
  case sameFile path other => exact ⟨phase, rfl, .quiet (looked rfl) step.given step.log⟩
  case scandir path => exact ⟨phase, rfl, .quiet (looked rfl) step.given step.log⟩
  case exist path =>
      obtain ⟨idle, item, cacheable, rfl⟩ := called
      rcases reply with raised | _ | _
      · exact ⟨phase, rfl, failed raised rfl (look_step rfl step.disk)⟩
      · refine ⟨_, ⟨item, cacheable, rfl, rfl⟩, ?_⟩
        refine .missed item cacheable idle (looked rfl) ?_ step.given step.log
        rcases step.disk with through | ⟨⟨raised, impossible, -⟩, -⟩
        · simp only [goesThrough, onDisk, Prod.mk.injEq, Except.ok.injEq] at through
          rw [← Option.not_isSome_iff_eq_none]
          intro file
          rw [exist_of_file (item_plain plain.2 above cacheable) file] at through
          cases through.1
        · cases impossible
      · exact ⟨phase, rfl, .quiet (looked rfl) step.given step.log⟩
  case makedirs path =>
      obtain ⟨item, missed, rfl⟩ := called
      have names : ∀ name ∈ calls.pdir ++ item.dir, isPlain name = true := by
        rw [List.forall_mem_append]
        exact ⟨above, dirs_plain plain.2 (kept item (by rw [missed]; rfl))⟩
      exact ⟨phase, rfl, .quiet (make_dirs_step names step.disk) step.given step.log⟩
  case timeNs =>
      obtain ⟨item, missed⟩ := called
      cases reply with
      | error raised => exact ⟨phase, rfl, failed raised rfl (look_step rfl step.disk)⟩
      | ok now =>
          exact ⟨_, ⟨item, missed, rfl⟩,
            .stamped item now missed (looked rfl) step.given.1 step.given.2 step.log⟩
  case readFile path =>
      obtain ⟨item, stamp, stamped, rfl⟩ := called
      cases reply with
      | error raised => exact ⟨phase, rfl, failed raised rfl (look_step rfl step.disk)⟩
      | ok blocks =>
          rcases step.disk with ⟨-, read, answered, -, source⟩ | ⟨⟨raised, impossible, -⟩, -⟩
          · cases answered
            exact ⟨_, ⟨item, stamp, stamped, rfl⟩,
              .loaded item stamp _ stamped source (looked rfl) step.given step.log⟩
          · cases impossible
  case openWrite path =>
      obtain ⟨item, stamp, bytes, loaded, rfl⟩ := called
      rcases open_step clear step.disk with ⟨same, raised, refused⟩ | ⟨rfl, spares, empty⟩
      · refine ⟨phase, ?_, failed raised refused same⟩
        rw [refused]
        rfl
      · exact ⟨_, ⟨item, stamp, bytes, loaded, rfl⟩,
          .opened item stamp bytes loaded spares empty step.given step.log⟩
  case write file chunk =>
      obtain ⟨item, stamp, bytes, written, writing⟩ := called
      obtain ⟨part, answered, spares, appended⟩ := write_step step.disk
      rcases answered with ⟨rfl, rfl⟩ | ⟨raised, rfl⟩
      · exact ⟨_, ⟨item, stamp, bytes, written, file, writing, rfl⟩,
          .wrote item stamp bytes written part file _ writing spares appended (.inl rfl) step.given
            step.log⟩
      · exact ⟨_, ⟨item, stamp, bytes, written, file, writing, rfl⟩,
          .wrote item stamp bytes written part file _ writing spares appended (.inr rfl) step.given
            step.log⟩
  case replace source target =>
      obtain ⟨item, stamp, bytes, file, writing, rfl, rfl⟩ := called
      have cacheable := kept item (by rw [writing]; rfl)
      rcases rename_step cacheable clear step.disk with
        ⟨same, raised, refused⟩ | ⟨rfl, content, copied, moved, arrived, spares⟩
      · refine ⟨phase, ?_, failed raised refused same⟩
        rw [refused]
        rfl
      · exact ⟨_, ⟨item, stamp, bytes, file, writing, rfl⟩,
          .renamed item stamp bytes content file writing copied moved arrived spares step.given
            step.log⟩
  case remove path =>
      obtain ⟨item, stamp, stamped, rfl⟩ := called
      refine ⟨_, rfl, ?_⟩
      rcases remove_step step.disk with ⟨same, raised, refused⟩ | ⟨place, spotted, removed, spares, gone⟩
      · obtain ⟨kept, given, log⟩ := failed_step raised step refused same
        exact .discarded item stamp stamped (fun _ _ _ => kept _) (fun place => .inl (kept place).1)
          given log
      · obtain ⟨dir, -, -, rfl⟩ := spot_in_directory (temp_name_plain _ _ _) spotted
        refine .discarded item stamp stamped ?_ ?_ step.given (by rw [step.log, removed]; rfl)
        · exact fun other name apart => spares _ (ends_apart apart)
        · intro other
          by_cases here : other = dir ++ [tempName item.name (calls.pid caller) stamp]
          · exact .inr (here ▸ gone)
          · exact .inl (spares other here).1

end Steps

end PretextBuildServer.CacheChanges
