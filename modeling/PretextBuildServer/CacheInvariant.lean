import PretextBuildServer.CacheChanges

/-!
# What holds of a shared cache at every moment

Whatever the parties do, and wherever they die: a cache file is complete, the
log tells which are there, and a copy under way is for a path that was free when
it was looked for.
-/

namespace PretextBuildServer.CacheInvariant

open EffectProgram EffectProgram.Program InterleavedParties PosixDisk
open PretextBuildServer.ServerSettings PretextBuildServer.JobCalls
open PretextBuildServer.NameValidators PretextBuildServer.DiskCalls
open PretextBuildServer.AssetCache PretextBuildServer.HarvestRuns
open PretextBuildServer.HarvestConfinement PretextBuildServer.CacheSystem
open PretextBuildServer.HarvestProtocol PretextBuildServer.PruneProtocol
open PretextBuildServer.CacheChanges

set_option autoImplicit false

variable {Caller : Type} [DecidableEq Caller]

/-! ## What the log tells -/

/-- A file is there, as far as the log tells. -/
def held (start : Disk) (place : Place) : List (Event Caller) → Bool
  | [] => (start.fileAt place).isSome
  | .missed .. :: log => held start place log
  | .published _ other :: log => if other = place then true else held start place log
  | .evicted other :: log => if other = place then false else held start place log

/-- Since the caller's own test of the place, a file was put there, and has not
been evicted. -/
def overtaken (caller : Caller) (place : Place) : List (Event Caller) → Bool
  | [] => false
  | .missed other tested :: log =>
      if other = caller ∧ tested = place then false else overtaken caller place log
  | .published _ other :: log => if other = place then true else overtaken caller place log
  | .evicted other :: log => if other = place then false else overtaken caller place log

theorem overtaken_or_free {start : Disk} {caller : Caller} {place : Place}
    {log : List (Event Caller)}
    (told : held start place log = true → overtaken caller place log = true) {event : Event Caller}
    (other : ∀ tested, event ≠ .missed caller tested)
    (now : held start place (event :: log) = true) :
    overtaken caller place (event :: log) = true := by
  cases event with
  | missed author tested =>
      rw [overtaken, if_neg]
      · exact told now
      · rintro ⟨rfl, -⟩
        exact other tested rfl
  | published author at_ =>
      rw [overtaken]
      split
      · rfl
      · rename_i apart
        exact told (by rwa [held, if_neg apart] at now)
  | evicted at_ =>
      rw [held] at now
      rw [overtaken]
      split at now
      · cases now
      · rename_i apart
        rw [if_neg apart]
        exact told now

/-! ## The invariant -/

variable (calls : Calls Caller) (start : Disk)

/-- Where the content of a cache file may come from. -/
def Known (item : Item) (content : Bytes) : Prop :=
  start.fileAt (item.path calls.pdir) = some content ∨
    ∃ caller, calls.sources (item.path (cacheRoot calls caller)) = some content

/-- What holds of one harvest and the cache. -/
structure Sound (world : CacheWorld Caller) (caller : Caller) (phase : Phase) : Prop where
  kept : Phase.WellKept calls.settings.assetCacheTypes phase
  given : ∀ item stamp, phase.stage.stamp = some (item, stamp) →
    (calls.pid caller, stamp) ∈ world.given
  loaded : ∀ item stamp bytes, phase.stage = .loaded item stamp bytes →
    calls.sources (item.path (cacheRoot calls caller)) = some bytes
  writing : ∀ item stamp bytes written file, phase.stage = .writing item stamp bytes written file →
    calls.sources (item.path (cacheRoot calls caller)) = some bytes ∧
      file = item.temp calls.pdir (calls.pid caller) stamp ∧
      (world.fileAt file).all (· == written) = true
  pending : ∀ item, phase.stage.item = some item →
    held start (item.path calls.pdir) world.log = true →
      overtaken caller (item.path calls.pdir) world.log = true
  reported : ∀ item ∈ phase.reported, item.Cacheable calls.settings.assetCacheTypes ∧
    .published caller (item.path calls.pdir) ∈ world.log

/-- What holds of the cache and of all harvests together. -/
structure Intact (world : CacheWorld Caller) (phases : Party Caller → Phase) : Prop where
  sound : ∀ caller, Sound calls start world caller (phases (.harvest caller))
  apart : ∀ caller other item stamp last time, caller ≠ other →
    (phases (.harvest caller)).stage.stamp = some (item, stamp) →
    (phases (.harvest other)).stage.stamp = some (last, time) →
    (calls.pid caller, stamp) ≠ (calls.pid other, time)
  entries : ∀ (item : Item) content, matchesCacheFilename item.name.toList = true →
    world.fileAt (item.path calls.pdir) = some content → Known calls start item content
  present : ∀ item : Item, matchesCacheFilename item.name.toList = true →
    held start (item.path calls.pdir) world.log = (world.fileAt (item.path calls.pdir)).isSome

section Kept

variable {calls start} {world after : CacheWorld Caller} {caller other : Caller}
  {phase next : Phase} {phases : Party Caller → Phase}

/-- What one party does leaves the harvests of the others sound: it keeps off
their temporary names, or removes them. -/
theorem sound_kept (sound : Sound calls start world caller phase)
    (given : ∀ stamp ∈ world.given, stamp ∈ after.given)
    (file : ∀ item stamp, phase.stage.stamp = some (item, stamp) →
      after.fileAt (item.temp calls.pdir (calls.pid caller) stamp) =
          world.fileAt (item.temp calls.pdir (calls.pid caller) stamp) ∨
        after.fileAt (item.temp calls.pdir (calls.pid caller) stamp) = none)
    (log : after.log = world.log ∨ ∃ event : Event Caller,
      (∀ tested, event ≠ .missed caller tested) ∧ after.log = event :: world.log) :
    Sound calls start after caller phase := by
  refine ⟨sound.kept, ?_, sound.loaded, ?_, ?_, ?_⟩
  · intro item stamp stamped
    exact given _ (sound.given item stamp stamped)
  · intro item stamp bytes written place writing
    obtain ⟨source, rfl, copied⟩ := sound.writing item stamp bytes written place writing
    refine ⟨source, rfl, ?_⟩
    rcases file item stamp (by rw [writing]; rfl) with same | gone
    · rw [same, copied]
    · rw [gone]
      rfl
  · intro item under
    have told := sound.pending item under
    rcases log with same | ⟨event, apart, longer⟩
    · rw [same]
      exact told
    · rw [longer]
      exact overtaken_or_free told apart
  · intro item reported
    obtain ⟨cacheable, there⟩ := sound.reported item reported
    refine ⟨cacheable, ?_⟩
    rcases log with same | ⟨event, -, longer⟩
    · rwa [same]
    · rw [longer]
      exact List.mem_cons_of_mem _ there

theorem sound_next (sound : Sound calls start world caller phase) {stage : Stage}
    (item : stage.item = phase.stage.item) (log : after.log = world.log)
    (given : ∀ item stamp, stage.stamp = some (item, stamp) → (calls.pid caller, stamp) ∈ after.given)
    (loaded : ∀ item stamp bytes, stage = .loaded item stamp bytes →
      calls.sources (item.path (cacheRoot calls caller)) = some bytes)
    (writing : ∀ item stamp bytes written file, stage = .writing item stamp bytes written file →
      calls.sources (item.path (cacheRoot calls caller)) = some bytes ∧
        file = item.temp calls.pdir (calls.pid caller) stamp ∧
        (after.fileAt file).all (· == written) = true) :
    Sound calls start after caller { phase with stage } := by
  refine ⟨?_, given, loaded, writing, ?_, ?_⟩
  · intro other under
    exact sound.kept other (item ▸ under)
  · intro other under
    rw [log]
    exact sound.pending other (item ▸ under)
  · intro other reported
    rw [log]
    exact sound.reported other reported

theorem intact_update (intact : Intact calls start world phases)
    (own : Sound calls start after caller next)
    (others : ∀ other, other ≠ caller → Sound calls start after other (phases (.harvest other)))
    (stamps : ∀ item stamp, next.stage.stamp = some (item, stamp) →
      (phases (.harvest caller)).stage.stamp = some (item, stamp) ∨
        (calls.pid caller, stamp) ∉ world.given)
    (entries : ∀ (item : Item) content, matchesCacheFilename item.name.toList = true →
      after.fileAt (item.path calls.pdir) = some content → Known calls start item content)
    (present : ∀ item : Item, matchesCacheFilename item.name.toList = true →
      held start (item.path calls.pdir) after.log = (after.fileAt (item.path calls.pdir)).isSome) :
    Intact calls start after (Function.update phases (.harvest caller) next) := by
  have fresh : ∀ other item stamp last time, other ≠ caller →
      next.stage.stamp = some (item, stamp) →
      (phases (.harvest other)).stage.stamp = some (last, time) →
      (calls.pid caller, stamp) ≠ (calls.pid other, time) := by
    intro other item stamp last time apart mine theirs
    rcases stamps item stamp mine with before | unused
    · exact intact.apart caller other item stamp last time apart.symm before theirs
    · intro same
      exact unused (same ▸ (intact.sound other).given last time theirs)
  refine ⟨?_, ?_, entries, present⟩
  · intro other
    by_cases same : other = caller
    · rw [same, Function.update_self]
      exact own
    · rw [Function.update_of_ne (by simpa using same)]
      exact others other same
  · intro first second item stamp last time apart one two
    by_cases firstIs : first = caller
    · subst firstIs
      rw [Function.update_self] at one
      rw [Function.update_of_ne (by simpa using apart.symm)] at two
      exact fresh second item stamp last time apart.symm one two
    · rw [Function.update_of_ne (by simpa using firstIs)] at one
      by_cases secondIs : second = caller
      · subst secondIs
        rw [Function.update_self] at two
        exact (fresh first last time item stamp firstIs two one).symm
      · rw [Function.update_of_ne (by simpa using secondIs)] at two
        exact intact.apart first second item stamp last time apart one two

theorem temps_apart (intact : Intact calls start world phases) (apart : other ≠ caller)
    {item last : Item} {stamp time : Nat}
    (mine : (phases (.harvest caller)).stage.stamp = some (item, stamp))
    (theirs : (phases (.harvest other)).stage.stamp = some (last, time)) :
    tempName last.name (calls.pid other) time ≠ tempName item.name (calls.pid caller) stamp := by
  intro same
  obtain ⟨pids, stamps⟩ := temp_name_tells same
  exact intact.apart caller other item stamp last time apart.symm mine theirs
    (by rw [pids, stamps])

theorem intact_quiet (intact : Intact calls start world phases)
    (spares : ∀ place, world.Spares after place)
    (given : ∀ stamp ∈ world.given, stamp ∈ after.given)
    (log : after.log = world.log ∨ ∃ tested, after.log = .missed caller tested :: world.log)
    (own : Sound calls start after caller next)
    (stamps : ∀ item stamp, next.stage.stamp = some (item, stamp) →
      (phases (.harvest caller)).stage.stamp = some (item, stamp) ∨
        (calls.pid caller, stamp) ∉ world.given) :
    Intact calls start after (Function.update phases (.harvest caller) next) := by
  apply intact_update intact own _ stamps
  · intro item content cached found
    exact intact.entries item content cached (by rwa [CacheWorld.fileAt, (spares _).1] at found)
  · intro item cached
    have told : held start (item.path calls.pdir) after.log =
        held start (item.path calls.pdir) world.log := by
      rcases log with same | ⟨tested, longer⟩
      · rw [same]
      · rw [longer, held]
    rw [told, intact.present item cached, CacheWorld.fileAt, CacheWorld.fileAt, (spares _).1]
  · intro other apart
    apply sound_kept (intact.sound other) given (fun _ _ _ => .inl (spares _).1)
    rcases log with same | ⟨tested, longer⟩
    · exact .inl same
    · refine .inr ⟨_, ?_, longer⟩
      rintro place ⟨⟩
      exact apart rfl

theorem intact_temp (intact : Intact calls start world phases) {mine : Item} {time : Nat}
    (stamped : (phases (.harvest caller)).stage.stamp = some (mine, time))
    (spares : ∀ dir name, name ≠ tempName mine.name (calls.pid caller) time →
      world.Spares after (dir ++ [name]))
    (given : after.given = world.given) (log : after.log = world.log)
    (own : Sound calls start after caller next)
    (stamps : ∀ item stamp, next.stage.stamp = some (item, stamp) →
      (phases (.harvest caller)).stage.stamp = some (item, stamp)) :
    Intact calls start after (Function.update phases (.harvest caller) next) := by
  have entry : ∀ item : Item, matchesCacheFilename item.name.toList = true →
      after.fileAt (item.path calls.pdir) = world.fileAt (item.path calls.pdir) := by
    intro item cached
    apply (spares (calls.pdir ++ item.dir) item.name _).1
    intro same
    rw [same, temp_name_uncached] at cached
    cases cached
  apply intact_update intact own _ (fun item stamp now => .inl (stamps item stamp now))
  · intro item content cached found
    exact intact.entries item content cached (by rwa [entry item cached] at found)
  · intro item cached
    rw [log, entry item cached, intact.present item cached]
  · intro other apart
    apply sound_kept (intact.sound other) (fun stamp there => given ▸ there) _ (.inl log)
    intro item stamp theirs
    exact .inl (spares _ _ (temps_apart intact apart stamped theirs)).1

theorem path_tells {base : Path} {item other : Item} (same : other.path base = item.path base) :
    other = item := by
  have parts := List.append_inj' same rfl
  have dirs := List.append_cancel_left parts.1
  have names := (List.cons.inj parts.2).1
  cases other
  cases item
  exact congr (congrArg Item.mk dirs) names

theorem sound_wrote (sound : Sound calls start world caller phase) {item : Item} {stamp : Nat}
    {bytes written part : Bytes} {file : Place} {last : Stage}
    (writing : phase.stage = .writing item stamp bytes written file)
    (appended : after.fileAt file = (world.fileAt file).map (· ++ part))
    (stage : last = .writing item stamp bytes (written ++ part) file ∨ last = .stamped item stamp)
    (given : after.given = world.given) (log : after.log = world.log) :
    Sound calls start after caller { phase with stage := last } := by
  have here : phase.stage.stamp = some (item, stamp) := by
    rw [writing]
    rfl
  obtain ⟨source, rfl, copied⟩ := sound.writing item stamp bytes written file writing
  have still : last.stamp = some (item, stamp) ∧ last.item = phase.stage.item := by
    rw [writing]
    rcases stage with rfl | rfl <;> exact ⟨rfl, rfl⟩
  apply sound_next sound still.2 log
  · intro other time now
    rw [still.1.symm.trans now] at here
    rw [given]
    exact sound.given other time here
  · rintro other time loaded rfl
    rcases stage with impossible | impossible <;> cases impossible
  · rintro other time loaded more place rfl
    rcases stage with same | impossible
    · cases same
      refine ⟨source, rfl, ?_⟩
      rw [appended]
      cases found : world.fileAt (item.temp calls.pdir (calls.pid caller) stamp) with
      | none => rfl
      | some content =>
          rw [found, Option.all_some, beq_iff_eq] at copied
          simp [copied]
    · cases impossible

theorem intact_renamed (intact : Intact calls start world phases) {item : Item} {stamp : Nat}
    {bytes content : Bytes} {file : Place}
    (writing : (phases (.harvest caller)).stage = .writing item stamp bytes bytes file)
    (copied : world.fileAt (item.temp calls.pdir (calls.pid caller) stamp) = some content)
    (arrived : after.fileAt (item.path calls.pdir) = some content)
    (spares : ∀ place, place ≠ item.temp calls.pdir (calls.pid caller) stamp →
      place ≠ item.path calls.pdir → world.Spares after place)
    (given : after.given = world.given)
    (log : after.log = .published caller (item.path calls.pdir) :: world.log) :
    Intact calls start after (Function.update phases (.harvest caller)
      { stage := .idle, reported := (phases (.harvest caller)).reported ++ [item] }) := by
  have sound := intact.sound caller
  have here : (phases (.harvest caller)).stage.stamp = some (item, stamp) := by
    rw [writing]
    rfl
  have cacheable := sound.kept item (by rw [writing]; rfl)
  obtain ⟨source, rfl, whole⟩ := sound.writing item stamp bytes bytes file writing
  obtain rfl : content = bytes := by
    rw [copied, Option.all_some, beq_iff_eq] at whole
    exact whole
  have elsewhere : ∀ other : Item, matchesCacheFilename other.name.toList = true →
      other.path calls.pdir ≠ item.path calls.pdir →
      after.fileAt (other.path calls.pdir) = world.fileAt (other.path calls.pdir) :=
    fun other cached apart => (spares _ (temp_apart cached) apart).1
  apply intact_update intact
  · refine ⟨nofun, nofun, nofun, nofun, nofun, ?_⟩
    intro other reported
    rw [log]
    rcases List.mem_append.mp reported with before | now
    · obtain ⟨valid, there⟩ := sound.reported other before
      exact ⟨valid, List.mem_cons_of_mem _ there⟩
    · rw [List.mem_singleton.mp now]
      exact ⟨cacheable, List.mem_cons_self⟩
  · intro other apart
    apply sound_kept (intact.sound other) (fun stamp there => given ▸ there)
    · intro last time theirs
      left
      exact (spares _ (ends_apart (temps_apart intact apart here theirs))
        (temp_apart cacheable.name).symm).1
    · exact .inr ⟨_, by simp, log⟩
  · nofun
  · intro other held cached found
    by_cases same : other.path calls.pdir = item.path calls.pdir
    · rw [same, arrived, Option.some.injEq] at found
      rw [path_tells same, ← found]
      exact .inr ⟨caller, source⟩
    · rw [elsewhere other cached same] at found
      exact intact.entries other held cached found
  · intro other cached
    rw [log, held]
    split
    · rename_i same
      rw [← same, arrived]
      rfl
    · rename_i apart
      rw [elsewhere other cached (Ne.symm apart), intact.present other cached]

theorem intact_change (intact : Intact calls start world phases)
    (change : Change calls caller (phases (.harvest caller)) world after next) :
    Intact calls start after (Function.update phases (.harvest caller) next) := by
  have sound := intact.sound caller
  cases change with
  | quiet spares given log =>
      apply intact_quiet intact spares (fun stamp there => given ▸ there) (.inl log) _
        (fun _ _ => .inl)
      exact sound_kept sound (fun stamp there => given ▸ there) (fun _ _ _ => .inl (spares _).1)
        (.inl log)
  | missed item cacheable idle spares free given log =>
      apply intact_quiet intact spares (fun stamp there => given ▸ there) (.inr ⟨_, log⟩)
      · refine ⟨?_, nofun, nofun, nofun, ?_, ?_⟩
        · rintro _ ⟨⟩
          exact cacheable
        · rintro _ ⟨⟩ there
          rw [log, held, intact.present item cacheable.name, free] at there
          cases there
        · intro other reported
          obtain ⟨valid, there⟩ := sound.reported other reported
          rw [log]
          exact ⟨valid, List.mem_cons_of_mem _ there⟩
      · nofun
  | stamped item now missed spares fresh given log =>
      apply intact_quiet intact spares
        (fun stamp there => given ▸ List.mem_cons_of_mem _ there) (.inl log)
      · apply sound_next sound (by rw [missed]; rfl) log _ (by simp) (by simp)
        rintro _ _ ⟨⟩
        rw [given]
        exact List.mem_cons_self
      · rintro _ _ ⟨⟩
        exact .inr fresh
  | loaded item stamp bytes stamped source spares given log =>
      have here : (phases (.harvest caller)).stage.stamp = some (item, stamp) := by
        rw [stamped]
        rfl
      apply intact_quiet intact spares (fun stamp there => given ▸ there) (.inl log)
      · apply sound_next sound (by rw [stamped]; rfl) log _ _ (by simp)
        · rintro _ _ ⟨⟩
          rw [given]
          exact sound.given item stamp here
        · rintro _ _ _ ⟨⟩
          exact source
      · rintro _ _ ⟨⟩
        exact .inl here
  | opened item stamp bytes loaded spares empty given log =>
      have here : (phases (.harvest caller)).stage.stamp = some (item, stamp) := by
        rw [loaded]
        rfl
      apply intact_temp intact here _ given log
      · apply sound_next sound (by rw [loaded]; rfl) log _ (by simp)
        · rintro _ _ _ _ _ ⟨⟩
          exact ⟨sound.loaded item stamp bytes loaded, rfl, by rw [empty]; rfl⟩
        · rintro _ _ ⟨⟩
          rw [given]
          exact sound.given item stamp here
      · rintro _ _ ⟨⟩
        exact here
      · exact fun dir name apart => spares _ (ends_apart apart)
  | wrote item stamp bytes written part file last writing spares appended stage given log =>
      have here : (phases (.harvest caller)).stage.stamp = some (item, stamp) := by
        rw [writing]
        rfl
      obtain ⟨-, rfl, -⟩ := sound.writing item stamp bytes written file writing
      apply intact_temp intact here _ given log (sound_wrote sound writing appended stage given log)
      · intro other time now
        rw [here, ← now]
        rcases stage with rfl | rfl <;> rfl
      · exact fun dir name apart => spares _ (ends_apart apart)
  | renamed item stamp bytes content file writing copied moved arrived spares given log =>
      exact intact_renamed intact writing copied arrived spares given log
  | discarded item stamp stamped spares gone given log =>
      apply intact_temp intact stamped spares given log
      · refine ⟨nofun, nofun, nofun, nofun, nofun, ?_⟩
        intro other reported
        rw [log]
        exact sound.reported other reported
      · nofun

theorem intact_loss (intact : Intact calls start world phases) (loss : Loss world after) :
    Intact calls start after phases := by
  cases loss with
  | quiet spares given log =>
      refine ⟨?_, intact.apart, ?_, ?_⟩
      · intro caller
        exact sound_kept (intact.sound caller) (fun stamp there => given ▸ there)
          (fun _ _ _ => .inl (spares _).1) (.inl log)
      · intro item content cached found
        exact intact.entries item content cached (by rwa [CacheWorld.fileAt, (spares _).1] at found)
      · intro item cached
        rw [log, intact.present item cached, CacheWorld.fileAt, CacheWorld.fileAt, (spares _).1]
  | evicted place spares gone given log =>
      have lost : ∀ other, after.fileAt other = world.fileAt other ∨ after.fileAt other = none := by
        intro other
        by_cases same : other = place
        · exact .inr (same ▸ gone)
        · exact .inl (spares other same).1
      refine ⟨?_, intact.apart, ?_, ?_⟩
      · intro caller
        exact sound_kept (intact.sound caller) (fun stamp there => given ▸ there)
          (fun _ _ _ => lost _) (.inr ⟨_, by simp, log⟩)
      · intro item content cached found
        rcases lost (item.path calls.pdir) with same | none
        · exact intact.entries item content cached (by rwa [same] at found)
        · rw [none] at found
          cases found
      · intro item cached
        rw [log, held]
        split
        · rename_i same
          rw [← same, gone]
          rfl
        · rename_i apart
          rw [intact.present item cached, CacheWorld.fileAt, CacheWorld.fileAt,
            (spares _ (Ne.symm apart)).1]

end Kept

/-! ## Over a whole run -/

/-- A harvest goes about its files one by one, a prune only takes away. -/
def protocol : Party Caller → Machine DiskCall.Answer Raised Phase
  | .harvest caller => copying calls.settings.assetCacheTypes calls.pdir (cacheRoot calls caller) (calls.pid caller)
  | .prune _ => { admits := fun _ => pruneCall, step := fun phase _ _ after => after = phase }

def handsOn : (party : Party Caller) → Phase → Except Raised (Outcome party) → Prop
  | .harvest _ => HandsOnReports
  | .prune _ => fun _ _ => True

/-- Only such steps are made in which no link stands on a copy's way. -/
def unobstructed : Surroundings DiskCall.Answer Raised (CacheWorld Caller) (Party Caller) :=
  calls.surroundings.restrict fun world party request _ => clearWay world party request

section Runs

variable {calls start}

omit [DecidableEq Caller] in
theorem pdir_plain (plain : PlainPaths calls.settings)
    (valid : matchesProjectId calls.projectId.toList = true) :
    ∀ name ∈ calls.pdir, isPlain name = true := by
  obtain ⟨first, more, starts, noDot⟩ := project_id_starts valid
  rw [Calls.pdir, List.forall_mem_append, List.forall_mem_singleton]
  exact ⟨plain.1, plain_of_first starts noDot⟩

theorem cache_stays_intact (plain : PlainPaths calls.settings)
    (valid : matchesProjectId calls.projectId.toList = true) :
    Upholds (unobstructed calls) (protocol calls) (Intact calls start) := by
  constructor
  · rintro world phases party request reply after intact called ⟨step, clear⟩
    cases party with
    | harvest caller =>
        obtain ⟨next, moved, change⟩ := harvest_step step plain (pdir_plain plain valid)
          (intact.sound caller).kept called clear
        exact ⟨next, moved, intact_change intact change⟩
    | prune caller =>
        refine ⟨phases (.prune caller), rfl, ?_⟩
        rw [Function.update_eq_self]
        exact intact_loss intact (prune_step step called)
  · rintro world phases _ intact ⟨clock, -, rfl⟩
    exact intact_loss intact (.quiet (fun _ => spares_refl) rfl rfl)

theorem start_intact (base : DiskWorld) :
    Intact calls base.drive.disk { base } fun _ => {} := by
  refine ⟨?_, nofun, fun item content _ found => .inl found, fun _ _ => rfl⟩
  intro caller
  exact ⟨nofun, nofun, nofun, nofun, nofun, nofun⟩

omit [DecidableEq Caller] in
theorem start_keeps (base : DiskWorld) :
    Keeps (protocol calls) handsOn (fun _ => {}) (calls.start base) := by
  rintro (caller | caller)
  · exact harvest_keeps calls.settings (calls.depth caller) calls.projectId (calls.workDir caller)
  · apply guarantees_mono _ _ (fun _ _ _ => trivial)
    exact guarantees_of_makes_only _ _ (prune_makes _ _ _) (fun _ called => called)
      fun _ _ _ _ same => same

theorem reached_intact (plain : PlainPaths calls.settings)
    (valid : matchesProjectId calls.projectId.toList = true) {base : DiskWorld}
    {reached : CacheConfiguration Caller}
    (reaches : Reaches (unobstructed calls) (calls.start base) reached) :
    ∃ phases, Intact calls base.drive.disk reached.world phases ∧
      Keeps (protocol calls) handsOn phases reached :=
  keeps_reaches (cache_stays_intact plain valid) _ (start_intact base) (start_keeps base) reaches

end Runs

end PretextBuildServer.CacheInvariant
