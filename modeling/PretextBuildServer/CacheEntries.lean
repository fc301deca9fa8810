import PretextBuildServer.CacheCompleteness
import PretextBuildServer.PathTexts

/-!
# Whether a cache entry is written once

A harvest looks whether an entry is there, and puts its copy into place some
calls later, over whatever is there by then. Entries are written once in the
runs in which nobody else was faster in between.
-/

namespace PretextBuildServer.CacheEntries

open EffectProgram EffectProgram.Program InterleavedParties PosixDisk
open PretextBuildServer.ServerSettings PretextBuildServer.JobCalls
open PretextBuildServer.NameValidators PretextBuildServer.DiskCalls
open PretextBuildServer.AssetCache PretextBuildServer.HarvestRuns
open PretextBuildServer.HarvestConfinement PretextBuildServer.PathTexts
open PretextBuildServer.CacheSystem PretextBuildServer.HarvestProtocol
open PretextBuildServer.CacheChanges PretextBuildServer.CacheInvariant
open PretextBuildServer.CacheCompleteness

set_option autoImplicit false

variable {Caller : Type} [DecidableEq Caller]

/-! ## Entries and reports -/

/-- The call has put the entry into place, by its report. -/
def Reports (reached : CacheConfiguration Caller) (caller : Caller) (path : String) : Prop :=
  ∃ added, reached.rest (.harvest caller) = .done (.ok added) ∧ path ∈ added

def evictions (place : Place) (log : List (Event Caller)) : Nat := log.count (.evicted place)

/-- A cache file stays as it is, and nothing is done to it, unless it is evicted. -/
def EntriesStay (calls : Calls Caller) (world after : CacheWorld Caller) : Prop :=
  ∀ dir name, matchesCacheFilename name.toList = true →
    (world.fileAt (calls.pdir ++ dir ++ [name])).isSome = true →
    world.Spares after (calls.pdir ++ dir ++ [name]) ∨
      after.log = .evicted (calls.pdir ++ dir ++ [name]) :: world.log

/-- At most one call reports a path that was free at the start, and one more for
every eviction. -/
def ReportedOnce (calls : Calls Caller) (base : DiskWorld) (reached : CacheConfiguration Caller) :
    Prop :=
  ∀ path (callers : List Caller), callers.Nodup → (∀ caller ∈ callers, Reports reached caller path) →
    callers.length + (base.drive.disk.fileAt (calls.pdir ++ pathNames path)).isSome.toNat ≤
      evictions (calls.pdir ++ pathNames path) reached.world.log + 1

/-- No harvest renames its copy onto a path that another one has filled since it
looked, if what the other one put there has not been evicted. -/
def unovertaken (world : CacheWorld Caller) : Party Caller → DiskCall → Bool
  | .harvest caller, .replace _ target => !overtaken caller target world.log
  | _, _ => true

/-- Such steps only, with no link on a copy's way. -/
def exclusive (calls : Calls Caller) :
    Surroundings DiskCall.Answer Raised (CacheWorld Caller) (Party Caller) :=
  calls.surroundings.restrict fun world party request _ =>
    clearWay world party request ∧ unovertaken world party request = true

def isExclusive (world : CacheWorld Caller) (party : Party Caller) (request : DiskCall) : Bool :=
  wayIsClear world party request && unovertaken world party request

/-! ## Counting -/

def isPublication (place : Place) : Event Caller → Bool
  | .published _ other => other = place
  | _ => false

def publications (place : Place) (log : List (Event Caller)) : Nat := log.countP (isPublication place)

/-- Every file but the first was put there after an eviction. -/
def Counted (start : Disk) (log : List (Event Caller)) : Prop :=
  ∀ place, publications place log + (start.fileAt place).isSome.toNat ≤
    evictions place log + (held start place log).toNat

theorem counted_event {start : Disk} {log : List (Event Caller)} (counted : Counted start log)
    {event : Event Caller}
    (free : ∀ caller place, event = .published caller place → held start place log = false) :
    Counted start (event :: log) := by
  intro place
  have before := counted place
  cases event with
  | missed caller tested =>
      simpa [publications, isPublication, evictions, held] using before
  | published caller target =>
      have none := free caller target rfl
      by_cases same : target = place
      · subst same
        simp only [none, Bool.toNat_false] at before
        simp only [publications, List.countP_cons, isPublication, decide_true, if_true, evictions,
          List.count_cons, held, Bool.toNat_true] at before ⊢
        simp only [beq_iff_eq, reduceCtorEq, if_false]
        omega
      · simpa [publications, isPublication, evictions, held, same] using before
  | evicted target =>
      by_cases same : target = place
      · subst same
        have bound : (held start target log).toNat ≤ 1 := Bool.toNat_le _
        simp only [publications, List.countP_cons, isPublication, Bool.false_eq_true, if_false,
          evictions, List.count_cons, held, beq_self_eq_true, if_true, Bool.toNat_false] at before ⊢
        omega
      · simpa [publications, isPublication, evictions, held, same] using before

omit [DecidableEq Caller] in
theorem publishers_counted {place : Place} {log : List (Event Caller)} {callers : List Caller}
    (different : callers.Nodup) (all : ∀ caller ∈ callers, .published caller place ∈ log) :
    callers.length ≤ publications place log := by
  have events : (callers.map fun caller => Event.published caller place).Nodup :=
    different.map (by intro one other same; cases same; rfl)
  have within : (callers.map fun caller => Event.published caller place) ⊆
      log.filter (isPublication place) := by
    intro event member
    obtain ⟨caller, inside, rfl⟩ := List.mem_map.mp member
    exact List.mem_filter.mpr ⟨all caller inside, by simp [isPublication]⟩
  have bound := (List.subperm_of_subset events within).length_le
  rwa [List.length_map, ← List.countP_eq_length_filter] at bound

/-! ## One step -/

section Steps

variable {calls : Calls Caller} {start : Disk} {world after : CacheWorld Caller} {caller : Caller}
  {phase next : Phase} {phases : Party Caller → Phase}

omit [DecidableEq Caller] in
theorem published_request {disk : Disk} {request : DiskCall} {reply : DiskReply request}
    {log : List (Event Caller)} {place : Place}
    (noted : .published caller place :: log = events (.harvest caller) disk request reply ++ log) :
    ∃ source, request = .replace source place := by
  have events : events (.harvest caller) disk request reply = [.published caller place] :=
    (List.append_cancel_right (by rw [← noted]; rfl)).symm
  unfold CacheSystem.events at events
  grind

theorem published_free (intact : Intact calls start world phases) {item : Item} {stamp : Nat}
    {bytes : Bytes} {file : Place}
    (writing : (phases (.harvest caller)).stage = .writing item stamp bytes bytes file)
    (free : overtaken caller (item.path calls.pdir) world.log = false) :
    held start (item.path calls.pdir) world.log = false := by
  rw [Bool.eq_false_iff]
  intro there
  have told := (intact.sound caller).pending item (by rw [writing]; rfl) there
  rw [free] at told
  cases told

/-- A harvest that overtakes nobody leaves the entries alone, and counts. -/
theorem change_keeps_entries (intact : Intact calls start world phases)
    (counted : Counted start world.log)
    (change : Change calls caller (phases (.harvest caller)) world after next)
    (exclusive : ∀ place, after.log = .published caller place :: world.log →
      overtaken caller place world.log = false) :
    Counted start after.log ∧ EntriesStay calls world after := by
  have sound := intact.sound caller
  have spared : (∀ dir name, matchesCacheFilename name.toList = true →
      (world.fileAt (calls.pdir ++ dir ++ [name])).isSome = true →
      world.Spares after (calls.pdir ++ dir ++ [name])) → EntriesStay calls world after :=
    fun spares dir name cached there => .inl (spares dir name cached there)
  cases change with
  | quiet spares given log => exact ⟨log ▸ counted, spared fun _ _ _ _ => spares _⟩
  | missed item cacheable idle spares free given log =>
      refine ⟨?_, spared fun _ _ _ _ => spares _⟩
      rw [log]
      exact counted_event counted (by simp)
  | stamped item now missed spares fresh given log =>
      exact ⟨log ▸ counted, spared fun _ _ _ _ => spares _⟩
  | loaded item stamp bytes stamped source spares given log =>
      exact ⟨log ▸ counted, spared fun _ _ _ _ => spares _⟩
  | opened item stamp bytes loaded spares empty given log =>
      refine ⟨log ▸ counted, spared fun dir name cached _ => ?_⟩
      exact spares _ (@temp_apart calls.pdir item { dir, name } _ _ cached)
  | wrote item stamp bytes written part file last writing spares appended stage given log =>
      obtain ⟨-, rfl, -⟩ := sound.writing item stamp bytes written file writing
      refine ⟨log ▸ counted, spared fun dir name cached _ => ?_⟩
      exact spares _ (@temp_apart calls.pdir item { dir, name } _ _ cached)
  | renamed item stamp bytes content file writing copied moved arrived spares given log =>
      have free := published_free intact writing (exclusive _ log)
      have cacheable := sound.kept item (by rw [writing]; rfl)
      constructor
      · rw [log]
        apply counted_event counted
        rintro _ _ ⟨⟩
        exact free
      · apply spared
        intro dir name cached there
        apply spares _ (@temp_apart calls.pdir item { dir, name } _ _ cached)
        intro same
        have here : (world.fileAt (item.path calls.pdir)).isSome = true := same ▸ there
        rw [← intact.present item cacheable.name, free] at here
        cases here
  | discarded item stamp stamped spares gone given log =>
      refine ⟨log ▸ counted, spared fun dir name cached _ => spares _ _ ?_⟩
      intro same
      rw [same, temp_name_uncached] at cached
      cases cached

theorem loss_keeps_entries (counted : Counted start world.log) (loss : Loss world after) :
    Counted start after.log ∧ EntriesStay calls world after := by
  cases loss with
  | quiet spares given log => exact ⟨log ▸ counted, fun _ _ _ _ => .inl (spares _)⟩
  | evicted place spares gone given log =>
      constructor
      · rw [log]
        exact counted_event counted (by simp)
      · intro dir name _ _
        by_cases same : calls.pdir ++ dir ++ [name] = place
        · exact .inr (same ▸ log)
        · exact .inl (spares _ same)

theorem exclusive_step {party : Party Caller} {request : DiskCall} {reply : DiskReply request}
    (plain : PlainPaths calls.settings) (valid : matchesProjectId calls.projectId.toList = true)
    (intact : Intact calls start world phases) (counted : Counted start world.log)
    (called : (protocol calls party).admits (phases party) request)
    (step : ((exclusive calls).machine party).step world request reply after) :
    (∃ phase, (protocol calls party).step (phases party) request reply phase ∧
      Intact calls start after (Function.update phases party phase) ∧ Counted start after.log) ∧
    EntriesStay calls world after := by
  obtain ⟨step, clear, first⟩ := step
  cases party with
  | harvest caller =>
      obtain ⟨next, moved, change⟩ := harvest_step step plain (pdir_plain plain valid)
        (intact.sound caller).kept called clear
      have alone : ∀ place, after.log = .published caller place :: world.log →
          overtaken caller place world.log = false := by
        intro place noted
        obtain ⟨source, rfl⟩ := published_request (noted.symm.trans step.log)
        simpa [unovertaken] using first
      obtain ⟨counts, stay⟩ := change_keeps_entries intact counted change alone
      exact ⟨⟨next, moved, intact_change intact change, counts⟩, stay⟩
  | prune caller =>
      have loss := prune_step step called
      obtain ⟨counts, stay⟩ := @loss_keeps_entries _ _ calls _ _ _ counted loss
      refine ⟨⟨phases (.prune caller), rfl, ?_, counts⟩, stay⟩
      rw [Function.update_eq_self]
      exact intact_loss intact loss

theorem exclusive_upholds (plain : PlainPaths calls.settings)
    (valid : matchesProjectId calls.projectId.toList = true) :
    Upholds (exclusive calls) (protocol calls)
      fun world phases => Intact calls start world phases ∧ Counted start world.log := by
  constructor
  · rintro world phases party request reply after ⟨intact, counted⟩ called step
    exact (exclusive_step plain valid intact counted called step).1
  · rintro world phases _ ⟨intact, counted⟩ ⟨clock, -, rfl⟩
    exact ⟨intact_loss intact (.quiet (fun _ => spares_refl) rfl rfl), counted⟩

end Steps

/-! ## Over a whole run -/

section Runs

variable {calls : Calls Caller} {base : DiskWorld} {reached : CacheConfiguration Caller}
  {phases : Party Caller → Phase}

omit [DecidableEq Caller] in
theorem cacheable_valid {types : List String} {item : Item}
    (named : ∀ name ∈ types, validName name = true) (cacheable : item.Cacheable types) :
    ∀ name ∈ item.dir ++ [item.name], validName name = true := by
  rw [List.forall_mem_append, List.forall_mem_singleton]
  refine ⟨?_, valid_of_cache_filename cacheable.name⟩
  intro name inside
  rcases cacheable.dir name inside with ofType | matched
  · exact named name ofType
  · exact valid_of_subdir matched

theorem report_published (named : ∀ name ∈ calls.settings.assetCacheTypes, validName name = true)
    (intact : Intact calls base.drive.disk reached.world phases)
    (keeps : Keeps (protocol calls) handsOn phases reached) {caller : Caller} {path : String}
    (reports : Reports reached caller path) :
    .published caller (calls.pdir ++ pathNames path) ∈ reached.world.log := by
  obtain ⟨added, ended, member⟩ := reports
  have owed := keeps (.harvest caller)
  rw [ended] at owed
  obtain ⟨-, texts⟩ := owed added rfl
  rw [texts] at member
  obtain ⟨item, reported, rfl⟩ := List.mem_map.mp member
  obtain ⟨cacheable, published⟩ := (intact.sound caller).reported item reported
  rw [Item.text, path_names_joined (cacheable_valid named cacheable), ← List.append_assoc]
  exact published

end Runs

/-- In every run in which no harvest renames its copy over what another one has
put there since it looked, entries stay as they are until they are evicted, and
only one call reports each. -/
theorem cache_entries_written_once (calls : Calls Caller) (plain : PlainPaths calls.settings)
    (named : ∀ name ∈ calls.settings.assetCacheTypes, validName name = true)
    (valid : matchesProjectId calls.projectId.toList = true) (base : DiskWorld)
    (reached : CacheConfiguration Caller)
    (reaches : Reaches (exclusive calls) (calls.start base) reached) :
    (∀ next, Move (exclusive calls) reached next → EntriesStay calls reached.world next.world) ∧
      ReportedOnce calls base reached := by
  have start : Counted base.drive.disk ([] : List (Event Caller)) :=
    fun place => by simp [publications, evictions, held]
  constructor
  · intro next move
    apply reached_move_relates (EntriesStay calls) (exclusive_upholds plain valid) _ _ _
      ⟨start_intact base, start⟩ (start_keeps base) reaches move
    · rintro world phases party request reply after ⟨intact, counted⟩ called step
      exact (exclusive_step plain valid intact counted called step).2
    · rintro world phases _ - ⟨clock, -, rfl⟩ dir name - -
      exact .inl spares_refl
  · intro path callers different reports
    obtain ⟨phases, ⟨intact, counted⟩, keeps⟩ := keeps_reaches (exclusive_upholds plain valid) _
      ⟨start_intact base, start⟩ (start_keeps base) reaches
    have published := publishers_counted different fun caller member =>
      report_published named intact keeps (reports caller member)
    have bound := counted (calls.pdir ++ pathNames path)
    have one := Bool.toNat_le (held base.drive.disk (calls.pdir ++ pathNames path) reached.world.log)
    omega

/-! ## Two harvests at the same time -/

def raceRun (allowed : CacheWorld Bool → Party Bool → DiskCall → Bool) (head : Nat) :
    CacheConfiguration Bool :=
  playBy allowed raceCalls.answer (List.replicate head (.harvest true) ++
    List.replicate 24 (.harvest false) ++ List.replicate 24 (.harvest true)) (raceCalls.start race)

def CacheConfiguration.report {Caller : Type} (reached : CacheConfiguration Caller)
    (caller : Caller) : List String :=
  match reached.rest (.harvest caller) with
  | .done (.ok added) => added
  | _ => []

theorem reports_of_report {Caller : Type} {reached : CacheConfiguration Caller} {caller : Caller}
    {path : String} (listed : path ∈ CacheConfiguration.report reached caller) :
    Reports reached caller path := by
  unfold CacheConfiguration.report at listed
  split at listed
  · rename_i added ended
    exact ⟨added, ended, listed⟩
  · cases listed

/-- One after the other, the first harvest brings its figure in, and the second
leaves it there. -/
theorem harvests_in_turn_write_once :
    (∀ next, Move (exclusive raceCalls)
        (raceRun isExclusive 24) next →
      EntriesStay raceCalls (raceRun isExclusive 24).world next.world) ∧
      ReportedOnce raceCalls race (raceRun isExclusive 24) := by
  apply cache_entries_written_once raceCalls ⟨by decide, by decide⟩ (by decide +kernel) (by decide)
  apply play_by_reaches
  intro world party request allowed
  rw [isExclusive, Bool.and_eq_true] at allowed
  exact ⟨answer_is_step _ party world request, clear_of_check allowed.1, allowed.2⟩

/-- Both look before either has renamed its copy: both report the figure. -/
theorem racing_harvests_both_report :
    ¬ ∀ (calls : Calls Bool) (base : DiskWorld) (reached : CacheConfiguration Bool),
      PlainPaths calls.settings →
      (∀ name ∈ calls.settings.assetCacheTypes, validName name = true) →
      matchesProjectId calls.projectId.toList = true →
      Reaches calls.surroundings (calls.start base) reached →
      (∀ next, Move calls.surroundings reached next → EntriesStay calls reached.world next.world) ∧
        ReportedOnce calls base reached := by
  intro always
  have once := (always raceCalls race (raceRun (fun _ _ _ => true) 14)
    ⟨by decide, by decide⟩ (by decide +kernel) (by decide)
    (play_by_reaches _ _ _ (fun world party request _ => answer_is_step _ party world request) _ _)).2
  have bound := once "latex-image/sub/0123456789abcdef0123456789abcdef.svg" [true, false] (by decide)
    (by
      intro caller _
      apply reports_of_report
      revert caller
      decide +kernel)
  have unevicted : evictions (raceCalls.pdir ++
      pathNames "latex-image/sub/0123456789abcdef0123456789abcdef.svg")
      (raceRun (fun _ _ _ => true) 14).world.log = 0 := by decide +kernel
  rw [unevicted, List.length_cons, List.length_singleton] at bound
  omega

end PretextBuildServer.CacheEntries
