import PretextBuildServer.Library.PosixUnlinked

/-!
# Disks that hold the same from one place down

Where no link is in the way, a call below a place is answered by what stands there.
Two disks that hold the same there answer alike, and go on to hold the same.
-/

namespace PosixDisk

set_option autoImplicit false

/-- The same stands at a place and below it. On the way there one disk may have
directories that the other has not yet. -/
structure Disk.AlikeAt (base : Place) (disk other : Disk) : Prop where
  below : ∀ rest, other.find (base ++ rest) = disk.find (base ++ rest)
  above : ∀ front, front <+: base →
    other.find front = disk.find front ∨ disk.Passable front ∧ other.Passable front

/-- Two changes that are both refused, or leave disks that are alike. -/
def Drive.Settles (base : Place) (touched : Place → Prop) (drive other : Drive)
    (change changeToo : Option Drive) : Prop :=
  change = none ∧ changeToo = none ∨
    ∃ later laterToo, change = some later ∧ changeToo = some laterToo ∧
      later.disk.AlikeAt base laterToo.disk ∧
      drive.disk.ChangesOnly touched later.disk ∧ other.disk.ChangesOnly touched laterToo.disk

/-- Two calls that answer the same and leave disks that are alike. -/
structure Drive.Answers {Answer : Type} (base : Place) (touched : Place → Prop)
    (drive other : Drive) (outcome result : Answer × Drive) : Prop where
  same : outcome.1 = result.1
  alike : outcome.2.disk.AlikeAt base result.2.disk
  only : drive.disk.ChangesOnly touched outcome.2.disk
  onlyToo : other.disk.ChangesOnly touched result.2.disk

def EntryOf (dir place : Place) : Prop := ∃ name, place = dir ++ [name]

section Looks

variable {base : Place} {disk other : Disk} {rest : Names} {name : String}

theorem alike_symm (alike : disk.AlikeAt base other) : other.AlikeAt base disk := by
  constructor
  · exact fun rest => (alike.below rest).symm
  · intro front within
    rcases alike.above front within with same | ⟨here, there⟩
    · exact .inl same.symm
    · exact .inr ⟨there, here⟩

theorem alike_refl (base : Place) (disk : Disk) : disk.AlikeAt base disk :=
  ⟨fun _ => rfl, fun _ _ => .inl rfl⟩

theorem alike_solid (alike : disk.AlikeAt base other) {front : Place}
    (within : front <+: base ++ rest)
    {entry : Entry} (found : other.find front = some entry) (solid : entry ≠ .directory) :
    disk.find front = some entry := by
  rcases List.prefix_or_prefix_of_prefix within (List.prefix_append base rest) with above | ⟨more, rfl⟩
  · rcases alike.above front above with same | ⟨-, passable⟩
    · rw [← same, found]
    · exact absurd (passable_entry passable found) solid
  · rw [← alike.below, found]

theorem alike_unlinked (alike : disk.AlikeAt base other) (clear : disk.Unlinked (base ++ rest)) :
    other.Unlinked (base ++ rest) := by
  refine ⟨clear.plain, ?_⟩
  intro front within target link
  exact clear.unlinked front within target (alike_solid alike within link (by simp))

theorem alike_exist (alike : disk.AlikeAt base other) (clear : disk.Unlinked (base ++ rest)) :
    other.exist (base ++ rest) = disk.exist (base ++ rest) := by
  rw [exist_unlinked clear, exist_unlinked (alike_unlinked alike clear), alike.below]

theorem alike_locate (alike : disk.AlikeAt base other) (some : rest ≠ [])
    (clear : disk.Unlinked (base ++ rest)) :
    other.locate (base ++ rest) = disk.locate (base ++ rest) := by
  rw [locate_unlinked clear, locate_unlinked (alike_unlinked alike clear),
    List.dropLast_append_of_ne_nil some, alike.below]

theorem alike_spot (alike : disk.AlikeAt base other) (plain : isPlain name = true)
    (clear : disk.Unlinked (base ++ rest)) :
    other.spot (base ++ rest ++ [name]) = disk.spot (base ++ rest ++ [name]) := by
  rw [spot_unlinked clear plain, spot_unlinked (alike_unlinked alike clear) plain, alike.below]

theorem unlinked_beside {dir : Names} {later : Disk} (clear : disk.Unlinked dir)
    (only : disk.ChangesOnly (EntryOf dir) later) : later.Unlinked dir := by
  refine ⟨clear.plain, ?_⟩
  intro front within target link
  rw [only.1] at link
  · exact clear.unlinked front within target link
  · rintro ⟨name, rfl⟩
    have short := within.length_le
    rw [List.length_append, List.length_singleton] at short
    omega

end Looks

section Changes

variable {base : Place} {drive other : Drive} {rest : Names} {touched further : Place → Prop}

theorem alike_changed {disk otherDisk later laterToo : Disk} {entry : Option Entry}
    (alike : disk.AlikeAt base otherDisk) (some : rest ≠ [])
    (found : ∀ place, later.find place = if place = base ++ rest then entry else disk.find place)
    (foundToo : ∀ place, laterToo.find place =
      if place = base ++ rest then entry else otherDisk.find place) :
    later.AlikeAt base laterToo := by
  constructor
  · intro more
    rw [found, foundToo, alike.below]
  · intro front within
    have apart : front ≠ base ++ rest := by
      rintro rfl
      have short := within.length_le
      rw [List.length_append] at short
      exact some (List.length_eq_zero_iff.mp (by omega))
    rw [Disk.Passable, Disk.Passable, found, foundToo, if_neg apart, if_neg apart]
    exact alike.above front within

theorem changes_touched {disk later : Disk} {place : Place} (touch : touched place)
    (only : disk.ChangesOnly (· = place) later) : disk.ChangesOnly touched later := by
  apply changes_only_mono _ only
  rintro place rfl
  exact touch

theorem put_settles (alike : drive.disk.AlikeAt base other.disk) (some : rest ≠ [])
    (touch : touched (base ++ rest)) (entry : Entry) :
    drive.Settles base touched other (drive.put (base ++ rest) entry) (other.put (base ++ rest) entry) := by
  have parent : (base ++ rest).dropLast = base ++ rest.dropLast := List.dropLast_append_of_ne_nil some
  by_cases ready : drive.disk.find (base ++ rest).dropLast = Option.some .directory ∧
      drive.disk.find (base ++ rest) ≠ Option.some .directory
  · obtain ⟨later, put⟩ := @drive_put_free drive _ entry ready.1 ready.2
    obtain ⟨laterToo, putToo⟩ := @drive_put_free other (base ++ rest) entry
      (by rw [parent, alike.below, ← parent, ready.1]) (by rw [alike.below]; exact ready.2)
    have onDisk := (drive_put_some put).1
    have onDiskToo := (drive_put_some putToo).1
    exact .inr ⟨later, laterToo, put, putToo,
      alike_changed alike some (find_put onDisk) (find_put onDiskToo),
      changes_touched touch (put_changes_only onDisk), changes_touched touch (put_changes_only onDiskToo)⟩
  · left
    constructor
    · cases put : drive.put (base ++ rest) entry with
      | none => rfl
      | some later =>
          have needs := put_needs (drive_put_some put).1
          exact absurd ⟨needs.2.1, needs.2.2⟩ ready
    · cases put : other.put (base ++ rest) entry with
      | none => rfl
      | some later =>
          have needs := put_needs (drive_put_some put).1
          rw [parent, alike.below, alike.below, ← parent] at needs
          exact absurd ⟨needs.2.1, needs.2.2⟩ ready

theorem drop_settles (alike : drive.disk.AlikeAt base other.disk) (some : rest ≠ [])
    (touch : touched (base ++ rest)) (leaf : drive.disk.find (base ++ rest) ≠ Option.some .directory) :
    drive.Settles base touched other (drive.drop (base ++ rest)) (other.drop (base ++ rest)) := by
  have below : base ++ rest ≠ [] := by simp [some]
  obtain ⟨later, drop⟩ := drop_some below leaf
  obtain ⟨laterToo, dropToo⟩ := @drop_some other.disk _ below (by rw [alike.below]; exact leaf)
  right
  refine ⟨⟨later, _⟩, ⟨laterToo, _⟩, by rw [Drive.drop, drop]; rfl, by rw [Drive.drop, dropToo]; rfl, ?_⟩
  exact ⟨alike_changed alike some (find_drop drop) (find_drop dropToo),
    changes_touched touch (drop_changes_only drop), changes_touched touch (drop_changes_only dropToo)⟩

theorem settles_bind {change changeToo : Option Drive} {next nextToo : Drive → Option Drive}
    (first : drive.Settles base touched other change changeToo)
    (rest : ∀ later laterToo : Drive, later.disk.AlikeAt base laterToo.disk →
      later.Settles base touched laterToo (next later) (nextToo laterToo)) :
    drive.Settles base touched other (change.bind next) (changeToo.bind nextToo) := by
  rcases first with ⟨rfl, rfl⟩ | ⟨later, laterToo, rfl, rfl, alike, only, onlyToo⟩
  · exact .inl ⟨rfl, rfl⟩
  · rw [Option.bind_some, Option.bind_some]
    rcases rest later laterToo alike with refused | ⟨last, lastToo, one, two, still, changes, changesToo⟩
    · exact .inl refused
    · exact .inr ⟨last, lastToo, one, two, still, changes_only_trans only changes,
        changes_only_trans onlyToo changesToo⟩

theorem answers_idle {Answer : Type} (alike : drive.disk.AlikeAt base other.disk)
    (answer : Answer) :
    drive.Answers base touched other (answer, drive) (answer, other) :=
  ⟨rfl, alike, changes_only_refl _, changes_only_refl _⟩

theorem answers_mono {Answer : Type} {outcome result : Answer × Drive}
    (implied : ∀ place, touched place → further place)
    (answers : drive.Answers base touched other outcome result) :
    drive.Answers base further other outcome result :=
  ⟨answers.same, answers.alike, changes_only_mono implied answers.only,
    changes_only_mono implied answers.onlyToo⟩

theorem answers_map {Answer Other : Type} {outcome result : Answer × Drive} (f : Answer → Other)
    (answers : drive.Answers base touched other outcome result) :
    drive.Answers base touched other (f outcome.1, outcome.2) (f result.1, result.2) :=
  ⟨congrArg f answers.same, answers.alike, answers.only, answers.onlyToo⟩

theorem answers_then {Answer Other : Type} {first second : Answer × Drive}
    {outcome result : Other × Drive} (begun : drive.Answers base touched other first second)
    (rest : first.2.Answers base touched second.2 outcome result) :
    drive.Answers base touched other outcome result :=
  ⟨rest.same, rest.alike, changes_only_trans begun.only rest.only,
    changes_only_trans begun.onlyToo rest.onlyToo⟩

theorem settle_answers {Value : Type} (alike : drive.disk.AlikeAt base other.disk) (value : Value)
    {change changeToo : Option Drive} (settles : drive.Settles base touched other change changeToo) :
    drive.Answers base touched other (drive.settle value change) (other.settle value changeToo) := by
  rcases settles with ⟨rfl, rfl⟩ | ⟨later, laterToo, rfl, rfl, still, only, onlyToo⟩
  · exact answers_idle alike _
  · exact ⟨rfl, still, only, onlyToo⟩

end Changes

section Calls

variable {base : Place} {drive other : Drive} {rest : Names} {name : String}

theorem make_dirs_answers (alike : drive.disk.AlikeAt base other.disk)
    (clear : drive.disk.Unlinked (base ++ rest)) :
    drive.Answers base (· <+: base ++ rest) other (drive.makeDirs (base ++ rest))
      (other.makeDirs (base ++ rest)) := by
  have clearToo := alike_unlinked alike clear
  by_cases barred : ∃ front bytes, front <+: base ++ rest ∧ drive.disk.find front = some (.file bytes)
  · obtain ⟨front, bytes, within, file⟩ := barred
    have fileToo := alike_solid (alike_symm alike) within file (by simp)
    rw [make_dirs_barred clear within file, make_dirs_barred clearToo within fileToo, alike.below]
    exact answers_idle alike _
  · have noFile : ∀ front, front <+: base ++ rest → ∀ bytes, drive.disk.find front ≠ some (.file bytes) :=
      fun front within bytes file => barred ⟨front, bytes, within, file⟩
    have noFileToo : ∀ front, front <+: base ++ rest →
        ∀ bytes, other.disk.find front ≠ some (.file bytes) :=
      fun front within bytes file => noFile front within bytes (alike_solid alike within file (by simp))
    obtain ⟨later, paved⟩ := make_dirs_paves clear noFile
    obtain ⟨laterToo, pavedToo⟩ := make_dirs_paves clearToo noFileToo
    rw [paved.made, pavedToo.made]
    refine ⟨rfl, ⟨?_, ?_⟩, paved.only, pavedToo.only⟩
    · intro more
      rw [paved.found, pavedToo.found, alike.below]
    · intro front within
      left
      rw [paved.found, pavedToo.found, if_pos (within.trans (List.prefix_append base rest)),
        if_pos (within.trans (List.prefix_append base rest))]

theorem create_answers (alike : drive.disk.AlikeAt base other.disk)
    (clear : drive.disk.Unlinked (base ++ rest ++ [name])) :
    drive.Answers base (EntryOf (base ++ rest)) other (drive.create (base ++ rest ++ [name]))
      (other.create (base ++ rest ++ [name])) := by
  rw [List.append_assoc] at clear ⊢
  unfold Drive.create
  rw [alike_locate alike (by simp) clear, locate_unlinked clear]
  split
  · exact answers_idle alike _
  · rename_i place located
    split at located
    · cases located
      exact settle_answers alike _ (put_settles alike (by simp) ⟨name, by simp⟩ _)
    · cases located

theorem append_answers (alike : drive.disk.AlikeAt base other.disk) (bytes : Bytes) :
    drive.Answers base (EntryOf (base ++ rest)) other (drive.append (base ++ rest ++ [name]) bytes)
      (other.append (base ++ rest ++ [name]) bytes) := by
  rw [List.append_assoc]
  unfold Drive.append
  rw [alike.below]
  cases drive.disk.find (base ++ (rest ++ [name])) with
  | none => exact answers_idle alike _
  | some entry =>
      cases entry with
      | file written => exact settle_answers alike _ (put_settles alike (by simp) ⟨name, by simp⟩ _)
      | directory | link _ => exact answers_idle alike _

theorem remove_answers (alike : drive.disk.AlikeAt base other.disk) (plain : isPlain name = true)
    (clear : drive.disk.Unlinked (base ++ rest)) :
    drive.Answers base (EntryOf (base ++ rest)) other (drive.remove (base ++ rest ++ [name]))
      (other.remove (base ++ rest ++ [name])) := by
  unfold Drive.remove
  rw [alike_spot alike plain clear, spot_unlinked clear plain, List.append_assoc]
  split
  · exact answers_idle alike _
  · rename_i place spotted
    split at spotted
    · cases spotted
      rw [alike.below]
      cases found : drive.disk.find (base ++ (rest ++ [name])) with
      | none => exact answers_idle alike _
      | some entry =>
          by_cases directory : entry = .directory
          · subst directory
            exact answers_idle alike _
          · have gone : drive.Answers base (EntryOf (base ++ rest)) other
                (drive.settle () (drive.drop (base ++ (rest ++ [name]))))
                (other.settle () (other.drop (base ++ (rest ++ [name])))) := by
              apply settle_answers alike
              exact drop_settles alike (by simp) ⟨name, by simp⟩ (by simp [found, directory])
            cases entry with
            | directory => exact absurd rfl directory
            | file _ | link _ => exact gone
    · cases spotted

theorem replace_answers (alike : drive.disk.AlikeAt base other.disk) {source : String}
    (plain : isPlain source = true) (plainToo : isPlain name = true)
    (clear : drive.disk.Unlinked (base ++ rest)) :
    drive.Answers base (EntryOf (base ++ rest)) other
      (drive.replace (base ++ rest ++ [source]) (base ++ rest ++ [name]))
      (other.replace (base ++ rest ++ [source]) (base ++ rest ++ [name])) := by
  unfold Drive.replace
  rw [alike_spot alike plain clear, alike_spot alike plainToo clear, spot_unlinked clear plain,
    spot_unlinked clear plainToo, List.append_assoc, List.append_assoc]
  split
  · rename_i place onto spotted landed
    split at spotted
    · rename_i inside
      rw [if_pos inside] at landed
      cases spotted
      cases landed
      rw [alike.below, alike.below]
      cases found : drive.disk.find (base ++ (rest ++ [source])) with
      | none => exact answers_idle alike _
      | some entry =>
          by_cases directory : entry = .directory
          · subst directory
            exact answers_idle alike _
          · have moved : drive.Answers base (EntryOf (base ++ rest)) other
                (drive.settle () ((drive.drop (base ++ (rest ++ [source]))).bind
                  fun later => later.put (base ++ (rest ++ [name])) entry))
                (other.settle () ((other.drop (base ++ (rest ++ [source]))).bind
                  fun later => later.put (base ++ (rest ++ [name])) entry)) := by
              apply settle_answers alike
              apply settles_bind (drop_settles alike (by simp) ⟨source, by simp⟩ (by simp [found, directory]))
              intro later laterToo still
              exact put_settles still (by simp) ⟨name, by simp⟩ entry
            cases entry with
            | directory => exact absurd rfl directory
            | file _ | link _ =>
                dsimp only
                split
                · exact answers_idle alike _
                · split
                  · exact answers_idle alike _
                  · exact moved
    · cases spotted
  · exact answers_idle alike _

end Calls

end PosixDisk
