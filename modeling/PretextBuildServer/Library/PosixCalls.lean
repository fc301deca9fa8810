import PretextBuildServer.Library.PosixDisk

/-!
# The calls that change a disk

Every call answers or refuses, and notes the places it changes. What is not on
that list is as it was (`Leads`).
-/

namespace PosixDisk

set_option autoImplicit false

/-- A disk and the places changed on it so far, the latest first. -/
structure Drive where
  disk : Disk
  changed : List Place

/-- Why a call was refused, as far as its callers can tell. -/
inductive Refusal where
  | fileExists
  | failed
  deriving DecidableEq, Repr

abbrev Outcome (Value : Type) := Except Refusal Value × Drive

def Drive.put (drive : Drive) (place : Place) (entry : Entry) : Option Drive :=
  (drive.disk.put place entry).map fun disk => ⟨disk, place :: drive.changed⟩

def Drive.drop (drive : Drive) (place : Place) : Option Drive :=
  (drive.disk.drop place).map fun disk => ⟨disk, place :: drive.changed⟩

/-- What a call answers that either goes through or changes nothing. -/
def Drive.settle {Value : Type} (drive : Drive) (value : Value) : Option Drive → Outcome Value
  | some later => (.ok value, later)
  | none => (.error .failed, drive)

def Drive.mkdir (drive : Drive) (path : Names) : Outcome Unit :=
  match drive.disk.spot path with
  | none => (.error .failed, drive)
  | some place =>
      if drive.disk.find place = none then drive.settle () (drive.put place .directory)
      else (.error .fileExists, drive)

/-- `mkdir`, for which a directory that is there already is no error. -/
def Drive.mkdirUnlessThere (drive : Drive) (path : Names) : Outcome Unit :=
  match drive.mkdir path with
  | (.ok _, later) => (.ok (), later)
  | (.error refusal, later) =>
      if later.disk.isDir path then (.ok (), later) else (.error refusal, later)

/-- `os.makedirs(path, exist_ok=True)`, for the names of the path from its end. -/
def Drive.makeDirsUp (drive : Drive) : Names → Outcome Unit
  | [] => (.ok (), drive)
  | name :: above =>
      let head : Outcome Unit :=
        if drive.disk.exist above.reverse then (.ok (), drive) else drive.makeDirsUp above
      match head with
      | (.error .failed, later) => (.error .failed, later)
      | (_, later) => later.mkdirUnlessThere (above.reverse ++ [name])

def Drive.makeDirs (drive : Drive) (path : Names) : Outcome Unit := drive.makeDirsUp path.reverse

/-- `open(path, "wb")`, which follows a link at the end of the path. The answer
is the place that is open for writing. -/
def Drive.create (drive : Drive) (path : Names) : Outcome Place :=
  match drive.disk.locate path with
  | none => (.error .failed, drive)
  | some place => drive.settle place (drive.put place (.file []))

/-- Write to an open file; what is written to one unlinked meanwhile is lost. -/
def Drive.append (drive : Drive) (place : Place) (bytes : Bytes) : Outcome Unit :=
  match drive.disk.find place with
  | some (.file written) => drive.settle () (drive.put place (.file (written ++ bytes)))
  | _ => (.ok (), drive)

/-- `os.replace`, of anything but a directory. -/
def Drive.replace (drive : Drive) (source target : Names) : Outcome Unit :=
  match drive.disk.spot source, drive.disk.spot target with
  | some place, some other =>
      match drive.disk.find place with
      | none | some .directory => (.error .failed, drive)
      | some entry =>
          if drive.disk.find other = some .directory then (.error .failed, drive)
          else if place = other then (.ok (), drive)
          else drive.settle () ((drive.drop place).bind fun later => later.put other entry)
  | _, _ => (.error .failed, drive)

def Drive.remove (drive : Drive) (path : Names) : Outcome Unit :=
  match drive.disk.spot path with
  | none => (.error .failed, drive)
  | some place =>
      match drive.disk.find place with
      | none | some .directory => (.error .failed, drive)
      | some _ => drive.settle () (drive.drop place)

def Drive.rmdir (drive : Drive) (path : Names) : Outcome Unit :=
  match drive.disk.spot path with
  | none => (.error .failed, drive)
  | some place =>
      if drive.disk.find place = some .directory then drive.settle () (drive.drop place)
      else (.error .failed, drive)

section Changing

variable {drive later : Drive}

/-- From `drive` to `later` only places changed that were put on the list. -/
def Drive.Leads (drive later : Drive) : Prop :=
  ∃ fresh, later.changed = fresh ++ drive.changed ∧
    ∀ place, place ∉ fresh → later.disk.find place = drive.disk.find place

theorem leads_refl (drive : Drive) : drive.Leads drive := ⟨[], rfl, fun _ _ => rfl⟩

theorem leads_trans {middle : Drive} (first : drive.Leads middle) (second : middle.Leads later) :
    drive.Leads later := by
  obtain ⟨early, listed, unchanged⟩ := first
  obtain ⟨late, listedLater, unchangedLater⟩ := second
  refine ⟨late ++ early, by rw [listedLater, listed, List.append_assoc], ?_⟩
  intro place absent
  rw [List.mem_append, not_or] at absent
  rw [unchangedLater place absent.1, unchanged place absent.2]

theorem leads_changed (leads : drive.Leads later) {place : Place} (before : place ∈ drive.changed) :
    place ∈ later.changed := by
  obtain ⟨fresh, listed, -⟩ := leads
  rw [listed]
  exact List.mem_append_right fresh before

theorem drive_put_some {place : Place} {entry : Entry} (put : drive.put place entry = some later) :
    drive.disk.put place entry = some later.disk ∧ later.changed = place :: drive.changed := by
  rw [Drive.put, Option.map_eq_some_iff] at put
  obtain ⟨disk, put, rfl⟩ := put
  exact ⟨put, rfl⟩

theorem drive_drop_some {place : Place} (drop : drive.drop place = some later) :
    drive.disk.drop place = some later.disk ∧ later.changed = place :: drive.changed := by
  rw [Drive.drop, Option.map_eq_some_iff] at drop
  obtain ⟨disk, drop, rfl⟩ := drop
  exact ⟨drop, rfl⟩

theorem put_leads {place : Place} {entry : Entry} (put : drive.put place entry = some later) :
    drive.Leads later := by
  obtain ⟨onDisk, listed⟩ := drive_put_some put
  refine ⟨[place], listed, ?_⟩
  intro other absent
  rw [List.mem_singleton] at absent
  rw [find_put onDisk, if_neg absent]

theorem drop_leads {place : Place} (drop : drive.drop place = some later) : drive.Leads later := by
  obtain ⟨onDisk, listed⟩ := drive_drop_some drop
  refine ⟨[place], listed, ?_⟩
  intro other absent
  rw [List.mem_singleton] at absent
  rw [find_drop onDisk, if_neg absent]

theorem settle_cases {Value : Type} (drive : Drive) (value : Value) (change : Option Drive) :
    (change = none ∧ drive.settle value change = (.error .failed, drive)) ∨
      ∃ later, change = some later ∧ drive.settle value change = (.ok value, later) := by
  cases change with
  | none => exact .inl ⟨rfl, rfl⟩
  | some later => exact .inr ⟨later, rfl, rfl⟩

theorem drive_put_free {place : Place} {entry : Entry}
    (inside : drive.disk.find place.dropLast = some .directory)
    (free : drive.disk.find place ≠ some .directory) :
    ∃ later, drive.put place entry = some later := by
  obtain ⟨disk, put⟩ := @put_some _ _ entry inside free
  exact ⟨⟨disk, place :: drive.changed⟩, by rw [Drive.put, put]; rfl⟩

theorem mkdir_free {path : Names} {place : Place} (spotted : drive.disk.spot path = some place)
    (free : drive.disk.find place = none)
    (inside : drive.disk.find place.dropLast = some .directory) :
    ∃ later, drive.put place .directory = some later ∧ drive.mkdir path = (.ok (), later) := by
  obtain ⟨later, put⟩ := @drive_put_free _ _ .directory inside (by simp [free])
  refine ⟨later, put, ?_⟩
  simp only [Drive.mkdir, spotted, if_pos free, put, Drive.settle]

theorem mkdir_refuses {path : Names} (refused : ∀ place, drive.disk.spot path = some place →
    drive.disk.find place ≠ none) : ∃ refusal, drive.mkdir path = (.error refusal, drive) := by
  unfold Drive.mkdir
  split
  · exact ⟨_, rfl⟩
  · rename_i place spotted
    rw [if_neg (refused place spotted)]
    exact ⟨_, rfl⟩

theorem mkdir_there_refuses {path : Names} {refusal : Refusal}
    (refused : drive.mkdir path = (.error refusal, drive)) :
    drive.mkdirUnlessThere path =
      (if drive.disk.isDir path then .ok () else .error refusal, drive) := by
  rw [Drive.mkdirUnlessThere, refused]
  simp only
  split <;> rfl

theorem put_file_steady {place : Place} {bytes : Bytes}
    (put : drive.put place (.file bytes) = some later)
    (unlinked : ∀ target, drive.disk.find place ≠ some (.link target)) :
    drive.disk.Steady later.disk := by
  have onDisk := (drive_put_some put).1
  intro other
  rw [find_put onDisk]
  by_cases same : other = place
  · rw [if_pos same, same]
    exact ⟨fun directory => absurd directory (put_needs onDisk).2.2,
      fun target => ⟨fun link => absurd link (unlinked target), nofun⟩⟩
  · rw [if_neg same]
    exact ⟨id, fun target => Iff.rfl⟩

/-! ### Making the directories of a path -/

theorem make_dirs_concat (drive : Drive) (head : Names) (name : String) :
    drive.makeDirs (head ++ [name]) =
      match (if drive.disk.exist head then (.ok (), drive) else drive.makeDirs head :
          Outcome Unit) with
      | (.error .failed, later) => (.error .failed, later)
      | (_, later) => later.mkdirUnlessThere (head ++ [name]) := by
  rw [Drive.makeDirs, Drive.makeDirs, List.reverse_concat, Drive.makeDirsUp, List.reverse_reverse]

theorem make_dirs_exist {path : Names} (present : drive.disk.exist path = true) :
    ∃ refusal, drive.makeDirs path =
      (if drive.disk.isDir path then .ok () else .error refusal, drive) := by
  cases path using List.reverseRecOn with
  | nil => exact ⟨.failed, rfl⟩
  | append_singleton head name =>
      have taken : ∀ place, drive.disk.spot (head ++ [name]) = some place →
          drive.disk.find place ≠ none := by
        intro place spotted
        rw [spot_concat, Option.bind_eq_some_iff] at spotted
        obtain ⟨dir, located, named⟩ := spotted
        rw [Option.ite_none_right_eq_some, Option.some.injEq] at named
        rw [← named.2]
        exact exist_through present located
      obtain ⟨refusal, refused⟩ := mkdir_refuses taken
      refine ⟨refusal, ?_⟩
      rw [make_dirs_concat, if_pos (exist_front present)]
      exact mkdir_there_refuses refused

/-- The places from just below `real` down along the names. -/
def chain (real : Place) (names : Names) : List Place :=
  match names with
  | [] => []
  | name :: rest => (real ++ [name]) :: chain (real ++ [name]) rest

theorem mem_chain {real place : Place} {names : Names} :
    place ∈ chain real names ↔ ∃ made, made ≠ [] ∧ made <+: names ∧ place = real ++ made := by
  induction names generalizing real with
  | nil => simp [chain]
  | cons name rest induction =>
      rw [chain, List.mem_cons, induction]
      constructor
      · rintro (same | ⟨made, some, front, same⟩)
        · exact ⟨[name], by simp, ⟨rest, rfl⟩, same⟩
        · exact ⟨name :: made, by simp, List.cons_prefix_cons.mpr ⟨rfl, front⟩, by simp [same]⟩
      · rintro ⟨made, some, front, same⟩
        cases made with
        | nil => exact absurd rfl some
        | cons first made =>
            obtain ⟨rfl, further⟩ := List.cons_prefix_cons.mp front
            by_cases top : made = []
            · exact .inl (by rw [same, top])
            · exact .inr ⟨made, top, further, by simp [same]⟩

/-- `later` is `drive` with the directories along `names` made below `real`. -/
structure Drive.Made (drive : Drive) (real : Place) (names : Names) (later : Drive) : Prop where
  found : ∀ place, later.disk.find place =
    if place ∈ chain real names then some .directory else drive.disk.find place
  listed : later.changed = (chain real names).reverse ++ drive.changed

/-- Where `makeDirs` starts to make directories: the first name missing in the
last directory a path leads through. -/
structure Disk.Foundation (disk : Disk) (front : Names) (name : String) (real : Place) : Prop where
  located : disk.locate front = some real
  inside : disk.find real = some .directory
  missing : disk.find (real ++ [name]) = none

/-- A path on which nothing is made: it leads through a file, or to a link that
leads nowhere. -/
def Drive.Barred (drive : Drive) (path : Names) : Prop :=
  (∃ refusal, drive.makeDirs path = (.error refusal, drive)) ∧
    ∀ front name rest real, path = front ++ name :: rest →
      ¬ drive.disk.Foundation front name real

/-- A path all of whose missing directories are made. -/
def Drive.Founded (drive : Drive) (path : Names) : Prop :=
  ∃ front name rest real later, path = front ++ name :: rest ∧
    drive.disk.Foundation front name real ∧ drive.makeDirs path = (.ok (), later) ∧
    drive.Made real (name :: rest) later ∧ later.disk.locate path = some (real ++ name :: rest)

theorem chain_concat (real : Place) (names : Names) (name : String) :
    chain real (names ++ [name]) = chain real names ++ [real ++ names ++ [name]] := by
  induction names generalizing real with
  | nil => simp [chain]
  | cons first names induction =>
      rw [List.cons_append, chain, induction, chain, List.cons_append]
      simp

theorem chain_free {disk : Disk} {real place : Place} {name : String} {rest : Names}
    (missing : disk.find (real ++ [name]) = none) (member : place ∈ chain real (name :: rest)) :
    disk.find place = none := by
  obtain ⟨made, some, front, rfl⟩ := mem_chain.mp member
  cases made with
  | nil => exact absurd rfl some
  | cons first made =>
      obtain ⟨rfl, -⟩ := List.cons_prefix_cons.mp front
      rw [List.append_cons]
      exact below_free missing

theorem made_steady {real : Place} {name : String} {rest : Names}
    (missing : drive.disk.find (real ++ [name]) = none)
    (made : drive.Made real (name :: rest) later) : drive.disk.Steady later.disk := by
  intro place
  rw [made.found]
  by_cases member : place ∈ chain real (name :: rest)
  · rw [if_pos member, chain_free missing member]
    exact ⟨nofun, fun target => ⟨nofun, nofun⟩⟩
  · rw [if_neg member]
    exact ⟨id, fun target => Iff.rfl⟩

theorem mkdir_made {head : Names} {name : String} {real : Place} (plain : isPlain name = true)
    (foundation : drive.disk.Foundation head name real) :
    ∃ later, drive.mkdir (head ++ [name]) = (.ok (), later) ∧ drive.Made real [name] later ∧
      later.disk.locate (head ++ [name]) = some (real ++ [name]) := by
  have spotted : drive.disk.spot (head ++ [name]) = some (real ++ [name]) := by
    rw [spot_concat, foundation.located, Option.bind_some, if_pos foundation.inside,
      enter_plain plain]
  have inside : drive.disk.find (real ++ [name]).dropLast = some .directory := by
    rw [List.dropLast_concat]
    exact foundation.inside
  obtain ⟨later, put, mkdir⟩ := mkdir_free spotted foundation.missing inside
  obtain ⟨onDisk, listed⟩ := drive_put_some put
  have made : drive.Made real [name] later := by
    refine ⟨?_, listed⟩
    intro place
    rw [find_put onDisk]
    simp only [chain, List.mem_singleton]
  refine ⟨later, mkdir, made, ?_⟩
  have steady := made_steady foundation.missing made
  have located := locate_steady steady foundation.located
  have there : later.disk.find (real ++ [name]) = some .directory := by
    rw [made.found]
    exact if_pos List.mem_cons_self
  have unlinked : ∀ target, later.disk.find (enter real name) ≠ some (.link target) := by
    simp [enter_plain plain, there]
  rw [locate_concat located ((steady real).1 foundation.inside) unlinked, enter_plain plain]

theorem made_trans {middle : Drive} {real : Place} {names : Names} {name : String}
    (first : drive.Made real names middle) (second : middle.Made (real ++ names) [name] later) :
    drive.Made real (names ++ [name]) later := by
  constructor
  · intro place
    simp only [second.found, first.found, chain_concat, List.mem_append, chain,
      List.mem_singleton]
    by_cases last : place = real ++ names ++ [name]
    · rw [if_pos last, if_pos (.inr last)]
    · simp only [last, or_false, if_false]
  · rw [second.listed, first.listed, chain_concat, List.reverse_append]
    simp only [chain, List.reverse_singleton, List.append_assoc]

theorem mkdir_there_made {path : Names} (made : drive.mkdir path = (.ok (), later)) :
    drive.mkdirUnlessThere path = (.ok (), later) := by
  rw [Drive.mkdirUnlessThere, made]

/-- The names in front of a path's last one hold no foundation if the path up to
there leads to something, or holds none itself. -/
theorem no_foundation_concat {disk : Disk} {head : Names} {last : String}
    (top : ∀ real, ¬ disk.Foundation head last real)
    (above : disk.exist head = true ∨ ∀ front name rest real, head = front ++ name :: rest →
      ¬ disk.Foundation front name real) (plain : ∀ name ∈ head, isPlain name = true)
    (front : Names) (name : String) (rest : Names) (real : Place)
    (split : head ++ [last] = front ++ name :: rest) : ¬ disk.Foundation front name real := by
  intro foundation
  rcases List.eq_nil_or_concat rest with rfl | ⟨rest, final, rfl⟩
  · obtain ⟨rfl, same⟩ := List.append_inj' split rfl
    rw [List.singleton_inj.mp same] at top
    exact top real foundation
  · rw [List.concat_eq_append, ← List.cons_append, ← List.append_assoc] at split
    obtain ⟨rfl, -⟩ := List.append_inj' split rfl
    cases above with
    | inl present =>
        have there := exist_through present foundation.located
        rw [enter_plain (plain name (by simp))] at there
        exact there foundation.missing
    | inr none => exact none front name rest real rfl foundation

/-- A path that leads to nothing: all its directories are made, or none. -/
theorem make_dirs_absent {path : Names} (plain : ∀ name ∈ path, isPlain name = true)
    (absent : drive.disk.exist path = false) : drive.Barred path ∨ drive.Founded path := by
  induction path using List.reverseRecOn with
  | nil => cases absent
  | append_singleton head name induction =>
      have plainHead : ∀ name ∈ head, isPlain name = true :=
        fun name member => plain name (List.mem_append_left _ member)
      have plainName : isPlain name = true := plain name (by simp)
      have notDir : drive.disk.isDir (head ++ [name]) = false := by
        by_contra isDir
        rw [is_dir_exist (Bool.not_eq_false _ ▸ isDir)] at absent
        cases absent
      cases present : drive.disk.exist head with
      | true =>
          by_cases based : ∃ real, drive.disk.Foundation head name real
          · obtain ⟨real, foundation⟩ := based
            obtain ⟨later, mkdir, made, located⟩ := mkdir_made plainName foundation
            refine .inr ⟨head, name, [], real, later, rfl, foundation, ?_, made, located⟩
            rw [make_dirs_concat, if_pos present]
            exact mkdir_there_made mkdir
          · have taken : ∀ place, drive.disk.spot (head ++ [name]) = some place →
                drive.disk.find place ≠ none := by
              intro place spotted free
              rw [spot_concat, Option.bind_eq_some_iff] at spotted
              obtain ⟨real, located, named⟩ := spotted
              rw [Option.ite_none_right_eq_some, Option.some.injEq, enter_plain plainName] at named
              exact based ⟨real, located, named.1, named.2 ▸ free⟩
            obtain ⟨refusal, refused⟩ := mkdir_refuses taken
            refine .inl ⟨⟨refusal, ?_⟩, no_foundation_concat (fun real foundation =>
              based ⟨real, foundation⟩) (.inl present) plainHead⟩
            rw [make_dirs_concat, if_pos present]
            simp only [mkdir_there_refuses refused, notDir]
            rfl
      | false =>
          cases induction plainHead present with
          | inl barred =>
              obtain ⟨⟨refusal, refused⟩, none⟩ := barred
              have homeless : drive.disk.spot (head ++ [name]) = Option.none := by
                rw [spot_concat, Option.bind_eq_none_iff]
                intro dir located
                rw [if_neg]
                intro inside
                rw [Disk.exist, Disk.stat, located, Option.bind_some, inside] at present
                cases present
              obtain ⟨other, again⟩ := @mkdir_refuses drive (head ++ [name]) (by simp [homeless])
              refine .inl ⟨?_, no_foundation_concat ?_ (.inr none) plainHead⟩
              · rw [make_dirs_concat, if_neg (by simp [present]), refused]
                cases refusal with
                | failed => exact ⟨_, rfl⟩
                | fileExists =>
                    refine ⟨other, ?_⟩
                    simp only [mkdir_there_refuses again, notDir]
                    rfl
              · intro real foundation
                rw [Disk.exist, Disk.stat, foundation.located, Option.bind_some,
                  foundation.inside] at present
                cases present
          | inr founded =>
              obtain ⟨front, first, rest, real, middle, rfl, foundation, makes, made, located⟩ :=
                founded
              have base : middle.disk.Foundation (front ++ first :: rest) name
                  (real ++ first :: rest) := by
                refine ⟨located, ?_, ?_⟩
                · rw [made.found]
                  exact if_pos (mem_chain.mpr ⟨_, by simp, List.prefix_rfl, rfl⟩)
                · rw [made.found, if_neg]
                  · rw [List.append_assoc, List.cons_append, List.append_cons]
                    exact below_free foundation.missing
                  · intro member
                    obtain ⟨made, -, front, same⟩ := mem_chain.mp member
                    rw [List.append_assoc, List.append_cancel_left_eq] at same
                    rw [← same] at front
                    have short := front.length_le
                    rw [List.length_append, List.length_singleton] at short
                    omega
              obtain ⟨later, mkdir, last, end_located⟩ := mkdir_made plainName base
              refine .inr ⟨front, first, rest ++ [name], real, later, by simp, foundation, ?_,
                made_trans made last, by simpa using end_located⟩
              rw [make_dirs_concat, if_neg (by simp [present]), makes]
              exact mkdir_there_made mkdir

theorem foundation_not_passed {disk : Disk} {front middle other : Names} {name last : String}
    {real place : Place} (plain : isPlain name = true) (first : disk.Foundation front name real)
    (second : disk.Foundation other last place) : other ≠ front ++ name :: middle := by
  rintro rfl
  have present : disk.exist (front ++ name :: middle) = true := by
    rw [Disk.exist, Disk.stat, second.located, Option.bind_some, second.inside]
    rfl
  have there := exist_through present first.located
  rw [enter_plain plain] at there
  exact there first.missing

/-- Whatever becomes of it, making directories leaves every entry and every way
as it was. -/
theorem make_dirs_keeps {path : Names} (plain : ∀ name ∈ path, isPlain name = true) :
    drive.disk.Steady (drive.makeDirs path).2.disk ∧ ∀ place entry,
      drive.disk.find place = some entry →
        (drive.makeDirs path).2.disk.find place = some entry := by
  have same : drive.disk.Steady drive.disk := fun place => ⟨id, fun target => Iff.rfl⟩
  cases exist : drive.disk.exist path with
  | true =>
      obtain ⟨refusal, made⟩ := make_dirs_exist exist
      rw [made]
      exact ⟨same, fun _ _ => id⟩
  | false =>
      rcases make_dirs_absent plain exist with barred | founded
      · obtain ⟨⟨refusal, refused⟩, -⟩ := barred
        rw [refused]
        exact ⟨same, fun _ _ => id⟩
      · obtain ⟨front, name, rest, real, later, -, foundation, makes, made, -⟩ := founded
        rw [makes]
        refine ⟨made_steady foundation.missing made, ?_⟩
        intro place entry found
        rw [made.found, if_neg]
        · exact found
        · intro member
          rw [chain_free foundation.missing member] at found
          cases found

theorem foundation_unique {disk : Disk} {front other : Names} {name last : String}
    {rest further : Names} {real place : Place} (plain : isPlain name = true)
    (plainLast : isPlain last = true) (same : front ++ name :: rest = other ++ last :: further)
    (first : disk.Foundation front name real) (second : disk.Foundation other last place) :
    name = last ∧ real = place := by
  have equal : ∀ {name last : String} {rest further : Names}, front = other →
      name :: rest = last :: further → name = last ∧ real = place := by
    rintro name last rest further rfl tail
    exact ⟨(List.cons.inj tail).1, Option.some.inj (first.located.symm.trans second.located)⟩
  rcases List.append_eq_append_iff.mp same with ⟨middle, longer, tail⟩ | ⟨middle, longer, tail⟩
  · cases middle with
    | nil => exact equal (by rw [longer, List.append_nil]) tail
    | cons step middle =>
        obtain ⟨rfl, -⟩ := List.cons.inj tail
        exact absurd longer (foundation_not_passed plain first second)
  · cases middle with
    | nil => exact equal (by rw [longer, List.append_nil]) tail.symm
    | cons step middle =>
        obtain ⟨rfl, -⟩ := List.cons.inj tail
        exact absurd longer (foundation_not_passed plainLast second first)

/-! ### Files -/

theorem create_cases (drive : Drive) (path : Names) :
    (drive.create path = (.error .failed, drive) ∧
      ∀ place, drive.disk.locate path = some place → drive.disk.find place = some .directory) ∨
    ∃ place later, drive.disk.locate path = some place ∧
      drive.disk.find place ≠ some .directory ∧
      drive.put place (.file []) = some later ∧ drive.create path = (.ok place, later) := by
  unfold Drive.create
  cases located : drive.disk.locate path with
  | none => exact .inl ⟨rfl, nofun⟩
  | some place =>
      by_cases directory : drive.disk.find place = some .directory
      · left
        cases put : drive.put place (.file []) with
        | none =>
            refine ⟨by simp only [put, Drive.settle], ?_⟩
            rintro other ⟨⟩
            exact directory
        | some later => exact absurd directory (put_needs (drive_put_some put).1).2.2
      · right
        obtain ⟨later, put⟩ :=
          @drive_put_free _ _ (.file []) (locate_lands located).1 directory
        refine ⟨place, later, rfl, directory, put, ?_⟩
        simp only [put, Drive.settle]

theorem append_cases (drive : Drive) (place : Place) (bytes : Bytes) :
    ((∀ written, drive.disk.find place ≠ some (.file written)) ∧
      drive.append place bytes = (.ok (), drive)) ∨
    ∃ written later, drive.disk.find place = some (.file written) ∧
      drive.put place (.file (written ++ bytes)) = some later ∧
      drive.append place bytes = (.ok (), later) := by
  unfold Drive.append
  split
  · rename_i written found
    have inside : drive.disk.find place.dropLast = some .directory := by
      cases place using List.reverseRecOn with
      | nil => exact find_root
      | append_singleton dir name =>
          rw [List.dropLast_concat]
          exact parent_is_directory found
    obtain ⟨later, put⟩ :=
      @drive_put_free _ _ (.file (written ++ bytes)) inside (by simp [found])
    refine .inr ⟨written, later, found, put, ?_⟩
    simp only [put, Drive.settle]
  · rename_i other
    exact .inl ⟨fun written found => other written found, rfl⟩

theorem append_to_file {place : Place} {written : Bytes}
    (found : drive.disk.find place = some (.file written)) (bytes : Bytes) :
    ∃ later, drive.append place bytes = (.ok (), later) ∧
      later.disk.find place = some (.file (written ++ bytes)) ∧ drive.disk.Steady later.disk ∧
      later.changed = place :: drive.changed := by
  rcases append_cases drive place bytes with ⟨none, -⟩ | ⟨old, later, same, put, answer⟩
  · exact absurd found (none written)
  · rw [found, Option.some.injEq, Entry.file.injEq] at same
    rw [← same] at put
    obtain ⟨onDisk, changed⟩ := drive_put_some put
    refine ⟨later, answer, ?_, put_file_steady put (by simp [found]), changed⟩
    rw [find_put onDisk, if_pos rfl]

theorem remove_cases (drive : Drive) (path : Names) :
    (drive.remove path = (.error .failed, drive) ∧ ∀ place, drive.disk.spot path = some place →
      drive.disk.find place = none ∨ drive.disk.find place = some .directory) ∨
    ∃ place entry later, drive.disk.spot path = some place ∧
      drive.disk.find place = some entry ∧ entry ≠ .directory ∧
      drive.drop place = some later ∧ drive.remove path = (.ok (), later) := by
  unfold Drive.remove
  cases spotted : drive.disk.spot path with
  | none => exact .inl ⟨rfl, nofun⟩
  | some place =>
      cases found : drive.disk.find place with
      | none =>
          refine .inl ⟨by simp only [found], ?_⟩
          rintro other ⟨⟩
          exact .inl found
      | some entry =>
          by_cases directory : entry = .directory
          · subst directory
            refine .inl ⟨by simp only [found], ?_⟩
            rintro other ⟨⟩
            exact .inr found
          · have below : place ≠ [] := by
              rintro rfl
              rw [find_root, Option.some.injEq] at found
              exact directory found.symm
            have leaf : drive.disk.find place ≠ some .directory := by simp [found, directory]
            obtain ⟨disk, drop⟩ := drop_some below leaf
            refine .inr ⟨place, entry, ⟨disk, place :: drive.changed⟩, rfl, found, directory,
              by rw [Drive.drop, drop]; rfl, ?_⟩
            cases entry with
            | directory => exact absurd rfl directory
            | file bytes => simp only [found, Drive.drop, drop, Option.map_some, Drive.settle]
            | link target => simp only [found, Drive.drop, drop, Option.map_some, Drive.settle]

section Replacing

variable {source target : Names} {place other : Place} {entry : Entry}

theorem replace_onto_directory (spotted : drive.disk.spot source = some place)
    (onto : drive.disk.spot target = some other)
    (directory : drive.disk.find other = some .directory) :
    drive.replace source target = (.error .failed, drive) := by
  simp only [Drive.replace, spotted, onto, if_pos directory]
  split <;> rfl

theorem replace_moves (spotted : drive.disk.spot source = some place)
    (onto : drive.disk.spot target = some other) (found : drive.disk.find place = some entry)
    (leaf : entry ≠ .directory) (free : drive.disk.find other ≠ some .directory)
    (apart : place ≠ other) :
    ∃ later, drive.replace source target = (.ok (), later) ∧
      later.changed = other :: place :: drive.changed ∧
      ∀ spot, later.disk.find spot =
        if spot = other then some entry else if spot = place then none
        else drive.disk.find spot := by
  have notDirectory : drive.disk.find place ≠ some .directory := by simp [found, leaf]
  have below : place ≠ [] := by
    rintro rfl
    exact notDirectory find_root
  obtain ⟨dropped, drop⟩ := drop_some below notDirectory
  have inside : dropped.find other.dropLast = some .directory := by
    rw [find_drop drop, if_neg]
    · exact spot_stays onto
    · intro same
      exact notDirectory (same ▸ spot_stays onto)
  have still : dropped.find other ≠ some .directory := by
    rw [find_drop drop, if_neg (Ne.symm apart)]
    exact free
  obtain ⟨disk, put⟩ := @put_some _ _ entry inside still
  refine ⟨⟨disk, other :: place :: drive.changed⟩, ?_, rfl, ?_⟩
  · have moved : ((drive.drop place).bind fun later => later.put other entry) =
        some ⟨disk, other :: place :: drive.changed⟩ := by
      rw [Drive.drop, drop, Option.map_some, Option.bind_some, Drive.put, put, Option.map_some]
    cases entry with
    | directory => exact absurd rfl leaf
    | file bytes =>
        simp only [Drive.replace, spotted, onto, found, if_neg free, if_neg apart, moved,
          Drive.settle]
    | link target =>
        simp only [Drive.replace, spotted, onto, found, if_neg free, if_neg apart, moved,
          Drive.settle]
  · intro spot
    rw [find_put put, find_drop drop]

end Replacing

/-! ### Every call leads on -/

theorem settle_leads {Value : Type} {value : Value} {change : Option Drive}
    (leads : ∀ later, change = some later → drive.Leads later) :
    drive.Leads (drive.settle value change).2 := by
  cases change with
  | none => exact leads_refl drive
  | some later => exact leads later rfl

theorem mkdir_leads (drive : Drive) (path : Names) : drive.Leads (drive.mkdir path).2 := by
  unfold Drive.mkdir
  split
  · exact leads_refl drive
  · split
    · exact settle_leads fun _ => put_leads
    · exact leads_refl drive

theorem mkdir_there_leads (drive : Drive) (path : Names) :
    drive.Leads (drive.mkdirUnlessThere path).2 := by
  have leads := mkdir_leads drive path
  unfold Drive.mkdirUnlessThere
  split
  · rename_i made
    rwa [made] at leads
  · rename_i made
    rw [made] at leads
    split <;> exact leads

theorem make_dirs_leads (drive : Drive) (path : Names) : drive.Leads (drive.makeDirs path).2 := by
  induction path using List.reverseRecOn with
  | nil => exact leads_refl drive
  | append_singleton head name induction =>
      rw [make_dirs_concat]
      have first : drive.Leads (if drive.disk.exist head then (.ok (), drive)
          else drive.makeDirs head : Outcome Unit).2 := by
        split
        · exact leads_refl drive
        · exact induction
      split
      · rename_i made
        rwa [made] at first
      · rename_i made
        rw [made] at first
        exact leads_trans first (mkdir_there_leads _ _)

theorem create_leads (drive : Drive) (path : Names) : drive.Leads (drive.create path).2 := by
  unfold Drive.create
  split
  · exact leads_refl drive
  · exact settle_leads fun _ => put_leads

theorem append_leads (drive : Drive) (place : Place) (bytes : Bytes) :
    drive.Leads (drive.append place bytes).2 := by
  unfold Drive.append
  split
  · exact settle_leads fun _ => put_leads
  · exact leads_refl drive

theorem remove_leads (drive : Drive) (path : Names) : drive.Leads (drive.remove path).2 := by
  unfold Drive.remove
  split
  · exact leads_refl drive
  · split
    · exact leads_refl drive
    · exact leads_refl drive
    · exact settle_leads fun _ => drop_leads

theorem rmdir_leads (drive : Drive) (path : Names) : drive.Leads (drive.rmdir path).2 := by
  unfold Drive.rmdir
  split
  · exact leads_refl drive
  · split
    · exact settle_leads fun _ => drop_leads
    · exact leads_refl drive

theorem replace_leads (drive : Drive) (source target : Names) :
    drive.Leads (drive.replace source target).2 := by
  unfold Drive.replace
  split
  · split
    · exact leads_refl drive
    · exact leads_refl drive
    · split
      · exact leads_refl drive
      · split
        · exact leads_refl drive
        · apply settle_leads
          intro later moved
          rw [Option.bind_eq_some_iff] at moved
          obtain ⟨dropped, drop, put⟩ := moved
          exact leads_trans (drop_leads drop) (put_leads put)
  · exact leads_refl drive

end Changing

end PosixDisk
