import Mathlib.Data.List.AList
import Mathlib.Data.List.Infix
import Mathlib.Tactic.Common

/-!
# A disk of directories, files and symbolic links

A *place* is where an entry really is: the names on the way to it from the root,
with no link among them. A *path* is what a program names: it may lead through
links, and `follow` says to which place. Every entry stands in a directory,
which the type of disks keeps.
-/

namespace PosixDisk

set_option autoImplicit false

abbrev Bytes := List UInt8

abbrev Place := List String

abbrev Names := List String

/-- The text of a symbolic link. -/
structure Target where
  absolute : Bool
  names : Names
  deriving DecidableEq, Repr

inductive Entry where
  | directory
  | file (bytes : Bytes)
  | link (target : Target)
  deriving DecidableEq, Repr

abbrev Entries := AList fun _ : Place => Entry

/-- The root is always there. -/
def Entries.find (entries : Entries) (place : Place) : Option Entry :=
  if place = [] then some .directory else entries.lookup place

theorem find_insert (entries : Entries) {place : Place} (below : place ≠ []) (entry : Entry)
    (other : Place) : Entries.find (entries.insert place entry) other =
      if other = place then some entry else entries.find other := by
  by_cases same : other = place
  · rw [if_pos same, same, Entries.find, if_neg below, AList.lookup_insert]
  · simp only [Entries.find, AList.lookup_insert_ne same, if_neg same]

theorem find_erase (entries : Entries) {place : Place} (below : place ≠ []) (other : Place) :
    Entries.find (entries.erase place) other =
      if other = place then none else entries.find other := by
  by_cases same : other = place
  · rw [if_pos same, same, Entries.find, if_neg below, AList.lookup_erase]
  · simp only [Entries.find, AList.lookup_erase_ne same, if_neg same]

structure Disk where
  entries : Entries
  rooted : ∀ dir name, (entries.find (dir ++ [name])).isSome = true →
    entries.find dir = some .directory

def Disk.find (disk : Disk) (place : Place) : Option Entry := disk.entries.find place

/-- The names in a directory, in the order the disk lists them. -/
def Disk.names (disk : Disk) (dir : Place) : List String :=
  disk.entries.keys.filterMap fun place =>
    if place.dropLast = dir then place.getLast? else none

section Lookup

variable {disk : Disk}

@[simp] theorem find_root : disk.find [] = some .directory := by
  rw [Disk.find, Entries.find, if_pos rfl]

theorem find_nonroot {place : Place} (below : place ≠ []) :
    disk.find place = disk.entries.lookup place := by
  rw [Disk.find, Entries.find, if_neg below]

theorem find_child (dir : Place) (name : String) :
    disk.find (dir ++ [name]) = disk.entries.lookup (dir ++ [name]) :=
  find_nonroot (by simp)

theorem parent_is_directory {dir : Place} {name : String} {entry : Entry}
    (found : disk.find (dir ++ [name]) = some entry) : disk.find dir = some .directory := by
  apply disk.rooted dir name
  rw [Disk.find] at found
  rw [found]
  rfl

/-- Whatever stands below a place, the place is a directory. -/
theorem ancestor_is_directory {dir below : Place} {entry : Entry} (deeper : below ≠ [])
    (found : disk.find (dir ++ below) = some entry) : disk.find dir = some .directory := by
  induction below using List.reverseRecOn generalizing entry with
  | nil => exact absurd rfl deeper
  | append_singleton below name induction =>
      rw [← List.append_assoc] at found
      have parent := parent_is_directory found
      by_cases top : below = []
      · rwa [top, List.append_nil] at parent
      · exact induction top parent

theorem below_free {place below : Place} (free : disk.find place = none) :
    disk.find (place ++ below) = none := by
  by_cases top : below = []
  · rwa [top, List.append_nil]
  · cases found : disk.find (place ++ below) with
    | none => rfl
    | some entry =>
        rw [ancestor_is_directory top found] at free
        cases free

theorem mem_names {dir : Place} {name : String} :
    name ∈ disk.names dir ↔ (disk.find (dir ++ [name])).isSome = true := by
  rw [find_child, AList.lookup_isSome, AList.mem_keys, Disk.names, List.mem_filterMap]
  constructor
  · intro listed
    obtain ⟨place, key, same⟩ := listed
    by_cases under : place.dropLast = dir
    · rw [if_pos under] at same
      rwa [← under, List.dropLast_append_getLast? name same]
    · rw [if_neg under] at same
      cases same
  · intro key
    exact ⟨dir ++ [name], key, by simp⟩

/-- No place is further down than this. -/
def Disk.height (disk : Disk) : Nat := (disk.entries.keys.map List.length).foldr max 0

theorem length_le_height {place : Place} (found : (disk.find place).isSome = true) :
    place.length ≤ disk.height := by
  cases place using List.reverseRecOn with
  | nil => exact Nat.zero_le _
  | append_singleton dir name =>
      rw [find_child, AList.lookup_isSome, AList.mem_keys] at found
      have longest : ∀ lengths : List Nat, ∀ length ∈ lengths, length ≤ lengths.foldr max 0 := by
        intro lengths
        induction lengths with
        | nil => simp
        | cons first lengths induction =>
            intro length member
            rw [List.foldr_cons]
            rcases List.mem_cons.mp member with rfl | later
            · exact Nat.le_max_left _ _
            · exact (induction length later).trans (Nat.le_max_right _ _)
      exact longest _ _ (List.mem_map_of_mem found)

theorem names_nodup (dir : Place) : (disk.names dir).Nodup := by
  apply List.Nodup.filterMap _ disk.entries.keys_nodup
  intro first second name one two
  simp only [Option.mem_def, Option.ite_none_right_eq_some] at one two
  rw [← List.dropLast_append_getLast? name one.2, ← List.dropLast_append_getLast? name two.2,
    one.1, two.1]

end Lookup

/-! ## Changing one entry -/

/-- Put an entry at a place: into a directory, and not over a directory. -/
def Disk.put (disk : Disk) (place : Place) (entry : Entry) : Option Disk :=
  if free : place ≠ [] ∧ disk.find place.dropLast = some .directory ∧
      disk.find place ≠ some .directory then
    some {
      entries := disk.entries.insert place entry
      rooted := by
        intro dir name found
        rw [find_insert _ free.1] at found ⊢
        have kept : disk.find dir = some .directory → dir ≠ place := by
          rintro directory rfl
          exact free.2.2 directory
        by_cases same : dir ++ [name] = place
        · have parent : dir = place.dropLast := by rw [← same, List.dropLast_concat]
          have directory : disk.find dir = some .directory := parent ▸ free.2.1
          rwa [if_neg (kept directory)]
        · rw [if_neg same] at found
          have directory := disk.rooted dir name found
          rwa [if_neg (kept directory)] }
  else none

def Disk.empty : Disk where
  entries := ∅
  rooted := by
    intro dir name found
    rw [Entries.find, if_neg (by simp), AList.lookup_empty] at found
    cases found

/-- The disk that holds the given entries, as far as they can be put one after
the other. -/
def Disk.ofList (entries : List (Place × Entry)) : Disk :=
  entries.foldl (fun disk entry => (disk.put entry.1 entry.2).getD disk) .empty

/-- Drop an entry below which nothing stands. -/
def Disk.drop (disk : Disk) (place : Place) : Option Disk :=
  if bare : place ≠ [] ∧ disk.names place = [] then
    some {
      entries := disk.entries.erase place
      rooted := by
        intro dir name found
        rw [find_erase _ bare.1] at found ⊢
        by_cases same : dir ++ [name] = place
        · rw [if_pos same] at found
          cases found
        · rw [if_neg same] at found
          have directory := disk.rooted dir name found
          by_cases parent : dir = place
          · have child : name ∈ disk.names place := mem_names.mpr (parent ▸ found)
            rw [bare.2] at child
            cases child
          · rwa [if_neg parent] }
  else none

section Changed

variable {disk after : Disk} {place : Place} {entry : Entry}

theorem put_some (inside : disk.find place.dropLast = some .directory)
    (free : disk.find place ≠ some .directory) : ∃ after, disk.put place entry = some after := by
  have below : place ≠ [] := by
    rintro rfl
    exact free find_root
  exact ⟨_, dif_pos ⟨below, inside, free⟩⟩

theorem put_needs (put : disk.put place entry = some after) :
    place ≠ [] ∧ disk.find place.dropLast = some .directory ∧
      disk.find place ≠ some .directory := by
  by_contra refused
  rw [Disk.put, dif_neg refused] at put
  cases put

theorem find_put (put : disk.put place entry = some after) (other : Place) :
    after.find other = if other = place then some entry else disk.find other := by
  have free := put_needs put
  rw [Disk.put, dif_pos free] at put
  cases put
  exact find_insert disk.entries free.1 entry other

theorem drop_needs (drop : disk.drop place = some after) :
    place ≠ [] ∧ disk.names place = [] := by
  by_contra refused
  rw [Disk.drop, dif_neg refused] at drop
  cases drop

theorem find_drop (drop : disk.drop place = some after) (other : Place) :
    after.find other = if other = place then none else disk.find other := by
  have bare := drop_needs drop
  rw [Disk.drop, dif_pos bare] at drop
  cases drop
  exact find_erase disk.entries bare.1 other

theorem drop_some (below : place ≠ []) (leaf : disk.find place ≠ some .directory) :
    ∃ after, disk.drop place = some after := by
  have bare : disk.names place = [] := by
    rw [List.eq_nil_iff_forall_not_mem]
    intro name child
    obtain ⟨entry, found⟩ := Option.isSome_iff_exists.mp (mem_names.mp child)
    exact leaf (parent_is_directory found)
  exact ⟨_, dif_pos ⟨below, bare⟩⟩

end Changed

/-! ## Following a path -/

/-- The directory a link's text is read from, given the one it stands in. -/
def Target.start (target : Target) (dir : Place) : Place := if target.absolute then [] else dir

/-- One name further, as the names `.` and `..` would have it. -/
def enter (dir : Place) (name : String) : Place :=
  if name = "." then dir else if name = ".." then dir.dropLast else dir ++ [name]

/-- Names are looked up in directories only; `onLink` goes on at a link. The
last name may be missing. -/
def Disk.along (disk : Disk) (onLink : Place → Names → Option (Place × Nat)) (budget : Nat) :
    Place → Names → Option (Place × Nat)
  | place, [] => some (place, budget)
  | place, name :: rest =>
      if disk.find place = some .directory then
        match disk.find (enter place name) with
        | some (.link target) => onLink (target.start place) (target.names ++ rest)
        | _ => disk.along onLink budget (enter place name) rest
      else none

/-- Where a path leads from a place, and how many links it may still go through
after that. -/
def Disk.follow (disk : Disk) : Nat → Place → Names → Option (Place × Nat)
  | 0 => disk.along (fun _ _ => none) 0
  | budget + 1 => disk.along (disk.follow budget) (budget + 1)

/-- More links than this on one way are taken for a loop. -/
def linkBudget : Nat := 40

/-- The place a path leads to, through a link at its end as well. -/
def Disk.locate (disk : Disk) (path : Names) : Option Place :=
  (disk.follow linkBudget [] path).map Prod.fst

/-- The place a path names, a link at its end not followed. -/
def Disk.spot (disk : Disk) (path : Names) : Option Place :=
  match path.getLast? with
  | none => some []
  | some name =>
      (disk.locate path.dropLast).bind fun dir =>
        if disk.find dir = some .directory then some (enter dir name) else none

def Disk.stat (disk : Disk) (path : Names) : Option Entry := (disk.locate path).bind disk.find

def Disk.lstat (disk : Disk) (path : Names) : Option Entry := (disk.spot path).bind disk.find

def Entry.isLink : Entry → Bool
  | .link _ => true
  | _ => false

def Entry.isFile : Entry → Bool
  | .file _ => true
  | _ => false

def Disk.exist (disk : Disk) (path : Names) : Bool := (disk.stat path).isSome

def Disk.isDir (disk : Disk) (path : Names) : Bool := disk.stat path == some .directory

def Disk.isFile (disk : Disk) (path : Names) : Bool := (disk.stat path).any Entry.isFile

def Disk.isLink (disk : Disk) (path : Names) : Bool := (disk.lstat path).any Entry.isLink

section Following

variable {disk : Disk}

@[simp] theorem follow_nil (budget : Nat) (place : Place) :
    disk.follow budget place [] = some (place, budget) := by
  cases budget <;> rfl

theorem follow_name {place : Place} {name : String} (inside : disk.find place = some .directory)
    (plain : ∀ target, disk.find (enter place name) ≠ some (.link target)) (budget : Nat)
    (rest : Names) :
    disk.follow budget place (name :: rest) = disk.follow budget (enter place name) rest := by
  cases budget with
  | zero =>
      simp only [Disk.follow]
      rw [Disk.along, if_pos inside]
      split
      · exact absurd ‹_› (plain _)
      · rfl
  | succ left =>
      simp only [Disk.follow]
      rw [Disk.along, if_pos inside]
      split
      · exact absurd ‹_› (plain _)
      · rfl

theorem follow_link {place : Place} {name : String} {target : Target}
    (inside : disk.find place = some .directory)
    (found : disk.find (enter place name) = some (.link target)) (budget : Nat) (rest : Names) :
    disk.follow budget place (name :: rest) =
      match budget with
      | 0 => none
      | left + 1 => disk.follow left (target.start place) (target.names ++ rest) := by
  cases budget <;> simp only [Disk.follow] <;> rw [Disk.along, if_pos inside, found]

theorem follow_outside {place : Place} (outside : disk.find place ≠ some .directory) (budget : Nat)
    (name : String) (rest : Names) : disk.follow budget place (name :: rest) = none := by
  cases budget <;> simp only [Disk.follow] <;> rw [Disk.along, if_neg outside]

theorem follow_through_link {place : Place} {name : String} {target : Target} {budget : Nat}
    {rest : Names} {reached : Place × Nat} (inside : disk.find place = some .directory)
    (found : disk.find (enter place name) = some (.link target))
    (follows : disk.follow budget place (name :: rest) = some reached) :
    ∃ left, budget = left + 1 ∧
      disk.follow left (target.start place) (target.names ++ rest) = some reached := by
  rw [follow_link inside found] at follows
  cases budget with
  | zero => cases follows
  | succ left => exact ⟨left, rfl, follows⟩

/-- The steps by which a path is followed: the first part names something in a directory,
or a link, behind which fewer of them may be followed. -/
theorem follow_induction (disk : Disk) {motive : Nat → Place → Names → Prop}
    (ended : ∀ budget place, motive budget place [])
    (outside : ∀ budget place name rest, disk.find place ≠ some .directory →
      motive budget place (name :: rest))
    (named : ∀ budget place name rest, disk.find place = some .directory →
      (∀ target, disk.find (enter place name) ≠ some (.link target)) →
      motive budget (enter place name) rest → motive budget place (name :: rest))
    (linked : ∀ budget place name rest target, disk.find place = some .directory →
      disk.find (enter place name) = some (.link target) →
      (∀ left, budget = left + 1 → motive left (target.start place) (target.names ++ rest)) →
      motive budget place (name :: rest))
    (budget : Nat) (place : Place) (path : Names) : motive budget place path := by
  induction budget using Nat.strong_induction_on generalizing place path with
  | h budget fewer =>
      induction path generalizing place with
      | nil => exact ended budget place
      | cons name rest induction =>
          by_cases inside : disk.find place = some .directory
          · by_cases link : ∃ target, disk.find (enter place name) = some (.link target)
            · obtain ⟨target, found⟩ := link
              apply linked budget place name rest target inside found
              rintro left rfl
              exact fewer left (Nat.lt_succ_self left) _ _
            · apply named budget place name rest inside _ (induction _)
              exact fun target found => link ⟨target, found⟩
          · exact outside budget place name rest inside

/-- A path is followed one part after the other. -/
theorem follow_append (budget : Nat) (place : Place) (front back : Names) :
    disk.follow budget place (front ++ back) =
      (disk.follow budget place front).bind fun reached => disk.follow reached.2 reached.1 back := by
  induction budget, place, front using follow_induction disk with
  | ended budget place => rw [List.nil_append, follow_nil, Option.bind_some]
  | outside budget place name rest outside =>
      rw [List.cons_append, follow_outside outside, follow_outside outside, Option.bind_none]
  | named budget place name rest inside plain induction =>
      rw [List.cons_append, follow_name inside plain, follow_name inside plain]
      exact induction
  | linked budget place name rest target inside found further =>
      rw [List.cons_append, follow_link inside found, follow_link inside found]
      cases budget with
      | zero => rfl
      | succ left =>
          rw [← List.append_assoc]
          exact further left rfl

theorem above_directory {place : Place} (inside : disk.find place = some .directory) :
    disk.find place.dropLast = some .directory := by
  cases place using List.reverseRecOn with
  | nil => exact find_root
  | append_singleton dir last =>
      rw [List.dropLast_concat]
      exact parent_is_directory inside

theorem enter_stays {place : Place} (inside : disk.find place = some .directory) (name : String) :
    disk.find (enter place name).dropLast = some .directory := by
  unfold enter
  split
  · exact above_directory inside
  · split
    · exact above_directory (above_directory inside)
    · rwa [List.dropLast_concat]

/-- Something that is no link, or a free place in a directory. -/
def Disk.Landing (disk : Disk) (place : Place) : Prop :=
  disk.find place.dropLast = some .directory ∧ ∀ target, disk.find place ≠ some (.link target)

theorem directory_is_landing {place : Place} (inside : disk.find place = some .directory) :
    disk.Landing place := by
  refine ⟨above_directory inside, ?_⟩
  intro target found
  rw [inside] at found
  cases found

theorem start_is_directory {place : Place} (inside : disk.find place = some .directory)
    (target : Target) : disk.find (target.start place) = some .directory := by
  unfold Target.start
  split
  · exact find_root
  · exact inside

theorem follow_lands {budget left : Nat} {place reached : Place} {path : Names}
    (start : disk.Landing place)
    (follows : disk.follow budget place path = some (reached, left)) : disk.Landing reached := by
  induction budget, place, path using follow_induction disk with
  | ended budget place =>
      rw [follow_nil] at follows
      cases follows
      exact start
  | outside budget place name rest outside =>
      rw [follow_outside outside] at follows
      cases follows
  | named budget place name rest inside plain induction =>
      rw [follow_name inside plain] at follows
      exact induction ⟨enter_stays inside name, plain⟩ follows
  | linked budget place name rest target inside found further =>
      obtain ⟨left, spent, follows⟩ := follow_through_link inside found follows
      exact further left spent (directory_is_landing (start_is_directory inside target)) follows

/-- Another disk on which every directory and every link is still there, and no
new link. -/
def Disk.Steady (disk later : Disk) : Prop :=
  ∀ place, (disk.find place = some .directory → later.find place = some .directory) ∧
    ∀ target, disk.find place = some (.link target) ↔ later.find place = some (.link target)

theorem steady_trans {middle later : Disk} (first : disk.Steady middle)
    (second : middle.Steady later) : disk.Steady later := by
  intro place
  exact ⟨fun directory => (second place).1 ((first place).1 directory),
    fun target => ((first place).2 target).trans ((second place).2 target)⟩

theorem follow_steady {later : Disk} (steady : disk.Steady later) {budget : Nat} {place : Place}
    {path : Names} {reached : Place × Nat}
    (follows : disk.follow budget place path = some reached) :
    later.follow budget place path = some reached := by
  induction budget, place, path using follow_induction disk with
  | ended budget place =>
      rw [follow_nil] at follows ⊢
      exact follows
  | outside budget place name rest outside =>
      rw [follow_outside outside] at follows
      cases follows
  | named budget place name rest inside plain induction =>
      rw [follow_name inside plain] at follows
      rw [follow_name ((steady place).1 inside) fun target found =>
        plain target (((steady _).2 target).mpr found)]
      exact induction follows
  | linked budget place name rest target inside found further =>
      obtain ⟨left, rfl, onward⟩ := follow_through_link inside found follows
      rw [follow_link ((steady place).1 inside) (((steady _).2 target).mp found)]
      exact further left rfl onward

/-! ### Paths without links -/

def isPlain (name : String) : Bool := name != "." && name != ".."

theorem enter_plain {name : String} (plain : isPlain name = true) (dir : Place) :
    enter dir name = dir ++ [name] := by
  rw [isPlain, Bool.and_eq_true, bne_iff_ne, bne_iff_ne] at plain
  rw [enter, if_neg plain.1, if_neg plain.2]

/-- From `place` on, the names lead through directories only, and not to a link. -/
def Disk.Straight (disk : Disk) (place : Place) : Names → Prop
  | [] => True
  | name :: rest =>
      isPlain name = true ∧ disk.find place = some .directory ∧
        (∀ target, disk.find (place ++ [name]) ≠ some (.link target)) ∧
        disk.Straight (place ++ [name]) rest

theorem straight_append {place : Place} {front back : Names} :
    disk.Straight place (front ++ back) ↔
      disk.Straight place front ∧ disk.Straight (place ++ front) back := by
  induction front generalizing place with
  | nil => simp [Disk.Straight]
  | cons name front induction =>
      simp only [List.cons_append, Disk.Straight, induction, List.append_assoc, and_assoc,
        List.nil_append]

theorem follow_straight {place : Place} {path : Names} (straight : disk.Straight place path)
    (budget : Nat) : disk.follow budget place path = some (place ++ path, budget) := by
  induction path generalizing place with
  | nil => rw [follow_nil, List.append_nil]
  | cons name rest induction =>
      obtain ⟨plain, inside, unlinked, further⟩ := straight
      rw [← enter_plain plain] at unlinked further
      rw [follow_name inside unlinked, induction further, enter_plain plain, List.append_assoc,
        List.singleton_append]

theorem locate_straight {path : Names} (straight : disk.Straight [] path) :
    disk.locate path = some path := by
  rw [Disk.locate, follow_straight straight]
  rfl

theorem stat_straight {path : Names} (straight : disk.Straight [] path) :
    disk.stat path = disk.find path := by
  rw [Disk.stat, locate_straight straight, Option.bind_some]

/-! ### The last name of a path -/

theorem spot_concat (path : Names) (name : String) :
    disk.spot (path ++ [name]) = (disk.locate path).bind fun dir =>
      if disk.find dir = some .directory then some (enter dir name) else none := by
  rw [Disk.spot, List.getLast?_concat, List.dropLast_concat]

theorem spot_straight {path : Names} {name : String} (straight : disk.Straight [] path)
    (plain : isPlain name = true) (inside : disk.find path = some .directory) :
    disk.spot (path ++ [name]) = some (path ++ [name]) := by
  rw [spot_concat, locate_straight straight, Option.bind_some, if_pos inside, enter_plain plain]

theorem locate_follows {path : Names} {place : Place} (located : disk.locate path = some place) :
    ∃ left, disk.follow linkBudget [] path = some (place, left) := by
  rw [Disk.locate, Option.map_eq_some_iff] at located
  obtain ⟨⟨reached, left⟩, follows, rfl⟩ := located
  exact ⟨left, follows⟩

theorem spot_stays {path : Names} {place : Place} (spotted : disk.spot path = some place) :
    disk.find place.dropLast = some .directory := by
  cases path using List.reverseRecOn with
  | nil =>
      cases spotted
      exact find_root
  | append_singleton head name =>
      rw [spot_concat, Option.bind_eq_some_iff] at spotted
      obtain ⟨dir, -, named⟩ := spotted
      rw [Option.ite_none_right_eq_some, Option.some.injEq] at named
      rw [← named.2]
      exact enter_stays named.1 name

theorem spot_in_directory {path : Names} {name : String} {place : Place}
    (plain : isPlain name = true) (spotted : disk.spot (path ++ [name]) = some place) :
    ∃ dir, disk.locate path = some dir ∧ disk.find dir = some .directory ∧
      place = dir ++ [name] := by
  rw [spot_concat, Option.bind_eq_some_iff] at spotted
  obtain ⟨dir, located, named⟩ := spotted
  rw [Option.ite_none_right_eq_some, Option.some.injEq, enter_plain plain] at named
  exact ⟨dir, located, named.1, named.2.symm⟩

/-- At a name that is no link, following it or not is the same. -/
theorem locate_concat {path : Names} {name : String} {dir : Place}
    (located : disk.locate path = some dir) (inside : disk.find dir = some .directory)
    (plain : ∀ target, disk.find (enter dir name) ≠ some (.link target)) :
    disk.locate (path ++ [name]) = some (enter dir name) := by
  obtain ⟨left, follows⟩ := locate_follows located
  rw [Disk.locate, follow_append, follows, Option.bind_some, follow_name inside plain, follow_nil]
  rfl

theorem locate_lands {path : Names} {place : Place} (located : disk.locate path = some place) :
    disk.Landing place := by
  obtain ⟨left, follows⟩ := locate_follows located
  exact follow_lands (directory_is_landing find_root) follows

theorem locate_steady {later : Disk} (steady : disk.Steady later) {path : Names} {place : Place}
    (located : disk.locate path = some place) : later.locate path = some place := by
  obtain ⟨left, follows⟩ := locate_follows located
  rw [Disk.locate, follow_steady steady follows]
  rfl

theorem spot_steady {later : Disk} (steady : disk.Steady later) {path : Names} {place : Place}
    (spotted : disk.spot path = some place) : later.spot path = some place := by
  cases path using List.reverseRecOn with
  | nil => exact spotted
  | append_singleton head name =>
      rw [spot_concat, Option.bind_eq_some_iff] at spotted
      obtain ⟨dir, located, named⟩ := spotted
      rw [Option.ite_none_right_eq_some] at named
      rw [spot_concat, locate_steady steady located, Option.bind_some,
        if_pos ((steady dir).1 named.1), named.2]

theorem exist_head {path rest : Names} {name : String} {place : Place}
    (located : disk.locate (path ++ name :: rest) = some place) :
    ∃ dir, disk.locate path = some dir ∧ disk.find dir = some .directory := by
  rw [Disk.locate, follow_append, Option.map_eq_some_iff] at located
  obtain ⟨reached, follows, -⟩ := located
  rw [Option.bind_eq_some_iff] at follows
  obtain ⟨⟨dir, left⟩, front, last⟩ := follows
  refine ⟨dir, by rw [Disk.locate, front]; rfl, ?_⟩
  by_contra outside
  rw [follow_outside outside] at last
  cases last

theorem exist_through {front rest : Names} {name : String} {dir : Place}
    (present : disk.exist (front ++ name :: rest) = true)
    (located : disk.locate front = some dir) : disk.find (enter dir name) ≠ none := by
  intro missing
  rw [Disk.locate, Option.map_eq_some_iff] at located
  obtain ⟨⟨reached, left⟩, follows, rfl⟩ := located
  have unlinked : ∀ target, disk.find (enter reached name) ≠ some (.link target) := by
    simp [missing]
  rw [Disk.exist, Disk.stat, Disk.locate, follow_append, follows, Option.bind_some] at present
  by_cases inside : disk.find reached = some .directory
  · rw [follow_name inside unlinked] at present
    cases rest with
    | nil =>
        rw [follow_nil] at present
        simp [missing] at present
    | cons next rest =>
        rw [follow_outside (by simp [missing])] at present
        cases present
  · rw [follow_outside inside] at present
    cases present

theorem exist_front {front back : Names} (present : disk.exist (front ++ back) = true) :
    disk.exist front = true := by
  cases back with
  | nil => rwa [List.append_nil] at present
  | cons name rest =>
      rw [Disk.exist, Disk.stat, Option.isSome_bind, Option.any_eq_true] at present
      obtain ⟨place, located, -⟩ := present
      obtain ⟨dir, above, inside⟩ := exist_head located
      rw [Disk.exist, Disk.stat, above, Option.bind_some, inside]
      rfl

theorem straight_of_exist {base : Place} {names : Names} (straight : disk.Straight [] base)
    (plain : ∀ name ∈ names, isPlain name = true)
    (unlinked : ∀ front, front ≠ [] → front <+: names →
      ∀ target, disk.find (base ++ front) ≠ some (.link target))
    (exist : disk.exist (base ++ names) = true) : disk.Straight base names := by
  induction names generalizing base with
  | nil => trivial
  | cons name rest induction =>
      have inside : disk.find base = some .directory := by
        rw [Disk.exist, Disk.stat, Option.isSome_bind, Option.any_eq_true] at exist
        obtain ⟨place, located, -⟩ := exist
        obtain ⟨dir, above, inside⟩ := exist_head located
        rw [locate_straight straight, Option.some.injEq] at above
        rwa [above]
      have here : ∀ target, disk.find (base ++ [name]) ≠ some (.link target) :=
        unlinked [name] (by simp) ⟨rest, rfl⟩
      refine ⟨plain name List.mem_cons_self, inside, here, ?_⟩
      apply induction
      · rw [straight_append]
        exact ⟨straight, plain name List.mem_cons_self, inside, here, trivial⟩
      · intro other member
        exact plain other (List.mem_cons_of_mem _ member)
      · intro front some below target
        rw [List.append_assoc, List.singleton_append]
        exact unlinked (name :: front) (by simp) (List.cons_prefix_cons.mpr ⟨rfl, below⟩) target
      · rwa [List.append_assoc, List.singleton_append]

theorem straight_to_directory {place : Place} (plain : ∀ name ∈ place, isPlain name = true)
    (inside : disk.find place = some .directory) : disk.Straight [] place := by
  induction place using List.reverseRecOn with
  | nil => trivial
  | append_singleton dir name induction =>
      have above := parent_is_directory inside
      rw [straight_append, List.nil_append]
      refine ⟨induction (fun other member => plain other (List.mem_append_left _ member)) above,
        plain name (by simp), above, ?_, trivial⟩
      intro target link
      rw [inside] at link
      cases link

theorem straight_found {place : Place} (plain : ∀ name ∈ place, isPlain name = true) {entry : Entry}
    (found : disk.find place = some entry) (unlinked : ∀ target, entry ≠ .link target) :
    disk.Straight [] place := by
  cases place using List.reverseRecOn with
  | nil => trivial
  | append_singleton dir name =>
      rw [List.forall_mem_append, List.forall_mem_singleton] at plain
      have inside := parent_is_directory found
      rw [straight_append, List.nil_append]
      refine ⟨straight_to_directory plain.1 inside, plain.2, inside, ?_, trivial⟩
      intro target link
      rw [found, Option.some.injEq] at link
      exact unlinked target link

theorem stat_found {place : Place} (plain : ∀ name ∈ place, isPlain name = true) {entry : Entry}
    (found : disk.find place = some entry) (unlinked : ∀ target, entry ≠ .link target) :
    disk.stat place = some entry := by
  rw [stat_straight (straight_found plain found unlinked), found]

theorem enter_keeps_plain {place : Place} (plain : ∀ part ∈ place, isPlain part = true)
    (name : String) :
    ∀ part ∈ enter place name, isPlain part = true := by
  unfold enter
  split
  · exact plain
  · split
    · exact fun part member => plain part (List.mem_of_mem_dropLast member)
    · rename_i noDot noDots
      rw [List.forall_mem_append, List.forall_mem_singleton, isPlain, Bool.and_eq_true,
        bne_iff_ne, bne_iff_ne]
      exact ⟨plain, noDot, noDots⟩

theorem follow_plain {budget left : Nat} {place reached : Place} {path : Names}
    (plain : ∀ part ∈ place, isPlain part = true)
    (follows : disk.follow budget place path = some (reached, left)) :
    ∀ part ∈ reached, isPlain part = true := by
  induction budget, place, path using follow_induction disk with
  | ended budget place =>
      rw [follow_nil] at follows
      cases follows
      exact plain
  | outside budget place name rest outside =>
      rw [follow_outside outside] at follows
      cases follows
  | named budget place name rest inside unlinked induction =>
      rw [follow_name inside unlinked] at follows
      exact induction (enter_keeps_plain plain name) follows
  | linked budget place name rest target inside found further =>
      obtain ⟨left, spent, follows⟩ := follow_through_link inside found follows
      refine further left spent ?_ follows
      unfold Target.start
      split
      · simp
      · exact plain

theorem locate_plain {path : Names} {place : Place} (located : disk.locate path = some place) :
    ∀ part ∈ place, isPlain part = true := by
  obtain ⟨left, follows⟩ := locate_follows located
  exact follow_plain (by simp) follows

theorem is_link_of_find {base : Place} {name : String}
    (plain : ∀ part ∈ base ++ [name], isPlain part = true) {target : Target}
    (link : disk.find (base ++ [name]) = some (.link target)) :
    disk.isLink (base ++ [name]) = true := by
  have inside := parent_is_directory link
  rw [List.forall_mem_append, List.forall_mem_singleton] at plain
  have straight := straight_to_directory plain.1 inside
  rw [Disk.isLink, Disk.lstat, spot_straight straight plain.2 inside, Option.bind_some, link]
  rfl

theorem is_dir_iff {path : Names} :
    disk.isDir path = true ↔ ∃ place, disk.locate path = some place ∧
      disk.find place = some .directory := by
  rw [Disk.isDir, beq_iff_eq, Disk.stat, Option.bind_eq_some_iff]

theorem is_file_iff {path : Names} :
    disk.isFile path = true ↔ ∃ bytes, disk.stat path = some (.file bytes) := by
  rw [Disk.isFile]
  cases disk.stat path with
  | none => simp
  | some entry => cases entry <;> simp [Entry.isFile]

theorem is_dir_exist {path : Names} (isDir : disk.isDir path = true) :
    disk.exist path = true := by
  rw [Disk.isDir, beq_iff_eq] at isDir
  rw [Disk.exist, isDir]
  rfl

end Following

end PosixDisk
