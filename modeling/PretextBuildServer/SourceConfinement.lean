import PretextBuildServer.HarvestSource
import PretextBuildServer.Library.PosixTwins
import PretextBuildServer.SortedHarvest

/-!
# What a harvest depends on

Where no link leads to the generated-cache root and none is in the way in the cache,
a harvest comes to the same on all disks that hold the same work tree and the same
cache of the project.
-/

namespace PretextBuildServer.SourceConfinement

open EffectProgram EffectProgram.Program PosixDisk JoinedNames
open PretextBuildServer.ServerSettings PretextBuildServer.JobCalls
open PretextBuildServer.NameValidators PretextBuildServer.DiskCalls PretextBuildServer.AssetCache
open PretextBuildServer.HarvestRuns PretextBuildServer.HarvestSource PretextBuildServer.TidyCache
open PretextBuildServer.PathTexts PretextBuildServer.ExactHarvest PretextBuildServer.SortedHarvest
open PretextBuildServer.TreeWalks (Down scan_down chosen_names)
open PretextBuildServer.HarvestConfinement (cacheKey twoProjects)

set_option autoImplicit false

/-! ## One file on two disks -/

section Copies

variable {base : Place} {drive other : Drive} {rest : Names} {tmp name : String}

theorem move_answers (alike : drive.disk.AlikeAt base other.disk) (plainTmp : isPlain tmp = true)
    (plain : isPlain name = true) (clear : drive.disk.Unlinked (base ++ rest)) :
    drive.Answers base (EntryOf (base ++ rest)) other
      (moveOrRemove drive (base ++ rest ++ [tmp]) (base ++ rest ++ [name]))
      (moveOrRemove other (base ++ rest ++ [tmp]) (base ++ rest ++ [name])) := by
  have moved := replace_answers alike plainTmp plain clear
  unfold moveOrRemove
  cases one : drive.replace (base ++ rest ++ [tmp]) (base ++ rest ++ [name]) with
  | mk answer last =>
      cases two : other.replace (base ++ rest ++ [tmp]) (base ++ rest ++ [name]) with
      | mk answerToo lastToo =>
          rw [one, two] at moved
          obtain rfl : answer = answerToo := moved.same
          cases answer with
          | ok _ => exact answers_map (fun _ => true) moved
          | error refusal =>
              apply answers_then moved
              exact answers_map (fun _ => false)
                (remove_answers moved.alike plainTmp (unlinked_beside clear moved.only))

theorem promote_answers (alike : drive.disk.AlikeAt base other.disk) (plainTmp : isPlain tmp = true)
    (plain : isPlain name = true) (clear : drive.disk.Unlinked (base ++ rest ++ [tmp]))
    (same : Bool) (bytes : Bytes) :
    drive.Answers base (EntryOf (base ++ rest)) other
      (promoteOn drive same bytes (base ++ rest ++ [tmp]) (base ++ rest ++ [name]))
      (promoteOn other same bytes (base ++ rest ++ [tmp]) (base ++ rest ++ [name])) := by
  have above := unlinked_front clear
  unfold promoteOn
  split
  · exact answers_map (fun _ => false) (remove_answers alike plainTmp above)
  · have created := create_answers alike clear
    cases one : drive.create (base ++ rest ++ [tmp]) with
    | mk answer opened =>
        cases two : other.create (base ++ rest ++ [tmp]) with
        | mk answerToo openedToo =>
            rw [one, two] at created
            obtain rfl : answer = answerToo := created.same
            have still := unlinked_beside above created.only
            cases answer with
            | error refusal =>
                apply answers_then created
                exact answers_map (fun _ => false) (remove_answers created.alike plainTmp still)
            | ok file =>
                have named : file = base ++ rest ++ [tmp] := by
                  rcases create_files clear with refused | ⟨later, opens, -⟩
                  · rw [one] at refused
                    cases refused
                  · rw [one] at opens
                    cases opens
                    rfl
                rw [named]
                apply answers_then created
                have filled := @append_answers base opened openedToo rest tmp created.alike bytes
                apply answers_then filled
                exact move_answers filled.alike plainTmp plain (unlinked_beside still filled.only)

end Copies

/-! ## Two worlds -/

/-- From a place down the same stands on both disks, listed in the same order. -/
def SameTree (top : Place) (disk other : Disk) : Prop :=
  ∀ place, top <+: place → other.find place = disk.find place ∧ other.names place = disk.names place

/-- Two worlds with the same work tree and the same cache of a project. What else is
on their disks may differ. -/
structure Twins (settings : Settings) (project : String) (workDir : Place)
    (world other : DiskWorld) : Prop where
  work : SameTree workDir world.drive.disk other.drive.disk
  cache : world.drive.disk.AlikeAt (root settings ++ [project]) other.drive.disk
  clock : other.clock = world.clock

/-- No link stands on the way to a file that is looked for in the cache, or to the
temporary name it is copied under. -/
def CacheUnlinked (world : DiskWorld) : DiskCall → Prop
  | .exist path | .sameFile _ path => world.drive.disk.Unlinked path
  | _ => True

/-- The generated-cache root is in the work tree, the project's cache is not. -/
structure Layout (settings : Settings) (project : String) (workDir cacheRoot : Place) : Prop where
  apart : Apart workDir (root settings ++ [project])
  within : workDir <+: cacheRoot
  plain : ∀ part ∈ cacheRoot, isPlain part = true
  plainCache : ∀ part ∈ root settings ++ [project], isPlain part = true

section Worlds

variable {settings : Settings} {project : String} {workDir top : Place} {world other : DiskWorld}
  {disk middle later : Disk}

theorem same_tree_refl (top : Place) (disk : Disk) : SameTree top disk disk := fun _ _ => ⟨rfl, rfl⟩

theorem same_tree_trans (first : SameTree top disk middle) (second : SameTree top middle later) :
    SameTree top disk later :=
  fun place below => ⟨(second place below).1.trans (first place below).1,
    (second place below).2.trans (first place below).2⟩

theorem same_tree_below (same : SameTree top disk later) {lower : Place} (below : top <+: lower) :
    SameTree lower disk later :=
  fun place deeper => same place (below.trans deeper)

theorem twins_refl (world : DiskWorld) : Twins settings project workDir world world :=
  ⟨same_tree_refl _ _, alike_refl _ _, rfl⟩

theorem work_unchanged (apart : Apart workDir (root settings ++ [project]))
    (only : disk.ChangesOnly (touched settings project) later) : SameTree workDir disk later := by
  rintro place ⟨rest, rfl⟩
  constructor
  · exact only.1 _ (apart_untouched apart rest)
  · apply only.2
    intro name
    rw [List.append_assoc]
    exact apart_untouched apart _

theorem twins_changed {Answer : Type} {outcome result : Answer × Drive} {clock clockToo : Nat}
    (ticks : clockToo = clock) (apart : Apart workDir (root settings ++ [project]))
    (twins : Twins settings project workDir world other)
    (answers : world.drive.Answers (root settings ++ [project]) (touched settings project) other.drive
      outcome result) :
    Twins settings project workDir { world with drive := outcome.2, clock := clock }
      { other with drive := result.2, clock := clockToo } := by
  refine ⟨?_, answers.alike, ticks⟩
  intro place below
  have here := work_unchanged apart answers.only place below
  have there := work_unchanged apart answers.onlyToo place below
  have before := twins.work place below
  exact ⟨there.1.trans (before.1.trans here.1.symm), there.2.trans (before.2.trans here.2.symm)⟩

end Worlds

/-! ## Storing a file -/

/-- What `harvest` does for one key. -/
def storeKey (settings : Settings) (pid : Nat) (project : String) (cacheRoot : Path)
    (added : List String) (key : Names) : DiskProgram (List String) :=
  storeOnce pid (cacheRoot ++ key) (root settings ++ [project] ++ key.dropLast)
    (key.getLast?.getD "") (joined key) added

def storeKeys (settings : Settings) (pid : Nat) (project : String) (cacheRoot : Path)
    (keys : List Names) (added : List String) : DiskProgram (List String) :=
  keys.foldlM (storeKey settings pid project cacheRoot) added

/-- A file that can be harvested, with the path it is known by. -/
def Storable (disk : Disk) (cacheRoot : Place) (key : Names) : Prop :=
  ∃ dirs name bytes, key = dirs ++ [name] ∧ (∀ part ∈ dirs, isPlain part = true) ∧
    matchesCacheFilename name.toList = true ∧ disk.find (cacheRoot ++ key) = some (.file bytes)

/-- A run that comes to the same in two worlds, changes the cache only, and goes by no
link of it in the second world if it goes by none in the first. -/
structure SameRun (settings : Settings) (project : String) (workDir : Place) {Result : Type}
    (program : DiskProgram Result) (world other : DiskWorld) : Prop where
  same : (run onDisk other program).1 = (run onDisk world program).1
  twins : Twins settings project workDir (run onDisk world program).2 (run onDisk other program).2
  only : world.drive.disk.ChangesOnly (touched settings project)
    (run onDisk world program).2.drive.disk
  clear : AtEachCall onDisk CacheUnlinked other program

section Storing

variable {settings : Settings} {project : String} {workDir cacheRoot : Place}
  {world other : DiskWorld} {pid : Nat} {src : Path} {dirs key : Names} {name : String} {bytes : Bytes}

theorem store_file_refused {destDir : Path} {refusal : Refusal} {later : Drive}
    (made : world.drive.makeDirs destDir = (.error refusal, later)) :
    run onDisk world (storeFile pid src destDir name) =
      (.error (raisedBy refusal), { world with drive := later }) := by
  rw [storeFile, bind_is_and_then, run_and_then, run_perform, onDisk, DiskWorld.lift, made]
  rfl

theorem store_file_made {destDir : Path} {done : Unit} {later : Drive}
    (made : world.drive.makeDirs destDir = (.ok done, later))
    (source : later.disk.stat src = some (.file bytes)) :
    run onDisk world (storeFile pid src destDir name) =
      let tmp := destDir ++ [tempName name pid world.clock]
      let promoted := promoteOn later ({ world with drive := later }.sameFile src tmp) bytes tmp
        (destDir ++ [name])
      (.ok promoted.1, { world with drive := promoted.2, clock := world.clock + 1 }) := by
  rw [storeFile, bind_is_and_then, run_and_then, run_perform, onDisk, DiskWorld.lift, made]
  dsimp only [Except.mapError]
  rw [on_value_ok, bind_is_and_then, run_and_then, run_perform, onDisk, on_value_ok]
  exact @run_promote { world with drive := later, clock := world.clock + 1 } src _ _ bytes source

/-- The calls on which nothing depends. -/
def unasked : DiskCall → Prop
  | .exist _ | .sameFile .. => False
  | _ => True

theorem unasked_clear (world : DiskWorld) (request : DiskCall) (free : unasked request) :
    CacheUnlinked world request := by
  cases request <;> trivial

theorem promote_clear (src tmp dest : Path) :
    AtEachCall onDisk CacheUnlinked world (promote src tmp dest) ↔
      world.drive.disk.Unlinked tmp := by
  rw [promote, rescue, bind_is_and_then, at_each_call_and_then, at_each_call_and_then, copyfile,
    at_each_call_bind, and_assoc, and_assoc]
  refine and_iff_left ⟨?_, ?_, ?_⟩
  · intro same after _
    apply at_each_call_of_makes_only unasked_clear
    split
    · trivial
    · exact transfer_makes_only trivial trivial fun _ _ => trivial
  · apply at_each_call_of_makes_only unasked_clear
    generalize (run onDisk world _).1 = copied
    cases copied with
    | error raised => trivial
    | ok _ =>
        refine ⟨trivial, fun reply => ?_⟩
        cases reply <;> trivial
  · apply at_each_call_of_makes_only unasked_clear
    generalize (run onDisk world _).1 = outcome
    cases outcome with
    | error raised => exact abandon_makes_only trivial raised
    | ok moved => trivial

theorem store_file_clear (destDir : Path) :
    AtEachCall onDisk CacheUnlinked world (storeFile pid src destDir name) ↔
      ((world.drive.makeDirs destDir).1 = .ok () → (world.drive.makeDirs destDir).2.disk.Unlinked
        (destDir ++ [tempName name pid world.clock])) := by
  rw [storeFile, at_each_call_bind]
  cases made : world.drive.makeDirs destDir with
  | mk answer later =>
      constructor
      · rintro ⟨-, rest⟩ rfl
        have going := rest () { world with drive := later } (by
          rw [onDisk, DiskWorld.lift, made]
          rfl)
        rw [at_each_call_bind] at going
        exact (promote_clear _ _ _).mp (going.2 _ _ rfl)
      · intro clear
        refine ⟨trivial, ?_⟩
        intro _ after ran
        rw [onDisk, DiskWorld.lift, made] at ran
        cases answer with
        | error refusal => cases ran
        | ok _ =>
            cases ran
            rw [at_each_call_bind]
            refine ⟨trivial, ?_⟩
            intro now after ran
            cases ran
            exact (promote_clear _ _ _).mpr (clear rfl)

theorem same_file_alike {base : Place} {rest : Names}
    (alike : world.drive.disk.AlikeAt base other.drive.disk) (some : rest ≠ [])
    (clear : world.drive.disk.Unlinked (base ++ rest)) (plain : ∀ part ∈ src, isPlain part = true)
    (file : world.drive.disk.find src = Option.some (.file bytes))
    (fileToo : other.drive.disk.find src = Option.some (.file bytes)) :
    other.sameFile src (base ++ rest) = world.sameFile src (base ++ rest) := by
  have straight := straight_found plain file (by simp)
  have straightToo := straight_found plain fileToo (by simp)
  have there : world.drive.disk.exist src = true := by
    rw [Disk.exist, stat_straight straight, file]
    rfl
  have thereToo : other.drive.disk.exist src = true := by
    rw [Disk.exist, stat_straight straightToo, fileToo]
    rfl
  rw [DiskWorld.sameFile, DiskWorld.sameFile, alike_exist alike clear,
    alike_locate alike some clear, locate_straight straight, locate_straight straightToo, there,
    thereToo]

theorem store_file_same (apart : Apart workDir (root settings ++ [project]))
    (twins : Twins settings project workDir world other) (ofTree : workDir <+: src)
    (plain : ∀ part ∈ src, isPlain part = true)
    (file : world.drive.disk.find src = some (.file bytes))
    (cached : matchesCacheFilename name.toList = true)
    (way : world.drive.disk.Unlinked (root settings ++ [project] ++ dirs))
    (clear : AtEachCall onDisk CacheUnlinked world
      (storeFile pid src (root settings ++ [project] ++ dirs) name)) :
    SameRun settings project workDir (storeFile pid src (root settings ++ [project] ++ dirs) name)
      world other := by
  have around : ∀ place, place <+: root settings ++ [project] ++ dirs →
      touched settings project place :=
    fun place within => List.prefix_or_prefix_of_prefix within (List.prefix_append _ dirs)
  have inside : ∀ place, EntryOf (root settings ++ [project] ++ dirs) place →
      touched settings project place := by
    rintro place ⟨last, rfl⟩
    right
    rw [List.append_assoc]
    exact List.prefix_append _ _
  have paved := answers_mono around (make_dirs_answers twins.cache way)
  have fileThen := (work_unchanged apart paved.only src ofTree).1.trans file
  have fileToo := (work_unchanged apart paved.onlyToo src ofTree).1.trans
    ((twins.work src ofTree).1.trans file)
  rw [store_file_clear] at clear
  have clearToo : (other.drive.makeDirs (root settings ++ [project] ++ dirs)).1 = .ok () →
      (other.drive.makeDirs (root settings ++ [project] ++ dirs)).2.disk.Unlinked
        (root settings ++ [project] ++ dirs ++ [tempName name pid other.clock]) := by
    intro made
    rw [twins.clock, List.append_assoc _ dirs]
    apply alike_unlinked paved.alike
    rw [← List.append_assoc _ dirs]
    exact clear (paved.same.trans made)
  cases one : world.drive.makeDirs (root settings ++ [project] ++ dirs) with
  | mk answer later =>
      cases two : other.drive.makeDirs (root settings ++ [project] ++ dirs) with
      | mk answerToo laterToo =>
          rw [one] at paved fileThen clear
          rw [two] at paved fileToo
          obtain rfl : answer = answerToo := paved.same
          cases answer with
          | error refusal =>
              have ran := @store_file_refused world pid src name _ _ _ one
              have ranToo := @store_file_refused other pid src name _ _ _ two
              refine ⟨by rw [ran, ranToo], ?_, by rw [ran]; exact paved.only,
                (store_file_clear _).mpr clearToo⟩
              rw [ran, ranToo]
              exact twins_changed twins.clock apart twins paved
          | ok done =>
              have ran := @store_file_made world pid src name bytes _ _ _ one
                (stat_found plain fileThen (by simp))
              have ranToo := @store_file_made other pid src name bytes _ _ _ two
                (stat_found plain fileToo (by simp))
              have clearTmp := clear rfl
              have asked : { other with drive := laterToo }.sameFile src
                    (root settings ++ [project] ++ dirs ++ [tempName name pid world.clock]) =
                  { world with drive := later }.sameFile src
                    (root settings ++ [project] ++ dirs ++ [tempName name pid world.clock]) := by
                rw [List.append_assoc _ dirs] at clearTmp ⊢
                exact @same_file_alike { world with drive := later }
                  { other with drive := laterToo } src bytes _ _ paved.alike (by simp) clearTmp
                  plain fileThen fileToo
              dsimp only at ran ranToo
              rw [congrArg (tempName name pid) twins.clock, asked] at ranToo
              have moved := @promote_answers _ later laterToo dirs (tempName name pid world.clock)
                name paved.alike (temp_name_plain _ _ _) (cache_filename_plain cached) clearTmp
                ({ world with drive := later }.sameFile src
                  (root settings ++ [project] ++ dirs ++ [tempName name pid world.clock])) bytes
              have whole := answers_then paved (answers_mono inside moved)
              refine ⟨?_, ?_, by rw [ran]; exact whole.only, (store_file_clear _).mpr clearToo⟩
              · rw [ran, ranToo]
                exact congrArg Except.ok whole.same.symm
              · rw [ran, ranToo]
                exact twins_changed (congrArg (· + 1) twins.clock) apart twins whole

theorem same_done {Result : Type} (twins : Twins settings project workDir world other)
    (outcome : Except Raised Result) :
    SameRun settings project workDir (.done outcome) world other :=
  ⟨rfl, twins, changes_only_refl _, trivial⟩

theorem same_bind {Result Other : Type} {first : DiskProgram Result}
    {next : Result → DiskProgram Other} (begun : SameRun settings project workDir first world other)
    (rest : ∀ value after afterToo, run onDisk world first = (.ok value, after) →
      Twins settings project workDir after afterToo →
      SameRun settings project workDir (next value) after afterToo) :
    SameRun settings project workDir (first >>= next) world other := by
  have later : SameRun settings project workDir (onValue next (run onDisk world first).1)
      (run onDisk world first).2 (run onDisk other first).2 := by
    cases ended : (run onDisk world first).1 with
    | error raised => exact same_done begun.twins _
    | ok value => exact rest value _ _ (Prod.ext ended rfl) begun.twins
  have clear := begun.clear
  rw [bind_is_and_then]
  constructor
  · rw [run_and_then, run_and_then, begun.same]
    exact later.same
  · rw [run_and_then, run_and_then, begun.same]
    exact later.twins
  · rw [run_and_then]
    exact changes_only_trans begun.only later.only
  · rw [at_each_call_and_then, begun.same]
    exact ⟨clear, later.clear⟩

theorem store_key_concat (added : List String) :
    storeKey settings pid project cacheRoot added (dirs ++ [name]) =
      storeOnce pid (cacheRoot ++ (dirs ++ [name])) (root settings ++ [project] ++ dirs) name
        (joined (dirs ++ [name])) added := by
  rw [storeKey, List.dropLast_concat, List.getLast?_concat, Option.getD_some]

theorem storable_plain (layout : Layout settings project workDir cacheRoot)
    (plainDirs : ∀ part ∈ dirs, isPlain part = true)
    (cached : matchesCacheFilename name.toList = true) :
    ∀ part ∈ cacheRoot ++ (dirs ++ [name]), isPlain part = true := by
  apply List.forall_mem_append.mpr ⟨layout.plain, List.forall_mem_append.mpr ⟨plainDirs, ?_⟩⟩
  exact List.forall_mem_singleton.mpr (cache_filename_plain cached)

theorem store_key_same (layout : Layout settings project workDir cacheRoot)
    (twins : Twins settings project workDir world other)
    (storable : Storable world.drive.disk cacheRoot key) (added : List String)
    (clear : AtEachCall onDisk CacheUnlinked world
      (storeKey settings pid project cacheRoot added key)) :
    SameRun settings project workDir (storeKey settings pid project cacheRoot added key)
      world other := by
  obtain ⟨dirs, name, bytes, rfl, plainDirs, cached, file⟩ := storable
  have ofTree : workDir <+: cacheRoot ++ (dirs ++ [name]) :=
    layout.within.trans (List.prefix_append _ _)
  rw [store_key_concat, storeOnce] at clear ⊢
  rw [at_each_call_bind] at clear
  obtain ⟨clearDest, clear⟩ := clear
  change world.drive.disk.Unlinked _ at clearDest
  have looked : SameRun settings project workDir
      (diskCall (.exist (root settings ++ [project] ++ dirs ++ [name]))) world other := by
    rw [List.append_assoc _ dirs] at clearDest ⊢
    refine ⟨?_, twins, changes_only_refl _, alike_unlinked twins.cache clearDest, trivial⟩
    exact congrArg Except.ok (alike_exist twins.cache clearDest)
  apply same_bind looked
  intro there after afterToo ran twins
  have following := clear there after ran
  obtain rfl : world = after := congrArg Prod.snd ran
  cases there with
  | true => exact same_done twins _
  | false =>
      rw [if_neg (by decide)] at following ⊢
      rw [bind_is_and_then, at_each_call_and_then] at following
      apply same_bind (store_file_same layout.apart twins ofTree
        (storable_plain layout plainDirs cached) file cached (unlinked_front clearDest) following.1)
      intro promoted after afterToo _ twins
      exact same_done twins _

theorem storable_same {disk later : Disk} (same : SameTree cacheRoot disk later)
    (storable : Storable disk cacheRoot key) : Storable later cacheRoot key := by
  obtain ⟨dirs, name, bytes, spelled, plain, cached, file⟩ := storable
  exact ⟨dirs, name, bytes, spelled, plain, cached,
    (same _ (List.prefix_append _ _)).1.trans file⟩

theorem keys_same (layout : Layout settings project workDir cacheRoot) (keys : List Names)
    (storable : ∀ key ∈ keys, Storable world.drive.disk cacheRoot key)
    (twins : Twins settings project workDir world other) (added : List String)
    (clear : AtEachCall onDisk CacheUnlinked world
      (storeKeys settings pid project cacheRoot keys added)) :
    SameRun settings project workDir (storeKeys settings pid project cacheRoot keys added)
      world other := by
  induction keys generalizing world other added with
  | nil => exact same_done twins _
  | cons key keys induction =>
      rw [storeKeys, List.foldlM_cons] at clear ⊢
      rw [bind_is_and_then, at_each_call_and_then] at clear
      have first := store_key_same layout twins (storable key List.mem_cons_self) added clear.1
      apply same_bind first
      intro added after afterToo ran twins
      have only := first.only
      have following := clear.2
      rw [ran] at only following
      have same := same_tree_below (work_unchanged layout.apart only) layout.within
      apply induction _ twins added following
      exact fun other member => storable_same same (storable other (List.mem_cons_of_mem _ member))

end Storing

/-! ## From the walk to the files -/

/-- A program comes to the same as what it does for the files alone. -/
structure Follows (met : DiskWorld → DiskCall → Prop) (world : DiskWorld)
    (program stores : DiskProgram (List String)) : Prop where
  calls : AtEachCall onDisk met world program ↔ AtEachCall onDisk met world stores
  runs : AtEachCall onDisk met world stores → run onDisk world program = run onDisk world stores

/-- A condition that every look at the work tree meets, and no call that is led on by a
link of the cache. -/
structure OfCache (met : DiskWorld → DiskCall → Prop) : Prop where
  looks : ∀ world request, looksAtTree request → met world request
  strong : ∀ world request, met world request → CacheUnlinked world request

def keysOf (assetType : String) (files : List (Names × Bytes)) : List Names :=
  files.map fun file => assetType :: file.1

section Walks

variable {met : DiskWorld → DiskCall → Prop} {world : DiskWorld}

theorem follows_refl (program : DiskProgram (List String)) : Follows met world program program :=
  ⟨Iff.rfl, fun _ => rfl⟩

theorem follows_look {Result : Type} {look : DiskProgram Result} {value : Result}
    {next : Except Raised Result → DiskProgram (List String)} {stores : DiskProgram (List String)}
    (ofCache : OfCache met) (only : MakesOnly looksAtTree look)
    (looked : (run onDisk world look).1 = .ok value)
    (rest : Follows met world (next (.ok value)) stores) :
    Follows met world (look.andThen next) stores := by
  have ran : run onDisk world look = (.ok value, world) :=
    Prod.ext looked (run_unchanged (fun _ looks => look_leaves looks) look only)
  constructor
  · rw [at_each_call_and_then, ran]
    have passed : AtEachCall onDisk met world look :=
      at_each_call_of_makes_only ofCache.looks world look only
    exact (and_iff_right passed).trans rest.calls
  · rw [run_and_then, ran]
    exact rest.runs

theorem follows_bind {first stores : DiskProgram (List String)}
    {next more : List String → DiskProgram (List String)} (begun : Follows met world first stores)
    (rest : ∀ added after, AtEachCall onDisk met world stores →
      run onDisk world stores = (.ok added, after) → Follows met after (next added) (more added)) :
    Follows met world (first >>= next) (stores >>= more) := by
  have later : AtEachCall onDisk met world stores →
      Follows met (run onDisk world stores).2 (onValue next (run onDisk world stores).1)
        (onValue more (run onDisk world stores).1) := by
    intro met
    cases ended : (run onDisk world stores).1 with
    | error raised => exact follows_refl _
    | ok added => exact rest added _ met (Prod.ext ended rfl)
  rw [bind_is_and_then, bind_is_and_then]
  constructor
  · rw [at_each_call_and_then, at_each_call_and_then, begun.calls]
    apply and_congr_right
    intro met
    rw [begun.runs met]
    exact (later met).calls
  · rw [at_each_call_and_then, run_and_then, run_and_then]
    rintro ⟨met, rest⟩
    rw [begun.runs met]
    exact (later met).runs rest

variable {settings : Settings} {project assetType : String} {workDir cacheRoot top : Place}
  {start : Disk} {pid : Nat} {parts : Names}

theorem stored_same (ofCache : OfCache met) (layout : Layout settings project workDir cacheRoot)
    {keys : List Names} {added : List String}
    (storable : ∀ key ∈ keys, Storable start cacheRoot key)
    (same : SameTree workDir start world.drive.disk)
    (met : AtEachCall onDisk met world (storeKeys settings pid project cacheRoot keys added))
    {outcome : Except Raised (List String)} {after : DiskWorld}
    (ran : run onDisk world (storeKeys settings pid project cacheRoot keys added) =
      (outcome, after)) : SameTree workDir start after.drive.disk := by
  have clear := at_each_call_mono world _ ofCache.strong met
  have here := same_tree_below same layout.within
  have kept := (keys_same layout keys (fun key member => storable_same here (storable key member))
    (twins_refl world) added clear).only
  rw [ran] at kept
  exact same_tree_trans same (work_unchanged layout.apart kept)

theorem follows_fold {Element : Type} (ofCache : OfCache met)
    (layout : Layout settings project workDir cacheRoot) (found : Element → List Names)
    (body : List String → Element → DiskProgram (List String)) (elements : List Element)
    (storable : ∀ element ∈ elements, ∀ key ∈ found element, Storable start cacheRoot key)
    (each : ∀ (now : DiskWorld) (added : List String), ∀ element ∈ elements,
      SameTree workDir start now.drive.disk → Follows met now (body added element)
        (storeKeys settings pid project cacheRoot (found element) added))
    (same : SameTree workDir start world.drive.disk) (added : List String) :
    Follows met world (elements.foldlM body added)
      (storeKeys settings pid project cacheRoot (elements.flatMap found) added) := by
  induction elements generalizing world added with
  | nil => exact follows_refl _
  | cons element elements induction =>
      rw [storeKeys, List.foldlM_cons, List.flatMap_cons, List.foldlM_append]
      apply follows_bind (each world added element List.mem_cons_self same)
      intro news after met ran
      apply induction
      · exact fun other member => storable other (List.mem_cons_of_mem _ member)
      · exact fun now added other member => each now added other (List.mem_cons_of_mem _ member)
      · exact stored_same ofCache layout (storable element List.mem_cons_self) same met ran

theorem walked_alike {later : Disk} (same : SameTree top start later) (depth : Nat)
    (parts : Names) : later.walked top isCacheFile isSubdir depth parts =
      start.walked top isCacheFile isSubdir depth parts :=
  walked_same (fun rest => (same _ (List.prefix_append top rest)).1)
    (fun rest => (same _ (List.prefix_append top rest)).2) depth

theorem taken_alike {later : Disk} (same : SameTree top start later) (name : String) :
    later.taken top isCacheFile parts name = start.taken top isCacheFile parts name := by
  have below : top <+: top ++ parts ++ [name] := by
    rw [List.append_assoc]
    exact List.prefix_append _ _
  rw [Disk.taken, Disk.taken, Disk.fileAt, Disk.fileAt, (same _ below).1]

theorem down_there (same : SameTree top start world.drive.disk)
    (plainTop : ∀ part ∈ top, isPlain part = true)
    (named : ∀ part ∈ parts, matchesSubdirName part.toList = true)
    (directory : start.find (top ++ parts) = some .directory) :
    Down world.drive.disk top top parts := by
  have inside := (same _ (List.prefix_append top parts)).1.trans directory
  refine ⟨locate_straight (straight_to_directory ?_ inside), inside, ?_⟩
  · exact List.forall_mem_append.mpr ⟨plainTop, fun part member => subdir_plain (named part member)⟩
  · exact fun part member => valid_of_subdir (named part member)

theorem storable_below (plainType : isPlain assetType = true) {dirs : Names} {name : String}
    (named : ∀ part ∈ dirs, matchesSubdirName part.toList = true)
    (cached : matchesCacheFilename name.toList = true) {bytes : Bytes}
    (found : start.find (cacheRoot ++ [assetType] ++ (dirs ++ [name])) = some (.file bytes)) :
    Storable start cacheRoot (assetType :: (dirs ++ [name])) := by
  refine ⟨assetType :: dirs, name, bytes, rfl, ?_, cached, ?_⟩
  · exact List.forall_mem_cons.mpr ⟨plainType, fun part member => subdir_plain (named part member)⟩
  · rw [← found, List.append_assoc, List.singleton_append]

theorem storable_taken (plainType : isPlain assetType = true)
    (named : ∀ part ∈ parts, matchesSubdirName part.toList = true) {name : String} {key : Names}
    (member : key ∈ keysOf assetType
      (start.taken (cacheRoot ++ [assetType]) isCacheFile parts name).toList) :
    Storable start cacheRoot key := by
  obtain ⟨file, taken, rfl⟩ := List.mem_map.mp member
  obtain ⟨spelled, cached, found⟩ := mem_taken.mp (Option.mem_toList.mp taken)
  rw [spelled] at found ⊢
  exact storable_below plainType named cached found

theorem storable_walked (plainType : isPlain assetType = true)
    (named : ∀ part ∈ parts, matchesSubdirName part.toList = true) (depth : Nat) {key : Names}
    (member : key ∈ keysOf assetType
      (start.walked (cacheRoot ++ [assetType]) isCacheFile isSubdir depth parts)) :
    Storable start cacheRoot key := by
  obtain ⟨file, walked, rfl⟩ := List.mem_map.mp member
  obtain ⟨dirs, name, -, below, spelled, cached, found⟩ := (mem_walked depth).mp walked
  rw [spelled] at found ⊢
  exact storable_below plainType (List.forall_mem_append.mpr ⟨named, below⟩) cached found

theorem store_one_key (added : List String) (name : String) :
    storeKeys settings pid project cacheRoot [assetType :: (parts ++ [name])] added =
      storeOnce pid (cacheRoot ++ [assetType] ++ parts ++ [name])
        (root settings ++ project :: assetType :: parts) name
        (joined (assetType :: (parts ++ [name]))) added := by
  rw [storeKeys, List.foldlM_cons, ← List.cons_append, store_key_concat]
  refine (bind_pure _).trans ?_
  simp

theorem file_follows (ofCache : OfCache met)
    (down : Down world.drive.disk (cacheRoot ++ [assetType]) (cacheRoot ++ [assetType]) parts)
    (added : List String) (name : String) :
    Follows met world
      (harvestFile pid (cacheRoute settings project assetType (cacheRoot ++ [assetType])) parts
        added name)
      (storeKeys settings pid project cacheRoot (keysOf assetType
        (world.drive.disk.taken (cacheRoot ++ [assetType]) isCacheFile parts name).toList) added) := by
  rw [harvest_file_eq, Disk.taken, isCacheFile]
  cases cached : matchesCacheFilename name.toList with
  | false => exact follows_refl _
  | true =>
      rw [if_pos rfl, if_pos rfl, bind_is_and_then]
      apply follows_look ofCache (real_file_makes_only trivial trivial)
        (congrArg Prod.fst (run_is_real_file _))
      rw [real_file_source, source_below down (cache_filename_plain cached), on_value_ok]
      cases world.drive.disk.fileAt (cacheRoot ++ [assetType] ++ parts ++ [name]) with
      | none => exact follows_refl _
      | some bytes =>
          rw [Option.map_some, Option.toList_some, keysOf, List.map_singleton, store_one_key]
          exact follows_refl _

theorem dir_follows (ofCache : OfCache met) (layout : Layout settings project workDir cacheRoot)
    (plainType : isPlain assetType = true) (depth : Nat)
    (named : ∀ part ∈ parts, matchesSubdirName part.toList = true)
    (directory : start.find (cacheRoot ++ [assetType] ++ parts) = some .directory)
    (same : SameTree workDir start world.drive.disk) (added : List String) :
    Follows met world
      (harvestDir pid (cacheRoute settings project assetType (cacheRoot ++ [assetType])) depth parts
        added)
      (storeKeys settings pid project cacheRoot (keysOf assetType
        (start.walked (cacheRoot ++ [assetType]) isCacheFile isSubdir depth parts)) added) := by
  induction depth generalizing world parts added with
  | zero => exact follows_refl _
  | succ depth induction =>
      have plainTop : ∀ part ∈ cacheRoot ++ [assetType], isPlain part = true :=
        List.forall_mem_append.mpr ⟨layout.plain, List.forall_mem_singleton.mpr plainType⟩
      have below : workDir <+: cacheRoot ++ [assetType] :=
        layout.within.trans (List.prefix_append _ _)
      have down : ∀ {now : DiskWorld}, SameTree workDir start now.drive.disk →
          Down now.drive.disk (cacheRoot ++ [assetType]) (cacheRoot ++ [assetType]) parts :=
        fun same => down_there (same_tree_below same below) plainTop named directory
      have spelled : (cacheRoute settings project assetType (cacheRoot ++ [assetType])).srcTypeDir ++
          parts = cacheRoot ++ [assetType] ++ parts := rfl
      have scanned : (run onDisk world
          (diskCall (.scandir (cacheRoot ++ [assetType] ++ parts)))).1 =
          .ok ((world.drive.disk.names (cacheRoot ++ [assetType] ++ parts)).map
            (world.describe (cacheRoot ++ [assetType] ++ parts))) := by
        rw [run_perform, onDisk, scan_down (down same)]
      have here := same_tree_below same below
      rw [harvestDir, spelled, ← walked_alike here, Disk.walked, ← taken_files (down same), keysOf,
        List.map_append, List.map_flatMap, List.map_flatMap, storeKeys, List.foldlM_append]
      have looks : MakesOnly looksAtTree
          (diskCall (.scandir (cacheRoot ++ [assetType] ++ parts))) := ⟨trivial, fun _ => trivial⟩
      apply follows_look ofCache looks scanned
      dsimp only
      rw [chosen_names, chosen_names]
      apply follows_look ofCache (makes_only_select (fun d => plain_subdir_makes_only trivial) _)
        (congrArg Prod.fst (run_select (run_is_plain_subdir _) _))
      rw [on_value_ok]
      -- The files of the directory come first.
      have storable : ∀ name, ∀ key ∈ keysOf assetType (world.drive.disk.taken
          (cacheRoot ++ [assetType]) isCacheFile parts name).toList,
          Storable start cacheRoot key := by
        intro name key member
        rw [taken_alike here] at member
        exact storable_taken plainType named member
      have each : ∀ (now : DiskWorld) (added : List String) (name : String),
          SameTree workDir start now.drive.disk → Follows met now
            (harvestFile pid (cacheRoute settings project assetType (cacheRoot ++ [assetType])) parts
              added name)
            (storeKeys settings pid project cacheRoot (keysOf assetType (world.drive.disk.taken
              (cacheRoot ++ [assetType]) isCacheFile parts name).toList) added) := by
        intro now added name sameNow
        rw [taken_alike here, ← taken_alike (same_tree_below sameNow below)]
        exact file_follows ofCache (down sameNow) added name
      apply follows_bind (follows_fold ofCache layout _ _ _ (fun name _ => storable name)
        (fun now added name _ => each now added name) same added)
      intro news middle met ran
      have sameMiddle : SameTree workDir start middle.drive.disk := by
        apply stored_same ofCache layout _ same met ran
        intro key member
        obtain ⟨name, -, inside⟩ := List.mem_flatMap.mp member
        exact storable name key inside
      have still : ∀ rest, middle.drive.disk.find (cacheRoot ++ [assetType] ++ rest) =
          world.drive.disk.find (cacheRoot ++ [assetType] ++ rest) := by
        intro rest
        have within := below.trans (List.prefix_append _ rest)
        exact (sameMiddle _ within).1.trans (same _ within).1.symm
      -- Then come the directories in it.
      apply follows_look ofCache (makes_only_select (fun d => not_link_makes_only trivial) _)
        (congrArg Prod.fst (run_select (fun d => run_is_not_link _) _))
      rw [on_value_ok, chosen_dirs (down same) (down sameMiddle) still]
      have deeper : ∀ d ∈ world.drive.disk.entered isSubdir (cacheRoot ++ [assetType] ++ parts),
          (∀ part ∈ parts ++ [d], matchesSubdirName part.toList = true) ∧
            start.find (cacheRoot ++ [assetType] ++ (parts ++ [d])) = some .directory := by
        intro d entered
        obtain ⟨matched, found⟩ := mem_entered.mp entered
        refine ⟨List.forall_mem_append.mpr ⟨named, List.forall_mem_singleton.mpr matched⟩, ?_⟩
        rw [← (here _ (List.prefix_append _ _)).1, ← List.append_assoc, found]
      apply follows_fold ofCache layout _ _ _ _ _ sameMiddle
      · intro d entered key member
        rw [walked_alike here] at member
        exact storable_walked plainType (deeper d entered).1 depth member
      · intro now added d entered sameNow
        rw [walked_alike here]
        exact induction (deeper d entered).1 (deeper d entered).2 sameNow added

theorem unlinked_same (layout : Layout settings project workDir cacheRoot)
    (work : start.find workDir = some .directory) (clear : start.Unlinked cacheRoot)
    (same : SameTree workDir start world.drive.disk) : world.drive.disk.Unlinked cacheRoot := by
  have inside := (same workDir List.prefix_rfl).1.trans work
  have plainWork : ∀ part ∈ workDir, isPlain part = true :=
    fun part member => layout.plain part (layout.within.subset member)
  refine ⟨layout.plain, ?_⟩
  intro front within target link
  rcases List.prefix_or_prefix_of_prefix within layout.within with above | below
  · exact (unlinked_to_directory plainWork inside).unlinked front above target link
  · rw [(same front below).1] at link
    exact clear.unlinked front within target link

theorem real_dir_unlinked {disk : Disk} {dir : Names} {name : String} (clear : disk.Unlinked dir)
    (plain : isPlain name = true) : (disk.isDir (dir ++ [name]) && !disk.isLink (dir ++ [name])) =
      decide (disk.find (dir ++ [name]) = some .directory) := by
  rw [Disk.isLink, lstat_unlinked clear plain]
  by_cases linked : ∃ target, disk.find (dir ++ [name]) = some (.link target)
  · obtain ⟨target, found⟩ := linked
    simp [found, Entry.isLink]
  · have further := unlinked_concat clear plain fun target found => linked ⟨target, found⟩
    rw [Disk.isDir, stat_unlinked further]
    cases found : disk.find (dir ++ [name]) with
    | none => rfl
    | some entry =>
        cases entry with
        | link target => exact absurd found (further.unlinked _ List.prefix_rfl target)
        | file bytes | directory => rfl

theorem type_tree_unlinked {disk : Disk} {dir : Names} (clear : disk.Unlinked dir)
    (plain : isPlain assetType = true) : typeTree disk dir assetType =
      if disk.find (dir ++ [assetType]) = some .directory then some (dir ++ [assetType])
      else none := by
  rw [typeTree, real_dir_unlinked clear plain]
  by_cases directory : disk.find (dir ++ [assetType]) = some .directory
  · have plainPath : ∀ part ∈ dir ++ [assetType], isPlain part = true :=
      List.forall_mem_append.mpr ⟨clear.plain, List.forall_mem_singleton.mpr plain⟩
    rw [if_pos (by simpa using directory), if_pos directory,
      locate_straight (straight_to_directory plainPath directory)]
  · rw [if_neg (by simpa using directory), if_neg directory]

theorem type_files_unlinked (plainType : isPlain assetType = true)
    (clear : start.Unlinked cacheRoot) (depth : Nat) : typeFiles start cacheRoot depth assetType =
      if start.find (cacheRoot ++ [assetType]) = some .directory then
        keysOf assetType (start.walked (cacheRoot ++ [assetType]) isCacheFile isSubdir depth [])
      else [] := by
  have typed := type_tree_unlinked clear plainType
  by_cases directory : start.find (cacheRoot ++ [assetType]) = some .directory
  · rw [if_pos directory] at typed ⊢
    exact type_files_some typed depth
  · rw [if_neg directory] at typed ⊢
    exact type_files_none typed depth

theorem type_follows (ofCache : OfCache met) (layout : Layout settings project workDir cacheRoot)
    (plainType : isPlain assetType = true) (work : start.find workDir = some .directory)
    (clear : start.Unlinked cacheRoot) (depth : Nat)
    (same : SameTree workDir start world.drive.disk) (added : List String) :
    Follows met world
      (harvestType pid depth cacheRoot (root settings ++ [project]) added assetType)
      (storeKeys settings pid project cacheRoot (typeFiles start cacheRoot depth assetType)
        added) := by
  have there : world.drive.disk.find (cacheRoot ++ [assetType]) =
      start.find (cacheRoot ++ [assetType]) :=
    (same _ (layout.within.trans (List.prefix_append _ _))).1
  rw [type_files_unlinked plainType clear]
  unfold harvestType
  rw [bind_is_and_then]
  apply follows_look ofCache (real_dir_makes_only trivial trivial)
    (congrArg Prod.fst (run_is_real_dir _))
  rw [on_value_ok, real_dir_unlinked (unlinked_same layout work clear same) plainType, there]
  by_cases directory : start.find (cacheRoot ++ [assetType]) = some .directory
  · rw [if_pos (by simpa using directory), if_pos directory]
    exact dir_follows ofCache layout plainType depth (by simp) (by simpa using directory) same added
  · rw [if_neg (by simpa using directory), if_neg directory]
    exact follows_refl _

theorem storable_type (plainType : isPlain assetType = true) (clear : start.Unlinked cacheRoot)
    (depth : Nat) {key : Names} (member : key ∈ typeFiles start cacheRoot depth assetType) :
    Storable start cacheRoot key := by
  rw [type_files_unlinked plainType clear] at member
  split at member
  · exact storable_walked plainType (by simp) depth member
  · cases member

theorem harvest_follows (ofCache : OfCache met) (plain : PlainNames settings project workDir)
    (layout : Layout settings project workDir (workDir ++ settings.generateOutputSubdir))
    (work : start.find workDir = some .directory)
    (clear : start.Unlinked (workDir ++ settings.generateOutputSubdir))
    (valid : matchesProjectId project.toList = true) (pid depth : Nat)
    (same : SameTree workDir start world.drive.disk) :
    Follows met world (harvest settings pid depth project workDir)
      (storeKeys settings pid project (workDir ++ settings.generateOutputSubdir)
        (reportable settings start (workDir ++ settings.generateOutputSubdir) depth) []) := by
  unfold harvest projectDir
  rw [if_pos valid, pure_bind]
  apply follows_fold ofCache layout _ _ _ _ _ same
  · intro assetType ofType key member
    exact storable_type (plain.types assetType ofType).1 clear depth member
  · intro now added assetType ofType sameNow
    exact type_follows ofCache layout (plain.types assetType ofType).1 work clear depth sameNow added

end Walks

/-! ## The whole harvest -/

/-- Every file a harvest reads is one of the work tree, and in a world with the same work
tree and the same cache of the project it comes to the same. -/
structure SourceConfined (settings : Settings) (pid depth : Nat) (project : String)
    (workDir : Place) (world : DiskWorld) : Prop where
  reads : AtEachCall onDisk (ReadsProject workDir) world
    (harvest settings pid depth project workDir)
  same : ∀ other, Twins settings project workDir world other →
    (run onDisk other (harvest settings pid depth project workDir)).1 =
        (run onDisk world (harvest settings pid depth project workDir)).1 ∧
      Twins settings project workDir
        (run onDisk world (harvest settings pid depth project workDir)).2
        (run onDisk other (harvest settings pid depth project workDir)).2

section Harvest

variable {settings : Settings} {project : String} {workDir cacheRoot : Place}
  {world other : DiskWorld} {key : Names} {pid : Nat}

theorem from_work_dir {src : Path} {bytes : Bytes} (within : workDir <+: src)
    (plain : ∀ part ∈ src, isPlain part = true)
    (file : world.drive.disk.find src = some (.file bytes)) :
    FromWorkDir workDir world.drive.disk src := by
  obtain ⟨path, rfl⟩ := within
  have straight := straight_found plain file (by simp)
  rw [straight_append, List.nil_append] at straight
  exact ⟨path, bytes, rfl, straight.2, file⟩

theorem promote_reads {src tmp dir : Path} {name : String}
    (cached : matchesCacheFilename name.toList = true)
    (source : FromWorkDir workDir world.drive.disk src) :
    AtEachCall onDisk (ReadsProject workDir) world (promote src tmp (dir ++ [name])) := by
  -- Real directories lead from the work tree to itself.
  have alike : FromWorkDir workDir world.drive.disk src ↔ world.drive.disk.Straight workDir [] :=
    iff_of_true source trivial
  apply at_each_call_mono world _ _ (promote_alike cached alike)
  rintro world request ⟨-, alike⟩ src same
  exact (alike src same).mpr trivial

theorem store_key_reads (layout : Layout settings project workDir cacheRoot)
    (storable : Storable world.drive.disk cacheRoot key) (added : List String) :
    AtEachCall onDisk (ReadsProject workDir) world
      (storeKey settings pid project cacheRoot added key) := by
  obtain ⟨dirs, name, bytes, rfl, plainDirs, cached, file⟩ := storable
  have unread : ∀ (world : DiskWorld) (request : DiskCall), (∀ src, request ≠ .readFile src) →
      ReadsProject workDir world request := fun world request none src same => absurd same (none src)
  have ofTree : workDir <+: cacheRoot ++ (dirs ++ [name]) :=
    layout.within.trans (List.prefix_append _ _)
  rw [store_key_concat, storeOnce, at_each_call_bind]
  refine ⟨unread _ _ (by simp), ?_⟩
  intro there after looked
  obtain rfl : world = after := congrArg Prod.snd looked
  cases there with
  | true => trivial
  | false =>
      rw [if_neg (by decide), bind_is_and_then, at_each_call_and_then]
      constructor
      · rw [storeFile, at_each_call_bind]
        refine ⟨unread _ _ (by simp), ?_⟩
        intro _ after made
        have keeps := @make_dirs_keeps world.drive (root settings ++ [project] ++ dirs)
          (List.forall_mem_append.mpr ⟨layout.plainCache, plainDirs⟩)
        obtain rfl : _ = after := congrArg Prod.snd made
        rw [at_each_call_bind]
        refine ⟨unread _ _ (by simp), ?_⟩
        intro now after ticked
        cases ticked
        exact promote_reads cached
          (from_work_dir ofTree (storable_plain layout plainDirs cached) (keeps.2 _ _ file))
      · generalize (run onDisk world (storeFile _ _ _ name)).1 = stored
        cases stored <;> trivial

theorem keys_read (layout : Layout settings project workDir cacheRoot) (keys : List Names)
    (storable : ∀ key ∈ keys, Storable world.drive.disk cacheRoot key) (added : List String)
    (clear : AtEachCall onDisk CacheUnlinked world
      (storeKeys settings pid project cacheRoot keys added)) :
    AtEachCall onDisk (ReadsProject workDir) world
      (storeKeys settings pid project cacheRoot keys added) := by
  induction keys generalizing world added with
  | nil => trivial
  | cons key keys induction =>
      rw [storeKeys, List.foldlM_cons] at clear ⊢
      rw [bind_is_and_then, at_each_call_and_then] at clear ⊢
      have here := storable key List.mem_cons_self
      refine ⟨store_key_reads layout here added, ?_⟩
      have only := (store_key_same layout (twins_refl world) here added clear.1).only
      have same := same_tree_below (work_unchanged layout.apart only) layout.within
      have following := clear.2
      cases ended : (run onDisk world (storeKey settings pid project cacheRoot added key)).1 with
      | error raised => trivial
      | ok added =>
          rw [ended] at following
          apply induction _ added following
          exact fun other member => storable_same same (storable other (List.mem_cons_of_mem _ member))

theorem harvest_invalid (valid : ¬ matchesProjectId project.toList = true) (depth : Nat) :
    harvest settings pid depth project workDir =
      raise { kind := .valueError, message := s!"invalid project_id: '{project}'" } := by
  unfold harvest projectDir
  rw [if_neg valid]
  rfl

theorem harvest_source_confined (plain : PlainNames settings project workDir)
    (work : world.drive.disk.find workDir = some .directory)
    (apart : Apart workDir (root settings ++ [project])) (pid depth : Nat) :
    (AtEachCall onDisk (ReadsProject workDir) world (harvest settings pid depth project workDir) ↔
        AtEachCall onDisk (RootIsReal workDir settings.generateOutputSubdir) world
          (harvest settings pid depth project workDir)) ∧
      (world.drive.disk.Unlinked (workDir ++ settings.generateOutputSubdir) →
        AtEachCall onDisk CacheUnlinked world (harvest settings pid depth project workDir) →
        SourceConfined settings pid depth project workDir world) := by
  refine ⟨harvest_reads_project_iff plain work, ?_⟩
  intro way clear
  by_cases valid : matchesProjectId project.toList = true
  · have layout : Layout settings project workDir (workDir ++ settings.generateOutputSubdir) :=
      ⟨apart, List.prefix_append _ _, way.plain, plain.root⟩
    have storable : ∀ key ∈ reportable settings world.drive.disk
        (workDir ++ settings.generateOutputSubdir) depth,
        Storable world.drive.disk (workDir ++ settings.generateOutputSubdir) key := by
      intro key member
      obtain ⟨assetType, ofType, inside⟩ := List.mem_flatMap.mp member
      exact storable_type (plain.types assetType ofType).1 way depth inside
    have unlinked : OfCache CacheUnlinked := by
      refine ⟨?_, fun _ _ => id⟩
      intro now request looks
      cases request <;> trivial
    have reading : OfCache fun now request =>
        CacheUnlinked now request ∧ ReadsProject workDir now request := by
      refine ⟨?_, fun _ _ => And.left⟩
      intro now request looks
      refine ⟨unlinked.looks now request looks, ?_⟩
      rintro src rfl
      cases looks
    have follows := fun {met : DiskWorld → DiskCall → Prop} (ofCache : OfCache met) =>
      @harvest_follows met world settings project workDir world.drive.disk ofCache plain layout work way
        valid pid depth (same_tree_refl _ _)
    have stored := (follows unlinked).calls.mp clear
    constructor
    · have both := (follows reading).calls.mpr (at_each_call_both world _ stored
        (keys_read layout _ storable [] stored))
      exact at_each_call_mono world _ (fun _ _ => And.right) both
    · intro other twins
      have there := harvest_follows unlinked plain layout work way valid pid depth twins.work
      have alike := keys_same layout _ storable twins [] stored
      rw [(follows unlinked).runs stored, there.runs alike.clear]
      exact ⟨alike.same, alike.twins⟩
  · have raises := @harvest_invalid settings project workDir pid valid depth
    constructor
    · rw [raises]
      trivial
    · intro other twins
      rw [raises]
      exact ⟨rfl, twins⟩

end Harvest

/-! ## A job whose cache and work tree have no links -/

def cacheIsUnlinked (world : DiskWorld) : DiskCall → Bool
  | .exist path | .sameFile _ path => world.drive.disk.hasNoLink path
  | _ => true

theorem unlinked_of_check {world : DiskWorld} {request : DiskCall}
    (checked : cacheIsUnlinked world request = true) : CacheUnlinked world request := by
  cases request <;> first | trivial | exact unlinked_of_no_link checked

theorem figure_source_confined :
    SourceConfined defaults 7 4 "p" (defaults.workDir "j") (twoProjects []) := by
  have plain : PlainNames defaults "p" (defaults.workDir "j") :=
    ⟨by decide, by decide, by decide, by decide⟩
  apply (harvest_source_confined plain (by decide +kernel) (by decide) 7 4).2
  · exact unlinked_of_no_link (by decide +kernel)
  · apply at_each_call_mono _ _ fun _ _ => unlinked_of_check
    decide +kernel

/-! ## A generated-cache root that leads to another job -/

theorem twins_beside {settings : Settings} {project : String} {workDir : Place}
    {world : DiskWorld} {place : Place} {entry : Entry} {later : Disk}
    (put : world.drive.disk.put place entry = some later) (outside : ¬ workDir <+: place)
    (free : ¬ touched settings project place) :
    Twins settings project workDir world
      { world with drive := { world.drive with disk := later } } := by
  have apart : ∀ inside, workDir <+: inside → inside ≠ place := by
    rintro inside below rfl
    exact outside below
  refine ⟨?_, ⟨?_, ?_⟩, rfl⟩
  · intro inside below
    constructor
    · rw [find_put put, if_neg (apart inside below)]
    · apply (put_changes_only put).2
      intro name
      exact apart _ (below.trans (List.prefix_append inside [name]))
  · intro rest
    rw [find_put put, if_neg]
    rintro rfl
    exact free (.inr (List.prefix_append _ rest))
  · intro front within
    left
    rw [find_put put, if_neg]
    rintro rfl
    exact free (.inl within)

def otherFigure : Place := defaults.workDir "k" ++ [".cache", "latex-image", cacheKey]

def linkedRoot (others : List (Place × Entry)) : DiskWorld where
  drive := {
    disk := .ofList ([
      (["data"], .directory), (["data", "jobs"], .directory), (["data", "jobs", "j"], .directory),
      (defaults.workDir "j", .directory),
      (defaults.workDir "j" ++ [".cache"],
        .link { absolute := false, names := ["..", "..", "k", "work", ".cache"] }),
      (["data", "jobs", "k"], .directory), (defaults.workDir "k", .directory),
      (defaults.workDir "k" ++ [".cache"], .directory),
      (defaults.workDir "k" ++ [".cache", "latex-image"], .directory)] ++ others)
    changed := [] }
  clock := 5
  lastUse := fun _ => 0

theorem linked_root_twins :
    Twins defaults "p" (defaults.workDir "j") (linkedRoot [])
      (linkedRoot [(otherFigure, .file [7])]) := by
  obtain ⟨later, put⟩ : ∃ later,
      (linkedRoot []).drive.disk.put otherFigure (.file [7]) = some later :=
    Option.isSome_iff_exists.mp (by decide +kernel)
  have same : linkedRoot [(otherFigure, .file [7])] =
      { linkedRoot [] with drive := { (linkedRoot []).drive with disk := later } } := by
    have disk : (linkedRoot [(otherFigure, .file [7])]).drive.disk = later := by
      change ((linkedRoot []).drive.disk.put otherFigure (.file [7])).getD
        (linkedRoot []).drive.disk = later
      rw [put, Option.getD_some]
    rw [← disk]
    rfl
  rw [same]
  exact twins_beside put (by decide) (by unfold touched; decide)

/-- What job `j` harvests is what job `k` has. -/
theorem linked_root_reaches_other_job :
    (run onDisk (linkedRoot [(otherFigure, .file [7])])
        (harvest defaults 7 12 "p" (defaults.workDir "j"))).2.drive.disk.find
      (root defaults ++ ["p", "latex-image", cacheKey]) = some (.file [7]) ∧
      ¬ SourceConfined defaults 7 12 "p" (defaults.workDir "j") (linkedRoot []) := by
  refine ⟨by decide +kernel, ?_⟩
  intro confined
  have same := (confined.same _ linked_root_twins).1
  have nothing : (run onDisk (linkedRoot [])
      (harvest defaults 7 12 "p" (defaults.workDir "j"))).1 = .ok [] := by
    decide +kernel
  have figure : (run onDisk (linkedRoot [(otherFigure, .file [7])])
      (harvest defaults 7 12 "p" (defaults.workDir "j"))).1 = .ok ["latex-image/" ++ cacheKey] := by
    decide +kernel
  rw [nothing, figure] at same
  cases same

end PretextBuildServer.SourceConfinement
