import PretextBuildServer.CacheMounts
import PretextBuildServer.RunCalls

/-!
# What a build finds in its cache

What a project's cache held before a build, and what the archive brought, is what
the container finds under the types, whatever jobs have been run before.
-/

namespace PretextBuildServer.CacheHandOff

open EffectProgram EffectProgram.Program PosixDisk
open PretextBuildServer.ServerSettings PretextBuildServer.JobRecord PretextBuildServer.JobCalls
open PretextBuildServer.NameValidators PretextBuildServer.DiskCalls PretextBuildServer.AssetCache
open PretextBuildServer.StoreCalls PretextBuildServer.BuildWorker PretextBuildServer.RunCalls
open PretextBuildServer.HarvestRuns PretextBuildServer.HarvestConfinement
open PretextBuildServer.PathTexts PretextBuildServer.TidyCache PretextBuildServer.CacheStates
open PretextBuildServer.ExactHarvest PretextBuildServer.CacheMounts
open PretextBuildServer.JobSystem (obliging)

set_option autoImplicit false

/-! ## What a build does before its container starts -/

section Preparing

variable {settings : Settings} {project : String} {workDir : Place} {world : DiskWorld}
  {disk later : Disk}

theorem unpacked_same (unpacked : Unpacked settings workDir disk)
    (same : ∀ rest, later.find (workDir ++ rest) = disk.find (workDir ++ rest)) :
    Unpacked settings workDir later := by
  refine ⟨unpacked.plain, ?_, ?_, ?_⟩
  · rw [← List.append_nil workDir, same, List.append_nil]
    exact unpacked.directory
  · intro front within
    rw [same]
    exact unpacked.way front within
  · intro assetType ofType
    rw [List.append_assoc, same, ← List.append_assoc]
    exact unpacked.types assetType ofType

theorem harvestable_same {tree : Place} {assetType name : String} {dirs : Names} {bytes : Bytes}
    (there : Harvestable settings disk tree assetType dirs name bytes)
    (same : ∀ rest, later.find (tree ++ rest) = disk.find (tree ++ rest)) :
    Harvestable settings later tree assetType dirs name bytes := by
  refine ⟨there.ofType, ?_, there.named, there.cached, ?_⟩
  · intro front within
    rw [same]
    exact there.real front within
  · rw [same]
    exact there.file

theorem apart_below {place other : Place} (apart : Apart place other) (rest : Names) :
    Apart (place ++ rest) other := by
  constructor
  · intro within
    exact apart.1 ((List.prefix_append place rest).trans within)
  · intro within
    rcases List.prefix_or_prefix_of_prefix within (List.prefix_append place rest) with inside | outside
    · exact apart.2 inside
    · exact apart.1 outside

theorem harvested_keeps {items : List (Names × Bytes)} {news : List Names} {key : Names}
    {bytes : Bytes} (harvested : Harvested settings project items disk news later)
    (there : held settings project disk key = some bytes) :
    held settings project later key = some bytes := by
  have stored := congrArg Prod.fst harvested.taken
  dsimp only at stored
  rw [← stored]
  exact WriteOnce.absorb_keeps there

theorem harvested_brings {tree : Place} {depth : Nat} {news : List Names} {assetType name : String}
    {dirs : Names} {bytes : Bytes}
    (harvested : Harvested settings project (sources settings disk tree depth) disk news later)
    (deep : Deep disk tree depth) (there : Harvestable settings disk tree assetType dirs name bytes)
    (absent : held settings project disk (assetType :: dirs ++ [name]) = none) :
    held settings project later (assetType :: dirs ++ [name]) = some bytes := by
  have stored := congrArg Prod.fst harvested.taken
  dsimp only at stored
  have complete := @WriteOnce.absorb_complete _ _ _ (held settings project disk) _ _ _
    (source_of_harvestable deep there)
  obtain ⟨content, brought⟩ := Option.isSome_iff_exists.mp complete
  rcases WriteOnce.absorb_source brought with before | source
  · rw [absent] at before
    cases before
  · obtain ⟨other, others, last, same, twin⟩ := harvestable_of_source source
    have file := twin.file
    rw [← same, there.file, Option.some.injEq, Entry.file.injEq] at file
    rw [← stored, brought, file]

theorem held_grown (grown : Grown workDir disk later) {key : Names} {bytes : Bytes}
    (there : held settings project disk key = some bytes) :
    held settings project later key = some bytes :=
  held_some.mpr (grown_file grown (held_some.mp there))

theorem harvest_unpacked (tidy : Tidy settings project world.drive.disk)
    (unpacked : Unpacked settings workDir world.drive.disk)
    (apart : Apart workDir (root settings ++ [project])) (plain : PlainPaths settings)
    (validTypes : ∀ assetType ∈ settings.assetCacheTypes, validName assetType = true)
    (valid : matchesProjectId project.toList = true) (pid : Nat) {depth : Nat}
    (deep : Deep world.drive.disk (workDir ++ settings.generateOutputSubdir) depth) :
    ∃ added after, Completes onDisk world (harvest settings pid depth project workDir) added after ∧
      Underway settings project world.drive.disk after.drive.disk ∧
      ∀ assetType dirs name bytes, Harvestable settings world.drive.disk
        (workDir ++ settings.generateOutputSubdir) assetType dirs name bytes →
        held settings project world.drive.disk (assetType :: dirs ++ [name]) = none →
        held settings project after.drive.disk (assetType :: dirs ++ [name]) = some bytes := by
  rcases unpacked.way settings.generateOutputSubdir List.prefix_rfl with none | directory
  · have absent : world.drive.disk.exist (workDir ++ settings.generateOutputSubdir) = false := by
      have clear : world.drive.disk.Unlinked (workDir ++ settings.generateOutputSubdir) :=
        passable_unlinked unpacked.plain fun front within => unpacked_way unpacked within
      rw [exist_unlinked clear, none]
      rfl
    refine ⟨[], world, harvest_absent valid pid depth absent, underway_start tidy, ?_⟩
    intro assetType dirs name bytes there
    have file := there.file
    rw [below_free none] at file
    cases file
  · have located := locate_straight (straight_to_directory unpacked.plain directory)
    obtain ⟨news, after, completes, harvested, -⟩ := harvest_takes plain validTypes valid
      (apart_below apart settings.generateOutputSubdir) pid depth tidy located directory
    exact ⟨_, after, completes, ⟨_, _, harvested⟩, fun assetType dirs name bytes there absent =>
      harvested_brings harvested deep there absent⟩

end Preparing

/-! ## Jobs at the caches -/

/-- The disk with the caches, and all else the jobs have to do with. -/
structure SiteWorld (Other : Type) where
  base : DiskWorld
  other : Other

abbrev Services (Other : Type) := Handler JobCall.Answer Raised (SiteWorld Other)

def SiteWorld.play {Other Result : Type} (world : SiteWorld Other) (program : DiskProgram Result) :
    Except Raised Result × SiteWorld Other :=
  ((run onDisk world.base program).1, { world with base := (run onDisk world.base program).2 })

/-- The calls to the cache are made on the disk, and go down to its bottom. Whatever
else a job calls, Redis, Docker or its own directory, is up to these. -/
def siteHandler {Other : Type} (settings : Settings) (pid : Nat) (services : Services Other) :
    Services Other
  | world, .touch projectId => world.play (touch settings projectId)
  | world, .harvest projectId workDir =>
      world.play (harvest settings pid world.base.drive.disk.height projectId workDir)
  | world, .mounts projectId workDir => world.play (mounts settings projectId workDir)
  | world, .pruneAssetCache keepProjectId =>
      world.play (prune settings world.base.drive.disk.height keepProjectId)
  | world, request => services world request

/-- Only for certain projects the cache is used, nobody else comes near it, and what
is mounted into is a project as it may have been unpacked. -/
def Proper {Other : Type} (settings current : Settings) (projects : String → Prop)
    (services : Services Other) (world : SiteWorld Other) : JobCall → Prop
  | .touch projectId | .harvest projectId _ => projects projectId
  | .mounts _ workDir => Unpacked current workDir world.base.drive.disk ∧
      ∀ project, projects project → Apart workDir (root settings ++ [project])
  | .pruneAssetCache _ => True
  | request =>
      Spared settings projects world.base.drive.disk (services world request).2.base.drive.disk

/-- Jobs have been run one after the other, and between them nobody has been at the
caches of certain projects. -/
inductive Served (settings : Settings) (projects : String → Prop) : DiskWorld → Prop
  | start (world : DiskWorld) (produced : Produced settings projects world) :
      Served settings projects world
  | ran {Other : Type} (world : SiteWorld Other) (current : Settings) (pid : Nat)
      (services : Services Other) (jobId : String) (kind : Kind) (command : String) (sandbox : Sandbox)
      (listFiles : Bool) (before : Served settings projects world.base)
      (same : root current = root settings) (plain : PlainPaths current)
      (proper : AtEachCall (siteHandler current pid services)
        (Proper settings current projects services) world
        (runJob current jobId kind command sandbox listFiles)) :
      Served settings projects (run (siteHandler current pid services) world
        (runJob current jobId kind command sandbox listFiles)).2.base
  | between (world later : DiskWorld) (before : Served settings projects world)
      (spared : Spared settings projects world.drive.disk later.drive.disk) :
      Served settings projects later

section Sites

variable {Other : Type} {settings current : Settings} {project : String} {projects : String → Prop}
  {workDir : Place} {disk middle later : Disk} {services : Services Other} {pid : Nat}

theorem spared_refl (disk : Disk) : Spared settings projects disk disk :=
  ⟨fun _ _ => id, fun _ _ _ => rfl⟩

theorem grown_spared (grown : Grown workDir disk later)
    (apart : ∀ project, projects project → Apart workDir (root settings ++ [project])) :
    Spared settings projects disk later := by
  constructor
  · intro front _ free
    rcases grown front with same | ⟨-, -, made⟩
    · rw [same]
      exact free
    · exact .inr made
  · intro project ofThese rest
    rcases grown (root settings ++ project :: rest) with same | ⟨within, -, -⟩
    · exact same
    · have inside : root settings ++ [project] <+: root settings ++ project :: rest := ⟨rest, by simp⟩
      rcases List.prefix_or_prefix_of_prefix within inside with above | below
      · exact absurd above (apart project ofThese).1
      · exact absurd below (apart project ofThese).2

theorem mounts_spared {world : DiskWorld} (plain : PlainPaths current)
    (unpacked : Unpacked current workDir world.drive.disk)
    (apart : ∀ project, projects project → Apart workDir (root settings ++ [project]))
    (projectId : String) :
    Spared settings projects world.drive.disk
      (run onDisk world (mounts current projectId workDir)).2.drive.disk := by
  by_cases valid : matchesProjectId projectId.toList = true
  · obtain ⟨after, volumes, completes, -, grown⟩ := mounts_complete unpacked plain.2 valid
    rw [completes.runs]
    exact grown_spared grown apart
  · unfold mounts projectDir
    rw [if_neg valid]
    exact spared_refl _

theorem proper_keeps (same : root current = root settings) (plain : PlainPaths current)
    (world : SiteWorld Other) (request : JobCall)
    (proper : Proper settings current projects services world request)
    (produced : Produced settings projects world.base) :
    Produced settings projects (siteHandler current pid services world request).2.base := by
  cases request
  case touch projectId => exact .touched world.base current projectId produced proper same plain
  case harvest projectId workDir =>
      exact .harvested world.base current pid _ projectId workDir produced proper same plain
  case mounts projectId workDir =>
      exact .elsewhere world.base _ produced (mounts_spared plain proper.1 proper.2 projectId)
  case pruneAssetCache keepProjectId => exact .pruned world.base current _ keepProjectId produced
  all_goals exact .elsewhere world.base _ produced proper

theorem served_produced {world : DiskWorld} (served : Served settings projects world) :
    Produced settings projects world := by
  induction served with
  | start world produced => exact produced
  | ran world current pid services jobId kind command sandbox listFiles before same plain proper
      produced =>
      exact @run_keeps_met _ _ _ _ _ _ _ (fun world => Produced settings projects world.base)
        (proper_keeps same plain) world _ proper produced
  | between world later before spared produced => exact .elsewhere world later produced spared

end Sites

/-! ## The build -/

/-- What a job calls before its container starts, its cache apart. -/
def readying : JobCall → Prop
  | .hgetall .preRun | .time | .hset _ | .chmod _ | .fromEnv => True
  | _ => False

/-- The record a run reads names the project. -/
def names (project : String) : (request : JobCall) → JobReply request → Prop
  | .hgetall .preRun, .ok record => Fields.namedProject (record.getD {}) = some project
  | _, _ => True

/-- Nobody has been at the project's cache, nor at what was unpacked. -/
structure LeftAlone (settings : Settings) (project : String) (workDir : Place) (disk later : Disk) :
    Prop where
  spared : Spared settings (· = project) disk later
  tree : ∀ rest, later.find (workDir ++ rest) = disk.find (workDir ++ rest)

structure Undisturbed {Other : Type} (settings : Settings) (project : String) (workDir : Place)
    (services : Services Other) (world : SiteWorld Other) (request : JobCall) : Prop where
  named : names project request (services world request).1
  alone : readying request → LeftAlone settings project workDir world.base.drive.disk
    (services world request).2.base.drive.disk

/-- What the cache has under a key, and where it has nothing the archive. -/
def Expected (settings : Settings) (project : String) (workDir : Place) (start : Disk)
    (assetType : String) (dirs : Names) (name : String) (bytes : Bytes) : Prop :=
  held settings project start (assetType :: dirs ++ [name]) = some bytes ∨
    held settings project start (assetType :: dirs ++ [name]) = none ∧
      Harvestable settings start (workDir ++ settings.generateOutputSubdir) assetType dirs name bytes

/-- A container that is started finds it there. -/
def FindsCache {Other : Type} (settings : Settings) (project : String) (workDir : Place)
    (start : Disk) (world : SiteWorld Other) : JobCall → Prop
  | .containersRun kwargs => ∀ assetType ∈ settings.assetCacheTypes, ∀ dirs name bytes,
      Expected settings project workDir start assetType dirs name bytes →
      containerView settings world.base.drive.disk kwargs.volumes
        (["work"] ++ settings.generateOutputSubdir ++ assetType :: (dirs ++ [name])) =
          some (.file bytes)
  | _ => True

section Builds

variable {Other : Type} {settings : Settings} {project : String} {workDir : Place}
  {disk middle later : Disk} {services : Services Other} {pid : Nat} {world : SiteWorld Other}

theorem left_alone_trans (first : LeftAlone settings project workDir disk middle)
    (second : LeftAlone settings project workDir middle later) :
    LeftAlone settings project workDir disk later := by
  constructor
  · constructor
    · exact fun front within free => second.spared.above front within (first.spared.above front within free)
    · intro other same rest
      rw [second.spared.below other same, first.spared.below other same]
  · intro rest
    rw [second.tree, first.tree]

theorem held_alone (alone : LeftAlone settings project workDir disk later) (key : Names) :
    held settings project later key = held settings project disk key := by
  rw [held, held, Disk.fileAt, Disk.fileAt, alone.spared.below project rfl]

theorem expected_alone (alone : LeftAlone settings project workDir disk later)
    {assetType name : String} {dirs : Names} {bytes : Bytes}
    (expected : Expected settings project workDir disk assetType dirs name bytes) :
    Expected settings project workDir later assetType dirs name bytes := by
  rcases expected with before | ⟨absent, there⟩
  · left
    rw [held_alone alone, before]
  · refine .inr ⟨?_, harvestable_same there fun rest => ?_⟩
    · rw [held_alone alone, absent]
    · rw [List.append_assoc, alone.tree]

theorem harvested_same (harvested : Harvested settings project [] disk [] later) (key : Names) :
    held settings project later key = held settings project disk key :=
  (congrFun (congrArg Prod.fst harvested.taken) key).symm

theorem play_completes {request : JobCall} {program : DiskProgram request.Answer}
    {value : request.Answer} {after : DiskWorld}
    (plays : siteHandler settings pid services world request = world.play program)
    (completes : Completes onDisk world.base program value after) :
    Completes (siteHandler settings pid services) world (jobCall request) value
      { world with base := after } := by
  apply completes_call
  rw [plays, SiteWorld.play, completes.runs]

theorem volumes_prepared (typed : settings.assetCacheTypes ≠ []) (plain : PlainPaths settings)
    (validTypes : ∀ assetType ∈ settings.assetCacheTypes, validName assetType = true)
    (valid : matchesProjectId project.toList = true)
    (apart : Apart workDir (root settings ++ [project]))
    (tidy : Tidy settings project world.base.drive.disk)
    (unpacked : Unpacked settings workDir world.base.drive.disk) (hostWork : Path) :
    ∃ more after, Completes (siteHandler settings pid services) world
        (prepareVolumes .build (.some project) workDir hostWork) ((workVolume hostWork).update more)
        after ∧
      VolumesOf settings project settings.assetCacheTypes more ∧
      ∀ assetType dirs name bytes,
        Expected settings project workDir world.base.drive.disk assetType dirs name bytes →
        held settings project after.base.drive.disk (assetType :: dirs ++ [name]) = .some bytes := by
  obtain ⟨touched, touches, made⟩ := touch_completes plain valid typed tidy
  have still := underway_find apart ⟨[], [], made⟩
  obtain ⟨added, harvested, harvests, underway, brings⟩ := harvest_unpacked made.tidy
    (unpacked_same unpacked still) apart plain validTypes valid pid (deep_of_height le_rfl)
  have yet : ∀ rest, harvested.drive.disk.find (workDir ++ rest) =
      world.base.drive.disk.find (workDir ++ rest) := by
    intro rest
    rw [underway_find apart underway, still]
  obtain ⟨mounted, more, mounts, these, grown⟩ :=
    mounts_complete (unpacked_same unpacked yet) plain.2 valid
  refine ⟨more, { world with base := mounted }, ?_, these, ?_⟩
  · apply completes_rescue
    apply completes_bind (play_completes rfl touches)
    rw [if_pos rfl]
    apply completes_bind (play_completes rfl harvests)
    exact completes_bind (play_completes rfl mounts) (completes_pure _ _)
  · intro assetType dirs name bytes expected
    apply held_grown grown
    rcases expected with before | ⟨absent, there⟩
    · obtain ⟨items, news, taken⟩ := underway
      exact harvested_keeps taken (by rw [harvested_same made, before])
    · apply brings assetType dirs name bytes
      · apply harvestable_same there
        intro rest
        rw [List.append_assoc, still]
      · rw [harvested_same made, absent]

theorem finds_without {Result : Type} {start : Disk} {allowed : JobCall → Prop}
    (without : ∀ kwargs, ¬ allowed (.containersRun kwargs)) {program : JobProgram Result}
    (only : MakesOnly allowed program) :
    AtEachCall (siteHandler settings pid services) (FindsCache settings project workDir start) world
      program := by
  apply at_each_call_of_makes_only _ _ _ only
  intro world request allows
  cases request
  case containersRun kwargs => exact absurd allows (without kwargs)
  all_goals trivial

theorem readied_finds {Result : Type} {start : Disk} {request : JobCall}
    {next : request.Answer → JobProgram Result} (readies : readying request)
    (undisturbed : AtEachCall (siteHandler settings pid services)
      (Undisturbed settings project workDir services) world (jobCall request >>= next))
    (rest : ∀ answer after, names project request (.ok answer) →
      LeftAlone settings project workDir world.base.drive.disk after.base.drive.disk →
      AtEachCall (siteHandler settings pid services)
        (Undisturbed settings project workDir services) after (next answer) →
      AtEachCall (siteHandler settings pid services)
        (FindsCache settings project workDir start) after (next answer)) :
    AtEachCall (siteHandler settings pid services) (FindsCache settings project workDir start) world
      (jobCall request >>= next) := by
  obtain ⟨⟨named, alone⟩, undisturbed⟩ := at_each_call_bind.mp undisturbed
  refine at_each_call_bind.mpr ⟨?_, fun answer after answered => ?_⟩
  · cases request <;> trivial
  · have served : services world request = (.ok answer, after) := by
      rw [← answered]
      cases request <;> first | rfl | cases readies
    rw [served] at named alone
    exact rest answer after named (alone readies) (undisturbed answer after answered)

theorem supervised_finds {start : Disk} (sandbox : Sandbox) (kwargs : RunKwargs)
    (finds : FindsCache settings project workDir start world (.containersRun kwargs)) :
    AtEachCall (siteHandler settings pid services) (FindsCache settings project workDir start) world
      (superviseContainer settings .build sandbox kwargs) := by
  refine ⟨finds, ?_⟩
  cases (siteHandler settings pid services world (.containersRun kwargs)).1 with
  | error raised => exact finds_without (fun _ => id) (image_missing_makes settings raised)
  | ok _ => exact finds_without (fun _ => id) (up_makes settings .build sandbox)

theorem sandboxed_finds (typed : settings.assetCacheTypes ≠ []) (plain : PlainPaths settings)
    (validTypes : ∀ assetType ∈ settings.assetCacheTypes, validName assetType = true)
    (valid : matchesProjectId project.toList = true) (jobId : String)
    (apart : Apart (settings.workDir jobId) (root settings ++ [project]))
    (tidy : Tidy settings project world.base.drive.disk)
    (unpacked : Unpacked settings (settings.workDir jobId) world.base.drive.disk)
    (command : String) (sandbox : Sandbox) (listFiles : Bool)
    (undisturbed : AtEachCall (siteHandler settings pid services)
      (Undisturbed settings project (settings.workDir jobId) services) world
      (runSandboxed settings jobId .build command sandbox listFiles)) :
    AtEachCall (siteHandler settings pid services)
      (FindsCache settings project (settings.workDir jobId) world.base.drive.disk) world
      (runSandboxed settings jobId .build command sandbox listFiles) := by
  unfold runSandboxed at undisturbed ⊢
  cases host : settings.hostDataDir with
  | none => exact finds_without (fun _ => id) (settle_makes _)
  | some hostDataDir =>
      rw [host] at undisturbed
      refine readied_finds trivial undisturbed fun record first named looked undisturbed => ?_
      dsimp only at undisturbed ⊢
      split
      · exact finds_without (fun _ => id) (settle_makes _)
      rename_i going
      rw [if_neg going] at undisturbed
      refine readied_finds trivial undisturbed fun started second _ timed undisturbed => ?_
      refine readied_finds trivial undisturbed fun _ third _ written undisturbed => ?_
      refine readied_finds trivial undisturbed fun _ fourth _ opened undisturbed => ?_
      have alone := left_alone_trans (left_alone_trans looked timed) (left_alone_trans written opened)
      replace named : Fields.namedProject (record.getD {}) = .some project := named
      rw [named] at undisturbed ⊢
      obtain ⟨more, ready, completes, these, found⟩ := @volumes_prepared Other settings project
        (settings.workDir jobId) services pid fourth typed plain validTypes valid apart
        (spared_tidy alone.spared rfl tidy) (unpacked_same unpacked alone.tree)
        (hostDataDir ++ ["jobs", jobId, "work"])
      rw [bind_is_and_then, at_each_call_and_then, completes.runs] at undisturbed ⊢
      refine ⟨finds_without (fun _ => id) (volumes_make ..), ?_⟩
      refine readied_finds trivial undisturbed.2 fun _ fifth _ connected undisturbed => ?_
      rw [bind_is_and_then, at_each_call_and_then]
      constructor
      · apply supervised_finds
        intro assetType ofType dirs name bytes expected
        apply view_of_file host _ these ofType
        · exact @plain_dirs settings project assetType [] plain valid ofType (by simp)
        · simp
        · rw [← held_some, ← found assetType dirs name bytes (expected_alone alone expected)]
          exact held_alone connected _
      · cases (run (siteHandler settings pid services) fifth (superviseContainer settings .build sandbox
          (runKwargs settings command sandbox _))).1 with
        | error raised => trivial
        | ok outcome =>
            cases outcome with
            | none => trivial
            | some ended =>
                exact finds_without (by simp [packaging, looking, packing, harvesting, settling])
                  (package_makes ..)

end Builds

/-- Whatever jobs have been run, in the container of a build that names a project the
files of the project's cache are where the types are mounted, and with them what the
archive has there that the cache had not. -/
theorem build_finds_cache {Other : Type} (settings : Settings) (project : String)
    (plain : PlainPaths settings)
    (validTypes : ∀ assetType ∈ settings.assetCacheTypes, validName assetType = true)
    (valid : matchesProjectId project.toList = true) (projects : String → Prop)
    (ofThese : projects project) (world : SiteWorld Other)
    (served : Served settings projects world.base) (jobId : String)
    (apart : Apart (settings.workDir jobId) (root settings ++ [project]))
    (unpacked : Unpacked settings (settings.workDir jobId) world.base.drive.disk) (pid : Nat)
    (services : Services Other) (command : String) (sandbox : Sandbox) (listFiles : Bool)
    (undisturbed : AtEachCall (siteHandler settings pid services)
      (Undisturbed settings project (settings.workDir jobId) services) world
      (runJob settings jobId .build command sandbox listFiles)) :
    AtEachCall (siteHandler settings pid services)
      (FindsCache settings project (settings.workDir jobId) world.base.drive.disk) world
      (runJob settings jobId .build command sandbox listFiles) := by
  by_cases typed : settings.assetCacheTypes = []
  · -- No path has a type.
    apply at_each_call_of_makes_only _ world _ (run_makes ..)
    intro now request _
    cases request
    case containersRun kwargs =>
        intro assetType ofType
        rw [typed] at ofType
        cases ofType
    all_goals trivial
  · unfold runJob ensuring at undisturbed ⊢
    rw [at_each_call_and_then] at undisturbed ⊢
    constructor
    · exact sandboxed_finds typed plain validTypes valid jobId apart
        (produced_tidy (served_produced served) ofThese) unpacked command sandbox listFiles undisturbed.1
    · apply @finds_without _ _ _ _ _ _ _ _ _ reporting (fun _ => id)
      apply makes_only_and_then _ _ (cleanup_makes settings jobId)
      rintro (raised | _) <;> trivial

/-! ## A build after a job that has brought figures -/

def hosted : Settings := { defaults with hostDataDir := some ["host"] }

/-- The record names the project, and every call succeeds. -/
def siteServices : Services Fields
  | world, .hgetall _ => (.ok (some { world.other with projectId := some "p" }), world)
  | world, .hset fields => (.ok (), { world with other := world.other.override fields })
  | world, request => ((obliging .persistent { clock := 0 } request).1, world)

theorem site_services_spare (world : SiteWorld Fields) (request : JobCall) :
    (siteServices world request).2.base = world.base := by
  cases request <;> rfl

theorem site_services_undisturbed (workDir : Place) (world : SiteWorld Fields) (request : JobCall) :
    Undisturbed hosted "p" workDir siteServices world request := by
  constructor
  · cases request
    case hgetall reader => cases reader <;> trivial
    all_goals trivial
  · intro _
    rw [site_services_spare]
    exact ⟨spared_refl _, fun _ => rfl⟩

/-- Job `i` has made two figures. The archive of job `j` has another under the name
of the first, and one the cache has not seen. -/
def twoJobs : DiskWorld where
  drive := {
    disk := .ofList [
      (["data"], .directory), (["data", "jobs"], .directory), (["data", "jobs", "i"], .directory),
      (hosted.workDir "i", .directory), (hosted.workDir "i" ++ [".cache"], .directory),
      (hosted.workDir "i" ++ [".cache", "latex-image"], .directory),
      (hosted.workDir "i" ++ [".cache", "latex-image", cacheKey], .file [1, 2]),
      (hosted.workDir "i" ++ [".cache", "latex-image", "sub"], .directory),
      (hosted.workDir "i" ++ [".cache", "latex-image", "sub", cacheKey], .file [4]),
      (["data", "jobs", "j"], .directory),
      (hosted.workDir "j", .directory), (hosted.workDir "j" ++ [".cache"], .directory),
      (hosted.workDir "j" ++ [".cache", "latex-image"], .directory),
      (hosted.workDir "j" ++ [".cache", "latex-image", cacheKey], .file [9]),
      (hosted.workDir "j" ++ [".cache", "asymptote"], .directory),
      (hosted.workDir "j" ++ [".cache", "asymptote", cacheKey], .file [5])]
    changed := [] }
  clock := 5
  lastUse := fun _ => 0

def generateFirst : JobProgram Unit :=
  runJob hosted "i" .generate "pretext generate web" hosted.generateSandbox true

def buildNext : JobProgram Unit :=
  runJob hosted "j" .build "pretext build web" hosted.buildSandbox

@[irreducible] def figuresMade : DiskWorld :=
  (run (siteHandler hosted 7 siteServices) ⟨twoJobs, {}⟩ generateFirst).2.base

theorem two_jobs_produced : Produced hosted (fun _ => True) twoJobs := by
  have bare : twoJobs.drive.disk.find (root hosted) = none := by decide +kernel
  refine .fresh _ ?_ fun project _ => below_free bare
  intro front within
  rw [← List.mem_inits] at within
  revert front
  decide +kernel

theorem generate_first_proper :
    AtEachCall (siteHandler hosted 7 siteServices)
      (Proper hosted hosted (fun _ => True) siteServices) ⟨twoJobs, {}⟩ generateFirst := by
  have unmounted : AtEachCall (siteHandler hosted 7 siteServices)
      (fun _ request => (match request with | .mounts .. => false | _ => true) = true)
      ⟨twoJobs, {}⟩ generateFirst := by
    decide +kernel
  apply at_each_call_mono _ _ _ unmounted
  intro world request passes
  cases request
  case mounts => cases passes
  case touch | harvest | pruneAssetCache => trivial
  all_goals
    simp only [Proper, site_services_spare]
    exact spared_refl _

theorem figures_made_served : Served hosted (fun _ => True) figuresMade := by
  unfold figuresMade generateFirst
  exact .ran (⟨twoJobs, {}⟩ : SiteWorld Fields) hosted 7 siteServices "i" .generate _ _ _
    (.start _ two_jobs_produced) rfl ⟨by decide, by decide⟩ generate_first_proper

theorem next_build_unpacked : Unpacked hosted (hosted.workDir "j") figuresMade.drive.disk := by
  refine ⟨by decide, by decide +kernel, ?_, by decide +kernel⟩
  intro front within
  rw [← List.mem_inits] at within
  revert front
  decide +kernel

/-- Both jobs succeed, and the build is shown the figures of the first. -/
theorem next_build_finds_figures :
    held hosted "p" figuresMade.drive.disk ["latex-image", cacheKey] = some [1, 2] ∧
      (run (siteHandler hosted 8 siteServices) ⟨figuresMade, {}⟩ buildNext).2.other.status =
        some .success ∧
      AtEachCall (siteHandler hosted 8 siteServices)
        (FindsCache hosted "p" (hosted.workDir "j") figuresMade.drive.disk) ⟨figuresMade, {}⟩
        buildNext := by
  refine ⟨by decide +kernel, by decide +kernel, ?_⟩
  apply build_finds_cache hosted "p" ⟨by decide, by decide⟩ (by decide) (by decide) (fun _ => True)
    trivial (⟨figuresMade, {}⟩ : SiteWorld Fields) figures_made_served "j" (by decide)
    next_build_unpacked 8 siteServices
  exact at_each_call_of_makes_only
    (fun world request _ => site_services_undisturbed _ world request) _ _ (run_makes ..)

end PretextBuildServer.CacheHandOff
