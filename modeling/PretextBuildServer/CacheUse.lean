import PretextBuildServer.EvictionRule
import PretextBuildServer.JobSystem
import PretextBuildServer.Library.CallExpansion

/-!
# Jobs that share the cache of many projects

The runs of any number of workers, with every call their touches, harvests,
mounts and prunes make of the disk. What the cache holds is left open, as others
write to it all the time; the stamps of the projects' directories are not.
-/

namespace PretextBuildServer.CacheUse

open EffectProgram EffectProgram.Program InterleavedParties PosixDisk
open PretextBuildServer.ServerSettings PretextBuildServer.JobCalls
open PretextBuildServer.DiskCalls PretextBuildServer.AssetCache PretextBuildServer.JobSystem
open PretextBuildServer.EvictionRule

set_option autoImplicit false

inductive UseCall where
  | job (request : JobCall)
  | cache (request : DiskCall)
  | prune (keepProjectId : Option String) (request : DiskCall)

abbrev UseCall.Answer : UseCall → Type
  | .job request => request.Answer
  | .cache request | .prune _ request => request.Answer

abbrev UseProgram := Program UseCall.Answer Raised

abbrev UseReply (request : UseCall) : Type := Except Raised request.Answer

abbrev usePerform (request : UseCall) : UseProgram request.Answer := perform request

def cacheCall (request : DiskCall) : UseProgram request.Answer := usePerform (.cache request)

def pruneCall (keepProjectId : Option String) (request : DiskCall) : UseProgram request.Answer :=
  usePerform (.prune keepProjectId request)

def useCall (settings : Settings) (pid depth : Nat) : (request : JobCall) → UseProgram request.Answer
  | .touch projectId => (touch settings projectId).expand cacheCall
  | .harvest projectId workDir => (harvest settings pid depth projectId workDir).expand cacheCall
  | .mounts projectId workDir => (mounts settings projectId workDir).expand cacheCall
  | .pruneAssetCache keepProjectId =>
      (prune settings depth keepProjectId).expand (pruneCall keepProjectId)
  | request => usePerform (.job request)

/-- The jobs that are run, and the processes that run them. -/
structure Crew (Run : Type) where
  settings : Settings
  jobId : Run → String
  request : Run → Request
  command : Run → String
  pid : Run → Nat
  depth : Run → Nat

def Crew.job {Run : Type} (crew : Crew Run) (run : Run) : Job where
  settings := crew.settings
  jobId := crew.jobId run
  request := crew.request run
  command := crew.command run
  endpoint _ := .build

def Crew.program {Run : Type} (crew : Crew Run) (run : Run) : UseProgram Unit :=
  (crew.job run).runFunction.expand (useCall crew.settings (crew.pid run) (crew.depth run))

/-! ## The world -/

/-- The last fields record what has happened: which projects a run has touched,
and when; what its prune has been told; and what the runs had touched when that
prune listed the projects. -/
structure UseWorld (Run : Type) where
  base : DiskWorld
  touched : Run → List (String × Int) := fun _ => []
  seen : Run → Seen := fun _ => {}
  known : Run → Run → List (String × Int) := fun _ _ => []

def presentTime (world : DiskWorld) : Int := world.clock / 1000000000

def stamp (settings : Settings) (world : DiskWorld) (projectId : String) : Int :=
  world.lastUse (root settings ++ [projectId])

/-- Time does not go back, and a stamp does so only if it was ahead of the time. -/
structure Forward (settings : Settings) (world after : DiskWorld) : Prop where
  clock : world.clock ≤ after.clock
  stamps : ∀ projectId, stamp settings world projectId ≤ stamp settings after projectId ∨
    presentTime world ≤ stamp settings after projectId

/-- What may be told of the time and the stamps. -/
def told (settings : Settings) (world : DiskWorld) :
    (request : DiskCall) → DiskReply request → DiskWorld → Prop
  | .time, .ok now, _ => now = presentTime world
  | .scandir path, .ok entries, _ => path = root settings → ∀ entry ∈ entries,
      entry.isRealDir = true → entry.mtime = stamp settings world entry.name
  | .utime path, .ok _, after => ∀ projectId, path = root settings ++ [projectId] →
      presentTime world ≤ stamp settings after projectId
  | _, _, _ => True

structure Possible (settings : Settings) (world : DiskWorld) (request : DiskCall)
    (reply : DiskReply request) (after : DiskWorld) : Prop where
  forward : Forward settings world after
  told : told settings world request reply after
  once : listsOnce request reply

def possibleUse (settings : Settings) (world : DiskWorld) :
    (request : UseCall) → UseReply request → DiskWorld → Prop
  | .job _, _, after => after = world
  | .cache request, reply, after | .prune _ request, reply, after =>
      Possible settings world request reply after

/-- The project a call stamps, and the time. -/
def touches (settings : Settings) (world : DiskWorld) :
    (request : DiskCall) → DiskReply request → List (String × Int)
  | .utime path, .ok _ => (nameIn (root settings) path).toList.map (·, presentTime world)
  | _, _ => []

def listsProjects (settings : Settings) : (request : DiskCall) → DiskReply request → Bool
  | .scandir path, .ok _ => path = root settings
  | _, _ => false

section System

variable {Run : Type} [DecidableEq Run]

def UseWorld.note (settings : Settings) (world : UseWorld Run) (run : Run) (base : DiskWorld) :
    (request : UseCall) → UseReply request → UseWorld Run
  | .job _, _ => { world with base }
  | .cache request, reply =>
      { world with
        base
        touched := Function.update world.touched run
          (world.touched run ++ touches settings world.base request reply) }
  | .prune _ request, reply =>
      { world with
        base
        seen := Function.update world.seen run
          ((world.seen run).note (root settings) request reply)
        known := if listsProjects settings request reply then
            Function.update world.known run world.touched
          else world.known }

def useStep (settings : Settings) (run : Run) (world : UseWorld Run) (request : UseCall)
    (reply : UseReply request) (after : UseWorld Run) : Prop :=
  ∃ base, possibleUse settings world.base request reply base ∧
    after = world.note settings run base request reply

def useSurroundings (settings : Settings) :
    Surroundings UseCall.Answer Raised (UseWorld Run) Run where
  machine run := { admits := fun _ _ => True, step := useStep settings run }
  drift world after := ∃ base, Forward settings world.base base ∧ after = { world with base }

abbrev UseConfiguration (Run : Type) :=
  Configuration UseCall.Answer Raised (UseWorld Run) Run fun _ => Unit

def Crew.start (crew : Crew Run) (base : DiskWorld) : UseConfiguration Run where
  world := { base }
  rest := crew.program

/-- A run uses a project from its touch to its end. -/
def Uses (reached : UseConfiguration Run) (run : Run) (projectId : String) (since : Int) : Prop :=
  (projectId, since) ∈ reached.world.touched run ∧ (reached.rest run).ended = false

/-- The run is in a prune, about to take away the directory of a project or something in it. -/
def Evicts (settings : Settings) (reached : UseConfiguration Run) (run : Run)
    (keepProjectId : Option String) (projectId : String) : Prop :=
  ∃ request next path, reached.rest run = .call (.prune keepProjectId request) next ∧
    PruneProtocol.removal request = some path ∧ root settings ++ [projectId] <+: path

end System

/-! ## What the runs keep to -/

section Protocol

variable {settings : Settings} {seen : Seen}

def usingCache (settings : Settings) : Machine UseCall.Answer Raised Seen where
  admits seen
    | .prune keepProjectId request => (pruning settings keepProjectId).admits seen request
    | _ => True
  step seen
    | .prune keepProjectId request, reply, after =>
        (pruning settings keepProjectId).step seen request reply after
    | _, _, after => after = seen

theorem cache_calls_free {Result : Type} (program : DiskProgram Result) :
    Guarantees (usingCache settings) (fun _ _ => True) seen (program.expand cacheCall) := by
  induction program with
  | done outcome => trivial
  | call request next induction =>
      refine ⟨trivial, ?_⟩
      rintro reply _ rfl
      exact induction reply

theorem prune_calls_keep (depth : Nat) (keepProjectId : Option String) :
    Guarantees (usingCache settings) (fun _ _ => True) seen
      ((prune settings depth keepProjectId).expand (pruneCall keepProjectId)) := by
  have plays : Plays (pruneCall keepProjectId) (pruning settings keepProjectId)
      (usingCache settings) Eq := by
    rintro seen _ request rfl admitted
    exact ⟨admitted, fun reply after step => ⟨after, step, rfl⟩⟩
  exact guarantees_mono _ _ (fun _ _ _ => trivial) (guarantees_expand plays _ rfl (prune_keeps depth))

theorem program_keeps {Run : Type} (crew : Crew Run) (run : Run) :
    Guarantees (usingCache crew.settings) (fun _ _ => True) seen (crew.program run) := by
  have plays : Plays (useCall crew.settings (crew.pid run) (crew.depth run))
      { admits := fun (_ : Unit) _ => True, step := fun _ _ _ _ => True }
      (usingCache crew.settings) (fun _ _ => True) := by
    intro seen _ request _ _
    have free : Guarantees (usingCache crew.settings) (fun _ _ => True) seen
        (useCall crew.settings (crew.pid run) (crew.depth run) request) := by
      unfold useCall
      split
      · exact cache_calls_free _
      · exact cache_calls_free _
      · exact cache_calls_free _
      · exact prune_calls_keep _ _
      · exact ⟨trivial, fun _ _ _ => trivial⟩
    exact guarantees_mono _ _ (fun _ _ _ => ⟨(), trivial, trivial⟩) free
  apply guarantees_mono _ _ _ (guarantees_expand plays _ trivial
    (guarantees_free (fun _ _ => trivial) () (crew.job run).runFunction))
  exact fun _ _ _ => trivial

end Protocol

/-! ## What holds in every run -/

section Runs

variable {Run : Type} [DecidableEq Run] {settings : Settings} {world : UseWorld Run}

/-- The phases are what the prunes have been told. A touch is not ahead of the
time, a stamp is not behind a touch, and a listing not behind those before it. -/
structure Dated (settings : Settings) (world : UseWorld Run) (phases : Run → Seen) : Prop where
  phases : phases = world.seen
  past : ∀ run projectId since, (projectId, since) ∈ world.touched run →
    since ≤ presentTime world.base
  stamped : ∀ run projectId since, (projectId, since) ∈ world.touched run →
    since ≤ stamp settings world.base projectId
  listed : ∀ run, ∀ project ∈ (world.seen run).listed, project.isRealDir = true →
    ∀ other since, (project.name, since) ∈ world.known run other → since ≤ project.mtime

omit [DecidableEq Run] in
theorem present_time_mono {before after : DiskWorld} (later : before.clock ≤ after.clock) :
    presentTime before ≤ presentTime after :=
  Int.ediv_le_ediv (by decide) (by omega)

omit [DecidableEq Run] in
theorem dated_forward {base : DiskWorld} {phases : Run → Seen} (dated : Dated settings world phases)
    (forward : Forward settings world.base base) : Dated settings { world with base } phases := by
  refine ⟨dated.phases, ?_, ?_, dated.listed⟩
  · intro run projectId since member
    exact (dated.past run projectId since member).trans (present_time_mono forward.clock)
  · intro run projectId since member
    rcases forward.stamps projectId with kept | present
    · exact (dated.stamped run projectId since member).trans kept
    · exact (dated.past run projectId since member).trans present

theorem member_update {touched : Run → List (String × Int)} {run other : Run}
    {more : List (String × Int)} {entry : String × Int}
    (member : entry ∈ Function.update touched run (touched run ++ more) other) :
    entry ∈ touched other ∨ entry ∈ more := by
  by_cases same : other = run
  · rw [same, Function.update_self, List.mem_append] at member
    rwa [same]
  · rw [Function.update_of_ne same] at member
    exact .inl member

omit [DecidableEq Run] in
theorem touches_told {request : DiskCall} {reply : DiskReply request} {base : DiskWorld}
    (possible : Possible settings world.base request reply base) {projectId : String} {since : Int}
    (member : (projectId, since) ∈ touches settings world.base request reply) :
    since = presentTime world.base ∧ since ≤ stamp settings base projectId := by
  unfold touches at member
  split at member
  · obtain ⟨name, named, same⟩ := List.mem_map.mp member
    cases same
    exact ⟨rfl, possible.told projectId (of_name_in (Option.mem_toList.mp named))⟩
  · cases member

theorem dated_touch {base : DiskWorld} {phases : Run → Seen} (dated : Dated settings world phases)
    (run : Run) (request : DiskCall) (reply : DiskReply request)
    (possible : Possible settings world.base request reply base) :
    Dated settings (world.note settings run base (.cache request) reply) phases := by
  have moved := dated_forward dated possible.forward
  refine ⟨dated.phases, ?_, ?_, dated.listed⟩
  · intro other projectId since member
    rcases member_update member with before | now
    · exact moved.past other projectId since before
    · rw [(touches_told possible now).1]
      exact present_time_mono possible.forward.clock
  · intro other projectId since member
    rcases member_update member with before | now
    · exact moved.stamped other projectId since before
    · exact (touches_told possible now).2

theorem note_listed {seen : Seen} {request : DiskCall} {reply : DiskReply request}
    (other : listsProjects settings request reply = false) :
    (seen.note (root settings) request reply).listed = seen.listed := by
  cases request <;> cases reply <;> first | rfl | skip
  simp only [listsProjects, decide_eq_false_iff_not] at other
  simp [Seen.note, other]

omit [DecidableEq Run] in
theorem listed_told {seen : Seen} {request : DiskCall} {reply : DiskReply request}
    {base : DiskWorld} (lists : listsProjects settings request reply = true)
    (told : told settings world.base request reply base) {project : DirEntry}
    (member : project ∈ (seen.note (root settings) request reply).listed)
    (real : project.isRealDir = true) : project.mtime = stamp settings world.base project.name := by
  cases request
  case scandir path =>
      cases reply with
      | error raised => cases lists
      | ok entries =>
          have same : path = root settings := of_decide_eq_true lists
          rw [Seen.note, if_pos same] at member
          exact told same project member real
  all_goals cases lists

theorem dated_prune {base : DiskWorld} (dated : Dated settings world world.seen) (run : Run)
    (keepProjectId : Option String) (request : DiskCall) (reply : DiskReply request)
    (possible : Possible settings world.base request reply base) :
    Dated settings (world.note settings run base (.prune keepProjectId request) reply)
      (Function.update world.seen run ((world.seen run).note (root settings) request reply)) := by
  have moved := dated_forward dated possible.forward
  refine ⟨rfl, moved.past, moved.stamped, ?_⟩
  intro looking project member real other since known
  change project ∈ (Function.update world.seen run _ looking).listed at member
  change (project.name, since) ∈ (if listsProjects settings request reply then
    Function.update world.known run world.touched else world.known) looking other at known
  by_cases lists : listsProjects settings request reply = true
  · rw [if_pos lists] at known
    by_cases same : looking = run
    · subst same
      rw [Function.update_self] at member known
      rw [listed_told lists possible.told member real]
      exact dated.stamped other project.name since known
    · rw [Function.update_of_ne same] at member known
      exact dated.listed looking project member real other since known
  · rw [if_neg lists] at known
    by_cases same : looking = run
    · subst same
      rw [Function.update_self, note_listed (by simpa using lists)] at member
      exact dated.listed looking project member real other since known
    · rw [Function.update_of_ne same] at member
      exact dated.listed looking project member real other since known

theorem cache_upheld (settings : Settings) :
    Upholds (@useSurroundings Run _ settings) (fun _ => usingCache settings)
      (Dated settings) where
  act world phases run request reply after dated _ step := by
    obtain ⟨base, possible, rfl⟩ := step
    obtain rfl := dated.phases
    cases request with
    | job request =>
        refine ⟨world.seen run, rfl, ?_⟩
        obtain rfl : base = world.base := possible
        rw [Function.update_eq_self]
        exact dated
    | cache request =>
        refine ⟨world.seen run, rfl, ?_⟩
        rw [Function.update_eq_self]
        exact dated_touch dated run request reply possible
    | prune keepProjectId request =>
        exact ⟨_, ⟨rfl, possible.once⟩, dated_prune dated run keepProjectId request reply possible⟩
  drift world phases after dated drifts := by
    obtain ⟨base, forward, rfl⟩ := drifts
    exact dated_forward dated forward

/-- A project in use goes by the budget only when the prune has found it used
after the touch, what is left is too large, and everything used before it is gone. -/
def LastInLine (settings : Settings) (seen : Seen) (keepProjectId : Option String)
    (projectId : String) (since : Int) : Prop :=
  0 < settings.assetCacheMaxBytes ∧ settings.assetCacheMaxBytes < seen.left ∧
    ∃ project ∈ seen.listed, project.name = projectId ∧ since ≤ project.mtime ∧
      seen.LeastRecent keepProjectId project

/-- A prune takes away a project another run is using only if it has listed the
projects before that run's touch, or the touch was longer ago than the age limit
when it began, or the sizes it has found for what is left exceed the budget and it
has taken away all that was used before. The project it is to keep it never takes
away. -/
theorem used_cache_evicted_only (crew : Crew Run) (base : DiskWorld)
    (reached : UseConfiguration Run)
    (reaches : Reaches (useSurroundings crew.settings) (crew.start base) reached)
    (run other : Run) (keepProjectId : Option String) (projectId : String) (since : Int)
    (uses : Uses reached other projectId since)
    (evicts : Evicts crew.settings reached run keepProjectId projectId) :
    keepProjectId ≠ some projectId ∧
      ((projectId, since) ∉ reached.world.known run other ∨
        since + crew.settings.assetCacheMaxAge < (reached.world.seen run).now ∨
        LastInLine crew.settings (reached.world.seen run) keepProjectId projectId since) := by
  have start : Dated crew.settings (crew.start base).world fun _ => {} := by
    constructor
    · rfl
    · nofun
    · nofun
    · nofun
  have keepsAtStart : Keeps (fun _ : Run => usingCache crew.settings) (fun _ _ _ => True) (fun _ => {})
      (crew.start base) := fun run => program_keeps crew run
  obtain ⟨phases, dated, keeps⟩ :=
    keeps_reaches (cache_upheld crew.settings) _ start keepsAtStart reaches
  obtain ⟨request, next, path, calls, removes, within⟩ := evicts
  have owed := keeps run
  rw [calls, dated.phases] at owed
  obtain ⟨project, evictable, under⟩ := owed.1 path removes
  have named : project.name = projectId := by
    have shorter : root crew.settings ++ [project.name] <+: root crew.settings ++ [projectId] :=
      List.prefix_of_prefix_length_le under within (by simp)
    simpa using shorter.eq_of_length (by simp)
  subst named
  refine ⟨evictable.other, ?_⟩
  by_cases known : (project.name, since) ∈ reached.world.known run other
  · have before := dated.listed run project evictable.listed evictable.real other since known
    rcases evictable.due with old | ⟨limited, past, leastRecent⟩
    · exact .inr (.inl (by omega))
    · exact .inr (.inr ⟨limited, past, project, evictable.listed, rfl, before, leastRecent⟩)
  · exact .inl known

end Runs

/-! ## Answers of a disk -/

/-- The calls that depend on where a path leads find no link on the way. -/
def looksStraight (world : DiskWorld) : DiskCall → Bool
  | .scandir path | .utime path => world.drive.disk.hasNoLink path
  | _ => true

theorem stamps_forward {settings : Settings} {world after : DiskWorld}
    (clock : world.clock ≤ after.clock) (stamps : after.lastUse = world.lastUse) :
    Forward settings world after := by
  refine ⟨clock, ?_⟩
  intro projectId
  exact .inl (le_of_eq (congrFun stamps.symm _))

theorem on_disk_lists {world : DiskWorld} {path : Path} {entries : List DirEntry}
    (clear : world.drive.disk.Unlinked path) (listed : world.scandir path = .ok entries) :
    entries = (world.drive.disk.names path).map (world.describe path) := by
  unfold DiskWorld.scandir at listed
  rw [locate_unlinked clear] at listed
  split at listed
  · rename_i dir located
    rw [Option.ite_none_right_eq_some, Option.some_inj] at located
    rw [← located.2] at listed
    split at listed
    · cases listed
      rfl
    · cases listed
  · cases listed

theorem on_disk_stamps {world : DiskWorld} {path : Path} (clear : world.drive.disk.Unlinked path)
    (stamped : (onDisk world (.utime path)).1 = .ok ()) :
    (onDisk world (.utime path)).2.lastUse path = presentTime world := by
  simp only [onDisk] at stamped ⊢
  rw [locate_unlinked clear] at stamped ⊢
  split at stamped
  · rename_i place located
    rw [Option.ite_none_right_eq_some, Option.some_inj] at located
    rw [← located.2]
    dsimp only
    rw [Function.update_self, presentTime]
  · cases stamped

theorem utime_forward (settings : Settings) (world : DiskWorld) (path : Path) :
    Forward settings world (onDisk world (.utime path)).2 := by
  simp only [onDisk]
  split
  · rename_i place located
    refine ⟨le_rfl, ?_⟩
    intro projectId
    by_cases this : root settings ++ [projectId] = place
    · right
      rw [stamp, this]
      dsimp only
      rw [Function.update_self, presentTime]
    · left
      exact le_of_eq (Function.update_of_ne this _ _).symm
  · exact stamps_forward le_rfl rfl

theorem on_disk_possible (settings : Settings) (world : DiskWorld) (request : DiskCall)
    (straight : looksStraight world request = true) :
    Possible settings world request (onDisk world request).1 (onDisk world request).2 := by
  cases request
  case scandir path =>
      have clear := unlinked_of_no_link straight
      refine ⟨stamps_forward le_rfl rfl, ?_, ?_⟩
      · cases listed : world.scandir path with
        | error raised => simp only [onDisk, listed]; trivial
        | ok entries =>
            simp only [onDisk, listed]
            rintro rfl entry member -
            rw [on_disk_lists clear listed] at member
            obtain ⟨name, -, rfl⟩ := List.mem_map.mp member
            rfl
      · cases listed : world.scandir path with
        | error raised => simp only [onDisk, listed]; trivial
        | ok entries =>
            simp only [onDisk, listed]
            change (entries.map DirEntry.name).Nodup
            rw [on_disk_lists clear listed, List.map_map]
            exact (List.map_id _).symm ▸ names_nodup path
  case utime path =>
      refine ⟨utime_forward settings world path, ?_, ?_⟩
      · cases stamped : (onDisk world (.utime path)).1 with
        | error raised => trivial
        | ok value =>
            rintro projectId rfl
            exact le_of_eq (on_disk_stamps (unlinked_of_no_link straight) stamped).symm
      · trivial
  case timeNs => exact ⟨stamps_forward (Nat.le_succ _) rfl, trivial, trivial⟩
  case time => exact ⟨stamps_forward le_rfl rfl, rfl, trivial⟩
  case fileSize path | readFile path =>
      simp only [onDisk]
      split <;> exact ⟨stamps_forward le_rfl rfl, trivial, trivial⟩
  all_goals exact ⟨stamps_forward le_rfl rfl, trivial, trivial⟩

/-! ## Runs in which a project in use is evicted -/

/-- The record of one job names a project; the other job has been cancelled. -/
def jobAnswer (builds : Bool) : (request : JobCall) → JobReply request
  | .hgetall _ => .ok (some
      (if builds then { projectId := some "p" } else { cancelRequested := some true }))
  | request => (obliging .persistent { clock := 0 } request).1

def useAnswer (settings : Settings) (run : Bool) :
    Handler UseCall.Answer Raised (UseWorld Bool)
  | world, .job request =>
      (jobAnswer run request, world.note settings run world.base (.job request) (jobAnswer run request))
  | world, .cache request =>
      let answered := onDisk world.base request
      (answered.1, world.note settings run answered.2 (.cache request) answered.1)
  | world, .prune keepProjectId request =>
      let answered := onDisk world.base request
      (answered.1, world.note settings run answered.2 (.prune keepProjectId request) answered.1)

def answersStraight (world : UseWorld Bool) (_ : Bool) : UseCall → Bool
  | .job _ => true
  | .cache request | .prune _ request => looksStraight world.base request

theorem use_answer_step (settings : Settings) (world : UseWorld Bool) (run : Bool)
    (request : UseCall) (straight : answersStraight world run request = true) :
    useStep settings run world request (useAnswer settings run world request).1
      (useAnswer settings run world request).2 := by
  cases request with
  | job request => exact ⟨world.base, rfl, rfl⟩
  | cache request => exact ⟨_, on_disk_possible settings world.base request straight, rfl⟩
  | prune keepProjectId request =>
      exact ⟨_, on_disk_possible settings world.base request straight, rfl⟩

/-- One project with one figure of two bytes. -/
def figured : DiskWorld where
  drive := {
    disk := Disk.ofList [
      (["data"], .directory), (["data", "asset-cache"], .directory),
      (["data", "asset-cache", "p"], .directory),
      (["data", "asset-cache", "p", "latex-image"], .directory),
      (["data", "asset-cache", "p", "latex-image", "figure"], .file [1, 2])]
    changed := [] }
  clock := 0
  lastUse := fun _ => 0

def smallCrew (assetCacheMaxBytes : Int) : Crew Bool where
  settings :=
    { defaults with
      hostDataDir := some ["host"], assetCacheTypes := ["latex-image"], assetCacheMaxAge := 1,
      assetCacheMaxBytes }
  jobId := fun builds => if builds then "j" else "k"
  request := fun _ => .build "web" none none none none
  command := fun _ => "pretext build web"
  pid := fun _ => 7
  depth := fun _ => 4

def smallRun (crew : Crew Bool) (order : List Bool) (start : UseConfiguration Bool) :
    UseConfiguration Bool :=
  playBy answersStraight (useAnswer crew.settings) order start

theorem small_run_reaches (crew : Crew Bool) (order : List Bool) (start : UseConfiguration Bool) :
    Reaches (useSurroundings crew.settings) start (smallRun crew order start) := by
  apply play_by_reaches
  exact fun world run request straight => use_answer_step crew.settings world run request straight

def takesAway (settings : Settings) (reached : UseConfiguration Bool) : Bool :=
  match reached.rest false with
  | .call (.prune none (.rmdir path)) _ => path = root settings ++ ["p"]
  | _ => false

theorem evicts_of_check {settings : Settings} {reached : UseConfiguration Bool}
    (checked : takesAway settings reached = true) : Evicts settings reached false none "p" := by
  unfold takesAway at checked
  split at checked
  · rename_i path next waiting
    exact ⟨.rmdir path, next, path, waiting, rfl, by rw [of_decide_eq_true checked]⟩
  · cases checked

/-- The first job is still at work when the other one takes the project away. -/
def usedAndEvicted (settings : Settings) (since : Int) (reached : UseConfiguration Bool) : Bool :=
  ("p", since) ∈ reached.world.touched true && !(reached.rest true).ended &&
    takesAway settings reached

theorem used_of_check {settings : Settings} {since : Int} {reached : UseConfiguration Bool}
    (checked : usedAndEvicted settings since reached = true) :
    Uses reached true "p" since ∧ Evicts settings reached false none "p" := by
  rw [usedAndEvicted, Bool.and_eq_true, Bool.and_eq_true, decide_eq_true_eq, Bool.not_eq_true'] at checked
  exact ⟨checked.1, evicts_of_check checked.2⟩

def overBudget : UseConfiguration Bool :=
  smallRun (smallCrew 1) (List.replicate 7 true ++ List.replicate 17 false)
    ((smallCrew 1).start figured)

theorem over_budget_checked : usedAndEvicted (smallCrew 1).settings 0 overBudget = true := by
  decide +kernel

theorem over_budget_evicts :
    none ≠ some "p" ∧ (("p", 0) ∉ overBudget.world.known false true ∨
      0 + (smallCrew 1).settings.assetCacheMaxAge < (overBudget.world.seen false).now ∨
      LastInLine (smallCrew 1).settings (overBudget.world.seen false) none "p" 0) :=
  used_cache_evicted_only (smallCrew 1) figured overBudget (small_run_reaches _ _ _) false true none
    "p" 0 (used_of_check over_budget_checked).1 (used_of_check over_budget_checked).2

def aged : DiskWorld := { figured with clock := 10000000000 }

def lateTouch : UseConfiguration Bool :=
  smallRun (smallCrew 0) (List.replicate 9 false ++ List.replicate 7 true ++ List.replicate 4 false)
    ((smallCrew 0).start aged)

def longUse : UseConfiguration Bool :=
  let touched := smallRun (smallCrew 0) (List.replicate 7 true) ((smallCrew 0).start figured)
  { touched with
    world := { touched.world with base := { touched.world.base with clock := 10000000000 } } }

theorem long_use_reached :
    Reaches (useSurroundings (smallCrew 0).settings) ((smallCrew 0).start figured) longUse := by
  apply Relation.ReflTransGen.tail (small_run_reaches (smallCrew 0) (List.replicate 7 true) _)
  apply Move.drift
  have clock : (smallRun (smallCrew 0) (List.replicate 7 true)
      ((smallCrew 0).start figured)).world.base.clock ≤ aged.clock := by decide +kernel
  exact ⟨{ (smallRun (smallCrew 0) (List.replicate 7 true) ((smallCrew 0).start figured)).world.base with
    clock := aged.clock }, stamps_forward clock rfl, rfl⟩

/-- No project is taken away while a job is using it. -/
def StaysWhileUsed (crew : Crew Bool) (base : DiskWorld) : Prop :=
  ∀ reached, Reaches (useSurroundings crew.settings) (crew.start base) reached →
    ∀ run other keepProjectId projectId since, run ≠ other → Uses reached other projectId since →
      ¬ Evicts crew.settings reached run keepProjectId projectId

theorem taken_while_used {crew : Crew Bool} {base : DiskWorld} {since : Int}
    {reached : UseConfiguration Bool}
    (reaches : Reaches (useSurroundings crew.settings) (crew.start base) reached)
    (checked : usedAndEvicted crew.settings since reached = true) : ¬ StaysWhileUsed crew base := by
  intro stays
  obtain ⟨uses, evicts⟩ := used_of_check checked
  exact stays reached reaches false true none "p" since (by decide) uses evicts

/-- By the budget, by a listing that is out of date, and by age. -/
theorem used_cache_evicted :
    (¬ ∀ (crew : Crew Bool) (base : DiskWorld), 1 ≤ crew.settings.assetCacheMaxAge →
      StaysWhileUsed crew base) ∧
      ¬ StaysWhileUsed (smallCrew 0) aged ∧ ¬ StaysWhileUsed (smallCrew 0) figured := by
  refine ⟨?_, ?_, ?_⟩
  · intro stays
    exact taken_while_used (small_run_reaches _ _ _) over_budget_checked
      (stays (smallCrew 1) figured (by decide))
  · have checked : usedAndEvicted (smallCrew 0).settings 10 lateTouch = true := by decide +kernel
    exact taken_while_used (small_run_reaches _ _ _) checked
  · have checked : usedAndEvicted (smallCrew 0).settings 0
        (smallRun (smallCrew 0) (List.replicate 13 false) longUse) = true := by decide +kernel
    exact taken_while_used (long_use_reached.trans (small_run_reaches _ _ _)) checked

end PretextBuildServer.CacheUse
