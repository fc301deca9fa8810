import PretextBuildServer.Library.InterleavedParties

/-!
# Updating the image that builds run in

`scripts/update_warm_image.sh` as a program of calls to the Docker daemon. The
worker starts containers from whatever the tag `:warm` names, so what matters is
which images that tag and `:warm-previous` can ever name. Runs come one after
the other, each may be cut off anywhere, and the operator may roll back or build
`:warm` by hand at any time.
-/

namespace PretextBuildServer.WarmImage

open EffectProgram EffectProgram.Program InterleavedParties

set_option autoImplicit false

/-! ## The script -/

inductive Tag where
  | warm
  | candidate
  | previous
  deriving DecidableEq, Repr

/-- The environment of a run; a variable that is not set is empty. -/
abbrev Environment := String → String

/-- `${VARIABLE:-default}` -/
def orDefault (value default : String) : String := if value = "" then default else value

/-- `docker run` on a copy of a sample project. -/
structure SmokeTest where
  project : String
  network : String
  memory : String
  pidsLimit : String
  capDrop : String
  securityOpt : String
  timeout : String
  command : String
  deriving DecidableEq

def seedLatexPackages : String :=
  "if [ -d ~/.ptx/latex-packages ]; then mkdir -p generated-assets/latex-packages && " ++
    "cp -r ~/.ptx/latex-packages/. generated-assets/latex-packages/; fi"

def smokeTestTarget (getenv : Environment) (project target : String) : SmokeTest where
  project := project
  network := "none"
  memory := orDefault (getenv "BUILD_MEM_LIMIT") "2g"
  pidsLimit := orDefault (getenv "BUILD_PIDS_LIMIT") "512"
  capDrop := "ALL"
  securityOpt := "no-new-privileges"
  timeout := orDefault (getenv "BUILD_TIMEOUT") "600"
  command := seedLatexPackages ++ "; pretext build " ++ target

def smokeTestGenerate (getenv : Environment) (project target : String) : SmokeTest where
  project := project
  network := "none"
  memory := orDefault (getenv "GENERATE_MEM_LIMIT") "1g"
  pidsLimit := orDefault (getenv "GENERATE_PIDS_LIMIT") "256"
  capDrop := "ALL"
  securityOpt := "no-new-privileges"
  timeout := orDefault (getenv "GENERATE_TIMEOUT") "120"
  command := "pretext generate -t " ++ target

def smokeTests (getenv : Environment) : List SmokeTest :=
  [smokeTestTarget getenv "sample" "web", smokeTestTarget getenv "sample" "print",
    smokeTestTarget getenv "sample-journal" "print",
    smokeTestGenerate getenv "sample-generate" "web"]

/-- Getting the sample projects ready. -/
inductive Preparation where
  | makeTmpRoot
  | copySample (project : String)
  | openToAll
  deriving DecidableEq

def preparations : List Preparation :=
  [.makeTmpRoot, .copySample "sample", .copySample "sample-journal",
    .copySample "sample-generate", .openToAll]

inductive HostCall where
  | pull
  | build (pretextVersion : String)
  | candidateVersion
  | prepare (preparation : Preparation)
  | smokeTest (test : SmokeTest)
  | inspect (tag : Tag)
  | tag (source target : Tag)
  | rmi (tag : Tag)
  | imagePrune
  deriving DecidableEq

/-- All but one are only known to have gone through or not. -/
abbrev HostCall.Answer : HostCall → Type
  | .candidateVersion => String
  | _ => Unit

/-- A command that fails does so with an exit status. -/
abbrev HostReply (request : HostCall) : Type := Reply HostCall.Answer Nat request

abbrev HostProgram (Result : Type) : Type := Program HostCall.Answer Nat Result

def hostCall (request : HostCall) : HostProgram (HostCall.Answer request) := perform request

def exit {Result : Type} (status : Nat) : HostProgram Result := raise status

/-- A command in a condition, where `set -e` does not end the script. -/
def succeeds (request : HostCall) : HostProgram Bool :=
  (hostCall request).andThen fun
    | .ok _ => return true
    | .error _ => return false

/-- Tests joined by `&&`. -/
def allPass : List SmokeTest → HostProgram Bool
  | [] => return true
  | test :: rest => do
      if ← succeeds (.smokeTest test) then allPass rest else return false

/-- The check that a pinned version is the one that was installed. -/
def checkVersion (version : String) : HostProgram Unit :=
  if version = "" then pure ()
  else do
    let actualVersion : String ← hostCall .candidateVersion
    if actualVersion = version then pure () else exit 1

def testAndPromote (getenv : Environment) : HostProgram Unit := do
  if ← allPass (smokeTests getenv) then pure () else exit 1
  if ← succeeds (.inspect .warm) then hostCall (.tag .warm .previous) else pure ()
  hostCall (.tag .candidate .warm)
  let _ ← succeeds (.rmi .candidate)
  hostCall .imagePrune

def updateWarmImage (getenv : Environment) : HostProgram Unit := do
  hostCall .pull
  let pretextVersion := getenv "PRETEXT_VERSION"
  hostCall (.build pretextVersion)
  checkVersion pretextVersion
  preparations.forM fun preparation => hostCall (.prepare preparation)
  testAndPromote getenv

/-! ## What the daemon may do -/

inductive Check where
  | version (text : String)
  | smoke (test : SmokeTest)
  deriving DecidableEq

/-- What a run has to see pass before it promotes. -/
def requiredChecks (getenv : Environment) : List Check :=
  (if getenv "PRETEXT_VERSION" = "" then [] else [.version (getenv "PRETEXT_VERSION")]) ++
    (smokeTests getenv).map .smoke

/-- The tags, the run under way, and what has happened: the checks that passed,
each with its run and the image that passed it, and the images built by hand. -/
structure Registry (Image : Type) where
  images : Tag → Option Image
  latest : Option Nat
  passed : List (Nat × Image × Check)
  byHand : List Image

section Host

variable {Image : Type}

/-- The tags as they were, or with this change. -/
def Retags (registry : Registry Image) (target : Tag) (named : Option Image)
    (after : Registry Image) : Prop :=
  after = { registry with images := Function.update registry.images target named }

theorem retags_here {registry after : Registry Image} {target : Tag} {named : Option Image}
    (retags : Retags registry target named after) : after.images target = named := by
  rw [retags]
  exact Function.update_self ..

theorem retags_other {registry after : Registry Image} {target tag : Tag} {named : Option Image}
    (retags : Retags registry target named after) (apart : tag ≠ target) :
    after.images tag = registry.images tag := by
  rw [retags]
  exact Function.update_of_ne apart ..

/-- A change that is made if the call goes through and may be made if it does
not. -/
def Attempts {Value State : Type} (before : State) (change : State → Prop)
    (reply : Except Nat Value) (after : State) : Prop :=
  change after ∨ ((∃ status, reply = .error status) ∧ after = before)

/-- A container of the candidate that passes a check. -/
def Passes (registry : Registry Image) (run : Nat) (check : Check) (after : Registry Image) : Prop :=
  ∃ image, registry.images .candidate = some image ∧
    after = { registry with passed := (run, image, check) :: registry.passed }

/-- A run begins when all before it are over. -/
def Begins (registry : Registry Image) (run : Nat) (after : Registry Image) : Prop :=
  (∀ other, registry.latest = some other → other < run) ∧
    after = { registry with latest := some run }

/-- One call of a run that is under way. -/
def callStep (run : Nat) (registry : Registry Image) :
    (request : HostCall) → HostReply request → Registry Image → Prop
  | .build _, reply, after =>
      Attempts registry (fun after => ∃ image, Retags registry .candidate (some image) after)
        reply after
  | .candidateVersion, .ok (text : String), after => Passes registry run (.version text) after
  | .smokeTest test, .ok _, after => Passes registry run (.smoke test) after
  | .inspect tag, .ok _, after => registry.images tag ≠ none ∧ after = registry
  | .tag source target, reply, after =>
      Attempts registry (fun after => ∃ image, registry.images source = some image ∧
        Retags registry target (some image) after) reply after
  | .rmi tag, reply, after => Attempts registry (Retags registry tag none) reply after
  | _, _, after => after = registry

/-- One run at a time: a call is answered only to the latest. -/
def hostStep (run : Nat) (registry : Registry Image) :
    (request : HostCall) → HostReply request → Registry Image → Prop
  | .pull, _, after => Begins registry run after
  | request, reply, after => registry.latest = some run ∧ callStep run registry request reply after

/-- What the operator may do meanwhile: roll back, or `make warm-image`. -/
inductive Operates (registry : Registry Image) : Registry Image → Prop where
  | rollback (image : Image) (after : Registry Image)
      (kept : registry.images .previous = some image)
      (retags : Retags registry .warm (some image) after) : Operates registry after
  | warmImage (image : Image) (after : Registry Image)
      (retags : Retags { registry with byHand := image :: registry.byHand } .warm (some image)
        after) : Operates registry after

/-- Nobody acts in place of the script. -/
def hostMachine (run : Nat) : Machine HostCall.Answer Nat (Registry Image) where
  admits _ _ := True
  step := hostStep run

def dockerHost : Surroundings HostCall.Answer Nat (Registry Image) Nat where
  machine := hostMachine
  drift := Operates

abbrev HostConfiguration (Image : Type) :=
  Configuration HostCall.Answer Nat (Registry Image) Nat fun _ => Unit

/-- Runs without end, each in an environment of its own. -/
def startRuns (images : Tag → Option Image) (getenv : Nat → Environment) :
    HostConfiguration Image where
  world := { images := images, latest := none, passed := [], byHand := [] }
  rest run := updateWarmImage (getenv run)

end Host

/-! ## What a run keeps to -/

/-- Where a run is, once it has begun: it is testing, has found no `:warm` to
keep, has kept it, or has promoted the candidate. -/
inductive Stage where
  | testing
  | absent
  | kept
  | promoted
  deriving DecidableEq

/-- The checks a run has seen pass since it built the candidate. -/
structure Progress where
  checks : List Check
  stage : Stage

def unbegun : Progress := ⟨[], .testing⟩

def Tested (getenv : Environment) (progress : Progress) : Prop :=
  ∀ check ∈ requiredChecks getenv, check ∈ progress.checks

def runAdmits (getenv : Environment) (progress : Progress) : HostCall → Prop
  | .pull | .build _ => progress = unbegun
  | .candidateVersion | .prepare _ | .smokeTest _ => progress.stage = .testing
  | .inspect tag => tag = .warm ∧ progress.stage = .testing
  | .tag .warm .previous => Tested getenv progress ∧ progress.stage = .testing
  | .tag .candidate .warm =>
      Tested getenv progress ∧ (progress.stage = .absent ∨ progress.stage = .kept)
  | .tag .. => False
  | .rmi tag => tag = .candidate ∧ progress.stage = .promoted
  | .imagePrune => True

def runStep (progress : Progress) :
    (request : HostCall) → HostReply request → Progress → Prop
  | .candidateVersion, .ok (text : String), next =>
      next = { progress with checks := .version text :: progress.checks }
  | .smokeTest test, .ok _, next =>
      next = { progress with checks := .smoke test :: progress.checks }
  | .inspect _, .error _, next => next = { progress with stage := .absent }
  | .tag .warm .previous, reply, next =>
      Attempts progress (· = { progress with stage := .kept }) reply next
  | .tag .candidate .warm, reply, next =>
      Attempts progress (· = { progress with stage := .promoted }) reply next
  | _, _, next => next = progress

def runProtocol (getenv : Environment) : Machine HostCall.Answer Nat Progress where
  admits := runAdmits getenv
  step := runStep

/-- Only a promotion ends well. -/
def RunEnded (progress : Progress) (outcome : Except Nat Unit) : Prop :=
  outcome = .ok () → progress.stage = .promoted

section Script

variable (getenv : Environment)

theorem version_checked (version : String) :
    Guarantees (runProtocol getenv)
      (fun after outcome => after.stage = .testing ∧
        (outcome = .ok () → version ≠ "" → .version version ∈ after.checks))
      unbegun (checkVersion version) := by
  unfold checkVersion
  split
  · rename_i unset
    exact ⟨rfl, fun _ pinned => absurd unset pinned⟩
  · refine ⟨rfl, fun (reply : Except Nat String) after step => ?_⟩
    cases reply with
    | error status =>
        rw [show after = unbegun from step]
        exact ⟨rfl, nofun⟩
    | ok text =>
        rw [show after = { unbegun with checks := .version text :: unbegun.checks } from step]
        change Guarantees _ _ _ (if text = version then pure () else exit 1)
        by_cases same : text = version
        · rw [if_pos same, ← same]
          exact ⟨rfl, fun _ _ => List.mem_cons_self⟩
        · rw [if_neg same]
          exact ⟨rfl, nofun⟩

theorem tests_passed (tests : List SmokeTest) (progress : Progress)
    (testing : progress.stage = .testing) :
    Guarantees (runProtocol getenv)
      (fun after outcome => after.stage = .testing ∧ progress.checks ⊆ after.checks ∧
        ∃ all, outcome = .ok all ∧ (all = true → ∀ test ∈ tests, .smoke test ∈ after.checks))
      progress (allPass tests) := by
  induction tests generalizing progress with
  | nil => exact ⟨testing, List.Subset.refl _, true, rfl, fun _ test listed => by cases listed⟩
  | cons test rest induction =>
      refine ⟨testing, fun reply after step => ?_⟩
      cases reply with
      | error status =>
          rw [show after = progress from step]
          exact ⟨testing, List.Subset.refl _, false, rfl, nofun⟩
      | ok _ =>
          have now : after = { progress with checks := .smoke test :: progress.checks } := step
          subst now
          refine guarantees_mono _ _ ?_ (induction _ testing)
          rintro later _ ⟨still, seen, all, rfl, passed⟩
          refine ⟨still, fun check earlier => seen (List.mem_cons_of_mem _ earlier), all, rfl, ?_⟩
          intro every other listed
          rcases List.mem_cons.mp listed with rfl | further
          · exact seen List.mem_cons_self
          · exact passed every other further

theorem promotion_follows (progress : Progress) (tested : Tested getenv progress)
    (testing : progress.stage = .testing) :
    Guarantees (runProtocol getenv) RunEnded progress (do
      if ← succeeds (.inspect .warm) then hostCall (.tag .warm .previous) else pure ()
      hostCall (.tag .candidate .warm)
      let _ ← succeeds (.rmi .candidate)
      hostCall .imagePrune) := by
  have promotes : ∀ middle : Progress, Tested getenv middle →
      (middle.stage = .absent ∨ middle.stage = .kept) →
      Guarantees (runProtocol getenv) RunEnded middle (do
        hostCall (.tag .candidate .warm)
        let _ ← succeeds (.rmi .candidate)
        hostCall .imagePrune) := by
    intro middle tested ready
    refine ⟨⟨tested, ready⟩, fun reply after step => ?_⟩
    cases reply with
    | error status => exact fun ended => nomatch ended
    | ok _ =>
        rcases step with rfl | ⟨⟨status, impossible⟩, -⟩
        · refine ⟨⟨rfl, rfl⟩, fun removed later same => ?_⟩
          rw [show later = { middle with stage := .promoted } from same]
          cases removed <;>
            exact ⟨trivial, fun pruned last same _ => by rw [show last = _ from same]⟩
        · cases impossible
  refine ⟨⟨rfl, testing⟩, fun found after step => ?_⟩
  cases found with
  | error status =>
      have now : after = { progress with stage := .absent } := step
      subst now
      exact promotes _ tested (.inl rfl)
  | ok _ =>
      rw [show after = progress from step]
      refine ⟨⟨tested, testing⟩, fun reply later step => ?_⟩
      cases reply with
      | error status => exact fun ended => nomatch ended
      | ok _ =>
          rcases step with rfl | ⟨⟨status, impossible⟩, -⟩
          · exact promotes _ tested (.inr rfl)
          · cases impossible

theorem tests_then_promotion (progress : Progress) (testing : progress.stage = .testing)
    (pinned : getenv "PRETEXT_VERSION" ≠ "" →
      .version (getenv "PRETEXT_VERSION") ∈ progress.checks) :
    Guarantees (runProtocol getenv) RunEnded progress (testAndPromote getenv) := by
  unfold testAndPromote
  refine guarantees_seq _ _ _ (tests_passed getenv (smokeTests getenv) progress testing) ?_
  rintro after _ ⟨still, seen, all, rfl, passed⟩
  cases all with
  | false => exact fun ended => nomatch ended
  | true =>
      refine promotion_follows getenv after ?_ still
      intro check required
      rcases List.mem_append.mp required with version | smoke
      · split at version
        · cases version
        · rename_i set
          rw [List.mem_singleton.mp version]
          exact seen (pinned set)
      · obtain ⟨test, listed, rfl⟩ := List.mem_map.mp smoke
        exact passed rfl test listed

theorem script_follows :
    Guarantees (runProtocol getenv) RunEnded unbegun (updateWarmImage getenv) := by
  refine ⟨rfl, fun pulled after step => ?_⟩
  rw [show after = unbegun from step]
  cases pulled with
  | error status => exact fun ended => nomatch ended
  | ok _ =>
      refine ⟨rfl, fun built after step => ?_⟩
      rw [show after = unbegun from step]
      cases built with
      | error status => exact fun ended => nomatch ended
      | ok _ =>
          simp only [done_and_then]
          refine guarantees_seq _ _ _ (version_checked getenv (getenv "PRETEXT_VERSION")) ?_
          rintro checked outcome ⟨testing, pinned⟩
          cases outcome with
          | error status => exact fun ended => nomatch ended
          | ok _ =>
              refine guarantees_seq _ _ _ (guarantees_for (fun after => after = checked) _ _ ?_
                checked rfl) ?_
              · rintro _ preparation - rfl
                exact ⟨testing, fun reply after step => step⟩
              · rintro _ (status | _) rfl
                · exact fun ended => nomatch ended
                · exact tests_then_promotion getenv _ testing (pinned rfl)

end Script

/-! ## Every history of runs -/

section Histories

variable {Image : Type}

/-- Every check a run requires has passed in it, on this image. -/
def Vetted (getenv : Environment) (run : Nat) (image : Image)
    (passed : List (Nat × Image × Check)) : Prop :=
  ∀ check ∈ requiredChecks getenv, (run, image, check) ∈ passed

/-- How an image can have come to be served. -/
def AccountedFor (images : Tag → Option Image) (getenv : Nat → Environment)
    (registry : Registry Image) (image : Image) : Prop :=
  images .warm = some image ∨ images .previous = some image ∨ image ∈ registry.byHand ∨
    ∃ run, Vetted (getenv run) run image registry.passed

/-- The candidate is the image the latest run has seen pass its checks. -/
def SeenOnCandidate (registry : Registry Image) (progress : Nat → Progress) : Prop :=
  ∀ run, registry.latest = some run → ∀ image, registry.images .candidate = some image →
    ∀ check ∈ (progress run).checks, (run, image, check) ∈ registry.passed

structure Vouched (images : Tag → Option Image) (getenv : Nat → Environment)
    (registry : Registry Image) (progress : Nat → Progress) : Prop where
  warm : ∀ image, registry.images .warm = some image → AccountedFor images getenv registry image
  previous : ∀ image, registry.images .previous = some image →
    AccountedFor images getenv registry image
  seen : SeenOnCandidate registry progress

variable {images : Tag → Option Image} {getenv : Nat → Environment}
  {registry after : Registry Image} {progress : Nat → Progress}

theorem vetted_mono {run : Nat} {image : Image} {passed more : List (Nat × Image × Check)}
    (grown : passed ⊆ more) (vetted : Vetted (getenv run) run image passed) :
    Vetted (getenv run) run image more :=
  fun check required => grown (vetted check required)

theorem accounted_mono {image : Image} (passed : registry.passed ⊆ after.passed)
    (byHand : registry.byHand ⊆ after.byHand)
    (accounted : AccountedFor images getenv registry image) :
    AccountedFor images getenv after image := by
  rcases accounted with warm | previous | made | ⟨run, vetted⟩
  · exact .inl warm
  · exact .inr (.inl previous)
  · exact .inr (.inr (.inl (byHand made)))
  · exact .inr (.inr (.inr ⟨run, vetted_mono passed vetted⟩))

theorem vouched_candidate (after : Registry Image) (vouched : Vouched images getenv registry progress)
    (warm : after.images .warm = registry.images .warm)
    (previous : after.images .previous = registry.images .previous)
    (passed : registry.passed ⊆ after.passed) (byHand : registry.byHand ⊆ after.byHand)
    {later : Nat → Progress} (seen : SeenOnCandidate after later) :
    Vouched images getenv after later where
  warm image named := accounted_mono passed byHand (vouched.warm image (warm ▸ named))
  previous image named := accounted_mono passed byHand (vouched.previous image (previous ▸ named))
  seen := seen

theorem seen_same {run : Nat} (latest : registry.latest = some run)
    (seen : SeenOnCandidate registry progress) {next : Progress}
    (same : next.checks = (progress run).checks) :
    SeenOnCandidate registry (Function.update progress run next) := by
  intro other now
  rw [latest, Option.some.injEq] at now
  subst now
  rw [Function.update_self, same]
  exact seen run latest

/-- One tag more names an image that another served tag names, or one that has
been vetted. -/
theorem vouched_retag (vouched : Vouched images getenv registry progress) {target : Tag}
    {image : Image} (served : target ≠ .candidate)
    (accounted : AccountedFor images getenv registry image)
    (retags : Retags registry target (some image) after) {later : Nat → Progress}
    (seen : SeenOnCandidate registry later) : Vouched images getenv after later := by
  have named : ∀ tag other, tag ≠ .candidate → after.images tag = some other →
      AccountedFor images getenv registry other := by
    intro tag other served found
    by_cases here : tag = target
    · rw [here, retags_here retags, Option.some.injEq] at found
      exact found ▸ accounted
    · rw [retags_other retags here] at found
      cases tag with
      | warm => exact vouched.warm other found
      | candidate => exact absurd rfl served
      | previous => exact vouched.previous other found
  have log : after.passed = registry.passed := by rw [retags]
  have made : after.byHand = registry.byHand := by rw [retags]
  refine ⟨fun other found => ?_, fun other found => ?_, ?_⟩
  · exact accounted_mono (by rw [log]; exact List.Subset.refl _)
      (by rw [made]; exact List.Subset.refl _) (named .warm other (by simp) found)
  · exact accounted_mono (by rw [log]; exact List.Subset.refl _)
      (by rw [made]; exact List.Subset.refl _) (named .previous other (by simp) found)
  · intro run latest other found check listed
    rw [retags_other retags served.symm] at found
    rw [retags] at latest
    rw [log]
    exact seen run latest other found check listed

theorem vouched_pass (vouched : Vouched images getenv registry progress) {run : Nat} {check : Check}
    (latest : registry.latest = some run) (passes : Passes registry run check after) :
    Vouched images getenv after (Function.update progress run
      { progress run with checks := check :: (progress run).checks }) := by
  obtain ⟨image, candidate, rfl⟩ := passes
  refine vouched_candidate { registry with passed := (run, image, check) :: registry.passed }
    vouched rfl rfl (List.subset_cons_self _ _) (List.Subset.refl _) ?_
  intro other now named found seen listed
  rw [latest, Option.some.injEq] at now
  subst now
  rw [candidate, Option.some.injEq] at found
  subst found
  rw [Function.update_self] at listed
  rcases List.mem_cons.mp listed with rfl | earlier
  · exact List.mem_cons_self
  · exact List.mem_cons_of_mem _ (vouched.seen run latest image candidate seen earlier)

theorem vouched_same (vouched : Vouched images getenv registry progress) {run : Nat}
    (latest : registry.latest = some run) (same : after = registry) {next : Progress}
    (checks : next.checks = (progress run).checks) :
    Vouched images getenv after (Function.update progress run next) := by
  rw [same]
  exact vouched_candidate registry vouched rfl rfl (List.Subset.refl _) (List.Subset.refl _)
    (seen_same latest vouched.seen checks)

theorem candidate_vetted (vouched : Vouched images getenv registry progress) {run : Nat}
    (latest : registry.latest = some run) (tested : Tested (getenv run) (progress run))
    {image : Image} (candidate : registry.images .candidate = some image) :
    Vetted (getenv run) run image registry.passed :=
  fun check required => vouched.seen run latest image candidate check (tested check required)

/-- The images served are accounted for, whatever the script is answered. -/
theorem vouched_call (vouched : Vouched images getenv registry progress) {run : Nat}
    (latest : registry.latest = some run) {request : HostCall} {reply : HostReply request}
    (admitted : runAdmits (getenv run) (progress run) request)
    (begun : request ≠ .pull) (step : callStep run registry request reply after) :
    ∃ next, runStep (progress run) request reply next ∧
      Vouched images getenv after (Function.update progress run next) := by
  cases request with
  | pull => exact absurd rfl begun
  | build version =>
      refine ⟨progress run, rfl, ?_⟩
      rcases step with ⟨image, retags⟩ | ⟨-, same⟩
      · refine vouched_candidate after vouched (retags_other retags (by decide))
          (retags_other retags (by decide)) (by rw [retags]; exact List.Subset.refl _)
          (by rw [retags]; exact List.Subset.refl _) ?_
        intro other now named found check listed
        rw [show after.latest = registry.latest by rw [retags], latest, Option.some.injEq] at now
        subst now
        rw [Function.update_self, show progress run = unbegun from admitted] at listed
        cases listed
      · exact vouched_same vouched latest same rfl
  | candidateVersion =>
      cases reply with
      | ok text => exact ⟨_, rfl, vouched_pass vouched latest step⟩
      | error status => exact ⟨_, rfl, vouched_same vouched latest step rfl⟩
  | prepare preparation => exact ⟨_, rfl, vouched_same vouched latest step rfl⟩
  | smokeTest test =>
      cases reply with
      | ok _ => exact ⟨_, rfl, vouched_pass vouched latest step⟩
      | error status => exact ⟨_, rfl, vouched_same vouched latest step rfl⟩
  | inspect tag =>
      cases reply with
      | ok _ => exact ⟨_, rfl, vouched_same vouched latest step.2 rfl⟩
      | error status => exact ⟨_, rfl, vouched_same vouched latest step rfl⟩
  | tag source target =>
      have seen := fun next (same : next.checks = (progress run).checks) =>
        @seen_same Image registry progress run latest vouched.seen next same
      cases source <;> cases target <;> try exact admitted.elim
      · rcases step with ⟨image, named, retags⟩ | ⟨failed, same⟩
        · exact ⟨_, .inl rfl, vouched_retag vouched (by decide) (vouched.warm image named) retags
            (seen _ rfl)⟩
        · exact ⟨_, .inr ⟨failed, rfl⟩, vouched_same vouched latest same rfl⟩
      · rcases step with ⟨image, named, retags⟩ | ⟨failed, same⟩
        · have vetted := candidate_vetted vouched latest admitted.1 named
          exact ⟨_, .inl rfl, vouched_retag vouched (by decide) (.inr (.inr (.inr ⟨run, vetted⟩)))
            retags (seen _ rfl)⟩
        · exact ⟨_, .inr ⟨failed, rfl⟩, vouched_same vouched latest same rfl⟩
  | rmi tag =>
      obtain ⟨rfl, -⟩ := admitted
      refine ⟨_, rfl, ?_⟩
      rcases step with retags | ⟨-, same⟩
      · refine vouched_candidate after vouched (retags_other retags (by decide))
          (retags_other retags (by decide)) (by rw [retags]; exact List.Subset.refl _)
          (by rw [retags]; exact List.Subset.refl _) ?_
        intro other now named found
        rw [retags_here retags] at found
        cases found
      · exact vouched_same vouched latest same rfl
  | imagePrune => exact ⟨_, rfl, vouched_same vouched latest step rfl⟩

theorem vouched_upheld (images : Tag → Option Image) (getenv : Nat → Environment) :
    Upholds dockerHost (fun run => runProtocol (getenv run)) (Vouched images getenv) where
  act registry progress run request reply after vouched admitted step := by
    by_cases begins : request = .pull
    · subst begins
      obtain ⟨-, rfl⟩ : Begins registry run after := step
      refine ⟨_, rfl, vouched_candidate { registry with latest := some run } vouched rfl rfl
        (List.Subset.refl _) (List.Subset.refl _) ?_⟩
      intro other now image found check listed
      cases now
      rw [Function.update_self, show progress run = unbegun from admitted] at listed
      cases listed
    · have underway : registry.latest = some run ∧ callStep run registry request reply after := by
        cases request with
        | pull => exact absurd rfl begins
        | _ => exact step
      exact vouched_call vouched underway.1 admitted begins underway.2
  drift registry progress after vouched operates := by
    cases operates with
    | rollback image _ kept retags =>
        exact vouched_retag vouched (by decide) (vouched.previous image kept) retags vouched.seen
    | warmImage image _ retags =>
        refine vouched_retag (vouched_candidate { registry with byHand := image :: registry.byHand }
          vouched rfl rfl (List.Subset.refl _) (List.subset_cons_self _ _) vouched.seen)
          (by decide) ?_ retags vouched.seen
        exact .inr (.inr (.inl List.mem_cons_self))

/-- However many runs there are, wherever each is cut off and whatever the
operator does meanwhile: `:warm` and `:warm-previous` name images they named at
first, that were built by hand, or that passed every check of one run. -/
theorem served_images_accounted_for (images : Tag → Option Image) (getenv : Nat → Environment)
    (reached : HostConfiguration Image)
    (reaches : Reaches dockerHost (startRuns images getenv) reached) (tag : Tag)
    (served : tag ≠ .candidate) (image : Image) (named : reached.world.images tag = some image) :
    AccountedFor images getenv reached.world image := by
  have start : Vouched images getenv (startRuns images getenv).world fun _ => unbegun := by
    refine ⟨fun image named => .inl named, fun image named => .inr (.inl named), ?_⟩
    intro run latest
    cases latest
  obtain ⟨progress, vouched, -⟩ := keeps_reaches (vouched_upheld images getenv) _ start
    (fun run => script_follows (getenv run)) reaches
  cases tag with
  | warm => exact vouched.warm image named
  | candidate => exact absurd rfl served
  | previous => exact vouched.previous image named

end Histories

/-! ## One run on a host that nobody else touches -/

section Alone

variable {Image : Type}

/-- `docker image inspect` fails for want of an image only. -/
def truthful (registry : Registry Image) : (request : HostCall) → HostReply request → Prop
  | .inspect tag, .error _ => registry.images tag = none
  | _, _ => True

def quietHost (run : Nat) : Surroundings HostCall.Answer Nat (Registry Image) Unit where
  machine _ := (hostMachine run).restrict truthful
  drift _ _ := False

def startRun (images : Tag → Option Image) (getenv : Environment) :
    Configuration HostCall.Answer Nat (Registry Image) Unit fun _ => Unit where
  world := { images := images, latest := none, passed := [], byHand := [] }
  rest _ := updateWarmImage getenv

def Untouched (images : Tag → Option Image) (registry : Registry Image) : Prop :=
  registry.images .warm = images .warm ∧ registry.images .previous = images .previous

/-- What was live is the rollback target, and still live. -/
structure Kept (images : Tag → Option Image) (getenv : Environment) (run : Nat) (image : Image)
    (registry : Registry Image) : Prop where
  vetted : Vetted getenv run image registry.passed
  warm : registry.images .warm = images .warm
  previous : registry.images .previous = images .warm
  present : images .warm ≠ none

/-- The candidate is live, and what was live is the rollback target, if there was
anything. -/
structure Promoted (images : Tag → Option Image) (getenv : Environment) (run : Nat)
    (image : Image) (registry : Registry Image) : Prop where
  vetted : Vetted getenv run image registry.passed
  warm : registry.images .warm = some image
  previous : registry.images .previous = (images .warm).or (images .previous)

def Standing (images : Tag → Option Image) (getenv : Environment) (run : Nat)
    (registry : Registry Image) : Stage → Prop
  | .testing => Untouched images registry
  | .absent => Untouched images registry ∧ images .warm = none
  | .kept => ∃ image, Kept images getenv run image registry
  | .promoted => ∃ image, Promoted images getenv run image registry

structure Advances (images : Tag → Option Image) (getenv : Environment) (run : Nat)
    (registry : Registry Image) (progress : Progress) : Prop where
  standing : Standing images getenv run registry progress.stage
  seen : progress.stage ≠ .promoted → ∀ check ∈ progress.checks,
    ∃ image, registry.images .candidate = some image ∧ (run, image, check) ∈ registry.passed

variable {images : Tag → Option Image} {getenv : Environment} {run : Nat}
  {registry after : Registry Image} {progress : Progress}

theorem standing_same {stage : Stage} (standing : Standing images getenv run registry stage)
    (warm : after.images .warm = registry.images .warm)
    (previous : after.images .previous = registry.images .previous)
    (passed : registry.passed ⊆ after.passed) : Standing images getenv run after stage := by
  have grown : ∀ image, Vetted getenv run image registry.passed →
      Vetted getenv run image after.passed :=
    fun image vetted check required => passed (vetted check required)
  cases stage with
  | testing => exact ⟨warm.trans standing.1, previous.trans standing.2⟩
  | absent => exact ⟨⟨warm.trans standing.1.1, previous.trans standing.1.2⟩, standing.2⟩
  | kept =>
      obtain ⟨image, kept⟩ := standing
      exact ⟨image, grown image kept.vetted, warm.trans kept.warm, previous.trans kept.previous,
        kept.present⟩
  | promoted =>
      obtain ⟨image, promoted⟩ := standing
      exact ⟨image, grown image promoted.vetted, warm.trans promoted.warm,
        previous.trans promoted.previous⟩

theorem advances_same (advances : Advances images getenv run registry progress)
    (same : after = registry) : Advances images getenv run after progress := same ▸ advances

theorem advances_pass (advances : Advances images getenv run registry progress)
    (testing : progress.stage = .testing) {check : Check}
    (passes : Passes registry run check after) :
    Advances images getenv run after
      { progress with checks := check :: progress.checks } := by
  obtain ⟨image, candidate, rfl⟩ := passes
  have earlier := advances.seen (by rw [testing]; decide)
  refine ⟨standing_same advances.standing rfl rfl (List.subset_cons_self _ _), fun _ => ?_⟩
  intro other listed
  rcases List.mem_cons.mp listed with rfl | before
  · exact ⟨image, candidate, List.mem_cons_self⟩
  · obtain ⟨twin, named, passed⟩ := earlier other before
    exact ⟨twin, named, List.mem_cons_of_mem _ passed⟩

/-- What is required is never nothing, so a tested candidate is there. -/
theorem tested_candidate (advances : Advances images getenv run registry progress)
    (tested : Tested getenv progress) (unpromoted : progress.stage ≠ .promoted) :
    ∃ image, registry.images .candidate = some image ∧ Vetted getenv run image registry.passed := by
  have seen := advances.seen unpromoted
  obtain ⟨image, candidate, -⟩ := seen _ (tested (.smoke (smokeTestTarget getenv "sample" "web"))
    (List.mem_append_right _ (List.mem_map_of_mem List.mem_cons_self)))
  refine ⟨image, candidate, fun check required => ?_⟩
  obtain ⟨twin, named, passed⟩ := seen check (tested check required)
  rw [candidate, Option.some.injEq] at named
  rwa [named]

theorem advances_call (advances : Advances images getenv run registry progress)
    {request : HostCall} {reply : HostReply request} (admitted : runAdmits getenv progress request)
    (begun : request ≠ .pull) (step : callStep run registry request reply after)
    (honest : truthful registry request reply) :
    ∃ next, runStep progress request reply next ∧ Advances images getenv run after next := by
  cases request with
  | pull => exact absurd rfl begun
  | build version =>
      refine ⟨progress, rfl, ?_⟩
      rcases step with ⟨image, retags⟩ | ⟨-, same⟩
      · constructor
        · exact standing_same advances.standing (retags_other retags (by decide))
            (retags_other retags (by decide)) (by rw [retags]; exact List.Subset.refl _)
        · intro _ check listed
          rw [show progress = unbegun from admitted] at listed
          cases listed
      · exact advances_same advances same
  | candidateVersion =>
      cases reply with
      | ok text => exact ⟨_, rfl, advances_pass advances admitted step⟩
      | error status => exact ⟨_, rfl, advances_same advances step⟩
  | prepare preparation => exact ⟨_, rfl, advances_same advances step⟩
  | smokeTest test =>
      cases reply with
      | ok _ => exact ⟨_, rfl, advances_pass advances admitted step⟩
      | error status => exact ⟨_, rfl, advances_same advances step⟩
  | inspect tag =>
      obtain ⟨rfl, testing⟩ := admitted
      have untouched : Untouched images registry := by
        have standing := advances.standing
        rwa [testing] at standing
      cases reply with
      | ok _ => exact ⟨_, rfl, advances_same advances step.2⟩
      | error status =>
          rw [show after = registry from step]
          refine ⟨_, rfl, ⟨untouched, ?_⟩, fun _ => advances.seen (by rw [testing]; decide)⟩
          rw [← untouched.1]
          exact honest
  | tag source target =>
      cases source <;> cases target <;> try exact admitted.elim
      · obtain ⟨tested, testing⟩ := admitted
        rcases step with ⟨image, named, retags⟩ | ⟨failed, same⟩
        · obtain ⟨candidate, standing, vetted⟩ :=
            tested_candidate advances tested (by rw [testing]; decide)
          have untouched : Untouched images registry := by
            have standing := advances.standing
            rwa [testing] at standing
          refine ⟨_, .inl rfl, ⟨candidate, ?_, ?_, ?_, ?_⟩, fun _ => ?_⟩
          · rwa [retags]
          · rw [retags_other retags (by decide), untouched.1]
          · rw [retags_here retags, ← named, untouched.1]
          · rw [← untouched.1, named]
            simp
          · rw [retags_other retags (by decide), show after.passed = registry.passed by rw [retags]]
            exact advances.seen (by rw [testing]; decide)
        · exact ⟨_, .inr ⟨failed, rfl⟩, advances_same advances same⟩
      · obtain ⟨tested, ready⟩ := admitted
        rcases step with ⟨image, named, retags⟩ | ⟨failed, same⟩
        · obtain ⟨candidate, standing, vetted⟩ := tested_candidate advances tested (by
            rcases ready with absent | kept
            · rw [absent]
              decide
            · rw [kept]
              decide)
          rw [standing, Option.some.injEq] at named
          subst named
          refine ⟨_, .inl rfl, ⟨candidate, ?_, retags_here retags, ?_⟩, fun apart => absurd rfl apart⟩
          · rwa [retags]
          · rw [retags_other retags (by decide)]
            have earlier := advances.standing
            rcases ready with absent | kept
            · rw [absent] at earlier
              rw [earlier.1.2, earlier.2, Option.none_or]
            · rw [kept] at earlier
              obtain ⟨other, kept⟩ := earlier
              obtain ⟨old, present⟩ := Option.ne_none_iff_exists'.mp kept.present
              rw [kept.previous, present, Option.some_or]
        · exact ⟨_, .inr ⟨failed, rfl⟩, advances_same advances same⟩
  | rmi tag =>
      obtain ⟨rfl, promoted⟩ := admitted
      refine ⟨_, rfl, ?_⟩
      rcases step with retags | ⟨-, same⟩
      · refine ⟨standing_same advances.standing (retags_other retags (by decide))
          (retags_other retags (by decide)) (by rw [retags]; exact List.Subset.refl _), ?_⟩
        exact fun apart => absurd promoted apart
      · exact advances_same advances same
  | imagePrune => exact ⟨_, rfl, advances_same advances step⟩

theorem advances_upheld (images : Tag → Option Image) (getenv : Environment) (run : Nat) :
    Upholds (quietHost run) (fun _ : Unit => runProtocol getenv)
      (fun registry progress => Advances images getenv run registry (progress ())) where
  act registry progress party request reply after advances admitted step := by
    obtain ⟨step, honest⟩ := step
    have moved : ∃ next, runStep (progress ()) request reply next ∧
        Advances images getenv run after next := by
      by_cases begins : request = .pull
      · subst begins
        obtain ⟨-, rfl⟩ : Begins registry run after := step
        exact ⟨_, rfl, standing_same advances.standing rfl rfl (List.Subset.refl _), advances.seen⟩
      · have underway : callStep run registry request reply after := by
          cases request with
          | pull => exact absurd rfl begins
          | _ => exact step.2
        exact advances_call advances admitted begins underway honest
    obtain ⟨next, follows, again⟩ := moved
    refine ⟨next, follows, ?_⟩
    rw [Function.update_self]
    exact again
  drift _ _ _ _ drifts := drifts.elim

/-- A run that nobody interferes with leaves both tags alone until the candidate
has passed every check, and ends well only with the candidate live and what was
live before kept. -/
theorem run_promotes_or_leaves (images : Tag → Option Image) (getenv : Environment) (run : Nat)
    (reached : Configuration HostCall.Answer Nat (Registry Image) Unit fun _ => Unit)
    (reaches : Reaches (quietHost run) (startRun images getenv) reached) :
    (Untouched images reached.world ∨
      (∃ image, Kept images getenv run image reached.world) ∨
        ∃ image, Promoted images getenv run image reached.world) ∧
    (reached.rest () = .done (.ok ()) → ∃ image, Promoted images getenv run image reached.world) := by
  have start : Advances images getenv run (startRun images getenv).world unbegun :=
    ⟨⟨rfl, rfl⟩, fun _ check listed => by cases listed⟩
  obtain ⟨progress, advances, keeps⟩ := keeps_reaches (advances_upheld images getenv run)
    (fun _ => unbegun) start (fun _ => script_follows getenv) reaches
  have standing := advances.standing
  constructor
  · cases stage : (progress ()).stage with
    | testing => exact .inl (by rwa [stage] at standing)
    | absent => exact .inl (by rw [stage] at standing; exact standing.1)
    | kept => exact .inr (.inl (by rwa [stage] at standing))
    | promoted => exact .inr (.inr (by rwa [stage] at standing))
  · intro ended
    have owed := keeps ()
    rw [ended] at owed
    rw [owed rfl] at standing
    exact standing

end Alone

/-! ## A run that promotes -/

/-- Images 1 and 0 are served; the run builds 2. -/
def servedImages : Tag → Option Nat
  | .warm => some 1
  | .candidate => none
  | .previous => some 0

/-- Every command goes through. -/
def obligingHost (registry : Registry Nat) : (request : HostCall) →
    HostReply request × Registry Nat
  | .pull => (.ok (), { registry with latest := some 0 })
  | .build _ =>
      (.ok (), { registry with images := Function.update registry.images .candidate (some 2) })
  | .candidateVersion =>
      (.ok "2.54.0", { registry with passed := (0, 2, .version "2.54.0") :: registry.passed })
  | .prepare _ => (.ok (), registry)
  | .smokeTest test => (.ok (), { registry with passed := (0, 2, .smoke test) :: registry.passed })
  | .inspect _ => (.ok (), registry)
  | .tag source target =>
      (.ok (), { registry with
        images := Function.update registry.images target (registry.images source) })
  | .rmi tag => (.ok (), { registry with images := Function.update registry.images tag none })
  | .imagePrune => (.ok (), registry)

def pinned (name : String) : String := if name = "PRETEXT_VERSION" then "2.54.0" else ""

def obliges (registry : Registry Nat) : HostCall → Bool
  | .pull => registry.latest = none
  | .candidateVersion | .smokeTest _ =>
      registry.latest = some 0 ∧ registry.images .candidate = some 2
  | .inspect tag | .tag tag _ => registry.latest = some 0 ∧ registry.images tag ≠ none
  | _ => registry.latest = some 0

theorem obliging_host_step (registry : Registry Nat) (request : HostCall)
    (turn : obliges registry request = true) :
    hostStep 0 registry request (obligingHost registry request).1
        (obligingHost registry request).2 ∧
      truthful registry request (obligingHost registry request).1 := by
  cases request <;> simp only [obliges, decide_eq_true_eq] at turn
  case pull =>
    refine ⟨⟨fun other now => ?_, rfl⟩, trivial⟩
    rw [turn] at now
    cases now
  case build => exact ⟨⟨turn, .inl ⟨2, rfl⟩⟩, trivial⟩
  case candidateVersion => exact ⟨⟨turn.1, 2, turn.2, rfl⟩, trivial⟩
  case prepare => exact ⟨⟨turn, rfl⟩, trivial⟩
  case smokeTest => exact ⟨⟨turn.1, 2, turn.2, rfl⟩, trivial⟩
  case inspect => exact ⟨⟨turn.1, turn.2, rfl⟩, trivial⟩
  case tag source target =>
    obtain ⟨image, named⟩ := Option.ne_none_iff_exists'.mp turn.2
    refine ⟨⟨turn.1, .inl ⟨image, named, ?_⟩⟩, trivial⟩
    rw [Retags, ← named]
    rfl
  case rmi => exact ⟨⟨turn, .inl rfl⟩, trivial⟩
  case imagePrune => exact ⟨⟨turn, rfl⟩, trivial⟩

def firstRunEnded : HostConfiguration Nat :=
  play obligingHost (fun registry run request => run = 0 ∧ obliges registry request)
    (List.replicate 17 0) (startRuns servedImages fun _ => pinned)

theorem new_warm_image_accounted_for :
    AccountedFor servedImages (fun _ => pinned) firstRunEnded.world 2 := by
  refine served_images_accounted_for servedImages (fun _ => pinned) firstRunEnded ?_ .warm
    (by decide) 2 (by decide +kernel)
  apply play_reaches
  intro registry run request turn
  rw [decide_eq_true_eq] at turn
  obtain ⟨rfl, turn⟩ := turn
  exact (obliging_host_step registry request turn).1

def endedWell : HostProgram Unit → Bool
  | .done (.ok _) => true
  | _ => false

theorem done_of_ended_well {program : HostProgram Unit} (checked : endedWell program = true) :
    program = .done (.ok ()) := by
  match program with
  | .done (.ok _) => rfl
  | .done (.error _) => cases checked
  | .call .. => cases checked

def runEnded : Configuration HostCall.Answer Nat (Registry Nat) Unit fun _ => Unit :=
  play obligingHost (fun registry _ request => obliges registry request)
    (List.replicate 17 ()) (startRun servedImages pinned)

theorem ended_run_has_promoted :
    ∃ image, Promoted servedImages pinned 0 image runEnded.world := by
  refine (run_promotes_or_leaves servedImages pinned 0 runEnded ?_).2
    (done_of_ended_well (by decide +kernel))
  apply play_reaches
  intro registry run request turn
  exact obliging_host_step registry request turn

end PretextBuildServer.WarmImage
