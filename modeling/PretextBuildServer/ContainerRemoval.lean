import PretextBuildServer.JobSystem
import PretextBuildServer.RunCalls

/-!
# Which containers a run leaves behind

`containers.run` creates a container and then starts it. The variable the
outer `finally` looks at is assigned when both have gone well, so a container
whose start fails is the one that stays.
-/

namespace PretextBuildServer.ContainerRemoval

open EffectProgram EffectProgram.Program
open PretextBuildServer.ServerSettings PretextBuildServer.JobRecord PretextBuildServer.JobCalls
open PretextBuildServer.StoreCalls PretextBuildServer.BuildWorker PretextBuildServer.JobSystem
open PretextBuildServer.RunCalls

set_option autoImplicit false

/-- The answers to the calls of one run, by the number of calls made before.
`create` and `start` are the two halves of `containers.run`. -/
structure Daemon where
  create : Nat → Except Raised Unit
  start : Nat → Except Raised Unit
  answer : Nat → (request : JobCall) → JobReply request

/-- `standing` counts the containers of the job on the daemon. -/
structure Docker where
  calls : Nat := 0
  standing : Nat := 0

variable (daemon : Daemon)

/-- Removing works; whatever else is called may answer or raise anything. -/
def Daemon.handler : Handler JobCall.Answer Raised Docker
  | world, .containersRun _ =>
      match daemon.create world.calls with
      | .error raised => (.error raised, { world with calls := world.calls + 1 })
      | .ok _ =>
          (daemon.start world.calls,
            { calls := world.calls + 1, standing := world.standing + 1 })
  | world, .remove => (.ok (), { calls := world.calls + 1, standing := world.standing - 1 })
  | world, request => (daemon.answer world.calls request, { world with calls := world.calls + 1 })

/-- A container that has been created is started as well. -/
def Daemon.Starts (world : Docker) (request : JobCall) : Prop :=
  ∀ kwargs, request = .containersRun kwargs → daemon.create world.calls = .ok () →
    daemon.start world.calls = .ok ()

/-- From a state without a container on, none is left exactly if every one that
is created is started. -/
def Daemon.Accounts {Result : Type} (program : JobProgram Result) : Prop :=
  ∀ world : Docker, world.standing = 0 →
    ((run daemon.handler world program).2.standing = 0 ↔
      AtEachCall daemon.handler daemon.Starts world program)

/-- The calls that neither create nor remove a container. -/
def bystander : JobCall → Prop
  | .containersRun _ | .remove => False
  | _ => True

section Parts

variable {daemon}

theorem bystander_keeps (world : Docker) {request : JobCall} (allowed : bystander request) :
    (daemon.handler world request).2.standing = world.standing := by
  cases request <;> first | rfl | cases allowed

theorem bystanders_keep {Result : Type} (world : Docker) {program : JobProgram Result}
    (only : MakesOnly bystander program) :
    (run daemon.handler world program).2.standing = world.standing := by
  induction program generalizing world with
  | done outcome => rfl
  | call request next induction =>
      rw [run_call, induction _ _ (only.2 _)]
      exact bystander_keeps world only.1

theorem bystander_starts (world : Docker) (request : JobCall) (allowed : bystander request) :
    daemon.Starts world request := by
  rintro kwargs rfl
  cases allowed

theorem bystanders_start {Result : Type} (world : Docker) {program : JobProgram Result}
    (only : MakesOnly bystander program) :
    AtEachCall daemon.handler daemon.Starts world program :=
  at_each_call_of_makes_only bystander_starts world program only

theorem accounts_only {Result : Type} {program : JobProgram Result}
    (only : MakesOnly bystander program) : daemon.Accounts program := by
  intro world none
  rw [bystanders_keep world only]
  exact iff_of_true none (bystanders_start world only)

theorem accounts_after {Result Other : Type} {first : JobProgram Result}
    {next : Result → JobProgram Other} (only : MakesOnly bystander first)
    (rest : ∀ value, daemon.Accounts (next value)) : daemon.Accounts (first >>= next) := by
  intro world none
  rw [bind_is_and_then, run_and_then, at_each_call_and_then,
    and_iff_right (bystanders_start world only)]
  have still : (run daemon.handler world first).2.standing = 0 := by
    rw [bystanders_keep world only, none]
  cases (run daemon.handler world first).1 with
  | error raised => exact iff_of_true still trivial
  | ok value => exact rest value _ still

theorem accounts_before {Result Other : Type} {first : JobProgram Result}
    {next : Except Raised Result → JobProgram Other} (accounts : daemon.Accounts first)
    (rest : ∀ outcome, MakesOnly bystander (next outcome)) :
    daemon.Accounts (first.andThen next) := by
  intro world none
  rw [run_and_then, at_each_call_and_then, bystanders_keep _ (rest _),
    and_iff_left (bystanders_start _ (rest _))]
  exact accounts world none

end Parts

/-! ## The parts of a run -/

theorem settle_only (fields : Nat → Fields) :
    MakesOnly bystander (now >>= fun clock => storeUpdate (fields clock)) := by
  apply makes_only_mono _ _ (settle_makes fields)
  intro request settles
  cases request <;> trivial

theorem bystander_of_watching (request : JobCall) (watches : watching request) :
    bystander request := by
  cases request <;> trivial

theorem package_only (settings : Settings) (jobId : String) (kind : Kind) (sandbox : Sandbox)
    (listFiles : Bool) (projectId : Option String) (logs : String) (exitCode : Int) :
    MakesOnly bystander
      (packageOutput settings jobId kind sandbox listFiles projectId logs exitCode) := by
  have looks : ∀ request, looking request → bystander request := by
    intro request looks
    cases request <;> trivial
  have packs : ∀ request, packing request → bystander request := by
    intro request packs
    cases request <;> trivial
  have harvests : ∀ request, harvesting request → bystander request := by
    intro request harvests
    cases request <;> trivial
  apply makes_only_and_then _ _ (makes_only_mono _ looks (present_makes _))
  rintro (raised | hasOutput)
  · trivial
  apply makes_only_and_then _ _ (makes_only_mono _ packs (zip_makes ..))
  rintro (raised | zipped)
  · trivial
  apply makes_only_and_then _ _ (makes_only_mono _ harvests (harvest_makes ..))
  rintro (raised | extra)
  · trivial
  · exact settle_only _

/-- The `finally` removes what `containers.run` has returned. -/
theorem supervise_accounts (settings : Settings) (kind : Kind) (sandbox : Sandbox)
    (kwargs : RunKwargs) : daemon.Accounts (superviseContainer settings kind sandbox kwargs) := by
  intro world none
  have missing : ∀ raised, MakesOnly bystander (imageMissing settings raised) := fun raised =>
    makes_only_mono _ bystander_of_watching (image_missing_makes settings raised)
  have watched : MakesOnly bystander
      (rescue (awaitContainer settings kind sandbox) (imageMissing settings)) :=
    makes_only_mono _ bystander_of_watching (watch_makes settings kind sandbox)
  unfold superviseContainer
  rw [run_and_then, run_perform, at_each_call_and_then]
  have here : AtEachCall daemon.handler daemon.Starts world (jobCall (.containersRun kwargs)) ↔
      (daemon.create world.calls = .ok () → daemon.start world.calls = .ok ()) := by
    refine (and_iff_left trivial).trans ⟨fun starts => starts kwargs rfl, ?_⟩
    rintro starts other ⟨⟩
    exact starts
  rw [here, run_perform]
  simp only [Daemon.handler]
  cases created : daemon.create world.calls with
  | error raised =>
      simp only [reduceCtorEq, false_implies, true_and]
      rw [bystanders_keep _ (missing raised)]
      exact iff_of_true none (bystanders_start _ (missing raised))
  | ok _ =>
      simp only [true_implies]
      cases started : daemon.start world.calls with
      | error raised =>
          simp only [reduceCtorEq, false_and, iff_false]
          rw [bystanders_keep _ (missing raised)]
          simp
      | ok _ =>
          simp only [true_and]
          unfold ensuring
          rw [run_and_then, at_each_call_and_then, and_iff_right (bystanders_start _ watched)]
          generalize reached : run daemon.handler _ (rescue (awaitContainer settings kind sandbox)
            (imageMissing settings)) = ended
          have kept := @bystanders_keep daemon _
            { calls := world.calls + 1, standing := world.standing + 1 } _ watched
          rw [reached] at kept
          simp only [none] at kept
          have gone : run daemon.handler ended.2 removeContainer =
              (.ok (), { calls := ended.2.calls + 1, standing := ended.2.standing - 1 }) := rfl
          rw [run_and_then, at_each_call_and_then, gone]
          simp only [on_value_ok, run_done]
          refine iff_of_true (by omega) ⟨⟨?_, trivial⟩, trivial⟩
          rintro other ⟨⟩

/-- After a run no container of the job is left exactly if every container that
was created for it was started. -/
theorem container_removed_iff (settings : Settings) (jobId : String) (kind : Kind)
    (command : String) (sandbox : Sandbox) (listFiles : Bool) :
    (run daemon.handler {}
        (runSandboxed settings jobId kind command sandbox listFiles)).2.standing = 0 ↔
      AtEachCall daemon.handler daemon.Starts {}
        (runSandboxed settings jobId kind command sandbox listFiles) := by
  suffices accounts : daemon.Accounts
      (runSandboxed settings jobId kind command sandbox listFiles) from accounts {} rfl
  unfold runSandboxed
  split
  · exact accounts_only (settle_only _)
  · refine accounts_after ⟨trivial, fun _ => trivial⟩ ?_
    intro record
    dsimp only
    split
    · exact accounts_only (settle_only _)
    refine accounts_after ⟨trivial, fun _ => trivial⟩ ?_
    intro started
    refine accounts_after ⟨trivial, fun _ => trivial⟩ ?_
    intro _
    refine accounts_after ⟨trivial, fun _ => trivial⟩ ?_
    intro _
    have prepares : ∀ request, preparing request → bystander request := by
      intro request prepares
      cases request <;> trivial
    apply accounts_after (makes_only_mono _ prepares (volumes_make ..))
    intro volumes
    refine accounts_after ⟨trivial, fun _ => trivial⟩ ?_
    intro _
    apply accounts_before (supervise_accounts daemon settings kind sandbox _)
    rintro (raised | _ | ⟨logs, exitCode⟩)
    · trivial
    · trivial
    · exact package_only ..

def failingStart : Daemon where
  create _ := .ok ()
  start _ := .error { kind := .apiError }
  answer _ request := (obliging .persistent { clock := 0 } request).1

theorem failed_start_leaves_container :
    ¬ ∀ (daemon : Daemon) (settings : Settings) (jobId : String) (kind : Kind) (command : String)
      (sandbox : Sandbox) (listFiles : Bool),
      (run daemon.handler {}
        (runSandboxed settings jobId kind command sandbox listFiles)).2.standing = 0 := by
  intro always
  have left : (run failingStart.handler {} (runSandboxed plainBuild.settings "job" .build
      "pretext build web" plainBuild.settings.buildSandbox false)).2.standing = 1 := by
    decide +kernel
  rw [always] at left
  cases left

end PretextBuildServer.ContainerRemoval
