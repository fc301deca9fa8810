import PretextBuildServer.Library.EffectProgram
import Mathlib.Logic.Function.Basic
import Mathlib.Logic.Relation

/-!
# Parties that share one world

Every party runs its own program; a move is one call of one party, answered by
the shared world, or a change the surroundings make by themselves. A party that
dies is one that never moves again, so crashes need no move of their own.

What is proved about such a system is proved from *protocols*: each party is
shown once, on its program alone, to follow a small machine of phases, and an
invariant relates the world to the phases the parties are in.
-/

namespace InterleavedParties

open EffectProgram EffectProgram.Program

set_option autoImplicit false

variable {Call : Type} {Answer : Call → Type} {Failure World Party : Type}
  {Outcome : Party → Type}

structure Configuration {Call : Type} (Answer : Call → Type) (Failure World Party : Type)
    (Outcome : Party → Type) where
  world : World
  rest : (party : Party) → Program Answer Failure (Outcome party)

/-- What the parties may expect of the world they share, and what the world
does when no party acts. -/
structure Surroundings {Call : Type} (Answer : Call → Type) (Failure World Party : Type) where
  machine : Party → Machine Answer Failure World
  drift : World → World → Prop

variable [DecidableEq Party]

inductive Move (shared : Surroundings Answer Failure World Party) :
    Configuration Answer Failure World Party Outcome → Configuration Answer Failure World Party Outcome → Prop where
  | act (before : Configuration Answer Failure World Party Outcome) (party : Party) (request : Call)
      (next : Reply Answer Failure request → Program Answer Failure (Outcome party)) (reply : Reply Answer Failure request)
      (after : World) (waiting : before.rest party = .call request next)
      (step : (shared.machine party).step before.world request reply after) :
      Move shared before ⟨after, Function.update before.rest party (next reply)⟩
  | drift (before : Configuration Answer Failure World Party Outcome) (after : World)
      (drifts : shared.drift before.world after) : Move shared before ⟨after, before.rest⟩

abbrev Reaches (shared : Surroundings Answer Failure World Party) :
    Configuration Answer Failure World Party Outcome → Configuration Answer Failure World Party Outcome → Prop :=
  Relation.ReflTransGen (Move shared)

/-- Only those calls are answered that meet `condition`; the surroundings drift
as before. -/
def Surroundings.restrict (shared : Surroundings Answer Failure World Party)
    (condition : World → (party : Party) → (request : Call) → Reply Answer Failure request → Prop) :
    Surroundings Answer Failure World Party where
  machine party := (shared.machine party).restrict fun world request reply =>
    condition world party request reply
  drift := shared.drift

theorem act_reaches (shared : Surroundings Answer Failure World Party)
    (before : Configuration Answer Failure World Party Outcome) (party : Party) {request : Call}
    {next : Reply Answer Failure request → Program Answer Failure (Outcome party)}
    (reply : Reply Answer Failure request)
    (after : World) (waiting : before.rest party = .call request next)
    (step : (shared.machine party).step before.world request reply after) :
    Reaches shared before ⟨after, Function.update before.rest party (next reply)⟩ :=
  Relation.ReflTransGen.single (.act before party request next reply after waiting step)

section Scheduled

variable (handler : Handler Answer Failure World) (allowed : World → Party → Call → Bool)

/-- Let the parties of a list make one call each, in that order. A turn that is
not allowed, or whose party has ended, is skipped. -/
def play : List Party → Configuration Answer Failure World Party Outcome →
    Configuration Answer Failure World Party Outcome
  | [], configuration => configuration
  | party :: order, configuration =>
      match configuration.rest party with
      | .done _ => play order configuration
      | .call request next =>
          if allowed configuration.world party request then
            let answered := handler configuration.world request
            play order ⟨answered.2, Function.update configuration.rest party (next answered.1)⟩
          else play order configuration

def playBy (handlers : Party → Handler Answer Failure World) : List Party →
    Configuration Answer Failure World Party Outcome →
      Configuration Answer Failure World Party Outcome
  | [], configuration => configuration
  | party :: order, configuration =>
      match configuration.rest party with
      | .done _ => playBy handlers order configuration
      | .call request next =>
          if allowed configuration.world party request then
            let answered := handlers party configuration.world request
            playBy handlers order
              ⟨answered.2, Function.update configuration.rest party (next answered.1)⟩
          else playBy handlers order configuration

omit handler in
theorem play_by_reaches (handlers : Party → Handler Answer Failure World)
    (shared : Surroundings Answer Failure World Party)
    (possible : ∀ world party request, allowed world party request = true →
      (shared.machine party).step world request
        (handlers party world request).1 (handlers party world request).2)
    (order : List Party) (start : Configuration Answer Failure World Party Outcome) :
    Reaches shared start (playBy allowed handlers order start) := by
  induction order generalizing start with
  | nil => exact .refl
  | cons party order induction =>
      unfold playBy
      split
      · exact induction start
      · rename_i request next waiting
        split
        · rename_i permitted
          exact (act_reaches shared start party _ _ waiting
            (possible _ party request permitted)).trans (induction _)
        · exact induction start

theorem play_is_play_by (order : List Party)
    (start : Configuration Answer Failure World Party Outcome) :
    play handler allowed order start = playBy allowed (fun _ => handler) order start := by
  induction order generalizing start with
  | nil => rfl
  | cons party order induction => simp only [play, playBy, induction]

theorem play_reaches (shared : Surroundings Answer Failure World Party)
    (possible : ∀ world party request, allowed world party request = true →
      (shared.machine party).step world request (handler world request).1
        (handler world request).2)
    (order : List Party) (start : Configuration Answer Failure World Party Outcome) :
    Reaches shared start (play handler allowed order start) := by
  rw [play_is_play_by]
  exact play_by_reaches allowed (fun _ => handler) shared possible order start

omit handler allowed in
theorem play_rest_untouched (handler : Handler Answer Failure World)
    (allowed : World → Party → Call → Bool) (order : List Party)
    (start : Configuration Answer Failure World Party Outcome) (party : Party)
    (absent : party ∉ order) :
    (play handler allowed order start).rest party = start.rest party := by
  induction order generalizing start with
  | nil => rfl
  | cons next order induction =>
      obtain ⟨other, later⟩ := List.ne_and_not_mem_of_not_mem_cons absent
      unfold play
      split
      · exact induction start later
      · split
        · exact (induction _ later).trans (Function.update_of_ne other _ _)
        · exact induction start later

end Scheduled

section Protocols

variable {Phase : Party → Type}

/-- Every party's remaining program keeps to its protocol from the phase the
party is in. -/
def Keeps (protocol : (party : Party) → Machine Answer Failure (Phase party))
    (post : (party : Party) → Phase party → Except Failure (Outcome party) → Prop)
    (phases : (party : Party) → Phase party)
    (configuration : Configuration Answer Failure World Party Outcome) : Prop :=
  ∀ party, Guarantees (protocol party) (post party) (phases party) (configuration.rest party)

/-- An invariant over the world and the phases that survives every step the
protocols admit: the protocol has a matching step, and the invariant holds again. -/
structure Upholds (shared : Surroundings Answer Failure World Party)
    (protocol : (party : Party) → Machine Answer Failure (Phase party))
    (invariant : World → ((party : Party) → Phase party) → Prop) : Prop where
  act : ∀ world phases party request reply after, invariant world phases →
    (protocol party).admits (phases party) request →
    (shared.machine party).step world request reply after →
    ∃ phase, (protocol party).step (phases party) request reply phase ∧
      invariant after (Function.update phases party phase)
  drift : ∀ world phases after, invariant world phases → shared.drift world after →
    invariant after phases

variable {shared : Surroundings Answer Failure World Party}
  {protocol : (party : Party) → Machine Answer Failure (Phase party)}
  {post : (party : Party) → Phase party → Except Failure (Outcome party) → Prop}
  {invariant : World → ((party : Party) → Phase party) → Prop}

theorem keeps_move (upholds : Upholds shared protocol invariant)
    {before after : Configuration Answer Failure World Party Outcome}
    (move : Move shared before after)
    (phases : (party : Party) → Phase party) (holds : invariant before.world phases)
    (keeps : Keeps protocol post phases before) :
    ∃ later, invariant after.world later ∧ Keeps protocol post later after := by
  cases move with
  | drift _ drifts => exact ⟨phases, upholds.drift _ _ _ holds drifts, keeps⟩
  | act party request next reply world waiting step =>
      have owed := keeps party
      rw [waiting] at owed
      obtain ⟨phase, matching, again⟩ := upholds.act _ _ _ _ _ _ holds owed.1 step
      refine ⟨Function.update phases party phase, again, fun other => ?_⟩
      by_cases same : other = party
      · subst same
        simpa using owed.2 reply phase matching
      · simpa [Function.update_of_ne same] using keeps other

/-- Run lemma: what holds at the start and survives one step holds in every
configuration the parties can reach. -/
theorem keeps_reaches (upholds : Upholds shared protocol invariant)
    {start reached : Configuration Answer Failure World Party Outcome}
    (phases : (party : Party) → Phase party) (holds : invariant start.world phases)
    (keeps : Keeps protocol post phases start) (reaches : Reaches shared start reached) :
    ∃ later, invariant reached.world later ∧ Keeps protocol post later reached := by
  induction reaches with
  | refl => exact ⟨phases, holds, keeps⟩
  | tail _ move induction =>
      obtain ⟨middle, middleHolds, middleKeeps⟩ := induction
      exact keeps_move upholds move middle middleHolds middleKeeps

/-- A relation between the worlds before and after holds of every move out of a
reachable configuration if it holds of every step the protocols admit. -/
theorem reached_move_relates (relates : World → World → Prop)
    (upholds : Upholds shared protocol invariant)
    (acts : ∀ world phases party request reply after, invariant world phases →
      (protocol party).admits (phases party) request →
      (shared.machine party).step world request reply after → relates world after)
    (drifts : ∀ world phases after, invariant world phases → shared.drift world after →
      relates world after)
    {start reached next : Configuration Answer Failure World Party Outcome}
    (phases : (party : Party) → Phase party) (holds : invariant start.world phases)
    (keeps : Keeps protocol post phases start) (reaches : Reaches shared start reached)
    (move : Move shared reached next) : relates reached.world next.world := by
  obtain ⟨later, laterHolds, laterKeeps⟩ := keeps_reaches upholds phases holds keeps reaches
  cases move with
  | drift after drifted => exact drifts _ _ _ laterHolds drifted
  | act party request next reply world waiting step =>
      have owed := laterKeeps party
      rw [waiting] at owed
      exact acts _ _ _ _ _ _ laterHolds owed.1 step

end Protocols

end InterleavedParties
