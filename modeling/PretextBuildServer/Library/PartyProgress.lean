import PretextBuildServer.Library.InterleavedParties

/-!
# One party brought to its end

A program is a finite tree, so a party that can always make its next call comes
to an end after so many calls. Here it makes them in one go, while all the others
stand still.
-/

namespace InterleavedParties

open EffectProgram EffectProgram.Program

set_option autoImplicit false

variable {Call : Type} {Answer : Call → Type} {Failure World Party State : Type}
  {Outcome : Party → Type} [DecidableEq Party]

/-- The same surroundings, with nothing going on but what the parties do. -/
def Surroundings.still (shared : Surroundings Answer Failure World Party) :
    Surroundings Answer Failure World Party where
  machine := shared.machine
  drift _ _ := False

theorem still_reaches {shared : Surroundings Answer Failure World Party}
    {before after : Configuration Answer Failure World Party Outcome}
    (reaches : Reaches shared.still before after) : Reaches shared before after := by
  refine Relation.ReflTransGen.mono ?_ _ _ reaches
  intro first second move
  cases move with
  | act party request next reply world waiting step =>
      exact .act first party request next reply world waiting step
  | drift world drifts => exact drifts.elim

/-- Whatever the party's machine admits can be answered, and what is kept is kept
by the answer. -/
def GoesOn (shared : Surroundings Answer Failure World Party) (party : Party)
    (machine : Machine Answer Failure State) (keeps : World → State → Prop) : Prop :=
  ∀ world state request, keeps world state → machine.admits state request →
    ∃ reply after later, (shared.machine party).step world request reply after ∧
      machine.step state request reply later ∧ keeps after later

theorem party_finishes {shared : Surroundings Answer Failure World Party} {party : Party}
    {machine : Machine Answer Failure State} {keeps : World → State → Prop}
    (goesOn : GoesOn shared party machine keeps)
    {post : State → Except Failure (Outcome party) → Prop}
    (before : Configuration Answer Failure World Party Outcome) (state : State)
    (holds : keeps before.world state)
    (owed : Guarantees machine post state (before.rest party)) :
    ∃ after last outcome, Reaches shared before after ∧ keeps after.world last ∧
      post last outcome ∧
      after.rest = Function.update before.rest party (.done outcome) := by
  generalize left : before.rest party = program at owed
  induction program generalizing before state with
  | done outcome =>
      refine ⟨before, state, outcome, .refl, holds, owed, ?_⟩
      rw [← left, Function.update_eq_self]
  | call request next induction =>
      obtain ⟨reply, world, later, step, matching, again⟩ := goesOn _ _ request holds owed.1
      have moved := act_reaches shared before party reply world left step
      obtain ⟨after, last, outcome, run, kept, ended, rest⟩ :=
        induction reply ⟨world, Function.update before.rest party (next reply)⟩ later again
          (Function.update_self _ _ _) (owed.2 reply later matching)
      refine ⟨after, last, outcome, moved.trans run, kept, ended, rest.trans ?_⟩
      exact Function.update_idem _ _ _

end InterleavedParties
