import PretextBuildServer.Library.EffectProgram

/-!
# Calls that take several steps

Where others may look in between, a call has to be told from the steps it is
made of. `expand` puts a program of finer calls in the place of every call; what
a program guarantees against a coarse machine, its expansion guarantees against
a fine one, if every call's own program plays the coarse step.
-/

namespace EffectProgram

set_option autoImplicit false

variable {Call Fine : Type} {Answer : Call → Type} {FineAnswer : Fine → Type}
  {Failure Result Other World State : Type}

namespace Program

def expand (body : (request : Call) → Program FineAnswer Failure (Answer request)) :
    Program Answer Failure Result → Program FineAnswer Failure Result
  | .done outcome => .done outcome
  | .call request next => (body request).andThen fun reply => (next reply).expand body

section Expanded

variable (body : (request : Call) → Program FineAnswer Failure (Answer request))

@[simp] theorem expand_done (outcome : Except Failure Result) :
    (Program.done outcome : Program Answer Failure Result).expand body = .done outcome := rfl

@[simp] theorem expand_call (request : Call)
    (next : Reply Answer Failure request → Program Answer Failure Result) :
    (Program.call request next).expand body =
      (body request).andThen fun reply => (next reply).expand body := rfl

/-- The fine machine plays the coarse one: from related states, the program of
an admitted call ends as the coarse machine can step, in related states again. -/
def Plays (coarse : Machine Answer Failure World) (fine : Machine FineAnswer Failure State)
    (related : State → World → Prop) : Prop :=
  ∀ state world request, related state world → coarse.admits world request →
    Guarantees fine
      (fun later reply => ∃ after, coarse.step world request reply after ∧ related later after)
      state (body request)

variable {body}

theorem guarantees_expand {coarse : Machine Answer Failure World}
    {fine : Machine FineAnswer Failure State} {related : State → World → Prop}
    {post : World → Except Failure Result → Prop} (plays : Plays body coarse fine related)
    {state : State} {world : World} (program : Program Answer Failure Result)
    (start : related state world) (holds : Guarantees coarse post world program) :
    Guarantees fine (fun later outcome => ∃ after, related later after ∧ post after outcome)
      state (program.expand body) := by
  induction program generalizing state world with
  | done outcome => exact ⟨world, start, holds⟩
  | call request next induction =>
      apply guarantees_seq _ _ _ (plays state world request start holds.1)
      rintro later reply ⟨after, step, again⟩
      exact induction reply again (holds.2 reply after step)

end Expanded

end Program

end EffectProgram
