import PretextBuildServer.Library.EffectProgram

/-!
# Runs in which no call fails

A program completes from a state if it ends with a value and every call on the
way is answered with one.
-/

namespace EffectProgram

set_option autoImplicit false

variable {Call : Type} {Answer : Call → Type} {Failure Result Other World : Type}

namespace Program

structure Completes (handler : Handler Answer Failure World) (world : World)
    (program : Program Answer Failure Result) (value : Result) (after : World) : Prop where
  runs : run handler world program = (.ok value, after)
  smooth : AtEachCall handler (fun world request => ∃ answer, (handler world request).1 = .ok answer)
    world program

section Completing

variable {handler : Handler Answer Failure World} {world middle after : World}

theorem completes_pure (world : World) (value : Result) :
    Completes handler world (pure value : Program Answer Failure Result) value world :=
  ⟨rfl, trivial⟩

theorem completes_call {request : Call} {answer : Answer request}
    (answered : handler world request = (.ok answer, after)) :
    Completes handler world (perform request) answer after :=
  ⟨answered, ⟨answer, congrArg Prod.fst answered⟩, trivial⟩

theorem completes_and_then {first : Program Answer Failure Result} {value : Result} {other : Other}
    {next : Except Failure Result → Program Answer Failure Other}
    (begun : Completes handler world first value middle)
    (rest : Completes handler middle (next (.ok value)) other after) :
    Completes handler world (first.andThen next) other after := by
  constructor
  · rw [run_and_then, begun.runs]
    exact rest.runs
  · rw [at_each_call_and_then, begun.runs]
    exact ⟨begun.smooth, rest.smooth⟩

theorem completes_bind {first : Program Answer Failure Result} {value : Result} {other : Other}
    {next : Result → Program Answer Failure Other}
    (begun : Completes handler world first value middle)
    (rest : Completes handler middle (next value) other after) :
    Completes handler world (first >>= next) other after :=
  completes_and_then begun rest

theorem completes_rescue {body : Program Answer Failure Result} {value : Result}
    (fallback : Failure → Program Answer Failure Result)
    (begun : Completes handler world body value after) :
    Completes handler world (rescue body fallback) value after :=
  completes_and_then begun (completes_pure after _)

end Completing

end Program

end EffectProgram
