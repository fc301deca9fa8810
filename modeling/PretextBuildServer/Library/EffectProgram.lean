import Mathlib.Data.List.Basic
import Mathlib.Tactic.Common

/-!
# Programs that act only through calls

A program is a finite tree of calls to its surroundings. Every call is answered
with a value or an exception, and the program goes on from the answer. The tree
fixes no meaning for the calls: a `Handler` answers them one by one, a `Machine`
says which answers are possible. Raising, rescuing and cleaning up are all
instances of `andThen`, so each semantics needs one composition rule only.
-/

namespace EffectProgram

set_option autoImplicit false

/-- What a call is answered with: a value of the type that goes with the call,
or an exception. -/
abbrev Reply {Call : Type} (Answer : Call → Type) (Failure : Type) (request : Call) : Type :=
  Except Failure (Answer request)

inductive Program {Call : Type} (Answer : Call → Type) (Failure Result : Type) where
  | done (outcome : Except Failure Result)
  | call (request : Call) (next : Reply Answer Failure request → Program Answer Failure Result)

variable {Call : Type} {Answer : Call → Type} {Failure Result Other World : Type}

namespace Program

/-- Run `first` and hand its outcome, value or exception, to `next`. -/
def andThen (first : Program Answer Failure Result)
    (next : Except Failure Result → Program Answer Failure Other) :
    Program Answer Failure Other :=
  match first with
  | .done outcome => next outcome
  | .call request rest => .call request fun reply => (rest reply).andThen next

def raise (failure : Failure) : Program Answer Failure Result := .done (.error failure)

def perform (request : Call) : Program Answer Failure (Answer request) := .call request .done

/-- What sequencing does with an outcome: a value goes on, an exception leaves. -/
def onValue (next : Result → Program Answer Failure Other) : Except Failure Result → Program Answer Failure Other
  | .ok value => next value
  | .error failure => raise failure

/-- What an `except` clause does with an outcome; a handler that does not want
an exception raises it again. -/
def onFailure (handler : Failure → Program Answer Failure Result) :
    Except Failure Result → Program Answer Failure Result
  | .ok value => .done (.ok value)
  | .error failure => handler failure

instance : Monad (Program Answer Failure) where
  pure value := .done (.ok value)
  bind first next := first.andThen (onValue next)

/-- `try: body; except: handler`. -/
def rescue (body : Program Answer Failure Result)
    (handler : Failure → Program Answer Failure Result) :
    Program Answer Failure Result :=
  body.andThen (onFailure handler)

/-- `try: body; finally: cleanup`. An exception of the clean-up replaces the
outcome of the body. -/
def ensuring (body : Program Answer Failure Result)
    (cleanup : Program Answer Failure Unit) : Program Answer Failure Result :=
  body.andThen fun outcome => cleanup.andThen (onValue fun _ => .done outcome)

/-- The elements that pass a test made by calls, in their order. -/
def select {Element : Type} (test : Element → Program Answer Failure Bool) :
    List Element → Program Answer Failure (List Element)
  | [] => return []
  | element :: rest => do
      let keep ← test element
      let later ← select test rest
      return if keep then element :: later else later

/-- No call is left to make. -/
def ended : Program Answer Failure Result → Bool
  | .done _ => true
  | .call .. => false

@[simp] theorem bind_is_and_then (first : Program Answer Failure Result) (next : Result → Program Answer Failure Other) :
    first >>= next = first.andThen (onValue next) := rfl

@[simp] theorem pure_is_done (value : Result) :
    (pure value : Program Answer Failure Result) = .done (.ok value) := rfl

@[simp] theorem map_is_and_then (f : Result → Other) (first : Program Answer Failure Result) :
    f <$> first = first.andThen (onValue fun value => .done (.ok (f value))) := rfl

@[simp] theorem done_and_then (outcome : Except Failure Result)
    (next : Except Failure Result → Program Answer Failure Other) :
    (Program.done outcome).andThen next = next outcome := rfl

@[simp] theorem call_and_then (request : Call) (rest : Reply Answer Failure request → Program Answer Failure Result)
    (next : Except Failure Result → Program Answer Failure Other) :
    (Program.call request rest).andThen next =
      .call request fun reply => (rest reply).andThen next := rfl

@[simp] theorem on_value_ok (next : Result → Program Answer Failure Other) (value : Result) :
    onValue next (.ok value) = next value := rfl

@[simp] theorem on_value_error (next : Result → Program Answer Failure Other) (failure : Failure) :
    onValue next (.error failure) = .done (.error failure) := rfl

@[simp] theorem on_failure_ok (handler : Failure → Program Answer Failure Result) (value : Result) :
    onFailure handler (.ok value) = .done (.ok value) := rfl

@[simp] theorem on_failure_error (handler : Failure → Program Answer Failure Result)
    (failure : Failure) : onFailure handler (.error failure) = handler failure := rfl

theorem and_then_assoc {Third : Type} (first : Program Answer Failure Result)
    (next : Except Failure Result → Program Answer Failure Other)
    (last : Except Failure Other → Program Answer Failure Third) :
    (first.andThen next).andThen last = first.andThen fun outcome => (next outcome).andThen last := by
  induction first with
  | done outcome => rfl
  | call request rest induction => simp only [call_and_then, induction]

theorem and_then_done (first : Program Answer Failure Result) : first.andThen .done = first := by
  induction first with
  | done outcome => rfl
  | call request rest induction => simp only [call_and_then, induction]

instance : LawfulMonad (Program Answer Failure) := LawfulMonad.mk'
  _
  (by
    intro Result first
    refine Eq.trans (congrArg first.andThen (funext fun outcome => ?_)) (and_then_done first)
    cases outcome <;> rfl)
  (fun _ _ => rfl)
  (by
    intro First Second Third first next last
    refine (and_then_assoc first _ _).trans (congrArg first.andThen (funext fun outcome => ?_))
    cases outcome <;> rfl)

end Program

/-! ## Answering the calls one by one -/

/-- A handler answers every call from the state it is in. -/
abbrev Handler {Call : Type} (Answer : Call → Type) (Failure World : Type) :=
  World → (request : Call) → Reply Answer Failure request × World

namespace Program

def run (handler : Handler Answer Failure World) : World → Program Answer Failure Result → Except Failure Result × World
  | world, .done outcome => (outcome, world)
  | world, .call request next =>
      let answered := handler world request
      run handler answered.2 (next answered.1)

section Handled

variable (handler : Handler Answer Failure World)

@[simp] theorem run_done (world : World) (outcome : Except Failure Result) :
    run handler world (.done outcome) = (outcome, world) := rfl

@[simp] theorem run_call (world : World) (request : Call)
    (next : Reply Answer Failure request → Program Answer Failure Result) :
    run handler world (.call request next) =
      run handler (handler world request).2 (next (handler world request).1) := rfl

@[simp] theorem run_perform (world : World) (request : Call) :
    run handler world (perform request) = handler world request := rfl

@[simp] theorem run_raise (world : World) (failure : Failure) :
    run handler world (raise failure : Program Answer Failure Result) =
      (.error failure, world) := rfl

theorem run_and_then (world : World) (first : Program Answer Failure Result)
    (next : Except Failure Result → Program Answer Failure Other) :
    run handler world (first.andThen next) =
      run handler (run handler world first).2 (next (run handler world first).1) := by
  induction first generalizing world with
  | done outcome => rfl
  | call request rest induction => exact induction _ _

/-- Every state in which the program makes a call, together with that call,
meets `condition`. -/
def AtEachCall (condition : World → Call → Prop) : World → Program Answer Failure Result → Prop
  | _, .done _ => True
  | world, .call request next =>
      condition world request ∧
        AtEachCall condition (handler world request).2 (next (handler world request).1)

variable {handler}

@[simp] theorem at_each_call_done (condition : World → Call → Prop) (world : World)
    (outcome : Except Failure Result) :
    AtEachCall handler condition world (Program.done outcome) := trivial

@[simp] theorem at_each_call_call (condition : World → Call → Prop) (world : World)
    (request : Call) (next : Reply Answer Failure request → Program Answer Failure Result) :
    AtEachCall handler condition world (.call request next) ↔
      condition world request ∧
        AtEachCall handler condition (handler world request).2
          (next (handler world request).1) := Iff.rfl

instance decidableAtEachCall (condition : World → Call → Prop)
    [decide : ∀ world request, Decidable (condition world request)] : (world : World) →
    (program : Program Answer Failure Result) →
      Decidable (AtEachCall handler condition world program)
  | _, .done _ => isTrue trivial
  | world, .call request next =>
      @instDecidableAnd _ _ (decide world request) (decidableAtEachCall condition _ (next _))

theorem at_each_call_and_then (condition : World → Call → Prop) (world : World)
    (first : Program Answer Failure Result)
    (next : Except Failure Result → Program Answer Failure Other) :
    AtEachCall handler condition world (first.andThen next) ↔
      AtEachCall handler condition world first ∧
        AtEachCall handler condition (run handler world first).2
          (next (run handler world first).1) := by
  induction first generalizing world with
  | done outcome => simp
  | call request rest induction => simp only [call_and_then, at_each_call_call, induction,
      run_call, and_assoc]

theorem at_each_call_mono {condition weaker : World → Call → Prop} (world : World)
    (program : Program Answer Failure Result)
    (implied : ∀ world request, condition world request → weaker world request)
    (holds : AtEachCall handler condition world program) :
    AtEachCall handler weaker world program := by
  induction program generalizing world with
  | done outcome => trivial
  | call request next induction => exact ⟨implied _ _ holds.1, induction _ _ holds.2⟩

theorem at_each_call_both {condition further : World → Call → Prop} (world : World)
    (program : Program Answer Failure Result) (holds : AtEachCall handler condition world program)
    (too : AtEachCall handler further world program) :
    AtEachCall handler (fun world request => condition world request ∧ further world request) world
      program := by
  induction program generalizing world with
  | done outcome => trivial
  | call request next induction => exact ⟨⟨holds.1, too.1⟩, induction _ _ holds.2 too.2⟩

/-- Conditions that agree at each call of a run are met together. -/
theorem at_each_call_iff {first second : World → Call → Prop} (world : World)
    (program : Program Answer Failure Result)
    (alike : AtEachCall handler (fun world request => first world request ↔ second world request)
      world program) :
    AtEachCall handler first world program ↔ AtEachCall handler second world program := by
  induction program generalizing world with
  | done outcome => rfl
  | call request next induction =>
      have here : first world request ↔ second world request := alike.1
      rw [at_each_call_call, at_each_call_call, here, induction _ _ alike.2]

theorem at_each_call_bind {condition : World → Call → Prop} {world : World} {request : Call}
    {next : Answer request → Program Answer Failure Result} :
    AtEachCall handler condition world (perform request >>= next) ↔
      condition world request ∧ ∀ answer after, handler world request = (.ok answer, after) →
        AtEachCall handler condition after (next answer) := by
  rw [bind_is_and_then, at_each_call_and_then, run_perform]
  apply and_congr (and_iff_left trivial)
  constructor
  · intro rest answer after answered
    rw [answered] at rest
    exact rest
  · intro rest
    cases answered : (handler world request).1 with
    | error failure => trivial
    | ok answer => exact rest answer _ (Prod.ext answered rfl)

theorem run_keeps_met {condition : World → Call → Prop} {good : World → Prop}
    (kept : ∀ world request, condition world request → good world → good (handler world request).2)
    (world : World) (program : Program Answer Failure Result)
    (met : AtEachCall handler condition world program) (holds : good world) :
    good (run handler world program).2 := by
  induction program generalizing world with
  | done outcome => exact holds
  | call request next induction =>
      exact induction _ _ met.2 (kept world request met.1 holds)

/-- A loop whose body keeps an invariant and meets the condition under it. -/
theorem at_each_call_fold {Element : Type} {condition : World → Call → Prop}
    (keeps : World → Prop) (body : Result → Element → Program Answer Failure Result)
    (elements : List Element)
    (each : ∀ world value, ∀ element ∈ elements, keeps world →
      AtEachCall handler condition world (body value element) ∧
        keeps (run handler world (body value element)).2)
    (world : World) (value : Result) (start : keeps world) :
    AtEachCall handler condition world (elements.foldlM body value) := by
  induction elements generalizing world value with
  | nil => trivial
  | cons element rest induction =>
      obtain ⟨met, kept⟩ := each world value element List.mem_cons_self start
      rw [List.foldlM_cons, bind_is_and_then, at_each_call_and_then]
      refine ⟨met, ?_⟩
      cases (run handler world (body value element)).1 with
      | error failure => trivial
      | ok value =>
          apply induction _ _ value kept
          intro world value element member
          exact each world value element (List.mem_cons_of_mem _ member)

theorem run_for_cons {Element : Type} (body : Element → Program Answer Failure PUnit)
    (element : Element) (rest : List Element) {world middle : World}
    (ran : run handler world (body element) = (.ok ⟨⟩, middle)) :
    run handler world ((element :: rest).forM body) = run handler middle (rest.forM body) := by
  change run handler world ((body element).andThen (onValue fun _ => rest.forM body)) = _
  rw [run_and_then, ran, on_value_ok]

theorem run_fold_cons {Element : Type} (body : Result → Element → Program Answer Failure Result)
    (element : Element) (rest : List Element) {value next : Result} {world middle : World}
    (ran : run handler world (body value element) = (.ok next, middle)) :
    run handler world ((element :: rest).foldlM body value) =
      run handler middle (rest.foldlM body next) := by
  rw [List.foldlM_cons, bind_is_and_then, run_and_then, ran, on_value_ok]

theorem run_fold {Element : Type} (keeps : World → Result → Prop)
    (body : Result → Element → Program Answer Failure Result) (elements : List Element)
    (each : ∀ world value, ∀ element ∈ elements, keeps world value →
      ∃ after next, run handler world (body value element) = (.ok next, after) ∧ keeps after next)
    (world : World) (value : Result) (start : keeps world value) :
    ∃ after last, run handler world (elements.foldlM body value) = (.ok last, after) ∧
      keeps after last := by
  induction elements generalizing world value with
  | nil => exact ⟨world, value, rfl, start⟩
  | cons element rest induction =>
      obtain ⟨middle, next, ran, kept⟩ := each world value element List.mem_cons_self start
      rw [run_fold_cons body element rest ran]
      apply induction _ middle next kept
      intro world value element member
      exact each world value element (List.mem_cons_of_mem _ member)

theorem run_pure_fold {Element Value : Type}
    (body : Value → Element → Program Answer Failure Value) (step : Value → Element → Value)
    (elements : List Element) {world : World}
    (each : ∀ value, ∀ element ∈ elements,
      run handler world (body value element) = (.ok (step value element), world)) (value : Value) :
    run handler world (elements.foldlM body value) = (.ok (elements.foldl step value), world) := by
  induction elements generalizing value with
  | nil => rfl
  | cons element rest induction =>
      rw [run_fold_cons body element rest (each value element List.mem_cons_self), List.foldl_cons]
      exact induction (fun value other member => each value other (List.mem_cons_of_mem _ member)) _

theorem run_collect {Element Value : Type}
    (body : List Value → Element → Program Answer Failure (List Value))
    (found : Element → List Value) (elements : List Element) {world : World}
    (each : ∀ values, ∀ element ∈ elements,
      run handler world (body values element) = (.ok (values ++ found element), world))
    (values : List Value) : run handler world (elements.foldlM body values) =
      (.ok (values ++ elements.flatMap found), world) := by
  rw [run_pure_fold body (fun values element => values ++ found element) elements each,
    List.foldl_append_eq_append, List.flatMap]

theorem run_pure_map {Element : Type} (body : Element → Program Answer Failure Result)
    (value : Element → Result) (elements : List Element) {world : World}
    (each : ∀ element ∈ elements, run handler world (body element) = (.ok (value element), world)) :
    run handler world (elements.mapM body) = (.ok (elements.map value), world) := by
  induction elements with
  | nil => rfl
  | cons element rest induction =>
      obtain ⟨first, others⟩ := List.forall_mem_cons.mp each
      rw [List.mapM_cons, bind_is_and_then, run_and_then, first, on_value_ok, bind_is_and_then,
        run_and_then, induction others]
      rfl

theorem run_select {Element : Type} {test : Element → Program Answer Failure Bool}
    {keep : Element → Bool} {world : World}
    (looks : ∀ element, run handler world (test element) = (.ok (keep element), world))
    (elements : List Element) :
    run handler world (select test elements) = (.ok (elements.filter keep), world) := by
  induction elements with
  | nil => rfl
  | cons element rest induction =>
      rw [select, bind_is_and_then, run_and_then, looks]
      simp only [on_value_ok, bind_is_and_then, run_and_then, induction, pure_is_done, run_done]
      cases kept : keep element with
      | true => rw [List.filter_cons_of_pos kept]; rfl
      | false => rw [List.filter_cons_of_neg (by simp [kept])]; rfl

theorem run_fold_raises {Element : Type} (body : Result → Element → Program Answer Failure Result)
    {elements : List Element} {world : World}
    (still : ∀ value element, (run handler world (body value element)).2 = world)
    {bad : Element} (member : bad ∈ elements)
    (raises : ∀ value, ∃ failure, (run handler world (body value bad)).1 = .error failure)
    (value : Result) :
    ∃ failure, (run handler world (elements.foldlM body value)).1 = .error failure := by
  induction elements generalizing value with
  | nil => cases member
  | cons element rest induction =>
      rw [List.foldlM_cons, bind_is_and_then, run_and_then, still]
      cases first : (run handler world (body value element)).1 with
      | error failure => exact ⟨failure, rfl⟩
      | ok next =>
          rcases List.mem_cons.mp member with rfl | later
          · obtain ⟨failure, raised⟩ := raises value
            rw [first] at raised
            cases raised
          · exact induction later next

theorem run_fold_ok {Element : Type} (body : Result → Element → Program Answer Failure Result)
    {elements : List Element} {world : World}
    (still : ∀ value element, (run handler world (body value element)).2 = world)
    (keeps : Result → Prop)
    (each : ∀ value, ∀ element ∈ elements, keeps value → ∀ next,
      (run handler world (body value element)).1 = .ok next → keeps next)
    {value last : Result} (start : keeps value)
    (ran : (run handler world (elements.foldlM body value)).1 = .ok last) : keeps last := by
  induction elements generalizing value with
  | nil =>
      cases ran
      exact start
  | cons element rest induction =>
      rw [List.foldlM_cons, bind_is_and_then, run_and_then, still] at ran
      cases first : (run handler world (body value element)).1 with
      | error failure =>
          rw [first] at ran
          cases ran
      | ok next =>
          rw [first] at ran
          apply induction _ (each value element List.mem_cons_self start next first) ran
          intro value other member
          exact each value other (List.mem_cons_of_mem _ member)

/-! ### A property that calls can only lose -/

variable {good : World → Prop} {condition : World → Call → Prop}

theorem lost_stays_lost (onlyLost : ∀ world request, good (handler world request).2 → good world)
    (world : World) (program : Program Answer Failure Result)
    (holds : good (run handler world program).2) : good world := by
  induction program generalizing world with
  | done outcome => exact holds
  | call request next induction => exact onlyLost _ _ (induction _ _ holds)

/-- From this state on, `good` survives the program exactly if every call meets
the condition. -/
def Tracks (handler : Handler Answer Failure World) (good : World → Prop)
    (condition : World → Call → Prop) (world : World)
    (program : Program Answer Failure Result) : Prop :=
  good world → (good (run handler world program).2 ↔ AtEachCall handler condition world program)

theorem tracks_done (world : World) (outcome : Except Failure Result) :
    Tracks handler good condition world (Program.done outcome) := by
  intro holds
  exact iff_of_true holds trivial

theorem tracks_and_then (onlyLost : ∀ world request, good (handler world request).2 → good world)
    (world : World) (first : Program Answer Failure Result)
    (next : Except Failure Result → Program Answer Failure Other)
    (start : Tracks handler good condition world first)
    (rest : Tracks handler good condition (run handler world first).2
      (next (run handler world first).1)) :
    Tracks handler good condition world (first.andThen next) := by
  intro holds
  rw [run_and_then, at_each_call_and_then]
  constructor
  · intro after
    have middle := lost_stays_lost onlyLost _ _ after
    exact ⟨(start holds).mp middle, (rest middle).mp after⟩
  · intro met
    exact (rest ((start holds).mpr met.1)).mpr met.2

theorem tracks_hand_on (world : World) (f : Result → Other) (outcome : Except Failure Result) :
    Tracks handler good condition world
      (onValue (fun value => (pure (f value) : Program Answer Failure Other)) outcome) := by
  cases outcome <;> exact tracks_done world _

theorem tracks_perform {request : Call} {world : World}
    (exact : good world → (good (handler world request).2 ↔ condition world request)) :
    Tracks handler good condition world (perform request) := by
  intro holds
  rw [run_perform, exact holds]
  exact (and_iff_left trivial).symm

theorem tracks_fold {Element : Type}
    (onlyLost : ∀ world request, good (handler world request).2 → good world)
    (body : Result → Element → Program Answer Failure Result) (elements : List Element)
    (each : ∀ world value, ∀ element ∈ elements,
      Tracks handler good condition world (body value element))
    (world : World) (value : Result) :
    Tracks handler good condition world (elements.foldlM body value) := by
  induction elements generalizing world value with
  | nil => exact tracks_done world _
  | cons element rest induction =>
      rw [List.foldlM_cons, bind_is_and_then]
      apply tracks_and_then onlyLost _ _ _ (each world value element List.mem_cons_self)
      cases (run handler world (body value element)).1 with
      | error failure => exact tracks_done _ _
      | ok value =>
          apply induction
          intro world value element member
          exact each world value element (List.mem_cons_of_mem _ member)

end Handled

end Program

/-! ## Possible answers and what a program guarantees against them -/

/-- `admits` is what a program owes whenever it makes a call; `step` lists the
replies and successor states that are possible then. -/
structure Machine {Call : Type} (Answer : Call → Type) (Failure World : Type) where
  admits : World → Call → Prop
  step : World → (request : Call) → Reply Answer Failure request → World → Prop

def Machine.both {State : Type} (first : Machine Answer Failure World)
    (second : Machine Answer Failure State) : Machine Answer Failure (World × State) where
  admits states request := first.admits states.1 request ∧ second.admits states.2 request
  step states request reply after :=
    first.step states.1 request reply after.1 ∧ second.step states.2 request reply after.2

/-- The same machine, restricted to the steps that meet a further condition. -/
def Machine.restrict (machine : Machine Answer Failure World)
    (condition : World → (request : Call) → Reply Answer Failure request → Prop) :
    Machine Answer Failure World where
  admits := machine.admits
  step world request reply after :=
    machine.step world request reply after ∧ condition world request reply

/-- The same machine, which admits only some of the calls. -/
def Machine.within (machine : Machine Answer Failure World) (allowed : Call → Prop) :
    Machine Answer Failure World where
  admits world request := machine.admits world request ∧ allowed request
  step := machine.step

namespace Program

/-- Whatever the machine answers, the program makes admitted calls only and
ends, if it ends, in a state and with an outcome that satisfy `post`. -/
def Guarantees (machine : Machine Answer Failure World)
    (post : World → Except Failure Result → Prop) :
    World → Program Answer Failure Result → Prop
  | world, .done outcome => post world outcome
  | world, .call request next =>
      machine.admits world request ∧
        ∀ reply after, machine.step world request reply after →
          Guarantees machine post after (next reply)

section Guaranteed

variable {machine : Machine Answer Failure World}

@[simp] theorem guarantees_done (post : World → Except Failure Result → Prop)
    (world : World) (outcome : Except Failure Result) :
    Guarantees machine post world (.done outcome) ↔ post world outcome := Iff.rfl

theorem guarantees_call (post : World → Except Failure Result → Prop)
    (world : World) (request : Call) (next : Reply Answer Failure request → Program Answer Failure Result) :
    Guarantees machine post world (.call request next) ↔
      machine.admits world request ∧
        ∀ reply after, machine.step world request reply after →
          Guarantees machine post after (next reply) := Iff.rfl

@[simp] theorem guarantees_perform (request : Call)
    (post : World → Except Failure (Answer request) → Prop) (world : World) :
    Guarantees machine post world (perform request) ↔
      machine.admits world request ∧
        ∀ reply after, machine.step world request reply after → post after reply := Iff.rfl

/-- A program that has ended owes nothing more. -/
theorem guarantees_ended {post : World → Except Failure Result → Prop} {world : World}
    {program : Program Answer Failure Result} (holds : Guarantees machine post world program)
    (past : program.ended = true) : ∃ outcome, program = .done outcome ∧ post world outcome := by
  cases program with
  | done outcome => exact ⟨outcome, rfl, holds⟩
  | call request next => cases past

theorem ended_of_refused {post : World → Except Failure Result → Prop} {world : World}
    {program : Program Answer Failure Result} (holds : Guarantees machine post world program)
    (refused : ∀ request, ¬ machine.admits world request) : program.ended = true := by
  cases program with
  | done outcome => rfl
  | call request next => exact absurd holds.1 (refused request)

theorem guarantees_mono {post weaker : World → Except Failure Result → Prop}
    (world : World) (program : Program Answer Failure Result)
    (implied : ∀ world outcome, post world outcome → weaker world outcome)
    (holds : Guarantees machine post world program) :
    Guarantees machine weaker world program := by
  induction program generalizing world with
  | done outcome => exact implied _ _ holds
  | call request next induction =>
      exact ⟨holds.1, fun reply after step => induction reply after (holds.2 reply after step)⟩

theorem guarantees_and_then (post : World → Except Failure Other → Prop)
    (world : World) (first : Program Answer Failure Result)
    (next : Except Failure Result → Program Answer Failure Other) :
    Guarantees machine post world (first.andThen next) ↔
      Guarantees machine (fun after outcome => Guarantees machine post after (next outcome))
        world first := by
  induction first generalizing world with
  | done outcome => rfl
  | call request rest induction =>
      simp only [call_and_then, guarantees_call, induction]

/-- The sequencing rule in the form proofs use it: what the first part
guarantees is all the second part has to start from. -/
theorem guarantees_seq {middle : World → Except Failure Result → Prop}
    {post : World → Except Failure Other → Prop} (world : World)
    (first : Program Answer Failure Result)
    (next : Except Failure Result → Program Answer Failure Other)
    (start : Guarantees machine middle world first)
    (rest : ∀ after outcome, middle after outcome → Guarantees machine post after (next outcome)) :
    Guarantees machine post world (first.andThen next) :=
  (guarantees_and_then post world first next).mpr
    (guarantees_mono world first rest start)

theorem guarantees_fold {Element : Type} (keeps : World → Result → Prop)
    (body : Result → Element → Program Answer Failure Result) (elements : List Element)
    (each : ∀ world value, ∀ element ∈ elements, keeps world value →
      Guarantees machine (fun after outcome => ∀ next, outcome = .ok next → keeps after next)
        world (body value element))
    (world : World) (value : Result) (start : keeps world value) :
    Guarantees machine (fun after outcome => ∀ last, outcome = .ok last → keeps after last)
      world (elements.foldlM body value) := by
  induction elements generalizing world value with
  | nil =>
      rintro _ ⟨⟩
      exact start
  | cons element rest induction =>
      rw [List.foldlM_cons, bind_is_and_then]
      apply guarantees_seq _ _ _ (each world value element List.mem_cons_self start)
      rintro after (failure | next) kept
      · intro last impossible
        cases impossible
      · apply induction _ after next (kept next rfl)
        intro world value element member
        exact each world value element (List.mem_cons_of_mem _ member)

theorem guarantees_for {Element : Type} (keeps : World → Prop)
    (body : Element → Program Answer Failure PUnit) (elements : List Element)
    (each : ∀ world, ∀ element ∈ elements, keeps world →
      Guarantees machine (fun after _ => keeps after) world (body element))
    (world : World) (start : keeps world) :
    Guarantees machine (fun after _ => keeps after) world (elements.forM body) := by
  induction elements generalizing world with
  | nil => exact start
  | cons element rest induction =>
      apply guarantees_seq _ _ _ (each world element List.mem_cons_self start)
      rintro after (failure | value) kept
      · exact kept
      · apply induction _ after kept
        intro world element member
        exact each world element (List.mem_cons_of_mem _ member)

theorem guarantees_both {State : Type} {second : Machine Answer Failure State}
    {post : World → Except Failure Result → Prop} {other : State → Except Failure Result → Prop}
    {world : World} {state : State} (program : Program Answer Failure Result)
    (holds : Guarantees machine post world program) (too : Guarantees second other state program) :
    Guarantees (machine.both second) (fun after outcome => post after.1 outcome ∧ other after.2 outcome)
      (world, state) program := by
  induction program generalizing world state with
  | done outcome => exact ⟨holds, too⟩
  | call request next induction =>
      refine ⟨⟨holds.1, too.1⟩, ?_⟩
      rintro reply ⟨world, state⟩ ⟨one, two⟩
      exact induction reply (holds.2 reply world one) (too.2 reply state two)

theorem guarantees_free (free : ∀ world request, machine.admits world request) (world : World)
    (program : Program Answer Failure Result) :
    Guarantees machine (fun _ _ => True) world program := by
  induction program generalizing world with
  | done outcome => trivial
  | call request next induction =>
      exact ⟨free world request, fun reply after _ => induction reply after⟩

/-- A handler whose answers are among those the machine lists ends where the
machine can end: what a program guarantees, its run delivers. -/
theorem run_delivers {State : Type} (handler : Handler Answer Failure State)
    (related : State → World → Prop) (post : World → Except Failure Result → Prop)
    (plays : ∀ state world request, related state world → machine.admits world request →
      ∃ later, machine.step world request (handler state request).1 later ∧
        related (handler state request).2 later)
    (program : Program Answer Failure Result) (state : State) (world : World)
    (start : related state world) (holds : Guarantees machine post world program) :
    ∃ later, related (run handler state program).2 later ∧
      post later (run handler state program).1 := by
  induction program generalizing state world with
  | done outcome => exact ⟨world, start, holds⟩
  | call request next induction =>
      obtain ⟨later, step, again⟩ := plays state world request start holds.1
      exact induction _ _ later again (holds.2 _ later step)

end Guaranteed

/-- All calls the program can ever make, whatever it is answered. -/
def MakesOnly (allowed : Call → Prop) : Program Answer Failure Result → Prop
  | .done _ => True
  | .call request next => allowed request ∧ ∀ reply, MakesOnly allowed (next reply)

section Restrained

variable {allowed : Call → Prop}

@[simp] theorem makes_only_done (outcome : Except Failure Result) :
    MakesOnly allowed (Program.done outcome : Program Answer Failure Result) := trivial

@[simp] theorem makes_only_raise (failure : Failure) :
    MakesOnly allowed (raise failure : Program Answer Failure Result) := trivial

@[simp] theorem makes_only_perform (request : Call) :
    MakesOnly allowed (perform request : Program Answer Failure (Answer request)) ↔
      allowed request :=
  ⟨fun only => only.1, fun holds => ⟨holds, fun _ => trivial⟩⟩

theorem at_each_call_of_makes_only {handler : Handler Answer Failure World}
    {condition : World → Call → Prop}
    (implied : ∀ world request, allowed request → condition world request) (world : World)
    (program : Program Answer Failure Result) (only : MakesOnly allowed program) :
    AtEachCall handler condition world program := by
  induction program generalizing world with
  | done outcome => trivial
  | call request next induction => exact ⟨implied _ _ only.1, induction _ _ (only.2 _)⟩

theorem run_unchanged {handler : Handler Answer Failure World} {world : World}
    (kept : ∀ request, allowed request → (handler world request).2 = world)
    (program : Program Answer Failure Result) (only : MakesOnly allowed program) :
    (run handler world program).2 = world := by
  induction program with
  | done outcome => rfl
  | call request next induction =>
      rw [run_call, kept request only.1]
      exact induction _ (only.2 _)

theorem run_keeps {handler : Handler Answer Failure World} {good : World → Prop}
    (kept : ∀ world request, allowed request → good world → good (handler world request).2)
    (world : World) (program : Program Answer Failure Result) (only : MakesOnly allowed program)
    (holds : good world) : good (run handler world program).2 := by
  induction program generalizing world with
  | done outcome => exact holds
  | call request next induction => exact induction _ _ (only.2 _) (kept world request only.1 holds)

theorem tracks_of_makes_only {handler : Handler Answer Failure World} {good : World → Prop}
    {condition : World → Call → Prop}
    (kept : ∀ world request, allowed request → good world → good (handler world request).2)
    (free : ∀ world request, allowed request → condition world request) (world : World)
    (program : Program Answer Failure Result) (only : MakesOnly allowed program) :
    Tracks handler good condition world program := by
  intro holds
  exact iff_of_true (run_keeps kept world program only holds)
    (at_each_call_of_makes_only free world program only)

theorem makes_only_mono {further : Call → Prop} (program : Program Answer Failure Result)
    (implied : ∀ request, allowed request → further request) (only : MakesOnly allowed program) :
    MakesOnly further program := by
  induction program with
  | done outcome => trivial
  | call request next induction =>
      exact ⟨implied _ only.1, fun reply => induction reply (only.2 reply)⟩

theorem makes_only_and_then (first : Program Answer Failure Result)
    (next : Except Failure Result → Program Answer Failure Other) (start : MakesOnly allowed first)
    (rest : ∀ outcome, MakesOnly allowed (next outcome)) :
    MakesOnly allowed (first.andThen next) := by
  induction first with
  | done outcome => exact rest outcome
  | call request following induction => exact ⟨start.1, fun reply => induction reply (start.2 reply)⟩

theorem makes_only_for {Element : Type} (body : Element → Program Answer Failure PUnit)
    (elements : List Element) (each : ∀ element, MakesOnly allowed (body element)) :
    MakesOnly allowed (elements.forM body) := by
  induction elements with
  | nil => trivial
  | cons element rest induction =>
      apply makes_only_and_then _ _ (each element)
      rintro (failure | value)
      · trivial
      · exact induction

theorem makes_only_fold {Element : Type} (body : Result → Element → Program Answer Failure Result)
    (elements : List Element) (each : ∀ value element, MakesOnly allowed (body value element))
    (value : Result) : MakesOnly allowed (elements.foldlM body value) := by
  induction elements generalizing value with
  | nil => trivial
  | cons element rest induction =>
      rw [List.foldlM_cons, bind_is_and_then]
      apply makes_only_and_then _ _ (each value element)
      rintro (failure | next)
      · trivial
      · exact induction next

theorem makes_only_select {Element : Type} {test : Element → Program Answer Failure Bool}
    (only : ∀ element, MakesOnly allowed (test element)) (elements : List Element) :
    MakesOnly allowed (select test elements) := by
  induction elements with
  | nil => trivial
  | cons element rest induction =>
      apply makes_only_and_then _ _ (only element)
      rintro (raised | keep)
      · trivial
      · apply makes_only_and_then _ _ induction
        rintro (raised | later) <;> trivial

theorem makes_only_map {Element : Type} (body : Element → Program Answer Failure Result)
    (elements : List Element) (each : ∀ element, MakesOnly allowed (body element)) :
    MakesOnly allowed (elements.mapM body) := by
  induction elements with
  | nil => trivial
  | cons element rest induction =>
      rw [List.mapM_cons, bind_is_and_then]
      apply makes_only_and_then _ _ (each element)
      rintro (failure | value)
      · trivial
      · rw [on_value_ok, bind_is_and_then]
        apply makes_only_and_then _ _ induction
        rintro (failure | values) <;> trivial

theorem guarantees_of_makes_only {machine : Machine Answer Failure World} (world : World)
    (program : Program Answer Failure Result) (only : MakesOnly allowed program)
    (admitted : ∀ request, allowed request → machine.admits world request)
    (unchanged : ∀ request reply after, allowed request →
      machine.step world request reply after → after = world) :
    Guarantees machine (fun after _ => after = world) world program := by
  induction program with
  | done outcome => rfl
  | call request next induction =>
      refine ⟨admitted request only.1, fun reply after step => ?_⟩
      obtain rfl := unchanged request reply after only.1 step
      exact induction reply (only.2 reply)

theorem guarantees_within {machine : Machine Answer Failure World}
    {post : World → Except Failure Result → Prop} (world : World)
    (program : Program Answer Failure Result) (holds : Guarantees machine post world program)
    (only : MakesOnly allowed program) : Guarantees (machine.within allowed) post world program := by
  induction program generalizing world with
  | done outcome => exact holds
  | call request next induction =>
      exact ⟨⟨holds.1, only.1⟩, fun reply after step =>
        induction reply after (holds.2 reply after step) (only.2 reply)⟩

end Restrained

end Program

end EffectProgram
