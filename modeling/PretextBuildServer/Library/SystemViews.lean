import PretextBuildServer.Library.InterleavedParties

/-!
# One part of a system, seen through the whole

A view shows some of the parties and what they can tell of the world. If what
everybody else does looks, through the view, like the part's own surroundings,
every run of the whole is a run of the part. If the part's steps are possible
whatever else is going on, every run of the part can be had inside the whole.
-/

namespace InterleavedParties

open EffectProgram EffectProgram.Program

set_option autoImplicit false

structure View (World Party Seen Member : Type) where
  see : World → Seen
  place : Member → Party
  apart : Function.Injective place

variable {Call : Type} {Answer : Call → Type} {Failure World Party Seen Member : Type}
  {Outcome : Party → Type}

def View.part (view : View World Party Seen Member)
    (configuration : Configuration Answer Failure World Party Outcome) :
    Configuration Answer Failure Seen Member (fun member => Outcome (view.place member)) where
  world := view.see configuration.world
  rest member := configuration.rest (view.place member)

section Moved

variable [DecidableEq Party] [DecidableEq Member] (view : View World Party Seen Member)
  (configuration : Configuration Answer Failure World Party Outcome) (after : World)

theorem part_of_own (member : Member) (next : Program Answer Failure (Outcome (view.place member))) :
    view.part ⟨after, Function.update configuration.rest (view.place member) next⟩ =
      ⟨view.see after, Function.update (view.part configuration).rest member next⟩ := by
  have rest := Function.update_comp_eq_of_injective' configuration.rest view.apart member next
  simp only [View.part, ← rest]

omit [DecidableEq Member] in
theorem part_of_other (party : Party) (other : ∀ member, view.place member ≠ party)
    (next : Program Answer Failure (Outcome party)) :
    view.part ⟨after, Function.update configuration.rest party next⟩ =
      ⟨view.see after, (view.part configuration).rest⟩ := by
  simp only [View.part, Function.update_of_ne (other _)]

end Moved

/-! ## From the whole to the part -/

variable [DecidableEq Party] [DecidableEq Member] {Phase : Party → Type}
  {view : View World Party Seen Member}
  {whole : Surroundings Answer Failure World Party}
  {part : Surroundings Answer Failure Seen Member}
  {protocol : (party : Party) → Machine Answer Failure (Phase party)}
  {post : (party : Party) → Phase party → Except Failure (Outcome party) → Prop}
  {invariant : World → ((party : Party) → Phase party) → Prop}

/-- Under an invariant of the whole, its steps show in the part as the part's
own steps, or as drift. -/
structure Projects (view : View World Party Seen Member)
    (whole : Surroundings Answer Failure World Party)
    (part : Surroundings Answer Failure Seen Member)
    (protocol : (party : Party) → Machine Answer Failure (Phase party))
    (invariant : World → ((party : Party) → Phase party) → Prop) : Prop where
  own : ∀ world phases member request reply after, invariant world phases →
    (protocol (view.place member)).admits (phases (view.place member)) request →
    (whole.machine (view.place member)).step world request reply after →
    (part.machine member).step (view.see world) request reply (view.see after)
  others : ∀ world phases party request reply after, invariant world phases →
    (protocol party).admits (phases party) request → (∀ member, view.place member ≠ party) →
    (whole.machine party).step world request reply after →
    Relation.ReflTransGen part.drift (view.see world) (view.see after)
  drift : ∀ world phases after, invariant world phases → whole.drift world after →
    Relation.ReflTransGen part.drift (view.see world) (view.see after)

omit [DecidableEq Party] in
theorem drifts_reach {seen later : Seen}
    {rest : (member : Member) → Program Answer Failure (Outcome (view.place member))}
    (drifts : Relation.ReflTransGen part.drift seen later) :
    Reaches part (⟨seen, rest⟩ : Configuration Answer Failure Seen Member _) ⟨later, rest⟩ := by
  induction drifts with
  | refl => exact .refl
  | tail _ drift induction => exact induction.tail (.drift ⟨_, rest⟩ _ drift)

theorem part_move (projects : Projects view whole part protocol invariant)
    {before after : Configuration Answer Failure World Party Outcome}
    (phases : (party : Party) → Phase party) (holds : invariant before.world phases)
    (keeps : Keeps protocol post phases before) (move : Move whole before after) :
    Reaches part (view.part before) (view.part after) := by
  cases move with
  | drift world drifts => exact drifts_reach (projects.drift _ _ _ holds drifts)
  | act party request next reply world waiting step =>
      have owed := keeps party
      rw [waiting] at owed
      by_cases mine : ∃ member, view.place member = party
      · obtain ⟨member, rfl⟩ := mine
        rw [part_of_own]
        exact act_reaches part (view.part before) member reply _ waiting
          (projects.own _ _ _ _ _ _ holds owed.1 step)
      · have other : ∀ member, view.place member ≠ party := fun member same => mine ⟨member, same⟩
        rw [part_of_other _ _ _ _ other]
        exact drifts_reach (projects.others _ _ _ _ _ _ holds owed.1 other step)

/-- Run lemma: a run of the whole, seen through the view, is a run of the part. -/
theorem part_reaches (projects : Projects view whole part protocol invariant)
    (upholds : Upholds whole protocol invariant)
    {start reached : Configuration Answer Failure World Party Outcome}
    (phases : (party : Party) → Phase party) (holds : invariant start.world phases)
    (keeps : Keeps protocol post phases start) (reaches : Reaches whole start reached) :
    Reaches part (view.part start) (view.part reached) := by
  induction reaches with
  | refl => exact .refl
  | tail earlier move induction =>
      obtain ⟨later, laterHolds, laterKeeps⟩ := keeps_reaches upholds phases holds keeps earlier
      exact induction.trans (part_move projects later laterHolds laterKeeps move)

omit [DecidableEq Member] in
theorem upholds_restrict (upholds : Upholds whole protocol invariant)
    (condition : World → (party : Party) → (request : Call) → Reply Answer Failure request → Prop) :
    Upholds (whole.restrict condition) protocol invariant where
  act world phases party request reply after holds admitted step :=
    upholds.act world phases party request reply after holds admitted step.1
  drift := upholds.drift

omit [DecidableEq Party] [DecidableEq Member] in
/-- A view of a restricted whole shows a part restricted by what can be seen of
the condition. -/
theorem projects_restrict (projects : Projects view whole part protocol invariant)
    (condition : World → (party : Party) → (request : Call) → Reply Answer Failure request → Prop)
    (shown : Seen → (member : Member) → (request : Call) → Reply Answer Failure request → Prop)
    (implied : ∀ world member request reply, condition world (view.place member) request reply →
      shown (view.see world) member request reply) :
    Projects view (whole.restrict condition) (part.restrict shown) protocol invariant where
  own world phases member request reply after holds admitted step :=
    ⟨projects.own world phases member request reply after holds admitted step.1,
      implied world member request reply step.2⟩
  others world phases party request reply after holds admitted other step :=
    projects.others world phases party request reply after holds admitted other step.1
  drift := projects.drift

/-! ## From the part to the whole -/

variable {MemberPhase : Member → Type}
  {rules : (member : Member) → Machine Answer Failure (MemberPhase member)}
  {ended : (member : Member) → MemberPhase member → Except Failure (Outcome (view.place member)) →
    Prop}
  {sound : Seen → ((member : Member) → MemberPhase member) → Prop}

/-- Whatever the rest of the world is like, it lets the part take the steps its
protocols admit. -/
structure Lifts (view : View World Party Seen Member)
    (whole : Surroundings Answer Failure World Party)
    (part : Surroundings Answer Failure Seen Member)
    (rules : (member : Member) → Machine Answer Failure (MemberPhase member))
    (sound : Seen → ((member : Member) → MemberPhase member) → Prop) : Prop where
  own : ∀ world phases member request reply seen, sound (view.see world) phases →
    (rules member).admits (phases member) request →
    (part.machine member).step (view.see world) request reply seen →
    ∃ after, (whole.machine (view.place member)).step world request reply after ∧
      view.see after = seen
  drift : ∀ world seen, part.drift (view.see world) seen →
    ∃ after, whole.drift world after ∧ view.see after = seen

/-- Run lemma: a run of the part can be had from wherever the whole stands, and
the other parties need not move for it. -/
theorem part_lifts (lifts : Lifts view whole part rules sound)
    (upholds : Upholds part rules sound)
    {start : Configuration Answer Failure World Party Outcome}
    {seen : Configuration Answer Failure Seen Member (fun member => Outcome (view.place member))}
    (phases : (member : Member) → MemberPhase member)
    (holds : sound (view.see start.world) phases) (keeps : Keeps rules ended phases (view.part start))
    (reaches : Reaches part (view.part start) seen) :
    ∃ reached, Reaches whole start reached ∧ view.part reached = seen ∧
      ∀ party, (∀ member, view.place member ≠ party) → reached.rest party = start.rest party := by
  induction reaches with
  | refl => exact ⟨start, .refl, rfl, fun _ _ => rfl⟩
  | tail earlier move induction =>
      obtain ⟨middle, run, rfl, untouched⟩ := induction
      obtain ⟨later, laterHolds, laterKeeps⟩ := keeps_reaches upholds phases holds keeps earlier
      cases move with
      | drift world drifts =>
          obtain ⟨after, drifted, rfl⟩ := lifts.drift _ _ drifts
          exact ⟨⟨after, middle.rest⟩, run.tail (.drift _ _ drifted), rfl, untouched⟩
      | act member request next reply world waiting step =>
          have owed := laterKeeps member
          rw [waiting] at owed
          obtain ⟨after, stepped, rfl⟩ := lifts.own _ _ _ _ _ _ laterHolds owed.1 step
          refine ⟨_, run.tail (.act middle (view.place member) request next reply after waiting
            stepped), part_of_own view middle after member (next reply), ?_⟩
          intro party other
          exact (Function.update_of_ne (Ne.symm (other member)) _ _).trans (untouched party other)

/-! ## The same system over a world kept another way -/

omit [DecidableEq Member]

section Rendered

variable {low : Surroundings Answer Failure World Party}
  {high : Surroundings Answer Failure Seen Party} {see : World → Seen}

def Configuration.rendered (see : World → Seen)
    (configuration : Configuration Answer Failure World Party Outcome) :
    Configuration Answer Failure Seen Party Outcome where
  world := see configuration.world
  rest := configuration.rest

/-- Every step of the one system shows in the other, and every step of the other
can be had. -/
structure Renders (see : World → Seen) (low : Surroundings Answer Failure World Party)
    (high : Surroundings Answer Failure Seen Party) : Prop where
  act : ∀ world party request reply after, (low.machine party).step world request reply after →
    (high.machine party).step (see world) request reply (see after)
  drift : ∀ world after, low.drift world after → high.drift (see world) (see after)
  actBack : ∀ world party request reply seen,
    (high.machine party).step (see world) request reply seen →
    ∃ after, (low.machine party).step world request reply after ∧ see after = seen
  driftBack : ∀ world seen, high.drift (see world) seen →
    ∃ after, low.drift world after ∧ see after = seen

theorem rendered_move (renders : Renders see low high)
    {before after : Configuration Answer Failure World Party Outcome}
    (move : Move low before after) : Move high (before.rendered see) (after.rendered see) := by
  cases move with
  | drift world drifts => exact .drift (before.rendered see) _ (renders.drift _ _ drifts)
  | act party request next reply world waiting step =>
      exact .act (before.rendered see) party request next reply _ waiting
        (renders.act _ _ _ _ _ step)

theorem move_rendered (renders : Renders see low high)
    {before : Configuration Answer Failure World Party Outcome}
    {seen : Configuration Answer Failure Seen Party Outcome}
    (move : Move high (before.rendered see) seen) :
    ∃ after, Move low before after ∧ after.rendered see = seen := by
  cases move with
  | drift world drifts =>
      obtain ⟨after, drifted, rfl⟩ := renders.driftBack _ _ drifts
      exact ⟨⟨after, before.rest⟩, .drift before after drifted, rfl⟩
  | act party request next reply world waiting step =>
      obtain ⟨after, stepped, rfl⟩ := renders.actBack _ _ _ _ _ step
      exact ⟨_, .act before party request next reply after waiting stepped, rfl⟩

/-- Run lemma: the two systems have the same runs. -/
theorem rendered_reaches_iff (renders : Renders see low high)
    (start : Configuration Answer Failure World Party Outcome)
    (seen : Configuration Answer Failure Seen Party Outcome) :
    Reaches high (start.rendered see) seen ↔
      ∃ reached, Reaches low start reached ∧ reached.rendered see = seen := by
  constructor
  · intro reaches
    induction reaches with
    | refl => exact ⟨start, .refl, rfl⟩
    | tail _ move induction =>
        obtain ⟨middle, run, rfl⟩ := induction
        obtain ⟨after, moved, same⟩ := move_rendered renders move
        exact ⟨after, run.tail moved, same⟩
  · rintro ⟨reached, reaches, rfl⟩
    induction reaches with
    | refl => exact .refl
    | tail _ move induction => exact induction.tail (rendered_move renders move)

end Rendered

end InterleavedParties
