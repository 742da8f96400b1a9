/-
# Machines that answer each input

A machine with a state that answers each input it is given and moves to a new
state: `step s i = (answer, s')`. Two such machines are compared by forward
simulation. A relation between their states that each allowed input keeps, and
under which both give the same answer, makes every run of allowed inputs give
the same answers from related states, and ends in related states.

A machine whose steps may fail (`runPartial`) keeps a property over a run
whose inputs are each allowed where they come (`runPartial_invariant`, and
`runPartial_invariant_taken` for one that reads the inputs taken; a run can be
checked to be allowed by running it, `allowedAlong`), takes
on each run one of the runs of a machine given as a relation whose steps it
follows (`runPartial_runs`), and refines a total one while a
budget lasts (`Refinement`): each input costs some of it, and from related
states with enough budget left the step does not fail, answers as the total
machine does, and leaves related states with the cost spent.
-/

import Mathlib.Algebra.GroupWithZero.Nat

namespace DispatchRouter.Math.Mealy

variable {σ τ ι ο : Type}

/-- The answers to `inputs` one after another, and the state they leave. -/
def run (step : σ → ι → ο × σ) (s : σ) : List ι → List ο × σ
  | [] => ([], s)
  | input :: inputs =>
      let (answer, next) := step s input
      let (answers, final) := run step next inputs
      (answer :: answers, final)

@[simp]
theorem run_nil (step : σ → ι → ο × σ) (s : σ) : run step s [] = ([], s) := rfl

@[simp]
theorem run_cons (step : σ → ι → ο × σ) (s : σ) (input : ι) (inputs : List ι) :
    run step s (input :: inputs) =
      ((step s input).1 :: (run step (step s input).2 inputs).1,
        (run step (step s input).2 inputs).2) := rfl

theorem run_append (step : σ → ι → ο × σ) (s : σ) (inputs more : List ι) :
    run step s (inputs ++ more) =
      ((run step s inputs).1 ++ (run step (run step s inputs).2 more).1, (run step (run step s inputs).2 more).2) := by
  induction inputs generalizing s with
  | nil => rfl
  | cons input inputs ih => simp [ih]

/-- A property every step keeps holds at the end of every run. -/
theorem run_invariant (step : σ → ι → ο × σ) {keeps : σ → Prop}
    (step_keeps : ∀ s input, keeps s → keeps (step s input).2) {s : σ} (start : keeps s) :
    ∀ inputs : List ι, keeps (run step s inputs).2 := by
  intro inputs
  induction inputs generalizing s with
  | nil => exact start
  | cons input inputs ih => exact ih (step_keeps s input start)

/-- `related` is a forward simulation of `step₁` by `step₂` on the allowed inputs. -/
structure Simulation (step₁ : σ → ι → ο × σ) (step₂ : τ → ι → ο × τ) (allowed : ι → Prop)
    (related : σ → τ → Prop) : Prop where
  answer : ∀ s t input, related s t → allowed input → (step₁ s input).1 = (step₂ t input).1
  keep : ∀ s t input, related s t → allowed input → related (step₁ s input).2 (step₂ t input).2

variable {step₁ : σ → ι → ο × σ} {step₂ : τ → ι → ο × τ} {allowed : ι → Prop}
  {related : σ → τ → Prop}

/-- Related machines answer a run of allowed inputs alike and end related; by
induction on the run, one input at a time. -/
theorem Simulation.run (simulation : Simulation step₁ step₂ allowed related) {s : σ} {t : τ}
    (start : related s t) (inputs : List ι) (ok : ∀ input ∈ inputs, allowed input) :
    (Mealy.run step₁ s inputs).1 = (Mealy.run step₂ t inputs).1 ∧
      related (Mealy.run step₁ s inputs).2 (Mealy.run step₂ t inputs).2 := by
  induction inputs generalizing s t with
  | nil => exact ⟨rfl, start⟩
  | cons input inputs ih =>
      have here : allowed input := ok input List.mem_cons_self
      have later : ∀ other ∈ inputs, allowed other := fun other mem => ok other (List.mem_cons_of_mem _ mem)
      obtain ⟨answers, final⟩ := ih (simulation.keep s t input start here) later
      simp only [run_cons]
      exact ⟨by rw [simulation.answer s t input start here, answers], final⟩

/-- The answers of a machine whose steps may fail, and the state they leave,
unless a step fails. -/
def runPartial (step : σ → ι → Option (ο × σ)) (s : σ) : List ι → Option (List ο × σ)
  | [] => some ([], s)
  | input :: inputs => do
      let (answer, next) ← step s input
      let (answers, final) ← runPartial step next inputs
      some (answer :: answers, final)

theorem runPartial_append (step : σ → ι → Option (ο × σ)) (s : σ) (inputs more : List ι) :
    runPartial step s (inputs ++ more) =
      (runPartial step s inputs).bind fun first =>
        (runPartial step first.2 more).map fun rest => (first.1 ++ rest.1, rest.2) := by
  induction inputs generalizing s with
  | nil => simp [runPartial]
  | cons input inputs ih =>
      simp only [List.cons_append, runPartial, ih, Option.bind_eq_bind]
      cases step s input with
      | none => rfl
      | some stepped =>
          simp only [Option.bind_some]
          cases runPartial step stepped.2 inputs with
          | none => rfl
          | some ran =>
              simp only [Option.bind_some]
              cases runPartial step ran.2 more <;> rfl

/-- A fold whose steps may fail, from a state with a property every allowed
step keeps and never fails on, does not fail and ends with the property; by
induction on the inputs. -/
theorem foldlM_invariant (step : σ → ι → Option σ) {keeps : σ → Prop} {allowed : ι → Prop}
    (step_keeps : ∀ s input, keeps s → allowed input → ∃ s', step s input = some s' ∧ keeps s') :
    ∀ (inputs : List ι) {s : σ}, keeps s → (∀ input ∈ inputs, allowed input) →
      ∃ s', inputs.foldlM step s = some s' ∧ keeps s'
  | [], s, start, _ => ⟨s, rfl, start⟩
  | input :: inputs, s, start, ok => by
      obtain ⟨next, stepped, kept⟩ := step_keeps s input start (ok input List.mem_cons_self)
      obtain ⟨final, ran, ended⟩ :=
        foldlM_invariant step step_keeps inputs kept fun other mem => ok other (List.mem_cons_of_mem _ mem)
      exact ⟨final, by rw [List.foldlM_cons, stepped, Option.bind_eq_bind, Option.bind_some, ran], ended⟩

/-- A property every allowed step keeps holds after a fold over allowed
inputs; by induction on the inputs. -/
theorem foldl_invariant (step : σ → ι → σ) {keeps : σ → Prop} {allowed : ι → Prop}
    (step_keeps : ∀ s input, keeps s → allowed input → keeps (step s input)) :
    ∀ (inputs : List ι) {s : σ}, keeps s → (∀ input ∈ inputs, allowed input) → keeps (inputs.foldl step s)
  | [], _, start, _ => start
  | input :: inputs, s, start, ok =>
      foldl_invariant step step_keeps inputs (step_keeps s input start (ok input List.mem_cons_self))
        fun other mem => ok other (List.mem_cons_of_mem _ mem)

/-- Each input allowed in the state the machine is in when it comes. -/
def AllowedRun (step : σ → ι → Option (ο × σ)) (allowed : σ → ι → Prop) : σ → List ι → Prop
  | _, [] => True
  | s, input :: inputs =>
      allowed s input ∧ ∀ answer next, step s input = some (answer, next) → AllowedRun step allowed next inputs

/-- After a step that does not fail, the rest of an allowed run is allowed
from the state it leaves. -/
theorem allowedRun_cons_of_step {step : σ → ι → Option (ο × σ)} {allowed : σ → ι → Prop} {s next : σ} {input : ι}
    {answer : ο} (inputs : List ι) (stepped : step s input = some (answer, next)) :
    AllowedRun step allowed s (input :: inputs) ↔ allowed s input ∧ AllowedRun step allowed next inputs := by
  constructor
  · exact fun ⟨here, later⟩ => ⟨here, later answer next stepped⟩
  · rintro ⟨here, later⟩
    refine ⟨here, fun answer' next' stepped' => ?_⟩
    rw [stepped, Option.some.injEq, Prod.mk.injEq] at stepped'
    obtain ⟨-, rfl⟩ := stepped'
    exact later

/-- Whether each input is allowed in the state the machine is in when it
comes, found by running the machine; a step that fails ends the check. -/
def allowedAlong (step : σ → ι → Option (ο × σ)) (allowed : σ → ι → Prop) [∀ s input, Decidable (allowed s input)] :
    σ → List ι → Bool
  | _, [] => true
  | s, input :: inputs =>
      decide (allowed s input) &&
        match step s input with
        | some (_, next) => allowedAlong step allowed next inputs
        | none => true

/-- A run the check passes is allowed; by induction on the run. -/
theorem allowedRun_of_allowedAlong {step : σ → ι → Option (ο × σ)} {allowed : σ → ι → Prop}
    [∀ s input, Decidable (allowed s input)] :
    ∀ {s : σ} (inputs : List ι), allowedAlong step allowed s inputs = true → AllowedRun step allowed s inputs
  | _, [], _ => trivial
  | s, input :: inputs, checked => by
      simp only [allowedAlong, Bool.and_eq_true, decide_eq_true_eq] at checked
      refine ⟨checked.1, fun answer next stepped => ?_⟩
      have rest := checked.2
      rw [stepped] at rest
      exact allowedRun_of_allowedAlong inputs rest

/-- A run allowed where each input comes, whose inputs each have a property of
their own, is allowed by both; by induction on the run. -/
theorem AllowedRun.and_forall {step : σ → ι → Option (ο × σ)} {allowed : σ → ι → Prop} {also : ι → Prop} :
    ∀ {s : σ} (inputs : List ι), AllowedRun step allowed s inputs → (∀ input ∈ inputs, also input) →
      AllowedRun step (fun s input => allowed s input ∧ also input) s inputs
  | _, [], _, _ => trivial
  | _, input :: inputs, ⟨here, later⟩, each =>
      ⟨⟨here, each input List.mem_cons_self⟩, fun answer next stepped =>
        AllowedRun.and_forall inputs (later answer next stepped) fun other mem => each other (List.mem_cons_of_mem _ mem)⟩

/-- A machine whose steps keep a property, and never fail on an input allowed
in the state they are taken in, does not fail on a run of allowed inputs and
ends with the property; by induction on the run. -/
theorem runPartial_invariant (step : σ → ι → Option (ο × σ)) {keeps : σ → Prop} {allowed : σ → ι → Prop}
    (step_keeps : ∀ s input, keeps s → allowed s input → ∃ answer next, step s input = some (answer, next) ∧ keeps next) :
    ∀ (inputs : List ι) {s : σ}, keeps s → AllowedRun step allowed s inputs →
      ∃ answers final, runPartial step s inputs = some (answers, final) ∧ keeps final
  | [], s, start, _ => ⟨[], s, rfl, start⟩
  | input :: inputs, s, start, ⟨here, later⟩ => by
      obtain ⟨answer, next, stepped, kept⟩ := step_keeps s input start here
      obtain ⟨answers, final, ran, ended⟩ := runPartial_invariant step step_keeps inputs kept (later answer next stepped)
      exact ⟨answer :: answers, final, by simp [runPartial, stepped, ran], ended⟩

/-- A property of the state and of the inputs taken to reach it, which every
step on an allowed input keeps without failing, holds at the end of an allowed
run, over all the inputs taken; by induction on the run. -/
theorem runPartial_invariant_taken (step : σ → ι → Option (ο × σ)) {keeps : List ι → σ → Prop}
    {allowed : σ → ι → Prop}
    (step_keeps : ∀ taken s input, keeps taken s → allowed s input →
      ∃ answer next, step s input = some (answer, next) ∧ keeps (taken ++ [input]) next) :
    ∀ (inputs : List ι) {taken : List ι} {s : σ}, keeps taken s → AllowedRun step allowed s inputs →
      ∃ answers final, runPartial step s inputs = some (answers, final) ∧ keeps (taken ++ inputs) final
  | [], taken, s, start, _ => ⟨[], s, rfl, by rw [List.append_nil]; exact start⟩
  | input :: inputs, taken, s, start, ⟨here, later⟩ => by
      obtain ⟨answer, next, stepped, kept⟩ := step_keeps taken s input start here
      obtain ⟨answers, final, ran, ended⟩ :=
        runPartial_invariant_taken step step_keeps inputs kept (later answer next stepped)
      refine ⟨answer :: answers, final, by simp [runPartial, stepped, ran], ?_⟩
      rwa [List.append_assoc, List.singleton_append] at ended

/-- The answers a machine given as a relation, `spec t input answer next`, may
give to `inputs` one after another, and a state it may end in. -/
def Runs (spec : τ → ι → ο → τ → Prop) : τ → List ι → List ο → τ → Prop
  | t, [], [], final => final = t
  | t, input :: inputs, answer :: answers, final =>
      ∃ next, spec t input answer next ∧ Runs spec next inputs answers final
  | _, _, _, _ => False

/-- A machine that, from states related to those of a relation, does not fail
on an allowed input and takes one of the relation's steps, leaving related
states, gives on a run of allowed inputs answers the relation may give, and
ends related; by induction on the run. -/
theorem runPartial_runs (impl : σ → ι → Option (ο × σ)) {spec : τ → ι → ο → τ → Prop}
    {related : σ → τ → Prop} {allowed : ι → Prop}
    (step : ∀ s t input, related s t → allowed input →
      ∃ answer s' t', impl s input = some (answer, s') ∧ spec t input answer t' ∧ related s' t') :
    ∀ (inputs : List ι) {s : σ} {t : τ}, related s t → (∀ input ∈ inputs, allowed input) →
      ∃ answers s' t', runPartial impl s inputs = some (answers, s') ∧ Runs spec t inputs answers t' ∧
        related s' t'
  | [], s, t, start, _ => ⟨[], s, t, rfl, rfl, start⟩
  | input :: inputs, s, t, start, ok => by
      obtain ⟨answer, next, nextSpec, stepped, specStep, kept⟩ := step s t input start (ok input List.mem_cons_self)
      obtain ⟨answers, final, finalSpec, ran, specRan, ended⟩ :=
        runPartial_runs impl step inputs kept fun other mem => ok other (List.mem_cons_of_mem _ mem)
      exact ⟨answer :: answers, final, finalSpec, by simp [runPartial, stepped, ran],
        ⟨nextSpec, specStep, specRan⟩, ended⟩

/-- `impl` refines `spec` while the budget in `related` lasts. -/
structure Refinement (impl : σ → ι → Option (ο × σ)) (spec : τ → ι → ο × τ) (cost : ι → Nat)
    (related : Nat → σ → τ → Prop) : Prop where
  step : ∀ budget s t input, related (cost input + budget) s t →
    ∃ s', impl s input = some ((spec t input).1, s') ∧ related budget s' (spec t input).2

/-- A run whose costs fit the budget does not fail, answers as the total
machine does, and ends related; by induction on the run. -/
theorem Refinement.run {impl : σ → ι → Option (ο × σ)} {spec : τ → ι → ο × τ} {cost : ι → Nat}
    {related : Nat → σ → τ → Prop} (refinement : Refinement impl spec cost related) (inputs : List ι)
    {budget : Nat} {s : σ} {t : τ} (start : related ((inputs.map cost).sum + budget) s t) :
    ∃ s', runPartial impl s inputs = some ((Mealy.run spec t inputs).1, s') ∧
      related budget s' (Mealy.run spec t inputs).2 := by
  induction inputs generalizing s t with
  | nil => exact ⟨s, rfl, by simpa using start⟩
  | cons input inputs ih =>
      have enough : related (cost input + ((inputs.map cost).sum + budget)) s t := by
        simpa [Nat.add_assoc] using start
      obtain ⟨next, stepped, kept⟩ := refinement.step _ s t input enough
      obtain ⟨final, ran, ended⟩ := ih kept
      refine ⟨final, ?_, ended⟩
      simp only [runPartial, stepped, Option.bind_eq_bind, Option.bind_some, ran, run_cons]

end DispatchRouter.Math.Mealy
