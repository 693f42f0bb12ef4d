import Mathlib.Data.List.Basic
import Mathlib.Tactic.Common

/-!
# Runs of a transition system

A transition system is a total step function of a state and an action. A run takes a list of
actions one after the other. Invariants are proved step by step; a property that only holds
under a condition on the steps is carried by the runs whose steps all meet the condition.

## Main definitions

* `run step s acts`: the state after the actions `acts`
* `Along ok step s acts`: every action of the run meets `ok` in the state before it
* `outputs out step s acts`: the outputs of the steps of a run, in order
* `pairStep`: two systems side by side

## Main results

* `run_invariant`: a property every step preserves holds after every run
* `run_invariant_along`: the same, for the runs whose steps meet a condition
* `run_outputs_invariant`: an invariant of the state and the outputs so far
* `run_outputs_invariant_along`: the same, for the runs whose steps meet a condition
* `outputs_simulation`: related systems have the same outputs
* `run_pairStep`: a run of two systems side by side is a run of each
-/

namespace Transition

variable {S T A B O : Type*}

/-- The state after the actions `acts`, taken one after the other from `s`. -/
def run (step : S → A → S) (s : S) (acts : List A) : S := acts.foldl step s

@[simp] theorem run_nil (step : S → A → S) (s : S) : run step s [] = s := rfl

@[simp] theorem run_cons (step : S → A → S) (s : S) (a : A) (acts : List A) :
    run step s (a :: acts) = run step (step s a) acts := rfl

theorem run_append (step : S → A → S) (s : S) (acts bcts : List A) :
    run step s (acts ++ bcts) = run step (run step s acts) bcts := List.foldl_append

theorem run_snoc (step : S → A → S) (s : S) (acts : List A) (a : A) :
    run step s (acts ++ [a]) = step (run step s acts) a := run_append step s acts [a]

/-- Every action of the run from `s` meets `ok` in the state before it. -/
def Along (ok : S → A → Prop) (step : S → A → S) : S → List A → Prop
  | _, [] => True
  | s, a :: acts => ok s a ∧ Along ok step (step s a) acts

@[simp] theorem along_nil (ok : S → A → Prop) (step : S → A → S) (s : S) :
    Along ok step s [] := trivial

@[simp] theorem along_cons {ok : S → A → Prop} {step : S → A → S} {s : S} {a : A}
    {acts : List A} :
    Along ok step s (a :: acts) ↔ ok s a ∧ Along ok step (step s a) acts := Iff.rfl

theorem along_append {ok : S → A → Prop} {step : S → A → S} {s : S} {acts bcts : List A} :
    Along ok step s (acts ++ bcts) ↔
      Along ok step s acts ∧ Along ok step (run step s acts) bcts := by
  induction acts generalizing s with
  | nil => simp
  | cons a acts ih => simp [ih, and_assoc]

/-- A condition that implies another carries the runs that meet it along. -/
theorem Along.mono {ok ok' : S → A → Prop} {step : S → A → S}
    (h : ∀ s a, ok s a → ok' s a) {s : S} {acts : List A} (hr : Along ok step s acts) :
    Along ok' step s acts := by
  induction acts generalizing s with
  | nil => trivial
  | cons a acts ih => exact ⟨h s a hr.1, ih hr.2⟩

/-- A condition on the actions alone is one on the steps. -/
theorem Along.of_mem {P : A → Prop} {step : S → A → S} {s : S} {acts : List A}
    (h : ∀ a ∈ acts, P a) : Along (fun _ a => P a) step s acts := by
  induction acts generalizing s with
  | nil => trivial
  | cons a acts ih =>
    obtain ⟨ha, hacts⟩ := List.forall_mem_cons.mp h
    exact ⟨ha, ih hacts⟩

theorem Along.forall_mem {P : A → Prop} {step : S → A → S} {s : S} {acts : List A}
    (h : Along (fun _ a => P a) step s acts) : ∀ a ∈ acts, P a := by
  induction acts generalizing s with
  | nil => simp
  | cons a acts ih => exact List.forall_mem_cons.mpr ⟨h.1, ih h.2⟩

/-- Two conditions on the steps join. -/
theorem Along.and {ok ok' : S → A → Prop} {step : S → A → S} {s : S} {acts : List A}
    (h : Along ok step s acts) (h' : Along ok' step s acts) :
    Along (fun s a => ok s a ∧ ok' s a) step s acts := by
  induction acts generalizing s with
  | nil => trivial
  | cons a acts ih => exact ⟨⟨h.1, h'.1⟩, ih h.2 h'.2⟩

/-- A condition on the actions alone joins one on the steps. -/
theorem Along.and_mem {ok : S → A → Prop} {P : A → Prop} {step : S → A → S} {s : S}
    {acts : List A} (hr : Along ok step s acts) (h : ∀ a ∈ acts, P a) :
    Along (fun s a => ok s a ∧ P a) step s acts := hr.and (.of_mem h)

/-- A property that every step meeting `ok` preserves holds after every run whose steps meet
`ok`. -/
theorem run_invariant_along (inv : S → Prop) (ok : S → A → Prop) {step : S → A → S}
    (hstep : ∀ s a, inv s → ok s a → inv (step s a)) {s : S} {acts : List A}
    (hs : inv s) (hok : Along ok step s acts) : inv (run step s acts) := by
  induction acts generalizing s with
  | nil => exact hs
  | cons a acts ih => exact ih (hstep s a hs hok.1) hok.2

/-- A property that every step preserves holds after every run. -/
theorem run_invariant (inv : S → Prop) {step : S → A → S}
    (hstep : ∀ s a, inv s → inv (step s a)) {s : S} (hs : inv s) (acts : List A) :
    inv (run step s acts) := by
  induction acts generalizing s with
  | nil => exact hs
  | cons a acts ih => exact ih (hstep s a hs)

/-- The outputs of the steps of a run, in order. -/
def outputs (out : S → A → List O) (step : S → A → S) : S → List A → List O
  | _, [] => []
  | s, a :: acts => out s a ++ outputs out step (step s a) acts

@[simp] theorem outputs_nil (out : S → A → List O) (step : S → A → S) (s : S) :
    outputs out step s [] = [] := rfl

@[simp] theorem outputs_cons (out : S → A → List O) (step : S → A → S) (s : S) (a : A)
    (acts : List A) :
    outputs out step s (a :: acts) = out s a ++ outputs out step (step s a) acts := rfl

theorem outputs_append (out : S → A → List O) (step : S → A → S) (s : S) (acts bcts : List A) :
    outputs out step s (acts ++ bcts) =
      outputs out step s acts ++ outputs out step (run step s acts) bcts := by
  induction acts generalizing s with
  | nil => rfl
  | cons a acts ih => simp [ih]

/-- The invariant rule for a run together with its outputs so far. -/
theorem run_outputs_invariant (inv : S → List O → Prop) {out : S → A → List O} {step : S → A → S}
    (hstep : ∀ s a os, inv s os → inv (step s a) (os ++ out s a)) {s : S} {os : List O}
    (hs : inv s os) (acts : List A) : inv (run step s acts) (os ++ outputs out step s acts) := by
  induction acts generalizing s os with
  | nil => simpa using hs
  | cons a acts ih =>
    rw [outputs_cons, ← List.append_assoc]
    exact ih (hstep s a os hs)

/-- A condition on the outputs of a run is one on its steps. -/
theorem along_outputs {P : O → Prop} {out : S → A → List O} {step : S → A → S} {s : S}
    {acts : List A} : (∀ o ∈ outputs out step s acts, P o) ↔
      Along (fun s a => ∀ o ∈ out s a, P o) step s acts := by
  induction acts generalizing s with
  | nil => simp
  | cons a acts ih => rw [outputs_cons, List.forall_mem_append, along_cons, ih]

/-- The invariant rule for the runs whose steps meet a condition, together with their outputs so
far. -/
theorem run_outputs_invariant_along (inv : S → List O → Prop) (ok : S → A → Prop)
    {out : S → A → List O} {step : S → A → S}
    (hstep : ∀ s a os, inv s os → ok s a → inv (step s a) (os ++ out s a)) {s : S} {os : List O}
    {acts : List A} (hs : inv s os) (hok : Along ok step s acts) :
    inv (run step s acts) (os ++ outputs out step s acts) := by
  induction acts generalizing s os with
  | nil => simpa using hs
  | cons a acts ih =>
    rw [outputs_cons, ← List.append_assoc]
    exact ih (hstep s a os hs hok.1) hok.2

/-- A simulation: two systems that stay related and answer every action alike have the same
outputs along every run. -/
theorem outputs_simulation (rel : S → T → Prop) {step : S → A → S} {step' : T → A → T}
    {out : S → A → List O} {out' : T → A → List O}
    (hstep : ∀ s t a, rel s t → rel (step s a) (step' t a) ∧ out s a = out' t a) {s : S} {t : T}
    (hs : rel s t) (acts : List A) : outputs out step s acts = outputs out' step' t acts := by
  induction acts generalizing s t with
  | nil => rfl
  | cons a acts ih =>
    obtain ⟨hrel, hout⟩ := hstep s t a hs
    rw [outputs_cons, outputs_cons, hout, ih hrel]

/-- Two systems side by side, each taking its own action. -/
def pairStep (step : S → A → S) (step' : T → B → T) : S × T → A × B → S × T :=
  fun s a => (step s.1 a.1, step' s.2 a.2)

theorem run_pairStep (step : S → A → S) (step' : T → B → T) (s : S × T) (acts : List (A × B)) :
    run (pairStep step step') s acts =
      (run step s.1 (acts.map Prod.fst), run step' s.2 (acts.map Prod.snd)) := by
  induction acts generalizing s with
  | nil => rfl
  | cons a acts ih => simp [ih, pairStep]

end Transition
