import LCChess.Library.Fairness

/-!
# What a system can be made to do

A transition system is led from one state to another by a run of actions that are at hand. Such
runs are put together one after the other, and found by actions that lower a rank.

## Main definitions

* `Leads ok out step s os s'`: a run whose steps meet `ok` leads from `s` to `s'`, with the
  outputs `os`

## Main results

* `Leads.trans`: runs follow each other
* `Leads.invariant`: what the runs at hand keep
* `exists_leads`: a goal is reached by actions that lower a rank
* `Helps.exists_leads`: what helps fair runs leads to their goal
-/

namespace Transition

variable {S A K O : Type*}

/-- A run whose steps meet `ok` leads from `s` to `s'`, with the outputs `os`. -/
def Leads (ok : S → A → Prop) (out : S → A → List O) (step : S → A → S) (s : S) (os : List O)
    (s' : S) : Prop :=
  ∃ acts, Along ok step s acts ∧ outputs out step s acts = os ∧ run step s acts = s'

section Leads

variable {ok : S → A → Prop} {out : S → A → List O} {step : S → A → S} {s s' s'' : S}
  {os os' : List O}

theorem Leads.refl (s : S) : Leads ok out step s [] s := ⟨[], trivial, rfl, rfl⟩

/-- One action at hand. -/
theorem Leads.single {a : A} (h : ok s a) : Leads ok out step s (out s a) (step s a) :=
  ⟨[a], ⟨h, trivial⟩, by simp, rfl⟩

/-- Runs follow each other. -/
theorem Leads.trans (h : Leads ok out step s os s') (h' : Leads ok out step s' os' s'') :
    Leads ok out step s (os ++ os') s'' := by
  obtain ⟨acts, hok, rfl, rfl⟩ := h
  obtain ⟨acts', hok', rfl, rfl⟩ := h'
  exact ⟨acts ++ acts', along_append.mpr ⟨hok, hok'⟩, outputs_append .., run_append ..⟩

/-- What every step at hand keeps, together with the outputs so far. -/
theorem Leads.invariant (inv : S → List O → Prop)
    (hstep : ∀ s a os, inv s os → ok s a → inv (step s a) (os ++ out s a))
    (h : Leads ok out step s os' s') (hs : inv s os) : inv s' (os ++ os') := by
  obtain ⟨acts, hok, rfl, rfl⟩ := h
  exact run_outputs_invariant_along inv ok hstep hs hok

/-- **A goal is reached** without an output, if in every state of `inv` before it some action at
hand lowers a rank, or reaches the goal. -/
theorem exists_leads (inv goal : S → Prop) (rank : S → ℕ)
    (hstep : ∀ s, inv s → ¬ goal s → ∃ a, ok s a ∧ out s a = [] ∧
      (goal (step s a) ∨ inv (step s a) ∧ rank (step s a) < rank s)) (hs : inv s) :
    ∃ s', Leads ok out step s [] s' ∧ goal s' := by
  -- on the rank
  induction hr : rank s using Nat.strongRecOn generalizing s with
  | ind r ih =>
    by_cases hgoal : goal s
    · exact ⟨s, .refl s, hgoal⟩
    · obtain ⟨a, hok, hout, hnext⟩ := hstep s hs hgoal
      have hlead : Leads ok out step s [] (step s a) := hout ▸ .single hok
      rcases hnext with hgoal' | ⟨hinv, hlt⟩
      · exact ⟨_, hlead, hgoal'⟩
      · obtain ⟨s', hlead', hgoal'⟩ := ih _ (hr ▸ hlt) hinv rfl
        exact ⟨s', hlead.trans hlead', hgoal'⟩

/-- **What helps fair runs leads to their goal**, if every kind of action is at hand. -/
theorem Helps.exists_leads {ok' : S → A → Prop} {inv goal : S → Prop} {rank : S → ℕ} {kind : S → K}
    {does : A → K → Prop} (h : Helps step ok' inv goal rank kind does)
    (hhand : ∀ s k, ∃ a, ok s a ∧ ok' s a ∧ out s a = [] ∧ does a k) (hs : inv s) :
    ∃ s', Leads ok out step s [] s' ∧ goal s' := by
  refine Transition.exists_leads inv goal rank (fun s hs hgoal => ?_) hs
  obtain ⟨a, hok, hok', hout, hdoes⟩ := hhand s (kind s)
  refine ⟨a, hok, hout, ?_⟩
  -- before the goal the invariant stays, and the action lowers the rank
  rcases h.keeps s a hs hgoal hok' with hgoal' | ⟨hinv, -⟩
  · exact .inl hgoal'
  · exact (h.helps s a hs hgoal hok' hdoes).imp id fun hlt => ⟨hinv, hlt⟩

end Leads

end Transition
