import LCChess.Library.Run

/-!
# Fair runs

An infinite run takes the actions of a sequence one after the other. A run in which every kind
of action comes again and again reaches its goal, if in every state before the goal some kind of
action helps: it lowers a rank, and no other action raises the rank or changes what helps.

## Main definitions

* `trace step s acts n`: the state after the first `n` actions of an infinite run
* `Again P`: `P` holds again and again
* `Helps`: a rank and a kind of helpful action for every state

## Main results

* `trace_invariant_along`: invariants of infinite runs
* `Helps.reaches`: a fair run reaches its goal
-/

namespace Transition

variable {S A K : Type*}

/-- The state after the first `n` actions of an infinite run. -/
def trace (step : S → A → S) (s : S) (acts : ℕ → A) : ℕ → S
  | 0 => s
  | n + 1 => step (trace step s acts n) (acts n)

@[simp] theorem trace_zero (step : S → A → S) (s : S) (acts : ℕ → A) :
    trace step s acts 0 = s := rfl

theorem trace_succ (step : S → A → S) (s : S) (acts : ℕ → A) (n : ℕ) :
    trace step s acts (n + 1) = step (trace step s acts n) (acts n) := rfl

/-- A finite part of an infinite run is a run. -/
theorem trace_eq_run (step : S → A → S) (s : S) (acts : ℕ → A) (n : ℕ) :
    trace step s acts n = run step s ((List.range n).map acts) := by
  induction n with
  | zero => rfl
  | succ n ih => rw [trace_succ, ih, List.range_succ, List.map_append, List.map_singleton, run_snoc]

/-- A condition that holds along a finite part holds of each of its steps. -/
theorem ok_of_along {ok : S → A → Prop} {step : S → A → S} {s : S} {acts : ℕ → A} {k : ℕ}
    (h : Along ok step s ((List.range k).map acts)) {n : ℕ} (hn : n < k) :
    ok (trace step s acts n) (acts n) := by
  induction k with
  | zero => exact absurd hn (Nat.not_lt_zero n)
  | succ k ih =>
    rw [List.range_succ, List.map_append, along_append, ← trace_eq_run] at h
    rcases Nat.lt_succ_iff_lt_or_eq.mp hn with hlt | rfl
    · exact ih h.1 hlt
    · exact h.2.1

/-- What follows the first `n` actions is an infinite run. -/
theorem trace_add (step : S → A → S) (s : S) (acts : ℕ → A) (n k : ℕ) :
    trace step s acts (n + k) = trace step (trace step s acts n) (fun i => acts (n + i)) k := by
  induction k with
  | zero => rfl
  | succ k ih => rw [← Nat.add_assoc, trace_succ, trace_succ, ih]

/-- A property that every step keeps holds along an infinite run. -/
theorem trace_invariant_along (inv : S → Prop) (ok : S → A → Prop) {step : S → A → S}
    (hstep : ∀ s a, inv s → ok s a → inv (step s a)) {s : S} (hs : inv s) {acts : ℕ → A}
    (hok : ∀ n, ok (trace step s acts n) (acts n)) (n : ℕ) : inv (trace step s acts n) := by
  induction n with
  | zero => exact hs
  | succ n ih => exact hstep _ _ ih (hok n)

/-- Without a condition on the steps. -/
theorem trace_invariant (inv : S → Prop) {step : S → A → S} (hstep : ∀ s a, inv s → inv (step s a))
    {s : S} (hs : inv s) (acts : ℕ → A) (n : ℕ) : inv (trace step s acts n) :=
  trace_invariant_along inv (fun _ _ => True) (fun s a h _ => hstep s a h) hs (fun _ => trivial) n

/-- `P` holds again and again. -/
def Again (P : ℕ → Prop) : Prop := ∀ n, ∃ m, n ≤ m ∧ P m

theorem Again.mono {P Q : ℕ → Prop} (h : Again P) (hPQ : ∀ n, P n → Q n) : Again Q := by
  intro n
  obtain ⟨m, hm, hP⟩ := h n
  exact ⟨m, hm, hPQ m hP⟩

/-- What holds again and again does so from any time on. -/
theorem Again.shift {P : ℕ → Prop} (h : Again P) (k : ℕ) : Again fun n => P (k + n) := by
  intro n
  obtain ⟨m, hm, hP⟩ := h (k + n)
  refine ⟨m - k, by omega, ?_⟩
  have hshift : k + (m - k) = m := by omega
  simpa only [hshift] using hP

/-- Every state of `inv` before the `goal` has a rank and a kind of action that helps: an action of
this kind lowers the rank or reaches the goal, and every other action that meets the condition `ok`
does so too, or leaves the rank and the kind as they are. -/
structure Helps (step : S → A → S) (ok : S → A → Prop) (inv goal : S → Prop) (rank : S → ℕ)
    (kind : S → K) (does : A → K → Prop) : Prop where
  keeps : ∀ s a, inv s → ¬ goal s → ok s a → goal (step s a) ∨
    inv (step s a) ∧ (rank (step s a) < rank s ∨
      rank (step s a) = rank s ∧ kind (step s a) = kind s)
  helps : ∀ s a, inv s → ¬ goal s → ok s a → does a (kind s) → goal (step s a) ∨
    rank (step s a) < rank s

/-- **A fair run reaches its goal**, if every kind of action comes again and again. -/
theorem Helps.reaches {step : S → A → S} {ok : S → A → Prop} {inv goal : S → Prop} {rank : S → ℕ}
    {kind : S → K} {does : A → K → Prop} (h : Helps step ok inv goal rank kind does) {s : S}
    (hs : inv s) {acts : ℕ → A} (hok : ∀ n, ok (trace step s acts n) (acts n))
    (hfair : ∀ k, Again fun n => does (acts n) k) :
    ∃ n, goal (trace step s acts n) := by
  -- on the rank: it drops before or with the next action that helps
  induction hr : rank s using Nat.strongRecOn generalizing s acts with
  | ind r ih =>
    obtain ⟨m, -, hm⟩ := hfair (kind s) 0
    have hdrop : ∃ n, goal (trace step s acts n) ∨
        inv (trace step s acts n) ∧ rank (trace step s acts n) < r := by
      by_contra hnone
      simp only [not_exists, not_or, not_and] at hnone
      -- otherwise the state at the helpful action is still as good as the first one
      have hsame : ∀ n ≤ m, inv (trace step s acts n) ∧ rank (trace step s acts n) = r ∧
          kind (trace step s acts n) = kind s := by
        intro n
        induction n with
        | zero => exact fun _ => ⟨hs, hr, rfl⟩
        | succ n ihn =>
          intro hn
          obtain ⟨hinv, hrank, hkind⟩ := ihn (by omega)
          obtain ⟨hgoal, hnext⟩ := hnone (n + 1)
          rcases h.keeps _ (acts n) hinv (hnone n).1 (hok n) with hgoal' | ⟨hinv', hlt | ⟨heq, hk⟩⟩
          · exact absurd hgoal' hgoal
          · have := hnext hinv'
            rw [trace_succ] at this
            omega
          · exact ⟨hinv', heq.trans hrank, hk.trans hkind⟩
      obtain ⟨hinv, hrank, hkind⟩ := hsame m (Nat.le_refl m)
      obtain ⟨hgoal, hnext⟩ := hnone (m + 1)
      rcases h.helps _ (acts m) hinv (hnone m).1 (hok m) (hkind ▸ hm) with hgoal' | hlt
      · exact hgoal hgoal'
      · rcases h.keeps _ (acts m) hinv (hnone m).1 (hok m) with hgoal' | ⟨hinv', -⟩
        · exact hgoal hgoal'
        · have := hnext hinv'
          rw [trace_succ] at this
          omega
    obtain ⟨n, hgoal | ⟨hinv, hlt⟩⟩ := hdrop
    · exact ⟨n, hgoal⟩
    · have hshift : ∀ k, Again fun i => does (acts (n + i)) k := fun k => (hfair k).shift n
      have hok' : ∀ k, ok (trace step (trace step s acts n) (fun i => acts (n + i)) k)
          (acts (n + k)) := fun k => by
        rw [← trace_add]
        exact hok (n + k)
      obtain ⟨k, hk⟩ := ih _ hlt hinv hok' hshift rfl
      exact ⟨n + k, by rwa [trace_add]⟩

end Transition
