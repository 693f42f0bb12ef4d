import Mathlib.Data.List.Basic
import Mathlib.Data.Nat.Init
import Mathlib.Tactic.Common

/-!
# Counted loops

`forLoop lo hi body` is the loop `for (i = lo; i < hi; i++) body`. Its invariant rule is the
only induction on loops a proof needs.

## Main definitions

* `forLoop lo hi body s`: the counted loop

## Main results

* `forLoop_invariant`: an invariant indexed by the counter
* `forLoop_congr`: bodies that agree run alike
* `forLoop_keeps`: a property every iteration preserves
* `forLoop_reaches`: a property that one iteration establishes
* `forLoop_related`: a relation that every iteration preserves
-/

namespace Loop

variable {S : Type*}

/-- The loop `for (i = lo; i < hi; i++) s = body(i, s)`. -/
def forLoop (lo hi : ℕ) (body : ℕ → S → S) (s : S) : S :=
  (List.range' lo (hi - lo)).foldl (fun s i => body i s) s

@[simp] theorem forLoop_of_le {lo hi : ℕ} (h : hi ≤ lo) (body : ℕ → S → S) (s : S) :
    forLoop lo hi body s = s := by
  simp [forLoop, Nat.sub_eq_zero_of_le h]

/-- The last iteration of a loop. -/
theorem forLoop_succ {lo hi : ℕ} (h : lo ≤ hi) (body : ℕ → S → S) (s : S) :
    forLoop lo (hi + 1) body s = body hi (forLoop lo hi body s) := by
  have hlen : hi + 1 - lo = (hi - lo) + 1 := by omega
  have hlast : lo + (hi - lo) = hi := by omega
  simp [forLoop, hlen, List.range'_concat, hlast]

/-- The invariant rule: `inv i` holds whenever the counter is `i`. -/
theorem forLoop_invariant {lo hi : ℕ} {body : ℕ → S → S} (inv : ℕ → S → Prop)
    (hle : lo ≤ hi) (hstep : ∀ i s, lo ≤ i → i < hi → inv i s → inv (i + 1) (body i s))
    {s : S} (hs : inv lo s) : inv hi (forLoop lo hi body s) := by
  induction hi, hle using Nat.le_induction with
  | base => simpa using hs
  | succ hi hle ih =>
    rw [forLoop_succ hle]
    exact hstep hi _ hle (Nat.lt_succ_self hi)
      (ih fun i s hlo hhi => hstep i s hlo (Nat.lt_succ_of_lt hhi))

/-- Bodies that agree on the values of the counter run alike. -/
theorem forLoop_congr {lo hi : ℕ} {body body' : ℕ → S → S}
    (h : ∀ i, lo ≤ i → i < hi → ∀ s, body i s = body' i s) :
    forLoop lo hi body = forLoop lo hi body' := by
  funext s
  apply List.foldl_ext _ _ s
  intro t i hi
  obtain ⟨hlo, hhi⟩ := List.mem_range'_1.mp hi
  exact h i hlo (by omega) t

/-- A property that every iteration preserves holds after the loop. -/
theorem forLoop_keeps (keep : S → Prop) {lo hi : ℕ} {body : ℕ → S → S}
    (hstep : ∀ i s, keep s → keep (body i s)) {s : S} (hs : keep s) :
    keep (forLoop lo hi body s) := by
  rcases Nat.le_total hi lo with h | h
  · simpa [forLoop_of_le h] using hs
  · exact forLoop_invariant (fun _ => keep) h (fun i s _ _ => hstep i s) hs

/-- A property `post` that iteration `j` establishes from `pre` holds after the loop, if the
iterations before it keep `pre` and those behind it keep `post`. -/
theorem forLoop_reaches (pre post : S → Prop) {lo hi : ℕ} {body : ℕ → S → S} {j : ℕ}
    (hlo : lo ≤ j) (hhi : j < hi) (hpre : ∀ i s, i < j → pre s → pre (body i s))
    (hreach : ∀ s, pre s → post (body j s))
    (hpost : ∀ i s, j < i → i < hi → post s → post (body i s)) {s : S} (hs : pre s) :
    post (forLoop lo hi body s) := by
  refine (forLoop_invariant (fun i s => (i ≤ j → pre s) ∧ (j < i → post s)) (by omega) ?_
    ⟨fun _ => hs, fun hlt => absurd hlt (by omega)⟩).2 hhi
  rintro i s - hi' ⟨hbefore, hbehind⟩
  refine ⟨fun hle => hpre i s (by omega) (hbefore (by omega)), fun hlt => ?_⟩
  rcases Nat.lt_succ_iff_lt_or_eq.mp hlt with hj | rfl
  · exact hpost i s hj hi' (hbehind hj)
  · exact hreach s (hbefore (Nat.le_refl _))

/-- Two loops whose bodies keep a relation. -/
theorem forLoop_related {T : Type*} (rel : S → T → Prop) {lo hi : ℕ} {body : ℕ → S → S}
    {body' : ℕ → T → T}
    (hstep : ∀ i s t, lo ≤ i → i < hi → rel s t → rel (body i s) (body' i t)) {s : S} {t : T}
    (hs : rel s t) : rel (forLoop lo hi body s) (forLoop lo hi body' t) := by
  rcases Nat.le_total hi lo with h | h
  · rwa [forLoop_of_le h, forLoop_of_le h]
  · induction hi, h using Nat.le_induction with
    | base => simpa using hs
    | succ hi hle ih =>
      rw [forLoop_succ hle, forLoop_succ hle]
      exact hstep hi _ _ hle (Nat.lt_succ_self hi)
        (ih fun i s t hlo hhi => hstep i s t hlo (Nat.lt_succ_of_lt hhi))

end Loop
