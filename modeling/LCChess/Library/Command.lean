import Mathlib.Data.Int.Notation
import Mathlib.Tactic.Common

/-!
# Commands with return codes

A command changes a state and returns a code, which is `0` when it succeeded. Commands are put
in sequence by checks: a step that fails ends the command, with a code of its own.

## Main definitions

* `Command S`: a command on the states `S`
* `check f code g`, `get f code g`: `g` behind a step that is checked, and behind one that
  reads a value
* `Spec ok eff f`: `f` succeeds exactly in the states with `ok`, and has the effect `eff` there
* `Reads ok val eff f`: the same of a step that reads a value

## Main results

* `spec_done`, `Spec.check`, `Spec.get`: the rules of the sequences
* `Spec.congr`: the condition and the effect, rewritten
-/

/-- A command: the return code, and the state behind it. -/
abbrev Command (S : Type*) := S → ℤ × S

namespace Command

variable {S A : Type*}

/-- `return 0;` -/
def done : Command S := fun s => (0, s)

/-- `if (f() != 0) return code;` in front of `g`. -/
def check (f : Command S) (code : ℤ) (g : Command S) : Command S := fun s =>
  let (r, s) := f s
  if r ≠ 0 then (code, s) else g s

/-- `if (f(&a) != 0) return code;` in front of `g`, which uses `a`. -/
def get (f : S → Option A × S) (code : ℤ) (g : A → Command S) : Command S := fun s =>
  match f s with
  | (none, s) => (code, s)
  | (some a, s) => g a s

/-- The command `f` succeeds exactly in the states with `ok`, and has the effect `eff` there. -/
def Spec (ok : S → Prop) (eff : S → S) (f : Command S) : Prop :=
  ∀ s, (ok s → f s = (0, eff s)) ∧ (¬ ok s → (f s).1 ≠ 0)

/-- The step `f` reads the value `val` exactly in the states with `ok`. -/
def Reads (ok : S → Prop) (val : S → A) (eff : S → S) (f : S → Option A × S) : Prop :=
  ∀ s, (ok s → f s = (some (val s), eff s)) ∧ (¬ ok s → (f s).1 = none)

theorem spec_done : Spec (fun _ : S => True) id (done (S := S)) :=
  fun _ => ⟨fun _ => rfl, fun h => absurd trivial h⟩

/-- A checked step succeeds when it does, and what follows it. -/
theorem Spec.check {ok ok' : S → Prop} {eff eff' : S → S} {f g : Command S} {code : ℤ}
    (hf : Spec ok eff f) (hg : Spec ok' eff' g) (hcode : code ≠ 0) :
    Spec (fun s => ok s ∧ ok' (eff s)) (fun s => eff' (eff s)) (Command.check f code g) := by
  intro s
  by_cases hok : ok s
  · have hstep : Command.check f code g s = g (eff s) := by
      simp only [Command.check, (hf s).1 hok]
      rw [if_neg (by simp)]
    rw [hstep]
    exact ⟨fun h => (hg (eff s)).1 h.2, fun h => (hg (eff s)).2 fun h' => h ⟨hok, h'⟩⟩
  · have hfail := (hf s).2 hok
    have hstep : (Command.check f code g s).1 = code := by
      simp only [Command.check]
      rw [if_pos hfail]
    rw [hstep]
    exact ⟨fun h => absurd h.1 hok, fun _ => hcode⟩

/-- A step that reads a value succeeds when it does, and what follows it. -/
theorem Spec.get {ok : S → Prop} {val : S → A} {eff : S → S} {ok' : A → S → Prop}
    {eff' : A → S → S} {f : S → Option A × S} {g : A → Command S} {code : ℤ}
    (hf : Reads ok val eff f) (hg : ∀ a, Spec (ok' a) (eff' a) (g a)) (hcode : code ≠ 0) :
    Spec (fun s => ok s ∧ ok' (val s) (eff s)) (fun s => eff' (val s) (eff s))
      (Command.get f code g) := by
  intro s
  by_cases hok : ok s
  · have hstep : Command.get f code g s = g (val s) (eff s) := by
      simp only [Command.get, (hf s).1 hok]
    rw [hstep]
    exact ⟨fun h => (hg (val s) (eff s)).1 h.2,
      fun h => (hg (val s) (eff s)).2 fun h' => h ⟨hok, h'⟩⟩
  · have hstep : (Command.get f code g s).1 = code := by
      rcases hs : f s with ⟨a, s'⟩
      have hnone := (hf s).2 hok
      rw [hs] at hnone
      obtain rfl : a = none := hnone
      simp only [Command.get, hs]
    rw [hstep]
    exact ⟨fun h => absurd h.1 hok, fun _ => hcode⟩

/-- The condition and the effect may be rewritten. -/
theorem Spec.congr {ok ok' : S → Prop} {eff eff' : S → S} {f : Command S} (hf : Spec ok eff f)
    (hok : ∀ s, ok' s ↔ ok s) (heff : ∀ s, ok s → eff' s = eff s) : Spec ok' eff' f := by
  intro s
  constructor
  · intro h
    have hs := (hok s).mp h
    rw [heff s hs]
    exact (hf s).1 hs
  · intro h
    exact (hf s).2 fun hs => h ((hok s).mpr hs)

/-- A command returns `0` exactly where it succeeds. -/
theorem Spec.zero_iff {ok : S → Prop} {eff : S → S} {f : Command S} (hf : Spec ok eff f) (s : S) :
    (f s).1 = 0 ↔ ok s := by
  constructor
  · intro h
    by_contra hok
    exact (hf s).2 hok h
  · intro hok
    rw [(hf s).1 hok]

end Command
