import Mathlib.Data.List.Basic

/-! # Runs of a transition system

`Reach sys ok s`: a run of `sys` whose every step meets `ok` leads to `s`.
-/

namespace Transition

/-- `step s a` is `none` when `a` cannot be taken in `s`. -/
structure System (σ α : Type*) where
  init : σ → Prop
  step : σ → α → Option σ

variable {σ α : Type*} {sys : System σ α} {ok ok' : σ → α → Prop}

inductive Reach (sys : System σ α) (ok : σ → α → Prop) : σ → Prop where
  | init {s : σ} : sys.init s → Reach sys ok s
  | step {s s' : σ} {a : α} : Reach sys ok s → ok s a → sys.step s a = some s' → Reach sys ok s'

def free : σ → α → Prop := fun _ _ => True

theorem Reach.invariant {I : σ → Prop} (hinit : ∀ s, sys.init s → I s)
    (hstep : ∀ s a s', I s → ok s a → sys.step s a = some s' → I s') {s : σ}
    (h : Reach sys ok s) : I s := by
  induction h with
  | init h0 => exact hinit _ h0
  | step _ hok hs ih => exact hstep _ _ _ ih hok hs

theorem Reach.mono (h : ∀ s a, ok s a → ok' s a) {s : σ} (hr : Reach sys ok s) :
    Reach sys ok' s := by
  induction hr with
  | init h0 => exact .init h0
  | step _ hok hs ih => exact .step ih (h _ _ hok) hs

def run (sys : System σ α) : List α → σ → Option σ
  | [], s => some s
  | a :: as, s => (sys.step s a).bind (run sys as)

theorem Reach.run {as : List α} {s s' : σ} (hr : Reach sys ok s) (hok : ∀ s a, ok s a)
    (h : run sys as s = some s') : Reach sys ok s' := by
  induction as generalizing s with
  | nil =>
    simp only [Transition.run, Option.some.injEq] at h
    exact h ▸ hr
  | cons a as ih =>
    simp only [Transition.run, Option.bind_eq_some_iff] at h
    obtain ⟨t, hst, hrun⟩ := h
    exact ih (.step hr (hok _ _) hst) hrun

def runOk (sys : System σ α) (ok : σ → α → Bool) : List α → σ → Option σ
  | [], s => some s
  | a :: as, s => if ok s a then (sys.step s a).bind (runOk sys ok as) else none

theorem Reach.runOk {okb : σ → α → Bool} {as : List α} {s s' : σ}
    (hr : Reach sys (fun s a => okb s a = true) s) (h : runOk sys okb as s = some s') :
    Reach sys (fun s a => okb s a = true) s' := by
  induction as generalizing s with
  | nil =>
    simp only [Transition.runOk, Option.some.injEq] at h
    exact h ▸ hr
  | cons a as ih =>
    simp only [Transition.runOk] at h
    split at h
    · rename_i hok
      obtain ⟨t, hst, hrun⟩ := Option.bind_eq_some_iff.mp h
      exact ih (.step hr hok hst) hrun
    · cases h

end Transition
