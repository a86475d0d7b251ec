import Mathlib.Data.List.Basic

/-! # Checked computations

Lemmas that peel a successful computation apart, one check at a time.
-/

namespace Check

universe u v

variable {ε : Type u} {β γ : Type v}

def require (c : Bool) (e : ε) : Except ε PUnit := if c then .ok ⟨⟩ else .error e

@[simp] theorem require_eq_ok {c : Bool} {e : ε} {w : PUnit} : require c e = .ok w ↔ c = true := by
  unfold require
  split <;> simp_all

@[simp] theorem bind_eq_ok {x : Except ε β} {f : β → Except ε γ} {r : γ} :
    (x >>= f) = .ok r ↔ ∃ a, x = .ok a ∧ f a = .ok r := by
  cases x with
  | error e => simp [bind, Except.bind]
  | ok a => simp [bind, Except.bind]

@[simp] theorem pure_eq_ok {a r : β} : (pure a : Except ε β) = .ok r ↔ a = r := by
  simp [pure, Except.pure]

@[simp] theorem throw_eq_ok {e : ε} {r : β} : (throw e : Except ε β) = .ok r ↔ False := by
  simp [throw, throwThe, MonadExceptOf.throw]

/-- The rules that peel a computation apart, as one set for `simp`. -/
theorem ok_iff : (∀ (ε β γ : Type) (x : Except ε β) (f : β → Except ε γ) (r : γ),
      (x >>= f) = .ok r ↔ ∃ a, x = .ok a ∧ f a = .ok r) ∧
    (∀ (ε : Type) (c : Bool) (e : ε) (w : PUnit.{1}), require c e = .ok w ↔ c = true) ∧
    (∀ (ε β : Type) (a r : β), (pure a : Except ε β) = .ok r ↔ a = r) ∧
    (∀ (α : Type) (b : Prop) (p : α → Prop), (∃ x, b ∧ p x) ↔ b ∧ ∃ x, p x) ∧
    ∀ (α : Type) [Nonempty α] (b : Prop), (∃ _ : α, b) ↔ b :=
  ⟨fun _ _ _ _ _ _ => bind_eq_ok, fun _ _ _ _ => require_eq_ok, fun _ _ _ _ => pure_eq_ok,
    fun _ _ _ => exists_and_left, fun α _ _ => exists_const α⟩

theorem map_eq_ok {x : Except ε β} {f : β → γ} {r : γ} : x.map f = .ok r ↔ ∃ a, x = .ok a ∧ f a = r := by
  cases x <;> simp [Except.map]

/-! ## Collecting -/

/-- A loop that appends what each item yields, up to the first error. -/
def collect {α : Type v} (f : α → Except ε (Option β)) : List α → Except ε (List β)
  | [] => .ok []
  | a :: l => do
    let b ← f a
    let bs ← collect f l
    return b.toList ++ bs

theorem mem_collect {α : Type v} {f : α → Except ε (Option β)} {l : List α} {bs : List β}
    (h : collect f l = .ok bs) (b : β) : b ∈ bs ↔ ∃ a ∈ l, f a = .ok (some b) := by
  induction l generalizing bs with
  | nil =>
    simp only [collect, Except.ok.injEq] at h
    simp [← h]
  | cons a l ih =>
    simp only [collect, bind_eq_ok, pure_eq_ok] at h
    obtain ⟨o, ho, rest, hrest, rfl⟩ := h
    simp only [List.mem_append, Option.mem_toList, List.mem_cons, exists_eq_or_imp, ih hrest, ho,
      Except.ok.injEq]

theorem collect_total {α : Type v} {f : α → Except ε (Option β)} {l : List α} {bs : List β}
    (h : collect f l = .ok bs) {a : α} (ha : a ∈ l) : ∃ o, f a = .ok o := by
  induction l generalizing bs with
  | nil => simp at ha
  | cons x l ih =>
    simp only [collect, bind_eq_ok, pure_eq_ok] at h
    obtain ⟨o, ho, rest, hrest, -⟩ := h
    rcases List.mem_cons.mp ha with rfl | ha
    · exact ⟨o, ho⟩
    · exact ih hrest ha

theorem collect_eq_ok {α : Type v} {f : α → Except ε (Option β)} {l : List α} {bs : List β} :
    collect f l = .ok bs ↔ (∀ a ∈ l, ∃ o, f a = .ok o) ∧ l.flatMap (fun a => ((f a).toOption.getD none).toList) = bs := by
  induction l generalizing bs with
  | nil => simp [collect]
  | cons a l ih =>
    simp only [collect, bind_eq_ok, pure_eq_ok, ih, List.flatMap_cons, List.forall_mem_cons]
    constructor
    · rintro ⟨o, ho, rest, ⟨hall, rfl⟩, rfl⟩
      exact ⟨⟨⟨o, ho⟩, hall⟩, by simp [ho, Except.toOption]⟩
    · rintro ⟨⟨⟨o, ho⟩, hall⟩, rfl⟩
      exact ⟨o, ho, _, ⟨hall, rfl⟩, by simp [ho, Except.toOption]⟩

theorem collect_ok {α : Type v} {f : α → Except ε (Option β)} {l : List α}
    (h : ∀ a ∈ l, ∃ o, f a = .ok o) : ∃ bs, collect f l = .ok bs := by
  induction l with
  | nil => exact ⟨[], rfl⟩
  | cons a l ih =>
    obtain ⟨o, ho⟩ := h a (by simp)
    obtain ⟨bs, hbs⟩ := ih fun x hx => h x (by simp [hx])
    exact ⟨o.toList ++ bs, by simp [collect, ho, hbs]⟩

theorem foldlM_invariant {ε σ α : Type} {f : σ → α → Except ε σ} {I : σ → Prop} {l : List α} {s t : σ}
    (h : l.foldlM f s = .ok t) (hs : I s) (hstep : ∀ a ∈ l, ∀ s t, I s → f s a = .ok t → I t) : I t := by
  induction l generalizing s with
  | nil =>
    rw [List.foldlM_nil, pure_eq_ok] at h
    exact h ▸ hs
  | cons a l ih =>
    rw [List.foldlM_cons, bind_eq_ok] at h
    obtain ⟨u, hu, hl⟩ := h
    exact ih hl (hstep a (by simp) s u hs hu) fun b hb => hstep b (by simp [hb])

end Check
