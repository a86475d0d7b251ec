import Boomerangz.Daemon.Scheduler
import Boomerangz.Lib.Run

/-! # Firings

An `Update` reads one root at a time and writes at the end; what it holds no copy of may change in between.
-/

namespace Boomerangz.Daemon

open Transition Zfs Policy Discovery

/-! ## The system -/

/-- The scheduler with the calls under way. `outstanding` are the schedules of `Next` that are not settled, `advanced`
the deadlines that `Complete` moved forward and no `Update` has started over. -/
structure Firing where
  entries : Entries
  updates : AList (fun _ : Nat => Updating)
  outstanding : List Schedule
  advanced : List (Dataset × Dataset)

inductive Call where
  | start (id : Nat) (generation : List Entry) (now : Time)
  | read (id : Nat)
  | write (id : Nat)
  | next (root : Dataset) (visit : List Dataset) (now fired : Time)
  | complete (root : Dataset) (due : List Dataset) (completed : Time) (deferred : List (Dataset × Time))
  | retry (root : Dataset) (notBefore : Time)

def settle (outstanding : List Schedule) (root : Dataset) : List Schedule :=
  outstanding.eraseP (·.dataset == root)

def movedForward (root : Dataset) (d d' : Deadline) : List (Dataset × Dataset) :=
  (d.members.filter fun m => (d'.member m.1).any fun m' =>
    (d.member m.1).any fun old => old.next < m'.next).map fun m => (root, m.1)

def sameCadence (entries entries' : Entries) (root name : Dataset) : Bool :=
  match (entries.lookup root).bind (·.member name), (entries'.lookup root).bind (·.member name) with
  | some m, some m' => m.cadence == m'.cadence
  | _, _ => false

def Firing.step (s : Firing) : Call → Option Firing
  | .start id generation now =>
    if now = 0 ∨ id ∈ s.updates then none
    else some { s with updates := s.updates.insert id (Updating.start generation now) }
  | .read id => do
    let u ← s.updates.lookup id
    let u ← u.read s.entries
    return { s with updates := s.updates.insert id u }
  | .write id => do
    let u ← s.updates.lookup id
    if u.todo = [] then
      return { s with
        entries := u.next
        updates := s.updates.erase id
        advanced := s.advanced.filter (fun a => sameCadence s.entries u.next a.1 a.2) }
    else none
  | .next root visit now fired => do
    let (name, d) ← select s.entries visit
    if visit.Perm s.entries.keys ∧ name = root ∧ d.earliest ≤ now then
      let d := { d with pending := true }
      return { s with
        entries := s.entries.insert root d
        outstanding := s.outstanding ++ [d.schedule root (max fired d.earliest)] }
    else none
  | .complete root due completed deferred =>
    let outstanding := settle s.outstanding root
    match s.entries.lookup root with
    | none => some { s with outstanding := outstanding }
    | some d =>
      let d' := d.complete root due completed deferred
      some { s with
        entries := s.entries.insert root d'
        outstanding := outstanding
        advanced := movedForward root d d' ++ s.advanced }
  | .retry root notBefore =>
    let outstanding := settle s.outstanding root
    match s.entries.lookup root with
    | none => some { s with outstanding := outstanding }
    | some d => some { s with entries := s.entries.insert root (d.retry notBefore), outstanding := outstanding }

def Firing.new : Firing := ⟨∅, ∅, [], []⟩

def firing : System Firing Call where
  init s := s = Firing.new
  step := Firing.step

/-! ## No firing is lost or doubled -/

def Firing.isOutstanding (s : Firing) (root : Dataset) : Prop := ∃ x ∈ s.outstanding, x.dataset = root

instance (s : Firing) (root : Dataset) : Decidable (s.isOutstanding root) :=
  inferInstanceAs (Decidable (∃ x ∈ s.outstanding, x.dataset = root))

/-- An `Update` that writes `next` moves no advanced deadline back while the member keeps its cadence. -/
def Firing.keepsAdvanced (s : Firing) (next : Entries) : Prop :=
  ∀ root name, (root, name) ∈ s.advanced → ∀ d m d' m', s.entries.lookup root = some d →
    d.member name = some m → next.lookup root = some d' → d'.member name = some m' →
    m'.cadence = m.cadence → m.next ≤ m'.next

/-- A pending root has one schedule outstanding, and no `Update` moves back what `Complete` moved forward. -/
structure Firing.Exact (s : Firing) : Prop where
  once : (s.outstanding.map Schedule.dataset).Nodup
  settled : ∀ root d, s.entries.lookup root = some d → d.pending = true → s.isOutstanding root
  kept : ∀ id s', s.step (.write id) = some s' → s.keepsAdvanced s'.entries

def Firing.uncopied (s : Firing) (root : Dataset) : Prop := ∀ u ∈ s.updates.entries, root ∉ u.2.next

instance (s : Firing) (root : Dataset) : Decidable (s.uncopied root) :=
  inferInstanceAs (Decidable (∀ u ∈ s.updates.entries, root ∉ u.2.next))

def Firing.readable (s : Firing) (id : Nat) : Bool :=
  ((s.updates.lookup id).bind (·.todo.head?)).all fun e =>
    (s.entries.lookup e.dataset).isSome || !decide (s.isOutstanding e.dataset)

def Firing.ordered (s : Firing) : Call → Prop
  | .read id => s.readable id = true
  | .next root _ _ _ => s.uncopied root
  | .complete root _ _ _ => s.uncopied root
  | .retry root _ => s.uncopied root
  | _ => True

instance (s : Firing) : (a : Call) → Decidable (s.ordered a)
  | .start _ _ _ => inferInstanceAs (Decidable True)
  | .read id => inferInstanceAs (Decidable (s.readable id = true))
  | .write _ => inferInstanceAs (Decidable True)
  | .next root _ _ _ => inferInstanceAs (Decidable (s.uncopied root))
  | .complete root _ _ _ => inferInstanceAs (Decidable (s.uncopied root))
  | .retry root _ => inferInstanceAs (Decidable (s.uncopied root))

section Lemmas

theorem settle_nodup {l : List Schedule} (h : (l.map Schedule.dataset).Nodup) (root : Dataset) :
    ((settle l root).map Schedule.dataset).Nodup :=
  (List.eraseP_sublist.map _).nodup h

theorem mem_settle {l : List Schedule} (h : (l.map Schedule.dataset).Nodup) (root r : Dataset) :
    (∃ x ∈ settle l root, x.dataset = r) ↔ (∃ x ∈ l, x.dataset = r) ∧ r ≠ root := by
  induction l with
  | nil => simp [settle]
  | cons y l ih =>
    rw [List.map_cons, List.nodup_cons, List.mem_map] at h
    by_cases hy : y.dataset = root
    · -- The first schedule is the root's, and no other is.
      have hs : settle (y :: l) root = l := by simp [settle, hy]
      rw [hs]
      constructor
      · rintro ⟨x, hx, rfl⟩
        exact ⟨⟨x, by simp [hx], rfl⟩, fun he => h.1 ⟨x, hx, he.trans hy.symm⟩⟩
      · rintro ⟨⟨x, hx, rfl⟩, hne⟩
        rcases List.mem_cons.mp hx with rfl | hx
        · exact absurd hy hne
        · exact ⟨x, hx, rfl⟩
    · have hs : settle (y :: l) root = y :: settle l root := by simp [settle, hy]
      rw [hs]
      simp only [List.mem_cons, exists_eq_or_imp, ih h.2]
      constructor
      · rintro (rfl | ⟨hx, hne⟩)
        · exact ⟨.inl rfl, hy⟩
        · exact ⟨.inr hx, hne⟩
      · rintro ⟨rfl | hx, hne⟩
        · exact .inl rfl
        · exact .inr ⟨hx, hne⟩

theorem select_foldl {entries : Entries} {visit : List Dataset} {best : Option (Dataset × Deadline)}
    (hbest : ∀ b ∈ best, entries.lookup b.1 = some b.2 ∧ b.2.pending = false) :
    ∀ b ∈ visit.foldl (selectStep entries) best, entries.lookup b.1 = some b.2 ∧ b.2.pending = false := by
  induction visit generalizing best with
  | nil => exact hbest
  | cons name visit ih =>
    rw [List.foldl_cons]
    refine ih ?_
    unfold selectStep
    cases hd : entries.lookup name with
    | none => exact hbest
    | some d =>
      simp only
      split
      · exact hbest
      · rename_i hskip
        rintro b hb
        obtain rfl := Option.mem_some_iff.mp hb
        simp only [Bool.or_eq_true, not_or, Bool.not_eq_true] at hskip
        exact ⟨hd, hskip.1⟩

theorem select_spec {entries : Entries} {visit : List Dataset} {name : Dataset} {d : Deadline}
    (h : select entries visit = some (name, d)) : entries.lookup name = some d ∧ d.pending = false :=
  select_foldl (by simp : ∀ b ∈ none, _) (name, d) h

theorem Firing.next_spec {s t : Firing} {root : Dataset} {visit : List Dataset} {now fired : Time}
    (hs : s.step (.next root visit now fired) = some t) :
    ∃ d, s.entries.lookup root = some d ∧ d.pending = false ∧ t = { s with
      entries := s.entries.insert root { d with pending := true }
      outstanding := s.outstanding ++ [Deadline.schedule { d with pending := true } root (max fired d.earliest)] } := by
  simp only [Firing.step, Option.bind_eq_bind, Option.bind_eq_some_iff] at hs
  obtain ⟨⟨name, d⟩, hsel, hs⟩ := hs
  obtain ⟨hd, hp⟩ := select_spec hsel
  split at hs
  · rename_i hcond
    obtain ⟨-, rfl, -⟩ := hcond
    exact ⟨d, hd, hp, (Option.some.inj hs).symm⟩
  · cases hs

namespace Updating

variable {u : Updating} {e : Entry} {previous : Option Deadline} {name : Dataset}

theorem timed_eq_some {x : Dataset × MemberDeadline} (h : u.timed previous name = some x) :
    x.1 = name ∧ ∀ old, previous.bind (·.member name) = some old → old.cadence = x.2.cadence →
      x.2.next = old.next := by
  unfold timed at h
  split at h
  · cases h
  · simp only at h
    split at h
    · cases h
    · cases h
      refine ⟨rfl, fun old hold hc => ?_⟩
      simp only [hold]
      exact if_pos hc

theorem item_member {d : Deadline} {m m' : MemberDeadline} (hm' : (u.item e (some d)).member name = some m')
    (hm : d.member name = some m) (hc : m'.cadence = m.cadence) : m'.next = m.next := by
  obtain ⟨l₁, l₂, hl, -⟩ := List.lookup_eq_some_iff.mp hm'
  have hmem : (name, m') ∈ (u.item e (some d)).members := by simp [hl]
  obtain ⟨a, -, ha⟩ := List.mem_filterMap.mp hmem
  obtain ⟨rfl, hnext⟩ := timed_eq_some ha
  exact hnext m hm hc.symm

end Updating

end Lemmas

/-! ## The invariant -/

structure Firing.Inv (s : Firing) : Prop where
  once : (s.outstanding.map Schedule.dataset).Nodup
  pending : ∀ root d, s.entries.lookup root = some d → (d.pending = true ↔ s.isOutstanding root)
  copied : ∀ id u, s.updates.lookup id = some u → ∀ root d, u.next.lookup root = some d →
    (d.pending = true ↔ s.isOutstanding root)
  current : ∀ id u, s.updates.lookup id = some u → ∀ root name, (root, name) ∈ s.advanced →
    ∀ d m d' m', s.entries.lookup root = some d → d.member name = some m →
      u.next.lookup root = some d' → d'.member name = some m' → m'.cadence = m.cadence → m'.next = m.next

namespace Firing

variable {s : Firing}

theorem Inv.exact (h : s.Inv) : s.Exact where
  once := h.once
  settled := fun root d hd hp => (h.pending root d hd).mp hp
  kept := by
    intro id s' hs root name ha d m d' m' hd hm hd' hm' hc
    simp only [step, Option.bind_eq_bind, Option.bind_eq_some_iff] at hs
    obtain ⟨u, hu, hs⟩ := hs
    split at hs
    · cases hs
      exact (h.current id u hu root name ha d m d' m' hd hm hd' hm' hc).ge
    · cases hs

theorem uncopied_ne {root : Dataset} (h : s.uncopied root) {id : Nat} {u : Updating}
    (hu : s.updates.lookup id = some u) {r : Dataset} {d : Deadline} (hd : u.next.lookup r = some d) :
    r ≠ root := by
  rintro rfl
  exact h ⟨id, u⟩ (AList.mem_lookup_iff.mp hu) (AList.lookup_isSome.mp (by simp [hd]))

theorem readable_spec {id : Nat} (h : s.readable id = true) {u : Updating} (hu : s.updates.lookup id = some u)
    {e : Entry} {rest : List Entry} (htodo : u.todo = e :: rest)
    (hnone : s.entries.lookup e.dataset = none) : ¬ s.isOutstanding e.dataset := by
  simpa [readable, hu, htodo, hnone] using h

theorem Inv.settle (h : s.Inv) {root : Dataset} (hu : s.uncopied root) {entries : Entries}
    {advanced : List (Dataset × Dataset)}
    (hroot : ∀ d, entries.lookup root = some d → d.pending = false)
    (hother : ∀ r, r ≠ root → entries.lookup r = s.entries.lookup r)
    (hadv : ∀ a ∈ advanced, a.1 = root ∨ a ∈ s.advanced) :
    Inv { s with entries := entries, outstanding := settle s.outstanding root, advanced := advanced } where
  once := settle_nodup h.once root
  pending := by
    intro r d hd
    rw [isOutstanding, mem_settle h.once]
    by_cases hr : r = root
    · subst hr
      simp [hroot d hd]
    · rw [h.pending r d (hother r hr ▸ hd)]
      exact (and_iff_left hr).symm
  copied := by
    intro id u hid r d hd
    rw [isOutstanding, mem_settle h.once, h.copied id u hid r d hd]
    exact (and_iff_left (uncopied_ne hu hid hd)).symm
  current := by
    intro id u hid r name ha d m d' m' hd hm hd' hm' hc
    have hr : r ≠ root := uncopied_ne hu hid hd'
    exact h.current id u hid r name ((hadv _ ha).resolve_left hr) d m d' m' (hother r hr ▸ hd) hm hd' hm' hc

theorem Inv.read (h : s.Inv) {id : Nat} {u u' : Updating} (hu : s.updates.lookup id = some u)
    (hread : u.read s.entries = some u')
    (hok : ∀ e rest, u.todo = e :: rest → s.entries.lookup e.dataset = none → ¬ s.isOutstanding e.dataset) :
    Inv { s with updates := s.updates.insert id u' } := by
  -- An entry of the new copy is one of the old copy or the item just built.
  have hnext : ∀ r d, u'.next.lookup r = some d → u.next.lookup r = some d ∨
      ∃ e rest, u.todo = e :: rest ∧ r = e.dataset ∧ d = u.item e (s.entries.lookup r) := by
    intro r d hd
    unfold Updating.read at hread
    split at hread
    · cases hread
    · rename_i e rest htodo
      cases hread
      simp only at hd
      split at hd
      · exact .inl hd
      · by_cases hr : r = e.dataset
        · subst hr
          rw [AList.lookup_insert] at hd
          exact .inr ⟨e, rest, htodo, rfl, (Option.some.inj hd).symm⟩
        · exact .inl (by rwa [AList.lookup_insert_ne hr] at hd)
  refine ⟨h.once, h.pending, ?_, ?_⟩
  · intro id' w hw r d hd
    by_cases hid : id' = id
    · subst hid
      obtain rfl : u' = w := by simpa using hw
      rcases hnext r d hd with hd | ⟨e, rest, htodo, rfl, rfl⟩
      · exact h.copied _ u hu r d hd
      · have hitem : (u.item e (s.entries.lookup e.dataset)).pending = true ↔ s.isOutstanding e.dataset := by
          cases hprev : s.entries.lookup e.dataset with
          | none => simpa [Updating.item] using hok e rest htodo hprev
          | some p => simpa [Updating.item] using h.pending _ p hprev
        exact hitem
    · exact h.copied id' w (by simpa [AList.lookup_insert_ne hid] using hw) r d hd
  · intro id' w hw r name ha d m d' m' hd hm hd' hm' hc
    by_cases hid : id' = id
    · subst hid
      obtain rfl : u' = w := by simpa using hw
      rcases hnext r d' hd' with hd' | ⟨e, rest, htodo, rfl, rfl⟩
      · exact h.current _ u hu r name ha d m d' m' hd hm hd' hm' hc
      · simp only at hd
        rw [hd] at hm'
        exact Updating.item_member hm' hm hc
    · exact h.current id' w (by simpa [AList.lookup_insert_ne hid] using hw) r name ha d m d' m' hd hm hd' hm' hc

theorem sameCadence_iff {entries entries' : Entries} {root name : Dataset} :
    sameCadence entries entries' root name = true ↔ ∃ d m d' m', entries.lookup root = some d ∧
      d.member name = some m ∧ entries'.lookup root = some d' ∧ d'.member name = some m' ∧
      m.cadence = m'.cadence := by
  unfold sameCadence
  cases h : entries.lookup root with
  | none => simp
  | some d =>
    cases h' : entries'.lookup root with
    | none => simp
    | some d' =>
      cases hm : d.member name <;> cases hm' : d'.member name <;> simp [hm, hm']

theorem Inv.write (h : s.Inv) {id : Nat} {u : Updating} (hu : s.updates.lookup id = some u) :
    Inv { s with
      entries := u.next
      updates := s.updates.erase id
      advanced := s.advanced.filter (fun a => sameCadence s.entries u.next a.1 a.2) } := by
  have herase : ∀ id' w, (s.updates.erase id).lookup id' = some w → s.updates.lookup id' = some w := by
    intro id' w hw
    by_cases hid : id' = id
    · subst hid
      simp at hw
    · rwa [AList.lookup_erase_ne hid] at hw
  refine ⟨h.once, h.copied id u hu, fun id' w hw => h.copied id' w (herase id' w hw), ?_⟩
  -- Both copies hold the deadline that was current before the write.
  intro id' w hw r name ha d m d' m' hd hm hd' hm' hc
  obtain ⟨ha, hsame⟩ := List.mem_filter.mp ha
  obtain ⟨d₀, m₀, d₁, m₁, hd₀, hm₀, hd₁, hm₁, hc₀⟩ := sameCadence_iff.mp hsame
  obtain rfl : d₁ = d := Option.some.inj (hd₁.symm.trans hd)
  obtain rfl : m₁ = m := Option.some.inj (hm₁.symm.trans hm)
  have hwrite := h.current id u hu r name ha d₀ m₀ d₁ m₁ hd₀ hm₀ hd hm hc₀.symm
  have hother := h.current id' w (herase id' w hw) r name ha d₀ m₀ d' m' hd₀ hm₀ hd' hm' (hc.trans hc₀.symm)
  rw [hother, hwrite]

theorem Inv.next (h : s.Inv) {root : Dataset} {d : Deadline} {x : Schedule} (hd : s.entries.lookup root = some d)
    (hp : d.pending = false) (hx : x.dataset = root) (hu : s.uncopied root) :
    Inv { s with
      entries := s.entries.insert root { d with pending := true }
      outstanding := s.outstanding ++ [x] } := by
  have hnot : ¬ s.isOutstanding root := by simp [← h.pending root d hd, hp]
  have hout : ∀ r, (∃ y ∈ s.outstanding ++ [x], y.dataset = r) ↔ s.isOutstanding r ∨ r = root := by
    intro r
    simp only [List.mem_append, List.mem_singleton, or_and_right, exists_or, exists_eq_left, hx, isOutstanding]
    exact or_congr_right eq_comm
  refine ⟨?_, ?_, ?_, ?_⟩
  · rw [List.map_append, List.nodup_append]
    refine ⟨h.once, by simp, ?_⟩
    rintro a ha b hb rfl
    obtain ⟨y, hy, rfl⟩ := List.mem_map.mp ha
    simp only [List.map_cons, List.map_nil, List.mem_singleton] at hb
    exact hnot ⟨y, hy, hb.trans hx⟩
  · intro r d' hd'
    rw [isOutstanding, hout]
    by_cases hr : r = root
    · subst hr
      rw [AList.lookup_insert] at hd'
      simp [← Option.some.inj hd']
    · rw [AList.lookup_insert_ne hr] at hd'
      rw [h.pending r d' hd']
      exact (or_iff_left hr).symm
  · intro id u hid r d' hd'
    rw [isOutstanding, hout, h.copied id u hid r d' hd']
    exact (or_iff_left (uncopied_ne hu hid hd')).symm
  · intro id u hid r name ha e m d' m' he hm hd' hm' hc
    have hr : r ≠ root := uncopied_ne hu hid hd'
    exact h.current id u hid r name ha e m d' m' (by simpa [AList.lookup_insert_ne hr] using he) hm hd' hm' hc

theorem Inv.step (h : s.Inv) {a : Call} {s' : Firing} (hok : s.ordered a) (hs : s.step a = some s') :
    s'.Inv := by
  cases a with
  | start id generation now =>
    simp only [Firing.step] at hs
    split at hs
    · cases hs
    · rename_i hnew
      cases hs
      rw [not_or] at hnew
      have hempty : ∀ id' w r d, (s.updates.insert id (.start generation now)).lookup id' = some w →
          w.next.lookup r = some d → s.updates.lookup id' = some w := by
        intro id' w r d hw hd
        by_cases hid : id' = id
        · subst hid
          rw [AList.lookup_insert] at hw
          simp [← Option.some.inj hw, Updating.start] at hd
        · rwa [AList.lookup_insert_ne hid] at hw
      exact ⟨h.once, h.pending, fun id' w hw r d hd => h.copied id' w (hempty id' w r d hw hd) r d hd,
        fun id' w hw r name ha d m d' m' hd hm hd' => h.current id' w (hempty id' w r d' hw hd') r name ha
          d m d' m' hd hm hd'⟩
  | read id =>
    simp only [Firing.step, Option.bind_eq_bind, Option.bind_eq_some_iff] at hs
    obtain ⟨u, hu, u', hu', hs⟩ := hs
    cases hs
    exact h.read hu hu' fun e rest => readable_spec hok hu
  | write id =>
    simp only [Firing.step, Option.bind_eq_bind, Option.bind_eq_some_iff] at hs
    obtain ⟨u, hu, hs⟩ := hs
    split at hs
    · cases hs
      exact h.write hu
    · cases hs
  | next root visit now fired =>
    obtain ⟨d, hd, hp, rfl⟩ := Firing.next_spec hs
    exact h.next hd hp rfl hok
  | complete root due completed deferred =>
    simp only [Firing.step] at hs
    split at hs
    · rename_i hnone
      cases hs
      exact h.settle hok (fun d hd => by simp [hnone] at hd) (fun _ _ => rfl) fun a ha => .inr ha
    · cases hs
      refine h.settle hok ?_ (fun r hr => AList.lookup_insert_ne hr) ?_
      · intro d' hd'
        rw [AList.lookup_insert] at hd'
        rw [← Option.some.inj hd']
        rfl
      · intro a ha
        rcases List.mem_append.mp ha with ha | ha
        · obtain ⟨m, -, rfl⟩ := List.mem_map.mp ha
          exact .inl rfl
        · exact .inr ha
  | retry root notBefore =>
    simp only [Firing.step] at hs
    split at hs
    · rename_i hnone
      cases hs
      exact h.settle hok (fun d hd => by simp [hnone] at hd) (fun _ _ => rfl) fun a ha => .inr ha
    · cases hs
      refine h.settle hok ?_ (fun r hr => AList.lookup_insert_ne hr) fun a ha => .inr ha
      intro d' hd'
      rw [AList.lookup_insert] at hd'
      rw [← Option.some.inj hd']
      rfl

end Firing

/-- In every run in which no `Update` holds a copy of a root that fires or settles, every firing is
settled once. -/
theorem firings_exact (s : Firing) (h : Reach firing Firing.ordered s) : s.Exact := by
  refine (h.invariant (I := Firing.Inv) ?_ fun s a s' hi hok hs => hi.step hok hs).exact
  rintro s rfl
  exact ⟨by simp [Firing.new], by simp [Firing.new], by simp [Firing.new], by simp [Firing.new]⟩

/-! One root, with updates that overlap its firings and updates that do not. -/

def cadenceGrid : Grid := .windows 1 5

def scheduledRoot : Entry :=
  ⟨["tank"], true, [], false, [["tank"]], .plain cadenceGrid [] [⟨"enabled", "on", ["tank"]⟩], [], [], ""⟩

def updateCalls (id : Nat) (now : Time) : List Call :=
  [.start id [scheduledRoot] now, .read id, .write id]

def settledBetween : List Call :=
  updateCalls 0 1 ++ [.next ["tank"] [["tank"]] 1 1, .start 1 [scheduledRoot] 2, .read 1,
    .complete ["tank"] [["tank"]] 5 [], .write 1]

def firedBetween : List Call :=
  updateCalls 0 1 ++ [.start 1 [scheduledRoot] 2, .read 1, .next ["tank"] [["tank"]] 1 1, .write 1,
    .next ["tank"] [["tank"]] 2 2]

def Firing.nextOf (s : Firing) (root name : Dataset) : Option Time :=
  ((s.entries.lookup root).bind (·.member name)).map MemberDeadline.next

/-- A root stays pending with nothing outstanding, a root fires twice, and a deadline that
`Complete` moved to five minutes later is back at 1. -/
theorem firings_race :
    (∃ s, Reach firing free s ∧ (s.entries.lookup ["tank"]).any Deadline.pending = true ∧ s.outstanding = []) ∧
    (∃ s, Reach firing free s ∧ s.outstanding.map Schedule.dataset = [["tank"], ["tank"]]) ∧
    (∃ s s', Reach firing free s ∧ s.step (.write 1) = some s' ∧ s.advanced = [(["tank"], ["tank"])] ∧
      s.nextOf ["tank"] ["tank"] = some (5 + 5 * minute) ∧ s'.nextOf ["tank"] ["tank"] = some 1) := by
  refine ⟨?_, ?_, ?_⟩
  · obtain ⟨s, hs⟩ : ∃ s, run firing settledBetween Firing.new = some s := ⟨_, rfl⟩
    exact ⟨s, Reach.run (.init rfl) (fun _ _ => trivial) hs, by cases hs; decide, by cases hs; decide⟩
  · obtain ⟨s, hs⟩ : ∃ s, run firing firedBetween Firing.new = some s := ⟨_, rfl⟩
    exact ⟨s, Reach.run (.init rfl) (fun _ _ => trivial) hs, by cases hs; decide⟩
  · obtain ⟨s, hs⟩ : ∃ s, run firing settledBetween.dropLast Firing.new = some s := ⟨_, rfl⟩
    obtain ⟨s', hs'⟩ : ∃ s', s.step (.write 1) = some s' := by cases hs; exact ⟨_, rfl⟩
    exact ⟨s, s', Reach.run (.init rfl) (fun _ _ => trivial) hs, hs', by cases hs; decide,
      by cases hs; decide, by cases hs; cases hs'; decide⟩

def updatesApart : List Call :=
  updateCalls 0 1 ++ .next ["tank"] [["tank"]] 1 1 :: updateCalls 1 2 ++
    .complete ["tank"] [["tank"]] 5 [] :: updateCalls 2 6 ++ [.next ["tank"] [["tank"]] (5 + 5 * minute) (5 + 5 * minute)]

theorem updatesApart_exact : ∃ s, Reach firing Firing.ordered s ∧
    s.outstanding.map Schedule.dataset = [["tank"]] ∧ s.advanced = [(["tank"], ["tank"])] ∧ s.Exact := by
  obtain ⟨s, hs⟩ : ∃ s, runOk firing (fun s a => decide (s.ordered a)) updatesApart Firing.new = some s :=
    ⟨_, rfl⟩
  have hreach : Reach firing Firing.ordered s :=
    (Reach.runOk (.init rfl) hs).mono fun _ _ => of_decide_eq_true
  exact ⟨s, hreach, by cases hs; decide, by cases hs; decide, firings_exact s hreach⟩

end Boomerangz.Daemon
