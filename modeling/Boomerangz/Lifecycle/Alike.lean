import Boomerangz.Lifecycle.Planned

/-! # What the reference operations read

Pools that differ only in holds, bookmarks and records agree on authority, ownership and scopes.
-/

namespace Boomerangz.Lifecycle

open Check Zfs

def isControl (r : Property) : Bool := !r.name.isReference && !r.dataset.isBookmark

structure Alike (s' s : State) : Prop where
  objects : s'.objects.filter (·.type != .bookmark) = s.objects.filter (·.type != .bookmark)
  properties : s'.properties.filter isControl = s.properties.filter isControl
  received : ∀ d, s'.received.filter (·.1 == .dataset d) = s.received.filter (·.1 == .dataset d)
  resumeTokens : s'.resumeTokens = s.resumeTokens

def isReferenceCommand : Command → Bool
  | .hold _ _ => true
  | .release _ _ => true
  | .bookmark _ _ => true
  | .destroyBookmark _ _ => true
  | .setProperty _ k _ => k.isReference
  | .inheritProperty _ k => k.isReference
  | .destroySnapshot _ => false

theorem Alike.refl (s : State) : Alike s s := ⟨rfl, rfl, fun _ => rfl, rfl⟩

theorem Alike.trans {s s' s'' : State} (h : Alike s'' s') (h' : Alike s' s) : Alike s'' s :=
  ⟨h.objects.trans h'.objects, h.properties.trans h'.properties, fun d => (h.received d).trans (h'.received d),
    h.resumeTokens.trans h'.resumeTokens⟩

theorem filter_control {k : Key} (n : Name) (l : List Property) (hk : k.isReference = true) :
    (l.filter (fun r => !(r.dataset == n && r.name == k))).filter isControl = l.filter isControl := by
  refine State.filter_restrict fun r hr => ?_
  have hne : r.name ≠ k := by
    rintro rfl
    simp [isControl, hk] at hr
  simp [hne]

theorem run_alike {s s' : State} {c : Command} (hc : isReferenceCommand c = true) (h : c.run s = .ok s') :
    Alike s' s := by
  cases c with
  | setProperty n k v =>
    obtain ⟨-, rfl⟩ := State.setProperty_eq_ok.mp h
    have hk : k.isReference = true := hc
    refine ⟨rfl, ?_, fun _ => rfl, rfl⟩
    rw [List.filter_append, filter_control n _ hk]
    simp [isControl, hk]
  | inheritProperty n k =>
    obtain ⟨-, rfl⟩ := State.inheritProperty_eq_ok.mp h
    exact ⟨rfl, filter_control n _ hc, fun _ => rfl, rfl⟩
  | hold t n =>
    obtain ⟨-, -, rfl⟩ := State.hold_eq_ok.mp h
    exact ⟨rfl, rfl, fun _ => rfl, rfl⟩
  | release t n =>
    obtain ⟨-, rfl⟩ := State.release_eq_ok.mp h
    exact ⟨rfl, rfl, fun _ => rfl, rfl⟩
  | bookmark n m =>
    obtain ⟨o, b, -, hb, -, -, hnew, rfl⟩ := State.bookmark_eq_ok h
    have htype : b.type = .bookmark := b.type_bookmark_iff.mpr ⟨_, _, hb⟩
    refine ⟨?_, rfl, fun _ => rfl, rfl⟩
    simp [State.insert, htype]
  | destroyBookmark d m =>
    obtain ⟨-, rfl⟩ := State.destroyBookmark_eq_ok.mp h
    refine ⟨State.filter_restrict ?_, State.filter_restrict ?_, fun e => State.filter_restrict ?_, rfl⟩
    · intro o ho
      rw [bne_iff_ne] at ho ⊢
      rintro hname
      exact ho (o.type_bookmark_iff.mpr ⟨d, m, hname⟩)
    · intro r hr
      rw [bne_iff_ne]
      rintro hname
      simp [isControl, hname, Name.isBookmark] at hr
    · intro r hr
      rw [beq_iff_eq] at hr
      simp [hr]
  | destroySnapshot n => cases hc

namespace Alike

variable {s s' : State}

theorem restrict (h : Alike s' s) (p : Dataset → Bool) : Alike (s'.restrict p) (s.restrict p) where
  objects := by
    simp only [State.restrict]
    rw [List.filter_comm, h.objects, List.filter_comm]
  properties := by
    simp only [State.restrict]
    rw [List.filter_comm, h.properties, List.filter_comm]
  received d := by
    simp only [State.restrict]
    rw [List.filter_comm, h.received, List.filter_comm]
  resumeTokens := by
    simp only [State.restrict, h.resumeTokens]

theorem object_filter {n : Name} (hn : n.isBookmark = false) :
    s.object n = (s.objects.filter (·.type != .bookmark)).find? (·.name == n) := by
  rw [List.find?_filter, State.object]
  congr 1
  funext o
  by_cases ho : o.name = n
  · have : o.type ≠ .bookmark := by
      intro ht
      obtain ⟨d, m, hm⟩ := o.type_bookmark_iff.mp ht
      rw [ho] at hm
      simp [hm, Name.isBookmark] at hn
    simp [ho, this]
  · simp [ho]

theorem object (h : Alike s' s) {n : Name} (hn : n.isBookmark = false) : s'.object n = s.object n := by
  rw [object_filter hn, object_filter hn, h.objects]

theorem hasObject (h : Alike s' s) {n : Name} (hn : n.isBookmark = false) : s'.hasObject n = s.hasObject n := by
  rw [Bool.eq_iff_iff, ← State.object_isSome_iff, ← State.object_isSome_iff, h.object hn]

theorem rootAuthority (h : Alike s' s) (root : Dataset) (installation : ID) :
    rootAuthority s' root installation = rootAuthority s root installation := by
  refine rootAuthority_congr installation (filter_congr h.properties ?_) (h.received root)
  intro r hr
  simp only [isAuthority, Bool.and_eq_true, Bool.or_eq_true, beq_iff_eq] at hr
  obtain ⟨hd, (hk | hk) | hk⟩ := hr <;> simp [isControl, hd, hk, Key.isReference, Name.isBookmark]

theorem owns (h : Alike s' s) {o : Object} (ho : o.type = .snapshot) (lineage : ID) :
    owns s' o lineage = owns s o lineage := by
  refine owns_congr lineage (filter_congr h.properties ?_)
  intro r hr
  obtain ⟨d, c, hname⟩ := o.type_snapshot_iff.mp ho
  simp only [isOwnership, Bool.and_eq_true, Bool.or_eq_true, beq_iff_eq] at hr
  obtain ⟨hd, hk | hk⟩ := hr <;> simp [isControl, hd, hk, hname, Key.isReference, Name.isBookmark]

theorem proofDatasets (h : Alike s' s) (root : Dataset) (datasets : List Dataset) (subtree : Dataset) :
    proofDatasets s' root datasets subtree = proofDatasets s root datasets subtree := by
  funext d
  simp only [Lifecycle.proofDatasets, h.hasObject (n := .dataset _) rfl]

theorem datasets (h : Alike s' s) : s'.objects.filter Object.isDataset = s.objects.filter Object.isDataset := by
  have hsub : ∀ o : Object, o.isDataset = true → (o.type != .bookmark) = true := by
    intro o ho
    obtain ⟨d, hd⟩ := o.isDataset_iff.mp ho
    rw [bne_iff_ne]
    intro ht
    obtain ⟨_, _, hm⟩ := o.type_bookmark_iff.mp ht
    simp [hd] at hm
  rw [← State.filter_restrict hsub, h.objects, State.filter_restrict hsub]

theorem reach (h : Alike s' s) (r : Reference) (root : Dataset) : r.reach s' root = r.reach s root := by
  simp only [Reference.reach, Reference.candidates, h.proofDatasets]
  rw [(h.restrict _).datasets]

theorem proven (h : Alike s' s) {r : Reference} {lineage : ID} {d : Dataset} :
    r.Proven s' lineage d ↔ r.Proven s lineage d := by
  simp only [Reference.Proven, h.object (n := r.snapshotOn d) rfl]
  refine exists_congr fun o => and_congr_right fun ho => ?_
  rw [h.owns (o.type_snapshot_iff.mpr ⟨_, _, (State.object_eq_some.mp ho).2⟩)]

end Alike

/-! ## Standing proofs -/

theorem referenceRecords_of_authority {s : State} {installation lineage : ID} {root : Dataset}
    (h : rootAuthority s root installation = .ok lineage) :
    referenceRecords s root (some lineage) = readRecords root (some lineage) [] (recordRows s root) := by
  have hcurrent : currentState s root = .ok () := by
    simp only [rootAuthority, ok_iff] at h
    obtain ⟨-, -, h⟩ := h
    split at h
    · simp only [ok_iff] at h
      exact h.2.2.choose_spec.1
    · simp at h
  have hreadable : recordsReadable s root = .ok () := by
    unfold recordsReadable
    split
    · exact hcurrent
    · rfl
  rw [referenceRecords, hreadable]
  rfl

theorem Standing.alike {s s' : State} {installation lineage : ID} {root : Dataset} {r : Reference}
    (h : Standing s installation root r lineage) (ha : Alike s' s) (hrows : recordRows s' root = recordRows s root)
    (hread : ∀ d ∈ r.reach s root, ∃ o, r.sourceOn s' d = .ok o) : Standing s' installation root r lineage := by
  have hauthority : rootAuthority s' root installation = .ok lineage := by rw [ha.rootAuthority, h.authority]
  refine ⟨h.valid, ?_, ?_, hauthority, ?_, ?_⟩
  · rw [ha.hasObject rfl, h.hasRoot]
  · rw [ha.proofDatasets, (ha.restrict _).resumeTokens, h.ready]
  · rw [referenceRecords_of_authority hauthority, hrows, ← referenceRecords_of_authority h.authority]
    exact h.stored
  · rwa [ha.reach]

/-! ## Holds and bookmarks -/

def isProtecting : Command → Bool
  | .hold _ _ => true
  | .release _ _ => true
  | .bookmark _ _ => true
  | .destroyBookmark _ _ => true
  | _ => false

section Protecting

variable {s s' : State} {c : Command}

theorem alike_of_protecting (hc : isProtecting c = true) (h : c.run s = .ok s') : Alike s' s := by
  refine run_alike ?_ h
  cases c <;> first | rfl | cases hc

theorem recordRows_of_protecting (root : Dataset) (hc : isProtecting c = true) (h : c.run s = .ok s') :
    recordRows s' root = recordRows s root := by
  cases c with
  | hold t n =>
    obtain ⟨-, -, rfl⟩ := State.hold_eq_ok.mp h
    rfl
  | release t n =>
    obtain ⟨-, rfl⟩ := State.release_eq_ok.mp h
    rfl
  | bookmark n m =>
    obtain ⟨o, b, -, -, -, -, hnew, rfl⟩ := State.bookmark_eq_ok h
    rfl
  | destroyBookmark d m =>
    obtain ⟨-, rfl⟩ := State.destroyBookmark_eq_ok.mp h
    refine State.filter_restrict fun p hp => ?_
    simp only [Bool.and_eq_true, beq_iff_eq] at hp
    simp [hp.1.1]
  | setProperty n k v => cases hc
  | inheritProperty n k => cases hc
  | destroySnapshot n => cases hc

theorem run_elsewhere {n : Name} (h : c.run s = .ok s') (hn : n.base ≠ c.base) :
    s'.object n = s.object n ∧ ∀ t, s'.held n t = s.held n t := by
  have hout := run_restrict h (p := (· == n.base)) (by simpa using hn.symm)
  constructor
  · rw [← State.restrict_object (s := s') (p := (· == n.base)) (by simp), hout, State.restrict_object (by simp)]
  · intro t
    have hheld : ∀ x : State, x.held n t = (x.restrict (· == n.base)).held n t := fun x => by simp
    rw [hheld s', hheld s, hout]

theorem hasObject_elsewhere {n : Name} (h : c.run s = .ok s') (hn : n.base ≠ c.base) :
    s'.hasObject n = s.hasObject n := by
  rw [Bool.eq_iff_iff, ← State.object_isSome_iff, ← State.object_isSome_iff, (run_elsewhere h hn).1]

end Protecting

end Boomerangz.Lifecycle
