import Boomerangz.Lifecycle.Accounted
import Boomerangz.Lifecycle.Authority
import Boomerangz.Zfs.Fact

/-! # Records of references

What the reference operations read, said of the pool.
-/

namespace Boomerangz.Lifecycle

open Check Lists Zfs

/-! ## Records -/

section Records

variable {s : State} {root : Dataset} {lineage : Option ID} {p : Property} {r : Reference}
  {refs : List Reference} {rows : List Property}

theorem decodeReference_eq_some (h : decodeReference p root lineage = some r) :
    p.name = r.property ∧ p.value = .reference (encodeReference r root) ∧ lineage = some r.metadata.lineage ∧
      validDataset r.dataset = true ∧ root <+: r.dataset := by
  unfold decodeReference at h
  split at h
  · rename_i l t stream u record hname hvalue
    obtain ⟨hvalid, rfl⟩ := Option.ite_none_right_eq_some.mp h |>.imp id Option.some.inj
    simp only [Bool.and_eq_true, beq_iff_eq] at hvalid
    refine ⟨?_, ?_, rfl, hvalid.1.1.1, List.prefix_append _ _⟩
    · rw [hname, Reference.property, hvalid.2]
    · rw [hvalue]
      simp [encodeReference]
  · cases h

theorem mem_recordRows : p ∈ recordRows s root ↔ p ∈ s.properties ∧ p.dataset = .dataset root ∧
    p.name.isReference = true ∧ p.source = .sourceLocal := by
  simp [recordRows, and_assoc]

theorem recordRows_inherit {s' : State} {k : Key} (hrun : s.inheritProperty (.dataset root) k = .ok s') :
    recordRows s' root = (recordRows s root).filter (·.name != k) := by
  obtain ⟨-, rfl⟩ := State.inheritProperty_eq_ok.mp hrun
  simp only [recordRows, List.filter_filter]
  refine List.filter_congr fun p _ => ?_
  simp only [bne]
  cases p.dataset == .dataset root <;> cases p.name == k <;> simp

theorem readRecords_cons {seen : List Key} : readRecords root lineage seen (p :: rows) = .ok refs ↔
    ∃ r, decodeReference p root lineage = some r ∧ p.name ∉ seen ∧
      ∃ rest, readRecords root lineage (p.name :: seen) rows = .ok rest ∧ r :: rest = refs := by
  rw [readRecords]
  split
  · rename_i hnone
    simp [hnone]
  · rename_i r hr
    simp only [hr, ok_iff]
    simp

theorem mem_readRecords {seen : List Key}
    (h : readRecords root lineage seen rows = .ok refs) :
    (∀ r ∈ refs, ∃ p ∈ rows, decodeReference p root lineage = some r) ∧
      ∀ p ∈ rows, ∃ r ∈ refs, decodeReference p root lineage = some r := by
  induction rows generalizing seen refs with
  | nil =>
    cases h
    simp
  | cons p rows ih =>
    obtain ⟨r, hr, -, rest, hrest, rfl⟩ := readRecords_cons.mp h
    obtain ⟨hrefs, hrows⟩ := ih hrest
    simp only [List.mem_cons, forall_eq_or_imp, exists_eq_or_imp]
    exact ⟨⟨.inl hr, fun r hr => .inr (hrefs r hr)⟩, .inl hr, fun p hp => .inr (hrows p hp)⟩

theorem readRecords_of_records (h : referenceRecords s root lineage = .ok refs) :
    readRecords root lineage [] (recordRows s root) = .ok refs := by
  simp only [referenceRecords, bind_eq_ok] at h
  exact h.choose_spec.2

theorem readRecords_append {seen : List Key}
    (h : readRecords root lineage seen rows = .ok refs) (hp : decodeReference p root lineage = some r)
    (hseen : p.name ∉ seen) (hrows : ∀ q ∈ rows, q.name ≠ p.name) :
    readRecords root lineage seen (rows ++ [p]) = .ok (refs ++ [r]) := by
  induction rows generalizing seen refs with
  | nil =>
    cases h
    simp [readRecords, hp, hseen, require]
  | cons q rows ih =>
    obtain ⟨x, hx, hq, rest, hrest, rfl⟩ := readRecords_cons.mp h
    have hne := hrows q (by simp)
    exact readRecords_cons.mpr ⟨x, hx, hq, rest ++ [r], ih hrest (by simp [hne.symm, hseen]) fun y hy => hrows y (by simp [hy]), rfl⟩

theorem readRecords_store {s' : State} {v : Value}
    (h : readRecords root lineage [] (recordRows s root) = .ok refs)
    (hr : decodeReference ⟨.dataset root, r.property, v, .sourceLocal⟩ root lineage = some r)
    (hfresh : ∀ x ∈ refs, x.property ≠ r.property) (hrun : s.setProperty (.dataset root) r.property v = .ok s') :
    readRecords root lineage [] (recordRows s' root) = .ok (refs ++ [r]) := by
  have hkeys : ∀ q ∈ recordRows s root, q.name ≠ r.property := by
    intro q hq hname
    obtain ⟨x, hx, hdec⟩ := (mem_readRecords h).2 q hq
    exact hfresh x hx ((decodeReference_eq_some hdec).1.symm.trans hname)
  have hrows : recordRows s' root = recordRows s root ++ [⟨.dataset root, r.property, v, .sourceLocal⟩] := by
    obtain ⟨-, rfl⟩ := State.setProperty_eq_ok.mp hrun
    simp only [recordRows, List.filter_append]
    congr 1
    · rw [List.filter_filter]
      refine List.filter_congr fun q hq => Bool.and_eq_left_iff_imp.mpr fun hrow => ?_
      have hne := hkeys q (List.mem_filter.mpr ⟨hq, hrow⟩)
      simp [hne]
    · simp [Reference.property, Key.isReference]
  rw [hrows]
  exact readRecords_append h hr (by simp) hkeys

theorem readRecords_nodup {seen : List Key}
    (h : readRecords root lineage seen rows = .ok refs) :
    (refs.map Reference.property).Nodup ∧ ∀ x ∈ refs, x.property ∉ seen := by
  induction rows generalizing seen refs with
  | nil =>
    cases h
    simp
  | cons p rows ih =>
    obtain ⟨x, hx, hp, rest, hrest, rfl⟩ := readRecords_cons.mp h
    obtain ⟨hnodup, hseen⟩ := ih hrest
    rw [(decodeReference_eq_some hx).1] at hp hseen
    refine ⟨List.nodup_cons.mpr ⟨?_, hnodup⟩, ?_⟩
    · intro hmem
      obtain ⟨y, hy, heq⟩ := List.mem_map.mp hmem
      exact hseen y hy (by simp [heq])
    · intro y hy
      rcases List.mem_cons.mp hy with rfl | hy
      · exact hp
      · exact fun hmem => hseen y hy (List.mem_cons_of_mem _ hmem)

theorem readRecords_filter {seen seen' : List Key} (k : Key)
    (h : readRecords root lineage seen rows = .ok refs) (hseen : seen' ⊆ seen) :
    readRecords root lineage seen' (rows.filter (·.name != k)) = .ok (refs.filter (·.property != k)) := by
  induction rows generalizing seen seen' refs with
  | nil =>
    cases h
    rfl
  | cons p rows ih =>
    obtain ⟨x, hx, hp, rest, hrest, rfl⟩ := readRecords_cons.mp h
    have hname := (decodeReference_eq_some hx).1
    rw [List.filter_cons, List.filter_cons, hname]
    split
    · exact readRecords_cons.mpr
        ⟨x, hx, fun hmem => hp (hseen hmem), _, ih hrest (List.cons_subset_cons _ hseen), rfl⟩
    · exact ih hrest (List.subset_cons_of_subset _ hseen)

end Records

/-! ## Scopes -/

section Scopes

variable {pool s : State} {root : Dataset} {datasets : List Dataset} {subtree : Dataset}

def proofDatasets (pool : State) (root : Dataset) (datasets : List Dataset) (subtree d : Dataset) : Bool :=
  d == root || (datasets.contains d && pool.hasObject (.dataset d)) ||
    (subtree != [] && pool.hasObject (.dataset subtree) && inside d subtree)

theorem proofScope_eq_ok : proofScope pool root datasets subtree = .ok s ↔
    pool.hasObject (.dataset root) = true ∧ pool.restrict (proofDatasets pool root datasets subtree) = s := by
  simp only [proofScope, ok_iff]
  rfl

theorem proofDatasets_root (pool : State) (root : Dataset) (datasets : List Dataset) (subtree : Dataset) :
    proofDatasets pool root datasets subtree root = true := by simp [proofDatasets]

theorem ownership_snapshotOf (o : Object) (lineage : ID) : ownership (snapshotOf s o) lineage = owns s o lineage := rfl

theorem findOwned_eq_ok {d : Dataset} {n : Name} {lineage : ID} {x : Snapshot} {m : Metadata} :
    findOwned s d n lineage = .ok (x, m) ↔ ∃ o ∈ s.objects, o.name = n ∧ o.type = .snapshot ∧ n.base = d ∧
      owns s o lineage = .ok m ∧ x = snapshotOf s o := by
  unfold findOwned
  constructor
  · intro h
    split at h
    · cases h
    · rename_i y hfind
      simp only [ok_iff, Prod.mk.injEq] at h
      obtain ⟨m', hm, rfl, rfl⟩ := h
      obtain ⟨o, ho, htype, hbase, rfl⟩ := mem_snapshotsIn.mp (List.mem_of_find?_eq_some hfind)
      have hname : o.name = n := by simpa [snapshotOf] using List.find?_some hfind
      exact ⟨o, ho, hname, htype, hname ▸ hbase, hm, rfl⟩
  · rintro ⟨o, ho, rfl, htype, hbase, hm, rfl⟩
    have hfind : (snapshotsIn s d).find? (·.name == o.name) = some (snapshotOf s o) := by
      refine find?_unique (mem_snapshotsIn.mpr ⟨o, ho, htype, hbase, rfl⟩) (by simp [snapshotOf]) ?_
      intro y hy hname
      obtain ⟨o', ho', -, -, rfl⟩ := mem_snapshotsIn.mp hy
      have : o' = o := List.inj_on_of_nodup_map s.distinct ho' ho (by simpa [snapshotOf] using hname)
      rw [this]
    simp only [hfind, ok_iff, Prod.mk.injEq, true_and]
    exact ⟨m, hm, rfl⟩

theorem owns_eq_ok {o : Object} {lineage : ID} {m : Metadata} (h : owns s o lineage = .ok m) :
    o.name = .snapshot o.name.base m.name ∧ m.lineage = lineage ∧ m.created ≠ 0 ∧ m.created < endOfTime := by
  obtain ⟨⟨d, -, hd⟩, hrest⟩ := ownership_eq_ok h
  have hname : o.name = .snapshot d m.name := hd
  exact ⟨by rw [hname]; rfl, hrest⟩

end Scopes

end Boomerangz.Lifecycle
