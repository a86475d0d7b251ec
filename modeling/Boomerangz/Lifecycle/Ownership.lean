import Boomerangz.Policy.Effective

/-! # Ownership and authority

Which snapshots belong to a lineage, and whether this installation may change a source root.
-/

namespace Boomerangz.Lifecycle

open Check Zfs Policy

/-! ## Snapshots -/

structure Metadata where
  lineage : ID
  snapshot : ID
  created : Time
deriving DecidableEq, Repr

/-- The snapshot component, suitable for recursive snapshot creation. -/
def Metadata.name (m : Metadata) : Component := .owned m.created m.snapshot.short

/-- `Properties`, as the rows of a snapshot of `d` created with them. -/
def Metadata.rows (m : Metadata) (d : Dataset) : List Property :=
  [⟨.snapshot d m.name, .lineage, .id m.lineage, .sourceLocal⟩,
    ⟨.snapshot d m.name, .snapshot, .id m.snapshot, .sourceLocal⟩]

structure Snapshot where
  name : Name
  guid : Nat
  properties : List Property
  holds : List Tag
  clones : List Dataset
  resumeRequired : Bool
deriving DecidableEq, Repr

def valueOf (rows : List Property) (k : Key) : Option Value :=
  (rows.find? (·.name == k)).map Property.value

def ownership (s : Snapshot) (lineage : ID) : Except Error Metadata := do
  require (s.guid != 0) (.plain "valid lineage and snapshot GUID are required")
  match s.name with
  | .snapshot d c =>
    require (validDataset d && c matches .owned _ _ | .stray _)
      (.plain "snapshot name does not establish ownership")
    let rows := s.properties.filter (fun p => p.name == .lineage || p.name == .snapshot)
    require (rows.all (·.dataset == s.name)) (.plain "ownership metadata is not stored on snapshot")
    require (decide (rows.map Property.name).Nodup) (.plain "ambiguous ownership metadata")
    match valueOf rows .lineage, valueOf rows .snapshot with
    | some (.id l), some (.id u) =>
      require (l == lineage) (.plain "missing or mismatched ownership UUIDs")
      match c with
      | .owned created short =>
        require (created != 0 && created < endOfTime) (.plain "invalid ownership creation time")
        require (short == u.short) (.plain "snapshot name does not match its metadata")
        return ⟨lineage, u, created⟩
      -- What follows the prefix is not a time and eight digits.
      | _ => throw (.plain "invalid ownership creation time")
    | _, _ => throw (.plain "missing or mismatched ownership UUIDs")
  | _ => throw (.plain "snapshot name does not establish ownership")

def valuesAt (k : Key) (rows : List Property) : List Value := (rows.filter (·.name == k)).map Property.value

theorem valueOf_eq_head? (rows : List Property) (k : Key) : valueOf rows k = (valuesAt k rows).head? := by
  rw [valueOf, valuesAt, List.head?_map, List.head?_filter]

theorem length_valuesAt (rows : List Property) (k : Key) : (valuesAt k rows).length = (rows.map Property.name).count k := by
  rw [valuesAt, List.length_map, List.count, List.countP_map, List.countP_eq_length_filter]
  rfl

theorem ownership_eq_ok_iff {s : Snapshot} {lineage : ID} {m : Metadata} : ownership s lineage = .ok m ↔
    s.guid ≠ 0 ∧ (∃ d, validDataset d = true ∧ s.name = .snapshot d m.name) ∧
      (∀ p ∈ s.properties, p.name = .lineage ∨ p.name = .snapshot → p.dataset = s.name) ∧
      valuesAt .lineage s.properties = [.id m.lineage] ∧ valuesAt .snapshot s.properties = [.id m.snapshot] ∧
      m.lineage = lineage ∧ m.created ≠ 0 ∧ m.created < endOfTime := by
  have hrows : ∀ k ∈ [Key.lineage, .snapshot],
      valuesAt k (s.properties.filter fun p => p.name == .lineage || p.name == .snapshot) = valuesAt k s.properties := by
    intro k hk
    rw [valuesAt, valuesAt, List.filter_filter]
    congr 2
    funext p
    by_cases hp : p.name = k
    · simp only [List.mem_cons, List.not_mem_nil, or_false] at hk
      simp [hp, hk]
    · simp [hp]
  have hl := hrows .lineage (by simp)
  have hs := hrows .snapshot (by simp)
  simp only [ownership, ok_iff, bne_iff_ne, valueOf_eq_head?, hl, hs]
  refine and_congr_right fun hguid => ?_
  constructor
  · intro h
    split at h
    · rename_i d c hname
      simp only [ok_iff, Bool.and_eq_true, decide_eq_true_eq, List.all_eq_true, List.mem_filter, Bool.or_eq_true, beq_iff_eq,
        and_imp] at h
      obtain ⟨⟨hvalid, -⟩, hstored, hnodup, h⟩ := h
      have hone : ∀ k ∈ [Key.lineage, .snapshot], ∀ v, (valuesAt k s.properties).head? = some v → valuesAt k s.properties = [v] := by
        intro k hk v hv
        have hcount := length_valuesAt _ k ▸ List.nodup_iff_count_le_one.mp hnodup k
        rw [hrows k hk] at hcount
        cases hvalues : valuesAt k s.properties with
        | nil => simp [hvalues] at hv
        | cons w ws =>
          rw [hvalues] at hv hcount
          rw [List.length_eq_zero_iff.mp (Nat.le_zero.mp (Nat.le_of_succ_le_succ hcount)), Option.some.inj hv]
      split at h
      · rename_i l u hvl hvs
        simp only [ok_iff, beq_iff_eq] at h
        obtain ⟨rfl, h⟩ := h
        split at h
        · simp only [ok_iff, beq_iff_eq, Bool.and_eq_true, bne_iff_ne, decide_eq_true_eq] at h
          obtain ⟨⟨hpos, hend⟩, hshort, rfl⟩ := h
          exact ⟨⟨d, hvalid, by rw [hname, Metadata.name, hshort]⟩, hname ▸ hstored, hone .lineage (by simp) _ hvl, hone .snapshot (by simp) _ hvs, rfl, hpos, hend⟩
        · simp at h
      · simp at h
    · simp at h
  · rintro ⟨⟨d, hd, hname⟩, hstored, hvl, hvs, rfl, hpos, hend⟩
    have hnodup : ((s.properties.filter fun p => p.name == .lineage || p.name == .snapshot).map Property.name).Nodup := by
      refine List.nodup_iff_count_le_one.mpr fun k => ?_
      by_cases hk : k ∈ [Key.lineage, .snapshot]
      · rw [← length_valuesAt, hrows k hk]
        simp only [List.mem_cons, List.not_mem_nil, or_false] at hk
        rcases hk with rfl | rfl <;> simp [hvl, hvs]
      · rw [List.count_eq_zero_of_not_mem]
        · exact Nat.zero_le 1
        · intro hmem
          obtain ⟨p, hp, rfl⟩ := List.mem_map.mp hmem
          exact hk (by simpa using (List.mem_filter.mp hp).2)
    simp only [hname, Metadata.name, hvl, hvs, ok_iff, hd, hnodup, List.head?_cons, List.all_eq_true, List.mem_filter,
      Bool.or_eq_true, beq_iff_eq, and_imp] at hstored ⊢
    exact ⟨rfl, hstored, rfl, trivial, by simp [hpos, hend], trivial, trivial⟩

theorem ownership_eq_ok {x : Snapshot} {lineage : ID} {m : Metadata} (h : ownership x lineage = .ok m) :
    (∃ d, validDataset d = true ∧ x.name = .snapshot d m.name) ∧ m.lineage = lineage ∧ m.created ≠ 0 ∧ m.created < endOfTime := by
  obtain ⟨-, hname, -, -, -, h⟩ := ownership_eq_ok_iff.mp h
  exact ⟨hname, h⟩

def owns (s : State) (o : Object) (lineage : ID) : Except Error Metadata :=
  ownership ⟨o.name, o.guid, s.properties.filter (·.dataset == o.name), [], [], false⟩ lineage

def snapshotOf (s : State) (o : Object) : Snapshot where
  name := o.name
  guid := o.guid
  properties := s.properties.filter (·.dataset == o.name)
  holds := (s.holds.filter (·.1 == o.name)).map Prod.snd
  clones := (s.clones.filter (·.1 == o.name)).map Prod.snd
  resumeRequired := !s.resumeTokens.isEmpty

def snapshotsIn (s : State) (d : Dataset) : List Snapshot :=
  (s.objects.filter (fun o => o.type == .snapshot && o.name.base == d)).map (snapshotOf s)

theorem mem_snapshotsIn {s : State} {d : Dataset} {x : Snapshot} :
    x ∈ snapshotsIn s d ↔ ∃ o ∈ s.objects, o.type = .snapshot ∧ o.name.base = d ∧ snapshotOf s o = x := by
  simp [snapshotsIn, and_assoc]

theorem snapshotsIn_nodup (s : State) (d : Dataset) : ((snapshotsIn s d).map Snapshot.name).Nodup := by
  have h : (snapshotsIn s d).map Snapshot.name =
      (s.objects.filter (fun o => o.type == .snapshot && o.name.base == d)).map Object.name := by
    simp [snapshotsIn, snapshotOf, Function.comp_def]
  rw [h]
  exact (List.Sublist.map Object.name List.filter_sublist).nodup s.distinct

theorem snapshotOf_restrict {s : State} {p : Dataset → Bool} {o : Object} (h : p o.name.base = true) :
    snapshotOf (s.restrict p) o =
      { snapshotOf s o with resumeRequired := !(s.restrict p).resumeTokens.isEmpty } := by
  have hrow : ∀ n : Name, ((n == o.name) && p n.base) = (n == o.name) := by
    intro n
    by_cases hn : n = o.name <;> simp [hn, h]
  simp only [snapshotOf, State.restrict, List.filter_filter, hrow]

theorem snapshotOf_without {s : State} {ns : List Name} {o : Object} (h : o.name ∉ ns) :
    snapshotOf (s.without ns) o = snapshotOf s o := by
  have hrow : ∀ n : Name, ((n == o.name) && !ns.contains n) = (n == o.name) := by
    intro n
    by_cases hn : n = o.name <;> simp [hn, h]
  simp only [snapshotOf, State.without, List.filter_filter, hrow]

def findOwned (s : State) (d : Dataset) (n : Name) (lineage : ID) : Except Error (Snapshot × Metadata) :=
  match (snapshotsIn s d).find? (·.name == n) with
  | none => .error (.plain "source snapshot not found")
  | some snapshot => do
    let m ← ownership snapshot lineage
    return (snapshot, m)

/-! ## Roots -/

/-- Inherited lineage is never ownership of another dataset. -/
def storedLineage (s : State) (d : Dataset) : Except Error (Option ID) := do
  let rows := s.properties.filter (fun p => p.dataset == .dataset d && p.name == .lineage)
  let lineage ← match rows with
    | [] => pure none
    | [⟨_, _, .id u, _⟩] => pure (some u)
    | _ => throw (.message "ambiguous or invalid lineage on %s" [.name (.dataset d)])
  let hidden := s.received.filter (fun r => r.1 == .dataset d && r.2.1 == .lineage)
  require (hidden.all (fun r => lineage.any (fun u => r.2.2 == .id u)))
    (.message "conflicting or hidden received lineage on %s" [.name (.dataset d)])
  return lineage

def scopeReady (s : State) (d : Dataset) : Except Error Unit := do
  require s.resumeTokens.isEmpty (.plain "scope has resumable receive state")
  require (s.hasObject (.dataset d)) (.plain "dataset missing from lifecycle inventory")

def currentVersion : Nat := 2

/-- A root without a marker is in the first format. -/
def stateVersion (s : State) (root : Dataset) : Except Error Nat :=
  match s.localRows root .version with
  | [] => .ok 1
  | [⟨_, _, .number (n + 1), _⟩] => .ok (n + 1)
  | _ => .error (.message "state version marker on %s is invalid" [.name (.dataset root)])

def currentState (s : State) (root : Dataset) : Except Error Unit := do
  let version ← stateVersion s root
  let args : List Arg := [.name (.dataset root), .number version, .number currentVersion]
  require (currentVersion ≤ version) (.message
    "state on %s is format v%d, and this build reads v%d; stop the daemon and run boomerangz migrate %s"
    (args ++ [.name (.dataset root)]))
  require (version ≤ currentVersion)
    (.message "state on %s is format v%d, newer than the v%d this build reads; upgrade boomerangz" args)

def keepsRecords (s : State) (root : Dataset) : Bool :=
  s.properties.any fun p => p.dataset == .dataset root && p.source == .sourceLocal &&
    (p.name.isReference || p.name.isTargetState)

def recordsReadable (s : State) (root : Dataset) : Except Error Unit :=
  if keepsRecords s root then currentState s root else .ok ()

def authorityRows (root : Dataset) (installation lineage : ID) : List Property :=
  [⟨.dataset root, .owner, .id installation, .sourceLocal⟩,
    ⟨.dataset root, .lineage, .id lineage, .sourceLocal⟩,
    ⟨.dataset root, .version, .number currentVersion, .sourceLocal⟩]

/-- The root's lineage, under its exact local markers. -/
def rootAuthority (s : State) (root : Dataset) (installation : ID) : Except Error ID := do
  require (validDataset root) (.invalidName root)
  let rows := s.properties.filter fun p =>
    p.dataset == .dataset root && (p.name == .owner || p.name == .lineage)
  require (rows.all (fun p => p.source == .sourceLocal && p.value matches .id _) &&
      decide (rows.map Property.name).Nodup)
    (.message "source root %s requires unambiguous explicitly local owner and lineage"
      [.name (.dataset root)])
  match valueOf rows .owner, valueOf rows .lineage with
  | some (.id owner), some (.id lineage) =>
    require (owner == installation)
      (.message "dormant foreign lineage on %s: owner %s does not match installation %s"
        [.name (.dataset root)])
    let hidden := s.received.filter (fun r => r.1 == .dataset root && r.2.1 == .lineage)
    require (hidden.all (fun r => r.2.2 == .id lineage))
      (.message "conflicting received lineage on %s" [.name (.dataset root)])
    currentState s root
    return lineage
  | _, _ => throw (.message "source root %s lacks local authority; explicit adoption required"
      [.name (.dataset root)])

theorem rootAuthority_valid {s : State} {root : Dataset} {installation lineage : ID}
    (h : rootAuthority s root installation = .ok lineage) : validDataset root = true := by
  simp only [rootAuthority, ok_iff] at h
  exact h.1

/-- Activation must be set locally on the root itself. -/
def activeRoot (p : Effective) (root : Dataset) : Except Error Unit := do
  require (p.enabled && p.valid) (.plain "source policy must be enabled and valid")
  require (p.origin "enabled" != [])
    (.plain "source activation must come from locally configured policy")
  require (p.origin "enabled" == root)
    (.message "activation is inherited from %s, so %s is a member of that root rather than a root"
      [.name (.dataset (p.origin "enabled")), .name (.dataset root)])

end Boomerangz.Lifecycle
