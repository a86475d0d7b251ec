import Boomerangz.Lifecycle.Sound

/-! # Plans that run to their end

An unblocked plan can be carried out unless two of its proofs name the same hold or bookmark.
-/

namespace Boomerangz.Lifecycle

open Check Lists Zfs

/-! ## The actions of proofs -/

def shares (s : State) (r r' : Reference) : Bool :=
  r.targetID == r'.targetID && (scopeDatasets s).any fun x => r.covers x && r'.covers x &&
    (r.metadata.name == r'.metadata.name && s.held (r.snapshotOn x) r.hold ||
      r.metadata.snapshot == r'.metadata.snapshot && s.hasObject (r.bookmarkOn x))

section Proofs

variable {s : State} {r r' : Reference} {x : Dataset} {c : Command} {a : CleanAction} {proofs : List Reference}
  {rest : List CleanAction}

theorem mem_scopeDatasets : x ∈ scopeDatasets s ↔ ∃ o ∈ s.objects, o.isDataset = true ∧ o.name.base = x := by
  simp [scopeDatasets, and_assoc]

theorem scopeDatasets_nodup : (scopeDatasets s).Nodup :=
  (List.perm_insertionSort _ _).nodup_iff.mpr s.datasets_nodup

theorem mem_candidates_iff : x ∈ r.candidates s ↔ x ∈ scopeDatasets s ∧ r.covers x = true := by
  rw [Reference.mem_candidates, mem_scopeDatasets]

theorem mem_dropsOn : c ∈ (dropsOn s r x).map CleanAction.command ↔
    (s.held (r.snapshotOn x) r.hold = true ∧ c = .release r.hold (r.snapshotOn x)) ∨
      (s.hasObject (r.bookmarkOn x) = true ∧ c = .destroyBookmark x r.mark) := by
  unfold dropsOn
  cases s.held (r.snapshotOn x) r.hold <;> cases s.hasObject (r.bookmarkOn x) <;> simp [CleanAction.command]

theorem mem_proofActions : c ∈ (proofActions s r).map CleanAction.command ↔ ∃ x ∈ r.candidates s,
    (s.held (r.snapshotOn x) r.hold = true ∧ c = .release r.hold (r.snapshotOn x)) ∨
      (s.hasObject (r.bookmarkOn x) = true ∧ c = .destroyBookmark x r.mark) := by
  simp only [proofActions, List.map_flatMap, List.mem_flatMap, mem_dropsOn]

theorem proofActions_nodup : ((proofActions s r).map CleanAction.command).Nodup := by
  rw [proofActions, List.map_flatMap, List.nodup_flatMap]
  constructor
  · intro x _
    unfold dropsOn
    cases s.held (r.snapshotOn x) r.hold <;> cases s.hasObject (r.bookmarkOn x) <;> simp [CleanAction.command]
  · refine Reference.candidates_nodup.imp fun hne c hc hc' => hne ?_
    rw [mem_dropsOn] at hc hc'
    have hbase : ∀ {y}, (s.held (r.snapshotOn y) r.hold = true ∧ c = .release r.hold (r.snapshotOn y)) ∨
        (s.hasObject (r.bookmarkOn y) = true ∧ c = .destroyBookmark y r.mark) → c.base = y := by
      rintro y (⟨-, rfl⟩ | ⟨-, rfl⟩) <;> rfl
    exact (hbase hc).symm.trans (hbase hc')

theorem shares_iff : shares s r r' = true ↔ ∃ c, c ∈ (proofActions s r).map CleanAction.command ∧
    c ∈ (proofActions s r').map CleanAction.command := by
  simp only [shares, Bool.and_eq_true, Bool.or_eq_true, beq_iff_eq, List.any_eq_true, mem_proofActions,
    mem_candidates_iff]
  constructor
  · rintro ⟨htarget, x, hx, ⟨hcovers, hcovers'⟩, ⟨hname, hheld⟩ | ⟨hsnapshot, hmarked⟩⟩
    · have hhold : r'.hold = r.hold := by rw [Reference.hold, Reference.hold, htarget]
      have hon : r'.snapshotOn x = r.snapshotOn x := by rw [Reference.snapshotOn, Reference.snapshotOn, hname]
      exact ⟨_, ⟨x, ⟨hx, hcovers⟩, .inl ⟨hheld, rfl⟩⟩, x, ⟨hx, hcovers'⟩, .inl (by rw [hhold, hon]; exact ⟨hheld, rfl⟩)⟩
    · have hmark : r'.mark = r.mark := by rw [Reference.mark, Reference.mark, htarget, hsnapshot]
      have hon : r'.bookmarkOn x = r.bookmarkOn x := by rw [Reference.bookmarkOn, Reference.bookmarkOn, hmark]
      exact ⟨_, ⟨x, ⟨hx, hcovers⟩, .inr ⟨hmarked, rfl⟩⟩, x, ⟨hx, hcovers'⟩,
        .inr (by rw [hmark, hon]; exact ⟨hmarked, rfl⟩)⟩
  · rintro ⟨c, ⟨x, ⟨hx, hcovers⟩, hc⟩, y, ⟨-, hcovers'⟩, hc'⟩
    rcases hc with ⟨hheld, rfl⟩ | ⟨hmarked, rfl⟩
    · rcases hc' with ⟨-, hc'⟩ | ⟨-, hc'⟩
      · simp only [Reference.hold, Reference.snapshotOn, Command.release.injEq, Tag.target.injEq,
          Name.snapshot.injEq] at hc'
        obtain ⟨htarget, rfl, hname⟩ := hc'
        exact ⟨htarget, x, hx, ⟨hcovers, hcovers'⟩, .inl ⟨hname, hheld⟩⟩
      · cases hc'
    · rcases hc' with ⟨-, hc'⟩ | ⟨-, hc'⟩
      · cases hc'
      · simp only [Reference.mark, Command.destroyBookmark.injEq, Mark.target.injEq] at hc'
        obtain ⟨rfl, htarget, hsnapshot⟩ := hc'
        exact ⟨htarget, x, hx, ⟨hcovers, hcovers'⟩, .inr ⟨hsnapshot, hmarked⟩⟩

theorem proofs_nodup_iff :
    ((proofs.flatMap (proofActions s)).map CleanAction.command).Nodup ↔
      proofs.Pairwise fun r r' => shares s r r' = false := by
  rw [List.map_flatMap, List.nodup_flatMap]
  refine ⟨fun h => h.2.imp fun {r r'} hdisjoint => ?_, fun h => ⟨fun _ _ => proofActions_nodup, h.imp fun {r r'} hnot => ?_⟩⟩
  · rw [Bool.eq_false_iff, Ne, shares_iff]
    rintro ⟨c, hc, hc'⟩
    exact hdisjoint hc hc'
  · intro c hc hc'
    rw [shares_iff.mpr ⟨c, hc, hc'⟩] at hnot
    cases hnot

theorem mem_flatMap_proofActions
    (h : a ∈ proofs.flatMap (proofActions s)) :
    (∃ n t g, a = .release n t g ∧ n.isSnapshot = true ∧ s.held n t = true) ∨
      ∃ x m g, a = .destroyBookmark x m g ∧ s.hasObject (.bookmark x m) = true := by
  obtain ⟨r, -, ha⟩ := List.mem_flatMap.mp h
  obtain ⟨x, -, ⟨hheld, hc⟩ | ⟨hmarked, hc⟩⟩ := mem_proofActions.mp (List.mem_map_of_mem ha)
  · cases a with
    | release n t g =>
      obtain ⟨rfl, rfl⟩ := Command.release.inj hc
      exact .inl ⟨_, _, g, rfl, rfl, hheld⟩
    | _ => cases hc
  · cases a with
    | destroyBookmark y m g =>
      obtain ⟨rfl, rfl⟩ := Command.destroyBookmark.inj hc
      exact .inr ⟨_, _, g, rfl, hmarked⟩
    | _ => cases hc

theorem inherit_rank (n : Name) (k : Key) : 2 < (CleanAction.inherit n k).rank := by
  cases n <;> cases k <;> simp [CleanAction.rank]

theorem mem_of_rank (h : a ∈ proofs.flatMap (proofActions s) ++ rest) (hrank : 2 ≤ a.rank) : a ∈ rest := by
  refine (List.mem_append.mp h).resolve_left fun hproof => ?_
  rcases mem_flatMap_proofActions hproof with ⟨_, _, _, rfl, -⟩ | ⟨_, _, _, rfl, -⟩ <;> simp [CleanAction.rank] at hrank

structure Remainder (s : State) (proofs : List Reference) (rest : List CleanAction) : Prop where
  rank : ∀ a ∈ rest, 2 ≤ a.rank
  nodup : (rest.map CleanAction.command).Nodup
  destroyed : ∀ n g, .destroySnapshot n g ∈ rest → n.isSnapshot = true ∧ s.hasObject n = true ∧
    s.clones.any (·.1 == n) = false ∧
    ∀ t, s.held n t = true → ∃ g', .release n t g' ∈ proofs.flatMap (proofActions s)
  inherited : ∀ n k, .inherit n k ∈ rest → s.hasObject n = true ∧ n.isBookmark = false ∧
    storedOn s n k = true ∧ ∀ g, .destroySnapshot n g ∉ rest

namespace Remainder

variable (h : Remainder s proofs rest)
include h

theorem nodup_iff : ((proofs.flatMap (proofActions s) ++ rest).map CleanAction.command).Nodup ↔
    proofs.Pairwise fun r r' => shares s r r' = false := by
  rw [← proofs_nodup_iff, List.map_append, List.nodup_append]
  refine ⟨fun hnodup => hnodup.1, fun hnodup => ⟨hnodup, h.nodup, ?_⟩⟩
  rintro c hc c' hc' rfl
  obtain ⟨a, ha, rfl⟩ := List.mem_map.mp hc
  obtain ⟨b, hb, hcommand⟩ := List.mem_map.mp hc'
  have hrank := h.rank b hb
  rcases mem_flatMap_proofActions ha with ⟨_, _, _, rfl, -⟩ | ⟨_, _, _, rfl, -⟩
  · cases b <;> simp [CleanAction.command, CleanAction.rank] at hcommand hrank
  · cases b <;> simp [CleanAction.command, CleanAction.rank] at hcommand hrank

theorem removes (ha : a ∈ proofs.flatMap (proofActions s) ++ rest) : a.command.removes = true := by
  rcases List.mem_append.mp ha with ha | ha
  · rcases mem_flatMap_proofActions ha with ⟨_, _, _, rfl, -⟩ | ⟨_, _, _, rfl, -⟩ <;> rfl
  · cases a with
    | destroySnapshot n g =>
      obtain ⟨hn, -⟩ := h.destroyed n g ha
      cases n with
      | snapshot d c => rfl
      | dataset d => cases hn
      | bookmark d m => cases hn
    | _ => rfl

theorem not_erased {n : Name} {k : Key} (hk : .inherit n k ∈ rest) {xs : List CleanAction}
    (hxs : ∀ a ∈ xs, a ∈ proofs.flatMap (proofActions s) ++ rest) :
    (xs.map CleanAction.command).any (·.erases n) = false := by
  obtain ⟨-, hbookmark, -, hkept⟩ := h.inherited n k hk
  rw [List.any_eq_false]
  intro c hc herases
  obtain ⟨a, ha, rfl⟩ := List.mem_map.mp hc
  rcases List.mem_append.mp (hxs a ha) with hproof | hrest
  · rcases mem_flatMap_proofActions hproof with ⟨_, _, _, rfl, -⟩ | ⟨_, _, _, rfl, -⟩
    · cases herases
    · rw [beq_iff_eq.mp herases] at hbookmark
      cases hbookmark
  · have hrank := h.rank a hrest
    cases a with
    | destroySnapshot m g =>
      rw [beq_iff_eq.mp herases] at hkept
      exact hkept g hrest
    | destroyBookmark x m g => simp [CleanAction.rank] at hrank
    | release m t g => cases herases
    | inherit m k' => cases herases

theorem sound (hapart : proofs.Pairwise fun r r' => shares s r r' = false) :
    Sound s (proofs.flatMap (proofActions s) ++ rest) where
  marked ha := by
    rcases List.mem_append.mp ha with ha | ha
    · rcases mem_flatMap_proofActions ha with ⟨_, _, _, ha, -⟩ | ⟨_, _, _, ha, hmarked⟩ <;> cases ha
      exact hmarked
    · exact absurd (h.rank _ ha) (by simp [CleanAction.rank])
  held ha := by
    rcases List.mem_append.mp ha with ha | ha
    · rcases mem_flatMap_proofActions ha with ⟨_, _, _, ha, hheld⟩ | ⟨_, _, _, ha, -⟩ <;> cases ha
      exact hheld
    · exact absurd (h.rank _ ha) (by simp [CleanAction.rank])
  destroyed ha := by
    obtain ⟨hsnapshot, hobject, hclones, hholds⟩ := h.destroyed _ _ (mem_of_rank ha le_rfl)
    exact ⟨hsnapshot, hobject, hclones, fun t ht => (hholds t ht).imp fun _ hr => List.mem_append_left _ hr⟩
  inherited ha := by
    obtain ⟨hobject, hbookmark, hstored, hkept⟩ := h.inherited _ _ (mem_of_rank ha (inherit_rank _ _).le)
    exact ⟨hobject, hbookmark, hstored, fun g hg => hkept g (mem_of_rank hg le_rfl)⟩
  nodup := h.nodup_iff.mpr hapart

end Remainder

end Proofs

/-! ## Snapshots and keys -/

section Actions

variable {s : State} {d : Dataset} {options : CleanOptions} {safety : CleanSafety} {dependent retirement : Bool}

theorem mem_ownedSnapshots {datasets : List Dataset} {actions : List CleanAction} {y : Snapshot × Bool} :
    y ∈ ownedSnapshots s d datasets actions ↔ ∃ name ∈ datasets, ∃ lineage,
      cleanLineage s d name = .ok (some lineage) ∧ y.1 ∈ snapshotsIn s name ∧ (∃ m, ownership y.1 lineage = .ok m) ∧
      (!y.1.clones.isEmpty || y.1.resumeRequired || y.1.holds.any (!releases actions y.1.name ·)) = y.2 := by
  rw [ownedSnapshots, List.mem_flatMap]
  refine exists_congr fun name => and_congr_right fun _ => ?_
  rcases cleanLineage s d name with e | _ | lineage
  · simp
  · simp
  · simp only [List.mem_filterMap, Except.ok.injEq, Option.some.injEq, exists_eq_left']
    constructor
    · rintro ⟨x, hx, hy⟩
      cases hm : ownership x lineage with
      | error e => simp [hm] at hy
      | ok m =>
        simp only [hm, Option.some.injEq] at hy
        subst hy
        exact ⟨hx, ⟨m, hm⟩, rfl⟩
    · rintro ⟨hx, ⟨m, hm⟩, hdependent⟩
      refine ⟨y.1, hx, ?_⟩
      simp only [hm, hdependent]

theorem mem_cleanSnapshots {x : Snapshot} : x ∈ cleanSnapshots s d options safety dependent ↔
    options.destroyOwnedSnapshots = true ∧ ∃ name ∈ scopeDatasets s, ∃ lineage,
      cleanLineage s d name = .ok (some lineage) ∧ x ∈ snapshotsIn s name ∧ (∃ m, ownership x lineage = .ok m) ∧
      (!x.clones.isEmpty || x.resumeRequired ||
        x.holds.any (!releases (cleanProofs s d options safety) x.name ·)) = dependent := by
  unfold cleanSnapshots
  cases options.destroyOwnedSnapshots with
  | false => simp
  | true =>
    simp only [if_true, List.mem_map, List.mem_filter, beq_iff_eq, mem_ownedSnapshots, true_and]
    constructor
    · rintro ⟨y, ⟨h, rfl⟩, rfl⟩
      exact h
    · intro h
      exact ⟨(x, dependent), ⟨h, rfl⟩, rfl⟩

theorem ownedSnapshots_sublist (s : State) (d name : Dataset) (actions : List CleanAction) :
    ((ownedSnapshots s d [name] actions).map (·.1.name)).Sublist ((snapshotsIn s name).map Snapshot.name) := by
  rw [ownedSnapshots, List.flatMap_cons, List.flatMap_nil, List.append_nil]
  rcases cleanLineage s d name with e | _ | lineage
  · simp
  · simp
  · rw [List.map_filterMap]
    refine filterMap_sublist_map (fun x n hn => ?_) _
    cases hm : ownership x lineage with
    | error e => simp [hm] at hn
    | ok m => simpa [hm, eq_comm] using hn

theorem ownedSnapshots_nodup {datasets : List Dataset} (h : datasets.Nodup) (actions : List CleanAction) :
    ((ownedSnapshots s d datasets actions).map (·.1.name)).Nodup := by
  have hpieces : ownedSnapshots s d datasets actions =
      datasets.flatMap fun name => ownedSnapshots s d [name] actions := by simp [ownedSnapshots]
  rw [hpieces, List.map_flatMap, List.nodup_flatMap]
  refine ⟨fun name _ => (ownedSnapshots_sublist s d name actions).nodup (snapshotsIn_nodup s name),
    h.imp fun hne n hn hn' => hne ?_⟩
  have hbase : ∀ {name}, n ∈ (ownedSnapshots s d [name] actions).map (·.1.name) → n.base = name := by
    intro name hn
    obtain ⟨x, hx, rfl⟩ := List.mem_map.mp ((ownedSnapshots_sublist s d name actions).subset hn)
    obtain ⟨o, -, -, hb, rfl⟩ := mem_snapshotsIn.mp hx
    exact hb
  exact (hbase hn).symm.trans (hbase hn')

theorem cleanSnapshots_nodup : ((cleanSnapshots s d options safety dependent).map Snapshot.name).Nodup := by
  unfold cleanSnapshots
  split
  · rw [List.map_map]
    exact (List.Sublist.map _ List.filter_sublist).nodup (ownedSnapshots_nodup scopeDatasets_nodup _)
  · simp

theorem mem_inheritKeys_iff {destroyed : List Name} {n : Name} {k : Key} : (n, k) ∈ inheritKeys s retirement destroyed ↔
    storedOn s n k = true ∧ k.isBoomerangz = true ∧ n ∉ destroyed ∧
      (retirement = true → k.isPublic = false ∧ n.isSnapshot = false ∧ n.isBookmark = false) := by
  have hkept : ∀ b : Bool, (retirement && b) = false ↔ (retirement = true → b = false) := by cases retirement <;> simp
  simp only [inheritKeys, List.mem_dedup, List.mem_filter, List.mem_append, List.mem_map, Prod.mk.injEq, storedOn,
    Bool.or_eq_true, List.any_eq_true, Bool.and_eq_true, beq_iff_eq, Bool.not_eq_true', hkept]
  cases n <;> simp [Name.isSnapshot, Name.isBookmark] <;> tauto

theorem cleanSnapshots_free {x : Snapshot} (h : x ∈ cleanSnapshots s d options safety false) :
    x.name.isSnapshot = true ∧ s.hasObject x.name = true ∧ s.clones.any (·.1 == x.name) = false ∧
      ∀ t, s.held x.name t = true → ∃ g, .release x.name t g ∈ cleanProofs s d options safety := by
  obtain ⟨-, name, -, lineage, -, hx, -, hfree⟩ := mem_cleanSnapshots.mp h
  obtain ⟨o, ho, htype, -, rfl⟩ := mem_snapshotsIn.mp hx
  obtain ⟨y, c, hname⟩ := o.type_snapshot_iff.mp htype
  simp only [Bool.or_eq_false_iff, Bool.not_eq_false', List.isEmpty_iff, List.any_eq_false, Bool.not_eq_true',
    Bool.not_eq_false] at hfree
  obtain ⟨⟨hclones, -⟩, hholds⟩ := hfree
  refine ⟨by rw [snapshotOf, hname]; rfl, State.hasObject_iff.mpr ⟨o, ho, rfl⟩, ?_, ?_⟩
  · simpa [snapshotOf] using hclones
  · intro t hheld
    have hmem : t ∈ (snapshotOf s o).holds := List.mem_map.mpr
      ⟨(o.name, t), List.mem_filter.mpr ⟨State.held_iff.mp hheld, beq_self_eq_true _⟩, rfl⟩
    obtain ⟨a, ha, hc⟩ := List.any_eq_true.mp (hholds t hmem)
    cases a with
    | release n t' g =>
      obtain ⟨rfl, rfl⟩ := Command.release.inj (beq_iff_eq.mp hc)
      exact ⟨g, ha⟩
    | _ => simp [CleanAction.command] at hc

theorem storedOn_listed {n : Name} {k : Key} (hlisted : Listed s) (h : storedOn s n k = true) :
    s.hasObject n = true ∧ n.isBookmark = false := by
  simp only [storedOn, Bool.or_eq_true, List.any_eq_true, Bool.and_eq_true, beq_iff_eq] at h
  rcases h with ⟨p, hp, rfl, -⟩ | ⟨r, hr, rfl, -⟩
  · exact hlisted.rows p hp
  · exact hlisted.received r hr

def afterProofs (s : State) (d : Dataset) (options : CleanOptions) (safety : CleanSafety) (retirement : Bool) :
    List CleanAction :=
  (cleanSnapshots s d options safety false).map (fun x => .destroySnapshot x.name x.guid) ++
    (inheritKeys s retirement ((cleanSnapshots s d options safety false).map Snapshot.name)).map fun r =>
      .inherit r.1 r.2

theorem cleanActions_eq (h : Unblocked s d options safety) : cleanActions s d options safety retirement =
    (scopeProofs s d).flatMap (proofActions s) ++ afterProofs s d options safety retirement := by
  rw [cleanActions, cleanProofs_eq h.datasets, List.append_assoc]
  rfl

theorem mem_afterProofs {a : CleanAction} : a ∈ afterProofs s d options safety retirement ↔
    (∃ x ∈ cleanSnapshots s d options safety false, a = .destroySnapshot x.name x.guid) ∨
      ∃ n k, (n, k) ∈ inheritKeys s retirement ((cleanSnapshots s d options safety false).map Snapshot.name) ∧
        a = .inherit n k := by
  simp only [afterProofs, List.mem_append, List.mem_map, Prod.exists, eq_comm]

theorem afterProofs_rank {a : CleanAction} (h : a ∈ afterProofs s d options safety retirement) : 2 ≤ a.rank := by
  rcases mem_afterProofs.mp h with ⟨x, -, rfl⟩ | ⟨n, k, -, rfl⟩
  · simp [CleanAction.rank]
  · exact (inherit_rank n k).le

theorem afterProofs_nodup : ((afterProofs s d options safety retirement).map CleanAction.command).Nodup := by
  simp only [afterProofs, List.map_append, List.map_map]
  rw [List.nodup_append]
  refine ⟨?_, ?_, ?_⟩
  · have : CleanAction.command ∘ (fun x : Snapshot => .destroySnapshot x.name x.guid) =
        Command.destroySnapshot ∘ Snapshot.name := rfl
    rw [this, ← List.map_map]
    exact cleanSnapshots_nodup.map fun _ _ => Command.destroySnapshot.inj
  · refine List.Nodup.map (fun r r' hr => ?_) (List.nodup_dedup _)
    obtain ⟨hn, hk⟩ := Command.inheritProperty.inj hr
    exact Prod.ext hn hk
  · rintro c hc c' hc' rfl
    obtain ⟨x, -, rfl⟩ := List.mem_map.mp hc
    obtain ⟨r, -, hr⟩ := List.mem_map.mp hc'
    cases hr

theorem afterProofs_remainder (h : Unblocked s d options safety) (hlisted : Listed s) :
    Remainder s (scopeProofs s d) (afterProofs s d options safety retirement) where
  rank _ := afterProofs_rank
  nodup := afterProofs_nodup
  destroyed n g ha := by
    rcases mem_afterProofs.mp ha with ⟨x, hx, ha⟩ | ⟨_, _, _, ha⟩ <;> cases ha
    rw [← cleanProofs_eq h.datasets]
    exact cleanSnapshots_free hx
  inherited n k ha := by
    rcases mem_afterProofs.mp ha with ⟨_, _, ha⟩ | ⟨_, _, hkey, ha⟩ <;> cases ha
    obtain ⟨hstored, -, hkept, -⟩ := mem_inheritKeys_iff.mp hkey
    obtain ⟨hobject, hbookmark⟩ := storedOn_listed hlisted hstored
    refine ⟨hobject, hbookmark, hstored, fun g hg => hkept ?_⟩
    rcases mem_afterProofs.mp hg with ⟨x, hx, hg⟩ | ⟨_, _, _, hg⟩ <;> cases hg
    exact List.mem_map_of_mem hx

end Actions

/-! ## Forgotten targets -/

section Forget

variable {s : State} {d : Dataset} {targets : List TargetID} {lineage : ID} {refs : List Reference} {r : Reference}

theorem forgetReference_eq (s : State) (d : Dataset) (lineage : ID) (r : Reference) :
    forgetReference s d lineage r =
      (.inherit (.dataset d) r.property :: (cleanReference s ⟨fun _ => .ok (), fun _ _ => .ok ()⟩ d lineage r).1,
        (cleanReference s ⟨fun _ => .ok (), fun _ _ => .ok ()⟩ d lineage r).2) := by
  unfold forgetReference cleanReference
  cases r.sources s <;> rfl

theorem forgetReference_unblocked : (forgetReference s d lineage r).2 = [] ↔ ProofOk s (some lineage) r := by
  rw [forgetReference_eq, cleanReference_unblocked]
  simp

theorem forgetReference_actions (h : ProofOk s (some lineage) r) :
    (forgetReference s d lineage r).1 = .inherit (.dataset d) r.property :: proofActions s r := by
  rw [forgetReference_eq, cleanReference_actions h]

structure Forgettable (s : State) (d : Dataset) (targets : List TargetID) (lineage : ID) (refs : List Reference) :
    Prop where
  read : forgottenProofs s d targets = .ok (lineage, refs)
  proofs : ∀ r ∈ refs, ProofOk s (some lineage) r

theorem forgetProofs_unblocked :
    (forgetProofs s d targets).2 = [] ↔ ∃ lineage refs, Forgettable s d targets lineage refs := by
  unfold forgetProofs
  cases hread : forgottenProofs s d targets with
  | error e =>
    simp only [List.cons_ne_nil, false_iff]
    rintro ⟨lineage, refs, h⟩
    rw [h.read] at hread
    cases hread
  | ok x =>
    obtain ⟨lineage, refs⟩ := x
    simp only [List.flatMap_eq_nil_iff, forgetReference_unblocked]
    constructor
    · exact fun h => ⟨lineage, refs, hread, h⟩
    · rintro ⟨lineage', refs', h⟩
      obtain ⟨rfl, rfl⟩ := Prod.mk.inj (Except.ok.inj (hread.symm.trans h.read))
      exact h.proofs

namespace Forgettable

variable (h : Forgettable s d targets lineage refs)
include h

theorem actions : (forgetProofs s d targets).1 =
    refs.flatMap fun r => .inherit (.dataset d) r.property :: proofActions s r := by
  simp only [forgetProofs, h.read]
  exact List.flatMap_congr fun r hr => forgetReference_actions (h.proofs r hr)

theorem records : ∃ all, referenceRecords s d (some lineage) = .ok all ∧
    all.filter (fun r => targets.contains r.targetID) = refs := by
  have hread := h.read
  simp only [forgottenProofs, bind_eq_ok] at hread
  obtain ⟨l, -, hread⟩ := hread
  cases l with
  | none => cases hread
  | some l =>
    simp only [ok_iff] at hread
    obtain ⟨all, hall, heq⟩ := hread
    obtain ⟨rfl, rfl⟩ := Prod.mk.inj heq
    exact ⟨all, hall, rfl⟩

theorem properties_nodup : (refs.map Reference.property).Nodup := by
  obtain ⟨all, hall, rfl⟩ := h.records
  exact (List.Sublist.map _ List.filter_sublist).nodup (readRecords_nodup (readRecords_of_records hall)).1

theorem stored (hr : r ∈ refs) : storedOn s (.dataset d) r.property = true := by
  obtain ⟨all, hall, rfl⟩ := h.records
  obtain ⟨p, hp, hdecode⟩ := (mem_readRecords (readRecords_of_records hall)).1 r (List.mem_of_mem_filter hr)
  obtain ⟨hmem, hd, -, -⟩ := mem_recordRows.mp hp
  simp only [storedOn, Bool.or_eq_true, List.any_eq_true, Bool.and_eq_true, beq_iff_eq]
  exact .inl ⟨p, hmem, hd, (decodeReference_eq_some hdecode).1⟩

end Forgettable

variable [Digests]

def forgottenKeys (s : State) (d : Dataset) (targets : List TargetID) (refs : List Reference) : List Key :=
  refs.map Reference.property ++ (targetRows s d targets).map Property.name

theorem forgetActions_perm (h : Forgettable s d targets lineage refs) : (forgetActions s d targets).Perm
    (refs.flatMap (proofActions s) ++ (forgottenKeys s d targets refs).map (.inherit (.dataset d))) := by
  rw [forgetActions, h.actions, forgottenKeys, List.map_append, List.map_map, List.map_map, ← List.append_assoc]
  refine List.Perm.append_right _ ?_
  exact (List.map_append_flatMap_perm refs _ _).symm.trans List.perm_append_comm

theorem forgottenKeys_nodup (h : Forgettable s d targets lineage refs) (hone : OneValue s) :
    (forgottenKeys s d targets refs).Nodup := by
  refine List.nodup_append.mpr ⟨h.properties_nodup, ?_, ?_⟩
  · refine (List.nodup_map_iff_inj_on (List.Nodup.filter _ hone.of_map)).mpr fun p hp q hq hk => ?_
    obtain ⟨hp, hpd⟩ := List.mem_filter.mp hp
    obtain ⟨hq, hqd⟩ := List.mem_filter.mp hq
    simp only [Bool.and_eq_true, beq_iff_eq] at hpd hqd
    exact hone.eq hp hq (hpd.1.1.trans hqd.1.1.symm) hk
  · rintro k hk k' hk' rfl
    obtain ⟨r, -, rfl⟩ := List.mem_map.mp hk
    obtain ⟨p, hp, hpk⟩ := List.mem_map.mp hk'
    have hstate := (Bool.and_eq_true _ _ ▸ (List.mem_filter.mp hp).2).2
    simp [hpk, isStateOf, Reference.property] at hstate

theorem forgottenKeys_stored (h : Forgettable s d targets lineage refs) {k : Key}
    (hk : k ∈ forgottenKeys s d targets refs) : storedOn s (.dataset d) k = true := by
  rcases List.mem_append.mp hk with hk | hk
  · obtain ⟨r, hr, rfl⟩ := List.mem_map.mp hk
    exact h.stored hr
  · obtain ⟨p, hp, rfl⟩ := List.mem_map.mp hk
    obtain ⟨hmem, hrow⟩ := List.mem_filter.mp hp
    simp only [Bool.and_eq_true, beq_iff_eq] at hrow
    simp only [storedOn, Bool.or_eq_true, List.any_eq_true, Bool.and_eq_true, beq_iff_eq]
    exact .inl ⟨p, hmem, hrow.1.1, rfl⟩

theorem forgottenKeys_remainder (h : Forgettable s d targets lineage refs) (hlisted : Listed s) :
    Remainder s refs ((forgottenKeys s d targets refs).map (.inherit (.dataset d))) where
  rank a ha := by
    obtain ⟨k, -, rfl⟩ := List.mem_map.mp ha
    exact (inherit_rank _ k).le
  nodup := by
    rw [List.map_map]
    exact (forgottenKeys_nodup h hlisted.oneValue).map fun _ _ hk => (Command.inheritProperty.inj hk).2
  destroyed n g ha := by
    obtain ⟨k, -, ha⟩ := List.mem_map.mp ha
    cases ha
  inherited n k ha := by
    obtain ⟨k, hk, ha⟩ := List.mem_map.mp ha
    cases ha
    have hstored := forgottenKeys_stored h hk
    obtain ⟨hobject, hbookmark⟩ := storedOn_listed hlisted hstored
    refine ⟨hobject, hbookmark, hstored, fun g hg => ?_⟩
    obtain ⟨k', -, hk'⟩ := List.mem_map.mp hg
    cases hk'

end Forget

end Boomerangz.Lifecycle
