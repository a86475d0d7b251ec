import Boomerangz.Lifecycle.Alike

/-! # Retrying an operation on references

After any of its commands but the last, planning an operation again gives exactly the commands that remain.
-/

namespace Boomerangz.Lifecycle

open Check Lists Zfs

/-! ## The operations -/

inductive ReferenceOp where
  | protectSet (stream : Dataset) (snapshots : List Name) (target : String)
  | checkpointSet (r : Reference) (verified : List (Name × Nat))
  | releaseCompletedHold (r : Reference)
  | releaseReference (r : Reference)
deriving DecidableEq, Repr

def ReferenceOp.plan (pool : State) (installation : ID) (root : Dataset) : ReferenceOp → Except Error (List Command)
  | protectSet stream snapshots target => (protectPlan pool installation root stream snapshots target).map Prod.snd
  | checkpointSet r verified => checkpointPlan pool installation root r verified
  | releaseCompletedHold r => completedPlan pool installation root r
  | releaseReference r => releasePlan pool installation root r

def ReferenceOp.run (pool : State) (installation : ID) (root : Dataset) (op : ReferenceOp) : Except Error State := do
  let commands ← op.plan pool installation root
  runAll pool commands

/-! ## One command of an operation -/

section Step

variable {s t : State} {installation lineage : ID} {root : Dataset} {r : Reference} {c : Command} {cs : List Command}
  {d : Dataset}

theorem sourceOn_elsewhere (hrun : c.run s = .ok t) (hd : d ≠ c.base) :
    r.sourceOn t d = r.sourceOn s d := by
  simp only [Reference.sourceOn, run_elsewhere (n := r.snapshotOn d) hrun hd, run_elsewhere (n := r.bookmarkOn d) hrun hd]

theorem Standing.run (h : Standing s installation root r lineage) (hc : isProtecting c = true) (hrun : c.run s = .ok t)
    (hread : ∃ x, r.sourceOn t c.base = .ok x) : Standing t installation root r lineage := by
  refine h.alike (alike_of_protecting hc hrun) (recordRows_of_protecting root hc hrun) ?_
  intro d hd
  by_cases hbase : d = c.base
  · exact hbase ▸ hread
  · rw [sourceOn_elsewhere hrun hbase]
    exact h.readable d hd

theorem releases_elsewhere (hrun : c.run s = .ok t) (hd : d ≠ c.base) :
    r.releases t d = r.releases s d := by
  simp only [Reference.releases, run_elsewhere (n := r.snapshotOn d) hrun hd,
    hasObject_elsewhere (n := r.bookmarkOn d) hrun hd]

theorem completes_elsewhere (hrun : c.run s = .ok t) (hd : d ≠ c.base) :
    r.completes t d = r.completes s d := by
  simp only [Reference.completes, run_elsewhere (n := r.snapshotOn d) hrun hd]

theorem checkpoints_elsewhere (hrun : c.run s = .ok t) (hd : d ≠ c.base) :
    r.checkpoints t d = r.checkpoints s d := by
  simp only [Reference.checkpoints, run_elsewhere (n := r.snapshotOn d) hrun hd,
    hasObject_elsewhere (n := r.bookmarkOn d) hrun hd]

theorem releases_cons (h : r.releases s d = c :: cs) (hrun : c.run s = .ok t)
    (hproven : s.held (r.snapshotOn d) r.hold = true → s.hasObject (r.snapshotOn d) = true) :
    c.base = d ∧ (isProtecting c = true ∧ c.removes = true) ∧ r.releases t d = cs ∧ ∃ x, r.sourceOn t d = .ok x := by
  unfold Reference.releases at h
  cases hmark : s.hasObject (r.bookmarkOn d) with
  | true =>
    simp only [hmark, if_true, List.cons_append, List.nil_append, List.cons.injEq] at h
    obtain ⟨rfl, rfl⟩ := h
    obtain ⟨-, rfl⟩ := State.destroyBookmark_eq_ok.mp hrun
    have hgone : (s.erase (.bookmark d r.mark)).hasObject (r.bookmarkOn d) = false := hasObject_erase _ _
    have hheld : (s.erase (.bookmark d r.mark)).held (r.snapshotOn d) r.hold = s.held (r.snapshotOn d) r.hold :=
      held_erase_ne (by simp [Reference.snapshotOn])
    have hsnap : (s.erase (.bookmark d r.mark)).hasObject (r.snapshotOn d) = s.hasObject (r.snapshotOn d) :=
      hasObject_erase_ne (by simp [Reference.snapshotOn])
    refine ⟨rfl, ⟨rfl, rfl⟩, by simp [Reference.releases, hgone, hheld], Reference.readable_iff.mpr ⟨?_, ?_⟩⟩
    · intro o b _ hb
      simp [State.hasObject_of_object hb] at hgone
    · rw [hheld, hsnap]
      exact fun hh => .inl (hproven hh)
  | false =>
    simp only [hmark, Bool.false_eq_true, if_false, List.nil_append] at h
    split at h
    · obtain ⟨rfl, rfl⟩ := List.cons.inj h
      obtain ⟨-, rfl⟩ := State.release_eq_ok.mp hrun
      have hgone : ({ s with holds := s.holds.filter (· != (r.snapshotOn d, r.hold)) } : State).held
          (r.snapshotOn d) r.hold = false := by simp [State.held]
      refine ⟨rfl, ⟨rfl, rfl⟩, ?_, Reference.readable_iff.mpr ⟨?_, by simp [hgone]⟩⟩
      · have hmark' : ({ s with holds := s.holds.filter (· != (r.snapshotOn d, r.hold)) } : State).hasObject
            (r.bookmarkOn d) = false := hmark
        simp [Reference.releases, hgone, hmark']
      · intro o b _ hb
        have hb' : s.object (r.bookmarkOn d) = some b := hb
        simp [State.hasObject_of_object hb'] at hmark
    · cases h

theorem completes_cons (h : r.completes s d = c :: cs) (hrun : c.run s = .ok t)
    (hread : ∃ x, r.sourceOn s d = .ok x) (hmark : s.hasObject (r.bookmarkOn d) = true) :
    c = .release r.hold (r.snapshotOn d) ∧ r.completes t d = cs ∧ ∃ x, r.sourceOn t d = .ok x := by
  unfold Reference.completes at h
  split at h
  · obtain ⟨rfl, rfl⟩ := List.cons.inj h
    obtain ⟨-, rfl⟩ := State.release_eq_ok.mp hrun
    refine ⟨rfl, by simp [Reference.completes, State.held], Reference.readable_iff.mpr ⟨?_, fun _ => .inr hmark⟩⟩
    exact (Reference.readable_iff.mp hread).1
  · cases h

theorem object_insert {o : Object} {n : Name} (hnew : s.hasObject o.name = false) (hn : n ≠ o.name) :
    (s.insert o hnew).object n = s.object n := by
  simp [State.object, State.insert, List.find?_append, hn.symm]

theorem object_insert_self {o : Object} (hnew : s.hasObject o.name = false) :
    (s.insert o hnew).object o.name = some o :=
  State.object_eq_some.mpr ⟨by simp [State.insert], rfl⟩

theorem checkpoints_cons (h : r.checkpoints s d = c :: cs) (hrun : c.run s = .ok t) :
    c = .bookmark (r.snapshotOn d) r.mark ∧ r.checkpoints t d = cs ∧ r.sourceOn t d = r.sourceOn s d := by
  unfold Reference.checkpoints at h
  split at h
  · rename_i hthere
    simp only [Bool.and_eq_true, Bool.not_eq_true'] at hthere
    obtain ⟨hheld, hmark⟩ := hthere
    obtain ⟨rfl, rfl⟩ := List.cons.inj h
    obtain ⟨o, b, ho, hb, hguid, -, hnew, rfl⟩ := State.bookmark_eq_ok hrun
    have hname : b.name = r.bookmarkOn d := hb
    have hmark' : (s.insert b hnew).object (r.bookmarkOn d) = some b := by rw [← hname, object_insert_self]
    have hsnap : (s.insert b hnew).object (r.snapshotOn d) = some o := by
      rw [object_insert hnew (by simp [hb, Reference.snapshotOn]), ho]
    have hnone : s.object (r.bookmarkOn d) = none := by
      rw [← Option.not_isSome_iff_eq_none, State.object_isSome_iff, hmark]
      simp
    refine ⟨rfl, ?_, ?_⟩
    · simp [Reference.checkpoints, State.hasObject_of_object hmark']
    · simp only [Reference.sourceOn, hmark', hsnap, ho, hnone, hguid, hheld, if_true]
  · cases h

theorem proven_after (hc : isProtecting c = true ∧ c.removes = true) (hrun : c.run s = .ok t)
    (h : ∀ d ∈ r.reach s root, s.held (r.snapshotOn d) r.hold = true → r.Proven s lineage d) :
    ∀ d ∈ r.reach t root, t.held (r.snapshotOn d) r.hold = true → r.Proven t lineage d := by
  have halike := alike_of_protecting hc.1 hrun
  rw [halike.reach]
  intro d hd hheld
  refine halike.proven.mpr (h d hd ?_)
  by_contra hno
  rw [(run_removes hc.2 hrun).1.held (by simpa using hno)] at hheld
  cases hheld

theorem releasePlan_peel (h : releasePlan s installation root r = .ok (c :: cs)) (hrun : c.run s = .ok t)
    (hcs : cs ≠ []) : releasePlan t installation root r = .ok cs := by
  obtain ⟨lineage, hstands, hproven, heq⟩ := releasePlan_eq_ok.mp h
  have hthere : ∀ d ∈ r.reach s root, s.held (r.snapshotOn d) r.hold = true → s.hasObject (r.snapshotOn d) = true := by
    intro d hd hheld
    obtain ⟨o, ho, -⟩ := hproven d hd hheld
    exact State.hasObject_of_object ho
  cases hf : (r.reach s root).flatMap (r.releases s) with
  | nil =>
    rw [hf, List.nil_append, List.cons.injEq] at heq
    exact absurd heq.2.symm hcs
  | cons c' cs' =>
    rw [hf, List.cons_append, List.cons.injEq] at heq
    obtain ⟨rfl, rfl⟩ := heq
    obtain ⟨pre, a, post, rest, hreach, -, ha, -⟩ := flatMap_eq_cons hf
    have hmem : a ∈ r.reach s root := by simp [hreach]
    obtain ⟨hbase, hc, -, hread⟩ := releases_cons ha hrun (hthere a hmem)
    refine releasePlan_eq_ok.mpr ⟨lineage, hstands.run hc.1 hrun (hbase ▸ hread), proven_after hc hrun hproven, ?_⟩
    rw [(alike_of_protecting hc.1 hrun).reach]
    congr 1
    refine flatMap_peel r.candidates_nodup hf ?_
    intro b hb rest hrest
    obtain ⟨hbase, -, hafter, -⟩ := releases_cons hrest hrun (hthere b hb)
    exact ⟨hafter, fun d _ hd => releases_elsewhere hrun (by rwa [hbase])⟩

theorem completedPlan_peel (h : completedPlan s installation root r = .ok (c :: cs)) (hrun : c.run s = .ok t) :
    completedPlan t installation root r = .ok cs := by
  obtain ⟨lineage, hstands, hproven, hmarked, hf⟩ := completedPlan_eq_ok.mp h
  have hcons : ∀ d ∈ r.reach s root, ∀ rest, r.completes s d = c :: rest →
      c = .release r.hold (r.snapshotOn d) ∧ r.completes t d = rest ∧ ∃ x, r.sourceOn t d = .ok x := by
    intro d hd rest hrest
    refine completes_cons hrest hrun (hstands.readable d hd) (hmarked d hd ?_)
    by_contra hno
    simp [Reference.completes, hno] at hrest
  obtain ⟨pre, a, post, rest, hreach, -, ha, -⟩ := flatMap_eq_cons hf
  obtain ⟨rfl, -, hread⟩ := hcons a (by simp [hreach]) rest ha
  have halike := alike_of_protecting rfl hrun
  refine completedPlan_eq_ok.mpr ⟨lineage, hstands.run rfl hrun hread, proven_after ⟨rfl, rfl⟩ hrun hproven, ?_, ?_⟩
  · rw [halike.reach]
    intro d hd hheld
    have hheld' : s.held (r.snapshotOn d) r.hold = true := by
      by_contra hno
      rw [(run_removes rfl hrun).1.held (by simpa using hno)] at hheld
      cases hheld
    exact run_spares (f := .mark d r.mark) hrun rfl (hmarked d hd hheld')
  · rw [halike.reach]
    refine flatMap_peel r.candidates_nodup hf ?_
    intro b hb rest hrest
    obtain ⟨hc, hafter, -⟩ := hcons b hb rest hrest
    refine ⟨hafter, fun d _ hd => completes_elsewhere hrun ?_⟩
    rwa [hc]

theorem checkpointPlan_peel {verified : List (Name × Nat)}
    (h : checkpointPlan s installation root r verified = .ok (c :: cs)) (hrun : c.run s = .ok t) :
    checkpointPlan t installation root r verified = .ok cs := by
  obtain ⟨lineage, hstands, hcheck, hf⟩ := checkpointPlan_eq_ok.mp h
  obtain ⟨pre, a, post, rest, hreach, -, ha, -⟩ := flatMap_eq_cons hf
  have hmem : a ∈ r.reach s root := by simp [hreach]
  obtain ⟨rfl, -, hsource⟩ := checkpoints_cons ha hrun
  have halike := alike_of_protecting rfl hrun
  have hsources : (r.reach t root).flatMap (r.source t) = (r.reach s root).flatMap (r.source s) := by
    rw [halike.reach]
    refine List.flatMap_congr fun d _ => ?_
    by_cases hd : d = a
    · rw [hd, Reference.source, hsource, Reference.source]
    · rw [Reference.source, sourceOn_elsewhere hrun hd, Reference.source]
  refine checkpointPlan_eq_ok.mpr ⟨lineage, hstands.run rfl hrun ?_, ?_, ?_⟩
  · obtain ⟨x, hx⟩ := hstands.readable a hmem
    exact ⟨x, hsource.trans hx⟩
  · rw [hsources]
    refine ⟨hcheck.stream, hcheck.known, hcheck.guids, ?_⟩
    intro x hx hno
    rw [halike.proven]
    refine hcheck.fresh x hx ?_
    by_contra hmark
    have hstill : t.hasObject (r.bookmarkOn x.dataset) = true :=
      run_spares (f := .mark x.dataset r.mark) hrun rfl (Bool.of_not_eq_false hmark)
    rw [hno] at hstill
    cases hstill
  · rw [halike.reach]
    refine flatMap_peel r.candidates_nodup hf ?_
    intro b hb rest hrest
    obtain ⟨hc, hafter, -⟩ := checkpoints_cons hrest hrun
    refine ⟨hafter, fun d _ hd => checkpoints_elsewhere hrun ?_⟩
    rwa [hc]

end Step

/-! ## Protecting again -/

section Protect

variable {s t : State} {installation lineage : ID} {root stream : Dataset} {snapshots : List Name} {target : String}
  {instant : Metadata} {r : Reference} {c : Command} {cs : List Command}

theorem Protectable.alike (h : Protectable s installation root stream snapshots target lineage instant)
    (ha : Alike t s) : Protectable t installation root stream snapshots target lineage instant := by
  refine ⟨h.valid, h.canonical, h.validStream, h.inRoot, ?_, ?_, ?_, h.distinct, h.inStream, ?_, ?_, h.own⟩
  · rw [ha.hasObject rfl, h.hasRoot]
  · rw [ha.proofDatasets, (ha.restrict _).resumeTokens, h.ready]
  · rw [ha.rootAuthority, h.authority]
  · intro n hn
    rw [ha.hasObject rfl]
    exact h.onDataset n hn
  · intro n hn
    obtain ⟨o, ho, htype, hm⟩ := h.owned n hn
    obtain ⟨d, c, hname⟩ := o.type_snapshot_iff.mp htype
    have hn' : n.isBookmark = false := by
      rw [← (State.object_eq_some.mp ho).2, hname]
      rfl
    exact ⟨o, by rw [ha.object hn', ho], htype, by rw [ha.owns htype, hm]⟩

theorem Protectable.decode (h : Protectable s installation root stream snapshots target lineage instant) :
    decodeReference ⟨.dataset root, (protectReference stream snapshots target instant).property,
      .reference (encodeReference (protectReference stream snapshots target instant) root), .sourceLocal⟩ root
        (some lineage) = some (protectReference stream snapshots target instant) := by
  obtain ⟨n, hn, -⟩ := h.own
  obtain ⟨o, -, -, hm⟩ := h.owned n hn
  obtain ⟨-, hlineage, hpos, hend⟩ := owns_eq_ok hm
  have hstream : root ++ stream.drop root.length = stream := by
    obtain ⟨rest, rfl⟩ := (inside_iff (ne_nil_of_validDataset h.valid)).mp h.inRoot
    rw [List.drop_left]
  simp [decodeReference, protectReference, Reference.property, encodeReference, hstream, h.validStream, hpos, hend,
    ← hlineage]

theorem holds_peel {tag : Tag} (h : (snapshots.filter (!s.held · tag)).map (.hold tag) = c :: cs)
    (hdistinct : snapshots.Nodup) (hrun : c.run s = .ok t) :
    isProtecting c = true ∧ (snapshots.filter (!t.held · tag)).map (.hold tag) = cs := by
  rw [map_filter_eq_flatMap] at h
  have hcons : ∀ n rest, (if !s.held n tag then [Command.hold tag n] else []) = c :: rest → c = .hold tag n ∧ rest = [] := by
    intro n rest hn
    split at hn
    · obtain ⟨rfl, rfl⟩ := List.cons.inj hn
      exact ⟨rfl, rfl⟩
    · cases hn
  obtain ⟨pre, a, post, rest, -, -, ha, -⟩ := flatMap_eq_cons h
  obtain ⟨rfl, -⟩ := hcons a rest ha
  refine ⟨rfl, ?_⟩
  rw [map_filter_eq_flatMap]
  refine flatMap_peel hdistinct h ?_
  intro n _ rest hn
  obtain ⟨hc, rfl⟩ := hcons n rest hn
  obtain ⟨-, rfl⟩ := Command.hold.inj hc
  obtain ⟨-, -, rfl⟩ := State.hold_eq_ok.mp hrun
  refine ⟨by simp [State.held], fun b _ hb => ?_⟩
  simp [State.held, hb]

theorem protectPlan_peel (h : protectPlan s installation root stream snapshots target = .ok (r, c :: cs))
    (hrun : c.run s = .ok t) : protectPlan t installation root stream snapshots target = .ok (r, cs) := by
  obtain ⟨lineage, instant, hable, refs, hrefs, hplan⟩ := protectPlan_eq_ok.mp h
  refine protectPlan_eq_ok.mpr ⟨lineage, instant, ?_⟩
  rw [referenceRecords_of_authority hable.authority] at hrefs
  split at hplan
  · rename_i prior hfind
    obtain ⟨hserves, rfl, hcommands⟩ := hplan
    obtain ⟨hc, hrest⟩ := holds_peel hcommands.symm hable.distinct hrun
    have hable' := hable.alike (alike_of_protecting hc hrun)
    refine ⟨hable', refs, ?_, ?_⟩
    · rw [referenceRecords_of_authority hable'.authority, recordRows_of_protecting root hc hrun, hrefs]
    · rw [hfind]
      exact ⟨hserves, rfl, hrest.symm⟩
  · rename_i hfind
    obtain ⟨hfree, rfl, hcommands⟩ := hplan
    obtain ⟨rfl, rfl⟩ := List.cons.inj hcommands
    have hable' := hable.alike (run_alike rfl hrun)
    have hfresh : ∀ x ∈ refs, x.property ≠ (protectReference stream snapshots target instant).property := by
      simpa using List.find?_eq_none.mp hfind
    have hrefs' := readRecords_store hrefs hable.decode hfresh hrun
    refine ⟨hable', _, by rw [referenceRecords_of_authority hable'.authority, hrefs'], ?_⟩
    obtain ⟨-, rfl⟩ := State.setProperty_eq_ok.mp hrun
    have hfind' : (refs ++ [protectReference stream snapshots target instant]).find?
        (·.property == (protectReference stream snapshots target instant).property) =
          some (protectReference stream snapshots target instant) := by
      rw [List.find?_append, hfind]
      simp
    rw [hfind']
    refine ⟨by simp [Reference.serves], rfl, congrArg _ (List.filter_eq_self.mpr fun n hn => ?_).symm⟩
    exact congrArg (!·) (hfree n hn)

theorem protected_of_nil {n : Name} (h : protectPlan s installation root stream snapshots target = .ok (r, []))
    (hn : n ∈ snapshots) : ∃ lineage refs, Protectable s installation root stream snapshots target lineage r.metadata ∧
      referenceRecords s root (some lineage) = .ok refs ∧ r ∈ refs ∧ r.dataset = stream ∧ n = r.snapshotOn n.base ∧
      s.held n r.hold = true := by
  obtain ⟨lineage, instant, hable, refs, hrefs, hchoice⟩ := protectPlan_eq_ok.mp h
  split at hchoice
  · rename_i prior hfind
    obtain ⟨hserves, rfl, hcommands⟩ := hchoice
    obtain ⟨hsame, hdataset, -⟩ := Reference.serves_iff hserves
    obtain rfl : r.metadata = instant := hsame
    refine ⟨lineage, refs, hable, hrefs, List.mem_of_find?_eq_some hfind, hdataset, (hable.named hserves hn).1, ?_⟩
    simpa using List.filter_eq_nil_iff.mp (List.map_eq_nil_iff.mp hcommands.symm) n hn
  · obtain ⟨-, -, hcommands⟩ := hchoice
    cases hcommands

end Protect

/-! ## Retrying -/

section Retry

variable {s t : State} {installation : ID} {root : Dataset} {op : ReferenceOp} {c : Command} {cs : List Command}

theorem ReferenceOp.plan_peel (h : op.plan s installation root = .ok (c :: cs)) (hrun : c.run s = .ok t)
    (hcs : cs ≠ []) : op.plan t installation root = .ok cs := by
  cases op with
  | protectSet stream snapshots target =>
    obtain ⟨⟨r, commands⟩, hplan, rfl⟩ := map_eq_ok.mp h
    exact map_eq_ok.mpr ⟨(r, cs), protectPlan_peel hplan hrun, rfl⟩
  | checkpointSet r verified => exact checkpointPlan_peel h hrun
  | releaseCompletedHold r => exact completedPlan_peel h hrun
  | releaseReference r => exact releasePlan_peel h hrun hcs

theorem ReferenceOp.run_again {k : Nat} {s' : State} (h : op.plan s installation root = .ok cs)
    (hrun : runAll s cs = .ok s') (hk : k < cs.length) :
    op.run (runUntil s cs (some k)).1 installation root = .ok s' := by
  induction k generalizing s cs with
  | zero =>
    cases cs with
    | nil => simp at hk
    | cons c cs => exact bind_eq_ok.mpr ⟨_, h, hrun⟩
  | succ k ih =>
    cases cs with
    | nil => simp at hk
    | cons c cs =>
      obtain ⟨t, hc, hrest⟩ := runAll_cons.mp hrun
      have hlen : k < cs.length := by simpa using hk
      have hcut : runUntil s (c :: cs) (some (k + 1)) = runUntil t cs (some k) := by simp [runUntil, hc]
      rw [hcut]
      exact ih (h := op.plan_peel h hc (List.ne_nil_of_length_pos (by omega))) hrest hlen

theorem released {s' : State} {r : Reference} (hreal : Real s) (h : releasePlan s installation root r = .ok cs)
    (hrun : runAll s cs = .ok s') :
    (∀ d, r.covers d = true →
      s'.held (r.snapshotOn d) r.hold = false ∧ s'.hasObject (r.bookmarkOn d) = false) ∧
      ∀ p ∈ s'.properties, ¬ (p.dataset = .dataset root ∧ p.name = r.property) := by
  obtain ⟨lineage, hstands, -, rfl⟩ := releasePlan_eq_ok.mp h
  have hremoves : ∀ c ∈ (r.reach s root).flatMap (r.releases s) ++ [.inheritProperty (.dataset root) r.property],
      c.removes = true := by
    intro c hc
    simp only [List.mem_append, List.mem_flatMap, List.mem_singleton, Reference.releases] at hc
    rcases hc with ⟨d, -, hc | hc⟩ | rfl
    · split at hc
      · rw [List.mem_singleton.mp hc]; rfl
      · simp at hc
    · split at hc
      · rw [List.mem_singleton.mp hc]; rfl
      · simp at hc
    · rfl
  have hwithin := runAll_within hrun hremoves
  have hdone := fun {c} hc => runAll_done hrun hremoves (c := c) hc
  refine ⟨fun d hd => ⟨?_, ?_⟩, hdone (c := .inheritProperty (.dataset root) r.property) (by simp)⟩
  · cases hheld : s.held (r.snapshotOn d) r.hold with
    | false => exact hwithin.held hheld
    | true =>
      obtain ⟨o, ho, hname⟩ := State.hasObject_iff.mp (hreal.held _ (State.held_iff.mp hheld))
      have hreach := hstands.mem_reach hreal (by simpa [hname] using hreal.dataset o ho) hd
      exact hdone (c := .release r.hold (r.snapshotOn d)) (List.mem_append_left _
        (List.mem_flatMap.mpr ⟨d, hreach, by simp [Reference.releases, hheld]⟩))
  · cases hmark : s.hasObject (r.bookmarkOn d) with
    | false => exact hwithin.hasObject hmark
    | true =>
      obtain ⟨o, ho, hname⟩ := State.hasObject_iff.mp hmark
      have hreach := hstands.mem_reach hreal (by simpa [hname] using hreal.dataset o ho) hd
      exact hdone (c := .destroyBookmark d r.mark) (List.mem_append_left _
        (List.mem_flatMap.mpr ⟨d, hreach, by simp [Reference.releases, hmark]⟩))

end Retry

/-- An operation on references that stops before any of its commands ends, when it runs again, exactly
as it would have ended; and a release leaves neither hold nor bookmark nor proof. -/
theorem reference_operation_retries (pool pool' : State) (installation : ID) (root : Dataset) (op : ReferenceOp)
    (h : op.run pool installation root = .ok pool') :
    (∀ commands cut, op.plan pool installation root = .ok commands → cut < commands.length →
      op.run (runUntil pool commands (some cut)).1 installation root = .ok pool') ∧
    ∀ r, op = .releaseReference r → Real pool →
      (∀ d, r.covers d = true →
        pool'.held (r.snapshotOn d) r.hold = false ∧ pool'.hasObject (r.bookmarkOn d) = false) ∧
      ∀ p ∈ pool'.properties, ¬ (p.dataset = .dataset root ∧ p.name = r.property) := by
  obtain ⟨commands, hplan, hrun⟩ := bind_eq_ok.mp h
  constructor
  · intro commands' cut hplan' hcut
    obtain rfl := Except.ok.inj (hplan.symm.trans hplan')
    exact op.run_again hplan hrun hcut
  · rintro r rfl hreal
    exact released hreal hplan hrun

/-- Releasing a recursive proof, stopped after the first of its two holds. -/
theorem protectedSubtree_release_retries : ∃ pool' commands,
    (ReferenceOp.releaseReference sampleProof).run protectedSubtree ⟨9, 9⟩ ["tank"] = .ok pool' ∧
    (ReferenceOp.releaseReference sampleProof).plan protectedSubtree ⟨9, 9⟩ ["tank"] = .ok commands ∧
    (runUntil protectedSubtree commands (some 1)).1.holds.length = 1 ∧
    (ReferenceOp.releaseReference sampleProof).run (runUntil protectedSubtree commands (some 1)).1 ⟨9, 9⟩ ["tank"] =
      .ok pool' := by
  obtain ⟨commands, hplan⟩ : ∃ commands,
      (ReferenceOp.releaseReference sampleProof).plan protectedSubtree ⟨9, 9⟩ ["tank"] = .ok commands := ⟨_, rfl⟩
  obtain ⟨pool', hrun⟩ : ∃ pool',
      (ReferenceOp.releaseReference sampleProof).run protectedSubtree ⟨9, 9⟩ ["tank"] = .ok pool' := ⟨_, rfl⟩
  exact ⟨pool', commands, hrun, hplan, by cases hplan; decide,
    (reference_operation_retries protectedSubtree pool' ⟨9, 9⟩ ["tank"] _ hrun).1 commands 1 hplan
      (by cases hplan; decide)⟩

end Boomerangz.Lifecycle
