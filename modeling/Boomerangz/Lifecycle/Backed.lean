import Boomerangz.Lib.Run
import Boomerangz.Lifecycle.Retry

/-! # A proof behind every protection

A proof is written before what it names and removed after. Cut short at any command, no hold and no bookmark is
without one, as long as proofs and owned snapshots with one UUID are of one instant.
-/

namespace Boomerangz.Lifecycle

open Check Lists Transition Zfs

/-! ## Instants -/

inductive Instant (s : State) (root : Dataset) (m : Metadata) : Prop
  | proof {refs : List Reference} {r : Reference} : storedProofs s root = .ok refs → r ∈ refs → r.metadata = m →
    Instant s root m
  | snapshot {lineage : ID} {o : Object} : storedLineage s root = .ok (some lineage) → o ∈ s.objects →
    inside o.name.base root = true → owns s o lineage = .ok m → Instant s root m

def OneInstant (s : State) (root : Dataset) : Prop :=
  ∀ m m', Instant s root m → Instant s root m' → m.snapshot = m'.snapshot → m.created = m'.created

/-! ## Authority -/

section Authority

variable {s s' : State} {installation lineage : ID} {root : Dataset}

theorem storedLineage_of_authority (h : rootAuthority s root installation = .ok lineage) :
    storedLineage s root = .ok (some lineage) := by
  simp only [rootAuthority, ok_iff, Bool.and_eq_true] at h
  obtain ⟨-, ⟨hlocal, hnodup⟩, h⟩ := h
  split at h
  · rename_i owner l howner hl
    simp only [ok_iff] at h
    obtain ⟨-, hhidden, -, -, rfl⟩ := h
    obtain ⟨p, hp, hvalue⟩ := Option.map_eq_some_iff.mp hl
    have hrows : s.properties.filter (fun r => r.dataset == .dataset root && r.name == .lineage) = [p] := by
      rw [← filter_of_find? (of_decide_eq_true hnodup) hp, List.filter_filter]
      refine List.filter_congr fun r _ => ?_
      cases r.dataset == .dataset root <;> cases r.name == .lineage <;> simp
    obtain ⟨n, k, v, source⟩ := p
    obtain rfl : v = .id l := hvalue
    simp only [storedLineage, hrows, ok_iff]
    exact ⟨_, rfl, by simpa using hhidden, rfl⟩
  · simp at h

theorem Alike.storedLineage (h : Alike s' s) (root : Dataset) : storedLineage s' root = storedLineage s root := by
  have hrows : s'.properties.filter (fun r => r.dataset == .dataset root && r.name == .lineage) = _ :=
    filter_congr h.properties (by
      intro r hr
      simp only [Bool.and_eq_true, beq_iff_eq] at hr
      simp [isControl, hr.1, hr.2, Key.isReference, Name.isBookmark])
  simp only [Lifecycle.storedLineage, hrows, hiddenLineage_congr (h.received root)]

theorem storedProofs_of_authority (h : rootAuthority s root installation = .ok lineage) :
    storedProofs s root = readRecords root (some lineage) [] (recordRows s root) := by
  rw [storedProofs, storedLineage_of_authority h, ← referenceRecords_of_authority h]
  rfl

end Authority

/-! ## Proofs that can be read -/

section Books

variable {s t : State} {root d : Dataset} {refs : List Reference} {r r' : Reference}

structure Books (s : State) (root : Dataset) (refs : List Reference) : Prop where
  named : ∀ x : Protection, inside x.on root = true → x.present s = true →
    ∃ r ∈ refs, x.namedBy r = true ∧ r.covers x.on = true
  readable : ∀ r ∈ refs, ∀ d, r.covers d = true → ∃ x, r.sourceOn s d = .ok x

theorem sourceOn_congr (htarget : r.targetID = r'.targetID) (hmetadata : r.metadata = r'.metadata) :
    r.sourceOn s d = r'.sourceOn s d := by
  have hsnap : r.snapshotOn d = r'.snapshotOn d := by simp only [Reference.snapshotOn, hmetadata]
  have hmark : r.bookmarkOn d = r'.bookmarkOn d := by
    simp only [Reference.bookmarkOn, Reference.mark, htarget, hmetadata]
  have hhold : r.hold = r'.hold := by simp only [Reference.hold, htarget]
  simp only [Reference.sourceOn, hsnap, hmark, hhold]

theorem covers_inside (hr : root <+: r.dataset) (hroot : root ≠ []) (h : r.covers d = true) : inside d root = true := by
  have hin : inside r.dataset root = true := (inside_iff hroot).mpr hr
  simp only [Reference.covers, Bool.or_eq_true, beq_iff_eq, Bool.and_eq_true] at h
  rcases h with rfl | ⟨-, h⟩
  · exact hin
  · exact inside_trans h hin

theorem storedProofs_decode (h : storedProofs s root = .ok refs) (hr : r ∈ refs) :
    ∃ lineage p, storedLineage s root = .ok lineage ∧ decodeReference p root lineage = some r := by
  simp only [storedProofs, bind_eq_ok] at h
  obtain ⟨lineage, hlineage, hrefs⟩ := h
  obtain ⟨p, -, hp⟩ := (mem_readRecords (readRecords_of_records hrefs)).1 r hr
  exact ⟨lineage, p, hlineage, hp⟩

theorem metadata_eq (hone : OneInstant s root) (h : storedProofs s root = .ok refs) (hr : r ∈ refs)
    {m : Metadata} (hm : Instant s root m) (hlineage : storedLineage s root = .ok (some m.lineage))
    (hsnapshot : r.metadata.snapshot = m.snapshot) : r.metadata = m := by
  obtain ⟨lineage, p, hl, hp⟩ := storedProofs_decode h hr
  obtain rfl := Except.ok.inj (hl.symm.trans hlineage)
  have hlin : m.lineage = r.metadata.lineage := Option.some.inj (decodeReference_eq_some hp).2.2.1
  have hcreated := hone _ _ (.proof h hr rfl) hm hsnapshot
  cases hr : r.metadata
  cases m
  simp_all

theorem readable_real (hreal : Real s) : (∃ x, r.sourceOn s d = .ok x) ↔
    ∀ o b, s.object (r.snapshotOn d) = some o → s.object (r.bookmarkOn d) = some b → b.guid = o.guid := by
  refine Reference.readable_iff.trans (and_iff_left fun hheld => .inl ?_)
  exact hreal.held _ (State.held_iff.mp hheld)

theorem readable_of_accounted (hreal : Real s) (hone : OneInstant s root) (hacc : AllAccounted s root)
    (hm : Instant s root r.metadata) (hlineage : storedLineage s root = .ok (some r.metadata.lineage))
    (hin : inside d root = true) : ∃ x, r.sourceOn s d = .ok x := by
  cases hmark : s.hasObject (r.bookmarkOn d) with
  | false =>
    refine (readable_real hreal).mpr fun o b _ hb => ?_
    simp [State.hasObject_of_object hb] at hmark
  | true =>
    obtain ⟨refs, hrefs, r', hr', hnamed, sources, hsources, source, hsource, hon⟩ :=
      hacc (.bookmark d r.targetID r.metadata.snapshot) hin hmark
    simp only [Protection.namedBy, Bool.and_eq_true, beq_iff_eq] at hnamed
    have hon' : source.dataset = d := hon
    have hd : d ∈ r'.candidates s := hon' ▸ ((Reference.mem_sources hsources).mp hsource).1
    rw [sourceOn_congr hnamed.1.symm (metadata_eq hone hrefs hr' hm hlineage hnamed.2).symm]
    exact collect_total hsources hd

theorem books_of_accounted (hreal : Real s) (hone : OneInstant s root) (hroot : root ≠ [])
    (hrefs : storedProofs s root = .ok refs) (h : AllAccounted s root) : Books s root refs where
  named x hin hx := by
    obtain ⟨refs', hrefs', r, hr, hnamed, sources, hsources, source, hsource, hon⟩ := h x hin hx
    obtain rfl := Except.ok.inj (hrefs.symm.trans hrefs')
    have hd := (Reference.mem_candidates.mp ((Reference.mem_sources hsources).mp hsource).1).2
    exact ⟨r, hr, hnamed, hon ▸ hd⟩
  readable r hr d hd := by
    obtain ⟨lineage, p, hl, hp⟩ := storedProofs_decode hrefs hr
    obtain ⟨-, -, hlineage, -, hbelow⟩ := decodeReference_eq_some hp
    exact readable_of_accounted hreal hone h (.proof hrefs hr rfl) (hlineage ▸ hl) (covers_inside hbelow hroot hd)

theorem present_on (x : Protection) (hnamed : x.namedBy r = true) :
    x.present s = true → (s.hasObject (r.bookmarkOn x.on) || s.held (r.snapshotOn x.on) r.hold) = true := by
  intro hx
  cases x with
  | hold d c t =>
    simp only [Protection.namedBy, Bool.and_eq_true, beq_iff_eq] at hnamed
    obtain ⟨rfl, rfl⟩ := hnamed
    exact Bool.or_eq_true_iff.mpr (.inr hx)
  | bookmark d t u =>
    simp only [Protection.namedBy, Bool.and_eq_true, beq_iff_eq] at hnamed
    obtain ⟨rfl, rfl⟩ := hnamed
    exact Bool.or_eq_true_iff.mpr (.inl hx)

theorem present_dataset (hreal : Real s) {x : Protection} (hx : x.present s = true) :
    s.hasObject (.dataset x.on) = true := by
  have hbase : ∀ n : Name, s.hasObject n = true → s.hasObject (.dataset n.base) = true := by
    intro n hn
    obtain ⟨o, ho, rfl⟩ := State.hasObject_iff.mp hn
    exact hreal.dataset o ho
  cases x with
  | hold d c t => exact hbase _ (hreal.held _ (State.held_iff.mp hx))
  | bookmark d t u => exact hbase _ hx

theorem Books.accounted (h : Books s root refs) (hreal : Real s) (hrefs : storedProofs s root = .ok refs) :
    AllAccounted s root := by
  intro x hin hx
  obtain ⟨r, hr, hnamed, hcovers⟩ := h.named x hin hx
  obtain ⟨sources, hsources⟩ : ∃ sources, r.sources s = .ok sources :=
    collect_ok fun d hd => h.readable r hr d (Reference.mem_candidates.mp hd).2
  obtain ⟨o, ho, hname⟩ := State.hasObject_iff.mp (present_dataset hreal hx)
  have hcandidate : x.on ∈ r.candidates s :=
    Reference.mem_candidates.mpr ⟨⟨o, ho, o.isDataset_iff.mpr ⟨_, hname⟩, by rw [hname]; rfl⟩, hcovers⟩
  obtain ⟨guid, hsource, -⟩ := Reference.source_eq (h.readable r hr x.on hcovers)
  rw [if_pos (present_on x hnamed hx)] at hsource
  obtain ⟨y, hy⟩ := h.readable r hr x.on hcovers
  obtain rfl : y = some ⟨x.on, guid⟩ := by simpa [Reference.source, hy, Except.toOption] using hsource
  exact ⟨refs, hrefs, r, hr, hnamed, sources, hsources, ⟨x.on, guid⟩,
    (Reference.mem_sources hsources).mpr ⟨hcandidate, hy⟩, rfl⟩

end Books

/-! ## One command -/

namespace Books

variable {s t : State} {root d : Dataset} {refs : List Reference} {r : Reference}

theorem removes (h : Books s root refs) (hreal : Real t) (ha : Alike t s) (hw : Within t s) : Books t root refs where
  named x hin hx := by
    refine h.named x hin ?_
    by_contra hno
    have hgone : x.present t = false := by
      cases x with
      | hold d c t => exact hw.held (by simpa [Protection.present] using hno)
      | bookmark d t u => exact hw.hasObject (by simpa [Protection.present] using hno)
    simp [hgone] at hx
  readable r hr d hd := by
    refine (readable_real hreal).mpr fun o b ho hb => ?_
    obtain ⟨hmem, hname⟩ := State.object_eq_some.mp hb
    rw [ha.object rfl] at ho
    exact (Reference.readable_iff.mp (h.readable r hr d hd)).1 o b ho (State.object_eq_some.mpr ⟨hw.objects hmem, hname⟩)

theorem hold (h : Books s root refs) (hreal : Real t) (hr : r ∈ refs) (hd : r.covers d = true)
    (hrun : s.hold r.hold (r.snapshotOn d) = .ok t) : Books t root refs := by
  obtain ⟨-, -, rfl⟩ := State.hold_eq_ok.mp hrun
  refine ⟨fun x hin hx => ?_, fun r' hr' e he => ?_⟩
  · cases x with
    | bookmark e t u => exact h.named (.bookmark e t u) hin hx
    | hold e c t =>
      have hx' : (Name.snapshot e c, Tag.target t) ∈ s.holds ++ [(r.snapshotOn d, r.hold)] := State.held_iff.mp hx
      rcases List.mem_append.mp hx' with hold | hnew
      · exact h.named (.hold e c t) hin (State.held_iff.mpr hold)
      · simp only [List.mem_singleton, Prod.mk.injEq, Reference.snapshotOn, Name.snapshot.injEq, Reference.hold,
          Tag.target.injEq] at hnew
        obtain ⟨⟨rfl, rfl⟩, rfl⟩ := hnew
        exact ⟨r, hr, by simp [Protection.namedBy], hd⟩
  · exact (readable_real hreal).mpr (Reference.readable_iff.mp (h.readable r' hr' e he)).1

theorem bookmark (h : Books s root refs) (hreal : Real t) (hr : r ∈ refs) (hd : r.covers d = true)
    (hrun : s.bookmark (r.snapshotOn d) r.mark = .ok t)
    (hone : ∀ r' ∈ refs, r'.metadata.snapshot = r.metadata.snapshot → r'.metadata = r.metadata) :
    Books t root refs := by
  obtain ⟨o, b, ho, hb, hguid, -, hnew, rfl⟩ := State.bookmark_eq_ok hrun
  have hname : b.name = r.bookmarkOn d := hb
  refine ⟨fun x hin hx => ?_, fun r' hr' e he => ?_⟩
  · cases x with
    | hold e c t => exact h.named (.hold e c t) hin hx
    | bookmark e t u =>
      by_cases hx' : s.hasObject (.bookmark e (.target t u)) = true
      · exact h.named (.bookmark e t u) hin hx'
      · have : Name.bookmark e (.target t u) = r.bookmarkOn d := by
          by_contra hne
          refine hx' ?_
          rw [← hname] at hne
          rwa [← State.object_isSome_iff, ← object_insert hnew hne, State.object_isSome_iff]
        simp only [Reference.bookmarkOn, Reference.mark, Name.bookmark.injEq, Mark.target.injEq] at this
        obtain ⟨rfl, rfl, rfl⟩ := this
        exact ⟨r, hr, by simp [Protection.namedBy], hd⟩
  · refine (readable_real hreal).mpr fun o' b' ho' hb' => ?_
    rw [object_insert hnew (by simp [hname, Reference.snapshotOn, Reference.bookmarkOn])] at ho'
    by_cases hmark : r'.bookmarkOn e = b.name
    · rw [hmark, object_insert_self, Option.some.injEq] at hb'
      rw [hname] at hmark
      simp only [Reference.bookmarkOn, Reference.mark, Name.bookmark.injEq, Mark.target.injEq] at hmark
      obtain ⟨rfl, -, hsnapshot⟩ := hmark
      have hsnap : r'.snapshotOn e = r.snapshotOn e := by rw [Reference.snapshotOn, hone r' hr' hsnapshot]; rfl
      rw [hsnap, ho] at ho'
      rw [← hb', ← Option.some.inj ho', hguid]
    · rw [object_insert hnew hmark] at hb'
      exact (Reference.readable_iff.mp (h.readable r' hr' e he)).1 o' b' ho' hb'

theorem sourceOn_same (hobjects : t.objects = s.objects) (hholds : t.holds = s.holds) :
    r.sourceOn t d = r.sourceOn s d := by
  have hobject : ∀ n, t.object n = s.object n := fun n => by rw [State.object, hobjects, State.object]
  have hheld : ∀ n tag, t.held n tag = s.held n tag := fun n tag => by rw [State.held, hholds, State.held]
  simp only [Reference.sourceOn, hobject, hheld]

theorem present_same (hobjects : t.objects = s.objects) (hholds : t.holds = s.holds) (x : Protection) :
    x.present t = x.present s := by
  cases x <;> simp only [Protection.present, State.hasObject, State.held, hobjects, hholds]

theorem store (h : Books s root refs) (hobjects : t.objects = s.objects) (hholds : t.holds = s.holds)
    (hr : ∀ d, r.covers d = true → ∃ x, r.sourceOn s d = .ok x) : Books t root (refs ++ [r]) where
  named x hin hx := by
    rw [present_same hobjects hholds] at hx
    obtain ⟨r', hr', hnamed⟩ := h.named x hin hx
    exact ⟨r', List.mem_append_left _ hr', hnamed⟩
  readable r' hr' d hd := by
    rw [sourceOn_same hobjects hholds]
    rcases List.mem_append.mp hr' with hr' | hr'
    · exact h.readable r' hr' d hd
    · obtain rfl := List.mem_singleton.mp hr'
      exact hr d hd

theorem forget (h : Books s root refs) (hobjects : t.objects = s.objects) (hholds : t.holds = s.holds)
    (hr : r ∈ refs) (hdistinct : (refs.map Reference.property).Nodup)
    (hgone : ∀ d, r.covers d = true → s.hasObject (r.bookmarkOn d) = false ∧ s.held (r.snapshotOn d) r.hold = false) :
    Books t root (refs.filter (·.property != r.property)) where
  named x hin hx := by
    rw [present_same hobjects hholds] at hx
    obtain ⟨r', hr', hnamed, hcovers⟩ := h.named x hin hx
    refine ⟨r', List.mem_filter.mpr ⟨hr', ?_⟩, hnamed, hcovers⟩
    rw [bne_iff_ne]
    intro hkey
    obtain rfl := List.inj_on_of_nodup_map hdistinct hr' hr hkey
    have hon := present_on x hnamed hx
    rw [(hgone x.on hcovers).1, (hgone x.on hcovers).2] at hon
    cases hon
  readable r' hr' d hd := by
    rw [sourceOn_same hobjects hholds]
    exact h.readable r' (List.mem_filter.mp hr').1 d hd

end Books

/-! ## The operations -/

structure Backed (s : State) (root : Dataset) : Prop where
  real : Real s
  one : OneInstant s root
  accounted : AllAccounted s root

section Operations

variable {s t : State} {installation lineage : ID} {root : Dataset} {c : Command} {r : Reference}

theorem real_after (hreal : Real s) (hc : isReferenceCommand c = true) (hrun : c.run s = .ok t) : Real t := by
  refine hreal.run (fun d => ?_) hrun
  cases c <;> first | rfl | cases hc

theorem OneInstant.alike (h : OneInstant s root) (ha : Alike t s)
    (hproofs : ∀ refs, storedProofs t root = .ok refs → ∀ r ∈ refs, Instant s root r.metadata) : OneInstant t root := by
  have hback : ∀ m, Instant t root m → Instant s root m := by
    rintro m (⟨hrefs, hr, rfl⟩ | ⟨hl, ho, hin, hm⟩)
    · exact hproofs _ hrefs _ hr
    · rename_i lineage o
      have htype : o.type = .snapshot := o.type_snapshot_iff.mpr ⟨_, _, (owns_eq_ok hm).1⟩
      have hmem : o ∈ s.objects.filter (·.type != .bookmark) := by
        rw [← ha.objects]
        exact List.mem_filter.mpr ⟨ho, by simp [htype]⟩
      exact .snapshot (ha.storedLineage root ▸ hl) (List.mem_filter.mp hmem).1 hin (ha.owns htype lineage ▸ hm)
  exact fun m m' hm hm' => h m m' (hback m hm) (hback m' hm')

theorem Backed.protecting {refs : List Reference} (h : Backed s root) (hauth : rootAuthority s root installation = .ok lineage)
    (hrefs : storedProofs s root = .ok refs) (hc : isProtecting c = true) (hrun : c.run s = .ok t)
    (hbooks : Real t → Books t root refs) : Backed t root := by
  have ha := alike_of_protecting hc hrun
  have hauth' : rootAuthority t root installation = .ok lineage := by rw [ha.rootAuthority, hauth]
  have hrefs' : storedProofs t root = .ok refs := by
    rw [storedProofs_of_authority hauth', recordRows_of_protecting root hc hrun, ← storedProofs_of_authority hauth, hrefs]
  have hreal : Real t := by
    refine real_after h.real ?_ hrun
    cases c <;> first | rfl | cases hc
  refine ⟨hreal, h.one.alike ha ?_, (hbooks hreal).accounted hreal hrefs'⟩
  intro refs' hrefs'' r hr
  obtain rfl := Except.ok.inj (hrefs'.symm.trans hrefs'')
  exact .proof hrefs hr rfl

theorem Backed.standing (h : Backed s root) (hstands : Standing s installation root r lineage) :
    ∃ refs, storedProofs s root = .ok refs ∧ r ∈ refs ∧ Books s root refs := by
  obtain ⟨refs, hrefs, hr⟩ := hstands.stored
  rw [referenceRecords_of_authority hstands.authority, ← storedProofs_of_authority hstands.authority] at hrefs
  exact ⟨refs, hrefs, hr,
    books_of_accounted h.real h.one (ne_nil_of_validDataset hstands.valid) hrefs h.accounted⟩

theorem Backed.removal (h : Backed s root) (hstands : Standing s installation root r lineage)
    (hc : isProtecting c = true ∧ c.removes = true) (hrun : c.run s = .ok t) : Backed t root := by
  obtain ⟨refs, hrefs, -, hbooks⟩ := h.standing hstands
  exact h.protecting hstands.authority hrefs hc.1 hrun fun hreal =>
    hbooks.removes hreal (alike_of_protecting hc.1 hrun) (run_removes hc.2 hrun).1

theorem Backed.completed {cs : List Command} (h : Backed s root)
    (hplan : completedPlan s installation root r = .ok (c :: cs)) (hrun : c.run s = .ok t) : Backed t root := by
  obtain ⟨lineage, hstands, -, -, hf⟩ := completedPlan_eq_ok.mp hplan
  obtain ⟨pre, a, post, rest, -, -, ha, -⟩ := flatMap_eq_cons hf
  unfold Reference.completes at ha
  split at ha
  · obtain ⟨rfl, -⟩ := List.cons.inj ha
    exact h.removal hstands ⟨rfl, rfl⟩ hrun
  · cases ha

theorem Backed.checkpoint {verified : List (Name × Nat)} {cs : List Command} (h : Backed s root)
    (hplan : checkpointPlan s installation root r verified = .ok (c :: cs)) (hrun : c.run s = .ok t) : Backed t root := by
  obtain ⟨lineage, hstands, -, hf⟩ := checkpointPlan_eq_ok.mp hplan
  obtain ⟨refs, hrefs, hr, hbooks⟩ := h.standing hstands
  obtain ⟨pre, a, post, rest, hreach, -, ha, -⟩ := flatMap_eq_cons hf
  obtain ⟨rfl, -, -⟩ := checkpoints_cons ha hrun
  have hcovers : r.covers a = true := (Reference.mem_candidates.mp (by
    rw [← Reference.reach, hreach]
    simp)).2
  refine h.protecting hstands.authority hrefs rfl hrun fun hreal => hbooks.bookmark hreal hr hcovers hrun ?_
  intro r' hr' hsnapshot
  obtain ⟨l, p, hl, hp⟩ := storedProofs_decode hrefs hr
  exact metadata_eq h.one hrefs hr' (.proof hrefs hr rfl) ((decodeReference_eq_some hp).2.2.1 ▸ hl) hsnapshot

theorem Backed.release {cs : List Command} (h : Backed s root)
    (hplan : releasePlan s installation root r = .ok (c :: cs)) (hrun : c.run s = .ok t) : Backed t root := by
  obtain ⟨lineage, hstands, hproven, heq⟩ := releasePlan_eq_ok.mp hplan
  cases hf : (r.reach s root).flatMap (r.releases s) with
  | cons c' cs' =>
    rw [hf, List.cons_append, List.cons.injEq] at heq
    obtain ⟨rfl, -⟩ := heq
    obtain ⟨pre, a, post, rest, hreach, -, ha, -⟩ := flatMap_eq_cons hf
    refine h.removal hstands (releases_cons ha hrun fun hheld => ?_).2.1 hrun
    exact h.real.held _ (State.held_iff.mp hheld)
  | nil =>
    rw [hf, List.nil_append, List.cons.injEq] at heq
    obtain ⟨rfl, -⟩ := heq
    obtain ⟨refs, hrefs, hr, hbooks⟩ := h.standing hstands
    have hgone : ∀ d, r.covers d = true →
        s.hasObject (r.bookmarkOn d) = false ∧ s.held (r.snapshotOn d) r.hold = false := by
      intro d hd
      by_contra hthere
      have hdataset : s.hasObject (.dataset d) = true := by
        by_cases hmark : s.hasObject (r.bookmarkOn d) = true
        · exact present_dataset h.real (x := .bookmark d r.targetID r.metadata.snapshot) hmark
        · have hheld : s.held (r.snapshotOn d) r.hold = true := by simpa [hmark] using hthere
          exact present_dataset h.real (x := .hold d r.metadata.name r.targetID) hheld
      have hnone := List.flatMap_eq_nil_iff.mp hf d (hstands.mem_reach h.real hdataset hd)
      simp only [Reference.releases, List.append_eq_nil_iff, ite_eq_right_iff, reduceCtorEq, imp_false,
        Bool.not_eq_true] at hnone
      exact hthere hnone
    have hread := hrefs
    rw [storedProofs_of_authority hstands.authority] at hread
    have ha := run_alike rfl hrun
    have hauth : rootAuthority t root installation = .ok lineage := by rw [ha.rootAuthority, hstands.authority]
    have hreal := real_after h.real rfl hrun
    have hrefs' : storedProofs t root = .ok (refs.filter (·.property != r.property)) := by
      rw [storedProofs_of_authority hauth, recordRows_inherit hrun,
        readRecords_filter r.property hread (List.Subset.refl _)]
    obtain ⟨-, hsame⟩ := State.inheritProperty_eq_ok.mp hrun
    refine ⟨hreal, h.one.alike ha ?_, (hbooks.forget (by rw [hsame]) (by rw [hsame]) hr (readRecords_nodup hread).1
      hgone).accounted hreal hrefs'⟩
    intro refs' hrefs'' r' hr'
    obtain rfl := Except.ok.inj (hrefs'.symm.trans hrefs'')
    exact .proof hrefs (List.mem_filter.mp hr').1 rfl

theorem Backed.protect {stream : Dataset} {snapshots : List Name} {target : String} {cs : List Command}
    (h : Backed s root) (hplan : protectPlan s installation root stream snapshots target = .ok (r, c :: cs))
    (hrun : c.run s = .ok t) : Backed t root := by
  obtain ⟨lineage, instant, hable, refs, hrefs, hcommands⟩ := protectPlan_eq_ok.mp hplan
  have hproofs : storedProofs s root = .ok refs := by
    rw [storedProofs_of_authority hable.authority, ← referenceRecords_of_authority hable.authority, hrefs]
  have hroot := ne_nil_of_validDataset hable.valid
  have hbooks := books_of_accounted h.real h.one hroot hproofs h.accounted
  split at hcommands
  · rename_i prior hfind
    obtain ⟨hserves, rfl, hholds⟩ := hcommands
    obtain ⟨n, hn, rfl⟩ := List.mem_map.mp (hholds ▸ List.mem_cons_self : c ∈ _)
    obtain ⟨hname, hcovers⟩ := hable.named hserves (List.mem_filter.mp hn).1
    exact h.protecting hable.authority hproofs rfl hrun fun hreal =>
      hbooks.hold hreal (List.mem_of_find?_eq_some hfind) hcovers (hname ▸ hrun)
  · rename_i hfind
    obtain ⟨-, rfl, hset⟩ := hcommands
    obtain ⟨rfl, -⟩ := List.cons.inj hset
    have ha := run_alike rfl hrun
    have hauth : rootAuthority t root installation = .ok lineage := by rw [ha.rootAuthority, hable.authority]
    have hreal := real_after h.real rfl hrun
    have hfresh : ∀ x ∈ refs, x.property ≠ (protectReference stream snapshots target instant).property := by
      simpa using List.find?_eq_none.mp hfind
    have hrefs' : storedProofs t root = .ok (refs ++ [protectReference stream snapshots target instant]) := by
      rw [storedProofs_of_authority hauth]
      rw [storedProofs_of_authority hable.authority] at hproofs
      exact readRecords_store hproofs hable.decode hfresh hrun
    obtain ⟨n, hn, hbase⟩ := hable.own
    obtain ⟨o, ho, -, hm⟩ := hable.owned n hn
    obtain ⟨homem, honame⟩ := State.object_eq_some.mp ho
    have hlineage := storedLineage_of_authority hable.authority
    have hinstant : Instant s root instant :=
      .snapshot hlineage homem (by rw [honame, hbase]; exact hable.inRoot) hm
    obtain ⟨-, hsame⟩ := State.setProperty_eq_ok.mp hrun
    have hread : ∀ d, (protectReference stream snapshots target instant).covers d = true →
        ∃ x, (protectReference stream snapshots target instant).sourceOn s d = .ok x := by
      intro d hd
      refine readable_of_accounted h.real h.one h.accounted hinstant ((owns_eq_ok hm).2.1 ▸ hlineage) ?_
      exact covers_inside ((inside_iff hroot).mp hable.inRoot) hroot hd
    refine ⟨hreal, h.one.alike ha ?_, (hbooks.store (by rw [hsame]) (by rw [hsame]) hread).accounted hreal hrefs'⟩
    intro refs' hrefs'' r' hr'
    obtain rfl := Except.ok.inj (hrefs'.symm.trans hrefs'')
    rcases List.mem_append.mp hr' with hr' | hr'
    · exact .proof hproofs hr' rfl
    · obtain rfl := List.mem_singleton.mp hr'
      exact hinstant

end Operations

/-! ## Runs -/

/-- The operations on the references of one root, each stopped at the first command that is refused
or before its `cut`th. -/
def references (installation : ID) (root : Dataset) : System State (ReferenceOp × Option Nat) where
  init s := Backed s root
  step s a := match a.1.plan s installation root with
    | .ok commands => some (runUntil s commands a.2).1
    | .error _ => none

section Runs

variable {s t : State} {installation : ID} {root : Dataset} {op : ReferenceOp} {c : Command} {cs : List Command}

theorem Backed.command (h : Backed s root) (hplan : op.plan s installation root = .ok (c :: cs))
    (hrun : c.run s = .ok t) : Backed t root := by
  cases op with
  | protectSet stream snapshots target =>
    obtain ⟨⟨r, commands⟩, hplan, rfl⟩ := map_eq_ok.mp hplan
    exact h.protect hplan hrun
  | checkpointSet r verified => exact h.checkpoint hplan hrun
  | releaseCompletedHold r => exact h.completed hplan hrun
  | releaseReference r => exact h.release hplan hrun

theorem Backed.runUntil {cut : Option Nat} (h : Backed s root) (hplan : op.plan s installation root = .ok cs) :
    Backed (runUntil s cs cut).1 root := by
  fun_induction Zfs.runUntil s cs cut with
  | case1 s cut => exact h
  | case2 s c cs => exact h
  | case3 s c cs cut hne e he => exact h
  | case4 s c cs cut hne t ht ih =>
    have ht' := h.command hplan ht
    cases cs with
    | nil => exact ht'
    | cons c' cs => exact ih ht' (op.plan_peel hplan ht (by simp))

end Runs

/-- Whatever is run on a root's references, and wherever it stops, every protection of the subtree is
among the sources of a stored proof. -/
theorem protections_backed (installation : ID) (root : Dataset) (s : State)
    (h : Reach (references installation root) free s) : AllAccounted s root := by
  refine Backed.accounted (h.invariant (I := fun s => Backed s root) (fun _ => id) ?_)
  rintro s ⟨op, cut⟩ s' hs - hstep
  simp only [references] at hstep
  split at hstep
  · rename_i commands hplan
    cases hstep
    exact hs.runUntil hplan
  · cases hstep

theorem protectedSubtree_backed : Backed protectedSubtree ["tank"] := by
  have hinstant : ∀ m, Instant protectedSubtree ["tank"] m → m = sampleMetadata := by
    rintro m (⟨hrefs, hr, rfl⟩ | ⟨hl, ho, -, hm⟩)
    · have hproofs : storedProofs protectedSubtree ["tank"] = .ok [sampleProof] := by decide
      obtain rfl := Except.ok.inj (hproofs.symm.trans hrefs)
      rw [List.mem_singleton.mp hr]
      rfl
    · rename_i lineage o
      have hlineage : storedLineage protectedSubtree ["tank"] = .ok (some ⟨1, 1⟩) := by decide
      obtain rfl := Option.some.inj (Except.ok.inj (hlineage.symm.trans hl))
      have howned : ∀ o ∈ protectedSubtree.objects,
          (owns protectedSubtree o ⟨1, 1⟩).toOption.all (· == sampleMetadata) = true := by decide
      simpa [hm, Except.toOption] using howned o ho
  exact ⟨by decide, fun m m' hm hm' _ => by rw [hinstant m hm, hinstant m' hm'], protectedSubtree_accounted⟩

/-- A release that stops after the first of its two holds. -/
theorem protectedSubtree_stays_backed : ∃ s, Reach (references ⟨9, 9⟩ ["tank"]) free s ∧ s.holds.length = 1 ∧
    AllAccounted s ["tank"] := by
  obtain ⟨s, hs⟩ : ∃ s, (references ⟨9, 9⟩ ["tank"]).step protectedSubtree (.releaseReference sampleProof, some 1) =
    some s := ⟨_, rfl⟩
  have hreach : Reach (references ⟨9, 9⟩ ["tank"]) free s := .step (.init protectedSubtree_backed) trivial hs
  exact ⟨s, hreach, by cases hs; decide, protections_backed ⟨9, 9⟩ ["tank"] s hreach⟩

/-! A recursive proof and a member's proof whose instants share a UUID. -/

def firstInstant : Metadata := ⟨⟨1, 1⟩, ⟨5, 5⟩, 100⟩

def secondInstant : Metadata := ⟨⟨1, 1⟩, ⟨5, 5⟩, 200⟩

def wholeProof : Reference := ⟨⟨"local:vault"⟩, ["pond"], firstInstant, true⟩

def memberProof : Reference := ⟨⟨"local:vault"⟩, ["pond", "m"], secondInstant, false⟩

def sharedUUID : State where
  objects := [.ofRow (.dataset ["pond"]) .filesystem 11 1 (by decide),
    .ofRow (.dataset ["pond", "m"]) .filesystem 12 2 (by decide),
    .ofRow (wholeProof.snapshotOn ["pond"]) .snapshot 13 10 (by decide),
    .ofRow (wholeProof.snapshotOn ["pond", "m"]) .snapshot 14 10 (by decide),
    .ofRow (memberProof.snapshotOn ["pond", "m"]) .snapshot 15 20 (by decide)]
  properties := authorityRows ["pond"] ⟨8, 8⟩ ⟨1, 1⟩ ++ firstInstant.rows ["pond"] ++
    firstInstant.rows ["pond", "m"] ++ secondInstant.rows ["pond", "m"] ++
    [⟨.dataset ["pond"], wholeProof.property, .reference (encodeReference wholeProof ["pond"]), .sourceLocal⟩,
      ⟨.dataset ["pond"], memberProof.property, .reference (encodeReference memberProof ["pond"]), .sourceLocal⟩]
  holds := [(wholeProof.snapshotOn ["pond"], wholeProof.hold), (wholeProof.snapshotOn ["pond", "m"], wholeProof.hold),
    (memberProof.snapshotOn ["pond", "m"], memberProof.hold)]
  distinct := by decide

theorem sharedUUID_accounted : AllAccounted sharedUUID ["pond"] := by
  have hproofs : storedProofs sharedUUID ["pond"] = .ok [wholeProof, memberProof] := by decide
  have hwhole : wholeProof.sources sharedUUID = .ok [⟨["pond"], 13⟩, ⟨["pond", "m"], 14⟩] := by decide
  have hmember : memberProof.sources sharedUUID = .ok [⟨["pond", "m"], 15⟩] := by decide
  rintro x - hx
  have hcases : x = .hold ["pond"] firstInstant.name wholeProof.targetID ∨
      x = .hold ["pond", "m"] firstInstant.name wholeProof.targetID ∨
      x = .hold ["pond", "m"] secondInstant.name memberProof.targetID := by
    cases x with
    | hold d c t => simpa [Protection.present, State.held, sharedUUID, Reference.snapshotOn, Reference.hold,
        wholeProof, memberProof, and_assoc] using hx
    | bookmark d t u => simp [Protection.present, State.hasObject, sharedUUID, Object.ofRow, Reference.snapshotOn] at hx
  rcases hcases with rfl | rfl | rfl
  · exact ⟨_, hproofs, wholeProof, by simp, by decide, _, hwhole, _, List.mem_cons_self, rfl⟩
  · exact ⟨_, hproofs, wholeProof, by simp, by decide, _, hwhole, _, List.mem_cons_of_mem _ List.mem_cons_self, rfl⟩
  · exact ⟨_, hproofs, memberProof, by simp, by decide, _, hmember, _, List.mem_cons_self, rfl⟩

def wholeCheckpoint : ReferenceOp :=
  .checkpointSet wholeProof [(wholeProof.snapshotOn ["pond"], 13), (wholeProof.snapshotOn ["pond", "m"], 14)]

/-- The checkpoint of the recursive proof puts a bookmark beside the member's other snapshot, whose
proof can then not be read. -/
theorem checkpoint_hides_member_proof : Real sharedUUID ∧ AllAccounted sharedUUID ["pond"] ∧
    ∃ pool', wholeCheckpoint.run sharedUUID ⟨8, 8⟩ ["pond"] = .ok pool' ∧ ¬ AllAccounted pool' ["pond"] := by
  refine ⟨by decide, sharedUUID_accounted, ?_⟩
  obtain ⟨pool', h⟩ : ∃ pool', wholeCheckpoint.run sharedUUID ⟨8, 8⟩ ["pond"] = .ok pool' := ⟨_, rfl⟩
  refine ⟨pool', h, fun hacc => ?_⟩
  obtain ⟨refs, hrefs, r, hr, hnamed, sources, hsources, -⟩ :=
    hacc (.hold ["pond", "m"] secondInstant.name memberProof.targetID) (by decide) (by cases h; decide)
  have hproofs : storedProofs pool' ["pond"] = .ok [wholeProof, memberProof] := by cases h; decide
  obtain rfl := Except.ok.inj (hproofs.symm.trans hrefs)
  have hr' : r = wholeProof ∨ r = memberProof := by simpa using hr
  rcases hr' with rfl | rfl
  · revert hnamed
    decide
  · have hnone : (memberProof.sources pool').toOption = none := by cases h; decide
    simp [hsources, Except.toOption] at hnone

/-! ## What the operations leave alone -/

section Footprint

variable {s : State} {installation lineage : ID} {root d : Dataset} {op : ReferenceOp} {r : Reference} {c : Command}
  {cs : List Command}

theorem Standing.inside_root (h : Standing s installation root r lineage) (hd : d ∈ r.reach s root) :
    inside d root = true := by
  obtain ⟨refs, hrefs, hr⟩ := h.stored
  obtain ⟨p, -, hp⟩ := (mem_readRecords (readRecords_of_records hrefs)).1 r hr
  exact covers_inside (decodeReference_eq_some hp).2.2.2.2 (ne_nil_of_validDataset h.valid)
    (Reference.mem_candidates.mp hd).2

theorem ReferenceOp.footprint (hplan : op.plan s installation root = .ok cs) (hc : c ∈ cs) :
    isReferenceCommand c = true ∧ inside c.base root = true := by
  cases op with
  | protectSet stream snapshots target =>
    obtain ⟨⟨r, commands⟩, hprotect, rfl⟩ := map_eq_ok.mp hplan
    obtain ⟨lineage, instant, hable, refs, -, hchoice⟩ := protectPlan_eq_ok.mp hprotect
    have hin : ∀ n ∈ snapshots, inside n.base root = true := fun n hn => inside_trans (hable.inStream n hn) hable.inRoot
    split at hchoice
    · obtain ⟨-, -, rfl⟩ := hchoice
      obtain ⟨n, hn, rfl⟩ := List.mem_map.mp hc
      exact ⟨rfl, hin n (List.mem_filter.mp hn).1⟩
    · obtain ⟨-, -, rfl⟩ := hchoice
      rcases List.mem_cons.mp hc with rfl | hc
      · exact ⟨rfl, inside_self root⟩
      · obtain ⟨n, hn, rfl⟩ := List.mem_map.mp hc
        exact ⟨rfl, hin n hn⟩
  | checkpointSet r verified =>
    obtain ⟨lineage, hstands, -, rfl⟩ := checkpointPlan_eq_ok.mp hplan
    obtain ⟨d, hd, hc⟩ := List.mem_flatMap.mp hc
    obtain rfl := List.mem_singleton.mp (List.mem_ite_nil_right.mp hc).2
    exact ⟨rfl, hstands.inside_root hd⟩
  | releaseCompletedHold r =>
    obtain ⟨lineage, hstands, -, -, rfl⟩ := completedPlan_eq_ok.mp hplan
    obtain ⟨d, hd, hc⟩ := List.mem_flatMap.mp hc
    obtain rfl := List.mem_singleton.mp (List.mem_ite_nil_right.mp hc).2
    exact ⟨rfl, hstands.inside_root hd⟩
  | releaseReference r =>
    obtain ⟨lineage, hstands, -, rfl⟩ := releasePlan_eq_ok.mp hplan
    rcases List.mem_append.mp hc with hc | hc
    · obtain ⟨d, hd, hc⟩ := List.mem_flatMap.mp hc
      rcases List.mem_append.mp hc with hc | hc
      · obtain rfl := List.mem_singleton.mp (List.mem_ite_nil_right.mp hc).2
        exact ⟨rfl, hstands.inside_root hd⟩
      · obtain rfl := List.mem_singleton.mp (List.mem_ite_nil_right.mp hc).2
        exact ⟨rfl, hstands.inside_root hd⟩
    · obtain rfl := List.mem_singleton.mp hc
      exact ⟨rfl, inside_self root⟩

end Footprint

def referencesFrom (installation : ID) (root : Dataset) (start : State) : System State (ReferenceOp × Option Nat) :=
  { references installation root with init := (· = start) }

/-- Whatever is run on a root's references, and wherever it stops, only holds, bookmarks and proofs of the root's subtree
differ from the pool it began with. -/
theorem references_framed (installation : ID) (root : Dataset) (start s : State)
    (h : Reach (referencesFrom installation root start) free s) :
    Alike s start ∧ s.restrict (!inside · root) = start.restrict (!inside · root) := by
  refine h.invariant (I := fun s => Alike s start ∧ s.restrict (!inside · root) = start.restrict (!inside · root)) ?_ ?_
  · rintro s rfl
    exact ⟨.refl s, rfl⟩
  · rintro s ⟨op, cut⟩ s' hs - hstep
    simp only [referencesFrom, references] at hstep
    split at hstep
    · rename_i commands hplan
      cases hstep
      refine runUntil_invariant (I := fun s => Alike s start ∧ s.restrict (!inside · root) =
        start.restrict (!inside · root)) hs fun c hc t t' ht hrun => ?_
      obtain ⟨hreference, hinside⟩ := op.footprint hplan hc
      exact ⟨(run_alike hreference hrun).trans ht.1, (run_restrict hrun (by simp [hinside])).trans ht.2⟩
    · cases hstep

theorem protectedSubtree_framed : ∃ s, Reach (referencesFrom ⟨9, 9⟩ ["tank"] protectedSubtree) free s ∧
    s.holds.length = 1 ∧ Alike s protectedSubtree := by
  obtain ⟨s, hs⟩ : ∃ s, (referencesFrom ⟨9, 9⟩ ["tank"] protectedSubtree).step protectedSubtree
    (.releaseReference sampleProof, some 1) = some s := ⟨_, rfl⟩
  have hreach : Reach (referencesFrom ⟨9, 9⟩ ["tank"] protectedSubtree) free s := .step (.init rfl) trivial hs
  exact ⟨s, hreach, by cases hs; decide, (references_framed ⟨9, 9⟩ ["tank"] protectedSubtree s hreach).1⟩

end Boomerangz.Lifecycle
