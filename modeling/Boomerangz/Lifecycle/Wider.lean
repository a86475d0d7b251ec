import Boomerangz.Lifecycle.Retry

/-! # Streams inside a recursive proof

A stored proof is found by its stream, while all holds of a target carry one tag.
-/

namespace Boomerangz.Lifecycle

open Check Lists Zfs

/-! ## The members of a recursive proof -/

/-- An owned root stores a recursive proof for the target, and a dataset of the stream's subtree has an owned
snapshot of the proof's instant. -/
structure Inherits (pool : State) (installation lineage : ID) (root : Dataset) (refs : List Reference)
    (proof : Reference) (member : Dataset) (target : String) (o : Object) : Prop where
  hasRoot : pool.hasObject (.dataset root) = true
  authority : rootAuthority pool root installation = .ok lineage
  records : referenceRecords pool root (some lineage) = .ok refs
  stored : proof ∈ refs
  recursive : proof.recursive = true
  targetID : proof.targetID = ⟨target⟩
  inStream : inside member proof.dataset = true
  hasMember : pool.hasObject (.dataset member) = true
  snapshot : pool.object (proof.snapshotOn member) = some o
  owned : owns pool o lineage = .ok proof.metadata

namespace Reference

def Checkpointed (r : Reference) (s : State) (d : Dataset) : Prop :=
  ∃ b, s.object (r.bookmarkOn d) = some b ∧ ∀ o, s.object (r.snapshotOn d) = some o → b.guid = o.guid

def OthersCheckpointed (r : Reference) (s : State) (root member : Dataset) : Prop :=
  ∀ d ∈ r.reach s root, d ≠ member →
    s.held (r.snapshotOn d) r.hold = true ∨ s.hasObject (r.bookmarkOn d) = true → r.Checkpointed s d

def alone (proof : Reference) (member : Dataset) : Reference := ⟨proof.targetID, member, proof.metadata, false⟩

def found (proof : Reference) (refs : List Reference) (member : Dataset) : Reference :=
  (refs.find? (·.property == (proof.alone member).property)).getD (proof.alone member)

end Reference

/-- `ProtectSet` succeeds for the member's stream, and `CheckpointSet` of the proof it returned after it. -/
def SentAlone (pool : State) (installation : ID) (root member : Dataset) (n : Name) (target : String) (guid : Nat) :
    Prop :=
  ∃ r commands after, protectPlan pool installation root member [n] target = .ok (r, commands) ∧
    runAll pool commands = .ok after ∧ after.held n (.target ⟨target⟩) = true ∧
    (r.OthersCheckpointed after root member →
      ∃ marks final, checkpointPlan after installation root r [(n, guid)] = .ok marks ∧ runAll after marks = .ok final)

def Settled (pool : State) (p : Dataset → Bool) : Prop := (pool.restrict p).resumeTokens = []

def Canonical (target : String) : Prop := canonicalText target = true

structure Clear (pool : State) (root : Dataset) (refs : List Reference) (proof : Reference) (member : Dataset)
    (target : String) (o : Object) : Prop where
  canonical : Canonical target
  settled : Settled pool (proofDatasets pool root [member] [])
  same : (proof.found refs member).metadata = proof.metadata
  proven : proof.found refs member ∈ refs ∨ pool.held (proof.snapshotOn member) proof.hold = false
  finished : (proof.found refs member).OthersCheckpointed pool root member →
    Settled pool (proofDatasets pool root [member] (proof.found refs member).subtree) ∧
      ∀ b, pool.object ((proof.found refs member).bookmarkOn member) = some b → b.guid = o.guid

/-! ## The stream's own dataset comes first -/

namespace Reference

variable {s : State} {r : Reference}

theorem candidates_cons (hvalid : validDataset r.dataset = true) (hd : s.hasObject (.dataset r.dataset) = true) :
    ∃ rest, r.candidates s = r.dataset :: rest := by
  have hmem : r.dataset ∈ r.candidates s := by
    obtain ⟨o, ho, hname⟩ := State.hasObject_iff.mp hd
    refine mem_candidates.mpr ⟨⟨o, ho, o.isDataset_iff.mpr ⟨_, hname⟩, by rw [hname]; rfl⟩, ?_⟩
    simp [covers]
  have hsorted : (r.candidates s).Pairwise fun a b => textLe (path a) (path b) = true :=
    (pairwise_sort_text path _).sublist (compact_sublist _)
  cases hc : r.candidates s with
  | nil =>
    rw [hc] at hmem
    cases hmem
  | cons d rest =>
    by_cases hne : d = r.dataset
    · exact ⟨rest, by rw [hne]⟩
    · -- a dataset inside the stream sorts after it
      exfalso
      have hin : d ∈ r.candidates s := by simp [hc]
      rw [hc] at hmem hsorted
      have hle := (List.pairwise_cons.mp hsorted).1 _ (List.mem_of_ne_of_mem (Ne.symm hne) hmem)
      have hcovers := (mem_candidates.mp hin).2
      simp only [covers, Bool.or_eq_true, beq_iff_eq, hne, false_or, Bool.and_eq_true] at hcovers
      have hstream := ne_nil_of_validDataset hvalid
      have hlt := path_lt_of_inside hstream ((inside_iff hstream).mp hcovers.2) (Ne.symm hne)
      rw [hlt] at hle
      cases hle

theorem reach_cons (root : Dataset) (hvalid : validDataset r.dataset = true) (hd : s.hasObject (.dataset r.dataset) = true) :
    ∃ rest, r.reach s root = r.dataset :: rest := by
  unfold reach
  apply candidates_cons hvalid
  simp [proofDatasets, hd]

end Reference

/-! ## Protecting -/

section Protect

variable {pool s t after : State} {installation lineage : ID} {root member stream : Dataset} {proof r : Reference}
  {refs : List Reference} {target : String} {o : Object} {snapshots : List Name} {c : Command} {commands : List Command}

theorem Reference.found_property (proof : Reference) (refs : List Reference) (member : Dataset) :
    (proof.found refs member).property = (proof.alone member).property := by
  unfold Reference.found
  cases hfind : refs.find? (·.property == (proof.alone member).property) with
  | none => rfl
  | some prior => simpa using List.find?_some hfind

theorem Reference.found_dataset (proof : Reference) (refs : List Reference) (member : Dataset) :
    (proof.found refs member).dataset = member ∧ (proof.found refs member).targetID = proof.targetID := by
  have hkey := proof.found_property refs member
  simp only [property, Key.reference.injEq, StreamID.mk.injEq] at hkey
  exact ⟨hkey.2.1, hkey.1⟩

theorem serves_alone_iff (h : r.property = (proof.alone member).property) :
    r.serves (proof.alone member) = true ↔ r.metadata = proof.metadata := by
  refine ⟨fun hserves => (Reference.serves_iff hserves).1, fun hsame => ?_⟩
  simp only [Reference.property, Key.reference.injEq, StreamID.mk.injEq] at h
  obtain ⟨t, d, m, recursive⟩ := r
  obtain ⟨ht, hd, -⟩ := h
  dsimp only [Reference.alone] at ht hd hsame
  subst ht hd hsame
  cases recursive <;> simp [Reference.serves, Reference.alone]

theorem protectReference_alone (h : proof.targetID = ⟨target⟩) :
    protectReference member [proof.snapshotOn member] target proof.metadata = proof.alone member := by
  simp [protectReference, Reference.alone, h]

theorem Inherits.protectable (h : Inherits pool installation lineage root refs proof member target o)
    (hcanonical : Canonical target) (hsettled : Settled pool (proofDatasets pool root [member] [])) :
    Protectable pool installation root member [proof.snapshotOn member] target lineage proof.metadata := by
  have hroot := rootAuthority_valid h.authority
  obtain ⟨p, -, hdec⟩ := (mem_readRecords (readRecords_of_records h.records)).1 proof h.stored
  obtain ⟨-, -, -, -, hprefix⟩ := decodeReference_eq_some hdec
  have hstream : inside proof.dataset root = true := (inside_iff (ne_nil_of_validDataset hroot)).mpr hprefix
  obtain ⟨-, hname⟩ := State.object_eq_some.mp h.snapshot
  have hmember : validDataset member = true := by
    have hvalid := o.valid
    rw [hname] at hvalid
    exact hvalid
  refine ⟨hroot, hcanonical, hmember, inside_trans h.inStream hstream, h.hasRoot, hsettled, h.authority,
    List.nodup_singleton _, ?_, ?_, ?_, ⟨_, List.mem_singleton_self _, rfl⟩⟩
  · intro n hn
    obtain rfl := List.mem_singleton.mp hn
    exact inside_self member
  · intro n hn
    obtain rfl := List.mem_singleton.mp hn
    exact .inr h.hasMember
  · intro n hn
    obtain rfl := List.mem_singleton.mp hn
    exact ⟨o, h.snapshot, o.type_snapshot_iff.mpr ⟨_, _, hname⟩, h.owned⟩

theorem protect_alone_iff (h : Inherits pool installation lineage root refs proof member target o) :
    (∃ commands, protectPlan pool installation root member [proof.snapshotOn member] target = .ok (r, commands)) ↔
      Canonical target ∧ Settled pool (proofDatasets pool root [member] []) ∧
        (proof.found refs member).metadata = proof.metadata ∧
        (proof.found refs member ∈ refs ∨ pool.held (proof.snapshotOn member) proof.hold = false) ∧
        r = proof.found refs member := by
  have hhold : proof.hold = .target ⟨target⟩ := by rw [Reference.hold, h.targetID]
  have halone : (proof.alone member).property = (proof.found refs member).property :=
    (proof.found_property refs member).symm
  constructor
  · rintro ⟨commands, hplan⟩
    obtain ⟨lineage', instant, hable, refs', hrefs, hchoice⟩ := protectPlan_eq_ok.mp hplan
    obtain rfl := Except.ok.inj (hable.authority.symm.trans h.authority)
    obtain rfl := Except.ok.inj (hrefs.symm.trans h.records)
    obtain ⟨o', ho', -, hm⟩ := hable.owned _ (List.mem_singleton_self _)
    obtain rfl := Option.some.inj (ho'.symm.trans h.snapshot)
    obtain rfl := Except.ok.inj (hm.symm.trans h.owned)
    rw [protectReference_alone h.targetID] at hchoice
    refine ⟨hable.canonical, hable.ready, ?_⟩
    unfold Reference.found at halone ⊢
    split at hchoice
    · rename_i prior hfind
      obtain ⟨hserves, rfl, -⟩ := hchoice
      rw [hfind, Option.getD_some] at halone ⊢
      exact ⟨(serves_alone_iff halone.symm).mp hserves, .inl (List.mem_of_find?_eq_some hfind), rfl⟩
    · rename_i hfind
      obtain ⟨hfree, rfl, -⟩ := hchoice
      rw [hfind, Option.getD_none]
      exact ⟨rfl, .inr (hhold ▸ hfree _ (List.mem_singleton_self _)), rfl⟩
  · rintro ⟨hcanonical, hsettled, hsame, hproven, rfl⟩
    have hable := h.protectable hcanonical hsettled
    unfold Reference.found at halone hsame hproven ⊢
    cases hfind : refs.find? (·.property == (proof.alone member).property) with
    | some prior =>
      rw [hfind, Option.getD_some] at halone hsame
      refine ⟨([proof.snapshotOn member].filter (!pool.held · prior.hold)).map (.hold prior.hold),
        protectPlan_eq_ok.mpr ⟨lineage, proof.metadata, hable, refs, h.records, ?_⟩⟩
      rw [protectReference_alone h.targetID, hfind]
      exact ⟨(serves_alone_iff halone.symm).mpr hsame, rfl, rfl⟩
    | none =>
      rw [hfind, Option.getD_none] at hproven
      have hfree : pool.held (proof.snapshotOn member) proof.hold = false := by
        refine hproven.resolve_left fun hmem => ?_
        have := List.find?_eq_none.mp hfind _ hmem
        simp at this
      refine ⟨.setProperty (.dataset root) (proof.alone member).property
          (.reference (encodeReference (proof.alone member) root)) ::
            [proof.snapshotOn member].map (.hold (proof.alone member).hold),
        protectPlan_eq_ok.mpr ⟨lineage, proof.metadata, hable, refs, h.records, ?_⟩⟩
      rw [protectReference_alone h.targetID, hfind]
      refine ⟨?_, rfl, rfl⟩
      intro n hn
      obtain rfl := List.mem_singleton.mp hn
      exact hhold ▸ hfree

structure Kept (t s : State) (d : Dataset) : Prop where
  alike : Alike t s
  objects : t.objects = s.objects
  held : ∀ n tag, n.base ≠ d → t.held n tag = s.held n tag

theorem Kept.object (h : Kept t s member) (n : Name) : t.object n = s.object n := by
  unfold State.object
  rw [h.objects]

theorem Kept.hasObject (h : Kept t s member) (n : Name) : t.hasObject n = s.hasObject n := by
  unfold State.hasObject
  rw [h.objects]

theorem Kept.others (h : Kept t s member) : r.OthersCheckpointed t root member ↔ r.OthersCheckpointed s root member := by
  unfold Reference.OthersCheckpointed Reference.Checkpointed
  rw [h.alike.reach]
  refine forall₂_congr fun d _ => forall_congr' fun hne => ?_
  rw [h.held (r.snapshotOn d) r.hold hne, h.hasObject, h.object, h.object]

theorem Kept.settled (h : Kept t s member) (datasets : List Dataset) (subtree : Dataset) :
    Settled t (proofDatasets t root datasets subtree) ↔ Settled s (proofDatasets s root datasets subtree) := by
  unfold Settled
  rw [h.alike.proofDatasets, (h.alike.restrict _).resumeTokens]

theorem protect_command {n : Name}
    (h : protectPlan s installation root n.base [n] target = .ok (r, c :: commands)) :
    ∃ t, c.run s = .ok t ∧ Kept t s n.base := by
  obtain ⟨lineage, instant, hable, refs, -, hchoice⟩ := protectPlan_eq_ok.mp h
  split at hchoice
  · rename_i prior _
    obtain ⟨-, -, hcommands⟩ := hchoice
    obtain ⟨m, hm, rfl⟩ := List.mem_map.mp (hcommands ▸ List.mem_cons_self : c ∈ _)
    obtain ⟨hm, hfree⟩ := List.mem_filter.mp hm
    obtain rfl := List.mem_singleton.mp hm
    obtain ⟨o, ho, -⟩ := hable.owned _ hm
    have hrun : (Command.hold prior.hold m).run s = .ok _ := State.hold_eq_ok.mpr ⟨State.hasObject_of_object ho, by simpa using hfree, rfl⟩
    refine ⟨_, hrun, run_alike rfl hrun, rfl, fun x tag hx => ?_⟩
    have hne : x ≠ m := fun heq => hx (congrArg Name.base heq)
    simp [State.held, hne]
  · obtain ⟨-, -, hcommands⟩ := hchoice
    obtain ⟨rfl, -⟩ := List.cons.inj hcommands
    have hrun : (Command.setProperty (.dataset root) r.property (.reference (encodeReference r root))).run s = .ok _ :=
      State.setProperty_eq_ok.mpr ⟨hable.hasRoot, rfl⟩
    exact ⟨_, hrun, run_alike rfl hrun, rfl, fun _ _ _ => rfl⟩

theorem protect_runs {n : Name}
    (h : protectPlan s installation root n.base [n] target = .ok (r, commands)) :
    ∃ t, runAll s commands = .ok t ∧ Kept t s n.base ∧
      protectPlan t installation root n.base [n] target = .ok (r, []) := by
  induction commands generalizing s with
  | nil => exact ⟨s, runAll_nil.mpr rfl, ⟨Alike.refl s, rfl, fun _ _ _ => rfl⟩, h⟩
  | cons c commands ih =>
    obtain ⟨t, hrun, hkept⟩ := protect_command h
    obtain ⟨u, hruns, hkept', hplan⟩ := ih (protectPlan_peel h hrun)
    refine ⟨u, runAll_cons.mpr ⟨t, hrun, hruns⟩, ⟨hkept'.alike.trans hkept.alike, ?_, ?_⟩, hplan⟩
    · exact hkept'.objects.trans hkept.objects
    · exact fun x tag hx => (hkept'.held x tag hx).trans (hkept.held x tag hx)

section Alone

variable {n : Name} (hplan : protectPlan s installation root n.base [n] target = .ok (r, []))
  (hd : s.hasObject (.dataset n.base) = true) (ho : s.object n = some o)
  (hothers : r.OthersCheckpointed s root n.base)

include hplan ho in
theorem readable_alone_iff : (∃ x, r.sourceOn s n.base = .ok x) ↔
    ∀ b, s.object (r.bookmarkOn n.base) = some b → b.guid = o.guid := by
  obtain ⟨-, -, -, -, -, -, hname, -⟩ := protected_of_nil hplan List.mem_cons_self
  rw [Reference.readable_iff, ← hname]
  constructor
  · rintro ⟨hguids, -⟩ b hb
    exact hguids o b ho hb
  · intro hguid
    refine ⟨fun o' b ho' hb => ?_, fun _ => .inl (State.hasObject_of_object ho)⟩
    obtain rfl := Option.some.inj (ho'.symm.trans ho)
    exact hguid b hb

include hplan hothers in
theorem standing_alone (hsettled : Settled s (proofDatasets s root [n.base] r.subtree))
    (hread : ∃ x, r.sourceOn s n.base = .ok x) : ∃ lineage, Standing s installation root r lineage := by
  obtain ⟨lineage, refs, hable, hrefs, hr, hdataset, -, -⟩ := protected_of_nil hplan List.mem_cons_self
  refine ⟨lineage, hable.valid, hable.hasRoot, by rw [hdataset]; exact hsettled, hable.authority, ⟨refs, hrefs, hr⟩, ?_⟩
  intro d hreach
  by_cases hne : d = n.base
  · exact hne ▸ hread
  · refine Reference.readable_iff.mpr ⟨fun o' b ho' hb => ?_, fun hheld => ?_⟩
    · obtain ⟨b', hb', hsame⟩ := hothers d hreach hne (.inr (State.hasObject_of_object hb))
      obtain rfl := Option.some.inj (hb'.symm.trans hb)
      exact hsame o' ho'
    · obtain ⟨b, hb, -⟩ := hothers d hreach hne (.inl hheld)
      exact .inr (State.hasObject_of_object hb)

theorem marked_of_source {d : Dataset} {x : ReferenceSource} (hothers : r.OthersCheckpointed s root member)
    (hreach : d ∈ r.reach s root) (hne : d ≠ member) (hread : ∃ o, r.sourceOn s d = .ok o)
    (hx : x ∈ r.source s d) : s.hasObject (r.bookmarkOn d) = true := by
  obtain ⟨guid, hsource, -⟩ := Reference.source_eq hread
  rw [hsource] at hx
  split at hx
  · rename_i hthere
    obtain ⟨b, hb, -⟩ := hothers d hreach hne ((Bool.or_eq_true _ _).mp hthere).symm
    exact State.hasObject_of_object hb
  · cases hx

include hplan hd ho hothers in
theorem checkable_alone (hstands : Standing s installation root r lineage) :
    Checkable s r lineage [(n, o.guid)] ((r.reach s root).flatMap (r.source s)) := by
  obtain ⟨lineage', -, hable, -, -, hdataset, hname, hheld⟩ := protected_of_nil hplan List.mem_cons_self
  obtain rfl := Except.ok.inj (hable.authority.symm.trans hstands.authority)
  obtain ⟨rest, hreach⟩ := r.reach_cons root hstands.valid_dataset (by rw [hdataset, hd])
  rw [hdataset] at hreach
  have hfirst : n.base ∈ r.reach s root := by simp [hreach]
  obtain ⟨guid, hsource, hguid⟩ := Reference.source_eq (hstands.readable _ hfirst)
  rw [← hname, hheld, Bool.or_true, if_pos rfl] at hsource
  obtain rfl := hguid o (by rw [← hname, ho])
  have hlookup : ∀ d, d ≠ n.base → [(n, o.guid)].lookup (r.snapshotOn d) = none := by
    intro d hne
    have hn : r.snapshotOn d ≠ n := fun heq => hne (congrArg Name.base heq)
    rw [List.lookup_cons, beq_eq_false_iff_ne.mpr hn, List.lookup_nil]
  have hself : [(n, o.guid)].lookup (r.snapshotOn n.base) = some o.guid := by
    rw [← hname, List.lookup_cons_self]
  refine ⟨?_, ?_, ?_, ?_⟩
  · rw [hreach, List.flatMap_cons, hsource, hdataset]
    rfl
  · intro v hv
    obtain rfl := List.mem_singleton.mp hv
    refine ⟨⟨n.base, o.guid⟩, ?_, hname.symm⟩
    exact List.mem_flatMap.mpr ⟨n.base, hfirst, by simp [hsource]⟩
  · intro x hx
    obtain ⟨d, hdr, hxd⟩ := List.mem_flatMap.mp hx
    obtain ⟨rfl, -⟩ := Reference.mem_source (hstands.readable d hdr) hxd
    by_cases hne : x.dataset = n.base
    · rw [hne, hsource] at hxd
      obtain rfl := List.mem_singleton.mp hxd
      simp [hself]
    · simp [hlookup _ hne]
  · intro x hx hfresh
    obtain ⟨d, hdr, hxd⟩ := List.mem_flatMap.mp hx
    obtain ⟨rfl, -⟩ := Reference.mem_source (hstands.readable d hdr) hxd
    by_cases hne : x.dataset = n.base
    · rw [hne, hself]
      obtain ⟨o', ho', -, hm⟩ := hable.owned n (List.mem_singleton_self n)
      exact ⟨rfl, o', by rw [← hname, ho'], hm⟩
    · rw [marked_of_source hothers hdr hne (hstands.readable _ hdr) hxd] at hfresh
      cases hfresh

include hplan hd ho hothers in
theorem checkpoint_runs (hstands : Standing s installation root r lineage) :
    ∃ final, runAll s ((r.reach s root).flatMap (r.checkpoints s)) = .ok final := by
  obtain ⟨-, -, -, -, -, hdataset, hname, -⟩ := protected_of_nil hplan List.mem_cons_self
  obtain ⟨rest, hreach⟩ := r.reach_cons root hstands.valid_dataset (by rw [hdataset, hd])
  rw [hdataset] at hreach
  have hnodup : (n.base :: rest).Nodup := hreach ▸ r.candidates_nodup
  have hrest : rest.flatMap (r.checkpoints s) = [] := by
    refine List.flatMap_eq_nil_iff.mpr fun d hd => ?_
    have hne : d ≠ n.base := fun heq => (List.nodup_cons.mp hnodup).1 (heq ▸ hd)
    unfold Reference.checkpoints
    split
    · rename_i hthere
      simp only [Bool.and_eq_true, Bool.not_eq_true'] at hthere
      obtain ⟨b, hb, -⟩ := hothers d (by rw [hreach]; exact List.mem_cons_of_mem _ hd) hne (.inl hthere.1)
      rw [State.hasObject_of_object hb] at hthere
      cases hthere.2
    · rfl
  rw [hreach, List.flatMap_cons, hrest, List.append_nil]
  unfold Reference.checkpoints
  split
  · rename_i hthere
    simp only [Bool.and_eq_true, Bool.not_eq_true'] at hthere
    obtain ⟨t, ht⟩ := State.bookmark_ok ho hthere.2
    refine ⟨t, runAll_cons.mpr ⟨t, ?_, runAll_nil.mpr rfl⟩⟩
    rw [← hname]
    exact ht
  · exact ⟨s, runAll_nil.mpr rfl⟩

include hplan hd ho hothers in
theorem checkpoint_alone_iff :
    (∃ marks final, checkpointPlan s installation root r [(n, o.guid)] = .ok marks ∧ runAll s marks = .ok final) ↔
      Settled s (proofDatasets s root [n.base] r.subtree) ∧
        ∀ b, s.object (r.bookmarkOn n.base) = some b → b.guid = o.guid := by
  rw [← readable_alone_iff hplan ho]
  constructor
  · rintro ⟨marks, final, hmarks, -⟩
    obtain ⟨lineage, hstands, -, -⟩ := checkpointPlan_eq_ok.mp hmarks
    obtain ⟨-, -, -, -, -, hdataset, -, -⟩ := protected_of_nil hplan List.mem_cons_self
    obtain ⟨rest, hreach⟩ := r.reach_cons root hstands.valid_dataset (by rw [hdataset, hd])
    refine ⟨?_, hstands.readable n.base (by rw [hreach, hdataset]; simp)⟩
    have hready := hstands.ready
    rw [hdataset] at hready
    exact hready
  · rintro ⟨hsettled, hread⟩
    obtain ⟨lineage, hstands⟩ := standing_alone hplan hothers hsettled hread
    obtain ⟨final, hfinal⟩ := checkpoint_runs hplan hd ho hothers hstands
    exact ⟨_, final, checkpointPlan_eq_ok.mpr ⟨lineage, hstands, checkable_alone hplan hd ho hothers hstands, rfl⟩, hfinal⟩

end Alone

/-- A member inside a recursive proof can be sent on its own exactly under `Clear`. -/
theorem member_sent_alone (h : Inherits pool installation lineage root refs proof member target o) :
    SentAlone pool installation root member (proof.snapshotOn member) target o.guid ↔
      Clear pool root refs proof member target o := by
  constructor
  · rintro ⟨r, commands, after, hplan, hrun, -, hfinish⟩
    obtain ⟨hcanonical, hsettled, hsame, hproven, rfl⟩ := (protect_alone_iff h).mp ⟨commands, hplan⟩
    obtain ⟨t, hruns, hkept, hdone⟩ := protect_runs hplan
    obtain rfl := Except.ok.inj (hrun.symm.trans hruns)
    refine ⟨hcanonical, hsettled, hsame, hproven, fun hothers => ?_⟩
    have hothers' := hkept.others.mpr hothers
    obtain ⟨hclear, hguid⟩ := (checkpoint_alone_iff hdone ((hkept.hasObject _).trans h.hasMember)
      ((hkept.object _).trans h.snapshot) hothers').mp (hfinish hothers')
    refine ⟨(hkept.settled _ _).mp hclear, fun b hb => hguid b ?_⟩
    rw [hkept.object]
    exact hb
  · rintro ⟨hcanonical, hsettled, hsame, hproven, hfinished⟩
    obtain ⟨commands, hplan⟩ := (protect_alone_iff h).mpr ⟨hcanonical, hsettled, hsame, hproven, rfl⟩
    obtain ⟨after, hrun, hkept, hdone⟩ := protect_runs hplan
    obtain ⟨-, -, -, -, -, -, -, hheld⟩ := protected_of_nil hdone List.mem_cons_self
    refine ⟨_, commands, after, hplan, hrun, ?_, fun hothers => ?_⟩
    · rw [← h.targetID, ← (proof.found_dataset refs member).2]
      exact hheld
    · obtain ⟨hclear, hguid⟩ := hfinished (hkept.others.mp hothers)
      refine (checkpoint_alone_iff hdone ((hkept.hasObject _).trans h.hasMember) ((hkept.object _).trans h.snapshot)
        hothers).mpr ⟨(hkept.settled _ _).mpr hclear, fun b hb => ?_⟩
      rw [hkept.object] at hb
      exact hguid b hb

end Protect

/-! ## A root sent whole, then by members -/

theorem protectedSubtree_inherits {member : Dataset} {o : Object}
    (hin : inside member ["tank"] = true) (hd : protectedSubtree.hasObject (.dataset member) = true)
    (ho : protectedSubtree.object (sampleProof.snapshotOn member) = some o)
    (hm : owns protectedSubtree o ⟨1, 1⟩ = .ok sampleProof.metadata) :
    Inherits protectedSubtree ⟨9, 9⟩ ⟨1, 1⟩ ["tank"] [sampleProof] sampleProof member "local:backup" o where
  hasRoot := by decide
  authority := by decide
  records := by decide
  stored := by simp
  recursive := rfl
  targetID := rfl
  inStream := hin
  hasMember := hd
  snapshot := ho
  owned := hm


theorem protectedSubtree_sent_alone : SentAlone protectedSubtree ⟨9, 9⟩ ["tank"] ["tank"]
    (sampleProof.snapshotOn ["tank"]) "local:backup" 3 := by
  obtain ⟨o, ho⟩ : ∃ o, protectedSubtree.object (sampleProof.snapshotOn ["tank"]) = some o := ⟨_, rfl⟩
  have hm : owns protectedSubtree o ⟨1, 1⟩ = .ok sampleProof.metadata := by cases ho; decide
  have hinherits := protectedSubtree_inherits (by decide) (by decide) ho hm
  have hguid : o.guid = 3 := by cases ho; rfl
  rw [← hguid]
  refine (member_sent_alone hinherits).mpr ⟨(by decide : _ = true), rfl, rfl, .inl (by decide), fun _ => ⟨rfl, fun b hb => ?_⟩⟩
  have hnone : protectedSubtree.object ((sampleProof.found [sampleProof] ["tank"]).bookmarkOn ["tank"]) = none := by
    decide
  rw [hnone] at hb
  cases hb

/-- The member's snapshot still carries the hold of the recursive proof. -/
theorem member_not_sent_alone : ∃ o,
    Inherits protectedSubtree ⟨9, 9⟩ ⟨1, 1⟩ ["tank"] [sampleProof] sampleProof ["tank", "a"] "local:backup" o ∧
      ¬ SentAlone protectedSubtree ⟨9, 9⟩ ["tank"] ["tank", "a"] (sampleProof.snapshotOn ["tank", "a"]) "local:backup"
        o.guid := by
  obtain ⟨o, ho⟩ : ∃ o, protectedSubtree.object (sampleProof.snapshotOn ["tank", "a"]) = some o := ⟨_, rfl⟩
  have hm : owns protectedSubtree o ⟨1, 1⟩ = .ok sampleProof.metadata := by cases ho; decide
  refine ⟨o, protectedSubtree_inherits (by decide) (by decide) ho hm, ?_⟩
  rintro ⟨r, commands, after, hplan, -⟩
  have hrefused : protectPlan protectedSubtree ⟨9, 9⟩ ["tank"] ["tank", "a"] [sampleProof.snapshotOn ["tank", "a"]]
      "local:backup" = .error (.plain "unproven existing target hold") := by decide
  rw [hrefused] at hplan
  cases hplan

end Boomerangz.Lifecycle
