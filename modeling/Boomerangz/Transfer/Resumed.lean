import Boomerangz.Transfer.Receive

/-! # What a resumed receive is verified against -/

namespace Boomerangz.Transfer

open Check Lists Zfs Lifecycle

section Resumed

variable {s : State} {lineage : ID} {r : Reference} {candidates : List Reference}

theorem newestReference_spec (h : newestReference s candidates = some r) :
    r ∈ candidates ∧ ∀ c ∈ candidates, c ≠ r → referenceTXG s c < referenceTXG s r := by
  unfold newestReference at h
  split at h
  · cases h
  · next found hfound =>
    obtain ⟨hone, rfl⟩ := Option.ite_none_right_eq_some.mp h |>.imp id Option.some.inj
    obtain ⟨hmem, hmax⟩ := greatest_spec hfound
    obtain ⟨x, hx⟩ := List.length_eq_one_iff.mp hone
    have honly : ∀ c ∈ candidates, referenceTXG s c = referenceTXG s found → c = x := fun c hc heq =>
      List.mem_singleton.mp (hx ▸ List.mem_filter.mpr ⟨hc, beq_iff_eq.mpr heq⟩)
    refine ⟨hmem, fun c hc hne => lt_of_le_of_ne (hmax c hc) fun heq => hne ?_⟩
    rw [honly c hc heq, honly found hmem rfl]

/-- The snapshot is at the source with this GUID, owned, and held under the proof. -/
def HeldFor (s : State) (lineage : ID) (r : Reference) (n : Name) (guid : Nat) : Prop :=
  ∃ o, s.object n = some o ∧ o.guid = guid ∧ s.held n r.hold = true ∧ owns s o lineage = .ok r.metadata

theorem resumable_held {sources : List ReferenceSource} (h : resumable s lineage r = true)
    (hsources : r.sources s = .ok sources) {x : ReferenceSource} (hx : x ∈ sources) :
    HeldFor s lineage r (r.snapshotOn x.dataset) x.guid := by
  rw [resumable, hsources] at h
  simp only [Bool.and_eq_true, List.all_eq_true] at h
  have hheld := h.2 x hx
  simp only [sourceHeld, Option.any_eq_true, Bool.and_eq_true, beq_iff_eq] at hheld
  obtain ⟨o, ho, ⟨hguid, hhold⟩, hm⟩ := hheld
  rw [(State.object_eq_some.mp ho).2] at hhold
  unfold metadataOf at hm
  split at hm
  · next m hm' =>
    cases hm
    exact ⟨o, ho, hguid, hhold, hm'⟩
  · cases hm

theorem resumeExpected_spec {request : Request} {view : View} {scope : Scope} {x : ReferenceSource} {o : Option Expected}
    (h : resumeExpected request view scope lineage r x = .ok o) :
    o = some ⟨r.snapshotOn x.dataset, .snapshot (place request.source scope.mappedRoot x.dataset) r.metadata.name, x.guid,
      some r.metadata⟩ := by
  simp only [resumeExpected] at h
  split at h
  · cases h
    rfl
  · simp only [ok_iff] at h
    exact h.2.2.symm

end Resumed

/-- `BuildResume` takes the newest proof of the stream whose snapshots are all held, so the proof of the send that was cut
off exactly if it is that one. It expects the snapshots of the proof, owned and held at the source, and one of them where
the token is. -/
theorem resume_takes_newest {request : Request} {view : View} {installation : ID} {plan : Plan} {r : Reference}
    (h : buildResume request view installation = .ok (plan, r)) :
    ∃ lineage refs sources, rootAuthority view.source request.source installation = .ok lineage ∧
      referenceRecords view.source request.source (some lineage) = .ok refs ∧ r.sources view.source = .ok sources ∧
      (∀ t, r = t ↔ t ∈ resumeCandidates view.source request.canonical plan.source lineage refs ∧
        ∀ c ∈ resumeCandidates view.source request.canonical plan.source lineage refs, c ≠ t →
          referenceTXG view.source c < referenceTXG view.source t) ∧
      (∀ x ∈ sources, ∃ e ∈ plan.expected, e.source = r.snapshotOn x.dataset) ∧
      (∀ e ∈ plan.expected, HeldFor view.source lineage r e.source e.guid) ∧
      (∃ token, view.destination.resumeTokens = [(plan.receive.root, token)]) ∧
      ∃ e ∈ plan.expected, e.destination = .snapshot plan.receive.root r.metadata.name := by
  simp only [buildResume, ok_iff] at h
  obtain ⟨scope, -, ⟨d, token⟩, htoken, -, -, lineage, hlineage, suspended, -, -, binding, -, refs, hrefs, h⟩ := h
  split at h
  · simp at h
  · next newest hnewest =>
    simp only [ok_iff, Prod.mk.injEq, List.any_eq_true, beq_iff_eq] at h
    obtain ⟨sources, hsources, expected, hexpected, ⟨x, hx, rfl⟩, rfl, rfl⟩ := h
    obtain ⟨hmem, hmax⟩ := newestReference_spec hnewest
    have hsource : ∀ x ∈ sources, ∃ e ∈ expected, e.source = newest.snapshotOn x.dataset ∧
        e.destination = .snapshot (place request.source scope.mappedRoot x.dataset) newest.metadata.name := by
      intro x hx
      obtain ⟨o, ho⟩ := collect_total hexpected hx
      obtain rfl := resumeExpected_spec ho
      exact ⟨_, (mem_collect hexpected _).mpr ⟨x, hx, ho⟩, rfl, rfl⟩
    refine ⟨lineage, refs, sources, hlineage, hrefs, hsources, fun t => ⟨?_, fun ht => ?_⟩, fun x hx => ?_, fun e he => ?_,
      ⟨token, (resumeToken_eq_ok htoken).1⟩, ?_⟩
    · rintro rfl
      exact ⟨hmem, hmax⟩
    · by_contra hne
      exact absurd (ht.2 _ hmem hne) (not_lt_of_gt (hmax t ht.1 (Ne.symm hne)))
    · obtain ⟨e, he, hname, -⟩ := hsource x hx
      exact ⟨e, he, hname⟩
    · obtain ⟨x, hx, ho⟩ := (mem_collect hexpected e).mp he
      obtain rfl := Option.some.inj (resumeExpected_spec ho)
      simp only [resumeCandidates, List.mem_filter, Bool.and_eq_true] at hmem
      exact resumable_held hmem.2.2 hsources hx
    · obtain ⟨e, he, -, hplace⟩ := hsource x hx
      exact ⟨e, he, hplace⟩

/-- The one send that was cut off is resumed under its own proof. -/
theorem cut_resumes : ∃ plan r, buildResume (cutRequest []) cutView ⟨9, 9⟩ = .ok (plan, r) ∧ r = cutProof ∧
    ∃ lineage, ∀ e ∈ plan.expected, HeldFor cutSource lineage cutProof e.source e.guid := by
  obtain ⟨⟨plan, r⟩, h⟩ : ∃ x, buildResume (cutRequest []) cutView ⟨9, 9⟩ = .ok x := ⟨_, rfl⟩
  have hproof : r = cutProof := by
    cases h
    rfl
  obtain ⟨lineage, -, -, -, -, -, -, -, hheld, -, -⟩ := resume_takes_newest h
  exact ⟨plan, r, h, hproof, lineage, hproof ▸ hheld⟩

end Boomerangz.Transfer
