import Boomerangz.Lifecycle.Backed
import Boomerangz.Lifecycle.Foreign
import Boomerangz.Lifecycle.Stable

/-! # Several installations at one root -/

namespace Boomerangz.Lifecycle

open Check Transition Zfs Policy

def runWrites (s : State) : List Write → State
  | [] => s
  | w :: ws =>
    match w.run s with
    | .error _ => s
    | .ok s' => runWrites s' ws

/-- Operations of any installations, each cut off after some of its writes. -/
def installations [Digests] (root : Dataset) (start : State) : System State (ID × Operation × Nat) where
  init := (· = start)
  step s | (installation, op, cut) => some (runWrites s ((op.writes s installation root).take cut))

def Operation.isRetire : Operation → Bool
  | retire _ _ _ _ => true
  | _ => false

/-- The write leaves the markers of roots as they are. -/
def Write.spares : Write → Prop
  | command c => isReferenceCommand c = true ∨ (∃ n, n.isSnapshot = true ∧ c = .destroySnapshot n) ∨
      ∃ n, (∃ v, c = .setProperty n .inactive v) ∨ c = .inheritProperty n .inactive
  | authority _ _ _ => False
  | snapshot _ _ _ => True

section Tenure

variable {s s' : State} {installation owner lineage : ID} {root : Dataset} {w : Write} {ws : List Write}

theorem filter_inactive (n : Name) (l : List Property) :
    (l.filter fun r => !(r.dataset == n && r.name == .inactive)).filter (isAuthority root) =
      l.filter (isAuthority root) := by
  rw [List.filter_filter]
  refine List.filter_congr fun r _ => ?_
  cases hr : r.name == .inactive with
  | false => simp
  | true => simp [isAuthority, beq_iff_eq.mp hr]

theorem run_authority (hw : w.spares) (h : w.run s = .ok s') :
    rootAuthority s' root installation = rootAuthority s root installation := by
  cases w with
  | command c =>
    rcases hw with hw | ⟨n, hn, rfl⟩ | ⟨n, ⟨v, rfl⟩ | rfl⟩
    · exact (run_alike hw h).rootAuthority root installation
    · obtain ⟨-, -, -, rfl⟩ := State.destroySnapshot_eq_ok.mp h
      rw [← s.without_nil, State.without_erase, State.without_nil]
      exact rootAuthority_without (by simpa [Snapshots] using hn)
    · obtain ⟨-, rfl⟩ := State.setProperty_eq_ok.mp h
      refine rootAuthority_congr installation ?_ rfl
      rw [List.filter_append, filter_inactive]
      simp [isAuthority]
    · obtain ⟨-, rfl⟩ := State.inheritProperty_eq_ok.mp h
      exact rootAuthority_congr installation (filter_inactive ..) rfl
  | authority => exact hw.elim
  | snapshot members m births =>
    refine foldlM_invariant (I := fun t => rootAuthority t root installation = rootAuthority s root installation) h rfl
      fun d _ t t' ht hone => ?_
    unfold State.snapshotOne at hone
    split at hone
    · cases hone
    · split at hone
      · cases hone
        rw [← ht]
        refine rootAuthority_congr installation ?_ rfl
        simp [State.insert, isAuthority, Metadata.values]
      · cases hone

theorem runWrites_authority (h : ∀ w ∈ ws, w.spares) :
    rootAuthority (runWrites s ws) root installation = rootAuthority s root installation := by
  induction ws generalizing s with
  | nil => rfl
  | cons w ws ih =>
    unfold runWrites
    split
    · rfl
    · next s' hrun => rw [ih fun x hx => h x (List.mem_cons_of_mem _ hx), run_authority (h w List.mem_cons_self) hrun]

theorem prune_spares (p : Effective) (r : Retention) (hw : w ∈ (prune s installation root p r).writes) : w.spares := by
  rcases hplan : prunePlan s installation root p r with e | ⟨t, lineage, ds⟩
  · simp only [prune, hplan] at hw
    cases hw
  · obtain ⟨-, -, hds⟩ := prunePlan_eq_ok.mp hplan
    rw [prune_marks hplan] at hw
    obtain ⟨n, hn, rfl⟩ := List.mem_map.mp hw
    exact .inr (.inl ⟨n, marks_snapshots hds (List.Subset.refl _) n hn, rfl⟩)

theorem createPlan_not_fresh {now : Time} {ids : Fresh} {x : Metadata × Bool}
    (h : rootAuthority s root owner = .ok lineage) (hx : createPlan s installation root now ids = .ok x) :
    x.2 = false := by
  simp only [createPlan, bind_eq_ok] at hx
  obtain ⟨-, -, stored, hstored, hx⟩ := hx
  rw [storedLineage_of_authority h] at hstored
  cases hstored
  simp only [ok_iff] at hx
  obtain ⟨-, -, -, -, -, rfl⟩ := hx
  rfl

theorem create_spares {members : List Dataset} {now : Time} {p : Effective} {ids : Fresh}
    {births : Dataset → State.Birth} (h : rootAuthority s root owner = .ok lineage)
    (hw : w ∈ (createSnapshot s installation root members now p ids births).writes) : w.spares := by
  unfold createSnapshot at hw
  simp only at hw
  split at hw
  · cases hw
  · rename_i t m fresh hplanned
    simp only [ok_iff] at hplanned
    obtain ⟨-, -, -, -, -, t, ht, x, hx, heq⟩ := hplanned
    cases heq
    obtain ⟨-, rfl⟩ := State.inspect_eq_ok.mp ht
    have hfresh := createPlan_not_fresh ((rootAuthority_restrict owner (by simp [inside_self])).trans h) hx
    simp only [hfresh, Bool.false_eq_true, if_false, Sent.write] at hw
    split at hw <;> obtain rfl := List.mem_singleton.mp hw <;> trivial

theorem reconcile_spares {active : Bool} {now : Time} {grace : Int} {c : Command}
    (hc : c ∈ reconcileCommands s installation root active now grace) : (Write.command c).spares := by
  unfold reconcileCommands at hc
  split at hc
  · cases hc
  · rw [Option.mem_toList] at hc
    unfold InactivePlan.command at hc
    split at hc
    · cases hc
      exact .inr (.inr ⟨_, .inl ⟨_, rfl⟩⟩)
    · cases hc
      exact .inr (.inr ⟨_, .inr rfl⟩)
    · cases hc

theorem owner_unique (h : rootAuthority s root owner = .ok lineage) {lineage' : ID}
    (h' : Owned s installation root lineage') : installation = owner := by
  have howner := h'.ownerRow.symm.trans (owned_of_authority h).ownerRow
  simpa using howner

theorem operation_spares [Digests] (h : rootAuthority s root owner = .ok lineage) (op : Operation)
    (hretire : installation = owner → op.isRetire = false) (hw : w ∈ op.writes s installation root) : w.spares := by
  cases op with
  | createSnapshot members now p ids births => exact create_spares h hw
  | prune p r => exact prune_spares p r hw
  | reference op =>
    obtain ⟨c, hc, rfl⟩ := List.mem_map.mp hw
    cases hplan : op.plan s installation root with
    | error e => simp [hplan, Except.toOption] at hc
    | ok cs => exact .inl (op.footprint hplan (by simpa [hplan, Except.toOption] using hc)).1
  | reconcileInactive active now grace =>
    obtain ⟨c, hc, rfl⟩ := List.mem_map.mp hw
    exact reconcile_spares hc
  | retire recursive now grace safety =>
    -- only the owner has anything to retire
    have hnone := retire_refused (fun l ho => absurd (hretire (owner_unique h ho)) (by simp [Operation.isRetire]))
      recursive now grace safety
    simp [Operation.writes, hnone] at hw

end Tenure

/-- Whatever installations do to a root, in any order and cut off anywhere, it stays its owner's under the same lineage
until its owner retires it. -/
theorem root_keeps_owner [Digests] {root : Dataset} {owner lineage : ID} {start s : State}
    (hstart : rootAuthority start root owner = .ok lineage)
    (h : Reach (installations root start) (fun _ a => a.1 = owner → a.2.1.isRetire = false) s) :
    rootAuthority s root owner = .ok lineage ∧
      ∀ installation lineage', rootAuthority s root installation = .ok lineage' → installation = owner := by
  have hkept : rootAuthority s root owner = .ok lineage := by
    refine h.invariant (I := fun s => rootAuthority s root owner = .ok lineage) ?_ ?_
    · rintro s rfl
      exact hstart
    · rintro s ⟨installation, op, cut⟩ s' hs hok hstep
      cases hstep
      exact (runWrites_authority fun w hw => operation_spares hs op hok (List.mem_of_mem_take hw)).trans hs
  exact ⟨hkept, fun _ _ hother => owner_unique hkept (owned_of_authority hother)⟩

section Sample

attribute [local instance] symbolicDigests

def sampleRelease : Operation := .reference (.releaseReference sampleProof)

/-- Another installation asks for the release in vain, and the owner's is cut off. -/
theorem protectedSubtree_keeps_owner : ∃ s, run (installations ["tank"] protectedSubtree)
      [(⟨8, 8⟩, sampleRelease, 3), (⟨9, 9⟩, sampleRelease, 1)] protectedSubtree = some s ∧ s.holds.length = 1 ∧
    rootAuthority s ["tank"] ⟨9, 9⟩ = .ok ⟨1, 1⟩ :=
  ⟨_, rfl, by decide, (root_keeps_owner rfl (.step (a := (⟨9, 9⟩, sampleRelease, 1))
    (.step (a := (⟨8, 8⟩, sampleRelease, 3)) (.init rfl) (fun _ => rfl) rfl) (fun _ => rfl) rfl)).1⟩

end Sample

end Boomerangz.Lifecycle
