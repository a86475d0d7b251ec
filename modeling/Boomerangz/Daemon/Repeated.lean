import Boomerangz.Daemon.Replica
import Boomerangz.Lifecycle.Stable

/-! # Repeating a destination prune

A stopped prune has destroyed a part of what it would have; pruning again destroys the rest.
-/

namespace Boomerangz.Daemon

open Zfs Policy Lifecycle Transfer

section Repeated

variable {s : State} {d : Dataset} {lineage : ID} {grid : Grid} {gridAt : Dataset → Option Grid} {removed : List Name}
  {ds : List Decision} {n : Name}

theorem marked_iff (hg : gridAt d = some grid) (hds : planPrune d lineage grid (snapshotsIn s d) = .ok ds) :
    Marked lineage gridAt s d n ↔ n ∈ marks ds := by
  simp only [Marked, hg, Option.some.injEq, exists_and_left, exists_eq_left', hds, Except.ok.injEq, marks, List.mem_map,
    List.mem_filter]
  constructor
  · rintro ⟨dec, hdec, hn, hdestroy⟩
    exact ⟨dec, ⟨hdec, hdestroy⟩, hn⟩
  · rintro ⟨dec, ⟨hdec, hdestroy⟩, hn⟩
    exact ⟨dec, hdec, hn, hdestroy⟩

theorem remaining_here (s : State) (d : Dataset) (removed : List Name) : remaining (snapshotsIn s d) removed =
    remaining (snapshotsIn s d) (removed.filter (·.base == d)) := by
  refine List.filter_congr fun x hx => ?_
  obtain ⟨c, hc⟩ := (snapshotsIn_inScope s d).1 x hx
  simp [hc]

/-- What was destroyed decides nothing about the rest. -/
theorem marked_without (hd : validDataset d = true) (hgrid : ∀ grid, gridAt d = some grid → 0 < grid.cadence)
    (hremoved : ∀ n ∈ removed, n.base = d → Marked lineage gridAt s d n) :
    Marked lineage gridAt (s.without removed) d n ↔ Marked lineage gridAt s d n ∧ n ∉ removed := by
  cases hg : gridAt d with
  | none => simp [Marked, hg]
  | some grid =>
    obtain ⟨ds, hds⟩ := planPrune_snapshotsIn s lineage hd (hgrid grid hg)
    have hhere : removed.filter (·.base == d) ⊆ marks ds := by
      intro n hn
      obtain ⟨hn, hbase⟩ := List.mem_filter.mp hn
      exact (marked_iff hg hds).mp (hremoved n hn (beq_iff_eq.mp hbase))
    obtain ⟨ds', hds', hmem, -⟩ := planPrune_remaining hds hhere
    rw [← remaining_here, ← snapshotsIn_without] at hds'
    rw [marked_iff hg hds', marked_iff hg hds, hmem]
    refine and_congr_right fun hn => not_congr ?_
    obtain ⟨c, rfl⟩ := ((marked_iff hg hds).mpr hn).base
    simp

theorem without_without (s : State) (ns ns' : List Name) : (s.without ns).without ns' = s.without (ns ++ ns') := by
  simp only [State.without, List.filter_filter, List.contains_append, Bool.not_or, Bool.and_comm]

end Repeated

/-- A destination prune destroys exactly what the plans for the replicas beneath the mapped dataset mark, which are owned
snapshots without dependencies. Stopped after any of them and run again, it ends in the same state. -/
theorem destination_prune_repeats (dest state : State) (root mapped : Dataset) (p : Effective) (members : List Member)
    (lineage : ID) (hstate : dest.inspect mapped (p.send.replicate || !members.isEmpty) = .ok state)
    (hgrid : ∀ d grid, gridFor root p members d = some grid → 0 < grid.cadence) :
    ∃ ns, (∀ n, n ∈ ns ↔ ∃ x ∈ state.objects.filter Object.isDataset,
        Marked lineage (fun d => gridFor root p members (root ++ d.drop mapped.length)) state x.name.base n) ∧
      (∀ n ∈ ns, inside n.base mapped = true ∧
        ∃ o ∈ state.objects, o.name = n ∧ (candidate lineage (snapshotOf state o)).exposed) ∧
      ∀ removed ⊆ ns, pruneDestination (dest.without removed) root mapped p members lineage = (dest.without ns, none) := by
  obtain ⟨ns, -, hns⟩ := pruneDestination_eq hstate hgrid
  refine ⟨ns, hns, fun n hn => ?_, fun removed hremoved => ?_⟩
  · obtain ⟨x, -, grid, ds, -, hds, dec, hdec, rfl, hdestroy⟩ := (hns n).mp hn
    obtain ⟨y, hy, hname, -⟩ := planPrune_about hds hdec
    have hpruned := (planPrune_destroys_iff hds hy).mp ⟨dec, hdec, hname, hdestroy⟩
    obtain ⟨o, ho, -, -, rfl⟩ := mem_snapshotsIn.mp hy
    refine ⟨?_, o, ho, hname.symm, hpruned.1⟩
    obtain ⟨-, rfl⟩ := State.inspect_eq_ok.mp hstate
    have hin := (State.mem_restrict_objects.mp ho).2
    rw [hname, snapshotOf]
    split at hin
    · exact hin
    · rw [beq_iff_eq.mp hin]
      exact inside_self mapped
  · have hsnapshots : Snapshots removed := by
      intro n hn
      obtain ⟨x, -, hx⟩ := (hns n).mp (hremoved hn)
      obtain ⟨c, rfl⟩ := hx.base
      rfl
    obtain ⟨left, hrun, hleft⟩ := pruneDestination_eq (inspect_without hsnapshots hstate) hgrid
    rw [hrun, without_without]
    refine congrArg (·, none) (without_congr fun n => ?_)
    have hdatasets : (state.without removed).objects.filter Object.isDataset = state.objects.filter Object.isDataset :=
      datasetObjects_without hsnapshots
    have hagain : n ∈ left ↔ n ∈ ns ∧ n ∉ removed := by
      rw [hleft, hns, hdatasets, ← exists_and_right]
      refine exists_congr fun x => ?_
      rw [and_assoc]
      refine and_congr_right fun _ => marked_without x.valid (fun grid => hgrid _ grid) fun n hn hbase => ?_
      obtain ⟨y, -, hy⟩ := (hns n).mp (hremoved hn)
      obtain ⟨c, rfl⟩ := hy.base
      exact hbase ▸ hy
    rw [List.mem_append, hagain]
    by_cases hn : n ∈ removed
    · simp [hn, hremoved hn]
    · simp [hn]

/-- Stopped when it had destroyed the newer of two replicas, the prune is run again. -/
theorem steppedBack_repeats : ∃ ns, newerReplica.name ∈ ns ∧
    pruneDestination (steppedBack.without [newerReplica.name]) ["tank", "data"] ["tank", "data"]
      (.plain (.windows 1 40) [] []) [] replicaLineage = (steppedBack.without ns, none) := by
  obtain ⟨ns, -, -, hagain⟩ := destination_prune_repeats steppedBack _ ["tank", "data"] ["tank", "data"]
    (.plain (.windows 1 40) [] []) [] replicaLineage rfl (by
      intro d grid hg
      obtain ⟨-, rfl⟩ : d = ["tank", "data"] ∧ Grid.windows 1 40 = grid := by simpa [gridFor, Effective.plain] using hg
      decide)
  have hnewer : newerReplica.name ∈ ns := by
    by_contra hno
    have hkept : (steppedBack.without ns, (none : Option Error)).1.hasObject newerReplica.name = true :=
      State.hasObject_without.mpr ⟨by decide, hno⟩
    rw [← hagain [] (List.nil_subset _), State.without_nil] at hkept
    exact absurd hkept (by decide)
  exact ⟨ns, hnewer, hagain _ (by simpa using hnewer)⟩

end Boomerangz.Daemon
