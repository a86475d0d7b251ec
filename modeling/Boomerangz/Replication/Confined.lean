import Boomerangz.Replication.Service

/-! # What a peer can reach

What passes is within the allowed roots, which stay where they are when none is inside another, except for the
origins that a receive may name.
-/

namespace Boomerangz.Replication

open Zfs

/-- The snapshots that a receive's overrides give as the origin of what it creates. -/
def Operation.origins : Operation → List Text
  | .receive options => (options.set.filter (·.1 = "origin".toList)).map Prod.snd
  | _ => []

def Operation.mutates : Operation → List Text
  | .createReceiveParent dataset => [dataset]
  | .abortReceive dataset => [dataset]
  | .destroyDataset dataset _ => [dataset]
  | .renameDataset source dest => [source, dest]
  | .setProperties object _ => [object]
  | .inheritProperty object _ => [object]
  | .destroySnapshot snapshot => [snapshot]
  | .receive options => options.root :: (Operation.receive options).origins
  | _ => []

def Operation.Reveals : Operation → Text → Prop
  | .inspectState dataset recursive, d => d = datasetOf dataset ∨ recursive = true ∧ Within (datasetOf dataset) d
  | _, _ => False

structure Confined (roots : List Text) (operations : List Operation) : Prop where
  mutations : ∀ o ∈ operations, ∀ object ∈ o.mutates, ∃ root ∈ roots, Within root (datasetOf object)
  moved : ∀ source dest, .renameDataset source dest ∈ operations → ∀ root ∈ roots, ¬ Within source root
  created : ∀ dataset, .createReceiveParent dataset ∈ operations → ∀ root ∈ roots, ¬ Within dataset root
  destroyed : ∀ snapshot, .destroySnapshot snapshot ∈ operations → OneSnapshot snapshot
  revealed : ∀ o ∈ operations, ∀ d, o.Reveals d → ∃ root ∈ roots, Within root d

def Unnested (roots : List Text) : Prop := ∀ a ∈ roots, ∀ b ∈ roots, Within a b → a = b

def OriginsWithin (roots : List Text) (requests : List Operation) : Prop :=
  ∀ o ∈ requests, ∀ origin ∈ o.origins, ∃ root ∈ roots, Within root (datasetOf origin)

/-! ## What passes -/

namespace Server

variable {s : Server} {o : Operation}

def passes (s : Server) : Operation → Bool
  | .listDatasets => true
  | .inspectDatasetIdentity dataset => s.related dataset
  | .inspectState dataset _ => s.inside dataset
  | .checkPermissions dataset _ => s.related dataset
  | .createReceiveParent dataset => s.inside dataset && !s.allowedRoots.contains dataset
  | .abortReceive dataset => s.inside dataset && s.abilities.reseeds
  | .destroyDataset dataset _ => s.inside dataset && s.abilities.reseeds
  | .renameDataset source dest => s.allowedRoots.any (fun root =>
      source != root && dest != root && insideScope root source && insideScope root dest) && s.abilities.replaces
  | .setProperties object _ => s.inside object
  | .inheritProperty object _ => s.inside object
  | .destroySnapshot snapshot => validateSnapshot snapshot && s.inside snapshot
  | .receive options => s.inside options.root && (receiveArguments options).isOk

theorem guarded_toOption (check : Bool) (message : String) :
    (guarded check message o).toOption = if check then some o else none := by
  unfold guarded
  split <;> rfl

theorem optional_toOption (able : Bool) (message : String) (result : Except Refusal Operation) :
    (optional able message result).toOption = if able then result.toOption else none := by
  unfold optional
  split
  · cases able <;> rfl
  · cases able <;> rfl

theorem handle_toOption : (s.handle o).toOption = if s.passes o then some o else none := by
  cases o with
  | listDatasets => rfl
  | inspectDatasetIdentity _ => exact guarded_toOption _ _
  | inspectState _ _ => exact guarded_toOption _ _
  | checkPermissions _ _ => exact guarded_toOption _ _
  | createReceiveParent _ => exact guarded_toOption _ _
  | abortReceive _ | destroyDataset _ _ =>
    rw [handle, passes, optional_toOption, guarded_toOption]
    cases s.abilities.reseeds <;> simp
  | renameDataset _ _ =>
    rw [handle, renameDataset, passes, optional_toOption, guarded_toOption]
    cases s.abilities.replaces <;> simp
  | setProperties _ _ => exact guarded_toOption _ _
  | inheritProperty _ _ => exact guarded_toOption _ _
  | destroySnapshot snapshot =>
    rw [handle, destroySnapshot, passes]
    cases validateSnapshot snapshot with
    | false => rfl
    | true => exact guarded_toOption _ _
  | receive options =>
    rw [handle, receive, passes]
    cases s.inside options.root with
    | false => rfl
    | true => cases receiveArguments options <;> rfl

theorem mem_passed {requests : List Operation} : o ∈ s.passed requests ↔ o ∈ requests ∧ s.passes o = true := by
  unfold passed
  simp only [handle_toOption, List.mem_filterMap]
  constructor
  · rintro ⟨r, hr, heq⟩
    split at heq
    · cases heq
      exact ⟨hr, by assumption⟩
    · cases heq
  · rintro ⟨hr, hpasses⟩
    exact ⟨o, hr, if_pos hpasses⟩

theorem exists_within_of_inside {object : Text} (h : s.inside object = true) :
    ∃ root ∈ s.allowedRoots, Within root (datasetOf object) := by
  obtain ⟨root, hroot, hinside⟩ := List.any_eq_true.mp h
  exact ⟨root, hroot, inside_iff_within.mp hinside⟩

theorem inside_of_mutates {object : Text} (h : s.passes o = true) (hm : object ∈ o.mutates) :
    s.inside object = true ∨ object ∈ o.origins := by
  cases o with
  | receive _ =>
    rcases List.mem_cons.mp hm with rfl | horigin
    · exact .inl (Bool.and_eq_true_iff.mp h).1
    · exact .inr horigin
  | createReceiveParent _ | abortReceive _ | destroyDataset _ _ =>
    cases List.mem_singleton.mp hm
    exact .inl (Bool.and_eq_true_iff.mp h).1
  | renameDataset source dest =>
    left
    obtain ⟨hany, -⟩ := Bool.and_eq_true_iff.mp h
    obtain ⟨root, hroot, hboth⟩ := List.any_eq_true.mp hany
    simp only [Bool.and_eq_true] at hboth
    rw [Server.inside, List.any_eq_true]
    rcases List.mem_pair.mp hm with rfl | rfl
    · exact ⟨root, hroot, hboth.1.2⟩
    · exact ⟨root, hroot, hboth.2⟩
  | setProperties _ _ | inheritProperty _ _ =>
    cases List.mem_singleton.mp hm
    exact .inl h
  | destroySnapshot _ =>
    cases List.mem_singleton.mp hm
    exact .inl (Bool.and_eq_true_iff.mp h).2
  | _ => cases hm

end Server

/-! ## The roots -/

section Roots

variable {s : Server} (hvalid : ∀ root ∈ s.allowedRoots, validateDataset root = true)
include hvalid

theorem eq_root_of_between {root d : Text} (hun : Unnested s.allowedRoots) (hroot : root ∈ s.allowedRoots)
    (hinside : insideScope root d = true) {other : Text} (hother : other ∈ s.allowedRoots) (habove : Within d other) :
    d = root := by
  have hwithin := inside_iff_within.mp hinside
  rw [datasetOf_of_within (hvalid other hother) habove] at hwithin
  rw [← hun root hroot other hother (hwithin.trans habove)] at habove
  exact habove.antisymm hwithin

theorem confined_of_unnested (hun : Unnested s.allowedRoots) {requests : List Operation}
    (horigins : OriginsWithin s.allowedRoots requests) : Confined s.allowedRoots (s.passed requests) := by
  refine ⟨fun o ho object hm => ?_, fun source dest ho other hother habove => ?_,
    fun dataset ho other hother habove => ?_, fun snapshot ho => ?_, fun o ho d hd => ?_⟩
  · obtain ⟨hrequest, hpasses⟩ := Server.mem_passed.mp ho
    rcases Server.inside_of_mutates hpasses hm with hinside | horigin
    · exact Server.exists_within_of_inside hinside
    · exact horigins o hrequest object horigin
  · obtain ⟨hany, -⟩ := Bool.and_eq_true_iff.mp (Server.mem_passed.mp ho).2
    obtain ⟨root, hroot, hboth⟩ := List.any_eq_true.mp hany
    simp only [Bool.and_eq_true, bne_iff_ne] at hboth
    exact hboth.1.1.1 (eq_root_of_between hvalid hun hroot hboth.1.2 hother habove)
  · obtain ⟨hinside, hnot⟩ := Bool.and_eq_true_iff.mp (Server.mem_passed.mp ho).2
    obtain ⟨root, hroot, hinside⟩ := List.any_eq_true.mp hinside
    rw [Bool.not_eq_true', List.contains_eq_mem, decide_eq_false_iff_not] at hnot
    exact hnot (eq_root_of_between hvalid hun hroot hinside hother habove ▸ hroot)
  · exact oneSnapshot_of_valid (Bool.and_eq_true_iff.mp (Server.mem_passed.mp ho).2).1
  · cases o with
    | inspectState dataset recursive =>
      obtain ⟨root, hroot, hwithin⟩ := Server.exists_within_of_inside (Server.mem_passed.mp ho).2
      refine ⟨root, hroot, ?_⟩
      rcases hd with rfl | ⟨-, hd⟩
      · exact hwithin
      · exact hwithin.trans hd
    | _ => exact hd.elim

end Roots

theorem datasetOf_append {a b : Text} (ha : datasetOf a = a) (hb : ∀ x ∈ b, x ≠ '@' ∧ x ≠ '#') :
    datasetOf (a ++ b) = a ++ b := by
  unfold datasetOf at ha ⊢
  rw [List.takeWhile_eq_self_iff] at ha ⊢
  intro x hx
  rcases List.mem_append.mp hx with hx | hx
  · exact ha x hx
  · simpa using hb x hx

theorem not_confined_of_nested {s : Server} (hvalid : ∀ root ∈ s.allowedRoots, validateDataset root = true)
    (hreplaces : s.abilities.replaces = true) {a b : Text} (ha : a ∈ s.allowedRoots) (hb : b ∈ s.allowedRoots)
    (hab : Within a b) (hne : a ≠ b) :
    ¬ Confined s.allowedRoots (s.passed [.renameDataset b (a ++ ['/', 'x'])]) := by
  intro hconfined
  have hslash : a ++ ['/', 'x'] = a ++ ['/'] ++ ['x'] := by simp
  have hpasses : s.passes (.renameDataset b (a ++ ['/', 'x'])) = true := by
    refine Bool.and_eq_true_iff.mpr ⟨List.any_eq_true.mpr ⟨a, ha, ?_⟩, hreplaces⟩
    simp only [Bool.and_eq_true, bne_iff_ne]
    refine ⟨⟨⟨hne.symm, by simp⟩, inside_iff_within.mpr ?_⟩, inside_iff_within.mpr ?_⟩
    · rwa [datasetOf_of_valid (hvalid b hb)]
    · rw [datasetOf_append (datasetOf_of_valid (hvalid a ha)) (by simp), within_iff, hslash]
      exact .inr (List.isPrefixOf_iff_prefix.mpr (List.prefix_append _ _))
  have hpassed := Server.mem_passed.mpr ⟨List.mem_singleton.mpr rfl, hpasses⟩
  exact hconfined.moved b _ hpassed b hb (Within.refl b)

/-! ## The direct executor -/

section Direct

variable {root : Text} {abilities : Abilities} {o : Operation}

theorem ssh_guarded_toOption (check : Bool) (message : String) :
    (Ssh.guarded check message o).toOption = if check then some o else none := by
  unfold Ssh.guarded
  split <;> rfl

theorem ssh_optional_toOption (able : Bool) (message : String) (result : Except String Operation) :
    (Ssh.optional able message result).toOption = if able then result.toOption else none := by
  unfold Ssh.optional
  split
  · cases able <;> rfl
  · cases able <;> rfl

theorem inside_single (object : Text) : Server.inside ⟨[root], abilities⟩ object = insideScope root object := by
  simp [Server.inside]

theorem related_single (dataset : Text) : Server.related ⟨[root], abilities⟩ dataset = related root dataset := by
  simp [Server.related]

theorem receiveArguments_valid {options : ReceiveOptions} {args : List Text} (h : receiveArguments options = .ok args) :
    validateDataset options.root = true := by
  unfold receiveArguments at h
  split at h
  · cases h
  · rename_i hvalid
    simpa using hvalid

theorem ssh_handle_eq : (Ssh.handle root abilities o).toOption = (Server.handle ⟨[root], abilities⟩ o).toOption := by
  rw [Server.handle_toOption]
  cases o with
  | listDatasets => rfl
  | inspectDatasetIdentity _ => rw [Ssh.handle, ssh_guarded_toOption, Server.passes, related_single]
  | inspectState _ _ => rw [Ssh.handle, ssh_guarded_toOption, Server.passes, inside_single]
  | checkPermissions _ _ => rw [Ssh.handle, ssh_guarded_toOption, Server.passes, related_single]
  | createReceiveParent dataset =>
    rw [Ssh.handle, Ssh.createReceiveParent, ssh_guarded_toOption, Server.passes, inside_single, Bool.not_or,
      Bool.not_not]
    simp
  | abortReceive _ | destroyDataset _ _ =>
    rw [Ssh.handle, ssh_optional_toOption, ssh_guarded_toOption, Server.passes, inside_single]
    cases abilities.reseeds <;> simp
  | renameDataset source dest =>
    rw [Ssh.handle, Ssh.renameDataset, ssh_optional_toOption, ssh_guarded_toOption, Server.passes]
    cases abilities.replaces with
    | false => simp
    | true =>
      simp only [List.any_cons, List.any_nil, Bool.or_false, Bool.and_true, if_true, Bool.not_or, Bool.not_not, bne]
      cases insideScope root source <;> cases insideScope root dest <;> cases source == root <;>
        cases dest == root <;> rfl
  | setProperties _ _ => rw [Ssh.handle, ssh_guarded_toOption, Server.passes, inside_single]
  | inheritProperty _ _ => rw [Ssh.handle, ssh_guarded_toOption, Server.passes, inside_single]
  | destroySnapshot snapshot =>
    rw [Ssh.handle, Ssh.destroySnapshot, Server.passes, inside_single]
    cases validateSnapshot snapshot with
    | false => rfl
    | true => exact ssh_guarded_toOption _ _
  | receive options =>
    rw [Ssh.handle, Ssh.receive, Server.passes, inside_single]
    cases hargs : receiveArguments options with
    | error message =>
      simp only [Except.isOk, Except.toBool, Bool.and_false, Bool.false_eq_true, if_false]
      split <;> rfl
    | ok args =>
      -- a root that has receive arguments has no snapshot or bookmark in it
      unfold insideScope
      rw [datasetOf_of_valid (receiveArguments_valid hargs)]
      simp only [Except.isOk, Except.toBool, Bool.and_true, bne]
      cases options.root == root <;> cases below root options.root <;> rfl

end Direct

/-! ## The service -/

section Roots

variable {roots : List Text} {abilities : Abilities} {s : Server} (h : newServerForRoots roots abilities = .ok s)

include h

theorem newServerForRoots_eq_ok :
    roots.all validateDataset = true ∧ s = ⟨Lists.compact (roots.mergeSort textLe), abilities⟩ := by
  unfold newServerForRoots at h
  split at h
  · cases h
  · split at h
    · rename_i hall
      exact ⟨hall, (Except.ok.inj h).symm⟩
    · cases h

theorem mem_roots (root : Text) : root ∈ s.allowedRoots ↔ root ∈ roots := by
  obtain ⟨-, rfl⟩ := newServerForRoots_eq_ok h
  rw [Lists.mem_compact, List.mem_mergeSort]

theorem roots_valid : ∀ root ∈ roots, validateDataset root = true :=
  List.all_eq_true.mp (newServerForRoots_eq_ok h).1

end Roots

theorem Confined.congr {roots roots' : List Text} {operations : List Operation} (hroots : ∀ root, root ∈ roots ↔ root ∈ roots')
    (h : Confined roots operations) : Confined roots' operations := by
  have hexists : ∀ {P : Text → Prop}, (∃ root ∈ roots, P root) → ∃ root ∈ roots', P root :=
    fun ⟨root, hroot, hp⟩ => ⟨root, (hroots root).mp hroot, hp⟩
  refine ⟨fun o ho object hm => hexists (h.mutations o ho object hm), fun a b ho root hroot => ?_,
    fun a ho root hroot => ?_, h.destroyed, fun o ho d hd => hexists (h.revealed o ho d hd)⟩
  · exact h.moved a b ho root ((hroots root).mpr hroot)
  · exact h.created a ho root ((hroots root).mpr hroot)

/-- Peers whose receives name no origin outside the roots are confined to them, whatever else they send, exactly when no
root is inside another, and for one root both endpoints admit the same. -/
theorem peer_confined (roots : List Text) (abilities : Abilities) (s : Server)
    (h : newServerForRoots roots abilities = .ok s) :
    (Unnested roots → ∀ requests, OriginsWithin roots requests → Confined roots (s.passed requests)) ∧
      (abilities.replaces = true → (∀ requests, OriginsWithin roots requests → Confined roots (s.passed requests)) →
        Unnested roots) ∧
      ∀ root, roots = [root] →
        (∀ o, (Ssh.handle root abilities o).toOption = (s.handle o).toOption) ∧
          ∀ datasets, Ssh.listed root datasets = s.listed datasets := by
  have hroots := mem_roots h
  have hvalid : ∀ root ∈ s.allowedRoots, validateDataset root = true :=
    fun root hroot => roots_valid h root ((hroots root).mp hroot)
  refine ⟨fun hun requests horigins => ?_, fun hreplaces hall a ha b hb hab => ?_, ?_⟩
  · refine (confined_of_unnested hvalid ?_ fun o ho origin horigin => ?_).congr hroots
    · exact fun a ha b hb => hun a ((hroots a).mp ha) b ((hroots b).mp hb)
    · obtain ⟨root, hroot, hwithin⟩ := horigins o ho origin horigin
      exact ⟨root, (hroots root).mpr hroot, hwithin⟩
  · by_contra hne
    have habilities : s.abilities = abilities := by rw [(newServerForRoots_eq_ok h).2]
    rw [← habilities] at hreplaces
    refine not_confined_of_nested hvalid hreplaces ((hroots a).mpr ha) ((hroots b).mpr hb) hab hne ?_
    refine (hall _ fun o ho origin horigin => ?_).congr fun root => (hroots root).symm
    cases List.mem_singleton.mp ho
    cases horigin
  · rintro root rfl
    have hs : s = ⟨[root], abilities⟩ := by
      rw [(newServerForRoots_eq_ok h).2]
      simp [Lists.compact]
    rw [hs]
    refine ⟨fun o => ssh_handle_eq, fun datasets => ?_⟩
    exact List.filter_congr fun dataset _ => (related_single dataset).symm

def harbours : List Text := ["tank/a".toList, "tank/b".toList]

def serving (roots : List Text) : Server := ⟨Lists.compact (roots.mergeSort textLe), ⟨true, true⟩⟩

def clone (origin : String) : Operation :=
  .receive ⟨"tank/a/x".toList, .exact, [("origin".toList, origin.toList)], []⟩

theorem harbours_confined : newServerForRoots harbours ⟨true, true⟩ = .ok (serving harbours) ∧
    Confined harbours ((serving harbours).passed
      [.renameDataset "tank/a/x".toList "tank/a/y".toList, .inheritProperty "tank".toList [], clone "tank/b@s"]) := by
  have hserver : newServerForRoots harbours ⟨true, true⟩ = .ok (serving harbours) := rfl
  refine ⟨hserver, (peer_confined _ _ _ hserver).1 ?_ _ ?_⟩
  · unfold Unnested Within
    decide
  · unfold OriginsWithin Within
    decide

def nested : List Text := ["tank".toList, "tank/a".toList]

/-- A root inside another is moved by a rename within the outer one, and a receive names any snapshot as its origin. -/
theorem peer_outside :
    (newServerForRoots nested ⟨true, true⟩ = .ok (serving nested) ∧
      ¬ Confined nested ((serving nested).passed [.renameDataset "tank/a".toList "tank/x".toList])) ∧
    newServerForRoots harbours ⟨true, true⟩ = .ok (serving harbours) ∧
      ¬ Confined harbours ((serving harbours).passed [clone "tank/c@s"]) := by
  have hnested : newServerForRoots nested ⟨true, true⟩ = .ok (serving nested) := rfl
  have hharbours : newServerForRoots harbours ⟨true, true⟩ = .ok (serving harbours) := rfl
  refine ⟨⟨hnested, fun hconfined => ?_⟩, hharbours, fun hconfined => ?_⟩
  · have hroots := mem_roots hnested
    refine not_confined_of_nested (fun root hroot => roots_valid hnested root ((hroots root).mp hroot)) rfl
      ((hroots "tank".toList).mpr (by decide)) ((hroots "tank/a".toList).mpr (by decide)) ?_ (by decide)
      (hconfined.congr fun root => (hroots root).symm)
    unfold Within
    decide
  · have hinside : (serving harbours).inside "tank/a/x".toList = true :=
      List.any_eq_true.mpr ⟨"tank/a".toList, (mem_roots hharbours _).mpr (by decide), by decide⟩
    have hpassed : clone "tank/c@s" ∈ (serving harbours).passed [clone "tank/c@s"] :=
      Server.mem_passed.mpr ⟨List.mem_singleton.mpr rfl, Bool.and_eq_true_iff.mpr ⟨hinside, rfl⟩⟩
    have houtside : ¬ ∃ root ∈ harbours, Within root (datasetOf "tank/c@s".toList) := by
      unfold Within
      decide
    exact houtside (hconfined.mutations _ hpassed _ (by decide))

end Boomerangz.Replication
