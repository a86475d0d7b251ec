import Boomerangz.Discovery.Scan
import Boomerangz.Transfer.Request

/-! # Colliding replicas

No replica may lie in or around another one or an actor root of this host.
-/

namespace Boomerangz.Discovery

open Check Lists Zfs Policy Transfer

/-- Where a remote receives. `space` is its `Namespace`. -/
structure RemoteDestination where
  space : String
  root : Dataset
  canonical : String
deriving DecidableEq, Repr

/-- Where one actor root's replica for one target lands. -/
structure Replica where
  root : Dataset
  target : Target
  space : String
  mapped : Dataset
  established : Bool
deriving DecidableEq, Repr

structure BlockedTarget where
  target : Target
  reason : String
deriving DecidableEq, Repr

def overlaps (a b : Dataset) : Bool := inside a b || inside b a

/-! ## Replicas -/

/-- The targets of the bindings stored locally on a root. -/
def storedBindings (e : Entry) : List TargetID :=
  e.stored.filterMap fun row =>
    match row.name, row.value with
    | .target id, .binding record =>
      if row.dataset = .dataset e.dataset ∧ row.source = .sourceLocal ∧ record.poolGUID ≠ 0 ∧ record.anchorGUID ≠ 0 then
        some id
      else none
    | _, _ => none

variable (remotes : String → Option RemoteDestination) (entries : Dataset → Entry)

def destinationOf : Target → Option RemoteDestination
  | .localRoot root => some ⟨"local", root, canonicalLocalTarget root⟩
  | .remote name => remotes name

def replicaOf (d : Dataset) (t : Target) : Option Replica :=
  match destinationOf remotes t with
  | none => none
  | some destination =>
    match mapReceiveDataset d destination.root (entries d).policy.discard with
    | .error _ => none
    | .ok mapped => some ⟨d, t, destination.space, mapped,
        destination.canonical != "" && (storedBindings (entries d)).contains ⟨destination.canonical⟩⟩

def isActorRoot (d : Dataset) : Bool := (entries d).coveredBy == [] && (entries d).policy.enabled

def streamPolicies (d : Dataset) : List Effective :=
  (entries d).policy ::
    if (entries d).policy.send.replicate then []
    else ((entries d).members.filter (· != d)).map fun m => (entries m).policy

def plannedTargets (d : Dataset) : List Target :=
  let locals := (streamPolicies entries d).flatMap Effective.locals
  let names := (streamPolicies entries d).flatMap Effective.remote
  (locals.dedup.insertionSort fun a b => textLe (path a) (path b)).map .localRoot ++
    (names.dedup.insertionSort fun a b => textLe a.toList b.toList).map .remote

def actorRoots (names : List Dataset) : List Dataset := names.filter (isActorRoot entries)

def plannedReplicas (names : List Dataset) : List Replica :=
  (actorRoots entries names).flatMap fun d => (plannedTargets entries d).filterMap (replicaOf remotes entries d)

/-! ## Blocking -/

abbrev Blocks := Dataset → List BlockedTarget

def block (m : Blocks) (r : Replica) (reason : String) : Blocks :=
  if (m r.root).any (·.target == r.target) then m
  else Function.update m r.root (m r.root ++ [⟨r.target, reason⟩])

def targetText : Target → String
  | .localRoot root => "local destination " ++ pathText root
  | .remote name => "remote " ++ name

def describe (r other : Replica) : String :=
  targetText r.target ++ " places this root's replica at " ++ pathText r.mapped ++ ", which overlaps " ++
    pathText other.root ++ "'s replica " ++ pathText other.mapped ++ " from " ++ targetText other.target

def collide (a : Replica) (m : Blocks) (b : Replica) : Blocks :=
  if a.space != b.space || !overlaps a.mapped b.mapped then m
  else
    let m := if !b.established || a.established then block m b (describe b a) else m
    if !a.established || b.established then block m a (describe a b) else m

def collideRoot (a : Replica) (m : Blocks) (root : Dataset) : Blocks :=
  if overlaps a.mapped root then
    block m a (targetText a.target ++ " places this root's replica at " ++ pathText a.mapped ++
      ", which overlaps actor root " ++ pathText root ++ " on this host")
  else m

/-- The loop of `markCollisions`. -/
def collisions (roots : List Dataset) : List Replica → Blocks → Blocks
  | [], m => m
  | a :: rest, m =>
    let m := rest.foldl (collide a) m
    collisions roots rest (if a.space = "local" then roots.foldl (collideRoot a) m else m)

/-- `markCollisions`, on entries that have no blocked target yet. -/
def markCollisions (names : List Dataset) : Dataset → Entry :=
  let blocks := collisions (actorRoots entries names) (plannedReplicas remotes entries names) fun _ => []
  fun d => { entries d with blocked := (blocks d).map BlockedTarget.target }

variable {remotes entries}

/-! ## What is planned -/

theorem replicaOf_eq_some {d : Dataset} {t : Target} {r : Replica} (h : replicaOf remotes entries d t = some r) :
    r.root = d ∧ r.target = t ∧ ∃ destination, destinationOf remotes t = some destination ∧
      r.space = destination.space ∧
      mapReceiveDataset d destination.root (entries d).policy.discard = .ok r.mapped := by
  unfold replicaOf at h
  split at h
  · cases h
  · rename_i destination hdestination
    split at h
    · cases h
    · rename_i mapped hmapped
      cases h
      exact ⟨rfl, rfl, destination, hdestination, rfl, hmapped⟩

theorem mem_plannedReplicas {names : List Dataset} {r : Replica} : r ∈ plannedReplicas remotes entries names ↔
    r.root ∈ actorRoots entries names ∧ r.target ∈ plannedTargets entries r.root ∧
      replicaOf remotes entries r.root r.target = some r := by
  simp only [plannedReplicas, List.mem_flatMap, List.mem_filterMap]
  constructor
  · rintro ⟨d, hd, t, ht, hr⟩
    obtain ⟨rfl, rfl, -⟩ := replicaOf_eq_some hr
    exact ⟨hd, ht, hr⟩
  · rintro ⟨hd, ht, hr⟩
    exact ⟨_, hd, _, ht, hr⟩

theorem plannedTargets_nodup (d : Dataset) : (plannedTargets entries d).Nodup := by
  refine List.nodup_append.mpr ⟨?_, ?_, ?_⟩
  · refine List.Nodup.map (fun a b h => Target.localRoot.inj h) ?_
    exact (List.perm_insertionSort _ _).nodup_iff.mpr (List.nodup_dedup _)
  · refine List.Nodup.map (fun a b h => Target.remote.inj h) ?_
    exact (List.perm_insertionSort _ _).nodup_iff.mpr (List.nodup_dedup _)
  · simp only [List.mem_map]
    rintro _ ⟨a, -, rfl⟩ _ ⟨b, -, rfl⟩ h
    cases h

theorem plannedReplicas_nodup {names : List Dataset} (h : names.Nodup) :
    (plannedReplicas remotes entries names).Nodup := by
  refine List.nodup_flatMap.mpr ⟨fun d _ => ?_, ?_⟩
  · refine (plannedTargets_nodup d).filterMap ?_
    intro t t' r hr hr'
    exact (replicaOf_eq_some hr).2.1.symm.trans (replicaOf_eq_some hr').2.1
  · refine (h.filter _).imp fun {d d'} hne r hr hr' => ?_
    obtain ⟨t, -, ht⟩ := List.mem_filterMap.mp hr
    obtain ⟨t', -, ht'⟩ := List.mem_filterMap.mp hr'
    exact hne ((replicaOf_eq_some ht).1.symm.trans (replicaOf_eq_some ht').1)

/-! ## What is blocked -/

def Replica.Same (r r' : Replica) : Prop := r.root = r'.root ∧ r.target = r'.target

def Replica.Loses (r other : Replica) : Prop :=
  r.space = other.space ∧ overlaps r.mapped other.mapped = true ∧ (r.established = false ∨ other.established = true)

def Replica.OnRoot (r : Replica) (roots : List Dataset) : Prop :=
  r.space = "local" ∧ ∃ root ∈ roots, overlaps r.mapped root = true

theorem overlaps_comm (a b : Dataset) : overlaps a b = overlaps b a := Bool.or_comm _ _

def Blocks.has (m : Blocks) (r : Replica) : Prop := r.target ∈ (m r.root).map BlockedTarget.target

section Blocking

variable {m : Blocks} {a r : Replica}

theorem has_block {reason : String} : (block m a reason).has r ↔ m.has r ∨ r.Same a := by
  unfold block Blocks.has Replica.Same
  split
  · rename_i hany
    simp only [List.any_eq_true, beq_iff_eq] at hany
    constructor
    · exact .inl
    · rintro (h | ⟨hroot, htarget⟩)
      · exact h
      · rw [hroot, htarget]
        obtain ⟨b, hb, hbt⟩ := hany
        exact List.mem_map.mpr ⟨b, hb, hbt⟩
  · by_cases hroot : r.root = a.root
    · simp [hroot]
    · simp [hroot]

theorem has_collide {b : Replica} :
    (collide a m b).has r ↔ m.has r ∨ (r.Same b ∧ b.Loses a) ∨ (r.Same a ∧ a.Loses b) := by
  unfold collide
  by_cases happart : a.space = b.space ∧ overlaps a.mapped b.mapped = true
  · obtain ⟨hspace, hover⟩ := happart
    have hb : b.Loses a ↔ b.established = false ∨ a.established = true := by
      simp [Replica.Loses, hspace, overlaps_comm b.mapped, hover]
    have ha : a.Loses b ↔ a.established = false ∨ b.established = true := by
      simp [Replica.Loses, hspace, hover]
    rw [ha, hb]
    cases hea : a.established <;> cases heb : b.established <;> simp [hspace, hover, has_block, or_assoc]
  · have hskip : (a.space != b.space || !overlaps a.mapped b.mapped) = true := by
      by_cases hspace : a.space = b.space
      · simpa [hspace] using fun h => happart ⟨hspace, h⟩
      · simp [hspace]
    have ha : ¬ a.Loses b := fun h => happart ⟨h.1, h.2.1⟩
    have hb : ¬ b.Loses a := fun h => happart ⟨h.1.symm, overlaps_comm b.mapped a.mapped ▸ h.2.1⟩
    simp [hskip, ha, hb]

theorem has_foldl_collide {rest : List Replica} : (rest.foldl (collide a) m).has r ↔
    m.has r ∨ ∃ b ∈ rest, (r.Same b ∧ b.Loses a) ∨ (r.Same a ∧ a.Loses b) := by
  induction rest generalizing m with
  | nil => simp
  | cons b rest ih =>
    rw [List.foldl_cons, ih, has_collide]
    simp [or_assoc]

theorem has_foldl_collideRoot {roots : List Dataset} : (roots.foldl (collideRoot a) m).has r ↔
    m.has r ∨ r.Same a ∧ ∃ root ∈ roots, overlaps a.mapped root = true := by
  induction roots generalizing m with
  | nil => simp
  | cons root roots ih =>
    rw [List.foldl_cons, ih, collideRoot]
    by_cases hover : overlaps a.mapped root = true
    · simp [hover, has_block, or_assoc, or_iff_left_of_imp]
      tauto
    · simp [hover]

theorem has_collisions {roots : List Dataset} {replicas : List Replica} :
    (collisions roots replicas m).has r ↔ m.has r ∨
      (∃ a b, [a, b].Sublist replicas ∧ (r.Same b ∧ b.Loses a ∨ r.Same a ∧ a.Loses b)) ∨
      ∃ a ∈ replicas, r.Same a ∧ a.OnRoot roots := by
  induction replicas generalizing m with
  | nil => simp [collisions]
  | cons a rest ih =>
    have hfirst : (if a.space = "local" then roots.foldl (collideRoot a) (rest.foldl (collide a) m)
        else rest.foldl (collide a) m).has r ↔
        m.has r ∨ (∃ b ∈ rest, r.Same b ∧ b.Loses a ∨ r.Same a ∧ a.Loses b) ∨ r.Same a ∧ a.OnRoot roots := by
      by_cases hlocal : a.space = "local"
      · rw [if_pos hlocal, has_foldl_collideRoot, has_foldl_collide, or_assoc]
        simp [Replica.OnRoot, hlocal]
      · rw [if_neg hlocal, has_foldl_collide]
        simp [Replica.OnRoot, hlocal]
    have hpairs : ∀ x y, [x, y].Sublist (a :: rest) ↔ [x, y].Sublist rest ∨ x = a ∧ y ∈ rest := by
      intro x y
      simp [List.sublist_cons_iff]
    rw [collisions, ih, hfirst]
    simp only [hpairs, List.mem_cons]
    constructor
    · rintro ((h | ⟨b, hb, h⟩ | h) | ⟨x, y, hxy, h⟩ | ⟨x, hx, h⟩)
      · exact .inl h
      · exact .inr (.inl ⟨a, b, .inr ⟨rfl, hb⟩, h⟩)
      · exact .inr (.inr ⟨a, .inl rfl, h⟩)
      · exact .inr (.inl ⟨x, y, .inl hxy, h⟩)
      · exact .inr (.inr ⟨x, .inr hx, h⟩)
    · rintro (h | ⟨x, y, hxy | ⟨rfl, hy⟩, h⟩ | ⟨x, rfl | hx, h⟩)
      · exact .inl (.inl h)
      · exact .inr (.inl ⟨x, y, hxy, h⟩)
      · exact .inl (.inr (.inl ⟨y, hy, h⟩))
      · exact .inl (.inr (.inr h))
      · exact .inr (.inr ⟨x, hx, h⟩)

end Blocking

section Marked

variable {names : List Dataset} {r other : Replica}

theorem mem_blocked (hnames : names.Nodup) (hr : r ∈ plannedReplicas remotes entries names) :
    r.target ∈ (markCollisions remotes entries names r.root).blocked ↔
      (∃ other ∈ plannedReplicas remotes entries names, other ≠ r ∧ r.Loses other) ∨
        r.OnRoot (actorRoots entries names) := by
  have hnodup : (plannedReplicas remotes entries names).Nodup := plannedReplicas_nodup hnames
  have hunique : ∀ r' ∈ plannedReplicas remotes entries names, r.Same r' → r' = r := by
    intro r' hr' hsame
    have h := (mem_plannedReplicas.mp hr).2.2
    have h' := (mem_plannedReplicas.mp hr').2.2
    rw [← hsame.1, ← hsame.2, h] at h'
    exact (Option.some.inj h').symm
  have hhas : r.target ∈ (markCollisions remotes entries names r.root).blocked ↔
      (collisions (actorRoots entries names) (plannedReplicas remotes entries names) fun _ => []).has r := Iff.rfl
  rw [hhas, has_collisions]
  constructor
  · rintro (h | ⟨a, b, hab, h⟩ | ⟨a, ha, hsame, hroot⟩)
    · simp [Blocks.has] at h
    · have hne : a ≠ b := by simpa using hnodup.sublist hab
      obtain ⟨hsame, hlose⟩ | ⟨hsame, hlose⟩ := h
      · obtain rfl := hunique b (hab.subset (by simp)) hsame
        exact .inl ⟨a, hab.subset (by simp), hne, hlose⟩
      · obtain rfl := hunique a (hab.subset (by simp)) hsame
        exact .inl ⟨b, hab.subset (by simp), hne.symm, hlose⟩
    · obtain rfl := hunique a ha hsame
      exact .inr hroot
  · rintro (⟨other, hother, hne, hlose⟩ | hroot)
    · obtain h | h := pair_sublist hne hother hr
      · exact .inr (.inl ⟨other, r, h, .inl ⟨⟨rfl, rfl⟩, hlose⟩⟩)
      · exact .inr (.inl ⟨r, other, h, .inr ⟨⟨rfl, rfl⟩, hlose⟩⟩)
    · exact .inr (.inr ⟨r, hr, ⟨rfl, rfl⟩, hroot⟩)

end Marked

/-! ## Where streams go -/

theorem overlaps_of_holds {a x y : Dataset} (ha : a ≠ []) (hax : a <+: x) (h : overlaps x y = true) :
    overlaps a y = true := by
  have hx : x ≠ [] := by
    rintro rfl
    exact ha (List.prefix_nil.mp hax)
  simp only [overlaps, Bool.or_eq_true] at h ⊢
  by_cases hy : y = []
  · subst hy
    obtain h | h := h
    · simp [inside, hx] at h
    · rw [inside_iff hx] at h
      exact absurd (List.prefix_nil.mp h) hx
  · rw [inside_iff hy, inside_iff hx] at h
    rw [inside_iff hy, inside_iff ha]
    obtain h | h := h
    · exact List.prefix_or_prefix_of_prefix h hax
    · exact .inr (hax.trans h)

variable (remotes entries) in
/-- A stream of the root for the target is received at `dest`. -/
def ReceivesAt (d : Dataset) (t : Target) (dest : Dataset) : Prop :=
  ∃ (request : Request) (destination : RemoteDestination) (stream mapped : Dataset),
    destinationOf remotes t = some destination ∧ request.source = d ∧
      request.destinationRoot = destination.root ∧ request.policy.discard = (entries d).policy.discard ∧
      request.mapped stream = .ok (mapped, dest)

theorem ReceivesAt.replica {d : Dataset} {t : Target} {dest : Dataset} (h : ReceivesAt remotes entries d t dest) :
    ∃ r, replicaOf remotes entries d t = some r ∧ r.mapped ≠ [] ∧ r.mapped <+: dest := by
  obtain ⟨request, destination, stream, mapped, hdestination, rfl, hroot, hdiscard, hmapped⟩ := h
  simp only [Request.mapped, ok_iff] at hmapped
  obtain ⟨m, hm, -, hout⟩ := hmapped
  cases hout
  rw [hroot, hdiscard] at hm
  refine ⟨_, by rw [replicaOf, hdestination]; simp only [hm]; rfl, ne_nil_of_validDataset (mapReceiveDataset_valid hm), ?_⟩
  exact List.prefix_append ..

def IsPair (entries : Dataset → Entry) (names : List Dataset) (d : Dataset) (t : Target) : Prop :=
  d ∈ actorRoots entries names ∧ t ∈ plannedTargets entries d

structure Collisionless (remotes : String → Option RemoteDestination) (entries : Dataset → Entry)
    (names : List Dataset) (marked : Dataset → Entry) : Prop where
  apart : ∀ d t d' t', IsPair entries names d t → IsPair entries names d' t' → (d, t) ≠ (d', t') →
    t ∉ (marked d).blocked → t' ∉ (marked d').blocked →
    (destinationOf remotes t).map RemoteDestination.space = (destinationOf remotes t').map RemoteDestination.space →
    ∀ x y, ReceivesAt remotes entries d t x → ReceivesAt remotes entries d' t' y → overlaps x y = false
  offRoots : ∀ d dest, IsPair entries names d (.localRoot dest) → .localRoot dest ∉ (marked d).blocked →
    ∀ x, ReceivesAt remotes entries d (.localRoot dest) x → ∀ root ∈ actorRoots entries names, overlaps x root = false
  established : ∀ d t r, IsPair entries names d t → replicaOf remotes entries d t = some r → r.established = true →
    t ∈ (marked d).blocked →
    (∃ d' t' r', IsPair entries names d' t' ∧ (d', t') ≠ (d, t) ∧ replicaOf remotes entries d' t' = some r' ∧
      r'.established = true ∧ r'.space = r.space ∧ overlaps r.mapped r'.mapped = true) ∨
    r.OnRoot (actorRoots entries names)

theorem IsPair.planned {names : List Dataset} {d : Dataset} {t : Target} {r : Replica}
    (h : IsPair entries names d t) (hr : replicaOf remotes entries d t = some r) :
    r ∈ plannedReplicas remotes entries names := by
  obtain ⟨rfl, rfl, -⟩ := replicaOf_eq_some hr
  exact mem_plannedReplicas.mpr ⟨h.1, h.2, hr⟩

theorem loses_or_loses {r r' : Replica} (hspace : r.space = r'.space) (hover : overlaps r.mapped r'.mapped = true) :
    r.Loses r' ∨ r'.Loses r := by
  cases hr : r.established with
  | false => exact .inl ⟨hspace, hover, .inl hr⟩
  | true => exact .inr ⟨hspace.symm, overlaps_comm r'.mapped r.mapped ▸ hover, .inr hr⟩

theorem collisions_prevented (remotes : String → Option RemoteDestination) (entries : Dataset → Entry)
    (names : List Dataset) (hnames : names.Nodup) :
    Collisionless remotes entries names (markCollisions remotes entries names) where
  apart d t d' t' hp hp' hne hfree hfree' hspace x y hx hy := by
    obtain ⟨r, hr, hr0, hrx⟩ := hx.replica
    obtain ⟨r', hr', hr0', hry⟩ := hy.replica
    obtain ⟨rfl, rfl, dest, hdest, hs, -⟩ := replicaOf_eq_some hr
    obtain ⟨rfl, rfl, dest', hdest', hs', -⟩ := replicaOf_eq_some hr'
    have hsame : r.space = r'.space := by
      rw [hdest, hdest'] at hspace
      rw [hs, hs']
      exact Option.some.inj hspace
    have hrr : r ≠ r' := by
      rintro rfl
      exact hne rfl
    by_contra hover
    rw [Bool.not_eq_false] at hover
    have hmapped : overlaps r.mapped r'.mapped = true := by
      have h := overlaps_of_holds hr0 hrx hover
      rw [overlaps_comm] at h ⊢
      exact overlaps_of_holds hr0' hry h
    obtain hlose | hlose := loses_or_loses hsame hmapped
    · exact hfree ((mem_blocked hnames (hp.planned hr)).mpr (.inl ⟨r', hp'.planned hr', hrr.symm, hlose⟩))
    · exact hfree' ((mem_blocked hnames (hp'.planned hr')).mpr (.inl ⟨r, hp.planned hr, hrr, hlose⟩))
  offRoots d dest hp hfree x hx root hroot := by
    obtain ⟨r, hr, hr0, hrx⟩ := hx.replica
    obtain ⟨rfl, htarget, dest', hdest, hs, -⟩ := replicaOf_eq_some hr
    cases hdest
    by_contra hover
    rw [Bool.not_eq_false] at hover
    refine hfree (htarget ▸ (mem_blocked hnames (hp.planned hr)).mpr (.inr ⟨hs, root, hroot, ?_⟩))
    exact overlaps_of_holds hr0 hrx hover
  established d t r hp hr hestablished hblocked := by
    have hplanned := hp.planned hr
    obtain ⟨rfl, rfl, -⟩ := replicaOf_eq_some hr
    obtain ⟨other, hother, hne, hlose⟩ | hroot := (mem_blocked hnames hplanned).mp hblocked
    · obtain ⟨hroots, htargets, hreplica⟩ := mem_plannedReplicas.mp hother
      refine .inl ⟨other.root, other.target, other, ⟨hroots, htargets⟩, ?_, hreplica,
        hlose.2.2.resolve_left (by simp [hestablished]), hlose.1.symm, hlose.2.1⟩
      intro hpair
      obtain ⟨hroot, htarget⟩ := Prod.mk.inj hpair
      rw [hroot, htarget, hr] at hreplica
      exact hne (Option.some.inj hreplica).symm
    · exact .inr hroot

/-! ### Two roots with one destination -/

def fleetGrid : Grid := .windows 2 40

def fleetEntries (discard : Discard) (d : Dataset) : Entry :=
  { Entry.zero with
    dataset := d
    policy := { Effective.plain fleetGrid [["hangar"]] [] with discard := discard } }

def fleetRequest (d : Dataset) : Request :=
  ⟨d, ["hangar"], none, (fleetEntries .all d).policy, [], .localHost, "", ""⟩

/-- By their own names they go apart, member by member. -/
theorem fleet_apart :
    overlaps ["hangar", "fleet", "crew"] ["hangar", "navy"] = false :=
  (collisions_prevented (fun _ => none) (fleetEntries .all) [["fleet"], ["navy"]] (by decide)).apart ["fleet"]
    (.localRoot ["hangar"]) ["navy"] (.localRoot ["hangar"]) (by unfold IsPair; decide) (by unfold IsPair; decide)
    (by decide) (by decide) (by decide) rfl _ _
    ⟨fleetRequest ["fleet"], ⟨"local", ["hangar"], "local:hangar"⟩, ["fleet", "crew"], ["hangar", "fleet"],
      by decide, rfl, rfl, rfl, by decide⟩
    ⟨fleetRequest ["navy"], ⟨"local", ["hangar"], "local:hangar"⟩, ["navy"], ["hangar", "navy"],
      by decide, rfl, rfl, rfl, by decide⟩

/-- Both at the destination itself they are both blocked. -/
example : (markCollisions (fun _ => none) (fleetEntries .off) [["fleet"], ["navy"]] ["navy"]).blocked =
    [.localRoot ["hangar"]] := by decide

end Boomerangz.Discovery
