import Boomerangz.Daemon.Transfers

/-! # From a recorded target to its endpoint

A target is recorded by a digest, so the endpoint is found by hashing the targets that are known.
-/

namespace Boomerangz.Daemon

open Check Lists Zfs Policy Discovery Transfer

/-! ## Configured targets -/

inductive ClientKind where
  | ssh
  | native
deriving DecidableEq, Repr

def ClientKind.transport : ClientKind → Transport
  | ssh => .ssh
  | native => .native

/-- A `remoteClient` with the destination root of its setting. -/
structure Client where
  kind : ClientKind
  canonical : String
  root : Dataset
  fails : Option String
deriving DecidableEq, Repr

abbrev Clients := List (String × Client)

def canonicalOf (clients : Clients) : Target → Option String
  | .localRoot root => some (canonicalLocalTarget root)
  | .remote name => (clients.lookup name).map Client.canonical

def notConfigured : Error := .plain "recorded target is not configured"

def localRequest (source : Dataset) (effective : Effective) (root : Dataset) : Request where
  source := source
  destinationRoot := root
  snapshot := none
  policy := effective
  members := []
  transport := .localHost
  remoteName := ""
  canonicalTarget := ""

def remoteRequest (source : Dataset) (effective : Effective) (name : String) (client : Client) :
    Except Error Request :=
  match client.fails with
  | some text => .error (.message "%w" [.text text])
  | none => .ok {
      source := source
      destinationRoot := client.root
      snapshot := none
      policy := effective
      members := []
      transport := client.kind.transport
      remoteName := name
      canonicalTarget := client.canonical }

/-! ## Looking a target up -/

/-- The targets of the policy it is given, local ones first. -/
def retirementEndpoint (clients : Clients) (source : Dataset) (effective : Effective) (id : TargetID) :
    Except Error Request :=
  match effective.locals.find? (fun root => ⟨canonicalLocalTarget root⟩ == id) with
  | some root => .ok (localRequest source effective root)
  | none =>
    match effective.remote.findSome? (fun name => (clients.lookup name).bind fun client =>
        if ⟨client.canonical⟩ = id then some (name, client) else none) with
    | some (name, client) => remoteRequest source effective name client
    | none => .error notConfigured

/-- The policy of a source and the local targets of it and its members. -/
def sourcePolicy (scan : Generation) (source : Dataset) : Except Error (Effective × List Dataset) :=
  match scan.inspect source with
  | none => .error (.plain "source policy inspection is incomplete")
  | some entry => do
    require entry.inspected (.plain "source policy inspection is incomplete")
    let locals := entry.policy.locals ++ entry.members.flatMap fun name =>
      ((scan.inspect name).map fun member => member.policy.locals).getD []
    return (entry.policy, compact (locals.insertionSort fun a b => textLe (path a) (path b)))

/-- The endpoint `CheckTarget` verifies. -/
def checkTargetEndpoint (clients : Clients) (scan : Generation) (source : Dataset) (id : TargetID) :
    Except Error Request := do
  let (effective, locals) ← sourcePolicy scan source
  match clients.find? (fun c => ⟨c.2.canonical⟩ == id) with
  | some (name, client) => remoteRequest source effective name client
  | none =>
    match locals.find? (fun root => ⟨canonicalLocalTarget root⟩ == id) with
    | some root => return localRequest source effective root
    | none => throw notConfigured

def Resolved (found : Except Error Request) (canonical : String) : Prop :=
  match found with
  | .ok request => request.canonical = canonical
  | .error e => e ≠ notConfigured

section Resolve

variable {clients : Clients} {source root : Dataset} {effective : Effective} {canonical name : String} {client : Client}

theorem remoteRequest_resolved : Resolved (remoteRequest source effective name client) client.canonical := by
  unfold remoteRequest Resolved
  split
  · rename_i request h
    split at h
    · cases h
    · cases h
      cases client.kind <;> simp [Request.canonical, ClientKind.transport]
  · rename_i e h
    split at h
    · obtain rfl := Except.error.inj h
      simp [notConfigured, Error.plain]
    · cases h

theorem retirementEndpoint_resolved_iff :
    Resolved (retirementEndpoint clients source effective ⟨canonical⟩) canonical ↔
      ∃ target ∈ targets effective, canonicalOf clients target = some canonical := by
  unfold retirementEndpoint
  cases hlocal : effective.locals.find? (fun root => (⟨canonicalLocalTarget root⟩ : TargetID) == ⟨canonical⟩) with
  | some root =>
    have hroot : canonicalLocalTarget root = canonical := by simpa using List.find?_some hlocal
    refine iff_of_true hroot ⟨.localRoot root, ?_, by rw [canonicalOf, hroot]⟩
    simpa [targets] using List.mem_of_find?_eq_some hlocal
  | none =>
    have hnone : ∀ root ∈ effective.locals, canonicalLocalTarget root ≠ canonical := by
      simpa using List.find?_eq_none.mp hlocal
    cases hremote : effective.remote.findSome? (fun name => (clients.lookup name).bind fun client =>
        if (⟨client.canonical⟩ : TargetID) = ⟨canonical⟩ then some (name, client) else none) with
    | some found =>
      obtain ⟨name, client⟩ := found
      obtain ⟨name', hname, hfound⟩ := List.exists_of_findSome?_eq_some hremote
      simp only [Option.bind_eq_some_iff, Option.ite_none_right_eq_some, TargetID.mk.injEq, Option.some.injEq,
        Prod.mk.injEq] at hfound
      obtain ⟨client', hlookup, rfl, rfl, rfl⟩ := hfound
      exact iff_of_true remoteRequest_resolved ⟨.remote name', by simp [targets, hname], by simp [canonicalOf, hlookup]⟩
    | none =>
      refine iff_of_false (by simp [Resolved]) ?_
      rintro ⟨target, htarget, hcanonical⟩
      simp only [targets, List.mem_append, List.mem_map] at htarget
      rcases htarget with ⟨root, hroot, rfl⟩ | ⟨name, hname, rfl⟩
      · exact hnone root hroot (Option.some.inj hcanonical)
      · obtain ⟨client, hlookup, hclient⟩ := Option.map_eq_some_iff.mp hcanonical
        have := List.findSome?_eq_none_iff.mp hremote name hname
        simp [hlookup, hclient] at this

theorem mem_of_lookup {α β : Type} [BEq α] [LawfulBEq α] {l : List (α × β)} {a : α} {b : β}
    (h : l.lookup a = some b) : (a, b) ∈ l := by
  obtain ⟨l₁, l₂, rfl, -⟩ := List.lookup_eq_some_iff.mp h
  simp

theorem sourcePolicy_eq_ok {scan : Generation} {entry : Entry} (hentry : scan.inspect source = some entry)
    (hinspected : entry.inspected = true) :
    ∃ locals, sourcePolicy scan source = .ok (entry.policy, locals) ∧ entry.policy.locals ⊆ locals := by
  simp only [sourcePolicy, hentry, ok_iff, hinspected, true_and, Prod.mk.injEq, exists_eq_left']
  intro root hroot
  simp [hroot]

theorem checkTarget_resolved {scan : Generation} {entry : Entry} (hentry : scan.inspect source = some entry)
    (hinspected : entry.inspected = true) {target : Target} (htarget : target ∈ targets entry.policy)
    (hcanonical : canonicalOf clients target = some canonical) :
    Resolved (checkTargetEndpoint clients scan source ⟨canonical⟩) canonical := by
  obtain ⟨locals, hpolicy, hlocals⟩ := sourcePolicy_eq_ok hentry hinspected
  have hlookup : checkTargetEndpoint clients scan source ⟨canonical⟩ =
      match clients.find? (fun c => (⟨c.2.canonical⟩ : TargetID) == ⟨canonical⟩) with
      | some (name, client) => remoteRequest source entry.policy name client
      | none =>
        match locals.find? (fun root => (⟨canonicalLocalTarget root⟩ : TargetID) == ⟨canonical⟩) with
        | some root => .ok (localRequest source entry.policy root)
        | none => .error notConfigured := by
    rw [checkTargetEndpoint, hpolicy]
    rfl
  rw [hlookup]
  cases hremote : clients.find? (fun c => (⟨c.2.canonical⟩ : TargetID) == ⟨canonical⟩) with
  | some found =>
    have hclient : found.2.canonical = canonical := by simpa using List.find?_some hremote
    exact hclient ▸ remoteRequest_resolved
  | none =>
    have hnone : ∀ c ∈ clients, c.2.canonical ≠ canonical := by
      intro c hc
      simpa using List.find?_eq_none.mp hremote c hc
    cases target with
    | remote name =>
      obtain ⟨client, hclient, rfl⟩ := Option.map_eq_some_iff.mp hcanonical
      exact absurd rfl (hnone _ (mem_of_lookup hclient))
    | localRoot root =>
      cases hcanonical
      have hroot : root ∈ locals := hlocals (by simpa [targets] using htarget)
      cases hfound : locals.find? (fun x => (⟨canonicalLocalTarget x⟩ : TargetID) == ⟨canonicalLocalTarget root⟩) with
      | some x =>
        have hx : canonicalLocalTarget x = canonicalLocalTarget root := by simpa using List.find?_some hfound
        exact hx
      | none => simpa using List.find?_eq_none.mp hfound root hroot

end Resolve

/-- The prune of a destination and the retirement of its proofs find the endpoint of a target that
some stream sends to exactly when the root's own policy has a target with that identity. -/
theorem target_resolved_iff (clients : Clients) (generation : Option Generation) (scan : Generation) (root : Dataset)
    (effective : Effective) (target : Target) (canonical : String) (entry : Entry)
    (_ : (transferStreams generation root effective target).isSome = true)
    (_ : canonicalOf clients target = some canonical) (hentry : scan.inspect root = some entry)
    (hinspected : entry.inspected = true) (hpolicy : entry.policy = effective) :
    (Resolved (retirementEndpoint clients root effective ⟨canonical⟩) canonical ∧
      Resolved (checkTargetEndpoint clients scan root ⟨canonical⟩) canonical) ↔
      ∃ own ∈ targets effective, canonicalOf clients own = some canonical := by
  rw [retirementEndpoint_resolved_iff]
  refine and_iff_left_of_imp ?_
  rintro ⟨own, hown, hcanonical⟩
  exact checkTarget_resolved hentry hinspected (hpolicy ▸ hown) hcanonical

/-! A root that sends nowhere itself, with a member that sends to a local target. -/

def lakeGrid : Grid := .windows 7 1440

def lakeEntry (d : Dataset) (covered : Dataset) (members locals : List Dataset) : Entry where
  dataset := d
  inspected := true
  coveredBy := covered
  member := covered != []
  members := members
  policy := .plain lakeGrid locals []
  stored := []
  blocked := []
  rest := ""

def lakeScan (own theirs : List Dataset) : Generation where
  entries := [lakeEntry ["lake"] [] [["lake"], ["lake", "m"]] own, lakeEntry ["lake", "m"] ["lake"] [] theirs]
  distinct := by simp [lakeEntry]

/-- The member's transfers have a target that neither the prune nor the retirement finds again. -/
theorem member_target_lost :
    (transferStreams (some (lakeScan [] [["vault"]])) ["lake"] (.plain lakeGrid [] []) (.localRoot ["vault"])).isSome = true ∧
    canonicalOf [] (.localRoot ["vault"]) = some "local:vault" ∧
    retirementEndpoint [] ["lake"] (.plain lakeGrid [] []) ⟨"local:vault"⟩ = .error notConfigured := by
  decide

/-- A target that the root uses too is found. -/
theorem shared_target_resolved :
    Resolved (retirementEndpoint [] ["lake"] (.plain lakeGrid [["vault"]] []) ⟨"local:vault"⟩) "local:vault" ∧
      Resolved (checkTargetEndpoint [] (lakeScan [["vault"]] [["vault"]]) ["lake"] ⟨"local:vault"⟩) "local:vault" :=
  (target_resolved_iff [] (some (lakeScan [["vault"]] [["vault"]])) (lakeScan [["vault"]] [["vault"]]) ["lake"]
    (.plain lakeGrid [["vault"]] []) (.localRoot ["vault"]) "local:vault"
    (lakeEntry ["lake"] [] [["lake"], ["lake", "m"]] [["vault"]]) (by decide) (by decide) (by decide) rfl rfl).mpr
    ⟨.localRoot ["vault"], by decide, by decide⟩

end Boomerangz.Daemon
