import Boomerangz.Control.Credentials

/-! # Pairing records and credentials

When the accepted credentials are those of the unrevoked pairing records, and which calls leave them so.
-/

open Transition

namespace Boomerangz.Control

/-- Every credential that is accepted belongs to a record that is not revoked, and none to one that is. -/
structure Agree (s : Stores) : Prop where
  tokens : ∀ id secret scope now, s.authorize id secret scope now = true →
    ∃ p ∈ s.pairings, p.tokenID = some id ∧ p.revoked = false
  clients : ∀ fingerprint, s.authorizeManagedClient fingerprint = true →
    ∃ c ∈ s.clients, c.fingerprint = fingerprint ∧ ∃ p ∈ s.pairings, p.clientID = some c.id ∧ p.revoked = false
  revoked : ∀ p ∈ s.pairings, p.revoked = true →
    (∀ id, p.tokenID = some id → ∀ secret scope now, s.authorize id secret scope now = false) ∧
      ∀ c ∈ s.clients, p.clientID = some c.id → s.authorizeManagedClient c.fingerprint = false

structure Drawn (s : Stores) : Prop where
  tokens : (s.tokens.map TokenRecord.id).Nodup
  token : ∀ t ∈ s.tokens, t.id < s.next ∧ t.scopes ≠ []
  clients : (s.clients.map ManagedClientRecord.id).Nodup
  client : ∀ c ∈ s.clients, c.id < s.next ∧ c.fingerprint = c.id + 3
  pairings : (s.pairings.map PairingRecord.id).Nodup
  pairing : ∀ p ∈ s.pairings, p.id < s.next ∧ (∀ id, p.tokenID = some id → id = p.id + 1) ∧
    ∀ id, p.clientID = some id → id = p.id

structure Matched (s : Stores) : Prop where
  tokens : ∀ t ∈ s.tokens, ∃ p ∈ s.pairings, p.tokenID = some t.id ∧ p.revoked = false
  clients : ∀ c ∈ s.clients, c.revoked = false → ∃ p ∈ s.pairings, p.clientID = some c.id ∧ p.revoked = false

section SetFirst

variable {α : Type} {p : α → Bool} {f : α → α} {l m : List α}

theorem setFirst_append (h : ∀ a ∈ l, p a = false) : setFirst p f (l ++ m) = l ++ setFirst p f m := by
  induction l with
  | nil => rfl
  | cons a l ih =>
    rw [List.cons_append, setFirst, if_neg (by simp [h a]), ih fun a ha => h a (by simp [ha])]
    rfl

theorem setFirst_eq_map {key : α → Nat} {k : Nat} (h : (l.map key).Nodup) :
    setFirst (key · == k) f l = l.map fun a => if key a = k then f a else a := by
  induction l with
  | nil => rfl
  | cons a l ih =>
    rw [List.map_cons, List.nodup_cons] at h
    rw [setFirst, List.map_cons, ih h.2]
    by_cases hk : key a = k
    · have hrest : (l.map fun b => if key b = k then f b else b) = l := by
        conv_rhs => rw [← List.map_id l]
        refine List.map_congr_left fun b hb => if_neg fun hb' => ?_
        exact h.1 (hk.trans hb'.symm ▸ List.mem_map_of_mem hb)
      simp [hk, hrest]
    · simp [hk]

end SetFirst

section Accepted

variable {s : Stores}

theorem mem_of_authorize {id secret : Nat} {scope : String} {now : Int} (h : s.authorize id secret scope now = true) :
    ∃ t ∈ s.tokens, t.id = id := by
  unfold Stores.authorize at h
  split at h
  · cases h
  · rename_i record hfind
    have hid := List.find?_some hfind
    rw [Bool.and_eq_true, beq_iff_eq] at hid
    exact ⟨record, List.mem_of_find?_eq_some hfind, hid.1⟩

theorem exists_authorize (h : Drawn s) {t : TokenRecord} (ht : t ∈ s.tokens) :
    ∃ secret scope now, s.authorize t.id secret scope now = true := by
  obtain ⟨scope, hscope⟩ := List.exists_mem_of_ne_nil _ (h.token t ht).2
  obtain ⟨now, hnow⟩ : ∃ now : Int, t.expires.all (now < ·) = true := by
    cases t.expires with
    | none => exact ⟨0, rfl⟩
    | some expires => exact ⟨expires - 1, decide_eq_true (by omega)⟩
  have hlive : (t.id == t.id && t.expires.all (now < ·)) = true := by rw [hnow, beq_self_eq_true]; rfl
  refine ⟨t.hash, scope, now, ?_⟩
  unfold Stores.authorize
  split
  · rename_i hnone
    exact absurd hlive (List.find?_eq_none.mp hnone t ht)
  · rename_i record hfind
    have hid := List.find?_some hfind
    rw [Bool.and_eq_true, beq_iff_eq] at hid
    have heq : record = t := List.inj_on_of_nodup_map h.tokens (List.mem_of_find?_eq_some hfind) ht hid.1
    simp [heq, hscope]

theorem authorizeManagedClient_iff {fingerprint : Nat} :
    s.authorizeManagedClient fingerprint = true ↔ ∃ c ∈ s.clients, c.fingerprint = fingerprint ∧ c.revoked = false := by
  unfold Stores.authorizeManagedClient
  simp

theorem eq_of_credential (h : Drawn s) {p p' : PairingRecord} (hp : p ∈ s.pairings) (hp' : p' ∈ s.pairings) {id : Nat}
    (hid : p.tokenID = some id ∧ p'.tokenID = some id ∨ p.clientID = some id ∧ p'.clientID = some id) : p = p' := by
  refine List.inj_on_of_nodup_map h.pairings hp hp' ?_
  rcases hid with ⟨hid, hid'⟩ | ⟨hid, hid'⟩
  · have h1 := (h.pairing p hp).2.1 id hid
    have h2 := (h.pairing p' hp').2.1 id hid'
    omega
  · have h1 := (h.pairing p hp).2.2 id hid
    have h2 := (h.pairing p' hp').2.2 id hid'
    omega

theorem eq_of_fingerprint (h : Drawn s) {c c' : ManagedClientRecord} (hc : c ∈ s.clients) (hc' : c' ∈ s.clients)
    (heq : c.fingerprint = c'.fingerprint) : c = c' := by
  have h1 := (h.client c hc).2
  have h2 := (h.client c' hc').2
  exact List.inj_on_of_nodup_map h.clients hc hc' (by omega)

theorem agree_iff_matched (h : Drawn s) : Agree s ↔ Matched s := by
  constructor
  · intro ha
    constructor
    · intro t ht
      obtain ⟨secret, scope, now, haccepted⟩ := exists_authorize h ht
      exact ha.tokens t.id secret scope now haccepted
    · intro c hc hlive
      obtain ⟨c', hc', heq, p, hp, hid, hrevoked⟩ :=
        ha.clients c.fingerprint (authorizeManagedClient_iff.mpr ⟨c, hc, rfl, hlive⟩)
      rw [eq_of_fingerprint h hc' hc heq] at hid
      exact ⟨p, hp, hid, hrevoked⟩
  · intro hm
    have htoken : ∀ id secret scope now, s.authorize id secret scope now = true →
        ∃ p ∈ s.pairings, p.tokenID = some id ∧ p.revoked = false := by
      intro id secret scope now haccepted
      obtain ⟨t, ht, rfl⟩ := mem_of_authorize haccepted
      exact hm.tokens t ht
    refine ⟨htoken, ?_, fun p hp hrevoked => ⟨fun id hid secret scope now => ?_, fun c hc hid => ?_⟩⟩
    · intro fingerprint haccepted
      obtain ⟨c, hc, hfingerprint, hlive⟩ := authorizeManagedClient_iff.mp haccepted
      exact ⟨c, hc, hfingerprint, hm.clients c hc hlive⟩
    · by_contra haccepted
      obtain ⟨p', hp', hid', hlive⟩ := htoken id secret scope now (by simpa using haccepted)
      rw [eq_of_credential h hp hp' (.inl ⟨hid, hid'⟩), hlive] at hrevoked
      cases hrevoked
    · by_contra haccepted
      obtain ⟨c', hc', heq, hlive⟩ := authorizeManagedClient_iff.mp (by simpa using haccepted)
      obtain ⟨p', hp', hid', hkept⟩ := hm.clients c' hc' hlive
      rw [eq_of_fingerprint h hc' hc heq] at hid'
      rw [eq_of_credential h hp hp' (.inr ⟨hid, hid'⟩), hkept] at hrevoked
      cases hrevoked

end Accepted

/-! ## What creating leaves -/

structure Residue where
  token : Option TokenRecord
  client : Option ManagedClientRecord
  record : Option PairingRecord

def Stores.add (s : Stores) (x : Residue) : Stores :=
  ⟨s.tokens ++ x.token.toList, s.clients ++ x.client.toList, s.pairings ++ x.record.toList, s.next + 4⟩

structure Residue.Of (x : Residue) (s : Stores) : Prop where
  token : ∀ t ∈ x.token, t.id = s.next + 1 ∧ t.scopes ≠ []
  client : ∀ c ∈ x.client, c.id = s.next ∧ c.fingerprint = s.next + 3
  record : ∀ p ∈ x.record, p.id = s.next ∧ p.tokenID = x.token.map TokenRecord.id ∧
    p.clientID = x.client.map ManagedClientRecord.id ∧ p.revoked = false

def Residue.Settled (x : Residue) : Prop :=
  x.record = none → x.token = none ∧ ∀ c ∈ x.client, c.revoked = true

section Create

variable {s : Stores} {x : Residue} {r : Request} {w : CreateWrites} {token : Option TokenRecord}

theorem nodup_map_add {α : Type} {f : α → Nat} {l : List α} {o : Option α} {n : Nat} (h : (l.map f).Nodup)
    (hold : ∀ a ∈ l, f a < n) (hnew : ∀ a ∈ o, n ≤ f a) : ((l ++ o.toList).map f).Nodup := by
  rw [List.map_append]
  refine h.append ?_ ?_
  · cases o <;> simp
  · intro id hid hid'
    obtain ⟨a, ha, rfl⟩ := List.mem_map.mp hid
    obtain ⟨b, hb, heq⟩ := List.mem_map.mp hid'
    have h1 := hold a ha
    have h2 := hnew b (Option.mem_toList.mp hb)
    omega

theorem Drawn.add (h : Drawn s) (hx : x.Of s) : Drawn (s.add x) := by
  have hnext : (s.add x).next = s.next + 4 := rfl
  constructor
  · refine nodup_map_add h.tokens (fun t ht => (h.token t ht).1) fun t ht => ?_
    rw [(hx.token t ht).1]
    omega
  · intro t ht
    rcases List.mem_append.mp ht with ht | ht
    · obtain ⟨hlt, hscopes⟩ := h.token t ht
      exact ⟨by omega, hscopes⟩
    · obtain ⟨hid, hscopes⟩ := hx.token t (Option.mem_toList.mp ht)
      exact ⟨by omega, hscopes⟩
  · refine nodup_map_add h.clients (fun c hc => (h.client c hc).1) fun c hc => ?_
    rw [(hx.client c hc).1]
  · intro c hc
    rcases List.mem_append.mp hc with hc | hc
    · obtain ⟨hlt, hfingerprint⟩ := h.client c hc
      exact ⟨by omega, hfingerprint⟩
    · obtain ⟨hid, hfingerprint⟩ := hx.client c (Option.mem_toList.mp hc)
      exact ⟨by omega, by omega⟩
  · refine nodup_map_add h.pairings (fun p hp => (h.pairing p hp).1) fun p hp => ?_
    rw [(hx.record p hp).1]
  · intro p hp
    rcases List.mem_append.mp hp with hp | hp
    · obtain ⟨hlt, hids⟩ := h.pairing p hp
      exact ⟨by omega, hids⟩
    · obtain ⟨hid, htoken, hclient, -⟩ := hx.record p (Option.mem_toList.mp hp)
      refine ⟨by omega, fun id heq => ?_, fun id heq => ?_⟩
      · rw [htoken] at heq
        obtain ⟨t, ht, rfl⟩ := Option.map_eq_some_iff.mp heq
        rw [(hx.token t ht).1, hid]
      · rw [hclient] at heq
        obtain ⟨c, hc, rfl⟩ := Option.map_eq_some_iff.mp heq
        rw [(hx.client c hc).1, hid]

theorem matched_add (h : Drawn s) (hx : x.Of s) (hm : Matched s) : Matched (s.add x) ↔ x.Settled := by
  constructor
  · intro hm' hnone
    have hpairings : (s.add x).pairings = s.pairings := by rw [Stores.add, hnone]; simp
    constructor
    · -- no older record is of a token that was just drawn
      rw [Option.eq_none_iff_forall_not_mem]
      intro t ht
      obtain ⟨p, hp, hid, -⟩ := hm'.tokens t (List.mem_append_right _ (Option.mem_toList.mpr ht))
      rw [hpairings] at hp
      obtain ⟨hlt, htoken, -⟩ := h.pairing p hp
      have h1 := htoken _ hid
      have h2 := (hx.token t ht).1
      omega
    · intro c hc
      by_contra hlive
      obtain ⟨p, hp, hid, -⟩ := hm'.clients c (List.mem_append_right _ (Option.mem_toList.mpr hc)) (by simpa using hlive)
      rw [hpairings] at hp
      obtain ⟨hlt, -, hclient⟩ := h.pairing p hp
      have h1 := hclient _ hid
      have h2 := (hx.client c hc).1
      omega
  · intro hsettled
    constructor
    · intro t ht
      rcases List.mem_append.mp ht with ht | ht
      · obtain ⟨p, hp, hp'⟩ := hm.tokens t ht
        exact ⟨p, List.mem_append_left _ hp, hp'⟩
      · rw [Option.mem_toList] at ht
        cases hrecord : x.record with
        | none =>
          rw [(hsettled hrecord).1] at ht
          cases ht
        | some p =>
          obtain ⟨-, htoken, -, hlive⟩ := hx.record p hrecord
          rw [Option.mem_def.mp ht] at htoken
          exact ⟨p, List.mem_append_right _ (by simp [hrecord]), htoken, hlive⟩
    · intro c hc hunrevoked
      rcases List.mem_append.mp hc with hc | hc
      · obtain ⟨p, hp, hp'⟩ := hm.clients c hc hunrevoked
        exact ⟨p, List.mem_append_left _ hp, hp'⟩
      · rw [Option.mem_toList] at hc
        cases hrecord : x.record with
        | none =>
          rw [(hsettled hrecord).2 c hc] at hunrevoked
          cases hunrevoked
        | some p =>
          obtain ⟨-, -, hclient, hlive⟩ := hx.record p hrecord
          rw [Option.mem_def.mp hc] at hclient
          exact ⟨p, List.mem_append_right _ (by simp [hrecord]), hclient, hlive⟩

/-! ## Which calls leave nothing behind -/

def CreateWrites.Settle (w : CreateWrites) (token managed : Bool) : Prop :=
  match w.record with
  | .done => True
  | .stopped => token = false ∧ managed = false
  | .failed => (token = true → w.undoToken.takes = true) ∧ (managed = true → w.undoClient = .done)

def Follows (r : Request) (w : CreateWrites) (token : Bool) : Prop :=
  match r.client w with
  | .refused _ => token = false
  | .stopped => token = false
  | .failed _ => token = true → w.undoToken.takes = true
  | .passed managed => w.Settle token managed

def Request.Tidy (r : Request) (w : CreateWrites) : Prop :=
  r.refusal = none →
    if r.wantsToken then
      r.hasStore = true → (∃ scopes, normalizeScopes r.scopes = .ok scopes) →
        w.token ≠ .unsynced ∧ (w.token = .done → Follows r w true)
    else Follows r w false

theorem filter_fresh {l : List TokenRecord} {n : Nat} (h : ∀ t ∈ l, t.id ≠ n) : l.filter (·.id != n) = l := by
  rw [List.filter_eq_self]
  intro t ht
  simpa using h t ht

theorem Drawn.token_fresh (h : Drawn s) (htoken : ∀ t ∈ token, t.id = s.next + 1 ∧ t.scopes ≠ []) :
    ∀ t ∈ s.tokens, ∀ t' ∈ token, t.id ≠ t'.id := by
  intro t ht t' ht'
  have h1 := (h.token t ht).1
  have h2 := (htoken t' ht').1
  omega

theorem undoToken_append (write : TokenWrite) (hfresh : ∀ t ∈ s.tokens, ∀ t' ∈ token, t.id ≠ t'.id) :
    { s with tokens := s.tokens ++ token.toList }.undoToken token write =
      ({ s with tokens := s.tokens ++ (if write.takes then none else token).toList },
        token.isSome && write == .stopped) := by
  cases token with
  | none => simp [Stores.undoToken]
  | some record =>
    have hrest : (s.tokens ++ [record]).filter (·.id != record.id) = s.tokens := by
      rw [List.filter_append, filter_fresh fun t ht => hfresh t ht record rfl]
      simp
    cases write <;> simp [Stores.undoToken, Stores.revokeToken, TokenWrite.takes, hrest]

theorem undoClient_append {client : Option ManagedClientRecord} (write : Write)
    (hfresh : ∀ c ∈ s.clients, ∀ c' ∈ client, c.id ≠ c'.id) :
    { s with clients := s.clients ++ client.toList }.undoClient client write =
      { s with clients := s.clients ++
        (client.map fun c => if write = .done then { c with revoked := true } else c).toList } := by
  cases client with
  | none => simp [Stores.undoClient]
  | some record =>
    have hset : Stores.setRevoked record.id (s.clients ++ [record]) = s.clients ++ [{ record with revoked := true }] := by
      unfold Stores.setRevoked
      rw [setFirst_append fun c hc => by simpa using hfresh c hc record rfl]
      simp [setFirst]
    cases write <;> simp [Stores.undoClient, Stores.revokeManagedClient, hset]

theorem mem_of_mem_kept {b : Bool} {t : TokenRecord} (h : t ∈ if b then none else token) : t ∈ token := by
  cases b
  · exact h
  · cases h

theorem kept_eq_none {b : Bool} : (if b then none else token) = none ↔ (token.isSome = true → b = true) := by
  cases b <;> cases token <;> simp

theorem clientOf_spec {managed : Bool} {id : Nat} {c : ManagedClientRecord} (h : c ∈ clientOf managed id) :
    c.id = id ∧ c.fingerprint = id + 3 ∧ c.revoked = false ∧ managed = true := by
  unfold clientOf at h
  cases managed
  · cases h
  · cases h
    exact ⟨rfl, rfl, rfl, rfl⟩

theorem recordPairing_eq (h : Drawn s) (htoken : ∀ t ∈ token, t.id = s.next + 1 ∧ t.scopes ≠ []) (managed : Bool) :
    ∃ x : Residue, (Stores.recordPairing { s with
        tokens := s.tokens ++ token.toList
        clients := s.clients ++ (clientOf managed s.next).toList
        next := s.next + 4 } r w s.next token (clientOf managed s.next)).1 = s.add x ∧ x.Of s ∧
      (x.Settled ↔ w.Settle token.isSome managed) := by
  have hclients : ∀ c ∈ s.clients, ∀ c' ∈ clientOf managed s.next, c.id ≠ c'.id := by
    intro c hc c' hc'
    have h1 := (h.client c hc).1
    have h2 := (clientOf_spec hc').1
    omega
  have hof : ∀ c ∈ clientOf managed s.next, c.id = s.next ∧ c.fingerprint = s.next + 3 :=
    fun c hc => ⟨(clientOf_spec hc).1, (clientOf_spec hc).2.1⟩
  unfold Stores.recordPairing CreateWrites.Settle
  cases w.record with
  | done =>
    refine ⟨⟨token, clientOf managed s.next, some _⟩, rfl, ⟨htoken, hof, ?_⟩, ?_⟩
    · rintro p hp
      cases hp
      exact ⟨rfl, rfl, rfl, rfl⟩
    · simp [Residue.Settled]
  | stopped =>
    refine ⟨⟨token, clientOf managed s.next, none⟩, by simp [Stores.add], ⟨htoken, hof, by simp⟩, ?_⟩
    cases managed <;> simp [Residue.Settled, clientOf]
  | failed =>
    have hundo := undoToken_append
      (s := { s with clients := s.clients ++ (clientOf managed s.next).toList, next := s.next + 4 })
      w.undoToken (h.token_fresh htoken)
    dsimp only at hundo ⊢
    rw [hundo]
    cases hstop : token.isSome && w.undoToken == .stopped with
    | true =>
      -- the process stops with both credentials stored
      rw [Bool.and_eq_true, beq_iff_eq] at hstop
      refine ⟨⟨token, clientOf managed s.next, none⟩, ?_, ⟨htoken, hof, by simp⟩, ?_⟩
      · simp [hstop.2, TokenWrite.takes, Stores.add]
      · simp [Residue.Settled, hstop.1, hstop.2, TokenWrite.takes, Option.isSome_iff_ne_none.mp hstop.1]
    | false =>
      have hclient := undoClient_append (s := { s with
        tokens := s.tokens ++ (if w.undoToken.takes then none else token).toList
        next := s.next + 4 }) w.undoClient hclients
      dsimp only at hclient ⊢
      rw [hclient]
      refine ⟨⟨if w.undoToken.takes then none else token,
        (clientOf managed s.next).map fun c => if w.undoClient = .done then { c with revoked := true } else c, none⟩,
        by simp [Stores.add], ⟨fun t ht => htoken t (mem_of_mem_kept ht), ?_, by simp⟩, ?_⟩
      · intro c hc
        obtain ⟨c', hc', rfl⟩ := Option.map_eq_some_iff.mp hc
        have hc' := hof c' hc'
        split <;> exact hc'
      · rw [← kept_eq_none]
        cases managed <;> cases w.undoClient <;> simp [Residue.Settled, clientOf]

theorem finishPairing_eq (token : Option TokenRecord) (h : Drawn s) (htoken : ∀ t ∈ token, t.id = s.next + 1 ∧ t.scopes ≠ []) :
    ∃ x : Residue, ({ s with tokens := s.tokens ++ token.toList, next := s.next + 4 }.finishPairing
      r w s.next token).1 = s.add x ∧ x.Of s ∧ (x.Settled ↔ Follows r w token.isSome) := by
  unfold Stores.finishPairing Follows
  cases r.client w with
  | refused message | stopped =>
    refine ⟨⟨token, none, none⟩, by simp [Stores.add], ⟨htoken, by simp, by simp⟩, ?_⟩
    simp [Residue.Settled]
  | failed message =>
    have hundo := undoToken_append (s := { s with next := s.next + 4 }) w.undoToken (h.token_fresh htoken)
    refine ⟨⟨if w.undoToken.takes then none else token, none, none⟩, ?_, ⟨?_, by simp, by simp⟩, ?_⟩
    · dsimp only at hundo ⊢
      rw [hundo]
      cases token.isSome && w.undoToken == .stopped <;> simp [Stores.add]
    · exact fun t ht => htoken t (mem_of_mem_kept ht)
    · rw [← kept_eq_none]
      simp only [Residue.Settled, Option.not_mem_none, false_implies, implies_true, and_true, forall_const]
  | passed managed => exact recordPairing_eq h htoken managed

theorem scopes_ne_nil {scopes scopes' : List String} (h : normalizeScopes scopes = .ok scopes') : scopes' ≠ [] := by
  have hne : (if scopes.isEmpty then ["status"] else scopes) ≠ [] := by
    split
    · simp
    · rename_i hne
      simpa using hne
  unfold normalizeScopes at h
  generalize (if scopes.isEmpty then ["status"] else scopes) = l at h hne
  dsimp only at h
  split at h
  · cases h
    rwa [Ne, List.dedup_eq_nil]
  · cases h

theorem create_eq (h : Drawn s) :
    (s.createListenerPairing r w).1 = s ∧ r.Tidy w ∨
      ∃ x : Residue, (s.createListenerPairing r w).1 = s.add x ∧ x.Of s ∧ (x.Settled ↔ r.Tidy w) := by
  have hnothing : (⟨none, none, none⟩ : Residue).Of s := ⟨by simp, by simp, by simp⟩
  unfold Stores.createListenerPairing Request.Tidy
  cases r.refusal with
  | some message => exact .inl ⟨rfl, fun hnone => by cases hnone⟩
  | none =>
    refine .inr ?_
    simp only [forall_const]
    split
    · split
      · rename_i hstore
        rw [Bool.not_eq_true'] at hstore
        refine ⟨⟨none, none, none⟩, by simp [Stores.add], hnothing, ?_⟩
        simp [Residue.Settled, hstore]
      · rename_i hstore
        cases hscopes : normalizeScopes r.scopes with
        | error message =>
          refine ⟨⟨none, none, none⟩, by simp [Stores.add], hnothing, ?_⟩
          simp [Residue.Settled]
        | ok scopes =>
          rw [Bool.not_eq_true', Bool.not_eq_false] at hstore
          have htoken : ∀ t ∈ some (⟨s.next + 1, scopes, r.expires, s.next + 2⟩ : TokenRecord),
              t.id = s.next + 1 ∧ t.scopes ≠ [] := by
            rintro t ⟨⟩
            exact ⟨rfl, scopes_ne_nil hscopes⟩
          cases w.token with
          | done =>
            obtain ⟨x, heq, hx, hsettled⟩ := finishPairing_eq (r := r) (w := w) _ h htoken
            refine ⟨x, heq, hx, hsettled.trans ?_⟩
            simp [hstore]
          | failed | stopped =>
            refine ⟨⟨none, none, none⟩, by simp [Stores.createToken, Stores.add], hnothing, ?_⟩
            simp [Residue.Settled]
          | unsynced =>
            refine ⟨⟨some _, none, none⟩, ?_, ⟨htoken, by simp, by simp⟩, ?_⟩
            · simp [Stores.createToken, Stores.add]
            · simp [Residue.Settled, hstore]
    · have hnone := finishPairing_eq (r := r) (w := w) none h (by simp)
      simpa using hnone

end Create

/-! ## What revoking leaves -/

/-- Once the record is marked, the credentials it names are gone. -/
def Stores.RevokesTidily (s : Stores) (id : Nat) (w : Stores.RevokeWrites) : Prop :=
  ∀ p ∈ s.pairings, p.id = id → w.mark = .done →
    (∀ t ∈ s.tokens, p.tokenID = some t.id → w.token.takes = true) ∧
      ∀ c ∈ s.clients, p.clientID = some c.id → c.revoked = false → w.client = .done

section Revoke

variable {s : Stores} {id : Nat} {w : Stores.RevokeWrites} {p : PairingRecord}

theorem revokeToken_fst (write : TokenWrite) :
    (s.revokeToken id write).1 =
      { s with tokens := if write.takes then s.tokens.filter (·.id != id) else s.tokens } := by
  unfold Stores.revokeToken
  split
  · cases write <;> simp [TokenWrite.takes]
  · rename_i habsent
    have hsame : s.tokens.filter (·.id != id) = s.tokens := by
      refine filter_fresh fun t ht heq => habsent ?_
      exact List.any_eq_true.mpr ⟨t, ht, by simpa using heq⟩
    rw [hsame, ite_self]

theorem revokeToken_stopped {write : TokenWrite} (h : (s.revokeToken id write).2 = some .stopped) :
    write = .stopped ∧ ∃ t ∈ s.tokens, t.id = id := by
  unfold Stores.revokeToken at h
  split at h
  · rename_i hany
    obtain ⟨t, ht, hid⟩ := List.any_eq_true.mp hany
    cases write with
    | stopped => exact ⟨rfl, t, ht, by simpa using hid⟩
    | _ => cases h
  · cases h

theorem revokeManagedClient_fst (h : Drawn s) (write : Write) :
    (s.revokeManagedClient id write).1 = { s with clients := s.clients.map fun c =>
      if write = .done ∧ c.id = id then { c with revoked := true } else c } := by
  unfold Stores.revokeManagedClient Stores.setRevoked
  split
  · cases write with
    | done => simp [setFirst_eq_map h.clients]
    | _ => simp
  · rename_i habsent
    have hsame : (s.clients.map fun c => if write = .done ∧ c.id = id then { c with revoked := true } else c) =
        s.clients := by
      conv_rhs => rw [← List.map_id s.clients]
      refine List.map_congr_left fun c hc => if_neg fun hid => habsent ?_
      exact List.any_eq_true.mpr ⟨c, hc, by simpa using hid.2⟩
    rw [hsame]

structure Cleared (s s' : Stores) (p : PairingRecord) (w : Stores.RevokeWrites) (reached : Bool) : Prop where
  pairings : s'.pairings = s.pairings
  next : s'.next = s.next
  tokens : s'.tokens = s.tokens.filter fun t => !(w.token.takes && p.tokenID == some t.id)
  clients : s'.clients = s.clients.map fun c =>
    if reached = true ∧ p.clientID = some c.id then { c with revoked := true } else c
  written : reached = true → w.client = .done
  missed : reached = false → w.client ≠ .done ∨ w.token.takes = false ∧ ∃ t ∈ s.tokens, p.tokenID = some t.id

theorem drawn_of_tokens {tokens : List TokenRecord} (h : Drawn s) (hsub : tokens.Sublist s.tokens) :
    Drawn { s with tokens := tokens } :=
  ⟨h.tokens.sublist (hsub.map _), fun t ht => h.token t (hsub.subset ht), h.clients, h.client, h.pairings, h.pairing⟩

theorem clearToken :
    (p.tokenID.elim (s, none) fun id => s.revokeToken id w.token).1 =
      { s with tokens := s.tokens.filter fun t => !(w.token.takes && p.tokenID == some t.id) } := by
  cases p.tokenID with
  | none => simp
  | some id =>
    rw [Option.elim_some, revokeToken_fst]
    cases w.token.takes with
    | false => simp
    | true =>
      simp only [if_true, Bool.true_and]
      congr 1
      refine List.filter_congr fun t _ => ?_
      rw [bne, Option.some_beq_some, Bool.beq_comm]

theorem clearClient (h : Drawn s) :
    (p.clientID.elim (s, none) fun id => s.revokeManagedClient id w.client).1 =
      { s with clients := s.clients.map fun c =>
          if w.client = .done ∧ p.clientID = some c.id then { c with revoked := true } else c } := by
  cases p.clientID with
  | none => simp
  | some id =>
    rw [Option.elim_some, revokeManagedClient_fst h]
    simp only [Option.some.injEq, eq_comm (a := id)]

theorem join_fst (first : Option Halt) (result : Stores × Option Halt) : (Stores.join first result).1 = result.1 := by
  unfold Stores.join
  split <;> rfl

theorem revokeCredentials_cleared (h : Drawn s) :
    ∃ reached, Cleared s (s.revokeCredentials p w).1 p w reached := by
  have htoken := clearToken (s := s) (p := p) (w := w)
  have hdrawn : Drawn { s with tokens := s.tokens.filter fun t => !(w.token.takes && p.tokenID == some t.id) } :=
    drawn_of_tokens h List.filter_sublist
  unfold Stores.revokeCredentials
  split
  · -- the process stops before the token's file is replaced
    rename_i s' hfirst
    rw [hfirst] at htoken
    subst htoken
    refine ⟨false, rfl, rfl, rfl, by simp, by simp, fun _ => .inr ?_⟩
    cases hid : p.tokenID with
    | none =>
      rw [hid] at hfirst
      cases congrArg Prod.snd hfirst
    | some id =>
      rw [hid, Option.elim_some] at hfirst
      obtain ⟨hstopped, t, ht, rfl⟩ := revokeToken_stopped (congrArg Prod.snd hfirst)
      exact ⟨by rw [hstopped]; rfl, t, ht, rfl⟩
  · rename_i s' first _ hfirst
    rw [hfirst] at htoken
    subst htoken
    refine ⟨decide (w.client = .done), ?_⟩
    rw [join_fst, clearClient hdrawn]
    refine ⟨rfl, rfl, rfl, by simp, by simp, fun hreached => .inl (by simpa using hreached)⟩

theorem Cleared.drawn {s' : Stores} {reached : Bool} (h : Drawn s) (hc : Cleared s s' p w reached) : Drawn s' := by
  have hids : s'.clients.map ManagedClientRecord.id = s.clients.map ManagedClientRecord.id := by
    rw [hc.clients, List.map_map]
    refine List.map_congr_left fun c _ => ?_
    rw [Function.comp_apply]
    split <;> rfl
  constructor
  · rw [hc.tokens]
    exact h.tokens.sublist (List.filter_sublist.map _)
  · intro t ht
    rw [hc.tokens] at ht
    rw [hc.next]
    exact h.token t (List.mem_of_mem_filter ht)
  · exact hids ▸ h.clients
  · intro c hmem
    rw [hc.clients] at hmem
    obtain ⟨c', hc', rfl⟩ := List.mem_map.mp hmem
    rw [hc.next]
    split
    · exact h.client c' hc'
    · exact h.client c' hc'
  · exact hc.pairings ▸ h.pairings
  · rw [hc.pairings, hc.next]
    exact h.pairing

theorem drawn_marked (id : Nat) (h : Drawn s) : Drawn { s with pairings := Stores.markRevoked id s.pairings } := by
  have hmap : Stores.markRevoked id s.pairings =
      s.pairings.map fun p => if p.id = id then { p with revoked := true } else p := setFirst_eq_map h.pairings
  have hids : (Stores.markRevoked id s.pairings).map PairingRecord.id = s.pairings.map PairingRecord.id := by
    rw [hmap, List.map_map]
    refine List.map_congr_left fun p _ => ?_
    rw [Function.comp_apply]
    split <;> rfl
  refine ⟨h.tokens, h.token, h.clients, h.client, ?_, ?_⟩
  · exact hids ▸ h.pairings
  · intro p hp
    dsimp only at hp
    rw [hmap] at hp
    obtain ⟨p', hp', rfl⟩ := List.mem_map.mp hp
    split
    · exact h.pairing p' hp'
    · exact h.pairing p' hp'

theorem mem_markRevoked (h : Drawn s) {q : PairingRecord} :
    q ∈ Stores.markRevoked id s.pairings ∧ q.revoked = false ↔ q ∈ s.pairings ∧ q.id ≠ id ∧ q.revoked = false := by
  have hmap : Stores.markRevoked id s.pairings =
      s.pairings.map fun p => if p.id = id then { p with revoked := true } else p := setFirst_eq_map h.pairings
  rw [hmap]
  constructor
  · rintro ⟨hq, hlive⟩
    obtain ⟨p, hp, rfl⟩ := List.mem_map.mp hq
    split at hlive
    · cases hlive
    · rename_i hne
      rw [if_neg hne]
      exact ⟨hp, hne, hlive⟩
  · rintro ⟨hq, hne, hlive⟩
    exact ⟨List.mem_map.mpr ⟨q, hq, if_neg hne⟩, hlive⟩

theorem matched_cleared {s' : Stores} {reached : Bool} (h : Drawn s) (hm : Matched s) (hp : p ∈ s.pairings)
    (hid : p.id = id) (hc : Cleared { s with pairings := Stores.markRevoked id s.pairings } s' p w reached) :
    Matched s' ↔ (∀ t ∈ s.tokens, p.tokenID = some t.id → w.token.takes = true) ∧
      ∀ c ∈ s.clients, p.clientID = some c.id → c.revoked = false → w.client = .done := by
  have hrecord : ∀ q, q ∈ s'.pairings ∧ q.revoked = false ↔ q ∈ s.pairings ∧ q.id ≠ id ∧ q.revoked = false := by
    intro q
    rw [hc.pairings]
    exact mem_markRevoked h
  constructor
  · intro hm'
    constructor
    · intro t ht htoken
      by_contra htakes
      have ht' : t ∈ s'.tokens := by
        rw [hc.tokens]
        exact List.mem_filter.mpr ⟨ht, by simp [htakes]⟩
      obtain ⟨q, hq, hqid, hlive⟩ := hm'.tokens t ht'
      obtain ⟨hq, hne, -⟩ := (hrecord q).mp ⟨hq, hlive⟩
      exact hne (eq_of_credential h hq hp (.inl ⟨hqid, htoken⟩) ▸ hid)
    · intro c hcl hclient hlive
      by_contra hnot
      have hmissed : reached = false := by
        cases hr : reached with
        | false => rfl
        | true => exact absurd (hc.written hr) hnot
      have hcl' : c ∈ s'.clients := by
        rw [hc.clients]
        exact List.mem_map.mpr ⟨c, hcl, by simp [hmissed]⟩
      obtain ⟨q, hq, hqid, hkept⟩ := hm'.clients c hcl' hlive
      obtain ⟨hq, hne, -⟩ := (hrecord q).mp ⟨hq, hkept⟩
      exact hne (eq_of_credential h hq hp (.inr ⟨hqid, hclient⟩) ▸ hid)
  · rintro ⟨htokens, hclients⟩
    constructor
    · intro t ht
      rw [hc.tokens] at ht
      obtain ⟨ht, hkept⟩ := List.mem_filter.mp ht
      obtain ⟨q, hq, hqid, hlive⟩ := hm.tokens t ht
      have hne : q.id ≠ id := by
        intro heq
        have hqp : q = p := List.inj_on_of_nodup_map h.pairings hq hp (heq.trans hid.symm)
        rw [hqp] at hqid
        simp [htokens t ht hqid, hqid] at hkept
      obtain ⟨hq', -⟩ := (hrecord q).mpr ⟨hq, hne, hlive⟩
      exact ⟨q, hq', hqid, hlive⟩
    · intro c hcl hunrevoked
      rw [hc.clients] at hcl
      obtain ⟨c', hc', rfl⟩ := List.mem_map.mp hcl
      split at hunrevoked
      · cases hunrevoked
      · rename_i hkept
        rw [if_neg hkept]
        obtain ⟨q, hq, hqid, hlive⟩ := hm.clients c' hc' hunrevoked
        have hne : q.id ≠ id := by
          intro heq
          have hqp : q = p := List.inj_on_of_nodup_map h.pairings hq hp (heq.trans hid.symm)
          rw [hqp] at hqid
          have hdone := hclients c' hc' hqid hunrevoked
          cases hr : reached with
          | true => exact hkept ⟨hr, hqid⟩
          | false =>
            rcases hc.missed hr with hnot | ⟨hnot, t, ht, htoken⟩
            · exact hnot hdone
            · rw [htokens t ht htoken] at hnot
              cases hnot
        obtain ⟨hq', -⟩ := (hrecord q).mpr ⟨hq, hne, hlive⟩
        exact ⟨q, hq', hqid, hlive⟩

theorem revoke_drawn (h : Drawn s) : Drawn (s.revokePairing id w).1 := by
  unfold Stores.revokePairing
  split
  · exact h
  · rename_i p hfind
    cases w.mark with
    | failed => exact h
    | stopped => exact h
    | done =>
      obtain ⟨reached, hc⟩ := revokeCredentials_cleared (p := p) (w := w) (drawn_marked id h)
      exact hc.drawn (drawn_marked id h)

theorem revoke_matched (h : Drawn s) (hm : Matched s) :
    Matched (s.revokePairing id w).1 ↔ s.RevokesTidily id w := by
  unfold Stores.revokePairing
  split
  · rename_i hnone
    refine iff_of_true hm fun p hp hid => ?_
    exact absurd (by simpa using hid) (List.find?_eq_none.mp hnone p hp)
  · rename_i p hfind
    have hp : p ∈ s.pairings := List.mem_of_find?_eq_some hfind
    have hid : p.id = id := by simpa using List.find?_some hfind
    cases hmark : w.mark with
    | failed | stopped => exact iff_of_true hm fun _ _ _ hdone => by rw [hmark] at hdone; cases hdone
    | done =>
      obtain ⟨reached, hc⟩ := revokeCredentials_cleared (p := p) (w := w) (drawn_marked id h)
      rw [matched_cleared h hm hp hid hc]
      constructor
      · intro hgone q hq hq' _
        rw [List.inj_on_of_nodup_map h.pairings hq hp (hq'.trans hid.symm)]
        exact hgone
      · exact fun htidy => htidy p hp hid hmark

end Revoke

/-! ## Runs -/

def Stores.Tidy (s : Stores) : PairingCall → Prop
  | .create r w => r.Tidy w
  | .revoke id w => s.RevokesTidily id w

section Runs

variable {s : Stores} {ok : Stores → PairingCall → Prop}

theorem perform_matched (h : Drawn s) (hm : Matched s) (call : PairingCall) :
    Matched (s.perform call) ↔ s.Tidy call := by
  cases call with
  | create r w =>
    rcases create_eq (r := r) (w := w) h with ⟨heq, htidy⟩ | ⟨x, heq, hx, hsettled⟩
    · rw [Stores.perform, heq]
      exact iff_of_true hm htidy
    · rw [Stores.perform, heq, matched_add h hx hm, hsettled]
      rfl
  | revoke id w => exact revoke_matched h hm

theorem perform_drawn (h : Drawn s) (call : PairingCall) : Drawn (s.perform call) := by
  cases call with
  | create r w =>
    rcases create_eq (r := r) (w := w) h with ⟨heq, -⟩ | ⟨x, heq, hx, -⟩
    · rw [Stores.perform, heq]
      exact h
    · rw [Stores.perform, heq]
      exact h.add hx
  | revoke id w => exact revoke_drawn h

theorem drawn_new : Drawn ⟨[], [], [], 0⟩ :=
  ⟨List.nodup_nil, by simp, List.nodup_nil, by simp, List.nodup_nil, by simp⟩

theorem drawn_of_reach (h : Reach pairing ok s) : Drawn s := by
  refine Reach.invariant (I := Drawn) ?_ ?_ h
  · rintro s rfl
    exact drawn_new
  · rintro s call s' hs - ⟨⟩
    exact perform_drawn hs call

theorem agree_of_reach (h : Reach pairing Stores.Tidy s) : Agree s := by
  induction h with
  | init h0 =>
    subst h0
    exact (agree_iff_matched drawn_new).mpr ⟨by simp, by simp⟩
  | step hr htidy hs ih =>
    cases hs
    have hdrawn := drawn_of_reach hr
    have hm := (agree_iff_matched hdrawn).mp ih
    exact (agree_iff_matched (perform_drawn hdrawn _)).mpr ((perform_matched hdrawn hm _).mpr htidy)

end Runs

/-- On stores that agree, a call keeps them so exactly when it is tidy; and so they agree in every run of tidy calls. -/
theorem pairings_agree (s : Stores) :
    (Reach pairing free s → Agree s → ∀ call, Agree (s.perform call) ↔ s.Tidy call) ∧
      (Reach pairing Stores.Tidy s → Agree s) := by
  refine ⟨fun h ha call => ?_, agree_of_reach⟩
  have hdrawn := drawn_of_reach h
  rw [agree_iff_matched (perform_drawn hdrawn call)]
  exact perform_matched hdrawn ((agree_iff_matched hdrawn).mp ha) call

/-! ## A call that is not tidy -/

def harbourRequest (certFile : String) : Request :=
  ⟨none, "harbour", "mtls+token", "", certFile, "", true, true, true, ["replicate"], none⟩

def allDone : CreateWrites := ⟨.done, .done, .done, .done, .done, .done⟩

theorem harbour_agrees :
    ∃ s, Reach pairing Stores.Tidy s ∧ s.pairings.map PairingRecord.tokenID = [some 1] ∧ Agree s := by
  have htidy : (harbourRequest "").Tidy allDone := by
    intro _
    rw [if_pos (by decide)]
    refine fun _ _ => ⟨by decide, fun _ => ?_⟩
    have hclient : (harbourRequest "").client allDone = .passed true := by decide
    unfold Follows
    rw [hclient]
    trivial
  have hreach : Reach pairing Stores.Tidy (Stores.perform ⟨[], [], [], 0⟩ (.create (harbourRequest "") allDone)) :=
    Reach.step (a := .create (harbourRequest "") allDone) (.init rfl) htidy rfl
  exact ⟨_, hreach, by decide, (pairings_agree _).2 hreach⟩

/-- A client file given to a listener with managed clients: the call fails, and its token stays. -/
theorem harbour_disagrees : ¬ ∀ s, Reach pairing free s → Agree s := by
  intro hall
  have hreach : Reach pairing free (Stores.perform ⟨[], [], [], 0⟩ (.create (harbourRequest "client.crt") allDone)) :=
    .step (.init rfl) trivial rfl
  obtain ⟨p, hp, -⟩ := (hall _ hreach).tokens 1 2 "replicate" 0 (by decide)
  have hnone : (Stores.perform ⟨[], [], [], 0⟩ (.create (harbourRequest "client.crt") allDone)).pairings = [] := by
    decide
  rw [hnone] at hp
  cases hp

end Boomerangz.Control
