import Boomerangz.Lifecycle.Accounted
import Boomerangz.Transfer.Grounded

/-! # Plans and the commands they become

The planners and the builders of command lines check independently.
-/

namespace Boomerangz.Transfer

open Check Lists Zfs Policy Lifecycle

/-! ## Send arguments -/

/-- An option or an operand of `zfs send`. -/
inductive SendArg where
  | option (text : String)
  | token (text : List Char)
  | object (n : Name)
deriving DecidableEq, Repr

/-- `validateComponent`, of a snapshot. The names that boomerangz gives are digits and letters. -/
def validComponent : Component → Bool
  | .owned _ _ => true
  | .stray text => text.toList.all fun c => !(['/', '@', '#', ',', '%'].contains c) && !blank c
  | .other text => text != "" && text.toList.all fun c => !(['/', '@', '#', ',', '%'].contains c) && !blank c

/-- `validateComponent`, of a bookmark. -/
def validMark : Mark → Bool
  | .target _ _ => true
  | .stray text => text.toList.all fun c => !(['/', '@', '#'].contains c) && !blank c
  | .other text => text != "" && text.toList.all fun c => !(['/', '@', '#'].contains c) && !blank c

/-- `validateObject`. -/
def validObject : Name → Bool
  | .dataset d => validDataset d
  | .snapshot d c => validDataset d && validComponent c
  | .bookmark d m => validDataset d && validMark m

def byteLength (text : List Char) : Nat := text.foldr (fun c n => c.utf8Size + n) 0

def validateResumeToken (token : List Char) : Except Error Unit := do
  require (byteLength token ≤ 1024 * 1024 && token.head? != some '-') (.plain "invalid receive resume token")
  require (token.all fun c => 0x21 ≤ c.toNat && c.toNat ≤ 0x7e) (.plain "invalid receive resume token")

def flagArgs (o : SendOptions) : List SendArg :=
  ([(o.largeBlocks, "-L"), (o.compressed, "-c"), (o.embeddedData, "-e"), (o.raw, "-w"), (o.properties, "-p"),
    (o.recursive, "-R")].filter Prod.fst).map fun f => .option f.2

def baseArgs (o : SendOptions) (snapshot base : Name) : Except Error (List SendArg) := do
  require (validObject base) (.message "invalid ZFS object name %q" [.name base])
  require (base.isSnapshot || base.isBookmark) (.plain "incremental base must be a snapshot or bookmark")
  require (!(base.isBookmark && (o.intermediates || o.recursive)))
    (.plain "intermediate/recursive sends require a snapshot base")
  require (snapshot.base == base.base && base != snapshot)
    (.plain "incremental base must be a distinct object on the source dataset")
  return [.option (if o.intermediates then "-I" else "-i"), .object base]

/-- `sendArgs`; `text` is how ZFS prints a token, and an empty one is none. -/
def sendArgs (text : Token → List Char) (o : SendOptions) (estimate : Bool) : Except Error (List SendArg) :=
  let start := .option "send" :: if estimate then [.option "-nP"] else []
  let token := (o.resumeToken.map text).getD []
  if token = [] then
    match o.snapshot with
    | none => .error (.plain "invalid ZFS snapshot name")
    | some snapshot => do
      require (snapshot.isSnapshot && validObject snapshot) (.message "invalid ZFS snapshot name %q" [.name snapshot])
      let base ← match o.base with
        | none => pure []
        | some base => baseArgs o snapshot base
      return start ++ flagArgs o ++ base ++ [.object snapshot]
  else do
    validateResumeToken token
    require (!(o.snapshot.isSome || o.base.isSome || o.intermediates || o.recursive || o.largeBlocks || o.compressed ||
        o.embeddedData || o.raw || o.properties))
      (.plain "resume token cannot be combined with snapshot send options")
    return start ++ [.option "-t", .token token]

/-! ## The local stream -/

def ReceiveDiscard.discard : ReceiveDiscard → Discard
  | exact => .off
  | dropFirst => .first
  | dropAll => .all
  | other text => .other text

/-- `LocalStream.Run`, up to the pipeline. -/
def streamScopes (send : SendOptions) (receive : ReceiveOptions) : Except Error Unit := do
  let source := if send.source = [] then (send.snapshot.map Name.base).getD [] else send.source
  require (validDataset source) (.invalidName source)
  let target ← mapReceiveDataset source receive.root receive.discard.discard
  require (!(inside source target || inside target source)) (.plain "source and destination scopes overlap")

/-! ## Acceptance -/

/-- A token as ZFS prints them. -/
structure TokenText (token : List Char) : Prop where
  nonempty : token ≠ []
  short : token.length ≤ 1024 * 1024
  operand : token.head? ≠ some '-'
  printable : ∀ c ∈ token, 0x21 ≤ c.toNat ∧ c.toNat ≤ 0x7e

/-- The layers below take the plan. The local stream runs only local plans. -/
structure Accepted [Digests] (text : Token → List Char) (request : Request) (plan : Plan) : Prop where
  sends : ∀ estimate, ∃ args, sendArgs text plan.send estimate = .ok args
  receives : ∃ args, receiveArgs plan.receive = .ok args
  apart : request.transport = .localHost → streamScopes plan.send plan.receive = .ok ()

section Builders

variable {text : Token → List Char} {o : SendOptions} {estimate : Bool} {d : Dataset} {c : Component}

theorem sendArgs_snapshot (htoken : o.resumeToken = none) (hsnapshot : o.snapshot = some (.snapshot d c))
    (hd : validDataset d = true) (hc : validComponent c = true)
    (hbase : ∀ base, o.base = some base → ∃ args, baseArgs o (.snapshot d c) base = .ok args) :
    ∃ args, sendArgs text o estimate = .ok args := by
  have hvalid : (Name.isSnapshot (.snapshot d c) && validObject (.snapshot d c)) = true := by
    simp [Name.isSnapshot, validObject, hd, hc]
  cases hb : o.base with
  | none => exact ⟨_, by simp only [sendArgs, htoken, hsnapshot, hb, require, hvalid]; rfl⟩
  | some base =>
    obtain ⟨args, hargs⟩ := hbase base hb
    exact ⟨_, by simp only [sendArgs, htoken, hsnapshot, hb, require, hvalid, hargs]; rfl⟩

theorem byteLength_ascii {token : List Char} (h : ∀ c ∈ token, c.toNat ≤ 0x7e) : byteLength token = token.length := by
  induction token with
  | nil => rfl
  | cons c rest ih =>
    have hc : c.utf8Size = 1 := by
      have hle : c.val ≤ 127 := UInt32.le_iff_toNat_le.mpr (Nat.le_succ_of_le (h c List.mem_cons_self))
      exact if_pos hle
    rw [byteLength, List.foldr_cons, hc, List.length_cons, ← ih fun x hx => h x (List.mem_cons_of_mem _ hx), byteLength,
      Nat.add_comm]

theorem sendArgs_token {token : Token} (ht : TokenText (text token)) :
    ∃ args, sendArgs text ⟨d, none, some token, none, false, false, false, false, false, false, false⟩ estimate =
      .ok args := by
  have hvalid : validateResumeToken (text token) = .ok () := by
    have hsize := byteLength_ascii fun c hc => (ht.printable c hc).2
    have hall : ((text token).all fun c => 0x21 ≤ c.toNat && c.toNat ≤ 0x7e) = true :=
      List.all_eq_true.mpr fun c hc => by simpa using ht.printable c hc
    simp [validateResumeToken, require, hsize, ht.short, ht.operand, hall]
  exact ⟨_, by simp only [sendArgs, Option.map_some, Option.getD_some, if_neg ht.nonempty, hvalid]; rfl⟩

theorem baseArgs_snapshot {b : Component} (hd : validDataset d = true) (hb : validComponent b = true) (hne : b ≠ c) :
    ∃ args, baseArgs o (.snapshot d c) (.snapshot d b) = .ok args := by
  simp only [baseArgs, ok_iff]
  refine ⟨by rw [validObject, hd, hb]; rfl, rfl, rfl, ?_, _, rfl⟩
  simp [Name.base, hne]

theorem baseArgs_bookmark {t : TargetID} {u : ID} (hd : validDataset d = true) (hall : o.intermediates = false)
    (hrecursive : o.recursive = false) : ∃ args, baseArgs o (.snapshot d c) (.bookmark d (.target t u)) = .ok args := by
  simp only [baseArgs, ok_iff]
  refine ⟨by rw [validObject, hd]; rfl, rfl, by rw [hall, hrecursive]; rfl, ?_, _, rfl⟩
  simp [Name.base]

theorem receiveArgs_ok [Digests] {options : ReceiveOptions} (hroot : validDataset options.root = true)
    (hdiscard : options.discard = .exact)
    (hset : ∀ x ∈ options.set, streamProperty x.1.toList = true ∧ namespaceText.isPrefixOf x.1.toList = false ∧
      '\x00' ∉ x.2.toList)
    (hexclude : ∀ k ∈ options.exclude, streamProperty k.text = true) : ∃ args, receiveArgs options = .ok args := by
  obtain ⟨sets, hsets⟩ := collect_ok (f := setArg)
    (l := options.set.insertionSort fun a b => textLe a.1.toList b.1.toList) fun x hx => by
      obtain ⟨hname, hforeign, hvalue⟩ := hset x ((List.mem_insertionSort _).mp hx)
      exact ⟨_, setArg_eq_ok.mpr ⟨hname, hforeign, by simpa using hvalue, rfl⟩⟩
  obtain ⟨excluded, hexcluded⟩ := collect_ok (f := excludeArg options.set)
    (l := compact (options.exclude.insertionSort fun a b => textLe a.text b.text)) fun k hk => by
      have hname := hexclude k ((List.mem_insertionSort _).mp (mem_compact.mp hk))
      exact ⟨_, by simp only [excludeArg, require, hname, if_true]; rfl⟩
  exact ⟨_, by simp only [receiveArgs, require, hroot, hdiscard, ReceiveDiscard.args, hsets, hexcluded, if_true]; rfl⟩

end Builders

/-! ## Mapping -/

section Mapping

variable {a b : Dataset}

theorem streamScopes_ok {send : SendOptions} {receive : ReceiveOptions} (hsource : validDataset send.source = true)
    (hroot : validDataset receive.root = true) (hdiscard : receive.discard = .exact) (ha : a <+: send.source)
    (hb : b <+: receive.root) (hab : ¬ a <+: b) (hba : ¬ b <+: a) : streamScopes send receive = .ok () := by
  have hne := ne_nil_of_validDataset hsource
  have hout : inside send.source receive.root = false := by
    rw [Bool.eq_false_iff, Ne, inside_iff (ne_nil_of_validDataset hroot)]
    exact fun h => (List.prefix_or_prefix_of_prefix ha (hb.trans h)).elim hab hba
  have hin : inside receive.root send.source = false := by
    rw [Bool.eq_false_iff, Ne, inside_iff hne]
    exact fun h => (List.prefix_or_prefix_of_prefix (ha.trans h) hb).elim hab hba
  have hmapped : mapReceiveDataset send.source receive.root receive.discard.discard = .ok receive.root := by
    rw [hdiscard]
    simp only [mapReceiveDataset, ok_iff]
    exact ⟨hsource, hroot, rfl⟩
  simp only [streamScopes, if_neg hne, ok_iff]
  exact ⟨hsource, _, hmapped, by rw [hout, hin]; rfl⟩

end Mapping

/-! ## The plans -/

section Plans

variable {request : Request} {view : View} {installation : ID} {stream : Member} {p : Effective} {scope : Scope}
  {plan : Plan} {text : Token → List Char}

theorem scopeOf_apart (h : scopeOf request stream p = .ok scope) (hlocal : request.transport = .localHost) :
    inside scope.mappedRoot request.source = false ∧ inside request.source scope.mappedRoot = false := by
  simp only [scopeOf, Request.mapped, ok_iff] at h
  obtain ⟨_, ⟨root, -, -, rfl⟩, hapart, rfl⟩ := h
  simpa [hlocal] using hapart

theorem scopeOf_valid (h : scopeOf request stream p = .ok scope) (hstream : validDataset stream.dataset = true) :
    validDataset scope.target = true := by
  obtain ⟨hmapped, -, -, -, htarget⟩ := scopeOf_eq_ok h
  rw [htarget]
  exact validDataset_append (mapReceiveDataset_valid hmapped) hstream fun x hx => List.mem_of_mem_drop hx

theorem mem_of_streams {streams : List Member} (h : request.streams = .ok streams) (hm : stream ∈ streams) :
    stream.policy = request.policy ∨ stream ∈ request.members := by
  unfold Request.streams at h
  split at h
  · cases h
    exact .inl (by rw [List.mem_singleton.mp hm])
  · simp only [ok_iff] at h
    obtain ⟨-, -, -, rfl⟩ := h
    exact .inr ((List.mem_insertionSort _).mp hm)

theorem viewStream_policy (h : viewStream request view = .ok (stream, p)) :
    p = request.policy ∨ ∃ m ∈ request.members, p = m.policy := by
  simp only [viewStream, Request.stream, ok_iff] at h
  obtain ⟨-, -, -, -, found, ⟨streams, hstreams, hfound⟩, q, hq, heq⟩ := h
  cases heq
  split at hfound
  · next m hm =>
    cases hfound
    have hmem := mem_of_streams hstreams (List.mem_of_find?_eq_some hm)
    unfold streamPolicy at hq
    split at hq
    · cases hq
      exact .inl rfl
    · simp only [ok_iff] at hq
      obtain ⟨-, -, -, -, rfl⟩ := hq
      exact hmem.imp_right fun hm => ⟨_, hm, rfl⟩
  · cases hfound

theorem stream_apart {send : SendOptions} {receive : ReceiveOptions} (hscope : scopeOf request stream p = .ok scope)
    (hlocal : request.transport = .localHost) (hroot : validDataset request.source = true)
    (hstream : validDataset stream.dataset = true) (hsend : send.source = stream.dataset)
    (hreceive : validDataset receive.root = true) (hin : scope.target <+: receive.root)
    (hdiscard : receive.discard = .exact) : streamScopes send receive = .ok () := by
  obtain ⟨hmapped, hinside, -, -, htarget⟩ := scopeOf_eq_ok hscope
  obtain ⟨hout, hback⟩ := scopeOf_apart hscope hlocal
  have hmappedRoot := ne_nil_of_validDataset (mapReceiveDataset_valid hmapped)
  have hsource := ne_nil_of_validDataset hroot
  refine streamScopes_ok (hsend ▸ hstream) hreceive hdiscard (a := request.source) (b := scope.mappedRoot) ?_ ?_ ?_ ?_
  · rw [hsend]
    exact (inside_iff hsource).mp hinside
  · refine List.IsPrefix.trans ?_ hin
    rw [htarget]
    exact List.prefix_append _ _
  · rw [← inside_iff hsource, hout]
    exact Bool.false_ne_true
  · rw [← inside_iff hmappedRoot, hback]
    exact Bool.false_ne_true

theorem owned_name {s : State} {lineage : ID} {d : Dataset} {o : Object} (h : OwnedOn s lineage d o) :
    ∃ m : Metadata, o.name = .snapshot d m.name := by
  obtain ⟨⟨-, -, rfl⟩, m, howns⟩ := h
  obtain ⟨⟨d, -, hname⟩, -⟩ := ownership_eq_ok howns
  have hname : o.name = .snapshot d m.name := hname
  exact ⟨m, by rw [hname]; rfl⟩

theorem build_sends (h : build request view installation = .ok plan) (estimate : Bool) :
    ∃ args, sendArgs text plan.send estimate = .ok args := by
  simp only [build, ok_iff] at h
  obtain ⟨sel, hsel, ⟨mode, base⟩, hhistory, rfl⟩ := h
  obtain ⟨hmem, htype, hbase, -, howned⟩ := (select_spec hsel).endpoint_mem
  obtain ⟨m, hname⟩ := owned_name ⟨⟨hmem, htype, hbase⟩, isOwned_iff.mp howned⟩
  have hvalid : validDataset sel.scope.stream.dataset = true := hbase ▸ sel.endpoint.valid
  refine sendArgs_snapshot rfl (congrArg some hname) hvalid rfl fun b hb => ?_
  obtain ⟨-, -, rfl⟩ | ⟨-, -, -, rfl⟩ | ⟨-, hmode, latest, found, -, rfl, hfound⟩ := planHistory_cases hhistory
  · cases hb
  · cases hb
  · cases hb
    obtain ⟨hcommon, hsnapshot | ⟨⟨refs, -, r, -, -, -, -, hmark⟩, hresume, -⟩⟩ := selectBase_spec hfound
    · obtain ⟨m', hname'⟩ := owned_name hsnapshot
      rw [hname']
      refine baseArgs_snapshot hvalid rfl fun heq => ?_
      -- the two would be one object, created before itself
      have hfirst : view.source.object sel.endpoint.name = some found :=
        State.object_eq_some.mpr ⟨hsnapshot.1.1, by rw [hname', hname, heq]⟩
      rw [State.object_eq_some.mpr ⟨hmem, rfl⟩, Option.some.injEq] at hfirst
      exact absurd hcommon.2 (hfirst ▸ lt_irrefl _)
    · simp only [canResumeFromBookmark, Bool.and_eq_true, decide_eq_true_eq, Bool.not_eq_true'] at hresume
      rw [hmark]
      exact baseArgs_bookmark hvalid (by simp [planOf, hmode, hresume.1]) hresume.2

theorem viewStream_source (h : viewStream request view = .ok (stream, p)) : validDataset request.source = true := by
  simp only [viewStream, ok_iff] at h
  exact h.1

theorem build_stream (h : build request view installation = .ok plan) : ∃ stream p,
    viewStream request view = .ok (stream, p) ∧ plan.send.source = stream.dataset ∧
      validDataset stream.dataset = true := by
  simp only [build, ok_iff] at h
  obtain ⟨sel, hsel, ⟨mode, base⟩, -, rfl⟩ := h
  obtain ⟨stream, p, hview, hscope⟩ := buildScope_eq_ok (select_spec hsel).scope
  obtain ⟨-, -, rfl, -⟩ := scopeOf_eq_ok hscope
  obtain ⟨-, -, hbase, -⟩ := (select_spec hsel).endpoint_mem
  exact ⟨_, p, hview, rfl, hbase ▸ sel.endpoint.valid⟩

theorem source_valid {r : Reference} {s : State} {sources : List ReferenceSource} {source : ReferenceSource}
    (h : r.sources s = .ok sources) (hs : source ∈ sources) : validDataset source.dataset = true := by
  obtain ⟨⟨o, -, -, hbase⟩, -⟩ := Reference.mem_candidates.mp ((Reference.mem_sources h).mp hs).1
  exact hbase ▸ o.valid

theorem newest_stream {s : State} {canonical : String} {d : Dataset} {lineage : ID} {refs : List Reference} {r : Reference}
    (h : newestReference s (resumeCandidates s canonical d lineage refs) = some r) : validDataset d = true := by
  have hmem : r ∈ resumeCandidates s canonical d lineage refs := by
    unfold newestReference at h
    split at h
    · cases h
    · next found hfound =>
      split at h
      · cases h
        exact (greatest_spec hfound).1
      · cases h
  simp only [resumeCandidates, List.mem_filter, Bool.and_eq_true, beq_iff_eq] at hmem
  obtain ⟨-, ⟨-, rfl⟩, hresumable⟩ := hmem
  unfold resumable at hresumable
  split at hresumable
  · next sources hsources =>
    rw [Bool.and_eq_true, beq_iff_eq, Option.map_eq_some_iff] at hresumable
    obtain ⟨⟨source, hsource, hdataset⟩, -⟩ := hresumable
    exact hdataset ▸ source_valid hsources (List.mem_of_head? hsource)
  · cases hresumable

theorem resume_stream {r : Reference} (h : buildResume request view installation = .ok (plan, r)) :
    ∃ stream p scope d token, viewStream request view = .ok (stream, p) ∧ scopeOf request stream p = .ok scope ∧
      validDataset stream.dataset = true ∧ validDataset d = true ∧ scope.target <+: d ∧
      (d, token) ∈ view.destination.resumeTokens ∧ plan.send =
        ⟨stream.dataset, none, some token, none, false, false, false, false, false, false, false⟩ ∧
      plan.receive = ⟨d, .exact, p.setProperties, receiveExclusions p view.source⟩ := by
  simp only [buildResume, ok_iff] at h
  obtain ⟨scope, hscope, ⟨d, token⟩, htoken, -, -, lineage, -, suspended, -, -, binding, -, refs, -, h⟩ := h
  obtain ⟨stream, p, hview, hscope⟩ := resumeScope_eq_ok hscope
  obtain ⟨hmapped, -, rfl, rfl, htarget⟩ := scopeOf_eq_ok hscope
  split at h
  · simp at h
  · next hnewest =>
    have hvalid := newest_stream hnewest
    simp only [ok_iff, Prod.mk.injEq] at h
    obtain ⟨sources, hsources, expected, -, hcovered, rfl, -⟩ := h
    obtain ⟨source, hsource, hplace⟩ := List.any_eq_true.mp hcovered
    have hd : validDataset d = true := by
      rw [← beq_iff_eq.mp hplace]
      exact validDataset_append (mapReceiveDataset_valid hmapped) (source_valid hsources hsource) fun x hx =>
        List.mem_of_mem_drop hx
    obtain ⟨htokens, hinside⟩ := resumeToken_eq_ok htoken
    have hin := (inside_iff (ne_nil_of_validDataset (scopeOf_valid hscope hvalid))).mp hinside
    exact ⟨_, _, scope, _, _, hview, hscope, hvalid, hd, hin, by simp [htokens], rfl, rfl⟩

/-! ### The receive side -/

theorem streamProperty_iff {name : List Char} : streamProperty name = true ↔ name ≠ [] ∧ userProperty name = true := by
  rw [streamProperty, Bool.and_eq_true, Bool.not_eq_true', List.isEmpty_eq_false_iff]
  rfl

theorem streamProperty_name {name : String} (hne : name ≠ "") (h : userProperty name.toList = true) :
    streamProperty name.toList = true :=
  streamProperty_iff.mpr ⟨fun hnil => hne (String.toList_eq_nil_iff.mp hnil), h⟩

variable [Digests]

theorem text_ne_nil {k : Key} (hk : (k.isPublic || k.isReference || k.isTargetState) = true) : k.text ≠ [] := by
  have hpublic : namespaceText ≠ [] := by decide
  have hstate : stateNamespace ≠ [] := by decide
  cases k <;> simp_all [Key.isPublic, Key.isReference, Key.isTargetState, Key.text]

theorem receive_accepted {options : ReceiveOptions} (hp : Receivable p)
    (hstored : ∀ r ∈ view.source.properties, userProperty r.name.text = true)
    (hroot : validDataset options.root = true) (hdiscard : options.discard = .exact)
    (hset : ∀ x ∈ options.set, x ∈ p.setProperties ∨ x = ("canmount", "noauto"))
    (hexclude : options.exclude = receiveExclusions p view.source) : ∃ args, receiveArgs options = .ok args := by
  refine receiveArgs_ok hroot hdiscard (fun x hx => ?_) fun k hk => ?_
  · rcases hset x hx with hx | rfl
    · obtain ⟨hne, hname, hforeign, hvalue⟩ := hp.sets x hx
      exact ⟨streamProperty_name hne hname, hforeign, hvalue⟩
    · decide
  · rw [hexclude] at hk
    rcases mem_receiveExclusions.mp hk with ⟨name, hname, rfl⟩ | ⟨v, hv, -, rfl⟩ | ⟨⟨r, hr, rfl⟩, hclass⟩
    · exact streamProperty_name (hp.ignores name hname).1 (hp.ignores name hname).2.1
    · refine streamProperty_iff.mpr ⟨text_ne_nil rfl, ?_⟩
      rw [Key.text, userProperty, List.all_append, Bool.and_eq_true]
      exact ⟨by decide, (hp.values v hv).1⟩
    · exact streamProperty_iff.mpr ⟨text_ne_nil hclass, hstored r hr⟩

/-- What the planners read is as ZFS stores it. -/
structure Stored (request : Request) (view : View) : Prop where
  policy : Resolved request.policy
  members : ∀ m ∈ request.members, Resolved m.policy
  names : ∀ r ∈ view.source.properties, userProperty r.name.text = true

theorem Stored.receivable (hs : Stored request view) (h : viewStream request view = .ok (stream, p)) : Receivable p := by
  rcases viewStream_policy h with rfl | ⟨m, hm, rfl⟩
  · exact hs.policy.receivable
  · exact (hs.members m hm).receivable

theorem build_accepted (hs : Stored request view) (h : build request view installation = .ok plan) :
    Accepted text request plan := by
  obtain ⟨stream, p, hview, hsend, hvalid⟩ := build_stream h
  obtain ⟨scope, hscope, hreceive⟩ := build_receive hview h
  have htarget := scopeOf_valid hscope hvalid
  refine ⟨build_sends h, ?_, fun hlocal => ?_⟩
  · rw [hreceive]
    refine receive_accepted (hs.receivable hview) hs.names htarget rfl (fun x hx => ?_) rfl
    simp only at hx
    split at hx
    · simpa using hx
    · exact .inl hx
  · refine stream_apart hscope hlocal (viewStream_source hview) hvalid hsend ?_ ?_ ?_
    · rw [hreceive]
      exact htarget
    · rw [hreceive]
    · rw [hreceive]

theorem resume_accepted {r : Reference} (hs : Stored request view)
    (htokens : ∀ x ∈ view.destination.resumeTokens, TokenText (text x.2))
    (h : buildResume request view installation = .ok (plan, r)) : Accepted text request plan := by
  obtain ⟨stream, p, scope, d, token, hview, hscope, hvalid, hd, hin, htoken, hsend, hreceive⟩ := resume_stream h
  refine ⟨fun estimate => ?_, ?_, fun hlocal => ?_⟩
  · rw [hsend]
    exact sendArgs_token (htokens _ htoken)
  · rw [hreceive]
    exact receive_accepted (hs.receivable hview) hs.names hd rfl (fun x hx => .inl hx) rfl
  · rw [hsend, hreceive]
    exact stream_apart hscope hlocal (viewStream_source hview) hvalid rfl hd hin rfl

end Plans

/-- Every plan passes the checks of the commands that it becomes, when tokens are as ZFS prints them. -/
theorem plan_accepted [Digests] (text : Token → List Char) (request : Request) (view : View) (installation : ID)
    (hs : Stored request view) :
    (∀ plan, build request view installation = .ok plan → Accepted text request plan) ∧
    ((∀ x ∈ view.destination.resumeTokens, TokenText (text x.2)) →
      ∀ plan r, buildResume request view installation = .ok (plan, r) → Accepted text request plan) :=
  ⟨fun _ h => build_accepted hs h, fun htokens _ _ h => resume_accepted hs htokens h⟩

/-! ### A stream cut off, under a stored policy -/

section Sample

attribute [local instance] plainDigests

def uncutView : View := { cutView with
  inventory := [⟨["cut"], .filesystem, "-"⟩, ⟨["vault"], .filesystem, "-"⟩]
  source := { cutSource with properties := authorityRows ["cut"] ⟨9, 9⟩ ⟨1, 1⟩ ++ (packageInstant 1).rows ["cut"] }
  destination := { cutReplica with objects := [], resumeTokens := [], distinct := by decide }
  destinationExists := false
  destinationIdentity := some ⟨["vault"], .filesystem, 70, 5⟩
  rootDestinationExists := false
  rootDestinationIdentity := some ⟨["vault"], .filesystem, 70, 5⟩
  bindingIdentity := none }

theorem cut_stored : Stored (cutRequest []) cutView := ⟨cutPolicy_resolved (by simp), by rintro m ⟨⟩, by decide⟩

theorem uncut_stored : Stored (cutRequest []) uncutView := ⟨cutPolicy_resolved (by simp), by rintro m ⟨⟩, by decide⟩

theorem within_of_all {token : List Char} {low : Nat}
    (h : (token.all fun c => low ≤ c.toNat && c.toNat ≤ 0x7e) = true) : ∀ c ∈ token, low ≤ c.toNat ∧ c.toNat ≤ 0x7e :=
  fun c hc => by simpa using List.all_eq_true.mp h c hc

/-- A token that looks like an option is printable, and no send takes it. -/
theorem resume_refused : ∃ plan r, Stored (cutRequest []) cutView ∧
    (∀ x ∈ cutView.destination.resumeTokens, ∀ c ∈ (fun _ => "-x".toList : Token → List Char) x.2,
      0x20 ≤ c.toNat ∧ c.toNat ≤ 0x7e) ∧
    buildResume (cutRequest []) cutView ⟨9, 9⟩ = .ok (plan, r) ∧
    ∀ estimate args, sendArgs (fun _ => "-x".toList) plan.send estimate ≠ .ok args := by
  obtain ⟨⟨plan, r⟩, hx⟩ : ∃ x, buildResume (cutRequest []) cutView ⟨9, 9⟩ = .ok x := ⟨_, rfl⟩
  refine ⟨plan, r, cut_stored, fun _ _ => within_of_all rfl, hx, fun estimate args hargs => ?_⟩
  cases hx
  cases hargs

/-- A first stream, and its continuation under a token of ZFS's shape. -/
theorem cut_accepted : ∃ first plan r, build (cutRequest []) uncutView ⟨9, 9⟩ = .ok first ∧ first.mode = .full ∧
    buildResume (cutRequest []) cutView ⟨9, 9⟩ = .ok (plan, r) ∧
    Accepted (fun _ => "1-c7d2-b8".toList) (cutRequest []) first ∧ Accepted (fun _ => "1-c7d2-b8".toList) (cutRequest []) plan := by
  obtain ⟨first, hfirst, hmode⟩ : ∃ plan, build (cutRequest []) uncutView ⟨9, 9⟩ = .ok plan ∧ plan.mode = .full := ⟨_, rfl, rfl⟩
  obtain ⟨⟨plan, r⟩, hplan⟩ : ∃ x, buildResume (cutRequest []) cutView ⟨9, 9⟩ = .ok x := ⟨_, rfl⟩
  have htoken : TokenText "1-c7d2-b8".toList := ⟨by decide, by decide, by decide, within_of_all rfl⟩
  exact ⟨first, plan, r, hfirst, hmode, hplan, (plan_accepted _ _ _ _ uncut_stored).1 first hfirst,
    (plan_accepted _ _ _ _ cut_stored).2 (fun _ _ => htoken) plan r hplan⟩

end Sample

end Boomerangz.Transfer
