import Boomerangz.Policy.Grid
import Boomerangz.Policy.Receivable
import Boomerangz.Transfer.Package
import Boomerangz.Transfer.Resume

/-! # The receive side

A resumed receive does not set `canmount` on its own; otherwise the two planners agree.
-/

namespace Boomerangz.Transfer

open Check Lists Zfs Policy Lifecycle

/-! ## Arguments -/

/-- An option or an operand of `zfs receive`. -/
inductive ReceiveArg where
  | flag (c : Char)
  | set (key : Key) (value : String)
  | exclude (key : Key)
  | root (d : Dataset)
deriving DecidableEq, Repr

def streamProperty (name : List Char) : Bool :=
  !name.isEmpty && name.all fun c => ('a' ≤ c && c ≤ 'z') || ('0' ≤ c && c ≤ '9') || c == ':' || c == '_' || c == '-' ||
    c == '.'

def ReceiveDiscard.args : ReceiveDiscard → Except Error (List ReceiveArg)
  | exact => .ok []
  | dropFirst => .ok [.flag 'd']
  | dropAll => .ok [.flag 'e']
  | other _ => .error (.plain "invalid receive discard mode")

section Arguments

def setArg (p : String × String) : Except Error (Option ReceiveArg) := do
  require (streamProperty p.1.toList && !namespaceText.isPrefixOf p.1.toList && !p.2.toList.contains '\x00')
    (.message "invalid or reserved receive override %q" [.text p.1])
  return some (.set (.native p.1) p.2)

variable [Digests]

def excludeArg (set : List (String × String)) (k : Key) : Except Error (Option ReceiveArg) := do
  require (streamProperty k.text) (.message "invalid receive exclusion %q" [.key k])
  return if set.any (fun p => Key.native p.1 == k) || k == .placeholder then none else some (.exclude k)

def receiveArgs (options : ReceiveOptions) : Except Error (List ReceiveArg) := do
  require (validDataset options.root) (.invalidName options.root)
  let mode ← options.discard.args
  let sets ← collect setArg (options.set.insertionSort fun a b => textLe a.1.toList b.1.toList)
  let excluded ← collect (excludeArg options.set)
    (compact (options.exclude.insertionSort fun a b => textLe a.text b.text))
  return [.flag 'u', .flag 's'] ++ mode ++ sets ++ [.set .placeholder "off"] ++ excluded ++ [.root options.root]

end Arguments

/-! ## Isolation -/

/-- The receive is unmounted, resumable and without force, and leaves out every policy, proof and binding of the
source. -/
structure Isolated [Digests] (source : State) (args : List ReceiveArg) : Prop where
  unmounted : .flag 'u' ∈ args
  resumable : .flag 's' ∈ args
  flags : ∀ c, .flag c ∈ args → c ≠ 'F' ∧ c ≠ 'd' ∧ c ≠ 'e'
  marker : .set .placeholder "off" ∈ args
  reserved : ∀ k v, .set k v ∈ args → namespaceText <+: k.text → k = .placeholder ∧ v = "off"
  excluded : ∀ r ∈ source.properties, (r.name.isPublic || r.name.isReference || r.name.isTargetState) = true →
    .exclude r.name ∈ args
  owned : ∀ k, .exclude k ∈ args → k.text ≠ Key.text .lineage ∧ k.text ≠ Key.text .snapshot

def setsCanmount (p : Effective) : Bool := p.setProperties.any (·.1 == "canmount")

/-- A filesystem gets `canmount` from the policy, or `noauto`. -/
def CanmountSet (p : Effective) (filesystem : Bool) (args : List ReceiveArg) : Prop :=
  filesystem = true → ∃ v, .set (.native "canmount") v ∈ args ∧
    (("canmount", v) ∈ p.setProperties ∨ setsCanmount p = false ∧ v = "noauto")

/-- No name under `org.boomerangz:state:` is read as a policy's. -/
def StateRead (s : State) : Prop := ∀ r ∈ s.properties, ∀ text, r.name = .policy text → publicText text = true

/-- The dataset that is received into `root` is a filesystem at the source. -/
def intoFilesystem (request : Request) (view : View) (root : Dataset) : Bool :=
  match mapReceiveDataset request.source request.destinationRoot request.policy.discard with
  | .ok mappedRoot => (view.source.object (.dataset (request.source ++ root.drop mappedRoot.length))).any
      (·.type == .filesystem)
  | .error _ => false

section Isolation

variable [Digests] {options : ReceiveOptions} {args : List ReceiveArg} {a : ReceiveArg} {p : Effective} {s : State}

omit [Digests] in
theorem setArg_eq_ok {x : String × String} : setArg x = .ok (some a) ↔ streamProperty x.1.toList = true ∧
    namespaceText.isPrefixOf x.1.toList = false ∧ x.2.toList.contains '\x00' = false ∧ a = .set (.native x.1) x.2 := by
  simp only [setArg, ok_iff, Bool.and_eq_true, Bool.not_eq_true', Option.some.injEq, and_assoc]
  rw [eq_comm (a := a)]

theorem excludeArg_eq_ok {set : List (String × String)} {k : Key} : excludeArg set k = .ok (some a) ↔
    streamProperty k.text = true ∧ set.any (fun p => Key.native p.1 == k) = false ∧ k ≠ .placeholder ∧ a = .exclude k := by
  simp only [excludeArg, ok_iff]
  by_cases hskip : (set.any (fun p => Key.native p.1 == k) || k == .placeholder) = true
  · rw [if_pos hskip]
    simp only [reduceCtorEq, and_false, false_iff]
    rintro ⟨-, hset, hplaceholder, -⟩
    simp [hset, hplaceholder] at hskip
  · rw [if_neg hskip]
    simp only [Bool.not_eq_true, Bool.or_eq_false_iff, beq_eq_false_iff_ne] at hskip
    simp only [hskip.1, ne_eq, hskip.2, not_false_iff, true_and, Option.some.injEq, eq_comm]

theorem mem_receiveArgs (h : receiveArgs options = .ok args) : a ∈ args ↔
    a = .flag 'u' ∨ a = .flag 's' ∨ (∃ mode, options.discard.args = .ok mode ∧ a ∈ mode) ∨
      (∃ x ∈ options.set, setArg x = .ok (some a)) ∨ a = .set .placeholder "off" ∨
      (∃ k ∈ options.exclude, excludeArg options.set k = .ok (some a)) ∨ a = .root options.root := by
  simp only [receiveArgs, ok_iff] at h
  obtain ⟨-, mode, hmode, sets, hsets, excluded, hexcluded, rfl⟩ := h
  simp only [List.mem_append, List.mem_cons, List.not_mem_nil, or_false, mem_collect hsets, mem_collect hexcluded,
    List.mem_insertionSort, mem_compact, hmode, Except.ok.injEq, exists_eq_left', or_assoc]

theorem receiveArgs_sets (h : receiveArgs options = .ok args) {x : String × String} (hx : x ∈ options.set) :
    setArg x = .ok (some (.set (.native x.1) x.2)) := by
  simp only [receiveArgs, ok_iff] at h
  obtain ⟨-, mode, -, sets, hsets, -⟩ := h
  obtain ⟨o, ho⟩ := collect_total hsets ((List.mem_insertionSort _).mpr hx)
  simp only [setArg, ok_iff] at ho
  simp only [setArg, require, ho.1, if_true]
  rfl

theorem receiveArgs_excludes (h : receiveArgs options = .ok args) {k : Key} (hk : k ∈ options.exclude) :
    streamProperty k.text = true := by
  simp only [receiveArgs, ok_iff] at h
  obtain ⟨-, mode, -, sets, -, excluded, hexcluded, -⟩ := h
  obtain ⟨o, ho⟩ := collect_total hexcluded (mem_compact.mpr ((List.mem_insertionSort _).mpr hk))
  simp only [excludeArg, ok_iff] at ho
  exact ho.1

omit [Digests] in
theorem mem_receiveExclusions {k : Key} : k ∈ receiveExclusions p s ↔
    (∃ name ∈ p.ignoreProperties, Key.native name = k) ∨
      (∃ v ∈ p.values, publicText v.name = true ∧ Key.policy v.name = k) ∨
      (∃ r ∈ s.properties, r.name = k) ∧ (k.isPublic || k.isReference || k.isTargetState) = true := by
  simp only [receiveExclusions, List.mem_dedup, List.mem_append, List.mem_map, List.mem_filter, or_assoc, and_assoc]

theorem policy_text_ne {name : String} (h : publicText name = true) : (Key.policy name).text ≠ Key.text .lineage ∧
    (Key.policy name).text ≠ Key.text .snapshot := by
  have hne : ∀ rest, name.toList ≠ "state:".toList ++ rest := by
    intro rest heq
    rw [publicText, heq, Bool.not_eq_true', ← Bool.not_eq_true] at h
    exact h (List.isPrefixOf_iff_prefix.mpr (List.prefix_append _ _))
  simp only [Key.text, stateNamespace, List.append_assoc, ne_eq, List.append_cancel_left_eq]
  exact ⟨hne _, hne _⟩

theorem excluded_text_ne {k : Key} (hp : Receivable p) (hread : StateRead s) (hk : k ∈ receiveExclusions p s) :
    k.text ≠ Key.text .lineage ∧ k.text ≠ Key.text .snapshot := by
  rcases mem_receiveExclusions.mp hk with ⟨name, hname, rfl⟩ | ⟨v, -, hv, rfl⟩ | ⟨⟨r, hr, rfl⟩, hclass⟩
  · -- `Resolve` refuses a name of the namespace
    have hforeign := (hp.ignores name hname).2.2
    have hne : ∀ rest, name.toList ≠ namespaceText ++ rest := by
      intro rest heq
      rw [startsWith, heq, ← Bool.not_eq_true] at hforeign
      exact hforeign (List.isPrefixOf_iff_prefix.mpr (List.prefix_append _ _))
    simp only [Key.text, stateNamespace, List.append_assoc]
    exact ⟨hne _, hne _⟩
  · exact policy_text_ne hv
  · cases hname : r.name with
    | policy text => exact policy_text_ne (hread r hr text hname)
    | reference | badReference | target | suspended | badTarget => simp [Key.text]
    | _ => simp [hname, Key.isPublic, Key.isReference, Key.isTargetState] at hclass

section Exact

variable (h : receiveArgs options = .ok args) (hdiscard : options.discard = .exact)
include h hdiscard

theorem flag_mem {c : Char} : .flag c ∈ args ↔ c = 'u' ∨ c = 's' := by
  simp [mem_receiveArgs h, hdiscard, ReceiveDiscard.args, setArg_eq_ok, excludeArg_eq_ok]

theorem set_mem {k : Key} {v : String} : .set k v ∈ args ↔
    (∃ x ∈ options.set, x.2 = v ∧ Key.native x.1 = k) ∨ k = .placeholder ∧ v = "off" := by
  simp only [mem_receiveArgs h, hdiscard, ReceiveDiscard.args, excludeArg_eq_ok, reduceCtorEq, Except.ok.injEq,
    exists_eq_left', List.not_mem_nil, false_or, and_false, exists_false, or_false, ReceiveArg.set.injEq]
  refine or_congr_left ⟨?_, ?_⟩
  · rintro ⟨x, hx, harg⟩
    obtain ⟨-, -, -, heq⟩ := setArg_eq_ok.mp harg
    obtain ⟨rfl, rfl⟩ := ReceiveArg.set.inj heq
    exact ⟨x, hx, rfl, rfl⟩
  · rintro ⟨x, hx, rfl, rfl⟩
    exact ⟨x, hx, receiveArgs_sets h hx⟩

theorem exclude_mem {k : Key} : .exclude k ∈ args ↔
    k ∈ options.exclude ∧ options.set.any (fun x => Key.native x.1 == k) = false ∧ k ≠ .placeholder := by
  simp only [mem_receiveArgs h, hdiscard, ReceiveDiscard.args, setArg_eq_ok, reduceCtorEq, Except.ok.injEq,
    exists_eq_left', List.not_mem_nil, false_or, and_false, exists_false, or_false]
  constructor
  · rintro ⟨k', hk', harg⟩
    obtain ⟨-, hset, hplaceholder, heq⟩ := excludeArg_eq_ok.mp harg
    obtain rfl := ReceiveArg.exclude.inj heq
    exact ⟨hk', hset, hplaceholder⟩
  · rintro ⟨hk, hset, hplaceholder⟩
    exact ⟨k, hk, excludeArg_eq_ok.mpr ⟨receiveArgs_excludes h hk, hset, hplaceholder, rfl⟩⟩

theorem isolated_of_options (hp : Receivable p) (hread : StateRead s)
    (hexclude : options.exclude = receiveExclusions p s) : Isolated s args where
  unmounted := (flag_mem h hdiscard).mpr (.inl rfl)
  resumable := (flag_mem h hdiscard).mpr (.inr rfl)
  flags c hc := by
    rcases (flag_mem h hdiscard).mp hc with rfl | rfl <;> decide
  marker := (set_mem h hdiscard).mpr (.inr ⟨rfl, rfl⟩)
  reserved k v hkv htext := by
    rcases (set_mem h hdiscard).mp hkv with ⟨x, hx, rfl, rfl⟩ | hplaceholder
    · obtain ⟨-, hreserved, -⟩ := setArg_eq_ok.mp (receiveArgs_sets h hx)
      have htext : namespaceText <+: x.1.toList := htext
      rw [List.isPrefixOf_iff_prefix.mpr htext] at hreserved
      cases hreserved
    · exact hplaceholder
  excluded r hr hclass := by
    refine (exclude_mem h hdiscard).mpr ⟨?_, ?_, ?_⟩
    · rw [hexclude]
      exact mem_receiveExclusions.mpr (.inr (.inr ⟨⟨r, hr, rfl⟩, hclass⟩))
    · rw [List.any_eq_false]
      intro x _ hx
      rw [← beq_iff_eq.mp hx] at hclass
      cases hclass
    · intro hplaceholder
      rw [hplaceholder] at hclass
      cases hclass
  owned k hk := excluded_text_ne hp hread (hexclude ▸ ((exclude_mem h hdiscard).mp hk).1)

theorem set_canmount_iff {v : String} : .set (.native "canmount") v ∈ args ↔ ("canmount", v) ∈ options.set := by
  rw [set_mem h hdiscard]
  constructor
  · rintro (⟨⟨name, value⟩, hx, rfl, heq⟩ | ⟨hplaceholder, -⟩)
    · rwa [← Key.native.inj heq]
    · cases hplaceholder
  · exact fun hx => .inl ⟨_, hx, rfl, rfl⟩

end Exact

end Isolation

/-! ## The planners -/

section Planners

variable {request : Request} {view : View} {installation : ID} {stream : Member} {p : Effective} {plan : Plan}

theorem scopePolicy_receive {scope : Scope} {q : Effective} (h : scopePolicy request view scope = .ok q) :
    q.setProperties = scope.policy.setProperties ∧ receiveExclusions q view.source =
      receiveExclusions scope.policy view.source := by
  simp only [scopePolicy, ok_iff] at h
  obtain ⟨-, -, rfl⟩ := h
  split
  · unfold receiveExclusions
    simp
  · exact ⟨rfl, rfl⟩

theorem viewStream_valid (h : viewStream request view = .ok (stream, p)) : request.source ≠ [] := by
  simp only [viewStream, ok_iff] at h
  rintro hnil
  simp [hnil, validDataset] at h

theorem scopeOf_eq_ok {scope : Scope} (h : scopeOf request stream p = .ok scope) :
    mapReceiveDataset request.source request.destinationRoot request.policy.discard = .ok scope.mappedRoot ∧
      inside stream.dataset request.source = true ∧ scope.stream = stream ∧ scope.policy = p ∧
      scope.target = place request.source scope.mappedRoot stream.dataset := by
  simp only [scopeOf, Request.mapped, ok_iff] at h
  obtain ⟨_, ⟨root, hroot, hinside, rfl⟩, -, rfl⟩ := h
  exact ⟨hroot, hinside, rfl, rfl, rfl⟩

theorem intoFilesystem_target {scope : Scope} (hstream : viewStream request view = .ok (stream, p))
    (hscope : scopeOf request stream p = .ok scope) : intoFilesystem request view scope.target =
      (view.source.object (.dataset stream.dataset)).any (·.type == .filesystem) := by
  obtain ⟨hroot, hinside, -, -, htarget⟩ := scopeOf_eq_ok hscope
  obtain ⟨rest, hrest⟩ := (inside_iff (viewStream_valid hstream)).mp hinside
  have hback : request.source ++ scope.target.drop scope.mappedRoot.length = stream.dataset := by
    rw [htarget, place, List.drop_left, ← hrest, List.drop_left]
  simp only [intoFilesystem, hroot, hback]

theorem build_receive (hstream : viewStream request view = .ok (stream, p))
    (h : build request view installation = .ok plan) : ∃ scope, scopeOf request stream p = .ok scope ∧
      plan.receive = ⟨scope.target, .exact, if intoFilesystem request view scope.target && !setsCanmount p
        then p.setProperties ++ [("canmount", "noauto")] else p.setProperties, receiveExclusions p view.source⟩ := by
  simp only [build, ok_iff] at h
  obtain ⟨sel, hsel, ⟨mode, base⟩, -, rfl⟩ := h
  simp only [select, ok_iff] at hsel
  obtain ⟨scope, hscope, i, -, q, hq, lineage, -, -, -, -, ⟨binding, new⟩, -, -, -, endpoint, -, endpoints, -, rfl⟩ := hsel
  obtain ⟨stream', p', hstream', hscope⟩ := buildScope_eq_ok hscope
  obtain ⟨rfl, rfl⟩ := Prod.mk.inj (Except.ok.inj (hstream.symm.trans hstream'))
  obtain ⟨-, -, hs, hp, -⟩ := scopeOf_eq_ok hscope
  obtain ⟨hset, hexclude⟩ := scopePolicy_receive hq
  rw [hp] at hset hexclude
  refine ⟨scope, hscope, ?_⟩
  simp only [planOf, hset, hexclude, hs, intoFilesystem_target hstream hscope, setsCanmount]

theorem resumeScope_eq_ok {scope : Scope} (h : resumeScope request view = .ok scope) :
    ∃ stream p, viewStream request view = .ok (stream, p) ∧ scopeOf request stream p = .ok scope := by
  simp only [resumeScope, bind_eq_ok] at h
  obtain ⟨⟨stream, p⟩, hview, h⟩ := h
  refine ⟨stream, p, hview, ?_⟩
  split at h
  · simp only [bind_eq_ok] at h
    exact h.choose_spec.2
  · simp only [bind_eq_ok] at h
    exact h.choose_spec.2
  · simp only [bind_eq_ok] at h
    exact h.choose_spec.2
  · simp at h

theorem resumeToken_eq_ok {scope : Scope} {x : Dataset × Token} (h : resumeToken request view scope = .ok x) :
    view.destination.resumeTokens = [x] ∧ inside x.1 scope.target = true := by
  unfold resumeToken at h
  split at h
  · next d token htokens =>
    simp only [ok_iff] at h
    obtain ⟨-, hinside, -, _, -, rfl⟩ := h
    exact ⟨htokens, hinside⟩
  · cases h

theorem resume_receive {r : Reference} (hstream : viewStream request view = .ok (stream, p))
    (h : buildResume request view installation = .ok (plan, r)) : ∃ scope d token, scopeOf request stream p = .ok scope ∧
      plan.destination = scope.target ∧ view.destination.resumeTokens = [(d, token)] ∧
      plan.receive = ⟨d, .exact, p.setProperties, receiveExclusions p view.source⟩ := by
  simp only [buildResume, ok_iff] at h
  obtain ⟨scope, hscope, ⟨d, token⟩, htoken, -, -, lineage, -, suspended, -, -, binding, -, refs, -, h⟩ := h
  obtain ⟨stream', p', hstream', hscope⟩ := resumeScope_eq_ok hscope
  obtain ⟨rfl, rfl⟩ := Prod.mk.inj (Except.ok.inj (hstream.symm.trans hstream'))
  obtain ⟨-, -, -, hp, -⟩ := scopeOf_eq_ok hscope
  split at h
  · simp at h
  · simp only [ok_iff, Prod.mk.injEq] at h
    obtain ⟨sources, -, expected, -, -, rfl, -⟩ := h
    exact ⟨scope, d, token, hscope, rfl, (resumeToken_eq_ok htoken).1, by simp only [hp]⟩

theorem viewStream_congr {view' : View} (h : view'.stream = view.stream) :
    viewStream request view' = viewStream request view := by
  simp only [viewStream, h]

theorem setsCanmount_iff : setsCanmount p = true ↔ ∃ v, ("canmount", v) ∈ p.setProperties := by
  simp only [setsCanmount, List.any_eq_true, beq_iff_eq]
  constructor
  · rintro ⟨⟨name, v⟩, hx, rfl⟩
    exact ⟨v, hx⟩
  · rintro ⟨v, hx⟩
    exact ⟨_, hx, rfl⟩

variable [Digests]

/-- Under a policy that `Resolve` makes, both planners isolate the receive. A resumed receive sets `canmount`, and
sets and leaves out what a fresh plan of its stream would, exactly when its token is not on the replica of a
filesystem or the policy sets `canmount`. -/
theorem receive_isolated (hstream : viewStream request view = .ok (stream, p)) (hp : Resolved p)
    (hread : StateRead view.source) (installation : ID) :
    (∀ plan args, build request view installation = .ok plan → receiveArgs plan.receive = .ok args →
      Isolated view.source args ∧ CanmountSet p (intoFilesystem request view plan.receive.root) args) ∧
    (∀ plan r args d token, buildResume request view installation = .ok (plan, r) →
      receiveArgs plan.receive = .ok args → (d, token) ∈ view.destination.resumeTokens →
      ((Isolated view.source args ∧ CanmountSet p (intoFilesystem request view d) args ∧
        (d = plan.destination → ∀ view' plan', view'.source = view.source → view'.stream = view.stream →
          build request view' installation = .ok plan' → plan'.receive = plan.receive)) ↔
      (intoFilesystem request view d = true → setsCanmount p = true))) := by
  constructor
  · intro plan args hplan hargs
    obtain ⟨scope, hscope, hreceive⟩ := build_receive hstream hplan
    have hdiscard : plan.receive.discard = .exact := by rw [hreceive]
    refine ⟨isolated_of_options hargs hdiscard hp.receivable hread (by rw [hreceive]), fun hfs => ?_⟩
    have hroot : plan.receive.root = scope.target := by rw [hreceive]
    rw [hroot] at hfs
    by_cases hcan : setsCanmount p = true
    · obtain ⟨v, hv⟩ := setsCanmount_iff.mp hcan
      exact ⟨v, (set_canmount_iff hargs hdiscard).mpr (by simp [hreceive, hcan, hv]), .inl hv⟩
    · rw [Bool.not_eq_true] at hcan
      exact ⟨"noauto", (set_canmount_iff hargs hdiscard).mpr (by simp [hreceive, hcan, hfs]), .inr ⟨hcan, rfl⟩⟩
  · intro plan r args d token hplan hargs hd
    obtain ⟨scope, root, token', hscope, hdestination, htokens, hreceive⟩ := resume_receive hstream hplan
    rw [htokens, List.mem_singleton, Prod.mk.injEq] at hd
    obtain ⟨rfl, -⟩ := hd
    have hdiscard : plan.receive.discard = .exact := by rw [hreceive]
    have hset : plan.receive.set = p.setProperties := by rw [hreceive]
    constructor
    · rintro ⟨-, hcan, -⟩ hfs
      obtain ⟨v, hv, -⟩ := hcan hfs
      rw [set_canmount_iff hargs hdiscard, hset] at hv
      exact setsCanmount_iff.mpr ⟨v, hv⟩
    · intro hcond
      refine ⟨isolated_of_options hargs hdiscard hp.receivable hread (by rw [hreceive]), fun hfs => ?_,
        fun hown view' plan' hs hst hb => ?_⟩
      · obtain ⟨v, hv⟩ := setsCanmount_iff.mp (hcond hfs)
        exact ⟨v, (set_canmount_iff hargs hdiscard).mpr (hset ▸ hv), .inl hv⟩
      · obtain ⟨scope', hscope', hreceive'⟩ := build_receive ((viewStream_congr hst).trans hstream) hb
        obtain rfl := Except.ok.inj (hscope.symm.trans hscope')
        have hinto : intoFilesystem request view' scope.target = intoFilesystem request view scope.target := by
          simp only [intoFilesystem, hs]
        rw [hown, hdestination] at hcond
        rw [hreceive', hreceive, hinto, hs, hown, hdestination]
        by_cases hfs : intoFilesystem request view scope.target = true
        · simp [hfs, hcond hfs]
        · simp [hfs]

end Planners

/-! ### A stream cut off -/

section Sample

@[reducible] def plainDigests : Digests where
  target t := t.target.toList.filter Char.isAlphanum
  stream s := (path s.dataset).filter Char.isAlphanum
  uuid u := Nat.toDigits 10 u.short ++ '-' :: Nat.toDigits 10 u.rest
  short := Nat.toDigits 10
  time := Nat.toDigits 10

attribute [local instance] plainDigests

def cutProof : Reference := ⟨⟨"local:vault/cut"⟩, ["cut"], packageInstant 1, false⟩

def cutSource : State where
  objects := [.ofRow (.dataset ["cut"]) .filesystem 71 31 (by decide),
    .ofRow (.snapshot ["cut"] (packageInstant 1).name) .snapshot 72 32 (by decide)]
  properties := authorityRows ["cut"] ⟨9, 9⟩ ⟨1, 1⟩ ++ (packageInstant 1).rows ["cut"] ++
    [⟨.dataset ["cut"], .target ⟨"local:vault/cut"⟩, .binding ⟨5, ["vault", "cut"], 73, []⟩, .sourceLocal⟩,
      ⟨.dataset ["cut"], cutProof.property, .reference (encodeReference cutProof ["cut"]), .sourceLocal⟩]
  holds := [(.snapshot ["cut"] (packageInstant 1).name, cutProof.hold)]
  distinct := by decide

def cutReplica : State where
  objects := [.ofRow (.dataset ["vault", "cut"]) .filesystem 73 33 (by decide)]
  properties := []
  resumeTokens := [(["vault", "cut"], ⟨.snapshot ["cut"] (packageInstant 1).name, 72⟩)]
  distinct := by decide

def cutView : View where
  stream := []
  inventory := [⟨["cut"], .filesystem, "-"⟩, ⟨["vault", "cut"], .filesystem, "-"⟩]
  destinationInventory := none
  source := cutSource
  destination := cutReplica
  destinationExists := true
  destinationIdentity := some ⟨["vault", "cut"], .filesystem, 73, 5⟩
  rootDestinationExists := true
  rootDestinationIdentity := some ⟨["vault", "cut"], .filesystem, 73, 5⟩
  bindingIdentity := some ⟨["vault", "cut"], .filesystem, 73, 5⟩

def cutRows (set : List (String × String)) : List Property :=
  (("enabled", "on") :: ("local", "vault/cut") :: set).map fun (x : String × String) =>
    ⟨.dataset ["cut"], .policy x.1, .text x.2, .sourceLocal⟩

def cutRequest (set : List (String × String)) : Request where
  source := ["cut"]
  destinationRoot := ["vault", "cut"]
  snapshot := none
  policy := resolve plainTexts ["cut"] false none (cutRows set) []
  members := []
  transport := .localHost
  remoteName := ""
  canonicalTarget := ""

theorem cutPolicy_resolved {set : List (String × String)}
    (h : ∀ x ∈ set, userProperty x.1.toList = true ∧ '\x00' ∉ x.2.toList) : Resolved (cutRequest set).policy := by
  have hrows : ∀ x ∈ ("enabled", "on") :: ("local", "vault/cut") :: set,
      userProperty x.1.toList = true ∧ '\x00' ∉ x.2.toList := by
    simp only [List.mem_cons]
    rintro x (rfl | rfl | hx)
    · decide
    · decide
    · exact h x hx
  refine .resolve plainTexts ["cut"] false none (cutRows set) [] (fun p hp => by cases hp) ?_ ?_
  · simp only [cutRows, List.mem_map]
    rintro _ ⟨x, hx, rfl⟩
    rw [Key.text, userProperty, List.all_append, Bool.and_eq_true]
    exact ⟨by decide, (hrows x hx).1⟩
  · simp only [cutRows, List.mem_map]
    rintro _ ⟨x, hx, rfl⟩
    exact (hrows x hx).2

theorem cutSource_read : StateRead cutSource := by
  have hnames : ∀ r ∈ cutSource.properties, r.name.isPublic = false := by decide
  intro r hr text hname
  have := hnames r hr
  rw [hname] at this
  cases this

/-- Resumed into a filesystem, the receive does not set `canmount`. -/
theorem resume_without_canmount : Resolved (cutRequest []).policy ∧ ∃ plan r args,
    buildResume (cutRequest []) cutView ⟨9, 9⟩ = .ok (plan, r) ∧ receiveArgs plan.receive = .ok args ∧
      cutView.destination.resumeTokens.map Prod.fst = [plan.destination] ∧
      intoFilesystem (cutRequest []) cutView plan.destination = true ∧ ∀ v, .set (.native "canmount") v ∉ args := by
  obtain ⟨x, hx⟩ : ∃ x, buildResume (cutRequest []) cutView ⟨9, 9⟩ = .ok x := ⟨_, rfl⟩
  obtain ⟨args, hargs⟩ : ∃ args, receiveArgs x.1.receive = .ok args := by
    cases hx
    exact ⟨_, rfl⟩
  refine ⟨cutPolicy_resolved (by simp), x.1, x.2, args, hx, hargs, by cases hx; rfl, by cases hx; decide, fun v hv => ?_⟩
  rw [set_canmount_iff hargs (by cases hx; rfl)] at hv
  cases hx
  cases hv

/-- With `canmount` in the policy the resumed receive sets it. -/
theorem resume_with_canmount : ∃ plan r args,
    buildResume (cutRequest [("set_prop:canmount", "off")]) cutView ⟨9, 9⟩ = .ok (plan, r) ∧
      receiveArgs plan.receive = .ok args ∧ Isolated cutSource args ∧ .set (.native "canmount") "off" ∈ args := by
  let request := cutRequest [("set_prop:canmount", "off")]
  have hok : (buildResume request cutView ⟨9, 9⟩ >>= fun x => receiveArgs x.1.receive).map (fun _ => ()) = .ok () := by
    decide +kernel
  obtain ⟨args, hbind, -⟩ := map_eq_ok.mp hok
  obtain ⟨⟨plan, r⟩, hx, hargs⟩ := bind_eq_ok.mp hbind
  have hstream : (viewStream request cutView).map Prod.snd = .ok request.policy := by decide +kernel
  obtain ⟨⟨stream, p⟩, hstream, rfl⟩ := map_eq_ok.mp hstream
  have hset : request.policy.setProperties = [("canmount", "off")] := by decide +kernel
  have hcan : setsCanmount request.policy = true := by
    rw [setsCanmount, hset]
    rfl
  obtain ⟨hisolated, hreceive, -⟩ := ((receive_isolated hstream (cutPolicy_resolved (by decide)) cutSource_read
    ⟨9, 9⟩).2 plan r args _ _ hx hargs (List.mem_singleton_self _)).mpr fun _ => hcan
  obtain ⟨v, hv, hpolicy | ⟨hnone, -⟩⟩ := hreceive (by decide +kernel)
  · rw [hset, List.mem_singleton, Prod.mk.injEq] at hpolicy
    exact ⟨plan, r, args, hx, hargs, hisolated, hpolicy.2 ▸ hv⟩
  · rw [hcan] at hnone
    cases hnone

end Sample

end Boomerangz.Transfer
