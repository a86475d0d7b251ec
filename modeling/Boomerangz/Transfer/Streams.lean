import Boomerangz.Transfer.Plan

/-! # The streams of one transfer

`Apply` sends the streams one after the other. What an attempt at a stream did is an input.
-/

namespace Boomerangz.Transfer

open Check Zfs Policy

/-! ## Errors -/

/-- One error value, as far as the code asks for its type. -/
inductive Cause where
  | canceled
  | deadlineExceeded
  | placeholderBusy (dataset : Dataset)
  | preparationChanged (history : Bool)
  | destinationUnavailable (root : Dataset)
  | other (temporary : Option Bool)
deriving DecidableEq, Repr

/-- The method `Temporary`, where the type has one. -/
def Cause.temporary : Cause → Option Bool
  | canceled => none
  | deadlineExceeded => some true
  | placeholderBusy _ => some true
  | preparationChanged _ => some true
  | destinationUnavailable _ => some true
  | other answer => answer

/-- An error and everything it wraps, in the order in which `errors.Is` and `errors.As` look. -/
abbrev Failure := List Cause

namespace Failure

def cancelled (e : Failure) : Bool := e.any fun c => c == .canceled || c == .deadlineExceeded

def busy (e : Failure) : Bool := e.any fun c => c matches .placeholderBusy _

/-- `errors.As(err, &changed)`, and its `History`. -/
def historyMoved (e : Failure) : Bool :=
  (e.find? fun c => c matches .preparationChanged _) == some (.preparationChanged true)

/-- `errors.As(err, &temporary) && temporary.Temporary()`. -/
def temporary (e : Failure) : Bool := e.findSome? Cause.temporary == some true

end Failure

/-- `StreamsError.Temporary`. -/
def streamsTemporary (failed : List (Dataset × Failure)) : Bool :=
  failed.all (fun f => Failure.temporary f.2) && !failed.isEmpty

/-- `StreamsError`, which wraps every failure. -/
def streamsError (failed : List (Dataset × Failure)) : Failure :=
  .other (some (streamsTemporary failed)) :: failed.flatMap (·.2)

/-! ## One stream -/

structure Outcome where
  plan : Option Plan
  verified : Bool
  resumeDatasets : List Dataset
  resumed : Option Name

structure Once where
  plan : Option Plan
  resumeDatasets : List Dataset
  error : Option Failure
  ended : Bool

/-- `applyOnce` sets `Verified` last, before it returns without an error. -/
def Once.outcome (o : Once) : Outcome := ⟨o.plan, o.error.isNone, o.resumeDatasets, none⟩

def preparationAttempts : Nat := 3

/-- The loop of `applySettled` with `left` attempts after this one. -/
def settle (calls : Nat → Once) : Nat → Nat → Once × Nat
  | 0, n => (calls n, n + 1)
  | left + 1, n =>
    if (calls n).error.any Failure.historyMoved && !(calls n).ended then settle calls left (n + 1)
    else (calls n, n + 1)

def applySettled (calls : Nat → Once) (n : Nat) : Once × Nat := settle calls (preparationAttempts - 1) n

/-- A stream that was resumed plans again. -/
def applyStream (calls : Nat → Once) : Outcome × Option Failure :=
  let (first, n) := applySettled calls 0
  match first.error, first.plan with
  | none, some plan =>
    if plan.mode = .resume then
      let (again, _) := applySettled calls n
      ({ again.outcome with resumed := some plan.snapshot }, again.error)
    else (first.outcome, none)
  | _, _ => (first.outcome, first.error)

/-! ## All streams -/

/-- `Result`, and the failures and blocks of the loop so far. -/
structure Applied where
  plan : Option Plan
  verified : Bool
  resumeDatasets : List Dataset
  streams : List (Dataset × Outcome)
  failed : List (Dataset × Failure)
  blocked : List Dataset

def Applied.none : Applied := ⟨Option.none, false, [], [], [], []⟩

def Applied.attempted (a : Applied) : List Dataset := a.streams.map (·.1)

def Applied.add (a : Applied) (source d : Dataset) (o : Outcome) : Applied :=
  { a with
    streams := a.streams ++ [(d, o)]
    resumeDatasets := a.resumeDatasets ++ o.resumeDatasets
    plan := if d = source ∨ a.plan.map (·.source) ≠ some source then o.plan else a.plan
    verified := a.verified && o.verified }

def Applied.fail (a : Applied) (d : Dataset) (e : Failure) : Applied :=
  { a with
    failed := a.failed ++ [(d, e)]
    blocked := if e.busy then a.blocked else a.blocked ++ [d] }

/-- The loop of `Apply`. -/
def applyStreams (source : Dataset) (apply : Dataset → Outcome × Option Failure) :
    Applied → List Dataset → Applied × Option Failure
  | a, [] => (a, if a.failed.isEmpty then none else some (streamsError a.failed))
  | a, d :: ds =>
    if a.blocked.any (inside d ·) then applyStreams source apply { a with verified := false } ds
    else
      match apply d with
      | (o, none) => applyStreams source apply (a.add source d o) ds
      | (o, some e) =>
        if e.cancelled then (a.add source d o, some e)
        else applyStreams source apply ((a.add source d o).fail d e) ds

/-- `Apply`. `refused` is what `refuseHostLocal` answers. -/
def apply (r : Request) (refused : Option Failure) (calls : Dataset → Nat → Once) : Applied × Option Failure :=
  match r.streams, refused with
  | .error _, _ => (.none, some [.other none])
  | .ok _, some e => (.none, some e)
  | .ok streams, none =>
    if r.members.isEmpty then
      let (o, e) := applyStream (calls r.source)
      (⟨o.plan, o.verified, o.resumeDatasets, [(r.source, o)], [], []⟩, e)
    else
      applyStreams r.source (fun d => applyStream (calls d)) { Applied.none with verified := true }
        (streams.map (·.dataset))

/-! ## What a failure holds back -/

section Promise

variable (apply : Dataset → Outcome × Option Failure)

def HoldsBack (x d : Dataset) : Prop :=
  ∃ e, (apply x).2 = some e ∧ e.busy = false ∧ x ≠ d ∧ inside d x = true

def Cancels (x : Dataset) : Prop := ∃ e, (apply x).2 = some e ∧ e.cancelled = true

def Before (streams : List Dataset) (x d : Dataset) : Prop := ∃ pre post, streams = pre ++ x :: post ∧ d ∈ post

structure HeldBack (streams : List Dataset) (a : Applied) (err : Option Failure) : Prop where
  inOrder : a.attempted.Sublist streams
  results : ∀ s ∈ a.streams, s.2 = (apply s.1).1
  skipped : ∀ d ∈ streams, d ∉ a.attempted ↔
    (∃ x ∈ a.attempted, HoldsBack apply x d) ∨ ∃ x ∈ a.attempted, Cancels apply x ∧ Before streams x d
  verified : a.verified = true ↔ ∀ d ∈ streams, d ∈ a.attempted ∧ (apply d).1.verified = true
  unfailed : err = none → a.verified = true
  combined : ∀ e, err = some e → (∃ d ∈ a.attempted, (apply d).2 = some e ∧ e.cancelled = true) ∨
    (e.temporary = true ↔ ∀ d ∈ a.attempted, ∀ f, (apply d).2 = some f → f.temporary = true)

structure Loop (done : List Dataset) (a : Applied) : Prop where
  inOrder : a.attempted.Sublist done
  results : ∀ s ∈ a.streams, s.2 = (apply s.1).1
  blocked : ∀ d, d ∈ a.blocked ↔ d ∈ a.attempted ∧ ∃ e, (apply d).2 = some e ∧ e.busy = false
  failed : ∀ f, f ∈ a.failed ↔ f.1 ∈ a.attempted ∧ (apply f.1).2 = some f.2
  going : ∀ d ∈ a.attempted, ¬ Cancels apply d
  skipped : ∀ d ∈ done, d ∉ a.attempted ↔ ∃ x ∈ a.attempted, HoldsBack apply x d
  verified : a.verified = true ↔ ∀ d ∈ done, d ∈ a.attempted ∧ (apply d).1.verified = true

end Promise

/-! ## The loop -/

section Steps

variable {apply : Dataset → Outcome × Option Failure} {source d : Dataset} {done : List Dataset} {a : Applied}
  {e : Failure}

@[simp] theorem attempted_add (o : Outcome) : (a.add source d o).attempted = a.attempted ++ [d] := by
  simp [Applied.attempted, Applied.add]

theorem ne_of_before (hbefore : ∀ x ∈ done, inside x d = false) {x : Dataset} (hx : x ∈ done) : x ≠ d := by
  rintro rfl
  exact absurd (inside_self x) (by simp [hbefore x hx])

variable (h : Loop apply done a)

include h

theorem Loop.results_snoc (source d : Dataset) :
    ∀ s ∈ (a.add source d (apply d).1).streams, s.2 = (apply s.1).1 := by
  simp only [Applied.add, List.forall_mem_append, List.forall_mem_singleton, and_true]
  exact h.results

variable (hbefore : ∀ x ∈ done, inside x d = false)

include hbefore

theorem Loop.verified_snoc (source : Dataset) :
    (a.add source d (apply d).1).verified = true ↔
      ∀ y ∈ done ++ [d], y ∈ a.attempted ++ [d] ∧ (apply y).1.verified = true := by
  rw [List.forall_mem_append, List.forall_mem_singleton]
  simp only [Applied.add, Bool.and_eq_true, h.verified, List.mem_append, List.mem_singleton, or_true, true_and]
  refine and_congr_left fun _ => forall₂_congr fun y hy => ?_
  simp [ne_of_before hbefore hy]

theorem Loop.skip (hblocked : a.blocked.any (inside d ·) = true) :
    Loop apply (done ++ [d]) { a with verified := false } := by
  have hnew : d ∉ a.attempted := fun hd => ne_of_before hbefore (h.inOrder.subset hd) rfl
  refine ⟨h.inOrder.trans (List.sublist_append_left ..), h.results, h.blocked, h.failed, h.going, ?_, ?_⟩
  · intro y hy
    rcases List.mem_append.mp hy with hy | hy
    · exact h.skipped y hy
    · cases List.mem_singleton.mp hy
      obtain ⟨x, hx, hin⟩ := List.any_eq_true.mp hblocked
      obtain ⟨hattempted, e, he, hbusy⟩ := (h.blocked x).mp hx
      refine iff_of_true hnew ⟨x, hattempted, e, he, hbusy, ?_, hin⟩
      rintro rfl
      exact hnew hattempted
  · exact iff_of_false Bool.false_ne_true fun hall => hnew (hall d (by simp)).1

variable (hfree : a.blocked.any (inside d ·) = false)

include hfree

theorem Loop.skipped_snoc :
    ∀ y ∈ done ++ [d], y ∉ a.attempted ++ [d] ↔ ∃ x ∈ a.attempted ++ [d], HoldsBack apply x y := by
  intro y hy
  simp only [List.mem_append, List.mem_singleton, not_or, or_and_right, exists_or, exists_eq_left]
  rcases List.mem_append.mp hy with hy | hy
  · have hnot : ¬ HoldsBack apply d y := by
      rintro ⟨_, -, -, -, hin⟩
      exact absurd hin (by simp [hbefore y hy])
    rw [h.skipped y hy]
    exact ⟨fun hx => .inl hx.1, fun hx => ⟨hx.resolve_right hnot, ne_of_before hbefore hy⟩⟩
  · cases List.mem_singleton.mp hy
    refine iff_of_false (fun hd => hd.2 rfl) ?_
    rintro (⟨x, hx, e, he, hbusy, -, hin⟩ | ⟨_, -, -, hne, -⟩)
    · have hblocked : x ∈ a.blocked := (h.blocked x).mpr ⟨hx, e, he, hbusy⟩
      exact absurd hin (by simpa using List.any_eq_false.mp hfree x hblocked)
    · exact hne rfl

theorem Loop.snoc {a' : Applied} (source : Dataset) (hgoing : ¬ Cancels apply d)
    (hstreams : a'.streams = (a.add source d (apply d).1).streams)
    (hverified : a'.verified = (a.add source d (apply d).1).verified)
    (hblocked : ∀ x, x ∈ a'.blocked ↔ x ∈ a.blocked ∨ x = d ∧ ∃ e, (apply d).2 = some e ∧ e.busy = false)
    (hfailed : ∀ f, f ∈ a'.failed ↔ f ∈ a.failed ∨ f.1 = d ∧ (apply d).2 = some f.2) : Loop apply (done ++ [d]) a' := by
  have hattempted : a'.attempted = a.attempted ++ [d] := by
    rw [Applied.attempted, hstreams]
    exact attempted_add _
  refine ⟨hattempted ▸ h.inOrder.append (List.Sublist.refl _), hstreams ▸ h.results_snoc source d, fun x => ?_,
    fun f => ?_, ?_, hattempted ▸ h.skipped_snoc hbefore hfree, ?_⟩
  · rw [hattempted, hblocked, h.blocked, List.mem_append, List.mem_singleton, or_and_right]
    exact or_congr_right (and_congr_right fun hx => by rw [hx])
  · rw [hattempted, hfailed, h.failed, List.mem_append, List.mem_singleton, or_and_right]
    exact or_congr_right (and_congr_right fun hf => by rw [hf])
  · rw [hattempted, List.forall_mem_append, List.forall_mem_singleton]
    exact ⟨h.going, hgoing⟩
  · rw [hverified, hattempted]
    exact h.verified_snoc hbefore source

theorem Loop.add (source : Dataset) (hok : (apply d).2 = none) :
    Loop apply (done ++ [d]) (a.add source d (apply d).1) := by
  refine h.snoc hbefore hfree source ?_ rfl rfl (by simp [hok, Applied.add]) (by simp [hok, Applied.add])
  rintro ⟨e, he, -⟩
  simp [hok] at he

theorem Loop.fail (source : Dataset) (he : (apply d).2 = some e) (hgoing : e.cancelled = false) :
    Loop apply (done ++ [d]) ((a.add source d (apply d).1).fail d e) := by
  refine h.snoc hbefore hfree source ?_ rfl rfl (fun x => ?_) fun f => ?_
  · rintro ⟨e', he', hcancelled⟩
    cases he.symm.trans he'
    simp [hgoing] at hcancelled
  · simp only [Applied.fail, Applied.add, he, Option.some.injEq, exists_eq_left']
    cases e.busy <;> simp
  · simp only [Applied.fail, Applied.add, List.mem_append, List.mem_singleton, he, Option.some.injEq, Prod.ext_iff,
      eq_comm (b := e)]

end Steps

theorem streamsError_temporary (failed : List (Dataset × Failure)) (h : failed ≠ []) :
    (streamsError failed).temporary = true ↔ ∀ f ∈ failed, f.2.temporary = true := by
  simp [streamsError, Failure.temporary, streamsTemporary, Cause.temporary, List.findSome?_cons, h]

section Whole

variable {apply : Dataset → Outcome × Option Failure} {source : Dataset} {done streams : List Dataset} {a : Applied}

theorem Loop.heldBack (h : Loop apply done a)
    (hagree : ∀ d, (apply d).1.verified = true ↔ (apply d).2 = none) :
    HeldBack apply done a (if a.failed.isEmpty then none else some (streamsError a.failed)) := by
  refine ⟨h.inOrder, h.results, fun d hd => ?_, h.verified, fun hnone => ?_, fun e herr => .inr ?_⟩
  · rw [h.skipped d hd]
    refine ⟨.inl, fun hx => hx.resolve_right ?_⟩
    rintro ⟨x, hx, hcancels, -⟩
    exact h.going x hx hcancels
  · have hempty : a.failed = [] := by
      by_contra hsome
      simp [List.isEmpty_iff, hsome] at hnone
    have hfine : ∀ d ∈ a.attempted, (apply d).2 = none := by
      intro d hd
      by_contra hbad
      obtain ⟨e, he⟩ := Option.ne_none_iff_exists'.mp hbad
      have hmem := (h.failed (d, e)).mpr ⟨hd, he⟩
      simp [hempty] at hmem
    refine h.verified.mpr fun d hd => ?_
    have hattempted : d ∈ a.attempted := by
      by_contra hnot
      obtain ⟨x, hx, e, he, -⟩ := (h.skipped d hd).mp hnot
      simp [hfine x hx] at he
    exact ⟨hattempted, (hagree d).mpr (hfine d hattempted)⟩
  · have hsome : a.failed ≠ [] := by
      rintro hempty
      simp [hempty] at herr
    simp only [List.isEmpty_iff, hsome, if_false, Option.some.injEq] at herr
    rw [← herr, streamsError_temporary _ hsome]
    exact ⟨fun hall d hd f hf => hall (d, f) ((h.failed (d, f)).mpr ⟨hd, hf⟩),
      fun hall f hf => hall f.1 ((h.failed f).mp hf).1 f.2 ((h.failed f).mp hf).2⟩

theorem Loop.cancelled {d : Dataset} {ds : List Dataset} {e : Failure} (h : Loop apply done a) (source : Dataset)
    (horder : (done ++ d :: ds).Pairwise fun x y => inside x y = false)
    (hfree : a.blocked.any (inside d ·) = false) (he : (apply d).2 = some e) (hcancelled : e.cancelled = true)
    (hagree : ∀ d, (apply d).1.verified = true ↔ (apply d).2 = none) :
    HeldBack apply (done ++ d :: ds) (a.add source d (apply d).1) (some e) := by
  obtain ⟨-, hlater, hearlier⟩ := List.pairwise_append.mp horder
  have hbefore : ∀ x ∈ done, inside x d = false := fun x hx => hearlier x hx d List.mem_cons_self
  have hdone : d ∉ done := fun hd => ne_of_before hbefore hd rfl
  have hds : d ∉ ds := fun hd => by simpa [inside_self] using (List.pairwise_cons.mp hlater).1 d hd
  have hapart : ∀ y ∈ done, y ∉ ds := fun y hy hy' => by
    simpa [inside_self] using hearlier y hy y (List.mem_cons_of_mem d hy')
  have hunverified : (apply d).1.verified = false := by
    rw [Bool.eq_false_iff, ne_eq, hagree, he]
    exact nofun
  refine ⟨?_, h.results_snoc source d, fun y hy => ?_, iff_of_false ?_ ?_, nofun, fun e' herr => .inl ?_⟩
  · rw [attempted_add]
    exact h.inOrder.append (List.singleton_sublist.mpr List.mem_cons_self)
  · rw [attempted_add]
    by_cases hlate : y ∈ ds
    · -- Everything after the cancellation is left.
      refine iff_of_true ?_ (.inr ⟨d, by simp, ⟨e, he, hcancelled⟩, done, ds, rfl, hlate⟩)
      rw [List.mem_append, List.mem_singleton]
      rintro (hy | rfl)
      · exact hapart y (h.inOrder.subset hy) hlate
      · exact hds hlate
    · have hy' : y ∈ done ++ [d] := by simpa [hlate] using hy
      rw [h.skipped_snoc hbefore hfree y hy']
      refine ⟨.inl, fun hx => hx.resolve_right ?_⟩
      rintro ⟨x, hx, hcancels, pre, post, hsplit, hpost⟩
      rcases List.mem_append.mp hx with hx | hx
      · exact h.going x hx hcancels
      · cases List.mem_singleton.mp hx
        obtain ⟨-, -, rfl⟩ := (List.append_cons_inj_of_notMem hdone hds).mp hsplit
        exact hlate hpost
  · simp [Applied.add, hunverified]
  · intro hall
    have := (hall d (by simp)).2
    simp [hunverified] at this
  · cases herr
    exact ⟨d, by simp, he, hcancelled⟩

theorem applyStreams_heldBack (source : Dataset) (hagree : ∀ d, (apply d).1.verified = true ↔ (apply d).2 = none) :
    ∀ (ds done : List Dataset) (a : Applied), (done ++ ds).Pairwise (fun x y => inside x y = false) →
      Loop apply done a →
        HeldBack apply (done ++ ds) (applyStreams source apply a ds).1 (applyStreams source apply a ds).2 := by
  intro ds
  induction ds with
  | nil =>
    intro done a _ h
    rw [List.append_nil]
    exact h.heldBack hagree
  | cons d ds ih =>
    intro done a horder h
    have hbefore : ∀ x ∈ done, inside x d = false := fun x hx =>
      (List.pairwise_append.mp horder).2.2 x hx d List.mem_cons_self
    have hsplit : done ++ d :: ds = (done ++ [d]) ++ ds := by simp
    unfold applyStreams
    split
    · next hblocked =>
      rw [hsplit] at horder ⊢
      exact ih _ _ horder (h.skip hbefore hblocked)
    · next hfree =>
      rw [Bool.not_eq_true] at hfree
      split
      · next o ho =>
        rw [hsplit] at horder ⊢
        have hadd := h.add hbefore hfree source (by rw [ho])
        rw [ho] at hadd
        exact ih _ _ horder hadd
      · next o e ho =>
        split
        · next hcancelled =>
          have hend := h.cancelled source horder hfree (by rw [ho]) hcancelled hagree
          rwa [ho] at hend
        · next hgoing =>
          rw [hsplit] at horder ⊢
          have hfail := h.fail hbefore hfree source (by rw [ho]) (Bool.not_eq_true _ ▸ hgoing)
          rw [ho] at hfail
          exact ih _ _ horder hfail

theorem loop_nil : Loop apply [] { Applied.none with verified := true } := by
  constructor <;> simp [Applied.none, Applied.attempted]

theorem heldBack_single (d : Dataset) (hagree : (apply d).1.verified = true ↔ (apply d).2 = none) :
    HeldBack apply [d] ⟨(apply d).1.plan, (apply d).1.verified, (apply d).1.resumeDatasets, [(d, (apply d).1)], [], []⟩
      (apply d).2 := by
  refine ⟨List.Sublist.refl _, by simp, fun y hy => ?_, by simp [Applied.attempted], hagree.mpr, fun e he => .inr ?_⟩
  · cases List.mem_singleton.mp hy
    refine iff_of_false (by simp [Applied.attempted]) ?_
    rintro (⟨x, hx, -, -, -, hne, -⟩ | ⟨x, -, -, pre, post, hsplit, hpost⟩)
    · exact hne (by simpa [Applied.attempted] using hx)
    · cases pre with
      | nil =>
        cases hsplit
        exact absurd hpost List.not_mem_nil
      | cons z pre => simp at hsplit
  · simp [Applied.attempted, he]

end Whole

/-! ## The order of the streams -/

section Order

variable {root : Dataset} {members : List Member}

theorem checkMembers_cons {prev : Option Dataset} {m : Member} (h : checkMembers root prev (m :: members) = .ok ()) :
    validDataset m.dataset = true ∧ prev ≠ some m.dataset ∧ checkMembers root (some m.dataset) members = .ok () := by
  simp only [checkMembers, bind_eq_ok, require_eq_ok, bne_iff_ne] at h
  obtain ⟨_, hvalid, _, -, _, hne, hrest⟩ := h
  exact ⟨hvalid, hne, hrest⟩

theorem textLt_trans {a b c : List Char} (hab : textLe b a = false) (hbc : textLe c b = false) : textLe c a = false := by
  rw [Bool.eq_false_iff] at hab hbc ⊢
  exact fun hca => hbc (textLe_trans hca ((textLe_total a b).resolve_right hab))

theorem checkMembers_sorted : ∀ {prev : Option Dataset} {members : List Member},
    members.Pairwise (fun a b => textLe (path a.dataset) (path b.dataset) = true) →
      checkMembers root prev members = .ok () →
        members.Pairwise fun a b => textLe (path b.dataset) (path a.dataset) = false
  | _, [], _, _ => .nil
  | _, [m], _, _ => List.pairwise_singleton ..
  | _, m :: m' :: rest, hsorted, hcheck => by
    obtain ⟨hle, hsorted'⟩ := List.pairwise_cons.mp hsorted
    obtain ⟨hvalid, -, hcheck'⟩ := checkMembers_cons hcheck
    obtain ⟨hvalid', hne, -⟩ := checkMembers_cons hcheck'
    have hrest := checkMembers_sorted hsorted' hcheck'
    have hnext : textLe (path m'.dataset) (path m.dataset) = false := by
      rw [Bool.eq_false_iff]
      intro hback
      exact hne (congrArg some (path_inj hvalid hvalid' (textLe_antisymm (hle m' List.mem_cons_self) hback)))
    refine List.pairwise_cons.mpr ⟨fun x hx => ?_, hrest⟩
    rcases List.mem_cons.mp hx with rfl | hx
    · exact hnext
    · exact textLt_trans hnext ((List.pairwise_cons.mp hrest).1 x hx)

theorem checkMembers_valid {prev : Option Dataset} (h : checkMembers root prev members = .ok ()) :
    ∀ m ∈ members, validDataset m.dataset = true := by
  induction members generalizing prev with
  | nil => exact fun m hm => absurd hm List.not_mem_nil
  | cons m rest ih =>
    obtain ⟨hvalid, -, hrest⟩ := checkMembers_cons h
    exact List.forall_mem_cons.mpr ⟨hvalid, ih hrest⟩

theorem streams_in_order {r : Request} {streams : List Member} (h : r.streams = .ok streams) :
    (streams.map (·.dataset)).Pairwise fun x y => inside x y = false := by
  unfold Request.streams at h
  split at h
  · cases h
    exact List.pairwise_singleton ..
  · simp only [bind_eq_ok, require_eq_ok, pure_eq_ok] at h
    obtain ⟨_, -, _, hcheck, rfl⟩ := h
    rw [List.pairwise_map]
    refine (checkMembers_sorted (pairwise_sort_text _ r.members) hcheck).imp_of_mem fun {x y} _ hy hlt => ?_
    have hne := ne_nil_of_validDataset (checkMembers_valid hcheck y hy)
    rw [Bool.eq_false_iff, ne_eq, inside_iff hne]
    intro hin
    rcases textLe_total (path x.dataset) (path y.dataset) with hle | hle
    · by_cases hsame : y.dataset = x.dataset
      · rw [hsame] at hle hlt
        simp [hle] at hlt
      · simp [path_lt_of_inside hne hin hsame] at hle
    · simp [hlt] at hle

end Order

/-! ## The whole transfer -/

theorem applyStream_verified (calls : Nat → Once) :
    (applyStream calls).1.verified = true ↔ (applyStream calls).2 = none := by
  simp only [applyStream]
  split
  · next plan herror _ =>
    by_cases hresume : plan.mode = .resume
    · simp only [hresume, if_true, Once.outcome, Option.isNone_iff_eq_none]
    · simp only [hresume, if_false, Once.outcome, herror, Option.isNone_none]
  · simp only [Once.outcome, Option.isNone_iff_eq_none]

/-- A request that is refused attempts nothing. Of any other, the streams run in order, and the rest is as
`HeldBack` says, whatever each attempt did. -/
theorem members_held_back (r : Request) (refused : Option Failure) (calls : Dataset → Nat → Once) :
    (((∃ e, r.streams = .error e) ∨ refused ≠ none) → (apply r refused calls).1.attempted = [] ∧
      (apply r refused calls).1.verified = false ∧ (apply r refused calls).2 ≠ none) ∧
    ∀ streams, r.streams = .ok streams → refused = none →
      (streams.map (·.dataset)).Pairwise (fun x y => inside x y = false) ∧
      HeldBack (fun d => applyStream (calls d)) (streams.map (·.dataset))
        (apply r refused calls).1 (apply r refused calls).2 := by
  refine ⟨fun hrefused => ?_, fun streams hstreams hnone => ⟨streams_in_order hstreams, ?_⟩⟩
  · unfold apply
    split
    · exact ⟨rfl, rfl, nofun⟩
    · exact ⟨rfl, rfl, nofun⟩
    · next hok =>
      rcases hrefused with ⟨e, he⟩ | hsome
      · simp [hok] at he
      · exact absurd rfl hsome
  · subst hnone
    have horder := streams_in_order hstreams
    simp only [apply, hstreams]
    split
    · next hmembers =>
      have hroot : streams = [⟨r.source, r.policy, r.snapshot⟩] := by
        simpa [Request.streams, hmembers, eq_comm] using hstreams
      rw [hroot]
      exact heldBack_single r.source (applyStream_verified _)
    · have hloop := applyStreams_heldBack r.source (fun d => applyStream_verified (calls d)) _ [] _
        (by simpa using horder) loop_nil
      simpa using hloop

/-! ### A member that fails -/

def convoyPolicy : Effective := .plain (.windows 9 120) [] []

def convoyMember (d : Dataset) : Member := ⟨d, convoyPolicy, none⟩

def convoy : Request where
  source := ["tank"]
  destinationRoot := ["pool"]
  snapshot := none
  policy := convoyPolicy
  members := [["tank", "b"], ["tank", "a", "x"], ["tank", "a"], ["tank"]].map convoyMember
  transport := .localHost
  remoteName := ""
  canonicalTarget := ""

def convoyCalls (d : Dataset) (_ : Nat) : Once :=
  ⟨none, [], if d = ["tank", "a"] then some [.other none] else none, false⟩

theorem convoy_held_back :
    (apply convoy none convoyCalls).1.attempted = [["tank"], ["tank", "a"], ["tank", "b"]] ∧
    ∃ streams, convoy.streams = .ok streams ∧ HeldBack (fun d => applyStream (convoyCalls d))
      (streams.map (·.dataset)) (apply convoy none convoyCalls).1 (apply convoy none convoyCalls).2 :=
  ⟨by decide, _, rfl, ((members_held_back convoy none convoyCalls).2 _ rfl rfl).2⟩

end Boomerangz.Transfer
