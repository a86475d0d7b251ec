import Boomerangz.Lib.Machine
import Boomerangz.Policy.Resolve

/-! # Parsing grids

`ParseGrid` in 64-bit arithmetic, in which nothing it accepts has wrapped.
-/

open Check Machine

namespace Boomerangz.Policy

variable {quote : String → String}

/-! ## One bucket -/

inductive GridUnit where
  | year
  | month
  | week
  | day
  | hour
  | minute
deriving DecidableEq, Repr

namespace GridUnit

def text : GridUnit → String
  | year => "y"
  | month => "mo"
  | week => "w"
  | day => "d"
  | hour => "h"
  | minute => "m"

/-- In nanoseconds. -/
def span : GridUnit → Int
  | year => 365 * 24 * 3600000000000
  | month => 30 * 24 * 3600000000000
  | week => 7 * 24 * 3600000000000
  | day => 24 * 3600000000000
  | hour => 3600000000000
  | minute => 60000000000

def all : List GridUnit := [year, month, week, day, hour, minute]

theorem span_pos (u : GridUnit) : 0 < u.span := by cases u <;> decide

theorem minute_dvd (u : GridUnit) : GridUnit.minute.span ∣ u.span := by cases u <;> decide

end GridUnit

/-- What `bucketPattern` matches. -/
structure Written where
  count : List Char
  amount : List Char
  unit : GridUnit
deriving DecidableEq, Repr

def bucketPattern (part : List Char) : Option Written :=
  let count := part.takeWhile Char.isDigit
  match part.dropWhile Char.isDigit with
  | 'x' :: rest =>
    let amount := rest.takeWhile Char.isDigit
    match GridUnit.all.find? (fun u => u.text.toList == rest.dropWhile Char.isDigit) with
    | some unit => if count.isEmpty || amount.isEmpty then none else some ⟨count, amount, unit⟩
    | none => none
  | _ => none

/-- The value of a run of digits; `ParseInt` refuses one that is out of its range. -/
def decimal (digits : List Char) : Int := digits.foldl (fun n c => 10 * n + (c.toNat - 48 : Nat)) 0

/-! ## The loop -/

structure Tier where
  count : Int
  span : Int
deriving DecidableEq, Repr

structure Parsed where
  horizon : Int
  tiers : List Tier
deriving DecidableEq, Repr

def addTier (quote : String → String) (p : Parsed) (part : List Char) : Except String Parsed :=
  match bucketPattern (trimSpace part) with
  | none => .error ("invalid grid bucket " ++ quote (String.ofList part))
  | some w => do
    let count := decimal w.count
    require (0 < count && count ≤ 2147483647) ("invalid grid count " ++ quote (String.ofList w.count))
    let amount := decimal w.amount
    require (0 < amount && amount ≤ maxInt && amount ≤ maxInt.tdiv w.unit.span)
      ("invalid grid duration " ++ quote (String.ofList w.amount ++ w.unit.text))
    let span := wrap (amount * w.unit.span)
    require (count ≤ (wrap (maxInt - p.horizon)).tdiv span) "grid horizon overflows time.Duration"
    return ⟨wrap (p.horizon + wrap (count * span)), p.tiers ++ [⟨count, span⟩]⟩

def mergeTier (merged : List Tier) (b : Tier) : List Tier :=
  match merged.getLast? with
  | some last =>
    if last.span = b.span then merged.dropLast ++ [⟨wrap (last.count + b.count), last.span⟩] else merged ++ [b]
  | none => merged ++ [b]

/-- `ParseGrid`, up to the text it prints. -/
def parseTiers (quote : String → String) (value : String) : Except String Parsed := do
  let p ← (value.toList.splitOn ',').foldlM (addTier quote) ⟨0, []⟩
  return ⟨p.horizon, (p.tiers.insertionSort fun a b => a.span ≤ b.span).foldl mergeTier []⟩

/-! ## What is accepted -/

def total (tiers : List Tier) : Int := tiers.foldr (fun b n => b.count * b.span + n) 0

@[simp] theorem total_nil : total [] = 0 := rfl

@[simp] theorem total_cons (b : Tier) (l : List Tier) : total (b :: l) = b.count * b.span + total l := rfl

@[simp] theorem total_append (l l' : List Tier) : total (l ++ l') = total l + total l' := by
  induction l with
  | nil => simp
  | cons b l ih => rw [List.cons_append, total_cons, total_cons, ih, Int.add_assoc]

theorem total_perm {l l' : List Tier} (h : l.Perm l') : total l = total l' := by
  induction h with
  | nil => rfl
  | cons b _ ih => rw [total_cons, total_cons, ih]
  | swap a b l => simp only [total_cons]; omega
  | trans _ _ ih ih' => rw [ih, ih']

def Positive (tiers : List Tier) : Prop := ∀ b ∈ tiers, 0 < b.count ∧ 0 < b.span

theorem Positive.total_nonneg {tiers : List Tier} (h : Positive tiers) : 0 ≤ total tiers := by
  induction tiers with
  | nil => simp
  | cons b l ih =>
    obtain ⟨hcount, hspan⟩ := h b (by simp)
    have hb : 0 < b.count * b.span := Int.mul_pos hcount hspan
    have hl := ih fun c hc => h c (by simp [hc])
    rw [total_cons]
    omega

structure Parsed.Sound (p : Parsed) : Prop where
  positive : Positive p.tiers
  horizon : p.horizon = total p.tiers
  fits : p.horizon ≤ maxInt

def Written.duration (w : Written) : Int := decimal w.amount * w.unit.span

def Written.InRange (w : Written) : Prop :=
  (0 < decimal w.count ∧ decimal w.count ≤ 2147483647) ∧ 0 < decimal w.amount ∧ w.duration ≤ maxInt

instance (w : Written) : Decidable w.InRange := inferInstanceAs (Decidable (_ ∧ _))

def readTier (part : List Char) : Option Tier :=
  (bucketPattern (trimSpace part)).bind fun w =>
    if w.InRange then some ⟨decimal w.count, w.duration⟩ else none

theorem readTier_eq_some {part : List Char} {b : Tier} : readTier part = some b ↔
    ∃ w, bucketPattern (trimSpace part) = some w ∧ w.InRange ∧ b = ⟨decimal w.count, w.duration⟩ := by
  unfold readTier
  rw [Option.bind_eq_some_iff]
  refine exists_congr fun w => and_congr_right fun _ => ?_
  split
  · rename_i hw
    simp [hw, eq_comm]
  · rename_i hw
    simp [hw]

theorem Written.InRange.duration_pos {w : Written} (h : w.InRange) : 0 < w.duration :=
  Int.mul_pos h.2.1 w.unit.span_pos

theorem readTier_positive {part : List Char} {b : Tier} (h : readTier part = some b) : 0 < b.count ∧ 0 < b.span := by
  obtain ⟨w, -, hw, rfl⟩ := readTier_eq_some.mp h
  exact ⟨hw.1.1, hw.duration_pos⟩

theorem minute_dvd_of_readTier {part : List Char} {b : Tier} (h : readTier part = some b) :
    GridUnit.minute.span ∣ b.span := by
  obtain ⟨w, -, -, rfl⟩ := readTier_eq_some.mp h
  exact Int.dvd_trans w.unit.minute_dvd (Int.dvd_mul_left _ _)

theorem Written.duration_le_iff (w : Written) (h : 0 < decimal w.amount) :
    (decimal w.amount ≤ maxInt ∧ decimal w.amount ≤ maxInt.tdiv w.unit.span) ↔ w.duration ≤ maxInt := by
  rw [le_tdiv_iff (by decide) w.unit.span_pos]
  refine ⟨fun hle => hle.2, fun hle => ⟨?_, hle⟩⟩
  have := Int.mul_le_mul_of_nonneg_left (show 1 ≤ w.unit.span from w.unit.span_pos) (Int.le_of_lt h)
  unfold Written.duration at hle
  omega

theorem addTier_eq_ok {p p' : Parsed} {part : List Char} (hp : p.Sound) :
    addTier quote p part = .ok p' ↔ ∃ b, readTier part = some b ∧ p.horizon + b.count * b.span ≤ maxInt ∧
      p' = ⟨p.horizon + b.count * b.span, p.tiers ++ [b]⟩ := by
  have hp0 : 0 ≤ p.horizon := by
    rw [hp.horizon]
    exact hp.positive.total_nonneg
  have hfits := hp.fits
  have hroom : wrap (maxInt - p.horizon) = maxInt - p.horizon := wrap_of_fits (by omega) (by omega)
  unfold addTier
  cases hw : bucketPattern (trimSpace part) with
  | none => simp [readTier, hw]
  | some w =>
    simp only [readTier_eq_some, hw, Option.some.injEq, ok_iff, Bool.and_eq_true, decide_eq_true_eq, and_assoc]
    constructor
    · rintro ⟨hcount, hint, hamount, hmax, hunit, hhorizon, rfl⟩
      have hrange : w.InRange := ⟨⟨hcount, hint⟩, hamount, (w.duration_le_iff hamount).mp ⟨hmax, hunit⟩⟩
      have hspan := hrange.duration_pos
      -- each check bounds the next operation
      have hwrap : wrap (decimal w.amount * w.unit.span) = w.duration :=
        wrap_of_fits (Int.le_of_lt hspan) hrange.2.2
      rw [hwrap, hroom, le_tdiv_iff (by omega) hspan] at hhorizon
      have hnew : 0 < decimal w.count * w.duration := Int.mul_pos hcount hspan
      refine ⟨_, ⟨w, rfl, hrange, rfl⟩, by simp only; omega, ?_⟩
      rw [hwrap, wrap_of_fits (n := decimal w.count * w.duration) (by omega) (by omega),
        wrap_of_fits (by omega) (by omega)]
    · rintro ⟨_, ⟨_, rfl, hrange, rfl⟩, hsum, rfl⟩
      have hspan := hrange.duration_pos
      have hnew : 0 < decimal w.count * w.duration := Int.mul_pos hrange.1.1 hspan
      have hwrap : wrap (decimal w.amount * w.unit.span) = w.duration :=
        wrap_of_fits (Int.le_of_lt hspan) hrange.2.2
      obtain ⟨hmax, hunit⟩ := (w.duration_le_iff hrange.2.1).mpr hrange.2.2
      simp only at hsum
      refine ⟨hrange.1.1, hrange.1.2, hrange.2.1, hmax, hunit, ?_, ?_⟩
      · rw [hwrap, hroom, le_tdiv_iff (by omega) hspan]
        omega
      · rw [hwrap, wrap_of_fits (n := decimal w.count * w.duration) (by omega) (by omega),
          wrap_of_fits (by omega) (by omega)]

theorem addTier_sound {p p' : Parsed} {part : List Char} (hp : p.Sound)
    (h : addTier quote p part = .ok p') : p'.Sound ∧ p'.tiers ≠ [] := by
  obtain ⟨b, hb, hfits, rfl⟩ := (addTier_eq_ok hp).mp h
  refine ⟨⟨?_, by simp [hp.horizon], hfits⟩, by simp⟩
  intro c hc
  rw [List.mem_append, List.mem_singleton] at hc
  rcases hc with hc | rfl
  · exact hp.positive c hc
  · exact readTier_positive hb

theorem filterMap_readTier_positive (parts : List (List Char)) : Positive (parts.filterMap readTier) := by
  intro b hb
  obtain ⟨part, -, hpart⟩ := List.mem_filterMap.mp hb
  exact readTier_positive hpart

theorem foldlM_addTier_eq_ok {parts : List (List Char)} {p p' : Parsed} (hp : p.Sound) :
    parts.foldlM (addTier quote) p = .ok p' ↔ (∀ part ∈ parts, (readTier part).isSome) ∧
      p.horizon + total (parts.filterMap readTier) ≤ maxInt ∧
      p' = ⟨p.horizon + total (parts.filterMap readTier), p.tiers ++ parts.filterMap readTier⟩ := by
  induction parts generalizing p with
  | nil =>
    rw [List.foldlM_nil, pure_eq_ok]
    simp only [List.filterMap_nil, total_nil, Int.add_zero, List.append_nil, hp.fits, List.not_mem_nil,
      false_implies, implies_true, true_and]
    exact eq_comm
  | cons part parts ih =>
    rw [List.foldlM_cons, bind_eq_ok]
    constructor
    · rintro ⟨q, hq, hrest⟩
      obtain ⟨hsound, -⟩ := addTier_sound hp hq
      obtain ⟨b, hb, -, rfl⟩ := (addTier_eq_ok hp).mp hq
      obtain ⟨hall, hfits, rfl⟩ := (ih hsound).mp hrest
      rw [List.filterMap_cons_some hb, total_cons, ← Int.add_assoc]
      refine ⟨?_, hfits, by simp⟩
      intro c hc
      rcases List.mem_cons.mp hc with rfl | hc
      · simp [hb]
      · exact hall c hc
    · rintro ⟨hall, hfits, hp'⟩
      obtain ⟨b, hb⟩ := Option.isSome_iff_exists.mp (hall part (by simp))
      rw [List.filterMap_cons_some hb, total_cons, ← Int.add_assoc] at hfits hp'
      have hnonneg := (filterMap_readTier_positive parts).total_nonneg
      have hq : addTier quote p part = .ok ⟨p.horizon + b.count * b.span, p.tiers ++ [b]⟩ :=
        (addTier_eq_ok hp).mpr ⟨b, hb, by omega, rfl⟩
      obtain ⟨hsound, -⟩ := addTier_sound hp hq
      refine ⟨_, hq, (ih hsound).mpr ⟨fun c hc => hall c (by simp [hc]), hfits, by simpa using hp'⟩⟩

structure Merged (seen merged : List Tier) : Prop where
  positive : Positive merged
  total : total merged = Policy.total seen
  increasing : (merged.map Tier.span).Pairwise (· < ·)
  spans : ∀ a ∈ merged, ∃ b ∈ seen, b.span = a.span
  nonempty : seen ≠ [] → merged ≠ []

theorem mergeTier_nil (b : Tier) : mergeTier [] b = [b] := rfl

theorem mergeTier_concat (l : List Tier) (last b : Tier) : mergeTier (l ++ [last]) b =
    if last.span = b.span then l ++ [⟨wrap (last.count + b.count), last.span⟩] else l ++ [last] ++ [b] := by
  unfold mergeTier
  rw [List.getLast?_concat, List.dropLast_concat]

theorem wrap_counts {l : List Tier} {last b : Tier} (hpositive : Positive (l ++ [last])) (hb : 0 < b.count)
    (hsame : last.span = b.span) (hfits : total (l ++ [last]) + b.count * b.span ≤ maxInt) :
    wrap (last.count + b.count) = last.count + b.count := by
  obtain ⟨hcount, hspan⟩ := hpositive last (by simp)
  have hl : Positive l := fun c hc => hpositive c (by simp [hc])
  have hl0 := hl.total_nonneg
  have hsum : (last.count + b.count) * last.span = last.count * last.span + b.count * b.span := by
    rw [Int.add_mul, hsame]
  have hcounts : last.count + b.count ≤ (last.count + b.count) * last.span := by
    have := Int.mul_le_mul_of_nonneg_left (show 1 ≤ last.span by omega) (show 0 ≤ last.count + b.count by omega)
    omega
  rw [total_append, total_cons, total_nil] at hfits
  exact wrap_of_fits (by omega) (by omega)

theorem Merged.step {seen merged : List Tier} {b : Tier} (h : Merged seen merged)
    (hsorted : ∀ a ∈ seen, a.span ≤ b.span) (hb : 0 < b.count ∧ 0 < b.span)
    (hfits : Policy.total (seen ++ [b]) ≤ maxInt) : Merged (seen ++ [b]) (mergeTier merged b) := by
  obtain ⟨hpositive, htotal, hincreasing, hspans, hnonempty⟩ := h
  have hle : ∀ a ∈ merged, a.span ≤ b.span := by
    intro a ha
    obtain ⟨c, hc, hspan⟩ := hspans a ha
    exact hspan ▸ hsorted c hc
  rw [total_append, total_cons, total_nil, ← htotal] at hfits
  obtain rfl | ⟨l, last, rfl⟩ := List.eq_nil_or_concat' merged
  · rw [mergeTier_nil]
    refine ⟨?_, ?_, by simp, by simp, by simp⟩
    · intro c hc
      rw [List.mem_singleton.mp hc]
      exact hb
    · rw [total_append, ← htotal]
      simp
  · obtain ⟨hcount, hspan⟩ := hpositive last (by simp)
    have hl : Positive l := fun c hc => hpositive c (by simp [hc])
    rw [mergeTier_concat]
    split
    · rename_i hsame
      have hsum : (last.count + b.count) * last.span = last.count * last.span + b.count * b.span := by
        rw [Int.add_mul, hsame]
      rw [wrap_counts hpositive hb.1 hsame (by simpa using hfits)]
      refine ⟨?_, ?_, ?_, ?_, by simp⟩
      · intro c hc
        rw [List.mem_append, List.mem_singleton] at hc
        rcases hc with hc | rfl
        · exact hl c hc
        · exact ⟨by simp only; omega, hspan⟩
      · simp only [total_append, total_cons, total_nil] at htotal ⊢
        omega
      · simpa using hincreasing
      · intro c hc
        rw [List.mem_append, List.mem_singleton] at hc
        rcases hc with hc | rfl
        · obtain ⟨a, ha, hspan⟩ := hspans c (by simp [hc])
          exact ⟨a, by simp [ha], hspan⟩
        · exact ⟨b, by simp, hsame.symm⟩
    · refine ⟨?_, ?_, ?_, ?_, by simp⟩
      · intro c hc
        rw [List.mem_append, List.mem_singleton] at hc
        rcases hc with hc | rfl
        · exact hpositive c hc
        · exact hb
      · rw [total_append, htotal, total_append]
      · rw [List.map_append, List.pairwise_append]
        refine ⟨hincreasing, by simp, ?_⟩
        simp only [List.map_append, List.mem_append, List.mem_map, List.map_cons, List.map_nil, List.mem_singleton]
        rintro x (⟨a, ha, rfl⟩ | rfl) y rfl
        · rw [List.map_append, List.pairwise_append] at hincreasing
          have hlast := hincreasing.2.2 a.span (List.mem_map_of_mem ha) last.span (by simp)
          have := hle last (by simp)
          omega
        · have := hle last (by simp)
          omega
      · intro c hc
        rw [List.mem_append, List.mem_singleton] at hc
        rcases hc with hc | rfl
        · obtain ⟨a, ha, hspan⟩ := hspans c hc
          exact ⟨a, by simp [ha], hspan⟩
        · exact ⟨c, by simp, rfl⟩

theorem merged_foldl {tiers : List Tier} (hsorted : tiers.Pairwise fun a b => a.span ≤ b.span)
    (hpositive : Positive tiers) (hfits : total tiers ≤ maxInt) : Merged tiers (tiers.foldl mergeTier []) := by
  induction tiers using List.reverseRecOn with
  | nil => exact ⟨by simp [Positive], rfl, by simp, by simp, by simp⟩
  | append_singleton l b ih =>
    obtain ⟨hl, -, hlast⟩ := List.pairwise_append.mp hsorted
    have hb := hpositive b (by simp)
    have hprod : 0 < b.count * b.span := Int.mul_pos hb.1 hb.2
    have hinit : total l ≤ maxInt := by
      rw [total_append, total_cons, total_nil] at hfits
      omega
    rw [List.foldl_append]
    exact (ih hl (fun c hc => hpositive c (by simp [hc])) hinit).step (fun a ha => hlast a ha b (by simp)) hb hfits

def mergeTiers (tiers : List Tier) : List Tier :=
  (tiers.insertionSort fun a b => a.span ≤ b.span).foldl mergeTier []

theorem merged_mergeTiers {tiers : List Tier} (hpositive : Positive tiers) (hfits : total tiers ≤ maxInt) :
    Merged (tiers.insertionSort fun a b => a.span ≤ b.span) (mergeTiers tiers) := by
  have hperm := List.perm_insertionSort (fun a b : Tier => a.span ≤ b.span) tiers
  apply merged_foldl
  · exact List.pairwise_insertionSort (fun a b : Tier => a.span ≤ b.span) tiers
  · exact fun b hb => hpositive b (hperm.mem_iff.mp hb)
  · rw [total_perm hperm]
    exact hfits

theorem parseTiers_eq_ok {value : String} {p : Parsed} :
    parseTiers quote value = .ok p ↔ (∀ part ∈ value.toList.splitOn ',', (readTier part).isSome) ∧
      total ((value.toList.splitOn ',').filterMap readTier) ≤ maxInt ∧
      p = ⟨total ((value.toList.splitOn ',').filterMap readTier),
        mergeTiers ((value.toList.splitOn ',').filterMap readTier)⟩ := by
  have hstart : Parsed.Sound ⟨0, []⟩ := ⟨by simp [Positive], rfl, by decide⟩
  simp only [parseTiers, ok_iff, foldlM_addTier_eq_ok hstart, Int.zero_add, List.nil_append]
  constructor
  · rintro ⟨q, ⟨hall, hfits, rfl⟩, rfl⟩
    exact ⟨hall, hfits, rfl⟩
  · rintro ⟨hall, hfits, rfl⟩
    exact ⟨_, ⟨hall, hfits, rfl⟩, rfl⟩

theorem parseTiers_sound {value : String} {p : Parsed}
    (h : parseTiers quote value = .ok p) :
    p.Sound ∧ (p.tiers.map Tier.span).Pairwise (· < ·) ∧ p.tiers ≠ [] := by
  obtain ⟨hall, hfits, rfl⟩ := parseTiers_eq_ok.mp h
  have hmerged := merged_mergeTiers (filterMap_readTier_positive _) hfits
  have hperm := List.perm_insertionSort (fun a b : Tier => a.span ≤ b.span)
    ((value.toList.splitOn ',').filterMap readTier)
  refine ⟨⟨hmerged.positive, ?_, hfits⟩, hmerged.increasing, hmerged.nonempty ?_⟩
  · rw [hmerged.total, total_perm hperm]
  · intro hnil
    rw [hnil] at hperm
    obtain ⟨part, hpart⟩ := List.exists_mem_of_ne_nil _ (List.splitOn_ne_nil ',' value.toList)
    obtain ⟨b, hb⟩ := Option.isSome_iff_exists.mp (hall part hpart)
    have hmem : b ∈ (value.toList.splitOn ',').filterMap readTier := List.mem_filterMap.mpr ⟨part, hpart, hb⟩
    rw [hperm.symm.eq_nil] at hmem
    exact absurd hmem List.not_mem_nil

theorem minute_dvd_of_parseTiers {value : String} {p : Parsed} {b : Tier} (h : parseTiers quote value = .ok p)
    (hb : b ∈ p.tiers) : GridUnit.minute.span ∣ b.span := by
  obtain ⟨-, hfits, rfl⟩ := parseTiers_eq_ok.mp h
  obtain ⟨c, hc, hspan⟩ := (merged_mergeTiers (filterMap_readTier_positive _) hfits).spans b hb
  rw [(List.perm_insertionSort _ _).mem_iff] at hc
  obtain ⟨part, -, hpart⟩ := List.mem_filterMap.mp hc
  rw [← hspan]
  exact minute_dvd_of_readTier hpart

/-! ## The grid -/

def Tier.bucket (b : Tier) : Bucket := ⟨b.count.toNat, b.span.toNat⟩

theorem foldl_bucket {tiers : List Tier} (h : Positive tiers) (n : Nat) :
    (((tiers.map Tier.bucket).foldl (fun sum b => sum + b.count * b.span) n : Nat) : Int) = n + total tiers := by
  induction tiers generalizing n with
  | nil => simp
  | cons b l ih =>
    obtain ⟨hcount, hspan⟩ := h b (by simp)
    rw [List.map_cons, List.foldl_cons, ih fun c hc => h c (by simp [hc])]
    simp only [Tier.bucket, Int.natCast_add, Int.natCast_mul, total_cons]
    rw [Int.toNat_of_nonneg (Int.le_of_lt hcount), Int.toNat_of_nonneg (Int.le_of_lt hspan)]
    omega

def Parsed.grid (p : Parsed) (h : p.Sound) (hincreasing : (p.tiers.map Tier.span).Pairwise (· < ·))
    (hminutes : ∀ b ∈ p.tiers, GridUnit.minute.span ∣ b.span) : Grid where
  buckets := p.tiers.map Tier.bucket
  positive := by
    simp only [List.mem_map]
    rintro _ ⟨b, hb, rfl⟩
    obtain ⟨hcount, hspan⟩ := h.positive b hb
    exact ⟨Int.pos_iff_toNat_pos.mp hcount, Int.pos_iff_toNat_pos.mp hspan⟩
  increasing := by
    rw [List.map_map, List.pairwise_map]
    rw [List.pairwise_map] at hincreasing
    refine hincreasing.imp_of_mem fun {a b} ha hb hab => ?_
    have hb0 := (h.positive b hb).2
    exact (Int.toNat_lt_toNat hb0).mpr hab
  fits := by
    have hsum := foldl_bucket h.positive 0
    have hfits := h.fits
    rw [h.horizon] at hfits
    apply Int.ofNat_le.mp
    rw [hsum, Int.ofNat_zero, Int.zero_add]
    exact hfits
  minutes := by
    simp only [List.mem_map]
    rintro _ ⟨b, hb, rfl⟩
    apply Int.natCast_dvd_natCast.mp
    rw [Tier.bucket, Int.toNat_of_nonneg (Int.le_of_lt (h.positive b hb).2)]
    exact hminutes b hb

def parseGrid (quote : String → String) (value : String) : Except String Grid :=
  match h : parseTiers quote value with
  | .error e => .error e
  | .ok p => .ok (p.grid (parseTiers_sound h).1 (parseTiers_sound h).2.1 fun _ => minute_dvd_of_parseTiers h)

example : (parseGrid id defaultGrid).map Grid.buckets =
    .ok [⟨12, 300000000000⟩, ⟨24, 3600000000000⟩, ⟨14, 86400000000000⟩] := by decide

/-- The stored texts as they are. -/
def plainTexts : Texts where
  render
    | .text s => s
    | _ => ""
  quote := id
  parseGrid := parseGrid id

end Boomerangz.Policy
