import Boomerangz.Lifecycle.Documented

/-! # Canonical grids

A parsed grid is known by how many windows of each span it has. The canonical text is one way to write it.
-/

open Machine

namespace Boomerangz.Policy

/-! ## Windows of one span -/

def countAt (span : Int) (tiers : List Tier) : Int :=
  tiers.foldr (fun b n => if b.span = span then b.count + n else n) 0

@[simp] theorem countAt_nil (span : Int) : countAt span [] = 0 := rfl

theorem countAt_cons (span : Int) (b : Tier) (l : List Tier) :
    countAt span (b :: l) = if b.span = span then b.count + countAt span l else countAt span l := rfl

@[simp] theorem countAt_append (span : Int) (l l' : List Tier) :
    countAt span (l ++ l') = countAt span l + countAt span l' := by
  induction l with
  | nil => simp
  | cons b l ih =>
    rw [List.cons_append, countAt_cons, countAt_cons, ih]
    split <;> omega

theorem countAt_perm (span : Int) {l l' : List Tier} (h : l.Perm l') : countAt span l = countAt span l' := by
  induction h with
  | nil => rfl
  | cons b _ ih => rw [countAt_cons, countAt_cons, ih]
  | swap a b l =>
    simp only [countAt_cons]
    split <;> split <;> omega
  | trans _ _ ih ih' => rw [ih, ih']

theorem countAt_eq_zero {span : Int} {l : List Tier} (h : ∀ b ∈ l, b.span ≠ span) : countAt span l = 0 := by
  induction l with
  | nil => rfl
  | cons b l ih => rw [countAt_cons, if_neg (h b (by simp)), ih fun c hc => h c (by simp [hc])]

section Increasing

variable {b : Tier} {l l' : List Tier}

theorem countAt_head (h : ((b :: l).map Tier.span).Pairwise (· < ·)) : countAt b.span (b :: l) = b.count := by
  obtain ⟨hlt, -⟩ := List.pairwise_cons.mp h
  have hzero : countAt b.span l = 0 := countAt_eq_zero fun c hc => by
    have := hlt c.span (List.mem_map_of_mem hc)
    omega
  rw [countAt_cons, if_pos rfl, hzero, Int.add_zero]

theorem countAt_below {span : Int} (h : ((b :: l).map Tier.span).Pairwise (· < ·)) (hspan : span < b.span) :
    countAt span (b :: l) = 0 := by
  obtain ⟨hlt, -⟩ := List.pairwise_cons.mp h
  apply countAt_eq_zero
  intro c hc
  rcases List.mem_cons.mp hc with rfl | hc
  · omega
  · have := hlt c.span (List.mem_map_of_mem hc)
    omega

theorem head_span_le {a : Tier} (hpos : Positive (b :: l)) (hinc : ((b :: l).map Tier.span).Pairwise (· < ·))
    (hinc' : ((a :: l').map Tier.span).Pairwise (· < ·))
    (h : countAt b.span (b :: l) = countAt b.span (a :: l')) : a.span ≤ b.span := by
  have hb := (hpos b (by simp)).1
  rw [countAt_head hinc] at h
  apply Int.not_lt.mp
  intro hlt
  rw [countAt_below hinc' hlt] at h
  omega

theorem eq_of_countAt (hpos : Positive l) (hpos' : Positive l') (hinc : (l.map Tier.span).Pairwise (· < ·))
    (hinc' : (l'.map Tier.span).Pairwise (· < ·)) (h : ∀ span, countAt span l = countAt span l') : l = l' := by
  induction l generalizing l' with
  | nil =>
    cases l' with
    | nil => rfl
    | cons b l' =>
      have hb := (hpos' b (by simp)).1
      have hzero := h b.span
      rw [countAt_head hinc', countAt_nil] at hzero
      omega
  | cons a l ih =>
    cases l' with
    | nil =>
      have ha := (hpos a (by simp)).1
      have hzero := h a.span
      rw [countAt_head hinc, countAt_nil] at hzero
      omega
    | cons b l' =>
      have hspan : a.span = b.span :=
        Int.le_antisymm (head_span_le hpos' hinc' hinc (h b.span).symm) (head_span_le hpos hinc hinc' (h a.span))
      have hcount : a.count = b.count := by
        have hsame := h a.span
        rw [countAt_head hinc, hspan, countAt_head hinc'] at hsame
        exact hsame
      obtain rfl : a = b := by
        cases a
        cases b
        simp only at hspan hcount
        rw [hspan, hcount]
      have htail : l = l' := by
        refine ih (fun c hc => hpos c (by simp [hc])) (fun c hc => hpos' c (by simp [hc]))
          (List.pairwise_cons.mp hinc).2 (List.pairwise_cons.mp hinc').2 fun span => ?_
        have hsame := h span
        rw [countAt_cons, countAt_cons] at hsame
        split at hsame <;> omega
      rw [htail]

end Increasing

/-! ## Merging -/

theorem countAt_mergeTier (span : Int) {merged : List Tier} {b : Tier} (hpositive : Positive merged) (hb : 0 < b.count)
    (hfits : total merged + b.count * b.span ≤ maxInt) :
    countAt span (mergeTier merged b) = countAt span (merged ++ [b]) := by
  obtain rfl | ⟨l, last, rfl⟩ := List.eq_nil_or_concat' merged
  · rw [mergeTier_nil, List.nil_append]
  · rw [mergeTier_concat]
    split
    · rename_i hsame
      rw [wrap_counts hpositive hb hsame hfits]
      simp only [countAt_append, countAt_cons, countAt_nil, hsame]
      split <;> omega
    · rfl

theorem countAt_foldl_mergeTier (span : Int) {tiers : List Tier}
    (hsorted : tiers.Pairwise fun a b => a.span ≤ b.span) (hpositive : Positive tiers) (hfits : total tiers ≤ maxInt) :
    countAt span (tiers.foldl mergeTier []) = countAt span tiers := by
  induction tiers using List.reverseRecOn with
  | nil => rfl
  | append_singleton l b ih =>
    obtain ⟨hl, -, -⟩ := List.pairwise_append.mp hsorted
    have hb := hpositive b (by simp)
    have hlpos : Positive l := fun c hc => hpositive c (by simp [hc])
    have hprod : 0 < b.count * b.span := Int.mul_pos hb.1 hb.2
    rw [total_append, total_cons, total_nil, Int.add_zero] at hfits
    have hmerged := merged_foldl hl hlpos (by omega)
    rw [List.foldl_append, List.foldl_cons, List.foldl_nil,
      countAt_mergeTier span hmerged.positive hb.1 (by rw [hmerged.total]; exact hfits),
      countAt_append, countAt_append, ih hl hlpos (by omega)]

theorem countAt_mergeTiers (span : Int) {tiers : List Tier} (hpositive : Positive tiers) (hfits : total tiers ≤ maxInt) :
    countAt span (mergeTiers tiers) = countAt span tiers := by
  have hperm := List.perm_insertionSort (fun a b : Tier => a.span ≤ b.span) tiers
  unfold mergeTiers
  rw [countAt_foldl_mergeTier span (List.pairwise_insertionSort (fun a b : Tier => a.span ≤ b.span) tiers)
    (fun b hb => hpositive b (hperm.mem_iff.mp hb)) (by rw [total_perm hperm]; exact hfits), countAt_perm span hperm]

theorem mergeTiers_eq {tiers merged : List Tier} (hpositive : Positive tiers) (hfits : total tiers ≤ maxInt)
    (hmerged : Positive merged) (hinc : (merged.map Tier.span).Pairwise (· < ·))
    (h : ∀ span, countAt span tiers = countAt span merged) : mergeTiers tiers = merged := by
  have hm := merged_mergeTiers hpositive hfits
  exact eq_of_countAt hm.positive hmerged hm.increasing hinc fun span => by
    rw [countAt_mergeTiers span hpositive hfits, h]

/-! ## Rewriting the parts -/

def joined (parts : List (List Char)) : String := String.ofList ([','].intercalate parts)

theorem splitOn_joined {parts : List (List Char)} (hcommas : ∀ part ∈ parts, ',' ∉ part) (hne : parts ≠ []) :
    (joined parts).toList.splitOn ',' = parts := by
  unfold joined
  rw [String.toList_ofList]
  exact List.splitOn_intercalate ',' hcommas hne

section Parts

variable {quote : String → String} {value : String} {p : Parsed} {parts : List (List Char)}

theorem parseTiers_joined (h : parseTiers quote value = .ok p) (hcommas : ∀ part ∈ parts, ',' ∉ part)
    (hne : parts ≠ []) (hread : ∀ part ∈ parts, (readTier part).isSome)
    (htotal : total (parts.filterMap readTier) = total p.tiers)
    (hcounts : ∀ span, countAt span (parts.filterMap readTier) = countAt span p.tiers) :
    parseTiers quote (joined parts) = .ok p := by
  obtain ⟨hsound, hinc, -⟩ := parseTiers_sound h
  have hfits : total (parts.filterMap readTier) ≤ maxInt := by
    rw [htotal, ← hsound.horizon]
    exact hsound.fits
  rw [parseTiers_eq_ok, splitOn_joined hcommas hne]
  refine ⟨hread, hfits, ?_⟩
  rw [mergeTiers_eq (filterMap_readTier_positive _) hfits hsound.positive hinc hcounts, htotal, ← hsound.horizon]

theorem parseTiers_perm (h : parseTiers quote value = .ok p) (hperm : parts.Perm (value.toList.splitOn ',')) :
    parseTiers quote (joined parts) = .ok p := by
  obtain ⟨hread, hfits, hp⟩ := parseTiers_eq_ok.mp h
  have htiers := hperm.filterMap readTier
  have hpositive := filterMap_readTier_positive (value.toList.splitOn ',')
  obtain ⟨hsound, -, -⟩ := parseTiers_sound h
  apply parseTiers_joined h
  · exact fun part hpart => Lists.not_mem_of_mem_splitOn (hperm.mem_iff.mp hpart)
  · intro hnil
    rw [hnil] at hperm
    exact List.splitOn_ne_nil _ _ hperm.symm.eq_nil
  · exact fun part hpart => hread part (hperm.mem_iff.mp hpart)
  · rw [total_perm htiers, ← hsound.horizon, hp]
  · intro span
    rw [countAt_perm span htiers, hp, countAt_mergeTiers span hpositive hfits]

end Parts

/-! ## Splitting a count -/

def written (part : List Char) : Option Written := bucketPattern (trimSpace part)

def Written.tier (w : Written) : Tier := ⟨decimal w.count, w.duration⟩

def countsOf (ws : List Written) : Int := ws.foldr (fun w n => decimal w.count + n) 0

structure Splits (part : List Char) (parts : List (List Char)) : Prop where
  commas : ∀ q ∈ parts, ',' ∉ q
  counts : ∃ w ws, written part = some w ∧ parts.map written = ws.map some ∧
    (∀ v ∈ ws, 0 < decimal v.count ∧ v.duration = w.duration) ∧ countsOf ws = decimal w.count

theorem countsOf_cons (w : Written) (ws : List Written) : countsOf (w :: ws) = decimal w.count + countsOf ws := rfl

theorem countsOf_nonneg {ws : List Written} (h : ∀ v ∈ ws, 0 < decimal v.count) : 0 ≤ countsOf ws := by
  induction ws with
  | nil => exact Int.le_refl 0
  | cons w ws ih =>
    have hw := h w (by simp)
    have hws := ih fun v hv => h v (by simp [hv])
    rw [countsOf_cons]
    omega

theorem count_le_countsOf {ws : List Written} {v : Written} (h : ∀ v ∈ ws, 0 < decimal v.count) (hv : v ∈ ws) :
    decimal v.count ≤ countsOf ws := by
  induction ws with
  | nil => exact absurd hv List.not_mem_nil
  | cons w ws ih =>
    have hw := h w (by simp)
    have hpos : ∀ v ∈ ws, 0 < decimal v.count := fun v hv => h v (by simp [hv])
    have hws := countsOf_nonneg hpos
    rw [countsOf_cons]
    rcases List.mem_cons.mp hv with rfl | hv
    · omega
    · have := ih hpos hv
      omega

section Splitting

variable {w : Written} {ws : List Written} {part : List Char} {parts : List (List Char)}

theorem inRange_of_split (hw : w.InRange) (hws : ∀ v ∈ ws, 0 < decimal v.count ∧ v.duration = w.duration)
    (hsum : countsOf ws = decimal w.count) {v : Written} (hv : v ∈ ws) : v.InRange := by
  obtain ⟨hpos, hsame⟩ := hws v hv
  have hle := count_le_countsOf (fun v hv => (hws v hv).1) hv
  have hcount := hw.1.2
  have hduration := hw.duration_pos
  rw [← hsame] at hduration
  refine ⟨⟨hpos, by omega⟩, ?_, by rw [hsame]; exact hw.2.2⟩
  exact Int.pos_of_mul_pos_left hduration v.unit.span_pos

theorem readTier_of_written (h : written part = some w) (hrange : w.InRange) : readTier part = some w.tier :=
  readTier_eq_some.mpr ⟨w, h, hrange, rfl⟩

theorem map_readTier (hwritten : parts.map written = ws.map some) (hrange : ∀ v ∈ ws, v.InRange) :
    parts.map readTier = (ws.map Written.tier).map some := by
  induction parts generalizing ws with
  | nil =>
    obtain rfl : ws = [] := List.map_eq_nil_iff.mp hwritten.symm
    rfl
  | cons q parts ih =>
    cases ws with
    | nil => cases hwritten
    | cons v ws =>
      simp only [List.map_cons, List.cons.injEq] at hwritten ⊢
      exact ⟨readTier_of_written hwritten.1 (hrange v (by simp)), ih hwritten.2 fun u hu => hrange u (by simp [hu])⟩

theorem filterMap_of_map_some {tiers : List Tier} (h : parts.map readTier = tiers.map some) :
    parts.filterMap readTier = tiers ∧ ∀ q ∈ parts, (readTier q).isSome := by
  constructor
  · have hsame : parts.filterMap readTier = (parts.map readTier).filterMap id := by
      rw [List.filterMap_map, Function.id_comp]
    rw [hsame, h, List.filterMap_map]
    exact List.filterMap_some
  · intro q hq
    have hmem := List.mem_map_of_mem (f := readTier) hq
    rw [h, List.mem_map] at hmem
    obtain ⟨b, -, hb⟩ := hmem
    rw [← hb]
    rfl

theorem total_tiers {duration : Int} (h : ∀ v ∈ ws, v.duration = duration) :
    total (ws.map Written.tier) = countsOf ws * duration := by
  induction ws with
  | nil => simp [countsOf]
  | cons v ws ih =>
    rw [List.map_cons, total_cons, countsOf_cons, ih fun u hu => h u (by simp [hu]), Int.add_mul]
    simp only [Written.tier, h v (by simp)]

theorem countAt_tiers (span : Int) {duration : Int} (h : ∀ v ∈ ws, v.duration = duration) :
    countAt span (ws.map Written.tier) = if duration = span then countsOf ws else 0 := by
  induction ws with
  | nil => simp [countsOf]
  | cons v ws ih =>
    rw [List.map_cons, countAt_cons, countsOf_cons, ih fun u hu => h u (by simp [hu])]
    simp only [Written.tier, h v (by simp)]
    split <;> rfl

theorem parseTiers_split {quote : String → String} {value : String} {p : Parsed} {before after : List (List Char)}
    (h : parseTiers quote value = .ok p) (hparts : value.toList.splitOn ',' = before ++ part :: after)
    (hsplit : Splits part parts) : parseTiers quote (joined (before ++ parts ++ after)) = .ok p := by
  obtain ⟨hread, hfits, hp⟩ := parseTiers_eq_ok.mp h
  obtain ⟨hsound, -, -⟩ := parseTiers_sound h
  obtain ⟨hcommas, w, ws, hw, hws, hsame, hsum⟩ := hsplit
  rw [hparts] at hread hfits hp
  obtain ⟨b, hb⟩ := Option.isSome_iff_exists.mp (hread part (by simp))
  obtain ⟨w', hw', hrange, rfl⟩ := readTier_eq_some.mp hb
  obtain rfl : w = w' := Option.some.inj (hw.symm.trans hw')
  have hinRange : ∀ v ∈ ws, v.InRange := fun v hv => inRange_of_split hrange hsame hsum hv
  have hduration : ∀ v ∈ ws, v.duration = w.duration := fun v hv => (hsame v hv).2
  obtain ⟨htiers, hsome⟩ := filterMap_of_map_some (map_readTier hws hinRange)
  have hone : (before ++ part :: after).filterMap readTier =
      before.filterMap readTier ++ w.tier :: after.filterMap readTier := by
    rw [List.filterMap_append, List.filterMap_cons_some hb]
    rfl
  have hmany : (before ++ parts ++ after).filterMap readTier =
      before.filterMap readTier ++ ws.map Written.tier ++ after.filterMap readTier := by
    rw [List.filterMap_append, List.filterMap_append, htiers]
  have hrest : ∀ q ∈ before ++ part :: after, ',' ∉ q := by
    rw [← hparts]
    exact fun q hq => Lists.not_mem_of_mem_splitOn hq
  apply parseTiers_joined h
  · intro q hq
    simp only [List.mem_append] at hq
    rcases hq with (hq | hq) | hq
    · exact hrest q (by simp [hq])
    · exact hcommas q hq
    · exact hrest q (by simp [hq])
  · rintro hnil
    obtain ⟨hnil, -⟩ := List.append_eq_nil_iff.mp hnil
    obtain ⟨-, rfl⟩ := List.append_eq_nil_iff.mp hnil
    obtain rfl : ws = [] := List.map_eq_nil_iff.mp hws.symm
    have hpos := hrange.1.1
    rw [← hsum] at hpos
    exact absurd hpos (by decide)
  · intro q hq
    simp only [List.mem_append] at hq
    rcases hq with (hq | hq) | hq
    · exact hread q (by simp [hq])
    · exact hsome q hq
    · exact hread q (by simp [hq])
  · rw [← hsound.horizon, hp, hone, hmany]
    simp only [total_append, total_cons, total_tiers hduration, hsum, Written.tier, Int.add_assoc]
  · intro span
    rw [hp, countAt_mergeTiers span (filterMap_readTier_positive _) hfits, hone, hmany]
    simp only [countAt_append, countAt_cons, countAt_tiers span hduration, hsum, Written.tier]
    split <;> omega

end Splitting

/-! ## The canonical text -/

/-- `%d` -/
def digits (n : Int) : List Char :=
  if n < 0 then '-' :: Nat.toDigits 10 n.natAbs else Nat.toDigits 10 n.natAbs

def Tier.writtenIn (b : Tier) (u : GridUnit) : List Char :=
  digits b.count ++ 'x' :: (digits (b.span.tdiv u.span) ++ u.text.toList)

def Tier.text (b : Tier) : Option (List Char) :=
  (GridUnit.all.find? fun u => b.span.tmod u.span = 0).map b.writtenIn

/-- The text of the grid, `String()`. -/
def Parsed.text (p : Parsed) : String := joined (p.tiers.filterMap Tier.text)

theorem digits_eq {n : Int} (h : 0 < n) : digits n = Nat.toDigits 10 n.toNat := by
  unfold digits
  rw [if_neg (by omega)]
  congr 1
  omega

theorem decimal_digits {n : Int} (h : 0 < n) : decimal (digits n) = n := by
  have hcast : ∀ (l : List Char) (k : Nat), l.foldl (fun n c => 10 * n + ((c.toNat - 48 : Nat) : Int)) (k : Int) =
      (Nat.ofDigitChars 10 l k : Nat) := by
    intro l
    induction l with
    | nil => exact fun k => rfl
    | cons c l ih =>
      intro k
      have hstep : (10 * (k : Int) + ((c.toNat - 48 : Nat) : Int)) = ((10 * k + (c.toNat - 48) : Nat) : Int) := by
        omega
      rw [List.foldl_cons, hstep, ih]
      rfl
  have hzero := hcast (digits n) 0
  unfold decimal
  rw [Int.natCast_zero] at hzero
  rw [hzero, digits_eq h, Nat.ofDigitChars_ten_toDigits]
  omega

theorem isDigit_of_mem_digits {n : Int} (h : 0 < n) {c : Char} (hc : c ∈ digits n) : c.isDigit = true := by
  rw [digits_eq h] at hc
  exact Nat.isDigit_of_mem_toDigits (by decide) (by decide) hc

theorem digits_ne_nil {n : Int} (h : 0 < n) : digits n ≠ [] := by
  rw [digits_eq h]
  exact Nat.toDigits_ne_nil

theorem GridUnit.takeWhile_text (u : GridUnit) : u.text.toList.takeWhile Char.isDigit = [] := by cases u <;> rfl

theorem GridUnit.dropWhile_text (u : GridUnit) : u.text.toList.dropWhile Char.isDigit = u.text.toList := by
  cases u <;> rfl

theorem GridUnit.find_text (u : GridUnit) : GridUnit.all.find? (fun v => v.text.toList == u.text.toList) = some u := by
  cases u <;> rfl

theorem bucketPattern_eq {count amount : List Char} (u : GridUnit) (hcount : ∀ c ∈ count, c.isDigit = true)
    (hamount : ∀ c ∈ amount, c.isDigit = true) (hne : count ≠ []) (hne' : amount ≠ []) :
    bucketPattern (count ++ 'x' :: (amount ++ u.text.toList)) = some ⟨count, amount, u⟩ := by
  have hx : Char.isDigit 'x' = false := rfl
  unfold bucketPattern
  simp only [List.takeWhile_append_of_pos hcount, List.dropWhile_append_of_pos hcount, List.takeWhile_cons,
    List.dropWhile_cons, hx, Bool.false_eq_true, if_false, List.takeWhile_append_of_pos hamount,
    List.dropWhile_append_of_pos hamount, u.takeWhile_text, u.dropWhile_text, u.find_text, List.append_nil,
    List.isEmpty_eq_false_iff.mpr hne, List.isEmpty_eq_false_iff.mpr hne', Bool.or_self]

theorem plain_of_isDigit {c : Char} (h : c.isDigit = true) : space c = false ∧ c ≠ ',' := by
  obtain ⟨hlow, hhigh⟩ : 48 ≤ c.toNat ∧ c.toNat ≤ 57 := by
    simp only [Char.isDigit, Bool.and_eq_true, decide_eq_true_eq] at h
    exact h
  constructor
  · apply Bool.eq_false_iff.mpr
    intro hspace
    simp only [space, Bool.or_eq_true, Bool.and_eq_true, decide_eq_true_eq, List.contains_iff_mem, List.mem_cons,
      List.not_mem_nil, or_false] at hspace
    omega
  · rintro rfl
    exact absurd hlow (by decide)

theorem GridUnit.plain_text (u : GridUnit) : ∀ c ∈ u.text.toList, space c = false ∧ c ≠ ',' := by
  have hall : u.text.toList.all (fun c => !space c && c != ',') = true := by cases u <;> rfl
  intro c hc
  have hplain := List.all_eq_true.mp hall c hc
  simpa using hplain

theorem trimSpace_of_plain {text : List Char} (h : ∀ c ∈ text, space c = false) : trimSpace text = text := by
  have hdrop : ∀ l : List Char, (∀ c ∈ l, space c = false) → l.dropWhile space = l := by
    intro l hl
    cases l with
    | nil => rfl
    | cons c l => rw [List.dropWhile_cons, if_neg (by rw [hl c (by simp)]; exact Bool.false_ne_true)]
  unfold trimSpace
  rw [hdrop text h, hdrop text.reverse (fun c hc => h c (List.mem_reverse.mp hc)), List.reverse_reverse]

section Text

variable {b : Tier} {u : GridUnit}

structure Tier.Printable (b : Tier) (u : GridUnit) : Prop where
  count : 0 < b.count ∧ b.count ≤ 2147483647
  span : 0 < b.span ∧ b.span ≤ maxInt
  unit : b.span.tmod u.span = 0

theorem Tier.Printable.amount_mul (h : b.Printable u) : b.span.tdiv u.span * u.span = b.span :=
  Int.tdiv_mul_cancel_of_tmod_eq_zero h.unit

theorem Tier.Printable.amount_pos (h : b.Printable u) : 0 < b.span.tdiv u.span := by
  have hspan := h.span.1
  rw [← h.amount_mul] at hspan
  exact Int.pos_of_mul_pos_left hspan u.span_pos

theorem Tier.Printable.plain (h : b.Printable u) : ∀ c ∈ b.writtenIn u, space c = false ∧ c ≠ ',' := by
  intro c hc
  simp only [Tier.writtenIn, List.mem_append, List.mem_cons] at hc
  rcases hc with hc | rfl | hc | hc
  · exact plain_of_isDigit (isDigit_of_mem_digits h.count.1 hc)
  · decide
  · exact plain_of_isDigit (isDigit_of_mem_digits h.amount_pos hc)
  · exact u.plain_text c hc

theorem Tier.Printable.readTier_writtenIn (h : b.Printable u) : readTier (b.writtenIn u) = some b := by
  have hamount := h.amount_pos
  have hwritten : written (b.writtenIn u) = some ⟨digits b.count, digits (b.span.tdiv u.span), u⟩ := by
    unfold written
    rw [trimSpace_of_plain fun c hc => (h.plain c hc).1]
    exact bucketPattern_eq u (fun c hc => isDigit_of_mem_digits h.count.1 hc)
      (fun c hc => isDigit_of_mem_digits hamount hc) (digits_ne_nil h.count.1) (digits_ne_nil hamount)
  have hduration : Written.duration ⟨digits b.count, digits (b.span.tdiv u.span), u⟩ = b.span := by
    unfold Written.duration
    rw [decimal_digits hamount, h.amount_mul]
  rw [readTier_of_written hwritten]
  · rw [Written.tier, hduration, decimal_digits h.count.1]
  · unfold Written.InRange
    rw [hduration, decimal_digits h.count.1, decimal_digits hamount]
    exact ⟨h.count, hamount, h.span.2⟩

end Text

section Accepted

variable {quote : String → String} {value : String} {p : Parsed} {b : Tier}

theorem product_le_total {tiers : List Tier} (hpositive : Positive tiers) (hb : b ∈ tiers) :
    b.count * b.span ≤ total tiers := by
  obtain ⟨pre, post, rfl⟩ := List.append_of_mem hb
  have hpre : Positive pre := fun c hc => hpositive c (by simp [hc])
  have hpost : Positive post := fun c hc => hpositive c (by simp [hc])
  have := hpre.total_nonneg
  have := hpost.total_nonneg
  rw [total_append, total_cons]
  omega

theorem printable_of_parseTiers (h : parseTiers quote value = .ok p) (hb : b ∈ p.tiers) :
    ∃ u, b.text = some (b.writtenIn u) ∧ b.Printable u := by
  obtain ⟨hsound, -, -⟩ := parseTiers_sound h
  obtain ⟨hcount, hspan⟩ := hsound.positive b hb
  have hdvd := minute_dvd_of_parseTiers h hb
  have hproduct := product_le_total hsound.positive hb
  rw [← hsound.horizon] at hproduct
  have hfits := hsound.fits
  have hminute : (60000000000 : Int) ≤ b.span := Int.le_of_dvd hspan hdvd
  have hlow : b.count * 60000000000 ≤ b.count * b.span := Int.mul_le_mul_of_nonneg_left hminute (Int.le_of_lt hcount)
  have hone : b.span ≤ b.count * b.span := by
    have := Int.mul_le_mul_of_nonneg_right (show 1 ≤ b.count from hcount) (Int.le_of_lt hspan)
    omega
  unfold maxInt at hfits
  have hsome : (GridUnit.all.find? fun u => b.span.tmod u.span = 0).isSome = true := by
    rw [List.find?_isSome]
    exact ⟨.minute, by decide, by simpa using Int.tmod_eq_zero_of_dvd hdvd⟩
  obtain ⟨u, hu⟩ := Option.isSome_iff_exists.mp hsome
  refine ⟨u, by unfold Tier.text; rw [hu, Option.map_some], ⟨hcount, by omega⟩, ⟨hspan, by unfold maxInt; omega⟩, ?_⟩
  simpa using List.find?_some hu

theorem map_readTier_text {tiers : List Tier}
    (h : ∀ b ∈ tiers, ∃ u, b.text = some (b.writtenIn u) ∧ b.Printable u) :
    (tiers.filterMap Tier.text).map readTier = tiers.map some := by
  induction tiers with
  | nil => rfl
  | cons b tiers ih =>
    obtain ⟨u, hu, hprintable⟩ := h b (by simp)
    rw [List.filterMap_cons_some hu, List.map_cons, List.map_cons, hprintable.readTier_writtenIn,
      ih fun c hc => h c (by simp [hc])]

theorem parseTiers_text (h : parseTiers quote value = .ok p) : parseTiers quote p.text = .ok p := by
  obtain ⟨-, -, hne⟩ := parseTiers_sound h
  have hread := map_readTier_text fun b hb => printable_of_parseTiers h hb
  obtain ⟨htiers, hsome⟩ := filterMap_of_map_some hread
  apply parseTiers_joined h
  · intro part hpart
    obtain ⟨b, hb, htext⟩ := List.mem_filterMap.mp hpart
    obtain ⟨u, hu, hprintable⟩ := printable_of_parseTiers h hb
    obtain rfl : b.writtenIn u = part := Option.some.inj (hu.symm.trans htext)
    exact fun hmem => (hprintable.plain ',' hmem).2 rfl
  · intro hnil
    rw [hnil, List.map_nil] at hread
    exact hne (List.map_eq_nil_iff.mp hread.symm)
  · exact hsome
  · rw [htiers]
  · intro span
    rw [htiers]

/-! ## The sums of `PlanPrune` -/

theorem sums_exact (h : p.Sound) {pre post : List Tier} (htiers : p.tiers = pre ++ b :: post) :
    wrap (b.count * b.span) = b.count * b.span ∧
      wrap (total pre + wrap (b.count * b.span)) = total (pre ++ [b]) ∧ total (pre ++ [b]) ≤ maxInt := by
  obtain ⟨hpositive, hhorizon, hfits⟩ := h
  rw [htiers] at hpositive hhorizon
  obtain ⟨hcount, hspan⟩ := hpositive b (by simp)
  have hpre : Positive pre := fun c hc => hpositive c (by simp [hc])
  have hpost : Positive post := fun c hc => hpositive c (by simp [hc])
  have hpre0 := hpre.total_nonneg
  have hpost0 := hpost.total_nonneg
  have hproduct : 0 < b.count * b.span := Int.mul_pos hcount hspan
  rw [total_append, total_cons] at hhorizon
  rw [total_append, total_cons, total_nil, Int.add_zero]
  have hwrap : wrap (b.count * b.span) = b.count * b.span := wrap_of_fits (by omega) (by omega)
  rw [hwrap]
  exact ⟨rfl, wrap_of_fits (by omega) (by omega), by omega⟩

structure Canonical (quote : String → String) (value : String) (p : Parsed) : Prop where
  increasing : (p.tiers.map Tier.span).Pairwise (· < ·)
  positive : Positive p.tiers
  horizon : p.horizon = total p.tiers
  fits : 0 ≤ p.horizon ∧ p.horizon ≤ maxInt
  sums : ∀ pre b post, p.tiers = pre ++ b :: post → wrap (b.count * b.span) = b.count * b.span ∧
    wrap (total pre + wrap (b.count * b.span)) = total (pre ++ [b]) ∧ total (pre ++ [b]) ≤ maxInt
  windows : ∀ age : Nat, (age : Int) ≤ maxInt → Lifecycle.machineWindow (p.tiers.map Tier.bucket) 0 0 age =
    (Lifecycle.windowOf (p.tiers.map Tier.bucket) 0 0 age).map fun w => (w.1, (w.2 : Int))
  text : parseTiers quote p.text = .ok p
  permuted : ∀ parts, parts.Perm (value.toList.splitOn ',') → parseTiers quote (joined parts) = .ok p
  split : ∀ before part after parts, value.toList.splitOn ',' = before ++ part :: after → Splits part parts →
    parseTiers quote (joined (before ++ parts ++ after)) = .ok p

theorem parseTiers_canonical (h : parseTiers quote value = .ok p) : Canonical quote value p := by
  obtain ⟨hsound, hinc, -⟩ := parseTiers_sound h
  refine ⟨hinc, hsound.positive, hsound.horizon, ⟨?_, hsound.fits⟩, fun pre b post => sums_exact hsound, ?_,
    parseTiers_text h, fun parts => parseTiers_perm h, fun before part after parts => parseTiers_split h⟩
  · rw [hsound.horizon]
    exact hsound.positive.total_nonneg
  · intro age hage
    have hreach := Lifecycle.reach_le (p.grid hsound hinc fun _ => minute_dvd_of_parseTiers h)
    exact Lifecycle.machineWindow_eq (by rw [Nat.zero_add]; exact Int.ofNat_le.mpr hreach) hage

end Accepted

/-! ### Hours written in two units -/

/-- Its text is `4x30m,26x1h`, and `2x60m` may be written as two single windows. -/
theorem mixed_canonical : ∃ p, parseTiers id "24x1h, 4x30m,2x60m" = .ok p ∧ p.text = "4x30m,26x1h" ∧
    Canonical id "24x1h, 4x30m,2x60m" p ∧
    parseTiers id "24x1h, 4x30m,1x1h,01x60m" = .ok p := by
  have hparse : parseTiers id "24x1h, 4x30m,2x60m" =
      .ok ⟨100800000000000, [⟨4, 1800000000000⟩, ⟨26, 3600000000000⟩]⟩ := by decide
  have hcanonical := parseTiers_canonical hparse
  refine ⟨_, hparse, by decide, hcanonical, ?_⟩
  refine hcanonical.split ["24x1h".toList, " 4x30m".toList] "2x60m".toList [] ["1x1h".toList, "01x60m".toList]
    (by decide) ⟨by decide, ⟨"2".toList, "60".toList, .minute⟩,
      [⟨"1".toList, "1".toList, .hour⟩, ⟨"01".toList, "60".toList, .minute⟩], by decide, by decide, by decide, by decide⟩

end Boomerangz.Policy
