import Boomerangz.Zfs.Text

/-! # Inspection in batches

`inspectState` on the lines ZFS prints, many objects at a time.
-/

namespace Boomerangz.Zfs.Inventory

open Check Zfs.Text

abbrev Text := List Char

/-! ## What ZFS answers -/

/-- A line of `zfs get`. Without the received column, `-` stands in its place. -/
structure Line where
  name : Text
  property : Text
  value : Text
  received : Text
  source : Text
deriving DecidableEq

structure Runner where
  list : Text → Bool → Except String (List ObjectRow)
  get : Bool → Text → List Text → Except String (List Line)
  holds : List Text → Except String (List (Text × Text))

def dash : Text := ['-']

def allText : Text := "all".toList

/-- A consistent state, as the commands show it. -/
structure World where
  listing : Text → Bool → Option (List ObjectRow)
  listed : Text → List Text
  cells : Text → Text → Text × Text × Text
  tags : Text → List Text
  commaless : ∀ n, ∀ k ∈ listed n, ',' ∉ k

namespace World

def line (w : World) (column : Bool) (n k : Text) : Line :=
  ⟨n, k, (w.cells n k).1, if column then (w.cells n k).2.1 else dash, (w.cells n k).2.2⟩

def keys (w : World) (properties n : Text) : List Text :=
  if properties = allText then w.listed n else properties.splitOn ','

def lines (w : World) (column : Bool) (properties : Text) (names : List Text) : List Line :=
  names.flatMap fun n => (w.keys properties n).map (w.line column n)

def held (w : World) (names : List Text) : List (Text × Text) :=
  names.flatMap fun n => (w.tags n).map fun t => (n, t)

end World

/-- The commands answer about the state, line by line and in any order. -/
structure Runner.Answers (run : Runner) (w : World) : Prop where
  list : ∀ d recursive rows, w.listing d recursive = some rows →
    ∃ rows', run.list d recursive = .ok rows' ∧ rows'.Perm rows
  unlisted : ∀ d recursive, w.listing d recursive = none → ∃ e, run.list d recursive = .error e
  get : ∀ column properties names,
    ∃ lines, run.get column properties names = .ok lines ∧ lines.Perm (w.lines column properties names)
  holds : ∀ names, ∃ held, run.holds names = .ok held ∧ held.Perm (w.held names)

/-! ## The objects -/

def isSeparator (c : Char) : Bool := c == '@' || c == '#'

/-- The first of `strings.FieldsFunc`. -/
def baseOf (name : Text) : Text := (name.dropWhile isSeparator).takeWhile (!isSeparator ·)

def validateComponent (name : Text) : Bool := name != [] && name.all fun c => c != '/' && !isSeparator c && !blank c

/-- `validateSnapshot` and `validateBookmark`. -/
def validateCut (sep : Char) (banned : Text) (name : Text) : Bool :=
  let component := (name.dropWhile (· != sep)).tail
  component.all (!banned.contains ·) && validateDataset (name.takeWhile (· != sep)) && validateComponent component

def validateObject (name : Text) : Bool :=
  if name.contains '@' then validateCut '@' "@,%".toList name
  else if name.contains '#' then validateCut '#' "#".toList name
  else validateDataset name

def snapshotKind : Text := "snapshot".toList

def bookmarkKind : Text := "bookmark".toList

def kinds : List Text := ["filesystem".toList, "volume".toList, snapshotKind, bookmarkKind]

def inQuery (dataset : Text) (o : ObjectRow) : Bool :=
  baseOf o.name == dataset || (dataset ++ ['/']).isPrefixOf (baseOf o.name)

def skipped (dataset : Text) (recursive : Bool) (o : ObjectRow) : Bool := !recursive && baseOf o.name != dataset

/-- The closure over the lines of `zfs list`. -/
def listObjects (dataset : Text) (recursive : Bool) : List ObjectRow → List ObjectRow → Except String (List ObjectRow)
  | [], objects => .ok objects
  | o :: rows, objects => do
    require (inQuery dataset o) "object outside query scope"
    if skipped dataset recursive o then listObjects dataset recursive rows objects
    else do
      require (validateObject o.name) "invalid ZFS name"
      require (!(objects.map ObjectRow.name).contains o.name) "duplicate object"
      require (o.guid != 0) "invalid GUID"
      require (decide (0 ≤ o.creation)) "invalid creation"
      require (kinds.contains o.type) "unexpected object type"
      require ((o.type == snapshotKind) == o.name.contains '@' && (o.type == bookmarkKind) == o.name.contains '#')
        "object name and type disagree"
      require (o.createTXG != 0) "invalid creation transaction"
      listObjects dataset recursive rows (objects ++ [o])

/-- The part of `inspectState` that reads the objects. -/
def objectsOf (run : Runner) (dataset : Text) (recursive : Bool) : Except String (List ObjectRow) := do
  require (validateDataset dataset) "invalid ZFS dataset name"
  let rows ← run.list dataset recursive
  let objects ← listObjects dataset recursive rows []
  require ((objects.map ObjectRow.name).contains dataset) "dataset missing from inventory"
  return objects.insertionSort fun a b => textLe a.name b.name

/-! ## The state -/

structure State where
  objects : List ObjectRow
  properties : List Row
  received : Text × Text → Option Text
  resumeTokens : Text → Option Text
  clones : Text → Option (List Text)
  holds : Text → Option (List Text)

def namespaced (k : Text) : Bool := "org.boomerangz:".toList.isPrefixOf k

def fixedKeys : List Text := [lineageProperty, snapshotProperty]

def Line.isSet (f : Line) (k : String) : Bool := f.property == k.toList && f.value != dash && f.value != []

def Line.isReceived (f : Line) : Bool := namespaced f.property && f.received != dash

def Line.isStored (f : Line) : Bool :=
  namespaced f.property && (f.source == "local".toList || f.source == "received".toList)

def Line.row (f : Line) : Row := ⟨f.name, f.property, f.value, f.source⟩

def put {κ β : Type} [DecidableEq κ] (counts : Line → Bool) (key : Line → κ) (value : Line → β) (m : κ → Option β)
    (f : Line) : κ → Option β :=
  if counts f then Function.update m (key f) (some (value f)) else m

def addProperty (properties : List Row) (f : Line) : List Row :=
  if f.isStored && !properties.contains f.row then properties ++ [f.row] else properties

def addHold (m : Text → Option (List Text)) (h : Text × Text) :
    Text → Option (List Text) :=
  Function.update m h.1 (some ((m h.1).getD [] ++ [h.2]))

def textsLe : List Text → List Text → Bool
  | [], _ => true
  | _ :: _, [] => false
  | a :: as, b :: bs => if a = b then textsLe as bs else textLe a b

/-- `compareProperties`. -/
def propertyLe (p q : Row) : Bool :=
  textsLe [p.dataset, p.name, p.source, p.value] [q.dataset, q.name, q.source, q.value]

def sortTexts (l : List Text) : List Text := l.insertionSort fun a b => textLe a b

def stateOf (objects : List ObjectRow) (lines : List Line) (held : List (Text × Text)) : State where
  objects := objects
  properties := (lines.foldl addProperty []).insertionSort fun p q => propertyLe p q
  received := lines.foldl (put Line.isReceived (fun f => (f.name, f.property)) Line.received) fun _ => none
  resumeTokens := lines.foldl (put (·.isSet "receive_resume_token") Line.name Line.value) fun _ => none
  clones n := (lines.foldl (put (·.isSet "clones") Line.name (·.value.splitOn ',')) (fun _ => none) n).map sortTexts
  holds n := (held.foldl addHold (fun _ => none) n).map sortTexts

/-! ## The queries -/

def inspectionChunks (batch : Nat) (names : List Text) : List (List Text) :=
  let size := if 0 < batch then batch else 256
  if names = [] then [] else names.take size :: inspectionChunks batch (names.drop size)
termination_by names.length
decreasing_by
  simp only [List.length_drop]
  have := List.length_pos_iff.mpr ‹_›
  split <;> omega

def gather {α β : Type} (f : α → Except String (List β)) : List α → Except String (List β)
  | [] => .ok []
  | a :: l => do
    let first ← f a
    let rest ← gather f l
    return first ++ rest

def queryKeys (all : List Line) : List Text :=
  Lists.compact ((fixedKeys ++ (all.filter (namespaced ·.property)).map Line.property).insertionSort
    fun a b => textLe a b)

def keepLine (all : List Line) (f : Line) : Bool :=
  fixedKeys.contains f.property ||
    (all.filter (namespaced ·.property)).any fun g => g.name == f.name && g.property == f.property

/-- The two queries of a chunk; each line goes with the query it is from. -/
def readChunk (run : Runner) (chunk : List Text) : Except String (List (Bool × Line)) := do
  let all ← run.get false allText chunk
  require (all.all (chunk.contains ·.name)) "property outside exact object query"
  let received ← run.get true ([','].intercalate (queryKeys all)) chunk
  require (received.all (chunk.contains ·.name)) "property outside exact object query"
  return all.map (fun f => (false, f)) ++ (received.filter (keepLine all)).map fun f => (true, f)

def readHolds (run : Runner) (chunk : List Text) : Except String (List (Text × Text)) := do
  let held ← run.holds chunk
  require (held.all (chunk.contains ·.1)) "hold outside queried snapshot"
  return held

def namesOf (objects : List ObjectRow) : List Text := (objects.filter (·.type != bookmarkKind)).map ObjectRow.name

def snapshotsOf (objects : List ObjectRow) : List Text := (objects.filter (·.type == snapshotKind)).map ObjectRow.name

/-- `rows[name][query]`. -/
def regroup (rows : List (Bool × Line)) (n : Text) (query : Bool) : List Line :=
  (rows.filter fun f => f.1 == query && f.2.name == n).map Prod.snd

/-- The part of `inspectState` that reads properties and holds. -/
def readBatches (run : Runner) (batch : Nat) (objects : List ObjectRow) : Except String State := do
  let rows ← gather (readChunk run) (inspectionChunks batch (namesOf objects))
  let held ← gather (readHolds run) (inspectionChunks batch (snapshotsOf objects))
  return stateOf objects ((namesOf objects).flatMap fun n => regroup rows n false ++ regroup rows n true) held

def inspectState (run : Runner) (batch : Nat) (dataset : Text) (recursive : Bool) : Except String State := do
  let objects ← objectsOf run dataset recursive
  readBatches run batch objects

def readObject (run : Runner) (n : Text) : Except String (List Line) := do
  let all ← run.get true allText [n]
  let fixed ← run.get true ([','].intercalate fixedKeys) [n]
  return all ++ fixed

def readEach (run : Runner) (objects : List ObjectRow) : Except String State := do
  let lines ← gather (readObject run) (namesOf objects)
  let held ← gather (fun n => run.holds [n]) (snapshotsOf objects)
  return stateOf objects lines held

/-- What `inspectState` stands for: each object is asked for separately. -/
def inspectEach (run : Runner) (dataset : Text) (recursive : Bool) : Except String State := do
  let objects ← objectsOf run dataset recursive
  readEach run objects

/-! ## Canonical order -/

theorem insertionSort_congr {α : Type} {le : α → α → Bool} {l l' : List α}
    (htotal : ∀ a b, le a b = true ∨ le b a = true)
    (htrans : ∀ a b c, le a b = true → le b c = true → le a c = true)
    (hanti : ∀ a ∈ l, ∀ b ∈ l, le a b = true → le b a = true → a = b) (h : l.Perm l') :
    l.insertionSort (fun a b => le a b) = l'.insertionSort fun a b => le a b := by
  have : Std.Total fun a b : α => le a b = true := ⟨htotal⟩
  have : IsTrans α fun a b => le a b = true := ⟨htrans⟩
  have hsort := List.perm_insertionSort (fun a b => le a b = true) l
  have hsort' := List.perm_insertionSort (fun a b => le a b = true) l'
  refine List.Perm.eq_of_pairwise (fun a b ha hb => ?_) (List.pairwise_insertionSort _ l)
    (List.pairwise_insertionSort _ l') (hsort.trans (h.trans hsort'.symm))
  exact hanti a (hsort.mem_iff.mp ha) b (h.mem_iff.mpr (hsort'.mem_iff.mp hb))

theorem textsLe_total (a b : List Text) : textsLe a b = true ∨ textsLe b a = true := by
  induction a generalizing b with
  | nil => simp [textsLe]
  | cons x a ih =>
    cases b with
    | nil => simp [textsLe]
    | cons y b =>
      by_cases h : x = y
      · simpa [textsLe, h] using ih b
      · simpa [textsLe, h, Ne.symm h] using textLe_total x y

theorem textsLe_trans (a b c : List Text) (hab : textsLe a b = true) (hbc : textsLe b c = true) :
    textsLe a c = true := by
  induction a generalizing b c with
  | nil => simp [textsLe]
  | cons x a ih =>
    cases b with
    | nil => simp [textsLe] at hab
    | cons y b =>
      cases c with
      | nil => simp [textsLe] at hbc
      | cons z c =>
        by_cases hxy : x = y
        · subst hxy
          by_cases hxz : x = z
          · subst hxz
            simp only [textsLe, if_true] at hab hbc ⊢
            exact ih b c hab hbc
          · simpa [textsLe, hxz] using hbc
        · by_cases hyz : y = z
          · subst hyz
            simpa [textsLe, hxy] using hab
          · have hab : textLe x y = true := by simpa [textsLe, hxy] using hab
            have hbc : textLe y z = true := by simpa [textsLe, hyz] using hbc
            have hxz : x ≠ z := fun h => hxy (textLe_antisymm hab (h ▸ hbc))
            simpa [textsLe, hxz] using textLe_trans hab hbc

theorem textsLe_antisymm (a b : List Text) (hab : textsLe a b = true) (hba : textsLe b a = true) : a = b := by
  induction a generalizing b with
  | nil =>
    cases b with
    | nil => rfl
    | cons y b => simp [textsLe] at hba
  | cons x a ih =>
    cases b with
    | nil => simp [textsLe] at hab
    | cons y b =>
      by_cases h : x = y
      · subst h
        rw [ih b (by simpa [textsLe] using hab) (by simpa [textsLe] using hba)]
      · exact absurd (textLe_antisymm (by simpa [textsLe, h] using hab) (by simpa [textsLe, Ne.symm h] using hba)) h

theorem sortTexts_congr {l l' : List Text} (h : l.Perm l') : sortTexts l = sortTexts l' :=
  insertionSort_congr textLe_total (fun _ _ _ => textLe_trans) (fun _ _ _ _ => textLe_antisymm) h

theorem sort_properties_congr {l l' : List Row} (h : l.Perm l') :
    (l.insertionSort fun p q => propertyLe p q) = l'.insertionSort fun p q => propertyLe p q := by
  refine insertionSort_congr (fun p q => textsLe_total _ _) (fun p q r => textsLe_trans _ _ _) ?_ h
  intro p _ q _ hpq hqp
  have := textsLe_antisymm _ _ hpq hqp
  rcases p with ⟨dataset, name, value, source⟩
  simp_all

/-! ## What a loop over the lines keeps -/

section Lines

variable {lines lines' : List Line}

theorem foldl_put {κ β : Type} [DecidableEq κ] {counts : Line → Bool} {key : Line → κ} {value : Line → β} (V : κ → β)
    (hV : ∀ f ∈ lines, counts f = true → value f = V (key f)) (k : κ) (v : β) :
    lines.foldl (put counts key value) (fun _ => none) k = some v ↔
      (∃ f ∈ lines, counts f = true ∧ key f = k) ∧ V k = v := by
  induction lines using List.reverseRecOn with
  | nil => simp
  | append_singleton lines f ih =>
    rw [List.foldl_append, List.foldl_cons, List.foldl_nil, put]
    specialize ih fun g hg => hV g (List.mem_append_left _ hg)
    have hf := hV f (by simp)
    by_cases hcounts : counts f = true
    · rw [if_pos hcounts]
      by_cases hk : k = key f
      · subst hk
        simp [hf hcounts, hcounts]
      · rw [Function.update_of_ne hk, ih]
        simp [Ne.symm hk]
    · rw [if_neg hcounts, ih]
      simp [hcounts]

theorem foldl_addProperty (lines : List Line) : (lines.foldl addProperty []).Nodup ∧
    ∀ p, p ∈ lines.foldl addProperty [] ↔ ∃ f ∈ lines, f.isStored = true ∧ f.row = p := by
  induction lines using List.reverseRecOn with
  | nil => simp
  | append_singleton lines f ih =>
    rw [List.foldl_append, List.foldl_cons, List.foldl_nil, addProperty]
    split
    next h =>
      obtain ⟨hstored, hnew⟩ : f.isStored = true ∧ f.row ∉ lines.foldl addProperty [] := by simpa using h
      refine ⟨ih.1.append (List.nodup_singleton _) (List.disjoint_singleton.mpr hnew), fun p => ?_⟩
      simp only [List.mem_append, List.mem_singleton, ih.2, or_and_right, exists_or, exists_eq_left, hstored, true_and,
        @eq_comm _ p]
    next h =>
      refine ⟨ih.1, fun p => ?_⟩
      have hold : f.isStored = true → f.row ∈ lines.foldl addProperty [] := by simpa using h
      simp only [ih.2, List.mem_append, List.mem_singleton, or_and_right, exists_or, exists_eq_left]
      refine ⟨.inl, fun hp => hp.elim id fun hf => ?_⟩
      exact hf.2 ▸ (ih.2 _).mp (hold hf.1)

def orNone (l : List Text) : Option (List Text) := if l = [] then none else some l

theorem getD_orNone (l : List Text) : (orNone l).getD [] = l := by
  unfold orNone
  split <;> simp_all

theorem foldl_addHold (held : List (Text × Text)) (n : Text) :
    held.foldl addHold (fun _ => none) n = orNone ((held.filter (·.1 == n)).map Prod.snd) := by
  induction held using List.reverseRecOn with
  | nil => rfl
  | append_singleton held h ih =>
    rw [List.foldl_append, List.foldl_cons, List.foldl_nil, addHold]
    by_cases hn : n = h.1
    · subst hn
      rw [Function.update_self, ih, getD_orNone, List.filter_append, List.map_append, orNone, if_neg (by simp)]
      simp
    · rw [Function.update_of_ne hn, ih, List.filter_append, List.filter_singleton, beq_false_of_ne (Ne.symm hn)]
      simp

end Lines

/-! ## What the lines have to show -/

section Shows

variable {w : World} {names : List Text} {lines lines' : List Line}

def World.shows (w : World) (n k : Text) : Prop := k ∈ w.listed n ∨ k ∈ fixedKeys

structure Shows (w : World) (names : List Text) (lines : List Line) : Prop where
  sound : ∀ f ∈ lines, f.name ∈ names ∧ w.shows f.name f.property ∧ ∃ column, f = w.line column f.name f.property
  complete : ∀ n ∈ names, ∀ k, w.shows n k → ∃ column, w.line column n k ∈ lines
  received : ∀ n ∈ names, ∀ k, w.shows n k → namespaced k = true → w.line true n k ∈ lines

theorem isReceived_line {column : Bool} {n k : Text} (h : (w.line column n k).isReceived = true) :
    column = true := by
  cases column with
  | true => rfl
  | false => simp [Line.isReceived, World.line] at h

theorem Shows.exists_iff (h : Shows w names lines) (h' : Shows w names lines') {P : Line → Prop}
    (hP : ∀ column column' n k, P (w.line column n k) → P (w.line column' n k)) :
    (∃ f ∈ lines, P f) → ∃ f ∈ lines', P f := by
  rintro ⟨f, hf, hPf⟩
  obtain ⟨hname, hshows, column, heq⟩ := h.sound f hf
  obtain ⟨column', hmem⟩ := h'.complete _ hname _ hshows
  exact ⟨_, hmem, hP column column' _ _ (heq ▸ hPf)⟩

theorem Shows.exists_received (h : Shows w names lines) (h' : Shows w names lines') {P : Line → Prop} :
    (∃ f ∈ lines, f.isReceived = true ∧ P f) → ∃ f ∈ lines', f.isReceived = true ∧ P f := by
  rintro ⟨f, hf, hreceived, hPf⟩
  obtain ⟨hname, hshows, column, heq⟩ := h.sound f hf
  rw [heq] at hreceived
  obtain rfl := isReceived_line hreceived
  have hns : namespaced f.property = true := (Bool.and_eq_true _ _ ▸ hreceived).1
  exact ⟨_, h'.received _ hname _ hshows hns, hreceived, heq ▸ hPf⟩

theorem Shows.foldl_put_isSet (h : Shows w names lines) (h' : Shows w names lines') {β : Type} (key : String)
    (g : Text → β) : lines.foldl (put (·.isSet key) Line.name (g ·.value)) (fun _ => none) =
      lines'.foldl (put (·.isSet key) Line.name (g ·.value)) fun _ => none := by
  have hV : ∀ {lines}, Shows w names lines → ∀ f ∈ lines, f.isSet key = true →
      g f.value = (fun n => g (w.cells n key.toList).1) f.name := by
    intro lines h f hf hset
    obtain ⟨-, -, column, heq⟩ := h.sound f hf
    have hkey : f.property = key.toList := by
      simp only [Line.isSet, Bool.and_eq_true, beq_iff_eq] at hset
      exact hset.1.1
    rw [heq, hkey]
    rfl
  have hP : ∀ n column column' m k, (w.line column m k).isSet key = true ∧ (w.line column m k).name = n →
      (w.line column' m k).isSet key = true ∧ (w.line column' m k).name = n := fun _ _ _ _ _ => id
  funext n
  refine Option.ext fun v => ?_
  rw [foldl_put (fun n => g (w.cells n key.toList).1) (hV h), foldl_put (fun n => g (w.cells n key.toList).1) (hV h')]
  exact and_congr_left fun _ => ⟨h.exists_iff h' (hP n), h'.exists_iff h (hP n)⟩

theorem Shows.foldl_put_isReceived (h : Shows w names lines) (h' : Shows w names lines') :
    lines.foldl (put Line.isReceived (fun f => (f.name, f.property)) Line.received) (fun _ => none) =
      lines'.foldl (put Line.isReceived (fun f => (f.name, f.property)) Line.received) fun _ => none := by
  have hV : ∀ {lines}, Shows w names lines → ∀ f ∈ lines, f.isReceived = true →
      f.received = (fun k => (w.cells k.1 k.2).2.1) (f.name, f.property) := by
    intro lines h f hf hreceived
    obtain ⟨-, -, column, heq⟩ := h.sound f hf
    rw [heq] at hreceived
    obtain rfl := isReceived_line hreceived
    rw [heq]
    rfl
  funext k
  refine Option.ext fun v => ?_
  rw [foldl_put (fun k => (w.cells k.1 k.2).2.1) (hV h), foldl_put (fun k => (w.cells k.1 k.2).2.1) (hV h')]
  exact and_congr_left fun _ => ⟨h.exists_received h', h'.exists_received h⟩

theorem Shows.perm_addProperty (h : Shows w names lines) (h' : Shows w names lines') :
    (lines.foldl addProperty []).Perm (lines'.foldl addProperty []) := by
  obtain ⟨hnodup, hmem⟩ := foldl_addProperty lines
  obtain ⟨hnodup', hmem'⟩ := foldl_addProperty lines'
  rw [List.perm_ext_iff_of_nodup hnodup hnodup']
  intro p
  rw [hmem, hmem']
  exact ⟨h.exists_iff h' fun _ _ _ _ => id, h'.exists_iff h fun _ _ _ _ => id⟩

theorem Shows.stateOf_eq (h : Shows w names lines) (h' : Shows w names lines') {objects : List ObjectRow}
    {held held' : List (Text × Text)} (hheld : held.Perm held') :
    stateOf objects lines held = stateOf objects lines' held' := by
  have hholds : ∀ n, (held.foldl addHold (fun _ => none) n).map sortTexts =
      (held'.foldl addHold (fun _ => none) n).map sortTexts := by
    intro n
    have hperm := (hheld.filter (·.1 == n)).map Prod.snd
    rw [foldl_addHold, foldl_addHold, orNone, orNone]
    by_cases hnil : (held.filter (·.1 == n)).map Prod.snd = []
    · rw [if_pos hnil, if_pos (List.nil_perm.mp (hnil ▸ hperm))]
    · have hnil' : (held'.filter (·.1 == n)).map Prod.snd ≠ [] := fun h => hnil (List.perm_nil.mp (h ▸ hperm))
      rw [if_neg hnil, if_neg hnil', Option.map_some, Option.map_some, sortTexts_congr hperm]
  have htokens : lines.foldl (put (·.isSet "receive_resume_token") Line.name Line.value) (fun _ => none) =
      lines'.foldl (put (·.isSet "receive_resume_token") Line.name Line.value) fun _ => none :=
    h.foldl_put_isSet h' "receive_resume_token" id
  simp only [stateOf, h.foldl_put_isReceived h', htokens, h.foldl_put_isSet h' "clones" (·.splitOn ','),
    sort_properties_congr (h.perm_addProperty h'), hholds]

end Shows

/-! ## What the queries show -/

section Queries

variable {w : World} {run : Runner} {f : Line}

theorem mem_lines {column : Bool} {properties : Text} {names : List Text} :
    f ∈ w.lines column properties names ↔ f.name ∈ names ∧ f.property ∈ w.keys properties f.name ∧
      f = w.line column f.name f.property := by
  simp only [World.lines, List.mem_flatMap, List.mem_map]
  constructor
  · rintro ⟨n, hn, k, hk, rfl⟩
    exact ⟨hn, hk, rfl⟩
  · rintro ⟨hn, hk, heq⟩
    exact ⟨_, hn, _, hk, heq.symm⟩

theorem keys_all (n : Text) : w.keys allText n = w.listed n := if_pos rfl

theorem keys_join {ks : List Text} (hks : ∀ k ∈ ks, ',' ∉ k) (hfixed : lineageProperty ∈ ks) (n : Text) :
    w.keys ([','].intercalate ks) n = ks := by
  have hsplit : ([','].intercalate ks).splitOn ',' = ks :=
    List.splitOn_intercalate ',' hks (List.ne_nil_of_mem hfixed)
  have hne : [','].intercalate ks ≠ allText := by
    intro h
    rw [← hsplit, h] at hfixed
    exact absurd hfixed (by decide)
  rw [World.keys, if_neg hne, hsplit]

theorem fixedKeys_commaless {k : Text} (h : k ∈ fixedKeys) : ',' ∉ k := by
  simp only [fixedKeys, List.mem_cons, List.not_mem_nil, or_false] at h
  rcases h with rfl | rfl <;> decide

theorem gather_eq {α β : Type} {f : α → Except String (List β)} {g : α → List β} (h : ∀ a, f a = .ok (g a)) (l : List α) :
    gather f l = .ok (l.flatMap g) := by
  induction l with
  | nil => rfl
  | cons a l ih => simp [gather, h, ih]

theorem flatten_inspectionChunks (batch : Nat) (names : List Text) :
    (inspectionChunks batch names).flatten = names := by
  fun_induction inspectionChunks batch names with
  | case1 => rfl
  | case2 names size hne ih => rw [List.flatten_cons, ih, List.take_append_drop]

def World.keeps (w : World) (query : Bool) (f : Line) : Prop :=
  f = w.line query f.name f.property ∧ (query = true ∧ f.property ∈ fixedKeys ∨
    f.property ∈ w.listed f.name ∧ (query = true → namespaced f.property = true))

theorem readChunk_spec (h : run.Answers w) (chunk : List Text) :
    ∃ rows, readChunk run chunk = .ok rows ∧ ∀ query f, (query, f) ∈ rows ↔ f.name ∈ chunk ∧ w.keeps query f := by
  obtain ⟨all, hall, hperm⟩ := h.get false allText chunk
  have hmem : ∀ f, f ∈ all ↔ f.name ∈ chunk ∧ f.property ∈ w.listed f.name ∧ f = w.line false f.name f.property := by
    intro f
    rw [hperm.mem_iff, mem_lines, keys_all]
  have hkeys : ∀ k, k ∈ queryKeys all ↔ k ∈ fixedKeys ∨ ∃ g ∈ all, namespaced g.property = true ∧ g.property = k := by
    intro k
    simp only [queryKeys, Lists.mem_compact, (List.perm_insertionSort _ _).mem_iff, List.mem_append, List.mem_map,
      List.mem_filter, and_assoc]
  have hjoin : ∀ n, w.keys ([','].intercalate (queryKeys all)) n = queryKeys all := by
    refine keys_join (fun k hk => ?_) ((hkeys _).mpr (.inl (by decide)))
    rcases (hkeys k).mp hk with hfixed | ⟨g, hg, -, rfl⟩
    · exact fixedKeys_commaless hfixed
    · exact w.commaless _ _ ((hmem g).mp hg).2.1
  obtain ⟨received, hreceived, hperm'⟩ := h.get true ([','].intercalate (queryKeys all)) chunk
  have hmem' : ∀ f, f ∈ received ↔
      f.name ∈ chunk ∧ f.property ∈ queryKeys all ∧ f = w.line true f.name f.property := by
    intro f
    rw [hperm'.mem_iff, mem_lines, hjoin]
  have hkeep : ∀ f, f.name ∈ chunk → (keepLine all f = true ↔
      f.property ∈ fixedKeys ∨ f.property ∈ w.listed f.name ∧ namespaced f.property = true) := by
    intro f hf
    simp only [keepLine, Bool.or_eq_true, List.contains_iff_mem, List.any_eq_true, List.mem_filter, Bool.and_eq_true,
      beq_iff_eq, hmem]
    refine or_congr_right ⟨?_, fun hlisted => ⟨w.line false f.name f.property, ⟨⟨hf, hlisted.1, rfl⟩, hlisted.2⟩, rfl, rfl⟩⟩
    rintro ⟨g, ⟨⟨-, hlisted, -⟩, hns⟩, hname, hproperty⟩
    rw [hname, hproperty] at hlisted
    exact ⟨hlisted, hproperty ▸ hns⟩
  refine ⟨all.map (fun f => (false, f)) ++ (received.filter (keepLine all)).map fun f => (true, f), ?_, ?_⟩
  · simp only [readChunk, ok_iff, List.all_eq_true, List.contains_iff_mem]
    exact ⟨all, hall, fun f hf => ((hmem f).mp hf).1, received, hreceived, fun f hf => ((hmem' f).mp hf).1, rfl⟩
  · intro query f
    cases query with
    | false => simp [hmem, World.keeps, and_comm]
    | true =>
      have hsecond : (true, f) ∈ all.map (fun f => (false, f)) ++ (received.filter (keepLine all)).map (fun f => (true, f)) ↔
          f ∈ received ∧ keepLine all f = true := by simp
      rw [hsecond, hmem']
      constructor
      · rintro ⟨⟨hf, -, heq⟩, hkept⟩
        exact ⟨hf, heq, ((hkeep f hf).mp hkept).imp (⟨rfl, ·⟩) fun h => ⟨h.1, fun _ => h.2⟩⟩
      · rintro ⟨hf, heq, hshown⟩
        have hshown : f.property ∈ fixedKeys ∨ f.property ∈ w.listed f.name ∧ namespaced f.property = true :=
          hshown.imp And.right fun h => ⟨h.1, h.2 rfl⟩
        refine ⟨⟨hf, (hkeys _).mpr (hshown.imp_right fun h => ?_), heq⟩, (hkeep f hf).mpr hshown⟩
        exact ⟨w.line false f.name f.property, (hmem _).mpr ⟨hf, h.1, rfl⟩, h.2, rfl⟩

theorem shows_batched (h : run.Answers w) (batch : Nat) (names : List Text) :
    ∃ rows, gather (readChunk run) (inspectionChunks batch names) = .ok rows ∧
      Shows w names (names.flatMap fun n => regroup rows n false ++ regroup rows n true) := by
  choose g hg hmem using readChunk_spec h
  refine ⟨_, gather_eq hg _, ?_⟩
  have hregroup : ∀ f n query, f ∈ regroup ((inspectionChunks batch names).flatMap g) n query ↔
      (query, f) ∈ (inspectionChunks batch names).flatMap g ∧ f.name = n := by
    intro f n query
    simp [regroup, and_comm, and_assoc]
  have hline : ∀ f, f ∈ (names.flatMap fun n => regroup ((inspectionChunks batch names).flatMap g) n false ++
      regroup ((inspectionChunks batch names).flatMap g) n true) ↔ f.name ∈ names ∧ ∃ query, w.keeps query f := by
    intro f
    constructor
    · intro hf
      obtain ⟨n, hn, hf⟩ := List.mem_flatMap.mp hf
      obtain ⟨query, hf⟩ : ∃ query, f ∈ regroup ((inspectionChunks batch names).flatMap g) n query :=
        (List.mem_append.mp hf).elim (⟨_, ·⟩) (⟨_, ·⟩)
      obtain ⟨hrow, rfl⟩ := (hregroup f n query).mp hf
      obtain ⟨chunk, -, hchunk⟩ := List.mem_flatMap.mp hrow
      exact ⟨hn, query, ((hmem ..).mp hchunk).2⟩
    · rintro ⟨hn, query, hkeeps⟩
      obtain ⟨chunk, hchunk, hin⟩ := List.mem_flatten.mp ((flatten_inspectionChunks batch names).symm ▸ hn)
      have hrow := (hregroup f f.name query).mpr
        ⟨List.mem_flatMap.mpr ⟨chunk, hchunk, (hmem ..).mpr ⟨hin, hkeeps⟩⟩, rfl⟩
      refine List.mem_flatMap.mpr ⟨f.name, hn, ?_⟩
      cases query with
      | false => exact List.mem_append_left _ hrow
      | true => exact List.mem_append_right _ hrow
  refine ⟨fun f hf => ?_, fun n hn k hk => ?_, fun n hn k hk hns => ?_⟩
  · obtain ⟨hname, query, heq, hshown⟩ := (hline f).mp hf
    exact ⟨hname, hshown.elim (fun hfixed => .inr hfixed.2) fun hlisted => .inl hlisted.1, query, heq⟩
  · rcases hk with hlisted | hfixed
    · exact ⟨false, (hline _).mpr ⟨hn, false, rfl, .inr ⟨hlisted, by simp⟩⟩⟩
    · exact ⟨true, (hline _).mpr ⟨hn, true, rfl, .inl ⟨rfl, hfixed⟩⟩⟩
  · exact (hline _).mpr ⟨hn, true, rfl, hk.symm.imp (⟨rfl, ·⟩) (⟨·, fun _ => hns⟩)⟩

theorem shows_each (h : run.Answers w) (names : List Text) :
    ∃ lines, gather (readObject run) names = .ok lines ∧ Shows w names lines := by
  choose get hget hperm using h.get
  refine ⟨_, gather_eq (fun n => by simp [readObject, hget]; rfl) _, ?_⟩
  have hline : ∀ f, f ∈ (names.flatMap fun n => get true allText [n] ++ get true ([','].intercalate fixedKeys) [n]) ↔
      f.name ∈ names ∧ w.shows f.name f.property ∧ f = w.line true f.name f.property := by
    intro f
    have hfixed := @keys_join w fixedKeys (fun k => fixedKeys_commaless) (by decide) f.name
    have hget : ∀ n, f ∈ get true allText [n] ++ get true ([','].intercalate fixedKeys) [n] ↔
        f.name = n ∧ w.shows f.name f.property ∧ f = w.line true f.name f.property := by
      intro n
      rw [List.mem_append, (hperm _ _ _).mem_iff, (hperm _ _ _).mem_iff, mem_lines, mem_lines, keys_all, hfixed,
        List.mem_singleton, World.shows]
      tauto
    simp only [List.mem_flatMap, hget]
    constructor
    · rintro ⟨n, hn, rfl, h⟩
      exact ⟨hn, h⟩
    · rintro ⟨hn, h⟩
      exact ⟨_, hn, rfl, h⟩
  refine ⟨fun f hf => ?_, fun n hn k hk => ⟨true, (hline _).mpr ⟨hn, hk, rfl⟩⟩, fun n hn k hk _ => (hline _).mpr ⟨hn, hk, rfl⟩⟩
  obtain ⟨hname, hshows, heq⟩ := (hline f).mp hf
  exact ⟨hname, hshows, true, heq⟩

theorem held_batched (h : run.Answers w) (batch : Nat) (names : List Text) :
    ∃ held, gather (readHolds run) (inspectionChunks batch names) = .ok held ∧ held.Perm (w.held names) := by
  choose g hg hperm using h.holds
  have hread : ∀ chunk, readHolds run chunk = .ok (g chunk) := by
    intro chunk
    simp only [readHolds, ok_iff, List.all_eq_true, List.contains_iff_mem]
    refine ⟨g chunk, hg chunk, fun x hx => ?_, rfl⟩
    obtain ⟨n, hn, hx⟩ := List.mem_flatMap.mp ((hperm chunk).mem_iff.mp hx)
    obtain ⟨t, -, rfl⟩ := List.mem_map.mp hx
    exact hn
  refine ⟨_, gather_eq hread _, (List.Perm.flatMap_left _ fun chunk _ => hperm chunk).trans (.of_eq ?_)⟩
  conv_rhs => rw [← flatten_inspectionChunks batch names, World.held, ← List.flatMap_id, List.flatMap_assoc]
  rfl

theorem held_each (h : run.Answers w) (names : List Text) :
    ∃ held, gather (fun n => run.holds [n]) names = .ok held ∧ held.Perm (w.held names) := by
  choose g hg hperm using h.holds
  refine ⟨_, gather_eq (fun n => hg [n]) _, (List.Perm.flatMap_left _ fun n _ => hperm [n]).trans (.of_eq ?_)⟩
  simp [World.held]

end Queries

/-! ## The objects, in any order -/

section Objects

variable {d : Text} {recursive : Bool}

def WellFormed (o : ObjectRow) : Prop :=
  validateObject o.name = true ∧ o.guid ≠ 0 ∧ 0 ≤ o.creation ∧ o.type ∈ kinds ∧
    ((o.type == snapshotKind) = o.name.contains '@' ∧ (o.type == bookmarkKind) = o.name.contains '#') ∧ o.createTXG ≠ 0

theorem listObjects_eq_ok {rows acc objects : List ObjectRow} (hacc : (acc.map ObjectRow.name).Nodup) :
    listObjects d recursive rows acc = .ok objects ↔
      (∀ o ∈ rows, inQuery d o = true ∧ (skipped d recursive o = false → WellFormed o)) ∧
      ((acc ++ rows.filter (!skipped d recursive ·)).map ObjectRow.name).Nodup ∧
      acc ++ rows.filter (!skipped d recursive ·) = objects := by
  induction rows generalizing acc with
  | nil => simp [listObjects, hacc]
  | cons o rows ih =>
    simp only [listObjects, ok_iff]
    cases hskip : skipped d recursive o with
    | true => simp [ih hacc, hskip, and_assoc]
    | false =>
      by_cases hnew : o.name ∈ acc.map ObjectRow.name
      · have hdup : ¬ ((acc ++ o :: rows.filter (!skipped d recursive ·)).map ObjectRow.name).Nodup := by
          rw [List.map_append, List.map_cons, List.nodup_append]
          exact fun h => h.2.2 _ hnew _ List.mem_cons_self rfl
        refine iff_of_false (fun h => ?_) fun h => hdup (by simpa [hskip] using h.2.1)
        simp [hnew] at h
      · have hacc' : ((acc ++ [o]).map ObjectRow.name).Nodup := by
          rw [List.map_append]
          exact hacc.append (List.nodup_singleton _) (List.disjoint_singleton.mpr hnew)
        simp [ih hacc', hskip, hnew, WellFormed, and_assoc]

theorem objectsOf_congr {w : World} {run run' : Runner} (h : run.Answers w) (h' : run'.Answers w)
    {objects : List ObjectRow} (hok : objectsOf run d recursive = .ok objects) :
    objectsOf run' d recursive = .ok objects := by
  simp only [objectsOf, ok_iff, @listObjects_eq_ok d recursive _ [] _ List.nodup_nil, List.nil_append,
    List.contains_iff_mem] at hok ⊢
  obtain ⟨hvalid, rows, hrows, found, ⟨hrow, hnodup, rfl⟩, hdataset, rfl⟩ := hok
  cases hlisting : w.listing d recursive with
  | none =>
    obtain ⟨e, he⟩ := h.unlisted d recursive hlisting
    cases hrows.symm.trans he
  | some listing =>
    obtain ⟨rows₁, hrows₁, hperm₁⟩ := h.list d recursive listing hlisting
    obtain rfl := Except.ok.inj (hrows.symm.trans hrows₁)
    obtain ⟨rows', hrows', hperm'⟩ := h'.list d recursive listing hlisting
    have hperm := hperm₁.trans hperm'.symm
    have hfound := hperm.filter (!skipped d recursive ·)
    refine ⟨hvalid, rows', hrows', _, ⟨fun o ho => hrow o (hperm.mem_iff.mpr ho), ?_, rfl⟩, ?_, ?_⟩
    · exact (hfound.map _).nodup_iff.mp hnodup
    · exact (hfound.map _).mem_iff.mp hdataset
    · refine insertionSort_congr (fun a b => textLe_total _ _) (fun a b c => textLe_trans) ?_ hfound.symm
      intro a ha b hb hab hba
      exact List.inj_on_of_nodup_map hnodup (hfound.mem_iff.mpr ha) (hfound.mem_iff.mpr hb) (textLe_antisymm hab hba)

end Objects

/-- Whatever the size of a batch and the order of the lines, an inspection returns what one query for each
object with the received column would. -/
theorem inspectState_batched (w : World) (run run' : Runner) (h : run.Answers w) (h' : run'.Answers w) (batch : Nat)
    (d : Text) (recursive : Bool) (s : State) :
    inspectState run batch d recursive = .ok s ↔ inspectEach run' d recursive = .ok s := by
  simp only [inspectState, inspectEach, bind_eq_ok]
  refine exists_congr fun objects => and_congr ⟨objectsOf_congr h h', objectsOf_congr h' h⟩ ?_
  obtain ⟨rows, hrows, hshows⟩ := shows_batched h batch (namesOf objects)
  obtain ⟨held, hheld, hperm⟩ := held_batched h batch (snapshotsOf objects)
  obtain ⟨lines, hlines, hshows'⟩ := shows_each h' (namesOf objects)
  obtain ⟨held', hheld', hperm'⟩ := held_each h' (snapshotsOf objects)
  have hstate := @Shows.stateOf_eq _ _ _ _ hshows hshows' objects _ _ (hperm.trans hperm'.symm)
  simp only [readBatches, readEach, ok_iff, hrows, hheld, hlines, hheld', Except.ok.injEq, exists_eq_left', hstate]

def World.runner (w : World) : Runner where
  list d recursive := (w.listing d recursive).elim (.error "dataset does not exist") .ok
  get column properties names := .ok (w.lines column properties names)
  holds names := .ok (w.held names)

theorem World.runner_answers (w : World) : w.runner.Answers w where
  list d recursive rows h := ⟨rows, by simp [runner, h], .refl _⟩
  unlisted d recursive h := ⟨"dataset does not exist", by simp [runner, h]⟩
  get _ _ _ := ⟨_, rfl, .refl _⟩
  holds _ := ⟨_, rfl, .refl _⟩

def pearlWorld : World where
  listing _ _ := some [⟨"pearl@a".toList, snapshotKind, 2, 0, 2⟩, ⟨"pearl".toList, "filesystem".toList, 1, 0, 1⟩]
  listed _ := ["used".toList]
  cells _ k := if k = lineageProperty then (dash, "x".toList, dash) else (dash, dash, dash)
  tags _ := []
  commaless n k hk := by
    obtain rfl := List.mem_singleton.mp hk
    decide

theorem pearl_inspected : ∃ s, inspectState pearlWorld.runner 2 "pearl".toList true = .ok s ∧
    s.received ("pearl@a".toList, lineageProperty) = some "x".toList :=
  ⟨_, (inspectState_batched pearlWorld _ _ pearlWorld.runner_answers pearlWorld.runner_answers 2 _ _ _).mpr rfl, by decide⟩

end Boomerangz.Zfs.Inventory
