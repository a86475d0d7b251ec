import Boomerangz.Policy.Effective

/-! # Policy resolution

`Resolve`: the effective policy of a dataset from its parent's and its own stored properties.
-/

namespace Boomerangz.Policy

open Zfs

/-- How stored values read as text, how a text is quoted in a message, and `ParseGrid`. -/
structure Texts where
  render : Value → String
  quote : String → String
  parseGrid : String → Except String Grid

/-! ## Settings -/

/-- A map of settings by name; `put` replaces the entry of the same name. -/
def put (values : List Setting) (s : Setting) : List Setting := values.filter (·.name != s.name) ++ [s]

def lookup (values : List Setting) (name : String) : Option Setting := values.find? (·.name == name)

def valueOf (values : List Setting) (name : String) : String :=
  ((lookup values name).map Setting.value).getD ""

def inheritedValues (parent : Option Effective) : List Setting :=
  (parent.map fun p => p.values.filter (·.dataset != [])).getD []

def settingOf (t : Texts) (d : Dataset) (row : Property) : Option Setting :=
  match row.name with
  | .policy name =>
    if row.dataset = .dataset d ∧ row.source = .sourceLocal then some ⟨name, t.render row.value, d⟩ else none
  | _ => none

def defaultGrid : String := "12x5m,24x1h,14x1d"

def defaults (encrypted : Bool) : List (String × String) :=
  [("enabled", "off"), ("policy", defaultGrid), ("large_blocks", "on"), ("compressed", "on"),
    ("raw", if encrypted then "on" else "off"), ("props", "off"), ("incremental", "all"),
    ("replicate", "off"), ("discard", "off")]

def putDefault (values : List Setting) (d : String × String) : List Setting :=
  if (lookup values d.1).isSome then values else values ++ [⟨d.1, d.2, []⟩]

def resolveValues (t : Texts) (d : Dataset) (encrypted : Bool) (parent : Option Effective) (stored : List Property) :
    List Setting :=
  (defaults encrypted).foldl putDefault
    ((stored.filterMap (settingOf t d)).foldl put (inheritedValues parent))

/-! ## Reading the values -/

/-- `strings.HasPrefix`. -/
def startsWith (text start : String) : Bool := start.toList.isPrefixOf text.toList

def unknownErrors (values : List Setting) : List String :=
  (values.filter fun s => !((defaults false).any (·.1 == s.name)) && s.name != "remote" && s.name != "local" &&
      !startsWith s.name "set_prop:" && !startsWith s.name "ignore_prop:").map
    fun s => "unknown public property org.boomerangz:" ++ s.name

/-- The value of `toggle`, and the error it appends. -/
def toggle (values : List Setting) (key : String) : Bool := valueOf values key == "on"

def toggleErrors (values : List Setting) (key : String) : List String :=
  if valueOf values key == "on" || valueOf values key == "off" then [] else [key ++ " must be on or off"]

/-- `unicode.IsSpace`. -/
def space (c : Char) : Bool :=
  (9 ≤ c.toNat && c.toNat ≤ 13) || (0x2000 ≤ c.toNat && c.toNat ≤ 0x200a) ||
    [0x20, 0x85, 0xa0, 0x1680, 0x2028, 0x2029, 0x202f, 0x205f, 0x3000].contains c.toNat

def trimSpace (text : List Char) : List Char := ((text.dropWhile space).reverse.dropWhile space).reverse

/-- A nonempty comma-separated list, trimmed and without repetitions. -/
def parseTargets (value : String) : Except String (List String) :=
  let targets := (value.toList.splitOn ',').map trimSpace
  if targets.any List.isEmpty then .error "target list contains an empty entry"
  else .ok ((targets.map String.ofList).foldl (fun seen x => if seen.contains x then seen else seen ++ [x]) [])

/-- `targets`, and the error it appends. -/
def targetsOf (values : List Setting) (key : String) : List String × List String :=
  match lookup values key with
  | none => ([], [])
  | some s =>
    match parseTargets s.value with
    | .ok targets => (targets, [])
    | .error e => ([], [key ++ ": " ++ e])

def datasetOfText (text : String) : Dataset := (text.toList.splitOn '/').map String.ofList

def incrementalOf (text : String) : Incremental :=
  if text == "all" then .all else if text == "latest" then .latest else .other text

def discardOf (text : String) : Discard :=
  if text == "off" then .off else if text == "first" then .first else if text == "all" then .all else .other text

/-! ## Receive properties -/

structure Receive where
  setProperties : List (String × String) := []
  ignoreProperties : List String := []
  errors : List String := []

def reserved (target : String) : Bool :=
  target == "" || startsWith target "org.boomerangz:" || target.toList.any fun c => c == '=' || blank c

/-- One setting of the loop of `receiveProperties`, cut at its first colon. -/
def receiveStep (values : List Setting) (r : Receive) (s : Setting) : Receive :=
  let (kind, rest) := s.name.toList.span (· != ':')
  let target := String.ofList (rest.drop 1)
  if rest.isEmpty || (kind != "set_prop".toList && kind != "ignore_prop".toList) then r
  else if reserved target then { r with errors := r.errors ++ ["invalid or reserved receive property: " ++ target] }
  else if kind == "set_prop".toList then { r with setProperties := r.setProperties ++ [(target, s.value)] }
  else
    { r with
      ignoreProperties := if toggle values s.name then r.ignoreProperties ++ [target] else r.ignoreProperties
      errors := r.errors ++ toggleErrors values s.name }

def receiveProperties (values : List Setting) : Receive :=
  (values.insertionSort fun a b => textLe a.name.toList b.name.toList).foldl (receiveStep values) {}

/-! ## Resolve -/

def sortTexts (texts : List String) : List String := texts.insertionSort fun a b => textLe a.toList b.toList

def requestedFlags (values : List Setting) : Flags where
  largeBlocks := toggle values "large_blocks"
  compressed := toggle values "compressed"
  embeddedData := false
  raw := toggle values "raw"
  props := toggle values "props"
  replicate := toggle values "replicate"

def sendFlags (requested : Flags) (encrypted : Bool) : Flags :=
  let send := if requested.replicate then { requested with props := true } else requested
  if send.raw && !encrypted then { send with largeBlocks := true, compressed := true, embeddedData := true } else send

def resolveErrors (t : Texts) (encrypted : Bool) (remotes : List String) (values : List Setting) : List String :=
  let remote := targetsOf values "remote"
  let locals := targetsOf values "local"
  let send := sendFlags (requestedFlags values) encrypted
  unknownErrors values ++ toggleErrors values "enabled" ++
    (match t.parseGrid (valueOf values "policy") with
      | .ok _ => []
      | .error e => ["policy: " ++ e]) ++
    remote.2 ++ locals.2 ++
    (remote.1.filter fun r => !remotes.contains r).map (fun r => "unknown remote " ++ t.quote r) ++
    (locals.1.filter fun l => !validDataset (datasetOfText l)).map
      (fun l => "local: invalid ZFS dataset name " ++ t.quote l) ++
    (match incrementalOf (valueOf values "incremental") with
      | .other _ => ["incremental must be all or latest"]
      | _ => []) ++
    (["large_blocks", "compressed", "raw", "props", "replicate"].flatMap (toggleErrors values)) ++
    (if send.replicate && encrypted && !send.raw then ["encrypted recursive replication requires raw=on"] else []) ++
    (match discardOf (valueOf values "discard") with
      | .other _ => ["discard must be off, first, or all"]
      | _ => [])

def resolveWarnings (encrypted : Bool) (values : List Setting) : List String :=
  let requested := requestedFlags values
  if (sendFlags requested encrypted).raw && !encrypted && (!requested.largeBlocks || !requested.compressed)
    then ["raw sends of unencrypted data imply large_blocks and compressed"] else []

def Grid.none : Grid := ⟨[], by simp, by simp, by simp [maxDuration], by simp⟩

/-- `Resolve` up to the checks of raw encrypted streams. -/
def resolveRaw (t : Texts) (encrypted : Bool) (remotes : List String) (values : List Setting) : Effective :=
  let receive := receiveProperties values
  { enabled := toggle values "enabled"
    grid := (t.parseGrid (valueOf values "policy")).toOption.getD Grid.none
    remote := (targetsOf values "remote").1
    locals := (targetsOf values "local").1.map datasetOfText
    incremental := incrementalOf (valueOf values "incremental")
    requested := requestedFlags values
    send := sendFlags (requestedFlags values) encrypted
    setProperties := receive.setProperties
    ignoreProperties := receive.ignoreProperties.filter fun key => !receive.setProperties.any (·.1 == key)
    discard := discardOf (valueOf values "discard")
    values := values
    warnings := resolveWarnings encrypted values ++
      (receive.ignoreProperties.filter fun key => receive.setProperties.any (·.1 == key)).map
        fun key => "set_prop wins over ignore_prop for " ++ key
    errors := resolveErrors t encrypted remotes values ++ receive.errors }

def Effective.checked (p : Effective) (encrypted : Bool) : Effective :=
  let p := if p.send.raw && encrypted then p.validateRawReceive else p
  { p with errors := sortTexts p.errors, warnings := sortTexts p.warnings }

def resolve (t : Texts) (d : Dataset) (encrypted : Bool) (parent : Option Effective) (stored : List Property)
    (remotes : List String) : Effective :=
  (resolveRaw t encrypted remotes (resolveValues t d encrypted parent stored)).checked encrypted

@[simp] theorem checked_enabled (p : Effective) (e : Bool) : (p.checked e).enabled = p.enabled := by
  unfold Effective.checked
  split <;> rfl

@[simp] theorem checked_values (p : Effective) (e : Bool) : (p.checked e).values = p.values := by
  unfold Effective.checked
  split <;> rfl

@[simp] theorem checked_setProperties (p : Effective) (e : Bool) : (p.checked e).setProperties = p.setProperties := by
  unfold Effective.checked
  split <;> rfl

@[simp] theorem checked_ignoreProperties (p : Effective) (e : Bool) :
    (p.checked e).ignoreProperties = p.ignoreProperties := by
  unfold Effective.checked
  split <;> rfl

/-! ## Activation

Whether a dataset is enabled depends on its own local rows for that setting and on its parent's
activation, and on nothing else that is stored. -/

def activation (parent : Option Effective) : Option Setting := lookup (inheritedValues parent) "enabled"

def ownActivation (t : Texts) (d : Dataset) (stored : List Property) : Option Setting :=
  ((stored.filterMap (settingOf t d)).filter (·.name == "enabled")).getLast?

theorem lookup_put (values : List Setting) (s : Setting) (name : String) :
    lookup (put values s) name = if s.name = name then some s else lookup values name := by
  unfold lookup put
  rw [List.find?_append, List.find?_filter]
  by_cases h : s.name = name
  · subst h
    rw [List.find?_eq_none.mpr (by simp)]
    simp
  · have hsame : (fun a : Setting => decide ((a.name != s.name) = true ∧ (a.name == name) = true)) =
        (·.name == name) := by
      funext a
      by_cases ha : a.name = name
      · simp [ha, Ne.symm h]
      · simp [ha]
    rw [hsame]
    simp [h]

theorem lookup_foldl_put (settings values : List Setting) (name : String) :
    lookup (settings.foldl put values) name =
      ((settings.filter (·.name == name)).getLast?).or (lookup values name) := by
  induction settings generalizing values with
  | nil => simp
  | cons s rest ih =>
    rw [List.foldl_cons, ih, lookup_put, List.filter_cons]
    by_cases h : s.name = name
    · cases hr : (rest.filter (·.name == name)).getLast? <;> simp [h, hr, List.getLast?_cons]
    · simp [h]

theorem foldl_putDefault (ds : List (String × String)) (values : List Setting) :
    ∃ extra : List Setting, ds.foldl putDefault values = values ++ extra ∧ ∀ s ∈ extra, s.dataset = [] := by
  induction ds generalizing values with
  | nil => exact ⟨[], by simp⟩
  | cons d ds ih =>
    obtain ⟨extra, hextra, hnone⟩ := ih (putDefault values d)
    rw [List.foldl_cons, hextra]
    unfold putDefault
    split
    · exact ⟨extra, rfl, hnone⟩
    · refine ⟨⟨d.1, d.2, []⟩ :: extra, by simp, ?_⟩
      simpa using hnone

theorem lookup_foldl_putDefault (ds : List (String × String)) (values : List Setting) (name value : String) :
    lookup (ds.foldl putDefault (putDefault values (name, value))) name =
      some ((lookup values name).getD ⟨name, value, []⟩) := by
  obtain ⟨extra, hextra, -⟩ := foldl_putDefault ds (putDefault values (name, value))
  rw [hextra]
  unfold putDefault lookup
  cases h : values.find? (·.name == name) <;> simp [h, List.find?_append]

theorem resolveValues_split (t : Texts) (d : Dataset) (e : Bool) (parent : Option Effective) (stored : List Property) :
    ∃ extra : List Setting, resolveValues t d e parent stored =
        (stored.filterMap (settingOf t d)).foldl put (inheritedValues parent) ++ extra ∧
      ∀ s ∈ extra, s.dataset = [] :=
  foldl_putDefault _ _

theorem foldl_put_made {settings values : List Setting} (hs : ∀ s ∈ settings, s.dataset ≠ [])
    (hv : ∀ s ∈ values, s.dataset ≠ []) : ∀ s ∈ settings.foldl put values, s.dataset ≠ [] := by
  induction settings generalizing values with
  | nil => exact hv
  | cons s rest ih =>
    rw [List.forall_mem_cons] at hs
    refine ih hs.2 ?_
    intro x hx
    rcases List.mem_append.mp hx with hx | hx
    · exact hv x (List.mem_of_mem_filter hx)
    · exact List.mem_singleton.mp hx ▸ hs.1

theorem inheritedValues_made (parent : Option Effective) : ∀ s ∈ inheritedValues parent, s.dataset ≠ [] := by
  cases parent <;> simp [inheritedValues]

theorem settingOf_dataset {t : Texts} {d : Dataset} {row : Property} {s : Setting} (h : settingOf t d row = some s) :
    s.dataset = d := by
  unfold settingOf at h
  split at h
  · simp only [Option.ite_none_right_eq_some, Option.some.injEq] at h
    rw [← h.2]
  · cases h

variable {t : Texts} {d : Dataset} {e : Bool} {parent : Option Effective} {stored : List Property}
  {remotes : List String}

theorem inheritedValues_resolve (hd : d ≠ []) :
    inheritedValues (some (resolve t d e parent stored remotes)) =
      (stored.filterMap (settingOf t d)).foldl put (inheritedValues parent) := by
  obtain ⟨extra, hsplit, hextra⟩ := resolveValues_split t d e parent stored
  have hown : ∀ s ∈ stored.filterMap (settingOf t d), s.dataset ≠ [] := by
    intro s hs
    obtain ⟨row, -, hrow⟩ := List.mem_filterMap.mp hs
    exact settingOf_dataset hrow ▸ hd
  have hmade := foldl_put_made hown (inheritedValues_made parent)
  simp only [inheritedValues, Option.map_some, Option.getD_some, resolve, checked_values, resolveRaw, hsplit,
    List.filter_append]
  rw [List.filter_eq_self.mpr (by simpa [inheritedValues] using hmade), List.filter_eq_nil_iff.mpr (by simpa using hextra),
    List.append_nil]

theorem activation_resolve (hd : d ≠ []) :
    activation (some (resolve t d e parent stored remotes)) =
      (ownActivation t d stored).or (activation parent) := by
  rw [activation, inheritedValues_resolve hd, lookup_foldl_put]
  rfl

theorem resolve_enabled :
    (resolve t d e parent stored remotes).enabled =
      ((ownActivation t d stored).or (activation parent)).any (·.value == "on") := by
  have hlookup : lookup ((stored.filterMap (settingOf t d)).foldl put (inheritedValues parent)) "enabled" =
      (ownActivation t d stored).or (activation parent) := lookup_foldl_put _ _ _
  simp only [resolve, checked_enabled, resolveRaw, toggle, valueOf, resolveValues, defaults]
  rw [List.foldl_cons, lookup_foldl_putDefault, hlookup]
  cases (ownActivation t d stored).or (activation parent) <;> rfl

end Boomerangz.Policy
