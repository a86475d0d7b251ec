import Mathlib.Data.List.Basic

/-! # Lines of a POSIX shell

How a shell reads a line of simple commands. A line whose meaning depends on more than its text has none here.
-/

namespace Shell

abbrev Byte := UInt8

def byte (c : Char) : Byte := c.toNat.toUInt8

/-- A byte of a word. A quoted one stands for itself. -/
structure Piece where
  byte : Byte
  quoted : Bool
deriving DecidableEq

abbrev Word := List Piece

def quoted (text : List Byte) : Word := text.map (⟨·, true⟩)

/-! ## Tokens -/

inductive Token where
  | word (w : Word)
  | semicolon
  | newline
deriving DecidableEq

/-- Where the shell is in a line; after a backslash it is `escaped`. -/
inductive Mode where
  | between
  | comment
  | word
  | escaped
  | single
  | double
  | doubleEscaped
deriving DecidableEq

def blank (b : Byte) : Bool := b == byte ' ' || b == byte '\t'

def separator (b : Byte) : Option Token :=
  if b = byte ';' then some .semicolon else if b = byte '\n' then some .newline else none

def opener (b : Byte) : Option Mode :=
  if b = byte '\'' then some .single
  else if b = byte '"' then some .double
  else if b = byte '\\' then some .escaped
  else none

def expands (b : Byte) : Bool := b == byte '$' || b == byte '\x60'

def operator (b : Byte) : Bool := ['&', '|', '<', '>', '(', ')'].any (b == byte ·)

/-- The tokens of the rest of a line; `w` is the word that has been begun. No line has a NUL. -/
def lex : Mode → Word → List Byte → Option (List Token)
  | .between, _, [] => some []
  | .comment, _, [] => some []
  | .word, w, [] => some [.word w]
  | .escaped, _, [] => none
  | .single, _, [] => none
  | .double, _, [] => none
  | .doubleEscaped, _, [] => none
  | mode, w, b :: rest =>
    if b = 0 then none
    else match mode with
    | .between =>
      if blank b then lex .between [] rest
      else if b = byte '#' then lex .comment [] rest
      else match separator b, opener b with
        | some t, _ => (lex .between [] rest).map (t :: ·)
        | none, some mode => lex mode [] rest
        | none, none => if expands b || operator b then none else lex .word [⟨b, false⟩] rest
    | .comment =>
      if b = byte '\n' then (lex .between [] rest).map (.newline :: ·) else lex .comment [] rest
    | .word =>
      if blank b then (lex .between [] rest).map (.word w :: ·)
      else match separator b, opener b with
        | some t, _ => (lex .between [] rest).map fun ts => .word w :: t :: ts
        | none, some mode => lex mode w rest
        | none, none => if expands b || operator b then none else lex .word (w ++ [⟨b, false⟩]) rest
    | .escaped => if b = byte '\n' then none else lex .word (w ++ [⟨b, true⟩]) rest
    | .single => if b = byte '\'' then lex .word w rest else lex .single (w ++ [⟨b, true⟩]) rest
    | .double =>
      if b = byte '"' then lex .word w rest
      else if b = byte '\\' then lex .doubleEscaped w rest
      else if expands b then none
      else lex .double (w ++ [⟨b, true⟩]) rest
    | .doubleEscaped =>
      if b = byte '\n' then none
      else if expands b || b == byte '"' || b == byte '\\' then lex .double (w ++ [⟨b, true⟩]) rest
      else lex .double (w ++ [⟨byte '\\', true⟩, ⟨b, true⟩]) rest

/-! ## Commands -/

def pattern (b : Byte) : Bool := ['*', '?', '[', '~', '\x7b', '\x7d', '!'].any (b == byte ·)

def text (w : Word) : Option (List Byte) :=
  if w.all fun p => p.quoted || !pattern p.byte then some (w.map Piece.byte) else none

def nameByte (b : Byte) : Bool :=
  (byte 'a' ≤ b && b ≤ byte 'z') || (byte 'A' ≤ b && b ≤ byte 'Z') || b == byte '_' || (byte '0' ≤ b && b ≤ byte '9')

/-- The name and the value of an assignment. No part of the name is quoted. -/
def assignment (w : Word) : Option (List Byte × Word) :=
  let name := w.takeWhile (· != ⟨byte '=', false⟩)
  if name.length < w.length && !name.isEmpty && name.all (fun p => !p.quoted && nameByte p.byte) &&
      name.head?.all (fun p => !(byte '0' ≤ p.byte && p.byte ≤ byte '9'))
  then some (name.map Piece.byte, w.drop (name.length + 1)) else none

def reserved : List String :=
  ["!", "\x7b", "\x7d", "case", "do", "done", "elif", "else", "esac", "fi", "for", "if", "in", "then", "until", "while"]

def isReserved (w : Word) : Bool :=
  reserved.any fun r => w == r.toList.map fun c => ⟨byte c, false⟩

structure Command where
  assignments : List (List Byte × List Byte)
  words : List (List Byte)
deriving DecidableEq

def command (ws : List Word) : Option Command :=
  let words := ws.dropWhile fun w => (assignment w).isSome
  if words.head?.any isReserved then none
  else do
    let set ← ((ws.takeWhile fun w => (assignment w).isSome).filterMap assignment).mapM fun a => (text a.2).map (a.1, ·)
    return ⟨set, ← words.mapM text⟩

/-- The words of each command; `ws` are the ones of the command that has been begun. -/
def commands : List Word → List Token → Option (List (List Word))
  | ws, [] => some (if ws.isEmpty then [] else [ws])
  | ws, .word w :: ts => commands (ws ++ [w]) ts
  | ws, .semicolon :: ts => if ws.isEmpty then none else (commands [] ts).map (ws :: ·)
  | ws, .newline :: ts => if ws.isEmpty then commands [] ts else (commands [] ts).map (ws :: ·)

def run (line : List Byte) : Option (List Command) := do
  let tokens ← lex .between [] line
  (← commands [] tokens).mapM command

/-! ## Quoted words -/

section Quoted

variable {w : Word} {rest : List Byte} {l : List Byte} {b : Byte}

theorem lex_blank : lex .word w (byte ' ' :: rest) = (lex .between [] rest).map (.word w :: ·) := rfl

theorem lex_open : lex .between [] (byte '\'' :: rest) = lex .single [] rest := rfl

theorem lex_reopen : lex .word w (byte '\'' :: rest) = lex .single w rest := rfl

theorem lex_close : lex .single w (byte '\'' :: rest) = lex .word w rest := rfl

theorem lex_single (hnul : b ≠ 0) (hquote : b ≠ byte '\'') :
    lex .single w (b :: rest) = lex .single (w ++ [⟨b, true⟩]) rest := by
  simp only [lex, if_neg hnul, if_neg hquote]

theorem text_quoted : text (quoted l) = some l := by
  simp [text, quoted, Function.comp_def]

theorem assignment_quoted : assignment (quoted l) = none := by
  have hall : ∀ p ∈ quoted l, (p != (⟨byte '=', false⟩ : Piece)) = true := by
    intro p hp
    obtain ⟨b, -, rfl⟩ := List.mem_map.mp hp
    simp
  have hname : (quoted l).takeWhile (· != ⟨byte '=', false⟩) = quoted l := by
    have happend := @List.takeWhile_append_of_pos _ _ _ [] hall
    simpa using happend
  simp [assignment, hname]

theorem isReserved_quoted : isReserved (quoted l) = false := by
  rw [isReserved, List.any_eq_false]
  intro r hr heq
  have heq := beq_iff_eq.mp heq
  cases l with
  | nil =>
    have hne : ∀ r ∈ reserved, r.toList ≠ [] := by decide
    exact hne r hr (List.map_eq_nil_iff.mp heq.symm)
  | cons b l =>
    cases hr : r.toList with
    | nil => simp [quoted, hr] at heq
    | cons c cs => simp [quoted, hr] at heq

theorem commands_words (ws words : List Word) :
    commands ws (words.map .word) = some (if (ws ++ words).isEmpty then [] else [ws ++ words]) := by
  induction words generalizing ws with
  | nil => simp [commands]
  | cons w words ih => simp [commands, ih]

theorem run_words {line : List Byte} {words : List Word} {c : Command}
    (hlex : lex .between [] line = some (words.map .word)) (hne : words ≠ []) (hc : command words = some c) :
    run line = some [c] := by
  have hone : commands [] (words.map .word) = some [words] := by simp [commands_words, hne]
  simp only [run, hlex, Option.bind_eq_bind, Option.bind_some, hone, List.mapM_cons, List.mapM_nil, hc]
  rfl

theorem dropWhile_quoted (words : List (List Byte)) :
    (words.map quoted).dropWhile (fun w => (assignment w).isSome) = words.map quoted := by
  cases words with
  | nil => rfl
  | cons l words => simp [assignment_quoted]

theorem takeWhile_quoted (words : List (List Byte)) :
    (words.map quoted).takeWhile (fun w => (assignment w).isSome) = [] := by
  cases words with
  | nil => rfl
  | cons l words => simp [assignment_quoted]

theorem mapM_text (words : List (List Byte)) : (words.map quoted).mapM text = some words := by
  induction words with
  | nil => rfl
  | cons l words ih => simp [text_quoted, ih]

theorem head_quoted (words : List (List Byte)) : (words.map quoted).head?.any isReserved = false := by
  cases words with
  | nil => rfl
  | cons l words => exact isReserved_quoted

theorem command_quoted (words : List (List Byte)) : command (words.map quoted) = some ⟨[], words⟩ := by
  simp only [command, dropWhile_quoted, takeWhile_quoted, mapM_text, head_quoted]
  rfl

theorem command_assigned {a v : Word} {name value : List Byte} (ha : assignment a = some (name, v))
    (hv : text v = some value) (words : List (List Byte)) :
    command (a :: words.map quoted) = some ⟨[(name, value)], words⟩ := by
  have hsome : (assignment a).isSome = true := by rw [ha]; rfl
  have hwords : (a :: words.map quoted).dropWhile (fun w => (assignment w).isSome) = words.map quoted := by
    rw [List.dropWhile_cons, if_pos hsome, dropWhile_quoted]
  have hset : ((a :: words.map quoted).takeWhile fun w => (assignment w).isSome).filterMap assignment = [(name, v)] := by
    rw [List.takeWhile_cons, if_pos hsome, takeWhile_quoted, List.filterMap_cons_some ha, List.filterMap_nil]
  simp only [command, hwords, hset, mapM_text, head_quoted, List.mapM_cons, List.mapM_nil, hv]
  rfl

end Quoted

end Shell
