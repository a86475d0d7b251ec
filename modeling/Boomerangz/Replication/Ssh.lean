import Boomerangz.Lib.Shell

/-! # Remote command lines

A command of another host is one line for its shell, with names and values of the source host.
-/

open Shell

namespace Boomerangz.Replication

/-- The quoted part ends, and begins again after a quote in double quotes. -/
def escapedQuote : List Byte := ['\'', '"', '\'', '"', '\''].map byte

/-- `strings.ReplaceAll(value, "'", escapedQuote)`. -/
def replaceQuotes (value : List Byte) : List Byte :=
  value.flatMap fun b => if b = byte '\'' then escapedQuote else [b]

def quoteArgument (value : List Byte) : List Byte := byte '\'' :: replaceQuotes value ++ [byte '\'']

def remoteCommand (binary : List Byte) (args : List (List Byte)) : List Byte :=
  [byte ' '].intercalate ((binary :: args).map quoteArgument)

/-- The line of `remoteRunner.Run`. -/
def remoteLine (binary : List Byte) (args : List (List Byte)) : List Byte :=
  ("LC_ALL=C ".toList.map byte) ++ remoteCommand binary args

def localeWord : Word := "LC_ALL=C".toList.map fun c => ⟨byte c, false⟩

section Quoting

variable {w : Word} {value rest : List Byte}

theorem lex_replaceQuotes (hnul : 0 ∉ value) :
    lex .single w (replaceQuotes value ++ byte '\'' :: rest) = lex .word (w ++ quoted value) rest := by
  induction value generalizing w with
  | nil => simp [replaceQuotes, quoted, lex_close]
  | cons b value ih =>
    rw [List.mem_cons, not_or] at hnul
    by_cases hb : b = byte '\''
    · subst hb
      change lex .word (w ++ [⟨byte '\'', true⟩]) (byte '\'' :: (replaceQuotes value ++ byte '\'' :: rest)) = _
      rw [lex_reopen, ih hnul.2]
      simp [quoted]
    · have hcons : replaceQuotes (b :: value) = b :: replaceQuotes value := by simp [replaceQuotes, hb]
      rw [hcons, List.cons_append, lex_single (Ne.symm hnul.1) hb, ih hnul.2]
      simp [quoted]

theorem lex_quoteArgument (hnul : 0 ∉ value) :
    lex .between [] (quoteArgument value ++ rest) = lex .word (quoted value) rest := by
  have hline : quoteArgument value ++ rest = byte '\'' :: (replaceQuotes value ++ byte '\'' :: rest) := by
    simp [quoteArgument]
  rw [hline, lex_open, lex_replaceQuotes hnul, List.nil_append]

theorem lex_remoteCommand {binary : List Byte} {args : List (List Byte)} (hbinary : 0 ∉ binary)
    (hargs : ∀ a ∈ args, 0 ∉ a) :
    lex .between [] (remoteCommand binary args) = some (((binary :: args).map quoted).map .word) := by
  induction args generalizing binary with
  | nil =>
    have hline : remoteCommand binary [] = quoteArgument binary ++ [] := by simp [remoteCommand]
    rw [hline, lex_quoteArgument hbinary]
    rfl
  | cons a args ih =>
    have hline : remoteCommand binary (a :: args) = quoteArgument binary ++ byte ' ' :: remoteCommand a args := by
      simp [remoteCommand, List.intercalate]
    rw [hline, lex_quoteArgument hbinary, lex_blank,
      ih (hargs a List.mem_cons_self) fun x hx => hargs x (List.mem_cons_of_mem _ hx)]
    rfl

end Quoting

/-- A shell runs exactly one command for the line, with exactly these words, with and without the locale. -/
theorem remoteCommand_runs (binary : List Byte) (args : List (List Byte)) (hbinary : 0 ∉ binary)
    (hargs : ∀ a ∈ args, 0 ∉ a) :
    run (remoteCommand binary args) = some [⟨[], binary :: args⟩] ∧
      run (remoteLine binary args) = some [⟨[("LC_ALL".toList.map byte, "C".toList.map byte)], binary :: args⟩] := by
  have hlex := lex_remoteCommand hbinary hargs
  have hlocale : lex .between [] (remoteLine binary args) =
      some (((localeWord :: (binary :: args).map quoted)).map .word) := by
    change (lex .between [] (remoteCommand binary args)).map (Token.word localeWord :: ·) = _
    rw [hlex]
    rfl
  exact ⟨run_words hlex (List.cons_ne_nil _ _) (command_quoted _),
    run_words hlocale (List.cons_ne_nil _ _) (command_assigned (v := [⟨byte 'C', false⟩]) (by decide) (by decide) _)⟩

/-- An argument with a quote, an expansion and a second command in it. -/
theorem comment_runs : run (remoteCommand ("zfs".toList.map byte)
      ["set".toList.map byte, "comment=it's safe; $(false)\n".toList.map byte, "tank/data".toList.map byte]) =
    some [⟨[], ["zfs".toList.map byte, "set".toList.map byte, "comment=it's safe; $(false)\n".toList.map byte,
      "tank/data".toList.map byte]⟩] :=
  (remoteCommand_runs _ _ (by decide) (by decide)).1

end Boomerangz.Replication
