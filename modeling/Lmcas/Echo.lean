import Lmcas.Lib.CString
import Lmcas.Lib.Neck

/-!
# `echo`

The annotated `main` of `echo`.  It scans its options by hand, word by word
and letter by letter, and has three ways out of the scan: the loop condition,
and two jumps to the label `just_echo` for a word that begins with `-` and is
not an option word.  `klee_dump_memory` stands right in front of the label, so
the jumps go round it.

A run records the option words it handles, its call of `klee_dump_memory` and
the characters it writes, in their order.
-/

namespace Lmcas.Echo

open Lmcas.Lib.CString
open Lmcas.Lib.Neck

/-! ## Escape sequences -/

/-- The value of a number converted to `unsigned char`. -/
def unsignedChar (value : Nat) : Char :=
  Char.ofNat (value % 256)

/-- `isxdigit` in the C locale. -/
def isXdigit (c : Char) : Bool :=
  c.isDigit || ('a' ≤ c && c ≤ 'f') || ('A' ≤ c && c ≤ 'F')

/-- The digits that `\0` takes. -/
def isOctal (c : Char) : Bool :=
  '0' ≤ c && c ≤ '7'

/-- `hextobin`, on hexadecimal digits. -/
def hextobin (c : Char) : Nat :=
  match c with
  | 'a' | 'A' => 10
  | 'b' | 'B' => 11
  | 'c' | 'C' => 12
  | 'd' | 'D' => 13
  | 'e' | 'E' => 14
  | 'f' | 'F' => 15
  | c => c.toNat - '0'.toNat

/-- What a backslash and the text behind it come to. -/
inductive Escape where
  /-- `\c`: `main` returns. -/
  | stop
  /-- Characters to write, and the text to go on with. -/
  | put (chars : List Char) (rest : Word)
deriving DecidableEq, Repr

/-- One more octal digit, if there is one. -/
def octalDigit (value : Nat) (s : Word) : Nat × Word :=
  match s with
  | d :: rest =>
      if isOctal d then (value * 8 + (d.toNat - '0'.toNat), rest)
      else (value, s)
  | [] => (value, s)

/-- `\N`, `\NN` or `\NNN` behind its first digit. -/
def octalEscape (digit : Char) (s : Word) : Escape :=
  let second := octalDigit (digit.toNat - '0'.toNat) s
  let third := octalDigit second.1 second.2
  .put [unsignedChar third.1] third.2

/-- `\xHH` behind the `x`. -/
def hexEscape (s : Word) : Escape :=
  match s with
  | ch :: rest =>
      if isXdigit ch then
        match rest with
        | ch' :: rest' =>
            if isXdigit ch' then
              .put [unsignedChar (hextobin ch * 16 + hextobin ch')] rest'
            else .put [unsignedChar (hextobin ch)] rest
        | [] => .put [unsignedChar (hextobin ch)] rest
      else .put ['\\', 'x'] s
  | [] => .put ['\\', 'x'] s

/-- `\0NNN` behind the `0`. -/
def zeroEscape (s : Word) : Escape :=
  match s with
  | d :: rest =>
      if isOctal d then octalEscape d rest
      else .put [unsignedChar 0] s
  | [] => .put [unsignedChar 0] s

/-- The `switch` on the character `c` behind a backslash. -/
def escape (c : Char) (s : Word) : Escape :=
  match c with
  | 'a' => .put ['\x07'] s
  | 'b' => .put ['\x08'] s
  | 'c' => .stop
  | 'e' => .put ['\x1b'] s
  | 'f' => .put ['\x0c'] s
  | 'n' => .put ['\n'] s
  | 'r' => .put ['\r'] s
  | 't' => .put ['\t'] s
  | 'v' => .put ['\x0b'] s
  | 'x' => hexEscape s
  | '0' => zeroEscape s
  | '1' | '2' | '3' | '4' | '5' | '6' | '7' => octalEscape c s
  | '\\' => .put ['\\'] s
  | c => .put ['\\', c] s

/-- An octal digit is taken from the front, if there is one. -/
theorem octalDigit_length_le (value : Nat) (s : Word) :
    (octalDigit value s).2.length ≤ s.length := by
  unfold octalDigit
  split
  · split
    · exact Nat.le_succ _
    · exact Nat.le_refl _
  · exact Nat.le_refl _

/-- An octal escape leaves no more than what stands behind it. -/
theorem octalEscape_length_le {digit : Char} {s rest : Word}
    {chars : List Char}
    (escaped : octalEscape digit s = .put chars rest) :
    rest.length ≤ s.length := by
  cases escaped
  exact Nat.le_trans (octalDigit_length_le _ _)
    (octalDigit_length_le _ _)

/-- So does a hexadecimal one. -/
theorem hexEscape_length_le {s rest : Word} {chars : List Char}
    (escaped : hexEscape s = .put chars rest) :
    rest.length ≤ s.length := by
  unfold hexEscape at escaped
  split at escaped
  · split at escaped
    · split at escaped
      · split at escaped <;> cases escaped <;>
          simp only [List.length_cons] <;> omega
      · cases escaped
        exact Nat.le_succ _
    · cases escaped
      exact Nat.le_refl _
  · cases escaped
    exact Nat.le_refl _

/-- So does `\0`. -/
theorem zeroEscape_length_le {s rest : Word} {chars : List Char}
    (escaped : zeroEscape s = .put chars rest) :
    rest.length ≤ s.length := by
  unfold zeroEscape at escaped
  split at escaped
  · split at escaped
    · exact Nat.le_succ_of_le (octalEscape_length_le escaped)
    · cases escaped
      exact Nat.le_refl _
  · cases escaped
    exact Nat.le_refl _

/-- An escape sequence never gives text back. -/
theorem escape_length_le {c : Char} {s rest : Word} {chars : List Char}
    (escaped : escape c s = .put chars rest) :
    rest.length ≤ s.length := by
  unfold escape at escaped
  split at escaped
  case h_10 => exact hexEscape_length_le escaped
  case h_11 => exact zeroEscape_length_le escaped
  case h_3 => exact nomatch escaped
  case h_12 | h_13 | h_14 | h_15 | h_16 | h_17 | h_18 =>
    exact octalEscape_length_le escaped
  all_goals
    cases escaped
    exact Nat.le_refl _

/-- The characters a text comes to, and whether a `\c` stopped it. -/
def unescape : Word → List Char × Bool
  | [] => ([], false)
  | '\\' :: c :: s =>
      match escaped : escape c s with
      | .stop => ([], true)
      | .put chars rest =>
          have := escape_length_le escaped
          (chars ++ (unescape rest).1, (unescape rest).2)
  | c :: s => (c :: (unescape s).1, (unescape s).2)
termination_by s => s.length
decreasing_by all_goals simp only [List.length_cons]; omega

/-! ## Output -/

/-- The loop over the words with escape sequences interpreted. -/
def echoEscaped : List Word → List Char × Bool
  | [] => ([], false)
  | [word] => unescape word
  | word :: rest =>
      if (unescape word).2 then unescape word
      else
        ((unescape word).1 ++ ' ' :: (echoEscaped rest).1,
          (echoEscaped rest).2)

/-- The loop over the words with every character taken as it is. -/
def echoPlain : List Word → List Char
  | [] => []
  | [word] => word
  | word :: rest => word ++ ' ' :: echoPlain rest

/-- The variables `main` reads behind the label `just_echo`; `args` stands
for `argc` and `argv`. -/
structure Vars where
  args : List Word
  displayReturn : Bool
  doV9 : Bool
  posixlyCorrect : Bool
deriving DecidableEq, Repr

/-- `main` from the label `just_echo` on: the characters it writes. -/
def justEcho (vars : Vars) : List Char :=
  let newline := if vars.displayReturn then ['\n'] else []
  if vars.doV9 || vars.posixlyCorrect then
    if (echoEscaped vars.args).2 then (echoEscaped vars.args).1
    else (echoEscaped vars.args).1 ++ newline
  else echoPlain vars.args ++ newline

/-! ## Options -/

/-- The first loop over the letters of a word: each is an option. -/
def validLetters : Word → Bool
  | [] => true
  | letter :: rest =>
      match letter with
      | 'e' | 'E' | 'n' => validLetters rest
      | _ => false

/-- The second loop's `switch` on a letter. -/
def handleLetter (vars : Vars) (letter : Char) : Vars :=
  match letter with
  | 'e' => { vars with doV9 := true }
  | 'E' => { vars with doV9 := false }
  | 'n' => { vars with displayReturn := false }
  | _ => vars

/-- What can be seen of a run, in order. -/
inductive Event where
  | option (word : Word)
  | kleeDumpMemory
  | putchar (c : Char)
deriving DecidableEq, Repr

/-- How the option loop is left. -/
structure Scanned where
  events : List Event
  vars : Vars
  /-- It was left by `goto just_echo`. -/
  jumped : Bool
deriving DecidableEq, Repr

/-- The option loop, with `words` in front of it. -/
def scanOptions (vars : Vars) : List Word → Scanned
  | [] => ⟨[], { vars with args := [] }, false⟩
  | word :: rest =>
      match word with
      | '-' :: temp =>
          if validLetters temp && !temp.isEmpty then
            let scanned := scanOptions (temp.foldl handleLetter vars) rest
            { scanned with events := .option word :: scanned.events }
          else ⟨[], { vars with args := word :: rest }, true⟩
      | _ => ⟨[], { vars with args := word :: rest }, false⟩

/-- `allow_options`; `DEFAULT_ECHO_TO_XPG` is false. -/
def allowOptions (posixlyCorrect : Bool) (args : List Word) : Bool :=
  !posixlyCorrect || args.head? == some "-n".toList

/-- How `main` ends. -/
inductive Run where
  | usage
  | version
  | returned (events : List Event) (status : Nat)
deriving DecidableEq, Repr

/-- `main`, as the events of a run and its status. -/
def main (posixlyCorrect : Bool) (args : List Word) : Run :=
  let vars : Vars := ⟨args, true, false, posixlyCorrect⟩
  if allowOptions posixlyCorrect args && args == ["--help".toList] then
    .usage
  else if allowOptions posixlyCorrect args &&
      args == ["--version".toList] then
    .version
  else
    let scanned :=
      if allowOptions posixlyCorrect args then scanOptions vars args
      else ⟨[], vars, false⟩
    let neck := if scanned.jumped then [] else [.kleeDumpMemory]
    .returned
      (scanned.events ++ neck ++ (justEcho scanned.vars).map .putchar) 0

/-! ## The neck -/

/-- `klee_dump_memory` is called once, behind the option processing and in
front of the first character written. -/
def NeckOnce (events : List Event) : Prop :=
  OnceBetween (fun event => ∃ word, event = .option word)
    (fun event => ∃ c, event = .putchar c) .kleeDumpMemory events

/-- `-` and one or more option letters. -/
def isOptionWord : Word → Bool
  | '-' :: temp => validLetters temp && !temp.isEmpty
  | _ => false

/-- The first word that is no option word, if any, does not begin with
`-`. -/
def StopsAtOperand (words : List Word) : Prop :=
  ∀ word ∈ (words.dropWhile isOptionWord).head?, word.head? ≠ some '-'

/-- The option loop records options only. -/
theorem scanOptions_events (vars : Vars) (words : List Word) :
    ∀ event ∈ (scanOptions vars words).events,
      ∃ word, event = .option word := by
  induction words generalizing vars with
  | nil =>
      intro event member
      exact nomatch member
  | cons word rest inductionHypothesis =>
      intro event member
      unfold scanOptions at member
      split at member
      · split at member
        · rcases List.mem_cons.mp member with here | later
          · exact ⟨_, here⟩
          · exact inductionHypothesis _ event later
        · exact nomatch member
      · exact nomatch member

/-- The loop is left by a jump unless it stops at an operand. -/
theorem scanOptions_jumped (vars : Vars) (words : List Word) :
    (scanOptions vars words).jumped = false ↔ StopsAtOperand words := by
  induction words generalizing vars with
  | nil => simp [scanOptions, StopsAtOperand]
  | cons word rest inductionHypothesis =>
      by_cases option : isOptionWord word
      · have next : StopsAtOperand (word :: rest) ↔
            StopsAtOperand rest := by
          simp [StopsAtOperand, option]
        rw [next]
        unfold isOptionWord at option
        split at option
        · simp only [scanOptions, option, if_true]
          exact inductionHypothesis _
        · exact nomatch option
      · have here : StopsAtOperand (word :: rest) ↔
            word.head? ≠ some '-' := by
          simp [StopsAtOperand, option]
        rw [here]
        unfold isOptionWord at option
        split at option
        · simp [scanOptions, option]
        · rename_i other
          have noDash : word.head? ≠ some '-' := by
            intro dash
            rcases word with _ | ⟨first, temp⟩
            · exact nomatch dash
            · cases dash
              exact other temp rfl
          unfold scanOptions
          split
          · exact absurd rfl (other _)
          · simp [noDash]

/-- What the run records where it neither prints the usage nor the
version. -/
theorem main_returned
    {posixlyCorrect : Bool} {args : List Word}
    {events : List Event} {status : Nat}
    (returned : main posixlyCorrect args = .returned events status) :
    ∃ scanned : Scanned,
      (∀ event ∈ scanned.events, ∃ word, event = .option word) ∧
      (scanned.jumped = false ↔
        allowOptions posixlyCorrect args = false ∨
          StopsAtOperand args) ∧
      events =
        scanned.events ++
          (if scanned.jumped then [] else [.kleeDumpMemory]) ++
          (justEcho scanned.vars).map .putchar := by
  unfold main at returned
  dsimp only at returned
  split at returned
  · exact nomatch returned
  split at returned
  · exact nomatch returned
  cases returned
  refine ⟨_, ?_, ?_, rfl⟩
  · split
    · exact scanOptions_events _ args
    · intro event member
      exact nomatch member
  · split
    · rename_i allowed
      rw [scanOptions_jumped, allowed]
      simp
    · rename_i refused
      simp [Bool.not_eq_true] at refused
      simp [refused]

/-- A run that leaves the loop of options at its end passes the neck once. -/
theorem neckOnce_of_fallsThrough {options : List Event}
    {chars : List Char}
    (allOptions : ∀ event ∈ options, ∃ word, event = .option word) :
    NeckOnce
      (options ++ [.kleeDumpMemory] ++ chars.map .putchar) := by
  rw [List.append_assoc]
  apply onceBetween_append_cons allOptions
  intro event member
  rcases List.mem_map.mp member with ⟨c, _, rfl⟩
  exact ⟨c, rfl⟩

/-- A run that jumps out of the loop passes the neck by. -/
theorem not_neckOnce_of_jumped {options : List Event}
    {chars : List Char}
    (allOptions : ∀ event ∈ options, ∃ word, event = .option word) :
    ¬ NeckOnce (options ++ [] ++ chars.map .putchar) := by
  intro once
  rcases List.mem_append.mp once.mem with member | member
  · rw [List.append_nil] at member
    rcases allOptions _ member with ⟨word, equal⟩
    exact nomatch equal
  · rcases List.mem_map.mp member with ⟨c, _, equal⟩
    exact nomatch equal

/--
The neck is passed once, and in its place, exactly by the runs that take no
options and by those whose first word behind the option words does not begin
with `-`.
-/
theorem echo_neckOnce_iff
    {posixlyCorrect : Bool} {args : List Word}
    {events : List Event} {status : Nat}
    (returned : main posixlyCorrect args = .returned events status) :
    NeckOnce events ↔
      allowOptions posixlyCorrect args = false ∨
        StopsAtOperand args := by
  rcases main_returned returned with
    ⟨scanned, allOptions, fallsThrough, rfl⟩
  rw [← fallsThrough]
  cases jumped : scanned.jumped with
  | false =>
      simp only [Bool.false_eq_true, if_false, iff_true]
      exact neckOnce_of_fallsThrough allOptions
  | true =>
      simp only [if_true, Bool.true_eq_false, iff_false]
      exact not_neckOnce_of_jumped allOptions

/-- `echo -n hi`. -/
theorem echo_neckOnce_iff_dash_n :
    NeckOnce
        [.option "-n".toList, .kleeDumpMemory, .putchar 'h',
          .putchar 'i'] ↔
      allowOptions false ["-n".toList, "hi".toList] = false ∨
        StopsAtOperand ["-n".toList, "hi".toList] :=
  @echo_neckOnce_iff false _ _ 0 rfl

/-- `echo -x` writes its word and never calls `klee_dump_memory`. -/
theorem echo_dash_x_misses_neck :
    main false ["-x".toList] =
        .returned [.putchar '-', .putchar 'x', .putchar '\n'] 0 ∧
      ¬ NeckOnce [.putchar '-', .putchar 'x', .putchar '\n'] := by
  refine ⟨by decide, ?_⟩
  intro once
  exact absurd once.mem (by decide)

end Lmcas.Echo
