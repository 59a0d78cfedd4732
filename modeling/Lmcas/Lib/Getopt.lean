import Lmcas.Lib.CString

/-!
# `getopt_long` as in glibc

`getoptLong` is one call of glibc's `getopt_long`.  Its state is the argument
vector, `optind`, `optarg`, the scan position inside the current word
(`nextchar`) and the range `[first_nonopt, last_nonopt)` of operands that were
skipped and have not been moved to the end yet.  The range is exchanged with
the options that follow it at the start of a later call and never earlier,
so after a call `argv` can still hold skipped operands in front of `optind`.

The option strings served here do not start with `:` and have no `W;`, hence
every error is the return value `'?'`.  The fields `flag` of the long options
are null, so every long option returns its `val`.  The index of a long option
is not returned: the programs pass it on to their diagnostics only.
-/

namespace Lmcas.Lib.Getopt

open Lmcas.Lib.CString

/-! ## Tables -/

/-- `no_argument`, `required_argument` and `optional_argument`. -/
inductive HasArg where
  | no
  | required
  | optional
deriving DecidableEq, Repr

/-- The `val` of an option: a character, or an enumerator outside `char`. -/
inductive OptVal where
  | char (char : Char)
  | enum (value : Int)
deriving DecidableEq, Repr

/-- An entry of a `struct option` table. -/
structure LongOption where
  name : Word
  hasArg : HasArg
  val : OptVal
deriving DecidableEq, Repr

/-- What a call does with operands. -/
inductive Ordering where
  | permute
  | returnInOrder
  | requireOrder
deriving DecidableEq, Repr

/-- The arguments of `getopt_long` that do not change between calls. -/
structure Config where
  ordering : Ordering
  optstring : Word
  longopts : List LongOption
deriving Repr

/-- `_getopt_initialize`: a leading `-` or `+` of the option string, or else
the environment, decides the ordering. -/
def getoptInitialize (optstring : Word) (longopts : List LongOption)
    (posixlyCorrect : Bool) : Config :=
  match optstring with
  | '-' :: rest => ⟨.returnInOrder, rest, longopts⟩
  | '+' :: rest => ⟨.requireOrder, rest, longopts⟩
  | _ =>
      ⟨if posixlyCorrect then .requireOrder else .permute,
        optstring, longopts⟩

/-- What a call returns: `-1`, `1`, the value of an option, or `'?'`. -/
inductive Ret where
  | eof
  | nonopt
  | val (val : OptVal)
  | unrecognized
deriving DecidableEq, Repr

/-- The state that `getopt_long` keeps between calls. -/
structure State where
  argv : List StrObj
  optind : Nat
  optarg : Option CStr
  nextchar : Option CStr
  firstNonopt : Nat
  lastNonopt : Nat
deriving DecidableEq, Repr

/-- The state before the first call. -/
def start (argv : List StrObj) : State :=
  ⟨argv, 1, none, none, 1, 1⟩

/-- `argc`. -/
def State.argc (state : State) : Nat :=
  state.argv.length

/-! ## Operands -/

/-- `NONOPTION_P`. -/
def nonoption : Word → Bool
  | '-' :: _ :: _ => false
  | _ => true

/-- `exchange`: swap the skipped operands with the options after them. -/
def exchange (state : State) : State :=
  let argv :=
    if state.firstNonopt < state.lastNonopt ∧
        state.lastNonopt < state.optind then
      state.argv.take state.firstNonopt ++
        (state.argv.take state.optind).drop state.lastNonopt ++
        (state.argv.take state.lastNonopt).drop state.firstNonopt ++
        state.argv.drop state.optind
    else state.argv
  { state with
    argv := argv
    firstNonopt :=
      state.firstNonopt + (state.optind - state.lastNonopt)
    lastNonopt := state.optind }

/-- Bring the range of skipped operands back below `optind`, in case the
caller has moved `optind`. -/
def repair (state : State) : State :=
  { state with
    lastNonopt := min state.lastNonopt state.optind
    firstNonopt := min state.firstNonopt state.optind }

/-- Skip the operands from `optind` on and record them as skipped. -/
def skipNonoptions (state : State) : State :=
  let skipped :=
    ((state.argv.drop state.optind).takeWhile
      (nonoption ·.chars)).length
  { state with
    optind := state.optind + skipped
    lastNonopt := state.optind + skipped }

/-- Exchange if options followed the skipped operands; without skipped
operands, the next range of them starts at `optind`. -/
def arrange (state : State) : State :=
  if state.firstNonopt ≠ state.lastNonopt ∧
      state.lastNonopt ≠ state.optind then
    exchange state
  else if state.lastNonopt ≠ state.optind then
    { state with firstNonopt := state.optind }
  else state

/-- Everything up to the test for `--`. -/
def settle (ordering : Ordering) (state : State) : State :=
  match ordering with
  | .permute => skipNonoptions (arrange (repair state))
  | _ => repair state

/-- `--` ends the options: everything after it is an operand. -/
def dashDash (state : State) : State :=
  let state := { state with optind := state.optind + 1 }
  let state :=
    if state.firstNonopt ≠ state.lastNonopt ∧
        state.lastNonopt ≠ state.optind then
      exchange state
    else if state.firstNonopt = state.lastNonopt then
      { state with firstNonopt := state.optind }
    else state
  { state with lastNonopt := state.argc, optind := state.argc }

/-- The scan is over; `optind` goes back to the first skipped operand. -/
def finish (state : State) : Ret × State :=
  (.eof,
    if state.firstNonopt ≠ state.lastNonopt then
      { state with optind := state.firstNonopt }
    else state)

/-! ## Options -/

/-- The argument kind that the option string gives to a character. -/
def shortArg (optstring : Word) (char : Char) : Option HasArg :=
  if char = ':' ∨ char = ';' then none
  else
    match strchr optstring char with
    | none => none
    | some (_ :: ':' :: ':' :: _) => some .optional
    | some (_ :: ':' :: _) => some .required
    | some _ => some .no

/-- Handle the option character `char`; `rest` points behind it. -/
def shortOption (config : Config) (state : State)
    (char : Char) (rest : CStr) : Ret × State :=
  let state :=
    { state with
      nextchar := some rest
      optind :=
        if rest.text = [] then state.optind + 1 else state.optind }
  match shortArg config.optstring char with
  | none => (.unrecognized, state)
  | some .no => (.val (.char char), state)
  | some .optional =>
      if rest.text = [] then
        (.val (.char char), { state with nextchar := none })
      else
        (.val (.char char),
          { state with
            optarg := some rest
            optind := state.optind + 1
            nextchar := none })
  | some .required =>
      if rest.text = [] then
        match state.argv[state.optind]? with
        | none => (.unrecognized, { state with nextchar := none })
        | some next =>
            (.val (.char char),
              { state with
                optarg := some next.ptr
                optind := state.optind + 1
                nextchar := none })
      else
        (.val (.char char),
          { state with
            optarg := some rest
            optind := state.optind + 1
            nextchar := none })

/-- The outcome of looking up a long option name. -/
inductive Lookup where
  | missing
  | ambiguous
  | found (option : LongOption)
deriving DecidableEq, Repr

/-- An exact match wins; else all the options that `name` abbreviates must
agree in argument kind and value, and the first of them is taken. -/
def lookupLong (longopts : List LongOption) (name : Word) : Lookup :=
  match longopts.find? (·.name = name) with
  | some option => .found option
  | none =>
      match longopts.filter (name.isPrefixOf ·.name) with
      | [] => .missing
      | option :: others =>
          if others.all fun other =>
              other.hasArg = option.hasArg ∧
                other.val = option.val then
            .found option
          else .ambiguous

/-- `process_long_option`, for the word whose name part starts at `name`. -/
def processLongOption (config : Config) (state : State)
    (name : CStr) : Ret × State :=
  let key := name.text.takeWhile (· ≠ '=')
  let state := { state with optind := state.optind + 1 }
  match lookupLong config.longopts key with
  | .ambiguous =>
      (.unrecognized,
        { state with nextchar := some (name.add name.text.length) })
  | .missing => (.unrecognized, { state with nextchar := none })
  | .found option =>
      let state := { state with nextchar := none }
      match name.text.dropWhile (· ≠ '=') with
      | _ :: _ =>
          if option.hasArg = .no then (.unrecognized, state)
          else
            (.val option.val,
              { state with
                optarg := some (name.add (key.length + 1)) })
      | [] =>
          if option.hasArg = .required then
            match state.argv[state.optind]? with
            | none => (.unrecognized, state)
            | some next =>
                (.val option.val,
                  { state with
                    optarg := some next.ptr
                    optind := state.optind + 1 })
          else (.val option.val, state)

/-- How the word at `optind` is read. -/
inductive Element where
  | terminator
  | long
  | short (char : Char)
  | operand
deriving DecidableEq, Repr

/-- `--`, `--name`, `-c…`, or an operand. -/
def element : Word → Element
  | ['-', '-'] => .terminator
  | '-' :: '-' :: _ => .long
  | '-' :: char :: _ => .short char
  | _ => .operand

/-- Handle the word at `optind`, when no word is scanned half way. -/
def nextElement (config : Config) (state : State) : Ret × State :=
  let state := settle config.ordering state
  match state.argv[state.optind]? with
  | none => finish state
  | some obj =>
      match element obj.chars with
      | .terminator => finish (dashDash state)
      | .long =>
          processLongOption config state (obj.ptr.add 2)
      | .short char =>
          shortOption config state char (obj.ptr.add 2)
      | .operand =>
          match config.ordering with
          | .requireOrder => (.eof, state)
          | _ =>
              (.nonopt,
                { state with
                  optarg := some obj.ptr
                  optind := state.optind + 1 })

/-- The next character of a word that is scanned half way. -/
def State.pending (state : State) : Option (Char × CStr) :=
  match state.nextchar with
  | none => none
  | some pointer =>
      match pointer.text with
      | [] => none
      | char :: _ => some (char, pointer.add 1)

/-- The state a call works on: nothing of the previous option is left. -/
def State.cleared (state : State) : State :=
  { state with optarg := none }

/-- One call of `getopt_long`. -/
def getoptLong (config : Config) (state : State) : Ret × State :=
  match state.cleared.pending with
  | some (char, rest) => shortOption config state.cleared char rest
  | none => nextElement config state.cleared

end Lmcas.Lib.Getopt
