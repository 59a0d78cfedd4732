import Lmcas.System

/-!
# What `uniq` does with the lines of a file

`check_file` from `uniq.c`, on the variables that the options leave.  A line
buffer holds a line with its delimiter; here it is the line without it, and
`find_field` is the text from the field to the end of the line.
-/

namespace Lmcas.Uniq

open Lmcas.Lib.CString
open Lmcas.System

/-! ## Variables -/

/-- `enum countmode`. -/
inductive Countmode where
  | countOccurrences
  | countNone
deriving DecidableEq, Repr

/-- `enum delimit_method`. -/
inductive DelimitMethod where
  | none
  | prepend
  | separate
deriving DecidableEq, Repr

/-- `enum grouping_method`. -/
inductive GroupingMethod where
  | none
  | prepend
  | append
  | separate
  | both
deriving DecidableEq, Repr

/-- The obsolete `-N` and the new `-f N` may not be mixed. -/
inductive SkipFieldOptionType where
  | none
  | obsolete
  | new
deriving DecidableEq, Repr

/-- The static variables, and the local ones of `main`. -/
structure Vars where
  skipFields : Nat
  skipChars : Nat
  checkChars : Nat
  countmode : Countmode
  outputUnique : Bool
  outputFirstRepeated : Bool
  outputLaterRepeated : Bool
  ignoreCase : Bool
  delimitGroups : DelimitMethod
  grouping : GroupingMethod
  skipFieldOptionType : SkipFieldOptionType
  nfiles : Nat
  file : Word × Word
  delimiter : Char
  outputOptionUsed : Bool
deriving DecidableEq, Repr

/-- A stream that is read to its end, which an error may be. -/
structure Input where
  bytes : List Char
  readError : Bool
deriving DecidableEq, Repr

/-- What the locale says about bytes, and the functions of gnulib that read and
compare lines: `readLines` are the lines that `readlinebuffer_delim` reads one
after the other, and `memcasecmp` compares two blocks of one length. -/
structure Library where
  fieldSep : Char → Bool
  readLines : Char → Input → List Word
  memcasecmp : Word → Word → Int

/-- The files, standard input, and what opening and closing them comes to. -/
structure World where
  stdin : Input
  files : Word → Option Input
  creates : Word → Bool
  /-- Do the two names stand for one file? -/
  sameFile : Word → Word → Bool
  closeError : Word → Bool
  writeError : Word → Bool

/-! ## Lines -/

section Fields

variable (library : Library) (vars : Vars)

/-- The loop of `find_field`, for the fields that are still to be skipped. -/
def skipFieldsOf : Nat → Word → Word
  | 0, lp => lp
  | _ + 1, [] => []
  | count + 1, lp =>
      skipFieldsOf count
        ((lp.dropWhile library.fieldSep).dropWhile (!library.fieldSep ·))

/-- `find_field`. -/
def findField (line : Word) : Word :=
  (skipFieldsOf library vars.skipFields line).drop vars.skipChars

/-- `different`: with `-i` lines of one length are compared by a library. -/
def different (old new : Word) : Bool :=
  let old := old.take vars.checkChars
  let new := new.take vars.checkChars
  if vars.ignoreCase then
    old.length != new.length || library.memcasecmp old new != 0
  else old.length != new.length || old != new

/-- `%7ju `. -/
def countPrefix (count : Nat) : Word :=
  (Nat.toDigits 10 count).leftpad 7 ' ' ++ [' ']

/-- `writeline`, for a line with the number of its repetitions. -/
def writeline (line : Word) (isMatch : Bool) (linecount : Nat) : Word :=
  if !(if linecount = 0 then vars.outputUnique
      else if !isMatch then vars.outputFirstRepeated
      else vars.outputLaterRepeated) then []
  else
    (if vars.countmode = .countOccurrences then countPrefix (linecount + 1)
      else []) ++ line ++ [vars.delimiter]

/-! ## The two loops -/

/-- Is a delimiter written before the first line of a group? -/
def separatesGroup (firstGroupPrinted : Bool) : Bool :=
  vars.grouping = .prepend || vars.grouping = .both ||
    firstGroupPrinted &&
      (vars.grouping = .append || vars.grouping = .separate)

/-- The loop that writes lines at once.  `prevfield` is null until a line has
been kept in `prevline`. -/
def printGroups (prevfield : Option Word) (firstGroupPrinted : Bool) :
    List Word → Word
  | [] =>
      if (vars.grouping = .both ∨ vars.grouping = .append) ∧
          firstGroupPrinted then
        [vars.delimiter]
      else []
  | thisline :: lines =>
      let thisfield := findField library vars thisline
      let newGroup :=
        match prevfield with
        | none => true
        | some prevfield => different library vars thisfield prevfield
      let separator :=
        if newGroup && vars.grouping ≠ .none &&
            separatesGroup vars firstGroupPrinted then
          [vars.delimiter]
        else []
      if newGroup || vars.grouping ≠ .none then
        separator ++ thisline ++ [vars.delimiter] ++
          printGroups (some thisfield) true lines
      else printGroups prevfield firstGroupPrinted lines

/-- `match_count` after a line.  The limit is not an error: the test for it
reads `count_occurrences`, which is an enumerator and 0. -/
def countMatch (matchCount : Nat) (isMatch : Bool) : Nat :=
  let matchCount := if isMatch then matchCount + 1 else matchCount
  if matchCount = uintmaxMax then matchCount - 1 else matchCount

/-- The delimiter before a group of repeated lines. -/
def delimitsGroup (firstDelimiter isMatch : Bool) (matchCount : Nat) :
    Bool :=
  isMatch && matchCount = 1 &&
    (vars.delimitGroups = .prepend ||
      vars.delimitGroups = .separate && !firstDelimiter)

/-- The loop that holds a line back until the next one is read. -/
def printCounted (readError : Bool) (prevline prevfield : Word)
    (matchCount : Nat) (firstDelimiter : Bool) : List Word → Word
  | [] => if readError then [] else writeline vars prevline false matchCount
  | thisline :: lines =>
      let thisfield := findField library vars thisline
      let isMatch := !different library vars thisfield prevfield
      let matchCount := countMatch matchCount isMatch
      let firstDelimiter :=
        if vars.delimitGroups ≠ .none ∧ isMatch = false ∧ matchCount ≠ 0 then
          false
        else firstDelimiter
      let separator :=
        if delimitsGroup vars firstDelimiter isMatch matchCount then
          [vars.delimiter]
        else []
      if !isMatch || vars.outputLaterRepeated then
        separator ++ writeline vars prevline isMatch matchCount ++
          printCounted readError thisline thisfield
            (if isMatch then matchCount else 0) firstDelimiter lines
      else
        separator ++
          printCounted readError prevline prevfield matchCount firstDelimiter
            lines

/-- Everything that is written for an input. -/
def printLines (input : Input) : Word :=
  let lines := library.readLines vars.delimiter input
  if vars.outputUnique ∧ vars.outputFirstRepeated ∧
      vars.countmode = .countNone then
    printGroups library vars none false lines
  else
    match lines with
    | [] => []
    | prevline :: lines =>
        printCounted library vars input.readError prevline
          (findField library vars prevline) 0 true lines

end Fields

/-! ## `check_file` -/

/-- A run that has opened its files: where it has read and written, and its
status, which a failure to close standard output decides last. -/
structure Checked where
  input : Word
  output : Word
  text : Word
  status : Nat
deriving DecidableEq, Repr

/-- `"-"` stands for standard input. -/
def World.opened (world : World) (infile : Word) : Option Input :=
  if infile = ['-'] then some world.stdin else world.files infile

/-- Opening the output for writing empties it. -/
def World.truncated (world : World) (infile outfile : Word)
    (input : Input) : Input :=
  if outfile ≠ ['-'] ∧ world.sameFile outfile infile then
    { input with bytes := [] }
  else input

/-- `check_file`; `none` if a file cannot be opened. -/
def checkFile (library : Library) (world : World) (vars : Vars)
    (infile outfile : Word) : Option Checked :=
  match world.opened infile with
  | none => none
  | some input =>
      if outfile ≠ ['-'] ∧ !world.creates outfile then none
      else
        let input := world.truncated infile outfile input
        some
          { input := infile
            output := outfile
            text := printLines library vars input
            status :=
              if input.readError || world.closeError infile ||
                  world.writeError outfile then
                exitFailure
              else exitSuccess }

end Lmcas.Uniq
