import Lmcas.SortCheck
import Lmcas.SortCompare
import Lmcas.SortSpecialise

/-!
# From the command line to the output

What `sort` and `check` of `sort.c` do under the variables that the option
loop leaves.
-/

namespace Lmcas.SortRun

open Lmcas.Lib.CString
open Lmcas.Lib.Lines
open Lmcas.Lib.OrderedLoop
open Lmcas.Lib.StableSort
open Lmcas.Sort
open Lmcas.SortBuffer
open Lmcas.SortCheck
open Lmcas.SortCompare
open Lmcas.SortFiles
open Lmcas.SortMerge
open Lmcas.SortThreads
open Lmcas.System

/-- The threads and the memory that the machine has. -/
structure Resources where
  nthreads : Nat
  bytesPerLine : Nat
  x2nrealloc : Nat → Nat
  grows : ∀ n, n < x2nrealloc n

/-- What the run of the sort takes from the command line: lines are compared by
their keys. -/
def configOf (tables : Tables) (library : Library) (resources : Resources)
    (vars : Vars) : SortFiles.Config where
  compare := lineOrder tables library (orderOf vars)
  unique := vars.unique
  eolchar := vars.eolchar
  nthreads := resources.nthreads
  nmerge := vars.nmerge
  bytesPerLine := resources.bytesPerLine
  x2nrealloc := resources.x2nrealloc

section

variable {tables : Tables} {library : Library} {resources : Resources}
  {vars : Vars}

/-- It fulfils what the sort asks for. -/
theorem configOf_sound (sound : library.Sound) (several : 2 ≤ vars.nmerge) :
    (configOf tables library resources vars).Sound :=
  ⟨lineOrder_comparison sound, several, resources.grows⟩

/-- The branch of `main` that calls `sort`, and what is put out when it comes
to its end. -/
structure PutsOut (config : SortFiles.Config) (vars : Vars) (alloc : Nat)
    (file : Word) (files : List Word) (output : List Word) : Prop where
  unchecked : vars.checkonly = none
  unmerged : vars.mergeonly = false
  run : ∃ sorting,
    Relation.ReflTransGen (SortStep config) (startSort alloc file files)
      sorting ∧
    SortEnds config sorting output

theorem sortedLines_subset {Line : Type} {compare : Line → Line → Int}
    {unique : Bool} {lines : List Line} {line : Line}
    (inside : line ∈ sortedLines compare unique lines) : line ∈ lines := by
  rw [sortedLines] at inside
  split at inside
  · exact List.mem_mergeSort.mp ((firsts_sublist _).mem inside)
  · exact List.mem_mergeSort.mp inside

/-- What a run puts out is the sort of the lines of its files. -/
theorem PutsOut.output_eq {config : SortFiles.Config} (sound : config.Sound)
    {alloc : Nat} {file : Word} {files output : List Word}
    (puts : PutsOut config vars alloc file files output) :
    output = sortedLines config.compare config.unique
      ((file :: files).map (linesOf config.eolchar)).flatten := by
  obtain ⟨sorting, run, ends⟩ := puts.run
  exact ends.output sound (reached_valid sound run)

/-! ### Another random state -/

/-- Only random keys look at the checksums. -/
theorem keyDiff_md5 (md5 : Word → Word) {key : Keyfield}
    (plain : key.random = false) (first second : Word) :
    keyDiff tables { library with md5 } key first second =
      keyDiff tables library key first second := by
  simp only [keyDiff, plain]
  rfl

/-- Without a key of `-R` the checksum takes no part in the order of the
keys. -/
theorem keysOrder_md5 (md5 : Word → Word) {order : Order}
    {keys : List Keyfield} (plain : ∀ key ∈ keys, key.random = false) :
    keysOrder tables { library with md5 } order keys =
      keysOrder tables library order keys := by
  induction keys with
  | nil => rfl
  | cons key keys inductionHypothesis =>
      obtain ⟨first, others⟩ := List.forall_mem_cons.mp plain
      have one : keyOrder tables { library with md5 } order key =
          keyOrder tables library order key := by
        funext line line'
        rw [keyOrder, keyOrder, keyDiff_md5 md5 first]
      rw [keysOrder, keysOrder, inductionHypothesis others, one]

/-- Nor in that of the lines. -/
theorem lineOrder_md5 (md5 : Word → Word) {order : Order}
    (plain : ∀ key ∈ order.keylist, key.random = false) :
    lineOrder tables { library with md5 } order =
      lineOrder tables library order := by
  rw [lineOrder, lineOrder, keysOrder_md5 md5 plain]
  rfl

/-- Two runs under the same options compare alike, if their checksums start
from the same random state or no key is random. -/
theorem configOf_md5 {md5 : Word → Word}
    (state : md5 = library.md5 ∨
      ∀ key ∈ (orderOf vars).keylist, key.random = false) :
    configOf tables { library with md5 } resources vars =
      configOf tables library resources vars := by
  rcases state with rfl | plain
  · rfl
  · rw [configOf, configOf, lineOrder_md5 md5 plain]

/-- With keys that begin and end within `2 ^ 63` characters, the order of the
lines is the one that `compare` computes in memory. -/
theorem compare_eq_configOf
    (within : ∀ key ∈ (orderOf vars).keylist,
      key.schar < 2 ^ 63 ∧ key.echar < 2 ^ 63)
    {memory : Memory} {a b : Line} {first second : Word}
    (holds : a.Holds memory first) (holds' : b.Holds memory second)
    (stops : tables.blanks (memory a.lim) = false)
    (stops' : tables.blanks (memory b.lim) = false)
    (inside : a.lim < 2 ^ 63) (inside' : b.lim < 2 ^ 63) :
    SortCompare.compare tables library (orderOf vars) memory a b =
      (configOf tables library resources vars).compare first second := by
  have small {line : Line} (inside : line.lim < 2 ^ 63) :
      ∀ key ∈ (orderOf vars).keylist, Small line key := by
    intro key isKey
    have bounds := within key isKey
    constructor <;> omega
  exact (compare_eq_lineOrder ⟨holds, stops, small inside⟩
    ⟨holds', stops', small inside'⟩)

end

/-- Two threads and small buffers. -/
def smallResources : Resources :=
  ⟨2, 48, fun n => n + n / 2 + 1, fun n => by omega⟩

end Lmcas.SortRun
