import Lmcas.SortKeys
import Mathlib.Data.List.FinRange

/-!
# The tables of `sort`

What `main` from `sort.c` sets in front of its option loop: characters and
tables of the locale, and the signals to catch.  The options do not change
them.
-/

namespace Lmcas.Sort

open Lmcas.Lib.CString

/-- What `setlocale (LC_ALL, "")` comes to: does the locale exist, which of
its categories are hard, and what the library says of it. -/
structure Locale where
  found : Bool
  hardCollate : Bool
  hardTime : Bool
  decimalPoint : Word
  thousandsSep : Word
  isblank : Char → Bool
  isprint : Char → Bool
  isalnum : Char → Bool
  toupper : Char → Char
  /-- `nl_langinfo (ABMON_1 + i)`. -/
  abmon : Fin 12 → Word

/-- What a process inherits besides its variables. -/
structure Inherited where
  locale : Locale
  ignored : Nat → Bool

/-- `struct month`. -/
structure Month where
  name : Word
  val : Nat
deriving DecidableEq, Repr

/-- A character that stands alone, or else the one of the C locale. -/
def single {Value : Type} (default : Value) (of : Char → Value) :
    Word → Value
  | [c] => of c
  | _ => default

section

variable (locale : Locale)

/-- `field_sep`: blanks and the newline. -/
def fieldSep (c : Char) : Bool :=
  locale.isblank c || c = '\n'

/-- The months of the C locale, in alphabetic order. -/
def monthtabC : List Month :=
  [⟨"APR".toList, 4⟩, ⟨"AUG".toList, 8⟩, ⟨"DEC".toList, 12⟩,
    ⟨"FEB".toList, 2⟩, ⟨"JAN".toList, 1⟩, ⟨"JUL".toList, 7⟩,
    ⟨"JUN".toList, 6⟩, ⟨"MAR".toList, 3⟩, ⟨"MAY".toList, 5⟩,
    ⟨"NOV".toList, 11⟩, ⟨"OCT".toList, 10⟩, ⟨"SEP".toList, 9⟩]

/-- `struct_month_cmp`. -/
def monthLe (first second : Month) : Bool :=
  first.name ≤ second.name

/-- A month of the locale, in capitals and without blanks. -/
def monthOf (i : Fin 12) : Month where
  name := ((locale.abmon i).filter (!locale.isblank ·)).map locale.toupper
  val := i + 1

/-- `monthtab[]`, sorted again for a locale with names of its own. -/
def monthtab : List Month :=
  if locale.hardTime then
    ((List.finRange 12).map (monthOf locale)).mergeSort monthLe
  else monthtabC

end

/-- `SIGALRM`, `SIGHUP`, `SIGINT`, `SIGPIPE`, `SIGQUIT`, `SIGTERM`, `SIGPOLL`,
`SIGPROF`, `SIGVTALRM`, `SIGXCPU` and `SIGXFSZ`. -/
def sig : List Nat :=
  [14, 1, 2, 13, 3, 15, 29, 27, 26, 24, 25]

/-- What `main` and `inittables` set before the options. -/
structure Tables where
  localeOk : Bool
  hardCollate : Bool
  decimalPoint : Char
  /-- `none` for `-1`. -/
  thousandsSep : Option Char
  blanks : Char → Bool
  nonprinting : Char → Bool
  nondictionary : Char → Bool
  foldToupper : Char → Char
  monthtab : List Month
  caughtSignals : List Nat

/-- They depend on what the process inherits. -/
def tables (inherited : Inherited) : Tables where
  localeOk := inherited.locale.found
  hardCollate := inherited.locale.hardCollate
  decimalPoint := single '.' id inherited.locale.decimalPoint
  thousandsSep := single none some inherited.locale.thousandsSep
  blanks := fieldSep inherited.locale
  nonprinting c := !inherited.locale.isprint c
  nondictionary c :=
    !inherited.locale.isalnum c && !fieldSep inherited.locale c
  foldToupper := inherited.locale.toupper
  monthtab := monthtab inherited.locale
  caughtSignals := sig.filter (!inherited.ignored ·)

/-- Months can be looked up by binary search in every locale. -/
theorem monthtab_pairwise (locale : Locale) :
    (monthtab locale).Pairwise (monthLe · ·) := by
  unfold monthtab
  split
  · apply List.pairwise_mergeSort
    · intro first second third le le'
      simp only [monthLe, decide_eq_true_eq] at le le' ⊢
      exact le_trans le le'
    · intro first second
      simp only [monthLe, Bool.or_eq_true, decide_eq_true_eq]
      exact le_total first.name second.name
  · decide

end Lmcas.Sort
