import Lmcas.Lib.Shell

/-!
# The parameters of an analysis

The loop over the command line that `runAnalysis_automated.sh` and
`runAnalysis_manual_neck.sh` have.  Each word goes through `echo` and
`awk -F:`, unquoted, and what is behind the colon ends in `F` or in `args`;
`klee` is given `$args`, unquoted again.
-/

namespace Lmcas.Parameters

open Lmcas.Lib.CString
open Lmcas.Lib.Shell

/-! ## The loop -/

/-- The shell that runs the script: what patterns become in the directory it
is in, and what `echo -e` makes of a text. -/
structure Shell where
  pathnames : Word → List Word
  interpret : Word → Word

/-- The variables of the script that its loop sets. -/
structure Variables where
  F : Word
  args : Word
deriving DecidableEq, Repr

/-- One field of `echo $1`, in a command substitution. -/
def field (shell : Shell) (n : Nat) (word : Word) : Word :=
  substitution
    (awkField n (echo shell.interpret (unquoted shell.pathnames word)))

/-- The `while` loop; `none` if the script ends with its usage. -/
def loop (shell : Shell) (vars : Variables) :
    List Word → Option Variables
  | [] => some vars
  | word :: words =>
      if word = [] then some vars
      else
        let param := field shell 1 word
        let value := field shell 2 word
        if param = "-h".toList ∨ param = "--help".toList then none
        else if param = "--file".toList then
          loop shell { vars with F := value } words
        else if param = "--args".toList then
          loop shell { vars with args := value } words
        else none

/-- The check behind the loop. -/
def checked (vars : Variables) : Option Variables :=
  if vars.F = [] ∨ vars.args = [] then none else some vars

/-- The words that `klee` is given for `$args`. -/
def kleeArguments (pathnames : Word → List Word) (vars : Variables) :
    List Word :=
  unquoted pathnames vars.args

/-! ## Parameters -/

/-- A word `--file:P` or `--args:V`. -/
inductive Parameter where
  | file (path : Word)
  | args (values : Word)
deriving DecidableEq, Repr

/-- What stands before the colon. -/
def Parameter.name : Parameter → Word
  | .file _ => "--file".toList
  | .args _ => "--args".toList

/-- What is meant to be received. -/
def Parameter.text : Parameter → Word
  | .file path => path
  | .args values => values

/-- The word on the command line. -/
def Parameter.word (parameter : Parameter) : Word :=
  parameter.name ++ ':' :: parameter.text

/-- What may stand behind the colon: not only blanks, and neither a newline
nor a pattern. -/
structure Plain (text : Word) : Prop where
  nonblank : ∃ char ∈ text, char ≠ ' ' ∧ char ≠ '\t'
  oneLine : '\n' ∉ text
  noGlob : ∀ char ∈ text, isGlob char = false

/-- The path of the last `--file`. -/
def lastPath : List Parameter → Option Word
  | [] => none
  | .file path :: parameters => (lastPath parameters).or (some path)
  | .args _ :: parameters => lastPath parameters

/-- The values of the last `--args`. -/
def lastValues : List Parameter → Option Word
  | [] => none
  | .file _ :: parameters => lastValues parameters
  | .args values :: parameters => (lastValues parameters).or (some values)

/-- The words between spaces and tabs. -/
def blankWords (text : Word) : List Word :=
  (text.splitOnP fun char => char == ' ' || char == '\t').filter
    fun word => !word.isEmpty

/-! ## One word -/

/-- What comes through behind the colon. -/
def received (text : Word) : Word :=
  (collapse text).takeWhile fun char => char != ':'

/-- Collapsing adds only blanks. -/
theorem mem_of_mem_collapse {text : Word} {char : Char}
    (member : char ∈ collapse text) :
    char = ' ' ∨ char ∈ text := by
  cases pieces : text.splitOnP isIfs with
  | nil => exact (List.splitOnP_ne_nil _ _ pieces).elim
  | cons piece others =>
      have inPieces {word : Word} (inCut : word ∈ piece :: others)
          (inWord : char ∈ word) : char ∈ text :=
        mem_of_mem_splitOnP (pieces ▸ inCut) inWord
      rw [collapse_eq pieces, List.mem_append, List.mem_flatMap] at member
      rcases member with inPiece | ⟨word, kept, inWord⟩
      · exact .inr (inPieces List.mem_cons_self inPiece)
      · rcases List.mem_cons.mp inWord with rfl | inWord
        · exact .inl rfl
        · exact .inr (inPieces
            (List.mem_cons_of_mem _ (List.mem_filter.mp kept).1) inWord)

theorem collapse_oneLine {text : Word} (plain : Plain text) :
    '\n' ∉ collapse text := by
  intro member
  rcases mem_of_mem_collapse member with space | inText
  · exact absurd space (by decide)
  · exact plain.oneLine inText

section

variable (shell : Shell) {parameter : Parameter}

/-- The word up to the colon, with the colon. -/
def Parameter.label (parameter : Parameter) : Word :=
  parameter.name ++ [':']

/-- The word begins with its label, the colon included. -/
theorem word_eq_label (parameter : Parameter) :
    parameter.word = parameter.label ++ parameter.text := by
  simp [Parameter.word, Parameter.label]

theorem label_cases (parameter : Parameter) :
    parameter.label = "--file:".toList ∨
      parameter.label = "--args:".toList := by
  cases parameter with
  | file path => exact .inl rfl
  | args values => exact .inr rfl

/-- A label has no separator in it. -/
theorem label_noIfs (parameter : Parameter) :
    ∀ char ∈ parameter.label, isIfs char = false := by
  have noneIfs : parameter.label.any isIfs = false := by
    rcases label_cases parameter with same | same <;> rw [same] <;> rfl
  simpa using noneIfs

/-- Nor a pattern. -/
theorem label_noGlob (parameter : Parameter) :
    ∀ char ∈ parameter.label, isGlob char = false := by
  have noneGlob : parameter.label.any isGlob = false := by
    rcases label_cases parameter with same | same <;> rw [same] <;> rfl
  simpa using noneGlob

/-- A word that begins with a label is no option of `echo`. -/
theorem label_noOption (parameter : Parameter) (rest : Word) :
    isEchoOption (parameter.label ++ rest) = false := by
  rcases label_cases parameter with same | same <;> rw [same] <;> rfl

/-- `echo` prints the word, but for its blanks. -/
theorem echo_word (plain : Plain parameter.text) :
    echo shell.interpret (unquoted shell.pathnames parameter.word) =
      parameter.name ++ ':' :: collapse parameter.text ++ ['\n'] := by
  have nonempty : parameter.label ≠ [] := by
    simp [Parameter.label]
  have noGlob : ∀ char ∈ parameter.word, isGlob char = false := by
    intro char member
    rw [word_eq_label, List.mem_append] at member
    rcases member with inLabel | inText
    · exact label_noGlob parameter char inLabel
    · exact plain.noGlob char inText
  have noOption : ∀ word ∈ (split parameter.word).head?,
      isEchoOption word = false := by
    rw [word_eq_label, split, splitOnP_append (label_noIfs parameter)]
    cases parameter.text.splitOnP isIfs with
    | nil => simp
    | cons piece others =>
        have kept : (parameter.label ++ piece).isEmpty = false := by
          simp [nonempty]
        simp [kept, label_noOption]
  rw [unquoted_of_noGlob noGlob, echo_of_noOption noOption, word_eq_label,
    intercalate_split nonempty (label_noIfs parameter)]
  simp [Parameter.label]

theorem name_cases (parameter : Parameter) :
    parameter.name = "--file".toList ∨ parameter.name = "--args".toList := by
  cases parameter with
  | file path => exact .inl rfl
  | args values => exact .inr rfl

theorem name_noColon (parameter : Parameter) : ':' ∉ parameter.name := by
  rcases name_cases parameter with same | same <;> rw [same] <;> decide

theorem name_oneLine (parameter : Parameter) : '\n' ∉ parameter.name := by
  rcases name_cases parameter with same | same <;> rw [same] <;> decide

/-- What `awk` cuts out of a word at its colons. -/
theorem field_word {n : Nat} (plain : Plain parameter.text) :
    field shell n parameter.word =
      ((parameter.name :: (collapse parameter.text).splitOn ':')[n - 1]?).getD
        [] := by
  have oneLine : '\n' ∉ parameter.name ++ ':' :: collapse parameter.text := by
    simp [name_oneLine, collapse_oneLine plain]
  rw [field, echo_word shell plain, substitution_awkField oneLine,
    List.splitOn_append_cons_self_of_not_mem (name_noColon parameter)]

/-- The first field is the name. -/
theorem field_name (plain : Plain parameter.text) :
    field shell 1 parameter.word = parameter.name := by
  rw [field_word shell plain]
  rfl

/-- The second field is the value up to its first colon. -/
theorem field_value (plain : Plain parameter.text) :
    field shell 2 parameter.word = received parameter.text := by
  rw [field_word shell plain]
  simp [getElem?_zero_splitOn, received]

/-! ## All words -/

/-- What the loop does for one parameter. -/
def Variables.take (vars : Variables) : Parameter → Variables
  | .file path => { vars with F := received path }
  | .args values => { vars with args := received values }

/-- A turn of the loop sets the variable of its parameter. -/
theorem loop_cons (plain : Plain parameter.text) (vars : Variables)
    (words : List Word) :
    loop shell vars (parameter.word :: words) =
      loop shell (vars.take parameter) words := by
  have nonempty : parameter.word ≠ [] := by
    simp [Parameter.word]
  rw [loop, if_neg nonempty]
  simp only [field_name shell plain, field_value shell plain]
  cases parameter <;> rfl

/-- The loop leaves the last parameter of each kind. -/
theorem loop_parameters {parameters : List Parameter}
    (plain : ∀ parameter ∈ parameters, Plain parameter.text)
    (vars : Variables) :
    loop shell vars (parameters.map Parameter.word) =
      some {
        F := ((lastPath parameters).map received).getD vars.F
        args := ((lastValues parameters).map received).getD vars.args } := by
  induction parameters generalizing vars with
  | nil => rfl
  | cons parameter parameters ih =>
      have following := ih (fun other member =>
        plain other (List.mem_cons_of_mem _ member)) (vars.take parameter)
      rw [List.map_cons, loop_cons shell (plain parameter List.mem_cons_self),
        following]
      cases parameter with
      | file path =>
          simp only [Variables.take, lastPath, lastValues]
          cases lastPath parameters <;> rfl
      | args values =>
          simp only [Variables.take, lastPath, lastValues]
          cases lastValues parameters <;> rfl

end

/-! ## What comes through -/

/-- What is received has no colon. -/
theorem colon_not_mem_received (text : Word) : ':' ∉ received text := by
  intro member
  have other := List.mem_takeWhile_imp member
  exact absurd other (by decide)

/-- Values without a colon are collapsed. -/
theorem received_of_noColon {text : Word} (noColon : ':' ∉ text) :
    received text = collapse text := by
  rw [received, List.takeWhile_eq_self_iff]
  intro char member
  rcases mem_of_mem_collapse member with rfl | inText
  · rfl
  · rw [bne_iff_ne]
    rintro rfl
    exact noColon inText

theorem mem_of_mem_received {text : Word} {char : Char}
    (member : char ∈ received text) :
    char = ' ' ∨ char ∈ text :=
  mem_of_mem_collapse ((List.takeWhile_prefix _).subset member)

/-- Values are received as they are if they have no colon and are collapsed. -/
theorem received_eq_self_iff {text : Word} :
    received text = text ↔ ':' ∉ text ∧ Collapsed text := by
  constructor
  · intro equal
    have noColon : ':' ∉ text := equal ▸ colon_not_mem_received text
    rw [received_of_noColon noColon] at equal
    exact ⟨noColon, collapse_eq_self_iff.mp equal⟩
  · rintro ⟨noColon, collapsed⟩
    rw [received_of_noColon noColon]
    exact collapse_eq_self_iff.mpr collapsed

/-- On one line the words between blanks are those of the shell. -/
theorem blankWords_eq_split {text : Word} (oneLine : '\n' ∉ text) :
    blankWords text = split text := by
  have same : ∀ char ∈ text,
      (char == ' ' || char == '\t') = isIfs char := by
    intro char member
    have noNewline : (char == '\n') = false := by
      rw [beq_eq_false_iff_ne]
      rintro rfl
      exact oneLine member
    rw [isIfs, noNewline, Bool.or_false]
  rw [blankWords, splitOnP_congr same, split]

/-- The words are received if none has a colon. -/
theorem split_received_iff {text : Word} :
    split (received text) = split text ↔ ':' ∉ text := by
  constructor
  · intro equal member
    have kept : ':' ∈ (split text).flatten := by
      rw [flatten_split]
      exact List.mem_filter.mpr ⟨member, rfl⟩
    rw [← equal, flatten_split] at kept
    exact colon_not_mem_received text (List.mem_filter.mp kept).1
  · intro noColon
    rw [received_of_noColon noColon, split_collapse]

/-- KLEE gets the words of what was received. -/
theorem kleeArguments_received {pathnames : Word → List Word}
    {vars : Variables} {values : Word} (plain : Plain values)
    (args : vars.args = received values) :
    kleeArguments pathnames vars = split (received values) := by
  rw [kleeArguments, args]
  apply unquoted_of_noGlob
  intro char member
  rcases mem_of_mem_received member with rfl | inText
  · rfl
  · exact plain.noGlob char inText

/-- The parameters that are looked for last are among the words. -/
theorem mem_of_lastPath {parameters : List Parameter} {path : Word}
    (found : lastPath parameters = some path) :
    .file path ∈ parameters := by
  induction parameters with
  | nil => contradiction
  | cons parameter parameters ih =>
      cases parameter with
      | file first =>
          rw [lastPath] at found
          cases behind : lastPath parameters with
          | none =>
              rw [behind] at found
              cases found
              exact List.mem_cons_self
          | some last =>
              rw [behind] at found
              cases found
              exact List.mem_cons_of_mem _ (ih behind)
      | args values => exact List.mem_cons_of_mem _ (ih found)

theorem mem_of_lastValues {parameters : List Parameter} {values : Word}
    (found : lastValues parameters = some values) :
    .args values ∈ parameters := by
  induction parameters with
  | nil => contradiction
  | cons parameter parameters ih =>
      cases parameter with
      | file path => exact List.mem_cons_of_mem _ (ih found)
      | args first =>
          rw [lastValues] at found
          cases behind : lastValues parameters with
          | none =>
              rw [behind] at found
              cases found
              exact List.mem_cons_self
          | some last =>
              rw [behind] at found
              cases found
              exact List.mem_cons_of_mem _ (ih behind)

/--
The path and the words of the arguments come through if and only if neither
has a colon and the blanks in the path are single spaces, none of them at its
end.
-/
theorem parameters_received_iff (shell : Shell)
    (pathnames : Word → List Word) (vars : Variables)
    {parameters : List Parameter} {path values : Word}
    (plain : ∀ parameter ∈ parameters, Plain parameter.text)
    (file : lastPath parameters = some path)
    (args : lastValues parameters = some values) :
    (∃ final,
      loop shell vars (parameters.map Parameter.word) = some final ∧
        final.F = path ∧
        kleeArguments pathnames final = blankWords values) ↔
      ':' ∉ path ∧ Collapsed path ∧ ':' ∉ values := by
  have plainValues : Plain values := plain _ (mem_of_lastValues args)
  rw [loop_parameters shell plain, file, args, ← and_assoc,
    ← received_eq_self_iff, ← split_received_iff,
    blankWords_eq_split plainValues.oneLine]
  constructor
  · rintro ⟨final, ended, sameFile, sameArgs⟩
    cases ended
    rw [kleeArguments_received plainValues rfl] at sameArgs
    exact ⟨sameFile, sameArgs⟩
  · rintro ⟨sameFile, sameArgs⟩
    refine ⟨_, rfl, sameFile, ?_⟩
    rw [kleeArguments_received plainValues rfl]
    exact sameArgs

theorem ne_nil_of_plain {text : Word} (plain : Plain text) : text ≠ [] := by
  rcases plain.nonblank with ⟨char, member, -⟩
  exact List.ne_nil_of_mem member

/-- Plain values have a word. -/
theorem blankWords_ne_nil {text : Word} (plain : Plain text) :
    blankWords text ≠ [] := by
  rcases plain.nonblank with ⟨char, member, notSpace, notTab⟩
  have visible : isIfs char = false := by
    have notNewline : char ≠ '\n' := by
      rintro rfl
      exact plain.oneLine member
    simp [isIfs, notSpace, notTab, notNewline]
  have kept : char ∈ (split text).flatten := by
    rw [flatten_split]
    exact List.mem_filter.mpr ⟨member, by rw [visible]; rfl⟩
  rw [blankWords_eq_split plain.oneLine]
  intro noWords
  rw [noWords] at kept
  exact List.not_mem_nil kept

/-- What comes through passes the check, so that the script goes on. -/
theorem checked_of_received {pathnames : Word → List Word}
    {parameters : List Parameter} {path values : Word} {final : Variables}
    (plain : ∀ parameter ∈ parameters, Plain parameter.text)
    (file : lastPath parameters = some path)
    (args : lastValues parameters = some values)
    (sameFile : final.F = path)
    (sameArgs : kleeArguments pathnames final = blankWords values) :
    checked final = some final := by
  have filled : final.F ≠ [] := by
    rw [sameFile]
    exact ne_nil_of_plain (plain _ (mem_of_lastPath file))
  have given : final.args ≠ [] := by
    intro noWords
    rw [kleeArguments, noWords] at sameArgs
    exact blankWords_ne_nil (plain _ (mem_of_lastValues args)) sameArgs.symm
  rw [checked, if_neg]
  simp [filled, given]

/-- A shell in an empty directory, for texts without escapes. -/
def plainShell : Shell := ⟨fun pattern => [pattern], id⟩

/-- The variables before the loop. -/
def unset : Variables := ⟨[], []⟩

/-- `--file:knockd.bc --args:"-i eth0"`. -/
theorem parameters_received_knockd :
    ∃ final,
      loop plainShell unset
          ([.file "knockd.bc".toList, .args "-i eth0".toList].map
            Parameter.word) = some final ∧
        final.F = "knockd.bc".toList ∧
        kleeArguments plainShell.pathnames final =
          blankWords "-i eth0".toList := by
  have plainFile : Plain "knockd.bc".toList :=
    ⟨⟨'k', by decide⟩, by decide, by simp [isGlob]⟩
  have plainArgs : Plain "-i eth0".toList :=
    ⟨⟨'i', by decide⟩, by decide, by simp [isGlob]⟩
  refine (parameters_received_iff plainShell plainShell.pathnames unset ?_ rfl
    rfl).mpr ⟨by decide, by simp [Collapsed, isIfs], by decide⟩
  intro parameter member
  simp only [List.mem_cons, List.not_mem_nil, or_false] at member
  rcases member with rfl | rfl
  · exact plainFile
  · exact plainArgs

/-- Of the address of a server only the scheme comes through, and of two
spaces in a path only one. -/
theorem parameters_cut :
    loop plainShell unset
        ["--file:a  b.bc".toList, "--args:https://google.com".toList] =
      some ⟨"a b.bc".toList, "https".toList⟩ ∧
    "a b.bc".toList ≠ "a  b.bc".toList ∧
    kleeArguments plainShell.pathnames
        ⟨"a b.bc".toList, "https".toList⟩ = ["https".toList] ∧
    blankWords "https://google.com".toList =
      ["https://google.com".toList] := by
  refine ⟨by decide +kernel, by decide, by decide +kernel, by decide +kernel⟩

end Lmcas.Parameters
