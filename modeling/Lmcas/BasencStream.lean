import Lmcas.Basenc
import Lmcas.Lib.Lines

/-!
# The loops of `basenc`

`wrap_write`, `do_encode` and `do_decode` of `basenc.c`, over the functions that
`main` chooses.  A call of `fread` returns less than it is asked for only at
the end of the file.
-/

namespace Lmcas.Basenc

open Lmcas.Lib.CString
open Lmcas.Lib.Decoding
open Lmcas.Lib.Lines

/-- `ENC_BLOCKSIZE` -/
def encBlocksize : Nat := 1024 * 3 * 10

/-- `DEC_BLOCKSIZE` -/
def decBlocksize : Nat := 1024 * 5

/-- The function pointers, and whether `ctx.i` is not 0. -/
structure Coding where
  State : Type
  baseLength : Nat → Nat
  isbase : Char → Bool
  /-- `none` if the process ends. -/
  encode : List UInt8 → Option Word
  decodeCtxInit : State
  decodeCtx : State → Word → Bool × State × List UInt8
  dangling : State → Bool
  positive : 0 < baseLength decBlocksize

/-- The only character that the decoders skip themselves. -/
def isNewline (c : Char) : Bool :=
  c = '\n'

/-- The function pointers for `--base16`. -/
def base16Coding : Coding where
  State := Base16Context
  baseLength len := len * 2
  isbase := isbase16
  encode input := some (base16Encode input)
  decodeCtxInit := ⟨0, false⟩
  decodeCtx ctx input :=
    if input.isEmpty then (!ctx.haveNibble, ctx, [])
    else feed (skipping isNewline base16Step) ctx input
  -- `ctx->i` stays 1
  dangling _ := true
  positive := by decide

/-- What the two forms of base 2 have in common. -/
def base2Coding (encode : List UInt8 → Word)
    (step : Base2Context → Char → Option (Base2Context × List UInt8)) :
    Coding where
  State := Base2Context
  baseLength len := len * 8
  isbase := isbase2
  encode input := some (encode input)
  decodeCtxInit := ⟨0, 0⟩
  decodeCtx ctx input :=
    if input.isEmpty then (ctx.i = 0, ctx, [])
    else feed (skipping isNewline step) ctx input
  dangling ctx := ctx.i ≠ 0
  positive := by decide

/-- The function pointers for `--base2msbf`. -/
def base2msbfCoding : Coding :=
  base2Coding base2msbfEncode base2msbfStep

/-- The function pointers for `--base2lsbf`. -/
def base2lsbfCoding : Coding :=
  base2Coding base2lsbfEncode base2lsbfStep

/-- `ctx->ctx.z85` and `ctx->i`. -/
structure Z85Context where
  octets : List Nat
  i : Nat
  none : i = 0 → octets = []

/-- The function pointers for `--z85`. -/
def z85Coding : Coding where
  State := Z85Context
  baseLength len := len * 5 / 4
  isbase := isz85
  encode := z85Encode
  decodeCtxInit := ⟨[], 1, fun _ => rfl⟩
  decodeCtx ctx input :=
    if input.isEmpty then (ctx.octets.isEmpty, ctx, [])
    else
      let (ok, octets, out) :=
        feed (skipping isNewline z85Step) ctx.octets input
      (ok, ⟨octets, octets.length, List.length_eq_zero_iff.mp⟩, out)
  dangling ctx := ctx.i ≠ 0
  positive := by decide

/-! ## Encoding -/

/-- The loop of `wrap_write`: what goes out, and the column. -/
def wrapLoop (wrapColumn : Nat) (_wraps : wrapColumn ≠ 0) (currentColumn : Nat)
    (buffer : Word) : Word × Nat :=
  if _more : buffer = [] then ([], currentColumn)
  else
    let toWrite := min (wrapColumn - currentColumn) buffer.length
    if _full : toWrite = 0 then
      let rest := wrapLoop wrapColumn _wraps 0 buffer
      ('\n' :: rest.1, rest.2)
    else
      let rest := wrapLoop wrapColumn _wraps (currentColumn + toWrite)
        (buffer.drop toWrite)
      (buffer.take toWrite ++ rest.1, rest.2)
termination_by (buffer.length, currentColumn)
decreasing_by
  · have length := List.length_pos_iff.mpr _more
    refine Prod.Lex.right _ ?_
    omega
  · refine Prod.Lex.left _ _ ?_
    rw [List.length_drop]
    omega

/-- `wrap_write`; a width of 0 stands for no rows. -/
def wrapWrite (wrapColumn currentColumn : Nat) (buffer : Word) : Word × Nat :=
  if wraps : wrapColumn = 0 then (buffer, currentColumn)
  else wrapLoop wrapColumn wraps currentColumn buffer

section

variable (coding : Coding)

/-- What goes out, the column, and whether the process goes on. -/
def encodeLoop (wrapColumn currentColumn : Nat) (input : List UInt8) :
    Word × Nat × Bool :=
  let inbuf := input.take encBlocksize
  if _empty : inbuf = [] then ([], currentColumn, true)
  else
    match coding.encode inbuf with
    | none => ([], currentColumn, false)
    | some outbuf =>
        let line := wrapWrite wrapColumn currentColumn
          (outbuf.take (coding.baseLength inbuf.length))
        if inbuf.length = encBlocksize then
          let rest :=
            encodeLoop wrapColumn line.2 (input.drop encBlocksize)
          (line.1 ++ rest.1, rest.2)
        else (line.1, line.2, true)
termination_by input.length
decreasing_by
  have positive := List.length_pos_iff.mpr _empty
  rw [List.length_take] at positive
  rw [List.length_drop]
  omega

/-- The output, and whether all of the input was encoded. -/
def doEncode (wrapColumn : Nat) (input : List UInt8) : Word × Bool :=
  let (out, column, ok) := encodeLoop coding wrapColumn 0 input
  if ok then
    (out ++ if wrapColumn ≠ 0 ∧ 0 < column then ['\n'] else [], true)
  else (out, false)

/-! ## Decoding -/

/-- The characters that `-i` leaves. -/
def keeps (c : Char) : Bool :=
  coding.isbase c || c = '='

/-- The loop that fills `inbuf`, and whether the end of the file is reached. -/
def fillInbuf (ignoreGarbage : Bool) (sum input : Word) :
    Word × Word × Bool :=
  let count := coding.baseLength decBlocksize - sum.length
  let read := input.take count
  let sum' :=
    sum ++ if ignoreGarbage then read.filter (keeps coding) else read
  let eof := input.length < count
  if _more : sum'.length < coding.baseLength decBlocksize ∧ ¬ eof then
    fillInbuf ignoreGarbage sum' (input.drop count)
  else (sum', input.drop count, eof)
termination_by input.length
decreasing_by
  have room := _more.1
  simp only [sum', List.length_append] at room
  rw [List.length_drop]
  omega

/-- The text that is decoded. -/
def kept (ignoreGarbage : Bool) (input : Word) : Word :=
  if ignoreGarbage then input.filter (keeps coding) else input

/-- A buffer that has been filled. -/
structure Filled (ignoreGarbage : Bool) (sum input : Word)
    (result : Word × Word × Bool) : Prop where
  text : sum ++ kept coding ignoreGarbage input =
    result.1 ++ kept coding ignoreGarbage result.2.1
  exhausted : result.2.2 = true → result.2.1 = []
  shorter : result.2.2 = false → result.2.1.length < input.length
  full : result.2.2 = false → result.1 ≠ []
  room : sum.length ≤ coding.baseLength decBlocksize →
    result.1.length ≤ coding.baseLength decBlocksize

variable {coding}

/-- What is kept of a text is kept of its pieces. -/
theorem kept_append (ignoreGarbage : Bool) (input input' : Word) :
    kept coding ignoreGarbage (input ++ input') =
      kept coding ignoreGarbage input ++ kept coding ignoreGarbage input' := by
  cases ignoreGarbage with
  | false => rfl
  | true => exact List.filter_append input input'

/-- Nothing is added to the text. -/
theorem length_kept_le (ignoreGarbage : Bool) (input : Word) :
    (kept coding ignoreGarbage input).length ≤ input.length := by
  cases ignoreGarbage with
  | false => exact le_rfl
  | true => exact List.length_filter_le _ input

/-- The inner loop reads until the buffer is full or the input at its end. -/
theorem fillInbuf_filled (ignoreGarbage : Bool) {sum : Word} (input : Word)
    (room : sum.length < coding.baseLength decBlocksize) :
    Filled coding ignoreGarbage sum input
      (fillInbuf coding ignoreGarbage sum input) := by
  induction count : input.length using Nat.strong_induction_on
    generalizing sum input with
  | _ _ inductionHypothesis =>
      have read : (if ignoreGarbage then
            (input.take (coding.baseLength decBlocksize - sum.length)).filter
              (keeps coding)
          else input.take (coding.baseLength decBlocksize - sum.length)) =
          kept coding ignoreGarbage
            (input.take (coding.baseLength decBlocksize - sum.length)) := rfl
      have few := @length_kept_le coding ignoreGarbage
        (input.take (coding.baseLength decBlocksize - sum.length))
      have everything : kept coding ignoreGarbage input = _ :=
        (congrArg (kept coding ignoreGarbage)
          (List.take_append_drop (coding.baseLength decBlocksize - sum.length)
            input).symm).trans (kept_append ignoreGarbage _ _)
      rw [List.length_take] at few
      rw [fillInbuf]
      simp only [read]
      split
      next more =>
        have fewer : (input.drop
            (coding.baseLength decBlocksize - sum.length)).length <
              input.length := by
          rw [List.length_drop]
          have notEof := more.2
          omega
        obtain ⟨text, exhausted, shorter, full, room'⟩ :=
          inductionHypothesis _ (count ▸ fewer) _ more.1 rfl
        refine ⟨?_, exhausted, fun notOver => (shorter notOver).trans fewer, full,
          fun _ => room' more.1.le⟩
        rw [everything, ← List.append_assoc, text]
      next done =>
        refine ⟨?_, fun exhausted => ?_, fun notOver => ?_, fun notOver => ?_,
          fun _ => ?_⟩
        · rw [everything, List.append_assoc]
        · have eof := of_decide_eq_true exhausted
          exact List.drop_of_length_le eof.le
        · have notEof := of_decide_eq_false notOver
          rw [List.length_drop]
          omega
        · have notEof := of_decide_eq_false notOver
          have enough := Nat.not_lt.mp fun short => done ⟨short, notEof⟩
          exact List.length_pos_iff.mp (Nat.lt_of_lt_of_le (by omega) enough)
        · rw [List.length_append]
          omega

end

/-- The calls of `fwrite`, and whether the input was valid. -/
def decodeLoop (coding : Coding) (ignoreGarbage : Bool) (ctx : coding.State)
    (input : Word) : List (List UInt8) × Bool :=
  let filled := fillInbuf coding ignoreGarbage [] input
  let (ok, ctx, outbuf) := coding.decodeCtx ctx filled.1
  if !ok then ([outbuf], false)
  else if _eof : filled.2.2 = true then
    if coding.dangling ctx then
      -- the additional call tells the decoder to flush
      let (ok, _, outbuf') := coding.decodeCtx ctx []
      ([outbuf, outbuf'], ok)
    else ([outbuf], true)
  else
    let (written, ok) := decodeLoop coding ignoreGarbage ctx filled.2.1
    (outbuf :: written, ok)
termination_by input.length
decreasing_by
  exact (@fillInbuf_filled coding ignoreGarbage [] input coding.positive).shorter
    (Bool.eq_false_iff.mpr _eof)

/-- `do_decode`: the octets of each write, and whether the text was accepted. -/
def doDecode (coding : Coding) (ignoreGarbage : Bool) (input : Word) :
    List (List UInt8) × Bool :=
  decodeLoop coding ignoreGarbage coding.decodeCtxInit input

/-! ## What a coding stands for -/

/-- A coding whose context is the state of a code, for text without newlines. -/
structure Streams {State : Type} (coding : Coding)
    (code : Code State Char UInt8) (inner : coding.State → State) : Prop where
  lawful : code.Lawful
  init : inner coding.decodeCtxInit = code.start
  flush : ∀ ctx, code.Valid (inner ctx) → coding.decodeCtx ctx [] =
    (decide (code.pending (inner ctx) = []), ctx, [])
  chunk : ∀ ctx text, text ≠ [] →
    ((coding.decodeCtx ctx text).1, inner (coding.decodeCtx ctx text).2.1,
        (coding.decodeCtx ctx text).2.2) =
      feed (skipping isNewline code.step) (inner ctx) text
  dangling : ∀ ctx, code.Valid (inner ctx) → coding.dangling ctx = false →
    code.pending (inner ctx) = []
  encode : ∀ input text, coding.encode input = some text ↔
    code.Whole input ∧ text = code.encode input
  length : ∀ {input}, code.Whole input →
    (code.encode input).length = coding.baseLength input.length
  block : ∀ {input}, input.length = encBlocksize → code.Whole input
  rest : ∀ {input input'}, code.Whole input → code.Whole (input ++ input') →
    code.Whole input'
  room : ∀ {state input}, code.Valid state → code.Whole input →
    (code.encode input).length ≤
      (code.pending state).length + coding.baseLength decBlocksize →
    input.length ≤ decBlocksize
  alphabet : ∀ {input}, code.Whole input → ∀ c ∈ code.encode input,
    isNewline c = false ∧ coding.isbase c = true

section

variable {State : Type} {coding : Coding} {code : Code State Char UInt8}
  {inner : coding.State → State}

/-- A text is decoded in one piece. -/
def decoded (code : Code State Char UInt8) (state : State) (text : Word) :
    Bool × State × List UInt8 :=
  feed (skipping isNewline code.step) state text

/-- What is written, and whether nothing is missing at the end. -/
def judged (code : Code State Char UInt8)
    (result : Bool × State × List UInt8) : List UInt8 × Bool :=
  (result.2.2, result.1 && decide (code.pending result.2.1 = []))

/-- Newlines do not count for the decoder. -/
theorem decoded_filter (state : State) (text : Word) :
    decoded code state text =
      feed code.step state (text.filter (!isNewline ·)) :=
  feed_skipping isNewline state text

/-- A context that was valid stays so. -/
theorem decoded_valid (lawful : code.Lawful) {state state' : State}
    (valid : code.Valid state) {text : Word} {octets : List UInt8}
    (result : decoded code state text = (true, state', octets)) :
    code.Valid state' := by
  rw [decoded_filter] at result
  exact (lawful.feeds valid result).valid

/-- What one buffer of text stands for fits in the other one. -/
theorem decoded_room (streams : Streams coding code inner) {state : State}
    (valid : code.Valid state) {text : Word}
    (fits : text.length ≤ coding.baseLength decBlocksize) :
    (decoded code state text).2.2.length ≤ decBlocksize := by
  rw [decoded_filter]
  obtain ⟨taken, isPrefix, fed⟩ :=
    exists_feed code.step state (text.filter (!isNewline ·))
  generalize (feed code.step state (text.filter (!isNewline ·))).2 = result
    at fed
  obtain ⟨state', octets⟩ := result
  have fed' := streams.lawful.feeds valid fed
  show octets.length ≤ decBlocksize
  refine streams.room valid fed'.whole ?_
  have count := congrArg List.length fed'.text
  have few := isPrefix.length_le
  have fewer := List.length_filter_le (!isNewline ·) text
  simp only [List.length_append] at count
  omega

/-- Nothing is kept of nothing. -/
theorem kept_nil (ignoreGarbage : Bool) : kept coding ignoreGarbage [] = [] := by
  cases ignoreGarbage <;> rfl

/-- The end of the file, behind a valid piece. -/
theorem flushes (streams : Streams coding code inner) {ctx : coding.State}
    (valid : code.Valid (inner ctx)) (outbuf : List UInt8) :
    (if coding.dangling ctx then
        ([outbuf, (coding.decodeCtx ctx []).2.2], (coding.decodeCtx ctx []).1)
      else ([outbuf], true)) =
      (outbuf :: if coding.dangling ctx then [[]] else [],
        decide (code.pending (inner ctx) = [])) := by
  rw [streams.flush ctx valid]
  cases isDangling : coding.dangling ctx with
  | true => rfl
  | false =>
      rw [decide_eq_true (streams.dangling ctx valid isDangling)]
      rfl

/-- One turn of the loop. -/
theorem decodeLoop_turn {ignoreGarbage : Bool} {ctx ctx' : coding.State}
    {input inbuf rest : Word} {eof ok : Bool} {outbuf : List UInt8}
    (filled : fillInbuf coding ignoreGarbage [] input = (inbuf, rest, eof))
    (call : coding.decodeCtx ctx inbuf = (ok, ctx', outbuf)) :
    decodeLoop coding ignoreGarbage ctx input =
      if ok = false then ([outbuf], false)
      else if eof = true then
        if coding.dangling ctx' then
          ([outbuf, (coding.decodeCtx ctx' []).2.2],
            (coding.decodeCtx ctx' []).1)
        else ([outbuf], true)
      else
        (outbuf :: (decodeLoop coding ignoreGarbage ctx' rest).1,
          (decodeLoop coding ignoreGarbage ctx' rest).2) := by
  have call' : coding.decodeCtx ctx
      (fillInbuf coding ignoreGarbage [] input).1 = (ok, ctx', outbuf) := by
    rw [filled]
    exact call
  rw [decodeLoop, call', filled]
  cases ok <;> cases eof <;> rfl

/-- The calls of `fwrite` are the pieces of what is decoded, and none of them
is larger than `outbuf`. -/
structure Decodes (code : Code State Char UInt8) (state : State) (text : Word)
    (result : List (List UInt8) × Bool) : Prop where
  judged : (result.1.flatten, result.2) = judged code (decoded code state text)
  room : ∀ outbuf ∈ result.1, outbuf.length ≤ decBlocksize

/-- Where the buffers end makes no difference. -/
theorem decodeLoop_decodes (streams : Streams coding code inner)
    (ignoreGarbage : Bool) {ctx : coding.State}
    (valid : code.Valid (inner ctx)) (input : Word) :
    Decodes code (inner ctx) (kept coding ignoreGarbage input)
      (decodeLoop coding ignoreGarbage ctx input) := by
  induction count : input.length using Nat.strong_induction_on
    generalizing ctx input with
  | _ _ inductionHypothesis =>
      have isFilled :=
        @fillInbuf_filled coding ignoreGarbage [] input coding.positive
      cases filled : fillInbuf coding ignoreGarbage [] input with
      | mk inbuf result =>
          obtain ⟨rest, eof⟩ := result
          rw [filled] at isFilled
          obtain ⟨text, exhausted, shorter, full, fits⟩ := isFilled
          dsimp only at text exhausted shorter full fits
          rw [List.nil_append] at text
          have room := decoded_room streams valid (fits (Nat.zero_le _))
          rw [text]
          by_cases nothing : inbuf = []
          · subst nothing
            have isOver : eof = true := by
              by_contra notOver
              exact full (Bool.eq_false_iff.mpr notOver) rfl
            obtain rfl := exhausted isOver
            rw [decodeLoop_turn filled (streams.flush ctx valid), isOver,
              flushes streams valid, kept_nil]
            have same : judged code (decoded code (inner ctx) ([] ++ [])) =
                ([], decide (code.pending (inner ctx) = [])) := rfl
            constructor
            · rw [same]
              cases decide (code.pending (inner ctx) = []) with
              | false => rfl
              | true => cases coding.dangling ctx <;> rfl
            · intro outbuf inside
              obtain rfl : outbuf = [] := by
                split at inside
                · exact List.mem_singleton.mp inside
                · cases isDangling : coding.dangling ctx <;>
                    simpa [isDangling] using inside
              exact Nat.zero_le _
          · have chunk := streams.chunk ctx inbuf nothing
            cases call : coding.decodeCtx ctx inbuf with
            | mk ok result =>
                obtain ⟨ctx', outbuf⟩ := result
                rw [call] at chunk
                have fed : decoded code (inner ctx) inbuf =
                    (ok, inner ctx', outbuf) := chunk.symm
                rw [fed] at room
                rw [decodeLoop_turn filled call]
                cases ok with
                | false =>
                    constructor
                    · have failed : (decoded code (inner ctx) inbuf).1 =
                          false := by
                        rw [fed]
                      rw [decoded, feed_append_of_not_ok failed, ← decoded, fed]
                      simp [judged]
                    · simpa using room
                | true =>
                    have valid' := decoded_valid streams.lawful valid fed
                    cases eof with
                    | true =>
                        obtain rfl := exhausted rfl
                        rw [flushes streams valid', kept_nil, List.append_nil]
                        constructor
                        · rw [fed]
                          cases coding.dangling ctx' <;> simp [judged]
                        · cases coding.dangling ctx' <;> simpa using room
                    | false =>
                        obtain ⟨later, small⟩ := inductionHypothesis _
                          (count ▸ shorter rfl) valid' rest rfl
                        obtain ⟨written, isOk⟩ := Prod.mk.inj later
                        constructor
                        · rw [decoded, feed_append_of_ok fed]
                          simp only [Bool.true_eq_false, Bool.false_eq_true,
                            if_false, List.flatten_cons, written, isOk]
                          rfl
                        · simpa using ⟨room, small⟩

end

end Lmcas.Basenc
