import Lmcas.BasencStream

/-!
# Round trips through `basenc`

The encodings of `basenc.c` itself, for whole runs of `do_encode` and
`do_decode`: where the blocks, the buffers and the rows end makes no difference.
-/

namespace Lmcas.Basenc

open Lmcas.Lib.CString
open Lmcas.Lib.Decoding
open Lmcas.Lib.Lines

/-! ## Rows -/

/-- Rows of one length; the last one may be shorter. -/
structure Wrapped (width : Nat) (text : Word) (rows : List Word) : Prop where
  text : rows.flatten = text
  full : ∀ row ∈ rows.dropLast, row.length = width
  fits : ∀ row ∈ rows, row ≠ [] ∧ row.length ≤ width

/-- The rows that are finished except for the newline, and the last one. -/
structure Wrapping (width : Nat) (text out : Word) (column : Nat)
    (rows : List Word) (row : Word) : Prop where
  text : text = rows.flatten ++ row
  out : out = written '\n' rows ++ row
  column : column = row.length
  full : ∀ row ∈ rows, row.length = width
  fits : row.length ≤ width

/-- A full row is ended and an empty one begun. -/
theorem Wrapping.nextRow {width : Nat} {text out : Word} {column : Nat}
    {rows : List Word} {row : Word}
    (wrapping : Wrapping width text out column rows row)
    (isWidth : row.length = width) :
    Wrapping width text (out ++ ['\n']) 0 (rows ++ [row]) [] where
  text := by
    rw [wrapping.text, List.flatten_append, List.flatten_singleton,
      List.append_nil]
  out := by
    rw [wrapping.out]
    simp [written]
  column := rfl
  full := by
    intro row' inside
    rcases List.mem_append.mp inside with inside | inside
    · exact wrapping.full row' inside
    · rw [List.mem_singleton.mp inside, isWidth]
  fits := Nat.zero_le _

/-- What still fits goes to the end of the row. -/
theorem Wrapping.more {width : Nat} {text out : Word} {column : Nat}
    {rows : List Word} {row : Word}
    (wrapping : Wrapping width text out column rows row) {piece : Word}
    (room : row.length + piece.length ≤ width) :
    Wrapping width (text ++ piece) (out ++ piece) (column + piece.length) rows
      (row ++ piece) where
  text := by rw [wrapping.text, List.append_assoc]
  out := by rw [wrapping.out, List.append_assoc]
  column := by rw [wrapping.column, List.length_append]
  full := wrapping.full
  fits := by rwa [List.length_append]

/-- The loop keeps the rows; the last one is empty only before any text. -/
theorem wrapLoop_wraps {width : Nat} (wraps : width ≠ 0) {text out : Word}
    {column : Nat} {rows : List Word} {row : Word}
    (wrapping : Wrapping width text out column rows row) (buffer : Word) :
    ∃ rows' row', Wrapping width (text ++ buffer)
        (out ++ (wrapLoop width wraps column buffer).1)
        (wrapLoop width wraps column buffer).2 rows' row' ∧
      (row' = [] → row = [] ∧ buffer = []) := by
  fun_induction wrapLoop width wraps column buffer generalizing text out rows row
    with
  | case1 column =>
      exact ⟨rows, row, by simpa using wrapping, fun nothing => ⟨nothing, rfl⟩⟩
  | case2 column buffer more toWrite isFull =>
      rename_i rest inductionHypothesis
      have positive := List.length_pos_iff.mpr more
      have isWidth : row.length = width := by
        have isColumn := wrapping.column
        have fits := wrapping.fits
        omega
      obtain ⟨rows', row', wrapping', begun⟩ :=
        inductionHypothesis (wrapping.nextRow isWidth)
      refine ⟨rows', row', ?_, fun nothing => absurd (begun nothing).2 more⟩
      simpa using wrapping'
  | case3 column buffer more toWrite notFull =>
      rename_i rest inductionHypothesis
      have fits : (buffer.take toWrite).length = toWrite :=
        List.length_take_of_le (Nat.min_le_right _ _)
      have room : row.length + toWrite ≤ width := by
        have isColumn := wrapping.column
        have fits := wrapping.fits
        omega
      obtain ⟨rows', row', wrapping', begun⟩ :=
        inductionHypothesis (fits ▸ wrapping.more (fits ▸ room))
      refine ⟨rows', row', ?_, fun nothing => ?_⟩
      · simpa using wrapping'
      · have begun := congrArg List.length (begun nothing).1
        rw [List.length_append, fits, List.length_nil] at begun
        omega

section

variable {State : Type} {coding : Coding} {code : Code State Char UInt8}
  {inner : coding.State → State}

/-- The encoder takes every input that is whole for the code. -/
theorem encode_of_whole (streams : Streams coding code inner)
    {input : List UInt8} (whole : code.Whole input) :
    coding.encode input = some (code.encode input) :=
  (streams.encode input _).mpr ⟨whole, rfl⟩

/-- A full block is whole, so that the input is whole if the rest of it is. -/
theorem whole_drop_iff (streams : Streams coding code inner)
    {input : List UInt8} (full : (input.take encBlocksize).length = encBlocksize) :
    code.Whole (input.drop encBlocksize) ↔ code.Whole input := by
  have block := streams.block full
  constructor
  · intro rest
    have both := streams.lawful.whole_append block rest
    rwa [List.take_append_drop] at both
  · intro whole
    refine streams.rest block ?_
    rwa [List.take_append_drop]

/-- A block that is not full is the last one. -/
theorem take_of_short {input : List UInt8}
    (short : (input.take encBlocksize).length ≠ encBlocksize) :
    input.take encBlocksize = input := by
  rw [List.length_take] at short
  exact List.take_of_length_le (by omega)

theorem take_eq_nil {input : List UInt8}
    (nothing : input.take encBlocksize = []) : input = [] :=
  (List.take_eq_nil_iff.mp nothing).resolve_left (by decide)

/-- The blocks of an input are all taken just if the input is whole. -/
theorem encodeLoop_ok_iff (streams : Streams coding code inner)
    (width column : Nat) (input : List UInt8) :
    (encodeLoop coding width column input).2.2 = true ↔ code.Whole input := by
  fun_induction encodeLoop coding width column input with
  | case1 column input inbuf none =>
      have whole := streams.lawful.whole_nil
      rw [← take_eq_nil none] at whole
      exact iff_of_true rfl whole
  | case2 column input inbuf some invalid =>
      refine iff_of_false Bool.false_ne_true fun whole => ?_
      by_cases full : inbuf.length = encBlocksize
      · cases invalid.symm.trans (encode_of_whole streams (streams.block full))
      · have everything : inbuf = input := take_of_short full
        rw [← everything] at whole
        cases invalid.symm.trans (encode_of_whole streams whole)
  | case3 column input inbuf some outbuf valid line full =>
      rename_i inductionHypothesis
      exact inductionHypothesis.trans (whole_drop_iff streams full)
  | case4 column input inbuf some outbuf valid line short =>
      have whole := ((streams.encode inbuf outbuf).mp valid).1
      have everything : inbuf = input := take_of_short short
      rw [everything] at whole
      exact iff_of_true rfl whole

/-- What `wrap_write` keeps of the text so far, the blocks keep. -/
theorem encodeLoop_keeps (streams : Streams coding code inner) {width : Nat}
    {Kept : Word → Word → Nat → Prop}
    (writes : ∀ {text out column} (buffer : Word), Kept text out column →
      Kept (text ++ buffer) (out ++ (wrapWrite width column buffer).1)
        (wrapWrite width column buffer).2)
    {text out : Word} {column : Nat} (isKept : Kept text out column)
    {input : List UInt8} (whole : code.Whole input) :
    Kept (text ++ code.encode input)
      (out ++ (encodeLoop coding width column input).1)
      (encodeLoop coding width column input).2.1 := by
  fun_induction encodeLoop coding width column input generalizing text out with
  | case1 column input inbuf =>
      rename_i nothing
      rw [take_eq_nil nothing, streams.lawful.encode_nil, List.append_nil,
        List.append_nil]
      exact isKept
  | case2 column input inbuf some =>
      rename_i invalid
      have ok := (encodeLoop_ok_iff streams width column input).mpr whole
      rw [encodeLoop] at ok
      simp [inbuf, some, invalid] at ok
  | case3 column input inbuf some outbuf valid line full =>
      rename_i inductionHypothesis
      obtain ⟨wholeBlock, isBlock⟩ := (streams.encode inbuf outbuf).mp valid
      have wholeRest := (whole_drop_iff streams full).mpr whole
      have everything : outbuf.take (coding.baseLength inbuf.length) =
          code.encode inbuf := by
        rw [isBlock, ← streams.length wholeBlock, List.take_length]
      have both : code.encode input =
          code.encode inbuf ++ code.encode (input.drop encBlocksize) := by
        rw [← streams.lawful.encode_append wholeBlock wholeRest,
          List.take_append_drop]
      have later := inductionHypothesis (writes _ isKept) wholeRest
      rw [both, ← everything, ← List.append_assoc, ← List.append_assoc]
      exact later
  | case4 column input inbuf some outbuf valid =>
      rename_i line short
      obtain ⟨wholeBlock, isBlock⟩ := (streams.encode inbuf outbuf).mp valid
      have everything : outbuf.take (coding.baseLength inbuf.length) =
          code.encode inbuf := by
        rw [isBlock, ← streams.length wholeBlock, List.take_length]
      have same : inbuf = input := take_of_short short
      rw [← same, ← everything]
      exact writes _ isKept

/-- Without `--wrap` the blocks come out as one encoding. -/
theorem doEncode_plain (streams : Streams coding code inner)
    {input : List UInt8} (whole : code.Whole input) :
    doEncode coding 0 input = (code.encode input, true) := by
  have ok := (encodeLoop_ok_iff streams 0 0 input).mpr whole
  have same := @encodeLoop_keeps _ _ _ _ streams 0
    (fun text out column => out = text ∧ column = 0)
    (fun buffer isKept => ⟨congrArg (· ++ buffer) isKept.1, isKept.2⟩)
    [] [] 0 ⟨rfl, rfl⟩ input whole
  rw [doEncode]
  cases loop : encodeLoop coding 0 0 input with
  | mk out result =>
      obtain ⟨column, isOk⟩ := result
      rw [loop] at ok same
      obtain rfl : isOk = true := ok
      obtain rfl : out = code.encode input := same.1
      simp

/-- The last row has begun if anything has been written. -/
def Wraps (width : Nat) (text out : Word) (column : Nat) : Prop :=
  ∃ rows row, Wrapping width text out column rows row ∧ (row = [] → text = [])

/-- Each block that is written goes on with the rows. -/
theorem wrapWrite_wraps {width : Nat} (wraps : width ≠ 0) {text out : Word}
    {column : Nat} (buffer : Word) (isKept : Wraps width text out column) :
    Wraps width (text ++ buffer) (out ++ (wrapWrite width column buffer).1)
      (wrapWrite width column buffer).2 := by
  obtain ⟨rows, row, wrapping, begun⟩ := isKept
  obtain ⟨rows', row', wrapping', begun'⟩ := wrapLoop_wraps wraps wrapping buffer
  rw [wrapWrite, dif_neg wraps]
  refine ⟨rows', row', wrapping', fun nothing => ?_⟩
  obtain ⟨isNil, rfl⟩ := begun' nothing
  rw [begun isNil, List.append_nil]

/-- The rows that the newline at the end finishes. -/
theorem Wraps.exists_rows {width : Nat} (wraps : width ≠ 0) {text out : Word}
    {column : Nat} (isKept : Wraps width text out column) :
    ∃ rows, Wrapped width text rows ∧
      out ++ (if 0 < column then ['\n'] else []) = written '\n' rows := by
  obtain ⟨rows, row, wrapping, begun⟩ := isKept
  have long : ∀ row ∈ rows, row ≠ [] := by
    rintro row inside rfl
    exact wraps (wrapping.full [] inside).symm
  by_cases rowEmpty : row = []
  · subst rowEmpty
    have flat : rows.flatten = [] := by
      have text := wrapping.text
      rw [begun rfl, List.append_nil] at text
      exact text.symm
    have noRows : rows = [] := by
      cases rows with
      | nil => rfl
      | cons row rows =>
          exact absurd (List.flatten_eq_nil_iff.mp flat row List.mem_cons_self)
            (long row List.mem_cons_self)
    subst noRows
    have isColumn : column = 0 := wrapping.column
    refine ⟨[], ⟨(begun rfl).symm, nofun, nofun⟩, ?_⟩
    rw [wrapping.out, isColumn]
    rfl
  · have isColumn : 0 < column := by
      rw [wrapping.column]
      exact List.length_pos_iff.mpr rowEmpty
    refine ⟨rows ++ [row], ⟨?_, ?_, fun row' inside => ?_⟩, ?_⟩
    · rw [wrapping.text, List.flatten_append, List.flatten_singleton]
    · rw [List.dropLast_concat]
      exact wrapping.full
    · rcases List.mem_append.mp inside with inside | inside
      · exact ⟨long row' inside, (wrapping.full row' inside).le⟩
      · rw [List.mem_singleton.mp inside]
        exact ⟨rowEmpty, wrapping.fits⟩
    · rw [wrapping.out, if_pos isColumn]
      simp [written]

/-- With `--wrap` the rows hold the encoding, all full but the last. -/
theorem doEncode_wrapped (streams : Streams coding code inner) {width : Nat}
    (wraps : width ≠ 0) {input : List UInt8} (whole : code.Whole input) :
    ∃ rows, Wrapped width (code.encode input) rows ∧
      doEncode coding width input = (written '\n' rows, true) := by
  have ok := (encodeLoop_ok_iff streams width 0 input).mpr whole
  have same := @encodeLoop_keeps _ _ _ _ streams width (Wraps width)
    (fun buffer isKept => wrapWrite_wraps wraps buffer isKept)
    [] [] 0 ⟨[], [], ⟨rfl, rfl, rfl, nofun, Nat.zero_le _⟩, fun _ => rfl⟩
    input whole
  obtain ⟨rows, wrapped, out⟩ := same.exists_rows wraps
  refine ⟨rows, wrapped, ?_⟩
  rw [← out, doEncode]
  cases loop : encodeLoop coding width 0 input with
  | mk out result =>
      obtain ⟨column, isOk⟩ := result
      rw [loop] at ok
      obtain rfl : isOk = true := ok
      simp [wraps]

/-- The encoder succeeds on the whole inputs, with `--wrap` or without. -/
theorem doEncode_ok_iff (streams : Streams coding code inner) (width : Nat)
    (input : List UInt8) :
    (doEncode coding width input).2 = true ↔ code.Whole input := by
  rw [← encodeLoop_ok_iff streams width 0 input, doEncode]
  cases loop : encodeLoop coding width 0 input with
  | mk out result =>
      obtain ⟨column, isOk⟩ := result
      cases isOk <;> simp

/-- The decoder gives some data and succeeds just if the text it keeps is the
encoding of that data, up to newlines. -/
theorem doDecode_iff (streams : Streams coding code inner)
    (ignoreGarbage : Bool) (input : Word) (data : List UInt8) :
    ((doDecode coding ignoreGarbage input).1.flatten = data ∧
        (doDecode coding ignoreGarbage input).2 = true) ↔
      code.Whole data ∧
        (kept coding ignoreGarbage input).filter (!isNewline ·) =
          code.encode data := by
  have valid : code.Valid (inner coding.decodeCtxInit) := by
    rw [streams.init]
    exact streams.lawful.valid_start
  have decodes := (decodeLoop_decodes streams ignoreGarbage valid input).judged
  rw [streams.init, decoded_filter] at decodes
  obtain ⟨flat, ok⟩ := Prod.mk.inj decodes
  rw [← streams.lawful.decode_iff, doDecode, flat, ok]
  generalize feed code.step code.start
    ((kept coding ignoreGarbage input).filter (!isNewline ·)) = result
  obtain ⟨isOk, state, octets⟩ := result
  rw [Bool.and_eq_true, decide_eq_true_iff]
  constructor
  · rintro ⟨rfl, rfl, nonePending⟩
    exact ⟨state, rfl, nonePending⟩
  · rintro ⟨state', same, nonePending⟩
    cases same
    exact ⟨rfl, rfl, nonePending⟩

/-- Taking the newlines out undoes the rows. -/
theorem filter_written {rows : List Word} {text : Word}
    (flat : rows.flatten = text) (clean : ∀ c ∈ text, isNewline c = false) :
    (written '\n' rows).filter (!isNewline ·) = text := by
  subst flat
  induction rows with
  | nil => rfl
  | cons row rows inductionHypothesis =>
      have first : row.filter (!isNewline ·) = row :=
        List.filter_eq_self.mpr fun c inside => by
          rw [clean c (List.mem_append_left _ inside)]
          rfl
      have later := inductionHypothesis fun c inside =>
        clean c (List.mem_append_right _ inside)
      rw [written] at later
      rw [written, List.map_cons, List.flatten_cons, List.filter_append, later,
        List.filter_append, first, List.flatten_cons]
      simp [isNewline]

/-- Apart from the newlines, the encoded data are written. -/
theorem doEncode_filter (streams : Streams coding code inner) (width : Nat)
    {input : List UInt8} (whole : code.Whole input) :
    (doEncode coding width input).1.filter (!isNewline ·) =
      code.encode input := by
  have clean c inside := (streams.alphabet whole c inside).1
  by_cases wraps : width = 0
  · rw [wraps, doEncode_plain streams whole]
    refine List.filter_eq_self.mpr fun c inside => ?_
    rw [clean c inside]
    rfl
  · obtain ⟨rows, wrapped, out⟩ := doEncode_wrapped streams wraps whole
    rw [out]
    exact filter_written wrapped.text clean

/-- Text of the alphabet is kept. -/
theorem filter_kept {text text' : Word}
    (alphabet : ∀ c ∈ text', coding.isbase c = true) (ignoreGarbage : Bool)
    (filtered : text.filter (!isNewline ·) = text') :
    (kept coding ignoreGarbage text).filter (!isNewline ·) = text' := by
  cases ignoreGarbage with
  | false => exact filtered
  | true =>
      show (text.filter (keeps coding)).filter (!isNewline ·) = text'
      rw [List.filter_comm, filtered]
      refine List.filter_eq_self.mpr fun c inside => ?_
      rw [keeps, alphabet c inside]
      rfl

end

/-! ## The encodings -/

/-- An encoding by octets has a fixed length for each of them. -/
theorem length_flatMap_octet {encodes : UInt8 → Word} {n : Nat}
    (same : ∀ c, (encodes c).length = n) (input : List UInt8) :
    (input.flatMap encodes).length = input.length * n := by
  rw [List.length_flatMap, List.map_congr_left fun c _ => same c,
    List.map_const', List.sum_replicate, nsmul_eq_mul, Nat.cast_id]

/-- `do_decode` hands base 16 the text in pieces as the code expects them. -/
theorem base16_streams : Streams base16Coding base16Code id where
  lawful := base16Code_lawful
  init := rfl
  flush ctx _ := by
    obtain ⟨nibble, haveNibble⟩ := ctx
    cases haveNibble <;> rfl
  chunk ctx text some := by
    cases text with
    | nil => exact absurd rfl some
    | cons c text => rfl
  dangling _ _ settled := nomatch settled
  encode _ _ := ⟨fun same => ⟨trivial, (Option.some.inj same).symm⟩,
    fun both => congrArg some both.2.symm⟩
  length {input} _ :=
    @length_flatMap_octet base16Octet 2 (fun _ => rfl) input
  block _ := trivial
  rest _ _ := trivial
  room {state input} _ _ few := by
    have length := @length_flatMap_octet base16Octet 2 (fun _ => rfl) input
    have held : (base16Code.pending state).length ≤ 1 := by
      show (if state.haveNibble then [base16 state.nibble] else []).length ≤ 1
      split <;> simp
    have few : (input.flatMap base16Octet).length ≤
      (base16Code.pending state).length + decBlocksize * 2 := few
    omega
  alphabet _ c inside := by
    obtain ⟨octet, -, inside⟩ := List.mem_flatMap.mp inside
    have onOctets := forall_octet (P := fun octet => (base16Octet octet).all
      (fun c => !isNewline c && isbase16 c) = true) (by decide +kernel) octet
    have both : isNewline c = false ∧ isbase16 c = true := by
      simpa using List.all_eq_true.mp onOctets c inside
    exact both

/-- The same for both forms of base 2, which differ only in their code. -/
theorem base2_streams {bits : UInt8 → Word}
    {code : Code Base2Context Char UInt8} (lawful : code.Lawful)
    (start : code.start = ⟨0, 0⟩)
    (encode : ∀ input, code.encode input = input.flatMap bits)
    (whole : ∀ input, code.Whole input)
    (settled : ∀ {ctx}, code.Valid ctx → (ctx.i = 0 ↔ code.pending ctx = []))
    (held : ∀ {ctx}, code.Valid ctx → (code.pending ctx).length < 8)
    (length : ∀ c, (bits c).length = 8)
    (alphabet : ∀ octet,
      (bits octet).all (fun c => !isNewline c && isbase2 c) = true) :
    Streams (base2Coding (·.flatMap bits) code.step) code id where
  lawful := lawful
  init := start.symm
  flush ctx valid :=
    congrArg (fun ok => (ok, ctx, [])) (decide_eq_decide.mpr (settled valid))
  chunk ctx text some := by
    cases text with
    | nil => exact absurd rfl some
    | cons c text => rfl
  dangling ctx valid isSettled :=
    (settled valid).mp (not_not.mp (of_decide_eq_false isSettled))
  encode input _ := ⟨fun same => ⟨whole input, by
      rw [encode]
      exact (Option.some.inj same).symm⟩, fun both => by
    rw [both.2, encode]
    rfl⟩
  length {input} _ := by
    rw [encode]
    exact length_flatMap_octet length input
  block _ := whole _
  rest _ _ := whole _
  room {state input} valid _ few := by
    have length := length_flatMap_octet length input
    have held := held valid
    rw [encode] at few
    have few : (input.flatMap bits).length ≤
      (code.pending state).length + decBlocksize * 8 := few
    omega
  alphabet {input} _ c inside := by
    rw [encode] at inside
    obtain ⟨octet, -, inside⟩ := List.mem_flatMap.mp inside
    have both : isNewline c = false ∧ isbase2 c = true := by
      simpa using List.all_eq_true.mp (alphabet octet) c inside
    exact both

/-- The most significant bit first. -/
theorem base2msbf_streams : Streams base2msbfCoding base2msbfCode id := by
  have count {ctx : Base2Context} :
      (base2msbfCode.pending ctx).length = 8 - ctx.place := by
    simp [base2msbfCode]
  have place {ctx : Base2Context} (valid : base2msbfCode.Valid ctx) :
      0 < ctx.place ∧ (ctx.i = 0 ↔ 8 - ctx.place = 0) := by
    have inside : ctx.i < 8 := valid.1
    unfold Base2Context.place
    split <;> omega
  refine base2_streams base2msbfCode_lawful rfl (fun _ => rfl) (fun _ => trivial)
    (fun valid => ?_) (fun valid => ?_) (fun _ => rfl) (fun octet => ?_)
  · rw [(place valid).2, ← count, List.length_eq_zero_iff]
  · have positive := (place valid).1
    rw [count]
    omega
  · exact forall_octet (P := fun octet => (base2msbfBits 8 octet).all
      (fun c => !isNewline c && isbase2 c) = true) (by decide +kernel) octet

/-- The least significant bit first. -/
theorem base2lsbf_streams : Streams base2lsbfCoding base2lsbfCode id := by
  have count {ctx : Base2Context} :
      (base2lsbfCode.pending ctx).length = ctx.i := by
    simp [base2lsbfCode]
  refine base2_streams base2lsbfCode_lawful rfl (fun _ => rfl) (fun _ => trivial)
    (fun _ => ?_) (fun valid => ?_) (fun _ => rfl) (fun octet => ?_)
  · rw [← count, List.length_eq_zero_iff]
  · rw [count]
    exact valid.1
  · exact forall_octet (P := fun octet => (base2lsbfBits 8 octet).all
      (fun c => !isNewline c && isbase2 c) = true) (by decide +kernel) octet

/-- For z85 an input is whole if it is made of groups of four octets. -/
theorem whole_z85Code (input : List UInt8) :
    z85Code.Whole input ↔ input.length % 4 = 0 :=
  isSome_z85Encode input

/-- Four octets become five digits. -/
theorem length_z85Encode {input : List UInt8} {text : Word}
    (isText : z85Encode input = some text) :
    text.length * 4 = input.length * 5 := by
  induction input using z85Encode.induct generalizing text with
  | case1 =>
      cases isText
      rfl
  | case2 quad₀ quad₁ quad₂ quad₃ input inductionHypothesis =>
      obtain ⟨rest, isRest, rfl⟩ := Option.map_eq_some_iff.mp isText
      have later := inductionHypothesis isRest
      have five : (z85Digits 5 (z85Val quad₀ quad₁ quad₂ quad₃) []).length = 5 :=
        rfl
      simp only [List.length_append, List.length_cons, five]
      omega
  | case3 input notNil notQuad =>
      rw [z85Encode] at isText
      · cases isText
      · exact notNil
      · exact notQuad

/-- The digits of a group are digits of the alphabet. -/
theorem mem_z85Digits {j val : Nat} {out : Word} {c : Char}
    (inside : c ∈ z85Digits j val out) :
    c ∈ out ∨ ∃ value < 85, c = z85Encoding.getD value '0' := by
  induction j generalizing val out with
  | zero => exact .inl inside
  | succ j inductionHypothesis =>
      rcases inductionHypothesis inside with inside | digit
      · rcases List.mem_cons.mp inside with same | inside
        · exact .inr ⟨val % 85, Nat.mod_lt val (by decide), same⟩
        · exact .inl inside
      · exact .inr digit

/-- An encoding has digits of the alphabet only. -/
theorem mem_z85Encode {input : List UInt8} {text : Word}
    (isText : z85Encode input = some text) {c : Char} (inside : c ∈ text) :
    ∃ value < 85, c = z85Encoding.getD value '0' := by
  induction input using z85Encode.induct generalizing text with
  | case1 =>
      cases isText
      cases inside
  | case2 quad₀ quad₁ quad₂ quad₃ input inductionHypothesis =>
      obtain ⟨rest, isRest, rfl⟩ := Option.map_eq_some_iff.mp isText
      rcases List.mem_append.mp inside with inside | inside
      · exact (mem_z85Digits inside).resolve_left List.not_mem_nil
      · exact inductionHypothesis isRest inside
  | case3 input notNil notQuad =>
      rw [z85Encode] at isText
      · cases isText
      · exact notNil
      · exact notQuad

/-- The alphabet of z85 has no newline, and `isz85` accepts it. -/
theorem z85Encoding_alphabet : ∀ value < 85,
    isNewline (z85Encoding.getD value '0') = false ∧
      isz85 (z85Encoding.getD value '0') = true := by
  decide +kernel

/-- `do_decode` hands z85 the text in pieces as the code expects them. -/
theorem z85_streams : Streams z85Coding z85Code Z85Context.octets where
  lawful := z85Code_lawful
  init := rfl
  flush ctx _ := by
    show (ctx.octets.isEmpty, ctx, _) =
      (decide (ctx.octets.map (z85Encoding.getD · '0') = []), ctx, _)
    cases ctx.octets <;> rfl
  chunk ctx text some := by
    cases text with
    | nil => exact absurd rfl some
    | cons c text => rfl
  dangling ctx _ settled := by
    have noOctets : ctx.octets = [] :=
      ctx.none (by simpa [z85Coding] using settled)
    show ctx.octets.map (z85Encoding.getD · '0') = []
    rw [noOctets, List.map_nil]
  encode input text := by
    show z85Encode input = some text ↔
      (z85Encode input).isSome = true ∧ text = (z85Encode input).getD []
    cases z85Encode input with
    | none => simp
    | some text' => simp [eq_comm]
  length {input} whole := by
    obtain ⟨text, isText⟩ := Option.isSome_iff_exists.mp whole
    have length := length_z85Encode isText
    show ((z85Encode input).getD []).length = input.length * 5 / 4
    rw [isText, Option.getD_some]
    omega
  block full := by
    rw [whole_z85Code, full]
    decide
  rest {input input'} whole whole' := by
    rw [whole_z85Code] at whole whole' ⊢
    rw [List.length_append] at whole'
    omega
  room {state input} valid whole few := by
    obtain ⟨text, isText⟩ := Option.isSome_iff_exists.mp whole
    have length := length_z85Encode isText
    have held : (z85Code.pending state).length < 5 := by
      show (state.map (z85Encoding.getD · '0')).length < 5
      rw [List.length_map]
      exact valid.1
    have few : ((z85Encode input).getD []).length ≤
      (z85Code.pending state).length + decBlocksize * 5 / 4 := few
    rw [whole_z85Code] at whole
    rw [isText, Option.getD_some] at few
    unfold decBlocksize at few ⊢
    omega
  alphabet {input} whole c inside := by
    obtain ⟨text, isText⟩ := Option.isSome_iff_exists.mp whole
    have inside : c ∈ (z85Encode input).getD [] := inside
    rw [isText] at inside
    obtain ⟨value, small, rfl⟩ := mem_z85Encode isText inside
    exact z85Encoding_alphabet value small

/-- The four encodings whose code is in `basenc.c`.  The other four, `--base64`,
`--base64url`, `--base32` and `--base32hex`, call a library. -/
inductive Builtin where
  | base16
  | base2msbf
  | base2lsbf
  | z85
deriving DecidableEq, Repr

namespace Builtin

/-- What `basenc` sets its function pointers to for the encoding. -/
def coding : Builtin → Coding
  | base16 => base16Coding
  | base2msbf => base2msbfCoding
  | base2lsbf => base2lsbfCoding
  | z85 => z85Coding

/-- Each of the four is a stream of some code. -/
theorem exists_streams (builtin : Builtin) :
    ∃ (State : Type) (code : Code State Char UInt8)
      (inner : builtin.coding.State → State),
      Streams builtin.coding code inner := by
  cases builtin with
  | base16 => exact ⟨_, _, _, base16_streams⟩
  | base2msbf => exact ⟨_, _, _, base2msbf_streams⟩
  | base2lsbf => exact ⟨_, _, _, base2lsbf_streams⟩
  | z85 => exact ⟨_, _, _, z85_streams⟩

end Builtin

/-- The text of which `do_decode` decodes the characters. -/
def significant (builtin : Builtin) (ignoreGarbage : Bool) (input : Word) :
    Word :=
  (kept builtin.coding ignoreGarbage input).filter (!isNewline ·)

/-- Exactly what the encoder makes is accepted, whatever the newlines. -/
theorem do_decode_accepts (builtin : Builtin) (ignoreGarbage : Bool)
    (input : Word) (data : List UInt8) :
    ((doDecode builtin.coding ignoreGarbage input).1.flatten = data ∧
        (doDecode builtin.coding ignoreGarbage input).2 = true) ↔
      builtin.coding.encode data =
        some (significant builtin ignoreGarbage input) := by
  obtain ⟨State, code, inner, streams⟩ := builtin.exists_streams
  rw [doDecode_iff streams, streams.encode]
  rfl

/-- `do_encode` makes rows of the encoded data, or fails where the encoder
does. -/
theorem do_encode_rows (builtin : Builtin) (wrapColumn : Nat)
    (data : List UInt8) :
    match builtin.coding.encode data with
    | none => (doEncode builtin.coding wrapColumn data).2 = false
    | some text =>
        (wrapColumn = 0 →
          doEncode builtin.coding wrapColumn data = (text, true)) ∧
        (wrapColumn ≠ 0 → ∃ rows, Wrapped wrapColumn text rows ∧
          doEncode builtin.coding wrapColumn data =
            (written '\n' rows, true)) := by
  obtain ⟨State, code, inner, streams⟩ := builtin.exists_streams
  cases encoded : builtin.coding.encode data with
  | none =>
      refine Bool.eq_false_iff.mpr fun ok => ?_
      have whole := (doEncode_ok_iff streams wrapColumn data).mp ok
      cases encoded.symm.trans (encode_of_whole streams whole)
  | some text =>
      obtain ⟨whole, rfl⟩ := (streams.encode data text).mp encoded
      refine ⟨?_, fun wraps => doEncode_wrapped streams wraps whole⟩
      rintro rfl
      exact doEncode_plain streams whole

/-- What is encoded can be decoded again. -/
theorem decode_of_encode (builtin : Builtin) (wrapColumn : Nat)
    (ignoreGarbage : Bool) {data : List UInt8} {text : Word}
    (encoded : doEncode builtin.coding wrapColumn data = (text, true)) :
    (doDecode builtin.coding ignoreGarbage text).1.flatten = data ∧
      (doDecode builtin.coding ignoreGarbage text).2 = true := by
  obtain ⟨State, code, inner, streams⟩ := builtin.exists_streams
  have whole : code.Whole data := by
    rw [← doEncode_ok_iff streams wrapColumn data, encoded]
  refine (doDecode_iff streams ignoreGarbage text data).mpr ⟨whole, ?_⟩
  refine filter_kept (fun c inside => (streams.alphabet whole c inside).2)
    ignoreGarbage ?_
  rw [← doEncode_filter streams wrapColumn whole, encoded]

theorem decode_of_encode_dead :
    (doDecode base16Coding true "DEA\nD\n".toList).1.flatten = [0xDE, 0xAD] ∧
      (doDecode base16Coding true "DEA\nD\n".toList).2 = true :=
  decode_of_encode .base16 3 true (by
    have digits : base16Encode [0xDE, 0xAD] = ['D', 'E', 'A', 'D'] := by decide
    simp [doEncode, encodeLoop, encBlocksize, Builtin.coding, base16Coding,
      digits, wrapWrite, wrapLoop])

/-- `outbuf` never overflows. -/
theorem do_decode_room (builtin : Builtin) (ignoreGarbage : Bool)
    (input : Word) :
    ∀ outbuf ∈ (doDecode builtin.coding ignoreGarbage input).1,
      outbuf.length ≤ decBlocksize := by
  obtain ⟨State, code, inner, streams⟩ := builtin.exists_streams
  have valid : code.Valid (inner builtin.coding.decodeCtxInit) := by
    rw [streams.init]
    exact streams.lawful.valid_start
  exact (decodeLoop_decodes streams ignoreGarbage valid input).room

theorem do_decode_room_dead :
    (doDecode base16Coding false "DEAD".toList).1 = [[0xDE, 0xAD], []] ∧
      [(0xDE : UInt8), 0xAD].length ≤ decBlocksize := by
  have written : (doDecode base16Coding false "DEAD".toList).1 =
      [[0xDE, 0xAD], []] := by
    have count : base16Coding.baseLength decBlocksize = 10240 := rfl
    simp [doDecode, decodeLoop, fillInbuf, count]
    decide
  exact ⟨written, do_decode_room .base16 false "DEAD".toList [0xDE, 0xAD] (by
    show _ ∈ (doDecode base16Coding false "DEAD".toList).1
    rw [written]
    exact List.mem_cons_self)⟩

end Lmcas.Basenc
