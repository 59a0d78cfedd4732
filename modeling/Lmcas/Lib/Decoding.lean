import Mathlib.Data.List.Basic
import Mathlib.Tactic.Common

/-!
# Codes that are decoded symbol by symbol

A decoder that is fed a text in pieces, and a code whose decoder accepts
exactly what the encoder makes.
-/

namespace Lmcas.Lib.Decoding

variable {State Symbol Octet : Type}

/-- The symbols are taken up to the first one that is garbage: what is
decoded, the last state, and whether all of them were taken. -/
def feed (step : State → Symbol → Option (State × List Octet)) :
    State → List Symbol → Bool × State × List Octet
  | state, [] => (true, state, [])
  | state, symbol :: text =>
      match step state symbol with
      | none => (false, state, [])
      | some (state, octets) =>
          ((feed step state text).1, (feed step state text).2.1,
            octets ++ (feed step state text).2.2)

section

variable {step : State → Symbol → Option (State × List Octet)}

/-- Text may be fed in pieces. -/
theorem feed_append (state : State) (text text' : List Symbol) :
    feed step state (text ++ text') =
      if (feed step state text).1 then
        ((feed step (feed step state text).2.1 text').1,
          (feed step (feed step state text).2.1 text').2.1,
          (feed step state text).2.2 ++
            (feed step (feed step state text).2.1 text').2.2)
      else feed step state text := by
  induction text generalizing state with
  | nil => simp [feed]
  | cons symbol text inductionHypothesis =>
      rw [List.cons_append, feed, feed]
      cases step state symbol with
      | none => rfl
      | some result =>
          obtain ⟨state, octets⟩ := result
          dsimp only
          rw [inductionHypothesis]
          split
          · rw [List.append_assoc]
          · rfl

/-- Text that is accepted leaves its state to the text behind it. -/
theorem feed_append_of_ok {state state' : State} {text : List Symbol}
    {octets : List Octet} (ok : feed step state text = (true, state', octets))
    (text' : List Symbol) :
    feed step state (text ++ text') =
      ((feed step state' text').1, (feed step state' text').2.1,
        octets ++ (feed step state' text').2.2) := by
  rw [feed_append, ok]
  rfl

/-- What follows a rejected text is not looked at. -/
theorem feed_append_of_not_ok {state : State} {text : List Symbol}
    (failed : (feed step state text).1 = false) (text' : List Symbol) :
    feed step state (text ++ text') = feed step state text := by
  rw [feed_append, failed]
  rfl

/-- Symbols that are left out. -/
def skipping (skips : Symbol → Bool)
    (step : State → Symbol → Option (State × List Octet)) (state : State)
    (symbol : Symbol) : Option (State × List Octet) :=
  if skips symbol then some (state, []) else step state symbol

/-- A decoder that skips symbols reads the text without them. -/
theorem feed_skipping (skips : Symbol → Bool) (state : State)
    (text : List Symbol) :
    feed (skipping skips step) state text =
      feed step state (text.filter (!skips ·)) := by
  induction text generalizing state with
  | nil => rfl
  | cons symbol text inductionHypothesis =>
      rw [feed, skipping]
      cases skipped : skips symbol with
      | true =>
          rw [List.filter_cons_of_neg (by simp [skipped]), if_pos rfl,
            ← inductionHypothesis]
          rfl
      | false =>
          rw [List.filter_cons_of_pos (by simp [skipped]),
            if_neg Bool.false_ne_true, feed]
          simp only [inductionHypothesis]

/-- What is taken is taken without what follows it. -/
theorem exists_feed (step : State → Symbol → Option (State × List Octet))
    (state : State) (text : List Symbol) :
    ∃ taken, taken <+: text ∧
      feed step state taken = (true, (feed step state text).2) := by
  induction text generalizing state with
  | nil => exact ⟨[], List.prefix_rfl, rfl⟩
  | cons symbol text inductionHypothesis =>
      rw [feed]
      cases isTaken : step state symbol with
      | none => exact ⟨[], List.nil_prefix, rfl⟩
      | some result =>
          obtain ⟨state', octets⟩ := result
          obtain ⟨taken, isPrefix, fed⟩ := inductionHypothesis state'
          refine ⟨symbol :: taken, (List.prefix_cons_inj symbol).mpr isPrefix, ?_⟩
          rw [feed, isTaken]
          dsimp only
          rw [fed]

end

/-- A decoder with the states it can be in, the symbols of a code word that
has begun, the encoder, and what can be encoded. -/
structure Code (State Symbol Octet : Type) where
  step : State → Symbol → Option (State × List Octet)
  start : State
  Valid : State → Prop
  pending : State → List Symbol
  encode : List Octet → List Symbol
  Whole : List Octet → Prop

/-- What comes out is what has gone in. -/
structure Code.Lawful (code : Code State Symbol Octet) : Prop where
  valid_start : code.Valid code.start
  pending_start : code.pending code.start = []
  whole_nil : code.Whole []
  encode_nil : code.encode [] = []
  whole_append : ∀ {octets octets' : List Octet}, code.Whole octets →
    code.Whole octets' → code.Whole (octets ++ octets')
  encode_append : ∀ {octets octets' : List Octet}, code.Whole octets →
    code.Whole octets' →
    code.encode (octets ++ octets') = code.encode octets ++ code.encode octets'
  reads : ∀ {state state' : State} {symbol : Symbol} {octets : List Octet},
    code.Valid state → code.step state symbol = some (state', octets) →
    code.Valid state' ∧ code.Whole octets ∧
      code.pending state ++ [symbol] =
        code.encode octets ++ code.pending state'
  decodes : ∀ {state : State} {octets : List Octet}, code.Valid state →
    code.pending state = [] → code.Whole octets → ∃ state',
      feed code.step state (code.encode octets) = (true, state', octets) ∧
        code.pending state' = []

section

variable {code : Code State Symbol Octet}

/-- A text that is taken. -/
structure Code.Fed (code : Code State Symbol Octet) (state : State)
    (text : List Symbol) (state' : State) (octets : List Octet) : Prop where
  valid : code.Valid state'
  whole : code.Whole octets
  text : code.pending state ++ text =
    code.encode octets ++ code.pending state'

/-- Text that is accepted, with what was waiting, is the encoding of the octets
and of what waits now. -/
theorem Code.Lawful.feeds (lawful : code.Lawful) {state state' : State}
    (valid : code.Valid state) {text : List Symbol} {octets : List Octet}
    (fed : feed code.step state text = (true, state', octets)) :
    code.Fed state text state' octets := by
  induction text generalizing state octets with
  | nil =>
      obtain ⟨-, rfl, rfl⟩ : True ∧ state = state' ∧ [] = octets := by
        simpa [feed] using fed
      refine ⟨valid, lawful.whole_nil, ?_⟩
      rw [lawful.encode_nil, List.append_nil, List.nil_append]
  | cons symbol text inductionHypothesis =>
      rw [feed] at fed
      cases taken : code.step state symbol with
      | none =>
          rw [taken] at fed
          cases fed
      | some result =>
          obtain ⟨next, first⟩ := result
          rw [taken] at fed
          dsimp only at fed
          obtain ⟨ok, fed⟩ := Prod.mk.inj fed
          obtain ⟨last, rfl⟩ := Prod.mk.inj fed
          obtain ⟨valid', whole, reads⟩ := lawful.reads valid taken
          have later : feed code.step next text =
              (true, state', (feed code.step next text).2.2) :=
            Prod.ext ok (Prod.ext last rfl)
          obtain ⟨valid'', whole', reads'⟩ := inductionHypothesis valid' later
          refine ⟨valid'', lawful.whole_append whole whole', ?_⟩
          rw [lawful.encode_append whole whole', List.append_assoc, ← reads',
            ← List.append_assoc, ← reads, List.append_assoc,
            List.singleton_append]

/-- Exactly the encoded texts are decoded with nothing left over. -/
theorem Code.Lawful.decode_iff (lawful : code.Lawful) (text : List Symbol)
    (octets : List Octet) :
    (∃ state, feed code.step code.start text = (true, state, octets) ∧
        code.pending state = []) ↔
      code.Whole octets ∧ text = code.encode octets := by
  constructor
  · rintro ⟨state, fed, nonePending⟩
    have fed := lawful.feeds lawful.valid_start fed
    have reads := fed.text
    rw [lawful.pending_start, nonePending, List.append_nil, List.nil_append] at reads
    exact ⟨fed.whole, reads⟩
  · rintro ⟨whole, rfl⟩
    exact lawful.decodes lawful.valid_start lawful.pending_start whole

end

/-! ## Codes of single octets -/

/-- A decoder that reads each octet back reads all of them back. -/
theorem feed_flatMap {step : State → Symbol → Option (State × List Octet)}
    {encodes : Octet → List Symbol} {Ready : State → Prop}
    (decodes : ∀ state octet, Ready state → ∃ state',
      feed step state (encodes octet) = (true, state', [octet]) ∧ Ready state')
    {state : State} (ready : Ready state) (octets : List Octet) :
    ∃ state', feed step state (octets.flatMap encodes) =
      (true, state', octets) ∧ Ready state' := by
  induction octets generalizing state with
  | nil => exact ⟨state, rfl, ready⟩
  | cons octet octets inductionHypothesis =>
      obtain ⟨next, first, ready'⟩ := decodes state octet ready
      obtain ⟨last, later, ready''⟩ := inductionHypothesis ready'
      refine ⟨last, ?_, ready''⟩
      rw [List.flatMap_cons, feed_append_of_ok first, later]
      rfl

end Lmcas.Lib.Decoding
