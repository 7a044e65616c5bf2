import Rediska.Proofs.DecodeSafety

/-! One decoder for a whole connection hands its scratch buffer from call to call. What
it returns is compared with `Decode`, which takes a fresh buffer for every bulk string. -/

namespace Rediska.Proofs
open Go Core

/-- The same value or the same error. A length no slice can have panics with either
buffer, though Go words the two panics differently. -/
inductive SameAnswer {α : Type} : Outcome α → Outcome α → Prop
  | value (v : α) : SameAnswer (.value v) (.value v)
  | error (e : DecodeError) : SameAnswer (.error e) (.error e)
  | panic (p q : Panic) : SameAnswer (.panic p) (.panic q)

namespace SameAnswer
variable {α β : Type} {reused fresh : Outcome α}

theorem refl (outcome : Outcome α) : SameAnswer outcome outcome := by
  cases outcome with
  | value v => exact .value v
  | error e => exact .error e
  | panic p => exact .panic p p

theorem map (f : α → β) (alike : SameAnswer reused fresh) : SameAnswer (reused.map f) (fresh.map f) := by
  cases alike with
  | value v => exact .value (f v)
  | error e => exact .error e
  | panic p q => exact .panic p q

end SameAnswer

/-- One read with the decoder's buffer and the same read with none: alike in what they
return, and at the same place of the input afterwards. -/
structure SameRead {α ρ : Type} (reused fresh : Outcome α × ρ × Scratch) : Prop where
  answer : SameAnswer reused.1 fresh.1
  reader : reused.2.1 = fresh.2.1
  kept : ∃ buf, reused.2.2 = some buf
  unbuffered : fresh.2.2 = none

namespace SameRead
variable {α β ρ : Type}

/-- Reads that never look at a buffer. -/
theorem unread (outcome : Outcome α) (r : ρ) (buf : Bytes) : SameRead (outcome, r, some buf) (outcome, r, none) where
  answer := .refl outcome
  reader := rfl
  kept := ⟨buf, rfl⟩
  unbuffered := rfl

theorem map (f : α → β) {reused fresh : Outcome α × ρ × Scratch} (same : SameRead reused fresh) :
    SameRead (reused.1.map f, reused.2) (fresh.1.map f, fresh.2) where
  answer := same.answer.map f
  reader := same.reader
  kept := same.kept
  unbuffered := same.unbuffered

theorem forms {reused fresh : Outcome α × ρ × Scratch} (same : SameRead reused fresh) :
    ∃ answer answer' rest buf, SameAnswer answer answer' ∧ reused = (answer, rest, some buf) ∧ fresh = (answer', rest, none) := by
  obtain ⟨buf, kept⟩ := same.kept
  refine ⟨reused.1, fresh.1, fresh.2.1, buf, same.answer, ?_, ?_⟩
  · rw [← same.reader, ← kept]
  · rw [← same.unbuffered]

end SameRead

section
variable {ρ : Type} [Source ρ]

/-- What the buffer held before is overwritten up to the slice's end, or the read fails
before anything of it is looked at. -/
theorem readBody_same (bounded : ∀ n (r : ρ), (Source.readFull n r).1.length ≤ n) (length : Int) (r : ρ) (buf : Bytes) :
    SameRead (readBody length r (some buf)) (readBody length r none) := by
  generalize needEq : wrap64 (length + 2) = need
  by_cases refused : ¬ CanMake 1 need
  · simp only [readBody, needEq, if_pos refused]
    exact ⟨.panic _ _, rfl, ⟨_, rfl⟩, rfl⟩
  by_cases short : (Source.readFull need.toNat r).1.length < need.toNat
  · simp only [readBody, needEq, if_neg refused, if_pos short]
    exact ⟨.error _, rfl, ⟨_, rfl⟩, rfl⟩
  have whole : (Source.readFull need.toNat r).1.length = need.toNat := by
    apply le_antisymm
    · exact bounded _ r
    · exact Nat.not_lt.mp short
  have slice (old : Bytes) : readSlice need.toNat (Source.readFull need.toNat r).1
      (some (overlay (Source.readFull need.toNat r).1 old)) = (Source.readFull need.toNat r).1 := by
    have overwritten := readSlice_overlay (Source.readFull need.toNat r).1 (some old)
    rwa [whole] at overwritten
  simp only [readBody, needEq, if_neg refused, if_neg short, Option.map_some, Option.map_none, slice]
  exact ⟨.refl _, rfl, ⟨_, rfl⟩, rfl⟩

theorem readBulkString_same (bounded : ∀ n (r : ρ), (Source.readFull n r).1.length ≤ n) (r : ρ) (buf : Bytes) :
    SameRead (readBulkString r (some buf)) (readBulkString r none) := by
  simp only [readBulkString]
  rcases readLine r with ⟨outcome, rest⟩
  cases outcome with
  | error e => exact .unread _ rest buf
  | panic p => exact .unread _ rest buf
  | value line =>
    simp only
    split
    · exact .unread _ rest buf
    · split
      · exact .unread _ rest buf
      · exact readBody_same bounded _ rest buf

omit [Source ρ] in
/-- Elements of any nesting: each is read with what the ones before left in the buffer. -/
theorem readElements_same {decode : ρ → Scratch → Outcome Value × ρ × Scratch}
    (same : ∀ r buf, SameRead (decode r (some buf)) (decode r none)) (left index : Nat) (r : ρ) (buf : Bytes) :
    SameRead (readElements decode left index r (some buf)) (readElements decode left index r none) := by
  induction left generalizing index r buf with
  | zero => exact .unread _ r buf
  | succ left ih =>
    obtain ⟨answer, answer', rest, after, alike, reused, fresh⟩ := (same r buf).forms
    simp only [readElements, reused, fresh]
    cases alike with
    | error e => exact .unread _ rest after
    | panic p q => exact ⟨.panic p q, rfl, ⟨after, rfl⟩, rfl⟩
    | value v => exact (ih (index + 1) rest after).map _

theorem decodeFuel_same (bounded : ∀ n (r : ρ), (Source.readFull n r).1.length ≤ n) (fuel : Nat) (r : ρ) (buf : Bytes) :
    SameRead (decodeFuel fuel r (some buf)) (decodeFuel fuel r none) := by
  induction fuel generalizing r buf with
  | zero => exact .unread _ r buf
  | succ fuel ih =>
    have array (r : ρ) : SameRead (readArray (decodeFuel fuel) r (some buf)) (readArray (decodeFuel fuel) r none) := by
      simp only [readArray]
      rcases readLine r with ⟨outcome, rest⟩
      cases outcome with
      | error e => exact .unread _ rest buf
      | panic p => exact .unread _ rest buf
      | value line =>
        simp only
        split
        · exact .unread _ rest buf
        · split
          · exact .unread _ rest buf
          · exact readElements_same ih _ 0 rest buf
    simp only [decodeFuel]
    rcases Source.readByte r with ⟨typeByte, rest⟩
    cases typeByte with
    | none => exact .unread _ rest buf
    | some typeByte =>
      simp only
      split_ifs
      · exact .unread _ _ buf
      · exact .unread _ _ buf
      · exact .unread _ _ buf
      · exact (readBulkString_same bounded rest buf).map _
      · exact (array rest).map _
      · exact .unread _ rest buf

end

/-- `io.ReadFull` never reads past the slice it was given. -/
theorem readFull_bounded (n : Nat) (r : Reader) : (Source.readFull n r).1.length ≤ n := by
  have taken : (Source.readFull n r).1 = r.bytes.take n := (congrArg Prod.fst (Reader.refines.readFull n r)).symm
  rw [taken]
  exact List.length_take_le n r.bytes

theorem decode_same (r : Reader) (buf : Bytes) : SameRead (decode r (some buf)) (decode r none) :=
  decodeFuel_same readFull_bounded _ r buf

/-- What so many calls of `Decoder.Decode` return and where each leaves the connection.
No call follows a panic. -/
def decoderCalls : Nat → Reader → Scratch → List (Outcome Value × Reader)
  | 0, _, _ => []
  | calls + 1, r, scratch => match decode r scratch with
    | (.panic p, r, _) => [(.panic p, r)]
    | (outcome, r, scratch) => (outcome, r) :: decoderCalls calls r scratch

/-- The same calls made as `Decode`, with a fresh buffer each time. -/
def decodeCalls : Nat → Reader → List (Outcome Value × Reader)
  | 0, _ => []
  | calls + 1, r => match decode r none with
    | (.panic p, r, _) => [(.panic p, r)]
    | (outcome, r, _) => (outcome, r) :: decodeCalls calls r

/-- Whatever arrives, in whatever chunks, and whatever the scratch buffer held at first,
a decoder and `Decode` cannot be told apart: not by a value, an error or the bytes left,
on any of the calls. -/
theorem decoder_calls_alike (calls : Nat) (r : Reader) (buf : Bytes) :
    List.Forall₂ (fun reused fresh => SameAnswer reused.1 fresh.1 ∧ reused.2 = fresh.2)
      (decoderCalls calls r (some buf)) (decodeCalls calls r) := by
  induction calls generalizing r buf with
  | zero => exact .nil
  | succ calls ih =>
    -- the buffer the next call gets is some other one, which the hypothesis allows
    obtain ⟨answer, answer', rest, after, alike, reused, fresh⟩ := (decode_same r buf).forms
    simp only [decoderCalls, decodeCalls, reused, fresh]
    cases alike with
    | value v => exact .cons ⟨.value v, rfl⟩ (ih rest after)
    | error e => exact .cons ⟨.error e, rfl⟩ (ih rest after)
    | panic p q => exact .cons ⟨.panic p q, rfl⟩ .nil

end Rediska.Proofs
