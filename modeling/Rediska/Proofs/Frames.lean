import Rediska.Core.Resp

/-! The byte strings the decoder accepts, as a grammar that does not mention it, and
the input that makes it panic. Header lines are those of the client: any text that
Atoi reads as the length will do. -/

namespace Rediska.Proofs
open Go Core

mutual
inductive Frame : Value → Bytes → Prop
  | simple {line : Bytes} (one : lf ∉ line) : Frame (.str line) (plus :: (line ++ crlf))
  | error {line : Bytes} (one : lf ∉ line) : Frame (.str line) (minus :: (line ++ crlf))
  | integer {line : Bytes} {n : Int} (one : lf ∉ line) (read : parseInt line = some n) :
      Frame (.int n) (colon :: (line ++ crlf))
  | null {line : Bytes} (one : lf ∉ line) (read : atoi line = some (-1)) :
      Frame (.str []) (dollar :: (line ++ crlf))
  | bulk {line body : Bytes} (one : lf ∉ line) (read : atoi line = some (body.length : Int))
      (fits : CanMake 1 (body.length + 2)) :
      Frame (.str body) (dollar :: (line ++ crlf ++ (body ++ crlf)))
  | array {line items : Bytes} {values : List Value} (one : lf ∉ line)
      (read : atoi line = some (values.length : Int)) (fits : CanMake 16 values.length) (inner : Frames values items) :
      Frame (.arr values) (asterisk :: (line ++ crlf ++ items))

inductive Frames : List Value → Bytes → Prop
  | nil : Frames [] []
  | cons {value : Value} {values : List Value} {first rest : Bytes}
      (head : Frame value first) (tail : Frames values rest) : Frames (value :: values) (first ++ rest)
end

/-- After complete elements only, the input reaches a bulk length below -1 or one that no
buffer can have with its terminator, or the length of an array that `make` refuses. -/
inductive Hostile : Bytes → Prop
  | bulk {line rest : Bytes} {n : Int} (one : lf ∉ line) (read : atoi line = some n)
      (bad : n < -1 ∨ maxAlloc < n + 2) : Hostile (dollar :: (line ++ crlf ++ rest))
  | array {line rest : Bytes} {n : Int} (one : lf ∉ line) (read : atoi line = some n)
      (bad : ¬ CanMake 16 n) : Hostile (asterisk :: (line ++ crlf ++ rest))
  | element {line items rest : Bytes} {n : Int} {values : List Value} (one : lf ∉ line)
      (read : atoi line = some n) (fits : CanMake 16 n) (more : (values.length : Int) < n)
      (complete : Frames values items) (next : Hostile rest) :
      Hostile (asterisk :: (line ++ crlf ++ (items ++ rest)))

theorem Frame.ne_nil {value : Value} {bytes : Bytes} (frame : Frame value bytes) : bytes ≠ [] := by
  cases frame <;> simp

theorem Frames.length_le {values : List Value} {bytes : Bytes} (frames : Frames values bytes) : values.length ≤ bytes.length := by
  match frames with
  | .nil => exact Nat.le_refl 0
  | .cons head tail =>
    have rest := tail.length_le
    have some := List.length_pos_iff.mpr head.ne_nil
    simp only [List.length_cons, List.length_append]
    omega

theorem Frames.snoc {values : List Value} {bytes last : Bytes} {value : Value} (frames : Frames values bytes) (frame : Frame value last) :
    Frames (values ++ [value]) (bytes ++ last) := by
  induction values generalizing bytes with
  | nil =>
    cases frames
    have alone := Frames.cons frame .nil
    rw [List.append_nil] at alone
    exact alone
  | cons first rest ih =>
    cases frames with
    | cons head tail =>
      rw [List.append_assoc]
      exact .cons head (ih tail)

theorem readLine_line {line : Bytes} (one : lf ∉ line) (rest : Bytes) :
    readLine (line ++ crlf ++ rest) = (.value line, rest) := by
  have clean : lf ∉ line ++ [cr] := by simp [one]; decide
  have shape : line ++ crlf ++ rest = (line ++ [cr]) ++ lf :: rest := by simp [crlf]
  have read : Source.readString (line ++ crlf ++ rest) = (some (line ++ [cr] ++ [lf]), rest) := by
    simp only [shape, Source.readString]
    rw [if_pos (by simp), throughLine_append clean, afterLine_append clean]
    simp [throughLine, afterLine]
  simp only [readLine, read]
  simp

theorem readLine_cases (s : Bytes) :
    (∃ line rest, lf ∉ line ∧ s = line ++ crlf ++ rest ∧ readLine s = (.value line, rest)) ∨
    ∃ e rest, readLine s = (.error e, rest) := by
  by_cases present : lf ∈ s
  · obtain ⟨before, after, rfl, absent, through, left⟩ := line_split present
    by_cases ended : ∃ line, before = line ++ [cr]
    · obtain ⟨line, rfl⟩ := ended
      have one : lf ∉ line := fun member => absent (by simp [member])
      have shape : line ++ [cr] ++ lf :: after = line ++ crlf ++ after := by simp [crlf]
      exact Or.inl ⟨line, after, one, shape, by rw [shape]; exact readLine_line one after⟩
    · refine Or.inr ⟨.malformedLine (before ++ [lf]), after, ?_⟩
      have bad : (before ++ [lf]).length < 2 ∨ (before ++ [lf])[(before ++ [lf]).length - 2]? ≠ some cr := by
        rcases List.eq_nil_or_concat' before with rfl | ⟨line, b, rfl⟩
        · left; decide
        · right
          have different : b ≠ cr := fun same => ended ⟨line, by rw [same]⟩
          simpa using different
      simp only [readLine, Source.readString, if_pos present, through, left, if_pos bad]
  · exact Or.inr ⟨.eof, [], by simp [readLine, Source.readString, present]⟩

theorem checkTerminator_complete (body : Bytes) : checkTerminator body.length (body ++ crlf) = .value body := by
  simp only [checkTerminator, Int.toNat_natCast]
  rw [if_neg (by omega)]
  simp [crlf]

theorem checkTerminator_value {length : Int} {buffer text : Bytes} (nonneg : 0 ≤ length)
    (size : buffer.length = length.toNat + 2) (read : checkTerminator length buffer = .value text) :
    buffer = text ++ crlf ∧ (text.length : Int) = length := by
  have inside : length.toNat + 1 < buffer.length := by omega
  simp only [checkTerminator, if_neg (Int.not_lt.mpr nonneg), List.getElem?_eq_getElem inside,
    List.getElem?_eq_getElem (Nat.lt_of_succ_lt inside)] at read
  split at read
  · cases read
  next terminated =>
    cases read
    simp only [not_or, Decidable.not_not] at terminated
    refine ⟨?_, by simp; omega⟩
    have split_ := List.take_append_drop length.toNat buffer
    rw [List.drop_eq_getElem_cons (by omega), List.drop_eq_getElem_cons inside,
      List.drop_eq_nil_of_le (by omega), terminated.1, terminated.2] at split_
    exact split_.symm

theorem checkTerminator_no_panic {length : Int} {buffer : Bytes} (nonneg : 0 ≤ length)
    (size : buffer.length = length.toNat + 2) : ¬ (checkTerminator length buffer).IsPanic := by
  simp only [checkTerminator, if_neg (Int.not_lt.mpr nonneg), List.getElem?_eq_getElem (show length.toNat < buffer.length by omega),
    List.getElem?_eq_getElem (show length.toNat + 1 < buffer.length by omega)]
  split <;> simp [Outcome.IsPanic]

/-- Whatever the scratch buffer held, the slice read into it holds what was read. -/
theorem readSlice_overlay (body : Bytes) (scratch : Scratch) :
    readSlice body.length body (scratch.map (overlay body)) = body := by
  cases scratch with
  | none => rfl
  | some old => simp [readSlice, overlay]

/-- A length a buffer can have, with its terminator, has not wrapped around. -/
theorem need_exact {length : Int} (fits : CanMake 1 (length + 2)) : wrap64 (length + 2) = length + 2 := by
  simp only [CanMake, maxAlloc] at fits
  exact wrap64_of_isInt64 (by simp only [IsInt64, minInt64, maxInt64]; omega)

theorem readBody_eq (length : Int) (s : Bytes) (scratch : Scratch) (fits : CanMake 1 (length + 2))
    (enough : (length + 2).toNat ≤ s.length) :
    ∃ after, readBody length s scratch = (checkTerminator length (s.take (length + 2).toNat), s.drop (length + 2).toNat, after) := by
  have size : (s.take (length + 2).toNat).length = (length + 2).toNat := by simp [enough]
  simp only [readBody, need_exact fits, fits, not_true_eq_false, Source.readFull, size, Nat.lt_irrefl, if_false]
  refine ⟨_, congrArg (fun buffer => (checkTerminator length buffer, _, _)) ?_⟩
  simpa only [size] using readSlice_overlay (s.take (length + 2).toNat) _

theorem readBody_short (length : Int) (s : Bytes) (scratch : Scratch) (fits : CanMake 1 (length + 2))
    (short : s.length < (length + 2).toNat) :
    ∃ rest after, readBody length s scratch = (.error .bulkBody, rest, after) := by
  simp only [readBody, need_exact fits, fits, not_true_eq_false, if_false, Source.readFull, List.length_take]
  rw [if_pos (by omega)]
  exact ⟨_, _, rfl⟩

theorem readBody_refused {length : Int} {s : Bytes} {scratch : Scratch} (refused : ¬ CanMake 1 (wrap64 (length + 2))) :
    (readBody length s scratch).1.IsPanic := by
  simp only [readBody, if_pos refused]
  exact ⟨_, rfl⟩

/-- The length that is not -1 and that no buffer can have. -/
theorem readBody_hostile (length : Int) (s : Bytes) (scratch : Scratch) (fits : IsInt64 length)
    (bad : length < -1 ∨ maxAlloc < length + 2) : (readBody length s scratch).1.IsPanic := by
  simp only [IsInt64, minInt64, maxInt64] at fits
  by_cases none : length = -2
  · -- nothing is needed, and the first index is already out of range
    subst none
    obtain ⟨after, read⟩ := readBody_eq (-2) s scratch (by decide) (Nat.zero_le _)
    rw [read]
    exact ⟨.indexOutOfRange, rfl⟩
  · apply readBody_refused
    by_cases wraps : maxInt64 < length + 2
    · rw [wrap64_of_overflow wraps (by omega)]
      intro made
      have natural := made.1
      omega
    · rw [wrap64_of_isInt64 (by simp only [IsInt64, minInt64]; omega)]
      intro made
      obtain ⟨natural, small⟩ := made
      omega

theorem readBody_complete {body : Bytes} (fits : CanMake 1 (body.length + 2)) (rest : Bytes) (scratch : Scratch) :
    ∃ after, readBody (body.length : Int) (body ++ crlf ++ rest) scratch = (.value body, rest, after) := by
  have need : ((body.length : Int) + 2).toNat = (body ++ crlf).length := by simp [crlf]; omega
  obtain ⟨after, read⟩ := readBody_eq (body.length : Int) (body ++ crlf ++ rest) scratch fits (by rw [need]; simp)
  refine ⟨after, ?_⟩
  rw [read, need, List.take_left, List.drop_left, checkTerminator_complete]

/-- A length a buffer can have never panics, and only its own text is returned. -/
theorem readBody_sound (length : Int) (nonneg : 0 ≤ length) (fits : CanMake 1 (length + 2)) (s : Bytes) (scratch : Scratch) :
    (∃ body rest after, s = body ++ crlf ++ rest ∧ (body.length : Int) = length ∧
      readBody length s scratch = (.value body, rest, after)) ∨
    ∃ e rest after, readBody length s scratch = (.error e, rest, after) := by
  by_cases enough : (length + 2).toNat ≤ s.length
  · obtain ⟨after, read⟩ := readBody_eq length s scratch fits enough
    have size : (s.take (length + 2).toNat).length = length.toNat + 2 := by
      rw [List.length_take, Nat.min_eq_left enough]
      omega
    cases checked : checkTerminator length (s.take (length + 2).toNat) with
    | value text =>
      obtain ⟨buffer, same⟩ := checkTerminator_value nonneg size checked
      refine Or.inl ⟨text, s.drop (length + 2).toNat, after, ?_, same, by rw [read, checked]⟩
      rw [← buffer, List.take_append_drop]
    | error e => exact Or.inr ⟨e, _, _, by rw [read, checked]⟩
    | panic p => exact absurd ⟨p, checked⟩ (checkTerminator_no_panic nonneg size)
  · obtain ⟨rest, after, read⟩ := readBody_short length s scratch fits (by omega)
    exact Or.inr ⟨_, rest, after, read⟩

section
variable (fuel : Nat) (s : Bytes) (scratch : Scratch)

theorem decodeFuel_plus : decodeFuel (fuel + 1) (plus :: s) scratch =
    ((readLine s).1.map .str, (readLine s).2, scratch) := rfl

theorem decodeFuel_minus : decodeFuel (fuel + 1) (minus :: s) scratch =
    ((readLine s).1.map .str, (readLine s).2, scratch) := rfl

theorem decodeFuel_colon : decodeFuel (fuel + 1) (colon :: s) scratch =
    ((readInteger s).1.map .int, (readInteger s).2, scratch) := rfl

theorem decodeFuel_dollar : decodeFuel (fuel + 1) (dollar :: s) scratch =
    ((readBulkString s scratch).1.map .str, (readBulkString s scratch).2) := rfl

theorem decodeFuel_asterisk : decodeFuel (fuel + 1) (asterisk :: s) scratch =
    ((readArray (decodeFuel fuel) s scratch).1.map .arr, (readArray (decodeFuel fuel) s scratch).2) := rfl

end

theorem readBulkString_line {line : Bytes} (one : lf ∉ line) {n : Int} (read : atoi line = some n) (s : Bytes) (scratch : Scratch) :
    readBulkString (line ++ crlf ++ s) scratch = if n = -1 then (.value [], s, scratch) else readBody n s scratch := by
  simp only [readBulkString, readLine_line one, read]

theorem readArray_line {line : Bytes} (one : lf ∉ line) {n : Int} (read : atoi line = some n)
    (decode : Bytes → Scratch → Outcome Value × Bytes × Scratch) (s : Bytes) (scratch : Scratch) :
    readArray decode (line ++ crlf ++ s) scratch =
      if ¬ CanMake 16 n then (.panic .makeSlice, s, scratch) else readElements decode n.toNat 0 s scratch := by
  simp only [readArray, readLine_line one, read]

mutual
/-- Fuel for its own length is enough to decode a frame. -/
theorem Frame.decodes {value : Value} {bytes : Bytes} (frame : Frame value bytes) (fuel : Nat)
    (enough : bytes.length ≤ fuel) (rest : Bytes) (scratch : Scratch) :
    ∃ after, decodeFuel fuel (bytes ++ rest) scratch = (.value value, rest, after) := by
  obtain ⟨fuel, rfl⟩ : ∃ n, fuel = n + 1 := ⟨fuel - 1, by have := List.length_pos_of_ne_nil frame.ne_nil; omega⟩
  match frame with
  | .simple one =>
    refine ⟨scratch, ?_⟩
    rw [List.cons_append, decodeFuel_plus, readLine_line one]
    rfl
  | .error one =>
    refine ⟨scratch, ?_⟩
    rw [List.cons_append, decodeFuel_minus, readLine_line one]
    rfl
  | .integer one read =>
    refine ⟨scratch, ?_⟩
    rw [List.cons_append, decodeFuel_colon]
    simp only [readInteger, readLine_line one, read]
    rfl
  | .null one read =>
    refine ⟨scratch, ?_⟩
    rw [List.cons_append, decodeFuel_dollar, readBulkString_line one read]
    rfl
  | .bulk one read fits =>
    obtain ⟨after, complete⟩ := readBody_complete fits rest scratch
    refine ⟨after, ?_⟩
    rw [List.cons_append, List.append_assoc, decodeFuel_dollar, readBulkString_line one read,
      if_neg (by omega), complete]
    rfl
  | .array one read fits inner =>
    obtain ⟨after, elements⟩ := inner.decodes fuel (by simp at enough; omega) 0 rest scratch
    refine ⟨after, ?_⟩
    rw [List.cons_append, List.append_assoc, decodeFuel_asterisk, readArray_line one read,
      if_neg (not_not_intro fits), Int.toNat_natCast, elements]
    rfl
termination_by structural frame

theorem Frames.decodes {values : List Value} {bytes : Bytes} (frames : Frames values bytes) (fuel : Nat)
    (enough : bytes.length ≤ fuel) (index : Nat) (rest : Bytes) (scratch : Scratch) :
    ∃ after, readElements (decodeFuel fuel) values.length index (bytes ++ rest) scratch = (.value values, rest, after) := by
  match frames with
  | .nil => exact ⟨scratch, rfl⟩
  | @Frames.cons _ _ _ more head tail =>
    rw [List.length_append] at enough
    obtain ⟨middle, decoded⟩ := head.decodes fuel (by omega) (more ++ rest) scratch
    obtain ⟨after, others⟩ := tail.decodes fuel (by omega) (index + 1) rest middle
    refine ⟨after, ?_⟩
    simp only [List.length_cons, readElements, List.append_assoc, decoded, others]
    rfl
termination_by structural frames
end

/-- What a call of the decoder may have done with its input. -/
def Described (s : Bytes) (call : Outcome Value × Bytes × Scratch) : Prop :=
  match call.1 with
  | .value v => ∃ bytes, s = bytes ++ call.2.1 ∧ Frame v bytes
  | .error _ => True
  | .panic _ => Hostile s

private theorem elements_described (fuel : Nat)
    (ih : ∀ s scratch, s.length < fuel → Described s (decodeFuel fuel s scratch))
    (left index : Nat) (s : Bytes) (scratch : Scratch) (enough : s.length < fuel) :
    match (readElements (decodeFuel fuel) left index s scratch).1 with
    | .value vs => vs.length = left ∧ ∃ bytes, s = bytes ++ (readElements (decodeFuel fuel) left index s scratch).2.1 ∧ Frames vs bytes
    | .error _ => True
    | .panic _ => ∃ vs bytes rest, vs.length < left ∧ s = bytes ++ rest ∧ Frames vs bytes ∧ Hostile rest := by
  induction left generalizing index s scratch with
  | zero => exact ⟨rfl, [], rfl, .nil⟩
  | succ left more =>
    have first := ih s scratch enough
    simp only [readElements]
    rcases call : decodeFuel fuel s scratch with ⟨outcome, rest, after⟩
    rw [call] at first
    cases outcome with
    | error e => trivial
    | panic p => exact ⟨[], [], s, Nat.succ_pos _, rfl, .nil, first⟩
    | value v =>
      obtain ⟨bytes, rfl, frame⟩ := first
      have shorter : rest.length < fuel := by simp only [List.length_append] at enough; omega
      have others := more (index + 1) rest after shorter
      dsimp only
      rcases again : readElements (decodeFuel fuel) left (index + 1) rest after with ⟨outcome, final, last⟩
      rw [again] at others
      cases outcome with
      | error e => trivial
      | panic p =>
        obtain ⟨vs, items, next, less, rfl, frames, hostile⟩ := others
        exact ⟨v :: vs, bytes ++ items, next, by simpa using less, by simp, .cons frame frames, hostile⟩
      | value vs =>
        obtain ⟨count, items, rfl, frames⟩ := others
        exact ⟨by simp [count], bytes ++ items, by simp, .cons frame frames⟩

private theorem line_described {typeByte : UInt8} (frame : ∀ line, lf ∉ line → Frame (.str line) (typeByte :: (line ++ crlf)))
    (s : Bytes) (scratch : Scratch) :
    Described (typeByte :: s) ((readLine s).1.map .str, (readLine s).2, scratch) := by
  rcases readLine_cases s with ⟨line, rest, one, rfl, read⟩ | ⟨e, rest, read⟩
  · rw [read]
    exact ⟨typeByte :: (line ++ crlf), by simp, frame line one⟩
  · rw [read]
    trivial

private theorem integer_described (s : Bytes) (scratch : Scratch) :
    Described (colon :: s) ((readInteger s).1.map .int, (readInteger s).2, scratch) := by
  rcases readLine_cases s with ⟨line, rest, one, rfl, read⟩ | ⟨e, rest, read⟩
  · simp only [readInteger, read]
    cases value : parseInt line with
    | none => trivial
    | some n => exact ⟨colon :: (line ++ crlf), by simp, .integer one value⟩
  · simp only [readInteger, read]
    trivial

private theorem bulk_described (s : Bytes) (scratch : Scratch) :
    Described (dollar :: s) ((readBulkString s scratch).1.map .str, (readBulkString s scratch).2) := by
  rcases readLine_cases s with ⟨line, rest, one, rfl, read⟩ | ⟨e, rest, read⟩
  · cases value : atoi line with
    | none =>
      simp only [readBulkString, read, value]
      trivial
    | some n =>
      rw [readBulkString_line one value]
      split
      next null =>
        subst null
        exact ⟨dollar :: (line ++ crlf), by simp, .null one value⟩
      next present =>
        by_cases bad : n < -1 ∨ maxAlloc < n + 2
        · obtain ⟨p, panics⟩ := readBody_hostile n rest scratch (parseInt_isInt64 value) bad
          simp only [Described, panics, Outcome.map]
          exact .bulk one value bad
        · obtain ⟨body, final, last, rfl, size, complete⟩ | ⟨e, final, last, failed⟩ :=
            readBody_sound n (by omega) ⟨by omega, by omega⟩ rest scratch
          · rw [complete]
            exact ⟨dollar :: (line ++ crlf ++ (body ++ crlf)), by simp, .bulk one (by rw [size]; exact value) ⟨by omega, by omega⟩⟩
          · rw [failed]
            trivial
  · simp only [readBulkString, read]
    trivial

private theorem array_described (fuel : Nat)
    (ih : ∀ s scratch, s.length < fuel → Described s (decodeFuel fuel s scratch))
    (s : Bytes) (scratch : Scratch) (enough : s.length < fuel) :
    Described (asterisk :: s) ((readArray (decodeFuel fuel) s scratch).1.map .arr, (readArray (decodeFuel fuel) s scratch).2) := by
  rcases readLine_cases s with ⟨line, rest, one, rfl, read⟩ | ⟨e, rest, read⟩
  · cases value : atoi line with
    | none =>
      simp only [readArray, read, value]
      trivial
    | some n =>
      rw [readArray_line one value]
      split
      next refused => exact .array one value refused
      next made =>
        have fits := not_not.mp made
        have inside : rest.length < fuel := by simp [crlf] at enough; omega
        have elements := elements_described fuel ih n.toNat 0 rest scratch inside
        rcases call : readElements (decodeFuel fuel) n.toNat 0 rest scratch with ⟨outcome, final, last⟩
        rw [call] at elements
        cases outcome with
        | error e => trivial
        | panic p =>
          obtain ⟨vs, items, next, less, rfl, frames, hostile⟩ := elements
          exact .element one value fits (by omega) frames hostile
        | value vs =>
          obtain ⟨count, items, rfl, frames⟩ := elements
          have exact_ : (vs.length : Int) = n := by rw [count, Int.toNat_of_nonneg fits.1]
          exact ⟨asterisk :: (line ++ crlf ++ items), by simp, .array one (by rw [value, exact_]) (exact_ ▸ fits) frames⟩
  · simp only [readArray, read]
    trivial

/-- With fuel for the whole input the decoder runs into nothing but hostile lengths. -/
theorem decodeFuel_described (fuel : Nat) (s : Bytes) (scratch : Scratch) (enough : s.length < fuel) :
    Described s (decodeFuel fuel s scratch) := by
  induction fuel generalizing s scratch with
  | zero => omega
  | succ fuel ih =>
    cases s with
    | nil => trivial
    | cons typeByte s =>
      by_cases isPlus : typeByte = plus
      · subst isPlus
        exact line_described (fun _ => .simple) s scratch
      by_cases isMinus : typeByte = minus
      · subst isMinus
        exact line_described (fun _ => .error) s scratch
      by_cases isColon : typeByte = colon
      · subst isColon
        exact integer_described s scratch
      by_cases isDollar : typeByte = dollar
      · subst isDollar
        exact bulk_described s scratch
      by_cases isAsterisk : typeByte = asterisk
      · subst isAsterisk
        exact array_described fuel ih s scratch (by simpa using enough)
      simp only [decodeFuel, Source.readByte, if_neg isPlus, if_neg isMinus, if_neg isColon, if_neg isDollar, if_neg isAsterisk]
      trivial

private theorem elements_stop (fuel : Nat) {rest : Bytes} (stops : ∀ scratch, (decodeFuel fuel rest scratch).1.IsPanic)
    (values : List Value) {items : Bytes} (frames : Frames values items) (enough : items.length ≤ fuel)
    (left index : Nat) (more : values.length < left) (scratch : Scratch) :
    (readElements (decodeFuel fuel) left index (items ++ rest) scratch).1.IsPanic := by
  induction values generalizing items left index scratch with
  | nil =>
    cases frames
    obtain ⟨left, rfl⟩ : ∃ n, left = n + 1 := ⟨left - 1, by simp at more; omega⟩
    obtain ⟨p, panics⟩ := stops scratch
    rcases call : decodeFuel fuel rest scratch with ⟨outcome, final, last⟩
    rw [call] at panics
    simp only at panics
    subst panics
    simp only [readElements, List.nil_append, call]
    exact ⟨p, rfl⟩
  | cons value values ih =>
    cases frames with
    | @cons _ _ first others head tail =>
      obtain ⟨left, rfl⟩ : ∃ n, left = n + 1 := ⟨left - 1, by simp at more; omega⟩
      rw [List.length_append] at enough
      obtain ⟨middle, decoded⟩ := head.decodes fuel (by omega) (others ++ rest) scratch
      simp only [readElements, List.append_assoc, decoded, Outcome.isPanic_map]
      exact ih tail (by omega) left (index + 1) (by simpa using more) middle

/-- Hostile input leaves the decoder no way but a panic. -/
theorem Hostile.panics {s : Bytes} (hostile : Hostile s) (fuel : Nat) (scratch : Scratch) (enough : s.length < fuel) :
    (decodeFuel fuel s scratch).1.IsPanic := by
  induction hostile generalizing fuel scratch with
  | @bulk line rest n one read bad =>
    obtain ⟨fuel, rfl⟩ : ∃ n, fuel = n + 1 := ⟨fuel - 1, by omega⟩
    rw [decodeFuel_dollar, readBulkString_line one read, if_neg (by simp only [maxAlloc] at bad; omega)]
    simpa using readBody_hostile n rest scratch (parseInt_isInt64 read) bad
  | @array line rest n one read bad =>
    obtain ⟨fuel, rfl⟩ : ∃ n, fuel = n + 1 := ⟨fuel - 1, by omega⟩
    rw [decodeFuel_asterisk, readArray_line one read, if_pos bad]
    exact ⟨_, rfl⟩
  | @element line items rest n values one read fits more complete next ih =>
    obtain ⟨fuel, rfl⟩ : ∃ n, fuel = n + 1 := ⟨fuel - 1, by omega⟩
    simp only [List.length_cons, List.length_append] at enough
    have stops := elements_stop fuel (fun scratch => ih fuel scratch (by omega)) values complete (by omega)
      n.toNat 0 (by omega) scratch
    rw [decodeFuel_asterisk, readArray_line one read, if_neg (not_not_intro fits)]
    simpa using stops

theorem decode_value_iff (s : Bytes) (scratch : Scratch) (value : Value) (rest : Bytes) :
    (∃ after, decode s scratch = (.value value, rest, after)) ↔ ∃ bytes, s = bytes ++ rest ∧ Frame value bytes := by
  constructor
  · rintro ⟨after, decoded⟩
    have described := decodeFuel_described (s.length + 1) s scratch (Nat.lt_succ_self _)
    simp only [decode, Source.remaining] at decoded
    rw [decoded] at described
    exact described
  · rintro ⟨bytes, rfl, frame⟩
    exact frame.decodes _ (by simp only [Source.remaining, List.length_append]; omega) rest scratch

theorem decode_panics_iff (s : Bytes) (scratch : Scratch) : (decode s scratch).1.IsPanic ↔ Hostile s := by
  constructor
  · rintro ⟨p, panics⟩
    have described := decodeFuel_described (s.length + 1) s scratch (Nat.lt_succ_self _)
    simp only [decode, Source.remaining] at panics
    simpa only [Described, panics] using described
  · intro hostile
    exact hostile.panics _ scratch (Nat.lt_succ_self _)

end Rediska.Proofs
