import Rediska.Cluster.Slot

/-! Which part of a key decides its slot. -/

namespace Rediska.Proofs
open Go Cluster

def openBrace : UInt8 := 123
def closeBrace : UInt8 := 125

/-- The tag of a key stands between its first opening brace and the first closing brace
behind that one, and is not empty. -/
def Tagged (key tag : Bytes) : Prop :=
  ∃ before behind, key = before ++ [openBrace] ++ tag ++ [closeBrace] ++ behind ∧ openBrace ∉ before ∧ tag ≠ [] ∧ closeBrace ∉ tag

section
variable {s before behind : Bytes} {c : UInt8} {i : Nat}

/-- The first of several equal bytes. -/
theorem idxOf?_first (none : c ∉ before) (behind : Bytes) : (before ++ c :: behind).idxOf? c = some before.length := by
  induction before with
  | nil => simp [List.idxOf?_cons]
  | cons b rest ih =>
    have other : b ≠ c := fun same => none (same ▸ List.mem_cons_self)
    have later := ih fun inside => none (List.mem_cons_of_mem b inside)
    simp [List.idxOf?_cons, other, later]

/-- What stands before the first byte of a kind, and what behind. -/
theorem idxOf?_split (found : s.idxOf? c = some i) : ∃ before behind, s = before ++ c :: behind ∧ before.length = i ∧ c ∉ before := by
  obtain ⟨inside, here, earlier⟩ := List.idxOf?_eq_some_iff.mp found
  refine ⟨s.take i, s.drop (i + 1), ?_, ?_, ?_⟩
  · rw [← here, List.getElem_cons_drop, List.take_append_drop]
  · rw [List.length_take, Nat.min_eq_left inside.le]
  · intro among
    obtain ⟨j, short, same⟩ := List.getElem_of_mem among
    have low : j < i := (List.length_take_le i s).trans_lt' short
    rw [List.getElem_take] at same
    exact earlier j low same

theorem indexByteFrom_first (passed : Bytes) (none : c ∉ before) (behind : Bytes) :
    indexByteFrom (passed ++ (before ++ c :: behind)) c passed.length = some (passed.length + before.length) := by
  rw [indexByteFrom, List.drop_left, idxOf?_first none behind]
  rfl

theorem indexByteFrom_split {start : Nat} (found : indexByteFrom s c start = some i) :
    ∃ before behind, s.drop start = before ++ c :: behind ∧ i = start + before.length ∧ c ∉ before := by
  obtain ⟨offset, first, rfl⟩ := Option.map_eq_some_iff.mp found
  obtain ⟨before, behind, parts, rfl, fresh⟩ := idxOf?_split first
  exact ⟨before, behind, parts, rfl, fresh⟩

end

/-- What stands between the braces. -/
theorem slice_braces (before tag behind : Bytes) :
    ((before ++ [openBrace] ++ tag ++ [closeBrace] ++ behind).take (before.length + 1 + tag.length)).drop (before.length + 1) = tag := by
  have first : (before ++ [openBrace]).length = before.length + 1 := List.length_append
  have last : (before ++ [openBrace] ++ tag).length = before.length + 1 + tag.length := by rw [List.length_append, first]
  rw [← last, List.append_assoc (before ++ [openBrace] ++ tag), List.take_left, ← first, List.drop_left]

theorem hashTag_tagged {key tag : Bytes} (tagged : Tagged key tag) : hashTag key = tag := by
  obtain ⟨before, behind, rfl, fresh, some, inside⟩ := tagged
  have opened : indexByteFrom (before ++ [openBrace] ++ tag ++ [closeBrace] ++ behind) 123 0 = .some before.length := by
    have first := indexByteFrom_first [] fresh (tag ++ [closeBrace] ++ behind)
    simpa [openBrace] using first
  have closed : indexByteFrom (before ++ [openBrace] ++ tag ++ [closeBrace] ++ behind) 125 (before.length + 1) =
      .some (before.length + 1 + tag.length) := by
    have first := indexByteFrom_first (before ++ [openBrace]) inside behind
    simpa [closeBrace] using first
  have room : before.length + 1 < before.length + 1 + tag.length := Nat.lt_add_of_pos_right (List.length_pos_of_ne_nil some)
  simp only [hashTag, opened, closed, if_pos room]
  exact slice_braces before tag behind

/-- What is hashed is the tag of the key, or all of it. -/
theorem hashTag_cases (key : Bytes) : Tagged key (hashTag key) ∨ hashTag key = key := by
  unfold hashTag
  split
  next => exact .inr rfl
  next start opened =>
    split
    next => exact .inr rfl
    next stop closed =>
      split
      next room =>
        obtain ⟨before, rest, parts, rfl, fresh⟩ := indexByteFrom_split opened
        obtain ⟨tag, behind, inner, rfl, inside⟩ := indexByteFrom_split closed
        have whole : key = before ++ [openBrace] ++ tag ++ [closeBrace] ++ behind := by
          rw [List.drop_zero] at parts
          rw [parts, Nat.zero_add, List.drop_append, List.drop_of_length_le (Nat.le_succ _), Nat.add_sub_cancel_left] at inner
          rw [parts, ← List.nil_append rest]
          simpa [openBrace, closeBrace] using inner
        have some : tag ≠ [] := by
          rintro rfl
          exact absurd room (Nat.lt_irrefl _)
        have same : (key.take (0 + before.length + 1 + tag.length)).drop (0 + before.length + 1) = tag := by
          rw [whole, Nat.zero_add]
          exact slice_braces before tag behind
        rw [same]
        exact .inl ⟨before, behind, whole, fresh, some, inside⟩
      next => exact .inr rfl

/-- A text without a closing brace has no tag. -/
theorem hashTag_plain {tag : Bytes} (inside : closeBrace ∉ tag) : hashTag tag = tag := by
  rcases hashTag_cases tag with ⟨before, behind, parts, _⟩ | whole
  · rw [parts] at inside
    exact absurd (by simp) inside
  · exact whole

theorem keyHashSlot_mod (key : Bytes) : keyHashSlot key = (crc16 (hashTag key)).toNat % numSlots := by
  rw [keyHashSlot, UInt16.toNat_and]
  exact Nat.and_two_pow_sub_one_eq_mod _ 14

/-! No index is out of range. -/

theorem indexByteLoop_returns (s : Bytes) (c : UInt8) (i : Nat) : indexByteLoop s c i = .ok (indexByteFrom s c i) := by
  induction left : s.length - i generalizing i with
  | zero =>
    have done : ¬ i < s.length := by omega
    rw [indexByteLoop, if_neg done, indexByteFrom, List.drop_of_length_le (by omega)]
    rfl
  | succ left ih =>
    have inside : i < s.length := by omega
    rw [indexByteLoop, if_pos inside, byteAt_inside inside, ok_bind, ih (i + 1) (by omega)]
    simp only [indexByteFrom, List.drop_eq_getElem_cons inside, List.idxOf?_cons, beq_iff_eq]
    split
    next => rfl
    next =>
      cases (s.drop (i + 1)).idxOf? c with
      | none => rfl
      | some offset => simp only [Option.map_some, Nat.add_assoc, Nat.add_comm 1]

theorem crc16Loop_returns (s : Bytes) : crc16Loop s = .ok (crc16 s) := by
  -- after i bytes the loop has the checksum of those
  have run : ∃ crc, crc16Loop s = .ok crc ∧ crc = crc16 (s.take s.length) := by
    apply forRange_invariant s.length _ 0 (fun i crc => crc = crc16 (s.take i)) rfl
    intro i crc inside carried
    subst carried
    refine ⟨_, by rw [byteAt_inside inside, ok_bind], ?_⟩
    simp only [crc16, List.take_succ_eq_append_getElem inside, List.foldl_append, List.foldl_cons, List.foldl_nil]
  obtain ⟨crc, ran, rfl⟩ := run
  rw [List.take_length] at ran
  exact ran

theorem hashTagIndexed_returns (key : Bytes) : hashTagIndexed key = .ok (hashTag key) := by
  simp only [hashTagIndexed, hashTag, indexByteLoop_returns, ok_bind]
  split
  next => rfl
  next start opened =>
    split
    next => rfl
    next stop closed =>
      split
      next room =>
        obtain ⟨before, behind, parts, rfl, _⟩ := indexByteFrom_split closed
        have length := congrArg List.length parts
        rw [List.length_drop, List.length_append, List.length_cons] at length
        exact if_pos ⟨room.le, by omega⟩
      next => rfl

theorem keyHashSlotIndexed_returns (key : Bytes) : keyHashSlotIndexed key = .ok (keyHashSlot key) := by
  simp only [keyHashSlotIndexed, hashTagIndexed_returns, ok_bind, crc16Loop_returns, keyHashSlot]

/-- The slot of a key is that of its tag, if it has one, whatever stands around it. Without
a tag the whole key is hashed. No index the function takes is out of range. -/
theorem slot_of_tag (key : Bytes) :
    (∀ tag, Tagged key tag → keyHashSlot key = (crc16 tag).toNat % numSlots ∧ keyHashSlot key = keyHashSlot tag) ∧
    ((¬ ∃ tag, Tagged key tag) → keyHashSlot key = (crc16 key).toNat % numSlots) ∧
    (∀ tag other, Tagged key tag → Tagged other tag → keyHashSlot key = keyHashSlot other) ∧
    keyHashSlotIndexed key = .ok (keyHashSlot key) := by
  have hashes {key tag : Bytes} (tagged : Tagged key tag) : keyHashSlot key = (crc16 tag).toNat % numSlots := by
    rw [keyHashSlot_mod, hashTag_tagged tagged]
  refine ⟨?_, ?_, ?_, keyHashSlotIndexed_returns key⟩
  · intro tag tagged
    refine ⟨hashes tagged, (hashes tagged).trans ?_⟩
    obtain ⟨_, _, _, _, _, inside⟩ := tagged
    rw [keyHashSlot_mod, hashTag_plain inside]
  · intro untagged
    rcases hashTag_cases key with tagged | whole
    · exact absurd ⟨_, tagged⟩ untagged
    · rw [keyHashSlot_mod, whole]
  · intro tag other tagged tagged'
    exact (hashes tagged).trans (hashes tagged').symm

end Rediska.Proofs
