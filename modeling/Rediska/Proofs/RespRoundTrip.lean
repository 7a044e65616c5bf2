import Mathlib.Data.List.OfFn
import Rediska.Proofs.AofRecovery
import Rediska.Proofs.DecodeSafety

/-! What the encoders of package core write, the decoder reads back, and no byte more. -/

namespace Rediska.Proofs
open Go Core Spec

/-- The values a reply is built from, each within what Go and the protocol let the
encoder be called with. -/
inductive ReplyTree
  | bulk (text : Bytes) (fits : CanMake 1 (text.length + 2))
  | integer (n : Int) (fits : IsInt64 n)
  | simple (text : Bytes) (oneLine : OneLine text)
  | error (text : Bytes) (oneLine : OneLine text)
  | array (count : Nat) (fits : CanMake 16 count) (items : Fin count → ReplyTree)

namespace ReplyTree

def encode : ReplyTree → Bytes
  | bulk text _ => encodeBulkString text
  | integer n _ => encodeInteger n
  | simple text _ => encodeSimpleString text
  | error text _ => encodeError text
  | array _ _ items => encodeRawArray (List.ofFn fun i => (items i).encode)

/-- Simple strings and errors are strings to the decoder. -/
def value : ReplyTree → Value
  | bulk text _ => .str text
  | integer n _ => .int n
  | simple text _ => .str text
  | error text _ => .str text
  | array _ _ items => .arr (List.ofFn fun i => (items i).value)

end ReplyTree

theorem Frames.ofFn {count : Nat} {values : Fin count → Value} {bytes : Fin count → Bytes}
    (each : ∀ i, Frame (values i) (bytes i)) : Frames (List.ofFn values) (List.ofFn bytes).flatten := by
  induction count with
  | zero => exact .nil
  | succ count ih =>
    rw [List.ofFn_succ, List.ofFn_succ, List.flatten_cons]
    exact .cons (each 0) (ih fun i => each i.succ)

theorem ReplyTree.frame (tree : ReplyTree) : Frame tree.value tree.encode := by
  induction tree with
  | bulk text fits => exact encodeBulkString_frame fits
  | integer n fits => exact .integer (oneLine_itoa n).2 (parseInt_itoa fits)
  | simple text oneLine => exact .simple oneLine.2
  | error text oneLine => exact .error oneLine.2
  | array count fits items ih =>
    have shape : (array count fits items).encode =
        asterisk :: (itoa count ++ crlf ++ (List.ofFn fun i => (items i).encode).flatten) := by
      simp [encode, encodeRawArray]
    rw [shape]
    refine .array (oneLine_itoa _).2 ?_ ?_ (Frames.ofFn ih)
    · rw [List.length_ofFn]
      exact atoi_itoa_count fits
    · rw [List.length_ofFn]
      exact fits

/-- A frame at the front of a connection is decoded, however its bytes arrive. -/
theorem Frame.decode_reader {value : Value} {bytes suffix : Bytes} (frame : Frame value bytes) {r : Reader}
    (input : r.bytes = bytes ++ suffix) (scratch : Scratch) :
    ∃ rest after, decode r scratch = (.value value, rest, after) ∧ rest.bytes = suffix := by
  obtain ⟨after, decoded⟩ := (decode_value_iff r.bytes scratch value suffix).mpr ⟨bytes, input, frame⟩
  have same := decode_refines Reader.refines r scratch
  rw [decoded] at same
  rcases call : decode r scratch with ⟨outcome, rest, last⟩
  rw [call] at same
  obtain ⟨rfl, left⟩ := Prod.mk.inj same
  exact ⟨rest, last, rfl, (Prod.mk.inj left).1.symm⟩

/-- So many calls of the decoder, one after the other, with what each returned. -/
def decodeEach {ρ : Type} [Source ρ] : Nat → ρ → Scratch → List (Outcome Value) × ρ × Scratch
  | 0, r, scratch => ([], r, scratch)
  | calls + 1, r, scratch =>
    let (outcome, r, scratch) := decode r scratch
    let (outcomes, r, scratch) := decodeEach calls r scratch
    (outcome :: outcomes, r, scratch)

theorem decodeEach_commands {cmds : List (List Bytes)} (sized : ∀ cmd ∈ cmds, Sized cmd) {suffix : Bytes} {r : Reader}
    (input : r.bytes = cmds.flatMap encodeArray ++ suffix) (scratch : Scratch) :
    ∃ rest after, decodeEach cmds.length r scratch = (cmds.map fun cmd => .value (.arr (cmd.map .str)), rest, after) ∧
      rest.bytes = suffix := by
  induction cmds generalizing r scratch with
  | nil => exact ⟨r, scratch, rfl, input⟩
  | cons cmd cmds ih =>
    rw [List.flatMap_cons, List.append_assoc] at input
    obtain ⟨next, middle, decoded, left⟩ := (encodeArray_frame (sized cmd List.mem_cons_self)).decode_reader input scratch
    obtain ⟨rest, after, others, final⟩ := ih (fun cmd inside => sized cmd (.tail _ inside)) left middle
    refine ⟨rest, after, ?_, final⟩
    simp only [List.length_cons, decodeEach, decoded, others, List.map_cons]

theorem decodeInteger_encodeInteger {n : Int} (fits : IsInt64 n) : decodeInteger (encodeInteger n) = some n := by
  have head : (encodeInteger n).head? = some colon := rfl
  have tail : (encodeInteger n).tail = itoa n ++ crlf := rfl
  have size : (itoa n ++ crlf).length - 2 = (itoa n).length := by simp [crlf]
  rw [decodeInteger, if_pos head, tail, if_pos (List.suffix_append _ _), size, List.take_left]
  exact parseInt_itoa fits

/-- The decoder returns the commands of a stream in order and any tree of replies, leaves
what follows unread, and reads back every integer reply. -/
theorem resp_round_trip :
    (∀ (cmds : List (List Bytes)) (suffix : Bytes) (r : Reader) (scratch : Scratch), (∀ cmd ∈ cmds, Sized cmd) →
      r.bytes = cmds.flatMap encodeArray ++ suffix →
        ∃ rest after, decodeEach cmds.length r scratch = (cmds.map fun cmd => .value (.arr (cmd.map .str)), rest, after) ∧
          rest.bytes = suffix) ∧
    (∀ (tree : ReplyTree) (suffix : Bytes) (r : Reader) (scratch : Scratch), r.bytes = tree.encode ++ suffix →
      ∃ rest after, decode r scratch = (.value tree.value, rest, after) ∧ rest.bytes = suffix) ∧
    ∀ n, IsInt64 n → decodeInteger (encodeInteger n) = some n := by
  refine ⟨?_, ?_, ?_⟩
  · intro cmds suffix r scratch sized input
    exact decodeEach_commands sized input scratch
  · intro tree suffix r scratch input
    exact tree.frame.decode_reader input scratch
  · intro n fits
    exact decodeInteger_encodeInteger fits

/-- Two commands in three chunks, the text of the second one being a command. -/
theorem resp_round_trip_nested :
    (∃ rest after, decodeEach 2 (⟨[], [ascii "*1\r\n$4\r\nPI", ascii "NG\r\n*1\r\n$5\r\n*1\r\n", ascii "$\r\n+"]⟩ : Reader) none =
      ([.value (.arr [.str (ascii "PING")]), .value (.arr [.str (ascii "*1\r\n$")])], rest, after) ∧ rest.bytes = ascii "+") ∧
    decodeInteger (encodeInteger minInt64) = some minInt64 := by
  have small : ∀ cmd ∈ [[ascii "PING"], [ascii "*1\r\n$"]], Sized cmd := by
    intro cmd inside
    rcases List.mem_pair.mp inside with rfl | rfl
    · exact ⟨by decide, by decide⟩
    · exact ⟨by decide, by decide⟩
  obtain ⟨commands, _, integers⟩ := resp_round_trip
  refine ⟨commands [[ascii "PING"], [ascii "*1\r\n$"]] (ascii "+") _ none small ?_, integers _ ⟨by decide, by decide⟩⟩
  decide +kernel

end Rediska.Proofs
