import Rediska.Core.Encode

/-! Well-formed RESP values, as the client has to read them. -/

namespace Rediska.Spec
open Go Core

/-- Text that may stand in a line. -/
def OneLine (text : Bytes) : Prop := cr ∉ text ∧ lf ∉ text

instance (text : Bytes) : Decidable (OneLine text) := inferInstanceAs (Decidable (_ ∧ _))

/-- The bytes of exactly one RESP value. -/
inductive WellFormed : Bytes → Prop
  | simple {text : Bytes} (oneLine : OneLine text) : WellFormed (plus :: (text ++ crlf))
  | error {text : Bytes} (oneLine : OneLine text) : WellFormed (minus :: (text ++ crlf))
  | integer (n : Int) : WellFormed (colon :: (itoa n ++ crlf))
  | null : WellFormed (dollar :: (itoa (-1) ++ crlf))
  | bulk (body : Bytes) : WellFormed (dollar :: (itoa body.length ++ crlf ++ (body ++ crlf)))
  | array {items : List Bytes} (each : ∀ item ∈ items, WellFormed item) :
      WellFormed (asterisk :: (itoa items.length ++ crlf ++ items.flatten))

theorem OneLine.append {first second : Bytes} : OneLine (first ++ second) ↔ OneLine first ∧ OneLine second := by
  simp only [OneLine, List.mem_append, not_or]
  tauto

/-- The characters of a literal of the source, without going through its encoding. -/
theorem oneLine_literal {chars : List Char} (oneLine : OneLine (chars.map fun c => UInt8.ofNat c.toNat)) :
    OneLine (ascii (String.ofList chars)) := by
  rw [ascii, String.toList_ofList]
  exact oneLine

theorem oneLine_itoa (n : Int) : OneLine (itoa n) := by
  have printable (b : UInt8) (inside : b ∈ itoa n) : 45 ≤ b.toNat := by
    unfold itoa at inside
    split at inside
    · rcases List.mem_cons.mp inside with rfl | digit
      · decide
      · have range := natText_digits _ b digit
        omega
    · have range := natText_digits _ b inside
      omega
  constructor
  · intro inside
    exact absurd (printable cr inside) (by decide)
  · intro inside
    exact absurd (printable lf inside) (by decide)

/-- A line ends at the first break. -/
theorem OneLine.cancel {first second rest others : Bytes} (clean : OneLine first) (clean' : OneLine second)
    (same : first ++ crlf ++ rest = second ++ crlf ++ others) : first = second ∧ rest = others := by
  induction first generalizing second with
  | nil =>
    cases second with
    | nil => exact ⟨rfl, by simpa [crlf] using same⟩
    | cons b second =>
      obtain ⟨here, _⟩ := List.cons.inj same
      exact absurd (here ▸ List.mem_cons_self) clean'.1
  | cons a first ih =>
    cases second with
    | nil =>
      obtain ⟨here, _⟩ := List.cons.inj same
      exact absurd (here ▸ List.mem_cons_self) clean.1
    | cons b second =>
      obtain ⟨rfl, tails⟩ := List.cons.inj same
      obtain ⟨rfl, rfl⟩ := ih ⟨fun inside => clean.1 (.tail a inside), fun inside => clean.2 (.tail a inside)⟩
        ⟨fun inside => clean'.1 (.tail a inside), fun inside => clean'.2 (.tail a inside)⟩ tails
      exact ⟨rfl, rfl⟩

/-- A length or number in front tells itself from what follows. -/
theorem itoa_cancel {m n : Int} {rest others : Bytes} (same : itoa m ++ (crlf ++ rest) = itoa n ++ (crlf ++ others)) :
    m = n ∧ rest = others := by
  rw [← List.append_assoc, ← List.append_assoc] at same
  obtain ⟨text, after⟩ := (oneLine_itoa m).cancel (oneLine_itoa n) same
  exact ⟨itoa_injective text, after⟩

/-- Items that can be told from what follows them, one after the other. -/
theorem flatten_cancel {items items' : List Bytes} {rest others : Bytes}
    (cancels : ∀ item ∈ items, ∀ {second rest others : Bytes}, WellFormed second → item ++ rest = second ++ others →
      item = second ∧ rest = others)
    (each : ∀ item ∈ items', WellFormed item) (count : items.length = items'.length)
    (same : items.flatten ++ rest = items'.flatten ++ others) : items = items' ∧ rest = others := by
  induction items generalizing items' with
  | nil =>
    obtain rfl := List.eq_nil_of_length_eq_zero count.symm
    exact ⟨rfl, same⟩
  | cons item items ih =>
    cases items' with
    | nil => cases count
    | cons item' items' =>
      rw [List.flatten_cons, List.flatten_cons, List.append_assoc, List.append_assoc] at same
      obtain ⟨rfl, same'⟩ := cancels item List.mem_cons_self (each item' List.mem_cons_self) same
      obtain ⟨rfl, rfl⟩ := ih (fun item inside => cancels item (.tail _ inside)) (fun item inside => each item (.tail _ inside))
        (Nat.succ.inj count) same'
      exact ⟨rfl, rfl⟩

/-- Values that follow one another can be told apart in one way only. -/
theorem WellFormed.cancel {first : Bytes} (formed : WellFormed first) {second rest others : Bytes} (formed' : WellFormed second)
    (same : first ++ rest = second ++ others) : first = second ∧ rest = others := by
  induction formed generalizing second rest others with
  | simple oneLine =>
    cases formed' with
    | simple oneLine' =>
      obtain ⟨rfl, rfl⟩ := oneLine.cancel oneLine' (List.cons.inj same).2
      exact ⟨rfl, rfl⟩
    | error | integer | null | bulk | array => cases (List.cons.inj same).1
  | error oneLine =>
    cases formed' with
    | error oneLine' =>
      obtain ⟨rfl, rfl⟩ := oneLine.cancel oneLine' (List.cons.inj same).2
      exact ⟨rfl, rfl⟩
    | simple | integer | null | bulk | array => cases (List.cons.inj same).1
  | integer n =>
    cases formed' with
    | integer m =>
      simp only [List.cons_append, List.append_assoc, List.cons.injEq, true_and] at same
      obtain ⟨rfl, rfl⟩ := itoa_cancel same
      exact ⟨rfl, rfl⟩
    | simple | error | null | bulk | array => cases (List.cons.inj same).1
  | null =>
    cases formed' with
    | null => exact ⟨rfl, List.append_cancel_left same⟩
    | bulk body =>
      simp only [List.cons_append, List.append_assoc, List.cons.injEq, true_and] at same
      obtain ⟨count, _⟩ := itoa_cancel same
      omega
    | simple | error | integer | array => cases (List.cons.inj same).1
  | bulk body =>
    cases formed' with
    | null =>
      simp only [List.cons_append, List.append_assoc, List.cons.injEq, true_and] at same
      obtain ⟨count, _⟩ := itoa_cancel same
      omega
    | bulk body' =>
      simp only [List.cons_append, List.append_assoc, List.cons.injEq, true_and] at same
      obtain ⟨count, bodies⟩ := itoa_cancel same
      obtain ⟨rfl, after⟩ := List.append_inj bodies (by omega)
      exact ⟨rfl, List.append_cancel_left after⟩
    | simple | error | integer | array => cases (List.cons.inj same).1
  | array each ih =>
    cases formed' with
    | array each' =>
      simp only [List.cons_append, List.append_assoc, List.cons.injEq, true_and] at same
      obtain ⟨count, flat⟩ := itoa_cancel same
      obtain ⟨rfl, rfl⟩ := flatten_cancel ih each' (by omega) flat
      exact ⟨rfl, rfl⟩
    | simple | error | integer | null | bulk => cases (List.cons.inj same).1

/-- A run of values is one list of values only. -/
theorem flatten_wellFormed_injective {values values' : List Bytes} (each : ∀ value ∈ values, WellFormed value)
    (each' : ∀ value ∈ values', WellFormed value) (same : values.flatten = values'.flatten) : values = values' := by
  have filled {value : Bytes} (formed : WellFormed value) : value ≠ [] := by cases formed <;> simp
  induction values generalizing values' with
  | nil =>
    cases values' with
    | nil => rfl
    | cons value values' =>
      have empty := List.append_eq_nil_iff.mp same.symm
      exact absurd empty.1 (filled (each' value List.mem_cons_self))
  | cons value values ih =>
    cases values' with
    | nil =>
      have empty := List.append_eq_nil_iff.mp same
      exact absurd empty.1 (filled (each value List.mem_cons_self))
    | cons value' values' =>
      obtain ⟨rfl, rest⟩ := (each value List.mem_cons_self).cancel (each' value' List.mem_cons_self) same
      rw [ih (fun v inside => each v (.tail _ inside)) (fun v inside => each' v (.tail _ inside)) rest]

theorem encodeBulkString_wellFormed (body : Bytes) : WellFormed (encodeBulkString body) := by
  have shape : encodeBulkString body = dollar :: (itoa body.length ++ crlf ++ (body ++ crlf)) := by simp [encodeBulkString]
  rw [shape]
  exact .bulk body

theorem encodeInteger_wellFormed (n : Int) : WellFormed (encodeInteger n) := .integer n

theorem encodeNullBulkString_wellFormed : WellFormed encodeNullBulkString := .null

theorem encodeSimpleString_wellFormed {text : Bytes} (oneLine : OneLine text) : WellFormed (encodeSimpleString text) :=
  .simple oneLine

theorem encodeRawArray_wellFormed {items : List Bytes} (each : ∀ item ∈ items, WellFormed item) :
    WellFormed (encodeRawArray items) := by
  have shape : encodeRawArray items = asterisk :: (itoa items.length ++ crlf ++ items.flatten) := by simp [encodeRawArray]
  rw [shape]
  exact .array each

/-- An error line is a value exactly if its text may stand in a line. -/
theorem encodeError_wellFormed {text : Bytes} : WellFormed (encodeError text) ↔ OneLine text := by
  constructor
  · intro formed
    have shape : encodeError text = minus :: (text ++ crlf) := by simp [encodeError]
    rw [shape] at formed
    generalize same : minus :: (text ++ crlf) = bytes at formed
    cases formed with
    | error oneLine =>
      obtain rfl := List.append_cancel_right (List.cons.inj same).2
      exact oneLine
    | simple | integer | null | bulk | array => cases (List.cons.inj same).1
  · exact .error

end Rediska.Spec
