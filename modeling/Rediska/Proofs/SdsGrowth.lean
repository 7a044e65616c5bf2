import Rediska.Core.Sds

/-! What a run of appends leaves in a growable string, and when it grows in place. -/

namespace Rediska.Proofs
open Go Core

variable (growth : Growth)

/-- An append that fits keeps the capacity, and does not move the string. -/
def InPlace (s : SDS) (v : Bytes) : Prop :=
  s.buf.length + v.length ≤ s.cap → (s.appendString growth v).cap = s.cap ∧ s.moves v = false

/-- An append that fits, to a string that is then longer than a megabyte. -/
def FitsBeyond (s : SDS) (v : Bytes) : Prop := sdsMaxPreAlloc < s.buf.length + v.length ∧ s.buf.length + v.length ≤ s.cap

theorem inPlace_iff (s : SDS) (v : Bytes) : InPlace growth s v ↔ ¬ FitsBeyond s v := by
  constructor
  · intro inPlace ⟨long, fits⟩
    have moved : s.moves v = true := by simp [SDS.moves, long]
    have stayed := (inPlace fits).2
    rw [moved] at stayed
    cases stayed
  · intro short fits
    have few : ¬ sdsMaxPreAlloc < s.buf.length + v.length := fun long => short ⟨long, fits⟩
    constructor
    · simp only [SDS.appendString, reserved, if_neg few, if_pos fits]
    · simp [SDS.moves, few, Nat.not_lt.mpr fits]

theorem appendString_buf (s : SDS) (v : Bytes) : (s.appendString growth v).buf = s.buf ++ v := rfl

theorem appends_buf (s : SDS) (texts : List Bytes) : (texts.foldl (SDS.appendString growth) s).buf = s.buf ++ texts.flatten := by
  induction texts generalizing s with
  | nil => simp
  | cons v rest ih =>
    rw [List.foldl_cons, ih, appendString_buf, List.flatten_cons, List.append_assoc]

/-- What holds of each append of a run, and of the string it is made to. -/
def EachAppend (holds : SDS → Bytes → Prop) (s : SDS) (texts : List Bytes) : Prop :=
  ∀ done v rest, texts = done ++ v :: rest → holds (done.foldl (SDS.appendString growth) s) v

/-- Appends put one text behind the other. Those that fit are made in place exactly if none
of them leaves a string longer than a megabyte. -/
theorem appends_in_place_iff (s : SDS) (texts : List Bytes) :
    (texts.foldl (SDS.appendString growth) s).buf = s.buf ++ texts.flatten ∧
    (EachAppend growth (InPlace growth) s texts ↔ EachAppend growth (fun s v => ¬ FitsBeyond s v) s texts) := by
  refine ⟨appends_buf growth s texts, ?_⟩
  constructor
  · intro each done v rest parts
    exact (inPlace_iff growth _ v).mp (each done v rest parts)
  · intro each done v rest parts
    exact (inPlace_iff growth _ v).mpr (each done v rest parts)

/-- A text of a megabyte, a byte more, and another one: by then there is room for a megabyte,
and the string is moved all the same. -/
theorem second_byte_moves_string :
    ¬ ∀ (growth : Growth) (s : SDS) (texts : List Bytes),
      (texts.foldl (SDS.appendString growth) s).buf = s.buf ++ texts.flatten ∧ EachAppend growth (InPlace growth) s texts := by
  intro claim
  let growth : Growth := ⟨fun _ needed => needed, fun _ _ => Nat.le_refl _⟩
  let text : Bytes := List.replicate sdsMaxPreAlloc 0
  have length : text.length = sdsMaxPreAlloc := List.length_replicate
  have each := (claim growth (SDS.new text) [[0], [0]]).2
  apply (inPlace_iff growth _ _).mp (each [[0]] [0] [] rfl)
  constructor
  · simp only [List.foldl_cons, List.foldl_nil, appendString_buf, SDS.new, List.length_append, length, List.length_singleton]
    omega
  · simp [SDS.appendString, SDS.new, length, reserved, growTo, sdsMaxPreAlloc]

end Rediska.Proofs
