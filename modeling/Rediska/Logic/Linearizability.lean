import Mathlib.Data.List.Nodup

/-! Concurrent histories, and the sequential orders that explain them. -/

namespace Rediska.Logic

variable {Op Ret : Type}

inductive HistoryEvent (Op Ret : Type)
  | call (op : Op)
  | ret (op : Op) (result : Ret)

/-- A sequential order of operations explains a history: it is one the specification
allows, every operation in it was called, every operation that returned is in it with the
result it returned, and an operation that returned before another was called stands before
it. Operations that were called and have not returned may be in it or not. -/
structure Explains (allowed : List (Op × Ret) → Prop) (history : List (HistoryEvent Op Ret)) (order : List (Op × Ret)) : Prop where
  allowed : allowed order
  once : (order.map (·.1)).Nodup
  called : ∀ op result, (op, result) ∈ order → .call op ∈ history
  returned : ∀ op result, .ret op result ∈ history → (op, result) ∈ order
  realTime : ∀ before after, history = before ++ after → ∀ op result later result', .ret op result ∈ before → .call later ∉ before →
    (later, result') ∈ order → ∃ first rest, order = first ++ rest ∧ (op, result) ∈ first ∧ (later, result') ∈ rest

def Linearizable (allowed : List (Op × Ret) → Prop) (history : List (HistoryEvent Op Ret)) : Prop := ∃ order, Explains allowed history order

/-- Operations take effect between call and return: wherever the history is cut, the order
can be cut so that what had returned is in its first part, and only what had been called. -/
def Linearizes (history : List (HistoryEvent Op Ret)) (order : List (Op × Ret)) : Prop :=
  ∀ before after, history = before ++ after → ∃ first rest, order = first ++ rest ∧
    (∀ op result, .ret op result ∈ before → (op, result) ∈ first) ∧ (∀ op result, (op, result) ∈ first → .call op ∈ before) ∧
      (after = [] → rest = [])

namespace Linearizes
variable {history : List (HistoryEvent Op Ret)} {order : List (Op × Ret)}

theorem start : Linearizes ([] : List (HistoryEvent Op Ret)) [] := by
  intro before after cut
  obtain ⟨rfl, rfl⟩ := List.append_eq_nil_iff.mp cut.symm
  exact ⟨[], [], rfl, nofun, nofun, fun _ => rfl⟩

theorem whole (effect : Linearizes history order) : (∀ op result, .ret op result ∈ history → (op, result) ∈ order) ∧
    ∀ op result, (op, result) ∈ order → .call op ∈ history := by
  obtain ⟨first, rest, rfl, returned, called, last⟩ := effect history [] (List.append_nil history).symm
  rw [last rfl, List.append_nil]
  exact ⟨returned, called⟩

/-- Something is seen at which no operation takes effect. -/
theorem see (effect : Linearizes history order) (event : HistoryEvent Op Ret)
    (due : ∀ op result, event = .ret op result → (op, result) ∈ order) : Linearizes (history ++ [event]) order := by
  obtain ⟨returned, called⟩ := effect.whole
  intro before after cut
  rcases List.eq_nil_or_concat after with rfl | ⟨rest, last, rfl⟩
  · rw [List.append_nil] at cut
    subst cut
    refine ⟨order, [], (List.append_nil order).symm, ?_, ?_, fun _ => rfl⟩
    · intro op result seen
      rcases List.mem_append.mp seen with earlier | now
      · exact returned op result earlier
      · exact due op result (List.mem_singleton.mp now).symm
    · intro op result inside
      exact List.mem_append_left _ (called op result inside)
  · rw [List.concat_eq_append, ← List.append_assoc] at cut
    obtain ⟨parts, _⟩ := List.append_inj' cut rfl
    obtain ⟨first, others, split, back, forth, _⟩ := effect before rest parts
    exact ⟨first, others, split, back, forth, by simp⟩

/-- An operation that was called takes effect. -/
theorem enter (effect : Linearizes history order) {op : Op} (called : .call op ∈ history) (result : Ret) :
    Linearizes history (order ++ [(op, result)]) := by
  intro before after cut
  obtain ⟨first, rest, rfl, back, forth, last⟩ := effect before after cut
  cases after with
  | nil =>
    rw [List.append_nil] at cut
    subst cut
    rw [last rfl, List.append_nil]
    refine ⟨first ++ [(op, result)], [], (List.append_nil _).symm, ?_, ?_, fun _ => rfl⟩
    · intro other said seen
      exact List.mem_append_left _ (back other said seen)
    · intro other said inside
      rcases List.mem_append.mp inside with earlier | now
      · exact forth other said earlier
      · cases List.mem_singleton.mp now
        exact called
  | cons event others => exact ⟨first, rest ++ [(op, result)], List.append_assoc _ _ _, back, forth, nofun⟩

theorem explains {allowed : List (Op × Ret) → Prop} (effect : Linearizes history order) (legal : allowed order)
    (once : (order.map (·.1)).Nodup) : Explains allowed history order := by
  obtain ⟨returned, called⟩ := effect.whole
  refine ⟨legal, once, called, returned, ?_⟩
  intro before after cut op result later result' done notYet inside
  obtain ⟨first, rest, rfl, back, forth, _⟩ := effect before after cut
  refine ⟨first, rest, rfl, back op result done, ?_⟩
  rcases List.mem_append.mp inside with early | late
  · exact absurd (forth later result' early) notYet
  · exact late

end Linearizes
end Rediska.Logic
