import Rediska.Go.Loop

/-! Slices: windows into arrays, which several of them may share. `append` writes into the
array behind a slice while the capacity lasts, and that may show through other slices. What
is built in an array of its own leaves all the arrays before it as they were. -/

namespace Rediska.Go

variable {α : Type}

/-- The arrays that have been allocated, by number. -/
abbrev Heap (α : Type) := List (List α)

def arrayOf (heap : Heap α) (a : Nat) : List α := heap.getD a []

structure Slice where
  array : Nat
  start : Nat
  len : Nat
  cap : Nat
  deriving DecidableEq, Repr

namespace Slice

def nil : Slice := ⟨0, 0, 0, 0⟩

def items (heap : Heap α) (s : Slice) : List α := ((arrayOf heap s.array).drop s.start).take s.len

/-- `s[i]` -/
def get (heap : Heap α) (s : Slice) (i : Nat) : Panics α :=
  match (s.items heap)[i]? with
  | some item => .ok item
  | none => .error .indexOutOfRange

/-- `s[first:last]` -/
def window (s : Slice) (first last : Nat) : Panics Slice :=
  if first ≤ last ∧ last ≤ s.cap then .ok ⟨s.array, s.start + first, last - first, s.cap - first⟩ else .error .sliceBounds

/-- `make([]T, 0, cap)` -/
def make [Inhabited α] (heap : Heap α) (cap : Nat) : Heap α × Slice :=
  (heap ++ [List.replicate cap default], ⟨heap.length, 0, 0, cap⟩)

def overwrite (array : List α) (first : Nat) (items : List α) : List α :=
  array.take first ++ items ++ array.drop (first + items.length)

/-- `append(s, more...)`. How much room a new array has is up to the runtime. -/
def append [Inhabited α] (grow : Nat → Nat → Nat) (heap : Heap α) (s : Slice) (more : List α) : Heap α × Slice :=
  let needed := s.len + more.length
  if needed ≤ s.cap then
    (heap.set s.array (overwrite (arrayOf heap s.array) (s.start + s.len) more), { s with len := needed })
  else
    let cap := grow s.cap needed
    (heap ++ [s.items heap ++ more ++ List.replicate (cap - needed) default], ⟨heap.length, 0, needed, cap⟩)

/-- The window lies within its array. -/
structure Fits (heap : Heap α) (s : Slice) : Prop where
  len : s.len ≤ s.cap
  cap : s.start + s.cap ≤ (arrayOf heap s.array).length

end Slice

/-! Reading. -/

theorem arrayOf_of_le {heap : Heap α} {a : Nat} (beyond : heap.length ≤ a) : arrayOf heap a = [] := by
  simp [arrayOf, beyond]

theorem arrayOf_append_left {heap more : Heap α} {a : Nat} (inside : a < heap.length) : arrayOf (heap ++ more) a = arrayOf heap a := by
  simp [arrayOf, List.getElem?_append_left inside]

theorem arrayOf_new (heap : Heap α) (array : List α) : arrayOf (heap ++ [array]) heap.length = array := by
  simp [arrayOf]

theorem arrayOf_set {heap : Heap α} {a : Nat} (inside : a < heap.length) (array : List α) : arrayOf (heap.set a array) a = array := by
  simp [arrayOf, inside]

namespace Slice
variable {heap old : Heap α} {s : Slice}

theorem Fits.items_length (fits : s.Fits heap) : (s.items heap).length = s.len := by
  have len := fits.len
  have cap := fits.cap
  rw [items, List.length_take, List.length_drop]
  omega

/-- Only a slice with room needs an array. -/
theorem Fits.array_lt (fits : s.Fits heap) (room : 0 < s.cap) : s.array < heap.length := by
  apply Nat.lt_of_not_le
  intro beyond
  have cap := fits.cap
  rw [arrayOf_of_le beyond, List.length_nil] at cap
  omega

theorem fits_nil (heap : Heap α) : nil.Fits heap := ⟨Nat.le_refl _, Nat.zero_le _⟩

theorem items_nil (heap : Heap α) : nil.items heap = [] := rfl

/-- New arrays do not show through a slice of the old ones. -/
theorem Fits.of_prefix (fits : s.Fits old) (kept : old <+: heap) : s.Fits heap ∧ s.items heap = s.items old := by
  obtain ⟨more, rfl⟩ := kept
  by_cases inside : s.array < old.length
  · have same : arrayOf (old ++ more) s.array = arrayOf old s.array := arrayOf_append_left inside
    refine ⟨⟨fits.len, ?_⟩, ?_⟩
    · rw [same]
      exact fits.cap
    · rw [items, items, same]
  · have len := fits.len
    have cap := fits.cap
    rw [arrayOf_of_le (Nat.le_of_not_lt inside), List.length_nil] at cap
    have empty : s.len = 0 := by omega
    refine ⟨⟨len, by omega⟩, ?_⟩
    rw [items, items, empty, List.take_zero, List.take_zero]

theorem get_eq {i : Nat} {item : α} (here : (s.items heap)[i]? = some item) : s.get heap i = .ok item := by
  simp only [get, here]

theorem get_next {before rest : List α} {item : α} (parts : s.items heap = before ++ item :: rest) :
    s.get heap before.length = .ok item := by
  apply get_eq
  rw [parts, List.getElem?_append_right (Nat.le_refl _), Nat.sub_self]
  rfl

theorem get_beyond {i : Nat} (nothing : (s.items heap)[i]? = none) : s.get heap i = .error .indexOutOfRange := by
  simp only [get, nothing]

theorem Fits.window (fits : s.Fits heap) {first last : Nat} (order : first ≤ last) (inside : last ≤ s.len) :
    ∃ part, s.window first last = .ok part ∧ part.Fits heap ∧ part.items heap = ((s.items heap).take last).drop first := by
  have len := fits.len
  have cap := fits.cap
  refine ⟨_, if_pos ⟨order, by omega⟩, ⟨by dsimp only; omega, by dsimp only; omega⟩, ?_⟩
  rw [items, items, List.take_take, Nat.min_eq_left inside, List.drop_take, List.drop_drop]

/-! Building. -/

/-- A slice under construction: its array is not among the old ones, which are as they were. -/
structure Built (old heap : Heap α) (s : Slice) (made : List α) : Prop where
  kept : old <+: heap
  fresh : 0 < s.cap → old.length ≤ s.array
  fits : s.Fits heap
  holds : s.items heap = made

theorem built_nil (heap : Heap α) : Built heap heap nil [] :=
  ⟨List.prefix_refl heap, fun room => absurd room (Nat.lt_irrefl 0), fits_nil heap, items_nil heap⟩

private theorem overwrite_length {array more : List α} {first : Nat} (room : first + more.length ≤ array.length) :
    (overwrite array first more).length = array.length := by
  simp only [overwrite, List.length_append, List.length_take, List.length_drop]
  omega

/-- The window ends with what has been written. -/
private theorem overwrite_window {array more : List α} {start len : Nat} (room : start + len + more.length ≤ array.length) :
    ((overwrite array (start + len) more).drop start).take (len + more.length) = (array.drop start).take len ++ more := by
  have front : ((array.take (start + len)).drop start).length = len := by
    rw [List.length_drop, List.length_take]
    omega
  have before : start ≤ (array.take (start + len)).length := by
    rw [List.length_take]
    omega
  rw [overwrite, List.append_assoc, List.drop_append_of_le_length before, List.drop_take, Nat.add_sub_cancel_left]
  rw [List.drop_take, Nat.add_sub_cancel_left] at front
  rw [← List.append_assoc, List.take_append_of_le_length]
  · apply List.take_of_length_le
    rw [List.length_append, front]
  · rw [List.length_append, front]

/-- Writing nothing changes nothing. -/
private theorem set_overwrite_nil (heap : Heap α) (a first : Nat) : heap.set a (overwrite (arrayOf heap a) first []) = heap := by
  have same : overwrite (arrayOf heap a) first [] = arrayOf heap a := by
    simp [overwrite]
  rw [same]
  by_cases inside : a < heap.length
  · simp [arrayOf, inside]
  · exact List.set_eq_of_length_le (Nat.le_of_not_lt inside)

theorem Built.of_prefix {older : Heap α} {made : List α} (built : Built old heap s made) (kept : older <+: old) : Built older heap s made :=
  ⟨kept.trans built.kept, fun room => kept.length_le.trans (built.fresh room), built.fits, built.holds⟩

variable [Inhabited α]

theorem built_make (heap : Heap α) (cap : Nat) : Built heap (make heap cap).1 (make heap cap).2 [] where
  kept := List.prefix_append heap _
  fresh _ := Nat.le_refl _
  fits := ⟨Nat.zero_le cap, by simp [make, arrayOf_new]⟩
  holds := List.take_zero

variable {grow : Nat → Nat → Nat} (enough : ∀ cap needed, needed ≤ grow cap needed)
include enough

/-- Appending writes to the slice's own array or to a new one. -/
theorem Built.append {made : List α} (built : Built old heap s made) (more : List α) :
    Built old (s.append grow heap more).1 (s.append grow heap more).2 (made ++ more) := by
  have len := built.fits.len
  have cap := built.fits.cap
  unfold Slice.append
  dsimp only
  split
  next room =>
    dsimp only
    by_cases nothing : more = []
    · subst nothing
      rw [set_overwrite_nil, List.append_nil]
      exact built
    · have some : 0 < more.length := List.length_pos_iff.mpr nothing
      have own := built.fresh (by omega)
      have inside := built.fits.array_lt (by omega)
      refine ⟨?_, fun _ => own, ⟨room, ?_⟩, ?_⟩
      · obtain ⟨rest, rfl⟩ := built.kept
        rw [List.set_append_right _ _ own]
        exact List.prefix_append old _
      · rw [arrayOf_set inside, overwrite_length (by omega)]
        exact cap
      · have room : s.start + s.len + more.length ≤ (arrayOf heap s.array).length := by omega
        rw [items, arrayOf_set inside, overwrite_window room, ← built.holds, items]
  next full =>
    have length := built.fits.items_length
    have larger := enough s.cap (s.len + more.length)
    dsimp only
    refine ⟨built.kept.trans (List.prefix_append heap _), fun _ => built.kept.length_le, ⟨larger, ?_⟩, ?_⟩
    · rw [arrayOf_new, List.length_append, List.length_append, List.length_replicate, length]
      dsimp only
      omega
    · rw [items, arrayOf_new, List.drop_zero, List.take_append_of_le_length, built.holds, List.take_of_length_le]
      · rw [List.length_append, ← built.holds, length]
      · rw [List.length_append, length]

/-- What is appended may come from the old arrays. -/
theorem Built.append_slice {made : List α} (built : Built old heap s made) {source : Slice} (fits : source.Fits old) :
    Built old (s.append grow heap (source.items heap)).1 (s.append grow heap (source.items heap)).2 (made ++ source.items old) := by
  rw [← (fits.of_prefix built.kept).2]
  exact built.append enough (source.items heap)

end Slice
end Rediska.Go
