import Mathlib.Algebra.BigOperators.Group.Finset.Basic
import Rediska.Proofs.HllForms

/-! The cached count of a sketch is never stale, and depends on its registers only. -/

namespace Rediska.Proofs
open Go Hll Logic Storage

variable {estimate : List Nat → Nat} {h : HLL}

/-- A sketch that was added to, merged into and counted, always with the same estimator. -/
inductive CountedBy (estimate : List Nat → Nat) : HLL → Prop
  | new : CountedBy estimate HLL.new
  | add {h after : HLL} {changed : Bool} (before : CountedBy estimate h) (data : Bytes)
      (ran : h.add data = .ok (after, changed)) : CountedBy estimate after
  | merge {h other after : HLL} {changed : Bool} (before : CountedBy estimate h) (source : CountedBy estimate other)
      (ran : h.merge other = .ok (after, changed)) : CountedBy estimate after
  | count {h after : HLL} {n : Nat} (before : CountedBy estimate h) (ran : h.count estimate = .ok (after, n)) :
      CountedBy estimate after

/-- What adding and merging report decides whether the cache is used again. -/
theorem CountedBy.built (empty : estimate (registers :: List.replicate 63 0) = 0) (counted : CountedBy estimate h) :
    ∃ seen, Built h seen ∧ Cached estimate h (seen.sup point) := by
  induction counted with
  | new =>
    refine ⟨∅, .new, ?_⟩
    intro _
    rw [Finset.sup_empty, histogram_bot, empty]
    rfl
  | add _ data ran ih =>
    obtain ⟨seen, built, cached⟩ := ih
    refine ⟨insert data seen, built.add data ran, ?_⟩
    obtain ⟨_, _, ran', _, grown, value, flag⟩ := built.holds.add data
    cases ran.symm.trans ran'
    rw [Finset.sup_insert, sup_comm]
    exact cached.grown grown value flag
  | merge _ _ ran own source =>
    obtain ⟨seen, built, cached⟩ := own
    obtain ⟨more, source, _⟩ := source
    refine ⟨seen ∪ more, built.merge source ran, ?_⟩
    obtain ⟨_, _, ran', _, grown, _, value, flag⟩ := built.holds.merge source.holds
    cases ran.symm.trans ran'
    rw [Finset.sup_union]
    exact cached.grown grown value flag
  | count _ ran ih =>
    obtain ⟨seen, built, cached⟩ := ih
    refine ⟨seen, built.count ran, ?_⟩
    obtain ⟨_, ran', _, fresh⟩ := built.holds.count_eq cached
    cases ran.symm.trans ran'
    exact fresh

/-- The values of all registers, as they can be read. -/
def registerValues (h : HLL) : List Nat :=
  List.ofFn fun i : Fin registers =>
    match readRegister h i with
    | .ok value => value.toNat
    | .error _ => 0

/-- How many registers hold each value. -/
def registerHisto (h : HLL) : List Nat := histogramOf (registerValues h)

theorem Holds.registerHisto {table : Table} (holds : Holds h table) : registerHisto h = histogram table := by
  have values : registerValues h = List.ofFn table := by
    unfold registerValues
    congr 1
    funext i
    obtain ⟨value, read, held⟩ := holds.read i
    rw [read]
    exact held
  rw [Proofs.registerHisto, values, histogram]

theorem Built.registerValues_lt {seen : Finset Bytes} (built : Built h seen) : ∀ value ∈ registerValues h, value < 64 := by
  intro value among
  obtain ⟨i, rfl⟩ := (List.mem_ofFn' _ _).mp among
  have small := maxRank_le seen i
  simp only [built.read i, UInt8.toNat_ofNat']
  omega

theorem histogramOf_sum {values : List Nat} (small : ∀ value ∈ values, value < 64) : (histogramOf values).sum = values.length := by
  have all : ∀ value ∈ (values : Multiset Nat), value ∈ Finset.range 64 := by
    intro value among
    exact Finset.mem_range.mpr (small value among)
  have summed (n : Nat) (count : Nat → Nat) : ((List.range n).map count).sum = ∑ value ∈ Finset.range n, count value := rfl
  have every := Multiset.sum_count_eq_card all
  simp only [Multiset.coe_count, Multiset.coe_card] at every
  rw [histogramOf, summed, every]

/-- Counting returns the estimate of the registers' histogram, from the cache or not. The
histogram of the opcodes is that of the counters they are promoted to, and counts every
register; so sketches with the same registers count the same. -/
theorem count_is_of_registers (empty : estimate (registers :: List.replicate 63 0) = 0) (counted : CountedBy estimate h) :
    (∃ after, h.count estimate = .ok (after, estimate (registerHisto h))) ∧
    (h.dirty = false → h.cached = estimate (registerHisto h)) ∧
    (h.enc = .encSparse → ∃ promoted, h.promote = .ok promoted ∧ promoted.enc = .encDense ∧
      sparseHisto h.sparse = .ok (registerHisto h) ∧ promoted.histo = .ok (registerHisto h)) ∧
    (registerHisto h).sum = 16384 ∧
    (∀ other, CountedBy estimate other → (∀ i : Fin registers, readRegister other i = readRegister h i) →
      ∃ after after' n, h.count estimate = .ok (after, n) ∧ other.count estimate = .ok (after', n)) := by
  have counts {h : HLL} (counted : CountedBy estimate h) :
      (∃ after, h.count estimate = .ok (after, estimate (registerHisto h))) ∧
        (h.dirty = false → h.cached = estimate (registerHisto h)) := by
    obtain ⟨seen, built, cached⟩ := counted.built empty
    obtain ⟨after, ran, _⟩ := built.holds.count_eq cached
    rw [built.holds.registerHisto]
    exact ⟨⟨after, ran⟩, cached⟩
  obtain ⟨seen, built, cached⟩ := counted.built empty
  refine ⟨(counts counted).1, (counts counted).2, ?_, ?_, ?_⟩
  · intro mode
    obtain ⟨dense, ran, packed⟩ := built.holds.promote mode
    have promoted : Holds { h with dense := dense, sparse := [], enc := .encDense } (seen.sup point) := .dense rfl packed
    refine ⟨_, ran, rfl, ?_, ?_⟩
    · have histo := built.holds.histo
      rw [HLL.histo, mode] at histo
      rw [built.holds.registerHisto]
      exact histo
    · rw [built.holds.registerHisto]
      exact promoted.histo
  · rw [registerHisto, histogramOf_sum built.registerValues_lt, registerValues, List.length_ofFn]
    rfl
  · intro other counted' same
    have registers : registerHisto other = registerHisto h := by
      unfold registerHisto registerValues
      simp only [same]
    obtain ⟨after, ran⟩ := (counts counted).1
    obtain ⟨after', ran'⟩ := (counts counted').1
    rw [registers] at ran'
    exact ⟨after, after', _, ran, ran'⟩

/-- A sketch of one element, counted by an estimator that counts the registers in use. -/
theorem count_of_one_element :
    ∃ after, (HLL.mk [] [113, 166, 132, 78, 87] .encSparse 0 true).count (fun histo => (histo.drop 1).sum) =
      .ok (after, (fun histo : List Nat => (histo.drop 1).sum) (registerHisto (.mk [] [113, 166, 132, 78, 87] .encSparse 0 true))) := by
  have counted : CountedBy (fun histo => (histo.drop 1).sum) (.mk [] [113, 166, 132, 78, 87] .encSparse 0 true) :=
    .add .new (ascii "a") (show HLL.new.add (ascii "a") = .ok (_, true) from rfl)
  exact (count_is_of_registers (by simp) counted).1

end Rediska.Proofs
