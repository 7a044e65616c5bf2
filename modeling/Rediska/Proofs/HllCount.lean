import Rediska.Proofs.HllRegisters
import Rediska.Storage.Entry

/-! The count of a sketch is a function of its table: the histogram of the registers,
read in either form, goes through the estimator. -/

namespace Rediska.Proofs
open Go Hll Logic Storage

theorem addToHisto_histogramOf (values : List Nat) {value : UInt8} (small : value.toNat < 64) (n : Nat) :
    addToHisto (histogramOf values) value n = .ok (histogramOf (values ++ List.replicate n value.toNat)) := by
  have read : (histogramOf values)[value.toNat]? = some (values.count value.toNat) := by
    simp [histogramOf, small]
  simp only [addToHisto, read]
  congr 1
  apply List.ext_getElem
  · simp [histogramOf]
  · intro v left right
    simp only [histogramOf, List.length_set, List.length_map, List.length_range] at left
    rw [List.getElem_set]
    simp only [histogramOf, List.getElem_map, List.getElem_range, List.count_append, List.count_replicate]
    by_cases same : value.toNat = v
    · simp [same]
    · simp [same]

theorem take_run {regs : List UInt8} {j n : Nat} {value : UInt8}
    (run : ∀ k < n, regs[j + k]? = some value) : regs.take (j + n) = regs.take j ++ List.replicate n value := by
  rw [List.take_add]
  congr 1
  apply List.ext_getElem?
  intro k
  rw [List.getElem?_take, List.getElem?_drop, List.getElem?_replicate]
  split
  next below => exact run k below
  next => rfl

theorem sparseHisto_denotes {sparse : Bytes} {regs : List UInt8} (denotes : Denotes sparse regs) :
    sparseHisto sparse = .ok (histogramOf (regs.map UInt8.toNat)) := by
  have walked := walkSparse_invariant (fun _ runLen value histo => (addToHisto histo value runLen).map (·, true)) denotes
    (fun j histo => histo = histogramOf ((regs.take j).map UInt8.toNat)) emptyHisto rfl ?_
  · obtain ⟨final, ran, counted⟩ := walked
    rw [List.take_length] at counted
    rw [sparseHisto, ran, counted]
  · intro j n value histo positive _ run counted
    subst counted
    have small : value.toNat ≤ 32 := UInt8.le_iff_toNat_le.mp (denotes.small value (List.mem_of_getElem? (run 0 positive)))
    refine ⟨_, ?_, rfl⟩
    rw [addToHisto_histogramOf _ (by omega), take_run run, List.map_append, List.map_replicate]
    rfl

theorem Packed.histo {dense : Bytes} {table : Table} (packed : Packed dense table) :
    forRange registers (fun i histo => do
      let value ← getDenseRegister dense i
      addToHisto histo value 1) emptyHisto = .ok (histogram table) := by
  have counted := forRange_invariant registers
    (fun i histo => getDenseRegister dense i >>= fun value => addToHisto histo value 1) emptyHisto
    (fun k histo => histo = histogramOf ((List.ofFn table).take k)) rfl ?_
  · obtain ⟨final, ran, counted⟩ := counted
    rw [List.take_of_length_le (by simp)] at counted
    rw [histogram, ← counted]
    exact ran
  · intro k histo inside counted
    subst counted
    obtain ⟨value, read, held⟩ := packed.reads ⟨k, inside⟩
    have small : value.toNat ≤ 63 := UInt8.le_iff_toNat_le.mp (packed.small read)
    refine ⟨_, ?_, rfl⟩
    rw [read]
    have next : (List.ofFn table).take (k + 1) = (List.ofFn table).take k ++ List.replicate 1 value.toNat := by
      rw [List.take_succ_eq_append_getElem (by simpa using inside)]
      simp [held]
    rw [next]
    exact addToHisto_histogramOf _ (by omega) 1

theorem tableOf_values {regs : List UInt8} (full : regs.length = registers) : List.ofFn (tableOf regs) = regs.map UInt8.toNat := by
  apply List.ext_getElem
  · simp [full]
  · intro i left right
    simp only [List.length_map] at right
    simp [tableOf, List.getD_eq_getElem?_getD, right]

theorem Holds.histo {h : HLL} {table : Table} (holds : Holds h table) : h.histo = .ok (histogram table) := by
  cases holds with
  | sparse mode denotes full =>
    rw [HLL.histo, mode, histogram, tableOf_values full]
    exact sparseHisto_denotes denotes
  | dense mode packed =>
    rw [HLL.histo, mode]
    exact packed.histo

/-- A clean cache holds the estimate of the table. -/
def Cached (estimate : List Nat → Nat) (h : HLL) (table : Table) : Prop :=
  h.dirty = false → h.cached = estimate (histogram table)

theorem Holds.count_eq {h : HLL} {table : Table} (holds : Holds h table) {estimate : List Nat → Nat}
    (cached : Cached estimate h table) :
    ∃ after, h.count estimate = .ok (after, estimate (histogram table)) ∧ Holds after table ∧ Cached estimate after table := by
  unfold HLL.count
  cases dirty : h.dirty with
  | false =>
    refine ⟨h, ?_, holds, cached⟩
    rw [if_pos (by simp), cached dirty]
  | true =>
    refine ⟨{ h with cached := estimate (histogram table), dirty := false }, ?_, holds.congr rfl rfl rfl, fun _ => rfl⟩
    rw [if_neg (by simp), holds.histo]
    rfl

theorem histogram_bot : histogram ⊥ = registers :: List.replicate 63 0 := by
  have values : List.ofFn (⊥ : Table) = List.replicate registers 0 := List.ofFn_const registers 0
  rw [histogram, histogramOf, values]
  apply List.ext_getElem
  · simp
  · intro v left right
    cases v with
    | zero => simp
    | succ v =>
      rw [List.getElem_cons_succ, List.getElem_replicate, List.getElem_map, List.getElem_range, List.count_replicate]
      rfl

theorem Cached.new (env : Env) : Cached env.estimate HLL.new ⊥ := by
  intro _
  rw [histogram_bot, env.estimate_empty]
  rfl

/-- While the cache is clean nothing has grown since it was filled. -/
theorem Cached.grown {estimate : List Nat → Nat} {h after : HLL} {table grown : Table} {changed : Bool}
    (cached : Cached estimate h table) (growth : Grown table grown changed) (value : after.cached = h.cached)
    (flag : after.dirty = (h.dirty || changed)) : Cached estimate after grown := by
  intro clean
  rw [flag, Bool.or_eq_false_iff] at clean
  have unchanged : ¬ table < grown := fun larger => by
    rw [growth.flag.mpr larger] at clean
    cases clean.2
  rw [value, cached clean.1, eq_of_le_of_not_lt growth.above unchanged]

end Rediska.Proofs
