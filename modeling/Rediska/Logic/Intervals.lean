import Mathlib.Algebra.GroupWithZero.Nat
import Mathlib.Data.List.Sort
import Mathlib.Order.Interval.Finset.Nat

/-! Items that each cover the points from a first to a last one. -/

namespace Rediska.Logic

variable {ι τ : Type} [LinearOrder τ] (first last : ι → τ)

def Covers (item : ι) (point : τ) : Prop := first item ≤ point ∧ point ≤ last item

instance (item : ι) (point : τ) : Decidable (Covers first last item point) := inferInstanceAs (Decidable (_ ∧ _))

/-- No point is covered by both. -/
def Apart (a b : ι) : Prop := ∀ point, Covers first last a point → ¬ Covers first last b point

variable {first last}

theorem Apart.symm {a b : ι} (apart : Apart first last a b) : Apart first last b a := fun point there here => apart point here there

theorem Apart.before {a b : ι} (apart : Apart first last a b) (proper : first b ≤ last b) (order : first a ≤ first b) :
    last a < first b := by
  by_contra late
  exact apart (first b) ⟨order, not_lt.mp late⟩ ⟨le_rfl, proper⟩

/-- In the order of their first points, each ends before the next begins. -/
theorem pairwise_before {items : List ι} (sorted : items.Pairwise fun a b => first a ≤ first b)
    (apart : items.Pairwise (Apart first last)) (proper : ∀ item ∈ items, first item ≤ last item) :
    items.Pairwise fun a b => last a < first b := by
  refine (sorted.and apart).imp_of_mem ?_
  intro a b _ inside ⟨order, separate⟩
  exact separate.before (proper b inside) order

/-- There is only one such order. -/
theorem sorted_unique {items sorted other : List ι} (apart : items.Pairwise (Apart first last))
    (proper : ∀ item ∈ items, first item ≤ last item) (perm : sorted.Perm items) (perm' : other.Perm items)
    (order : sorted.Pairwise fun a b => first a ≤ first b) (order' : other.Pairwise fun a b => first a ≤ first b) :
    sorted = other := by
  have ordered {list : List ι} (same : list.Perm items) (order : list.Pairwise fun a b => first a ≤ first b) :
      list.Pairwise fun a b => last a < first b :=
    pairwise_before order (same.symm.pairwise apart Apart.symm) fun item inside => proper item (same.subset inside)
  refine (perm.trans perm'.symm).eq_of_pairwise ?_ (ordered perm order) (ordered perm' order')
  intro a b here there before after
  have properA := proper a (perm.subset here)
  have properB := proper b (perm'.subset there)
  exact absurd (before.trans (properB.trans_lt after)) (not_lt.mpr properA)

/-- An item that covers a point is the only one. -/
theorem filter_covers {items : List ι} (apart : items.Pairwise (Apart first last)) {item : ι} {point : τ} (among : item ∈ items)
    (covers : Covers first last item point) : (items.filter fun other => Covers first last other point) = [item] := by
  induction items with
  | nil => cases among
  | cons head rest ih =>
    obtain ⟨away, apart⟩ := List.pairwise_cons.mp apart
    rcases List.mem_cons.mp among with rfl | later
    · have none : (rest.filter fun other => Covers first last other point) = [] := by
        rw [List.filter_eq_nil_iff]
        intro other there
        simpa using away other there point covers
      rw [List.filter_cons_of_pos (by simpa using covers), none]
    · have elsewhere : ¬ Covers first last head point := fun here => away item later point here covers
      rw [List.filter_cons_of_neg (by simpa using elsewhere)]
      exact ih apart later

/-- The points covered are as many as the lengths add up to. -/
theorem card_covered {first last : ι → ℕ} {items : List ι} (apart : items.Pairwise (Apart first last))
    (proper : ∀ item ∈ items, first item ≤ last item) {bound : ℕ} (inside : ∀ item ∈ items, last item < bound) :
    ((Finset.range bound).filter fun point => ∃ item ∈ items, Covers first last item point).card =
      (items.map fun item => last item - first item + 1).sum := by
  induction items with
  | nil => simp
  | cons item rest ih =>
    obtain ⟨away, apart⟩ := List.pairwise_cons.mp apart
    have split : ((Finset.range bound).filter fun point => ∃ other ∈ item :: rest, Covers first last other point) =
        Finset.Icc (first item) (last item) ∪ (Finset.range bound).filter fun point => ∃ other ∈ rest, Covers first last other point := by
      ext point
      have low := inside item List.mem_cons_self
      simp only [Finset.mem_filter, Finset.mem_range, List.exists_mem_cons_iff, Finset.mem_union, Finset.mem_Icc]
      constructor
      · rintro ⟨below, here | later⟩
        · exact .inl here
        · exact .inr ⟨below, later⟩
      · rintro (here | ⟨below, later⟩)
        · exact ⟨here.2.trans_lt low, .inl here⟩
        · exact ⟨below, .inr later⟩
    have disjoint : Disjoint (Finset.Icc (first item) (last item))
        ((Finset.range bound).filter fun point => ∃ other ∈ rest, Covers first last other point) := by
      rw [Finset.disjoint_left]
      intro point here there
      obtain ⟨_, other, among, covers⟩ := Finset.mem_filter.mp there
      exact away other among point (Finset.mem_Icc.mp here) covers
    rw [split, Finset.card_union_of_disjoint disjoint, Nat.card_Icc,
      ih apart (fun other among => proper other (List.mem_cons_of_mem _ among))
        (fun other among => inside other (List.mem_cons_of_mem _ among)), List.map_cons, List.sum_cons]
    have length := proper item List.mem_cons_self
    omega

end Rediska.Logic
