import Mathlib.Data.Finset.Card
import Rediska.Proofs.EncodingVisibility

/-! What deleting a list of keys removes and counts, whichever of them are listed twice,
missing or expired. -/

namespace Rediska.Proofs
open Go Storage

/-- The key holds an entry that is not expired at a time. -/
def liveAt (s : Store) (now : Int) (key : Bytes) : Bool := (s.data.lookup key).any fun e => ! expiredAt now e

/-- The distinct keys of a list that are live at a time. -/
def liveKeys (s : Store) (now : Int) (keys : List Bytes) : Finset Bytes := keys.toFinset.filter fun key => liveAt s now key

theorem liveAt_iff {s : Store} {now : Int} {key : Bytes} :
    liveAt s now key = true ↔ ∃ e, s.data.lookup key = some e ∧ expiredAt now e = false := by
  simp [liveAt, Option.any_eq_true]

theorem mem_liveKeys {s : Store} {now : Int} {keys : List Bytes} {key : Bytes} :
    key ∈ liveKeys s now keys ↔ key ∈ keys ∧ ∃ e, s.data.lookup key = some e ∧ expiredAt now e = false := by
  rw [liveKeys, Finset.mem_filter, List.mem_toFinset, liveAt_iff]

/-- All readings between two states of the store show one time. -/
def OneTime (env : Env) (s after : Store) (now : Int) : Prop := ∀ i, s.tick ≤ i → i < after.tick → env.clock i = now

/-- What deleting one key makes of the store. A deadline takes a reading, whatever it shows. -/
def dropKey (s : Store) (key : Bytes) : Store :=
  match s.data.lookup key with
  | none => s
  | some e => Store.removeKey { s with tick := s.tick + if e.expiresAt = none then 0 else 1 } key

theorem deleteOne_eq (env : Env) (state : Int × Store) (key : Bytes) :
    Store.deleteOne env state key =
      (state.1 + if liveAt state.2 (env.clock state.2.tick) key then 1 else 0, dropKey state.2 key) := by
  unfold Store.deleteOne dropKey liveAt
  cases state.2.data.lookup key with
  | none => simp
  | some e =>
    dsimp only
    rw [isExpired_expiredAt, isExpired_ticks]
    cases expired : expiredAt (env.clock state.2.tick) e <;> simp [expired]

theorem delete_store (env : Env) (keys : List Bytes) (state : Int × Store) :
    (keys.foldl (Store.deleteOne env) state).2 = keys.foldl dropKey state.2 := by
  induction keys generalizing state with
  | nil => rfl
  | cons key rest ih => rw [List.foldl_cons, ih, deleteOne_eq, List.foldl_cons]

/-! The order of the keys. -/

theorem dropKey_absent {s : Store} {key : Bytes} (absent : s.data.lookup key = none) : dropKey s key = s := by
  simp only [dropKey, absent]

theorem dropKey_held {s : Store} {key : Bytes} {e : Entry} (held : s.data.lookup key = some e) :
    dropKey s key = { s with
      usedMemory := s.usedMemory - entrySize key e, data := s.data.erase key, keys := s.keys - 1,
      tick := s.tick + if e.expiresAt = none then 0 else 1 } := by
  simp only [dropKey, held, Store.removeKey]

theorem lookup_dropKey (s : Store) (key j : Bytes) : (dropKey s key).data.lookup j = if j = key then none else s.data.lookup j := by
  cases held : s.data.lookup key with
  | none =>
    rw [dropKey_absent held]
    split
    next same => rw [same, held]
    next => rfl
  | some e =>
    rw [dropKey_held held]
    exact lookup_erase_if s.data key j

theorem dropKey_tick (s : Store) (key : Bytes) : s.tick ≤ (dropKey s key).tick := by
  cases held : s.data.lookup key with
  | none => rw [dropKey_absent held]
  | some e =>
    rw [dropKey_held held]
    exact Nat.le_add_right _ _

theorem dropKey_reading {s : Store} {key : Bytes} {e : Entry} (held : s.data.lookup key = some e) (limited : e.expiresAt ≠ none) :
    s.tick < (dropKey s key).tick := by
  rw [dropKey_held held, if_neg limited]
  exact Nat.lt_succ_self _

/-- Of two keys either may go first. -/
theorem dropKey_comm (s : Store) (a b : Bytes) : dropKey (dropKey s a) b = dropKey (dropKey s b) a := by
  by_cases same : a = b
  · rw [same]
  · have after (x y : Bytes) (other : y ≠ x) : (dropKey s x).data.lookup y = s.data.lookup y := by
      rw [lookup_dropKey, if_neg other]
    have first := after a b (Ne.symm same)
    have second := after b a same
    cases heldA : s.data.lookup a with
    | none =>
      rw [heldA] at second
      rw [dropKey_absent heldA, dropKey_absent second]
    | some e =>
      cases heldB : s.data.lookup b with
      | none =>
        rw [heldB] at first
        rw [dropKey_absent first, dropKey_absent heldB]
      | some f =>
        rw [heldA] at second
        rw [heldB] at first
        rw [dropKey_held first, dropKey_held second, dropKey_held heldA, dropKey_held heldB]
        simp only [AList.erase_erase a b, sub_right_comm, Nat.add_right_comm]

theorem delete_perm (env : Env) (s : Store) {keys other : List Bytes} (perm : other.Perm keys) :
    (s.delete env other).2 = (s.delete env keys).2 := by
  have comm : RightCommutative dropKey := ⟨dropKey_comm⟩
  rw [Store.delete, Store.delete, delete_store, delete_store]
  exact perm.foldl_eq s

/-! The count. -/

/-- What deleting some keys does: `counted` are the keys that made the count. An entry
without a deadline is live without a reading; for any other one reading decides. -/
structure Deletion (env : Env) (keys : List Bytes) (s : Store) (counted : Finset Bytes) (after : Store) : Prop where
  data : ∀ key, after.data.lookup key = if key ∈ keys then none else s.data.lookup key
  later : s.tick ≤ after.tick
  listed : ∀ key ∈ counted, key ∈ keys
  alive : ∀ key ∈ counted, ∃ e, s.data.lookup key = some e ∧
    ∃ i, s.tick ≤ i ∧ (e.expiresAt ≠ none → i < after.tick) ∧ expiredAt (env.clock i) e = false
  dead : ∀ key ∈ keys, key ∉ counted → ∀ e, s.data.lookup key = some e →
    ∃ i, s.tick ≤ i ∧ i < after.tick ∧ expiredAt (env.clock i) e = true

private theorem mem_insert_if {live : Bool} {j key : Bytes} {counted : Finset Bytes} :
    j ∈ (if live then insert key counted else counted) ↔ j = key ∧ live = true ∨ j ∈ counted := by
  cases live <;> simp

namespace Deletion
variable {env : Env} {key : Bytes} {keys : List Bytes} {s after : Store} {counted : Finset Bytes}

/-- The key that is deleted first is not found again, so it counts once at most. -/
theorem cons (rest : Deletion env keys (dropKey s key) counted after) :
    Deletion env (key :: keys) s (if liveAt s (env.clock s.tick) key then insert key counted else counted) after := by
  have ticks := dropKey_tick s key
  have reading {e : Entry} (held : s.data.lookup key = some e) (limited : e.expiresAt ≠ none) : s.tick < after.tick :=
    Nat.lt_of_lt_of_le (dropKey_reading held limited) rest.later
  constructor
  case data =>
    intro j
    rw [rest.data, lookup_dropKey]
    by_cases same : j = key <;> simp [same]
  case later => exact Nat.le_trans ticks rest.later
  case listed =>
    intro j inside
    rcases mem_insert_if.mp inside with ⟨same, _⟩ | later
    · rw [same]
      exact List.mem_cons_self
    · exact List.mem_cons_of_mem key (rest.listed j later)
  case alive =>
    intro j inside
    rcases mem_insert_if.mp inside with ⟨rfl, live⟩ | later
    · obtain ⟨e, held, lives⟩ := liveAt_iff.mp live
      exact ⟨e, held, s.tick, Nat.le_refl _, reading held, lives⟩
    · obtain ⟨e, held, i, reached, within, lives⟩ := rest.alive j later
      rw [lookup_dropKey] at held
      split at held
      · cases held
      · exact ⟨e, held, i, Nat.le_trans ticks reached, within, lives⟩
  case dead =>
    intro j inside uncounted e held
    by_cases same : j = key
    · subst same
      have expired : expiredAt (env.clock s.tick) e = true := by
        by_contra lives
        apply uncounted
        exact mem_insert_if.mpr (.inl ⟨rfl, liveAt_iff.mpr ⟨e, held, Bool.eq_false_iff.mpr lives⟩⟩)
      have limited : e.expiresAt ≠ none := by
        intro none
        rw [expiredAt, none] at expired
        cases expired
      exact ⟨s.tick, Nat.le_refl _, reading held limited, expired⟩
    · have later : j ∈ keys := (List.mem_cons.mp inside).resolve_left same
      have skipped : j ∉ counted := fun counts => uncounted (mem_insert_if.mpr (.inr counts))
      have found : (dropKey s key).data.lookup j = some e := by rw [lookup_dropKey, if_neg same, held]
      obtain ⟨i, reached, within, expired⟩ := rest.dead j later skipped e found
      exact ⟨i, Nat.le_trans ticks reached, within, expired⟩

theorem first_uncounted (rest : Deletion env keys (dropKey s key) counted after) : key ∉ counted := by
  intro counts
  obtain ⟨e, held, _⟩ := rest.alive key counts
  rw [lookup_dropKey, if_pos rfl] at held
  cases held

end Deletion

theorem delete_counts (env : Env) (keys : List Bytes) (n : Int) (s : Store) :
    ∃ counted, Deletion env keys s counted (keys.foldl (Store.deleteOne env) (n, s)).2 ∧
      (keys.foldl (Store.deleteOne env) (n, s)).1 = n + counted.card := by
  induction keys generalizing n s with
  | nil => exact ⟨∅, ⟨by simp, Nat.le_refl _, by simp, by simp, by simp⟩, by simp⟩
  | cons key rest ih =>
    rw [List.foldl_cons, deleteOne_eq]
    obtain ⟨counted, deleted, count⟩ := ih (n + if liveAt s (env.clock s.tick) key then 1 else 0) (dropKey s key)
    refine ⟨_, deleted.cons, ?_⟩
    rw [count]
    split
    · rw [Finset.card_insert_of_notMem deleted.first_uncounted]
      omega
    · omega

namespace Deletion
variable {env : Env} {keys : List Bytes} {s after : Store} {counted : Finset Bytes} (deleted : Deletion env keys s counted after)
include deleted

/-- At one time, the keys that count are those that are live. -/
theorem counted_eq {now : Int} (still : OneTime env s after now) : counted = liveKeys s now keys := by
  ext key
  rw [mem_liveKeys]
  constructor
  · intro counts
    obtain ⟨e, held, i, reached, within, lives⟩ := deleted.alive key counts
    refine ⟨deleted.listed key counts, e, held, ?_⟩
    by_cases limited : e.expiresAt = none
    · rw [expiredAt, limited]
    · rw [← still i reached (within limited)]
      exact lives
  · intro named
    obtain ⟨listed, e, held, lives⟩ := named
    by_contra skipped
    obtain ⟨i, reached, within, expired⟩ := deleted.dead key listed skipped e held
    rw [still i reached within, lives] at expired
    cases expired

/-- What counts was live at the start. -/
theorem counted_le : counted ⊆ liveKeys s (env.clock s.tick) keys := by
  intro key counts
  obtain ⟨e, held, i, reached, _, lives⟩ := deleted.alive key counts
  refine mem_liveKeys.mpr ⟨deleted.listed key counts, e, held, ?_⟩
  apply Bool.eq_false_iff.mpr
  intro expired
  rw [expiredAt_mono (env.forward _ _ reached) expired] at lives
  cases lives

/-- What is still live after the call has been counted. -/
theorem le_counted {i : Nat} (past : after.tick ≤ i) : liveKeys s (env.clock i) keys ⊆ counted := by
  intro key live
  obtain ⟨listed, e, held, lives⟩ := mem_liveKeys.mp live
  by_contra skipped
  obtain ⟨j, _, within, expired⟩ := deleted.dead key listed skipped e held
  rw [expiredAt_mono (env.forward _ _ (Nat.le_trans (Nat.le_of_lt within) past)) expired] at lives
  cases lives

end Deletion

/-- Deleting removes the keys of the list and no other. At one time it counts those that
were live, each once, and their order does not matter. The clock is read for each key that has
a deadline; if it moves, then a key that expires during the call may count or not, and that
alone depends on the order. -/
theorem delete_counts_live (env : Env) (s : Store) (keys : List Bytes) :
    (∀ key, (s.delete env keys).2.data.lookup key = if key ∈ keys then none else s.data.lookup key) ∧
    (∀ now, OneTime env s (s.delete env keys).2 now → (s.delete env keys).1 = (liveKeys s now keys).card ∧
      ∀ other, other.Perm keys → s.delete env other = s.delete env keys) ∧
    (∀ i, (s.delete env keys).2.tick ≤ i → ((liveKeys s (env.clock i) keys).card : Int) ≤ (s.delete env keys).1) ∧
    (s.delete env keys).1 ≤ (liveKeys s (env.clock s.tick) keys).card ∧
    ∀ other, other.Perm keys → (s.delete env other).2 = (s.delete env keys).2 := by
  have counts (keys : List Bytes) : ∃ counted, Deletion env keys s counted (s.delete env keys).2 ∧ (s.delete env keys).1 = counted.card := by
    obtain ⟨counted, deleted, count⟩ := delete_counts env keys 0 s
    exact ⟨counted, deleted, by rw [Store.delete, count, Int.zero_add]⟩
  obtain ⟨counted, deleted, count⟩ := counts keys
  refine ⟨deleted.data, ?_, ?_, ?_, fun other perm => delete_perm env s perm⟩
  · intro now still
    refine ⟨by rw [count, deleted.counted_eq still], ?_⟩
    intro other perm
    have store := delete_perm env s perm
    obtain ⟨counted', deleted', count'⟩ := counts other
    have listed : liveKeys s now other = liveKeys s now keys := by
      rw [liveKeys, liveKeys, List.toFinset_eq_of_perm _ _ perm]
    apply Prod.ext
    · rw [count, count', deleted.counted_eq still, deleted'.counted_eq (store ▸ still), listed]
    · exact store
  · intro i past
    rw [count]
    exact Int.ofNat_le.mpr (Finset.card_le_card (deleted.le_counted past))
  · rw [count]
    exact Int.ofNat_le.mpr (Finset.card_le_card deleted.counted_le)

/-- A store with one key, which has a deadline. -/
def storeOfTimed : Store := (Store.new .noeviction).set (.still 0) (ascii "k") (ascii "v") 5

/-- The key is listed twice, behind one that is missing. -/
theorem delete_listed_twice :
    (storeOfTimed.delete (.still 0) [ascii "m", ascii "k", ascii "k"]).1 =
      (liveKeys storeOfTimed 0 [ascii "m", ascii "k", ascii "k"]).card ∧
    storeOfTimed.delete (.still 0) [ascii "k", ascii "m", ascii "k"] =
      storeOfTimed.delete (.still 0) [ascii "m", ascii "k", ascii "k"] := by
  obtain ⟨count, order⟩ := (delete_counts_live (.still 0) storeOfTimed [ascii "m", ascii "k", ascii "k"]).2.1 0 fun _ _ _ => rfl
  exact ⟨count, order _ (List.Perm.swap _ _ _)⟩

end Rediska.Proofs
