import Mathlib.Data.Nat.Digits.Defs
import Rediska.Proofs.HllForms
import Rediska.Proofs.StoreRefinement
import Rediska.Proofs.StoreAccounting

/-! How far the memory in use can grow. An entry is weighed as if it held eight bytes at
least: a short text may become a number when its deadline is set anew. By weight, only the
commands that memory is checked for make a store heavier. -/

namespace Rediska.Proofs
open Go Core Hll Storage Spec

def weight (key : Bytes) (e : Entry) : Int := max (entrySize key e) (key.length + 72)

def burden (s : Store) : Int := total weight s.data

variable {env : Env} {policy : Policy} {s middle after : Store} {K : Keyspace} {key value : Bytes} {e old : Entry}

theorem weight_nonneg (key : Bytes) (e : Entry) : 0 ≤ weight key e := by
  unfold weight
  omega

theorem weight_congr (same : entrySize key e = entrySize key old) : weight key e = weight key old := by
  rw [weight, same, weight]

/-- The weight is an eighth more than the size at most. -/
theorem weight_le (key : Bytes) (e : Entry) : entrySize key e ≤ weight key e ∧ 8 * weight key e ≤ 9 * entrySize key e := by
  have least : (key.length : Int) + 64 ≤ entrySize key e := by
    simp only [entrySize, entryOverhead]
    omega
  unfold weight
  omega

theorem Accounted.burden_le (accounted : Accounted s) : s.usedMemory ≤ burden s ∧ 8 * burden s ≤ 9 * s.usedMemory := by
  rw [accounted.memory, burden]
  exact total_between weight_le s.data

theorem Ticked.burden (ticked : Ticked s after) : burden after = burden s := by
  obtain ⟨n, rfl⟩ := ticked
  rfl

theorem burden_removeKey (s : Store) (key : Bytes) : burden (s.removeKey key) ≤ burden s := by
  unfold Store.removeKey
  split
  · exact Int.le_refl _
  next e held =>
    have positive := weight_nonneg key e
    simp only [burden, total_erase weight held]
    omega

theorem burden_insert (held : s.data.lookup key = some old) (data : after.data = s.data.insert key e) :
    burden after = burden s - weight key old + weight key e := by
  rw [burden, data, total_insert_present weight held, burden]

/-- A new entry adds its weight at most. -/
theorem burden_insert_le (data : after.data = s.data.insert key e) : burden after ≤ burden s + weight key e := by
  cases held : s.data.lookup key with
  | none => rw [burden, data, total_insert_absent weight held, burden]
  | some old =>
    have positive := weight_nonneg key old
    rw [burden_insert held data]
    omega

theorem burden_swap (held : s.data.lookup key = some old) (data : after.data = s.data.insert key e)
    (same : entrySize key e = entrySize key old) : burden after = burden s := by
  rw [burden_insert held data, weight_congr same]
  omega

theorem burden_touch (held : s.data.lookup key = some e) (ran : s.touch env key e = .ok after) : burden after = burden s := by
  obtain ⟨⟨stamp, middle⟩, stamped, ran⟩ := bind_ok ran
  obtain ⟨n, rfl⟩ := stampAccess_ticked stamped
  cases ran
  exact burden_swap held rfl rfl

theorem burden_peek {α : Type} {absent : α} (env : Env) (s : Store) (key : Bytes) (seen : Entry → α) :
    burden (peek env s key absent seen).2 ≤ burden s := by
  unfold peek
  split
  · exact Int.le_refl _
  next e _ =>
    have same := (isExpired_ticked env s e).burden
    split
    · exact (burden_removeKey _ key).trans_eq same
    · exact same.le

theorem burden_readKey {α : Type} {absent result : α} {seen : Entry → Panics α} (ran : readKey env s key absent seen = .ok (result, after)) :
    burden after ≤ burden s := by
  unfold readKey at ran
  split at ran
  · cases ran
    exact Int.le_refl _
  next e held =>
    have same := (isExpired_ticked env s e).burden
    split at ran
    · cases ran
      exact (burden_removeKey _ key).trans_eq same
    · obtain ⟨middle, touched, ran⟩ := bind_ok ran
      obtain ⟨_, _, last⟩ := map_ok ran
      cases last
      exact (burden_touch (lookup_isExpired env held) touched).trans same |>.le

theorem burden_getEncoding (env : Env) (s : Store) (key : Bytes) : burden (s.getEncoding env key).2 ≤ burden s := by
  rw [getEncoding_eq]
  apply burden_peek

theorem burden_getFreq (env : Env) (s : Store) (key : Bytes) : burden (s.getFreq env key).2 ≤ burden s := by
  rw [getFreq_eq]
  split
  · exact Int.le_refl _
  · apply burden_peek

theorem burden_ttl (env : Env) (s : Store) (key : Bytes) : burden (s.ttl env key).2 ≤ burden s := by
  unfold Store.ttl
  split
  · exact Int.le_refl _
  · split
    · exact Int.le_refl _
    · dsimp only
      split
      · exact burden_removeKey _ key
      · exact Int.le_refl _

theorem burden_pfCount {n : Int} (ran : s.pfCount env key = .ok (n, after)) : burden after ≤ burden s := by
  unfold Store.pfCount at ran
  split at ran
  · cases ran
    exact Int.le_refl _
  next e held =>
    split at ran
    · cases ran
      exact Int.le_refl _
    · split at ran
      · cases ran
      next h sketch =>
        obtain ⟨⟨counted, count⟩, ran', ran⟩ := bind_ok ran
        obtain ⟨_, rfl⟩ := Prod.mk.inj (Except.ok.inj ran)
        refine (burden_swap held rfl ?_).le
        have size := count_size ran'
        unfold entrySize
        rw [sketch, Option.map_some, Option.map_some, size]

theorem burden_delete (env : Env) (state : Int × Store) (keys : List Bytes) :
    burden (keys.foldl (Store.deleteOne env) state).2 ≤ burden state.2 := by
  induction keys generalizing state with
  | nil => exact Int.le_refl _
  | cons key rest ih =>
    apply (ih _).trans
    unfold Store.deleteOne
    split
    · exact Int.le_refl _
    next e _ => exact (burden_removeKey _ key).trans_eq (isExpired_ticked env state.2 e).burden

theorem burden_deleteExpired (env : Env) (keys : List Bytes) (checked : Nat) (deleted : Int) (s : Store) :
    burden (Store.deleteExpiredFrom env keys checked deleted s).2 ≤ burden s := by
  induction keys generalizing checked deleted s with
  | nil => exact Int.le_refl _
  | cons key rest ih =>
    unfold Store.deleteExpiredFrom
    split
    · exact Int.le_refl _
    · split
      · exact ih checked deleted s
      next e _ =>
        have same := (isExpired_ticked env s e).burden
        split
        · exact ih checked deleted s
        · dsimp only
          split
          · exact (ih _ _ _).trans ((burden_removeKey _ key).trans_eq same)
          · exact (ih _ _ _).trans_eq same

theorem burden_performEvictions {samples maxBytes : Int} (ran : s.performEvictions env samples maxBytes = .ok after) :
    burden after ≤ burden s := by
  refine performEvictions_keeps (fun left => burden left ≤ burden s) ?_ ?_ (Int.le_refl _) ran
  · intro left pool n _ less
    exact less
  · intro left key less
    exact (burden_removeKey left key).trans less

theorem set_inserts (env : Env) (s : Store) (key value : Bytes) (ttl : Int) :
    ∃ expiresAt lru, (s.set env key value ttl).data = s.data.insert key (Store.newEntry value expiresAt lru) := by
  obtain ⟨n, lru, same⟩ := set_data env s key value ttl
  refine ⟨((s.dropOld key).deadline env ttl).1, lru, ?_⟩
  rw [same, ← (dropOld_data s key).1]
  rfl

theorem weight_newEntry (key value : Bytes) (expiresAt : Option Int) (lru : UInt32) :
    weight key (Store.newEntry value expiresAt lru) =
      if detectEncoding value = .int then (key.length : Int) + 72 else max (key.length + value.length + 64) (key.length + 72) := by
  unfold Store.newEntry
  split
  next int =>
    rw [if_pos int]
    simp only [weight, entrySize, entryOverhead]
    omega
  next text =>
    rw [if_neg text]
    have form : detectEncoding value = .embstr ∨ detectEncoding value = .raw := by
      unfold detectEncoding at text ⊢
      split
      next number => simp [number] at text
      next =>
        split
        · exact .inl rfl
        · exact .inr rfl
    rcases form with embstr | raw
    · rw [embstr]
      simp [weight, entrySize, entryOverhead, SDS.new]
    · rw [raw]
      simp [weight, entrySize, entryOverhead, SDS.new]

theorem burden_set (env : Env) (s : Store) (key value : Bytes) (ttl : Int) :
    burden (s.set env key value ttl) ≤ burden s + (key.length + value.length + 72) := by
  obtain ⟨expiresAt, lru, data⟩ := set_inserts env s key value ttl
  have added := burden_insert_le data
  rw [weight_newEntry] at added
  split at added <;> omega

theorem entrySize_text {str : SDS} (tag : e.encoding = .embstr ∨ e.encoding = .raw) (held : e.strVal = some str) :
    entrySize key e = key.length + str.cap + 64 := by
  rcases tag with tag | tag
  all_goals
    simp only [entrySize, tag, held, Option.map_some, Option.getD_some, entryOverhead]
    omega

/-- A text of an entry is not heavier than the entry when it is set again. -/
theorem weight_again {text : Bytes} {item : Item} (shows : Shows env e item) (read : entryText e = .ok (some text)) (expiresAt : Option Int)
    (lru : UInt32) : weight key (Store.newEntry text expiresAt lru) ≤ weight key e := by
  rw [weight_newEntry]
  unfold entryText at read
  cases shows with
  | int tag fits =>
    rw [tag] at read
    cases read
    have number : detectEncoding (itoa e.intVal) = .int := by
      rw [detectEncoding, parseInt_itoa fits]
      rfl
    rw [if_pos number]
    exact Int.le_max_right _ _
  | @embstr str tag held =>
    rw [tag, held] at read
    cases read
    have fits := str.fits
    rw [weight, entrySize_text (.inl tag) held]
    split <;> omega
  | @raw str tag held =>
    rw [tag, held] at read
    cases read
    have fits := str.fits
    rw [weight, entrySize_text (.inr tag) held]
    split <;> omega
  | sketch tag =>
    rw [tag] at read
    cases read

theorem burden_expire {text : Bytes} (same : Represents env policy s K) (got : s.get env key = .ok (some text, middle)) (ttl : Int) :
    burden (middle.set env key text ttl) ≤ burden s := by
  rw [get_eq] at got
  have less := burden_readKey got
  unfold readKey at got
  split at got
  · cases got
  next e held =>
    split at got
    · cases got
    · obtain ⟨touched, stamped, got⟩ := bind_ok got
      obtain ⟨read, texts, last⟩ := map_ok got
      cases last
      obtain ⟨item, _, shows⟩ := same.item held
      obtain ⟨⟨stamp, ticked⟩, _, stamped⟩ := bind_ok stamped
      cases stamped
      obtain ⟨expiresAt, lru, data⟩ := set_inserts env { ticked with data := ticked.data.insert key { e with lru := stamp } } key text ttl
      have again : weight key (Store.newEntry text expiresAt lru) ≤ weight key e := weight_again shows texts expiresAt lru
      have here : AList.lookup key (ticked.data.insert key { e with lru := stamp }) = some { e with lru := stamp } := AList.lookup_insert _
      have kept : weight key { e with lru := stamp } = weight key e := rfl
      rw [burden_insert here data, kept]
      omega

/-- The built-in append takes up to three times of what is needed. How much it reserves is
not for the source to say, but it does not reserve at random. -/
def TightGrowth (growth : Growth) : Prop := ∀ cap needed, growth.grow cap needed ≤ 3 * needed + 8

theorem appendString_cap {growth : Growth} (tight : TightGrowth growth) (str : SDS) (v : Bytes) :
    (str.appendString growth v).cap ≤ str.cap + v.length + 3 * 2 ^ 20 + 8 := by
  have fits := str.fits
  have grown := tight str.cap (str.buf.length + v.length)
  unfold SDS.appendString
  dsimp only
  by_cases large : sdsMaxPreAlloc < str.buf.length + v.length
  · have reserve : reserved str.cap (str.buf.length + v.length) = str.buf.length + v.length + sdsMaxPreAlloc := by
      rw [reserved, if_pos large, growTo, if_neg (Nat.lt_asymm large)]
    rw [reserve, if_pos (Nat.le_add_right _ _), sdsMaxPreAlloc]
    omega
  · rw [reserved, if_neg large]
    rw [sdsMaxPreAlloc] at large
    split <;> omega

theorem itoa_length {n : Int} (fits : IsInt64 n) : (itoa n).length ≤ 20 := by
  have digits {m : Nat} (small : m < 10 ^ 19) : (natText m).length ≤ 19 := by
    rw [natText, List.length_map]
    exact Nat.toDigits_length 10 m 19 (by decide) small
  simp only [IsInt64, minInt64, maxInt64] at fits
  unfold itoa
  split
  · have short := digits (m := n.natAbs) (by omega)
    simp only [List.length_cons]
    omega
  · have short := digits (m := n.natAbs) (by omega)
    omega

theorem burden_append {n : Int} (tight : TightGrowth env.growth) (same : Represents env policy s K)
    (ran : s.append env key value = .ok (n, after)) :
    burden after ≤ burden s + (key.length + value.length + 3 * 2 ^ 20 + 100) := by
  unfold Store.append at ran
  split at ran
  · cases ran
    have set := burden_set env s key value 0
    omega
  next old held =>
    dsimp only at ran
    split at ran
    · cases ran
    next buf found =>
      obtain ⟨⟨stamp, middle⟩, stamped, ran⟩ := bind_ok ran
      cases ran
      obtain ⟨n, rfl⟩ := stampAccess_ticked stamped
      obtain ⟨item, _, shows⟩ := same.item held
      have grown := appendString_cap tight buf value
      have room : (buf.cap : Int) ≤ weight key old - key.length - 64 + 12 := by
        cases shows with
        | int tag fits =>
          rw [if_pos tag] at found
          cases found
          have short := itoa_length fits
          have least : (key.length : Int) + 72 ≤ weight key old := Int.le_max_right _ _
          simp only [SDS.new]
          omega
        | embstr tag value =>
          rw [if_neg (by rw [tag]; decide), value] at found
          cases found
          have least := (weight_le key old).1
          rw [entrySize_text (.inl tag) value] at least
          omega
        | raw tag value =>
          rw [if_neg (by rw [tag]; decide), value] at found
          cases found
          have least := (weight_le key old).1
          rw [entrySize_text (.inr tag) value] at least
          omega
        | sketch tag _ empty =>
          rw [if_neg (by rw [tag]; decide), empty] at found
          cases found
      have least : (key.length : Int) + 72 ≤ weight key old := Int.le_max_right _ _
      have now : weight key ⟨.raw, 0, some (buf.appendString env.growth value), none, old.expiresAt, stamp⟩ =
          max ((key.length : Int) + (buf.appendString env.growth value).cap + 64) (key.length + 72) := by
        rw [weight, entrySize_text (.inr rfl) rfl]
      rw [burden_insert held rfl, now]
      omega

theorem promoteIf_short {h after : HLL} (ran : h.promoteIf (hllSparseMaxBytes < h.sparse.length) = .ok after) (mode : after.enc = .encSparse) :
    after.sparse.length ≤ 3000 := by
  unfold HLL.promoteIf at ran
  split at ran
  · rw [(promote_dense ran).1] at mode
    cases mode
  next fits =>
    cases ran
    exact Nat.le_of_not_lt fits

/-- A sketch in its sparse form is short once something was added. -/
theorem add_short {h after : HLL} {v : Bytes} {changed : Bool} (ran : h.add v = .ok (after, changed)) (mode : after.enc = .encSparse) :
    after.sparse.length ≤ 3000 := by
  unfold HLL.add at ran
  obtain ⟨ready, _, ran⟩ := bind_ok ran
  obtain ⟨⟨added, grew⟩, ranked, ran⟩ := bind_ok ran
  cases ran
  have sparse : added.enc = .encSparse := by split at mode <;> exact mode
  have short : added.sparse.length ≤ 3000 := by
    unfold HLL.addRank at ranked
    split at ranked
    · obtain ⟨⟨written, ch⟩, _, ranked⟩ := bind_ok ranked
      obtain ⟨promoted, kept, ranked⟩ := bind_ok ranked
      cases ranked
      exact promoteIf_short kept sparse
    next dense =>
      obtain ⟨_, _, ranked⟩ := bind_ok ranked
      cases ranked
      rw [dense] at sparse
      cases sparse
  split <;> exact short

theorem addValues_short {values : List Bytes} {h after : Option HLL} {changed grew : Bool}
    (ran : Store.addValues values h changed = .ok (after, grew)) :
    after = h ∨ ∀ added, after = some added → added.enc = .encSparse → added.sparse.length ≤ 3000 := by
  unfold Store.addValues at ran
  induction values generalizing h changed with
  | nil =>
    cases ran
    exact .inl rfl
  | cons v rest ih =>
    obtain ⟨⟨middle, more⟩, first, later⟩ := bind_ok ran
    rcases ih later with rfl | short
    · unfold Store.addValue at first
      split at first
      · cases first
      · obtain ⟨⟨added, _⟩, one, first⟩ := bind_ok first
        cases first
        refine .inr ?_
        intro other same mode
        cases same
        exact add_short one mode
    · exact .inr short

/-- A sketch that is short while it is sparse takes no more than the dense form. -/
theorem entrySize_sketch (same : Represents env policy s K) (held : s.data.lookup key = some e) (tag : e.encoding = .hll)
    (short : ∀ h, e.hllVal = some h → h.enc = .encSparse → h.sparse.length ≤ 3000) : entrySize key e ≤ key.length + 12353 := by
  obtain ⟨item, _, shows⟩ := same.item held
  cases shows with
  | int other | embstr other | raw other =>
    rw [other] at tag
    cases tag
  | @sketch h table _ value _ holds =>
    have size : h.size ≤ 12289 := by
      unfold HLL.size
      split
      next mode => exact (short h value mode).trans (by decide)
      next mode =>
        have dense : h.enc = .encDense := by
          cases form : h.enc with
          | encSparse => exact absurd form mode
          | encDense => rfl
        exact (holds.array_length dense).le
    simp only [entrySize, tag, value, Option.map_some, Option.getD_some, entryOverhead]
    omega

theorem sketch_added (same : Represents env policy after K) (data : after.data = s.data.insert key e) (tag : e.encoding = .hll)
    (short : ∀ h, e.hllVal = some h → h.enc = .encSparse → h.sparse.length ≤ 3000) : burden after ≤ burden s + (key.length + 12353) := by
  have held : after.data.lookup key = some e := by
    rw [data]
    exact AList.lookup_insert _
  have size := entrySize_sketch same held tag short
  have added := burden_insert_le data
  unfold weight at added
  omega

theorem burden_pfAdd {values : List Bytes} {changed : Option Bool} (same : Represents env policy after K)
    (ran : s.pfAdd env key values = .ok (changed, after)) : burden after ≤ burden s + (key.length + 12353) := by
  -- A key that was not there, or has just been removed, holds what was added to an empty sketch.
  have created {s : Store} {h : Option HLL} {grew : Bool} {stamp : UInt32} (added : Store.addValues values (some .new) true = .ok (h, grew))
      (data : after.data = s.data.insert key ⟨.hll, 0, none, h, none, stamp⟩) : burden after ≤ burden s + (key.length + 12353) := by
    refine sketch_added same data rfl ?_
    rcases addValues_short added with rfl | short
    · intro h fresh _
      cases fresh
      decide
    · exact short
  unfold Store.pfAdd at ran
  dsimp only at ran
  split at ran
  next absent =>
    obtain ⟨⟨h, grew⟩, added, ran⟩ := bind_ok ran
    cases ran
    exact created added rfl
  next e held =>
    have ticked := (isExpired_ticked env s e).burden
    split at ran
    · obtain ⟨⟨h, grew⟩, added, ran⟩ := bind_ok ran
      cases ran
      have removed := burden_removeKey (s.isExpired env e).2 key
      have grown := created (s := (s.isExpired env e).2.removeKey key) added rfl
      omega
    · split at ran
      · cases ran
        omega
      next sketch =>
        obtain ⟨⟨stamp, middle⟩, stamped, ran⟩ := bind_ok ran
        obtain ⟨⟨h, grew⟩, added, ran⟩ := bind_ok ran
        cases ran
        obtain ⟨n, rfl⟩ := stampAccess_ticked stamped
        rcases addValues_short added with rfl | short
        · have kept {after : Store} (data : after.data = (s.isExpired env e).2.data.insert key { e with lru := stamp }) :
              burden after = burden (s.isExpired env e).2 := burden_swap (lookup_isExpired env held) data rfl
          refine (kept rfl).trans_le ?_
          omega
        · have grown : burden _ ≤ burden (s.isExpired env e).2 + (key.length + 12353) :=
            sketch_added same rfl (Decidable.not_not.mp sketch) short
          omega

theorem mergeKeys_form {keys : List Bytes} {h acc : HLL} (before : OneForm h) (merged : forEach keys s.mergeKey h = .ok acc) : OneForm acc := by
  induction keys generalizing h with
  | nil =>
    cases merged
    exact before
  | cons key rest ih =>
    obtain ⟨next, first, later⟩ := bind_ok merged
    refine ih ?_ later
    unfold Store.mergeKey at first
    split at first
    · cases first
      exact before
    · split at first
      · cases first
        exact before
      · split at first
        · cases first
        · obtain ⟨⟨joined, _⟩, one, rfl⟩ := map_ok first
          exact before.merge one

theorem burden_pfMerge {dest : Bytes} {sources : List Bytes} (same : Represents env policy after K)
    (ran : s.pfMerge env dest sources = .ok after) : burden after ≤ burden s + (dest.length + 12353) := by
  obtain ⟨acc, merged, ran⟩ := bind_ok ran
  obtain rfl := Except.ok.inj ran
  have data : ∀ n (lru : UInt32), (Store.record { s.dropOld dest with tick := n } dest ⟨.hll, 0, none, some acc, none, lru⟩).data =
      s.data.insert dest ⟨.hll, 0, none, some acc, none, lru⟩ := by
    intro n lru
    exact congrArg (AList.insert dest _) (dropOld_data s dest).1
  refine sketch_added same (data _ _) rfl ?_
  intro h last mode
  cases last
  have fresh : OneForm HLL.new := ⟨fun _ => ⟨rfl, by decide⟩, by simp [HLL.new]⟩
  exact ((mergeKeys_form fresh merged).sparse mode).2

end Rediska.Proofs
