import Rediska.Go.Decimal
import Rediska.Proofs.StoreRefinement

/-! Which texts the store gives back as they were stored. -/

namespace Rediska.Proofs
open Go Core Hll Storage Spec

/-- What a read returns, apart from the store it leaves. -/
def reading (env : Env) (s : Store) (key : Bytes) : Panics (Option Bytes) := (s.get env key).map Prod.fst

variable {env : Env} {s : Store} {key : Bytes} {e : Entry}

theorem reading_absent (absent : s.data.lookup key = none) : reading env s key = .ok none := by
  simp only [reading, Store.get, absent]
  rfl

theorem get_held (held : s.data.lookup key = some e) :
    s.get env key = if (s.isExpired env e).1 then .ok (none, (s.isExpired env e).2.removeKey key)
      else (s.isExpired env e).2.touch env key e >>= fun v => (entryText e).map (·, v) := by
  rw [get_eq, readKey, held]

/-- A read looks at the entry, the clock and the settings only. -/
theorem reading_held (held : s.data.lookup key = some e) :
    reading env s key =
      if (s.isExpired env e).1 then .ok none else Keyspace.touch (rulesOf env s.policy) >>= fun _ => entryText e := by
  rw [reading, get_held held]
  split
  · rfl
  · obtain ⟨n, ticked⟩ := isExpired_ticked env s e
    have policy : (s.isExpired env e).2.policy = s.policy := by rw [ticked]
    obtain ⟨stamp, m, stamped⟩ := stampAccess_eq env policy e.lru
    rw [Store.touch, stamped]
    cases Keyspace.touch (rulesOf env s.policy) with
    | error p => rfl
    | ok =>
      simp only [ok_bind]
      cases entryText e <;> rfl

theorem stampAccess_returns (decays : env.lfuDecayTime ≠ 0) (s : Store) (current : UInt32) :
    ∃ stamp, s.stampAccess env current = .ok (stamp, { s with tick := s.tick + if s.isLFU then 2 else 1 }) := by
  have steady : Keyspace.touch (rulesOf env s.policy) = .ok () := by simp [Keyspace.touch, rulesOf, decays]
  obtain ⟨stamp, n, stamped⟩ := stampAccess_eq env rfl current
  rw [steady, ok_bind] at stamped
  have ticks : n = s.tick + if s.isLFU then 2 else 1 := stampAccess_ticks stamped
  exact ⟨stamp, ticks ▸ stamped⟩

theorem isExpired_congr {s s' : Store} (same : ∀ deadline, e.expiresAt = some deadline →
      (deadline ≤ env.clock s.tick ↔ deadline ≤ env.clock s'.tick)) : (s.isExpired env e).1 = (s'.isExpired env e).1 := by
  unfold Store.isExpired
  split
  · rfl
  next deadline expires => exact decide_eq_decide.mpr (same deadline expires)

theorem reading_congr {s s' : Store} (policy : s'.policy = s.policy) (entries : s'.data.lookup key = s.data.lookup key)
    (time : ∀ e deadline, s.data.lookup key = some e → e.expiresAt = some deadline →
      (deadline ≤ env.clock s'.tick ↔ deadline ≤ env.clock s.tick)) : reading env s' key = reading env s key := by
  cases held : s.data.lookup key with
  | none => rw [reading_absent held, reading_absent (entries.trans held)]
  | some e =>
    rw [reading_held held, reading_held (entries.trans held), policy]
    rw [isExpired_congr fun deadline expires => time e deadline held expires]

/-- A stored value is found at its key, and every other key is as it was. -/
theorem set_writes (env : Env) (s : Store) (key value : Bytes) (ttl : Int) :
    (∃ stamp, (s.set env key value ttl).data.lookup key =
      some (Store.newEntry value (if 0 < ttl then some (env.clock s.tick + ttl) else none) stamp)) ∧
    ∀ other, other ≠ key → (s.set env key value ttl).data.lookup other = s.data.lookup other := by
  obtain ⟨stamp, _, data⟩ := set_entry env s key value ttl
  constructor
  · exact ⟨stamp, by rw [data, lookup_insert_if, if_pos rfl]⟩
  · intro other different
    rw [data, lookup_insert_if, if_neg different]

theorem newEntry_expiresAt (value : Bytes) (expiresAt : Option Int) (stamp : UInt32) :
    (Store.newEntry value expiresAt stamp).expiresAt = expiresAt := by
  unfold Store.newEntry
  split <;> rfl

theorem entryText_newEntry (value : Bytes) (expiresAt : Option Int) (stamp : UInt32) :
    entryText (Store.newEntry value expiresAt stamp) = .ok (some value) ↔ ¬ Padded value := by
  unfold Store.newEntry detectEncoding
  cases parsed : parseInt value with
  | some n =>
    rw [← itoa_parseInt parsed]
    simp [entryText]
  | none =>
    have plain : ¬ Padded value := by
      intro padded
      obtain ⟨n, read⟩ := parseInt_of_padded padded
      rw [parsed] at read
      cases read
    refine iff_of_true ?_ plain
    by_cases short : value.length ≤ 44
    · simp [short, entryText, SDS.new]
    · simp [short, entryText, SDS.new]

/-- After the value was stored, its key reads as that value, and every other key, unless
it expires meanwhile, as before. -/
def KeepsText (env : Env) (s : Store) (key value : Bytes) (ttl : Int) : Prop :=
  reading env (s.set env key value ttl) key = .ok (some value) ∧
    ∀ other, other ≠ key →
      (∀ e deadline, s.data.lookup other = some e → e.expiresAt = some deadline →
        (deadline ≤ env.clock (s.set env key value ttl).tick ↔ deadline ≤ env.clock s.tick)) →
      reading env (s.set env key value ttl) other = reading env s other

/-- SET and GET keep a text byte for byte exactly if it is not an integer of 64 bits
written with a plus sign, with a zero in front, or as minus zero. -/
theorem set_keeps_text_iff (decays : env.lfuDecayTime ≠ 0) (s : Store) (key value : Bytes) {ttl : Int}
    (early : 0 < ttl → env.clock (s.set env key value ttl).tick < env.clock s.tick + ttl) :
    KeepsText env s key value ttl ↔ ¬ Padded value := by
  obtain ⟨_, policy, _⟩ := set_entry env s key value ttl
  obtain ⟨⟨stamp, held⟩, frame⟩ := set_writes env s key value ttl
  have steady : Keyspace.touch (rulesOf env (s.set env key value ttl).policy) = .ok () := by
    simp [Keyspace.touch, rulesOf, decays]
  have alive : Item.dead (env.clock (s.set env key value ttl).tick)
      ⟨detect value, if 0 < ttl then some (env.clock s.tick + ttl) else none⟩ = false := by
    by_cases limited : 0 < ttl
    · simpa [limited, Item.dead] using early limited
    · simp [limited, Item.dead]
  have read : reading env (s.set env key value ttl) key =
      entryText (Store.newEntry value (if 0 < ttl then some (env.clock s.tick + ttl) else none) stamp) := by
    rw [reading_held held, isExpired_dead (newEntry_shows env value _ stamp), alive, steady]
    rfl
  rw [KeepsText, read, entryText_newEntry]
  refine and_iff_left ?_
  intro other different time
  exact reading_congr policy (frame other different) time

theorem set_keeps_plain_text : KeepsText (.still 0) (.new .noeviction) (ascii "k") (ascii "-42") 5 := by
  refine (set_keeps_text_iff (by decide) _ _ _ (by decide)).mpr ?_
  intro padded
  cases padded

/-- SET k 007 leaves 7 at k. -/
theorem set_rewrites_text :
    ¬ ∀ (env : Env) (s : Store) (key value : Bytes) (ttl : Int), env.lfuDecayTime ≠ 0 →
      (0 < ttl → env.clock (s.set env key value ttl).tick < env.clock s.tick + ttl) → KeepsText env s key value ttl := by
  intro claim
  obtain ⟨kept, _⟩ := claim (.still 0) (.new .noeviction) (ascii "k") (ascii "007") 0 (by decide) (by decide)
  have read : reading (.still 0) (Store.set (.still 0) (.new .noeviction) (ascii "k") (ascii "007") 0) (ascii "k") =
      .ok (some (ascii "7")) := rfl
  rw [read] at kept
  exact absurd (Option.some.inj (Except.ok.inj kept)) (by decide)

end Rediska.Proofs
