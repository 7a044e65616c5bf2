import Rediska.Proofs.ExpiryTransparency
import Rediska.Proofs.TextFidelity

/-! What the commands on sketches do to a key that holds a string or an integer. -/

namespace Rediska.Proofs
open Go Core Hll Storage Spec Commands

variable {env : Env} {s after : Store} {key target reply : Bytes} {e : Entry}

theorem lookup_record (s : Store) (target : Bytes) (e : Entry) (key : Bytes) :
    (s.record target e).data.lookup key = if key = target then some e else s.data.lookup key :=
  lookup_insert_if s.data target key e

/-- PFADD writes at its key alone, and not there either if the key is of another kind. -/
theorem pfAdd_spares (held : s.data.lookup key = some e) (alive : expiredAt (env.clock s.tick) e = false) (plain : e.encoding ≠ .hll)
    {values : List Bytes} {changed : Option Bool} (ran : s.pfAdd env target values = .ok (changed, after)) :
    after.data.lookup key = s.data.lookup key := by
  by_cases here : key = target
  · subst here
    rw [← isExpired_expiredAt] at alive
    simp only [Store.pfAdd, held, alive, Bool.false_eq_true, if_false, if_pos plain] at ran
    cases ran
    rw [isExpired_ticks]
  · -- whatever it writes or removes is at another key
    have created {t : Store} (same : t.data.lookup key = s.data.lookup key) {h : Option HLL} :
        (Store.record { (t.stampNew env).2 with keys := (t.stampNew env).2.keys + 1 } target
          ⟨.hll, 0, none, h, none, (t.stampNew env).1⟩).data.lookup key = s.data.lookup key := by
      rw [lookup_record, if_neg here]
      exact same
    unfold Store.pfAdd at ran
    split at ran
    next =>
      obtain ⟨_, _, ran⟩ := bind_ok ran
      cases ran
      exact created rfl
    next old _ =>
      dsimp only at ran
      split at ran
      · obtain ⟨_, _, ran⟩ := bind_ok ran
        cases ran
        apply created
        rw [lookup_removeKey, if_neg here, isExpired_ticks]
      · split at ran
        · cases ran
          rw [isExpired_ticks]
        · obtain ⟨⟨stamp, drawn⟩, stamped, ran⟩ := bind_ok ran
          obtain ⟨_, _, ran⟩ := bind_ok ran
          cases ran
          obtain ⟨n, rfl⟩ := stampAccess_ticked stamped
          rw [lookup_record, if_neg here, isExpired_ticks]

/-- PFCOUNT keeps a count in the sketch it has counted, and changes nothing else. -/
theorem pfCount_spares (held : s.data.lookup key = some e) (plain : e.encoding ≠ .hll) {count : Int}
    (ran : s.pfCount env target = .ok (count, after)) : after.data.lookup key = s.data.lookup key := by
  unfold Store.pfCount at ran
  split at ran
  next =>
    cases ran
    rfl
  next found there =>
    split at ran
    next =>
      cases ran
      rfl
    next sketch =>
      have other : key ≠ target := by
        rintro rfl
        rw [held] at there
        cases there
        exact sketch plain
      split at ran
      · cases ran
      · obtain ⟨_, _, ran⟩ := bind_ok ran
        obtain ⟨_, rfl⟩ := Prod.mk.inj (Except.ok.inj ran)
        rw [lookup_insert_if, if_neg other]

/-- PFMERGE puts a sketch at its first key, whatever was there. -/
theorem pfMerge_overwrites {sources : List Bytes} (ran : s.pfMerge env target sources = .ok after) :
    ∃ sketch, sketch.encoding = .hll ∧ ∀ key, after.data.lookup key = if key = target then some sketch else s.data.lookup key := by
  obtain ⟨acc, _, ran⟩ := bind_ok ran
  obtain rfl := Except.ok.inj ran
  refine ⟨⟨.hll, 0, none, some acc, none, ((s.dropOld target).stampNew env).1⟩, rfl, ?_⟩
  intro key
  obtain ⟨data, _, _⟩ := dropOld_data s target
  rw [lookup_record, ← data]
  rfl

/-- The commands on sketches. -/
def OnSketches (name : CommandName) : Prop := name = .pfadd ∨ name = .pfcount ∨ name = .pfmerge

section
variable {args : List Bytes}

theorem handlePFAdd_spares (held : s.data.lookup key = some e) (alive : expiredAt (env.clock s.tick) e = false)
    (plain : e.encoding ≠ .hll) (ran : handlePFAdd env s args = .ok (reply, after)) : after.data.lookup key = s.data.lookup key := by
  rcases handlePFAdd_cases ran with refused | ⟨target, values, changed, _, added, _⟩
  · rw [refused.same]
  · exact pfAdd_spares held alive plain added

theorem handlePFCount_spares (held : s.data.lookup key = some e) (plain : e.encoding ≠ .hll)
    (ran : handlePFCount env s args = .ok (reply, after)) : after.data.lookup key = s.data.lookup key := by
  rcases handlePFCount_cases ran with refused | ⟨target, count, _, counted, _⟩
  · rw [refused.same]
  · exact pfCount_spares held plain counted

theorem handlePFMerge_spares_iff (held : s.data.lookup key = some e) (plain : e.encoding ≠ .hll)
    (ran : handlePFMerge env s args = .ok (reply, after)) : after.data.lookup key = s.data.lookup key ↔ args.head? ≠ some key := by
  cases args with
  | nil =>
    cases ran
    exact iff_of_true rfl nofun
  | cons target sources =>
    obtain ⟨t, merged, ran⟩ := bind_ok ran
    cases ran
    obtain ⟨sketch, kind, lookup⟩ := pfMerge_overwrites merged
    simp only [List.head?_cons, ne_eq, Option.some.injEq]
    rw [lookup, eq_comm (a := target)]
    constructor
    · rintro same rfl
      rw [if_pos rfl, held] at same
      cases same
      exact plain kind
    · intro other
      rw [if_neg other]

end

/-- A command on sketches leaves a string or an integer alone exactly if it is not a PFMERGE
with that key as the destination. -/
theorem sketch_commands_spare_iff (cfg : Config) {name : CommandName} {args : List Bytes} (held : s.data.lookup key = some e)
    (alive : expiredAt (env.clock s.tick) e = false) (plain : e.encoding ≠ .hll) (sketches : OnSketches name)
    (ran : runHandler env cfg name s args = .ok (reply, after)) :
    after.data.lookup key = s.data.lookup key ↔ ¬ (name = .pfmerge ∧ args.head? = some key) := by
  rcases sketches with rfl | rfl | rfl
  · exact iff_of_true (handlePFAdd_spares held alive plain ran) nofun
  · exact iff_of_true (handlePFCount_spares held plain ran) nofun
  · rw [handlePFMerge_spares_iff held plain ran]
    simp only [ne_eq, true_and]

/-- A store with a name in it. -/
def namedStore : Store := (Store.new .noeviction).set (.still 0) (ascii "name") (ascii "vinay") 0

theorem pfmerge_from_name_spares_it :
    ∃ reply after, runHandler (.still 0) .plain .pfmerge namedStore [ascii "d", ascii "name"] = .ok (reply, after) ∧
      after.data.lookup (ascii "name") = namedStore.data.lookup (ascii "name") := by
  have other : ascii "d" ≠ ascii "name" := by decide
  have ran : ∃ reply after, runHandler (.still 0) .plain .pfmerge namedStore [ascii "d", ascii "name"] = .ok (reply, after) := ⟨_, _, rfl⟩
  obtain ⟨reply, after, ran⟩ := ran
  refine ⟨_, _, ran, (sketch_commands_spare_iff .plain rfl rfl (by decide) (.inr (.inr rfl)) ran).mpr ?_⟩
  intro ⟨_, same⟩
  exact other (Option.some.inj same)

/-- PFMERGE name answers OK and the name is gone. -/
theorem pfmerge_destroys_name :
    ¬ ∀ (env : Env) (cfg : Config) (s after : Store) (key reply : Bytes) (e : Entry) (name : CommandName) (args : List Bytes),
      s.data.lookup key = some e → expiredAt (env.clock s.tick) e = false → e.encoding ≠ .hll → OnSketches name →
      runHandler env cfg name s args = .ok (reply, after) → after.data.lookup key = s.data.lookup key := by
  intro claim
  have kept := claim (.still 0) .plain namedStore _ (ascii "name") _ _ .pfmerge [ascii "name"] rfl rfl (by decide) (.inr (.inr rfl)) rfl
  cases kept

end Rediska.Proofs
