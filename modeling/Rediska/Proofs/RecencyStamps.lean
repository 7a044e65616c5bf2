import Rediska.Proofs.AccessStamps

/-! Under a policy that goes by recency, the stamp of a key should show the last command
that used its value. -/

namespace Rediska.Proofs
open Go Core Hll Storage Commands

variable {env : Env} {cfg : Config} {s after : Store} {key reply : Bytes} {e : Entry} {cmd : Command} {name : CommandName}
  {args : List Bytes} {old stamp : UInt32}

/-- The stamp shows the clock as it stood from one reading to another. -/
def Current (env : Env) (first last : Nat) (stamp : UInt32) : Prop := ∃ i, first ≤ i ∧ i ≤ last ∧ stamp = lruClock (env.clock i)

theorem Restamped.current (restamped : Restamped env s after old stamp) (recency : s.isLFU = false) :
    Current env s.tick after.tick stamp := by
  obtain ⟨i, start, stop, access⟩ := restamped
  rw [accessStamp, recency] at access
  cases access
  exact ⟨i, start, Nat.le_of_lt stop, rfl⟩

theorem Renewed.current (renewed : Renewed env s after stamp) (recency : s.isLFU = false) : Current env s.tick after.tick stamp := by
  obtain ⟨i, start, stop, written⟩ := renewed
  rw [newStamp, recency] at written
  exact ⟨i, start, Nat.le_of_lt stop, written⟩

/-- The key's entry is as it was, or was expired and is gone. -/
def SparedOrDead (env : Env) (s after : Store) (key : Bytes) : Prop :=
  after.data.lookup key = s.data.lookup key ∨
    after.data.lookup key = none ∧ ∃ e, s.data.lookup key = some e ∧ expiredAt (env.clock s.tick) e = true

theorem removeKey_spares {target : Bytes} (held : s.data.lookup target = some e) (dead : expiredAt (env.clock s.tick) e = true)
    {n : Nat} : SparedOrDead env s (Store.removeKey { s with tick := n } target) key := by
  by_cases here : key = target
  · subst here
    refine .inr ⟨?_, e, held, dead⟩
    rw [lookup_removeKey, if_pos rfl]
  · apply Or.inl
    rw [lookup_removeKey, if_neg here]

theorem peek_spares {α : Type} {absent : α} {seen : Entry → α} (target : Bytes) :
    SparedOrDead env s (peek env s target absent seen).2 key := by
  unfold peek
  split
  · exact .inl rfl
  next e held =>
    rw [isExpired_ticks, isExpired_expiredAt]
    split
    next dead => exact removeKey_spares held dead
    next => exact .inl rfl

theorem getEncoding_spares (target : Bytes) : SparedOrDead env s (s.getEncoding env target).2 key := by
  rw [getEncoding_eq]
  apply peek_spares

theorem getFreq_spares (target : Bytes) : SparedOrDead env s (s.getFreq env target).2 key := by
  rw [getFreq_eq]
  split
  · exact .inl rfl
  · apply peek_spares

theorem ttl_spares (target : Bytes) : SparedOrDead env s (s.ttl env target).2 key := by
  unfold Store.ttl
  split
  · exact .inl rfl
  next e held =>
    split
    · exact .inl rfl
    next deadline limited =>
      dsimp only [Store.now]
      split
      next passed =>
        apply removeKey_spares held
        simp only [expiredAt, limited, decide_eq_true_eq]
        simp only [Store.sub, minInt64, maxInt64] at passed
        omega
      · exact .inl rfl

theorem Refused.spares (refused : Refused s reply after) : SparedOrDead env s after key := by
  rw [refused.same]
  exact .inl rfl

theorem handleObject_spares (ran : handleObject env s args = .ok (reply, after)) : SparedOrDead env s after key := by
  rcases handleObject_cases ran with refused | ⟨target, rfl | rfl⟩
  · exact refused.spares
  · exact getEncoding_spares target
  · exact getFreq_spares target

theorem handleTTL_spares (ran : handleTTL env s args = .ok (reply, after)) : SparedOrDead env s after key := by
  rcases handleTTL_cases ran with refused | ⟨target, _, rfl⟩
  · exact refused.spares
  · exact ttl_spares target

/-- PFCOUNT keeps its count in the sketch and leaves the stamp. -/
theorem pfCount_stamps {target : Bytes} {count : Int} (ran : s.pfCount env target = .ok (count, after)) :
    after.tick = s.tick ∧ (∀ e, s.data.lookup target = some e → ∃ next, after.data.lookup target = some next ∧ next.lru = e.lru) ∧
      ∀ other, other ≠ target → after.data.lookup other = s.data.lookup other := by
  have unchanged : s.tick = s.tick ∧ (∀ e, s.data.lookup target = some e → ∃ next, s.data.lookup target = some next ∧ next.lru = e.lru) ∧
      ∀ other, other ≠ target → s.data.lookup other = s.data.lookup other :=
    ⟨rfl, fun e held => ⟨e, held, rfl⟩, fun _ _ => rfl⟩
  unfold Store.pfCount at ran
  split at ran
  · cases ran
    exact unchanged
  next e held =>
    split at ran
    · cases ran
      exact unchanged
    · split at ran
      · cases ran
      · obtain ⟨_, _, ran⟩ := bind_ok ran
        obtain ⟨_, rfl⟩ := Prod.mk.inj (Except.ok.inj ran)
        refine ⟨rfl, ?_, ?_⟩
        · intro old found
          rw [held] at found
          cases found
          exact ⟨_, AList.lookup_insert _, rfl⟩
        · intro other apart
          exact AList.lookup_insert_ne apart

theorem pfMerge_stamps {dest : Bytes} {sources : List Bytes} (ran : s.pfMerge env dest sources = .ok after) :
    after.tick = s.tick + 1 ∧ (∃ next, after.data.lookup dest = some next ∧ Renewed env s after next.lru) ∧
      ∀ other, other ≠ dest → after.data.lookup other = s.data.lookup other := by
  obtain ⟨sketch, _, lookup⟩ := pfMerge_overwrites ran
  obtain ⟨acc, _, ran⟩ := bind_ok ran
  obtain rfl := Except.ok.inj ran
  have policy : (s.dropOld dest).isLFU = s.isLFU := by
    unfold Store.isLFU Store.dropOld
    split <;> rfl
  have tick : (s.dropOld dest).tick = s.tick := dropOld_tick s dest
  refine ⟨congrArg (· + 1) tick, ⟨_, AList.lookup_insert _, s.tick, Nat.le_refl _, ?_, ?_⟩, ?_⟩
  · exact Nat.lt_of_lt_of_eq (Nat.lt_succ_self _) (congrArg (· + 1) tick).symm
  · rw [← policy, ← tick]
    rfl
  · intro other apart
    rw [lookup, if_neg apart]

/-- The commands that read or write a value, and the ones that only look. -/
def valueCommands : List CommandName := [.get, .set, .incr, .append, .expire, .pfadd, .pfcount, .pfmerge, .object, .ttl]

/-- The command reads or writes the value at the key. PFMERGE reads the sketches among its
sources. -/
def UsesValue (s : Store) (name : CommandName) (args : List Bytes) (key : Bytes) : Prop :=
  match name with
  | .get | .set | .incr | .append | .expire | .pfadd | .pfcount => args.head? = some key
  | .pfmerge => args.head? = some key ∨ key ∈ args.tail ∧ ∃ e, s.data.lookup key = some e ∧ e.encoding = .hll
  | _ => False

/-- A command that is not refused stamps the live keys whose value it uses with the present
clock. No other entry changes, except that expired ones may go. -/
structure StampsUses (env : Env) (s : Store) (name : CommandName) (args : List Bytes) (reply : Bytes) (after : Store) : Prop where
  used : isErrorReply reply = false → ∀ key e, s.data.lookup key = some e → expiredAt (env.clock s.tick) e = false →
    UsesValue s name args key → ∃ next, after.data.lookup key = some next ∧ Current env s.tick after.tick next.lru
  others : ∀ key, ¬ UsesValue s name args key → SparedOrDead env s after key

/-- The keys whose value is used without a stamp: what PFCOUNT counts, and the sketches
PFMERGE merges into another key. -/
def Unstamped (s : Store) (name : CommandName) (args : List Bytes) (key : Bytes) : Prop :=
  match name, args with
  | .pfcount, [target] => key = target
  | .pfmerge, dest :: sources => key ≠ dest ∧ key ∈ sources ∧ ∃ e, s.data.lookup key = some e ∧ e.encoding = .hll
  | _, _ => False

theorem handler_frame (known : lookupCommand cmd.name = some name) (keyed : (keySpecs name).first ≠ 0)
    (ran : runHandler env cfg name s cmd.args = .ok (reply, after)) (outside : key ∉ keysOf cmd) :
    after.data.lookup key = s.data.lookup key := by
  have start : Twins (· ∈ keysOf cmd) s s s s := ⟨rfl, rfl, fun _ _ => rfl, fun _ _ => rfl, fun _ _ => rfl⟩
  rcases (runHandler_twins env cfg known keyed start).outcomes with ⟨_, p, panics, _⟩ | ⟨answer, t, t', ran', _, twins⟩
  · rw [ran] at panics
    cases panics
  · rw [ran] at ran'
    cases ran'
    exact twins.frame key outside

theorem keysOf_one (known : lookupCommand cmd.name = some name) (spec : keySpecs name = ⟨1, 1, 1⟩) (outside : cmd.args.head? ≠ some key) :
    key ∉ keysOf cmd := by
  intro inside
  simp only [keysOf, known, spec] at inside
  rw [if_neg (by decide), if_neg (by decide)] at inside
  have first : key ∈ cmd.args.take 1 := by
    apply List.mem_of_mem_drop at inside
    exact (List.take_subset_take_left _ (by omega)) inside
  cases listed : cmd.args with
  | nil =>
    rw [listed] at first
    cases first
  | cons head rest =>
    rw [listed] at first outside
    simp only [List.take_succ_cons, List.take_zero, List.mem_singleton] at first
    exact outside (first ▸ rfl)

/-- A command whose only key gets a current stamp. -/
theorem StampsUses.single (known : lookupCommand cmd.name = some name) (spec : keySpecs name = ⟨1, 1, 1⟩)
    (uses : ∀ key, UsesValue s name cmd.args key ↔ cmd.args.head? = some key)
    (ran : runHandler env cfg name s cmd.args = .ok (reply, after))
    (stamps : isErrorReply reply = false → ∀ key rest e, cmd.args = key :: rest → s.data.lookup key = some e →
      expiredAt (env.clock s.tick) e = false → ∃ next, after.data.lookup key = some next ∧ Current env s.tick after.tick next.lru) :
    StampsUses env s name cmd.args reply after where
  used answered key e held alive used := by
    obtain ⟨rest, listed⟩ := List.head?_eq_some_iff.mp ((uses key).mp used)
    exact stamps answered key rest e listed held alive
  others key unused := by
    apply Or.inl
    apply handler_frame known _ ran
    · exact keysOf_one known spec (fun named => unused ((uses key).mpr named))
    · rw [spec]
      decide

/-- A command that is refused and changes nothing. -/
theorem StampsUses.refused (refused : isErrorReply reply = true) : StampsUses env s name args reply s where
  used answered := by
    rw [refused] at answered
    cases answered
  others _ _ := .inl rfl

theorem handlePFCount_stamps_iff (ran : handlePFCount env s args = .ok (reply, after)) :
    StampsUses env s .pfcount args reply after ↔ ∀ key e, Unstamped s .pfcount args key → s.data.lookup key = some e →
      expiredAt (env.clock s.tick) e = false → Current env s.tick s.tick e.lru := by
  rcases args with _ | ⟨target, _ | ⟨more, rest⟩⟩
  · cases ran
    exact iff_of_true (.refused rfl) (fun _ _ unstamped => False.elim unstamped)
  · obtain ⟨⟨count, v⟩, counted, ran⟩ := bind_ok ran
    cases ran
    obtain ⟨tick, kept, frame⟩ := pfCount_stamps counted
    constructor
    · intro stamps key e unstamped held alive
      obtain rfl : key = target := unstamped
      obtain ⟨next, found, recent⟩ := stamps.used rfl key e held alive rfl
      obtain ⟨same, found', lru⟩ := kept e held
      rw [found] at found'
      cases found'
      rw [tick, lru] at recent
      exact recent
    · intro recent
      constructor
      · intro _ key e held alive used
        obtain rfl : target = key := Option.some.inj used
        obtain ⟨next, found, lru⟩ := kept e held
        refine ⟨next, found, ?_⟩
        rw [tick, lru]
        exact recent target e rfl held alive
      · intro key unused
        exact .inl (frame key (fun same => unused (same ▸ rfl)))
  · cases ran
    exact iff_of_true (.refused rfl) (fun _ _ unstamped => False.elim unstamped)

theorem handlePFMerge_stamps_iff (recency : s.isLFU = false) (ran : handlePFMerge env s args = .ok (reply, after)) :
    StampsUses env s .pfmerge args reply after ↔ ∀ key e, Unstamped s .pfmerge args key → s.data.lookup key = some e →
      expiredAt (env.clock s.tick) e = false → Current env s.tick (s.tick + 1) e.lru := by
  rcases args with _ | ⟨dest, sources⟩
  · cases ran
    exact iff_of_true (.refused rfl) (fun _ _ unstamped => False.elim unstamped)
  · obtain ⟨v, merged, ran⟩ := bind_ok ran
    cases ran
    obtain ⟨tick, ⟨sketch, written, renewed⟩, frame⟩ := pfMerge_stamps merged
    constructor
    · intro stamps key e unstamped held alive
      obtain ⟨apart, inside, hll⟩ := unstamped
      obtain ⟨next, found, recent⟩ := stamps.used rfl key e held alive (.inr ⟨inside, hll⟩)
      rw [frame key apart, held] at found
      cases found
      rw [← tick]
      exact recent
    · intro recent
      constructor
      · intro _ key e held alive used
        by_cases here : key = dest
        · subst here
          exact ⟨sketch, written, renewed.current recency⟩
        · rcases used with first | ⟨inside, hll⟩
          · exact absurd (Option.some.inj first).symm here
          · refine ⟨e, (frame key here).trans held, ?_⟩
            rw [tick]
            exact recent key e ⟨here, inside, hll⟩ held alive
      · intro key unused
        exact .inl (frame key (fun same => unused (.inl (same ▸ rfl))))

theorem Unstamped.name_eq (unstamped : Unstamped s name args key) : name = .pfcount ∨ name = .pfmerge := by
  unfold Unstamped at unstamped
  split at unstamped
  · exact .inl rfl
  · exact .inr rfl
  · exact False.elim unstamped

/-- Every command on values stamps the live keys it uses and leaves the other entries alone,
and the commands that only look stamp nothing, exactly if each key that PFCOUNT counts or
PFMERGE merges into another already shows the present clock. -/
theorem uses_stamped_iff (recency : s.isLFU = false) (known : lookupCommand cmd.name = some name) (listed : name ∈ valueCommands)
    (ran : runHandler env cfg name s cmd.args = .ok (reply, after)) :
    StampsUses env s name cmd.args reply after ↔ ∀ key e, Unstamped s name cmd.args key → s.data.lookup key = some e →
      expiredAt (env.clock s.tick) e = false → Current env s.tick (s.tick + if name = .pfmerge then 1 else 0) e.lru := by
  by_cases count : name = .pfcount
  · subst count
    exact handlePFCount_stamps_iff ran
  by_cases merge : name = .pfmerge
  · subst merge
    exact handlePFMerge_stamps_iff recency ran
  apply iff_of_true
  · have access {key : Bytes} {e : Entry} (stamped : ∃ next, after.data.lookup key = some next ∧ Restamped env s after e.lru next.lru) :
        ∃ next, after.data.lookup key = some next ∧ Current env s.tick after.tick next.lru := by
      obtain ⟨next, found, restamped⟩ := stamped
      exact ⟨next, found, restamped.current recency⟩
    have anew {key : Bytes} (written : ∃ next, after.data.lookup key = some next ∧ Renewed env s after next.lru) :
        ∃ next, after.data.lookup key = some next ∧ Current env s.tick after.tick next.lru := by
      obtain ⟨next, found, renewed⟩ := written
      exact ⟨next, found, renewed.current recency⟩
    simp only [valueCommands, List.mem_cons, List.not_mem_nil, or_false, count, merge, false_or] at listed
    rcases listed with rfl | rfl | rfl | rfl | rfl | rfl | rfl | rfl
    · apply StampsUses.single known rfl (fun _ => Iff.rfl) ran
      intro answered key rest e args held alive
      exact access (handleGet_restamps held alive (args ▸ ran) answered)
    · apply StampsUses.single known rfl (fun _ => Iff.rfl) ran
      intro answered key rest e args held alive
      exact anew (handleSet_renews (args ▸ ran) answered)
    · apply StampsUses.single known rfl (fun _ => Iff.rfl) ran
      intro answered key rest e args held alive
      exact anew (handleIncr_renews held alive (args ▸ ran) answered)
    · apply StampsUses.single known rfl (fun _ => Iff.rfl) ran
      intro answered key rest e args held alive
      exact access (handleAppend_restamps held (args ▸ ran) answered)
    · apply StampsUses.single known rfl (fun _ => Iff.rfl) ran
      intro answered key rest e args held alive
      exact anew (handleExpire_renews held alive (args ▸ ran) answered)
    · apply StampsUses.single known rfl (fun _ => Iff.rfl) ran
      intro answered key rest e args held alive
      exact access (handlePFAdd_restamps held alive (args ▸ ran) answered)
    · exact ⟨fun _ _ _ _ _ used => False.elim used, fun _ _ => handleObject_spares ran⟩
    · exact ⟨fun _ _ _ _ _ used => False.elim used, fun _ _ => handleTTL_spares ran⟩
  · intro key e unstamped
    rcases unstamped.name_eq with same | same
    · exact absurd same count
    · exact absurd same merge

def getN : Command := ⟨ascii "GET", [ascii "n"]⟩

theorem get_stamps_key :
    ∃ reply after, runHandler (.still 0) .plain .get counterStore getN.args = .ok (reply, after) ∧
      StampsUses (.still 0) counterStore .get getN.args reply after := by
  have got : ∃ after, runHandler (.still 0) .plain .get counterStore getN.args = .ok (encodeBulkString (ascii "5"), after) := ⟨_, rfl⟩
  obtain ⟨after, got⟩ := got
  have known : lookupCommand getN.name = some .get := by decide
  refine ⟨_, after, got, ?_⟩
  apply (uses_stamped_iff rfl known (by decide) got).mpr
  intro key e unstamped
  exact False.elim unstamped

/-- The first reading is of an early time, all others of ten seconds later. -/
def tenSecondsLater : Env where
  __ := Env.still 0
  clock i := if i = 0 then 0 else 10000000000
  forward i j order := by
    split <;> split <;> omega

/-- PFADD h, and ten seconds later PFCOUNT h: the key looks as if nobody had used it since. -/
theorem pfcount_leaves_stamp :
    ¬ ∀ (env : Env) (cfg : Config) (w : World) (cmd : Command) (name : CommandName) (reply : Bytes) (after : Store),
      Reachable env cfg .allkeysLRU w → w.store.isLFU = false → lookupCommand cmd.name = some name → name ∈ valueCommands →
      runHandler env cfg name w.store cmd.args = .ok (reply, after) → StampsUses env w.store name cmd.args reply after := by
  intro claim
  have added : ∃ w, dispatch tenSecondsLater .plain ⟨.new .allkeysLRU, none⟩ ⟨ascii "PFADD", [ascii "h"]⟩ = .ok (encodeInteger 1, w) ∧
      w.store.isLFU = false ∧ w.store.data.lookup (ascii "h") = some ⟨.hll, 0, none, some .new, none, 0⟩ ∧ w.store.tick = 1 :=
    ⟨_, rfl, rfl, rfl, rfl⟩
  obtain ⟨w, added, recency, held, tick⟩ := added
  have counted : ∃ after, w.store.pfCount tenSecondsLater (ascii "h") = .ok (wrap64 0, after) := by
    rw [Store.pfCount, held]
    exact ⟨_, rfl⟩
  obtain ⟨after, counted⟩ := counted
  have ran : handlePFCount tenSecondsLater w.store [ascii "h"] = .ok (encodeInteger (wrap64 0), after) := by
    rw [handlePFCount, counted]
    rfl
  have known : lookupCommand (ascii "PFCOUNT") = some .pfcount := by decide
  have stamps := claim _ _ w ⟨ascii "PFCOUNT", [ascii "h"]⟩ .pfcount _ after ((Reachable.start none).step added) recency known
    (by decide) ran
  obtain ⟨i, start, stop, shown⟩ := (handlePFCount_stamps_iff ran).mp stamps (ascii "h") _ rfl held rfl
  have later : i = 1 := by omega
  rw [later] at shown
  exact absurd shown (by decide)

end Rediska.Proofs
