import Rediska.Logic.TwoRuns
import Rediska.Proofs.HllCount
import Rediska.Proofs.StoreMoves
import Rediska.Spec.Keyspace

/-! The store refines the keyspace, operation by operation. -/

namespace Rediska.Proofs
open Go Core Hll Logic Storage Spec

/-- An entry and the item it stands for. Only the value its encoding names is read,
except that a sketch has no string. -/
inductive Shows (env : Env) : Entry → Item → Prop
  | int {e : Entry} (tag : e.encoding = .int) (fits : IsInt64 e.intVal) : Shows env e ⟨.int e.intVal, e.expiresAt⟩
  | embstr {e : Entry} {str : SDS} (tag : e.encoding = .embstr) (value : e.strVal = some str) :
      Shows env e ⟨.embstr str.buf, e.expiresAt⟩
  | raw {e : Entry} {str : SDS} (tag : e.encoding = .raw) (value : e.strVal = some str) :
      Shows env e ⟨.raw str.buf, e.expiresAt⟩
  | sketch {e : Entry} {h : HLL} {table : Table} (tag : e.encoding = .hll) (value : e.hllVal = some h) (empty : e.strVal = none)
      (holds : Holds h table) (cached : Cached env.estimate h table) : Shows env e ⟨.sketch table, e.expiresAt⟩

structure Represents (env : Env) (policy : Policy) (s : Store) (K : Keyspace) : Prop where
  policy : s.policy = policy
  shows : ∀ key, Option.Rel (Shows env) (s.data.lookup key) (K key)

/-- Equal results in equal keyspaces, or the same panic. -/
inductive Refines (env : Env) (policy : Policy) {α : Type} : Panics (α × Store) → Panics (α × Keyspace) → Prop
  | ok {a : α} {s : Store} {K : Keyspace} (same : Represents env policy s K) : Refines env policy (.ok (a, s)) (.ok (a, K))
  | error {p : Panic} : Refines env policy (.error p) (.error p)

def rulesOf (env : Env) (policy : Policy) : Rules :=
  ⟨(policy = .allkeysLFU || policy = .volatileLFU) && decide (env.lfuDecayTime = 0), env.estimate⟩

variable {env : Env} {policy : Policy}

theorem Refines.bind {α β : Type} {concrete : Panics (α × Store)} {abstract : Panics (α × Keyspace)}
    {next : α × Store → Panics (β × Store)} {spec : α × Keyspace → Panics (β × Keyspace)}
    (first : Refines env policy concrete abstract)
    (rest : ∀ a s K, Represents env policy s K → Refines env policy (next (a, s)) (spec (a, K))) :
    Refines env policy (concrete >>= next) (abstract >>= spec) := by
  cases first with
  | ok same => exact rest _ _ _ same
  | error => exact .error

theorem Refines.outcomes {α : Type} {concrete : Panics (α × Store)} {abstract : Panics (α × Keyspace)}
    (refines : Refines env policy concrete abstract) :
    (∃ p, concrete = .error p ∧ abstract = .error p) ∨
      ∃ a s K, concrete = .ok (a, s) ∧ abstract = .ok (a, K) ∧ Represents env policy s K := by
  cases refines with
  | ok same => exact .inr ⟨_, _, _, rfl, rfl, same⟩
  | error => exact .inl ⟨_, rfl, rfl⟩

theorem Refines.of_ok {α : Type} {concrete : Panics (α × Store)} {abstract : Panics (α × Keyspace)} {a : α} {s : Store}
    (refines : Refines env policy concrete abstract) (ran : concrete = .ok (a, s)) :
    ∃ K, abstract = .ok (a, K) ∧ Represents env policy s K := by
  cases refines with
  | ok same =>
    cases ran
    exact ⟨_, rfl, same⟩
  | error => cases ran

theorem Refines.of_spec {α : Type} {concrete : Panics (α × Store)} {abstract : Panics (α × Keyspace)} {a : α} {K : Keyspace}
    (refines : Refines env policy concrete abstract) (spec : abstract = .ok (a, K)) :
    ∃ s, concrete = .ok (a, s) ∧ Represents env policy s K := by
  cases refines with
  | ok same =>
    cases spec
    exact ⟨_, rfl, same⟩
  | error => cases spec

/-- A step that may panic but has no result is the same on both sides. -/
theorem Refines.after {β : Type} (step : Panics Unit) {next : Unit → Panics (β × Store)} {spec : Unit → Panics (β × Keyspace)}
    (rest : Refines env policy (next ()) (spec ())) : Refines env policy (step >>= next) (step >>= spec) := by
  cases step with
  | ok => exact rest
  | error => exact .error

/-! Entries. -/

theorem Shows.expiresAt {e : Entry} {item : Item} (shows : Shows env e item) : e.expiresAt = item.deadline := by
  cases shows <;> rfl

theorem Shows.encoding {e : Entry} {item : Item} (shows : Shows env e item) : e.encoding = item.content.encoding := by
  cases shows <;> assumption

theorem Shows.entryText {e : Entry} {item : Item} (shows : Shows env e item) : entryText e = .ok item.content.text := by
  cases shows with
  | int tag fits => simp only [Proofs.entryText, tag, Content.text]
  | embstr tag value => simp only [Proofs.entryText, tag, value, Content.text]
  | raw tag value => simp only [Proofs.entryText, tag, value, Content.text]
  | sketch tag value empty holds cached => simp only [Proofs.entryText, tag, Content.text]

theorem Shows.restamp {e : Entry} {item : Item} (shows : Shows env e item) (stamp : UInt32) :
    Shows env { e with lru := stamp } item := by
  cases shows with
  | int tag fits => exact .int (e := { e with lru := stamp }) tag fits
  | embstr tag value => exact .embstr (e := { e with lru := stamp }) tag value
  | raw tag value => exact .raw (e := { e with lru := stamp }) tag value
  | sketch tag value empty holds cached => exact .sketch (e := { e with lru := stamp }) tag value empty holds cached

theorem newEntry_shows (env : Env) (value : Bytes) (expiresAt : Option Int) (stamp : UInt32) :
    Shows env (Store.newEntry value expiresAt stamp) ⟨detect value, expiresAt⟩ := by
  unfold Store.newEntry detectEncoding detect
  cases parsed : parseInt value with
  | some n => exact .int (e := ⟨.int, n, none, none, expiresAt, stamp⟩) rfl (parseInt_isInt64 parsed)
  | none =>
    by_cases short : value.length ≤ 44
    · simp only [Option.isSome_none, Bool.false_eq_true, if_false, short, if_true]
      exact .embstr (e := ⟨.embstr, 0, some (.new value), none, expiresAt, stamp⟩) rfl rfl
    · simp only [Option.isSome_none, Bool.false_eq_true, if_false, short]
      exact .raw (e := ⟨.raw, 0, some (.new value), none, expiresAt, stamp⟩) rfl rfl

/-! States. -/

theorem Represents.new (env : Env) (policy : Policy) : Represents env policy (.new policy) (fun _ => none) :=
  ⟨rfl, fun _ => .none⟩

theorem Represents.ticked {s after : Store} {K : Keyspace} (same : Represents env policy s K) (ticked : Ticked s after) :
    Represents env policy after K := by
  obtain ⟨n, rfl⟩ := ticked
  exact ⟨same.policy, same.shows⟩

theorem Represents.insert {s after : Store} {K : Keyspace} (same : Represents env policy s K) {key : Bytes} {e : Entry}
    {item : Item} (data : after.data = s.data.insert key e) (kept : after.policy = s.policy) (shows : Shows env e item) :
    Represents env policy after (K.put key item) := by
  refine ⟨kept.trans same.policy, ?_⟩
  intro j
  rw [data, lookup_insert_if, Keyspace.put_apply]
  split
  · exact .some shows
  · exact same.shows j

theorem put_same {K : Keyspace} {key : Bytes} {item : Item} (held : K key = some item) : K.put key item = K := by
  rw [Keyspace.put, ← held, Function.update_eq_self]

theorem Represents.removeKey {s : Store} {K : Keyspace} (same : Represents env policy s K) (key : Bytes) :
    Represents env policy (s.removeKey key) (K.drop key) := by
  refine ⟨(removeKey_policy s key).trans same.policy, ?_⟩
  intro j
  rw [lookup_removeKey, Keyspace.drop_apply]
  split
  · exact .none
  · exact same.shows j

theorem Represents.at {s : Store} {K : Keyspace} (same : Represents env policy s K) (key : Bytes) :
    (s.data.lookup key = none ∧ K key = none) ∨
      ∃ e item, s.data.lookup key = some e ∧ K key = some item ∧ Shows env e item :=
  related_cases (same.shows key)

theorem Represents.absent_iff {s : Store} {K : Keyspace} (same : Represents env policy s K) (key : Bytes) :
    s.data.lookup key = none ↔ K key = none := by
  rcases same.at key with ⟨absent, nothing⟩ | ⟨e, item, held, found, _⟩
  · exact iff_of_true absent nothing
  · exact iff_of_false (by simp [held]) (by simp [found])

theorem Represents.item {s : Store} {K : Keyspace} {key : Bytes} {e : Entry} (same : Represents env policy s K)
    (held : s.data.lookup key = some e) : ∃ item, K key = some item ∧ Shows env e item := by
  rcases same.at key with ⟨absent, _⟩ | ⟨_, item, held', found, shows⟩
  · rw [absent] at held
    cases held
  · rw [held'] at held
    cases held
    exact ⟨item, found, shows⟩

theorem Represents.entry {s : Store} {K : Keyspace} {key : Bytes} {item : Item} (same : Represents env policy s K)
    (found : K key = some item) : ∃ e, s.data.lookup key = some e ∧ Shows env e item := by
  rcases same.at key with ⟨_, nothing⟩ | ⟨e, _, held, found', shows⟩
  · rw [nothing] at found
    cases found
  · rw [found'] at found
    cases found
    exact ⟨e, held, shows⟩

theorem isExpired_dead {e : Entry} {item : Item} (shows : Shows env e item) (s : Store) :
    (s.isExpired env e).1 = item.dead (env.clock s.tick) := by
  unfold Store.isExpired Item.dead
  rw [shows.expiresAt]
  cases item.deadline <;> rfl

/-- Stamping an access panics or moves the tick. -/
theorem stampAccess_eq (env : Env) {s : Store} (kept : s.policy = policy) (current : UInt32) :
    ∃ stamp n, s.stampAccess env current =
      (Keyspace.touch (rulesOf env policy) >>= fun _ => .ok (stamp, { s with tick := n })) := by
  subst kept
  have rules : (rulesOf env s.policy).fragile = (s.isLFU && decide (env.lfuDecayTime = 0)) := rfl
  simp only [Store.stampAccess, Keyspace.touch, rules]
  cases s.isLFU with
  | false => exact ⟨_, _, rfl⟩
  | true =>
    simp only [if_true, Bool.true_and, decide_eq_true_eq, lfuTouch, lfuDecay]
    by_cases zero : env.lfuDecayTime = 0
    · simp only [zero, if_true]
      exact ⟨0, 0, rfl⟩
    · simp only [zero, if_false]
      split
      · exact ⟨_, _, rfl⟩
      · split <;> exact ⟨_, _, rfl⟩

/-- Touching an entry changes no item. -/
theorem touch_refines {s : Store} {K : Keyspace} (same : Represents env policy s K) {key : Bytes} {e : Entry} {item : Item}
    (held : K key = some item) (shows : Shows env e item) {β : Type} {next : Store → Panics (β × Store)}
    {spec : Unit → Panics (β × Keyspace)}
    (rest : ∀ after, Represents env policy after K → Refines env policy (next after) (spec ())) :
    Refines env policy (s.touch env key e >>= next) (Keyspace.touch (rulesOf env policy) >>= spec) := by
  obtain ⟨stamp, n, stamped⟩ := stampAccess_eq env same.policy e.lru
  have touched : s.touch env key e >>= next = (Keyspace.touch (rulesOf env policy) >>= fun _ =>
      next { s with tick := n, data := s.data.insert key { e with lru := stamp } }) := by
    rw [Store.touch, stamped]
    cases Keyspace.touch (rulesOf env policy) <;> rfl
  rw [touched]
  refine Refines.after _ (rest _ ?_)
  rw [← put_same held]
  exact same.insert rfl rfl (shows.restamp stamp)

/-- A read: what is seen of an entry is what its item shows. -/
theorem readKey_refines {α : Type} {absent : α} {seen : Entry → Panics α} {spec : Item → Keyspace → Panics (α × Keyspace)}
    {s : Store} {K : Keyspace} (same : Represents env policy s K) (key : Bytes)
    (shown : ∀ e item K, Shows env e item → ∃ a, seen e = .ok a ∧ spec item K = .ok (a, K)) :
    Refines env policy (readKey env s key absent seen)
      (match K.find (env.clock s.tick) key with
        | (none, K) => .ok (absent, K)
        | (some item, K) => Keyspace.touch (rulesOf env policy) >>= fun _ => spec item K) := by
  unfold readKey Keyspace.find
  rcases same.at key with ⟨absent, nothing⟩ | ⟨e, item, held, found, shows⟩
  · rw [absent, nothing]
    exact .ok same
  · simp only [held, found, isExpired_dead shows]
    have kept := same.ticked (isExpired_ticked env s e)
    cases dead : item.dead (env.clock s.tick) with
    | true => exact .ok (kept.removeKey key)
    | false =>
      simp only [Bool.false_eq_true, if_false]
      refine touch_refines kept found shows ?_
      intro after same
      obtain ⟨a, looked, spec⟩ := shown e item K shows
      rw [looked, spec]
      exact .ok same

theorem get_refines {s : Store} {K : Keyspace} (same : Represents env policy s K) (key : Bytes) :
    Refines env policy (s.get env key) (K.get (rulesOf env policy) (env.clock s.tick) key) := by
  rw [get_eq]
  apply readKey_refines same key
  intro e item K shows
  exact ⟨_, shows.entryText, rfl⟩

theorem getInt_refines {s : Store} {K : Keyspace} (same : Represents env policy s K) (key : Bytes) :
    Refines env policy (s.getInt env key) (K.getInt (rulesOf env policy) (env.clock s.tick) key) := by
  rw [getInt_eq]
  apply readKey_refines same key
  intro e item K shows
  cases shows with
  | int tag fits => exact ⟨_, by rw [entryInt, tag]; rfl, rfl⟩
  | embstr tag _ | raw tag _ | sketch tag _ _ _ _ => exact ⟨_, by rw [entryInt, tag]; rfl, rfl⟩

theorem getEncoding_refines {s : Store} {K : Keyspace} (same : Represents env policy s K) (key : Bytes) :
    (s.getEncoding env key).1 = (K.getEncoding (env.clock s.tick) key).1 ∧
      Represents env policy (s.getEncoding env key).2 (K.getEncoding (env.clock s.tick) key).2 := by
  unfold Store.getEncoding Keyspace.getEncoding Keyspace.find
  rcases same.at key with ⟨absent, nothing⟩ | ⟨e, item, held, found, shows⟩
  · rw [absent, nothing]
    exact ⟨rfl, same⟩
  · simp only [held, found, isExpired_dead shows]
    have kept := same.ticked (isExpired_ticked env s e)
    cases dead : item.dead (env.clock s.tick) with
    | true => exact ⟨rfl, kept.removeKey key⟩
    | false => exact ⟨congrArg some shows.encoding, kept⟩

theorem ttl_refines {s : Store} {K : Keyspace} (same : Represents env policy s K) (key : Bytes) :
    (s.ttl env key).1 = (K.ttl (env.clock s.tick) key).1 ∧
      Represents env policy (s.ttl env key).2 (K.ttl (env.clock s.tick) key).2 := by
  unfold Store.ttl Keyspace.ttl
  rcases same.at key with ⟨absent, nothing⟩ | ⟨e, item, held, found, shows⟩
  · rw [absent, nothing]
    exact ⟨rfl, same⟩
  · simp only [held, found, shows.expiresAt]
    cases item.deadline with
    | none => exact ⟨rfl, same⟩
    | some deadline =>
      have kept := same.ticked (now_ticked env s)
      by_cases ended : Store.sub deadline (env.clock s.tick) ≤ 0
      · simp only [Store.now, ended, if_true]
        exact ⟨trivial, kept.removeKey key⟩
      · simp only [Store.now, ended, if_false]
        exact ⟨trivial, kept⟩

theorem dropOld_data (s : Store) (key : Bytes) :
    (s.dropOld key).data = s.data ∧ (s.dropOld key).policy = s.policy ∧ (s.dropOld key).tick = s.tick := by
  unfold Store.dropOld
  split <;> exact ⟨rfl, rfl, rfl⟩

/-- Setting a key writes one entry. -/
theorem set_entry (env : Env) (s : Store) (key value : Bytes) (duration : Int) :
    ∃ stamp, (s.set env key value duration).policy = s.policy ∧
      (s.set env key value duration).data = s.data.insert key
        (Store.newEntry value (if 0 < duration then some (env.clock s.tick + duration) else none) stamp) := by
  obtain ⟨data, kept, tick⟩ := dropOld_data s key
  obtain ⟨n, stamp, written⟩ := set_data env s key value duration
  have deadline : ((s.dropOld key).deadline env duration).1 = if 0 < duration then some (env.clock s.tick + duration) else none := by
    unfold Store.deadline Store.now
    rw [tick]
    split <;> rfl
  rw [written, deadline]
  exact ⟨stamp, kept, by rw [← data]; rfl⟩

theorem set_refines {s : Store} {K : Keyspace} (same : Represents env policy s K) (key value : Bytes) (duration : Int) :
    Represents env policy (s.set env key value duration) (K.set (env.clock s.tick) key value duration) := by
  obtain ⟨stamp, kept, data⟩ := set_entry env s key value duration
  exact same.insert data kept (newEntry_shows env value _ stamp)

theorem append_refines {s : Store} {K : Keyspace} (same : Represents env policy s K) (key value : Bytes) :
    Refines env policy (s.append env key value) (K.append (rulesOf env policy) key value) := by
  unfold Store.append Keyspace.append
  rcases same.at key with ⟨absent, nothing⟩ | ⟨e, item, held, found, shows⟩
  · rw [absent, nothing]
    exact .ok (set_refines same key value 0)
  · simp only [held, found]
    -- Whatever the text was, it grows by the value and becomes raw.
    have grown (buf : SDS) : Refines env policy
        (Store.stampAccess env { s with usedMemory := s.usedMemory - entrySize key e } e.lru >>= fun stamped =>
          .ok (((buf.appendString env.growth value).buf.length : Int),
            stamped.2.record key ⟨.raw, 0, some (buf.appendString env.growth value), none, e.expiresAt, stamped.1⟩))
        (Keyspace.touch (rulesOf env policy) >>= fun _ =>
          .ok (((buf.buf ++ value).length : Int), K.put key ⟨.raw (buf.buf ++ value), item.deadline⟩)) := by
      have policy' : ({ s with usedMemory := s.usedMemory - entrySize key e } : Store).policy = policy := same.policy
      obtain ⟨stamp, n, stamped⟩ := stampAccess_eq env policy' e.lru
      rw [stamped, ← shows.expiresAt]
      cases Keyspace.touch (rulesOf env policy) with
      | error p => exact .error
      | ok =>
        refine .ok (same.insert rfl rfl ?_)
        exact .raw (e := ⟨.raw, 0, some (buf.appendString env.growth value), none, e.expiresAt, stamp⟩) rfl rfl
    cases shows with
    | int tag fits => rw [if_pos tag]; exact grown (.new (itoa e.intVal))
    | embstr tag str => rw [if_neg (by rw [tag]; decide), str]; exact grown _
    | raw tag str => rw [if_neg (by rw [tag]; decide), str]; exact grown _
    | sketch tag h empty holds cached => rw [if_neg (by rw [tag]; decide), empty]; exact .error

theorem addValues_joins {h : HLL} {table : Table} (holds : Holds h table) (cached : Cached env.estimate h table)
    (values : List Bytes) (changed : Bool) :
    ∃ after grew, Store.addValues values (some h) changed = .ok (some after, changed || grew) ∧
      Holds after (Keyspace.joinAll table values) ∧ Cached env.estimate after (Keyspace.joinAll table values) ∧
      Grown table (Keyspace.joinAll table values) grew := by
  induction values generalizing h table changed with
  | nil => exact ⟨h, false, by simp [Store.addValues, forEach], holds, cached, .refl table⟩
  | cons v rest ih =>
    obtain ⟨next, first, ran, holds', grown, value, flag⟩ := holds.add v
    obtain ⟨after, second, others, final, cached', more⟩ :=
      ih holds' (cached.grown grown value flag) (changed || first)
    refine ⟨after, first || second, ?_, final, cached', grown.trans more⟩
    have step : Store.addValue v (some h, changed) = .ok (some next, changed || first) := by
      simp only [Store.addValue, ran]
      rfl
    rw [← Bool.or_assoc, ← others, Store.addValues, forEach, step]
    rfl

open Classical in
theorem pfAdd_refines {s : Store} {K : Keyspace} (same : Represents env policy s K) (key : Bytes) (values : List Bytes) :
    Refines env policy (s.pfAdd env key values) (K.pfAdd (rulesOf env policy) (env.clock s.tick) key values) := by
  have created {s : Store} {K : Keyspace} (same : Represents env policy s K) :
      Refines env policy
        (Store.addValues values (some .new) true >>= fun added =>
          .ok (some added.2, Store.record { (s.stampNew env).2 with keys := (s.stampNew env).2.keys + 1 } key
            ⟨.hll, 0, none, added.1, none, (s.stampNew env).1⟩))
        (.ok (some true, K.put key ⟨.sketch (Keyspace.joinAll ⊥ values), none⟩)) := by
    obtain ⟨after, grew, ran, holds, cached, _⟩ := addValues_joins Holds.new (Cached.new env) values true
    rw [ran]
    refine .ok (same.insert rfl rfl ?_)
    exact .sketch (e := ⟨.hll, 0, none, some after, none, (s.stampNew env).1⟩) rfl rfl rfl holds cached
  unfold Store.pfAdd Keyspace.pfAdd Keyspace.find
  rcases same.at key with ⟨absent, nothing⟩ | ⟨e, item, held, found, shows⟩
  · rw [absent, nothing]
    exact created same
  · simp only [held, found, isExpired_dead shows]
    have kept := same.ticked (isExpired_ticked env s e)
    cases dead : item.dead (env.clock s.tick) with
    | true => exact created (kept.removeKey key)
    | false =>
      simp only [Bool.false_eq_true, if_false]
      cases shows with
      | int tag fits => rw [if_pos (by rw [tag]; decide)]; exact .ok kept
      | embstr tag str => rw [if_pos (by rw [tag]; decide)]; exact .ok kept
      | raw tag str => rw [if_pos (by rw [tag]; decide)]; exact .ok kept
      | @sketch h table tag value empty holds cached =>
        rw [if_neg (by rw [tag]; decide), value]
        obtain ⟨after, grew, ran, final, cached', grown⟩ := addValues_joins holds cached values false
        have policy' : ({ (s.isExpired env e).2 with
          usedMemory := (s.isExpired env e).2.usedMemory - entrySize key e } : Store).policy = policy := kept.policy
        obtain ⟨stamp, n, stamped⟩ := stampAccess_eq env policy' e.lru
        have changed : grew = decide (table < Keyspace.joinAll table values) := by
          rw [Bool.eq_iff_iff, grown.flag, decide_eq_true_iff]
        rw [stamped, ran, Bool.false_or, changed]
        cases Keyspace.touch (rulesOf env policy) with
        | error p => exact .error
        | ok =>
          refine .ok (kept.insert rfl rfl ?_)
          exact .sketch (e := { e with hllVal := some after, lru := stamp }) tag rfl empty final cached'

theorem pfCount_refines {s : Store} {K : Keyspace} (same : Represents env policy s K) (key : Bytes) :
    Refines env policy (s.pfCount env key) (.ok (K.pfCount (rulesOf env policy) key, K)) := by
  unfold Store.pfCount Keyspace.pfCount
  rcases same.at key with ⟨absent, nothing⟩ | ⟨e, item, held, found, shows⟩
  · rw [absent, nothing]
    exact .ok same
  · simp only [held]
    cases shows with
    | int tag fits => rw [if_pos (by rw [tag]; decide), found]; exact .ok same
    | embstr tag str => rw [if_pos (by rw [tag]; decide), found]; exact .ok same
    | raw tag str => rw [if_pos (by rw [tag]; decide), found]; exact .ok same
    | @sketch h table tag value empty holds cached =>
      obtain ⟨after, counted, holds', cached'⟩ := holds.count_eq cached
      rw [if_neg (by rw [tag]; decide), value, found]
      simp only [counted]
      refine .ok ?_
      rw [← put_same found]
      exact same.insert rfl rfl (.sketch (e := { e with hllVal := some after }) tag rfl empty holds' cached')

/-- The table a key brings to a merge: that of its sketch, or nothing. -/
inductive SketchAt (s : Store) (key : Bytes) : Table → Prop
  | none (other : ∀ e, s.data.lookup key = some e → e.encoding ≠ .hll) : SketchAt s key ⊥
  | some {e : Entry} {h : HLL} {table : Table} (held : s.data.lookup key = some e) (tag : e.encoding = .hll)
      (value : e.hllVal = some h) (holds : Holds h table) : SketchAt s key table

theorem Represents.sketchAt {s : Store} {K : Keyspace} (same : Represents env policy s K) (key : Bytes) :
    SketchAt s key (K.tableAt key) := by
  rcases same.at key with ⟨absent, nothing⟩ | ⟨e, item, held, found, shows⟩
  · rw [Keyspace.tableAt, nothing]
    exact .none (by simp [absent])
  · have other (tag : e.encoding ≠ .hll) : SketchAt s key ⊥ := by
      refine .none fun e' held' => ?_
      cases held.symm.trans held'
      exact tag
    rw [Keyspace.tableAt, found]
    cases shows with
    | int tag fits => exact other (by rw [tag]; decide)
    | embstr tag str => exact other (by rw [tag]; decide)
    | raw tag str => exact other (by rw [tag]; decide)
    | sketch tag value empty holds cached => exact .some held tag value holds

theorem mergeKey_joins {s : Store} {key : Bytes} {entries : Table} (source : SketchAt s key entries) {acc : HLL}
    {table : Table} (holds : Holds acc table) (cached : Cached env.estimate acc table) :
    ∃ after, s.mergeKey key acc = .ok after ∧ Holds after (table ⊔ entries) ∧ Cached env.estimate after (table ⊔ entries) := by
  unfold Store.mergeKey
  cases source with
  | none other =>
    rw [sup_bot_eq]
    refine ⟨acc, ?_, holds, cached⟩
    split
    · rfl
    next e held => rw [if_pos (other e held)]
  | some held tag value source =>
    obtain ⟨next, changed, ran, holds', grown, _, kept, flag⟩ := holds.merge source
    simp only [held]
    rw [if_neg (by rw [tag]; decide), value]
    exact ⟨next, by simp only [ran]; rfl, holds', cached.grown grown kept flag⟩

theorem mergeKeys_joins {s : Store} {tables : Bytes → Table} {keys : List Bytes}
    (sources : ∀ key ∈ keys, SketchAt s key (tables key)) {acc : HLL} {table : Table} (holds : Holds acc table)
    (cached : Cached env.estimate acc table) :
    ∃ after, forEach keys s.mergeKey acc = .ok after ∧ Holds after (keys.foldl (fun table key => table ⊔ tables key) table) ∧
      Cached env.estimate after (keys.foldl (fun table key => table ⊔ tables key) table) := by
  induction keys generalizing acc table with
  | nil => exact ⟨acc, rfl, holds, cached⟩
  | cons key rest ih =>
    obtain ⟨next, merged, holds', cached'⟩ := mergeKey_joins (sources key List.mem_cons_self) holds cached
    obtain ⟨after, others, final⟩ := ih (fun key inside => sources key (.tail _ inside)) holds' cached'
    exact ⟨after, by rw [forEach, merged]; exact others, final⟩

/-- The union of the tables is the new value of the first key. -/
theorem pfMerge_joins (env : Env) {s : Store} {tables : Bytes → Table} {dest : Bytes} {keys : List Bytes}
    (sources : ∀ key ∈ dest :: keys, SketchAt s key (tables key)) :
    ∃ acc stamp after, s.pfMerge env dest keys = .ok after ∧ after.policy = s.policy ∧
      after.data = s.data.insert dest ⟨.hll, 0, none, some acc, none, stamp⟩ ∧
      Holds acc ((dest :: keys).foldl (fun table key => table ⊔ tables key) ⊥) ∧
      Cached env.estimate acc ((dest :: keys).foldl (fun table key => table ⊔ tables key) ⊥) := by
  obtain ⟨acc, merged, holds, cached⟩ := mergeKeys_joins sources Holds.new (Cached.new env)
  obtain ⟨data, kept, _⟩ := dropOld_data s dest
  have ran : s.pfMerge env dest keys = .ok ((((s.dropOld dest).stampNew env).2.record dest
      ⟨.hll, 0, none, some acc, none, ((s.dropOld dest).stampNew env).1⟩)) := by
    rw [Store.pfMerge, merged]
    rfl
  exact ⟨acc, _, _, ran, kept, by rw [← data]; rfl, holds, cached⟩

theorem pfMerge_refines {s : Store} {K : Keyspace} (same : Represents env policy s K) (dest : Bytes) (sources : List Bytes) :
    ∃ after, s.pfMerge env dest sources = .ok after ∧ Represents env policy after (K.pfMerge dest sources) := by
  obtain ⟨acc, stamp, after, ran, kept, data, holds, cached⟩ :=
    pfMerge_joins env fun key (_ : key ∈ dest :: sources) => same.sketchAt key
  exact ⟨after, ran, same.insert data kept (.sketch (e := ⟨.hll, 0, none, some acc, none, stamp⟩) rfl rfl rfl holds cached)⟩

theorem deleteOne_refines {s : Store} {K : Keyspace} (same : Represents env policy s K) (removed : Int) (key : Bytes) :
    (Store.deleteOne env (removed, s) key).1 = (K.deleteOne (env.clock s.tick) removed key).1 ∧
      Represents env policy (Store.deleteOne env (removed, s) key).2 (K.deleteOne (env.clock s.tick) removed key).2 := by
  unfold Store.deleteOne Keyspace.deleteOne
  rcases same.at key with ⟨absent, nothing⟩ | ⟨e, item, held, found, shows⟩
  · simp only [absent, nothing]
    exact ⟨trivial, same⟩
  · simp only [held, found, isExpired_dead shows]
    exact ⟨trivial, (same.ticked (isExpired_ticked env s e)).removeKey key⟩

/-- Readings of the clock that a request has made. -/
def Readings (env : Env) (clock : Nat → Int) : Prop := ∀ i, ∃ j, clock i = env.clock j

/-- Readings made while one store became the other. -/
def ReadingsBetween (env : Env) (s after : Store) (clock : Nat → Int) : Prop :=
  ∀ i, env.clock s.tick ≤ clock i ∧ clock i ≤ env.clock after.tick

/-- Only the readings from the first one on matter. -/
theorem delete_congr (clock clock' : Nat → Int) (i : Nat) (agree : ∀ j, i ≤ j → clock j = clock' j) (removed : Int)
    (K : Keyspace) (keys : List Bytes) : Keyspace.delete clock i removed K keys = Keyspace.delete clock' i removed K keys := by
  induction keys generalizing i removed K with
  | nil => rfl
  | cons key rest ih =>
    simp only [Keyspace.delete, agree i (Nat.le_refl i)]
    exact ih (i + 1) (fun j later => agree j (by omega)) _ _

theorem deleteFrom_refines {s : Store} {K : Keyspace} (same : Represents env policy s K) (keys : List Bytes) (i : Nat)
    (removed : Int) :
    ∃ clock, (Readings env clock ∧ ReadingsBetween env s (keys.foldl (Store.deleteOne env) (removed, s)).2 clock) ∧
      (keys.foldl (Store.deleteOne env) (removed, s)).1 = (Keyspace.delete clock i removed K keys).1 ∧
      Represents env policy (keys.foldl (Store.deleteOne env) (removed, s)).2 (Keyspace.delete clock i removed K keys).2 := by
  induction keys generalizing s K i removed with
  | nil => exact ⟨fun _ => env.clock s.tick, ⟨fun _ => ⟨s.tick, rfl⟩, fun _ => ⟨Int.le_refl _, Int.le_refl _⟩⟩, rfl, same⟩
  | cons key rest ih =>
    obtain ⟨counted, kept⟩ := deleteOne_refines same removed key
    obtain ⟨clock, ⟨readings, between⟩, total, final⟩ := ih kept (i + 1) (Store.deleteOne env (removed, s) key).1
    -- The first key's reading goes in front of those of the others.
    have agree := delete_congr clock (Function.update clock i (env.clock s.tick)) (i + 1)
      (fun j later => by rw [Function.update_of_ne (by omega)])
    have later := (deleteOne_edits env (removed, s) key).tick
    refine ⟨Function.update clock i (env.clock s.tick), ⟨?_, ?_⟩, ?_, ?_⟩
    · intro j
      by_cases here : j = i
      · exact ⟨s.tick, by rw [here, Function.update_self]⟩
      · rw [Function.update_of_ne here]
        exact readings j
    · intro j
      by_cases here : j = i
      · rw [here, Function.update_self]
        exact ⟨Int.le_refl _, env.forward _ _ (deleteFrom_edits env (removed, s) (key :: rest)).tick⟩
      · rw [Function.update_of_ne here]
        exact ⟨Int.le_trans (env.forward _ _ later) (between j).1, (between j).2⟩
    · simp only [List.foldl_cons, Keyspace.delete, Function.update_self, ← agree, ← counted]
      exact total
    · simp only [List.foldl_cons, Keyspace.delete, Function.update_self, ← agree, ← counted]
      exact final

theorem delete_refines {s : Store} {K : Keyspace} (same : Represents env policy s K) (keys : List Bytes) :
    ∃ clock, (Readings env clock ∧ ReadingsBetween env s (s.delete env keys).2 clock) ∧
      (s.delete env keys).1 = (Keyspace.delete clock 0 0 K keys).1 ∧
      Represents env policy (s.delete env keys).2 (Keyspace.delete clock 0 0 K keys).2 :=
  deleteFrom_refines same keys 0 0

end Rediska.Proofs
