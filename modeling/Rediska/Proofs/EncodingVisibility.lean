import Rediska.Proofs.DispatchSafety
import Rediska.Proofs.ExpiryTransparency
import Rediska.Proofs.HandlerRelations
import Rediska.Proofs.TextFidelity

/-! Two stores with the same texts in different encodings, and the commands that tell
them apart. -/

namespace Rediska.Proofs
open Go Core Hll Storage Spec Commands Logic

/-- The entries have the same deadline, and until then the same text. -/
structure Like (now : Int) (e e' : Entry) : Prop where
  expires : e'.expiresAt = e.expiresAt
  texts : ∃ text text', entryText e = .ok (some text) ∧ entryText e' = .ok (some text') ∧ (expiredAt now e = false → text' = text)

theorem expiredAt_congr {now : Int} {e e' : Entry} (expires : e'.expiresAt = e.expiresAt) : expiredAt now e' = expiredAt now e := by
  rw [expiredAt, expires, expiredAt]

theorem expiredAt_later {now later : Int} {e : Entry} (forward : now ≤ later) (alive : expiredAt later e = false) :
    expiredAt now e = false := by
  unfold expiredAt at alive ⊢
  split
  · rfl
  next deadline limited =>
    simp only [limited, decide_eq_false_iff_not] at alive ⊢
    omega

theorem expiredAt_mono {now later : Int} {e : Entry} (forward : now ≤ later) (expired : expiredAt now e = true) :
    expiredAt later e = true := by
  by_contra alive
  rw [expiredAt_later forward (Bool.eq_false_iff.mpr alive)] at expired
  cases expired

theorem Like.later {now later : Int} {e e' : Entry} (forward : now ≤ later) (like : Like now e e') : Like later e e' := by
  obtain ⟨text, text', read, read', same⟩ := like.texts
  exact ⟨like.expires, text, text', read, read', fun alive => same (expiredAt_later forward alive)⟩

theorem Like.restamp {now : Int} {e e' : Entry} (like : Like now e e') (stamp stamp' : UInt32) :
    Like now { e with lru := stamp } { e' with lru := stamp' } :=
  ⟨like.expires, like.texts⟩

theorem newEntry_like (now : Int) (value : Bytes) (expiresAt : Option Int) (stamp stamp' : UInt32) :
    Like now (Store.newEntry value expiresAt stamp) (Store.newEntry value expiresAt stamp') := by
  have plain : ∃ text, (detect value).text = some text := by
    unfold detect
    split
    · exact ⟨_, rfl⟩
    · split <;> exact ⟨_, rfl⟩
  obtain ⟨text, plain⟩ := plain
  have shows (stamp : UInt32) := newEntry_shows (.still 0) value expiresAt stamp
  have read (stamp : UInt32) : entryText (Store.newEntry value expiresAt stamp) = .ok (some text) := plain ▸ (shows stamp).entryText
  exact ⟨(shows stamp').expiresAt.trans (shows stamp).expiresAt.symm, text, text, read stamp, read stamp', fun _ => rfl⟩

/-- Like entries at every key, and the same readings of the clock ahead. -/
structure Alike (env env' : Env) (t t' : Store) : Prop where
  policy : t'.policy = t.policy
  time : ∀ n, env'.clock (t'.tick + n) = env.clock (t.tick + n)
  entries : ∀ key, Option.Rel (Like (env.clock t.tick)) (t.data.lookup key) (t'.data.lookup key)

section
variable {env env' : Env} {t t' u u' : Store} {key : Bytes}

theorem Alike.at (alike : Alike env env' t t') (key : Bytes) :
    (t.data.lookup key = none ∧ t'.data.lookup key = none) ∨
      ∃ e e', t.data.lookup key = some e ∧ t'.data.lookup key = some e' ∧ Like (env.clock t.tick) e e' :=
  related_cases (alike.entries key)

/-- Both stores read the clock equally often and write like entries, if any. -/
theorem Alike.move (alike : Alike env env' t t') (n : Nat) (policy : u.policy = t.policy) (policy' : u'.policy = t'.policy)
    (tick : u.tick = t.tick + n) (tick' : u'.tick = t'.tick + n)
    (cells : ∀ j, Option.Rel (Like (env.clock u.tick)) (u.data.lookup j) (u'.data.lookup j) ∨
      u.data.lookup j = t.data.lookup j ∧ u'.data.lookup j = t'.data.lookup j) : Alike env env' u u' := by
  refine ⟨policy'.trans (alike.policy.trans policy.symm), ?_, ?_⟩
  · intro i
    rw [tick, tick', Nat.add_assoc, Nat.add_assoc, alike.time]
  · intro j
    rcases cells j with like | ⟨kept, kept'⟩
    · exact like
    · have forward : env.clock t.tick ≤ env.clock u.tick := env.forward _ _ (tick ▸ Nat.le_add_right _ _)
      rw [kept, kept']
      rcases alike.at j with ⟨absent, absent'⟩ | ⟨e, e', held, held', like⟩
      · rw [absent, absent']
        exact .none
      · rw [held, held']
        exact .some (like.later forward)

theorem Alike.waited (alike : Alike env env' t t') (n : Nat) (policy : u.policy = t.policy) (policy' : u'.policy = t'.policy)
    (tick : u.tick = t.tick + n) (tick' : u'.tick = t'.tick + n) (data : u.data = t.data) (data' : u'.data = t'.data) :
    Alike env env' u u' :=
  alike.move n policy policy' tick tick' fun j => .inr ⟨by rw [data], by rw [data']⟩

theorem Alike.insert (alike : Alike env env' t t') (n : Nat) {e e' : Entry} (policy : u.policy = t.policy)
    (policy' : u'.policy = t'.policy) (tick : u.tick = t.tick + n) (tick' : u'.tick = t'.tick + n)
    (data : u.data = t.data.insert key e) (data' : u'.data = t'.data.insert key e')
    (like : Like (env.clock u.tick) e e') : Alike env env' u u' := by
  refine alike.move n policy policy' tick tick' ?_
  intro j
  rw [data, data', lookup_insert_if, lookup_insert_if]
  by_cases here : j = key
  · rw [if_pos here, if_pos here]
    exact .inl (.some like)
  · rw [if_neg here, if_neg here]
    exact .inr ⟨rfl, rfl⟩

theorem Alike.removeKey (alike : Alike env env' t t') (key : Bytes) : Alike env env' (t.removeKey key) (t'.removeKey key) := by
  refine alike.move 0 (removeKey_policy t key) (removeKey_policy t' key) (removeKey_tick t key) (removeKey_tick t' key) ?_
  intro j
  rw [lookup_removeKey, lookup_removeKey]
  by_cases here : j = key
  · rw [if_pos here, if_pos here]
    exact .inl .none
  · rw [if_neg here, if_neg here]
    exact .inr ⟨rfl, rfl⟩

theorem Alike.isLFU (alike : Alike env env' t t') : t'.isLFU = t.isLFU := by
  unfold Store.isLFU
  rw [alike.policy]

theorem Alike.now (alike : Alike env env' t t') :
    (t'.now env').1 = (t.now env).1 ∧ Alike env env' (t.now env).2 (t'.now env').2 :=
  ⟨alike.time 0, alike.waited 1 rfl rfl rfl rfl rfl rfl⟩

theorem Alike.isExpired {e e' : Entry} (alike : Alike env env' t t') (like : Like (env.clock t.tick) e e') :
    (t'.isExpired env' e').1 = (t.isExpired env e).1 ∧ Alike env env' (t.isExpired env e).2 (t'.isExpired env' e').2 := by
  constructor
  · have time : env'.clock t'.tick = env.clock t.tick := alike.time 0
    rw [isExpired_expiredAt, isExpired_expiredAt, time, expiredAt_congr like.expires]
  · unfold Store.isExpired
    rw [like.expires]
    split
    · exact alike
    · exact alike.now.2

/-- An append makes a raw string of the text there was, expired or not. -/
theorem append_held {e : Entry} {text : Bytes} (decays : env.lfuDecayTime ≠ 0) (held : t.data.lookup key = some e)
    (read : entryText e = .ok (some text)) (value : Bytes) :
    ∃ v buf stamp, t.append env key value = .ok (((text ++ value).length : Nat), v) ∧ v.policy = t.policy ∧
      (v.tick = t.tick + if t.isLFU then 2 else 1) ∧ v.data = t.data.insert key ⟨.raw, 0, some buf, none, e.expiresAt, stamp⟩ ∧
      buf.buf = text ++ value := by
  have string : ∃ buf, (if e.encoding = .int then some (SDS.new (itoa e.intVal)) else e.strVal) = some buf ∧ buf.buf = text := by
    unfold entryText at read
    split at read
    next tag =>
      cases read
      exact ⟨_, if_pos tag, rfl⟩
    next tag string =>
      cases read
      exact ⟨_, by rw [if_neg (by rw [tag]; decide), string], rfl⟩
    next tag string =>
      cases read
      exact ⟨_, by rw [if_neg (by rw [tag]; decide), string], rfl⟩
    all_goals cases read
  obtain ⟨buf, string, rfl⟩ := string
  obtain ⟨stamp, stamped⟩ := stampAccess_returns decays { t with usedMemory := t.usedMemory - entrySize key e } e.lru
  have appended : t.append env key value = .ok (((buf.buf ++ value).length : Nat), Store.record
      { t with usedMemory := t.usedMemory - entrySize key e, tick := t.tick + if t.isLFU then 2 else 1 } key
        ⟨.raw, 0, some (buf.appendString env.growth value), none, e.expiresAt, stamp⟩) := by
    simp only [Store.append, held, string, stamped, ok_bind]
    rfl
  exact ⟨_, _, stamp, appended, rfl, rfl, rfl, rfl⟩

theorem Alike.set (alike : Alike env env' t t') (key value : Bytes) (ttl : Int) :
    Alike env env' (t.set env key value ttl) (t'.set env' key value ttl) := by
  obtain ⟨stamp, policy, data⟩ := set_entry env t key value ttl
  obtain ⟨stamp', policy', data'⟩ := set_entry env' t' key value ttl
  have time : env'.clock t'.tick = env.clock t.tick := alike.time 0
  rw [time] at data'
  exact alike.insert _ policy policy' (set_ticks env t key value ttl) (set_ticks env' t' key value ttl) data data' (newEntry_like _ _ _ _ _)

theorem Alike.ttl (alike : Alike env env' t t') (key : Bytes) :
    (t'.ttl env' key).1 = (t.ttl env key).1 ∧ Alike env env' (t.ttl env key).2 (t'.ttl env' key).2 := by
  unfold Store.ttl
  rcases alike.at key with ⟨absent, absent'⟩ | ⟨e, e', held, held', like⟩
  · rw [absent, absent']
    exact ⟨rfl, alike⟩
  · simp only [held, held', like.expires]
    cases e.expiresAt with
    | none => exact ⟨rfl, alike⟩
    | some deadline =>
      obtain ⟨reading, alike'⟩ := alike.now
      dsimp only
      rw [reading]
      split
      · exact ⟨rfl, alike'.removeKey key⟩
      · exact ⟨rfl, alike'⟩

theorem Alike.deleteOne {state state' : Int × Store} (count : state'.1 = state.1) (alike : Alike env env' state.2 state'.2) (key : Bytes) :
    (Store.deleteOne env' state' key).1 = (Store.deleteOne env state key).1 ∧
      Alike env env' (Store.deleteOne env state key).2 (Store.deleteOne env' state' key).2 := by
  unfold Store.deleteOne
  rcases alike.at key with ⟨absent, absent'⟩ | ⟨e, e', held, held', like⟩
  · rw [absent, absent']
    exact ⟨count, alike⟩
  · obtain ⟨expired, alike'⟩ := alike.isExpired like
    simp only [held, held', expired, count]
    exact ⟨trivial, alike'.removeKey key⟩

variable (decays : env.lfuDecayTime ≠ 0) (decays' : env'.lfuDecayTime ≠ 0)
include decays decays'

theorem Alike.touch (alike : Alike env env' t t') {e e' : Entry} (like : Like (env.clock t.tick) e e') (key : Bytes) :
    ∃ v v', t.touch env key e = .ok v ∧ t'.touch env' key e' = .ok v' ∧ Alike env env' v v' := by
  obtain ⟨stamp, stamped⟩ := stampAccess_returns decays t e.lru
  obtain ⟨stamp', stamped'⟩ := stampAccess_returns decays' t' e'.lru
  rw [alike.isLFU] at stamped'
  refine ⟨_, _, by rw [Store.touch, stamped]; rfl, by rw [Store.touch, stamped']; rfl, ?_⟩
  refine alike.insert _ rfl rfl rfl rfl rfl rfl ?_
  exact (like.later (env.forward _ _ (Nat.le_add_right _ _))).restamp stamp stamp'

/-- A read that finds the same in both stores if the entry is live. -/
theorem Alike.readKey {α : Type} {absent : α} {seen seen' : Entry → Panics α} (alike : Alike env env' t t') (key : Bytes)
    (same : ∀ e e', t.data.lookup key = some e → t'.data.lookup key = some e' → Like (env.clock t.tick) e e' →
      expiredAt (env.clock t.tick) e = false → ∃ a, seen e = .ok a ∧ seen' e' = .ok a) :
    Together False (Alike env env') (readKey env t key absent seen) (readKey env' t' key absent seen') := by
  unfold Proofs.readKey
  rcases alike.at key with ⟨absent, absent'⟩ | ⟨e, e', held, held', like⟩
  · rw [absent, absent']
    exact .ok alike
  · obtain ⟨expired, alike'⟩ := alike.isExpired like
    simp only [held, held', expired]
    cases dead : (t.isExpired env e).1 with
    | true => exact .ok (alike'.removeKey key)
    | false =>
      obtain ⟨v, v', touched, touched', last⟩ := alike'.touch decays decays' (like.later (env.forward _ _ (isExpired_tick env t e))) key
      rw [isExpired_expiredAt] at dead
      obtain ⟨a, looked, looked'⟩ := same e e' held held' like dead
      simp only [Bool.false_eq_true, if_false, touched, touched', ok_bind, looked, looked']
      exact .ok last

theorem Alike.get (alike : Alike env env' t t') (key : Bytes) : Together False (Alike env env') (t.get env key) (t'.get env' key) := by
  rw [get_eq, get_eq]
  apply alike.readKey decays decays'
  intro e e' _ _ like alive
  obtain ⟨text, text', read, read', same⟩ := like.texts
  exact ⟨_, read, by rw [read', same alive]⟩

end

def textCommands : List CommandName := [.get, .set, .incr, .append, .expire, .ttl, .del]

/-- One command of a sequence. -/
def handle (env : Env) (cfg : Config) (s : Store) (cmd : CommandName × List Bytes) : Panics (Bytes × Store) :=
  runHandler env cfg cmd.1 s cmd.2

/-- A sequence of commands returns and gets the same replies in two stores. -/
def SameReplies (env env' : Env) (cfg cfg' : Config) (cmds : List (CommandName × List Bytes)) (s s' : Store) : Prop :=
  ∃ replies t t', runAll (handle env cfg) s cmds = .ok (replies, t) ∧ runAll (handle env' cfg') s' cmds = .ok (replies, t')

/-- The command shows how a text is kept: an INCR of a live key that is an integer in
one of the stores only, or an APPEND to texts of different lengths. -/
inductive Tells (env : Env) (s s' : Store) : CommandName × List Bytes → Prop
  | incr {key : Bytes} {e e' : Entry} (held : s.data.lookup key = some e) (held' : s'.data.lookup key = some e')
      (alive : expiredAt (env.clock s.tick) e = false) (kinds : ¬ (e.encoding = .int ↔ e'.encoding = .int)) : Tells env s s' (.incr, [key])
  | append {key value : Bytes} {e e' : Entry} {text text' : Bytes} (held : s.data.lookup key = some e)
      (held' : s'.data.lookup key = some e') (read : entryText e = .ok (some text)) (read' : entryText e' = .ok (some text'))
      (lengths : text.length ≠ text'.length) : Tells env s s' (.append, [key, value])

section
variable {env env' : Env} {cfg cfg' : Config} {t t' : Store} (decays : env.lfuDecayTime ≠ 0) (decays' : env'.lfuDecayTime ≠ 0)

include decays decays'

theorem Alike.getInt (alike : Alike env env' t t') {key : Bytes} (quiet : ¬ Tells env t t' (.incr, [key])) :
    Together False (Alike env env') (t.getInt env key) (t'.getInt env' key) := by
  rw [getInt_eq, getInt_eq]
  apply alike.readKey decays decays'
  intro e e' held held' like alive
  obtain ⟨text, text', read, read', same⟩ := like.texts
  have kinds : e.encoding = .int ↔ e'.encoding = .int := by
    by_contra different
    exact quiet (.incr held held' alive different)
  refine ⟨_, rfl, congrArg _ ?_⟩
  by_cases int : e.encoding = .int
  · have int' := kinds.mp int
    have equal : e'.intVal = e.intVal := by
      simp only [entryText, int, Except.ok.injEq, Option.some.injEq] at read
      simp only [entryText, int', Except.ok.injEq, Option.some.injEq] at read'
      exact itoa_injective (read'.trans ((same alive).trans read.symm))
    simp only [entryInt, int, int', equal, like.expires]
  · simp only [entryInt, int, mt kinds.mpr int, ne_eq, not_false_eq_true, if_true]

theorem Alike.append (alike : Alike env env' t t') {key value : Bytes} (quiet : ¬ Tells env t t' (.append, [key, value])) :
    Together False (Alike env env') (t.append env key value) (t'.append env' key value) := by
  rcases alike.at key with ⟨absent, absent'⟩ | ⟨e, e', held, held', like⟩
  · rw [Store.append, absent, Store.append, absent']
    exact .ok (alike.set key value 0)
  · obtain ⟨text, text', read, read', same⟩ := like.texts
    obtain ⟨v, buf, stamp, ran, policy, tick, data, grown⟩ := append_held decays held read value
    obtain ⟨v', buf', stamp', ran', policy', tick', data', grown'⟩ := append_held decays' held' read' value
    have lengths : text'.length = text.length := by
      by_contra different
      exact quiet (.append held held' read read' (Ne.symm different))
    have forward : env.clock t.tick ≤ env.clock v.tick := env.forward _ _ (tick ▸ Nat.le_add_right _ _)
    rw [alike.isLFU] at tick'
    rw [ran, ran', List.length_append, List.length_append, lengths]
    refine .ok (alike.insert _ policy policy' tick tick' data data' ?_)
    refine ⟨like.expires, text ++ value, text' ++ value, congrArg (Except.ok ∘ some) grown, congrArg (Except.ok ∘ some) grown', ?_⟩
    intro alive
    rw [same (expiredAt_later forward alive)]

/-- A command that does not show encodings. -/
theorem handler_alike (unicode : env'.unicode = env.unicode) (alike : Alike env env' t t') {name : CommandName} {args : List Bytes}
    (text : name ∈ textCommands) (quiet : ¬ Tells env t t' (name, args)) :
    Together False (Alike env env') (runHandler env cfg name t args) (runHandler env' cfg' name t' args) := by
  have time : KeepsTime env env' (Alike env env') := fun u u' alike => alike.now
  have set : KeepsSet env env' (Alike env env') args := fun key rest u u' value ttl _ alike => alike.set key value ttl
  have get (key : Bytes) (rest : List Bytes) (_ : args = key :: rest) := alike.get decays decays' key
  cases name with
  | get => exact handleGet_together alike get
  | set => exact handleSet_together unicode alike set
  | expire => exact handleExpire_together alike get set
  | ttl => exact handleTTL_together alike fun key _ _ => alike.ttl key
  | incr => exact handleIncr_together alike (fun key given => alike.getInt decays decays' (given ▸ quiet)) time set
  | append => exact handleAppend_together alike fun key value given => alike.append decays decays' (given ▸ quiet)
  | del => exact handleDel_together alike fun key _ state state' count alike => alike.deleteOne count key
  | pfadd | pfcount | pfmerge | object | ping | info | debug | cluster | expiry => exact absurd text (by decide)

omit decays' in
/-- INCR of a live key answers by the encoding alone whether it is an integer. -/
theorem handleIncr_live (cfg : Config) {key : Bytes} {e : Entry} (held : t.data.lookup key = some e)
    (alive : expiredAt (env.clock t.tick) e = false) :
    ∃ reply v, runHandler env cfg .incr t [key] = .ok (reply, v) ∧ (isErrorReply reply = false ↔ e.encoding = .int) := by
  obtain ⟨stamp, stamped⟩ := stampAccess_returns decays (t.isExpired env e).2 e.lru
  rw [← isExpired_expiredAt env t e] at alive
  simp only [runHandler, handleIncr, Store.getInt, held, alive, Bool.false_eq_true, if_false, Store.touch, stamped, ok_bind]
  by_cases int : e.encoding = .int
  · rw [if_neg (not_not.mpr int)]
    exact ⟨_, _, rfl, iff_of_true rfl int⟩
  · rw [if_pos int]
    exact ⟨_, _, rfl, iff_of_false (by decide) int⟩

/-- A command that shows encodings gets two different replies. -/
theorem Tells.replies {cmd : CommandName × List Bytes} (alike : Alike env env' t t') (tells : Tells env t t' cmd) :
    ∃ reply v reply' v', handle env cfg t cmd = .ok (reply, v) ∧ handle env' cfg' t' cmd = .ok (reply', v') ∧ reply ≠ reply' := by
  cases tells with
  | @incr key e e' held held' alive kinds =>
    have alive' : expiredAt (env'.clock t'.tick) e' = false := by
      rcases alike.at key with ⟨absent, _⟩ | ⟨f, f', found, found', like⟩
      · rw [absent] at held
        cases held
      · rw [held] at found
        rw [held'] at found'
        cases found
        cases found'
        have time : env'.clock t'.tick = env.clock t.tick := alike.time 0
        rw [time, expiredAt_congr like.expires, alive]
    obtain ⟨reply, v, ran, said⟩ := handleIncr_live decays cfg held alive
    obtain ⟨reply', v', ran', said'⟩ := handleIncr_live decays' cfg' held' alive'
    refine ⟨reply, v, reply', v', ran, ran', ?_⟩
    intro same
    exact kinds (said.symm.trans (same ▸ said'))
  | @append key value e e' text text' held held' read read' lengths =>
    obtain ⟨v, _, _, ran, _⟩ := append_held decays held read value
    obtain ⟨v', _, _, ran', _⟩ := append_held decays' held' read' value
    refine ⟨_, v, _, v', by rw [handle, runHandler, handleAppend, ran]; rfl, by rw [handle, runHandler, handleAppend, ran']; rfl, ?_⟩
    intro same
    have equal := encodeInteger_injective same
    rw [List.length_append, List.length_append] at equal
    omega

end

/-- The same keys, none of them a sketch, with the same deadlines and the same readings,
and the same times ahead. -/
structure SameReadings (env env' : Env) (s s' : Store) : Prop where
  time : ∀ n, env'.clock (s'.tick + n) = env.clock (s.tick + n)
  unicode : env'.unicode = env.unicode
  keys : ∀ key, Option.Rel (fun e e' => e.encoding ≠ .hll ∧ e'.encoding ≠ .hll ∧ e'.expiresAt = e.expiresAt)
    (s.data.lookup key) (s'.data.lookup key)
  texts : ∀ key, reading env s key = reading env' s' key

section
variable {env env' : Env} {cfg cfg' : Config} {policy : Policy} {w w' : World}

theorem Represents.text {s : Store} {K : Keyspace} (same : Represents env policy s K) {key : Bytes} {e : Entry}
    (held : s.data.lookup key = some e) (plain : e.encoding ≠ .hll) : ∃ text, entryText e = .ok (some text) := by
  obtain ⟨item, _, shows⟩ := same.item held
  cases written : item.content.text with
  | none => exact absurd (shows.text_none.mp written) plain
  | some text => exact ⟨text, by rw [shows.entryText, written]⟩

theorem reading_text {s : Store} {key : Bytes} {e : Entry} {text : Bytes} (decays : env.lfuDecayTime ≠ 0)
    (held : s.data.lookup key = some e) (alive : expiredAt (env.clock s.tick) e = false) (read : entryText e = .ok (some text)) :
    reading env s key = .ok (some text) := by
  have steady : (rulesOf env s.policy).fragile = false := by simp [rulesOf, decays]
  rw [reading_held held, isExpired_expiredAt, alive, touch_steady steady, ok_bind, read]
  rfl

theorem SameReadings.alike {s s' : Store} {K K' : Keyspace} (same : SameReadings env env' s s') (decays : env.lfuDecayTime ≠ 0)
    (decays' : env'.lfuDecayTime ≠ 0) (left : Represents env policy s K) (right : Represents env' policy s' K') :
    Alike env env' s s' := by
  refine ⟨right.policy.trans left.policy.symm, same.time, ?_⟩
  intro key
  rcases related_cases (same.keys key) with ⟨absent, absent'⟩ | ⟨e, e', held, held', plain, plain', expires⟩
  · rw [absent, absent']
    exact .none
  · obtain ⟨text, read⟩ := left.text held plain
    obtain ⟨text', read'⟩ := right.text held' plain'
    rw [held, held']
    refine .some ⟨expires, text, text', read, read', ?_⟩
    intro alive
    have time : env'.clock s'.tick = env.clock s.tick := same.time 0
    have alive' : expiredAt (env'.clock s'.tick) e' = false := by rw [time, expiredAt_congr expires, alive]
    have equal := same.texts key
    rw [reading_text decays held alive read, reading_text decays' held' alive' read'] at equal
    exact (Option.some.inj (Except.ok.inj equal)).symm

/-- Two stores that read the same answer a sequence of commands in the same way exactly
if none of the commands shows encodings when it runs. -/
theorem same_replies_iff (reached : Reachable env cfg policy w) (reached' : Reachable env' cfg' policy w')
    (decays : env.lfuDecayTime ≠ 0) (decays' : env'.lfuDecayTime ≠ 0) (same : SameReadings env env' w.store w'.store)
    {cmds : List (CommandName × List Bytes)} (text : ∀ cmd ∈ cmds, cmd.1 ∈ textCommands) :
    SameReplies env env' cfg cfg' cmds w.store w'.store ↔
      NeverTells (fun cmd s s' => Tells env s s' cmd) (handle env cfg) (handle env' cfg') cmds w.store w'.store := by
  obtain ⟨K, left⟩ := reached.represents
  obtain ⟨K', right⟩ := reached'.represents
  apply same_results_iff (same.alike decays decays' left right)
  · intro cmd among s s' alike quiet
    exact handler_alike decays decays' same.unicode alike (text cmd among) quiet
  · intro cmd among s s' alike tells
    exact tells.replies decays decays' alike

end

/-- SET k 12. -/
def worldOfInt : World := ⟨(Store.new .noeviction).set (.still 0) (ascii "k") (ascii "12") 0, none⟩

/-- SET k 1 and APPEND k 2. -/
def worldOfRaw : World :=
  ⟨Store.record { (Store.new .noeviction).set (.still 0) (ascii "k") (ascii "1") 0 with usedMemory := 0, tick := 2 } (ascii "k")
    ⟨.raw, 0, some ((SDS.new (ascii "1")).appendString (Env.still 0).growth (ascii "2")), none, none, 0⟩, none⟩

theorem worldOfInt_reached : Reachable (.still 0) .plain .noeviction worldOfInt := by
  have ran : dispatch (.still 0) .plain ⟨.new .noeviction, none⟩ ⟨ascii "SET", [ascii "k", ascii "12"]⟩ =
      .ok (encodeSimpleString (ascii "OK"), worldOfInt) := rfl
  exact .step (.start none) ran

theorem worldOfRaw_reached : Reachable (.still 0) .plain .noeviction worldOfRaw := by
  have set : dispatch (.still 0) .plain ⟨.new .noeviction, none⟩ ⟨ascii "SET", [ascii "k", ascii "1"]⟩ =
      .ok (encodeSimpleString (ascii "OK"), ⟨(Store.new .noeviction).set (.still 0) (ascii "k") (ascii "1") 0, none⟩) := rfl
  have append : dispatch (.still 0) .plain ⟨(Store.new .noeviction).set (.still 0) (ascii "k") (ascii "1") 0, none⟩
      ⟨ascii "APPEND", [ascii "k", ascii "2"]⟩ = .ok (encodeInteger 2, worldOfRaw) := rfl
  exact .step (.step (.start none) set) append

theorem worldOfInt_entry (key : Bytes) :
    worldOfInt.store.data.lookup key = if key = ascii "k" then some ⟨.int, 12, none, none, none, 0⟩ else none := by
  have data : worldOfInt.store.data = (Store.new .noeviction).data.insert (ascii "k") ⟨.int, 12, none, none, none, 0⟩ := rfl
  rw [data, lookup_insert_if]
  rfl

theorem worldOfRaw_entry (key : Bytes) :
    worldOfRaw.store.data.lookup key =
      if key = ascii "k" then some ⟨.raw, 0, some ((SDS.new (ascii "1")).appendString (Env.still 0).growth (ascii "2")), none, none, 0⟩
      else none := by
  have data : worldOfRaw.store.data = ((Store.new .noeviction).data.insert (ascii "k") ⟨.int, 1, none, none, none, 0⟩).insert (ascii "k")
      ⟨.raw, 0, some ((SDS.new (ascii "1")).appendString (Env.still 0).growth (ascii "2")), none, none, 0⟩ := rfl
  rw [data, lookup_insert_if, lookup_insert_if]
  by_cases here : key = ascii "k"
  · rw [if_pos here, if_pos here]
  · rw [if_neg here, if_neg here, if_neg here]
    rfl

/-- Both worlds hold the text "12" at the key "k". -/
theorem int_reads_as_raw : SameReadings (.still 0) (.still 0) worldOfInt.store worldOfRaw.store := by
  refine ⟨fun _ => rfl, rfl, ?_, ?_⟩
  · intro key
    rw [worldOfInt_entry, worldOfRaw_entry]
    split
    · exact .some ⟨nofun, nofun, rfl⟩
    · exact .none
  · intro key
    have entry := worldOfInt_entry key
    have entry' := worldOfRaw_entry key
    by_cases here : key = ascii "k"
    · rw [if_pos here] at entry entry'
      rw [reading_text (by decide) entry rfl rfl, reading_text (by decide) entry' rfl rfl]
      rfl
    · rw [if_neg here] at entry entry'
      rw [reading_absent entry, reading_absent entry']

theorem get_same_replies :
    SameReplies (.still 0) (.still 0) .plain .plain [(.get, [ascii "k"])] worldOfInt.store worldOfRaw.store :=
  (same_replies_iff worldOfInt_reached worldOfRaw_reached (by decide) (by decide) int_reads_as_raw (by decide)).mpr
    ⟨nofun, fun _ _ _ _ _ _ => trivial⟩

/-- INCR answers 13 in the one world and an error in the other. -/
theorem incr_tells_encodings :
    ¬ ∀ (env env' : Env) (cfg cfg' : Config) (policy : Policy) (w w' : World) (cmds : List (CommandName × List Bytes)),
      Reachable env cfg policy w → Reachable env' cfg' policy w' → env.lfuDecayTime ≠ 0 → env'.lfuDecayTime ≠ 0 →
      SameReadings env env' w.store w'.store → (∀ cmd ∈ cmds, cmd.1 ∈ textCommands) →
      SameReplies env env' cfg cfg' cmds w.store w'.store := by
  intro claim
  obtain ⟨replies, s, s', ran, ran'⟩ := claim (.still 0) (.still 0) .plain .plain .noeviction worldOfInt worldOfRaw [(.incr, [ascii "k"])]
    worldOfInt_reached worldOfRaw_reached (by decide) (by decide) int_reads_as_raw (by decide)
  have first : ∃ after, handle (.still 0) .plain worldOfInt.store (.incr, [ascii "k"]) = .ok (encodeInteger 13, after) := ⟨_, rfl⟩
  have first' : ∃ after, handle (.still 0) .plain worldOfRaw.store (.incr, [ascii "k"]) =
      .ok (errorReply "ERR while incrementing", after) := ⟨_, rfl⟩
  obtain ⟨after, first⟩ := first
  obtain ⟨after', first'⟩ := first'
  obtain ⟨_, _, said⟩ := (runAll_cons first).mp ran
  obtain ⟨_, _, said'⟩ := (runAll_cons first').mp ran'
  have same := (List.cons.inj (said.symm.trans said')).1
  exact absurd same (by decide)

end Rediska.Proofs
