import Rediska.Proofs.HandlerRelations
import Rediska.Proofs.StoreSteps
import Rediska.Proofs.ClusterOwnership

/-! What a handler reads and writes of the store: the entries of its command's keys. -/

namespace Rediska.Proofs
open Go Core Hll Storage Commands Logic

/-- Two runs from `s` and `s'` that have looked at nothing but the keys in `named`. -/
structure Twins (named : Bytes → Prop) (s s' t t' : Store) : Prop where
  policy : t'.policy = t.policy
  tick : t'.tick = t.tick
  agree : ∀ key, named key → t'.data.lookup key = t.data.lookup key
  frame : ∀ key, ¬ named key → t.data.lookup key = s.data.lookup key
  frame' : ∀ key, ¬ named key → t'.data.lookup key = s'.data.lookup key

variable {env : Env} {named : Bytes → Prop} {s s' t t' : Store} {key : Bytes}

/-- Both runs write the same to one key. -/
theorem Twins.write (twins : Twins named s s' t t') (inside : named key) {u u' : Store} {o : Option Entry}
    (policy : u.policy = t.policy) (policy' : u'.policy = t'.policy) (tick : u'.tick = u.tick)
    (cell : ∀ j, u.data.lookup j = if j = key then o else t.data.lookup j)
    (cell' : ∀ j, u'.data.lookup j = if j = key then o else t'.data.lookup j) : Twins named s s' u u' := by
  have apart (j : Bytes) (outside : ¬ named j) : j ≠ key := fun same => outside (same ▸ inside)
  refine ⟨policy'.trans (twins.policy.trans policy.symm), tick, ?_, ?_, ?_⟩
  · intro j here
    rw [cell, cell', twins.agree j here]
  · intro j outside
    rw [cell, if_neg (apart j outside), twins.frame j outside]
  · intro j outside
    rw [cell', if_neg (apart j outside), twins.frame' j outside]

theorem Twins.unwritten (twins : Twins named s s' t t') {u u' : Store} (policy : u.policy = t.policy) (policy' : u'.policy = t'.policy)
    (tick : u'.tick = u.tick) (data : u.data = t.data) (data' : u'.data = t'.data) : Twins named s s' u u' := by
  refine ⟨policy'.trans (twins.policy.trans policy.symm), tick, ?_, ?_, ?_⟩
  · intro j here
    rw [data, data', twins.agree j here]
  · intro j outside
    rw [data, twins.frame j outside]
  · intro j outside
    rw [data', twins.frame' j outside]

/-- What the store counts for itself is no entry. -/
theorem Twins.charged (twins : Twins named s s' t t') (used used' : Int) :
    Twins named s s' { t with usedMemory := used } { t' with usedMemory := used' } :=
  twins.unwritten rfl rfl twins.tick rfl rfl

theorem Twins.insert (twins : Twins named s s' t t') (inside : named key) {u u' : Store} {e : Entry}
    (policy : u.policy = t.policy) (policy' : u'.policy = t'.policy) (tick : u'.tick = u.tick)
    (data : u.data = t.data.insert key e) (data' : u'.data = t'.data.insert key e) : Twins named s s' u u' := by
  refine twins.write (o := some e) inside policy policy' tick ?_ ?_
  · intro j
    rw [data, lookup_insert_if]
  · intro j
    rw [data', lookup_insert_if]

theorem Twins.isLFU (twins : Twins named s s' t t') : t'.isLFU = t.isLFU := by
  unfold Store.isLFU
  rw [twins.policy]

theorem Twins.now (env : Env) (twins : Twins named s s' t t') :
    (t'.now env).1 = (t.now env).1 ∧ Twins named s s' (t.now env).2 (t'.now env).2 :=
  ⟨congrArg env.clock twins.tick, twins.unwritten rfl rfl (congrArg (· + 1) twins.tick) rfl rfl⟩

theorem Twins.isExpired (env : Env) (twins : Twins named s s' t t') (e : Entry) :
    (t'.isExpired env e).1 = (t.isExpired env e).1 ∧ Twins named s s' (t.isExpired env e).2 (t'.isExpired env e).2 := by
  unfold Store.isExpired
  split
  · exact ⟨rfl, twins⟩
  next deadline _ =>
    obtain ⟨reading, twins'⟩ := twins.now env
    exact ⟨congrArg (fun now => decide (deadline ≤ now)) reading, twins'⟩

theorem Twins.removeKey (twins : Twins named s s' t t') (inside : named key) :
    Twins named s s' (t.removeKey key) (t'.removeKey key) := by
  refine twins.write (o := none) inside (removeKey_policy t key) (removeKey_policy t' key) ?_ (lookup_removeKey t key) (lookup_removeKey t' key)
  rw [removeKey_tick, removeKey_tick, twins.tick]

theorem Twins.stampNew (env : Env) (twins : Twins named s s' t t') :
    (t'.stampNew env).1 = (t.stampNew env).1 ∧ Twins named s s' (t.stampNew env).2 (t'.stampNew env).2 := by
  simp only [Store.stampNew, Store.now, twins.tick, twins.isLFU]
  exact ⟨trivial, twins.unwritten rfl rfl rfl rfl rfl⟩

theorem Twins.stampAccess (env : Env) (twins : Twins named s s' t t') (current : UInt32) :
    Together True (Twins named s s') (t.stampAccess env current) (t'.stampAccess env current) := by
  simp only [Store.stampAccess, Store.now, twins.isLFU, twins.tick]
  split
  · refine .after trivial fun stamp => .ok ?_
    exact twins.unwritten rfl rfl rfl rfl rfl
  · exact .ok (twins.unwritten rfl rfl rfl rfl rfl)

theorem Twins.deadline (env : Env) (twins : Twins named s s' t t') (ttl : Int) :
    (t'.deadline env ttl).1 = (t.deadline env ttl).1 ∧ Twins named s s' (t.deadline env ttl).2 (t'.deadline env ttl).2 := by
  unfold Store.deadline
  split
  · obtain ⟨reading, twins'⟩ := twins.now env
    exact ⟨congrArg (fun now => some (now + ttl)) reading, twins'⟩
  · exact ⟨rfl, twins⟩

theorem Twins.dropOld (twins : Twins named s s' t t') (key : Bytes) : Twins named s s' (t.dropOld key) (t'.dropOld key) := by
  obtain ⟨data, policy, tick⟩ := dropOld_data t key
  obtain ⟨data', policy', tick'⟩ := dropOld_data t' key
  exact twins.unwritten policy policy' (tick'.trans (twins.tick.trans tick.symm)) data data'

theorem Twins.record (twins : Twins named s s' t t') (inside : named key) (e : Entry) :
    Twins named s s' (t.record key e) (t'.record key e) :=
  twins.insert inside rfl rfl twins.tick rfl rfl

/-- Touching an entry, and what comes after it. -/
theorem Twins.touch {β : Type} (env : Env) (twins : Twins named s s' t t') (inside : named key) (e : Entry)
    {next : Store → Panics (β × Store)}
    (rest : ∀ u u', Twins named s s' u u' → Together True (Twins named s s') (next u) (next u')) :
    Together True (Twins named s s') (t.touch env key e >>= next) (t'.touch env key e >>= next) := by
  rcases (twins.stampAccess env e.lru).outcomes with ⟨_, p, ran, ran'⟩ | ⟨stamp, u, u', ran, ran', twins'⟩
  · rw [Store.touch, Store.touch, ran, ran']
    exact .error trivial
  · rw [Store.touch, Store.touch, ran, ran']
    exact rest _ _ (twins'.insert inside rfl rfl twins'.tick rfl rfl)

theorem Twins.peek {α : Type} (env : Env) (twins : Twins named s s' t t') (inside : named key) (absent : α) (seen : Entry → α) :
    (peek env t' key absent seen).1 = (peek env t key absent seen).1 ∧
      Twins named s s' (peek env t key absent seen).2 (peek env t' key absent seen).2 := by
  unfold Proofs.peek
  rw [twins.agree key inside]
  split
  · exact ⟨rfl, twins⟩
  next e _ =>
    obtain ⟨expired, twins'⟩ := twins.isExpired env e
    rw [expired]
    split
    · exact ⟨rfl, twins'.removeKey inside⟩
    · exact ⟨rfl, twins'⟩

theorem Twins.readKey {α : Type} (env : Env) (twins : Twins named s s' t t') (inside : named key) (absent : α) (seen : Entry → Panics α) :
    Together True (Twins named s s') (readKey env t key absent seen) (readKey env t' key absent seen) := by
  unfold Proofs.readKey
  rw [twins.agree key inside]
  split
  · exact .ok twins
  next e _ =>
    obtain ⟨expired, twins'⟩ := twins.isExpired env e
    rw [expired]
    split
    · exact .ok (twins'.removeKey inside)
    · refine twins'.touch env inside e fun u u' last => ?_
      cases seen e with
      | ok a => exact .ok last
      | error p => exact .error trivial

theorem Twins.get (env : Env) (twins : Twins named s s' t t') (inside : named key) :
    Together True (Twins named s s') (t.get env key) (t'.get env key) := by
  rw [get_eq, get_eq]
  exact twins.readKey env inside none entryText

theorem Twins.getInt (env : Env) (twins : Twins named s s' t t') (inside : named key) :
    Together True (Twins named s s') (t.getInt env key) (t'.getInt env key) := by
  rw [getInt_eq, getInt_eq]
  exact twins.readKey env inside _ _

theorem Twins.getEncoding (env : Env) (twins : Twins named s s' t t') (inside : named key) :
    (t'.getEncoding env key).1 = (t.getEncoding env key).1 ∧
      Twins named s s' (t.getEncoding env key).2 (t'.getEncoding env key).2 := by
  rw [getEncoding_eq, getEncoding_eq]
  exact twins.peek env inside _ _

theorem Twins.getFreq (env : Env) (twins : Twins named s s' t t') (inside : named key) :
    (t'.getFreq env key).1 = (t.getFreq env key).1 ∧ Twins named s s' (t.getFreq env key).2 (t'.getFreq env key).2 := by
  rw [getFreq_eq, getFreq_eq, twins.isLFU]
  split
  · exact ⟨rfl, twins⟩
  · exact twins.peek env inside _ _

theorem Twins.set (env : Env) (twins : Twins named s s' t t') (inside : named key) (value : Bytes) (ttl : Int) :
    Twins named s s' (t.set env key value ttl) (t'.set env key value ttl) := by
  obtain ⟨expires, twins'⟩ := (twins.dropOld key).deadline env ttl
  obtain ⟨stamp, twins''⟩ := twins'.stampNew env
  unfold Store.set
  dsimp only
  rw [expires, stamp]
  exact twins''.record inside _

theorem Twins.append (env : Env) (twins : Twins named s s' t t') (inside : named key) (value : Bytes) :
    Together True (Twins named s s') (t.append env key value) (t'.append env key value) := by
  unfold Store.append
  rw [twins.agree key inside]
  split
  · exact .ok (twins.set env inside value 0)
  next e _ =>
    dsimp only
    split
    · exact .error trivial
    · refine ((twins.charged _ _).stampAccess env e.lru).bind fun stamp u u' last => ?_
      exact .ok (last.record inside _)

theorem Twins.ttl (env : Env) (twins : Twins named s s' t t') (inside : named key) :
    (t'.ttl env key).1 = (t.ttl env key).1 ∧ Twins named s s' (t.ttl env key).2 (t'.ttl env key).2 := by
  unfold Store.ttl
  rw [twins.agree key inside]
  split
  · exact ⟨rfl, twins⟩
  · split
    · exact ⟨rfl, twins⟩
    next expiresAt _ =>
      obtain ⟨reading, twins'⟩ := twins.now env
      dsimp only
      rw [reading]
      split
      · exact ⟨rfl, twins'.removeKey inside⟩
      · exact ⟨rfl, twins'⟩

theorem Twins.pfAdd (env : Env) (twins : Twins named s s' t t') (inside : named key) (values : List Bytes) :
    Together True (Twins named s s') (t.pfAdd env key values) (t'.pfAdd env key values) := by
  unfold Store.pfAdd
  extract_lets create
  have creates (u u' : Store) (twins : Twins named s s' u u') : Together True (Twins named s s') (create u) (create u') := by
    obtain ⟨stamp, twins'⟩ := twins.stampNew env
    simp only [create, stamp]
    refine .after trivial fun added => .ok ?_
    exact twins'.insert inside rfl rfl twins'.tick rfl rfl
  rw [twins.agree key inside]
  split
  · exact creates t t' twins
  next e _ =>
    obtain ⟨expired, twins'⟩ := twins.isExpired env e
    dsimp only
    rw [expired]
    split
    · exact creates _ _ (twins'.removeKey inside)
    · split
      · exact .ok twins'
      · refine ((twins'.charged _ _).stampAccess env e.lru).bind fun stamp u u' last => .after trivial fun added => .ok ?_
        exact last.record inside _

theorem Twins.pfCount (env : Env) (twins : Twins named s s' t t') (inside : named key) :
    Together True (Twins named s s') (t.pfCount env key) (t'.pfCount env key) := by
  unfold Store.pfCount
  rw [twins.agree key inside]
  split
  · exact .ok twins
  next e _ =>
    split
    · exact .ok twins
    · split
      · exact .error trivial
      · refine .after trivial fun counted => .ok ?_
        exact twins.insert inside rfl rfl twins.tick rfl rfl

theorem Twins.mergeKey (twins : Twins named s s' t t') (inside : named key) (acc : HLL) : t'.mergeKey key acc = t.mergeKey key acc := by
  unfold Store.mergeKey
  rw [twins.agree key inside]

theorem Twins.pfMerge (env : Env) (twins : Twins named s s' t t') {dest : Bytes} {sources : List Bytes}
    (inside : ∀ key ∈ dest :: sources, named key) {β : Type} {next : Store → Panics (β × Store)}
    (rest : ∀ u u', Twins named s s' u u' → Together True (Twins named s s') (next u) (next u')) :
    Together True (Twins named s s') (t.pfMerge env dest sources >>= next) (t'.pfMerge env dest sources >>= next) := by
  have merged : forEach (dest :: sources) t'.mergeKey HLL.new = forEach (dest :: sources) t.mergeKey HLL.new :=
    forEach_congr (fun key among => funext (twins.mergeKey (inside key among))) _
  simp only [Store.pfMerge, merged, bind_assoc]
  refine .after trivial fun acc => ?_
  obtain ⟨stamp, twins'⟩ := (twins.dropOld dest).stampNew env
  rw [stamp]
  exact rest _ _ (twins'.record (inside dest List.mem_cons_self) _)

theorem Twins.deleteOne (env : Env) {state state' : Int × Store} (count : state'.1 = state.1)
    (twins : Twins named s s' state.2 state'.2) (inside : named key) :
    (Store.deleteOne env state' key).1 = (Store.deleteOne env state key).1 ∧
      Twins named s s' (Store.deleteOne env state key).2 (Store.deleteOne env state' key).2 := by
  unfold Store.deleteOne
  rw [twins.agree key inside]
  split
  · exact ⟨count, twins⟩
  next e _ =>
    obtain ⟨expired, twins'⟩ := twins.isExpired env e
    dsimp only
    rw [expired, count]
    exact ⟨rfl, twins'.removeKey inside⟩

section
variable {args : List Bytes}

theorem Twins.handlePFAdd (env : Env) (twins : Twins named s s' t t') (inside : ∀ key rest, args = key :: rest → named key) :
    Together True (Twins named s s') (handlePFAdd env t args) (handlePFAdd env t' args) := by
  unfold Commands.handlePFAdd
  split
  · exact .ok twins
  next key values =>
    refine (twins.pfAdd env (inside key _ rfl) values).bind fun changed u u' last => ?_
    match changed with
    | none | some true | some false => exact .ok last

theorem Twins.handlePFCount (env : Env) (twins : Twins named s s' t t') (inside : ∀ key ∈ args, named key) :
    Together True (Twins named s s') (handlePFCount env t args) (handlePFCount env t' args) := by
  unfold Commands.handlePFCount
  split
  next key =>
    refine (twins.pfCount env (inside key List.mem_cons_self)).bind fun count u u' last => ?_
    exact .ok last
  · exact .ok twins

theorem Twins.handlePFMerge (env : Env) (twins : Twins named s s' t t') (inside : ∀ key ∈ args, named key) :
    Together True (Twins named s s') (handlePFMerge env t args) (handlePFMerge env t' args) := by
  unfold Commands.handlePFMerge
  split
  · exact .ok twins
  next dest sources => exact twins.pfMerge env inside fun u u' last => .ok last

theorem Twins.handleObject (env : Env) (twins : Twins named s s' t t') (inside : ∀ sub key rest, args = sub :: key :: rest → named key) :
    Together True (Twins named s s') (handleObject env t args) (handleObject env t' args) := by
  unfold Commands.handleObject
  split
  next sub key rest =>
    have here := inside sub key rest rfl
    dsimp only
    split
    · obtain ⟨encoding, last⟩ := twins.getEncoding env here
      rw [encoding]
      exact .ok last
    · split
      · obtain ⟨freq, last⟩ := twins.getFreq env here
        rw [freq]
        exact .ok last
      · exact .ok twins
  · exact .ok twins

end

/-- A command with keys, in two stores that agree on them. -/
theorem runHandler_twins (env : Env) (cfg : Config) {cmd : Command} {name : CommandName} (known : lookupCommand cmd.name = some name)
    (keyed : (keySpecs name).first ≠ 0) (twins : Twins (· ∈ keysOf cmd) s s' t t') :
    Together True (Twins (· ∈ keysOf cmd) s s') (runHandler env cfg name t cmd.args) (runHandler env cfg name t' cmd.args) := by
  have first (spec : keySpecs name = ⟨1, 1, 1⟩) (key : Bytes) (rest : List Bytes) (args : cmd.args = key :: rest) : key ∈ keysOf cmd :=
    keysOf_first known spec args
  have all (spec : keySpecs name = ⟨1, -1, 1⟩) (key : Bytes) (among : key ∈ cmd.args) : key ∈ keysOf cmd :=
    keysOf_all known spec ▸ among
  have time : KeepsTime env env (Twins (· ∈ keysOf cmd) s s') := fun u u' twins => twins.now env
  have set (spec : keySpecs name = ⟨1, 1, 1⟩) : KeepsSet env env (Twins (· ∈ keysOf cmd) s s') cmd.args :=
    fun key rest u u' value ttl args twins => twins.set env (first spec key rest args) value ttl
  cases name with
  | get => exact handleGet_together twins fun key rest args => twins.get env (first rfl key rest args)
  | set => exact handleSet_together rfl twins (set rfl)
  | expire => exact handleExpire_together twins (fun key rest args => twins.get env (first rfl key rest args)) (set rfl)
  | ttl => exact handleTTL_together twins fun key rest args => twins.ttl env (first rfl key rest args)
  | incr => exact handleIncr_together twins (fun key args => twins.getInt env (first rfl key [] args)) time (set rfl)
  | append => exact handleAppend_together twins fun key value args => twins.append env (first rfl key [value] args) value
  | pfadd => exact twins.handlePFAdd env (first rfl)
  | pfcount => exact twins.handlePFCount env (all rfl)
  | pfmerge => exact twins.handlePFMerge env (all rfl)
  | del => exact handleDel_together twins fun key among state state' count twins => twins.deleteOne env count (all rfl key among)
  | object => exact twins.handleObject env fun sub key rest args => keysOf_second known rfl args
  | ping | info | debug | cluster | expiry => exact absurd rfl keyed

/-- The key specs name every key a handler reads or writes. -/
theorem keySpecs_cover_handlers (env : Env) (cfg : Config) {cmd : Command} {name : CommandName}
    (known : lookupCommand cmd.name = some name) (keyed : (keySpecs name).first ≠ 0) {s s' : Store} (policy : s'.policy = s.policy)
    (tick : s'.tick = s.tick) (agree : ∀ key ∈ keysOf cmd, s'.data.lookup key = s.data.lookup key) :
    (∃ p, runHandler env cfg name s cmd.args = .error p ∧ runHandler env cfg name s' cmd.args = .error p) ∨
      ∃ reply t t', runHandler env cfg name s cmd.args = .ok (reply, t) ∧ runHandler env cfg name s' cmd.args = .ok (reply, t') ∧
        (∀ key ∈ keysOf cmd, t'.data.lookup key = t.data.lookup key) ∧
        ∀ key, key ∉ keysOf cmd → t.data.lookup key = s.data.lookup key ∧ t'.data.lookup key = s'.data.lookup key := by
  have start : Twins (· ∈ keysOf cmd) s s' s s' := ⟨policy, tick, agree, fun _ _ => rfl, fun _ _ => rfl⟩
  rcases (runHandler_twins env cfg known keyed start).outcomes with ⟨_, panics⟩ | ⟨reply, t, t', ran, ran', twins⟩
  · exact .inl panics
  · exact .inr ⟨reply, t, t', ran, ran', twins.agree, fun key outside => ⟨twins.frame key outside, twins.frame' key outside⟩⟩

/-- Two stores that differ in the key "k". -/
def storeOfK (value : String) : Store := (Store.new .noeviction).set (.still 0) (ascii "k") (ascii value) 0

def appendM : Command := ⟨ascii "APPEND", [ascii "m", ascii "v"]⟩

theorem append_beside_k :
    ∃ reply t t', runHandler (.still 0) .plain .append (storeOfK "1") appendM.args = .ok (reply, t) ∧
      runHandler (.still 0) .plain .append (storeOfK "x") appendM.args = .ok (reply, t') ∧
      t'.data.lookup (ascii "m") = t.data.lookup (ascii "m") ∧
      t.data.lookup (ascii "k") = (storeOfK "1").data.lookup (ascii "k") ∧
      t'.data.lookup (ascii "k") = (storeOfK "x").data.lookup (ascii "k") := by
  have known : lookupCommand appendM.name = some .append := by decide
  have keys : keysOf appendM = [ascii "m"] := by decide
  have absent (value : String) : (storeOfK value).data.lookup (ascii "m") = none :=
    AList.lookup_insert_ne (by decide)
  have agree : ∀ key ∈ keysOf appendM, (storeOfK "x").data.lookup key = (storeOfK "1").data.lookup key := by
    intro key named
    rw [keys, List.mem_singleton] at named
    rw [named, absent, absent]
  have outside : ascii "k" ∉ keysOf appendM := by decide
  have policy (value : String) : (storeOfK value).policy = .noeviction := rfl
  have tick (value : String) : (storeOfK value).tick = 1 := rfl
  rcases keySpecs_cover_handlers (.still 0) .plain known (by decide) ((policy "x").trans (policy "1").symm)
      ((tick "x").trans (tick "1").symm) agree with ⟨p, panics, _⟩ | ⟨reply, t, t', ran, ran', same, frame⟩
  · rw [runHandler, appendM, handleAppend, Store.append, absent] at panics
    cases panics
  · exact ⟨reply, t, t', ran, ran', same _ (keys ▸ List.mem_singleton_self _), frame _ outside⟩

end Rediska.Proofs
