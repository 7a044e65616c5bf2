import Rediska.Proofs.CommandRefinement
import Rediska.Spec.Expiry

/-! Whether a dead entry is still in the store shows in three commands only. -/

namespace Rediska.Proofs
open Go Core Hll Storage Commands Spec

variable {env : Env} {cfg : Config} {policy : Policy} {s : Store} {K : Keyspace} {now : Int}

theorem Holds.unique {h : HLL} {table table' : Table} (holds : Holds h table) (holds' : Holds h table') : table = table' := by
  funext i
  obtain ⟨value, read, same⟩ := holds.read i
  obtain ⟨value', read', same'⟩ := holds'.read i
  rw [read] at read'
  cases read'
  rw [← same, ← same']

theorem Shows.unique {e : Entry} {item item' : Item} (shows : Shows env e item) (shows' : Shows env e item') : item = item' := by
  cases shows with
  | int tag =>
    cases shows' with
    | int => rfl
    | embstr tag' | raw tag' | sketch tag' => rw [tag] at tag'; cases tag'
  | embstr tag value =>
    cases shows' with
    | embstr _ value' => rw [value] at value'; cases value'; rfl
    | int tag' | raw tag' | sketch tag' => rw [tag] at tag'; cases tag'
  | raw tag value =>
    cases shows' with
    | raw _ value' => rw [value] at value'; cases value'; rfl
    | int tag' | embstr tag' | sketch tag' => rw [tag] at tag'; cases tag'
  | sketch tag value _ holds =>
    cases shows' with
    | sketch _ value' _ holds' =>
      rw [value] at value'
      cases value'
      rw [holds.unique holds']
    | int tag' | embstr tag' | raw tag' => rw [tag] at tag'; cases tag'

theorem Represents.unique {policy' : Policy} {K' : Keyspace} (same : Represents env policy s K)
    (same' : Represents env policy' s K') : K = K' := by
  funext key
  rcases same.at key with ⟨absent, nothing⟩ | ⟨e, item, held, found, shows⟩
  · rcases same'.at key with ⟨_, nothing'⟩ | ⟨_, _, held', _⟩
    · rw [nothing, nothing']
    · rw [absent] at held'
      cases held'
  · obtain ⟨item', found', shows'⟩ := same'.item held
    rw [found, found', shows.unique shows']

def expiredAt (now : Int) (e : Entry) : Bool :=
  match e.expiresAt with
  | none => false
  | some deadline => deadline ≤ now

theorem isExpired_expiredAt (env : Env) (s : Store) (e : Entry) : (s.isExpired env e).1 = expiredAt (env.clock s.tick) e := by
  unfold Store.isExpired expiredAt
  cases e.expiresAt <;> rfl

def purgeKey (now : Int) (s : Store) (key : Bytes) : Store :=
  match s.data.lookup key with
  | none => s
  | some e => if expiredAt now e then s.removeKey key else s

/-- The store with every entry removed that is expired at a time. -/
def purge (now : Int) (s : Store) : Store := s.data.keys.foldl (purgeKey now) s

theorem purgeKey_lookup (now : Int) (s : Store) (key j : Bytes) :
    (purgeKey now s key).data.lookup j =
      if j = key then (s.data.lookup j).filter (fun e => ! expiredAt now e) else s.data.lookup j := by
  unfold purgeKey
  by_cases here : j = key
  · subst here
    rw [if_pos rfl]
    cases held : s.data.lookup j with
    | none => exact held
    | some e =>
      cases expired : expiredAt now e with
      | true => simp only [expired, if_true, lookup_removeKey, Option.filter_some, Bool.not_true, Bool.false_eq_true, if_false]
      | false => simp only [expired, held, Option.filter_some, Bool.not_false, Bool.false_eq_true, if_false, if_true]
  · rw [if_neg here]
    cases s.data.lookup key with
    | none => rfl
    | some e =>
      dsimp only
      split
      · rw [lookup_removeKey, if_neg here]
      · rfl

theorem purgeKey_policy (now : Int) (s : Store) (key : Bytes) : (purgeKey now s key).policy = s.policy := by
  unfold purgeKey
  split
  · rfl
  · split
    · exact removeKey_policy s key
    · rfl

theorem purge_policy (now : Int) (s : Store) : (purge now s).policy = s.policy :=
  List.foldlRecOn (motive := fun state => state.policy = s.policy) s.data.keys (purgeKey now) rfl
    fun state kept key _ => (purgeKey_policy now state key).trans kept

theorem purge_lookup (now : Int) (s : Store) (j : Bytes) :
    (purge now s).data.lookup j = (s.data.lookup j).filter (fun e => ! expiredAt now e) := by
  have fold (keys : List Bytes) (s : Store) : (keys.foldl (purgeKey now) s).data.lookup j =
      if j ∈ keys then (s.data.lookup j).filter (fun e => ! expiredAt now e) else s.data.lookup j := by
    induction keys generalizing s with
    | nil => rfl
    | cons key rest ih =>
      rw [List.foldl_cons, ih, purgeKey_lookup]
      by_cases here : j = key
      · simp [here, Option.filter_filter]
      · simp [here]
  rw [purge, fold]
  split
  · rfl
  next absent =>
    rw [AList.lookup_eq_none.mpr absent]
    rfl

theorem Shows.expiredAt {e : Entry} {item : Item} (shows : Shows env e item) : expiredAt now e = item.dead now := by
  rw [Proofs.expiredAt, shows.expiresAt]
  cases item with
  | mk content deadline => cases deadline <;> rfl

theorem Represents.purge (same : Represents env policy s K) (now : Int) :
    Represents env policy (Proofs.purge now s) (K.live now) := by
  refine ⟨(purge_policy now s).trans same.policy, ?_⟩
  intro key
  rw [purge_lookup]
  rcases same.at key with ⟨absent, nothing⟩ | ⟨e, item, held, found, shows⟩
  · rw [absent, Keyspace.live_of_none nothing]
    exact .none
  · cases dead : item.dead now with
    | true =>
      rw [held, Keyspace.live_of_dead found dead, Option.filter_some, shows.expiredAt, dead]
      exact .none
    | false =>
      rw [held, Keyspace.live_of_alive found dead, Option.filter_some, shows.expiredAt, dead]
      exact .some shows

/-- Results a client cannot tell apart: the same reply, and stores with the same live
contents, or the same panic. -/
inductive SameVisible (env : Env) (now : Int) : Panics (Bytes × World) → Panics (Bytes × World) → Prop
  | ok {reply : Bytes} {w w' : World} {K K' : Keyspace} (left : Represents env w.store.policy w.store K)
      (right : Represents env w'.store.policy w'.store K') (same : K.live now = K'.live now) :
      SameVisible env now (.ok (reply, w)) (.ok (reply, w'))
  | error {p : Panic} : SameVisible env now (.error p) (.error p)

theorem sameVisible_ok {reply reply' : Bytes} {w w' : World} {K K' : Keyspace} (left : Represents env policy w.store K)
    (right : Represents env policy w'.store K') :
    SameVisible env now (.ok (reply, w)) (.ok (reply', w')) ↔ Agree now (.ok (reply, K)) (.ok (reply', K')) := by
  constructor
  · intro visible
    generalize first : Except.ok (reply, w) = result at visible
    generalize second : Except.ok (reply', w') = result' at visible
    cases visible with
    | ok found found' live =>
      obtain ⟨rfl, rfl⟩ := Prod.mk.inj (Except.ok.inj first)
      obtain ⟨rfl, rfl⟩ := Prod.mk.inj (Except.ok.inj second)
      rw [left.unique found, right.unique found']
      exact .ok live
    | error => cases first
  · intro agree
    obtain ⟨rfl, live⟩ := agree.of_ok
    exact .ok (left.policy ▸ left) (right.policy ▸ right) live

theorem SameVisible.replies_ne {left right : Panics (Bytes × World)} {reply reply' : Bytes} {w w' : World}
    (different : reply ≠ reply') (ran : left = .ok (reply, w)) (ran' : right = .ok (reply', w')) : ¬ SameVisible env now left right := by
  subst ran
  subst ran'
  intro visible
  cases visible
  exact different rfl

theorem Represents.logged (same : Represents env policy s K) (w : World) (name : CommandName) (cmd : Command) (reply : Bytes) :
    Represents env policy (appendAOF { w with store := s } name cmd reply).store K := by
  rw [appendAOF_store]
  exact same

/-- What the handler returns and what Dispatch makes of it are visible alike. -/
theorem sameVisible_iff {result result' : Panics (Bytes × Store)} {spec spec' : Panics (Bytes × Keyspace)}
    (refines : Refines env policy result spec) (refines' : Refines env policy result' spec') (w w' : World) (name : CommandName)
    (cmd : Command) :
    SameVisible env now (result >>= fun r => .ok (r.1, appendAOF { w with store := r.2 } name cmd r.1))
      (result' >>= fun r => .ok (r.1, appendAOF { w' with store := r.2 } name cmd r.1)) ↔ Agree now spec spec' := by
  cases refines with
  | error =>
    cases refines' with
    | error =>
      constructor
      · intro visible
        cases visible
        exact .error
      · intro agree
        cases agree
        exact .error
    | ok => exact iff_of_false nofun nofun
  | ok same =>
    cases refines' with
    | error => exact iff_of_false nofun nofun
    | ok same' => exact sameVisible_ok (same.logged w name cmd _) (same'.logged w' name cmd _)

/-- Reading a stamp does not see dead entries. -/
theorem getFreq_purge (still : ∀ i, env.clock i = now) (s : Store) (key : Bytes) :
    ((purge now s).getFreq env key).1 = (s.getFreq env key).1 := by
  have policies : (purge now s).isLFU = s.isLFU := by rw [Store.isLFU, Store.isLFU, purge_policy]
  have expired (s : Store) (e : Entry) : (s.isExpired env e).1 = expiredAt now e := by
    rw [isExpired_expiredAt, still]
  unfold Store.getFreq
  rw [policies]
  split
  · rfl
  · rw [purge_lookup]
    cases s.data.lookup key with
    | none => rfl
    | some e =>
      cases dead : expiredAt now e with
      | true => simp only [Option.filter_some, dead, Bool.not_true, Bool.false_eq_true, if_false, expired, if_true]
      | false =>
        simp only [Option.filter_some, dead, Bool.not_false, if_true, expired, Bool.false_eq_true, if_false]

/-- The command is let through by the cluster check and its request shows a dead entry. -/
def Exposed (env : Env) (cfg : Config) (now : Int) (K : Keyspace) (cmd : Command) : Prop :=
  checkCluster cfg cmd = none ∧
    ∃ name request, lookupCommand cmd.name = some name ∧ requestOf env name cmd.args = some request ∧
      request.exposed env.estimate now K

theorem exposed_request {cmd : Command} {name : CommandName} {request : Request} (passed : checkCluster cfg cmd = none)
    (known : lookupCommand cmd.name = some name) (asked : requestOf env name cmd.args = some request) :
    Exposed env cfg now K cmd ↔ request.exposed env.estimate now K := by
  constructor
  · intro exposed
    obtain ⟨_, name', request', known', asked', shown⟩ := exposed
    cases known.symm.trans known'
    cases asked.symm.trans asked'
    exact shown
  · intro shown
    exact ⟨passed, name, request, known, asked, shown⟩

/-- What is refused for its arguments is refused alike. -/
theorem rejected_sameVisible (w : World) (cmd : Command) {name : CommandName} (still : ∀ i, env.clock i = now)
    (same : Represents env policy w.store K) (data : isData name = true) (asked : requestOf env name cmd.args = none) :
    SameVisible env now
      (runHandler env cfg name w.store cmd.args >>= fun r => .ok (r.1, appendAOF { w with store := r.2 } name cmd r.1))
      (runHandler env cfg name (purge now w.store) cmd.args >>= fun r => .ok (r.1, appendAOF { w with store := r.2 } name cmd r.1)) := by
  have purged := same.purge now
  rcases handler_rejects cfg data asked with ⟨reply, _, ran⟩ | ⟨sub, key, rest, rfl, args, freq⟩
  · rw [ran, ran, ok_bind, ok_bind]
    exact (sameVisible_ok (same.logged w name cmd reply) (purged.logged w name cmd reply)).mpr (.ok (Keyspace.live_live K).symm)
  · obtain ⟨left, kept, shrunk⟩ := getFreq_shrinks same key
    obtain ⟨left', kept', shrunk'⟩ := getFreq_shrinks purged key
    rw [args, object_freq freq, object_freq freq, getFreq_purge still, ok_bind, ok_bind]
    refine (sameVisible_ok (kept.logged w _ cmd _) (kept'.logged w _ cmd _)).mpr (.ok ?_)
    rw [still] at shrunk shrunk'
    rw [shrunk.live, shrunk'.live, Keyspace.live_live]

/-- A data command executed at a time without a memory limit is visibly the same on a
store and on what is left of it when every entry expired by then is removed, unless it
appends to such an entry, counts one as more than zero, or merges one with a register
above those of the live sketches it names. -/
theorem expired_entries_invisible (w : World) (cmd : Command) {name : CommandName} (still : ∀ i, env.clock i = now)
    (unlimited : cfg.maxMemory ≤ 0) (same : Represents env policy w.store K) (known : lookupCommand cmd.name = some name)
    (data : isData name = true) :
    SameVisible env now (dispatch env cfg w cmd) (dispatch env cfg { w with store := purge now w.store } cmd) ↔
      ¬ Exposed env cfg now K cmd := by
  have purged := same.purge now
  cases passed : checkCluster cfg cmd with
  | some refusal =>
    simp only [dispatch, known, passed]
    refine iff_of_true ((sameVisible_ok same purged).mpr (.ok (Keyspace.live_live K).symm)) ?_
    intro exposed
    cases passed.symm.trans exposed.1
  | none =>
    rw [dispatch_unlimited unlimited known passed, dispatch_unlimited unlimited known passed]
    cases asked : requestOf env name cmd.args with
    | some request =>
      have clocks {clock : Nat → Int} (read : Readings env clock) : clock = fun _ => now := by
        funext i
        obtain ⟨j, reading⟩ := read i
        rw [reading, still]
      obtain ⟨clock, read, refines⟩ := handler_refines cfg same asked
      obtain ⟨clock', read', refines'⟩ := handler_refines cfg purged asked
      rw [clocks read.1] at refines
      rw [clocks read'.1] at refines'
      rw [sameVisible_iff refines refines', exposed_request passed known asked]
      constructor
      · intro agree shown
        exact Request.run_differs env.estimate_lt shown agree
      · intro hidden
        exact Request.run_agrees env.estimate_lt (Keyspace.live_live K).symm hidden (Request.live_hidden _ now K request)
    | none =>
      refine iff_of_true (rejected_sameVisible w cmd still same data asked) ?_
      intro exposed
      obtain ⟨_, name', request, known', asked', _⟩ := exposed
      cases known.symm.trans known'
      cases asked.symm.trans asked'

/-- A store whose only key expired at time 5. -/
def staleStore : Store := (Store.new .noeviction).record (ascii "k") ⟨.embstr, 0, some (.new (ascii "a")), none, some 5, 0⟩

theorem staleStore_represents :
    Represents (Env.still 10) .noeviction staleStore (Keyspace.put (fun _ => none) (ascii "k") ⟨.embstr (ascii "a"), some 5⟩) :=
  (Represents.new (Env.still 10) .noeviction).insert rfl rfl
    (.embstr (e := ⟨.embstr, 0, some (.new (ascii "a")), none, some 5, 0⟩) rfl rfl)

theorem expired_entry_invisible_to_get :
    SameVisible (Env.still 10) 10 (dispatch (Env.still 10) .plain ⟨staleStore, none⟩ ⟨ascii "GET", [ascii "k"]⟩)
      (dispatch (Env.still 10) .plain ⟨purge 10 staleStore, none⟩ ⟨ascii "GET", [ascii "k"]⟩) := by
  have known : lookupCommand (ascii "GET") = some .get := by decide
  have unlimited : Config.plain.maxMemory ≤ 0 := Int.le_refl 0
  refine (expired_entries_invisible ⟨staleStore, none⟩ ⟨ascii "GET", [ascii "k"]⟩ (fun _ => rfl) unlimited
    staleStore_represents known rfl).mpr ?_
  rintro ⟨_, name, request, found, asked, shown⟩
  rw [known] at found
  cases found
  cases asked
  exact shown

theorem append_shows_expired_entry :
    ¬ ∀ (env : Env) (cfg : Config) (policy : Policy) (w : World) (K : Keyspace) (now : Int) (cmd : Command) (name : CommandName),
      (∀ i, env.clock i = now) → cfg.maxMemory ≤ 0 → Represents env policy w.store K → lookupCommand cmd.name = some name →
      isData name = true →
      SameVisible env now (dispatch env cfg w cmd) (dispatch env cfg { w with store := purge now w.store } cmd) := by
  intro claim
  have visible := claim (Env.still 10) .plain .noeviction ⟨staleStore, none⟩ _ 10 ⟨ascii "APPEND", [ascii "k", ascii "b"]⟩ .append
    (fun _ => rfl) (Int.le_refl 0) staleStore_represents (by decide) rfl
  have grown : ∃ w, dispatch (Env.still 10) .plain ⟨staleStore, none⟩ ⟨ascii "APPEND", [ascii "k", ascii "b"]⟩ =
      .ok (encodeInteger 2, w) := ⟨_, rfl⟩
  have fresh : ∃ w, dispatch (Env.still 10) .plain ⟨purge 10 staleStore, none⟩ ⟨ascii "APPEND", [ascii "k", ascii "b"]⟩ =
      .ok (encodeInteger 1, w) := ⟨_, rfl⟩
  obtain ⟨w, ran⟩ := grown
  obtain ⟨w', ran'⟩ := fresh
  exact SameVisible.replies_ne (by decide) ran ran' visible

end Rediska.Proofs
