import Rediska.Spec.Machine

/-! A keyspace in shards: a request that stays within one shard does to the whole what it
does to the shard. -/

namespace Rediska.Spec
open Go Core Storage Commands Server

variable (owns : Bytes → Prop) [DecidablePred owns]

/-- The whole, with this for the shard of the keys that are owned. -/
def Keyspace.beside (K whole : Keyspace) : Keyspace := fun key => if owns key then K key else whole key

variable {owns} {rules : Rules} {now : Int} {K whole : Keyspace} {key : Bytes}

namespace Keyspace

theorem beside_owned (owned : owns key) : K.beside owns whole key = K key := if_pos owned

theorem beside_put (owned : owns key) (item : Item) : (K.put key item).beside owns whole = (K.beside owns whole).put key item := by
  funext j
  by_cases same : j = key
  · subst same
    rw [beside_owned owned, put_self, put_self]
  · simp only [beside, put_apply, if_neg same]

theorem beside_drop (owned : owns key) : (K.drop key).beside owns whole = (K.beside owns whole).drop key := by
  funext j
  by_cases same : j = key
  · subst same
    rw [beside_owned owned, drop_apply, drop_apply, if_pos rfl, if_pos rfl]
  · simp only [beside, drop_apply, if_neg same]

/-- The same result, and the same effect on the shard. -/
def lift {α : Type} (owns : Bytes → Prop) [DecidablePred owns] (whole : Keyspace) (result : Panics (α × Keyspace)) : Panics (α × Keyspace) :=
  result.map fun r => (r.1, r.2.beside owns whole)

theorem lift_bind {α β : Type} {first : Panics (α × Keyspace)} {next next' : α × Keyspace → Panics (β × Keyspace)}
    (same : ∀ a K, next' (a, K.beside owns whole) = lift owns whole (next (a, K))) :
    lift owns whole first >>= next' = lift owns whole (first >>= next) := by
  cases first with
  | error p => rfl
  | ok result => exact same result.1 result.2

theorem find_beside (owned : owns key) :
    (K.beside owns whole).find now key = ((K.find now key).1, (K.find now key).2.beside owns whole) := by
  unfold find
  rw [beside_owned owned]
  cases K key with
  | none => rfl
  | some item =>
    cases dead : item.dead now with
    | true => simp only [dead, if_true, beside_drop owned]
    | false => simp [dead]

theorem get_beside (owned : owns key) : (K.beside owns whole).get rules now key = lift owns whole (K.get rules now key) := by
  unfold get
  rw [find_beside owned]
  rcases K.find now key with ⟨found, left⟩
  cases found with
  | none => rfl
  | some item => cases touch rules <;> rfl

theorem getInt_beside (owned : owns key) : (K.beside owns whole).getInt rules now key = lift owns whole (K.getInt rules now key) := by
  unfold getInt
  rw [find_beside owned]
  rcases K.find now key with ⟨found, left⟩
  cases found with
  | none => rfl
  | some item =>
    cases touch rules with
    | error p => rfl
    | ok =>
      cases item with
      | mk content deadline => cases content <;> rfl

theorem getEncoding_beside (owned : owns key) :
    (K.beside owns whole).getEncoding now key = ((K.getEncoding now key).1, (K.getEncoding now key).2.beside owns whole) := by
  unfold getEncoding
  rw [find_beside owned]

theorem ttl_beside (owned : owns key) :
    (K.beside owns whole).ttl now key = ((K.ttl now key).1, (K.ttl now key).2.beside owns whole) := by
  unfold ttl
  rw [beside_owned owned]
  cases K key with
  | none => rfl
  | some item =>
    cases item with
    | mk content deadline =>
      cases deadline with
      | none => rfl
      | some deadline =>
        dsimp only
        split
        · rw [beside_drop owned]
        · rfl

theorem set_beside (owned : owns key) (value : Bytes) (duration : Int) :
    (K.beside owns whole).set now key value duration = (K.set now key value duration).beside owns whole :=
  (beside_put owned _).symm

theorem append_beside (owned : owns key) (value : Bytes) :
    (K.beside owns whole).append rules key value = lift owns whole (K.append rules key value) := by
  unfold append
  rw [beside_owned owned]
  cases K key with
  | none =>
    dsimp only
    rw [← beside_put owned]
    rfl
  | some item =>
    dsimp only
    cases item.content.text with
    | none => rfl
    | some text =>
      dsimp only
      cases touch rules with
      | error p => rfl
      | ok =>
        rw [← beside_put owned]
        rfl

theorem pfAdd_beside (owned : owns key) (values : List Bytes) :
    (K.beside owns whole).pfAdd rules now key values = lift owns whole (K.pfAdd rules now key values) := by
  unfold pfAdd
  rw [find_beside owned]
  rcases K.find now key with ⟨found, left⟩
  cases found with
  | none =>
    dsimp only
    rw [← beside_put owned]
    rfl
  | some item =>
    cases item with
    | mk content deadline =>
      cases content with
      | int | embstr | raw => rfl
      | sketch table =>
        cases touch rules with
        | error p => rfl
        | ok =>
          dsimp only
          rw [← beside_put owned]
          rfl

theorem pfCount_beside (owned : owns key) : (K.beside owns whole).pfCount rules key = K.pfCount rules key := by
  unfold pfCount
  rw [beside_owned owned]

theorem union_beside {keys : List Bytes} (owned : ∀ key ∈ keys, owns key) : (K.beside owns whole).union keys = K.union keys := by
  apply List.foldl_ext
  intro table key listed
  rw [tableAt, tableAt, beside_owned (owned key listed)]

theorem delete_beside {clock : Nat → Int} {keys : List Bytes} (owned : ∀ key ∈ keys, owns key) (i : Nat) (removed : Int) :
    delete clock i removed (K.beside owns whole) keys =
      ((delete clock i removed K keys).1, (delete clock i removed K keys).2.beside owns whole) := by
  induction keys generalizing i removed K with
  | nil => rfl
  | cons key rest ih =>
    have here := owned key List.mem_cons_self
    have one : (K.beside owns whole).deleteOne (clock i) removed key =
        ((K.deleteOne (clock i) removed key).1, (K.deleteOne (clock i) removed key).2.beside owns whole) := by
      unfold deleteOne
      rw [beside_owned here]
      cases K key with
      | none => rfl
      | some item =>
        dsimp only
        rw [beside_drop here]
    simp only [delete, one]
    exact ih (fun key listed => owned key (List.mem_cons_of_mem _ listed)) (i + 1) _

end Keyspace

/-- A request for owned keys, run on the whole. -/
theorem Request.run_beside {clock : Nat → Int} {request : Request} (owned : ∀ key ∈ Request.keys request, owns key) :
    request.run rules clock (K.beside owns whole) = Keyspace.lift owns whole (request.run rules clock K) := by
  cases request with
  | get key =>
    have here := owned key List.mem_cons_self
    simp only [Request.run, Keyspace.get_beside here]
    exact Keyspace.lift_bind fun _ _ => rfl
  | set key value duration =>
    have here := owned key List.mem_cons_self
    simp only [Request.run, Keyspace.set_beside here]
    rfl
  | expire key duration =>
    have here := owned key List.mem_cons_self
    simp only [Request.run, Keyspace.get_beside here]
    refine Keyspace.lift_bind ?_
    intro value K
    cases value with
    | none => rfl
    | some value =>
      dsimp only
      rw [Keyspace.set_beside here]
      rfl
  | ttl key =>
    have here := owned key List.mem_cons_self
    simp only [Request.run, Keyspace.ttl_beside here]
    rfl
  | incr key =>
    have here := owned key List.mem_cons_self
    simp only [Request.run, Keyspace.getInt_beside here]
    refine Keyspace.lift_bind ?_
    intro read K
    cases read with
    | notInteger => rfl
    | absent | value =>
      dsimp only
      rw [Keyspace.set_beside here]
      rfl
  | append key value =>
    have here := owned key List.mem_cons_self
    simp only [Request.run, Keyspace.append_beside here]
    exact Keyspace.lift_bind fun _ _ => rfl
  | pfadd key values =>
    have here := owned key List.mem_cons_self
    simp only [Request.run, Keyspace.pfAdd_beside here]
    exact Keyspace.lift_bind fun _ _ => rfl
  | pfcount key =>
    have here := owned key List.mem_cons_self
    simp only [Request.run, Keyspace.pfCount_beside here]
    rfl
  | pfmerge dest sources =>
    have all : ∀ key ∈ dest :: sources, owns key := owned
    simp only [Request.run, Keyspace.pfMerge, Keyspace.union_beside all, ← Keyspace.beside_put (all dest List.mem_cons_self)]
    rfl
  | del keys =>
    have all : ∀ key ∈ keys, owns key := owned
    simp only [Request.run, Keyspace.delete_beside all]
    rfl
  | encoding key =>
    have here := owned key List.mem_cons_self
    simp only [Request.run, Keyspace.getEncoding_beside here]
    rfl

theorem Thinned.beside {room : Keyspace} (thinned : Thinned K room) : Thinned (K.beside owns whole) (room.beside owns whole) := by
  intro key
  unfold Keyspace.beside
  split
  · exact thinned key
  · exact .inl rfl

theorem ShrunkAt.beside {left : Keyspace} (shrunk : ShrunkAt now K left) : ShrunkAt now (K.beside owns whole) (left.beside owns whole) := by
  intro key
  unfold Keyspace.beside
  split
  · exact shrunk key
  · exact .inl rfl

section
variable {env : Env} {cfg : Config} {stores stores' : Keyspace → Store → Prop} {cmd : Command}
  (lifts : ∀ K s, stores K s → stores' (K.beside owns whole) s)
include lifts

theorem Full.beside (full : Full cfg stores K) : Full cfg stores' (K.beside owns whole) := by
  obtain ⟨s, stored, above⟩ := full
  exact ⟨s, lifts K s stored, above⟩

theorem MadeRoom.beside {room : Keyspace} (made : MadeRoom cfg stores cmd K room) :
    MadeRoom cfg stores' cmd (K.beside owns whole) (room.beside owns whole) := by
  rcases made with rfl | ⟨evicts, full, thinned⟩
  · exact .inl rfl
  · exact .inr ⟨evicts, full.beside lifts, thinned.beside⟩

theorem Passed.beside {ended : Int} {reply : Bytes} {left : Keyspace} (passed : Passed env cfg stores ended K cmd reply left) :
    Passed env cfg stores' ended (K.beside owns whole) cmd reply (left.beside owns whole) := by
  cases passed with
  | unknown unknown => exact .unknown unknown
  | elsewhere refused => exact .elsewhere refused
  | full known here grows made full => exact .full known here grows (made.beside lifts) (full.beside lifts)
  | malformed known here unasked made error rejects => exact .malformed known here unasked (made.beside lifts) error rejects
  | shown known here beyond stored ran shrunk kept =>
    exact .shown known here beyond (lifts K _ stored) ran shrunk.beside (lifts left _ kept)

end

/-- Requests to the nodes of a cluster, as one keyspace answers them. Each node goes by its
own clock and settings. -/
inductive ClusterAnswers {ι : Type} (env : ι → Env) (cfg : ι → Config) (rules : ι → Rules) (stores : ι → Keyspace → Store → Prop)
    (start : Keyspace) : List (ι × CommandRequest × Bytes) → Keyspace → Prop
  | nil : ClusterAnswers env cfg rules stores start [] start
  | snoc {done : List (ι × CommandRequest × Bytes)} {K left : Keyspace} {i : ι} {body : CommandRequest} {replies : List Bytes}
      {began ended : Int} (answers : ClusterAnswers env cfg rules stores start done K)
      (each : replies.length = (commandsOf (cfg i) body).length)
      (serving : Serving (env i) (cfg i) (rules i) (stores i) began K ((commandsOf (cfg i) body).zip replies) ended left) :
      ClusterAnswers env cfg rules stores start (done ++ [(i, body, replyOf (cfg i) body replies)]) left

end Rediska.Spec
