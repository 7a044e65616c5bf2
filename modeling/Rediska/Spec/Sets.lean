import Rediska.Logic.Growth
import Rediska.Spec.Machine

/-! What sketches are for: sets. A sketch stands for the set of the values that were added
under its key, and the replies about sketches say as much of the sets as registers can. -/

namespace Rediska.Spec
open Go Core Hll Storage Commands Server Logic

/-- The sets under the keys that hold sketches. -/
abbrev Gathering := Bytes → Option (Finset Bytes)

/-- The registers after adding some values, in whatever order and however often. -/
def sketchOf (values : Finset Bytes) : Table := values.sup point

/-- What a key holds, and the set under it. No command gives a sketch a deadline. -/
inductive Gathers : Option Item → Option (Finset Bytes) → Prop
  | nothing : Gathers none none
  | text {item : Item} (readable : item.content.text ≠ none) : Gathers (some item) none
  | sketch (values : Finset Bytes) : Gathers (some ⟨.sketch (sketchOf values), none⟩) (some values)

def Gathered (K : Keyspace) (G : Gathering) : Prop := ∀ key, Gathers (K key) (G key)

namespace Gathering

def drop (G : Gathering) (key : Bytes) : Gathering := Function.update G key none

def under (G : Gathering) (key : Bytes) : Finset Bytes := (G key).getD ∅

/-- The sets under the keys that are there. -/
def within (G : Gathering) (K : Keyspace) : Gathering := fun key => (K key).bind fun _ => G key

/-- The union of the sets under some keys. -/
def union (G : Gathering) (keys : List Bytes) : Finset Bytes := keys.toFinset.biUnion G.under

end Gathering

namespace Request

/-- What becomes of the sets when a request is granted. -/
def collect (G : Gathering) : Request → Gathering
  | .set key _ _ => G.drop key
  | .del keys => keys.foldl Gathering.drop G
  | .pfadd key values => Function.update G key (some (G.under key ∪ values.toFinset))
  | .pfmerge dest sources => Function.update G dest (some (G.union (dest :: sources)))
  | .get _ | .expire _ _ | .ttl _ | .incr _ | .append _ _ | .pfcount _ | .encoding _ => G

/-- What a request about sketches is answered. Adding says whether the registers tell the
set from what it was before. -/
def tells (rules : Rules) (G : Gathering) : Request → Bytes → Prop
  | .pfcount key, reply => reply = encodeInteger ((G key).elim 0 fun values => wrap64 (rules.estimate (histogram (sketchOf values))))
  | .pfadd key values, reply =>
    match G key with
    | none => reply = encodeInteger 1 ∨ isErrorReply reply = true
    | some old => reply = encodeInteger (if sketchOf (old ∪ values.toFinset) = sketchOf old then 0 else 1)
  | .pfmerge _ _, reply => reply = encodeSimpleString (ascii "OK")
  | _, _ => True

end Request

section
variable {K left : Keyspace} {G : Gathering} {key : Bytes} {item : Item}

theorem joinAll_sketchOf (old : Finset Bytes) (values : List Bytes) :
    Keyspace.joinAll (sketchOf old) values = sketchOf (old ∪ values.toFinset) := by
  rw [Keyspace.joinAll, foldl_sup_eq, sketchOf, sketchOf, Finset.sup_union]

theorem joinAll_fresh (values : List Bytes) : Keyspace.joinAll ⊥ values = sketchOf values.toFinset := by
  rw [Keyspace.joinAll, foldl_sup_eq, bot_sup_eq, sketchOf]

/-- The registers are changed exactly if they tell the larger set from the old one. -/
theorem joinAll_lt_iff (old : Finset Bytes) (values : List Bytes) :
    sketchOf old < Keyspace.joinAll (sketchOf old) values ↔ sketchOf (old ∪ values.toFinset) ≠ sketchOf old := by
  have grows : sketchOf old ≤ sketchOf (old ∪ values.toFinset) := Finset.sup_mono Finset.subset_union_left
  rw [joinAll_sketchOf, grows.lt_iff_ne]
  exact ne_comm

theorem Gathers.tableAt (gathers : Gathers (K key) (G key)) : K.tableAt key = sketchOf (G.under key) := by
  unfold Keyspace.tableAt Gathering.under
  revert gathers
  generalize K key = held
  generalize G key = set
  intro gathers
  cases gathers with
  | nothing => rfl
  | @text item readable =>
    obtain ⟨content, deadline⟩ := item
    cases content with
    | int | embstr | raw => rfl
    | sketch => exact absurd rfl readable
  | sketch values => rfl

theorem Gathered.union (gathered : Gathered K G) (keys : List Bytes) : K.union keys = sketchOf (G.union keys) := by
  have tables : K.tableAt = fun key => sketchOf (G.under key) := funext fun key => (gathered key).tableAt
  rw [Keyspace.union, foldl_sup_eq, bot_sup_eq, tables, sketchOf, Gathering.union, Finset.sup_biUnion]
  rfl

theorem Gathers.none_of_text (gathers : Gathers (some item) (G key)) (readable : item.content.text ≠ none) : G key = none := by
  revert gathers
  generalize G key = set
  intro gathers
  cases gathers with
  | text => rfl
  | sketch => exact absurd rfl readable

theorem Gathered.none_of_text (gathered : Gathered K G) (held : K key = some item) (readable : item.content.text ≠ none) : G key = none :=
  Gathers.none_of_text (held ▸ gathered key) readable

theorem Gathered.none_of_absent (gathered : Gathered K G) (held : K key = none) : G key = none := by
  have gathers := gathered key
  rw [held] at gathers
  generalize G key = set at gathers
  cases gathers with
  | nothing => rfl

theorem Gathering.drop_none (absent : G key = none) : G.drop key = G := by
  rw [Gathering.drop, ← absent, Function.update_eq_self]

theorem Gathered.put (gathered : Gathered K G) (key : Bytes) {set : Option (Finset Bytes)} (gathers : Gathers (some item) set) :
    Gathered (K.put key item) (Function.update G key set) := by
  intro j
  rw [Keyspace.put_apply, Function.update_apply]
  split
  · exact gathers
  · exact gathered j

theorem Gathered.drop (gathered : Gathered K G) (key : Bytes) : Gathered (K.drop key) (G.drop key) := by
  intro j
  rw [Keyspace.drop_apply, Gathering.drop, Function.update_apply]
  split
  · exact .nothing
  · exact gathered j

theorem detect_readable (value : Bytes) : (detect value).text ≠ none := by
  unfold detect
  split
  · simp [Content.text]
  · split <;> simp [Content.text]

theorem Gathered.set (gathered : Gathered K G) (now : Int) (key value : Bytes) (duration : Int) :
    Gathered (K.set now key value duration) (G.drop key) := gathered.put key (.text (detect_readable value))

/-- A dead item is no sketch. -/
theorem Gathered.not_dead (gathered : Gathered K G) {now : Int} (held : K key = some item) (dead : item.dead now = true) : G key = none := by
  have gathers := gathered key
  rw [held] at gathers
  generalize G key = set at gathers
  cases gathers with
  | text => rfl
  | sketch => cases dead

theorem Gathered.find (gathered : Gathered K G) {now : Int} {found : Option Item} (looked : K.find now key = (found, left)) :
    Gathered left G := by
  unfold Keyspace.find at looked
  split at looked
  · cases looked
    exact gathered
  next item held =>
    split at looked
    next dead =>
      cases looked
      have dropped := gathered.drop key
      rw [Gathering.drop_none (gathered.not_dead held dead)] at dropped
      exact dropped
    next =>
      cases looked
      exact gathered

theorem Gathered.find_none (gathered : Gathered K G) {now : Int} (looked : K.find now key = (none, left)) : G key = none := by
  unfold Keyspace.find at looked
  split at looked
  next held => exact gathered.none_of_absent held
  next item held =>
    split at looked
    next dead => exact gathered.not_dead held dead
    next => cases looked

theorem Gathered.deletes (gathered : Gathered K G) (clock : Nat → Int) (i : Nat) (removed : Int) (keys : List Bytes) :
    Gathered (Keyspace.delete clock i removed K keys).2 (keys.foldl Gathering.drop G) := by
  induction keys generalizing K G i removed with
  | nil => exact gathered
  | cons key rest ih =>
    apply ih
    split
    next held =>
      rw [Gathering.drop_none (gathered.none_of_absent held)]
      exact gathered
    next => exact gathered.drop key

end

section
variable {rules : Rules} {K left : Keyspace} {G : Gathering} {clock : Nat → Int} {key reply : Bytes}

/-- A request leaves the sets that `collect` says, unless it is refused. -/
def Answers (rules : Rules) (G : Gathering) (request : Request) (reply : Bytes) (left : Keyspace) : Prop :=
  request.tells rules G reply ∧ Gathered left (if isErrorReply reply then G else request.collect G)

theorem Answers.granted {request : Request} {n : Int} (tells : request.tells rules G (encodeInteger n))
    (gathered : Gathered left (request.collect G)) : Answers rules G request (encodeInteger n) left := ⟨tells, gathered⟩

theorem Gathered.pfAdd (gathered : Gathered K G) {values : List Bytes} {changed : Option Bool} {now : Int}
    (ran : K.pfAdd rules now key values = .ok (changed, left)) : Answers rules G (.pfadd key values) (addReply changed) left := by
  unfold Keyspace.pfAdd at ran
  split at ran
  next looked =>
    cases ran
    have absent := gathered.find_none looked
    have fresh := (gathered.find looked).put key (.sketch values.toFinset)
    refine .granted ?_ ?_
    · simp only [Request.tells, absent]
      exact .inl trivial
    · rw [joinAll_fresh, Request.collect, Gathering.under, absent, Option.getD_none, Finset.empty_union]
      exact fresh
  next item middle looked =>
    obtain ⟨held, rfl⟩ := find_some looked
    have gathers := gathered key
    rw [held] at gathers
    generalize under : G key = set at gathers
    cases gathers with
    | text readable =>
      have refused : changed = none ∧ left = middle := by
        obtain ⟨content, deadline⟩ := item
        cases content with
        | int | embstr | raw =>
          cases ran
          exact ⟨rfl, rfl⟩
        | sketch => exact absurd rfl readable
      obtain ⟨rfl, rfl⟩ := refused
      refine ⟨?_, gathered⟩
      simp only [Request.tells, under]
      exact .inr rfl
    | sketch old =>
      classical
      obtain ⟨_, _, ran⟩ := bind_ok ran
      cases ran
      have more := gathered.put key (.sketch (old ∪ values.toFinset))
      have kept : Gathered (middle.put key ⟨.sketch (Keyspace.joinAll (sketchOf old) values), none⟩)
          (Request.collect G (.pfadd key values)) := by
        rw [joinAll_sketchOf, Request.collect, Gathering.under, under, Option.getD_some]
        exact more
      by_cases same : sketchOf (old ∪ values.toFinset) = sketchOf old
      · have unchanged : ¬ sketchOf old < Keyspace.joinAll (sketchOf old) values := fun less => (joinAll_lt_iff old values).mp less same
        rw [decide_eq_false unchanged]
        refine .granted ?_ kept
        simp only [Request.tells, under, if_pos same]
      · have changed : sketchOf old < Keyspace.joinAll (sketchOf old) values := (joinAll_lt_iff old values).mpr same
        rw [decide_eq_true changed]
        refine .granted ?_ kept
        simp only [Request.tells, under, if_neg same]

theorem Gathered.append (gathered : Gathered K G) {value : Bytes} {n : Int} (ran : K.append rules key value = .ok (n, left)) :
    Gathered left G := by
  unfold Keyspace.append at ran
  split at ran
  next held =>
    cases ran
    have kept : Gathered (K.put key ⟨detect value, none⟩) (G.drop key) := gathered.put key (.text (detect_readable value))
    rw [Gathering.drop_none (gathered.none_of_absent held)] at kept
    exact kept
  next item held =>
    split at ran
    · cases ran
    next text readable =>
      obtain ⟨_, _, ran⟩ := bind_ok ran
      cases ran
      have absent := gathered.none_of_text held (by simp [readable])
      have kept : Gathered (K.put key ⟨.raw (text ++ value), item.deadline⟩) (G.drop key) := gathered.put key (.text (by simp [Content.text]))
      rw [Gathering.drop_none absent] at kept
      exact kept

theorem Gathered.none_of_unread (gathered : Gathered K G) {now : Int} (read : K.getInt rules now key = .ok (.absent, left)) : G key = none := by
  unfold Keyspace.getInt at read
  split at read
  next looked => exact gathered.find_none looked
  next =>
    obtain ⟨_, _, read⟩ := bind_ok read
    split at read <;> cases read

theorem Gathers.count (gathers : Gathers (K key) (G key)) :
    K.pfCount rules key = (G key).elim 0 fun values => wrap64 (rules.estimate (histogram (sketchOf values))) := by
  unfold Keyspace.pfCount
  revert gathers
  generalize K key = held
  generalize G key = set
  intro gathers
  cases gathers with
  | nothing => rfl
  | @text item readable =>
    obtain ⟨content, deadline⟩ := item
    cases content with
    | int | embstr | raw => rfl
    | sketch => exact absurd rfl readable
  | sketch values => rw [Option.elim_some]

theorem Gathered.answers (gathered : Gathered K G) {request : Request} (ran : request.run rules clock K = .ok (reply, left)) :
    Answers rules G request reply left := by
  cases request with
  | get key =>
    obtain ⟨⟨value, after⟩, got, ran⟩ := bind_ok ran
    cases ran
    obtain ⟨_, looked⟩ := get_looks got
    refine ⟨trivial, ?_⟩
    rw [Request.collect, ite_self]
    exact gathered.find looked
  | set key value duration =>
    cases ran
    exact ⟨trivial, gathered.set _ key value duration⟩
  | expire key duration =>
    obtain ⟨⟨value, after⟩, got, ran⟩ := bind_ok ran
    obtain ⟨_, looked⟩ := get_looks got
    refine ⟨trivial, ?_⟩
    rw [Request.collect, ite_self]
    cases value with
    | none =>
      cases ran
      exact gathered.find looked
    | some value =>
      cases ran
      obtain ⟨item, held, readable⟩ := get_some got
      have kept := (gathered.find looked).set (clock 1) key value duration
      rw [Gathering.drop_none (gathered.none_of_text held (by simp [readable]))] at kept
      exact kept
  | ttl key =>
    cases ran
    obtain ⟨_, looked⟩ := ttl_looks K (clock 0) key
    exact .granted trivial (gathered.find looked)
  | incr key =>
    obtain ⟨⟨read, after⟩, got, ran⟩ := bind_ok ran
    obtain ⟨_, looked⟩ := getInt_looks got
    have middle := gathered.find looked
    refine ⟨trivial, ?_⟩
    rw [Request.collect, ite_self]
    cases read with
    | notInteger =>
      cases ran
      exact middle
    | absent =>
      cases ran
      have kept := middle.set (clock 2) key (itoa 1) 0
      rw [Gathering.drop_none (gathered.none_of_unread got)] at kept
      exact kept
    | value n deadline =>
      cases ran
      have kept := middle.set (clock 2) key (itoa (wrap64 (n + 1))) (timeLeft deadline (clock 1))
      rw [Gathering.drop_none (gathered.none_of_text (getInt_value got) (by simp [Content.text]))] at kept
      exact kept
  | append key value =>
    obtain ⟨⟨n, after⟩, ran', ran⟩ := bind_ok ran
    cases ran
    exact .granted trivial (gathered.append ran')
  | pfadd key values =>
    obtain ⟨⟨changed, after⟩, ran', ran⟩ := bind_ok ran
    cases ran
    exact gathered.pfAdd ran'
  | pfcount key =>
    cases ran
    refine .granted ?_ gathered
    rw [Request.tells, (gathered key).count]
  | pfmerge dest sources =>
    cases ran
    have merged := gathered.put dest (.sketch (G.union (dest :: sources)))
    rw [← gathered.union] at merged
    exact ⟨rfl, merged⟩
  | del keys =>
    cases ran
    exact .granted trivial (gathered.deletes clock 0 0 keys)
  | encoding key =>
    cases ran
    refine ⟨trivial, ?_⟩
    rw [Request.collect, ite_self]
    exact gathered.find rfl

end

section
variable (env : Env) (cfg : Config) (rules : Rules) (stores : Keyspace → Store → Prop)

/-- A command is served, and collects what its request does, or nothing. The sets go whose
keys have gone to make room. -/
inductive Collects (began ended : Int) (K : Keyspace) (G : Gathering) (cmd : Command) : Bytes → Keyspace → Gathering → Prop
  | answered {name : CommandName} {request : Request} {clock : Nat → Int} {room left : Keyspace} {reply : Bytes}
      (known : lookupCommand cmd.name = some name) (asked : requestOf env name cmd.args = some request)
      (here : checkCluster cfg cmd = none) (made : MadeRoom cfg stores cmd K room)
      (readings : ∀ i, began ≤ clock i ∧ clock i ≤ ended) (runs : request.run rules clock room = .ok (reply, left))
      (told : request.tells rules (G.within room) reply) :
      Collects began ended K G cmd reply left (if isErrorReply reply then G.within room else request.collect (G.within room))
  | passed {reply : Bytes} {left : Keyspace} (passed : Passed env cfg stores ended K cmd reply left) :
      Collects began ended K G cmd reply left (G.within left)

inductive Collecting : Int → Keyspace → Gathering → List (Command × Bytes) → Int → Keyspace → Gathering → Prop
  | nil (now : Int) (K : Keyspace) (G : Gathering) : Collecting now K G [] now K G
  | cons {began ended final : Int} {K between left : Keyspace} {G middle sets : Gathering} {cmd : Command} {reply : Bytes}
      {rest : List (Command × Bytes)} (collects : Collects env cfg rules stores began ended K G cmd reply between middle)
      (forward : began ≤ ended) (collecting : Collecting ended between middle rest final left sets) :
      Collecting began K G ((cmd, reply) :: rest) final left sets

/-- Whole requests with their replies. -/
inductive CollectingAll : Int → Keyspace → Gathering → List (CommandRequest × Bytes) → Int → Keyspace → Gathering → Prop
  | nil (now : Int) (K : Keyspace) (G : Gathering) : CollectingAll now K G [] now K G
  | cons {began ended final : Int} {K between left : Keyspace} {G middle sets : Gathering} {body : CommandRequest} {replies : List Bytes}
      {rest : List (CommandRequest × Bytes)} (each : replies.length = (commandsOf cfg body).length)
      (collecting : Collecting env cfg rules stores began K G ((commandsOf cfg body).zip replies) ended between middle)
      (later : CollectingAll ended between middle rest final left sets) :
      CollectingAll began K G ((body, replyOf cfg body replies) :: rest) final left sets

end

section
variable {env : Env} {cfg : Config} {rules : Rules} {stores : Keyspace → Store → Prop} {K left : Keyspace} {G : Gathering} {cmd : Command}
  {began ended : Int}

theorem Gathered.within {room : Keyspace} (gathered : Gathered K G) (thinned : Thinned K room) : Gathered room (G.within room) := by
  intro key
  unfold Gathering.within
  cases held : room key with
  | none => exact .nothing
  | some item =>
    rcases thinned key with same | gone
    · have gathers := gathered key
      rw [← same, held] at gathers
      exact gathers
    · rw [gone] at held
      cases held

theorem Gathered.collects {reply : Bytes} (gathered : Gathered K G) (serves : Serves env cfg rules stores began ended K cmd reply left) :
    ∃ sets, Collects env cfg rules stores began ended K G cmd reply left sets ∧ Gathered left sets := by
  cases serves with
  | answered known asked here made readings runs =>
    obtain ⟨told, after⟩ := (gathered.within made.thinned).answers runs
    exact ⟨_, .answered known asked here made readings runs told, after⟩
  | passed passed =>
    obtain ⟨room, made, shrunk⟩ := passed.shrinks
    exact ⟨_, .passed passed, gathered.within (made.thinned.trans shrunk.thinned)⟩

theorem Gathered.collecting {done : List (Command × Bytes)} (gathered : Gathered K G)
    (serving : Serving env cfg rules stores began K done ended left) :
    ∃ sets, Collecting env cfg rules stores began K G done ended left sets ∧ Gathered left sets := by
  induction serving generalizing G with
  | nil => exact ⟨G, .nil _ _ G, gathered⟩
  | cons serves forward _ ih =>
    obtain ⟨middle, collects, between⟩ := gathered.collects serves
    obtain ⟨sets, collecting, after⟩ := ih between
    exact ⟨sets, .cons collects forward collecting, after⟩

theorem Gathered.collectingAll {done : List (CommandRequest × Bytes)} (gathered : Gathered K G)
    (answering : Answering env cfg rules stores began K done ended left) :
    ∃ sets, CollectingAll env cfg rules stores began K G done ended left sets ∧ Gathered left sets := by
  induction answering generalizing G with
  | nil => exact ⟨G, .nil _ _ G, gathered⟩
  | cons each serving _ ih =>
    obtain ⟨middle, collecting, between⟩ := gathered.collecting serving
    obtain ⟨sets, later, after⟩ := ih between
    exact ⟨sets, .cons each collecting later, after⟩

end

end Rediska.Spec
