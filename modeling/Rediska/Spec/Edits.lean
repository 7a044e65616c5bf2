import Rediska.Spec.Keyspace

/-! What a request can do to a keyspace: put items at the keys it names and drop them.
The deadlines it leaves were there before, or are its own. -/

namespace Rediska.Spec
open Go Core Storage Commands

/-- The keys a request names. -/
def Request.keys : Request → List Bytes
  | .get key | .set key _ _ | .expire key _ | .ttl key | .incr key | .append key _ | .pfadd key _ | .pfcount key | .encoding key => [key]
  | .pfmerge dest sources => dest :: sources
  | .del keys => keys

variable {rules : Rules} {K left : Keyspace} {named : Bytes → Prop} {P : Option Int → Prop} {now : Int} {clock : Nat → Int}
  {key j value reply : Bytes} {item : Item}

/-- The items have deadlines, or none, as the property says. -/
def Deadlines (P : Option Int → Prop) (K : Keyspace) : Prop := ∀ key item, K key = some item → P item.deadline

/-- The request gives a key of this keyspace a deadline. -/
def Request.setsDeadline (K : Keyspace) : Request → Prop
  | .set _ _ duration => 0 < duration
  | .expire key duration => 0 < duration ∧ ∃ item, K key = some item ∧ item.content.text ≠ none
  | .incr key => ∃ n deadline, K key = some ⟨.int n, some deadline⟩
  | _ => False

/-- What comes of putting items at named keys, with such deadlines, and dropping them. -/
inductive Edited (named : Bytes → Prop) (P : Option Int → Prop) (K : Keyspace) : Keyspace → Prop
  | start : Edited named P K K
  | put {left : Keyspace} {key : Bytes} {item : Item} (before : Edited named P K left) (here : named key) (fits : P item.deadline) :
      Edited named P K (left.put key item)
  | drop {left : Keyspace} {key : Bytes} (before : Edited named P K left) (here : named key) : Edited named P K (left.drop key)

theorem find_some (looked : K.find now key = (some item, left)) : K key = some item ∧ left = K := by
  unfold Keyspace.find at looked
  split at looked
  · cases looked
  next held =>
    split at looked
    · cases looked
    · cases looked
      exact ⟨held, rfl⟩

/-! Reading a key leaves what looking it up leaves. -/

theorem get_looks {read : Option Bytes} (got : K.get rules now key = .ok (read, left)) : ∃ found, K.find now key = (found, left) := by
  unfold Keyspace.get at got
  split at got
  next looked =>
    cases got
    exact ⟨_, looked⟩
  next looked =>
    obtain ⟨_, _, got⟩ := bind_ok got
    cases got
    exact ⟨_, looked⟩

theorem getInt_looks {read : Store.IntRead} (got : K.getInt rules now key = .ok (read, left)) :
    ∃ found, K.find now key = (found, left) := by
  unfold Keyspace.getInt at got
  split at got
  next looked =>
    cases got
    exact ⟨_, looked⟩
  next looked =>
    obtain ⟨_, _, got⟩ := bind_ok got
    split at got <;> (cases got; exact ⟨_, looked⟩)

theorem pfAdd_looks {values : List Bytes} (refused : K.pfAdd rules now key values = .ok (none, left)) :
    ∃ found, K.find now key = (found, left) := by
  unfold Keyspace.pfAdd at refused
  split at refused
  · cases refused
  next looked =>
    split at refused
    · obtain ⟨_, _, refused⟩ := bind_ok refused
      cases refused
    · cases refused
      exact ⟨_, looked⟩

theorem Keyspace.sub_nonpos (deadline now : Int) : Store.sub deadline now ≤ 0 ↔ deadline ≤ now := by
  simp only [Store.sub, minInt64, maxInt64]
  omega

/-- The remaining time is up exactly when the item is dead, so TTL looks its key up too. -/
theorem Keyspace.ttl_eq_find (K : Keyspace) (key : Bytes) :
    K.ttl now key =
      match K.find now key with
      | (none, left) => (-2, left)
      | (some item, left) =>
        match item.deadline with
        | none => (-1, left)
        | some deadline => (((Store.sub deadline now).tdiv 1000000 + 500).tdiv 1000, left) := by
  unfold Keyspace.ttl Keyspace.find
  cases K key with
  | none => rfl
  | some item =>
    obtain ⟨content, deadline⟩ := item
    cases deadline with
    | none => rfl
    | some deadline =>
      simp only [Item.dead, decide_eq_true_eq, Keyspace.sub_nonpos]
      split <;> rfl

theorem ttl_looks (K : Keyspace) (now : Int) (key : Bytes) : ∃ found, K.find now key = (found, (K.ttl now key).2) := by
  rw [Keyspace.ttl_eq_find]
  rcases K.find now key with ⟨_ | item, left⟩
  · exact ⟨none, rfl⟩
  · refine ⟨some item, ?_⟩
    dsimp only
    split <;> rfl

/-- Only a string has a text to be read. -/
theorem get_some (got : K.get rules now key = .ok (some value, left)) : ∃ item, K key = some item ∧ item.content.text = some value := by
  unfold Keyspace.get at got
  split at got
  · cases got
  next item _ looked =>
    obtain ⟨_, _, got⟩ := bind_ok got
    obtain ⟨text, _⟩ := Prod.mk.inj (Except.ok.inj got)
    exact ⟨item, (find_some looked).1, text⟩

theorem getInt_value {n : Int} {deadline : Option Int} (got : K.getInt rules now key = .ok (.value n deadline, left)) :
    K key = some ⟨.int n, deadline⟩ := by
  unfold Keyspace.getInt at got
  split at got
  · cases got
  next item _ looked =>
    obtain ⟨_, _, got⟩ := bind_ok got
    obtain ⟨content, deadline⟩ := item
    cases content with
    | int =>
      cases got
      exact (find_some looked).1
    | embstr | raw | sketch => cases got

namespace Edited

theorem frame (edited : Edited named P K left) (apart : ¬ named j) : left j = K j := by
  induction edited with
  | start => rfl
  | @put _ key _ _ here _ ih =>
    have other : j ≠ key := fun same => apart (same ▸ here)
    rw [Keyspace.put_apply, if_neg other, ih]
  | @drop _ key _ here ih =>
    have other : j ≠ key := fun same => apart (same ▸ here)
    rw [Keyspace.drop_apply, if_neg other, ih]

theorem deadlines (edited : Edited named P K left) (all : Deadlines P K) : Deadlines P left := by
  intro j item held
  induction edited with
  | start => exact all j item held
  | put _ _ fits ih =>
    rw [Keyspace.put_apply] at held
    split at held
    · cases held
      exact fits
    · exact ih held
  | drop _ _ ih =>
    rw [Keyspace.drop_apply] at held
    split at held
    · cases held
    · exact ih held

theorem set {duration : Int} (before : Edited named P K left) (here : named key) (endless : P none)
    (begun : 0 < duration → P (some (now + duration))) : Edited named P K (left.set now key value duration) := by
  refine before.put here ?_
  by_cases positive : 0 < duration
  · rw [if_pos positive]
    exact begun positive
  · rw [if_neg positive]
    exact endless

theorem find {found : Option Item} (here : named key) (looked : K.find now key = (found, left)) : Edited named P K left := by
  unfold Keyspace.find at looked
  split at looked
  · cases looked
    exact .start
  · split at looked
    · cases looked
      exact .drop .start here
    · cases looked
      exact .start

theorem get {read : Option Bytes} (here : named key) (got : K.get rules now key = .ok (read, left)) : Edited named P K left := by
  obtain ⟨_, looked⟩ := get_looks got
  exact find here looked

theorem getInt {read : Store.IntRead} (here : named key) (got : K.getInt rules now key = .ok (read, left)) : Edited named P K left := by
  obtain ⟨_, looked⟩ := getInt_looks got
  exact find here looked

theorem ttl (here : named key) : Edited named P K (K.ttl now key).2 := by
  obtain ⟨_, looked⟩ := ttl_looks K now key
  exact find here looked

theorem append {n : Int} (all : Deadlines P K) (here : named key) (endless : P none)
    (ran : K.append rules key value = .ok (n, left)) : Edited named P K left := by
  unfold Keyspace.append at ran
  split at ran
  · cases ran
    exact .put .start here endless
  next item held =>
    split at ran
    · cases ran
    · obtain ⟨_, _, ran⟩ := bind_ok ran
      cases ran
      exact .put .start here (all key item held)

theorem pfAdd {values : List Bytes} {changed : Option Bool} (all : Deadlines P K) (here : named key) (endless : P none)
    (ran : K.pfAdd rules now key values = .ok (changed, left)) : Edited named P K left := by
  unfold Keyspace.pfAdd at ran
  split at ran
  next looked =>
    cases ran
    exact .put (find here looked) here endless
  next item _ looked =>
    obtain ⟨held, rfl⟩ := find_some looked
    split at ran
    · obtain ⟨_, _, ran⟩ := bind_ok ran
      cases ran
      exact .put .start here (all key item held)
    · cases ran
      exact .start

theorem delete {keys : List Bytes} (before : Edited named P K left) (here : ∀ key ∈ keys, named key) (clock : Nat → Int) (i : Nat)
    (removed : Int) : Edited named P K (Keyspace.delete clock i removed left keys).2 := by
  induction keys generalizing left i removed with
  | nil => exact before
  | cons key rest ih =>
    have next : Edited named P K (left.deleteOne (clock i) removed key).2 := by
      unfold Keyspace.deleteOne
      split
      · exact before
      · exact before.drop (here key List.mem_cons_self)
    exact ih next (fun key later => here key (.tail _ later)) (i + 1) _

end Edited

/-- What any request does. -/
theorem Request.run_edited {request : Request} (all : Deadlines P K) (endless : P none)
    (begun : request.setsDeadline K → ∀ i d, 0 < d → P (some (clock i + d)))
    (ran : request.run rules clock K = .ok (reply, left)) : Edited (· ∈ Request.keys request) P K left := by
  cases request with
  | get key =>
    obtain ⟨_, got, ran⟩ := bind_ok ran
    cases ran
    exact .get List.mem_cons_self got
  | set key value duration =>
    obtain ⟨_, rfl⟩ := Prod.mk.inj (Except.ok.inj ran)
    exact .set .start List.mem_cons_self endless fun positive => begun positive 0 duration positive
  | expire key duration =>
    obtain ⟨⟨value, middle⟩, got, ran⟩ := bind_ok ran
    have before : Edited (· ∈ Request.keys (.expire key duration)) P K middle := .get List.mem_cons_self got
    cases value with
    | none =>
      cases ran
      exact before
    | some value =>
      obtain ⟨_, rfl⟩ := Prod.mk.inj (Except.ok.inj ran)
      obtain ⟨item, held, text⟩ := get_some got
      refine before.set List.mem_cons_self endless fun positive => begun ⟨positive, item, held, ?_⟩ 1 duration positive
      rw [text]
      nofun
  | ttl key =>
    obtain ⟨_, rfl⟩ := Prod.mk.inj (Except.ok.inj ran)
    exact .ttl List.mem_cons_self
  | incr key =>
    obtain ⟨⟨read, middle⟩, got, ran⟩ := bind_ok ran
    have before : Edited (· ∈ Request.keys (.incr key)) P K middle := .getInt List.mem_cons_self got
    cases read with
    | notInteger =>
      cases ran
      exact before
    | absent =>
      obtain ⟨_, rfl⟩ := Prod.mk.inj (Except.ok.inj ran)
      exact before.set List.mem_cons_self endless nofun
    | value n deadline =>
      obtain ⟨_, rfl⟩ := Prod.mk.inj (Except.ok.inj ran)
      refine before.set List.mem_cons_self endless fun positive => ?_
      cases deadline with
      | none => exact absurd positive (Int.lt_irrefl 0)
      | some deadline => exact begun ⟨n, deadline, getInt_value got⟩ 2 _ positive
  | append key value =>
    obtain ⟨_, appended, ran⟩ := bind_ok ran
    cases ran
    exact .append all List.mem_cons_self endless appended
  | pfadd key values =>
    obtain ⟨_, added, ran⟩ := bind_ok ran
    cases ran
    exact .pfAdd all List.mem_cons_self endless added
  | pfcount key =>
    obtain ⟨_, rfl⟩ := Prod.mk.inj (Except.ok.inj ran)
    exact .start
  | pfmerge dest sources =>
    obtain ⟨_, rfl⟩ := Prod.mk.inj (Except.ok.inj ran)
    exact .put .start List.mem_cons_self endless
  | del keys =>
    obtain ⟨_, rfl⟩ := Prod.mk.inj (Except.ok.inj ran)
    exact .delete .start (fun _ inside => inside) clock 0 0
  | encoding key =>
    obtain ⟨_, rfl⟩ := Prod.mk.inj (Except.ok.inj ran)
    exact .find List.mem_cons_self (Prod.eta _).symm

/-- A request changes nothing but the keys it names. -/
theorem Request.run_frame {rules : Rules} {K left : Keyspace} {clock : Nat → Int} {request : Request} {j reply : Bytes}
    (ran : request.run rules clock K = .ok (reply, left)) (apart : j ∉ Request.keys request) : left j = K j := by
  have edited : Edited (· ∈ Request.keys request) (fun _ => True) K left :=
    Request.run_edited (fun _ _ _ => trivial) trivial (fun _ _ _ _ => trivial) ran
  exact edited.frame apart

end Rediska.Spec
