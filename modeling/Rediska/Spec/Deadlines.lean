import Rediska.Commands.Dispatch
import Rediska.Spec.Edits

/-! Deadlines of a keyspace. Where there are none, or none that has passed, the time at
which a request is made matters only for those it sets. -/

namespace Rediska.Spec
open Go Core Storage Commands

/-- No item has a deadline. -/
def Timeless (K : Keyspace) : Prop := ∀ key item, K key = some item → item.deadline = none

/-- No item is past its deadline. -/
def Unexpired (now : Int) (K : Keyspace) : Prop := ∀ key item, K key = some item → item.dead now = false

variable {rules : Rules} {K left : Keyspace} {T now : Int} {clock : Nat → Int} {key value reply : Bytes}

theorem Item.dead_mono {item : Item} {now later : Int} (dead : item.dead now = true) (forward : now ≤ later) : item.dead later = true := by
  unfold Item.dead at dead ⊢
  cases held : item.deadline with
  | none =>
    rw [held] at dead
    cases dead
  | some deadline =>
    rw [held] at dead
    exact decide_eq_true (Int.le_trans (of_decide_eq_true dead) forward)

/-! Items that go. -/

/-- Some keys are gone, and nothing else has changed. -/
def Thinned (K left : Keyspace) : Prop := ∀ key, left key = K key ∨ left key = none

theorem Thinned.trans {middle : Keyspace} (first : Thinned K middle) (last : Thinned middle left) : Thinned K left := by
  intro key
  rcases last key with same | gone
  · rw [same]
    exact first key
  · exact .inr gone

/-- Some items are gone whose deadline had passed at this time, and nothing else has
changed. -/
def ShrunkAt (now : Int) (K left : Keyspace) : Prop :=
  ∀ key, left key = K key ∨ (∃ item, K key = some item ∧ item.dead now = true) ∧ left key = none

namespace ShrunkAt

theorem refl (now : Int) (K : Keyspace) : ShrunkAt now K K := fun _ => .inl rfl

theorem trans {middle : Keyspace} (first : ShrunkAt now K middle) (last : ShrunkAt now middle left) : ShrunkAt now K left := by
  intro key
  rcases last key with same | ⟨⟨item, held, dead⟩, gone⟩
  · rw [same]
    exact first key
  · rcases first key with same | ⟨_, absent⟩
    · exact .inr ⟨⟨item, same ▸ held, dead⟩, gone⟩
    · rw [absent] at held
      cases held

theorem thinned (shrunk : ShrunkAt now K left) : Thinned K left := fun key => (shrunk key).imp id And.right

theorem later {later : Int} (shrunk : ShrunkAt now K left) (forward : now ≤ later) : ShrunkAt later K left := by
  intro key
  rcases shrunk key with same | ⟨⟨item, held, dead⟩, gone⟩
  · exact .inl same
  · exact .inr ⟨⟨item, held, Item.dead_mono dead forward⟩, gone⟩

/-- An item found dead is dead at every later reading. -/
theorem drop {item : Item} {later : Int} (held : K key = some item) (dead : item.dead now = true) (forward : now ≤ later) :
    ShrunkAt later K (K.drop key) := by
  intro other
  rw [Keyspace.drop_apply]
  split
  next here => exact .inr ⟨⟨item, here ▸ held, Item.dead_mono dead forward⟩, rfl⟩
  next => exact .inl rfl

theorem unexpired (shrunk : ShrunkAt now K left) (unexpired : Unexpired now K) : left = K := by
  funext key
  rcases shrunk key with same | ⟨⟨item, held, dead⟩, _⟩
  · exact same
  · rw [unexpired key item held] at dead
    cases dead

end ShrunkAt

theorem find_shrinks {found : Option Item} {later : Int} (looked : K.find now key = (found, left)) (forward : now ≤ later) :
    ShrunkAt later K left := by
  unfold Keyspace.find at looked
  split at looked
  · cases looked
    exact .refl later K
  next item held =>
    split at looked
    next dead =>
      cases looked
      exact .drop held dead forward
    · cases looked
      exact .refl later K

/-- The requests of the commands that are written to the file. -/
def Request.writes : Request → Bool
  | .set .. | .expire .. | .incr .. | .append .. | .pfadd .. | .pfmerge .. | .del .. => true
  | .get .. | .ttl .. | .pfcount .. | .encoding .. => false

/-- A request that reads, or is answered with an error, at most lets dead items go. -/
theorem Request.run_unlogged {later : Int} {request : Request} {reply : Bytes} (forward : ∀ i, clock i ≤ later)
    (ran : request.run rules clock K = .ok (reply, left)) (unlogged : request.writes = true → isErrorReply reply = true) :
    ShrunkAt later K left := by
  cases request with
  | get key =>
    obtain ⟨⟨value, middle⟩, got, ran⟩ := bind_ok ran
    cases ran
    obtain ⟨_, looked⟩ := get_looks got
    exact find_shrinks looked (forward 0)
  | ttl key =>
    obtain ⟨_, rfl⟩ := Prod.mk.inj (Except.ok.inj ran)
    obtain ⟨_, looked⟩ := ttl_looks K (clock 0) key
    exact find_shrinks looked (forward 0)
  | pfcount key =>
    obtain ⟨_, rfl⟩ := Prod.mk.inj (Except.ok.inj ran)
    exact .refl later K
  | encoding key =>
    obtain ⟨_, rfl⟩ := Prod.mk.inj (Except.ok.inj ran)
    exact find_shrinks rfl (forward 0)
  | expire key duration =>
    obtain ⟨⟨value, middle⟩, got, ran⟩ := bind_ok ran
    cases value with
    | none =>
      cases ran
      obtain ⟨_, looked⟩ := get_looks got
      exact find_shrinks looked (forward 0)
    | some value =>
      obtain ⟨rfl, _⟩ := Prod.mk.inj (Except.ok.inj ran)
      cases unlogged rfl
  | incr key =>
    obtain ⟨⟨read, middle⟩, got, ran⟩ := bind_ok ran
    cases read with
    | notInteger =>
      cases ran
      obtain ⟨_, looked⟩ := getInt_looks got
      exact find_shrinks looked (forward 0)
    | absent =>
      obtain ⟨rfl, _⟩ := Prod.mk.inj (Except.ok.inj ran)
      cases unlogged rfl
    | value n deadline =>
      obtain ⟨rfl, _⟩ := Prod.mk.inj (Except.ok.inj ran)
      cases unlogged rfl
  | pfadd key values =>
    obtain ⟨⟨changed, middle⟩, added, ran⟩ := bind_ok ran
    obtain ⟨rfl, rfl⟩ := Prod.mk.inj (Except.ok.inj ran)
    rcases changed with _ | _ | _
    · obtain ⟨_, looked⟩ := pfAdd_looks added
      exact find_shrinks looked (forward 0)
    · cases unlogged rfl
    · cases unlogged rfl
  | append key value =>
    obtain ⟨_, _, ran⟩ := bind_ok ran
    obtain ⟨rfl, _⟩ := Prod.mk.inj (Except.ok.inj ran)
    cases unlogged rfl
  | set | pfmerge | del =>
    obtain ⟨rfl, _⟩ := Prod.mk.inj (Except.ok.inj ran)
    cases unlogged rfl

/-! Items that stay. -/

theorem unexpired_iff : Unexpired T K ↔ Deadlines (fun ends => ∀ d ∈ ends, T < d) K := by
  refine forall₃_congr fun key item held => ?_
  rw [Item.dead]
  cases item.deadline <;> simp

theorem Timeless.unexpired (timeless : Timeless K) (now : Int) : Unexpired now K := by
  intro key item held
  rw [Item.dead, timeless key item held]

namespace Unexpired

theorem earlier {before : Int} (unexpired : Unexpired now K) (le : before ≤ now) : Unexpired before K := by
  intro key item held
  have alive := unexpired key item held
  by_contra dead
  rw [Item.dead_mono (Bool.eq_true_of_not_eq_false dead) le] at alive
  cases alive

theorem find (unexpired : Unexpired now K) (key : Bytes) : K.find now key = (K key, K) := by
  unfold Keyspace.find
  cases held : K key with
  | none => rfl
  | some item => simp only [unexpired key item held, Bool.false_eq_true, if_false]

theorem get (unexpired : Unexpired now K) (key : Bytes) :
    K.get rules now key = (match K key with
      | none => .ok (none, K)
      | some item => Keyspace.touch rules >>= fun _ => .ok (item.content.text, K)) := by
  rw [Keyspace.get, unexpired.find]
  cases K key <;> rfl

theorem getInt (unexpired : Unexpired now K) (key : Bytes) :
    K.getInt rules now key = (match K key with
      | none => .ok (.absent, K)
      | some item => Keyspace.touch rules >>= fun _ =>
        match item.content with
        | .int n => .ok (.value n item.deadline, K)
        | _ => .ok (.notInteger, K)) := by
  rw [Keyspace.getInt, unexpired.find]
  cases K key <;> rfl

/-- Reading leaves the keyspace as it is. -/
theorem looked_up {found : Option Item} (unexpired : Unexpired now K) (looked : K.find now key = (found, left)) : left = K := by
  rw [unexpired.find] at looked
  exact (Prod.mk.inj looked).2.symm

theorem deleteOne (unexpired : Unexpired now K) (removed : Int) (key : Bytes) :
    K.deleteOne now removed key = (match K key with
      | none => (removed, K)
      | some _ => (removed + 1, K.drop key)) := by
  unfold Keyspace.deleteOne
  cases held : K key with
  | none => rfl
  | some item => simp only [unexpired key item held, Bool.false_eq_true, if_false]

theorem drop (unexpired : Unexpired now K) (key : Bytes) : Unexpired now (K.drop key) := by
  intro j item held
  rw [Keyspace.drop_apply] at held
  split at held
  · cases held
  · exact unexpired j item held

/-- Deleting does not depend on the time. -/
theorem delete {clock clock' : Nat → Int} (unexpired : ∀ i, Unexpired (clock i) K) (unexpired' : ∀ i, Unexpired (clock' i) K)
    (i : Nat) (removed : Int) (keys : List Bytes) : Keyspace.delete clock i removed K keys = Keyspace.delete clock' i removed K keys := by
  induction keys generalizing K i removed with
  | nil => rfl
  | cons key rest ih =>
    have kept {clock : Nat → Int} (unexpired : ∀ i, Unexpired (clock i) K) (j : Nat) :
        Unexpired (clock j) (K.deleteOne (clock' i) removed key).2 := by
      unfold Keyspace.deleteOne
      split
      · exact unexpired j
      · exact (unexpired j).drop key
    have same : K.deleteOne (clock i) removed key = K.deleteOne (clock' i) removed key := by
      rw [(unexpired i).deleteOne, (unexpired' i).deleteOne]
    simp only [Keyspace.delete, same]
    exact ih (kept unexpired) (kept unexpired') (i + 1) _

end Unexpired

theorem Timeless.ttl (timeless : Timeless K) (now : Int) (key : Bytes) :
    K.ttl now key = (if (K key).isSome then -1 else -2, K) := by
  unfold Keyspace.ttl
  cases held : K key with
  | none => rfl
  | some item => simp only [timeless key item held, Option.isSome_some, if_true]

/-- A value set without a deadline is set the same at any time. -/
theorem set_timeless {now : Int} {key value : Bytes} {duration : Int} (timeless : Timeless (K.set now key value duration))
    (now' : Int) : K.set now key value duration = K.set now' key value duration := by
  have endless := timeless key _ (K.put_self key _)
  unfold Keyspace.set
  by_cases positive : 0 < duration
  · rw [if_pos positive] at endless
    cases endless
  · rw [if_neg positive, if_neg positive]

/-- Among keyspaces without deadlines a request does not depend on the time. -/
theorem Request.run_timeless {clock : Nat → Int} {request : Request} {reply : Bytes} (timeless : Timeless K)
    (ran : request.run rules clock K = .ok (reply, left)) (timeless' : Timeless left) (clock' : Nat → Int) :
    request.run rules clock' K = .ok (reply, left) := by
  have unexpired := timeless.unexpired
  cases request with
  | get key =>
    rw [← ran]
    simp only [Request.run, (unexpired _).get]
  | set key value duration =>
    obtain ⟨rfl, rfl⟩ := Prod.mk.inj (Except.ok.inj ran)
    rw [Request.run, set_timeless timeless' (clock' 0)]
  | expire key duration =>
    simp only [Request.run, (unexpired _).get] at ran ⊢
    obtain ⟨⟨value, middle⟩, got, ran⟩ := bind_ok ran
    rw [got, ok_bind]
    cases value with
    | none => exact ran
    | some value =>
      obtain ⟨rfl, rfl⟩ := Prod.mk.inj (Except.ok.inj ran)
      rw [set_timeless timeless' (clock' 1)]
  | ttl key =>
    rw [← ran]
    simp only [Request.run, timeless.ttl]
  | incr key =>
    simp only [Request.run] at ran ⊢
    obtain ⟨⟨read, middle⟩, got, ran⟩ := bind_ok ran
    have got' : K.getInt rules (clock' 0) key = .ok (read, middle) := by rw [← got, (unexpired _).getInt, (unexpired _).getInt]
    rw [got', ok_bind]
    cases read with
    | notInteger => exact ran
    | absent =>
      obtain ⟨rfl, rfl⟩ := Prod.mk.inj (Except.ok.inj ran)
      rw [set_timeless timeless' (clock' 2)]
    | value n deadline =>
      obtain rfl : deadline = none := timeless key _ (getInt_value got)
      obtain ⟨rfl, rfl⟩ := Prod.mk.inj (Except.ok.inj ran)
      rw [set_timeless timeless' (clock' 2)]
      rfl
  | append key value => exact ran
  | pfadd key values =>
    rw [← ran]
    simp only [Request.run, Keyspace.pfAdd, (unexpired _).find]
  | pfcount key => exact ran
  | pfmerge dest sources => exact ran
  | del keys =>
    rw [← ran]
    simp only [Request.run, Unexpired.delete (fun i => unexpired (clock' i)) (fun i => unexpired (clock i))]
  | encoding key =>
    rw [← ran]
    simp only [Request.run, Keyspace.getEncoding, (unexpired _).find]

/-- The request gives no key a deadline. -/
def Request.lasting : Request → Prop
  | .set _ _ duration | .expire _ duration => duration ≤ 0
  | _ => True

def Lasting (env : Env) (cmd : Command) : Prop :=
  ∀ name request, lookupCommand cmd.name = some name → requestOf env name cmd.args = some request → request.lasting

theorem Request.lasting_endless {request : Request} (timeless : Timeless K) (lasting : request.lasting) : ¬ request.setsDeadline K := by
  intro sets
  cases request with
  | set key value duration => exact absurd sets (Int.not_lt.mpr lasting)
  | expire key duration => exact absurd sets.1 (Int.not_lt.mpr lasting)
  | incr key =>
    obtain ⟨n, deadline, held⟩ := sets
    cases timeless key _ held
  | get | ttl | append | pfadd | pfcount | pfmerge | del | encoding => exact sets

theorem Request.run_endless {request : Request} (timeless : Timeless K) (endless : ¬ request.setsDeadline K)
    (ran : request.run rules clock K = .ok (reply, left)) : Timeless left := by
  have all : Deadlines (· = none) K := timeless
  exact (Request.run_edited all rfl (fun sets => absurd sets endless) ran).deadlines all

/-- A duration that starts at the time in question does not end by then. -/
theorem Request.run_unexpired {request : Request} (unexpired : Unexpired T K)
    (ran : request.run rules (fun _ => T) K = .ok (reply, left)) : Unexpired T left := by
  rw [unexpired_iff] at unexpired ⊢
  refine (Request.run_edited unexpired nofun (fun _ _ d positive ends reached => ?_) ran).deadlines unexpired
  cases reached
  omega

/-- A value set later has its deadline later. -/
theorem set_late {j : Bytes} {duration d : Int} {item : Item} (timeless : Timeless K) (early : now < T)
    (held : K.set now key value duration j = some item) (ends : item.deadline = some d) :
    ∃ item' d', K.set T key value duration j = some item' ∧ item'.deadline = some d' ∧ d < d' := by
  rw [Keyspace.set, Keyspace.put_apply] at held
  split at held
  next same =>
    cases held
    by_cases positive : 0 < duration
    · rw [if_pos positive] at ends
      cases ends
      exact ⟨_, T + duration, by rw [same, Keyspace.set, K.put_self, if_pos positive], rfl, by omega⟩
    · rw [if_neg positive] at ends
      cases ends
  next =>
    rw [timeless _ item held] at ends
    cases ends

/-- A deadline set before the time in question is later for a request made then. -/
theorem Request.run_late {request : Request} {item : Item} {d : Int} (timeless : Timeless K) (early : ∀ i, clock i < T)
    (ran : request.run rules clock K = .ok (reply, left)) (held : left key = some item) (ends : item.deadline = some d) :
    ∃ reply' left' item' d', request.run rules (fun _ => T) K = .ok (reply', left') ∧ left' key = some item' ∧
      item'.deadline = some d' ∧ d < d' := by
  by_cases sets : request.setsDeadline K
  · cases request with
    | set =>
      obtain ⟨_, rfl⟩ := Prod.mk.inj (Except.ok.inj ran)
      obtain ⟨item', d', held', ends', later⟩ := set_late timeless (early 0) held ends
      exact ⟨_, _, item', d', rfl, held', ends', later⟩
    | expire at_key duration =>
      have unexpired := timeless.unexpired
      obtain ⟨⟨value, middle⟩, got, ran⟩ := bind_ok ran
      obtain ⟨_, looked⟩ := get_looks got
      obtain rfl := (unexpired _).looked_up looked
      have got' : middle.get rules T at_key = .ok (value, middle) := by rw [← got, (unexpired _).get, (unexpired _).get]
      cases value with
      | none =>
        cases ran
        rw [timeless key item held] at ends
        cases ends
      | some value =>
        obtain ⟨_, rfl⟩ := Prod.mk.inj (Except.ok.inj ran)
        obtain ⟨item', d', held', ends', later⟩ := set_late timeless (early 1) held ends
        exact ⟨_, _, item', d', by rw [Request.run, got']; rfl, held', ends', later⟩
    | incr at_key =>
      obtain ⟨n, deadline, found⟩ := sets
      cases timeless at_key _ found
    | get | ttl | append | pfadd | pfcount | pfmerge | del | encoding => exact sets.elim
  · rw [Request.run_endless timeless sets ran key item held] at ends
    cases ends

end Rediska.Spec
