import Rediska.Commands.Dispatch
import Rediska.Logic.TwoRuns

/-! Two runs of a handler side by side: whatever link between stores the operations of
a handler keep, the handler keeps. -/

namespace Rediska.Proofs
open Go Core Storage Commands Logic

variable {fails : Prop} {link : Store → Store → Prop} {env env' : Env} {t t' : Store} {args : List Bytes}

/-- Linked stores read the clock in the same way. -/
def KeepsTime (env env' : Env) (link : Store → Store → Prop) : Prop :=
  ∀ u u', link u u' → (u'.now env').1 = (u.now env).1 ∧ link (u.now env).2 (u'.now env').2

/-- Overwriting a key of the command keeps stores linked. -/
def KeepsSet (env env' : Env) (link : Store → Store → Prop) (args : List Bytes) : Prop :=
  ∀ key rest u u' value ttl, args = key :: rest → link u u' → link (u.set env key value ttl) (u'.set env' key value ttl)

theorem handleGet_together (linked : link t t')
    (get : ∀ key rest, args = key :: rest → Together fails link (t.get env key) (t'.get env' key)) :
    Together fails link (handleGet env t args) (handleGet env' t' args) := by
  unfold handleGet
  split
  next key =>
    refine (get key [] rfl).bind fun value u u' last => ?_
    cases value with
    | none => exact .ok last
    | some value => exact .ok last
  · exact .ok linked

theorem handleSet_together (unicode : env'.unicode = env.unicode) (linked : link t t') (set : KeepsSet env env' link args) :
    Together fails link (handleSet env t args) (handleSet env' t' args) := by
  have duration : setDuration env' = setDuration env := by
    unfold setDuration
    rw [unicode]
  unfold handleSet
  rw [duration]
  split
  · exact .ok (set _ _ _ _ _ _ rfl linked)
  · split
    · exact .ok linked
    · exact .ok (set _ _ _ _ _ _ rfl linked)
  · exact .ok linked

theorem handleExpire_together (linked : link t t')
    (get : ∀ key rest, args = key :: rest → Together fails link (t.get env key) (t'.get env' key)) (set : KeepsSet env env' link args) :
    Together fails link (handleExpire env t args) (handleExpire env' t' args) := by
  unfold handleExpire
  split
  next key amount =>
    split
    · exact .ok linked
    · refine (get key _ rfl).bind fun value u u' last => ?_
      cases value with
      | none => exact .ok last
      | some value => exact .ok (set _ _ _ _ _ _ rfl last)
  · exact .ok linked

theorem handleTTL_together (linked : link t t') (ttl : ∀ key rest, args = key :: rest →
      (t'.ttl env' key).1 = (t.ttl env key).1 ∧ link (t.ttl env key).2 (t'.ttl env' key).2) :
    Together fails link (handleTTL env t args) (handleTTL env' t' args) := by
  unfold handleTTL
  split
  next key =>
    obtain ⟨seconds, last⟩ := ttl key [] rfl
    dsimp only
    rw [seconds]
    exact .ok last
  · exact .ok linked

theorem untilExpiry_together (time : KeepsTime env env' link) (linked : link t t') (expiry : Option Int) :
    (untilExpiry env' t' expiry).1 = (untilExpiry env t expiry).1 ∧
      link (untilExpiry env t expiry).2 (untilExpiry env' t' expiry).2 := by
  cases expiry with
  | none => exact ⟨rfl, linked⟩
  | some deadline =>
    obtain ⟨reading, last⟩ := time t t' linked
    exact ⟨congrArg (Store.sub deadline) reading, last⟩

theorem handleIncr_together (linked : link t t')
    (getInt : ∀ key, args = [key] → Together fails link (t.getInt env key) (t'.getInt env' key))
    (time : KeepsTime env env' link) (set : KeepsSet env env' link args) :
    Together fails link (handleIncr env t args) (handleIncr env' t' args) := by
  unfold handleIncr
  split
  next key =>
    refine (getInt key rfl).bind fun read u u' last => ?_
    cases read with
    | notInteger => exact .ok last
    | absent => exact .ok (set _ _ _ _ _ _ rfl last)
    | value n expiry =>
      obtain ⟨ttl, last'⟩ := untilExpiry_together time last expiry
      dsimp only
      rw [ttl]
      exact .ok (set _ _ _ _ _ _ rfl last')
  · exact .ok linked

theorem handleAppend_together (linked : link t t')
    (append : ∀ key value, args = [key, value] → Together fails link (t.append env key value) (t'.append env' key value)) :
    Together fails link (handleAppend env t args) (handleAppend env' t' args) := by
  unfold handleAppend
  split
  next key value => exact (append key value rfl).bind fun newLen u u' last => .ok last
  · exact .ok linked

theorem handleDel_together (linked : link t t') (deleteOne : ∀ key ∈ args, ∀ state state' : Int × Store, state'.1 = state.1 →
      link state.2 state'.2 → (Store.deleteOne env' state' key).1 = (Store.deleteOne env state key).1 ∧
        link (Store.deleteOne env state key).2 (Store.deleteOne env' state' key).2) :
    Together fails link (handleDel env t args) (handleDel env' t' args) := by
  have deletes : ∀ (keys : List Bytes) (state state' : Int × Store), (∀ key ∈ keys, key ∈ args) → state'.1 = state.1 →
      link state.2 state'.2 → (keys.foldl (Store.deleteOne env') state').1 = (keys.foldl (Store.deleteOne env) state).1 ∧
        link (keys.foldl (Store.deleteOne env) state).2 (keys.foldl (Store.deleteOne env') state').2 := by
    intro keys
    induction keys with
    | nil => exact fun _ _ _ count linked => ⟨count, linked⟩
    | cons key rest ih =>
      intro state state' among count linked
      obtain ⟨count', linked'⟩ := deleteOne key (among key List.mem_cons_self) state state' count linked
      exact ih _ _ (fun k later => among k (List.mem_cons_of_mem key later)) count' linked'
  unfold handleDel
  split
  · exact .ok linked
  · obtain ⟨removed, last⟩ := deletes args (0, t) (0, t') (fun _ among => among) rfl linked
    dsimp only [Store.delete]
    rw [removed]
    exact .ok last

end Rediska.Proofs
