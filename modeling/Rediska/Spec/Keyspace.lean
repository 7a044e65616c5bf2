import Rediska.Commands.Handlers
import Rediska.Hll.Table

/-! What the store is for: a map from keys to values with deadlines. Stamps, sizes,
capacities and the form of a sketch are gone; a sketch is its table. -/

namespace Rediska.Spec
open Go Core Hll Storage Commands

inductive Content where
  | int (n : Int)
  | embstr (text : Bytes)
  | raw (text : Bytes)
  | sketch (table : Table)

structure Item where
  content : Content
  deadline : Option Int

abbrev Keyspace := Bytes → Option Item

/-- What the rest of the process adds: whether stamping an access divides by zero, and
the estimator. -/
structure Rules where
  fragile : Bool
  estimate : List Nat → Nat

def Item.dead (now : Int) (item : Item) : Bool :=
  match item.deadline with
  | none => false
  | some deadline => deadline ≤ now

def Content.encoding : Content → Encoding
  | .int _ => .int
  | .embstr _ => .embstr
  | .raw _ => .raw
  | .sketch _ => .hll

/-- The text of a string value. -/
def Content.text : Content → Option Bytes
  | .int n => some (itoa n)
  | .embstr text => some text
  | .raw text => some text
  | .sketch _ => none

def detect (value : Bytes) : Content :=
  match parseInt value with
  | some n => .int n
  | none => if value.length ≤ 44 then .embstr value else .raw value

namespace Keyspace
variable (rules : Rules) (now : Int) (K : Keyspace)

def put (key : Bytes) (item : Item) : Keyspace := Function.update K key (some item)

def drop (key : Bytes) : Keyspace := Function.update K key none

theorem put_apply (key : Bytes) (item : Item) (j : Bytes) : K.put key item j = if j = key then some item else K j :=
  Function.update_apply K key (some item) j

theorem put_self (key : Bytes) (item : Item) : K.put key item key = some item := by
  rw [put_apply, if_pos rfl]

theorem drop_apply (key j : Bytes) : K.drop key j = if j = key then none else K j := Function.update_apply K key none j

/-- The entries not yet expired. -/
def live : Keyspace := fun key => (K key).filter fun item => ! item.dead now

def touch : Panics Unit := if rules.fragile then .error .divideByZero else .ok ()

/-- A dead item is dropped when it is met. -/
def find (key : Bytes) : Option Item × Keyspace :=
  match K key with
  | none => (none, K)
  | some item => if item.dead now then (none, K.drop key) else (some item, K)

def get (key : Bytes) : Panics (Option Bytes × Keyspace) :=
  match K.find now key with
  | (none, K) => .ok (none, K)
  | (some item, K) => do
    touch rules
    .ok (item.content.text, K)

def getInt (key : Bytes) : Panics (Store.IntRead × Keyspace) :=
  match K.find now key with
  | (none, K) => .ok (.absent, K)
  | (some item, K) => do
    touch rules
    match item.content with
    | .int n => .ok (.value n item.deadline, K)
    | _ => .ok (.notInteger, K)

def getEncoding (key : Bytes) : Option Encoding × Keyspace :=
  let (item, K) := K.find now key
  (item.map fun item => item.content.encoding, K)

def ttl (key : Bytes) : Int × Keyspace :=
  match K key with
  | none => (-2, K)
  | some item =>
    match item.deadline with
    | none => (-1, K)
    | some deadline =>
      let remaining := Store.sub deadline now
      if remaining ≤ 0 then (-2, K.drop key) else ((remaining.tdiv 1000000 + 500).tdiv 1000, K)

def set (key value : Bytes) (duration : Int) : Keyspace :=
  K.put key ⟨detect value, if 0 < duration then some (now + duration) else none⟩

/-- Appending does not look at the deadline, and a sketch has nothing to append to. -/
def append (key value : Bytes) : Panics (Int × Keyspace) :=
  match K key with
  | none => .ok (value.length, K.put key ⟨detect value, none⟩)
  | some item =>
    match item.content.text with
    | none => .error .nilDereference
    | some text => do
      touch rules
      .ok ((text ++ value).length, K.put key ⟨.raw (text ++ value), item.deadline⟩)

/-- The table after adding values to it. -/
def joinAll (table : Table) (values : List Bytes) : Table := values.foldl (fun table v => table ⊔ point v) table

open Classical in
noncomputable def pfAdd (key : Bytes) (values : List Bytes) : Panics (Option Bool × Keyspace) :=
  match K.find now key with
  | (none, K) => .ok (some true, K.put key ⟨.sketch (joinAll ⊥ values), none⟩)
  | (some item, K) =>
    match item.content with
    | .sketch table => do
      touch rules
      .ok (some (decide (table < joinAll table values)), K.put key ⟨.sketch (joinAll table values), item.deadline⟩)
    | _ => .ok (none, K)

/-- Counting looks at no deadline either. -/
def pfCount (key : Bytes) : Int :=
  match K key with
  | some ⟨.sketch table, _⟩ => wrap64 (rules.estimate (histogram table))
  | _ => 0

def tableAt (key : Bytes) : Table :=
  match K key with
  | some ⟨.sketch table, _⟩ => table
  | _ => ⊥

/-- Nor does merging: the sketches of all the keys, dead or alive. -/
def union (keys : List Bytes) : Table := keys.foldl (fun table key => table ⊔ K.tableAt key) ⊥

def pfMerge (dest : Bytes) (sources : List Bytes) : Keyspace := K.put dest ⟨.sketch (K.union (dest :: sources)), none⟩

def deleteOne (removed : Int) (key : Bytes) : Int × Keyspace :=
  match K key with
  | none => (removed, K)
  | some item => (if item.dead now then removed else removed + 1, K.drop key)

/-- The clock is read anew for each key. -/
def delete (clock : Nat → Int) (i : Nat) (removed : Int) (K : Keyspace) : List Bytes → Int × Keyspace
  | [] => (removed, K)
  | key :: rest =>
    let (removed, K) := K.deleteOne (clock i) removed key
    delete clock (i + 1) removed K rest

end Keyspace

/-- A well-formed data command. -/
inductive Request where
  | get (key : Bytes)
  | set (key value : Bytes) (duration : Int)
  | expire (key : Bytes) (duration : Int)
  | ttl (key : Bytes)
  | incr (key : Bytes)
  | append (key value : Bytes)
  | pfadd (key : Bytes) (values : List Bytes)
  | pfcount (key : Bytes)
  | pfmerge (dest : Bytes) (sources : List Bytes)
  | del (keys : List Bytes)
  | encoding (key : Bytes)

/-- The command that makes such requests. -/
def Request.command : Request → CommandName
  | .get .. => .get
  | .set .. => .set
  | .expire .. => .expire
  | .ttl .. => .ttl
  | .incr .. => .incr
  | .append .. => .append
  | .pfadd .. => .pfadd
  | .pfcount .. => .pfcount
  | .pfmerge .. => .pfmerge
  | .del .. => .del
  | .encoding .. => .object

/-- The commands that read or write keys. -/
def isData : CommandName → Bool
  | .get | .set | .expire | .ttl | .incr | .append | .pfadd | .pfcount | .pfmerge | .del | .object => true
  | .ping | .info | .debug | .cluster | .expiry => false

/-- The request a data command makes, if its arguments are in order. `OBJECT FREQ` asks
for a stamp, which the keyspace does not have. -/
def requestOf (env : Env) : CommandName → List Bytes → Option Request
  | .get, [key] => some (.get key)
  | .set, [key, value] => some (.set key value 0)
  | .set, [key, value, option, amount] =>
    match setDuration env option amount with
    | .error _ => none
    | .ok duration => some (.set key value duration)
  | .expire, [key, amount] => (atoi amount).map fun n => .expire key (wrap64 (n * second))
  | .ttl, [key] => some (.ttl key)
  | .incr, [key] => some (.incr key)
  | .append, [key, value] => some (.append key value)
  | .pfadd, key :: values => some (.pfadd key values)
  | .pfcount, [key] => some (.pfcount key)
  | .pfmerge, dest :: sources => some (.pfmerge dest sources)
  | .del, key :: keys => some (.del (key :: keys))
  | .object, sub :: key :: _ => if toUpper env.unicode sub = ascii "ENCODING" then some (.encoding key) else none
  | _, _ => none

theorem requestOf_command {env : Env} {name : CommandName} {args : List Bytes} {request : Request}
    (asked : requestOf env name args = some request) : name = request.command := by
  unfold requestOf at asked
  split at asked
  case h_3 =>
    split at asked
    · cases asked
    · cases asked
      rfl
  case h_4 amount =>
    cases read : atoi amount <;> (rw [read] at asked; cases asked)
    rfl
  case h_12 =>
    split at asked
    · cases asked
      rfl
    · cases asked
  case h_13 => cases asked
  all_goals
    cases asked
    rfl

def getReply : Option Bytes → Bytes
  | none => encodeNullBulkString
  | some value => encodeBulkString value

def addReply : Option Bool → Bytes
  | none => errorReply "WRONGTYPE Key is not a valid HyperLogLog string value."
  | some true => encodeInteger 1
  | some false => encodeInteger 0

/-- The duration that leads to the same deadline again. -/
def timeLeft (deadline : Option Int) (now : Int) : Int :=
  match deadline with
  | none => 0
  | some deadline => Store.sub deadline now

/-- Reply and effect of a request. `clock` gives the readings the request makes on
behalf of deadlines, in order. -/
noncomputable def Request.run (rules : Rules) (clock : Nat → Int) (K : Keyspace) : Request → Panics (Bytes × Keyspace)
  | .get key => do
    let (value, K) ← K.get rules (clock 0) key
    .ok (getReply value, K)
  | .set key value duration => .ok (encodeSimpleString (ascii "OK"), K.set (clock 0) key value duration)
  | .expire key duration => do
    let (value, K) ← K.get rules (clock 0) key
    match value with
    | none => .ok (errorReply "Cannot find key in the hashmap", K)
    | some value => .ok (encodeInteger 1, K.set (clock 1) key value duration)
  | .ttl key => .ok (encodeInteger (K.ttl (clock 0) key).1, (K.ttl (clock 0) key).2)
  | .incr key => do
    let (read, K) ← K.getInt rules (clock 0) key
    match read with
    | .notInteger => .ok (errorReply "ERR while incrementing", K)
    | .absent => .ok (encodeInteger 1, K.set (clock 2) key (itoa 1) 0)
    | .value n deadline =>
      .ok (encodeInteger (wrap64 (n + 1)), K.set (clock 2) key (itoa (wrap64 (n + 1))) (timeLeft deadline (clock 1)))
  | .append key value => do
    let (newLen, K) ← K.append rules key value
    .ok (encodeInteger newLen, K)
  | .pfadd key values => do
    let (changed, K) ← K.pfAdd rules (clock 0) key values
    .ok (addReply changed, K)
  | .pfcount key => .ok (encodeInteger (K.pfCount rules key), K)
  | .pfmerge dest sources => .ok (encodeSimpleString (ascii "OK"), K.pfMerge dest sources)
  | .del keys => .ok (encodeInteger (Keyspace.delete clock 0 0 K keys).1, (Keyspace.delete clock 0 0 K keys).2)
  | .encoding key => .ok (encodingReply (K.getEncoding (clock 0) key).1, (K.getEncoding (clock 0) key).2)

/-! Which requests return. -/

/-- Appending to a key that holds a sketch. -/
def Request.appendsToSketch (K : Keyspace) : Request → Prop
  | .append key _ => ∃ item, K key = some item ∧ item.content.text = none
  | _ => False

section
variable {rules : Rules} (steady : rules.fragile = false) (now : Int) (K : Keyspace) (key : Bytes)
include steady

theorem touch_steady : Keyspace.touch rules = .ok () := by
  rw [Keyspace.touch, steady]
  rfl

theorem Keyspace.get_returns : ∃ result, K.get rules now key = .ok result := by
  unfold Keyspace.get
  rw [touch_steady steady]
  split <;> exact ⟨_, rfl⟩

theorem Keyspace.getInt_returns : ∃ result, K.getInt rules now key = .ok result := by
  unfold Keyspace.getInt
  rw [touch_steady steady]
  split
  · exact ⟨_, rfl⟩
  next item _ _ => cases item.content <;> exact ⟨_, rfl⟩

theorem Keyspace.pfAdd_returns (values : List Bytes) : ∃ result, K.pfAdd rules now key values = .ok result := by
  unfold Keyspace.pfAdd
  rw [touch_steady steady]
  split
  · exact ⟨_, rfl⟩
  next item _ _ => cases item.content <;> exact ⟨_, rfl⟩

theorem Keyspace.append_returns (value : Bytes) (texts : ∀ item, K key = some item → item.content.text ≠ none) :
    ∃ result, K.append rules key value = .ok result := by
  unfold Keyspace.append
  rw [touch_steady steady]
  split
  · exact ⟨_, rfl⟩
  next item held =>
    split
    next nothing => exact absurd nothing (texts item held)
    · exact ⟨_, rfl⟩

theorem Request.run_returns (clock : Nat → Int) {request : Request} (harmless : ¬ request.appendsToSketch K) :
    ∃ result, request.run rules clock K = .ok result := by
  cases request with
  | get key =>
    obtain ⟨result, ran⟩ := Keyspace.get_returns steady (clock 0) K key
    exact ⟨_, by simp only [Request.run, ran, ok_bind]; rfl⟩
  | expire key duration =>
    obtain ⟨⟨value, left⟩, ran⟩ := Keyspace.get_returns steady (clock 0) K key
    simp only [Request.run, ran, ok_bind]
    cases value <;> exact ⟨_, rfl⟩
  | incr key =>
    obtain ⟨⟨read, left⟩, ran⟩ := Keyspace.getInt_returns steady (clock 0) K key
    simp only [Request.run, ran, ok_bind]
    cases read <;> exact ⟨_, rfl⟩
  | append key value =>
    obtain ⟨result, ran⟩ := Keyspace.append_returns steady K key value fun item held nothing => harmless ⟨item, held, nothing⟩
    exact ⟨_, by simp only [Request.run, ran, ok_bind]; rfl⟩
  | pfadd key values =>
    obtain ⟨result, ran⟩ := Keyspace.pfAdd_returns steady (clock 0) K key values
    exact ⟨_, by simp only [Request.run, ran, ok_bind]; rfl⟩
  | set | ttl | pfcount | pfmerge | del | encoding => exact ⟨_, rfl⟩

end

end Rediska.Spec
