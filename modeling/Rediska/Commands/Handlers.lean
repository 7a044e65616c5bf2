import Mathlib.Data.List.Sort
import Rediska.Commands.Table

/-! The command handlers. Each returns the encoded reply and the store it leaves. -/

namespace Rediska.Commands
open Go Core Storage Cluster

section
variable (env : Env) (s : Store) (args : List Bytes)

def errorReply (text : String) : Bytes := encodeError (ascii text)

def handleGet : Panics (Bytes × Store) :=
  match args with
  | [key] => do
    let (value, s) ← s.get env key
    match value with
    | none => .ok (encodeNullBulkString, s)
    | some value => .ok (encodeBulkString value, s)
  | _ => .ok (errorReply "ERR wrong number of arguments for 'get' command", s)

def second : Int := 1000000000
def millisecond : Int := 1000000

/-- The duration of the last two arguments, which may have wrapped around. -/
def setDuration (option amount : Bytes) : Except Bytes Int :=
  match atoi amount with
  | none => .error (errorReply "ERR invalid expire time in 'set' command")
  | some n =>
    if n ≤ 0 then .error (errorReply "ERR invalid expire time in 'set' command")
    else if toUpper env.unicode option = ascii "EX" then .ok (wrap64 (n * second))
    else if toUpper env.unicode option = ascii "PX" then .ok (wrap64 (n * millisecond))
    else .error (errorReply "ERR syntax error")

def handleSet : Panics (Bytes × Store) :=
  match args with
  | [key, value] => .ok (encodeSimpleString (ascii "OK"), s.set env key value 0)
  | [key, value, option, amount] =>
    match setDuration env option amount with
    | .error reply => .ok (reply, s)
    | .ok ttl => .ok (encodeSimpleString (ascii "OK"), s.set env key value ttl)
  | _ => .ok (errorReply "ERR wrong number of arguments for 'set' command", s)

def handleExpire : Panics (Bytes × Store) :=
  match args with
  | [key, amount] =>
    match atoi amount with
    | none => .ok (errorReply "ERR invalid expire time for EXPIRE command", s)
    | some n => do
      let (value, s) ← s.get env key
      match value with
      | none => .ok (errorReply "Cannot find key in the hashmap", s)
      | some value => .ok (encodeInteger 1, s.set env key value (wrap64 (n * second)))
  | _ => .ok (errorReply "ERR wrong number of arguments for EXPIRE command", s)

def handleTTL : Panics (Bytes × Store) :=
  match args with
  | [key] =>
    let (seconds, s) := s.ttl env key
    .ok (encodeInteger seconds, s)
  | _ => .ok (errorReply "ERR wrong number of arguments for 'ttl' command", s)

/-- `time.Until` of a deadline; a key without one keeps none. -/
def untilExpiry (expiry : Option Int) : Int × Store :=
  match expiry with
  | none => (0, s)
  | some deadline =>
    let (now, s) := s.now env
    (Store.sub deadline now, s)

def handleIncr : Panics (Bytes × Store) :=
  match args with
  | [key] => do
    let (read, s) ← s.getInt env key
    match read with
    | .notInteger => .ok (errorReply "ERR while incrementing", s)
    | .absent => .ok (encodeInteger 1, s.set env key (itoa 1) 0)
    | .value n expiry =>
      let (ttl, s) := untilExpiry env s expiry
      let n := wrap64 (n + 1)
      .ok (encodeInteger n, s.set env key (itoa n) ttl)
  | _ => .ok (errorReply "ERR incorrect arguments for INCR", s)

def handleAppend : Panics (Bytes × Store) :=
  match args with
  | [key, value] => do
    let (newLen, s) ← s.append env key value
    .ok (encodeInteger newLen, s)
  | _ => .ok (errorReply "ERR wrong number of arguments for 'append' command", s)

def handlePFAdd : Panics (Bytes × Store) :=
  match args with
  | [] => .ok (errorReply "Incorrect number of arguments for pfadd", s)
  | key :: values => do
    let (changed, s) ← s.pfAdd env key values
    match changed with
    | none => .ok (errorReply "WRONGTYPE Key is not a valid HyperLogLog string value.", s)
    | some true => .ok (encodeInteger 1, s)
    | some false => .ok (encodeInteger 0, s)

def handlePFCount : Panics (Bytes × Store) :=
  match args with
  | [key] => do
    let (count, s) ← s.pfCount env key
    .ok (encodeInteger count, s)
  | _ => .ok (errorReply "Incorrect number of arguments for PFCount", s)

def handlePFMerge : Panics (Bytes × Store) :=
  match args with
  | [] => .ok (errorReply "Incorrect number of arguments for PFMerge", s)
  | dest :: sources => do
    let s ← s.pfMerge env dest sources
    .ok (encodeSimpleString (ascii "OK"), s)

def handleDel : Panics (Bytes × Store) :=
  match args with
  | [] => .ok (errorReply "ERR wrong number of arguments for 'del' command", s)
  | keys =>
    let (removed, s) := s.delete env keys
    .ok (encodeInteger removed, s)

/-- A sketch has no name here and ends in the last error. -/
def encodingReply : Option Encoding → Bytes
  | none => errorReply "ERR no such key"
  | some .int => encodeBulkString (ascii "int")
  | some .embstr => encodeBulkString (ascii "embstr")
  | some .raw => encodeBulkString (ascii "str")
  | some .hll => errorReply "ERR unknown encoding"

def freqReply : Store.FreqRead → Bytes
  | .policyNotLFU => errorReply ("ERR An LFU maxmemory policy is not selected, access frequency not tracked. " ++
      "Please note that when switching between maxmemory policies at runtime LFU and LRU data will take some time to adjust.")
  | .absent => errorReply "ERR no such key"
  | .freq counter => encodeInteger counter.toNat

def handleObject : Panics (Bytes × Store) :=
  match args with
  | sub :: key :: _ =>
    let subcommand := toUpper env.unicode sub
    if subcommand = ascii "ENCODING" then
      let (enc, s) := s.getEncoding env key
      .ok (encodingReply enc, s)
    else if subcommand = ascii "FREQ" then
      let (freq, s) := s.getFreq env key
      .ok (freqReply freq, s)
    else .ok (errorReply "ERR unknown subcommand for 'object'", s)
  | _ => .ok (errorReply "ERR wrong number of arguments for 'object' command", s)

def handlePing : Bytes :=
  match args with
  | [] => encodeSimpleString (ascii "PONG")
  | [payload] => encodeBulkString payload
  | _ => errorReply "ERR wrong number of arguments for 'ping' command"

variable (cfg : Config)

def infoCluster : Bytes :=
  ascii "# Cluster\r\ncluster_enabled:" ++ itoa (if cfg.clusterEnabled then 1 else 0) ++ crlf

/-- The counters "expires" and "avg_ttl" are never set. -/
def infoKeyspace : Bytes :=
  ascii "# Keyspace\r\ndb0:keys=" ++ itoa s.keys ++ ascii ",expires=" ++ itoa 0 ++ ascii ",avg_ttl=" ++ itoa 0 ++ crlf

def handleInfo : Bytes :=
  let requested := match args with
    | [] => ascii "all"
    | name :: _ => toLower env.unicode name
  if requested = ascii "cluster" then encodeBulkString (infoCluster cfg)
  else if requested = ascii "keyspace" then encodeBulkString (infoKeyspace s)
  else if requested = ascii "all" then encodeBulkString (infoCluster cfg ++ crlf ++ infoKeyspace s)
  else encodeBulkString []

def handleDebug : Bytes :=
  match args with
  | [] => errorReply "ERR DEBUG subcommand required"
  | sub :: _ =>
    if toUpper env.unicode sub = ascii "MEMORY" then encodeInteger s.usedMemory
    else if toUpper env.unicode sub = ascii "KEYS" then encodeInteger s.data.keys.length
    else encodeError (ascii "ERR unknown DEBUG subcommand '" ++ sub ++ ascii "'")

end

/-! CLUSTER. -/

/-- An address without a colon would be sliced out of bounds. -/
def splitAddr (addr : Bytes) : Panics (Bytes × Int) :=
  match lastIndexByte addr 58 with
  | none => .error .sliceBounds
  | some i => .ok (addr.take i, (atoi (addr.drop (i + 1))).getD 0)

/-- Ranges never share a slot, so their starts order them in one way only. -/
def slotEntries (l : Layout) : List (SlotRange × Node) :=
  (l.nodes.flatMap fun n => n.slots.map fun r => (r, n)).insertionSort fun a b => a.1.first ≤ b.1.first

def slotEntryReply (entry : SlotRange × Node) : Panics Bytes := do
  let (host, port) ← splitAddr entry.2.addr
  let owner := encodeRawArray [encodeBulkString host, encodeInteger port, encodeBulkString entry.2.id, encodeRawArray []]
  .ok (encodeRawArray [encodeInteger entry.1.first, encodeInteger entry.1.last, owner])

def clusterSlots (l : Layout) : Panics Bytes := do
  let out ← (slotEntries l).mapM slotEntryReply
  .ok (encodeRawArray out)

def rangeText (r : SlotRange) : Bytes :=
  if r.first = r.last then ascii " " ++ itoa r.first else ascii " " ++ itoa r.first ++ ascii "-" ++ itoa r.last

def nodeLine (l : Layout) (index : Nat) (n : Node) : Panics Bytes := do
  let (host, port) ← splitAddr n.addr
  let flags := if index = l.self.val then ascii "myself,master" else ascii "master"
  .ok (n.id ++ ascii " " ++ host ++ ascii ":" ++ itoa port ++ ascii "@" ++ itoa (wrap64 (port + 10000)) ++ ascii " " ++ flags ++
    ascii " - 0 0 " ++ itoa (index + 1) ++ ascii " connected" ++ n.slots.flatMap rangeText ++ [lf])

def clusterNodes (l : Layout) : Panics Bytes := do
  let lines ← l.nodes.zipIdx.mapM fun (n, index) => nodeLine l index n
  .ok lines.flatten

def clusterInfo (l : Layout) : Bytes :=
  let assigned := (l.nodes.flatMap fun n => n.slots.map fun r => r.last - r.first + 1).sum
  let size := l.nodes.countP fun n => n.slots ≠ []
  let state := if assigned < numSlots then ascii "fail" else ascii "ok"
  ascii "cluster_state:" ++ state ++ crlf ++
    ascii "cluster_slots_assigned:" ++ itoa assigned ++ crlf ++
    ascii "cluster_slots_ok:" ++ itoa assigned ++ crlf ++
    ascii "cluster_slots_pfail:0" ++ crlf ++
    ascii "cluster_slots_fail:0" ++ crlf ++
    ascii "cluster_known_nodes:" ++ itoa l.nodes.length ++ crlf ++
    ascii "cluster_size:" ++ itoa size ++ crlf ++
    ascii "cluster_current_epoch:" ++ itoa l.nodes.length ++ crlf ++
    ascii "cluster_my_epoch:" ++ itoa (l.self.val + 1) ++ crlf

/-- `cluster.Current` where it must not be nil. -/
def currentLayout (cfg : Config) : Panics Layout :=
  match cfg.current with
  | none => .error .nilDereference
  | some layout => .ok layout

def handleCluster (env : Env) (cfg : Config) (args : List Bytes) : Panics Bytes :=
  if ¬ cfg.clusterEnabled then .ok (errorReply "ERR This instance has cluster support disabled")
  else
    match args with
    | [] => .ok (errorReply "ERR wrong number of arguments for 'cluster' command")
    | first :: rest =>
      let sub := toUpper env.unicode first
      if sub ≠ ascii "KEYSLOT" ∧ rest ≠ [] then
        .ok (encodeError (ascii "ERR wrong number of arguments for 'cluster|" ++ toLower env.unicode sub ++ ascii "' command"))
      else if sub = ascii "KEYSLOT" then
        match rest with
        | [key] => .ok (encodeInteger (keyHashSlot key))
        | _ => .ok (errorReply "ERR wrong number of arguments for 'cluster|keyslot' command")
      else if sub = ascii "MYID" then do
        let l ← currentLayout cfg
        .ok (encodeBulkString (l.nodes.get l.self).id)
      else if sub = ascii "SLOTS" then do
        let l ← currentLayout cfg
        clusterSlots l
      else if sub = ascii "NODES" then do
        let l ← currentLayout cfg
        let text ← clusterNodes l
        .ok (encodeBulkString text)
      else if sub = ascii "INFO" then do
        let l ← currentLayout cfg
        .ok (encodeBulkString (clusterInfo l))
      else .ok (encodeError (ascii "ERR unknown subcommand '" ++ first ++ ascii "'. Try CLUSTER HELP."))

end Rediska.Commands
