import Rediska.Cluster.Layout
import Rediska.Core.Resp
import Rediska.Storage.Evict

/-! The command table: names, key positions, and what the settings say. -/

namespace Rediska.Commands
open Go Core Storage Cluster

inductive CommandName where
  | get | set | expire | ttl | incr | append | pfadd | pfcount | pfmerge | del | object
  | ping | info | debug | cluster | expiry
  deriving DecidableEq, Repr

def CommandName.all : List CommandName :=
  [.get, .set, .expire, .ttl, .incr, .append, .pfadd, .pfcount, .pfmerge, .del, .object,
    .ping, .info, .debug, .cluster, .expiry]

/-- The name a command is registered under. -/
def CommandName.text : CommandName → Bytes
  | .get => ascii "GET"
  | .set => ascii "SET"
  | .expire => ascii "EXPIRE"
  | .ttl => ascii "TTL"
  | .incr => ascii "INCR"
  | .append => ascii "APPEND"
  | .pfadd => ascii "PFADD"
  | .pfcount => ascii "PFCOUNT"
  | .pfmerge => ascii "PFMERGE"
  | .del => ascii "DEL"
  | .object => ascii "OBJECT"
  | .ping => ascii "PING"
  | .info => ascii "INFO"
  | .debug => ascii "DEBUG"
  | .cluster => ascii "CLUSTER"
  | .expiry => ascii "_EXPIRY"

/-- `commands[name]` -/
def lookupCommand (name : Bytes) : Option CommandName := CommandName.all.find? fun c => c.text = name

def isKnownCommand (name : Bytes) : Bool := (lookupCommand name).isSome

def writeCommands : CommandName → Bool
  | .set | .expire | .incr | .append | .pfadd | .pfmerge | .del => true
  | _ => false

def denyOOMCommands : CommandName → Bool
  | .set | .incr | .append | .pfadd | .pfmerge => true
  | _ => false

structure Command where
  name : Bytes
  args : List Bytes
  deriving DecidableEq, Repr

structure KeySpec where
  first : Int
  last : Int
  step : Nat

def noKeys : KeySpec := ⟨0, 0, 0⟩

def keySpecs : CommandName → KeySpec
  | .get | .set | .expire | .ttl | .incr | .append | .pfadd => ⟨1, 1, 1⟩
  | .pfcount | .pfmerge | .del => ⟨1, -1, 1⟩
  | .object => ⟨2, 2, 1⟩
  | .ping | .info | .debug | .cluster | .expiry => noKeys

/-- The positions `first, first + 1, …` up to the last one, each of them an argument.
Every key spec with keys has step 1. -/
def keysOf (cmd : Command) : List Bytes :=
  match lookupCommand cmd.name with
  | none => []
  | some name =>
    let spec := keySpecs name
    if spec.first = 0 then []
    else
      let argc : Int := cmd.args.length + 1
      let last := if spec.last < 0 then argc + spec.last else spec.last
      (cmd.args.take (min last (argc - 1)).toNat).drop (spec.first - 1).toNat

structure Config where
  maxMemory : Int
  maxMemoryPolicy : Policy
  maxMemorySamples : Int
  clusterEnabled : Bool
  current : Option Layout

/-- The settings of a server started without options. -/
def Config.plain : Config := ⟨0, .noeviction, 5, false, none⟩

/-- `checkKeys`: `none` lets the command run here. -/
def checkKeys (cfg : Config) (keys : List Bytes) : Option Bytes :=
  match cfg.current, keys with
  | none, _ => none
  | _, [] => none
  | some layout, key :: rest =>
    let slot := keyHashSlot key
    if rest.any (fun k => keyHashSlot k ≠ slot) then
      some (encodeError (ascii "CROSSSLOT Keys in request don't hash to the same slot"))
    else
      match layout.owner slot with
      | none => some (encodeError (ascii "CLUSTERDOWN Hash slot not served"))
      | some owner =>
        if owner ≠ layout.self then
          some (encodeError (ascii "MOVED " ++ itoa slot ++ ascii " " ++ (layout.nodes.get owner).addr))
        else none

def checkCluster (cfg : Config) (cmd : Command) : Option Bytes := checkKeys cfg (keysOf cmd)

def checkClusterBatch (cfg : Config) (cmds : List Command) : Option Bytes := checkKeys cfg (cmds.flatMap keysOf)

/-- The name a value's type has in an error text. -/
def typeName : Value → Bytes
  | .str _ => ascii "string"
  | .int _ => ascii "int64"
  | .arr _ => ascii "[]interface " ++ [123, 125]

def stringsOf (index : Nat) : List Value → Except Bytes (List Bytes)
  | [] => .ok []
  | .str s :: rest => do
    let parts ← stringsOf (index + 1) rest
    .ok (s :: parts)
  | v :: _ => .error (ascii "expected bulk string at index " ++ itoa index ++ ascii ", got " ++ typeName v)

/-- The error is the text behind "ERR ". -/
def parseCommand (unicode : CaseTable) (decoded : Value) : Except Bytes Command :=
  match decoded with
  | .arr [] => .error (ascii "empty command")
  | .arr values => do
    let parts ← stringsOf 0 values
    match parts with
    | [] => .error (ascii "empty command")
    | name :: args => .ok ⟨toUpper unicode name, args⟩
  | other => .error (ascii "expected array, got " ++ typeName other)

end Rediska.Commands
