import Rediska.Cluster.Slot
import Rediska.Go.Strconv

/-! The cluster layout file. Nodes are known by their position in it, which stands for
the identity of a node's pointer. -/

namespace Rediska.Cluster
open Go

structure SlotRange where
  first : Nat
  last : Nat
  deriving DecidableEq, Repr

/-- Addresses come from one field of a line and have passed `SplitHostPort`. -/
structure Node where
  name : Bytes
  addr : Bytes
  port : Int
  id : Bytes
  slots : List SlotRange
  oneLine : cr ∉ addr ∧ lf ∉ addr
  hasPort : 58 ∈ addr

structure Layout where
  nodes : List Node
  self : Fin nodes.length
  slotOwner : Nat → Option (Fin nodes.length)

/-- What is wrong with a layout file, with the line and the words the message names. -/
inductive LayoutError where
  | missingFields (lineNo : Nat)
  | duplicateName (lineNo : Nat) (name : Bytes)
  | duplicateAddress (lineNo : Nat) (addr : Bytes)
  | badAddress (lineNo : Nat) (addr : Bytes)
  | badPort (lineNo : Nat) (addr : Bytes)
  | badSlot (lineNo : Nat) (spec : Bytes)
  | badSlotRange (lineNo : Nat) (spec : Bytes)
  | outsideSlots (lineNo : Nat) (spec : Bytes)
  | claimedTwice (lineNo slot : Nat) (previous name : Bytes)
  | portTwice (port : Int)
  | lineTooLong
  | noNodes
  | selfNotFound (port : Int)
  deriving DecidableEq, Repr

def Layout.owner (l : Layout) (slot : Nat) : Option (Fin l.nodes.length) :=
  if numSlots ≤ slot then none else l.slotOwner slot

/-- The same of any `int`: nobody owns a slot that does not exist. -/
def Layout.ownerOf (l : Layout) (slot : Int) : Option (Fin l.nodes.length) :=
  if slot < 0 ∨ (numSlots : Int) ≤ slot then none else l.slotOwner slot.toNat

/-- `net.SplitHostPort`, of which only the port is used. -/
def splitHostPort (hostport : Bytes) : Option Bytes := do
  let i ← lastIndexByte hostport 58
  let port := hostport.drop (i + 1)
  if hostport.head? = some 91 then
    let close ← indexByte hostport 93
    if close + 1 ≠ i then none
    else if (indexByte (hostport.drop 1) 91).isSome then none
    else if (indexByte (hostport.drop (close + 1)) 93).isSome then none
    else some port
  else if (indexByte (hostport.take i) 58).isSome then none
  else if (indexByte hostport 91).isSome then none
  else if (indexByte hostport 93).isSome then none
  else some port

theorem splitHostPort_hasPort {hostport port : Bytes} (split : splitHostPort hostport = some port) : 58 ∈ hostport := by
  by_contra absent
  rw [splitHostPort, lastIndexByte_none.mpr absent] at split
  cases split

def parseRange (lineNo : Nat) (spec : Bytes) : Except LayoutError SlotRange := do
  let (lo, hi, isRange) := cut spec 45
  let start ← match atoi lo with
    | none => .error (.badSlot lineNo spec)
    | some n => .ok n
  let stop ← if isRange then
      match atoi hi with
      | none => .error (.badSlotRange lineNo spec)
      | some n => .ok n
    else .ok start
  if start < 0 ∨ (numSlots : Int) ≤ stop ∨ stop < start then .error (.outsideSlots lineNo spec)
  else .ok ⟨start.toNat, stop.toNat⟩

/-- What has been read so far. `self` is the node with this server's port, once seen. -/
structure Partial where
  nodes : List Node
  self : Option (Fin nodes.length)
  slotOwner : Nat → Option (Fin nodes.length)

/-- The slots of one range are claimed one after the other, for the node behind those
already there. -/
def claimSlots (lineNo : Nat) (nodes : List Node) (name : Bytes) (slotOwner : Nat → Option (Fin (nodes.length + 1))) :
    List Nat → Except LayoutError (Nat → Option (Fin (nodes.length + 1)))
  | [] => .ok slotOwner
  | slot :: rest =>
    match slotOwner slot with
    | some previous =>
      -- a slot the line itself has claimed belongs to the node being read
      .error (.claimedTwice lineNo slot ((nodes[previous.val]?.map Node.name).getD name) name)
    | none => claimSlots lineNo nodes name (fun i => if i = slot then some (Fin.last _) else slotOwner i) rest

def claimRanges (lineNo : Nat) (nodes : List Node) (name : Bytes) (slotOwner : Nat → Option (Fin (nodes.length + 1))) :
    List Bytes → Except LayoutError ((Nat → Option (Fin (nodes.length + 1))) × List SlotRange)
  | [] => .ok (slotOwner, [])
  | spec :: rest => do
    let range ← parseRange lineNo spec
    let slotOwner ← claimSlots lineNo nodes name slotOwner (List.range' range.first (range.last - range.first + 1))
    let (slotOwner, slots) ← claimRanges lineNo nodes name slotOwner rest
    .ok (slotOwner, range :: slots)

/-- `l.Nodes = append(l.Nodes, n)`, and `l.Self = n` if the port is this server's. -/
def Partial.addNode (l : Partial) (myPort : Int) (n : Node) (slotOwner : Nat → Option (Fin (l.nodes.length + 1))) :
    Except LayoutError Partial :=
  have size : l.nodes.length + 1 = (l.nodes ++ [n]).length := by simp
  let owners := fun slot => (slotOwner slot).map (Fin.cast size)
  if n.port = myPort then
    if l.self.isSome then .error (.portTwice n.port)
    else .ok ⟨l.nodes ++ [n], some (Fin.cast size (Fin.last _)), owners⟩
  else .ok ⟨l.nodes ++ [n], l.self.map fun i => Fin.cast size i.castSucc, owners⟩

def stripComment (line : Bytes) : Bytes :=
  match indexByte line 35 with
  | some i => line.take i
  | none => line

/-- `nodeID` is the hexadecimal SHA-1 of the name. -/
def parseLine (nodeID : Bytes → Bytes) (myPort : Int) (lineNo : Nat) (l : Partial) (line : Bytes) :
    Except LayoutError Partial :=
  match split : fields (stripComment line) with
  | [] => .ok l
  | name :: addr :: spec :: specs =>
    if l.nodes.any (fun n => n.name = name) then .error (.duplicateName lineNo name)
    else if l.nodes.any (fun n => n.addr = addr) then .error (.duplicateAddress lineNo addr)
    else
      match found : splitHostPort addr with
      | none => .error (.badAddress lineNo addr)
      | some portStr =>
        match atoi portStr with
        | none => .error (.badPort lineNo addr)
        | some port => do
          let (slotOwner, slots) ← claimRanges lineNo l.nodes name (fun slot => (l.slotOwner slot).map Fin.castSucc) (spec :: specs)
          have oneLine : cr ∉ addr ∧ lf ∉ addr := fields_line (stripComment line) addr (by simp [split])
          l.addNode myPort ⟨name, addr, port, nodeID name, slots, oneLine, splitHostPort_hasPort found⟩ slotOwner
  | _ => .error (.missingFields lineNo)

def parseLines (nodeID : Bytes → Bytes) (myPort : Int) (lineNo : Nat) (l : Partial) :
    List Bytes → Except LayoutError Partial
  | [] => .ok l
  | line :: rest => do
    let l ← parseLine nodeID myPort (lineNo + 1) l line
    parseLines nodeID myPort (lineNo + 1) l rest

def parseLayout (nodeID : Bytes → Bytes) (file : Bytes) (myPort : Int) : Except LayoutError Layout := do
  let (lines, tooLong) := scanLines file
  let l ← parseLines nodeID myPort 0 ⟨[], none, fun _ => none⟩ lines
  if tooLong then .error .lineTooLong
  else if l.nodes.isEmpty then .error .noNodes
  else
    match l.self with
    | none => .error (.selfNotFound myPort)
    | some self => .ok ⟨l.nodes, self, l.slotOwner⟩

end Rediska.Cluster
