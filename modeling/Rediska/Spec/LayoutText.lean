import Rediska.Cluster.Layout
import Rediska.Logic.Intervals

/-! What a layout file says, and which files are correct. -/

namespace Rediska.Spec
open Go Cluster Logic

abbrev InRange (r : SlotRange) (slot : Nat) : Prop := Covers SlotRange.first SlotRange.last r slot

/-- The words of the lines that are not blank once their comments are gone. -/
def nodeLines (lines : List Bytes) : List (List Bytes) := (lines.map fun line => fields (stripComment line)).filter (· ≠ [])

/-- One slot, or the slots from a first to a last one with a hyphen between them. -/
inductive StandsFor : Bytes → SlotRange → Prop
  | slot {spec : Bytes} {slot : Nat} (plain : 45 ∉ spec) (read : atoi spec = some (slot : Int)) (inside : slot < numSlots) :
      StandsFor spec ⟨slot, slot⟩
  | range {lo hi : Bytes} {first last : Nat} (plain : 45 ∉ lo) (low : atoi lo = some (first : Int)) (high : atoi hi = some (last : Int))
      (order : first ≤ last) (inside : last < numSlots) : StandsFor (lo ++ 45 :: hi) ⟨first, last⟩

theorem StandsFor.proper {spec : Bytes} {r : SlotRange} (stands : StandsFor spec r) : r.first ≤ r.last ∧ r.last < numSlots := by
  cases stands with
  | slot _ _ inside => exact ⟨le_rfl, inside⟩
  | range _ _ _ order inside => exact ⟨order, inside⟩

/-- A node as a line describes it. -/
structure NodeText where
  name : Bytes
  addr : Bytes
  port : Int
  ranges : List SlotRange

def NodeText.Claims (t : NodeText) (slot : Int) : Prop := ∃ r ∈ t.ranges, (r.first : Int) ≤ slot ∧ slot ≤ (r.last : Int)

/-- A line describes a node by its name, its address and at least one slot or range. -/
inductive Describes : List Bytes → NodeText → Prop
  | mk {name addr portText : Bytes} {port : Int} {specs : List Bytes} {ranges : List SlotRange}
      (address : splitHostPort addr = some portText) (number : atoi portText = some port) (claims : specs ≠ [])
      (each : List.Forall₂ StandsFor specs ranges) : Describes (name :: addr :: specs) ⟨name, addr, port, ranges⟩

/-- The file describes these nodes, with names and addresses and slots of their own, and one
of them is the server at the port. -/
structure Correct (file : Bytes) (myPort : Int) (nodes : List NodeText) : Prop where
  lines : List.Forall₂ Describes (nodeLines (scanLines file).1) nodes
  present : nodes ≠ []
  names : (nodes.map NodeText.name).Nodup
  addrs : (nodes.map NodeText.addr).Nodup
  slots : (nodes.flatMap NodeText.ranges).Pairwise (Apart SlotRange.first SlotRange.last)
  self : nodes.countP (fun n => n.port = myPort) = 1

end Rediska.Spec
