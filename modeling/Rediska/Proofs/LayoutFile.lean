import Mathlib.Data.List.Nodup
import Rediska.Cluster.Layout

/-! The layout file says the same to every node. -/

namespace Rediska.Proofs
open Go Cluster

/-- The same nodes with the same slots, seen by nodes that may differ. -/
inductive SameMap : Partial → Partial → Prop
  | mk {nodes : List Node} {self self' : Option (Fin nodes.length)} {slotOwner : Nat → Option (Fin nodes.length)} :
      SameMap ⟨nodes, self, slotOwner⟩ ⟨nodes, self', slotOwner⟩

/-- What a line adds does not depend on who reads it. -/
theorem parseLine_adds (nodeID : Bytes → Bytes) (lineNo : Nat) (line : Bytes) (nodes : List Node)
    (slotOwner : Nat → Option (Fin nodes.length)) :
    (∀ myPort self, parseLine nodeID myPort lineNo ⟨nodes, self, slotOwner⟩ line = .ok ⟨nodes, self, slotOwner⟩) ∨
    (∃ e, ∀ myPort self, parseLine nodeID myPort lineNo ⟨nodes, self, slotOwner⟩ line = .error e) ∨
    ∃ (n : Node) (owners : Nat → Option (Fin (nodes.length + 1))), n.addr ∉ nodes.map Node.addr ∧
      ∀ myPort self, parseLine nodeID myPort lineNo ⟨nodes, self, slotOwner⟩ line =
        Partial.addNode ⟨nodes, self, slotOwner⟩ myPort n owners := by
  unfold parseLine
  split
  · exact .inl fun _ _ => rfl
  next name addr spec specs _ =>
    dsimp only
    by_cases named : nodes.any (fun n => n.name = name) = true
    · exact .inr (.inl ⟨_, fun _ _ => if_pos named⟩)
    · by_cases addressed : nodes.any (fun n => n.addr = addr) = true
      · exact .inr (.inl ⟨_, fun _ _ => (if_neg named).trans (if_pos addressed)⟩)
      · simp only [if_neg named, if_neg addressed]
        split
        · exact .inr (.inl ⟨_, fun _ _ => rfl⟩)
        · split
          · exact .inr (.inl ⟨_, fun _ _ => rfl⟩)
          · cases claimRanges lineNo nodes name (fun slot => (slotOwner slot).map Fin.castSucc) (spec :: specs) with
            | error e => exact .inr (.inl ⟨e, fun _ _ => rfl⟩)
            | ok claimed => exact .inr (.inr ⟨_, claimed.1, by simpa using addressed, fun _ _ => rfl⟩)
  · exact .inr (.inl ⟨_, fun _ _ => rfl⟩)

theorem addNode_same {nodes : List Node} {self self' : Option (Fin nodes.length)} {slotOwner : Nat → Option (Fin nodes.length)}
    {port port' : Int} {n : Node} {owners : Nat → Option (Fin (nodes.length + 1))} {l l' : Partial}
    (mine : Partial.addNode ⟨nodes, self, slotOwner⟩ port n owners = .ok l)
    (other : Partial.addNode ⟨nodes, self', slotOwner⟩ port' n owners = .ok l') : SameMap l l' := by
  unfold Partial.addNode at mine other
  dsimp only at mine other
  split at mine
  · split at mine
    · cases mine
    · cases mine
      split at other
      · split at other <;> cases other
        exact .mk
      · cases other
        exact .mk
  · cases mine
    split at other
    · split at other <;> cases other
      exact .mk
    · cases other
      exact .mk

theorem parseLine_same {nodeID : Bytes → Bytes} {port port' : Int} {lineNo : Nat} {l l' after after' : Partial} {line : Bytes}
    (same : SameMap l l') (mine : parseLine nodeID port lineNo l line = .ok after)
    (other : parseLine nodeID port' lineNo l' line = .ok after') : SameMap after after' := by
  cases same with
  | @mk nodes self self' slotOwner =>
    rcases parseLine_adds nodeID lineNo line nodes slotOwner with blank | ⟨e, wrong⟩ | ⟨n, owners, _, adds⟩
    · rw [blank] at mine other
      cases mine
      cases other
      exact .mk
    · rw [wrong] at mine
      cases mine
    · rw [adds] at mine other
      exact addNode_same mine other

theorem parseLines_same {nodeID : Bytes → Bytes} {port port' : Int} {lineNo : Nat} {l l' after after' : Partial} {lines : List Bytes}
    (same : SameMap l l') (mine : parseLines nodeID port lineNo l lines = .ok after)
    (other : parseLines nodeID port' lineNo l' lines = .ok after') : SameMap after after' := by
  induction lines generalizing l l' lineNo with
  | nil =>
    cases mine
    cases other
    exact same
  | cons line rest ih =>
    rw [parseLines] at mine other
    cases first : parseLine nodeID port (lineNo + 1) l line with
    | error e =>
      rw [first] at mine
      cases mine
    | ok next =>
      cases second : parseLine nodeID port' (lineNo + 1) l' line with
      | error e =>
        rw [second] at other
        cases other
      | ok next' =>
        rw [first] at mine
        rw [second] at other
        exact ih (parseLine_same same first second) mine other

/-- The node a reader has found itself to be has its port. -/
def FoundSelf (myPort : Int) (l : Partial) : Prop := ∀ self, l.self = some self → (l.nodes.get self).port = myPort

theorem FoundSelf.start (myPort : Int) : FoundSelf myPort ⟨[], none, fun _ => none⟩ := fun _ impossible => nomatch impossible

theorem FoundSelf.addNode {myPort : Int} {l after : Partial} {n : Node} {owners : Nat → Option (Fin (l.nodes.length + 1))}
    (found : FoundSelf myPort l) (added : l.addNode myPort n owners = .ok after) : FoundSelf myPort after := by
  unfold Partial.addNode at added
  dsimp only at added
  split at added
  next here =>
    split at added
    · cases added
    · cases added
      intro self is
      cases is
      simpa using here
  next elsewhere =>
    cases added
    intro self is
    obtain ⟨before, was, rfl⟩ := Option.map_eq_some_iff.mp is
    have kept := found before was
    simpa using kept

/-- Addresses name nodes. -/
def Addressed (l : Partial) : Prop := (l.nodes.map Node.addr).Nodup

theorem Addressed.addNode {myPort : Int} {l after : Partial} {n : Node} {owners : Nat → Option (Fin (l.nodes.length + 1))}
    (addressed : Addressed l) (fresh : n.addr ∉ l.nodes.map Node.addr) (added : l.addNode myPort n owners = .ok after) :
    Addressed after := by
  have more : ((l.nodes ++ [n]).map Node.addr).Nodup := by
    rw [List.map_append, List.map_singleton, ← List.concat_eq_append, List.nodup_concat]
    exact ⟨fresh, addressed⟩
  unfold Partial.addNode at added
  dsimp only at added
  split at added
  · split at added <;> cases added
    exact more
  · cases added
    exact more

/-- What adding a node with a new address keeps, holds of all that is read. -/
theorem parseLines_invariant {nodeID : Bytes → Bytes} {myPort : Int} (holds : Partial → Prop)
    (step : ∀ (l after : Partial) (n : Node) (owners : Nat → Option (Fin (l.nodes.length + 1))), holds l →
      n.addr ∉ l.nodes.map Node.addr → l.addNode myPort n owners = .ok after → holds after)
    {lineNo : Nat} {l after : Partial} {lines : List Bytes} (start : holds l)
    (read : parseLines nodeID myPort lineNo l lines = .ok after) : holds after := by
  induction lines generalizing l lineNo with
  | nil =>
    cases read
    exact start
  | cons line rest ih =>
    rw [parseLines] at read
    cases first : parseLine nodeID myPort (lineNo + 1) l line with
    | error e =>
      rw [first] at read
      cases read
    | ok next =>
      rw [first] at read
      refine ih ?_ read
      obtain ⟨nodes, self, slotOwner⟩ := l
      rcases parseLine_adds nodeID (lineNo + 1) line nodes slotOwner with blank | ⟨e, wrong⟩ | ⟨n, owners, fresh, adds⟩
      · rw [blank] at first
        cases first
        exact start
      · rw [wrong] at first
        cases first
      · rw [adds] at first
        exact step _ _ n owners start fresh first

/-- A layout comes from the lines of its file. -/
theorem parseLayout_lines {nodeID : Bytes → Bytes} {file : Bytes} {myPort : Int} {layout : Layout}
    (parsed : parseLayout nodeID file myPort = .ok layout) :
    parseLines nodeID myPort 0 ⟨[], none, fun _ => none⟩ (scanLines file).1 = .ok ⟨layout.nodes, some layout.self, layout.slotOwner⟩ := by
  unfold parseLayout at parsed
  dsimp only at parsed
  cases read : parseLines nodeID myPort 0 ⟨[], none, fun _ => none⟩ (scanLines file).1 with
  | error e =>
    rw [read] at parsed
    cases parsed
  | ok l =>
    rw [read] at parsed
    dsimp only [bind, Except.bind] at parsed
    split at parsed
    · cases parsed
    · split at parsed
      · cases parsed
      · split at parsed
        · cases parsed
        next self found =>
          cases parsed
          rw [← found]

theorem parseLayout_foundSelf {nodeID : Bytes → Bytes} {file : Bytes} {myPort : Int} {layout : Layout}
    (parsed : parseLayout nodeID file myPort = .ok layout) : (layout.nodes.get layout.self).port = myPort :=
  parseLines_invariant (FoundSelf myPort) (fun _ _ _ _ found _ added => found.addNode added) (FoundSelf.start myPort)
    (parseLayout_lines parsed) _ rfl

theorem parseLayout_addressed {nodeID : Bytes → Bytes} {file : Bytes} {myPort : Int} {layout : Layout}
    (parsed : parseLayout nodeID file myPort = .ok layout) : (layout.nodes.map Node.addr).Nodup :=
  parseLines_invariant Addressed (fun _ _ _ _ addressed fresh added => addressed.addNode fresh added)
    (show Addressed ⟨[], none, fun _ => none⟩ from List.nodup_nil) (parseLayout_lines parsed)

/-- The layouts two nodes read from one file. -/
theorem parseLayout_same {nodeID : Bytes → Bytes} {file : Bytes} {port port' : Int} {layout layout' : Layout}
    (mine : parseLayout nodeID file port = .ok layout) (other : parseLayout nodeID file port' = .ok layout') :
    ∃ (nodes : List Node) (self self' : Fin nodes.length) (slotOwner : Nat → Option (Fin nodes.length)),
      layout = ⟨nodes, self, slotOwner⟩ ∧ layout' = ⟨nodes, self', slotOwner⟩ ∧ (nodes.map Node.addr).Nodup := by
  have addressed := parseLayout_addressed mine
  have same := parseLines_same .mk (parseLayout_lines mine) (parseLayout_lines other)
  obtain ⟨nodes, self, slotOwner⟩ := layout
  obtain ⟨nodes', self', slotOwner'⟩ := layout'
  cases same with
  | mk => exact ⟨nodes, self, self', slotOwner, rfl, rfl, addressed⟩

/-- Two nodes that take a slot for their own, by the same file, have the same port. -/
theorem owner_unique {nodeID : Bytes → Bytes} {file : Bytes} {port port' : Int} {layout layout' : Layout} {slot : Nat}
    (mine : parseLayout nodeID file port = .ok layout) (other : parseLayout nodeID file port' = .ok layout')
    (owns : layout.owner slot = some layout.self) (owns' : layout'.owner slot = some layout'.self) : port = port' := by
  have here := parseLayout_foundSelf mine
  have there := parseLayout_foundSelf other
  obtain ⟨nodes, self, self', slotOwner, rfl, rfl, _⟩ := parseLayout_same mine other
  have one : some self = some self' := owns.symm.trans owns'
  cases one
  exact here.symm.trans there

end Rediska.Proofs
