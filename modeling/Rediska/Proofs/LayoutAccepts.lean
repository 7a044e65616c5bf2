import Rediska.Go.Loop
import Rediska.Proofs.LayoutFile
import Rediska.Spec.LayoutText

/-! The parser of the layout file accepts the correct files and no others. -/

namespace Rediska.Proofs
open Go Cluster Spec Logic

theorem cut_absent {s : Bytes} {c : UInt8} (absent : c ∉ s) : Go.cut s c = (s, [], false) := by
  simp only [Go.cut, absent, if_false]

theorem cut_append {before after : Bytes} {c : UInt8} (absent : c ∉ before) : Go.cut (before ++ c :: after) c = (before, after, true) := by
  have taken : (before ++ c :: after).takeWhile (· ≠ c) = before := by
    rw [List.takeWhile_append_of_pos (fun b inside => by simpa using fun same : b = c => absent (same ▸ inside))]
    simp
  have present : c ∈ before ++ c :: after := by simp
  simp only [Go.cut, taken, if_pos present]
  simp

/-- Two integers are taken for the ends of a range of slots if they are. -/
theorem bounds_ok_iff {start stop : Int} {e : LayoutError} {r : SlotRange} :
    (if start < 0 ∨ (numSlots : Int) ≤ stop ∨ stop < start then Except.error e else .ok ⟨start.toNat, stop.toNat⟩) = .ok r ↔
      start = r.first ∧ stop = r.last ∧ r.first ≤ r.last ∧ r.last < numSlots := by
  split
  next outside =>
    refine iff_of_false nofun ?_
    omega
  next inside =>
    obtain ⟨first, last⟩ := r
    simp only [Except.ok.injEq, SlotRange.mk.injEq]
    omega

theorem parseRange_reads_iff {lineNo : Nat} {spec : Bytes} {r : SlotRange} :
    parseRange lineNo spec = .ok r ↔ atoi (Go.cut spec 45).1 = some (r.first : Int) ∧
      (if (Go.cut spec 45).2.2 then atoi (Go.cut spec 45).2.1 = some (r.last : Int) else r.last = r.first) ∧
      r.first ≤ r.last ∧ r.last < numSlots := by
  unfold parseRange
  dsimp only
  cases atoi (Go.cut spec 45).1 with
  | none => exact iff_of_false nofun nofun
  | some start =>
    simp only [bind, Except.bind]
    by_cases ranged : (Go.cut spec 45).2.2 = true
    · rw [if_pos ranged, if_pos ranged]
      cases atoi (Go.cut spec 45).2.1 with
      | none => exact iff_of_false nofun nofun
      | some stop => simp only [bounds_ok_iff, Option.some.injEq]
    · rw [if_neg ranged, if_neg ranged]
      simp only [bounds_ok_iff, Option.some.injEq]
      omega

theorem parseRange_ok_iff {lineNo : Nat} {spec : Bytes} {r : SlotRange} : parseRange lineNo spec = .ok r ↔ StandsFor spec r := by
  rw [parseRange_reads_iff]
  constructor
  · intro ⟨low, high, order, bound⟩
    by_cases ranged : 45 ∈ spec
    · obtain ⟨lo, hi, rfl, plain⟩ := List.eq_append_cons_of_mem ranged
      rw [cut_append plain] at low high
      exact .range plain low high order bound
    · rw [cut_absent ranged] at low high
      obtain ⟨first, last⟩ := r
      cases high
      exact .slot ranged low bound
  · intro stands
    cases stands with
    | slot plain read inside =>
      rw [cut_absent plain]
      exact ⟨read, rfl, le_rfl, inside⟩
    | range plain low high order inside =>
      rw [cut_append plain]
      exact ⟨low, high, order, inside⟩

section
variable {lineNo : Nat} {nodes : List Node} {name : Bytes} {owner owner' : Nat → Option (Fin (nodes.length + 1))}

theorem written_none {α : Type} {p : Prop} [Decidable p] {x : α} {old : Option α} : (if p then some x else old) = none ↔ ¬ p ∧ old = none := by
  by_cases new : p <;> simp [new]

theorem written_again {α : Type} {p q : Prop} [Decidable p] [Decidable q] {x old : α} :
    (if p then x else if q then x else old) = if q ∨ p then x else old := by
  by_cases first : q <;> by_cases later : p <;> simp [first, later]

/-- Slots are claimed if none of them has an owner or is named twice. -/
theorem claimSlots_ok_iff {slots : List Nat} :
    claimSlots lineNo nodes name owner slots = .ok owner' ↔
      slots.Nodup ∧ (∀ slot ∈ slots, owner slot = none) ∧
        owner' = fun slot => if slot ∈ slots then some (Fin.last _) else owner slot := by
  induction slots generalizing owner with
  | nil =>
    simp only [claimSlots, Except.ok.injEq, List.nodup_nil, List.not_mem_nil, if_false, true_and, eq_comm]
    simp
  | cons slot rest ih =>
    rw [claimSlots]
    split
    next previous taken =>
      refine iff_of_false nofun ?_
      intro ⟨_, free, _⟩
      rw [free slot List.mem_cons_self] at taken
      cases taken
    next free =>
      rw [ih]
      rw [List.forall_mem_cons]
      simp only [written_none, written_again, List.nodup_cons, List.mem_cons, free, true_and]
      constructor
      · intro ⟨once, others, all⟩
        exact ⟨⟨fun again => (others slot again).1 rfl, once⟩, fun i later => (others i later).2, all⟩
      · intro ⟨⟨apart, once⟩, others, all⟩
        exact ⟨once, fun i later => ⟨fun same => apart (same ▸ later), others i later⟩, all⟩

theorem mem_slotsOf {r : SlotRange} (proper : r.first ≤ r.last) {slot : Nat} :
    slot ∈ List.range' r.first (r.last - r.first + 1) ↔ InRange r slot := by
  rw [List.mem_range'_1]
  simp only [InRange, Covers]
  omega

theorem claimRanges_cons {spec : Bytes} {rest : List Bytes} {ranges : List SlotRange} :
    claimRanges lineNo nodes name owner (spec :: rest) = .ok (owner', ranges) ↔
      ∃ r others, StandsFor spec r ∧ ranges = r :: others ∧ (∀ slot, InRange r slot → owner slot = none) ∧
        claimRanges lineNo nodes name (fun slot => if InRange r slot then some (Fin.last _) else owner slot) rest = .ok (owner', others) := by
  simp only [claimRanges, bind_eq_ok, Except.ok.injEq, Prod.mk.injEq, Prod.exists, parseRange_ok_iff, claimSlots_ok_iff]
  constructor
  · rintro ⟨r, stands, _, ⟨_, free, rfl⟩, _, others, more, rfl, rfl⟩
    simp only [mem_slotsOf stands.proper.1] at free more
    exact ⟨r, others, stands, rfl, free, more⟩
  · rintro ⟨r, others, stands, rfl, free, more⟩
    refine ⟨r, stands, _, ⟨List.nodup_range', ?_, rfl⟩, _, others, ?_, rfl, rfl⟩
    · simpa only [mem_slotsOf stands.proper.1] using free
    · simpa only [mem_slotsOf stands.proper.1] using more

/-- The slots of the ranges are claimed if each has been free, and in one range only. -/
theorem claimRanges_ok_iff {specs : List Bytes} {ranges : List SlotRange} :
    claimRanges lineNo nodes name owner specs = .ok (owner', ranges) ↔
      List.Forall₂ StandsFor specs ranges ∧ ranges.Pairwise (Apart SlotRange.first SlotRange.last) ∧
        (∀ r ∈ ranges, ∀ slot, InRange r slot → owner slot = none) ∧
        owner' = fun slot => if ∃ r ∈ ranges, InRange r slot then some (Fin.last _) else owner slot := by
  induction specs generalizing owner ranges with
  | nil =>
    simp only [claimRanges, Except.ok.injEq, Prod.mk.injEq, List.forall₂_nil_left_iff]
    constructor
    · rintro ⟨rfl, rfl⟩
      simp
    · rintro ⟨rfl, _, _, rfl⟩
      simp
  | cons spec rest ih =>
    rw [claimRanges_cons]
    simp only [ih, written_none, written_again, List.forall₂_cons_left_iff]
    constructor
    · rintro ⟨r, others, stands, rfl, free, each, apart, open_, all⟩
      simp only [List.pairwise_cons, List.forall_mem_cons, List.exists_mem_cons_iff]
      exact ⟨⟨r, others, stands, each, rfl⟩, ⟨fun other among slot here there => (open_ other among slot there).1 here, apart⟩,
        ⟨free, fun other among slot there => (open_ other among slot there).2⟩, all⟩
    · rintro ⟨⟨r, others, stands, each, rfl⟩, apart, free, all⟩
      simp only [List.pairwise_cons, List.forall_mem_cons, List.exists_mem_cons_iff] at apart free all
      exact ⟨r, others, stands, rfl, free.1, each, apart.2,
        fun other among slot there => ⟨fun here => apart.1 other among slot here there, free.2 other among slot there⟩, all⟩

end

def textOf (n : Node) : NodeText := ⟨n.name, n.addr, n.port, n.slots⟩

/-- The node has nothing in common with those read so far. -/
structure Joins (l : Partial) (n : Node) : Prop where
  name : n.name ∉ l.nodes.map Node.name
  addr : n.addr ∉ l.nodes.map Node.addr
  apart : n.slots.Pairwise (Apart SlotRange.first SlotRange.last)
  free : ∀ r ∈ n.slots, ∀ slot, InRange r slot → l.slotOwner slot = none

/-- The owners of the slots with the node behind those read so far. -/
def joined (l : Partial) (n : Node) (slot : Nat) : Option (Fin (l.nodes.length + 1)) :=
  if ∃ r ∈ n.slots, InRange r slot then some (Fin.last _) else (l.slotOwner slot).map Fin.castSucc

theorem describes_iff {words : List Bytes} {t : NodeText} :
    Describes words t ↔ ∃ spec specs portText, words = t.name :: t.addr :: spec :: specs ∧ splitHostPort t.addr = some portText ∧
      atoi portText = some t.port ∧ List.Forall₂ StandsFor (spec :: specs) t.ranges := by
  constructor
  · rintro ⟨address, number, claims, each⟩
    obtain ⟨spec, specs, rfl⟩ := List.exists_cons_of_ne_nil claims
    exact ⟨spec, specs, _, rfl, address, number, each⟩
  · rintro ⟨spec, specs, portText, rfl, address, number, each⟩
    exact .mk address number (List.cons_ne_nil _ _) each

section
variable {nodeID : Bytes → Bytes} {myPort : Int} {lineNo : Nat} {l after : Partial} {line : Bytes}

theorem parseLine_blank (blank : fields (stripComment line) = []) : parseLine nodeID myPort lineNo l line = .ok l := by
  unfold parseLine
  split
  next => rfl
  next words =>
    rw [blank] at words
    cases words
  next other _ => exact absurd blank other

/-- A line that is accepted and not blank describes a node that joins the others. -/
theorem parseLine_joins (words : fields (stripComment line) ≠ []) (ran : parseLine nodeID myPort lineNo l line = .ok after) :
    ∃ n, Describes (fields (stripComment line)) (textOf n) ∧ Joins l n ∧ l.addNode myPort n (joined l n) = .ok after := by
  unfold parseLine at ran
  split at ran
  next blank => exact absurd blank words
  next name addr spec specs split =>
    dsimp only at ran
    split at ran
    · cases ran
    next named =>
      split at ran
      · cases ran
      next addressed =>
        split at ran
        · cases ran
        next portText address =>
          split at ran
          · cases ran
          next port number =>
            obtain ⟨⟨owners, slots⟩, claimed, added⟩ := bind_eq_ok.mp ran
            obtain ⟨each, apart, free, rfl⟩ := claimRanges_ok_iff.mp claimed
            have oneLine : cr ∉ addr ∧ lf ∉ addr := fields_line (stripComment line) addr (by simp [split])
            refine ⟨⟨name, addr, port, nodeID name, slots, oneLine, splitHostPort_hasPort address⟩,
              describes_iff.mpr ⟨spec, specs, portText, split, address, number, each⟩, ⟨?_, ?_, apart, ?_⟩, added⟩
            · simpa using named
            · simpa using addressed
            · intro r among slot inside
              exact Option.map_eq_none_iff.mp (free r among slot inside)
  next => cases ran

/-- A line that describes a node that joins the others is read as that node. -/
theorem parseLine_adds_node {n : Node} (told : Describes (fields (stripComment line)) (textOf n)) (id : n.id = nodeID n.name)
    (joins : Joins l n) : parseLine nodeID myPort lineNo l line = l.addNode myPort n (joined l n) := by
  obtain ⟨spec, specs, portText, words, address, number, each⟩ := describes_iff.mp told
  unfold parseLine
  split
  next blank =>
    rw [blank] at words
    cases words
  next name addr spec' specs' split =>
    simp only [split, textOf, List.cons.injEq] at words address number each
    obtain ⟨rfl, rfl, rfl, rfl⟩ := words
    have named : ¬ l.nodes.any (fun other => other.name = n.name) = true := by simpa using joins.name
    have addressed : ¬ l.nodes.any (fun other => other.addr = n.addr) = true := by simpa using joins.addr
    have claimed : claimRanges lineNo l.nodes n.name (fun slot => (l.slotOwner slot).map Fin.castSucc) (spec' :: specs') =
        .ok (joined l n, n.slots) := by
      refine claimRanges_ok_iff.mpr ⟨each, joins.apart, ?_, rfl⟩
      intro r among slot inside
      exact Option.map_eq_none_iff.mpr (joins.free r among slot inside)
    dsimp only
    rw [if_neg named, if_neg addressed]
    split
    next bad =>
      rw [address] at bad
      cases bad
    next portText' found =>
      rw [address] at found
      cases found
      simp only [number, claimed]
      rw [← id]
      rfl
  next _ short => exact absurd words (short _ _ _ _)

end

/-- What all lines read so far have to keep, for the nodes they describe. -/
structure Consistent (myPort : Int) (said : List NodeText) : Prop where
  names : (said.map NodeText.name).Nodup
  addrs : (said.map NodeText.addr).Nodup
  slots : (said.flatMap NodeText.ranges).Pairwise (Apart SlotRange.first SlotRange.last)
  ports : said.countP (fun t => t.port = myPort) ≤ 1

theorem Consistent.nil (myPort : Int) : Consistent myPort [] := ⟨List.nodup_nil, List.nodup_nil, .nil, Nat.zero_le _⟩

theorem Consistent.left {myPort : Int} {said more : List NodeText} (fine : Consistent myPort (said ++ more)) : Consistent myPort said := by
  obtain ⟨names, addrs, slots, ports⟩ := fine
  rw [List.map_append] at names addrs
  rw [List.flatMap_append] at slots
  rw [List.countP_append] at ports
  exact ⟨names.of_append_left, addrs.of_append_left, (List.pairwise_append.mp slots).1, le_trans (Nat.le_add_right _ _) ports⟩

theorem countP_snoc (myPort : Int) (said : List NodeText) (t : NodeText) :
    (said ++ [t]).countP (fun t => t.port = myPort) = said.countP (fun t => t.port = myPort) + if t.port = myPort then 1 else 0 := by
  rw [List.countP_append, List.countP_singleton]
  simp

theorem consistent_snoc {myPort : Int} {said : List NodeText} {t : NodeText} (fine : Consistent myPort said) :
    Consistent myPort (said ++ [t]) ↔ t.name ∉ said.map NodeText.name ∧ t.addr ∉ said.map NodeText.addr ∧
      t.ranges.Pairwise (Apart SlotRange.first SlotRange.last) ∧
      (∀ other ∈ said.flatMap NodeText.ranges, ∀ r ∈ t.ranges, Apart SlotRange.first SlotRange.last other r) ∧
      (t.port = myPort → said.countP (fun t => t.port = myPort) = 0) := by
  have ports : said.countP (fun t => t.port = myPort) + (if t.port = myPort then 1 else 0) ≤ 1 ↔
      (t.port = myPort → said.countP (fun t => t.port = myPort) = 0) := by
    have atMost := fine.ports
    split
    next here => simp only [here, true_imp_iff]; omega
    next elsewhere => simp only [elsewhere, false_imp_iff, iff_true]; omega
  constructor
  · intro ⟨names, addrs, slots, all⟩
    rw [List.map_append, List.map_singleton, ← List.concat_eq_append, List.nodup_concat] at names addrs
    simp only [List.flatMap_append, List.flatMap_singleton, List.pairwise_append] at slots
    rw [countP_snoc] at all
    exact ⟨names.1, addrs.1, slots.2.1, slots.2.2, ports.mp all⟩
  · intro ⟨name, addr, apart, away, port⟩
    refine ⟨?_, ?_, ?_, ?_⟩
    · rw [List.map_append, List.map_singleton, ← List.concat_eq_append, List.nodup_concat]
      exact ⟨name, fine.names⟩
    · rw [List.map_append, List.map_singleton, ← List.concat_eq_append, List.nodup_concat]
      exact ⟨addr, fine.addrs⟩
    · simp only [List.flatMap_append, List.flatMap_singleton, List.pairwise_append]
      exact ⟨fine.slots, apart, away⟩
    · rw [countP_snoc]
      exact ports.mpr port

/-- The nodes said so far, each with the slots of its line, and this server if it is among
them. -/
structure Reads (myPort : Int) (said : List NodeText) (l : Partial) : Prop where
  nodes : l.nodes.map textOf = said
  owners : ∀ slot i, l.slotOwner slot = some i ↔ ∃ r ∈ (l.nodes.get i).slots, InRange r slot
  found : l.self.isSome ↔ 0 < said.countP (fun t => t.port = myPort)

section
variable {nodeID : Bytes → Bytes} {myPort : Int} {lineNo : Nat} {l after : Partial} {line : Bytes} {said : List NodeText} {n : Node}

theorem Reads.start (myPort : Int) : Reads myPort [] ⟨[], none, fun _ => none⟩ :=
  ⟨rfl, fun _ i => i.elim0, iff_of_false nofun nofun⟩

theorem Reads.ranges (reads : Reads myPort said l) : said.flatMap NodeText.ranges = l.nodes.flatMap Node.slots := by
  rw [← reads.nodes, List.flatMap_map]
  rfl

/-- A slot is free if no range read so far holds it. -/
theorem Reads.free_iff (reads : Reads myPort said l) (slot : Nat) :
    l.slotOwner slot = none ↔ ∀ r ∈ said.flatMap NodeText.ranges, ¬ InRange r slot := by
  rw [reads.ranges, Option.eq_none_iff_forall_ne_some]
  constructor
  · intro free r among inside
    obtain ⟨n, known, has⟩ := List.mem_flatMap.mp among
    obtain ⟨i, rfl⟩ := List.get_of_mem known
    exact free i ((reads.owners slot i).mpr ⟨r, has, inside⟩)
  · intro none i owns
    obtain ⟨r, has, inside⟩ := (reads.owners slot i).mp owns
    exact none r (List.mem_flatMap.mpr ⟨_, List.get_mem _ _, has⟩) inside

theorem Reads.consistent_iff (reads : Reads myPort said l) (fine : Consistent myPort said) :
    Consistent myPort (said ++ [textOf n]) ↔ Joins l n ∧ (n.port = myPort → l.self = none) := by
  have names : said.map NodeText.name = l.nodes.map Node.name := by
    rw [← reads.nodes, List.map_map]
    rfl
  have addrs : said.map NodeText.addr = l.nodes.map Node.addr := by
    rw [← reads.nodes, List.map_map]
    rfl
  have unfound : said.countP (fun t => t.port = myPort) = 0 ↔ l.self = none := by
    rw [← Option.not_isSome_iff_eq_none, reads.found]
    omega
  rw [consistent_snoc fine, names, addrs, unfound]
  constructor
  · intro ⟨name, addr, apart, away, port⟩
    refine ⟨⟨name, addr, apart, ?_⟩, port⟩
    intro r has slot inside
    refine (reads.free_iff slot).mpr ?_
    intro other among there
    exact away other among r has slot there inside
  · intro ⟨joins, port⟩
    refine ⟨joins.name, joins.addr, joins.apart, ?_, port⟩
    intro other among r has slot there inside
    exact (reads.free_iff slot).mp (joins.free r has slot inside) other among there

/-- Behind the nodes read so far, the new one owns its slots and the others keep theirs. -/
theorem joined_owners (owners : ∀ slot i, l.slotOwner slot = some i ↔ ∃ r ∈ (l.nodes.get i).slots, InRange r slot) (joins : Joins l n)
    (size : l.nodes.length + 1 = (l.nodes ++ [n]).length) (slot : Nat) (i : Fin (l.nodes ++ [n]).length) :
    (joined l n slot).map (Fin.cast size) = some i ↔ ∃ r ∈ ((l.nodes ++ [n]).get i).slots, InRange r slot := by
  obtain ⟨j, rfl⟩ : ∃ j, i = Fin.cast size j := ⟨Fin.cast size.symm i, rfl⟩
  have same : (joined l n slot).map (Fin.cast size) = some (Fin.cast size j) ↔ joined l n slot = some j := by
    simp [Option.map_eq_some_iff]
  rw [same, joined]
  cases j using Fin.lastCases with
  | last =>
    have new : (l.nodes ++ [n]).get (Fin.cast size (Fin.last _)) = n := by simp
    rw [new]
    by_cases claimed : ∃ r ∈ n.slots, InRange r slot
    · rw [if_pos claimed]
      exact iff_of_true rfl claimed
    · rw [if_neg claimed]
      refine iff_of_false ?_ claimed
      intro owned
      obtain ⟨k, _, last⟩ := Option.map_eq_some_iff.mp owned
      exact Fin.castSucc_ne_last k last
  | cast k =>
    have old : (l.nodes ++ [n]).get (Fin.cast size k.castSucc) = l.nodes.get k := by simp
    rw [old]
    by_cases claimed : ∃ r ∈ n.slots, InRange r slot
    · obtain ⟨r, has, inside⟩ := claimed
      have free := joins.free r has slot inside
      rw [if_pos ⟨r, has, inside⟩, ← owners slot k, free]
      exact iff_of_false (fun last => Fin.castSucc_ne_last k (Option.some.inj last).symm) nofun
    · rw [if_neg claimed, ← owners slot k]
      simp [Option.map_eq_some_iff]

theorem Reads.addNode (reads : Reads myPort said l) (joins : Joins l n) (added : l.addNode myPort n (joined l n) = .ok after) :
    Reads myPort (said ++ [textOf n]) after := by
  have nodes : (l.nodes ++ [n]).map textOf = said ++ [textOf n] := by
    rw [List.map_append, reads.nodes]
    rfl
  unfold Partial.addNode at added
  dsimp only at added
  split at added
  next here =>
    split at added
    · cases added
    · cases added
      refine ⟨nodes, fun slot i => joined_owners reads.owners joins _ slot i, iff_of_true rfl ?_⟩
      rw [countP_snoc, if_pos (show (textOf n).port = myPort from here)]
      exact Nat.succ_pos _
  next elsewhere =>
    cases added
    refine ⟨nodes, fun slot i => joined_owners reads.owners joins _ slot i, ?_⟩
    rw [Option.isSome_map, countP_snoc, if_neg (show ¬ (textOf n).port = myPort from elsewhere)]
    exact reads.found

theorem addNode_returns_iff {owners : Nat → Option (Fin (l.nodes.length + 1))} :
    (∃ after, l.addNode myPort n owners = .ok after) ↔ (n.port = myPort → l.self = none) := by
  unfold Partial.addNode
  dsimp only
  split
  next here =>
    split
    next found =>
      refine iff_of_false nofun ?_
      intro alone
      rw [alone here] at found
      cases found
    next alone => exact iff_of_true ⟨_, rfl⟩ fun _ => Option.not_isSome_iff_eq_none.mp alone
  next elsewhere => exact iff_of_true ⟨_, rfl⟩ fun here => absurd here elsewhere

/-- What a line that is accepted told goes with the lines before it. -/
theorem Reads.line_told (reads : Reads myPort said l) (fine : Consistent myPort said) (words : fields (stripComment line) ≠ [])
    (ran : parseLine nodeID myPort lineNo l line = .ok after) :
    ∃ t, Describes (fields (stripComment line)) t ∧ Consistent myPort (said ++ [t]) ∧ Reads myPort (said ++ [t]) after := by
  obtain ⟨n, told, joins, added⟩ := parseLine_joins words ran
  exact ⟨textOf n, told, (reads.consistent_iff fine).mpr ⟨joins, addNode_returns_iff.mp ⟨after, added⟩⟩, reads.addNode joins added⟩

/-- A line that goes with the lines before it is accepted. -/
theorem Reads.line_accepted (reads : Reads myPort said l) {t : NodeText} (told : Describes (fields (stripComment line)) t)
    (fine : Consistent myPort (said ++ [t])) :
    ∃ after, parseLine nodeID myPort lineNo l line = .ok after ∧ Reads myPort (said ++ [t]) after := by
  obtain ⟨spec, specs, portText, words, address, number, each⟩ := describes_iff.mp told
  have oneLine : cr ∉ t.addr ∧ lf ∉ t.addr := fields_line (stripComment line) t.addr (by simp [words])
  let n : Node := ⟨t.name, t.addr, t.port, nodeID t.name, t.ranges, oneLine, splitHostPort_hasPort address⟩
  obtain ⟨joins, alone⟩ := (reads.consistent_iff (n := n) fine.left).mp fine
  obtain ⟨after, added⟩ := addNode_returns_iff.mpr alone
  exact ⟨after, (parseLine_adds_node told rfl joins).trans added, reads.addNode joins added⟩

theorem nodeLines_blank {rest : List Bytes} (blank : fields (stripComment line) = []) : nodeLines (line :: rest) = nodeLines rest := by
  simp [nodeLines, blank]

theorem nodeLines_words {rest : List Bytes} (words : fields (stripComment line) ≠ []) :
    nodeLines (line :: rest) = fields (stripComment line) :: nodeLines rest := by
  simp [nodeLines, words]

theorem Reads.lines (reads : Reads myPort said l) (fine : Consistent myPort said) {lines : List Bytes}
    (ran : parseLines nodeID myPort lineNo l lines = .ok after) :
    ∃ more, List.Forall₂ Describes (nodeLines lines) more ∧ Consistent myPort (said ++ more) ∧ Reads myPort (said ++ more) after := by
  induction lines generalizing l said lineNo with
  | nil =>
    cases ran
    exact ⟨[], .nil, by simpa using fine, by simpa using reads⟩
  | cons line rest ih =>
    obtain ⟨next, first, ran⟩ := bind_eq_ok.mp ran
    by_cases blank : fields (stripComment line) = []
    · rw [parseLine_blank blank] at first
      cases first
      rw [nodeLines_blank blank]
      exact ih reads fine ran
    · obtain ⟨t, told, fine, reads⟩ := reads.line_told fine blank first
      obtain ⟨more, each, fine, reads⟩ := ih reads fine ran
      rw [List.append_assoc] at fine reads
      rw [nodeLines_words blank]
      exact ⟨t :: more, .cons told each, fine, reads⟩

theorem Reads.lines_accepted (reads : Reads myPort said l) {lines : List Bytes} {more : List NodeText}
    (each : List.Forall₂ Describes (nodeLines lines) more) (fine : Consistent myPort (said ++ more)) :
    ∃ after, parseLines nodeID myPort lineNo l lines = .ok after ∧ Reads myPort (said ++ more) after := by
  induction lines generalizing l said lineNo more with
  | nil =>
    cases each
    exact ⟨l, rfl, by simpa using reads⟩
  | cons line rest ih =>
    by_cases blank : fields (stripComment line) = []
    · rw [nodeLines_blank blank] at each
      obtain ⟨after, ran, reads⟩ := ih reads each fine
      exact ⟨after, bind_eq_ok.mpr ⟨l, parseLine_blank blank, ran⟩, reads⟩
    · rw [nodeLines_words blank] at each
      cases each with
      | @cons _ t _ more told each =>
      have all : said ++ t :: more = said ++ [t] ++ more := by simp
      rw [all] at fine ⊢
      obtain ⟨next, first, reads⟩ := reads.line_accepted told fine.left
      obtain ⟨after, ran, reads⟩ := ih reads each fine
      exact ⟨after, bind_eq_ok.mpr ⟨next, first, ran⟩, reads⟩

end

theorem parseLayout_ok_iff {nodeID : Bytes → Bytes} {file : Bytes} {myPort : Int} {layout : Layout} :
    parseLayout nodeID file myPort = .ok layout ↔
      parseLines nodeID myPort 0 ⟨[], none, fun _ => none⟩ (scanLines file).1 = .ok ⟨layout.nodes, some layout.self, layout.slotOwner⟩ ∧
        (scanLines file).2 = false := by
  constructor
  · intro parsed
    refine ⟨parseLayout_lines parsed, ?_⟩
    obtain ⟨l, _, rest⟩ := bind_eq_ok.mp parsed
    by_contra long
    rw [if_pos (Bool.not_eq_false _ ▸ long)] at rest
    cases rest
  · intro ⟨read, short⟩
    have present : layout.nodes.isEmpty = false := by
      rw [List.isEmpty_eq_false_iff, ← List.length_pos_iff]
      exact Nat.zero_lt_of_lt layout.self.isLt
    unfold parseLayout
    dsimp only
    rw [read]
    simp only [bind, Except.bind, short, present, Bool.false_eq_true, if_false]

theorem correct_consistent {file : Bytes} {myPort : Int} {nodes : List NodeText} (correct : Correct file myPort nodes) :
    Consistent myPort nodes :=
  ⟨correct.names, correct.addrs, correct.slots, correct.self.le⟩

theorem forall₂_right {α β : Type} {R : α → β → Prop} {holds : β → Prop} (each : ∀ a b, R a b → holds b) {left : List α} {right : List β}
    (related : List.Forall₂ R left right) : ∀ b ∈ right, holds b := by
  induction related with
  | nil => exact fun _ impossible => nomatch impossible
  | cons first _ ih =>
    intro b among
    rcases List.mem_cons.mp among with rfl | later
    · exact each _ _ first
    · exact ih b later

theorem described_within {lines : List (List Bytes)} {nodes : List NodeText} (each : List.Forall₂ Describes lines nodes) :
    ∀ t ∈ nodes, ∀ r ∈ t.ranges, r.first ≤ r.last ∧ r.last < numSlots := by
  refine forall₂_right ?_ each
  intro words t told
  obtain ⟨_, _, _, _, _, _, specs⟩ := describes_iff.mp told
  exact forall₂_right (fun _ _ stands => stands.proper) specs

/-- A layout that has been read gives every slot to the node of the line that claims it. -/
theorem Reads.ownerOf {myPort : Int} {nodes : List NodeText} {layout : Layout}
    (reads : Reads myPort nodes ⟨layout.nodes, some layout.self, layout.slotOwner⟩)
    (within : ∀ t ∈ nodes, ∀ r ∈ t.ranges, r.first ≤ r.last ∧ r.last < numSlots) (slot : Int) (i : Fin layout.nodes.length) :
    layout.ownerOf slot = some i ↔ ∃ t, nodes[i.val]? = some t ∧ t.Claims slot := by
  have at_i : nodes[i.val]? = some (textOf (layout.nodes.get i)) := by
    rw [← reads.nodes]
    simp
  simp only [at_i, Option.some.injEq, exists_eq_left']
  unfold Layout.ownerOf
  split
  next outside =>
    refine iff_of_false nofun ?_
    intro ⟨r, has, low, high⟩
    have bound := (within _ (List.mem_of_getElem? at_i) r has).2
    omega
  next inside =>
    rw [reads.owners]
    constructor
    · intro ⟨r, has, low, high⟩
      exact ⟨r, has, by omega, by omega⟩
    · intro ⟨r, has, low, high⟩
      exact ⟨r, has, by omega, by omega⟩

/-- The layout file is accepted exactly if it is correct, and what is read is what it says. -/
theorem parseLayout_accepts_iff (nodeID : Bytes → Bytes) {file : Bytes} (myPort : Int) (within : (scanLines file).2 = false) :
    ((∃ layout, parseLayout nodeID file myPort = .ok layout) ↔ ∃ nodes, Correct file myPort nodes) ∧
    ∀ layout nodes, parseLayout nodeID file myPort = .ok layout → Correct file myPort nodes →
      layout.nodes.map textOf = nodes ∧
      (∀ slot i, layout.ownerOf slot = some i ↔ ∃ t, nodes[i.val]? = some t ∧ t.Claims slot) ∧
      (∀ slot, layout.ownerOf slot = none ↔ ∀ t ∈ nodes, ¬ t.Claims slot) ∧
      (layout.nodes.get layout.self).port = myPort := by
  refine ⟨⟨?_, ?_⟩, ?_⟩
  · intro ⟨layout, parsed⟩
    obtain ⟨nodes, each, fine, reads⟩ := (Reads.start myPort).lines (.nil myPort) (parseLayout_ok_iff.mp parsed).1
    have self := reads.found.mp rfl
    refine ⟨nodes, each, ?_, fine.names, fine.addrs, fine.slots, le_antisymm fine.ports self⟩
    rintro rfl
    cases self
  · intro ⟨nodes, correct⟩
    obtain ⟨l, read, reads⟩ := (Reads.start myPort).lines_accepted correct.lines (correct_consistent correct)
    obtain ⟨self, found⟩ := Option.isSome_iff_exists.mp (reads.found.mpr (correct.self ▸ Nat.one_pos))
    refine ⟨⟨l.nodes, self, l.slotOwner⟩, parseLayout_ok_iff.mpr ⟨?_, within⟩⟩
    rw [read, ← found]
  · intro layout nodes parsed correct
    obtain ⟨l, read, reads⟩ := (Reads.start myPort).lines_accepted correct.lines (correct_consistent correct)
    rw [(parseLayout_ok_iff.mp parsed).1] at read
    cases read
    have owners := reads.ownerOf (described_within correct.lines)
    refine ⟨reads.nodes, owners, ?_, parseLayout_foundSelf parsed⟩
    intro slot
    rw [Option.eq_none_iff_forall_ne_some]
    constructor
    · intro nobody t among claims
      obtain ⟨i, there⟩ := List.getElem?_of_mem among
      have bound : i < layout.nodes.length := by
        have length := congrArg List.length reads.nodes
        rw [List.length_map] at length
        exact length ▸ (List.getElem?_eq_some_iff.mp there).1
      exact nobody ⟨i, bound⟩ ((owners slot ⟨i, bound⟩).mpr ⟨t, there, claims⟩)
    · intro nobody i owns
      obtain ⟨t, there, claims⟩ := (owners slot i).mp owns
      exact nobody t (List.mem_of_getElem? there) claims

theorem layout_of_one_accepted : ∃ nodes, Correct (ascii "a h:7001 0-5 7 # all") 7001 nodes :=
  (parseLayout_accepts_iff id 7001 (by decide)).1.mp ⟨_, rfl⟩

end Rediska.Proofs
