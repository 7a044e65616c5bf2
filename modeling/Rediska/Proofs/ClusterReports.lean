import Rediska.Proofs.DispatchSafety
import Rediska.Proofs.LayoutAccepts

/-! CLUSTER SLOTS and CLUSTER INFO are made from the ranges of the nodes, and commands are
routed by the owners of the slots. Both say the same. -/

namespace Rediska.Proofs
open Go Core Cluster Commands Storage Spec Logic

variable {layout : Layout}

/-- The ranges of the nodes share no slot, and are what the owners are taken from. -/
structure Partitioned (layout : Layout) : Prop where
  owners : ∀ slot i, layout.slotOwner slot = some i ↔ ∃ r ∈ (layout.nodes.get i).slots, InRange r slot
  apart : (layout.nodes.flatMap Node.slots).Pairwise (Apart SlotRange.first SlotRange.last)
  within : ∀ r ∈ layout.nodes.flatMap Node.slots, r.first ≤ r.last ∧ r.last < numSlots

theorem parseLayout_partitioned {nodeID : Bytes → Bytes} {file : Bytes} {port : Int} (parsed : parseLayout nodeID file port = .ok layout) :
    Partitioned layout := by
  obtain ⟨nodes, each, fine, reads⟩ := (Reads.start port).lines (.nil port) (parseLayout_ok_iff.mp parsed).1
  have ranges : nodes.flatMap NodeText.ranges = layout.nodes.flatMap Node.slots := reads.ranges
  refine ⟨reads.owners, ranges ▸ fine.slots, ?_⟩
  intro r among
  rw [← ranges] at among
  obtain ⟨t, told, has⟩ := List.mem_flatMap.mp among
  exact described_within each t told r has

/-- The owner array answers for the slots there are. -/
theorem Partitioned.owner (partitioned : Partitioned layout) (slot : Nat) (i : Fin layout.nodes.length) :
    layout.owner slot = some i ↔ ∃ r ∈ (layout.nodes.get i).slots, InRange r slot := by
  unfold Layout.owner
  split
  next outside =>
    refine iff_of_false nofun ?_
    intro ⟨r, has, _, high⟩
    have bound := (partitioned.within r (List.mem_flatMap.mpr ⟨_, List.get_mem _ _, has⟩)).2
    omega
  next => exact partitioned.owners slot i

theorem Partitioned.owned_iff (partitioned : Partitioned layout) (slot : Nat) :
    (layout.owner slot).isSome ↔ ∃ r ∈ layout.nodes.flatMap Node.slots, InRange r slot := by
  rw [Option.isSome_iff_exists]
  constructor
  · intro ⟨i, owns⟩
    obtain ⟨r, has, inside⟩ := (partitioned.owner slot i).mp owns
    exact ⟨r, List.mem_flatMap.mpr ⟨_, List.get_mem _ _, has⟩, inside⟩
  · intro ⟨r, among, inside⟩
    obtain ⟨n, known, has⟩ := List.mem_flatMap.mp among
    obtain ⟨i, rfl⟩ := List.get_of_mem known
    exact ⟨i, (partitioned.owner slot i).mpr ⟨r, has, inside⟩⟩

/-! CLUSTER SLOTS. -/

/-- The entries before they are sorted. -/
def entriesOf (l : Layout) : List (SlotRange × Node) := l.nodes.flatMap fun n => n.slots.map fun r => (r, n)

theorem entriesOf_ranges (l : Layout) : (entriesOf l).map Prod.fst = l.nodes.flatMap Node.slots := by
  simp [entriesOf, List.map_flatMap, Function.comp_def]

theorem mem_entriesOf {l : Layout} {entry : SlotRange × Node} : entry ∈ entriesOf l ↔ entry.2 ∈ l.nodes ∧ entry.1 ∈ entry.2.slots := by
  simp only [entriesOf, List.mem_flatMap, List.mem_map]
  constructor
  · rintro ⟨n, known, r, has, rfl⟩
    exact ⟨known, has⟩
  · intro ⟨known, has⟩
    exact ⟨entry.2, known, entry.1, has, rfl⟩

theorem slotEntries_perm (l : Layout) : (slotEntries l).Perm (entriesOf l) := List.perm_insertionSort _ _

theorem slotEntries_sorted (l : Layout) : (slotEntries l).Pairwise fun a b => a.1.first ≤ b.1.first := by
  have total : Std.Total fun a b : SlotRange × Node => a.1.first ≤ b.1.first := ⟨fun a b => Nat.le_total _ _⟩
  have trans : IsTrans (SlotRange × Node) fun a b => a.1.first ≤ b.1.first := ⟨fun _ _ _ => Nat.le_trans⟩
  exact List.pairwise_insertionSort _ _

theorem Partitioned.entries (partitioned : Partitioned layout) :
    (entriesOf layout).Pairwise (Apart (fun entry => entry.1.first) (fun entry => entry.1.last)) ∧
      ∀ entry ∈ entriesOf layout, entry.1.first ≤ entry.1.last := by
  have apart := partitioned.apart
  rw [← entriesOf_ranges, List.pairwise_map] at apart
  refine ⟨apart, ?_⟩
  intro entry among
  refine (partitioned.within entry.1 ?_).1
  rw [← entriesOf_ranges]
  exact List.mem_map_of_mem among

/-- However the sort treats equal starts, there is one order of the entries. -/
theorem Partitioned.slotEntries_unique (partitioned : Partitioned layout) {entries : List (SlotRange × Node)}
    (perm : entries.Perm (entriesOf layout)) (sorted : entries.Pairwise fun a b => a.1.first ≤ b.1.first) :
    entries = slotEntries layout := by
  obtain ⟨apart, proper⟩ := partitioned.entries
  exact sorted_unique apart proper perm (slotEntries_perm layout) sorted (slotEntries_sorted layout)

/-- An entry of CLUSTER SLOTS: its range and the node that serves it. -/
def Attributed (entry : SlotRange × Node) (text : Bytes) : Prop :=
  ∃ host port, text = encodeRawArray [encodeInteger entry.1.first, encodeInteger entry.1.last,
    encodeRawArray [encodeBulkString host, encodeInteger port, encodeBulkString entry.2.id, encodeRawArray []]]

theorem mapM_forall₂ {α β : Type} {f : α → Panics β} {R : α → β → Prop} (each : ∀ a b, f a = .ok b → R a b) {items : List α}
    {results : List β} (ran : items.mapM f = .ok results) : List.Forall₂ R items results := by
  induction items generalizing results with
  | nil =>
    cases ran
    exact .nil
  | cons item rest ih =>
    rw [List.mapM_cons] at ran
    obtain ⟨b, first, ran⟩ := bind_ok ran
    obtain ⟨others, more, ran⟩ := bind_ok ran
    cases ran
    exact .cons (each item b first) (ih more)

theorem clusterSlots_attributed {reply : Bytes} (ran : clusterSlots layout = .ok reply) :
    ∃ texts, reply = encodeRawArray texts ∧ List.Forall₂ Attributed (slotEntries layout) texts := by
  obtain ⟨texts, each, ran⟩ := bind_ok ran
  cases ran
  refine ⟨texts, rfl, mapM_forall₂ ?_ each⟩
  intro entry text written
  obtain ⟨⟨host, port⟩, _, written⟩ := bind_ok written
  cases written
  exact ⟨host, port, rfl⟩

/-- The entries tell of each slot the node that owns it, and come one after the other. -/
structure ReportsSlots (layout : Layout) (entries : List (SlotRange × Node)) : Prop where
  owned : ∀ slot i, layout.owner slot = some i → ∃ r, (entries.filter fun entry => InRange entry.1 slot) = [(r, layout.nodes.get i)]
  unowned : ∀ slot, layout.owner slot = none → (entries.filter fun entry => InRange entry.1 slot) = []
  proper : ∀ entry ∈ entries, entry.1.first ≤ entry.1.last
  ordered : entries.Pairwise fun a b => a.1.last < b.1.first

theorem Partitioned.reports (partitioned : Partitioned layout) : ReportsSlots layout (slotEntries layout) := by
  obtain ⟨apart, proper⟩ := partitioned.entries
  have perm := slotEntries_perm layout
  have apart' := perm.symm.pairwise apart Apart.symm
  have proper' : ∀ entry ∈ slotEntries layout, entry.1.first ≤ entry.1.last := fun entry among => proper entry (perm.subset among)
  refine ⟨?_, ?_, proper', pairwise_before (slotEntries_sorted layout) apart' proper'⟩
  · intro slot i owns
    obtain ⟨r, has, inside⟩ := (partitioned.owner slot i).mp owns
    have among : (r, layout.nodes.get i) ∈ slotEntries layout := perm.symm.subset (mem_entriesOf.mpr ⟨List.get_mem _ _, has⟩)
    exact ⟨r, filter_covers apart' among inside⟩
  · intro slot nobody
    rw [List.filter_eq_nil_iff]
    intro entry among inside
    obtain ⟨known, has⟩ := mem_entriesOf.mp (perm.subset among)
    have owned := (partitioned.owned_iff slot).mpr ⟨entry.1, List.mem_flatMap.mpr ⟨entry.2, known, has⟩, of_decide_eq_true inside⟩
    rw [nobody] at owned
    cases owned

/-! CLUSTER INFO. -/

/-- The slots that somebody owns. -/
def ownedSlots (layout : Layout) : Finset Nat := (Finset.range numSlots).filter fun slot => (layout.owner slot).isSome

theorem Partitioned.assigned (partitioned : Partitioned layout) :
    (layout.nodes.flatMap fun n => n.slots.map fun r => r.last - r.first + 1).sum = (ownedSlots layout).card := by
  have total := card_covered partitioned.apart (fun r among => (partitioned.within r among).1) fun r among => (partitioned.within r among).2
  rw [List.map_flatMap] at total
  rw [← total, ownedSlots]
  simp only [partitioned.owned_iff]

theorem ownedSlots_all_iff : (ownedSlots layout).card < numSlots ↔ ¬ ∀ slot < numSlots, (layout.owner slot).isSome := by
  have most : (ownedSlots layout).card ≤ numSlots := by
    have within := Finset.card_filter_le (Finset.range numSlots) fun slot => (layout.owner slot).isSome
    rwa [Finset.card_range] at within
  have all : (ownedSlots layout).card = numSlots ↔ ∀ slot < numSlots, (layout.owner slot).isSome := by
    have whole := Finset.card_filter_eq_iff (s := Finset.range numSlots) (p := fun slot => (layout.owner slot).isSome)
    simpa only [ownedSlots, Finset.card_range, Finset.mem_range] using whole
  rw [← all]
  omega

/-- The text begins with whether all slots are served and with how many are. -/
theorem Partitioned.info (partitioned : Partitioned layout) :
    ∃ rest, clusterInfo layout = ascii "cluster_state:" ++
      (if ∀ slot < numSlots, (layout.owner slot).isSome then ascii "ok" else ascii "fail") ++ crlf ++
      ascii "cluster_slots_assigned:" ++ itoa (ownedSlots layout).card ++ crlf ++ rest := by
  have state (ok fail : Bytes) : (if (ownedSlots layout).card < numSlots then fail else ok) =
      if ∀ slot < numSlots, (layout.owner slot).isSome then ok else fail := by
    by_cases all : ∀ slot < numSlots, (layout.owner slot).isSome
    · rw [if_pos all, if_neg (fun less => ownedSlots_all_iff.mp less all)]
    · rw [if_neg all, if_pos (ownedSlots_all_iff.mpr all)]
  unfold clusterInfo
  dsimp only
  rw [partitioned.assigned, state]
  simp only [List.append_assoc, List.append_cancel_left_eq, exists_eq']

section
variable {env : Env} {cfg : Config}

theorem handleCluster_slots (enabled : cfg.clusterEnabled = true) (loaded : cfg.current = some layout) :
    handleCluster env cfg [ascii "SLOTS"] = clusterSlots layout := by
  have upper : toUpper env.unicode (ascii "SLOTS") = ascii "SLOTS" := rfl
  simp only [handleCluster, enabled, currentLayout, loaded, upper]
  rfl

theorem handleCluster_info (enabled : cfg.clusterEnabled = true) (loaded : cfg.current = some layout) :
    handleCluster env cfg [ascii "INFO"] = .ok (encodeBulkString (clusterInfo layout)) := by
  have upper : toUpper env.unicode (ascii "INFO") = ascii "INFO" := rfl
  simp only [handleCluster, enabled, currentLayout, loaded, upper]
  rfl

end

/-- What CLUSTER reports is what routing does, and the same on every node. -/
theorem cluster_reports_routing {nodeID : Bytes → Bytes} {file : Bytes} {port : Int} (parsed : parseLayout nodeID file port = .ok layout)
    (env : Env) {cfg : Config} (enabled : cfg.clusterEnabled = true) (loaded : cfg.current = some layout) :
    (∃ texts, handleCluster env cfg [ascii "SLOTS"] = .ok (encodeRawArray texts) ∧ List.Forall₂ Attributed (slotEntries layout) texts) ∧
    ReportsSlots layout (slotEntries layout) ∧
    (∀ entries, entries.Perm (entriesOf layout) → (entries.Pairwise fun a b => a.1.first ≤ b.1.first) → entries = slotEntries layout) ∧
    (∃ rest, handleCluster env cfg [ascii "INFO"] = .ok (encodeBulkString (ascii "cluster_state:" ++
      (if ∀ slot < numSlots, (layout.owner slot).isSome then ascii "ok" else ascii "fail") ++ crlf ++
      ascii "cluster_slots_assigned:" ++ itoa (ownedSlots layout).card ++ crlf ++ rest))) ∧
    ∀ port' layout' env' cfg', parseLayout nodeID file port' = .ok layout' → cfg'.clusterEnabled = true → cfg'.current = some layout' →
      handleCluster env' cfg' [ascii "SLOTS"] = handleCluster env cfg [ascii "SLOTS"] := by
  have partitioned := parseLayout_partitioned parsed
  refine ⟨?_, partitioned.reports, fun entries perm sorted => partitioned.slotEntries_unique perm sorted, ?_, ?_⟩
  · obtain ⟨reply, ran⟩ := clusterSlots_returns layout
    obtain ⟨texts, rfl, each⟩ := clusterSlots_attributed ran
    exact ⟨texts, (handleCluster_slots enabled loaded).trans ran, each⟩
  · obtain ⟨rest, text⟩ := partitioned.info
    exact ⟨rest, by rw [handleCluster_info enabled loaded, text]⟩
  · intro port' layout' env' cfg' parsed' enabled' loaded'
    rw [handleCluster_slots enabled loaded, handleCluster_slots enabled' loaded']
    obtain ⟨nodes, self, self', slotOwner, rfl, rfl, _⟩ := parseLayout_same parsed parsed'
    rfl

theorem reports_of_one_node :
    ∃ layout, parseLayout id (ascii "a h:7001 0-5 7") 7001 = .ok layout ∧ ReportsSlots layout (slotEntries layout) := by
  have parsed : ∃ layout, parseLayout id (ascii "a h:7001 0-5 7") 7001 = .ok layout := ⟨_, rfl⟩
  obtain ⟨layout, parsed⟩ := parsed
  let settings : Config := { Config.plain with clusterEnabled := true, current := some layout }
  have enabled : settings.clusterEnabled = true := rfl
  have loaded : settings.current = some layout := rfl
  exact ⟨layout, parsed, (cluster_reports_routing parsed (.still 0) enabled loaded).2.1⟩

end Rediska.Proofs
