import Rediska.Commands.Dispatch
import Rediska.Spec.Reply

/-! The cluster check: which keys it lets through, and what it says to the others. -/

namespace Rediska.Proofs
open Go Core Cluster Commands Spec

/-- All keys hash to the same slot. -/
def OneSlot (keys : List Bytes) : Prop := ∀ key ∈ keys, ∀ other ∈ keys, keyHashSlot other = keyHashSlot key

/-- The test of the source compares with the first key only. -/
theorem oneSlot_cons {key : Bytes} {rest : List Bytes} :
    OneSlot (key :: rest) ↔ ¬ rest.any (fun other => keyHashSlot other ≠ keyHashSlot key) := by
  simp only [List.any_eq_true, decide_eq_true_eq, not_exists, not_and, Classical.not_not]
  constructor
  · intro one other later
    exact one key List.mem_cons_self other (List.mem_cons_of_mem _ later)
  · intro same
    have first (other : Bytes) (named : other ∈ key :: rest) : keyHashSlot other = keyHashSlot key := by
      rcases List.mem_cons.mp named with rfl | later
      · rfl
      · exact same other later
    exact fun one named other also => (first other also).trans (first one named).symm

/-- How the keys of a command, or of a whole transaction, can have been checked. -/
inductive Checked (cfg : Config) (keys : List Bytes) : Option Bytes → Prop
  | off (off : cfg.current = none) : Checked cfg keys none
  | keyless (nothing : keys = []) : Checked cfg keys none
  | crossed (apart : ¬ OneSlot keys) :
      Checked cfg keys (some (encodeError (ascii "CROSSSLOT Keys in request don't hash to the same slot")))
  | down {layout : Layout} {key : Bytes} (loaded : cfg.current = some layout) (named : key ∈ keys)
      (unowned : layout.owner (keyHashSlot key) = none) :
      Checked cfg keys (some (encodeError (ascii "CLUSTERDOWN Hash slot not served")))
  | moved {layout : Layout} {key : Bytes} {owner : Fin layout.nodes.length} (loaded : cfg.current = some layout) (named : key ∈ keys)
      (owned : layout.owner (keyHashSlot key) = some owner) (elsewhere : owner ≠ layout.self) :
      Checked cfg keys (some (encodeError
        (ascii "MOVED " ++ itoa (keyHashSlot key) ++ ascii " " ++ (layout.nodes.get owner).addr)))
  | home {layout : Layout} (loaded : cfg.current = some layout) (one : OneSlot keys)
      (mine : ∀ key ∈ keys, layout.owner (keyHashSlot key) = some layout.self) : Checked cfg keys none

variable {cfg : Config} {layout : Layout} {keys : List Bytes} {reply : Bytes}

theorem checkKeys_checked (cfg : Config) (keys : List Bytes) : Checked cfg keys (checkKeys cfg keys) := by
  unfold checkKeys
  split
  next off => exact .off off
  next => exact .keyless rfl
  next layout key rest loaded =>
    dsimp only
    split
    next apart => exact .crossed fun one => oneSlot_cons.mp one apart
    next same =>
      have one := oneSlot_cons.mpr same
      split
      next unowned => exact .down loaded List.mem_cons_self unowned
      next owner owned =>
        split
        next elsewhere => exact .moved loaded List.mem_cons_self owned elsewhere
        next mine =>
          refine .home loaded one fun other named => ?_
          rw [one key List.mem_cons_self other named, owned, Classical.not_not.mp mine]

theorem checkKeys_off (off : cfg.current = none) (keys : List Bytes) : checkKeys cfg keys = none := by
  unfold checkKeys
  rw [off]

theorem checkKeys_nil (cfg : Config) : checkKeys cfg [] = none := by
  unfold checkKeys
  cases cfg.current <;> rfl

theorem checkKeys_none (loaded : cfg.current = some layout) :
    checkKeys cfg keys = none ↔ OneSlot keys ∧ ∀ key ∈ keys, layout.owner (keyHashSlot key) = some layout.self := by
  have checked := checkKeys_checked cfg keys
  constructor
  · intro passed
    rw [passed] at checked
    cases checked with
    | off off =>
      rw [loaded] at off
      cases off
    | keyless nothing =>
      subst nothing
      exact ⟨nofun, nofun⟩
    | home loaded' one mine =>
      rw [loaded] at loaded'
      cases loaded'
      exact ⟨one, mine⟩
  · rintro ⟨one, mine⟩
    generalize checkKeys cfg keys = outcome at checked
    cases checked with
    | off | keyless | home => rfl
    | crossed apart => exact absurd one apart
    | down loaded' named unowned =>
      rw [loaded] at loaded'
      cases loaded'
      rw [mine _ named] at unowned
      cases unowned
    | moved loaded' named owned elsewhere =>
      rw [loaded] at loaded'
      cases loaded'
      rw [mine _ named] at owned
      exact absurd (Option.some.inj owned).symm elsewhere

theorem checkKeys_passed (loaded : cfg.current = some layout) (passed : checkKeys cfg keys = none) {key : Bytes}
    (named : key ∈ keys) : layout.owner (keyHashSlot key) = some layout.self :=
  ((checkKeys_none loaded).mp passed).2 key named

theorem checkKeys_wellFormed (refused : checkKeys cfg keys = some reply) : ∃ text, OneLine text ∧ reply = encodeError text := by
  have checked := checkKeys_checked cfg keys
  rw [refused] at checked
  cases checked with
  | crossed | down => exact ⟨_, oneLine_literal (by decide), rfl⟩
  | @moved layout _ owner =>
    refine ⟨_, ?_, rfl⟩
    rw [OneLine.append, OneLine.append, OneLine.append]
    exact ⟨⟨⟨oneLine_literal (by decide), oneLine_itoa _⟩, oneLine_literal (by decide)⟩, (layout.nodes.get owner).oneLine⟩

/-- A command or transaction that must not run on this node. -/
def ClusterError (reply : Bytes) : Prop := ∃ code ∈ [ascii "-CROSSSLOT", ascii "-CLUSTERDOWN", ascii "-MOVED"], code <+: reply

instance (reply : Bytes) : Decidable (ClusterError reply) := inferInstanceAs (Decidable (∃ code ∈ _, _))

theorem ClusterError.take (refused : ClusterError reply) : reply.take 4 ∈ [ascii "-CRO", ascii "-CLU", ascii "-MOV"] := by
  obtain ⟨code, listed, rest, rfl⟩ := refused
  have long : 4 ≤ code.length := by
    revert code
    decide
  rw [List.take_append_of_le_length long]
  revert code
  decide

theorem checkKeys_clusterError (refused : checkKeys cfg keys = some reply) : ClusterError reply := by
  have checked := checkKeys_checked cfg keys
  rw [refused] at checked
  cases checked with
  | crossed => exact ⟨ascii "-CROSSSLOT", by decide, by decide⟩
  | down => exact ⟨ascii "-CLUSTERDOWN", by decide, by decide⟩
  | moved =>
    refine ⟨ascii "-MOVED", by decide, ?_⟩
    rw [encodeError, List.append_assoc, List.append_assoc, List.append_assoc, List.append_assoc]
    exact ⟨_, rfl⟩

end Rediska.Proofs
