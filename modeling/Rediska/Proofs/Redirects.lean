import Rediska.Proofs.BatchRuns
import Rediska.Proofs.ClusterOwnership

/-! A redirect leads to a node that serves the command. -/

namespace Rediska.Proofs
open Go Core Storage Commands Cluster Spec

/-- The answer that sends a client to another node. -/
def movedReply (slot : Nat) (addr : Bytes) : Bytes := encodeError (ascii "MOVED " ++ itoa slot ++ ascii " " ++ addr)

theorem itoa_no_space (n : Int) : 32 ∉ itoa n := by
  intro inside
  unfold itoa at inside
  split at inside
  · rcases List.mem_cons.mp inside with same | digit
    · cases same
    · exact absurd (natText_digits _ _ digit).1 (by decide)
  · exact absurd (natText_digits _ _ inside).1 (by decide)

/-- The address stands behind the first space after the slot. -/
theorem movedReply_addr {slot slot' : Nat} {addr addr' : Bytes} (same : movedReply slot addr = movedReply slot' addr') : addr = addr' := by
  have text : itoa slot ++ 32 :: (addr ++ crlf) = itoa slot' ++ 32 :: (addr' ++ crlf) := by
    simp only [movedReply, encodeError, List.append_assoc, List.append_cancel_left_eq] at same
    exact same
  have rest := congrArg (List.dropWhile (· ≠ 32)) text
  rw [List.dropWhile_append_of_pos, List.dropWhile_append_of_pos] at rest
  · simpa using rest
  all_goals
    intro b inside
    simp only [ne_eq, decide_not, Bool.not_eq_eq_eq_not, Bool.not_true, decide_eq_false_iff_not]
    rintro rfl
    exact itoa_no_space _ inside

theorem movedReply_take (slot : Nat) (addr : Bytes) : (movedReply slot addr).take 4 = ascii "-MOV" := rfl

variable {cfg cfg' : Config} {keys : List Bytes} {reply : Bytes}

/-- Two nodes with the same map refuse keys with the same words, except that the owner of
their slot does not refuse them. -/
theorem checkKeys_refused {nodes : List Node} {self self' : Fin nodes.length} {slotOwner : Nat → Option (Fin nodes.length)}
    (loaded : cfg.current = some ⟨nodes, self, slotOwner⟩) (loaded' : cfg'.current = some ⟨nodes, self', slotOwner⟩)
    (refused : checkKeys cfg keys = some reply) :
    (checkKeys cfg' keys = some reply ∧ reply.take 4 ≠ ascii "-MOV") ∨
    ∃ slot owner, reply = movedReply slot (nodes.get owner).addr ∧ checkKeys cfg' keys = if owner ≠ self' then some reply else none := by
  unfold checkKeys at refused ⊢
  rw [loaded] at refused
  rw [loaded']
  cases keys with
  | nil => cases refused
  | cons key rest =>
    dsimp only at refused ⊢
    split at refused
    next apart =>
      cases refused
      rw [if_pos apart]
      exact .inl ⟨rfl, by decide⟩
    next one =>
      rw [if_neg one]
      have same : (Layout.mk nodes self' slotOwner).owner (keyHashSlot key) = (Layout.mk nodes self slotOwner).owner (keyHashSlot key) := rfl
      rw [same]
      split at refused
      · cases refused
        exact .inl ⟨rfl, by decide⟩
      next owner _ =>
        split at refused
        · cases refused
          exact .inr ⟨keyHashSlot key, owner, rfl, rfl⟩
        · cases refused

variable {env env' : Env} {w w' after : World} {cmd : Command}

/-- Nobody but the cluster check answers so. -/
theorem dispatch_clusterError (returned : dispatch env cfg w cmd = .ok (reply, after)) (error : ClusterError reply) :
    ∃ name, lookupCommand cmd.name = some name ∧ checkCluster cfg cmd = some reply := by
  cases known : lookupCommand cmd.name with
  | none =>
    simp only [dispatch, known] at returned
    cases returned
    exact absurd error.take (by simp [encodeError, ascii])
  | some name =>
    refine ⟨name, rfl, ?_⟩
    cases checked : checkCluster cfg cmd with
    | none => exact absurd error (dispatch_not_clusterError known checked returned)
    | some refusal =>
      simp only [dispatch, known, checked] at returned
      cases returned
      rfl

theorem dispatch_refused {name : CommandName} (known : lookupCommand cmd.name = some name)
    (refused : checkCluster cfg cmd = some reply) : dispatch env cfg w cmd = .ok (reply, w) := by
  simp only [dispatch, known, refused]

theorem get_addr_injective {nodes : List Node} (addressed : (nodes.map Node.addr).Nodup) {i j : Fin nodes.length}
    (same : (nodes.get i).addr = (nodes.get j).addr) : i = j := by
  have same' : (nodes.map Node.addr)[i.val] = (nodes.map Node.addr)[j.val] := by simpa using same
  exact Fin.ext (addressed.getElem_inj_iff.mp same')

section
variable {nodeID : Bytes → Bytes} {file : Bytes} {p q : Int} {layout layout' : Layout}

/-- The node that a redirect names serves the keys. -/
theorem checkKeys_moved (mine : parseLayout nodeID file p = .ok layout) (other : parseLayout nodeID file q = .ok layout')
    (loaded : cfg.current = some layout) (loaded' : cfg'.current = some layout') {slot : Nat} {addr : Bytes}
    (moved : checkKeys cfg keys = some (movedReply slot addr)) (named : (layout'.nodes.get layout'.self).addr = addr) :
    checkKeys cfg' keys = none := by
  obtain ⟨nodes, self, self', slotOwner, rfl, rfl, addressed⟩ := parseLayout_same mine other
  rcases checkKeys_refused loaded loaded' moved with ⟨_, other⟩ | ⟨slot', owner, text, answer⟩
  · exact absurd (movedReply_take slot addr) other
  · have here : owner = self' := by
      apply get_addr_injective addressed
      rw [← movedReply_addr text]
      exact named.symm
    rw [answer, if_neg (not_not_intro here)]

/-- Nodes with the same file tell the same errors that are not redirects. -/
theorem checkKeys_agree (mine : parseLayout nodeID file p = .ok layout) (other : parseLayout nodeID file q = .ok layout')
    (loaded : cfg.current = some layout) (loaded' : cfg'.current = some layout') (refused : checkKeys cfg keys = some reply)
    (stays : reply.take 4 ≠ ascii "-MOV") : checkKeys cfg' keys = some reply := by
  obtain ⟨nodes, self, self', slotOwner, rfl, rfl, _⟩ := parseLayout_same mine other
  rcases checkKeys_refused loaded loaded' refused with ⟨same, _⟩ | ⟨slot, owner, rfl, _⟩
  · exact same
  · exact absurd (movedReply_take slot _) stays

/-- The command gets an answer that begins with the code. -/
def Says (env : Env) (cfg : Config) (w : World) (cmd : Command) (code : Bytes) : Prop :=
  ∃ reply after, dispatch env cfg w cmd = .ok (reply, after) ∧ code <+: reply

/-- The errors that no other node can help with. -/
def stayingErrors : List Bytes := [ascii "-CROSSSLOT", ascii "-CLUSTERDOWN"]

theorem stayingErrors_begin : ∀ code ∈ stayingErrors, 4 ≤ code.length ∧ code.take 4 ≠ ascii "-MOV" := by decide

theorem stayingErrors_clusterError {code rest : Bytes} (listed : code ∈ stayingErrors) : ClusterError (code ++ rest) :=
  ⟨code, List.mem_append_left [ascii "-MOVED"] listed, rest, rfl⟩

theorem Says.other (mine : parseLayout nodeID file p = .ok layout) (other : parseLayout nodeID file q = .ok layout')
    (loaded : cfg.current = some layout) (loaded' : cfg'.current = some layout') {code : Bytes} (listed : code ∈ stayingErrors)
    (said : Says env cfg w cmd code) : Says env' cfg' w' cmd code := by
  obtain ⟨reply, after, returned, rest, rfl⟩ := said
  obtain ⟨name, known, refused⟩ := dispatch_clusterError returned (stayingErrors_clusterError listed)
  obtain ⟨long, stays⟩ := stayingErrors_begin code listed
  have stays' : (code ++ rest).take 4 ≠ ascii "-MOV" := by rwa [List.take_append_of_le_length long]
  exact ⟨code ++ rest, w', dispatch_refused known (checkKeys_agree mine other loaded loaded' refused stays'), rest, rfl⟩

/-- A command sent on to the node that a redirect names is not refused there again, and
all nodes agree on which commands are refused for good. -/
theorem redirects_converge (mine : parseLayout nodeID file p = .ok layout) (other : parseLayout nodeID file q = .ok layout')
    (loaded : cfg.current = some layout) (loaded' : cfg'.current = some layout') (env env' : Env) (w w' : World) (cmd : Command) :
    (∀ slot addr after, dispatch env cfg w cmd = .ok (movedReply slot addr, after) →
      (layout'.nodes.get layout'.self).addr = addr →
        checkCluster cfg' cmd = none ∧ ∀ reply after', dispatch env' cfg' w' cmd = .ok (reply, after') → ¬ ClusterError reply) ∧
    ∀ code ∈ stayingErrors, Says env cfg w cmd code ↔ Says env' cfg' w' cmd code := by
  refine ⟨?_, ?_⟩
  · intro slot addr after returned named
    have error : ClusterError (movedReply slot addr) := ⟨ascii "-MOVED", by decide, _, rfl⟩
    obtain ⟨name, known, moved⟩ := dispatch_clusterError returned error
    have passed : checkCluster cfg' cmd = none := checkKeys_moved mine other loaded loaded' moved named
    exact ⟨passed, fun reply after' answered => dispatch_not_clusterError known passed answered⟩
  · intro code listed
    exact ⟨Says.other mine other loaded loaded' listed, Says.other other mine loaded' loaded listed⟩

end

/-- Node b sends a client that asks for k to node a, which serves it. -/
theorem redirect_to_owner :
    dispatch (.still 0) (settingsOfTwo false) ⟨.new .noeviction, none⟩ ⟨ascii "GET", [ascii "k"]⟩ =
        .ok (movedReply 7629 (ascii "h:1"), ⟨.new .noeviction, none⟩) ∧
      checkCluster (settingsOfTwo true) ⟨ascii "GET", [ascii "k"]⟩ = none := by
  have known : lookupCommand (ascii "GET") = some .get := by decide +kernel
  have refused : checkCluster (settingsOfTwo false) ⟨ascii "GET", [ascii "k"]⟩ = some (movedReply 7629 (ascii "h:1")) := by
    decide +kernel
  have moved : dispatch (.still 0) (settingsOfTwo false) ⟨.new .noeviction, none⟩ ⟨ascii "GET", [ascii "k"]⟩ =
      .ok (movedReply 7629 (ascii "h:1"), ⟨.new .noeviction, none⟩) := dispatch_refused known refused
  have named : ((layoutOfTwo true).nodes.get (layoutOfTwo true).self).addr = ascii "h:1" := by decide +kernel
  have loaded (i : Bool) : (settingsOfTwo i).current = some (layoutOfTwo i) := rfl
  obtain ⟨converges, _⟩ := redirects_converge (layoutOfTwo_read false) (layoutOfTwo_read true) (loaded false) (loaded true) (.still 0) (.still 0)
    ⟨.new .noeviction, none⟩ ⟨.new .noeviction, none⟩ ⟨ascii "GET", [ascii "k"]⟩
  exact ⟨moved, (converges 7629 (ascii "h:1") _ moved named).1⟩

end Rediska.Proofs
