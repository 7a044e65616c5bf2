import Rediska.Proofs.KeyspaceRuns
import Rediska.Server.Histories
import Rediska.Spec.Shards

/-! A cluster is one keyspace. Each node has a shard of it, for it serves the keys in its
own slots only; what it has besides is never seen. -/

namespace Rediska.Proofs
open Go Core Cluster Storage Commands Server Spec Logic

/-! What a node does to its shard, it does to the whole. -/

section
variable {owns : Bytes → Prop} [DecidablePred owns] {env : Env} {cfg : Config} {rules : Rules} {stores stores' : Keyspace → Store → Prop}
  {began ended : Int} {K left whole : Keyspace} {cmd : Command} {reply : Bytes}

theorem serves_beside (serves : Serves env cfg rules stores began ended K cmd reply left)
    (owned : checkCluster cfg cmd = none → ∀ key ∈ keysOf cmd, owns key) (lifts : ∀ K s, stores K s → stores' (K.beside owns whole) s) :
    Serves env cfg rules stores' began ended (K.beside owns whole) cmd reply (left.beside owns whole) := by
  cases serves with
  | answered known asked here made readings runs =>
    refine .answered known asked here (made.beside lifts) readings ?_
    rw [Request.run_beside fun key named => owned here key (requestOf_keys known asked named), runs]
    rfl
  | passed passed => exact .passed (passed.beside lifts)

theorem serving_beside {final : Int} {done : List (Command × Bytes)} (serving : Serving env cfg rules stores began K done final left)
    (owned : ∀ cmd, checkCluster cfg cmd = none → ∀ key ∈ keysOf cmd, owns key)
    (lifts : ∀ K s, stores K s → stores' (K.beside owns whole) s) :
    Serving env cfg rules stores' began (K.beside owns whole) done final (left.beside owns whole) := by
  induction serving with
  | nil => exact .nil _ _
  | cons serves forward _ ih => exact .cons (serves_beside serves (owned _) lifts) forward ih

end

/-! The cluster. -/

section
variable {ι : Type} {env : ι → Env} {cfg : ι → Config} {policy : ι → Policy} {layout : ι → Layout} {initial : ι → World}

/-- The keys a node serves. -/
def Owns (layout : Layout) (key : Bytes) : Prop := layout.owner (keyHashSlot key) = some layout.self

instance (layout : Layout) : DecidablePred (Owns layout) :=
  fun key => inferInstanceAs (Decidable (layout.owner (keyHashSlot key) = some layout.self))

/-- The nodes' keyspaces are the whole's shards. -/
def Sharded (layout : ι → Layout) (shards : ι → Keyspace) (whole : Keyspace) : Prop := ∀ i key, Owns (layout i) key → whole key = shards i key

/-- The stores of a node whose shard has these contents. -/
def ShardStores (env : ι → Env) (cfg : ι → Config) (policy : ι → Policy) (layout : ι → Layout) (initial : ι → World) (i : ι)
    (whole : Keyspace) (s : Store) : Prop :=
  ∃ shard, StoresFrom (env i) (cfg i) (policy i) (initial i) shard s ∧ ∀ key, Owns (layout i) key → whole key = shard key

/-- One keyspace answers requests to the nodes. -/
def OneKeyspace (env : ι → Env) (cfg : ι → Config) (policy : ι → Policy) (layout : ι → Layout) (initial : ι → World) (start : Keyspace)
    (order : List ((ι × SentRequest) × Bytes)) (left : Keyspace) : Prop :=
  ClusterAnswers env cfg (fun i => rulesOf (env i) (policy i)) (ShardStores env cfg policy layout initial) start
    (order.map fun done => (done.1.1, done.1.2.body, done.2)) left

theorem Sharded.eq_beside {shards : ι → Keyspace} {whole : Keyspace} (sharded : Sharded layout shards whole) (i : ι) :
    (shards i).beside (Owns (layout i)) whole = whole := by
  funext key
  unfold Keyspace.beside
  split
  next owned => exact (sharded i key owned).symm
  · rfl

theorem Sharded.update [DecidableEq ι] {shards : ι → Keyspace} {whole : Keyspace} (sharded : Sharded layout shards whole)
    (apart : ∀ i j key, Owns (layout i) key → Owns (layout j) key → i = j) (i : ι) (left : Keyspace) :
    Sharded layout (Function.update shards i left) (left.beside (Owns (layout i)) whole) := by
  intro j key owned
  by_cases same : j = i
  · subst same
    rw [Function.update_self, Keyspace.beside_owned owned]
  · rw [Function.update_of_ne same, Keyspace.beside, if_neg fun mine => same (apart j i key owned mine)]
    exact sharded j key owned

/-- The requests executed on the nodes explain what was seen so far, as one keyspace
serves them. -/
structure ClusterExplained (env : ι → Env) (cfg : ι → Config) (policy : ι → Policy) (layout : ι → Layout) (initial : ι → World)
    (start : Keyspace) (history : List (HistoryEvent (ι × SentRequest) Bytes)) (s : ι → System)
    (order : List ((ι × SentRequest) × Bytes)) : Prop where
  sound : ∀ i, Sound (env i) (cfg i) (initial i) (s i)
  effect : Linearizes history order
  calls : ∀ i, ∀ req ∈ (s i).sent, .call (i, req) ∈ history
  done : ∀ i req reply, ((i, req), reply) ∈ order ↔ (req, reply) ∈ (s i).executed
  once : (order.map (·.1)).Nodup
  keyspace : ∃ shards whole, (∀ i, ∃ world, Serial (env i) (cfg i) (initial i) (s i).executed world ∧
      Represents (env i) (policy i) world.store (shards i)) ∧ Sharded layout shards whole ∧
    OneKeyspace env cfg policy layout initial start order whole

variable [DecidableEq ι] {start : Keyspace} {history : List (HistoryEvent (ι × SentRequest) Bytes)} {s : ι → System} {i : ι} {after : System}
  {order : List ((ι × SentRequest) × Bytes)}

theorem update_apart (P : ι → System → Prop) (before : ∀ j, j ≠ i → P j (s j)) (now : P i after) (j : ι) :
    P j (Function.update s i after j) := by
  by_cases same : j = i
  · subst same
    rw [Function.update_self]
    exact now
  · rw [Function.update_of_ne same]
    exact before j same

/-- Something is seen of a node, and nothing executed. -/
theorem ClusterExplained.see (explained : ClusterExplained env cfg policy layout initial start history s order)
    (step : Step (env i) (cfg i) (s i) after) (same : after.executed = (s i).executed) {seen : List (HistoryEvent (ι × SentRequest) Bytes)}
    (effect : Linearizes (history ++ seen) order) (calls : ∀ req ∈ after.sent, .call (i, req) ∈ history ++ seen) :
    ClusterExplained env cfg policy layout initial start (history ++ seen) (Function.update s i after) order := by
  obtain ⟨shards, whole, serial, sharded, answers⟩ := explained.keyspace
  refine ⟨?_, effect, ?_, ?_, explained.once, shards, whole, ?_, sharded, answers⟩
  · exact update_apart _ (fun j _ => explained.sound j) ((explained.sound i).step step)
  · refine update_apart (fun j s => ∀ req ∈ s.sent, .call (j, req) ∈ history ++ seen) ?_ calls
    intro j _ req sent
    exact List.mem_append_left _ (explained.calls j req sent)
  · refine update_apart (fun j s => ∀ req reply, ((j, req), reply) ∈ order ↔ (req, reply) ∈ s.executed) (fun j _ => explained.done j) ?_
    rw [same]
    exact explained.done i
  · refine update_apart (fun j s => ∃ world, Serial (env j) (cfg j) (initial j) s.executed world ∧
      Represents (env j) (policy j) world.store (shards j)) (fun j _ => serial j) ?_
    rw [same]
    exact serial i

/-- A node has executed a request. -/
theorem ClusterExplained.enter (explained : ClusterExplained env cfg policy layout initial start history s order)
    (loaded : ∀ i, (cfg i).current = some (layout i)) (apart : ∀ i j key, Owns (layout i) key → Owns (layout j) key → i = j)
    (step : Step (env i) (cfg i) (s i) after) {req : SentRequest} {reply : Bytes} (sent : after.sent = (s i).sent)
    (asked : req ∈ (s i).worker.current) (executed : after.executed = (s i).executed ++ [(req, reply)]) :
    ClusterExplained env cfg policy layout initial start history (Function.update s i after) (order ++ [((i, req), reply)]) := by
  have known : req ∈ (s i).sent := by
    rw [(explained.sound i).flow.order]
    exact List.mem_append_right _ (List.mem_append_left _ asked)
  have fresh : (i, req) ∉ order.map (·.1) := by
    intro listed
    obtain ⟨⟨⟨j, other⟩, said⟩, found, same⟩ := List.mem_map.mp listed
    cases same
    have done := (explained.done i req said).mp found
    exact List.disjoint_of_nodup_append (explained.sound i).flow.nodup (List.mem_map_of_mem done) (List.mem_append_left _ asked)
  have later := (explained.sound i).step step
  obtain ⟨shards, whole, serial, sharded, answers⟩ := explained.keyspace
  obtain ⟨world, ran, same⟩ := serial i
  obtain ⟨final, whole_run⟩ := later.served.serial
  rw [executed] at whole_run
  obtain ⟨replies, each, text⟩ := dispatchWorker_inv (executes_next ran whole_run)
  obtain ⟨_, earlier⟩ := serial_commands ran
  obtain ⟨left, serving, kept⟩ := runAll_serving ((Leads.refl _ _ (initial i)).run earlier) same each
  have owned : ∀ cmd, checkCluster (cfg i) cmd = none → ∀ key ∈ keysOf cmd, Owns (layout i) key :=
    fun cmd passed key named => checkKeys_passed (loaded i) passed named
  have lifts (K : Keyspace) (s : Store) (stored : StoresFrom (env i) (cfg i) (policy i) (initial i) K s) :
      ShardStores env cfg policy layout initial i (K.beside (Owns (layout i)) whole) s :=
    ⟨K, stored, fun key owned => Keyspace.beside_owned owned⟩
  have lifted := serving_beside serving owned lifts
  rw [sharded.eq_beside i] at lifted
  refine ⟨update_apart _ (fun j _ => explained.sound j) later, explained.effect.enter (explained.calls i req known) reply, ?_, ?_, ?_,
    Function.update shards i left, left.beside (Owns (layout i)) whole, ?_, sharded.update apart i left, ?_⟩
  · refine update_apart (fun j s => ∀ req ∈ s.sent, .call (j, req) ∈ history) (fun j _ => explained.calls j) ?_
    rw [sent]
    exact explained.calls i
  · refine update_apart (fun j s => ∀ r said, ((j, r), said) ∈ order ++ [((i, req), reply)] ↔ (r, said) ∈ s.executed) ?_ ?_
    · intro j other r said
      rw [← explained.done j r said]
      simp [other]
    · intro r said
      rw [executed, List.mem_append, List.mem_append, explained.done i r said]
      simp
  · rw [List.map_append, List.nodup_append]
    refine ⟨explained.once, List.nodup_singleton _, ?_⟩
    intro op listed last here same
    have mine : last = (i, req) := List.mem_singleton.mp here
    rw [same, mine] at listed
    exact fresh listed
  · refine update_apart (fun j s => ∃ world, Serial (env j) (cfg j) (initial j) s.executed world ∧
      Represents (env j) (policy j) world.store (Function.update shards i left j)) ?_ ?_
    · intro j other
      rw [Function.update_of_ne other]
      exact serial j
    · rw [executed, Function.update_self]
      exact ⟨final, whole_run, kept⟩
  · rw [OneKeyspace, List.map_append]
    exact text ▸ .snoc answers (runAll_length each) lifted

theorem ClusterExplained.step (explained : ClusterExplained env cfg policy layout initial start history s order)
    (loaded : ∀ i, (cfg i).current = some (layout i)) (apart : ∀ i j key, Owns (layout i) key → Owns (layout j) key → i = j)
    (step : Step (env i) (cfg i) (s i) after) :
    ∃ order, ClusterExplained env cfg policy layout initial start (history ++ (observed (s i) after).map (atNode i))
      (Function.update s i after) order := by
  cases step_shown step with
  | @call req seen sent same =>
    rw [seen]
    refine ⟨order, explained.see step same (explained.effect.see _ nofun) ?_⟩
    intro other inside
    rw [sent] at inside
    rcases List.mem_append.mp inside with earlier | now
    · exact List.mem_append_left _ (explained.calls i other earlier)
    · rw [List.mem_singleton.mp now]
      exact List.mem_append_right _ List.mem_cons_self
  | @ret j req reply seen sent got same =>
    rw [seen]
    have done := (((explained.sound i).step step).matched.own j req reply got).2
    rw [same] at done
    refine ⟨order, explained.see step same (explained.effect.see _ ?_) ?_⟩
    · rintro _ _ ⟨⟩
      exact (explained.done i req reply).mpr done
    · intro other inside
      exact List.mem_append_left _ (explained.calls i other (sent ▸ inside))
  | @effect req reply quiet sent asked executed =>
    rw [quiet, List.map_nil, List.append_nil]
    exact ⟨_, explained.enter loaded apart step sent asked executed⟩
  | hidden quiet sent same =>
    rw [quiet]
    refine ⟨order, explained.see step same ?_ ?_⟩
    · rw [List.map_nil, List.append_nil]
      exact explained.effect
    · intro other inside
      exact List.mem_append_left _ (explained.calls i other (sent ▸ inside))

/-- Whatever clients send to whichever nodes and however the nodes run, what is seen of the
cluster is explained by one order in which one keyspace serves the requests, as if there
were no nodes: the errors of a node that is not the one to ask change nothing. -/
theorem cluster_is_one_keyspace {nodeID : Bytes → Bytes} {file : Bytes} {port : ι → Int} {shards : ι → Keyspace}
    (different : Function.Injective port) (parsed : ∀ i, parseLayout nodeID file (port i) = .ok (layout i))
    (loaded : ∀ i, (cfg i).current = some (layout i)) (same : ∀ i, Represents (env i) (policy i) (initial i).store (shards i))
    (sharded : Sharded layout shards start) (trace : ClusterTrace env cfg initial history s) :
    Linearizable (fun order => ∃ left, OneKeyspace env cfg policy layout initial start order left) history := by
  have apart (i j : ι) (key : Bytes) (mine : Owns (layout i) key) (other : Owns (layout j) key) : i = j :=
    different (owner_unique (parsed i) (parsed j) mine other)
  have explained : ∃ order, ClusterExplained env cfg policy layout initial start history s order := by
    induction trace with
    | start =>
      refine ⟨[], fun i => .start (initial i), .start, nofun, by simp [System.start], .nil, shards, start, ?_, sharded, .nil⟩
      intro i
      exact ⟨initial i, rfl, same i⟩
    | step _ step ih =>
      obtain ⟨order, explained⟩ := ih
      exact explained.step loaded apart step
  obtain ⟨order, explained⟩ := explained
  obtain ⟨_, whole, _, _, answers⟩ := explained.keyspace
  exact ⟨order, explained.effect.explains ⟨whole, answers⟩ explained.once⟩

end

/-- The command SET k v. -/
def setAtNode : CommandRequest := ⟨⟨ascii "SET", [ascii "k", ascii "v"]⟩, [], []⟩

/-- A client sets a key on the node that has its slot, after the other node has sent it
there. -/
theorem redirected_set_linearizable :
    ∃ (s : Bool → System) (history : List (HistoryEvent (Bool × SentRequest) Bytes)),
      ClusterTrace (fun _ => Env.still 0) settingsOfTwo (fun _ => ⟨.new .noeviction, none⟩) history s ∧
      history = [.call (false, ⟨0, 1, setAtNode, 0⟩), .ret (false, ⟨0, 1, setAtNode, 0⟩) (ascii "-MOVED 7629 h:1\r\n"),
        .call (true, ⟨0, 1, setAtNode, 0⟩), .ret (true, ⟨0, 1, setAtNode, 0⟩) (ascii "+OK\r\n")] ∧
      Linearizable (fun order => ∃ left, OneKeyspace (fun _ => Env.still 0) settingsOfTwo (fun _ => .noeviction) layoutOfTwo
        (fun _ => ⟨.new .noeviction, none⟩) (fun _ => none) order left) history := by
  have answer (i : Bool) : ∃ w, dispatch (.still 0) (settingsOfTwo i) ⟨.new .noeviction, none⟩ setAtNode.cmd =
      .ok (if i then ascii "+OK\r\n" else ascii "-MOVED 7629 h:1\r\n", w) := by
    have said : (match dispatch (.still 0) (settingsOfTwo i) ⟨.new .noeviction, none⟩ setAtNode.cmd with
        | .ok (reply, _) => decide (reply = if i then ascii "+OK\r\n" else ascii "-MOVED 7629 h:1\r\n")
        | .error _ => false) = true := by
      revert i
      decide +kernel
    split at said
    next reply w ran => exact ⟨w, of_decide_eq_true said ▸ ran⟩
    next => cases said
  obtain ⟨_, moved⟩ := answer false
  obtain ⟨_, stored⟩ := answer true
  have begun : ClusterTrace (fun _ : Bool => Env.still 0) settingsOfTwo (fun _ => ⟨.new .noeviction, none⟩) [] _ := .start
  have first := (begun.step (i := false) (.main (.accept rfl))).step (i := false) (.producer (.getNew (i := 1) setAtNode (by decide) rfl))
  have sent := (first.step (i := false) (.producer (.send (i := 1) rfl rfl (by decide)))).step (i := false) (.worker (.take rfl rfl))
  have replied := (sent.step (i := false) (.worker (.run rfl moved))).step (i := false) (.worker (.reply rfl rfl))
  have told := replied.step (i := false) (.producer (.receive (i := 1) rfl rfl))
  have second := (told.step (i := true) (.main (.accept rfl))).step (i := true) (.producer (.getNew (i := 1) setAtNode (by decide) rfl))
  have asked := (second.step (i := true) (.producer (.send (i := 1) rfl rfl (Nat.succ_pos 255)))).step (i := true) (.worker (.take rfl rfl))
  have answered := (asked.step (i := true) (.worker (.run rfl stored))).step (i := true) (.worker (.reply rfl rfl))
  have received := answered.step (i := true) (.producer (.receive (i := 1) rfl rfl))
  have explained := cluster_is_one_keyspace (by decide) layoutOfTwo_read (fun _ => rfl) (fun _ => .new _ _) (fun _ _ _ => rfl) received
  exact ⟨_, _, received, rfl, explained⟩

end Rediska.Proofs
