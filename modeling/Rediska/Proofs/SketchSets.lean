import Rediska.Proofs.KeyspaceRuns
import Rediska.Spec.Sets

/-! To its clients, the server counts sets. -/

namespace Rediska.Proofs
open Go Core Storage Commands Server Spec Logic

variable {env : Env} {cfg : Config} {policy : Policy} {K : Keyspace} {G : Gathering}

/-- Whatever the clients do when, what they see is explained by one order in which the
keyspace serves them, and a set is kept for each key of a sketch. A count is the estimate for
the set, and does not depend on how the set came about. A set is lost only when its key is
set, deleted or evicted. -/
theorem sketches_count_sets {initial : World} {history : List (HistoryEvent SentRequest Bytes)} {state : System}
    (same : Represents env policy initial.store K) (gathered : Gathered K G) (trace : Trace env cfg initial history state) :
    Linearizable (fun order => ∃ now left sets, CollectingAll env cfg (rulesOf env policy) (StoresFrom env cfg policy initial)
      (env.clock initial.store.tick) K G (order.map fun done => (done.1.body, done.2)) now left sets) history := by
  have sound := Sound.reached (trace_run trace)
  have once : (state.executed.map (·.1)).Nodup := (List.nodup_append.mp sound.flow.nodup).1
  obtain ⟨world, serial⟩ := sound.served.serial
  obtain ⟨left, answering, _⟩ := serial_answering (.refl env cfg initial) same serial
  obtain ⟨sets, collecting, _⟩ := gathered.collectingAll answering
  exact ⟨state.executed, (trace_explained trace).effect.explains ⟨_, left, sets, collecting⟩ once⟩

/-- One client adds a value, and another one adds it again. -/
theorem added_twice_new_once :
    ∃ s history, Trace (Env.still 0) .plain ⟨.new .noeviction, none⟩ history s ∧
      history = [.call ⟨0, 1, ⟨⟨ascii "PFADD", [ascii "k", ascii "a"]⟩, [], []⟩, 0⟩,
        .ret ⟨0, 1, ⟨⟨ascii "PFADD", [ascii "k", ascii "a"]⟩, [], []⟩, 0⟩ (ascii ":1\r\n"),
        .call ⟨1, 2, ⟨⟨ascii "PFADD", [ascii "k", ascii "a"]⟩, [], []⟩, 1⟩,
        .ret ⟨1, 2, ⟨⟨ascii "PFADD", [ascii "k", ascii "a"]⟩, [], []⟩, 1⟩ (ascii ":0\r\n")] ∧
      Linearizable (fun order => ∃ now left sets, CollectingAll (.still 0) .plain (rulesOf (.still 0) .noeviction)
        (StoresFrom (.still 0) .plain .noeviction ⟨.new .noeviction, none⟩) 0 (fun _ => none) (fun _ => none)
        (order.map fun done => (done.1.body, done.2)) now left sets) history := by
  have begun : Trace (Env.still 0) .plain ⟨.new .noeviction, none⟩ [] (.start ⟨.new .noeviction, none⟩) := .start
  have accepted := (begun.step (.main (.accept rfl))).step (.main (.accept rfl))
  have first := accepted.step (.producer (.getNew (i := 1) ⟨⟨ascii "PFADD", [ascii "k", ascii "a"]⟩, [], []⟩ (by decide) rfl))
  have sent := (first.step (.producer (.send (i := 1) rfl rfl (by decide)))).step (.worker (.take rfl rfl))
  have replied := (sent.step (.worker (.run rfl rfl))).step (.worker (.reply rfl rfl))
  have received := replied.step (.producer (.receive (i := 1) rfl rfl))
  have second := received.step (.producer (.getNew (i := 2) ⟨⟨ascii "PFADD", [ascii "k", ascii "a"]⟩, [], []⟩ (by decide) rfl))
  have again := (second.step (.producer (.send (i := 2) rfl rfl (by decide)))).step (.worker (.take rfl rfl))
  have answered := (again.step (.worker (.run rfl rfl))).step (.worker (.reply rfl rfl))
  have known := answered.step (.producer (.receive (i := 2) rfl rfl))
  exact ⟨_, _, known, rfl, sketches_count_sets (.new _ _) (fun _ => .nothing) known⟩

end Rediska.Proofs
