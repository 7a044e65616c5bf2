import Rediska.Proofs.BatchRuns
import Rediska.Proofs.ClusterOwnership
import Rediska.Proofs.Linearization
import Rediska.Proofs.LoggedChanges
import Rediska.Proofs.SharedServer
import Rediska.Spec.Machine

/-! The server refines the keyspace over whole runs: the commands that the worker has run,
of all clients and of the expiry goroutine, are a run of the keyspace with the same replies. -/

namespace Rediska.Proofs
open Go Core Storage Commands Server Spec Logic

variable {env : Env} {cfg : Config} {policy : Policy} {s : Store} {K : Keyspace}

/-- The commands of some run lead from one world to the other. -/
def Leads (env : Env) (cfg : Config) (initial w : World) : Prop := ∃ cmds replies, runAll (dispatch env cfg) initial cmds = .ok (replies, w)

/-- The stores with these contents that a server can come to. -/
def StoresFrom (env : Env) (cfg : Config) (policy : Policy) (initial : World) (K : Keyspace) (s : Store) : Prop :=
  Represents env policy s K ∧ ∃ w, Leads env cfg initial w ∧ w.store = s

section
variable {initial w after : World} {cmd : Command} {reply : Bytes}

theorem Leads.refl (env : Env) (cfg : Config) (w : World) : Leads env cfg w w := ⟨[], [], rfl⟩

theorem Leads.run {cmds : List Command} {replies : List Bytes} (leads : Leads env cfg initial w)
    (ran : runAll (dispatch env cfg) w cmds = .ok (replies, after)) : Leads env cfg initial after := by
  obtain ⟨earlier, said, before⟩ := leads
  exact ⟨earlier ++ cmds, said ++ replies, runAll_append.mpr ⟨said, replies, w, before, ran, rfl⟩⟩

theorem Leads.step (leads : Leads env cfg initial w) (ran : dispatch env cfg w cmd = .ok (reply, after)) : Leads env cfg initial after := by
  have one : runAll (dispatch env cfg) w [cmd] = .ok ([reply], after) := (runAll_cons ran).mpr ⟨[], rfl, rfl⟩
  exact leads.run one

theorem Leads.stores (leads : Leads env cfg initial w) (same : Represents env policy w.store K) :
    StoresFrom env cfg policy initial K w.store := ⟨same, w, leads, rfl⟩

theorem checkMemory_makesRoom {name : CommandName} {room : Store} {fits : Bool} (known : lookupCommand cmd.name = some name)
    (leads : Leads env cfg initial w) (same : Represents env policy w.store K)
    (checked : checkMemory env cfg name w.store = .ok (room, fits)) :
    ∃ left, Represents env policy room left ∧ MadeRoom cfg (StoresFrom env cfg policy initial) cmd K left := by
  cases memoryChecked checked with
  | free | stayed => exact ⟨K, same, .inl rfl⟩
  | evicted grows limited evicts ran =>
    by_cases above : w.store.overMemory (wrap64 (cfg.maxMemory * 2 ^ 20)) = true
    · obtain ⟨left, kept, thinned⟩ := performEvictions_thins same ran
      have full : Full cfg (StoresFrom env cfg policy initial) K := ⟨w.store, leads.stores same, limited, above⟩
      exact ⟨left, kept, .inr ⟨⟨name, known, grows, limited, evicts⟩, full, thinned⟩⟩
    · rw [performEvictions_fits env above] at ran
      cases ran
      exact ⟨K, same, .inl rfl⟩

/-- A command about something else than the keys and their values needs no room. -/
theorem grows_not_beyond {name : CommandName} {args : List Bytes} (beyond : isData name = false ∨ AsksFreq env name args) :
    ¬ denyOOMCommands name = true := by
  intro grows
  rcases beyond with other | ⟨rfl, _⟩
  · cases name with
    | set | incr | append | pfadd | pfmerge => cases other
    | _ => cases grows
  · cases grows

theorem checkMemory_beyond {name : CommandName} {args : List Bytes} (beyond : isData name = false ∨ AsksFreq env name args) (s : Store) :
    checkMemory env cfg name s = .ok (s, true) := by
  rw [checkMemory, if_neg fun limited => grows_not_beyond beyond limited.1]

/-- A handler that makes no request of the keyspace has an error for an answer, or shows
what the keyspace does not have. -/
theorem handler_passed {name : CommandName} {room s : Store} {left middle : Keyspace} (known : lookupCommand cmd.name = some name)
    (here : checkCluster cfg cmd = none) (leads : Leads env cfg initial w) (same : Represents env policy w.store K)
    (checked : checkMemory env cfg name w.store = .ok (room, true)) (kept : Represents env policy room middle)
    (made : MadeRoom cfg (StoresFrom env cfg policy initial) cmd K middle) (unasked : requestOf env name cmd.args = none)
    (ran : runHandler env cfg name room cmd.args = .ok (reply, s)) (final : StoresFrom env cfg policy initial left s)
    (shrunk : ShrunkAt (env.clock s.tick) middle left) :
    Passed env cfg (StoresFrom env cfg policy initial) (env.clock s.tick) K cmd reply left := by
  by_cases beyond : isData name = false ∨ AsksFreq env name cmd.args
  · rw [checkMemory_beyond beyond] at checked
    cases checked
    obtain rfl := kept.unique same
    exact .shown known here beyond (leads.stores same) ran shrunk final
  · have data : isData name = true := Bool.eq_true_of_not_eq_false fun other => beyond (.inl other)
    rcases handler_rejects cfg data unasked with ⟨said, error, rejects⟩ | ⟨sub, key, rest, object, args, freq⟩
    · rw [rejects room] at ran
      cases ran
      obtain rfl := final.1.unique kept
      exact .malformed known here unasked made error rejects
    · exact absurd (.inr ⟨object, sub, key, rest, args, freq⟩) beyond

theorem dispatch_serves (leads : Leads env cfg initial w) (same : Represents env policy w.store K)
    (ran : dispatch env cfg w cmd = .ok (reply, after)) :
    ∃ left, Serves env cfg (rulesOf env policy) (StoresFrom env cfg policy initial) (env.clock w.store.tick) (env.clock after.store.tick)
      K cmd reply left ∧ Represents env policy after.store left := by
  have later := leads.step ran
  cases dispatched ran with
  | unknown unknown => exact ⟨K, .passed (.unknown unknown), same⟩
  | refused refused => exact ⟨K, .passed (.elsewhere refused), same⟩
  | full known here checked =>
    obtain ⟨left, kept, made⟩ := checkMemory_makesRoom known leads same checked
    obtain ⟨grows, above⟩ := checkMemory_over checked
    exact ⟨left, .passed (.full known here grows made ⟨_, later.stores kept, above⟩), kept⟩
  | @ran name room s _ known here checked handled =>
    obtain ⟨middle, kept, made⟩ := checkMemory_makesRoom known leads same checked
    rw [appendAOF_store]
    rcases handler_returned kept handled with ⟨request, clock, left, asked, located, runs, final⟩ | ⟨unasked, left, final, shrunk, _⟩
    · have earlier := env.forward _ _ (checkMemory_moves checked).tick
      have between := located.2 _ _ handled
      refine ⟨left, .answered known asked here made ?_ runs, final⟩
      intro i
      exact ⟨earlier.trans (between i).1, (between i).2⟩
    · have stored : StoresFrom env cfg policy initial left s := ⟨final, _, later, appendAOF_store _ _ _ _⟩
      exact ⟨left, .passed (handler_passed known here leads same checked kept made unasked handled stored shrunk), final⟩

end

/-- A request is executed in the world that the earlier ones have led to. -/
theorem executes_next {executed : List (SentRequest × Bytes)} {req : SentRequest} {reply : Bytes} {initial world final : World}
    (before : Serial env cfg initial executed world) (now : Serial env cfg initial (executed ++ [(req, reply)]) final) :
    dispatchWorker env cfg world req.body = .ok (reply, final) := by
  unfold Serial at before now
  rw [List.map_append, List.map_append] at now
  obtain ⟨first, last, middle, early, late, same⟩ := runAll_append.mp now
  rw [before] at early
  cases early
  obtain ⟨⟨said, next⟩, ran, rest⟩ := bind_ok late
  cases rest
  cases (List.append_inj same rfl).2
  exact ran

theorem runAll_serving {initial w after : World} {cmds : List Command} {replies : List Bytes} (leads : Leads env cfg initial w)
    (same : Represents env policy w.store K) (ran : runAll (dispatch env cfg) w cmds = .ok (replies, after)) :
    ∃ left, Serving env cfg (rulesOf env policy) (StoresFrom env cfg policy initial) (env.clock w.store.tick) K (cmds.zip replies)
      (env.clock after.store.tick) left ∧ Represents env policy after.store left := by
  induction cmds generalizing w K replies with
  | nil =>
    cases ran
    exact ⟨K, .nil _ K, same⟩
  | cons cmd rest ih =>
    obtain ⟨⟨reply, next⟩, first, ran⟩ := bind_ok ran
    obtain ⟨⟨others, last⟩, later, ran⟩ := bind_ok ran
    cases ran
    obtain ⟨middle, serves, kept⟩ := dispatch_serves leads same first
    obtain ⟨left, serving, final⟩ := ih (leads.step first) kept later
    exact ⟨left, .cons serves (env.forward _ _ (dispatch_moves first).tick) serving, final⟩

theorem serial_answering {executed : List (SentRequest × Bytes)} {initial w world : World} (leads : Leads env cfg initial w)
    (same : Represents env policy w.store K) (serial : Serial env cfg w executed world) :
    ∃ left, Answering env cfg (rulesOf env policy) (StoresFrom env cfg policy initial) (env.clock w.store.tick) K
      (executed.map fun done => (done.1.body, done.2)) (env.clock world.store.tick) left ∧ Represents env policy world.store left := by
  induction executed generalizing w K with
  | nil =>
    cases serial
    exact ⟨K, .nil _ K, same⟩
  | cons done rest ih =>
    obtain ⟨⟨reply, next⟩, first, ran⟩ := bind_ok serial
    obtain ⟨⟨others, last⟩, later, ran⟩ := bind_ok ran
    obtain ⟨answers, rfl⟩ := Prod.mk.inj (Except.ok.inj ran)
    obtain ⟨mine, rfl⟩ := List.cons.inj answers
    obtain ⟨replies, returned, text⟩ := dispatchWorker_inv first
    obtain ⟨middle, serving, kept⟩ := runAll_serving leads same returned
    obtain ⟨left, answering, final⟩ := ih (leads.run returned) kept later
    have said : done.2 = replyOf cfg done.1.body replies := mine.symm.trans text
    refine ⟨left, ?_, final⟩
    rw [List.map_cons, said]
    exact .cons (runAll_length returned) serving answering

/-- To its clients the server is a keyspace: whatever they do when, what they see of their
requests is explained by one order in which the keyspace serves them one at a time. -/
theorem server_is_keyspace {initial : World} {history : List (HistoryEvent SentRequest Bytes)} {state : System}
    (same : Represents env policy initial.store K) (trace : Trace env cfg initial history state) :
    Linearizable (fun order => ∃ now left, Answering env cfg (rulesOf env policy) (StoresFrom env cfg policy initial)
      (env.clock initial.store.tick) K (order.map fun done => (done.1.body, done.2)) now left) history := by
  have sound := Sound.reached (trace_run trace)
  have once : (state.executed.map (·.1)).Nodup := (List.nodup_append.mp sound.flow.nodup).1
  obtain ⟨world, serial⟩ := sound.served.serial
  obtain ⟨left, answering, _⟩ := serial_answering (.refl env cfg initial) same serial
  exact ⟨state.executed, (trace_explained trace).effect.explains ⟨_, left, answering⟩ once⟩

/-- One client sets a key, and then another one reads it. -/
theorem set_and_read_linearizable :
    ∃ s history, Trace (Env.still 0) .plain ⟨.new .noeviction, none⟩ history s ∧
      history = [.call ⟨0, 1, ⟨⟨ascii "SET", [ascii "k", ascii "v"]⟩, [], []⟩, 0⟩,
        .ret ⟨0, 1, ⟨⟨ascii "SET", [ascii "k", ascii "v"]⟩, [], []⟩, 0⟩ (ascii "+OK\r\n"),
        .call ⟨1, 2, ⟨⟨ascii "GET", [ascii "k"]⟩, [], []⟩, 1⟩,
        .ret ⟨1, 2, ⟨⟨ascii "GET", [ascii "k"]⟩, [], []⟩, 1⟩ (ascii "$1\r\nv\r\n")] ∧
      Linearizable (fun order => ∃ now left, Answering (.still 0) .plain (rulesOf (.still 0) .noeviction)
        (StoresFrom (.still 0) .plain .noeviction ⟨.new .noeviction, none⟩) 0 (fun _ => none)
        (order.map fun done => (done.1.body, done.2)) now left) history := by
  have begun : Trace (Env.still 0) .plain ⟨.new .noeviction, none⟩ [] (.start ⟨.new .noeviction, none⟩) := .start
  have accepted := (begun.step (.main (.accept rfl))).step (.main (.accept rfl))
  have first := accepted.step (.producer (.getNew (i := 1) ⟨⟨ascii "SET", [ascii "k", ascii "v"]⟩, [], []⟩ (by decide) rfl))
  have sent := (first.step (.producer (.send (i := 1) rfl rfl (by decide)))).step (.worker (.take rfl rfl))
  have replied := (sent.step (.worker (.run rfl rfl))).step (.worker (.reply rfl rfl))
  have received := replied.step (.producer (.receive (i := 1) rfl rfl))
  have second := received.step (.producer (.getNew (i := 2) ⟨⟨ascii "GET", [ascii "k"]⟩, [], []⟩ (by decide) rfl))
  have asked := (second.step (.producer (.send (i := 2) rfl rfl (by decide)))).step (.worker (.take rfl rfl))
  have answered := (asked.step (.worker (.run rfl rfl))).step (.worker (.reply rfl rfl))
  have read := answered.step (.producer (.receive (i := 2) rfl rfl))
  exact ⟨_, _, read, rfl, server_is_keyspace (.new _ _) read⟩

/-- Making room for a command does not take the key. -/
def Spares (env : Env) (cfg : Config) (key : Bytes) (w : World) (cmd : Command) : Prop :=
  ∀ room, evictionStep env cfg w.store cmd = .ok room → room.data.lookup key = w.store.data.lookup key

section
variable {w after : World} {key reply : Bytes} {cmd : Command} {now : Int}

/-- A key that a command does not name stays as it is to those who look later. -/
theorem dispatch_apart (same : Represents env policy w.store K) (unnamed : key ∉ keysOf cmd) (spares : Spares env cfg key w cmd)
    (ran : dispatch env cfg w cmd = .ok (reply, after)) (forward : env.clock after.store.tick ≤ now) :
    ∃ left, Represents env policy after.store left ∧ left.live now key = K.live now key := by
  obtain ⟨room, middle, evicted, kept, thinned⟩ := evictionStep_returned same ran
  have there : middle key = K key := by
    rcases thinned key with same_item | gone
    · exact same_item
    · have absent := (kept.absent_iff key).mpr gone
      rw [spares room evicted] at absent
      rw [gone, (same.absent_iff key).mp absent]
  cases dispatch_recorded evicted kept ran with
  | @unlogged left final shrunk =>
    refine ⟨left, final, ?_⟩
    rw [(shrunk.later forward).live, Keyspace.live, Keyspace.live, there]
  | @logged name request clock left known asked _ runs final =>
    refine ⟨left, final, ?_⟩
    have unchanged := Request.run_frame runs fun named => unnamed (requestOf_keys known asked named)
    rw [Keyspace.live, Keyspace.live, unchanged, there]

theorem runAll_forward {cmds : List Command} {replies : List Bytes} (ran : runAll (dispatch env cfg) w cmds = .ok (replies, after)) :
    env.clock w.store.tick ≤ env.clock after.store.tick := by
  induction cmds generalizing w replies with
  | nil =>
    cases ran
    exact Int.le_refl _
  | cons cmd rest ih =>
    obtain ⟨⟨reply, next⟩, first, ran⟩ := bind_ok ran
    obtain ⟨⟨others, last⟩, later, ran⟩ := bind_ok ran
    cases ran
    exact (env.forward _ _ (dispatch_moves first).tick).trans (ih later)

theorem runAll_apart {cmds : List Command} {replies : List Bytes} (same : Represents env policy w.store K)
    (unnamed : ∀ cmd ∈ cmds, key ∉ keysOf cmd)
    (spared : ∀ cmd here rest, Turn env cfg w cmds cmd here rest → Spares env cfg key here cmd)
    (ran : runAll (dispatch env cfg) w cmds = .ok (replies, after)) (forward : env.clock after.store.tick ≤ now) :
    ∃ left, Represents env policy after.store left ∧ left.live now key = K.live now key := by
  induction cmds generalizing w K replies with
  | nil =>
    cases ran
    exact ⟨K, same, rfl⟩
  | cons cmd rest ih =>
    obtain ⟨⟨reply, next⟩, first, ran⟩ := bind_ok ran
    obtain ⟨⟨others, last⟩, later, ran⟩ := bind_ok ran
    cases ran
    obtain ⟨middle, kept, between⟩ := dispatch_apart same (unnamed cmd List.mem_cons_self) (spared cmd w rest (.first w cmd rest)) first
      ((runAll_forward later).trans forward)
    obtain ⟨left, final, apart⟩ := ih kept (fun cmd listed => unnamed cmd (List.mem_cons_of_mem _ listed))
      (fun cmd here others turn => spared cmd here others (.later first turn)) later
    exact ⟨left, final, apart.trans between⟩

end

theorem step_ran {s after : System} (step : Step env cfg s after) : s.ran <+: after.ran := by
  cases step with
  | worker step =>
    cases step with
    | run => exact List.prefix_append _ _
    | take | reply | finish => exact List.prefix_refl _
  | producer step =>
    cases step with
    | _ => exact List.prefix_refl _
  | main step =>
    cases step with
    | _ => exact List.prefix_refl _

theorem run_ran {s after : System} (run : Relation.ReflTransGen (Step env cfg) s after) : s.ran <+: after.ran := by
  induction run with
  | refl => exact List.prefix_refl _
  | tail _ step ih => exact ih.trans (step_ran step)

/-- What the worker has run between two moments leads from the one world to the other. -/
theorem ran_between {initial : World} {s t : System} (begun : Relation.ReflTransGen (Step env cfg) (.start initial) s)
    (run : Relation.ReflTransGen (Step env cfg) s t) :
    ∃ between replies, t.ran = s.ran ++ between ∧ runAll (dispatch env cfg) s.world (between.map (·.2)) = .ok (replies, t.world) := by
  obtain ⟨between, more⟩ := run_ran run
  obtain ⟨before, first⟩ := ran_returned begun
  obtain ⟨all, last⟩ := ran_returned (begun.trans run)
  rw [← more, List.map_append] at last
  obtain ⟨early, late, middle, whole, rest, _⟩ := runAll_append.mp last
  rw [first] at whole
  cases whole
  exact ⟨between, late, more.symm, rest⟩

theorem Represents.same_at {s s' : Store} {K' : Keyspace} {key : Bytes} (same : Represents env policy s K)
    (same' : Represents env policy s' K') (agree : K' key = K key) :
    Option.Rel (fun e e' => SameValue e e' ∧ e'.expiresAt = e.expiresAt) (s.data.lookup key) (s'.data.lookup key) := by
  have shows := same.shows key
  have shows' := same'.shows key
  rw [agree] at shows'
  generalize s.data.lookup key = found at shows ⊢
  generalize s'.data.lookup key = found' at shows' ⊢
  generalize K key = item at shows shows'
  cases shows with
  | none =>
    cases shows'
    exact .none
  | some shows =>
    cases shows' with
    | some shows' => exact .some ⟨shows.sameValue shows', shows'.expiresAt.trans shows.expiresAt.symm⟩

/-- Between any two moments of a run, a key that none of the commands in between names
keeps its value and its deadline, until that has passed, unless it is evicted to make room
for one of them: no other client's command, no transaction, no rejected command and no sweep
of the expiry goroutine touches it. -/
theorem unnamed_keys_untouched {initial : World} {s t : System} {key : Bytes} (same : Represents env policy initial.store K)
    (begun : Relation.ReflTransGen (Step env cfg) (.start initial) s) (run : Relation.ReflTransGen (Step env cfg) s t)
    (unnamed : ∀ done ∈ t.ran.drop s.ran.length, key ∉ keysOf done.2)
    (spared : ∀ cmd here rest, Turn env cfg s.world ((t.ran.drop s.ran.length).map (·.2)) cmd here rest → Spares env cfg key here cmd) :
    Option.Rel (fun e e' => SameValue e e' ∧ e'.expiresAt = e.expiresAt)
      ((purge (env.clock t.world.store.tick) s.world.store).data.lookup key)
      ((purge (env.clock t.world.store.tick) t.world.store).data.lookup key) := by
  obtain ⟨before, first⟩ := ran_returned begun
  obtain ⟨between, replies, more, later⟩ := ran_between begun run
  obtain ⟨K, _, here⟩ := runAll_serving (.refl env cfg initial) same first
  rw [more, List.drop_left] at unnamed spared
  have apart : ∀ cmd ∈ between.map (·.2), key ∉ keysOf cmd := by
    intro cmd listed
    obtain ⟨done, ran, rfl⟩ := List.mem_map.mp listed
    exact unnamed done ran
  obtain ⟨left, there, agree⟩ := runAll_apart here apart spared later (Int.le_refl _)
  exact (here.purge _).same_at (there.purge _) agree

/-- One client sets a key, then another client sets another one. -/
theorem other_key_untouched :
    ∃ s t, Relation.ReflTransGen (Step (Env.still 0) .plain) (.start ⟨.new .noeviction, none⟩) s ∧
      Relation.ReflTransGen (Step (Env.still 0) .plain) s t ∧
      t.ran.map (·.2) = [⟨ascii "SET", [ascii "k", ascii "v"]⟩, ⟨ascii "SET", [ascii "j", ascii "w"]⟩] ∧
      Option.Rel (fun e e' => SameValue e e' ∧ e'.expiresAt = e.expiresAt)
        ((purge 0 s.world.store).data.lookup (ascii "k")) ((purge 0 t.world.store).data.lookup (ascii "k")) := by
  have accepted : Relation.ReflTransGen (Step (Env.still 0) .plain) (.start ⟨.new .noeviction, none⟩) _ :=
    (Relation.ReflTransGen.refl.tail (.main (.accept rfl))).tail (.main (.accept rfl))
  have first := accepted.tail (.producer (.getNew (i := 1) ⟨⟨ascii "SET", [ascii "k", ascii "v"]⟩, [], []⟩ (by decide) rfl))
  have sent := (first.tail (.producer (.send (i := 1) rfl rfl (by decide)))).tail (.worker (.take rfl rfl))
  have replied := (sent.tail (.worker (.run rfl rfl))).tail (.worker (.reply rfl rfl))
  have runs : ∃ s t, Relation.ReflTransGen (Step (Env.still 0) .plain) (.start ⟨.new .noeviction, none⟩) s ∧
      Relation.ReflTransGen (Step (Env.still 0) .plain) s t ∧ s.ran.length = 1 ∧
      t.ran.map (·.2) = [⟨ascii "SET", [ascii "k", ascii "v"]⟩, ⟨ascii "SET", [ascii "j", ascii "w"]⟩] :=
    ⟨_, _, replied, .head (.producer (.getNew (i := 2) ⟨⟨ascii "SET", [ascii "j", ascii "w"]⟩, [], []⟩ (by decide) rfl)) <|
      .head (.producer (.send (i := 2) rfl rfl (by decide))) <| .head (.worker (.take rfl rfl)) <| .head (.worker (.run rfl rfl)) .refl,
      rfl, rfl⟩
  obtain ⟨s, t, begun, run, one, both⟩ := runs
  refine ⟨s, t, begun, run, both, unnamed_keys_untouched (.new _ _) begun run ?_ ?_⟩
  · intro done ran
    have second : done.2 ∈ (t.ran.map (·.2)).drop s.ran.length := by
      rw [← List.map_drop]
      exact List.mem_map_of_mem ran
    rw [one, both] at second
    rw [List.mem_singleton.mp second]
    decide
  · intro cmd here rest _ room evicted
    rw [evictionStep_unlimited (Int.le_refl 0)] at evicted
    cases evicted
    rfl

end Rediska.Proofs
