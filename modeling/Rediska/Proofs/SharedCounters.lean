import Rediska.Proofs.KeyspaceRuns

/-! Counters that clients share: keys that they only increment and read. -/

namespace Rediska.Proofs
open Go Core Storage Commands Server Spec

def increment (key : Bytes) : Command := ⟨ascii "INCR", [key]⟩

/-- What a counter stands at. One that is not there stands at zero. -/
inductive Counter (K : Keyspace) (key : Bytes) : Int → Prop
  | fresh (absent : K key = none) : Counter K key 0
  | counting {n : Int} (held : K key = some ⟨.int n, none⟩) : Counter K key n

/-- The commands that a counter is for. -/
def Counts (key : Bytes) (cmd : Command) : Prop := key ∈ keysOf cmd → cmd = increment key ∨ cmd = ⟨ascii "GET", [key]⟩

def increments (key : Bytes) (cmds : List Command) : Nat := cmds.count (increment key)

theorem increments_cons (key : Bytes) (cmds : List Command) : (increments key (increment key :: cmds) : Int) = increments key cmds + 1 := by
  rw [increments, List.count_cons_self, increments, Int.natCast_succ]

variable {env : Env} {cfg : Config} {policy : Policy} {K left : Keyspace} {key : Bytes} {n : Int}

section
variable {rules : Rules} {clock : Nat → Int} {reply : Bytes}

theorem Counter.find (counter : Counter K key n) (now : Int) : K.find now key = (K key, K) := by
  cases counter with
  | fresh absent => simp only [Keyspace.find, absent]
  | counting held => simp [Keyspace.find, held, Item.dead]

theorem Counter.of_same (counter : Counter K key n) (same : left key = K key) : Counter left key n := by
  cases counter with
  | fresh absent => exact .fresh (same.trans absent)
  | counting held => exact .counting (same.trans held)

theorem Counter.shrunk {now : Int} (counter : Counter K key n) (shrunk : ShrunkAt now K left) : Counter left key n := by
  rcases shrunk key with same | ⟨⟨item, held, dead⟩, _⟩
  · exact counter.of_same same
  · cases counter with
    | fresh absent =>
      rw [absent] at held
      cases held
    | counting counting =>
      rw [counting] at held
      cases held
      cases dead

theorem Counter.get (counter : Counter K key n) (ran : (Request.get key).run rules clock K = .ok (reply, left)) : left = K := by
  obtain ⟨⟨value, after⟩, got, ran⟩ := bind_ok ran
  cases ran
  rw [Keyspace.get, counter.find] at got
  cases held : K key with
  | none =>
    rw [held] at got
    cases got
    rfl
  | some item =>
    rw [held] at got
    obtain ⟨_, _, got⟩ := bind_ok got
    cases got
    rfl

theorem counter_set (K : Keyspace) (key : Bytes) (now n : Int) : Counter (K.set now key (itoa (wrap64 n)) 0) key (wrap64 n) := by
  apply Counter.counting
  rw [Keyspace.set, Keyspace.put_self, detect, parseInt_itoa (isInt64_wrap64 n)]
  rfl

theorem Counter.incr (counter : Counter K key n) (ran : (Request.incr key).run rules clock K = .ok (reply, left)) :
    reply = encodeInteger (wrap64 (n + 1)) ∧ Counter left key (wrap64 (n + 1)) := by
  obtain ⟨⟨read, after⟩, got, ran⟩ := bind_ok ran
  rw [Keyspace.getInt, counter.find] at got
  cases counter with
  | fresh absent =>
    rw [absent] at got
    cases got
    cases ran
    exact ⟨rfl, counter_set K key (clock 2) 1⟩
  | counting held =>
    rw [held] at got
    obtain ⟨_, _, got⟩ := bind_ok got
    cases got
    cases ran
    exact ⟨rfl, counter_set K key (clock 2) (n + 1)⟩

end

/-- A store with a counter in it. -/
def StandsAt (env : Env) (policy : Policy) (s : Store) (key : Bytes) (n : Int) : Prop :=
  ∃ K, Represents env policy s K ∧ Counter K key n

theorem StandsAt.isInt64 {s : Store} (stands : StandsAt env policy s key n) : IsInt64 n := by
  obtain ⟨K, same, counter⟩ := stands
  cases counter with
  | fresh => decide
  | counting held =>
    obtain ⟨e, _, shows⟩ := same.entry held
    generalize item : (⟨.int n, none⟩ : Item) = shown at shows
    cases shows with
    | int _ fits =>
      rw [Content.int.inj (Item.mk.inj item).1]
      exact fits
    | embstr | raw | sketch => cases (Item.mk.inj item).1

section
variable {w after : World} {cmd : Command} {reply : Bytes}

theorem never_evicts (unlimited : cfg.maxMemory ≤ 0) (cmd : Command) : ¬ EvictsFor cfg cmd := by
  intro evicts
  obtain ⟨_, _, _, limited, _⟩ := evicts
  omega

/-- A command that does not name the counter, or reads it, leaves it as it is. -/
theorem dispatch_leaves_counter (unlimited : cfg.maxMemory ≤ 0) (stands : StandsAt env policy w.store key n) (counts : Counts key cmd)
    (other : cmd ≠ increment key) (ran : dispatch env cfg w cmd = .ok (reply, after)) : StandsAt env policy after.store key n := by
  obtain ⟨K, same, counter⟩ := stands
  obtain ⟨left, serves, kept⟩ := dispatch_serves (.refl env cfg w) same ran
  refine ⟨left, kept, ?_⟩
  cases serves with
  | answered known asked _ made _ runs =>
    cases made.stays (never_evicts unlimited cmd)
    by_cases named : key ∈ keysOf cmd
    · rcases counts named with rfl | rfl
      · exact absurd rfl other
      · cases known
        cases asked
        cases counter.get runs
        exact counter
    · exact counter.of_same (Request.run_frame runs fun mine => named (requestOf_keys known asked mine))
  | passed passed =>
    obtain ⟨room, made, shrunk⟩ := passed.shrinks
    cases made.stays (never_evicts unlimited cmd)
    exact counter.shrunk shrunk

theorem dispatch_increments (unlimited : cfg.maxMemory ≤ 0) (here : checkCluster cfg (increment key) = none)
    (stands : StandsAt env policy w.store key n) (ran : dispatch env cfg w (increment key) = .ok (reply, after)) :
    reply = encodeInteger (wrap64 (n + 1)) ∧ StandsAt env policy after.store key (wrap64 (n + 1)) := by
  obtain ⟨K, same, counter⟩ := stands
  have known : lookupCommand (increment key).name = some .incr := by
    change lookupCommand (ascii "INCR") = _
    decide
  have room : checkMemory env cfg .incr w.store = .ok (w.store, true) := by
    rw [checkMemory, if_neg]
    intro limited
    omega
  rw [dispatch_checked known here room] at ran
  obtain ⟨⟨said, store⟩, handled, ran⟩ := bind_ok ran
  cases ran
  have asked : requestOf env .incr [key] = some (.incr key) := rfl
  obtain ⟨_, _, refines⟩ := handler_refines cfg same asked
  obtain ⟨left, runs, kept⟩ := refines.of_ok handled
  obtain ⟨said, counter⟩ := counter.incr runs
  refine ⟨said, left, ?_, counter⟩
  rw [appendAOF_store]
  exact kept

/-- The counter stands at what it stood at, and the increments. -/
theorem runAll_counts {cmds : List Command} {replies : List Bytes} (unlimited : cfg.maxMemory ≤ 0)
    (here : checkCluster cfg (increment key) = none) (stands : StandsAt env policy w.store key n)
    (counts : ∀ cmd ∈ cmds, Counts key cmd) (small : n + increments key cmds ≤ maxInt64)
    (ran : runAll (dispatch env cfg) w cmds = .ok (replies, after)) : StandsAt env policy after.store key (n + increments key cmds) := by
  induction cmds generalizing w n replies with
  | nil =>
    cases ran
    rw [increments, List.count_nil, Int.natCast_zero, Int.add_zero]
    exact stands
  | cons cmd rest ih =>
    obtain ⟨⟨reply, next⟩, first, ran⟩ := bind_ok ran
    obtain ⟨⟨others, last⟩, later, ran⟩ := bind_ok ran
    cases ran
    have mine := counts cmd List.mem_cons_self
    have theirs : ∀ cmd ∈ rest, Counts key cmd := fun cmd listed => counts cmd (List.mem_cons_of_mem _ listed)
    by_cases incr : cmd = increment key
    · subst incr
      rw [increments_cons] at small ⊢
      have lower := stands.isInt64.1
      obtain ⟨_, stands⟩ := dispatch_increments unlimited here stands first
      rw [wrap64_of_isInt64 ⟨by omega, by omega⟩] at stands
      have final := ih stands theirs (by omega) later
      rwa [Int.add_assoc, Int.add_comm 1] at final
    · rw [increments, List.count_cons_of_ne incr] at small ⊢
      exact ih (dispatch_leaves_counter unlimited stands mine incr first) theirs small later

end

/-- The commands of requests that are done. -/
def commandsDone (cfg : Config) (executed : List (SentRequest × Bytes)) : List Command :=
  (executed.flatMap fun done => runs cfg done.1).map (·.2)

theorem commandsDone_append (first rest : List (SentRequest × Bytes)) :
    commandsDone cfg (first ++ rest) = commandsDone cfg first ++ commandsDone cfg rest := by
  rw [commandsDone, List.flatMap_append, List.map_append, commandsDone, commandsDone]

theorem commandsDone_cons (done : SentRequest × Bytes) (rest : List (SentRequest × Bytes)) :
    commandsDone cfg (done :: rest) = commandsOf cfg done.1.body ++ commandsDone cfg rest := by
  rw [commandsDone, List.flatMap_cons, List.map_append, runs_commands, commandsDone]

/-- They are the first ones that were run. -/
theorem executed_ran {initial : World} {s : System} (run : Relation.ReflTransGen (Step env cfg) (.start initial) s) :
    commandsDone cfg s.executed <+: s.ran.map (·.2) ∧ ∃ world, Serial env cfg initial s.executed world := by
  have working := (Sound.reached run).flow.working
  generalize s.worker = worker at working
  cases working with
  | between _ serial blocks =>
    rw [blocks]
    exact ⟨List.prefix_refl _, _, serial⟩
  | within first serial _ _ blocks =>
    rw [blocks, List.map_append]
    exact ⟨List.prefix_append _ _, _, serial⟩

section
variable {initial world : World} {first rest : List (SentRequest × Bytes)} {x y : SentRequest × Bytes}

/-- A request is executed after those before it. -/
theorem serial_at (serial : Serial env cfg initial (first ++ x :: rest) world) :
    ∃ middle next, Serial env cfg initial first middle ∧ dispatchWorker env cfg middle x.1.body = .ok (x.2, next) := by
  unfold Serial at serial
  rw [List.map_append, List.map_append] at serial
  obtain ⟨replies, others, middle, early, late, split⟩ := runAll_append.mp serial
  have parts : first.map (·.2) = replies ∧ (x :: rest).map (·.2) = others := by
    apply List.append_inj split
    rw [runAll_length early, List.length_map, List.length_map]
  obtain ⟨rfl, rfl⟩ := parts
  obtain ⟨⟨reply, next⟩, ran, late⟩ := bind_ok late
  obtain ⟨_, _, late⟩ := bind_ok late
  have mine : reply = x.2 := (List.cons.inj (Prod.mk.inj (Except.ok.inj late)).1).1
  exact ⟨middle, next, early, mine ▸ ran⟩

theorem commandsDone_at (asks : x.1.body = singleRequest (increment key)) :
    commandsDone cfg (first ++ x :: rest) = commandsDone cfg first ++ increment key :: commandsDone cfg rest := by
  rw [commandsDone_append, commandsDone_cons, asks]
  rfl

theorem increments_at (asks : x.1.body = singleRequest (increment key)) :
    increments key (commandsDone cfg (first ++ x :: rest)) =
      increments key (commandsDone cfg first) + (increments key (commandsDone cfg rest) + 1) := by
  rw [commandsDone_at asks, increments, List.count_append, List.count_cons_self, increments, increments]

/-- An increment is answered with what the counter stood at, and one more. -/
theorem serial_ticket (unlimited : cfg.maxMemory ≤ 0) (here : checkCluster cfg (increment key) = none)
    (stands : StandsAt env policy initial.store key n)
    (counts : ∀ cmd ∈ commandsDone cfg (first ++ x :: rest), Counts key cmd)
    (small : n + increments key (commandsDone cfg (first ++ x :: rest)) ≤ maxInt64) (asks : x.1.body = singleRequest (increment key))
    (serial : Serial env cfg initial (first ++ x :: rest) world) :
    x.2 = encodeInteger (n + increments key (commandsDone cfg first) + 1) := by
  rw [commandsDone_at asks] at counts
  rw [increments_at asks] at small
  obtain ⟨middle, next, early, ran⟩ := serial_at serial
  obtain ⟨_, each⟩ := serial_commands early
  have mine : ∀ cmd ∈ commandsDone cfg first, Counts key cmd := fun cmd listed => counts cmd (List.mem_append_left _ listed)
  rw [asks] at ran
  obtain ⟨said, _⟩ := dispatch_increments unlimited here (runAll_counts unlimited here stands mine (by omega) each) ran
  have lower := stands.isInt64.1
  rw [said, wrap64_of_isInt64 ⟨by omega, by omega⟩]

/-- A later increment has another answer. -/
theorem tickets_differ {between : List (SentRequest × Bytes)} (unlimited : cfg.maxMemory ≤ 0)
    (here : checkCluster cfg (increment key) = none) (stands : StandsAt env policy initial.store key n)
    (counts : ∀ cmd ∈ commandsDone cfg (first ++ x :: (between ++ y :: rest)), Counts key cmd)
    (small : n + increments key (commandsDone cfg (first ++ x :: (between ++ y :: rest))) ≤ maxInt64)
    (asks : x.1.body = singleRequest (increment key)) (asks' : y.1.body = singleRequest (increment key))
    (serial : Serial env cfg initial (first ++ x :: (between ++ y :: rest)) world) : x.2 ≠ y.2 := by
  have ticket := serial_ticket unlimited here stands counts small asks serial
  have again : first ++ x :: (between ++ y :: rest) = (first ++ x :: between) ++ y :: rest := by
    rw [List.append_assoc, List.cons_append]
  rw [again] at counts small serial
  have ticket' := serial_ticket unlimited here stands counts small asks' serial
  intro equal
  rw [ticket, ticket', increments_at asks] at equal
  have tied := encodeInteger_injective equal
  omega

end

/-- However the clients' requests interleave, with those of others on other keys, no
increment of a counter is lost, and no two requests are answered with the same number. -/
theorem increments_counted {initial : World} {s : System} (unlimited : cfg.maxMemory ≤ 0)
    (here : checkCluster cfg (increment key) = none) (stands : StandsAt env policy initial.store key n)
    (run : Relation.ReflTransGen (Step env cfg) (.start initial) s)
    (counts : ∀ done ∈ s.ran, Counts key done.2) (small : n + increments key (s.ran.map (·.2)) ≤ maxInt64) :
    StandsAt env policy s.world.store key (n + increments key (s.ran.map (·.2))) ∧
    (∀ i req reply, (i, req, reply) ∈ s.received → req.body = singleRequest (increment key) →
      ∃ m, n < m ∧ m ≤ n + increments key (s.ran.map (·.2)) ∧ reply = encodeInteger m) ∧
    ∀ i req j req' reply, (i, req, reply) ∈ s.received → (j, req', reply) ∈ s.received →
      req.body = singleRequest (increment key) → req'.body = singleRequest (increment key) → req = req' := by
  have counts' : ∀ cmd ∈ s.ran.map (·.2), Counts key cmd := by
    intro cmd listed
    obtain ⟨done, ran, rfl⟩ := List.mem_map.mp listed
    exact counts done ran
  obtain ⟨replies, ran⟩ := ran_returned run
  obtain ⟨done, world, serial⟩ := executed_ran run
  have executed {i : Nat} {req : SentRequest} {reply : Bytes} (got : (i, req, reply) ∈ s.received) : (req, reply) ∈ s.executed :=
    ((Sound.reached run).matched.own i req reply got).2
  have mine : ∀ cmd ∈ commandsDone cfg s.executed, Counts key cmd := fun cmd listed => counts' cmd (done.subset listed)
  have fewer : increments key (commandsDone cfg s.executed) ≤ increments key (s.ran.map (·.2)) := done.sublist.count_le _
  have room : n + (increments key (commandsDone cfg s.executed) : Int) ≤ maxInt64 := by omega
  refine ⟨runAll_counts unlimited here stands counts' small ran, ?_, ?_⟩
  · intro i req reply got asks
    obtain ⟨first, rest, split⟩ := List.append_of_mem (executed got)
    rw [split] at mine room serial fewer
    rw [increments_at asks] at fewer
    exact ⟨_, by omega, by omega, serial_ticket unlimited here stands mine room asks serial⟩
  · intro i req j req' reply got got' asks asks'
    obtain ⟨first, rest, split⟩ := List.append_of_mem (executed got)
    have other := executed got'
    rw [split] at mine room serial other
    rcases List.mem_append.mp other with earlier | later
    · obtain ⟨before, between, rfl⟩ := List.append_of_mem earlier
      rw [List.append_assoc, List.cons_append] at mine room serial
      have differ := tickets_differ (x := (req', reply)) (y := (req, reply)) unlimited here stands mine room asks' asks serial
      exact absurd rfl differ
    · rcases List.mem_cons.mp later with same' | later
      · exact (Prod.mk.inj same').1.symm
      · obtain ⟨between, after, rfl⟩ := List.append_of_mem later
        have differ := tickets_differ (x := (req, reply)) (y := (req', reply)) unlimited here stands mine room asks asks' serial
        exact absurd rfl differ

/-- Two clients increment a counter while neither has been answered. -/
theorem two_clients_count :
    ∃ s, Relation.ReflTransGen (Step (Env.still 0) .plain) (.start ⟨.new .noeviction, none⟩) s ∧
      s.received.map (·.2.2) = [encodeInteger 1, encodeInteger 2] ∧
      StandsAt (.still 0) .noeviction s.world.store (ascii "k") 2 := by
  have run : ∃ s, Relation.ReflTransGen (Step (Env.still 0) .plain) (.start ⟨.new .noeviction, none⟩) s ∧
      s.ran.map (·.2) = [increment (ascii "k"), increment (ascii "k")] ∧ s.received.map (·.2.2) = [encodeInteger 1, encodeInteger 2] := by
    have accepted : Relation.ReflTransGen (Step (Env.still 0) .plain) (.start ⟨.new .noeviction, none⟩) _ :=
      (Relation.ReflTransGen.refl.tail (.main (.accept rfl))).tail (.main (.accept rfl))
    have first := accepted.tail (.producer (.getNew (i := 1) (singleRequest (increment (ascii "k"))) (by decide) rfl))
    have second := first.tail (.producer (.getNew (i := 2) (singleRequest (increment (ascii "k"))) (by decide) rfl))
    have sent := (second.tail (.producer (.send (i := 1) rfl rfl (by decide)))).tail (.producer (.send (i := 2) rfl rfl (by decide)))
    have one := ((sent.tail (.worker (.take rfl rfl))).tail (.worker (.run rfl rfl))).tail (.worker (.reply rfl rfl))
    have two := ((one.tail (.worker (.take rfl rfl))).tail (.worker (.run rfl rfl))).tail (.worker (.reply rfl rfl))
    have received := (two.tail (.producer (.receive (i := 1) rfl rfl))).tail (.producer (.receive (i := 2) rfl rfl))
    exact ⟨_, received, rfl, rfl⟩
  obtain ⟨s, run, ran, received⟩ := run
  have counts : ∀ done ∈ s.ran, Counts (ascii "k") done.2 := by
    intro done inside _
    have listed : done.2 ∈ s.ran.map (·.2) := List.mem_map_of_mem inside
    rw [ran] at listed
    simp only [List.mem_cons, List.not_mem_nil, or_false, or_self] at listed
    exact .inl listed
  have fresh : StandsAt (.still 0) .noeviction (.new .noeviction) (ascii "k") 0 := ⟨_, .new _ _, .fresh rfl⟩
  obtain ⟨stands, _⟩ := increments_counted (Int.le_refl 0) rfl fresh run counts (by
    rw [ran]
    decide)
  rw [ran] at stands
  exact ⟨s, run, received, stands⟩

end Rediska.Proofs
