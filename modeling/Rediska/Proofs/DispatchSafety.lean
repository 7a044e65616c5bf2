import Rediska.Proofs.CommandRefinement
import Rediska.Proofs.Eviction

/-! Which commands can bring the worker down. -/

namespace Rediska.Proofs
open Go Core Hll Storage Cluster Commands Spec

variable {env : Env} {cfg : Config} {policy : Policy} {s : Store} {K : Keyspace}

theorem splitAddr_returns (node : Node) : ∃ parts, splitAddr node.addr = .ok parts := by
  unfold splitAddr
  split
  next none => exact absurd node.hasPort (lastIndexByte_none.mp none)
  · exact ⟨_, rfl⟩

theorem clusterSlots_returns (l : Layout) : ∃ reply, clusterSlots l = .ok reply := by
  have each (entry : SlotRange × Node) : ∃ reply, slotEntryReply entry = .ok reply := by
    obtain ⟨parts, split⟩ := splitAddr_returns entry.2
    exact ⟨_, by rw [slotEntryReply, split]; rfl⟩
  obtain ⟨out, ran⟩ := mapM_returns each (slotEntries l)
  exact ⟨_, by rw [clusterSlots, ran]; rfl⟩

theorem clusterNodes_returns (l : Layout) : ∃ reply, clusterNodes l = .ok reply := by
  have each (entry : Node × Nat) : ∃ line, nodeLine l entry.2 entry.1 = .ok line := by
    obtain ⟨parts, split⟩ := splitAddr_returns entry.1
    exact ⟨_, by rw [nodeLine, split]; rfl⟩
  obtain ⟨lines, ran⟩ := mapM_returns each l.nodes.zipIdx
  exact ⟨_, by rw [clusterNodes, ran]; rfl⟩

theorem handleCluster_returns (loaded : cfg.clusterEnabled = true → cfg.current.isSome = true) (env : Env)
    (args : List Bytes) : ∃ reply, handleCluster env cfg args = .ok reply := by
  unfold handleCluster
  split
  · exact ⟨_, rfl⟩
  next enabled =>
    obtain ⟨l, current⟩ := Option.isSome_iff_exists.mp (loaded (Classical.not_not.mp enabled))
    have layout : currentLayout cfg = .ok l := by rw [currentLayout, current]
    obtain ⟨slots, ranSlots⟩ := clusterSlots_returns l
    obtain ⟨nodes, ranNodes⟩ := clusterNodes_returns l
    simp only [layout, ok_bind, ranSlots, ranNodes]
    repeat (first | exact ⟨_, rfl⟩ | split)

/-- There is something to evict, and the sample for that is larger than any slice. -/
def Oversamples (cfg : Config) (s : Store) : Prop :=
  Evicts cfg.maxMemoryPolicy ∧ OverLimit cfg s ∧ s.data.keys ≠ [] ∧ maxAlloc < 16 * cfg.maxMemorySamples

/-- The check of the memory fails in one way only. -/
theorem checkMemory_refused {name : CommandName} (env : Env) (grows : denyOOMCommands name = true) (oversamples : Oversamples cfg s) :
    checkMemory env cfg name s = .error .makeSlice := by
  obtain ⟨evicts, ⟨limited, above⟩, filled, refused⟩ := oversamples
  rw [checkMemory_limited env grows limited, makeRoom_evicts env evicts, performEvictions_refused env refused above filled, bind_error]

theorem performEvictions_empty (env : Env) {samples maxBytes : Int} (empty : s.data.keys = []) :
    s.performEvictions env samples maxBytes = .ok s := by
  unfold Store.performEvictions
  split
  · rfl
  · unfold Store.evictionLoop
    simp only [empty, if_true, ite_self]

theorem checkMemory_returns {name : CommandName} (env : Env) (modest : denyOOMCommands name = true → ¬ Oversamples cfg s) :
    ∃ room fits, checkMemory env cfg name s = .ok (room, fits) := by
  by_cases limited : denyOOMCommands name = true ∧ 0 < cfg.maxMemory
  · rw [checkMemory_limited env limited.1 limited.2]
    have room : ∃ room, makeRoom env cfg s (wrap64 (cfg.maxMemory * 2 ^ 20)) = .ok room := by
      by_cases evicts : Evicts cfg.maxMemoryPolicy
      · rw [makeRoom_evicts env evicts]
        by_cases above : s.overMemory (wrap64 (cfg.maxMemory * 2 ^ 20)) = true
        · by_cases filled : s.data.keys = []
          · exact ⟨s, performEvictions_empty env filled⟩
          · exact performEvictions_returns env s (Int.not_lt.mp fun refused =>
              modest limited.1 ⟨evicts, ⟨limited.2, above⟩, filled, refused⟩) _
        · exact ⟨s, performEvictions_fits env above⟩
      · exact ⟨s, makeRoom_stays env evicts⟩
    obtain ⟨room, made⟩ := room
    exact ⟨room, _, by rw [made]; rfl⟩
  · exact ⟨s, true, by rw [checkMemory, if_neg limited]⟩

theorem performEvictions_thins {after : Store} {samples maxBytes : Int} (same : Represents env policy s K)
    (ran : s.performEvictions env samples maxBytes = .ok after) :
    ∃ left, Represents env policy after left ∧ Thinned K left := by
  refine performEvictions_keeps (fun s => ∃ left, Represents env policy s left ∧ Thinned K left) ?_ ?_
    ⟨K, same, fun _ => .inl rfl⟩ ran
  · rintro s pool n - ⟨left, kept, thinned⟩
    exact ⟨left, ⟨kept.policy, kept.shows⟩, thinned⟩
  · rintro s key ⟨left, kept, thinned⟩
    refine ⟨left.drop key, kept.removeKey key, ?_⟩
    intro j
    rw [Keyspace.drop_apply]
    split
    · exact .inr rfl
    · exact thinned j

theorem checkMemory_thins {name : CommandName} {room : Store} {fits : Bool} (same : Represents env policy s K)
    (checked : checkMemory env cfg name s = .ok (room, fits)) : ∃ left, Represents env policy room left ∧ Thinned K left := by
  cases memoryChecked checked with
  | free | stayed => exact ⟨K, same, fun _ => .inl rfl⟩
  | evicted _ _ _ ran => exact performEvictions_thins same ran

/-- A command that is turned away can grow memory, and the limit has been passed. -/
theorem checkMemory_over {name : CommandName} {room : Store} (checked : checkMemory env cfg name s = .ok (room, false)) :
    denyOOMCommands name = true ∧ OverLimit cfg room := by
  cases memoryChecked checked with
  | stayed grows limited _ weighed | evicted grows limited _ _ weighed => exact ⟨grows, limited, by simpa using weighed.symm⟩

theorem handler_keeps (same : Represents env policy s K) {name : CommandName} {args : List Bytes} {reply : Bytes}
    {after : Store} (ran : runHandler env cfg name s args = .ok (reply, after)) : ∃ left, Represents env policy after left := by
  rcases handler_returned same ran with ⟨_, _, left, _, _, _, kept⟩ | ⟨_, left, kept, _⟩
  · exact ⟨left, kept⟩
  · exact ⟨left, kept⟩

/-- The worlds that Dispatch can lead to. -/
inductive Reachable (env : Env) (cfg : Config) (policy : Policy) : World → Prop
  | start (aof : Option AOF) : Reachable env cfg policy ⟨.new policy, aof⟩
  | step {w after : World} {cmd : Command} {reply : Bytes} (before : Reachable env cfg policy w)
      (ran : dispatch env cfg w cmd = .ok (reply, after)) : Reachable env cfg policy after

theorem dispatch_keeps {w after : World} {cmd : Command} {reply : Bytes} (same : Represents env policy w.store K)
    (ran : dispatch env cfg w cmd = .ok (reply, after)) : ∃ left, Represents env policy after.store left := by
  cases dispatched ran with
  | unknown | refused => exact ⟨K, same⟩
  | full known _ checked =>
    obtain ⟨left, kept, _⟩ := checkMemory_thins same checked
    exact ⟨left, kept⟩
  | ran known passed checked handled =>
    obtain ⟨left, kept, _⟩ := checkMemory_thins same checked
    rw [appendAOF_store]
    exact handler_keeps kept handled

theorem Reachable.represents {w : World} (reached : Reachable env cfg policy w) : ∃ K, Represents env policy w.store K := by
  induction reached with
  | start aof => exact ⟨_, .new env policy⟩
  | step before ran ih =>
    obtain ⟨K, same⟩ := ih
    exact dispatch_keeps same ran

/-- A two-argument APPEND that the cluster check lets through, to a key that holds a
sketch. -/
def AppendsToSketch (cfg : Config) (s : Store) (cmd : Command) : Prop :=
  lookupCommand cmd.name = some .append ∧ checkCluster cfg cmd = none ∧
    ∃ key value e, cmd.args = [key, value] ∧ s.data.lookup key = some e ∧ e.encoding = .hll

theorem Shows.text_none {e : Entry} {item : Item} (shows : Shows env e item) : item.content.text = none ↔ e.encoding = .hll := by
  rw [shows.encoding]
  cases item.content <;> simp [Content.text, Content.encoding]

theorem requestOf_append {name : CommandName} {args : List Bytes} {key value : Bytes}
    (asked : requestOf env name args = some (.append key value)) : name = .append ∧ args = [key, value] := by
  obtain rfl := requestOf_command asked
  match args with
  | [first, second] =>
    cases asked
    exact ⟨rfl, rfl⟩
  | [] | [_] | _ :: _ :: _ :: _ => cases asked

/-- What brings the worker down: a sample that no slice can hold, for a command that
others have to give way to, or an APPEND to a sketch that is still there when room has
been made for it. -/
inductive Breaks (env : Env) (cfg : Config) (w : World) (cmd : Command) : Prop
  | sample {name : CommandName} (known : lookupCommand cmd.name = some name) (passed : checkCluster cfg cmd = none)
      (grows : denyOOMCommands name = true) (oversamples : Oversamples cfg w.store)
  | append {room : Store} (checked : checkMemory env cfg .append w.store = .ok (room, true)) (appends : AppendsToSketch cfg room cmd)

/-- Where nothing is evicted, only an APPEND can. -/
theorem Breaks.appends {w : World} {cmd : Command} (breaks : Breaks env cfg w cmd) (stays : ¬ Evicts cfg.maxMemoryPolicy) :
    lookupCommand cmd.name = some .append := by
  cases breaks with
  | sample _ _ _ oversamples => exact absurd oversamples.1 stays
  | append _ appends => exact appends.1

theorem runHandler_returns {name : CommandName} {args : List Bytes} (same : Represents env policy s K)
    (decays : env.lfuDecayTime ≠ 0) (loaded : cfg.clusterEnabled = true → cfg.current.isSome = true)
    (harmless : ∀ key value e, name = .append → args = [key, value] → s.data.lookup key = some e → e.encoding ≠ .hll) :
    ∃ result, runHandler env cfg name s args = .ok result := by
  have steady : (rulesOf env policy).fragile = false := by simp [rulesOf, decays]
  rcases handler_cases cfg same name args with
    ⟨request, clock, asked, _, refines⟩ | ⟨_, reply, after, _, ran, _⟩ | ⟨_, cluster⟩
  · have safe : ¬ request.appendsToSketch K := by
      intro appends
      cases request with
      | append key value =>
        obtain ⟨item, held, nothing⟩ := appends
        obtain ⟨rfl, args⟩ := requestOf_append asked
        obtain ⟨e, found, shows⟩ := same.entry held
        exact harmless key value e rfl args found (shows.text_none.mp nothing)
      | get | set | expire | ttl | incr | pfadd | pfcount | pfmerge | del | encoding => exact appends.elim
    obtain ⟨result, spec⟩ := Request.run_returns steady K clock safe
    obtain ⟨final, returned, _⟩ := refines.of_spec spec
    exact ⟨_, returned⟩
  · exact ⟨_, ran⟩
  · obtain ⟨reply, ran⟩ := handleCluster_returns loaded env args
    exact ⟨_, by rw [cluster, ran]; rfl⟩

theorem dispatch_unbroken {w : World} {cmd : Command} (same : Represents env policy w.store K)
    (decays : env.lfuDecayTime ≠ 0) (loaded : cfg.clusterEnabled = true → cfg.current.isSome = true)
    (unbroken : ¬ Breaks env cfg w cmd) : ∃ reply after, dispatch env cfg w cmd = .ok (reply, after) := by
  cases known : lookupCommand cmd.name with
  | none => exact ⟨_, _, by simp only [dispatch, known]; rfl⟩
  | some name =>
    cases passed : checkCluster cfg cmd with
    | some refusal => exact ⟨refusal, w, by simp only [dispatch, known, passed]⟩
    | none =>
      obtain ⟨room, fits, checked⟩ := checkMemory_returns env fun grows oversamples => unbroken (.sample known passed grows oversamples)
      obtain ⟨left, kept, thinned⟩ := checkMemory_thins same checked
      rw [dispatch_checked known passed checked]
      cases fits with
      | false => exact ⟨_, _, rfl⟩
      | true =>
        have harmless (key value : Bytes) (e : Entry) (append : name = .append) (args : cmd.args = [key, value])
            (held : room.data.lookup key = some e) : e.encoding ≠ .hll := by
          subst append
          exact fun sketch => unbroken (.append checked ⟨known, passed, key, value, e, args, held, sketch⟩)
        obtain ⟨result, ran⟩ := runHandler_returns kept decays loaded harmless
        exact ⟨_, _, by rw [if_pos rfl, ran, ok_bind]⟩

theorem dispatch_breaks {w : World} {cmd : Command} (same : Represents env policy w.store K) (breaks : Breaks env cfg w cmd) :
    ∃ p, dispatch env cfg w cmd = .error p := by
  cases breaks with
  | sample known passed grows oversamples =>
    exact ⟨.makeSlice, by simp only [dispatch, known, passed, checkMemory_refused env grows oversamples, bind_error]⟩
  | @append room checked appends =>
    obtain ⟨known, passed, key, value, e, args, held, sketch⟩ := appends
    obtain ⟨left, kept, _⟩ := checkMemory_thins same checked
    have failed : room.append env key value = .error .nilDereference := by
      obtain ⟨item, _, shows⟩ := kept.item held
      cases shows with
      | int tag | embstr tag | raw tag => rw [tag] at sketch; cases sketch
      | sketch tag value empty => simp only [Store.append, held, tag, empty]; rfl
    exact ⟨.nilDereference, by simp only [dispatch_checked known passed checked, if_true, runHandler, handleAppend, args, failed, bind_error]⟩

theorem dispatch_returns_unless {w : World} {cmd : Command} (same : Represents env policy w.store K)
    (decays : env.lfuDecayTime ≠ 0) (loaded : cfg.clusterEnabled = true → cfg.current.isSome = true) :
    (∃ reply after, dispatch env cfg w cmd = .ok (reply, after)) ↔ ¬ Breaks env cfg w cmd := by
  refine ⟨?_, dispatch_unbroken same decays loaded⟩
  intro returns breaks
  obtain ⟨reply, after, returned⟩ := returns
  obtain ⟨p, failed⟩ := dispatch_breaks same breaks
  rw [failed] at returned
  cases returned

/-- Making room leaves a sketch only where there was one before. -/
theorem AppendsToSketch.before {room : Store} {name : CommandName} {fits : Bool} {cmd : Command} (same : Represents env policy s K)
    (checked : checkMemory env cfg name s = .ok (room, fits)) (appends : AppendsToSketch cfg room cmd) : AppendsToSketch cfg s cmd := by
  obtain ⟨known, passed, key, value, e, args, held, sketch⟩ := appends
  obtain ⟨left, kept, thinned⟩ := checkMemory_thins same checked
  obtain ⟨item, present, shows⟩ := kept.item held
  have before : K key = some item := by
    rcases thinned key with unchanged | gone
    · rw [← unchanged, present]
    · rw [gone] at present
      cases present
  obtain ⟨e', found, shows'⟩ := same.entry before
  exact ⟨known, passed, key, value, e', args, found, shows'.text_none.mp (shows.text_none.mpr sketch)⟩

/-- From every store that Dispatch can lead to, a command returns a reply exactly if it
does not break the worker. -/
theorem dispatch_returns_iff {w : World} (reached : Reachable env cfg policy w) (decays : env.lfuDecayTime ≠ 0)
    (loaded : cfg.clusterEnabled = true → cfg.current.isSome = true) (cmd : Command) :
    (∃ reply after, dispatch env cfg w cmd = .ok (reply, after)) ↔ ¬ Breaks env cfg w cmd := by
  obtain ⟨K, same⟩ := reached.represents
  exact dispatch_returns_unless same decays loaded

theorem dispatch_returns_first_reply :
    ∃ reply after, dispatch (Env.still 0) .plain ⟨.new .noeviction, none⟩ ⟨ascii "APPEND", [ascii "k", ascii "v"]⟩ = .ok (reply, after) := by
  have reached : Reachable (Env.still 0) .plain .noeviction ⟨.new .noeviction, none⟩ := .start none
  refine (dispatch_returns_iff reached (by decide) (by decide) _).mpr ?_
  intro breaks
  cases breaks with
  | sample _ _ _ oversamples => exact oversamples.1
  | append checked appends =>
    obtain ⟨_, _, key, value, e, _, held, _⟩ := appends.before (.new _ _) checked
    cases held

theorem append_to_sketch_panics :
    ¬ ∀ (env : Env) (cfg : Config) (policy : Policy) (w : World) (cmd : Command), env.lfuDecayTime ≠ 0 →
      (cfg.clusterEnabled = true → cfg.current.isSome = true) → Reachable env cfg policy w →
      ∃ reply after, dispatch env cfg w cmd = .ok (reply, after) := by
  intro claim
  have created : ∃ reply after, dispatch (Env.still 0) .plain ⟨.new .noeviction, none⟩ ⟨ascii "PFADD", [ascii "k"]⟩ = .ok (reply, after) ∧
      dispatch (Env.still 0) .plain after ⟨ascii "APPEND", [ascii "k", ascii "v"]⟩ = .error .nilDereference := ⟨_, _, rfl, rfl⟩
  obtain ⟨reply, after, ran, failed⟩ := created
  obtain ⟨_, _, returned⟩ := claim (Env.still 0) .plain .noeviction after ⟨ascii "APPEND", [ascii "k", ascii "v"]⟩ (by decide)
    (by decide) (.step (.start none) ran)
  rw [failed] at returned
  cases returned

end Rediska.Proofs
