import Rediska.Proofs.ClusterCheck
import Rediska.Proofs.DispatchSafety
import Rediska.Proofs.LayoutFile
import Rediska.Server.Histories

/-! Every key of a cluster lives on the node that owns its slot, and on no other. -/

namespace Rediska.Proofs
open Go Core Storage Commands Cluster Server Spec

/-! A command writes only where its node may. -/

section
variable {cmd : Command} {name : CommandName} {key : Bytes} {rest : List Bytes}

theorem keysOf_first (known : lookupCommand cmd.name = some name) (spec : keySpecs name = ⟨1, 1, 1⟩) (args : cmd.args = key :: rest) :
    key ∈ keysOf cmd := by
  have one : (min 1 (((key :: rest).length : Int) + 1 - 1)).toNat = 1 := by
    simp only [List.length_cons]
    omega
  simp only [keysOf, known, spec, args]
  rw [if_neg (by decide), if_neg (by decide), one]
  exact List.mem_cons_self

theorem keysOf_all (known : lookupCommand cmd.name = some name) (spec : keySpecs name = ⟨1, -1, 1⟩) : keysOf cmd = cmd.args := by
  have all : (min ((cmd.args.length : Int) + 1 + -1) (cmd.args.length + 1 - 1)).toNat = cmd.args.length := by omega
  simp only [keysOf, known, spec]
  rw [if_neg (by decide), if_pos (by decide), all, List.take_length]
  rfl

theorem keysOf_second {sub : Bytes} (known : lookupCommand cmd.name = some name) (spec : keySpecs name = ⟨2, 2, 1⟩)
    (args : cmd.args = sub :: key :: rest) : key ∈ keysOf cmd := by
  have two : (min 2 (((sub :: key :: rest).length : Int) + 1 - 1)).toNat = 2 := by
    simp only [List.length_cons]
    omega
  simp only [keysOf, known, spec, args]
  rw [if_neg (by decide), if_neg (by decide), two]
  exact List.mem_cons_self

/-- The keys of a request are among those the cluster check looks at. -/
theorem requestOf_keys {env : Env} {request : Request} (known : lookupCommand cmd.name = some name)
    (asked : requestOf env name cmd.args = some request) (named : key ∈ Request.keys request) : key ∈ keysOf cmd := by
  unfold requestOf at asked
  split at asked
  case h_3 args =>
    split at asked
    · cases asked
    · cases asked
      rw [Request.keys, List.mem_singleton] at named
      exact named ▸ keysOf_first known rfl args
  case h_4 args =>
    obtain ⟨_, _, rfl⟩ := Option.map_eq_some_iff.mp asked
    rw [Request.keys, List.mem_singleton] at named
    exact named ▸ keysOf_first known rfl args
  case h_10 args =>
    cases asked
    rw [keysOf_all known rfl, args]
    exact named
  case h_11 args =>
    cases asked
    rw [keysOf_all known rfl, args]
    exact named
  case h_12 args =>
    split at asked
    · cases asked
      rw [Request.keys, List.mem_singleton] at named
      exact named ▸ keysOf_second known rfl args
    · cases asked
  case h_13 => cases asked
  case h_9 args =>
    cases asked
    rw [Request.keys, List.mem_singleton] at named
    rw [keysOf_all known rfl, args, named]
    exact List.mem_cons_self
  all_goals
    next args =>
      cases asked
      rw [Request.keys, List.mem_singleton] at named
      exact named ▸ keysOf_first known rfl args

end

/-- All keys are allowed ones. -/
def Within (allowed : Bytes → Prop) (K : Keyspace) : Prop := ∀ key, K key ≠ none → allowed key

section
variable {env : Env} {cfg : Config} {policy : Policy} {K left : Keyspace} {allowed : Bytes → Prop}

theorem Within.thinned (within : Within allowed K) (thinned : Thinned K left) : Within allowed left := by
  intro key held
  rcases thinned key with same | gone
  · exact within key (same ▸ held)
  · exact absurd gone held

theorem Within.request {rules : Rules} {clock : Nat → Int} {request : Request} {reply : Bytes} (within : Within allowed K)
    (named : ∀ key ∈ Request.keys request, allowed key) (ran : request.run rules clock K = .ok (reply, left)) : Within allowed left := by
  intro key held
  by_cases here : key ∈ Request.keys request
  · exact named key here
  · exact within key (Request.run_frame ran here ▸ held)

/-- A handler leaves the keys within what its command's keys are in. -/
theorem Within.handler {s after : Store} {cmd : Command} {name : CommandName} {reply : Bytes} (within : Within allowed K)
    (same : Represents env policy s K) (known : lookupCommand cmd.name = some name) (named : ∀ key ∈ keysOf cmd, allowed key)
    (ran : runHandler env cfg name s cmd.args = .ok (reply, after)) : ∃ left, Represents env policy after left ∧ Within allowed left := by
  rcases handler_returned same ran with ⟨request, clock, left, asked, _, spec, kept⟩ | ⟨_, left, kept, shrunk, _⟩
  · exact ⟨left, kept, within.request (fun key here => named key (requestOf_keys known asked here)) spec⟩
  · exact ⟨left, kept, within.thinned shrunk.thinned⟩

/-- No path of Dispatch leads to a handler past the check of its keys. -/
theorem Within.dispatch {w after : World} {cmd : Command} {reply : Bytes} (within : Within allowed K)
    (same : Represents env policy w.store K) (checked : checkCluster cfg cmd = none → ∀ key ∈ keysOf cmd, allowed key)
    (ran : dispatch env cfg w cmd = .ok (reply, after)) : ∃ left, Represents env policy after.store left ∧ Within allowed left := by
  cases dispatched ran with
  | unknown | refused => exact ⟨K, same, within⟩
  | full known _ memory =>
    obtain ⟨left, kept, thinned⟩ := checkMemory_thins same memory
    exact ⟨left, kept, within.thinned thinned⟩
  | ran known passed memory handled =>
    obtain ⟨left, kept, thinned⟩ := checkMemory_thins same memory
    rw [appendAOF_store]
    exact (within.thinned thinned).handler kept known (checked passed) handled

end

/-! The cluster. -/

section
variable {ι : Type} {env : ι → Env} {cfg : ι → Config}

theorem dispatchAll_run {node : ι} {cmds : List Command} {replies : List Bytes} {final : World} (before : ι → World)
    (ran : dispatchAll (env node) (cfg node) (before node) cmds = .ok (replies, final)) :
    ∃ after, Relation.ReflTransGen (ClusterStep env cfg) before after ∧ after node = final ∧ ∀ j, j ≠ node → after j = before j := by
  classical
  induction cmds generalizing before replies with
  | nil =>
    cases ran
    exact ⟨before, .refl, rfl, fun _ _ => rfl⟩
  | cons cmd rest ih =>
    obtain ⟨reply, next, others, first, later, rfl⟩ := dispatchAll_cons ran
    have here : Function.update before node next node = next := Function.update_self node next before
    have elsewhere : ∀ j, j ≠ node → Function.update before node next j = before j := fun j other => Function.update_of_ne other _ _
    obtain ⟨after, run, last, kept⟩ := ih (Function.update before node next) (by rw [here]; exact later)
    exact ⟨after, .head ⟨node, cmd, reply, by rw [here]; exact first, elsewhere⟩ run, last,
      fun j other => (kept j other).trans (elsewhere j other)⟩

/-- A request is served command by command. -/
theorem serves_run {before after : ι → World} (serves : ClusterServes env cfg before after) :
    Relation.ReflTransGen (ClusterStep env cfg) before after := by
  obtain ⟨node, req, reply, ran, kept⟩ := serves
  have all : ∀ {cmds : List Command} {replies : List Bytes},
      dispatchAll (env node) (cfg node) (before node) cmds = .ok (replies, after node) →
      Relation.ReflTransGen (ClusterStep env cfg) before after := by
    intro cmds replies ran
    obtain ⟨middle, run, here, elsewhere⟩ := dispatchAll_run before ran
    have same : middle = after := by
      funext j
      by_cases other : j = node
      · rw [other, here]
      · rw [elsewhere j other, kept j other]
    exact same ▸ run
  unfold dispatchWorker at ran
  split at ran
  · unfold dispatchBatch at ran
    split at ran
    · have same : before = after := by
        funext j
        by_cases other : j = node
        · rw [other]
          exact (Prod.mk.inj (Except.ok.inj ran)).2
        · exact (kept j other).symm
      exact same ▸ .refl
    · obtain ⟨⟨replies, final⟩, each, last⟩ := bind_ok ran
      rw [← (Prod.mk.inj (Except.ok.inj last)).2] at all
      exact all each
  · split at ran
    · obtain ⟨⟨replies, final⟩, each, last⟩ := bind_ok ran
      rw [← (Prod.mk.inj (Except.ok.inj last)).2] at all
      exact all each
    · exact .single ⟨node, req.cmd, reply, ran, kept⟩

variable {policy : ι → Policy} {layout : ι → Layout}

/-- Each node's keys are in its own slots. -/
def AtHome (env : ι → Env) (policy : ι → Policy) (layout : ι → Layout) (worlds : ι → World) : Prop :=
  ∀ i, ∃ K, Represents (env i) (policy i) (worlds i).store K ∧
    Within (fun key => (layout i).owner (keyHashSlot key) = some (layout i).self) K

theorem AtHome.step {before after : ι → World} (home : AtHome env policy layout before)
    (loaded : ∀ i, (cfg i).current = some (layout i)) (step : ClusterStep env cfg before after) : AtHome env policy layout after := by
  obtain ⟨node, cmd, reply, ran, kept⟩ := step
  intro i
  by_cases here : i = node
  · subst here
    obtain ⟨K, same, within⟩ := home i
    exact within.dispatch same (fun passed key named => checkKeys_passed (loaded i) passed named) ran
  · rw [kept i here]
    exact home i

theorem AtHome.run {before after : ι → World} (home : AtHome env policy layout before)
    (loaded : ∀ i, (cfg i).current = some (layout i)) (run : Relation.ReflTransGen (ClusterStep env cfg) before after) :
    AtHome env policy layout after := by
  induction run with
  | refl => exact home
  | tail _ step ih => exact ih.step loaded step

/-- Whatever clients send to whichever nodes, a key is stored only on the node that owns
its slot, and on no other. -/
theorem every_key_at_home {nodeID : Bytes → Bytes} {file : Bytes} {port : ι → Int} (apart : Function.Injective port)
    (parsed : ∀ i, parseLayout nodeID file (port i) = .ok (layout i)) (loaded : ∀ i, (cfg i).current = some (layout i))
    {worlds : ι → World}
    (run : Relation.ReflTransGen (fun before after => ClusterStep env cfg before after ∨ ClusterServes env cfg before after)
      (fun i => ⟨.new (policy i), none⟩) worlds) :
    (∀ i key, (worlds i).store.data.lookup key ≠ none → (layout i).owner (keyHashSlot key) = some (layout i).self) ∧
    ∀ i j key, (worlds i).store.data.lookup key ≠ none → (worlds j).store.data.lookup key ≠ none → i = j := by
  have home : AtHome env policy layout worlds := by
    induction run with
    | refl => exact fun i => ⟨_, .new (env i) (policy i), fun _ held => absurd rfl held⟩
    | tail _ step ih =>
      rcases step with step | serves
      · exact ih.step loaded step
      · exact ih.run loaded (serves_run serves)
  have owned : ∀ i key, (worlds i).store.data.lookup key ≠ none → (layout i).owner (keyHashSlot key) = some (layout i).self := by
    intro i key held
    obtain ⟨K, same, within⟩ := home i
    obtain ⟨e, stored⟩ := Option.ne_none_iff_exists'.mp held
    obtain ⟨item, found, _⟩ := same.item stored
    exact within key (by rw [found]; nofun)
  refine ⟨owned, ?_⟩
  intro i j key here there
  exact apart (owner_unique (parsed i) (parsed j) (owned i key here) (owned j key there))

end

/-- Two nodes, with the slot of the key k and with another one. -/
def twoNodes : Bytes := ascii "a h:1 7629\nb h:2 0\n"

theorem twoNodes_read (i : Bool) : (parseLayout id twoNodes (if i then 1 else 2)).toOption.isSome = true := by
  revert i
  decide +kernel

def layoutOfTwo (i : Bool) : Layout := (parseLayout id twoNodes (if i then 1 else 2)).toOption.get (twoNodes_read i)

theorem layoutOfTwo_read (i : Bool) : parseLayout id twoNodes (if i then 1 else 2) = .ok (layoutOfTwo i) := by
  have get {result : Except LayoutError Layout} (read : result.toOption.isSome = true) : result = .ok (result.toOption.get read) := by
    cases result with
    | error e => cases read
    | ok layout => rfl
  exact get (twoNodes_read i)

def settingsOfTwo (i : Bool) : Config := { Config.plain with clusterEnabled := true, current := some (layoutOfTwo i) }

theorem key_at_home_on_two_nodes :
    ∃ worlds : Bool → World, (worlds true).store.data.lookup (ascii "k") ≠ none ∧
      (layoutOfTwo true).owner (keyHashSlot (ascii "k")) = some (layoutOfTwo true).self := by
  have stored : (match dispatch (.still 0) (settingsOfTwo true) ⟨.new .noeviction, none⟩ ⟨ascii "SET", [ascii "k", ascii "v"]⟩ with
      | .ok (_, w) => (w.store.data.lookup (ascii "k")).isSome
      | .error _ => false) = true := by decide +kernel
  split at stored
  next reply w ran =>
    have step : ClusterStep (fun _ => .still 0) settingsOfTwo (fun _ => ⟨.new .noeviction, none⟩)
        (fun i => if i then w else ⟨.new .noeviction, none⟩) :=
      ⟨true, _, reply, ran, fun j other => by simp [Bool.eq_false_iff.mpr other]⟩
    have held : w.store.data.lookup (ascii "k") ≠ none := Option.isSome_iff_ne_none.mp stored
    have home := every_key_at_home (by decide) layoutOfTwo_read (fun _ => rfl) (.single (.inl step))
    exact ⟨fun i => if i then w else ⟨.new .noeviction, none⟩, held, home.1 true (ascii "k") held⟩
  next => cases stored

end Rediska.Proofs
