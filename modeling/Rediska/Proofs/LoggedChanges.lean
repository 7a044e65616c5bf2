import Rediska.Proofs.DispatchSafety
import Rediska.Proofs.ExpiryTransparency

/-! What a dispatched command leaves in the store and in the file: every change of the
live contents is logged, and an error is without effect. -/

namespace Rediska.Proofs
open Go Core Hll Storage Commands Spec

variable {env env' : Env} {cfg : Config} {policy : Policy} {s : Store} {K : Keyspace}

theorem requestOf_writes {name : CommandName} {args : List Bytes} {request : Request}
    (asked : requestOf env name args = some request) : request.writes = writeCommands name := by
  rw [requestOf_command asked]
  cases request <;> rfl

/-! Equal contents. -/

/-- Entries with the same encoding and the same value, whatever their stamps. -/
inductive SameValue : Entry → Entry → Prop
  | int {e e' : Entry} (tag : e.encoding = .int) (tag' : e'.encoding = .int) (same : e.intVal = e'.intVal) : SameValue e e'
  | text {e e' : Entry} {str str' : SDS} (tags : e.encoding = e'.encoding) (tag : e.encoding = .embstr ∨ e.encoding = .raw)
      (value : e.strVal = some str) (value' : e'.strVal = some str') (same : str.buf = str'.buf) : SameValue e e'
  | sketch {e e' : Entry} {h h' : HLL} (tag : e.encoding = .hll) (tag' : e'.encoding = .hll) (value : e.hllVal = some h)
      (value' : e'.hllVal = some h')
      (same : ∀ i : Fin registers, ∃ register, readRegister h i = .ok register ∧ readRegister h' i = .ok register) : SameValue e e'

/-- The same keys, with the same values and the same deadlines. -/
def SameItems (s s' : Store) : Prop :=
  ∀ key, Option.Rel (fun e e' => SameValue e e' ∧ e'.expiresAt = e.expiresAt) (s.data.lookup key) (s'.data.lookup key)

/-- The same entries that have not expired. -/
def SameLive (now : Int) (s s' : Store) : Prop := SameItems (purge now s) (purge now s')

theorem Shows.sameValue {e e' : Entry} {item : Item} (shows : Shows env e item) (shows' : Shows env' e' item) : SameValue e e' := by
  cases shows with
  | int tag fits =>
    generalize same : (⟨.int e.intVal, e.expiresAt⟩ : Item) = item at shows'
    cases shows' with
    | int tag' => exact .int tag tag' (Content.int.inj (Item.mk.inj same).1)
    | embstr | raw | sketch => cases (Item.mk.inj same).1
  | @embstr str tag value =>
    generalize same : (⟨.embstr str.buf, e.expiresAt⟩ : Item) = item at shows'
    cases shows' with
    | embstr tag' value' => exact .text (tag.trans tag'.symm) (.inl tag) value value' (Content.embstr.inj (Item.mk.inj same).1)
    | int | raw | sketch => cases (Item.mk.inj same).1
  | @raw str tag value =>
    generalize same : (⟨.raw str.buf, e.expiresAt⟩ : Item) = item at shows'
    cases shows' with
    | raw tag' value' => exact .text (tag.trans tag'.symm) (.inr tag) value value' (Content.raw.inj (Item.mk.inj same).1)
    | int | embstr | sketch => cases (Item.mk.inj same).1
  | @sketch h table tag value empty holds cached =>
    generalize same : (⟨.sketch table, e.expiresAt⟩ : Item) = item at shows'
    cases shows' with
    | sketch tag' value' empty' holds' =>
      obtain rfl := Content.sketch.inj (Item.mk.inj same).1
      refine .sketch tag tag' value value' ?_
      intro i
      obtain ⟨register, read, holding⟩ := holds.read i
      obtain ⟨register', read', holding'⟩ := holds'.read i
      obtain rfl : register = register' := UInt8.toNat_inj.mp (holding.trans holding'.symm)
      exact ⟨register, read, read'⟩
    | int | embstr | raw => cases (Item.mk.inj same).1

theorem Represents.sameItems {s' : Store} (same : Represents env policy s K) (same' : Represents env' policy s' K) :
    SameItems s s' := by
  intro key
  rcases same.at key with ⟨absent, nothing⟩ | ⟨e, item, held, found, shows⟩
  · rcases same'.at key with ⟨absent', _⟩ | ⟨_, _, _, found', _⟩
    · rw [absent, absent']
      exact .none
    · rw [nothing] at found'
      cases found'
  · obtain ⟨e', held', shows'⟩ := same'.entry found
    rw [held, held']
    exact .some ⟨shows.sameValue shows', shows'.expiresAt.trans shows.expiresAt.symm⟩

/-! One command. -/

/-- What the memory check of a command leaves for its handler. A command that is unknown
or refused by the cluster check does not come to it. -/
def evictionStep (env : Env) (cfg : Config) (s : Store) (cmd : Command) : Panics Store :=
  match lookupCommand cmd.name, checkCluster cfg cmd with
  | some name, none => (checkMemory env cfg name s).map (·.1)
  | _, _ => .ok s

theorem evictionStep_unlimited (unlimited : cfg.maxMemory ≤ 0) (s : Store) (cmd : Command) : evictionStep env cfg s cmd = .ok s := by
  unfold evictionStep
  split
  · rw [checkMemory_unlimited env unlimited]
    rfl
  · rfl

/-- How a command that runs on a keyspace is recorded. -/
inductive Recorded (env : Env) (policy : Policy) (w after : World) (cmd : Command) (reply : Bytes) (K : Keyspace) : Prop
  | unlogged {left : Keyspace} (kept : Represents env policy after.store left) (shrunk : ShrunkAt (env.clock after.store.tick) K left)
      (file : after.aof = w.aof)
  | logged {name : CommandName} {request : Request} {clock : Nat → Int} {left : Keyspace} (known : lookupCommand cmd.name = some name)
      (asked : requestOf env name cmd.args = some request) (between : ReadingsBetween env w.store after.store clock)
      (runs : request.run (rulesOf env policy) clock K = .ok (reply, left)) (kept : Represents env policy after.store left)
      (clean : isErrorReply reply = false) (file : ∀ aof, w.aof = some aof → after.aof = some (aof.write (cmd.name :: cmd.args)))

theorem handler_recorded {w : World} {cmd : Command} {name : CommandName} {room s : Store} {reply : Bytes}
    (known : lookupCommand cmd.name = some name) (later : w.store.tick ≤ room.tick) (same : Represents env policy room K)
    (ran : runHandler env cfg name room cmd.args = .ok (reply, s)) :
    Recorded env policy w (appendAOF { w with store := s } name cmd reply) cmd reply K := by
  have stores : (appendAOF { w with store := s } name cmd reply).store = s := appendAOF_store _ name cmd reply
  have quiet (unlogged : writeCommands name = true → isErrorReply reply = true) :
      (appendAOF { w with store := s } name cmd reply).aof = w.aof := by
    have skipped : ¬ (writeCommands name = true ∧ ¬ isErrorReply reply = true) := fun both => both.2 (unlogged both.1)
    unfold appendAOF
    split
    · rw [if_neg skipped]
    · rfl
  rcases handler_returned same ran with ⟨request, clock, left, asked, located, spec, kept⟩ | ⟨_, left, kept, shrunk, refused⟩
  · have between := located.2 reply s ran
    by_cases unlogged : writeCommands name = true → isErrorReply reply = true
    · have shrunk := Request.run_unlogged (fun i => (between i).2) spec (by rw [requestOf_writes asked]; exact unlogged)
      exact .unlogged (stores.symm ▸ kept) (stores.symm ▸ shrunk) (quiet unlogged)
    · obtain ⟨writes, clean⟩ := Classical.not_imp.mp unlogged
      have earlier := env.forward _ _ later
      refine .logged known asked ?_ spec (stores.symm ▸ kept) (Bool.eq_false_of_not_eq_true clean) ?_
      · intro i
        rw [stores]
        exact ⟨earlier.trans (between i).1, (between i).2⟩
      · intro aof opened
        simp only [appendAOF, opened, if_pos (And.intro writes clean)]
  · exact .unlogged (stores.symm ▸ kept) (stores.symm ▸ shrunk) (quiet refused)

theorem dispatch_recorded {w after : World} {cmd : Command} {reply : Bytes} {room : Store}
    (evicted : evictionStep env cfg w.store cmd = .ok room) (same : Represents env policy room K)
    (ran : dispatch env cfg w cmd = .ok (reply, after)) : Recorded env policy w after cmd reply K := by
  cases known : lookupCommand cmd.name with
  | none =>
    simp only [dispatch, known] at ran
    simp only [evictionStep, known] at evicted
    cases ran
    cases evicted
    exact .unlogged same (.refl _ K) rfl
  | some name =>
    cases passed : checkCluster cfg cmd with
    | some refusal =>
      simp only [dispatch, known, passed] at ran
      simp only [evictionStep, known, passed] at evicted
      cases ran
      cases evicted
      exact .unlogged same (.refl _ K) rfl
    | none =>
      simp only [evictionStep, known, passed] at evicted
      obtain ⟨⟨left, fits⟩, checked, left_room⟩ := map_ok evicted
      cases left_room
      rw [dispatch_checked known passed checked] at ran
      cases fits with
      | false =>
        cases ran
        exact .unlogged same (.refl _ K) rfl
      | true =>
        obtain ⟨⟨said, s⟩, handled, ran⟩ := bind_ok ran
        cases ran
        exact handler_recorded known (checkMemory_moves checked).tick same handled

/-- A command that returned has made room. -/
theorem evictionStep_returned {w after : World} {cmd : Command} {reply : Bytes} (same : Represents env policy w.store K)
    (ran : dispatch env cfg w cmd = .ok (reply, after)) :
    ∃ room left, evictionStep env cfg w.store cmd = .ok room ∧ Represents env policy room left ∧ Thinned K left := by
  unfold evictionStep
  split
  next name known passed =>
    cases checked : checkMemory env cfg name w.store with
    | error p =>
      simp only [dispatch, known, passed, checked, bind_error] at ran
      cases ran
    | ok result =>
      obtain ⟨left, kept, thinned⟩ := checkMemory_thins same checked
      exact ⟨result.1, left, rfl, kept, thinned⟩
  · exact ⟨w.store, K, rfl, same, fun _ => .inl rfl⟩

theorem dispatch_refused_unchanged {w after : World} {cmd : Command} {reply : Bytes} (refused : checkCluster cfg cmd ≠ none)
    (ran : dispatch env cfg w cmd = .ok (reply, after)) : after = w := by
  unfold dispatch at ran
  split at ran
  · cases ran
    rfl
  · split at ran
    · cases ran
      rfl
    next passed => exact absurd passed refused

theorem Represents.sameLive {now : Int} {room after : Store} {left : Keyspace} (same : Represents env policy room K)
    (shrunk : ShrunkAt now K left) (kept : Represents env policy after left) : SameLive now room after := by
  have purged := kept.purge now
  rw [shrunk.live] at purged
  exact (same.purge now).sameItems purged

/-- The file gets one command or nothing. A reply that is an error leaves the file and
the live contents as the eviction step left them, and so does every command that the
file does not get. -/
theorem changes_are_logged {w after : World} {cmd : Command} {reply : Bytes} {aof : AOF} (same : Represents env policy w.store K)
    (opened : w.aof = some aof) (still : env.clock after.store.tick = env.clock w.store.tick)
    (ran : dispatch env cfg w cmd = .ok (reply, after)) :
    ∃ room, evictionStep env cfg w.store cmd = .ok room ∧ (checkCluster cfg cmd ≠ none → after = w) ∧
      (after.aof = some aof ∨ after.aof = some ⟨aof.file ++ encodeArray (cmd.name :: cmd.args)⟩) ∧
      (isErrorReply reply = true → after.aof = some aof ∧ SameLive (env.clock w.store.tick) room after.store) ∧
      (¬ SameLive (env.clock w.store.tick) room after.store → after.aof = some ⟨aof.file ++ encodeArray (cmd.name :: cmd.args)⟩) := by
  obtain ⟨room, left, evicted, kept, _⟩ := evictionStep_returned same ran
  refine ⟨room, evicted, fun refused => dispatch_refused_unchanged refused ran, ?_⟩
  cases dispatch_recorded evicted kept ran with
  | unlogged final shrunk file =>
    rw [still] at shrunk
    have live := kept.sameLive shrunk final
    have file' := file.trans opened
    exact ⟨.inl file', fun _ => ⟨file', live⟩, fun changed => absurd live changed⟩
  | logged known asked between runs final clean file =>
    refine ⟨.inr (file aof opened), ?_, fun _ => file aof opened⟩
    intro error
    rw [clean] at error
    cases error

/-- The first SET of a key changes the live contents, so the file has it. -/
theorem first_set_logged :
    ∃ after, dispatch (.still 0) .plain ⟨.new .noeviction, some (newAOF [])⟩ ⟨ascii "SET", [ascii "k", ascii "v"]⟩ =
        .ok (encodeSimpleString (ascii "OK"), after) ∧
      ¬ SameLive 0 (.new .noeviction) after.store ∧ after.aof = some ⟨encodeArray [ascii "SET", ascii "k", ascii "v"]⟩ := by
  have ran : ∃ after, dispatch (.still 0) .plain ⟨.new .noeviction, some (newAOF [])⟩ ⟨ascii "SET", [ascii "k", ascii "v"]⟩ =
      .ok (encodeSimpleString (ascii "OK"), after) ∧ ∃ e, after.store.data.lookup (ascii "k") = some e ∧ expiredAt 0 e = false :=
    ⟨_, rfl, _, rfl, rfl⟩
  obtain ⟨after, ran, e, held, alive⟩ := ran
  have still : (Env.still 0).clock after.store.tick = (Env.still 0).clock (Store.new .noeviction).tick := rfl
  obtain ⟨room, evicted, _, _, _, logged⟩ := changes_are_logged (.new (.still 0) .noeviction) rfl still ran
  cases evicted
  have changed : ¬ SameLive 0 (.new .noeviction) after.store := by
    intro same
    have entries := same (ascii "k")
    rw [purge_lookup, purge_lookup, held, Option.filter_some, alive] at entries
    cases entries
  exact ⟨after, ran, changed, logged changed⟩

end Rediska.Proofs
