import Rediska.Logic.Ownership
import Rediska.Proofs.RequestFlow

/-! Reply channels, which are recycled between clients. A channel belongs to one producer
or lies in the pool, and is full only while its owner waits for the reply in it. -/

namespace Rediska.Proofs
open Go Core Commands Server Logic

variable {env : Storage.Env} {cfg : Config} {initial : World} {s after : System}

/-- A reply channel in use belongs to one producer, and those in the pool to none. -/
def Owned (s : System) : Prop :=
  Exclusive s.replyChPool (Producer.channel ∘ s.producer) (· < s.made)

theorem Owned.start (world : World) : Owned (.start world) := by
  have unheld : ∀ i, ((System.start world).producer i).channel = none := by
    intro i
    by_cases same : i = expiry
    · subst same
      rfl
    · simp [System.start, same, Producer.channel]
  refine ⟨.nil, ?_, ?_, ?_, nofun⟩
  all_goals
    intro i
    simp [unheld i]

theorem Owned.producer (owned : Owned s) (step : ProducerStep s after) : Owned after := by
  -- A fresh channel is the next number that was not used yet.
  have fresh (i : Nat) : Exclusive s.replyChPool (Function.update (Producer.channel ∘ s.producer) i (some s.made)) (· < s.made + 1) :=
    owned.make i (Nat.lt_irrefl _) (Nat.lt_succ_self _) (fun _ below => Nat.lt_succ_of_lt below)
  have same {i ch : Nat} (held : (Producer.channel ∘ s.producer) i = some ch) :
      Exclusive s.replyChPool (Function.update (Producer.channel ∘ s.producer) i (some ch)) (· < s.made) := by
    rw [← held, Function.update_eq_self]
    exact owned
  unfold Owned
  cases step with
  | drop ch => exact Exclusive.drop owned ch
  | sendClosed => exact owned
  | get _ _ _ stored =>
    rw [Function.comp_update]
    exact Exclusive.take owned _ stored
  | send holding =>
    rw [Function.comp_update]
    exact same (by simp [holding, Producer.channel])
  | receive awaiting =>
    rw [Function.comp_update]
    exact same (by simp [awaiting, Producer.channel])
  | put _ answered =>
    rw [Function.comp_update]
    exact Exclusive.put owned (by simp [answered, Producer.channel])
  | getNew | tick | sweep =>
    rw [Function.comp_update]
    exact fresh _
  | leave | rest | stop =>
    rw [Function.comp_update]
    exact Exclusive.release owned _

theorem Owned.step (owned : Owned s) (step : Step env cfg s after) : Owned after := by
  cases step with
  | worker step =>
    cases step with
    | _ => exact owned
  | producer step => exact owned.producer step
  | main step =>
    cases step with
    | accept =>
      unfold Owned
      rw [Function.comp_update]
      exact Exclusive.release owned _
    | _ => exact owned

/-- Where replies are: in a channel only while its owner waits for them. -/
structure Replies (producer : Nat → Producer) (channels : Nat → Option Bytes) (sent pending : List SentRequest)
    (executed : List (SentRequest × Bytes)) (received : List (Nat × SentRequest × Bytes)) : Prop where
  asked : ∀ i req, producer i = .awaiting req → req.producer = i ∧ req ∈ sent
  inFlight : ∀ req ∈ pending, producer req.producer = .awaiting req
  full : ∀ ch reply, channels ch = some reply →
    ∃ i req, producer i = .awaiting req ∧ req.replych = ch ∧ (req, reply) ∈ executed
  delivered : ∀ req reply, (req, reply) ∈ executed →
    (req.producer, req, reply) ∈ received ∨ producer req.producer = .awaiting req ∧ channels req.replych = some reply
  own : ∀ i req reply, (i, req, reply) ∈ received → req.producer = i ∧ (req, reply) ∈ executed

def Matched (s : System) : Prop :=
  Replies s.producer s.channels s.sent (s.worker.current ++ s.commandCh) s.executed s.received

section
variable {producer : Nat → Producer} {channels : Nat → Option Bytes} {sent pending : List SentRequest}
  {executed : List (SentRequest × Bytes)} {received : List (Nat × SentRequest × Bytes)}

/-- A producer that neither was waiting for a reply nor is now. -/
theorem Replies.move (replies : Replies producer channels sent pending executed received) {i : Nat} {next : Producer}
    (before : ∀ req, producer i ≠ .awaiting req) (now : ∀ req, next ≠ .awaiting req) :
    Replies (Function.update producer i next) channels sent pending executed received := by
  have waits : ∀ j req, Function.update producer i next j = .awaiting req ↔ producer j = .awaiting req := by
    intro j req
    by_cases same : j = i
    · subst same
      simp [before, now]
    · rw [Function.update_of_ne same]
  obtain ⟨asked, inFlight, full, delivered, own⟩ := replies
  refine ⟨?_, ?_, ?_, ?_, own⟩
  all_goals
    simp only [waits]
    assumption

theorem Replies.send (replies : Replies producer channels sent pending executed received) (req : SentRequest)
    (before : ∀ other, producer req.producer ≠ .awaiting other) :
    Replies (Function.update producer req.producer (.awaiting req)) channels (sent ++ [req]) (pending ++ [req]) executed received := by
  have kept : ∀ j other, producer j = .awaiting other →
      Function.update producer req.producer (.awaiting req) j = .awaiting other := by
    intro j other waiting
    have different : j ≠ req.producer := by
      intro same
      exact before other (same ▸ waiting)
    rw [Function.update_of_ne different, waiting]
  refine ⟨?_, ?_, ?_, ?_, replies.own⟩
  · intro j other waiting
    by_cases same : j = req.producer
    · subst same
      rw [Function.update_self] at waiting
      cases waiting
      simp
    · rw [Function.update_of_ne same] at waiting
      obtain ⟨named, inside⟩ := replies.asked j other waiting
      exact ⟨named, List.mem_append_left _ inside⟩
  · intro other inside
    rcases List.mem_append.mp inside with earlier | last
    · exact kept _ other (replies.inFlight other earlier)
    · cases List.mem_singleton.mp last
      exact Function.update_self ..
  · intro ch reply stored
    obtain ⟨j, other, waiting, found⟩ := replies.full ch reply stored
    exact ⟨j, other, kept j other waiting, found⟩
  · intro other reply done
    rcases replies.delivered other reply done with got | ⟨waiting, stored⟩
    · exact .inl got
    · exact .inr ⟨kept _ other waiting, stored⟩

/-- Two that wait at one channel are one, and wait for one reply. -/
theorem awaiting_unique (single : ∀ i j ch, (producer i).channel = some ch → (producer j).channel = some ch → i = j)
    {i j : Nat} {req other : SentRequest} (awaiting : producer i = .awaiting req) (waiting : producer j = .awaiting other)
    (same : other.replych = req.replych) : other = req := by
  have alike := single i j req.replych (by rw [awaiting]; rfl) (by rw [waiting]; simp [Producer.channel, same])
  subst alike
  rw [awaiting] at waiting
  cases waiting
  rfl

/-- What a producer takes out of its channel is the reply to its own request. -/
theorem Replies.receive (replies : Replies producer channels sent pending executed received)
    (single : ∀ i j ch, (producer i).channel = some ch → (producer j).channel = some ch → i = j)
    (once : ∀ req reply, (req, reply) ∈ executed → req ∉ pending) {i : Nat} {req : SentRequest} {reply : Bytes}
    (awaiting : producer i = .awaiting req) (stored : channels req.replych = some reply) :
    Replies (Function.update producer i (.answered reply req.replych)) (Function.update channels req.replych none)
      sent pending executed (received ++ [(i, req, reply)]) := by
  have named := (replies.asked i req awaiting).1
  have done : (req, reply) ∈ executed := by
    obtain ⟨j, other, waiting, same, done⟩ := replies.full _ _ stored
    exact awaiting_unique single awaiting waiting same ▸ done
  have kept : ∀ j other, producer j = .awaiting other → other ≠ req →
      Function.update producer i (.answered reply req.replych) j = .awaiting other := by
    intro j other waiting different
    have apart : j ≠ i := by
      intro same
      rw [same, awaiting] at waiting
      cases waiting
      exact different rfl
    rw [Function.update_of_ne apart, waiting]
  refine ⟨?_, ?_, ?_, ?_, ?_⟩
  · intro j other waiting
    by_cases same : j = i
    · subst same
      rw [Function.update_self] at waiting
      cases waiting
    · rw [Function.update_of_ne same] at waiting
      exact replies.asked j other waiting
  · intro other inside
    refine kept _ other (replies.inFlight other inside) ?_
    intro same
    subst same
    exact once _ _ done inside
  · intro ch said full
    by_cases same : ch = req.replych
    · subst same
      rw [Function.update_self] at full
      cases full
    · rw [Function.update_of_ne same] at full
      obtain ⟨j, other, waiting, placed, found⟩ := replies.full ch said full
      refine ⟨j, other, kept j other waiting ?_, placed, found⟩
      intro alike
      subst alike
      exact same placed.symm
  · intro other said found
    rcases replies.delivered other said found with got | ⟨waiting, full⟩
    · exact .inl (List.mem_append_left _ got)
    · by_cases same : other = req
      · subst same
        rw [stored] at full
        cases full
        exact .inl (by simp [named])
      · refine .inr ⟨kept _ other waiting same, ?_⟩
        rw [Function.update_of_ne (fun shared => same (awaiting_unique single awaiting waiting shared)), full]
  · intro j other said got
    rcases List.mem_append.mp got with earlier | last
    · exact replies.own j other said earlier
    · cases List.mem_singleton.mp last
      exact ⟨named, done⟩

/-- The worker's reply goes into the empty channel of the producer that waits for it. -/
theorem Replies.reply {req : SentRequest} (replies : Replies producer channels sent (req :: pending) executed received)
    (reply : Bytes) (room : channels req.replych = none) :
    Replies producer (Function.update channels req.replych (some reply)) sent pending (executed ++ [(req, reply)]) received := by
  have waiting := replies.inFlight req (by simp)
  refine ⟨replies.asked, fun other inside => replies.inFlight other (by simp [inside]), ?_, ?_, ?_⟩
  · intro ch said full
    by_cases same : ch = req.replych
    · subst same
      rw [Function.update_self] at full
      cases full
      exact ⟨_, req, waiting, rfl, by simp⟩
    · rw [Function.update_of_ne same] at full
      obtain ⟨j, other, awaiting, placed, found⟩ := replies.full ch said full
      exact ⟨j, other, awaiting, placed, by simp [found]⟩
  · intro other said found
    rcases List.mem_append.mp found with earlier | last
    · rcases replies.delivered other said earlier with got | ⟨awaiting, full⟩
      · exact .inl got
      · -- A full channel is not the one the worker found empty.
        have apart : other.replych ≠ req.replych := by
          intro same
          rw [same, room] at full
          cases full
        exact .inr ⟨awaiting, by rw [Function.update_of_ne apart, full]⟩
    · cases List.mem_singleton.mp last
      exact .inr ⟨waiting, Function.update_self ..⟩
  · intro j other said got
    obtain ⟨named, found⟩ := replies.own j other said got
    exact ⟨named, List.mem_append_left _ found⟩

end

theorem Matched.start (world : World) : Matched (.start world) := by
  refine ⟨?_, nofun, nofun, nofun, nofun⟩
  intro i req waiting
  by_cases same : i = expiry
  · subst same
    cases waiting
  · simp [System.start, same] at waiting

theorem Matched.worker (replies : Matched s) (step : WorkerStep env cfg s after) : Matched after := by
  unfold Matched at replies ⊢
  cases step with
  | take waiting queued =>
    rw [waiting, queued] at replies
    exact replies
  | run running =>
    rw [running] at replies
    exact replies
  | reply running room =>
    rw [running] at replies
    exact replies.reply _ room
  | finish waiting empty =>
    rw [waiting] at replies
    exact replies

theorem Matched.producer (replies : Matched s) (flow : Flow env cfg initial s) (owned : Owned s)
    (step : ProducerStep s after) : Matched after := by
  unfold Matched at replies ⊢
  cases step with
  | drop | sendClosed => exact replies
  | send holding =>
    rw [← List.append_assoc]
    exact replies.send ⟨_, _, _, _⟩ (by simp [holding])
  | receive awaiting full =>
    refine replies.receive owned.single ?_ awaiting full
    intro req reply done pending
    exact List.disjoint_of_nodup_append flow.nodup (List.mem_map_of_mem done) pending
  | get _ _ idle | getNew _ _ idle | leave _ idle | tick idle => exact replies.move (by simp [idle]) (by simp)
  | put _ answered | sweep answered | rest answered => exact replies.move (by simp [answered]) (by simp)
  | stop _ selecting =>
    refine replies.move ?_ (by simp)
    intro req waiting
    rcases selecting with idle | ⟨_, _, holding⟩
    · rw [idle] at waiting
      cases waiting
    · rw [holding] at waiting
      cases waiting

end Rediska.Proofs
