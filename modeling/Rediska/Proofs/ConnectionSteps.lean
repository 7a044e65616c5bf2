import Rediska.Proofs.DecodeSafety
import Rediska.Proofs.Transactions

/-! What an iteration of handleConnection can do, said once: the program it comes to after
all that it decodes and decides by itself. -/

namespace Rediska.Proofs
open Go Core Commands Server Logic

/-- How an iteration goes on. -/
inductive Stepped (unicode : CaseTable) (cfg : Config) (c : Connection) : Goroutine → Prop
  | stays (closed : c.phase = .closed) : Stepped unicode cfg c (.done c)
  | failed {p : Panic} {reader : Reader} {scratch : Scratch} (running : c.phase ≠ .closed)
      (read : decode c.reader c.scratch = (.panic p, reader, scratch)) : Stepped unicode cfg c (.failed p)
  | ended {e : DecodeError} {reader : Reader} {scratch : Scratch} (top : c.phase = .reading)
      (read : decode c.reader c.scratch = (.error e, reader, scratch)) :
      Stepped unicode cfg c (.done { c with reader := reader, scratch := scratch, phase := .closed })
  | refused {frame : Value} {reader : Reader} {scratch : Scratch} {text : Bytes} (top : c.phase = .reading)
      (read : decode c.reader c.scratch = (.value frame, reader, scratch)) (parsed : parseCommand unicode frame = .error text) :
      Stepped unicode cfg c (.done (({ c with reader := reader, scratch := scratch } : Connection).reject text))
  | begun {frame : Value} {reader : Reader} {scratch : Scratch} {cmd : Command} (top : c.phase = .reading)
      (read : decode c.reader c.scratch = (.value frame, reader, scratch)) (parsed : parseCommand unicode frame = .ok cmd)
      (passes : c.tx.handle cfg cmd = (.passthrough, c.tx)) :
      Stepped unicode cfg c (.done { c with reader := reader, scratch := scratch, phase := .pipelining [cmd] })
  | acted {frame : Value} {reader : Reader} {scratch : Scratch} {cmd : Command} {action : TxAction} {tx : TxState}
      (top : c.phase = .reading) (read : decode c.reader c.scratch = (.value frame, reader, scratch))
      (parsed : parseCommand unicode frame = .ok cmd) (handled : c.tx.handle cfg cmd = (action, tx)) (decided : action ≠ .passthrough) :
      Stepped unicode cfg c
        (({ c with reader := reader, scratch := scratch, tx := tx } : Connection).handleAction action >>= fun c => .done c.finish)
  | sent {pipeline : List Command} (collecting : c.phase = .pipelining pipeline) (none : c.reader.buffered = 0) :
      Stepped unicode cfg c (c.dispatchPipeline pipeline >>= fun c => .done c.finish)
  | broken {pipeline : List Command} {e : DecodeError} {reader : Reader} {scratch : Scratch}
      (collecting : c.phase = .pipelining pipeline) (more : c.reader.buffered ≠ 0)
      (read : decode c.reader c.scratch = (.error e, reader, scratch)) :
      Stepped unicode cfg c
        (({ c with reader := reader, scratch := scratch } : Connection).dispatchPipeline pipeline >>= fun c =>
          .done { c with writer := c.writer.flush, phase := .closed })
  | interrupted {pipeline : List Command} {frame : Value} {reader : Reader} {scratch : Scratch} {text : Bytes}
      (collecting : c.phase = .pipelining pipeline) (more : c.reader.buffered ≠ 0)
      (read : decode c.reader c.scratch = (.value frame, reader, scratch)) (parsed : parseCommand unicode frame = .error text) :
      Stepped unicode cfg c
        (({ c with reader := reader, scratch := scratch } : Connection).dispatchPipeline pipeline >>= fun c =>
          .done (c.reject text).finish)
  | extended {pipeline : List Command} {frame : Value} {reader : Reader} {scratch : Scratch} {cmd : Command}
      (collecting : c.phase = .pipelining pipeline) (more : c.reader.buffered ≠ 0)
      (read : decode c.reader c.scratch = (.value frame, reader, scratch)) (parsed : parseCommand unicode frame = .ok cmd)
      (passes : c.tx.handle cfg cmd = (.passthrough, c.tx)) :
      Stepped unicode cfg c (.done { c with reader := reader, scratch := scratch, phase := .pipelining (pipeline ++ [cmd]) })
  | switched {pipeline : List Command} {frame : Value} {reader : Reader} {scratch : Scratch} {cmd : Command} {action : TxAction}
      {tx : TxState} (collecting : c.phase = .pipelining pipeline) (more : c.reader.buffered ≠ 0)
      (read : decode c.reader c.scratch = (.value frame, reader, scratch)) (parsed : parseCommand unicode frame = .ok cmd)
      (handled : c.tx.handle cfg cmd = (action, tx)) (decided : action ≠ .passthrough) :
      Stepped unicode cfg c
        (({ c with reader := reader, scratch := scratch, tx := tx } : Connection).dispatchPipeline pipeline >>= fun c =>
          c.handleAction action >>= fun c => .done c.finish)

section
variable {unicode : CaseTable} {cfg : Config} {c : Connection} {frame : Value} {reader : Reader} {scratch : Scratch}

theorem received (top : c.phase = .reading) (read : decode c.reader c.scratch = (.value frame, reader, scratch)) :
    Stepped unicode cfg c (({ c with reader := reader, scratch := scratch } : Connection).receive unicode cfg frame) := by
  cases parsed : parseCommand unicode frame with
  | error text =>
    simp only [Connection.receive, parsed]
    exact .refused top read parsed
  | ok cmd =>
    cases returned : c.tx.handle cfg cmd with
    | mk action tx =>
      simp only [Connection.receive, parsed, returned]
      cases action with
      | passthrough =>
        obtain ⟨_, rfl⟩ := (handled returned).of_passthrough
        exact .begun top read parsed returned
      | reply | exec => exact .acted top read parsed returned (by simp)

theorem collected {pipeline : List Command} (collecting : c.phase = .pipelining pipeline) (more : c.reader.buffered ≠ 0)
    (read : decode c.reader c.scratch = (.value frame, reader, scratch)) :
    Stepped unicode cfg c (({ c with reader := reader, scratch := scratch } : Connection).extend unicode cfg pipeline frame) := by
  cases parsed : parseCommand unicode frame with
  | error text =>
    simp only [Connection.extend, parsed]
    exact .interrupted collecting more read parsed
  | ok cmd =>
    cases returned : c.tx.handle cfg cmd with
    | mk action tx =>
      simp only [Connection.extend, parsed, returned]
      cases action with
      | passthrough =>
        obtain ⟨_, rfl⟩ := (handled returned).of_passthrough
        exact .extended collecting more read parsed returned
      | reply | exec => exact .switched collecting more read parsed returned (by simp)

theorem stepped (unicode : CaseTable) (cfg : Config) (c : Connection) : Stepped unicode cfg c (c.step unicode cfg) := by
  rcases decoded : decode c.reader c.scratch with ⟨outcome, reader, scratch⟩
  have read : c.read = (outcome, { c with reader := reader, scratch := scratch }) := by simp only [Connection.read, decoded]
  generalize moved : ({ c with reader := reader, scratch := scratch } : Connection) = after at read
  cases phase : c.phase with
  | closed =>
    simp only [Connection.step, phase]
    exact .stays phase
  | reading =>
    simp only [Connection.step, phase, read]
    cases outcome with
    | panic p => exact .failed (by simp [phase]) decoded
    | error e => exact moved ▸ .ended phase decoded
    | value frame => exact moved ▸ received phase decoded
  | pipelining pipeline =>
    simp only [Connection.step, phase, read]
    split
    next none => exact .sent phase none
    next more =>
      cases outcome with
      | panic p => exact .failed (by simp [phase]) decoded
      | error e => exact moved ▸ .broken phase more decoded
      | value frame => exact moved ▸ collected phase more decoded

theorem finish_phase (c : Connection) : c.finish.phase = .reading := by
  unfold Connection.finish
  split <;> rfl

theorem ended_of_running (running : c.phase ≠ .closed) : c.ended = false := by
  unfold Connection.ended
  split
  next closed => exact absurd closed running
  all_goals rfl

/-! What a connection has read. -/

theorem read_frame (read : decode c.reader c.scratch = (.value frame, reader, scratch)) :
    ∃ bytes, c.reader.bytes = bytes ++ reader.bytes ∧ Frame frame bytes := by
  have refined := decode_refines Reader.refines c.reader c.scratch
  rw [read] at refined
  exact (decode_value_iff _ _ _ _).mp ⟨_, refined⟩

theorem read_hostile {p : Panic} (read : decode c.reader c.scratch = (.panic p, reader, scratch)) : Hostile c.reader.bytes := by
  have refined := decode_refines Reader.refines c.reader c.scratch
  rw [read] at refined
  exact (decode_panics_iff _ c.scratch).mp ⟨p, congrArg Prod.fst refined⟩

/-- The decoder finds no frame here, and no length it panics at. -/
theorem decode_error_iff (s : Bytes) (scratch : Scratch) :
    (∃ e, (decode s scratch).1 = .error e) ↔ (∀ value bytes rest, s = bytes ++ rest → ¬ Frame value bytes) ∧ ¬ Hostile s := by
  rw [← decode_panics_iff s scratch]
  constructor
  · rintro ⟨e, failed⟩
    constructor
    · intro value bytes rest split frame
      obtain ⟨after, decoded⟩ := (decode_value_iff s scratch value rest).mpr ⟨bytes, split, frame⟩
      rw [decoded] at failed
      cases failed
    · rintro ⟨p, panics⟩
      rw [panics] at failed
      cases failed
  · intro ⟨frameless, sound⟩
    rcases decoded : decode s scratch with ⟨outcome, rest, after⟩
    rw [decoded] at sound
    cases outcome with
    | error e => exact ⟨e, rfl⟩
    | value v =>
      obtain ⟨bytes, split, frame⟩ := (decode_value_iff s scratch v rest).mp ⟨after, decoded⟩
      exact absurd frame (frameless v bytes rest split)
    | panic p => exact absurd ⟨p, rfl⟩ sound

/-- Decode has an error for these bytes. -/
def Rejected (tail : Bytes) : Prop := ∃ e, (decode tail (none : Scratch)).1 = .error e

theorem read_rejected {e : DecodeError} (read : decode c.reader c.scratch = (.error e, reader, scratch)) : Rejected c.reader.bytes := by
  have refined := decode_refines Reader.refines c.reader c.scratch
  rw [read] at refined
  exact (decode_error_iff _ _).mpr ((decode_error_iff _ c.scratch).mp ⟨e, congrArg Prod.fst refined⟩)

/-! A program alone with a worker, through a request. -/

section
variable {σ : Type} {serve : σ → CommandRequest → Panics (Bytes × σ)} {worker : σ} {req : CommandRequest} {rest : Connection → Goroutine}

theorem run_request : (c.request req >>= rest).run serve worker =
    serve worker req >>= fun result => (rest (c.reply result.1)).run serve result.2 := rfl

theorem request_ran {result : Connection × σ} (ran : (c.request req >>= rest).run serve worker = .ok result) :
    ∃ reply next, serve worker req = .ok (reply, next) ∧ (rest (c.reply reply)).run serve next = .ok result := by
  obtain ⟨⟨reply, next⟩, served, ran⟩ := bind_ok ran
  exact ⟨reply, next, served, ran⟩

end

/-- An action and the end of the iteration, whatever the worker answers. -/
theorem action_ends {post : Connection → Prop} {fails : Panic → Prop} (stays : post c.finish)
    (replies : ∀ reply, post (c.reply reply).finish) (action : TxAction) :
    (c.handleAction action >>= fun c => .done c.finish).Ends post fails := by
  cases action with
  | passthrough => exact .done stays
  | reply reply => exact .done (replies reply)
  | exec batch => exact .ask fun reply => .done (replies reply)

end
end Rediska.Proofs
