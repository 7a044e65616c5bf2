import Rediska.Go.Basic

/-! Byte input as package bufio delivers it. A decoder is written once over `Source`;
`Bytes` is the input as one string, `Reader` the buffered connection whose bytes
arrive in chunks. Chunking is invisible except through `buffered`. -/

namespace Rediska.Go

class Source (ρ : Type) where
  /-- `none` is the end of the input. -/
  readByte : ρ → Option UInt8 × ρ
  /-- `ReadString('\n')`: up to and including the next line feed, `none` when the
  input ends first. -/
  readString : ρ → Option Bytes × ρ
  /-- `io.ReadFull` of so many bytes: what could be read, which is shorter only when
  the input ended. -/
  readFull : Nat → ρ → Bytes × ρ
  remaining : ρ → Nat

def throughLine (s : Bytes) : Bytes := s.takeWhile (· ≠ lf) ++ [lf]

def afterLine (s : Bytes) : Bytes := (s.dropWhile (· ≠ lf)).tail

instance : Source Bytes where
  readByte
    | [] => (none, [])
    | b :: rest => (some b, rest)
  readString s := if lf ∈ s then (some (throughLine s), afterLine s) else (none, [])
  readFull n s := (s.take n, s.drop n)
  remaining s := s.length

/-- The size bufio.NewReader and bufio.NewWriter give their buffers. -/
def bufferSize : Nat := 4096

/-- `buf` is the unread part of the buffer, `net` what the following reads from the
connection return. After the last chunk the client has closed its side. -/
structure Reader where
  buf : Bytes
  net : List Bytes
deriving DecidableEq, Repr

/-- One read from the connection into this much room. A longer chunk stays to be
read on; a read that returns nothing is repeated. -/
def nextRead (room : Nat) : List Bytes → Option (Bytes × List Bytes)
  | [] => none
  | [] :: net => nextRead room net
  | (b :: chunk) :: net =>
    if (b :: chunk).length ≤ room then some (b :: chunk, net)
    else some ((b :: chunk).take room, (b :: chunk).drop room :: net)

namespace Reader

def buffered (r : Reader) : Nat := r.buf.length

/-- All the bytes that are still to be read. -/
def bytes (r : Reader) : Bytes := r.buf ++ r.net.flatten

def readByte (r : Reader) : Option UInt8 × Reader :=
  match r.buf with
  | b :: buf => (some b, ⟨buf, r.net⟩)
  | [] => match nextRead bufferSize r.net with
    | none => (none, ⟨[], []⟩)
    | some (chunk, net) => (chunk.head?, ⟨chunk.tail, net⟩)

/-- `sofar` holds the full buffers that had no line feed. -/
def readStringFrom : Nat → Bytes → Bytes → List Bytes → Option Bytes × Reader
  | 0, _, buf, net => (none, ⟨buf, net⟩)
  | fuel + 1, sofar, buf, net =>
    if lf ∈ buf then (some (sofar ++ throughLine buf), ⟨afterLine buf, net⟩)
    else
      let full := bufferSize ≤ buf.length
      let sofar := if full then sofar ++ buf else sofar
      let buf := if full then [] else buf
      match nextRead (bufferSize - buf.length) net with
      | none => (none, ⟨[], []⟩)
      | some (chunk, net) => readStringFrom fuel sofar (buf ++ chunk) net

def reads (net : List Bytes) : Nat := net.flatten.length + net.length

def readString (r : Reader) : Option Bytes × Reader :=
  readStringFrom (reads r.net + 1) [] r.buf r.net

/-- A large remainder is read past the empty buffer, straight into the caller's slice. -/
def readFullFrom : Nat → Nat → Bytes → Bytes → List Bytes → Bytes × Reader
  | 0, _, sofar, buf, net => (sofar, ⟨buf, net⟩)
  | fuel + 1, need, sofar, buf, net =>
    if need ≤ buf.length then (sofar ++ buf.take need, ⟨buf.drop need, net⟩)
    else
      let need := need - buf.length
      let sofar := sofar ++ buf
      if bufferSize ≤ need then
        match nextRead need net with
        | none => (sofar, ⟨[], []⟩)
        | some (chunk, net) => readFullFrom fuel (need - chunk.length) (sofar ++ chunk) [] net
      else
        match nextRead bufferSize net with
        | none => (sofar, ⟨[], []⟩)
        | some (chunk, net) => readFullFrom fuel need sofar chunk net

def readFull (n : Nat) (r : Reader) : Bytes × Reader :=
  readFullFrom (reads r.net + 1) n [] r.buf r.net

end Reader

instance : Source Reader where
  readByte := Reader.readByte
  readString := Reader.readString
  readFull := Reader.readFull
  remaining r := r.bytes.length

/-- bufio.Writer over a connection: `buf` waits to be sent, `wire` is all that was
written to the connection. -/
structure Writer where
  buf : Bytes
  wire : Bytes
deriving DecidableEq, Repr

namespace Writer

def empty : Writer := ⟨[], []⟩

def flush (w : Writer) : Writer := ⟨[], w.wire ++ w.buf⟩

/-- What does not fit goes out: first the filled buffer, then a remainder that would
not fit into the emptied one either. -/
def write (w : Writer) (p : Bytes) : Writer :=
  let available := bufferSize - w.buf.length
  if p.length ≤ available then ⟨w.buf ++ p, w.wire⟩
  else if w.buf = [] then ⟨[], w.wire ++ p⟩
  else
    let wire := w.wire ++ w.buf ++ p.take available
    let p := p.drop available
    if p.length ≤ bufferSize then ⟨p, wire⟩ else ⟨[], wire ++ p⟩

/-- A write on the connection itself, past the buffer. -/
def direct (w : Writer) (p : Bytes) : Writer := ⟨w.buf, w.wire ++ p⟩

/-- Sent and waiting bytes together. -/
def all (w : Writer) : Bytes := w.wire ++ w.buf

/-- What goes out is what came in first. -/
theorem write_split (w : Writer) (p : Bytes) : ∃ out, (w.write p).wire = w.wire ++ out ∧ out ++ (w.write p).buf = w.buf ++ p := by
  simp only [write]
  split
  · exact ⟨[], by simp⟩
  · split
    next empty => exact ⟨p, by simp [empty]⟩
    next =>
      split
      · exact ⟨w.buf ++ p.take (bufferSize - w.buf.length), by simp⟩
      · exact ⟨w.buf ++ p, by simp⟩

theorem all_write (w : Writer) (p : Bytes) : (w.write p).all = w.all ++ p := by
  obtain ⟨out, wire, rest⟩ := w.write_split p
  rw [all, wire, List.append_assoc, rest, all, List.append_assoc]

theorem all_flush (w : Writer) : w.flush.all = w.all := by
  simp [all, flush]

end Writer

/-- Reading through `ρ` is reading the input `abs` gives it. -/
structure Refines {ρ τ : Type} [Source ρ] [Source τ] (abs : ρ → τ) : Prop where
  readByte : ∀ r, Source.readByte (abs r) = ((Source.readByte r).1, abs (Source.readByte r).2)
  readString : ∀ r, Source.readString (abs r) = ((Source.readString r).1, abs (Source.readString r).2)
  readFull : ∀ n r, Source.readFull n (abs r) = ((Source.readFull n r).1, abs (Source.readFull n r).2)
  remaining : ∀ r, Source.remaining (abs r) = Source.remaining r

theorem throughLine_append {first rest : Bytes} (absent : lf ∉ first) :
    throughLine (first ++ rest) = first ++ throughLine rest := by
  unfold throughLine
  rw [List.takeWhile_append_of_pos (by intro b member; simp; rintro rfl; exact absent member), List.append_assoc]

theorem afterLine_append {first rest : Bytes} (absent : lf ∉ first) :
    afterLine (first ++ rest) = afterLine rest := by
  unfold afterLine
  rw [List.dropWhile_append_of_pos (by intro b member; simp; rintro rfl; exact absent member)]

/-- A string with a line feed, cut at the first one. -/
theorem line_split {s : Bytes} (present : lf ∈ s) :
    ∃ before after, s = before ++ lf :: after ∧ lf ∉ before ∧
      throughLine s = before ++ [lf] ∧ afterLine s = after := by
  obtain ⟨before, after, rfl, absent⟩ := List.eq_append_cons_of_mem present
  refine ⟨before, after, rfl, absent, ?_, ?_⟩
  · rw [throughLine_append absent]
    simp [throughLine]
  · rw [afterLine_append absent]
    simp [afterLine]

theorem nextRead_none {room : Nat} {net : List Bytes} (ended : nextRead room net = none) : net.flatten = [] := by
  induction net with
  | nil => rfl
  | cons chunk net ih =>
    cases chunk with
    | nil => simpa using ih ended
    | cons b chunk => simp only [nextRead] at ended; split at ended <;> cases ended

theorem nextRead_some {room : Nat} {net rest : List Bytes} {chunk : Bytes} (positive : 0 < room)
    (read : nextRead room net = some (chunk, rest)) :
    net.flatten = chunk ++ rest.flatten ∧ chunk ≠ [] ∧ chunk.length ≤ room ∧ Reader.reads rest < Reader.reads net := by
  induction net with
  | nil => cases read
  | cons first net ih =>
    cases first with
    | nil =>
      obtain ⟨same, present, fits, less⟩ := ih read
      refine ⟨by simpa using same, present, fits, ?_⟩
      simp only [Reader.reads, List.flatten_cons, List.nil_append, List.length_cons] at less ⊢
      omega
    | cons b first =>
      simp only [nextRead] at read
      split at read
      next fits =>
        cases read
        refine ⟨by simp, by simp, fits, ?_⟩
        simp only [Reader.reads, List.flatten_cons, List.length_append, List.length_cons]
        omega
      next long =>
        cases read
        refine ⟨by rw [List.flatten_cons, List.flatten_cons, ← List.append_assoc, List.take_append_drop],
          ?_, List.length_take_le _ _, ?_⟩
        · intro empty
          have := congrArg List.length empty
          simp at this
          omega
        · simp only [Reader.reads, List.flatten_cons, List.length_append, List.length_drop, List.length_cons] at long ⊢
          omega

namespace Reader

theorem readByte_bytes (r : Reader) : Source.readByte r.bytes = (r.readByte.1, r.readByte.2.bytes) := by
  obtain ⟨buf, net⟩ := r
  cases buf with
  | cons b buf => rfl
  | nil =>
    simp only [readByte, bytes, List.nil_append]
    cases read : nextRead bufferSize net with
    | none => rw [nextRead_none read]; rfl
    | some pair =>
      obtain ⟨chunk, rest⟩ := pair
      obtain ⟨same, present, _, _⟩ := nextRead_some (by decide) read
      obtain ⟨b, chunk, rfl⟩ := List.exists_cons_of_ne_nil present
      rw [same]
      rfl

theorem readStringFrom_bytes (fuel : Nat) (sofar buf : Bytes) (net : List Bytes) (enough : reads net < fuel)
    (absent : lf ∉ sofar) :
    Source.readString (sofar ++ (buf ++ net.flatten)) =
      ((readStringFrom fuel sofar buf net).1, (readStringFrom fuel sofar buf net).2.bytes) := by
  induction fuel generalizing sofar buf net with
  | zero => omega
  | succ fuel ih =>
    simp only [readStringFrom]
    split
    next found =>
      obtain ⟨before, after, rfl, clean, through, rest⟩ := line_split found
      simp only [Source.readString]
      rw [if_pos (by simp), throughLine_append absent, afterLine_append absent, through, rest,
        List.append_assoc, throughLine_append clean, afterLine_append clean]
      simp [throughLine, afterLine, bytes]
    next missing =>
      -- Moving a full buffer aside changes where the bytes are kept, not their order.
      generalize keptEq : (if bufferSize ≤ buf.length then sofar ++ buf else sofar) = kept
      generalize restEq : (if bufferSize ≤ buf.length then [] else buf) = rest
      have same : sofar ++ buf = kept ++ rest := by
        subst keptEq restEq
        split <;> simp
      have clean : lf ∉ kept ++ rest := by rw [← same]; simp [absent, missing]
      have room : 0 < bufferSize - rest.length := by
        subst restEq
        split
        · decide
        next small => omega
      cases read : nextRead (bufferSize - rest.length) net with
      | none =>
        simp only [Source.readString, nextRead_none read, List.append_nil]
        rw [if_neg (by simp [absent, missing])]
        rfl
      | some pair =>
        obtain ⟨chunk, after⟩ := pair
        obtain ⟨flat, _, _, less⟩ := nextRead_some room read
        have step := ih kept (rest ++ chunk) after (by omega) (fun member => clean (by simp [member]))
        rw [← step, flat, ← List.append_assoc, same]
        simp

theorem readString_bytes (r : Reader) :
    Source.readString r.bytes = (r.readString.1, r.readString.2.bytes) :=
  readStringFrom_bytes (reads r.net + 1) [] r.buf r.net (by omega) (by simp)

theorem readFullFrom_bytes (fuel need : Nat) (sofar buf : Bytes) (net : List Bytes) (enough : reads net < fuel) :
    (readFullFrom fuel need sofar buf net).1 = sofar ++ (buf ++ net.flatten).take need ∧
    (readFullFrom fuel need sofar buf net).2.bytes = (buf ++ net.flatten).drop need := by
  induction fuel generalizing need sofar buf net with
  | zero => omega
  | succ fuel ih =>
    simp only [readFullFrom]
    split
    next fits => simp [bytes, List.take_append_of_le_length fits, List.drop_append_of_le_length fits]
    next short =>
      have whole : buf.length ≤ need := by omega
      split
      next large =>
        cases read : nextRead (need - buf.length) net with
        | none => simp [nextRead_none read, bytes, List.take_of_length_le whole, whole]
        | some pair =>
          obtain ⟨chunk, after⟩ := pair
          obtain ⟨flat, _, fits, less⟩ := nextRead_some (by omega) read
          have step := ih (need - buf.length - chunk.length) (sofar ++ buf ++ chunk) [] after (by omega)
          simp only [step, flat, List.take_append, List.drop_append, List.take_of_length_le whole,
            List.take_of_length_le fits, List.drop_eq_nil_of_le whole, List.drop_eq_nil_of_le fits, List.nil_append]
          simp
      next small =>
        cases read : nextRead bufferSize net with
        | none => simp [nextRead_none read, bytes, List.take_of_length_le whole, whole]
        | some pair =>
          obtain ⟨chunk, after⟩ := pair
          obtain ⟨flat, _, _, less⟩ := nextRead_some (by decide) read
          have step := ih (need - buf.length) (sofar ++ buf) chunk after (by omega)
          have taken : (buf ++ (chunk ++ after.flatten)).take need = buf ++ (chunk ++ after.flatten).take (need - buf.length) := by
            rw [List.take_append, List.take_of_length_le whole]
          have left : (buf ++ (chunk ++ after.flatten)).drop need = (chunk ++ after.flatten).drop (need - buf.length) := by
            rw [List.drop_append, List.drop_eq_nil_of_le whole, List.nil_append]
          simp only [step, flat, taken, left]
          simp

theorem readFull_bytes (n : Nat) (r : Reader) :
    Source.readFull n r.bytes = ((r.readFull n).1, (r.readFull n).2.bytes) := by
  obtain ⟨taken, left⟩ := readFullFrom_bytes (reads r.net + 1) n [] r.buf r.net (by omega)
  exact Prod.ext taken.symm left.symm

/-- However the bytes of a connection are split into reads, a decoder sees the same. -/
theorem refines : Refines bytes where
  readByte := readByte_bytes
  readString := readString_bytes
  readFull := readFull_bytes
  remaining _ := rfl

end Reader

end Rediska.Go
