import Rediska.Core.Aof
import Rediska.Go.Decimal
import Rediska.Proofs.Frames
import Rediska.Spec.Reply

/-! What replaying a file finds in it: every command that was written to it whole, and
what becomes of those written behind a torn one. -/

namespace Rediska.Proofs
open Go Core Spec

/-- Lengths that a slice of interface values can have, and a buffer for each string. -/
structure Sized (args : List Bytes) : Prop where
  count : CanMake 16 args.length
  each : ∀ arg ∈ args, CanMake 1 (arg.length + 2)

theorem atoi_itoa_natCast {n : Nat} (fits : (n : Int) ≤ maxAlloc) : atoi (itoa n) = some (n : Int) := by
  simp only [maxAlloc] at fits
  exact parseInt_itoa (by simp only [IsInt64, minInt64, maxInt64]; omega)

theorem atoi_itoa_count {n : Nat} (fits : CanMake 16 n) : atoi (itoa n) = some (n : Int) := by
  obtain ⟨natural, small⟩ := fits
  exact atoi_itoa_natCast (by omega)

theorem encodeBulkString_frame {arg : Bytes} (fits : CanMake 1 (arg.length + 2)) :
    Frame (.str arg) (encodeBulkString arg) := by
  have shape : encodeBulkString arg = dollar :: (itoa arg.length ++ crlf ++ (arg ++ crlf)) := by simp [encodeBulkString]
  rw [shape]
  have small := fits.2
  exact .bulk (oneLine_itoa _).2 (atoi_itoa_natCast (by omega)) fits

theorem flatMap_frames {args : List Bytes} (each : ∀ arg ∈ args, CanMake 1 (arg.length + 2)) :
    Frames (args.map .str) (args.flatMap encodeBulkString) := by
  induction args with
  | nil => exact .nil
  | cons arg rest ih =>
    rw [List.flatMap_cons, List.map_cons]
    exact .cons (encodeBulkString_frame (each arg List.mem_cons_self)) (ih fun arg inside => each arg (.tail _ inside))

theorem encodeArray_eq (args : List Bytes) :
    encodeArray args = asterisk :: (itoa args.length ++ crlf ++ args.flatMap encodeBulkString) := by simp [encodeArray]

theorem encodeArray_frame {args : List Bytes} (sized : Sized args) : Frame (.arr (args.map .str)) (encodeArray args) := by
  rw [encodeArray_eq]
  refine .array (oneLine_itoa _).2 ?_ ?_ (flatMap_frames sized.each)
  · rw [List.length_map]
    exact atoi_itoa_count sized.count
  · rw [List.length_map]
    exact sized.count

theorem stringArg_strings (args : List Bytes) : (args.map Value.str).map stringArg = args := by
  rw [List.map_map]
  exact List.map_id args

section
variable {σ : Type} (fn : List Bytes → σ → Panics σ)

/-- More fuel than bytes changes nothing. -/
theorem recoverFuel_enough {fuel fuel' : Nat} {s : Bytes} (state : σ) (enough : s.length < fuel) (enough' : s.length < fuel') :
    recoverFuel fn fuel s state = recoverFuel fn fuel' s state := by
  induction fuel generalizing fuel' s state with
  | zero => omega
  | succ fuel ih =>
    obtain ⟨fuel', rfl⟩ : ∃ n, fuel' = n + 1 := ⟨fuel' - 1, by omega⟩
    have shorter {value : Value} {rest : Bytes} {after : Scratch} (decoded : decode s none = (.value value, rest, after)) :
        rest.length < s.length := by
      obtain ⟨bytes, rfl, frame⟩ := (decode_value_iff s none value rest).mp ⟨after, decoded⟩
      have some := List.length_pos_of_ne_nil frame.ne_nil
      rw [List.length_append]
      omega
    unfold recoverFuel
    rcases decoded : decode s none with ⟨outcome, rest, after⟩
    rcases outcome with (_ | _ | items) | _ | _
    · have := shorter decoded
      exact ih state (by omega) (by omega)
    · have := shorter decoded
      exact ih state (by omega) (by omega)
    · have := shorter decoded
      dsimp only
      cases fn (items.map stringArg) state with
      | error p => rfl
      | ok state => exact ih state (by omega) (by omega)
    · rfl
    · rfl

theorem recover_array {items : List Value} {bytes : Bytes} (frame : Frame (.arr items) bytes) (rest : Bytes) (state : σ) :
    (AOF.mk (bytes ++ rest)).recover fn state = fn (items.map stringArg) state >>= (AOF.mk rest).recover fn := by
  obtain ⟨after, decoded⟩ := (decode_value_iff (bytes ++ rest) none (.arr items) rest).mpr ⟨bytes, rfl, frame⟩
  have some := List.length_pos_of_ne_nil frame.ne_nil
  unfold AOF.recover
  rw [recoverFuel, decoded]
  dsimp only
  cases fn (items.map stringArg) state with
  | error p => rfl
  | ok state =>
    refine recoverFuel_enough fn state ?_ (Nat.lt_succ_self _)
    rw [List.length_append]
    omega

theorem recover_skip {value : Value} {bytes : Bytes} (frame : Frame value bytes) (other : ∀ items, value ≠ .arr items)
    (rest : Bytes) (state : σ) : (AOF.mk (bytes ++ rest)).recover fn state = (AOF.mk rest).recover fn state := by
  obtain ⟨after, decoded⟩ := (decode_value_iff (bytes ++ rest) none value rest).mpr ⟨bytes, rfl, frame⟩
  have some := List.length_pos_of_ne_nil frame.ne_nil
  have shorter : rest.length < (bytes ++ rest).length := by
    rw [List.length_append]
    omega
  unfold AOF.recover
  rw [recoverFuel, decoded]
  cases value with
  | str | int => exact recoverFuel_enough fn state shorter (Nat.lt_succ_self _)
  | arr items => exact absurd rfl (other items)

theorem recover_error {s rest : Bytes} {e : DecodeError} {after : Scratch} (decoded : decode s none = (.error e, rest, after))
    (state : σ) : (AOF.mk s).recover fn state = .ok state := by
  rw [AOF.recover, recoverFuel, decoded]

theorem recover_nil (state : σ) : (AOF.mk []).recover fn state = .ok state := rfl

/-- Written commands are replayed one after the other. -/
theorem recover_commands {cmds : List (List Bytes)} (sized : ∀ cmd ∈ cmds, Sized cmd) (rest : Bytes) (state : σ) :
    (AOF.mk (cmds.flatMap encodeArray ++ rest)).recover fn state = forEach cmds fn state >>= (AOF.mk rest).recover fn := by
  induction cmds generalizing state with
  | nil => rfl
  | cons cmd cmds ih =>
    rw [List.flatMap_cons, List.append_assoc, recover_array fn (encodeArray_frame (sized cmd List.mem_cons_self)),
      stringArg_strings, forEach]
    cases fn cmd state with
    | error p => rfl
    | ok state => exact ih (fun cmd inside => sized cmd (.tail _ inside)) state

/-- Without an asterisk there is no array, and `fn` is not called. -/
theorem recover_no_array {s : Bytes} (clean : asterisk ∉ s) {state final : σ}
    (returned : (AOF.mk s).recover fn state = .ok final) : final = state := by
  induction size : s.length using Nat.strongRecOn generalizing s with
  | ind n ih =>
    rcases decoded : decode s none with ⟨outcome, rest, after⟩
    cases outcome with
    | error e =>
      rw [recover_error fn decoded] at returned
      exact (Except.ok.inj returned).symm
    | panic p =>
      rw [AOF.recover, recoverFuel, decoded] at returned
      cases returned
    | value value =>
      obtain ⟨bytes, rfl, frame⟩ := (decode_value_iff s none value rest).mp ⟨after, decoded⟩
      have other : ∀ items, value ≠ .arr items := by
        rintro items rfl
        cases frame
        exact clean (List.mem_append_left _ List.mem_cons_self)
      rw [recover_skip fn frame other] at returned
      have some := List.length_pos_of_ne_nil frame.ne_nil
      rw [List.length_append] at size
      exact ih rest.length (by omega) (fun inside => clean (List.mem_append_right _ inside)) returned rfl

end

theorem parseInt_no_asterisk {text : Bytes} {n : Int} (read : parseInt text = some n) : asterisk ∉ text := by
  intro inside
  exact absurd (parseInt_chars read asterisk inside) (by decide)

/-- The header was cut: the next command's header becomes part of the count. -/
theorem decode_torn_header {torn : Bytes} (cut : lf ∉ torn) (m : Nat) (tail : Bytes) :
    ∃ e rest after, decode (asterisk :: (torn ++ asterisk :: (itoa m ++ crlf ++ tail))) none = (.error e, rest, after) := by
  have line : torn ++ asterisk :: (itoa m ++ crlf ++ tail) = (torn ++ asterisk :: itoa m) ++ crlf ++ tail := by simp
  have one : lf ∉ torn ++ asterisk :: itoa m := by
    rw [List.mem_append, List.mem_cons]
    rintro (inside | same | inside)
    · exact cut inside
    · exact absurd same (by decide)
    · exact (oneLine_itoa m).2 inside
  have unread : atoi (torn ++ asterisk :: itoa m) = none := by
    cases read : atoi (torn ++ asterisk :: itoa m) with
    | none => rfl
    | some n => exact absurd (List.mem_append_right _ List.mem_cons_self) (parseInt_no_asterisk read)
  refine ⟨.invalidArrayLength (torn ++ asterisk :: itoa m), tail, none, ?_⟩
  rw [decode, decodeFuel_asterisk, readArray, line, readLine_line one]
  simp only [unread]
  rfl

theorem line_cancel {line line' rest rest' : Bytes} (one : lf ∉ line) (one' : lf ∉ line')
    (same : line ++ crlf ++ rest = line' ++ crlf ++ rest') : line = line' ∧ rest = rest' := by
  have read := readLine_line one rest
  rw [same, readLine_line one'] at read
  obtain ⟨lines, rests⟩ := Prod.mk.inj read
  cases lines
  exact ⟨rfl, rests.symm⟩

/-- No frame goes on in another one. -/
theorem Frame.not_proper {value value' : Value} {bytes more : Bytes} (frame : Frame value bytes)
    (frame' : Frame value' (bytes ++ more)) : more = [] := by
  obtain ⟨after, decoded⟩ := (decode_value_iff (bytes ++ more) none value more).mpr ⟨bytes, rfl, frame⟩
  obtain ⟨after', decoded'⟩ := (decode_value_iff (bytes ++ more) none value' []).mpr ⟨bytes ++ more, (List.append_nil _).symm, frame'⟩
  rw [decoded] at decoded'
  exact congrArg (fun result => result.2.1) decoded'

/-- More input does not take a hostile length back. -/
theorem Hostile.append {s : Bytes} (hostile : Hostile s) (more : Bytes) : Hostile (s ++ more) := by
  induction hostile with
  | bulk one read bad =>
    rw [List.cons_append, List.append_assoc]
    exact .bulk one read bad
  | array one read bad =>
    rw [List.cons_append, List.append_assoc]
    exact .array one read bad
  | @element _ items _ _ _ one read fits beyond complete _ ih =>
    rw [List.cons_append, List.append_assoc, List.append_assoc items]
    exact .element one read fits beyond complete ih

/-- A piece of a frame is an error. -/
theorem decode_torn {value : Value} {torn more : Bytes} (frame : Frame value (torn ++ more)) (cut : more ≠ []) :
    ∃ e rest after, decode torn none = (.error e, rest, after) := by
  rcases decoded : decode torn none with ⟨outcome, rest, after⟩
  cases outcome with
  | error e => exact ⟨e, rest, after, rfl⟩
  | value other =>
    obtain ⟨bytes, rfl, within⟩ := (decode_value_iff torn none other rest).mp ⟨after, decoded⟩
    rw [List.append_assoc] at frame
    exact absurd (List.append_eq_nil_iff.mp (within.not_proper frame)).2 cut
  | panic p =>
    have hostile := (decode_panics_iff torn none).mp ⟨p, congrArg Prod.fst decoded⟩
    obtain ⟨q, panics⟩ := (decode_panics_iff (torn ++ more) none).mpr (hostile.append more)
    obtain ⟨after', decoded'⟩ := (decode_value_iff (torn ++ more) none value []).mpr ⟨torn ++ more, (List.append_nil _).symm, frame⟩
    rw [decoded'] at panics
    cases panics

/-- The header was not cut: an array of as many elements as the torn command had swallows
at least the first byte of what follows. -/
theorem decode_torn_body {cmd : List Bytes} (sized : Sized cmd) {start more tail rest : Bytes} {value : Value} {after : Scratch}
    (whole : encodeArray cmd = asterisk :: (itoa cmd.length ++ crlf ++ start) ++ more) (cut : more ≠ [])
    (decoded : decode (asterisk :: (itoa cmd.length ++ crlf ++ start) ++ asterisk :: tail) none = (.value value, rest, after)) :
    ∃ items bytes, Frame (.arr items) bytes ∧ items.length = cmd.length ∧
      asterisk :: (itoa cmd.length ++ crlf ++ start) ++ asterisk :: tail = bytes ++ rest ∧ rest <:+ tail := by
  obtain ⟨bytes, same, frame⟩ := (decode_value_iff _ none value rest).mp ⟨after, decoded⟩
  -- The frame does not end within the torn command, which would be a frame in a frame.
  have swallowed : rest <:+ tail := by
    have inside {left : Bytes} (prefix' : asterisk :: (itoa cmd.length ++ crlf ++ start) = bytes ++ left) : False := by
      have frame' := encodeArray_frame sized
      rw [whole, prefix', List.append_assoc] at frame'
      exact cut (List.append_eq_nil_iff.mp (frame.not_proper frame')).2
    rcases List.append_eq_append_iff.mp same with ⟨taken, beyond, behind⟩ | ⟨left, within, _⟩
    · cases taken with
      | nil => exact (inside (by rw [beyond, List.append_nil, List.append_nil])).elim
      | cons b taken => exact ⟨taken, (List.cons.inj behind).2.symm⟩
    · exact (inside within).elim
  cases frame with
  | @array line items values one read fits inner =>
    refine ⟨values, _, .array one read fits inner, ?_, same, swallowed⟩
    have lines := (List.cons.inj same).2
    have lines' : itoa cmd.length ++ crlf ++ (start ++ asterisk :: tail) = line ++ crlf ++ (items ++ rest) := by
      rw [← List.append_assoc, ← List.append_assoc _ items]
      exact lines
    obtain ⟨rfl, _⟩ := line_cancel (oneLine_itoa _).2 one lines'
    rw [atoi_itoa_count sized.count] at read
    have counts := Option.some.inj read
    omega
  | simple | error | integer | null | bulk => cases (List.cons.inj same).1

/-- The function that notes down the calls made to it. -/
def note (args : List Bytes) (calls : List (List Bytes)) : Panics (List (List Bytes)) := .ok (calls ++ [args])

theorem calls_eq (a : AOF) : a.calls = a.recover note [] := rfl

theorem forEach_note (cmds calls : List (List Bytes)) : forEach cmds note calls = .ok (calls ++ cmds) := by
  induction cmds generalizing calls with
  | nil => rw [List.append_nil]; rfl
  | cons cmd cmds ih =>
    rw [forEach, note, ok_bind, ih, List.append_assoc]
    rfl

/-- A piece with a line feed in it has all of the first line. -/
theorem torn_past_header {line body torn more : Bytes} (one : lf ∉ line) (same : line ++ crlf ++ body = torn ++ more)
    (feed : lf ∈ torn) : ∃ start, torn = line ++ crlf ++ start := by
  rcases List.append_eq_append_iff.mp same with ⟨start, beyond, _⟩ | ⟨left, within, _⟩
  · exact ⟨start, beyond⟩
  · rcases List.eq_nil_or_concat' left with rfl | ⟨init, last, rfl⟩
    · exact ⟨[], by rw [within, List.append_nil, List.append_nil]⟩
    · have shape : torn ++ init ++ [last] = line ++ [cr] ++ [lf] := by
        rw [List.append_assoc, ← within, List.append_assoc]
        rfl
      obtain ⟨inits, _⟩ := List.append_inj' shape rfl
      have impossible : lf ∈ line ++ [cr] := inits ▸ List.mem_append_left _ feed
      rcases List.mem_append.mp impossible with inside | last
      · exact absurd inside one
      · exact absurd (List.mem_singleton.mp last) (by decide)

/-- Behind a torn command, a command without an asterisk of its own is not replayed; at
most one call is made, with as many arguments as the torn command had. -/
theorem recover_torn {cmd : List Bytes} (sized : Sized cmd) {torn more : Bytes} (whole : encodeArray cmd = torn ++ more)
    (begun : torn ≠ []) (cut : more ≠ []) {m : Nat} {tail : Bytes} (clean : asterisk ∉ itoa m ++ crlf ++ tail)
    {calls final : List (List Bytes)}
    (returned : (AOF.mk (torn ++ asterisk :: (itoa m ++ crlf ++ tail))).recover note calls = .ok final) :
    final = calls ∨ ∃ args, args.length = cmd.length ∧ final = calls ++ [args] := by
  obtain ⟨first, torn, rfl⟩ := List.exists_cons_of_ne_nil begun
  rw [encodeArray_eq] at whole
  obtain ⟨rfl, header⟩ := List.cons.inj whole
  by_cases complete : lf ∈ torn
  · obtain ⟨start, rfl⟩ := torn_past_header (oneLine_itoa _).2 header complete
    rcases decoded : decode (asterisk :: (itoa cmd.length ++ crlf ++ start) ++ asterisk :: (itoa m ++ crlf ++ tail)) none with
      ⟨outcome, rest, after⟩
    cases outcome with
    | error e =>
      rw [recover_error note decoded] at returned
      exact .inl (Except.ok.inj returned).symm
    | panic p =>
      rw [AOF.recover, recoverFuel, decoded] at returned
      cases returned
    | value value =>
      rw [← encodeArray_eq] at whole
      obtain ⟨items, bytes, frame, count, same, suffix⟩ := decode_torn_body sized whole cut decoded
      rw [same, recover_array note frame] at returned
      have final' := recover_no_array note (fun inside => clean (suffix.subset inside)) returned
      exact .inr ⟨items.map stringArg, by rw [List.length_map, count], final'⟩
  · obtain ⟨e, rest, after, decoded⟩ := decode_torn_header complete m tail
    rw [List.cons_append, recover_error note decoded] at returned
    exact .inl (Except.ok.inj returned).symm

/-- The commands that a file cut short still has all the bytes of. -/
def complete : List (List Bytes) → Bytes → List (List Bytes)
  | [], _ => []
  | cmd :: cmds, file =>
    if encodeArray cmd <+: file then cmd :: complete cmds (file.drop (encodeArray cmd).length) else []

/-- What is behind the complete commands is a piece of the next one. -/
theorem complete_torn {cmds : List (List Bytes)} {file : Bytes} (cut : file <+: cmds.flatMap encodeArray) :
    ∃ left torn, cmds = complete cmds file ++ left ∧ file = (complete cmds file).flatMap encodeArray ++ torn ∧
      (torn = [] ∨ ∃ cmd rest more, left = cmd :: rest ∧ encodeArray cmd = torn ++ more ∧ more ≠ []) := by
  induction cmds generalizing file with
  | nil => exact ⟨[], [], rfl, List.prefix_nil.mp cut, .inl rfl⟩
  | cons cmd cmds ih =>
    rw [List.flatMap_cons] at cut
    unfold complete
    by_cases whole : encodeArray cmd <+: file
    · obtain ⟨rest, rfl⟩ := whole
      have cut' : rest <+: cmds.flatMap encodeArray := (List.prefix_append_right_inj _).mp cut
      obtain ⟨left, torn, split, shape, piece⟩ := ih cut'
      rw [if_pos (List.prefix_append _ _), List.drop_left]
      refine ⟨left, torn, by rw [List.cons_append, ← split], ?_, piece⟩
      rw [List.flatMap_cons, List.append_assoc, ← shape]
    · rw [if_neg whole]
      refine ⟨cmd :: cmds, file, rfl, rfl, .inr ⟨cmd, cmds, ?_⟩⟩
      obtain ⟨more, same⟩ := (List.prefix_or_prefix_of_prefix cut (List.prefix_append _ _)).resolve_right whole
      refine ⟨more, rfl, same.symm, ?_⟩
      rintro rfl
      exact whole ⟨[], by rw [← same, List.append_nil, List.append_nil]⟩

/-- No longer list of commands has all its bytes in the file. -/
theorem complete_longest {cmds done : List (List Bytes)} {file : Bytes} (within : done <+: cmds)
    (whole : done.flatMap encodeArray <+: file) : done <+: complete cmds file := by
  induction cmds generalizing done file with
  | nil =>
    obtain rfl := List.prefix_nil.mp within
    exact List.nil_prefix
  | cons cmd cmds ih =>
    cases done with
    | nil => exact List.nil_prefix
    | cons first done =>
      obtain ⟨rfl, within'⟩ := List.cons_prefix_cons.mp within
      rw [List.flatMap_cons] at whole
      obtain ⟨rest, rfl⟩ := (List.prefix_append _ _).trans whole
      rw [complete, if_pos (List.prefix_append _ _), List.drop_left]
      exact List.cons_prefix_cons.mpr ⟨rfl, ih within' ((List.prefix_append_right_inj _).mp whole)⟩

/-- A cut file calls the function for its complete commands and for nothing behind them. -/
theorem recover_complete {σ : Type} (fn : List Bytes → σ → Panics σ) {cmds : List (List Bytes)} {file : Bytes}
    (sized : ∀ cmd ∈ cmds, Sized cmd) (cut : file <+: cmds.flatMap encodeArray) (state : σ) :
    (AOF.mk file).recover fn state = forEach (complete cmds file) fn state := by
  obtain ⟨left, torn, split, shape, piece⟩ := complete_torn cut
  generalize complete cmds file = done at split shape ⊢
  subst split shape
  have ends (state : σ) : (AOF.mk torn).recover fn state = .ok state := by
    rcases piece with rfl | ⟨cmd, rest, more, rfl, whole, missing⟩
    · exact recover_nil fn state
    · have frame := encodeArray_frame (sized cmd (List.mem_append_right _ List.mem_cons_self))
      obtain ⟨e, rest, after, decoded⟩ := decode_torn (whole ▸ frame) missing
      exact recover_error fn decoded state
  rw [recover_commands fn fun cmd inside => sized cmd (List.mem_append_left _ inside)]
  cases forEach done fn state with
  | error p => rfl
  | ok state => exact ends state

/-- Wherever a crash cut the file, the commands replayed are the longest list of those
written that the file has whole, each with the arguments it was written with. -/
theorem recover_cut_file {cmds : List (List Bytes)} {file : Bytes} (sized : ∀ cmd ∈ cmds, Sized cmd)
    (cut : file <+: cmds.flatMap encodeArray) :
    ∃ done, done <+: cmds ∧ done.flatMap encodeArray <+: file ∧
      (∀ longer, longer <+: cmds → longer.flatMap encodeArray <+: file → longer <+: done) ∧
      (AOF.mk file).calls = .ok done ∧
      ∀ (σ : Type) (fn : List Bytes → σ → Panics σ) (state : σ), (AOF.mk file).recover fn state = forEach done fn state := by
  obtain ⟨left, torn, split, shape, _⟩ := complete_torn cut
  refine ⟨complete cmds file, ⟨left, split.symm⟩, ⟨torn, shape.symm⟩, fun _ => complete_longest, ?_, ?_⟩
  · rw [calls_eq, recover_complete note sized cut, forEach_note, List.nil_append]
  · intro σ fn state
    exact recover_complete fn sized cut state

/-- The second command was being written, its text looking like an array of its own. -/
theorem recover_cut_in_text :
    (AOF.mk (encodeArray [ascii "SET", ascii "k", ascii "v"] ++ ascii "*2\r\n$3\r\nGET\r\n$4\r\n*0\r")).calls =
      .ok [[ascii "SET", ascii "k", ascii "v"]] := by
  have small : ∀ cmd ∈ [[ascii "SET", ascii "k", ascii "v"], [ascii "GET", ascii "*0\r\n"]], Sized cmd := by
    intro cmd inside
    rcases List.mem_pair.mp inside with rfl | rfl
    · exact ⟨by decide, by decide⟩
    · exact ⟨by decide, by decide⟩
  have cut : encodeArray [ascii "SET", ascii "k", ascii "v"] ++ ascii "*2\r\n$3\r\nGET\r\n$4\r\n*0\r" <+:
      [[ascii "SET", ascii "k", ascii "v"], [ascii "GET", ascii "*0\r\n"]].flatMap encodeArray :=
    ⟨ascii "\n\r\n", by decide +kernel⟩
  obtain ⟨done, within, whole, longest, replayed, _⟩ := recover_cut_file small cut
  have short : done ≠ [[ascii "SET", ascii "k", ascii "v"], [ascii "GET", ascii "*0\r\n"]] := by
    rintro rfl
    exact absurd whole (by decide +kernel)
  obtain ⟨more, rfl⟩ : [[ascii "SET", ascii "k", ascii "v"]] <+: done := longest _ ⟨_, rfl⟩ ⟨_, rfl⟩
  obtain ⟨left, split⟩ := within
  cases more with
  | nil => exact replayed
  | cons next more =>
    obtain ⟨rfl, rest⟩ := List.cons.inj (List.cons.inj split).2
    obtain ⟨rfl, _⟩ := List.append_eq_nil_iff.mp rest
    exact absurd rfl short

/-- Replaying makes the calls for the commands of the first list, and then, among others
perhaps, those for the second, in order. -/
def Survives (a : AOF) (before later : List (List Bytes)) : Prop :=
  ∃ calls, a.calls = .ok (before ++ calls) ∧ later.Sublist calls

theorem foldl_write (cmds : List (List Bytes)) (file : Bytes) :
    cmds.foldl AOF.write ⟨file⟩ = ⟨file ++ cmds.flatMap encodeArray⟩ := by
  induction cmds generalizing file with
  | nil => rw [List.flatMap_nil, List.append_nil]; rfl
  | cons cmd cmds ih => rw [List.foldl_cons, AOF.write, ih, List.flatMap_cons, List.append_assoc]

theorem calls_commands {cmds : List (List Bytes)} (sized : ∀ cmd ∈ cmds, Sized cmd) (rest : Bytes) :
    (AOF.mk (cmds.flatMap encodeArray ++ rest)).calls = (AOF.mk rest).recover note cmds := by
  rw [calls_eq, recover_commands note sized, forEach_note, ok_bind, List.nil_append]

/-- A command that a torn one of `n` arguments does not let through. -/
def blocked (n : Nat) : List Bytes := if n = 1 then [ascii "x", ascii "x"] else [ascii "x"]

theorem blocked_length (n : Nat) : (blocked n).length ≠ n := by
  unfold blocked
  split
  · simp; omega
  · simp; omega

theorem blocked_clean (n : Nat) :
    asterisk ∉ itoa (blocked n).length ++ crlf ++ (blocked n).flatMap encodeBulkString := by
  unfold blocked
  split <;> decide

theorem blocked_sized (n : Nat) : Sized (blocked n) := by
  unfold blocked
  split <;> exact ⟨by decide, by decide⟩

/-- Commands written at the end of a command are all replayed. -/
theorem survives_boundary {done later : List (List Bytes)} (sized : ∀ cmd ∈ done, Sized cmd)
    (sized' : ∀ cmd ∈ later, Sized cmd) : Survives (later.foldl AOF.write (newAOF (done.flatMap encodeArray))) done later := by
  refine ⟨later, ?_, List.Sublist.refl later⟩
  rw [newAOF, foldl_write, calls_commands sized, ← List.append_nil (later.flatMap encodeArray), recover_commands note sized',
    forEach_note, ok_bind, recover_nil]

/-- Behind a torn command there is one that is not replayed. -/
theorem not_survives_torn {done : List (List Bytes)} (sized : ∀ cmd ∈ done, Sized cmd) {cmd : List Bytes} (sized' : Sized cmd)
    {torn more : Bytes} (whole : encodeArray cmd = torn ++ more) (begun : torn ≠ []) (missing : more ≠ []) :
    ¬ Survives ([blocked cmd.length].foldl AOF.write (newAOF (done.flatMap encodeArray ++ torn))) done [blocked cmd.length] := by
  rintro ⟨calls, returned, within⟩
  rw [newAOF, foldl_write, List.flatMap_singleton, List.append_assoc, calls_commands sized, encodeArray_eq] at returned
  rcases recover_torn sized' whole begun missing (blocked_clean cmd.length) returned with none | ⟨args, count, one⟩
  · obtain rfl := List.append_right_eq_self.mp none
    cases within
  · obtain rfl := List.append_cancel_left one
    have same := List.singleton_sublist.mp within
    rw [← List.mem_singleton.mp same] at count
    exact blocked_length _ count

/-- A file at the end of a command has no torn one. -/
theorem torn_nil_of_boundary {done left done' : List (List Bytes)} {torn : Bytes}
    (piece : torn = [] ∨ ∃ cmd rest more, left = cmd :: rest ∧ encodeArray cmd = torn ++ more ∧ more ≠ [])
    (boundary : done' <+: done ++ left) (same : done.flatMap encodeArray ++ torn = done'.flatMap encodeArray) : torn = [] := by
  rcases List.prefix_or_prefix_of_prefix boundary (List.prefix_append done left) with ⟨extra, rfl⟩ | ⟨extra, rfl⟩
  · rw [List.flatMap_append, List.append_assoc] at same
    exact (List.append_eq_nil_iff.mp (List.append_right_eq_self.mp same)).2
  · rw [List.flatMap_append] at same
    have torn' := List.append_cancel_left same
    rcases piece with none | ⟨cmd, rest, more, rfl, whole, missing⟩
    · exact none
    · cases extra with
      | nil => exact torn'
      | cons next extra =>
        obtain ⟨rfl, _⟩ := List.cons_prefix_cons.mp ((List.prefix_append_right_inj done).mp boundary)
        have size := congrArg List.length whole
        rw [torn', List.flatMap_cons, List.length_append, List.length_append] at size
        exact absurd (List.length_pos_of_ne_nil missing) (by omega)

/-- Writes made after a crash survive the next restart exactly if the crash left the file
at the end of a command. -/
theorem later_writes_survive_iff {cmds : List (List Bytes)} {file : Bytes} (sized : ∀ cmd ∈ cmds, Sized cmd)
    (cut : file <+: cmds.flatMap encodeArray) :
    (∀ later, (∀ cmd ∈ later, Sized cmd) → Survives (later.foldl AOF.write (newAOF file)) (complete cmds file) later) ↔
      ∃ done, done <+: cmds ∧ file = done.flatMap encodeArray := by
  obtain ⟨left, torn, split, shape, piece⟩ := complete_torn cut
  generalize complete cmds file = done at split shape ⊢
  subst split shape
  have sized' : ∀ cmd ∈ done, Sized cmd := fun cmd inside => sized cmd (List.mem_append_left _ inside)
  constructor
  · intro survives
    have whole : torn = [] := by
      rcases piece with none | ⟨cmd, rest, more, rfl, whole, missing⟩
      · exact none
      · by_contra begun
        have here : Sized cmd := sized cmd (List.mem_append_right _ List.mem_cons_self)
        exact not_survives_torn sized' here whole begun missing
          (survives _ (List.forall_mem_singleton.mpr (blocked_sized _)))
    exact ⟨done, List.prefix_append done left, by rw [whole, List.append_nil]⟩
  · rintro ⟨done', boundary, same⟩ later sized''
    rw [torn_nil_of_boundary piece boundary same, List.append_nil]
    exact survives_boundary sized' sized''

theorem write_after_set_survives :
    Survives ([[ascii "DEL", ascii "k"]].foldl AOF.write (newAOF (encodeArray [ascii "SET", ascii "k", ascii "v"])))
      (complete [[ascii "SET", ascii "k", ascii "v"]] (encodeArray [ascii "SET", ascii "k", ascii "v"])) [[ascii "DEL", ascii "k"]] := by
  have small : ∀ cmd ∈ [[ascii "SET", ascii "k", ascii "v"]], Sized cmd :=
    List.forall_mem_singleton.mpr ⟨by decide, by decide⟩
  have small' : ∀ cmd ∈ [[ascii "DEL", ascii "k"]], Sized cmd := List.forall_mem_singleton.mpr ⟨by decide, by decide⟩
  refine (later_writes_survive_iff small ⟨[], ?_⟩).mpr ⟨_, List.prefix_refl _, ?_⟩ _ small'
  · rw [List.append_nil, List.flatMap_singleton]
  · rw [List.flatMap_singleton]

/-- PING was being written when the server crashed; the SET written afterwards is lost. -/
theorem write_after_crash_lost :
    ¬ ∀ (cmds later : List (List Bytes)) (file : Bytes), (∀ cmd ∈ cmds, Sized cmd) → file <+: cmds.flatMap encodeArray →
      (∀ cmd ∈ later, Sized cmd) → Survives (later.foldl AOF.write (newAOF file)) (complete cmds file) later := by
  intro claim
  have small : ∀ cmd ∈ [[ascii "PING"]], Sized cmd := List.forall_mem_singleton.mpr ⟨by decide, by decide⟩
  have small' : ∀ cmd ∈ [[ascii "SET", ascii "k", ascii "v"]], Sized cmd :=
    List.forall_mem_singleton.mpr ⟨by decide, by decide⟩
  obtain ⟨calls, returned, within⟩ := claim [[ascii "PING"]] [[ascii "SET", ascii "k", ascii "v"]] (ascii "*1\r\n$4\r\nPI")
    small ⟨ascii "NG\r\n", by decide +kernel⟩ small'
  have replayed : ([[ascii "SET", ascii "k", ascii "v"]].foldl AOF.write (newAOF (ascii "*1\r\n$4\r\nPI"))).calls =
      .ok [[ascii "PI*3"]] := by decide +kernel
  have none : complete [[ascii "PING"]] (ascii "*1\r\n$4\r\nPI") = [] := rfl
  rw [replayed, none] at returned
  obtain rfl := Except.ok.inj returned
  exact absurd (List.singleton_sublist.mp within) (by decide)

end Rediska.Proofs
