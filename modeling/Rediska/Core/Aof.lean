import Rediska.Core.Resp
import Rediska.Go.Loop

/-! The append-only file. -/

namespace Rediska.Core
open Go

/-- The file is opened for appending: whatever it holds stays, and every write goes to
its end, wherever reading has left the offset. -/
structure AOF where
  file : Bytes

def newAOF (file : Bytes) : AOF := ⟨file⟩

def AOF.write (a : AOF) (args : List Bytes) : AOF := ⟨a.file ++ encodeArray args⟩

/-- An element that is not a string leaves its place in `args` empty. -/
def stringArg : Value → Bytes
  | .str s => s
  | .int _ => []
  | .arr _ => []

/-- The loop of `Recover`, on what is left of the file. `fn` may panic, and so may the
decoder; an error of the decoder ends the loop. -/
def recoverFuel {σ : Type} (fn : List Bytes → σ → Panics σ) : Nat → Bytes → σ → Panics σ
  | 0, _, _ => .error .outOfFuel
  | fuel + 1, reader, state =>
    match decode reader none with
    | (.value (.arr items), reader, _) => do
      let state ← fn (items.map stringArg) state
      recoverFuel fn fuel reader state
    | (.value _, reader, _) => recoverFuel fn fuel reader state
    | (.error _, _, _) => .ok state
    | (.panic p, _, _) => .error p

/-- Every value takes at least a byte, so the length of the file bounds the loop. -/
def AOF.recover {σ : Type} (a : AOF) (fn : List Bytes → σ → Panics σ) (state : σ) : Panics σ :=
  recoverFuel fn (a.file.length + 1) a.file state

/-- The calls `Recover` makes, in order. -/
def AOF.calls (a : AOF) : Panics (List (List Bytes)) := a.recover (fun args calls => .ok (calls ++ [args])) []

end Rediska.Core
