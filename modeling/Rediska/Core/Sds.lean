import Rediska.Go.Basic

/-! Growable byte strings. -/

namespace Rediska.Core
open Go

def sdsMaxPreAlloc : Nat := 1024 * 1024

/-- A string and the capacity of the slice behind it. -/
structure SDS where
  buf : Bytes
  cap : Nat
  fits : buf.length ≤ cap
  deriving DecidableEq, Repr

def SDS.new (s : Bytes) : SDS := ⟨s, s.length, Nat.le_refl _⟩

/-- How the built-in `append` grows a slice of some capacity that must hold more. -/
structure Growth where
  grow : Nat → Nat → Nat
  enough : ∀ cap needed, needed ≤ grow cap needed

/-- The capacity `growTo` allocates. -/
def growTo (needed : Nat) : Nat :=
  if needed < sdsMaxPreAlloc then needed * 2 else needed + sdsMaxPreAlloc

/-- The capacity once `append` has made its own reservation. -/
def reserved (cap needed : Nat) : Nat := if sdsMaxPreAlloc < needed then growTo needed else cap

def SDS.appendString (growth : Growth) (s : SDS) (v : Bytes) : SDS :=
  let needed := s.buf.length + v.length
  let cap := reserved s.cap needed
  ⟨s.buf ++ v, if needed ≤ cap then cap else growth.grow cap needed, by
    have enough := growth.enough cap needed
    rw [List.length_append]
    split <;> omega⟩

/-- Whether an append moves the string to another array: `growTo` always makes one, the
built-in `append` if the capacity does not suffice. -/
def SDS.moves (s : SDS) (v : Bytes) : Bool :=
  let needed := s.buf.length + v.length
  decide (sdsMaxPreAlloc < needed) || decide (s.cap < needed)

end Rediska.Core
