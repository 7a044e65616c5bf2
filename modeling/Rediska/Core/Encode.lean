import Rediska.Go.Strconv

/-! The encoders of package core. Each returns the complete bytes of one RESP value. -/

namespace Rediska.Core
open Go

def plus : UInt8 := 43
def minus : UInt8 := 45
def colon : UInt8 := 58
def dollar : UInt8 := 36
def asterisk : UInt8 := 42

def encodeBulkString (s : Bytes) : Bytes :=
  [dollar] ++ itoa s.length ++ crlf ++ s ++ crlf

def encodeArray (args : List Bytes) : Bytes :=
  [asterisk] ++ itoa args.length ++ crlf ++ args.flatMap encodeBulkString

def encodeSimpleString (s : Bytes) : Bytes := [plus] ++ s ++ crlf

def encodeError (s : Bytes) : Bytes := [minus] ++ s ++ crlf

def encodeRawArray (items : List Bytes) : Bytes :=
  [asterisk] ++ itoa items.length ++ crlf ++ items.flatten

def encodeNullBulkString : Bytes := ascii "$-1" ++ crlf

def encodeInteger (n : Int) : Bytes := [colon] ++ itoa n ++ crlf

theorem encodeInteger_injective {m n : Int} (same : encodeInteger m = encodeInteger n) : m = n :=
  itoa_injective (List.append_cancel_left (List.append_cancel_right same))

/-- `DecodeInteger` reads back a reply the server itself produced. -/
def decodeInteger (b : Bytes) : Option Int :=
  let s := if b.head? = some colon then b.tail else b
  let s := if crlf <:+ s then s.take (s.length - 2) else s
  parseInt s

end Rediska.Core
