import Dserver.Base.AsyncLogging
import Dserver.Lib.Numerals

/-!
# `LogStream`

`FixedBuffer` here is its array and `cur_`. Text is copied when there is room for it; a number is written in place by
`convert`, which knows its length only at the end. A write outside `data_` is a fault, as is a read outside a table.
-/

namespace Dserver

def kSmallBuffer : Nat := 4000

def literal (text : String) : List UInt8 := text.toList.map fun c => UInt8.ofNat c.toNat

/-- A conversion to `size_t`. -/
def toSize (n : Int) : Nat := (n % 2 ^ 64).toNat

/-- A conversion of a `size_t` to `int`. -/
def toInt (n : Nat) : Int := Int.bmod n (2 ^ 32)

/-- `data_` with all its cells, and `cur_ - data_`. -/
structure RawBuffer (SIZE : Nat) where
  data : List UInt8
  cur : Nat := 0
  deriving DecidableEq

namespace LogStream

/-- A write outside `data_`, a copy from behind the end of a string, and an index outside a table of digits. -/
inductive Fault where
  | outside
  | overread
  | table
  deriving DecidableEq, Repr

end LogStream

namespace RawBuffer

variable {SIZE : Nat}

def length (b : RawBuffer SIZE) : Nat := b.cur

def avail (b : RawBuffer SIZE) : Int := SIZE - b.cur

def contents (b : RawBuffer SIZE) : List UInt8 := b.data.take b.cur

def append (b : RawBuffer SIZE) (buf : List UInt8) (len : Int) : Except LogStream.Fault (RawBuffer SIZE) :=
  if toSize len < toSize b.avail then
    if toSize len ≤ buf.length then do
      let data ← Lib.putAll .outside b.data b.cur (buf.take (toSize len))
      .ok { data, cur := b.cur + toSize len }
    else .error .overread
  else .ok b

end RawBuffer

namespace LogStream

/-- `zero[lsd]`, where `zero` points to the middle of the table. -/
def zero (lsd : Int) : Except Fault UInt8 :=
  if -9 ≤ lsd then
    match (literal "9876543210123456789")[(lsd + 9).toNat]? with
    | some c => .ok c
    | none => .error .table
  else .error .table

def digitsHex (lsd : Int) : Except Fault UInt8 :=
  if 0 ≤ lsd then
    match (literal "0123456789ABCDEF")[lsd.toNat]? with
    | some c => .ok c
    | none => .error .table
  else .error .table

/-- The value of any integer type; `buf` is an index of `data`. -/
def convert (data : List UInt8) (buf : Nat) (value : Int) : Except Fault (List UInt8 × Nat) := do
  let (data, p) ← Lib.writeDigits .outside 10 zero (value.natAbs + 1) data buf value
  let (data, p) ←
    if value < 0 then do
      let data ← Lib.put .outside data p 45
      .ok (data, p + 1)
    else .ok (data, p)
  let data ← Lib.put .outside data p 0
  .ok (Lib.reverseCells data buf p, p - buf)

def convertHex (data : List UInt8) (buf : Nat) (value : Nat) : Except Fault (List UInt8 × Nat) := do
  let (data, p) ← Lib.writeDigits .outside 16 digitsHex (value + 1) data buf value
  let data ← Lib.put .outside data p 0
  .ok (Lib.reverseCells data buf p, p - buf)

def kMaxNumericSize : Int := 32

/-- The types that `operator<<` formats as integers. -/
inductive IntType where
  | short | unsignedShort | int | unsignedInt | long | unsignedLong | longLong | unsignedLongLong
  deriving DecidableEq, Repr

def IntType.least : IntType → Int
  | short => -2 ^ 15
  | int => -2 ^ 31
  | long | longLong => -2 ^ 63
  | unsignedShort | unsignedInt | unsignedLong | unsignedLongLong => 0

def IntType.greatest : IntType → Int
  | short => 2 ^ 15 - 1
  | unsignedShort => 2 ^ 16 - 1
  | int => 2 ^ 31 - 1
  | unsignedInt => 2 ^ 32 - 1
  | long | longLong => 2 ^ 63 - 1
  | unsignedLong | unsignedLongLong => 2 ^ 64 - 1

structure Integer where
  type : IntType
  value : Int
  least_le : type.least ≤ value
  le_greatest : value ≤ type.greatest

/-- The characters before the terminator. -/
structure CString where
  chars : List UInt8
  terminated : 0 ∉ chars

/-- What `snprintf` makes of a `double` with `%.12g`: a sign, 12 digits, a point and an exponent. -/
structure DoubleText where
  chars : List UInt8
  short : chars.length ≤ 19

/-- The argument of `operator<<`; `none` is a null pointer. -/
inductive Insertion where
  | bool (v : Bool)
  | char (v : UInt8)
  | cstring (str : Option CString)
  | string (v : List UInt8)
  | integer (v : Integer)
  | pointer (p : UInt64)
  | double (v : DoubleText)

end LogStream

/-- A `LogStream` is its `buffer_`. -/
abbrev LogStream := RawBuffer kSmallBuffer

namespace LogStream

/-- A new stream, whose cells are not initialised. -/
def new (data : List UInt8) : LogStream := { data }

def formatInteger (s : LogStream) (v : Int) : Except Fault LogStream :=
  if kMaxNumericSize ≤ s.avail then do
    let (data, len) ← convert s.data s.cur v
    .ok { data, cur := s.cur + len }
  else .ok s

def formatPointer (s : LogStream) (v : Nat) : Except Fault LogStream :=
  if kMaxNumericSize ≤ s.avail then do
    let buf := s.cur
    let data ← Lib.put .outside s.data buf 48
    let data ← Lib.put .outside data (buf + 1) 120
    let (data, len) ← convertHex data (buf + 2) v
    .ok { data, cur := s.cur + (len + 2) }
  else .ok s

def formatDouble (s : LogStream) (v : DoubleText) : Except Fault LogStream :=
  if kMaxNumericSize ≤ s.avail then do
    let data ← Lib.putAll .outside s.data s.cur (v.chars ++ [0])
    .ok { data, cur := s.cur + v.chars.length }
  else .ok s

def insert (s : LogStream) : Insertion → Except Fault LogStream
  | .bool v => s.append (literal (if v then "1" else "0")) 1
  | .char v => s.append [v] 1
  | .cstring (some str) => s.append str.chars (toInt str.chars.length)
  | .cstring none => s.append (literal "(null)") 6
  | .string v => s.append v (toInt v.length)
  | .integer v => s.formatInteger v.value
  | .pointer p => s.formatPointer p.toNat
  | .double v => s.formatDouble v

def insertAll (s : LogStream) (insertions : List Insertion) : Except Fault LogStream := insertions.foldlM insert s

end LogStream

end Dserver
