import Dserver.Base.Timestamp
import Dserver.Lib.Machine
import Dserver.Lib.OrderedMap
import Dserver.Net.Buffer
import Mathlib.Data.List.DropRight

/-!
# `HttpRequest` and `HttpContext`

The request parser. Lines are handed over as the bytes between two pointers, and a pointer into a line
is its distance from the start.
-/

namespace Dserver.Net

/-- The bytes of a string literal. -/
def ascii (s : String) : List Byte := s.toList.map fun c => UInt8.ofNat c.toNat

/-- `isspace` in the C locale. -/
def isspace (c : Byte) : Bool := c == 32 || (9 ≤ c && c ≤ 13)

abbrev HeaderMap := Lib.OrderedMap (List Byte) (List Byte)

/-- `headers_[field] = value`. -/
def HeaderMap.set (m : HeaderMap) (field value : List Byte) : HeaderMap := Lib.OrderedMap.set m field value

theorem HeaderMap.find_set (m : HeaderMap) (field value other : List Byte) :
    (m.set field value).find other = if other = field then some value else m.find other :=
  Lib.OrderedMap.find_set m field value other

inductive Method where
  | kInvalid | kGet | kPost | kHead | kPut | kDelete
  deriving DecidableEq, Repr

inductive Version where
  | kUnknown | kHttp10 | kHttp11
  deriving DecidableEq, Repr

structure HttpRequest where
  method : Method := .kInvalid
  version : Version := .kUnknown
  path : List Byte := []
  query : List Byte := []
  receiveTime : Timestamp := 0
  headers : HeaderMap := .empty

inductive HttpRequestParseState where
  | kExpectRequestLine | kExpectHeaders | kExpectBody | kGotAll
  deriving DecidableEq, Repr

structure HttpContext where
  state : HttpRequestParseState := .kExpectRequestLine
  request : HttpRequest := {}

namespace HttpContext

/-- The assertion of `setMethod`, those of the buffer, and a loop that never ends. -/
inductive Fault where
  | setMethod
  | buffer (fault : Buffer.Fault)
  | spins
  deriving DecidableEq, Repr

end HttpContext

namespace HttpRequest

/-- The method of a request line, `kInvalid` when it is none of the five. -/
def methodOf (m : List Byte) : Method :=
  if m = ascii "GET" then .kGet
  else if m = ascii "POST" then .kPost
  else if m = ascii "HEAD" then .kHead
  else if m = ascii "PUT" then .kPut
  else if m = ascii "DELETE" then .kDelete
  else .kInvalid

def setMethod (r : HttpRequest) (m : List Byte) : Except HttpContext.Fault (Bool × HttpRequest) :=
  if r.method = .kInvalid then .ok (methodOf m != .kInvalid, { r with method := methodOf m })
  else .error .setMethod

def setVersion (r : HttpRequest) (version : Version) : HttpRequest := { r with version }

def setPath (r : HttpRequest) (path : List Byte) : HttpRequest := { r with path }

def setQuery (r : HttpRequest) (query : List Byte) : HttpRequest := { r with query }

def setReceiveTime (r : HttpRequest) (receiveTime : Timestamp) : HttpRequest := { r with receiveTime }

def addHeader (r : HttpRequest) (line : List Byte) (colon : Nat) : HttpRequest :=
  let field := line.take colon
  let value := ((line.drop (colon + 1)).dropWhile isspace).rdropWhile isspace
  { r with headers := r.headers.set field value }

def getHeader (r : HttpRequest) (field : List Byte) : List Byte := (r.headers.find field).getD []

/-- The part of `processRequestLine` behind the method; `rest` starts after its space. -/
def processTarget (r : HttpRequest) (rest : List Byte) : Bool × HttpRequest :=
  let space := rest.idxOf 32
  if space ≠ rest.length then
    let target := rest.take space
    let question := target.idxOf 63
    let r := if question ≠ space then (r.setPath (target.take question)).setQuery (target.drop question)
      else r.setPath target
    let version := rest.drop (space + 1)
    if version.length = 8 ∧ version.take 7 = ascii "HTTP/1." then
      if version.drop 7 = ascii "1" then (true, r.setVersion .kHttp11)
      else if version.drop 7 = ascii "0" then (true, r.setVersion .kHttp10)
      else (false, r)
    else (false, r)
  else (false, r)

end HttpRequest

namespace HttpContext

def processRequestLine (c : HttpContext) (line : List Byte) : Except Fault (Bool × HttpContext) :=
  let space := line.idxOf 32
  if space ≠ line.length then do
    let (known, request) ← c.request.setMethod (line.take space)
    if known then
      let (succeed, request) := request.processTarget (line.drop (space + 1))
      .ok (succeed, { c with request })
    else .ok (false, { c with request })
  else .ok (false, c)

def onBuffer {α : Type} : Except Buffer.Fault α → Except Fault α
  | .ok a => .ok a
  | .error fault => .error (.buffer fault)

theorem onBuffer_ok {α : Type} (a : α) : onBuffer (.ok a) = .ok a := rfl

/-- `ok` and `hasMore` after one turn of the loop of `parseRequest`. -/
structure Turn where
  ok : Bool
  hasMore : Bool
  context : HttpContext
  buffer : Buffer

/-- The bytes from `peek()` to the position `last`. -/
def line (b : Buffer) (last : Nat) : List Byte := b.readable.take (last - b.readerIndex)

def parseTurn (c : HttpContext) (b : Buffer) (receiveTime : Timestamp) : Except Fault Turn :=
  match c.state with
  | .kExpectRequestLine =>
    match b.findCRLF with
    | some crlf => do
      let (ok, c) ← c.processRequestLine (line b crlf)
      if ok then
        let c := { c with request := c.request.setReceiveTime receiveTime }
        let b ← onBuffer (b.retrieveUntil (crlf + 2))
        .ok ⟨true, true, { c with state := .kExpectHeaders }, b⟩
      else .ok ⟨false, false, c, b⟩
    | none => .ok ⟨true, false, c, b⟩
  | .kExpectHeaders =>
    match b.findCRLF with
    | some crlf => do
      let header := line b crlf
      let colon := header.idxOf 58
      let next := if colon ≠ header.length then (true, { c with request := c.request.addHeader header colon })
        else (false, { c with state := .kGotAll })
      let b ← onBuffer (b.retrieveUntil (crlf + 2))
      .ok ⟨true, next.1, next.2, b⟩
    | none => .ok ⟨true, false, c, b⟩
  -- nothing in the loop moves on from these
  | .kExpectBody | .kGotAll => .ok ⟨true, true, c, b⟩

def parseLoop (receiveTime : Timestamp) : Nat → HttpContext → Buffer → Except Fault (Bool × HttpContext × Buffer)
  | 0, _, _ => .error .spins
  | fuel + 1, c, b => do
    let turn ← c.parseTurn b receiveTime
    if turn.hasMore then parseLoop receiveTime fuel turn.context turn.buffer
    else .ok (turn.ok, turn.context, turn.buffer)

/-- Every turn that is followed by another takes a line off the buffer, so this fuel is enough unless
the loop spins. -/
def parseRequest (c : HttpContext) (b : Buffer) (receiveTime : Timestamp) :
    Except Fault (Bool × HttpContext × Buffer) :=
  parseLoop receiveTime (b.readableBytes + 1) c b

def gotAll (c : HttpContext) : Bool := c.state == .kGotAll

def reset (_ : HttpContext) : HttpContext := {}

end HttpContext

end Dserver.Net
