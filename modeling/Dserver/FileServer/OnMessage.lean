import Dserver.Base.StreamContents
import Dserver.Lib.LittleEndian
import Dserver.Net.Buffer

/-!
# `onMessage` of the file server

Frames are an `int32_t` and as many bytes. A request to upload is followed by a second frame with the data of the file,
and the handler waits for it in a loop. Every loop takes fuel, so that one that does not end has no result for any.
-/

namespace Dserver.FileServer

open Net

/-- What a step can end in other than a result. `stack` is an access outside `buffer` or `len` of the reply to a
download, `fuel` a loop that goes on. -/
inductive Fault where
  | overflow
  | lengthError
  | outOfRange
  | overread
  | retrieve
  | stack
  | fuel
  deriving DecidableEq, Repr

/-- `file` is the file that a path names; `f` and `./f` are one. -/
structure Env where
  mayWrite : List Byte → Bool
  mayRead : List Byte → Bool
  file : List Byte → List Byte

/-- `sent` has one message for each call of `conn->send`. -/
structure State where
  passwordMap : List Byte → Option (List Byte)
  files : List Byte → Option (List Byte)
  sent : List (List Byte)

namespace State

/-- A file that an `ofstream` opens. -/
def truncate (s : State) (file : List Byte) : State := { s with files := Function.update s.files file (some []) }

/-- The stream writes from the front of the file; another one can have filled it by then. -/
def overwrite (s : State) (file data : List Byte) : State :=
  { s with files := Function.update s.files file (some (Lib.splice ((s.files file).getD []) 0 data)) }

def setPassword (s : State) (filename password : List Byte) : State :=
  { s with passwordMap := Function.update s.passwordMap filename (some password) }

def send (s : State) (messages : List (List Byte)) : State := { s with sent := s.sent ++ messages }

end State

/-- A file is opened by the `c_str()` of its name. -/
def path (filename : List Byte) : List Byte := filename.takeWhile (· ≠ 0)

def checked (n : Int) : Except Fault Int := if -2 ^ 31 ≤ n ∧ n < 2 ^ 31 then .ok n else .error .overflow

/-- `*reinterpret_cast<const int32_t*>`. -/
def readInt (bytes : List Byte) : Except Fault Int :=
  if 4 ≤ bytes.length then .ok (Lib.signed 4 bytes) else .error .overread

/-- `string(bytes, len)`. -/
def makeString (bytes : List Byte) (len : Int) : Except Fault (List Byte) :=
  if maxSize < toSize len then .error .lengthError
  else if toSize len ≤ bytes.length then .ok (bytes.take (toSize len))
  else .error .overread

def substr (text : List Byte) (pos n : Nat) : Except Fault (List Byte) :=
  if pos ≤ text.length then .ok ((text.drop pos).take n) else .error .outOfRange

/-- What `fout.write(bytes, len)` puts in the file; a negative count only sets `badbit`. -/
def write (bytes : List Byte) (len : Int) : Except Fault (List Byte) :=
  if len < 0 then .ok []
  else if len.toNat ≤ bytes.length then .ok (bytes.take len.toNat)
  else .error .overread

/-- `buf->retrieve(len + 4)`. -/
def retrieveFrame (b : Buffer) (len : Int) : Except Fault Buffer := do
  let n ← checked (len + 4)
  match b.retrieve (toSize n) with
  | .ok b => .ok b
  | .error _ => .error .retrieve

/-- `while (waiting) { std::cout << ..; }`. -/
def waitWhile (waiting : Bool) : Nat → Except Fault Unit
  | 0 => .error .fuel
  | fuel + 1 => if waiting then waitWhile waiting fuel else .ok ()

/-- The file name and the password behind a command of `k` letters. -/
def nameAndPassword (k : Nat) (message : List Byte) (len : Int) : Except Fault (List Byte × List Byte) := do
  let nameLen ← substr message k 4
  let lenp ← readInt (nameLen ++ [0])
  let filename ← substr message (k + 4) (toSize lenp)
  let pos ← checked ((k + 4 : Nat) + lenp)
  let rest ← checked (len - (k + 4 : Nat))
  let count ← checked (rest - lenp)
  let password ← substr message (toSize pos) (toSize count)
  .ok (filename, password)

/-- The second frame of an upload: its length, and what is written to the file. -/
def receive (fuel : Nat) (b : Buffer) : Except Fault (Int × List Byte) := do
  waitWhile (b.readableBytes < 4) fuel
  let len ← readInt b.readable
  let n ← checked (len + 4)
  waitWhile (b.readableBytes < toSize n) fuel
  let data ← write (b.readable.drop 4) len
  .ok (len, data)

/-- The file name and the password of an upload, up to the loops that wait for its data; `none` when the handler
returns. -/
def openUpload (env : Env) (message : List Byte) (len : Int) (s : State) (b : Buffer) :
    Except Fault (Option (List Byte × List Byte × State × Buffer)) := do
  let (filename, password) ← nameAndPassword 6 message len
  if env.mayWrite (path filename) then
    let s := s.truncate (env.file (path filename))
    let b ← retrieveFrame b len
    .ok (some (filename, password, s, b))
  else .ok none

/-- The other part of it, with the new `len`. -/
def finishUpload (env : Env) (fuel : Nat) (filename password : List Byte) (s : State) (b : Buffer) :
    Except Fault (Int × State × Buffer) := do
  let (len, data) ← receive fuel b
  let s := (s.overwrite (env.file (path filename)) data).setPassword filename password
  .ok (len, s.send [literal "Upload file finished"], b)

/-- `none` when the handler returns; else with the new `len`. -/
def upload (env : Env) (fuel : Nat) (message : List Byte) (len : Int) (s : State) (b : Buffer) :
    Except Fault (Option (Int × State × Buffer)) :=
  if message.take 6 = literal "UPLOAD" then do
    let opened ← openUpload env message len s b
    match opened with
    | none => .ok none
    | some (filename, password, s, b) =>
      let finished ← finishUpload env fuel filename password s b
      .ok (some finished)
  else .ok (some (len, s, b))

/-- `string(buffer)`. -/
def cString (buffer : List Byte) : Except Fault (List Byte) :=
  if 0 ∈ buffer then .ok (buffer.takeWhile (· ≠ 0)) else .error .stack

/-- The loop over `fin.read(buffer, sizeof(buffer))`, which overwrites the front of `buffer`; `unread` is what the stream
has left. -/
def sendChunks : Nat → List Byte → List Byte → Except Fault (List (List Byte))
  | 0, _, _ => .error .fuel
  | fuel + 1, buffer, unread =>
    let read := unread.take buffer.length
    let gcount := read.length
    if 0 < gcount then do
      let buffer := Lib.splice buffer 0 read
      -- `sprintf(len, "%ld", fin.gcount())` with `char len[4]`
      let len ← Lib.putAll .stack (List.replicate 4 0) 0 (LogStream.decimal gcount ++ [0])
      let text ← cString buffer
      let rest ← sendChunks fuel buffer (unread.drop buffer.length)
      .ok ((literal "1" ++ len ++ text) :: rest)
    else .ok []

/-- `none` when the handler returns. -/
def download (env : Env) (fuel : Nat) (message : List Byte) (len : Int) (s : State) : Except Fault (Option State) :=
  if message.take 8 = literal "DOWNLOAD" then do
    let (filename, password) ← nameAndPassword 8 message len
    if s.passwordMap filename = some password then
      match s.files (env.file (path filename)) with
      | some content =>
        if env.mayRead (path filename) then
          let chunks ← sendChunks fuel (List.replicate 1024 0) content
          .ok (some (s.send (chunks ++ [literal "0", literal "0", literal "0"])))
        else .ok none
      | none => .ok none
    else .ok (some (s.send [literal "0"]))
  else .ok (some s)

inductive Flow where
  | returned (s : State) (b : Buffer)
  | goesOn (s : State) (b : Buffer)

/-- From the test for a download to the end of the outer loop. -/
def answer (env : Env) (fuel : Nat) (message : List Byte) (len : Int) (s : State) (b : Buffer) : Except Fault Flow := do
  let downloaded ← download env fuel message len s
  match downloaded with
  | none => .ok (.returned s b)
  | some s =>
    let b ← retrieveFrame b len
    .ok (.goesOn s b)

def handle (env : Env) (fuel : Nat) (message : List Byte) (len : Int) (s : State) (b : Buffer) : Except Fault Flow := do
  let uploaded ← upload env fuel message len s b
  match uploaded with
  | none => .ok (.returned s b)
  | some (len, s, b) => answer env fuel message len s b

/-- The message of the frame at the front, and `len`; `none` when the handler returns. -/
def nextMessage (b : Buffer) : Except Fault (Option (List Byte × Int)) :=
  if b.readableBytes < 4 then .ok none
  else do
    let len ← readInt b.readable
    let n ← checked (len + 4)
    if b.readableBytes < toSize n then .ok none
    else
      let message ← makeString (b.readable.drop 4) len
      .ok (some (message, len))

def turn (env : Env) (fuel : Nat) (s : State) (b : Buffer) : Except Fault Flow := do
  let next ← nextMessage b
  match next with
  | none => .ok (.returned s b)
  | some (message, len) => handle env fuel message len s b

def onMessage (env : Env) : Nat → State → Buffer → Except Fault (State × Buffer)
  | 0, _, _ => .error .fuel
  | fuel + 1, s, b =>
    if 0 < b.readableBytes then do
      let flow ← turn env fuel s b
      match flow with
      | .returned s b => .ok (s, b)
      | .goesOn s b => onMessage env fuel s b
    else .ok (s, b)

end Dserver.FileServer
