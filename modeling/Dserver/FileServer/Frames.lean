import Dserver.FileServer.Reply

/-!
# Frames and requests

The input as a list of bytes, without the buffer: the frame at its front, the request in it, and the point the handler
comes to when it has dealt with the request.
-/

namespace Dserver.FileServer

open Net

def frameLen (bytes : List Byte) : Int := Lib.signed 4 bytes

def Complete (bytes : List Byte) : Prop :=
  4 ≤ bytes.length ∧ 0 ≤ frameLen bytes + 4 ∧ frameLen bytes + 4 ≤ bytes.length

def payload (bytes : List Byte) : List Byte := (bytes.drop 4).take (frameLen bytes).toNat

def behind (bytes : List Byte) : List Byte := bytes.drop (frameLen bytes + 4).toNat

def IsUpload (message : List Byte) : Prop := message.take 6 = literal "UPLOAD"

def IsDownload (message : List Byte) : Prop := message.take 8 = literal "DOWNLOAD"

/-- The length of the file name behind a command of `k` letters. -/
def nameLength (k : Nat) (message : List Byte) : Int := Lib.signed 4 (message.drop k)

/-- The file name ends in the message, and not before its beginning. -/
structure Header (k : Nat) (message : List Byte) : Prop where
  long : k + 4 ≤ message.length
  first : 0 ≤ (k + 4 : Nat) + nameLength k message
  inside : (k + 4 : Nat) + nameLength k message ≤ message.length

/-- A negative length counts as a large one. -/
def filename (k : Nat) (message : List Byte) : List Byte :=
  if nameLength k message < 0 then message.drop (k + 4) else (message.drop (k + 4)).take (nameLength k message).toNat

def password (k : Nat) (message : List Byte) : List Byte := message.drop ((k + 4 : Nat) + nameLength k message).toNat

instance (bytes : List Byte) : Decidable (Complete bytes) := inferInstanceAs (Decidable (_ ∧ _ ∧ _))

instance (message : List Byte) : Decidable (IsUpload message) := inferInstanceAs (Decidable (_ = _))

instance (message : List Byte) : Decidable (IsDownload message) := inferInstanceAs (Decidable (_ = _))

theorem header_iff (k : Nat) (message : List Byte) :
    Header k message ↔ k + 4 ≤ message.length ∧ 0 ≤ (k + 4 : Nat) + nameLength k message ∧
      (k + 4 : Nat) + nameLength k message ≤ message.length :=
  ⟨fun ⟨long, first, inside⟩ => ⟨long, first, inside⟩, fun ⟨long, first, inside⟩ => ⟨long, first, inside⟩⟩

instance (k : Nat) (message : List Byte) : Decidable (Header k message) := decidable_of_iff _ (header_iff k message).symm

def State.store (s : State) (file data : List Byte) : State :=
  { s with files := Function.update s.files file (some data) }

/-- The state and the bytes that are left, at the head of the outer loop. -/
structure Point where
  state : State
  bytes : List Byte

namespace Point

variable (env : Env) (p : Point)

def request : List Byte := payload p.bytes

def Uploads : Prop :=
  Complete p.bytes ∧ IsUpload p.request ∧ env.mayWrite (path (filename 6 p.request)) = true

def Granted : Prop := p.state.passwordMap (filename 8 p.request) = some (password 8 p.request)

def Downloads (content : List Byte) : Prop :=
  Complete p.bytes ∧ IsDownload p.request ∧ p.Granted ∧ env.mayRead (path (filename 8 p.request)) = true ∧
    p.state.files (env.file (path (filename 8 p.request))) = some content

/-- No length is one that the arithmetic, `std::string` or `substr` cannot take. -/
structure Sound : Prop where
  length : 4 ≤ p.bytes.length → frameLen p.bytes < -4 ∨ 0 ≤ frameLen p.bytes ∧ frameLen p.bytes + 4 < 2 ^ 31
  upload : Complete p.bytes → IsUpload p.request → Header 6 p.request
  download : Complete p.bytes → IsDownload p.request → Header 8 p.request
  data : p.Uploads env → 4 ≤ (behind p.bytes).length → frameLen (behind p.bytes) + 4 < 2 ^ 31

def Ready : Prop := p.Uploads env → Complete (behind p.bytes)

/-- A file that is sent fits `len`. -/
def Small : Prop := ∀ content, p.Downloads env content → content.length < 1000

def Stops : Prop :=
  ¬Complete p.bytes ∨
  (IsUpload p.request ∧ env.mayWrite (path (filename 6 p.request)) = false) ∨
  (IsDownload p.request ∧ p.Granted ∧ ∀ content, ¬p.Downloads env content)

/-- The state with `data` in the file of an upload. -/
def stored (data : List Byte) : State :=
  ((p.state.store (env.file (path (filename 6 p.request))) data).setPassword (filename 6 p.request)
    (password 6 p.request)).send [literal "Upload file finished"]

def uploaded : Point := ⟨p.stored env (payload (behind p.bytes)), behind (behind p.bytes)⟩

def answered (messages : List (List Byte)) : Point := ⟨p.state.send messages, behind p.bytes⟩

instance : Decidable p.Granted := inferInstanceAs (Decidable (_ = _))

instance (content : List Byte) : Decidable (p.Downloads env content) := inferInstanceAs (Decidable (_ ∧ _ ∧ _ ∧ _ ∧ _))

instance : Decidable (p.Uploads env) := inferInstanceAs (Decidable (_ ∧ _ ∧ _))

theorem sound_iff :
    p.Sound env ↔
      (4 ≤ p.bytes.length → frameLen p.bytes < -4 ∨ 0 ≤ frameLen p.bytes ∧ frameLen p.bytes + 4 < 2 ^ 31) ∧
      (Complete p.bytes → IsUpload p.request → Header 6 p.request) ∧
      (Complete p.bytes → IsDownload p.request → Header 8 p.request) ∧
      (p.Uploads env → 4 ≤ (behind p.bytes).length → frameLen (behind p.bytes) + 4 < 2 ^ 31) :=
  ⟨fun ⟨length, upload, download, data⟩ => ⟨length, upload, download, data⟩,
    fun ⟨length, upload, download, data⟩ => ⟨length, upload, download, data⟩⟩

instance : Decidable (p.Sound env) := decidable_of_iff _ (sound_iff env p).symm

instance : Decidable (p.Ready env) := inferInstanceAs (Decidable (_ → _))

end Point

inductive Next (env : Env) (p : Point) : Point → Prop where
  | upload (sound : p.Sound env) (opened : p.Uploads env) (ready : Complete (behind p.bytes)) :
      Next env p (p.uploaded env)
  | refuse (sound : p.Sound env) (complete : Complete p.bytes) (asked : IsDownload p.request) (denied : ¬p.Granted) :
      Next env p (p.answered [literal "0"])
  | download {content : List Byte} (sound : p.Sound env) (opened : p.Downloads env content)
      (small : content.length < 1000) : Next env p (p.answered (replies content))
  | other (sound : p.Sound env) (complete : Complete p.bytes) (notUpload : ¬IsUpload p.request)
      (notDownload : ¬IsDownload p.request) : Next env p ⟨p.state, behind p.bytes⟩

/-- The points of a call that finds `bytes` in the buffer. -/
def Reached (env : Env) (s : State) (bytes : List Byte) : Point → Prop :=
  Relation.ReflTransGen (Next env) ⟨s, bytes⟩

end Dserver.FileServer
