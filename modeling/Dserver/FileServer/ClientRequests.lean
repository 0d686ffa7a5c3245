import Dserver.FileServer.Turn

/-!
# Requests as a client writes them

The frames of an upload and of a download, and what the handler finds in them.
-/

namespace Dserver.FileServer

open Net

def frame (message : List Byte) : List Byte := Lib.lowBytes 4 message.length ++ message

def command (letters name password : List Byte) : List Byte :=
  letters ++ (Lib.lowBytes 4 name.length ++ (name ++ password))

def downloadRequest (name password : List Byte) : List Byte := frame (command (literal "DOWNLOAD") name password)

def uploadRequest (name password data : List Byte) : List Byte :=
  frame (command (literal "UPLOAD") name password) ++ frame data

/-! ### Frames as they are written -/

section Frame

variable {message rest : List Byte}

theorem frameLen_frame (small : message.length + 4 < 2 ^ 31) : frameLen (frame message ++ rest) = message.length := by
  rw [frameLen, frame, List.append_assoc, Lib.signed_lowBytes (by omega)]

theorem length_frame (message : List Byte) : (frame message).length = message.length + 4 := by
  rw [frame, List.length_append, Lib.length_lowBytes, Nat.add_comm]

theorem complete_frame (small : message.length + 4 < 2 ^ 31) : Complete (frame message ++ rest) := by
  rw [Complete, frameLen_frame small, List.length_append, length_frame]
  omega

theorem payload_frame (small : message.length + 4 < 2 ^ 31) : payload (frame message ++ rest) = message := by
  have four : (Lib.lowBytes 4 message.length).length = 4 := Lib.length_lowBytes _ _
  rw [payload, frameLen_frame small, Int.toNat_natCast, frame, List.append_assoc, List.drop_append_of_le_length (by omega),
    List.drop_of_length_le (by omega), List.nil_append, List.take_left]

theorem behind_frame (small : message.length + 4 < 2 ^ 31) : behind (frame message ++ rest) = rest := by
  have length := length_frame message
  rw [behind, frameLen_frame small, show ((message.length : Int) + 4).toNat = (frame message).length by omega,
    List.drop_left]

variable {k : Nat} {letters name secret : List Byte}

theorem nameLength_command (length : letters.length = k) (small : name.length < 2 ^ 31) :
    nameLength k (command letters name secret) = name.length := by
  rw [nameLength, command, ← length, List.drop_left, Lib.signed_lowBytes (by omega)]

theorem length_command (letters name secret : List Byte) :
    (command letters name secret).length = letters.length + 4 + name.length + secret.length := by
  rw [command, List.length_append, List.length_append, List.length_append, Lib.length_lowBytes]
  omega

theorem take_command (length : letters.length = k) : (command letters name secret).take k = letters := by
  rw [command, ← length, List.take_left]

theorem drop_command (length : letters.length = k) : (command letters name secret).drop (k + 4) = name ++ secret := by
  have four : (Lib.lowBytes 4 name.length).length = 4 := Lib.length_lowBytes _ _
  rw [command, ← length, ← List.drop_drop, List.drop_left, List.drop_append_of_le_length (by omega),
    List.drop_of_length_le (by omega), List.nil_append]

theorem header_command (length : letters.length = k) (small : name.length < 2 ^ 31) :
    Header k (command letters name secret) := by
  have whole := length_command letters name secret
  refine ⟨by omega, ?_, ?_⟩
  · rw [nameLength_command length small]
    omega
  · rw [nameLength_command length small]
    omega

theorem filename_command (length : letters.length = k) (small : name.length < 2 ^ 31) :
    filename k (command letters name secret) = name := by
  rw [filename, nameLength_command length small, if_neg (by omega), drop_command length, Int.toNat_natCast, List.take_left]

theorem password_command (length : letters.length = k) (small : name.length < 2 ^ 31) :
    password k (command letters name secret) = secret := by
  rw [password, nameLength_command length small,
    show (((k + 4 : Nat) : Int) + name.length).toNat = k + 4 + name.length by omega, ← List.drop_drop, drop_command length,
    List.drop_left]

end Frame

/-! ### The requests as points -/

section Requests

variable {env : Env} {s : State} {name secret content data rest : List Byte}

theorem isDownload_command (name secret : List Byte) : IsDownload (command (literal "DOWNLOAD") name secret) :=
  take_command rfl

theorem isUpload_command (name secret : List Byte) : IsUpload (command (literal "UPLOAD") name secret) := take_command rfl

theorem command_small (letters : List Byte) (few : letters.length ≤ 8) (fits : name.length + secret.length + 16 < 2 ^ 31) :
    (command letters name secret).length + 4 < 2 ^ 31 := by
  rw [length_command]
  omega

theorem download_request (s : State) (rest : List Byte) (fits : name.length + secret.length + 16 < 2 ^ 31) :
    Point.request ⟨s, downloadRequest name secret ++ rest⟩ = command (literal "DOWNLOAD") name secret :=
  payload_frame (command_small (literal "DOWNLOAD") (by decide) fits)

theorem download_sound (env : Env) (s : State) (rest : List Byte) (fits : name.length + secret.length + 16 < 2 ^ 31) :
    Point.Sound env ⟨s, downloadRequest name secret ++ rest⟩ := by
  have request := download_request s rest fits
  have other : ¬IsUpload (Point.request ⟨s, downloadRequest name secret ++ rest⟩) := by
    rw [request]
    exact not_upload_of_download (isDownload_command name secret)
  refine ⟨fun _ => .inr ?_, fun _ asked => absurd asked other, fun _ _ => ?_, fun opened => absurd opened.2.1 other⟩
  · have small := command_small (literal "DOWNLOAD") (by decide) fits
    dsimp only [downloadRequest]
    rw [frameLen_frame small]
    omega
  · rw [request]
    exact header_command rfl (by omega)

theorem download_opens (rest : List Byte) (fits : name.length + secret.length + 16 < 2 ^ 31)
    (known : s.passwordMap name = some secret) (readable : env.mayRead (path name) = true)
    (file : s.files (env.file (path name)) = some content) :
    Point.Downloads env ⟨s, downloadRequest name secret ++ rest⟩ content := by
  have found : filename 8 (command (literal "DOWNLOAD") name secret) = name := filename_command rfl (by omega)
  have secured : password 8 (command (literal "DOWNLOAD") name secret) = secret := password_command rfl (by omega)
  unfold Point.Downloads Point.Granted
  rw [download_request s rest fits, found, secured]
  exact ⟨complete_frame (command_small (literal "DOWNLOAD") (by decide) fits), isDownload_command name secret, known,
    readable, file⟩

theorem upload_bytes (name secret data rest : List Byte) :
    uploadRequest name secret data ++ rest = frame (command (literal "UPLOAD") name secret) ++ (frame data ++ rest) :=
  List.append_assoc _ _ _

theorem upload_request (s : State) (data rest : List Byte) (fits : name.length + secret.length + 16 < 2 ^ 31) :
    Point.request ⟨s, uploadRequest name secret data ++ rest⟩ = command (literal "UPLOAD") name secret := by
  rw [upload_bytes]
  exact payload_frame (command_small (literal "UPLOAD") (by decide) fits)

theorem upload_behind (data rest : List Byte) (fits : name.length + secret.length + 16 < 2 ^ 31) :
    behind (uploadRequest name secret data ++ rest) = frame data ++ rest := by
  rw [upload_bytes]
  exact behind_frame (command_small (literal "UPLOAD") (by decide) fits)

theorem upload_sound (env : Env) (s : State) (rest : List Byte) (fits : name.length + secret.length + 16 < 2 ^ 31)
    (dataFits : data.length + 4 < 2 ^ 31) : Point.Sound env ⟨s, uploadRequest name secret data ++ rest⟩ := by
  have request := upload_request s data rest fits
  refine ⟨fun _ => .inr ?_, fun _ _ => ?_, fun _ asked => ?_, fun _ _ => ?_⟩
  · have small := command_small (literal "UPLOAD") (by decide) fits
    dsimp only
    rw [upload_bytes, frameLen_frame small]
    omega
  · rw [request]
    exact header_command rfl (by omega)
  · rw [request] at asked
    exact absurd asked (not_download_of_upload (isUpload_command name secret))
  · dsimp only
    rw [upload_behind data rest fits, frameLen_frame dataFits]
    omega

theorem upload_opens (s : State) (data rest : List Byte) (fits : name.length + secret.length + 16 < 2 ^ 31)
    (writable : env.mayWrite (path name) = true) : Point.Uploads env ⟨s, uploadRequest name secret data ++ rest⟩ := by
  have found : filename 6 (command (literal "UPLOAD") name secret) = name := filename_command rfl (by omega)
  unfold Point.Uploads
  rw [upload_request s data rest fits, found, upload_bytes]
  exact ⟨complete_frame (command_small (literal "UPLOAD") (by decide) fits), isUpload_command name secret, writable⟩

end Requests

end Dserver.FileServer
