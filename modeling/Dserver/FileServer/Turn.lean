import Dserver.FileServer.Frames

/-!
# One turn of the outer loop

What `turn` does at each kind of point, for any buffer that holds its bytes.
-/

namespace Dserver.FileServer

open Net

/-! ### Lengths -/

theorem toSize_eq {n : Int} (nonneg : 0 ≤ n) (small : n < 2 ^ 31) : toSize n = n.toNat := by
  rw [toSize, Int.emod_eq_of_lt nonneg (by omega)]

theorem toSize_large {n : Int} (negative : n < 0) (bounded : -2 ^ 31 ≤ n) : 2 ^ 63 < toSize n := by
  rw [toSize]
  omega

theorem checked_eq {n : Int} (low : -2 ^ 31 ≤ n) (high : n < 2 ^ 31) : checked n = .ok n := if_pos ⟨low, high⟩

theorem checked_ok {n m : Int} (h : checked n = .ok m) : m = n ∧ -2 ^ 31 ≤ n ∧ n < 2 ^ 31 := by
  unfold checked at h
  split at h
  · rename_i inside
    exact ⟨(Except.ok.inj h).symm, inside⟩
  · cases h

theorem substr_eq {text : List Byte} {pos n : Nat} (inside : pos ≤ text.length) :
    substr text pos n = .ok ((text.drop pos).take n) := if_pos inside

theorem substr_ok {text part : List Byte} {pos n : Nat} (h : substr text pos n = .ok part) :
    pos ≤ text.length ∧ part = (text.drop pos).take n := by
  unfold substr at h
  split at h
  · rename_i inside
    exact ⟨inside, (Except.ok.inj h).symm⟩
  · cases h

theorem signed_bounds (bytes : List Byte) : -2 ^ 31 ≤ Lib.signed 4 bytes ∧ Lib.signed 4 bytes < 2 ^ 31 := by
  have low := Int.le_bmod (x := Lib.littleEndian (bytes.take 4)) (m := 256 ^ 4) (by decide)
  have high := Int.bmod_lt (x := Lib.littleEndian (bytes.take 4)) (m := 256 ^ 4) (by decide)
  rw [Lib.signed]
  constructor
  · omega
  · omega

theorem readInt_name {k : Nat} {message : List Byte} (long : k + 4 ≤ message.length) :
    readInt ((message.drop k).take 4 ++ [0]) = .ok (nameLength k message) := by
  have four : ((message.drop k).take 4).length = 4 := List.length_take_of_le (by rw [List.length_drop]; omega)
  rw [readInt, if_pos (by rw [List.length_append, four]; omega), Lib.signed_append (by omega),
    Lib.signed_take (Nat.le_refl _), nameLength]

theorem nameAndPassword_eq {k : Nat} {message : List Byte} (header : Header k message)
    (small : message.length < 2 ^ 31) :
    nameAndPassword k message message.length = .ok (filename k message, password k message) := by
  obtain ⟨long, first, inside⟩ := header
  obtain ⟨low, high⟩ : -2 ^ 31 ≤ nameLength k message ∧ nameLength k message < 2 ^ 31 := signed_bounds _
  have name : (message.drop (k + 4)).take (toSize (nameLength k message)) = filename k message := by
    unfold filename
    split
    · rename_i negative
      have large := toSize_large negative low
      exact List.take_of_length_le (by rw [List.length_drop]; omega)
    · rename_i nonneg
      rw [toSize_eq (by omega) high]
  have pass : (message.drop (toSize ((k + 4 : Nat) + nameLength k message))).take
      (toSize (message.length - (k + 4 : Nat) - nameLength k message)) = password k message := by
    rw [toSize_eq first (by omega), toSize_eq (by omega) (by omega), password]
    exact List.take_of_length_le (by rw [List.length_drop]; omega)
  rw [nameAndPassword, substr_eq (by omega), Lib.ok_bind, readInt_name long, Lib.ok_bind, substr_eq long, Lib.ok_bind,
    checked_eq (by omega) (by omega), Lib.ok_bind, checked_eq (by omega) (by omega), Lib.ok_bind,
    checked_eq (by omega) (by omega), Lib.ok_bind, substr_eq (by rw [toSize_eq first (by omega)]; omega), Lib.ok_bind,
    name, pass]

theorem nameAndPassword_ok {k : Nat} {message : List Byte} {len : Int} {r : List Byte × List Byte}
    (small : message.length < 2 ^ 31) (h : nameAndPassword k message len = .ok r) : Header k message := by
  unfold nameAndPassword at h
  obtain ⟨nameLen, copied, h⟩ := Lib.bind_ok h
  obtain ⟨-, rfl⟩ := substr_ok copied
  obtain ⟨lenp, read, h⟩ := Lib.bind_ok h
  obtain ⟨name, cut, h⟩ := Lib.bind_ok h
  obtain ⟨long, -⟩ := substr_ok cut
  rw [readInt_name long] at read
  obtain rfl := Except.ok.inj read
  obtain ⟨pos, summed, h⟩ := Lib.bind_ok h
  obtain ⟨same, low, high⟩ := checked_ok summed
  obtain ⟨rest, _, h⟩ := Lib.bind_ok h
  obtain ⟨count, _, h⟩ := Lib.bind_ok h
  obtain ⟨pass, cut, _⟩ := Lib.bind_ok h
  obtain ⟨inside, -⟩ := substr_ok cut
  have first : 0 ≤ (k + 4 : Nat) + nameLength k message := by
    by_contra negative
    have large := toSize_large (by omega) low
    rw [same] at inside
    omega
  rw [same, toSize_eq first high] at inside
  exact ⟨long, first, by omega⟩

/-- The faults that a request can cause by its lengths. -/
def Fault.crash : Fault → Bool
  | .stack => false
  | .fuel => false
  | _ => true

def Crashes {α : Type} (x : Except Fault α) : Prop := ∀ fault, x = .error fault → fault.crash = true

theorem Crashes.bind {α β : Type} {x : Except Fault α} {f : α → Except Fault β} (first : Crashes x)
    (next : ∀ a, Crashes (f a)) : Crashes (x >>= f) := by
  intro fault h
  rcases Lib.bind_error h with failed | ⟨a, -, failed⟩
  · exact first fault failed
  · exact next a fault failed

theorem crashes_ok {α : Type} (a : α) : Crashes (.ok a : Except Fault α) := by
  intro fault h
  cases h

theorem crashes_checked (n : Int) : Crashes (checked n) := by
  intro fault h
  unfold checked at h
  split at h <;> cases h
  rfl

theorem crashes_substr (text : List Byte) (pos n : Nat) : Crashes (substr text pos n) := by
  intro fault h
  unfold substr at h
  split at h <;> cases h
  rfl

theorem crashes_readInt (bytes : List Byte) : Crashes (readInt bytes) := by
  intro fault h
  unfold readInt at h
  split at h <;> cases h
  rfl

theorem nameAndPassword_fails {k : Nat} {message : List Byte} (len : Int) (small : message.length < 2 ^ 31)
    (bad : ¬Header k message) : ∃ fault : Fault, fault.crash = true ∧ nameAndPassword k message len = .error fault := by
  have crashes : Crashes (nameAndPassword k message len) := by
    refine (crashes_substr _ _ _).bind fun _ => (crashes_readInt _).bind fun _ => (crashes_substr _ _ _).bind fun _ => ?_
    refine (crashes_checked _).bind fun _ => (crashes_checked _).bind fun _ => (crashes_checked _).bind fun _ => ?_
    exact (crashes_substr _ _ _).bind fun _ => crashes_ok _
  cases ran : nameAndPassword k message len with
  | ok r => exact absurd (nameAndPassword_ok small ran) bad
  | error fault => exact ⟨fault, crashes fault ran, rfl⟩

/-! ### The data of an upload -/

theorem waitWhile_false : Lib.Settles .fuel (waitWhile false) (.ok ()) :=
  .spend rfl (.const _)

theorem waitWhile_true (fuel : Nat) : waitWhile true fuel = .error .fuel := by
  induction fuel with
  | zero => rfl
  | succ fuel ih => exact ih

theorem readInt_eq {bytes : List Byte} (four : 4 ≤ bytes.length) : readInt bytes = .ok (frameLen bytes) := if_pos four

variable {b : Buffer}

/-- The comparison of `readableBytes()` with a length that may be negative. -/
theorem lacks_iff (wf : b.Wf) {n : Int} (low : -2 ^ 31 ≤ n) (high : n < 2 ^ 31) :
    b.readableBytes < toSize n ↔ n < 0 ∨ (b.readable.length : Int) < n := by
  have fits := wf.readable_fits
  rw [wf.length_readable, maxSize] at fits
  rw [wf.length_readable]
  by_cases negative : n < 0
  · have large := toSize_large negative low
    omega
  · rw [toSize_eq (by omega) high]
    omega

theorem write_eq {bytes : List Byte} (complete : Complete bytes) :
    write (bytes.drop 4) (frameLen bytes) = .ok (payload bytes) := by
  obtain ⟨four, _, inside⟩ := complete
  unfold write payload
  split
  · rename_i negative
    rw [Int.toNat_of_nonpos (by omega), List.take_zero]
  · rw [if_pos (by rw [List.length_drop]; omega)]

theorem receive_ready (wf : b.Wf) (complete : Complete b.readable) (small : frameLen b.readable + 4 < 2 ^ 31) :
    Lib.Settles .fuel (fun fuel => receive fuel b) (.ok (frameLen b.readable, payload b.readable)) := by
  obtain ⟨four, nonneg, inside⟩ := complete
  have first : decide (b.readableBytes < 4) = false := by
    rw [← wf.length_readable]
    exact decide_eq_false (by omega)
  have second : decide (b.readableBytes < toSize (frameLen b.readable + 4)) = false := by
    rw [decide_eq_false_iff_not, lacks_iff wf (by omega) small]
    omega
  unfold receive
  simp -implicitDefEqProofs only [first, readInt_eq four,
    checked_eq (show -2 ^ 31 ≤ frameLen b.readable + 4 by omega) small, Lib.ok_bind, second, write_eq ⟨four, nonneg, inside⟩]
  exact .bind waitWhile_false (.bind waitWhile_false (.const _))

theorem receive_waits (wf : b.Wf) (incomplete : ¬Complete b.readable)
    (small : 4 ≤ b.readable.length → frameLen b.readable + 4 < 2 ^ 31) :
    Lib.Settles .fuel (fun fuel => receive fuel b) (.error .fuel) := by
  by_cases four : 4 ≤ b.readable.length
  · have low : -2 ^ 31 ≤ frameLen b.readable := (signed_bounds _).1
    have first : decide (b.readableBytes < 4) = false := by
      rw [← wf.length_readable]
      exact decide_eq_false (by omega)
    have second : decide (b.readableBytes < toSize (frameLen b.readable + 4)) = true := by
      rw [decide_eq_true_iff, lacks_iff wf (by omega) (small four)]
      unfold Complete at incomplete
      omega
    unfold receive
    simp -implicitDefEqProofs only [first, readInt_eq four,
      checked_eq (show -2 ^ 31 ≤ frameLen b.readable + 4 by omega) (small four), Lib.ok_bind, second, waitWhile_true]
    exact .bind waitWhile_false (.const _)
  · have first : decide (b.readableBytes < 4) = true := by
      rw [← wf.length_readable]
      exact decide_eq_true (by omega)
    unfold receive
    simp -implicitDefEqProofs only [first, waitWhile_true]
    exact .const _

theorem receive_overflow (wf : b.Wf) (four : 4 ≤ b.readable.length) (large : 2 ^ 31 ≤ frameLen b.readable + 4) :
    Lib.Settles .fuel (fun fuel => receive fuel b) (.error .overflow) := by
  have first : decide (b.readableBytes < 4) = false := by
    rw [← wf.length_readable]
    exact decide_eq_false (by omega)
  have exceeds : checked (frameLen b.readable + 4) = .error .overflow := if_neg (by omega)
  unfold receive
  simp -implicitDefEqProofs only [first, readInt_eq four, exceeds, Lib.ok_bind]
  exact .bind waitWhile_false (.const _)

/-! ### The frame at the front -/

structure Holds (b : Buffer) (bytes : List Byte) : Prop where
  wf : b.Wf
  readable : b.readable = bytes

theorem Holds.readableBytes {bytes : List Byte} (holds : Holds b bytes) : b.readableBytes = bytes.length := by
  rw [← holds.readable, holds.wf.length_readable]

theorem Holds.lacks_iff {bytes : List Byte} (holds : Holds b bytes) {n : Int} (low : -2 ^ 31 ≤ n) (high : n < 2 ^ 31) :
    b.readableBytes < toSize n ↔ n < 0 ∨ (bytes.length : Int) < n := by
  rw [← holds.readable]
  exact FileServer.lacks_iff holds.wf low high

theorem Holds.retrieveFrame {bytes : List Byte} (holds : Holds b bytes) (complete : Complete bytes)
    (small : frameLen bytes + 4 < 2 ^ 31) :
    ∃ b', retrieveFrame b (frameLen bytes) = .ok b' ∧ Holds b' (behind bytes) := by
  obtain ⟨wf, rfl⟩ := holds
  obtain ⟨_, nonneg, inside⟩ := complete
  have fits : (frameLen b.readable + 4).toNat ≤ b.readable.length := by omega
  obtain ⟨b', ran, wf', rest⟩ := Buffer.retrieve_spec wf fits
  refine ⟨b', ?_, wf', rest⟩
  rw [FileServer.retrieveFrame, checked_eq (by omega) small, Lib.ok_bind, toSize_eq nonneg small, ran]

theorem length_payload {bytes : List Byte} (complete : Complete bytes) (nonneg : 0 ≤ frameLen bytes) :
    ((payload bytes).length : Int) = frameLen bytes := by
  obtain ⟨_, _, inside⟩ := complete
  rw [payload, List.length_take_of_le (by rw [List.length_drop]; omega)]
  omega

theorem makeString_eq {bytes : List Byte} (complete : Complete bytes) (nonneg : 0 ≤ frameLen bytes) :
    makeString (bytes.drop 4) (frameLen bytes) = .ok (payload bytes) := by
  obtain ⟨_, _, inside⟩ := complete
  have high : frameLen bytes < 2 ^ 31 := (signed_bounds _).2
  rw [makeString, toSize_eq nonneg high, if_neg (by rw [maxSize]; omega), if_pos (by rw [List.length_drop]; omega),
    payload]

theorem not_download_of_upload {message : List Byte} (asked : IsUpload message) : ¬IsDownload message := by
  intro other
  have letters : (message.take 8).take 6 = literal "UPLOAD" := by
    rw [List.take_take]
    exact asked
  rw [other] at letters
  exact absurd letters (by decide)

theorem not_upload_of_download {message : List Byte} (asked : IsDownload message) : ¬IsUpload message :=
  fun other => not_download_of_upload other asked

variable {env : Env} {p : Point}

theorem turn_short {s : State} (short : b.readableBytes < 4) (fuel : Nat) :
    turn env fuel s b = .ok (.returned s b) := by
  rw [turn, nextMessage, if_pos short, Lib.ok_bind]

theorem nextMessage_incomplete (holds : Holds b p.bytes) (sound : p.Sound env) (incomplete : ¬Complete p.bytes) :
    nextMessage b = .ok none := by
  unfold nextMessage
  by_cases four : 4 ≤ p.bytes.length
  · have low : -2 ^ 31 ≤ frameLen p.bytes := (signed_bounds _).1
    have length := sound.length four
    have lacks : b.readableBytes < toSize (frameLen p.bytes + 4) := by
      rw [holds.lacks_iff (by omega) (by omega)]
      unfold Complete at incomplete
      omega
    rw [if_neg (by rw [holds.readableBytes]; omega), holds.readable, readInt_eq four, Lib.ok_bind,
      checked_eq (by omega) (by omega), Lib.ok_bind, if_pos lacks]
  · rw [if_pos (by rw [holds.readableBytes]; omega)]

theorem turn_incomplete (holds : Holds b p.bytes) (sound : p.Sound env) (incomplete : ¬Complete p.bytes) (fuel : Nat) :
    turn env fuel p.state b = .ok (.returned p.state b) := by
  rw [turn, nextMessage_incomplete holds sound incomplete, Lib.ok_bind]

theorem turn_complete (holds : Holds b p.bytes) (complete : Complete p.bytes) (nonneg : 0 ≤ frameLen p.bytes)
    (small : frameLen p.bytes + 4 < 2 ^ 31) (fuel : Nat) :
    turn env fuel p.state b = handle env fuel p.request p.request.length p.state b := by
  have there : ¬b.readableBytes < toSize (frameLen p.bytes + 4) := by
    rw [holds.lacks_iff (by omega) small]
    unfold Complete at complete
    omega
  have message : nextMessage b = .ok (some (p.request, frameLen p.bytes)) := by
    rw [nextMessage, if_neg (by rw [holds.readableBytes]; exact Nat.not_lt.mpr complete.1), holds.readable,
      readInt_eq complete.1, Lib.ok_bind, checked_eq (by omega) small, Lib.ok_bind, if_neg there,
      makeString_eq complete nonneg, Lib.ok_bind, Point.request]
  rw [turn, message, Lib.ok_bind, Point.request, length_payload complete nonneg]

/-! ### Requests -/

theorem State.overwrite_truncate (s : State) (file data : List Byte) :
    (s.truncate file).overwrite file data = s.store file data := by
  simp only [State.overwrite, State.truncate, State.store, Function.update_self, Function.update_idem, Lib.splice,
    Option.getD_some, List.take_nil, List.drop_nil, List.nil_append, List.append_nil]

theorem download_other {message : List Byte} {len : Int} {s : State} (other : ¬IsDownload message) (fuel : Nat) :
    download env fuel message len s = .ok (some s) := if_neg other

theorem upload_other {message : List Byte} {len : Int} {s : State} (other : ¬IsUpload message) (fuel : Nat) :
    upload env fuel message len s b = .ok (some (len, s, b)) := if_neg other

theorem upload_named {message : List Byte} {s : State} (asked : IsUpload message) (header : Header 6 message)
    (small : message.length < 2 ^ 31) (fuel : Nat) :
    upload env fuel message message.length s b =
      if env.mayWrite (path (filename 6 message)) then do
        let b ← retrieveFrame b message.length
        let received ← receive fuel b
        let s := (s.store (env.file (path (filename 6 message))) received.2).setPassword (filename 6 message)
          (password 6 message)
        .ok (some (received.1, s.send [literal "Upload file finished"], b))
      else .ok none := by
  rw [upload, if_pos (show message.take 6 = literal "UPLOAD" from asked), openUpload, nameAndPassword_eq header small,
    Lib.ok_bind]
  dsimp only
  split
  · cases retrieveFrame b message.length with
    | error fault => rfl
    | ok b =>
      simp only [Lib.ok_bind, finishUpload, State.overwrite_truncate]
      cases receive fuel b with
      | error fault => rfl
      | ok received => rfl
  · rfl

theorem download_named {message : List Byte} {s : State} (asked : IsDownload message) (header : Header 8 message)
    (small : message.length < 2 ^ 31) (fuel : Nat) :
    download env fuel message message.length s =
      if s.passwordMap (filename 8 message) = some (password 8 message) then
        match s.files (env.file (path (filename 8 message))) with
        | some content =>
          if env.mayRead (path (filename 8 message)) then do
            let chunks ← sendChunks fuel (List.replicate 1024 0) content
            .ok (some (s.send (chunks ++ [literal "0", literal "0", literal "0"])))
          else .ok none
        | none => .ok none
      else .ok (some (s.send [literal "0"])) := by
  rw [download, if_pos (show message.take 8 = literal "DOWNLOAD" from asked), nameAndPassword_eq header small]
  exact Lib.ok_bind _ _

structure Point.Framed (p : Point) : Prop where
  complete : Complete p.bytes
  nonneg : 0 ≤ frameLen p.bytes
  small : frameLen p.bytes + 4 < 2 ^ 31

theorem Point.Sound.framed (sound : p.Sound env) (complete : Complete p.bytes) : p.Framed := by
  have length := sound.length complete.1
  have low := complete.2.1
  exact ⟨complete, by omega, by omega⟩

namespace Point.Framed

theorem request_length (framed : p.Framed) : (p.request.length : Int) = frameLen p.bytes :=
  length_payload framed.complete framed.nonneg

theorem request_small (framed : p.Framed) : p.request.length < 2 ^ 31 := by
  have length := framed.request_length
  have small := framed.small
  omega

theorem retrieveFrame (framed : p.Framed) (holds : Holds b p.bytes) :
    ∃ b', FileServer.retrieveFrame b p.request.length = .ok b' ∧ Holds b' (behind p.bytes) := by
  rw [framed.request_length]
  exact holds.retrieveFrame framed.complete framed.small

theorem turn_eq (framed : p.Framed) (holds : Holds b p.bytes) (fuel : Nat) :
    turn env fuel p.state b = handle env fuel p.request p.request.length p.state b :=
  turn_complete holds framed.complete framed.nonneg framed.small fuel

theorem turn_uploads (framed : p.Framed) (holds : Holds b p.bytes) (header : Header 6 p.request)
    (opened : p.Uploads env) :
    ∃ b', Holds b' (behind p.bytes) ∧ ∀ fuel, turn env fuel p.state b = (do
      let received ← receive fuel b'
      let rest ← FileServer.retrieveFrame b' received.1
      .ok (.goesOn (p.stored env received.2) rest)) := by
  obtain ⟨_, asked, writable⟩ := opened
  obtain ⟨b', retrieved, holds'⟩ := framed.retrieveFrame holds
  refine ⟨b', holds', fun fuel => ?_⟩
  rw [framed.turn_eq holds, handle, upload_named asked header framed.request_small, if_pos writable, retrieved,
    Lib.ok_bind]
  cases received : receive fuel b' with
  | error fault => rfl
  | ok r =>
    rw [Lib.ok_bind, Lib.ok_bind, Lib.ok_bind]
    dsimp only
    rw [answer, download_other (not_download_of_upload asked), Lib.ok_bind]
    rfl

theorem download_denied (framed : p.Framed) (header : Header 8 p.request) (asked : IsDownload p.request)
    (denied : ¬p.Granted) (fuel : Nat) :
    download env fuel p.request p.request.length p.state = .ok (some (p.state.send [literal "0"])) :=
  (download_named asked header framed.request_small fuel).trans (if_neg denied)

theorem download_opened (framed : p.Framed) (header : Header 8 p.request) {content : List Byte}
    (opened : p.Downloads env content) (fuel : Nat) :
    download env fuel p.request p.request.length p.state = (do
      let chunks ← sendChunks fuel (List.replicate 1024 0) content
      .ok (some (p.state.send (chunks ++ [literal "0", literal "0", literal "0"])))) := by
  obtain ⟨_, asked, granted, readable, file⟩ := opened
  unfold Point.Granted at granted
  rw [download_named asked header framed.request_small, if_pos granted, file]
  dsimp only
  rw [if_pos readable]

theorem download_unopened (framed : p.Framed) (header : Header 8 p.request) (asked : IsDownload p.request)
    (granted : p.Granted) (unopened : ∀ content, ¬p.Downloads env content) (fuel : Nat) :
    download env fuel p.request p.request.length p.state = .ok none := by
  have found : p.state.passwordMap (filename 8 p.request) = some (password 8 p.request) := granted
  rw [download_named asked header framed.request_small, if_pos found]
  cases file : p.state.files (env.file (path (filename 8 p.request))) with
  | none => rfl
  | some content =>
    have closed : ¬env.mayRead (path (filename 8 p.request)) = true := by
      intro readable
      exact unopened content ⟨framed.complete, asked, granted, readable, file⟩
    exact if_neg closed

theorem turn_downloads (framed : p.Framed) (e : Env) (holds : Holds b p.bytes) (other : ¬IsUpload p.request) :
    ∃ b', Holds b' (behind p.bytes) ∧ ∀ fuel, turn e fuel p.state b = (do
      let downloaded ← download e fuel p.request p.request.length p.state
      match downloaded with
      | none => .ok (.returned p.state b)
      | some s => .ok (.goesOn s b')) := by
  obtain ⟨b', retrieved, holds'⟩ := framed.retrieveFrame holds
  refine ⟨b', holds', fun fuel => ?_⟩
  rw [framed.turn_eq holds, handle, upload_other other, Lib.ok_bind]
  dsimp only
  rw [answer, retrieved]
  rfl

end Point.Framed

/-! ### The kinds of points -/

theorem settles_turn {s : State} {r : Except Fault Flow} {x : Nat → Except Fault Flow}
    (same : ∀ fuel, turn env fuel s b = x fuel) (h : Lib.Settles .fuel x r) :
    Lib.Settles .fuel (fun fuel => turn env fuel s b) r := by
  rw [funext same]
  exact h

theorem turn_stops (holds : Holds b p.bytes) (sound : p.Sound env) (stops : p.Stops env) :
    Lib.Settles .fuel (fun fuel => turn env fuel p.state b) (.ok (.returned p.state b)) := by
  by_cases complete : Complete p.bytes
  · have framed := sound.framed complete
    rcases stops with incomplete | ⟨asked, denied⟩ | ⟨asked, granted, unopened⟩
    · exact absurd complete incomplete
    · refine settles_turn (fun fuel => ?_) (.const _)
      rw [framed.turn_eq holds, handle, upload_named asked (sound.upload complete asked) framed.request_small,
        if_neg (by rw [denied]; decide), Lib.ok_bind]
    · obtain ⟨b', _, same⟩ := framed.turn_downloads env holds (not_upload_of_download asked)
      refine settles_turn (fun fuel => (same fuel).trans ?_) (.const _)
      rw [framed.download_unopened (sound.download complete asked) asked granted unopened, Lib.ok_bind]
  · exact settles_turn (turn_incomplete holds sound complete) (.const _)

theorem turn_waits (holds : Holds b p.bytes) (sound : p.Sound env) (unready : ¬p.Ready env) :
    Lib.Settles .fuel (fun fuel => turn env fuel p.state b) (.error .fuel) := by
  obtain ⟨opened, incomplete⟩ := Classical.not_imp.mp unready
  have framed := sound.framed opened.1
  obtain ⟨b', holds', same⟩ := framed.turn_uploads holds (sound.upload opened.1 opened.2.1) opened
  refine settles_turn same (.bind_error (receive_waits holds'.wf ?_ ?_))
  · rwa [holds'.readable]
  · rw [holds'.readable]
    exact sound.data opened

theorem turn_overruns (holds : Holds b p.bytes) (sound : p.Sound env) (large : ¬p.Small env) :
    Lib.Settles .fuel (fun fuel => turn env fuel p.state b) (.error .stack) := by
  obtain ⟨content, opened, long⟩ : ∃ content, p.Downloads env content ∧ 1000 ≤ content.length := by
    simpa [Point.Small] using large
  have framed := sound.framed opened.1
  have header := sound.download opened.1 opened.2.1
  obtain ⟨b', _, same⟩ := framed.turn_downloads env holds (not_upload_of_download opened.2.1)
  refine settles_turn same ?_
  simp only [framed.download_opened header opened]
  exact .bind_error (.bind_error (sendChunks_large long))

theorem turn_badLength (e : Env) (holds : Holds b p.bytes) (four : 4 ≤ p.bytes.length) (low : -4 ≤ frameLen p.bytes)
    (bad : ¬(0 ≤ frameLen p.bytes ∧ frameLen p.bytes + 4 < 2 ^ 31)) :
    ∃ fault : Fault, fault.crash = true ∧ ∀ fuel, turn e fuel p.state b = .error fault := by
  by_cases negative : frameLen p.bytes < 0
  · have there : ¬b.readableBytes < toSize (frameLen p.bytes + 4) := by
      rw [holds.lacks_iff (by omega) (by omega)]
      omega
    have large := toSize_large negative (by omega)
    refine ⟨.lengthError, rfl, fun fuel => ?_⟩
    rw [turn, nextMessage, if_neg (by rw [holds.readableBytes]; omega), holds.readable, readInt_eq four, Lib.ok_bind,
      checked_eq (by omega) (by omega), Lib.ok_bind, if_neg there, makeString, if_pos (by rw [maxSize]; omega)]
    rfl
  · have exceeds : checked (frameLen p.bytes + 4) = .error .overflow := by
      rw [checked, if_neg (by omega)]
    refine ⟨.overflow, rfl, fun fuel => ?_⟩
    rw [turn, nextMessage, if_neg (by rw [holds.readableBytes]; omega), holds.readable, readInt_eq four, Lib.ok_bind,
      exceeds]
    rfl

theorem turn_badHeader (e : Env) (holds : Holds b p.bytes) (framed : p.Framed)
    (bad : IsUpload p.request ∧ ¬Header 6 p.request ∨ IsDownload p.request ∧ ¬Header 8 p.request) :
    ∃ fault : Fault, fault.crash = true ∧ ∀ fuel, turn e fuel p.state b = .error fault := by
  rcases bad with ⟨asked, bad⟩ | ⟨asked, bad⟩
  · obtain ⟨fault, crash, failed⟩ := nameAndPassword_fails p.request.length framed.request_small bad
    refine ⟨fault, crash, fun fuel => ?_⟩
    rw [framed.turn_eq holds, handle, upload, if_pos (show p.request.take 6 = literal "UPLOAD" from asked), openUpload,
      failed]
    rfl
  · obtain ⟨fault, crash, failed⟩ := nameAndPassword_fails p.request.length framed.request_small bad
    obtain ⟨b', _, same⟩ := framed.turn_downloads e holds (not_upload_of_download asked)
    refine ⟨fault, crash, fun fuel => ?_⟩
    rw [same, download, if_pos (show p.request.take 8 = literal "DOWNLOAD" from asked), failed]
    rfl

theorem turn_unsound (holds : Holds b p.bytes) (unsound : ¬p.Sound env) :
    ∃ fault : Fault, fault.crash = true ∧
      Lib.Settles .fuel (fun fuel => turn env fuel p.state b) (.error fault) := by
  by_cases four : 4 ≤ p.bytes.length
  · by_cases length : frameLen p.bytes < -4 ∨ 0 ≤ frameLen p.bytes ∧ frameLen p.bytes + 4 < 2 ^ 31
    · by_cases complete : Complete p.bytes
      · have low := complete.2.1
        have framed : p.Framed := ⟨complete, by omega, by omega⟩
        by_cases bad : IsUpload p.request ∧ ¬Header 6 p.request ∨ IsDownload p.request ∧ ¬Header 8 p.request
        · obtain ⟨fault, crash, failed⟩ := turn_badHeader env holds framed bad
          exact ⟨fault, crash, settles_turn failed (.const _)⟩
        · have upload : IsUpload p.request → Header 6 p.request :=
            fun asked => not_not.mp fun missing => bad (.inl ⟨asked, missing⟩)
          have download : IsDownload p.request → Header 8 p.request :=
            fun asked => not_not.mp fun missing => bad (.inr ⟨asked, missing⟩)
          -- what is left is the length of the data
          have data : ∃ _ : p.Uploads env, ¬(4 ≤ (behind p.bytes).length → frameLen (behind p.bytes) + 4 < 2 ^ 31) := by
            by_contra all
            exact unsound ⟨fun _ => length, fun _ => upload, fun _ => download,
              fun opened => not_not.mp fun missing => all ⟨opened, missing⟩⟩
          obtain ⟨opened, large⟩ := data
          obtain ⟨long, large⟩ := Classical.not_imp.mp large
          obtain ⟨b', holds', same⟩ := framed.turn_uploads holds (upload opened.2.1) opened
          refine ⟨.overflow, rfl, settles_turn same (.bind_error (receive_overflow holds'.wf ?_ ?_))⟩
          · rwa [holds'.readable]
          · rw [holds'.readable]
            omega
      · exact absurd ⟨fun _ => length, fun whole => absurd whole complete, fun whole => absurd whole complete,
          fun opened => absurd opened.1 complete⟩ unsound
    · obtain ⟨fault, crash, failed⟩ := turn_badLength env holds four (by omega) (by omega)
      exact ⟨fault, crash, settles_turn failed (.const _)⟩
  · exact absurd ⟨fun long => absurd long four, fun whole => absurd whole.1 four, fun whole => absurd whole.1 four,
      fun opened => absurd opened.1.1 four⟩ unsound

theorem turn_next (holds : Holds b p.bytes) {q : Point} (next : Next env p q) :
    ∃ b', Holds b' q.bytes ∧ Lib.Settles .fuel (fun fuel => turn env fuel p.state b) (.ok (.goesOn q.state b')) := by
  cases next with
  | upload sound opened ready =>
    have framed := sound.framed opened.1
    obtain ⟨b', holds', same⟩ := framed.turn_uploads holds (sound.upload opened.1 opened.2.1) opened
    have small := sound.data opened ready.1
    obtain ⟨rest, retrieved, last⟩ := holds'.retrieveFrame ready small
    have received := receive_ready holds'.wf (holds'.readable ▸ ready) (holds'.readable ▸ small)
    rw [holds'.readable] at received
    dsimp only [Point.uploaded]
    refine ⟨rest, last, settles_turn same (.bind received ?_)⟩
    dsimp only
    rw [retrieved]
    exact .const _
  | refuse sound complete asked denied =>
    have framed := sound.framed complete
    obtain ⟨b', holds', same⟩ := framed.turn_downloads env holds (not_upload_of_download asked)
    dsimp only [Point.answered]
    refine ⟨b', holds', settles_turn same ?_⟩
    simp only [framed.download_denied (sound.download complete asked) asked denied]
    exact .const _
  | download sound opened small =>
    have framed := sound.framed opened.1
    have header := sound.download opened.1 opened.2.1
    obtain ⟨b', holds', same⟩ := framed.turn_downloads env holds (not_upload_of_download opened.2.1)
    dsimp only [Point.answered]
    refine ⟨b', holds', settles_turn same ?_⟩
    simp only [framed.download_opened header opened]
    exact .bind (.bind (sendChunks_small small) (.const _)) (.const _)
  | other sound complete notUpload notDownload =>
    have framed := sound.framed complete
    obtain ⟨b', holds', same⟩ := framed.turn_downloads env holds notUpload
    dsimp only
    refine ⟨b', holds', settles_turn same ?_⟩
    simp only [download_other notDownload]
    exact .const _

end Dserver.FileServer
