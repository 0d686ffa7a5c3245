import Dserver.FileServer.OnMessage
import Dserver.Lib.Fuel

/-!
# The reply to a download

`buffer` is filled from its front and ends in the zeros it was set to, `len` has room for three digits and the end of the
string. So a file of up to 999 bytes goes in one message, cut at its first zero byte, and a longer one writes outside `len`.
-/

namespace Dserver.FileServer

open Net

def lengthField (n : Nat) : List Byte := Lib.splice (List.replicate 4 0) 0 (LogStream.decimal n ++ [0])

def replies (content : List Byte) : List (List Byte) :=
  (if content = [] then [] else [literal "1" ++ lengthField content.length ++ content.takeWhile (· ≠ 0)]) ++
    [literal "0", literal "0", literal "0"]

theorem decimal_nat_length (n : Nat) : (LogStream.decimal n).length = (Lib.lowDigits 10 n).length := by
  rw [LogStream.decimal_length, Int.natAbs_natCast, if_neg (by omega), Nat.add_zero]

theorem decimal_short_iff {n : Nat} : (LogStream.decimal n).length ≤ 3 ↔ n < 1000 := by
  rw [decimal_nat_length]
  constructor
  · intro short
    by_contra large
    have four : 3 < (Nat.digits 10 n).length := (Nat.lt_digits_length_iff (by decide) n).mpr (by omega)
    rw [Lib.lowDigits, if_neg (by omega)] at short
    omega
  · intro small
    exact Lib.lowDigits_length_le (by decide) (by decide) (show n < 10 ^ 3 by omega)

theorem printed_small {n : Nat} (small : n < 1000) :
    Lib.putAll Fault.stack (List.replicate 4 0) 0 (LogStream.decimal n ++ [0]) = .ok (lengthField n) := by
  have short := decimal_short_iff.mpr small
  apply Lib.putAll_eq
  rw [List.length_append, List.length_singleton, List.length_replicate]
  omega

theorem printed_large {n : Nat} (large : 1000 ≤ n) :
    Lib.putAll Fault.stack (List.replicate 4 0) 0 (LogStream.decimal n ++ [0]) = .error .stack := by
  have long : ¬(LogStream.decimal n).length ≤ 3 := fun short => absurd (decimal_short_iff.mp short) (by omega)
  apply Lib.putAll_error (Nat.zero_le _)
  rw [List.length_append, List.length_singleton, List.length_replicate]
  omega

theorem takeWhile_zero (text rest : List Byte) :
    (text ++ 0 :: rest).takeWhile (· ≠ 0) = text.takeWhile (· ≠ 0) := by
  induction text with
  | nil => simp
  | cons byte text ih => rw [List.cons_append, List.takeWhile_cons, List.takeWhile_cons, ih]

theorem cString_splice {content : List Byte} {n : Nat} (short : content.length < n) :
    cString (Lib.splice (List.replicate n 0) 0 content) = .ok (content.takeWhile (· ≠ 0)) := by
  have zeros : List.replicate (n - content.length) (0 : Byte) = 0 :: List.replicate (n - content.length - 1) 0 := by
    rw [← List.replicate_succ]
    congr 1
    omega
  have cells : Lib.splice (List.replicate n 0) 0 content = content ++ 0 :: List.replicate (n - content.length - 1) 0 := by
    rw [Lib.splice, List.take_zero, List.nil_append, Nat.zero_add, List.drop_replicate, zeros]
  rw [cells, cString, if_pos (by simp), takeWhile_zero]

theorem sendChunks_nil (buffer : List Byte) : Lib.Settles .fuel (fun fuel => sendChunks fuel buffer []) (.ok []) := by
  refine .spend rfl ?_
  have ended : (fun fuel => sendChunks (fuel + 1) buffer []) = fun _ => .ok [] := by
    funext fuel
    simp [sendChunks]
  rw [ended]
  exact .const _

theorem sendChunks_cons {fuel : Nat} {buffer unread : List Byte} (some : 0 < unread.length) (room : 0 < buffer.length) :
    sendChunks (fuel + 1) buffer unread = (do
      let len ← Lib.putAll .stack (List.replicate 4 0) 0 (LogStream.decimal (min buffer.length unread.length : Nat) ++ [0])
      let text ← cString (Lib.splice buffer 0 (unread.take buffer.length))
      let rest ← sendChunks fuel (Lib.splice buffer 0 (unread.take buffer.length)) (unread.drop buffer.length)
      .ok ((literal "1" ++ len ++ text) :: rest)) := by
  have kept : (Lib.splice buffer 0 (unread.take buffer.length)).length = buffer.length :=
    Lib.length_splice (by rw [List.length_take]; omega)
  rw [sendChunks]
  dsimp only
  rw [if_pos (by rw [List.length_take]; omega), List.length_take, kept]

theorem sendChunks_small {content : List Byte} (small : content.length < 1000) :
    Lib.Settles .fuel (fun fuel => sendChunks fuel (List.replicate 1024 0) content)
      (.ok (if content = [] then [] else [literal "1" ++ lengthField content.length ++ content.takeWhile (· ≠ 0)])) := by
  by_cases empty : content = []
  · rw [empty, if_pos rfl]
    exact sendChunks_nil _
  · have positive : 0 < content.length := List.length_pos_iff.mpr empty
    have size : (List.replicate 1024 (0 : Byte)).length = 1024 := List.length_replicate
    have counted : min 1024 content.length = content.length := Nat.min_eq_right (by omega)
    rw [if_neg empty]
    refine .spend rfl ?_
    simp only [sendChunks_cons positive (by rw [size]; decide), size, counted, printed_small small, Lib.ok_bind,
      List.take_of_length_le (show content.length ≤ 1024 by omega), cString_splice (show content.length < 1024 by omega),
      List.drop_of_length_le (show content.length ≤ 1024 by omega)]
    exact .bind (sendChunks_nil _) (.const _)

theorem sendChunks_large {content : List Byte} (large : 1000 ≤ content.length) :
    Lib.Settles .fuel (fun fuel => sendChunks fuel (List.replicate 1024 0) content) (.error .stack) := by
  have size : (List.replicate 1024 (0 : Byte)).length = 1024 := List.length_replicate
  refine .spend rfl ?_
  simp only [sendChunks_cons (show 0 < content.length by omega) (by rw [size]; decide), size,
    printed_large (show 1000 ≤ min 1024 content.length by omega)]
  exact .const _

end Dserver.FileServer
