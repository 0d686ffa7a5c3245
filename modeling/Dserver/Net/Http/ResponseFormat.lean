import Dserver.Net.Http.HttpServer

/-!
# Responses as bytes

`appendToBuffer` writes lines up to an empty one and then the body, through `c_str()` as everything else.
-/

namespace Dserver.Net

/-! ### Decimal numbers -/

def decimalValue (digits : List Byte) : Nat := digits.foldl (fun value digit => 10 * value + (digit.toNat - 48)) 0

namespace HttpResponse

theorem digit_toNat {n : Nat} {c : Char} (h : c ∈ Nat.toDigits 10 n) :
    (UInt8.ofNat c.toNat).toNat = c.toNat ∧ 48 ≤ c.toNat := by
  have digit := Nat.isDigit_of_mem_toDigits (by decide) (by decide) h
  simp only [Char.isDigit, Bool.and_eq_true, decide_eq_true_eq] at digit
  obtain ⟨low, high⟩ := digit
  have low' : 48 ≤ c.toNat := low
  have high' : c.toNat ≤ 57 := high
  exact ⟨UInt8.toNat_ofNat_of_lt (Nat.lt_of_le_of_lt high' (by decide)), low'⟩

theorem decimalValue_decimal (n : Nat) : decimalValue (decimal n) = n := by
  unfold decimalValue decimal
  rw [List.foldl_map]
  calc _ = (Nat.toDigits 10 n).foldl (fun value c => 10 * value + (c.toNat - '0'.toNat)) 0 := by
        refine List.foldl_ext _ _ _ fun value c member => ?_
        rw [(digit_toNat member).1]
        rfl
    _ = n := Nat.ofDigitChars_ten_toDigits

theorem decimal_plain (n : Nat) : 13 ∉ decimal n := by
  intro member
  obtain ⟨c, inside, same⟩ := List.mem_map.mp member
  obtain ⟨value, low⟩ := digit_toNat inside
  rw [same] at value
  have : (13 : Byte).toNat = 13 := rfl
  omega

theorem decimal_length {n k : Nat} (positive : 0 < k) (small : n < 10 ^ k) : (decimal n).length ≤ k := by
  rw [decimal, List.length_map]
  exact (Nat.length_toDigits_le_iff (by decide) positive).mpr small

theorem snprintf_eq {text : List Byte} (short : text.length ≤ 31) : snprintf text = text :=
  List.take_of_length_le short

theorem c_str_eq_iff {s : List Byte} : c_str s = s ↔ 0 ∉ s := by
  rw [c_str, List.takeWhile_eq_self_iff]
  constructor
  · intro all member
    exact absurd (all 0 member) (by decide)
  · intro absent byte member
    exact bne_iff_ne.mpr fun zero => absent (zero ▸ member)

/-! ### The lines -/

/-- Without CR, LF and NUL. -/
def PlainText (s : List Byte) : Prop := 13 ∉ s ∧ 10 ∉ s ∧ 0 ∉ s

/-- The strings besides the body are plain. -/
def Plain (r : HttpResponse) : Prop :=
  PlainText r.statusMessage ∧ ∀ e ∈ r.headers.entries, PlainText e.1 ∧ PlainText e.2

def statusLine (r : HttpResponse) : List Byte :=
  ascii "HTTP/1.1 " ++ decimal r.statusCode.value ++ ascii " " ++ r.statusMessage

def contentLength (r : HttpResponse) : List Byte := ascii "Content-Length: " ++ decimal r.body.length

def lines (r : HttpResponse) : List (List Byte) :=
  r.statusLine ::
    ((if r.closeConnection then [ascii "Connection: close"] else [r.contentLength, ascii "Connection: Keep-Alive"]) ++
      r.headers.entries.map fun header => header.1 ++ ascii ": " ++ header.2)

theorem statusLine_short (code : HttpStatusCode) :
    (ascii "HTTP/1.1 " ++ decimal code.value ++ ascii " ").length ≤ 31 := by
  cases code <;> decide

theorem contentLength_short {n : Nat} (small : n < 10 ^ 13) :
    (ascii "Content-Length: " ++ decimal n ++ ascii "\r\n").length ≤ 31 := by
  have digits := decimal_length (by decide) small
  have name : (ascii "Content-Length: ").length = 16 := by decide
  have last : (ascii "\r\n").length = 2 := by decide
  rw [List.length_append, List.length_append]
  omega

theorem headers_text {entries : List (List Byte × List Byte)} (plain : ∀ e ∈ entries, PlainText e.1 ∧ PlainText e.2) :
    (entries.flatMap fun header => [c_str header.1, ascii ": ", c_str header.2, ascii "\r\n"]).flatten =
      Lib.joinLines (entries.map fun header => header.1 ++ ascii ": " ++ header.2) := by
  induction entries with
  | nil => rfl
  | cons header rest ih =>
    obtain ⟨key, value⟩ := plain header List.mem_cons_self
    have below := ih fun e member => plain e (List.mem_cons_of_mem _ member)
    have ends : ascii "\r\n" = Lib.crlf := by decide
    rw [List.flatMap_cons, List.flatten_append, below, c_str_eq_iff.mpr key.2.2, c_str_eq_iff.mpr value.2.2, ends]
    simp [Lib.joinLines]

/-- What `appendToBuffer` adds is the lines, an empty line, and the body up to its first NUL. -/
theorem text_eq {r : HttpResponse} (plain : r.Plain) (small : r.body.length < 10 ^ 13) :
    r.text = Lib.joinLines r.lines ++ Lib.crlf ++ c_str r.body := by
  have ends : ascii "\r\n" = Lib.crlf := by decide
  have close : ascii "Connection: close\r\n" = ascii "Connection: close" ++ Lib.crlf := by decide
  have keep : ascii "Connection: Keep-Alive\r\n" = ascii "Connection: Keep-Alive" ++ Lib.crlf := by decide
  have headers := headers_text plain.2
  have message := c_str_eq_iff.mpr plain.1.2.2
  unfold text pieces lines
  rw [snprintf_eq (statusLine_short _), snprintf_eq (contentLength_short small), message]
  rw [List.flatten_append, List.flatten_append, headers, ends, close, keep]
  cases r.closeConnection with
  | true => simp [Lib.joinLines, statusLine]
  | false => simp [Lib.joinLines, statusLine, contentLength]

theorem lines_spec {r : HttpResponse} (plain : r.Plain) : ∀ line ∈ r.lines, line ≠ [] ∧ Lib.IsLine line := by
  intro line member
  suffices h : line ≠ [] ∧ 13 ∉ line from ⟨h.1, Lib.isLine_of_not_mem h.2⟩
  simp only [lines, List.mem_cons, List.mem_append, List.mem_map] at member
  rcases member with rfl | member | ⟨header, inside, rfl⟩
  · have code : 13 ∉ decimal r.statusCode.value := decimal_plain _
    have start : (13 : Byte) ∉ ascii "HTTP/1.1 " := by decide
    have space : (13 : Byte) ∉ ascii " " := by decide
    refine ⟨?_, ?_⟩
    · unfold statusLine
      rw [List.append_assoc, List.append_assoc]
      exact List.append_ne_nil_of_left_ne_nil (by decide) _
    · simp only [statusLine, List.mem_append, not_or]
      exact ⟨⟨⟨start, code⟩, space⟩, plain.1.1⟩
  · split at member
    · obtain rfl := List.mem_singleton.mp member
      decide
    · rcases List.mem_cons.mp member with rfl | member
      · refine ⟨List.append_ne_nil_of_left_ne_nil (by decide) _, ?_⟩
        rw [contentLength, List.mem_append, not_or]
        exact ⟨by decide, decimal_plain _⟩
      · obtain rfl := List.mem_singleton.mp member
        decide
  · obtain ⟨key, value⟩ := plain.2 header inside
    refine ⟨List.append_ne_nil_of_left_ne_nil (List.append_ne_nil_of_right_ne_nil _ (by decide)) _, ?_⟩
    simp only [List.mem_append, not_or]
    exact ⟨⟨key.1, by decide⟩, value.1⟩

theorem foldlM_append_room {pieces : List (List Byte)} {output : Buffer} (wf : output.Wf)
    (room : output.writerIndex + pieces.flatten.length ≤ maxSize) :
    ∃ output', pieces.foldlM Buffer.append output = .ok output' := by
  induction pieces generalizing output with
  | nil => exact ⟨output, rfl⟩
  | cons piece rest ih =>
    rw [List.flatten_cons, List.length_append] at room
    have here : output.writerIndex + piece.length ≤ maxSize := by omega
    obtain ⟨middle, ran, wf', _, index⟩ := Buffer.append_room wf here
    obtain ⟨output', more⟩ := ih wf' (by omega)
    exact ⟨output', by rw [List.foldlM_cons, ran, Lib.ok_bind, more]⟩

theorem appendToBuffer_returns {r : HttpResponse} {output : Buffer} (wf : output.Wf)
    (room : output.writerIndex + r.text.length ≤ maxSize) : ∃ output', r.appendToBuffer output = .ok output' :=
  foldlM_append_room wf room

/-- In what has been added, the body follows the first empty line, and `Content-Length` gives its length. -/
def Framed (r : HttpResponse) (output output' : Buffer) : Prop :=
  ∃ added lines after, output'.readable = output.readable ++ added ∧ Lib.Head added lines after ∧ after = r.body ∧
    (r.closeConnection = false →
      ∃ digits, lines[1]? = some (ascii "Content-Length: " ++ digits) ∧ decimalValue digits = after.length)

theorem framed_iff {r : HttpResponse} {output output' : Buffer} (plain : r.Plain) (small : r.body.length < 10 ^ 13)
    (wf : output.Wf) (ran : r.appendToBuffer output = .ok output') : r.Framed output output' ↔ 0 ∉ r.body := by
  obtain ⟨_, readable⟩ := foldlM_append wf r.pieces_fit ran
  have head : Lib.Head r.text r.lines (c_str r.body) := ⟨text_eq plain small, lines_spec plain⟩
  rw [← c_str_eq_iff]
  constructor
  · rintro ⟨added, lines, after, eq, framed, rfl, _⟩
    obtain rfl : added = r.text := List.append_cancel_left (eq.symm.trans readable)
    exact (head.unique framed).2
  · intro whole
    refine ⟨r.text, r.lines, c_str r.body, readable, head, whole, fun keep => ?_⟩
    refine ⟨decimal r.body.length, ?_, ?_⟩
    · simp [lines, keep, contentLength]
    · rw [whole, decimalValue_decimal]

/-- `appendToBuffer` frames the body exactly when there is no NUL in it; it returns when a vector can hold the
bytes. -/
theorem appendToBuffer_framed {r : HttpResponse} {output : Buffer} (plain : r.Plain) (small : r.body.length < 10 ^ 13)
    (wf : output.Wf) :
    (∀ output', r.appendToBuffer output = .ok output' → (r.Framed output output' ↔ 0 ∉ r.body)) ∧
      (output.writerIndex + r.text.length ≤ maxSize → ∃ output', r.appendToBuffer output = .ok output') :=
  ⟨fun _ ran => framed_iff plain small wf ran, appendToBuffer_returns wf⟩

theorem ok_fits : (ascii "OK").length ≤ maxSize := by decide

def plainResponse (body : List Byte) (fits : body.length ≤ maxSize) : HttpResponse :=
  { construct false with
    statusCode := .k200Ok, statusMessage := ascii "OK", body, statusMessage_fits := ok_fits, body_fits := fits }

theorem plainResponse_plain (body : List Byte) (fits : body.length ≤ maxSize) : (plainResponse body fits).Plain :=
  ⟨show PlainText (ascii "OK") from ⟨by decide, by decide, by decide⟩, fun e member => by cases member⟩

theorem appendToBuffer_framed_hello :
    ∃ (r : HttpResponse) (output output' : Buffer), (r.Plain ∧ r.body = ascii "hello" ∧ output.Wf) ∧
      r.appendToBuffer output = .ok output' ∧ r.Framed output output' := by
  have wf : (Buffer.make 16).Wf := Buffer.make_wf (by decide)
  have plain := plainResponse_plain (ascii "hello") (by decide)
  have small : (plainResponse (ascii "hello") (by decide)).body.length < 10 ^ 13 := by decide
  obtain ⟨framed, returns⟩ := appendToBuffer_framed plain small wf
  obtain ⟨output', ran⟩ := returns (by decide)
  exact ⟨_, _, output', ⟨plain, rfl, wf⟩, ran, (framed output' ran).mpr (by decide)⟩

/-- The body is cut at its NUL, behind a `Content-Length` of three. -/
theorem appendToBuffer_cuts :
    ∃ (r : HttpResponse) (output output' : Buffer), (r.Plain ∧ r.body = [137, 0, 71] ∧ output.Wf) ∧
      r.appendToBuffer output = .ok output' ∧
      output'.readable =
        output.readable ++ ascii "HTTP/1.1 200 OK\r\nContent-Length: 3\r\nConnection: Keep-Alive\r\n\r\n" ++ [137] ∧
      ¬ r.Framed output output' := by
  have wf : (Buffer.make 16).Wf := Buffer.make_wf (by decide)
  have plain := plainResponse_plain [137, 0, 71] (by decide)
  have small : (plainResponse [137, 0, 71] (by decide)).body.length < 10 ^ 13 := by decide
  have text : (plainResponse [137, 0, 71] (by decide)).text =
      ascii "HTTP/1.1 200 OK\r\nContent-Length: 3\r\nConnection: Keep-Alive\r\n\r\n" ++ [137] := by decide
  obtain ⟨output', ran⟩ := appendToBuffer_returns wf (by rw [text]; decide)
  obtain ⟨_, readable⟩ := foldlM_append wf (pieces_fit _) ran
  refine ⟨_, _, output', ⟨plain, rfl, wf⟩, ran, ?_, fun framed => ?_⟩
  · rw [readable, List.append_assoc, ← text]
    rfl
  · exact absurd ((framed_iff plain small wf ran).mp framed) (by decide)

end HttpResponse

end Dserver.Net
