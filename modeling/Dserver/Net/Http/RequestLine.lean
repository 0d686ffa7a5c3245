import Dserver.Net.Http.ParseBytes

/-!
# The language of `processRequestLine`

A method, a target without spaces and a version, with one space between them.
-/

namespace Dserver.Net

/-- `methodString()` of a request with this method. -/
def Method.methodString : Method → List Byte
  | kGet => ascii "GET"
  | kPost => ascii "POST"
  | kHead => ascii "HEAD"
  | kPut => ascii "PUT"
  | kDelete => ascii "DELETE"
  | kInvalid => ascii "UNKNOWN"

/-- The last character of the version in a request line. -/
def Version.digit : Version → List Byte
  | kHttp10 => ascii "0"
  | kHttp11 => ascii "1"
  | kUnknown => []

structure RequestLine (line : List Byte) (m : Method) (target : List Byte) (v : Version) : Prop where
  method : m ≠ .kInvalid
  plain : 32 ∉ target
  version : v ≠ .kUnknown
  eq : line = m.methodString ++ ascii " " ++ target ++ ascii " HTTP/1." ++ v.digit

variable {line rest target : List Byte} {m : Method} {v : Version} {r : HttpRequest}

theorem idxOf_append_cons {c : Byte} {front back : List Byte} (h : c ∉ front) :
    (front ++ c :: back).idxOf c = front.length := by
  rw [List.idxOf_append_of_notMem h, List.idxOf_cons_self, Nat.add_zero]

theorem find_between {c : Byte} {front : List Byte} (back : List Byte) (h : c ∉ front) :
    (front ++ c :: back).idxOf c ≠ (front ++ c :: back).length ∧
    (front ++ c :: back).take ((front ++ c :: back).idxOf c) = front ∧
    (front ++ c :: back).drop ((front ++ c :: back).idxOf c + 1) = back := by
  rw [idxOf_append_cons h]
  refine ⟨?_, List.take_left, ?_⟩
  · simp only [List.length_append, List.length_cons]
    omega
  · rw [List.drop_append, List.drop_of_length_le (Nat.le_succ _), Nat.add_sub_cancel_left]
    rfl

theorem methodOf_methodString {m : Method} (h : m ≠ .kInvalid) :
    HttpRequest.methodOf m.methodString = m := by
  cases m with
  | kInvalid => exact absurd rfl h
  | _ => decide

theorem methodString_plain (m : Method) : 32 ∉ m.methodString ∧ 13 ∉ m.methodString := by
  cases m <;> decide

theorem requestLine_cut (m : Method) (target : List Byte) (v : Version) :
    m.methodString ++ ascii " " ++ target ++ ascii " HTTP/1." ++ v.digit =
      m.methodString ++ 32 :: (target ++ 32 :: (ascii "HTTP/1." ++ v.digit)) := by
  have space : ascii " " = [32] := by decide
  have protocol : ascii " HTTP/1." = 32 :: ascii "HTTP/1." := by decide
  rw [space, protocol]
  simp

theorem methodOf_eq (known : HttpRequest.methodOf line = m) (valid : m ≠ .kInvalid) : line = m.methodString := by
  unfold HttpRequest.methodOf at known
  split_ifs at known with get post head put delete
  · rw [get, ← known]
    rfl
  · rw [post, ← known]
    rfl
  · rw [head, ← known]
    rfl
  · rw [put, ← known]
    rfl
  · rw [delete, ← known]
    rfl
  · exact absurd known.symm valid

/-! ### The target -/

theorem take_idxOf (c : Byte) (bytes : List Byte) : bytes.take (bytes.idxOf c) = bytes.takeWhile (· != c) ∧
    bytes.drop (bytes.idxOf c) = bytes.dropWhile (· != c) := by
  induction bytes with
  | nil => exact ⟨rfl, rfl⟩
  | cons b tail ih =>
    by_cases same : b = c
    · simp [same]
    · simp [same, List.idxOf_cons_ne, ih]

theorem path_query_cut (fresh : r.query = []) (target : List Byte) :
    (if target.idxOf 63 ≠ target.length then
        (r.setPath (target.take (target.idxOf 63))).setQuery (target.drop (target.idxOf 63))
      else r.setPath target) =
    { r with path := target.takeWhile (· != 63), query := target.dropWhile (· != 63) } := by
  obtain ⟨front, back⟩ := take_idxOf 63 target
  split
  · rw [front, back]
    rfl
  · rename_i absent
    rw [← front, ← back, not_not.mp absent, List.take_length, List.drop_length, ← fresh]
    rfl

/-! ### The version -/

theorem version_text {version : List Byte} {d : Byte} :
    (version.length = 8 ∧ version.take 7 = ascii "HTTP/1.") ∧ version.drop 7 = [d] ↔
      version = ascii "HTTP/1." ++ [d] := by
  constructor
  · rintro ⟨⟨_, front⟩, back⟩
    rw [← front, ← back, List.take_append_drop]
  · rintro rfl
    exact ⟨⟨rfl, rfl⟩, rfl⟩

/-- The request that a line with these parts describes. -/
def HttpRequest.described (r : HttpRequest) (m : Method) (target : List Byte) (v : Version) : HttpRequest :=
  { r with
    method := m, version := v, path := target.takeWhile (· != 63), query := target.dropWhile (· != 63) }

theorem processTarget_text (fresh : r.query = []) (plain : 32 ∉ target) (known : v ≠ .kUnknown) :
    r.processTarget (target ++ 32 :: (ascii "HTTP/1." ++ v.digit)) = (true, r.described r.method target v) := by
  obtain ⟨inside, front, back⟩ := find_between (ascii "HTTP/1." ++ v.digit) plain
  have length : (target ++ 32 :: (ascii "HTTP/1." ++ v.digit)).idxOf 32 = target.length := idxOf_append_cons plain
  unfold HttpRequest.processTarget
  dsimp only
  rw [if_pos inside, front, back, length, path_query_cut fresh]
  cases v with
  | kUnknown => exact absurd rfl known
  | kHttp10 | kHttp11 => rfl

theorem processTarget_accepts (accepted : (r.processTarget rest).1 = true) :
    ∃ target v, 32 ∉ target ∧ v ≠ .kUnknown ∧ rest = target ++ 32 :: (ascii "HTTP/1." ++ Version.digit v) := by
  by_cases space : 32 ∈ rest
  · obtain ⟨target, version, rfl, plain⟩ := List.eq_append_cons_of_mem space
    obtain ⟨inside, _, back⟩ := find_between version plain
    unfold HttpRequest.processTarget at accepted
    dsimp only at accepted
    rw [if_pos inside, back] at accepted
    split at accepted
    · rename_i front
      split at accepted
      · rename_i last
        exact ⟨target, .kHttp11, plain, nofun, by rw [version_text.mp ⟨front, last⟩]; rfl⟩
      · split at accepted
        · rename_i last
          exact ⟨target, .kHttp10, plain, nofun, by rw [version_text.mp ⟨front, last⟩]; rfl⟩
        · cases accepted
    · cases accepted
  · unfold HttpRequest.processTarget at accepted
    dsimp only at accepted
    rw [if_neg (by simpa using List.idxOf_eq_length space)] at accepted
    cases accepted

/-! ### The line -/

theorem processRequestLine_text {c : HttpContext} (fresh : c.request = {}) (h : RequestLine line m target v) :
    c.processRequestLine line = .ok (true, { c with request := HttpRequest.described {} m target v }) := by
  have method := methodOf_methodString h.method
  obtain ⟨inside, front, back⟩ := find_between (target ++ 32 :: (ascii "HTTP/1." ++ v.digit)) (methodString_plain m).1
  rw [h.eq, requestLine_cut]
  unfold HttpContext.processRequestLine
  dsimp only
  rw [if_pos inside, front, back, HttpRequest.setMethod, fresh, if_pos rfl, Lib.ok_bind]
  dsimp only
  rw [method, if_pos (by simpa using h.method), processTarget_text rfl h.plain h.version]
  rfl

theorem processRequestLine_parts {c : HttpContext} (fresh : c.request = {}) (line : List Byte) :
    ∃ succeed d, c.processRequestLine line = .ok (succeed, d) ∧
      (succeed = true → ∃ m target v, RequestLine line m target v) := by
  unfold HttpContext.processRequestLine HttpRequest.setMethod
  dsimp only
  by_cases space : 32 ∈ line
  · obtain ⟨method, rest, rfl, plain⟩ := List.eq_append_cons_of_mem space
    obtain ⟨inside, front, back⟩ := find_between rest plain
    rw [if_pos inside, front, back, fresh, if_pos rfl, Lib.ok_bind]
    dsimp only
    split
    · rename_i known
      have valid : HttpRequest.methodOf method ≠ .kInvalid := by simpa using known
      refine ⟨_, _, rfl, fun accepted => ?_⟩
      obtain ⟨target, v, noSpace, version, rfl⟩ := processTarget_accepts accepted
      exact ⟨_, target, v, valid, noSpace, version, by rw [requestLine_cut, ← methodOf_eq rfl valid]⟩
    · exact ⟨_, _, rfl, nofun⟩
  · rw [if_neg (by simpa using List.idxOf_eq_length space)]
    exact ⟨_, _, rfl, nofun⟩

/-- On a fresh request, `processRequestLine` accepts the request lines and no others, and the request describes the
line it accepts. -/
theorem processRequestLine_language (c : HttpContext) (line : List Byte) :
    ∃ succeed d, HttpContext.processRequestLine { c with request := {} } line = .ok (succeed, d) ∧
      (succeed = true ↔ ∃ m target v, RequestLine line m target v) ∧
      ∀ m target v, RequestLine line m target v →
        d.request.method = m ∧ d.request.version = v ∧ d.request.path = target.takeWhile (· != 63) ∧
          d.request.query = target.dropWhile (· != 63) ∧ d.request.path ++ d.request.query = target := by
  obtain ⟨succeed, d, ran, parts⟩ := processRequestLine_parts (c := { c with request := {} }) rfl line
  have described : ∀ m target v, RequestLine line m target v →
      succeed = true ∧ d.request = HttpRequest.described {} m target v := by
    intro m target v h
    have text := processRequestLine_text (c := { c with request := {} }) rfl h
    obtain ⟨rfl, rfl⟩ := Prod.mk.inj (Except.ok.inj (ran.symm.trans text))
    exact ⟨rfl, rfl⟩
  refine ⟨succeed, d, ran, ⟨parts, fun ⟨m, target, v, h⟩ => (described m target v h).1⟩, fun m target v h => ?_⟩
  rw [(described m target v h).2]
  exact ⟨rfl, rfl, rfl, rfl, List.takeWhile_append_dropWhile⟩

end Dserver.Net
