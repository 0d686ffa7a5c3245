import Dserver.Net.Http.RequestLine

/-!
# Requests as bytes

`WireRequest` is a request as a client writes it: its request line, its headers in order, an empty
line. The parser gives it back and stops behind it.
-/

namespace Dserver.Net

structure Header where
  field : List Byte
  value : List Byte
  field_ok : 58 ∉ field ∧ 13 ∉ field ∧ 10 ∉ field
  value_ok : 13 ∉ value ∧ 10 ∉ value
  trimmed : ∀ h : value ≠ [], isspace (value.head h) = false ∧ isspace (value.getLast h) = false

def Header.line (h : Header) : List Byte := h.field ++ 58 :: 32 :: h.value

structure WireRequest where
  method : Method
  path : List Byte
  query : List Byte
  version : Version
  headers : List Header
  method_ok : method ≠ .kInvalid
  path_ok : 32 ∉ path ∧ 63 ∉ path ∧ 13 ∉ path ∧ 10 ∉ path
  query_ok : (query = [] ∨ query.head? = some 63) ∧ 32 ∉ query ∧ 13 ∉ query ∧ 10 ∉ query
  version_ok : version ≠ .kUnknown

namespace WireRequest

variable (r : WireRequest)

def versionText : List Byte :=
  match r.version with
  | .kHttp11 => ascii "HTTP/1.1"
  | _ => ascii "HTTP/1.0"

def target : List Byte := r.path ++ r.query

def requestLine : List Byte := r.method.methodString ++ 32 :: (r.target ++ 32 :: r.versionText)

def headerLines (headers : List Header) : List Byte := (headers.map fun h => h.line ++ Lib.crlf).flatten

def encode : List Byte := r.requestLine ++ Lib.crlf ++ headerLines r.headers ++ Lib.crlf

/-- The last value of a field among the headers. -/
def lastValue (headers : List Header) (field : List Byte) : Option (List Byte) :=
  (headers.reverse.find? fun h => h.field == field).map Header.value

end WireRequest

/-! ### The request line -/

namespace WireRequest

variable (r : WireRequest)

theorem target_plain : 32 ∉ r.target ∧ 13 ∉ r.target := by
  simp only [target, List.mem_append, not_or]
  exact ⟨⟨r.path_ok.1, r.query_ok.2.1⟩, r.path_ok.2.2.1, r.query_ok.2.2.1⟩

theorem versionText_plain : 13 ∉ r.versionText := by
  unfold versionText
  split <;> decide

theorem requestLine_isLine : Lib.IsLine r.requestLine := by
  refine Lib.isLine_of_not_mem ?_
  simp only [requestLine, List.mem_append, List.mem_cons, not_or]
  exact ⟨(methodString_plain _).2, by decide, r.target_plain.2, by decide, r.versionText_plain⟩

/-- The request that the request line gives. -/
def head (request : HttpRequest) : HttpRequest :=
  { request with method := r.method, path := r.path, query := r.query, version := r.version }

theorem target_cut : r.target.takeWhile (· != 63) = r.path ∧ r.target.dropWhile (· != 63) = r.query := by
  have path : ∀ byte ∈ r.path, (byte != 63) = true := fun byte member =>
    bne_iff_ne.mpr fun question => r.path_ok.2.1 (question ▸ member)
  rw [target, List.takeWhile_append_of_pos path, List.dropWhile_append_of_pos path]
  rcases r.query_ok.1 with none | some
  · rw [none]
    exact ⟨List.append_nil _, rfl⟩
  · obtain ⟨rest, question⟩ := List.head?_eq_some_iff.mp some
    rw [question]
    exact ⟨List.append_nil _, rfl⟩

theorem requestLine_parts : RequestLine r.requestLine r.method r.target r.version := by
  have version : r.versionText = ascii "HTTP/1." ++ r.version.digit := by
    have known := r.version_ok
    unfold versionText
    cases found : r.version with
    | kUnknown => exact absurd found known
    | kHttp10 | kHttp11 => rfl
  exact ⟨r.method_ok, r.target_plain.1, r.version_ok, by rw [requestLine_cut, requestLine, version]⟩

theorem processRequestLine_eq :
    ({} : HttpContext).processRequestLine r.requestLine = .ok (true, { request := r.head {} }) := by
  rw [processRequestLine_text rfl r.requestLine_parts, HttpRequest.described, r.target_cut.1, r.target_cut.2]
  rfl

/-! ### The headers -/

end WireRequest

namespace Header

variable (h : Header)

theorem line_isLine : Lib.IsLine h.line := by
  refine Lib.isLine_of_not_mem ?_
  simp only [line, List.mem_append, List.mem_cons, not_or]
  exact ⟨h.field_ok.2.1, by decide, by decide, h.value_ok.1⟩

theorem trim_value : ((32 :: h.value).dropWhile isspace).rdropWhile isspace = h.value := by
  have front : (32 :: h.value).dropWhile isspace = h.value := by
    rw [List.dropWhile_cons_of_pos (by decide), List.dropWhile_eq_self_iff]
    intro nonempty space
    have first := (h.trimmed (List.length_pos_iff.mp nonempty)).1
    rw [List.head_eq_getElem] at first
    simp [first] at space
  rw [front, List.rdropWhile_eq_self_iff]
  intro nonempty space
  simp [(h.trimmed nonempty).2] at space

theorem addHeader_line (request : HttpRequest) :
    request.addHeader h.line (h.line.idxOf 58) =
      { request with headers := request.headers.set h.field h.value } := by
  obtain ⟨-, front, back⟩ := find_between (32 :: h.value) h.field_ok.1
  unfold HttpRequest.addHeader line
  dsimp only
  rw [front, back, h.trim_value]

end Header

namespace WireRequest

variable (r : WireRequest)

def setAll (m : HeaderMap) (headers : List Header) : HeaderMap :=
  headers.foldl (fun m h => m.set h.field h.value) m

/-- The last value of a repeated field wins. -/
theorem find_setAll (m : HeaderMap) (headers : List Header) (field : List Byte) :
    (setAll m headers).find field = ((lastValue headers field).or (m.find field)) := by
  induction headers generalizing m with
  | nil => rfl
  | cons h rest ih =>
    rw [setAll, List.foldl_cons, ← setAll, ih, lastValue, lastValue, List.reverse_cons, List.find?_append,
      HeaderMap.find_set]
    cases later : rest.reverse.find? fun h => h.field == field with
    | some found => rfl
    | none =>
      by_cases same : field = h.field
      · simp [same]
      · simp [same, Ne.symm same]

theorem parse_headers (c : HttpContext) (state : c.state = .kExpectHeaders) (headers : List Header)
    (suffix : List Byte) :
    c.parse (headerLines headers ++ Lib.crlf ++ suffix) = .ok (true,
      { state := .kGotAll, request := { c.request with headers := setAll c.request.headers headers } },
      suffix) := by
  induction headers generalizing c with
  | nil =>
    have empty : Lib.IsLine [] := rfl
    have found : Lib.takeLine (headerLines [] ++ Lib.crlf ++ suffix) = some ([], suffix) :=
      empty.takeLine suffix
    rw [HttpContext.parse_line (.inr state) found, HttpContext.readLine, if_pos state]
    rfl
  | cons h rest ih =>
    have lines : headerLines (h :: rest) ++ Lib.crlf ++ suffix =
        h.line ++ Lib.crlf ++ (headerLines rest ++ Lib.crlf ++ suffix) := by
      simp [headerLines]
    have colon : 58 ∈ h.line := by simp [Header.line]
    rw [lines, HttpContext.parse_line (.inr state) (h.line_isLine.takeLine _), HttpContext.readLine,
      if_pos state, HttpContext.takeHeader, if_pos colon, h.addHeader_line, Lib.ok_bind]
    exact ih { c with request := { c.request with headers := c.request.headers.set h.field h.value } } state

/-- The context after the whole request. -/
def context : HttpContext :=
  { state := .kGotAll, request := { r.head {} with headers := setAll .empty r.headers } }

theorem parse_encode (suffix : List Byte) :
    ({} : HttpContext).parse (r.encode ++ suffix) = .ok (true, r.context, suffix) := by
  have lines : r.encode ++ suffix = r.requestLine ++ Lib.crlf ++ (headerLines r.headers ++ Lib.crlf ++ suffix) := by
    simp [encode]
  rw [lines, HttpContext.parse_line (.inl rfl) (r.requestLine_isLine.takeLine _), HttpContext.readLine,
    if_neg (by decide), HttpContext.takeRequestLine, r.processRequestLine_eq, Lib.ok_bind]
  exact parse_headers { state := .kExpectHeaders, request := r.head {} } rfl r.headers suffix

/-- Decoding undoes encoding, in front of any bytes that follow. -/
theorem decode_encode (suffix : List Byte) (t : Timestamp) {b : Buffer} (wf : b.Wf)
    (bytes : b.readable = r.encode ++ suffix) :
    ∃ c b', ({} : HttpContext).parseRequest b t = .ok (true, c, b') ∧
      c.state = .kGotAll ∧
      c.request.method = r.method ∧
      c.request.path = r.path ∧
      c.request.query = r.query ∧
      c.request.version = r.version ∧
      (∀ field, c.request.headers.find field = lastValue r.headers field) ∧
      b'.readable = suffix := by
  have parsed := HttpContext.parseRequest_parse (c := {}) wf t
  rw [bytes, show ({} : HttpContext).untimed.parse _ = _ from r.parse_encode suffix] at parsed
  obtain ⟨c, b', called, same, _, left, _⟩ := parsed
  have request : c.request.setReceiveTime 0 = r.context.request := congrArg HttpContext.request same
  refine ⟨c, b', called, ?_, ?_, ?_, ?_, ?_, fun field => ?_, left⟩
  · have state : c.untimed.state = r.context.state := congrArg HttpContext.state same
    exact state
  · exact congrArg HttpRequest.method request
  · exact congrArg HttpRequest.path request
  · exact congrArg HttpRequest.query request
  · exact congrArg HttpRequest.version request
  · have headers : c.request.headers = setAll .empty r.headers := congrArg HttpRequest.headers request
    rw [headers, find_setAll]
    exact Option.or_none

/-- `POST` with a repeated header, an empty value and bytes that follow. -/
def posted : WireRequest where
  method := .kPost
  path := ascii "/a"
  query := ascii "?b?c"
  version := .kHttp10
  headers :=
    [{ field := ascii "Host", value := ascii "x:y z", field_ok := by decide, value_ok := by decide
       trimmed := by decide },
     { field := [], value := [], field_ok := by decide, value_ok := by decide, trimmed := by decide },
     { field := ascii "Host", value := ascii "w", field_ok := by decide, value_ok := by decide
       trimmed := by decide }]
  method_ok := by decide
  path_ok := by decide
  query_ok := by decide
  version_ok := by decide

theorem decode_encode_posted :
    ∃ b c b', (Buffer.make Buffer.kInitialSize).append (posted.encode ++ ascii "GET") = .ok b ∧
      ({} : HttpContext).parseRequest b 7 = .ok (true, c, b') ∧ c.request.path = ascii "/a" ∧
      c.request.query = ascii "?b?c" ∧ c.request.headers.find (ascii "Host") = some (ascii "w") ∧
      b'.readable = ascii "GET" := by
  obtain ⟨b, appended, wf, added, _⟩ := Buffer.append_room (b := Buffer.make Buffer.kInitialSize)
    (Buffer.make_wf (by decide)) (show _ + (posted.encode ++ ascii "GET").length ≤ maxSize by decide)
  rw [Buffer.make_readable, List.nil_append] at added
  obtain ⟨c, b', called, _, _, path, query, _, headers, left⟩ := decode_encode posted (ascii "GET") 7 wf added
  exact ⟨b, c, b', appended, called, path, query, headers _, left⟩

end WireRequest

/-! ### Where a request ends -/

namespace HttpContext

variable {c : HttpContext} {bytes line rest : List Byte}

def isHeader (line : List Byte) : Prop := Lib.IsLine line ∧ 58 ∈ line

def lines (headers : List (List Byte)) : List Byte := (headers.map fun h => h ++ Lib.crlf).flatten

/-- A request line that is accepted, lines that each have a colon, and an empty line. -/
def Grammatical (consumed : List Byte) : Prop :=
  ∃ requestLine headers, Lib.IsLine requestLine ∧
    (∃ d, ({} : HttpContext).processRequestLine requestLine = .ok (true, d)) ∧
    (∀ h ∈ headers, isHeader h) ∧
    consumed = requestLine ++ Lib.crlf ++ lines headers ++ Lib.crlf

/-- The first complete line without a colon. -/
def firstPlain (bytes : List Byte) : Option (List Byte) :=
  match _taken : Lib.takeLine bytes with
  | none => none
  | some (line, rest) => if 58 ∈ line then firstPlain rest else some line
termination_by bytes.length
decreasing_by
  have length := Lib.takeLine_length _taken
  omega

theorem firstPlain_none (h : Lib.takeLine bytes = none) : firstPlain bytes = none := by
  rw [firstPlain]
  split
  · rfl
  · rename_i found
    simp [h] at found

theorem firstPlain_line (h : Lib.takeLine bytes = some (line, rest)) :
    firstPlain bytes = if 58 ∈ line then firstPlain rest else some line := by
  rw [firstPlain]
  split
  · rename_i missing
    simp [h] at missing
  · rename_i line' rest' found
    obtain ⟨rfl, rfl⟩ := Prod.mk.inj (Option.some.inj (found.symm.trans h))
    rfl

theorem lines_cons (h : List Byte) (headers : List (List Byte)) (more : List Byte) :
    lines (h :: headers) ++ more = h ++ Lib.crlf ++ (lines headers ++ more) := by
  simp [lines]

theorem firstPlain_lines {headers : List (List Byte)} {last : List Byte} (colons : ∀ h ∈ headers, isHeader h)
    (plain : Lib.IsLine last) (none : 58 ∉ last) (rest : List Byte) :
    firstPlain (lines headers ++ (last ++ Lib.crlf ++ rest)) = some last := by
  induction headers with
  | nil =>
    rw [show lines [] ++ (last ++ Lib.crlf ++ rest) = last ++ Lib.crlf ++ rest from rfl,
      firstPlain_line (plain.takeLine rest), if_neg none]
  | cons h headers ih =>
    obtain ⟨isLine, colon⟩ := colons h List.mem_cons_self
    rw [lines_cons, firstPlain_line (isLine.takeLine _), if_pos colon]
    exact ih fun h member => colons h (List.mem_cons_of_mem _ member)

/-- The header loop ends at the first line without a colon, and only there. -/
theorem parse_headers_ends (state : c.state = .kExpectHeaders) (bytes : List Byte) :
    (firstPlain bytes = none ∧ ∃ d rest, c.parse bytes = .ok (true, d, rest) ∧ d.gotAll = false) ∨
    ∃ headers last rest d, (∀ h ∈ headers, isHeader h) ∧ Lib.IsLine last ∧ 58 ∉ last ∧
      bytes = lines headers ++ (last ++ Lib.crlf ++ rest) ∧ c.parse bytes = .ok (true, d, rest) ∧
      d.gotAll = true := by
  induction size : bytes.length using Nat.strongRecOn generalizing c bytes with
  | ind n ih =>
    cases found : Lib.takeLine bytes with
    | none =>
      exact .inl ⟨firstPlain_none found, c, bytes, parse_none (.inr state) found, by simp [gotAll, state]⟩
    | some p =>
      obtain ⟨line, rest⟩ := p
      have isLine := Lib.takeLine_isLine found
      rw [firstPlain_line found, parse_line (.inr state) found, readLine, if_pos state, takeHeader, Lib.ok_bind]
      by_cases colon : 58 ∈ line
      · rw [if_pos colon, if_pos colon]
        have shorter := Lib.takeLine_length found
        obtain none | ⟨headers, last, left, d, colons, plain, noColon, split, parsed⟩ := ih rest.length
          (by omega) (c := { c with request := c.request.addHeader line (line.idxOf 58) }) state rest rfl
        · exact .inl none
        · refine .inr ⟨line :: headers, last, left, d, ?_, plain, noColon, ?_, parsed⟩
          · intro h member
            rcases List.mem_cons.mp member with rfl | later
            · exact ⟨isLine, colon⟩
            · exact colons h later
          · rw [lines_cons, ← split]
            exact Lib.takeLine_eq found
      · rw [if_neg colon, if_neg colon]
        exact .inr ⟨[], line, rest, _, by simp, isLine, colon, Lib.takeLine_eq found, rfl, rfl⟩

/-- The empty line is the first line without a colon behind an accepted request line. -/
def EndsEmpty (bytes : List Byte) : Prop :=
  ∀ line rest d, Lib.takeLine bytes = some (line, rest) →
    ({} : HttpContext).processRequestLine line = .ok (true, d) →
    ∀ last, firstPlain rest = some last → last = []

theorem firstPlain_end {headers : List (List Byte)} (last : List Byte) (colons : ∀ h ∈ headers, isHeader h)
    (plain : Lib.IsLine last) (none : 58 ∉ last) : firstPlain (lines headers ++ (last ++ Lib.crlf)) = some last := by
  have ended := firstPlain_lines colons plain none []
  rwa [List.append_nil] at ended

theorem grammatical_iff {headers : List (List Byte)} {last : List Byte} (isLine : Lib.IsLine line)
    (accepted : ∃ d, ({} : HttpContext).processRequestLine line = .ok (true, d))
    (colons : ∀ h ∈ headers, isHeader h) (plain : Lib.IsLine last) (none : 58 ∉ last) :
    Grammatical (line ++ Lib.crlf ++ (lines headers ++ (last ++ Lib.crlf))) ↔ last = [] := by
  constructor
  · rintro ⟨requestLine, headers', isLine', _, colons', eq⟩
    rw [List.append_assoc (requestLine ++ Lib.crlf)] at eq
    -- both sides are read line by line
    have taken := isLine.takeLine (lines headers ++ (last ++ Lib.crlf))
    rw [eq, isLine'.takeLine] at taken
    obtain ⟨-, behind⟩ := Prod.mk.inj (Option.some.inj taken)
    have ended := firstPlain_end last colons plain none
    have empty := firstPlain_end [] colons' rfl (by simp)
    rw [List.nil_append, behind, ended] at empty
    exact Option.some.inj empty
  · rintro rfl
    refine ⟨line, headers, isLine, accepted, colons, ?_⟩
    rw [List.nil_append, List.append_assoc (line ++ Lib.crlf)]

/-- What `parse` consumes in reaching `kGotAll` is a request of the grammar just when no other line
without a colon comes before the empty one. -/
theorem parse_grammatical (bytes : List Byte) :
    (∀ ok d rest, ({} : HttpContext).parse bytes = .ok (ok, d, rest) → d.gotAll = true →
      ∃ consumed, bytes = consumed ++ rest ∧ Grammatical consumed) ↔ EndsEmpty bytes := by
  cases found : Lib.takeLine bytes with
  | none =>
    refine ⟨fun _ line rest d taken => by simp [found] at taken, fun _ ok d rest parsed all => ?_⟩
    rw [parse_none (.inl rfl) found] at parsed
    obtain ⟨-, rfl, -⟩ := Lib.ok_inj_triple parsed
    simp [gotAll] at all
  | some p =>
    obtain ⟨line, rest⟩ := p
    have ends : EndsEmpty bytes ↔ ∀ d, ({} : HttpContext).processRequestLine line = .ok (true, d) →
        ∀ last, firstPlain rest = some last → last = [] := by
      constructor
      · exact fun h d accepted => h line rest d found accepted
      · intro h line' rest' d taken
        obtain ⟨rfl, rfl⟩ := Prod.mk.inj (Option.some.inj (found.symm.trans taken))
        exact h d
    obtain ⟨accepted, d, processed, state⟩ := processRequestLine_ready (c := {}) line rfl
    have parsed : ({} : HttpContext).parse bytes = if accepted then
        HttpContext.parse { d with state := .kExpectHeaders } rest else .ok (false, d, bytes) := by
      rw [parse_line (.inl rfl) found, readLine, if_neg (by decide), takeRequestLine, processed, Lib.ok_bind]
      cases accepted <;> rfl
    rw [ends]
    cases accepted with
    | false =>
      refine ⟨fun _ e eq => by simp [processed] at eq, fun _ ok e left ran all => ?_⟩
      rw [parsed] at ran
      obtain ⟨-, rfl, -⟩ := Lib.ok_inj_triple ran
      simp [gotAll, state] at all
    | true =>
      rw [if_pos rfl] at parsed
      obtain ⟨none, e, left, ran, more⟩ | ⟨headers, last, left, e, colons, plain, noColon, split, ran, all⟩ :=
        parse_headers_ends (c := { d with state := .kExpectHeaders }) rfl rest
      · refine ⟨fun _ _ _ last eq => by simp [none] at eq, fun _ ok e' left' ran' all => ?_⟩
        obtain ⟨-, rfl, -⟩ := Lib.ok_inj_triple (ran.symm.trans (parsed.symm.trans ran'))
        simp [more] at all
      · have whole : bytes = line ++ Lib.crlf ++ (lines headers ++ (last ++ Lib.crlf)) ++ left := by
          rw [Lib.takeLine_eq found, split]
          simp
        have ended : firstPlain rest = some last := split ▸ firstPlain_lines colons plain noColon left
        have grammar := grammatical_iff (Lib.takeLine_isLine found) ⟨d, processed⟩ colons plain noColon
        constructor
        · intro h _ _ last' eq
          obtain ⟨consumed, cut, grammatical⟩ := h true e left (parsed.trans ran) all
          rw [← List.append_cancel_right (whole.symm.trans cut)] at grammatical
          obtain rfl := Option.some.inj (ended.symm.trans eq)
          exact grammar.mp grammatical
        · intro h ok e' left' ran' _
          obtain ⟨-, -, rfl⟩ :=
            Lib.ok_inj_triple (ran.symm.trans (parsed.symm.trans ran'))
          exact ⟨_, whole, grammar.mpr (h d processed last ended)⟩

/-- The bytes that `parseRequest` of a fresh context consumes in reaching `kGotAll` are a request. -/
def CompletesAtEmptyLine (b : Buffer) (t : Timestamp) : Prop :=
  ∀ ok c b', ({} : HttpContext).parseRequest b t = .ok (ok, c, b') → c.gotAll = true →
    ∃ consumed, b.readable = consumed ++ b'.readable ∧ Grammatical consumed

theorem completesAtEmptyLine_parse {b : Buffer} (wf : b.Wf) (t : Timestamp) :
    CompletesAtEmptyLine b t ↔
      ∀ ok d rest, ({} : HttpContext).parse b.readable = .ok (ok, d, rest) → d.gotAll = true →
        ∃ consumed, b.readable = consumed ++ rest ∧ Grammatical consumed := by
  have parsed := parseRequest_parse (c := {}) wf t
  constructor
  · intro h ok d rest ran all
    rw [show ({} : HttpContext).untimed.parse _ = _ from ran] at parsed
    obtain ⟨c, b', called, rfl, _, rfl, _⟩ := parsed
    exact h ok c b' called all
  · intro h ok c b' called all
    cases ran : ({} : HttpContext).untimed.parse b.readable with
    | error fault =>
      rw [ran, called] at parsed
      cases parsed
    | ok p =>
      obtain ⟨ok', d, rest⟩ := p
      rw [ran, called] at parsed
      obtain ⟨c', b'', eq, same, _, left, _⟩ := parsed
      obtain ⟨rfl, rfl, rfl⟩ := Lib.ok_inj_triple eq
      rw [left]
      exact h ok d rest ran (by rw [← same]; exact all)

/-- `parseRequest` of a fresh context reaches `kGotAll` at the empty line of a request, and not before
it, exactly when the first line without a colon behind an accepted request line is the empty one. -/
theorem complete_at_empty_line {b : Buffer} (wf : b.Wf) (t : Timestamp) :
    CompletesAtEmptyLine b t ↔ EndsEmpty b.readable :=
  (completesAtEmptyLine_parse wf t).trans (parse_grammatical b.readable)

theorem exists_holding (bytes : List Byte) (fits : Buffer.kCheapPrepend + bytes.length ≤ maxSize) :
    ∃ b : Buffer, b.Wf ∧ b.readable = bytes := by
  obtain ⟨b, _, wf, added, _⟩ := Buffer.append_room (b := Buffer.make Buffer.kInitialSize)
    (Buffer.make_wf (by decide)) fits
  exact ⟨b, wf, by rw [added, Buffer.make_readable, List.nil_append]⟩

theorem complete_at_empty_line_host :
    ∃ b : Buffer, b.Wf ∧ b.readable = ascii "GET / HTTP/1.1\r\nHost: x\r\n\r\nrest" ∧
      CompletesAtEmptyLine b 0 := by
  obtain ⟨b, wf, bytes⟩ := exists_holding (ascii "GET / HTTP/1.1\r\nHost: x\r\n\r\nrest") (by decide)
  refine ⟨b, wf, bytes, (complete_at_empty_line wf 0).mpr ?_⟩
  rw [bytes]
  intro line rest d taken _ last plain
  have first : Lib.takeLine (ascii "GET / HTTP/1.1\r\nHost: x\r\n\r\nrest") =
      some (ascii "GET / HTTP/1.1", ascii "Host: x\r\n\r\nrest") := rfl
  have second : Lib.takeLine (ascii "Host: x\r\n\r\nrest") = some (ascii "Host: x", ascii "\r\nrest") := rfl
  have third : Lib.takeLine (ascii "\r\nrest") = some ([], ascii "rest") := rfl
  obtain ⟨rfl, rfl⟩ := Prod.mk.inj (Option.some.inj (taken.symm.trans first))
  rw [firstPlain_line second, if_pos (by decide), firstPlain_line third, if_neg (by decide)] at plain
  exact (Option.some.inj plain).symm

/-- A line without a colon ends the request, and the header behind it is left as the next one. -/
theorem colonless_line_completes :
    ¬ ∀ b : Buffer, b.Wf → ∀ t, CompletesAtEmptyLine b t := by
  intro claim
  obtain ⟨b, wf, bytes⟩ := exists_holding (ascii "GET / HTTP/1.1\r\nfoo\r\nHost: x\r\n\r\n") (by decide)
  have ends := (completesAtEmptyLine_parse wf 0).trans (parse_grammatical b.readable) |>.mp (claim b wf 0)
  rw [bytes] at ends
  have first : Lib.takeLine (ascii "GET / HTTP/1.1\r\nfoo\r\nHost: x\r\n\r\n") =
      some (ascii "GET / HTTP/1.1", ascii "foo\r\nHost: x\r\n\r\n") := rfl
  have second : Lib.takeLine (ascii "foo\r\nHost: x\r\n\r\n") =
      some (ascii "foo", ascii "Host: x\r\n\r\n") := rfl
  have empty := ends _ _ _ first rfl (ascii "foo") (by rw [firstPlain_line second, if_neg (by decide)])
  exact absurd empty (by decide)

end HttpContext

end Dserver.Net
