import Dserver.Net.Http.RequestFormat
import Dserver.Net.Http.Replies

/-!
# Requests that follow one another

A stream of requests, however it is cut. A call of `onMessage` passes on one request at most, so all that
have come are answered just when no chunk ends two of them.
-/

namespace Dserver.Net

namespace HttpContext

variable {c : HttpContext} {bytes : List Byte}

theorem parse_lines {headers : List (List Byte)} (state : c.state = .kExpectHeaders)
    (colons : ∀ h ∈ headers, isHeader h) :
    ∃ d, d.gotAll = true ∧ ∀ suffix, c.parse (lines headers ++ (Lib.crlf ++ suffix)) = .ok (true, d, suffix) := by
  induction headers generalizing c with
  | nil =>
    refine ⟨{ c with state := .kGotAll }, rfl, fun suffix => ?_⟩
    have found : Lib.takeLine (lines [] ++ (Lib.crlf ++ suffix)) = some ([], suffix) := rfl
    rw [parse_line (.inr state) found, readLine, if_pos state]
    rfl
  | cons h headers ih =>
    obtain ⟨isLine, colon⟩ := colons h List.mem_cons_self
    obtain ⟨d, all, parsed⟩ := ih (c := { c with request := c.request.addHeader h (h.idxOf 58) }) state
      fun h member => colons h (List.mem_cons_of_mem _ member)
    refine ⟨d, all, fun suffix => ?_⟩
    rw [lines_cons, parse_line (.inr state) (isLine.takeLine _), readLine, if_pos state, takeHeader, if_pos colon,
      Lib.ok_bind]
    exact parsed suffix

theorem Grammatical.parse (h : Grammatical bytes) :
    ∃ d, d.gotAll = true ∧ ∀ suffix, ({} : HttpContext).parse (bytes ++ suffix) = .ok (true, d, suffix) := by
  obtain ⟨requestLine, headers, isLine, ⟨e, accepted⟩, colons, rfl⟩ := h
  obtain ⟨d, all, parsed⟩ := parse_lines (c := { e with state := .kExpectHeaders }) rfl colons
  refine ⟨d, all, fun suffix => ?_⟩
  have cut : requestLine ++ Lib.crlf ++ lines headers ++ Lib.crlf ++ suffix =
      requestLine ++ Lib.crlf ++ (lines headers ++ (Lib.crlf ++ suffix)) := by
    simp only [List.append_assoc]
  rw [cut, parse_line (.inl rfl) (isLine.takeLine _), readLine, if_neg (by decide), takeRequestLine, accepted,
    Lib.ok_bind]
  exact parsed suffix

/-! ### The empty line -/

theorem lines_blank {first : List Byte} {headers : List (List Byte)} {front back : List Byte}
    (isLine : Lib.IsLine first) (colons : ∀ h ∈ headers, isHeader h)
    (h : lines (first :: headers) ++ Lib.crlf = front ++ Lib.crlf ++ (Lib.crlf ++ back)) : back = [] := by
  induction headers generalizing first front with
  | nil =>
    have found := isLine.takeLine (lines [] ++ Lib.crlf)
    rw [← lines_cons, h] at found
    rcases Lib.takeLine_crlf found with ⟨-, blank⟩ | ⟨middle, -, behind⟩
    · exact List.append_cancel_left (blank.trans (List.append_nil Lib.crlf).symm)
    · have length := congrArg List.length behind
      simp [lines, Lib.crlf] at length
      omega
  | cons second headers ih =>
    obtain ⟨isLine', colon⟩ := colons second List.mem_cons_self
    have found := isLine.takeLine (lines (second :: headers) ++ Lib.crlf)
    rw [← lines_cons, h] at found
    rcases Lib.takeLine_crlf found with ⟨-, blank⟩ | ⟨middle, -, behind⟩
    · -- the line behind would be empty
      have empty : Lib.takeLine (Lib.crlf ++ back) = some ([], back) := rfl
      rw [blank, lines_cons, isLine'.takeLine] at empty
      obtain ⟨rfl, -⟩ := Prod.mk.inj (Option.some.inj empty)
      simp at colon
    · exact ih isLine' (fun h member => colons h (List.mem_cons_of_mem _ member)) behind

theorem Grammatical.blank {front back : List Byte} (h : Grammatical bytes)
    (eq : bytes = front ++ Lib.crlf ++ (Lib.crlf ++ back)) : back = [] := by
  obtain ⟨requestLine, headers, isLine, _, colons, rfl⟩ := h
  rw [List.append_assoc (requestLine ++ Lib.crlf), ← lines_cons] at eq
  exact lines_blank isLine colons eq

theorem lines_end (first : List Byte) (headers : List (List Byte)) :
    ∃ front, lines (first :: headers) = front ++ Lib.crlf := by
  induction headers generalizing first with
  | nil => exact ⟨first, by simp [lines]⟩
  | cons second headers ih =>
    obtain ⟨front, eq⟩ := ih second
    refine ⟨first ++ Lib.crlf ++ front, ?_⟩
    have cut := lines_cons first (second :: headers) []
    rw [List.append_nil, List.append_nil, eq] at cut
    rw [cut, List.append_assoc (first ++ Lib.crlf)]

theorem Grammatical.ends (h : Grammatical bytes) : ∃ front, bytes = front ++ Lib.crlf ++ Lib.crlf := by
  obtain ⟨requestLine, headers, _, _, _, rfl⟩ := h
  obtain ⟨front, eq⟩ := lines_end requestLine headers
  refine ⟨front, ?_⟩
  rw [List.append_assoc (requestLine ++ Lib.crlf), ← lines_cons, eq]

/-- A request, as it is written on the connection. -/
abbrev WireText := { bytes : List Byte // Grammatical bytes }

/-- The bytes have a whole request in them. -/
def HoldsRequest (bytes : List Byte) : Prop := ∃ r : WireText, r.1 <:+: bytes

theorem isLine_not_holds (h : Lib.IsLine bytes) : ¬ HoldsRequest bytes := by
  rintro ⟨⟨request, grammatical⟩, inside⟩
  obtain ⟨front, rfl⟩ := grammatical.ends
  exact h.not_crlf ((List.suffix_append _ _).isInfix.trans inside)

namespace WireText

/-- The request that is parsed from it, without the receive time. -/
def request (r : WireText) : HttpRequest :=
  match ({} : HttpContext).parse r.1 with
  | .ok (_, d, _) => d.request
  | .error _ => {}

theorem parse (r : WireText) : ∃ d : HttpContext, d.gotAll = true ∧ d.request = r.request ∧
    ∀ suffix, ({} : HttpContext).parse (r.1 ++ suffix) = .ok (true, d, suffix) := by
  obtain ⟨d, all, parsed⟩ := r.2.parse
  refine ⟨d, all, ?_, parsed⟩
  have alone := parsed []
  rw [List.append_nil] at alone
  rw [request, alone]

theorem length_pos (r : WireText) : 0 < r.1.length := by
  obtain ⟨front, eq⟩ := r.2.ends
  rw [eq]
  simp [Lib.crlf]

/-! ### A part of a request -/

/-- What has come of a request that is not complete. -/
def Part (bytes : List Byte) : Prop := bytes = [] ∨ ∃ r : WireText, ∃ more, more ≠ [] ∧ r.1 = bytes ++ more

theorem Part.not_holds (h : Part bytes) : ¬ HoldsRequest bytes := by
  rcases h with rfl | ⟨r, more, nonempty, eq⟩
  · exact isLine_not_holds rfl
  · rintro ⟨inner, front, back, rfl⟩
    obtain ⟨before, ends⟩ := inner.2.ends
    have blank : r.1 = front ++ before ++ Lib.crlf ++ (Lib.crlf ++ (back ++ more)) := by
      rw [eq, ends]
      simp only [List.append_assoc]
    exact nonempty (List.append_eq_nil_iff.mp (r.2.blank blank)).2

/-- The parser takes what has come, and goes on from there when more does. -/
theorem Part.parse (h : Part bytes) : ∃ (d : HttpContext) (rest : List Byte),
    ({} : HttpContext).parse bytes = .ok (true, d, rest) ∧ d.ready ∧
      ∀ more, ({} : HttpContext).parse (bytes ++ more) = d.parse (rest ++ more) := by
  obtain found | ⟨ok, d, rest, parsed, ended, longer⟩ := parse_ready (c := {}) (.inr ⟨rfl, rfl⟩) bytes
  · exact found
  · rcases h with rfl | ⟨r, more, nonempty, eq⟩
    · rw [parse_none (.inl rfl) rfl] at parsed
      obtain ⟨rfl, rfl, -⟩ := Lib.ok_inj_triple parsed
      cases ended
    · -- the request would end before its last bytes
      obtain ⟨e, _, _, whole⟩ := r.parse
      have all := whole []
      rw [List.append_nil, eq, longer] at all
      obtain ⟨-, -, empty⟩ := Lib.ok_inj_triple all
      exact absurd (List.append_eq_nil_iff.mp empty).2 nonempty

end WireText

/-! ### Streams of requests -/

def stream (reqs : List WireText) : List Byte := (reqs.map Subtype.val).flatten

/-- How many requests of the stream end within its first `n` bytes. -/
def completed : List WireText → Nat → Nat
  | [], _ => 0
  | r :: rest, n => if r.1.length ≤ n then 1 + completed rest (n - r.1.length) else 0

theorem completed_append (front back : List WireText) (n : Nat) :
    completed (front ++ back) ((stream front).length + n) = front.length + completed back n := by
  induction front with
  | nil => simp [stream]
  | cons r front ih =>
    have length : (stream (r :: front)).length + n = r.1.length + ((stream front).length + n) := by
      simp only [stream, List.map_cons, List.flatten_cons, List.length_append]
      omega
    rw [length, List.cons_append, completed, if_pos (Nat.le_add_right _ _), Nat.add_sub_cancel_left, ih,
      List.length_cons]
    omega

theorem completed_zero (reqs : List WireText) : completed reqs 0 = 0 := by
  cases reqs with
  | nil => rfl
  | cons r rest =>
    have pos := r.length_pos
    rw [completed, if_neg (by omega)]

theorem completed_stream (reqs : List WireText) : completed reqs (stream reqs).length = reqs.length := by
  have all := completed_append reqs [] 0
  rwa [List.append_nil] at all

/-- A stream that has come up to some byte starts with a whole request or with a part of one. -/
theorem stream_cut {reqs : List WireText} (h : bytes <+: stream reqs) :
    (∃ r rest suffix, reqs = r :: rest ∧ bytes = r.1 ++ suffix ∧ suffix <+: stream rest ∧
      completed reqs bytes.length = 1 + completed rest suffix.length) ∨
    (WireText.Part bytes ∧ completed reqs bytes.length = 0) := by
  cases reqs with
  | nil => exact .inr ⟨.inl (List.prefix_nil.mp h), rfl⟩
  | cons r rest =>
    have first : r.1 <+: stream (r :: rest) := List.prefix_append _ _
    by_cases whole : r.1.length ≤ bytes.length
    · obtain ⟨suffix, rfl⟩ := List.prefix_of_prefix_length_le first h whole
      refine .inl ⟨r, rest, suffix, rfl, rfl, (List.prefix_append_right_inj r.1).mp h, ?_⟩
      rw [completed, if_pos whole, List.length_append, Nat.add_sub_cancel_left]
    · obtain ⟨more, eq⟩ := List.prefix_of_prefix_length_le h first (by omega)
      refine .inr ⟨.inr ⟨r, more, ?_, eq.symm⟩, by rw [completed, if_neg whole]⟩
      rintro rfl
      rw [List.append_nil] at eq
      exact whole (by rw [eq])

theorem holdsRequest_iff {reqs : List WireText} (h : bytes <+: stream reqs) :
    HoldsRequest bytes ↔ 0 < completed reqs bytes.length := by
  rcases stream_cut h with ⟨r, rest, suffix, -, rfl, -, count⟩ | ⟨part, count⟩
  · exact iff_of_true ⟨r, (List.prefix_append _ _).isInfix⟩ (by omega)
  · exact iff_of_false part.not_holds (by omega)

end HttpContext

namespace HttpConnection

open HttpContext (WireText HoldsRequest stream completed)

variable {s s' : HttpConnection} {label : Label} {reqs : List WireText}

/-- The bytes that the calls were given. -/
def received (calls : List MessageCall) : List Byte := (calls.map MessageCall.chunk).flatten

theorem received_append (calls : List MessageCall) (call : MessageCall) :
    received (calls ++ [call]) = received calls ++ call.chunk := by
  simp [received]

/-- `front` has been passed on, and of the rest `remaining` has come. -/
structure Serving (reqs : List WireText) (s : HttpConnection) (front back : List WireText)
    (remaining : List Byte) : Prop where
  split : reqs = front ++ back
  passed : s.dispatched.map (HttpRequest.setReceiveTime · 0) = front.map WireText.request
  come : received s.calls = stream front ++ remaining
  ready : s.context.untimed.ready
  parsed : ∀ more, ({} : HttpContext).parse (remaining ++ more) = s.context.untimed.parse (s.unread ++ more)

theorem Serving.completed {front back : List WireText} {remaining : List Byte}
    (h : Serving reqs s front back remaining) :
    completed reqs (received s.calls).length = front.length + completed back remaining.length := by
  rw [h.come, h.split, List.length_append, HttpContext.completed_append]

theorem Serving.remaining_prefix {front back : List WireText} {remaining more : List Byte}
    (h : Serving reqs s front back remaining) (sent : received s.calls ++ more <+: stream reqs) :
    remaining ++ more <+: stream back := by
  have whole : stream reqs = stream front ++ stream back := by
    rw [h.split]
    simp [stream]
  rw [whole, h.come, List.append_assoc] at sent
  exact (List.prefix_append_right_inj (stream front)).mp sent

/-- A call passes on the next request if it is complete, and what it leaves holds another one just when
more have been completed. -/
theorem message_serving {front back : List WireText} {remaining chunk : List Byte} {ok : Bool} {d : HttpContext}
    (h : Serving reqs s front back remaining)
    (parsed : s.context.untimed.parse (s.unread ++ chunk) = .ok (ok, d, s'.unread)) (outcome : Outcome s s' ok d)
    (calls : received s'.calls = received s.calls ++ chunk) (sent : received s'.calls <+: stream reqs) :
    ∃ front' back' remaining', Serving reqs s' front' back' remaining' ∧
      front'.length = min (front.length + 1) (completed reqs (received s'.calls).length) ∧
      (HoldsRequest s'.unread ↔ front'.length < completed reqs (received s'.calls).length) := by
  have come : received s'.calls = stream front ++ (remaining ++ chunk) := by
    rw [calls, h.come, List.append_assoc]
  have count : completed reqs (received s'.calls).length =
      front.length + completed back (remaining ++ chunk).length := by
    rw [come, h.split, List.length_append, HttpContext.completed_append]
  rw [← h.parsed] at parsed
  rw [calls] at sent
  rcases HttpContext.stream_cut (h.remaining_prefix sent) with
    ⟨r, rest, suffix, rfl, eq, inside, more⟩ | ⟨part, none⟩
  · obtain ⟨e, all, request, whole⟩ := r.parse
    rw [eq, whole] at parsed
    obtain ⟨rfl, rfl, left⟩ := Lib.ok_inj_triple parsed
    cases outcome with
    | waits none _ _ _ _ => simp [none] at all
    | served req response _ same context _ replies =>
      have split : reqs = (front ++ [r]) ++ rest := by rw [h.split, List.append_assoc]; rfl
      have serving : Serving reqs s' (front ++ [r]) rest suffix := by
        refine ⟨split, ?_, ?_, ?_, fun more => ?_⟩
        · have dispatched : s'.dispatched = s.dispatched ++ [req] := by
            rw [dispatched, replies, List.filterMap_append]
            rfl
          rw [dispatched, List.map_append, List.map_append, h.passed, List.map_singleton, List.map_singleton, same,
            request]
        · rw [come, eq]
          simp [stream]
        · rw [context]
          exact .inr ⟨rfl, rfl⟩
        · rw [context, left]
          rfl
      refine ⟨_, _, _, serving, ?_, ?_⟩
      · rw [count, more, List.length_append, List.length_singleton]
        omega
      · rw [← left, HttpContext.holdsRequest_iff inside, count, more, List.length_append, List.length_singleton]
        omega
  · obtain ⟨e, rest, ran, ready, longer⟩ := part.parse
    rw [ran] at parsed
    obtain ⟨rfl, rfl, left⟩ := Lib.ok_inj_triple parsed
    cases outcome with
    | served _ _ all _ _ _ _ => simp [ready.not_gotAll] at all
    | waits _ context _ _ replies =>
      have serving : Serving reqs s' front back (remaining ++ chunk) := by
        refine ⟨h.split, ?_, come, ?_, fun more => ?_⟩
        · rw [dispatched, replies]
          exact h.passed
        · rw [context]
          exact ready
        · rw [context, longer, left]
      refine ⟨_, _, _, serving, ?_, ?_⟩
      · rw [count, none]
        omega
      · obtain ⟨_, _, line⟩ | ⟨_, all⟩ | ⟨wrong, _⟩ := HttpContext.parse_cases ran
        · rw [← left, count, none]
          exact iff_of_false (HttpContext.isLine_not_holds line) (by omega)
        · simp [ready.not_gotAll] at all
        · cases wrong

/-! ### Whole runs -/

/-- No call that leaves the connection connected leaves a whole request unread. -/
def Answered (calls : List MessageCall) : Prop :=
  ∀ call ∈ calls, call.connected = true → ¬ HoldsRequest call.unread

/-- Each chunk, of the calls that count, ends one request at most. -/
def EndsOne (reqs : List WireText) (counts : MessageCall → Prop) (calls : List MessageCall) : Prop :=
  ∀ front call back, calls = front ++ call :: back → counts call →
    completed reqs (received (front ++ [call])).length ≤ completed reqs (received front).length + 1

theorem endsOne_append {counts : MessageCall → Prop} {calls : List MessageCall} {last : MessageCall} :
    EndsOne reqs counts (calls ++ [last]) ↔ EndsOne reqs counts calls ∧ (counts last →
      completed reqs (received (calls ++ [last])).length ≤ completed reqs (received calls).length + 1) := by
  constructor
  · intro h
    refine ⟨fun front call back eq => h front call (back ++ [last]) (by rw [eq]; simp), ?_⟩
    exact h calls last [] rfl
  · rintro ⟨before, now⟩ front call back eq
    rcases List.eq_nil_or_concat back with rfl | ⟨back, final, rfl⟩
    · obtain ⟨rfl, same⟩ := List.append_inj' eq rfl
      obtain rfl := List.singleton_inj.mp same
      exact now
    · rw [List.concat_eq_append, ← List.cons_append, ← List.append_assoc] at eq
      exact before front call back (List.append_inj' eq rfl).1

theorem answered_append {calls : List MessageCall} {last : MessageCall} :
    Answered (calls ++ [last]) ↔ Answered calls ∧ (last.connected = true → ¬ HoldsRequest last.unread) := by
  simp [Answered, or_imp, forall_and]

/-- Once it is not connected, the connection stays so. -/
def Ordered (s : HttpConnection) : Prop := s.connected = true → ∀ call ∈ s.calls, call.connected = true

theorem step_connected (inv : s.Inv) (step : s.step label = some (.ok s')) (h : s'.connected = true) :
    s.connected = true := by
  rw [connected, beq_iff_eq] at h ⊢
  cases step_effect inv.wf step with
  | quiet _ state => exact state.symm.trans h
  | ended _ state =>
    rcases state with down | ⟨other, same⟩
    · simp [down] at h
    · exact absurd (same.symm.trans h) other
  | message _ _ _ _ _ _ _ outcome =>
    obtain same | ⟨connected, _⟩ := outcome.state_cases
    · exact same.symm.trans h
    · exact connected

theorem reachable_ordered {guard : HttpConnection → Label → Prop} (h : httpConnection.Reachable guard s) :
    s.Ordered := by
  refine h.invariant ?_ ?_
  · intro a init _ call member
    obtain ⟨_, _, _, _, calls, _⟩ := initial_inv init
    simp [calls] at member
  · intro a label b reached before _ step connected call member
    have old := before (step_connected (reachable_inv reached) step connected)
    cases step_effect (reachable_inv reached).wf step with
    | quiet keeps _ => exact old call (keeps.calls ▸ member)
    | ended keeps _ => exact old call (keeps.calls ▸ member)
    | message chunk ok d _ parsed wf calls outcome =>
      rw [calls] at member
      rcases List.mem_append.mp member with earlier | now
      · exact old call earlier
      · rw [List.mem_singleton.mp now]
        exact connected

/-- What the calls of a run on a stream have done. -/
structure Served (reqs : List WireText) (s : HttpConnection) : Prop where
  serving : ∃ front back remaining, Serving reqs s front back remaining ∧
    (EndsOne reqs (fun _ => True) s.calls → front.length = completed reqs (received s.calls).length)
  answered : Answered s.calls ↔ EndsOne reqs (fun call => call.connected = true) s.calls

theorem message_served {chunk : List Byte} {ok : Bool} {d : HttpContext} (h : Served reqs s) (ordered : s.Ordered)
    (parsed : s.context.untimed.parse (s.unread ++ chunk) = .ok (ok, d, s'.unread)) (outcome : Outcome s s' ok d)
    (calls : s'.calls = s.calls ++ [⟨chunk, s'.connected, s'.unread⟩])
    (before : s'.connected = true → s.connected = true)
    (sent : received s'.calls <+: stream reqs) : Served reqs s' := by
  obtain ⟨front, back, remaining, serving, caught⟩ := h.serving
  have come : received s'.calls = received s.calls ++ chunk := by rw [calls, received_append]
  obtain ⟨front', back', remaining', serving', count, holds⟩ := message_serving serving parsed outcome come sent
  have least : front.length ≤ completed reqs (received s.calls).length := by
    rw [serving.completed]
    omega
  refine ⟨⟨front', back', remaining', serving', ?_⟩, ?_⟩
  · rw [calls, endsOne_append, ← calls]
    rintro ⟨earlier, now⟩
    have done := caught earlier
    have one := now trivial
    omega
  · rw [calls, answered_append, endsOne_append, ← calls, h.answered]
    refine and_congr_right fun earlier => imp_congr_right fun connected => ?_
    have still := ordered (before connected)
    have done := caught fun front call back eq _ =>
      earlier front call back eq (still call (eq ▸ by simp))
    rw [holds]
    omega

theorem Served.keeps (h : Served reqs s) (keeps : s.Keeps s') : Served reqs s' := by
  obtain ⟨⟨front, back, remaining, serving, caught⟩, answered⟩ := h
  rw [← keeps.calls] at caught answered
  refine ⟨⟨front, back, remaining, ⟨serving.split, ?_, ?_, ?_, ?_⟩, caught⟩, answered⟩
  · rw [dispatched, keeps.replies]
    exact serving.passed
  · rw [keeps.calls]
    exact serving.come
  · rw [keeps.context]
    exact serving.ready
  · rw [keeps.context, keeps.unread]
    exact serving.parsed

theorem initial_served (init : httpConnection.init s) : Served reqs s := by
  obtain ⟨_, _, _, context, calls, replies, unread⟩ := initial_inv init
  have serving : Serving reqs s [] reqs [] := by
    refine ⟨rfl, by simp [dispatched, replies], by simp [calls, received, stream], ?_, fun more => ?_⟩
    · rw [context]
      exact .inr ⟨rfl, rfl⟩
    · rw [context, unread]
      rfl
  refine ⟨⟨[], reqs, [], serving, fun _ => ?_⟩, ?_⟩
  · rw [calls]
    exact (HttpContext.completed_zero reqs).symm
  · rw [calls]
    exact iff_of_true (by simp [Answered]) fun front call back eq => by simp at eq

theorem reachable_served {guard : HttpConnection → Label → Prop} (h : httpConnection.Reachable guard s)
    (sent : received s.calls <+: stream reqs) : Served reqs s := by
  refine h.invariant (P := fun a => received a.calls <+: stream reqs → Served reqs a) ?_ ?_ sent
  · intro a init _
    exact initial_served init
  · intro a label b reached before _ step sent
    have inv := reachable_inv reached
    cases step_effect inv.wf step with
    | quiet keeps _ => exact (before (keeps.calls ▸ sent)).keeps keeps
    | ended keeps _ => exact (before (keeps.calls ▸ sent)).keeps keeps
    | message chunk ok d _ parsed wf calls outcome =>
      refine message_served (before ?_) (reachable_ordered reached) parsed outcome calls
        (step_connected inv step) sent
      refine List.IsPrefix.trans ?_ sent
      rw [calls, received_append]
      exact List.prefix_append _ _

/-- However a stream of requests is cut, every call that leaves the connection connected leaves no whole
request unread exactly when none of their chunks ends two; and as long as no chunk at all does, all requests
that have come are passed on. -/
theorem requests_answered (h : httpConnection.Reachable Lib.Machine.anyStep s) (reqs : List WireText)
    (sent : received s.calls <+: stream reqs) :
    (Answered s.calls ↔ EndsOne reqs (fun call => call.connected = true) s.calls) ∧
    (EndsOne reqs (fun _ => True) s.calls →
      s.dispatched.map (HttpRequest.setReceiveTime · 0) =
        (reqs.take (completed reqs (received s.calls).length)).map WireText.request ∧
      (received s.calls = stream reqs →
        s.dispatched.map (HttpRequest.setReceiveTime · 0) = reqs.map WireText.request)) := by
  obtain ⟨⟨front, back, remaining, serving, caught⟩, answered⟩ := reachable_served h sent
  refine ⟨answered, fun one => ?_⟩
  have count := caught one
  have passed : s.dispatched.map (HttpRequest.setReceiveTime · 0) =
      (reqs.take (completed reqs (received s.calls).length)).map WireText.request := by
    rw [serving.passed, ← count, serving.split, List.take_left]
  refine ⟨passed, fun all => ?_⟩
  rw [passed, all, HttpContext.completed_stream, List.take_length]

/-- Two requests that keep the connection. -/
def getTwice : List WireText :=
  [⟨ascii "GET /a HTTP/1.1\r\n\r\n", ascii "GET /a HTTP/1.1", [], rfl, ⟨_, rfl⟩, by simp, rfl⟩,
    ⟨ascii "GET /b HTTP/1.1\r\n\r\n", ascii "GET /b HTTP/1.1", [], rfl, ⟨_, rfl⟩, by simp, rfl⟩]

/-- The first request ends in one chunk, and the second in the other. -/
theorem requests_answered_apart :
    ∃ s, httpConnection.Reachable Lib.Machine.anyStep s ∧ received s.calls = stream getTwice ∧
      Answered s.calls ∧ s.dispatched.map (HttpRequest.setReceiveTime · 0) = getTwice.map WireText.request := by
  obtain ⟨s, reached, chunks⟩ := Lib.Machine.exec_reaches httpConnection Lib.Machine.anyStep opened
    (receives "GET /a HTTP/1.1\r\n\r\nGET" ++ receives " /b HTTP/1.1\r\n\r\n")
    (fun s => s.calls.map MessageCall.chunk = [ascii "GET /a HTTP/1.1\r\n\r\nGET", ascii " /b HTTP/1.1\r\n\r\n"])
    opened_init (by decide +kernel)
  have come : received s.calls = stream getTwice := by
    rw [received, chunks]
    rfl
  have one : EndsOne getTwice (fun _ => True) s.calls := by
    obtain ⟨first, rest, eq, chunk, chunks⟩ := List.map_eq_cons_iff.mp chunks
    obtain ⟨second, none, rfl, chunk', chunks⟩ := List.map_eq_cons_iff.mp chunks
    obtain rfl := List.map_eq_nil_iff.mp chunks
    rw [eq, show [first, second] = [] ++ [first] ++ [second] from rfl, endsOne_append, endsOne_append]
    refine ⟨⟨fun front call back eq => by simp at eq, fun _ => ?_⟩, fun _ => ?_⟩
    · rw [received_append, chunk]
      decide
    · rw [received_append, received_append, chunk, chunk']
      decide
  obtain ⟨answered, passed⟩ := requests_answered reached getTwice (by rw [come])
  refine ⟨s, reached, come, answered.mpr fun front call back eq _ => one front call back eq trivial, ?_⟩
  exact (passed one).2 come

/-- Two requests in one chunk: the second is not answered. -/
theorem second_request_waits :
    ¬ ∀ s reqs, httpConnection.Reachable Lib.Machine.anyStep s → received s.calls <+: stream reqs →
      Answered s.calls := by
  intro claim
  obtain ⟨s, reached, chunks, waits⟩ := Lib.Machine.exec_reaches httpConnection Lib.Machine.anyStep opened
    (receives "GET /a HTTP/1.1\r\n\r\nGET /b HTTP/1.1\r\n\r\n")
    (fun s => s.calls.map MessageCall.chunk = [stream getTwice] ∧
      ∃ call ∈ s.calls, call.connected = true ∧ call.unread = ascii "GET /b HTTP/1.1\r\n\r\n")
    opened_init (by decide +kernel)
  obtain ⟨call, member, connected, unread⟩ := waits
  have sent : received s.calls <+: stream getTwice := by
    rw [received, chunks, List.flatten_singleton]
  refine claim s getTwice reached sent call member connected ⟨getTwice[1], ?_⟩
  rw [unread]
  exact List.infix_rfl

end HttpConnection

end Dserver.Net
