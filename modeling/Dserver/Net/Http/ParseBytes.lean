import Dserver.Lib.Lines
import Dserver.Net.BufferQueue
import Dserver.Net.Http.HttpContext

/-!
# The parser on byte strings

`parse` is `parseRequest` on the unread bytes themselves, line by line, and without the receive time.
`parseRequest_parse` is the refinement; what is proved of `parse` then holds of the code.
-/

namespace Dserver.Net

namespace HttpContext

/-- The context without its receive time, which the parser never reads. -/
def untimed (c : HttpContext) : HttpContext := { c with request := c.request.setReceiveTime 0 }

/-- What one complete line does. -/
inductive LineResult where
  | next (c : HttpContext)
  | last (c : HttpContext)
  | refused (c : HttpContext)

/-- The loop is in one of the two states that look for a line. -/
def expects (c : HttpContext) : Prop := c.state = .kExpectRequestLine ∨ c.state = .kExpectHeaders

instance (c : HttpContext) : Decidable c.expects := inferInstanceAs (Decidable (_ ∨ _))

def takeRequestLine (c : HttpContext) (line : List Byte) : Except Fault LineResult := do
  let (ok, c) ← c.processRequestLine line
  if ok then .ok (.next { c with state := .kExpectHeaders }) else .ok (.refused c)

def takeHeader (c : HttpContext) (line : List Byte) : LineResult :=
  if 58 ∈ line then .next { c with request := c.request.addHeader line (line.idxOf 58) }
  else .last { c with state := .kGotAll }

def readLine (c : HttpContext) (line : List Byte) : Except Fault LineResult :=
  if c.state = .kExpectHeaders then .ok (c.takeHeader line) else c.takeRequestLine line

/-- The verdict, the context and the bytes left; a refused line is left too. -/
def parse (c : HttpContext) (bytes : List Byte) : Except Fault (Bool × HttpContext × List Byte) :=
  if c.expects then
    match _taken : Lib.takeLine bytes with
    | none => .ok (true, c, bytes)
    | some (line, rest) => do
      match ← c.readLine line with
      | .next c => parse c rest
      | .last c => .ok (true, c, rest)
      | .refused c => .ok (false, c, bytes)
  else .error .spins
termination_by bytes.length
decreasing_by
  have length := Lib.takeLine_length _taken
  omega

variable {c c' : HttpContext} {bytes line rest : List Byte} {ok : Bool}

theorem parse_spins (h : ¬ c.expects) : c.parse bytes = .error .spins := by
  rw [parse, if_neg h]

theorem parse_none (h : c.expects) (none : Lib.takeLine bytes = none) :
    c.parse bytes = .ok (true, c, bytes) := by
  rw [parse, if_pos h]
  split
  · rfl
  · rename_i found
    simp [none] at found

theorem parse_line (h : c.expects) (found : Lib.takeLine bytes = some (line, rest)) :
    c.parse bytes = c.readLine line >>= fun taken => match taken with
      | .next c => c.parse rest
      | .last c => .ok (true, c, rest)
      | .refused c => .ok (false, c, bytes) := by
  rw [parse, if_pos h]
  split
  · rename_i missing
    simp [found] at missing
  · rename_i line' rest' found'
    obtain ⟨rfl, rfl⟩ := Prod.mk.inj (Option.some.inj (found'.symm.trans found))
    rfl

/-! ### The receive time -/

theorem untimed_state (c : HttpContext) : c.untimed.state = c.state := rfl

theorem setMethod_untimed (r : HttpRequest) (m : List Byte) (t : Timestamp) :
    (r.setReceiveTime t).setMethod m = (r.setMethod m).map fun p => (p.1, p.2.setReceiveTime t) := by
  unfold HttpRequest.setMethod
  rw [show (r.setReceiveTime t).method = r.method from rfl]
  split <;> rfl

theorem processTarget_untimed (r : HttpRequest) (rest : List Byte) (t : Timestamp) :
    (r.setReceiveTime t).processTarget rest =
      ((r.processTarget rest).1, (r.processTarget rest).2.setReceiveTime t) := by
  unfold HttpRequest.processTarget
  dsimp only
  split_ifs <;> rfl

theorem processRequestLine_untimed (c : HttpContext) (line : List Byte) :
    c.untimed.processRequestLine line = (c.processRequestLine line).map fun p => (p.1, p.2.untimed) := by
  unfold processRequestLine
  dsimp only
  split
  · have method := setMethod_untimed c.request (line.take (line.idxOf 32)) 0
    cases set : c.request.setMethod (line.take (line.idxOf 32)) with
    | error fault =>
      rw [set] at method
      show (c.request.setReceiveTime 0).setMethod _ >>= _ = _
      rw [method]
      rfl
    | ok p =>
      obtain ⟨known, request⟩ := p
      rw [set] at method
      show (c.request.setReceiveTime 0).setMethod _ >>= _ = _
      rw [method]
      cases known with
      | false => rfl
      | true =>
        show Except.ok _ = Except.ok _
        rw [processTarget_untimed]
        rfl
  · rfl

/-! ### One turn of the loop -/

theorem searchCRLF_eq (i : Nat) (bytes : List Byte) :
    Buffer.searchCRLF i bytes = (Lib.takeLine bytes).map fun found => i + found.1.length := by
  induction bytes generalizing i with
  | nil => rfl
  | cons b tail ih =>
    cases tail with
    | nil => rfl
    | cons c tail =>
      by_cases found : b = 13 ∧ c = 10
      · rw [Buffer.searchCRLF, if_pos found, Lib.takeLine, if_pos found]
        rfl
      · rw [Buffer.searchCRLF, if_neg found, Lib.takeLine_cons_cons found, ih]
        simp only [Option.map_map, Function.comp_def, List.length_cons]
        congr 1
        funext p
        omega

theorem findCRLF_line {b : Buffer} (h : b.Wf) (found : Lib.takeLine b.readable = some (line, rest)) :
    b.findCRLF = some (b.readerIndex + line.length) ∧
    HttpContext.line b (b.readerIndex + line.length) = line ∧
    ∃ b', b.retrieveUntil (b.readerIndex + line.length + 2) = .ok b' ∧ b'.Wf ∧ b'.readable = rest ∧
      b'.writerIndex ≤ b.writerIndex := by
  have split := Lib.takeLine_eq found
  have length := Lib.takeLine_length found
  rw [h.length_readable, h.readableBytes] at length
  have reader := h.reader_le
  refine ⟨?_, ?_, ?_⟩
  · rw [Buffer.findCRLF, searchCRLF_eq, found]
    rfl
  · rw [HttpContext.line, Nat.add_sub_cancel_left, split, List.append_assoc, List.take_left]
  · obtain ⟨b', ran, wf, dropped⟩ := Buffer.retrieveUntil_spec h
      (show b.readerIndex ≤ b.readerIndex + line.length + 2 by omega) (by omega)
    refine ⟨b', ran, wf, ?_, ?_⟩
    · rw [dropped, split, show b.readerIndex + line.length + 2 - b.readerIndex = (line ++ Lib.crlf).length by
        simp only [Lib.crlf, List.length_append, List.length_cons, List.length_nil]; omega, List.drop_left]
    · rw [Buffer.retrieveUntil] at ran
      split at ran
      · exact Buffer.retrieve_writer h ran
      · cases ran

theorem findCRLF_none {b : Buffer} (none : Lib.takeLine b.readable = none) : b.findCRLF = .none := by
  rw [Buffer.findCRLF, searchCRLF_eq, none]
  rfl

/-- What a line does on the bytes is what a turn of the loop does on the buffer. -/
def LineResult.Turned (b b' : Buffer) : Except Fault LineResult → Except Fault Turn → Prop
  | .error fault, turn => turn = .error fault
  | .ok (.next d), turn => ∃ c, turn = .ok ⟨true, true, c, b'⟩ ∧ c.untimed = d
  | .ok (.last d), turn => ∃ c, turn = .ok ⟨true, false, c, b'⟩ ∧ c.untimed = d
  | .ok (.refused d), turn => ∃ c, turn = .ok ⟨false, false, c, b⟩ ∧ c.untimed = d

theorem parseTurn_requestLine {b b' : Buffer} {t : Timestamp} {crlf : Nat}
    (state : c.state = .kExpectRequestLine) (found : b.findCRLF = some crlf)
    (taken : HttpContext.line b crlf = line) (retrieved : b.retrieveUntil (crlf + 2) = .ok b') :
    LineResult.Turned b b' (c.untimed.takeRequestLine line) (c.parseTurn b t) := by
  unfold parseTurn takeRequestLine
  rw [state, processRequestLine_untimed]
  simp only [found, taken]
  cases processed : c.processRequestLine line with
  | error fault => rfl
  | ok p =>
    obtain ⟨ok, d⟩ := p
    cases ok with
    | false => exact ⟨d, rfl, rfl⟩
    | true => exact ⟨_, by rw [retrieved]; rfl, rfl⟩

theorem parseTurn_header {b b' : Buffer} {t : Timestamp} {crlf : Nat}
    (state : c.state = .kExpectHeaders) (found : b.findCRLF = some crlf)
    (taken : HttpContext.line b crlf = line) (retrieved : b.retrieveUntil (crlf + 2) = .ok b') :
    LineResult.Turned b b' (.ok (c.untimed.takeHeader line)) (c.parseTurn b t) := by
  unfold parseTurn takeHeader
  rw [state]
  simp only [found, taken, retrieved]
  by_cases colon : 58 ∈ line
  · have inside : line.idxOf 58 ≠ line.length := Nat.ne_of_lt (List.idxOf_lt_length_of_mem colon)
    rw [if_pos colon, if_pos inside]
    exact ⟨_, rfl, by rw [untimed_state, state]; rfl⟩
  · have outside : ¬ line.idxOf 58 ≠ line.length := by simpa using List.idxOf_eq_length colon
    rw [if_neg colon, if_neg outside]
    exact ⟨_, rfl, rfl⟩

theorem parseTurn_line {b : Buffer} {t : Timestamp} (h : b.Wf) (expects : c.expects)
    (found : Lib.takeLine b.readable = some (line, rest)) :
    ∃ b', b'.Wf ∧ b'.readable = rest ∧ b'.writerIndex ≤ b.writerIndex ∧
      LineResult.Turned b b' (c.untimed.readLine line) (c.parseTurn b t) := by
  obtain ⟨crlf, eq, b', retrieved, wf, left, writer⟩ := findCRLF_line h found
  refine ⟨b', wf, left, writer, ?_⟩
  unfold readLine
  rw [untimed_state]
  rcases expects with state | state
  · rw [if_neg (by simp [state])]
    exact parseTurn_requestLine state crlf eq retrieved
  · rw [if_pos state]
    exact parseTurn_header state crlf eq retrieved

theorem parseTurn_none {b : Buffer} {t : Timestamp} (expects : c.expects)
    (none : Lib.takeLine b.readable = none) : c.parseTurn b t = .ok ⟨true, false, c, b⟩ := by
  unfold parseTurn
  rcases expects with state | state <;> rw [state, findCRLF_none none]

/-! ### The whole loop -/

/-- What `parse` gives on the bytes is what the loop gives on the buffer. -/
def Parsed (b : Buffer) : Except Fault (Bool × HttpContext × List Byte) →
    Except Fault (Bool × HttpContext × Buffer) → Prop
  | .error fault, result => result = .error fault
  | .ok (ok, d, rest), result => ∃ c b', result = .ok (ok, c, b') ∧ c.untimed = d ∧ b'.Wf ∧
      b'.readable = rest ∧ b'.writerIndex ≤ b.writerIndex

theorem Parsed.mono {b b' : Buffer} {bytes : Except Fault (Bool × HttpContext × List Byte)}
    {result : Except Fault (Bool × HttpContext × Buffer)} (le : b'.writerIndex ≤ b.writerIndex)
    (h : Parsed b' bytes result) : Parsed b bytes result := by
  match bytes with
  | .error fault => exact h
  | .ok (ok, d, rest) =>
    obtain ⟨c, b'', ran, same, wf, left, writer⟩ := h
    exact ⟨c, b'', ran, same, wf, left, Nat.le_trans writer le⟩

theorem parseLoop_spins {t : Timestamp} {fuel : Nat} {b : Buffer} (h : ¬ c.expects) :
    parseLoop t fuel c b = .error .spins := by
  induction fuel with
  | zero => rfl
  | succ fuel ih =>
    have turn : c.parseTurn b t = .ok ⟨true, true, c, b⟩ := by
      unfold parseTurn
      cases state : c.state with
      | kExpectRequestLine => exact absurd (.inl state) h
      | kExpectHeaders => exact absurd (.inr state) h
      | kExpectBody | kGotAll => rfl
    rw [parseLoop, turn]
    exact ih

theorem parseLoop_parse {t : Timestamp} {fuel : Nat} {b : Buffer} (h : b.Wf)
    (enough : b.readable.length < fuel) : Parsed b (c.untimed.parse b.readable) (parseLoop t fuel c b) := by
  induction fuel generalizing c b with
  | zero => omega
  | succ fuel ih =>
    by_cases expects : c.expects
    · cases found : Lib.takeLine b.readable with
      | none =>
        rw [parse_none (c := c.untimed) expects found, parseLoop, parseTurn_none expects found]
        exact ⟨c, b, rfl, rfl, h, rfl, Nat.le_refl _⟩
      | some p =>
        obtain ⟨line, rest⟩ := p
        obtain ⟨b', wf, left, writer, turned⟩ := parseTurn_line (t := t) h expects found
        rw [parse_line (c := c.untimed) expects found, parseLoop]
        cases read : c.untimed.readLine line with
        | error fault =>
          rw [read] at turned
          rw [show c.parseTurn b t = .error fault from turned]
          rfl
        | ok result =>
          rw [read] at turned
          cases result with
          | next d =>
            obtain ⟨c', turn, same⟩ := turned
            rw [turn]
            have shorter := Lib.takeLine_length found
            have again := ih (c := c') wf (by rw [left]; omega)
            rw [same, left] at again
            exact again.mono writer
          | last d =>
            obtain ⟨c', turn, same⟩ := turned
            rw [turn]
            exact ⟨c', b', rfl, same, wf, left, writer⟩
          | refused d =>
            obtain ⟨c', turn, same⟩ := turned
            rw [turn]
            exact ⟨c', b, rfl, same, h, rfl, Nat.le_refl _⟩
    · rw [parse_spins (c := c.untimed) expects, parseLoop_spins expects]
      rfl

theorem parseRequest_parse {b : Buffer} (h : b.Wf) (t : Timestamp) :
    Parsed b (c.untimed.parse b.readable) (c.parseRequest b t) := by
  refine parseLoop_parse h ?_
  rw [h.length_readable]
  exact Nat.lt_succ_self _

/-! ### Bytes that arrive later -/

/-- A context that `parse` can go on from: no method has been set on a request line still to come. -/
def ready (c : HttpContext) : Prop :=
  c.state = .kExpectHeaders ∨ (c.state = .kExpectRequestLine ∧ c.request.method = .kInvalid)

theorem ready.expects (h : c.ready) : c.expects := by
  rcases h with state | ⟨state, _⟩
  · exact .inr state
  · exact .inl state

theorem processRequestLine_ready (line : List Byte) (invalid : c.request.method = .kInvalid) :
    ∃ ok d, c.processRequestLine line = .ok (ok, d) ∧ d.state = c.state := by
  unfold processRequestLine
  dsimp only
  split
  · rw [HttpRequest.setMethod, if_pos invalid]
    cases known : HttpRequest.methodOf (line.take (line.idxOf 32)) != .kInvalid with
    | true => exact ⟨_, _, rfl, rfl⟩
    | false => exact ⟨_, _, rfl, rfl⟩
  · exact ⟨_, _, rfl, rfl⟩

/-- A line read by a ready context fails no assertion, and unless it ends the parse the context that
follows is ready too. -/
theorem readLine_ready (line : List Byte) (h : c.ready) :
    (∃ d, c.readLine line = .ok (.next d) ∧ d.ready) ∨
    (∃ d, c.readLine line = .ok (.last d) ∧ d.gotAll = true) ∨
    (∃ d, c.readLine line = .ok (.refused d)) := by
  unfold readLine
  rcases h with state | ⟨state, invalid⟩
  · rw [if_pos state]
    unfold takeHeader
    split
    · exact .inl ⟨_, rfl, .inl state⟩
    · exact .inr (.inl ⟨_, rfl, rfl⟩)
  · rw [if_neg (by simp [state]), takeRequestLine]
    obtain ⟨ok, d, processed, _⟩ := processRequestLine_ready line invalid
    rw [processed]
    cases ok with
    | true => exact .inl ⟨_, rfl, .inl rfl⟩
    | false => exact .inr (.inr ⟨d, rfl⟩)

/-- What a ready context parses: everything, a whole request, or up to a refused line; and what the same
bytes give when more follow. -/
theorem parse_ready (h : c.ready) (bytes : List Byte) :
    (∃ d rest, c.parse bytes = .ok (true, d, rest) ∧ d.ready ∧
      ∀ more, c.parse (bytes ++ more) = d.parse (rest ++ more)) ∨
    (∃ ok d rest, c.parse bytes = .ok (ok, d, rest) ∧ (ok && !d.gotAll) = false ∧
      ∀ more, c.parse (bytes ++ more) = .ok (ok, d, rest ++ more)) := by
  induction size : bytes.length using Nat.strongRecOn generalizing c bytes with
  | ind n ih =>
    cases found : Lib.takeLine bytes with
    | none => exact .inl ⟨c, bytes, parse_none h.expects found, h, fun _ => rfl⟩
    | some p =>
      obtain ⟨line, rest⟩ := p
      have longer := fun more => Lib.takeLine_append more found
      rw [parse_line h.expects found]
      simp only [fun more => parse_line h.expects (longer more)]
      obtain ⟨d, read, ready⟩ | ⟨d, read, all⟩ | ⟨d, read⟩ := readLine_ready line h
      · have shorter := Lib.takeLine_length found
        rw [read]
        exact ih rest.length (by omega) ready rest rfl
      · rw [read]
        exact .inr ⟨true, d, rest, rfl, by rw [all]; rfl, fun _ => rfl⟩
      · rw [read]
        exact .inr ⟨false, d, bytes, rfl, rfl, fun _ => rfl⟩

theorem ready.not_gotAll (h : c.ready) : c.gotAll = false := by
  rcases h with state | ⟨state, _⟩ <;> simp [gotAll, state]

theorem processRequestLine_state {d : HttpContext} (h : c.processRequestLine line = .ok (ok, d)) :
    d.state = c.state := by
  unfold processRequestLine at h
  dsimp only at h
  split at h
  · obtain ⟨⟨known, request⟩, _, h⟩ := Lib.bind_ok h
    dsimp only at h
    split at h
    · obtain ⟨-, rfl⟩ := Prod.mk.inj (Except.ok.inj h)
      rfl
    · obtain ⟨-, rfl⟩ := Prod.mk.inj (Except.ok.inj h)
      rfl
  · obtain ⟨-, rfl⟩ := Prod.mk.inj (Except.ok.inj h)
    rfl

theorem readLine_last {d : HttpContext} (h : c.readLine line = .ok (.last d)) : d.gotAll = true := by
  unfold readLine at h
  split at h
  · unfold takeHeader at h
    split at h
    · cases h
    · obtain rfl := LineResult.last.inj (Except.ok.inj h)
      rfl
  · obtain ⟨⟨ok, d'⟩, _, h⟩ := Lib.bind_ok h
    cases ok <;> cases h

theorem readLine_refused {d : HttpContext} (h : c.readLine line = .ok (.refused d)) :
    c.state ≠ .kExpectHeaders ∧ c.processRequestLine line = .ok (false, d) := by
  unfold readLine at h
  split at h
  · unfold takeHeader at h
    split at h <;> cases h
  · rename_i state
    obtain ⟨⟨ok, d'⟩, processed, h⟩ := Lib.bind_ok h
    cases ok with
    | true => cases h
    | false =>
      obtain rfl := LineResult.refused.inj (Except.ok.inj h)
      exact ⟨state, processed⟩

theorem readLine_next {d : HttpContext} (h : c.readLine line = .ok (.next d)) : d.state = .kExpectHeaders := by
  unfold readLine at h
  split at h
  · rename_i state
    unfold takeHeader at h
    split at h
    · obtain rfl := LineResult.next.inj (Except.ok.inj h)
      exact state
    · cases h
  · obtain ⟨⟨ok, d'⟩, _, h⟩ := Lib.bind_ok h
    cases ok with
    | true =>
      obtain rfl := LineResult.next.inj (Except.ok.inj h)
      rfl
    | false => cases h

/-- How `parse` ends: with no complete line left, behind a whole request, or in front of a request line
that it refuses, which can only be the first line. -/
theorem parse_cases {d : HttpContext} (h : c.parse bytes = .ok (ok, d, rest)) :
    (ok = true ∧ d.expects ∧ Lib.takeLine rest = none) ∨ (ok = true ∧ d.gotAll = true) ∨
    (ok = false ∧ rest = bytes ∧ c.state = .kExpectRequestLine ∧ ∃ line behind,
      Lib.takeLine bytes = some (line, behind) ∧ c.processRequestLine line = .ok (false, d)) := by
  induction size : bytes.length using Nat.strongRecOn generalizing c bytes with
  | ind n ih =>
    by_cases expects : c.expects
    · cases found : Lib.takeLine bytes with
      | none =>
        rw [parse_none expects found] at h
        obtain ⟨rfl, rfl, rfl⟩ := Lib.ok_inj_triple h
        exact .inl ⟨rfl, expects, found⟩
      | some p =>
        obtain ⟨line, behind⟩ := p
        rw [parse_line expects found] at h
        obtain ⟨result, read, h⟩ := Lib.bind_ok h
        cases result with
        | next c' =>
          have shorter := Lib.takeLine_length found
          obtain more | all | ⟨_, _, state, _⟩ := ih behind.length (by omega) h rfl
          · exact .inl more
          · exact .inr (.inl all)
          · rw [readLine_next read] at state
            cases state
        | last c' =>
          obtain ⟨rfl, rfl, rfl⟩ := Lib.ok_inj_triple h
          exact .inr (.inl ⟨rfl, readLine_last read⟩)
        | refused c' =>
          obtain ⟨rfl, rfl, rfl⟩ := Lib.ok_inj_triple h
          obtain ⟨other, processed⟩ := readLine_refused read
          exact .inr (.inr ⟨rfl, rfl, expects.resolve_right other, line, behind, rfl, processed⟩)
    · rw [parse_spins expects] at h
      cases h

theorem parse_refused_state {d : HttpContext} (h : c.parse bytes = .ok (false, d, rest)) :
    d.state = .kExpectRequestLine := by
  obtain ⟨wrong, -⟩ | ⟨wrong, -⟩ | ⟨-, -, state, line, behind, _, processed⟩ := parse_cases h
  · cases wrong
  · cases wrong
  · rw [processRequestLine_state processed, state]

theorem processRequestLine_space {d : HttpContext} (invalid : c.request.method = .kInvalid)
    (h : c.processRequestLine line = .ok (ok, d)) (set : d.request.method ≠ .kInvalid) : 32 ∈ line := by
  by_contra none
  unfold processRequestLine at h
  dsimp only at h
  rw [if_neg (by simpa using List.idxOf_eq_length none)] at h
  obtain ⟨-, rfl⟩ := Prod.mk.inj (Except.ok.inj h)
  exact set invalid

theorem parse_setMethod (state : c.state = .kExpectRequestLine) (set : c.request.method ≠ .kInvalid)
    (found : Lib.takeLine bytes = some (line, rest)) (space : 32 ∈ line) :
    c.parse bytes = .error .setMethod := by
  have inside : line.idxOf 32 ≠ line.length := Nat.ne_of_lt (List.idxOf_lt_length_of_mem space)
  have fails : c.processRequestLine line = .error .setMethod := by
    unfold processRequestLine
    dsimp only
    rw [if_pos inside, HttpRequest.setMethod, if_neg set]
    rfl
  rw [parse_line (.inl state) found, readLine, if_neg (by simp [state]), takeRequestLine, fails]
  rfl

inductive Verdict where
  | error | complete | moreNeeded
  deriving DecidableEq, Repr

def verdict (ok : Bool) (c : HttpContext) : Verdict :=
  if ok then (if c.gotAll then .complete else .moreNeeded) else .error

structure Delivery where
  ok : Bool
  context : HttpContext
  buffer : Buffer
  undelivered : List Byte

/-- The chunks appended one by one, each with a call of `parseRequest`, up to the first call that
returns false or completes the request. -/
def deliver (c : HttpContext) (b : Buffer) : List (Timestamp × List Byte) → Except Fault Delivery
  | [] => .ok ⟨true, c, b, []⟩
  | (receiveTime, chunk) :: chunks => do
    let b ← onBuffer (b.append chunk)
    let (ok, c, b) ← c.parseRequest b receiveTime
    if ok && !c.gotAll then deliver c b chunks
    else .ok ⟨ok, c, b, (chunks.map Prod.snd).flatten⟩

theorem deliver_cons {b b₁ b₂ : Buffer} {t : Timestamp} {chunk : List Byte}
    {chunks : List (Timestamp × List Byte)} (appended : b.append chunk = .ok b₁)
    (called : c.parseRequest b₁ t = .ok (ok, c', b₂)) :
    deliver c b ((t, chunk) :: chunks) = if ok && !c'.gotAll then deliver c' b₂ chunks
      else .ok ⟨ok, c', b₂, (chunks.map Prod.snd).flatten⟩ := by
  rw [deliver, appended, onBuffer_ok, Lib.ok_bind, called, Lib.ok_bind]

/-- `deliver` on a buffer with nothing more to take gives what `parse` gives on all the bytes. -/
theorem deliver_parse (chunks : List (Timestamp × List Byte)) {b : Buffer} (h : b.Wf) (ready : c.ready)
    (taken : c.untimed.parse b.readable = .ok (true, c.untimed, b.readable))
    (room : b.writerIndex + (chunks.map Prod.snd).flatten.length ≤ maxSize) :
    ∃ d, deliver c b chunks = .ok d ∧
      c.untimed.parse (b.readable ++ (chunks.map Prod.snd).flatten) =
        .ok (d.ok, d.context.untimed, d.buffer.readable ++ d.undelivered) := by
  induction chunks generalizing c b with
  | nil => exact ⟨⟨true, c, b, []⟩, rfl, by simpa using taken⟩
  | cons first chunks ih =>
    obtain ⟨t, chunk⟩ := first
    simp only [List.map_cons, List.flatten_cons, List.length_append] at room ⊢
    obtain ⟨b₁, appended, wf₁, added, writer₁⟩ :=
      Buffer.append_room h (show b.writerIndex + chunk.length ≤ maxSize by omega)
    have parsed := parseRequest_parse (c := c) wf₁ t
    rw [← List.append_assoc, ← added]
    obtain ⟨e, rest, ran, ready', later⟩ | ⟨ok, e, rest, ran, ended, later⟩ :=
      parse_ready (c := c.untimed) ready b₁.readable
    · rw [ran] at parsed
      obtain ⟨c', b₂, called, rfl, wf₂, rfl, writer₂⟩ := parsed
      have again : c'.untimed.parse b₂.readable = .ok (true, c'.untimed, b₂.readable) := by
        have none := later []
        rwa [List.append_nil, List.append_nil, ran, eq_comm] at none
      obtain ⟨d, rest, all⟩ := ih (c := c') wf₂ ready' again (by omega)
      refine ⟨d, ?_, (later _).trans all⟩
      have continues : (true && !c'.gotAll) = true := by
        rw [show c'.gotAll = false from ready'.not_gotAll]
        rfl
      rw [deliver_cons appended called, if_pos continues]
      exact rest
    · rw [ran] at parsed
      obtain ⟨c', b₂, called, rfl, wf₂, rfl, writer₂⟩ := parsed
      refine ⟨⟨ok, c', b₂, (chunks.map Prod.snd).flatten⟩, ?_, later _⟩
      have stops : ¬ (ok && !c'.gotAll) = true := by
        rw [show (ok && !c'.gotAll) = false from ended]
        simp
      rw [deliver_cons appended called, if_neg stops]

/-- Parsing does not depend on how the stream is cut: the chunks one by one give the verdict, the state
and the request that the whole string gives, and leave the same bytes. -/
theorem parse_any_cut (chunks : List (Timestamp × List Byte)) (t : Timestamp)
    (fits : Buffer.kCheapPrepend + (chunks.map Prod.snd).flatten.length ≤ maxSize) :
    ∃ d b ok c b', deliver {} (Buffer.make Buffer.kInitialSize) chunks = .ok d ∧
      (Buffer.make Buffer.kInitialSize).append (chunks.map Prod.snd).flatten = .ok b ∧
      ({} : HttpContext).parseRequest b t = .ok (ok, c, b') ∧
      verdict d.ok d.context = verdict ok c ∧
      d.context.state = c.state ∧
      d.context.request.method = c.request.method ∧
      d.context.request.path = c.request.path ∧
      d.context.request.query = c.request.query ∧
      d.context.request.version = c.request.version ∧
      d.context.request.headers = c.request.headers ∧
      d.buffer.readable ++ d.undelivered = b'.readable := by
  have wf : (Buffer.make Buffer.kInitialSize).Wf := Buffer.make_wf (by decide)
  have empty := Buffer.make_readable Buffer.kInitialSize
  have room : (Buffer.make Buffer.kInitialSize).writerIndex + (chunks.map Prod.snd).flatten.length
      ≤ maxSize := fits
  obtain ⟨d, delivered, all⟩ := deliver_parse (c := {}) chunks wf (.inr ⟨rfl, rfl⟩)
    (by rw [empty]; exact parse_none (.inl rfl) rfl) room
  obtain ⟨b, appended, wf', added, _⟩ := Buffer.append_room wf room
  have parsed := parseRequest_parse (c := {}) wf' t
  rw [added, empty, List.nil_append] at parsed
  rw [empty, List.nil_append] at all
  rw [show ({} : HttpContext).untimed.parse _ = _ from all] at parsed
  obtain ⟨c, b', called, same, _, left, _⟩ := parsed
  have state : c.state = d.context.state := by
    simpa only [untimed_state] using congrArg HttpContext.state same
  have request : c.request.setReceiveTime 0 = d.context.request.setReceiveTime 0 :=
    congrArg HttpContext.request same
  refine ⟨d, b, d.ok, c, b', delivered, appended, called, ?_, state.symm, ?_, ?_, ?_, ?_, ?_, left.symm⟩
  · rw [verdict, verdict, gotAll, gotAll, state]
  · exact (congrArg HttpRequest.method request).symm
  · exact (congrArg HttpRequest.path request).symm
  · exact (congrArg HttpRequest.query request).symm
  · exact (congrArg HttpRequest.version request).symm
  · exact (congrArg HttpRequest.headers request).symm

/-- A CR and its LF arrive apart. -/
theorem parse_any_cut_crlf :
    ∃ d b ok c b',
      deliver {} (Buffer.make Buffer.kInitialSize)
        [(1, ascii "GET /a?b HT"), (2, ascii "TP/1.0\r"), (3, ascii "\nHost : x \r\n\r"), (4, ascii "\nrest")]
        = .ok d ∧
      (Buffer.make Buffer.kInitialSize).append (ascii "GET /a?b HTTP/1.0\r\nHost : x \r\n\r\nrest") = .ok b ∧
      ({} : HttpContext).parseRequest b 5 = .ok (ok, c, b') ∧ verdict ok c = .complete ∧
      verdict d.ok d.context = .complete ∧ d.context.request.headers = c.request.headers := by
  obtain ⟨d, b, ok, c, b', delivered, appended, called, same, _, _, _, _, _, headers, _⟩ := parse_any_cut
    [(1, ascii "GET /a?b HT"), (2, ascii "TP/1.0\r"), (3, ascii "\nHost : x \r\n\r"), (4, ascii "\nrest")]
    5 (by decide)
  have complete : (deliver {} (Buffer.make Buffer.kInitialSize)
      [(1, ascii "GET /a?b HT"), (2, ascii "TP/1.0\r"), (3, ascii "\nHost : x \r\n\r"),
        (4, ascii "\nrest")]).toOption.map (fun d => verdict d.ok d.context) = some .complete := by
    decide +kernel
  rw [delivered] at complete
  have complete : verdict d.ok d.context = .complete := Option.some.inj complete
  exact ⟨d, b, ok, c, b', delivered, appended, called, same ▸ complete, complete, headers⟩

end HttpContext

end Dserver.Net
