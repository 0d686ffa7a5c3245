import Dserver.Net.Http.Replies

/-!
# The parser comes to an end

The loop of `parseRequest` moves on only from the states that look for a line, and takes a line off the buffer
in each turn that is followed by another. `onMessage` leaves the context in one of these states: a complete
request is reset before the next call.
-/

namespace Dserver.Net

namespace HttpContext

variable {c : HttpContext} {bytes line : List Byte} {t : Timestamp} {b : Buffer}

theorem processRequestLine_spins : c.processRequestLine line ≠ .error .spins := by
  intro h
  unfold processRequestLine at h
  dsimp only at h
  split at h
  · rcases Lib.bind_error h with failed | ⟨⟨known, request⟩, _, h⟩
    · unfold HttpRequest.setMethod at failed
      split at failed <;> cases failed
    · dsimp only at h
      split at h <;> cases h
  · cases h

theorem readLine_spins : c.readLine line ≠ .error .spins := by
  intro h
  unfold readLine takeRequestLine at h
  split at h
  · cases h
  · rcases Lib.bind_error h with failed | ⟨⟨ok, d⟩, _, h⟩
    · exact processRequestLine_spins failed
    · dsimp only at h
      split at h <;> cases h

theorem parse_ends (h : c.expects) : c.parse bytes ≠ .error .spins := by
  -- the bytes that are left get fewer with every line
  induction length : bytes.length using Nat.strongRecOn generalizing c bytes with
  | _ n ih =>
    cases found : Lib.takeLine bytes with
    | none =>
      rw [parse_none h found]
      nofun
    | some p =>
      obtain ⟨line, rest⟩ := p
      have shorter := Lib.takeLine_length found
      rw [parse_line h found]
      intro spins
      rcases Lib.bind_error spins with failed | ⟨taken, read, spins⟩
      · exact readLine_spins failed
      · cases taken with
        | next d =>
          have expects : d.expects := .inr (readLine_next read)
          exact ih rest.length (by omega) expects rfl spins
        | last d => cases spins
        | refused d => cases spins

theorem parseLoop_ends {fuel : Nat} (wf : b.Wf) (h : c.expects) (enough : b.readableBytes < fuel) :
    parseLoop t fuel c b ≠ .error .spins := by
  have bytes : Parsed b (c.untimed.parse b.readable) (parseLoop t fuel c b) :=
    parseLoop_parse wf (by rw [wf.length_readable]; exact enough)
  have looks : c.untimed.expects := h
  have ends : c.untimed.parse b.readable ≠ .error .spins := parse_ends looks
  intro spins
  cases ran : c.untimed.parse b.readable with
  | error fault =>
    rw [ran] at bytes ends
    have same : parseLoop t fuel c b = .error fault := bytes
    exact ends (congrArg _ (Except.error.inj (same.symm.trans spins)))
  | ok p =>
    obtain ⟨ok, d, rest⟩ := p
    rw [ran] at bytes
    obtain ⟨_, _, same, _⟩ := bytes
    cases same.symm.trans spins

theorem parseLoop_succ (fuel : Nat) : parseLoop t (fuel + 1) c b = c.parseTurn b t >>= fun turn =>
    if turn.hasMore then parseLoop t fuel turn.context turn.buffer
    else .ok (turn.ok, turn.context, turn.buffer) := rfl

theorem parseLoop_more {fuel : Nat} (ends : parseLoop t fuel c b ≠ .error .spins) :
    parseLoop t (fuel + 1) c b = parseLoop t fuel c b := by
  induction fuel generalizing c b with
  | zero => exact absurd rfl ends
  | succ fuel ih =>
    rw [parseLoop_succ] at ends
    rw [parseLoop_succ, parseLoop_succ]
    cases turn : c.parseTurn b t with
    | error fault => rfl
    | ok next =>
      rw [turn, Lib.ok_bind] at ends
      rw [Lib.ok_bind, Lib.ok_bind]
      by_cases more : next.hasMore
      · rw [if_pos more] at ends ⊢
        rw [if_pos more]
        exact ih ends
      · rw [if_neg more, if_neg more]

/-- The number of turns that `parseRequest` is modelled with is enough. -/
theorem parseLoop_enough {fuel : Nat} (wf : b.Wf) (h : c.expects) (enough : b.readableBytes < fuel) :
    parseLoop t fuel c b = c.parseRequest b t := by
  induction fuel, enough using Nat.le_induction with
  | base => rfl
  | succ fuel enough ih => rw [parseLoop_more (parseLoop_ends wf h enough), ih]

end HttpContext

namespace HttpConnection

open HttpContext

variable {s : HttpConnection}

/-- `parseRequest` is called in a state that looks for a line, in which its loop ends on any buffer, and so no
message keeps the IO thread; in the other two states the loop would not end. -/
theorem parser_ends (h : httpConnection.Reachable Lib.Machine.anyStep s) :
    s.context.expects ∧
      (∀ result t httpCallback r, s.step (.handleRead result t httpCallback r) ≠ some (.error (.context .spins))) ∧
      ∀ (c : HttpContext) (b : Buffer) (t : Timestamp), b.Wf →
        (c.expects → c.parseRequest b t ≠ .error .spins ∧
          ∀ fuel, b.readableBytes < fuel → parseLoop t fuel c b = c.parseRequest b t) ∧
        (¬ c.expects → ∀ fuel, parseLoop t fuel c b = .error .spins) := by
  have inv := reachable_inv h
  refine ⟨inv.expects, fun result t httpCallback r failed => ?_, fun c b t wf => ⟨fun expects => ?_, fun other fuel => ?_⟩⟩
  · obtain ⟨_, _, _, _, _, _, spins⟩ := step_context inv.wf failed
    have looks : s.context.untimed.expects := inv.expects
    exact parse_ends looks spins
  · exact ⟨parseLoop_ends wf expects (Nat.lt_succ_self _), fun fuel enough => parseLoop_enough wf expects enough⟩
  · exact parseLoop_spins other

/-- A request of which one header has come. -/
theorem parser_ends_in_headers :
    ∃ s, httpConnection.Reachable Lib.Machine.anyStep s ∧ s.context.state = .kExpectHeaders ∧
      ∀ result t httpCallback r, s.step (.handleRead result t httpCallback r) ≠ some (.error (.context .spins)) := by
  obtain ⟨s, reachable, state⟩ := Lib.Machine.exec_reaches httpConnection Lib.Machine.anyStep opened
    (receives "GET / HTTP/1.1\r\nHost: x\r\n") (fun s => s.context.state = .kExpectHeaders) opened_init
    (by decide +kernel)
  exact ⟨s, reachable, state, (parser_ends reachable).2.1⟩

end HttpConnection

end Dserver.Net
