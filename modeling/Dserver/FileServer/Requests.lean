import Dserver.FileServer.ClientRequests

/-!
# The whole call

The result of `onMessage` is decided at the last point it reaches: there the handler returns, a fault ends it, or it waits
for data that only its own thread could read.
-/

namespace Dserver.FileServer

open Net

variable {env : Env} {b : Buffer} {s : State} {p q : Point}

/-! ### Points -/

theorem behind_shorter (framed : p.Framed) : (behind p.bytes).length < p.bytes.length := by
  have four := framed.complete.1
  have nonneg := framed.nonneg
  rw [behind, List.length_drop]
  omega

theorem behind_le (bytes : List Byte) : (behind bytes).length ≤ bytes.length := by
  rw [behind, List.length_drop]
  exact Nat.sub_le _ _

theorem Next.shorter (next : Next env p q) : q.bytes.length < p.bytes.length := by
  cases next with
  | upload sound opened =>
    dsimp only [Point.uploaded]
    exact Nat.lt_of_le_of_lt (behind_le _) (behind_shorter (sound.framed opened.1))
  | refuse sound complete =>
    dsimp only [Point.answered]
    exact behind_shorter (sound.framed complete)
  | download sound opened =>
    dsimp only [Point.answered]
    exact behind_shorter (sound.framed opened.1)
  | other sound complete =>
    dsimp only
    exact behind_shorter (sound.framed complete)

theorem Next.complete (next : Next env p q) : Complete p.bytes := by
  cases next with
  | upload _ opened => exact opened.1
  | refuse _ complete => exact complete
  | download _ opened => exact opened.1
  | other _ complete => exact complete

theorem Next.of_upload (asked : IsUpload p.request) (next : Next env p q) : q = p.uploaded env := by
  cases next with
  | upload => rfl
  | refuse _ _ other => exact absurd other (not_download_of_upload asked)
  | download _ opened => exact absurd opened.2.1 (not_download_of_upload asked)
  | other _ _ notUpload => exact absurd asked notUpload

theorem Next.of_download {content : List Byte} (opened : p.Downloads env content) (next : Next env p q) :
    q = p.answered (replies content) := by
  obtain ⟨_, asked, granted, _, file⟩ := opened
  cases next with
  | upload _ uploads => exact absurd asked (not_download_of_upload uploads.2.1)
  | refuse _ _ _ denied => exact absurd granted denied
  | download _ other =>
    obtain ⟨_, _, _, _, file'⟩ := other
    rw [Option.some.inj (file.symm.trans file')]
  | other _ _ _ notDownload => exact absurd asked notDownload

theorem Point.small_of_upload (asked : IsUpload p.request) : p.Small env :=
  fun _ opened => absurd opened.2.1 (not_download_of_upload asked)

theorem Point.stops_or_next (sound : p.Sound env) (ready : p.Ready env) (small : p.Small env) :
    p.Stops env ∨ ∃ q, Next env p q := by
  by_cases complete : Complete p.bytes
  · by_cases upload : IsUpload p.request
    · cases writable : env.mayWrite (path (filename 6 p.request)) with
      | false => exact .inl (.inr (.inl ⟨upload, writable⟩))
      | true =>
        have opened : p.Uploads env := ⟨complete, upload, writable⟩
        exact .inr ⟨_, .upload sound opened (ready opened)⟩
    · by_cases download : IsDownload p.request
      · by_cases granted : p.Granted
        · by_cases opened : ∃ content, p.Downloads env content
          · obtain ⟨content, opened⟩ := opened
            exact .inr ⟨_, .download sound opened (small content opened)⟩
          · exact .inl (.inr (.inr ⟨download, granted, fun content h => opened ⟨content, h⟩⟩))
        · exact .inr ⟨_, .refuse sound complete download granted⟩
      · exact .inr ⟨_, .other sound complete upload download⟩
  · exact .inl (.inl complete)

/-- A buffer that was just filled. -/
def holding (bytes : List Byte) : Buffer := ⟨List.replicate 8 0 ++ bytes, 8, 8 + bytes.length⟩

theorem holds_holding {bytes : List Byte} (small : bytes.length < 2 ^ 31) : Holds (holding bytes) bytes := by
  have length : (List.replicate 8 0 ++ bytes).length = 8 + bytes.length := by
    rw [List.length_append, List.length_replicate]
  refine ⟨⟨Nat.le_add_right _ _, Nat.le_of_eq length.symm, Nat.le_add_right _ _, ?_⟩, ?_⟩
  · rw [holding, length, maxSize]
    omega
  · rw [Buffer.readable, holding, slice, Nat.add_sub_cancel_left, List.drop_append_of_le_length (by simp),
      List.drop_of_length_le (by simp), List.nil_append, List.take_length]

/-- Every file can be opened, and none was uploaded yet. -/
def anyFile : Env := ⟨fun _ => true, fun _ => true, id⟩

def fresh : State := ⟨fun _ => none, fun _ => none, []⟩

/-- An upload of which only the first frame has arrived. -/
def halfUpload : List Byte := frame (command (literal "UPLOAD") [102] [112])

/-- An upload and a download of the same file. -/
def exchange : List Byte := uploadRequest [102] [112] [97, 98] ++ downloadRequest [102] [112]

/-! ### From turns to the call -/

/-- With nothing to read a turn would return at once. -/
theorem onMessage_succ (fuel : Nat) :
    onMessage env (fuel + 1) s b = (do
      let flow ← turn env fuel s b
      match flow with
      | .returned s b => .ok (s, b)
      | .goesOn s b => onMessage env fuel s b) := by
  rw [onMessage]
  split
  · rfl
  · rename_i empty
    rw [turn_short (by omega), Lib.ok_bind]

theorem onMessage_returned {b' : Buffer}
    (ended : Lib.Settles .fuel (fun fuel => turn env fuel s b) (.ok (.returned s b'))) :
    Lib.Settles .fuel (fun fuel => onMessage env fuel s b) (.ok (s, b')) := by
  refine .spend rfl ?_
  simp only [onMessage_succ]
  exact .bind ended (.const _)

theorem onMessage_failed {fault : Fault}
    (failed : Lib.Settles .fuel (fun fuel => turn env fuel s b) (.error fault)) :
    Lib.Settles .fuel (fun fuel => onMessage env fuel s b) (.error fault) := by
  refine .spend rfl ?_
  simp only [onMessage_succ]
  exact .bind_error failed

theorem onMessage_next (holds : Holds b p.bytes) (next : Next env p q) :
    ∃ b', Holds b' q.bytes ∧ ∀ r, Lib.Settles .fuel (fun fuel => onMessage env fuel q.state b') r →
      Lib.Settles .fuel (fun fuel => onMessage env fuel p.state b) r := by
  obtain ⟨b', holds', turned⟩ := turn_next holds next
  refine ⟨b', holds', fun r rest => .spend rfl ?_⟩
  simp only [onMessage_succ]
  exact .bind turned rest

theorem onMessage_steps (holds : Holds b p.bytes) (steps : Relation.ReflTransGen (Next env) p q) :
    ∃ b', Holds b' q.bytes ∧ ∀ r, Lib.Settles .fuel (fun fuel => onMessage env fuel q.state b') r →
      Lib.Settles .fuel (fun fuel => onMessage env fuel p.state b) r := by
  induction steps with
  | refl => exact ⟨b, holds, fun _ h => h⟩
  | tail _ next ih =>
    obtain ⟨middle, holds', before⟩ := ih
    obtain ⟨last, holds'', after⟩ := onMessage_next holds' next
    exact ⟨last, holds'', fun r h => before r (after r h)⟩

theorem exists_last (env : Env) (p : Point) :
    ∃ q, Relation.ReflTransGen (Next env) p q ∧
      (¬q.Sound env ∨ q.Sound env ∧ (¬q.Ready env ∨ ¬q.Small env ∨ q.Stops env)) := by
  induction length : p.bytes.length using Nat.strong_induction_on generalizing p with
  | _ n ih =>
    by_cases sound : p.Sound env
    · by_cases ready : p.Ready env
      · by_cases small : p.Small env
        · rcases Point.stops_or_next sound ready small with stops | ⟨q, next⟩
          · exact ⟨p, .refl, .inr ⟨sound, .inr (.inr stops)⟩⟩
          · obtain ⟨last, steps, ended⟩ := ih _ (length ▸ next.shorter) q rfl
            exact ⟨last, .head next steps, ended⟩
        · exact ⟨p, .refl, .inr ⟨sound, .inr (.inl small)⟩⟩
      · exact ⟨p, .refl, .inr ⟨sound, .inl ready⟩⟩
    · exact ⟨p, .refl, .inl sound⟩

theorem onMessage_waits (holds : Holds b p.bytes) (sound : p.Sound env) (unready : ¬p.Ready env) :
    Lib.Settles .fuel (fun fuel => onMessage env fuel p.state b) (.error .fuel) :=
  onMessage_failed (turn_waits holds sound unready)

theorem onMessage_overruns (holds : Holds b p.bytes) (sound : p.Sound env) (large : ¬p.Small env) :
    Lib.Settles .fuel (fun fuel => onMessage env fuel p.state b) (.error .stack) :=
  onMessage_failed (turn_overruns holds sound large)

theorem onMessage_crashes (holds : Holds b p.bytes) (unsound : ¬p.Sound env) :
    ∃ fault : Fault, fault.crash = true ∧
      Lib.Settles .fuel (fun fuel => onMessage env fuel p.state b) (.error fault) := by
  obtain ⟨fault, crash, failed⟩ := turn_unsound holds unsound
  exact ⟨fault, crash, onMessage_failed failed⟩

theorem onMessage_stops (holds : Holds b p.bytes) (sound : p.Sound env) (stops : p.Stops env) :
    Lib.Settles .fuel (fun fuel => onMessage env fuel p.state b) (.ok (p.state, b)) :=
  onMessage_returned (turn_stops holds sound stops)

theorem reached_of_ok (holds : Holds b p.bytes) {fuel : Nat} {r : State × Buffer}
    (ran : onMessage env fuel p.state b = .ok r) (steps : Relation.ReflTransGen (Next env) p q) :
    q.Sound env ∧ q.Ready env ∧ q.Small env := by
  obtain ⟨b', holds', same⟩ := onMessage_steps holds steps
  have other : ∀ fault, ¬Lib.Settles .fuel (fun fuel => onMessage env fuel q.state b') (.error fault) := by
    intro fault failed
    have result := (same _ failed).eq_of_ok ran
    cases result
  have sound : q.Sound env := by
    by_contra unsound
    obtain ⟨fault, _, failed⟩ := onMessage_crashes holds' unsound
    exact other fault failed
  refine ⟨sound, ?_, ?_⟩
  · by_contra unready
    exact other _ (onMessage_waits holds' sound unready)
  · by_contra large
    exact other _ (onMessage_overruns holds' sound large)

/-- The call returns, with an incomplete frame at the front or one whose file cannot be opened, exactly when every request
it comes to has sound lengths, its data with it, and a file of less than 1000 bytes. -/
theorem onMessage_returns_iff (env : Env) (s : State) (b : Buffer) (wf : b.Wf) :
    (∃ fuel s' b', onMessage env fuel s b = .ok (s', b') ∧ Reached env s b.readable ⟨s', b'.readable⟩ ∧
      Point.Stops env ⟨s', b'.readable⟩) ↔
    ∀ p, Reached env s b.readable p → p.Sound env ∧ p.Ready env ∧ p.Small env := by
  have holds : Holds b (Point.bytes ⟨s, b.readable⟩) := ⟨wf, rfl⟩
  constructor
  · rintro ⟨fuel, s', b', ran, -, -⟩ p reached
    exact reached_of_ok holds ran reached
  · intro served
    obtain ⟨last, steps, ended⟩ := exists_last env ⟨s, b.readable⟩
    obtain ⟨sound, ready, small⟩ := served last steps
    have stops : last.Stops env := by
      rcases ended with unsound | ⟨_, unready | large | stops⟩
      · exact absurd sound unsound
      · exact absurd ready unready
      · exact absurd small large
      · exact stops
    obtain ⟨b', holds', same⟩ := onMessage_steps holds steps
    obtain ⟨fuel, ran⟩ := (same _ (onMessage_stops holds' sound stops)).reached
    have point : (⟨last.state, b'.readable⟩ : Point) = last := by rw [holds'.readable]
    exact ⟨fuel, last.state, b', ran, point ▸ steps, point ▸ stops⟩

/-- The points of a call that finds both requests. -/
theorem exchange_served (reached : Reached anyFile fresh exchange p) :
    p.Sound anyFile ∧ p.Ready anyFile ∧ p.Small anyFile := by
  let first : Point := ⟨fresh, exchange⟩
  let second := first.uploaded anyFile
  have upload : IsUpload first.request := by decide
  have opened : second.Downloads anyFile [97, 98] := by decide +kernel
  rcases Relation.ReflTransGen.cases_head reached with rfl | ⟨q, next, rest⟩
  · exact ⟨by decide, by decide, Point.small_of_upload upload⟩
  · obtain rfl : q = second := next.of_upload upload
    rcases Relation.ReflTransGen.cases_head rest with rfl | ⟨q, next, rest⟩
    · refine ⟨by decide +kernel, by decide +kernel, fun content opened' => ?_⟩
      obtain rfl := Option.some.inj (opened.2.2.2.2.symm.trans opened'.2.2.2.2)
      decide
    · obtain rfl : q = second.answered (replies [97, 98]) := next.of_download opened
      have empty : ¬Complete (second.answered (replies [97, 98])).bytes := by decide +kernel
      rcases Relation.ReflTransGen.cases_head rest with rfl | ⟨q, next, -⟩
      · exact ⟨by decide +kernel, by decide +kernel, fun _ opened => absurd opened.1 empty⟩
      · exact absurd next.complete empty

theorem onMessage_returns_exchange :
    ∃ fuel s' b', onMessage anyFile fuel fresh (holding exchange) = .ok (s', b') ∧
      Reached anyFile fresh (holding exchange).readable ⟨s', b'.readable⟩ ∧ Point.Stops anyFile ⟨s', b'.readable⟩ := by
  have holds : Holds (holding exchange) exchange := holds_holding (by decide)
  refine (onMessage_returns_iff anyFile fresh (holding exchange) holds.wf).mpr fun p reached => ?_
  rw [holds.readable] at reached
  exact exchange_served reached

theorem halfUpload_never_returns :
    (holding halfUpload).Wf ∧
    ¬∃ fuel s' b', onMessage anyFile fuel fresh (holding halfUpload) = .ok (s', b') ∧
      Reached anyFile fresh (holding halfUpload).readable ⟨s', b'.readable⟩ ∧
      Point.Stops anyFile ⟨s', b'.readable⟩ := by
  have holds : Holds (holding halfUpload) (Point.bytes ⟨fresh, halfUpload⟩) := holds_holding (by decide)
  refine ⟨holds.wf, ?_⟩
  rintro ⟨fuel, s', b', ran, -⟩
  have waits : Lib.Settles .fuel (fun fuel => onMessage anyFile fuel fresh (holding halfUpload)) (.error .fuel) :=
    onMessage_waits holds (by decide) (by decide)
  have spins : onMessage anyFile fuel fresh (holding halfUpload) = .error .fuel := (waits.1 fuel).elim id id
  rw [ran] at spins
  cases spins

/-- No request crashes the call exactly when every one that it comes to has sound lengths. -/
theorem onMessage_crash_free_iff (env : Env) (s : State) (b : Buffer) (wf : b.Wf) :
    (∀ fuel fault, onMessage env fuel s b = .error fault → fault.crash = false) ↔
    ∀ p, Reached env s b.readable p → p.Sound env := by
  have holds : Holds b (Point.bytes ⟨s, b.readable⟩) := ⟨wf, rfl⟩
  constructor
  · intro safe p reached
    by_contra unsound
    obtain ⟨b', holds', same⟩ := onMessage_steps holds reached
    obtain ⟨fault, crash, failed⟩ := onMessage_crashes holds' unsound
    obtain ⟨fuel, ran⟩ := (same _ failed).reached
    rw [safe fuel fault ran] at crash
    cases crash
  · intro sound fuel fault ran
    obtain ⟨last, steps, ended⟩ := exists_last env ⟨s, b.readable⟩
    obtain ⟨b', holds', same⟩ := onMessage_steps holds steps
    have settled : ∃ r, Lib.Settles .fuel (fun fuel => onMessage env fuel s b) r ∧
        ∀ fault, r = .error fault → fault.crash = false := by
      rcases ended with unsound | ⟨sound, unready | large | stops⟩
      · exact absurd (sound last steps) unsound
      · exact ⟨_, same _ (onMessage_waits holds' sound unready), fun fault h => by cases h; rfl⟩
      · exact ⟨_, same _ (onMessage_overruns holds' sound large), fun fault h => by cases h; rfl⟩
      · exact ⟨_, same _ (onMessage_stops holds' sound stops), fun fault h => by cases h⟩
    obtain ⟨r, settles, harmless⟩ := settled
    rcases settles.1 fuel with short | same
    · obtain rfl := Except.error.inj (ran.symm.trans short)
      rfl
    · exact harmless fault (same.symm.trans ran)

theorem onMessage_crash_free_exchange :
    (holding exchange).Wf ∧
    ∀ fuel fault, onMessage anyFile fuel fresh (holding exchange) = .error fault → fault.crash = false := by
  have holds : Holds (holding exchange) exchange := holds_holding (by decide)
  refine ⟨holds.wf, (onMessage_crash_free_iff anyFile fresh (holding exchange) holds.wf).mpr fun p reached => ?_⟩
  rw [holds.readable] at reached
  exact (exchange_served reached).1

/-- A frame of length -1 ends in the constructor of `std::string`. -/
theorem negative_length_crashes :
    (holding [255, 255, 255, 255]).Wf ∧
    ¬∀ fuel fault, onMessage anyFile fuel fresh (holding [255, 255, 255, 255]) = .error fault → fault.crash = false := by
  have holds : Holds (holding [255, 255, 255, 255]) (Point.bytes ⟨fresh, [255, 255, 255, 255]⟩) :=
    holds_holding (by decide)
  refine ⟨holds.wf, fun safe => ?_⟩
  have unsound : ¬Point.Sound anyFile ⟨fresh, [255, 255, 255, 255]⟩ := by decide
  obtain ⟨fault, crash, settles⟩ := onMessage_crashes holds unsound
  obtain ⟨fuel, ran⟩ := settles.reached
  rw [safe fuel fault ran] at crash
  cases crash

end Dserver.FileServer
