import Dserver.FileServer.Requests
import Mathlib.Data.List.TakeWhile

/-!
# Upload and download

A download gives the file back when it has less than 1000 bytes and none of them is zero, and so does a download behind an
upload.
-/

namespace Dserver.FileServer

open Net

/-- Four bytes with a length in decimal, filled up with zeros. -/
def asciiLength (n : Nat) : List Byte := (LogStream.decimal n ++ List.replicate 4 0).take 4

/-- Messages that carry `content` in pieces, and the end marks. -/
def Delivers (content : List Byte) (messages : List (List Byte)) : Prop :=
  ∃ payloads : List (List Byte), payloads.flatten = content ∧ (∀ payload ∈ payloads, payload.length ≤ 9999) ∧
    messages = payloads.map (fun payload => literal "1" ++ asciiLength payload.length ++ payload) ++
      [literal "0", literal "0", literal "0"]

/-- The request at the front is answered with the content. -/
def Answers (env : Env) (s : State) (b : Buffer) (content : List Byte) : Prop :=
  ∃ fuel s' b' messages, turn env fuel s b = .ok (.goesOn s' b') ∧ s'.sent = s.sent ++ messages ∧
    Delivers content messages

/-! ### The messages of a reply -/

theorem lengthField_eq {n : Nat} (small : n < 1000) : lengthField n = asciiLength n := by
  have short := decimal_short_iff.mpr small
  have zeros : List.replicate (4 - (LogStream.decimal n).length) (0 : Byte) =
      [0] ++ List.replicate (4 - ((LogStream.decimal n).length + 1)) 0 := by
    rw [List.singleton_append, ← List.replicate_succ]
    congr 1
    omega
  rw [asciiLength, List.take_append, List.take_of_length_le (by omega), List.take_replicate, Nat.min_eq_left (by omega),
    zeros, lengthField, Lib.splice, List.take_zero, List.nil_append, Nat.zero_add, List.length_append,
    List.length_singleton, List.drop_replicate, List.append_assoc]

theorem takeWhile_eq_iff {content : List Byte} : content.takeWhile (· ≠ 0) = content ↔ 0 ∉ content := by
  rw [List.takeWhile_eq_self_iff]
  constructor
  · intro all zero
    simpa using all 0 zero
  · intro none byte member
    exact decide_eq_true fun zero => none (zero ▸ member)

theorem delivers_replies {content : List Byte} (small : content.length < 1000) :
    Delivers content (replies content) ↔ 0 ∉ content := by
  by_cases empty : content = []
  · subst empty
    exact ⟨fun _ => List.not_mem_nil, fun _ => ⟨[], rfl, by simp, rfl⟩⟩
  · rw [replies, if_neg empty, lengthField_eq small]
    constructor
    · rintro ⟨payloads, joined, -, same⟩
      have messages := List.append_cancel_right same
      -- one message, so one piece, which is the whole content
      obtain ⟨payload, rfl, piece⟩ : ∃ payload, payloads = [payload] ∧
          literal "1" ++ asciiLength payload.length ++ payload =
            literal "1" ++ asciiLength content.length ++ content.takeWhile (· ≠ 0) :=
        List.map_eq_singleton_iff.mp messages.symm
      rw [List.flatten_singleton] at joined
      subst joined
      exact takeWhile_eq_iff.mp (List.append_cancel_left piece).symm
    · intro none
      refine ⟨[content], List.flatten_singleton, ?_, ?_⟩
      · intro payload member
        rw [List.mem_singleton.mp member]
        omega
      · rw [takeWhile_eq_iff.mpr none, List.map_singleton]

/-! ### Turns -/

section Requests

variable {env : Env} {s : State} {b : Buffer} {name secret content data rest : List Byte}

theorem upload_turn (fits : name.length + secret.length + 16 < 2 ^ 31) (dataFits : data.length + 4 < 2 ^ 31)
    (writable : env.mayWrite (path name) = true) (holds : Holds b (uploadRequest name secret data ++ rest)) :
    ∃ s' b', Lib.Settles .fuel (fun fuel => turn env fuel s b) (.ok (.goesOn s' b')) ∧ Holds b' rest ∧
      s'.passwordMap name = some secret ∧ s'.files (env.file (path name)) = some data := by
  have request := upload_request s data rest fits
  have follows := upload_behind data rest fits
  have found : filename 6 (command (literal "UPLOAD") name secret) = name := filename_command rfl (by omega)
  have secured : password 6 (command (literal "UPLOAD") name secret) = secret := password_command rfl (by omega)
  have ready : Complete (behind (uploadRequest name secret data ++ rest)) := by
    rw [follows]
    exact complete_frame dataFits
  obtain ⟨b', holds', settles⟩ := turn_next (p := ⟨s, _⟩) holds
    (.upload (upload_sound env s rest fits dataFits) (upload_opens s data rest fits writable) ready)
  refine ⟨_, b', settles, ?_, ?_, ?_⟩
  · dsimp only [Point.uploaded] at holds'
    rwa [follows, behind_frame dataFits] at holds'
  · dsimp only [Point.uploaded, Point.stored, State.send, State.setPassword]
    rw [request, found, secured, Function.update_self]
  · dsimp only [Point.uploaded, Point.stored, State.send, State.setPassword, State.store]
    rw [request, found, follows, payload_frame dataFits, Function.update_self]

theorem answers_iff (fits : name.length + secret.length + 16 < 2 ^ 31) (known : s.passwordMap name = some secret)
    (readable : env.mayRead (path name) = true) (file : s.files (env.file (path name)) = some content)
    (holds : Holds b (downloadRequest name secret ++ rest)) :
    Answers env s b content ↔ content.length < 1000 ∧ 0 ∉ content := by
  have sound := download_sound env s rest fits
  have opened := download_opens rest fits known readable file
  by_cases small : content.length < 1000
  · obtain ⟨b', _, settles⟩ := turn_next (p := ⟨s, _⟩) holds (.download sound opened small)
    rw [← delivers_replies small, and_iff_right small]
    constructor
    · rintro ⟨fuel, s', rest', messages, ran, sent, delivers⟩
      obtain ⟨rfl, -⟩ := Flow.goesOn.inj (Except.ok.inj (settles.eq_of_ok ran))
      rwa [List.append_cancel_left sent]
    · intro delivers
      obtain ⟨fuel, ran⟩ := settles.reached
      exact ⟨fuel, _, b', replies content, ran, rfl, delivers⟩
  · have settles := turn_overruns (p := ⟨s, _⟩) holds sound fun all => small (all content opened)
    constructor
    · rintro ⟨fuel, s', rest', messages, ran, -⟩
      have result := settles.eq_of_ok ran
      cases result
    · rintro ⟨less, -⟩
      exact absurd less small

end Requests

/-- A download is answered with the file exactly when the file has less than 1000 bytes and no zero byte, and so is a
download behind an upload of the same name and password. -/
theorem download_gives_back_iff (env : Env) (name secret : List Byte) (fits : name.length + secret.length + 16 < 2 ^ 31)
    (readable : env.mayRead (path name) = true) :
    (∀ (s : State) (content rest : List Byte) (b : Buffer), b.Wf → b.readable = downloadRequest name secret ++ rest →
      s.passwordMap name = some secret → s.files (env.file (path name)) = some content →
      (Answers env s b content ↔ content.length < 1000 ∧ 0 ∉ content)) ∧
    ∀ (s : State) (data rest rest' : List Byte) (b b' : Buffer), env.mayWrite (path name) = true →
      data.length + 4 < 2 ^ 31 → b.Wf → b.readable = uploadRequest name secret data ++ rest → b'.Wf →
      b'.readable = downloadRequest name secret ++ rest' →
      ((∃ fuel s' left, turn env fuel s b = .ok (.goesOn s' left) ∧ Answers env s' b' data) ↔
        data.length < 1000 ∧ 0 ∉ data) := by
  constructor
  · intro s content rest b wf bytes known file
    exact answers_iff fits known readable file ⟨wf, bytes⟩
  · intro s data rest rest' b b' writable dataFits wf bytes wf' bytes'
    obtain ⟨after, left, settles, -, known, file⟩ := upload_turn (s := s) fits dataFits writable ⟨wf, bytes⟩
    rw [← answers_iff fits known readable file ⟨wf', bytes'⟩]
    constructor
    · rintro ⟨fuel, s', rest, ran, answers⟩
      obtain ⟨rfl, -⟩ := Flow.goesOn.inj (Except.ok.inj (settles.eq_of_ok ran))
      exact answers
    · intro answers
      obtain ⟨fuel, ran⟩ := settles.reached
      exact ⟨fuel, after, left, ran, answers⟩

theorem download_gives_back_letters :
    (∃ fuel s' left, turn anyFile fuel fresh (holding (uploadRequest [102] [112] [97, 98] ++ [])) = .ok (.goesOn s' left) ∧
      Answers anyFile s' (holding (downloadRequest [102] [112] ++ [])) [97, 98]) := by
  have holds : Holds (holding (uploadRequest [102] [112] [97, 98] ++ [])) _ := holds_holding (by decide)
  have holds' : Holds (holding (downloadRequest [102] [112] ++ [])) _ := holds_holding (by decide)
  have both := (download_gives_back_iff anyFile [102] [112] (by decide) rfl).2
  exact (both fresh [97, 98] [] [] _ _ rfl (by decide) holds.wf holds.readable holds'.wf holds'.readable).mpr
    ⟨by decide, by decide⟩

/-- The file `a\0` is cut at its zero byte, and one of 1000 bytes has a length of four digits. -/
theorem download_loses :
    (holding (downloadRequest [102] [112] ++ [])).Wf ∧
    (holding (downloadRequest [102] [112] ++ [])).readable = downloadRequest [102] [112] ++ [] ∧
    ¬Answers anyFile ⟨fun _ => some [112], fun _ => some [97, 0], []⟩ (holding (downloadRequest [102] [112] ++ []))
      [97, 0] ∧
    ¬Answers anyFile ⟨fun _ => some [112], fun _ => some (List.replicate 1000 97), []⟩
      (holding (downloadRequest [102] [112] ++ [])) (List.replicate 1000 97) := by
  have holds : Holds (holding (downloadRequest [102] [112] ++ [])) (downloadRequest [102] [112] ++ []) :=
    holds_holding (by decide)
  refine ⟨holds.wf, holds.readable, ?_, ?_⟩
  · rw [answers_iff (by decide) rfl rfl rfl holds]
    exact fun intact => absurd intact.2 (by decide)
  · rw [answers_iff (by decide) rfl rfl rfl holds, List.length_replicate]
    exact fun intact => absurd intact.1 (by decide)

end Dserver.FileServer
