import Dserver.FileServer.Requests
import Dserver.FileServer.Threads

/-!
# Who gets a file

A password is kept for each name that was uploaded, and the content for the file that its path names. A file is sent for
the password of the last upload of its name. What is sent is what the uploads to the file have left there: an upload that
waits for its data has emptied it, one under another name can have replaced it, and two that are open at once write over
each other.
-/

namespace Dserver.FileServer

open Net Lib.Machine

structure Upload where
  name : List Byte
  password : List Byte
  data : List Byte
  deriving DecidableEq, Repr

/-- A request with what was done about it; an upload is first an `opening` of the file with its name. -/
inductive Exchange where
  | opening (name : List Byte)
  | upload (u : Upload)
  | refuse (name password : List Byte)
  | download (name password content : List Byte)
  | other
  deriving DecidableEq, Repr

namespace Exchange

/-- The messages that are sent for it. -/
def answers : Exchange → List (List Byte)
  | upload _ => [literal "Upload file finished"]
  | refuse _ _ => [literal "0"]
  | download _ _ content => replies content
  | _ => []

def uploaded : Exchange → Option Upload
  | upload u => some u
  | _ => none

end Exchange

def uploads (log : List Exchange) : List Upload := log.filterMap Exchange.uploaded

/-- The last upload with a name like this. -/
def lastUpload (log : List Exchange) (like : List Byte → Bool) : Option Upload :=
  ((uploads log).filter fun u => like u.name).getLast?

def lastOf (log : List Exchange) (name : List Byte) : Option Upload := lastUpload log (· == name)

section Files

variable (file : List Byte → List Byte) (place : List Byte)

/-- The uploads to the file at `place` that have ended since it was opened for one, where `file` is what a path names. -/
def follow (before : Option (List Upload)) : Exchange → Option (List Upload)
  | .opening name => if file (path name) = place then some [] else before
  | .upload u => if file (path u.name) = place then some (before.getD [] ++ [u]) else before
  | _ => before

def current (log : List Exchange) : Option (List Upload) := log.foldl (follow file place) none

end Files

/-- What is left when each has written from the front of the file. -/
def written (us : List Upload) : List Byte := us.foldl (fun text u => Lib.splice text 0 u.data) []

/-- What the exchange may be behind a log. -/
def Exchange.Allowed (file : List Byte → List Byte) (log : List Exchange) : Exchange → Prop
  | .download name password content =>
    (∃ u, lastOf log name = some u ∧ u.password = password) ∧
      (current file (file (path name)) log).map written = some content
  | .refuse name password => ∀ u, lastOf log name = some u → u.password ≠ password
  | _ => True

/-- Every exchange was allowed when it took place. -/
def Guarded (file : List Byte → List Byte) (log : List Exchange) : Prop :=
  ∀ before e after, log = before ++ e :: after → e.Allowed file before

/-- The state of a server that began with `files` and has had these exchanges. -/
structure Records (file : List Byte → List Byte) (files : List Byte → Option (List Byte)) (log : List Exchange)
    (s : State) : Prop where
  passwords : ∀ name, s.passwordMap name = (lastOf log name).map Upload.password
  files : ∀ place, s.files place = ((current file place log).map written).or (files place)
  sent : s.sent = log.flatMap Exchange.answers
  guarded : Guarded file log

/-! ### Logs -/

section Logs

variable {file : List Byte → List Byte} {place : List Byte} {log : List Exchange}

theorem lastUpload_upload (log : List Exchange) (u : Upload) (like : List Byte → Bool) :
    lastUpload (log ++ [.upload u]) like = if like u.name then some u else lastUpload log like := by
  have more : uploads (log ++ [.upload u]) = uploads log ++ [u] := List.filterMap_append
  rw [lastUpload, more, List.filter_append]
  split
  · rename_i wanted
    have one : [u].filter (fun v => like v.name) = [u] := List.filter_eq_self.mpr (by simpa using wanted)
    rw [one, List.getLast?_concat]
  · rename_i unlike
    have none : [u].filter (fun v => like v.name) = [] := List.filter_eq_nil_iff.mpr (by simpa using unlike)
    rw [none, List.append_nil]
    rfl

theorem lastUpload_other {e : Exchange} (noUpload : e.uploaded = none) (log : List Exchange) (like : List Byte → Bool) :
    lastUpload (log ++ [e]) like = lastUpload log like := by
  have same : uploads (log ++ [e]) = uploads log := by
    rw [uploads, List.filterMap_append, List.filterMap_cons_none noUpload, List.filterMap_nil, List.append_nil]
    rfl
  rw [lastUpload, same]
  rfl

theorem lastUpload_spec {like : List Byte → Bool} {u : Upload} (h : lastUpload log like = some u) :
    u ∈ uploads log ∧ like u.name = true := by
  have member := List.mem_of_getLast? h
  simpa using member

theorem current_snoc (log : List Exchange) (e : Exchange) :
    current file place (log ++ [e]) = follow file place (current file place log) e := by
  rw [current, List.foldl_append]
  rfl

/-- A file that was opened stays one that was. -/
theorem current_grows {e : Exchange} (h : (current file place log).isSome) :
    (current file place (log ++ [e])).isSome := by
  rw [current_snoc]
  unfold follow
  split
  · split
    · rfl
    · exact h
  · split
    · rfl
    · exact h
  · exact h

/-- The last of the uploads is the last upload to the file. -/
theorem current_last {us : List Upload} {u : Upload} (h : current file place log = some us) (last : us.getLast? = some u) :
    lastUpload log (fun name => file (path name) == place) = some u := by
  induction log using List.reverseRecOn generalizing us with
  | nil => cases h
  | append_singleton log e ih =>
    rw [current_snoc] at h
    cases e with
    | opening name =>
      rw [lastUpload_other rfl]
      dsimp only [follow] at h
      split at h
      · obtain rfl := Option.some.inj h
        cases last
      · exact ih h last
    | upload v =>
      rw [lastUpload_upload]
      dsimp only [follow] at h
      split at h
      · rename_i there
        obtain rfl := Option.some.inj h
        rw [List.getLast?_concat] at last
        rw [if_pos (by simpa using there), last]
      · rename_i elsewhere
        rw [if_neg (by simpa using elsewhere)]
        exact ih h last
    | refuse name password =>
      rw [lastUpload_other rfl]
      exact ih h last
    | download name password content =>
      rw [lastUpload_other rfl]
      exact ih h last
    | other =>
      rw [lastUpload_other rfl]
      exact ih h last

/-- A name that was uploaded has a file. -/
theorem current_of_upload {u : Upload} (member : u ∈ uploads log) :
    (current file (file (path u.name)) log).isSome := by
  induction log using List.reverseRecOn with
  | nil => cases member
  | append_singleton log e ih =>
    rw [uploads, List.filterMap_append, List.mem_append] at member
    rcases member with earlier | now
    · exact current_grows (ih earlier)
    · obtain ⟨e', there, uploaded⟩ := List.mem_filterMap.mp now
      obtain rfl := List.mem_singleton.mp there
      cases e' with
      | upload v =>
        obtain rfl := Option.some.inj uploaded
        rw [current_snoc, follow, if_pos rfl]
        rfl
      | _ => cases uploaded

theorem guarded_snoc {e : Exchange} (h : Guarded file log) (allowed : e.Allowed file log) : Guarded file (log ++ [e]) := by
  intro before e' after cut
  rcases List.eq_nil_or_concat after with rfl | ⟨after, last, rfl⟩
  · obtain ⟨rfl, same⟩ := List.append_inj' cut rfl
    obtain rfl := (List.cons.inj same).1
    exact allowed
  · rw [List.concat_eq_append, ← List.cons_append, ← List.append_assoc] at cut
    obtain ⟨front, _⟩ := List.append_inj' cut rfl
    exact h before e' after front

theorem written_snoc (us : List Upload) (u : Upload) : written (us ++ [u]) = Lib.splice (written us) 0 u.data := by
  rw [written, List.foldl_append]
  rfl

theorem written_last {us : List Upload} {u : Upload} (last : us.getLast? = some u) : u.data <+: written us := by
  obtain ⟨us, rfl⟩ := List.getLast?_eq_some_iff.mp last
  rw [written_snoc, Lib.splice, List.take_zero, List.nil_append]
  exact List.prefix_append _ _

end Logs

/-! ### What the handler does to the records -/

section Steps

variable {file : List Byte → List Byte} {files : List Byte → Option (List Byte)} {log : List Exchange} {s s' : State}
  {b : Buffer} {mayWrite mayRead : List Byte → Bool} {fuel : Nat}

theorem records_start (noPassword : s.passwordMap = fun _ => none) (silent : s.sent = []) : Records file s.files [] s := by
  refine ⟨fun name => ?_, fun place => ?_, silent, fun before e after cut => ?_⟩
  · rw [noPassword]
    rfl
  · exact (Option.none_or).symm
  · cases before <;> cases cut

/-- An exchange that neither opens a file nor writes to one leaves passwords and files alone. -/
theorem Records.answer {e : Exchange} (h : Records file files log s) (noUpload : e.uploaded = none)
    (noOpening : ∀ name, e ≠ .opening name) (allowed : e.Allowed file log) :
    Records file files (log ++ [e]) (s.send e.answers) := by
  refine ⟨fun name => ?_, fun place => ?_, ?_, guarded_snoc h.guarded allowed⟩
  · rw [lastOf, lastUpload_other noUpload]
    exact h.passwords name
  · have same : current file place (log ++ [e]) = current file place log := by
      rw [current_snoc]
      cases e with
      | opening name => exact absurd rfl (noOpening name)
      | upload u => cases noUpload
      | _ => rfl
    rw [same]
    exact h.files place
  · rw [List.flatMap_append, ← h.sent]
    simp [State.send]

theorem Records.nothing (h : Records file files log s) : Records file files (log ++ [.other]) s := by
  have same : s.send (Exchange.answers .other) = s := by
    simp [State.send, Exchange.answers]
  have answered := h.answer (e := .other) rfl (fun name other => by cases other) trivial
  rwa [same] at answered

theorem Records.opening (h : Records file files log s) (name : List Byte) :
    Records file files (log ++ [.opening name]) (s.truncate (file (path name))) := by
  refine ⟨fun other => ?_, fun place => ?_, ?_, guarded_snoc h.guarded trivial⟩
  · rw [lastOf, lastUpload_other rfl]
    exact h.passwords other
  · rw [current_snoc, follow]
    dsimp only [State.truncate]
    by_cases same : file (path name) = place
    · rw [if_pos same, same, Function.update_self]
      rfl
    · rw [if_neg same, Function.update_of_ne (Ne.symm same)]
      exact h.files place
  · rw [List.flatMap_append, ← h.sent]
    exact (List.append_nil _).symm

theorem Records.upload (h : Records file files log s) (u : Upload)
    (opened : (current file (file (path u.name)) log).isSome) :
    Records file files (log ++ [.upload u])
      (((s.overwrite (file (path u.name)) u.data).setPassword u.name u.password).send
        [literal "Upload file finished"]) := by
  refine ⟨fun name => ?_, fun place => ?_, ?_, guarded_snoc h.guarded trivial⟩
  · rw [lastOf, lastUpload_upload]
    dsimp only [State.send, State.setPassword]
    by_cases same : u.name = name
    · subst same
      rw [if_pos (beq_self_eq_true _), Function.update_self]
      rfl
    · rw [if_neg (by simpa using same), Function.update_of_ne (Ne.symm same)]
      exact h.passwords name
  · rw [current_snoc, follow]
    dsimp only [State.send, State.setPassword, State.overwrite]
    by_cases same : file (path u.name) = place
    · subst same
      obtain ⟨us, before⟩ := Option.isSome_iff_exists.mp opened
      have content := h.files (file (path u.name))
      rw [before] at content
      rw [if_pos rfl, Function.update_self, content, before]
      dsimp only [Option.map_some, Option.or_some, Option.getD_some]
      rw [written_snoc]
      rfl
    · rw [if_neg same, Function.update_of_ne (Ne.symm same)]
      exact h.files place
  · rw [List.flatMap_append, ← h.sent]
    rfl

theorem sendChunks_ok {content : List Byte} {chunks : List (List Byte)}
    (sent : sendChunks fuel (List.replicate 1024 0) content = .ok chunks) :
    chunks ++ [literal "0", literal "0", literal "0"] = replies content := by
  by_cases small : content.length < 1000
  · rw [replies, ← Except.ok.inj ((sendChunks_small small).eq_of_ok sent)]
  · cases (sendChunks_large (by omega)).eq_of_ok sent

theorem Records.download (h : Records file files log s) {message : List Byte} {len : Int}
    (ran : download ⟨mayWrite, mayRead, file⟩ fuel message len s = .ok (some s')) :
    ∃ e, Records file files (log ++ [e]) s' := by
  unfold FileServer.download at ran
  split at ran
  · obtain ⟨⟨filename, password⟩, -, ran⟩ := Lib.bind_ok ran
    dsimp only at ran
    split at ran
    · rename_i granted
      split at ran
      · rename_i content found
        split at ran
        · obtain ⟨chunks, sent, ran⟩ := Lib.bind_ok ran
          obtain rfl := Option.some.inj (Except.ok.inj ran)
          rw [sendChunks_ok sent]
          rw [h.passwords] at granted
          obtain ⟨u, last, secret⟩ := Option.map_eq_some_iff.mp granted
          obtain ⟨member, named⟩ := lastUpload_spec last
          obtain rfl : u.name = filename := by simpa using named
          have opened : (current file (file (path u.name)) log).isSome := current_of_upload member
          obtain ⟨us, there⟩ := Option.isSome_iff_exists.mp opened
          rw [h.files, there] at found
          refine ⟨_, h.answer (e := .download u.name password content) rfl (fun name other => by cases other)
            ⟨⟨u, last, secret⟩, ?_⟩⟩
          rw [there]
          exact found
        · cases ran
      · cases ran
    · rename_i denied
      obtain rfl := Option.some.inj (Except.ok.inj ran)
      refine ⟨_, h.answer (e := .refuse filename password) rfl (fun name other => by cases other) ?_⟩
      intro u last same
      apply denied
      rw [h.passwords, last, Option.map_some, same]
  · obtain rfl := Option.some.inj (Except.ok.inj ran)
    exact ⟨_, h.nothing⟩

theorem Records.reply (h : Records file files log s) {message : List Byte} {len : Int} {thread : IoThread}
    (ran : reply ⟨mayWrite, mayRead, file⟩ fuel message len s b = .ok (s', thread)) :
    (∃ e, Records file files (log ++ [e]) s') ∧ ∀ r, thread ≠ .receiving r := by
  obtain ⟨flow, answered, same⟩ := Lib.bind_ok ran
  obtain ⟨rfl, rfl⟩ := Prod.mk.inj (Except.ok.inj same)
  obtain ⟨downloaded, found, answered⟩ := Lib.bind_ok answered
  cases downloaded with
  | none =>
    obtain rfl := Except.ok.inj answered
    exact ⟨⟨_, h.nothing⟩, fun r other => by cases other⟩
  | some s' =>
    obtain ⟨b', _, answered⟩ := Lib.bind_ok answered
    obtain rfl := Except.ok.inj answered
    exact ⟨h.download found, fun r other => by cases other⟩

/-- A thread comes in front of the data of an upload when it has opened the file. -/
theorem Records.begin (h : Records file files log s) {thread : IoThread}
    (ran : beginTurn ⟨mayWrite, mayRead, file⟩ fuel s b = .ok (s', thread)) :
    ∃ e, Records file files (log ++ [e]) s' ∧ ∀ r, thread = .receiving r → e = .opening r.filename := by
  obtain ⟨next, _, ran⟩ := Lib.bind_ok ran
  cases next with
  | none =>
    obtain ⟨rfl, rfl⟩ := Prod.mk.inj (Except.ok.inj ran)
    exact ⟨_, h.nothing, fun r other => by cases other⟩
  | some request =>
    obtain ⟨message, len⟩ := request
    dsimp only at ran
    split at ran
    · obtain ⟨opened, tried, ran⟩ := Lib.bind_ok ran
      obtain ⟨⟨filename, password⟩, _, tried⟩ := Lib.bind_ok tried
      dsimp only at tried
      split at tried
      · obtain ⟨b', _, tried⟩ := Lib.bind_ok tried
        obtain rfl := Except.ok.inj tried
        obtain ⟨rfl, rfl⟩ := Prod.mk.inj (Except.ok.inj ran)
        refine ⟨_, h.opening filename, fun r same => ?_⟩
        rw [← IoThread.receiving.inj same]
      · obtain rfl := Except.ok.inj tried
        obtain ⟨rfl, rfl⟩ := Prod.mk.inj (Except.ok.inj ran)
        exact ⟨_, h.nothing, fun r other => by cases other⟩
    · obtain ⟨⟨e, records⟩, elsewhere⟩ := h.reply ran
      exact ⟨e, records, fun r same => absurd same (elsewhere r)⟩

theorem Records.finish (h : Records file files log s) {r : Receiving} {thread : IoThread}
    (opened : (current file (file (path r.filename)) log).isSome)
    (ran : finishTurn ⟨mayWrite, mayRead, file⟩ fuel r s = .ok (s', thread)) :
    (∃ e e', Records file files (log ++ [e] ++ [e']) s') ∧ ∀ r, thread ≠ .receiving r := by
  obtain ⟨⟨len, stored, b'⟩, finished, ran⟩ := Lib.bind_ok ran
  obtain ⟨⟨len', data⟩, _, finished⟩ := Lib.bind_ok finished
  obtain ⟨rfl, rfl, rfl⟩ := Lib.ok_inj_triple finished
  obtain ⟨⟨e, records⟩, elsewhere⟩ := (h.upload ⟨r.filename, r.password, data⟩ opened).reply ran
  exact ⟨⟨_, e, records⟩, elsewhere⟩

end Steps

/-! ### Runs -/

section Runs

variable {file : List Byte → List Byte} {files : List Byte → Option (List Byte)} {log : List Exchange} {s s' : Server}

/-- The records of a server, and every file that a thread has open was opened in the log. -/
structure Kept (file : List Byte → List Byte) (files : List Byte → Option (List Byte)) (log : List Exchange)
    (s : Server) : Prop where
  records : Records file files log s.state
  opened : ∀ t r, s.threads t = .receiving r → (current file (file (path r.filename)) log).isSome

theorem Kept.next {label : Label} (h : Kept file files log s) (step : (fileServer file).step s label = some (.ok s')) :
    ∃ log', Kept file files log' s' := by
  -- one thread moves, and the log only grows
  have others : ∀ {log' : List Exchange} {t : Nat} {state : State} {thread : IoThread},
      Records file files log' state →
      (∀ place, (current file place log).isSome → (current file place log').isSome) →
      (∀ r, thread = .receiving r → (current file (file (path r.filename)) log').isSome) →
      Kept file files log' (s.become t state thread) := by
    intro log' t state thread records grown own
    refine ⟨records, fun t' r receiving => ?_⟩
    by_cases same : t' = t
    · subst same
      rw [Server.become_self] at receiving
      exact own r receiving
    · have kept : s.threads t' = .receiving r := (Function.update_of_ne same _ _).symm.trans receiving
      exact grown _ (h.opened t' r kept)
  rcases step_cases step with ⟨t, b, rfl⟩ | ⟨t, mayWrite, mayRead, fuel, b, state, thread, ran, rfl⟩ |
    ⟨t, mayWrite, mayRead, fuel, r, state, thread, receiving, ran, rfl⟩
  · exact ⟨log, others h.records (fun _ opened => opened) fun r other => by cases other⟩
  · obtain ⟨e, records, own⟩ := h.records.begin ran
    refine ⟨_, others records (fun _ => current_grows) fun r same => ?_⟩
    rw [own r same, current_snoc, follow, if_pos rfl]
    rfl
  · obtain ⟨⟨e, e', records⟩, elsewhere⟩ := h.records.finish (h.opened t r receiving) ran
    exact ⟨_, others records (fun _ opened => current_grows (current_grows opened)) fun r same =>
      absurd same (elsewhere r)⟩

def ioThreads : Server := ⟨fresh, fun _ => .idle⟩

/-- A thread is called for these bytes, and it makes a turn. -/
def serves (t : Nat) (bytes : List Byte) : List Label :=
  [.call t (holding bytes), .begin t anyFile.mayWrite anyFile.mayRead 3]

/-- It receives the data of the upload, and returns. -/
def receives (t : Nat) : List Label :=
  [.finish t anyFile.mayWrite anyFile.mayRead 1, .begin t anyFile.mayWrite anyFile.mayRead 1]

def returns (t : Nat) : List Label := [.begin t anyFile.mayWrite anyFile.mayRead 1]

-- two uploads that are open at once, the longer one under the first password
example : ∃ s, (fileServer id).Reachable anyStep s ∧
    s.state.sent = [literal "Upload file finished", literal "Upload file finished"] ++ replies [120, 98] :=
  exec_reaches (fileServer id) anyStep ioThreads
    (serves 0 (uploadRequest [102] [112] [97, 98]) ++ serves 1 (uploadRequest [102] [113] [120]) ++ receives 0 ++
      receives 1 ++ serves 0 (downloadRequest [102] [113]))
    (fun s => s.state.sent = [literal "Upload file finished", literal "Upload file finished"] ++ replies [120, 98])
    ⟨rfl, rfl, rfl⟩ (by decide +kernel)

end Runs

end Dserver.FileServer
