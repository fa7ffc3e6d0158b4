import StudyRecord.Practice.TcpAndUdp

/-!
The bytes of a client, of which a `send` may take less than it is given.
-/

namespace StudyRecord.TcpAndUdp

open CString Readiness Runs

namespace Server

def writes (id : Nat) : Event → List UInt8
  | .write other bytes => if other = id then bytes else []
  | .connect _ | .shutdown _ | .datagram _ | .wait _ | .serve .. | .refuse => []

def kept (server : Server) (id : Nat) : List UInt8 :=
  (server.clients id).sent ++ (server.clients id).watch.queue

def Whole (id : Nat) (server : Server) : Event → Prop
  | .serve count accepted =>
      server.batch.head? = some (.client id) →
        min count (server.clients id).watch.queue.length ≤ accepted
  | _ => True

instance decidableWhole (id : Nat) (server : Server) : ∀ event, Decidable (Whole id server event)
  | .serve count accepted =>
      inferInstanceAs (Decidable (server.batch.head? = some (.client id) →
        min count (server.clients id).watch.queue.length ≤ accepted))
  | .connect _ | .write _ _ | .shutdown _ | .datagram _ | .wait _ | .refuse => .isTrue trivial

theorem kept_setClient (server : Server) {id : Nat} {client : Client}
    (same : client.sent ++ client.watch.queue = server.kept id) (other : Nat) :
    (server.setClient id client).kept other = server.kept other := by
  by_cases here : other = id
  · subst here
    rw [kept, setClient_self, same]
  · rw [kept, setClient_other _ _ here, kept]

theorem kept_serveListen (server : Server) (id : Nat) :
    server.serveListen.kept id = server.kept id := by
  rw [serveListen]
  split
  · rfl
  · rename_i head queue shape
    refine kept_setClient _ ?_ id
    show _ ++ (if _ then _ else _ : Watch UInt8).queue = _
    split
    · show _ ++ ((server.clients head).watch.queue ++ []) = _
      rw [List.append_nil]
      rfl
    · rfl

theorem kept_serveUdp (server : Server) (id : Nat) : server.serveUdp.kept id = server.kept id := by
  rw [serveUdp]
  split <;> rfl

theorem kept_serveClient_other (server : Server) {id other : Nat} (different : other ≠ id)
    (rest : List Source) (count accepted : Nat) :
    (server.serveClient id rest count accepted).kept other = server.kept other := by
  rw [serveClient]
  split
  · rw [kept, setClient_other _ _ different]
    rfl
  · rw [kept, setClient_other _ _ different]
    rfl

theorem kept_serveClient_whole (server : Server) {id count accepted : Nat} (rest : List Source)
    (whole : min count (server.clients id).watch.queue.length ≤ accepted) :
    (server.serveClient id rest count accepted).kept id = server.kept id := by
  rw [serveClient]
  split
  · rw [kept, setClient_self]
    rfl
  · refine kept_setClient _ ?_ id
    show (_ ++ List.take accepted _) ++ _ = _
    rw [List.take_of_length_le (by rwa [List.length_take]), List.append_assoc]
    show _ ++ (List.take count _ ++ List.drop count _) = _
    rw [List.take_append_drop]
    rfl

theorem kept_serveClient_short (server : Server) {id count accepted : Nat} (rest : List Source)
    (short : ¬min count (server.clients id).watch.queue.length ≤ accepted) :
    ((server.serveClient id rest count accepted).kept id).length < (server.kept id).length := by
  have some' : (server.clients id).watch.queue ≠ [] := by
    intro empty
    rw [empty, List.length_nil] at short
    omega
  rw [serveClient, if_neg some', kept, setClient_self, kept]
  show ((_ ++ ((server.clients id).watch.queue.take count).take accepted) ++
    (server.clients id).watch.queue.drop count).length < _
  simp only [List.length_append, List.length_take, List.length_drop]
  omega

theorem kept_refuse (server : Server) (id : Nat) : server.refuse.kept id = server.kept id := by
  rw [refuse]
  split <;> rfl

theorem kept_after_whole {server : Server} {id : Nat} {event : Event}
    (whole : Whole id server event) :
    (server.after event).kept id = server.kept id ++ writes id event := by
  cases event with
  | connect other => exact (List.append_nil _).symm
  | write other bytes =>
      by_cases same : other = id
      · subst same
        rw [writes, if_pos rfl, after, kept, setClient_self, kept, List.append_assoc]
        rfl
      · rw [writes, if_neg same, List.append_nil, after, kept,
          setClient_other _ _ (Ne.symm same), kept]
  | shutdown other =>
      refine (kept_setClient server ?_ id).trans (List.append_nil _).symm
      show _ ++ (_ ++ []) = _
      rw [List.append_nil]
      rfl
  | datagram data => exact (List.append_nil _).symm
  | wait reports =>
      rw [writes, List.append_nil, after]
      by_cases member : Source.client id ∈ reports
      · simp only [kept, Server.wait, member, if_true]
        rfl
      · simp only [kept, Server.wait, member, if_false]
  | serve count accepted =>
      rw [writes, List.append_nil, after, serve]
      split
      · rfl
      · exact kept_serveListen _ id
      · exact kept_serveUdp _ id
      · rename_i other rest shape
        by_cases same : other = id
        · subst same
          exact kept_serveClient_whole server rest (whole (by rw [shape]; rfl))
        · exact kept_serveClient_other server (Ne.symm same) rest count accepted
  | refuse => exact (kept_refuse server id).trans (List.append_nil _).symm

theorem kept_after_short {server : Server} {id : Nat} {event : Event}
    (short : ¬Whole id server event) :
    ((server.after event).kept id).length < (server.kept id ++ writes id event).length := by
  cases event with
  | connect other => exact absurd trivial short
  | write other bytes => exact absurd trivial short
  | shutdown other => exact absurd trivial short
  | datagram data => exact absurd trivial short
  | wait reports => exact absurd trivial short
  | refuse => exact absurd trivial short
  | serve count accepted =>
      obtain ⟨shape, short⟩ := Classical.not_imp.mp short
      obtain ⟨rest, shape⟩ := List.head?_eq_some_iff.mp shape
      rw [writes, List.append_nil, after, serve, shape]
      exact kept_serveClient_short server rest short

theorem kept_run_le (id : Nat) (events : List Event) {server final : Server}
    (reached : run step server events = .ok final) :
    (final.kept id).length ≤ (server.kept id ++ events.flatMap (writes id)).length := by
  induction events generalizing server with
  | nil =>
      obtain rfl := Except.ok.inj reached
      simp
  | cons event rest ih =>
      have reached : run step (server.after event) rest = .ok final := reached
      have later := ih reached
      have here : ((server.after event).kept id).length ≤
          (server.kept id ++ writes id event).length := by
        by_cases whole : Whole id server event
        · rw [kept_after_whole whole]
        · exact Nat.le_of_lt (kept_after_short whole)
      rw [List.flatMap_cons]
      simp only [List.length_append] at later here ⊢
      omega

theorem kept_run_iff (id : Nat) (events : List Event) {server final : Server}
    (reached : run step server events = .ok final) :
    final.kept id = server.kept id ++ events.flatMap (writes id) ↔
      Along step (Whole id) server events := by
  induction events generalizing server with
  | nil =>
      obtain rfl := Except.ok.inj reached
      exact iff_of_true (List.append_nil _).symm trivial
  | cons event rest ih =>
      have reached : run step (server.after event) rest = .ok final := reached
      rw [along_cons_of_ok (rfl : step server event = .ok (server.after event)), ← ih reached,
        List.flatMap_cons, ← List.append_assoc]
      by_cases whole : Whole id server event
      · rw [kept_after_whole whole]
        exact (and_iff_right whole).symm
      · refine iff_of_false (fun same => ?_) fun both => whole both.1
        have fewer := kept_after_short whole
        have most := kept_run_le id rest reached
        have lengths := congrArg List.length same
        simp only [List.length_append] at fewer most lengths
        omega

/-- In every run, what a client has been sent and what is still to be read from it are the bytes
that it has written, in their order, exactly if no `send` to it has taken less than it was given:
the loop does not try again with the rest. -/
theorem echo_exact {buf : Buffer} {events : List Event} {server : Server}
    (reached : run step (init buf) events = .ok server) (id : Nat) :
    (server.clients id).sent ++ (server.clients id).watch.queue = events.flatMap (writes id) ↔
      Along step (Whole id) (init buf) events :=
  kept_run_iff id events reached

theorem echo_exact_short :
    ∃ server, run step (init fun _ => 0)
        [.connect 0, .wait [.listen], .serve 1 0, .write 0 [1, 2, 3], .wait [.client 0],
          .serve 1 1, .serve 2 1] = .ok server ∧
      (server.clients 0).sent ++ (server.clients 0).watch.queue ≠ [1, 2, 3] := by
  obtain ⟨server, reached⟩ : ∃ server, run step (init fun _ => 0)
      [.connect 0, .wait [.listen], .serve 1 0, .write 0 [1, 2, 3], .wait [.client 0],
        .serve 1 1, .serve 2 1] = .ok server := ⟨_, rfl⟩
  refine ⟨server, reached, fun whole => ?_⟩
  exact absurd ((echo_exact reached 0).mp whole) (by decide)

end Server

end StudyRecord.TcpAndUdp
