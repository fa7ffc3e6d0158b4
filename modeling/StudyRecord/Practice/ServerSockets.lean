import StudyRecord.Practice.TcpAndUdp

/-!
What comes to a server socket while a report for it is still to be made is not taken with the
report: `handleTcpAndUdpSameTime.cpp` takes one connection or one datagram for each, and none when
the call fails.
-/

namespace StudyRecord.TcpAndUdp

open CString Readiness Runs

namespace Server

/-- An arrival at a server socket for which a report is to come already, or a report of it that
nothing is taken for. -/
def Behind (source : Source) (server : Server) : Event → Prop
  | .connect _ => source = .listen ∧ server.backlog.edge = true
  | .datagram _ => source = .udp ∧ server.datagrams.edge = true
  | .refuse => server.batch.head? = some source
  | .write .. | .shutdown _ | .wait _ | .serve .. => False

instance decidableBehind (source : Source) (server : Server) :
    ∀ event, Decidable (Behind source server event)
  | .connect _ => inferInstanceAs (Decidable (source = .listen ∧ server.backlog.edge = true))
  | .datagram _ => inferInstanceAs (Decidable (source = .udp ∧ server.datagrams.edge = true))
  | .refuse => inferInstanceAs (Decidable (server.batch.head? = some source))
  | .write .. | .shutdown _ | .wait _ | .serve .. => .isFalse id

theorem mem_serveClient_batch (server : Server) {id : Nat} {rest : List Source}
    (shape : server.batch = .client id :: rest) (count accepted : Nat) {source : Source}
    (socket : source ≠ .client id) :
    source ∈ server.batch ↔ source ∈ (server.serveClient id rest count accepted).batch := by
  rw [serveClient]
  split
  · exact mem_batch_tail shape socket
  · exact Iff.rfl

theorem serveClient_backlog (server : Server) (id : Nat) (rest : List Source)
    (count accepted : Nat) :
    (server.serveClient id rest count accepted).backlog = server.backlog := by
  rw [serveClient]
  split <;> rfl

theorem serveClient_datagrams (server : Server) (id : Nat) (rest : List Source)
    (count accepted : Nat) :
    (server.serveClient id rest count accepted).datagrams = server.datagrams := by
  rw [serveClient]
  split <;> rfl

theorem serveClient_order (server : Server) {id : Nat} {rest : List Source}
    (shape : server.batch = .client id :: rest) (order : server.batch.Nodup)
    (count accepted : Nat) : (server.serveClient id rest count accepted).batch.Nodup := by
  rw [serveClient]
  split
  · rw [shape, List.nodup_cons] at order
    exact order.2
  · exact order

structure Listening (server : Server) (count : Nat) : Prop where
  order : server.batch.Nodup
  backlog : server.backlog.Counted (.listen ∈ server.batch) count

theorem Listening.serve {server : Server} {total : Nat} (listening : server.Listening total)
    (count accepted : Nat) : (server.serve count accepted).Listening total := by
  have order := listening.order
  rw [Server.serve]
  split
  · exact listening
  · rename_i rest shape
    rw [shape, List.nodup_cons] at order
    have here : .listen ∈ server.batch := shape ▸ List.mem_cons_self
    have served := (listening.backlog.serve here).congr (iff_of_false False.elim order.1)
    rw [serveListen]
    split
    · rename_i empty
      exact absurd empty (listening.backlog.some here)
    · exact ⟨order.2, served⟩
  · rename_i rest shape
    have other := listening.backlog.congr (mem_batch_tail shape Source.noConfusion)
    rw [shape, List.nodup_cons] at order
    rw [serveUdp]
    split
    · exact ⟨order.2, other⟩
    · exact ⟨order.2, other⟩
  · rename_i id rest shape
    have other := listening.backlog.congr
      (mem_serveClient_batch server shape count accepted Source.noConfusion)
    refine ⟨serveClient_order server shape order count accepted, ?_⟩
    rw [serveClient_backlog]
    exact other

theorem Listening.refuse {server : Server} {total : Nat} (listening : server.Listening total) :
    server.refuse.Listening
      (total + if server.batch.head? = some .listen then 1 else 0) := by
  have order := listening.order
  rw [Server.refuse]
  split
  · rename_i rest shape
    rw [shape, List.nodup_cons] at order
    have here : .listen ∈ server.batch := shape ▸ List.mem_cons_self
    rw [if_pos (by rw [shape]; rfl)]
    exact ⟨order.2, (listening.backlog.refuse here).congr (iff_of_false False.elim order.1)⟩
  · rename_i rest shape
    have other := listening.backlog.congr (mem_batch_tail shape Source.noConfusion)
    rw [shape, List.nodup_cons] at order
    rw [if_neg (by rw [shape]; simp)]
    exact ⟨order.2, other⟩
  · rename_i missed _
    rw [if_neg fun head => (List.head?_eq_some_iff.mp head).elim missed]
    exact listening

theorem step_listening (server : Server) (event : Event) (next : Server) (total : Nat)
    (listening : server.Listening total) (legal : server.Legal event)
    (taken : step server event = .ok next) :
    next.Listening (total + if Behind .listen server event then 1 else 0) := by
  obtain rfl := Except.ok.inj taken
  cases event with
  | connect id =>
      simp only [Behind, true_and]
      exact ⟨listening.order, listening.backlog.arrive id⟩
  | datagram data =>
      rw [if_neg fun behind => Source.noConfusion behind.1]
      exact ⟨listening.order, listening.backlog⟩
  | write id bytes => exact ⟨listening.order, listening.backlog⟩
  | shutdown id => exact ⟨listening.order, listening.backlog⟩
  | wait reports =>
      obtain ⟨idle, order, due⟩ := legal
      have free : ¬.listen ∈ server.batch := by
        rw [idle]
        exact List.not_mem_nil
      refine ⟨order, ?_⟩
      show Watch.Counted (if .listen ∈ reports then _ else _) _ _
      split
      · rename_i member
        exact (listening.backlog.report (due _ member) free).congr (iff_of_true trivial member)
      · rename_i missing
        exact listening.backlog.congr (iff_of_false free missing)
  | serve count accepted => exact listening.serve count accepted
  | refuse => exact listening.refuse

structure Receiving (server : Server) (count : Nat) : Prop where
  order : server.batch.Nodup
  datagrams : server.datagrams.Counted (.udp ∈ server.batch) count

theorem Receiving.serve {server : Server} {total : Nat} (receiving : server.Receiving total)
    (count accepted : Nat) : (server.serve count accepted).Receiving total := by
  have order := receiving.order
  rw [Server.serve]
  split
  · exact receiving
  · rename_i rest shape
    have other := receiving.datagrams.congr (mem_batch_tail shape Source.noConfusion)
    rw [shape, List.nodup_cons] at order
    rw [serveListen]
    split
    · exact ⟨order.2, other⟩
    · exact ⟨order.2, other⟩
  · rename_i rest shape
    rw [shape, List.nodup_cons] at order
    have here : .udp ∈ server.batch := shape ▸ List.mem_cons_self
    have served := (receiving.datagrams.serve here).congr (iff_of_false False.elim order.1)
    rw [serveUdp]
    split
    · rename_i empty
      exact absurd empty (receiving.datagrams.some here)
    · exact ⟨order.2, served⟩
  · rename_i id rest shape
    have other := receiving.datagrams.congr
      (mem_serveClient_batch server shape count accepted Source.noConfusion)
    refine ⟨serveClient_order server shape order count accepted, ?_⟩
    rw [serveClient_datagrams]
    exact other

theorem Receiving.refuse {server : Server} {total : Nat} (receiving : server.Receiving total) :
    server.refuse.Receiving (total + if server.batch.head? = some .udp then 1 else 0) := by
  have order := receiving.order
  rw [Server.refuse]
  split
  · rename_i rest shape
    have other := receiving.datagrams.congr (mem_batch_tail shape Source.noConfusion)
    rw [shape, List.nodup_cons] at order
    rw [if_neg (by rw [shape]; simp)]
    exact ⟨order.2, other⟩
  · rename_i rest shape
    rw [shape, List.nodup_cons] at order
    have here : .udp ∈ server.batch := shape ▸ List.mem_cons_self
    rw [if_pos (by rw [shape]; rfl)]
    exact ⟨order.2, (receiving.datagrams.refuse here).congr (iff_of_false False.elim order.1)⟩
  · rename_i missed
    rw [if_neg fun head => (List.head?_eq_some_iff.mp head).elim missed]
    exact receiving

theorem step_receiving (server : Server) (event : Event) (next : Server) (total : Nat)
    (receiving : server.Receiving total) (legal : server.Legal event)
    (taken : step server event = .ok next) :
    next.Receiving (total + if Behind .udp server event then 1 else 0) := by
  obtain rfl := Except.ok.inj taken
  cases event with
  | datagram data =>
      simp only [Behind, true_and]
      exact ⟨receiving.order, receiving.datagrams.arrive data⟩
  | connect id =>
      rw [if_neg fun behind => Source.noConfusion behind.1]
      exact ⟨receiving.order, receiving.datagrams⟩
  | write id bytes => exact ⟨receiving.order, receiving.datagrams⟩
  | shutdown id => exact ⟨receiving.order, receiving.datagrams⟩
  | wait reports =>
      obtain ⟨idle, order, due⟩ := legal
      have free : ¬.udp ∈ server.batch := by
        rw [idle]
        exact List.not_mem_nil
      refine ⟨order, ?_⟩
      show Watch.Counted (if .udp ∈ reports then _ else _) _ _
      split
      · rename_i member
        exact (receiving.datagrams.report (due _ member) free).congr (iff_of_true trivial member)
      · rename_i missing
        exact receiving.datagrams.congr (iff_of_false free missing)
  | serve count accepted => exact receiving.serve count accepted
  | refuse => exact receiving.refuse

/-- In every run, when the server goes back to `epoll_wait`, the connections and the datagrams that
wait without a report to come are as many as have come while a report was to come already, and as
there were reports for which the call failed. -/
theorem unanswered_exact {buf : Buffer} {events : List Event} {server : Server}
    (legal : Along step Legal (init buf) events) (reached : run step (init buf) events = .ok server)
    (idle : server.batch = []) :
    server.backlog.queue.length =
        (if server.backlog.edge then 1 else 0) + tally step (Behind .listen) (init buf) events ∧
      server.datagrams.queue.length =
        (if server.datagrams.edge then 1 else 0) + tally step (Behind .udp) (init buf) events := by
  have nothing (source : Source) : source ∉ server.batch := by
    rw [idle]
    exact List.not_mem_nil
  have listening : (init buf).Listening 0 :=
    ⟨List.nodup_nil, Watch.empty_counted.congr (iff_of_false id List.not_mem_nil)⟩
  have receiving : (init buf).Receiving 0 :=
    ⟨List.nodup_nil, Watch.empty_counted.congr (iff_of_false id List.not_mem_nil)⟩
  have connections := run_tally step_listening events listening legal reached
  have datagrams := run_tally step_receiving events receiving legal reached
  rw [Nat.zero_add] at connections datagrams
  exact ⟨connections.backlog.idle (nothing _), datagrams.datagrams.idle (nothing _)⟩

theorem unanswered_exact_pair :
    ∃ server, run step (init fun _ => 0)
        [.connect 0, .connect 1, .wait [.listen], .serve 1 0, .connect 2, .wait [.listen],
          .refuse] = .ok server ∧
      server.backlog.queue.length = 2 ∧ server.backlog.edge = false := by
  have legal : Along step Legal (init fun _ => 0)
      [.connect 0, .connect 1, .wait [.listen], .serve 1 0, .connect 2, .wait [.listen],
        .refuse] := by decide
  exact ⟨_, rfl, (unanswered_exact legal rfl rfl).1.trans (by decide), rfl⟩

end Server

end StudyRecord.TcpAndUdp
