import StudyRecord.Practice.EpollOneshot

/-!
The connections of `epolloneshot.cpp` that are forgotten: the argument of their thread was
overwritten before the thread read it, and they stay disarmed with nobody to arm them.
-/

namespace StudyRecord.EpollOneshot

open Readiness Runs

namespace Server

/-- No thread works on the connection, and nothing will hand it to one. -/
structure Forgotten (sockfd : Nat) (taken : List UInt8) (server : Server) : Prop where
  isOpen : (server.clients sockfd).isOpen = true
  held : (server.clients sockfd).watch.held = true
  taken : (server.clients sockfd).watch.taken = taken
  absent : sockfd ∉ server.hands
  target : server.target ≠ some sockfd

theorem mem_hands {server : Server} {sockfd : Nat} :
    sockfd ∈ server.hands ↔ .client sockfd ∈ server.events ∨
      ∃ worker ∈ server.workers, worker.hand server.target = some sockfd := by
  rw [hands, List.mem_append, List.mem_filterMap, List.mem_filterMap]
  refine or_congr_left ⟨?_, fun member => ⟨_, member, rfl⟩⟩
  rintro ⟨source, member, same⟩
  cases source with
  | listen => contradiction
  | client other =>
      obtain rfl : other = sockfd := Option.some.inj same
      exact member

theorem work_apart {server : Server} {sockfd : Nat} {worker : Worker}
    (apart : worker.hand server.target ≠ some sockfd) (result : Recv) :
    (server.work result worker).1.clients sockfd = server.clients sockfd ∧
      (server.work result worker).2.hand server.target ≠ some sockfd := by
  cases worker with
  | starting =>
      simp only [work]
      split
      · exact ⟨rfl, apart⟩
      · rename_i fds argument
        refine ⟨rfl, fun same => apart ?_⟩
        rw [Worker.hand, target, argument]
        exact same
  | opening other =>
      simp only [work]
      split <;> exact ⟨rfl, apart⟩
  | receiving other own =>
      have different : sockfd ≠ other := fun same => apart (congrArg some same.symm)
      cases result with
      | error => exact ⟨rfl, apart⟩
      | bytes count =>
          simp only [work, recv]
          split
          · split
            · split <;> exact ⟨rfl, apart⟩
            · exact ⟨Function.update_of_ne different .., apart⟩
          · exact ⟨rfl, apart⟩
  | resetting other own =>
      have different : sockfd ≠ other := fun same => apart (congrArg some same.symm)
      simp only [work, resetOneshot]
      split
      · exact ⟨Function.update_of_ne different .., Option.some_ne_none _ ∘ Eq.symm⟩
      · exact ⟨rfl, Option.some_ne_none _ ∘ Eq.symm⟩
  | closing other =>
      have different : sockfd ≠ other := fun same => apart (congrArg some same.symm)
      exact ⟨Function.update_of_ne different .., Option.some_ne_none _ ∘ Eq.symm⟩
  | ended => exact ⟨rfl, apart⟩

section Forgotten

variable {server : Server} {sockfd : Nat} {taken : List UInt8}

theorem Forgotten.update (forgotten : server.Forgotten sockfd taken) {next : Server}
    (clients : next.clients sockfd = server.clients sockfd) (target : next.target ≠ some sockfd)
    (absent : sockfd ∉ next.hands) : next.Forgotten sockfd taken := by
  refine ⟨?_, ?_, ?_, absent, target⟩
  · rw [clients]
    exact forgotten.isOpen
  · rw [clients]
    exact forgotten.held
  · rw [clients]
    exact forgotten.taken

theorem Forgotten.setClient (forgotten : server.Forgotten sockfd taken) (other : Nat)
    {client : Client} (isOpen : client.isOpen = (server.clients other).isOpen)
    (held : client.watch.held = (server.clients other).watch.held)
    (same : client.watch.taken = (server.clients other).watch.taken) :
    (server.setClient other client).Forgotten sockfd taken := by
  by_cases here : sockfd = other
  · subst here
    have now : (server.setClient sockfd client).clients sockfd = client := Function.update_self ..
    refine ⟨?_, ?_, ?_, forgotten.absent, forgotten.target⟩
    · rw [now, isOpen]
      exact forgotten.isOpen
    · rw [now, held]
      exact forgotten.held
    · rw [now, same]
      exact forgotten.taken
  · exact forgotten.update (Function.update_of_ne here ..) forgotten.target forgotten.absent

theorem absent_handled {other : Nat} {rest : List Source}
    (events : server.events = .client other :: rest) (different : other ≠ sockfd)
    (rest' : .client sockfd ∉ rest)
    (busy : ∀ worker ∈ server.workers, worker ≠ .starting →
      worker.hand server.target ≠ some sockfd) (accepted : Option Accepted) :
    sockfd ∉ (server.handle accepted).hands := by
  have next : server.handle accepted = { server with
      events := rest
      argument := some ⟨server.epollfd, other⟩
      workers := server.workers ++ [.starting] } := by
    rw [Server.handle, events]
  rw [next, mem_hands]
  rintro (reported | ⟨worker, member, hand⟩)
  · exact rest' reported
  · rw [List.mem_append, List.mem_singleton] at member
    cases worker with
    | starting => exact different (Option.some.inj hand)
    | opening fd => exact busy _ (member.resolve_right (by simp)) (by simp) hand
    | receiving fd own => exact busy _ (member.resolve_right (by simp)) (by simp) hand
    | resetting fd own => exact busy _ (member.resolve_right (by simp)) (by simp) hand
    | closing fd => exact busy _ (member.resolve_right (by simp)) (by simp) hand
    | ended => contradiction

theorem Forgotten.handle (forgotten : server.Forgotten sockfd taken) {accepted : Option Accepted}
    (legal : server.Legal (.handle accepted)) :
    (server.handle accepted).Forgotten sockfd taken := by
  have absent := forgotten.absent
  rw [mem_hands, not_or, not_exists] at absent
  cases events : server.events with
  | nil => exact absurd events legal.1
  | cons source rest =>
      rw [events] at absent
      have rest' : .client sockfd ∉ rest := fun member => absent.1 (List.mem_cons_of_mem _ member)
      cases source with
      | listen =>
          have hands : sockfd ∉ ({ server with events := rest } : Server).hands := by
            rw [mem_hands]
            exact fun either => either.elim rest' fun ⟨worker, here⟩ => absent.2 worker here
          cases accepted with
          | none =>
              have next : server.handle none = { server with events := rest } := by
                rw [Server.handle, events]
              rw [next]
              exact forgotten.update rfl forgotten.target hands
          | some new =>
              have next : server.handle (some new) =
                  ({ server with events := rest }.putLen new.clientLen).setClient new.connfd
                    new.client := by
                rw [Server.handle, events]
              have different : sockfd ≠ new.connfd := by
                rintro rfl
                exact Bool.false_ne_true ((legal.2 new rfl).symm.trans forgotten.isOpen)
              have target := putLen_target { server with events := rest } new.clientLen
              rw [next]
              refine forgotten.update (Function.update_of_ne different ..) ?_ ?_
              · exact fun same => forgotten.target (target.symm.trans same)
              · rw [Server.hands] at hands ⊢
                rw [← target] at hands
                exact hands
      | client other =>
          have different : other ≠ sockfd := by
            rintro rfl
            exact absent.1 List.mem_cons_self
          have here := absent_handled events different rest'
            (fun worker member _ hand => absent.2 worker ⟨member, hand⟩) accepted
          have next : server.handle accepted = { server with
              events := rest
              argument := some ⟨server.epollfd, other⟩
              workers := server.workers ++ [.starting] } := by
            rw [Server.handle, events]
          rw [next] at here ⊢
          exact forgotten.update rfl (fun same => different (Option.some.inj same)) here

theorem Forgotten.run (forgotten : server.Forgotten sockfd taken) (index : Nat) (result : Recv) :
    (server.after (.run index result)).Forgotten sockfd taken := by
  have absent := forgotten.absent
  rw [mem_hands, not_or, not_exists] at absent
  simp only [after]
  split
  · exact forgotten
  · rename_i worker found
    have apart (other : Worker) (member : other ∈ server.workers) :
        other.hand server.target ≠ some sockfd :=
      fun hand => absent.2 other ⟨member, hand⟩
    obtain ⟨clients, hand⟩ := work_apart (apart worker (List.mem_of_getElem? found)) result
    have same := work_same server result worker
    have target : (server.work result worker).1.target = server.target := by
      rw [Server.target, same.argument, Server.target]
    refine forgotten.update clients (fun named => forgotten.target (target.symm.trans named)) ?_
    · rw [mem_hands]
      rintro (reported | ⟨other, member, here⟩)
      · simp only [same.events] at reported
        exact absent.1 reported
      · have here : other.hand server.target = some sockfd := target ▸ here
        obtain before | now := List.mem_or_eq_of_mem_set member
        · exact apart other before here
        · exact hand (now ▸ here)

theorem Forgotten.step (server : Server) (event : Event) (next : Server)
    (forgotten : server.Forgotten sockfd taken) (legal : server.Legal event)
    (taken' : server.step event = .ok next) : next.Forgotten sockfd taken := by
  obtain rfl : server.after event = next := Except.ok.inj taken'
  cases event with
  | write other bytes => exact forgotten.setClient other rfl rfl rfl
  | shutdown other => exact forgotten.setClient other rfl rfl rfl
  | wait reports =>
      have unreported : .client sockfd ∉ reports := by
        intro member
        have ready := legal.2.2 _ member
        exact Bool.false_ne_true (ready.2.1.symm.trans forgotten.held)
      have absent := forgotten.absent
      rw [mem_hands, not_or] at absent
      refine forgotten.update (if_neg unreported) forgotten.target ?_
      rw [mem_hands]
      exact fun either => either.elim unreported absent.2
  | handle accepted => exact forgotten.handle legal
  | run index result => exact forgotten.run index result

end Forgotten

/-- When everything has been in time so far and the main thread handles a report of a connection
while a thread has not read the descriptor in its argument yet, the connection of that thread is
forgotten for good: whatever happens later, it stays open, no thread comes to it and no more of its
bytes are received. -/
theorem overwritten_forgotten (epollfd : Nat) (events later : List Event) (server final : Server)
    (legal : Along step Legal (init epollfd) events)
    (inTime : Along step InTime (init epollfd) events)
    (reached : run step (init epollfd) events = .ok server) (sockfd lost : Nat)
    (rest : List Source) (reported : server.events = .client sockfd :: rest)
    (begun : .starting ∈ server.workers) (target : server.target = some lost)
    (accepted : Option Accepted)
    (legal' : Along step Legal server (.handle accepted :: later))
    (reached' : run step server (.handle accepted :: later) = .ok final) :
    (final.clients lost).isOpen = true ∧ lost ∉ final.hands ∧
      (final.clients lost).watch.taken = (server.clients lost).watch.taken := by
  have preserved (server : Server) (event : Event) (next : Server) (inv : server.Inv)
      (both : server.Legal event ∧ server.InTime event) (taken : server.step event = .ok next) :
      next.Inv := step_inv server event next inv both.1 both.2 taken
  have inv := run_invariant preserved events (init_inv epollfd) (legal.and events inTime) reached
  obtain ⟨index, found⟩ := List.mem_iff_getElem?.mp begun
  obtain ⟨front, back, split, _⟩ := Threads.split_at found
  have holds := inv.holds.perm (hands_perm split)
  rw [Worker.hand, target, reported] at holds
  have absent : lost ∉ (Source.client sockfd :: rest).filterMap Source.client? ++
      (front ++ back).filterMap (Worker.hand (some lost)) := (List.nodup_cons.mp holds.nodup).1
  rw [List.mem_append, not_or] at absent
  have here := (holds.held lost).mp List.mem_cons_self
  have different : sockfd ≠ lost := by
    rintro rfl
    exact absent.1 List.mem_cons_self
  have rest' : .client lost ∉ rest := fun member =>
    absent.1 (List.mem_filterMap.mpr ⟨_, List.mem_cons_of_mem _ member, rfl⟩)
  have busy (worker : Worker) (member : worker ∈ server.workers) (started : worker ≠ .starting) :
      worker.hand server.target ≠ some lost := by
    intro hand
    rw [split, List.mem_append, List.mem_cons] at member
    refine absent.2 (List.mem_filterMap.mpr ⟨worker, ?_, target ▸ hand⟩)
    rw [List.mem_append]
    rcases member with front' | same | back'
    · exact .inl front'
    · exact absurd same started
    · exact .inr back'
  have handled := absent_handled reported different rest' busy accepted
  have next : server.handle accepted = { server with
      events := rest
      argument := some ⟨server.epollfd, sockfd⟩
      workers := server.workers ++ [.starting] } := by
    rw [Server.handle, reported]
  have forgotten : (server.handle accepted).Forgotten lost (server.clients lost).watch.taken := by
    rw [next] at handled ⊢
    exact ⟨here.1, here.2, rfl, handled, fun same => different (Option.some.inj same)⟩
  have after := run_invariant Forgotten.step later forgotten (legal'.2 _ rfl) reached'
  exact ⟨after.isOpen, after.absent, after.taken⟩

theorem overwritten_forgotten_first :
    ∃ server final, run step (init 4) (twoReports.take 6) = .ok server ∧
      run step server [.handle none, .run 0 (.bytes 1), .write 5 [3]] = .ok final ∧
      (final.clients 5).isOpen = true ∧ 5 ∉ final.hands ∧
        (final.clients 5).watch.taken = (server.clients 5).watch.taken :=
  ⟨_, _, rfl, rfl, overwritten_forgotten 4 (twoReports.take 6) [.run 0 (.bytes 1), .write 5 [3]] _ _
    (by decide) (by decide) rfl 6 5 [] rfl (by decide) rfl none (by decide) rfl⟩

end Server

end StudyRecord.EpollOneshot
