import StudyRecord.Chat.PollServer
import Mathlib.Data.List.Perm.Basic

/-!
Which messages the chat server relays. A client is sent what the buffer of the last sender
holds at that time, so messages arrive as long as each client becomes writable between a
message for it and whatever comes next to it or from its sender.
-/

namespace StudyRecord.PollServer

open CString Runs Server

def text (server : Server) (fd : Nat) : List UInt8 := stringAt bufferSize (server.users fd).buf 0

structure Table (server : Server) : Prop where
  listen : (server.fds 0).fd = server.listenFd ∧ (server.fds 0).events.pollout = false ∧
    (server.fds 0).events.pollrdhup = false
  quiet : (server.fds 0).revents.pollout = false ∧ (server.fds 0).revents.pollrdhup = false
  distinct : ∀ j k, 1 ≤ j → j ≤ server.userCount → 1 ≤ k → k ≤ server.userCount →
    (server.fds j).fd = (server.fds k).fd → j = k
  clients : ∀ j, 1 ≤ j → j ≤ server.userCount → (server.fds j).fd ≠ server.listenFd

/-- A client that is asked for `POLLOUT` has a message to come, and its pointer leads to
the sender of the last one, whose buffer holds the message unless it has been cleared. -/
structure Mail (server : Server) : Prop where
  waiting : ∀ j, 1 ≤ j → j ≤ server.userCount →
    ((server.fds j).events.pollout = true ∨
      server.i ≤ j ∧ (server.fds j).revents.pollout = true) →
    server.pending (server.fds j).fd ≠ []
  pointer : ∀ j, 1 ≤ j → j ≤ server.userCount → ∀ message,
    (server.pending (server.fds j).fd).getLast? = some message →
      (server.users (server.fds j).fd).writeBuf = some message.sender ∧
        message.sender ≠ (server.fds j).fd ∧ message.bytes ≠ [] ∧
        (server.kept message.sender = some message ∨ text server message.sender = [])
  kept : ∀ fd message, server.kept fd = some message →
    text server fd = message.bytes.takeWhile fun byte => byte ≠ 0
  delivered : ∀ fd, Delivered (server.due fd) (server.sent fd)

structure Orderly (server : Server) : Prop extends Table server, Mail server

theorem Orderly.next {server : Server} (orderly : Orderly server) : Orderly server.next := by
  refine ⟨⟨orderly.listen, orderly.quiet, orderly.distinct, orderly.clients⟩, ?_,
    orderly.pointer, orderly.kept, orderly.delivered⟩
  intro j positive inside asked
  refine orderly.waiting j positive inside (asked.imp_right fun later => ⟨?_, later.2⟩)
  exact (Nat.le_succ server.i).trans later.1

theorem Orderly.poll {server : Server} (orderly : Orderly server) {revents : Nat → Flags}
    (legal : Legal server (.poll revents)) : Orderly (server.poll revents) := by
  obtain ⟨_, reported⟩ := legal
  have entry (j : Nat) (inside : j ≤ server.userCount) :
      (server.poll revents).fds j = { server.fds j with revents := revents j } := if_pos inside
  have first := entry 0 (Nat.zero_le _)
  obtain ⟨_, out, rdhup⟩ := reported 0 (Nat.zero_le _)
  refine ⟨⟨?_, ?_, ?_, ?_⟩, ?_, ?_, orderly.kept, orderly.delivered⟩
  · rw [first]
    exact orderly.listen
  · rw [first]
    refine ⟨?_, ?_⟩
    · simpa [orderly.listen.2.1] using out
    · simpa [orderly.listen.2.2] using rdhup
  · intro j k positive inside positive' inside' same
    rw [entry j inside, entry k inside'] at same
    exact orderly.distinct j k positive inside positive' inside' same
  · intro j positive inside
    rw [entry j inside]
    exact orderly.clients j positive inside
  · intro j positive inside asked
    rw [entry j inside] at asked ⊢
    refine orderly.waiting j positive inside (.inl ?_)
    rcases asked with asked | ⟨_, asked⟩
    · exact asked
    · exact (reported j inside).2.1 asked
  · intro j positive inside message last
    rw [entry j inside] at last ⊢
    exact orderly.pointer j positive inside message last

theorem delivered_nil : Delivered [] [] := ⟨[], .refl _, rfl, fun _ => rfl⟩

theorem Orderly.accept {server : Server} (orderly : Orderly server) {connfd : Option Nat}
    (unused : ∀ fd ∈ connfd, ∀ j ≤ server.userCount, (server.fds j).fd ≠ fd) :
    Orderly (server.accept connfd) := by
  cases connfd with
  | none => exact orderly
  | some connfd =>
      simp only [Server.accept]
      split
      case isTrue => exact orderly
      case isFalse room =>
        have fresh (j : Nat) (inside : j ≤ server.userCount) : (server.fds j).fd ≠ connfd :=
          unused connfd rfl j inside
        have old (j : Nat) (inside : j ≤ server.userCount) :
            Function.update server.fds (server.userCount + 1)
              ⟨connfd, ⟨true, false, true, true⟩, .none⟩ j = server.fds j :=
          Function.update_of_ne (by omega) ..
        have new (j : Nat) (inside : j ≤ server.userCount + 1) (behind : ¬j ≤ server.userCount) :
            j = server.userCount + 1 := by omega
        refine ⟨⟨?_, ?_, ?_, ?_⟩, ?_, ?_, orderly.kept, ?_⟩
        · simp only [old 0 (Nat.zero_le _)]
          exact orderly.listen
        · simp only [old 0 (Nat.zero_le _)]
          exact orderly.quiet
        · intro j k positive inside positive' inside' same
          by_cases first : j ≤ server.userCount
          · by_cases second : k ≤ server.userCount
            · simp only [old j first, old k second] at same
              exact orderly.distinct j k positive first positive' second same
            · obtain rfl := new k inside' second
              simp only [old j first, Function.update_self] at same
              exact absurd same (fresh j first)
          · obtain rfl := new j inside first
            by_cases second : k ≤ server.userCount
            · simp only [old k second, Function.update_self] at same
              exact absurd same.symm (fresh k second)
            · exact (new k inside' second).symm
        · intro j positive inside
          by_cases first : j ≤ server.userCount
          · simp only [old j first]
            exact orderly.clients j positive first
          · obtain rfl := new j inside first
            simp only [Function.update_self]
            exact fun same => fresh 0 (Nat.zero_le _) (orderly.listen.1.trans same.symm)
        · intro j positive inside asked
          by_cases first : j ≤ server.userCount
          · simp only [old j first] at asked ⊢
            rw [Function.update_of_ne (fresh j first)]
            exact orderly.waiting j positive first asked
          · obtain rfl := new j inside first
            simp [Flags.none] at asked
        · intro j positive inside message last
          by_cases first : j ≤ server.userCount
          · simp only [old j first] at last ⊢
            rw [Function.update_of_ne (fresh j first)] at last
            exact orderly.pointer j positive first message last
          · obtain rfl := new j inside first
            simp at last
        · intro fd
          by_cases here : fd = connfd
          · subst here
            simp only [Function.update_self]
            exact delivered_nil
          · simp only [Function.update_of_ne here]
            exact orderly.delivered fd

theorem text_clear (server : Server) (fd : Nat) : text (server.clear fd) fd = [] := by
  have cleared := (written_received (server.users fd).buf []
    (show 0 < bufferSize by decide)).string
  rw [copyIn_nil] at cleared
  simpa [text, clear] using cleared

theorem text_clear_other (server : Server) {fd other : Nat} (different : other ≠ fd) :
    text (server.clear fd) other = text server other := by
  simp only [text, clear, Function.update_of_ne different]

theorem Orderly.clear {server : Server} (orderly : Orderly server) (fd : Nat) :
    Orderly (server.clear fd) := by
  refine ⟨⟨orderly.listen, orderly.quiet, orderly.distinct, orderly.clients⟩, orderly.waiting, ?_,
    ?_, orderly.delivered⟩
  · intro j positive inside message last
    obtain ⟨pointer, other, bytes, holds⟩ := orderly.pointer j positive inside message last
    refine ⟨?_, other, bytes, ?_⟩
    · rw [← pointer]
      by_cases here : (server.fds j).fd = fd
      · simp [Server.clear, here]
      · simp only [Server.clear, Function.update_of_ne here]
    · by_cases here : message.sender = fd
      · rw [here]
        exact .inr (text_clear server fd)
      · rw [text_clear_other server here]
        simp only [Server.clear, Function.update_of_ne here]
        exact holds
  · intro other message found
    by_cases here : other = fd
    · subst here
      simp [Server.clear] at found
    · rw [text_clear_other server here]
      simp only [Server.clear, Function.update_of_ne here] at found
      exact orderly.kept other message found

theorem buf_setWriteBuf (server : Server) (fd : Nat) (pointer : Option Nat) (other : Nat) :
    ((server.setWriteBuf fd pointer).users other).buf = (server.users other).buf := by
  by_cases here : other = fd
  · subst here
    simp [setWriteBuf]
  · simp [setWriteBuf, here]

theorem text_setWriteBuf (server : Server) (fd : Nat) (pointer : Option Nat) (other : Nat) :
    text (server.setWriteBuf fd pointer) other = text server other := by
  rw [text, buf_setWriteBuf]
  rfl

theorem Orderly.setWriteBuf {server : Server} (orderly : Orderly server) {fd : Nat}
    (gone : ∀ j, 1 ≤ j → j ≤ server.userCount → (server.fds j).fd ≠ fd) (pointer : Option Nat) :
    Orderly (server.setWriteBuf fd pointer) := by
  refine ⟨⟨orderly.listen, orderly.quiet, orderly.distinct, orderly.clients⟩, orderly.waiting, ?_,
    ?_, orderly.delivered⟩
  · intro j positive inside message last
    obtain ⟨leads, other, bytes, holds⟩ := orderly.pointer j positive inside message last
    refine ⟨?_, other, bytes, ?_⟩
    · rw [← leads]
      exact congrArg _ (Function.update_of_ne (gone j positive inside) ..)
    · rw [text_setWriteBuf]
      exact holds
  · intro other message found
    rw [text_setWriteBuf]
    exact orderly.kept other message found

def compacted (server : Server) : Server :=
  { server with
    fds := Function.update server.fds server.i (server.fds server.userCount)
    userCount := server.userCount - 1 }

def origin (server : Server) (j : Nat) : Nat := if j = server.i then server.userCount else j

theorem compacted_fds (server : Server) (j : Nat) :
    (compacted server).fds j = server.fds (origin server j) := by
  by_cases here : j = server.i
  · simp [compacted, origin, here]
  · simp [compacted, origin, here]

theorem origin_inside {server : Server} {j : Nat} (positive : 1 ≤ server.i)
    (inside : server.i ≤ server.userCount) (positive' : 1 ≤ j)
    (inside' : j ≤ (compacted server).userCount) :
    1 ≤ origin server j ∧ origin server j ≤ server.userCount ∧ origin server j ≠ server.i ∧
      (server.i ≤ j → server.i ≤ origin server j) := by
  change j ≤ server.userCount - 1 at inside'
  unfold origin
  split <;> omega

theorem origin_injective {server : Server} {j k : Nat}
    (inside : j ≤ (compacted server).userCount) (inside' : k ≤ (compacted server).userCount)
    (positive : 1 ≤ j) (same : origin server j = origin server k) : j = k := by
  change j ≤ server.userCount - 1 at inside
  change k ≤ server.userCount - 1 at inside'
  unfold origin at same
  split at same <;> split at same <;> omega

theorem Orderly.compacted {server : Server} (orderly : Orderly server) (positive : 1 ≤ server.i)
    (inside : server.i ≤ server.userCount) : Orderly (compacted server) := by
  have zero : origin server 0 = 0 := if_neg (by omega)
  have place {j : Nat} (positive' : 1 ≤ j)
      (inside' : j ≤ (PollServer.compacted server).userCount) :=
    origin_inside positive inside positive' inside'
  refine ⟨⟨?_, ?_, ?_, ?_⟩, ?_, ?_, orderly.kept, orderly.delivered⟩
  · rw [compacted_fds, zero]
    exact orderly.listen
  · rw [compacted_fds, zero]
    exact orderly.quiet
  · intro j k positive' inside' positive'' inside'' same
    rw [compacted_fds, compacted_fds] at same
    obtain ⟨first, last, _⟩ := place positive' inside'
    obtain ⟨first', last', _⟩ := place positive'' inside''
    exact origin_injective inside' inside'' positive'
      (orderly.distinct _ _ first last first' last' same)
  · intro j positive' inside'
    obtain ⟨first, last, _⟩ := place positive' inside'
    rw [compacted_fds]
    exact orderly.clients _ first last
  · intro j positive' inside' asked
    obtain ⟨first, last, _, later⟩ := place positive' inside'
    rw [compacted_fds] at asked ⊢
    exact orderly.waiting _ first last (asked.imp_right fun both => ⟨later both.1, both.2⟩)
  · intro j positive' inside' message final
    obtain ⟨first, last, _⟩ := place positive' inside'
    rw [compacted_fds] at final ⊢
    exact orderly.pointer _ first last message final

theorem Orderly.leave {server : Server} (orderly : Orderly server) (positive : 1 ≤ server.i)
    (inside : server.i ≤ server.userCount) :
    Orderly (server.leave (server.fds server.i).fd) := by
  have gone (j : Nat) (positive' : 1 ≤ j)
      (inside' : j ≤ (PollServer.compacted server).userCount) :
      ((PollServer.compacted server).fds j).fd ≠ (server.fds server.i).fd := by
    obtain ⟨first, last, different, _⟩ := origin_inside positive inside positive' inside'
    rw [compacted_fds]
    exact fun same => different (orderly.distinct _ _ first last positive inside same)
  exact ((orderly.compacted positive inside).setWriteBuf gone .none).clear _

def Among (server : Server) (sender count fd : Nat) : Prop :=
  fd ≠ sender ∧ ∃ j, 1 ≤ j ∧ j ≤ count ∧ (server.fds j).fd = fd

structure Addressed (server result : Server) (message : Message) (count : Nat) : Prop where
  same : result = { server with
    users := result.users, fds := result.fds, pending := result.pending }
  fds : ∀ j, result.fds j =
    if 1 ≤ j ∧ j ≤ count ∧ (server.fds j).fd ≠ message.sender then
      { server.fds j with
        events := { (server.fds j).events with pollin := false, pollout := true } }
    else
      server.fds j
  told : ∀ fd, Among server message.sender count fd →
    result.users fd = { server.users fd with writeBuf := some message.sender } ∧
      result.pending fd = server.pending fd ++ [message]
  others : ∀ fd, ¬Among server message.sender count fd →
    result.users fd = server.users fd ∧ result.pending fd = server.pending fd

theorem addressed {server : Server} (table : Table server) (message : Message) {count : Nat}
    (inside : count ≤ server.userCount) :
    Addressed server ((List.range' 1 count).foldl (address message) server) message count := by
  induction count with
  | zero =>
      refine ⟨rfl, fun j => ?_, fun fd among => ?_, fun fd _ => ⟨rfl, rfl⟩⟩
      · exact (if_neg (by omega)).symm
      · obtain ⟨_, j, positive, below, _⟩ := among
        omega
  | succ count ih =>
      have before := ih (by omega)
      rw [List.range'_1_concat, List.foldl_append, List.foldl_cons, List.foldl_nil,
        Nat.add_comm 1 count]
      generalize (List.range' 1 count).foldl (address message) server = middle at before ⊢
      have entry : middle.fds (count + 1) = server.fds (count + 1) := by
        rw [before.fds]
        exact if_neg (by omega)
      have among (fd : Nat) : Among server message.sender (count + 1) fd ↔
          Among server message.sender count fd ∨
            fd ≠ message.sender ∧ (server.fds (count + 1)).fd = fd := by
        constructor
        · rintro ⟨different, j, positive, below, here⟩
          by_cases last : j = count + 1
          · exact .inr ⟨different, last ▸ here⟩
          · exact .inl ⟨different, j, positive, by omega, here⟩
        · rintro (⟨different, j, positive, below, here⟩ | ⟨different, here⟩)
          · exact ⟨different, j, positive, by omega, here⟩
          · exact ⟨different, count + 1, by omega, le_refl _, here⟩
      have wider {j : Nat} (before : j ≠ count + 1) (other : Prop) :
          1 ≤ j ∧ j ≤ count ∧ other ↔ 1 ≤ j ∧ j ≤ count + 1 ∧ other := by
        constructor
        · rintro ⟨positive, below, here⟩
          exact ⟨positive, by omega, here⟩
        · rintro ⟨positive, below, here⟩
          exact ⟨positive, by omega, here⟩
      have new : ¬Among server message.sender count (server.fds (count + 1)).fd := by
        rintro ⟨_, j, positive, below, same⟩
        have := table.distinct j (count + 1) positive (by omega) (by omega) inside same
        omega
      simp only [address, entry]
      by_cases own : (server.fds (count + 1)).fd = message.sender
      · rw [if_pos own]
        refine ⟨before.same, fun j => ?_, fun fd told => ?_, fun fd apart => ?_⟩
        · rw [before.fds]
          by_cases last : j = count + 1
          · subst last
            simp [own]
          · exact if_congr (wider last _) rfl rfl
        · rcases (among fd).mp told with told | ⟨different, here⟩
          · exact before.told fd told
          · exact absurd (here.symm.trans own) different
        · exact before.others fd fun told => apart ((among fd).mpr (.inl told))
      · rw [if_neg own]
        have last : Among server message.sender (count + 1) (server.fds (count + 1)).fd :=
          (among _).mpr (.inr ⟨own, rfl⟩)
        obtain ⟨users, pending⟩ := before.others _ new
        refine ⟨?_, fun j => ?_, fun fd told => ?_, fun fd apart => ?_⟩
        · rw [before.same]
          rfl
        · by_cases here : j = count + 1
          · subst here
            simp [own]
          · simp only [Function.update_of_ne here]
            rw [before.fds]
            exact if_congr (wider here _) rfl rfl
        · by_cases here : fd = (server.fds (count + 1)).fd
          · subst here
            simp only [setWriteBuf, Function.update_self, users, pending, and_self]
          · simp only [setWriteBuf, Function.update_of_ne here]
            refine before.told fd (((among fd).mp told).resolve_right ?_)
            exact fun other => here other.2.symm
        · have here : fd ≠ (server.fds (count + 1)).fd := fun same => apart (same ▸ last)
          simp only [setWriteBuf, Function.update_of_ne here]
          exact before.others fd fun told => apart ((among fd).mpr (.inl told))

def said (server : Server) (message : Message) : Server :=
  let user := server.users message.sender
  { server with
    users := Function.update server.users message.sender
      { user with buf := copyIn user.buf 0 message.bytes }
    received := server.received + 1
    kept := Function.update server.kept message.sender (some message) }

theorem text_said (server : Server) (message : Message)
    (fits : message.bytes.length ≤ bufferSize - 1) :
    text (said (server.clear message.sender) message) message.sender =
      message.bytes.takeWhile fun byte => byte ≠ 0 := by
  have room : message.bytes.length < bufferSize := by
    have positive : 0 < bufferSize := by decide
    omega
  have written := (written_received (server.users message.sender).buf message.bytes room).string
  simpa [text, said, clear] using written

theorem text_said_other (server : Server) (message : Message) {other : Nat}
    (different : other ≠ message.sender) :
    text (said server message) other = text server other := by
  simp only [text, said, Function.update_of_ne different]

theorem Addressed.fd {server result : Server} {message : Message} {count : Nat}
    (after : Addressed server result message count) (j : Nat) :
    (result.fds j).fd = (server.fds j).fd := by
  rw [after.fds]
  split <;> rfl

theorem Addressed.text {server result : Server} {message : Message} {count : Nat}
    (after : Addressed server result message count) (fd : Nat) :
    text result fd = text server fd := by
  have buf : (result.users fd).buf = (server.users fd).buf := by
    by_cases told : Among server message.sender count fd
    · rw [(after.told fd told).1]
    · rw [(after.others fd told).1]
  rw [PollServer.text, buf]
  rfl

theorem Table.addressed {server result : Server} {message : Message} {count : Nat}
    (table : Table server) (after : Addressed server result message count) : Table result := by
  have first : result.fds 0 = server.fds 0 := by
    rw [after.fds]
    exact if_neg (by omega)
  have count : result.userCount = server.userCount := by rw [after.same]
  have listenFd : result.listenFd = server.listenFd := by rw [after.same]
  refine ⟨?_, ?_, ?_, ?_⟩
  · rw [first, listenFd]
    exact table.listen
  · rw [first]
    exact table.quiet
  · intro j k
    rw [after.fd, after.fd, count]
    exact table.distinct j k
  · intro j
    rw [after.fd, count, listenFd]
    exact table.clients j

theorem Orderly.told {server : Server} {message : Message}
    (orderly : Orderly (server.clear message.sender)) (nonempty : message.bytes ≠ [])
    (fits : message.bytes.length ≤ bufferSize - 1) :
    Orderly ((List.range' 1 server.userCount).foldl (address message)
      (said (server.clear message.sender) message)) := by
  have table : Table (said (server.clear message.sender) message) :=
    ⟨orderly.listen, orderly.quiet, orderly.distinct, orderly.clients⟩
  have after := addressed table message (le_refl server.userCount)
  generalize (List.range' 1 server.userCount).foldl (address message)
    (said (server.clear message.sender) message) = result at after ⊢
  have here : result.i = server.i := by rw [after.same]; rfl
  have count : result.userCount = server.userCount := by rw [after.same]; rfl
  have kept : result.kept = Function.update (server.clear message.sender).kept message.sender
      (some message) := by rw [after.same]; rfl
  have due : result.due = server.due := by rw [after.same]; rfl
  have sent : result.sent = server.sent := by rw [after.same]; rfl
  have among {j : Nat} (positive : 1 ≤ j) (inside : j ≤ server.userCount)
      (different : (server.fds j).fd ≠ message.sender) :
      Among (said (server.clear message.sender) message) message.sender server.userCount
        (server.fds j).fd :=
    ⟨different, j, positive, inside, rfl⟩
  have apart (fd : Nat) (same : fd = message.sender) :
      ¬Among (said (server.clear message.sender) message) message.sender server.userCount fd :=
    fun told => told.1 same
  refine ⟨table.addressed after, ⟨?_, ?_, ?_, ?_⟩⟩
  · intro j positive inside asked
    rw [count] at inside
    rw [after.fd]
    change result.pending (server.fds j).fd ≠ []
    by_cases own : (server.fds j).fd = message.sender
    · rw [(after.others _ (apart _ own)).2]
      refine orderly.waiting j positive inside ?_
      rw [after.fds, if_neg fun told => told.2.2 own, here] at asked
      exact asked
    · rw [(after.told _ (among positive inside own)).2]
      simp
  · intro j positive inside other last
    rw [count] at inside
    rw [after.fd] at last ⊢
    change (result.pending (server.fds j).fd).getLast? = some other at last
    change (result.users (server.fds j).fd).writeBuf = some other.sender ∧
      other.sender ≠ (server.fds j).fd ∧ _
    by_cases own : (server.fds j).fd = message.sender
    · obtain ⟨users, pending⟩ := after.others _ (apart _ own)
      rw [pending] at last
      obtain ⟨pointer, different, bytes, holds⟩ := orderly.pointer j positive inside other last
      have elsewhere : other.sender ≠ message.sender := fun same => different (same.trans own.symm)
      refine ⟨?_, different, bytes, ?_⟩
      · change ((server.clear message.sender).users (server.fds j).fd).writeBuf = _ at pointer
        rw [users, ← pointer, own]
        simp [said]
      · rw [kept, Function.update_of_ne elsewhere, after.text, text_said_other _ _ elsewhere]
        exact holds
    · obtain ⟨users, pending⟩ := after.told _ (among positive inside own)
      rw [pending, List.getLast?_concat] at last
      obtain rfl : message = other := Option.some.inj last
      refine ⟨by rw [users], fun same => own same.symm, nonempty, .inl ?_⟩
      rw [kept, Function.update_self]
  · intro fd other found
    rw [kept] at found
    rw [after.text]
    by_cases own : fd = message.sender
    · rw [own, Function.update_self] at found
      obtain rfl : message = other := Option.some.inj found
      rw [own]
      exact text_said server message fits
    · rw [Function.update_of_ne own] at found
      rw [text_said_other _ _ own]
      exact orderly.kept fd other found
  · rw [due, sent]
    exact orderly.delivered

theorem Orderly.receive {server : Server} (orderly : Orderly server) (positive : 1 ≤ server.i)
    (inside : server.i ≤ server.userCount) {recv : Received} (legal : recv.Legal) :
    Orderly (server.receive (server.fds server.i).fd recv) := by
  have cleared := orderly.clear (server.fds server.i).fd
  cases recv with
  | failed again =>
      cases again with
      | true => exact cleared.next
      | false => exact cleared.leave positive inside
  | closed => exact cleared.next
  | data bytes =>
      obtain ⟨nonempty, fits⟩ := legal
      let message : Message := ⟨server.received, (server.fds server.i).fd, bytes⟩
      have told := Orderly.told (show Orderly (server.clear message.sender) from cleared)
        nonempty fits
      exact told.next

theorem Delivered.concat {due : List Message} {sent : List (List UInt8)}
    (delivered : Delivered due sent) (message : Message) :
    Delivered (due ++ [message]) (sent ++ [message.bytes]) := by
  obtain ⟨order, permuted, contents, kept⟩ := delivered
  refine ⟨order ++ [message], permuted.append_right _, ?_, fun sender => ?_⟩
  · rw [List.map_append, contents, List.map_singleton]
  · rw [List.filter_append, List.filter_append, kept]

theorem Delivered.contents {due : List Message} {sent : List (List UInt8)}
    (delivered : Delivered due sent) : (due.map Message.bytes).Perm sent := by
  obtain ⟨order, permuted, rfl, _⟩ := delivered
  exact (permuted.map _).symm

theorem Delivered.single {due pending : List Message} {sent : List (List UInt8)}
    {string : List UInt8} (before : Delivered due sent)
    (after : Delivered (due ++ pending) (sent ++ [string])) :
    pending.map Message.bytes = [string] := by
  have all := after.contents
  rw [List.map_append] at all
  have rest : (sent ++ pending.map Message.bytes).Perm (sent ++ [string]) :=
    (before.contents.symm.append_right _).trans all
  exact List.perm_singleton.mp ((List.perm_append_left_iff sent).mp rest)

def relayed (server : Server) (connfd sender : Nat) : Server :=
  let entry := server.fds server.i
  let events := { entry.events with pollout := false, pollin := true }
  { server.setWriteBuf connfd .none with
    fds := Function.update server.fds server.i { entry with events }
    pending := Function.update server.pending connfd []
    due := Function.update server.due connfd (server.due connfd ++ server.pending connfd)
    sent := Function.update server.sent connfd (server.sent connfd ++ [text server sender]) }

theorem send_pointer {server : Server} {connfd sender : Nat}
    (pointer : (server.users connfd).writeBuf = some sender) :
    server.send connfd = relayed server connfd sender := by
  simp only [Server.send, pointer]
  rfl

theorem relayed_fd (server : Server) (connfd sender j : Nat) :
    ((relayed server connfd sender).fds j).fd = (server.fds j).fd := by
  by_cases here : j = server.i
  · simp [relayed, here]
  · simp [relayed, here]

theorem Table.relayed {server : Server} (table : Table server) (positive : 1 ≤ server.i)
    (connfd sender : Nat) : Table (relayed server connfd sender) := by
  have first : (PollServer.relayed server connfd sender).fds 0 = server.fds 0 :=
    Function.update_of_ne (by omega) ..
  refine ⟨?_, ?_, ?_, ?_⟩
  · rw [first]
    exact table.listen
  · rw [first]
    exact table.quiet
  · intro j k
    rw [relayed_fd, relayed_fd]
    exact table.distinct j k
  · intro j
    rw [relayed_fd]
    exact table.clients j

theorem Orderly.send {server : Server} (orderly : Orderly server) (positive : 1 ≤ server.i)
    (inside : server.i ≤ server.userCount) {message : Message}
    (only : server.pending (server.fds server.i).fd = [message])
    (kept : server.kept message.sender = some message) (whole : 0 ∉ message.bytes) :
    Orderly (server.send (server.fds server.i).fd).next := by
  obtain ⟨pointer, _, _, _⟩ := orderly.pointer server.i positive inside message (by simp [only])
  rw [send_pointer pointer]
  have string : text server message.sender = message.bytes := by
    rw [orderly.kept _ _ kept]
    refine List.takeWhile_eq_self_iff.mpr fun byte member => decide_eq_true fun zero => ?_
    exact whole (zero ▸ member)
  have table := orderly.toTable.relayed positive (server.fds server.i).fd message.sender
  have entry {j : Nat} (other : j ≠ server.i) :
      (relayed server (server.fds server.i).fd message.sender).fds j = server.fds j :=
    Function.update_of_ne other ..
  have apart {j : Nat} (positive' : 1 ≤ j) (inside' : j ≤ server.userCount)
      (other : j ≠ server.i) : (server.fds j).fd ≠ (server.fds server.i).fd :=
    fun same => other (orderly.distinct j server.i positive' inside' positive inside same)
  refine ⟨⟨table.listen, table.quiet, table.distinct, table.clients⟩, ⟨?_, ?_, ?_, ?_⟩⟩
  · intro j positive' inside' asked
    by_cases here : j = server.i
    · subst here
      rcases asked with asked | ⟨later, _⟩
      · simp [relayed, Server.next] at asked
      · exact absurd later (Nat.not_succ_le_self _)
    · simp only [Server.next, entry here] at asked ⊢
      simp only [relayed, Function.update_of_ne (apart positive' inside' here)]
      exact orderly.waiting j positive' inside'
        (asked.imp_right fun both => ⟨Nat.le_of_succ_le both.1, both.2⟩)
  · intro j positive' inside' other last
    simp only [Server.next, relayed_fd] at last ⊢
    by_cases here : j = server.i
    · subst here
      simp [relayed] at last
    · simp only [relayed, Function.update_of_ne (apart positive' inside' here)] at last
      obtain ⟨leads, different, bytes, holds⟩ := orderly.pointer j positive' inside' other last
      refine ⟨?_, different, bytes, holds.imp_right fun empty => ?_⟩
      · rw [← leads]
        exact congrArg _ (Function.update_of_ne (apart positive' inside' here) ..)
      · exact (text_setWriteBuf server _ .none other.sender).trans empty
  · intro fd other found
    exact (text_setWriteBuf server _ .none fd).trans (orderly.kept fd other found)
  · intro fd
    by_cases here : fd = (server.fds server.i).fd
    · subst here
      simp only [Server.next, relayed, Function.update_self, only, string]
      exact (orderly.delivered _).concat message
    · simp only [Server.next, relayed, Function.update_of_ne here]
      exact orderly.delivered fd

theorem Orderly.missed {server : Server} (orderly : Orderly server) (positive : 1 ≤ server.i)
    (inside : server.i ≤ server.userCount)
    (asked : (server.fds server.i).revents.pollout = true)
    (missed : ¬∃ message, server.pending (server.fds server.i).fd = [message] ∧
      server.kept message.sender = some message ∧ 0 ∉ message.bytes) :
    ¬Delivered ((server.send (server.fds server.i).fd).due (server.fds server.i).fd)
      ((server.send (server.fds server.i).fd).sent (server.fds server.i).fd) := by
  intro delivered
  have some := orderly.waiting server.i positive inside (.inr ⟨le_refl _, asked⟩)
  have last := List.getLast?_eq_some_getLast some
  obtain ⟨pointer, _, nonempty, holds⟩ := orderly.pointer server.i positive inside _ last
  rw [send_pointer pointer] at delivered
  simp only [relayed, Function.update_self] at delivered
  have single := (orderly.delivered _).single delivered
  obtain ⟨message, only, bytes⟩ := List.map_eq_singleton_iff.mp single
  simp only [only, List.getLast_singleton] at holds nonempty bytes
  rcases holds with kept | empty
  · refine missed ⟨message, only, kept, ?_⟩
    rw [bytes, orderly.kept _ _ kept]
    intro zero
    simpa using List.mem_takeWhile_imp zero
  · exact nonempty (bytes.trans empty)

theorem orderly_init (listenFd : Nat) (users : Nat → ClientData) :
    Orderly (Server.init listenFd users) := by
  have empty : ¬1 ≤ (Server.init listenFd users).userCount := Nat.not_succ_le_zero 0
  refine ⟨⟨⟨rfl, rfl, rfl⟩, ⟨rfl, rfl⟩, ?_, ?_⟩, ?_, ?_, ?_, fun _ => delivered_nil⟩
  · exact fun j k positive inside => absurd (positive.trans inside) empty
  · exact fun j positive inside => absurd (positive.trans inside) empty
  · exact fun j positive inside => absurd (positive.trans inside) empty
  · exact fun j positive inside => absurd (positive.trans inside) empty
  · intro fd message found
    contradiction

theorem Table.positive {server : Server} (table : Table server)
    (client : server.branch = .pollrdhup ∨ server.branch = .pollin ∨ server.branch = .pollout) :
    1 ≤ server.i := by
  refine Nat.one_le_iff_ne_zero.mpr fun zero => ?_
  obtain ⟨out, rdhup⟩ := table.quiet
  simp only [branch, zero, table.listen.1, out, rdhup, true_and] at client
  cases found : (server.fds 0).revents.pollin <;> cases failed : (server.fds 0).revents.pollerr <;>
    simp [found, failed] at client

theorem pollout_asked {server : Server} (turn : server.branch = .pollout) :
    (server.fds server.i).revents.pollout = true := by
  by_contra idle
  simp only [branch, if_neg idle] at turn
  split_ifs at turn

theorem Orderly.step {server next : Server} {event : Event} (orderly : Orderly server)
    (legal : Legal server event) (prompt : Prompt server event)
    (taken : step server event = .ok next) : Orderly next := by
  cases event with
  | poll revents =>
      obtain rfl : server.poll revents = next := Except.ok.inj taken
      exact orderly.poll legal
  | visit answer =>
      obtain rfl : server.visit answer = next := Except.ok.inj taken
      obtain ⟨inside, received, unused⟩ := legal
      unfold Server.visit
      cases turn : server.branch with
      | listen => exact (orderly.accept unused).next
      | pollerr => exact orderly.next
      | pollrdhup => exact orderly.leave (orderly.positive (.inl turn)) inside
      | pollin => exact orderly.receive (orderly.positive (.inr (.inl turn))) inside received
      | pollout =>
          obtain ⟨message, only, kept, whole⟩ := prompt turn
          exact orderly.send (orderly.positive (.inr (.inr turn))) inside only kept whole
      | nothing => exact orderly.next

theorem Orderly.broken {server : Server} {event : Event} (orderly : Orderly server)
    (legal : Legal server event) (late : ¬Prompt server event) :
    ∃ next, PollServer.step server event = .ok next ∧
      ¬∀ fd, Delivered (next.due fd) (next.sent fd) := by
  cases event with
  | poll revents => exact absurd trivial late
  | visit answer =>
      obtain ⟨inside, _⟩ := legal
      obtain ⟨turn, missed⟩ := Classical.not_imp.mp late
      refine ⟨server.visit answer, rfl, fun delivered => ?_⟩
      have positive := orderly.positive (.inr (.inr turn))
      have here := delivered (server.fds server.i).fd
      simp only [Server.visit, turn] at here
      exact orderly.missed positive inside (pollout_asked turn) missed here

/-- The messages to the clients that were writable have arrived, in every state of a run,
if and only if each of them was the only one for its client and still where it was put. -/
theorem always_delivered_iff (listenFd : Nat) (users : Nat → ClientData) (events : List Event)
    (legal : Along step Legal (Server.init listenFd users) events) :
    Always step (fun server => ∀ fd, Delivered (server.due fd) (server.sent fd))
        (Server.init listenFd users) events ↔
      Along step Prompt (Server.init listenFd users) events :=
  always_iff_along (fun _ orderly => orderly.delivered)
    (fun _ _ _ orderly legal prompt taken => orderly.step legal prompt taken)
    (fun _ _ orderly legal late => orderly.broken legal late) events
    (orderly_init listenFd users) legal

def blank : Nat → ClientData := fun _ => ⟨.none, fun _ => 0⟩

def readable : Flags := ⟨true, false, false, false⟩

def writable : Flags := ⟨false, true, false, false⟩

def quiet : Answer := ⟨.none, .closed⟩

def round (reported : List Flags) (answers : List Answer) : List Event :=
  .poll (fun i => reported.getD i .none) :: answers.map .visit

def joined : List Event :=
  round [readable] [⟨some 5, .closed⟩, quiet] ++
    round [readable] [⟨some 6, .closed⟩, quiet, quiet]

theorem always_delivered_iff_greeting :
    Always step (fun server => ∀ fd, Delivered (server.due fd) (server.sent fd))
        (Server.init 3 blank)
        (joined ++ round [.none, readable] [quiet, ⟨.none, .data [104, 105]⟩, quiet] ++
          round [.none, .none, writable] [quiet, quiet, quiet]) ↔
      Along step Prompt (Server.init 3 blank)
        (joined ++ round [.none, readable] [quiet, ⟨.none, .data [104, 105]⟩, quiet] ++
          round [.none, .none, writable] [quiet, quiet, quiet]) :=
  always_delivered_iff _ _ _ (by decide +kernel)

/-- Client 5 speaks again in the round in which client 6 is writable: client 6 is sent the
second message, and the first one never. -/
def overtaken : List Event :=
  joined ++ round [.none, readable] [quiet, ⟨.none, .data [104, 105]⟩, quiet] ++
    round [.none, readable, writable] [quiet, ⟨.none, .data [121, 111]⟩, quiet]

theorem second_message_replaces :
    Along step Legal (Server.init 3 blank) overtaken ∧
      ∃ final, run step (Server.init 3 blank) overtaken = .ok final ∧
        final.due 6 = [⟨0, 5, [104, 105]⟩, ⟨1, 5, [121, 111]⟩] ∧ final.sent 6 = [[121, 111]] ∧
        ¬Delivered (final.due 6) (final.sent 6) := by
  refine ⟨by decide +kernel, _, rfl, by decide +kernel, by decide +kernel, fun delivered => ?_⟩
  exact absurd delivered.contents.length_eq (by decide +kernel)

end StudyRecord.PollServer
