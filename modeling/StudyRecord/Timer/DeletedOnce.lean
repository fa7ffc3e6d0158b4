import StudyRecord.Timer.CloseInactive
import StudyRecord.Timer.SortedSet

/-!
Every inactivity timer is deleted once, and descriptors are closed while their clients are
connected, as long as no event of a client is handled after a tick of the same batch has
closed its descriptor.
-/

namespace StudyRecord.CloseInactive

open SortedList LinkedList Runs

/-- Each timer that was created is in the list or has been deleted, once, and after `main`
all of them have been. -/
structure EachOnce (server : Server) : Prop where
  once : server.deleted.Nodup
  gone : ∀ timer, timer ∈ server.deleted ↔
    timer < server.created ∧ server.timers.heap timer = none
  all : server.finished = true → ∀ timer < server.created, timer ∈ server.deleted

structure Owns (server : Server) (fd timer : Nat) : Prop where
  connected : server.connected fd = true
  entry : server.users fd = ⟨fd, some timer⟩
  data : ∃ data, contents server.timers timer = some data ∧ data.userData = some fd

structure Tracked (server : Server) : Prop where
  list : ∃ items, Holds server.timers items
  owner : ∀ timer, contents server.timers timer ≠ none → ∃ fd, Owns server fd timer
  timer : ∀ fd, server.connected fd = true → ∃ timer, Owns server fd timer
  once : server.deleted.Nodup
  gone : ∀ timer, timer ∈ server.deleted ↔
    timer < server.created ∧ contents server.timers timer = none
  created : ∀ timer, contents server.timers timer ≠ none → timer < server.created

theorem Owns.live {server : Server} {fd timer : Nat} (owns : Owns server fd timer) :
    contents server.timers timer ≠ none := by
  obtain ⟨data, found, _⟩ := owns.data
  rw [found]
  exact Option.some_ne_none data

theorem Owns.unique {server : Server} {fd timer other : Nat} (one : Owns server fd timer)
    (entry : server.users fd = ⟨fd, some other⟩) : other = timer := by
  have same := entry.symm.trans one.entry
  simpa using same

theorem Owns.sole {server : Server} {fd other timer : Nat} (one : Owns server fd timer)
    (two : Owns server other timer) : fd = other := by
  obtain ⟨data, found, user⟩ := one.data
  obtain ⟨data', found', user'⟩ := two.data
  obtain rfl : data = data' := Option.some.inj (found.symm.trans found')
  exact Option.some.inj (user.symm.trans user')

theorem Tracked.added {server next : Server} (tracked : Tracked server) {fd : Nat}
    {data : UtilTimer Unit Nat} (unused : server.connected fd = false)
    (user : data.userData = some fd) (list : ∃ items, Holds next.timers items)
    (users : next.users = Function.update server.users fd ⟨fd, some server.created⟩)
    (connected : next.connected = Function.update server.connected fd true)
    (timers : contents next.timers =
      Function.update (contents server.timers) server.created (some data))
    (created : next.created = server.created + 1) (deleted : next.deleted = server.deleted) :
    Tracked next := by
  have fresh : contents server.timers server.created = none := by
    refine Classical.byContradiction fun used => ?_
    exact absurd (tracked.created server.created used) (Nat.lt_irrefl _)
  have new : Owns next fd server.created := by
    refine ⟨?_, ?_, data, ?_, user⟩
    · rw [connected, Function.update_self]
    · rw [users, Function.update_self]
    · rw [timers, Function.update_self]
  have old {other timer : Nat} (owns : Owns server other timer) : Owns next other timer := by
    have different : other ≠ fd := by
      rintro rfl
      rw [owns.connected] at unused
      contradiction
    have notNew : timer ≠ server.created := by
      rintro rfl
      exact owns.live fresh
    refine ⟨?_, ?_, ?_⟩
    · rw [connected, Function.update_of_ne different]
      exact owns.connected
    · rw [users, Function.update_of_ne different]
      exact owns.entry
    · rw [timers, Function.update_of_ne notNew]
      exact owns.data
  refine ⟨list, ?_, ?_, deleted ▸ tracked.once, ?_, ?_⟩
  · intro timer live
    by_cases here : timer = server.created
    · exact ⟨fd, here ▸ new⟩
    · rw [timers, Function.update_of_ne here] at live
      obtain ⟨other, owns⟩ := tracked.owner timer live
      exact ⟨other, old owns⟩
  · intro other open'
    by_cases here : other = fd
    · exact ⟨server.created, here ▸ new⟩
    · rw [connected, Function.update_of_ne here] at open'
      obtain ⟨timer, owns⟩ := tracked.timer other open'
      exact ⟨timer, old owns⟩
  · intro timer
    rw [deleted, tracked.gone, timers, created]
    by_cases here : timer = server.created
    · subst here
      simp
    · rw [Function.update_of_ne here]
      exact and_congr_left fun _ => by omega
  · intro timer live
    rw [created]
    by_cases here : timer = server.created
    · omega
    · rw [timers, Function.update_of_ne here] at live
      have below := tracked.created timer live
      omega

theorem Tracked.removed {server next : Server} (tracked : Tracked server) {removed : List Nat}
    (once : removed.Nodup) (live : ∀ timer ∈ removed, contents server.timers timer ≠ none)
    (list : ∃ items, Holds next.timers items) (users : next.users = server.users)
    (connected : ∀ fd, next.connected fd = true ↔
      server.connected fd = true ∧ ∀ timer ∈ removed, ¬Owns server fd timer)
    (timers : ∀ timer, contents next.timers timer =
      if timer ∈ removed then none else contents server.timers timer)
    (created : next.created = server.created) (deleted : next.deleted = server.deleted ++ removed) :
    Tracked next := by
  have stays {fd timer : Nat} (owns : Owns server fd timer) (kept : timer ∉ removed) :
      Owns next fd timer := by
    refine ⟨(connected fd).mpr ⟨owns.connected, fun other among owns' => ?_⟩, ?_, ?_⟩
    · rw [owns.unique owns'.entry] at among
      exact kept among
    · rw [users]
      exact owns.entry
    · rw [timers, if_neg kept]
      exact owns.data
  refine ⟨list, ?_, ?_, ?_, ?_, ?_⟩
  · intro timer live'
    rw [timers] at live'
    by_cases among : timer ∈ removed
    · rw [if_pos among] at live'
      contradiction
    · rw [if_neg among] at live'
      obtain ⟨fd, owns⟩ := tracked.owner timer live'
      exact ⟨fd, stays owns among⟩
  · intro fd open'
    obtain ⟨before, apart⟩ := (connected fd).mp open'
    obtain ⟨timer, owns⟩ := tracked.timer fd before
    exact ⟨timer, stays owns fun among => apart timer among owns⟩
  · rw [deleted]
    refine List.nodup_append.mpr ⟨tracked.once, once, ?_⟩
    rintro timer early other late rfl
    exact live timer late ((tracked.gone timer).mp early).2
  · intro timer
    rw [deleted, List.mem_append, tracked.gone, timers, created]
    by_cases among : timer ∈ removed
    · simp [among, tracked.created timer (live timer among)]
    · simp [among]
  · intro timer live'
    rw [timers] at live'
    rw [created]
    by_cases among : timer ∈ removed
    · exact tracked.created timer (live timer among)
    · rw [if_neg among] at live'
      exact tracked.created timer live'

theorem Tracked.congr {server next : Server} (tracked : Tracked server)
    (users : next.users = server.users) (timers : next.timers = server.timers)
    (connected : next.connected = server.connected) (created : next.created = server.created)
    (deleted : next.deleted = server.deleted) : Tracked next := by
  refine tracked.removed List.nodup_nil (by simp) ?_ users ?_ ?_ created ?_
  · rw [timers]
    exact tracked.list
  · simp [connected]
  · simp [timers]
  · simp [deleted]

theorem Tracked.renewed {server next : Server} (tracked : Tracked server) {renewed : Nat}
    {expire : Int} (list : ∃ items, Holds next.timers items) (users : next.users = server.users)
    (connected : next.connected = server.connected)
    (timers : contents next.timers = Function.update (contents server.timers) renewed
      ((contents server.timers renewed).map fun data => { data with absoluteExpire := expire }))
    (created : next.created = server.created) (deleted : next.deleted = server.deleted) :
    Tracked next := by
  have same (timer : Nat) : (contents next.timers timer).map UtilTimer.userData =
      (contents server.timers timer).map UtilTimer.userData := by
    rw [timers]
    by_cases here : timer = renewed
    · subst here
      rw [Function.update_self, Option.map_map]
      rfl
    · rw [Function.update_of_ne here]
  have live (timer : Nat) : contents next.timers timer = none ↔
      contents server.timers timer = none := by
    rw [← Option.map_eq_none_iff, same timer, Option.map_eq_none_iff]
  have stays {other timer : Nat} (owns : Owns server other timer) : Owns next other timer := by
    obtain ⟨data, found, user⟩ := owns.data
    refine ⟨connected ▸ owns.connected, users ▸ owns.entry, ?_⟩
    have kept := same timer
    rw [found, Option.map_some] at kept
    obtain ⟨data', found', user'⟩ := Option.map_eq_some_iff.mp kept
    exact ⟨data', found', user'.trans user⟩
  refine ⟨list, ?_, ?_, deleted ▸ tracked.once, ?_, ?_⟩
  · intro timer live'
    obtain ⟨other, owns'⟩ := tracked.owner timer fun gone => live' ((live timer).mpr gone)
    exact ⟨other, stays owns'⟩
  · intro other open'
    rw [connected] at open'
    obtain ⟨timer, owns'⟩ := tracked.timer other open'
    exact ⟨timer, stays owns'⟩
  · intro timer
    rw [deleted, tracked.gone, created, live]
  · intro timer live'
    rw [created]
    exact tracked.created timer fun gone => live' ((live timer).mpr gone)

theorem Tracked.eachOnce {server : Server} (tracked : Tracked server)
    (running : server.finished = false) : EachOnce server := by
  refine ⟨tracked.once, fun timer => ?_, fun ended => ?_⟩
  · rw [tracked.gone, contents, Option.map_eq_none_iff]
  · rw [running] at ended
    contradiction

structure Frame (server next : Server) : Prop where
  batch : ∀ source ∈ next.batch, source ∈ server.batch
  finished : next.finished = server.finished
  sockfd : ∀ fd, (server.users fd).sockfd = fd → (next.users fd).sockfd = fd

theorem Frame.of_users {server next : Server} (batch : next.batch = server.batch)
    (finished : next.finished = server.finished) (users : next.users = server.users) :
    Frame server next :=
  ⟨fun _ member => batch ▸ member, finished, fun _ same => users ▸ same⟩

theorem Frame.trans {server middle next : Server} (early : Frame server middle)
    (late : Frame middle next) : Frame server next :=
  ⟨fun source member => early.batch source (late.batch source member),
    late.finished.trans early.finished, fun fd same => late.sockfd fd (early.sockfd fd same)⟩

theorem Owns.cbFunc {server : Server} {fd timer : Nat} (owns : Owns server fd timer) :
    server.cbFunc (some fd) =
      .ok { server with connected := Function.update server.connected fd false } := by
  simp only [Server.cbFunc, owns.entry, if_pos owns.connected]

theorem Tracked.accept {server : Server} (tracked : Tracked server) {clientfd : Nat}
    (unused : server.connected clientfd = false) (cur : Int) :
    ∃ next, server.accept clientfd cur = .ok next ∧ Tracked next ∧ Frame server next := by
  obtain ⟨items, holds⟩ := tracked.list
  have fresh : server.timers.heap server.created = none := by
    refine Classical.byContradiction fun used => ?_
    exact absurd (tracked.created server.created ((live_iff_contents _).mp used)) (Nat.lt_irrefl _)
  obtain ⟨timers, items', made, holds', after⟩ :=
    add_spec holds fresh ⟨cur + 3 * timeslot, (), some clientfd⟩
  refine ⟨{ server with
    users := Function.update server.users clientfd ⟨clientfd, some server.created⟩
    connected := Function.update server.connected clientfd true
    timers, created := server.created + 1 }, ?_, ?_, fun _ member => member, rfl, ?_⟩
  · simp only [Server.accept, made]
  · exact tracked.added unused rfl ⟨items', holds'⟩ rfl rfl after rfl rfl
  · intro fd same
    by_cases here : fd = clientfd
    · subst here
      simp
    · simp only [Function.update_of_ne here]
      exact same

theorem closes (server : Server) {fired : List (Nat × UtilTimer Unit Nat)}
    (once : (fired.map Prod.fst).Nodup)
    (owned : ∀ timer ∈ fired, ∃ fd, Owns server fd timer.1 ∧ timer.2.userData = some fd) :
    ∃ connected, fired.foldlM (fun server timer => server.cbFunc timer.2.userData) server =
        .ok { server with connected } ∧
      ∀ fd, connected fd = true ↔
        server.connected fd = true ∧ ∀ timer ∈ fired.map Prod.fst, ¬Owns server fd timer := by
  induction fired generalizing server with
  | nil => exact ⟨server.connected, rfl, by simp⟩
  | cons first rest ih =>
      obtain ⟨fd, owns, user⟩ := owned first (List.mem_cons_self ..)
      rw [List.map_cons, List.nodup_cons] at once
      let closed : Server :=
        { server with connected := Function.update server.connected fd false }
      have apart {other timer : Nat} (among : timer ∈ rest.map Prod.fst)
          (owns' : Owns server other timer) : other ≠ fd := by
        rintro rfl
        rw [owns.unique owns'.entry] at among
        exact once.1 among
      have still {other timer : Nat} (different : other ≠ fd) :
          Owns closed other timer ↔ Owns server other timer := by
        have same : closed.connected other = server.connected other :=
          Function.update_of_ne different ..
        exact ⟨fun owns' => ⟨same ▸ owns'.connected, owns'.entry, owns'.data⟩,
          fun owns' => ⟨same.trans owns'.connected, owns'.entry, owns'.data⟩⟩
      obtain ⟨connected, made, open'⟩ := ih closed once.2 fun timer among => by
        obtain ⟨other, owns', user'⟩ := owned timer (List.mem_cons_of_mem _ among)
        have different := apart (List.mem_map.mpr ⟨timer, among, rfl⟩) owns'
        exact ⟨other, (still different).mpr owns', user'⟩
      refine ⟨connected, ?_, fun other => ?_⟩
      · rw [List.foldlM_cons, user, owns.cbFunc]
        exact made
      · rw [open', List.map_cons]
        by_cases here : other = fd
        · subst here
          refine iff_of_false (fun both => ?_) fun both => both.2 first.1 (by simp) owns
          have shut : closed.connected other = false := Function.update_self ..
          rw [shut] at both
          exact absurd both.1 Bool.false_ne_true
        · have same : closed.connected other = server.connected other :=
            Function.update_of_ne here ..
          have notFirst : ¬Owns server other first.1 := fun owns' => here (owns'.sole owns)
          simp only [same, still here, List.forall_mem_cons, notFirst, not_false_iff, true_and]

theorem Tracked.tick {server : Server} (tracked : Tracked server) (cur : Int) :
    ∃ next, server.tick cur = .ok next ∧ Tracked next ∧ Frame server next := by
  obtain ⟨items, holds⟩ := tracked.list
  obtain ⟨timers, fired, left, made, holds', after, fires⟩ := SortedList.tick_spec holds cur
  obtain ⟨connected, closed, open'⟩ := closes server fires.once fun timer among => by
    obtain ⟨found, _⟩ := (fires.exact timer.1 timer.2).mp among
    obtain ⟨fd, owns⟩ := tracked.owner timer.1 (by rw [found]; exact Option.some_ne_none _)
    obtain ⟨data, found', user⟩ := owns.data
    obtain rfl := Option.some.inj (found.symm.trans found')
    exact ⟨fd, owns, user⟩
  refine ⟨{ server with
    connected, timers, deleted := server.deleted ++ fired.map Prod.fst }, ?_, ?_,
    .of_users rfl rfl rfl⟩
  · simp only [Server.tick, made, closed]
    rfl
  · refine tracked.removed fires.once ?_ ⟨left, holds'⟩ rfl open' ?_ rfl rfl
    · intro timer among
      obtain ⟨entry, member, rfl⟩ := List.mem_map.mp among
      rw [((fires.exact entry.1 entry.2).mp member).1]
      exact Option.some_ne_none _
    · intro timer
      rw [after]
      cases found : contents server.timers timer with
      | none => simp [Op.on, found]
      | some data =>
          have among : timer ∈ fired.map Prod.fst ↔ data.absoluteExpire ≤ cur := by
            constructor
            · intro member
              obtain ⟨entry, among, rfl⟩ := List.mem_map.mp member
              obtain ⟨found', due⟩ := (fires.exact entry.1 entry.2).mp among
              obtain rfl := Option.some.inj (found.symm.trans found')
              exact due
            · intro due
              exact List.mem_map.mpr ⟨(timer, data), (fires.exact timer data).mpr ⟨found, due⟩, rfl⟩
          by_cases due : data.absoluteExpire ≤ cur
          · rw [if_pos (among.mpr due)]
            simp [Op.on, found, due]
          · rw [if_neg fun member => due (among.mp member)]
            simp [Op.on, found, not_le.mp due]

theorem Tracked.handleTimeout {server : Server} (tracked : Tracked server) (cur : Int) :
    ∃ next, server.handleTimeout cur = .ok next ∧ Tracked next ∧ Frame server next := by
  rw [Server.handleTimeout]
  by_cases timeout : server.timeout = true
  · obtain ⟨next, made, tracked', frame⟩ := tracked.tick cur
    refine ⟨{ next with timeout := false }, ?_, ?_, frame.batch, frame.finished, frame.sockfd⟩
    · rw [if_pos timeout, made]
      rfl
    · exact tracked'.congr rfl rfl rfl rfl rfl
  · exact ⟨server, if_neg timeout, tracked, .of_users rfl rfl rfl⟩

theorem Tracked.client {server : Server} (tracked : Tracked server) {sockfd : Nat}
    (open' : server.connected sockfd = true) (answer : Answer) :
    ∃ next, server.client sockfd answer = .ok next ∧ Tracked next ∧ Frame server next := by
  obtain ⟨timer, owns⟩ := tracked.timer sockfd open'
  obtain ⟨items, holds⟩ := tracked.list
  have member : timer ∈ items := by
    rw [holds.live, live_iff_contents]
    exact owns.live
  obtain ⟨before, after, rfl⟩ := List.append_of_mem member
  have entry : (server.users sockfd).timer = some timer := by rw [owns.entry]
  have received : server.receive sockfd answer = (answer.ret, answer.again) := if_pos open'
  simp only [Server.client, received, entry]
  by_cases nothing : answer.ret ≤ 0
  · rw [if_pos nothing]
    by_cases left : answer.again = false ∨ answer.ret = 0
    · obtain ⟨timers, made, holds', contents', _⟩ := del_spec holds
      refine ⟨{ server with
        connected := Function.update server.connected sockfd false
        timers, deleted := server.deleted ++ [timer] }, ?_, ?_, .of_users rfl rfl rfl⟩
      · rw [if_pos left, owns.cbFunc]
        change Server.delTimer _ (some timer) = _
        simp only [Server.delTimer, made]
        rfl
      · refine tracked.removed (List.nodup_singleton timer) ?_ ⟨_, holds'⟩ rfl ?_ ?_ rfl rfl
        · simp only [List.mem_singleton, forall_eq]
          exact owns.live
        · intro fd
          simp only [List.mem_singleton, forall_eq]
          by_cases here : fd = sockfd
          · subst here
            simp [owns]
          · have other : ¬Owns server fd timer := fun owns' => here (owns'.sole owns)
            simp [Function.update_of_ne here, other]
        · intro other
          rw [contents', Function.update_apply]
          simp only [List.mem_singleton]
    · exact ⟨server, if_neg left, tracked, .of_users rfl rfl rfl⟩
  · obtain ⟨middle, timers, items', expired, made, holds', contents'⟩ :=
      adjust_spec holds (answer.cur + timeslot * 3)
    refine ⟨{ server with timers }, ?_, ?_, .of_users rfl rfl rfl⟩
    · rw [if_neg nothing]
      simp only [expired, Option.bind_some, made]
    · exact tracked.renewed ⟨items', holds'⟩ rfl rfl contents' rfl rfl

theorem Tracked.signals {server : Server} (tracked : Tracked server) (sig : UInt8) (count : Nat) :
    Tracked ((List.range count).foldl (fun server _ => server.signal sig) server) ∧
      Frame server ((List.range count).foldl (fun server _ => server.signal sig) server) := by
  induction count with
  | zero => exact ⟨tracked, .of_users rfl rfl rfl⟩
  | succ count ih =>
      obtain ⟨tracked', frame⟩ := ih
      rw [List.range_succ, List.foldl_append, List.foldl_cons, List.foldl_nil]
      generalize (List.range count).foldl (fun server _ => server.signal sig) server = middle at *
      have same : (middle.signal sig).users = middle.users ∧
          (middle.signal sig).timers = middle.timers ∧
          (middle.signal sig).connected = middle.connected ∧
          (middle.signal sig).created = middle.created ∧
          (middle.signal sig).deleted = middle.deleted ∧
          (middle.signal sig).batch = middle.batch ∧
          (middle.signal sig).finished = middle.finished := by
        simp only [Server.signal]
        split
        · exact ⟨rfl, rfl, rfl, rfl, rfl, rfl, rfl⟩
        · split <;> exact ⟨rfl, rfl, rfl, rfl, rfl, rfl, rfl⟩
      obtain ⟨users, timers, connected, created, deleted, batch, finished⟩ := same
      exact ⟨tracked'.congr users timers connected created deleted,
        frame.trans (.of_users batch finished users)⟩

theorem Tracked.handle {server : Server} (tracked : Tracked server) {answer : Answer}
    {source : Source} {rest : List Source} (batch : server.batch = source :: rest)
    (accepts : source.Accepts server answer) (current : source.Current server) :
    ∃ next, server.handle answer = .ok next ∧ Tracked next ∧ Frame server next := by
  let taken : Server := { server with batch := rest, index := server.index + 1 }
  have tracked' : Tracked taken := tracked.congr rfl rfl rfl rfl rfl
  have frame : Frame server taken :=
    ⟨fun source member => by rw [batch]; exact List.mem_cons_of_mem _ member, rfl, fun _ same => same⟩
  -- each branch that goes to the end of the pass ends with the timeout
  have ends (middle : Server) (tracked : Tracked middle) (early : Frame server middle) :
      ∃ next, middle.handleTimeout answer.tickTime = .ok next ∧ Tracked next ∧
        Frame server next := by
    obtain ⟨next, made, tracked, late⟩ := tracked.handleTimeout answer.tickTime
    exact ⟨next, made, tracked, early.trans late⟩
  simp only [Server.handle, batch]
  cases source with
  | listen =>
      obtain ⟨middle, made, tracked'', early⟩ :=
        tracked'.accept (show taken.connected answer.clientfd = false from accepts) answer.cur
      obtain ⟨next, made', rest'⟩ := ends middle tracked'' (frame.trans early)
      refine ⟨next, ?_, rest'⟩
      change (taken.accept answer.clientfd answer.cur >>= _) = _
      rw [made]
      exact made'
  | pipe =>
      dsimp only
      by_cases failed : answer.ret = -1
      · rw [if_pos failed]
        exact ⟨_, rfl, tracked.congr rfl rfl rfl rfl rfl, by simp, rfl, fun _ same => same⟩
      · rw [if_neg failed]
        by_cases empty : answer.ret = 0
        · exact ⟨taken, if_pos empty, tracked', frame⟩
        · rw [if_neg empty]
          obtain ⟨tracked'', early⟩ :=
            tracked'.signals (answer.signals server.index) answer.ret.toNat
          exact ends _ tracked'' (frame.trans early)
  | client fd readable =>
      cases readable with
      | false => exact ends taken tracked' frame
      | true =>
          obtain ⟨middle, made, tracked'', early⟩ :=
            tracked'.client (show taken.connected fd = true from current) answer
          obtain ⟨next, made', rest'⟩ := ends middle tracked'' (frame.trans early)
          refine ⟨next, ?_, rest'⟩
          change (taken.client fd answer >>= _) = _
          rw [made]
          exact made'

theorem destroyLoop_spec {heap : Heap (UtilTimer Unit Nat)} {start : Option Nat}
    {items : List Nat} (visits : Visits heap Node.next start items) (nodup : items.Nodup)
    (deleted : List Nat) {fuel : Nat} (enough : items.length ≤ fuel) :
    ∃ left, Server.destroyLoop heap fuel start deleted = some (left, deleted ++ items) ∧
      ∀ timer, left timer = if timer ∈ items then none else heap timer := by
  induction items generalizing heap start deleted fuel with
  | nil =>
      obtain rfl : start = none := visits
      exact ⟨heap, by cases fuel <;> simp [Server.destroyLoop], by simp⟩
  | cons first rest ih =>
      obtain ⟨rfl, node, cell, later⟩ := visits
      rw [List.nodup_cons] at nodup
      obtain ⟨fuel, rfl⟩ : ∃ less, fuel = less + 1 :=
        ⟨fuel - 1, by rw [List.length_cons] at enough; omega⟩
      have later' : Visits (Function.update heap first none) Node.next node.next rest := by
        refine later.congr fun timer member => Function.update_of_ne ?_ ..
        rintro rfl
        exact nodup.1 member
      obtain ⟨left, made, emptied⟩ := ih later' nodup.2 (deleted ++ [first])
        (show rest.length ≤ fuel by simpa using enough)
      refine ⟨left, ?_, fun timer => ?_⟩
      · simp only [Server.destroyLoop, cell, Option.bind_eq_bind, Option.bind_some, made,
          List.append_assoc, List.singleton_append]
      · rw [emptied]
        by_cases here : timer = first
        · subst here
          simp
        · simp [here]

theorem Tracked.finish {server : Server} (tracked : Tracked server) :
    ∃ next, server.finish = .ok next ∧ EachOnce next ∧ next.finished = true ∧
      next.batch = server.batch ∧ next.users = server.users := by
  obtain ⟨items, holds⟩ := tracked.list
  have linked : Linked server.timers.heap server.timers.head ([] ++ items) := holds.shape.linked
  have visits : Visits server.timers.heap Node.next server.timers.head items := by
    rw [linked.first]
    exact linked.visits_from
  obtain ⟨left, made, emptied⟩ :=
    destroyLoop_spec visits holds.shape.linked.nodup server.deleted holds.enough
  have gone (timer : Nat) : timer ∈ server.deleted ↔
      timer < server.created ∧ server.timers.heap timer = none := by
    rw [tracked.gone, contents, Option.map_eq_none_iff]
  have created (timer : Nat) (live : server.timers.heap timer ≠ none) : timer < server.created :=
    tracked.created timer ((live_iff_contents timer).mp live)
  have whole (timer : Nat) : timer ∈ server.deleted ++ items ↔
      timer < server.created ∧ left timer = none := by
    rw [List.mem_append, gone, emptied]
    by_cases among : timer ∈ items
    · simp [among, created timer ((holds.live timer).mp among)]
    · simp [among]
  refine ⟨{ server with
    timers := { server.timers with heap := left, head := none }
    deleted := server.deleted ++ items
    finished := true }, ?_, ⟨?_, whole, fun _ timer below => ?_⟩, rfl, rfl, rfl⟩
  · simp only [Server.finish, made]
  · refine List.nodup_append.mpr ⟨tracked.once, holds.shape.linked.nodup, ?_⟩
    rintro timer early other late rfl
    exact (holds.live timer).mp late ((gone timer).mp early).2
  · refine (whole timer).mpr ⟨below, ?_⟩
    rw [emptied]
    by_cases among : timer ∈ items
    · rw [if_pos among]
    · rw [if_neg among]
      exact Classical.byContradiction fun live => among ((holds.live timer).mpr live)

structure Sound (server : Server) : Prop where
  eachOnce : EachOnce server
  tracked : server.finished = false → Tracked server
  reported : ∀ fd, ∀ readable, .client fd readable ∈ server.batch → (server.users fd).sockfd = fd

theorem Tracked.sound {server : Server} (tracked : Tracked server)
    (running : server.finished = false)
    (reported : ∀ fd, ∀ readable, .client fd readable ∈ server.batch →
      (server.users fd).sockfd = fd) : Sound server :=
  ⟨tracked.eachOnce running, fun _ => tracked, reported⟩

theorem sound_init (users : Nat → ClientData) : Sound (.init users) := by
  refine Tracked.sound ⟨⟨[], empty_holds⟩, ?_, ?_, List.nodup_nil, ?_, ?_⟩ rfl ?_
  · exact fun timer live => absurd rfl live
  · intro fd open'
    exact absurd open' Bool.false_ne_true
  · simp [Server.init]
  · exact fun timer live => absurd rfl live
  · simp [Server.init]

theorem Sound.step {server : Server} {event : Event} (sound : Sound server)
    (legal : Legal server event) (current : Current server event) :
    ∃ next, CloseInactive.step server event = .ok next ∧ Sound next := by
  cases event with
  | wait batch =>
      obtain ⟨running, _, _, reported⟩ := legal
      have tracked := sound.tracked running
      refine ⟨{ server with batch, index := 0 }, rfl, ?_⟩
      refine Tracked.sound (tracked.congr rfl rfl rfl rfl rfl) running fun fd readable member => ?_
      obtain ⟨timer, owns⟩ := tracked.timer fd (reported _ member)
      rw [owns.entry]
  | handle answer =>
      obtain ⟨running, source, head, accepts⟩ := legal
      obtain ⟨rest, batch⟩ := List.head?_eq_some_iff.mp head
      obtain ⟨next, made, tracked, frame⟩ :=
        (sound.tracked running).handle batch accepts (current source head)
      refine ⟨next, made, tracked.sound (frame.finished.trans running) ?_⟩
      intro fd readable member
      exact frame.sockfd fd (sound.reported fd readable (frame.batch _ member))
  | finish =>
      obtain ⟨next, made, eachOnce, finished, batch, users⟩ := (sound.tracked legal.1).finish
      refine ⟨next, made, eachOnce, fun running => ?_, ?_⟩
      · rw [finished] at running
        contradiction
      · rw [batch, users]
        exact sound.reported

theorem Sound.refused {server : Server} {event : Event} (sound : Sound server)
    (stale : ¬Current server event) : CloseInactive.step server event = .error .notConnected := by
  cases event with
  | wait batch => exact absurd trivial stale
  | finish => exact absurd trivial stale
  | handle answer =>
      simp only [Current, not_forall] at stale
      obtain ⟨source, head, stale⟩ := stale
      obtain ⟨rest, batch⟩ := List.head?_eq_some_iff.mp head
      cases source with
      | listen => exact absurd trivial stale
      | pipe => exact absurd trivial stale
      | client fd readable =>
          cases readable with
          | false => exact absurd trivial stale
          | true =>
              have sockfd := sound.reported fd true (by rw [batch]; exact List.mem_cons_self ..)
              have closed : server.connected fd = false := Bool.eq_false_iff.mpr stale
              simp [CloseInactive.step, Server.handle, batch, Server.client, Server.receive,
                closed, Server.cbFunc, sockfd]
              rfl

/-- A run uses no deleted timer and closes no descriptor twice, and deletes each timer
once, exactly if every event of a client is handled while the client is connected. -/
theorem each_timer_once_iff (users : Nat → ClientData) (events : List Event)
    (legal : Along step Legal (.init users) events) :
    (∃ final, run step (.init users) events = .ok final ∧ EachOnce final) ↔
      Along step Current (.init users) events :=
  completes_iff_along (fun _ sound => sound.eachOnce)
    (fun _ _ sound legal current => sound.step legal current)
    (fun _ _ sound _ stale => ⟨.notConnected, sound.refused stale⟩)
    events (sound_init users) legal

def blank : Server := .init fun _ => ⟨0, none⟩

def answer (now : Int) (clientfd : Nat) (ret : Int) (sig : UInt8) : Answer :=
  ⟨clientfd, ret, false, fun _ => sig, now, now⟩

theorem each_timer_once_iff_one :
    (∃ final, run step blank [.wait [.listen], .handle (answer 0 7 0 0),
        .wait [.client 7 true], .handle (answer 2 0 5 0), .wait [.pipe],
        .handle (answer 3 0 1 sigterm), .finish] = .ok final ∧ EachOnce final) ↔
      Along step Current blank [.wait [.listen], .handle (answer 0 7 0 0),
        .wait [.client 7 true], .handle (answer 2 0 5 0), .wait [.pipe],
        .handle (answer 3 0 1 sigterm), .finish] :=
  each_timer_once_iff _ _ (by decide +kernel)

/-- The alarm and data of an idle client in one batch: the tick closes the descriptor and
deletes the timer, and the event of the client closes the descriptor again. -/
theorem expired_client_closed_again :
    Along step Legal blank [.wait [.listen], .handle (answer 0 7 0 0),
        .wait [.pipe, .client 7 true], .handle (answer 15 0 1 sigalrm),
        .handle (answer 15 0 5 0)] ∧
      run step blank [.wait [.listen], .handle (answer 0 7 0 0),
        .wait [.pipe, .client 7 true], .handle (answer 15 0 1 sigalrm),
        .handle (answer 15 0 5 0)] = .error .notConnected :=
  ⟨by decide +kernel, rfl⟩

end StudyRecord.CloseInactive
