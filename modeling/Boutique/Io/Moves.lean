import Boutique.Io.EventLoop

namespace Boutique.Io.Machine

open Boutique.Data

variable {Addr Buf κ World : Type} {host : Host Addr Buf κ World}
  {m after : Machine Addr Buf κ World} {event : Event κ}

/-! ## What a step can be -/

/-- The steps that there are, each with the state it leads to. -/
inductive Move (host : Host Addr Buf κ World) (m : Machine Addr Buf κ World) :
    Event κ → Machine Addr Buf κ World → Prop where
  | resume {fn argument stack world call next} (running : m.stack = (fn, argument) :: stack)
      (resumed : host.resume fn argument m.world = .ok (world, call, next)) :
      Move host m .tick ({ m with world }.proceed call next stack)
  | call {fn} (quiet : m.stack = []) (outside : m.ready = none) (running : m.running = false) :
      Move host m (.call fn) (m.enter fn 0)
  | start (quiet : m.stack = []) (outside : m.ready = none) (running : m.running = false) :
      Move host m .run { m with running := true, context := { m.context with stop := false } }
  | return (quiet : m.stack = []) (outside : m.ready = none) (running : m.running = true)
      (stop : m.context.stop = true) : Move host m .tick { m with running := false }
  | select {read write ready} (quiet : m.stack = []) (outside : m.ready = none)
      (running : m.running = true) (stop : m.context.stop = false) :
      Move host m (.select read write)
        { m with context := m.context.copyQueues, ready := some ready }
  | passRecv {ready op rest fd} (quiet : m.stack = []) (inside : m.ready = some ready)
      (next : m.context.recv.todo = op :: rest) (fd_eq : fdOf host m.world op.socket = .ok fd)
      (unset : fd ∉ ready.read) :
      Move host m .tick
        { m with context := { m.context with recv := m.context.recv.visit false } }
  | recv {ready op rest fd data world} (quiet : m.stack = []) (inside : m.ready = some ready)
      (next : m.context.recv.todo = op :: rest) (fd_eq : fdOf host m.world op.socket = .ok fd)
      (set : fd ∈ ready.read) (fits : data.length ≤ op.maxlen)
      (arrived : host.recv m.world op.socket op.buf data = .ok world) :
      Move host m (.recv data)
        ({ m with
          world, context := { m.context with recv := m.context.recv.visit true } }.invokeRecv op.fn
            data.length)
  | passSend {ready op rest fd} (quiet : m.stack = []) (inside : m.ready = some ready)
      (none : m.context.recv.todo = []) (next : m.context.send.todo = op :: rest)
      (fd_eq : fdOf host m.world op.socket = .ok fd) (unset : fd ∉ ready.write) :
      Move host m .tick
        { m with context := { m.context with send := m.context.send.visit false } }
  | send {ready op rest fd accepted world} (quiet : m.stack = []) (inside : m.ready = some ready)
      (none : m.context.recv.todo = []) (next : m.context.send.todo = op :: rest)
      (fd_eq : fdOf host m.world op.socket = .ok fd) (set : fd ∈ ready.write)
      (fits : accepted ≤ op.buf.length)
      (taken : host.send m.world op.socket (op.buf.take accepted) = .ok world) :
      Move host m (.send accepted)
        ({ m with
          world, context := { m.context with send := m.context.send.visit true },
          accepted := m.accepted ++ [(op.socket, op.buf.take accepted)] }.invokeSend op.fn accepted)
  | passAccept {ready op rest fd} (quiet : m.stack = []) (inside : m.ready = some ready)
      (none : m.context.recv.todo = [] ∧ m.context.send.todo = [])
      (next : m.context.accept.todo = op :: rest) (fd_eq : fdOf host m.world op.socket = .ok fd)
      (unset : fd ∉ ready.read) :
      Move host m .tick
        { m with context := { m.context with accept := m.context.accept.visit false } }
  | accept {ready op rest fd conn world} (quiet : m.stack = []) (inside : m.ready = some ready)
      (none : m.context.recv.todo = [] ∧ m.context.send.todo = [])
      (next : m.context.accept.todo = op :: rest) (fd_eq : fdOf host m.world op.socket = .ok fd)
      (set : fd ∈ ready.read) (opened : host.accept m.world op.socket conn = .ok world) :
      Move host m (.accept conn)
        ({ m with world, context := { m.context with accept := m.context.accept.visit true } }.enter
          op.fn conn)
  | passWait {ready op rest fd} (quiet : m.stack = []) (inside : m.ready = some ready)
      (next : m.context.wait.todo = op :: rest) (fd_eq : fdOf host m.world op.timer = .ok fd)
      (unset : fd ∉ ready.read) :
      Move host m .tick
        { m with context := { m.context with wait := m.context.wait.visit false } }
  | wait {ready op rest fd count} (quiet : m.stack = []) (inside : m.ready = some ready)
      (next : m.context.wait.todo = op :: rest) (fd_eq : fdOf host m.world op.timer = .ok fd)
      (set : fd ∈ ready.read) :
      Move host m (.wait count)
        ({ m with context := { m.context with wait := m.context.wait.visit true } }.enter
          op.fn count)
  | merge {ready} (quiet : m.stack = []) (inside : m.ready = some ready)
      (recv : m.context.recv.todo = []) (send : m.context.send.todo = [])
      (accept : m.context.accept.todo = []) (wait : m.context.wait.todo = []) :
      Move host m .tick { m with context := m.context.mergeQueues, ready := none }

/-- A visit serves the operation or, its descriptor not being set, passes it over. -/
theorem visit_ok {object : Addr} {set : List Fd} {passed : Machine Addr Buf κ World}
    {serve : Event κ → Except Halt (Machine Addr Buf κ World)}
    (visited : m.visit host object set passed serve event = .ok after) :
    ∃ fd, fdOf host m.world object = .ok fd ∧
      (fd ∈ set ∧ serve event = .ok after ∨ fd ∉ set ∧ event = .tick ∧ after = passed) := by
  obtain ⟨fd, known, visited⟩ := bind_ok_iff.mp visited
  by_cases isSet : fd ∈ set
  · rw [if_pos isSet] at visited
    exact ⟨fd, known, .inl ⟨isSet, visited⟩⟩
  · rw [if_neg isSet] at visited
    split at visited
    · cases visited
      exact ⟨fd, known, .inr ⟨isSet, rfl, rfl⟩⟩
    · cases visited

theorem visit_error {object : Addr} {set : List Fd} {passed : Machine Addr Buf κ World}
    {serve : Event κ → Except Halt (Machine Addr Buf κ World)} {halt : Halt}
    (failed : m.visit host object set passed serve event = .error halt) :
    fdOf host m.world object = .error halt ∨ serve event = .error halt ∨ halt = .refused := by
  rcases bind_error_iff.mp failed with unknown | ⟨fd, _, failed⟩
  · exact .inl unknown
  · by_cases isSet : fd ∈ set
    · rw [if_pos isSet] at failed
      exact .inr (.inl failed)
    · rw [if_neg isSet] at failed
      split at failed
      · cases failed
      · cases failed
        exact .inr (.inr rfl)

section

variable {ready : Ready} {fd : Fd}

theorem serveRecv_move {op : RecvOp Addr Buf κ} {rest : List (RecvOp Addr Buf κ)}
    (quiet : m.stack = []) (inside : m.ready = some ready)
    (next : m.context.recv.todo = op :: rest) (fd_eq : fdOf host m.world op.socket = .ok fd)
    (set : fd ∈ ready.read) (served : m.serveRecv host op event = .ok after) :
    Move host m event after := by
  simp only [serveRecv] at served
  split at served
  · rename_i data
    split at served
    · rename_i fits
      obtain ⟨world, arrived, served⟩ := bind_ok_iff.mp served
      cases served
      exact .recv quiet inside next fd_eq set fits arrived
    · cases served
  · cases served

theorem serveSend_move {op : SendOp Addr κ} {rest : List (SendOp Addr κ)}
    (quiet : m.stack = []) (inside : m.ready = some ready) (none : m.context.recv.todo = [])
    (next : m.context.send.todo = op :: rest) (fd_eq : fdOf host m.world op.socket = .ok fd)
    (set : fd ∈ ready.write) (served : m.serveSend host op event = .ok after) :
    Move host m event after := by
  simp only [serveSend] at served
  split at served
  · rename_i accepted
    split at served
    · rename_i fits
      obtain ⟨world, taken, served⟩ := bind_ok_iff.mp served
      cases served
      exact .send quiet inside none next fd_eq set fits taken
    · cases served
  · cases served

theorem serveAccept_move {op : AcceptOp Addr κ} {rest : List (AcceptOp Addr κ)}
    (quiet : m.stack = []) (inside : m.ready = some ready)
    (none : m.context.recv.todo = [] ∧ m.context.send.todo = [])
    (next : m.context.accept.todo = op :: rest) (fd_eq : fdOf host m.world op.socket = .ok fd)
    (set : fd ∈ ready.read) (served : m.serveAccept host op event = .ok after) :
    Move host m event after := by
  simp only [serveAccept] at served
  split at served
  · rename_i conn
    obtain ⟨world, opened, served⟩ := bind_ok_iff.mp served
    cases served
    exact .accept quiet inside none next fd_eq set opened
  · cases served

theorem serveWait_move {op : WaitOp Addr κ} {rest : List (WaitOp Addr κ)}
    (quiet : m.stack = []) (inside : m.ready = some ready)
    (next : m.context.wait.todo = op :: rest) (fd_eq : fdOf host m.world op.timer = .ok fd)
    (set : fd ∈ ready.read) (served : m.serveWait op event = .ok after) :
    Move host m event after := by
  simp only [serveWait] at served
  split at served
  · cases served
    exact .wait quiet inside next fd_eq set
  · cases served

theorem iterate_move (quiet : m.stack = []) (inside : m.ready = some ready)
    (stepped : m.iterate host ready event = .ok after) : Move host m event after := by
  simp only [iterate] at stepped
  split at stepped
  · rename_i next
    obtain ⟨fd, fd_eq, ⟨set, served⟩ | ⟨unset, rfl, rfl⟩⟩ := visit_ok stepped
    · exact serveRecv_move quiet inside next fd_eq set served
    · exact .passRecv quiet inside next fd_eq unset
  · rename_i none next
    obtain ⟨fd, fd_eq, ⟨set, served⟩ | ⟨unset, rfl, rfl⟩⟩ := visit_ok stepped
    · exact serveSend_move quiet inside none next fd_eq set served
    · exact .passSend quiet inside none next fd_eq unset
  · rename_i noRecv noSend next
    obtain ⟨fd, fd_eq, ⟨set, served⟩ | ⟨unset, rfl, rfl⟩⟩ := visit_ok stepped
    · exact serveAccept_move quiet inside ⟨noRecv, noSend⟩ next fd_eq set served
    · exact .passAccept quiet inside ⟨noRecv, noSend⟩ next fd_eq unset
  · rename_i next
    obtain ⟨fd, fd_eq, ⟨set, served⟩ | ⟨unset, rfl, rfl⟩⟩ := visit_ok stepped
    · exact serveWait_move quiet inside next fd_eq set served
    · exact .passWait quiet inside next fd_eq unset
  · rename_i recv send accept wait
    split at stepped
    · cases stepped
      exact .merge quiet inside recv send accept wait
    · cases stepped

end

theorem select_move {read write : List Fd} (quiet : m.stack = []) (outside : m.ready = none)
    (running : m.running = true) (stop : m.context.stop = false)
    (selected : m.select host read write = .ok after) :
    Move host m (.select read write) after := by
  obtain ⟨recvFds, _, selected⟩ := bind_ok_iff.mp selected
  obtain ⟨sendFds, _, selected⟩ := bind_ok_iff.mp selected
  obtain ⟨acceptFds, _, selected⟩ := bind_ok_iff.mp selected
  obtain ⟨waitFds, _, selected⟩ := bind_ok_iff.mp selected
  cases selected
  exact .select quiet outside running stop

theorem resume_move {fn : κ} {argument : Nat} {stack : List (κ × Nat)}
    (running : m.stack = (fn, argument) :: stack)
    (resumed : m.resume host fn argument stack = .ok after) : Move host m .tick after := by
  obtain ⟨⟨world, call, next⟩, ran, resumed⟩ := bind_ok_iff.mp resumed
  cases resumed
  exact .resume running ran

theorem atHead_move (quiet : m.stack = []) (outside : m.ready = none)
    (stepped : m.atHead host event = .ok after) : Move host m event after := by
  simp only [atHead] at stepped
  split at stepped
  · rename_i running stop
    cases stepped
    exact .return quiet outside running stop
  · rename_i running stop
    exact select_move quiet outside running stop stepped
  · rename_i running
    cases stepped
    exact .start quiet outside running
  · rename_i running
    cases stepped
    exact .call quiet outside running
  · cases stepped

theorem step_move (stepped : m.step host event = .ok after) : Move host m event after := by
  simp only [step] at stepped
  split at stepped
  · rename_i running
    split at stepped
    · exact resume_move running stepped
    · cases stepped
  · rename_i quiet
    split at stepped
    · rename_i outside
      exact atHead_move quiet outside stepped
    · rename_i inside
      exact iterate_move quiet inside stepped

theorem tick_of_running {fn : κ} {argument : Nat} {stack : List (κ × Nat)}
    (running : m.stack = (fn, argument) :: stack) (stepped : m.step host event = .ok after) :
    event = .tick := by
  simp only [step] at stepped
  rw [running] at stepped
  dsimp only at stepped
  split at stepped
  · rfl
  · cases stepped

/-- While a callback runs, it runs on. -/
theorem step_of_running {fn : κ} {argument : Nat} {stack : List (κ × Nat)}
    (running : m.stack = (fn, argument) :: stack) (stepped : m.step host event = .ok after) :
    ∃ world call next, host.resume fn argument m.world = .ok (world, call, next) ∧
      after = { m with world }.proceed call next stack := by
  simp only [step] at stepped
  rw [running] at stepped
  dsimp only at stepped
  split at stepped
  · obtain ⟨⟨world, call, next⟩, resumed, stepped⟩ := bind_ok_iff.mp stepped
    cases stepped
    exact ⟨world, call, next, resumed, rfl⟩
  · cases stepped

/-! ## What a step that fails can be -/

/-- A callback or a socket call fails, an object without a descriptor is asked for it,
or the event is not what comes next. -/
inductive Failure (host : Host Addr Buf κ World) (m : Machine Addr Buf κ World) : Halt → Prop where
  | resume {fn argument stack halt} (running : m.stack = (fn, argument) :: stack)
      (failed : host.resume fn argument m.world = .error halt) : Failure host m halt
  | recv {object buf data halt} (failed : host.recv m.world object buf data = .error halt) :
      Failure host m halt
  | send {object data halt} (failed : host.send m.world object data = .error halt) :
      Failure host m halt
  | accept {object conn halt} (failed : host.accept m.world object conn = .error halt) :
      Failure host m halt
  | unknown : Failure host m .dangling
  | refused : Failure host m .refused

section

variable {halt : Halt}

theorem fdOf_failure {object : Addr} (failed : fdOf host m.world object = .error halt) :
    Failure host m halt := by
  delta fdOf at failed
  split at failed
  · cases failed
    exact .unknown
  · cases failed

theorem serveRecv_failure {op : RecvOp Addr Buf κ}
    (failed : m.serveRecv host op event = .error halt) : Failure host m halt := by
  simp only [serveRecv] at failed
  split at failed
  · split at failed
    · rcases bind_error_iff.mp failed with called | ⟨_, _, done⟩
      · exact .recv called
      · cases done
    · cases failed
      exact .refused
  · cases failed
    exact .refused

theorem serveSend_failure {op : SendOp Addr κ} (failed : m.serveSend host op event = .error halt) :
    Failure host m halt := by
  simp only [serveSend] at failed
  split at failed
  · split at failed
    · rcases bind_error_iff.mp failed with called | ⟨_, _, done⟩
      · exact .send called
      · cases done
    · cases failed
      exact .refused
  · cases failed
    exact .refused

theorem serveAccept_failure {op : AcceptOp Addr κ}
    (failed : m.serveAccept host op event = .error halt) : Failure host m halt := by
  simp only [serveAccept] at failed
  split at failed
  · rcases bind_error_iff.mp failed with called | ⟨_, _, done⟩
    · exact .accept called
    · cases done
  · cases failed
    exact .refused

theorem serveWait_failure {op : WaitOp Addr κ} (failed : m.serveWait op event = .error halt) :
    Failure host m halt := by
  simp only [serveWait] at failed
  split at failed
  · cases failed
  · cases failed
    exact .refused

theorem iterate_failure {ready : Ready} (failed : m.iterate host ready event = .error halt) :
    Failure host m halt := by
  simp only [iterate] at failed
  split at failed
  · rcases visit_error failed with unknown | served | rfl
    · exact fdOf_failure unknown
    · exact serveRecv_failure served
    · exact .refused
  · rcases visit_error failed with unknown | served | rfl
    · exact fdOf_failure unknown
    · exact serveSend_failure served
    · exact .refused
  · rcases visit_error failed with unknown | served | rfl
    · exact fdOf_failure unknown
    · exact serveAccept_failure served
    · exact .refused
  · rcases visit_error failed with unknown | served | rfl
    · exact fdOf_failure unknown
    · exact serveWait_failure served
    · exact .refused
  · split at failed
    · cases failed
    · cases failed
      exact .refused

theorem select_failure {read write : List Fd}
    (failed : m.select host read write = .error halt) : Failure host m halt := by
  have unknown : ∀ {objects : List Addr}, objects.mapM (fdOf host m.world) = .error halt →
      Failure host m halt := by
    intro objects failed
    obtain ⟨_, _, failed⟩ := mapM_error failed
    exact fdOf_failure failed
  rcases bind_error_iff.mp failed with recv | ⟨_, _, failed⟩
  · exact unknown recv
  rcases bind_error_iff.mp failed with send | ⟨_, _, failed⟩
  · exact unknown send
  rcases bind_error_iff.mp failed with accept | ⟨_, _, failed⟩
  · exact unknown accept
  rcases bind_error_iff.mp failed with wait | ⟨_, _, failed⟩
  · exact unknown wait
  · cases failed

theorem step_failure (failed : m.step host event = .error halt) : Failure host m halt := by
  simp only [step] at failed
  split at failed
  · rename_i running
    split at failed
    · rcases bind_error_iff.mp failed with resumed | ⟨_, _, done⟩
      · exact .resume running resumed
      · cases done
    · cases failed
      exact .refused
  · split at failed
    · simp only [atHead] at failed
      split at failed
      · cases failed
      · exact select_failure failed
      · cases failed
      · cases failed
      · cases failed
        exact .refused
    · exact iterate_failure failed

end

/-! ## Runs -/

/-- Every step of a run meets `condition`. -/
def Along (host : Host Addr Buf κ World) (condition : Machine Addr Buf κ World → Event κ → Prop) :
    Machine Addr Buf κ World → List (Event κ) → Prop
  | _, [] => True
  | m, event :: events =>
      condition m event ∧ match m.step host event with
        | .error _ => True
        | .ok after => Along host condition after events

variable {condition : Machine Addr Buf κ World → Event κ → Prop}

instance decidableAlong [∀ m event, Decidable (condition m event)] :
    (m : Machine Addr Buf κ World) → (events : List (Event κ)) →
      Decidable (Along host condition m events)
  | _, [] => .isTrue trivial
  | m, event :: events =>
      match stepped : m.step host event with
      | .error _ => decidable_of_iff (condition m event) (by rw [Along, stepped]; simp)
      | .ok after =>
          have := decidableAlong after events
          decidable_of_iff (condition m event ∧ Along host condition after events)
            (by rw [Along, stepped])

/-- What steps that meet a condition preserve, runs of such steps preserve. -/
theorem run_preserves {invariant : Machine Addr Buf κ World → Prop}
    (preserves : ∀ m event after, invariant m → condition m event →
      m.step host event = .ok after → invariant after)
    {events : List (Event κ)} (start : invariant m) (along : Along host condition m events)
    (ran : run host m events = .ok after) : invariant after := by
  induction events generalizing m with
  | nil =>
      cases ran
      exact start
  | cons event events ih =>
      obtain ⟨meets, along⟩ := along
      obtain ⟨next, stepped, ran⟩ := bind_ok_iff.mp ran
      rw [stepped] at along
      exact ih (preserves m event next start meets stepped) along ran

theorem run_split {front back : List (Event κ)} (ran : run host m (front ++ back) = .ok after) :
    ∃ middle, run host m front = .ok middle ∧ run host middle back = .ok after := by
  induction front generalizing m with
  | nil => exact ⟨m, rfl, ran⟩
  | cons event front ih =>
      obtain ⟨next, stepped, ran⟩ := bind_ok_iff.mp ran
      obtain ⟨middle, first, second⟩ := ih ran
      exact ⟨middle, bind_ok_iff.mpr ⟨next, stepped, first⟩, second⟩

theorem Along.split {front back : List (Event κ)} {middle : Machine Addr Buf κ World}
    (along : Along host condition m (front ++ back)) (ran : run host m front = .ok middle) :
    Along host condition m front ∧ Along host condition middle back := by
  induction front generalizing m with
  | nil =>
      cases ran
      exact ⟨trivial, along⟩
  | cons event front ih =>
      obtain ⟨meets, along⟩ := along
      obtain ⟨next, stepped, ran⟩ := bind_ok_iff.mp ran
      rw [stepped] at along
      obtain ⟨first, second⟩ := ih along ran
      refine ⟨⟨meets, ?_⟩, second⟩
      rw [stepped]
      exact first

end Boutique.Io.Machine
