import Boutique.Io.Context
import Mathlib.Logic.Function.Basic

namespace Boutique.Io

/-! # Sockets and their descriptors

The constructors, moves and destructor of `Socket` over the table of descriptors
that the kernel keeps. -/

/-- The descriptors that are open, and those whose `close` found nothing to
close. -/
structure Descriptors where
  opened : List Fd := []
  stray : List Fd := []
deriving DecidableEq, Repr

namespace Descriptors

def give (table : Descriptors) (fd : Fd) : Descriptors :=
  { table with opened := fd :: table.opened }

/-- `::close`. -/
def close (table : Descriptors) (fd : Fd) : Descriptors :=
  if fd ∈ table.opened then { table with opened := table.opened.filter (· ≠ fd) }
  else { table with stray := fd :: table.stray }

end Descriptors

/-- What the kernel answers to the calls of `Socket(const ListenParams&)`: a
descriptor, if any, and whether the calls with it succeed. -/
structure ListenAnswers where
  socket : Option Fd
  setsockopt : Bool := true
  bind : Bool := true
  listen : Bool := true
deriving DecidableEq, Repr

/-- What it answers to those of `Socket(const ConnectParams&)`, which tries to
connect to one address of the host after the other. -/
structure ConnectAnswers where
  socket : Option Fd
  getaddrinfo : Bool := true
  connect : List Bool := [true]
deriving DecidableEq, Repr

inductive AcceptAnswer where
  | accepted (fd : Fd)
  | wouldBlock
  | failed
deriving DecidableEq, Repr

/-- `Socket(const ListenParams&)`: the descriptor it sets `m_fd` to, or what it
throws. -/
def listenSocket (answers : ListenAnswers) (table : Descriptors) :
    Except String Fd × Descriptors :=
  match answers.socket with
  | none => (.error "Failed to create socket", table)
  | some fd =>
      let table := table.give fd
      if ¬ answers.setsockopt then (.error "Failed to set socket option", table)
      else if ¬ answers.bind then (.error "Failed to bind socket", table)
      else if ¬ answers.listen then (.error "Failed to listen on socket", table)
      else (.ok fd, table)

/-- `Socket(const ConnectParams&)`. -/
def connectSocket (answers : ConnectAnswers) (table : Descriptors) :
    Except String Fd × Descriptors :=
  match answers.socket with
  | none => (.error "Failed to create socket", table)
  | some fd =>
      let table := table.give fd
      if ¬ answers.getaddrinfo then (.error "Failed to get address info", table)
      else if ¬ answers.connect.any id then (.error "Failed to connect to host", table)
      else (.ok fd, table)

/-- `Socket::accept` of a socket with `m_fd` as in `listener`: the `m_fd` of the
socket it returns, if any. The kernel accepts nothing for a negative one. -/
def acceptSocket (listener : Option Fd) (answer : AcceptAnswer) (table : Descriptors) :
    Except String (Option Fd) × Descriptors :=
  match listener, answer with
  | some _, .accepted fd => (.ok (some fd), table.give fd)
  | some _, .wouldBlock => (.ok none, table)
  | _, _ => (.error "Failed to accept socket", table)

theorem listenSocket_given (fd : Fd) (setsockopt bind listen : Bool) (table : Descriptors) :
    ∃ result, listenSocket ⟨some fd, setsockopt, bind, listen⟩ table = (result, table.give fd) ∧
      (∀ got, result = .ok got → got = fd) ∧ (result.isOk ↔ setsockopt ∧ bind ∧ listen) := by
  cases setsockopt <;> cases bind <;> cases listen <;>
    exact ⟨_, rfl, by simp [eq_comm], by simp [Except.isOk, Except.toBool]⟩

theorem connectSocket_given (fd : Fd) (getaddrinfo : Bool) (connect : List Bool)
    (table : Descriptors) :
    ∃ result, connectSocket ⟨some fd, getaddrinfo, connect⟩ table = (result, table.give fd) ∧
      (∀ got, result = .ok got → got = fd) ∧
      (result.isOk ↔ getaddrinfo ∧ connect.any id) := by
  simp only [connectSocket]
  cases getaddrinfo <;> cases connect.any id <;>
    exact ⟨_, rfl, by simp [eq_comm], by simp [Except.isOk, Except.toBool]⟩

theorem acceptSocket_given {listener : Option Fd} {answer : AcceptAnswer}
    {table after : Descriptors} {fd : Fd}
    (accepted : acceptSocket listener answer table = (.ok (some fd), after)) :
    after = table.give fd := by
  simp only [acceptSocket] at accepted
  split at accepted
  · cases accepted
    rfl
  · cases accepted
  · cases accepted

/-- Without a socket to return, no descriptor has been given. -/
theorem acceptSocket_refused {listener : Option Fd} {answer : AcceptAnswer}
    {table after : Descriptors} {result : Except String (Option Fd)}
    (answered : acceptSocket listener answer table = (result, after))
    (refused : ∀ fd, result ≠ .ok (some fd)) : after = table := by
  simp only [acceptSocket] at answered
  split at answered
  · cases answered
    exact absurd rfl (refused _)
  · cases answered
    rfl
  · cases answered
    rfl

/-- The live `Socket` objects, each with its `m_fd`, which is nothing for a
negative one, and the descriptors. -/
structure Sockets (Addr : Type) where
  objects : Addr → Option (Option Fd) := fun _ => none
  table : Descriptors := {}

/-- What can happen to sockets: a constructor runs at an address, a socket is
moved from `other`, or it is destroyed. -/
inductive SocketStep (Addr : Type) where
  | listen (address : Addr) (answers : ListenAnswers)
  | connect (address : Addr) (answers : ConnectAnswers)
  | accept (listener address : Addr) (answer : AcceptAnswer)
  | moveConstruct (address other : Addr)
  | moveAssign (address other : Addr)
  | destroy (address : Addr)
deriving DecidableEq, Repr

namespace Sockets

variable {Addr : Type}

/-- The live socket at an address holds a descriptor. -/
def Holds (s : Sockets Addr) (address : Addr) (fd : Fd) : Prop :=
  s.objects address = some (some fd)

/-- The open descriptors are those that live sockets hold, each by one of them,
and every `close` has closed one. -/
structure Owned (s : Sockets Addr) : Prop where
  held : ∀ fd, fd ∈ s.table.opened ↔ ∃ address, s.Holds address fd
  single : ∀ {fd address other}, s.Holds address fd → s.Holds other fd → address = other
  closed : s.table.stray = []

theorem owned_empty : Owned ({} : Sockets Addr) := ⟨by simp [Holds], nofun, rfl⟩

/-- A descriptor that no object gets. -/
theorem Owned.leak {s : Sockets Addr} {fd : Fd} (owned : s.Owned) (unused : fd ∉ s.table.opened) :
    ¬ Owned { s with table := s.table.give fd } := by
  intro leaked
  obtain ⟨holder, holds⟩ := (leaked.held fd).mp List.mem_cons_self
  exact unused ((owned.held fd).mpr ⟨holder, holds⟩)

variable [DecidableEq Addr] (s : Sockets Addr)

/-- A constructor has run: if it has thrown, there is no object, and no
destructor runs for it. -/
def construct (address : Addr) (result : Except String Fd × Descriptors) : Sockets Addr :=
  match result with
  | (.ok fd, table) => { objects := Function.update s.objects address (some (some fd)), table }
  | (.error _, table) => { s with table }

/-- The `m_fd` at `address` becomes `std::exchange(other.m_fd, -1)`, which is `fd`. -/
def takeFrom (address other : Addr) (fd : Option Fd) : Sockets Addr :=
  { s with
    objects := Function.update (Function.update s.objects other (some none)) address (some fd) }

/-- `Socket(Socket&& other)`. -/
def moveConstruct (address other : Addr) (fd : Option Fd) : Sockets Addr :=
  s.takeFrom address other fd

/-- `operator=(Socket&& other)`. -/
def moveAssign (address other : Addr) (fd : Option Fd) : Sockets Addr :=
  s.takeFrom address other fd

/-- `~Socket`. -/
def destroy (address : Addr) (fd : Option Fd) : Sockets Addr where
  objects := Function.update s.objects address none
  table := match fd with
    | none => s.table
    | some fd => s.table.close fd

/-- The kernel gives descriptors that are not in use. -/
def Unused (given : Option Fd) : Prop := ∀ fd ∈ given, fd ∉ s.table.opened

instance (given : Option Fd) : Decidable (s.Unused given) :=
  inferInstanceAs (Decidable (∀ fd ∈ given, fd ∉ s.table.opened))

/-- A step, unless it cannot happen: objects are constructed where there is none
and are used where there is one. -/
def step : SocketStep Addr → Option (Sockets Addr)
  | .listen address answers =>
      if s.objects address = none ∧ s.Unused answers.socket then
        some (s.construct address (listenSocket answers s.table))
      else none
  | .connect address answers =>
      if s.objects address = none ∧ s.Unused answers.socket then
        some (s.construct address (connectSocket answers s.table))
      else none
  | .accept listener address answer =>
      match s.objects listener, s.objects address with
      | some fd, none =>
          match acceptSocket fd answer s.table with
          | (.ok (some fd), table) =>
              if s.Unused (some fd) then some (s.construct address (.ok fd, table)) else none
          | (_, table) => some { s with table }
      | _, _ => none
  | .moveConstruct address other =>
      match s.objects address, s.objects other with
      | none, some fd => some (s.moveConstruct address other fd)
      | _, _ => none
  | .moveAssign address other =>
      match s.objects address, s.objects other with
      | some _, some fd => some (s.moveAssign address other fd)
      | _, _ => none
  | .destroy address =>
      match s.objects address with
      | some fd => some (s.destroy address fd)
      | none => none

/-- No constructor fails once it has a descriptor, and nothing is assigned to
another socket that holds one. -/
def Keeps (s : Sockets Addr) : SocketStep Addr → Prop
  | .listen _ answers => answers.socket ≠ none → answers.setsockopt ∧ answers.bind ∧ answers.listen
  | .connect _ answers => answers.socket ≠ none → answers.getaddrinfo ∧ answers.connect.any id
  | .moveAssign address other => address ≠ other → s.objects address = some none
  | .accept .. | .moveConstruct .. | .destroy .. => True

section

variable {s} {after : Sockets Addr} {address other holder : Addr} {fd found : Fd}
  {value : Option Fd} {table : Descriptors}

theorem holds_construct (free : s.objects address = none) :
    (s.construct address (.ok fd, table)).Holds holder found ↔
      holder = address ∧ found = fd ∨ s.Holds holder found := by
  simp only [Holds, construct, Function.update_apply]
  split
  · rename_i here
    subst here
    simp [free, eq_comm]
  · rename_i elsewhere
    simp [elsewhere]

theorem holds_takeFrom : (s.takeFrom address other value).Holds holder found ↔
    holder = address ∧ value = some found ∨
      holder ≠ address ∧ holder ≠ other ∧ s.Holds holder found := by
  simp only [Holds, takeFrom, Function.update_apply]
  split
  · rename_i here
    simp [here]
  · rename_i elsewhere
    split
    · rename_i source
      subst source
      simp [elsewhere]
    · rename_i apart
      simp [elsewhere, apart]

theorem holds_destroy : (s.destroy address value).Holds holder found ↔
    holder ≠ address ∧ s.Holds holder found := by
  simp only [Holds, destroy, Function.update_apply]
  split
  · rename_i here
    simp [here]
  · rename_i elsewhere
    simp [elsewhere]

/-- An object that gets a new descriptor. -/
theorem Owned.gain (owned : s.Owned) (free : s.objects address = none)
    (unused : fd ∉ s.table.opened) :
    (s.construct address (.ok fd, s.table.give fd)).Owned := by
  have unheld (at_ : Addr) : ¬ s.Holds at_ fd :=
    fun holds => unused ((owned.held fd).mpr ⟨at_, holds⟩)
  refine ⟨fun found => ?_, fun first second => ?_, owned.closed⟩
  · simp only [holds_construct free, exists_or, exists_and_right, exists_eq, true_and]
    rw [← owned.held]
    exact List.mem_cons
  · rw [holds_construct free] at first second
    rcases first with ⟨rfl, rfl⟩ | first
    · rcases second with ⟨rfl, _⟩ | second
      · rfl
      · exact absurd second (unheld _)
    · rcases second with ⟨_, rfl⟩ | second
      · exact absurd first (unheld _)
      · exact owned.single first second

/-- A move out of `other` into a socket without a descriptor, or back into itself. -/
theorem Owned.move (owned : s.Owned) (source : s.objects other = some value)
    (vacant : address ≠ other → ∀ fd, ¬ s.Holds address fd) :
    (s.takeFrom address other value).Owned := by
  have source_iff (found : Fd) : s.Holds other found ↔ value = some found := by
    rw [Holds, source, Option.some.injEq]
  refine ⟨fun found => ?_, fun first second => ?_, owned.closed⟩
  · change found ∈ s.table.opened ↔ _
    simp only [owned.held, holds_takeFrom]
    constructor
    · intro ⟨holder, holds⟩
      by_cases moved : holder = other
      · subst moved
        exact ⟨address, .inl ⟨rfl, (source_iff found).mp holds⟩⟩
      · refine ⟨holder, .inr ⟨?_, moved, holds⟩⟩
        intro here
        subst here
        exact vacant moved found holds
    · intro ⟨holder, given⟩
      rcases given with ⟨_, same⟩ | ⟨_, _, holds⟩
      · exact ⟨other, (source_iff found).mpr same⟩
      · exact ⟨holder, holds⟩
  · rw [holds_takeFrom] at first second
    rcases first with ⟨rfl, same⟩ | ⟨_, notSource, first⟩
    · rcases second with ⟨rfl, _⟩ | ⟨_, notSource, second⟩
      · rfl
      · exact absurd (owned.single second ((source_iff _).mpr same)) notSource
    · rcases second with ⟨rfl, same⟩ | ⟨_, _, second⟩
      · exact absurd (owned.single first ((source_iff _).mpr same)) notSource
      · exact owned.single first second

/-- A move over a descriptor. -/
theorem Owned.overwrite (owned : s.Owned) (holds : s.Holds address fd) (apart : address ≠ other)
    (source : s.objects other = some value) : ¬ (s.takeFrom address other value).Owned := by
  intro moved
  obtain ⟨holder, holds'⟩ := (moved.held fd).mp ((owned.held fd).mpr ⟨address, holds⟩)
  rw [holds_takeFrom] at holds'
  rcases holds' with ⟨_, same⟩ | ⟨notTarget, _, holds'⟩
  · have sourceHolds : s.Holds other fd := by rw [Holds, source, same]
    exact apart (owned.single holds sourceHolds)
  · exact notTarget (owned.single holds' holds)

theorem Owned.destroy (owned : s.Owned) (live : s.objects address = some value) :
    (s.destroy address value).Owned := by
  have live_iff (found : Fd) : s.Holds address found ↔ value = some found := by
    rw [Holds, live, Option.some.injEq]
  have single {found : Fd} {first second : Addr}
      (holds : (s.destroy address value).Holds first found)
      (others : (s.destroy address value).Holds second found) : first = second :=
    owned.single (holds_destroy.mp holds).2 (holds_destroy.mp others).2
  cases value with
  | none =>
      refine ⟨fun found => ?_, single, owned.closed⟩
      change found ∈ s.table.opened ↔ _
      simp only [owned.held, holds_destroy]
      constructor
      · intro ⟨holder, holds⟩
        refine ⟨holder, ?_, holds⟩
        intro here
        subst here
        cases (live_iff found).mp holds
      · intro ⟨holder, _, holds⟩
        exact ⟨holder, holds⟩
  | some fd =>
      have isOpen : fd ∈ s.table.opened := (owned.held fd).mpr ⟨address, live⟩
      have closed : (s.destroy address (some fd)).table =
          { s.table with opened := s.table.opened.filter (· ≠ fd) } := if_pos isOpen
      refine ⟨fun found => ?_, single, by rw [closed]; exact owned.closed⟩
      rw [closed]
      simp only [List.mem_filter, decide_eq_true_eq, owned.held, holds_destroy]
      constructor
      · intro ⟨⟨holder, holds⟩, other⟩
        refine ⟨holder, ?_, holds⟩
        intro here
        subst here
        exact other (Option.some.inj ((live_iff found).mp holds)).symm
      · intro ⟨holder, elsewhere, holds⟩
        refine ⟨⟨holder, holds⟩, ?_⟩
        intro same
        subst same
        exact elsewhere (owned.single holds live)

/-- A constructor that has been given a descriptor has to come to its end. -/
theorem Owned.construct_iff (owned : s.Owned) (free : s.objects address = none)
    (unused : s.Unused (some fd)) {result : Except String Fd}
    (own : ∀ got, result = .ok got → got = fd) :
    (s.construct address (result, s.table.give fd)).Owned ↔ result.isOk := by
  have unused : fd ∉ s.table.opened := unused fd rfl
  cases result with
  | ok got =>
      obtain rfl := own got rfl
      exact iff_of_true (owned.gain free unused) rfl
  | error message => exact iff_of_false (owned.leak unused) nofun

theorem Owned.listen_iff (owned : s.Owned) (free : s.objects address = none)
    {answers : ListenAnswers} (unused : s.Unused answers.socket) :
    (s.construct address (listenSocket answers s.table)).Owned ↔
      s.Keeps (.listen address answers) := by
  obtain ⟨given, setsockopt, bind, listen⟩ := answers
  cases given with
  | none => exact iff_of_true owned nofun
  | some fd =>
      obtain ⟨result, ran, own, succeeds⟩ :=
        listenSocket_given fd setsockopt bind listen s.table
      rw [ran, owned.construct_iff free unused own, succeeds]
      simp [Keeps]

theorem Owned.connect_iff (owned : s.Owned) (free : s.objects address = none)
    {answers : ConnectAnswers} (unused : s.Unused answers.socket) :
    (s.construct address (connectSocket answers s.table)).Owned ↔
      s.Keeps (.connect address answers) := by
  obtain ⟨given, getaddrinfo, connect⟩ := answers
  cases given with
  | none => exact iff_of_true owned nofun
  | some fd =>
      obtain ⟨result, ran, own, succeeds⟩ := connectSocket_given fd getaddrinfo connect s.table
      rw [ran, owned.construct_iff free unused own, succeeds]
      simp [Keeps]

/-- Owned descriptors stay owned by a step that keeps them, and by no other. -/
theorem Owned.step_iff (owned : s.Owned) {step : SocketStep Addr}
    (stepped : s.step step = some after) : after.Owned ↔ s.Keeps step := by
  cases step with
  | listen address answers =>
      obtain ⟨⟨free, unused⟩, same⟩ := Option.ite_none_right_eq_some.mp stepped
      cases same
      exact owned.listen_iff free unused
  | connect address answers =>
      obtain ⟨⟨free, unused⟩, same⟩ := Option.ite_none_right_eq_some.mp stepped
      cases same
      exact owned.connect_iff free unused
  | accept listener address answer =>
      refine iff_of_true ?_ trivial
      simp only [Sockets.step] at stepped
      split at stepped
      · rename_i listening free
        split at stepped
        · rename_i fd table accepted
          obtain ⟨unused, same⟩ := Option.ite_none_right_eq_some.mp stepped
          cases same
          obtain rfl := acceptSocket_given accepted
          exact owned.gain free (unused fd rfl)
        · rename_i result table refused answered
          cases stepped
          rw [acceptSocket_refused answered refused]
          exact owned
      · cases stepped
  | moveConstruct address other =>
      refine iff_of_true ?_ trivial
      simp only [Sockets.step] at stepped
      split at stepped
      · rename_i free source
        cases stepped
        exact owned.move source fun _ fd holds => by rw [Holds, free] at holds; cases holds
      · cases stepped
  | moveAssign address other =>
      simp only [Sockets.step] at stepped
      split at stepped
      · rename_i target value live source
        cases stepped
        constructor
        · intro moved apart
          cases target with
          | none => exact live
          | some fd => exact absurd moved (owned.overwrite live apart source)
        · intro vacant
          refine owned.move source fun apart fd holds => ?_
          rw [Holds, vacant apart] at holds
          cases holds
      · cases stepped
  | destroy address =>
      refine iff_of_true ?_ trivial
      simp only [Sockets.step] at stepped
      split at stepped
      · rename_i live
        cases stepped
        exact owned.destroy live
      · cases stepped

end

/-- A property of the sockets at every point of a sequence of steps, up to one
that cannot happen. -/
def Throughout (property : Sockets Addr → Prop) :
    Sockets Addr → List (SocketStep Addr) → Prop
  | s, [] => property s
  | s, step :: steps => property s ∧ match s.step step with
      | none => True
      | some after => Throughout property after steps

/-- Every step that happens meets `condition`. -/
def Along (condition : Sockets Addr → SocketStep Addr → Prop) :
    Sockets Addr → List (SocketStep Addr) → Prop
  | _, [] => True
  | s, step :: steps => match s.step step with
      | none => True
      | some after => condition s step ∧ Along condition after steps

/-- The sockets behind a sequence of steps, if all of them can happen. -/
def run (s : Sockets Addr) : List (SocketStep Addr) → Option (Sockets Addr)
  | [] => some s
  | step :: steps => (s.step step).bind fun after => after.run steps

section

variable {s} {after : Sockets Addr} {condition : Sockets Addr → SocketStep Addr → Prop}
  {steps : List (SocketStep Addr)}

theorem run_cons {step : SocketStep Addr} (stepped : s.step step = some after)
    (steps : List (SocketStep Addr)) : s.run (step :: steps) = after.run steps := by
  rw [run, stepped, Option.bind_some]

theorem run_append (ran : s.run steps = some after) (more : List (SocketStep Addr)) :
    s.run (steps ++ more) = after.run more := by
  induction steps generalizing s with
  | nil =>
      cases ran
      rfl
  | cons step steps ih =>
      obtain ⟨next, stepped, ran⟩ := Option.bind_eq_some_iff.mp ran
      rw [List.cons_append, run_cons stepped, ih ran]

theorem along_cons {step : SocketStep Addr} (stepped : s.step step = some after) :
    Along condition s (step :: steps) ↔ condition s step ∧ Along condition after steps := by
  rw [Along, stepped]

theorem along_append (ran : s.run steps = some after) (more : List (SocketStep Addr)) :
    Along condition s (steps ++ more) ↔
      Along condition s steps ∧ Along condition after more := by
  induction steps generalizing s with
  | nil =>
      cases ran
      exact (and_iff_right trivial).symm
  | cons step steps ih =>
      obtain ⟨next, stepped, ran⟩ := Option.bind_eq_some_iff.mp ran
      rw [List.cons_append, along_cons stepped, along_cons stepped, ih ran, and_assoc]

theorem Owned.run (owned : s.Owned) (keeps : Along Keeps s steps)
    (ran : s.run steps = some after) : after.Owned := by
  induction steps generalizing s with
  | nil =>
      cases ran
      exact owned
  | cons step steps ih =>
      obtain ⟨next, stepped, ran⟩ := Option.bind_eq_some_iff.mp ran
      obtain ⟨first, rest⟩ := (along_cons stepped).mp keeps
      exact ih ((owned.step_iff stepped).mpr first) rest ran

end

variable {s}

theorem Owned.throughout_iff (owned : s.Owned) (steps : List (SocketStep Addr)) :
    Throughout Owned s steps ↔ Along Keeps s steps := by
  induction steps generalizing s with
  | nil => exact iff_of_true owned trivial
  | cons step steps ih =>
      rw [Throughout, Along]
      cases stepped : s.step step with
      | none => exact iff_of_true ⟨owned, trivial⟩ trivial
      | some after =>
          dsimp only
          have kept := owned.step_iff stepped
          constructor
          · intro ⟨_, rest⟩
            have later : after.Owned := by
              cases steps with
              | nil => exact rest
              | cons => exact rest.1
            exact ⟨kept.mp later, (ih later).mp rest⟩
          · intro ⟨keeps, rest⟩
            exact ⟨owned, (ih (kept.mpr keeps)).mpr rest⟩

/-- From the start on, whatever is constructed, accepted, moved, assigned and
destroyed, the open descriptors are those of the live sockets, each held by one
of them, and nothing is closed twice, just as long as no constructor fails once
it has a descriptor and nothing is assigned to another socket that holds one. -/
theorem descriptors_owned_iff (steps : List (SocketStep Addr)) :
    Throughout Owned {} steps ↔ Along Keeps {} steps :=
  owned_empty.throughout_iff steps

/-- The port of a listening socket is in use; a socket is assigned to another. -/
theorem descriptors_leaked :
    ¬ Throughout Owned ({} : Sockets Nat) [.listen 0 { socket := some 3, bind := false }] ∧
    ¬ Throughout Owned ({} : Sockets Nat)
      [.listen 0 { socket := some 3 }, .accept 0 1 (.accepted 4), .accept 0 2 (.accepted 5),
        .moveAssign 1 2] := by
  constructor
  · intro owned
    have keeps := (owned_empty.throughout_iff _).mp owned
    exact absurd (keeps.1 nofun).2.1 (by decide)
  · intro owned
    have keeps := (owned_empty.throughout_iff _).mp owned
    exact absurd (keeps.2.2.2.1 (by decide)) (by decide)

end Sockets

end Boutique.Io
