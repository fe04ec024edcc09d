import Boutique.Data.Executions
import Boutique.Io.Journals

namespace Boutique.Io

open Boutique.Data

variable {Addr Buf κ World World' : Type}

/-! # One program in place of another

Programs around a context that do the like of each other leave it the same. -/

/-- What `spec` does in a world, `host` does in a like one, unless `spec` fails with
an excuse. -/
structure Host.Simulates (excused : Halt → Prop) (host : Host Addr Buf κ World)
    (spec : Host Addr Buf κ World') (like : World → World' → Prop) : Prop where
  fd : ∀ {world world'} object, like world world' → host.fd world object = spec.fd world' object
  recv : ∀ {world world'} object buf data, like world world' →
    Follows excused like (host.recv world object buf data) (spec.recv world' object buf data)
  send : ∀ {world world'} object data, like world world' →
    Follows excused like (host.send world object data) (spec.send world' object data)
  accept : ∀ {world world'} object fd, like world world' →
    Follows excused like (host.accept world object fd) (spec.accept world' object fd)
  resume : ∀ {world world'} fn argument, like world world' →
    Follows excused (fun result result' => like result.1 result'.1 ∧ result.2 = result'.2)
      (host.resume fn argument world) (spec.resume fn argument world')

namespace Machine

/-- The machine in another world. -/
def inWorld (m : Machine Addr Buf κ World) (world : World') : Machine Addr Buf κ World' :=
  { m with world }

/-- Machines that differ in their worlds only, which are alike. -/
def Twins (like : World → World' → Prop) (m : Machine Addr Buf κ World)
    (m' : Machine Addr Buf κ World') : Prop :=
  ∃ world', like m.world world' ∧ m' = m.inWorld world'

variable {excused : Halt → Prop} {host : Host Addr Buf κ World} {spec : Host Addr Buf κ World'}
  {like : World → World' → Prop} {m : Machine Addr Buf κ World}
  {m' : Machine Addr Buf κ World'} {world' : World'}

theorem inWorld_callRecvHandler (m : Machine Addr Buf κ World) (world' : World')
    (handler : RecvHandler Addr Buf κ) (res : Nat) :
    (m.inWorld world').callRecvHandler handler res =
      (m.callRecvHandler handler res).inWorld world' := by
  simp only [callRecvHandler]
  split <;> rfl

theorem inWorld_callSendHandler (m : Machine Addr Buf κ World) (world' : World')
    (handler : SendHandler Addr κ) (res : Nat) :
    (m.inWorld world').callSendHandler handler res =
      (m.callSendHandler handler res).inWorld world' := by
  simp only [callSendHandler]
  split <;> rfl

theorem inWorld_perform (m : Machine Addr Buf κ World) (world' : World')
    (call : Call Addr Buf κ) :
    (m.inWorld world').perform call = (m.perform call).inWorld world' := by
  cases call with
  | asyncRecvAll socket buf len fn => exact inWorld_callRecvHandler m world' _ 0
  | asyncSendAll socket buf fn =>
      exact inWorld_callSendHandler { m with submitted := m.submitted ++ [(socket, buf)] }
        world' _ 0
  | asyncRecv | asyncSend | asyncAccept | asyncWait | stop => rfl

theorem inWorld_proceed (m : Machine Addr Buf κ World) (world' : World')
    (call : Option (Call Addr Buf κ)) (next : Option κ) (stack : List (κ × Nat)) :
    (m.inWorld world').proceed call next stack = (m.proceed call next stack).inWorld world' := by
  cases call with
  | none => rfl
  | some call =>
      exact inWorld_perform { m with
        stack := (next.map fun fn => (fn, 0)).toList ++ stack } world' call

theorem Twins.proceed (twins : Twins like m m') (call : Option (Call Addr Buf κ))
    (next : Option κ) (stack : List (κ × Nat)) :
    Twins like (m.proceed call next stack) (m'.proceed call next stack) := by
  obtain ⟨world', alike, rfl⟩ := twins
  refine ⟨world', ?_, inWorld_proceed m world' call next stack⟩
  rw [proceed_world]
  exact alike

theorem Twins.invokeRecv (twins : Twins like m m')
    (fn : IntFn κ (RecvHandler Addr Buf κ)) (res : Nat) :
    Twins like (m.invokeRecv fn res) (m'.invokeRecv fn res) := by
  obtain ⟨world', alike, rfl⟩ := twins
  cases fn with
  | user fn => exact ⟨world', alike, rfl⟩
  | handler handler =>
      refine ⟨world', ?_, inWorld_callRecvHandler m world' handler res⟩
      rw [Machine.invokeRecv, callRecvHandler_world]
      exact alike

theorem Twins.invokeSend (twins : Twins like m m')
    (fn : IntFn κ (SendHandler Addr κ)) (res : Nat) :
    Twins like (m.invokeSend fn res) (m'.invokeSend fn res) := by
  obtain ⟨world', alike, rfl⟩ := twins
  cases fn with
  | user fn => exact ⟨world', alike, rfl⟩
  | handler handler =>
      refine ⟨world', ?_, inWorld_callSendHandler m world' handler res⟩
      rw [Machine.invokeSend, callSendHandler_world]
      exact alike

/-! ## Steps -/

theorem Twins.resume (simulates : host.Simulates excused spec like) (twins : Twins like m m')
    (fn : κ) (argument : Nat) (stack : List (κ × Nat)) :
    Follows excused (Twins like) (m.resume host fn argument stack)
      (m'.resume spec fn argument stack) := by
  obtain ⟨world', alike, rfl⟩ := twins
  refine (simulates.resume fn argument alike).bind fun result result' given => ?_
  obtain ⟨world, call, next⟩ := result
  obtain ⟨world', call', next'⟩ := result'
  obtain ⟨alike, same⟩ := given
  cases same
  exact follows_ok_iff.mpr (Twins.proceed ⟨world', alike, rfl⟩ call next stack)

theorem fdOf_eq (simulates : host.Simulates excused spec like) {world : World}
    (alike : like world world') :
    fdOf host world = fdOf spec world' := by
  funext object
  rw [fdOf, fdOf, simulates.fd object alike]

theorem Twins.select (simulates : host.Simulates excused spec like) (twins : Twins like m m')
    (read write : List Fd) :
    Follows excused (Twins like) (m.select host read write) (m'.select spec read write) := by
  obtain ⟨world', alike, rfl⟩ := twins
  rw [Machine.select, Machine.select, fdOf_eq simulates alike]
  refine (Follows.refl _).bind fun recvFds _ same => ?_
  subst same
  refine (Follows.refl _).bind fun sendFds _ same => ?_
  subst same
  refine (Follows.refl _).bind fun acceptFds _ same => ?_
  subst same
  refine (Follows.refl _).bind fun waitFds _ same => ?_
  subst same
  exact follows_ok_iff.mpr ⟨world', alike, rfl⟩

/-- Both visit the operation if they serve it alike. -/
theorem Twins.visit (simulates : host.Simulates excused spec like) (twins : Twins like m m')
    {object : Addr} {set : List Fd} {event : Event κ}
    {passed : Machine Addr Buf κ World} {passed' : Machine Addr Buf κ World'}
    {serve : Event κ → Except Halt (Machine Addr Buf κ World)}
    {serve' : Event κ → Except Halt (Machine Addr Buf κ World')}
    (passes : Twins like passed passed')
    (serves : Follows excused (Twins like) (serve event) (serve' event)) :
    Follows excused (Twins like) (m.visit host object set passed serve event)
      (m'.visit spec object set passed' serve' event) := by
  obtain ⟨world', alike, rfl⟩ := twins
  unfold Machine.visit
  rw [fdOf_eq simulates alike]
  refine (Follows.refl _).bind fun fd _ same => ?_
  subst same
  by_cases isSet : fd ∈ set
  · rw [if_pos isSet, if_pos isSet]
    exact serves
  · rw [if_neg isSet, if_neg isSet]
    cases event with
    | tick => exact follows_ok_iff.mpr passes
    | call | run | select | recv | send | accept | wait => exact follows_error _ _

theorem Twins.serveRecv (simulates : host.Simulates excused spec like) (twins : Twins like m m')
    (op : RecvOp Addr Buf κ) (event : Event κ) :
    Follows excused (Twins like) (m.serveRecv host op event) (m'.serveRecv spec op event) := by
  obtain ⟨world', alike, rfl⟩ := twins
  cases event with
  | recv data =>
      simp only [Machine.serveRecv]
      split
      · refine (simulates.recv op.socket op.buf data alike).bind fun world world' alike => ?_
        exact follows_ok_iff.mpr (Twins.invokeRecv ⟨world', alike, rfl⟩ _ _)
      · exact follows_error _ _
  | call | run | select | send | accept | wait | tick => exact follows_error _ _

theorem Twins.serveSend (simulates : host.Simulates excused spec like) (twins : Twins like m m')
    (op : SendOp Addr κ) (event : Event κ) :
    Follows excused (Twins like) (m.serveSend host op event) (m'.serveSend spec op event) := by
  obtain ⟨world', alike, rfl⟩ := twins
  cases event with
  | send accepted =>
      simp only [Machine.serveSend]
      split
      · refine (simulates.send op.socket _ alike).bind fun world world' alike => ?_
        exact follows_ok_iff.mpr (Twins.invokeSend ⟨world', alike, rfl⟩ _ _)
      · exact follows_error _ _
  | call | run | select | recv | accept | wait | tick => exact follows_error _ _

theorem Twins.serveAccept (simulates : host.Simulates excused spec like) (twins : Twins like m m')
    (op : AcceptOp Addr κ) (event : Event κ) :
    Follows excused (Twins like) (m.serveAccept host op event) (m'.serveAccept spec op event) := by
  obtain ⟨world', alike, rfl⟩ := twins
  cases event with
  | accept fd =>
      refine (simulates.accept op.socket fd alike).bind fun world world' alike => ?_
      exact follows_ok_iff.mpr ⟨world', alike, rfl⟩
  | call | run | select | recv | send | wait | tick => exact follows_error _ _

theorem Twins.serveWait (twins : Twins like m m') (op : WaitOp Addr κ) (event : Event κ) :
    Follows excused (Twins like) (m.serveWait op event) (m'.serveWait op event) := by
  obtain ⟨world', alike, rfl⟩ := twins
  cases event with
  | wait count => exact follows_ok_iff.mpr ⟨world', alike, rfl⟩
  | call | run | select | recv | send | accept | tick => exact follows_error _ _

theorem Twins.iterate (simulates : host.Simulates excused spec like) (twins : Twins like m m')
    (ready : Ready) (event : Event κ) :
    Follows excused (Twins like) (m.iterate host ready event) (m'.iterate spec ready event) := by
  have same : m'.context = m.context := by
    obtain ⟨world', alike, rfl⟩ := twins
    rfl
  have passes : ∀ context : IOContext Addr Buf κ,
      Twins like { m with context } { m' with context } := by
    obtain ⟨world', alike, rfl⟩ := twins
    exact fun context => ⟨world', alike, rfl⟩
  simp only [Machine.iterate, same]
  split
  · exact twins.visit simulates (passes _) (twins.serveRecv simulates _ event)
  · exact twins.visit simulates (passes _) (twins.serveSend simulates _ event)
  · exact twins.visit simulates (passes _) (twins.serveAccept simulates _ event)
  · exact twins.visit simulates (passes _) (twins.serveWait _ event)
  · cases event with
    | tick =>
        obtain ⟨world', alike, rfl⟩ := twins
        exact follows_ok_iff.mpr ⟨world', alike, rfl⟩
    | call | run | select | recv | send | accept | wait => exact follows_error _ _

theorem Twins.atHead (simulates : host.Simulates excused spec like) (twins : Twins like m m')
    (event : Event κ) :
    Follows excused (Twins like) (m.atHead host event) (m'.atHead spec event) := by
  have selects := twins.select simulates
  obtain ⟨world', alike, rfl⟩ := twins
  simp only [Machine.atHead, inWorld] at selects ⊢
  split
  · exact follows_ok_iff.mpr ⟨world', alike, rfl⟩
  · exact selects _ _
  · exact follows_ok_iff.mpr ⟨world', alike, rfl⟩
  · exact follows_ok_iff.mpr ⟨world', alike, rfl⟩
  · exact follows_error _ _

theorem Twins.step (simulates : host.Simulates excused spec like) (twins : Twins like m m')
    (event : Event κ) : Follows excused (Twins like) (m.step host event) (m'.step spec event) := by
  have stack : m'.stack = m.stack := by
    obtain ⟨world', alike, rfl⟩ := twins
    rfl
  have ready : m'.ready = m.ready := by
    obtain ⟨world', alike, rfl⟩ := twins
    rfl
  simp only [Machine.step, stack, ready]
  split
  · cases event with
    | tick => exact twins.resume simulates _ _ _
    | call | run | select | recv | send | accept | wait => exact follows_error _ _
  · split
    · exact twins.atHead simulates event
    · exact twins.iterate simulates _ event

/-- A run of the one is a run of the other. -/
theorem Twins.run (simulates : host.Simulates excused spec like) (twins : Twins like m m')
    (events : List (Event κ)) :
    Follows excused (Twins like) (run host m events) (run spec m' events) := by
  induction events generalizing m m' with
  | nil => exact follows_ok_iff.mpr twins
  | cons event events ih =>
      exact (twins.step simulates event).bind fun next next' twins => ih twins

end Machine

end Boutique.Io
