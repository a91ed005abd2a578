import ORBit2.Base.Outcomes
import ORBit2.PoaOperations

/-! The requests that POAs hold, and who gives their buffers back. -/

set_option autoImplicit false

namespace ORBit2.HeldRequests
open PortableServer

/-- Which POA has which manager, and which POAs a manager knows. -/
structure Managers where
  manager : Nat → Nat
  poaCollection : Nat → List Nat

/-- What a thread has still to do. -/
inductive Task where
  /-- `ORBit_POAObject_invoke_incoming_request` -/
  | invokeIncomingRequest (p buffer : Nat)
  /-- its end, `giop_recv_buffer_unuse` -/
  | unuse (buffer : Nat)
  /-- `ORBit_POA_handle_held_requests` -/
  | handleHeldRequests (p : Nat)
  /-- the assertion in `ORBit_POA_deactivate` -/
  | assertNoneHeld (p : Nat)
  deriving DecidableEq, Repr

structure State where
  managers : Nat → POAManagerState
  /-- `poa->held_requests` -/
  held : Nat → List Nat
  /-- the buffers that have been given back -/
  released : List Nat
  /-- what the threads have still to do, for each thread what comes next first -/
  tasks : List (Nat × Task)
  nextBuffer : Nat
  /-- the requests a POA has held, in the order of their arrival -/
  arrivals : Nat → List Nat
  /-- the requests that have been served or refused, in this order -/
  outcomes : List Nat
  stopped : Option PortableServer.Stop

section
variable (w : Managers)

/-- The switch of `ORBit_POAObject_handle_request` over the state of the manager, with a buffer. -/
def State.handleRequest (s : State) (p buffer : Nat) : State :=
  match s.managers (w.manager p) with
  | .holding =>
      { s with
        held := Function.update s.held p (buffer :: s.held p)
        arrivals := if buffer ∈ s.arrivals p then s.arrivals
          else Function.update s.arrivals p (s.arrivals p ++ [buffer]) }
  | .active | .discarding | .inactive => { s with outcomes := s.outcomes ++ [buffer] }

/-- `ORBit_POAObject_invoke_incoming_request`: without an object the request is refused. The
buffer is given back in any case. -/
def State.invokeIncomingRequest (s : State) (p buffer : Nat) (found : Bool) :
    Except PortableServer.Stop (State × List Task) :=
  if buffer ∈ s.released then .error .freed
  else if found then .ok (s.handleRequest w p buffer, [.unuse buffer])
  else .ok ({ s with outcomes := s.outcomes ++ [buffer] }, [.unuse buffer])

def State.unuse (s : State) (buffer : Nat) : Except PortableServer.Stop (State × List Task) :=
  if buffer ∈ s.released then .error .freed
  else .ok ({ s with released := buffer :: s.released }, [])

/-- `ORBit_POA_handle_held_requests`: the list is taken away, and every request on it is handled
as if it came in. -/
def State.handleHeldRequests (s : State) (p : Nat) : State × List Task :=
  ({ s with held := Function.update s.held p [] },
    (s.held p).map fun buffer => .invokeIncomingRequest p buffer)

def State.runTask (s : State) (found : Bool) : Task → Except PortableServer.Stop (State × List Task)
  | .invokeIncomingRequest p buffer => s.invokeIncomingRequest w p buffer found
  | .unuse buffer => s.unuse buffer
  | .handleHeldRequests p => .ok (s.handleHeldRequests p)
  | .assertNoneHeld p => if s.held p = [] then .ok (s, []) else .error .assertion

def State.push (s : State) (t : Nat) (tasks : List Task) (rest : List (Nat × Task)) : State :=
  { s with tasks := tasks.map (t, ·) ++ rest }

def State.setManager (s : State) (m : Nat) (state : POAManagerState) : State :=
  { s with managers := Function.update s.managers m state }

inductive Event where
  /-- a request comes in, and the thread gets it -/
  | arrive (t p : Nat)
  | activate (t m : Nat)
  | holdRequests (m : Nat)
  | discardRequests (m : Nat)
  | deactivate (t m : Nat)
  /-- the thread goes on; where it handles a request, its object is found or made, or not -/
  | run (t : Nat) (found : Bool)
  deriving DecidableEq, Repr

def State.execute (s : State) : Event → Except PortableServer.Stop State
  | .arrive t p =>
      .ok ({ s with nextBuffer := s.nextBuffer + 1 }.push t
        [.invokeIncomingRequest p s.nextBuffer] s.tasks)
  | .activate t m =>
      if s.managers m = .inactive then .ok s
      else .ok ((s.setManager m .active).push t
        ((w.poaCollection m).map fun p => .handleHeldRequests p) s.tasks)
  | .holdRequests m =>
      if s.managers m = .inactive then .ok s else .ok (s.setManager m .holding)
  | .discardRequests m =>
      if s.managers m = .inactive then .ok s else .ok (s.setManager m .discarding)
  | .deactivate t m =>
      if s.managers m = .inactive then .ok s
      else .ok ((s.setManager m .inactive).push t
        ((w.poaCollection m).flatMap fun p => [.handleHeldRequests p, .assertNoneHeld p]) s.tasks)
  | .run t found =>
      match nextTask t s.tasks with
      | some (k, rest) => do
          let (s', tasks) ← s.runTask w found k
          .ok (s'.push t tasks rest)
      | none => .ok s

def State.step (s : State) (e : Event) : State :=
  if s.stopped.isSome then s
  else match s.execute w e with
    | .ok s' => s'
    | .error stop => { s with stopped := some stop }

def State.init : State where
  managers := fun _ => .holding
  held := fun _ => []
  released := []
  tasks := []
  nextBuffer := 0
  arrivals := fun _ => []
  outcomes := []
  stopped := none

/-- The step puts a request on the list of its POA. -/
def State.Holds (s : State) : Event → Prop
  | .run t found => s.stopped = none ∧ found = true ∧
      ∃ p buffer rest, nextTask t s.tasks = some (.invokeIncomingRequest p buffer, rest) ∧
        buffer ∉ s.released ∧ s.managers (w.manager p) = .holding
  | _ => False

end

/-- What is to hold of held requests in every state. -/
structure State.HeldProperly (s : State) : Prop where
  /-- nobody has given back, or is going to give back, the buffer of a held request -/
  owned : ∀ p, ∀ buffer ∈ s.held p,
    buffer ∉ s.released ∧ ∀ t, (t, Task.unuse buffer) ∉ s.tasks
  /-- a request that was held is not lost -/
  kept : ∀ p, ∀ buffer ∈ s.arrivals p, buffer ∈ s.held p ∨ buffer ∈ s.outcomes ∨
    ∃ t, (t, Task.invokeIncomingRequest p buffer) ∈ s.tasks
  /-- those that were held are served or refused once, in the order of their arrival -/
  order : ∀ p, s.outcomes.filter (· ∈ s.arrivals p) <+: s.arrivals p

section
variable {w : Managers} {s s' : State} {e : Event}

/-- No POA holds a request, or has held one. -/
def State.NoneHeld (s : State) : Prop := ∀ p, s.held p = [] ∧ s.arrivals p = []

theorem State.NoneHeld.heldProperly (h : s.NoneHeld) : s.HeldProperly where
  owned p buffer hb := by
    rw [(h p).1] at hb
    cases hb
  kept p buffer hb := by
    rw [(h p).2] at hb
    cases hb
  order p := by simp [(h p).2]

theorem State.NoneHeld.execute (h : s.NoneHeld) (hstop : s.stopped = none) (he : ¬ s.Holds w e)
    (hr : s.execute w e = .ok s') : s'.NoneHeld := by
  cases e with
  | arrive t p =>
    cases hr
    exact h
  | activate t m =>
    unfold State.execute at hr
    dsimp only at hr
    split at hr <;> cases hr <;> exact h
  | holdRequests m =>
    unfold State.execute at hr
    dsimp only at hr
    split at hr <;> cases hr <;> exact h
  | discardRequests m =>
    unfold State.execute at hr
    dsimp only at hr
    split at hr <;> cases hr <;> exact h
  | deactivate t m =>
    unfold State.execute at hr
    dsimp only at hr
    split at hr <;> cases hr <;> exact h
  | run t found =>
    unfold State.execute at hr
    dsimp only at hr
    split at hr
    · rename_i k rest hnext
      obtain ⟨⟨s₁, ks⟩, hs₁, hr⟩ := Outcomes.of_bind hr
      cases hr
      suffices hk : s₁.NoneHeld from hk
      cases k with
      | invokeIncomingRequest p buffer =>
        obtain ⟨hrel, hs₁⟩ := Outcomes.of_guard hs₁
        split at hs₁
        · rename_i hfound
          cases hs₁
          have hm : s.managers (w.manager p) ≠ .holding :=
            fun hm => he ⟨hstop, hfound, p, buffer, rest, hnext, hrel, hm⟩
          unfold State.handleRequest
          split
          · rename_i hm'
            exact absurd hm' hm
          · exact h
          · exact h
          · exact h
        · cases hs₁
          exact h
      | unuse buffer =>
        obtain ⟨-, hs₁⟩ := Outcomes.of_guard hs₁
        cases hs₁
        exact h
      | handleHeldRequests p =>
        cases hs₁
        intro q
        refine ⟨?_, (h q).2⟩
        show Function.update s.held p [] q = []
        by_cases hq : q = p
        · rw [hq, Function.update_self]
        · rw [Function.update_of_ne hq]
          exact (h q).1
      | assertNoneHeld p =>
        simp only [State.runTask] at hs₁
        split at hs₁
        · cases hs₁
          exact h
        · cases hs₁
    · cases hr
      exact h

theorem State.NoneHeld.step (h : s.NoneHeld) (he : ¬ s.Holds w e) : (s.step w e).NoneHeld := by
  unfold State.step
  split
  · exact h
  · rename_i hstop
    split
    · rename_i s₁ hs₁
      exact h.execute (by simpa using hstop) he hs₁
    · exact h

/-- Who holds a request gives its buffer back. -/
theorem State.Holds.not_heldProperly (he : s.Holds w e) : ¬ (s.step w e).HeldProperly := by
  cases e with
  | run t found =>
    obtain ⟨hstop, rfl, p, buffer, rest, hnext, hrel, hm⟩ := he
    have hstep : s.step w (.run t true) = (s.handleRequest w p buffer).push t [.unuse buffer] rest := by
      unfold State.step State.execute
      simp only [hstop, Option.isSome_none, Bool.false_eq_true, if_false, hnext, State.runTask,
        State.invokeIncomingRequest, if_neg hrel, if_true, Outcomes.ok_bind]
    rw [hstep]
    intro h
    have hheld : buffer ∈ ((s.handleRequest w p buffer).push t [.unuse buffer] rest).held p := by
      unfold State.push State.handleRequest
      rw [hm]
      simp
    exact (h.owned p buffer hheld).2 t (by simp [State.push])
  | arrive t p => exact absurd he id
  | activate t m => exact absurd he id
  | holdRequests m => exact absurd he id
  | discardRequests m => exact absurd he id
  | deactivate t m => exact absurd he id

end

/-- In a run all requests are held properly exactly if none is. -/
theorem heldProperly_iff_no_holds (w : Managers) (es : List Event) :
    Runs.Always (State.step w) State.HeldProperly .init es ↔
      Runs.Meets (State.step w) (fun s e => ¬ s.Holds w e) .init es := by
  suffices h : ∀ s : State, s.NoneHeld → (Runs.Always (State.step w) State.HeldProperly s es ↔
      Runs.Meets (State.step w) (fun s e => ¬ s.Holds w e) s es) from h _ fun _ => ⟨rfl, rfl⟩
  induction es with
  | nil => exact fun s hs => ⟨fun _ => trivial, fun _ => hs.heldProperly⟩
  | cons e es ih =>
    intro s hs
    constructor
    · rintro ⟨-, h⟩
      have he : ¬ s.Holds w e := by
        intro he
        have hnext : (s.step w e).HeldProperly := by
          cases es with
          | nil => exact h
          | cons e' es => exact h.1
        exact he.not_heldProperly hnext
      exact ⟨he, (ih _ (hs.step he)).mp h⟩
    · rintro ⟨he, h⟩
      exact ⟨hs.heldProperly, (ih _ (hs.step he)).mpr h⟩

/-- One POA with its manager, which holds requests from the start. -/
def oneManager : Managers where
  manager := fun _ => 0
  poaCollection := fun _ => [0]

/-- The buffer of a held request is given back at once. -/
theorem not_heldProperly_arrive : ¬ Runs.Always (State.step oneManager) State.HeldProperly .init
    [.arrive 0 0, .run 0 true, .run 0 true] := by
  intro h
  exact (h.last.owned 0 0 (by decide)).1 (by decide)

end ORBit2.HeldRequests
