import ORBit2.RecvConnection
import ORBit2.Adaptor
import ORBit2.Base.Runs

/-! `ORBit_small_invoke_async` from the moment its entry is in the list of queued messages,
beside the parties that may take the entry: `handle_reply`, `giop_recv_list_zap` and the
queue of the thread that made the call. -/

set_option autoImplicit false

namespace ORBit2
open Runs

/-- What the caller passes. -/
structure AsyncCall where
  /-- `ORBit_I_METHOD_1_WAY` -/
  oneway : Bool
  /-- `none` is NULL -/
  fn : Option Nat
  userData : Nat
  mData : Nat
  deriving DecidableEq, Repr

/-- What an environment holds after a call or in a callback. -/
inductive AsyncOutcome where
  | ok
  | commFailure (status : CompletionStatus)
  | timeout (status : CompletionStatus)
  deriving DecidableEq, Repr

/-- `ORBitAsyncQueueEntry`. It comes from `g_new`, so a field that is not yet written holds
no value. -/
structure AsyncQueueEntry where
  /-- `mqe.async_cb` is `async_recv_cb`, not NULL -/
  asyncCb : Bool
  /-- `mqe.buffer` is not NULL -/
  buffer : Bool
  /-- `mqe.cnx` is not NULL -/
  cnx : Bool
  completionStatus : CompletionStatus
  fn : Option (Option Nat)
  userData : Option Nat
  mData : Option Nat
  deriving DecidableEq, Repr

/-- One call of `fn`. -/
structure AsyncCallback where
  fn : Nat
  mData : Option Nat
  userData : Option Nat
  ev : AsyncOutcome
  deriving DecidableEq, Repr

/-- The next statement of `ORBit_small_invoke_async`. -/
inductive AsyncPhase where
  | setupAsync
  /-- in `orbit_small_marshal`, up to the result of the write -/
  | marshal
  /-- the write has failed: `giop_recv_list_destroy_queue_entry` in `orbit_small_marshal` -/
  | marshalDestroy
  | systemException
  /-- `giop_recv_list_destroy_queue_entry` for a oneway method -/
  | destroy
  | setStatus | setFn | setUserData | setMData
  | returned | raised
  deriving DecidableEq, Repr

inductive AsyncTaker where
  | reply | zap
  deriving DecidableEq, Repr

/-- Who has taken the entry out of the list. `self` is the thread that made the call. -/
structure AsyncHolder where
  taker : AsyncTaker
  self : Bool
  deriving DecidableEq, Repr

inductive AsyncFault where
  | useAfterFree | wildCall
  deriving DecidableEq, Repr

structure AsyncState where
  aqe : AsyncQueueEntry
  phase : AsyncPhase
  /-- the entry is in `giop_queued_messages` -/
  queued : Bool
  held : Option AsyncHolder
  /-- how often the entry is in `async_ents` of its thread -/
  deferred : Nat
  /-- `g_free (aqe)` -/
  frees : Nat
  /-- `ORBit_RootObject_release (aqe->obj)` -/
  released : Nat
  /-- the calls of `fn`, in order -/
  calls : List AsyncCallback
  ev : AsyncOutcome
  fault : Option AsyncFault
  deriving DecidableEq, Repr

inductive AsyncEvent where
  /-- the next statement of the call, outside the write -/
  | advance
  /-- `giop_send_buffer_write` returns -/
  | written (ok : Bool)
  /-- the entry is found and taken out, under the lock of the list -/
  | take (taker : AsyncTaker) (self : Bool)
  /-- what the taker does to the entry when the lock is gone -/
  | hand (link : LinkStatus)
  /-- `giop_thread_queue_process` on the thread that made the call -/
  | process (link : LinkStatus)
  deriving DecidableEq, Repr

namespace AsyncState

/-- The state in which `giop_recv_list_setup_queue_entry` leaves the call. -/
def visible : AsyncState :=
  { aqe := ⟨false, false, true, .no, none, none, none⟩
    phase := .setupAsync, queued := true, held := none, deferred := 0
    frees := 0, released := 0, calls := [], ev := .ok, fault := none }

def fail (s : AsyncState) (fault : AsyncFault) : AsyncState := { s with fault := some fault }

/-- Whatever reads or writes the entry. -/
def access (s : AsyncState) (f : AsyncQueueEntry → AsyncState) : AsyncState :=
  if s.frees = 0 then f s.aqe else s.fail .useAfterFree

/-- The exception that `async_recv_cb` passes on. -/
def outcome (aqe : AsyncQueueEntry) (link : LinkStatus) : AsyncOutcome :=
  if !aqe.cnx || link = .disconnected then .commFailure aqe.completionStatus
  else if link = .timeout then .timeout aqe.completionStatus
  else .ok

/-- `async_recv_cb` -/
def asyncRecvCb (s : AsyncState) (link : LinkStatus) : AsyncState :=
  s.access fun aqe =>
    match aqe.fn with
    | none => s.fail .wildCall
    | some fn =>
        { s with
          aqe := { aqe with asyncCb := false, cnx := false }
          calls := s.calls ++ fn.toList.map fun f => ⟨f, aqe.mData, aqe.userData, outcome aqe link⟩
          released := s.released + 1
          queued := false
          frees := s.frees + 1 }

/-- `giop_invoke_async`. Without an I/O thread the thread is always the one of the call. -/
def invokeAsync (s : AsyncState) (self : Bool) (link : LinkStatus) : AsyncState :=
  s.access fun _ => if self then s.asyncRecvCb link else { s with deferred := s.deferred + 1 }

/-- The thread of the call is busy with input. -/
def busy (s : AsyncState) : Bool := s.held.any (·.self)

/-- The thread of the call handles input while the write waits, and after the call. -/
def handlesInput (s : AsyncState) : Bool :=
  s.phase = .marshal || s.phase = .returned || s.phase = .raised

def advance (call : AsyncCall) (s : AsyncState) : AsyncState :=
  match s.phase with
  | .setupAsync =>
      s.access fun aqe => { s with aqe := { aqe with asyncCb := !call.oneway }, phase := .marshal }
  | .marshal => s
  | .marshalDestroy =>
      s.access fun aqe =>
        { s with aqe := { aqe with cnx := false }, queued := false, phase := .systemException }
  | .systemException =>
      s.access fun aqe =>
        { s with ev := .commFailure aqe.completionStatus, frees := s.frees + 1, phase := .raised }
  | .destroy =>
      s.access fun aqe =>
        { s with aqe := { aqe with cnx := false }, queued := false, phase := .setStatus }
  | .setStatus =>
      s.access fun aqe => { s with aqe := { aqe with completionStatus := .maybe }, phase := .setFn }
  | .setFn =>
      s.access fun aqe => { s with aqe := { aqe with fn := some call.fn }, phase := .setUserData }
  | .setUserData =>
      s.access fun aqe =>
        { s with aqe := { aqe with userData := some call.userData }, phase := .setMData }
  | .setMData =>
      s.access fun aqe => { s with aqe := { aqe with mData := some call.mData }, phase := .returned }
  | .returned => s
  | .raised => s

/-- `giop_send_buffer_write` returns to `orbit_small_marshal`. -/
def written (call : AsyncCall) (s : AsyncState) (ok : Bool) : AsyncState :=
  { s with phase := if !ok then .marshalDestroy else if call.oneway then .destroy else .setStatus }

/-- The part of `handle_reply` and of `giop_recv_list_zap` under `giop_queued_messages_lock`. -/
def take (s : AsyncState) (taker : AsyncTaker) (self : Bool) : AsyncState :=
  s.access fun aqe =>
    match taker with
    | .reply => { s with queued := false, held := some ⟨.reply, self⟩ }
    | .zap =>
        { s with
          aqe := { aqe with buffer := false, cnx := false }
          queued := false
          held := if aqe.asyncCb then some ⟨.zap, self⟩ else none }

/-- The part behind it. An entry without `async_cb` is left to a thread that waits for it. -/
def hand (s : AsyncState) (h : AsyncHolder) (link : LinkStatus) : AsyncState :=
  s.access fun aqe =>
    let aqe := if h.taker = .reply then { aqe with buffer := true } else aqe
    let s := { s with aqe := aqe, held := none }
    if aqe.asyncCb then s.invokeAsync h.self link else s

/-- One event. One that cannot happen in this state changes nothing. -/
def step (call : AsyncCall) (s : AsyncState) (e : AsyncEvent) : AsyncState :=
  if s.fault.isSome then s
  else match e with
    | .advance => if s.busy then s else s.advance call
    | .written ok => if s.phase = .marshal ∧ ¬ s.busy then s.written call ok else s
    | .take taker self =>
        if s.queued ∧ (self → s.handlesInput) then s.take taker self else s
    | .hand link =>
        match s.held with
        | none => s
        | some h => s.hand h link
    | .process link =>
        if 0 < s.deferred ∧ (s.phase = .returned ∨ s.phase = .raised) ∧ ¬ s.busy then
          { s with deferred := s.deferred - 1 }.invokeAsync true link
        else s

/-- The calls of `fn` that are due. -/
def wanted (call : AsyncCall) : List (Nat × Option Nat × Option Nat) :=
  call.fn.toList.map fun f => (f, some call.mData, some call.userData)

/-- `fn`, `m_data` and `user_data` of the calls that were made. -/
def made (s : AsyncState) : List (Nat × Option Nat × Option Nat) :=
  s.calls.map fun c => (c.fn, c.mData, c.userData)

/-- Nothing is left to be done for the call. -/
def Complete (s : AsyncState) : Prop :=
  s.fault.isSome ∨
    ((s.phase = .returned ∨ s.phase = .raised) ∧ s.queued = false ∧ s.held = none ∧ s.deferred = 0)

instance (s : AsyncState) : Decidable s.Complete := inferInstanceAs (Decidable (_ ∨ _))

/-- The call so far, and at its end: no access to freed or unwritten memory, `fn` called
once with its own data, the entry and its object released once. -/
structure Honoured (call : AsyncCall) (s : AsyncState) : Prop where
  fault : s.fault = none
  frees : s.frees ≤ 1
  released : s.released ≤ 1
  calls : s.made = [] ∨ s.made = wanted call
  freed : s.Complete → s.frees = 1
  objectReleased : s.Complete → s.released = 1
  calledBack : s.Complete → s.phase = .returned → call.oneway = false → s.made = wanted call
  notCalled : s.Complete → s.phase = .raised → s.made = []

/-- The write succeeds, `giop_recv_list_zap` and what `handle_reply` does behind its lock
come after `async_cb` is set, and the thread of the call hands nothing over from inside
the write. -/
def InOrder (s : AsyncState) : AsyncEvent → Prop
  | .written ok => s.phase = .marshal → s.busy = false → ok = true
  | .take taker self => s.queued = true → (self = true → s.handlesInput) → taker = .zap →
      s.aqe.asyncCb = true
  | .hand _ => ∀ h ∈ s.held, s.aqe.asyncCb = true ∧ (h.self = true → s.phase ≠ .marshal)
  | _ => True

instance (s : AsyncState) (e : AsyncEvent) : Decidable (s.InOrder e) := by
  cases e <;> unfold InOrder <;> infer_instance

/-- A two-way call that nobody has called back for: how far the entry is filled in. -/
structure Live (call : AsyncCall) (s : AsyncState) : Prop where
  fault : s.fault = none
  frees : s.frees = 0
  released : s.released = 0
  calls : s.calls = []
  path : s.phase ∈ [.setupAsync, .marshal, .setStatus, .setFn, .setUserData, .setMData, .returned]
  armed : s.aqe.asyncCb = true ↔ s.phase ≠ .setupAsync
  unset : s.phase ∈ [.setupAsync, .marshal] → s.aqe.fn = none
  fn : s.phase ∈ [.setUserData, .setMData, .returned] → s.aqe.fn = some call.fn
  userData : s.phase ∈ [.setMData, .returned] → s.aqe.userData = some call.userData
  mData : s.phase = .returned → s.aqe.mData = some call.mData

/-- As long as everything is in order, one party has the entry of a two-way call. -/
inductive Good (call : AsyncCall) (s : AsyncState) : Prop
  | queued (live : Live call s) (queued : s.queued = true) (held : s.held = none)
      (deferred : s.deferred = 0)
  | held (live : Live call s) (queued : s.queued = false) (h : AsyncHolder) (held : s.held = some h)
      (self : h.self = true → s.handlesInput = true) (deferred : s.deferred = 0)
  | deferred (live : Live call s) (queued : s.queued = false) (held : s.held = none)
      (deferred : s.deferred = 1)
  | finished (fault : s.fault = none) (phase : s.phase = .returned) (queued : s.queued = false)
      (held : s.held = none) (deferred : s.deferred = 0) (frees : s.frees = 1)
      (released : s.released = 1) (made : s.made = wanted call)

/-- There is no way back from here to a call that ends well. -/
inductive Doomed (call : AsyncCall) (s : AsyncState) : Prop
  | fault (h : s.fault.isSome)
  /-- nobody will call back for a oneway method -/
  | oneway (h : call.oneway = true) (released : s.released = 0) (cb : s.aqe.asyncCb = false)
      (deferred : s.deferred = 0)
  /-- the entry was taken by one who did not find `async_cb` -/
  | dropped (released : s.released = 0) (queued : s.queued = false) (held : s.held = none)
      (deferred : s.deferred = 0)
  /-- the write has failed -/
  | failing (released : s.released = 0) (self : ∀ h ∈ s.held, h.self = true → s.phase = .raised)
      (phase : s.phase = .marshalDestroy ∨ (s.phase = .systemException ∧ s.queued = false) ∨
        (s.phase = .raised ∧ s.frees ≠ 0 ∧ s.queued = false))

section
variable {call : AsyncCall} {s : AsyncState}

theorem access_live {f : AsyncQueueEntry → AsyncState} (h : s.frees = 0) :
    s.access f = f s.aqe := if_pos h

/-- An access that dooms the call unless the entry is freed. -/
theorem doomed_access {f : AsyncQueueEntry → AsyncState} (h : s.frees = 0 → Doomed call (f s.aqe)) :
    Doomed call (s.access f) := by
  by_cases hf : s.frees = 0
  · rw [access_live hf]
    exact h hf
  · unfold access
    rw [if_neg hf]
    exact .fault rfl

theorem visible_live : Live call visible := by
  constructor <;> simp [visible]

/-- Who has the entry does not matter to how far it is filled in. -/
theorem Live.move (h : Live call s) (queued : Bool) (held : Option AsyncHolder) (deferred : Nat) :
    Live call { s with queued := queued, held := held, deferred := deferred } :=
  ⟨h.fault, h.frees, h.released, h.calls, h.path, h.armed, h.unset, h.fn, h.userData, h.mData⟩

/-- A statement of a two-way call whose write did not fail. -/
theorem Live.advance (h : Live call s) (ho : call.oneway = false) : Live call (s.advance call) := by
  have hpath := h.path
  have harmed := h.armed
  unfold AsyncState.advance
  cases hp : s.phase with
  | marshal | returned => exact h
  | marshalDestroy | systemException | destroy | raised => simp [hp] at hpath
  | setupAsync | setStatus | setFn | setUserData | setMData =>
    simp only [access_live h.frees]
    constructor
    all_goals simp_all [h.fault, h.frees, h.released, h.calls, h.unset, h.fn, h.userData]

/-- It leaves the entry where it is. -/
theorem Live.advance_frame (h : Live call s) : (s.advance call).queued = s.queued ∧
    (s.advance call).held = s.held ∧ (s.advance call).deferred = s.deferred := by
  have hpath := h.path
  unfold AsyncState.advance
  cases hp : s.phase with
  | marshal | returned => simp
  | marshalDestroy | systemException | destroy | raised => simp [hp] at hpath
  | setupAsync | setStatus | setFn | setUserData | setMData => simp [access_live h.frees]

/-- The last party has the entry: `async_recv_cb` ends the call. -/
theorem Live.asyncRecvCb (h : Live call s) (hp : s.phase = .returned) (hh : s.held = none) (hd : s.deferred = 0) (link : LinkStatus) :
    Good call (s.asyncRecvCb link) := by
  have hfn : s.aqe.fn = some call.fn := h.fn (by simp [hp])
  have huser := h.userData (by simp [hp])
  have hm := h.mData hp
  unfold AsyncState.asyncRecvCb
  rw [access_live h.frees, hfn]
  refine .finished h.fault hp rfl hh hd ?_ ?_ ?_
  · simp [h.frees]
  · simp [h.released]
  · cases hc : call.fn <;> simp [AsyncState.made, wanted, h.calls, hc, huser, hm]

theorem Good.fault (h : Good call s) : s.fault = none := by
  cases h with
  | queued live | held live | deferred live => exact live.fault
  | finished fault => exact fault

theorem Good.advance (h : Good call s) (ho : call.oneway = false) (hb : s.busy = false) :
    Good call (s.advance call) := by
  cases h with
  | queued live hq hh hd =>
    obtain ⟨hq', hh', hd'⟩ := live.advance_frame
    exact .queued (live.advance ho) (hq'.trans hq) (hh'.trans hh) (hd'.trans hd)
  | held live hq w hh hself hd =>
    obtain ⟨hq', hh', hd'⟩ := live.advance_frame
    have hw : w.self = false := by simpa [busy, hh] using hb
    exact .held (live.advance ho) (hq'.trans hq) w (hh'.trans hh) (by simp [hw]) (hd'.trans hd)
  | deferred live hq hh hd =>
    obtain ⟨hq', hh', hd'⟩ := live.advance_frame
    exact .deferred (live.advance ho) (hq'.trans hq) (hh'.trans hh) (hd'.trans hd)
  | finished fault hp hq hh hd hf hr hm =>
    have hs : s.advance call = s := by simp [AsyncState.advance, hp]
    rw [hs]
    exact .finished fault hp hq hh hd hf hr hm

/-- The write succeeds. -/
theorem Good.written (h : Good call s) (ho : call.oneway = false) (hp : s.phase = .marshal)
    (hb : s.busy = false) : Good call (s.written call true) := by
  have hlive (live : Live call s) : Live call (s.written call true) := by
    have harmed := live.armed
    simp only [AsyncState.written, ho]
    constructor
    all_goals simp_all [live.fault, live.frees, live.released, live.calls]
  cases h with
  | queued live hq hh hd => exact .queued (hlive live) hq hh hd
  | held live hq w hh hself hd =>
    have hw : w.self = false := by simpa [busy, hh] using hb
    exact .held (hlive live) hq w hh (by simp [hw]) hd
  | deferred live hq hh hd => exact .deferred (hlive live) hq hh hd
  | finished _ hr => simp [hp] at hr

/-- The entry leaves the list, for one who finds `async_cb` or looks for it later. -/
theorem Good.take (h : Good call s) {taker : AsyncTaker} {self : Bool} (hq : s.queued = true)
    (hself : self = true → s.handlesInput = true) (hcb : taker = .zap → s.aqe.asyncCb = true) :
    Good call (s.take taker self) := by
  cases h with
  | held _ hn | deferred _ hn | finished _ _ hn => simp [hq] at hn
  | queued live _ hh hd =>
    unfold AsyncState.take
    rw [access_live live.frees]
    cases taker with
    | reply => exact .held (live.move _ _ _) rfl _ rfl hself hd
    | zap =>
      simp only [if_pos (hcb rfl)]
      refine .held ?_ rfl _ rfl hself hd
      exact ⟨live.fault, live.frees, live.released, live.calls, live.path, live.armed, live.unset,
        live.fn, live.userData, live.mData⟩

/-- `giop_invoke_async` on a live entry that no other party has. -/
theorem Live.invokeAsync (h : Live call s) (hq : s.queued = false) (hh : s.held = none)
    (hd : s.deferred = 0) {self : Bool} (hself : self = true → s.phase = .returned)
    (link : LinkStatus) : Good call (s.invokeAsync self link) := by
  unfold AsyncState.invokeAsync
  rw [access_live h.frees]
  cases self with
  | true => exact h.asyncRecvCb (hself rfl) hh hd link
  | false => exact .deferred (h.move _ _ _) hq hh (by simp [hd])

theorem Live.returned (h : Live call s) (hi : s.handlesInput = true) (hm : s.phase ≠ .marshal) :
    s.phase = .returned := by
  have hpath := h.path
  unfold handlesInput at hi
  cases hp : s.phase <;> simp_all

/-- The taker finds `async_cb` and is not the thread of the call inside the write. -/
theorem Good.hand (h : Good call s) {w : AsyncHolder} (hw : s.held = some w)
    (hcb : s.aqe.asyncCb = true) (hm : w.self = true → s.phase ≠ .marshal) (link : LinkStatus) :
    Good call (s.hand w link) := by
  cases h with
  | queued _ _ hn | deferred _ _ hn | finished _ _ _ hn => simp [hw] at hn
  | held live hq w' hw' hself hd =>
    obtain rfl : w = w' := by simpa [hw] using hw'
    have hreturned : w.self = true → s.phase = .returned := fun hs =>
      live.returned (hself hs) (hm hs)
    unfold AsyncState.hand
    rw [access_live live.frees]
    cases w with
    | mk taker self =>
      cases taker with
      | zap =>
        simp only [reduceCtorEq, if_false, hcb, if_true]
        exact (live.move s.queued none s.deferred).invokeAsync hq rfl hd hreturned link
      | reply =>
        simp only [if_true, hcb]
        have hl : Live call { s with aqe := { s.aqe with buffer := true }, held := none } :=
          ⟨live.fault, live.frees, live.released, live.calls, live.path, live.armed, live.unset,
            live.fn, live.userData, live.mData⟩
        simpa only [hcb] using hl.invokeAsync hq rfl hd hreturned link

theorem Good.process (h : Good call s) (hd : 0 < s.deferred)
    (hp : s.phase = .returned ∨ s.phase = .raised) (link : LinkStatus) :
    Good call ({ s with deferred := s.deferred - 1 }.invokeAsync true link) := by
  cases h with
  | queued _ _ _ hn | held _ _ _ _ _ hn | finished _ _ _ _ hn => simp [hn] at hd
  | deferred live hq hh hone =>
    have hreturned : s.phase = .returned := by
      have hpath := live.path
      rcases hp with hp | hp
      · exact hp
      · simp [hp] at hpath
    refine (live.move s.queued s.held (s.deferred - 1)).invokeAsync hq hh ?_ (fun _ => hreturned) link
    simp [hone]

theorem Good.step (h : Good call s) (ho : call.oneway = false) {e : AsyncEvent}
    (hc : s.InOrder e) : Good call (s.step call e) := by
  unfold AsyncState.step
  rw [if_neg (by simp [h.fault])]
  cases e with
  | advance =>
    simp only
    split
    · exact h
    · rename_i hb
      exact h.advance ho (by simpa using hb)
  | written ok =>
    simp only
    split
    · rename_i hp
      have hb : s.busy = false := by simpa using hp.2
      rw [hc hp.1 hb]
      exact h.written ho hp.1 hb
    · exact h
  | take taker self =>
    simp only
    split
    · rename_i hq
      exact h.take hq.1 hq.2 (hc hq.1 hq.2)
    · exact h
  | hand link =>
    simp only
    split
    · exact h
    · rename_i w hw
      obtain ⟨hcb, hm⟩ := hc w hw
      exact h.hand hw hcb hm link
  | process link =>
    simp only
    split
    · rename_i hp
      exact h.process hp.1 hp.2.1 link
    · exact h

/-- A first event out of order. -/
theorem Good.outOfOrder (h : Good call s) {e : AsyncEvent} (hc : ¬ s.InOrder e) :
    Doomed call (s.step call e) := by
  unfold AsyncState.step
  rw [if_neg (by simp [h.fault])]
  cases e with
  | advance | process => exact absurd trivial hc
  | written ok =>
    simp only [InOrder, Classical.not_imp] at hc
    obtain ⟨hp, hb, hok⟩ := hc
    have hok : ok = false := by simpa using hok
    have hreleased : s.released = 0 := by
      cases h with
      | queued live | held live | deferred live => exact live.released
      | finished _ hr => simp [hp] at hr
    simp only [hp, hb, hok, AsyncState.written]
    refine .failing hreleased ?_ (.inl rfl)
    intro w hw hself
    have hw : s.held = some w := hw
    simp [busy, hw, hself] at hb
  | take taker self =>
    simp only [InOrder, Classical.not_imp] at hc
    obtain ⟨hq, hself, rfl, hcb⟩ := hc
    have hcb : s.aqe.asyncCb = false := by simpa using hcb
    simp only [hq, true_and, if_pos hself]
    cases h with
    | held _ hn | deferred _ hn | finished _ _ hn => simp [hq] at hn
    | queued live _ hh hd =>
      unfold AsyncState.take
      rw [access_live live.frees]
      exact .dropped live.released rfl (by simp [hcb]) hd
  | hand link =>
    simp only [InOrder, Classical.not_forall] at hc
    obtain ⟨w, hw, hc⟩ := hc
    have hw : s.held = some w := hw
    simp only [hw]
    cases h with
    | queued _ _ hn | deferred _ _ hn | finished _ _ _ hn => simp [hw] at hn
    | held live hq w' hw' _ hd =>
      unfold AsyncState.hand
      rw [access_live live.frees]
      by_cases hcb : s.aqe.asyncCb = true
      · -- the thread of the call runs the callback from inside the write
        obtain ⟨hself, hp⟩ : w.self = true ∧ s.phase = .marshal := by simpa [hcb] using hc
        have hfn : s.aqe.fn = none := live.unset (by simp [hp])
        refine .fault ?_
        cases w.taker <;>
          simp [hcb, hself, invokeAsync, asyncRecvCb, access, live.frees, hfn, fail]
      · have hdrop : s.aqe.asyncCb = false := by simpa using hcb
        rw [if_neg (by split <;> simp [hdrop])]
        exact .dropped live.released hq rfl hd

theorem Doomed.advance (h : Doomed call s) (hf : s.fault = none) :
    Doomed call (s.advance call) := by
  unfold AsyncState.advance
  cases h with
  | fault h => simp [hf] at h
  | oneway ho hr hcb hd =>
    split
    all_goals first
      | exact .oneway ho hr hcb hd
      | exact doomed_access fun _ => .oneway ho hr (by simp [ho, hcb]) hd
  | dropped hr hq hh hd =>
    split
    all_goals first
      | exact .dropped hr hq hh hd
      | exact doomed_access fun _ => .dropped hr (by simp [hq]) hh hd
  | failing hr hself hp =>
    rcases hp with hp | ⟨hp, hq⟩ | ⟨hp, hn, hq⟩
    · rw [hp]
      refine doomed_access fun _ => .failing hr ?_ (.inr (.inl ⟨rfl, rfl⟩))
      intro w hw hs
      simpa [hp] using hself w hw hs
    · rw [hp]
      exact doomed_access fun _ => .failing hr (fun _ _ _ => rfl) (.inr (.inr ⟨rfl, by simp, hq⟩))
    · rw [hp]
      exact .failing hr hself (.inr (.inr ⟨hp, hn, hq⟩))

theorem Doomed.take (h : Doomed call s) (hf : s.fault = none) {taker : AsyncTaker} {self : Bool}
    (hq : s.queued = true) (hi : self = true → s.handlesInput = true) :
    Doomed call (s.take taker self) := by
  unfold AsyncState.take
  refine doomed_access fun _ => ?_
  cases h with
  | fault h => simp [hf] at h
  | dropped _ hn => simp [hq] at hn
  | oneway ho hr hcb hd =>
    cases taker with
    | reply | zap => exact .oneway ho hr hcb hd
  | failing hr hself hp =>
    have hphase : s.phase = .marshalDestroy := by simpa [hq] using hp
    have hno : self = false := by simpa [handlesInput, hphase] using hi
    cases taker with
    | reply | zap => exact .failing hr (by simp [hno]) (.inl hphase)

theorem Doomed.hand (h : Doomed call s) (hf : s.fault = none) {w : AsyncHolder}
    (hw : s.held = some w) (link : LinkStatus) : Doomed call (s.hand w link) := by
  unfold AsyncState.hand
  refine doomed_access fun hn => ?_
  cases h with
  | fault h => simp [hf] at h
  | dropped _ _ hh => simp [hw] at hh
  | oneway ho hr hcb hd =>
    simp only
    rw [if_neg (by split <;> simp [hcb])]
    exact .oneway ho hr (by split <;> simp [hcb]) hd
  | failing hr hself hp =>
    have hno : w.self = false := by
      rw [Bool.eq_false_iff]
      intro hs
      simp [hself w hw hs, hn] at hp
    have hp : s.phase = .marshalDestroy ∨ (s.phase = .systemException ∧ s.queued = false) := by
      simpa [hn] using hp
    simp only
    generalize (if w.taker = .reply then { s.aqe with buffer := true } else s.aqe) = aqe
    split
    · rw [hno]
      unfold AsyncState.invokeAsync
      refine doomed_access fun _ => ?_
      exact .failing hr (by simp) (hp.imp_right .inl)
    · exact .failing hr (by simp) (hp.imp_right .inl)

theorem Doomed.process (h : Doomed call s) (hf : s.fault = none) (hd : 0 < s.deferred)
    (hp : s.phase = .returned ∨ s.phase = .raised) (link : LinkStatus) :
    Doomed call ({ s with deferred := s.deferred - 1 }.invokeAsync true link) := by
  cases h with
  | fault h => simp [hf] at h
  | oneway _ _ _ hn | dropped _ _ _ hn => simp [hn] at hd
  | failing _ _ hphase =>
    have hn : s.frees ≠ 0 := by rcases hp with hp | hp <;> simp_all
    unfold AsyncState.invokeAsync
    exact doomed_access fun hz => absurd hz hn

theorem Doomed.step (h : Doomed call s) (e : AsyncEvent) : Doomed call (s.step call e) := by
  unfold AsyncState.step
  split
  · exact h
  · rename_i hf
    have hf : s.fault = none := by simpa using hf
    cases e with
    | advance =>
      simp only
      split
      · exact h
      · exact h.advance hf
    | written ok =>
      simp only
      split
      · rename_i hp
        cases h with
        | fault h => simp [hf] at h
        | oneway ho hr hcb hd => exact .oneway ho hr hcb hd
        | dropped hr hq hh hd => exact .dropped hr hq hh hd
        | failing _ _ hphase => simp [hp.1] at hphase
      · exact h
    | take taker self =>
      simp only
      split
      · rename_i hq
        exact h.take hf hq.1 hq.2
      · exact h
    | hand link =>
      simp only
      split
      · exact h
      · rename_i w hw
        exact h.hand hf hw link
    | process link =>
      simp only
      split
      · rename_i hp
        exact h.process hf hp.1 hp.2.1 link
      · exact h

theorem Good.honoured (h : Good call s) : Honoured call s := by
  cases h with
  | finished fault hp hq hh hd hf hr hm =>
    constructor <;> simp [fault, hp, hf, hr, hm]
  | queued live _ _ _ | held live _ _ _ _ _ | deferred live _ _ _ =>
    have hopen : ¬ s.Complete := by simp_all [Complete, live.fault]
    constructor
    all_goals simp [hopen, live.fault, live.frees, live.released, live.calls, AsyncState.made]

theorem Doomed.dishonoured (h : Doomed call s) (hc : s.Complete) : ¬ Honoured call s := by
  intro hh
  have hr := hh.objectReleased hc
  cases h with
  | fault h => simp [hh.fault] at h
  | oneway _ hn | dropped hn | failing hn => simp [hn] at hr

/-- A two-way call whose events come in order is honoured throughout. A call that is at its
end was honoured throughout only if it is such a call. -/
theorem async_honoured (call : AsyncCall) (es : List AsyncEvent) :
    (call.oneway = false → Meets (step call) InOrder visible es →
      Always (step call) (Honoured call) visible es) ∧
    ((run (step call) visible es).Complete →
      (Always (step call) (Honoured call) visible es ↔
        call.oneway = false ∧ Meets (step call) InOrder visible es)) := by
  have hstart : Good call visible := .queued visible_live rfl rfl rfl
  have hgood (ho : call.oneway = false) (h : Meets (step call) InOrder visible es) :
      Always (step call) (Honoured call) visible es := by
    have hall : Always (step call) (Good call) visible es :=
      h.always (fun _ _ hs hc => Good.step hs ho hc) hstart
    exact hall.imp fun _ hs => hs.honoured
  refine ⟨hgood, fun hc => ⟨fun h => ?_, fun h => hgood h.1 h.2⟩⟩
  have hlast : Honoured call (run (step call) visible es) := h.last
  cases ho : call.oneway with
  | true =>
    have hdoomed : Doomed call visible := .oneway ho rfl rfl rfl
    have hd := run_invariant (P := Doomed call) (fun _ e hs => Doomed.step hs e) es hdoomed
    exact absurd hlast (hd.dishonoured hc)
  | false =>
    refine ⟨rfl, ?_⟩
    rcases meets_or_lost (Q := Doomed call) (fun _ _ hs hi => Good.step hs ho hi)
      (fun _ _ hs hi => hs.outOfOrder hi) (fun _ e hs => Doomed.step hs e) hstart with hm | hd
    · exact hm
    · exact absurd hlast (hd.dishonoured hc)

/-- The connection breaks, the I/O thread leaves the entry to the thread of the call, and the
write fails: the callback finds an entry that is freed. -/
theorem brokenWrite_dishonoured :
    let call : AsyncCall := ⟨false, some 1, 2, 3⟩
    let es : List AsyncEvent := [.advance, .take .zap false, .hand .disconnected, .written false,
      .advance, .advance, .process .disconnected]
    (run (step call) visible es).fault = some .useAfterFree ∧
      (run (step call) visible es).ev = .commFailure .no ∧
      ¬ Always (step call) (Honoured call) visible es := by
  intro call es
  have hfault : (run (step call) visible es).fault = some .useAfterFree := by decide
  refine ⟨hfault, by decide, fun h => ?_⟩
  have hlast := h.last.fault
  rw [hfault] at hlast
  cases hlast

/-- A reply that the I/O thread leaves to the thread of the call before `fn` is written. -/
example :
    let call : AsyncCall := ⟨false, some 1, 2, 3⟩
    let es : List AsyncEvent := [.advance, .take .reply false, .hand .connected, .written true,
      .advance, .advance, .advance, .advance, .process .connected]
    (run (step call) visible es).calls = [⟨1, some 3, some 2, .ok⟩] := by decide

end

end AsyncState
end ORBit2
