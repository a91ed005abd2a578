import ORBit2.ReplyQueue

/-! Calls of `ORBit_small_invoke_stub` on one connection, and a peer that answers them.
The request id of a call is an address on the stack, so it comes again. -/

set_option autoImplicit false

namespace ORBit2
open Runs

/-- Where a call is: in front of the write, behind it, or at its end. -/
inductive CallPhase where
  | marshalling | sent | done
  deriving DecidableEq, Repr

structure StubCall where
  /-- `GPOINTER_TO_UINT (&obj)` -/
  requestId : Nat
  /-- `ORBit_I_METHOD_1_WAY` -/
  oneway : Bool
  phase : CallPhase
  deriving DecidableEq, Repr

/-- The calls of a connection, the peer, and what is under way between them. -/
structure Dialogue where
  queue : ReplyQueue
  /-- the `n`-th call has set up the `n`-th entry -/
  calls : List StubCall
  /-- the calls that the peer has not answered -/
  requests : List Nat
  /-- answers under way: the call and the reply status -/
  replies : List (Nat × Nat)
  /-- the call that the `n`-th buffer given to `handle_reply` answers -/
  arrived : List Nat
  /-- what `giop_recv_buffer_get` returned: the call and the buffer -/
  taken : List (Nat × Nat)
  deriving DecidableEq, Repr

inductive StubEvent where
  /-- a call, or `goto retry_request`, up to `giop_recv_list_setup_queue_entry` -/
  | start (requestId : Nat) (oneway : Bool)
  /-- `orbit_small_marshal` returns TRUE -/
  | sent (k : Nat)
  /-- `giop_send_buffer_write` fails -/
  | sendFailed (k : Nat)
  /-- a oneway call returns -/
  | finish (k : Nat)
  /-- a two-way call finds a buffer in its entry -/
  | take (k : Nat)
  /-- a two-way call stops waiting: a time-out, or the connection is gone -/
  | abandon (k : Nat)
  /-- the peer answers a call -/
  | answer (k : Nat) (status : Nat)
  /-- an answer under way reaches `handle_reply` -/
  | arrive (i : Nat)
  /-- `LINK_DISCONNECTED` -/
  | disconnect
  deriving DecidableEq, Repr

namespace Dialogue

def empty : Dialogue := ⟨.empty, [], [], [], [], []⟩

/-- The connection of all these calls. -/
def cnx : Nat := 0

def callIn (d : Dialogue) (k : Nat) (phase : CallPhase) : Option StubCall :=
  d.calls[k]?.filter (·.phase = phase)

def setPhase (d : Dialogue) (k : Nat) (phase : CallPhase) : Dialogue :=
  { d with calls := d.calls.modify k fun call => { call with phase := phase } }

/-- `giop_recv_list_destroy_queue_entry`, the last thing a call does to its entry. -/
def done (d : Dialogue) (k : Nat) : Dialogue :=
  { d with queue := d.queue.destroy k }.setPhase k .done

/-- `ent->buffer` -/
def bufferOf (d : Dialogue) (k : Nat) : Option Nat := do
  let ent ← (d.queue.removed ++ d.queue.queued).find? (·.key = k)
  ent.buffer

/-- `handle_reply`, and what `giop_connection_handle_input` does when it returns TRUE. -/
def receive (d : Dialogue) (k : Nat) (call : StubCall) (status : Nat) : Dialogue :=
  let (queue, error) := d.queue.handleReply ⟨cnx, .reply, call.requestId, status⟩
  { d with
    queue := if error then queue.zap cnx else queue
    arrived := d.arrived ++ [k] }

/-- One event. One that cannot happen in this state changes nothing. The peer answers a
request at most once, under its id, and a oneway request with a system exception only. -/
def step (d : Dialogue) : StubEvent → Dialogue
  | .start requestId oneway =>
      { d with
        queue := d.queue.setup cnx .reply requestId
        calls := d.calls ++ [⟨requestId, oneway, .marshalling⟩] }
  | .sent k =>
      match d.callIn k .marshalling with
      | none => d
      | some _ => { d with requests := k :: d.requests }.setPhase k .sent
  | .sendFailed k =>
      match d.callIn k .marshalling with
      | none => d
      | some _ => d.done k
  | .finish k =>
      match d.callIn k .sent with
      | none => d
      | some call => if call.oneway then d.done k else d
  | .take k =>
      match d.callIn k .sent, d.bufferOf k with
      | some call, some buf =>
          if call.oneway then d else { d with taken := (k, buf) :: d.taken }.done k
      | _, _ => d
  | .abandon k =>
      match d.callIn k .sent with
      | none => d
      | some call => if call.oneway then d else d.done k
  | .answer k status =>
      match d.calls[k]? with
      | none => d
      | some call =>
          if k ∈ d.requests ∧ (call.oneway → status = systemException) then
            { d with requests := d.requests.erase k, replies := d.replies ++ [(k, status)] }
          else d
  | .arrive i =>
      match d.replies[i]? with
      | none => d
      | some (k, status) =>
          match d.calls[k]? with
          | none => d
          | some call => { d with replies := d.replies.eraseIdx i }.receive k call status
  | .disconnect => { d with queue := d.queue.zap cnx }

/-- Every call that took a buffer took the answer to this very call. -/
def Paired (d : Dialogue) : Prop := ∀ p ∈ d.taken, d.arrived[p.2]? = some p.1

def IsOneway (d : Dialogue) (k : Nat) : Prop := (d.calls[k]?.map (·.oneway)) = some true

instance (d : Dialogue) (k : Nat) : Decidable (d.IsOneway k) :=
  inferInstanceAs (Decidable (_ = _))

/-- Of the calls that still wait under the request id of an answer that arrives, the last
one is the call that is answered, or a oneway call. -/
def AnswersLatest (d : Dialogue) : StubEvent → Prop
  | .arrive i => ∀ p ∈ d.replies[i]?, ∀ call ∈ d.calls[p.1]?, ∀ ent ∈ d.queue.queued,
      ent.requestId = call.requestId →
      (∀ other ∈ d.queue.queued, other.requestId = call.requestId → other.key ≤ ent.key) →
      ent.key = p.1 ∨ d.IsOneway ent.key
  | _ => True

instance (d : Dialogue) (e : StubEvent) : Decidable (d.AnswersLatest e) := by
  cases e <;> unfold AnswersLatest <;> infer_instance

/-- What every event keeps. -/
structure Sound (d : Dialogue) : Prop where
  kept : d.queue.Kept
  calls : d.calls.length = d.queue.entries
  arrived : d.arrived.length = d.queue.buffers
  replies : ∀ ent ∈ d.queue.queued, ent.msgType = .reply
  stored : ∀ s ∈ d.queue.stored,
    d.arrived[s.buffer]? = some s.entry.key ∨ d.IsOneway s.entry.key
  paired : d.Paired

section
variable {d : Dialogue}

theorem empty_sound : empty.Sound := by
  refine ⟨ReplyQueue.empty_kept, rfl, rfl, ?_, ?_, ?_⟩
  all_goals simp [empty, ReplyQueue.empty, Paired]

@[simp] theorem isOneway_setPhase (d : Dialogue) (k j : Nat) (phase : CallPhase) :
    (d.setPhase k phase).IsOneway j ↔ d.IsOneway j := by
  unfold IsOneway setPhase
  rw [List.getElem?_modify]
  cases d.calls[j]? with
  | none => rfl
  | some call => by_cases hk : k = j <;> simp [hk]

theorem Sound.setPhase (h : d.Sound) (k : Nat) (phase : CallPhase) : (d.setPhase k phase).Sound := by
  refine ⟨h.kept, ?_, h.arrived, h.replies, ?_, h.paired⟩
  · exact (List.length_modify ..).trans h.calls
  · intro s hs
    rw [isOneway_setPhase]
    exact h.stored s hs

theorem Sound.done (h : d.Sound) (k : Nat) : (d.done k).Sound := by
  refine Sound.setPhase ?_ k .done
  refine ⟨ReplyQueue.destroy_kept h.kept k, h.calls, h.arrived, ?_, h.stored, h.paired⟩
  intro ent he
  exact h.replies ent (List.eraseP_sublist.subset he)

theorem Sound.zap (h : d.Sound) : Sound { d with queue := d.queue.zap cnx } := by
  refine ⟨ReplyQueue.zap_kept h.kept cnx, h.calls, h.arrived, ?_, h.stored, h.paired⟩
  intro ent he
  exact h.replies ent (List.mem_of_mem_filter he)

theorem callIn_some {k : Nat} {phase : CallPhase} {call : StubCall}
    (h : d.callIn k phase = some call) : d.calls[k]? = some call := by
  unfold callIn at h
  exact (Option.filter_eq_some_iff.mp h).1

/-- A buffer found in the entry of a two-way call answers this call. -/
theorem Sound.bufferOf (h : d.Sound) {k buf : Nat} {call : StubCall} (hc : d.calls[k]? = some call)
    (ho : call.oneway = false) (hb : d.bufferOf k = some buf) : d.arrived[buf]? = some k := by
  unfold Dialogue.bufferOf at hb
  obtain ⟨ent, hf, hbuf⟩ := Option.bind_eq_some_iff.mp hb
  have hkey : ent.key = k := by simpa using List.find?_some hf
  rcases List.mem_append.mp (List.mem_of_find?_eq_some hf) with hm | hm
  · obtain ⟨s, hs, hk, rfl⟩ := h.kept.filled ent hm buf hbuf
    rw [hkey] at hk
    rcases h.stored s hs with ha | ha
    · rw [ha, hk]
    · simp [IsOneway, hk, hc, ho] at ha
  · rw [h.kept.idle ent hm] at hbuf
    cases hbuf

/-- A buffer more has arrived, an answer to call `k`, and at most one entry was filled. -/
theorem Sound.arrive (h : d.Sound) {k : Nat} {queue : ReplyQueue} (hk : queue.Kept)
    (hentries : queue.entries = d.queue.entries) (hbuffers : queue.buffers = d.queue.buffers + 1)
    (hqueued : ∀ ent ∈ queue.queued, ent ∈ d.queue.queued)
    (hstored : ∀ s ∈ queue.stored, s ∈ d.queue.stored ∨
      (s.buffer = d.queue.buffers ∧ (s.entry.key = k ∨ d.IsOneway s.entry.key))) :
    Sound { d with queue := queue, arrived := d.arrived ++ [k] } := by
  have hold : ∀ {buf j : Nat}, d.arrived[buf]? = some j → (d.arrived ++ [k])[buf]? = some j := by
    intro buf j ha
    rw [List.getElem?_append_left (List.getElem?_eq_some_iff.mp ha).1, ha]
  refine ⟨hk, h.calls.trans hentries.symm, ?_, fun ent he => h.replies ent (hqueued ent he), ?_,
    fun p hp => hold (h.paired p hp)⟩
  · simp [h.arrived, hbuffers]
  · intro s hs
    rcases hstored s hs with hs | ⟨hbuf, hown⟩
    · exact (h.stored s hs).imp_left hold
    · refine hown.imp_left fun he => ?_
      rw [hbuf, ← h.arrived, he]
      simp

/-- `handle_reply` on an answer to call `k`, if the last call that waits under its id is
this one or a oneway one. -/
theorem Sound.receive (h : d.Sound) {k status : Nat} {call : StubCall}
    (hlatest : ∀ ent ∈ d.queue.queued, ent.requestId = call.requestId →
      (∀ other ∈ d.queue.queued, other.requestId = call.requestId → other.key ≤ ent.key) →
      ent.key = k ∨ d.IsOneway ent.key) : (d.receive k call status).Sound := by
  have hkept := ReplyQueue.handleReply_kept h.kept ⟨cnx, .reply, call.requestId, status⟩
  have hcase := ReplyQueue.handleReply_cases d.queue ⟨cnx, .reply, call.requestId, status⟩
  unfold Dialogue.receive
  generalize d.queue.handleReply ⟨cnx, .reply, call.requestId, status⟩ = p at hkept hcase ⊢
  have hsound : Sound { d with queue := p.1, arrived := d.arrived ++ [k] } := by
    cases hcase with
    | unexpected | bogus =>
      exact h.arrive hkept rfl rfl (fun _ he => he) fun _ hs => .inl hs
    | @stored ent hf hfor =>
      have hent := List.mem_of_find?_eq_some hf
      have hown := hlatest ent hent hfor.2.1 fun other ho hid => by
        refine h.kept.latest hf ho ?_
        simp [QueueEntry.answers, hid, h.replies other ho]
      refine h.arrive hkept rfl rfl (fun _ he => List.eraseP_sublist.subset he) fun s hs => ?_
      rcases List.mem_cons.mp hs with rfl | hs
      · exact .inr ⟨rfl, hown⟩
      · exact .inl hs
  obtain ⟨queue, error⟩ := p
  cases error with
  | false => exact hsound
  | true => exact hsound.zap

theorem step_sound (h : d.Sound) {e : StubEvent} (hc : d.AnswersLatest e) : (d.step e).Sound := by
  cases e with
  | start requestId oneway =>
    refine ⟨ReplyQueue.setup_kept h.kept cnx .reply requestId, ?_, h.arrived, ?_, ?_, h.paired⟩
    · simp [step, ReplyQueue.setup, h.calls]
    · simp only [step, ReplyQueue.setup, List.forall_mem_cons]
      exact ⟨trivial, h.replies⟩
    · intro s hs
      refine (h.stored s hs).imp_right fun ho => ?_
      unfold IsOneway at ho ⊢
      obtain ⟨call, hcall, -⟩ := Option.map_eq_some_iff.mp ho
      have hlt : s.entry.key < d.calls.length := (List.getElem?_eq_some_iff.mp hcall).1
      simp only [step]
      rw [List.getElem?_append_left hlt, ho]
  | sent k =>
    simp only [step]
    split
    · exact h
    · have hd : Sound { d with requests := k :: d.requests } :=
        ⟨h.kept, h.calls, h.arrived, h.replies, h.stored, h.paired⟩
      exact hd.setPhase k .sent
  | sendFailed k =>
    simp only [step]
    split
    · exact h
    · exact h.done k
  | finish k =>
    simp only [step]
    split
    · exact h
    · split
      · exact h.done k
      · exact h
  | take k =>
    simp only [step]
    split
    · rename_i call buf hcall hbuf
      split
      · exact h
      · rename_i ho
        have hans := h.bufferOf (callIn_some hcall) (by simpa using ho) hbuf
        have hd : Sound { d with taken := (k, buf) :: d.taken } := by
          refine ⟨h.kept, h.calls, h.arrived, h.replies, h.stored, fun p hp => ?_⟩
          rcases List.mem_cons.mp hp with rfl | hp
          · exact hans
          · exact h.paired p hp
        exact hd.done k
    · exact h
  | abandon k =>
    simp only [step]
    split
    · exact h
    · split
      · exact h
      · exact h.done k
  | answer k status =>
    simp only [step]
    split
    · exact h
    · split
      · exact ⟨h.kept, h.calls, h.arrived, h.replies, h.stored, h.paired⟩
      · exact h
  | arrive i =>
    simp only [step]
    split
    · exact h
    · rename_i k status hreply
      split
      · exact h
      · rename_i call hcall
        have hd : Sound { d with replies := d.replies.eraseIdx i } :=
          ⟨h.kept, h.calls, h.arrived, h.replies, h.stored, h.paired⟩
        exact hd.receive (hc (k, status) hreply call hcall)
  | disconnect => exact h.zap

end

end Dialogue
end ORBit2
