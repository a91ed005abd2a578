import ORBit2.Base.Runs
import ORBit2.LinkConnection

/-! `write_queue_bytes` and the bytes that are in `write_queue`. -/

set_option autoImplicit false

namespace ORBit2.Link

/-- The number of bytes in the queue, as a `gulong`. -/
def Connection.unsent (c : Connection) : UInt64 := .ofNat c.writeQueue.flatten.length

/-- `write_queue_bytes` is the number of bytes that are still unsent. -/
def Accounted (s : State) : Prop := s.conn.writeQueueBytes = s.conn.unsent

/-- What a piece of code must not do to the queue: free it while there are unsent bytes, or have
the kernel take a part of an entry before it takes no more. -/
def Connection.balanced (c : Connection) (input : Input) : Segment → Prop
  | .checkMaxBuffer => c.exceeds → c.unsent = 0
  | .flushWriteQueue =>
      match c.writeQueue with
      | [] => True
      | qw :: _ =>
          let o := writeData c.status c.nonblocking [qw] input.results
          match o.status with
          | .ok _ => True
          | .fatalError => c.unsent = 0
          | .queuedData => UInt64.ofNat o.sent.length = 0
  | .connectResult condition =>
      (c.status = .connecting ∧ (condition.errConds ∨ condition.out) ∧
          ¬ (input.connectOk ∧ condition = .outOnly) ∨
        c.status = .connected ∧ condition.errConds) → c.unsent = 0
  | .disconnect _ => c.unsent = 0
  | _ => True

/-- The same of an event. -/
def Balanced (s : State) : Event → Prop
  | .run input =>
      match s.running with
      | some ⟨_, segment :: _⟩ => s.conn.balanced input segment
      | _ => True
  | _ => True

@[simp] theorem stateChanged_bytes (c : Connection) (status : Status) :
    (c.stateChanged status).writeQueueBytes = c.writeQueueBytes := by
  cases status <;> rfl

theorem stateChanged_unsent (c : Connection) (status : Status) :
    (c.stateChanged status).unsent =
      if status = .disconnected ∨ status = .timeout then 0 else c.unsent := by
  cases status <;> rfl

theorem unsent_append (c : Connection) (qw : List UInt8) :
    UInt64.ofNat (c.writeQueue ++ [qw]).flatten.length = c.unsent + .ofNat qw.length := by
  rw [Connection.unsent, ← UInt64.ofNat_add, List.flatten_append, List.length_append,
    List.flatten_singleton]

/-- Freeing the queue is right for the counter when there was nothing in it. -/
theorem freed_iff {c : Connection} (h : c.writeQueueBytes = c.unsent) {status : Status}
    (hs : status = .disconnected ∨ status = .timeout) :
    (c.stateChanged status).writeQueueBytes = (c.stateChanged status).unsent ↔ c.unsent = 0 := by
  rw [stateChanged_bytes, stateChanged_unsent, if_pos hs, h]

theorem kept_iff {c : Connection} (h : c.writeQueueBytes = c.unsent) {status : Status}
    (hs : ¬ (status = .disconnected ∨ status = .timeout)) :
    (c.stateChanged status).writeQueueBytes = (c.stateChanged status).unsent := by
  rw [stateChanged_bytes, stateChanged_unsent, if_neg hs, h]

theorem accounted_flush (c : Connection) (inIOThread : Bool) (input : Input)
    (h : c.writeQueueBytes = c.unsent) :
    (exec c inIOThread input .flushWriteQueue).conn.writeQueueBytes =
        (exec c inIOThread input .flushWriteQueue).conn.unsent ↔
      c.balanced input .flushWriteQueue := by
  cases hq : c.writeQueue with
  | nil =>
    simp only [exec, Connection.balanced, hq]
    exact iff_of_true h trivial
  | cons qw queue =>
    have htotal : c.unsent = .ofNat qw.length + .ofNat queue.flatten.length := by
      rw [Connection.unsent, hq, ← UInt64.ofNat_add, List.flatten_cons, List.length_append]
    have hbytes := writeData_flatten c.status c.nonblocking [qw] input.results
    simp only [exec, Connection.balanced, hq]
    cases ho : (writeData c.status c.nonblocking [qw] input.results).status with
    | ok n =>
      obtain ⟨-, rfl⟩ := writeData_single _ _ _ _ _ ho
      refine iff_of_true ?_ trivial
      change c.writeQueueBytes + -UInt64.ofNat qw.length = .ofNat queue.flatten.length
      rw [h, htotal]
      grind
    | fatalError => exact freed_iff h (.inl rfl)
    | queuedData =>
      generalize writeData c.status c.nonblocking [qw] input.results = o at hbytes
      have hqw : UInt64.ofNat qw.length = .ofNat o.sent.length + .ofNat o.rest.flatten.length := by
        rw [← UInt64.ofNat_add, ← List.length_append, hbytes, List.flatten_singleton]
      change c.writeQueueBytes = .ofNat (o.rest.flatten :: queue).flatten.length ↔ _
      rw [h, htotal, hqw, List.flatten_cons, List.length_append, UInt64.ofNat_add]
      constructor
      · intro he
        grind
      · intro he
        grind

/-- A counter that was right is right again exactly when the piece of code was balanced. -/
theorem accounted_exec (c : Connection) (inIOThread : Bool) (input : Input) (segment : Segment)
    (h : c.writeQueueBytes = c.unsent) :
    (exec c inIOThread input segment).conn.writeQueueBytes =
        (exec c inIOThread input segment).conn.unsent ↔ c.balanced input segment := by
  have hquiet : segment.quiet = true →
      (exec c inIOThread input segment).conn.writeQueueBytes =
        (exec c inIOThread input segment).conn.unsent := by
    intro hq
    rcases exec_quiet c inIOThread input segment hq with he | he
    · rw [he]
      exact h
    · rw [he]
      exact h
  cases segment with
  | queueFlattened vecs updatePoll =>
    refine iff_of_true ?_ trivial
    change c.writeQueueBytes + .ofNat vecs.flatten.length =
      .ofNat (c.writeQueue ++ [vecs.flatten]).flatten.length
    rw [unsent_append, h]
  | checkMaxBuffer =>
    simp only [exec, Connection.balanced]
    by_cases he : c.exceeds
    · simp only [he, if_true, true_implies]
      exact freed_iff h (.inl rfl)
    · rw [if_neg he]
      exact iff_of_true h fun hx => absurd hx he
  | flushWriteQueue => exact accounted_flush c inIOThread input h
  | doneWrites => exact iff_of_true h trivial
  | doneFatal => exact iff_of_true h trivial
  | connectResult condition =>
    simp only [exec, Connection.balanced]
    by_cases hcond : condition.errConds ∨ condition.out
    · rw [if_pos hcond]
      cases hs : c.status with
      | connecting =>
        by_cases hok : input.connectOk ∧ condition = .outOnly
        · simp only [if_pos hok]
          refine iff_of_true ?_ (by simp [hok])
          exact kept_iff (c := c.setCondition .read) h (by simp)
        · simp only [if_neg hok]
          rw [freed_iff h (.inl rfl)]
          simp [hcond, hok]
      | connected =>
        by_cases herr : condition.errConds
        · simp only [if_pos herr]
          rw [freed_iff h (.inl rfl)]
          simp [herr]
        · simp only [if_neg herr]
          exact iff_of_true h (by simp [herr])
      | disconnected => exact iff_of_true h (by simp)
      | timeout => exact iff_of_true h (by simp)
    · rw [if_neg hcond]
      have herr : ¬ condition.errConds := fun he => hcond (.inl he)
      have hout : ¬ condition.out := fun ho => hcond (.inr ho)
      exact iff_of_true h (by simp [hout, herr])
  | disconnect timedOut => exact freed_iff h (by cases timedOut <;> simp)
  | tryReconnect =>
    refine iff_of_true ?_ trivial
    simp only [exec]
    split
    · exact kept_iff h (by split <;> simp)
    · exact kept_iff h (by split <;> simp)
    · exact h
  | setMaxBuffer maxBufferBytes => exact iff_of_true h trivial
  | _ => exact iff_of_true (hquiet rfl) trivial

/-- One event: the counter stays right exactly when the event is balanced. -/
theorem accounted_step (s : State) (e : Event) (h : Accounted s) :
    Accounted (step s e) ↔ Balanced s e := by
  cases e with
  | call inIOThread c =>
    simp only [step]
    split
    all_goals exact iff_of_true h trivial
  | run input =>
    cases hrun : s.running with
    | none => simp only [step, Balanced, hrun, h]
    | some t =>
      obtain ⟨inIOThread, todo⟩ := t
      cases todo with
      | nil => simp only [step, Balanced, hrun, h]
      | cons segment todo =>
        simp only [Accounted, Balanced, step, hrun]
        exact accounted_exec s.conn inIOThread input segment h
  | resume i =>
    simp only [step]
    repeat' split
    all_goals exact iff_of_true h trivial
  | dispatch =>
    simp only [step]
    repeat' split
    all_goals exact iff_of_true h trivial

/-- The size that BLOCKING reports when `e` happens. -/
def emitted (s : State) : Event → Option UInt64
  | .run input =>
      match s.running with
      | some ⟨inIOThread, segment :: _⟩ =>
          match (exec s.conn inIOThread input segment).lock with
          | .emits size => some size
          | _ => none
      | _ => none
  | _ => none

/-- Whether `e` drops the connection for exceeding `max_buffer_bytes`. -/
def dropsForSize (s : State) : Event → Bool
  | .run _ =>
      match s.running with
      | some ⟨_, .checkMaxBuffer :: _⟩ => s.conn.exceeds
      | _ => false
  | _ => false

/-- BLOCKING reports the bytes that are queued, and the connection is dropped only when
`max_buffer_bytes` really are. -/
def Truthful (s : State) (e : Event) : Prop :=
  (∀ size, emitted s e = some size → size = (step s e).conn.unsent) ∧
    (dropsForSize s e = true →
      s.conn.maxBufferBytes.toNat ≤ s.conn.writeQueue.flatten.length)

theorem queueSignal_emits {c : Connection} {delta size : UInt64}
    (h : (queueSignal c delta).2 = .emits size) :
    size = (queueSignal c delta).1.writeQueueBytes := by
  simp only [queueSignal] at h ⊢
  split at h
  · exact (LockUse.emits.inj h).symm
  · cases h

/-- The size reported is the counter's new value. -/
theorem exec_emits (c : Connection) (inIOThread : Bool) (input : Input) (segment : Segment)
    (size : UInt64) (h : (exec c inIOThread input segment).lock = .emits size) :
    size = (exec c inIOThread input segment).conn.writeQueueBytes := by
  cases segment with
  | queueFlattened vecs updatePoll => exact queueSignal_emits h
  | flushWriteQueue =>
    cases hq : c.writeQueue with
    | nil => simp [exec, hq] at h
    | cons qw queue =>
      simp only [exec, hq] at h ⊢
      cases ho : (writeData c.status c.nonblocking [qw] input.results).status with
      | ok n =>
        simp only [ho] at h ⊢
        exact queueSignal_emits h
      | fatalError => simp [ho] at h
      | queuedData => simp [ho] at h
  | _ =>
    exfalso
    simp only [exec] at h
    repeat' split at h
    all_goals cases h

theorem emitted_counter (s : State) (e : Event) (size : UInt64) (h : emitted s e = some size) :
    size = (step s e).conn.writeQueueBytes := by
  cases e with
  | run input =>
    cases hrun : s.running with
    | none => simp [emitted, hrun] at h
    | some t =>
      obtain ⟨inIOThread, todo⟩ := t
      cases todo with
      | nil => simp [emitted, hrun] at h
      | cons segment todo =>
        simp only [emitted, hrun] at h
        split at h
        · rename_i n hlock
          cases h
          simp only [step, hrun]
          exact exec_emits _ _ _ _ _ hlock
        · cases h
  | call inIOThread c => cases h
  | resume i => cases h
  | dispatch => cases h

theorem exceeds_queued {c : Connection} (h : c.writeQueueBytes = c.unsent) (he : c.exceeds) :
    c.maxBufferBytes.toNat ≤ c.writeQueue.flatten.length := by
  simp only [Connection.exceeds, Bool.and_eq_true, decide_eq_true_eq] at he
  have hle := UInt64.le_iff_toNat_le.mp he.2
  rw [h, Connection.unsent, UInt64.toNat_ofNat'] at hle
  exact Nat.le_trans hle (Nat.mod_le _ _)

theorem truthful_of (s : State) (e : Event) (h : Accounted s) (hb : Balanced s e) :
    Truthful s e := by
  constructor
  · intro size he
    rw [emitted_counter s e size he]
    exact (accounted_step s e h).mpr hb
  · intro hd
    cases e with
    | run input =>
      simp only [dropsForSize] at hd
      split at hd
      · exact exceeds_queued h hd
      · cases hd
    | call inIOThread c => cases hd
    | resume i => cases hd
    | dispatch => cases hd

theorem accounted_initial (threadSafe nonblocking blockSignal : Bool) (maxBufferBytes : UInt64)
    (done : Bool) :
    Accounted (initial threadSafe nonblocking blockSignal maxBufferBytes done) := by
  cases done <;> cases nonblocking <;> rfl

/-- In every run, the counter is always the number of unsent bytes exactly when every event of
the run is balanced, and then BLOCKING and the limit go by what is really queued. -/
theorem queue_accounting (threadSafe nonblocking blockSignal : Bool) (maxBufferBytes : UInt64)
    (done : Bool) (es : List Event) :
    Runs.Always step Accounted (initial threadSafe nonblocking blockSignal maxBufferBytes done) es ∧
        Runs.Meets step Truthful
          (initial threadSafe nonblocking blockSignal maxBufferBytes done) es ↔
      Runs.Meets step Balanced
        (initial threadSafe nonblocking blockSignal maxBufferBytes done) es := by
  have hinit := accounted_initial threadSafe nonblocking blockSignal maxBufferBytes done
  have hiff := @Runs.always_iff_meets _ _ step Accounted Balanced accounted_step _ es hinit
  constructor
  · intro h
    exact hiff.mp h.1
  · intro hb
    refine ⟨hiff.mpr hb, hb.imp ?_ truthful_of hinit⟩
    exact fun s e h hc => (accounted_step s e h).mpr hc

/-- Three bytes are queued; a flush writes one of them, and the next flush the other two. -/
def flushedInParts : List Event :=
  let take (results : List WriteResult) : Event := .run ⟨results, true, none⟩
  [.call true (.writev [[1, 2, 3]] false), take [], take [], take [.eagain], take [], take [],
    take [], .call true (.ioHandler .outOnly), take [], take [], take [.wrote 1, .eagain], take [],
    .call true (.ioHandler .outOnly), take [], take [], take [.wrote 2], take [], take [], take []]

/-- The queue is empty and one byte is still counted. -/
theorem not_accounted :
    ¬ ∀ (threadSafe nonblocking blockSignal : Bool) (maxBufferBytes : UInt64) (done : Bool)
      (es : List Event),
      Runs.Always step Accounted
          (initial threadSafe nonblocking blockSignal maxBufferBytes done) es ∧
        Runs.Meets step Truthful
          (initial threadSafe nonblocking blockSignal maxBufferBytes done) es := by
  intro h
  have hlast := (h true true false 0 true flushedInParts).1.last
  have hrun : (Runs.run step (initial true true false 0 true) flushedInParts).conn.writeQueue = [] ∧
      (Runs.run step (initial true true false 0 true) flushedInParts).conn.writeQueueBytes = 1 ∧
      (Runs.run step (initial true true false 0 true) flushedInParts).conn.status = .connected := by
    decide
  rw [Accounted, hrun.2.1, Connection.unsent, hrun.1] at hlast
  exact absurd hlast (by decide)

end ORBit2.Link
