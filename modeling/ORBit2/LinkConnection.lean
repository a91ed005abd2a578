import Mathlib

/-! The connections of linc (linc-connection.c): what `write_data_T` hands to the kernel, and the
queue of what it did not take. -/

set_option autoImplicit false

namespace ORBit2.Link

/-- `LinkConnectionStatus`. -/
inductive Status where
  | connecting
  | connected
  | disconnected
  | timeout
  deriving DecidableEq, Repr

/-- What `writev` returns; EINTR is one of the errors. -/
inductive WriteResult where
  | wrote (n : Nat)
  | eintr
  | eagain
  | failed
  deriving DecidableEq, Repr

/-- `LinkIOStatus`, and the number of bytes written. -/
inductive IOStatus where
  | ok (bytesWritten : Nat)
  | fatalError
  | queuedData
  deriving DecidableEq, Repr

/-- What `write_data_T` returns, the bytes the kernel has taken, and what is left of the vectors. -/
structure WriteOutcome where
  status : IOStatus
  sent : List UInt8
  rest : List (List UInt8)
  deriving DecidableEq, Repr

/-- The vectors behind the bytes that have been written. -/
@[grind =] def advance : Nat → List (List UInt8) → List (List UInt8)
  | _, [] => []
  | n, vec :: vecs => if vec.length ≤ n then advance (n - vec.length) vecs else vec.drop n :: vecs

/-- `(qw->nvecs > 0) && (qw->vecs->iov_len > 0)`. -/
def goesOn : List (List UInt8) → Bool
  | [] => false
  | vec :: _ => !vec.isEmpty

/-- The loop of `write_data_T`. When there are no more results, a non-blocking socket has no room
and a blocking one takes the rest. -/
@[grind =] def writeLoop (nonblocking : Bool) (vecs : List (List UInt8)) (sent : List UInt8) :
    List WriteResult → WriteOutcome
  | [] =>
      if goesOn vecs then
        if nonblocking then ⟨.queuedData, sent, vecs⟩
        else ⟨.ok (sent ++ vecs.flatten).length, sent ++ vecs.flatten, []⟩
      else ⟨.ok sent.length, sent, vecs⟩
  | result :: results =>
      if goesOn vecs then
        match result with
        | .eintr => writeLoop nonblocking vecs sent results
        | .eagain => ⟨if nonblocking then .queuedData else .fatalError, sent, vecs⟩
        | .failed => ⟨.fatalError, sent, vecs⟩
        | .wrote n =>
            let n := min n vecs.flatten.length
            if n = 0 then ⟨.fatalError, sent, vecs⟩
            else writeLoop nonblocking (advance n vecs) (sent ++ vecs.flatten.take n) results
      else ⟨.ok sent.length, sent, vecs⟩

/-- `write_data_T`. -/
def writeData (status : Status) (nonblocking : Bool) (vecs : List (List UInt8))
    (results : List WriteResult) : WriteOutcome :=
  if status ≠ .connected then ⟨.fatalError, [], vecs⟩ else writeLoop nonblocking vecs [] results

theorem flatten_advance (n : Nat) (vecs : List (List UInt8)) :
    (advance n vecs).flatten = vecs.flatten.drop n := by
  induction vecs generalizing n with
  | nil => rw [advance, List.flatten_nil, List.drop_nil]
  | cons vec vecs ih =>
    rw [advance]
    by_cases h : vec.length ≤ n
    · rw [if_pos h, ih, List.flatten_cons, List.drop_append, List.drop_eq_nil_of_le h,
        List.nil_append]
    · rw [if_neg h, List.flatten_cons, List.flatten_cons, List.drop_append_of_le_length (by omega)]

/-- No byte is lost between what the kernel took and what is left. -/
theorem writeLoop_flatten (nonblocking : Bool) (vecs : List (List UInt8)) (sent : List UInt8)
    (results : List WriteResult) :
    (writeLoop nonblocking vecs sent results).sent ++
      (writeLoop nonblocking vecs sent results).rest.flatten = sent ++ vecs.flatten := by
  induction results generalizing vecs sent with
  | nil =>
    unfold writeLoop
    repeat' split
    · rfl
    · exact List.append_nil _
    · rfl
  | cons result results ih =>
    unfold writeLoop
    split
    · cases result with
      | eintr => exact ih vecs sent
      | eagain => rfl
      | failed => rfl
      | wrote n =>
        dsimp only
        split
        · rfl
        · rw [ih, flatten_advance, List.append_assoc, List.take_append_drop]
    · rfl

theorem writeData_flatten (status : Status) (nonblocking : Bool) (vecs : List (List UInt8))
    (results : List WriteResult) :
    (writeData status nonblocking vecs results).sent ++
      (writeData status nonblocking vecs results).rest.flatten = vecs.flatten := by
  unfold writeData
  split
  · rfl
  · exact writeLoop_flatten nonblocking vecs [] results

/-- A successful call reports the bytes it has written, and stops at an empty vector. -/
theorem writeLoop_ok (nonblocking : Bool) (vecs : List (List UInt8)) (sent : List UInt8)
    (results : List WriteResult) (n : Nat)
    (h : (writeLoop nonblocking vecs sent results).status = .ok n) :
    n = (writeLoop nonblocking vecs sent results).sent.length ∧
      goesOn (writeLoop nonblocking vecs sent results).rest = false := by
  induction results generalizing vecs sent with
  | nil =>
    unfold writeLoop at h ⊢
    by_cases hgo : goesOn vecs
    · cases nonblocking with
      | true => simp [hgo] at h
      | false =>
        simp only [hgo, Bool.false_eq_true, if_true, if_false, IOStatus.ok.injEq] at h ⊢
        exact ⟨h.symm, rfl⟩
    · simp only [hgo, Bool.false_eq_true, if_false, IOStatus.ok.injEq] at h ⊢
      exact ⟨h.symm, trivial⟩
  | cons result results ih =>
    unfold writeLoop at h ⊢
    by_cases hgo : goesOn vecs
    · simp only [hgo, if_true] at h ⊢
      cases result with
      | eintr => exact ih vecs sent h
      | eagain => cases nonblocking <;> simp at h
      | failed => simp at h
      | wrote m =>
        dsimp only at h ⊢
        by_cases hm : min m vecs.flatten.length = 0
        · rw [if_pos hm] at h
          cases h
        · rw [if_neg hm] at h ⊢
          exact ih _ _ h
    · simp only [hgo, Bool.false_eq_true, if_false, IOStatus.ok.injEq] at h ⊢
      exact ⟨h.symm, trivial⟩

theorem length_advance_le (n : Nat) (vecs : List (List UInt8)) :
    (advance n vecs).length ≤ vecs.length := by
  induction vecs generalizing n with
  | nil => exact Nat.le_refl 0
  | cons vec vecs ih =>
    rw [advance]
    split
    · exact Nat.le_succ_of_le (ih _)
    · exact Nat.le_refl _

theorem writeLoop_length_le (nonblocking : Bool) (vecs : List (List UInt8)) (sent : List UInt8)
    (results : List WriteResult) :
    (writeLoop nonblocking vecs sent results).rest.length ≤ vecs.length := by
  induction results generalizing vecs sent with
  | nil =>
    unfold writeLoop
    repeat' split
    · exact Nat.le_refl _
    · exact Nat.zero_le _
    · exact Nat.le_refl _
  | cons result results ih =>
    unfold writeLoop
    split
    · cases result with
      | eintr => exact ih vecs sent
      | eagain => exact Nat.le_refl _
      | failed => exact Nat.le_refl _
      | wrote n =>
        dsimp only
        split
        · exact Nat.le_refl _
        · exact Nat.le_trans (ih _ _) (length_advance_le _ _)
    · exact Nat.le_refl _

/-- A queued write that is done has been written to its end. -/
theorem writeData_single (status : Status) (nonblocking : Bool) (qw : List UInt8)
    (results : List WriteResult) (n : Nat)
    (h : (writeData status nonblocking [qw] results).status = .ok n) :
    (writeData status nonblocking [qw] results).sent = qw ∧ n = qw.length := by
  have hbytes := writeData_flatten status nonblocking [qw] results
  unfold writeData at h hbytes ⊢
  by_cases hs : status ≠ .connected
  · rw [if_pos hs] at h
    cases h
  · rw [if_neg hs] at h hbytes ⊢
    obtain ⟨hn, hstop⟩ := writeLoop_ok _ _ _ _ _ h
    have hlen := writeLoop_length_le nonblocking [qw] [] results
    have hrest : (writeLoop nonblocking [qw] [] results).rest.flatten = [] := by
      cases hr : (writeLoop nonblocking [qw] [] results).rest with
      | nil => rfl
      | cons vec vecs =>
        rw [hr] at hstop hlen
        have hvecs : vecs = [] := by
          simp only [List.length_cons, List.length_nil] at hlen
          exact List.eq_nil_of_length_eq_zero (by omega)
        have hvec : vec = [] := by simpa [goesOn] using hstop
        rw [hvec, hvecs]
        rfl
    rw [hrest, List.append_nil] at hbytes
    have hsent : (writeLoop nonblocking [qw] [] results).sent = qw := by simpa using hbytes
    exact ⟨hsent, hsent ▸ hn⟩

/-- A `GIOCondition`, by what the handler tests: `LINK_IN_CONDS`, `LINK_ERR_CONDS`, `G_IO_OUT`. -/
structure IOCondition where
  inConds : Bool
  errConds : Bool
  out : Bool
  deriving DecidableEq, Repr

namespace IOCondition

/-- `LINK_ERR_CONDS | LINK_IN_CONDS`. -/
def read : IOCondition := ⟨true, true, false⟩

/-- `LINK_ERR_CONDS | LINK_IN_CONDS | G_IO_OUT`. -/
def readWrite : IOCondition := ⟨true, true, true⟩

/-- `G_IO_OUT | LINK_ERR_CONDS`. -/
def connect : IOCondition := ⟨false, true, true⟩

/-- `G_IO_OUT` alone. -/
def outOnly : IOCondition := ⟨false, false, true⟩

end IOCondition

/-- A `LinkConnection` and its private part. `tag` is the condition of the watch, `none` when there
is no watch; `threadSafe` is `link_thread_safe ()`. -/
structure Connection where
  status : Status
  threadSafe : Bool
  nonblocking : Bool
  blockSignal : Bool
  maxBufferBytes : UInt64
  writeQueue : List (List UInt8)
  writeQueueBytes : UInt64
  tag : Option IOCondition
  deriving DecidableEq, Repr

namespace Connection

/-- `link_watch_set_condition` on the watch of the connection. -/
def setCondition (c : Connection) (condition : IOCondition) : Connection :=
  { c with tag := c.tag.map fun _ => condition }

/-- `link_connection_state_changed_T_R`, up to where it first drops the lock. -/
def stateChanged (c : Connection) (status : Status) : Connection :=
  match status with
  | .connected => { c with status := status, tag := some (c.tag.getD .read) }
  | .connecting => { c with status := status, tag := some .connect }
  | .disconnected | .timeout => { c with status := status, tag := none, writeQueue := [] }

/-- Whether `queue_signal_T_R` emits BLOCKING. -/
def signals (c : Connection) (oldSize newSize : UInt64) : Bool :=
  c.blockSignal && (newSize == 0 ||
    (oldSize < c.maxBufferBytes >>> 1 && c.maxBufferBytes >>> 1 ≤ newSize) ||
    c.maxBufferBytes ≤ newSize)

/-- Whether `queue_signal_T_R` drops the connection. -/
def exceeds (c : Connection) : Bool :=
  c.maxBufferBytes != 0 && c.maxBufferBytes ≤ c.writeQueueBytes

end Connection

/-- What happens to the lock at the end of a piece of code. -/
inductive LockUse where
  | keeps
  | emits (size : UInt64)
  | drops
  deriving DecidableEq, Repr

/-- The pieces into which the functions fall, each of them run under the lock. -/
inductive Segment where
  | writev (vecs : List (List UInt8)) (block : Bool)
  | waitConnected (vecs : List (List UInt8)) (block : Bool)
  | startWrite (vecs : List (List UInt8)) (block : Bool)
  | continueWrite (vecs : List (List UInt8)) (block : Bool)
  | queueFlattened (vecs : List (List UInt8)) (updatePoll : Bool)
  | checkMaxBuffer
  | sendCondition
  | flushWriteQueue
  | doneWrites
  | doneFatal
  | ioHandler (condition : IOCondition)
  | bufferSpace (condition : IOCondition)
  | connectResult (condition : IOCondition)
  | startFlush
  | disconnect (timedOut : Bool)
  | tryReconnect
  | setMaxBuffer (maxBufferBytes : UInt64)
  deriving DecidableEq, Repr

/-- What the system answers: to `writev`, to `getsockopt (SO_ERROR)`, and to `connect`. -/
structure Input where
  results : List WriteResult
  connectOk : Bool
  initiated : Option Bool
  deriving DecidableEq, Repr

/-- What one piece of code does. `sent` goes to the kernel, `command` is a SET_CONDITION for the
I/O thread, and `fresh` says that the connection has a new socket. -/
structure Effect where
  conn : Connection
  todo : List Segment := []
  lock : LockUse := .keeps
  sent : List UInt8 := []
  command : Bool := false
  fresh : Bool := false
  deriving DecidableEq, Repr

/-- `queue_signal_T_R`, up to the emission of BLOCKING; `checkMaxBuffer` is what follows it. -/
def queueSignal (c : Connection) (delta : UInt64) : Connection × LockUse :=
  let newSize := c.writeQueueBytes + delta
  ({ c with writeQueueBytes := newSize },
    if c.signals c.writeQueueBytes newSize then .emits newSize else .keeps)

def exec (c : Connection) (inIOThread : Bool) (input : Input) : Segment → Effect
  | .writev vecs block =>
      if c.threadSafe then
        if c.status = .connecting then { conn := c, todo := [.queueFlattened vecs true] }
        else { conn := c, todo := [.startWrite vecs block] }
      else if c.nonblocking ∧ c.status = .connecting then
        { conn := c, todo := [.waitConnected vecs block] }
      else { conn := c, todo := [.startWrite vecs block] }
  | .waitConnected vecs block =>
      -- `link_wait` drops the lock or runs the main loop
      if c.status = .connecting then
        { conn := c, todo := [.waitConnected vecs block], lock := .drops }
      else { conn := c, todo := [.startWrite vecs block] }
  | .startWrite vecs block =>
      if c.status = .disconnected then { conn := c }
      else if c.writeQueue ≠ [] then { conn := c, todo := [.queueFlattened vecs false] }
      else { conn := c, todo := [.continueWrite vecs block] }
  | .continueWrite vecs block =>
      let o := writeData c.status c.nonblocking vecs input.results
      match o.status with
      | .queuedData =>
          if c.threadSafe then
            { conn := c, todo := [.queueFlattened o.rest true], sent := o.sent }
          else if block then
            -- `link_main_iteration`, then the write again
            { conn := c.setCondition .readWrite, todo := [.continueWrite o.rest block],
              lock := .drops, sent := o.sent }
          else
            { conn := c.setCondition .readWrite, todo := [.queueFlattened o.rest false],
              sent := o.sent }
      | _ => { conn := c, sent := o.sent }
  | .queueFlattened vecs updatePoll =>
      let qw := vecs.flatten
      let (conn, lock) :=
        queueSignal { c with writeQueue := c.writeQueue ++ [qw] } (.ofNat qw.length)
      { conn, lock
        todo := .checkMaxBuffer ::
          if updatePoll ∧ c.writeQueue = [] then [.sendCondition] else [] }
  | .checkMaxBuffer =>
      if c.exceeds then { conn := c.stateChanged .disconnected, lock := .drops } else { conn := c }
  | .sendCondition =>
      if inIOThread then { conn := c.setCondition .readWrite } else { conn := c, command := true }
  | .flushWriteQueue =>
      match c.writeQueue with
      | [] => { conn := c.setCondition .read }
      | qw :: queue =>
          let o := writeData c.status c.nonblocking [qw] input.results
          match o.status with
          | .ok bytesWritten =>
              -- the counter goes down by what the last call has written
              let (conn, lock) := queueSignal { c with writeQueue := queue } (-.ofNat bytesWritten)
              { conn, lock, todo := [.checkMaxBuffer, .doneWrites], sent := o.sent }
          | .fatalError =>
              { conn := c.stateChanged .disconnected, todo := [.doneFatal], lock := .drops,
                sent := o.sent }
          | .queuedData =>
              { conn := { c with writeQueue := o.rest.flatten :: queue }.setCondition .readWrite,
                sent := o.sent }
  | .doneWrites =>
      { conn := c.setCondition (if c.writeQueue = [] then .read else .readWrite) }
  | .doneFatal => { conn := c.setCondition .read }
  | .ioHandler condition =>
      if c.status = .connected ∧ condition.inConds then
        { conn := c, todo := [.bufferSpace condition], lock := .drops }
      else { conn := c, todo := [.bufferSpace condition] }
  | .bufferSpace condition =>
      if c.status = .connected ∧ condition.out then
        { conn := c, todo := [.flushWriteQueue, .connectResult condition] }
      else { conn := c, todo := [.connectResult condition] }
  | .connectResult condition =>
      if condition.errConds ∨ condition.out then
        match c.status with
        | .connecting =>
            if input.connectOk ∧ condition = .outOnly then
              { conn := (c.setCondition .read).stateChanged .connected, todo := [.startFlush],
                lock := .drops }
            else { conn := c.stateChanged .disconnected, lock := .drops }
        | .connected =>
            if condition.errConds then { conn := c.stateChanged .disconnected, lock := .drops }
            else { conn := c }
        | _ => { conn := c }
      else { conn := c }
  | .startFlush =>
      if c.writeQueue ≠ [] then { conn := c, todo := [.flushWriteQueue] } else { conn := c }
  | .disconnect timedOut =>
      { conn := c.stateChanged (if timedOut then .timeout else .disconnected), lock := .drops }
  | .tryReconnect =>
      match c.status, input.initiated with
      | .disconnected, some done | .timeout, some done =>
          -- a blocking socket is connected when `connect` returns
          { conn := c.stateChanged (if done ∨ ¬ c.nonblocking then .connected else .connecting),
            lock := .drops, fresh := true }
      | _, _ => { conn := c }
  | .setMaxBuffer maxBufferBytes => { conn := { c with maxBufferBytes } }

/-- What the threads call on the connection, and what the main loop calls. -/
inductive Call where
  | writev (vecs : List (List UInt8)) (block : Bool)
  | ioHandler (condition : IOCondition)
  | disconnect (timedOut : Bool)
  | tryReconnect
  | setMaxBuffer (maxBufferBytes : UInt64)
  deriving DecidableEq, Repr

def Call.segment : Call → Segment
  | .writev vecs block => .writev vecs block
  | .ioHandler condition => .ioHandler condition
  | .disconnect timedOut => .disconnect timedOut
  | .tryReconnect => .tryReconnect
  | .setMaxBuffer maxBufferBytes => .setMaxBuffer maxBufferBytes

/-- A call that has begun, and what it still has to do. -/
structure Thread where
  inIOThread : Bool
  todo : List Segment
  deriving DecidableEq, Repr

/-- The connection and the calls on it: the one that holds the lock, and those that have dropped it,
the latest first. `kernel` and `written` are histories: the bytes the kernel has taken on this
socket, and the messages written to it. -/
structure State where
  conn : Connection
  commands : Nat
  running : Option Thread
  suspended : List Thread
  kernel : List UInt8
  written : List UInt8
  deriving DecidableEq, Repr

/-- What a call to be begun writes. -/
def Call.message : Call → List UInt8
  | .writev vecs _ => vecs.flatten
  | _ => []

/-- The bytes of a call that waits in `link_connection_wait_connected` or in the main loop. -/
def Segment.waiting : Segment → List UInt8
  | .waitConnected vecs _ | .continueWrite vecs _ => vecs.flatten
  | _ => []

/-- The bytes of a call that has yet to look at the queue, or is about to add to it. -/
def Segment.arriving : Segment → List UInt8
  | .writev vecs _ | .startWrite vecs _ | .queueFlattened vecs _ => vecs.flatten
  | _ => []

/-- The bytes of a call that waits for a connection, of which the kernel has had none. -/
def Segment.whole : Segment → List UInt8
  | .waitConnected vecs _ => vecs.flatten
  | _ => []

namespace Thread

@[grind =] def waiting (t : Thread) : List UInt8 := t.todo.flatMap Segment.waiting

@[grind =] def arriving (t : Thread) : List UInt8 := t.todo.flatMap Segment.arriving

@[grind =] def whole (t : Thread) : List UInt8 := t.todo.flatMap Segment.whole

end Thread

/-- Whether a write is not turned away at once. -/
def Connection.accepts (c : Connection) : Bool :=
  c.status = .connected ∨ c.status = .connecting

/-- What the suspended calls have in their vectors, the oldest call first. -/
@[grind =] def State.waiting (s : State) : List UInt8 := s.suspended.reverse.flatMap Thread.waiting

@[grind =] def State.whole (s : State) : List UInt8 := s.suspended.reverse.flatMap Thread.whole

/-- The state after a piece of code, of a call that has `todo` behind it. -/
def State.after (s : State) (inIOThread : Bool) (todo : List Segment) (e : Effect) : State :=
  let thread : Thread := ⟨inIOThread, e.todo ++ todo⟩
  { conn := e.conn
    commands := if e.command then s.commands + 1 else s.commands
    running := if e.lock = .keeps ∧ thread.todo ≠ [] then some thread else none
    suspended := if e.lock ≠ .keeps ∧ thread.todo ≠ [] then thread :: s.suspended else s.suspended
    kernel := if e.fresh then [] else s.kernel ++ e.sent
    -- a new socket gets the messages of the calls that still wait for a connection
    written := if e.fresh then s.whole else s.written }

inductive Event where
  | call (inIOThread : Bool) (c : Call)
  | run (input : Input)
  | resume (i : Nat)
  | dispatch
  deriving DecidableEq, Repr

def step (s : State) : Event → State
  | .call inIOThread c =>
      match s.running with
      | some _ => s
      | none =>
          { s with
            running := some ⟨inIOThread, [c.segment]⟩
            written := if s.conn.accepts then s.written ++ c.message else s.written }
  | .run input =>
      match s.running with
      | some ⟨inIOThread, segment :: todo⟩ =>
          s.after inIOThread todo (exec s.conn inIOThread input segment)
      | _ => s
  | .resume i =>
      match s.running, s.suspended[i]? with
      | none, some t =>
          -- without threads the calls are nested: the latest one goes on first
          if s.conn.threadSafe ∨ i = 0 then
            { s with running := some t, suspended := s.suspended.eraseIdx i }
          else s
      | _, _ => s
  | .dispatch =>
      -- `link_connection_exec_set_condition`
      match s.running with
      | none =>
          if s.commands = 0 then s
          else { s with conn := s.conn.setCondition .readWrite, commands := s.commands - 1 }
      | some _ => s

/-- A connection that has just been made. -/
def initial (threadSafe nonblocking blockSignal : Bool) (maxBufferBytes : UInt64)
    (done : Bool) : State where
  conn := Connection.stateChanged ⟨.connecting, threadSafe, nonblocking, blockSignal, maxBufferBytes,
    [], 0, none⟩ (if done ∨ ¬ nonblocking then .connected else .connecting)
  commands := 0
  running := none
  suspended := []
  kernel := []
  written := []

/-- The pieces of code that do no more to the connection than watch for room. -/
def Segment.quiet : Segment → Bool
  | .writev .. | .waitConnected .. | .startWrite .. | .continueWrite .. | .sendCondition
  | .ioHandler _ | .bufferSpace _ | .startFlush => true
  | _ => false

theorem exec_quiet (c : Connection) (inIOThread : Bool) (input : Input) (segment : Segment)
    (h : segment.quiet = true) :
    (exec c inIOThread input segment).conn = c ∨
      (exec c inIOThread input segment).conn = c.setCondition .readWrite := by
  cases segment with
  | queueFlattened vecs updatePoll => cases h
  | flushWriteQueue => cases h
  | connectResult condition => cases h
  | disconnect timedOut => cases h
  | tryReconnect => cases h
  | _ =>
    unfold exec
    dsimp only
    repeat' split
    all_goals
      first
        | exact .inl rfl
        | exact .inr rfl
        | cases h

/-- What an event does: nothing, or one of four things. -/
theorem step_cases {P : State → Prop} (s : State) (e : Event) (hsame : P s)
    (hcall : ∀ inIOThread c, e = .call inIOThread c → s.running = none →
      P { s with
          running := some ⟨inIOThread, [c.segment]⟩
          written := if s.conn.accepts then s.written ++ c.message else s.written })
    (hrun : ∀ input inIOThread segment todo, e = .run input →
      s.running = some ⟨inIOThread, segment :: todo⟩ →
      P (s.after inIOThread todo (exec s.conn inIOThread input segment)))
    (hresume : ∀ i t, e = .resume i → s.running = none → s.suspended[i]? = some t →
      s.conn.threadSafe = true ∨ i = 0 →
      P { s with running := some t, suspended := s.suspended.eraseIdx i })
    (hdispatch : e = .dispatch → s.running = none → s.commands ≠ 0 →
      P { s with conn := s.conn.setCondition .readWrite, commands := s.commands - 1 }) :
    P (step s e) := by
  cases e with
  | call inIOThread c =>
    simp only [step]
    split
    · exact hsame
    · rename_i hnone
      exact hcall inIOThread c rfl hnone
  | run input =>
    simp only [step]
    split
    · rename_i inIOThread segment todo hsome
      exact hrun input inIOThread segment todo rfl hsome
    · exact hsame
  | resume i =>
    simp only [step]
    split
    · rename_i t hnone hi
      by_cases hfirst : s.conn.threadSafe = true ∨ i = 0
      · rw [if_pos hfirst]
        exact hresume i t rfl hnone hi hfirst
      · rw [if_neg hfirst]
        exact hsame
    · exact hsame
  | dispatch =>
    simp only [step]
    split
    · rename_i hnone
      by_cases hc : s.commands = 0
      · rw [if_pos hc]
        exact hsame
      · rw [if_neg hc]
        exact hdispatch rfl hnone hc
    · exact hsame

end ORBit2.Link
