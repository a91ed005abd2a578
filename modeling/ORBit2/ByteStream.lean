import ORBit2.Base.Runs
import ORBit2.LinkCalls

/-! The bytes that go to the kernel and the messages that were written, in the order of the
calls. -/

set_option autoImplicit false

namespace ORBit2.Link

/-- What the running call has in its vectors, before and behind the queue. -/
def State.runningWaiting (s : State) : List UInt8 := (s.running.toList).flatMap Thread.waiting

def State.arriving (s : State) : List UInt8 := (s.running.toList).flatMap Thread.arriving

/-- While there is a connection: what the kernel has taken, what is in the vectors of the calls
that wait, what is queued, and what a call that has just come brings, are the messages written,
in the order of the calls. -/
def InOrder (s : State) : Prop :=
  s.conn.accepts = true →
    s.kernel ++ s.waiting ++ s.runningWaiting ++ s.conn.writeQueue.flatten ++ s.arriving = s.written

/-- The answers of `writev` that are no errors. -/
def Input.obliging (c : Connection) (input : Input) : Prop :=
  ∀ result ∈ input.results,
    result ≠ .failed ∧ result ≠ .wrote 0 ∧ (result = .eagain → c.nonblocking = true)

/-- The kernel takes nothing. -/
def Input.takesNothing (c : Connection) (input : Input) : Prop :=
  c.nonblocking = true ∧ ∀ result ∈ input.results, result = .eintr ∨ result = .eagain

/-- `writev` gives no error. -/
def Obliging (s : State) : Event → Prop
  | .run input => input.obliging s.conn
  | _ => True

/-- The bytes of a message of which the kernel may have had a part. -/
def Segment.cut : Segment → List UInt8
  | .continueWrite vecs _ => vecs.flatten
  | _ => []

/-- What a piece of code must not do: let a call or the queue go before a call that waits, begin
with an empty vector, or go on with a message on another socket. -/
def State.orderly (s : State) (input : Input) : Segment → Prop
  | .continueWrite vecs _ =>
      (goesOn vecs ∨ vecs.flatten = []) ∧
        (s.waiting = [] ∨ vecs.flatten = [] ∨ input.takesNothing s.conn)
  | .waitConnected vecs _ =>
      s.conn.status = .connecting ∨ vecs.flatten = [] ∨ s.conn.writeQueue.flatten = []
  | .flushWriteQueue =>
      s.waiting = [] ∨ s.conn.writeQueue.head?.getD [] = [] ∨ input.takesNothing s.conn
  | .tryReconnect => ∀ t ∈ s.suspended, ∀ segment ∈ t.todo, segment.cut = []
  | _ => True

def Orderly (s : State) : Event → Prop
  | .run input =>
      match s.running with
      | some ⟨_, segment :: _⟩ => s.orderly input segment
      | _ => True
  | _ => True

instance (s : State) (input : Input) : ∀ segment, Decidable (s.orderly input segment)
  | .continueWrite .. => inferInstanceAs (Decidable ((_ ∨ _) ∧ (_ ∨ _ ∨ (_ ∧ ∀ _ ∈ _, _))))
  | .waitConnected .. => inferInstanceAs (Decidable (_ ∨ _ ∨ _))
  | .flushWriteQueue => inferInstanceAs (Decidable (_ ∨ _ ∨ (_ ∧ ∀ _ ∈ _, _)))
  | .tryReconnect => inferInstanceAs (Decidable (∀ _ ∈ _, ∀ _ ∈ _, _))
  | .writev .. | .startWrite .. | .queueFlattened .. | .checkMaxBuffer | .sendCondition
  | .doneWrites | .doneFatal | .ioHandler _ | .bufferSpace _ | .connectResult _ | .startFlush
  | .disconnect _ | .setMaxBuffer _ => .isTrue trivial

instance (s : State) : ∀ e, Decidable (Orderly s e)
  | .run input =>
      match h : s.running with
      | some ⟨_, segment :: _⟩ =>
          decidable_of_iff (s.orderly input segment) (by simp only [Orderly, h])
      | some ⟨_, []⟩ | none => .isTrue (by simp only [Orderly, h])
  | .call .. | .resume _ | .dispatch => .isTrue trivial

instance (s : State) : ∀ e, Decidable (Obliging s e)
  | .run _ => inferInstanceAs (Decidable (∀ _ ∈ _, _ ∧ _ ∧ (_ → _)))
  | .call .. | .resume _ | .dispatch => .isTrue trivial

theorem bytes_of_plain {segment : Segment} (h : segment.isWrite = false) :
    segment.waiting = [] ∧ segment.arriving = [] ∧ segment.cut = [] := by
  cases segment with
  | writev vecs block => cases h
  | waitConnected vecs block => cases h
  | startWrite vecs block => cases h
  | continueWrite vecs block => cases h
  | queueFlattened vecs updatePoll => cases h
  | _ => exact ⟨rfl, rfl, rfl⟩

/-- No call goes on with the message of a former connection while there is no connection yet. -/
def Current (s : State) : Prop :=
  s.conn.status = .connecting →
    (∀ t, s.running = some t → ∀ segment ∈ t.todo, segment.cut = []) ∧
      ∀ t ∈ s.suspended, ∀ segment ∈ t.todo, segment.cut = []

/-- A message is cut only on a connection. -/
theorem exec_cut (c : Connection) (inIOThread : Bool) (input : Input) (segment : Segment)
    (hf : segment.fits c)
    (hs : (exec c inIOThread input segment).conn.status = .connecting) :
    ∀ x ∈ (exec c inIOThread input segment).todo, x.cut = [] := by
  intro x hx
  by_cases hw : segment.isWrite = true
  · cases segment with
    | writev vecs block =>
      simp only [exec] at hx
      repeat' split at hx
      all_goals
        rw [List.mem_singleton.mp hx]
        rfl
    | waitConnected vecs block =>
      simp only [exec] at hx
      repeat' split at hx
      all_goals
        rw [List.mem_singleton.mp hx]
        rfl
    | startWrite vecs block =>
      simp only [exec] at hs
      refine absurd ?_ hf
      repeat' split at hs
      all_goals exact hs
    | continueWrite vecs block =>
      simp only [exec] at hs hx
      cases ho : (writeData c.status c.nonblocking vecs input.results).status with
      | queuedData =>
        rw [ho] at hs
        have hcon := status_of_queued ho
        repeat' split at hs
        all_goals
          change c.status = .connecting at hs
          rw [hcon] at hs
          cases hs
      | ok n => simp [ho] at hx
      | fatalError => simp [ho] at hx
    | queueFlattened vecs updatePoll =>
      simp only [exec] at hx
      split at hx
      all_goals
        simp only [List.mem_cons, List.not_mem_nil, or_false] at hx
        rcases hx with rfl | rfl <;> rfl
    | _ => cases hw
  · exact (bytes_of_plain (exec_plain c inIOThread input segment (Bool.eq_false_iff.mpr hw) x hx)).2.2

theorem current_after (s : State) (inIOThread : Bool) (input : Input) (segment : Segment)
    (todo : List Segment) (h : Coherent s) (hcur : Current s)
    (hrun : s.running = some ⟨inIOThread, segment :: todo⟩) (ho : s.orderly input segment) :
    Current (s.after inIOThread todo (exec s.conn inIOThread input segment)) := by
  obtain ⟨hshape, hfits⟩ := h.running _ hrun
  intro hs
  have hnew := exec_cut s.conn inIOThread input segment (hfits segment List.mem_cons_self) hs
  have hthread : ∀ x ∈ (exec s.conn inIOThread input segment).todo ++ todo, x.cut = [] := by
    intro x hx
    rcases List.mem_append.mp hx with hx | hx
    · exact hnew x hx
    · rcases hshape.rest with hnil | ⟨-, hplain⟩
      · rw [hnil] at hx
        cases hx
      · exact (bytes_of_plain (hplain x hx)).2.2
  have hold : ∀ t ∈ s.suspended, ∀ x ∈ t.todo, x.cut = [] := by
    rcases (exec_status s.conn inIOThread input segment).2 hs with rfl | hcon
    · exact ho
    · exact (hcur hcon).2
  constructor
  · intro t ht
    simp only [State.after] at ht
    split at ht
    · cases ht
      exact hthread
    · cases ht
  · intro t ht
    simp only [State.after] at ht
    split at ht
    · rcases List.mem_cons.mp ht with rfl | ht
      · exact hthread
      · exact hold t ht
    · exact hold t ht

theorem current_step (s : State) (e : Event) (h : Coherent s) (hcur : Current s)
    (ho : Orderly s e) : Current (step s e) := by
  refine step_cases s e hcur ?_ ?_ ?_ ?_
  · intro inIOThread c _ _ hs
    refine ⟨fun t ht x hx => ?_, (hcur hs).2⟩
    cases ht
    rw [List.mem_singleton.mp hx]
    cases c <;> rfl
  · rintro input inIOThread segment todo rfl hrun
    simp only [Orderly, hrun] at ho
    exact current_after s inIOThread input segment todo h hcur hrun ho
  · intro i t _ _ ht _ hs
    refine ⟨fun t' ht' => ?_, fun t' ht' => (hcur hs).2 t' (List.mem_of_mem_eraseIdx ht')⟩
    cases ht'
    exact (hcur hs).2 t (List.mem_of_getElem? ht)
  · intro _ _ _ hs
    exact hcur hs

theorem advance_settled (n : Nat) (vecs : List (List UInt8)) :
    advance n vecs = [] ∨ goesOn (advance n vecs) = true := by
  induction vecs generalizing n with
  | nil => exact .inl rfl
  | cons vec vecs ih =>
    rw [advance]
    by_cases h : vec.length ≤ n
    · rw [if_pos h]
      exact ih _
    · rw [if_neg h]
      refine .inr ?_
      have hpos : 0 < (vec.drop n).length := by
        rw [List.length_drop]
        omega
      simp only [goesOn, Bool.not_eq_true', List.isEmpty_eq_false_iff]
      exact List.ne_nil_of_length_pos hpos

theorem flatten_ne_nil_of_goesOn {vecs : List (List UInt8)} (h : goesOn vecs = true) :
    0 < vecs.flatten.length := by
  cases vecs with
  | nil => cases h
  | cons vec vecs =>
    simp only [goesOn, Bool.not_eq_true', List.isEmpty_eq_false_iff] at h
    rw [List.flatten_cons, List.length_append]
    have hvec := List.length_pos_of_ne_nil h
    omega

/-- Where `writev` gives no error, the loop ends with all written or for want of room. -/
theorem writeLoop_obliging (nonblocking : Bool) (vecs : List (List UInt8)) (sent : List UInt8)
    (results : List WriteResult) (hvecs : goesOn vecs = true ∨ vecs.flatten = [])
    (h : ∀ result ∈ results,
      result ≠ .failed ∧ result ≠ .wrote 0 ∧ (result = .eagain → nonblocking = true)) :
    (writeLoop nonblocking vecs sent results).status = .queuedData ∨
      (writeLoop nonblocking vecs sent results).rest.flatten = [] := by
  induction results generalizing vecs sent with
  | nil =>
    unfold writeLoop
    by_cases hgo : goesOn vecs
    · cases nonblocking with
      | true => exact .inl (by simp only [hgo, if_true])
      | false => exact .inr (by simp only [hgo, if_true, Bool.false_eq_true, if_false, List.flatten_nil])
    · rw [if_neg hgo]
      exact .inr (hvecs.resolve_left hgo)
  | cons result results ih =>
    have hrest := fun x hx => h x (List.mem_cons_of_mem _ hx)
    obtain ⟨hfailed, hzero, hagain⟩ := h result List.mem_cons_self
    unfold writeLoop
    by_cases hgo : goesOn vecs
    · rw [if_pos hgo]
      cases result with
      | eintr => exact ih vecs sent hvecs hrest
      | eagain =>
        rw [hagain rfl]
        exact .inl rfl
      | failed => exact absurd rfl hfailed
      | wrote n =>
        have hpos := flatten_ne_nil_of_goesOn hgo
        have hn : n ≠ 0 := fun hn => hzero (by rw [hn])
        dsimp only
        rw [if_neg (by omega)]
        refine ih _ _ ?_ hrest
        rcases advance_settled (min n vecs.flatten.length) vecs with hnil | hgo
        · rw [hnil]
          exact .inr rfl
        · exact .inl hgo
    · rw [if_neg hgo]
      exact .inr (hvecs.resolve_left hgo)

theorem writeLoop_takesNothing (vecs : List (List UInt8)) (sent : List UInt8)
    (results : List WriteResult) (h : ∀ result ∈ results, result = .eintr ∨ result = .eagain) :
    (writeLoop true vecs sent results).sent = sent := by
  induction results generalizing vecs sent with
  | nil =>
    unfold writeLoop
    split <;> rfl
  | cons result results ih =>
    unfold writeLoop
    split
    · rcases h result List.mem_cons_self with rfl | rfl
      · exact ih vecs sent fun x hx => h x (List.mem_cons_of_mem _ hx)
      · rfl
    · rfl

/-- The kernel has no byte of what is empty, and none when it takes nothing. -/
theorem writeData_sent_nil {c : Connection} {v : List (List UInt8)} {input : Input}
    (h : v.flatten = [] ∨ input.takesNothing c) :
    (writeData c.status c.nonblocking v input.results).sent = [] := by
  rcases h with h | ⟨hn, h⟩
  · have hbytes := writeData_flatten c.status c.nonblocking v input.results
    rw [h] at hbytes
    exact (List.append_eq_nil_iff.mp hbytes).1
  · unfold writeData
    split
    · rfl
    · rw [hn]
      exact writeLoop_takesNothing v [] input.results h

/-- What is left of a write that is not queued is nothing. -/
theorem writeData_obliging {c : Connection} {vecs : List (List UInt8)} {input : Input}
    (ha : c.accepts = true) (hstale : c.status = .connecting → vecs.flatten = [])
    (hvecs : goesOn vecs = true ∨ vecs.flatten = []) (hob : input.obliging c) :
    (writeData c.status c.nonblocking vecs input.results).status = .queuedData ∨
      (writeData c.status c.nonblocking vecs input.results).rest.flatten = [] := by
  by_cases hs : c.status = .connected
  · unfold writeData
    rw [if_neg (not_not.mpr hs)]
    exact writeLoop_obliging c.nonblocking vecs [] input.results hvecs hob
  · have hcon : c.status = .connecting := by
      simpa [Connection.accepts, hs] using ha
    unfold writeData
    rw [if_pos hs]
    exact .inr (hstale hcon)

theorem bytes_continueWrite (s : State) (inIOThread : Bool) (input : Input)
    (vecs : List (List UInt8)) (block : Bool) (hf : (Segment.continueWrite vecs block).fits s.conn)
    (hcut : s.conn.status = .connecting → vecs.flatten = [])
    (ho : s.orderly input (.continueWrite vecs block)) (hob : input.obliging s.conn)
    (ha : s.conn.accepts = true) :
    (exec s.conn inIOThread input (.continueWrite vecs block)).sent ++
        (exec s.conn inIOThread input (.continueWrite vecs block)).todo.flatMap Segment.waiting ++
        (exec s.conn inIOThread input (.continueWrite vecs block)).conn.writeQueue.flatten ++
        (exec s.conn inIOThread input (.continueWrite vecs block)).todo.flatMap Segment.arriving =
      vecs.flatten ++ s.conn.writeQueue.flatten := by
  have hbytes := writeData_flatten s.conn.status s.conn.nonblocking vecs input.results
  have hdone := writeData_obliging ha hcut ho.1 hob
  simp only [exec]
  cases hstatus : (writeData s.conn.status s.conn.nonblocking vecs input.results).status with
  | queuedData =>
    by_cases hsafe : s.conn.threadSafe
    · simp only [hsafe, if_true, Segment.waiting, Segment.arriving, List.flatMap_cons,
        List.flatMap_nil, List.append_nil, hf (.inl hsafe), List.flatten_nil]
      exact hbytes
    · simp only [hsafe, Bool.false_eq_true, if_false]
      cases block with
      | true =>
        simp only [if_true, Segment.waiting, Segment.arriving, List.flatMap_cons,
          List.flatMap_nil, List.append_nil]
        rw [hbytes]
        rfl
      | false =>
        have hq : (s.conn.setCondition .readWrite).writeQueue = [] := hf (.inr rfl)
        simp only [Bool.false_eq_true, if_false, Segment.waiting, Segment.arriving,
          List.flatMap_cons, List.flatMap_nil, List.append_nil, hq, hf (.inr rfl),
          List.flatten_nil]
        exact hbytes
  | ok n =>
    rw [hstatus] at hdone
    rw [hdone.resolve_left (by simp), List.append_nil] at hbytes
    simp only [List.flatMap_nil, List.append_nil, hbytes]
  | fatalError =>
    rw [hstatus] at hdone
    rw [hdone.resolve_left (by simp), List.append_nil] at hbytes
    simp only [List.flatMap_nil, List.append_nil, hbytes]

theorem bytes_flush (c : Connection) (inIOThread : Bool) (input : Input)
    (ha : (exec c inIOThread input .flushWriteQueue).conn.accepts = true) :
    (exec c inIOThread input .flushWriteQueue).sent ++
        (exec c inIOThread input .flushWriteQueue).conn.writeQueue.flatten =
      c.writeQueue.flatten := by
  cases hq : c.writeQueue with
  | nil =>
    simp only [exec, hq]
    exact congrArg List.flatten hq
  | cons qw queue =>
    have hbytes := writeData_flatten c.status c.nonblocking [qw] input.results
    simp only [exec, hq] at ha ⊢
    cases hstatus : (writeData c.status c.nonblocking [qw] input.results).status with
    | ok n =>
      obtain ⟨hsent, -⟩ := writeData_single _ _ _ _ _ hstatus
      simp only [hsent]
      rfl
    | fatalError =>
      rw [hstatus] at ha
      cases ha
    | queuedData =>
      rw [List.flatten_singleton] at hbytes
      change _ ++ (_ :: queue).flatten = _
      rw [List.flatten_cons, List.flatten_cons, ← List.append_assoc, hbytes]

theorem bytes_plain (c : Connection) (inIOThread : Bool) (input : Input) (segment : Segment)
    (hw : segment.isWrite = false) (ha : (exec c inIOThread input segment).conn.accepts = true)
    (hfresh : (exec c inIOThread input segment).fresh = false) :
    (exec c inIOThread input segment).sent ++
        (exec c inIOThread input segment).conn.writeQueue.flatten = c.writeQueue.flatten := by
  cases segment with
  | flushWriteQueue => exact bytes_flush c inIOThread input ha
  | disconnect timedOut => cases timedOut <;> cases ha
  | writev vecs block => cases hw
  | waitConnected vecs block => cases hw
  | startWrite vecs block => cases hw
  | continueWrite vecs block => cases hw
  | queueFlattened vecs updatePoll => cases hw
  | _ =>
    unfold exec at ha hfresh ⊢
    dsimp only at ha hfresh ⊢
    repeat' split
    all_goals first | rfl | simp_all [Connection.stateChanged, Connection.accepts]

/-- A call that does not write has no bytes of its own. -/
theorem bytes_of_rest {c : Connection} {inIOThread : Bool} {input : Input} {segment : Segment}
    (hw : segment.isWrite = false)
    (h : (exec c inIOThread input segment).sent ++
      (exec c inIOThread input segment).conn.writeQueue.flatten = c.writeQueue.flatten) :
    (exec c inIOThread input segment).sent ++
        (exec c inIOThread input segment).todo.flatMap Segment.waiting ++
        (exec c inIOThread input segment).conn.writeQueue.flatten ++
        (exec c inIOThread input segment).todo.flatMap Segment.arriving =
      segment.waiting ++ c.writeQueue.flatten ++ segment.arriving := by
  have hplain := exec_plain c inIOThread input segment hw
  have hwait : (exec c inIOThread input segment).todo.flatMap Segment.waiting = [] :=
    List.flatMap_eq_nil_iff.mpr fun x hx => (bytes_of_plain (hplain x hx)).1
  have harrive : (exec c inIOThread input segment).todo.flatMap Segment.arriving = [] :=
    List.flatMap_eq_nil_iff.mpr fun x hx => (bytes_of_plain (hplain x hx)).2.1
  rw [hwait, harrive, (bytes_of_plain hw).1, (bytes_of_plain hw).2.1]
  simp only [List.append_nil, List.nil_append]
  exact h

/-- The bytes of a piece of code: what it hands to the kernel, what it leaves in the vectors, and
what it queues are what there was. -/
theorem exec_bytes (s : State) (inIOThread : Bool) (input : Input) (segment : Segment)
    (hc : s.conn.Coherent) (hf : segment.fits s.conn)
    (hcut : s.conn.status = .connecting → segment.cut = []) (ho : s.orderly input segment)
    (hob : input.obliging s.conn)
    (ha : (exec s.conn inIOThread input segment).conn.accepts = true)
    (hfresh : (exec s.conn inIOThread input segment).fresh = false) :
    (exec s.conn inIOThread input segment).sent ++
        (exec s.conn inIOThread input segment).todo.flatMap Segment.waiting ++
        (exec s.conn inIOThread input segment).conn.writeQueue.flatten ++
        (exec s.conn inIOThread input segment).todo.flatMap Segment.arriving =
      segment.waiting ++ s.conn.writeQueue.flatten ++ segment.arriving := by
  cases segment with
  | writev vecs block =>
    simp only [exec]
    by_cases hsafe : s.conn.threadSafe
    · simp only [hsafe, if_true]
      split
      all_goals simp [Segment.waiting, Segment.arriving]
    · rw [if_neg hsafe]
      by_cases hs : s.conn.nonblocking ∧ s.conn.status = .connecting
      · have hq := hc.connecting hs.2 (Bool.eq_false_iff.mpr hsafe)
        rw [if_pos hs]
        simp [Segment.waiting, Segment.arriving, hq]
      · rw [if_neg hs]
        simp [Segment.waiting, Segment.arriving]
  | waitConnected vecs block =>
    simp only [exec]
    by_cases hs : s.conn.status = .connecting
    · rw [if_pos hs]
      simp [Segment.waiting, Segment.arriving]
    · rw [if_neg hs]
      rcases ho.resolve_left hs with hv | hq
      · simp [Segment.waiting, Segment.arriving, hv]
      · simp [Segment.waiting, Segment.arriving, hq]
  | startWrite vecs block =>
    simp only [exec] at ha ⊢
    by_cases hd : s.conn.status = .disconnected
    · rw [if_pos hd] at ha
      simp [Connection.accepts, hd] at ha
    · rw [if_neg hd]
      by_cases hq : s.conn.writeQueue ≠ []
      · rw [if_pos hq]
        simp [Segment.waiting, Segment.arriving]
      · rw [if_neg hq]
        simp [Segment.waiting, Segment.arriving, not_not.mp hq]
  | continueWrite vecs block =>
    have hac : s.conn.accepts = true := by
      simp only [exec] at ha
      repeat' split at ha
      all_goals exact ha
    have h := bytes_continueWrite s inIOThread input vecs block hf hcut ho hob hac
    rw [h]
    exact (List.append_nil _).symm
  | queueFlattened vecs updatePoll =>
    simp only [exec, queueSignal, Segment.waiting, Segment.arriving]
    split
    all_goals simp [Segment.waiting, Segment.arriving]
  | _ =>
    refine bytes_of_rest rfl ?_
    exact bytes_plain s.conn inIOThread input _ rfl ha hfresh

/-- Only one that is not overtaking hands anything to the kernel. -/
theorem exec_sent (s : State) (inIOThread : Bool) (input : Input) (segment : Segment)
    (ho : s.orderly input segment) :
    (exec s.conn inIOThread input segment).sent = [] ∨ s.waiting = [] := by
  cases segment with
  | continueWrite vecs block =>
    rcases ho.2 with hw | hnone
    · exact .inr hw
    · refine .inl ?_
      have hsent := writeData_sent_nil hnone
      simp only [exec]
      repeat' split
      all_goals exact hsent
  | flushWriteQueue =>
    rcases ho with hw | hnone
    · exact .inr hw
    · refine .inl ?_
      cases hq : s.conn.writeQueue with
      | nil => simp only [exec, hq]
      | cons qw queue =>
        rw [hq] at hnone
        have hsent := writeData_sent_nil (v := [qw]) (hnone.imp_left fun h => by simpa using h)
        simp only [exec, hq]
        split
        all_goals exact hsent
  | _ =>
    unfold exec
    dsimp only
    repeat' split
    all_goals exact .inl rfl

theorem bytes_of_plains {todo : List Segment} (h : ∀ x ∈ todo, x.isWrite = false) :
    todo.flatMap Segment.waiting = [] ∧ todo.flatMap Segment.arriving = [] :=
  ⟨List.flatMap_eq_nil_iff.mpr fun x hx => (bytes_of_plain (h x hx)).1,
    List.flatMap_eq_nil_iff.mpr fun x hx => (bytes_of_plain (h x hx)).2.1⟩

theorem bytes_of_shaped {segment : Segment} {todo : List Segment}
    (h : Shaped (segment :: todo)) :
    todo.flatMap Segment.waiting = [] ∧ todo.flatMap Segment.arriving = [] := by
  rcases h.rest with rfl | ⟨-, h⟩
  · exact ⟨rfl, rfl⟩
  · exact bytes_of_plains h

theorem arriving_of_parked {c : Connection} {todo : List Segment}
    (h : ∀ x ∈ todo, x.parked c) : todo.flatMap Segment.arriving = [] := by
  refine List.flatMap_eq_nil_iff.mpr fun x hx => ?_
  have hp := h x hx
  cases x with
  | writev vecs block => exact hp.elim
  | startWrite vecs block => exact hp.elim
  | queueFlattened vecs updatePoll => exact hp.elim
  | _ => rfl

/-- Whether the call goes on or drops the lock, its bytes stand behind those of the others. -/
theorem after_bytes (s : State) (inIOThread : Bool) (todo : List Segment) (e : Effect)
    (hp : e.lock ≠ .keeps → ∀ x ∈ e.todo ++ todo, x.parked e.conn) :
    (s.after inIOThread todo e).waiting ++ (s.after inIOThread todo e).runningWaiting =
        s.waiting ++ (e.todo ++ todo).flatMap Segment.waiting ∧
      (s.after inIOThread todo e).arriving = (e.todo ++ todo).flatMap Segment.arriving := by
  by_cases hnil : e.todo ++ todo = []
  · simp [State.after, State.waiting, State.runningWaiting, State.arriving, hnil]
  · by_cases hlock : e.lock = .keeps
    · simp [State.after, State.waiting, State.runningWaiting, State.arriving, Thread.waiting,
        Thread.arriving, hnil, hlock]
    · have harrive := arriving_of_parked (hp hlock)
      simp only [List.flatMap_append] at harrive
      simp [State.after, State.waiting, State.runningWaiting, State.arriving, Thread.waiting,
        hnil, hlock, harrive]

/-- What the calls wait with is whole messages when none has been cut. -/
theorem waiting_eq_whole {s : State}
    (hcut : ∀ t ∈ s.suspended, ∀ segment ∈ t.todo, segment.cut = []) : s.waiting = s.whole := by
  refine List.flatMap_congr fun t ht => List.flatMap_congr fun x hx => ?_
  have ht := List.mem_reverse.mp ht
  cases x with
  | continueWrite vecs block => exact hcut t ht _ hx
  | _ => rfl

theorem inOrder_after (s : State) (inIOThread : Bool) (input : Input) (segment : Segment)
    (todo : List Segment) (h : Coherent s) (hcur : Current s)
    (hrun : s.running = some ⟨inIOThread, segment :: todo⟩) (ho : s.orderly input segment)
    (hob : input.obliging s.conn) (hin : InOrder s) :
    InOrder (s.after inIOThread todo (exec s.conn inIOThread input segment)) := by
  obtain ⟨hshape, hfits⟩ := h.running _ hrun
  have hf := hfits segment List.mem_cons_self
  obtain ⟨hw, har⟩ := bytes_of_shaped hshape
  have hfollows := after_follows s.conn inIOThread input segment todo h.conn hshape hf
  obtain ⟨hwait, harrive⟩ :=
    after_bytes s inIOThread todo (exec s.conn inIOThread input segment) hfollows.parked
  rw [List.flatMap_append, hw, List.append_nil] at hwait
  rw [List.flatMap_append, har, List.append_nil] at harrive
  intro ha
  rw [List.append_assoc _ _ (State.runningWaiting _), hwait, harrive]
  by_cases hfresh : (exec s.conn inIOThread input segment).fresh = true
  · obtain ⟨rfl, htodo, hq⟩ := exec_fresh s.conn inIOThread input segment h.conn hfresh
    have hwhole := waiting_eq_whole ho
    simp only [State.after, hfresh, htodo, hq, hwhole, if_true, List.flatMap_nil,
      List.flatten_nil, List.append_nil, List.nil_append]
  · have hacc := ((exec_status s.conn inIOThread input segment).1 ha).resolve_left hfresh
    have hbytes := exec_bytes s inIOThread input segment h.conn hf
      (fun hc => (hcur hc).1 _ hrun segment List.mem_cons_self) ho hob ha
      (Bool.eq_false_iff.mpr hfresh)
    have hold := hin hacc
    have hrunning : s.runningWaiting = segment.waiting ∧ s.arriving = segment.arriving := by
      simp [State.runningWaiting, State.arriving, hrun, Thread.waiting, Thread.arriving, hw, har]
    rw [hrunning.1, hrunning.2] at hold
    simp only [State.after, hfresh, Bool.false_eq_true, if_false]
    -- what goes to the kernel stands next to it, or nothing goes
    rcases exec_sent s inIOThread input segment ho with hsent | hwaiting
    · rw [hsent, List.nil_append] at hbytes
      rw [hsent, List.append_nil, ← hold]
      simp only [List.append_assoc] at hbytes ⊢
      rw [hbytes]
    · rw [hwaiting, List.append_nil] at hold
      rw [hwaiting, List.nil_append, ← hold]
      simp only [List.append_assoc] at hbytes ⊢
      rw [hbytes]

/-- With threads no call waits with its vectors. -/
theorem waiting_of_threadSafe {c : Connection} {t : Thread} (hsafe : c.threadSafe = true)
    (h : ∀ x ∈ t.todo, x.parked c) : t.waiting = [] := by
  refine List.flatMap_eq_nil_iff.mpr fun x hx => ?_
  have hp := h x hx
  cases x with
  | waitConnected vecs block =>
    rw [show c.threadSafe = false from hp] at hsafe
    cases hsafe
  | continueWrite vecs block =>
    rw [hp.1] at hsafe
    cases hsafe
  | _ => rfl

theorem inOrder_resume {s : State} {i : Nat} {t : Thread} (h : Coherent s)
    (hrun : s.running = none) (ht : s.suspended[i]? = some t)
    (hi : s.conn.threadSafe = true ∨ i = 0) (hin : InOrder s) :
    InOrder { s with running := some t, suspended := s.suspended.eraseIdx i } := by
  have harrive := arriving_of_parked (h.suspended t (List.mem_of_getElem? ht)).2
  intro ha
  have hold := hin ha
  have hmoved : (s.suspended.eraseIdx i).reverse.flatMap Thread.waiting ++ t.waiting = s.waiting := by
    by_cases hsafe : s.conn.threadSafe = true
    · have hnone := fun u hu => waiting_of_threadSafe (t := u) hsafe (h.suspended u hu).2
      rw [hnone t (List.mem_of_getElem? ht), List.append_nil, State.waiting,
        List.flatMap_eq_nil_iff.mpr fun u hu => hnone u (List.mem_reverse.mp hu),
        List.flatMap_eq_nil_iff.mpr fun u hu =>
          hnone u (List.mem_of_mem_eraseIdx (List.mem_reverse.mp hu))]
    · rcases hi.resolve_left hsafe with rfl
      cases hsus : s.suspended with
      | nil => simp [hsus] at ht
      | cons u rest =>
        rw [hsus] at ht
        cases ht
        simp [State.waiting, hsus]
  simp only [State.runningWaiting, State.arriving, hrun, Option.toList_none, List.flatMap_nil,
    List.append_nil] at hold
  simp only [State.runningWaiting, State.arriving, Option.toList_some, List.flatMap_cons,
    List.flatMap_nil, List.append_nil, Thread.arriving, harrive]
  rw [← hold, ← hmoved]
  simp only [State.waiting, List.append_assoc]

theorem inOrder_call {s : State} (inIOThread : Bool) (c : Call) (hrun : s.running = none)
    (hin : InOrder s) :
    InOrder { s with
      running := some ⟨inIOThread, [c.segment]⟩
      written := if s.conn.accepts then s.written ++ c.message else s.written } := by
  intro ha
  have hold := hin ha
  have ha' : s.conn.accepts = true := ha
  simp only [State.runningWaiting, State.arriving, hrun, Option.toList_none, List.flatMap_nil,
    List.append_nil] at hold
  simp only [ha', if_true, State.runningWaiting, State.arriving, Option.toList_some,
    List.flatMap_cons, List.flatMap_nil, List.append_nil, Thread.waiting, Thread.arriving]
  rw [← hold]
  cases c <;> simp [Call.segment, Call.message, Segment.waiting, Segment.arriving, State.waiting]

theorem inOrder_step (s : State) (e : Event) (h : Coherent s) (hcur : Current s) (hin : InOrder s)
    (ho : Orderly s e) (hob : Obliging s e) : InOrder (step s e) := by
  refine step_cases s e hin ?_ ?_ ?_ ?_
  · intro inIOThread c _ hrun
    exact inOrder_call inIOThread c hrun hin
  · rintro input inIOThread segment todo rfl hrun
    simp only [Orderly, hrun] at ho
    exact inOrder_after s inIOThread input segment todo h hcur hrun ho hob hin
  · intro i t _ hrun ht hi
    exact inOrder_resume h hrun ht hi hin
  · intro _ _ _
    exact hin

theorem current_initial (threadSafe nonblocking blockSignal : Bool) (maxBufferBytes : UInt64)
    (done : Bool) :
    Current (initial threadSafe nonblocking blockSignal maxBufferBytes done) := by
  intro _
  constructor
  · intro t ht
    cases ht
  · intro t ht
    cases ht

theorem inOrder_initial (threadSafe nonblocking blockSignal : Bool) (maxBufferBytes : UInt64)
    (done : Bool) :
    InOrder (initial threadSafe nonblocking blockSignal maxBufferBytes done) := by
  cases done <;> cases nonblocking <;> exact fun _ => rfl

/-- A state in which no call is under way: the kernel's bytes and the queue are the messages. -/
theorem InOrder.idle {s : State} (h : InOrder s) (ha : s.conn.accepts = true)
    (hrun : s.running = none) (hwait : s.waiting = []) :
    s.kernel ++ s.conn.writeQueue.flatten = s.written := by
  simpa [State.runningWaiting, State.arriving, hrun, hwait] using h ha

/-- In every run in which no call or queue goes before a call that waits, no call begins with an
empty vector and none goes on with its message on another socket, the bytes stay in order. -/
theorem byte_stream (threadSafe nonblocking blockSignal : Bool) (maxBufferBytes : UInt64)
    (done : Bool) (es : List Event)
    (hob : Runs.Meets step Obliging
      (initial threadSafe nonblocking blockSignal maxBufferBytes done) es)
    (ho : Runs.Meets step Orderly
      (initial threadSafe nonblocking blockSignal maxBufferBytes done) es) :
    Runs.Always step
      (fun s => InOrder s ∧ (s.conn.accepts = true → s.running = none → s.waiting = [] →
        s.kernel ++ s.conn.writeQueue.flatten = s.written))
      (initial threadSafe nonblocking blockSignal maxBufferBytes done) es := by
  have hkept : Runs.Always step (fun s => Coherent s ∧ Current s ∧ InOrder s)
      (initial threadSafe nonblocking blockSignal maxBufferBytes done) es := by
    refine (ho.and hob).always ?_
      ⟨coherent_initial _ _ _ _ _, current_initial _ _ _ _ _, inOrder_initial _ _ _ _ _⟩
    intro s e h hc
    exact ⟨coherent_step s e h.1, current_step s e h.1 h.2.1 hc.1,
      inOrder_step s e h.1 h.2.1 h.2.2 hc.1 hc.2⟩
  exact hkept.imp fun s h => ⟨h.2.2, fun ha hrun hwait => h.2.2.idle ha hrun hwait⟩

/-- Two messages on a connection with threads: of the first one byte is taken, the rest is queued,
and the second stands behind it until the flush. -/
def queuedBehind : List Event :=
  let take (results : List WriteResult) : Event := .run ⟨results, true, none⟩
  [.call true (.writev [[1], [2, 3]] false), take [], take [], take [.wrote 1, .eagain], take [],
    take [], take [], .call false (.writev [[4]] false), take [], take [], take [], take [],
    .call true (.ioHandler .outOnly), take [], take [], take [.eintr, .wrote 1, .wrote 1]]

theorem byte_stream_queued :
    Runs.Always step
      (fun s => InOrder s ∧ (s.conn.accepts = true → s.running = none → s.waiting = [] →
        s.kernel ++ s.conn.writeQueue.flatten = s.written))
      (initial true true false 0 true) queuedBehind :=
  byte_stream true true false 0 true queuedBehind (by decide) (by decide)

/-- Two messages without threads: the second is written whole while the first waits for room. -/
def overtaken : List Event :=
  let take (results : List WriteResult) : Event := .run ⟨results, true, none⟩
  [.call true (.writev [[1, 2]] true), take [], take [], take [.wrote 1, .eagain],
    .call true (.writev [[3]] true), take [], take [], take [.wrote 1], .resume 0, take [.wrote 1]]

/-- The kernel gets the bytes 1, 3, 2 for the messages 1, 2 and 3. -/
theorem not_in_order :
    ¬ ∀ (threadSafe nonblocking blockSignal : Bool) (maxBufferBytes : UInt64) (done : Bool)
      (es : List Event),
      Runs.Meets step Obliging
          (initial threadSafe nonblocking blockSignal maxBufferBytes done) es →
        Runs.Always step
          (fun s => InOrder s ∧ (s.conn.accepts = true → s.running = none → s.waiting = [] →
            s.kernel ++ s.conn.writeQueue.flatten = s.written))
          (initial threadSafe nonblocking blockSignal maxBufferBytes done) es := by
  intro h
  have hlast := (h false true false 0 true overtaken (by decide)).last.2
  exact absurd (hlast (by decide) (by decide) (by decide))
    (by decide)

end ORBit2.Link
