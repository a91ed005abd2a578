import ORBit2.Base.Runs
import ORBit2.LinkCalls

/-! The condition of the watch: who wakes up a connection that has something to write. -/

set_option autoImplicit false

namespace ORBit2.Link

def Connection.watchesOut (c : Connection) : Prop :=
  ∃ condition, c.tag = some condition ∧ condition.out = true

def Segment.flushes : Segment → Bool
  | .flushWriteQueue | .doneWrites | .startFlush => true
  | _ => false

def FlushIn (todo : List Segment) : Prop := ∃ segment ∈ todo, segment.flushes = true

/-- A flush is running on the connection, or has let the lock go in the middle. -/
def State.flushing (s : State) : Prop :=
  (∃ t, s.running = some t ∧ FlushIn t.todo) ∨ ∃ t ∈ s.suspended, FlushIn t.todo

/-- A connection with something to write will be woken up. -/
def NotStuck (s : State) : Prop :=
  s.conn.status = .connected → s.conn.writeQueue ≠ [] →
    s.conn.watchesOut ∨ s.flushing ∨ 0 < s.commands

/-- A connect that is done without an error makes the connection, and the flush goes off. -/
def Connects (s : State) : Event → Prop
  | .run input =>
      match s.running with
      | some ⟨_, .connectResult condition :: _⟩ =>
          s.conn.status = .connecting → input.connectOk = true → condition.out = true →
            condition.errConds = false →
            (step s (.run input)).conn.status = .connected ∧
              (s.conn.writeQueue ≠ [] → (step s (.run input)).flushing)
      | _ => True
  | _ => True

/-- What must not happen in a piece of code: input that is reported before the connection is made;
the end of a flush, or of a failed one, on a later connection; BLOCKING for the first entry of
the queue before the command is sent. -/
def State.wakeful (s : State) (input : Input) : Segment → Prop
  | .connectResult condition =>
      s.conn.status = .connecting → input.connectOk = true → condition.out = true →
        condition.errConds = false → condition.inConds = false
  | .doneWrites => s.conn.status = .connecting → s.conn.writeQueue ≠ []
  | .doneFatal =>
      s.conn.status ≠ .connecting ∧ (s.conn.status = .connected → s.conn.writeQueue = [])
  | .queueFlattened vecs _ =>
      s.conn.status = .connected → s.conn.writeQueue = [] →
        s.conn.signals s.conn.writeQueueBytes
            (s.conn.writeQueueBytes + .ofNat vecs.flatten.length) = false ∨
          s.conn.watchesOut ∨ s.flushing ∨ 0 < s.commands
  | _ => True

def Wakeful (s : State) : Event → Prop
  | .run input =>
      match s.running with
      | some ⟨_, segment :: _⟩ => s.wakeful input segment
      | _ => True
  | _ => True

instance (c : Connection) : Decidable c.watchesOut :=
  match h : c.tag with
  | some condition => decidable_of_iff (condition.out = true) (by simp [Connection.watchesOut, h])
  | none => .isFalse (by simp [Connection.watchesOut, h])

instance (todo : List Segment) : Decidable (FlushIn todo) :=
  inferInstanceAs (Decidable (∃ segment ∈ todo, segment.flushes = true))

instance (s : State) : Decidable s.flushing :=
  match h : s.running with
  | some t =>
      decidable_of_iff (FlushIn t.todo ∨ ∃ t ∈ s.suspended, FlushIn t.todo)
        (by simp [State.flushing, h])
  | none => decidable_of_iff (∃ t ∈ s.suspended, FlushIn t.todo) (by simp [State.flushing, h])

instance (s : State) (input : Input) : ∀ segment, Decidable (s.wakeful input segment)
  | .connectResult _ => inferInstanceAs (Decidable (_ → _ → _ → _ → _))
  | .doneWrites => inferInstanceAs (Decidable (_ → _))
  | .doneFatal => inferInstanceAs (Decidable (_ ∧ (_ → _)))
  | .queueFlattened .. => inferInstanceAs (Decidable (_ → _ → _ ∨ _ ∨ _ ∨ _))
  | .writev .. | .waitConnected .. | .startWrite .. | .continueWrite .. | .checkMaxBuffer
  | .sendCondition | .flushWriteQueue | .ioHandler _ | .bufferSpace _ | .startFlush
  | .disconnect _ | .tryReconnect | .setMaxBuffer _ => .isTrue trivial

instance (s : State) : ∀ e, Decidable (Wakeful s e)
  | .run input =>
      match h : s.running with
      | some ⟨_, segment :: _⟩ =>
          decidable_of_iff (s.wakeful input segment) (by simp only [Wakeful, h])
      | some ⟨_, []⟩ | none => .isTrue (by simp only [Wakeful, h])
  | .call .. | .resume _ | .dispatch => .isTrue trivial

/-- What stands behind the first piece of code of a call: no flush, and the command only behind
the check of the size. -/
def Line (todo : List Segment) : Prop :=
  ∀ segment ∈ todo.tail, segment ≠ .flushWriteQueue ∧
    (segment = .sendCondition → todo = [.checkMaxBuffer, .sendCondition])

/-- What wakes up the connection, seen from the call that holds the lock. -/
structure Watched (s : State) : Prop where
  tag : s.conn.accepts = true → s.conn.tag.isSome = true
  connecting : s.conn.status = .connecting → s.conn.watchesOut
  covered : s.conn.status = .connected → s.conn.writeQueue ≠ [] →
    s.conn.watchesOut ∨ s.flushing ∨ 0 < s.commands ∨
      ∃ t, s.running = some t ∧ Segment.sendCondition ∈ t.todo
  appending : ∀ inIOThread vecs updatePoll todo,
    s.running = some ⟨inIOThread, .queueFlattened vecs updatePoll :: todo⟩ →
    s.conn.status = .connected → s.conn.writeQueue = [] →
    updatePoll = true ∨ s.conn.watchesOut
  flushReady : ∀ inIOThread todo, s.running = some ⟨inIOThread, .flushWriteQueue :: todo⟩ →
    s.conn.status = .connected ∨ s.conn.writeQueue ≠ []
  line : ∀ t, s.running = some t → Line t.todo
  lines : ∀ t ∈ s.suspended, Line t.todo ∧ Segment.flushWriteQueue ∉ t.todo

theorem watchesOut_setCondition {c : Connection} {k : IOCondition}
    (htag : c.tag.isSome = true) (hout : k.out = true) :
    (c.setCondition k).watchesOut := by
  obtain ⟨old, hold⟩ := Option.isSome_iff_exists.mp htag
  exact ⟨k, by simp only [Connection.setCondition, hold, Option.map_some], hout⟩

theorem line_rest {segment : Segment} {todo : List Segment} (h : Line (segment :: todo)) :
    Line todo := by
  intro x hx
  have hmem := List.mem_of_mem_tail hx
  refine ⟨(h x hmem).1, fun hsend => ?_⟩
  have hall := (h x hmem).2 hsend
  rw [(List.cons.inj hall).2] at hx
  cases hx

theorem line_single (segment : Segment) : Line [segment] := by
  intro x hx
  cases hx

/-- What the running call has left of the invariant when it comes to a piece of code. `other` is
a flush elsewhere, or a command. -/
structure Ready (c : Connection) (segment : Segment) (todo : List Segment) (other : Prop) :
    Prop where
  tag : c.accepts = true → c.tag.isSome = true
  covered : c.status = .connected → c.writeQueue ≠ [] →
    c.watchesOut ∨ other ∨ segment.flushes = true ∨ Segment.sendCondition ∈ segment :: todo
  line : Line (segment :: todo)

/-- Who wakes up the connection after a piece of code. -/
def Covers (e : Effect) (todo : List Segment) (other : Prop) : Prop :=
  e.conn.status = .connected → e.conn.writeQueue ≠ [] →
    e.conn.watchesOut ∨ other ∨ FlushIn e.todo ∨ e.command = true ∨
      e.lock = .keeps ∧ Segment.sendCondition ∈ e.todo ++ todo

theorem Ready.isSome {c : Connection} {segment : Segment} {todo : List Segment} {other : Prop}
    (h : Ready c segment todo other) (hs : c.status = .connected) : c.tag.isSome = true :=
  h.tag ((accepts_iff c).mpr (.inl hs))

/-- A piece of code that is no flush and does not lead to the command leaves things as they are. -/
theorem Ready.same {c : Connection} {segment : Segment} {todo : List Segment} {other : Prop}
    (h : Ready c segment todo other) (hf : segment.flushes = false)
    (hsend : segment ≠ .sendCondition) (hcheck : segment ≠ .checkMaxBuffer)
    (hs : c.status = .connected) (hq : c.writeQueue ≠ []) : c.watchesOut ∨ other := by
  rcases h.covered hs hq with hout | hother | hflush | hmem
  · exact .inl hout
  · exact .inr hother
  · rw [hf] at hflush
    cases hflush
  · rcases List.mem_cons.mp hmem with heq | hmem
    · exact absurd heq.symm hsend
    · exact absurd (List.cons.inj ((h.line _ hmem).2 rfl)).1 hcheck

theorem covers_same {e : Effect} {todo : List Segment} {other : Prop} {c : Connection}
    {segment : Segment} {rest : List Segment} (h : Ready c segment rest other)
    (hf : segment.flushes = false) (hsend : segment ≠ .sendCondition)
    (hcheck : segment ≠ .checkMaxBuffer) (he : e.conn = c) : Covers e todo other := by
  intro hs hq
  rw [he] at hs hq ⊢
  rcases h.same hf hsend hcheck hs hq with hout | hother
  · exact .inl hout
  · exact .inr (.inl hother)

theorem covers_readWrite {e : Effect} {todo : List Segment} {other : Prop} {c : Connection}
    (htag : c.status = .connected → c.tag.isSome = true) (hs : e.conn.status = c.status)
    (he : e.conn.tag = (c.setCondition .readWrite).tag) : Covers e todo other := by
  intro hcon _
  obtain ⟨condition, hcondition, hout⟩ :=
    watchesOut_setCondition (k := .readWrite) (htag (hs.symm.trans hcon)) rfl
  exact .inl ⟨condition, he.trans hcondition, hout⟩

theorem covers_gone {e : Effect} {todo : List Segment} {other : Prop}
    (h : e.conn.status ≠ .connected) : Covers e todo other :=
  fun hs => absurd hs h

theorem covers_flush (c : Connection) (inIOThread : Bool) (input : Input) (todo : List Segment)
    (other : Prop) (h : Ready c .flushWriteQueue todo other) :
    Covers (exec c inIOThread input .flushWriteQueue) todo other := by
  cases hq : c.writeQueue with
  | nil =>
    intro _ hne
    simp only [exec, hq] at hne
    exact absurd hq hne
  | cons qw queue =>
    simp only [exec, hq]
    cases (writeData c.status c.nonblocking [qw] input.results).status with
    | ok n =>
      intro _ _
      exact .inr (.inr (.inl ⟨.doneWrites, by simp, rfl⟩))
    | fatalError => exact covers_gone (by simp [Connection.stateChanged])
    | queuedData => exact covers_readWrite (c := c) h.isSome rfl rfl

theorem exec_covers (s : State) (inIOThread : Bool) (input : Input) (segment : Segment)
    (todo : List Segment) (other : Prop) (hc : s.conn.Coherent)
    (hother : s.flushing ∨ 0 < s.commands → segment.flushes = true ∨ other)
    (hw : s.wakeful input segment) (h : Ready s.conn segment todo other)
    (happend : ∀ vecs updatePoll, segment = .queueFlattened vecs updatePoll →
      s.conn.status = .connected → s.conn.writeQueue = [] →
      updatePoll = true ∨ s.conn.watchesOut) :
    Covers (exec s.conn inIOThread input segment) todo other := by
  cases segment with
  | writev vecs block =>
    refine covers_same h rfl (by simp) (by simp) ?_
    simp only [exec]
    repeat' split
    all_goals rfl
  | waitConnected vecs block =>
    refine covers_same h rfl (by simp) (by simp) ?_
    simp only [exec]
    split
    all_goals rfl
  | startWrite vecs block =>
    refine covers_same h rfl (by simp) (by simp) ?_
    simp only [exec]
    repeat' split
    all_goals rfl
  | continueWrite vecs block =>
    simp only [exec]
    repeat' split
    · exact covers_same h rfl (by simp) (by simp) rfl
    · exact covers_readWrite h.isSome rfl rfl
    · exact covers_readWrite h.isSome rfl rfl
    · exact covers_same h rfl (by simp) (by simp) rfl
  | queueFlattened vecs updatePoll =>
    intro hs _
    have hs' : s.conn.status = .connected := hs
    by_cases hq : s.conn.writeQueue = []
    · rcases happend vecs updatePoll rfl hs' hq with rfl | hout
      · rcases hw hs' hq with hquiet | hout | hawake
        · refine .inr (.inr (.inr (.inr ⟨?_, ?_⟩)))
          · simp only [exec, queueSignal]
            exact if_neg (by simpa [Connection.signals] using hquiet)
          · simp [exec, hq]
        · exact .inl hout
        · rcases hother hawake with hflush | ho
          · cases hflush
          · exact .inr (.inl ho)
      · exact .inl hout
    · rcases h.same rfl (by simp) (by simp) hs' hq with hout | ho
      · exact .inl hout
      · exact .inr (.inl ho)
  | checkMaxBuffer =>
    simp only [exec]
    split
    · exact covers_gone (by simp [Connection.stateChanged])
    · intro hs hq
      rcases h.covered hs hq with hout | ho | hflush | hmem
      · exact .inl hout
      · exact .inr (.inl ho)
      · cases hflush
      · refine .inr (.inr (.inr (.inr ⟨rfl, ?_⟩)))
        rcases List.mem_cons.mp hmem with heq | hmem
        · cases heq
        · exact hmem
  | sendCondition =>
    simp only [exec]
    split
    · exact covers_readWrite h.isSome rfl rfl
    · intro _ _
      exact .inr (.inr (.inr (.inl rfl)))
  | flushWriteQueue => exact covers_flush s.conn inIOThread input todo other h
  | doneWrites =>
    intro hs hq
    have hne : s.conn.writeQueue ≠ [] := hq
    simp only [exec, if_neg hne]
    exact .inl (watchesOut_setCondition (h.isSome hs) rfl)
  | doneFatal =>
    intro hs hq
    exact absurd (hw.2 hs) hq
  | ioHandler condition =>
    refine covers_same h rfl (by simp) (by simp) ?_
    simp only [exec]
    split
    all_goals rfl
  | bufferSpace condition =>
    refine covers_same h rfl (by simp) (by simp) ?_
    simp only [exec]
    split
    all_goals rfl
  | connectResult condition =>
    simp only [exec]
    repeat' split
    · intro _ _
      exact .inr (.inr (.inl ⟨.startFlush, List.mem_singleton.mpr rfl, rfl⟩))
    · exact covers_gone (by simp [Connection.stateChanged])
    · exact covers_gone (by simp [Connection.stateChanged])
    all_goals exact covers_same h rfl (by simp) (by simp) rfl
  | startFlush =>
    intro _ hq
    have hne : s.conn.writeQueue ≠ [] := by
      intro hnil
      simp [exec, hnil] at hq
    refine .inr (.inr (.inl ⟨.flushWriteQueue, ?_, rfl⟩))
    simp [exec, hne]
  | disconnect timedOut => exact covers_gone (by cases timedOut <;> simp [exec, Connection.stateChanged])
  | tryReconnect =>
    by_cases hfresh : (exec s.conn inIOThread input .tryReconnect).fresh = true
    · intro _ hq
      exact absurd (exec_fresh s.conn inIOThread input .tryReconnect hc hfresh).2.2 hq
    · refine covers_same h rfl (by simp) (by simp) ?_
      simp only [exec] at hfresh ⊢
      split
      all_goals simp_all
  | setMaxBuffer maxBufferBytes =>
    intro hs hq
    rcases h.same rfl (by simp) (by simp) hs hq with hout | ho
    · exact .inl hout
    · exact .inr (.inl ho)

theorem flushing_after (s : State) (inIOThread : Bool) (todo : List Segment) (e : Effect)
    (h : FlushIn (e.todo ++ todo) ∨ ∃ t ∈ s.suspended, FlushIn t.todo) :
    (s.after inIOThread todo e).flushing := by
  rcases h with hown | ⟨t, ht, hflush⟩
  · have hne : e.todo ++ todo ≠ [] := by
      intro hnil
      obtain ⟨x, hx, -⟩ := hown
      rw [hnil] at hx
      cases hx
    by_cases hlock : e.lock = .keeps
    · exact .inl ⟨⟨inIOThread, e.todo ++ todo⟩, if_pos ⟨hlock, hne⟩, hown⟩
    · refine .inr ⟨⟨inIOThread, e.todo ++ todo⟩, ?_, hown⟩
      simp only [State.after]
      rw [if_pos ⟨hlock, hne⟩]
      exact List.mem_cons_self
  · refine .inr ⟨t, ?_, hflush⟩
    simp only [State.after]
    split
    · exact List.mem_cons_of_mem _ ht
    · exact ht

theorem stateChanged_connecting {c : Connection} {status : Status}
    (h : (c.stateChanged status).status = .connecting) : (c.stateChanged status).watchesOut := by
  cases status with
  | connecting => exact ⟨.connect, rfl, rfl⟩
  | connected => cases h
  | disconnected => cases h
  | timeout => cases h

theorem stateChanged_tag {c : Connection} {status : Status}
    (h : (c.stateChanged status).accepts = true) :
    (c.stateChanged status).tag.isSome = true := by
  cases status with
  | connecting => rfl
  | connected => rfl
  | disconnected => cases h
  | timeout => cases h

theorem setCondition_tag {c : Connection} {condition : IOCondition} (h : c.tag.isSome = true) :
    (c.setCondition condition).tag.isSome = true := by
  simpa only [Connection.setCondition, Option.isSome_map] using h

theorem reconnect_conn (c : Connection) (inIOThread : Bool) (input : Input) :
    (exec c inIOThread input .tryReconnect).conn = c ∨
      ∃ status, (exec c inIOThread input .tryReconnect).conn = c.stateChanged status := by
  unfold exec
  dsimp only
  split
  · exact .inr ⟨_, rfl⟩
  · exact .inr ⟨_, rfl⟩
  · exact .inl rfl

theorem connectResult_conn (c : Connection) (inIOThread : Bool) (input : Input)
    (condition : IOCondition) :
    (exec c inIOThread input (.connectResult condition)).conn = c ∨
      (exec c inIOThread input (.connectResult condition)).conn = c.stateChanged .disconnected ∨
      (exec c inIOThread input (.connectResult condition)).conn =
        (c.setCondition .read).stateChanged .connected := by
  unfold exec
  dsimp only
  repeat' split
  all_goals
    first
      | exact .inl rfl
      | exact .inr (.inl rfl)
      | exact .inr (.inr rfl)

/-- A connection that is being made goes on watching for it. -/
theorem exec_connecting (s : State) (inIOThread : Bool) (input : Input) (segment : Segment)
    (hw : s.wakeful input segment)
    (htag : s.conn.accepts = true → s.conn.tag.isSome = true)
    (hout : s.conn.status = .connecting → s.conn.watchesOut)
    (hready : segment = .flushWriteQueue → s.conn.status = .connected ∨ s.conn.writeQueue ≠ [])
    (h : (exec s.conn inIOThread input segment).conn.status = .connecting) :
    (exec s.conn inIOThread input segment).conn.watchesOut := by
  have hset : s.conn.status = .connecting → (s.conn.setCondition .readWrite).watchesOut :=
    fun hs => watchesOut_setCondition (htag ((accepts_iff _).mpr (.inr hs))) rfl
  have hquiet : segment.quiet = true →
      (exec s.conn inIOThread input segment).conn.watchesOut := by
    intro hq
    rcases exec_quiet s.conn inIOThread input segment hq with he | he
    · rw [he] at h ⊢
      exact hout h
    · rw [he] at h ⊢
      exact hset h
  cases segment with
  | queueFlattened vecs updatePoll => exact hout h
  | checkMaxBuffer =>
    simp only [exec] at h ⊢
    by_cases he : s.conn.exceeds
    · rw [if_pos he] at h
      cases h
    · rw [if_neg he] at h ⊢
      exact hout h
  | flushWriteQueue =>
    cases hq : s.conn.writeQueue with
    | nil =>
      simp only [exec, hq] at h
      rcases hready rfl with hs | hne
      · rw [show s.conn.status = .connecting from h] at hs
        cases hs
      · exact absurd hq hne
    | cons qw queue =>
      simp only [exec, hq] at h ⊢
      cases ho : (writeData s.conn.status s.conn.nonblocking [qw] input.results).status with
      | ok n =>
        rw [ho] at h
        exact hout h
      | fatalError =>
        rw [ho] at h
        cases h
      | queuedData =>
        rw [ho] at h
        exact hset h
  | doneWrites =>
    have hs : s.conn.status = .connecting := h
    simp only [exec, if_neg (hw hs)]
    exact hset hs
  | doneFatal => exact absurd h hw.1
  | connectResult condition =>
    rcases connectResult_conn s.conn inIOThread input condition with he | he | he
    · rw [he] at h ⊢
      exact hout h
    · rw [he] at h
      cases h
    · rw [he] at h
      cases h
  | disconnect timedOut => cases timedOut <;> cases h
  | tryReconnect =>
    rcases reconnect_conn s.conn inIOThread input with he | ⟨status, he⟩
    · rw [he] at h ⊢
      exact hout h
    · rw [he] at h ⊢
      exact stateChanged_connecting h
  | setMaxBuffer maxBufferBytes => exact hout h
  | _ => exact hquiet rfl

theorem exec_tag (c : Connection) (inIOThread : Bool) (input : Input) (segment : Segment)
    (htag : c.accepts = true → c.tag.isSome = true)
    (h : (exec c inIOThread input segment).conn.accepts = true) :
    (exec c inIOThread input segment).conn.tag.isSome = true := by
  have hquiet : segment.quiet = true →
      (exec c inIOThread input segment).conn.tag.isSome = true := by
    intro hq
    rcases exec_quiet c inIOThread input segment hq with he | he
    · rw [he] at h ⊢
      exact htag h
    · rw [he] at h ⊢
      exact setCondition_tag (htag h)
  cases segment with
  | queueFlattened vecs updatePoll => exact htag h
  | checkMaxBuffer =>
    simp only [exec] at h ⊢
    by_cases he : c.exceeds
    · rw [if_pos he] at h
      cases h
    · rw [if_neg he] at h ⊢
      exact htag h
  | flushWriteQueue =>
    cases hq : c.writeQueue with
    | nil =>
      simp only [exec, hq] at h ⊢
      exact setCondition_tag (htag h)
    | cons qw queue =>
      simp only [exec, hq] at h ⊢
      cases ho : (writeData c.status c.nonblocking [qw] input.results).status with
      | ok n =>
        rw [ho] at h
        exact htag h
      | fatalError =>
        rw [ho] at h
        cases h
      | queuedData =>
        rw [ho] at h
        exact setCondition_tag (c := { c with writeQueue := _ :: queue }) (htag h)
  | doneWrites => exact setCondition_tag (htag h)
  | doneFatal => exact setCondition_tag (htag h)
  | connectResult condition =>
    rcases connectResult_conn c inIOThread input condition with he | he | he
    · rw [he] at h ⊢
      exact htag h
    · rw [he] at h ⊢
      exact stateChanged_tag h
    · rw [he] at h ⊢
      exact stateChanged_tag h
  | disconnect timedOut => exact stateChanged_tag h
  | tryReconnect =>
    rcases reconnect_conn c inIOThread input with he | ⟨status, he⟩
    · rw [he] at h ⊢
      exact htag h
    · rw [he] at h ⊢
      exact stateChanged_tag h
  | setMaxBuffer maxBufferBytes => exact htag h
  | _ => exact hquiet rfl

/-- An entry that is the first of the queue is added when the command or the watch will see to
it. -/
theorem exec_appending (c : Connection) (inIOThread : Bool) (input : Input) (segment : Segment)
    (hf : segment.fits c) (htag : c.accepts = true → c.tag.isSome = true)
    (vecs : List (List UInt8)) (updatePoll : Bool)
    (hmem : .queueFlattened vecs updatePoll ∈ (exec c inIOThread input segment).todo)
    (hs : (exec c inIOThread input segment).conn.status = .connected)
    (hq : (exec c inIOThread input segment).conn.writeQueue = []) :
    updatePoll = true ∨ (exec c inIOThread input segment).conn.watchesOut := by
  by_cases hw : segment.isWrite = true
  · cases segment with
    | writev vecs' block =>
      simp only [exec] at hmem
      repeat' split at hmem
      · simp_all
      all_goals simp at hmem
    | waitConnected vecs' block =>
      simp only [exec] at hmem
      repeat' split at hmem
      all_goals simp at hmem
    | startWrite vecs' block =>
      by_cases hd : c.status = .disconnected
      · simp [exec, hd] at hmem
      · by_cases hne : c.writeQueue ≠ []
        · simp only [exec, if_neg hd, if_pos hne] at hq
          exact absurd hq hne
        · simp [exec, hd, hne] at hmem
    | continueWrite vecs' block =>
      simp only [exec] at hmem hs hq ⊢
      cases ho : (writeData c.status c.nonblocking vecs' input.results).status with
      | ok n => simp [ho] at hmem
      | fatalError => simp [ho] at hmem
      | queuedData =>
        have hcon := status_of_queued ho
        have hout := watchesOut_setCondition (k := .readWrite)
          (htag ((accepts_iff c).mpr (.inl hcon))) rfl
        simp only [ho] at hmem
        by_cases hsafe : c.threadSafe
        · simp only [hsafe, if_true, List.mem_singleton, Segment.queueFlattened.injEq] at hmem
          exact .inl hmem.2
        · simp only [hsafe, Bool.false_eq_true, if_false]
          refine .inr ?_
          cases block with
          | true => exact hout
          | false => exact hout
    | queueFlattened vecs' updatePoll' =>
      simp only [exec] at hmem
      split at hmem
      all_goals simp at hmem
    | _ => cases hw
  · have hplain := exec_plain c inIOThread input segment (Bool.eq_false_iff.mpr hw) _ hmem
    cases hplain

/-- A flush goes off on a connection, or has something in the queue. -/
theorem exec_flushReady (c : Connection) (inIOThread : Bool) (input : Input) (segment : Segment)
    (hmem : .flushWriteQueue ∈ (exec c inIOThread input segment).todo) :
    (exec c inIOThread input segment).lock = .keeps ∧
      ((exec c inIOThread input segment).conn.status = .connected ∨
        (exec c inIOThread input segment).conn.writeQueue ≠ []) := by
  cases segment with
  | bufferSpace condition =>
    by_cases h : c.status = .connected ∧ condition.out
    · simp only [exec, if_pos h]
      exact ⟨trivial, .inl h.1⟩
    · simp [exec, h] at hmem
  | startFlush =>
    by_cases h : c.writeQueue ≠ []
    · simp only [exec, if_pos h]
      exact ⟨trivial, .inr h⟩
    · simp [exec, h] at hmem
  | _ =>
    exfalso
    unfold exec at hmem
    dsimp only at hmem
    repeat' split at hmem
    all_goals simp at hmem

/-- What a piece of code leaves behind the next one. -/
theorem exec_tail (c : Connection) (inIOThread : Bool) (input : Input) (segment x : Segment)
    (hx : x ∈ (exec c inIOThread input segment).todo.tail) :
    x ≠ .flushWriteQueue ∧
      (x = .sendCondition → segment.isWrite = true ∧
        (exec c inIOThread input segment).todo = [.checkMaxBuffer, .sendCondition]) := by
  cases segment with
  | queueFlattened vecs updatePoll =>
    simp only [exec] at hx ⊢
    split at hx
    · rename_i h
      simp only [List.tail_cons, List.mem_singleton] at hx
      rw [hx, if_pos h]
      exact ⟨by simp, fun _ => ⟨rfl, rfl⟩⟩
    · cases hx
  | _ =>
    unfold exec at hx
    dsimp only at hx
    repeat' split at hx
    all_goals
      simp only [List.tail_cons, List.tail_nil, List.mem_singleton, List.not_mem_nil] at hx
    all_goals
      rw [hx]
      exact ⟨by simp, by simp⟩

theorem exec_line (c : Connection) (inIOThread : Bool) (input : Input) (segment : Segment)
    (todo : List Segment) (hline : Line (segment :: todo)) (hshape : Shaped (segment :: todo)) :
    Line ((exec c inIOThread input segment).todo ++ todo) := by
  cases he : (exec c inIOThread input segment).todo with
  | nil => exact line_rest hline
  | cons y ys =>
    intro x hx
    rcases List.mem_append.mp hx with hown | hrest
    · have hown' := hown
      rw [← @List.tail_cons _ y ys, ← he] at hown'
      obtain ⟨hne, hsend⟩ := exec_tail c inIOThread input segment x hown'
      refine ⟨hne, fun h => ?_⟩
      obtain ⟨hw, htodo⟩ := hsend h
      rcases hshape.rest with hnil | ⟨hplain, -⟩
      · rw [hnil, List.append_nil, ← he]
        exact htodo
      · rw [hplain] at hw
        cases hw
    · obtain ⟨hne, hsend⟩ := hline x hrest
      refine ⟨hne, fun h => ?_⟩
      have hseg := (List.cons.inj (hsend h)).1
      rw [hseg] at he
      simp only [exec] at he
      split at he
      all_goals cases he

theorem running_after {s : State} {inIOThread : Bool} {todo : List Segment} {e : Effect}
    {t : Thread} (h : (s.after inIOThread todo e).running = some t) :
    e.lock = .keeps ∧ t = ⟨inIOThread, e.todo ++ todo⟩ := by
  simp only [State.after] at h
  split at h
  · rename_i hkeep
    exact ⟨hkeep.1, (Option.some.inj h).symm⟩
  · cases h

theorem suspended_after {s : State} {inIOThread : Bool} {todo : List Segment} {e : Effect}
    {t : Thread} (h : t ∈ (s.after inIOThread todo e).suspended) :
    e.lock ≠ .keeps ∧ t = ⟨inIOThread, e.todo ++ todo⟩ ∨ t ∈ s.suspended := by
  simp only [State.after] at h
  split at h
  · rename_i hdrop
    rcases List.mem_cons.mp h with rfl | h
    · exact .inl ⟨hdrop.1, rfl⟩
    · exact .inr h
  · exact .inr h

/-- Who wakes up the connection after the running call has gone on. -/
theorem covered_after (s : State) (inIOThread : Bool) (todo : List Segment) (e : Effect)
    (h : Covers e todo
      ((∃ t ∈ s.suspended, FlushIn t.todo) ∨ FlushIn todo ∨ 0 < s.commands))
    (hs : e.conn.status = .connected) (hq : e.conn.writeQueue ≠ []) :
    e.conn.watchesOut ∨ (s.after inIOThread todo e).flushing ∨
      0 < (s.after inIOThread todo e).commands ∨
      ∃ t, (s.after inIOThread todo e).running = some t ∧ Segment.sendCondition ∈ t.todo := by
  rcases h hs hq with hout | (hsus | hrest | hcmd) | hflush | hsend | ⟨hkeep, hmem⟩
  · exact .inl hout
  · exact .inr (.inl (flushing_after s inIOThread todo e (.inr hsus)))
  · obtain ⟨x, hx, hf⟩ := hrest
    exact .inr (.inl (flushing_after s inIOThread todo e
      (.inl ⟨x, List.mem_append_right _ hx, hf⟩)))
  · refine .inr (.inr (.inl ?_))
    simp only [State.after]
    split
    · exact Nat.succ_pos _
    · exact hcmd
  · obtain ⟨x, hx, hf⟩ := hflush
    exact .inr (.inl (flushing_after s inIOThread todo e
      (.inl ⟨x, List.mem_append_left _ hx, hf⟩)))
  · refine .inr (.inr (.inl ?_))
    simp only [State.after, hsend, if_true]
    exact Nat.succ_pos _
  · refine .inr (.inr (.inr ⟨⟨inIOThread, e.todo ++ todo⟩, if_pos ⟨hkeep, ?_⟩, hmem⟩))
    exact List.ne_nil_of_mem hmem

theorem ready_of_watched {s : State} {inIOThread : Bool} {segment : Segment}
    {todo : List Segment} (h : Watched s)
    (hrun : s.running = some ⟨inIOThread, segment :: todo⟩) :
    Ready s.conn segment todo
        ((∃ t ∈ s.suspended, FlushIn t.todo) ∨ FlushIn todo ∨ 0 < s.commands) ∧
      (s.flushing ∨ 0 < s.commands → segment.flushes = true ∨
        (∃ t ∈ s.suspended, FlushIn t.todo) ∨ FlushIn todo ∨ 0 < s.commands) := by
  have hflushing : s.flushing → segment.flushes = true ∨
      (∃ t ∈ s.suspended, FlushIn t.todo) ∨ FlushIn todo ∨ 0 < s.commands := by
    rintro (⟨t, ht, x, hx, hf⟩ | hsus)
    · rw [hrun] at ht
      cases ht
      rcases List.mem_cons.mp hx with rfl | hx
      · exact .inl hf
      · exact .inr (.inr (.inl ⟨x, hx, hf⟩))
    · exact .inr (.inl hsus)
  constructor
  · refine ⟨h.tag, fun hs hq => ?_, h.line _ hrun⟩
    rcases h.covered hs hq with hout | hfl | hcmd | ⟨t, ht, hmem⟩
    · exact .inl hout
    · rcases hflushing hfl with hf | ho
      · exact .inr (.inr (.inl hf))
      · exact .inr (.inl ho)
    · exact .inr (.inl (.inr (.inr hcmd)))
    · rw [hrun] at ht
      cases ht
      exact .inr (.inr (.inr hmem))
  · rintro (hfl | hcmd)
    · exact hflushing hfl
    · exact .inr (.inr (.inr hcmd))

theorem watched_after (s : State) (inIOThread : Bool) (input : Input) (segment : Segment)
    (todo : List Segment) (hc : Coherent s) (h : Watched s)
    (hrun : s.running = some ⟨inIOThread, segment :: todo⟩) (hw : s.wakeful input segment) :
    Watched (s.after inIOThread todo (exec s.conn inIOThread input segment)) := by
  obtain ⟨hshape, hfits⟩ := hc.running _ hrun
  have hf := hfits segment List.mem_cons_self
  have hline := h.line _ hrun
  have hlines := exec_line s.conn inIOThread input segment todo hline hshape
  obtain ⟨hready, hother⟩ := ready_of_watched h hrun
  have hrest : ∀ x ∈ todo, x.isWrite = false ∧ x ≠ .flushWriteQueue := by
    intro x hx
    refine ⟨?_, (hline x hx).1⟩
    rcases hshape.rest with rfl | ⟨-, hplain⟩
    · cases hx
    · exact hplain x hx
  constructor
  · exact exec_tag s.conn inIOThread input segment h.tag
  · refine exec_connecting s inIOThread input segment hw h.tag h.connecting ?_
    rintro rfl
    exact h.flushReady _ _ hrun
  · refine covered_after s inIOThread todo _ ?_
    refine exec_covers s inIOThread input segment todo _ hc.conn hother hw hready ?_
    rintro vecs updatePoll rfl
    exact h.appending _ _ _ _ hrun
  · intro inIOThread' vecs updatePoll todo' ht
    obtain ⟨-, heq⟩ := running_after ht
    have hmem : Segment.queueFlattened vecs updatePoll ∈
        (exec s.conn inIOThread input segment).todo ++ todo := by
      rw [← (Thread.mk.inj heq).2]
      exact List.mem_cons_self
    rcases List.mem_append.mp hmem with hmem | hmem
    · exact exec_appending s.conn inIOThread input segment hf h.tag vecs updatePoll hmem
    · have hplain := (hrest _ hmem).1
      cases hplain
  · intro inIOThread' todo' ht
    obtain ⟨-, heq⟩ := running_after ht
    have hmem : Segment.flushWriteQueue ∈
        (exec s.conn inIOThread input segment).todo ++ todo := by
      rw [← (Thread.mk.inj heq).2]
      exact List.mem_cons_self
    rcases List.mem_append.mp hmem with hmem | hmem
    · exact (exec_flushReady s.conn inIOThread input segment hmem).2
    · exact absurd rfl (hrest _ hmem).2
  · intro t ht
    rw [(running_after ht).2]
    exact hlines
  · intro t ht
    rcases suspended_after ht with ⟨hdrop, rfl⟩ | hold
    · refine ⟨hlines, fun hmem => ?_⟩
      rcases List.mem_append.mp hmem with hmem | hmem
      · exact hdrop (exec_flushReady s.conn inIOThread input segment hmem).1
      · exact absurd rfl (hrest _ hmem).2
    · exact h.lines t hold

theorem watched_step (s : State) (e : Event) (hc : Coherent s) (h : Watched s)
    (hw : Wakeful s e) : Watched (step s e) := by
  refine step_cases s e h ?_ ?_ ?_ ?_
  · intro inIOThread c _ hrun
    refine ⟨h.tag, h.connecting, fun hs hq => ?_, ?_, ?_, ?_, h.lines⟩
    · rcases h.covered hs hq with hout | hfl | hcmd | ⟨t, ht, -⟩
      · exact .inl hout
      · rcases hfl with ⟨t, ht, -⟩ | hsus
        · rw [hrun] at ht
          cases ht
        · exact .inr (.inl (.inr hsus))
      · exact .inr (.inr (.inl hcmd))
      · rw [hrun] at ht
        cases ht
    · intro io vecs updatePoll todo ht
      cases c <;> cases ht
    · intro io todo ht
      cases c <;> cases ht
    · intro t ht
      cases ht
      exact line_single _
  · rintro input inIOThread segment todo rfl hrun
    simp only [Wakeful, hrun] at hw
    exact watched_after s inIOThread input segment todo hc h hrun hw
  · intro i t _ hrun ht _
    have hmem := List.mem_of_getElem? ht
    refine ⟨h.tag, h.connecting, fun hs hq => ?_, ?_, ?_, ?_, ?_⟩
    · rcases h.covered hs hq with hout | hfl | hcmd | ⟨t', ht', -⟩
      · exact .inl hout
      · rcases hfl with ⟨t', ht', -⟩ | ⟨t', ht', hflush⟩
        · rw [hrun] at ht'
          cases ht'
        · refine .inr (.inl ?_)
          obtain ⟨j, hj⟩ := List.mem_iff_getElem?.mp ht'
          by_cases hji : j = i
          · rw [hji, ht] at hj
            cases hj
            exact .inl ⟨t, rfl, hflush⟩
          · exact .inr ⟨t', List.mem_eraseIdx_iff_getElem?.mpr ⟨j, hji, hj⟩, hflush⟩
      · exact .inr (.inr (.inl hcmd))
      · rw [hrun] at ht'
        cases ht'
    · intro io vecs updatePoll todo ht'
      cases ht'
      exact ((hc.suspended _ hmem).2 _ List.mem_cons_self).elim
    · intro io todo ht'
      cases ht'
      exact absurd List.mem_cons_self (h.lines _ hmem).2
    · intro t' ht'
      cases ht'
      exact (h.lines _ hmem).1
    · exact fun t' ht' => h.lines t' (List.mem_of_mem_eraseIdx ht')
  · intro _ hrun _
    have hset : s.conn.accepts = true → (s.conn.setCondition .readWrite).watchesOut :=
      fun ha => watchesOut_setCondition (h.tag ha) rfl
    refine ⟨fun ha => setCondition_tag (h.tag ha),
      fun hs => hset ((accepts_iff _).mpr (.inr hs)),
      fun hs _ => .inl (hset ((accepts_iff _).mpr (.inl hs))), ?_, ?_, ?_, h.lines⟩
    · intro io vecs updatePoll todo ht
      exact absurd (hrun.symm.trans ht) (by simp)
    · intro io todo ht
      exact absurd (hrun.symm.trans ht) (by simp)
    · intro t ht
      exact absurd (hrun.symm.trans ht) (by simp)

/-- A connect that is done, and that no input was reported with, is taken for what it is. -/
theorem connects_step (s : State) (e : Event) (hw : Wakeful s e) : Connects s e := by
  cases e with
  | run input =>
    simp only [Connects]
    split
    · rename_i inIOThread condition todo hrun
      intro hs hok hout herr
      simp only [Wakeful, hrun] at hw
      have hin := hw hs hok hout herr
      have hcond : condition = .outOnly := by
        obtain ⟨inConds, errConds, out⟩ := condition
        simp only at hin herr hout
        rw [hin, herr, hout]
        rfl
      have he : exec s.conn inIOThread input (.connectResult condition) =
          { conn := (s.conn.setCondition .read).stateChanged .connected, todo := [.startFlush],
            lock := .drops } := by
        simp [exec, hs, hok, hcond, IOCondition.outOnly]
      simp only [step, hrun, he]
      refine ⟨rfl, fun _ => flushing_after _ _ _ _ (.inl ⟨.startFlush, ?_, rfl⟩)⟩
      exact List.mem_cons_self
    · trivial
  | call inIOThread c => trivial
  | resume i => trivial
  | dispatch => trivial

theorem watched_initial (threadSafe nonblocking blockSignal : Bool) (maxBufferBytes : UInt64)
    (done : Bool) :
    Watched (initial threadSafe nonblocking blockSignal maxBufferBytes done) := by
  have hqueue : (initial threadSafe nonblocking blockSignal maxBufferBytes done).conn.writeQueue =
      [] := by
    cases done <;> cases nonblocking <;> rfl
  constructor
  · exact stateChanged_tag
  · exact stateChanged_connecting
  · exact fun _ hq => absurd hqueue hq
  · intro io vecs updatePoll todo ht
    cases ht
  · intro io todo ht
    cases ht
  · intro t ht
    cases ht
  · intro t ht
    cases ht

/-- In every run in which no input is reported before the connection is made, no flush ends on a
later connection, and BLOCKING does not come between the first entry of the queue and its
command: a connection with something to write will be woken up, one that is being made watches
for it, and a connect without an error makes it. -/
theorem no_stuck_queue (threadSafe nonblocking blockSignal : Bool) (maxBufferBytes : UInt64)
    (done : Bool) (es : List Event)
    (hw : Runs.Meets step Wakeful
      (initial threadSafe nonblocking blockSignal maxBufferBytes done) es) :
    Runs.Always step
        (fun s => s.running = none →
          NotStuck s ∧ (s.conn.status = .connecting → s.conn.watchesOut))
        (initial threadSafe nonblocking blockSignal maxBufferBytes done) es ∧
      Runs.Meets step Connects
        (initial threadSafe nonblocking blockSignal maxBufferBytes done) es := by
  have hinit := coherent_initial threadSafe nonblocking blockSignal maxBufferBytes done
  have hwatched := watched_initial threadSafe nonblocking blockSignal maxBufferBytes done
  have hstep : ∀ s e, Coherent s ∧ Watched s → Wakeful s e →
      Coherent (step s e) ∧ Watched (step s e) :=
    fun s e h hw => ⟨coherent_step s e h.1, watched_step s e h.1 h.2 hw⟩
  constructor
  · refine (hw.always hstep ⟨hinit, hwatched⟩).imp ?_
    rintro s ⟨-, h⟩ hrun
    refine ⟨fun hs hq => ?_, h.connecting⟩
    rcases h.covered hs hq with hout | hfl | hcmd | ⟨t, ht, -⟩
    · exact .inl hout
    · exact .inr (.inl hfl)
    · exact .inr (.inr hcmd)
    · rw [hrun] at ht
      cases ht
  · exact hw.imp hstep (fun s e _ hw => connects_step s e hw) ⟨hinit, hwatched⟩

/-- A message is written before the connection is made; the connect is done, and the flush
writes it. -/
def writtenEarly : List Event :=
  let take (results : List WriteResult) : Event := .run ⟨results, true, none⟩
  [.call false (.writev [[1]] false), take [], take [], take [], take [], .dispatch,
    .call true (.ioHandler .outOnly), take [], take [], take [], .resume 0, take [],
    take [.wrote 1], take [], take []]

theorem no_stuck_queue_early :
    Runs.Always step
        (fun s => s.running = none →
          NotStuck s ∧ (s.conn.status = .connecting → s.conn.watchesOut))
        (initial true true false 0 false) writtenEarly ∧
      Runs.Meets step Connects (initial true true false 0 false) writtenEarly :=
  no_stuck_queue true true false 0 false writtenEarly (by decide)

/-- The same, but the peer has sent something before the connect is done. -/
def sentEarly : List Event :=
  let take : Event := .run ⟨[], true, none⟩
  [.call true (.writev [[1]] false), take, take, take, take,
    .call true (.ioHandler ⟨true, false, true⟩), take, take, take]

/-- A good connect is taken for an error. -/
theorem connect_taken_for_error :
    ¬ ∀ (threadSafe nonblocking blockSignal : Bool) (maxBufferBytes : UInt64) (done : Bool)
      (es : List Event),
      Runs.Always step
          (fun s => s.running = none →
            NotStuck s ∧ (s.conn.status = .connecting → s.conn.watchesOut))
          (initial threadSafe nonblocking blockSignal maxBufferBytes done) es ∧
        Runs.Meets step Connects
          (initial threadSafe nonblocking blockSignal maxBufferBytes done) es := by
  intro h
  have hlast := (h true true false 0 false sentEarly).2.2.2.2.2.2.2.2.2.1
  exact absurd (hlast (by decide) rfl rfl rfl).1 (by decide)

end ORBit2.Link
