import ORBit2.LinkConnection

/-! Where the calls on a connection can stand, and what the connection is like then. -/

set_option autoImplicit false

namespace ORBit2.Link

def Segment.isWrite : Segment → Bool
  | .writev .. | .waitConnected .. | .startWrite .. | .continueWrite .. | .queueFlattened .. => true
  | _ => false

/-- A call that writes does nothing else. -/
def Shaped (todo : List Segment) : Prop :=
  (∃ segment, todo = [segment]) ∨ ∀ segment ∈ todo, segment.isWrite = false

/-- What is known of the connection when the running call comes to a piece of code. -/
def Segment.fits (c : Connection) : Segment → Prop
  | .waitConnected _ _ => c.threadSafe = false
  | .startWrite _ _ => c.status ≠ .connecting
  | .continueWrite _ block => c.threadSafe = true ∨ block = false → c.writeQueue = []
  | .queueFlattened _ _ => c.status = .connected ∨ c.status = .connecting ∧ c.threadSafe = true
  | _ => True

/-- What is known when a call has dropped the lock before a piece of code. -/
def Segment.parked (c : Connection) : Segment → Prop
  | .waitConnected _ _ => c.threadSafe = false
  | .continueWrite _ block => c.threadSafe = false ∧ block = true
  | .writev .. | .startWrite .. | .queueFlattened .. => False
  | _ => True

/-- Where the queue can hold something. -/
structure Connection.Coherent (c : Connection) : Prop where
  nonblocking : c.status = .connecting → c.nonblocking = true
  connecting : c.status = .connecting → c.threadSafe = false → c.writeQueue = []
  gone : c.accepts = false → c.writeQueue = []

structure Coherent (s : State) : Prop where
  conn : s.conn.Coherent
  running : ∀ t, s.running = some t → Shaped t.todo ∧ ∀ segment ∈ t.todo, segment.fits s.conn
  suspended : ∀ t ∈ s.suspended, Shaped t.todo ∧ ∀ segment ∈ t.todo, segment.parked s.conn

theorem accepts_iff (c : Connection) :
    c.accepts = true ↔ c.status = .connected ∨ c.status = .connecting := by
  simp only [Connection.accepts, decide_eq_true_eq]

theorem Segment.parked.fits {c : Connection} {segment : Segment} (h : segment.parked c) :
    segment.fits c := by
  cases segment with
  | continueWrite vecs block =>
    obtain ⟨hsafe, rfl⟩ := h
    rintro (hs | hb)
    · rw [hsafe] at hs
      cases hs
    · cases hb
  | waitConnected vecs block => exact h
  | writev vecs block => exact h.elim
  | startWrite vecs block => exact h.elim
  | queueFlattened vecs updatePoll => exact h.elim
  | _ => trivial

theorem fits_of_plain {c : Connection} {segment : Segment} (h : segment.isWrite = false) :
    segment.fits c := by
  cases segment with
  | writev vecs block => cases h
  | waitConnected vecs block => cases h
  | startWrite vecs block => cases h
  | continueWrite vecs block => cases h
  | queueFlattened vecs updatePoll => cases h
  | _ => trivial

theorem parked_of_plain {c : Connection} {segment : Segment} (h : segment.isWrite = false) :
    segment.parked c := by
  cases segment with
  | writev vecs block => cases h
  | waitConnected vecs block => cases h
  | startWrite vecs block => cases h
  | continueWrite vecs block => cases h
  | queueFlattened vecs updatePoll => cases h
  | _ => trivial

theorem stateChanged_mode (c : Connection) (status : Status) :
    (c.stateChanged status).threadSafe = c.threadSafe ∧
      (c.stateChanged status).nonblocking = c.nonblocking ∧
      (c.stateChanged status).status = status := by
  cases status <;> exact ⟨rfl, rfl, rfl⟩

/-- The modes of a connection do not change. -/
theorem exec_mode (c : Connection) (inIOThread : Bool) (input : Input) (segment : Segment) :
    (exec c inIOThread input segment).conn.threadSafe = c.threadSafe ∧
      (exec c inIOThread input segment).conn.nonblocking = c.nonblocking := by
  cases segment with
  | disconnect timedOut => cases timedOut <;> exact ⟨rfl, rfl⟩
  | tryReconnect =>
    unfold exec
    dsimp only
    split
    · exact ⟨(stateChanged_mode _ _).1, (stateChanged_mode _ _).2.1⟩
    · exact ⟨(stateChanged_mode _ _).1, (stateChanged_mode _ _).2.1⟩
    · exact ⟨rfl, rfl⟩
  | _ =>
    unfold exec
    dsimp only
    repeat' split
    all_goals exact ⟨rfl, rfl⟩

theorem status_of_queued {status : Status} {nonblocking : Bool} {vecs : List (List UInt8)}
    {results : List WriteResult}
    (h : (writeData status nonblocking vecs results).status = .queuedData) :
    status = .connected := by
  unfold writeData at h
  by_cases hs : status ≠ .connected
  · rw [if_pos hs] at h
    cases h
  · exact not_not.mp hs

/-- What is to be done next, and what is known when it is. -/
structure Follows (c : Connection) (lock : LockUse) (todo : List Segment) : Prop where
  shaped : Shaped todo
  fits : ∀ segment ∈ todo, segment.fits c
  parked : lock ≠ .keeps → ∀ segment ∈ todo, segment.parked c

theorem Follows.nothing (c : Connection) (lock : LockUse) : Follows c lock [] :=
  ⟨.inr fun _ h => absurd h List.not_mem_nil, fun _ h => absurd h List.not_mem_nil,
    fun _ _ h => absurd h List.not_mem_nil⟩

theorem Follows.keeping {c : Connection} {segment : Segment} (h : segment.fits c) :
    Follows c .keeps [segment] := by
  refine ⟨.inl ⟨segment, rfl⟩, ?_, fun hk => absurd rfl hk⟩
  intro x hx
  rw [List.mem_singleton.mp hx]
  exact h

theorem Follows.dropping {c : Connection} {lock : LockUse} {segment : Segment}
    (h : segment.parked c) : Follows c lock [segment] := by
  refine ⟨.inl ⟨segment, rfl⟩, ?_, ?_⟩
  · intro x hx
    rw [List.mem_singleton.mp hx]
    exact h.fits
  · intro _ x hx
    rw [List.mem_singleton.mp hx]
    exact h

theorem Follows.plain {c : Connection} {lock : LockUse} {todo : List Segment}
    (h : ∀ segment ∈ todo, segment.isWrite = false) : Follows c lock todo :=
  ⟨.inr h, fun x hx => fits_of_plain (h x hx), fun _ x hx => parked_of_plain (h x hx)⟩

/-- A piece of code that writes leads to another one, or to what the queue needs. -/
theorem exec_write_follows (c : Connection) (inIOThread : Bool) (input : Input)
    (segment : Segment) (hc : c.Coherent) (hf : segment.fits c) (hw : segment.isWrite = true) :
    Follows (exec c inIOThread input segment).conn (exec c inIOThread input segment).lock
      (exec c inIOThread input segment).todo := by
  cases segment with
  | writev vecs block =>
    simp only [exec]
    by_cases hsafe : c.threadSafe
    · simp only [hsafe, if_true]
      by_cases hs : c.status = .connecting
      · rw [if_pos hs]
        exact Follows.keeping (.inr ⟨hs, hsafe⟩)
      · rw [if_neg hs]
        exact Follows.keeping hs
    · rw [if_neg hsafe]
      by_cases hs : c.nonblocking ∧ c.status = .connecting
      · rw [if_pos hs]
        exact Follows.keeping (Bool.eq_false_iff.mpr hsafe)
      · rw [if_neg hs]
        refine Follows.keeping fun hcon => hs ⟨hc.nonblocking hcon, hcon⟩
  | waitConnected vecs block =>
    simp only [exec]
    by_cases hs : c.status = .connecting
    · rw [if_pos hs]
      exact Follows.dropping hf
    · rw [if_neg hs]
      exact Follows.keeping hs
  | startWrite vecs block =>
    simp only [exec]
    by_cases hd : c.status = .disconnected
    · rw [if_pos hd]
      exact Follows.nothing _ _
    · rw [if_neg hd]
      by_cases hq : c.writeQueue ≠ []
      · rw [if_pos hq]
        refine Follows.keeping (.inl ?_)
        by_contra hs
        exact hq (hc.gone (by simp [Connection.accepts, hs, show c.status ≠ .connecting from hf]))
      · rw [if_neg hq]
        exact Follows.keeping fun _ => not_not.mp hq
  | continueWrite vecs block =>
    simp only [exec]
    cases ho : (writeData c.status c.nonblocking vecs input.results).status with
    | queuedData =>
      have hs := status_of_queued ho
      by_cases hsafe : c.threadSafe
      · simp only [hsafe, if_true]
        exact Follows.keeping (.inl hs)
      · simp only [hsafe, Bool.false_eq_true, if_false]
        cases block with
        | true =>
          simp only [if_true]
          exact Follows.dropping ⟨Bool.eq_false_iff.mpr hsafe, rfl⟩
        | false =>
          simp only [Bool.false_eq_true, if_false]
          exact Follows.keeping (.inl hs)
    | ok n => exact Follows.nothing _ _
    | fatalError => exact Follows.nothing _ _
  | queueFlattened vecs updatePoll =>
    refine Follows.plain fun x hx => ?_
    simp only [exec] at hx
    split at hx
    · simp only [List.mem_cons, List.not_mem_nil, or_false] at hx
      rcases hx with rfl | rfl <;> rfl
    · simp only [List.mem_cons, List.not_mem_nil, or_false] at hx
      rw [hx]
      rfl
  | _ => cases hw

/-- The others lead to nothing that writes. -/
theorem exec_plain (c : Connection) (inIOThread : Bool) (input : Input) (segment : Segment)
    (hw : segment.isWrite = false) :
    ∀ x ∈ (exec c inIOThread input segment).todo, x.isWrite = false := by
  intro x hx
  cases segment with
  | writev vecs block => cases hw
  | waitConnected vecs block => cases hw
  | startWrite vecs block => cases hw
  | continueWrite vecs block => cases hw
  | queueFlattened vecs updatePoll => cases hw
  | _ =>
    simp only [exec] at hx
    repeat' split at hx
    all_goals
      simp only [List.mem_cons, List.not_mem_nil, or_false] at hx
    all_goals rcases hx with rfl | rfl <;> rfl

theorem coherent_congr {c c' : Connection} (hc : c.Coherent) (hs : c'.status = c.status)
    (hn : c'.nonblocking = c.nonblocking) (ht : c'.threadSafe = c.threadSafe)
    (hq : c'.writeQueue = c.writeQueue) : c'.Coherent := by
  constructor
  · rw [hs, hn]
    exact hc.nonblocking
  · rw [hs, ht, hq]
    exact hc.connecting
  · rw [Connection.accepts, hs, hq]
    exact hc.gone

theorem coherent_gone (c : Connection) (timedOut : Bool) :
    (c.stateChanged (if timedOut then .timeout else .disconnected)).Coherent := by
  cases timedOut
  all_goals
    constructor
    · intro h
      cases h
    · intro h
      cases h
    · intro _
      rfl

theorem coherent_connected (c : Connection) : (c.stateChanged .connected).Coherent := by
  constructor
  all_goals
    intro h
    cases h

theorem coherent_connecting {c : Connection} (hn : c.nonblocking = true) (hq : c.writeQueue = []) :
    (c.stateChanged .connecting).Coherent := by
  constructor
  · exact fun _ => hn
  · exact fun _ _ => hq
  · exact fun _ => hq

/-- The queue of a connection that writes can be anything. -/
theorem coherent_queue {c : Connection} (hc : c.Coherent) {queue : List (List UInt8)}
    (bytes : UInt64)
    (hs : c.status = .connected ∨ c.status = .connecting ∧ c.threadSafe = true) :
    ({ c with writeQueue := queue, writeQueueBytes := bytes } : Connection).Coherent := by
  constructor
  · exact hc.nonblocking
  · intro h ht
    rcases hs with hs | ⟨-, hs⟩
    · rw [show c.status = .connecting from h] at hs
      cases hs
    · rw [show c.threadSafe = false from ht] at hs
      cases hs
  · intro h
    rcases hs with hs | ⟨hs, -⟩
    all_goals simp [Connection.accepts, hs] at h

theorem writes_of_queue {c : Connection} (hc : c.Coherent) (hq : c.writeQueue ≠ []) :
    c.status = .connected ∨ c.status = .connecting ∧ c.threadSafe = true := by
  by_cases hs : c.status = .connected
  · exact .inl hs
  · refine .inr ?_
    have hcon : c.status = .connecting := by
      by_contra hcon
      exact hq (hc.gone (by simp [Connection.accepts, hs, hcon]))
    refine ⟨hcon, ?_⟩
    by_contra hsafe
    exact hq (hc.connecting hcon (Bool.eq_false_iff.mpr hsafe))

theorem exec_coherent (c : Connection) (inIOThread : Bool) (input : Input) (segment : Segment)
    (hc : c.Coherent) (hf : segment.fits c) : (exec c inIOThread input segment).conn.Coherent := by
  cases segment with
  | queueFlattened vecs updatePoll => exact coherent_queue hc _ hf
  | checkMaxBuffer =>
    simp only [exec]
    split
    · exact coherent_gone c false
    · exact hc
  | flushWriteQueue =>
    cases hq : c.writeQueue with
    | nil =>
      simp only [exec, hq]
      exact coherent_congr hc rfl rfl rfl rfl
    | cons qw queue =>
      have hs := writes_of_queue hc (by rw [hq]; exact List.cons_ne_nil _ _)
      simp only [exec, hq]
      cases (writeData c.status c.nonblocking [qw] input.results).status with
      | ok n => exact coherent_queue hc _ hs
      | fatalError => exact coherent_gone c false
      | queuedData =>
        exact coherent_congr (coherent_queue hc c.writeQueueBytes hs) rfl rfl rfl rfl
  | connectResult condition =>
    simp only [exec]
    repeat' split
    · exact coherent_connected _
    · exact coherent_gone c false
    · exact coherent_gone c false
    all_goals exact hc
  | disconnect timedOut => exact coherent_gone c timedOut
  | tryReconnect =>
    have hopen : ∀ done : Bool, c.accepts = false →
        (c.stateChanged (if done ∨ ¬ c.nonblocking then .connected else .connecting)).Coherent := by
      intro done ha
      by_cases hd : done ∨ ¬ c.nonblocking
      · rw [if_pos hd]
        exact coherent_connected c
      · rw [if_neg hd]
        push Not at hd
        exact coherent_connecting hd.2 (hc.gone ha)
    cases hs : c.status <;> cases hi : input.initiated <;> simp only [exec, hs, hi]
    case disconnected.some done => exact hopen done (by simp [Connection.accepts, hs])
    case timeout.some done => exact hopen done (by simp [Connection.accepts, hs])
    all_goals exact hc
  | _ =>
    simp only [exec]
    repeat' split
    all_goals exact coherent_congr hc rfl rfl rfl rfl

/-- A connection comes to be only by a new socket, and waits for one only then. -/
theorem exec_status (c : Connection) (inIOThread : Bool) (input : Input) (segment : Segment) :
    ((exec c inIOThread input segment).conn.accepts = true →
        (exec c inIOThread input segment).fresh = true ∨ c.accepts = true) ∧
      ((exec c inIOThread input segment).conn.status = .connecting →
        segment = .tryReconnect ∨ c.status = .connecting) := by
  cases segment with
  | disconnect timedOut =>
    cases timedOut
    all_goals
      constructor
      all_goals
        intro h
        cases h
  | _ =>
    unfold exec
    dsimp only
    repeat' split
    all_goals simp_all [Connection.stateChanged, accepts_iff, Connection.setCondition, queueSignal]

/-- A new socket begins with an empty queue. -/
theorem exec_fresh (c : Connection) (inIOThread : Bool) (input : Input) (segment : Segment)
    (hc : c.Coherent) (h : (exec c inIOThread input segment).fresh = true) :
    segment = .tryReconnect ∧ (exec c inIOThread input segment).todo = [] ∧
      (exec c inIOThread input segment).conn.writeQueue = [] := by
  cases segment with
  | tryReconnect =>
    have hq : ∀ status : Status, c.accepts = false → (c.stateChanged status).writeQueue = [] := by
      intro status ha
      cases status
      · exact hc.gone ha
      · exact hc.gone ha
      · rfl
      · rfl
    cases hs : c.status <;> cases hi : input.initiated <;> simp only [exec, hs, hi] at h ⊢
    case disconnected.some done =>
      exact ⟨trivial, trivial, hq _ (by simp [Connection.accepts, hs])⟩
    case timeout.some done =>
      exact ⟨trivial, trivial, hq _ (by simp [Connection.accepts, hs])⟩
    all_goals cases h
  | _ =>
    exfalso
    unfold exec at h
    dsimp only at h
    repeat' split at h
    all_goals cases h

theorem parked_of_exec {c : Connection} {inIOThread : Bool} {input : Input} {segment x : Segment}
    (hx : x.parked c) : x.parked (exec c inIOThread input segment).conn := by
  have hsafe := (exec_mode c inIOThread input segment).1
  cases x with
  | waitConnected vecs block => exact hsafe.trans hx
  | continueWrite vecs block => exact ⟨hsafe.trans hx.1, hx.2⟩
  | writev vecs block => exact hx
  | startWrite vecs block => exact hx
  | queueFlattened vecs updatePoll => exact hx
  | _ => trivial

theorem Shaped.rest {segment : Segment} {todo : List Segment} (h : Shaped (segment :: todo)) :
    todo = [] ∨ segment.isWrite = false ∧ ∀ x ∈ todo, x.isWrite = false := by
  rcases h with ⟨x, hx⟩ | h
  · exact .inl (List.cons.inj hx).2
  · exact .inr ⟨h segment List.mem_cons_self, fun x hx => h x (List.mem_cons_of_mem _ hx)⟩

/-- What is to be done after a piece of code, with what stood behind it. -/
theorem after_follows (c : Connection) (inIOThread : Bool) (input : Input) (segment : Segment)
    (todo : List Segment) (hc : c.Coherent) (hshape : Shaped (segment :: todo))
    (hf : segment.fits c) :
    Follows (exec c inIOThread input segment).conn (exec c inIOThread input segment).lock
      ((exec c inIOThread input segment).todo ++ todo) := by
  have hplain : segment.isWrite = false → (∀ x ∈ todo, x.isWrite = false) →
      Follows (exec c inIOThread input segment).conn (exec c inIOThread input segment).lock
        ((exec c inIOThread input segment).todo ++ todo) := by
    intro hw htodo
    refine Follows.plain fun x hx => ?_
    rcases List.mem_append.mp hx with hx | hx
    · exact exec_plain c inIOThread input segment hw x hx
    · exact htodo x hx
  rcases hshape.rest with hnil | ⟨hw, htodo⟩
  · by_cases hw : segment.isWrite = true
    · rw [hnil, List.append_nil]
      exact exec_write_follows c inIOThread input segment hc hf hw
    · rw [hnil] at hplain ⊢
      exact hplain (Bool.eq_false_iff.mpr hw) fun x hx => absurd hx List.not_mem_nil
  · exact hplain hw htodo

theorem coherent_after (s : State) (inIOThread : Bool) (input : Input) (segment : Segment)
    (todo : List Segment) (h : Coherent s)
    (hrun : s.running = some ⟨inIOThread, segment :: todo⟩) :
    Coherent (s.after inIOThread todo (exec s.conn inIOThread input segment)) := by
  obtain ⟨hshape, hfits⟩ := h.running _ hrun
  have hf := hfits segment List.mem_cons_self
  have hfollows := after_follows s.conn inIOThread input segment todo h.conn hshape hf
  have hold : ∀ t ∈ s.suspended, Shaped t.todo ∧
      ∀ x ∈ t.todo, x.parked (exec s.conn inIOThread input segment).conn := by
    intro t ht
    obtain ⟨hs, hp⟩ := h.suspended t ht
    exact ⟨hs, fun x hx => parked_of_exec (hp x hx)⟩
  constructor
  · exact exec_coherent s.conn inIOThread input segment h.conn hf
  · intro t ht
    simp only [State.after] at ht
    split at ht
    · cases ht
      exact ⟨hfollows.shaped, hfollows.fits⟩
    · cases ht
  · intro t ht
    simp only [State.after] at ht
    split at ht
    · rename_i hlock
      rcases List.mem_cons.mp ht with rfl | ht
      · exact ⟨hfollows.shaped, hfollows.parked hlock.1⟩
      · exact hold t ht
    · exact hold t ht

theorem parked_setCondition {c : Connection} {condition : IOCondition} {segment : Segment} :
    segment.parked (c.setCondition condition) ↔ segment.parked c := by
  cases segment <;> rfl

theorem coherent_step (s : State) (e : Event) (h : Coherent s) : Coherent (step s e) := by
  refine step_cases s e h ?_ ?_ ?_ ?_
  · intro inIOThread c _ _
    refine ⟨h.conn, ?_, h.suspended⟩
    intro t ht
    cases ht
    refine ⟨.inl ⟨c.segment, rfl⟩, fun x hx => ?_⟩
    rw [List.mem_singleton.mp hx]
    cases c <;> trivial
  · intro input inIOThread segment todo _ hrun
    exact coherent_after s inIOThread input segment todo h hrun
  · intro i t _ _ ht _
    obtain ⟨hs, hp⟩ := h.suspended t (List.mem_of_getElem? ht)
    refine ⟨h.conn, ?_, fun t' ht' => h.suspended t' (List.mem_of_mem_eraseIdx ht')⟩
    intro t' ht'
    cases ht'
    exact ⟨hs, fun x hx => (hp x hx).fits⟩
  · intro _ hrun _
    refine ⟨coherent_congr h.conn rfl rfl rfl rfl, fun t ht => ?_, fun t ht => ?_⟩
    · exact absurd (hrun.symm.trans ht) (by simp)
    · obtain ⟨hs, hp⟩ := h.suspended t ht
      exact ⟨hs, fun x hx => parked_setCondition.mpr (hp x hx)⟩

theorem coherent_initial (threadSafe nonblocking blockSignal : Bool) (maxBufferBytes : UInt64)
    (done : Bool) :
    Coherent (initial threadSafe nonblocking blockSignal maxBufferBytes done) := by
  constructor
  · simp only [initial]
    by_cases hd : done ∨ ¬ nonblocking
    · rw [if_pos hd]
      exact coherent_connected _
    · rw [if_neg hd]
      push Not at hd
      exact coherent_connecting hd.2 rfl
  · intro t ht
    cases ht
  · intro t ht
    cases ht

end ORBit2.Link
