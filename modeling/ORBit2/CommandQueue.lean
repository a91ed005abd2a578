import ORBit2.Base.Runs

/-! The commands to the I/O thread (linc.c): `link_exec_command`, the thread and its end. -/

set_option autoImplicit false

namespace ORBit2.Command

open Runs

/-- `LinkCommandType`. -/
inductive CommandType where
  | setCondition
  | disconnect
  | setIOThread
  | cnxUnref
  deriving DecidableEq, Repr

/-- A command, with the call it was passed in and the thread that made the call. -/
structure Cmd where
  id : Nat
  thread : Nat
  type : CommandType
  deriving DecidableEq, Repr

/-- `cmd_is_sync`. -/
def Cmd.isSync (cmd : Cmd) : Bool := cmd.type == .setIOThread || cmd.type == .cnxUnref

/-- Where a thread stands in `link_exec_command`. -/
inductive Pc where
  | entered
  | immediate
  | toQueue
  | waiting
  deriving DecidableEq, Repr

structure Call where
  cmd : Cmd
  pc : Pc
  deriving DecidableEq, Repr

/-- Where the I/O thread stands in `link_io_thread_fn`. -/
inductive Loop where
  | notStarted
  | running
  | ended
  | closed
  deriving DecidableEq, Repr

/-- Thread 0 is the I/O thread. `wakeup` is the number of bytes in the wake-up pipe, `none` when
LINK_WAKEUP_WRITE is -1; `batch` is what `link_mainloop_handle_input` has taken from the queue and
has not dispatched. `passed`, `log`, `complete` and `returned` are histories: the commands in the
order of the calls and of their dispatch, those marked complete, those whose call is over. -/
structure State where
  ioInThread : Bool
  ioThread : Bool
  loop : Loop
  quit : Bool
  wakeup : Option Nat
  queue : List Cmd
  batch : List Cmd
  calls : Nat → Option Call
  passed : List Cmd
  log : List Cmd
  complete : List Cmd
  returned : List Cmd

namespace State

/-- `link_in_io_thread`. -/
def inIOThread (s : State) (t : Nat) : Bool := !s.ioThread || t == 0

def setCall (s : State) (t : Nat) (call : Option Call) : State :=
  { s with calls := Function.update s.calls t call }

/-- `link_exec_set_io_thread`. -/
def execSetIOThread (s : State) : State :=
  if s.ioInThread then s
  else { s with ioInThread := true, ioThread := true, wakeup := some 0, loop := .running }

/-- `link_dispatch_command`. -/
def dispatch (s : State) (cmd : Cmd) : State :=
  let s := { s with log := s.log ++ [cmd] }
  if cmd.type = .setIOThread then s.execSetIOThread else s

end State

inductive Event where
  | exec (t : Nat) (type : CommandType)
  | check (t : Nat)
  | dispatchNow (t : Nat)
  | lockQueue (t : Nat)
  | wake (t : Nat)
  | handleInput
  | dispatchBatch
  | quit
  | loopEnds
  | close
  | join
  deriving DecidableEq, Repr

def step (s : State) : Event → State
  | .exec t type =>
      -- the I/O thread calls only while there is one
      if s.calls t = none ∧ (t = 0 → s.loop = .running ∨ s.loop = .ended) then
        let cmd : Cmd := ⟨s.passed.length, t, type⟩
        { s.setCall t (some ⟨cmd, .entered⟩) with passed := s.passed ++ [cmd] }
      else s
  | .check t =>
      match s.calls t with
      | some ⟨cmd, .entered⟩ =>
          s.setCall t (some ⟨cmd, if s.inIOThread t then .immediate else .toQueue⟩)
      | _ => s
  | .dispatchNow t =>
      match s.calls t with
      | some ⟨cmd, .immediate⟩ =>
          { (s.setCall t none).dispatch cmd with returned := s.returned ++ [cmd] }
      | _ => s
  | .lockQueue t =>
      match s.calls t with
      | some ⟨cmd, .toQueue⟩ =>
          match s.wakeup with
          | none => s.setCall t (some ⟨cmd, .immediate⟩)
          | some bytes =>
              { s.setCall t (if cmd.isSync then some ⟨cmd, .waiting⟩ else none) with
                wakeup := some (if s.queue = [] then bytes + 1 else bytes)
                queue := s.queue ++ [cmd]
                returned := if cmd.isSync then s.returned else s.returned ++ [cmd] }
      | _ => s
  | .wake t =>
      match s.calls t with
      | some ⟨cmd, .waiting⟩ =>
          if cmd ∈ s.complete then
            { s.setCall t none with returned := s.returned ++ [cmd] }
          else s
      | _ => s
  | .handleInput =>
      match s.wakeup with
      | some (bytes + 1) =>
          if s.loop = .running ∧ s.batch = [] then
            { s with wakeup := some bytes, batch := s.queue, queue := [] }
          else s
      | _ => s
  | .dispatchBatch =>
      match s.batch with
      | [] => s
      | cmd :: batch =>
          { { s with batch := batch }.dispatch cmd with
            complete := if cmd.isSync then s.complete ++ [cmd] else s.complete }
  | .quit => if s.loop = .notStarted then s else { s with quit := true }
  | .loopEnds =>
      if s.loop = .running ∧ s.quit = true ∧ s.batch = [] then { s with loop := .ended } else s
  | .close => if s.loop = .ended then { s with loop := .closed, wakeup := none } else s
  | .join => if s.loop = .closed then { s with ioThread := false } else s

def initial : State where
  ioInThread := false
  ioThread := false
  loop := .notStarted
  quit := false
  wakeup := none
  queue := []
  batch := []
  calls := fun _ => none
  passed := []
  log := []
  complete := []
  returned := []

/-- The commands of one thread. -/
def ofThread (t : Nat) (cmds : List Cmd) : List Cmd := cmds.filter fun cmd => cmd.thread = t

/-- The command that a thread has passed and that is not in the queue yet. -/
def entering : Option Call → List Cmd
  | none | some ⟨_, .waiting⟩ => []
  | some ⟨cmd, _⟩ => [cmd]

/-- What was dispatched, what is being dispatched, what is queued and what is about to be are, for
each thread, the commands it has passed, in its order; no command was dispatched twice; what is
queued has the I/O thread woken up for it; who waits for a command waits for one that is on its way
and that the I/O thread gives back by itself, and who has got one back has it dispatched. -/
structure Dispatched (s : State) : Prop where
  ordered : ∀ t, ofThread t s.log ++ ofThread t s.batch ++ ofThread t s.queue ++ entering (s.calls t) =
    ofThread t s.passed
  once : s.log.Nodup
  awake : s.queue ≠ [] → s.loop = .running ∧ ∃ bytes, s.wakeup = some (bytes + 1)
  busy : s.batch ≠ [] → s.loop = .running
  waits : ∀ t cmd, s.calls t = some ⟨cmd, .waiting⟩ →
    cmd ∈ s.queue ∨ cmd ∈ s.batch ∨ cmd ∈ s.complete
  answered : ∀ t cmd, s.calls t = some ⟨cmd, .waiting⟩ →
    ∃ es : List Event, (∀ e ∈ es, e = .handleInput ∨ e = .dispatchBatch) ∧
      cmd ∈ (step (run step s es) (.wake t)).returned
  returned : ∀ cmd ∈ s.returned, cmd.isSync = true → cmd ∈ s.log

/-- The end of the I/O thread: the loop ends with nothing in the queue, and nothing is queued
before the pipe is closed. -/
def Served (s : State) : Event → Prop
  | .loopEnds => s.loop = .running → s.quit = true → s.batch = [] → s.queue = []
  | .lockQueue t => s.loop = .ended → ∀ cmd, s.calls t ≠ some ⟨cmd, .toQueue⟩
  | _ => True

/-- The invariant behind it. -/
structure Sound (s : State) : Prop where
  ordered : ∀ t, ofThread t s.log ++ ofThread t s.batch ++ ofThread t s.queue ++ entering (s.calls t) =
    ofThread t s.passed
  fresh : ∀ cmd ∈ s.passed, cmd.id < s.passed.length
  nodup : s.passed.Nodup
  owner : ∀ t call, s.calls t = some call → call.cmd.thread = t
  immediate : ∀ t cmd, s.calls t = some ⟨cmd, .immediate⟩ →
    ofThread t s.batch = [] ∧ ofThread t s.queue = []
  io : ofThread 0 s.batch = [] ∧ ofThread 0 s.queue = [] ∧
    ∀ call, s.calls 0 = some call → call.pc = .entered ∨ call.pc = .immediate
  started : s.loop = .running ∨ s.loop = .ended →
    s.ioThread = true ∧ s.ioInThread = true ∧ s.wakeup ≠ none
  stopped : s.loop ≠ .running → s.queue = [] ∧ s.batch = []
  closed : s.loop = .notStarted ∨ s.loop = .closed → s.wakeup = none
  awake : s.queue ≠ [] → ∃ bytes, s.wakeup = some (bytes + 1)
  starts : s.ioInThread = true ↔ s.loop ≠ .notStarted
  waits : ∀ t cmd, s.calls t = some ⟨cmd, .waiting⟩ →
    cmd.isSync = true ∧ (cmd ∈ s.queue ∨ cmd ∈ s.batch ∨ cmd ∈ s.complete)
  complete : ∀ cmd ∈ s.complete, cmd ∈ s.log
  returned : ∀ cmd ∈ s.returned, cmd.isSync = true → cmd ∈ s.log

@[simp] theorem ofThread_nil (t : Nat) : ofThread t [] = [] := rfl

@[simp] theorem ofThread_append (t : Nat) (l l' : List Cmd) :
    ofThread t (l ++ l') = ofThread t l ++ ofThread t l' := List.filter_append ..

theorem ofThread_own {t : Nat} {cmd : Cmd} (h : cmd.thread = t) : ofThread t [cmd] = [cmd] := by
  simp [ofThread, h]

theorem ofThread_other {t : Nat} {cmd : Cmd} (h : cmd.thread ≠ t) : ofThread t [cmd] = [] := by
  simp [ofThread, h]

/-- Whose call it is, after one thread's has changed. -/
theorem updated {calls : Nat → Option Call} {t t' : Nat} {new call : Option Call}
    (h : Function.update calls t new t' = call) :
    t' = t ∧ new = call ∨ t' ≠ t ∧ calls t' = call := by
  by_cases ht : t' = t
  · subst ht
    exact .inl ⟨rfl, by rwa [Function.update_self] at h⟩
  · exact .inr ⟨ht, by rwa [Function.update_of_ne ht] at h⟩

theorem entering_of_ne {cmd : Cmd} {pc : Pc} (h : pc ≠ .waiting) :
    entering (some ⟨cmd, pc⟩) = [cmd] := by
  cases pc with
  | waiting => exact absurd rfl h
  | entered | immediate | toQueue => rfl

theorem sound_exec {s : State} {t : Nat} {type : CommandType} (h : Sound s)
    (hnone : s.calls t = none) :
    Sound { s.setCall t (some ⟨⟨s.passed.length, t, type⟩, .entered⟩) with
      passed := s.passed ++ [⟨s.passed.length, t, type⟩] } := by
  have hfresh : (⟨s.passed.length, t, type⟩ : Cmd) ∉ s.passed :=
    fun hmem => Nat.lt_irrefl _ (h.fresh _ hmem)
  refine { h with
    ordered := fun t' => ?_
    fresh := fun cmd hcmd => ?_
    nodup := ?_
    owner := fun t' call hcall => ?_
    immediate := fun t' cmd hcall => ?_
    io := ⟨h.io.1, h.io.2.1, fun call hcall => ?_⟩
    waits := fun t' cmd hcall => ?_ }
  · change ofThread t' s.log ++ ofThread t' s.batch ++ ofThread t' s.queue ++
      entering (Function.update s.calls t _ t') = ofThread t' (s.passed ++ [_])
    rw [ofThread_append, ← h.ordered t']
    by_cases ht : t' = t
    · subst ht
      have hown : (⟨s.passed.length, t', type⟩ : Cmd).thread = t' := rfl
      rw [Function.update_self, hnone, ofThread_own hown]
      simp only [entering, List.append_nil]
    · rw [Function.update_of_ne ht, ofThread_other (fun hx => ht hx.symm), List.append_nil]
  · change cmd.id < (s.passed ++ [_]).length
    rw [List.length_append]
    rcases List.mem_append.mp hcmd with hold | hnew
    · exact Nat.lt_succ_of_lt (h.fresh cmd hold)
    · rw [List.mem_singleton.mp hnew]
      exact Nat.lt_succ_self _
  · exact List.nodup_append.mpr ⟨h.nodup, List.nodup_singleton _, fun a ha b hb hab =>
      hfresh (List.mem_singleton.mp hb ▸ hab ▸ ha)⟩
  · rcases updated hcall with ⟨rfl, hnew⟩ | ⟨-, hold⟩
    · cases hnew
      rfl
    · exact h.owner t' call hold
  · rcases updated hcall with ⟨rfl, hnew⟩ | ⟨-, hold⟩
    · cases hnew
    · exact h.immediate t' cmd hold
  · rcases updated hcall with ⟨rfl, hnew⟩ | ⟨-, hold⟩
    · cases hnew
      exact .inl rfl
    · exact h.io.2.2 call hold
  · rcases updated hcall with ⟨rfl, hnew⟩ | ⟨-, hold⟩
    · cases hnew
    · exact h.waits t' cmd hold

/-- A call that goes on, on its way to the dispatch or to the queue. -/
theorem sound_goesOn {s : State} {t : Nat} {cmd : Cmd} {pc pc' : Pc} (h : Sound s)
    (hcall : s.calls t = some ⟨cmd, pc⟩) (hpc : pc ≠ .waiting) (hpc' : pc' ≠ .waiting)
    (himmediate : pc' = .immediate → ofThread t s.batch = [] ∧ ofThread t s.queue = [])
    (hio : t = 0 → pc' = .immediate) : Sound (s.setCall t (some ⟨cmd, pc'⟩)) := by
  refine { h with
    ordered := fun t' => ?_
    owner := fun t' call hcall' => ?_
    immediate := fun t' cmd' hcall' => ?_
    io := ⟨h.io.1, h.io.2.1, fun call hcall' => ?_⟩
    waits := fun t' cmd' hcall' => ?_ }
  · change ofThread t' s.log ++ ofThread t' s.batch ++ ofThread t' s.queue ++
      entering (Function.update s.calls t _ t') = ofThread t' s.passed
    rw [← h.ordered t']
    by_cases ht : t' = t
    · subst ht
      rw [Function.update_self, hcall, entering_of_ne hpc, entering_of_ne hpc']
    · rw [Function.update_of_ne ht]
  · rcases updated hcall' with ⟨rfl, hnew⟩ | ⟨-, hold⟩
    · cases hnew
      exact h.owner t' ⟨cmd, pc⟩ hcall
    · exact h.owner t' call hold
  · rcases updated hcall' with ⟨rfl, hnew⟩ | ⟨-, hold⟩
    · cases hnew
      exact himmediate rfl
    · exact h.immediate t' cmd' hold
  · rcases updated hcall' with ⟨rfl, hnew⟩ | ⟨-, hold⟩
    · cases hnew
      exact .inr (hio rfl)
    · exact h.io.2.2 call hold
  · rcases updated hcall' with ⟨rfl, hnew⟩ | ⟨-, hold⟩
    · cases hnew
      exact absurd rfl hpc'
    · exact h.waits t' cmd' hold

/-- While the loop does not run, nothing is on its way to the I/O thread. -/
theorem Sound.idle {s : State} (h : Sound s) (hloop : s.loop ≠ .running) (t : Nat) :
    ofThread t s.batch = [] ∧ ofThread t s.queue = [] := by
  obtain ⟨hqueue, hbatch⟩ := h.stopped hloop
  rw [hqueue, hbatch]
  exact ⟨rfl, rfl⟩

theorem sound_check {s : State} {t : Nat} {cmd : Cmd} (h : Sound s)
    (hcall : s.calls t = some ⟨cmd, .entered⟩) :
    Sound (s.setCall t (some ⟨cmd, if s.inIOThread t then .immediate else .toQueue⟩)) := by
  by_cases hin : s.inIOThread t = true
  · rw [if_pos hin]
    refine sound_goesOn h hcall (by decide) (by decide) (fun _ => ?_) (fun _ => rfl)
    by_cases ht : t = 0
    · rw [ht]
      exact ⟨h.io.1, h.io.2.1⟩
    · refine h.idle (fun hrunning => ?_) t
      simp [State.inIOThread, ht, (h.started (.inl hrunning)).1] at hin
  · rw [if_neg hin]
    refine sound_goesOn h hcall (by decide) (by decide) nofun (fun ht => absurd ?_ hin)
    simp [State.inIOThread, ht]

theorem sound_start {s : State} (h : Sound s) : Sound s.execSetIOThread := by
  unfold State.execSetIOThread
  by_cases hin : s.ioInThread = true
  · rwa [if_pos hin]
  · rw [if_neg hin]
    have hloop : s.loop ≠ .running := fun hl => hin (h.started (.inl hl)).2.1
    exact { h with
      started := fun _ => ⟨rfl, rfl, nofun⟩
      stopped := fun hne => absurd rfl hne
      closed := nofun
      awake := fun hne => absurd (h.stopped hloop).1 hne
      starts := ⟨fun _ => nofun, fun _ => rfl⟩ }

/-- Once the I/O thread has been started, a dispatch only adds to the history. -/
theorem dispatch_started {s : State} (cmd : Cmd) (h : s.ioInThread = true) :
    s.dispatch cmd = { s with log := s.log ++ [cmd] } := by
  unfold State.dispatch State.execSetIOThread
  split
  · exact if_pos h
  · rfl

theorem sound_dispatch {s : State} {cmd : Cmd} (h : Sound { s with log := s.log ++ [cmd] }) :
    Sound (s.dispatch cmd) := by
  unfold State.dispatch
  by_cases htype : cmd.type = .setIOThread
  · rw [if_pos htype]
    exact sound_start h
  · rwa [if_neg htype]

theorem dispatch_returned (s : State) (cmd : Cmd) (cmds : List Cmd) :
    { s.dispatch cmd with returned := cmds } = { s with returned := cmds }.dispatch cmd := by
  unfold State.dispatch State.execSetIOThread
  by_cases htype : cmd.type = .setIOThread <;> by_cases hin : s.ioInThread = true <;>
    simp [htype, hin]

theorem dispatch_complete (s : State) (cmd : Cmd) (cmds : List Cmd) :
    { s.dispatch cmd with complete := cmds } = { s with complete := cmds }.dispatch cmd := by
  unfold State.dispatch State.execSetIOThread
  by_cases htype : cmd.type = .setIOThread <;> by_cases hin : s.ioInThread = true <;>
    simp [htype, hin]

theorem sound_dispatchNow {s : State} {t : Nat} {cmd : Cmd} (h : Sound s)
    (hcall : s.calls t = some ⟨cmd, .immediate⟩) :
    Sound { s.setCall t none with
      log := s.log ++ [cmd], returned := s.returned ++ [cmd] } := by
  refine { h with
    ordered := fun t' => ?_
    owner := fun t' call hcall' => ?_
    immediate := fun t' cmd' hcall' => ?_
    io := ⟨h.io.1, h.io.2.1, fun call hcall' => ?_⟩
    waits := fun t' cmd' hcall' => ?_
    complete := fun cmd' hcmd => List.mem_append_left _ (h.complete cmd' hcmd)
    returned := fun cmd' hcmd hsync => ?_ }
  · change ofThread t' (s.log ++ [cmd]) ++ ofThread t' s.batch ++ ofThread t' s.queue ++
      entering (Function.update s.calls t none t') = ofThread t' s.passed
    rw [← h.ordered t', ofThread_append]
    by_cases ht : t' = t
    · subst ht
      obtain ⟨hbatch, hqueue⟩ := h.immediate t' cmd hcall
      rw [Function.update_self, hcall, hbatch, hqueue, ofThread_own (h.owner t' _ hcall)]
      simp only [entering, List.append_nil]
    · rw [Function.update_of_ne ht,
        ofThread_other (fun hx => ht (hx.symm.trans (h.owner t _ hcall))), List.append_nil]
  · rcases updated hcall' with ⟨-, hnew⟩ | ⟨-, hold⟩
    · cases hnew
    · exact h.owner t' call hold
  · rcases updated hcall' with ⟨-, hnew⟩ | ⟨-, hold⟩
    · cases hnew
    · exact h.immediate t' cmd' hold
  · rcases updated hcall' with ⟨-, hnew⟩ | ⟨-, hold⟩
    · cases hnew
    · exact h.io.2.2 call hold
  · rcases updated hcall' with ⟨-, hnew⟩ | ⟨-, hold⟩
    · cases hnew
    · exact h.waits t' cmd' hold
  · rcases List.mem_append.mp hcmd with hold | hnew
    · exact List.mem_append_left _ (h.returned cmd' hold hsync)
    · exact List.mem_append_right _ hnew

theorem sound_lockQueue {s : State} {t bytes : Nat} {cmd : Cmd} (h : Sound s)
    (hcall : s.calls t = some ⟨cmd, .toQueue⟩) (hwakeup : s.wakeup = some bytes)
    (hloop : s.loop = .running) :
    Sound { s.setCall t (if cmd.isSync then some ⟨cmd, .waiting⟩ else none) with
      wakeup := some (if s.queue = [] then bytes + 1 else bytes)
      queue := s.queue ++ [cmd]
      returned := if cmd.isSync then s.returned else s.returned ++ [cmd] } := by
  have hthread : cmd.thread = t := h.owner t _ hcall
  have hnotIO : t ≠ 0 := by
    rintro rfl
    rcases h.io.2.2 _ hcall with hpc | hpc <;> cases hpc
  have hother {t' : Nat} (ht : t' ≠ t) : ofThread t' (s.queue ++ [cmd]) = ofThread t' s.queue := by
    rw [ofThread_append, ofThread_other (fun hx => ht (hx.symm.trans hthread)), List.append_nil]
  have hafter {call : Call}
      (hnew : (if cmd.isSync then some ⟨cmd, .waiting⟩ else none) = some call) :
      cmd.isSync = true ∧ call = ⟨cmd, .waiting⟩ := by
    split at hnew
    · exact ⟨‹_›, (Option.some.inj hnew).symm⟩
    · cases hnew
  refine { h with
    ordered := fun t' => ?_
    owner := fun t' call hcall' => ?_
    immediate := fun t' cmd' hcall' => ?_
    io := ⟨h.io.1, (hother hnotIO.symm).trans h.io.2.1, fun call hcall' => ?_⟩
    started := fun hl => ⟨(h.started hl).1, (h.started hl).2.1, nofun⟩
    stopped := fun hne => absurd hloop hne
    closed := fun hl => ?_
    awake := fun _ => ?_
    waits := fun t' cmd' hcall' => ?_
    returned := fun cmd' hcmd hsync => ?_ }
  · change ofThread t' s.log ++ ofThread t' s.batch ++ ofThread t' (s.queue ++ [cmd]) ++
      entering (Function.update s.calls t _ t') = ofThread t' s.passed
    rw [← h.ordered t']
    by_cases ht : t' = t
    · subst ht
      rw [Function.update_self, hcall, ofThread_append, ofThread_own hthread]
      cases cmd.isSync <;> simp [entering]
    · rw [Function.update_of_ne ht, hother ht]
  · rcases updated hcall' with ⟨rfl, hnew⟩ | ⟨-, hold⟩
    · rw [(hafter hnew).2]
      exact hthread
    · exact h.owner t' call hold
  · rcases updated hcall' with ⟨rfl, hnew⟩ | ⟨ht, hold⟩
    · cases (hafter hnew).2
    · obtain ⟨hbatch, hqueue⟩ := h.immediate t' cmd' hold
      exact ⟨hbatch, (hother ht).trans hqueue⟩
  · rcases updated hcall' with ⟨ht, -⟩ | ⟨-, hold⟩
    · exact absurd ht.symm hnotIO
    · exact h.io.2.2 call hold
  · have hnone := h.closed hl
    rw [hwakeup] at hnone
    cases hnone
  · by_cases hqueue : s.queue = []
    · exact ⟨bytes, by rw [if_pos hqueue]⟩
    · obtain ⟨n, hn⟩ := h.awake hqueue
      exact ⟨n, by rw [if_neg hqueue, ← hwakeup, hn]⟩
  · rcases updated hcall' with ⟨rfl, hnew⟩ | ⟨-, hold⟩
    · obtain ⟨hsync, hcall'⟩ := hafter hnew
      cases hcall'
      exact ⟨hsync, .inl (List.mem_append_right _ (List.mem_singleton_self _))⟩
    · exact (h.waits t' cmd' hold).imp_right (.imp_left (List.mem_append_left _))
  · cases hcs : cmd.isSync with
    | true => exact h.returned cmd' (by simpa [hcs] using hcmd) hsync
    | false =>
      rcases List.mem_append.mp (by simpa [hcs] using hcmd : cmd' ∈ s.returned ++ [cmd]) with
        hold | hnew
      · exact h.returned cmd' hold hsync
      · rw [List.mem_singleton.mp hnew, hcs] at hsync
        cases hsync

theorem sound_wake {s : State} {t : Nat} {cmd : Cmd} (h : Sound s)
    (hcall : s.calls t = some ⟨cmd, .waiting⟩) (hcomplete : cmd ∈ s.complete) :
    Sound { s.setCall t none with returned := s.returned ++ [cmd] } := by
  refine { h with
    ordered := fun t' => ?_
    owner := fun t' call hcall' => ?_
    immediate := fun t' cmd' hcall' => ?_
    io := ⟨h.io.1, h.io.2.1, fun call hcall' => ?_⟩
    waits := fun t' cmd' hcall' => ?_
    returned := fun cmd' hcmd hsync => ?_ }
  · change ofThread t' s.log ++ ofThread t' s.batch ++ ofThread t' s.queue ++
      entering (Function.update s.calls t none t') = ofThread t' s.passed
    rw [← h.ordered t']
    by_cases ht : t' = t
    · subst ht
      rw [Function.update_self, hcall]
      rfl
    · rw [Function.update_of_ne ht]
  · rcases updated hcall' with ⟨-, hnew⟩ | ⟨-, hold⟩
    · cases hnew
    · exact h.owner t' call hold
  · rcases updated hcall' with ⟨-, hnew⟩ | ⟨-, hold⟩
    · cases hnew
    · exact h.immediate t' cmd' hold
  · rcases updated hcall' with ⟨-, hnew⟩ | ⟨-, hold⟩
    · cases hnew
    · exact h.io.2.2 call hold
  · rcases updated hcall' with ⟨-, hnew⟩ | ⟨-, hold⟩
    · cases hnew
    · exact h.waits t' cmd' hold
  · rcases List.mem_append.mp hcmd with hold | hnew
    · exact h.returned cmd' hold hsync
    · rw [List.mem_singleton.mp hnew]
      exact h.complete cmd hcomplete

theorem sound_handleInput {s : State} {bytes : Nat} (h : Sound s) (hloop : s.loop = .running)
    (hbatch : s.batch = []) :
    Sound { s with wakeup := some bytes, batch := s.queue, queue := [] } := by
  refine { h with
    ordered := fun t => ?_
    immediate := fun t cmd hcall => ⟨(h.immediate t cmd hcall).2, rfl⟩
    io := ⟨h.io.2.1, rfl, h.io.2.2⟩
    started := fun hl => ⟨(h.started hl).1, (h.started hl).2.1, nofun⟩
    stopped := fun hne => absurd hloop hne
    closed := fun hl => ?_
    awake := fun hne => absurd rfl hne
    waits := fun t cmd hcall => ?_ }
  · have hold := h.ordered t
    rw [hbatch] at hold
    simpa using hold
  · rcases hl with hl | hl <;> exact absurd (hloop.symm.trans hl) nofun
  · obtain ⟨hsync, hq | hb | hc⟩ := h.waits t cmd hcall
    · exact ⟨hsync, .inr (.inl hq)⟩
    · rw [hbatch] at hb
      cases hb
    · exact ⟨hsync, .inr (.inr hc)⟩

theorem sound_dispatchBatch {s : State} {cmd : Cmd} {batch : List Cmd} (h : Sound s)
    (hbatch : s.batch = cmd :: batch) :
    Sound { s with
      batch := batch
      log := s.log ++ [cmd]
      complete := if cmd.isSync then s.complete ++ [cmd] else s.complete } := by
  have hhead (t : Nat) : ofThread t s.batch = ofThread t [cmd] ++ ofThread t batch := by
    rw [hbatch, ← ofThread_append, List.singleton_append]
  have htail {t : Nat} (hnil : ofThread t s.batch = []) : ofThread t batch = [] := by
    rw [hhead, List.append_eq_nil_iff] at hnil
    exact hnil.2
  refine { h with
    ordered := fun t => ?_
    immediate := fun t cmd' hcall =>
      ⟨htail (h.immediate t cmd' hcall).1, (h.immediate t cmd' hcall).2⟩
    io := ⟨htail h.io.1, h.io.2⟩
    stopped := fun hne => ?_
    waits := fun t cmd' hcall => ?_
    complete := fun cmd' hcmd => ?_
    returned := fun cmd' hcmd hsync => List.mem_append_left _ (h.returned cmd' hcmd hsync) }
  · have hold := h.ordered t
    rw [hhead] at hold
    simpa using hold
  · have hnil := (h.stopped hne).2
    rw [hbatch] at hnil
    cases hnil
  · obtain ⟨hsync, hq | hb | hc⟩ := h.waits t cmd' hcall
    · exact ⟨hsync, .inl hq⟩
    · rw [hbatch] at hb
      rcases List.mem_cons.mp hb with rfl | hb
      · refine ⟨hsync, .inr (.inr ?_)⟩
        change cmd' ∈ if cmd'.isSync then s.complete ++ [cmd'] else s.complete
        rw [if_pos hsync]
        exact List.mem_append_right _ (List.mem_singleton_self _)
      · exact ⟨hsync, .inr (.inl hb)⟩
    · refine ⟨hsync, .inr (.inr ?_)⟩
      change cmd' ∈ if cmd.isSync then s.complete ++ [cmd] else s.complete
      split
      · exact List.mem_append_left _ hc
      · exact hc
  · change cmd' ∈ if cmd.isSync then s.complete ++ [cmd] else s.complete at hcmd
    split at hcmd
    · exact (List.mem_append.mp hcmd).elim
        (fun hold => List.mem_append_left _ (h.complete cmd' hold))
        (fun hnew => List.mem_append_right _ hnew)
    · exact List.mem_append_left _ (h.complete cmd' hcmd)

theorem sound_loopEnds {s : State} (h : Sound s) (hloop : s.loop = .running)
    (hbatch : s.batch = []) (hqueue : s.queue = []) : Sound { s with loop := .ended } :=
  { h with
    started := fun _ => h.started (.inl hloop)
    stopped := fun _ => ⟨hqueue, hbatch⟩
    closed := nofun
    starts := ⟨fun _ => nofun, fun _ => (h.started (.inl hloop)).2.1⟩ }

theorem sound_close {s : State} (h : Sound s) (hloop : s.loop = .ended) :
    Sound { s with loop := .closed, wakeup := none } :=
  have hidle := h.stopped (hloop ▸ nofun)
  { h with
    started := nofun
    stopped := fun _ => hidle
    closed := fun _ => rfl
    awake := fun hne => absurd hidle.1 hne
    starts := ⟨fun _ => nofun, fun _ => (h.started (.inr hloop)).2.1⟩ }

theorem sound_join {s : State} (h : Sound s) (hloop : s.loop = .closed) :
    Sound { s with ioThread := false } :=
  { h with started := fun hl => by rcases hl with hl | hl <;> exact absurd (hloop.symm.trans hl) nofun }

theorem sound_step (s : State) (e : Event) (h : Sound s) (hserved : Served s e) :
    Sound (step s e) := by
  cases e with
  | exec t type =>
    simp only [step]
    split
    · exact sound_exec h (by grind)
    · exact h
  | check t =>
    simp only [step]
    split
    · exact sound_check h ‹_›
    · exact h
  | dispatchNow t =>
    simp only [step]
    split
    · rename_i cmd hcall
      rw [dispatch_returned]
      exact sound_dispatch (sound_dispatchNow h hcall)
    · exact h
  | lockQueue t =>
    simp only [step]
    split
    · rename_i cmd hcall
      cases hwakeup : s.wakeup with
      | none =>
        refine sound_goesOn h hcall (by decide) (by decide) (fun _ => ?_) (fun _ => rfl)
        exact h.idle (fun hrunning => (h.started (.inl hrunning)).2.2 hwakeup) t
      | some bytes =>
        refine sound_lockQueue h hcall hwakeup ?_
        cases hloop : s.loop with
        | running => rfl
        | ended => exact absurd hcall (hserved hloop cmd)
        | notStarted | closed =>
          have hnone := h.closed (by simp [hloop])
          rw [hwakeup] at hnone
          cases hnone
    · exact h
  | wake t =>
    simp only [step]
    split
    · split
      · exact sound_wake h ‹_› ‹_›
      · exact h
    · exact h
  | handleInput =>
    simp only [step]
    split
    · split
      · rename_i hboth
        exact sound_handleInput h hboth.1 hboth.2
      · exact h
    · exact h
  | dispatchBatch =>
    simp only [step]
    split
    · exact h
    · rename_i cmd batch hbatch
      rw [dispatch_complete]
      exact sound_dispatch (sound_dispatchBatch h hbatch)
  | quit =>
    simp only [step]
    split
    · exact h
    · exact { h with }
  | loopEnds =>
    simp only [step]
    split
    · rename_i hall
      exact sound_loopEnds h hall.1 hall.2.2 (hserved hall.1 hall.2.1 hall.2.2)
    · exact h
  | close =>
    simp only [step]
    split
    · exact sound_close h ‹_›
    · exact h
  | join =>
    simp only [step]
    split
    · exact sound_join h ‹_›
    · exact h

/-- What the I/O thread has done when it has dispatched the commands it had taken. -/
structure BatchDone (cmds : List Cmd) (s s' : State) : Prop where
  batch : s'.batch = []
  queue : s'.queue = s.queue
  calls : s'.calls = s.calls
  wakeup : s'.wakeup = s.wakeup
  loop : s'.loop = s.loop
  started : s'.ioInThread = true
  complete : ∀ cmd, cmd ∈ s.complete ∨ cmd ∈ cmds ∧ cmd.isSync = true → cmd ∈ s'.complete

theorem batch_done {s : State} (hin : s.ioInThread = true) {cmds : List Cmd}
    (hbatch : s.batch = cmds) :
    BatchDone cmds s (run step s (List.replicate cmds.length .dispatchBatch)) := by
  induction cmds generalizing s with
  | nil =>
    exact ⟨hbatch, rfl, rfl, rfl, rfl, hin, fun cmd hcmd =>
      hcmd.elim id fun hmem => absurd hmem.1 List.not_mem_nil⟩
  | cons cmd cmds ih =>
    have hstep : step s .dispatchBatch = { s with
        batch := cmds
        log := s.log ++ [cmd]
        complete := if cmd.isSync then s.complete ++ [cmd] else s.complete } := by
      simp only [step, hbatch]
      rw [dispatch_started (s := { s with batch := cmds }) cmd hin]
    rw [List.length_cons, List.replicate_succ, run_cons, hstep]
    obtain ⟨hb, hq, hc, hw, hl, hs, hcomplete⟩ := ih (s := { s with
        batch := cmds
        log := s.log ++ [cmd]
        complete := if cmd.isSync then s.complete ++ [cmd] else s.complete }) hin rfl
    refine ⟨hb, hq, hc, hw, hl, hs, fun cmd' hcmd => hcomplete cmd' ?_⟩
    change cmd' ∈ (if cmd.isSync then s.complete ++ [cmd] else s.complete) ∨ _
    rcases hcmd with hold | ⟨hmem, hsync⟩
    · left
      split
      · exact List.mem_append_left _ hold
      · exact hold
    · rcases List.mem_cons.mp hmem with rfl | hmem
      · rw [if_pos hsync]
        exact .inl (List.mem_append_right _ (List.mem_singleton_self _))
      · exact .inr ⟨hmem, hsync⟩

theorem wake_returned {s : State} {t : Nat} {cmd : Cmd}
    (hcall : s.calls t = some ⟨cmd, .waiting⟩) (hcomplete : cmd ∈ s.complete) :
    cmd ∈ (step s (.wake t)).returned := by
  simp [step, hcall, hcomplete]

/-- The I/O thread gives every waiting caller its command back. -/
theorem Sound.answered {s : State} (h : Sound s) {t : Nat} {cmd : Cmd}
    (hcall : s.calls t = some ⟨cmd, .waiting⟩) :
    ∃ es : List Event, (∀ e ∈ es, e = .handleInput ∨ e = .dispatchBatch) ∧
      cmd ∈ (step (run step s es) (.wake t)).returned := by
  have hreplicate (n : Nat) (e : Event) (he : e ∈ List.replicate n .dispatchBatch) :
      e = .handleInput ∨ e = .dispatchBatch := .inr (List.eq_of_mem_replicate he)
  obtain ⟨hsync, hqueue | hbatch | hcomplete⟩ := h.waits t cmd hcall
  · have hloop : s.loop = .running := by
      by_contra hne
      rw [(h.stopped hne).1] at hqueue
      cases hqueue
    obtain ⟨bytes, hbytes⟩ := h.awake (List.ne_nil_of_mem hqueue)
    have hfirst := batch_done (h.started (.inl hloop)).2.1 (s := s) rfl
    let s' := run step s (List.replicate s.batch.length .dispatchBatch)
    have hinput : step s' .handleInput =
        { s' with wakeup := some bytes, batch := s'.queue, queue := [] } := by
      simp [step, s', hfirst.wakeup, hbytes, hfirst.loop, hloop, hfirst.batch]
    have hsecond := batch_done (s := { s' with
      wakeup := some bytes, batch := s'.queue, queue := [] }) hfirst.started rfl
    refine ⟨List.replicate s.batch.length .dispatchBatch ++ .handleInput ::
      List.replicate s'.queue.length .dispatchBatch, fun e he => ?_, ?_⟩
    · rcases List.mem_append.mp he with he | he
      · exact hreplicate _ e he
      · rcases List.mem_cons.mp he with he | he
        · exact .inl he
        · exact hreplicate _ e he
    · rw [run_append, run_cons]
      change cmd ∈ (step (run step (step s' .handleInput) _) (.wake t)).returned
      rw [hinput]
      refine wake_returned ?_ (hsecond.complete cmd (.inr ⟨?_, hsync⟩))
      · rw [hsecond.calls]
        exact (congrFun hfirst.calls t).trans hcall
      · exact hfirst.queue ▸ hqueue
  · have hloop : s.loop = .running := by
      by_contra hne
      rw [(h.stopped hne).2] at hbatch
      cases hbatch
    have hdone := batch_done (h.started (.inl hloop)).2.1 (s := s) rfl
    refine ⟨List.replicate s.batch.length .dispatchBatch, hreplicate _, wake_returned ?_ ?_⟩
    · rw [hdone.calls, hcall]
    · exact hdone.complete cmd (.inr ⟨hbatch, hsync⟩)
  · exact ⟨[], nofun, wake_returned hcall hcomplete⟩

theorem count_ofThread (cmd : Cmd) (cmds : List Cmd) :
    (ofThread cmd.thread cmds).count cmd = cmds.count cmd :=
  List.count_filter (decide_eq_true rfl)

theorem Sound.once {s : State} (h : Sound s) : s.log.Nodup := by
  refine List.nodup_iff_count_le_one.mpr fun cmd => ?_
  calc s.log.count cmd
      = (ofThread cmd.thread s.log).count cmd := (count_ofThread cmd s.log).symm
    _ ≤ (ofThread cmd.thread s.passed).count cmd := by
        rw [← h.ordered cmd.thread]
        simp only [List.count_append]
        omega
    _ = s.passed.count cmd := count_ofThread cmd s.passed
    _ ≤ 1 := List.nodup_iff_count_le_one.mp h.nodup cmd

theorem Sound.dispatched {s : State} (h : Sound s) : Dispatched s where
  ordered := h.ordered
  once := h.once
  awake hne := ⟨by
    by_contra hloop
    exact hne (h.stopped hloop).1, h.awake hne⟩
  busy hne := by
    by_contra hloop
    exact hne (h.stopped hloop).2
  waits t cmd hcall := (h.waits t cmd hcall).2
  answered _ _ hcall := h.answered hcall
  returned := h.returned

theorem sound_initial : Sound initial where
  ordered _ := rfl
  fresh := nofun
  nodup := List.nodup_nil
  owner := nofun
  immediate := nofun
  io := ⟨rfl, rfl, nofun⟩
  started hl := by rcases hl with hl | hl <;> cases hl
  stopped _ := ⟨rfl, rfl⟩
  closed _ := rfl
  awake hne := absurd rfl hne
  starts := ⟨nofun, fun hne => absurd rfl hne⟩
  waits := nofun
  complete := nofun
  returned := nofun

/-- What is left in the queue when the loop ends, or is put there before the pipe is closed, nobody
takes. -/
theorem not_dispatched {s : State} {e : Event} (h : Sound s) (hserved : ¬ Served s e) :
    ¬ Dispatched (step s e) := by
  intro hd
  cases e with
  | loopEnds =>
    simp only [Served, Classical.not_imp] at hserved
    obtain ⟨hloop, hquit, hbatch, hqueue⟩ := hserved
    have hstep : step s .loopEnds = { s with loop := .ended } := by
      simp [step, hloop, hquit, hbatch]
    rw [hstep] at hd
    cases (hd.awake hqueue).1
  | lockQueue t =>
    simp only [Served, Classical.not_imp, not_forall, not_not] at hserved
    obtain ⟨hloop, cmd, hcall⟩ := hserved
    obtain ⟨bytes, hwakeup⟩ := Option.ne_none_iff_exists'.mp (h.started (.inr hloop)).2.2
    have hqueue : (step s (.lockQueue t)).queue = s.queue ++ [cmd] := by
      simp [step, hcall, hwakeup]
    have hstill : (step s (.lockQueue t)).loop = .ended := by
      simp [step, hcall, hwakeup, State.setCall, hloop]
    have hrunning := (hd.awake (by simp [hqueue])).1
    rw [hstill] at hrunning
    cases hrunning
  | _ => exact hserved trivial

theorem command_dispatch (es : List Event) :
    Always step Dispatched initial es ↔ Meets step Served initial es :=
  always_iff_meets_of sound_step (fun _ => Sound.dispatched) (fun _ _ => not_dispatched)
    sound_initial

/-- A caller whose command nobody has marked when the I/O thread is over. -/
structure Stuck (t : Nat) (cmd : Cmd) (s : State) : Prop where
  closed : s.loop = .closed
  started : s.ioInThread = true
  batch : s.batch = []
  waiting : s.calls t = some ⟨cmd, .waiting⟩
  unmarked : cmd ∉ s.complete

theorem stuck_setCall {s : State} {t t' : Nat} {cmd : Cmd} {call : Option Call}
    (h : Stuck t cmd s) (ht : t ≠ t') : Stuck t cmd (s.setCall t' call) :=
  { h with waiting := (Function.update_of_ne ht ..).trans h.waiting }

theorem stuck_step {t : Nat} {cmd : Cmd} (s : State) (e : Event) (h : Stuck t cmd s) :
    Stuck t cmd (step s e) := by
  have hother {t' : Nat} {call : Option Call} (hcall : s.calls t' = call)
      (hne : call ≠ some ⟨cmd, .waiting⟩) : t ≠ t' :=
    fun ht => hne (hcall.symm.trans (ht ▸ h.waiting))
  have hrunning : s.loop ≠ .running := by simp [h.closed]
  cases e with
  | exec t' type =>
    simp only [step]
    split
    · rename_i hboth
      exact { stuck_setCall h (hother hboth.1 (by simp)) with }
    · exact h
  | check t' =>
    simp only [step]
    split
    · rename_i hcall
      exact stuck_setCall h (hother hcall (by simp))
    · exact h
  | dispatchNow t' =>
    simp only [step]
    split
    · rename_i hcall
      have hnext : Stuck t cmd (s.setCall t' none) := stuck_setCall h (hother hcall (by simp))
      rw [dispatch_started _ hnext.started]
      exact { hnext with }
    · exact h
  | lockQueue t' =>
    simp only [step]
    split
    · rename_i hcall
      have hne := hother hcall (by simp)
      split
      · exact stuck_setCall h hne
      · exact { stuck_setCall h hne with }
    · exact h
  | wake t' =>
    simp only [step]
    split
    · rename_i cmd' hcall
      split
      · rename_i hmem
        have hne : t ≠ t' := by
          refine hother hcall fun heq => ?_
          cases heq
          exact h.unmarked hmem
        exact { stuck_setCall h hne with }
      · exact h
    · exact h
  | handleInput =>
    simp only [step]
    split
    · rw [if_neg fun hboth => hrunning hboth.1]
      exact h
    · exact h
  | dispatchBatch =>
    simp only [step, h.batch]
    exact h
  | quit =>
    simp only [step]
    split
    · exact h
    · exact { h with }
  | loopEnds =>
    simp only [step]
    rw [if_neg fun hboth => hrunning hboth.1]
    exact h
  | close =>
    simp only [step]
    rw [if_neg (by simp [h.closed])]
    exact h
  | join =>
    simp only [step]
    split
    · exact { h with }
    · exact h

/-- The command is queued between the end of the loop and the close of the pipe. -/
def late : List Event :=
  [.exec 1 .setIOThread, .check 1, .dispatchNow 1, .exec 2 .cnxUnref, .check 2, .quit, .loopEnds,
    .lockQueue 2, .close, .join]

theorem waits_for_ever : ¬ Always step Dispatched initial late ∧
    ∀ es, (run step initial (late ++ es)).calls 2 = some ⟨⟨1, 2, .cnxUnref⟩, .waiting⟩ := by
  constructor
  · intro h
    have hloop := (h.last.awake (by decide)).1
    exact absurd hloop (by decide)
  · intro es
    have hstuck : Stuck 2 ⟨1, 2, .cnxUnref⟩ (run step initial late) :=
      ⟨by decide, by decide, by decide, by decide, by decide⟩
    rw [run_append]
    exact (run_invariant stuck_step es hstuck).waiting

end ORBit2.Command
