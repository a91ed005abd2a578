import ORBit2.Base.Runs
import ORBit2.LinkConnection

/-! The broken callbacks of the connections (linc-connection.c): who calls them, and who waits. -/

set_option autoImplicit false

namespace ORBit2.Broken

/-- A `BrokenCallback`. The `id` tells the registrations apart. -/
structure BrokenCallback where
  id : Nat
  fn : Nat
  userData : Option Nat
  deriving DecidableEq, Repr

def brokenCallbackMatch (bc : BrokenCallback) (fn userData : Option Nat) : Bool :=
  (fn.isNone || fn == some bc.fn) && (userData.isNone || bc.userData == userData)

structure Cnx where
  status : Link.Status
  idleBrokenCallbacks : List BrokenCallback
  inhibitReconnect : Bool
  deriving DecidableEq, Repr

/-- Who has called `link_connection_emit_broken`. -/
inductive Next where
  | done
  | brokenIdle
  | tryReconnect
  deriving DecidableEq, Repr

/-- A thread in the middle of one of the functions, where it does not hold the lock. -/
inductive Task where
  | stateChanged (cnx : Nat)
  | emitBroken (cnx : Nat) (callbacks : List BrokenCallback) (next : Next)
  | brokenIdle
  | tryReconnect (cnx : Nat)
  deriving DecidableEq, Repr

/-- `ioThread` is `link_thread_io ()`; `idleSources` are the sources `g_idle_add` has added and
that have not run. The last three are histories: the callbacks called, those that a
`link_connection_remove_broken_cb` has matched, and those registered when their connection broke. -/
structure State where
  ioThread : Bool
  cnxs : Nat → Cnx
  idleBrokenCnxs : List Nat
  idleSources : Nat
  tasks : List Task
  registered : Nat
  called : List Nat
  removed : List Nat
  due : List Nat

namespace State

def update (s : State) (c : Nat) (cnx : Cnx) : State :=
  { s with cnxs := Function.update s.cnxs c cnx }

/-- `callbacks = cnx->idle_broken_callbacks; cnx->idle_broken_callbacks = NULL`. -/
def steal (s : State) (c : Nat) (inhibit : Bool) : State :=
  s.update c { s.cnxs c with idleBrokenCallbacks := [], inhibitReconnect := inhibit }

def addIdleBrokenForCnx (s : State) (c : Nat) : State :=
  if s.idleBrokenCnxs ≠ [] then
    -- "Deadlock potential - avoiding evil bug!"
    if c ∈ s.idleBrokenCnxs then s else { s with idleBrokenCnxs := c :: s.idleBrokenCnxs }
  else
    { s.update c { s.cnxs c with inhibitReconnect := true } with
      idleSources := s.idleSources + 1
      idleBrokenCnxs := [c] }

end State

def Next.tasks (cnx : Nat) : Next → List Task
  | .done => []
  | .brokenIdle => [.brokenIdle]
  | .tryReconnect => [.tryReconnect cnx]

/-- What a thread does until it next lets the lock go. `acquired` is what
`g_main_context_acquire` says, `reconnected` whether the connect succeeds. -/
def runTask (s : State) (acquired reconnected : Bool) (rest : List Task) : Task → State
  | .stateChanged c =>
      if (s.cnxs c).idleBrokenCallbacks = [] then { s with tasks := rest }
      else if s.ioThread then { s.addIdleBrokenForCnx c with tasks := rest }
      else
        { s.steal c (s.cnxs c).inhibitReconnect with
          tasks := .emitBroken c (s.cnxs c).idleBrokenCallbacks .done :: rest }
  | .emitBroken c (bc :: callbacks) next =>
      { s with
        called := bc.id :: s.called
        tasks := .emitBroken c callbacks next :: rest }
  | .emitBroken c [] next => { s with tasks := next.tasks c ++ rest }
  | .brokenIdle =>
      match s.idleBrokenCnxs with
      | [] => { s with tasks := rest }
      | c :: cs =>
          { s.steal c false with
            idleBrokenCnxs := cs
            tasks := .emitBroken c (s.cnxs c).idleBrokenCallbacks .brokenIdle :: rest }
  | .tryReconnect c =>
      if (s.cnxs c).inhibitReconnect then
        if acquired then
          { s.steal c false with
            tasks := .emitBroken c (s.cnxs c).idleBrokenCallbacks .tryReconnect :: rest }
        else s
      else
        { s.update c { s.cnxs c with
            status := if reconnected then .connected else (s.cnxs c).status } with
          tasks := rest }

/-- The callbacks a thread has taken from the connection `c` and has not called yet. -/
def Task.taken (c : Nat) : Task → List BrokenCallback
  | .emitBroken c' callbacks _ => if c' = c then callbacks else []
  | _ => []

inductive Event where
  | addBrokenCb (cnx : Nat) (fn : Nat) (userData : Option Nat)
  | removeBrokenCb (cnx : Nat) (fn userData : Option Nat)
  | disconnect (cnx : Nat) (timedOut : Bool)
  | idle
  | tryReconnect (cnx : Nat)
  | run (i : Nat) (acquired reconnected : Bool)
  deriving DecidableEq, Repr

def step (s : State) : Event → State
  | .addBrokenCb c fn userData =>
      { s.update c { s.cnxs c with
          idleBrokenCallbacks := ⟨s.registered, fn, userData⟩ :: (s.cnxs c).idleBrokenCallbacks } with
        registered := s.registered + 1 }
  | .removeBrokenCb c fn userData =>
      let callbacks := (s.cnxs c).idleBrokenCallbacks
      { s.update c { s.cnxs c with
          idleBrokenCallbacks := callbacks.filter fun bc => !brokenCallbackMatch bc fn userData } with
        removed := s.removed ++
          ((callbacks ++ s.tasks.flatMap (Task.taken c)).filter
            fun bc => brokenCallbackMatch bc fn userData).map BrokenCallback.id }
  | .disconnect c timedOut =>
      let status := if timedOut then Link.Status.timeout else .disconnected
      if (s.cnxs c).status = status then s
      else
        { s.update c { s.cnxs c with status := status } with
          tasks := .stateChanged c :: s.tasks
          due := s.due ++ (s.cnxs c).idleBrokenCallbacks.map BrokenCallback.id }
  | .idle =>
      if s.idleSources = 0 then s
      else { s with idleSources := s.idleSources - 1, tasks := .brokenIdle :: s.tasks }
  | .tryReconnect c => { s with tasks := .tryReconnect c :: s.tasks }
  | .run i acquired reconnected =>
      match s.tasks[i]? with
      | some t => runTask s acquired reconnected (s.tasks.eraseIdx i) t
      | none => s

def initial (ioThread : Bool) : State where
  ioThread := ioThread
  cnxs := fun _ => ⟨.connected, [], false⟩
  idleBrokenCnxs := []
  idleSources := 0
  tasks := []
  registered := 0
  called := []
  removed := []
  due := []

/-- The thread is in `link_connection_broken_idle`. -/
def Task.idles : Task → Bool
  | .brokenIdle | .emitBroken _ _ .brokenIdle => true
  | _ => false

/-- No callback is called twice, or when it has been removed; when nothing is left to be done, those
that were registered when their connection broke have been called or removed; and a connection whose
reconnection is inhibited has callbacks, and an idle handler that will come to it. -/
structure Notified (s : State) : Prop where
  once : s.called.Nodup
  never : ∀ id ∈ s.removed, id ∉ s.called
  all : s.tasks = [] → s.idleSources = 0 → ∀ id ∈ s.due, id ∈ s.called ∨ id ∈ s.removed
  inhibited : ∀ c, (s.cnxs c).inhibitReconnect = true →
    (s.cnxs c).idleBrokenCallbacks ≠ [] ∧ c ∈ s.idleBrokenCnxs ∧
      (0 < s.idleSources ∨ ∃ t ∈ s.tasks, t.idles = true)

/-- A removal that comes neither while a thread is about to call the callback, nor for the last
callback of a connection whose reconnection is inhibited. -/
def Timely (s : State) : Event → Prop
  | .removeBrokenCb c fn userData =>
      (∀ bc ∈ s.tasks.flatMap (Task.taken c), brokenCallbackMatch bc fn userData = false) ∧
        ((s.cnxs c).inhibitReconnect = true →
          ∃ bc ∈ (s.cnxs c).idleBrokenCallbacks, brokenCallbackMatch bc fn userData = false)
  | _ => True

instance (s : State) : ∀ e, Decidable (Timely s e)
  | .removeBrokenCb .. => inferInstanceAs (Decidable ((∀ _ ∈ _, _) ∧ (_ → ∃ _ ∈ _, _)))
  | .addBrokenCb .. | .disconnect .. | .idle | .tryReconnect _ | .run .. => .isTrue trivial

/-- How often the callback is in the list of the connection. -/
def State.pending (s : State) (c id : Nat) : Nat :=
  ((s.cnxs c).idleBrokenCallbacks.map BrokenCallback.id).count id

def Task.ids : Task → List Nat
  | .emitBroken _ callbacks _ => callbacks.map BrokenCallback.id
  | _ => []

/-- How often the callback is with a thread that is about to call it, was called, was removed. -/
def State.gone (s : State) (id : Nat) : Nat :=
  (s.tasks.flatMap Task.ids).count id + s.called.count id + s.removed.count id

/-- Every registration is in one place, and someone will come for what is due. -/
structure Kept (s : State) : Prop where
  one : ∀ c id, s.pending c id + s.gone id ≤ 1
  apart : ∀ c c' id, c ≠ c' → s.pending c id + s.pending c' id ≤ 1
  fresh : ∀ c id, s.registered ≤ id → s.pending c id = 0 ∧ s.gone id = 0
  due : ∀ id ∈ s.due, 0 < s.gone id ∨
    ∃ c, 0 < s.pending c id ∧ (c ∈ s.idleBrokenCnxs ∨ Task.stateChanged c ∈ s.tasks)
  inhibited : ∀ c, (s.cnxs c).inhibitReconnect = true →
    (s.cnxs c).idleBrokenCallbacks ≠ [] ∧ c ∈ s.idleBrokenCnxs
  idle : s.idleBrokenCnxs ≠ [] → 0 < s.idleSources ∨ ∃ t ∈ s.tasks, t.idles = true
  calm : s.ioThread = false → ∀ c, (s.cnxs c).inhibitReconnect = false

/-- What is known of the reconnections that wait. -/
structure Waiting (s : State) : Prop where
  inhibited : ∀ c, (s.cnxs c).inhibitReconnect = true →
    (s.cnxs c).idleBrokenCallbacks ≠ [] ∧ c ∈ s.idleBrokenCnxs
  idle : s.idleBrokenCnxs ≠ [] → 0 < s.idleSources ∨ ∃ t ∈ s.tasks, t.idles = true
  calm : s.ioThread = false → ∀ c, (s.cnxs c).inhibitReconnect = false

theorem Kept.waiting {s : State} (h : Kept s) : Waiting s := ⟨h.inhibited, h.idle, h.calm⟩

@[simp] theorem update_self (s : State) (c : Nat) (cnx : Cnx) : (s.update c cnx).cnxs c = cnx := by
  change Function.update s.cnxs c cnx c = cnx
  exact Function.update_self ..

theorem update_of_ne (s : State) {c c' : Nat} (cnx : Cnx) (h : c' ≠ c) :
    (s.update c cnx).cnxs c' = s.cnxs c' := by
  change Function.update s.cnxs c cnx c' = s.cnxs c'
  exact Function.update_of_ne h ..

theorem pending_update (s : State) (c : Nat) (cnx : Cnx) (c' id : Nat) :
    (s.update c cnx).pending c' id =
      if c' = c then (cnx.idleBrokenCallbacks.map BrokenCallback.id).count id
      else s.pending c' id := by
  by_cases h : c' = c
  · rw [if_pos h, h, State.pending, update_self]
  · rw [if_neg h, State.pending, update_of_ne s cnx h]
    rfl

/-- An update that leaves the callbacks of the connection alone. -/
theorem pending_update_same (s : State) (c : Nat) (cnx : Cnx)
    (h : cnx.idleBrokenCallbacks = (s.cnxs c).idleBrokenCallbacks) (c' id : Nat) :
    (s.update c cnx).pending c' id = s.pending c' id := by
  rw [pending_update]
  split
  · rename_i hc
    rw [h, hc]
    rfl
  · rfl

theorem tasks_perm {tasks : List Task} {i : Nat} {t : Task} (h : tasks[i]? = some t) :
    tasks.Perm (t :: tasks.eraseIdx i) := by
  obtain ⟨hi, rfl⟩ := List.getElem?_eq_some_iff.mp h
  exact (List.getElem_cons_eraseIdx_perm hi).symm

theorem ids_perm {tasks tasks' : List Task} (h : tasks.Perm tasks') (id : Nat) :
    (tasks.flatMap Task.ids).count id = (tasks'.flatMap Task.ids).count id :=
  (h.flatMap_right Task.ids).count_eq id

/-- What a step does not change when it moves no callback. -/
structure Moves (s s' : State) : Prop where
  registered : s'.registered = s.registered
  due : s'.due = s.due
  pending : ∀ c id, s'.pending c id = s.pending c id
  gone : ∀ id, s'.gone id = s.gone id
  waits : ∀ c, 0 < (s.cnxs c).idleBrokenCallbacks.length →
    (c ∈ s.idleBrokenCnxs ∨ Task.stateChanged c ∈ s.tasks) →
    (c ∈ s'.idleBrokenCnxs ∨ Task.stateChanged c ∈ s'.tasks)

theorem pending_pos {s : State} {c id : Nat} (h : 0 < s.pending c id) :
    0 < (s.cnxs c).idleBrokenCallbacks.length := by
  have hle : s.pending c id ≤ ((s.cnxs c).idleBrokenCallbacks.map BrokenCallback.id).length :=
    List.count_le_length
  rw [List.length_map] at hle
  omega

theorem Kept.moves {s s' : State} (h : Kept s) (hm : Moves s s') (hw : Waiting s') :
    Kept s' := by
  refine ⟨?_, ?_, ?_, ?_, hw.inhibited, hw.idle, hw.calm⟩
  · intro c id
    rw [hm.pending, hm.gone]
    exact h.one c id
  · intro c c' id hne
    rw [hm.pending, hm.pending]
    exact h.apart c c' id hne
  · intro c id hid
    rw [hm.pending, hm.gone]
    exact h.fresh c id (hm.registered ▸ hid)
  · intro id hid
    rw [hm.due] at hid
    rw [hm.gone]
    rcases h.due id hid with hgone | ⟨c, hpos, hwait⟩
    · exact .inl hgone
    · exact .inr ⟨c, (hm.pending c id).symm ▸ hpos, hm.waits c (pending_pos hpos) hwait⟩

/-- A thread takes the callbacks of the connection `c`. -/
structure Steals (s s' : State) (c : Nat) : Prop where
  registered : s'.registered = s.registered
  due : s'.due = s.due
  emptied : ∀ id, s'.pending c id = 0
  pending : ∀ c' id, c' ≠ c → s'.pending c' id = s.pending c' id
  gone : ∀ id, s'.gone id = s.gone id + s.pending c id
  waits : ∀ c', c' ≠ c → (c' ∈ s.idleBrokenCnxs ∨ Task.stateChanged c' ∈ s.tasks) →
    (c' ∈ s'.idleBrokenCnxs ∨ Task.stateChanged c' ∈ s'.tasks)

theorem Kept.steals {s s' : State} {c : Nat} (h : Kept s) (hm : Steals s s' c) (hw : Waiting s') :
    Kept s' := by
  refine ⟨?_, ?_, ?_, ?_, hw.inhibited, hw.idle, hw.calm⟩
  · intro c' id
    have hone := h.one c id
    rw [hm.gone]
    by_cases hc : c' = c
    · rw [hc, hm.emptied]
      omega
    · have hone' := h.one c' id
      have hapart := h.apart c' c id hc
      rw [hm.pending c' id hc]
      omega
  · intro c₁ c₂ id hne
    by_cases h₁ : c₁ = c
    · have hone := h.one c₂ id
      rw [h₁, hm.emptied, hm.pending c₂ id (fun h₂ => hne (h₁.trans h₂.symm))]
      omega
    · by_cases h₂ : c₂ = c
      · have hone := h.one c₁ id
        rw [h₂, hm.emptied, hm.pending c₁ id h₁]
        omega
      · rw [hm.pending c₁ id h₁, hm.pending c₂ id h₂]
        exact h.apart c₁ c₂ id hne
  · intro c' id hid
    rw [hm.registered] at hid
    obtain ⟨hpending, hgone⟩ := h.fresh c' id hid
    have hstolen := (h.fresh c id hid).1
    refine ⟨?_, by rw [hm.gone]; omega⟩
    by_cases hc : c' = c
    · rw [hc]
      exact hm.emptied id
    · rw [hm.pending c' id hc]
      exact hpending
  · intro id hid
    rw [hm.due] at hid
    rw [hm.gone]
    rcases h.due id hid with hgone | ⟨c', hpos, hwait⟩
    · exact .inl (by omega)
    · by_cases hc : c' = c
      · rw [hc] at hpos
        exact .inl (by omega)
      · exact .inr ⟨c', (hm.pending c' id hc).symm ▸ hpos, hm.waits c' hc hwait⟩

/-- A thread that goes on without touching the callbacks of a connection. -/
theorem moves_of_tasks {s s' : State} {t : Task} {rest u : List Task}
    (hperm : s.tasks.Perm (t :: rest)) (hnew : s'.tasks = u ++ rest)
    (hregistered : s'.registered = s.registered) (hdue : s'.due = s.due)
    (hpending : ∀ c id, s'.pending c id = s.pending c id)
    (hgone : ∀ id, (u.flatMap Task.ids).count id + s'.called.count id + s'.removed.count id =
      t.ids.count id + s.called.count id + s.removed.count id)
    (hidle : ∀ c ∈ s.idleBrokenCnxs, c ∈ s'.idleBrokenCnxs)
    (hown : ∀ c, t = .stateChanged c → 0 < (s.cnxs c).idleBrokenCallbacks.length →
      c ∈ s'.idleBrokenCnxs) : Moves s s' := by
  refine ⟨hregistered, hdue, hpending, fun id => ?_, fun c hpos hwait => ?_⟩
  · have hids := ids_perm hperm id
    have h := hgone id
    simp only [State.gone, hnew, hids, List.flatMap_append, List.flatMap_cons, List.count_append]
    omega
  · rcases hwait with hmem | hmem
    · exact .inl (hidle c hmem)
    · rcases List.mem_cons.mp (hperm.mem_iff.mp hmem) with heq | hmem
      · exact .inl (hown c heq.symm hpos)
      · exact .inr (hnew ▸ List.mem_append_right _ hmem)

/-- The idle handler goes on, too. -/
theorem idles_of_perm {tasks rest u : List Task} {t : Task} {n : Nat}
    (hperm : tasks.Perm (t :: rest)) (hidle : 0 < n ∨ ∃ t ∈ tasks, t.idles = true)
    (hown : t.idles = true → ∃ t ∈ u, t.idles = true) :
    0 < n ∨ ∃ t ∈ u ++ rest, t.idles = true := by
  rcases hidle with hn | ⟨t', ht', hidles⟩
  · exact .inl hn
  · refine .inr ?_
    rcases List.mem_cons.mp (hperm.mem_iff.mp ht') with rfl | hmem
    · obtain ⟨t, ht, h⟩ := hown hidles
      exact ⟨t, List.mem_append_left _ ht, h⟩
    · exact ⟨t', List.mem_append_right _ hmem, hidles⟩

/-- A thread that takes the callbacks of a connection and is about to call them. -/
theorem steals_of_tasks {s s' : State} {c : Nat} {inhibit : Bool} {t : Task} {rest : List Task}
    {next : Next} (hperm : s.tasks.Perm (t :: rest)) (hids : t.ids = [])
    (hcnxs : s'.cnxs = (s.steal c inhibit).cnxs)
    (htasks : s'.tasks = .emitBroken c (s.cnxs c).idleBrokenCallbacks next :: rest)
    (hregistered : s'.registered = s.registered) (hdue : s'.due = s.due)
    (hcalled : s'.called = s.called) (hremoved : s'.removed = s.removed)
    (hidle : ∀ c' ∈ s.idleBrokenCnxs, c' ≠ c → c' ∈ s'.idleBrokenCnxs)
    (hown : ∀ c', t = .stateChanged c' → c' = c) : Steals s s' c := by
  refine ⟨hregistered, hdue, fun id => ?_, fun c' id hne => ?_, fun id => ?_, ?_⟩
  · rw [State.pending, hcnxs, State.steal, update_self]
    rfl
  · rw [State.pending, hcnxs, State.steal, update_of_ne s _ hne]
    rfl
  · have hcount := ids_perm hperm id
    rw [List.flatMap_cons, hids, List.nil_append] at hcount
    simp only [State.gone, htasks, hcalled, hremoved, hcount, List.flatMap_cons,
      List.count_append, Task.ids, State.pending]
    omega
  · rintro c' hne (hmem | hmem)
    · exact .inl (hidle c' hmem hne)
    · rcases List.mem_cons.mp (hperm.mem_iff.mp hmem) with heq | hmem
      · exact absurd (hown c' heq.symm) hne
      · exact .inr (htasks ▸ List.mem_cons_of_mem _ hmem)

theorem kept_stateChanged {s : State} {c : Nat} {rest : List Task} (acquired reconnected : Bool)
    (h : Kept s) (hperm : s.tasks.Perm (.stateChanged c :: rest)) :
    Kept (runTask s acquired reconnected rest (.stateChanged c)) := by
  have hkeep := fun hne => idles_of_perm (u := []) hperm (h.idle hne) (fun hx => by cases hx)
  simp only [runTask]
  by_cases hnil : (s.cnxs c).idleBrokenCallbacks = []
  · rw [if_pos hnil]
    refine h.moves (moves_of_tasks (u := []) hperm rfl rfl rfl (fun _ _ => rfl) (fun _ => rfl)
      (fun _ hc => hc) ?_) ⟨h.inhibited, hkeep, h.calm⟩
    rintro c' ⟨rfl⟩ hpos
    rw [hnil] at hpos
    cases hpos
  · rw [if_neg hnil]
    by_cases hio : s.ioThread
    · rw [if_pos hio]
      have hcalm : s.ioThread = false → ∀ c, (s.cnxs c).inhibitReconnect = false := h.calm
      simp only [State.addIdleBrokenForCnx]
      by_cases hidle : s.idleBrokenCnxs ≠ []
      · rw [if_pos hidle]
        by_cases hmem : c ∈ s.idleBrokenCnxs
        · rw [if_pos hmem]
          refine h.moves (moves_of_tasks (u := []) hperm rfl rfl rfl (fun _ _ => rfl)
            (fun _ => rfl) (fun _ hc => hc) ?_) ⟨h.inhibited, hkeep, hcalm⟩
          rintro c' ⟨rfl⟩ _
          exact hmem
        · rw [if_neg hmem]
          refine h.moves (moves_of_tasks (u := []) hperm rfl rfl rfl (fun _ _ => rfl)
            (fun _ => rfl) (fun _ hc => List.mem_cons_of_mem _ hc) ?_)
            ⟨fun c' hc => ?_, fun _ => hkeep hidle, hcalm⟩
          · rintro c' ⟨rfl⟩ _
            exact List.mem_cons_self
          · exact ⟨(h.inhibited c' hc).1, List.mem_cons_of_mem _ (h.inhibited c' hc).2⟩
      · rw [if_neg hidle]
        have hempty := not_not.mp hidle
        refine h.moves (moves_of_tasks (u := []) hperm rfl rfl rfl
          (pending_update_same s c _ rfl) (fun _ => rfl) (fun _ hc => ?_) ?_)
          ⟨fun c' hc => ?_, fun _ => .inl (Nat.succ_pos _), fun hio' => ?_⟩
        · rw [hempty] at hc
          cases hc
        · rintro c' ⟨rfl⟩ _
          exact List.mem_singleton.mpr rfl
        · by_cases hcc : c' = c
          · rw [hcc]
            refine ⟨?_, List.mem_singleton.mpr rfl⟩
            simpa [State.update] using hnil
          · have hold : (s.cnxs c').inhibitReconnect = true := by
              rw [← update_of_ne s _ hcc]
              exact hc
            have hmem := (h.inhibited c' hold).2
            rw [hempty] at hmem
            cases hmem
        · rw [show s.ioThread = false from hio'] at hio
          cases hio
    · rw [if_neg hio]
      have hio' := Bool.eq_false_iff.mpr hio
      have hquiet : ∀ c', ((s.steal c (s.cnxs c).inhibitReconnect).cnxs c').inhibitReconnect =
          false := by
        intro c'
        by_cases hcc : c' = c
        · rw [hcc, State.steal, update_self]
          exact h.calm hio' c
        · rw [State.steal, update_of_ne s _ hcc]
          exact h.calm hio' c'
      refine h.steals (steals_of_tasks hperm rfl rfl rfl rfl rfl rfl rfl (fun _ hc _ => hc) ?_)
        ⟨fun c' hc => ?_, fun hne => ?_, fun _ => hquiet⟩
      · rintro c' ⟨rfl⟩
        rfl
      · have hno := hquiet c'
        rw [show _ = true from hc] at hno
        cases hno
      · exact idles_of_perm (u := [_]) hperm (h.idle hne) (fun hx => by cases hx)

theorem kept_emitBroken {s : State} {c : Nat} {callbacks : List BrokenCallback} {next : Next}
    {rest : List Task} (acquired reconnected : Bool) (h : Kept s)
    (hperm : s.tasks.Perm (.emitBroken c callbacks next :: rest)) :
    Kept (runTask s acquired reconnected rest (.emitBroken c callbacks next)) := by
  cases callbacks with
  | nil =>
    have hidles : ∀ new, new = next.tasks c → (Task.emitBroken c [] next).idles = true →
        ∃ t ∈ new, t.idles = true := by
      rintro new rfl hx
      cases next with
      | brokenIdle => exact ⟨.brokenIdle, List.mem_singleton.mpr rfl, rfl⟩
      | done => cases hx
      | tryReconnect => cases hx
    refine h.moves (moves_of_tasks (u := next.tasks c) hperm rfl rfl rfl (fun _ _ => rfl)
      (fun id => ?_) (fun _ hc => hc) ?_)
      ⟨h.inhibited, fun hne => idles_of_perm hperm (h.idle hne) (hidles _ rfl), h.calm⟩
    · cases next <;> rfl
    · rintro c' ⟨⟩
  | cons bc callbacks =>
    refine h.moves (moves_of_tasks (u := [.emitBroken c callbacks next]) hperm rfl rfl rfl
      (fun _ _ => rfl) (fun id => ?_) (fun _ hc => hc) ?_)
      ⟨h.inhibited, fun hne => idles_of_perm (u := [_]) hperm (h.idle hne) ?_, h.calm⟩
    · simp only [runTask, Task.ids, List.flatMap_cons, List.flatMap_nil, List.append_nil,
        List.map_cons, List.count_cons]
      omega
    · rintro c' ⟨⟩
    · intro hx
      refine ⟨.emitBroken c callbacks next, List.mem_singleton.mpr rfl, ?_⟩
      cases next with
      | brokenIdle => rfl
      | done => cases hx
      | tryReconnect => cases hx

theorem kept_brokenIdle {s : State} {rest : List Task} (acquired reconnected : Bool) (h : Kept s)
    (hperm : s.tasks.Perm (.brokenIdle :: rest)) :
    Kept (runTask s acquired reconnected rest .brokenIdle) := by
  simp only [runTask]
  cases hidle : s.idleBrokenCnxs with
  | nil =>
    refine h.moves (moves_of_tasks (u := []) hperm rfl rfl rfl (fun _ _ => rfl) (fun _ => rfl)
      (fun c hc => ?_) ?_) ⟨fun c hc => ?_, fun hne => absurd rfl hne, h.calm⟩
    · rw [hidle] at hc
      exact hc
    · rintro c' ⟨⟩
    · have hold := h.inhibited c hc
      rw [hidle] at hold
      exact hold
  | cons c cs =>
    refine h.steals (c := c) (steals_of_tasks hperm rfl rfl rfl rfl rfl rfl rfl
      (fun c' hc hne => ?_) ?_)
      ⟨fun c' hc => ?_, fun _ => ?_, fun hio c' => ?_⟩
    · rw [hidle] at hc
      exact (List.mem_cons.mp hc).resolve_left hne
    · rintro c' ⟨⟩
    · by_cases hcc : c' = c
      · rw [hcc] at hc
        simp [State.steal] at hc
      · have hold : (s.cnxs c').inhibitReconnect = true := by
          rw [← update_of_ne s _ hcc]
          exact hc
        obtain ⟨hne, hmem⟩ := h.inhibited c' hold
        rw [hidle] at hmem
        refine ⟨?_, (List.mem_cons.mp hmem).resolve_left hcc⟩
        simpa [State.steal, update_of_ne s _ hcc] using hne
    · exact .inr ⟨_, List.mem_cons_self, rfl⟩
    · by_cases hcc : c' = c
      · rw [hcc]
        simp [State.steal]
      · simpa [State.steal, update_of_ne s _ hcc] using h.calm hio c'

theorem kept_tryReconnect {s : State} {c : Nat} {rest : List Task} (acquired reconnected : Bool)
    (h : Kept s) (hperm : s.tasks.Perm (.tryReconnect c :: rest)) :
    Kept (runTask s acquired reconnected rest (.tryReconnect c)) := by
  have hkeep := fun hne => idles_of_perm (u := []) hperm (h.idle hne) (fun hx => by cases hx)
  simp only [runTask]
  by_cases hin : (s.cnxs c).inhibitReconnect
  · rw [if_pos hin]
    cases acquired with
    | false => exact h
    | true =>
      refine h.steals (c := c) (steals_of_tasks hperm rfl rfl rfl rfl rfl rfl rfl
        (fun c' hc _ => hc) ?_) ⟨fun c' hc => ?_, fun hne => ?_, fun hio c' => ?_⟩
      · rintro c' ⟨⟩
      · by_cases hcc : c' = c
        · rw [hcc] at hc
          simp [State.steal] at hc
        · have hold : (s.cnxs c').inhibitReconnect = true := by
            rw [← update_of_ne s _ hcc]
            exact hc
          obtain ⟨hne, hmem⟩ := h.inhibited c' hold
          refine ⟨?_, hmem⟩
          simpa [State.steal, update_of_ne s _ hcc] using hne
      · exact idles_of_perm (u := [_]) hperm (h.idle hne) (fun hx => by cases hx)
      · have hno := h.calm hio c
        rw [hin] at hno
        cases hno
  · rw [if_neg hin]
    refine h.moves (moves_of_tasks (u := []) hperm rfl rfl rfl
      (pending_update_same s c _ rfl) (fun _ => rfl) (fun _ hc => hc) ?_)
      ⟨fun c' hc => ?_, hkeep, fun hio c' => ?_⟩
    · rintro c' ⟨⟩
    · by_cases hcc : c' = c
      · rw [hcc] at hc
        simp only [update_self] at hc
        exact absurd hc hin
      · have hold : (s.cnxs c').inhibitReconnect = true := by
          rw [← update_of_ne s _ hcc]
          exact hc
        refine ⟨?_, (h.inhibited c' hold).2⟩
        change ((s.update c _).cnxs c').idleBrokenCallbacks ≠ []
        rw [update_of_ne s _ hcc]
        exact (h.inhibited c' hold).1
    · by_cases hcc : c' = c
      · rw [hcc]
        simpa using hin
      · simpa [update_of_ne s _ hcc] using h.calm hio c'

theorem kept_run {s : State} {t : Task} {rest : List Task} (acquired reconnected : Bool)
    (h : Kept s) (hperm : s.tasks.Perm (t :: rest)) :
    Kept (runTask s acquired reconnected rest t) := by
  cases t with
  | stateChanged c => exact kept_stateChanged acquired reconnected h hperm
  | emitBroken c callbacks next => exact kept_emitBroken acquired reconnected h hperm
  | brokenIdle => exact kept_brokenIdle acquired reconnected h hperm
  | tryReconnect c => exact kept_tryReconnect acquired reconnected h hperm

/-- One connection has changed, and still inhibits its reconnection if it did. -/
theorem waiting_of_update {s u : State} {c : Nat} {cnx : Cnx}
    (h : Waiting s) (hio : u.ioThread = s.ioThread) (hcnxs : u.cnxs = (s.update c cnx).cnxs)
    (hidle : u.idleBrokenCnxs = s.idleBrokenCnxs) (hsources : u.idleSources = s.idleSources)
    (htasks : ∀ t ∈ s.tasks, t ∈ u.tasks)
    (hin : cnx.inhibitReconnect = (s.cnxs c).inhibitReconnect)
    (hne : (s.cnxs c).inhibitReconnect = true → cnx.idleBrokenCallbacks ≠ []) : Waiting u := by
  have hinhibit : ∀ c', (u.cnxs c').inhibitReconnect = (s.cnxs c').inhibitReconnect := by
    intro c'
    rw [hcnxs]
    by_cases hcc : c' = c
    · rw [hcc, update_self, hin]
    · rw [update_of_ne s _ hcc]
  refine ⟨fun c' hc => ?_, fun hx => ?_, fun hx c' => ?_⟩
  · rw [hinhibit] at hc
    obtain ⟨hold, hmem⟩ := h.inhibited c' hc
    refine ⟨?_, hidle ▸ hmem⟩
    rw [hcnxs]
    by_cases hcc : c' = c
    · rw [hcc, update_self]
      exact hne (hcc ▸ hc)
    · rw [update_of_ne s _ hcc]
      exact hold
  · rw [hsources]
    rcases h.idle (hidle ▸ hx) with hpos | ⟨t, ht, hidles⟩
    · exact .inl hpos
    · exact .inr ⟨t, htasks t ht, hidles⟩
  · rw [hinhibit]
    exact h.calm (hio ▸ hx) c'

theorem kept_add {s : State} (c fn : Nat) (userData : Option Nat) (h : Kept s) :
    Kept (step s (.addBrokenCb c fn userData)) := by
  have hpending : ∀ c' id, (step s (.addBrokenCb c fn userData)).pending c' id =
      s.pending c' id + if c' = c ∧ id = s.registered then 1 else 0 := by
    intro c' id
    refine (pending_update s c _ c' id).trans ?_
    by_cases hc : c' = c
    · rw [if_pos hc, List.map_cons, List.count_cons, hc, State.pending]
      by_cases hid : id = s.registered
      · simp [hid]
      · have hid' : s.registered ≠ id := fun hx => hid hx.symm
        simp [hid, hid']
    · rw [if_neg hc, if_neg (fun hx => hc hx.1)]
      rfl
  have hgone : ∀ id, (step s (.addBrokenCb c fn userData)).gone id = s.gone id := fun _ => rfl
  have hwaiting := waiting_of_update (u := step s (.addBrokenCb c fn userData)) h.waiting rfl
    rfl rfl rfl (fun _ ht => ht) rfl (fun _ => List.cons_ne_nil _ _)
  refine ⟨?_, ?_, ?_, ?_, hwaiting.inhibited, hwaiting.idle, hwaiting.calm⟩
  · intro c' id
    rw [hpending, hgone]
    have hone := h.one c' id
    split
    · rename_i hnew
      have hfresh := h.fresh c' id (hnew.2 ▸ Nat.le_refl _)
      omega
    · exact hone
  · intro c₁ c₂ id hne
    rw [hpending, hpending]
    have hapart := h.apart c₁ c₂ id hne
    have hf₁ := h.fresh c₁ id
    have hf₂ := h.fresh c₂ id
    split <;> split <;> omega
  · intro c' id hid
    have hid' : s.registered + 1 ≤ id := hid
    rw [hpending, hgone, if_neg (by omega)]
    exact h.fresh c' id (by omega)
  · intro id hid
    rcases h.due id hid with hpos | ⟨c', hpos, hwait⟩
    · exact .inl hpos
    · refine .inr ⟨c', ?_, hwait⟩
      rw [hpending]
      omega

theorem filter_count (callbacks : List BrokenCallback) (p : BrokenCallback → Bool) (id : Nat) :
    ((callbacks.filter p).map BrokenCallback.id).count id +
        ((callbacks.filter fun bc => !p bc).map BrokenCallback.id).count id =
      (callbacks.map BrokenCallback.id).count id := by
  have hperm := (List.filter_append_perm p callbacks).map BrokenCallback.id
  rw [← hperm.count_eq id, List.map_append, List.count_append]

theorem kept_remove {s : State} {c : Nat} {fn userData : Option Nat} (h : Kept s)
    (ht : Timely s (.removeBrokenCb c fn userData)) :
    Kept (step s (.removeBrokenCb c fn userData)) := by
  obtain ⟨htaken, hlast⟩ := ht
  have hnone : (s.tasks.flatMap (Task.taken c)).filter (fun bc => brokenCallbackMatch bc fn userData) =
      [] := by
    refine List.filter_eq_nil_iff.mpr fun bc hbc => ?_
    rw [htaken bc hbc]
    exact Bool.false_ne_true
  have hsplit : ∀ id, ((step s (.removeBrokenCb c fn userData)).pending c id +
      (step s (.removeBrokenCb c fn userData)).gone id = s.pending c id + s.gone id) := by
    intro id
    have hfilter := filter_count (s.cnxs c).idleBrokenCallbacks
      (fun bc => brokenCallbackMatch bc fn userData) id
    have hpending : (step s (.removeBrokenCb c fn userData)).pending c id =
        (((s.cnxs c).idleBrokenCallbacks.filter
          fun bc => !brokenCallbackMatch bc fn userData).map BrokenCallback.id).count id :=
      (pending_update s c _ c id).trans (if_pos rfl)
    rw [hpending]
    simp only [State.gone, step, State.update, List.filter_append, hnone, List.append_nil,
      List.count_append]
    simp only [State.pending]
    omega
  have hother : ∀ c' id, c' ≠ c →
      (step s (.removeBrokenCb c fn userData)).pending c' id = s.pending c' id :=
    fun c' id hc => (pending_update s c _ c' id).trans (if_neg hc)
  have hgrows : ∀ id, s.gone id ≤ (step s (.removeBrokenCb c fn userData)).gone id := by
    intro id
    simp only [State.gone, step, State.update, List.count_append]
    omega
  have hwaiting := waiting_of_update (u := step s (.removeBrokenCb c fn userData)) h.waiting
    rfl rfl rfl rfl (fun _ ht => ht) rfl (fun hin => by
      obtain ⟨bc, hbc, hm⟩ := hlast hin
      exact List.ne_nil_of_mem (List.mem_filter.mpr ⟨hbc, by rw [hm]; rfl⟩))
  refine ⟨?_, ?_, ?_, ?_, hwaiting.inhibited, hwaiting.idle, hwaiting.calm⟩
  · intro c' id
    have hs := hsplit id
    have hg := hgrows id
    have hone := h.one c id
    by_cases hc : c' = c
    · rw [hc]
      omega
    · rw [hother c' id hc]
      have hone' := h.one c' id
      have hapart := h.apart c' c id hc
      omega
  · intro c₁ c₂ id hne
    have hs := hsplit id
    have hg := hgrows id
    have hapart := h.apart c₁ c₂ id hne
    by_cases h₁ : c₁ = c
    · rw [hother c₂ id (fun h₂ => hne (h₁.trans h₂.symm)), h₁]
      rw [h₁] at hapart
      omega
    · by_cases h₂ : c₂ = c
      · rw [hother c₁ id h₁, h₂]
        rw [h₂] at hapart
        omega
      · rw [hother c₁ id h₁, hother c₂ id h₂]
        exact hapart
  · intro c' id hid
    have hs := hsplit id
    have hg := hgrows id
    obtain ⟨hpc, hgone⟩ := h.fresh c id hid
    by_cases hc : c' = c
    · rw [hc]
      omega
    · rw [hother c' id hc]
      exact ⟨(h.fresh c' id hid).1, by omega⟩
  · intro id hid
    have hs := hsplit id
    have hg := hgrows id
    rcases h.due id hid with hpos | ⟨c', hpos, hwait⟩
    · exact .inl (by omega)
    · by_cases hc : c' = c
      · rw [hc] at hpos hwait
        by_cases hleft : 0 < (step s (.removeBrokenCb c fn userData)).pending c id
        · exact .inr ⟨c, hleft, hwait⟩
        · exact .inl (by omega)
      · exact .inr ⟨c', (hother c' id hc).symm ▸ hpos, hwait⟩

theorem kept_disconnect {s : State} {c : Nat} {timedOut : Bool} (h : Kept s) :
    Kept (step s (.disconnect c timedOut)) := by
  simp only [step]
  generalize (if timedOut = true then Link.Status.timeout else .disconnected) = status
  by_cases hs : (s.cnxs c).status = status
  · rw [if_pos hs]
    exact h
  · rw [if_neg hs]
    have hpending := pending_update_same s c { s.cnxs c with status := status } rfl
    have hwaiting := waiting_of_update (u := { s.update c { s.cnxs c with status := status } with
        tasks := .stateChanged c :: s.tasks
        due := s.due ++ (s.cnxs c).idleBrokenCallbacks.map BrokenCallback.id }) h.waiting rfl rfl
      rfl rfl (fun _ ht => List.mem_cons_of_mem _ ht) rfl (fun hin => (h.inhibited c hin).1)
    refine ⟨?_, ?_, ?_, ?_, hwaiting.inhibited, hwaiting.idle, hwaiting.calm⟩
    · intro c' id
      change (s.update c _).pending c' id + s.gone id ≤ 1
      rw [hpending]
      exact h.one c' id
    · intro c₁ c₂ id hne
      change (s.update c _).pending c₁ id + (s.update c _).pending c₂ id ≤ 1
      rw [hpending, hpending]
      exact h.apart c₁ c₂ id hne
    · intro c' id hid
      exact ⟨(hpending c' id).trans (h.fresh c' id hid).1, (h.fresh c' id hid).2⟩
    · intro id hid
      rcases List.mem_append.mp hid with hold | hnew
      · rcases h.due id hold with hpos | ⟨c', hpos, hwait⟩
        · exact .inl hpos
        · refine .inr ⟨c', (hpending c' id).symm ▸ hpos, ?_⟩
          exact hwait.imp_right fun hmem => List.mem_cons_of_mem _ hmem
      · have hpos : 0 < s.pending c id := List.count_pos_iff.mpr hnew
        exact .inr ⟨c, (hpending c id).symm ▸ hpos, .inr List.mem_cons_self⟩

theorem kept_step (s : State) (e : Event) (h : Kept s) (ht : Timely s e) : Kept (step s e) := by
  cases e with
  | addBrokenCb c fn userData => exact kept_add c fn userData h
  | removeBrokenCb c fn userData => exact kept_remove h ht
  | disconnect c timedOut => exact kept_disconnect h
  | idle =>
    simp only [step]
    by_cases hzero : s.idleSources = 0
    · rw [if_pos hzero]
      exact h
    · rw [if_neg hzero]
      refine h.moves ⟨rfl, rfl, fun _ _ => rfl, fun _ => rfl, fun c _ hwait => ?_⟩
        ⟨h.inhibited, fun _ => .inr ⟨.brokenIdle, List.mem_cons_self, rfl⟩, h.calm⟩
      exact hwait.imp_right fun hmem => List.mem_cons_of_mem _ hmem
  | tryReconnect c =>
    refine h.moves ⟨rfl, rfl, fun _ _ => rfl, fun _ => rfl, fun c' _ hwait => ?_⟩
      ⟨h.inhibited, fun hne => ?_, h.calm⟩
    · exact hwait.imp_right fun hmem => List.mem_cons_of_mem _ hmem
    · rcases h.idle hne with hpos | ⟨t, htm, hidles⟩
      · exact .inl hpos
      · exact .inr ⟨t, List.mem_cons_of_mem _ htm, hidles⟩
  | run i acquired reconnected =>
    simp only [step]
    cases hget : s.tasks[i]? with
    | none => exact h
    | some t => exact kept_run acquired reconnected h (tasks_perm hget)

theorem kept_initial (ioThread : Bool) : Kept (initial ioThread) := by
  refine ⟨fun _ _ => Nat.zero_le _, fun _ _ _ _ => Nat.zero_le _, fun _ _ _ => ⟨rfl, rfl⟩, ?_, ?_, ?_,
    fun _ _ => rfl⟩
  · intro id hid
    cases hid
  · intro c hc
    cases hc
  · intro hne
    exact absurd rfl hne

theorem Kept.notified {s : State} (h : Kept s) : Notified s := by
  refine ⟨?_, ?_, ?_, ?_⟩
  · refine List.nodup_iff_count.mpr fun id => ?_
    have hone := h.one 0 id
    simp only [State.gone] at hone
    omega
  · intro id hid hcalled
    have hone := h.one 0 id
    have hr := List.count_pos_iff.mpr hid
    have hc := List.count_pos_iff.mpr hcalled
    simp only [State.gone] at hone
    omega
  · intro htasks hsources id hid
    rcases h.due id hid with hpos | ⟨c, -, hmem | hmem⟩
    · simp only [State.gone, htasks, List.flatMap_nil, List.count_nil] at hpos
      by_cases hc : 0 < s.called.count id
      · exact .inl (List.count_pos_iff.mp hc)
      · exact .inr (List.count_pos_iff.mp (by omega))
    · rcases h.idle (List.ne_nil_of_mem hmem) with hpos | ⟨t, ht, -⟩
      · omega
      · rw [htasks] at ht
        cases ht
    · rw [htasks] at hmem
      cases hmem
  · intro c hc
    obtain ⟨hne, hmem⟩ := h.inhibited c hc
    exact ⟨hne, hmem, h.idle (List.ne_nil_of_mem hmem)⟩

/-- Two connections break; one callback has been removed, one comes from the idle handler and one
from a reconnection. -/
def brokenTwice : List Event :=
  [.addBrokenCb 0 1 none, .addBrokenCb 0 2 none, .addBrokenCb 1 1 none,
    .removeBrokenCb 0 (some 2) none, .disconnect 0 false, .disconnect 1 true, .run 1 false false,
    .run 0 false false, .tryReconnect 0, .run 0 true false, .run 0 false false, .run 0 false false,
    .run 0 false true, .idle, .run 0 false false, .run 0 false false, .run 0 false false,
    .run 0 false false, .run 0 false false, .run 0 false false]

/-- The idle handler has called one of two callbacks when the other one is removed. -/
def removedLate : List Event :=
  [.addBrokenCb 0 1 none, .addBrokenCb 0 2 none, .disconnect 0 false, .run 0 false false, .idle,
    .run 0 false false, .run 0 false false, .removeBrokenCb 0 (some 1) none, .run 0 false false]

end ORBit2.Broken
