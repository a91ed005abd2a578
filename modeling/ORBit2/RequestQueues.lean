import ORBit2.Base.Runs

/-! The request queues of the threads (giop.c): keys that bind to a thread while there is work for
them, workers of the pool, and threads that take work while they wait for a reply. -/

set_option autoImplicit false

namespace ORBit2.Pool

open Runs

/-- `GIOPQueueEntry`, with the key it was pushed with and the POA of its object. -/
structure Request where
  id : Nat
  key : Option Nat
  poa : Nat
  deriving DecidableEq, Repr

/-- What a thread is in the middle of: a request, the callback of an asynchronous reply, or a call
through a stub, with the POAs that its policy allows meanwhile. -/
inductive Frame where
  | request (request : Request)
  | async
  | call (policy : Option (List Nat))
  deriving DecidableEq, Repr

def Frame.policy : Frame → Option (List Nat)
  | .call policy => policy
  | _ => none

/-- Where a thread is. `loop` and `chosen` are the two steps of `giop_thread_queue_process`,
`checking` is the end of a round in `giop_request_handler_thread`. -/
inductive Pc where
  | unborn
  | pooled
  | running
  | loop
  | chosen (request : Option Request) (noPolicy : Bool)
  | checking
  | freed
  deriving DecidableEq, Repr

/-- `GIOPThread`; `pool` is set for what `giop_thread_request_push_key` has made. -/
structure GIOPThread where
  pool : Bool
  pc : Pc
  keys : List Nat
  requestQueue : List Request
  asyncEnts : Nat
  stack : List Frame
  deriving DecidableEq, Repr

namespace GIOPThread

/-- `invoke_policies`: every stub takes back the policy it has pushed. -/
def policies (d : GIOPThread) : List (List Nat) := d.stack.filterMap Frame.policy

/-- `first_valid_request`, with `no_policy`. -/
def firstValid (d : GIOPThread) : Option Request × Bool :=
  match d.policies.head? with
  | none => (none, true)
  | some allowed => (d.requestQueue.find? fun r => allowed.contains r.poa, false)

/-- `giop_thread_queue_empty_T`. -/
def queueEmpty (d : GIOPThread) : Bool :=
  match d.firstValid with
  | (some _, _) => false
  | (none, true) => d.requestQueue.isEmpty && d.asyncEnts == 0
  | (none, false) => true

def alive (d : GIOPThread) : Bool := d.pc != .unborn && d.pc != .freed

/-- Where a thread goes on behind a request or a visit of its queue. -/
def after (pool : Bool) (stack : List Frame) : Pc :=
  if pool && stack.isEmpty then .checking else .running

/-- It waits for a reply, or is a thread of the program, which may run its main loop. -/
def waits (d : GIOPThread) : Bool :=
  match d.stack with
  | .call _ :: _ => true
  | _ => !d.pool

/-- The second step of `giop_thread_queue_process`: the thread, and the request it takes. -/
def pop (d : GIOPThread) (request : Option Request) (noPolicy : Bool) :
    GIOPThread × Option Request :=
  if noPolicy then
    match d.asyncEnts, d.requestQueue with
    | n + 1, _ => ({ d with asyncEnts := n, stack := .async :: d.stack, pc := .running }, none)
    | 0, r :: rest =>
        ({ d with requestQueue := rest, stack := .request r :: d.stack, pc := .running }, some r)
    | 0, [] => ({ d with pc := after d.pool d.stack }, none)
  else
    match request with
    | some r =>
        ({ d with
          requestQueue := d.requestQueue.erase r
          stack := .request r :: d.stack
          pc := .running }, some r)
    | none => ({ d with pc := after d.pool d.stack }, none)

end GIOPThread

/-- `hash` is `giop_pool_hash`; `pushed` and `handled` are the requests in the order in which they
were pushed and in which their handlers were called. -/
structure State where
  threads : Nat → GIOPThread
  count : Nat
  hash : Nat → Option Nat
  pushed : List Request
  handled : List Request

inductive Event where
  | spawn
  | pushKey (key : Option Nat) (poa : Nat)
  | push (t poa : Nat)
  | invokeAsync (t : Nat)
  | keyAdd (t key : Nat)
  | keyRelease (key : Nat)
  | start (t : Nat)
  | call (t : Nat) (policy : Option (List Nat))
  | endCall (t : Nat)
  | reenter (t : Nat)
  | choose (t : Nat)
  | pop (t : Nat)
  | ret (t : Nat)
  | check (t : Nat)
  | exit (t : Nat)
  deriving DecidableEq, Repr

def userThread : GIOPThread := ⟨false, .running, [], [], 0, []⟩

namespace State

def set (s : State) (t : Nat) (d : GIOPThread) : State :=
  { s with threads := Function.update s.threads t d }

/-- `giop_thread_request_push`. -/
def requestPush (s : State) (t : Nat) (r : Request) : State :=
  { s.set t { s.threads t with requestQueue := (s.threads t).requestQueue ++ [r] } with
    pushed := s.pushed ++ [r] }

/-- `giop_thread_request_push_key`. -/
def requestPushKey (s : State) (r : Request) : State :=
  match r.key.bind s.hash with
  | some t => s.requestPush t r
  | none =>
      { s.set s.count ⟨true, .pooled, r.key.toList, [r], 0, []⟩ with
        count := s.count + 1
        hash := match r.key with
          | some key => Function.update s.hash key (some s.count)
          | none => s.hash
        pushed := s.pushed ++ [r] }

/-- The keys of a thread are released, and it is freed. -/
def threadFree (s : State) (t : Nat) : State :=
  { s.set t { s.threads t with keys := [], pc := .freed } with
    hash := fun key => if key ∈ (s.threads t).keys then none else s.hash key }

/-- A request that refers to a key, as it does to its object. -/
def refers (d : GIOPThread) (key : Nat) : Bool :=
  d.requestQueue.any (fun r => r.key == some key) ||
    d.stack.any fun
      | .request r => r.key == some key
      | _ => false

end State

def step (s : State) : Event → State
  | .spawn => { s.set s.count userThread with count := s.count + 1 }
  | .pushKey key poa => s.requestPushKey ⟨s.pushed.length, key, poa⟩
  | .push t poa =>
      if (s.threads t).alive then s.requestPush t ⟨s.pushed.length, none, poa⟩ else s
  | .invokeAsync t =>
      if (s.threads t).alive then
        s.set t { s.threads t with asyncEnts := (s.threads t).asyncEnts + 1 }
      else s
  | .keyAdd t key =>
      -- a key that is in use fails the assertion of `giop_thread_key_add_T`
      if (s.threads t).pc = .running ∧ s.hash key = none then
        { s.set t { s.threads t with keys := key :: (s.threads t).keys } with
          hash := Function.update s.hash key (some t) }
      else s
  | .keyRelease key =>
      -- the object goes with its last reference, and every request has one
      match s.hash key with
      | some t =>
          if State.refers (s.threads t) key then s
          else
            { s.set t { s.threads t with keys := (s.threads t).keys.erase key } with
              hash := Function.update s.hash key none }
      | none => s
  | .start t =>
      if (s.threads t).pc = .pooled then s.set t { s.threads t with pc := .loop } else s
  | .call t policy =>
      if (s.threads t).pc = .running then
        s.set t { s.threads t with stack := .call policy :: (s.threads t).stack }
      else s
  | .endCall t =>
      match (s.threads t).pc, (s.threads t).stack with
      | .running, .call _ :: rest => s.set t { s.threads t with stack := rest }
      | _, _ => s
  | .reenter t =>
      if (s.threads t).pc = .running ∧ (s.threads t).waits ∧ (s.threads t).queueEmpty = false then
        s.set t { s.threads t with pc := .loop }
      else s
  | .choose t =>
      if (s.threads t).pc = .loop then
        s.set t { s.threads t with
          pc := .chosen (s.threads t).firstValid.1 (s.threads t).firstValid.2 }
      else s
  | .pop t =>
      match (s.threads t).pc with
      | .chosen request noPolicy =>
          { s.set t ((s.threads t).pop request noPolicy).1 with
            handled := s.handled ++ ((s.threads t).pop request noPolicy).2.toList }
      | _ => s
  | .ret t =>
      match (s.threads t).pc, (s.threads t).stack with
      | .running, .request _ :: rest | .running, .async :: rest =>
          s.set t { s.threads t with
            stack := rest, pc := GIOPThread.after (s.threads t).pool rest }
      | _, _ => s
  | .check t =>
      if (s.threads t).pc = .checking then
        if (s.threads t).queueEmpty then s.threadFree t
        else s.set t { s.threads t with pc := .loop }
      else s
  | .exit t =>
      if (s.threads t).pool = false ∧ (s.threads t).pc = .running ∧ (s.threads t).stack = [] then
        s.threadFree t
      else s

/-- The main thread, before the first request. -/
def initial : State where
  threads := fun t => if t = 0 then userThread else ⟨false, .unborn, [], [], 0, []⟩
  count := 1
  hash := fun _ => none
  pushed := []
  handled := []

/-- The thread whose step an event is. -/
def Event.actor : Event → Option Nat
  | .start t | .endCall t | .reenter t | .choose t | .pop t | .ret t | .check t => some t
  | _ => none

/-- The requests of one key. -/
def ofKey (key : Nat) (requests : List Request) : List Request :=
  requests.filter fun r => r.key = some key

/-- The requests that wait on the thread a key is bound to. -/
def State.queuedWith (s : State) (key : Nat) : List Request :=
  match s.hash key with
  | some t => ofKey key (s.threads t).requestQueue
  | none => []

/-- What has been handled and what is queued are, for each key, the requests pushed with it, in
order and each once; the requests of a key are with one thread; nothing is left on a thread that is
over; and what is queued, the thread handles, going on by itself with what it does. -/
structure Served (s : State) : Prop where
  inOrder : ∀ key, ofKey key s.handled ++ s.queuedWith key = ofKey key s.pushed
  once : ∀ key, (ofKey key s.handled).Nodup
  oneThread : ∀ t t' r r', .request r ∈ (s.threads t).stack → .request r' ∈ (s.threads t').stack →
    r.key ≠ none → r.key = r'.key → t = t'
  noneLeft : ∀ t, (s.threads t).pc = .freed → (s.threads t).requestQueue = []
  served : ∀ t, ∀ r ∈ (s.threads t).requestQueue, ∃ es : List Event,
    (∀ e ∈ es, e.actor = some t) ∧ r ∈ (run step s es).handled

/-- A thread of the program ends with nothing queued for it; and a policy lets a thread take only a
request that no other of its key is queued before. -/
def Fair (s : State) : Event → Prop
  | .exit t =>
      (s.threads t).pool = false → (s.threads t).pc = .running → (s.threads t).stack = [] →
        (s.threads t).requestQueue = []
  | .pop t => ∀ r, (s.threads t).pc = .chosen (some r) false → ∀ key, r.key = some key →
      (ofKey key (s.threads t).requestQueue).head? = some r
  | _ => True

/-! ### One thread -/

/-- What holds of a thread by itself. -/
structure GIOPThread.Coherent (d : GIOPThread) : Prop where
  dead : d.alive = false → d.requestQueue = [] ∧ d.stack = [] ∧ d.keys = []
  busy : d.pool = true → d.pc = .running → d.stack ≠ []
  top : d.pc = .pooled ∨ d.pc = .checking → d.pool = true ∧ d.stack = []
  picked : ∀ r noPolicy, d.pc = .chosen (some r) noPolicy → noPolicy = false ∧ r ∈ d.requestQueue
  /-- a worker of the pool is in no call but those of its requests -/
  ground : d.pool = true → ∀ policy, d.stack.getLast? ≠ some (.call policy)
  nodup : d.keys.Nodup

theorem coherent_userThread : userThread.Coherent where
  dead h := by cases h
  busy h := by cases h
  top h := by rcases h with h | h <;> cases h
  picked := nofun
  ground h := by cases h
  nodup := List.nodup_nil

theorem coherent_unborn : (⟨false, .unborn, [], [], 0, []⟩ : GIOPThread).Coherent where
  dead _ := ⟨rfl, rfl, rfl⟩
  busy h := by cases h
  top h := by rcases h with h | h <;> cases h
  picked := nofun
  ground h := by cases h
  nodup := List.nodup_nil

namespace GIOPThread
variable {d : GIOPThread}

theorem Coherent.requestPush (h : d.Coherent) (halive : d.alive = true) (r : Request) :
    { d with requestQueue := d.requestQueue ++ [r] }.Coherent :=
  { h with
    dead := fun hdead => absurd (halive.symm.trans hdead) Bool.false_ne_true.symm
    picked := fun r' noPolicy hpc =>
      ⟨(h.picked r' noPolicy hpc).1, List.mem_append_left _ (h.picked r' noPolicy hpc).2⟩ }

theorem after_cases (pool : Bool) (stack : List Frame) :
    after pool stack = .checking ∧ pool = true ∧ stack = [] ∨
      after pool stack = .running ∧ (pool = true → stack ≠ []) := by
  unfold after
  cases pool <;> cases stack <;> simp

/-- A thread that goes on behind a request or a visit of its queue. -/
theorem Coherent.goesOn (h : d.Coherent) (stack : List Frame)
    (hground : d.pool = true → ∀ policy, stack.getLast? ≠ some (.call policy)) :
    { d with stack := stack, pc := after d.pool stack }.Coherent := by
  rcases after_cases d.pool stack with ⟨hpc, hpool, hnil⟩ | ⟨hpc, hbusy⟩ <;> rw [hpc]
  · exact {
      dead := fun hdead => by cases hdead
      busy := fun _ hrunning => by cases hrunning
      top := fun _ => ⟨hpool, hnil⟩
      picked := nofun
      ground := hground
      nodup := h.nodup }
  · exact {
      dead := fun hdead => by cases hdead
      busy := fun hpool _ => hbusy hpool
      top := fun hpc => by rcases hpc with hpc | hpc <;> cases hpc
      picked := nofun
      ground := hground
      nodup := h.nodup }

theorem ground_cons {f : Frame} {stack : List Frame} {policy : Option (List Nat)}
    (h : stack.getLast? ≠ some (.call policy)) (hf : stack = [] → f ≠ .call policy) :
    (f :: stack).getLast? ≠ some (.call policy) := by
  cases stack with
  | nil => simpa using hf rfl
  | cons g stack => simpa [List.getLast?_cons_cons] using h

theorem ground_tail {f : Frame} {stack : List Frame} {policy : Option (List Nat)}
    (h : (f :: stack).getLast? ≠ some (.call policy)) : stack.getLast? ≠ some (.call policy) := by
  cases stack with
  | nil => exact nofun
  | cons g stack => simpa [List.getLast?_cons_cons] using h

/-- A thread that begins with what it has taken. -/
theorem Coherent.begins (h : d.Coherent) (requestQueue : List Request) (asyncEnts : Nat)
    {f : Frame} (hf : ∀ policy, f ≠ .call policy) :
    { d with
      requestQueue := requestQueue
      asyncEnts := asyncEnts
      stack := f :: d.stack
      pc := .running }.Coherent where
  dead hdead := by cases hdead
  busy _ _ := by simp
  top hpc := by rcases hpc with hpc | hpc <;> cases hpc
  picked := nofun
  ground hpool policy := ground_cons (h.ground hpool policy) fun _ => hf policy
  nodup := h.nodup

theorem Coherent.pop (h : d.Coherent) (request : Option Request) (noPolicy : Bool) :
    (d.pop request noPolicy).1.Coherent := by
  unfold GIOPThread.pop
  cases noPolicy with
  | true =>
    simp only [if_true]
    split
    · exact h.begins _ _ nofun
    · exact h.begins _ _ nofun
    · exact h.goesOn d.stack h.ground
  | false =>
    simp only [Bool.false_eq_true, if_false]
    split
    · exact h.begins _ _ nofun
    · exact h.goesOn d.stack h.ground

theorem Coherent.start (h : d.Coherent) : { d with pc := .loop }.Coherent where
  dead hdead := by cases hdead
  busy _ hpc := by cases hpc
  top hpc := by rcases hpc with hpc | hpc <;> cases hpc
  picked := nofun
  ground := h.ground
  nodup := h.nodup

theorem Coherent.choose (h : d.Coherent) :
    { d with pc := .chosen d.firstValid.1 d.firstValid.2 }.Coherent where
  dead hdead := by cases hdead
  busy _ hpc := by cases hpc
  top hpc := by rcases hpc with hpc | hpc <;> cases hpc
  picked r noPolicy hpc := by
    obtain ⟨hr, hpolicy⟩ := Pc.chosen.inj hpc
    unfold firstValid at hr hpolicy
    split at hr
    · cases hr
    · exact ⟨hpolicy.symm.trans (by simp [*]), List.mem_of_find?_eq_some hr⟩
  ground := h.ground
  nodup := h.nodup

theorem Coherent.call (h : d.Coherent) (hpc : d.pc = .running) (policy : Option (List Nat)) :
    { d with stack := .call policy :: d.stack }.Coherent where
  dead hdead := by simp [alive, hpc] at hdead
  busy _ _ := by simp
  top htop := by rcases htop with htop | htop <;> exact absurd (hpc.symm.trans htop) nofun
  picked r noPolicy hchosen := absurd (hpc.symm.trans hchosen) nofun
  ground hpool policy' :=
    ground_cons (h.ground hpool policy') fun hnil => absurd hnil (h.busy hpool hpc)
  nodup := h.nodup

theorem Coherent.endCall (h : d.Coherent) (hpc : d.pc = .running) {policy : Option (List Nat)}
    {rest : List Frame} (hstack : d.stack = .call policy :: rest) :
    { d with stack := rest }.Coherent where
  dead hdead := by simp [alive, hpc] at hdead
  busy hpool _ hnil := by
    have hground := h.ground hpool policy
    rw [hstack, show rest = [] from hnil] at hground
    exact hground rfl
  top htop := by rcases htop with htop | htop <;> exact absurd (hpc.symm.trans htop) nofun
  picked r noPolicy hchosen := absurd (hpc.symm.trans hchosen) nofun
  ground hpool policy' := ground_tail (hstack ▸ h.ground hpool policy')
  nodup := h.nodup

end GIOPThread

/-! ### All threads -/

/-- The invariant of the queues. -/
structure Sound (s : State) : Prop where
  coherent : ∀ t, (s.threads t).Coherent
  beyond : ∀ t, s.count ≤ t → (s.threads t).alive = false
  fresh : ∀ r ∈ s.pushed, r.id < s.pushed.length
  nodup : s.pushed.Nodup
  bound : ∀ key t, s.hash key = some t ↔ key ∈ (s.threads t).keys
  queued : ∀ t, ∀ r ∈ (s.threads t).requestQueue, ∀ key, r.key = some key → s.hash key = some t
  framed : ∀ t r, .request r ∈ (s.threads t).stack → ∀ key, r.key = some key →
    s.hash key = some t
  order : ∀ key, ofKey key s.handled ++ s.queuedWith key = ofKey key s.pushed

/-- What holds of every thread, when one has been set. -/
theorem set_cases {s : State} {t : Nat} {d : GIOPThread} {P : Nat → GIOPThread → Prop}
    (hself : P t d) (hother : ∀ t', t' ≠ t → P t' (s.threads t')) (t' : Nat) :
    P t' ((s.set t d).threads t') := by
  change P t' (Function.update s.threads t d t')
  by_cases ht : t' = t
  · rw [ht, Function.update_self]
    exact hself
  · rw [Function.update_of_ne ht]
    exact hother t' ht

theorem queuedWith_congr {s s' : State} (hhash : s'.hash = s.hash)
    (hqueue : ∀ t, (s'.threads t).requestQueue = (s.threads t).requestQueue) (key : Nat) :
    s'.queuedWith key = s.queuedWith key := by
  unfold State.queuedWith
  rw [hhash]
  cases s.hash key with
  | none => rfl
  | some t => exact congrArg (ofKey key) (hqueue t)

theorem Sound.lt_count {s : State} (h : Sound s) {t : Nat} (halive : (s.threads t).alive = true) :
    t < s.count := by
  by_contra hge
  rw [h.beyond t (Nat.le_of_not_lt hge)] at halive
  cases halive

/-- A step of one thread, perhaps a new one, that leaves its keys and its queue alone. -/
theorem sound_private {s : State} {t n : Nat} {d : GIOPThread} (h : Sound s) (hn : s.count ≤ n)
    (ht : t < n) (hcoherent : d.Coherent) (hkeys : d.keys = (s.threads t).keys)
    (hqueue : d.requestQueue = (s.threads t).requestQueue)
    (hstack : ∀ r, .request r ∈ d.stack → .request r ∈ (s.threads t).stack) :
    Sound { s.set t d with count := n } where
  coherent := set_cases (P := fun _ d => d.Coherent) hcoherent fun t' _ => h.coherent t'
  beyond := set_cases (P := fun t' d => n ≤ t' → d.alive = false)
    (fun hge => absurd ht (Nat.not_lt.mpr hge)) fun t' _ hge => h.beyond t' (Nat.le_trans hn hge)
  fresh := h.fresh
  nodup := h.nodup
  bound key := set_cases (P := fun t' d => s.hash key = some t' ↔ key ∈ d.keys)
    (by rw [hkeys]; exact h.bound key t) fun t' _ => h.bound key t'
  queued := set_cases (P := fun t' d => ∀ r ∈ d.requestQueue, ∀ key, r.key = some key →
    s.hash key = some t') (by rw [hqueue]; exact h.queued t) fun t' _ => h.queued t'
  framed := set_cases (P := fun t' d => ∀ r, .request r ∈ d.stack → ∀ key, r.key = some key →
    s.hash key = some t') (fun r hr => h.framed t r (hstack r hr)) fun t' _ => h.framed t'
  order key := by
    have hsame : State.queuedWith { s.set t d with count := n } key = s.queuedWith key :=
      @queuedWith_congr s { s.set t d with count := n } rfl (set_cases
        (P := fun t' d => d.requestQueue = (s.threads t').requestQueue) hqueue fun _ _ => rfl) key
    rw [hsame]
    exact h.order key

/-- The same for a thread that is there. -/
theorem sound_own {s : State} {t : Nat} {d : GIOPThread} (h : Sound s)
    (halive : (s.threads t).alive = true) (hcoherent : d.Coherent)
    (hkeys : d.keys = (s.threads t).keys)
    (hqueue : d.requestQueue = (s.threads t).requestQueue)
    (hstack : ∀ r, .request r ∈ d.stack → .request r ∈ (s.threads t).stack) : Sound (s.set t d) :=
  sound_private h (Nat.le_refl _) (h.lt_count halive) hcoherent hkeys hqueue hstack

section Keys
variable {key : Nat}

@[simp] theorem ofKey_nil : ofKey key [] = [] := rfl

@[simp] theorem ofKey_append (l l' : List Request) :
    ofKey key (l ++ l') = ofKey key l ++ ofKey key l' := List.filter_append ..

theorem ofKey_own {r : Request} (h : r.key = some key) (l : List Request) :
    ofKey key (r :: l) = r :: ofKey key l := by
  simp [ofKey, h]

theorem ofKey_other {r : Request} (h : r.key ≠ some key) (l : List Request) :
    ofKey key (r :: l) = ofKey key l := by
  simp [ofKey, h]

theorem ofKey_erase_own {r : Request} (h : r.key = some key) (l : List Request) :
    ofKey key (l.erase r) = (ofKey key l).erase r := by
  induction l with
  | nil => rfl
  | cons x l ih =>
    by_cases hx : x = r
    · rw [hx, List.erase_cons_head, ofKey_own h, List.erase_cons_head]
    · rw [List.erase_cons_tail (by simpa using hx)]
      by_cases hkey : x.key = some key
      · rw [ofKey_own hkey, ofKey_own hkey, List.erase_cons_tail (by simpa using hx), ih]
      · rw [ofKey_other hkey, ofKey_other hkey, ih]

theorem ofKey_erase_other {r : Request} (h : r.key ≠ some key) (l : List Request) :
    ofKey key (l.erase r) = ofKey key l := by
  induction l with
  | nil => rfl
  | cons x l ih =>
    by_cases hx : x = r
    · rw [hx, List.erase_cons_head, ofKey_other h]
    · rw [List.erase_cons_tail (by simpa using hx)]
      by_cases hkey : x.key = some key
      · rw [ofKey_own hkey, ofKey_own hkey, ih]
      · rw [ofKey_other hkey, ofKey_other hkey, ih]

end Keys

theorem mem_fresh {s : State} (h : Sound s) (key : Option Nat) (poa : Nat) :
    (⟨s.pushed.length, key, poa⟩ : Request) ∉ s.pushed :=
  fun hmem => Nat.lt_irrefl _ (h.fresh _ hmem)

theorem fresh_append {pushed : List Request} (h : ∀ r ∈ pushed, r.id < pushed.length)
    {new : Request} (hid : new.id = pushed.length) :
    ∀ r ∈ pushed ++ [new], r.id < (pushed ++ [new]).length := by
  intro r hr
  rw [List.length_append]
  rcases List.mem_append.mp hr with hold | hnew
  · exact Nat.lt_succ_of_lt (h r hold)
  · rw [List.mem_singleton.mp hnew, hid]
    exact Nat.lt_succ_self _

theorem nodup_append {pushed : List Request} (h : pushed.Nodup) {new : Request}
    (hnew : new ∉ pushed) : (pushed ++ [new]).Nodup :=
  List.nodup_append.mpr ⟨h, List.nodup_singleton _, fun _ ha _ hb hab =>
    hnew (List.mem_singleton.mp hb ▸ hab ▸ ha)⟩

/-- A request that is queued for a thread, to which its key is bound. -/
theorem sound_requestPush {s : State} {t : Nat} {r : Request} (h : Sound s)
    (halive : (s.threads t).alive = true) (hid : r.id = s.pushed.length) (hnew : r ∉ s.pushed)
    (hkey : ∀ key, r.key = some key → s.hash key = some t) : Sound (s.requestPush t r) where
  coherent := set_cases (P := fun _ d => d.Coherent) ((h.coherent t).requestPush halive r)
    fun t' _ => h.coherent t'
  beyond := set_cases (P := fun t' d => s.count ≤ t' → d.alive = false)
    (fun hge => absurd (h.lt_count halive) (Nat.not_lt.mpr hge)) fun t' _ => h.beyond t'
  fresh := fresh_append h.fresh hid
  nodup := nodup_append h.nodup hnew
  bound key := set_cases (P := fun t' d => s.hash key = some t' ↔ key ∈ d.keys)
    (h.bound key t) fun t' _ => h.bound key t'
  queued := by
    refine set_cases (P := fun t' d => ∀ r ∈ d.requestQueue, ∀ key, r.key = some key →
      s.hash key = some t') (fun r' hr' => ?_) fun t' _ => h.queued t'
    rcases List.mem_append.mp hr' with hold | hself
    · exact h.queued t r' hold
    · rw [List.mem_singleton.mp hself]
      exact hkey
  framed := set_cases (d := { s.threads t with requestQueue := (s.threads t).requestQueue ++ [r] })
    (P := fun t' d => ∀ r, .request r ∈ d.stack → ∀ key, r.key = some key → s.hash key = some t')
    (h.framed t) fun t' _ => h.framed t'
  order key := by
    have hold := h.order key
    change ofKey key s.handled ++ (s.requestPush t r).queuedWith key = ofKey key (s.pushed ++ [r])
    rw [ofKey_append, ← hold, List.append_assoc]
    refine congrArg (ofKey key s.handled ++ ·) ?_
    change (match s.hash key with
      | some t' => ofKey key (Function.update s.threads t _ t').requestQueue
      | none => []) = _
    unfold State.queuedWith
    cases hhash : s.hash key with
    | none =>
      have hne : r.key ≠ some key := fun hr => by
        rw [hkey key hr] at hhash
        cases hhash
      rw [ofKey_other hne]
      rfl
    | some t' =>
      by_cases ht : t' = t
      · simp only [ht, Function.update_self, ofKey_append]
      · have hne : r.key ≠ some key := fun hr => by
          rw [hkey key hr] at hhash
          exact ht (Option.some.inj hhash).symm
        simp only [Function.update_of_ne ht, ofKey_other hne, ofKey_nil, List.append_nil]

theorem Sound.unborn {s : State} (h : Sound s) : (s.threads s.count).requestQueue = [] ∧
    (s.threads s.count).stack = [] ∧ (s.threads s.count).keys = [] :=
  (h.coherent s.count).dead (h.beyond s.count (Nat.le_refl _))

theorem sound_spawn {s : State} (h : Sound s) :
    Sound { s.set s.count userThread with count := s.count + 1 } :=
  sound_private h (Nat.le_succ _) (Nat.lt_succ_self _) coherent_userThread h.unborn.2.2.symm
    h.unborn.1.symm (fun _ hr => absurd hr List.not_mem_nil)

/-- No request of a key that is not bound is anywhere. -/
theorem Sound.unbound {s : State} (h : Sound s) {key : Nat} (hhash : s.hash key = none) (t : Nat) :
    (∀ r ∈ (s.threads t).requestQueue, r.key ≠ some key) ∧
      ∀ r, .request r ∈ (s.threads t).stack → r.key ≠ some key := by
  refine ⟨fun r hr hkey => ?_, fun r hr hkey => ?_⟩
  · have hsome := h.queued t r hr key hkey
    rw [hhash] at hsome
    cases hsome
  · have hsome := h.framed t r hr key hkey
    rw [hhash] at hsome
    cases hsome

theorem ofKey_eq_nil {key : Nat} {l : List Request} (h : ∀ r ∈ l, r.key ≠ some key) :
    ofKey key l = [] :=
  List.filter_eq_nil_iff.mpr fun r hr => by simpa using h r hr

/-- A request without key, for a new worker. -/
theorem sound_newWorker {s : State} {r : Request} (h : Sound s) (hid : r.id = s.pushed.length)
    (hnew : r ∉ s.pushed) (hkey : r.key = none) :
    Sound { s.set s.count ⟨true, .pooled, [], [r], 0, []⟩ with
      count := s.count + 1, pushed := s.pushed ++ [r] } where
  coherent := by
    refine set_cases (P := fun _ d => d.Coherent) ?_ fun t' _ => h.coherent t'
    exact ⟨nofun, nofun, fun _ => ⟨rfl, rfl⟩, nofun, nofun, List.nodup_nil⟩
  beyond := set_cases (P := fun t' d => s.count + 1 ≤ t' → d.alive = false)
    (fun hge => absurd hge (Nat.not_succ_le_self _)) fun t' _ hge => h.beyond t' (Nat.le_of_succ_le hge)
  fresh := fresh_append h.fresh hid
  nodup := nodup_append h.nodup hnew
  bound key := set_cases (P := fun t' d => s.hash key = some t' ↔ key ∈ d.keys)
    (h.unborn.2.2 ▸ h.bound key s.count) fun t' _ => h.bound key t'
  queued := by
    refine set_cases (P := fun t' d => ∀ r ∈ d.requestQueue, ∀ key, r.key = some key →
      s.hash key = some t') (fun r' hr' key hk => ?_) fun t' _ => h.queued t'
    rw [List.mem_singleton.mp hr', hkey] at hk
    cases hk
  framed := set_cases (P := fun t' d => ∀ r, .request r ∈ d.stack → ∀ key, r.key = some key →
    s.hash key = some t') (fun _ hr => absurd hr List.not_mem_nil) fun t' _ => h.framed t'
  order key := by
    have hne : r.key ≠ some key := hkey ▸ nofun
    change ofKey key s.handled ++ (match s.hash key with
      | some t' => ofKey key (Function.update s.threads s.count _ t').requestQueue
      | none => []) = ofKey key (s.pushed ++ [r])
    rw [ofKey_append, ofKey_other hne, ofKey_nil, List.append_nil, ← h.order key]
    unfold State.queuedWith
    cases hhash : s.hash key with
    | none => rfl
    | some t' =>
      have ht : t' ≠ s.count := fun ht => by
        have hmem := (h.bound key t').mp hhash
        rw [ht, h.unborn.2.2] at hmem
        cases hmem
      simp only [Function.update_of_ne ht]

/-- A request with a key that is not bound, for a new worker. -/
theorem sound_newKey {s : State} {r : Request} {key : Nat} (h : Sound s)
    (hid : r.id = s.pushed.length) (hnew : r ∉ s.pushed) (hkey : r.key = some key)
    (hhash : s.hash key = none) :
    Sound { s.set s.count ⟨true, .pooled, [key], [r], 0, []⟩ with
      count := s.count + 1
      hash := Function.update s.hash key (some s.count)
      pushed := s.pushed ++ [r] } := by
  have hother {t : Nat} {key' : Nat} (hbound : s.hash key' = some t) :
      Function.update s.hash key (some s.count) key' = some t := by
    rw [Function.update_of_ne (fun heq => by rw [heq, hhash] at hbound; cases hbound)]
    exact hbound
  refine ⟨?_, ?_, fresh_append h.fresh hid, nodup_append h.nodup hnew, fun key' => ?_, ?_, ?_,
    fun key' => ?_⟩
  · refine set_cases (P := fun _ d => d.Coherent) ?_ fun t' _ => h.coherent t'
    exact ⟨nofun, nofun, fun _ => ⟨rfl, rfl⟩, nofun, nofun, List.nodup_singleton _⟩
  · exact set_cases (P := fun t' d => s.count + 1 ≤ t' → d.alive = false)
      (fun hge => absurd hge (Nat.not_succ_le_self _))
      fun t' _ hge => h.beyond t' (Nat.le_of_succ_le hge)
  · refine set_cases (P := fun t' d => Function.update s.hash key (some s.count) key' = some t' ↔
      key' ∈ d.keys) ?_ fun t' ht => ?_
    · by_cases heq : key' = key
      · rw [heq, Function.update_self]
        simp
      · rw [Function.update_of_ne heq, h.bound, h.unborn.2.2]
        simp [heq]
    · by_cases heq : key' = key
      · rw [heq, Function.update_self, ← h.bound, hhash]
        simpa using ht.symm
      · rw [Function.update_of_ne heq]
        exact h.bound key' t'
  · refine set_cases (P := fun t' d => ∀ r ∈ d.requestQueue, ∀ key', r.key = some key' →
      Function.update s.hash key (some s.count) key' = some t') (fun r' hr' key' hk => ?_)
      fun t' _ r' hr' key' hk => hother (h.queued t' r' hr' key' hk)
    rw [List.mem_singleton.mp hr', hkey] at hk
    cases hk
    exact Function.update_self ..
  · exact set_cases (d := ⟨true, .pooled, [key], [r], 0, []⟩)
      (P := fun t' d => ∀ r, .request r ∈ d.stack → ∀ key', r.key = some key' →
        Function.update s.hash key (some s.count) key' = some t') (fun _ hr => absurd hr List.not_mem_nil)
      fun t' _ r' hr' key' hk => hother (h.framed t' r' hr' key' hk)
  · have hold := h.order key'
    change ofKey key' s.handled ++ (match Function.update s.hash key (some s.count) key' with
      | some t' => ofKey key' (Function.update s.threads s.count _ t').requestQueue
      | none => []) = ofKey key' (s.pushed ++ [r])
    rw [ofKey_append, ← hold]
    unfold State.queuedWith
    by_cases heq : key' = key
    · subst heq
      simp only [Function.update_self, hhash, List.append_nil]
    · have hne : r.key ≠ some key' := fun hr => heq (Option.some.inj (hr.symm.trans hkey))
      rw [Function.update_of_ne heq, ofKey_other hne, ofKey_nil, List.append_nil]
      cases hbound : s.hash key' with
      | none => rfl
      | some t' =>
        have ht : t' ≠ s.count := fun ht => by
          have hmem := (h.bound key' t').mp hbound
          rw [ht, h.unborn.2.2] at hmem
          cases hmem
        simp only [Function.update_of_ne ht]

theorem sound_keyAdd {s : State} {t key : Nat} (h : Sound s)
    (hpc : (s.threads t).pc = .running) (hhash : s.hash key = none) :
    Sound { s.set t { s.threads t with keys := key :: (s.threads t).keys } with
      hash := Function.update s.hash key (some t) } := by
  have halive : (s.threads t).alive = true := by simp [GIOPThread.alive, hpc]
  have hother {t' key' : Nat} (hbound : s.hash key' = some t') :
      Function.update s.hash key (some t) key' = some t' := by
    rw [Function.update_of_ne (fun heq => by rw [heq, hhash] at hbound; cases hbound)]
    exact hbound
  have hc := h.coherent t
  refine ⟨?_, ?_, h.fresh, h.nodup, fun key' => ?_, ?_, ?_, fun key' => ?_⟩
  · refine set_cases (P := fun _ d => d.Coherent) ?_ fun t' _ => h.coherent t'
    refine { hc with
      dead := fun hdead => absurd (halive.symm.trans hdead) Bool.false_ne_true.symm
      nodup := List.nodup_cons.mpr ⟨fun hmem => ?_, hc.nodup⟩ }
    rw [(h.bound key t).mpr hmem] at hhash
    cases hhash
  · exact set_cases (P := fun t' d => s.count ≤ t' → d.alive = false)
      (fun hge => absurd (h.lt_count halive) (Nat.not_lt.mpr hge)) fun t' _ => h.beyond t'
  · refine set_cases (P := fun t' d => Function.update s.hash key (some t) key' = some t' ↔
      key' ∈ d.keys) ?_ fun t' ht => ?_
    · by_cases heq : key' = key
      · rw [heq, Function.update_self]
        simp
      · rw [Function.update_of_ne heq, h.bound]
        simp [heq]
    · by_cases heq : key' = key
      · rw [heq, Function.update_self, ← h.bound, hhash]
        simpa using ht.symm
      · rw [Function.update_of_ne heq]
        exact h.bound key' t'
  · exact set_cases (d := { s.threads t with keys := key :: (s.threads t).keys })
      (P := fun t' d => ∀ r ∈ d.requestQueue, ∀ key', r.key = some key' →
        Function.update s.hash key (some t) key' = some t')
      (fun r' hr' key' hk => hother (h.queued t r' hr' key' hk))
      fun t' _ r' hr' key' hk => hother (h.queued t' r' hr' key' hk)
  · exact set_cases (d := { s.threads t with keys := key :: (s.threads t).keys })
      (P := fun t' d => ∀ r, .request r ∈ d.stack → ∀ key', r.key = some key' →
        Function.update s.hash key (some t) key' = some t')
      (fun r' hr' key' hk => hother (h.framed t r' hr' key' hk))
      fun t' _ r' hr' key' hk => hother (h.framed t' r' hr' key' hk)
  · have hqueue (t' : Nat) : (Function.update s.threads t
        { s.threads t with keys := key :: (s.threads t).keys } t').requestQueue =
        (s.threads t').requestQueue := by
      by_cases ht : t' = t
      · rw [ht, Function.update_self]
      · rw [Function.update_of_ne ht]
    have hold := h.order key'
    change ofKey key' s.handled ++ (match Function.update s.hash key (some t) key' with
      | some t' => ofKey key' (Function.update s.threads t _ t').requestQueue
      | none => []) = ofKey key' s.pushed
    rw [← hold]
    unfold State.queuedWith
    by_cases heq : key' = key
    · subst heq
      simp only [Function.update_self, hhash]
      rw [ofKey_eq_nil (h.unbound hhash t).1]
    · rw [Function.update_of_ne heq]
      cases s.hash key' with
      | none => rfl
      | some t' => simp only [hqueue]

theorem not_refers {d : GIOPThread} {key : Nat} (h : State.refers d key = false) :
    (∀ r ∈ d.requestQueue, r.key ≠ some key) ∧ ∀ r, .request r ∈ d.stack → r.key ≠ some key := by
  obtain ⟨hqueue, hstack⟩ := Bool.or_eq_false_iff.mp h
  rw [List.any_eq_false] at hqueue hstack
  exact ⟨fun r hr hkey => hqueue r hr (by simp [hkey]),
    fun r hr hkey => hstack (.request r) hr (by simp [hkey])⟩

theorem sound_keyRelease {s : State} {t key : Nat} (h : Sound s) (hhash : s.hash key = some t)
    (hrefers : State.refers (s.threads t) key = false) :
    Sound { s.set t { s.threads t with keys := (s.threads t).keys.erase key } with
      hash := Function.update s.hash key none } := by
  obtain ⟨hnoQueue, hnoStack⟩ := not_refers hrefers
  have hc := h.coherent t
  have hother {t' key' : Nat} (hne : key' ≠ key) (hbound : s.hash key' = some t') :
      Function.update s.hash key none key' = some t' := by
    rw [Function.update_of_ne hne]
    exact hbound
  have hqueue {t' : Nat} {r : Request} (hr : r ∈ (s.threads t').requestQueue) {key' : Nat}
      (hk : r.key = some key') : key' ≠ key := by
    rintro rfl
    obtain rfl : t = t' := Option.some.inj (hhash.symm.trans (h.queued t' r hr key' hk))
    exact hnoQueue r hr hk
  have hstack {t' : Nat} {r : Request} (hr : .request r ∈ (s.threads t').stack) {key' : Nat}
      (hk : r.key = some key') : key' ≠ key := by
    rintro rfl
    obtain rfl : t = t' := Option.some.inj (hhash.symm.trans (h.framed t' r hr key' hk))
    exact hnoStack r hr hk
  refine ⟨?_, ?_, h.fresh, h.nodup, fun key' => ?_, ?_, ?_, fun key' => ?_⟩
  · refine set_cases (P := fun _ d => d.Coherent) ?_ fun t' _ => h.coherent t'
    exact { hc with
      dead := fun hdead => ⟨(hc.dead hdead).1, (hc.dead hdead).2.1, by
        rw [(hc.dead hdead).2.2]
        rfl⟩
      nodup := hc.nodup.erase key }
  · exact set_cases (P := fun t' d => s.count ≤ t' → d.alive = false) (h.beyond t)
      fun t' _ => h.beyond t'
  · refine set_cases (P := fun t' d => Function.update s.hash key none key' = some t' ↔
      key' ∈ d.keys) ?_ fun t' ht => ?_
    · by_cases heq : key' = key
      · rw [heq, Function.update_self]
        simpa using hc.nodup.not_mem_erase
      · rw [Function.update_of_ne heq, h.bound]
        exact (List.mem_erase_of_ne heq).symm
    · by_cases heq : key' = key
      · rw [heq, Function.update_self, ← h.bound, hhash]
        simpa using ht.symm
      · rw [Function.update_of_ne heq]
        exact h.bound key' t'
  · exact set_cases (d := { s.threads t with keys := (s.threads t).keys.erase key })
      (P := fun t' d => ∀ r ∈ d.requestQueue, ∀ key', r.key = some key' →
        Function.update s.hash key none key' = some t')
      (fun r hr key' hk => hother (hqueue (show r ∈ (s.threads t).requestQueue from hr) hk)
        (h.queued t r hr key' hk))
      fun t' _ r hr key' hk => hother (hqueue hr hk) (h.queued t' r hr key' hk)
  · exact set_cases (d := { s.threads t with keys := (s.threads t).keys.erase key })
      (P := fun t' d => ∀ r, .request r ∈ d.stack → ∀ key', r.key = some key' →
        Function.update s.hash key none key' = some t')
      (fun r hr key' hk => hother (hstack (show .request r ∈ (s.threads t).stack from hr) hk)
        (h.framed t r hr key' hk))
      fun t' _ r hr key' hk => hother (hstack hr hk) (h.framed t' r hr key' hk)
  · have hsame (t' : Nat) : (Function.update s.threads t
        { s.threads t with keys := (s.threads t).keys.erase key } t').requestQueue =
        (s.threads t').requestQueue := by
      by_cases ht : t' = t
      · rw [ht, Function.update_self]
      · rw [Function.update_of_ne ht]
    change ofKey key' s.handled ++ (match Function.update s.hash key none key' with
      | some t' => ofKey key' (Function.update s.threads t _ t').requestQueue
      | none => []) = ofKey key' s.pushed
    rw [← h.order key']
    unfold State.queuedWith
    by_cases heq : key' = key
    · subst heq
      simp only [Function.update_self, hhash]
      rw [ofKey_eq_nil hnoQueue]
    · rw [Function.update_of_ne heq]
      cases s.hash key' with
      | none => rfl
      | some t' => simp only [hsame]

/-- A thread that is freed with nothing on it. -/
theorem sound_threadFree {s : State} {t : Nat} (h : Sound s) (hstack : (s.threads t).stack = [])
    (hqueue : (s.threads t).requestQueue = []) : Sound (s.threadFree t) := by
  have hkept {t' key : Nat} (ht : t' ≠ t) (hbound : s.hash key = some t') :
      key ∉ (s.threads t).keys := fun hmem =>
    ht (Option.some.inj (hbound.symm.trans ((h.bound key t).mpr hmem)))
  refine ⟨?_, ?_, h.fresh, h.nodup, fun key => ?_, ?_, ?_, fun key => ?_⟩
  · refine set_cases (P := fun _ d => d.Coherent) ?_ fun t' _ => h.coherent t'
    exact {
      dead := fun _ => ⟨hqueue, hstack, rfl⟩
      busy := fun _ hpc => nomatch hpc
      top := fun hpc => by rcases hpc with hpc | hpc <;> cases hpc
      picked := nofun
      ground := (h.coherent t).ground
      nodup := List.nodup_nil }
  · exact set_cases (P := fun t' d => s.count ≤ t' → d.alive = false) (fun _ => rfl)
      fun t' _ => h.beyond t'
  · refine set_cases (P := fun t' d => (if key ∈ (s.threads t).keys then none else s.hash key) =
      some t' ↔ key ∈ d.keys) ?_ fun t' ht => ?_
    · refine iff_of_false (fun hsome => ?_) List.not_mem_nil
      split at hsome
      · cases hsome
      · rename_i hno
        exact hno ((h.bound key t).mp hsome)
    · by_cases hmem : key ∈ (s.threads t).keys
      · rw [if_pos hmem, ← h.bound, (h.bound key t).mpr hmem]
        simpa using ht.symm
      · rw [if_neg hmem]
        exact h.bound key t'
  · refine set_cases (d := { s.threads t with keys := [], pc := .freed })
      (P := fun t' d => ∀ r ∈ d.requestQueue, ∀ key, r.key = some key →
        (if key ∈ (s.threads t).keys then none else s.hash key) = some t')
      (fun r hr => ?_) fun t' ht r hr key hk => ?_
    · rw [show _ = [] from hqueue] at hr
      cases hr
    · have hbound := h.queued t' r hr key hk
      rw [if_neg (hkept ht hbound), hbound]
  · refine set_cases (d := { s.threads t with keys := [], pc := .freed })
      (P := fun t' d => ∀ r, .request r ∈ d.stack → ∀ key, r.key = some key →
        (if key ∈ (s.threads t).keys then none else s.hash key) = some t')
      (fun r hr => ?_) fun t' ht r hr key hk => ?_
    · rw [show _ = [] from hstack] at hr
      cases hr
    · have hbound := h.framed t' r hr key hk
      rw [if_neg (hkept ht hbound), hbound]
  · change ofKey key s.handled ++ (match if key ∈ (s.threads t).keys then none else s.hash key with
      | some t' => ofKey key (Function.update s.threads t _ t').requestQueue
      | none => []) = ofKey key s.pushed
    rw [← h.order key]
    unfold State.queuedWith
    by_cases hmem : key ∈ (s.threads t).keys
    · rw [if_pos hmem, (h.bound key t).mpr hmem]
      simp only [hqueue, ofKey_nil]
    · rw [if_neg hmem]
      cases hbound : s.hash key with
      | none => rfl
      | some t' =>
        have ht : t' ≠ t := fun ht => hmem ((h.bound key t).mp (ht ▸ hbound))
        simp only [Function.update_of_ne ht]

/-- A thread that takes the first request of its key. -/
theorem sound_take {s : State} {t : Nat} {d : GIOPThread} {r : Request} (h : Sound s)
    (hcoherent : d.Coherent) (hkeys : d.keys = (s.threads t).keys)
    (hmem : r ∈ (s.threads t).requestQueue) (hstack : d.stack = .request r :: (s.threads t).stack)
    (hown : ∀ key, r.key = some key →
      ofKey key (s.threads t).requestQueue = r :: ofKey key d.requestQueue)
    (hother : ∀ key, r.key ≠ some key →
      ofKey key d.requestQueue = ofKey key (s.threads t).requestQueue)
    (hsub : ∀ x ∈ d.requestQueue, x ∈ (s.threads t).requestQueue) :
    Sound { s.set t d with handled := s.handled ++ [r] } := by
  have halive : (s.threads t).alive = true := by
    by_contra hdead
    rw [((h.coherent t).dead (Bool.not_eq_true _ ▸ hdead)).1] at hmem
    cases hmem
  refine ⟨?_, ?_, h.fresh, h.nodup, fun key => ?_, ?_, ?_, fun key => ?_⟩
  · exact set_cases (P := fun _ d => d.Coherent) hcoherent fun t' _ => h.coherent t'
  · exact set_cases (P := fun t' d => s.count ≤ t' → d.alive = false)
      (fun hge => absurd (h.lt_count halive) (Nat.not_lt.mpr hge)) fun t' _ => h.beyond t'
  · exact set_cases (P := fun t' d => s.hash key = some t' ↔ key ∈ d.keys)
      (hkeys ▸ h.bound key t) fun t' _ => h.bound key t'
  · exact set_cases (P := fun t' d => ∀ r ∈ d.requestQueue, ∀ key, r.key = some key →
      s.hash key = some t') (fun x hx => h.queued t x (hsub x hx)) fun t' _ => h.queued t'
  · refine set_cases (P := fun t' d => ∀ r, .request r ∈ d.stack → ∀ key, r.key = some key →
      s.hash key = some t') (fun x hx => ?_) fun t' _ => h.framed t'
    rw [hstack] at hx
    rcases List.mem_cons.mp hx with hself | hold
    · cases hself
      exact h.queued t r hmem
    · exact h.framed t x hold
  · change ofKey key (s.handled ++ [r]) ++ (match s.hash key with
      | some t' => ofKey key (Function.update s.threads t d t').requestQueue
      | none => []) = ofKey key s.pushed
    rw [← h.order key, ofKey_append]
    unfold State.queuedWith
    by_cases hkey : r.key = some key
    · simp only [h.queued t r hmem key hkey, Function.update_self, hown key hkey]
      rw [ofKey_own hkey]
      simp
    · rw [ofKey_other hkey, ofKey_nil, List.append_nil]
      cases hbound : s.hash key with
      | none => rfl
      | some t' =>
        by_cases ht : t' = t
        · simp only [ht, Function.update_self, hother key hkey]
        · simp only [Function.update_of_ne ht]

theorem alive_of_pc {d : GIOPThread} {pc : Pc} (h : d.pc = pc) (hunborn : pc ≠ .unborn)
    (hfreed : pc ≠ .freed) : d.alive = true := by
  simp [GIOPThread.alive, h, hunborn, hfreed]

/-- What a visit of the queue takes, and what it leaves. -/
theorem sound_pop {s : State} {t : Nat} {request : Option Request} {noPolicy : Bool} (h : Sound s)
    (hpc : (s.threads t).pc = .chosen request noPolicy) (hfair : Fair s (.pop t)) :
    Sound { s.set t ((s.threads t).pop request noPolicy).1 with
      handled := s.handled ++ ((s.threads t).pop request noPolicy).2.toList } := by
  have hcoherent := (h.coherent t).pop request noPolicy
  have halive : (s.threads t).alive = true := alive_of_pc hpc nofun nofun
  have hidle {d : GIOPThread} (hc : d.Coherent) (hkeys : d.keys = (s.threads t).keys)
      (hqueue : d.requestQueue = (s.threads t).requestQueue)
      (hstack : ∀ r, .request r ∈ d.stack → .request r ∈ (s.threads t).stack) :
      Sound { s.set t d with handled := s.handled ++ [] } := by
    rw [List.append_nil]
    exact sound_own h halive hc hkeys hqueue hstack
  cases noPolicy with
  | true =>
    cases hents : (s.threads t).asyncEnts with
    | succ n =>
      simp only [GIOPThread.pop, hents, if_true] at hcoherent ⊢
      exact hidle hcoherent rfl rfl fun r hr => by simpa using hr
    | zero =>
      cases hqueue : (s.threads t).requestQueue with
      | nil =>
        simp only [GIOPThread.pop, hents, hqueue, if_true] at hcoherent ⊢
        exact hidle hcoherent rfl hqueue.symm fun r hr => hr
      | cons r rest =>
        simp only [GIOPThread.pop, hents, hqueue, if_true] at hcoherent ⊢
        refine sound_take h hcoherent rfl (by simp [hqueue]) rfl ?_ ?_ ?_
        · exact fun key hkey => by rw [hqueue, ofKey_own hkey]
        · exact fun key hkey => by rw [hqueue, ofKey_other hkey]
        · exact fun x hx => by simp [hqueue, show x ∈ rest from hx]
  | false =>
    cases request with
    | none =>
      simp only [GIOPThread.pop, Bool.false_eq_true, if_false] at hcoherent ⊢
      exact hidle hcoherent rfl rfl fun r hr => hr
    | some r =>
      simp only [GIOPThread.pop, Bool.false_eq_true, if_false] at hcoherent ⊢
      refine sound_take h hcoherent rfl ((h.coherent t).picked r false hpc).2 rfl ?_ ?_ ?_
      · intro key hkey
        obtain ⟨rest, hrest⟩ := List.head?_eq_some_iff.mp (hfair r hpc key hkey)
        rw [ofKey_erase_own hkey, hrest, List.erase_cons_head]
      · exact fun key hkey => ofKey_erase_other hkey _
      · exact fun x hx => List.mem_of_mem_erase hx

theorem queueEmpty_of_checking {d : GIOPThread} (h : d.Coherent) (hpc : d.pc = .checking)
    (hempty : d.queueEmpty = true) : d.stack = [] ∧ d.requestQueue = [] := by
  have hstack := (h.top (.inr hpc)).2
  refine ⟨hstack, ?_⟩
  simp [GIOPThread.queueEmpty, GIOPThread.firstValid, GIOPThread.policies, hstack] at hempty
  exact hempty.1

theorem sound_requestPushKey {s : State} {r : Request} (h : Sound s) (hid : r.id = s.pushed.length)
    (hnew : r ∉ s.pushed) : Sound (s.requestPushKey r) := by
  unfold State.requestPushKey
  cases hkey : r.key with
  | none => exact sound_newWorker h hid hnew hkey
  | some key =>
    rw [Option.bind_some]
    cases hhash : s.hash key with
    | none => exact sound_newKey h hid hnew hkey hhash
    | some t =>
      have halive : (s.threads t).alive = true := by
        by_contra hdead
        have hmem := (h.bound key t).mp hhash
        rw [((h.coherent t).dead (Bool.not_eq_true _ ▸ hdead)).2.2] at hmem
        cases hmem
      refine sound_requestPush h halive hid hnew fun key' hk => ?_
      rw [hkey] at hk
      cases hk
      exact hhash

theorem sound_step (s : State) (e : Event) (h : Sound s) (hfair : Fair s e) :
    Sound (step s e) := by
  cases e with
  | spawn => exact sound_spawn h
  | pushKey key poa => exact sound_requestPushKey h rfl (mem_fresh h key poa)
  | push t poa =>
    simp only [step]
    split
    · exact sound_requestPush h ‹_› rfl (mem_fresh h none poa) nofun
    · exact h
  | invokeAsync t =>
    simp only [step]
    split
    · exact sound_own h ‹_› { h.coherent t with } rfl rfl fun _ hr => hr
    · exact h
  | keyAdd t key =>
    simp only [step]
    split
    · rename_i hboth
      exact sound_keyAdd h hboth.1 hboth.2
    · exact h
  | keyRelease key =>
    simp only [step]
    split
    · split
      · exact h
      · exact sound_keyRelease h ‹_› (Bool.not_eq_true _ ▸ ‹_›)
    · exact h
  | start t =>
    simp only [step]
    split
    · rename_i hpc
      exact sound_own h (alive_of_pc hpc nofun nofun) (h.coherent t).start rfl rfl fun _ hr => hr
    · exact h
  | call t policy =>
    simp only [step]
    split
    · rename_i hpc
      refine sound_own h (alive_of_pc hpc nofun nofun) ((h.coherent t).call hpc policy) rfl rfl
        fun r hr => ?_
      simpa using hr
    · exact h
  | endCall t =>
    simp only [step]
    split
    · rename_i hpc hstack
      refine sound_own h (alive_of_pc hpc nofun nofun) ((h.coherent t).endCall hpc hstack) rfl rfl
        fun r hr => ?_
      rw [hstack]
      exact List.mem_cons_of_mem _ hr
    · exact h
  | reenter t =>
    simp only [step]
    split
    · rename_i hall
      exact sound_own h (alive_of_pc hall.1 nofun nofun) (h.coherent t).start rfl rfl
        fun _ hr => hr
    · exact h
  | choose t =>
    simp only [step]
    split
    · rename_i hpc
      exact sound_own h (alive_of_pc hpc nofun nofun) (h.coherent t).choose rfl rfl fun _ hr => hr
    · exact h
  | pop t =>
    simp only [step]
    split
    · exact sound_pop h ‹_› hfair
    · exact h
  | ret t =>
    simp only [step]
    split
    all_goals first
      | exact h
      | rename_i hpc hstack
        refine sound_own h (alive_of_pc hpc nofun nofun) ((h.coherent t).goesOn _
          fun hpool policy => GIOPThread.ground_tail (hstack ▸ (h.coherent t).ground hpool policy)) rfl rfl
          fun r hr => ?_
        rw [hstack]
        exact List.mem_cons_of_mem _ hr
  | check t =>
    simp only [step]
    split
    · rename_i hpc
      split
      · obtain ⟨hstack, hqueue⟩ := queueEmpty_of_checking (h.coherent t) hpc ‹_›
        exact sound_threadFree h hstack hqueue
      · exact sound_own h (alive_of_pc hpc nofun nofun) (h.coherent t).start rfl rfl
          fun _ hr => hr
    · exact h
  | exit t =>
    simp only [step]
    split
    · rename_i hall
      exact sound_threadFree h hall.2.2 (hfair hall.1 hall.2.1 hall.2.2)
    · exact h

/-! ### A thread goes on -/

/-- By steps of its own a thread handles a request. -/
def Handles (t : Nat) (r : Request) (s : State) : Prop :=
  ∃ es : List Event, (∀ e ∈ es, e.actor = some t) ∧ r ∈ (run step s es).handled

section Progress
variable {t : Nat} {r : Request} {s : State}

theorem handles_of_mem (h : r ∈ s.handled) : Handles t r s := ⟨[], nofun, h⟩

theorem handles_of_step {e : Event} (he : e.actor = some t) (h : Handles t r (step s e)) :
    Handles t r s := by
  obtain ⟨es, hes, hmem⟩ := h
  refine ⟨e :: es, fun e' he' => ?_, hmem⟩
  rcases List.mem_cons.mp he' with rfl | he'
  · exact he
  · exact hes e' he'

theorem set_self (s : State) (t : Nat) (d : GIOPThread) : (s.set t d).threads t = d :=
  Function.update_self ..

/-- Nothing is being done: the worker is at the end of a round, the thread of the program not
called back. -/
structure Idle (d : GIOPThread) : Prop where
  stack : d.stack = []
  worker : d.pool = true → d.pc = .checking
  program : d.pool = false → d.pc = .running

theorem policies_nil {d : GIOPThread} (h : d.stack = []) : d.firstValid = (none, true) := by
  simp [GIOPThread.firstValid, GIOPThread.policies, h]

/-- It looks into its queue. -/
theorem handles_of_idle_chosen {d : GIOPThread} (hidle : Idle d) (hd : s.threads t = d)
    (hr : r ∈ d.requestQueue)
    (hnext : ∀ s', s'.threads t = { d with pc := .chosen none true } → Handles t r s') :
    Handles t r s := by
  have hqueue : d.queueEmpty = false := by
    simp [GIOPThread.queueEmpty, policies_nil hidle.stack, List.ne_nil_of_mem hr]
  have hchoose (s' : State) (hs' : s'.threads t = { d with pc := .loop }) : Handles t r s' := by
    refine handles_of_step (e := .choose t) rfl (hnext _ ?_)
    have hvalid : (s'.threads t).firstValid = (none, true) := by
      rw [hs']
      exact policies_nil hidle.stack
    simp only [step, hs', if_true]
    rw [set_self, ← hs', hvalid]
  cases hpool : d.pool with
  | true =>
    refine handles_of_step (e := .check t) rfl (hchoose _ ?_)
    simp only [step, hd, hidle.worker hpool, if_true, hqueue, Bool.false_eq_true, if_false]
    exact set_self ..
  | false =>
    refine handles_of_step (e := .reenter t) rfl (hchoose _ ?_)
    have hwaits : d.waits = true := by simp [GIOPThread.waits, hidle.stack, hpool]
    simp only [step, hd, hidle.program hpool, hwaits, hqueue, and_self, if_true]
    exact set_self ..

theorem idle_after {d : GIOPThread} (hstack : d.stack = []) (hpc : d.pc = GIOPThread.after d.pool []) :
    Idle d := by
  refine ⟨hstack, fun hpool => ?_, fun hpool => ?_⟩ <;> simp [hpc, hpool, GIOPThread.after]

/-- The handler of a request returns, or the callback. -/
theorem handles_of_ret {d : GIOPThread} (hd : s.threads t = d) (hpc : d.pc = .running) {f : Frame}
    {rest : List Frame} (hstack : d.stack = f :: rest) (hf : ∀ policy, f ≠ .call policy)
    (hnext : ∀ s', s'.threads t =
      { d with stack := rest, pc := GIOPThread.after d.pool rest } → Handles t r s') :
    Handles t r s := by
  refine handles_of_step (e := .ret t) rfl (hnext _ ?_)
  cases f with
  | call policy => exact absurd rfl (hf policy)
  | request | async =>
    simp only [step, hd, hpc, hstack]
    exact set_self ..

/-- One round after another empties the queue. -/
theorem handles_of_idle {n : Nat} {d : GIOPThread} (hd : s.threads t = d)
    (hn : d.asyncEnts + d.requestQueue.length = n) (hidle : Idle d) (hr : r ∈ d.requestQueue) :
    Handles t r s := by
  induction n generalizing s d with
  | zero =>
    rw [List.length_eq_zero_iff.mp (by omega : d.requestQueue.length = 0)] at hr
    cases hr
  | succ n ih =>
    refine handles_of_idle_chosen hidle hd hr fun s' hs' => handles_of_step (e := .pop t) rfl ?_
    have hafter : Idle { d with stack := [], pc := GIOPThread.after d.pool [] } :=
      idle_after rfl rfl
    cases hents : d.asyncEnts with
    | succ k =>
      simp only [step, hs', GIOPThread.pop, hents, if_true]
      refine handles_of_ret (set_self ..) rfl rfl nofun fun s'' hs'' => ?_
      rw [hidle.stack] at hs''
      exact ih hs'' (by simp only; omega) (idle_after rfl rfl) hr
    | zero =>
      cases hqueue : d.requestQueue with
      | nil =>
        rw [hqueue] at hr
        cases hr
      | cons x rest =>
        rw [hqueue] at hr
        simp only [step, hs', GIOPThread.pop, hents, hqueue, if_true]
        rcases List.mem_cons.mp hr with rfl | hrest
        · exact handles_of_mem (List.mem_append_right _ (List.mem_singleton_self _))
        · refine handles_of_ret (set_self ..) rfl rfl nofun fun s'' hs'' => ?_
          rw [hidle.stack] at hs''
          rw [hqueue, List.length_cons] at hn
          exact ih hs'' (by simp only; omega) (idle_after rfl rfl) hrest

/-- What the thread is in the middle of comes to its end. -/
theorem handles_of_running {d : GIOPThread} (hd : s.threads t = d) (hc : d.Coherent)
    (hpc : d.pc = .running) (hr : r ∈ d.requestQueue) : Handles t r s := by
  generalize hstack : d.stack = stack
  induction stack generalizing s d with
  | nil =>
    refine handles_of_idle hd rfl ⟨hstack, fun hpool => ?_, fun _ => hpc⟩ hr
    exact absurd hstack (hc.busy hpool hpc)
  | cons f rest ih =>
    cases f with
    | call policy =>
      refine handles_of_step (e := .endCall t) rfl ?_
      have hstep : step s (.endCall t) = s.set t { d with stack := rest } := by
        simp only [step, hd, hpc, hstack]
      rw [hstep]
      exact ih (set_self ..) (hc.endCall hpc hstack) hpc hr rfl
    | request | async =>
      refine handles_of_ret hd hpc hstack nofun fun s' hs' => ?_
      have hgo := hc.goesOn rest fun hpool policy =>
        GIOPThread.ground_tail (hstack ▸ hc.ground hpool policy)
      rcases GIOPThread.after_cases d.pool rest with ⟨hafter, hpool, hnil⟩ | ⟨hafter, -⟩
      · refine handles_of_idle hs' rfl ⟨hnil, fun _ => hafter, fun hno => ?_⟩ hr
        rw [hpool] at hno
        cases hno
      · exact ih hs' hgo hafter hr rfl

theorem handles_of_after {d : GIOPThread} (hd : s.threads t = d) (hc : d.Coherent)
    (hpc : d.pc = .checking ∨ d.pc = .running) (hr : r ∈ d.requestQueue) : Handles t r s := by
  rcases hpc with hpc | hpc
  · obtain ⟨hpool, hstack⟩ := hc.top (.inr hpc)
    refine handles_of_idle hd rfl ⟨hstack, fun _ => hpc, fun hno => ?_⟩ hr
    rw [hpool] at hno
    cases hno
  · exact handles_of_running hd hc hpc hr

/-- The second step of a visit takes the request, or leaves it in the queue of a thread that goes
on. -/
theorem pop_cases {d : GIOPThread} (hr : r ∈ d.requestQueue) (request : Option Request)
    (noPolicy : Bool) : (d.pop request noPolicy).2 = some r ∨
      r ∈ (d.pop request noPolicy).1.requestQueue ∧
        ((d.pop request noPolicy).1.pc = .checking ∨ (d.pop request noPolicy).1.pc = .running) := by
  have hafter := (GIOPThread.after_cases d.pool d.stack).imp And.left And.left
  unfold GIOPThread.pop
  cases noPolicy with
  | true =>
    simp only [if_true]
    split
    · exact .inr ⟨hr, .inr rfl⟩
    · rename_i x rest _ hqueue
      rw [hqueue] at hr
      rcases List.mem_cons.mp hr with rfl | hrest
      · exact .inl rfl
      · exact .inr ⟨hrest, .inr rfl⟩
    · exact .inr ⟨hr, hafter⟩
  | false =>
    simp only [Bool.false_eq_true, if_false]
    cases request with
    | none => exact .inr ⟨hr, hafter⟩
    | some x =>
      by_cases hx : x = r
      · exact .inl (congrArg some hx)
      · exact .inr ⟨(List.mem_erase_of_ne fun h => hx h.symm).mpr hr, .inr rfl⟩

theorem handles_of_chosen {d : GIOPThread} (hd : s.threads t = d) (hc : d.Coherent)
    {request : Option Request} {noPolicy : Bool} (hpc : d.pc = .chosen request noPolicy)
    (hr : r ∈ d.requestQueue) : Handles t r s := by
  refine handles_of_step (e := .pop t) rfl ?_
  simp only [step, hd, hpc]
  rcases pop_cases hr request noPolicy with htaken | ⟨hleft, hafter⟩
  · rw [htaken]
    exact handles_of_mem (List.mem_append_right _ (List.mem_singleton_self _))
  · exact handles_of_after (set_self ..) (hc.pop request noPolicy) hafter hleft

theorem handles_of_loop {d : GIOPThread} (hd : s.threads t = d) (hc : d.Coherent)
    (hpc : d.pc = .loop) (hr : r ∈ d.requestQueue) : Handles t r s := by
  refine handles_of_step (e := .choose t) rfl ?_
  simp only [step, hd, hpc, if_true]
  exact handles_of_chosen (set_self ..) hc.choose rfl hr

/-- What is queued for a thread it handles, wherever it is. -/
theorem Sound.handles (h : Sound s) (hr : r ∈ (s.threads t).requestQueue) : Handles t r s := by
  have hc := h.coherent t
  have halive : (s.threads t).alive = true := by
    by_contra hdead
    rw [(hc.dead (Bool.not_eq_true _ ▸ hdead)).1] at hr
    cases hr
  cases hpc : (s.threads t).pc with
  | unborn | freed => simp [GIOPThread.alive, hpc] at halive
  | pooled =>
    refine handles_of_step (e := .start t) rfl ?_
    simp only [step, hpc, if_true]
    exact handles_of_loop (set_self ..) hc.start rfl hr
  | running => exact handles_of_running rfl hc hpc hr
  | loop => exact handles_of_loop rfl hc hpc hr
  | chosen => exact handles_of_chosen rfl hc hpc hr
  | checking => exact handles_of_after rfl hc (.inl hpc) hr

end Progress

theorem Sound.served {s : State} (h : Sound s) : Served s where
  inOrder := h.order
  once key := by
    have hnodup : (ofKey key s.pushed).Nodup := h.nodup.filter _
    rw [← h.order key] at hnodup
    exact (List.nodup_append.mp hnodup).1
  oneThread t t' r r' hr hr' hne hkey := by
    obtain ⟨key, hkr⟩ := Option.ne_none_iff_exists'.mp hne
    exact Option.some.inj ((h.framed t r hr key hkr).symm.trans
      (h.framed t' r' hr' key (hkey ▸ hkr)))
  noneLeft t hpc := ((h.coherent t).dead (by simp [GIOPThread.alive, hpc])).1
  served _ _ hr := h.handles hr

theorem sound_initial : Sound initial where
  coherent t := by
    change (if t = 0 then _ else _ : GIOPThread).Coherent
    split
    · exact coherent_userThread
    · exact coherent_unborn
  beyond t ht := by
    change (if t = 0 then _ else _ : GIOPThread).alive = false
    rw [if_neg (Nat.ne_of_gt ht)]
    rfl
  fresh := nofun
  nodup := List.nodup_nil
  bound key t := by
    change none = some t ↔ key ∈ (if t = 0 then _ else _ : GIOPThread).keys
    split <;> simp [userThread]
  queued t r hr := by
    change r ∈ (if t = 0 then _ else _ : GIOPThread).requestQueue at hr
    split at hr <;> cases hr
  framed t r hr := by
    change _ ∈ (if t = 0 then _ else _ : GIOPThread).stack at hr
    split at hr <;> cases hr
  order _ := rfl

/-- A thread that ends leaves its requests behind; a request taken past another one of its key is
out of order. -/
theorem not_served {s : State} {e : Event} (h : Sound s) (hfair : ¬ Fair s e) :
    ¬ Served (step s e) := by
  intro hserved
  cases e with
  | exit t =>
    simp only [Fair, Classical.not_imp] at hfair
    obtain ⟨hpool, hpc, hstack, hqueue⟩ := hfair
    have hstep : step s (.exit t) = s.threadFree t := if_pos ⟨hpool, hpc, hstack⟩
    have hfreed : (s.threadFree t).threads t = { s.threads t with keys := [], pc := .freed } :=
      set_self ..
    have hnil := hserved.noneLeft t
    rw [hstep, hfreed] at hnil
    exact hqueue (hnil rfl)
  | pop t =>
    simp only [Fair, Classical.not_imp, not_forall] at hfair
    obtain ⟨r, hpc, key, hkey, hfirst⟩ := hfair
    have hmem := ((h.coherent t).picked r false hpc).2
    have hhash := h.queued t r hmem key hkey
    have horder := hserved.inOrder key
    have hqueue : (step s (.pop t)).queuedWith key = ofKey key ((s.threads t).requestQueue.erase r) := by
      simp only [step, hpc]
      change (match s.hash key with
        | some t' => ofKey key (Function.update s.threads t _ t').requestQueue
        | none => []) = _
      simp only [hhash, Function.update_self]
      rfl
    have hhandled : (step s (.pop t)).handled = s.handled ++ [r] := by
      simp only [step, hpc]
      rfl
    have hpushed : (step s (.pop t)).pushed = s.pushed := by
      simp only [step, hpc]
      rfl
    have hold : s.queuedWith key = ofKey key (s.threads t).requestQueue := by
      simp only [State.queuedWith, hhash]
    rw [hqueue, hhandled, hpushed, ← h.order key, hold, ofKey_append, ofKey_own hkey, ofKey_nil,
      List.append_assoc] at horder
    rw [← List.append_cancel_left horder] at hfirst
    exact hfirst rfl
  | _ => exact hfair trivial

theorem request_queues (es : List Event) :
    Always step Served initial es ↔ Meets step Fair initial es :=
  always_iff_meets_of sound_step (fun _ => Sound.served) (fun _ _ => not_served) sound_initial

/-- A thread binds an object to itself, a request comes for it, the thread ends. -/
def leaked : List Event := [.spawn, .keyAdd 1 7, .pushKey (some 7) 3, .exit 1]

theorem request_leaked : ¬ Always step Served initial leaked ∧
    ((run step initial leaked).threads 1).pc = .freed ∧
    ((run step initial leaked).threads 1).requestQueue = [⟨0, some 7, 3⟩] := by
  have hpc : ((run step initial leaked).threads 1).pc = .freed := by decide
  have hqueue : ((run step initial leaked).threads 1).requestQueue = [⟨0, some 7, 3⟩] := by decide
  refine ⟨fun h => ?_, hpc, hqueue⟩
  have hnil := h.last.noneLeft 1 hpc
  rw [hqueue] at hnil
  cases hnil

end ORBit2.Pool
