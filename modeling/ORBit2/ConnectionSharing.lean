import ORBit2.Base.Runs
import ORBit2.RecvConnection

/-! The list of connections, and the calls of `giop_connection_initiate` that share what is in it
(linc-connection.c, giop-connection.c). -/

set_option autoImplicit false

namespace ORBit2.Sharing
open Runs

/-- A `GIOPConnection`; a protocol goes by its place in `static_link_protocols`. -/
structure Cnx where
  wasInitiated : Bool
  proto : Nat
  remoteHostInfo : String
  remoteServInfo : String
  /-- `options & LINK_CONNECTION_SSL` -/
  ssl : Bool
  giopVersion : Version
  status : LinkStatus
  deriving DecidableEq, Repr

/-- The connections, in the order they were made, and `cnx_list`. -/
structure Links where
  cnxs : List Cnx
  cnxList : List Nat
  deriving DecidableEq, Repr

/-- The arguments of `giop_connection_initiate`. -/
structure Call where
  protoName : String
  remoteHostInfo : String
  remoteServInfo : String
  ssl : Bool
  giopVersion : Version
  deriving DecidableEq, Repr

/-- What `link_connection_do_initiate` meets: the protocols that have an address for the host, and how
`connect` ends, `some false` while it is in progress. -/
structure Net where
  sockaddr : List Nat
  connect : Option Bool
  deriving DecidableEq, Repr

inductive Event where
  | initiate (call : Call) (net : Net)
  /-- a connection that the other side has initiated -/
  | accept (cnx : Cnx)
  /-- `link_connection_io_handler`, while a connection is in progress -/
  | established (n : Nat) (ok : Bool)
  /-- `link_connection_state_changed (cnx, LINK_DISCONNECTED)` -/
  | closed (n : Nat)
  /-- `giop_timeout` -/
  | timeout (n : Nat)
  | tryReconnect (n : Nat) (net : Net)
  /-- the last reference is given back -/
  | unref (n : Nat)
  deriving DecidableEq, Repr

def Cnx.Usable (c : Cnx) : Prop := c.status = .connecting ∨ c.status = .connected

instance (c : Cnx) : Decidable c.Usable := inferInstanceAs (Decidable (_ ∨ _))

section
variable (protocols : List String)

/-- `link_protocol_find` -/
def protocolFind (name : String) : Option Nat := protocols.findIdx? (· = name)

/-- The protocol of the address that `link_connection_do_initiate` connects to. -/
def addressed (protoName : String) (net : Net) : Option Nat :=
  (protocolFind protocols protoName).bind fun proto =>
    if proto ∈ net.sockaddr then some proto
    else if protoName = "IPv6" then (protocolFind protocols "IPv4").filter (· ∈ net.sockaddr)
    else none

/-- `link_connection_do_initiate`: the protocol and the status of the connection. -/
def doInitiate (protoName : String) (net : Net) : Option (Nat × LinkStatus) := do
  let proto ← addressed protocols protoName net
  let done ← net.connect
  some (proto, if done then .connected else .connecting)

/-- A connection to the protocol, the host, the service and the SSL option of a call. -/
structure Cnx.Leads (c : Cnx) (call : Call) : Prop where
  wasInitiated : c.wasInitiated = true
  proto : protocolFind protocols call.protoName = some c.proto
  remoteHostInfo : call.remoteHostInfo = c.remoteHostInfo
  remoteServInfo : call.remoteServInfo = c.remoteServInfo
  ssl : c.ssl = call.ssl

instance (c : Cnx) (call : Call) : Decidable (c.Leads protocols call) :=
  decidable_of_iff (c.wasInitiated = true ∧ protocolFind protocols call.protoName = some c.proto ∧
      call.remoteHostInfo = c.remoteHostInfo ∧ call.remoteServInfo = c.remoteServInfo ∧
      c.ssl = call.ssl)
    ⟨fun ⟨h₁, h₂, h₃, h₄, h₅⟩ => ⟨h₁, h₂, h₃, h₄, h₅⟩, fun ⟨h₁, h₂, h₃, h₄, h₅⟩ => ⟨h₁, h₂, h₃, h₄, h₅⟩⟩

/-- The loop of `link_connection_initiate`. -/
def lookUp (s : Links) (call : Call) : Option Nat :=
  s.cnxList.find? fun n => (s.cnxs[n]?).any fun c => c.Leads protocols call ∧ c.status ≠ .disconnected

/-- `giop_connection_initiate` -/
def initiate (s : Links) (call : Call) (net : Net) : Links × Option Nat :=
  match lookUp protocols s call with
  | some n => (s, some n)
  | none =>
      match doInitiate protocols call.protoName net with
      | none => (s, none)
      | some (proto, status) =>
          let cnx : Cnx := ⟨true, proto, call.remoteHostInfo, call.remoteServInfo, call.ssl,
            call.giopVersion, status⟩
          (⟨s.cnxs ++ [cnx], s.cnxs.length :: s.cnxList⟩, some s.cnxs.length)

/-- What becomes of the connection `n`, as long as it is there. -/
def Links.modify (s : Links) (n : Nat) (f : Cnx → Cnx) : Links :=
  if n ∈ s.cnxList then { s with cnxs := s.cnxs.modify n f } else s

/-- The state behind `io_handler`, while a connection is in progress. -/
def Cnx.establish (ok : Bool) (c : Cnx) : Cnx :=
  if c.status = .connecting then { c with status := if ok then .connected else .disconnected } else c

/-- `giop_timeout` -/
def Cnx.expire (c : Cnx) : Cnx := if c.status = .disconnected then c else { c with status := .timeout }

/-- `link_connection_try_reconnect` -/
def Cnx.reconnect (net : Net) (c : Cnx) : Cnx :=
  if c.status = .disconnected ∨ c.status = .timeout then
    match (protocols[c.proto]?).bind fun protoName => doInitiate protocols protoName net with
    | some (proto, status) => { c with wasInitiated := true, proto := proto, status := status }
    | none => c
  else c

def step (s : Links) : Event → Links
  | .initiate call net => (initiate protocols s call net).1
  | .accept cnx => ⟨s.cnxs ++ [{ cnx with wasInitiated := false }], s.cnxs.length :: s.cnxList⟩
  | .established n ok => s.modify n (Cnx.establish ok)
  | .closed n => s.modify n fun c => { c with status := .disconnected }
  | .timeout n => s.modify n Cnx.expire
  | .tryReconnect n net => s.modify n (Cnx.reconnect protocols net)
  | .unref n => { s with cnxList := s.cnxList.erase n }

def start : Links := ⟨[], []⟩

/-- A connection that was initiated for what the call asks for, has its version and can be used. -/
def Granted (s : Links) (call : Call) (n : Nat) : Prop :=
  ∃ c, s.cnxs[n]? = some c ∧ c.Leads protocols call ∧ c.giopVersion = call.giopVersion ∧ c.Usable

def UsableAt (s : Links) (n : Nat) : Prop := n ∈ s.cnxList ∧ ∃ c, s.cnxs[n]? = some c ∧ c.Usable

/-- Every call is answered by a connection it is granted, and a call after it with the same arguments
by the same connection as long as that can be used. -/
structure Shares (events : List Event) : Prop where
  granted : ∀ before call net behind n, events = before ++ .initiate call net :: behind →
    (initiate protocols (run (step protocols) start before) call net).2 = some n →
    Granted protocols (run (step protocols) start (before ++ [.initiate call net])) call n
  shared : ∀ before call net between net' behind n,
    events = before ++ .initiate call net :: between ++ .initiate call net' :: behind →
    (initiate protocols (run (step protocols) start before) call net).2 = some n →
    (∀ k, UsableAt (run (step protocols) start (before ++ .initiate call net :: between.take k)) n) →
    (initiate protocols (run (step protocols) start (before ++ .initiate call net :: between)) call
      net').2 = some n

/-- There is an address for the protocol itself. -/
def Direct (protoName : String) (net : Net) : Prop :=
  protoName = "IPv6" → ∀ proto ∈ protocolFind protocols protoName, proto ∈ net.sockaddr

instance (protoName : String) (net : Net) : Decidable (Direct protocols protoName net) :=
  inferInstanceAs (Decidable (_ → _))

/-- Two connections that were initiated for the same. -/
structure Cnx.Alike (c c' : Cnx) : Prop where
  wasInitiated : c.wasInitiated = true
  wasInitiated' : c'.wasInitiated = true
  proto : c.proto = c'.proto
  remoteHostInfo : c.remoteHostInfo = c'.remoteHostInfo
  remoteServInfo : c.remoteServInfo = c'.remoteServInfo
  ssl : c.ssl = c'.ssl

/-- An IPv6 connection does not turn into an IPv4 one; no connection that leads where a call asks for
has timed out, or has another version; none is connected again beside another one that leads where it
does. -/
def Ready (s : Links) : Event → Prop
  | .initiate call net => Direct protocols call.protoName net ∧
      ∀ n ∈ s.cnxList, ∀ c ∈ s.cnxs[n]?, c.Leads protocols call →
        c.status = .disconnected ∨ c.status ≠ .timeout ∧ c.giopVersion = call.giopVersion
  | .tryReconnect n net => ∀ c ∈ s.cnxs[n]?,
      ∀ protoName ∈ protocols[c.proto]?, Direct protocols protoName net ∧
        ∀ proto ∈ protocolFind protocols protoName, ∀ m ∈ s.cnxList, m ≠ n →
          ∀ c' ∈ s.cnxs[m]?, c'.Usable → ¬ c'.Alike { c with wasInitiated := true, proto := proto }
  | _ => True

instance (c c' : Cnx) : Decidable (c.Alike c') :=
  decidable_of_iff (c.wasInitiated = true ∧ c'.wasInitiated = true ∧ c.proto = c'.proto ∧
      c.remoteHostInfo = c'.remoteHostInfo ∧ c.remoteServInfo = c'.remoteServInfo ∧ c.ssl = c'.ssl)
    ⟨fun ⟨h₁, h₂, h₃, h₄, h₅, h₆⟩ => ⟨h₁, h₂, h₃, h₄, h₅, h₆⟩,
      fun ⟨h₁, h₂, h₃, h₄, h₅, h₆⟩ => ⟨h₁, h₂, h₃, h₄, h₅, h₆⟩⟩

instance (s : Links) : (e : Event) → Decidable (Ready protocols s e)
  | .initiate _ _ => by unfold Ready; infer_instance
  | .tryReconnect _ _ => by unfold Ready; infer_instance
  | .accept _ | .established _ _ | .closed _ | .timeout _ | .unref _ => .isTrue trivial

end

/-! ### One step -/

/-- Of the connections that can be used, no two lead to the same. -/
structure Sound (s : Links) : Prop where
  bound : ∀ n ∈ s.cnxList, n < s.cnxs.length
  unique : ∀ m ∈ s.cnxList, ∀ n ∈ s.cnxList, ∀ c ∈ s.cnxs[m]?, ∀ c' ∈ s.cnxs[n]?,
    c.Usable → c'.Usable → c.Alike c' → m = n

section
variable {protocols : List String} {s : Links} {call : Call} {net : Net} {n : Nat} {c c' : Cnx}

theorem Cnx.Alike.symm (h : c.Alike c') : c'.Alike c :=
  ⟨h.wasInitiated', h.wasInitiated, h.proto.symm, h.remoteHostInfo.symm, h.remoteServInfo.symm, h.ssl.symm⟩

theorem Cnx.Leads.alike (h : c.Leads protocols call) (h' : c'.Leads protocols call) : c.Alike c' where
  wasInitiated := h.wasInitiated
  wasInitiated' := h'.wasInitiated
  proto := Option.some.inj (h.proto.symm.trans h'.proto)
  remoteHostInfo := h.remoteHostInfo.symm.trans h'.remoteHostInfo
  remoteServInfo := h.remoteServInfo.symm.trans h'.remoteServInfo
  ssl := h.ssl.trans h'.ssl.symm

theorem Cnx.Alike.leads (h : c.Alike c') (h' : c'.Leads protocols call) : c.Leads protocols call where
  wasInitiated := h.wasInitiated
  proto := h'.proto.trans (congrArg some h.proto.symm)
  remoteHostInfo := h'.remoteHostInfo.trans h.remoteHostInfo.symm
  remoteServInfo := h'.remoteServInfo.trans h.remoteServInfo.symm
  ssl := h.ssl.trans h'.ssl

theorem of_lookUp (h : lookUp protocols s call = some n) :
    n ∈ s.cnxList ∧ ∃ c, s.cnxs[n]? = some c ∧ c.Leads protocols call ∧ c.status ≠ .disconnected := by
  refine ⟨List.mem_of_find?_eq_some h, ?_⟩
  have hany := List.find?_some h
  obtain ⟨c, hc, hleads⟩ := (Option.any_eq_true _ _).mp hany
  exact ⟨c, hc, of_decide_eq_true hleads⟩

theorem of_lookUp_none (h : lookUp protocols s call = none) (hn : n ∈ s.cnxList)
    (hc : s.cnxs[n]? = some c) (hleads : c.Leads protocols call) : c.status = .disconnected := by
  have hno := List.find?_eq_none.mp h n hn
  rw [hc] at hno
  by_contra hstatus
  exact hno (by simp [hleads, hstatus])

theorem addressed_eq {protoName : String} {proto : Nat} (hdirect : Direct protocols protoName net)
    (h : addressed protocols protoName net = some proto) :
    protocolFind protocols protoName = some proto := by
  obtain ⟨found, hfound, h⟩ := Option.bind_eq_some_iff.mp h
  by_cases haddr : found ∈ net.sockaddr
  · rw [if_pos haddr] at h
    exact hfound.trans h
  · rw [if_neg haddr] at h
    split at h
    · next hsix => exact absurd (hdirect hsix found hfound) haddr
    · cases h

theorem doInitiate_eq {protoName : String} {proto : Nat} {status : LinkStatus}
    (h : doInitiate protocols protoName net = some (proto, status)) :
    addressed protocols protoName net = some proto ∧ (status = .connecting ∨ status = .connected) := by
  obtain ⟨used, hused, h⟩ := Option.bind_eq_some_iff.mp h
  obtain ⟨done, -, h⟩ := Option.bind_eq_some_iff.mp h
  obtain ⟨rfl, rfl⟩ := Prod.mk.inj (Option.some.inj h)
  cases done with
  | false => exact ⟨hused, .inl rfl⟩
  | true => exact ⟨hused, .inr rfl⟩

theorem Links.cnxList_modify (s : Links) (n : Nat) (f : Cnx → Cnx) : (s.modify n f).cnxList = s.cnxList := by
  unfold Links.modify
  split <;> rfl

theorem Links.length_modify (s : Links) (n : Nat) (f : Cnx → Cnx) :
    (s.modify n f).cnxs.length = s.cnxs.length := by
  unfold Links.modify
  split
  · exact List.length_modify f _ _
  · rfl

/-- A connection behind a change of one. -/
theorem Links.of_modify {f : Cnx → Cnx} {m : Nat} (hc : (s.modify n f).cnxs[m]? = some c) :
    ∃ c₀, s.cnxs[m]? = some c₀ ∧ (c = c₀ ∨ m = n ∧ n ∈ s.cnxList ∧ c = f c₀) := by
  unfold Links.modify at hc
  split at hc
  · next hn =>
    rw [List.getElem?_modify] at hc
    obtain ⟨c₀, hc₀, heq⟩ := Option.map_eq_some_iff.mp hc
    by_cases hmn : n = m
    · rw [if_pos hmn] at heq
      exact ⟨c₀, hc₀, .inr ⟨hmn.symm, hn, heq.symm⟩⟩
    · rw [if_neg hmn] at heq
      exact ⟨c₀, hc₀, .inl heq.symm⟩
  · exact ⟨c, hc, .inl rfl⟩

/-- A change of one connection that does not make it usable beside another one that leads where it
does. -/
theorem Sound.modify (h : Sound s) {f : Cnx → Cnx}
    (hf : n ∈ s.cnxList → ∀ c, s.cnxs[n]? = some c → (f c).Usable →
      ∀ m ∈ s.cnxList, m ≠ n → ∀ c' ∈ s.cnxs[m]?, c'.Usable → ¬ c'.Alike (f c)) :
    Sound (s.modify n f) := by
  refine ⟨?_, ?_⟩
  · rw [Links.cnxList_modify, Links.length_modify]
    exact h.bound
  · rw [Links.cnxList_modify]
    intro m hm m' hm' c hc c' hc' hu hu' halike
    obtain ⟨c₀, hc₀, hcases⟩ := Links.of_modify hc
    obtain ⟨c₁, hc₁, hcases'⟩ := Links.of_modify hc'
    by_contra hne
    rcases hcases with rfl | ⟨rfl, hn, rfl⟩
    · rcases hcases' with rfl | ⟨rfl, hn, rfl⟩
      · exact hne (h.unique m hm m' hm' _ hc₀ _ hc₁ hu hu' halike)
      · exact hf hn c₁ hc₁ hu' m hm hne _ hc₀ hu halike
    · rcases hcases' with rfl | ⟨rfl, -, rfl⟩
      · exact hf hn c₀ hc₀ hu m' hm' (Ne.symm hne) _ hc₁ hu' halike.symm
      · exact hne rfl

/-- A change of the status alone that makes nothing usable. -/
theorem Sound.weaken (h : Sound s) {f : Cnx → Cnx} (hf : ∀ c, (f c).Usable → c.Usable)
    (hstatus : ∀ c, ∃ status, f c = { c with status := status }) : Sound (s.modify n f) := by
  refine h.modify fun hn c hc hu m hm hne c' hc' hu' halike => hne ?_
  obtain ⟨status, heq⟩ := hstatus c
  rw [heq] at halike
  exact h.unique m hm n hn c' hc' c hc hu' (hf c hu)
    ⟨halike.wasInitiated, halike.wasInitiated', halike.proto, halike.remoteHostInfo,
      halike.remoteServInfo, halike.ssl⟩

/-- One more connection, beside none that leads where it does. -/
theorem Sound.push (h : Sound s) (hnew : ∀ m ∈ s.cnxList, ∀ c' ∈ s.cnxs[m]?, c.Usable → c'.Usable →
    ¬ c'.Alike c) : Sound ⟨s.cnxs ++ [c], s.cnxs.length :: s.cnxList⟩ := by
  have hold : ∀ m ∈ s.cnxList, ∀ c' ∈ (s.cnxs ++ [c])[m]?, c' ∈ s.cnxs[m]? := by
    intro m hm c' hc'
    rwa [List.getElem?_append_left (h.bound m hm)] at hc'
  have hlast : ∀ c' ∈ (s.cnxs ++ [c])[s.cnxs.length]?, c' = c := by
    intro c' hc'
    rw [List.getElem?_concat_length] at hc'
    exact (Option.some.inj hc').symm
  refine ⟨?_, ?_⟩
  · intro m hm
    rw [List.length_append]
    rcases List.mem_cons.mp hm with rfl | hm
    · exact Nat.lt_succ_self _
    · exact Nat.lt_succ_of_lt (h.bound m hm)
  · intro m hm m' hm' d hd d' hd' hu hu' halike
    rcases List.mem_cons.mp hm with rfl | hm
    · rcases List.mem_cons.mp hm' with rfl | hm'
      · rfl
      · cases hlast d hd
        exact absurd halike.symm (hnew m' hm' d' (hold m' hm' d' hd') hu hu')
    · rcases List.mem_cons.mp hm' with rfl | hm'
      · cases hlast d' hd'
        exact absurd halike (hnew m hm d (hold m hm d hd) hu' hu)
      · exact h.unique m hm m' hm' d (hold m hm d hd) d' (hold m' hm' d' hd') hu hu' halike

theorem sound_initiate (h : Sound s) (hready : Ready protocols s (.initiate call net)) :
    Sound (initiate protocols s call net).1 := by
  unfold initiate
  cases hlook : lookUp protocols s call with
  | some n => exact h
  | none =>
    cases hdo : doInitiate protocols call.protoName net with
    | none => exact h
    | some made =>
      obtain ⟨proto, status⟩ := made
      have hproto := addressed_eq hready.1 (doInitiate_eq hdo).1
      refine h.push fun m hm c' hc' _ hu' halike => ?_
      have hleads : c'.Leads protocols call := halike.leads ⟨rfl, hproto, rfl, rfl, rfl⟩
      have hstatus := of_lookUp_none hlook hm hc' hleads
      rcases hu' with hu' | hu' <;> rw [hstatus] at hu' <;> cases hu'

theorem Cnx.reconnect_of_usable (h : c.Usable) : c.reconnect protocols net = c := by
  refine if_neg ?_
  rintro (hstatus | hstatus) <;> rcases h with h | h <;> rw [hstatus] at h <;> cases h

theorem Cnx.reconnect_cases (protocols : List String) (net : Net) (c : Cnx) :
    c.reconnect protocols net = c ∨ ∃ protoName proto status, protocols[c.proto]? = some protoName ∧
      doInitiate protocols protoName net = some (proto, status) ∧
      c.reconnect protocols net = { c with wasInitiated := true, proto := proto, status := status } := by
  unfold Cnx.reconnect
  split
  · split
    · next proto status hdo =>
      obtain ⟨protoName, hname, hdo⟩ := Option.bind_eq_some_iff.mp hdo
      exact .inr ⟨protoName, proto, status, hname, hdo, rfl⟩
    · exact .inl rfl
  · exact .inl rfl

theorem Cnx.establish_status (ok : Bool) (c : Cnx) :
    ∃ status, c.establish ok = { c with status := status } := by
  unfold Cnx.establish
  split
  · exact ⟨_, rfl⟩
  · exact ⟨c.status, rfl⟩

theorem Cnx.expire_status (c : Cnx) : ∃ status, c.expire = { c with status := status } := by
  unfold Cnx.expire
  split
  · exact ⟨c.status, rfl⟩
  · exact ⟨_, rfl⟩

theorem sound_step (h : Sound s) {e : Event} (hready : Ready protocols s e) :
    Sound (step protocols s e) := by
  cases e with
  | initiate call net => exact sound_initiate h hready
  | accept cnx => exact h.push fun m _ c' _ _ _ halike => Bool.false_ne_true halike.wasInitiated'
  | established n ok =>
    refine h.weaken (fun c hu => ?_) (Cnx.establish_status ok)
    unfold Cnx.establish at hu
    split at hu
    · next hstatus => exact .inl hstatus
    · exact hu
  | closed n =>
    refine h.weaken (fun c hu => ?_) fun c => ⟨_, rfl⟩
    rcases hu with hu | hu <;> cases hu
  | timeout n =>
    refine h.weaken (fun c hu => ?_) Cnx.expire_status
    unfold Cnx.expire at hu
    split at hu
    · exact hu
    · rcases hu with hu | hu <;> cases hu
  | tryReconnect n net =>
    refine h.modify fun hn c hc hu m hm hne c' hc' hu' halike => ?_
    rcases Cnx.reconnect_cases protocols net c with heq | ⟨protoName, proto, status, hname, hdo, heq⟩
    · rw [heq] at hu halike
      exact hne (h.unique m hm n hn c' hc' c hc hu' hu halike)
    · obtain ⟨hdirect, halone⟩ := hready c hc protoName hname
      rw [heq] at halike
      refine halone proto (addressed_eq hdirect (doInitiate_eq hdo).1) m hm hne c' hc' hu' ?_
      exact ⟨halike.wasInitiated, rfl, halike.proto, halike.remoteHostInfo, halike.remoteServInfo,
        halike.ssl⟩
  | unref n =>
    refine ⟨fun m hm => h.bound m (List.mem_of_mem_erase hm), ?_⟩
    intro m hm m' hm'
    exact h.unique m (List.mem_of_mem_erase hm) m' (List.mem_of_mem_erase hm')

theorem Links.modify_keeps {f : Cnx → Cnx} (hf : ∃ status, f c = { c with status := status }) {m : Nat}
    (hc : s.cnxs[n]? = some c) : ∃ status, (s.modify m f).cnxs[n]? = some { c with status := status } := by
  unfold Links.modify
  split
  · rw [List.getElem?_modify, hc, Option.map_eq_map, Option.map_some]
    split
    · obtain ⟨status, heq⟩ := hf
      exact ⟨status, congrArg some heq⟩
    · exact ⟨c.status, rfl⟩
  · exact ⟨c.status, hc⟩

/-- What a connection that can be used was initiated for does not change. -/
theorem step_keeps (hc : s.cnxs[n]? = some c) (hu : c.Usable) (e : Event) :
    ∃ status, (step protocols s e).cnxs[n]? = some { c with status := status } := by
  have hpush : ∀ new : Cnx, (s.cnxs ++ [new])[n]? = some c := fun new =>
    (List.getElem?_append_left (List.getElem?_eq_some_iff.mp hc).1).trans hc
  cases e with
  | initiate call net =>
    refine ⟨c.status, ?_⟩
    change (initiate protocols s call net).1.cnxs[n]? = some c
    unfold initiate
    split
    · exact hc
    · split
      · exact hc
      · exact hpush _
  | accept cnx => exact ⟨c.status, hpush _⟩
  | established n ok => exact Links.modify_keeps (Cnx.establish_status ok c) hc
  | closed n => exact Links.modify_keeps ⟨_, rfl⟩ hc
  | timeout n => exact Links.modify_keeps (Cnx.expire_status c) hc
  | tryReconnect n net => exact Links.modify_keeps ⟨c.status, Cnx.reconnect_of_usable hu⟩ hc
  | unref n => exact ⟨c.status, hc⟩

theorem leads_run {es : List Event} (hc : s.cnxs[n]? = some c) (hleads : c.Leads protocols call)
    (hu : ∀ k, UsableAt (run (step protocols) s (es.take k)) n) :
    ∃ c', (run (step protocols) s es).cnxs[n]? = some c' ∧ c'.Leads protocols call := by
  induction es generalizing s c with
  | nil => exact ⟨c, hc, hleads⟩
  | cons e es ih =>
    obtain ⟨-, c', hc', hu'⟩ := hu 0
    cases hc.symm.trans hc'
    obtain ⟨status, hnext⟩ := step_keeps hc hu' e
    refine ih hnext ?_ fun k => hu (k + 1)
    exact ⟨hleads.wasInitiated, hleads.proto, hleads.remoteHostInfo, hleads.remoteServInfo, hleads.ssl⟩

/-- What the look-up chooses. -/
theorem lookUp_granted (hready : Ready protocols s (.initiate call net))
    (h : lookUp protocols s call = some n) : n ∈ s.cnxList ∧ Granted protocols s call n := by
  obtain ⟨hn, c, hc, hleads, hstatus⟩ := of_lookUp h
  refine ⟨hn, c, hc, hleads, ?_⟩
  rcases hready.2 n hn c hc hleads with hgone | ⟨htimeout, hversion⟩
  · exact absurd hgone hstatus
  · refine ⟨hversion, ?_⟩
    cases hs : c.status with
    | connecting => exact .inl hs
    | connected => exact .inr hs
    | disconnected => exact absurd hs hstatus
    | timeout => exact absurd hs htimeout

theorem initiate_granted (hready : Ready protocols s (.initiate call net))
    (h : (initiate protocols s call net).2 = some n) :
    Granted protocols (initiate protocols s call net).1 call n := by
  unfold initiate at h ⊢
  cases hlook : lookUp protocols s call with
  | some m =>
    rw [hlook] at h
    cases Option.some.inj h
    exact (lookUp_granted hready hlook).2
  | none =>
    cases hdo : doInitiate protocols call.protoName net with
    | none =>
      rw [hlook, hdo] at h
      cases h
    | some made =>
      rw [hlook, hdo] at h
      cases Option.some.inj h
      obtain ⟨haddr, hstatus⟩ := doInitiate_eq hdo
      refine ⟨_, List.getElem?_concat_length, ⟨rfl, addressed_eq hready.1 haddr, rfl, rfl, rfl⟩, rfl, ?_⟩
      exact hstatus

/-- A connection that leads where a call asks for and can be used is the one it gets. -/
theorem initiate_shared (hs : Sound s) (hready : Ready protocols s (.initiate call net))
    (hn : n ∈ s.cnxList) (hc : s.cnxs[n]? = some c) (hleads : c.Leads protocols call)
    (hu : c.Usable) : (initiate protocols s call net).2 = some n := by
  unfold initiate
  cases hlook : lookUp protocols s call with
  | none =>
    have hgone := of_lookUp_none hlook hn hc hleads
    rcases hu with hu | hu <;> rw [hgone] at hu <;> cases hu
  | some m =>
    obtain ⟨hm, c', hc', hleads', -, hu'⟩ := lookUp_granted hready hlook
    exact congrArg some (hs.unique m hm n hn c' hc' c hc hu' hu (hleads'.alike hleads))

theorem sound_start : Sound start := ⟨fun _ h => (nomatch h), fun _ h => (nomatch h)⟩

theorem sound_run (hs : Sound s) {events : List Event}
    (h : Meets (step protocols) (Ready protocols) s events) : Sound (run (step protocols) s events) :=
  (Meets.always (P := Sound) (fun _ _ hs hready => sound_step hs hready) hs h).last

end

/-! ### Runs -/

/-- Where every step is ready, calls share the connections that can be used. -/
theorem connection_sharing (protocols : List String) (events : List Event)
    (h : Meets (step protocols) (Ready protocols) start events) : Shares protocols events where
  granted before call net behind n heq hgot := by
    rw [heq, meets_append] at h
    rw [run_append]
    exact initiate_granted h.2.1 hgot
  shared before call net between net' behind n heq hgot husable := by
    rw [heq, List.append_assoc, meets_append] at h
    obtain ⟨hbefore, hready, hrest⟩ := h
    obtain ⟨hbetween, hready', -⟩ := meets_append.mp hrest
    obtain ⟨c, hc, hleads, -, -⟩ := initiate_granted hready hgot
    simp only [run_append, run_cons] at husable ⊢
    obtain ⟨c', hc', hleads'⟩ := leads_run hc hleads husable
    have hlast := husable between.length
    rw [List.take_length] at hlast
    obtain ⟨hn, c₁, hc₁, hu⟩ := hlast
    cases hc'.symm.trans hc₁
    have hsound := sound_step (sound_run sound_start hbefore) hready
    exact initiate_shared (sound_run hsound hbetween) hready' hn hc' hleads' hu

def unixCall (giopVersion : Version) : Call := ⟨"UNIX", "a", "b", false, giopVersion⟩

/-- A connection in progress is shared, and a new one takes the place of one that is closed. -/
theorem sharing_of_calls : Shares ["UNIX"]
    [.initiate (unixCall .v1_2) ⟨[0], some false⟩, .established 0 true,
      .initiate (unixCall .v1_2) ⟨[0], some true⟩, .closed 0,
      .initiate (unixCall .v1_0) ⟨[0], some true⟩] :=
  connection_sharing _ _ (by decide)

/-- A call with another version of GIOP gets the connection that is there. -/
theorem version_not_compared : ¬ Shares ["UNIX"]
    [.initiate (unixCall .v1_0) ⟨[0], some true⟩, .initiate (unixCall .v1_2) ⟨[0], some true⟩] := by
  intro h
  obtain ⟨c, hc, -, hversion, -⟩ := h.granted [.initiate (unixCall .v1_0) ⟨[0], some true⟩]
    (unixCall .v1_2) ⟨[0], some true⟩ [] 0 rfl (by decide)
  cases hc
  cases hversion

end ORBit2.Sharing
