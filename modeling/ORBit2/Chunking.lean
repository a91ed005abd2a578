import ORBit2.RecvCases

/-! How the bytes of a stream are cut into reads does not matter: running
`giop_connection_handle_input` over them is feeding them one by one. -/

set_option autoImplicit false

namespace ORBit2
open Words Runs

section
variable {env : Env} {c c' : Conn} {buf : RecvBuffer}

@[simp] theorem Conn.takeBuf_incomingMsg (c : Conn) : c.takeBuf.1.incomingMsg = none := by
  unfold Conn.takeBuf
  cases h : c.incomingMsg <;> rfl

@[simp] theorem Conn.takeBuf_status (c : Conn) : c.takeBuf.1.status = c.status := by
  unfold Conn.takeBuf
  cases c.incomingMsg <;> rfl

@[simp] theorem Conn.takeBuf_fault (c : Conn) : c.takeBuf.1.fault = c.fault := by
  unfold Conn.takeBuf
  cases c.incomingMsg <;> rfl

@[simp] theorem Conn.dead_takeBuf (c : Conn) : c.takeBuf.1.dead = c.dead := by
  simp [Conn.dead]

theorem Conn.takeBuf_some (h : c.incomingMsg = none) :
    ({ c with incomingMsg := some buf } : Conn).takeBuf = (c, buf) := by
  cases c
  simp only at h
  simp [Conn.takeBuf, h]

/-- The message in progress still expects some bytes. -/
def Conn.Expecting (c : Conn) : Prop := ∀ buf, c.incomingMsg = some buf → 0 < buf.leftToRead

theorem Conn.Expecting.left_pos (h : c.Expecting) : 0 < c.takeBuf.2.leftToRead := by
  unfold Conn.takeBuf
  cases hm : c.incomingMsg with
  | none => simp [RecvBuffer.useBuf]
  | some buf => exact h buf hm

theorem RecvBuffer.store_store (buf : RecvBuffer) (xs ys : List UInt8) :
    (buf.store xs).store ys = buf.store (xs ++ ys) := by
  unfold RecvBuffer.store
  cases buf.state <;> simp [Nat.sub_sub, Nat.add_assoc]

/-- Reading on is reading everything at once. -/
theorem handleRead_append {xs ys : List UInt8} :
    handleRead env c (buf.store xs) (.data ys) = handleRead env c buf (.data (xs ++ ys)) := by
  simp only [handleRead, RecvBuffer.store_store]

theorem handleRead_partial {bytes : List UInt8} (h : bytes.length < buf.leftToRead) :
    handleRead env c buf (.data bytes) =
      .ok ({ c with incomingMsg := some (buf.store bytes) }, true) := by
  have hl : (buf.store bytes).leftToRead ≠ 0 := by
    rw [RecvBuffer.store_leftToRead]
    omega
  simp only [handleRead, if_neg hl]

theorem finishHeader_incomingMsg {r : Conn × Bool} (h : finishHeader env c buf = .ok r) :
    (r.2 = false ∧ r.1.incomingMsg = none) ∨
    (r.2 = true ∧ r.1.dead = c.dead ∧ ∃ buf', r.1.incomingMsg = some buf' ∧ 0 < buf'.leftToRead) := by
  cases finishHeader_cases h with
  | refused hc hm =>
    obtain ⟨-, rfl⟩ := Conn.msgError_eq_ok.mp hm
    exact .inl ⟨rfl, rfl⟩
  | reading hp hl hpos => exact .inr ⟨rfl, rfl, _, rfl, hpos⟩
  | empty hp h0 hd =>
    obtain ⟨-, rfl⟩ := dispatch_eq_ok.mp hd
    exact .inl ⟨rfl, rfl⟩

theorem BodyCase.incomingMsg (h : BodyCase env c buf c') : c'.incomingMsg = none := by
  cases h with
  | refused hid hwhy hm =>
    obtain ⟨-, rfl⟩ := Conn.msgError_eq_ok.mp hm
    rfl
  | plain hle hd hmore htype hdis =>
    obtain ⟨-, rfl⟩ := dispatch_eq_ok.mp hdis
    rfl
  | fragError hle hd hwhy hcase hm =>
    obtain ⟨-, rfl⟩ := Conn.msgError_eq_ok.mp hm
    rfl
  | held hle hd hmore hcase => rfl
  | reassembled hle hd hmore htype hcase hdis =>
    obtain ⟨-, rfl⟩ := dispatch_eq_ok.mp hdis
    rfl

/-- A round either goes round again with a message in progress, or ends without one. -/
theorem handleRead_data {bytes : List UInt8} {r : Conn × Bool}
    (h : handleRead env c buf (.data bytes) = .ok r) :
    (r.2 = false ∧ r.1.incomingMsg = none) ∨
    (r.2 = true ∧ r.1.dead = c.dead ∧ ∃ buf', r.1.incomingMsg = some buf' ∧ 0 < buf'.leftToRead) := by
  unfold handleRead at h
  by_cases hl : (buf.store bytes).leftToRead = 0
  · simp only [hl, if_true] at h
    simp only [RecvBuffer.store_state] at h
    cases hs : buf.state with
    | readingHeader =>
      simp only [hs] at h
      exact finishHeader_incomingMsg h
    | readingBody =>
      simp only [hs] at h
      cases hb : finishBody env c (buf.store bytes) with
      | error fault => simp [hb, bind, Except.bind] at h
      | ok c' =>
        simp [hb, bind, Except.bind, pure, Except.pure] at h
        exact .inl (h ▸ ⟨rfl, (finishBody_cases hb).incomingMsg⟩)
    | awaitingFragments => simp [hs] at h
    | ready => simp [hs] at h
  · simp only [hl, if_false, Except.ok.injEq] at h
    exact .inr (h ▸ ⟨rfl, rfl, _, rfl, by omega⟩)

theorem round_dead (h : c.dead = true) (r : ReadResult) : round env c r = c := by
  rw [round, if_pos h]

theorem round_alive (h : c.dead = false) (r : ReadResult) :
    round env c r = roundOn env c.takeBuf.1 c.takeBuf.2 r := by
  rw [round, h]
  rfl

theorem run_dead (h : c.dead = true) (rs : List ReadResult) : run (round env) c rs = c :=
  run_fixed (fun r => round_dead h r) rs

/-- A read that finds nothing changes nothing for the reads after it. -/
theorem round_round_wouldBlock (r : ReadResult) :
    round env (round env c .wouldBlock) r = round env c r := by
  cases h : c.dead with
  | true => rw [round_dead h]
  | false =>
    have hw : round env c .wouldBlock = { c.takeBuf.1 with incomingMsg := some c.takeBuf.2 } :=
      round_alive h _
    have htake : (round env c .wouldBlock).takeBuf = c.takeBuf := by
      rw [hw, Conn.takeBuf_some c.takeBuf_incomingMsg]
    have hdead : (round env c .wouldBlock).dead = false := by
      rw [hw]
      exact c.dead_takeBuf.trans h
    rw [round_alive hdead, htake, round_alive h]

/-- The state a run leaves, up to a buffer taken for a message that has not begun. -/
def Conn.settled (env : Env) (c : Conn) : Conn := round env c .wouldBlock

theorem run_settled (rs : List ReadResult) :
    (run (round env) (c.settled env) rs).settled env = (run (round env) c rs).settled env := by
  cases rs with
  | nil => exact round_round_wouldBlock _
  | cons r rs =>
    have h : round env (c.settled env) r = round env c r := round_round_wouldBlock r
    rw [run_cons, run_cons, h]

theorem round_expecting (h : c.Expecting) (r : ReadResult) : (round env c r).Expecting := by
  cases hd : c.dead with
  | true => rwa [round_dead hd]
  | false =>
    have hleft := h.left_pos
    have hnone := c.takeBuf_incomingMsg
    rw [round_alive hd]
    generalize c.takeBuf.1 = c₁ at hnone ⊢
    generalize c.takeBuf.2 = buf at hleft ⊢
    have hput : ({ c₁ with incomingMsg := some buf } : Conn).Expecting := by
      intro buf' hb
      cases hb
      exact hleft
    have hidle : ∀ c' : Conn, c'.incomingMsg = none → c'.Expecting := by
      intro c' hn buf' hb
      rw [hn] at hb
      cases hb
    cases r with
    | wouldBlock => exact hput
    | fatal =>
      unfold roundOn
      cases hm : c₁.msgError buf with
      | error fault =>
        simp only [handleRead, hm, bind, Except.bind, Conn.record]
        exact hidle _ hnone
      | ok c' =>
        obtain ⟨-, rfl⟩ := Conn.msgError_eq_ok.mp hm
        simp only [handleRead, hm, bind, Except.bind, pure, Except.pure, Conn.record]
        exact hidle _ rfl
    | data bytes =>
      unfold roundOn
      by_cases hb : bytes = [] ∨ buf.leftToRead < bytes.length
      · simpa only [if_pos hb] using hput
      by_cases hi : 2^31 ≤ buf.leftToRead
      · simp only [if_neg hb, if_pos hi]
        exact hidle _ hnone
      simp only [if_neg hb, if_neg hi]
      cases hr : handleRead env c₁ buf (.data bytes) with
      | error fault => exact hidle _ hnone
      | ok p =>
        rcases handleRead_data hr with ⟨-, hn⟩ | ⟨-, -, buf', he, hpos⟩
        · exact hidle _ hn
        · intro buf'' hb''
          simp only [Conn.record] at hb''
          rw [he] at hb''
          cases hb''
          exact hpos

/-- One read of several bytes is as many reads of one byte. -/
theorem round_data {bytes : List UInt8} (hne : bytes ≠ [])
    (hlen : bytes.length ≤ c.takeBuf.2.leftToRead) :
    round env c (.data bytes) = run (round env) c (bytes.map fun x => .data [x]) := by
  cases hd : c.dead with
  | true => rw [round_dead hd, run_dead hd]
  | false =>
    induction bytes generalizing c with
    | nil => exact absurd rfl hne
    | cons x rest ih =>
      cases rest with
      | nil => rfl
      | cons y rest =>
        simp only [List.length_cons] at hlen
        rw [List.map_cons, run_cons]
        have hb : ¬ ((x :: y :: rest) = [] ∨ c.takeBuf.2.leftToRead < (x :: y :: rest).length) := by
          simp; omega
        have hb1 : ¬ ([x] = [] ∨ c.takeBuf.2.leftToRead < [x].length) := by
          simp; omega
        by_cases hi : 2^31 ≤ c.takeBuf.2.leftToRead
        · have h1 : round env c (.data [x]) = { c.takeBuf.1 with fault := some .readAssertion } := by
            rw [round_alive hd, roundOn, if_neg hb1, if_pos hi]
          rw [h1, run_dead (by simp [Conn.dead]), round_alive hd, roundOn, if_neg hb, if_pos hi]
        · have h1 : round env c (.data [x]) =
              { c.takeBuf.1 with incomingMsg := some (c.takeBuf.2.store [x]) } := by
            rw [round_alive hd, roundOn, if_neg hb1, if_neg hi,
              handleRead_partial (by simp; omega)]
            rfl
          have htake := @Conn.takeBuf_some _ (c.takeBuf.2.store [x]) c.takeBuf_incomingMsg
          have hdead : (round env c (.data [x])).dead = false := by
            rw [h1]
            exact c.dead_takeBuf.trans hd
          rw [← h1] at htake
          have hstored : ((round env c (.data [x])).takeBuf.2).leftToRead =
              c.takeBuf.2.leftToRead - 1 := by
            rw [htake]
            simp
          rw [← ih (by simp) (by rw [hstored]; simp; omega) hdead, round_alive hdead,
            round_alive hd, htake]
          have hb2 : ¬ ((y :: rest) = [] ∨
              (c.takeBuf.2.store [x]).leftToRead < (y :: rest).length) := by
            simp; omega
          have hi2 : ¬ 2^31 ≤ (c.takeBuf.2.store [x]).leftToRead := by
            rw [RecvBuffer.store_leftToRead]
            omega
          simp only [roundOn, if_neg hb, if_neg hi, if_neg hb2, if_neg hi2, handleRead_append]
          rfl

/-- The reads of single bytes that an arrival amounts to. -/
def Arrival.reads : Arrival → List ReadResult
  | .chunk first rest => (first :: rest).map fun x => .data [x]
  | .block => []
  | .hangup => [.fatal]

theorem handleInput_eq (env : Env) (c : Conn) (arrivals : List Arrival) :
    handleInput env c arrivals =
      match linkRead c.takeBuf.1 c.takeBuf.2.leftToRead arrivals with
      | (.error fault, later) => ({ c.takeBuf.1 with fault := some fault }, later)
      | (.ok r, later) =>
          match c.takeBuf.1.record (handleRead env c.takeBuf.1 c.takeBuf.2 r) with
          | (c', true) => handleInput env c' later
          | (c', false) => (c', later) := by
  rw [handleInput]
  split
  · rename_i h
    simp only [h]
  · rename_i h
    simp only [h]
    split
    · rename_i h'
      simp only [h']
    · rename_i h'
      simp only [h']

theorem linkRead_chunk {len : Nat} (hs : c.status = .connected) (h0 : 0 < len) (hi : len < 2^31)
    (b : UInt8) (bs : List UInt8) (later : List Arrival) :
    ∃ bytes later', linkRead c len (.chunk b bs :: later) = (.ok (.data bytes), later') ∧
      bytes ≠ [] ∧ bytes.length ≤ len ∧
      (Arrival.chunk b bs :: later).flatMap Arrival.reads =
        (bytes.map fun x => ReadResult.data [x]) ++ later'.flatMap Arrival.reads := by
  have hsplit : (b :: bs).take len ++ (b :: bs).drop len = b :: bs := List.take_append_drop _ _
  unfold linkRead
  rw [if_neg (by omega), if_neg (by simp [hs])]
  simp only [if_neg (show ¬ 2^31 ≤ len by omega)]
  cases hd : (b :: bs).drop len with
  | nil =>
    have hlen : (b :: bs).length ≤ len := by simpa using hd
    exact ⟨b :: bs, later, rfl, by simp, hlen, rfl⟩
  | cons b' bs' =>
    refine ⟨(b :: bs).take len, .chunk b' bs' :: later, rfl, ?_, by simp, ?_⟩
    · cases len with
      | zero => omega
      | succ n => simp
    · rw [hd] at hsplit
      simp only [List.flatMap_cons, Arrival.reads]
      rw [← List.append_assoc, ← List.map_append, hsplit]

/-- One call of `giop_connection_handle_input` reads on in the same stream. -/
theorem handleInput_run (env : Env) (arrivals : List Arrival) (c : Conn) (hd : c.dead = false)
    (hx : c.Expecting) :
    (handleInput env c arrivals).1.Expecting ∧
    arrivalsSize (handleInput env c arrivals).2 ≤ arrivalsSize arrivals ∧
    (arrivals ≠ [] → arrivalsSize (handleInput env c arrivals).2 < arrivalsSize arrivals) ∧
    (run (round env) (handleInput env c arrivals).1
        ((handleInput env c arrivals).2.flatMap Arrival.reads)).settled env =
      (run (round env) c (arrivals.flatMap Arrival.reads)).settled env := by
  induction hn : arrivalsSize arrivals using Nat.strong_induction_on generalizing arrivals c with
  | _ n ih =>
  subst hn
  have hleft := hx.left_pos
  have hs : c.takeBuf.1.status = .connected := by
    rw [c.takeBuf_status]
    have h := hd
    simp only [Conn.dead, Bool.or_eq_false_iff] at h
    simpa using h.2
  have hround := @round_alive env c hd
  have hnext := @round_expecting env c hx
  rw [handleInput_eq]
  cases arrivals with
  | nil =>
    have hl : linkRead c.takeBuf.1 c.takeBuf.2.leftToRead [] = (.ok .wouldBlock, []) := by
      rw [linkRead, if_neg (by omega), if_neg (fun h => h hs)]
    have hw : (c.takeBuf.1.record (handleRead env c.takeBuf.1 c.takeBuf.2 .wouldBlock)) =
        (round env c .wouldBlock, false) := by
      rw [hround]
      rfl
    simp only [hl, hw]
    exact ⟨hnext _, Nat.le_refl _, by simp, run_settled []⟩
  | cons arrival later =>
    cases arrival with
    | block =>
      have hl : linkRead c.takeBuf.1 c.takeBuf.2.leftToRead (.block :: later) =
          (.ok .wouldBlock, later) := by
        rw [linkRead, if_neg (by omega), if_neg (fun h => h hs)]
      have hw : (c.takeBuf.1.record (handleRead env c.takeBuf.1 c.takeBuf.2 .wouldBlock)) =
          (round env c .wouldBlock, false) := by
        rw [hround]
        rfl
      simp only [hl, hw]
      exact ⟨hnext _, by simp [arrivalsSize], by simp [arrivalsSize, Arrival.size], run_settled _⟩
    | hangup =>
      have hl : linkRead c.takeBuf.1 c.takeBuf.2.leftToRead (.hangup :: later) =
          (.ok .fatal, later) := by
        rw [linkRead, if_neg (by omega), if_neg (fun h => h hs)]
      obtain ⟨c', again, hr⟩ : ∃ c' again, c.takeBuf.1.record
          (handleRead env c.takeBuf.1 c.takeBuf.2 .fatal) = (c', again) := ⟨_, _, rfl⟩
      have hf : again = false := by
        cases again with
        | false => rfl
        | true =>
          obtain ⟨bytes, hb⟩ := handleRead_again hr
          cases hb
      have hc' : c' = round env c .fatal := by
        rw [hround, roundOn, hr]
      subst hf hc'
      simp only [hl, hr]
      exact ⟨hnext _, by simp [arrivalsSize], by simp [arrivalsSize, Arrival.size], rfl⟩
    | chunk b bs =>
      by_cases hi : 2^31 ≤ c.takeBuf.2.leftToRead
      · have hl : linkRead c.takeBuf.1 c.takeBuf.2.leftToRead (.chunk b bs :: later) =
            (.error .readAssertion, later) := by
          rw [linkRead, if_neg (by omega), if_neg (fun h => h hs)]
          simp only [if_pos hi]
        have h1 : round env c (.data [b]) = { c.takeBuf.1 with fault := some .readAssertion } := by
          rw [hround, roundOn, if_neg (by simp; omega), if_pos hi]
        have hdead : (round env c (.data [b])).dead = true := by simp [h1, Conn.dead]
        simp only [hl, ← h1]
        refine ⟨hnext _, by simp [arrivalsSize], fun _ => by simp [arrivalsSize, Arrival.size], ?_⟩
        simp only [List.flatMap_cons, Arrival.reads, List.map_cons, List.cons_append, run_cons]
        rw [run_dead hdead, run_dead hdead]
      · obtain ⟨bytes, later', hl, hne, hlen, hreads⟩ :=
          linkRead_chunk hs hleft (by omega) b bs later
        have hsize := linkRead_size hl
        obtain ⟨c', again, hr⟩ : ∃ c' again, c.takeBuf.1.record
            (handleRead env c.takeBuf.1 c.takeBuf.2 (.data bytes)) = (c', again) := ⟨_, _, rfl⟩
        have hc' : c' = round env c (.data bytes) := by
          rw [hround, roundOn, if_neg (by simp [hne]; omega), if_neg hi, hr]
        have hrun : (run (round env) c' (later'.flatMap Arrival.reads)).settled env =
            (run (round env) c ((Arrival.chunk b bs :: later).flatMap Arrival.reads)).settled env := by
          rw [hreads, run_append, hc', round_data hne hlen]
        have hx' : c'.Expecting := hc' ▸ hnext _
        simp only [hl, hr]
        cases again with
        | false => exact ⟨hx', Nat.le_of_lt hsize, fun _ => hsize, hrun⟩
        | true =>
          have hd' : c'.dead = false := by
            cases hh : handleRead env c.takeBuf.1 c.takeBuf.2 (.data bytes) with
            | error fault => simp [hh, Conn.record] at hr
            | ok p =>
              rw [hh] at hr
              rcases handleRead_data hh with ⟨hf, -⟩ | ⟨-, hdead, -⟩
              · simp only [Conn.record] at hr
                rw [hr] at hf
                cases hf
              · simp only [Conn.record] at hr
                rw [hr] at hdead
                exact hdead.trans (c.dead_takeBuf.trans hd)
          obtain ⟨h1, h2, -, h3⟩ := ih _ hsize later' c' hd' hx' rfl
          have hlt := Nat.lt_of_le_of_lt h2 hsize
          exact ⟨h1, Nat.le_of_lt hlt, fun _ => hlt, h3.trans hrun⟩

/-- Running until the stream is exhausted is feeding its bytes one by one. -/
theorem drive_run (env : Env) (arrivals : List Arrival) (c : Conn) (hx : c.Expecting) :
    (drive env c arrivals).settled env =
      (run (round env) c (arrivals.flatMap Arrival.reads)).settled env := by
  induction hn : arrivalsSize arrivals using Nat.strong_induction_on generalizing arrivals c with
  | _ n ih =>
  subst hn
  rw [drive]
  by_cases hnil : arrivals = []
  · simp [hnil]
  cases hd : c.dead with
  | true => simp [run_dead hd]
  | false =>
    obtain ⟨hx', -, hsize, hrun⟩ := handleInput_run env arrivals c hd hx
    have hlt := hsize hnil
    simp only [Bool.false_eq_true, hnil, or_self, if_false, hlt, if_true]
    rw [ih _ hlt _ _ hx' rfl, hrun]

/-- The message in progress, if any of its bytes has arrived. -/
def Conn.partialMsg (c : Conn) : Option RecvBuffer :=
  match c.incomingMsg with
  | none => none
  | some buf => if buf.rawHeader = [] then none else some buf

theorem Conn.settled_observed (env : Env) (c : Conn) :
    (c.settled env).dispatched = c.dispatched ∧ (c.settled env).partialMsg = c.partialMsg ∧
    (c.settled env).incomingFrags = c.incomingFrags ∧ (c.settled env).status = c.status ∧
    (c.settled env).fault = c.fault := by
  unfold Conn.settled
  cases hd : c.dead with
  | true =>
    rw [round_dead hd]
    exact ⟨rfl, rfl, rfl, rfl, rfl⟩
  | false =>
    rw [round_alive hd]
    unfold Conn.takeBuf Conn.partialMsg
    cases hm : c.incomingMsg with
    | none => exact ⟨rfl, rfl, rfl, rfl, rfl⟩
    | some buf => exact ⟨rfl, rfl, rfl, rfl, rfl⟩

/-- Two deliveries of the same bytes, cut into reads in any two ways and with any waits
in between, hand out the same messages and leave the connection in the same state. -/
theorem drive_chunking (env : Env) (isAuth : Bool) (as bs : List Arrival)
    (h : as.flatMap Arrival.reads = bs.flatMap Arrival.reads) :
    let c := drive env (.fresh isAuth) as
    let c' := drive env (.fresh isAuth) bs
    c.dispatched = c'.dispatched ∧ c.partialMsg = c'.partialMsg ∧
      c.incomingFrags = c'.incomingFrags ∧ c.status = c'.status ∧ c.fault = c'.fault := by
  intro c c'
  have hx : (Conn.fresh isAuth).Expecting := by
    intro buf hb
    cases hb
  have heq : c.settled env = c'.settled env := by
    rw [drive_run env as _ hx, drive_run env bs _ hx, h]
  obtain ⟨h1, h2, h3, h4, h5⟩ := c.settled_observed env
  obtain ⟨h1', h2', h3', h4', h5'⟩ := c'.settled_observed env
  rw [heq] at h1 h2 h3 h4 h5
  exact ⟨h1.symm.trans h1', h2.symm.trans h2', h3.symm.trans h3', h4.symm.trans h4',
    h5.symm.trans h5'⟩

theorem drive_chunking_split :
    let env : Env := ⟨.little, 1000, fun _ => .inPlace, fun _ => false⟩
    let stream := (⟨.v1_1, 1, .cancelRequest, 4⟩ : MsgHeader).encode ++ [7, 0, 0, 0]
    let c := drive env (.fresh false) [.chunk 0x47 (stream.drop 1)]
    let c' := drive env (.fresh false)
      [.chunk 0x47 [0x49, 0x4f], .block, .chunk 0x50 (stream.drop 4)]
    c.dispatched = c'.dispatched ∧ c.partialMsg = c'.partialMsg ∧
      c.incomingFrags = c'.incomingFrags ∧ c.status = c'.status ∧ c.fault = c'.fault :=
  drive_chunking _ false _ _ rfl

end

end ORBit2
