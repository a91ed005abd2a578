import ORBit2.Effects

/-! What a connection that is not authenticated can make the process hold. The limit is
compared with the size of every single message, never with what a list has grown to. -/

set_option autoImplicit false

namespace ORBit2
open Words Runs

/-- With what a read adds to it, the list it adds to stays within the limit. -/
def fitsLimit (env : Env) (c : Conn) (r : ReadResult) : Prop :=
  match completed env c r with
  | none => True
  | some buf =>
      match messageId env buf with
      | none => True
      | some (buf', id) =>
          match c.listFor buf id with
          | none => True
          | some l => buf.fragmented = true →
              l.held.length + buf'.remaining.length ≤ env.limit

instance (env : Env) (c : Conn) (r : ReadResult) : Decidable (fitsLimit env c r) := by
  unfold fitsLimit
  induction completed env c r using Option.casesOn with
  | none => infer_instance
  | some buf =>
    dsimp only
    induction messageId env buf using Option.casesOn with
    | none => infer_instance
    | some found =>
      dsimp only
      induction c.listFor buf found.2 using Option.casesOn <;> infer_instance

/-- No list and no message handed out is larger than the limit. -/
structure Conn.WithinLimit (env : Env) (c : Conn) : Prop where
  held : ∀ l ∈ c.incomingFrags, l.held.length ≤ env.limit
  dispatched : ∀ buf ∈ c.dispatched, buf.body.length ≤ env.limit

section
variable {env : Env} {c : Conn} {buf buf' : RecvBuffer} {id : Nat} {r : ReadResult}
  {before after : List FragList} {l : FragList}

theorem fitsLimit_apply (h : fitsLimit env c r) (hb : completed env c r = some buf)
    (hm : messageId env buf = some (buf', id)) (hj : c.Joins buf id before l after)
    (hf : buf.fragmented = true) : l.held.length + buf'.remaining.length ≤ env.limit := by
  unfold fitsLimit at h
  simp only [hb, hm, hj.listFor] at h
  exact h hf

/-- A read that keeps its list within the limit keeps everything within it. -/
theorem round_withinLimit (h : c.WithinLimit env) (hframed : c.Framed env)
    (hauth : c.isAuth = false) (hc : fitsLimit env c r) : (round env c r).WithinLimit env := by
  have harr : ∀ buf, completed env c r = some buf → buf.body.length ≤ env.limit := by
    intro buf hb
    have ha := completed_arrived hframed hb
    rw [ha.body_length]
    exact ha.limit hauth
  have heff := round_effect env c r
  generalize round env c r = c' at heff ⊢
  cases heff with
  | quiet hfrags hdis hwhy => exact ⟨hfrags ▸ h.held, hdis ▸ h.dispatched⟩
  | @empty bytes header block hr hlen hs hp h0 hto hfrags hdis =>
    refine ⟨hfrags ▸ h.held, ?_⟩
    rw [hdis, List.forall_mem_append, List.forall_mem_singleton]
    refine ⟨h.dispatched, ?_⟩
    rcases hframed.takeBuf.store hlen.le with hrh | hrb
    · simp [RecvBuffer.opened, hrh.body]
    · have he := hrb.state
      rw [RecvBuffer.store_state, hs] at he
      cases he
  | plain hb hf hto hfrags hdis =>
    refine ⟨hfrags ▸ h.held, ?_⟩
    rw [hdis, List.forall_mem_append, List.forall_mem_singleton]
    exact ⟨h.dispatched, harr _ hb⟩
  | opened hb hm hnot hmore hfrags hdis =>
    refine ⟨?_, hdis ▸ h.dispatched⟩
    rw [hfrags, List.forall_mem_cons]
    refine ⟨?_, h.held⟩
    simpa [FragList.held, messageId_body hm] using harr _ hb
  | joined hb hm hj hmore hfrags hdis =>
    have hfit := fitsLimit_apply hc hb hm hj (by simp [RecvBuffer.fragmented, hmore])
    have hheld := h.held
    rw [hj.lists, List.forall_mem_append, List.forall_mem_cons] at hheld
    refine ⟨?_, hdis ▸ h.dispatched⟩
    rw [hfrags, List.forall_mem_append, List.forall_mem_cons]
    refine ⟨hheld.1, ?_, hheld.2.2⟩
    rw [FragList.held_join, List.length_append]
    exact hfit
  | whole hb hm hj hmore hlast hle hblock hto hfrags hdis =>
    have hfit := fitsLimit_apply hc hb hm hj (by simp [RecvBuffer.fragmented, hlast])
    have hheld := h.held
    rw [hj.lists, List.forall_mem_append, List.forall_mem_cons] at hheld
    refine ⟨?_, ?_⟩
    · rw [hfrags, List.forall_mem_append]
      exact ⟨hheld.1, hheld.2.2⟩
    · rw [hdis, List.forall_mem_append, List.forall_mem_singleton]
      refine ⟨h.dispatched, ?_⟩
      rw [← List.length_append, ← FragList.held_join] at hfit
      exact hfit
  | dropped hb hm hj hmore hlast hfrags hdis hwhy =>
    have hheld := h.held
    rw [hj.lists, List.forall_mem_append, List.forall_mem_cons] at hheld
    refine ⟨?_, hdis ▸ h.dispatched⟩
    rw [hfrags, List.forall_mem_append]
    exact ⟨hheld.1, hheld.2.2⟩

/-- In every run in which no list is fed past the limit, nothing larger is ever held for
one request id or handed out. -/
theorem dispatched_withinLimit (env : Env) (rs : List ReadResult)
    (h : Meets (round env) (fitsLimit env) (.fresh false) rs) :
    Always (round env) (Conn.WithinLimit env) (.fresh false) rs := by
  have hall : Always (round env)
      (fun c => c.WithinLimit env ∧ c.Framed env ∧ c.isAuth = false) (.fresh false) rs := by
    refine h.always (fun c r hs hc => ?_) ⟨⟨by simp [Conn.fresh], by simp [Conn.fresh]⟩,
      Conn.fresh_framed false, rfl⟩
    obtain ⟨hlimit, hframed, hauth⟩ := hs
    exact ⟨round_withinLimit hlimit hframed hauth hc, round_framed hframed,
      (round_frame env c r).1.trans hauth⟩
  exact hall.imp fun c hc => hc.1

theorem dispatched_withinLimit_two :
    let env : Env := ⟨.little, 300, fun _ => .moved, fun _ => false⟩
    let rs := readMessages [(⟨.v1_2, 3, .locateReply, 8⟩, [7, 0, 0, 0, 0, 0, 0, 0]),
      (⟨.v1_2, 1, .fragment, 8⟩, [7, 0, 0, 0, 1, 2, 3, 4])]
    Always (round env) (Conn.WithinLimit env) (.fresh false) rs :=
  dispatched_withinLimit _ _ (by decide)

set_option maxRecDepth 4096 in
/-- Two messages of 200 bytes pass a limit of 300 as one of 396, and nobody minds. -/
theorem twoHalves_exceed :
    let env : Env := ⟨.little, 300, fun _ => .moved, fun _ => false⟩
    let body : List UInt8 := [7, 0, 0, 0] ++ List.replicate 196 0
    let rs := readMessages [(⟨.v1_2, 3, .locateReply, 200⟩, body),
      (⟨.v1_2, 1, .fragment, 200⟩, body)]
    let c := run (round env) (.fresh false) rs
    c.dispatched.map (·.body.length) = [396] ∧ c.dead = false ∧
      ¬ Always (round env) (Conn.WithinLimit env) (.fresh false) rs := by
  intro env body rs c
  have hlen : c.dispatched.map (·.body.length) = [396] := by decide
  refine ⟨hlen, by decide, fun h => ?_⟩
  have hmem : 396 ∈ c.dispatched.map (·.body.length) := by simp [hlen]
  obtain ⟨buf, hb, he⟩ := List.mem_map.mp hmem
  have hle := h.last.dispatched buf hb
  have hlimit : env.limit = 300 := rfl
  omega

end

end ORBit2
