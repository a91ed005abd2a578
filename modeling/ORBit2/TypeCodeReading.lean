import ORBit2.TypeCodeWire

/-! What the decoder of TypeCodes makes of the bytes its counterpart has written, as long as
it stands where the encoder stood. -/

set_option autoImplicit false

namespace ORBit2
open Words

/-! ### Words in two's complement -/

theorem unsigned_lt (w : Nat) (n : Int) : unsigned w n < 256 ^ w := by
  have hp : 0 < ((256 ^ w : Nat) : Int) := by exact_mod_cast Nat.pow_pos (by omega)
  have hl := Int.emod_lt_of_pos n hp
  have hn := Int.emod_nonneg n (ne_of_gt hp)
  unfold unsigned
  omega

theorem signed_unsigned {w : Nat} {n : Int} (hw : w = 1 ∨ w = 2 ∨ w = 4)
    (hl : -(256 ^ w / 2 : Nat) ≤ n) (hu : n < (256 ^ w / 2 : Nat)) :
    signed w (unsigned w n) = n := by
  unfold signed unsigned
  rcases hw with rfl | rfl | rfl <;> norm_num at hl hu ⊢ <;> split <;> omega

namespace BackRef

/-- The decoder finds the node: it lies inside the encapsulation of the reference and not too
far back, or else the two differences are wrong by the same amount. -/
def near (r : BackRef) : Bool := decide (r.start ≤ r.index) == decide (r.stop - r.index ≤ 2^31)

/-- The offset that is written for a node at `i` matches a node at `j`. -/
theorem match_iff {r : BackRef} {j : Nat} (hstop : r.stop < 2^32) (hs : r.start ≤ r.stop)
    (hi : r.index < r.stop) (hj : j < r.stop) :
    signed 4 (unsigned 4 ((r.index : Int) - r.stop)) = backOffset j r.start (r.stop - r.start) ↔
      j = r.index ∧ r.near = true := by
  unfold near backOffset signed unsigned
  rw [beq_iff_eq, decide_eq_decide]
  have h256 : (256 : Nat) ^ 4 = 4294967296 := by norm_num
  simp only [h256]
  have hj' : ((j : Int) - r.start) % 4294967296 =
      if r.start ≤ j then (j : Int) - r.start else 4294967296 + j - r.start := by
    split <;> omega
  have hi' : ((r.index : Int) - r.stop) % 4294967296 = 4294967296 + r.index - r.stop := by omega
  rw [show ((4294967296 : Nat) : Int) = 4294967296 by norm_num, hj', hi']
  split <;> split <;> omega

end BackRef

/-! ### Standing where the encoder stood -/

/-- The state after `n` more bytes and with new nodes. -/
def TcState.after (s : TcState) (n : Nat) (new : List (Decoded × Nat)) : TcState :=
  { s with cursor := { s.cursor with cur := s.cursor.cur + n }, prior := new ++ s.prior }

@[simp] theorem TcState.after_currentIdx (s : TcState) (n : Nat) (new : List (Decoded × Nat)) :
    (s.after n new).currentIdx = s.currentIdx := rfl

@[simp] theorem TcState.after_prior (s : TcState) (n : Nat) (new : List (Decoded × Nat)) :
    (s.after n new).prior = new ++ s.prior := rfl

theorem TcState.after_after (s : TcState) (n n' : Nat) (new new' : List (Decoded × Nat)) :
    (s.after n new).after n' new' = s.after (n + n') (new' ++ new) := by
  simp [after, Nat.add_assoc, List.append_assoc]

/-- The decoder is at the `message_size` that `rest` was written at, by a host of the order
`e`, in an encapsulation that begins at `start`. -/
structure Stands (e : Endian) (start : Nat) (s : TcState) (size : Nat) (rest : List UInt8) :
    Prop where
  pos : ∃ base, 8 ∣ base ∧ s.cursor.base + s.cursor.cur = base + 12 + size
  start : s.currentIdx = start
  idx : s.currentIdx + s.cursor.cur = 12 + size
  sender : s.cursor.sender = e
  inside : s.cursor.cur ≤ s.cursor.data.length
  data : s.cursor.data.drop s.cursor.cur = rest

section
variable {e : Endian} {start : Nat} {s : TcState} {size : Nat} {rest : List UInt8}

theorem Stands.length (h : Stands e start s size rest) :
    s.cursor.cur + rest.length = s.cursor.data.length := by
  have hl := congrArg List.length h.data
  have hi := h.inside
  rw [List.length_drop] at hl
  omega

theorem Stands.after {bytes : List UInt8} (h : Stands e start s size (bytes ++ rest))
    (new : List (Decoded × Nat)) :
    Stands e start (s.after bytes.length new) (size + bytes.length) rest := by
  have hl := h.length
  obtain ⟨base, hb, hp⟩ := h.pos
  rw [List.length_append] at hl
  constructor
  · refine ⟨base, hb, ?_⟩
    simp only [TcState.after]
    omega
  · exact h.start
  · have hi := h.idx
    simp only [TcState.after]
    omega
  · exact h.sender
  · simp only [TcState.after]
    omega
  · simp only [TcState.after]
    rw [← List.drop_drop, h.data, List.drop_left]

theorem Stands.of_append {bytes : List UInt8} (h : Stands e start s size (bytes ++ rest)) :
    (s.cursor.data.drop s.cursor.cur).take bytes.length = bytes := by
  rw [h.data, List.take_left]

/-- Both sides pad alike. -/
theorem Stands.align (h : Stands e start s size rest) {w : Nat} (hw : w ∣ 8) :
    alignUp (s.cursor.base + s.cursor.cur) w - s.cursor.base = s.cursor.cur + (pad w size).length := by
  obtain ⟨base, hb, hp⟩ := h.pos
  have hw0 : 0 < w := Nat.pos_of_dvd_of_pos hw (by omega)
  have hl := le_alignUp (12 + size) hw0
  rw [hp, show base + 12 + size = 12 + size + base by omega,
    alignUp_add_of_dvd hw0 (hw.trans hb), pad, List.length_replicate]
  omega

/-- Reading in this host's order, and swapping if the sender's differs, is reading in the
sender's order. -/
theorem join_sender (host sender : Endian) (w n : Nat) (hn : n < 256 ^ w) :
    (if w ≠ 1 ∧ sender ≠ host then swapWord w (host.join (sender.split w n))
      else host.join (sender.split w n)) = n := by
  by_cases hs : sender = host
  · subst hs
    rw [if_neg (by simp), Endian.join_split _ _ _ hn]
  · by_cases hw : w = 1
    · subst hw
      rw [if_neg (by simp)]
      have hj := sender.join_split 1 n hn
      generalize hb : sender.split 1 n = bs at hj ⊢
      have hlen : bs.length = 1 := by rw [← hb, Endian.split_length]
      obtain ⟨b, rfl⟩ := List.length_eq_one_iff.1 hlen
      rw [← hj]
      cases host <;> cases sender <;> rfl
    · rw [if_pos ⟨hw, hs⟩]
      have hsw := swapWord_join host (sender.split w n)
      rw [Endian.split_length] at hsw
      rw [hsw, ← Endian.eq_flip_of_ne (Ne.symm hs), Endian.join_split _ _ _ hn]

theorem cdrGet_at {w n : Nat} (h : Stands e start s size (cdrPut e w n size ++ rest))
    (hw : w ∣ 8) (hn : n < 256 ^ w) :
    cdrGet w s = .ok n (s.after (cdrPut e w n size).length []) := by
  obtain rfl := h.sender
  have hl := h.length
  have hlen : (cdrPut s.cursor.sender w n size).length = (pad w size).length + w := by
    rw [cdrPut, List.length_append, Endian.split_length]
  rw [List.length_append, hlen] at hl
  have hd : s.cursor.data.drop (s.cursor.cur + (pad w size).length) =
      s.cursor.sender.split w n ++ rest := by
    rw [← List.drop_drop, h.data, cdrPut, List.append_assoc, List.drop_left]
  unfold cdrGet
  simp only [h.align hw]
  rw [if_neg (by omega), hd, List.take_left' (Endian.split_length _ _ _),
    join_sender _ _ _ _ hn, hlen]
  simp [TcState.after, Nat.add_assoc]

theorem cdrGetConstString_at {str : List UInt8}
    (h : Stands e start s size (cdrPutString e str size ++ rest)) (hn : str.length + 1 < 2^32) :
    cdrGetConstString s = .ok (some (str ++ [0])) (s.after (cdrPutString e str size).length []) := by
  rw [cdrPutString, List.append_assoc] at h
  have hw := cdrGet_at h (by decide) (by simpa using hn)
  have h' := h.after []
  have hl := h'.length
  have ht := h'.of_append
  rw [List.length_append, List.length_append, List.length_singleton] at hl
  rw [cdrGetConstString, Reading.bind_ok hw, cdrGetBytes]
  rw [if_neg (by omega), if_neg (by omega)]
  rw [List.length_append, List.length_singleton] at ht
  rw [ht, cdrPutString, List.length_append, List.length_append, List.length_singleton]
  simp [TcState.after, Nat.add_assoc]

end

/-! ### References -/

theorem tcRecursive_of {s s' : TcState} {offset : Nat} (h : cdrGet 4 s = .ok offset s') :
    tcRecursive s =
      match s'.prior.find? fun node =>
        signed 4 offset == backOffset node.2 s'.currentIdx s'.cursor.cur with
      | some node => .ok node.1 s'
      | none => .crash := by
  unfold tcRecursive
  exact Reading.bind_ok h

theorem tcRecursive_of_fail {s s' : TcState} (h : cdrGet 4 s = .fail s') :
    tcRecursive s = .fail s' := by
  unfold tcRecursive
  exact Reading.bind_fail h

end ORBit2
