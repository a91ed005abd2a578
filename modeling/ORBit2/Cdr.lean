import ORBit2.PlainBuffer

/-! Reading a received block: the part of `GIOPRecvBuffer` that demarshalling
looks at, and the reading steps its functions are made of. -/

set_option autoImplicit false

namespace ORBit2
open Words

/-- Why a reading function did not return FALSE. -/
inductive Stop where
  /-- it returned TRUE -/
  | fail
  /-- it aborted the process, or did something C leaves undefined -/
  | undefined
  deriving DecidableEq, Repr

structure RecvCursor where
  /-- the address of `message_body` -/
  base : Nat
  /-- the bytes from `message_body` to `end` -/
  data : List UInt8
  /-- `cur - message_body` -/
  cur : Nat
  /-- the byte order of this host, and the one the header's flags announce -/
  host : Endian
  sender : Endian
  deriving DecidableEq, Repr

def Dec (α : Type) : Type := RecvCursor → Except Stop (α × RecvCursor)

instance : Monad Dec where
  pure a := fun c => .ok (a, c)
  bind x f := fun c =>
    match x c with
    | .error e => .error e
    | .ok (a, c') => f a c'

namespace Dec

@[simp] theorem pure_apply {α : Type} (a : α) (c : RecvCursor) :
    (pure a : Dec α) c = .ok (a, c) := rfl

theorem bind_apply {α β : Type} (x : Dec α) (f : α → Dec β) (c : RecvCursor) :
    (x >>= f) c = match x c with | .error e => .error e | .ok (a, c') => f a c' := rfl

@[simp] theorem pure_bind {α β : Type} (a : α) (f : α → Dec β) : (pure a >>= f) = f a := rfl

theorem bind_ok {α β : Type} {x : Dec α} {f : α → Dec β} {c c' : RecvCursor} {a : α}
    (h : x c = .ok (a, c')) : (x >>= f) c = f a c' := by
  rw [bind_apply, h]

theorem bind_error {α β : Type} {x : Dec α} {f : α → Dec β} {c : RecvCursor} {e : Stop}
    (h : x c = .error e) : (x >>= f) c = .error e := by
  rw [bind_apply, h]

theorem bind_assoc {α β γ : Type} (x : Dec α) (f : α → Dec β) (g : β → Dec γ) :
    (x >>= f) >>= g = x >>= fun a => f a >>= g := by
  funext c
  simp only [bind_apply]
  cases x c with
  | error e => rfl
  | ok r => rfl

/-- What a successful sequence did in its two parts. -/
theorem bind_eq_ok {α β : Type} {x : Dec α} {f : α → Dec β} {c c'' : RecvCursor} {b : β} :
    (x >>= f) c = .ok (b, c'') ↔ ∃ a c', x c = .ok (a, c') ∧ f a c' = .ok (b, c'') := by
  rw [bind_apply]
  cases hx : x c with
  | error e => simp
  | ok r =>
    obtain ⟨a, c'⟩ := r
    simp

@[simp] theorem map_apply {α β : Type} (x : Dec α) (f : α → β) (c : RecvCursor) :
    (f <$> x) c = (x >>= fun a => pure (f a)) c := rfl

def stop {α : Type} (e : Stop) : Dec α := fun _ => .error e

@[simp] theorem stop_apply {α : Type} (e : Stop) (c : RecvCursor) :
    (stop e : Dec α) c = .error e := rfl

/-- `buf->cur = ALIGN_ADDRESS (buf->cur, n)` -/
def align (n : Nat) : Dec Unit := fun c =>
  .ok ((), { c with cur := alignUp (c.base + c.cur) n - c.base })

/-- `if ((buf->cur + n) > buf->end) return TRUE`. The companion test
`(buf->cur + n) < buf->cur` cannot hold for a non-negative 32-bit `n` on a
64-bit host. -/
def need (n : Nat) : Dec Unit := fun c =>
  if c.data.length < c.cur + n then .error .fail else .ok ((), c)

/-- The word at `cur`, converted to this host's order when the sender's differs. -/
def peek (w : Nat) : Dec Nat := fun c =>
  if c.data.length < c.cur + w then .error .undefined
  else
    let n := c.host.join ((c.data.drop c.cur).take w)
    .ok (if c.sender = c.host then n else swapWord w n, c)

/-- `buf->cur += n` -/
def advance (n : Nat) : Dec Unit := fun c => .ok ((), { c with cur := c.cur + n })

/-- The `n` bytes at `cur`. -/
def peekBytes (n : Nat) : Dec (List UInt8) := fun c =>
  if c.data.length < c.cur + n then .error .undefined
  else .ok ((c.data.drop c.cur).take n, c)

/-- A word at its own alignment, the way every fixed-size kind is read. -/
def alignedWord (w : Nat) : Dec Nat := do
  align w
  need w
  let n ← peek w
  advance w
  return n

def octets (n : Nat) : Dec (List UInt8) := do
  need n
  let bs ← peekBytes n
  advance n
  return bs

end Dec

/-- `data` is some header of the right size, then the bytes of `b`, then more. -/
def PlainBuffer.Within (b : PlainBuffer) (data : List UInt8) : Prop :=
  ∃ pre post, pre.length = b.headerSize ∧ data = pre ++ b.body ++ post

theorem PlainBuffer.Within.mono {b b' : PlainBuffer} {data : List UInt8} (h : b'.Within data)
    (hg : b.Grows b') : b.Within data := by
  obtain ⟨pre, post, hl, rfl⟩ := h
  obtain ⟨hs, ext, hb⟩ := hg
  exact ⟨pre, ext ++ post, by omega, by simp [← hb, List.append_assoc]⟩

theorem PlainBuffer.Within.drop {b : PlainBuffer} {mem data : List UInt8}
    (h : (b.append mem).Within data) : ∃ post, data.drop b.pos = mem ++ post := by
  obtain ⟨pre, post, hl, rfl⟩ := h
  refine ⟨post, ?_⟩
  have hp : b.pos = (pre ++ b.body).length := by simp [PlainBuffer.pos, hl]
  simp [hp, List.append_assoc]

theorem PlainBuffer.Within.pos_le {b : PlainBuffer} {data : List UInt8} (h : b.Within data) :
    b.pos ≤ data.length := by
  obtain ⟨pre, post, hl, rfl⟩ := h
  simp [PlainBuffer.pos, hl]

/-- How a received block is set up: its base is 8-byte aligned. -/
structure Frame where
  base : Nat
  host : Endian
  sender : Endian
  data : List UInt8
  aligned : 8 ∣ base

/-- The reader standing where the writer `b` stands. -/
def Frame.at (f : Frame) (b : PlainBuffer) : RecvCursor :=
  ⟨f.base, f.data, b.pos, f.host, f.sender⟩

section
variable (f : Frame) {b : PlainBuffer}

@[simp] theorem Frame.at_data : (f.at b).data = f.data := rfl
@[simp] theorem Frame.at_cur : (f.at b).cur = b.pos := rfl
@[simp] theorem Frame.at_host : (f.at b).host = f.host := rfl
@[simp] theorem Frame.at_sender : (f.at b).sender = f.sender := rfl

theorem Frame.align_at {n : Nat} (h : n ∣ 8) : Dec.align n (f.at b) = .ok ((), f.at (b.align n)) := by
  have hn : 0 < n := Nat.pos_of_dvd_of_pos h (by omega)
  have ha : alignUp (f.base + b.pos) n = alignUp b.pos n + f.base := by
    rw [Nat.add_comm, alignUp_add_of_dvd hn (Nat.dvd_trans h f.aligned)]
  simp [Dec.align, Frame.at, ha, PlainBuffer.align_pos b hn]

theorem Frame.advance_at (mem : List UInt8) :
    Dec.advance mem.length (f.at b) = .ok ((), f.at (b.append mem)) := by
  simp [Dec.advance, Frame.at]

/-- Nothing that was written is refused for reaching past `end`. -/
theorem Frame.in_bounds {mem : List UInt8} (h : (b.append mem).Within f.data) :
    ¬ (f.at b).data.length < (f.at b).cur + mem.length := by
  have hp := h.pos_le
  simp at hp ⊢; omega

theorem Frame.need_at {mem : List UInt8} (h : (b.append mem).Within f.data) :
    Dec.need mem.length (f.at b) = .ok ((), f.at b) := by
  rw [Dec.need, if_neg (f.in_bounds h)]

theorem Frame.take_at {mem : List UInt8} (h : (b.append mem).Within f.data) :
    ((f.at b).data.drop (f.at b).cur).take mem.length = mem := by
  obtain ⟨post, hd⟩ := h.drop
  simp [hd]

theorem Frame.peekBytes_at {mem : List UInt8} (h : (b.append mem).Within f.data) :
    Dec.peekBytes mem.length (f.at b) = .ok (mem, f.at b) := by
  rw [Dec.peekBytes, if_neg (f.in_bounds h), f.take_at h]

theorem Frame.peek_at {w n : Nat} (hn : n < 256 ^ w)
    (h : (b.append (f.sender.split w n)).Within f.data) :
    Dec.peek w (f.at b) = .ok (n, f.at b) := by
  have hb := f.in_bounds h
  have ht := f.take_at h
  rw [Endian.split_length] at hb ht
  rw [Dec.peek, if_neg hb, ht]
  by_cases hs : f.sender = f.host
  · simp [hs, Endian.join_split f.host w n hn]
  · have hw := swapWord_join f.host (f.sender.split w n)
    rw [Endian.split_length, Endian.eq_flip_of_ne hs, Endian.flip_flip,
      Endian.join_split f.sender w n hn, ← Endian.eq_flip_of_ne hs] at hw
    simp [hs, hw]

/-- Every fixed-size kind is read back where it was appended. -/
theorem Frame.alignedWord_at {w n : Nat} (hw : w ∣ 8) (hn : n < 256 ^ w)
    (h : (b.appendAligned (f.sender.split w n)).Within f.data) :
    Dec.alignedWord w (f.at b) = .ok (n, f.at (b.appendAligned (f.sender.split w n))) := by
  have hlen : (f.sender.split w n).length = w := by simp
  simp only [PlainBuffer.appendAligned, hlen] at h ⊢
  have hneed := f.need_at h
  have hadv := f.advance_at (b := b.align w) (f.sender.split w n)
  rw [hlen] at hneed hadv
  rw [Dec.alignedWord, Dec.bind_ok (f.align_at hw), Dec.bind_ok hneed,
    Dec.bind_ok (f.peek_at hn h), Dec.bind_ok hadv, Dec.pure_apply]

theorem Frame.octets_at {mem : List UInt8} (h : (b.append mem).Within f.data) :
    Dec.octets mem.length (f.at b) = .ok (mem, f.at (b.append mem)) := by
  rw [Dec.octets, Dec.bind_ok (f.need_at h), Dec.bind_ok (f.peekBytes_at h),
    Dec.bind_ok (f.advance_at mem), Dec.pure_apply]

end

end ORBit2
