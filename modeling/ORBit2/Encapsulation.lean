import ORBit2.Cdr

/-! Encapsulations: a length that is filled in afterwards, a byte that tells the byte order, and
what was written behind it. A writer is the bytes it appends, by the offset where it begins; a
reader reads a writer if it gets back what was written and comes to the end of it. -/

set_option autoImplicit false

namespace ORBit2
open Words

/-! ### Writers -/

def Put : Type := (pos : Nat) → List UInt8

/-- `GIOP_FLAG_ENDIANNESS` of a host. -/
def flagByte : Endian → UInt8
  | .big => 0
  | .little => 1

namespace Put

def nothing : Put := fun _ => []

/-- `giop_send_buffer_append`. -/
def append (mem : List UInt8) : Put := fun _ => mem

/-- `giop_send_buffer_align`. -/
def align (boundary : Nat) : Put := fun pos => List.replicate (alignUp pos boundary - pos) 0

def seq (w w' : Put) : Put := fun pos => w pos ++ w' (pos + (w pos).length)

/-- A number, appended at its own alignment. -/
def word (host : Endian) (size n : Nat) : Put := (align size).seq (append (host.split size n))

/-- `giop_send_buffer_append_string`. -/
def string (host : Endian) (str : List UInt8) : Put :=
  (word host 4 (str.length+1)).seq (append (str ++ [0]))

/-- What is written behind a marker, which then gets its length. -/
def counted (host : Endian) (w : Put) : Put := fun pos =>
  let start := alignUp pos 4 + 4
  align 4 pos ++ host.split 4 (w start).length ++ w start

/-- An encapsulation. -/
def encaps (host : Endian) (w : Put) : Put := counted host ((append [flagByte host]).seq w)

/-- An encapsulation in another order than what is around it. -/
def encapsIn (outer inner : Endian) (w : Put) : Put :=
  counted outer ((append [flagByte inner]).seq w)

/-- One writer after the other. -/
def all : List Put → Put
  | [] => nothing
  | w :: ws => w.seq (all ws)

theorem seq_assoc (w w' w'' : Put) : (w.seq w').seq w'' = w.seq (w'.seq w'') := by
  funext pos
  simp only [seq, List.append_assoc, List.length_append, Nat.add_assoc]

theorem append_append (mem mem' : List UInt8) :
    append (mem ++ mem') = (append mem).seq (append mem') := rfl

@[simp] theorem seq_nothing (w : Put) : w.seq .nothing = w := by
  funext pos
  simp [seq, nothing]

/-- Behind a word there is nothing to align to it. -/
theorem word_seq_align (host : Endian) (n : Nat) (w : Put) :
    (word host 4 n).seq ((align 4).seq w) = (word host 4 n).seq w := by
  funext pos
  have hpos : pos + (word host 4 n pos).length = alignUp pos 4 + 4 := by
    have hle := @le_alignUp pos 4 (by omega)
    simp only [word, seq, align, append, List.length_append, List.length_replicate,
      Endian.split_length]
    omega
  have hdvd : 4 ∣ alignUp pos 4 + 4 := (Nat.dvd_add_right (dvd_alignUp pos 4)).2 (Nat.dvd_refl 4)
  have halign : align 4 (alignUp pos 4 + 4) = [] := by
    rw [align, alignUp_eq_of_dvd (by omega) hdvd, Nat.sub_self, List.replicate_zero]
  rw [seq, seq, seq, hpos, halign]
  rfl

theorem word_seq_word (host : Endian) (n k : Nat) (w : Put) :
    (word host 4 n).seq ((word host 4 k).seq w) =
      (word host 4 n).seq ((append (host.split 4 k)).seq w) := by
  have hassoc : (word host 4 k).seq w = (align 4).seq ((append (host.split 4 k)).seq w) :=
    seq_assoc _ _ _
  rw [hassoc, word_seq_align]

theorem all_append {α : Type} (f : α → List UInt8) :
    (xs : List α) → all (xs.map fun x => append (f x)) = append (xs.flatMap f)
  | [] => rfl
  | x :: xs => by
    rw [List.map_cons, all, all_append f xs, List.flatMap_cons]
    rfl

/-- Writers that write something at all. -/
theorem le_length_all {ws : List Put} (h : ∀ w ∈ ws, ∀ pos, 0 < (w pos).length) (pos : Nat) :
    ws.length ≤ (all ws pos).length := by
  induction ws generalizing pos with
  | nil => exact Nat.zero_le _
  | cons w ws ih =>
    have hw := h w List.mem_cons_self pos
    have hws := ih (fun w hw => h w (List.mem_cons_of_mem _ hw)) (pos + (w pos).length)
    rw [all, seq, List.length_append, List.length_cons]
    omega

end Put

def PlainBuffer.put (b : PlainBuffer) (w : Put) : PlainBuffer := b.append (w b.pos)

namespace PlainBuffer

@[simp] theorem put_headerSize (b : PlainBuffer) (w : Put) : (b.put w).headerSize = b.headerSize := rfl

@[simp] theorem put_pos (b : PlainBuffer) (w : Put) : (b.put w).pos = b.pos + (w b.pos).length := by
  simp [put, append, pos, Nat.add_assoc]

theorem put_seq (b : PlainBuffer) (w w' : Put) : b.put (w.seq w') = (b.put w).put w' := by
  have hpos := put_pos b w
  rw [put, put, hpos, put, append, append, append, Put.seq, List.append_assoc]

theorem grows_put (b : PlainBuffer) (w : Put) : b.Grows (b.put w) := b.grows_append _

@[simp] theorem put_nothing (b : PlainBuffer) : b.put .nothing = b := by
  simp [put, append, Put.nothing]

@[simp] theorem put_append (b : PlainBuffer) (mem : List UInt8) : b.put (.append mem) = b.append mem := rfl

@[simp] theorem put_align (b : PlainBuffer) (boundary : Nat) : b.put (.align boundary) = b.align boundary := rfl

theorem put_word (b : PlainBuffer) (host : Endian) (size n : Nat) :
    b.put (.word host size n) = (b.align size).append (host.split size n) := by
  rw [Put.word, put_seq]
  rfl

theorem put_word_pos (b : PlainBuffer) (host : Endian) (n : Nat) :
    (b.put (.word host 4 n)).pos = alignUp b.pos 4 + 4 := by
  rw [put_word, append_pos, align_pos b (by omega), Endian.split_length]

/-- An encapsulation in the order in which it is read. -/
theorem put_encapsIn (b : PlainBuffer) (outer inner : Endian) (w : Put) :
    ∃ len, b.put (.encapsIn outer inner w) =
        ((b.put (.word outer 4 len)).append [flagByte inner]).put w ∧
      (b.put (.encapsIn outer inner w)).pos = (b.put (.word outer 4 len)).pos + len := by
  let start := alignUp b.pos 4 + 4
  have hsplit : b.put (.encapsIn outer inner w) =
      ((b.put (.word outer 4 ((w (start + 1)).length + 1))).append [flagByte inner]).put w := by
    rw [put, put, append_pos, put_word_pos, put_word, List.length_singleton, append, append, append,
      append, align, append, Put.encapsIn, Put.counted]
    simp only [Put.seq, Put.append, Put.align, List.length_append, List.length_singleton,
      List.append_assoc]
    rw [Nat.add_comm 1]
  refine ⟨_, hsplit, ?_⟩
  rw [hsplit, put_pos, append_pos, put_word_pos, List.length_singleton, Nat.add_assoc,
    Nat.add_comm 1]

/-- What has been written lies before the place where the writer stands. -/
theorem Within.take {b : PlainBuffer} {data : List UInt8} (h : b.Within data) :
    b.Within (data.take b.pos) := by
  obtain ⟨before, behind, hl, rfl⟩ := h
  refine ⟨before, [], hl, ?_⟩
  have hpos : b.pos = (before ++ b.body).length := by rw [List.length_append, hl, pos]
  rw [hpos, List.take_left, List.append_nil]

end PlainBuffer

/-! ### Readers -/

namespace Dec

/-- The bytes behind `cur`, copied to new memory; no bytes are copied to NULL. -/
def memdup (n : Nat) : Dec (Option (List UInt8)) := do
  let bytes ← octets n
  return if n = 0 then none else some bytes

/-- The length of a string, and its bytes. -/
def stringBlock : Dec (Option (List UInt8)) := do
  let len ← alignedWord 4
  memdup len

/-- The same call for each element of a sequence. -/
def times {α : Type} (m : Dec α) : Nat → Dec (List α)
  | 0 => return []
  | n+1 => do
      let a ← m
      let as ← times m n
      return a :: as

end Dec

/-- `giop_recv_buffer_use_encaps`: the buffer for an encapsulation of `len` bytes. `inside` tells
whether it is asked for the byte order, or still the one around it. From an empty encapsulation
the flags are read behind its end, and nothing else. -/
def RecvCursor.encaps (inside : Bool) (len : Nat) (c : RecvCursor) : RecvCursor :=
  { c with
    data := c.data.take (c.cur + len)
    cur := c.cur + 1
    sender :=
      if inside then (if (c.data.drop c.cur).headD 0 &&& 1 = 1 then .little else .big)
      else c.sender }

namespace Dec

/-- What is done with the buffer for an encapsulation. -/
def within {α : Type} (inside : Bool) (len : Nat) (m : Dec α) : Dec α := fun c =>
  match m (c.encaps inside len) with
  | .error e => .error e
  | .ok (a, _) => .ok (a, { c with cur := c.cur + len })

/-- `giop_recv_buffer_use_encaps_buf`, and what is done with the buffer it returns. -/
def encaps {α : Type} (inside : Bool) (m : Dec α) : Dec α := do
  let len ← alignedWord 4
  need len
  within inside len m

end Dec

/-! ### What is written is read -/

/-- A host of any byte order reads with `m` what a host of the order `e` has written with `w`,
wherever it stands in a message of less than 4 GiB. -/
def ReadsBack {α : Type} (e : Endian) (w : Put) (m : Dec α) (a : α) : Prop :=
  ∀ (f : Frame) (b : PlainBuffer), f.sender = e → (b.put w).Within f.data →
    (b.put w).pos < 2^32 → m (f.at b) = .ok (a, f.at (b.put w))

/-- The same, but what has been written may go on behind what is read. -/
def ReadsWithin {α : Type} (e : Endian) (w : Put) (m : Dec α) (a : α) : Prop :=
  ∀ (f : Frame) (b : PlainBuffer), f.sender = e → (b.put w).Within f.data →
    (b.put w).pos < 2^32 → ∃ c, m (f.at b) = .ok (a, c)

namespace ReadsBack
variable {α β : Type} {e : Endian} {w w' : Put} {m : Dec α} {a : α}

theorem within (h : ReadsBack e w m a) : ReadsWithin e w m a := by
  intro f b hs hw hlt
  exact ⟨_, h f b hs hw hlt⟩

theorem pure (a : α) : ReadsBack e .nothing (Pure.pure a) a := by
  intro f b _ _ _
  rw [PlainBuffer.put_nothing, Dec.pure_apply]

theorem bind {k : α → Dec β} {r : β} (h : ReadsBack e w m a) (h' : ReadsBack e w' (k a) r) :
    ReadsBack e (w.seq w') (m >>= k) r := by
  intro f b hs hw hlt
  rw [PlainBuffer.put_seq] at hw hlt ⊢
  have hgrows := (b.put w).grows_put w'
  have hle : (b.put w).pos ≤ ((b.put w).put w').pos := by
    rw [PlainBuffer.put_pos (b.put w)]
    exact Nat.le_add_right _ _
  rw [Dec.bind_ok (h f b hs (hw.mono hgrows) (by omega))]
  exact h' f (b.put w) hs hw hlt

theorem bindWithin {k : α → Dec β} {r : β} (h : ReadsBack e w m a) (h' : ReadsWithin e w' (k a) r) :
    ReadsWithin e (w.seq w') (m >>= k) r := by
  intro f b hs hw hlt
  rw [PlainBuffer.put_seq] at hw hlt
  have hgrows := (b.put w).grows_put w'
  have hle : (b.put w).pos ≤ ((b.put w).put w').pos := by
    rw [PlainBuffer.put_pos (b.put w)]
    exact Nat.le_add_right _ _
  rw [Dec.bind_ok (h f b hs (hw.mono hgrows) (by omega))]
  exact h' f (b.put w) hs hw hlt

theorem map (g : α → β) (h : ReadsBack e w m a) :
    ReadsBack e w (do let a ← m; return g a) (g a) := by
  intro f b hs hw hlt
  rw [Dec.bind_ok (h f b hs hw hlt), Dec.pure_apply]

/-- A reader that writes nothing of its own behind it. -/
theorem congr {m' : Dec α} (h : ReadsBack e w m a) (hm : m' = m) : ReadsBack e w m' a := hm ▸ h

theorem align {n : Nat} (hn : n ∣ 8) : ReadsBack e (.align n) (Dec.align n) () := by
  intro f b _ _ _
  exact f.align_at hn

theorem word {size n : Nat} (hsize : size ∣ 8) (hn : n < 256 ^ size) :
    ReadsBack e (.word e size n) (Dec.alignedWord size) n := by
  intro f b hs hw _
  rw [PlainBuffer.put_word, ← hs] at hw
  have hread := f.alignedWord_at (b := b) hsize hn
  simp only [PlainBuffer.appendAligned, Endian.split_length] at hread
  rw [PlainBuffer.put_word, ← hs]
  exact hread hw

theorem octets (mem : List UInt8) : ReadsBack e (.append mem) (Dec.octets mem.length) mem := by
  intro f b _ hw _
  exact f.octets_at hw

/-- A test whether there are more bytes is passed. -/
theorem need {n : Nat} (hn : ∀ pos, n ≤ (w pos).length) (h : ReadsBack e w m a) :
    ReadsBack e w (do Dec.need n; m) a := by
  intro f b hs hw hlt
  have hin := f.in_bounds hw
  have hneed : Dec.need n (f.at b) = .ok ((), f.at b) := by
    rw [Dec.need, if_neg]
    have hlen := hn b.pos
    omega
  rw [Dec.bind_ok hneed]
  exact h f b hs hw hlt

/-- The length of what is written is less than that of the message. -/
theorem bounded {n : Nat} (hn : ∀ pos, n ≤ (w pos).length) (h : n < 2^32 → ReadsBack e w m a) :
    ReadsBack e w m a := by
  intro f b hs hw hlt
  have hlen := hn b.pos
  have hpos := PlainBuffer.put_pos b w
  exact h (by omega) f b hs hw hlt

theorem all {γ : Type} {write : γ → Put} {back : γ → α} :
    (xs : List γ) → (∀ x ∈ xs, ReadsBack e (write x) m (back x)) →
    ReadsBack e (.all (xs.map write)) (m.times xs.length) (xs.map back)
  | [], _ => pure []
  | x :: xs, h =>
      bind (h x List.mem_cons_self)
        (map (back x :: ·) (all xs fun y hy => h y (List.mem_cons_of_mem x hy)))

theorem memdup (mem : List UInt8) (h : mem ≠ []) :
    ReadsBack e (.append mem) (Dec.memdup mem.length) (some mem) := by
  have hne : mem.length ≠ 0 := fun h0 => h (List.length_eq_zero_iff.1 h0)
  refine congr (map some (octets mem)) ?_
  simp only [Dec.memdup, if_neg hne]

theorem string (str : List UInt8) :
    ReadsBack e (.string e str) Dec.stringBlock (some (str ++ [0])) := by
  have hlen : (str ++ [0]).length = str.length + 1 := List.length_append
  refine bounded (n := str.length + 1) ?_ fun hlt => bind (word (by decide) (by omega)) ?_
  · intro pos
    simp only [Put.string, Put.seq, Put.append, List.length_append, List.length_singleton]
    omega
  · rw [← hlen]
    exact memdup _ (by simp)

end ReadsBack

/-- What a reader makes of what has been written: a value, behind all of it, or nothing. -/
def Arrives {α : Type} (e : Endian) (w : Put) (m : Dec α) (r : Option α) : Prop :=
  ∀ (f : Frame) (b : PlainBuffer), f.sender = e → (b.put w).Within f.data →
    (b.put w).pos < 2^32 →
      match r with
      | some a => m (f.at b) = .ok (a, f.at (b.put w))
      | none => m (f.at b) = .error .fail

/-- The same of what ends the buffer, wherever the reader stops in it. -/
def EndsIn {α : Type} (e : Endian) (w : Put) (m : Dec α) (r : Option α) : Prop :=
  ∀ (f : Frame) (b : PlainBuffer), f.sender = e → (b.put w).Within f.data →
    f.data.length = (b.put w).pos → (b.put w).pos < 2^32 →
      match r with
      | some a => ∃ c, m (f.at b) = .ok (a, c)
      | none => m (f.at b) = .error .fail

theorem ReadsWithin.endsIn {α : Type} {e : Endian} {w : Put} {m : Dec α} {a : α}
    (h : ReadsWithin e w m a) : EndsIn e w m (some a) :=
  fun f b hs hw _ hlt => h f b hs hw hlt

namespace Arrives
variable {α β : Type} {e : Endian} {w w' : Put} {m : Dec α} {r : Option α}

theorem endsIn (h : Arrives e w m r) : EndsIn e w m r := by
  intro f b hs hw _ hlt
  have h := h f b hs hw hlt
  cases r with
  | none => exact h
  | some a => exact ⟨_, h⟩

/-- A sequence comes to nothing where its first part that does so does. -/
theorem bind {k : α → Dec β} {q : α → Option β} (h : Arrives e w m r)
    (h' : ∀ a, r = some a → Arrives e w' (k a) (q a)) :
    Arrives e (w.seq w') (m >>= k) (r.bind q) := by
  intro f b hs hw hlt
  rw [PlainBuffer.put_seq] at hw hlt ⊢
  have hgrows := (b.put w).grows_put w'
  have hle : (b.put w).pos ≤ ((b.put w).put w').pos := by
    rw [PlainBuffer.put_pos (b.put w)]
    exact Nat.le_add_right _ _
  have h := h f b hs (hw.mono hgrows) (by omega)
  cases r with
  | none => exact Dec.bind_error h
  | some a =>
    simp only [Option.bind_some]
    rw [Dec.bind_ok h]
    exact h' a rfl f (b.put w) hs hw hlt

theorem map (g : α → β) (h : Arrives e w m r) :
    Arrives e w (do let a ← m; return g a) (r.map g) := by
  intro f b hs hw hlt
  have h := h f b hs hw hlt
  cases r with
  | none => exact Dec.bind_error h
  | some a =>
    simp only [Option.map_some]
    rw [Dec.bind_ok h, Dec.pure_apply]

theorem all {γ : Type} {write : γ → Put} {back : γ → Option α} (xs : List γ)
    (h : ∀ x ∈ xs, Arrives e (write x) m (back x)) :
    Arrives e (.all (xs.map write)) (m.times xs.length) (xs.mapM back) := by
  induction xs with
  | nil => exact ReadsBack.pure []
  | cons x xs ih =>
    rw [List.mapM_cons]
    refine bind (h x List.mem_cons_self) fun a _ => ?_
    have hrest := map (a :: ·) (ih fun y hy => h y (List.mem_cons_of_mem x hy))
    have hcons : (xs.mapM back).map (a :: ·) = (do let as ← xs.mapM back; pure (a :: as)) := by
      cases xs.mapM back <;> rfl
    rw [hcons] at hrest
    exact hrest

/-- The length of what is written is less than that of the message. -/
theorem bounded {n : Nat} (hn : ∀ pos, n ≤ (w pos).length) (h : n < 2^32 → Arrives e w m r) :
    Arrives e w m r := by
  intro f b hs hw hlt
  have hlen := hn b.pos
  have hpos := PlainBuffer.put_pos b w
  exact h (by omega) f b hs hw hlt

end Arrives

theorem ReadsBack.bindEndsIn {α β : Type} {e : Endian} {w w' : Put} {m : Dec α} {a : α}
    {k : α → Dec β} {r : Option β} (h : ReadsBack e w m a) (h' : EndsIn e w' (k a) r) :
    EndsIn e (w.seq w') (m >>= k) r := by
  intro f b hs hw hend hlt
  rw [PlainBuffer.put_seq] at hw hend hlt
  have hgrows := (b.put w).grows_put w'
  have hle : (b.put w).pos ≤ ((b.put w).put w').pos := by
    rw [PlainBuffer.put_pos (b.put w)]
    exact Nat.le_add_right _ _
  rw [Dec.bind_ok (h f b hs (hw.mono hgrows) (by omega))]
  exact h' f (b.put w) hs hw hend hlt

/-- An encapsulation, whichever of the two buffers is asked for the byte order. -/
theorem EndsIn.encapsIn {α : Type} {outer inner : Endian} {w : Put} {m : Dec α} {r : Option α}
    (inside : Bool) (h : EndsIn (if inside then inner else outer) w m r) :
    Arrives outer (.encapsIn outer inner w) (Dec.encaps inside m) r := by
  intro f b hs hw hlt
  obtain ⟨len, hput, hpos⟩ := b.put_encapsIn outer inner w
  have hlen : len < 2^32 := by omega
  have hword : (b.put (.word outer 4 len)).Within f.data := by
    rw [hput] at hw
    exact hw.mono (((b.put (.word outer 4 len)).grows_append _).trans (PlainBuffer.grows_put _ w))
  have hend := hw.pos_le
  have hflag : ((b.put (.word outer 4 len)).append [flagByte inner]).Within f.data := by
    rw [hput] at hw
    exact hw.mono (PlainBuffer.grows_put _ w)
  have hneed : Dec.need len (f.at (b.put (.word outer 4 len))) =
      .ok ((), f.at (b.put (.word outer 4 len))) := by
    rw [Dec.need, if_neg]
    simp only [Frame.at_data, Frame.at_cur]
    omega
  -- the buffer that the encapsulation is read from
  obtain ⟨behind, hdrop⟩ := hflag.drop
  let sub : Frame := ⟨f.base, f.host, if inside then inner else outer,
    f.data.take (b.put (.encapsIn outer inner w)).pos, f.aligned⟩
  have hsub := h sub ((b.put (.word outer 4 len)).append [flagByte inner]) rfl
  rw [← hput] at hsub
  have hsub := hsub hw.take (List.length_take_of_le hend) hlt
  have hcursor : (f.at (b.put (.word outer 4 len))).encaps inside len =
      sub.at ((b.put (.word outer 4 len)).append [flagByte inner]) := by
    have hend' : (f.at (b.put (.word outer 4 len))).cur + len =
        (b.put (.encapsIn outer inner w)).pos := hpos.symm
    have horder : (f.at (b.put (.word outer 4 len))).sender = outer := hs
    have hflags : (if inside then (if ([flagByte inner] ++ behind).headD 0 &&& 1 = 1 then
        Endian.little else .big) else outer) = if inside then inner else outer := by
      cases inner <;> cases inside <;> simp [flagByte]
    rw [RecvCursor.encaps, hend', horder, Frame.at_data, Frame.at_cur, hdrop, hflags]
    simp only [Frame.at, PlainBuffer.append_pos, List.length_singleton, sub]
  rw [Dec.encaps, Dec.bind_ok (ReadsBack.word (by decide) hlen f b hs hword (by omega)),
    Dec.bind_ok hneed]
  cases r with
  | none =>
    simp only at hsub ⊢
    rw [Dec.within, hcursor, hsub]
  | some a =>
    obtain ⟨c, hsub⟩ := hsub
    simp only
    rw [Dec.within, hcursor, hsub]
    simp only [Frame.at, hpos]

theorem ReadsBack.encaps {α : Type} {e : Endian} {w : Put} {m : Dec α} {a : α} (inside : Bool)
    (h : ReadsWithin e w m a) : ReadsBack e (.encaps e w) (Dec.encaps inside m) a := by
  have hself : (if inside then e else e) = e := ite_self e
  rw [← hself] at h
  exact EndsIn.encapsIn inside h.endsIn

end ORBit2
