import ORBit2.Base.Words

/-! What a send buffer is for: a message is a header followed by a byte string
that grows at its end. Marshalling code only ever talks to it through the four
calls of `SendOp`. -/

set_option autoImplicit false

namespace ORBit2
open Words

structure PlainBuffer where
  headerSize : Nat
  body : List UInt8
  deriving DecidableEq, Repr

/-- The offset from the start of the header at which the next byte goes. -/
def PlainBuffer.pos (b : PlainBuffer) : Nat := b.headerSize + b.body.length

def PlainBuffer.append (b : PlainBuffer) (mem : List UInt8) : PlainBuffer :=
  { b with body := b.body ++ mem }

def PlainBuffer.align (b : PlainBuffer) (boundary : Nat) : PlainBuffer :=
  b.append (List.replicate (alignUp b.pos boundary - b.pos) 0)

def PlainBuffer.appendAligned (b : PlainBuffer) (mem : List UInt8) : PlainBuffer :=
  (b.align mem.length).append mem

/-- A CORBA string: its length with the terminator, its characters, the terminator. -/
def PlainBuffer.appendString (host : Endian) (b : PlainBuffer) (str : List UInt8) : PlainBuffer :=
  ((b.align 4).append (host.split 4 (str.length+1))).append (str ++ [0])

/-- One call on the send buffer. -/
inductive SendOp where
  | append (mem : List UInt8)
  | appendAligned (mem : List UInt8)
  | align (boundary : Nat)
  | appendString (str : List UInt8)
  deriving DecidableEq, Repr

def PlainBuffer.exec (host : Endian) (b : PlainBuffer) : SendOp → PlainBuffer
  | .append mem => b.append mem
  | .appendAligned mem => b.appendAligned mem
  | .align boundary => b.align boundary
  | .appendString str => b.appendString host str

def PlainBuffer.run (host : Endian) (b : PlainBuffer) (ops : List SendOp) : PlainBuffer :=
  ops.foldl (PlainBuffer.exec host) b

section
variable (host : Endian) (b : PlainBuffer)

@[simp] theorem PlainBuffer.run_nil : b.run host [] = b := rfl

@[simp] theorem PlainBuffer.run_cons (op : SendOp) (ops : List SendOp) :
    b.run host (op :: ops) = (b.exec host op).run host ops := rfl

@[simp] theorem PlainBuffer.run_append (ops ops' : List SendOp) :
    b.run host (ops ++ ops') = (b.run host ops).run host ops' := List.foldl_append

@[simp] theorem PlainBuffer.append_headerSize (mem : List UInt8) :
    (b.append mem).headerSize = b.headerSize := rfl

@[simp] theorem PlainBuffer.append_body (mem : List UInt8) :
    (b.append mem).body = b.body ++ mem := rfl

@[simp] theorem PlainBuffer.append_pos (mem : List UInt8) :
    (b.append mem).pos = b.pos + mem.length := by
  simp [PlainBuffer.pos, Nat.add_assoc]

@[simp] theorem PlainBuffer.align_headerSize (boundary : Nat) :
    (b.align boundary).headerSize = b.headerSize := rfl

theorem PlainBuffer.align_pos {boundary : Nat} (h : 0 < boundary) :
    (b.align boundary).pos = alignUp b.pos boundary := by
  have hl := le_alignUp b.pos h
  simp [PlainBuffer.align]; omega

theorem PlainBuffer.dvd_align_pos {boundary : Nat} (h : 0 < boundary) :
    boundary ∣ (b.align boundary).pos := by
  rw [b.align_pos h]
  exact dvd_alignUp _ _

theorem PlainBuffer.align_eq_self {boundary : Nat} (hb : 0 < boundary) (h : boundary ∣ b.pos) :
    b.align boundary = b := by
  simp [PlainBuffer.align, PlainBuffer.append, alignUp_eq_of_dvd hb h]

end

/-- `b'` is `b` with more bytes behind it. -/
def PlainBuffer.Grows (b b' : PlainBuffer) : Prop :=
  b'.headerSize = b.headerSize ∧ b.body <+: b'.body

theorem PlainBuffer.Grows.refl (b : PlainBuffer) : b.Grows b := ⟨rfl, List.prefix_rfl⟩

theorem PlainBuffer.Grows.trans {a b c : PlainBuffer} (h : a.Grows b) (h' : b.Grows c) :
    a.Grows c := ⟨h'.1.trans h.1, h.2.trans h'.2⟩

theorem PlainBuffer.grows_append (b : PlainBuffer) (mem : List UInt8) : b.Grows (b.append mem) :=
  ⟨rfl, List.prefix_append _ _⟩

theorem PlainBuffer.grows_align (b : PlainBuffer) (boundary : Nat) : b.Grows (b.align boundary) :=
  b.grows_append _

theorem PlainBuffer.grows_appendAligned (b : PlainBuffer) (mem : List UInt8) :
    b.Grows (b.appendAligned mem) := (b.grows_align _).trans (grows_append _ _)

theorem PlainBuffer.grows_exec (host : Endian) (b : PlainBuffer) (op : SendOp) :
    b.Grows (b.exec host op) := by
  cases op with
  | append mem => exact b.grows_append mem
  | appendAligned mem => exact b.grows_appendAligned mem
  | align boundary => exact b.grows_align boundary
  | appendString str => exact ((b.grows_align _).trans (grows_append _ _)).trans (grows_append _ _)

theorem PlainBuffer.grows_run (host : Endian) (b : PlainBuffer) (ops : List SendOp) :
    b.Grows (b.run host ops) := by
  induction ops generalizing b with
  | nil => exact Grows.refl b
  | cons op ops ih => exact (b.grows_exec host op).trans (ih _)

end ORBit2
