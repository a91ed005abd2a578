import ORBit2.Cdr

/-! When a reading function takes back what a list of send-buffer calls wrote. -/

set_option autoImplicit false

namespace ORBit2
open Words

/-- Wherever the calls `ops` were made and whatever surrounds them, `dec` started at
their first byte yields `a` and stops right behind them; when the value is not
`good` it reports an error instead. -/
def Agrees {α : Type} (sender : Endian) (ops : List SendOp) (dec : Dec α) (a : α)
    (good : Bool) : Prop :=
  ∀ (f : Frame) (b : PlainBuffer), f.sender = sender → (b.run sender ops).Within f.data →
    if good then dec (f.at b) = .ok (a, f.at (b.run sender ops))
    else ∃ e, dec (f.at b) = .error e

section
variable {α β : Type} {sender : Endian}

theorem Agrees.pure (a : α) : Agrees sender [] (pure a) a true := by
  intro f b _ _
  simp

theorem Agrees.bind {ops ops' : List SendOp} {x : Dec α} {k : α → Dec β} {a : α} {b : β}
    {good good' : Bool} (hx : Agrees sender ops x a good)
    (hk : good = true → Agrees sender ops' (k a) b good') :
    Agrees sender (ops ++ ops') (x >>= k) b (good && good') := by
  intro f p hs hw
  rw [PlainBuffer.run_append] at hw ⊢
  have hx := hx f p hs (hw.mono (PlainBuffer.grows_run _ _ _))
  cases good with
  | false =>
    obtain ⟨e, he⟩ := by simpa using hx
    exact ⟨e, Dec.bind_error he⟩
  | true =>
    have hk := hk rfl f (p.run sender ops) hs hw
    rw [Dec.bind_ok (by simpa using hx)]
    simpa using hk

theorem Agrees.map {ops : List SendOp} {x : Dec α} {a : α} {good : Bool} (g : α → β)
    (hx : Agrees sender ops x a good) :
    Agrees sender ops (do let a ← x; return g a) (g a) good := by
  have h : Agrees sender (ops ++ []) (x >>= fun a => Pure.pure (g a)) (g a) (good && true) :=
    hx.bind (fun _ => Agrees.pure (g a))
  simpa using h

/-- Only the bytes written matter, not how they were cut into calls. -/
theorem Agrees.congr {ops ops' : List SendOp} {dec : Dec α} {a : α} {good : Bool}
    (h : ∀ b : PlainBuffer, b.run sender ops = b.run sender ops')
    (ha : Agrees sender ops dec a good) : Agrees sender ops' dec a good := by
  intro f b hs hw
  rw [← h b] at hw ⊢
  exact ha f b hs hw

theorem agrees_alignedWord (sender : Endian) {w n : Nat} (hw : w ∣ 8) (hn : n < 256 ^ w) :
    Agrees sender [.appendAligned (sender.split w n)] (Dec.alignedWord w) n true := by
  intro f b hs hb
  subst hs
  exact f.alignedWord_at hw hn hb

theorem agrees_octets (sender : Endian) {n : Nat} (mem : List UInt8) (hn : mem.length = n) :
    Agrees sender [.append mem] (Dec.octets n) mem true := by
  intro f b _ hb
  subst hn
  exact f.octets_at hb

end

end ORBit2
