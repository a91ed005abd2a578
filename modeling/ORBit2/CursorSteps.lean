import ORBit2.RecvBuffer

/-! What the reading steps leave of a cursor: they move it, and no more. -/

set_option autoImplicit false

namespace ORBit2
open Words

/-- The word at `p`, as the sender means it. -/
def RecvCursor.wordAt (c : RecvCursor) (w p : Nat) : Nat :=
  let n := c.host.join ((c.data.drop p).take w)
  if c.sender = c.host then n else swapWord w n

namespace Dec
variable {α β : Type} {m : Dec α} {c c' : RecvCursor} {n w : Nat} {u : Unit}

theorem align_eq_ok : align n c = .ok (u, c') ↔
    c' = { c with cur := alignUp (c.base + c.cur) n - c.base } := by
  simp [align, eq_comm]

theorem need_eq_ok : need n c = .ok (u, c') ↔ c.cur + n ≤ c.data.length ∧ c' = c := by
  unfold need
  split
  · rename_i h
    simp only [reduceCtorEq, false_iff, not_and]
    omega
  · rename_i h
    simp only [Except.ok.injEq, Prod.mk.injEq, eq_comm, true_and]
    exact ⟨fun he => ⟨by omega, he⟩, fun he => he.2⟩

theorem peek_eq_ok : peek w c = .ok (n, c') ↔
    c.cur + w ≤ c.data.length ∧ n = c.wordAt w c.cur ∧ c' = c := by
  unfold peek RecvCursor.wordAt
  split
  · rename_i h
    simp only [reduceCtorEq, false_iff, not_and]
    omega
  · rename_i h
    simp only [Except.ok.injEq, Prod.mk.injEq, eq_comm]
    exact ⟨fun he => ⟨by omega, he⟩, fun he => he.2⟩

theorem advance_eq_ok : advance n c = .ok (u, c') ↔ c' = { c with cur := c.cur + n } := by
  simp [advance, eq_comm]

theorem word_eq_ok : word w c = .ok (n, c') ↔
    c.cur + w ≤ c.data.length ∧ n = c.wordAt w c.cur ∧ c' = { c with cur := c.cur + w } := by
  simp only [word, bind_eq_ok, peek_eq_ok, advance_eq_ok, pure_apply, Except.ok.injEq,
    Prod.mk.injEq]
  constructor
  · rintro ⟨k, _, ⟨hle, rfl, rfl⟩, -, _, rfl, rfl, rfl⟩
    exact ⟨hle, rfl, rfl⟩
  · rintro ⟨hle, rfl, rfl⟩
    exact ⟨_, _, ⟨hle, rfl, rfl⟩, (), _, rfl, rfl, rfl⟩

/-- A length word and so many bytes, and where they are. -/
theorem countedBytes_eq_ok {s : Span} : countedBytes c = .ok (s, c') ↔
    c.cur + 4 + c.wordAt 4 c.cur ≤ c.data.length ∧ s = ⟨c.cur + 4, c.wordAt 4 c.cur⟩ ∧
      c' = { c with cur := c.cur + 4 + c.wordAt 4 c.cur } := by
  simp only [countedBytes, tell, bind_eq_ok, word_eq_ok, need_eq_ok, advance_eq_ok, pure_apply,
    Except.ok.injEq, Prod.mk.injEq]
  constructor
  · rintro ⟨k, _, ⟨-, rfl, rfl⟩, -, _, ⟨hle, rfl⟩, _, _, ⟨rfl, rfl⟩, -, _, rfl, rfl, rfl⟩
    exact ⟨hle, rfl, rfl⟩
  · rintro ⟨hle, rfl, rfl⟩
    exact ⟨_, _, ⟨by omega, rfl, rfl⟩, (), _, ⟨hle, rfl⟩, _, _, ⟨rfl, rfl⟩, (), _, rfl, rfl, rfl⟩

theorem alignedBytes_eq_ok {s : Span} (hb : c.base = 0) : alignedBytes c = .ok (s, c') ↔
    alignUp c.cur 4 + 4 + c.wordAt 4 (alignUp c.cur 4) ≤ c.data.length ∧
      s = ⟨alignUp c.cur 4 + 4, c.wordAt 4 (alignUp c.cur 4)⟩ ∧
      c' = { c with cur := alignUp c.cur 4 + 4 + c.wordAt 4 (alignUp c.cur 4) } := by
  simp only [alignedBytes, bind_eq_ok, align_eq_ok, need_eq_ok, countedBytes_eq_ok, hb, Nat.zero_add,
    Nat.sub_zero]
  constructor
  · rintro ⟨-, _, rfl, -, _, ⟨-, rfl⟩, hle, rfl, rfl⟩
    exact ⟨hle, rfl, rfl⟩
  · rintro ⟨hle, rfl, rfl⟩
    have h4 : alignUp c.cur 4 + 4 ≤ c.data.length := by omega
    exact ⟨(), _, rfl, (), _, ⟨h4, rfl⟩, hle, rfl, rfl⟩

/-- Of the cursor only the position moves. -/
def Still (m : Dec α) : Prop := ∀ c a c', m c = .ok (a, c') → c' = { c with cur := c'.cur }

namespace Still

theorem pure (a : α) : Still (Pure.pure a : Dec α) := by
  intro c a' c' h
  simp only [pure_apply, Except.ok.injEq, Prod.mk.injEq] at h
  exact h.2 ▸ rfl

theorem stop (e : Stop) : Still (Dec.stop e : Dec α) := by
  intro c a c' h
  cases h

theorem bind {f : α → Dec β} (hm : Still m) (hf : ∀ a, Still (f a)) : Still (m >>= f) := by
  intro c b c'' h
  obtain ⟨a, c', hc, h⟩ := bind_eq_ok.mp h
  rw [hf a c' b c'' h, hm c a c' hc]

theorem align (n : Nat) : Still (Dec.align n) := by
  intro c a c' h
  rw [align_eq_ok.mp h]

theorem need (n : Nat) : Still (Dec.need n) := by
  intro c a c' h
  rw [(need_eq_ok.mp h).2]

theorem peek (w : Nat) : Still (Dec.peek w) := by
  intro c a c' h
  rw [(peek_eq_ok.mp h).2.2]

theorem advance (n : Nat) : Still (Dec.advance n) := by
  intro c a c' h
  rw [advance_eq_ok.mp h]

/-- A step that looks at the buffer and stays where it is. -/
theorem of_same (h : ∀ c a c', m c = .ok (a, c') → c' = c) : Still m := by
  intro c a c' hm
  rw [h c a c' hm]

theorem alignedWord (w : Nat) : Still (Dec.alignedWord w) :=
  (align w).bind fun _ => (need w).bind fun _ => (peek w).bind fun n => (advance w).bind fun _ =>
    pure n

theorem peekBytes (n : Nat) : Still (Dec.peekBytes n) := by
  refine of_same fun c a c' h => ?_
  unfold Dec.peekBytes at h
  split at h
  · cases h
  · cases h
    rfl

theorem octets (n : Nat) : Still (Dec.octets n) :=
  (need n).bind fun _ => (peekBytes n).bind fun bs => (advance n).bind fun _ => pure bs

theorem needSigned (i : Int) : Still (Dec.needSigned i) := by
  refine of_same fun c a c' h => ?_
  unfold Dec.needSigned at h
  split at h
  · cases h
  · cases h
    rfl

theorem signedLength : Still Dec.signedLength :=
  (alignedWord 4).bind fun n => (needSigned (signed 4 n)).bind fun _ => pure (signed 4 n)

theorem cstring : Still Dec.cstring := by
  refine of_same fun c a c' h => ?_
  unfold Dec.cstring at h
  simp only at h
  split at h
  · cases h
    rfl
  · cases h

theorem hostUnit : Still Dec.hostUnit := by
  refine of_same fun c a c' h => ?_
  unfold Dec.hostUnit at h
  split at h
  · cases h
  · cases h
    rfl

theorem marker (i : Nat) : Still (Dec.marker i) := by
  have hrest (first : Nat) : Still (if first = 0xfeff ∨ first = 0xfffe then do
      Dec.advance 2
      return (first, i - 2)
    else do
      let marker ← Dec.defaultMarker
      return (marker, i)) := by
    split
    · exact (advance 2).bind fun _ => pure _
    · refine Still.bind (of_same fun c a c' h => ?_) fun _ => pure _
      cases h
      rfl
  unfold Dec.marker
  split
  · exact hostUnit.bind hrest
  · exact (pure 0).bind hrest

theorem wchars (swap : Bool) (n : Nat) : Still (Dec.wchars swap n) := by
  refine of_same fun c a c' h => ?_
  unfold Dec.wchars at h
  simp only at h
  split at h
  · cases h
  · split at h
    · cases h
    · cases h
      rfl

end Still

theorem still_grow (length : Nat) (b : GrowBuffer) : Still (b.grow length) := by
  unfold GrowBuffer.grow
  simp only
  split
  · split
    · exact Still.stop _
    · exact Still.pure _
  · exact Still.pure _

theorem still_store (v : Value) (b : GrowBuffer) : Still (b.store v) := by
  unfold GrowBuffer.store
  split
  · exact Still.pure _
  · exact Still.stop _

theorem still_growLoop {element : Dec Value} (h : Still element) (length : Nat) (k : Nat)
    (b : GrowBuffer) : Still (growLoop element length k b) := by
  induction k generalizing b with
  | zero => exact Still.pure _
  | succ k ih =>
    exact (still_grow length b).bind fun b => h.bind fun v => (still_store v b).bind fun b => ih b

theorem still_arrayLoop {element : Dec Value} (h : Still element) (k i : Nat) :
    Still (arrayLoop element k i) := by
  induction k generalizing i with
  | zero => exact Still.pure _
  | succ k ih =>
    refine h.bind fun v => ?_
    split
    · exact (ih (i + 1)).bind fun vs => Still.pure _
    · exact Still.stop _

mutual

/-- `ORBit_demarshal_value` moves the cursor, and no more. -/
theorem still_demarshalValue : (tc : TypeCode) → Still (demarshalValue tc)
  | .null => Still.pure _
  | .basic k => by
    rw [demarshalValue]
    split
    · exact (Still.need 1).bind fun _ => (Still.peek 1).bind fun n => (Still.advance 1).bind fun _ =>
        Still.pure _
    · exact (Still.alignedWord _).bind fun n => Still.pure _
  | .string => by
    rw [demarshalValue]
    exact Still.signedLength.bind fun i => Still.cstring.bind fun s => (Still.advance _).bind fun _ =>
      Still.pure _
  | .wstring => by
    rw [demarshalValue]
    exact Still.signedLength.bind fun i => (Still.marker _).bind fun r => (Still.wchars _ _).bind
      fun s => (Still.advance _).bind fun _ => Still.pure _
  | .struct tcs => by
    rw [demarshalValue]
    exact (still_demarshalMembers tcs).bind fun vs => Still.pure _
  | .except tcs => by
    rw [demarshalValue]
    exact (still_demarshalMembers tcs).bind fun vs => Still.pure _
  | .union d tcs labels dflt => by
    rw [demarshalValue]
    refine (still_demarshalValue d).bind fun dv => ?_
    split
    · exact Still.stop _
    · split
      · exact Still.pure _
      · exact (still_demarshalArm tcs _).bind fun v => Still.pure _
  | .sequence tc => by
    rw [demarshalValue]
    refine (Still.alignedWord 4).bind fun length => ?_
    split
    · exact Still.pure _
    · split
      · exact (Still.octets _).bind fun bs => Still.pure _
      · exact (still_growLoop (still_demarshalValue tc) _ _ _).bind fun vs => Still.pure _
  | .array tc n => by
    rw [demarshalValue]
    exact (still_arrayLoop (still_demarshalValue tc) n 0).bind fun vs => Still.pure _
  | .alias tc => by
    rw [demarshalValue]
    exact still_demarshalValue tc

theorem still_demarshalMembers : (tcs : List TypeCode) → Still (demarshalMembers tcs)
  | [] => Still.pure _
  | tc :: tcs => by
    rw [demarshalMembers]
    exact (still_demarshalValue tc).bind fun v => (still_demarshalMembers tcs).bind fun vs =>
      Still.pure _

theorem still_demarshalArm : (tcs : List TypeCode) → (i : Nat) → Still (demarshalArm tcs i)
  | [], _ => by
    rw [demarshalArm]
    exact Still.stop _
  | tc :: _, 0 => by
    rw [demarshalArm]
    exact still_demarshalValue tc
  | _ :: tcs, i + 1 => by
    rw [demarshalArm]
    exact still_demarshalArm tcs i

end

end Dec

end ORBit2
