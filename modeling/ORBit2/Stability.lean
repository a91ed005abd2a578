import ORBit2.RecvBuffer

/-! A reading function that succeeded does the same when more bytes follow: what it
looked at lay inside what was there. -/

set_option autoImplicit false

namespace ORBit2
open Words

def RecvCursor.extend (c : RecvCursor) (more : List UInt8) : RecvCursor :=
  { c with data := c.data ++ more }

/-- Success does not depend on what follows. -/
def Dec.Stable {α : Type} (x : Dec α) : Prop :=
  ∀ (c : RecvCursor) (a : α) (c' : RecvCursor) (more : List UInt8),
    x c = .ok (a, c') → x (c.extend more) = .ok (a, c'.extend more)

namespace Dec

section
variable {α β : Type}

theorem Stable.pure (a : α) : Stable (Pure.pure a : Dec α) := by
  intro c b c' more h
  simp only [pure_apply, Except.ok.injEq, Prod.mk.injEq] at h
  obtain ⟨rfl, rfl⟩ := h
  rfl

theorem Stable.bind {x : Dec α} {f : α → Dec β} (hx : Stable x) (hf : ∀ a, Stable (f a)) :
    Stable (x >>= f) := by
  intro c b c' more h
  obtain ⟨a, c₁, h₁, h₂⟩ := bind_eq_ok.mp h
  exact (bind_ok (hx c a c₁ more h₁)).trans (hf a c₁ b c' more h₂)

theorem Stable.stop (e : Stop) : Stable (Dec.stop e : Dec α) := by
  intro c a c' more h
  cases h

theorem Stable.ite {p : Prop} [Decidable p] {x y : Dec α} (hx : Stable x) (hy : Stable y) :
    Stable (if p then x else y) := by
  by_cases hp : p
  · rwa [if_pos hp]
  · rwa [if_neg hp]

theorem stable_align (n : Nat) : Stable (align n) := by
  intro c a c' more h
  simp only [align, Except.ok.injEq, Prod.mk.injEq, true_and] at h
  subst h
  rfl

theorem stable_advance (n : Nat) : Stable (advance n) := by
  intro c a c' more h
  simp only [advance, Except.ok.injEq, Prod.mk.injEq, true_and] at h
  subst h
  rfl

theorem stable_tell : Stable tell := by
  intro c a c' more h
  simp only [tell, Except.ok.injEq, Prod.mk.injEq] at h
  obtain ⟨rfl, rfl⟩ := h
  rfl

theorem stable_defaultMarker : Stable defaultMarker := by
  intro c a c' more h
  simp only [defaultMarker, Except.ok.injEq, Prod.mk.injEq] at h
  obtain ⟨rfl, rfl⟩ := h
  rfl

/-- What lies inside the data lies inside longer data. -/
theorem not_lt_extend {c : RecvCursor} {n : Nat} (h : ¬ c.data.length < c.cur + n)
    (more : List UInt8) : ¬ (c.extend more).data.length < (c.extend more).cur + n := by
  simp only [RecvCursor.extend, List.length_append]
  omega

theorem take_extend {c : RecvCursor} {n : Nat} (h : ¬ c.data.length < c.cur + n)
    (more : List UInt8) :
    ((c.extend more).data.drop (c.extend more).cur).take n = (c.data.drop c.cur).take n := by
  simp only [RecvCursor.extend]
  rw [List.drop_append_of_le_length (by omega), List.take_append_of_le_length]
  rw [List.length_drop]
  omega

theorem stable_need (n : Nat) : Stable (need n) := by
  intro c a c' more h
  unfold need at h ⊢
  by_cases hn : c.data.length < c.cur + n
  · rw [if_pos hn] at h
    cases h
  · rw [if_neg hn] at h
    simp only [Except.ok.injEq, Prod.mk.injEq, true_and] at h
    rw [if_neg (not_lt_extend hn more), h]

theorem stable_needSigned (i : Int) : Stable (needSigned i) := by
  intro c a c' more h
  unfold needSigned at h ⊢
  by_cases hn : (c.data.length : Int) < c.cur + i ∨ (c.cur : Int) + i < c.cur
  · rw [if_pos hn] at h
    cases h
  · rw [if_neg hn] at h
    simp only [Except.ok.injEq, Prod.mk.injEq, true_and] at h
    have hext : ¬ (((c.extend more).data.length : Int) < (c.extend more).cur + i ∨
        ((c.extend more).cur : Int) + i < (c.extend more).cur) := by
      simp only [RecvCursor.extend, List.length_append]
      omega
    rw [if_neg hext, h]

theorem stable_peek (w : Nat) : Stable (peek w) := by
  intro c a c' more h
  unfold peek at h ⊢
  by_cases hn : c.data.length < c.cur + w
  · rw [if_pos hn] at h
    cases h
  · rw [if_neg hn] at h
    rw [if_neg (not_lt_extend hn more), take_extend hn more]
    simp only [Except.ok.injEq, Prod.mk.injEq] at h
    obtain ⟨rfl, rfl⟩ := h
    rfl

theorem stable_peekBytes (n : Nat) : Stable (peekBytes n) := by
  intro c a c' more h
  unfold peekBytes at h ⊢
  by_cases hn : c.data.length < c.cur + n
  · rw [if_pos hn] at h
    cases h
  · rw [if_neg hn] at h
    rw [if_neg (not_lt_extend hn more), take_extend hn more]
    simp only [Except.ok.injEq, Prod.mk.injEq] at h
    obtain ⟨rfl, rfl⟩ := h
    rfl

theorem stable_hostUnit : Stable hostUnit := by
  intro c a c' more h
  unfold hostUnit at h ⊢
  by_cases hn : c.data.length < c.cur + 2
  · rw [if_pos hn] at h
    cases h
  · rw [if_neg hn] at h
    rw [if_neg (not_lt_extend hn more), take_extend hn more]
    simp only [Except.ok.injEq, Prod.mk.injEq] at h
    obtain ⟨rfl, rfl⟩ := h
    rfl

/-- A C string that ends inside the data ends there in longer data. -/
theorem stable_cstring : Stable cstring := by
  intro c a c' more h
  unfold cstring at h ⊢
  by_cases hz : (c.data.drop c.cur).contains 0 = true
  · simp only [hz, if_true, Except.ok.injEq, Prod.mk.injEq] at h
    obtain ⟨rfl, rfl⟩ := h
    have hmem : (0 : UInt8) ∈ c.data.drop c.cur := by simpa using hz
    have hle : c.cur ≤ c.data.length := by
      by_contra hlt
      rw [List.drop_eq_nil_of_le (by omega)] at hmem
      cases hmem
    have hdrop : (c.extend more).data.drop (c.extend more).cur = c.data.drop c.cur ++ more := by
      simp only [RecvCursor.extend]
      exact List.drop_append_of_le_length hle
    have hcontains : (c.data.drop c.cur ++ more).contains 0 = true := by
      simp [hmem]
    have hlen : ((c.data.drop c.cur).takeWhile (· ≠ 0)).length ≠ (c.data.drop c.cur).length := by
      intro he
      have hall : ((c.data.drop c.cur).takeWhile (· ≠ 0)).all (· ≠ 0) = true :=
        List.all_takeWhile
      rw [(List.takeWhile_prefix _).eq_of_length he] at hall
      simpa using List.all_eq_true.mp hall 0 hmem
    rw [hdrop]
    simp only [hcontains, if_true]
    rw [List.takeWhile_append, if_neg hlen]
  · simp only [hz, Bool.false_eq_true, if_false] at h
    cases h

theorem units_append (host : Endian) (swap : Bool) {bytes : List UInt8} {k : Nat}
    (h : 2 * k ≤ bytes.length) (more : List UInt8) :
    units host swap (bytes ++ more) k = units host swap bytes k := by
  induction k generalizing bytes with
  | zero => rfl
  | succ k ih =>
    have htake : (bytes ++ more).take 2 = bytes.take 2 :=
      List.take_append_of_le_length (by omega)
    have hdrop : (bytes ++ more).drop 2 = bytes.drop 2 ++ more :=
      List.drop_append_of_le_length (by omega)
    have hle : 2 * k ≤ (bytes.drop 2).length := by
      rw [List.length_drop]
      omega
    have hrest := ih hle
    simp only [units, htake, hdrop, hrest]

theorem stable_wchars (swap : Bool) (n : Nat) : Stable (wchars swap n) := by
  intro c a c' more h
  unfold wchars at h ⊢
  by_cases hn : c.data.length < c.cur + n
  · rw [if_pos hn] at h
    cases h
  · rw [if_neg hn] at h
    rw [if_neg (not_lt_extend hn more)]
    have hunits : units c.host swap ((c.extend more).data.drop (c.extend more).cur) (n/2) =
        units c.host swap (c.data.drop c.cur) (n/2) := by
      simp only [RecvCursor.extend]
      rw [List.drop_append_of_le_length (by omega)]
      refine units_append _ _ ?_ _
      rw [List.length_drop]
      omega
    simp only [show (c.extend more).host = c.host from rfl, hunits] at h ⊢
    split at h
    · cases h
    · rename_i hodd
      simp only [Except.ok.injEq, Prod.mk.injEq] at h
      obtain ⟨rfl, rfl⟩ := h
      rw [if_neg hodd]

theorem stable_alignedWord (w : Nat) : Stable (alignedWord w) :=
  (stable_align w).bind fun _ => (stable_need w).bind fun _ => (stable_peek w).bind fun _ =>
    (stable_advance w).bind fun _ => .pure _

theorem stable_octets (n : Nat) : Stable (octets n) :=
  (stable_need n).bind fun _ => (stable_peekBytes n).bind fun _ =>
    (stable_advance n).bind fun _ => .pure _

theorem stable_signedLength : Stable signedLength :=
  (stable_alignedWord 4).bind fun _ => (stable_needSigned _).bind fun _ => .pure _

theorem stable_marker (i : Nat) : Stable (marker i) := by
  unfold marker
  have hrest : ∀ first : Nat, Stable (if first = 0xfeff ∨ first = 0xfffe then do
      advance 2
      return (first, i-2)
    else do
      let marker ← defaultMarker
      return (marker, i)) := by
    intro first
    refine .ite ?_ ?_
    · exact (stable_advance 2).bind fun _ => .pure _
    · exact stable_defaultMarker.bind fun _ => .pure _
  exact .ite (stable_hostUnit.bind hrest) ((Stable.pure 0).bind hrest)

theorem stable_word (w : Nat) : Stable (word w) :=
  (stable_peek w).bind fun _ => (stable_advance w).bind fun _ => .pure _

theorem stable_countedBytes : Stable countedBytes :=
  (stable_word 4).bind fun n => (stable_need n).bind fun _ => stable_tell.bind fun _ =>
    (stable_advance n).bind fun _ => .pure _

theorem stable_alignedBytes : Stable alignedBytes :=
  (stable_align 4).bind fun _ => (stable_need 4).bind fun _ => stable_countedBytes

end

end Dec

open Dec

theorem GrowBuffer.stable_grow (length : Nat) (b : GrowBuffer) : Stable (b.grow length) := by
  unfold GrowBuffer.grow
  exact .ite (.ite (.stop _) (.pure _)) (.pure _)

theorem GrowBuffer.stable_store (v : Value) (b : GrowBuffer) : Stable (b.store v) := by
  unfold GrowBuffer.store
  exact .ite (.pure _) (.stop _)

theorem stable_growLoop {element : Dec Value} (h : Stable element) (length k : Nat)
    (b : GrowBuffer) : Stable (growLoop element length k b) := by
  induction k generalizing b with
  | zero => exact .pure _
  | succ k ih =>
    exact (b.stable_grow length).bind fun b => h.bind fun v => (b.stable_store v).bind ih

theorem stable_arrayLoop {element : Dec Value} (h : Stable element) (k i : Nat) :
    Stable (arrayLoop element k i) := by
  induction k generalizing i with
  | zero => exact .pure _
  | succ k ih =>
    refine h.bind fun v => .ite ?_ (.stop _)
    exact (ih (i+1)).bind fun _ => .pure _

mutual

theorem stable_value : ∀ tc : TypeCode, Stable (demarshalValue tc)
  | .null => by
      unfold demarshalValue
      exact .pure _
  | .basic k => by
      unfold demarshalValue
      refine .ite ?_ ?_
      · exact (stable_need 1).bind fun _ => (stable_peek 1).bind fun _ =>
          (stable_advance 1).bind fun _ => .pure _
      · exact (stable_alignedWord k.size).bind fun _ => .pure _
  | .string => by
      unfold demarshalValue
      exact stable_signedLength.bind fun _ => stable_cstring.bind fun _ =>
        (stable_advance _).bind fun _ => .pure _
  | .wstring => by
      unfold demarshalValue
      exact stable_signedLength.bind fun _ => (stable_marker _).bind fun _ =>
        (stable_wchars _ _).bind fun _ => (stable_advance _).bind fun _ => .pure _
  | .struct tcs => by
      unfold demarshalValue
      exact (stable_members tcs).bind fun _ => .pure _
  | .except tcs => by
      unfold demarshalValue
      exact (stable_members tcs).bind fun _ => .pure _
  | .union d tcs labels dflt => by
      unfold demarshalValue
      refine (stable_value d).bind fun dv => ?_
      cases getUnionSwitch d dv with
      | none => exact .stop _
      | some x =>
        simp only
        cases getUnionTag labels dflt x with
        | none => exact .pure _
        | some i => exact (stable_arm tcs i).bind fun _ => .pure _
  | .sequence tc => by
      unfold demarshalValue
      refine (stable_alignedWord 4).bind fun length => .ite (.pure _) (.ite ?_ ?_)
      · exact (stable_octets length).bind fun _ => .pure _
      · exact (stable_growLoop (stable_value tc) _ _ _).bind fun _ => .pure _
  | .array tc n => by
      unfold demarshalValue
      exact (stable_arrayLoop (stable_value tc) n 0).bind fun _ => .pure _
  | .alias tc => by
      unfold demarshalValue
      exact stable_value tc

theorem stable_members : ∀ tcs : List TypeCode, Stable (demarshalMembers tcs)
  | [] => by
      unfold demarshalMembers
      exact .pure _
  | tc :: tcs => by
      unfold demarshalMembers
      exact (stable_value tc).bind fun _ => (stable_members tcs).bind fun _ => .pure _

theorem stable_arm : ∀ (tcs : List TypeCode) (i : Nat), Stable (demarshalArm tcs i)
  | [], _ => by
      unfold demarshalArm
      exact .stop _
  | tc :: _, 0 => by
      unfold demarshalArm
      exact stable_value tc
  | _ :: tcs, i+1 => by
      unfold demarshalArm
      exact stable_arm tcs i

end

theorem stable_targetAddress : Stable demarshalTargetAddress := by
  unfold demarshalTargetAddress
  refine (stable_align 2).bind fun _ => (stable_need 2).bind fun _ => (stable_word 2).bind fun d => ?_
  split
  · exact stable_alignedBytes.bind fun _ => .pure _
  · exact .stop _
  · exact .stop _
  · exact .pure _

/-- The header of a request is read the same, whatever lies behind it. -/
theorem stable_request12 : Stable demarshalRequest12 :=
  (stable_align 4).bind fun _ => (stable_need 8).bind fun _ => (stable_word 4).bind fun _ =>
    (stable_peek 1).bind fun _ => (stable_advance 4).bind fun _ =>
      stable_targetAddress.bind fun _ => stable_alignedBytes.bind fun _ =>
        (stable_value serviceContextList).bind fun _ => (stable_align 8).bind fun _ => .pure _

end ORBit2
