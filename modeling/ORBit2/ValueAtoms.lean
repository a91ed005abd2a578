import ORBit2.Agreement
import ORBit2.TypeCode

/-! The TypeCodes without parts: what `ORBit_marshal_value` appends for a word, a
string or a wstring is what `ORBit_demarshal_value` takes back. -/

set_option autoImplicit false

namespace ORBit2
open Words

theorem signed_of_lt {w n : Nat} (h : n < 256 ^ w / 2) : signed w n = n := by
  simp [signed, h]

theorem signed_neg {w n : Nat} (hn : n < 256 ^ w) (h : 256 ^ w / 2 ≤ n) : signed w n < 0 := by
  rw [signed, if_neg (by omega)]; omega

section
variable {f : Frame} {b : PlainBuffer}

theorem Frame.signedLength_at {n : Nat} (hn : n < 2^31)
    (hw : (b.appendAligned (f.sender.split 4 n)).Within f.data)
    (hb : (b.appendAligned (f.sender.split 4 n)).pos + n ≤ f.data.length) :
    Dec.signedLength (f.at b) = .ok ((n : Int), f.at (b.appendAligned (f.sender.split 4 n))) := by
  have hs : signed 4 n = n := signed_of_lt (by simpa using hn)
  have hneed : Dec.needSigned n (f.at (b.appendAligned (f.sender.split 4 n))) =
      .ok ((), f.at (b.appendAligned (f.sender.split 4 n))) := by
    rw [Dec.needSigned, if_neg (by simp; omega)]
  rw [Dec.signedLength, Dec.bind_ok (f.alignedWord_at (by decide) (by omega) hw)]
  simp only [hs]
  rw [Dec.bind_ok hneed, Dec.pure_apply]

/-- A length word with its top bit set is refused, however many bytes follow. -/
theorem Frame.signedLength_refuses {n : Nat} (hn : n < 2^32) (h : 2^31 ≤ n)
    (hw : (b.appendAligned (f.sender.split 4 n)).Within f.data) :
    Dec.signedLength (f.at b) = .error .fail := by
  have hs : signed 4 n < 0 := signed_neg (by simpa using hn) (by simpa using h)
  have hneed : Dec.needSigned (signed 4 n) (f.at (b.appendAligned (f.sender.split 4 n))) =
      .error .fail := by
    rw [Dec.needSigned, if_pos (by simp; omega)]
  rw [Dec.signedLength, Dec.bind_ok (f.alignedWord_at (by decide) (by omega) hw),
    Dec.bind_error hneed]

theorem Frame.cstring_at {s : List UInt8} (hs : ∀ c ∈ s, c ≠ 0)
    (hw : (b.append (s ++ [0])).Within f.data) :
    Dec.cstring (f.at b) = .ok (s, f.at b) := by
  obtain ⟨post, hd⟩ := hw.drop
  have ht : (s ++ [0] ++ post).takeWhile (· ≠ 0) = s := by
    rw [List.append_assoc, List.takeWhile_append_of_pos (by simpa using hs)]
    simp
  have hc : (s ++ [0] ++ post).contains 0 = true := by simp
  simp only [Dec.cstring, Frame.at_data, Frame.at_cur, hd]
  rw [if_pos hc, ht]

end

section
variable {sender : Endian}

theorem agrees_basic (sender : Endian) (k : BasicKind) {n : Nat} (hn : n < 256 ^ k.size) :
    ∃ ops, marshalValue sender (.basic k) (.word n) = some ops ∧
      Agrees sender ops (demarshalValue (.basic k)) (.word n) true := by
  by_cases hk : k.size = 1
  · refine ⟨[.append (sender.split 1 n)], by simp [marshalValue, hk], ?_⟩
    intro f b hs hw
    subst hs
    rw [hk] at hn
    have hneed := f.need_at hw
    have hadv := f.advance_at (b := b) (f.sender.split 1 n)
    rw [Endian.split_length] at hneed hadv
    simp only [demarshalValue, hk, if_true]
    rw [Dec.bind_ok hneed, Dec.bind_ok (f.peek_at hn hw), Dec.bind_ok hadv]
    rfl
  · refine ⟨[.appendAligned (sender.split k.size n)], by simp [marshalValue, hk], ?_⟩
    simp only [demarshalValue, hk, if_false]
    exact (agrees_alignedWord sender k.size_dvd hn).map Value.word

theorem PlainBuffer.exec_appendString (b : PlainBuffer) (s : List UInt8) :
    b.exec sender (.appendString s) =
      (b.appendAligned (sender.split 4 (s.length+1))).append (s ++ [0]) := by
  simp [PlainBuffer.exec, PlainBuffer.appendString, PlainBuffer.appendAligned]

theorem agrees_string (sender : Endian) {s : List UInt8} (hs : ∀ c ∈ s, c ≠ 0) (hlen : s.length + 1 < 2^32) :
    Agrees sender [.appendString s] (demarshalValue .string) (.string s)
      (s.length + 1 < 2^31) := by
  intro f b hf hw
  subst hf
  simp only [PlainBuffer.run_cons, PlainBuffer.run_nil, PlainBuffer.exec_appendString] at hw ⊢
  have hword := hw.mono (PlainBuffer.grows_append _ _)
  by_cases h : s.length + 1 < 2^31
  · have hb := hw.pos_le
    rw [PlainBuffer.append_pos] at hb
    have hadv := f.advance_at (b := b.appendAligned (f.sender.split 4 (s.length+1))) (s ++ [0])
    simp only [List.length_append, List.length_singleton] at hb hadv
    simp only [h, decide_true, if_true, demarshalValue]
    rw [Dec.bind_ok (f.signedLength_at h hword hb), Dec.bind_ok (f.cstring_at hs hw),
      Int.toNat_natCast, Dec.bind_ok hadv, Dec.pure_apply]
  · simp only [h, decide_false, Bool.false_eq_true, if_false, demarshalValue]
    exact ⟨.fail, Dec.bind_error (f.signedLength_refuses hlen (by omega) hword)⟩

theorem units_flatMap (host : Endian) (s : List Nat) (hs : ∀ u ∈ s, u < 2^16)
    (post : List UInt8) :
    Dec.units host (decide (host ≠ sender)) (s.flatMap (sender.split 2) ++ post) s.length = s := by
  induction s with
  | nil => rfl
  | cons u s ih =>
    have hu : u < 256 ^ 2 := hs u (by simp)
    have ih := ih (fun v hv => hs v (by simp [hv]))
    have ht : (sender.split 2 u ++ (s.flatMap (sender.split 2) ++ post)).take 2 =
        sender.split 2 u := List.take_left' (by simp)
    have hd : (sender.split 2 u ++ (s.flatMap (sender.split 2) ++ post)).drop 2 =
        s.flatMap (sender.split 2) ++ post := List.drop_left' (by simp)
    have hw : (if decide (host ≠ sender) = true then swapWord 2 (host.join (sender.split 2 u))
        else host.join (sender.split 2 u)) = u := by
      by_cases hh : host = sender
      · simp [hh, Endian.join_split sender 2 u hu]
      · have h := swapWord_join host (sender.split 2 u)
        rw [Endian.split_length] at h
        rw [if_pos (by simpa using hh), h, ← Endian.eq_flip_of_ne hh,
          Endian.join_split sender 2 u hu]
    simp only [List.flatMap_cons, List.append_assoc, List.length_cons, Dec.units, ht, hd, hw, ih]

theorem length_flatMap_split (s : List Nat) :
    (s.flatMap (sender.split 2)).length = s.length * 2 := by
  induction s with
  | nil => rfl
  | cons u s ih => simp [ih]; omega

/-- The marker comes out as `0xfeff` on a host of the sender's order and as `0xfffe`
on the other. -/
theorem Frame.hostUnit_marker {f : Frame} {b : PlainBuffer}
    (hw : (b.append (f.sender.split 2 0xfeff)).Within f.data) :
    Dec.hostUnit (f.at b) = .ok (if f.host = f.sender then 0xfeff else 0xfffe, f.at b) := by
  have hb := f.in_bounds hw
  have ht := f.take_at hw
  rw [Endian.split_length] at hb ht
  rw [Dec.hostUnit, if_neg hb, ht, Frame.at_host]
  cases f.host <;> cases f.sender <;> rfl

theorem Frame.marker_at {f : Frame} {b : PlainBuffer} {i : Nat} (hi : 2 ≤ i)
    (hw : (b.append (f.sender.split 2 0xfeff)).Within f.data) :
    Dec.marker i (f.at b) = .ok ((if f.host = f.sender then 0xfeff else 0xfffe, i-2),
      f.at (b.append (f.sender.split 2 0xfeff))) := by
  have hadv := f.advance_at (b := b) (f.sender.split 2 0xfeff)
  rw [Endian.split_length] at hadv
  rw [Dec.marker, if_pos hi, Dec.bind_ok (f.hostUnit_marker hw)]
  by_cases h : f.host = f.sender
  · simp only [h, if_true, true_or]
    rw [Dec.bind_ok hadv, Dec.pure_apply]
  · simp only [h, if_false, or_true, if_true]
    rw [Dec.bind_ok hadv, Dec.pure_apply]

theorem Frame.wchars_at {f : Frame} {b : PlainBuffer} {s : List Nat}
    (hs : ∀ u ∈ s, u ≠ 0 ∧ u < 2^16)
    (hw : (b.append (s.flatMap (f.sender.split 2))).Within f.data) :
    Dec.wchars (decide (f.host ≠ f.sender)) (s.length * 2) (f.at b) = .ok (s, f.at b) := by
  have hb := f.in_bounds hw
  obtain ⟨post, hd⟩ := hw.drop
  rw [length_flatMap_split] at hb
  have hu : Dec.units f.host (decide (f.host ≠ f.sender))
      (s.flatMap (f.sender.split 2) ++ post) s.length = s :=
    units_flatMap f.host s (fun u hu => (hs u hu).2) post
  have ht : s.takeWhile (· ≠ 0) = s := by
    have h := @List.takeWhile_append_of_pos _ (· ≠ 0) s [] (by simpa using fun u hu => (hs u hu).1)
    simpa using h
  rw [Dec.wchars, if_neg hb]
  simp only [Frame.at_data, Frame.at_cur, Frame.at_host, hd,
    Nat.mul_div_cancel _ (show 0 < 2 by decide), hu, ht]
  rw [if_neg (by omega)]

theorem agrees_wstring (sender : Endian) {s : List Nat} (hs : ∀ u ∈ s, u ≠ 0 ∧ u < 2^16)
    (hlen : (s.length + 1) * 2 < 2^32) :
    Agrees sender [.appendAligned (sender.split 4 ((s.length+1) * 2)),
        .append (sender.split 2 0xfeff), .append (s.flatMap (sender.split 2))]
      (demarshalValue .wstring) (.wstring s) ((s.length + 1) * 2 < 2^31) := by
  intro f b hf hw
  subst hf
  simp only [PlainBuffer.run_cons, PlainBuffer.run_nil, PlainBuffer.exec] at hw ⊢
  have hmark := hw.mono (PlainBuffer.grows_append _ _)
  have hword := hmark.mono (PlainBuffer.grows_append _ _)
  by_cases h : (s.length + 1) * 2 < 2^31
  · have hb := hw.pos_le
    rw [PlainBuffer.append_pos, PlainBuffer.append_pos, length_flatMap_split,
      Endian.split_length] at hb
    have hadv := f.advance_at (b := (b.appendAligned (f.sender.split 4 ((s.length+1) * 2))).append
      (f.sender.split 2 0xfeff)) (s.flatMap (f.sender.split 2))
    rw [length_flatMap_split] at hadv
    have hn : (s.length + 1) * 2 - 2 = s.length * 2 := by omega
    have hm : decide ((if f.host = f.sender then 0xfeff else 0xfffe) = 0xfffe) =
        decide (f.host ≠ f.sender) := by
      by_cases hh : f.host = f.sender <;> simp [hh]
    simp only [h, decide_true, if_true, demarshalValue]
    rw [Dec.bind_ok (f.signedLength_at h hword (by omega)), Int.toNat_natCast,
      Dec.bind_ok (f.marker_at (by omega) hmark)]
    simp only [hn, hm]
    rw [Dec.bind_ok (f.wchars_at hs hw), Dec.bind_ok hadv, Dec.pure_apply]
  · simp only [h, decide_false, Bool.false_eq_true, if_false, demarshalValue]
    exact ⟨.fail, Dec.bind_error (f.signedLength_refuses hlen (by omega) hword)⟩

end

end ORBit2
