import ORBit2.IopProfiles

/-! Object ids and strings (poa.c). -/

set_option autoImplicit false

namespace ORBit2.PortableServer

/-- `PortableServer_ObjectId`; its length is a `CORBA_unsigned_long`. -/
structure ObjectId where
  maximum : UInt32
  octets : List UInt8
  fits : octets.length < 2^32

/-- How an operation ends without a result. -/
inductive IdFault where
  /-- `ex_CORBA_BAD_PARAM` -/
  | badParam
  /-- the length of the id does not fit in an `int` -/
  | overflow
  deriving DecidableEq, Repr

/-- The characters of a wide string that has an end. -/
abbrev CWString : Type := {str : List UInt16 // 0 ∉ str}

/-- `PortableServer_ObjectId_to_string`: the memory that is returned. -/
def objectIdToString : Option ObjectId → Except IdFault (List UInt8)
  | none => .error .badParam
  -- `memchr`
  | some id => if 0 ∈ id.octets then .ok (id.octets ++ [0]) else .error .badParam

/-- `PortableServer_ObjectId_to_wstring`: the memory that is returned. -/
def objectIdToWstring : Option ObjectId → Except IdFault (List UInt16)
  | none => .error .badParam
  | some id => if 0 ∈ id.octets then .ok (id.octets.map UInt8.toUInt16 ++ [0]) else .error .badParam

theorem length_take_mod (octets : List UInt8) : (octets.take (octets.length % 2^32)).length < 2^32 := by
  rw [List.length_take]
  omega

/-- `PortableServer_string_to_ObjectId`; `_maximum` is what the stack holds. -/
def stringToObjectId (maximum : UInt32) : Option CString → Except IdFault ObjectId
  | none => .error .badParam
  | some str => .ok ⟨maximum, str.1.take (str.1.length % 2^32), length_take_mod str.1⟩

/-- The bytes of `tmp._buffer` behind the loop: as many bytes have been assigned as there are
characters, and the others are what the stack holds. -/
def wstringOctets (stack : Nat → UInt8) (str : List UInt16) : List UInt8 :=
  str.map UInt16.toUInt8 ++ (List.range str.length).map fun i => stack (str.length + i)

theorem length_wstringOctets (stack : Nat → UInt8) (str : List UInt16) :
    (wstringOctets stack str).length = str.length * 2 := by
  rw [wstringOctets, List.length_append, List.length_map, List.length_map, List.length_range]
  omega

/-- `PortableServer_wstring_to_ObjectId`. -/
def wstringToObjectId (maximum : UInt32) (stack : Nat → UInt8) :
    Option CWString → Except IdFault ObjectId
  | none => .error .badParam
  | some str =>
      if h : str.1.length * 2 < 2^31 then
        .ok ⟨maximum, wstringOctets stack str.1, by rw [length_wstringOctets]; omega⟩
      else .error .overflow

/-- A string in memory, up to its end. -/
def stringAt (memory : List UInt8) : List UInt8 := memory.takeWhile (· ≠ 0)

def wstringAt (memory : List UInt16) : List UInt16 := memory.takeWhile (· ≠ 0)

/-! ### Ids of strings -/

/-- The id is one that a string is converted to. -/
def ObjectId.OfString (id : ObjectId) : Prop :=
  ∃ maximum str id', stringToObjectId maximum (some str) = .ok id' ∧ id'.octets = id.octets

/-- The id is one that a wide string is converted to, with some contents of the stack. -/
def ObjectId.OfWstring (id : ObjectId) : Prop :=
  ∃ maximum stack str id', wstringToObjectId maximum stack (some str) = .ok id' ∧ id'.octets = id.octets

theorem ObjectId.ofString_iff (id : ObjectId) : id.OfString ↔ 0 ∉ id.octets := by
  constructor
  · rintro ⟨maximum, str, _, ⟨⟩, heq⟩ hzero
    rw [← heq] at hzero
    exact str.2 (List.mem_of_mem_take hzero)
  · intro h
    refine ⟨0, ⟨id.octets, h⟩, _, rfl, ?_⟩
    exact List.take_of_length_le (Nat.mod_eq_of_lt id.fits).ge

theorem objectIdToString_iff (id : ObjectId) :
    objectIdToString (some id) = .error .badParam ↔ 0 ∉ id.octets := by
  rw [objectIdToString]
  split
  · exact iff_of_false (fun h => nomatch h) (not_not_intro ‹_›)
  · exact iff_of_true rfl ‹_›

theorem objectIdToWstring_iff (id : ObjectId) :
    objectIdToWstring (some id) = .error .badParam ↔ 0 ∉ id.octets := by
  rw [objectIdToWstring]
  split
  · exact iff_of_false (fun h => nomatch h) (not_not_intro ‹_›)
  · exact iff_of_true rfl ‹_›

/-- A character that is truncated to the byte. -/
def wcharOf (b : UInt8) : UInt16 := if b = 0 then 256 else b.toUInt16

theorem toUInt8_wcharOf (b : UInt8) : (wcharOf b).toUInt8 = b := by
  rw [wcharOf]
  split
  · rename_i hb
    rw [hb]
    rfl
  · exact UInt8.toUInt8_toUInt16 b

theorem wcharOf_ne_zero (b : UInt8) : wcharOf b ≠ 0 := by
  intro h
  have hb := toUInt8_wcharOf b
  rw [h] at hb
  rw [← hb] at h
  revert h
  decide

/-- With the right contents of the stack, every id of an even length comes from a wide string. -/
theorem ObjectId.ofWstring_iff (id : ObjectId) :
    id.OfWstring ↔ id.octets.length % 2 = 0 ∧ id.octets.length < 2^31 := by
  constructor
  · rintro ⟨maximum, stack, str, id', hid', heq⟩
    rw [wstringToObjectId] at hid'
    split at hid'
    · cases hid'
      rw [← heq, length_wstringOctets]
      omega
    · cases hid'
  · rintro ⟨heven, hlt⟩
    have hlength : (id.octets.take (id.octets.length / 2)).length = id.octets.length / 2 := by
      rw [List.length_take]
      omega
    have hstr : 0 ∉ (id.octets.take (id.octets.length / 2)).map wcharOf := by
      rintro hzero
      obtain ⟨b, -, hb⟩ := List.mem_map.mp hzero
      exact wcharOf_ne_zero b hb
    refine ⟨0, fun i => id.octets.getD i 0, ⟨_, hstr⟩, _, dif_pos (by rw [List.length_map, hlength]; omega), ?_⟩
    dsimp only
    rw [wstringOctets, List.length_map, hlength, List.map_map]
    have htake : (id.octets.take (id.octets.length / 2)).map (UInt16.toUInt8 ∘ wcharOf) =
        id.octets.take (id.octets.length / 2) := by
      have hid : UInt16.toUInt8 ∘ wcharOf = fun b => b := funext toUInt8_wcharOf
      rw [hid, List.map_id']
    have hdrop : (List.range (id.octets.length / 2)).map
        (fun i => id.octets.getD (id.octets.length / 2 + i) 0) = id.octets.drop (id.octets.length / 2) := by
      refine List.ext_getElem ?_ fun i h h' => ?_
      · rw [List.length_map, List.length_range, List.length_drop]
        omega
      · rw [List.length_drop] at h'
        rw [List.getElem_map, List.getElem_range, List.getElem_drop]
        exact (List.getElem_eq_getD 0).symm
    rw [htake, hdrop, List.take_append_drop]

/-! ### Round trips -/

/-- The string comes back from its id. -/
def StringKept (maximum : UInt32) (str : CString) : Prop :=
  ∃ id memory, stringToObjectId maximum (some str) = .ok id ∧ objectIdToString (some id) = .ok memory ∧
    stringAt memory = str.1

def WstringKept (maximum : UInt32) (stack : Nat → UInt8) (str : CWString) : Prop :=
  ∃ id memory, wstringToObjectId maximum stack (some str) = .ok id ∧
    objectIdToWstring (some id) = .ok memory ∧ wstringAt memory = str.1

/-- What is read up to the first end has that length where the end is there. -/
theorem takeWhile_append_eq_iff {α : Type} {p : α → Bool} {as w rest : List α} {b : α}
    (h : as.length = w.length) : (as ++ b :: rest).takeWhile p = w ↔ as = w ∧ (∀ a ∈ w, p a) ∧ ¬ p b := by
  constructor
  · intro hw
    have hsplit : w ++ (as ++ b :: rest).dropWhile p = as ++ b :: rest := by
      rw [← hw, List.takeWhile_append_dropWhile]
    obtain ⟨hwas, hdrop⟩ := List.append_inj hsplit h.symm
    refine ⟨hwas.symm, ?_, fun hb => ?_⟩
    · intro a ha
      rw [← hw] at ha
      exact List.mem_takeWhile_imp ha
    · have hhead := List.head?_dropWhile_not p (as ++ b :: rest)
      rw [hdrop, List.head?_cons] at hhead
      simp only [hb] at hhead
      cases hhead
  · rintro ⟨rfl, hall, hb⟩
    rw [List.takeWhile_append_of_pos hall, List.takeWhile_cons_of_neg hb, List.append_nil]

theorem toUInt16_toUInt8_iff (c : UInt16) : c.toUInt8.toUInt16 = c ↔ c < 256 := by
  rw [← UInt16.toNat_inj, UInt8.toNat_toUInt16, UInt16.toNat_toUInt8, UInt16.lt_iff_toNat_lt]
  have h256 : (256 : UInt16).toNat = 256 := rfl
  omega

/-- A wide string comes back if it is not empty, its characters are bytes and the first byte that the
loop leaves is zero. -/
theorem wstringKept_iff (maximum : UInt32) (stack : Nat → UInt8) (str : CWString) :
    WstringKept maximum stack str ↔
      str.1 ≠ [] ∧ (∀ c ∈ str.1, c < 256) ∧ stack str.1.length = 0 ∧ str.1.length * 2 < 2^31 := by
  obtain ⟨w, hw⟩ := str
  have hmemory : w ≠ [] → ∃ rest, (wstringOctets stack w).map UInt8.toUInt16 ++ [0] =
      w.map (fun c => c.toUInt8.toUInt16) ++ (stack w.length).toUInt16 :: rest := by
    intro hne
    obtain ⟨i, hi⟩ := Nat.exists_eq_succ_of_ne_zero (List.length_pos_iff.mpr hne).ne'
    refine ⟨(List.range i).map (fun k => (stack (w.length + (k + 1))).toUInt16) ++ [0], ?_⟩
    have hrange : List.range w.length = 0 :: (List.range i).map Nat.succ := by
      rw [hi, List.range_succ_eq_map]
    rw [wstringOctets, hrange]
    simp only [List.map_append, List.map_map, List.map_cons, List.append_assoc, List.cons_append,
      Nat.add_zero]
    rfl
  have hread : w ≠ [] → (wstringAt ((wstringOctets stack w).map UInt8.toUInt16 ++ [0]) = w ↔
      (∀ c ∈ w, c < 256) ∧ stack w.length = 0) := by
    intro hne
    obtain ⟨rest, hrest⟩ := hmemory hne
    rw [wstringAt, hrest, takeWhile_append_eq_iff (List.length_map _)]
    have hmap : w.map (fun c => c.toUInt8.toUInt16) = w ↔ ∀ c ∈ w, c < 256 := by
      have hiff : w.map (fun c => c.toUInt8.toUInt16) = w.map id ↔ ∀ c ∈ w, c.toUInt8.toUInt16 = c :=
        List.map_inj_left
      rw [List.map_id] at hiff
      exact hiff.trans (forall₂_congr fun c _ => toUInt16_toUInt8_iff c)
    have hends : ∀ c ∈ w, decide (c ≠ 0) = true := fun c hc => decide_eq_true fun h => hw (h ▸ hc)
    have hzero : ¬ decide ((stack w.length).toUInt16 ≠ 0) = true ↔ stack w.length = 0 := by
      rw [decide_eq_true_iff, not_not, ← UInt8.toUInt16_inj]
      rfl
    rw [hmap, hzero]
    exact and_congr_right fun _ => and_iff_right hends
  constructor
  · rintro ⟨id, memory, hid, hmem, hsame⟩
    rw [wstringToObjectId] at hid
    split at hid
    · rename_i hlt
      cases hid
      rw [objectIdToWstring] at hmem
      split at hmem
      · rename_i hzero
        cases hmem
        have hne : w ≠ [] := by
          rintro rfl
          cases hzero
        obtain ⟨hbytes, hstack⟩ := (hread hne).mp hsame
        exact ⟨hne, hbytes, hstack, hlt⟩
      · cases hmem
    · cases hid
  · rintro ⟨hne, hbytes, hstack, hlt⟩
    refine ⟨_, _, dif_pos hlt, if_pos ?_, (hread hne).mpr ⟨hbytes, hstack⟩⟩
    refine List.mem_append_right _ (List.mem_map.mpr ⟨0, List.mem_range.mpr (List.length_pos_iff.mpr hne), ?_⟩)
    exact hstack

theorem not_stringKept (maximum : UInt32) (str : CString) : ¬ StringKept maximum str := by
  rintro ⟨id, memory, ⟨⟩, hmemory, -⟩
  have hzero : 0 ∉ str.1.take (str.1.length % 2^32) := fun h => str.2 (List.mem_of_mem_take h)
  rw [objectIdToString, if_neg hzero] at hmemory
  cases hmemory

/-- Only the empty wide string, or one that is refused, is converted without bytes of the stack. -/
theorem wstring_determined_iff (str : CWString) :
    (∀ maximum stack maximum' stack',
      (wstringToObjectId maximum stack (some str)).map ObjectId.octets =
        (wstringToObjectId maximum' stack' (some str)).map ObjectId.octets) ↔
      str.1 = [] ∨ 2^31 ≤ str.1.length * 2 := by
  obtain ⟨w, hw⟩ := str
  constructor
  · intro h
    by_contra hcontra
    obtain ⟨hne, hlt⟩ := not_or.mp hcontra
    have hlt : w.length * 2 < 2^31 := Nat.not_le.mp hlt
    have heq := h 0 (fun _ => 0) 0 (fun _ => 1)
    simp only [wstringToObjectId, dif_pos hlt, Except.map, Except.ok.injEq, wstringOctets,
      List.append_cancel_left_eq] at heq
    obtain ⟨i, hi⟩ := Nat.exists_eq_succ_of_ne_zero (List.length_pos_iff.mpr hne).ne'
    rw [hi, List.range_succ_eq_map] at heq
    simp at heq
  · rintro (rfl | hle)
    · intro maximum stack maximum' stack'
      rfl
    · intro maximum stack maximum' stack'
      rw [wstringToObjectId, wstringToObjectId, dif_neg (Nat.not_lt.mpr hle), dif_neg (Nat.not_lt.mpr hle)]

/-- Strings never come back, and every id is refused by `PortableServer_ObjectId_to_string` that should
not be, and the other way round; what wide strings and the ids for them do depends on the length, on the
characters and on the stack. -/
theorem objectIdStrings (id : ObjectId) :
    (∀ maximum str, ¬ StringKept maximum str) ∧
    ¬ (objectIdToString (some id) = .error .badParam ↔ ¬ id.OfString) ∧
    (∀ maximum stack str, WstringKept maximum stack str ↔
      str.1 ≠ [] ∧ (∀ c ∈ str.1, c < 256) ∧ stack str.1.length = 0 ∧ str.1.length * 2 < 2^31) ∧
    ((objectIdToWstring (some id) = .error .badParam ↔ ¬ id.OfWstring) ↔
      (0 ∈ id.octets ↔ id.octets.length % 2 = 0 ∧ id.octets.length < 2^31)) ∧
    (∀ (str : CString) (maximum maximum' : UInt32),
      (stringToObjectId maximum (some str)).map ObjectId.octets =
        (stringToObjectId maximum' (some str)).map ObjectId.octets) ∧
    ∀ str : CWString, (∀ maximum stack maximum' stack',
        (wstringToObjectId maximum stack (some str)).map ObjectId.octets =
          (wstringToObjectId maximum' stack' (some str)).map ObjectId.octets) ↔
      str.1 = [] ∨ 2^31 ≤ str.1.length * 2 := by
  refine ⟨not_stringKept, ?_, wstringKept_iff, ?_, fun _ _ _ => rfl, wstring_determined_iff⟩
  · rw [objectIdToString_iff, ObjectId.ofString_iff]
    exact fun h => by tauto
  · rw [objectIdToWstring_iff, ObjectId.ofWstring_iff, not_iff_not]

/-- The id of a string is refused, the id of an empty wide string as well, and the id of a wide string
holds bytes of the stack. -/
theorem objectIdStrings_refused :
    (∃ id, stringToObjectId 0 (some ⟨[97], by decide⟩) = .ok id ∧
      objectIdToString (some id) = .error .badParam) ∧
    (∃ id, wstringToObjectId 0 (fun _ => 0) (some ⟨[], by decide⟩) = .ok id ∧
      objectIdToWstring (some id) = .error .badParam) ∧
    (wstringToObjectId 0 (fun _ => 0) (some ⟨[97], by decide⟩)).map ObjectId.octets = .ok [97, 0] ∧
    (wstringToObjectId 0 (fun _ => 1) (some ⟨[97], by decide⟩)).map ObjectId.octets = .ok [97, 1] :=
  ⟨⟨_, rfl, rfl⟩, ⟨_, rfl, rfl⟩, rfl, rfl⟩

end ORBit2.PortableServer
