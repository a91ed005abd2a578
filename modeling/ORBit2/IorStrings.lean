import ORBit2.ObjectStrings

/-! The digits of a reference, as `CORBA_ORB_string_to_object` goes through them in memory. -/

set_option autoImplicit false

namespace ORBit2.IorStrings
open Words

inductive StringFault where
  /-- memory outside of the string or of the buffer is read -/
  | outside
  /-- `int i` overflows -/
  | overflow
  | objref (f : ObjrefFault)
  deriving DecidableEq

/-- `string [i]`, behind the prefix. -/
def charAt (string : List UInt8) (i : Nat) : Except StringFault UInt8 :=
  match (string ++ [0])[i]? with
  | some c => .ok c
  | none => .error .outside

/-- The loop that takes what is no digit off the end. -/
@[grind =] def trimLoop (string : List UInt8) : (len : Nat) → Except StringFault Nat
  | 0 => .ok 0
  | len + 1 => do
      let c ← charAt string len
      if asciiIsxdigit c then .ok (len + 1) else trimLoop string len

/-- The loop that fills `tmpbuf`, for so many more pairs. -/
@[grind =] def digitLoop (string : List UInt8) : (pairs i : Nat) → Except StringFault (List UInt8)
  | 0, _ => .ok []
  | pairs + 1, i => do
      let high ← charAt string i
      let low ← charAt string (i + 1)
      if 2^31 ≤ i + 2 then .error .overflow
      else
        let tmpbuf ← digitLoop string pairs (i + 2)
        .ok ((asciiXdigitValue high <<< 4 ||| asciiXdigitValue low) :: tmpbuf)

/-- The buffer for an encapsulation at the address `base`. -/
def encapsOf (base : Nat) (host : Endian) (mem : List UInt8) : RecvCursor :=
  (⟨base, mem, 0, host, host⟩ : RecvCursor).encaps true mem.length

/-- `giop_recv_buffer_use_encaps`, which reads the flags. -/
def recvBufferUseEncaps (base : Nat) (host : Endian) (mem : List UInt8) :
    Except StringFault RecvCursor :=
  if mem.isEmpty then .error .outside else .ok (encapsOf base host mem)

def objectOf (objrefs : Option (List Reference)) (buf : RecvCursor) :
    Except StringFault StringToObject :=
  match demarshalObject objrefs buf with
  | .ok d => .ok (.ofDemarshalled d)
  | .error f => .error (.objref f)

/-- `CORBA_ORB_string_to_object` -/
def stringToObject (base : Nat) (host : Endian) (objrefs : Option (List Reference))
    (string : CString) : Except StringFault StringToObject :=
  if iorPrefix.isPrefixOf string.1 then do
    let string := string.1.drop 4
    let len ← trimLoop string (string.length % 2^32)
    if len % 2 = 1 then .ok .nil
    else
      let tmpbuf ← digitLoop string (len / 2) 0
      let buf ← recvBufferUseEncaps base host tmpbuf
      objectOf objrefs buf
  else if corbalocPrefixes.any fun str => str.isPrefixOf string.1 then .ok .corbaloc
  else .ok .badParam

/-! ### What is spelled -/

/-- A text up to its last digit. -/
def upToDigit (text : List UInt8) : List UInt8 := text.rdropWhile fun c => !asciiIsxdigit c

def lowerDigits : List UInt8 := [48, 49, 50, 51, 52, 53, 54, 55, 56, 57, 97, 98, 99, 100, 101, 102]

def upperDigits : List UInt8 := [48, 49, 50, 51, 52, 53, 54, 55, 56, 57, 65, 66, 67, 68, 69, 70]

/-- A digit and its value. -/
def IsDigit (c : UInt8) (v : Fin 16) : Prop := lowerDigits[v] = c ∨ upperDigits[v] = c

/-- Digits, two and two, and the bytes that they denote. -/
inductive Spells : List UInt8 → List UInt8 → Prop
  | nil : Spells [] []
  | cons {high low : UInt8} {h l : Fin 16} {digits bytes : List UInt8} : IsDigit high h →
      IsDigit low l → Spells digits bytes →
      Spells (high :: low :: digits) (UInt8.ofNat (16 * h.1 + l.1) :: bytes)

/-- The bytes of a text, which is to be spelled up to its last digit, and not empty. -/
def Denotes (text bytes : List UInt8) : Prop :=
  Spells (upToDigit text) bytes ∧ bytes ≠ []

/-- What a text behind the prefix is to be read as. -/
structure ReadAs (base : Nat) (host : Endian) (objrefs : Option (List Reference)) (text : List UInt8)
    (r : Except StringFault StringToObject) : Prop where
  denoted : ∀ bytes, Denotes text bytes → ∃ d, demarshalObject objrefs (encapsOf base host bytes) = .ok d ∧
    r = .ok (.ofDemarshalled d)
  other : (¬ ∃ bytes, Denotes text bytes) → r = .ok .badParam ∨ r = .ok .marshal

theorem value_of_isDigit {c : UInt8} {v : Fin 16} (h : IsDigit c v) :
    asciiXdigitValue c = UInt8.ofNat v.1 := by
  have hall : ∀ v : Fin 16, asciiXdigitValue lowerDigits[v] = UInt8.ofNat v.1 ∧
      asciiXdigitValue upperDigits[v] = UInt8.ofNat v.1 := by decide
  rcases h with rfl | rfl
  · exact (hall v).1
  · exact (hall v).2

/-- What the loop computes from the digits that spell something. -/
theorem hexBytes_of_spells {digits bytes : List UInt8} (h : Spells digits bytes) :
    hexBytes digits = bytes := by
  have hpair : ∀ h l : Fin 16, (UInt8.ofNat h.1 <<< 4 ||| UInt8.ofNat l.1) =
      UInt8.ofNat (16 * h.1 + l.1) := by decide
  induction h with
  | nil => rfl
  | cons hh hl _ ih => rw [hexBytes, value_of_isDigit hh, value_of_isDigit hl, hpair, ih]

theorem Spells.even {digits bytes : List UInt8} (h : Spells digits bytes) :
    digits.length = 2 * bytes.length := by
  induction h with
  | nil => rfl
  | cons hh hl _ ih =>
    simp only [List.length_cons, ih]
    omega

/-! ### The loops -/

/-- The part of a text that `CORBA_unsigned_long len` covers, up to its last digit. -/
def seen (text : List UInt8) : List UInt8 := upToDigit (text.take (text.length % 2^32))

section
variable {text : List UInt8}

theorem charAt_of_lt {i : Nat} (h : i < text.length) : charAt text i = .ok text[i] := by
  rw [charAt, List.getElem?_append_left h, List.getElem?_eq_getElem h]

theorem hexBytes_ne_nil {digits : List UInt8} (heven : digits.length % 2 = 0) (h : digits ≠ []) :
    hexBytes digits ≠ [] := by
  match digits with
  | [] => exact absurd rfl h
  | [_] => exact absurd heven (by simp)
  | high :: low :: digits => exact List.cons_ne_nil _ _

theorem trimLoop_eq {n : Nat} (h : n ≤ text.length) :
    trimLoop text n = .ok (upToDigit (text.take n)).length := by
  induction n with
  | zero => rfl
  | succ n ih =>
    rw [trimLoop, charAt_of_lt h, List.take_succ_eq_append_getElem h, upToDigit]
    change (if asciiIsxdigit text[n] then _ else _) = _
    by_cases hdigit : asciiIsxdigit text[n] = true
    · rw [if_pos hdigit, List.rdropWhile_concat_neg _ _ _ (by simp [hdigit]), List.length_append,
        List.length_take_of_le (by omega), List.length_singleton]
    · rw [if_neg hdigit, List.rdropWhile_concat_pos _ _ _ (by simp [hdigit]), ← upToDigit]
      exact ih (by omega)

theorem hexBytes_drop {i n : Nat} (h : i + 1 < text.length) :
    hexBytes ((text.drop i).take (n + 2)) =
      (asciiXdigitValue text[i] <<< 4 ||| asciiXdigitValue text[i + 1]) ::
        hexBytes ((text.drop (i + 2)).take n) := by
  rw [List.drop_eq_getElem_cons (by omega), List.take_succ_cons, List.drop_eq_getElem_cons h,
    List.take_succ_cons, hexBytes]

theorem digitLoop_eq {pairs i : Nat} (h : i + 2 * pairs ≤ text.length) (hlt : i + 2 * pairs < 2^31) :
    digitLoop text pairs i = .ok (hexBytes ((text.drop i).take (2 * pairs))) := by
  induction pairs generalizing i with
  | zero => rfl
  | succ pairs ih =>
    rw [digitLoop, charAt_of_lt (by omega), charAt_of_lt (by omega), Nat.mul_succ,
      hexBytes_drop (by omega)]
    change (if 2^31 ≤ i + 2 then _ else _) = _
    rw [if_neg (by omega), ih (by omega) (by omega)]
    rfl

theorem digitLoop_overflow {pairs i : Nat} (h : i + 2 * pairs ≤ text.length) (hpairs : 0 < pairs)
    (hge : 2^31 ≤ i + 2 * pairs) : digitLoop text pairs i = .error .overflow := by
  induction pairs generalizing i with
  | zero => omega
  | succ pairs ih =>
    rw [digitLoop, charAt_of_lt (by omega), charAt_of_lt (by omega)]
    change (if 2^31 ≤ i + 2 then _ else _) = _
    by_cases hi : 2^31 ≤ i + 2
    · rw [if_pos hi]
    · rw [if_neg hi, ih (by omega) (by omega) (by omega)]
      rfl

theorem seen_starts (text : List UInt8) : seen text <+: text :=
  List.IsPrefix.trans ( List.rdropWhile_prefix _ _) ( List.take_prefix _ _)

theorem take_seen (text : List UInt8) : text.take (seen text).length = seen text :=
  (List.prefix_iff_eq_take.mp (seen_starts text)).symm

end

/-! ### The whole string -/

/-- `IOR:` and a text. -/
def iorString (text : CString) : CString where
  val := iorPrefix ++ text.1
  property h := by
    rcases List.mem_append.mp h with h | h
    · exact absurd h (by decide)
    · exact text.2 h

section
variable {base : Nat} {host : Endian} {objrefs : Option (List Reference)} {text : CString}

/-- The string as the code reads it. -/
theorem stringToObject_eq : stringToObject base host objrefs (iorString text) =
    if (seen text.1).length % 2 = 1 then .ok .nil
    else if seen text.1 = [] then .error .outside
    else if 2^31 ≤ (seen text.1).length then .error .overflow
    else objectOf objrefs (encapsOf base host (hexBytes (seen text.1))) := by
  have hprefix : iorPrefix.isPrefixOf (iorString text).1 = true :=
    List.isPrefixOf_iff_prefix.mpr (List.prefix_append _ _)
  have hdrop : (iorString text).1.drop 4 = text.1 := rfl
  have htrim : trimLoop text.1 (text.1.length % 2^32) = .ok (seen text.1).length :=
    trimLoop_eq (Nat.mod_le _ _)
  have hlen := (seen_starts text.1).length_le
  rw [stringToObject, if_pos hprefix, hdrop]
  simp only [htrim, Outcomes.ok_bind]
  by_cases hodd : (seen text.1).length % 2 = 1
  · rw [if_pos hodd, if_pos hodd]
  rw [if_neg hodd, if_neg hodd]
  by_cases hempty : seen text.1 = []
  · rw [if_pos hempty, hempty]
    rfl
  rw [if_neg hempty]
  have hpos := List.length_pos_iff.mpr hempty
  by_cases hge : 2^31 ≤ (seen text.1).length
  · rw [if_pos hge, digitLoop_overflow (by omega) (by omega) (by omega)]
    rfl
  · have heven : 2 * ((seen text.1).length / 2) = (seen text.1).length := by omega
    have hbytes := hexBytes_ne_nil (by omega) hempty
    rw [if_neg hge, digitLoop_eq (by omega) (by omega), List.drop_zero, heven, take_seen,
      Outcomes.ok_bind, recvBufferUseEncaps, if_neg (by rwa [List.isEmpty_iff])]
    rfl

theorem objectOf_eq_ok {buf : RecvCursor} {r : StringToObject} (h : objectOf objrefs buf = .ok r) :
    ∃ d, demarshalObject objrefs buf = .ok d ∧ r = .ofDemarshalled d := by
  unfold objectOf at h
  split at h
  · next d hd => exact ⟨d, hd, (Except.ok.inj h).symm⟩
  · cases h

theorem ofDemarshalled_injective {d d' : Demarshalled}
    (h : StringToObject.ofDemarshalled d = .ofDemarshalled d') : d = d' := by
  cases d <;> cases d' <;> cases h <;> rfl

theorem ReadAs.isOk {r : Except StringFault StringToObject} (h : ReadAs base host objrefs text.1 r) :
    ∃ found, r = .ok found := by
  by_cases hd : ∃ bytes, Denotes text.1 bytes
  · obtain ⟨bytes, hbytes⟩ := hd
    obtain ⟨d, -, hr⟩ := h.denoted bytes hbytes
    exact ⟨_, hr⟩
  · rcases h.other hd with hr | hr
    · exact ⟨_, hr⟩
    · exact ⟨_, hr⟩

theorem Denotes.unique {text bytes bytes' : List UInt8} (h : Denotes text bytes)
    (h' : Denotes text bytes') : bytes = bytes' :=
  (hexBytes_of_spells h.1).symm.trans (hexBytes_of_spells h'.1)

end

/-- The digits that the code looks at are some, even in number, and not too many; the bytes that it
makes of them give what the text denotes, or are refused where it denotes nothing. -/
structure SeenWell (base : Nat) (host : Endian) (objrefs : Option (List Reference))
    (text : List UInt8) : Prop where
  some : seen text ≠ []
  even : (seen text).length % 2 = 0
  short : (seen text).length < 2^31
  denoted : ∀ bytes, Denotes text bytes → ∃ d, demarshalObject objrefs (encapsOf base host bytes) = .ok d ∧
    demarshalObject objrefs (encapsOf base host (hexBytes (seen text))) = .ok d
  other : (¬ ∃ bytes, Denotes text bytes) →
    demarshalObject objrefs (encapsOf base host (hexBytes (seen text))) = .ok .failed

/-- An odd number of digits is looked at, but all of them denote a nil reference: this takes 2³²
characters. -/
def SeenNil (base : Nat) (host : Endian) (objrefs : Option (List Reference)) (text : List UInt8) :
    Prop :=
  (seen text).length % 2 = 1 ∧
    ∃ bytes, Denotes text bytes ∧ demarshalObject objrefs (encapsOf base host bytes) = .ok .nil

/-- The string is read as it is to be read exactly where its digits are seen well. -/
theorem string_to_object_iff (base : Nat) (host : Endian) (objrefs : Option (List Reference))
    (text : CString) :
    ReadAs base host objrefs text.1 (stringToObject base host objrefs (iorString text)) ↔
      SeenWell base host objrefs text.1 ∨ SeenNil base host objrefs text.1 := by
  rw [stringToObject_eq]
  by_cases hodd : (seen text.1).length % 2 = 1
  · rw [if_pos hodd]
    constructor
    · intro h
      refine .inr ⟨hodd, ?_⟩
      by_contra hno
      by_cases hd : ∃ bytes, Denotes text.1 bytes
      · obtain ⟨bytes, hbytes⟩ := hd
        obtain ⟨d, hd, hr⟩ := h.denoted bytes hbytes
        cases (ofDemarshalled_injective (Except.ok.inj hr) : Demarshalled.nil = d)
        exact hno ⟨bytes, hbytes, hd⟩
      · rcases h.other hd with hr | hr <;> cases hr
    · rintro (h | ⟨-, bytes, hbytes, hnil⟩)
      · have heven := h.even
        omega
      · refine ⟨fun bytes' hbytes' => ?_, fun hno => absurd ⟨bytes, hbytes⟩ hno⟩
        rw [hbytes'.unique hbytes]
        exact ⟨.nil, hnil, rfl⟩
  rw [if_neg hodd]
  have hnot : ¬ SeenNil base host objrefs text.1 := fun h => hodd h.1
  rw [or_iff_left hnot]
  by_cases hempty : seen text.1 = []
  · rw [if_pos hempty]
    refine ⟨fun h => ?_, fun h => absurd hempty h.some⟩
    obtain ⟨_, hr⟩ := h.isOk
    cases hr
  rw [if_neg hempty]
  by_cases hge : 2^31 ≤ (seen text.1).length
  · rw [if_pos hge]
    refine ⟨fun h => ?_, fun h => absurd hge (Nat.not_le.mpr h.short)⟩
    obtain ⟨_, hr⟩ := h.isOk
    cases hr
  rw [if_neg hge]
  constructor
  · intro h
    refine ⟨hempty, by omega, by omega, ?_, ?_⟩
    · intro bytes hbytes
      obtain ⟨d, hd, hr⟩ := h.denoted bytes hbytes
      obtain ⟨d', hd', heq⟩ := objectOf_eq_ok hr
      cases ofDemarshalled_injective heq
      exact ⟨d, hd, hd'⟩
    · intro hno
      rcases h.other hno with hr | hr <;> obtain ⟨d, hd, heq⟩ := objectOf_eq_ok hr
      · cases d <;> cases heq
      · cases d <;> cases heq
        exact hd
  · intro h
    refine ⟨fun bytes hbytes => ?_, fun hno => .inr ?_⟩
    · obtain ⟨d, hd, hd'⟩ := h.denoted bytes hbytes
      exact ⟨d, hd, by rw [objectOf, hd']⟩
    · rw [objectOf, h.other hno]
      rfl

/-- The text `0` gives a nil reference and no exception. -/
theorem odd_digits_nil :
    ¬ ReadAs 0 .little none [48] (stringToObject 0 .little none (iorString ⟨[48], by decide⟩)) := by
  intro h
  have hno : ¬ ∃ bytes, Denotes [48] bytes := by
    rintro ⟨bytes, hspells, -⟩
    have heven := hspells.even
    have hlen : (upToDigit [48]).length = 1 := rfl
    omega
  have hr : stringToObject 0 .little none (iorString ⟨[48], by decide⟩) = .ok .nil := by
    rw [stringToObject_eq]
    exact if_pos (by decide)
  rcases h.other hno with hbad | hbad
  · cases hr.symm.trans hbad
  · cases hr.symm.trans hbad

end ORBit2.IorStrings
