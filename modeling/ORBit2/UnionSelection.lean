import ORBit2.ImoduleTypeCodes
import ORBit2.ValueAtoms
import ORBit2.ValueWalks

/-! Which arm of a union a discriminator selects, and what the three makers of its TypeCode have put
into the labels: the IDL compiler, `CORBA_ORB_create_union_tc`, and `tc_dec_tk_union`. -/

set_option autoImplicit false

namespace ORBit2
open Words Traversal
open AlignedTypeCode (UnionMember copyCaseValue createUnionTc defaultIndexFrom)

/-! ### Selection -/

/-- The first arm with the label `v`, or else the arm of `default`, which is the label `none`. -/
def selectArm (labels : List (Option Nat)) (v : Nat) : Option Nat :=
  (labels.idxOf? (some v)).or (labels.idxOf? none)

/-- The labels as they are stored: each is cast by `cast`, and `default` is kept as a place. -/
structure LabelsKept (labels : List (Option Nat)) (sublabels : List Int) (defaultIndex : Int)
    (cast : Nat → Int) : Prop where
  length : sublabels.length = labels.length
  value : ∀ i n : Nat, labels[i]? = some (some n) → sublabels[i]? = some (cast n)
  default : ∀ i : Nat, labels[i]? = some none ↔ (i : Int) = defaultIndex

section
variable {labels : List (Option Nat)} {sublabels : List Int} {d x : Int} {cast : Nat → Int} {v : Nat}

/-- The loop stops at the first label that is cast to `x`. -/
theorem findLabel_eq (k : Nat) (hl : sublabels.length = labels.length)
    (hv : ∀ i n : Nat, labels[i]? = some (some n) → sublabels[i]? = some (cast n))
    (hd : ∀ i : Nat, labels[i]? = some none ↔ ((k + i : Nat) : Int) = d) :
    findLabel d x k sublabels =
      (labels.findIdx? fun label => label.any fun n => cast n == x).map (k + ·) := by
  induction labels generalizing k sublabels with
  | nil =>
    obtain rfl : sublabels = [] := List.length_eq_zero_iff.mp hl
    rfl
  | cons label labels ih =>
    cases sublabels with
    | nil => cases hl
    | cons sublabel sublabels =>
      have hrest : findLabel d x (k+1) sublabels =
          (labels.findIdx? fun label => label.any fun n => cast n == x).map (k + 1 + ·) :=
        ih (k+1) (Nat.succ.inj hl) (fun i n h => hv (i+1) n h) fun i => by
          rw [show k + 1 + i = k + (i + 1) by omega, ← hd (i+1)]
          rfl
      have hcons : ((labels.findIdx? fun label => label.any fun n => cast n == x).map (· + 1)).map
          (k + ·) =
          (labels.findIdx? fun label => label.any fun n => cast n == x).map (k + 1 + ·) := by
        rw [Option.map_map]
        congr 1
        funext i
        simp only [Function.comp_apply]
        omega
      rw [findLabel, hrest, List.findIdx?_cons, ← hcons]
      cases label with
      | none =>
        have h0 := (hd 0).mp rfl
        rw [if_neg (fun h => h.1 (by simpa using h0))]
        rfl
      | some n =>
        have hne : (k : Int) ≠ d := fun he => by simpa using (hd 0).mpr (by simpa using he)
        obtain rfl : sublabel = cast n := by simpa using hv 0 n rfl
        by_cases hx : cast n = x
        · rw [if_pos ⟨hne, hx⟩, if_pos (by simpa using hx)]
          rfl
        · rw [if_neg (fun h => hx h.2), if_neg (by simpa using hx)]

theorem LabelsKept.getUnionTag_eq (h : LabelsKept labels sublabels d cast) : getUnionTag sublabels d x =
    (labels.findIdx? fun label => label.any fun n => cast n == x).or (labels.idxOf? none) := by
  have hfind := findLabel_eq (x := x) 0 h.length h.value (by simpa using h.default)
  have hdefault : (if 0 ≤ d then some d.toNat else none) = labels.idxOf? none := by
    cases hi : labels.idxOf? none with
    | none =>
      have hnot := List.idxOf?_eq_none_iff.mp hi
      rw [if_neg]
      intro h0
      refine hnot (List.mem_of_getElem? ((h.default d.toNat).mpr ?_))
      omega
    | some i =>
      obtain ⟨hlt, hat, -⟩ := List.findIdx?_eq_some_iff_getElem.mp hi
      have hi' : (i : Int) = d := by
        refine (h.default i).mp ?_
        rw [List.getElem?_eq_getElem hlt]
        simpa using hat
      rw [if_pos (by omega), ← hi']
      rfl
  rw [getUnionTag, hfind, hdefault]
  simp only [Nat.zero_add, Option.map_id']
  cases labels.findIdx? fun label => label.any fun n => cast n == x <;> rfl

/-- Where only `v` is cast to `x`, the search is for `v`. -/
theorem LabelsKept.getUnionTag_of_iff (h : LabelsKept labels sublabels d cast)
    (hx : ∀ n, some n ∈ labels → (cast n = x ↔ n = v)) :
    getUnionTag sublabels d x = selectArm labels v := by
  rw [h.getUnionTag_eq, selectArm]
  congr 1
  clear h
  induction labels with
  | nil => rfl
  | cons label labels ih =>
    rw [List.findIdx?_cons, List.idxOf?_cons, ih fun n hn => hx n (List.mem_cons_of_mem _ hn)]
    cases label with
    | none => rfl
    | some n =>
      have hn := hx n List.mem_cons_self
      by_cases hv : n = v
      · simp [hv, hv ▸ hn.mpr hv]
      · simp [hv, mt hn.mp hv]

/-- Where no label is cast to `x`, the default is selected. -/
theorem LabelsKept.getUnionTag_of_ne (h : LabelsKept labels sublabels d cast)
    (hx : ∀ n, some n ∈ labels → cast n ≠ x) : getUnionTag sublabels d x = labels.idxOf? none := by
  have hnone : (labels.findIdx? fun label => label.any fun n => cast n == x) = none := by
    rw [List.findIdx?_eq_none_iff]
    intro label hm
    cases label with
    | none => rfl
    | some n => simpa using hx n hm
  rw [h.getUnionTag_eq, hnone]
  rfl

end

/-! ### The discriminator -/

/-- What IDL allows behind `switch`. -/
def TCKind.switches : TCKind → Bool
  | .short | .ushort | .long | .ulong | .longlong | .ulonglong | .char | .wchar | .boolean | .enum =>
      true
  | _ => false

/-- `ORBit_get_union_switch` behind aliases, for a discriminator with the bits `v`; `none` is its
`g_error`. -/
def TCKind.unionSwitch (kind : TCKind) (v : Nat) : Option Int :=
  match kind with
  | .ulong | .long | .enum => some (signed 4 v)
  | .ushort | .short => some (signed 2 v)
  | .char | .boolean | .octet => some v
  | _ => none

section
variable {α : Type}

/-- `tc->subtypes [i]`, or `TC_null`. -/
def armType (null : α) (subtypes : List α) : Option Nat → α
  | some i => subtypes.getD i null
  | none => null

/-- `ORBit_get_union_tag`; `none` is the `g_error` of `ORBit_get_union_switch`. -/
def unionTag (kind : TCKind) (sublabels : List Int) (defaultIndex : Int) (null : α)
    (subtypes : List α) (v : Nat) : Option α :=
  (kind.unionSwitch v).map fun x => armType null subtypes (getUnionTag sublabels defaultIndex x)

/-- The discriminators that `ORBit_get_union_switch` does not widen as the labels are widened. -/
def TCKind.widenedApart (kind : TCKind) (v : Nat) : Bool :=
  match kind with
  | .char => 2^7 ≤ v
  | .ushort => 2^15 ≤ v
  | _ => false

/-- The kinds that `ORBit_get_union_switch` reads. -/
def TCKind.switchRead (kind : TCKind) : Bool :=
  match kind with
  | .ulong | .long | .enum | .ushort | .short | .char | .boolean | .octet => true
  | _ => false

/-- Another type than that of `default` stands behind the label `v`, and is not found. -/
def Missed (kind : TCKind) (labels : List (Option Nat)) (null : α) (subtypes : List α) (v : Nat) :
    Prop :=
  kind.widenedApart v = true ∧ some v ∈ labels ∧
    armType null subtypes (labels.idxOf? (some v)) ≠ armType null subtypes (labels.idxOf? none)

variable {kind : TCKind} {labels : List (Option Nat)} {sublabels : List Int} {d : Int} {null : α}
  {subtypes : List α} {v : Nat}

theorem unionSwitch_isSome (kind : TCKind) (v : Nat) :
    (kind.unionSwitch v).isSome = kind.switchRead := by
  cases kind <;> rfl

theorem signed_eq_iff {w m n : Nat} (hm : m < 256 ^ w) (hn : n < 256 ^ w) :
    signed w m = signed w n ↔ m = n := by
  unfold signed
  constructor
  · intro h
    split at h <;> split at h <;> omega
  · rintro rfl
    rfl

/-- A label and a discriminator are equal as they are widened, where they are widened alike. -/
theorem label_eq_iff {n : Nat} {x : Int} (hs : kind.switches = true)
    (hx : kind.unionSwitch v = some x) (hw : kind.widenedApart v = false)
    (hn : n < 256 ^ kind.sizeof) (hv : v < 256 ^ kind.sizeof) : kind.label n = x ↔ n = v := by
  have h4 (m : Nat) (hm : m < 256 ^ 4) : m % 2^32 = m := Nat.mod_eq_of_lt (by omega)
  cases kind with
  | short =>
    cases hx
    exact signed_eq_iff hn hv
  | long | ulong | enum =>
    cases hx
    simp only [TCKind.sizeof] at hn hv
    simp only [TCKind.label, h4 n hn]
    exact signed_eq_iff hn hv
  | boolean =>
    cases hx
    exact Int.natCast_inj
  | ushort =>
    cases hx
    simp only [TCKind.widenedApart, decide_eq_false_iff_not] at hw
    rw [TCKind.label, signed_of_lt (by omega)]
    exact Int.natCast_inj
  | char =>
    cases hx
    simp only [TCKind.widenedApart, decide_eq_false_iff_not, TCKind.sizeof] at hw hn
    simp only [TCKind.label, signed]
    split <;> omega
  | longlong | ulonglong | wchar => cases hx
  | _ => cases hs

theorem unionSwitch_eq_iff {n : Nat} (hs : kind.switches = true) (hr : kind.switchRead = true)
    (hn : n < 256 ^ kind.sizeof) (hv : v < 256 ^ kind.sizeof) :
    kind.unionSwitch n = kind.unionSwitch v ↔ n = v := by
  cases kind with
  | short | ushort | long | ulong | enum =>
    simp only [TCKind.unionSwitch, Option.some.injEq]
    exact signed_eq_iff hn hv
  | char | boolean =>
    simp only [TCKind.unionSwitch, Option.some.injEq]
    exact Int.natCast_inj
  | longlong | ulonglong | wchar => cases hr
  | _ => cases hs

theorem label_ne {n : Nat} {x : Int} (hx : kind.unionSwitch v = some x)
    (hw : kind.widenedApart v = true) (hv : v < 256 ^ kind.sizeof) (hn : n < 256 ^ kind.sizeof) :
    kind.label n ≠ x := by
  cases kind with
  | ushort =>
    cases hx
    simp only [TCKind.widenedApart, decide_eq_true_eq, TCKind.sizeof] at hw hv
    have hneg := signed_neg (w := 2) hv (by omega)
    simp only [TCKind.label]
    omega
  | char =>
    cases hx
    simp only [TCKind.widenedApart, decide_eq_true_eq, TCKind.sizeof] at hw hn
    simp only [TCKind.label, signed]
    split <;> omega
  | _ => cases hw

/-- With labels that are widened as on the wire, the arm is found if and only if the switch can be
read and its value is not widened otherwise. -/
theorem LabelsKept.unionTag_iff (h : LabelsKept labels sublabels d kind.label) (hs : kind.switches = true)
    (hl : ∀ n, some n ∈ labels → n < 256 ^ kind.sizeof) (hv : v < 256 ^ kind.sizeof) :
    unionTag kind sublabels d null subtypes v = some (armType null subtypes (selectArm labels v)) ↔
      kind.switchRead = true ∧ ¬ Missed kind labels null subtypes v := by
  cases hx : kind.unionSwitch v with
  | none =>
    have hread := unionSwitch_isSome kind v
    rw [hx] at hread
    simp [unionTag, hx, ← hread]
  | some x =>
    have hread := unionSwitch_isSome kind v
    rw [hx] at hread
    simp only [unionTag, hx, Option.map_some, Option.some.injEq, ← hread, Option.isSome_some,
      true_and]
    cases hw : kind.widenedApart v with
    | false =>
      rw [h.getUnionTag_of_iff fun n hn => label_eq_iff hs hx hw (hl n hn) hv]
      simp [Missed, hw]
    | true =>
      rw [h.getUnionTag_of_ne fun n hn => label_ne hx hw hv (hl n hn)]
      simp only [Missed, hw, true_and, not_and, not_not, selectArm]
      cases hi : labels.idxOf? (some v) with
      | none =>
        have hnot := List.idxOf?_eq_none_iff.mp hi
        simp [hnot]
      | some i =>
        have hin : some v ∈ labels := by
          by_contra hnot
          rw [List.idxOf?_eq_none_iff.mpr hnot] at hi
          cases hi
        simp only [hin, forall_const, Option.some_or]
        exact eq_comm

end

/-- `ORBit_get_union_tag` of a union's TypeCode. -/
def CTypeCode.unionTag (tc : CTypeCode) (v : Nat) : Option CTypeCode :=
  tc.discriminator.bind fun discriminator =>
    ORBit2.unionTag discriminator.skipAlias.kind tc.info.sublabels tc.info.defaultIndex
      CTypeCode.null tc.subtypes v

/-! ### Unions of the IDL compiler -/

/-- The kind of a switch type behind its names. -/
def IdlType.switchKind : IdlType → Option TCKind
  | .integer signed type => some (type.kind signed)
  | .char => some .char
  | .wideChar => some .wchar
  | .boolean => some .boolean
  | .enum _ _ => some .enum
  | .typedef (.ident _) type => type.switchKind
  | _ => none

/-- The integers of a kind. -/
def TCKind.holdsInteger (kind : TCKind) (i : Int) : Bool :=
  match kind with
  | .short => -2^15 ≤ i ∧ i < 2^15
  | .ushort => 0 ≤ i ∧ i < 2^16
  | .long => -2^31 ≤ i ∧ i < 2^31
  | .ulong => 0 ≤ i ∧ i < 2^32
  | .longlong => -2^63 ≤ i ∧ i < 2^63
  | .ulonglong => 0 ≤ i ∧ i < 2^64
  | _ => false

/-- The names of enumerators are compared octet by octet. -/
local instance names_lawful : LawfulBEq (List UInt8) := inferInstance

/-- The bits of a label in the switch type; an enumerator is an `int` in C. -/
def Const.value (kind : TCKind) (names : List (List UInt8)) : Const → Option Nat
  | .boolean value => if kind = .boolean then some (if value then 1 else 0) else none
  | .char value => if kind = .char then some value.toNat else none
  | .wideChar value => if kind = .wchar ∧ value < 2^16 then some value else none
  | .integer value => if kind.holdsInteger value then some (unsigned kind.sizeof value) else none
  | .ident str =>
      if kind = .enum ∧ str ∈ names ∧ names.idxOf str < 2^31 then some (names.idxOf str) else none

/-- The labels of a union in IDL that are constants of its switch type, and no more than one
`default`. -/
structure IdlLabels (switch : IdlType) (body : List CaseStmt) (kind : TCKind)
    (labels : List (Option Nat)) : Prop where
  switched : switch.switchKind = some kind
  values : List.Forall₂ (fun label value => label.map (Const.value kind (enumerators switch)) =
    value.map some) (caseLabels body) labels
  default : (caseLabels body).count none ≤ 1

section
variable {kind : TCKind}

theorem switchKind_switches : (switch : IdlType) → switch.switchKind = some kind →
    kind.switches = true
  | .integer signed type, h => by
    cases h
    cases signed <;> cases type <;> rfl
  | .char, h | .wideChar, h | .boolean, h | .enum _ _, h => by
    cases h
    rfl
  | .typedef (.ident _) type, h => switchKind_switches type h
  | .typedef (.array _ _) _, h => nomatch h

theorem staticTypeCode_switchKind (emitted : List UInt8 → Nat) (enclosing : Ident → CTypeCode) :
    (switch : IdlType) → switch.switchKind = some kind →
      (staticTypeCode emitted enclosing switch).skipAlias.kind = kind
  | .integer signed type, h => by
    cases h
    cases signed <;> cases type <;> rfl
  | .char, h | .wideChar, h | .boolean, h | .enum _ _, h => by
    cases h
    rfl
  | .typedef (.ident _) type, h => by
    simp only [staticTypeCode, CTypeCode.skipAlias]
    exact staticTypeCode_switchKind emitted enclosing type h
  | .typedef (.array _ _) _, h => nomatch h

/-- A constant of the switch type is stored as the word of its bits would be. -/
theorem cLabel_eq {switch : IdlType} {c : Const} {n : Nat}
    (h : c.value kind (enumerators switch) = some n) :
    kind ≠ .wchar → kind ≠ .longlong → kind ≠ .ulonglong →
      Const.cLabel switch (some c) = kind.label n := by
  intro hw hl hul
  cases c with
  | boolean value =>
    simp only [Const.value, Option.ite_none_right_eq_some, Option.some.injEq] at h
    obtain ⟨rfl, rfl⟩ := h
    cases value <;> rfl
  | char value =>
    simp only [Const.value, Option.ite_none_right_eq_some, Option.some.injEq] at h
    obtain ⟨rfl, rfl⟩ := h
    rfl
  | wideChar value =>
    simp only [Const.value, Option.ite_none_right_eq_some, Option.some.injEq] at h
    exact absurd h.1.1 hw
  | integer value =>
    simp only [Const.value, Option.ite_none_right_eq_some, Option.some.injEq] at h
    obtain ⟨hin, rfl⟩ := h
    cases kind with
    | short =>
      simp only [TCKind.holdsInteger, decide_eq_true_eq] at hin
      simp only [Const.cLabel, TCKind.label, TCKind.sizeof, signed, unsigned]
      omega
    | ushort =>
      simp only [TCKind.holdsInteger, decide_eq_true_eq] at hin
      simp only [Const.cLabel, TCKind.label, TCKind.sizeof, signed, unsigned]
      omega
    | long | ulong =>
      simp only [TCKind.holdsInteger, decide_eq_true_eq] at hin
      have hlt := unsigned_lt 4 value
      simp only [Const.cLabel, TCKind.label, TCKind.sizeof]
      rw [Nat.mod_eq_of_lt (by omega)]
    | longlong => exact absurd rfl hl
    | ulonglong => exact absurd rfl hul
    | _ => cases hin
  | ident str =>
    simp only [Const.value, Option.ite_none_right_eq_some, Option.some.injEq] at h
    obtain ⟨⟨rfl, hmem, hlt⟩, rfl⟩ := h
    simp only [Const.cLabel, TCKind.label]
    rw [Nat.mod_eq_of_lt (by omega), signed_of_lt (by omega)]

theorem value_lt {names : List (List UInt8)} {c : Const} {n : Nat}
    (h : c.value kind names = some n) : n < 256 ^ kind.sizeof := by
  cases c with
  | boolean value =>
    simp only [Const.value, Option.ite_none_right_eq_some, Option.some.injEq] at h
    obtain ⟨rfl, rfl⟩ := h
    cases value <;> decide
  | char value =>
    simp only [Const.value, Option.ite_none_right_eq_some, Option.some.injEq] at h
    obtain ⟨rfl, rfl⟩ := h
    have hlt := value.toNat_lt
    simp only [TCKind.sizeof]
    omega
  | wideChar value =>
    simp only [Const.value, Option.ite_none_right_eq_some, Option.some.injEq] at h
    obtain ⟨⟨rfl, hlt⟩, rfl⟩ := h
    simp only [TCKind.sizeof]
    omega
  | integer value =>
    simp only [Const.value, Option.ite_none_right_eq_some, Option.some.injEq] at h
    obtain ⟨-, rfl⟩ := h
    exact unsigned_lt _ _
  | ident str =>
    simp only [Const.value, Option.ite_none_right_eq_some, Option.some.injEq] at h
    obtain ⟨⟨rfl, -, hlt⟩, rfl⟩ := h
    simp only [TCKind.sizeof]
    omega

/-- Where there is at most one `default`, `default_index` is its place. -/
theorem defaultIndex_iff {labels : List (Option Const)} (index : Nat) (found : Int)
    (h : labels.count none ≤ 1) :
    (none ∉ labels → defaultIndex index found labels = found) ∧
      ∀ i : Nat, labels[i]? = some none → defaultIndex index found labels = (index + i : Nat) := by
  induction labels generalizing index found with
  | nil => simp [defaultIndex]
  | cons label labels ih =>
    cases label with
    | some c =>
      obtain ⟨hn, hi⟩ := ih (index+1) found (by simpa using h)
      refine ⟨fun hnot => hn (by simpa using hnot), fun i hat => ?_⟩
      cases i with
      | zero => cases hat
      | succ i =>
        rw [defaultIndex, hi i hat]
        congr 1
        omega
    | none =>
      have hnot : none ∉ labels := by
        rw [← List.count_eq_zero]
        simpa using h
      obtain ⟨hn, -⟩ := ih (index+1) index (by rw [List.count_eq_zero.mpr hnot]; omega)
      refine ⟨fun hc => absurd List.mem_cons_self hc, fun i hat => ?_⟩
      cases i with
      | zero => exact hn hnot
      | succ i =>
        have hat : labels[i]? = some none := hat
        exact absurd (List.mem_of_getElem? hat) hnot

theorem defaultIndex_eq {labels : List (Option Const)} (h : labels.count none ≤ 1) (i : Nat) :
    labels[i]? = some none ↔ (i : Int) = defaultIndex 0 (-1) labels := by
  obtain ⟨hnot, hat⟩ := defaultIndex_iff 0 (-1) h
  constructor
  · intro hi
    rw [hat i hi, Nat.zero_add]
  · intro hi
    by_cases hm : none ∈ labels
    · obtain ⟨j, hj⟩ := List.getElem?_of_mem hm
      rw [hat j hj] at hi
      rwa [show i = j by omega]
    · rw [hnot hm] at hi
      omega

end

section
variable {kind : TCKind} {switch : IdlType} {body : List CaseStmt} {labels : List (Option Nat)}

theorem IdlLabels.lt (h : IdlLabels switch body kind labels) {n : Nat} (hn : some n ∈ labels) :
    n < 256 ^ kind.sizeof := by
  obtain ⟨i, hi⟩ := List.getElem?_of_mem hn
  rcases forall₂_getElem? h.values i with ⟨-, hnone⟩ | ⟨label, value, -, hv, hr⟩
  · rw [hi] at hnone
    cases hnone
  · rw [hi] at hv
    cases hv
    cases label with
    | none => cases hr
    | some c => exact value_lt (Option.some.inj hr)

/-- Labels that can be read are stored as the words of a TypeCode on the wire are. -/
theorem IdlLabels.kept (h : IdlLabels switch body kind labels) (hr : kind.switchRead = true) :
    LabelsKept labels ((caseLabels body).map (Const.cLabel switch))
      (defaultIndex 0 (-1) (caseLabels body)) kind.label := by
  have hwide : kind ≠ .wchar ∧ kind ≠ .longlong ∧ kind ≠ .ulonglong := by
    refine ⟨?_, ?_, ?_⟩ <;> rintro rfl <;> cases hr
  have hnone (i : Nat) : (caseLabels body)[i]? = some none ↔ labels[i]? = some none := by
    rcases forall₂_getElem? h.values i with ⟨hc, hv⟩ | ⟨label, value, hc, hv, hrel⟩
    · rw [hc, hv]
      simp
    · rw [hc, hv]
      cases label <;> cases value <;> simp at hrel ⊢
  refine ⟨by rw [List.length_map, h.values.length_eq], fun i n hat => ?_, fun i => ?_⟩
  · rcases forall₂_getElem? h.values i with ⟨-, hv⟩ | ⟨label, value, hc, hv, hrel⟩
    · rw [hat] at hv
      cases hv
    · rw [hat] at hv
      cases hv
      cases label with
      | none => cases hrel
      | some c =>
        rw [List.getElem?_map, hc, Option.map_some,
          cLabel_eq (Option.some.inj hrel) hwide.1 hwide.2.1 hwide.2.2]
  · rw [← hnone, defaultIndex_eq h.default]

/-- Which arm a union of the IDL compiler selects. -/
theorem static_selects_iff (emitted : List UInt8 → Nat) (enclosing : Ident → CTypeCode)
    (ident : Ident) (h : IdlLabels switch body kind labels) {v : Nat}
    (hv : v < 256 ^ kind.sizeof) :
    (staticTypeCode emitted enclosing (.union ident switch body)).unionTag v =
        some (armType CTypeCode.null (staticArms emitted enclosing body) (selectArm labels v)) ↔
      kind.switchRead = true ∧
        ¬ Missed kind labels CTypeCode.null (staticArms emitted enclosing body) v := by
  have hs := switchKind_switches switch h.switched
  have htag : (staticTypeCode emitted enclosing (.union ident switch body)).unionTag v =
      unionTag kind ((caseLabels body).map (Const.cLabel switch))
        (defaultIndex 0 (-1) (caseLabels body)) CTypeCode.null
        (staticArms emitted enclosing body) v := by
    rw [← staticTypeCode_switchKind emitted enclosing switch h.switched, staticTypeCode]
    rfl
  rw [htag]
  cases hr : kind.switchRead with
  | true =>
    rw [(h.kept hr).unionTag_iff hs (fun n hn => h.lt hn) hv, hr]
  | false =>
    have hread := unionSwitch_isSome kind v
    rw [hr, Option.isSome_eq_false_iff, Option.isNone_iff_eq_none] at hread
    simp [unionTag, hread]

end

/-! ### Unions made at run time -/

/-- The label of a member, which is `default` if its any is an octet. -/
def AlignedTypeCode.UnionMember.label (member : UnionMember) : Option Nat :=
  if member.labelType.info.kind = .octet then none else some member.labelValue

/-- Members with labels of the discriminator's type, and no more than one `default`. -/
structure CreatedLabels (discriminatorType : AlignedTypeCode) (members : List UnionMember)
    (kind : TCKind) : Prop where
  switched : discriminatorType.plain.skipAlias.kind = kind
  allowed : kind.switches = true
  label : ∀ member ∈ members, member.labelType.info.kind = .octet ∨
    member.labelType = discriminatorType ∧ member.labelValue < 256 ^ kind.sizeof
  default : (members.map UnionMember.label).count none ≤ 1

section
variable {discriminatorType : AlignedTypeCode} {members : List UnionMember} {kind : TCKind}

theorem skipOneAlias_kind {tc : AlignedTypeCode} (h : tc.skipOneAlias.info.kind ≠ .alias) :
    tc.plain.skipAlias.kind = tc.skipOneAlias.info.kind := by
  have hplain (tc : AlignedTypeCode) : tc.plain.kind = tc.info.kind := by
    cases tc
    rfl
  obtain ⟨info, cAlign, subtypes, discriminator⟩ := tc
  by_cases ha : info.kind = .alias
  · cases subtypes with
    | nil =>
      simp only [AlignedTypeCode.skipOneAlias, ha, AlignedTypeCode.info, ne_eq] at h
      exact absurd trivial h
    | cons tc tcs =>
      simp only [AlignedTypeCode.skipOneAlias, ha] at h ⊢
      simp only [AlignedTypeCode.plain, AlignedTypeCode.allPlain, CTypeCode.skipAlias, ha]
      rw [CTypeCode.skipAlias_of_ne (by rwa [hplain]), hplain]
  · have hself : (AlignedTypeCode.node info cAlign subtypes discriminator).skipOneAlias =
        .node info cAlign subtypes discriminator := by
      simp [AlignedTypeCode.skipOneAlias, ha]
    rw [hself, CTypeCode.skipAlias_of_ne (by rw [hplain]; exact ha), hplain]

theorem copyCaseValue_octet {type : AlignedTypeCode} (h : type.info.kind = .octet) (value : Nat) :
    copyCaseValue type value = some ((value % 2^8 : Nat) : Int) := by
  have hself : type.skipOneAlias = type := by
    cases type
    simp only [AlignedTypeCode.info] at h
    simp [AlignedTypeCode.skipOneAlias, h]
  rw [copyCaseValue, hself, h]

/-- Behind one name at most, a label is copied as the discriminator will be read. -/
theorem copyCaseValue_eq {type : AlignedTypeCode} {value : Nat} (hs : kind.switches = true)
    (hk : type.plain.skipAlias.kind = kind) (hv : value < 256 ^ kind.sizeof) :
    copyCaseValue type value =
      if type.skipOneAlias.info.kind = .alias then none else kind.unionSwitch value := by
  by_cases ha : type.skipOneAlias.info.kind = .alias
  · rw [if_pos ha, copyCaseValue, ha]
  · rw [if_neg ha]
    rw [skipOneAlias_kind ha] at hk
    rw [copyCaseValue, hk]
    cases kind with
    | long | ulong | enum =>
      simp only [TCKind.sizeof] at hv
      simp only [TCKind.unionSwitch]
      rw [Nat.mod_eq_of_lt (by omega)]
    | short | ushort =>
      simp only [TCKind.sizeof] at hv
      simp only [TCKind.unionSwitch]
      rw [Nat.mod_eq_of_lt (by omega)]
    | char | boolean =>
      simp only [TCKind.sizeof] at hv
      simp only [TCKind.unionSwitch]
      rw [Nat.mod_eq_of_lt (by omega)]
    | longlong | ulonglong | wchar => rfl
    | _ => cases hs

theorem defaultIndexFrom_eq (members : List UnionMember) (index : Nat) (found : Int) :
    defaultIndexFrom index found members = defaultIndex index found
      (members.map fun member => member.label.map fun _ => Const.boolean true) := by
  induction members generalizing index found with
  | nil => rfl
  | cons member members ih =>
    rw [defaultIndexFrom, List.map_cons, ih]
    by_cases ho : member.labelType.info.kind = .octet
    · rw [if_pos ho, UnionMember.label, if_pos ho]
      rfl
    · rw [if_neg ho, UnionMember.label, if_neg ho]
      rfl

theorem defaultIndexFrom_iff (h : (members.map UnionMember.label).count none ≤ 1) (i : Nat) :
    (members.map UnionMember.label)[i]? = some none ↔
      (i : Int) = defaultIndexFrom 0 (-1) members := by
  have hconst : (members.map fun member => member.label.map fun _ => Const.boolean true) =
      (members.map UnionMember.label).map fun label => label.map fun _ => Const.boolean true := by
    rw [List.map_map]
    rfl
  have hcount : ((members.map UnionMember.label).map
      fun label => label.map fun _ => Const.boolean true).count none ≤ 1 := by
    refine le_trans (le_of_eq ?_) h
    generalize members.map UnionMember.label = labels
    induction labels with
    | nil => rfl
    | cons label labels ih => cases label <;> simp [ih]
  rw [defaultIndexFrom_eq, hconst, ← defaultIndex_eq hcount]
  simp [List.getElem?_map]

theorem CreatedLabels.lt (h : CreatedLabels discriminatorType members kind) {n : Nat}
    (hn : some n ∈ members.map UnionMember.label) : n < 256 ^ kind.sizeof := by
  obtain ⟨member, hm, hlabel⟩ := List.mem_map.mp hn
  rw [UnionMember.label] at hlabel
  rcases h.label member hm with ho | ⟨-, hlt⟩
  · rw [if_pos ho] at hlabel
    cases hlabel
  · split at hlabel
    · cases hlabel
    · cases hlabel
      exact hlt

/-- The labels are copied, if there is a case for them. -/
theorem CreatedLabels.copied (h : CreatedLabels discriminatorType members kind)
    (hr : kind.switchRead = true) (ha : discriminatorType.skipOneAlias.info.kind ≠ .alias ∨
      ∀ member ∈ members, member.labelType.info.kind = .octet) :
    ∃ sublabels, members.mapM (fun member => copyCaseValue member.labelType member.labelValue) =
        some sublabels ∧
      LabelsKept (members.map UnionMember.label) sublabels (defaultIndexFrom 0 (-1) members)
        fun n => (kind.unionSwitch n).getD 0 := by
  have hcopy : ∀ member ∈ members, ∃ x,
      copyCaseValue member.labelType member.labelValue = some x ∧
        ∀ n, member.label = some n → x = (kind.unionSwitch n).getD 0 := by
    intro member hm
    by_cases ho : member.labelType.info.kind = .octet
    · refine ⟨_, copyCaseValue_octet ho _, fun n hn => ?_⟩
      rw [UnionMember.label, if_pos ho] at hn
      cases hn
    · obtain ⟨htype, hlt⟩ := (h.label member hm).resolve_left ho
      have hone := ha.resolve_right fun hall => ho (hall member hm)
      have hread := unionSwitch_isSome kind member.labelValue
      rw [hr, Option.isSome_iff_exists] at hread
      obtain ⟨x, hx⟩ := hread
      refine ⟨x, ?_, fun n hn => ?_⟩
      · rw [htype, copyCaseValue_eq h.allowed h.switched hlt, if_neg hone, hx]
      · rw [UnionMember.label, if_neg ho] at hn
        cases hn
        rw [hx]
        rfl
  have hmap : ∃ sublabels, members.mapM
      (fun member => copyCaseValue member.labelType member.labelValue) = some sublabels ∧
      List.Forall₂ (fun (member : UnionMember) x =>
        ∀ n, member.label = some n → x = (kind.unionSwitch n).getD 0) members sublabels := by
    clear h ha
    induction members with
    | nil => exact ⟨[], rfl, .nil⟩
    | cons member members ih =>
      obtain ⟨x, hx, hn⟩ := hcopy member List.mem_cons_self
      obtain ⟨xs, hxs, hall⟩ := ih fun member hm => hcopy member (List.mem_cons_of_mem _ hm)
      refine ⟨x :: xs, ?_, .cons hn hall⟩
      rw [List.mapM_cons, hx, hxs]
      rfl
  obtain ⟨sublabels, hs, hall⟩ := hmap
  refine ⟨sublabels, hs, by rw [List.length_map, hall.length_eq], fun i n hat => ?_,
    defaultIndexFrom_iff h.default⟩
  rw [List.getElem?_map] at hat
  rcases forall₂_getElem? hall i with ⟨hnone, -⟩ | ⟨member, x, hm, hx, hrel⟩
  · rw [hnone] at hat
    cases hat
  · rw [hm] at hat
    rw [hx, hrel n (Option.some.inj hat)]

/-- Which arm a union of `CORBA_ORB_create_union_tc` selects. -/
theorem created_selects_iff (id name : List UInt8)
    (h : CreatedLabels discriminatorType members kind) {v : Nat} (hv : v < 256 ^ kind.sizeof) :
    ((createUnionTc id name discriminatorType members).bind fun tc => tc.plain.unionTag v) =
        some (armType CTypeCode.null (AlignedTypeCode.allPlain (members.map (·.type)))
          (selectArm (members.map UnionMember.label) v)) ↔
      kind.switchRead = true ∧ (discriminatorType.skipOneAlias.info.kind ≠ .alias ∨
        ∀ member ∈ members, member.labelType.info.kind = .octet) := by
  have htag (sublabels : List Int)
      (hs : members.mapM (fun member => copyCaseValue member.labelType member.labelValue) =
        some sublabels) :
      ((createUnionTc id name discriminatorType members).bind fun tc => tc.plain.unionTag v) =
        unionTag kind sublabels (defaultIndexFrom 0 (-1) members) CTypeCode.null
          (AlignedTypeCode.allPlain (members.map (·.type))) v := by
    rw [createUnionTc, hs, ← h.switched]
    rfl
  constructor
  · intro hsome
    obtain ⟨sublabels, hs⟩ : ∃ sublabels, members.mapM
        (fun member => copyCaseValue member.labelType member.labelValue) = some sublabels := by
      rw [← Option.isSome_iff_exists]
      by_contra hnone
      rw [Option.not_isSome_iff_eq_none] at hnone
      rw [createUnionTc, hnone] at hsome
      cases hsome
    refine ⟨?_, ?_⟩
    · rw [htag sublabels hs, unionTag] at hsome
      obtain ⟨x, hx, -⟩ := Option.map_eq_some_iff.mp hsome
      rw [← unionSwitch_isSome kind v, hx]
      rfl
    · by_contra hnot
      simp only [not_or, not_not, not_forall] at hnot
      obtain ⟨ha, member, hm, ho⟩ := hnot
      obtain ⟨htype, hlt⟩ := (h.label member hm).resolve_left ho
      have hfail : copyCaseValue member.labelType member.labelValue = none := by
        rw [htype, copyCaseValue_eq h.allowed h.switched hlt, if_pos ha]
      obtain ⟨i, hi⟩ := List.getElem?_of_mem hm
      rcases forall₂_getElem? (forall₂_of_mapM hs) i with ⟨hnone, -⟩ | ⟨_, x, hat, -, hx⟩
      · rw [hi] at hnone
        cases hnone
      · rw [hi] at hat
        cases hat
        rw [hfail] at hx
        cases hx
  · rintro ⟨hr, ha⟩
    obtain ⟨sublabels, hs, hkept⟩ := h.copied hr ha
    have hread := unionSwitch_isSome kind v
    rw [hr, Option.isSome_iff_exists] at hread
    obtain ⟨x, hx⟩ := hread
    rw [htag sublabels hs, unionTag, hx, Option.map_some,
      hkept.getUnionTag_of_iff fun n hn => ?_]
    obtain ⟨y, hy⟩ := Option.isSome_iff_exists.mp ((unionSwitch_isSome kind n).trans hr)
    rw [← unionSwitch_eq_iff h.allowed hr (h.lt hn) hv, hx, hy]
    simp

end

/-! ### Unions on the wire -/

/-- The kind behind aliases. -/
def Decoded.switchKind : Decoded → Option TCKind
  | .null => none
  | .node fields subtypes _ =>
      match fields.kind, subtypes with
      | .alias, tc :: _ => switchKind tc
      | kind, _ => some kind

def Decoded.isAlias : Decoded → Bool
  | .null => false
  | .node fields _ _ => fields.kind = .alias

/-- `ORBit_get_union_tag` of a union that has been read. -/
def Decoded.unionTag (tc : Decoded) (v : Nat) : Option Decoded :=
  match tc with
  | .null => none
  | .node fields subtypes discriminator => do
      let kind ← discriminator.switchKind
      let defaultIndex ← fields.defaultIndex
      ORBit2.unionTag kind fields.sublabels defaultIndex TCKind.null.basicType subtypes v

section
variable (dec : Reading TcState Decoded)

/-- The labels and the types that `n` arms carry, where a label has `w` bytes. -/
def carriedArms (w : Nat) : Nat → Reading TcState (List (Nat × Decoded))
  | 0 => pure []
  | n+1 => do
      let label ← cdrGet w
      let _ ← cdrGetConstString
      let tc ← dec
      let arms ← carriedArms w n
      return (label, tc) :: arms

/-- What the encapsulation of a union carries: its discriminator, the place of `default`, and the
arms, whose labels have the width of the discriminator behind its names. -/
def carriedUnion : Reading TcState (Decoded × Int × List (Nat × Decoded)) := do
  let _ ← cdrGetConstString
  let _ ← cdrGetConstString
  let discriminator ← dec
  let defaultIndex ← cdrGet 4
  let n ← cdrGet 4
  match discriminator.switchKind.bind TCKind.labelWidth with
  | none => Reading.fail
  | some w => do
      let arms ← carriedArms dec w n
      return (discriminator, signed 4 defaultIndex, arms)

end

/-- The labels of the arms; what stands at the place of `default` has no meaning. -/
def carriedLabels (defaultIndex : Int) (arms : List (Nat × Decoded)) : List (Option Nat) :=
  arms.mapIdx fun i arm => if (i : Int) = defaultIndex then none else some arm.1

section
variable {dec : Reading TcState Decoded} {s t : TcState} {kind : TCKind} {discriminator : Decoded}
  {dflt : Int} {arms : List (Nat × Decoded)} {w n v : Nat}

theorem Reading.of_bind_ok {σ α β : Type} {x : Reading σ α} {f : α → Reading σ β} {s t : σ} {b : β}
    (h : (x >>= f) s = .ok b t) : ∃ a u, x s = .ok a u ∧ f a u = .ok b t := by
  cases hx : x s with
  | ok a u => exact ⟨a, u, rfl, by rwa [Reading.bind_ok hx] at h⟩
  | fail u =>
    rw [Reading.bind_fail hx] at h
    cases h
  | crash =>
    rw [Reading.bind_crash hx] at h
    cases h

theorem cdrGet_lt (h : cdrGet w s = .ok n t) : n < 256 ^ w := by
  unfold cdrGet at h
  simp only at h
  split at h
  · cases h
  · rename_i hle
    cases h
    split
    · exact swapWord_lt _ _
    · refine (Endian.join_lt _ _).trans_le (Nat.pow_le_pow_right (by decide) ?_)
      exact List.length_take_le _ _

theorem decField_of {α : Type} {x : Reading TcState α} {a : α} (hx : x s = .ok a t)
    (set : α → Draft → Draft) (d : Draft) : decField x set (d, s) = .ok a (set a d, t) := by
  unfold decField
  simp only [hx]

/-- Arms that are carried are taken over one after the other, with their labels cast. -/
theorem decArms_of_carried (h : carriedArms dec w n s = .ok arms t) (kind : TCKind) (d : Draft) :
    (∃ d', decArms dec kind w n (d, s) = .ok () (d', t) ∧
      d'.fields.sublabels = d.fields.sublabels ++ arms.map (fun arm => kind.label arm.1) ∧
      d'.subtypes = d.subtypes ++ arms.map Prod.snd ∧ d'.discriminator = d.discriminator ∧
      d'.fields.defaultIndex = d.fields.defaultIndex) ∧
      ∀ arm ∈ arms, arm.1 < 256 ^ w := by
  induction n generalizing arms s d with
  | zero =>
    cases h
    exact ⟨⟨d, rfl, by simp, by simp, rfl, rfl⟩, by simp⟩
  | succ n ih =>
    rw [carriedArms] at h
    obtain ⟨label, s₁, hlabel, h⟩ := Reading.of_bind_ok h
    obtain ⟨name, s₂, hname, h⟩ := Reading.of_bind_ok h
    obtain ⟨tc, s₃, htc, h⟩ := Reading.of_bind_ok h
    obtain ⟨rest, s₄, hrest, h⟩ := Reading.of_bind_ok h
    cases h
    have h₁ := decField_of hlabel
      (fun n d => { d with fields :=
        { d.fields with sublabels := d.fields.sublabels ++ [kind.label n] } }) d
    have h₂ := decField_of hname
      (fun x d => { d with fields := { d.fields with subnames := d.fields.subnames ++ [x] } })
      { d with fields := { d.fields with sublabels := d.fields.sublabels ++ [kind.label label] } }
    obtain ⟨⟨d', hrun, hl, hsub, hd, hi⟩, hlt⟩ := ih hrest
      { d with
        fields := { d.fields with
          sublabels := d.fields.sublabels ++ [kind.label label]
          subnames := d.fields.subnames ++ [name] }
        subtypes := d.subtypes ++ [tc] }
    refine ⟨⟨d', ?_, ?_, ?_, hd, hi⟩, ?_⟩
    · rw [decArms]
      refine (Reading.bind_ok h₁).trans ((Reading.bind_ok h₂).trans ?_)
      refine (Reading.bind_ok (decField_of htc _ _)).trans ?_
      exact hrun
    · rw [hl]
      simp
    · rw [hsub]
      simp
    · intro arm hm
      rcases List.mem_cons.mp hm with rfl | hm
      · exact cdrGet_lt hlabel
      · exact hlt arm hm

/-- What `tc_dec_tk_union` makes of a union that is carried. -/
theorem decoder_of_carried (h : carriedUnion dec s = .ok (discriminator, dflt, arms) t) :
    (discriminator.isAlias = true → decoder dec .union (Draft.empty .union, s) = .crash) ∧
      (discriminator.isAlias = false → ∀ kind w, discriminator.switchKind = some kind →
        kind.labelWidth = some w →
        (∃ d, decoder dec .union (Draft.empty .union, s) = .ok () (d, t) ∧
          d.fields.sublabels = arms.map (fun arm => kind.label arm.1) ∧
          d.subtypes = arms.map Prod.snd ∧ d.discriminator = discriminator ∧
          d.fields.defaultIndex = some dflt) ∧
          ∀ arm ∈ arms, arm.1 < 256 ^ w) := by
  obtain ⟨repoId, s₁, h₁, h⟩ := Reading.of_bind_ok h
  obtain ⟨name, s₂, h₂, h⟩ := Reading.of_bind_ok h
  obtain ⟨disc, s₃, h₃, h⟩ := Reading.of_bind_ok h
  obtain ⟨index, s₄, h₄, h⟩ := Reading.of_bind_ok h
  obtain ⟨n, s₅, h₅, h⟩ := Reading.of_bind_ok h
  obtain ⟨d, hl, hsub, hdisc, hdef, hrun⟩ : ∃ d : Draft, d.fields.sublabels = [] ∧
      d.subtypes = [] ∧ d.discriminator = disc ∧ d.fields.defaultIndex = some (signed 4 index) ∧
      decoder dec .union (Draft.empty .union, s) = decUnionMembers dec n disc (d, s₅) := by
    refine ⟨{ (Draft.empty .union) with
      fields := { (Draft.empty .union).fields with
        repoId := repoId
        name := name
        defaultIndex := some (signed 4 index)
        subParts := some n }
      discriminator := disc }, rfl, rfl, rfl, rfl, ?_⟩
    refine (Reading.bind_ok (decField_of h₁ _ _)).trans ?_
    refine (Reading.bind_ok (decField_of h₂ _ _)).trans ?_
    refine (Reading.bind_ok (decField_of h₃ _ _)).trans ?_
    refine (Reading.bind_ok (decField_of h₄ _ _)).trans ?_
    exact Reading.bind_ok (decField_of h₅ _ _)
  rw [hrun]
  cases hw' : disc.switchKind.bind TCKind.labelWidth with
  | none =>
    rw [hw'] at h
    cases h
  | some w' =>
    rw [hw'] at h
    obtain ⟨arms', s₆, h₆, h⟩ := Reading.of_bind_ok h
    cases h
    cases discriminator with
    | null => cases hw'
    | node fields subtypes inner =>
      refine ⟨fun ha => ?_, fun ha kind w hk hw => ?_⟩
      · simp only [Decoded.isAlias, decide_eq_true_eq] at ha
        rw [decUnionMembers, ha]
        rfl
      · simp only [Decoded.isAlias, decide_eq_false_iff_not] at ha
        have hkind : fields.kind = kind := by
          rw [Decoded.switchKind] at hk
          · exact Option.some.inj hk
          · exact fun _ _ hal _ => ha hal
        rw [hk, Option.bind_some, hw] at hw'
        cases hw'
        refine ⟨?_, (decArms_of_carried h₆ kind (Draft.empty .union)).2⟩
        obtain ⟨⟨d', hd, hl', hsub', hdisc', hdef'⟩, -⟩ := decArms_of_carried h₆ kind d
        refine ⟨d', ?_, ?_, ?_, hdisc'.trans hdisc, hdef'.trans hdef⟩
        · rw [decUnionMembers, hkind, hw]
          exact hd
        · rw [hl', hl, List.nil_append]
        · rw [hsub', hsub, List.nil_append]

theorem labelWidth_sizeof (hs : kind.switches = true) :
    kind.labelWidth = some kind.sizeof := by
  cases kind <;> first | rfl | cases hs

theorem carriedLabels_kept (hd : dflt < arms.length) :
    LabelsKept (carriedLabels dflt arms) (arms.map fun arm => kind.label arm.1) dflt kind.label := by
  refine ⟨by simp [carriedLabels], fun i n hat => ?_, fun i => ?_⟩
  · rw [carriedLabels, List.getElem?_mapIdx] at hat
    obtain ⟨arm, harm, hlabel⟩ := Option.map_eq_some_iff.mp hat
    split at hlabel
    · cases hlabel
    · cases hlabel
      rw [List.getElem?_map, harm]
      rfl
  · rw [carriedLabels, List.getElem?_mapIdx]
    constructor
    · intro hat
      obtain ⟨arm, harm, hlabel⟩ := Option.map_eq_some_iff.mp hat
      split at hlabel
      · assumption
      · cases hlabel
    · intro hi
      have hlt : i < arms.length := by omega
      rw [List.getElem?_eq_getElem hlt, Option.map_some, if_pos hi]

/-- Which arm a union selects whose TypeCode has been carried. -/
theorem carried_selects_iff (h : carriedUnion dec s = .ok (discriminator, dflt, arms) t)
    (hk : discriminator.switchKind = some kind) (hs : kind.switches = true)
    (hd : dflt < arms.length) (hv : v < 256 ^ kind.sizeof) :
    (∃ d t', decoder dec .union (Draft.empty .union, s) = .ok () (d, t') ∧
        (Decoded.node d.fields d.subtypes d.discriminator).unionTag v =
          some (armType TCKind.null.basicType (arms.map Prod.snd)
            (selectArm (carriedLabels dflt arms) v))) ↔
      discriminator.isAlias = false ∧ kind.switchRead = true ∧
        ¬ Missed kind (carriedLabels dflt arms) TCKind.null.basicType (arms.map Prod.snd) v := by
  obtain ⟨hcrash, hread⟩ := decoder_of_carried h
  cases ha : discriminator.isAlias with
  | true =>
    rw [hcrash ha]
    simp
  | false =>
    obtain ⟨⟨d, hrun, hl, hsub, hdisc, hdef⟩, hlt⟩ := hread ha kind _ hk (labelWidth_sizeof hs)
    have hlabels : ∀ n, some n ∈ carriedLabels dflt arms → n < 256 ^ kind.sizeof := by
      intro n hn
      obtain ⟨i, hi⟩ := List.getElem?_of_mem hn
      rw [carriedLabels, List.getElem?_mapIdx] at hi
      obtain ⟨arm, harm, hlabel⟩ := Option.map_eq_some_iff.mp hi
      split at hlabel
      · cases hlabel
      · cases hlabel
        exact hlt arm (List.mem_of_getElem? harm)
    have htag : (Decoded.node d.fields d.subtypes d.discriminator).unionTag v =
        unionTag kind (arms.map fun arm => kind.label arm.1) dflt TCKind.null.basicType
          (arms.map Prod.snd) v := by
      rw [Decoded.unionTag, hdisc, hk, hdef, hl, hsub]
      rfl
    have hkept : LabelsKept (carriedLabels dflt arms) (arms.map fun arm => kind.label arm.1) dflt
        kind.label := carriedLabels_kept hd
    rw [← hkept.unionTag_iff hs hlabels hv, hrun]
    constructor
    · rintro ⟨d', t', hd', htag'⟩
      cases hd'
      exact ⟨rfl, htag.symm.trans htag'⟩
    · rintro ⟨-, hsome⟩
      exact ⟨d, t, rfl, htag.trans hsome⟩

end

/-- A union selects the arm of its discriminator, else the default, else none, under the following
condition on its maker, its switch type and the value. -/
theorem union_arm_selected_iff (kind : TCKind) (v : Nat) :
    (∀ (emitted : List UInt8 → Nat) (enclosing : Ident → CTypeCode) (ident : Ident)
      (switch : IdlType) (body : List CaseStmt) (labels : List (Option Nat)),
      IdlLabels switch body kind labels → v < 256 ^ kind.sizeof →
      ((staticTypeCode emitted enclosing (.union ident switch body)).unionTag v =
          some (armType CTypeCode.null (staticArms emitted enclosing body) (selectArm labels v)) ↔
        kind.switchRead = true ∧
          ¬ Missed kind labels CTypeCode.null (staticArms emitted enclosing body) v)) ∧
    (∀ (id name : List UInt8) (discriminatorType : AlignedTypeCode) (members : List UnionMember),
      CreatedLabels discriminatorType members kind → v < 256 ^ kind.sizeof →
      (((createUnionTc id name discriminatorType members).bind fun tc => tc.plain.unionTag v) =
          some (armType CTypeCode.null (AlignedTypeCode.allPlain (members.map (·.type)))
            (selectArm (members.map UnionMember.label) v)) ↔
        kind.switchRead = true ∧ (discriminatorType.skipOneAlias.info.kind ≠ .alias ∨
          ∀ member ∈ members, member.labelType.info.kind = .octet))) ∧
    (∀ (dec : Reading TcState Decoded) (s t : TcState) (discriminator : Decoded) (dflt : Int)
      (arms : List (Nat × Decoded)),
      carriedUnion dec s = .ok (discriminator, dflt, arms) t →
      discriminator.switchKind = some kind → kind.switches = true → dflt < arms.length →
      v < 256 ^ kind.sizeof →
      ((∃ d t', decoder dec .union (Draft.empty .union, s) = .ok () (d, t') ∧
          (Decoded.node d.fields d.subtypes d.discriminator).unionTag v =
            some (armType TCKind.null.basicType (arms.map Prod.snd)
              (selectArm (carriedLabels dflt arms) v))) ↔
        discriminator.isAlias = false ∧ kind.switchRead = true ∧
          ¬ Missed kind (carriedLabels dflt arms) TCKind.null.basicType (arms.map Prod.snd) v)) :=
  ⟨fun emitted enclosing ident _ _ _ h hv => static_selects_iff emitted enclosing ident h hv,
    fun id name _ _ h hv => created_selects_iff id name h hv,
    fun _ _ _ _ _ _ h hk hs hd hv => carried_selects_iff h hk hs hd hv⟩

/-- `case 1: long low; case 40000: short high;` behind `switch (unsigned short)`. -/
def shortArms : List CaseStmt :=
  [.mk (some (.integer 1)) [] (.integer true .long) (.ident ⟨[108], [108], [108]⟩),
    .mk (some (.integer 40000)) [] (.integer true .short) (.ident ⟨[104], [104], [104]⟩)]

def shortMembers : List UnionMember :=
  [⟨[108], AlignedTypeCode.staticTc .ushort "unsigned_short", 1,
      AlignedTypeCode.staticTc .long "long"⟩,
    ⟨[104], AlignedTypeCode.staticTc .ushort "unsigned_short", 40000,
      AlignedTypeCode.staticTc .short "short"⟩]

/-- The same union in an encapsulation: no names, the switch type, no default, two arms. -/
def shortUnion : TcState :=
  ⟨⟨0, [1, 0, 0, 0, 0, 0, 0, 0, 1, 0, 0, 0, 0, 0, 0, 0, 4, 0, 0, 0, 255, 255, 255, 255, 2, 0, 0, 0,
      1, 0, 0, 0, 1, 0, 0, 0, 0, 0, 0, 0, 3, 0, 0, 0, 64, 156, 0, 0, 1, 0, 0, 0, 0, 0, 0, 0,
      2, 0, 0, 0], 0, .little, .little⟩, [], 0⟩

/-- The kinds and the numbers in what has been carried. -/
def carriedKinds : Outcome TcState (Decoded × Int × List (Nat × Decoded)) →
    List (Option TCKind) × List Int × List Bool
  | .ok (discriminator, dflt, arms) _ =>
      (discriminator.switchKind :: arms.map fun arm => arm.2.switchKind,
        dflt :: arms.map fun arm => (arm.1 : Int), [discriminator.isAlias])
  | _ => ([], [], [])

theorem carried_of_kinds {o : Outcome TcState (Decoded × Int × List (Nat × Decoded))}
    {kind low high : TCKind} {i : Int} {m n : Nat} (h : carriedKinds o =
      ([some kind, some low, some high], [i, (m : Int), (n : Int)], [false])) :
    ∃ discriminator tc tc' t, o = .ok (discriminator, i, [(m, tc), (n, tc')]) t ∧
      discriminator.switchKind = some kind ∧ discriminator.isAlias = false ∧
      tc.switchKind = some low := by
  cases o with
  | fail t | crash => cases h
  | ok r t =>
    obtain ⟨discriminator, dflt, arms⟩ := r
    simp only [carriedKinds, Prod.mk.injEq, List.cons.injEq, and_true] at h
    obtain ⟨⟨hk, hkinds⟩, ⟨rfl, hlabels⟩, halias⟩ := h
    match arms with
    | [] | [_] | _ :: _ :: _ :: _ => simp at hkinds
    | [(label, tc), (label', tc')] =>
      simp only [List.map_cons, List.map_nil, List.cons.injEq, Int.natCast_inj, and_true] at hlabels
      obtain ⟨rfl, rfl⟩ := hlabels
      simp only [List.map_cons, List.cons.injEq] at hkinds
      exact ⟨discriminator, tc, tc', t, rfl, hk, halias, hkinds.1⟩

theorem shortUnion_carried : carriedKinds (carriedUnion (tcDec 1) shortUnion) =
    ([some .ushort, some .long, some .short], [-1, 1, 40000], [false]) := by
  decide_cbv

theorem shortArms_labels :
    IdlLabels (.integer false .short) shortArms .ushort [some 1, some 40000] := by
  refine ⟨rfl, ?_, by decide⟩
  exact .cons rfl (.cons rfl .nil)

theorem shortMembers_labels :
    CreatedLabels (AlignedTypeCode.staticTc .ushort "unsigned_short") shortMembers .ushort := by
  refine ⟨rfl, rfl, ?_, by decide⟩
  intro member hm
  simp only [shortMembers, List.mem_cons, List.not_mem_nil, or_false] at hm
  rcases hm with rfl | rfl
  · exact Or.inr ⟨rfl, by decide⟩
  · exact Or.inr ⟨rfl, by decide⟩

/-- All three find the arm of 1; only the one made at run time finds the arm of 40000. -/
theorem shortUnion_selected :
    (staticTypeCode (fun _ => 0) (fun _ => CTypeCode.null)
        (.union ⟨[], [], []⟩ (.integer false .short) shortArms)).unionTag 1 =
      some (basicTypeCode .long "long") ∧
    ((createUnionTc [] [] (AlignedTypeCode.staticTc .ushort "unsigned_short") shortMembers).bind
        fun tc => tc.plain.unionTag 40000) =
      some (AlignedTypeCode.staticTc .short "short").plain ∧
    ∃ d t, decoder (tcDec 1) .union (Draft.empty .union, shortUnion) = .ok () (d, t) ∧
      ((Decoded.node d.fields d.subtypes d.discriminator).unionTag 1).bind Decoded.switchKind =
        some .long := by
  obtain ⟨hstatic, -, hcarried⟩ := union_arm_selected_iff .ushort 1
  obtain ⟨-, hcreated, -⟩ := union_arm_selected_iff .ushort 40000
  refine ⟨?_, ?_, ?_⟩
  · refine (hstatic (fun _ => 0) (fun _ => CTypeCode.null) ⟨[], [], []⟩ _ _ _
      shortArms_labels (by decide)).mpr ⟨rfl, fun hm => ?_⟩
    cases hm.1
  · exact (hcreated [] [] _ _ shortMembers_labels (by decide)).mpr
      ⟨rfl, Or.inl (by decide)⟩
  · obtain ⟨discriminator, tc, tc', t, hc, hk, halias, hlong⟩ :=
      carried_of_kinds (m := 1) (n := 40000) shortUnion_carried
    obtain ⟨d, t', hrun, htag⟩ := (hcarried (tcDec 1) shortUnion t discriminator (-1)
      [(1, tc), (40000, tc')] hc hk rfl (show (-1 : Int) < 2 by decide) (by decide)).mpr
      ⟨halias, rfl, fun hm => nomatch hm.1⟩
    refine ⟨d, t', hrun, ?_⟩
    rw [htag]
    exact hlong

/-- The label 40000 of the compiler's union is not found: the discriminator is read as a negative
number. -/
theorem shortUnion_missed :
    ¬ ∀ (emitted : List UInt8 → Nat) (enclosing : Ident → CTypeCode) (ident : Ident)
      (switch : IdlType) (body : List CaseStmt) (kind : TCKind) (labels : List (Option Nat))
      (v : Nat), IdlLabels switch body kind labels → v < 256 ^ kind.sizeof →
      (staticTypeCode emitted enclosing (.union ident switch body)).unionTag v =
        some (armType CTypeCode.null (staticArms emitted enclosing body) (selectArm labels v)) := by
  intro h
  have hshort := h (fun _ => 0) (fun _ => CTypeCode.null) ⟨[], [], []⟩ _ _ _ _ 40000
    shortArms_labels (by decide)
  have hkind := congrArg (Option.map CTypeCode.kind) hshort
  exact absurd hkind (by decide)

end ORBit2
