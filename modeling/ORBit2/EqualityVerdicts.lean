import ORBit2.DeepEquality
import ORBit2.LayoutAgreement

/-! The answer of `ORBit_value_equivalent` is the verdict over the pairs it comes to, and when
that verdict is structural equality. -/

set_option autoImplicit false

namespace ORBit2
open Words

namespace CTypeCode

/-- What two TypeCodes with the same core have in common. -/
structure Alike (tc tc' : CTypeCode) : Prop where
  kind : tc.kind = tc'.kind
  subtypes : hasParts tc.kind = true → tc.subtypes.map core = tc'.subtypes.map core
  element : hasParts tc.kind = true → tc.element.core = tc'.element.core
  length : tc.kind = .array → tc.info.length = tc'.info.length
  discriminator : tc.kind = .union → tc.discriminator.map core = tc'.discriminator.map core
  arm : tc.kind = .union → ∀ switch, (tc.arm switch).core = (tc'.arm switch).core
  bodyOffset : tc.kind = .union → tc.bodyOffset = tc'.bodyOffset

theorem alike_skipAlias {tc tc' : CTypeCode} (h : tc.core = tc'.core) :
    Alike tc.skipAlias tc'.skipAlias := by
  have hc : tc.skipAlias.core = tc'.skipAlias.core := by
    rw [← core_skipAlias, ← core_skipAlias, h]
  generalize tc.skipAlias = t at hc ⊢
  generalize tc'.skipAlias = t' at hc ⊢
  have hk : t.kind = t'.kind := by rw [← core_kind t, hc, core_kind]
  constructor
  case kind => exact hk
  case subtypes =>
    intro hp
    rw [← core_subtypes hp, hc, core_subtypes (hk ▸ hp)]
  case element =>
    intro hp
    rw [← element_core hp, hc, element_core (hk ▸ hp)]
  case length =>
    intro ha
    have ha' : t'.info.kind = .array := hk.symm.trans ha
    have hl := congrArg (fun tc => tc.info.length) hc
    simpa [coreInfo, show t.info.kind = .array from ha, ha'] using hl
  case discriminator =>
    intro hu
    rw [← core_discriminator hu, hc, core_discriminator (hk ▸ hu)]
  case arm =>
    intro hu switch
    rw [← arm_core hu, hc, arm_core (hk ▸ hu)]
  case bodyOffset =>
    intro hu
    rw [← bodyOffset_core hu, hc, bodyOffset_core (hk ▸ hu)]

theorem gatherAllocInfo_congr {tc tc' : CTypeCode} (h : tc.core = tc'.core) :
    tc.gatherAllocInfo = tc'.gatherAllocInfo := by
  rw [← gatherAllocInfo_core, h, gatherAllocInfo_core]

theorem findCAlignment_congr {tc tc' : CTypeCode} (h : tc.core = tc'.core) :
    tc.findCAlignment = tc'.findCAlignment := by
  rw [← findCAlignment_core, h, findCAlignment_core]

end CTypeCode

namespace Memory
variable {mem : Memory}

mutual

/-- TypeCodes that are equal have the same values. -/
theorem holds_core : (v : Content) → ∀ ⦃tc tc' : CTypeCode⦄ ⦃a : Nat⦄, tc.core = tc'.core →
    mem.holds tc a v → mem.holds tc' a v
  | .number _ => by
    intro tc tc' a hc h
    rw [holds] at h ⊢
    rwa [← (CTypeCode.alike_skipAlias hc).kind]
  | .boolean _ => by
    intro tc tc' a hc h
    rw [holds] at h ⊢
    rwa [← (CTypeCode.alike_skipAlias hc).kind]
  | .string _ => by
    intro tc tc' a hc h
    rw [holds] at h ⊢
    rwa [← (CTypeCode.alike_skipAlias hc).kind]
  | .wstring _ => by
    intro tc tc' a hc h
    rw [holds] at h ⊢
    rwa [← (CTypeCode.alike_skipAlias hc).kind]
  | .object _ => by
    intro tc tc' a hc h
    rw [holds] at h ⊢
    rwa [← (CTypeCode.alike_skipAlias hc).kind]
  | .typeCode _ => by
    intro tc tc' a hc h
    rw [holds] at h ⊢
    rwa [← (CTypeCode.alike_skipAlias hc).kind]
  | .any _ _ => by
    intro tc tc' a hc h
    rw [holds] at h ⊢
    rwa [← (CTypeCode.alike_skipAlias hc).kind]
  | .record members => by
    intro tc tc' a hc h
    have al := CTypeCode.alike_skipAlias hc
    rw [holds] at h ⊢
    refine ⟨al.kind ▸ h.1, holdsAll_core members (al.subtypes ?_) h.2⟩
    rcases h.1 with hk | hk <;> rw [hk] <;> rfl
  | .union discriminator arm body => by
    intro tc tc' a hc h
    have al := CTypeCode.alike_skipAlias hc
    rw [holds] at h ⊢
    obtain ⟨hk, d, hd, hh, harm, hwf, hb⟩ := h
    have hm := al.discriminator hk
    rw [hd] at hm
    obtain ⟨d', hd', hcc⟩ := Option.map_eq_some_iff.1 hm.symm
    refine ⟨al.kind ▸ hk, d', hd', holds_core discriminator hcc.symm hh, ?_, hwf, ?_⟩
    · rw [harm, al.arm hk, (CTypeCode.alike_skipAlias hcc).kind]
    · rwa [← al.bodyOffset hk]
  | .seq elements => by
    intro tc tc' a hc h
    have al := CTypeCode.alike_skipAlias hc
    rw [holds] at h ⊢
    rcases h with ⟨hk, hl, he⟩ | ⟨hk, hl, he⟩
    · have hp : CTypeCode.hasParts tc.skipAlias.kind = true := by rw [hk]; rfl
      exact .inl ⟨al.kind ▸ hk, hl, holdsEach_core elements (al.element hp) he⟩
    · have hp : CTypeCode.hasParts tc.skipAlias.kind = true := by rw [hk]; rfl
      exact .inr ⟨al.kind ▸ hk, al.length hk ▸ hl, holdsEach_core elements (al.element hp) he⟩

theorem holdsAll_core : (vs : List Content) → ∀ ⦃tcs tcs' : List CTypeCode⦄ ⦃a offset : Nat⦄,
    tcs.map CTypeCode.core = tcs'.map CTypeCode.core → mem.holdsAll tcs a offset vs →
    mem.holdsAll tcs' a offset vs
  | [] => by
    intro tcs tcs' a offset hc h
    rw [holdsAll] at h ⊢
    subst h
    simpa using hc.symm
  | v :: vs => by
    intro tcs tcs' a offset hc h
    cases tcs with
    | nil => exact absurd h id
    | cons tc tcs =>
      cases tcs' with
      | nil => simp at hc
      | cons tc' tcs' =>
        rw [holdsAll] at h ⊢
        obtain ⟨hcc, hcs⟩ := List.cons.inj hc
        rw [← CTypeCode.findCAlignment_congr hcc, ← CTypeCode.gatherAllocInfo_congr hcc]
        exact ⟨holds_core v hcc h.1, holdsAll_core vs hcs h.2⟩

theorem holdsEach_core : (vs : List Content) → ∀ ⦃tc tc' : CTypeCode⦄ ⦃a : Nat⦄,
    tc.core = tc'.core → mem.holdsEach tc a vs → mem.holdsEach tc' a vs
  | [] => by
    intro tc tc' a _ _
    trivial
  | v :: vs => by
    intro tc tc' a hc h
    rw [holdsEach] at h ⊢
    rw [← CTypeCode.gatherAllocInfo_congr hc]
    exact ⟨holds_core v hc h.1, holdsEach_core vs hc h.2⟩

end

theorem strcmpEqual_eq {p q steps : Nat} {s t : List UInt8} (hs : mem.hasString p s)
    (ht : mem.hasString q t) (hn : s.length < steps) :
    mem.strcmpEqual steps p q = (s == t) := by
  obtain ⟨hs, hsz, -⟩ := hs
  obtain ⟨ht, htz, -⟩ := ht
  induction s generalizing t p q steps with
  | nil =>
    obtain ⟨steps, rfl⟩ := Nat.exists_eq_add_one.2 (show 0 < steps by omega)
    simp only [List.length_nil, bytes, List.nil_append, List.cons.injEq, and_true] at hs
    cases t with
    | nil =>
      simp only [List.length_nil, bytes, List.nil_append, List.cons.injEq, and_true] at ht
      simp [strcmpEqual, hs, ht]
    | cons d t =>
      simp only [List.length_cons, bytes, List.cons_append, List.cons.injEq] at ht
      have hd : d ≠ 0 := htz d List.mem_cons_self
      simp [strcmpEqual, hs, ht.1, hd.symm]
  | cons c s ih =>
    obtain ⟨steps, rfl⟩ := Nat.exists_eq_add_one.2 (show 0 < steps by omega)
    simp only [List.length_cons, bytes, List.cons_append, List.cons.injEq] at hs
    have hc : c ≠ 0 := hsz c List.mem_cons_self
    cases t with
    | nil =>
      simp only [List.length_nil, bytes, List.nil_append, List.cons.injEq, and_true] at ht
      simp [strcmpEqual, hs.1, ht, hc]
    | cons d t =>
      simp only [List.length_cons, bytes, List.cons_append, List.cons.injEq] at ht
      by_cases hcd : c = d
      · subst hcd
        have hrec := ih (t := t) (by simpa using hn) hs.2
          (fun x hx => hsz x (List.mem_cons_of_mem _ hx)) ht.2
          (fun x hx => htz x (List.mem_cons_of_mem _ hx))
        simp [strcmpEqual, hs.1, ht.1, hc, hrec]
      · simp [strcmpEqual, hs.1, ht.1, hcd]

section
variable {floatEqual : List UInt8 → List UInt8 → Bool}

theorem valueEquivalent_skipAlias (a b : Nat) : (tc : CTypeCode) → tc.wellFormed = true →
    mem.valueEquivalent floatEqual tc a b = mem.valueEquivalent floatEqual tc.skipAlias a b
  | .node info [] discriminator, h => by
    by_cases hk : info.kind = .alias
    · have h1 := (CTypeCode.wellFormed_node h).2.2.2 (by simp [hk])
      simp at h1
    · have hk' : (CTypeCode.node info [] discriminator).kind ≠ .alias := hk
      rw [CTypeCode.skipAlias_of_ne hk']
  | .node info (sub :: subtypes) discriminator, h => by
    by_cases hk : info.kind = .alias
    · have ih := valueEquivalent_skipAlias a b sub
        (CTypeCode.wellFormed_subtype h List.mem_cons_self)
      simp only [valueEquivalent, hk, equivalentHead, CTypeCode.skipAlias]
      exact ih
    · have hk' : (CTypeCode.node info (sub :: subtypes) discriminator).kind ≠ .alias := hk
      rw [CTypeCode.skipAlias_of_ne hk']

/-- The element of a sequence or an array is its only part. -/
theorem equivalentHead_element {tc : CTypeCode} (h : tc.wellFormed = true)
    (hk : tc.kind = .sequence ∨ tc.kind = .array) (a b : Nat) :
    mem.equivalentHead floatEqual tc.subtypes a b =
      mem.valueEquivalent floatEqual tc.element a b := by
  cases tc with
  | node info subtypes discriminator =>
    have h1 : subtypes.length = 1 := (CTypeCode.wellFormed_node h).2.2.2 (by
      rcases hk with hk | hk
      · exact .inl hk
      · exact .inr (.inl hk))
    obtain ⟨tc, rfl⟩ := List.length_eq_one_iff.1 h1
    rw [CTypeCode.subtypes, equivalentHead]
    rfl

theorem valueEquivalent_record {tc : CTypeCode} (hk : tc.kind = .struct ∨ tc.kind = .except)
    (a b : Nat) :
    mem.valueEquivalent floatEqual tc a b =
      (mem.equivalentMembers floatEqual a b tc.subtypes 0).andThen fun a' b' =>
        .same (a + alignUp (a'-a) (CTypeCode.widestAlignment tc.subtypes))
          (b + alignUp (b'-b) (CTypeCode.widestAlignment tc.subtypes)) := by
  cases tc with
  | node info subtypes discriminator =>
    have hk' : info.kind = .struct ∨ info.kind = .except := hk
    rcases hk' with hk | hk <;> simp only [valueEquivalent, hk, CTypeCode.subtypes]

theorem valueEquivalent_sequence {tc : CTypeCode} (h : tc.wellFormed = true)
    (hk : tc.kind = .sequence) (a b : Nat) :
    mem.valueEquivalent floatEqual tc a b =
      if mem.word (a+4) 4 ≠ mem.word (b+4) 4 then .differ
      else
        (equivalentLoop (mem.valueEquivalent floatEqual tc.element) (mem.word (a+4) 4) 0
          (mem.pointer (a+8)) (mem.pointer (b+8))).andThen fun _ _ => .same (a+24) (b+24) := by
  have he : (fun x y => mem.equivalentHead floatEqual tc.subtypes x y) =
      mem.valueEquivalent floatEqual tc.element := by
    funext x y
    exact equivalentHead_element h (.inl hk) x y
  rw [← he]
  cases tc with
  | node info subtypes discriminator =>
    have hk' : info.kind = .sequence := hk
    simp only [valueEquivalent, hk', CTypeCode.subtypes]

theorem valueEquivalent_array {tc : CTypeCode} (h : tc.wellFormed = true)
    (hk : tc.kind = .array) (a b : Nat) :
    mem.valueEquivalent floatEqual tc a b =
      equivalentLoop (mem.valueEquivalent floatEqual tc.element) tc.info.length 0 a b := by
  have he : (fun x y => mem.equivalentHead floatEqual tc.subtypes x y) =
      mem.valueEquivalent floatEqual tc.element := by
    funext x y
    exact equivalentHead_element h (.inr hk) x y
  rw [← he]
  cases tc with
  | node info subtypes discriminator =>
    have hk' : info.kind = .array := hk
    simp only [valueEquivalent, hk', CTypeCode.subtypes, CTypeCode.info]

/-- The chosen arm is compared as its TypeCode says; `TC_null` has nothing to compare. -/
theorem equivalentArm_eq (tcs : List CTypeCode) (i a b : Nat) :
    mem.equivalentArm floatEqual tcs (some i) a b =
      mem.valueEquivalent floatEqual (tcs.getD i CTypeCode.null) a b := by
  induction tcs generalizing i with
  | nil => simp [equivalentArm, CTypeCode.null, CTypeCode.basic, valueEquivalent]
  | cons tc tcs ih =>
    cases i with
    | zero => simp [equivalentArm]
    | succ i => rw [equivalentArm, ih, List.getD_cons_succ]

theorem equivalentArm_arm (tc : CTypeCode) (switch : Int) (a b : Nat) :
    mem.equivalentArm floatEqual tc.subtypes
        (getUnionTag tc.info.sublabels tc.info.defaultIndex switch) a b =
      mem.valueEquivalent floatEqual (tc.arm switch) a b := by
  rw [CTypeCode.arm]
  cases getUnionTag tc.info.sublabels tc.info.defaultIndex switch with
  | none =>
    cases tc.subtypes <;> simp [equivalentArm, CTypeCode.null, CTypeCode.basic, valueEquivalent]
  | some i => exact equivalentArm_eq _ _ _ _

theorem valueEquivalent_union {tc d : CTypeCode} (hk : tc.kind = .union)
    (hd : tc.discriminator = some d) (a b : Nat) :
    mem.valueEquivalent floatEqual tc a b =
      match mem.unionSwitch d a, mem.unionSwitch d b with
      | some switch, some switch' =>
          match (tc.arm switch).equal (tc.arm switch') with
          | none => .lost
          | some false => .differ
          | some true =>
              (mem.valueEquivalent floatEqual d a b).andThen fun _ _ =>
                (mem.valueEquivalent floatEqual (tc.arm switch) (a + tc.bodyOffset)
                  (b + tc.bodyOffset)).andThen fun _ _ =>
                    .same (a + tc.gatherAllocInfo) (b + tc.gatherAllocInfo)
      | _, _ => .lost := by
  have hg : alignUp tc.gatherAllocInfo tc.findCAlignment = tc.gatherAllocInfo :=
    alignUp_eq_of_dvd tc.findCAlignment_pos (CTypeCode.findCAlignment_dvd_gather tc)
  rw [← hg]
  simp only [← equivalentArm_arm]
  cases tc with
  | node info subtypes discriminator =>
    have hk' : info.kind = .union := hk
    have hd' : discriminator = some d := hd
    subst hd'
    simp only [valueEquivalent, hk', CTypeCode.subtypes, CTypeCode.info] <;> rfl

theorem valueEquivalent_number {tc : CTypeCode} (hk : tc.kind.isNumber = true) (a b : Nat) :
    mem.valueEquivalent floatEqual tc a b =
      if mem.bytes a tc.kind.sizeof = mem.bytes b tc.kind.sizeof then
        .same (a + tc.kind.sizeof) (b + tc.kind.sizeof)
      else .differ := by
  cases tc with
  | node info subtypes discriminator =>
    have hk' : info.kind.isNumber = true := hk
    show mem.valueEquivalent floatEqual (.node info subtypes discriminator) a b =
      if mem.bytes a info.kind.sizeof = mem.bytes b info.kind.sizeof then
        .same (a + info.kind.sizeof) (b + info.kind.sizeof)
      else .differ
    cases h : info.kind <;>
      simp_all [valueEquivalent, alignCompare, TCKind.sizeof, TCKind.isNumber, bytes]

end
end Memory

namespace Comparison

theorem judge_plain (same : Bool) : judge [.plain same] = some same := by
  cases same <;> rfl

theorem judge_append (cs ds : List Comparison) :
    judge (cs ++ ds) = if judge cs = some true then judge ds else judge cs := by
  induction cs with
  | nil => rfl
  | cons c cs ih =>
    cases c with
    | plain same => cases same <;> simp [judge, ih]
    | wide same => simp [judge]
    | slots together same => cases together <;> simp [judge, ih]
    | lost same => simp [judge]

end Comparison

/-- What the code returns, with the pointers as they are left behind equal values. -/
def Compared.of (answer : Option Bool) (a b : Nat) : Compared :=
  match answer with
  | some true => .same a b
  | some false => .differ
  | none => .lost

theorem Compared.of_andThen {cs ds : List Comparison} {a b a' b' : Nat}
    {k : Nat → Nat → Compared} (h : k a b = .of (Comparison.judge ds) a' b') :
    (Compared.of (Comparison.judge cs) a b).andThen k =
      .of (Comparison.judge (cs ++ ds)) a' b' := by
  rw [Comparison.judge_append]
  rcases hc : Comparison.judge cs with _ | _ | _
  · rfl
  · rfl
  · simpa [of, andThen] using h

theorem Compared.of_andThen_same {cs : List Comparison} {a b a' b' : Nat}
    {k : Nat → Nat → Compared} (h : k a b = .same a' b') :
    (Compared.of (Comparison.judge cs) a b).andThen k = .of (Comparison.judge cs) a' b' := by
  rw [← List.append_nil cs]
  conv_lhs => rw [List.append_nil]
  exact Compared.of_andThen h

/-- The ten forms of a value. -/
inductive Form where
  | number | boolean | string | wstring | object | typeCode | any | record | union | seq

def Content.form : Content → Form
  | .number _ => .number
  | .boolean _ => .boolean
  | .string _ => .string
  | .wstring _ => .wstring
  | .object _ => .object
  | .typeCode _ => .typeCode
  | .any _ _ => .any
  | .record _ => .record
  | .union _ _ _ => .union
  | .seq _ => .seq

def TCKind.form : TCKind → Option Form
  | .boolean => some .boolean
  | .string => some .string
  | .wstring => some .wstring
  | .objref => some .object
  | .typeCode => some .typeCode
  | .any => some .any
  | .struct | .except => some .record
  | .union => some .union
  | .sequence | .array => some .seq
  | kind => if kind.isNumber then some .number else none

namespace Memory
variable {mem : Memory} {floatEqual : List UInt8 → List UInt8 → Bool}

theorem holds_form {tc : CTypeCode} {a : Nat} {v : Content} (h : mem.holds tc a v) :
    tc.skipAlias.kind.form = some v.form := by
  cases v <;> rw [holds] at h
  case number =>
    obtain ⟨hk, -⟩ := h
    cases hkind : tc.skipAlias.kind <;> simp_all [TCKind.form, TCKind.isNumber, Content.form]
  case record => rcases h.1 with hk | hk <;> rw [hk] <;> rfl
  case seq => rcases h with ⟨hk, -⟩ | ⟨hk, -⟩ <;> rw [hk] <;> rfl
  all_goals rw [h.1]; rfl

/-- Two values of one TypeCode have one form. -/
theorem form_eq {tc : CTypeCode} {a b : Nat} {v v' : Content} (h : mem.holds tc a v)
    (h' : mem.holds tc b v') : v.form = v'.form := by
  have hs := (holds_form h).symm.trans (holds_form h')
  exact Option.some.inj hs

mutual

/-- One call answers what the verdict over its pairs is. -/
theorem valueEquivalent_eq_judge : (v : Content) → ∀ ⦃tc : CTypeCode⦄ ⦃a b : Nat⦄
    ⦃v' : Content⦄, tc.wellFormed = true → mem.holds tc a v → mem.holds tc b v' →
    mem.valueEquivalent floatEqual tc a b =
      .of (Comparison.judge (mem.comparisons tc a b v v')) (a + tc.gatherAllocInfo)
        (b + tc.gatherAllocInfo)
  | .number bytes => by
    intro tc a b v' hw h h'
    have hs := form_eq h h'
    cases v' with
    | number bytes' =>
      rw [holds] at h h'
      have hat : tc.isAtom = true := by
        unfold CTypeCode.isAtom
        cases hk : tc.skipAlias.kind <;> simp_all [TCKind.isNumber]
      rw [valueEquivalent_skipAlias a b tc hw, valueEquivalent_number h.1,
        CTypeCode.gatherAllocInfo_isAtom hat, h.2, h'.2, comparisons, Comparison.judge_plain]
      by_cases hb : bytes = bytes'
      · simp [hb, Compared.of]
      · have hf : (bytes == bytes') = false := by simpa using hb
        rw [if_neg hb, hf]
        rfl
    | _ => cases hs
  | .boolean truth => by
    intro tc a b v' hw h h'
    have hs := form_eq h h'
    cases v' with
    | boolean truth' =>
      rw [holds] at h h'
      have hat : tc.isAtom = true := by simp [CTypeCode.isAtom, h.1]
      rw [valueEquivalent_skipAlias a b tc hw, CTypeCode.gatherAllocInfo_isAtom hat, h.1,
        comparisons, Comparison.judge_plain]
      generalize tc.skipAlias = t at h
      cases t with
      | node info subtypes discriminator =>
        have hk : info.kind = .boolean := h.1
        simp only [valueEquivalent, hk, h.2, h'.2]
        cases truth <;> cases truth' <;> rfl
    | _ => cases hs
  | .string chars => by
    intro tc a b v' hw h h'
    have hs := form_eq h h'
    cases v' with
    | string chars' =>
      rw [holds] at h h'
      have hat : tc.isAtom = true := by simp [CTypeCode.isAtom, h.1]
      have hcmp := strcmpEqual_eq h.2 h'.2 h.2.2.2
      rw [valueEquivalent_skipAlias a b tc hw, CTypeCode.gatherAllocInfo_isAtom hat, h.1,
        comparisons, Comparison.judge_plain]
      generalize tc.skipAlias = t at h
      cases t with
      | node info subtypes discriminator =>
        have hk : info.kind = .string := h.1
        simp only [valueEquivalent, hk, hcmp]
        cases chars == chars' <;> rfl
    | _ => cases hs
  | .wstring units => by
    intro tc a b v' hw h h'
    have hs := form_eq h h'
    cases v' with
    | wstring units' =>
      rw [holds] at h
      rw [valueEquivalent_skipAlias a b tc hw, comparisons]
      generalize tc.skipAlias = t at h
      cases t with
      | node info subtypes discriminator =>
        have hk : info.kind = .wstring := h.1
        simp only [valueEquivalent, hk]
        rfl
    | _ => cases hs
  | .object reference => by
    intro tc a b v' hw h h'
    have hs := form_eq h h'
    cases v' with
    | object reference' =>
      rw [holds] at h
      have hat : tc.isAtom = true := by simp [CTypeCode.isAtom, h.1]
      rw [valueEquivalent_skipAlias a b tc hw, CTypeCode.gatherAllocInfo_isAtom hat, h.1,
        comparisons]
      generalize tc.skipAlias = t at h
      cases t with
      | node info subtypes discriminator =>
        have hk : info.kind = .objref := h.1
        simp only [valueEquivalent, hk]
        by_cases hab : a = b <;> simp [hab, Comparison.judge, Compared.of, TCKind.sizeof]
    | _ => cases hs
  | .typeCode type => by
    intro tc a b v' hw h h'
    have hs := form_eq h h'
    cases v' with
    | typeCode type' =>
      rw [holds] at h
      have hat : tc.isAtom = true := by simp [CTypeCode.isAtom, h.1]
      rw [valueEquivalent_skipAlias a b tc hw, CTypeCode.gatherAllocInfo_isAtom hat, h.1,
        comparisons]
      generalize tc.skipAlias = t at h
      cases t with
      | node info subtypes discriminator =>
        have hk : info.kind = .typeCode := h.1
        simp only [valueEquivalent, hk]
        by_cases hab : a = b <;> simp [hab, Comparison.judge, Compared.of, TCKind.sizeof]
    | _ => cases hs
  | .any type value => by
    intro tc a b v' hw h h'
    have hs := form_eq h h'
    cases v' with
    | any type' value' =>
      rw [holds] at h
      rw [valueEquivalent_skipAlias a b tc hw, comparisons]
      generalize tc.skipAlias = t at h
      cases t with
      | node info subtypes discriminator =>
        have hk : info.kind = .any := h.1
        simp only [valueEquivalent, hk]
        rfl
    | _ => cases hs
  | .record members => by
    intro tc a b v' hw h h'
    have hs := form_eq h h'
    cases v' with
    | record members' =>
      rw [holds] at h h'
      have hm := equivalentMembers_eq_judge members
        (fun sub hsub => CTypeCode.wellFormed_subtype
          (CTypeCode.wellFormed_skipAlias tc hw) hsub) h.2 h'.2
      rw [valueEquivalent_skipAlias a b tc hw, valueEquivalent_record h.1, hm, comparisons]
      refine Compared.of_andThen_same ?_
      rw [Nat.add_sub_cancel_left, Nat.add_sub_cancel_left, ← CTypeCode.findCAlignment_record h.1,
        ← CTypeCode.gatherAllocInfo_record h.1, CTypeCode.gatherAllocInfo_skipAlias]
    | _ => cases hs
  | .union discriminator arm body => by
    intro tc a b v' hw h h'
    have hs := form_eq h h'
    cases v' with
    | union discriminator' arm' body' =>
      have hwt := CTypeCode.wellFormed_skipAlias tc hw
      rw [holds] at h h'
      obtain ⟨hk, d, hd, hh, harm, hwa, hb⟩ := h
      obtain ⟨-, d', hd', hh', harm', hwa', hb'⟩ := h'
      obtain rfl : d = d' := Option.some.inj (hd.symm.trans hd')
      rw [valueEquivalent_skipAlias a b tc hw, ← CTypeCode.gatherAllocInfo_skipAlias tc,
        valueEquivalent_union hk hd, comparisons, hd]
      simp only [unionSwitch]
      by_cases hr : d.readsSwitch = true
      · simp only [hr, if_true]
        set arm₁ := tc.skipAlias.arm (mem.label d.skipAlias.kind a)
        set arm₂ := tc.skipAlias.arm (mem.label d.skipAlias.kind b)
        have hw₁ : arm₁.wellFormed = true := CTypeCode.arm_wellFormed hwt _
        have hw₂ : arm₂.wellFormed = true := CTypeCode.arm_wellFormed hwt _
        rcases CTypeCode.equal_iff_core hw₁ hw₂ with ⟨he, hc⟩ | ⟨he, hc⟩
        · have hea : arm.equal arm' = some true := by
            rcases CTypeCode.equal_iff_core hwa hwa' with ⟨hea, -⟩ | ⟨-, hne⟩
            · exact hea
            · exact absurd (harm.trans (hc.trans harm'.symm)) hne
          have hbody := valueEquivalent_eq_judge body hw₁ (holds_core body harm hb)
            (holds_core body' (harm'.trans hc.symm) hb')
          simp only [he, hea, if_true]
          rw [valueEquivalent_eq_judge discriminator (CTypeCode.wellFormed_discriminator hwt hd)
            hh hh']
          refine Compared.of_andThen ?_
          rw [hbody]
          exact Compared.of_andThen_same rfl
        · have hea : arm.equal arm' ≠ some true := by
            rcases CTypeCode.equal_iff_core hwa hwa' with ⟨-, heq⟩ | ⟨hef, -⟩
            · exact absurd (harm.symm.trans (heq.trans harm')) hc
            · rw [hef]
              simp
          simp only [he, hea, if_false]
          rfl
      · simp only [hr]
        rfl
    | _ => cases hs
  | .seq elements => by
    intro tc a b v' hw h h'
    have hs := form_eq h h'
    cases v' with
    | seq elements' =>
      have hwt := CTypeCode.wellFormed_skipAlias tc hw
      rw [valueEquivalent_skipAlias a b tc hw, ← CTypeCode.gatherAllocInfo_skipAlias tc,
        comparisons]
      rw [holds] at h h'
      rcases h with ⟨hk, hl, he⟩ | ⟨hk, hl, he⟩
      · obtain ⟨hl', he'⟩ : mem.word (b+4) 4 = elements'.length ∧
            mem.holdsEach tc.skipAlias.element (mem.pointer (b+8)) elements' := by
          simpa [hk] using h'
        rw [valueEquivalent_sequence hwt hk, if_pos hk, hl, hl',
          CTypeCode.gatherAllocInfo_leaf (.inl hk)]
        by_cases hlen : elements.length = elements'.length
        · rw [if_neg (by simpa using hlen), if_pos hlen,
            equivalentLoop_eq_judge elements (CTypeCode.element_wellFormed hwt) hlen he he']
          exact Compared.of_andThen_same rfl
        · rw [if_pos hlen, if_neg hlen]
          rfl
      · obtain ⟨hl', he'⟩ : tc.skipAlias.info.length = elements'.length ∧
            mem.holdsEach tc.skipAlias.element b elements' := by
          simpa [hk] using h'
        have hlen : elements.length = elements'.length := hl.symm.trans hl'
        rw [valueEquivalent_array hwt hk, if_neg (by simp [hk]), hl,
          equivalentLoop_eq_judge elements (CTypeCode.element_wellFormed hwt) hlen he he',
          CTypeCode.gatherAllocInfo_array hk, CTypeCode.gatherHead_eq, hl]
        rfl
    | _ => cases hs

theorem equivalentMembers_eq_judge : (vs : List Content) → ∀ ⦃tcs : List CTypeCode⦄
    ⦃a b offset : Nat⦄ ⦃vs' : List Content⦄, (∀ tc ∈ tcs, tc.wellFormed = true) →
    mem.holdsAll tcs a offset vs → mem.holdsAll tcs b offset vs' →
    mem.equivalentMembers floatEqual a b tcs offset =
      .of (Comparison.judge (mem.comparisonsAll tcs a b offset vs vs'))
        (a + CTypeCode.gatherMembers offset tcs) (b + CTypeCode.gatherMembers offset tcs)
  | [] => by
    intro tcs a b offset vs' _ h h'
    rw [holdsAll] at h
    subst h
    rw [equivalentMembers, comparisonsAll]
    · rfl
    · simp
  | v :: vs => by
    intro tcs a b offset vs' hw h h'
    cases tcs with
    | nil => exact absurd h id
    | cons tc tcs =>
      cases vs' with
      | nil => cases h'
      | cons v' vs' =>
        rw [holdsAll] at h h'
        rw [equivalentMembers, comparisonsAll, CTypeCode.gatherMembers,
          valueEquivalent_eq_judge v (hw tc List.mem_cons_self) h.1 h'.1]
        refine Compared.of_andThen ?_
        exact equivalentMembers_eq_judge vs (fun sub hsub => hw sub (List.mem_cons_of_mem _ hsub))
          h.2 h'.2

theorem equivalentLoop_eq_judge : (vs : List Content) → ∀ ⦃tc : CTypeCode⦄ ⦃a b i : Nat⦄
    ⦃vs' : List Content⦄, tc.wellFormed = true → vs.length = vs'.length →
    mem.holdsEach tc a vs → mem.holdsEach tc b vs' →
    equivalentLoop (mem.valueEquivalent floatEqual tc) vs.length i a b =
      .of (Comparison.judge (mem.comparisonsEach tc a b i vs vs'))
        (a + tc.gatherAllocInfo * vs.length) (b + tc.gatherAllocInfo * vs.length)
  | [] => by
    intro tc a b i vs' _ _ _ _
    rw [comparisonsEach]
    · rfl
    · simp
  | v :: vs => by
    intro tc a b i vs' hw hl h h'
    cases vs' with
    | nil => simp at hl
    | cons v' vs' =>
      rw [holdsEach] at h h'
      rw [List.length_cons, equivalentLoop, comparisonsEach, valueEquivalent_eq_judge v hw h.1 h'.1]
      refine Compared.of_andThen ?_
      by_cases hi : i + 1 = 2^31
      · rw [if_pos hi, if_pos hi]
        rfl
      · rw [if_neg hi, if_neg hi, equivalentLoop_eq_judge vs hw (by simpa using hl) h.2 h'.2,
          Nat.mul_succ]
        congr 1 <;> omega

end

theorem sameAll_length : (vs vs' : List Content) → Content.sameAll vs vs' = true →
    vs.length = vs'.length
  | [], [], _ => rfl
  | [], _ :: _, h => by simp [Content.sameAll] at h
  | _ :: _, [], h => by simp [Content.sameAll] at h
  | v :: vs, v' :: vs', h => by
    rw [Content.sameAll, Bool.and_eq_true] at h
    rw [List.length_cons, List.length_cons, sameAll_length vs vs' h.2]

mutual

/-- All pairs are the same when the values are. -/
theorem all_same : (v : Content) → ∀ ⦃tc : CTypeCode⦄ ⦃a b : Nat⦄ ⦃v' : Content⦄,
    tc.wellFormed = true → mem.holds tc a v → mem.holds tc b v' →
    (mem.comparisons tc a b v v').all Comparison.same = v.same v'
  | .number bytes => by
    intro tc a b v' hw h h'
    have hs := form_eq h h'
    cases v' with
    | number bytes' => simp [comparisons, Comparison.same, Content.same]
    | _ => cases hs
  | .boolean truth => by
    intro tc a b v' hw h h'
    have hs := form_eq h h'
    cases v' with
    | boolean truth' => simp [comparisons, Comparison.same, Content.same]
    | _ => cases hs
  | .string chars => by
    intro tc a b v' hw h h'
    have hs := form_eq h h'
    cases v' with
    | string chars' => simp [comparisons, Comparison.same, Content.same]
    | _ => cases hs
  | .wstring units => by
    intro tc a b v' hw h h'
    have hs := form_eq h h'
    cases v' with
    | wstring units' => simp [comparisons, Comparison.same, Content.same]
    | _ => cases hs
  | .object reference => by
    intro tc a b v' hw h h'
    have hs := form_eq h h'
    cases v' with
    | object reference' =>
      rw [holds] at h h'
      by_cases hab : a = b
      · have hr : reference = reference' := by rw [← h.2, hab, h'.2]
        simp [comparisons, Comparison.same, Content.same, hr]
      · simp [comparisons, Comparison.same, Content.same, hab]
    | _ => cases hs
  | .typeCode type => by
    intro tc a b v' hw h h'
    have hs := form_eq h h'
    cases v' with
    | typeCode type' =>
      rw [holds] at h h'
      by_cases hab : a = b
      · have ht : type = type' := by rw [← h.2.1, hab, h'.2.1]
        simp [comparisons, Comparison.same, Content.same, ← ht, CTypeCode.equal_self h.2.2]
      · simp [comparisons, Comparison.same, Content.same, hab]
    | _ => cases hs
  | .any type value => by
    intro tc a b v' hw h h'
    have hs := form_eq h h'
    cases v' with
    | any type' value' => simp [comparisons, Comparison.same]
    | _ => cases hs
  | .record members => by
    intro tc a b v' hw h h'
    have hs := form_eq h h'
    cases v' with
    | record members' =>
      rw [holds] at h h'
      rw [comparisons, Content.same]
      exact allAll_same members
        (fun sub hsub => CTypeCode.wellFormed_subtype
          (CTypeCode.wellFormed_skipAlias tc hw) hsub) h.2 h'.2
    | _ => cases hs
  | .union discriminator arm body => by
    intro tc a b v' hw h h'
    have hs := form_eq h h'
    cases v' with
    | union discriminator' arm' body' =>
      have hwt := CTypeCode.wellFormed_skipAlias tc hw
      rw [holds] at h h'
      obtain ⟨hk, d, hd, hh, harm, hwa, hb⟩ := h
      obtain ⟨-, d', hd', hh', harm', hwa', hb'⟩ := h'
      obtain rfl : d = d' := Option.some.inj (hd.symm.trans hd')
      rw [comparisons, hd]
      simp only
      by_cases hr : d.readsSwitch = true
      · rw [if_pos hr, Content.same]
        rcases CTypeCode.equal_iff_core hwa hwa' with ⟨he, hc⟩ | ⟨he, hc⟩
        · rw [if_pos he, he, List.all_append,
            all_same discriminator (CTypeCode.wellFormed_discriminator hwt hd) hh hh',
            all_same body (CTypeCode.arm_wellFormed hwt _) (holds_core body harm hb)
              (holds_core body' (hc.symm.trans harm) hb')]
          simp
        · rw [if_neg (by rw [he]; simp), he]
          rfl
      · rw [if_neg hr]
        simp [Comparison.same]
    | _ => cases hs
  | .seq elements => by
    intro tc a b v' hw h h'
    have hs := form_eq h h'
    cases v' with
    | seq elements' =>
      have hwe : tc.skipAlias.element.wellFormed = true :=
        CTypeCode.element_wellFormed (CTypeCode.wellFormed_skipAlias tc hw)
      rw [holds] at h h'
      rw [comparisons, Content.same]
      rcases h with ⟨hk, hl, he⟩ | ⟨hk, hl, he⟩
      · obtain ⟨hl', he'⟩ : mem.word (b+4) 4 = elements'.length ∧
            mem.holdsEach tc.skipAlias.element (mem.pointer (b+8)) elements' := by
          simpa [hk] using h'
        rw [if_pos hk]
        by_cases hlen : elements.length = elements'.length
        · rw [if_pos hlen, allEach_same elements hwe hlen he he']
        · rw [if_neg hlen]
          have hne : Content.sameAll elements elements' ≠ true :=
            fun hsame => hlen (sameAll_length _ _ hsame)
          rw [Bool.eq_false_of_not_eq_true hne]
          rfl
      · obtain ⟨hl', he'⟩ : tc.skipAlias.info.length = elements'.length ∧
            mem.holdsEach tc.skipAlias.element b elements' := by
          simpa [hk] using h'
        rw [if_neg (by simp [hk]), allEach_same elements hwe (hl.symm.trans hl') he he']
    | _ => cases hs

theorem allAll_same : (vs : List Content) → ∀ ⦃tcs : List CTypeCode⦄ ⦃a b offset : Nat⦄
    ⦃vs' : List Content⦄, (∀ tc ∈ tcs, tc.wellFormed = true) →
    mem.holdsAll tcs a offset vs → mem.holdsAll tcs b offset vs' →
    (mem.comparisonsAll tcs a b offset vs vs').all Comparison.same = Content.sameAll vs vs'
  | [] => by
    intro tcs a b offset vs' _ h h'
    rw [holdsAll] at h
    subst h
    cases vs' with
    | nil => simp [comparisonsAll, Content.sameAll]
    | cons v' vs' => cases h'
  | v :: vs => by
    intro tcs a b offset vs' hw h h'
    cases tcs with
    | nil => exact absurd h id
    | cons tc tcs =>
      cases vs' with
      | nil => cases h'
      | cons v' vs' =>
        rw [holdsAll] at h h'
        rw [comparisonsAll, List.all_append, Content.sameAll,
          all_same v (hw tc List.mem_cons_self) h.1 h'.1,
          allAll_same vs (fun sub hsub => hw sub (List.mem_cons_of_mem _ hsub)) h.2 h'.2]

theorem allEach_same : (vs : List Content) → ∀ ⦃tc : CTypeCode⦄ ⦃a b i : Nat⦄
    ⦃vs' : List Content⦄, tc.wellFormed = true → vs.length = vs'.length →
    mem.holdsEach tc a vs → mem.holdsEach tc b vs' →
    (mem.comparisonsEach tc a b i vs vs').all Comparison.same = Content.sameAll vs vs'
  | [] => by
    intro tc a b i vs' _ hl _ _
    cases vs' with
    | nil => simp [comparisonsEach, Content.sameAll]
    | cons v' vs' => simp at hl
  | v :: vs => by
    intro tc a b i vs' hw hl h h'
    cases vs' with
    | nil => simp at hl
    | cons v' vs' =>
      rw [holdsEach] at h h'
      have ih := allEach_same vs (a := a + tc.gatherAllocInfo) (b := b + tc.gatherAllocInfo)
        (i := i+1) hw (by simpa using hl) h.2 h'.2
      rw [comparisonsEach, List.all_append, Content.sameAll, all_same v hw h.1 h'.1]
      split
      · rw [List.all_cons, ih]
        rfl
      · rw [ih]

end

end Memory

namespace Comparison

theorem same_of_passes {c : Comparison} (h : c.passes = true) : c.same = true := by
  cases c <;> simp_all [passes, same]

/-- The answer is given at the first pair the code does not go on from. -/
theorem judge_eq_dropWhile (cs : List Comparison) :
    judge cs = match cs.dropWhile passes with
      | [] => some true
      | .lost _ :: _ => none
      | _ :: _ => some false := by
  induction cs with
  | nil => rfl
  | cons c cs ih =>
    cases c with
    | plain same =>
      cases same
      · rfl
      · rw [judge, if_pos rfl, ih, List.dropWhile_cons_of_pos rfl]
    | wide same => rfl
    | slots together same =>
      cases together
      · rfl
      · rw [judge, if_pos rfl, ih, List.dropWhile_cons_of_pos rfl]
    | lost same => rfl

/-- The answer is whether all pairs are the same exactly for careful ones. -/
theorem judge_iff_careful (cs : List Comparison) :
    judge cs = some (cs.all same) ↔ Careful cs := by
  rw [judge_eq_dropWhile, Careful]
  have hsplit := List.takeWhile_append_dropWhile (p := passes) (l := cs)
  have htake : ∀ c ∈ cs.takeWhile passes, c.same = true :=
    fun c hc => same_of_passes (List.all_eq_true.1 List.all_takeWhile c hc)
  rcases hd : cs.dropWhile passes with _ | ⟨c, rest⟩
  · rw [hd, List.append_nil] at hsplit
    rw [hsplit] at htake
    simpa using htake
  · have hc : c.passes = false := by
      simpa [hd] using List.head_dropWhile_not passes (l := cs) (by simp [hd])
    have hmem : c ∈ cs := by
      rw [← hsplit, hd]
      exact List.mem_append_right _ List.mem_cons_self
    cases c with
    | plain s =>
      have hf : s = false := hc
      subst hf
      have hall : cs.all same = false := List.all_eq_false.2 ⟨_, hmem, by simp [same]⟩
      simp [hall]
    | lost s => simp
    | wide s => simp
    | slots together s => simp

end Comparison

/-- TRUE, FALSE or no answer. -/
def Compared.answer : Compared → Option Bool
  | .same _ _ => some true
  | .differ => some false
  | .lost => none

theorem Compared.answer_of (r : Option Bool) (a b : Nat) : (Compared.of r a b).answer = r := by
  rcases r with _ | _ | _ <;> rfl

namespace Content

mutual

/-- A value with its TypeCodes reduced to what is compared of them. -/
@[grind =] def reduce : Content → Content
  | .typeCode tc => .typeCode tc.core
  | .any type value => .any type.core (reduce value)
  | .record members => .record (reduceAll members)
  | .union discriminator arm body => .union (reduce discriminator) arm.core (reduce body)
  | .seq elements => .seq (reduceAll elements)
  | v => v

@[grind =] def reduceAll : List Content → List Content
  | [] => []
  | v :: vs => reduce v :: reduceAll vs

end
end Content

namespace Memory
variable {mem : Memory} {floatEqual : List UInt8 → List UInt8 → Bool}

/-- A value of some TypeCode lies somewhere in memory. -/
def Lies (mem : Memory) (v : Content) : Prop := ∃ tc a, mem.holds tc a v

theorem lies_of_holdsAll {vs : List Content} : ∀ {tcs : List CTypeCode} {a offset : Nat},
    mem.holdsAll tcs a offset vs → ∀ v ∈ vs, mem.Lies v := by
  induction vs with
  | nil => simp
  | cons v vs ih =>
    intro tcs a offset h
    cases tcs with
    | nil => cases h
    | cons tc tcs =>
      rw [holdsAll] at h
      exact List.forall_mem_cons.2 ⟨⟨_, _, h.1⟩, ih h.2⟩

theorem lies_of_holdsEach {vs : List Content} {tc : CTypeCode} : ∀ {a : Nat},
    mem.holdsEach tc a vs → ∀ v ∈ vs, mem.Lies v := by
  induction vs with
  | nil => simp
  | cons v vs ih =>
    intro a h
    rw [holdsEach] at h
    exact List.forall_mem_cons.2 ⟨⟨_, _, h.1⟩, ih h.2⟩

theorem lies_elements {elements : List Content} (h : mem.Lies (.seq elements)) :
    ∀ v ∈ elements, mem.Lies v := by
  obtain ⟨tc, a, h⟩ := h
  rw [holds] at h
  rcases h with ⟨-, -, he⟩ | ⟨-, -, he⟩
  · exact lies_of_holdsEach he
  · exact lies_of_holdsEach he

theorem equal_iff {tc tc' : CTypeCode} (h : tc.wellFormed = true) (h' : tc'.wellFormed = true) :
    (tc.equal tc' == some true) = true ↔ tc.core = tc'.core := by
  rcases CTypeCode.equal_iff_core h h' with ⟨he, hc⟩ | ⟨he, hc⟩ <;> simp [he, hc]

mutual

/-- Structural equality is equality of what is compared. -/
theorem same_iff_reduce : (v : Content) → ∀ v' : Content, mem.Lies v → mem.Lies v' →
    (v.same v' = true ↔ v.reduce = v'.reduce)
  | .number bytes, v', _, _ => by cases v' <;> simp [Content.same, Content.reduce]
  | .boolean truth, v', _, _ => by cases v' <;> simp [Content.same, Content.reduce]
  | .string chars, v', _, _ => by cases v' <;> simp [Content.same, Content.reduce]
  | .wstring units, v', _, _ => by cases v' <;> simp [Content.same, Content.reduce]
  | .object reference, v', _, _ => by cases v' <;> simp [Content.same, Content.reduce]
  | .typeCode type, v', h, h' => by
    cases v' with
    | typeCode type' =>
      obtain ⟨_, _, h⟩ := h
      obtain ⟨_, _, h'⟩ := h'
      rw [holds] at h h'
      rw [Content.same, equal_iff h.2.2 h'.2.2]
      simp [Content.reduce]
    | _ => simp [Content.same, Content.reduce]
  | .any type value, v', h, h' => by
    cases v' with
    | any type' value' =>
      obtain ⟨_, _, h⟩ := h
      obtain ⟨_, _, h'⟩ := h'
      rw [holds] at h h'
      obtain ⟨-, -, -, hw, hv⟩ := h
      obtain ⟨-, -, -, hw', hv'⟩ := h'
      rw [Content.same, Bool.and_eq_true, equal_iff hw hw',
        same_iff_reduce value value' ⟨_, _, hv⟩ ⟨_, _, hv'⟩]
      simp [Content.reduce]
    | _ => simp [Content.same, Content.reduce]
  | .record members, v', h, h' => by
    cases v' with
    | record members' =>
      obtain ⟨_, _, h⟩ := h
      obtain ⟨_, _, h'⟩ := h'
      rw [holds] at h h'
      rw [Content.same, sameAll_iff_reduce members members' (lies_of_holdsAll h.2)
        (lies_of_holdsAll h'.2)]
      simp [Content.reduce]
    | _ => simp [Content.same, Content.reduce]
  | .union discriminator arm body, v', h, h' => by
    cases v' with
    | union discriminator' arm' body' =>
      obtain ⟨_, _, h⟩ := h
      obtain ⟨_, _, h'⟩ := h'
      rw [holds] at h h'
      obtain ⟨-, d, -, hd, -, hw, hb⟩ := h
      obtain ⟨-, d', -, hd', -, hw', hb'⟩ := h'
      rw [Content.same, Bool.and_eq_true, Bool.and_eq_true, equal_iff hw hw',
        same_iff_reduce discriminator discriminator' ⟨_, _, hd⟩ ⟨_, _, hd'⟩,
        same_iff_reduce body body' ⟨_, _, hb⟩ ⟨_, _, hb'⟩]
      simp [Content.reduce, and_left_comm]
    | _ => simp [Content.same, Content.reduce]
  | .seq elements, v', h, h' => by
    cases v' with
    | seq elements' =>
      rw [Content.same, sameAll_iff_reduce elements elements' (lies_elements h) (lies_elements h')]
      simp [Content.reduce]
    | _ => simp [Content.same, Content.reduce]

theorem sameAll_iff_reduce : (vs vs' : List Content) → (∀ v ∈ vs, mem.Lies v) →
    (∀ v ∈ vs', mem.Lies v) →
    (Content.sameAll vs vs' = true ↔ Content.reduceAll vs = Content.reduceAll vs')
  | [], [], _, _ => by simp [Content.sameAll]
  | [], _ :: _, _, _ => by simp [Content.sameAll, Content.reduceAll]
  | _ :: _, [], _, _ => by simp [Content.sameAll, Content.reduceAll]
  | v :: vs, v' :: vs', h, h' => by
    obtain ⟨hv, hvs⟩ := List.forall_mem_cons.1 h
    obtain ⟨hv', hvs'⟩ := List.forall_mem_cons.1 h'
    rw [Content.sameAll, Bool.and_eq_true, same_iff_reduce v v' hv hv',
      sameAll_iff_reduce vs vs' hvs hvs']
    simp [Content.reduceAll]

end

/-- Structural equality of the values in memory is an equivalence. -/
theorem same_equivalence (mem : Memory) :
    (∀ v, mem.Lies v → v.same v = true) ∧
      (∀ v v', mem.Lies v → mem.Lies v' → v.same v' = true → v'.same v = true) ∧
      ∀ v v' v'', mem.Lies v → mem.Lies v' → mem.Lies v'' →
        v.same v' = true → v'.same v'' = true → v.same v'' = true := by
  refine ⟨fun v h => (same_iff_reduce v v h h).2 rfl, ?_, ?_⟩
  · intro v v' h h' hs
    exact (same_iff_reduce v' v h' h).2 ((same_iff_reduce v v' h h').1 hs).symm
  · intro v v' v'' h h' h'' hs hs'
    rw [same_iff_reduce v v' h h'] at hs
    rw [same_iff_reduce v' v'' h' h''] at hs'
    exact (same_iff_reduce v v'' h h'').2 (hs.trans hs')

/-- When `ORBit_any_equivalent` answers whether two anys are equal. -/
def AnyCareful (mem : Memory) (pending : Bool) (type type' : CTypeCode) (a b : Nat)
    (value value' : Content) : Prop :=
  type.equal type' = some true →
    if pending then value.same value' = false
    else Comparison.Careful (mem.comparisons type' a b value value')

theorem anyEquivalent_iff_careful {pending : Bool} {tc tc' type type' : CTypeCode} {obj any : Nat}
    {value value' : Content} (hobj : obj ≠ 0) (hany : any ≠ 0)
    (h : mem.holds tc obj (.any type value)) (h' : mem.holds tc' any (.any type' value')) :
    mem.anyEquivalent floatEqual pending obj any =
        some ((Content.any type value).same (.any type' value')) ↔
      mem.AnyCareful pending type type' (mem.pointer (obj+8)) (mem.pointer (any+8)) value
        value' := by
  rw [holds] at h h'
  obtain ⟨-, ht, hp, hw, hv⟩ := h
  obtain ⟨-, ht', hp', hw', hv'⟩ := h'
  rw [anyEquivalent, if_neg (by simp [hobj]), if_neg (by simp [hobj, hany]),
    if_neg (by simp [hp, hp']), ht, ht', AnyCareful, Content.same]
  rcases CTypeCode.equal_iff_core hw hw' with ⟨he, hc⟩ | ⟨he, -⟩
  · rw [he]
    cases pending
    · have hv := holds_core value hc hv
      have hj : mem.valueEquivalent floatEqual type' (mem.pointer (obj+8)) (mem.pointer (any+8)) =
          _ := valueEquivalent_eq_judge value hw' hv hv'
      simp only [Bool.false_eq_true, if_false, forall_const, beq_self_eq_true, Bool.true_and]
      rw [hj, ← Comparison.judge_iff_careful, all_same value hw' hv hv']
      rcases Comparison.judge (mem.comparisons type' (mem.pointer (obj+8)) (mem.pointer (any+8))
        value value') with _ | _ | _ <;> simp [Compared.of]
    · cases value.same value' <;> simp
  · simp [he]

/-- The same object reference in two places. -/
def twoSlots : Memory where
  host := .little
  byte a := if a = 16 ∨ a = 32 then 7 else 0
  typeCode _ := CTypeCode.null

theorem twoSlots_holds (a : Nat) (h : a = 16 ∨ a = 32) :
    twoSlots.holds (CTypeCode.basic .objref) a (.object 7) := by
  rw [holds]
  rcases h with rfl | rfl <;> exact ⟨rfl, by decide⟩

end Memory
end ORBit2
