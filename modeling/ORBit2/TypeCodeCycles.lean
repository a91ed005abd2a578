import ORBit2.Base.Unfolding
import ORBit2.TypeCodeCodec

/-! TypeCodes of recursive types: graphs in memory that contain themselves, and what the
encoder, the decoder and the comparison make of them. -/

set_option autoImplicit false

namespace ORBit2
open Words Unfolding

/-- `struct CORBA_TypeCode_struct`, with the places of its parts. -/
structure TypeCodeCell (α : Type) where
  info : TCInfo
  subtypes : List α
  discriminator : Option α

/-- The parts that the kind of a TypeCode calls for are there, and no others. -/
def TypeCodeCell.formed {α : Type} (cell : TypeCodeCell α) : Bool :=
  match cell.info.kind with
  | .struct | .except => cell.discriminator.isNone
  | .union => cell.discriminator.isSome && cell.info.sublabels.length == cell.subtypes.length
  | .sequence | .array | .alias => cell.subtypes.length == 1 && cell.discriminator.isNone
  | _ => cell.subtypes.isEmpty && cell.discriminator.isNone

/-- What there is to see of a TypeCode: the fields that its kind has, and its parts. -/
def TypeCodeCell.view {α : Type} (cell : TypeCodeCell α) : View (TCInfo × Bool) α :=
  ⟨(cell.info.sent, cell.discriminator.isSome), cell.discriminator.toList ++ cell.subtypes⟩

/-- A TypeCode that is a tree. -/
def CTypeCode.cell (tc : CTypeCode) : TypeCodeCell CTypeCode :=
  ⟨tc.info, tc.subtypes, tc.discriminator⟩

/-! ### Comparing -/

/-- How far a comparison has come. -/
inductive Verdict where
  | running
  | aborts
  | answer (equal : Bool)
  deriving DecidableEq, Repr

/-- What comes next if the parts are equal. -/
def Verdict.next (v next : Verdict) : Verdict :=
  match v with
  | .answer true => next
  | v => v

section
variable {α β : Type}

/-- The discriminators of two unions; NULL is not equal to anything. -/
def equalDiscriminator (equal : α → β → Verdict) : Option α → Option β → Verdict
  | some obj, some tc => equal obj tc
  | _, _ => .answer false

def equalMembers (equal : α → β → Verdict) : List α → List β → Verdict
  | obj :: objs, tc :: tcs => (equal obj tc).next (equalMembers equal objs tcs)
  | _, _ => .answer true

def equalArms (equal : α → β → Verdict) : List α → List Int → List β → List Int → Verdict
  | obj :: objs, label :: labels, tc :: tcs, label' :: labels' =>
      (equal obj tc).next
        (if label ≠ label' then .answer false else equalArms equal objs labels tcs labels')
  | _, _, _, _ => .answer true

/-- `typecode_equiv_internal` for `CORBA_TypeCode_equal`, to a depth of calls. No record is
kept of the TypeCodes that are being compared. -/
def typecodeEqual (out : α → TypeCodeCell α) (out' : β → TypeCodeCell β) : Nat → α → β → Verdict
  | 0, _, _ => .running
  | fuel+1, obj, tc =>
      let obj := out obj
      let tc := out' tc
      if obj.info.kind ≠ tc.info.kind then .answer false
      else
        match obj.info.kind with
        | .wstring | .string => .answer (obj.info.length == tc.info.length)
        | .objref => .answer (obj.info.repoId == tc.info.repoId)
        | .except | .struct =>
            if obj.info.repoId ≠ tc.info.repoId ∨ obj.subtypes.length ≠ tc.subtypes.length then
              .answer false
            else equalMembers (typecodeEqual out out' fuel) obj.subtypes tc.subtypes
        | .union =>
            if obj.info.repoId ≠ tc.info.repoId ∨ obj.subtypes.length ≠ tc.subtypes.length then
              .answer false
            else
              (equalDiscriminator (typecodeEqual out out' fuel) obj.discriminator
                tc.discriminator).next
                (if obj.info.defaultIndex ≠ tc.info.defaultIndex then .answer false
                else equalArms (typecodeEqual out out' fuel) obj.subtypes obj.info.sublabels
                  tc.subtypes tc.info.sublabels)
        | .enum =>
            .answer (obj.info.subnames.length == tc.info.subnames.length &&
              obj.info.repoId == tc.info.repoId && obj.info.subnames == tc.info.subnames)
        | .sequence | .array =>
            if obj.info.length ≠ tc.info.length then .answer false
            else if obj.subtypes.length ≠ 1 ∨ tc.subtypes.length ≠ 1 then .aborts
            else equalMembers (typecodeEqual out out' fuel) obj.subtypes tc.subtypes
        | .alias =>
            if obj.info.repoId ≠ tc.info.repoId then .answer false
            else if obj.subtypes.length ≠ 1 ∨ tc.subtypes.length ≠ 1 then .aborts
            else equalMembers (typecodeEqual out out' fuel) obj.subtypes tc.subtypes
        | .fixed =>
            .answer (obj.info.digits == tc.info.digits && obj.info.scale == tc.info.scale)
        | _ => .answer true

end

/-! ### Sending -/

section
variable {α : Type} (host : Endian) (enc : α → Enc)

def encFirstOf : List α → Enc
  | [] => Enc.abort
  | tc :: _ => enc tc

def encDiscriminatorOf : Option α → Enc
  | none => Enc.abort
  | some tc => enc tc

def encMembersOf : List (List UInt8) → List α → Enc
  | [], [] => Enc.put fun _ => []
  | name :: names, tc :: tcs =>
      (Enc.put (cdrPutString host name)).seq <| (enc tc).seq <| encMembersOf names tcs
  | _, _ => Enc.abort

def encArmsOf (w : Nat) : List Int → List (List UInt8) → List α → Enc
  | [], [], [] => Enc.put fun _ => []
  | label :: labels, name :: names, tc :: tcs =>
      (Enc.put (cdrPut host w (unsigned w label))).seq <|
      (Enc.put (cdrPutString host name)).seq <| (enc tc).seq <| encArmsOf w labels names tcs
  | _, _, _ => Enc.abort

end

/-- `tc_enc` of the TypeCode at an address, to a depth of calls. -/
def tcEncAt (host : Endian) (heap : Nat → TypeCodeCell Nat) : Nat → (start : Nat) → Nat → Enc
  | 0, _, _ => Enc.abort
  | fuel+1, start, addr => fun size prior =>
      let cell := heap addr
      let info := cell.info
      let align := pad 4 size
      let size := size + align.length
      if info.kind.tkType = .empty then
        some ⟨align ++ host.split 4 info.kind.code, prior, []⟩
      else
        match prior.find? (·.1 == addr) with
        | some (_, index) =>
            let len := unsigned 4 ((index : Int) - (size + 4 : Nat) - 4)
            some ⟨align ++ host.split 4 tkRecursive ++ host.split 4 len, prior,
              [⟨12 + index, 12 + size + 8, start⟩]⟩
        | none =>
            let start := if info.kind.tkType = .complex then 12 + size + 8 else start
            let enc := tcEncAt host heap fuel start
            let body := encoder host info cell.subtypes.length
              (cell.discriminator.map fun d => (heap d).info.kind) (encFirstOf enc cell.subtypes)
              (encDiscriminatorOf enc cell.discriminator)
              (encMembersOf host enc info.subnames cell.subtypes)
              (fun w => encArmsOf host enc w info.sublabels info.subnames cell.subtypes)
            if info.kind.tkType = .complex then do
              let r ← body (size + 9) ((addr, size) :: prior)
              some ⟨align ++ host.split 4 info.kind.code ++
                host.split 4 (1 + r.bytes.length) ++ (endianFlag host :: r.bytes),
                r.prior, r.refs⟩
            else do
              let r ← body (size + 4) ((addr, size) :: prior)
              some ⟨align ++ host.split 4 info.kind.code ++ r.bytes, r.prior, r.refs⟩

/-- `ORBit_encode_CORBA_TypeCode`. -/
def encodeTypeCodeAt (host : Endian) (heap : Nat → TypeCodeCell Nat) (fuel root size : Nat) :
    Option Encoded :=
  tcEncAt host heap fuel 0 root size []

/-! ### A comparison of what is the same -/

section
variable {α β : Type}

/-- A comparison is still running, or it has found two equal TypeCodes of which the first is
a finite tree. -/
def Verdict.Sound (v : Verdict) (finite : Prop) : Prop :=
  v = .running ∨ v = .answer true ∧ finite

theorem Verdict.Sound.next {v v' : Verdict} {P Q : Prop} (h : v.Sound P) (h' : v'.Sound Q) :
    (v.next v').Sound (P ∧ Q) := by
  rcases h with rfl | ⟨rfl, hp⟩
  · exact .inl rfl
  · rcases h' with rfl | ⟨rfl, hq⟩
    · exact .inl rfl
    · exact .inr ⟨rfl, hp, hq⟩

theorem Verdict.Sound.imp {v : Verdict} {P Q : Prop} (h : v.Sound P) (hpq : P → Q) : v.Sound Q := by
  rcases h with rfl | ⟨rfl, hp⟩
  · exact .inl rfl
  · exact .inr ⟨rfl, hpq hp⟩

variable {equal : α → β → Verdict} {R : α → β → Prop} {F : α → Prop}

theorem equalMembers_sound (h : ∀ a b, R a b → (equal a b).Sound (F a)) {l : List α} {l' : List β}
    (hl : List.Forall₂ R l l') : (equalMembers equal l l').Sound (∀ a ∈ l, F a) := by
  induction hl with
  | nil => exact .inr ⟨rfl, by simp⟩
  | cons hab _ ih =>
    rw [equalMembers]
    refine ((h _ _ hab).next ih).imp ?_
    rintro ⟨ha, hl⟩ c hc
    rcases List.mem_cons.1 hc with rfl | hc
    · exact ha
    · exact hl c hc

theorem equalArms_sound (h : ∀ a b, R a b → (equal a b).Sound (F a)) {l : List α} {l' : List β}
    (hl : List.Forall₂ R l l') {labels : List Int} (hn : labels.length = l.length) :
    (equalArms equal l labels l' labels).Sound (∀ a ∈ l, F a) := by
  induction hl generalizing labels with
  | nil => exact .inr ⟨by simp [equalArms], by simp⟩
  | cons hab _ ih =>
    cases labels with
    | nil => simp at hn
    | cons label labels =>
      rw [equalArms, if_neg (by simp)]
      refine ((h _ _ hab).next (ih (by simpa using hn))).imp ?_
      rintro ⟨ha, hl⟩ c hc
      rcases List.mem_cons.1 hc with rfl | hc
      · exact ha
      · exact hl c hc

variable {out : α → TypeCodeCell α} {out' : β → TypeCodeCell β}

/-- The views of the cells. -/
def viewOf (out : α → TypeCodeCell α) (a : α) : View (TCInfo × Bool) α := (out a).view

/-- Two cells of the same tree have the same fields, and parts of the same trees. -/
theorem same_cells {a : α} {b : β} (h : Same (viewOf out) (viewOf out') a b) :
    (out a).info.sent = (out' b).info.sent ∧
    List.Forall₂ (Same (viewOf out) (viewOf out')) (out a).subtypes (out' b).subtypes ∧
    (((out a).discriminator = none ∧ (out' b).discriminator = none) ∨
      ∃ d d', (out a).discriminator = some d ∧ (out' b).discriminator = some d' ∧
        Same (viewOf out) (viewOf out') d d') := by
  have hl := h.label
  have hc := h.children
  simp only [viewOf, TypeCodeCell.view, Prod.mk.injEq] at hl hc
  refine ⟨hl.1, ?_⟩
  cases hd : (out a).discriminator with
  | none =>
    cases hd' : (out' b).discriminator with
    | none => exact ⟨by simpa [hd, hd'] using hc, .inl ⟨rfl, rfl⟩⟩
    | some d' => simp [hd, hd'] at hl
  | some d =>
    cases hd' : (out' b).discriminator with
    | none => simp [hd, hd'] at hl
    | some d' =>
      simp only [hd, hd', Option.toList_some, List.cons_append, List.nil_append,
        List.forall₂_cons] at hc
      exact ⟨hc.2, .inr ⟨d, d', rfl, rfl, hc.1⟩⟩

theorem finite_of_parts {a : α} (hs : ∀ b ∈ (out a).subtypes, Finite (viewOf out) b)
    (hd : ∀ d ∈ (out a).discriminator, Finite (viewOf out) d) : Finite (viewOf out) a := by
  refine Acc.intro a ?_
  intro b hb
  have hm : b ∈ (out a).discriminator.toList ++ (out a).subtypes := hb
  rcases List.mem_append.1 hm with hm | hm
  · exact hd b (by simpa using hm)
  · exact hs b hm

theorem child_subtype {a b : α} (h : b ∈ (out a).subtypes) : Child (viewOf out) b a :=
  List.mem_append_right _ h

theorem child_discriminator {a d : α} (h : (out a).discriminator = some d) :
    Child (viewOf out) d a := by
  refine List.mem_append_left _ ?_
  rw [h]
  exact List.mem_singleton_self d

/-- The comparison of two TypeCodes that unfold to the same tree does not end before it has
been through the whole of it. -/
theorem typecodeEqual_sound {root : α}
    (hf : ∀ a, Relation.ReflTransGen (Child (viewOf out)) a root → (out a).formed = true)
    (fuel : Nat) :
    ∀ a b, Relation.ReflTransGen (Child (viewOf out)) a root ∧ Same (viewOf out) (viewOf out') a b →
      (typecodeEqual out out' fuel a b).Sound (Finite (viewOf out) a) := by
  induction fuel with
  | zero => exact fun _ _ _ => .inl rfl
  | succ fuel ih =>
    rintro a b ⟨hr, hab⟩
    obtain ⟨hinfo, hsub, hdis⟩ := same_cells hab
    have hreach : ∀ c ∈ (out a).subtypes, Relation.ReflTransGen (Child (viewOf out)) c root :=
      fun c hc => .head (child_subtype hc) hr
    have hsub' := (List.forall₂_and_left _ _).2 ⟨hreach, hsub⟩
    have hlen := hsub.length_eq
    have hform := hf a hr
    have hmembers : (out a).discriminator = none →
        (equalMembers (typecodeEqual out out' fuel) (out a).subtypes (out' b).subtypes).Sound
          (Finite (viewOf out) a) := by
      intro hd
      exact (equalMembers_sound ih hsub').imp fun h => finite_of_parts h (by simp [hd])
    have hleaf : (out a).subtypes = [] ∧ (out a).discriminator = none →
        Verdict.Sound (.answer true) (Finite (viewOf out) a) := by
      rintro ⟨hs, hd⟩
      exact .inr ⟨rfl, finite_of_parts (by simp [hs]) (by simp [hd])⟩
    have hkind : (out' b).info.kind = (out a).info.kind := by
      rw [← TCInfo.sent_kind, ← hinfo, TCInfo.sent_kind]
    rw [typecodeEqual]
    unfold TypeCodeCell.formed at hform
    simp only [hkind, ← hlen, ne_eq, not_true_eq_false, if_false]
    unfold TCInfo.sent at hinfo
    cases hk : (out a).info.kind <;>
      simp only [hk, hkind, Bool.and_eq_true, beq_iff_eq, Option.isNone_iff_eq_none,
        List.isEmpty_iff, TCInfo.bare, TCInfo.mk.injEq, true_and, and_true] at hform hinfo ⊢
    case struct =>
      rw [if_neg (by simp [hinfo])]
      exact hmembers hform
    case except =>
      rw [if_neg (by simp [hinfo])]
      exact hmembers hform
    case sequence =>
      rw [if_neg (by simp [hinfo]), if_neg (by simp [hform.1])]
      exact hmembers hform.2
    case array =>
      rw [if_neg (by simp [hinfo]), if_neg (by simp [hform.1])]
      exact hmembers hform.2
    case «alias» =>
      rw [if_neg (by simp [hinfo]), if_neg (by simp [hform.1])]
      exact hmembers hform.2
    case union =>
      rcases hdis with ⟨hd, _⟩ | ⟨d, d', hd, hd', hdd⟩
      · simp [hd] at hform
      · have ha := equalArms_sound ih hsub' hform.2
        have hdsound := ih d d' ⟨.head (child_discriminator hd) hr, hdd⟩
        rw [if_neg (by simp [hinfo]), if_neg (by simp [hinfo]), ← hinfo.2.2.2.1, hd, hd',
          equalDiscriminator]
        refine (hdsound.next ha).imp ?_
        rintro ⟨hfd, hfs⟩
        refine finite_of_parts hfs ?_
        intro e he
        rw [hd] at he
        cases he
        exact hfd
    case string => simpa [hinfo] using hleaf hform
    case wstring => simpa [hinfo] using hleaf hform
    case objref => simpa [hinfo] using hleaf hform
    case enum => simpa [hinfo] using hleaf hform
    case fixed => simpa [hinfo] using hleaf hform
    all_goals exact hleaf hform

/-- The comparison of a TypeCode that contains itself never ends. -/
theorem typecodeEqual_running {root : α} {b : β}
    (hf : ∀ a, Relation.ReflTransGen (Child (viewOf out)) a root → (out a).formed = true)
    (hinf : ¬ Finite (viewOf out) root) (hs : Same (viewOf out) (viewOf out') root b) (fuel : Nat) :
    typecodeEqual out out' fuel root b = .running := by
  rcases typecodeEqual_sound hf fuel root b ⟨.refl, hs⟩ with h | ⟨_, h⟩
  · exact h
  · exact absurd h hinf

end

/-! ### Recursive types -/

/-- A graph of TypeCodes in which the one at `root` is, or leads to, a part of itself. -/
structure Recursive (heap : Nat → TypeCodeCell Nat) (root : Nat) : Prop where
  formed : ∀ a, Relation.ReflTransGen (Child (viewOf heap)) a root → (heap a).formed = true
  cycle : ∃ a, Relation.ReflTransGen (Child (viewOf heap)) a root ∧
    Relation.TransGen (Child (viewOf heap)) a a

/-- The TypeCode at `root` is sent and arrives as one that unfolds to the same tree, and
`CORBA_TypeCode_equal` of the two comes back with TRUE. The decoder enters a TypeCode into
its context when it is complete, so that what it makes is a tree. -/
def RoundTrips (heap : Nat → TypeCodeCell Nat) (root : Nat) (sender : Endian) (size : Nat) :
    Prop :=
  ∃ fuel r, encodeTypeCodeAt sender heap fuel root size = some r ∧
    ∀ rest c, Receives sender size r.bytes rest c →
      ∃ tc s tc', decodeTypeCode c = .ok tc s ∧ tc.read = some tc' ∧
        Same (viewOf heap) (viewOf CTypeCode.cell) root tc' ∧
        ∃ depth, typecodeEqual heap CTypeCode.cell depth root tc' = .answer true

section
variable {heap : Nat → TypeCodeCell Nat} {root : Nat}

theorem Recursive.not_finite (h : Recursive heap root) : ¬ Finite (viewOf heap) root := by
  obtain ⟨a, hr, hc⟩ := h.cycle
  exact not_finite_of_cycle hr hc

theorem CTypeCode.finite_cell (tc : CTypeCode) : Finite (viewOf CTypeCode.cell) tc := by
  have hwf : WellFounded (Child (viewOf CTypeCode.cell)) := by
    refine Subrelation.wf ?_ (measure fun tc : CTypeCode => sizeOf tc).wf
    rintro child ⟨info, subtypes, discriminator⟩ hc
    have hm : child ∈ discriminator.toList ++ subtypes := hc
    change sizeOf child < sizeOf (CTypeCode.node info subtypes discriminator)
    rw [CTypeCode.node.sizeOf_spec]
    rcases List.mem_append.1 hm with hm | hm
    · have hd : discriminator = some child := by simpa using hm
      rw [hd, Option.some.sizeOf_spec]
      omega
    · have hlt := List.sizeOf_lt_of_mem hm
      omega
  exact hwf.apply tc

/-- No tree unfolds to the infinite tree of a recursive type. -/
theorem Recursive.not_same (h : Recursive heap root) (tc : CTypeCode) :
    ¬ Same (viewOf heap) (viewOf CTypeCode.cell) root tc :=
  fun hs => h.not_finite (hs.finite tc.finite_cell)

theorem receives_at (sender : Endian) (size : Nat) (bytes : List UInt8) :
    Receives sender size bytes [] ⟨0, List.replicate (12 + size) 0 ++ (bytes ++ []), 12 + size,
      sender, sender⟩ :=
  ⟨⟨0, rfl⟩, rfl, rfl, _, List.length_replicate, rfl⟩

theorem Recursive.lost (h : Recursive heap root) (sender : Endian) (size : Nat) :
    ¬ RoundTrips heap root sender size := by
  rintro ⟨_, r, _, hd⟩
  obtain ⟨_, _, tc, _, _, hs, _⟩ := hd _ _ (receives_at sender size r.bytes)
  exact h.not_same tc hs

/-- Of a recursive type no TypeCode arrives that would unfold to the same tree, and a
comparison with one that does, such as itself, does not come back. -/
theorem Recursive.not_roundTrips (h : Recursive heap root) (sender : Endian) (size : Nat) :
    ¬ RoundTrips heap root sender size ∧
      (∀ tc : CTypeCode, ¬ Same (viewOf heap) (viewOf CTypeCode.cell) root tc) ∧
      ∀ {β : Type} (out : β → TypeCodeCell β) (tc : β),
        Same (viewOf heap) (viewOf out) root tc →
          ∀ depth, typecodeEqual heap out depth root tc = .running :=
  ⟨h.lost sender size, h.not_same, fun _ _ hs => typecodeEqual_running h.formed h.not_finite hs⟩

end

/-- `struct Node { sequence<Node> next; };` -/
def nodeType : Nat → TypeCodeCell Nat
  | 0 => ⟨{ TCInfo.bare .struct with name := [78], subnames := [[110]] }, [1], none⟩
  | 1 => ⟨TCInfo.bare .sequence, [0], none⟩
  | _ => ⟨TCInfo.bare .long, [], none⟩

theorem recursive_nodeType : Recursive nodeType 0 := by
  have h₁ : Child (viewOf nodeType) 1 0 := List.mem_cons_self
  have h₀ : Child (viewOf nodeType) 0 1 := List.mem_cons_self
  refine ⟨?_, 0, .refl, .tail (.single h₀) h₁⟩
  intro a _
  match a with
  | 0 => rfl
  | 1 => rfl
  | _+2 => rfl

/-- `tc_dec` does not find the struct around the reference, and calls `g_error`. -/
theorem not_roundTrips_nodeType :
    (∃ r, encodeTypeCodeAt .little nodeType 3 0 0 = some r ∧
      Receives .little 0 r.bytes [] (received r.bytes) ∧
      decodeTypeCode (received r.bytes) matches .crash) ∧
    (∀ depth, typecodeEqual nodeType nodeType depth 0 0 = .running) ∧
    ¬ RoundTrips nodeType 0 .little 0 := by
  have hcrash : (encodeTypeCodeAt .little nodeType 3 0 0).any
      (fun r => decodeTypeCode (received r.bytes) matches .crash) = true := by
    decide_cbv
  obtain ⟨r, henc, hr⟩ := (Option.any_eq_true _ _).1 hcrash
  exact ⟨⟨r, henc, receives_received r.bytes, hr⟩,
    typecodeEqual_running recursive_nodeType.formed recursive_nodeType.not_finite fun _ => rfl,
    recursive_nodeType.lost .little 0⟩

theorem not_roundTrips_nodeType_big : ¬ RoundTrips nodeType 0 .big 8 ∧
    (∀ tc : CTypeCode, ¬ Same (viewOf nodeType) (viewOf CTypeCode.cell) 0 tc) ∧
    ∀ {β : Type} (out : β → TypeCodeCell β) (tc : β), Same (viewOf nodeType) (viewOf out) 0 tc →
      ∀ depth, typecodeEqual nodeType out depth 0 tc = .running :=
  recursive_nodeType.not_roundTrips .big 8

end ORBit2
