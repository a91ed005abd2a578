import ORBit2.TypeCodeChecked

/-! The depth that `tc_dec` is given is never what ends it: each encapsulation is shorter than
the data that it lies in. -/

set_option autoImplicit false

namespace ORBit2
open Words

theorem bind_congr {σ α β : Type} {m m' : Reading σ α} {f g : α → Reading σ β} {s : σ}
    (hm : m s = m' s) (hf : ∀ a t, m s = .ok a t → f a t = g a t) : (m >>= f) s = (m' >>= g) s := by
  cases h : m s with
  | ok a t =>
    rw [Reading.bind_ok h, Reading.bind_ok (hm ▸ h)]
    exact hf a t h
  | fail t => rw [Reading.bind_fail h, Reading.bind_fail (hm ▸ h)]
  | crash => rw [Reading.bind_crash h, Reading.bind_crash (hm ▸ h)]

/-- On this data the two readers do the same, and stay in it. -/
def Agree (data : List UInt8) (dec dec' : Reading TcState Decoded) : Prop :=
  ∀ s, s.cursor.data = data →
    dec s = dec' s ∧ ∀ tc t, dec s = .ok tc t → t.cursor.data = data

section
variable {data : List UInt8} {dec dec' : Reading TcState Decoded} {d : Draft} {s : TcState}

theorem Leaf.congr {α : Type} {m : Reading (Draft × TcState) α}
    {f g : α → Reading (Draft × TcState) Unit} (hm : Leaf m) (hs : s.cursor.data = data)
    (hf : ∀ a e u, u.cursor.data = data → f a (e, u) = g a (e, u)) :
    (m >>= f) (d, s) = (m >>= g) (d, s) := by
  refine bind_congr rfl ?_
  intro a t h
  obtain ⟨e, u⟩ := t
  rcases hm d s with ⟨_, _, _, h', ha, _⟩ | ⟨_, h', _⟩
  · rw [h] at h'
    cases h'
    exact hf a e u (ha.data.trans hs)
  · rw [h] at h'
    cases h'

theorem Agree.field {set : Decoded → Draft → Draft} {f g : Decoded → Reading (Draft × TcState) Unit}
    (h : Agree data dec dec') (hs : s.cursor.data = data)
    (hf : ∀ tc e u, u.cursor.data = data → f tc (e, u) = g tc (e, u)) :
    (decField dec set >>= f) (d, s) = (decField dec' set >>= g) (d, s) := by
  obtain ⟨he, hdata⟩ := h s hs
  refine bind_congr (by simp [decField, he]) ?_
  intro tc t ht
  obtain ⟨e, u⟩ := t
  exact hf tc e u (hdata tc u (decField_ok ht).2)

theorem Agree.loop {α : Type} {first : Reading (Draft × TcState) α} (h : Agree data dec dec')
    (hf : Leaf first) (n : Nat) (hs : s.cursor.data = data) :
    decLoop first dec n (d, s) = decLoop first dec' n (d, s) := by
  induction n generalizing d s with
  | zero => rfl
  | succ n ih =>
    refine hf.congr hs fun _ e u hu => ?_
    refine decSubname_leaf.congr hu fun _ e u hu => ?_
    exact h.field hu fun _ e u hu => ih hu

theorem Agree.decoder (h : Agree data dec dec') (kind : TCKind) (hs : s.cursor.data = data) :
    decoder dec kind (d, s) = decoder dec' kind (d, s) := by
  cases kind
  case struct | except =>
    refine decRepoId_leaf.congr hs fun _ e u hu => ?_
    refine decName_leaf.congr hu fun _ e u hu => ?_
    refine decSubParts_leaf.congr hu fun n e u hu => ?_
    rw [decMembers_eq, decMembers_eq]
    exact h.loop (Leaf.pure ()) n hu
  case union =>
    refine decRepoId_leaf.congr hs fun _ e u hu => ?_
    refine decName_leaf.congr hu fun _ e u hu => ?_
    refine h.field hu fun tc e u hu => ?_
    refine decDefaultIndex_leaf.congr hu fun _ e u hu => ?_
    refine decSubParts_leaf.congr hu fun n e u hu => ?_
    cases tc with
    | null => rfl
    | node fields subtypes discriminator =>
      cases hw : fields.kind.labelWidth with
      | none => simp only [decUnionMembers, hw]
      | some w =>
        simp only [decUnionMembers, hw, decArms_eq]
        exact h.loop (decLabel_leaf _ _) n hu
  case «alias» =>
    refine decRepoId_leaf.ignored.congr hs fun _ e u hu => ?_
    refine decName_leaf.ignored.congr hu fun _ e u hu => ?_
    exact h.field hu fun _ _ _ _ => rfl
  case sequence | array => exact h.field hs fun _ _ _ _ => rfl
  all_goals rfl

end

theorem useEncapsBuf_length {c encaps rest : RecvCursor}
    (h : useEncapsBuf c = some (some encaps, rest)) :
    encaps.data.length < c.data.length ∧ rest.data = c.data := by
  unfold useEncapsBuf at h
  dsimp only at h
  split at h
  · cases h
  · generalize (if c.sender ≠ c.host then _ else _) = len at h
    split at h
    · cases h
    · split at h
      · cases h
      · cases h
        refine ⟨?_, rfl⟩
        simp only [List.length_take, List.length_drop]
        omega

/-- Steps that stay in the data, however they end. -/
def Stays {α : Type} (m : Reading (Draft × TcState) α) : Prop :=
  ∀ d s d' t, ((∃ a, m (d, s) = .ok a (d', t)) ∨ m (d, s) = .fail (d', t)) →
    t.cursor.data = s.cursor.data

theorem Stays.pure {α : Type} (a : α) : Stays (pure a : Reading (Draft × TcState) α) := by
  rintro d s d' t (⟨_, h⟩ | h) <;> cases h
  rfl

theorem Stays.bind {α β : Type} {m : Reading (Draft × TcState) α}
    {f : α → Reading (Draft × TcState) β} (hm : Leaf m) (hf : ∀ a, Stays (f a)) :
    Stays (m >>= f) := by
  intro d s d' t h
  rcases hm d s with ⟨a, e, u, hd, ha, _⟩ | ⟨u, hd, ha⟩
  · rw [Reading.bind_ok hd] at h
    exact (hf a e u d' t h).trans ha.data
  · rw [Reading.bind_fail hd] at h
    rcases h with ⟨_, h⟩ | h <;> cases h
    exact ha.data

/-- A simple TypeCode is read from the data around it. -/
theorem decoder_stays (dec : Reading TcState Decoded) {kind : TCKind}
    (hk : kind.tkType = .simple) : Stays (decoder dec kind) := by
  cases kind <;> simp only [TCKind.tkType, reduceCtorEq] at hk
  case string | wstring => exact Stays.bind decLength_leaf fun _ => Stays.pure ()
  case fixed =>
    exact Stays.bind decDigits_leaf fun _ => Stays.bind decScale_leaf fun _ => Stays.pure ()

theorem tcFinish_data {index : Nat} {d : Draft} {s t : TcState} {tc : Decoded}
    (h : tcFinish index d s = .ok tc t) : t.cursor.data = s.cursor.data := by
  rw [(tcFinish_ok h).2]

theorem tcNode_data {dec : Reading TcState Decoded} {kind : TCKind} {s t : TcState} {tc : Decoded}
    (h : tcNode dec kind s = .ok tc t) : t.cursor.data = s.cursor.data := by
  unfold tcNode at h
  dsimp only at h
  cases hk : kind.tkType <;> simp only [hk] at h
  case empty =>
    cases h
    rfl
  case simple =>
    split at h
    · rename_i d u hrun
      exact (tcFinish_data h).trans (decoder_stays dec hk _ _ _ _ (.inl ⟨_, hrun⟩))
    · rename_i d u hrun
      exact (tcFinish_data h).trans (decoder_stays dec hk _ _ _ _ (.inr hrun))
    · cases h
  case complex =>
    split at h
    · rename_i encaps c huse
      have hc := (useEncapsBuf_length huse).2
      split at h
      · exact (tcFinish_data h).trans hc
      · exact (tcFinish_data h).trans hc
      · cases h
    · cases h

theorem tcDec_data {n : Nat} {s t : TcState} {tc : Decoded} (h : tcDec n s = .ok tc t) :
    t.cursor.data = s.cursor.data := by
  cases n with
  | zero => cases h
  | succ n =>
    rw [tcDec] at h
    rcases cdrGet_plain 4 s with ⟨lkind, s₁, hg, ha⟩ | ⟨s₁, hg, _⟩
    · rw [Reading.bind_ok hg] at h
      rw [← ha.data]
      cases hk : TCKind.all[lkind]? with
      | some kind =>
        simp only [hk] at h
        exact tcNode_data h
      | none =>
        simp only [hk] at h
        split at h
        · rcases cdrGet_plain 4 s₁ with ⟨offset, s₂, hg, hb⟩ | ⟨s₂, hg, _⟩
          · rw [tcRecursive_of hg] at h
            split at h <;> cases h
            exact hb.data
          · rw [tcRecursive_of_fail hg] at h
            cases h
        · cases h
    · rw [Reading.bind_fail hg] at h
      cases h

theorem decoder_simple (dec dec' : Reading TcState Decoded) {kind : TCKind}
    (hk : kind.tkType = .simple) : decoder dec kind = decoder dec' kind := by
  cases kind <;> simp only [TCKind.tkType, reduceCtorEq] at hk <;> rfl

theorem tcNode_congr {dec dec' : Reading TcState Decoded} {kind : TCKind} {s : TcState}
    (h : ∀ data : List UInt8, data.length < s.cursor.data.length → Agree data dec dec') :
    tcNode dec kind s = tcNode dec' kind s := by
  unfold tcNode
  dsimp only
  cases hk : kind.tkType with
  | empty => rfl
  | simple =>
    simp only
    rw [decoder_simple dec dec' hk]
  | complex =>
    simp only
    cases huse : useEncapsBuf s.cursor with
    | none => rfl
    | some r =>
      obtain ⟨encaps, c⟩ := r
      cases encaps with
      | none => rfl
      | some encaps =>
        simp only
        rw [(h encaps.data (useEncapsBuf_length huse).1).decoder kind rfl]

end ORBit2
