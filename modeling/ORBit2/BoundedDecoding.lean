import ORBit2.MessageMemory

/-! How much of the memory around a message its decoding depends on: nothing, as long as what is
read without a check lies in the message. -/

set_option autoImplicit false

namespace ORBit2
open Words Peeking

/-! ### The checks -/

namespace Dec

/-- Where there are `k` bytes left, nothing behind the message is read. -/
def Checked {α : Type} (k : Nat) (m : Dec α) : Prop :=
  ∀ c : RecvCursor, c.cur + k ≤ c.data.length → m c ≠ .error .undefined

/-- Nothing behind the message is read. -/
def Bounded {α : Type} (m : Dec α) : Prop := ∀ c, m c ≠ .error .undefined

variable {α β : Type} {m : Dec α} {f : α → Dec β} {k n w : Nat}

theorem Bounded.checked (h : m.Bounded) : m.Checked k := fun c _ => h c

theorem Bounded.bind (h : m.Bounded) (hf : ∀ a, (f a).Bounded) : (m >>= f).Bounded := by
  intro c
  have hm := h c
  rw [bind_apply]
  cases hr : m c with
  | error e =>
    rw [hr] at hm
    exact fun he => hm (by simpa using he)
  | ok r => exact hf r.1 r.2

theorem bounded_pure (a : α) : (pure a : Dec α).Bounded := fun _ h => nomatch h

theorem bounded_fail : (stop .fail : Dec α).Bounded := fun _ h => nomatch h

theorem bounded_align (n : Nat) : (align n).Bounded := fun _ h => nomatch h

theorem bounded_advance (n : Nat) : (advance n).Bounded := fun _ h => nomatch h

theorem bounded_need (n : Nat) : (need n).Bounded := by
  intro c h
  rw [need] at h
  split at h <;> cases h

/-- A check covers what is read behind it. -/
theorem bounded_need_bind {f : Unit → Dec β} (h : (f ()).Checked n) : (need n >>= f).Bounded := by
  intro c
  rw [bind_apply, need]
  by_cases hn : c.data.length < c.cur + n
  · rw [if_pos hn]
    rintro ⟨⟩
  · rw [if_neg hn]
    exact h c (by omega)

/-- A word uses up as many bytes as it has. -/
theorem checked_word_bind {f : Nat → Dec β} (h : w ≤ k) (hf : ∀ n, (f n).Checked (k - w)) :
    (word w >>= f).Checked k := by
  intro c hc
  rw [word, bind_assoc, bind_apply, peek, if_neg (by omega)]
  exact hf _ _ (by simp only; omega)

theorem checked_peekBytes_bind {f : List UInt8 → Dec β} (h : n ≤ k) (hf : ∀ bs, (f bs).Checked k) :
    (peekBytes n >>= f).Checked k := by
  intro c hc
  rw [bind_apply, peekBytes, if_neg (by omega)]
  exact hf _ c hc

theorem checked_peek_bind {f : Nat → Dec β} (h : w ≤ k) (hf : ∀ n, (f n).Checked k) :
    (peek w >>= f).Checked k := by
  intro c hc
  rw [bind_apply, peek, if_neg (by omega)]
  exact hf _ c hc

theorem bounded_alignedWord (w : Nat) : (alignedWord w).Bounded := by
  refine (bounded_align w).bind fun _ => bounded_need_bind (checked_peek_bind (Nat.le_refl w) fun n => ?_)
  exact ((bounded_advance w).bind fun _ => bounded_pure n).checked

theorem bounded_octets (n : Nat) : (octets n).Bounded := by
  refine bounded_need_bind (checked_peekBytes_bind (Nat.le_refl n) fun bs => ?_)
  exact ((bounded_advance n).bind fun _ => bounded_pure bs).checked

theorem bounded_counted : counted.Bounded := (bounded_alignedWord 4).bind bounded_octets

theorem bounded_stringBlock : stringBlock.Bounded :=
  (bounded_alignedWord 4).bind fun n => (bounded_octets n).bind fun _ => bounded_pure _

theorem checked_ulong_bind {f : UInt32 → Dec β} (h : 4 ≤ k) (hf : ∀ n, (f n).Checked (k - 4)) :
    (ulong >>= f).Checked k := by
  rw [ulong, bind_assoc]
  exact checked_word_bind h fun n => hf _

theorem bounded_port : port.Bounded :=
  (bounded_align 2).bind fun _ => bounded_need_bind
    (checked_word_bind (Nat.le_refl 2) fun _ => (bounded_pure _).checked)

theorem bounded_version : version.Bounded := by
  refine (bounded_octets 2).bind fun v => ?_
  cases Version.ofIds v with
  | none => exact bounded_fail
  | some version => exact bounded_pure version

theorem bounded_orbitSpecific : demarshalOrbitSpecific.Bounded :=
  (bounded_need 2).bind fun _ => (bounded_advance 2).bind fun _ =>
    bounded_stringBlock.bind fun _ => bounded_port.bind fun _ => bounded_counted.bind fun _ =>
      bounded_pure _

theorem bounded_encapsLength : encapsLength.Bounded :=
  (bounded_alignedWord 4).bind fun len => (bounded_need len).bind fun _ => bounded_pure len

theorem bounded_codeSetHead : InMemory.codeSetHead.Bounded := by
  refine (bounded_align 4).bind fun _ => bounded_need_bind ?_
  refine checked_ulong_bind (by decide) fun native => checked_word_bind (by decide) fun n => ?_
  exact ((bounded_need _).bind fun _ => bounded_pure (native, n)).checked

theorem bounded_sslSecTrans : InMemory.sslSecTrans.Bounded := by
  refine (bounded_align 4).bind fun _ => bounded_need_bind ?_
  refine checked_ulong_bind (by decide) fun _ => ?_
  refine checked_ulong_bind (by decide) fun _ => ?_
  rw [ushort, bind_assoc]
  exact checked_word_bind (by decide) fun _ => (bounded_pure _).checked

theorem bounded_iorHead : InMemory.iorHead.Bounded :=
  (bounded_alignedWord 4).bind fun _ => (bounded_need _).bind fun _ =>
    Bounded.bind (fun _ h => nomatch h) fun _ => (bounded_advance _).bind fun _ =>
      (bounded_alignedWord 4).bind fun _ => bounded_pure _

theorem bounded_number (w : Nat) : (InMemory.number w).Bounded := by
  unfold InMemory.number
  split
  · exact (bounded_octets 1).bind fun _ => bounded_pure _
  · exact bounded_alignedWord w

/-- A length that has been accepted is not negative, and so many bytes are there. -/
theorem signedLength_ok {c c' : RecvCursor} {i : Int} (h : signedLength c = .ok (i, c')) :
    c'.cur + i.toNat ≤ c'.data.length := by
  obtain ⟨n, c₁, -, h⟩ := bind_eq_ok.mp h
  obtain ⟨⟨⟩, c₂, hneed, h⟩ := bind_eq_ok.mp h
  cases h
  rw [needSigned] at hneed
  split at hneed
  · cases hneed
  · cases hneed
    omega

theorem bounded_signedLength : signedLength.Bounded := by
  refine (bounded_alignedWord 4).bind fun n => Bounded.bind (fun c h => ?_) fun _ => bounded_pure _
  rw [needSigned] at h
  split at h <;> cases h

/-- The marker is read where there are two bytes, and as many bytes are left as it says. -/
theorem marker_cases {c : RecvCursor} {i : Nat} (hi : c.cur + i ≤ c.data.length) :
    ∃ m n c', marker i c = .ok ((m, n), c') ∧ c'.cur + n ≤ c'.data.length := by
  rw [marker]
  by_cases h2 : 2 ≤ i
  · rw [if_pos h2, bind_apply, hostUnit, if_neg (by omega)]
    by_cases hm : c.host.join ((c.data.drop c.cur).take 2) = 0xfeff ∨
        c.host.join ((c.data.drop c.cur).take 2) = 0xfffe
    · exact ⟨_, i - 2, { c with cur := c.cur + 2 }, by simp only [if_pos hm]; rfl, by simp only; omega⟩
    · exact ⟨_, i, c, by simp only [if_neg hm]; rfl, hi⟩
  · rw [if_neg h2]
    exact ⟨_, i, c, rfl, hi⟩

theorem bounded_wideText : InMemory.wideText.Bounded := by
  intro c
  rw [InMemory.wideText, bind_apply]
  cases hlen : signedLength c with
  | error e =>
    have h := bounded_signedLength c
    rw [hlen] at h
    exact fun he => h (by simpa using he)
  | ok r =>
    obtain ⟨i, c₁⟩ := r
    obtain ⟨m, n, c₂, hmarker, hn⟩ := marker_cases (signedLength_ok hlen)
    simp only
    rw [bind_ok hmarker]
    refine checked_peekBytes_bind (Nat.le_refl n) (fun bs => ?_) c₂ hn
    exact ((bounded_advance n).bind fun _ => bounded_pure _).checked

end Dec

/-! ### What is read otherwise -/

theorem Dec.Bounded.sound {α : Type} {m : Dec α} (g : Given) (h : m.Bounded) : m.prog.Sound g := by
  refine .lift fun c => ?_
  have hc := h c
  split
  · rfl
  · rfl
  · rename_i he
    exact absurd he hc

theorem Reading.sound {σ α : Type} (g : Given) (m : Reading σ α) : m.prog.Sound g := by
  refine .lift fun s => ?_
  split <;> rfl

namespace InMemory
open Prog.Sound
variable (g : Given)

/-! ### TypeCodes -/

section
variable {dec : Prog TcState Decoded} (hdec : dec.Sound g)
include hdec

theorem sound_decField (set : Decoded → Draft → Draft) : (decField dec set).Sound g :=
  .bind (.within hdec) fun _ => .lift fun _ => rfl

theorem sound_decMembers (n : Nat) : (decMembers dec n).Sound g := by
  induction n with
  | zero => exact .pure ()
  | succ n ih =>
    exact .bind (Reading.sound g _) fun _ => .bind (sound_decField g hdec _) fun _ => ih

theorem sound_decArms (discriminator : TCKind) (w n : Nat) :
    (decArms dec discriminator w n).Sound g := by
  induction n with
  | zero => exact .pure ()
  | succ n ih =>
    exact .bind (Reading.sound g _) fun _ => .bind (Reading.sound g _) fun _ =>
      .bind (sound_decField g hdec _) fun _ => ih

theorem sound_decUnionMembers (subParts : Nat) (tc : Decoded) :
    (decUnionMembers dec subParts tc).Sound g := by
  cases tc with
  | null => exact .abort
  | node fields subtypes discriminator =>
    rw [decUnionMembers]
    split
    · exact sound_decArms g hdec _ _ _
    · exact .abort

theorem sound_decoder (kind : TCKind) : (decoder dec kind).Sound g := by
  unfold decoder
  split
  case h_1 | h_2 =>
    exact .bind (Reading.sound g _) fun _ => .bind (Reading.sound g _) fun _ =>
      .bind (Reading.sound g _) fun n => sound_decMembers g hdec n
  case h_3 =>
    exact .bind (Reading.sound g _) fun _ => .bind (Reading.sound g _) fun _ =>
      .bind (sound_decField g hdec _) fun _ => .bind (Reading.sound g _) fun _ =>
        .bind (Reading.sound g _) fun n => sound_decUnionMembers g hdec n _
  case h_4 =>
    exact .bind (Reading.sound g _) fun _ => .bind (Reading.sound g _) fun _ =>
      .bind (sound_decField g hdec _) fun _ => .pure ()
  case h_5 | h_6 =>
    exact .bind (sound_decField g hdec _) fun _ => .bind (Reading.sound g _) fun _ => .pure ()
  case h_7 => exact Reading.sound g _

theorem sound_decDraft (kind : TCKind) : (decDraft dec kind).Sound g :=
  .within (.bind (.caught (sound_decoder g hdec kind)) fun _ => .lift fun _ => rfl)

theorem sound_tcNode (kind : TCKind) : (tcNode dec kind).Sound g := by
  refine .ask fun s => ?_
  split
  · exact .lift fun _ => rfl
  · exact .bind (sound_decDraft g hdec kind) fun d => Reading.sound g _
  · refine .bind (.lift fun t => ?_) fun len => .bind (.peek _) fun flags =>
      .bind (.within (sound_decDraft g hdec kind)) fun d => Reading.sound g _
    have h := Dec.bounded_encapsLength t.cursor
    split
    · rfl
    · rfl
    · rename_i he
      exact absurd he h

end

theorem sound_tcDec (depth : Nat) : (tcDec depth).Sound g := by
  induction depth with
  | zero => exact .abort
  | succ depth ih =>
    refine .bind (Reading.sound g _) fun lkind => ?_
    split
    · exact sound_tcNode g ih _
    · exact .ite (Reading.sound g _) .fail

theorem sound_decodeTypeCode : decodeTypeCode.Sound g :=
  .ask fun _ => .within (sound_tcDec g _)

/-! ### Object references -/

theorem sound_encaps {α : Type} {inside : Bool} {m : Prog RecvCursor α} (h : m.Sound g) :
    (encaps inside m).Sound g :=
  .bind (Dec.bounded_encapsLength.sound g) fun _ => .bind (.peek _) fun _ => .within h

theorem sound_demarshalCodeSet : demarshalCodeSet.Sound g :=
  .bind (Dec.bounded_codeSetHead.sound g) fun _ => .bind (.peek _) fun _ =>
    .bind ((Dec.bounded_advance _).sound g) fun _ => .ask fun _ => .pure _

theorem sound_demarshalComponentOf (cid : UInt32) : (demarshalComponentOf cid).Sound g := by
  unfold demarshalComponentOf
  split
  · exact .bind (Dec.bounded_counted.sound g) fun _ => .pure _
  refine .ite ?_ (.ite ?_ (.ite ?_ ?_))
  · exact .bind (Dec.bounded_counted.sound g) fun _ => .pure _
  · exact .bind (sound_encaps g (Dec.bounded_stringBlock.sound g)) fun _ => .pure _
  · exact sound_encaps g (Dec.bounded_sslSecTrans.sound g)
  · exact sound_encaps g (.bind (sound_demarshalCodeSet g) fun _ =>
      .bind (sound_demarshalCodeSet g) fun _ => .pure _)

theorem sound_demarshalComponents : demarshalComponents.Sound g :=
  .bind ((Dec.bounded_alignedWord 4).sound g) fun len =>
    .times (.bind ((Dec.bounded_alignedWord 4).sound g) fun _ => sound_demarshalComponentOf g _) len

theorem sound_demarshalInternetIop : demarshalInternetIop.Sound g := by
  refine .bind (Dec.bounded_version.sound g) fun version =>
    .bind (Dec.bounded_stringBlock.sound g) fun _ => .bind (Dec.bounded_port.sound g) fun _ =>
      .bind (Dec.bounded_counted.sound g) fun _ => ?_
  exact .ite (.bind (sound_demarshalComponents g) fun _ => .pure _) (.bind (.pure _) fun _ => .pure _)

theorem sound_demarshalGenericIop : demarshalGenericIop.Sound g :=
  .bind (Dec.bounded_version.sound g) fun _ => .bind (Dec.bounded_stringBlock.sound g) fun _ =>
    .bind (Dec.bounded_stringBlock.sound g) fun _ => .bind (Dec.bounded_stringBlock.sound g) fun _ =>
      .bind (sound_demarshalComponents g) fun _ => .pure _

theorem sound_demarshalProfile : demarshalProfile.Sound g := by
  refine .bind ((Dec.bounded_alignedWord 4).sound g) fun p => ?_
  unfold demarshalProfileOf
  split
  · exact .bind (Dec.bounded_counted.sound g) fun _ => .pure _
  refine .ite ?_ (.ite ?_ (.ite ?_ ?_))
  · exact sound_encaps g (sound_demarshalInternetIop g)
  · exact .bind (sound_encaps g (sound_demarshalComponents g)) fun _ => .pure _
  · exact sound_encaps g (sound_demarshalGenericIop g)
  · exact sound_encaps g (Dec.bounded_orbitSpecific.sound g)

theorem sound_demarshalIOR : demarshalIOR.Sound g := by
  refine .bind (Dec.bounded_iorHead.sound g) fun _ => .bind (.peek _) fun _ => .ite (.pure _) ?_
  exact .bind (.times (sound_demarshalProfile g) _) fun _ => .pure _

theorem sound_demarshalObject : demarshalObject.Sound g := by
  refine .bind (.within (sound_demarshalIOR g)) fun ior => ?_
  split
  · exact .pure _
  · refine .bind (.peek _) fun _ => .lift fun s => ?_
    split <;> rfl

/-! ### Values -/

theorem sound_demarshalString : demarshalString.Sound g :=
  .bind (.within (Dec.bounded_signedLength.sound g)) fun _ => .bind (.peek _) fun _ =>
    .bind (.within ((Dec.bounded_advance _).sound g)) fun _ => .pure _

theorem sound_elementLoop {element : Prog Receiving Received} (h : element.Sound g) (left i : Nat) :
    (elementLoop element left i).Sound g := by
  induction left generalizing i with
  | zero => exact .pure _
  | succ left ih =>
    exact .bind h fun _ => .ite .abort (.bind (ih (i+1)) fun _ => .pure _)

section
variable {any : Prog Receiving Received}

mutual

theorem sound_demarshalValue (hany : any.Sound g) : (tc : CTypeCode) → (demarshalValue any tc).Sound g
  | .node info subtypes discriminator => by
    have hhead := sound_demarshalHead hany subtypes
    unfold demarshalValue
    split
    case h_1 => exact hhead
    case h_16 => exact hany
    case h_17 => exact .bind (.within (Dec.bounded_counted.sound g)) fun _ => .pure _
    case h_18 => exact .bind (sound_demarshalObject g) fun _ => .pure _
    case h_19 => exact .bind (.within (sound_decodeTypeCode g)) fun _ => .pure _
    case h_20 | h_21 => exact .bind (sound_demarshalMembers hany subtypes) fun _ => .pure _
    case h_22 =>
      cases discriminator with
      | none => exact .abort
      | some d =>
        refine .bind (sound_demarshalValue hany d) fun switch => ?_
        split
        · exact .abort
        · exact .bind (sound_demarshalArm hany subtypes _) fun _ => .pure _
    case h_23 => exact sound_demarshalString g
    case h_24 =>
      exact .ask fun s => .bind (.within (Dec.bounded_wideText.sound g)) fun _ => .pure _
    case h_25 =>
      refine .bind (.within ((Dec.bounded_alignedWord 4).sound g)) fun length =>
        .ite (.pure _) (.ite ?_ ?_)
      · exact .bind (.within ((Dec.bounded_octets length).sound g)) fun _ => .pure _
      · exact .bind (sound_elementLoop g hhead length 0) fun _ => .pure _
    case h_26 => exact .bind (sound_elementLoop g hhead _ 0) fun _ => .pure _
    case h_27 | h_28 => exact .pure _
    case h_29 => exact .fail
    all_goals exact .bind (.within ((Dec.bounded_number _).sound g)) fun _ => .pure _

theorem sound_demarshalHead (hany : any.Sound g) : (tcs : List CTypeCode) → (demarshalHead any tcs).Sound g
  | [] => by
    rw [demarshalHead]
    exact .abort
  | tc :: _ => by
    rw [demarshalHead]
    exact sound_demarshalValue hany tc

theorem sound_demarshalMembers (hany : any.Sound g) : (tcs : List CTypeCode) → (demarshalMembers any tcs).Sound g
  | [] => by
    rw [demarshalMembers]
    exact .pure _
  | tc :: tcs => by
    rw [demarshalMembers]
    exact .bind (sound_demarshalValue hany tc) fun _ => .bind (sound_demarshalMembers hany tcs) fun _ => .pure _

theorem sound_demarshalArm (hany : any.Sound g) : (tcs : List CTypeCode) → (i : Option Nat) →
    (demarshalArm any tcs i).Sound g
  | _, none => by
    rw [demarshalArm]
    exact .pure _
  | [], some _ => by
    rw [demarshalArm]
    exact .abort
  | tc :: _, some 0 => by
    rw [demarshalArm]
    exact sound_demarshalValue hany tc
  | _ :: tcs, some (i+1) => by
    rw [demarshalArm]
    exact sound_demarshalArm hany tcs (some i)

end
end

theorem sound_demarshalAny (depth : Nat) : (demarshalAny depth).Sound g := by
  induction depth with
  | zero => exact .abort
  | succ depth ih =>
    refine .bind (.within (sound_decodeTypeCode g)) fun type => ?_
    split
    · exact .abort
    · exact .bind (sound_demarshalValue g ih _) fun _ => .pure _

theorem sound_demarshal (tc : CTypeCode) : (demarshal tc).Sound g :=
  .ask fun _ => sound_demarshalValue g (sound_demarshalAny g _) tc

/-- A buffer that lies where it says, and the references that the ORB knows. -/
def received (g : Given) (cur : Nat) (host sender : Endian) (objrefs : Option (List Reference)) :
    Receiving :=
  ⟨⟨g.base, g.data, cur, host, sender⟩, objrefs⟩

/-- Decoding ends alike, in the same state and with the same value, whatever lies around the
message. -/
def Unaffected (g : Given) (tc : CTypeCode) (s : Receiving) : Prop :=
  ∀ mem mem', g.In mem → g.In mem' → (demarshal tc mem s).1 = (demarshal tc mem' s).1

/-- The strings, type ids, encapsulations and code sets that decoding comes to, as long as those
before have been in the message. -/
def unchecked (g : Given) (tc : CTypeCode) (s : Receiving) : List Peek := (demarshal tc g.alone s).2

theorem unaffected_iff (g : Given) (cur : Nat) (host sender : Endian)
    (objrefs : Option (List Reference)) (tc : CTypeCode) :
    Unaffected g tc (received g cur host sender objrefs) ↔
      ∀ p ∈ unchecked g tc (received g cur host sender objrefs), g.Inside p :=
  (sound_demarshal g tc).same_iff _

/-- The length of a string, zero, at the end of a message. -/
def emptyText : Given := ⟨0, [0, 0, 0, 0], by decide⟩

/-- Behind it there is an `A`. -/
def behindText : Mapping := fun a => some (if a = 4 then 65 else 0)

def textOf : Option (Ended Receiving Received) → Option (List UInt8)
  | some (.ok (.string chars) _) => some chars
  | _ => none

theorem emptyText_affected :
    ¬ Unaffected emptyText (.basic .string) (received emptyText 0 .little .little none) := by
  intro h
  have hin : emptyText.In behindText := by
    intro a b hb
    have hlt : a < 4 := (Given.alone_isSome.mp (Option.isSome_of_eq_some hb)).2
    match a, hlt with
    | 0, _ | 1, _ | 2, _ | 3, _ => exact hb
  have hsame := congrArg textOf (h _ _ emptyText.in_padded hin)
  exact absurd hsame (by decide)

end InMemory
end ORBit2
