import ORBit2.ValueAtoms

/-! `ORBit_demarshal_value` on what `ORBit_marshal_value` appended. The two agree on
every value whose counts fit the signed `CORBA_long i` that the reader keeps them in. -/

set_option autoImplicit false

namespace ORBit2
open Words

mutual

/-- Every count the reader holds in its `CORBA_long i` stays below `2^31`. -/
def fits : TypeCode → Value → Bool
  | .string, .string s => s.length + 1 < 2^31
  | .wstring, .wstring s => (s.length+1) * 2 < 2^31
  | .struct tcs, .struct vs | .except tcs, .struct vs => fitsAll tcs vs
  | .union d tcs labels dflt, .union dv v =>
      fits d dv &&
      match getUnionSwitch d dv with
      | none => true
      | some x =>
          match getUnionTag labels dflt x with
          | none => true
          | some i => fitsArm tcs i v
  | .sequence tc, .seq vs => tc.isOctet || (vs.all (fits tc) && vs.length < 2^31)
  | .array tc n, .seq vs => vs.all (fits tc) && n < 2^31
  | .alias tc, v => fits tc v
  | _, _ => true

def fitsAll : List TypeCode → List Value → Bool
  | tc :: tcs, v :: vs => fits tc v && fitsAll tcs vs
  | _, _ => true

def fitsArm : List TypeCode → Nat → Value → Bool
  | tc :: _, 0, v => fits tc v
  | _ :: tcs, i+1, v => fitsArm tcs i v
  | [], _, _ => true

end

section
variable {sender : Endian} {enc : Value → Option (List SendOp)} {element : Dec Value}
  {good : Value → Bool}

/-- The elements of a list were encoded one by one, each readable by `element`. -/
def Encodes (sender : Endian) (element : Dec Value) (good : Value → Bool) (vs : List Value)
    (opss : List (List SendOp)) : Prop :=
  List.Forall₂ (fun v ops => Agrees sender ops element v (good v)) vs opss

theorem exists_encodes {vs : List Value}
    (h : ∀ v ∈ vs, ∃ ops, enc v = some ops ∧ Agrees sender ops element v (good v)) :
    ∃ opss, vs.mapM enc = some opss ∧ Encodes sender element good vs opss := by
  induction vs with
  | nil => exact ⟨[], rfl, .nil⟩
  | cons v vs ih =>
    obtain ⟨ops, he, ha⟩ := h v (by simp)
    obtain ⟨opss, hes, has⟩ := ih (fun u hu => h u (by simp [hu]))
    exact ⟨ops :: opss, by simp [List.mapM_cons, he, hes], .cons ha has⟩

/-- Between two rounds the elements fit the block, and `room` is what was asked for. -/
structure GrowBuffer.Ready (length : Nat) (b : GrowBuffer) : Prop where
  stored : b.elements.length ≤ b.alloc
  alloc_pos : 0 < b.alloc
  room_eq : b.room = min b.alloc length
  index : b.elements.length < 2^31

theorem GrowBuffer.Ready.start (length : Nat) :
    GrowBuffer.Ready length ⟨[], min length 4096, 4096⟩ := by
  constructor <;> simp [Nat.min_comm]

theorem GrowBuffer.Ready.grow {length : Nat} {b : GrowBuffer} (h : b.Ready length)
    (hl : b.elements.length < length) :
    ∃ b', b.grow length = pure b' ∧ b'.elements = b.elements ∧ b'.Ready length ∧
      b'.elements.length < b'.room := by
  obtain ⟨hs, hp, hr, hi⟩ := h
  unfold GrowBuffer.grow
  by_cases hf : b.elements.length = b.alloc
  · have hd : b.alloc * 2 % 2^32 = b.alloc * 2 := Nat.mod_eq_of_lt (by omega)
    rw [if_pos hf, hd, if_neg (by omega)]
    refine ⟨_, rfl, rfl, ⟨?_, ?_, rfl, hi⟩, ?_⟩
    · simp only; omega
    · simp only; omega
    · simp only; omega
  · rw [if_neg hf]
    exact ⟨b, rfl, rfl, ⟨hs, hp, hr, hi⟩, by omega⟩

theorem agrees_store (sender : Endian) {b : GrowBuffer} {v : Value} (h : b.elements.length < b.room) :
    Agrees sender [] (b.store v) { b with elements := b.elements ++ [v] }
      (b.elements.length + 1 < 2^31) := by
  unfold GrowBuffer.store
  by_cases hi : b.elements.length + 1 < 2^31
  · rw [if_pos ⟨h, hi⟩, decide_eq_true hi]
    exact Agrees.pure _
  · rw [if_neg (fun hc => hi hc.2), decide_eq_false hi]
    exact fun f p _ _ => ⟨.undefined, rfl⟩

theorem growLoop_agrees {vs : List Value} {opss : List (List SendOp)}
    (h : Encodes sender element good vs opss) {length : Nat} (b : GrowBuffer)
    (hb : b.Ready length) (hl : b.elements.length + vs.length = length) :
    Agrees sender opss.flatten (growLoop element length vs.length b) (b.elements ++ vs)
      (vs.all good && length < 2^31) := by
  unfold Encodes at h
  induction h generalizing b with
  | nil =>
    have hi := hb.index
    simp only [List.length_nil, Nat.add_zero] at hl
    rw [← hl, decide_eq_true hi]
    simpa [growLoop] using Agrees.pure b.elements
  | cons hv hvs ih =>
    rename_i v ops vs opss
    simp only [List.length_cons] at hl
    obtain ⟨b', hg, he, hr, hroom⟩ := hb.grow (by omega)
    have hrest : b'.elements.length + 1 < 2^31 →
        Agrees sender opss.flatten
          (growLoop element length vs.length { b' with elements := b'.elements ++ [v] })
          (b.elements ++ v :: vs) (vs.all good && length < 2^31) := by
      intro hi
      have hready : GrowBuffer.Ready length { b' with elements := b'.elements ++ [v] } := by
        refine ⟨?_, hr.alloc_pos, hr.room_eq, by simpa using hi⟩
        have := hr.room_eq
        simp only [List.length_append, List.length_singleton]; omega
      have hrest := ih _ hready (by simp [he]; omega)
      simpa [he] using hrest
    have hstep := (agrees_store sender (v := v) hroom).bind
      (fun hi => hrest (by simpa using hi))
    have hstep : Agrees sender (ops ++ ([] ++ opss.flatten))
        (element >>= fun v => b'.store v >>= growLoop element length vs.length) _ _ :=
      hv.bind (fun _ => hstep)
    have hgood : (good v && (decide (b'.elements.length + 1 < 2^31) &&
        (vs.all good && decide (length < 2^31)))) =
        ((v :: vs).all good && decide (length < 2^31)) := by
      by_cases hi : length < 2^31
      · have hj : b'.elements.length + 1 < 2^31 := by rw [he]; omega
        simp only [List.all_cons, decide_eq_true hi, decide_eq_true hj, Bool.true_and,
          Bool.and_true]
      · simp only [List.all_cons, decide_eq_false hi, Bool.and_false]
    rw [hgood] at hstep
    simpa only [List.flatten_cons, List.length_cons, growLoop, hg, Dec.pure_bind, List.nil_append]
      using hstep

theorem arrayLoop_agrees {vs : List Value} {opss : List (List SendOp)}
    (h : Encodes sender element good vs opss) {n : Nat} (i : Nat) (hi : i < 2^31)
    (hn : i + vs.length = n) :
    Agrees sender opss.flatten (arrayLoop element vs.length i) vs
      (vs.all good && n < 2^31) := by
  unfold Encodes at h
  induction h generalizing i with
  | nil =>
    simp only [List.length_nil, Nat.add_zero] at hn
    rw [← hn, decide_eq_true hi]
    simpa [arrayLoop] using Agrees.pure []
  | cons hv hvs ih =>
    rename_i v ops vs opss
    simp only [List.length_cons] at hn
    by_cases hi : i + 1 < 2^31
    · have hrest := (ih (i+1) hi (by omega)).map (fun vs => v :: vs)
      have hstep : Agrees sender (ops ++ opss.flatten)
          (element >>= fun v => arrayLoop element vs.length (i+1) >>= fun vs => pure (v :: vs))
          _ _ := hv.bind (fun _ => hrest)
      rw [← Bool.and_assoc] at hstep
      simpa only [List.flatten_cons, List.length_cons, List.all_cons, arrayLoop, if_pos hi]
        using hstep
    · have hstop : ∀ v : Value, Agrees sender opss.flatten (Dec.stop .undefined : Dec (List Value))
          (v :: vs) false := fun v f p _ _ => ⟨.undefined, rfl⟩
      have hstep : Agrees sender (ops ++ opss.flatten)
          (element >>= fun _ => (Dec.stop .undefined : Dec (List Value))) _ _ :=
        hv.bind (fun _ => hstop v)
      have hf : decide (n < 2^31) = false := decide_eq_false (by omega)
      simpa only [List.flatten_cons, List.length_cons, arrayLoop, if_neg hi, hf, Bool.and_false]
        using hstep

theorem run_octets (b : PlainBuffer) (vs : List Value) :
    b.run sender (vs.map fun v => [SendOp.append (Value.octets [v])]).flatten =
      b.append (Value.octets vs) := by
  induction vs generalizing b with
  | nil => simp [Value.octets, PlainBuffer.append]
  | cons v vs ih =>
    have hv : Value.octets (v :: vs) = Value.octets [v] ++ Value.octets vs := by
      simp [Value.octets]
    simp only [List.map_cons, List.flatten_cons, List.singleton_append, PlainBuffer.run_cons,
      PlainBuffer.exec, ih, hv]
    simp [PlainBuffer.append, List.append_assoc]

/-- A one-byte value is a word below 256. -/
theorem hasType_octet {tc : TypeCode} (ht : tc.isOctet) {v : Value} (hv : hasType tc v) :
    ∃ n < 256, v = .word n ∧ ∃ k : BasicKind, tc = .basic k ∧ k.size = 1 := by
  cases tc with
  | basic k =>
    have hk : k.size = 1 := by cases k <;> simp [TypeCode.isOctet] at ht <;> rfl
    cases v with
    | word n => exact ⟨n, by simpa [hasType, hk] using hv, rfl, k, rfl, hk⟩
    | _ => simp [hasType] at hv
  | _ => simp [TypeCode.isOctet] at ht

theorem agrees_octet {tc : TypeCode} (ht : tc.isOctet) {v : Value} (hv : hasType tc v) :
    Agrees sender [.append (Value.octets [v])] (demarshalValue tc) v (fits tc v) := by
  obtain ⟨n, hn, rfl, k, rfl, hk⟩ := hasType_octet ht hv
  obtain ⟨ops, ho, ha⟩ := agrees_basic sender k (n := n) (by rw [hk]; omega)
  have hs : sender.split 1 n = [UInt8.ofNat n] := by
    cases sender <;> simp [Endian.split, splitLE, Nat.mod_eq_of_lt hn]
  simp only [marshalValue, hk, if_true, Option.some.injEq] at ho
  rw [← ho, hs] at ha
  simpa [fits, Value.octets] using ha

theorem map_toNat_octets {tc : TypeCode} (ht : tc.isOctet) {vs : List Value}
    (hvs : ∀ v ∈ vs, hasType tc v) :
    (Value.octets vs).map (fun b => Value.word b.toNat) = vs := by
  induction vs with
  | nil => rfl
  | cons v vs ih =>
    obtain ⟨n, hn, rfl, -⟩ := hasType_octet ht (hvs v (by simp))
    have ih := ih (fun u hu => hvs u (by simp [hu]))
    have hb : (UInt8.ofNat n).toNat = n := by simp; omega
    simpa [Value.octets, hb] using ih

theorem agrees_octetSequence {tc : TypeCode} (ht : tc.isOctet) {vs : List Value}
    (hvs : ∀ v ∈ vs, hasType tc v) (hl : vs.length < 2^32) :
    Agrees sender [.align 4, .append (sender.split 4 vs.length), .append (Value.octets vs)]
      (demarshalValue (.sequence tc)) (.seq vs) true := by
  have hlen : (Value.octets vs).length = vs.length := by simp [Value.octets]
  have hword := agrees_alignedWord sender (w := 4) (n := vs.length) (by decide)
    (by omega)
  have hbody : Agrees sender [.append (Value.octets vs)]
      (if vs.length = 0 then pure (Value.seq [])
       else Dec.octets vs.length >>= fun bs => pure (Value.seq (bs.map fun b => .word b.toNat)))
      (Value.seq vs) true := by
    by_cases h0 : vs.length = 0
    · rw [if_pos h0, List.eq_nil_of_length_eq_zero h0]
      refine (Agrees.pure (Value.seq [])).congr (fun b => ?_)
      simp [PlainBuffer.exec, PlainBuffer.append, Value.octets]
    · rw [if_neg h0]
      have h := (agrees_octets sender (Value.octets vs) hlen).map
        (fun bs => Value.seq (bs.map fun b => .word b.toNat))
      rwa [map_toNat_octets ht hvs] at h
  have h := hword.bind (k := fun length => if length = 0 then pure (Value.seq [])
    else Dec.octets length >>= fun bs => pure (Value.seq (bs.map fun b => .word b.toNat)))
    (fun _ => hbody)
  simp only [demarshalValue, ht, if_true]
  refine Agrees.congr (fun b => ?_) h
  simp [PlainBuffer.exec, PlainBuffer.appendAligned]

theorem agrees_sequence {tc : TypeCode} (ht : tc.isOctet = false) {vs : List Value}
    {opss : List (List SendOp)} {good : Value → Bool}
    (h : Encodes sender (demarshalValue tc) good vs opss) (hl : vs.length < 2^32) :
    Agrees sender (SendOp.align 4 :: .append (sender.split 4 vs.length) :: opss.flatten)
      (demarshalValue (.sequence tc)) (.seq vs) (vs.all good && vs.length < 2^31) := by
  have hword := agrees_alignedWord sender (w := 4) (n := vs.length) (by decide)
    (by omega)
  have hbody : Agrees sender opss.flatten
      (if vs.length = 0 then pure (Value.seq [])
       else growLoop (demarshalValue tc) vs.length vs.length ⟨[], min vs.length 4096, 4096⟩ >>=
        fun vs => pure (Value.seq vs))
      (Value.seq vs) (vs.all good && vs.length < 2^31) := by
    by_cases h0 : vs.length = 0
    · obtain rfl := List.eq_nil_of_length_eq_zero h0
      cases h
      exact Agrees.pure (Value.seq [])
    · rw [if_neg h0]
      exact (growLoop_agrees h _ (GrowBuffer.Ready.start vs.length) (by simp)).map Value.seq
  have h := hword.bind (k := fun length => if length = 0 then pure (Value.seq [])
    else growLoop (demarshalValue tc) length length ⟨[], min length 4096, 4096⟩ >>=
      fun vs => pure (Value.seq vs)) (fun _ => hbody)
  simp only [demarshalValue, ht, Bool.false_eq_true, if_false]
  refine Agrees.congr (fun b => ?_) h
  simp [PlainBuffer.exec, PlainBuffer.appendAligned]

theorem agrees_array {tc : TypeCode} {vs : List Value} {opss : List (List SendOp)}
    {good : Value → Bool} (h : Encodes sender (demarshalValue tc) good vs opss) :
    Agrees sender opss.flatten (demarshalValue (.array tc vs.length)) (.seq vs)
      (vs.all good && vs.length < 2^31) := by
  simp only [demarshalValue]
  exact (arrayLoop_agrees h 0 (by decide) (by simp)).map Value.seq

theorem encodes_octets (sender : Endian) {tc : TypeCode} (ht : tc.isOctet) {vs : List Value}
    (hvs : ∀ v ∈ vs, hasType tc v) :
    Encodes sender (demarshalValue tc) (fits tc) vs
      (vs.map fun v => [SendOp.append (Value.octets [v])]) := by
  induction vs with
  | nil => exact .nil
  | cons v vs ih =>
    exact .cons (agrees_octet ht (hvs v (by simp))) (ih (fun u hu => hvs u (by simp [hu])))

end

mutual

theorem value_agrees (sender : Endian) : (tc : TypeCode) → (v : Value) → hasType tc v →
    ∃ ops, marshalValue sender tc v = some ops ∧
      Agrees sender ops (demarshalValue tc) v (fits tc v)
  | .null, v, hv => by
    cases v with
    | null => exact ⟨[], rfl, by simpa [demarshalValue, fits] using Agrees.pure Value.null⟩
    | _ => simp [hasType] at hv
  | .basic k, v, hv => by
    cases v with
    | word n => simpa [fits] using agrees_basic sender k (by simpa [hasType] using hv)
    | _ => simp [hasType] at hv
  | .string, v, hv => by
    cases v with
    | string s =>
      simp only [hasType, Bool.and_eq_true, List.all_eq_true, decide_eq_true_eq] at hv
      exact ⟨[.appendString s], rfl, agrees_string sender hv.1 hv.2⟩
    | _ => simp [hasType] at hv
  | .wstring, v, hv => by
    cases v with
    | wstring s =>
      simp only [hasType, Bool.and_eq_true, List.all_eq_true, decide_eq_true_eq] at hv
      exact ⟨_, rfl, agrees_wstring sender hv.1 hv.2⟩
    | _ => simp [hasType] at hv
  | .struct tcs, v, hv => by
    cases v with
    | struct vs =>
      obtain ⟨ops, he, ha⟩ := members_agree sender tcs vs (by simpa [hasType] using hv)
      refine ⟨ops, by simpa [marshalValue] using he, ?_⟩
      simpa [demarshalValue, fits] using ha.map Value.struct
    | _ => simp [hasType] at hv
  | .except tcs, v, hv => by
    cases v with
    | struct vs =>
      obtain ⟨ops, he, ha⟩ := members_agree sender tcs vs (by simpa [hasType] using hv)
      refine ⟨ops, by simpa [marshalValue] using he, ?_⟩
      simpa [demarshalValue, fits] using ha.map Value.struct
    | _ => simp [hasType] at hv
  | .union d tcs labels dflt, v, hv => by
    cases v with
    | union dv v =>
      simp only [hasType, Bool.and_eq_true] at hv
      obtain ⟨hd, hv⟩ := hv
      obtain ⟨ops, he, ha⟩ := value_agrees sender d dv hd
      cases hx : getUnionSwitch d dv with
      | none => simp [hx] at hv
      | some x =>
        simp only [hx] at hv
        cases ht : getUnionTag labels dflt x with
        | none =>
          have hn : v = .null := by cases v <;> simp_all
          subst hn
          refine ⟨ops, by simp [marshalValue, he, hx, ht], ?_⟩
          have hf : fits (.union d tcs labels dflt) (.union dv .null) = (fits d dv && true) := by
            simp [fits, hx, ht]
          rw [hf, ← List.append_nil ops, demarshalValue]
          refine ha.bind (fun _ => ?_)
          simpa only [hx, ht] using Agrees.pure (Value.union dv .null)
        | some i =>
          simp only [ht] at hv
          obtain ⟨ops', he', ha'⟩ := arm_agrees sender tcs i v hv
          refine ⟨ops ++ ops', by simp [marshalValue, he, hx, ht, he'], ?_⟩
          have hf : fits (.union d tcs labels dflt) (.union dv v) =
              (fits d dv && fitsArm tcs i v) := by
            simp [fits, hx, ht]
          rw [hf, demarshalValue]
          refine ha.bind (fun _ => ?_)
          simpa only [hx, ht] using ha'.map (Value.union dv)
    | _ => simp [hasType] at hv
  | .sequence tc, v, hv => by
    cases v with
    | seq vs =>
      simp only [hasType, Bool.and_eq_true, List.all_eq_true, decide_eq_true_eq] at hv
      obtain ⟨hvs, hl⟩ := hv
      by_cases ht : tc.isOctet
      · refine ⟨_, by simp [marshalValue, ht]; rfl, ?_⟩
        simpa [fits, ht] using agrees_octetSequence ht hvs hl
      · have ht : tc.isOctet = false := by simpa using ht
        obtain ⟨opss, he, ha⟩ := exists_encodes (fun v hm => value_agrees sender tc v (hvs v hm))
        refine ⟨_, by simp [marshalValue, ht, he]; rfl, ?_⟩
        simpa [fits, ht] using agrees_sequence ht ha hl
    | _ => simp [hasType] at hv
  | .array tc n, v, hv => by
    cases v with
    | seq vs =>
      simp only [hasType, Bool.and_eq_true, List.all_eq_true, decide_eq_true_eq, beq_iff_eq] at hv
      obtain ⟨⟨hvs, rfl⟩, hl⟩ := hv
      by_cases ht : tc.isOctet
      · refine ⟨_, by simp [marshalValue, ht]; rfl, ?_⟩
        have ha := agrees_array (encodes_octets sender ht hvs)
        have ha : Agrees sender [.append (Value.octets vs)] _ _ _ :=
          ha.congr (fun b => run_octets b vs)
        simpa [fits] using ha
      · obtain ⟨opss, he, ha⟩ := exists_encodes (fun v hm => value_agrees sender tc v (hvs v hm))
        refine ⟨_, by simp [marshalValue, ht, he]; rfl, ?_⟩
        simpa [fits] using agrees_array ha
    | _ => simp [hasType] at hv
  | .alias tc, v, hv => by
    obtain ⟨ops, he, ha⟩ := value_agrees sender tc v (by simpa [hasType] using hv)
    exact ⟨ops, by simpa [marshalValue] using he, by simpa [demarshalValue, fits] using ha⟩

theorem members_agree (sender : Endian) : (tcs : List TypeCode) → (vs : List Value) →
    hasTypes tcs vs → ∃ ops, marshalMembers sender tcs vs = some ops ∧
      Agrees sender ops (demarshalMembers tcs) vs (fitsAll tcs vs)
  | [], vs, hv => by
    cases vs with
    | nil => exact ⟨[], rfl, by simpa [demarshalMembers, fitsAll] using Agrees.pure []⟩
    | cons v vs => simp [hasTypes] at hv
  | tc :: tcs, vs, hv => by
    cases vs with
    | nil => simp [hasTypes] at hv
    | cons v vs =>
      simp only [hasTypes, Bool.and_eq_true] at hv
      obtain ⟨ops, he, ha⟩ := value_agrees sender tc v hv.1
      obtain ⟨ops', he', ha'⟩ := members_agree sender tcs vs hv.2
      refine ⟨ops ++ ops', by simp [marshalMembers, he, he'], ?_⟩
      simp only [demarshalMembers, fitsAll]
      exact ha.bind (fun _ => ha'.map (fun vs => v :: vs))

theorem arm_agrees (sender : Endian) : (tcs : List TypeCode) → (i : Nat) → (v : Value) →
    hasArmType tcs i v → ∃ ops, marshalArm sender tcs i v = some ops ∧
      Agrees sender ops (demarshalArm tcs i) v (fitsArm tcs i v)
  | [], i, v, hv => by simp [hasArmType] at hv
  | tc :: tcs, 0, v, hv => by
    obtain ⟨ops, he, ha⟩ := value_agrees sender tc v (by simpa [hasArmType] using hv)
    exact ⟨ops, by simpa [marshalArm] using he, by simpa [demarshalArm, fitsArm] using ha⟩
  | tc :: tcs, i+1, v, hv => by
    obtain ⟨ops, he, ha⟩ := arm_agrees sender tcs i v (by simpa [hasArmType] using hv)
    exact ⟨ops, by simpa [marshalArm] using he, by simpa [demarshalArm, fitsArm] using ha⟩

end

/-- A reader set up at the header of a message that holds just the bytes of `ops`. -/
def messageFrame (host sender : Endian) (ops : List SendOp) : Frame :=
  ⟨0, host, sender, List.replicate 12 0 ++ (PlainBuffer.run sender ⟨12, []⟩ ops).body,
    Nat.dvd_zero 8⟩

theorem messageFrame_within (host sender : Endian) (ops : List SendOp) :
    (PlainBuffer.run sender ⟨12, []⟩ ops).Within (messageFrame host sender ops).data := by
  have hg := PlainBuffer.grows_run sender ⟨12, []⟩ ops
  exact ⟨List.replicate 12 0, [], by simp [hg.1], by simp [messageFrame]⟩

end ORBit2
