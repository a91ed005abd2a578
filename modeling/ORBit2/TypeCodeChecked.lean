import ORBit2.Base.Traversal
import ORBit2.TypeCodeImage

/-! Which bytes `tc_dec` takes a whole TypeCode from: those that a decoder accepts which looks
at what the decoders of the kinds return, asks for the encapsulations and for the ends of the
strings. -/

set_option autoImplicit false

namespace ORBit2
open Words Traversal

/-- `tc_dec` behind a kind, with these checks. -/
def checkedNode (dec : Reading TcState Decoded) (kind : TCKind) : Reading TcState Decoded :=
  fun s =>
    let index := (s.currentIdx + s.cursor.cur - 4) % 2^32
    match kind.tkType with
    | .empty =>
        if kind.basicName.isSome then
          .ok kind.basicType { s with prior := (kind.basicType, index) :: s.prior }
        else .fail s
    | .simple =>
        match decoder dec kind (Draft.empty kind, s) with
        | .ok _ (d, t) =>
            let tc : Decoded := .node d.fields d.subtypes d.discriminator
            if d.fields.read.isSome then .ok tc { t with prior := (tc, index) :: t.prior }
            else .fail t
        | _ => .fail s
    | .complex =>
        match useEncapsBuf s.cursor with
        | some (some encaps, c) =>
            let inner := { s with
              cursor := encaps, currentIdx := (s.currentIdx + (s.cursor.cur + 4)) % 2^32 }
            match decoder dec kind (Draft.empty kind, inner) with
            | .ok _ (d, t) =>
                let tc : Decoded := .node d.fields d.subtypes d.discriminator
                if d.fields.read.isSome then
                  .ok tc { t with
                    cursor := c, currentIdx := s.currentIdx, prior := (tc, index) :: t.prior }
                else .fail s
            | _ => .fail s
        | _ => .fail s

def checkedRecursive : Reading TcState Decoded := fun s =>
  match tcRecursive s with
  | .ok tc t => .ok tc t
  | _ => .fail s

def tcDecChecked : Nat → Reading TcState Decoded
  | 0 => Reading.fail
  | depth+1 => do
      let lkind ← cdrGet 4
      match TCKind.all[lkind]? with
      | some kind => checkedNode (tcDecChecked depth) kind
      | none => if lkind = tkRecursive then checkedRecursive else Reading.fail

def decodeChecked (c : RecvCursor) : Outcome TcState Decoded :=
  tcDecChecked (c.data.length + 1) ⟨c, [], 0⟩

/-- `ORBit_decode_CORBA_TypeCode` returns an error, or a whole TypeCode. -/
def DecodesSafely (c : RecvCursor) : Prop :=
  match decodeTypeCode c with
  | .ok tc _ => tc.read.isSome = true
  | .fail _ => True
  | .crash => False

/-- There is no kind, none that is known, or a reference without an offset. -/
def Rejected (c : RecvCursor) : Prop :=
  match cdrGet 4 ⟨c, [], 0⟩ with
  | .ok lkind s =>
      TCKind.all[lkind]? = none ∧ (lkind = tkRecursive → ∃ t, cdrGet 4 s = .fail t)
  | _ => True

/-! ### Steps that read no TypeCode -/

/-- Between the two states some bytes have been read, and no TypeCode. -/
structure Advances (s t : TcState) : Prop where
  prior : t.prior = s.prior
  data : t.cursor.data = s.cursor.data

theorem Advances.refl (s : TcState) : Advances s s := ⟨rfl, rfl⟩

theorem Advances.trans {s t u : TcState} (h : Advances s t) (h' : Advances t u) : Advances s u :=
  ⟨h'.prior.trans h.prior, h'.data.trans h.data⟩

def Plain {α : Type} (x : Reading TcState α) : Prop :=
  ∀ s, (∃ a t, x s = .ok a t ∧ Advances s t) ∨ ∃ t, x s = .fail t ∧ Advances s t

theorem cdrGet_plain (w : Nat) : Plain (cdrGet w) := by
  intro s
  unfold cdrGet
  dsimp only
  split
  · exact .inr ⟨_, rfl, ⟨rfl, rfl⟩⟩
  · exact .inl ⟨_, _, rfl, ⟨rfl, rfl⟩⟩

theorem cdrGetBytes_plain (len : Nat) : Plain (cdrGetBytes len) := by
  intro s
  unfold cdrGetBytes
  dsimp only
  split
  · exact .inr ⟨_, rfl, ⟨rfl, rfl⟩⟩
  · exact .inl ⟨_, _, rfl, ⟨rfl, rfl⟩⟩

theorem cdrGetConstString_plain : Plain cdrGetConstString := by
  intro s
  rcases cdrGet_plain 4 s with ⟨len, t, h, ht⟩ | ⟨t, h, ht⟩
  · rcases cdrGetBytes_plain len t with ⟨x, u, h', hu⟩ | ⟨u, h', hu⟩
    · exact .inl ⟨x, u, (Reading.bind_ok h).trans h', ht.trans hu⟩
    · exact .inr ⟨u, (Reading.bind_ok h).trans h', ht.trans hu⟩
  · exact .inr ⟨t, Reading.bind_fail h, ht⟩

/-- Neither the kind nor the TypeCodes of a draft have changed. -/
structure Draft.SameParts (d d' : Draft) : Prop where
  kind : d'.fields.kind = d.fields.kind
  subtypes : d'.subtypes = d.subtypes
  discriminator : d'.discriminator = d.discriminator

theorem Draft.SameParts.trans {d e f : Draft} (h : d.SameParts e) (h' : e.SameParts f) :
    d.SameParts f :=
  ⟨h'.kind.trans h.kind, h'.subtypes.trans h.subtypes, h'.discriminator.trans h.discriminator⟩

/-- A step that reads no TypeCode. -/
def Leaf {α : Type} (m : Reading (Draft × TcState) α) : Prop :=
  ∀ d s, (∃ a d' t, m (d, s) = .ok a (d', t) ∧ Advances s t ∧ d.SameParts d') ∨
    ∃ t, m (d, s) = .fail (d, t) ∧ Advances s t

section
variable {α β : Type}

theorem Leaf.field {x : Reading TcState α} {set : α → Draft → Draft} (hx : Plain x)
    (hset : ∀ a (d : Draft), d.SameParts (set a d)) : Leaf (decField x set) := by
  intro d s
  rcases hx s with ⟨a, t, h, ht⟩ | ⟨t, h, ht⟩
  · exact .inl ⟨a, set a d, t, by simp [decField, h], ht, hset a d⟩
  · exact .inr ⟨t, by simp [decField, h], ht⟩

theorem Leaf.ignored {m : Reading (Draft × TcState) α} (hm : Leaf m) : Leaf m.ignored := by
  intro d s
  rcases hm d s with ⟨a, d', t, h, ht, hd⟩ | ⟨t, h, ht⟩
  · exact .inl ⟨(), d', t, by simp [Reading.ignored, h], ht, hd⟩
  · exact .inl ⟨(), d, t, by simp [Reading.ignored, h], ht, ⟨rfl, rfl, rfl⟩⟩

theorem Leaf.pure (a : α) : Leaf (pure a : Reading (Draft × TcState) α) :=
  fun d s => .inl ⟨a, d, s, rfl, Advances.refl s, ⟨rfl, rfl, rfl⟩⟩

theorem Leaf.ok {m : Reading (Draft × TcState) α} {f : α → Reading (Draft × TcState) β}
    {d d' : Draft} {s t : TcState} {b : β} (hm : Leaf m)
    (h : (m >>= f) (d, s) = .ok b (d', t)) :
    ∃ a e u, m (d, s) = .ok a (e, u) ∧ f a (e, u) = .ok b (d', t) ∧ Advances s u ∧
      d.SameParts e := by
  rcases hm d s with ⟨a, e, u, hd, hs, he⟩ | ⟨u, hd, _⟩
  · rw [Reading.bind_ok hd] at h
    exact ⟨a, e, u, hd, h, hs, he⟩
  · rw [Reading.bind_fail hd] at h
    cases h

theorem Leaf.fail {m : Reading (Draft × TcState) α} {f : α → Reading (Draft × TcState) β}
    {d d' : Draft} {s t : TcState} (hm : Leaf m) (h : (m >>= f) (d, s) = .fail (d', t)) :
    d' = d ∨ ∃ a e u, m (d, s) = .ok a (e, u) ∧ f a (e, u) = .fail (d', t) ∧
      d.SameParts e := by
  rcases hm d s with ⟨a, e, u, hd, _, he⟩ | ⟨u, hd, _⟩
  · rw [Reading.bind_ok hd] at h
    exact .inr ⟨a, e, u, hd, h, he⟩
  · rw [Reading.bind_fail hd] at h
    cases h
    exact .inl rfl

end

theorem decRepoId_leaf : Leaf decRepoId :=
  Leaf.field cdrGetConstString_plain fun _ _ => ⟨rfl, rfl, rfl⟩

theorem decName_leaf : Leaf decName :=
  Leaf.field cdrGetConstString_plain fun _ _ => ⟨rfl, rfl, rfl⟩

theorem decSubname_leaf : Leaf decSubname :=
  Leaf.field cdrGetConstString_plain fun _ _ => ⟨rfl, rfl, rfl⟩

theorem decLength_leaf : Leaf decLength := Leaf.field (cdrGet_plain 4) fun _ _ => ⟨rfl, rfl, rfl⟩

theorem decSubParts_leaf : Leaf decSubParts := Leaf.field (cdrGet_plain 4) fun _ _ => ⟨rfl, rfl, rfl⟩

theorem decDefaultIndex_leaf : Leaf decDefaultIndex :=
  Leaf.field (cdrGet_plain 4) fun _ _ => ⟨rfl, rfl, rfl⟩

theorem decDigits_leaf : Leaf decDigits := Leaf.field (cdrGet_plain 2) fun _ _ => ⟨rfl, rfl, rfl⟩

theorem decScale_leaf : Leaf decScale := Leaf.field (cdrGet_plain 2) fun _ _ => ⟨rfl, rfl, rfl⟩

theorem decLabel_leaf (discriminator : TCKind) (w : Nat) : Leaf (decLabel discriminator w) :=
  Leaf.field (cdrGet_plain w) fun _ _ => ⟨rfl, rfl, rfl⟩

/-- Steps that read no TypeCode when they end well. -/
def Quiet {α : Type} (m : Reading (Draft × TcState) α) : Prop :=
  ∀ d s a d' t, m (d, s) = .ok a (d', t) → Advances s t ∧ d.SameParts d'

theorem Quiet.pure {α : Type} (a : α) : Quiet (pure a : Reading (Draft × TcState) α) := by
  intro d s a' d' t h
  cases h
  exact ⟨Advances.refl s, rfl, rfl, rfl⟩

theorem Quiet.bind {α β : Type} {m : Reading (Draft × TcState) α}
    {f : α → Reading (Draft × TcState) β} (hm : Leaf m) (hf : ∀ a, Quiet (f a)) :
    Quiet (m >>= f) := by
  intro d s b d' t h
  obtain ⟨a, e, u, _, h, hs, he⟩ := hm.ok h
  obtain ⟨hu, he'⟩ := hf a e u b d' t h
  exact ⟨hs.trans hu, he.trans he'⟩

theorem decNames_quiet (n : Nat) : Quiet (decNames n) := by
  induction n with
  | zero => exact Quiet.pure ()
  | succ n ih => exact Quiet.bind decSubname_leaf fun _ => ih

/-! ### The loops over the members -/

/-- Both loops, over what is read before the name of a member. -/
def decLoop {α : Type} (first : Reading (Draft × TcState) α) (dec : Reading TcState Decoded) :
    Nat → Reading (Draft × TcState) Unit
  | 0 => pure ()
  | n+1 => do
      let _ ← first
      let _ ← decSubname
      let _ ← decSubtype dec
      decLoop first dec n

theorem decMembers_eq (dec : Reading TcState Decoded) (n : Nat) :
    decMembers dec n = decLoop (pure ()) dec n := by
  induction n with
  | zero => rfl
  | succ n ih =>
    rw [decMembers, decLoop, ih]
    rfl

theorem decArms_eq (dec : Reading TcState Decoded) (discriminator : TCKind) (w n : Nat) :
    decArms dec discriminator w n = decLoop (decLabel discriminator w) dec n := by
  induction n with
  | zero => rfl
  | succ n ih => rw [decArms, decLoop, ih]

theorem decField_ok {α : Type} {x : Reading TcState α} {set : α → Draft → Draft} {d d' : Draft}
    {s t : TcState} {a : α} (h : decField x set (d, s) = .ok a (d', t)) :
    d' = set a d ∧ x s = .ok a t := by
  unfold decField at h
  cases hx : x s with
  | ok a' s' =>
    simp only [hx] at h
    cases h
    exact ⟨rfl, rfl⟩
  | fail s' =>
    simp only [hx] at h
    cases h
  | crash =>
    simp only [hx] at h
    cases h

theorem decField_fail {α : Type} {x : Reading TcState α} {set : α → Draft → Draft} {d d' : Draft}
    {s t : TcState} (h : decField x set (d, s) = .fail (d', t)) : d' = d ∧ x s = .fail t := by
  unfold decField at h
  cases hx : x s with
  | ok a s' =>
    simp only [hx] at h
    cases h
  | fail s' =>
    simp only [hx] at h
    cases h
    exact ⟨rfl, rfl⟩
  | crash =>
    simp only [hx] at h
    cases h

theorem decField_bind_fail {α β : Type} {x : Reading TcState α} {set : α → Draft → Draft}
    {f : α → Reading (Draft × TcState) β} {d d' : Draft} {s t : TcState}
    (h : (decField x set >>= f) (d, s) = .fail (d', t)) :
    d' = d ∨ ∃ a u, f a (set a d, u) = .fail (d', t) := by
  cases hx : decField x set (d, s) with
  | ok a u =>
    obtain ⟨e, u⟩ := u
    rw [Reading.bind_ok hx] at h
    obtain ⟨rfl, _⟩ := decField_ok hx
    exact .inr ⟨a, u, h⟩
  | fail u =>
    rw [Reading.bind_fail hx] at h
    cases h
    exact .inl (decField_fail hx).1
  | crash =>
    rw [Reading.bind_crash hx] at h
    cases h

/-- A step that leaves `sub_parts` alone. -/
def KeepsCount {α : Type} (m : Reading (Draft × TcState) α) : Prop :=
  ∀ d s a d' t, m (d, s) = .ok a (d', t) → d'.fields.subParts = d.fields.subParts

theorem KeepsCount.field {α : Type} {x : Reading TcState α} {set : α → Draft → Draft}
    (hset : ∀ a (d : Draft), (set a d).fields.subParts = d.fields.subParts) :
    KeepsCount (decField x set) := by
  intro d s a d' t h
  rw [(decField_ok h).1]
  exact hset a d

theorem decSubname_keeps : KeepsCount decSubname := KeepsCount.field fun _ _ => rfl

theorem decLabel_keeps (discriminator : TCKind) (w : Nat) : KeepsCount (decLabel discriminator w) :=
  KeepsCount.field fun _ _ => rfl

theorem pure_keeps {α : Type} (a : α) : KeepsCount (pure a : Reading (Draft × TcState) α) := by
  intro d s a' d' t h
  cases h
  rfl

section
variable {α : Type} {first : Reading (Draft × TcState) α} {dec dec' : Reading TcState Decoded}
  {n : Nat} {d d' : Draft} {s t : TcState}

/-- What the loop has added when it ends. -/
theorem decLoop_ok (hf : Leaf first) (hc : KeepsCount first)
    (h : decLoop first dec n (d, s) = .ok () (d', t)) :
    d'.fields.kind = d.fields.kind ∧ d'.discriminator = d.discriminator ∧
      d'.fields.subParts = d.fields.subParts ∧
      ∃ new, d'.subtypes = d.subtypes ++ new ∧ new.length = n := by
  induction n generalizing d s with
  | zero =>
    cases h
    exact ⟨rfl, rfl, rfl, [], by simp, rfl⟩
  | succ n ih =>
    obtain ⟨_, d₁, s₁, h₁, h, _, hd₁⟩ := hf.ok h
    obtain ⟨_, d₂, s₂, h₂, h, _, hd₂⟩ := decSubname_leaf.ok h
    have hc₁ := hc _ _ _ _ _ h₁
    have hc₂ := decSubname_keeps _ _ _ _ _ h₂
    cases h₃ : decSubtype dec (d₂, s₂) with
    | ok tc u =>
      obtain ⟨d₃, s₃⟩ := u
      rw [Reading.bind_ok h₃] at h
      obtain ⟨hd₃, _⟩ := decField_ok h₃
      obtain ⟨hkind, hdisc, hcount, new, hnew, hlen⟩ := ih h
      rw [hd₃] at hkind hdisc hcount hnew
      refine ⟨hkind.trans (hd₂.kind.trans hd₁.kind), hdisc.trans (hd₂.discriminator.trans hd₁.discriminator),
        hcount.trans (hc₂.trans hc₁), tc :: new, ?_, by simp [hlen]⟩
      rw [hnew, hd₂.subtypes, hd₁.subtypes]
      simp
    | fail u =>
      rw [Reading.bind_fail h₃] at h
      cases h
    | crash =>
      rw [Reading.bind_crash h₃] at h
      cases h

/-- A loop that breaks off has not read all the members. -/
theorem decLoop_fail (hf : Leaf first) (hc : KeepsCount first)
    (h : decLoop first dec n (d, s) = .fail (d', t)) :
    d'.fields.kind = d.fields.kind ∧ d'.fields.subParts = d.fields.subParts ∧
      d'.subtypes.length < d.subtypes.length + n := by
  induction n generalizing d s with
  | zero => cases h
  | succ n ih =>
    rcases hf.fail h with rfl | ⟨_, d₁, s₁, h₁, h, hd₁⟩
    · exact ⟨rfl, rfl, by omega⟩
    have hc₁ := hc _ _ _ _ _ h₁
    rcases decSubname_leaf.fail h with rfl | ⟨_, d₂, s₂, h₂, h, hd₂⟩
    · exact ⟨hd₁.kind, hc₁, by rw [hd₁.subtypes]; omega⟩
    have hc₂ := decSubname_keeps _ _ _ _ _ h₂
    cases h₃ : decSubtype dec (d₂, s₂) with
    | ok tc u =>
      obtain ⟨d₃, s₃⟩ := u
      rw [Reading.bind_ok h₃] at h
      obtain ⟨hd₃, _⟩ := decField_ok h₃
      obtain ⟨hkind, hcount, hlen⟩ := ih h
      rw [hd₃] at hkind hcount hlen
      refine ⟨hkind.trans (hd₂.kind.trans hd₁.kind), hcount.trans (hc₂.trans hc₁), ?_⟩
      simp only [List.length_append, List.length_singleton, hd₂.subtypes, hd₁.subtypes] at hlen
      omega
    | fail u =>
      rw [Reading.bind_fail h₃] at h
      cases h
      obtain ⟨rfl, _⟩ := decField_fail h₃
      refine ⟨hd₂.kind.trans hd₁.kind, hc₂.trans hc₁, ?_⟩
      rw [hd₂.subtypes, hd₁.subtypes]
      omega
    | crash =>
      rw [Reading.bind_crash h₃] at h
      cases h

end

/-- The TypeCodes are there that the kind calls for, in the number that the fields say. -/
def Draft.Filled (d : Draft) : Prop :=
  match d.fields.kind with
  | .struct | .except => d.fields.subParts = some d.subtypes.length
  | .union =>
      d.fields.subParts = some d.subtypes.length ∧
        ∃ fields subtypes discriminator, d.discriminator = .node fields subtypes discriminator ∧
          fields.kind.labelWidth.isSome = true
  | .sequence | .array | .alias => d.subtypes.length = 1
  | _ => True

/-! ### From one decoder of the subtypes to another -/

/-- A TypeCode that `dec` reads, and that is a `Q`, `dec'` reads as well, and it is an `R`. -/
def Carries (Pre : TcState → Prop) (Q R : Decoded → Prop) (dec dec' : Reading TcState Decoded) :
    Prop :=
  ∀ s tc t, Pre s → dec s = .ok tc t → Q tc → dec' s = .ok tc t ∧ R tc ∧ Pre t

section
variable {Pre : TcState → Prop} {Q R : Decoded → Prop} {dec dec' : Reading TcState Decoded}
variable {α : Type} {first : Reading (Draft × TcState) α} {n : Nat} {d d' : Draft} {s t : TcState}

theorem Carries.field {set : Decoded → Draft → Draft} {f : Decoded → Reading (Draft × TcState) Unit}
    (hdec : Carries Pre Q R dec dec') (hs : Pre s)
    (h : (decField dec set >>= f) (d, s) = .ok () (d', t))
    (hq : ∀ tc u, f tc (set tc d, u) = .ok () (d', t) → Q tc) :
    ∃ tc u, R tc ∧ Pre u ∧ f tc (set tc d, u) = .ok () (d', t) ∧
      ∀ g : Decoded → Reading (Draft × TcState) Unit,
        (decField dec' set >>= g) (d, s) = g tc (set tc d, u) := by
  cases hx : decField dec set (d, s) with
  | ok tc u =>
    obtain ⟨e, u⟩ := u
    rw [Reading.bind_ok hx] at h
    obtain ⟨rfl, hu⟩ := decField_ok hx
    obtain ⟨hdec', hr, hpre⟩ := hdec s tc u hs hu (hq tc u h)
    refine ⟨tc, u, hr, hpre, h, fun g => Reading.bind_ok ?_⟩
    simp [decField, hdec']
  | fail u =>
    rw [Reading.bind_fail hx] at h
    cases h
  | crash =>
    rw [Reading.bind_crash hx] at h
    cases h

theorem Carries.loop (hpre : ∀ s t, Advances s t → Pre s → Pre t)
    (hdec : Carries Pre Q R dec dec') (hf : Leaf first) (hc : KeepsCount first) (hs : Pre s)
    (h : decLoop first dec n (d, s) = .ok () (d', t)) (hq : ∀ tc ∈ d'.subtypes, Q tc) :
    decLoop first dec' n (d, s) = .ok () (d', t) ∧ Pre t ∧
      ∀ tc ∈ d'.subtypes, tc ∈ d.subtypes ∨ R tc := by
  induction n generalizing d s with
  | zero =>
    cases h
    exact ⟨rfl, hs, fun tc hm => .inl hm⟩
  | succ n ih =>
    obtain ⟨_, d₁, s₁, h₁, h, ha₁, hd₁⟩ := hf.ok h
    obtain ⟨_, d₂, s₂, h₂, h, ha₂, hd₂⟩ := decSubname_leaf.ok h
    have hs₂ := hpre _ _ ha₂ (hpre _ _ ha₁ hs)
    obtain ⟨tc, u, hr, hu, h, hrun⟩ := hdec.field hs₂ h (by
      intro tc u h
      obtain ⟨_, _, _, new, hnew, _⟩ := decLoop_ok hf hc h
      exact hq tc (by rw [hnew]; simp))
    obtain ⟨hloop, ht, hm⟩ := ih hu h
    refine ⟨?_, ht, ?_⟩
    · rw [decLoop, Reading.bind_ok h₁, Reading.bind_ok h₂]
      exact (hrun _).trans hloop
    · intro tc' hm'
      rcases hm tc' hm' with hm' | hr'
      · simp only [List.mem_append, List.mem_singleton, hd₂.subtypes, hd₁.subtypes] at hm'
        rcases hm' with hm' | rfl
        · exact .inl hm'
        · exact .inr hr
      · exact .inr hr'

/-- What `dec'` makes of a TypeCode that `dec` has read. -/
structure Carried (Pre : TcState → Prop) (R : Decoded → Prop) (dec' : Reading TcState Decoded)
    (kind : TCKind) (s : TcState) (d : Draft) (t : TcState) : Prop where
  run : decoder dec' kind (Draft.empty kind, s) = .ok () (d, t)
  pre : Pre t
  same : d.fields.kind = kind
  filled : d.Filled
  subtypes : ∀ tc ∈ d.subtypes, R tc
  discriminator : kind = .union → R d.discriminator

theorem Carried.quiet {kind : TCKind} (hpre : ∀ s t, Advances s t → Pre s → Pre t)
    (hq : Quiet (decoder dec kind)) (he : decoder dec' kind = decoder dec kind) (hs : Pre s)
    (hf : ∀ d : Draft, d.fields.kind = kind → d.Filled) (hu : kind ≠ .union)
    (h : decoder dec kind (Draft.empty kind, s) = .ok () (d, t)) :
    Carried Pre R dec' kind s d t := by
  obtain ⟨ha, hd⟩ := hq _ _ _ _ _ h
  have hsub : d.subtypes = [] := hd.subtypes
  exact ⟨by rw [he, h], hpre s t ha hs, hd.kind, hf d hd.kind, by simp [hsub],
    fun hk => absurd hk hu⟩

/-- A union behind its discriminator. -/
def decUnionTail (dec : Reading TcState Decoded) (tc : Decoded) :
    Reading (Draft × TcState) Unit := do
  let _ ← decDefaultIndex
  let subParts ← decSubParts
  decUnionMembers dec subParts tc

theorem decUnionTail_ok {tc : Decoded} (h : decUnionTail dec tc (d, s) = .ok () (d', t)) :
    ∃ fields subtypes discriminator w n e u, tc = .node fields subtypes discriminator ∧
      fields.kind.labelWidth = some w ∧ Advances s u ∧ d.SameParts e ∧
      e.fields.subParts = some n ∧
      decLoop (decLabel fields.kind w) dec n (e, u) = .ok () (d', t) ∧
      ∀ dec', decUnionTail dec' tc (d, s) = decLoop (decLabel fields.kind w) dec' n (e, u) := by
  obtain ⟨_, d₁, s₁, h₁, h, ha₁, hd₁⟩ := decDefaultIndex_leaf.ok h
  obtain ⟨n, d₂, s₂, h₂, h, ha₂, hd₂⟩ := decSubParts_leaf.ok h
  obtain ⟨he, _⟩ := decField_ok h₂
  cases tc with
  | null => cases h
  | node fields subtypes discriminator =>
    cases hw : fields.kind.labelWidth with
    | none =>
      simp only [decUnionMembers, hw] at h
      cases h
    | some w =>
      simp only [decUnionMembers, hw, decArms_eq] at h
      refine ⟨fields, subtypes, discriminator, w, n, d₂, s₂, rfl, hw, ha₁.trans ha₂,
        hd₁.trans hd₂, by rw [he], h, ?_⟩
      intro dec'
      refine (Reading.bind_ok h₁).trans ((Reading.bind_ok h₂).trans ?_)
      simp only [decUnionMembers, hw, decArms_eq]

theorem Carries.carried {kind : TCKind} (hpre : ∀ s t, Advances s t → Pre s → Pre t)
    (hdec : Carries Pre Q R dec dec') (hs : Pre s)
    (h : decoder dec kind (Draft.empty kind, s) = .ok () (d, t)) (hq : ∀ tc ∈ d.subtypes, Q tc)
    (hqd : kind = .union → Q d.discriminator) : Carried Pre R dec' kind s d t := by
  cases kind
  case struct | except =>
    obtain ⟨_, d₁, s₁, h₁, h, ha₁, hd₁⟩ := decRepoId_leaf.ok h
    obtain ⟨_, d₂, s₂, h₂, h, ha₂, hd₂⟩ := decName_leaf.ok h
    obtain ⟨count, d₃, s₃, h₃, h, ha₃, hd₃⟩ := decSubParts_leaf.ok h
    have hs₃ := hpre _ _ (ha₁.trans (ha₂.trans ha₃)) hs
    have hd := hd₁.trans (hd₂.trans hd₃)
    obtain ⟨rfl, _⟩ := decField_ok h₃
    rw [decMembers_eq] at h
    obtain ⟨hkind, _, hcount, new, hnew, hlen⟩ := decLoop_ok (Leaf.pure ()) (pure_keeps ()) h
    obtain ⟨hloop, ht, hr⟩ := hdec.loop hpre (Leaf.pure ()) (pure_keeps ()) hs₃ h hq
    have hk := hkind.trans hd.kind
    rw [hd.subtypes] at hnew hr
    refine ⟨?_, ht, hk, ?_, fun tc hm => (hr tc hm).resolve_left (by simp [Draft.empty]), by simp⟩
    · refine (Reading.bind_ok h₁).trans ((Reading.bind_ok h₂).trans ((Reading.bind_ok h₃).trans ?_))
      rw [decMembers_eq]
      exact hloop
    · simp only [Draft.Filled, hk, hcount, hnew]
      simp [Draft.empty, hlen]
  case objref =>
    exact Carried.quiet hpre (Quiet.bind decRepoId_leaf fun _ => Quiet.bind decName_leaf fun _ =>
      Quiet.pure ()) rfl hs (fun e he => by simp [Draft.Filled, he]) (by simp) h
  case enum =>
    exact Carried.quiet hpre (Quiet.bind decRepoId_leaf fun _ => Quiet.bind decName_leaf fun _ =>
      Quiet.bind decSubParts_leaf decNames_quiet) rfl hs
      (fun e he => by simp [Draft.Filled, he]) (by simp) h
  case string | wstring =>
    exact Carried.quiet hpre (Quiet.bind decLength_leaf fun _ => Quiet.pure ()) rfl hs
      (fun e he => by simp [Draft.Filled, he]) (by simp) h
  case fixed =>
    exact Carried.quiet hpre (Quiet.bind decDigits_leaf fun _ => Quiet.bind decScale_leaf fun _ =>
      Quiet.pure ()) rfl hs (fun e he => by simp [Draft.Filled, he]) (by simp) h
  case «alias» =>
    obtain ⟨_, d₁, s₁, h₁, h, ha₁, hd₁⟩ := decRepoId_leaf.ignored.ok h
    obtain ⟨_, d₂, s₂, h₂, h, ha₂, hd₂⟩ := decName_leaf.ignored.ok h
    have hk := (hd₁.trans hd₂).kind
    obtain ⟨tc, u, hr, hu, h, hrun⟩ := hdec.field (hpre _ _ (ha₁.trans ha₂) hs) h (by
      intro tc u h
      cases h
      exact hq tc List.mem_cons_self)
    cases h
    refine ⟨?_, hu, hk, by simp [Draft.Filled, hk, Draft.empty], by simpa using hr, by simp⟩
    exact (Reading.bind_ok h₁).trans ((Reading.bind_ok h₂).trans (hrun _))
  case sequence | array =>
    obtain ⟨tc, u, hr, hu, h, hrun⟩ := hdec.field hs h (by
      intro tc u h
      obtain ⟨_, e, v, _, h, _, he⟩ := decLength_leaf.ok h
      cases h
      exact hq tc (by rw [he.subtypes]; exact List.mem_cons_self))
    obtain ⟨_, e, v, h₁, h, ha, he⟩ := decLength_leaf.ok h
    cases h
    have hk := he.kind
    refine ⟨?_, hpre _ _ ha hu, hk, ?_, ?_, by simp⟩
    · exact (hrun _).trans (Reading.bind_ok h₁)
    · simp [Draft.Filled, hk, he.subtypes, Draft.empty]
    · simpa [he.subtypes] using hr
  case union =>
    obtain ⟨_, d₁, s₁, h₁, h, ha₁, hd₁⟩ := decRepoId_leaf.ok h
    obtain ⟨_, d₂, s₂, h₂, h, ha₂, hd₂⟩ := decName_leaf.ok h
    have hd := hd₁.trans hd₂
    have htail : (decDiscriminator dec >>= decUnionTail dec) (d₂, s₂) = .ok () (d, t) := h
    obtain ⟨tc, u, hr, hu, h, hrun⟩ := hdec.field (hpre _ _ (ha₁.trans ha₂) hs) htail (by
      intro tc u h
      obtain ⟨fields, _, _, w, n, e, v, _, _, _, he, _, h, _⟩ := decUnionTail_ok h
      obtain ⟨_, hdisc, _⟩ := decLoop_ok (decLabel_leaf _ _) (decLabel_keeps _ _) h
      rw [he.discriminator] at hdisc
      rw [← show d.discriminator = tc from hdisc]
      exact hqd rfl)
    obtain ⟨fields, subtypes, disc, w, n, e, v, htc, hw, ha, he, hn, h, htail'⟩ :=
      decUnionTail_ok h
    obtain ⟨hkind, hdisc, hcount, new, hnew, hlen⟩ :=
      decLoop_ok (decLabel_leaf _ _) (decLabel_keeps _ _) h
    obtain ⟨hloop, ht, hrs⟩ :=
      hdec.loop hpre (decLabel_leaf _ _) (decLabel_keeps _ _) (hpre _ _ ha hu) h hq
    have hk := hkind.trans (he.kind.trans hd.kind)
    have hdtc : d.discriminator = tc := hdisc.trans he.discriminator
    have hsub : e.subtypes = [] := he.subtypes.trans hd.subtypes
    rw [hsub] at hnew hrs
    refine ⟨?_, ht, hk, ?_, fun tc hm => (hrs tc hm).resolve_left (by simp),
      fun _ => hdtc ▸ hr⟩
    · refine (Reading.bind_ok h₁).trans ((Reading.bind_ok h₂).trans ?_)
      exact (hrun (decUnionTail dec')).trans ((htail' dec').trans hloop)
    · have hkd : d.fields.kind = .union := hk
      simp only [Draft.Filled, hkd, hcount, hn, hnew, List.nil_append, hlen, true_and]
      exact ⟨fields, subtypes, disc, hdtc.trans htc, by rw [hw]; rfl⟩
  all_goals
    exact Carried.quiet hpre (Quiet.pure ()) rfl hs (fun e he => by simp [Draft.Filled, he])
      (by simp) h

end

/-! ### A decoder that fails -/

theorem Fields.read_enum {fields : Fields} (hk : fields.kind = .enum)
    (h : fields.read.isSome = true) : fields.subParts = some fields.subnames.length := by
  obtain ⟨info, hi⟩ := Option.isSome_iff_exists.1 h
  simp only [Fields.read, hk] at hi
  obtain ⟨_, _, hi⟩ := Option.bind_eq_some_iff.1 hi
  obtain ⟨_, _, hi⟩ := Option.bind_eq_some_iff.1 hi
  obtain ⟨names, hn, hi⟩ := Option.bind_eq_some_iff.1 hi
  rw [← mapM_length hn]
  split at hi
  · assumption
  · cases hi

theorem decNames_fail {n : Nat} {d d' : Draft} {s t : TcState}
    (h : decNames n (d, s) = .fail (d', t)) :
    d'.fields.kind = d.fields.kind ∧ d'.fields.subParts = d.fields.subParts ∧
      d'.fields.subnames.length < d.fields.subnames.length + n := by
  induction n generalizing d s with
  | zero => cases h
  | succ n ih =>
    rcases decSubname_leaf.fail h with rfl | ⟨_, d₁, s₁, h₁, h, hd₁⟩
    · exact ⟨rfl, rfl, by omega⟩
    obtain ⟨he, _⟩ := decField_ok h₁
    obtain ⟨hkind, hcount, hlen⟩ := ih h
    refine ⟨hkind.trans hd₁.kind, hcount.trans (decSubname_keeps _ _ _ _ _ h₁), ?_⟩
    rw [he] at hlen
    simp only [List.length_append, List.length_singleton] at hlen
    omega

/-- What a decoder leaves behind that returns TRUE is not a whole TypeCode. -/
theorem decoder_fail {dec : Reading TcState Decoded} {kind : TCKind} {s t : TcState} {d : Draft}
    (h : decoder dec kind (Draft.empty kind, s) = .fail (d, t)) :
    d.fields.kind = kind ∧ (d.fields.read.isSome = true → ¬ d.Filled) := by
  cases kind
  case objref =>
    rcases decRepoId_leaf.fail h with rfl | ⟨_, d₁, s₁, h₁, h, hd₁⟩
    · exact ⟨rfl, by simp [Draft.empty, Fields.read, cString]⟩
    rcases decName_leaf.fail h with rfl | ⟨_, d₂, s₂, h₂, h, hd₂⟩
    · obtain ⟨rfl, _⟩ := decField_ok h₁
      exact ⟨rfl, by simp [Draft.empty, Fields.read, cString]⟩
    cases h
  case struct | except =>
    rcases decRepoId_leaf.fail h with rfl | ⟨_, d₁, s₁, h₁, h, hd₁⟩
    · exact ⟨rfl, by simp [Draft.empty, Draft.Filled]⟩
    rcases decName_leaf.fail h with rfl | ⟨_, d₂, s₂, h₂, h, hd₂⟩
    · obtain ⟨rfl, _⟩ := decField_ok h₁
      exact ⟨rfl, by simp [Draft.empty, Draft.Filled]⟩
    obtain ⟨rfl, _⟩ := decField_ok h₁
    obtain ⟨rfl, _⟩ := decField_ok h₂
    rcases decSubParts_leaf.fail h with rfl | ⟨count, d₃, s₃, h₃, h, hd₃⟩
    · exact ⟨rfl, by simp [Draft.empty, Draft.Filled]⟩
    obtain ⟨rfl, _⟩ := decField_ok h₃
    rw [decMembers_eq] at h
    obtain ⟨hkind, hcount, hlen⟩ := decLoop_fail (Leaf.pure ()) (pure_keeps ()) h
    refine ⟨hkind, ?_⟩
    intro _ hf
    simp only [Draft.Filled, hkind, hcount, Draft.empty, Option.some.injEq] at hf
    simp only [Draft.empty, List.length_nil] at hlen
    omega
  case union =>
    rcases decRepoId_leaf.fail h with rfl | ⟨_, d₁, s₁, h₁, h, hd₁⟩
    · exact ⟨rfl, by simp [Draft.empty, Draft.Filled]⟩
    rcases decName_leaf.fail h with rfl | ⟨_, d₂, s₂, h₂, h, hd₂⟩
    · obtain ⟨rfl, _⟩ := decField_ok h₁
      exact ⟨rfl, by simp [Draft.empty, Draft.Filled]⟩
    obtain ⟨rfl, _⟩ := decField_ok h₁
    obtain ⟨rfl, _⟩ := decField_ok h₂
    rcases decField_bind_fail h with rfl | ⟨tc, u, h⟩
    · exact ⟨rfl, by simp [Draft.empty, Draft.Filled]⟩
    rcases decDefaultIndex_leaf.fail h with rfl | ⟨_, d₃, s₃, h₃, h, hd₃⟩
    · exact ⟨rfl, by simp [Draft.empty, Draft.Filled]⟩
    obtain ⟨rfl, _⟩ := decField_ok h₃
    rcases decSubParts_leaf.fail h with rfl | ⟨count, d₄, s₄, h₄, h, hd₄⟩
    · exact ⟨rfl, by simp [Draft.empty, Draft.Filled]⟩
    obtain ⟨rfl, _⟩ := decField_ok h₄
    cases tc with
    | null => cases h
    | node fields subtypes discriminator =>
      cases hw : fields.kind.labelWidth with
      | none =>
        simp only [decUnionMembers, hw] at h
        cases h
      | some w =>
        simp only [decUnionMembers, hw, decArms_eq] at h
        obtain ⟨hkind, hcount, hlen⟩ := decLoop_fail (decLabel_leaf _ _) (decLabel_keeps _ _) h
        refine ⟨hkind, ?_⟩
        intro _ hf
        simp only [Draft.Filled, hkind, hcount, Draft.empty, Option.some.injEq] at hf
        simp only [Draft.empty, List.length_nil] at hlen
        omega
  case enum =>
    rcases decRepoId_leaf.fail h with rfl | ⟨_, d₁, s₁, h₁, h, hd₁⟩
    · exact ⟨rfl, by simp [Draft.empty, Fields.read, cString]⟩
    rcases decName_leaf.fail h with rfl | ⟨_, d₂, s₂, h₂, h, hd₂⟩
    · obtain ⟨rfl, _⟩ := decField_ok h₁
      exact ⟨rfl, by simp [Draft.empty, Fields.read, cString]⟩
    obtain ⟨rfl, _⟩ := decField_ok h₁
    obtain ⟨rfl, _⟩ := decField_ok h₂
    rcases decSubParts_leaf.fail h with rfl | ⟨count, d₃, s₃, h₃, h, hd₃⟩
    · refine ⟨rfl, ?_⟩
      intro hr
      cases Fields.read_enum rfl hr
    obtain ⟨rfl, _⟩ := decField_ok h₃
    obtain ⟨hkind, hcount, hlen⟩ := decNames_fail h
    refine ⟨hkind, ?_⟩
    intro hr
    have hc := Fields.read_enum hkind hr
    rw [hcount] at hc
    simp only [Draft.empty, Option.some.injEq, List.length_nil] at hc hlen
    omega
  case «alias» =>
    rcases decRepoId_leaf.ignored.fail h with rfl | ⟨_, d₁, s₁, h₁, h, hd₁⟩
    · exact ⟨rfl, by simp [Draft.empty, Draft.Filled]⟩
    rcases decName_leaf.ignored.fail h with rfl | ⟨_, d₂, s₂, h₂, h, hd₂⟩
    · exact ⟨hd₁.kind, by simp [Draft.Filled, hd₁.kind, hd₁.subtypes, Draft.empty]⟩
    have hd := hd₁.trans hd₂
    rcases decField_bind_fail h with rfl | ⟨tc, u, h⟩
    · exact ⟨hd.kind, by simp [Draft.Filled, hd.kind, hd.subtypes, Draft.empty]⟩
    cases h
  case sequence | array =>
    rcases decField_bind_fail h with rfl | ⟨tc, u, h⟩
    · exact ⟨rfl, by simp [Draft.empty, Draft.Filled]⟩
    rcases decLength_leaf.fail h with rfl | ⟨_, d₁, s₁, h₁, h, hd₁⟩
    · exact ⟨rfl, by simp [Draft.empty, Fields.read]⟩
    cases h
  case string | wstring =>
    rcases decLength_leaf.fail h with rfl | ⟨_, d₁, s₁, h₁, h, hd₁⟩
    · exact ⟨rfl, by simp [Draft.empty, Fields.read]⟩
    cases h
  case fixed =>
    rcases decDigits_leaf.fail h with rfl | ⟨_, d₁, s₁, h₁, h, hd₁⟩
    · exact ⟨rfl, by simp [Draft.empty, Fields.read]⟩
    rcases decScale_leaf.fail h with rfl | ⟨_, d₂, s₂, h₂, h, hd₂⟩
    · obtain ⟨rfl, _⟩ := decField_ok h₁
      exact ⟨rfl, by simp [Draft.empty, Fields.read]⟩
    cases h
  all_goals cases h

/-! ### Whole TypeCodes -/

theorem Fields.read_kind {fields : Fields} {info : TCInfo} (h : fields.read = some info) :
    info.kind = fields.kind := by
  unfold Fields.read at h
  dsimp only at h
  split at h
  case h_1 | h_2 =>
    obtain ⟨_, _, h⟩ := Option.bind_eq_some_iff.1 h
    obtain ⟨_, _, h⟩ := Option.bind_eq_some_iff.1 h
    cases h
    rfl
  case h_3 | h_4 | h_5 =>
    obtain ⟨_, _, h⟩ := Option.bind_eq_some_iff.1 h
    obtain ⟨_, _, h⟩ := Option.bind_eq_some_iff.1 h
    obtain ⟨_, _, h⟩ := Option.bind_eq_some_iff.1 h
    split at h <;> cases h
    rfl
  case h_6 =>
    obtain ⟨_, _, h⟩ := Option.bind_eq_some_iff.1 h
    obtain ⟨_, _, h⟩ := Option.bind_eq_some_iff.1 h
    obtain ⟨_, _, h⟩ := Option.bind_eq_some_iff.1 h
    obtain ⟨_, _, h⟩ := Option.bind_eq_some_iff.1 h
    split at h <;> cases h
    rfl
  case h_7 | h_8 | h_9 | h_10 =>
    obtain ⟨_, _, h⟩ := Option.bind_eq_some_iff.1 h
    cases h
    rfl
  case h_11 =>
    obtain ⟨_, _, h⟩ := Option.bind_eq_some_iff.1 h
    obtain ⟨_, _, h⟩ := Option.bind_eq_some_iff.1 h
    cases h
    rfl
  case h_12 =>
    split at h <;> cases h
    rfl

namespace Decoded

theorem readAll_isSome (tcs : List Decoded) :
    (readAll tcs).isSome = true ↔ ∀ tc ∈ tcs, tc.read.isSome = true := by
  induction tcs with
  | nil => simp [readAll]
  | cons tc tcs ih =>
    rw [List.forall_mem_cons, ← ih, readAll]
    cases tc.read <;> cases readAll tcs <;> simp

theorem readAll_length {tcs : List Decoded} {tcs' : List CTypeCode} (h : readAll tcs = some tcs') :
    tcs'.length = tcs.length := by
  induction tcs generalizing tcs' with
  | nil =>
    cases h
    rfl
  | cons tc tcs ih =>
    obtain ⟨_, _, h⟩ := Option.bind_eq_some_iff.1 h
    obtain ⟨_, ht, h⟩ := Option.bind_eq_some_iff.1 h
    cases h
    rw [List.length_cons, List.length_cons, ih ht]

theorem read_union {fields : Fields} {subtypes : List Decoded} {discriminator : Decoded}
    (hu : fields.kind = .union) :
    (node fields subtypes discriminator).read = (do
      let info ← fields.read
      let subtypes ← readAll subtypes
      let d ← discriminator.read
      if fields.complete subtypes.length (some d.kind) then some (.node info subtypes (some d))
      else none) := by
  rw [read]
  simp only [hu, if_true]
  cases discriminator.read <;> rfl

theorem read_of_ne {fields : Fields} {subtypes : List Decoded} {discriminator : Decoded}
    (hu : fields.kind ≠ .union) :
    (node fields subtypes discriminator).read = (do
      let info ← fields.read
      let subtypes ← readAll subtypes
      if fields.complete subtypes.length none then some (.node info subtypes none)
      else none) := by
  rw [read]
  simp only [hu, if_false]
  rfl

theorem read_kind {fields : Fields} {subtypes : List Decoded} {discriminator : Decoded}
    {tc : CTypeCode} (h : (node fields subtypes discriminator).read = some tc) :
    tc.kind = fields.kind := by
  by_cases hu : fields.kind = .union
  · rw [read_union hu] at h
    obtain ⟨info, hi, h⟩ := Option.bind_eq_some_iff.1 h
    obtain ⟨_, _, h⟩ := Option.bind_eq_some_iff.1 h
    obtain ⟨_, _, h⟩ := Option.bind_eq_some_iff.1 h
    split at h <;> cases h
    exact Fields.read_kind hi
  · rw [read_of_ne hu] at h
    obtain ⟨info, hi, h⟩ := Option.bind_eq_some_iff.1 h
    obtain ⟨_, _, h⟩ := Option.bind_eq_some_iff.1 h
    split at h <;> cases h
    exact Fields.read_kind hi

end Decoded

theorem Draft.filled_iff {d : Draft} (hu : d.fields.kind ≠ .union) :
    d.fields.complete d.subtypes.length none = true ↔ d.Filled := by
  unfold Fields.complete Filled
  cases hk : d.fields.kind <;> simp_all

theorem Draft.filled_union_iff {d : Draft} {tc : CTypeCode} (hu : d.fields.kind = .union)
    (hd : d.discriminator.read = some tc) :
    d.fields.complete d.subtypes.length (some tc.kind) = true ↔ d.Filled := by
  simp only [Fields.complete, Filled, hu, Bool.and_eq_true, beq_iff_eq, Option.bind_some]
  cases hnode : d.discriminator with
  | null =>
    rw [hnode] at hd
    cases hd
  | node fields subtypes discriminator =>
    rw [hnode] at hd
    rw [Decoded.read_kind hd]
    constructor
    · rintro ⟨hc, hw⟩
      exact ⟨hc, fields, subtypes, discriminator, rfl, hw⟩
    · rintro ⟨hc, _, _, _, he, hw⟩
      cases he
      exact ⟨hc, hw⟩

/-- What makes a whole TypeCode. -/
theorem Draft.read_isSome (d : Draft) :
    (Decoded.node d.fields d.subtypes d.discriminator).read.isSome = true ↔
      d.fields.read.isSome = true ∧ d.Filled ∧ (∀ tc ∈ d.subtypes, tc.read.isSome = true) ∧
        (d.fields.kind = .union → d.discriminator.read.isSome = true) := by
  rw [← Decoded.readAll_isSome]
  cases hf : d.fields.read with
  | none =>
    by_cases hu : d.fields.kind = .union
    · simp [Decoded.read_union hu, hf]
    · simp [Decoded.read_of_ne hu, hf]
  | some info =>
    cases hs : Decoded.readAll d.subtypes with
    | none =>
      by_cases hu : d.fields.kind = .union
      · simp [Decoded.read_union hu, hf, hs]
      · simp [Decoded.read_of_ne hu, hf, hs]
    | some tcs =>
      have hl := Decoded.readAll_length hs
      by_cases hu : d.fields.kind = .union
      · cases hd : d.discriminator.read with
        | none => simp [Decoded.read_union hu, hf, hs, hd, hu]
        | some tc =>
          have hfill := Draft.filled_union_iff hu hd
          simp [Decoded.read_union hu, hf, hs, hd, hl, ← hfill]
      · have hfill := Draft.filled_iff hu
        simp [Decoded.read_of_ne hu, hf, hs, hl, hu, ← hfill]

namespace Decoded

mutual

theorem alignable_of_read : (tc : Decoded) → tc.read.isSome = true → tc.alignable = true
  | .null => fun h => by cases h
  | .node fields subtypes discriminator => by
    intro h
    obtain ⟨_, hf, hs, hd⟩ := (Draft.read_isSome ⟨fields, subtypes, discriminator⟩).1 h
    have ha := allAlignable_of_read subtypes hs
    unfold alignable
    simp only [Draft.Filled] at hf hd
    cases hk : fields.kind <;> simp only [hk] at hf ⊢ <;> simp_all
    case union => exact alignable_of_read discriminator hd

theorem allAlignable_of_read : (tcs : List Decoded) → (∀ tc ∈ tcs, tc.read.isSome = true) →
    allAlignable tcs = true
  | [], _ => by simp [allAlignable]
  | tc :: tcs, h => by
    rw [allAlignable, alignable_of_read tc (h tc List.mem_cons_self),
      allAlignable_of_read tcs fun tc hm => h tc (List.mem_cons_of_mem _ hm)]
    rfl

end

end Decoded

/-! ### The two decoders -/

def Sound (s : TcState) : Prop := ∀ node ∈ s.prior, node.1.read.isSome = true

def Whole (tc : Decoded) : Prop := tc.read.isSome = true

theorem Sound.advances {s t : TcState} (h : Advances s t) (hs : Sound s) : Sound t := by
  unfold Sound
  rw [h.prior]
  exact hs

theorem Sound.cons {s : TcState} {tc : Decoded} {i : Nat} (hs : Sound s) (htc : Whole tc) :
    ∀ node ∈ (tc, i) :: s.prior, node.1.read.isSome = true := by
  intro node hm
  rcases List.mem_cons.1 hm with rfl | hm
  · exact htc
  · exact hs node hm

theorem TCKind.basicName_of_whole {kind : TCKind} (h : Whole kind.basicType) :
    kind.basicName.isSome = true := by
  unfold TCKind.basicType at h
  cases hb : kind.basicName with
  | none =>
    rw [hb] at h
    cases h
  | some name => rfl

section
variable {dec chk : Reading TcState Decoded} {kind : TCKind} {s t : TcState} {tc : Decoded}

theorem tcFinish_whole {index : Nat} {d : Draft}
    (h : Whole (.node d.fields d.subtypes d.discriminator)) :
    tcFinish index d s = .ok (.node d.fields d.subtypes d.discriminator)
      { s with prior := (.node d.fields d.subtypes d.discriminator, index) :: s.prior } := by
  unfold tcFinish
  simp only [Decoded.alignable_of_read _ h, if_true]

theorem Carried.whole {d : Draft} (h : Carried Sound Whole dec kind s d t)
    (hr : d.fields.read.isSome = true) : Whole (.node d.fields d.subtypes d.discriminator) :=
  (Draft.read_isSome d).2 ⟨hr, h.filled, h.subtypes, fun hu => h.discriminator (h.same ▸ hu)⟩

theorem tcNode_of_checked (hc : Carries Sound (fun _ => True) Whole chk dec) (hs : Sound s)
    (h : checkedNode chk kind s = .ok tc t) :
    tcNode dec kind s = .ok tc t ∧ Whole tc ∧ Sound t := by
  unfold checkedNode at h
  unfold tcNode
  dsimp only at h ⊢
  cases hk : kind.tkType with
  | empty =>
    simp only [hk] at h ⊢
    split at h
    · rename_i hb
      cases h
      have hw : Whole kind.basicType := by
        rw [Whole, TCKind.read_basicType hk hb]
        rfl
      exact ⟨rfl, hw, hs.cons hw⟩
    · cases h
  | simple =>
    simp only [hk] at h ⊢
    split at h
    · rename_i d u hrun
      split at h
      · rename_i hr
        have hcarried := hc.carried (fun _ _ => Sound.advances) hs hrun (fun _ _ => trivial)
          fun _ => trivial
        have hw := hcarried.whole hr
        cases h
        rw [hcarried.run]
        exact ⟨tcFinish_whole hw, hw, hcarried.pre.cons hw⟩
      · cases h
    · cases h
  | complex =>
    rcases huse : useEncapsBuf s.cursor with _ | ⟨_ | encaps, c⟩
    · simp only [hk, huse] at h
      cases h
    · simp only [hk, huse] at h
      cases h
    · simp only [hk, huse] at h ⊢
      split at h
      · rename_i d u hrun
        split at h
        · rename_i hr
          have hcarried := hc.carried (fun _ _ => Sound.advances)
            (show Sound { s with cursor := encaps, currentIdx := _ } from hs) hrun
            (fun _ _ => trivial) fun _ => trivial
          have hw := hcarried.whole hr
          cases h
          rw [hcarried.run]
          exact ⟨tcFinish_whole hw, hw, hcarried.pre.cons hw⟩
        · cases h
      · cases h

theorem decoder_kind {d : Draft} (h : decoder dec kind (Draft.empty kind, s) = .ok () (d, t)) :
    d.fields.kind = kind := by
  have hc : Carries (fun _ => True) (fun _ => True) (fun _ => True) dec dec :=
    fun _ _ _ _ hdec _ => ⟨hdec, trivial, trivial⟩
  exact (hc.carried (fun _ _ _ _ => trivial) trivial h (fun _ _ => trivial) fun _ => trivial).same

theorem tcFinish_ok {index : Nat} {d : Draft} (h : tcFinish index d s = .ok tc t) :
    tc = .node d.fields d.subtypes d.discriminator ∧
      t = { s with prior := (tc, index) :: s.prior } := by
  unfold tcFinish at h
  dsimp only at h
  split at h
  · cases h
    exact ⟨rfl, rfl⟩
  · cases h

/-- A decoder whose node is whole in the end has returned FALSE. -/
theorem checked_of_run {index : Nat} {c : TcState → TcState}
    (hc : Carries Sound Whole (fun _ => True) dec chk) (hs : Sound s)
    (h : (match decoder dec kind (Draft.empty kind, s) with
      | .ok _ (d, u) | .fail (d, u) => tcFinish index d (c u)
      | .crash => .crash) = .ok tc t) (hw : Whole tc) :
    ∃ d u, decoder chk kind (Draft.empty kind, s) = .ok () (d, u) ∧
      d.fields.read.isSome = true ∧ tc = .node d.fields d.subtypes d.discriminator ∧
      t = { c u with prior := (tc, index) :: (c u).prior } := by
  cases hrun : decoder dec kind (Draft.empty kind, s) with
  | crash =>
    rw [hrun] at h
    cases h
  | fail r =>
    obtain ⟨d, u⟩ := r
    rw [hrun] at h
    obtain ⟨rfl, _⟩ := tcFinish_ok h
    obtain ⟨hr, hf, _⟩ := (Draft.read_isSome d).1 hw
    exact absurd hf ((decoder_fail hrun).2 hr)
  | ok a r =>
    obtain ⟨d, u⟩ := r
    rw [hrun] at h
    obtain ⟨rfl, ht⟩ := tcFinish_ok h
    obtain ⟨hr, _, hsub, hdisc⟩ := (Draft.read_isSome d).1 hw
    have hk : kind = .union → Whole d.discriminator := fun hu =>
      hdisc ((decoder_kind hrun).trans hu)
    have hcarried := hc.carried (fun _ _ => Sound.advances) hs hrun hsub hk
    exact ⟨d, u, hcarried.run, hr, rfl, ht⟩

theorem checkedNode_of_tcNode (hc : Carries Sound Whole (fun _ => True) dec chk) (hs : Sound s)
    (h : tcNode dec kind s = .ok tc t) (hw : Whole tc) : checkedNode chk kind s = .ok tc t := by
  unfold tcNode at h
  unfold checkedNode
  dsimp only at h ⊢
  cases hk : kind.tkType with
  | empty =>
    simp only [hk] at h ⊢
    cases h
    rw [if_pos (TCKind.basicName_of_whole hw)]
  | simple =>
    simp only [hk] at h ⊢
    obtain ⟨d, u, hrun, hr, rfl, rfl⟩ := checked_of_run (c := id) hc hs h hw
    rw [hrun]
    simp only [hr, if_true, id]
  | complex =>
    rcases huse : useEncapsBuf s.cursor with _ | ⟨_ | encaps, c⟩
    · simp only [hk, huse] at h
      cases h
    · simp only [hk, huse] at h
      cases h
    · simp only [hk, huse] at h ⊢
      obtain ⟨d, u, hrun, hr, rfl, rfl⟩ := checked_of_run
        (c := fun u => { u with cursor := c, currentIdx := s.currentIdx }) hc
        (show Sound { s with cursor := encaps, currentIdx := _ } from hs) h hw
      rw [hrun]
      simp only [hr, if_true]

end

theorem tcRecursive_ok {s t : TcState} {tc : Decoded} (hs : Sound s)
    (h : tcRecursive s = .ok tc t) : Whole tc ∧ Sound t := by
  rcases cdrGet_plain 4 s with ⟨offset, s₁, hg, ha⟩ | ⟨s₁, hg, _⟩
  · rw [tcRecursive_of hg] at h
    split at h
    · rename_i node hf
      cases h
      have hs₁ := hs.advances ha
      exact ⟨hs₁ _ (List.mem_of_find?_eq_some hf), hs₁⟩
    · cases h
  · rw [tcRecursive_of_fail hg] at h
    cases h

theorem checkedRecursive_ok {s t : TcState} {tc : Decoded} :
    checkedRecursive s = .ok tc t ↔ tcRecursive s = .ok tc t := by
  unfold checkedRecursive
  cases tcRecursive s <;> simp

/-- What the checked decoder accepts, `tc_dec` reads, and it is whole. -/
theorem tcDec_of_checked (depth : Nat) :
    Carries Sound (fun _ => True) Whole (tcDecChecked depth) (tcDec depth) := by
  induction depth with
  | zero =>
    intro s tc t _ h
    cases h
  | succ depth ih =>
    intro s tc t hs h _
    rw [tcDecChecked] at h
    rcases cdrGet_plain 4 s with ⟨lkind, s₁, hg, ha⟩ | ⟨s₁, hg, _⟩
    · have hs₁ := hs.advances ha
      rw [Reading.bind_ok hg] at h
      rw [tcDec, Reading.bind_ok hg]
      cases hk : TCKind.all[lkind]? with
      | some kind =>
        simp only [hk] at h ⊢
        exact tcNode_of_checked ih hs₁ h
      | none =>
        simp only [hk] at h ⊢
        split at h
        · rename_i hr
          rw [if_pos hr]
          rw [checkedRecursive_ok] at h
          exact ⟨h, tcRecursive_ok hs₁ h⟩
        · cases h
    · rw [Reading.bind_fail hg] at h
      cases h

/-- A whole TypeCode that `tc_dec` reads, the checked decoder accepts. -/
theorem checked_of_tcDec (depth : Nat) :
    Carries Sound Whole (fun _ => True) (tcDec depth) (tcDecChecked depth) := by
  induction depth with
  | zero =>
    intro s tc t _ h
    cases h
  | succ depth ih =>
    intro s tc t hs h hw
    have hfwd := tcDec_of_checked (depth + 1) s tc t hs
    rw [tcDec] at h
    rcases cdrGet_plain 4 s with ⟨lkind, s₁, hg, ha⟩ | ⟨s₁, hg, _⟩
    · have hs₁ := hs.advances ha
      rw [Reading.bind_ok hg] at h
      have hok : tcDecChecked (depth + 1) s = .ok tc t := by
        rw [tcDecChecked, Reading.bind_ok hg]
        cases hk : TCKind.all[lkind]? with
        | some kind =>
          simp only [hk] at h ⊢
          exact checkedNode_of_tcNode ih hs₁ h hw
        | none =>
          simp only [hk] at h ⊢
          split at h
          · rename_i hr
            rw [if_pos hr, checkedRecursive_ok]
            exact h
          · cases h
      exact ⟨hok, trivial, (hfwd hok trivial).2.2⟩
    · rw [Reading.bind_fail hg] at h
      cases h

theorem tcNode_ne_fail (dec : Reading TcState Decoded) (kind : TCKind) (s t : TcState) :
    tcNode dec kind s ≠ .fail t := by
  have hfin : ∀ (index : Nat) (d : Draft) (u : TcState), tcFinish index d u ≠ .fail t := by
    intro index d u h
    unfold tcFinish at h
    dsimp only at h
    split at h <;> cases h
  intro h
  unfold tcNode at h
  dsimp only at h
  cases hk : kind.tkType <;> simp only [hk] at h
  case empty => cases h
  case simple =>
    split at h
    · exact hfin _ _ _ h
    · exact hfin _ _ _ h
    · cases h
  case complex =>
    split at h
    · split at h
      · exact hfin _ _ _ h
      · exact hfin _ _ _ h
      · cases h
    · cases h

theorem tcRecursive_fail {s t : TcState} : tcRecursive s = .fail t ↔ cdrGet 4 s = .fail t := by
  rcases cdrGet_plain 4 s with ⟨offset, s₁, hg, _⟩ | ⟨s₁, hg, _⟩
  · rw [tcRecursive_of hg, hg]
    split <;> simp
  · rw [tcRecursive_of_fail hg, hg]
    simp

/-- `tc_dec` returns TRUE for a bad start only. -/
theorem tcDec_fail (depth : Nat) (c : RecvCursor) :
    (∃ t, tcDec (depth + 1) ⟨c, [], 0⟩ = .fail t) ↔ Rejected c := by
  unfold Rejected
  rcases cdrGet_plain 4 ⟨c, [], 0⟩ with ⟨lkind, s₁, hg, ha⟩ | ⟨s₁, hg, _⟩
  · rw [tcDec, Reading.bind_ok hg, hg]
    dsimp only
    cases hk : TCKind.all[lkind]? with
    | some kind => simp [tcNode_ne_fail]
    | none =>
      by_cases hr : lkind = tkRecursive
      · simp [hr, tcRecursive_fail]
      · simp only [hr, if_false, true_and, false_implies, iff_true]
        exact ⟨s₁, rfl⟩
  · rw [tcDec, Reading.bind_fail hg, hg]
    exact ⟨fun _ => trivial, fun _ => ⟨s₁, rfl⟩⟩

/-- The decoder is safe on the bytes that it refuses at once, and on those that the checked
decoder accepts. -/
theorem decodesSafely_iff (c : RecvCursor) :
    DecodesSafely c ↔ Rejected c ∨ ∃ tc s, decodeChecked c = .ok tc s := by
  have hs : Sound ⟨c, [], 0⟩ := by simp [Sound]
  rw [← tcDec_fail c.data.length]
  unfold DecodesSafely decodeTypeCode decodeChecked
  cases hd : tcDec (c.data.length + 1) ⟨c, [], 0⟩ with
  | ok tc t =>
    constructor
    · intro hw
      exact .inr ⟨tc, t, (checked_of_tcDec _ _ _ _ hs hd hw).1⟩
    · rintro (⟨_, hf⟩ | ⟨tc', t', hc⟩)
      · cases hf
      · obtain ⟨hd', hw, _⟩ := tcDec_of_checked _ _ _ _ hs hc trivial
        rw [hd] at hd'
        cases hd'
        exact hw
  | fail t => exact ⟨fun _ => .inl ⟨t, rfl⟩, fun _ => trivial⟩
  | crash =>
    constructor
    · intro h
      cases h
    · rintro (⟨_, hf⟩ | ⟨tc', t', hc⟩)
      · cases hf
      · have hd' := (tcDec_of_checked _ _ _ _ hs hc trivial).1
        rw [hd] at hd'
        cases hd'

/-- Four bytes that say `CORBA_tk_struct`: there is no encapsulation behind them. -/
theorem decodesSafely_fails :
    decodeTypeCode ⟨0, [15, 0, 0, 0], 0, .little, .little⟩ = .crash ∧
      ¬ DecodesSafely ⟨0, [15, 0, 0, 0], 0, .little, .little⟩ := by
  have h : decodeTypeCode ⟨0, [15, 0, 0, 0], 0, .little, .little⟩ = .crash := rfl
  refine ⟨h, ?_⟩
  unfold DecodesSafely
  rw [h]
  exact id

end ORBit2
