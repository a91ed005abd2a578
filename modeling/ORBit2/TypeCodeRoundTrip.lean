import ORBit2.TypeCodeImage

/-! The decoder of TypeCodes behind the encoder: what each of the two knows of the nodes that
have been sent, and what becomes of the references. -/

set_option autoImplicit false

namespace ORBit2
open Words

/-- Of each node in `prior`, except for those that are still being sent, the decoder has the
image, at the index that the encoder has noted. -/
structure Known (table : Nat → TCGraph) (pending : List Nat) (prior : List (Nat × Nat))
    (nodes : List (Decoded × Nat)) (size : Nat) : Prop where
  below : ∀ node ∈ nodes, node.2 < 12 + size
  unique : (nodes.map Prod.snd).Nodup
  known : ∀ addr entry, prior.find? (·.1 == addr) = some entry →
    addr ∈ pending ∨ ((table addr).image, 12 + entry.2) ∈ nodes

/-- What was known stays known. -/
def Keeps (prior prior' : List (Nat × Nat)) : Prop :=
  ∀ addr entry, prior.find? (·.1 == addr) = some entry → prior'.find? (·.1 == addr) = some entry

theorem Keeps.refl (prior : List (Nat × Nat)) : Keeps prior prior := fun _ _ h => h

theorem Keeps.trans {p q r : List (Nat × Nat)} (h : Keeps p q) (h' : Keeps q r) : Keeps p r :=
  fun addr entry hp => h' addr entry (h addr entry hp)

theorem Keeps.cons {prior : List (Nat × Nat)} {addr index : Nat}
    (h : prior.find? (·.1 == addr) = none) : Keeps prior ((addr, index) :: prior) := by
  intro a entry ha
  have hne : addr ≠ a := by
    rintro rfl
    rw [h] at ha
    cases ha
  rw [List.find?_cons_of_neg (by simpa using hne)]
  exact ha

namespace Known
variable {table : Nat → TCGraph} {pending : List Nat} {prior : List (Nat × Nat)}
  {nodes : List (Decoded × Nat)} {size size' : Nat}

theorem mono (h : Known table pending prior nodes size) (hs : size ≤ size') :
    Known table pending prior nodes size' := by
  refine ⟨?_, h.unique, h.known⟩
  intro node hn
  have hb := h.below node hn
  omega

/-- A node that has been read. -/
theorem add (h : Known table pending prior nodes size) {i : Nat} (tc : Decoded)
    (hi : ∀ node ∈ nodes, node.2 ≠ 12 + i) (hs : i < size) :
    Known table pending prior ((tc, 12 + i) :: nodes) size := by
  refine ⟨?_, ?_, ?_⟩
  · intro node hn
    rcases List.mem_cons.1 hn with rfl | hn
    · exact Nat.add_lt_add_left hs 12
    · exact h.below node hn
  · rw [List.map_cons, List.nodup_cons]
    refine ⟨?_, h.unique⟩
    intro hm
    obtain ⟨node, hn, he⟩ := List.mem_map.1 hm
    exact hi node hn he
  · intro addr entry ha
    rcases h.known addr entry ha with hp | hn
    · exact .inl hp
    · exact .inr (List.mem_cons_of_mem _ hn)

/-- A node that begins to be sent. -/
theorem push (h : Known table pending prior nodes size) (addr index : Nat) :
    Known table (addr :: pending) ((addr, index) :: prior) nodes size := by
  refine ⟨h.below, h.unique, ?_⟩
  intro a entry ha
  by_cases he : addr = a
  · exact .inl (by simp [he])
  · rw [List.find?_cons_of_neg (by simpa using he)] at ha
    rcases h.known a entry ha with hp | hn
    · exact .inl (List.mem_cons_of_mem _ hp)
    · exact .inr hn

/-- A node that has been sent. -/
theorem pop {addr index : Nat} (h : Known table (addr :: pending) prior nodes size)
    (hf : prior.find? (·.1 == addr) = some (addr, index))
    (hn : ((table addr).image, 12 + index) ∈ nodes) : Known table pending prior nodes size := by
  refine ⟨h.below, h.unique, ?_⟩
  intro a entry ha
  rcases h.known a entry ha with hp | hm
  · rcases List.mem_cons.1 hp with rfl | hp
    · rw [hf] at ha
      cases ha
      exact .inr hn
    · exact .inl hp
  · exact .inr hm

/-- There is one node at an index. -/
theorem find (h : Known table pending prior nodes size) {tc : Decoded} {i : Nat}
    (hm : (tc, i) ∈ nodes) : nodes.find? (fun node => node.2 == i) = some (tc, i) := by
  have hu := h.unique
  clear h
  induction nodes with
  | nil => cases hm
  | cons node nodes ih =>
    rw [List.map_cons, List.nodup_cons] at hu
    rcases List.mem_cons.1 hm with rfl | hm
    · rw [List.find?_cons_of_pos (by simp)]
    · have hne : node.2 ≠ i := by
        rintro rfl
        exact hu.1 (List.mem_map.2 ⟨_, hm, rfl⟩)
      rw [List.find?_cons_of_neg (by simpa using hne)]
      exact ih hm hu.2

end Known

/-! ### Reading behind an encoder -/

section
variable (table : Nat → TCGraph) (pending : List Nat) (e : Endian) (start depth : Nat)
variable {σ γ : Type}

/-- `m` reads what `enc` writes and goes on as `k`, unless one of the references is lost. -/
def Reads (enc : Enc) (m k : TcState → Outcome σ γ) : Prop :=
  ∀ ⦃s : TcState⦄ ⦃size : Nat⦄ ⦃prior : List (Nat × Nat)⦄ ⦃r : Encoded⦄ ⦃rest : List UInt8⦄,
    enc size prior = some r → Stands e start s size (r.bytes ++ rest) →
    12 + size + r.bytes.length < 2^32 → r.bytes.length ≤ depth →
    Known table pending prior s.prior size →
    ∃ new : List (Decoded × Nat),
      m s = (if r.refs.all BackRef.near then k (s.after r.bytes.length new) else .crash) ∧
      (∀ node ∈ new, 12 + size ≤ node.2) ∧ Keeps prior r.prior ∧
      Known table pending r.prior (new ++ s.prior) (size + r.bytes.length)

end

namespace Reads
variable {table : Nat → TCGraph} {pending : List Nat} {e : Endian} {start depth : Nat}
variable {σ γ : Type} {p q enc : Enc} {m k l : TcState → Outcome σ γ}

theorem seq (hp : Reads table pending e start depth p m k)
    (hq : Reads table pending e start depth q k l) :
    Reads table pending e start depth (p.seq q) m l := by
  intro s size prior r rest henc hs hlt hd hk
  obtain ⟨r₁, h₁, henc⟩ := Option.bind_eq_some_iff.1 henc
  obtain ⟨r₂, h₂, henc⟩ := Option.bind_eq_some_iff.1 henc
  cases henc
  simp only [List.append_assoc, List.length_append] at hs hlt hd ⊢
  obtain ⟨new₁, hm, ha₁, hg₁, hk₁⟩ := hp h₁ hs (by omega) (by omega) hk
  obtain ⟨new₂, hk, ha₂, hg₂, hk₂⟩ := hq h₂ (hs.after new₁) (by omega) (by omega) hk₁
  refine ⟨new₂ ++ new₁, ?_, ?_, hg₁.trans hg₂, ?_⟩
  · rw [hm, hk, TcState.after_after, List.all_append]
    by_cases h₁ : r₁.refs.all BackRef.near = true
    · simp [h₁]
    · simp [h₁]
  · intro node hn
    rcases List.mem_append.1 hn with hn | hn
    · have hb := ha₂ node hn
      omega
    · exact ha₁ node hn
  · rw [List.append_assoc, ← Nat.add_assoc]
    exact hk₂

/-- Bytes that bring no nodes. -/
theorem put {bytes : Nat → List UInt8}
    (h : ∀ ⦃s : TcState⦄ ⦃size : Nat⦄ ⦃rest : List UInt8⦄,
      Stands e start s size (bytes size ++ rest) → 12 + size + (bytes size).length < 2^32 →
      m s = k (s.after (bytes size).length [])) :
    Reads table pending e start depth (Enc.put bytes) m k := by
  intro s size prior r rest henc hs hlt _ hk
  cases henc
  refine ⟨[], ?_, by simp, Keeps.refl prior, hk.mono (by omega)⟩
  simpa using h hs hlt

theorem nil : Reads table pending e start depth (Enc.put fun _ => []) k k :=
  put fun s _ _ _ _ => by simp [TcState.after]

theorem word {w n : Nat} (hw : w ∣ 8) (hn : n < 256 ^ w) :
    Reads table pending e start depth (Enc.put (cdrPut e w n)) (cdrGet w) (Outcome.ok n) :=
  put fun _ _ _ hs _ => cdrGet_at hs hw hn

theorem string (str : List UInt8) :
    Reads table pending e start depth (Enc.put (cdrPutString e str)) cdrGetConstString
      (Outcome.ok (arrivedString str)) := by
  refine put fun s size rest hs hlt => cdrGetConstString_at hs ?_
  rw [cdrPutString, List.length_append, List.length_append, List.length_singleton] at hlt
  omega

variable {α β : Type} {x : Reading TcState α} {a : α}

/-- What is read becomes part of the TypeCode. -/
theorem field (h : Reads table pending e start depth enc x (Outcome.ok a))
    (set : α → Draft → Draft) (f : α → Reading (Draft × TcState) β) (d : Draft) :
    Reads table pending e start depth enc (fun s => (decField x set >>= f) (d, s))
      fun s => f a (set a d, s) := by
  intro s size prior r rest henc hs hlt hd hk
  obtain ⟨new, hm, hg⟩ := h henc hs hlt hd hk
  refine ⟨new, ?_, hg⟩
  by_cases hn : r.refs.all BackRef.near = true
  · rw [if_pos hn] at hm ⊢
    exact Reading.bind_ok (by simp [decField, hm])
  · rw [if_neg hn] at hm ⊢
    exact Reading.bind_crash (by simp [decField, hm])

theorem ignored (h : Reads table pending e start depth enc x (Outcome.ok a))
    (set : α → Draft → Draft) (f : Unit → Reading (Draft × TcState) β) (d : Draft) :
    Reads table pending e start depth enc (fun s => ((decField x set).ignored >>= f) (d, s))
      fun s => f () (set a d, s) := by
  intro s size prior r rest henc hs hlt hd hk
  obtain ⟨new, hm, hg⟩ := h henc hs hlt hd hk
  refine ⟨new, ?_, hg⟩
  by_cases hn : r.refs.all BackRef.near = true
  · rw [if_pos hn] at hm ⊢
    exact Reading.bind_ok (by simp [Reading.ignored, decField, hm])
  · rw [if_neg hn] at hm ⊢
    exact Reading.bind_crash (by simp [Reading.ignored, decField, hm])

end Reads

/-! ### The members of a TypeCode -/

namespace Draft

def addNames (names : List (List UInt8)) (d : Draft) : Draft :=
  { d with fields := { d.fields with
    subnames := d.fields.subnames ++ names.map arrivedString } }

def addLabels (labels : List Int) (d : Draft) : Draft :=
  { d with fields := { d.fields with sublabels := d.fields.sublabels ++ labels } }

def addSubtypes (tcs : List TCGraph) (d : Draft) : Draft :=
  { d with subtypes := d.subtypes ++ TCGraph.images tcs }

@[simp] theorem addNames_nil (d : Draft) : d.addNames [] = d := by simp [addNames]

@[simp] theorem addLabels_nil (d : Draft) : d.addLabels [] = d := by simp [addLabels]

@[simp] theorem addSubtypes_nil (d : Draft) : d.addSubtypes [] = d := by
  simp [addSubtypes, TCGraph.images]

theorem addNames_cons (name : List UInt8) (names : List (List UInt8)) (d : Draft) :
    d.addNames (name :: names) = (d.addNames [name]).addNames names := by simp [addNames]

theorem addLabels_cons (label : Int) (labels : List Int) (d : Draft) :
    d.addLabels (label :: labels) = (d.addLabels [label]).addLabels labels := by simp [addLabels]

theorem addSubtypes_cons (tc : TCGraph) (tcs : List TCGraph) (d : Draft) :
    d.addSubtypes (tc :: tcs) = (d.addSubtypes [tc]).addSubtypes tcs := by
  simp [addSubtypes, TCGraph.images]

end Draft

theorem TCKind.labelWidth_dvd {kind : TCKind} {w : Nat} (h : kind.labelWidth = some w) : w ∣ 8 := by
  cases kind <;> simp only [labelWidth, reduceCtorEq, Option.some.injEq] at h <;> subst h <;> decide

namespace Reads
variable {table : Nat → TCGraph} {pending : List Nat} {e : Endian} {start depth : Nat}
variable {dec : Reading TcState Decoded}

theorem names (names : List (List UInt8)) (d : Draft) :
    Reads table pending e start depth (encNames e names)
      (fun s => decNames names.length (d, s)) fun s => .ok () (d.addNames names, s) := by
  induction names generalizing d with
  | nil =>
    rw [Draft.addNames_nil]
    exact nil
  | cons name names ih =>
    rw [Draft.addNames_cons]
    exact seq (field (string name) _ _ d) (ih (d.addNames [name]))

theorem members {names : List (List UInt8)} {tcs : List TCGraph}
    (hl : tcs.length = names.length)
    (ht : ∀ tc ∈ tcs, Reads table pending e start depth (tcEnc e start tc) dec (.ok tc.image))
    (d : Draft) :
    Reads table pending e start depth (encMembers e start names tcs)
      (fun s => decMembers dec tcs.length (d, s))
      fun s => .ok () ((d.addNames names).addSubtypes tcs, s) := by
  induction tcs generalizing d names with
  | nil =>
    obtain rfl := List.eq_nil_of_length_eq_zero hl.symm
    rw [Draft.addNames_nil, Draft.addSubtypes_nil]
    exact nil
  | cons tc tcs ih =>
    cases names with
    | nil => simp at hl
    | cons name names =>
      have hr := ih (by simpa using hl) (fun tc hm => ht tc (List.mem_cons_of_mem _ hm))
        ((d.addNames [name]).addSubtypes [tc])
      rw [Draft.addNames_cons, Draft.addSubtypes_cons]
      exact seq (field (string name) _ _ d) (seq (field (ht tc List.mem_cons_self) _ _ _) hr)

theorem arms {discriminator : TCKind} {w : Nat} {labels : List Int} {names : List (List UInt8)}
    {tcs : List TCGraph} (hw : discriminator.labelWidth = some w)
    (hr : ∀ label ∈ labels, discriminator.inRange label = true)
    (hn : tcs.length = names.length) (hl : tcs.length = labels.length)
    (ht : ∀ tc ∈ tcs, Reads table pending e start depth (tcEnc e start tc) dec (.ok tc.image))
    (d : Draft) :
    Reads table pending e start depth (encArms e start w labels names tcs)
      (fun s => decArms dec discriminator w tcs.length (d, s))
      fun s => .ok () (((d.addLabels labels).addNames names).addSubtypes tcs, s) := by
  induction tcs generalizing d labels names with
  | nil =>
    obtain rfl := List.eq_nil_of_length_eq_zero hn.symm
    obtain rfl := List.eq_nil_of_length_eq_zero hl.symm
    rw [Draft.addLabels_nil, Draft.addNames_nil, Draft.addSubtypes_nil]
    exact nil
  | cons tc tcs ih =>
    cases names with
    | nil => simp at hn
    | cons name names =>
      cases labels with
      | nil => simp at hl
      | cons label labels =>
        have hi := ih (fun l hm => hr l (List.mem_cons_of_mem _ hm)) (by simpa using hn)
          (by simpa using hl) (fun tc hm => ht tc (List.mem_cons_of_mem _ hm))
          (((d.addLabels [label]).addNames [name]).addSubtypes [tc])
        have hlabel : Reads table pending e start depth _ _ _ :=
          field (word (TCKind.labelWidth_dvd hw) (unsigned_lt w label))
          (fun n d => { d with fields := { d.fields with
            sublabels := d.fields.sublabels ++ [discriminator.label n] } })
          (fun _ => decSubname >>= fun _ => decSubtype dec >>= fun _ =>
            decArms dec discriminator w tcs.length) d
        rw [TCKind.label_unsigned hw (hr label List.mem_cons_self)] at hlabel
        rw [Draft.addLabels_cons, Draft.addNames_cons, Draft.addSubtypes_cons]
        exact seq hlabel
          (seq (field (string name) _ _ _) (seq (field (ht tc List.mem_cons_self) _ _ _) hi))

end Reads

/-- The draft that a decoder leaves behind the encoder. -/
def Draft.arrived (info : TCInfo) (subtypes : List TCGraph) (discriminator : Option TCGraph) :
    Draft :=
  ⟨info.arrived subtypes.length, TCGraph.images subtypes, TCGraph.discriminatorImage discriminator⟩

theorem TCGraph.image_kind {g : TCGraph} (h : g.sendable = true) :
    ∃ fields subtypes discriminator, g.image = .node fields subtypes discriminator ∧
      fields.kind = g.info.kind := by
  cases g with
  | node addr info subtypes discriminator =>
    simp only [sendable, Bool.and_eq_true] at h
    rw [image]
    split
    · rename_i hk
      obtain ⟨name, hb⟩ := Option.isSome_iff_exists.1 (TCInfo.parts_empty h.1.1.2 hk).1
      exact ⟨_, _, _, by rw [TCKind.basicType, hb], rfl⟩
    · exact ⟨_, _, _, rfl, by simp [TCGraph.info]⟩

section
variable {table : Nat → TCGraph} {pending : List Nat} {e : Endian} {start depth : Nat}
variable {dec : Reading TcState Decoded}
open Reads

/-- One encoder and its decoder, over those of the subtypes. -/
theorem encoder_reads {info : TCInfo} {subtypes : List TCGraph} {discriminator : Option TCGraph}
    (hr : info.ranged = true)
    (hp : info.parts subtypes.length (discriminator.map fun d => d.info.kind) = true)
    (hk : info.kind.tkType ≠ .empty) (hd : TCGraph.discriminatorSendable discriminator = true)
    (hs : ∀ tc ∈ subtypes,
      Reads table pending e start depth (tcEnc e start tc) dec (.ok tc.image))
    (hds : ∀ tc ∈ discriminator,
      Reads table pending e start depth (tcEnc e start tc) dec (.ok tc.image)) :
    Reads table pending e start depth
      (encoder e info subtypes.length (discriminator.map fun d => d.info.kind)
        (encFirst e start subtypes) (encDiscriminator e start discriminator)
        (encMembers e start info.subnames subtypes)
        (fun w => encArms e start w info.sublabels info.subnames subtypes))
      (fun s => decoder dec info.kind (Draft.empty info.kind, s))
      fun s => .ok () (Draft.arrived info subtypes discriminator, s) := by
  cases info with
  | mk kind length name repoId subnames sublabels defaultIndex digits scale =>
  simp only [TCInfo.ranged, Bool.and_eq_true, decide_eq_true_eq] at hr
  obtain ⟨⟨⟨⟨⟨⟨⟨hlength, hdefault⟩, hdigits⟩, hscale⟩, hcount⟩, _⟩, _⟩, _⟩ := hr
  cases kind <;> simp only [TCInfo.parts, Bool.and_eq_true, beq_iff_eq, TCKind.tkType, ne_eq,
    not_true_eq_false] at hp hk
  case objref =>
    obtain ⟨h₀, hn⟩ := hp
    obtain rfl := List.eq_nil_of_length_eq_zero h₀
    obtain rfl : discriminator = none := by simpa using hn
    exact seq (field (string repoId) _ _ _) (field (string name) _ _ _)
  case struct =>
    obtain ⟨h₀, hn⟩ := hp
    obtain rfl : discriminator = none := by simpa using hn
    refine seq (field (string repoId) _ _ _) (seq (field (string name) _ _ _) ?_)
    refine seq (field (word (n := subtypes.length) (by decide) (by omega)) _ _ _) ?_
    exact members h₀ hs _
  case except =>
    obtain ⟨h₀, hn⟩ := hp
    obtain rfl : discriminator = none := by simpa using hn
    refine seq (field (string repoId) _ _ _) (seq (field (string name) _ _ _) ?_)
    refine seq (field (word (n := subtypes.length) (by decide) (by omega)) _ _ _) ?_
    exact members h₀ hs _
  case union =>
    obtain ⟨⟨hn, hl⟩, hm⟩ := hp
    cases discriminator with
    | none => simp at hm
    | some d =>
      simp only [Option.map_some, Bool.and_eq_true, List.all_eq_true] at hm
      obtain ⟨w, hw⟩ := Option.isSome_iff_exists.1 hm.1
      obtain ⟨fields, _, _, hi, hkind⟩ := TCGraph.image_kind hd
      have hu : decUnionMembers dec subtypes.length d.image =
          decArms dec d.info.kind w subtypes.length := by
        rw [hi, decUnionMembers, hkind, hw]
      have hindex : Reads table pending e start depth _ _ _ :=
        field (word (w := 4) (by decide) (unsigned_lt 4 defaultIndex))
        (fun n d => { d with fields := { d.fields with defaultIndex := some (signed 4 n) } })
        (fun _ => decSubParts >>= fun subParts => decUnionMembers dec subParts d.image)
        ⟨{ (Draft.empty .union).fields with
          repoId := arrivedString repoId, name := arrivedString name }, [], d.image⟩
      rw [signed_unsigned (.inr (.inr rfl)) (by omega) (by omega)] at hindex
      refine seq (field (string repoId) _ _ _) (seq (field (string name) _ _ _) ?_)
      refine seq (field (hds d rfl) _ _ _) (seq hindex ?_)
      refine seq (field (word (n := subtypes.length) (by decide) (by omega)) _ _ _) ?_
      rw [Option.map_some, Option.bind_some, hw, hu]
      exact arms hw hm.2 hn hl hs _
  case enum =>
    obtain ⟨h₀, hn⟩ := hp
    obtain rfl := List.eq_nil_of_length_eq_zero h₀
    obtain rfl : discriminator = none := by simpa using hn
    refine seq (field (string repoId) _ _ _) (seq (field (string name) _ _ _) ?_)
    refine seq (field (word (n := subnames.length) (by decide) (by omega)) _ _ _) ?_
    exact names subnames _
  case «alias» =>
    obtain ⟨h₁, hn⟩ := hp
    obtain ⟨tc, rfl⟩ := List.length_eq_one_iff.1 h₁
    obtain rfl : discriminator = none := by simpa using hn
    refine seq (Reads.ignored (string repoId) _ _ _) (seq (Reads.ignored (string name) _ _ _) ?_)
    exact field (hs tc List.mem_cons_self) _ _ _
  case sequence =>
    obtain ⟨h₁, hn⟩ := hp
    obtain ⟨tc, rfl⟩ := List.length_eq_one_iff.1 h₁
    obtain rfl : discriminator = none := by simpa using hn
    refine seq (field (hs tc List.mem_cons_self) _ _ _) ?_
    exact field (word (n := length) (by decide) (by omega)) _ _ _
  case array =>
    obtain ⟨h₁, hn⟩ := hp
    obtain ⟨tc, rfl⟩ := List.length_eq_one_iff.1 h₁
    obtain rfl : discriminator = none := by simpa using hn
    refine seq (field (hs tc List.mem_cons_self) _ _ _) ?_
    exact field (word (n := length) (by decide) (by omega)) _ _ _
  case string =>
    obtain ⟨h₀, hn⟩ := hp
    obtain rfl := List.eq_nil_of_length_eq_zero h₀
    obtain rfl : discriminator = none := by simpa using hn
    exact field (word (n := length) (by decide) (by omega)) _ _ _
  case wstring =>
    obtain ⟨h₀, hn⟩ := hp
    obtain rfl := List.eq_nil_of_length_eq_zero h₀
    obtain rfl : discriminator = none := by simpa using hn
    exact field (word (n := length) (by decide) (by omega)) _ _ _
  case fixed =>
    obtain ⟨h₀, hn⟩ := hp
    obtain rfl := List.eq_nil_of_length_eq_zero h₀
    obtain rfl : discriminator = none := by simpa using hn
    have hscale' : Reads table pending e start depth _ _ _ :=
      field (word (w := 2) (by decide) (unsigned_lt 2 scale))
      (fun n d => { d with fields := { d.fields with scale := some (signed 2 n) } })
      (fun _ => pure ())
      ⟨{ (Draft.empty .fixed).fields with digits := some digits }, [], .null⟩
    rw [signed_unsigned (.inr (.inl rfl)) (by omega) (by omega)] at hscale'
    exact seq (field (word (n := digits) (by decide) (by omega)) _ _ _) hscale'

end

/-! ### One node -/

theorem dvd_pad (w size : Nat) (hw : 0 < w) : w ∣ 12 + (size + (pad w size).length) := by
  have hl := le_alignUp (12 + size) hw
  rw [pad, List.length_replicate, show 12 + (size + (alignUp (12 + size) w - (12 + size))) =
    alignUp (12 + size) w by omega]
  exact dvd_alignUp _ _

theorem pad_of_dvd {w size : Nat} (hw : 0 < w) (h : w ∣ 12 + size) : pad w size = [] := by
  rw [pad, alignUp_eq_of_dvd hw h, Nat.sub_self]
  rfl

@[simp] theorem cdrPut_length (e : Endian) (w n size : Nat) :
    (cdrPut e w n size).length = (pad w size).length + w := by
  rw [cdrPut, List.length_append, Endian.split_length]

section
variable {e : Endian} {start size depth : Nat} {s : TcState} {rest : List UInt8}

theorem tcDec_kind {kind : TCKind} (h : Stands e start s size (cdrPut e 4 kind.code size ++ rest)) :
    tcDec (depth + 1) s =
      tcNode (tcDec depth) kind (s.after (cdrPut e 4 kind.code size).length []) := by
  have hlt := kind.code_lt
  rw [tcDec, Reading.bind_ok (cdrGet_at h (by decide) (by omega)), kind.all_code]

/-- The index that a node gets. -/
theorem Stands.index (h : Stands e start s size rest) (hs : 12 + size < 2^32) (h4 : 4 ≤ size) :
    (s.currentIdx + s.cursor.cur - 4) % 2^32 = 12 + (size - 4) := by
  have hi := h.idx
  rw [hi, Nat.mod_eq_of_lt (by omega)]
  omega

/-- A reference, where the node it refers to has been read. -/
theorem tcDec_recursive {index n : Nat} {tc : Decoded} {table : Nat → TCGraph}
    {pending : List Nat} {prior : List (Nat × Nat)} (hn : n = size + (pad 4 size).length)
    (hlt : 12 + n + 8 < 2^32)
    (h : Stands e start s size (pad 4 size ++ e.split 4 tkRecursive ++
      e.split 4 (unsigned 4 ((index : Int) - (n + 4 : Nat) - 4)) ++ rest))
    (hk : Known table pending prior s.prior size) (hm : (tc, 12 + index) ∈ s.prior) :
    tcDec (depth + 1) s =
      if BackRef.near ⟨12 + index, 12 + n + 8, start⟩ then
        .ok tc (s.after ((pad 4 size).length + 8) [])
      else .crash := by
  have hd := dvd_pad 4 size (by omega)
  rw [← hn] at hd
  have hput : ∀ i, cdrPut e 4 i (n + 4) = e.split 4 i := by
    intro i
    rw [cdrPut, pad_of_dvd (by omega) (by omega), List.nil_append]
  rw [List.append_assoc, ← cdrPut] at h
  have h' := h.after []
  rw [cdrPut_length, show size + ((pad 4 size).length + 4) = n + 4 by omega, ← hput] at h'
  have hg := cdrGet_at h (by decide) (by decide)
  have hg' := cdrGet_at h' (by decide) (unsigned_lt 4 _)
  have hidx := h.idx
  have hstart := h.start
  have hb := hk.below _ hm
  rw [cdrPut_length] at hg
  rw [hput, Endian.split_length, TcState.after_after] at hg'
  have hnone : TCKind.all[tkRecursive]? = none := by decide
  rw [tcDec, Reading.bind_ok hg, hnone]
  simp only [if_true]
  rw [tcRecursive_of hg']
  have hrptr : s.cursor.cur + ((pad 4 size).length + 4 + 4) = 12 + n + 8 - start := by omega
  have hmatch : ∀ node ∈ s.prior,
      (signed 4 (unsigned 4 ((index : Int) - (n + 4 : Nat) - 4)) ==
        backOffset node.2 start (s.cursor.cur + ((pad 4 size).length + 4 + 4))) =
      (node.2 == 12 + index && BackRef.near ⟨12 + index, 12 + n + 8, start⟩) := by
    intro node hnode
    have hb' := hk.below node hnode
    have hdiff : (index : Int) - (n + 4 : Nat) - 4 =
        ((12 + index : Nat) : Int) - (12 + n + 8 : Nat) := by omega
    rw [Bool.eq_iff_iff, Bool.and_eq_true, beq_iff_eq, beq_iff_eq, hdiff, hrptr]
    apply BackRef.match_iff (r := ⟨12 + index, 12 + n + 8, start⟩) hlt <;> dsimp only <;> omega
  simp only [TcState.after, List.nil_append, hstart]
  rw [List.find?_congr hmatch]
  by_cases hnear : BackRef.near ⟨12 + index, 12 + n + 8, start⟩ = true
  · simp only [hnear, Bool.and_true, if_true]
    rw [hk.find hm]
  · rw [List.find?_eq_none.2 (by simp [hnear]), if_neg hnear]

/-- The encapsulation that a complex TypeCode is sent in. -/
theorem useEncapsBuf_at {body : List UInt8}
    (h : Stands e start s size (e.split 4 (1 + body.length) ++ (endianFlag e :: body) ++ rest))
    (ha : 4 ∣ 12 + size) (hlt : 1 + body.length < 2^32) :
    useEncapsBuf s.cursor = some
      (some ⟨s.cursor.base + (s.cursor.cur + 4), endianFlag e :: body, 1, s.cursor.host, e⟩,
        { s.cursor with cur := s.cursor.cur + 4 + (1 + body.length) }) := by
  have halign := h.align (w := 4) (by decide)
  have hl := h.length
  have hd := h.data
  have hsender := h.sender
  rw [pad_of_dvd (by omega) ha, List.length_nil, Nat.add_zero] at halign
  rw [List.length_append, List.length_append, Endian.split_length, List.length_cons] at hl
  have hword : (s.cursor.data.drop s.cursor.cur).take 4 = e.split 4 (1 + body.length) := by
    rw [hd, List.append_assoc, List.take_left' (Endian.split_length _ _ _)]
  have hrest : s.cursor.data.drop (s.cursor.cur + 4) = (endianFlag e :: body) ++ rest := by
    rw [← List.drop_drop, hd, List.append_assoc, List.drop_left' (Endian.split_length _ _ _)]
  have hflag : s.cursor.data[s.cursor.cur + 4]? = some (endianFlag e) := by
    rw [← List.head?_drop, hrest]
    rfl
  have hlen : (if s.cursor.sender ≠ s.cursor.host then
      swapWord 4 (s.cursor.host.join (e.split 4 (1 + body.length)))
      else s.cursor.host.join (e.split 4 (1 + body.length))) = 1 + body.length := by
    simpa [hsender] using join_sender s.cursor.host e 4 (1 + body.length) (by omega)
  have hbody : ((endianFlag e :: body) ++ rest).take (1 + body.length) = endianFlag e :: body :=
    List.take_left' (by simp [Nat.add_comm])
  unfold useEncapsBuf
  simp only [halign]
  rw [if_neg (by omega)]
  simp only [hword]
  rw [hlen, if_neg (by omega), hflag, hrest, hbody]
  cases e <;> rfl

end

/-- The parts of a TypeCode have been read, at indices behind its own. -/
theorem Known.finish {table : Nat → TCGraph} {pending : List Nat} {prior prior' : List (Nat × Nat)}
    {nodes new : List (Decoded × Nat)} {size i n addr : Nat} {tc : Decoded}
    (h : Known table (addr :: pending) prior' (new ++ nodes) n)
    (hk : Known table pending prior nodes size) (hkeep : Keeps ((addr, i) :: prior) prior')
    (htc : (table addr).image = tc) (hi : size ≤ i) (hn : i < n)
    (hnew : ∀ node ∈ new, 12 + i < node.2) :
    Known table pending prior' ((tc, 12 + i) :: (new ++ nodes)) n := by
  have hne : ∀ node ∈ new ++ nodes, node.2 ≠ 12 + i := by
    intro node hm
    rcases List.mem_append.1 hm with hm | hm
    · exact Nat.ne_of_gt (hnew node hm)
    · have hb := hk.below node hm
      omega
  have hf : prior'.find? (·.1 == addr) = some (addr, i) := by
    apply hkeep
    exact List.find?_cons_of_pos (by simp)
  exact (h.add tc hne hn).pop hf (htc ▸ List.mem_cons_self)

section
variable {table : Nat → TCGraph} {pending : List Nat} {e : Endian} {start depth : Nat}
variable {addr : Nat} {info : TCInfo} {subtypes : List TCGraph} {discriminator : Option TCGraph}

theorem reads_basic (hk : info.kind.tkType = .empty) :
    Reads table pending e start depth (tcEnc e start (.node addr info subtypes discriminator))
      (tcDec depth) (.ok info.kind.basicType) := by
  intro s size prior r rest henc hs hlt hd hknown
  simp only [tcEnc, hk, if_true, Option.some.injEq] at henc
  subst henc
  rw [← cdrPut] at hs hlt hd ⊢
  have hi := (hs.after []).index
  rw [cdrPut_length] at hlt hd hi
  obtain ⟨n, rfl⟩ : ∃ n, depth = n+1 := ⟨depth - 1, by omega⟩
  refine ⟨[(info.kind.basicType, 12 + (size + (pad 4 size).length))], ?_, ?_, Keeps.refl _, ?_⟩
  · rw [tcDec_kind hs, tcNode, hk]
    simp only [List.all_nil, if_true]
    rw [cdrPut_length, hi (by omega) (by omega)]
    simp [TcState.after, ← Nat.add_assoc]
  · simp
  · rw [cdrPut_length]
    refine (hknown.mono (by omega)).add _ ?_ (by omega)
    intro node hm
    have hb := hknown.below node hm
    omega

/-- A reference, where the node it refers to is not being sent. -/
theorem reads_recursive (hk : info.kind.tkType ≠ .empty)
    (ht : table addr = .node addr info subtypes discriminator) (hp : addr ∉ pending)
    {s : TcState} {size : Nat} {prior : List (Nat × Nat)} {r : Encoded} {rest : List UInt8}
    {entry : Nat × Nat} (hf : prior.find? (·.1 == addr) = some entry)
    (henc : tcEnc e start (.node addr info subtypes discriminator) size prior = some r)
    (hs : Stands e start s size (r.bytes ++ rest)) (hlt : 12 + size + r.bytes.length < 2^32)
    (hd : r.bytes.length ≤ depth) (hknown : Known table pending prior s.prior size) :
    tcDec depth s = (if r.refs.all BackRef.near then
      .ok (TCGraph.node addr info subtypes discriminator).image (s.after r.bytes.length [])
      else .crash) ∧ r.prior = prior := by
  obtain ⟨_, index⟩ := entry
  simp only [tcEnc, hk, if_false, hf, Option.some.injEq] at henc
  subst henc
  have hl : (pad 4 size ++ e.split 4 tkRecursive ++ e.split 4 (unsigned 4 ((index : Int) -
      (size + (pad 4 size).length + 4 : Nat) - 4))).length = (pad 4 size).length + 8 := by simp
  simp only [hl] at hlt hd ⊢
  obtain ⟨n, rfl⟩ : ∃ n, depth = n+1 := ⟨depth - 1, by omega⟩
  have hm := (hknown.known addr _ hf).resolve_left hp
  rw [ht] at hm
  refine ⟨?_, trivial⟩
  rw [tcDec_recursive rfl (by omega) hs hknown hm]
  simp

/-- `tc_dec` of a simple TypeCode, behind its encoder. -/
theorem reads_simple {body : Enc} (hk : info.kind.tkType = .simple)
    (hg : (TCGraph.node addr info subtypes discriminator).sendable = true)
    (ht : table addr = .node addr info subtypes discriminator)
    {s : TcState} {size n : Nat} {prior : List (Nat × Nat)} {r : Encoded} {rest : List UInt8}
    (hbody : Reads table (addr :: pending) e start depth body
      (fun s => decoder (tcDec depth) info.kind (Draft.empty info.kind, s))
      fun s => .ok () (Draft.arrived info subtypes discriminator, s))
    (hf : prior.find? (·.1 == addr) = none) (hn : n = size + (pad 4 size).length)
    (henc : body (n + 4) ((addr, n) :: prior) = some r)
    (hs : Stands e start s size (cdrPut e 4 info.kind.code size ++ r.bytes ++ rest))
    (hlt : 12 + n + 4 + r.bytes.length < 2^32) (hd : r.bytes.length ≤ depth)
    (hknown : Known table pending prior s.prior size) :
    ∃ new : List (Decoded × Nat),
      tcDec (depth + 1) s = (if r.refs.all BackRef.near then
        .ok (TCGraph.node addr info subtypes discriminator).image
          (s.after ((pad 4 size).length + 4 + r.bytes.length) new)
        else .crash) ∧
      (∀ node ∈ new, 12 + size ≤ node.2) ∧ Keeps prior r.prior ∧
      Known table pending r.prior (new ++ s.prior)
        (size + ((pad 4 size).length + 4 + r.bytes.length)) := by
  rw [List.append_assoc] at hs
  have hs₁ := hs.after []
  rw [cdrPut_length, show size + ((pad 4 size).length + 4) = n + 4 by omega] at hs₁
  have hi := hs₁.index (by omega) (by omega)
  have hpush : Known table (addr :: pending) ((addr, n) :: prior) s.prior (n + 4) :=
    (hknown.push addr n).mono (by omega)
  obtain ⟨new, hm, habove, hkeep, hknown'⟩ := hbody henc hs₁ (by omega) hd hpush
  refine ⟨((TCGraph.node addr info subtypes discriminator).image, 12 + n) :: new, ?_, ?_,
    (Keeps.cons hf).trans hkeep, ?_⟩
  · have hfin := TCGraph.alignable_image _ hg
    rw [TCGraph.image_of_ne (by simp [hk])] at hfin ⊢
    rw [tcDec_kind hs, tcNode, hk, cdrPut_length]
    simp only at hm
    simp only [hm, hi]
    by_cases hnear : r.refs.all BackRef.near = true
    · simp only [hnear, if_true]
      unfold tcFinish
      simp only [Draft.arrived, hfin, if_true]
      simp [TcState.after, Nat.add_assoc]
    · simp [hnear]
  · intro node hmem
    rcases List.mem_cons.1 hmem with rfl | hmem
    · simp only
      omega
    · have hb := habove node hmem
      omega
  · have hfinish := hknown'.finish hknown hkeep (i := n) (congrArg TCGraph.image ht) (by omega)
      (by omega) (by
        intro node hmem
        have hb := habove node hmem
        omega)
    rw [show size + ((pad 4 size).length + 4 + r.bytes.length) = n + 4 + r.bytes.length by omega]
    exact hfinish

/-- Inside the encapsulation of a complex TypeCode. -/
theorem Stands.encaps {s : TcState} {size : Nat} {rest body : List UInt8}
    (h : Stands e start s size (e.split 4 (1 + body.length) ++ (endianFlag e :: body) ++ rest))
    (hlt : 12 + size + 4 < 2^32) :
    Stands e (12 + size + 4)
      { s with
        cursor := ⟨s.cursor.base + (s.cursor.cur + 4), endianFlag e :: body, 1, s.cursor.host, e⟩
        currentIdx := (s.currentIdx + (s.cursor.cur + 4)) % 2^32 }
      (size + 5) (body ++ []) := by
  have hi := h.idx
  obtain ⟨base, hb, hp⟩ := h.pos
  have hm : (s.currentIdx + (s.cursor.cur + 4)) % 2^32 = 12 + size + 4 := by
    rw [← Nat.add_assoc, hi, Nat.mod_eq_of_lt hlt]
  constructor
  · refine ⟨base, hb, ?_⟩
    simp only
    omega
  · exact hm
  · simp only [hm]
    omega
  · rfl
  · simp
  · simp

/-- `tc_dec` of a complex TypeCode, behind its encoder. -/
theorem reads_complex {body : Enc} (hk : info.kind.tkType = .complex)
    (hg : (TCGraph.node addr info subtypes discriminator).sendable = true)
    (ht : table addr = .node addr info subtypes discriminator)
    {s : TcState} {size n : Nat} {prior : List (Nat × Nat)} {r : Encoded} {rest : List UInt8}
    (hbody : Reads table (addr :: pending) e (12 + n + 8) depth body
      (fun s => decoder (tcDec depth) info.kind (Draft.empty info.kind, s))
      fun s => .ok () (Draft.arrived info subtypes discriminator, s))
    (hf : prior.find? (·.1 == addr) = none) (hn : n = size + (pad 4 size).length)
    (henc : body (n + 9) ((addr, n) :: prior) = some r)
    (hs : Stands e start s size (cdrPut e 4 info.kind.code size ++
      (e.split 4 (1 + r.bytes.length) ++ (endianFlag e :: r.bytes)) ++ rest))
    (hlt : 12 + n + 9 + r.bytes.length < 2^32) (hd : r.bytes.length ≤ depth)
    (hknown : Known table pending prior s.prior size) :
    ∃ new : List (Decoded × Nat),
      tcDec (depth + 1) s = (if r.refs.all BackRef.near then
        .ok (TCGraph.node addr info subtypes discriminator).image
          (s.after ((pad 4 size).length + 9 + r.bytes.length) new)
        else .crash) ∧
      (∀ node ∈ new, 12 + size ≤ node.2) ∧ Keeps prior r.prior ∧
      Known table pending r.prior (new ++ s.prior)
        (size + ((pad 4 size).length + 9 + r.bytes.length)) := by
  rw [List.append_assoc] at hs
  have hs₁ := hs.after []
  have hdvd := dvd_pad 4 size (by omega)
  rw [cdrPut_length, show size + ((pad 4 size).length + 4) = n + 4 by omega] at hs₁
  have hi := hs₁.index (by omega) (by omega)
  have huse := useEncapsBuf_at hs₁ (by omega) (by omega)
  have hinner := hs₁.encaps (by omega)
  have hpush : Known table (addr :: pending) ((addr, n) :: prior) s.prior (n + 9) :=
    (hknown.push addr n).mono (by omega)
  obtain ⟨new, hm, habove, hkeep, hknown'⟩ := hbody henc hinner (by omega) hd hpush
  refine ⟨((TCGraph.node addr info subtypes discriminator).image, 12 + n) :: new, ?_, ?_,
    (Keeps.cons hf).trans hkeep, ?_⟩
  · have hfin := TCGraph.alignable_image _ hg
    rw [TCGraph.image_of_ne (by simp [hk])] at hfin ⊢
    rw [tcDec_kind hs, tcNode, hk, cdrPut_length]
    simp only at hm
    simp only [huse, hm, hi]
    by_cases hnear : r.refs.all BackRef.near = true
    · simp only [hnear, if_true]
      unfold tcFinish
      simp only [Draft.arrived, hfin, if_true]
      simp [TcState.after]
      omega
    · simp [hnear]
  · intro node hmem
    rcases List.mem_cons.1 hmem with rfl | hmem
    · simp only
      omega
    · have hb := habove node hmem
      omega
  · have hfinish := hknown'.finish hknown hkeep (i := n) (congrArg TCGraph.image ht) (by omega)
      (by omega) (by
        intro node hmem
        have hb := habove node hmem
        omega)
    rw [show size + ((pad 4 size).length + 9 + r.bytes.length) = n + 9 + r.bytes.length by omega]
    exact hfinish

end

mutual

/-- A TypeCode is read behind its encoder, to any depth. The nodes around it are larger, so
none of them is the one that a reference in it refers to. -/
theorem tcEnc_reads (table : Nat → TCGraph) (e : Endian) : (g : TCGraph) →
    ∀ ⦃pending : List Nat⦄ ⦃start depth : Nat⦄, g.sendable = true →
    (∀ node ∈ g.nodes, table node.addr = node) →
    (∀ addr ∈ pending, sizeOf g < sizeOf (table addr)) →
    Reads table pending e start depth (tcEnc e start g) (tcDec depth) (.ok g.image)
  | .node addr info subtypes discriminator => by
    intro pending start depth hg hf hp
    by_cases hk : info.kind.tkType = .empty
    · rw [TCGraph.image, if_pos hk]
      exact reads_basic hk
    · intro s size prior r rest henc hs hlt hd hknown
      rw [TCGraph.nodes, if_neg hk] at hf
      have ht : table addr = .node addr info subtypes discriminator :=
        hf (.node addr info subtypes discriminator) (by simp)
      have hnp : addr ∉ pending := by
        intro hm
        have hlt := hp addr hm
        rw [ht] at hlt
        exact Nat.lt_irrefl _ hlt
      cases hfind : prior.find? (·.1 == addr) with
      | some entry =>
        obtain ⟨hm, hprior⟩ := reads_recursive hk ht hnp hfind henc hs hlt hd hknown
        refine ⟨[], hm, by simp, ?_, ?_⟩
        · rw [hprior]
          exact Keeps.refl prior
        · rw [hprior]
          exact hknown.mono (by omega)
      | none =>
        have hpending : ∀ a ∈ addr :: pending,
            sizeOf (TCGraph.node addr info subtypes discriminator) ≤ sizeOf (table a) := by
          intro a hm
          rcases List.mem_cons.1 hm with rfl | hm
          · rw [ht]
          · exact Nat.le_of_lt (hp a hm)
        have hg' := hg
        simp only [TCGraph.sendable, Bool.and_eq_true] at hg'
        obtain ⟨⟨⟨hr, hparts⟩, hs'⟩, hd'⟩ := hg'
        have hsubs : ∀ start depth, ∀ tc ∈ subtypes, Reads table (addr :: pending) e start depth
            (tcEnc e start tc) (tcDec depth) (.ok tc.image) := fun start depth =>
          tcEncAll_reads table e subtypes hs' (fun node hm => hf node (by simp [hm])) (by
            intro a hm
            have hle := hpending a hm
            simp only [TCGraph.node.sizeOf_spec] at hle
            omega)
        have hdisc : ∀ start depth, ∀ tc ∈ discriminator, Reads table (addr :: pending) e start
            depth (tcEnc e start tc) (tcDec depth) (.ok tc.image) := fun start depth =>
          tcEncDiscriminator_reads table e discriminator hd' (fun node hm => hf node (by simp [hm])) (by
            intro a hm
            have hle := hpending a hm
            simp only [TCGraph.node.sizeOf_spec] at hle
            omega)
        cases hkind : info.kind.tkType with
        | empty => exact absurd hkind hk
        | simple =>
          simp only [tcEnc, if_false, hfind, hkind, reduceCtorEq] at henc
          obtain ⟨rb, hb, henc⟩ := Option.bind_eq_some_iff.1 henc
          cases henc
          have hl : (pad 4 size ++ e.split 4 info.kind.code ++ rb.bytes).length =
              (pad 4 size).length + 4 + rb.bytes.length := by simp [Nat.add_assoc]
          simp only [hl] at hlt hd ⊢
          obtain ⟨n, rfl⟩ : ∃ n, depth = n+1 := ⟨depth - 1, by omega⟩
          exact reads_simple hkind hg ht (encoder_reads hr hparts hk hd' (hsubs start n)
            (hdisc start n)) hfind rfl hb hs (by omega) (by omega) hknown
        | complex =>
          simp only [tcEnc, if_false, if_true, hfind, hkind, reduceCtorEq] at henc
          obtain ⟨rb, hb, henc⟩ := Option.bind_eq_some_iff.1 henc
          cases henc
          have hl : (pad 4 size ++ e.split 4 info.kind.code ++ e.split 4 (1 + rb.bytes.length) ++
              (endianFlag e :: rb.bytes)).length =
              (pad 4 size).length + 9 + rb.bytes.length := by
            simp
            omega
          simp only [hl] at hlt hd ⊢
          obtain ⟨n, rfl⟩ : ∃ n, depth = n+1 := ⟨depth - 1, by omega⟩
          have hs₁ : Stands e start s size (cdrPut e 4 info.kind.code size ++
              (e.split 4 (1 + rb.bytes.length) ++ (endianFlag e :: rb.bytes)) ++ rest) := by
            simpa [cdrPut, List.append_assoc] using hs
          exact reads_complex hkind hg ht (encoder_reads hr hparts hk hd' (hsubs _ n)
            (hdisc _ n)) hfind rfl hb hs₁ (by omega) (by omega) hknown

theorem tcEncAll_reads (table : Nat → TCGraph) (e : Endian) : (tcs : List TCGraph) →
    ∀ ⦃pending : List Nat⦄ ⦃start depth : Nat⦄, TCGraph.allSendable tcs = true →
    (∀ node ∈ TCGraph.allNodes tcs, table node.addr = node) →
    (∀ addr ∈ pending, sizeOf tcs < sizeOf (table addr)) →
    ∀ tc ∈ tcs, Reads table pending e start depth (tcEnc e start tc) (tcDec depth) (.ok tc.image)
  | [] => by simp
  | tc :: tcs => by
    intro pending start depth hg hf hp tc' hm
    rw [TCGraph.allSendable, Bool.and_eq_true] at hg
    simp only [List.cons.sizeOf_spec] at hp
    have htc := @tcEnc_reads table e tc pending start depth hg.1
      (fun node hn => hf node (by simp [TCGraph.allNodes, hn])) fun a ha => by
        have hlt := hp a ha
        omega
    have htcs := @tcEncAll_reads table e tcs pending start depth hg.2
      (fun node hn => hf node (by simp [TCGraph.allNodes, hn])) fun a ha => by
        have hlt := hp a ha
        omega
    rcases List.mem_cons.1 hm with rfl | hm
    · exact htc
    · exact htcs tc' hm

theorem tcEncDiscriminator_reads (table : Nat → TCGraph) (e : Endian) :
    (discriminator : Option TCGraph) → ∀ ⦃pending : List Nat⦄ ⦃start depth : Nat⦄,
    TCGraph.discriminatorSendable discriminator = true →
    (∀ node ∈ TCGraph.discriminatorNodes discriminator, table node.addr = node) →
    (∀ addr ∈ pending, sizeOf discriminator < sizeOf (table addr)) →
    ∀ tc ∈ discriminator,
      Reads table pending e start depth (tcEnc e start tc) (tcDec depth) (.ok tc.image)
  | none => by simp
  | some d => by
    intro pending start depth hg hf hp tc hm
    simp only [Option.some.sizeOf_spec] at hp
    have hd := @tcEnc_reads table e d pending start depth hg hf fun a ha => by
      have hlt := hp a ha
      omega
    cases hm
    exact hd

end

end ORBit2
