import ORBit2.TypeCodeReading

/-! What is left of a TypeCode at the other end: the structure that the decoder fills in, and
the TypeCode one reads there. -/

set_option autoImplicit false

namespace ORBit2
open Words

def TCInfo.bare (kind : TCKind) : TCInfo := ⟨kind, 0, [], [], [], [], 0, 0, 0⟩

/-- The fields that the encoder of the kind sends. -/
@[grind =] def TCInfo.sent (info : TCInfo) : TCInfo :=
  match info.kind with
  | .objref | .alias =>
      { TCInfo.bare info.kind with name := info.name, repoId := info.repoId }
  | .struct | .except | .enum =>
      { TCInfo.bare info.kind with
        name := info.name, repoId := info.repoId, subnames := info.subnames }
  | .union =>
      { TCInfo.bare info.kind with
        name := info.name, repoId := info.repoId, subnames := info.subnames,
        sublabels := info.sublabels, defaultIndex := info.defaultIndex }
  | .sequence | .array | .string | .wstring =>
      { TCInfo.bare info.kind with length := info.length }
  | .fixed => { TCInfo.bare info.kind with digits := info.digits, scale := info.scale }
  | _ => TCInfo.bare info.kind

mutual

/-- A TypeCode without the fields that other kinds have. -/
@[grind =] def CTypeCode.sent : CTypeCode → CTypeCode
  | .node info subtypes discriminator =>
      .node info.sent (CTypeCode.allSent subtypes) (CTypeCode.discriminatorSent discriminator)

@[grind =] def CTypeCode.allSent : List CTypeCode → List CTypeCode
  | [] => []
  | tc :: tcs => CTypeCode.sent tc :: CTypeCode.allSent tcs

@[grind =] def CTypeCode.discriminatorSent : Option CTypeCode → Option CTypeCode
  | none => none
  | some tc => some (CTypeCode.sent tc)

end

/-! ### Graphs -/

namespace TCGraph

mutual

/-- A graph spread out, without its addresses. -/
@[grind =] def plain : TCGraph → CTypeCode
  | .node _ info subtypes discriminator =>
      .node info (allPlain subtypes) (discriminatorPlain discriminator)

@[grind =] def allPlain : List TCGraph → List CTypeCode
  | [] => []
  | tc :: tcs => plain tc :: allPlain tcs

@[grind =] def discriminatorPlain : Option TCGraph → Option CTypeCode
  | none => none
  | some tc => some (plain tc)

end

mutual

/-- The nodes that are not basic types, once for each way that leads to them. -/
@[grind =] def nodes : TCGraph → List TCGraph
  | .node addr info subtypes discriminator =>
      (if info.kind.tkType = .empty then [] else [.node addr info subtypes discriminator]) ++
        (discriminatorNodes discriminator ++ allNodes subtypes)

@[grind =] def allNodes : List TCGraph → List TCGraph
  | [] => []
  | tc :: tcs => nodes tc ++ allNodes tcs

@[grind =] def discriminatorNodes : Option TCGraph → List TCGraph
  | none => []
  | some tc => nodes tc

end

/-- At one address there is one TypeCode. -/
def Consistent (g : TCGraph) : Prop :=
  ∀ node ∈ g.nodes, ∀ node' ∈ g.nodes, node.addr = node'.addr → node = node'

end TCGraph

/-- The labels that a discriminator of the kind can have, as far as a `CORBA_long` goes. -/
def TCKind.inRange (discriminator : TCKind) (label : Int) : Bool :=
  match discriminator with
  | .boolean => decide (0 ≤ label ∧ label < 2^8)
  | .char => decide (-2^7 ≤ label ∧ label < 2^7)
  | .short => decide (-2^15 ≤ label ∧ label < 2^15)
  | .ushort | .wchar => decide (0 ≤ label ∧ label < 2^16)
  | _ => decide (-2^31 ≤ label ∧ label < 2^31)

/-- The values are of the C types of the fields, and the strings are C strings. -/
def TCInfo.ranged (info : TCInfo) : Bool :=
  decide (info.length < 2^32) && decide (-2^31 ≤ info.defaultIndex ∧ info.defaultIndex < 2^31) &&
    decide (info.digits < 2^16) && decide (-2^15 ≤ info.scale ∧ info.scale < 2^15) &&
    decide (info.subnames.length < 2^32) && decide (0 ∉ info.name) && decide (0 ∉ info.repoId) &&
    decide (∀ name ∈ info.subnames, 0 ∉ name)

/-- A TypeCode has the parts that its kind calls for, `subParts` subtypes among them. -/
@[grind =] def TCInfo.parts (info : TCInfo) (subParts : Nat) (discriminator : Option TCKind) : Bool :=
  match info.kind with
  | .struct | .except => subParts == info.subnames.length && discriminator.isNone
  | .union =>
      subParts == info.subnames.length && subParts == info.sublabels.length &&
        match discriminator with
        | some kind => kind.labelWidth.isSome && info.sublabels.all kind.inRange
        | none => false
  | .sequence | .array | .alias => subParts == 1 && discriminator.isNone
  | .objref | .enum | .string | .wstring | .fixed => subParts == 0 && discriminator.isNone
  | kind => kind.basicName.isSome && subParts == 0 && discriminator.isNone

namespace TCGraph

mutual

/-- A TypeCode as the functions of this ORB make them. -/
@[grind =] def sendable : TCGraph → Bool
  | .node _ info subtypes discriminator =>
      info.ranged && info.parts subtypes.length (discriminator.map fun d => d.info.kind) &&
        allSendable subtypes && discriminatorSendable discriminator

@[grind =] def allSendable : List TCGraph → Bool
  | [] => true
  | tc :: tcs => sendable tc && allSendable tcs

@[grind =] def discriminatorSendable : Option TCGraph → Bool
  | none => true
  | some tc => sendable tc

end

end TCGraph

def arrivedString (str : List UInt8) : Option (List UInt8) := some (str ++ [0])

/-- The fields of a node that has been read behind its encoder. -/
@[grind =] def TCInfo.arrived (info : TCInfo) (subParts : Nat) : Fields :=
  let fields := (Draft.empty info.kind).fields
  let named := { fields with
    repoId := arrivedString info.repoId, name := arrivedString info.name }
  match info.kind with
  | .objref => named
  | .struct | .except =>
      { named with subParts := some subParts, subnames := info.subnames.map arrivedString }
  | .union =>
      { named with
        defaultIndex := some info.defaultIndex, subParts := some subParts,
        sublabels := info.sublabels, subnames := info.subnames.map arrivedString }
  | .enum =>
      { named with
        subParts := some info.subnames.length, subnames := info.subnames.map arrivedString }
  | .alias => { named with subParts := some 1 }
  | .sequence | .array => { fields with subParts := some 1, length := some info.length }
  | .string | .wstring => { fields with length := some info.length }
  | .fixed => { fields with digits := some info.digits, scale := some info.scale }
  | _ => fields

namespace TCGraph

mutual

/-- What the decoder makes of the bytes of a TypeCode. -/
@[grind =] def image : TCGraph → Decoded
  | .node _ info subtypes discriminator =>
      if info.kind.tkType = .empty then info.kind.basicType
      else
        .node (info.arrived subtypes.length) (images subtypes) (discriminatorImage discriminator)

@[grind =] def images : List TCGraph → List Decoded
  | [] => []
  | tc :: tcs => image tc :: images tcs

@[grind =] def discriminatorImage : Option TCGraph → Decoded
  | none => .null
  | some tc => image tc

end

end TCGraph

/-! ### Reading a TypeCode in memory -/

/-- The string behind a `char *`; `none` is NULL, or bytes without an end. -/
def cString : Option (List UInt8) → Option (List UInt8)
  | none => none
  | some bytes => if 0 ∈ bytes then some (bytes.takeWhile (· ≠ 0)) else none

/-- What the fields say, if all that the kind calls for are there. -/
@[grind =] def Fields.read (fields : Fields) : Option TCInfo :=
  let bare := TCInfo.bare fields.kind
  match fields.kind with
  | .objref | .alias => do
      let repoId ← cString fields.repoId
      let name ← cString fields.name
      some { bare with name := name, repoId := repoId }
  | .struct | .except | .enum => do
      let repoId ← cString fields.repoId
      let name ← cString fields.name
      let subnames ← fields.subnames.mapM cString
      if fields.subParts = some subnames.length then
        some { bare with name := name, repoId := repoId, subnames := subnames }
      else none
  | .union => do
      let repoId ← cString fields.repoId
      let name ← cString fields.name
      let defaultIndex ← fields.defaultIndex
      let subnames ← fields.subnames.mapM cString
      if fields.subParts = some subnames.length ∧ fields.subParts = some fields.sublabels.length
      then
        some { bare with
          name := name, repoId := repoId, subnames := subnames, sublabels := fields.sublabels,
          defaultIndex := defaultIndex }
      else none
  | .sequence | .array | .string | .wstring => do
      let length ← fields.length
      some { bare with length := length }
  | .fixed => do
      let digits ← fields.digits
      let scale ← fields.scale
      some { bare with digits := digits, scale := scale }
  | kind => if kind.basicName.isSome then some bare else none

/-- The subtypes that the kind calls for are there, and its discriminator is of a kind that
can discriminate. -/
def Fields.complete (fields : Fields) (subtypes : Nat) (discriminator : Option TCKind) : Bool :=
  match fields.kind with
  | .struct | .except => fields.subParts == some subtypes
  | .union => fields.subParts == some subtypes && (discriminator.bind TCKind.labelWidth).isSome
  | .sequence | .array | .alias => subtypes == 1
  | _ => true

namespace Decoded

mutual

/-- The TypeCode in memory, if it is a whole one. -/
@[grind =] def read : Decoded → Option CTypeCode
  | .null => none
  | .node fields subtypes discriminator => do
      let info ← fields.read
      let subtypes ← readAll subtypes
      let discriminator ←
        if fields.kind = .union then (read discriminator).map some else some none
      if fields.complete subtypes.length (discriminator.map CTypeCode.kind) then
        some (.node info subtypes discriminator)
      else none

@[grind =] def readAll : List Decoded → Option (List CTypeCode)
  | [] => some []
  | tc :: tcs => do
      let tc ← read tc
      let tcs ← readAll tcs
      some (tc :: tcs)

end

end Decoded

/-! ### What arrives is what was sent -/

theorem cString_arrived {str : List UInt8} (h : 0 ∉ str) :
    cString (arrivedString str) = some str := by
  have ht : (str ++ [0]).takeWhile (· ≠ 0) = str := by
    rw [List.takeWhile_append_of_pos (by
      intro b hb
      exact decide_eq_true (ne_of_mem_of_not_mem hb h))]
    simp
  rw [arrivedString, cString, if_pos (by simp), ht]

theorem mapM_cString_arrived {names : List (List UInt8)} (h : ∀ name ∈ names, 0 ∉ name) :
    (names.map arrivedString).mapM cString = some names := by
  induction names with
  | nil => rfl
  | cons name names ih =>
    rw [List.map_cons, List.mapM_cons, cString_arrived (h name List.mem_cons_self),
      ih fun name hn => h name (List.mem_cons_of_mem _ hn)]
    rfl

theorem TCInfo.read_arrived {info : TCInfo} {n : Nat} {discriminator : Option TCKind}
    (hr : info.ranged = true) (hp : info.parts n discriminator = true)
    (hk : info.kind.tkType ≠ .empty) : (info.arrived n).read = some info.sent := by
  simp only [ranged, Bool.and_eq_true, decide_eq_true_eq] at hr
  obtain ⟨⟨⟨_, hname⟩, hid⟩, hnames⟩ := hr
  have hn := cString_arrived hname
  have hi := cString_arrived hid
  have hs := mapM_cString_arrived hnames
  cases info with
  | mk kind =>
    cases kind <;>
      simp_all [TCInfo.arrived, Fields.read, TCInfo.sent, Draft.empty, TCInfo.parts, TCKind.tkType]
    case union => exact hp.1.1.symm.trans hp.1.2

theorem TCKind.read_basicType {kind : TCKind} (hk : kind.tkType = .empty)
    (hb : kind.basicName.isSome = true) :
    kind.basicType.read = some (.node (TCInfo.bare kind) [] none) := by
  cases kind <;> simp_all [TCKind.tkType, TCKind.basicName, TCKind.basicType, Decoded.read,
    Fields.read, Decoded.readAll, Fields.complete]

theorem TCInfo.sent_of_empty {info : TCInfo} (hk : info.kind.tkType = .empty) :
    info.sent = TCInfo.bare info.kind := by
  cases info with
  | mk kind => cases kind <;> simp_all [TCInfo.sent, TCKind.tkType]

@[simp] theorem TCInfo.sent_kind (info : TCInfo) : info.sent.kind = info.kind := by
  cases info with
  | mk kind => cases kind <;> rfl

@[simp] theorem TCInfo.arrived_kind (info : TCInfo) (n : Nat) :
    (info.arrived n).kind = info.kind := by
  cases info with
  | mk kind => cases kind <;> rfl

@[simp] theorem CTypeCode.sent_kind (tc : CTypeCode) : tc.sent.kind = tc.kind := by
  cases tc with
  | node info subtypes discriminator => exact info.sent_kind

@[simp] theorem TCGraph.plain_kind (g : TCGraph) : g.plain.kind = g.info.kind := by
  cases g
  rfl

@[simp] theorem CTypeCode.allSent_length (tcs : List CTypeCode) :
    (allSent tcs).length = tcs.length := by
  induction tcs with
  | nil => rfl
  | cons tc tcs ih => simp [allSent, ih]

@[simp] theorem TCGraph.allPlain_length (tcs : List TCGraph) :
    (allPlain tcs).length = tcs.length := by
  induction tcs with
  | nil => rfl
  | cons tc tcs ih => simp [allPlain, ih]

/-- No kind but a union has a discriminator, and no basic type has parts. -/
theorem TCInfo.parts_none {info : TCInfo} {n : Nat} {discriminator : Option TCKind}
    (hp : info.parts n discriminator = true) (hk : info.kind ≠ .union) : discriminator = none := by
  cases discriminator with
  | none => rfl
  | some d =>
    unfold parts at hp
    split at hp <;> simp_all

theorem TCInfo.parts_empty {info : TCInfo} {n : Nat} {discriminator : Option TCKind}
    (hp : info.parts n discriminator = true) (hk : info.kind.tkType = .empty) :
    info.kind.basicName.isSome = true ∧ n = 0 ∧ discriminator = none := by
  cases info with
  | mk kind => cases kind <;> simp_all [parts, TCKind.tkType]

theorem TCInfo.parts_simple {info : TCInfo} {n : Nat} {discriminator : Option TCKind}
    (hp : info.parts n discriminator = true) (hk : info.kind.tkType = .simple) :
    n = 0 ∧ discriminator = none := by
  cases info with
  | mk kind => cases kind <;> simp_all [parts, TCKind.tkType]

theorem TCInfo.arrived_complete {info : TCInfo} {n : Nat} {discriminator : Option TCKind}
    (hp : info.parts n discriminator = true) (hk : info.kind.tkType ≠ .empty) :
    (info.arrived n).complete n discriminator = true := by
  cases info with
  | mk kind =>
    cases kind <;>
      simp_all [TCInfo.arrived, Fields.complete, Draft.empty, TCInfo.parts, TCKind.tkType]
    case union =>
      cases discriminator with
      | none => simp at hp
      | some d =>
        simp only [Bool.and_eq_true] at hp
        exact hp.2.1

namespace TCGraph

mutual

/-- A whole TypeCode is read where one has arrived. -/
theorem read_image : (g : TCGraph) → g.sendable = true → g.image.read = some g.plain.sent
  | .node addr info subtypes discriminator, h => by
    simp only [sendable, Bool.and_eq_true] at h
    obtain ⟨⟨⟨hr, hp⟩, hs⟩, hd⟩ := h
    rw [plain, CTypeCode.sent]
    by_cases hk : info.kind.tkType = .empty
    · obtain ⟨hb, hn, hnone⟩ := TCInfo.parts_empty hp hk
      obtain rfl := List.eq_nil_of_length_eq_zero hn
      obtain rfl := Option.map_eq_none_iff.1 hnone
      rw [image, if_pos hk, TCKind.read_basicType hk hb, TCInfo.sent_of_empty hk]
      rfl
    · have hc := TCInfo.arrived_complete hp hk
      rw [image, if_neg hk, Decoded.read, TCInfo.read_arrived hr hp hk, readAll_images subtypes hs]
      simp only [Option.bind_eq_bind, Option.bind_some, TCInfo.arrived_kind]
      by_cases hu : info.kind = .union
      · cases discriminator with
        | none => simp [TCInfo.parts, hu] at hp
        | some d =>
          rw [if_pos hu, discriminatorImage, read_image d hd]
          rw [Option.map_some] at hc
          simp [hc, discriminatorPlain, CTypeCode.discriminatorSent]
      · obtain hnone := TCInfo.parts_none hp hu
        rw [hnone] at hc
        obtain rfl := Option.map_eq_none_iff.1 hnone
        simp [hu, hc, discriminatorPlain, CTypeCode.discriminatorSent]

theorem readAll_images : (tcs : List TCGraph) → allSendable tcs = true →
    Decoded.readAll (images tcs) = some (CTypeCode.allSent (allPlain tcs))
  | [], _ => by simp [images, Decoded.readAll, allPlain, CTypeCode.allSent]
  | tc :: tcs, h => by
    rw [allSendable, Bool.and_eq_true] at h
    rw [images, Decoded.readAll, read_image tc h.1, readAll_images tcs h.2]
    rfl

end

mutual

/-- `CORBA_TypeCode_equal` looks at nothing that is not sent. -/
theorem equal_sent : (g : TCGraph) → g.sendable = true → g.plain.equal g.plain.sent = some true
  | .node addr info subtypes discriminator, h => by
    simp only [sendable, Bool.and_eq_true] at h
    obtain ⟨⟨⟨hr, hp⟩, hs⟩, hd⟩ := h
    have hm := equivMembers_sent subtypes hs
    rw [CTypeCode.equal, plain, CTypeCode.sent]
    unfold CTypeCode.typecodeEquivInternal
    rw [if_neg (by simp)]
    simp only [if_true, TCInfo.sent_kind, ne_eq, not_true_eq_false, if_false, hm]
    cases hk : info.kind <;> simp only [hk, TCInfo.parts] at hp ⊢ <;> try rfl
    case union =>
      cases discriminator with
      | none => simp at hp
      | some d =>
        have he : CTypeCode.typecodeEquivInternal true d.plain d.plain.sent = some true :=
          equal_sent d hd
        have ha := equivArms_sent subtypes hs info.sublabels
        simp [TCInfo.sent, hk, discriminatorPlain, CTypeCode.discriminatorSent,
          CTypeCode.equivDiscriminator, he, ha]
    all_goals simp_all [TCInfo.sent]

theorem equivMembers_sent : (tcs : List TCGraph) → allSendable tcs = true →
    CTypeCode.equivMembers true (allPlain tcs) (CTypeCode.allSent (allPlain tcs)) = some true
  | [], _ => by simp [allPlain, CTypeCode.equivMembers]
  | tc :: tcs, h => by
    rw [allSendable, Bool.and_eq_true] at h
    have he : CTypeCode.typecodeEquivInternal true tc.plain tc.plain.sent = some true :=
      equal_sent tc h.1
    rw [allPlain, CTypeCode.allSent, CTypeCode.equivMembers, he]
    exact equivMembers_sent tcs h.2

theorem equivArms_sent : (tcs : List TCGraph) → allSendable tcs = true → (labels : List Int) →
    CTypeCode.equivArms true (allPlain tcs) labels (CTypeCode.allSent (allPlain tcs)) labels =
      some true
  | [], _, _ => by simp [allPlain, CTypeCode.equivArms]
  | _ :: _, _, [] => by simp [CTypeCode.equivArms]
  | tc :: tcs, h, label :: labels => by
    rw [allSendable, Bool.and_eq_true] at h
    have he : CTypeCode.typecodeEquivInternal true tc.plain tc.plain.sent = some true :=
      equal_sent tc h.1
    rw [allPlain, CTypeCode.allSent, CTypeCode.equivArms, he]
    simpa using equivArms_sent tcs h.2 labels

end

theorem image_of_ne {addr : Nat} {info : TCInfo} {subtypes : List TCGraph}
    {discriminator : Option TCGraph} (hk : info.kind.tkType ≠ .empty) :
    (node addr info subtypes discriminator).image =
      .node (info.arrived subtypes.length) (images subtypes)
        (discriminatorImage discriminator) := by
  rw [image, if_neg hk]

@[simp] theorem images_length (tcs : List TCGraph) : (images tcs).length = tcs.length := by
  induction tcs with
  | nil => rfl
  | cons tc tcs ih => simp [images, ih]

mutual

/-- The alignment of what has arrived can be computed. -/
theorem alignable_image : (g : TCGraph) → g.sendable = true → g.image.alignable = true
  | .node addr info subtypes discriminator, h => by
    simp only [sendable, Bool.and_eq_true] at h
    obtain ⟨⟨⟨_, hp⟩, hs⟩, hd⟩ := h
    have ha := allAlignable_images subtypes hs
    rw [image]
    split
    · rename_i hk
      have hb := (TCInfo.parts_empty hp hk).1
      cases h : info.kind <;> simp_all [TCKind.tkType, TCKind.basicName, TCKind.basicType,
        Decoded.alignable]
    · rw [Decoded.alignable]
      cases hk : info.kind <;>
        simp_all [TCInfo.arrived, TCInfo.parts, Draft.empty]
      case union =>
        cases discriminator with
        | none => simp at hp
        | some d => exact alignable_image d hd

theorem allAlignable_images : (tcs : List TCGraph) → allSendable tcs = true →
    Decoded.allAlignable (images tcs) = true
  | [], _ => by simp [images, Decoded.allAlignable]
  | tc :: tcs, h => by
    rw [allSendable, Bool.and_eq_true] at h
    rw [images, Decoded.allAlignable, alignable_image tc h.1, allAlignable_images tcs h.2]
    rfl

end

end TCGraph

theorem TCKind.label_unsigned {discriminator : TCKind} {w : Nat} {label : Int}
    (hw : discriminator.labelWidth = some w) (hr : discriminator.inRange label = true) :
    discriminator.label (unsigned w label) = label := by
  cases discriminator <;>
    simp only [labelWidth, reduceCtorEq, Option.some.injEq] at hw <;> subst hw <;>
    simp only [inRange, decide_eq_true_eq] at hr <;>
    simp only [TCKind.label, signed, unsigned] <;> norm_num at hr ⊢ <;> omega

end ORBit2
