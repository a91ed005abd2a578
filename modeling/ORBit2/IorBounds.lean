import ORBit2.IorRuns

/-! Whether `ORBit_demarshal_IOR` reads inside its buffers, and whether the strings that it keeps have
an end. -/

set_option autoImplicit false

namespace ORBit2

/-- The run on a buffer, with the next free address. -/
def iorRun (c : RecvCursor) (next : Nat) : Option (IorReturn × Parsing) × List ParseEvent :=
  Parse.ior ⟨c, c.cur, next⟩

/-- The type id, and the profiles, of a reference that has been accepted. -/
def acceptedIor (c : RecvCursor) (next : Nat) : Option (TypeIdPointer × List ProfileInfo) :=
  (iorRun c next).1.bind fun r => r.1.assigned

/-- Each byte that is read lies in the buffer that is being read, and between the places where it was
taken over and where it ends; elements that are accepted are there; and the strings of a reference
that is accepted have their zero among the bytes that are kept. -/
structure ParsedInBounds (c : RecvCursor) (next : Nat) : Prop where
  reads : ∀ e ∈ (iorRun c next).2, e.Right
  typeId : ∀ typeId profiles, acceptedIor c next = some (typeId, profiles) →
    0 ∈ typeId.chars.take typeId.len
  strings : ∀ typeId profiles, acceptedIor c next = some (typeId, profiles) →
    ∀ p ∈ profiles, ∀ str ∈ p.value.strings, Terminated str

theorem terminated_kept {bytes : List UInt8} : Terminated (Parse.kept bytes) ↔ 0 ∈ bytes := by
  rw [Parse.kept]
  split
  · rename_i hlen
    rw [List.length_eq_zero_iff.mp hlen]
    simp [Terminated]
  · simp [Terminated]

/-- The run keeps the law, and what it returns is what `demarshalIOR` reads. -/
theorem iorRun_keeps (c : RecvCursor) (next : Nat) :
    Fine (iorRun c next).2 ∧ ∀ r s', (iorRun c next).1 = some (r, s') →
      Parse.IorPost ⟨c, c.cur, next⟩ r (iorRun c next).2 s' := by
  obtain ⟨halong, hend⟩ := Parse.keeps_ior ⟨c, c.cur, next⟩ (Nat.le_refl _)
  exact ⟨halong.1, fun r s' hr => (hend r s' hr).2⟩

/-- The strings that are kept are those that have been taken. -/
theorem acceptedIor_strings {c : RecvCursor} {next : Nat} {typeId : TypeIdPointer}
    {profiles : List ProfileInfo} (h : acceptedIor c next = some (typeId, profiles)) :
    profiles.flatMap (fun p => p.value.strings) = (textsOf (iorRun c next).2).map Parse.kept := by
  obtain ⟨⟨r, s'⟩, hr, hassigned⟩ := Option.bind_eq_some_iff.mp h
  exact (((iorRun_keeps c next).2 r s' hr).accepted typeId profiles hassigned).2.2.1

/-- Parsing stays in bounds if, and only if, no encapsulation that it comes to is empty, no number of
code sets wraps round to one that there is room for, and no string of an accepted reference lacks a
zero among the bytes that are announced for it. -/
theorem parsedInBounds_iff (c : RecvCursor) (next : Nat) :
    ParsedInBounds c next ↔
      (∀ e ∈ (iorRun c next).2, e.Sane) ∧
        ∀ typeId profiles, acceptedIor c next = some (typeId, profiles) →
          0 ∈ typeId.chars.take typeId.len ∧ ∀ bytes ∈ textsOf (iorRun c next).2, 0 ∈ bytes := by
  have hfine := (iorRun_keeps c next).1
  have htexts : ∀ {typeId profiles}, acceptedIor c next = some (typeId, profiles) →
      ((∀ p ∈ profiles, ∀ str ∈ p.value.strings, Terminated str) ↔
        ∀ bytes ∈ textsOf (iorRun c next).2, 0 ∈ bytes) := by
    intro typeId profiles h
    rw [← List.forall_mem_flatMap, acceptedIor_strings h, List.forall_mem_map]
    exact forall₂_congr fun bytes _ => terminated_kept
  constructor
  · rintro ⟨hreads, htypeId, hstrings⟩
    refine ⟨hfine.mp hreads, fun typeId profiles h => ?_⟩
    exact ⟨htypeId typeId profiles h, (htexts h).mp (hstrings typeId profiles h)⟩
  · rintro ⟨hsane, haccepted⟩
    refine ⟨hfine.mpr hsane, fun typeId profiles h => (haccepted typeId profiles h).1, ?_⟩
    exact fun typeId profiles h => (htexts h).mpr (haccepted typeId profiles h).2

/-- A reference without a type, with one profile of components that is an empty encapsulation. -/
def emptyEncapsulation : RecvCursor :=
  ⟨0, [1, 0, 0, 0, 0, 0, 0, 0, 1, 0, 0, 0, 1, 0, 0, 0, 0, 0, 0, 0], 0, .little, .little⟩

theorem emptyEncapsulation_outOfBounds : ¬ ParsedInBounds emptyEncapsulation 0 := by
  intro h
  have hread := h.reads (.read 20 20 1 20) (by decide)
  exact absurd hread.2 (by decide)

end ORBit2
