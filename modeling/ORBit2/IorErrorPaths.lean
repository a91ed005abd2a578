import ORBit2.IorBounds

/-! What `ORBit_demarshal_IOR` has given back at each of its exits. -/

set_option autoImplicit false

namespace ORBit2

/-! ### Blocks in a run -/

namespace ParseEvent

def allocated? : ParseEvent → Option Chunk
  | .heap (.alloc c) => some c
  | _ => none

def freed? : ParseEvent → Option Chunk
  | .heap (.free c) => some c
  | _ => none

/-- The buffer of a profile that ends at its head. -/
def left? : ParseEvent → Option Chunk
  | .orbitSpecific self sub => if sub.endsAtHead then some self else none
  | _ => none

end ParseEvent

def allocated (log : List ParseEvent) : List Chunk := log.filterMap ParseEvent.allocated?

def freed (log : List ParseEvent) : List Chunk := log.filterMap ParseEvent.freed?

def left (log : List ParseEvent) : List Chunk := log.filterMap ParseEvent.left?

/-- The blocks that are handed over with what is returned. -/
def IorReturn.chunks (r : IorReturn) : List Chunk := r.assigned.elim [] fun a => profilesChunks a.2

theorem tally_eq (c : Chunk) (log : List ParseEvent) :
    tally c log = (allocated log).count c - (freed log).count c - (left log).count c := by
  induction log with
  | nil => rfl
  | cons e log ih =>
    have hstep : e.effect c = (e.allocated?.toList.count c : Int) - e.freed?.toList.count c -
        e.left?.toList.count c := by
      cases e with
      | heap e =>
        cases e with
        | alloc c' =>
          simp only [ParseEvent.effect, HeapEvent.effect, ParseEvent.allocated?, ParseEvent.freed?,
            ParseEvent.left?, Option.toList_some, Option.toList_none, count_singleton, List.count_nil]
          omega
        | free c' =>
          simp only [ParseEvent.effect, HeapEvent.effect, ParseEvent.allocated?, ParseEvent.freed?,
            ParseEvent.left?, Option.toList_some, Option.toList_none, count_singleton, List.count_nil]
          split <;> rfl
        | freeUnset => rfl
      | orbitSpecific self sub =>
        cases hhead : sub.endsAtHead with
        | false => simp [ParseEvent.effect, ParseEvent.allocated?, ParseEvent.freed?, ParseEvent.left?, hhead]
        | true =>
          simp only [ParseEvent.effect, ParseEvent.allocated?, ParseEvent.freed?, ParseEvent.left?, hhead,
            true_and, if_true, Option.toList_some, Option.toList_none, count_singleton, List.count_nil]
          split <;> rfl
      | _ => rfl
    have hcons : ∀ f : ParseEvent → Option Chunk,
        (e :: log).filterMap f = (f e).toList ++ log.filterMap f := by
      intro f
      cases hf : f e <;> simp [hf]
    rw [tally_cons, ih, hstep]
    simp only [allocated, freed, left, hcons, List.count_append]
    omega

/-- No address is given out twice. -/
theorem allocated_nodup (c : RecvCursor) (next : Nat) : (allocated (iorRun c next).2).Nodup := by
  obtain ⟨⟨-, k, haddresses, -⟩, -⟩ := Parse.keeps_ior ⟨c, c.cur, next⟩ (Nat.le_refl _)
  have hmap : ∀ log : List ParseEvent, (allocated log).map Chunk.address = addresses log := by
    intro log
    rw [allocated, addresses, List.map_filterMap]
    refine List.filterMap_congr fun e _ => ?_
    cases e with
    | heap e => cases e <;> rfl
    | _ => rfl
  refine .of_map Chunk.address ?_
  rw [hmap, iorRun, haddresses]
  exact List.nodup_range'

theorem freeUnset_iff {log : List ParseEvent} (h : unsets log = 0) :
    .heap .freeUnset ∈ log ↔ ∃ self sub, .orbitSpecific self sub ∈ log ∧ sub.endsAtPort = true := by
  have hcount : unsets log = (log.countP fun e => e = .heap .freeUnset) -
      (log.countP fun e => match e with | .orbitSpecific _ sub => sub.endsAtPort | _ => false) := by
    clear h
    induction log with
    | nil => rfl
    | cons e log ih =>
      rw [unsets_cons, ih, List.countP_cons, List.countP_cons]
      cases e with
      | heap e => cases e <;> simp [ParseEvent.unset] <;> omega
      | orbitSpecific self sub => cases hport : sub.endsAtPort <;> simp [ParseEvent.unset, hport] <;> omega
      | _ => simp [ParseEvent.unset]
  have hpos : 0 < (log.countP fun e => e = .heap .freeUnset) ↔
      0 < (log.countP fun e => match e with | .orbitSpecific _ sub => sub.endsAtPort | _ => false) := by
    omega
  rw [List.countP_pos_iff, List.countP_pos_iff] at hpos
  constructor
  · intro hmem
    obtain ⟨e, he, hport⟩ := hpos.mp ⟨_, hmem, by simp⟩
    cases e with
    | orbitSpecific self sub => exact ⟨self, sub, he, hport⟩
    | _ => cases hport
  · rintro ⟨self, sub, hmem, hport⟩
    obtain ⟨e, he, hunset⟩ := hpos.mpr ⟨_, hmem, hport⟩
    have heq : e = .heap .freeUnset := by simpa using hunset
    exact heq ▸ he

/-! ### What is given back -/

/-- Each block that has been allocated is either handed over, with the profiles that are returned, or
freed once, by the one that has made it; nothing else is freed, and no field that has not been
assigned; and nothing is assigned where TRUE is returned. -/
structure GivenBack (log : List ParseEvent) (r : IorReturn) : Prop where
  once : ∀ c ∈ allocated log, (freed log).count c = if c ∈ r.chunks then 0 else 1
  handed : r.failure = true → r.assigned = none
  known : ∀ c ∈ freed log ++ r.chunks, c ∈ allocated log
  assigned : .heap .freeUnset ∉ log

/-- A reference without a type, with one profile of an old ORBit that is an encapsulation of no more
than its flags. -/
def onlyFlags : RecvCursor :=
  ⟨0, [1, 0, 0, 0, 0, 0, 0, 0, 1, 0, 0, 0, 0xCA, 0xAE, 0xDF, 0xBA, 1, 0, 0, 0, 1], 0, .little, .little⟩

/-- No type and no profiles. -/
def nilIor : RecvCursor := ⟨0, [1, 0, 0, 0, 0, 0, 0, 0, 0, 0, 0, 0], 0, .little, .little⟩

end ORBit2
