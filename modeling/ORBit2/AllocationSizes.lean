import ORBit2.LayoutAgreement

/-! The sizes that the allocators compute with their `int`, `guint` and `size_t`, and when the blocks
are as large as the elements they are for. -/

set_option autoImplicit false

namespace ORBit2
open Words

/-- An `int` with the given low bits, cast to `size_t`. -/
def signExtend (n : Nat) : Nat := if n % 2^32 < 2^31 then n % 2^32 else 2^64 - 2^32 + n % 2^32

/-- `ALIGN_VALUE` of an `int`, stored in one. -/
def alignInt (sum boundary : Nat) : Nat := alignUp (signExtend sum) boundary % 2^64 % 2^32

/-- `prev` behind the loop over the sizes of the arms: `MAX` compares as `size_t`. -/
def maxArm : (prev : Nat) → List Nat → Nat
  | prev, [] => prev
  | prev, size :: sizes => maxArm (max (signExtend prev) size % 2^32) sizes

namespace CTypeCode

mutual

/-- `ORBit_gather_alloc_info`, with the types it computes in. -/
def gatherSizeT : CTypeCode → Nat
  | .node info subtypes discriminator =>
      match info.kind with
      | .alias => sizeTHead subtypes
      | .except | .struct => signExtend (alignInt (sizeTMembers 0 subtypes) (widestAlignment subtypes))
      | .union =>
          let sum := sizeTDiscriminator discriminator % 2^32
          let sum :=
            match lastRise 1 none subtypes with
            | some align => alignInt sum align
            | none => sum
          signExtend (alignInt ((sum + maxArm 0 (sizesT subtypes)) % 2^32)
            (max (discriminatorAlignment discriminator) (widestAlignment subtypes)))
      | .array => sizeTHead subtypes * info.length % 2^64
      | kind => kind.sizeof

def sizeTHead : List CTypeCode → Nat
  | [] => 0
  | tc :: _ => gatherSizeT tc

def sizeTMembers (sum : Nat) : List CTypeCode → Nat
  | [] => sum
  | tc :: tcs => sizeTMembers ((alignInt sum tc.findCAlignment + gatherSizeT tc) % 2^32) tcs

def sizesT : List CTypeCode → List Nat
  | [] => []
  | tc :: tcs => gatherSizeT tc :: sizesT tcs

def sizeTDiscriminator : Option CTypeCode → Nat
  | none => 0
  | some tc => gatherSizeT tc

end

/-! ### The size that is reckoned

In a union of two gigabytes or more, a size that was an `int` has been sign-extended, and so is
`prev`: the arm that `MAX` keeps need not be the widest. -/

mutual

/-- The size has been an `int`. -/
def intSized : CTypeCode → Bool
  | .node info subtypes _ =>
      match info.kind with
      | .alias => intSizedHead subtypes
      | .except | .struct | .union => true
      | .array => info.length == 1 && intSizedHead subtypes
      | _ => false

def intSizedHead : List CTypeCode → Bool
  | [] => false
  | tc :: _ => intSized tc

end

/-- The arm that is kept: none but an `int` is compared as larger than a `prev` that is negative. -/
def keptArm : (prev : Nat) → List (Nat × Bool) → Nat
  | prev, [] => prev
  | prev, (size, int) :: arms => keptArm (if prev < 2^31 ∨ int then max prev size else prev) arms

mutual

/-- The size of a type, where a union is as large as the arm that is kept. -/
def reckoned : CTypeCode → Nat
  | .node info subtypes discriminator =>
      match info.kind with
      | .alias => reckonedHead subtypes
      | .except | .struct => alignUp (reckonedMembers 0 subtypes) (widestAlignment subtypes)
      | .union =>
          alignUp (alignToRise subtypes (reckonedDiscriminator discriminator) +
              keptArm 0 (reckonedArms subtypes))
            (max (discriminatorAlignment discriminator) (widestAlignment subtypes))
      | .array => reckonedHead subtypes * info.length
      | kind => kind.sizeof

def reckonedHead : List CTypeCode → Nat
  | [] => 0
  | tc :: _ => reckoned tc

def reckonedMembers (sum : Nat) : List CTypeCode → Nat
  | [] => sum
  | tc :: tcs => reckonedMembers (alignUp sum tc.findCAlignment + reckoned tc) tcs

def reckonedArms : List CTypeCode → List (Nat × Bool)
  | [] => []
  | tc :: tcs => (reckoned tc, intSized tc) :: reckonedArms tcs

def reckonedDiscriminator : Option CTypeCode → Nat
  | none => 0
  | some tc => reckoned tc

end

end CTypeCode

/-! ### The allocators -/

/-- A block behind its prefix: its size, and the number of elements in the `ORBitMemHow`. -/
structure TcBlock where
  bytes : Nat
  elements : Nat
  deriving DecidableEq, Repr

/-- `ORBIT_MEMHOW_ELEMENTS (ORBIT_MEMHOW_MAKE (ORBIT_MEMHOW_TYPECODE, elements))`. -/
def memHowElements (elements : Nat) : Nat := (elements <<< 2 % 2^32 ||| 2) >>> 2

/-- `ORBit_alloc_tcval`; `none` is NULL. -/
def allocTcvalBlock (tc : CTypeCode) (elements : Nat) : Option TcBlock :=
  if elements = 0 then none
  else
    let size := tc.gatherSizeT % 2^32
    if size = 0 then none else some ⟨size * elements % 2^32, memHowElements elements⟩

/-- `ORBit_alloc_by_tc`; the count is one. -/
def allocByTcBlock (tc : CTypeCode) : Option TcBlock :=
  let size := tc.gatherSizeT % 2^32
  if size = 0 then none else some ⟨size, memHowElements 1⟩

/-- What `ORBit_realloc_tcval` returns, and from where it clears how many bytes. -/
structure GrownBlock where
  block : TcBlock
  cleared : Nat × Nat
  deriving DecidableEq, Repr

/-- `ORBit_realloc_tcval` of a block that is there, behind its assertion that the number grows. -/
def reallocTcvalBlock (tc : CTypeCode) (oldElements elements : Nat) : Option GrownBlock :=
  let size := tc.gatherSizeT % 2^32
  if size = 0 then none
  else
    some ⟨⟨size * elements % 2^32, memHowElements elements⟩,
      (oldElements * size % 2^32, (elements - oldElements) * size % 2^32)⟩

theorem memHowElements_eq (n : Nat) : memHowElements n = n % 2^30 := by
  have hshift : n <<< 2 % 2^32 = (n % 2^30) * 4 := by
    rw [Nat.shiftLeft_eq]
    omega
  rw [memHowElements, hshift, show (n % 2^30) * 4 = (n % 2^30) <<< 2 by rw [Nat.shiftLeft_eq],
    Nat.shiftRight_or_distrib, Nat.shiftLeft_shiftRight]
  simp

/-! ### What the wrapped sizes come to -/

theorem signExtend_mod (n : Nat) : signExtend n % 2^32 = n % 2^32 := by
  unfold signExtend
  split <;> omega

theorem signExtend_of_lt {n : Nat} (h : n < 2^31) : signExtend n = n := by
  unfold signExtend
  rw [if_pos (by omega)]
  omega

theorem alignUp_mono {m n b : Nat} (h : m ≤ n) : alignUp m b ≤ alignUp n b := by
  unfold alignUp
  exact Nat.mul_le_mul_right _ (Nat.div_le_div_right (by omega))

/-- Rounding up in 64 bits, and in 32, is rounding up while there is room. -/
theorem alignInt_eq {n b : Nat} (hb : 0 < b) (hd : b ∣ 8) (h : alignUp n b < 2^32) :
    alignInt n b = alignUp n b := by
  have hle := le_alignUp n hb
  have hmod : alignUp (signExtend n) b % 2^32 = alignUp n b % 2^32 := by
    unfold signExtend
    rw [Nat.mod_eq_of_lt (show n < 2^32 by omega)]
    split
    · rfl
    · have hmul : b ∣ 2^64 - 2^32 := hd.trans (by decide)
      rw [Nat.add_comm, alignUp_add_of_dvd hb hmul]
      omega
  rw [alignInt, Nat.mod_mod_of_dvd _ (by decide), hmod, Nat.mod_eq_of_lt h]

/-- The size as it is handed on: an `int` is sign-extended. -/
def asSizeT (int : Bool) (size : Nat) : Nat := if int then signExtend size else size

theorem asSizeT_mod (int : Bool) (size : Nat) : asSizeT int size % 2^32 = size % 2^32 := by
  cases int
  · rfl
  · exact signExtend_mod size

/-- The loop keeps the arm that `keptArm` keeps. -/
theorem maxArm_eq (prev : Nat) (arms : List (Nat × Bool)) (hp : prev < 2^32)
    (h : ∀ arm ∈ arms, arm.1 < 2^32) :
    maxArm prev (arms.map fun arm => asSizeT arm.2 arm.1) = CTypeCode.keptArm prev arms := by
  induction arms generalizing prev with
  | nil => rfl
  | cons arm arms ih =>
    obtain ⟨size, int⟩ := arm
    have hs : size < 2^32 := h _ List.mem_cons_self
    have hstep : max (signExtend prev) (asSizeT int size) % 2^32 =
        if prev < 2^31 ∨ int then max prev size else prev := by
      unfold asSizeT signExtend
      rw [Nat.mod_eq_of_lt hp, Nat.mod_eq_of_lt hs]
      by_cases hprev : prev < 2^31
      · rw [if_pos hprev, if_pos (Or.inl hprev)]
        cases int with
        | false =>
          rw [if_neg (by decide)]
          omega
        | true =>
          rw [if_pos rfl]
          split <;> omega
      · rw [if_neg hprev]
        cases int with
        | false =>
          rw [if_neg (by decide), if_neg (by simpa using hprev)]
          omega
        | true =>
          rw [if_pos rfl, if_pos (Or.inr rfl)]
          split <;> omega
    rw [List.map_cons, maxArm, CTypeCode.keptArm, hstep]
    refine ih _ ?_ fun arm hm => h arm (List.mem_cons_of_mem _ hm)
    split <;> omega

theorem keptArm_le {prev m : Nat} {arms : List (Nat × Bool)} (hp : prev ≤ m)
    (h : ∀ arm ∈ arms, arm.1 ≤ m) : CTypeCode.keptArm prev arms ≤ m := by
  induction arms generalizing prev with
  | nil => exact hp
  | cons arm arms ih =>
    obtain ⟨size, int⟩ := arm
    have hs : size ≤ m := h _ List.mem_cons_self
    rw [CTypeCode.keptArm]
    refine ih ?_ fun arm hm => h arm (List.mem_cons_of_mem _ hm)
    split <;> omega

namespace CTypeCode

theorem alignToRise_mono {subtypes : List CTypeCode} {m n : Nat} (h : m ≤ n) :
    alignToRise subtypes m ≤ alignToRise subtypes n := by
  unfold alignToRise
  split
  · exact alignUp_mono h
  · exact h

theorem lastRise_dvd_eight {subtypes : List CTypeCode} {prev align : Nat} {n : Option Nat}
    (hn : ∀ a ∈ n, a ∣ 8) (h : lastRise prev n subtypes = some align) : align ∣ 8 := by
  induction subtypes generalizing prev n with
  | nil => exact hn align h
  | cons tc tcs ih =>
    refine ih ?_ h
    intro a ha
    split at ha
    · cases ha
      exact tc.findCAlignment_dvd_eight
    · exact hn a ha

theorem le_alignToRise (subtypes : List CTypeCode) (sum : Nat) :
    sum ≤ alignToRise subtypes sum := by
  unfold alignToRise
  split
  · rename_i align hl
    have hdvd : align ∣ 8 := lastRise_dvd_eight (by simp) hl
    exact le_alignUp sum (Nat.pos_of_dvd_of_pos hdvd (by omega))
  · exact le_refl _

mutual

/-- A type that takes less than four gigabytes is measured as it is reckoned. -/
theorem gatherSizeT_eq : (tc : CTypeCode) → tc.gatherAllocInfo < 2^32 →
    tc.gatherSizeT = asSizeT tc.intSized tc.reckoned ∧ tc.reckoned ≤ tc.gatherAllocInfo
  | .node info subtypes discriminator, h => by
    unfold gatherAllocInfo at h ⊢
    unfold gatherSizeT intSized reckoned
    cases hk : info.kind with
    | «alias» =>
      rw [hk] at h
      exact sizeTHead_eq subtypes h
    | struct | except =>
      rw [hk] at h
      simp only at h ⊢
      have hpos := widestAlignment_pos subtypes
      have hle := le_alignUp (gatherMembers 0 subtypes) hpos
      obtain ⟨hm, hr⟩ := sizeTMembers_eq subtypes 0 0 (le_refl _) (by omega)
      have hup : alignUp (reckonedMembers 0 subtypes) (widestAlignment subtypes) ≤
          alignUp (gatherMembers 0 subtypes) (widestAlignment subtypes) := alignUp_mono hr
      rw [hm, alignInt_eq hpos (widestAlignment_dvd_eight subtypes) (by omega)]
      exact ⟨rfl, hup⟩
    | union =>
      rw [hk] at h
      simp only at h ⊢
      have hd := dvd_max_of_dvd_eight (discriminatorAlignment_dvd_eight discriminator)
        (widestAlignment_dvd_eight subtypes)
      have hpos : 0 < max (discriminatorAlignment discriminator) (widestAlignment subtypes) :=
        Nat.pos_of_dvd_of_pos hd.2.2 (by omega)
      have hle := le_alignUp (alignToRise subtypes (gatherDiscriminator discriminator) +
        gatherWidest subtypes) hpos
      have hrise := le_alignToRise subtypes (gatherDiscriminator discriminator)
      obtain ⟨hdisc, hdr⟩ := sizeTDiscriminator_eq discriminator (by omega)
      obtain ⟨hsizes, hrs⟩ := sizesT_eq subtypes (by omega)
      have hkept : keptArm 0 (reckonedArms subtypes) ≤ gatherWidest subtypes :=
        keptArm_le (Nat.zero_le _) hrs
      have hmax : maxArm 0 (sizesT subtypes) = keptArm 0 (reckonedArms subtypes) := by
        rw [hsizes]
        exact maxArm_eq 0 _ (by omega) fun arm hm => (hrs arm hm).trans_lt (by omega)
      have hmono : alignToRise subtypes (reckonedDiscriminator discriminator) ≤
          alignToRise subtypes (gatherDiscriminator discriminator) := alignToRise_mono hdr
      have hsum : (match lastRise 1 none subtypes with
          | some align => alignInt (sizeTDiscriminator discriminator % 2^32) align
          | none => sizeTDiscriminator discriminator % 2^32) =
          alignToRise subtypes (reckonedDiscriminator discriminator) := by
        have hlt : alignToRise subtypes (reckonedDiscriminator discriminator) < 2^32 := by omega
        rw [hdisc]
        unfold alignToRise at hlt ⊢
        cases hl : lastRise 1 none subtypes with
        | none => rfl
        | some align =>
          have hdvd : align ∣ 8 := lastRise_dvd_eight (by simp) hl
          rw [hl] at hlt
          exact alignInt_eq (Nat.pos_of_dvd_of_pos hdvd (by omega)) hdvd hlt
      have hup := alignUp_mono (b := max (discriminatorAlignment discriminator)
        (widestAlignment subtypes)) (Nat.add_le_add hmono hkept)
      rw [hsum, hmax, Nat.mod_eq_of_lt (by omega), alignInt_eq hpos hd.2.2 (by omega)]
      exact ⟨rfl, hup⟩
    | array =>
      rw [hk] at h
      simp only at h ⊢
      rcases Nat.eq_zero_or_pos info.length with h0 | h0
      · rw [h0]
        exact ⟨rfl, le_refl _⟩
      · have hone : gatherHead subtypes * 1 ≤ gatherHead subtypes * info.length :=
          Nat.mul_le_mul_left _ h0
        obtain ⟨hsize, hr⟩ := sizeTHead_eq subtypes (by omega)
        refine ⟨?_, Nat.mul_le_mul_right _ hr⟩
        rw [hsize]
        by_cases h1 : info.length = 1
        · rw [h1, Nat.mul_one, Nat.mul_one]
          simp only [beq_self_eq_true, Bool.true_and]
          refine Nat.mod_eq_of_lt ?_
          unfold asSizeT signExtend
          split
          · split <;> omega
          · omega
        · have htwo : gatherHead subtypes * 2 ≤ gatherHead subtypes * info.length :=
            Nat.mul_le_mul_left _ (by omega)
          have hint : asSizeT (intSizedHead subtypes) (reckonedHead subtypes) =
              reckonedHead subtypes := by
            unfold asSizeT
            split
            · exact signExtend_of_lt (by omega)
            · rfl
          have hmul := Nat.mul_le_mul_right info.length hr
          rw [hint, Nat.mod_eq_of_lt (by omega)]
          simp [asSizeT, h1]
    | _ => exact ⟨rfl, le_refl _⟩

theorem sizeTHead_eq : (tcs : List CTypeCode) → gatherHead tcs < 2^32 →
    sizeTHead tcs = asSizeT (intSizedHead tcs) (reckonedHead tcs) ∧ reckonedHead tcs ≤ gatherHead tcs
  | [], _ => ⟨rfl, le_refl _⟩
  | tc :: _, h => gatherSizeT_eq tc h

theorem sizeTMembers_eq : (tcs : List CTypeCode) → (sum total : Nat) → sum ≤ total →
    gatherMembers total tcs < 2^32 →
    sizeTMembers sum tcs = reckonedMembers sum tcs ∧ reckonedMembers sum tcs ≤ gatherMembers total tcs
  | [], sum, total, hle, _ => ⟨rfl, hle⟩
  | tc :: tcs, sum, total, hle, h => by
    rw [gatherMembers] at h ⊢
    rw [sizeTMembers, reckonedMembers]
    have hall := le_gatherMembers (alignUp total tc.findCAlignment + tc.gatherAllocInfo) tcs
    have hup : alignUp sum tc.findCAlignment ≤ alignUp total tc.findCAlignment := alignUp_mono hle
    obtain ⟨hsize, hr⟩ := gatherSizeT_eq tc (by omega)
    have hadd : (alignInt sum tc.findCAlignment + tc.gatherSizeT) % 2^32 =
        alignUp sum tc.findCAlignment + tc.reckoned := by
      rw [alignInt_eq tc.findCAlignment_pos tc.findCAlignment_dvd_eight (by omega), hsize, Nat.add_mod,
        asSizeT_mod, ← Nat.add_mod]
      exact Nat.mod_eq_of_lt (by omega)
    rw [hadd]
    exact sizeTMembers_eq tcs _ _ (by omega) h

theorem sizesT_eq : (tcs : List CTypeCode) → gatherWidest tcs < 2^32 →
    sizesT tcs = (reckonedArms tcs).map (fun arm => asSizeT arm.2 arm.1) ∧
      ∀ arm ∈ reckonedArms tcs, arm.1 ≤ gatherWidest tcs
  | [], _ => ⟨rfl, by simp [reckonedArms]⟩
  | tc :: tcs, h => by
    rw [gatherWidest] at h ⊢
    obtain ⟨hsize, hr⟩ := gatherSizeT_eq tc (by omega)
    obtain ⟨hsizes, hrs⟩ := sizesT_eq tcs (by omega)
    rw [sizesT, reckonedArms, hsize, hsizes]
    refine ⟨rfl, fun arm hm => ?_⟩
    rcases List.mem_cons.mp hm with rfl | hm
    · exact le_max_of_le_left hr
    · exact le_max_of_le_right (hrs arm hm)

theorem sizeTDiscriminator_eq : (discriminator : Option CTypeCode) →
    gatherDiscriminator discriminator < 2^32 →
    sizeTDiscriminator discriminator % 2^32 = reckonedDiscriminator discriminator ∧
      reckonedDiscriminator discriminator ≤ gatherDiscriminator discriminator
  | none, _ => ⟨rfl, le_refl _⟩
  | some tc, h => by
    rw [gatherDiscriminator] at h ⊢
    obtain ⟨hsize, hr⟩ := gatherSizeT_eq tc h
    rw [sizeTDiscriminator, reckonedDiscriminator, hsize, asSizeT_mod]
    exact ⟨Nat.mod_eq_of_lt (by omega), hr⟩

end

mutual

/-- Below two gigabytes the arm that is kept is the widest. -/
theorem reckoned_eq : (tc : CTypeCode) → tc.gatherAllocInfo < 2^31 →
    tc.reckoned = tc.gatherAllocInfo
  | .node info subtypes discriminator, h => by
    unfold gatherAllocInfo at h ⊢
    unfold reckoned
    cases hk : info.kind with
    | «alias» =>
      rw [hk] at h
      exact reckonedHead_eq subtypes h
    | struct | except =>
      rw [hk] at h
      simp only at h ⊢
      have hle := le_alignUp (gatherMembers 0 subtypes) (widestAlignment_pos subtypes)
      rw [reckonedMembers_eq subtypes 0 (by omega)]
    | union =>
      rw [hk] at h
      simp only at h ⊢
      have hd := dvd_max_of_dvd_eight (discriminatorAlignment_dvd_eight discriminator)
        (widestAlignment_dvd_eight subtypes)
      have hpos : 0 < max (discriminatorAlignment discriminator) (widestAlignment subtypes) :=
        Nat.pos_of_dvd_of_pos hd.2.2 (by omega)
      have hle := le_alignUp (alignToRise subtypes (gatherDiscriminator discriminator) +
        gatherWidest subtypes) hpos
      have hrise := le_alignToRise subtypes (gatherDiscriminator discriminator)
      rw [reckonedDiscriminator_eq discriminator (by omega),
        reckonedArms_kept subtypes 0 (by omega) (by omega), Nat.zero_max]
    | array =>
      rw [hk] at h
      simp only at h ⊢
      rcases Nat.eq_zero_or_pos info.length with h0 | h0
      · rw [h0, Nat.mul_zero, Nat.mul_zero]
      · have hone : gatherHead subtypes * 1 ≤ gatherHead subtypes * info.length :=
          Nat.mul_le_mul_left _ h0
        rw [reckonedHead_eq subtypes (by omega)]
    | _ => rfl

theorem reckonedHead_eq : (tcs : List CTypeCode) → gatherHead tcs < 2^31 →
    reckonedHead tcs = gatherHead tcs
  | [], _ => rfl
  | tc :: _, h => reckoned_eq tc h

theorem reckonedMembers_eq : (tcs : List CTypeCode) → (sum : Nat) → gatherMembers sum tcs < 2^31 →
    reckonedMembers sum tcs = gatherMembers sum tcs
  | [], _, _ => rfl
  | tc :: tcs, sum, h => by
    rw [gatherMembers] at h ⊢
    have hall := le_gatherMembers (alignUp sum tc.findCAlignment + tc.gatherAllocInfo) tcs
    rw [reckonedMembers, reckoned_eq tc (by omega)]
    exact reckonedMembers_eq tcs _ h

theorem reckonedArms_kept : (tcs : List CTypeCode) → (prev : Nat) → prev < 2^31 →
    gatherWidest tcs < 2^31 → keptArm prev (reckonedArms tcs) = max prev (gatherWidest tcs)
  | [], prev, _, _ => by simp [reckonedArms, keptArm, gatherWidest]
  | tc :: tcs, prev, hp, h => by
    rw [gatherWidest] at h ⊢
    rw [reckonedArms, keptArm, if_pos (Or.inl hp), reckoned_eq tc (by omega),
      reckonedArms_kept tcs _ (by omega) (by omega), Nat.max_assoc]

theorem reckonedDiscriminator_eq : (discriminator : Option CTypeCode) →
    gatherDiscriminator discriminator < 2^31 →
    reckonedDiscriminator discriminator = gatherDiscriminator discriminator
  | none, _ => rfl
  | some tc, h => reckoned_eq tc h

end

/-- What is measured as `n` elements of the type has its size in a `guint`. -/
def Measured (tc : CTypeCode) (n : Nat) : Prop :=
  n * tc.gatherAllocInfo < 2^32 ∧
    (tc.gatherAllocInfo < 2^31 ∨ tc.reckoned = tc.gatherAllocInfo)

theorem Measured.size {tc : CTypeCode} {n : Nat} (h : tc.Measured n) (hn : 0 < n) :
    tc.gatherSizeT % 2^32 = tc.gatherAllocInfo := by
  have hone : 1 * tc.gatherAllocInfo ≤ n * tc.gatherAllocInfo := Nat.mul_le_mul_right _ hn
  have hlt : tc.gatherAllocInfo < 2^32 := by
    have := h.1
    omega
  obtain ⟨hsize, -⟩ := tc.gatherSizeT_eq hlt
  have hr : tc.reckoned = tc.gatherAllocInfo := h.2.elim tc.reckoned_eq id
  rw [hsize, asSizeT_mod, hr, Nat.mod_eq_of_lt hlt]

/-- A product that is large enough has not wrapped. -/
theorem measured_of_le {tc : CTypeCode} {n : Nat} (hn : 0 < n)
    (h : n * tc.gatherAllocInfo ≤ tc.gatherSizeT % 2^32 * n % 2^32) : tc.Measured n := by
  have hmod := Nat.mod_lt (tc.gatherSizeT % 2^32 * n) (show 0 < 2^32 by omega)
  have hone : 1 * tc.gatherAllocInfo ≤ n * tc.gatherAllocInfo := Nat.mul_le_mul_right _ hn
  have hlt : tc.gatherAllocInfo < 2^32 := by omega
  obtain ⟨hsize, hr⟩ := tc.gatherSizeT_eq hlt
  have hes : tc.gatherSizeT % 2^32 = tc.reckoned := by
    rw [hsize, asSizeT_mod, Nat.mod_eq_of_lt (by omega)]
  have hle : n * tc.gatherAllocInfo ≤ n * tc.reckoned := by
    calc n * tc.gatherAllocInfo ≤ tc.gatherSizeT % 2^32 * n % 2^32 := h
      _ ≤ tc.gatherSizeT % 2^32 * n := Nat.mod_le _ _
      _ = n * tc.reckoned := by rw [hes, Nat.mul_comm]
  exact ⟨by omega, Or.inr (le_antisymm hr (Nat.le_of_mul_le_mul_left hle hn))⟩

end CTypeCode

/-- The block holds so many elements of the type, and knows how many. -/
def TcBlock.Holds (b : TcBlock) (tc : CTypeCode) (n : Nat) : Prop :=
  n * tc.gatherAllocInfo ≤ b.bytes ∧ b.elements = n

section
variable {tc : CTypeCode} {n : Nat}

theorem holds_iff (hn : 0 < n) :
    TcBlock.Holds ⟨tc.gatherSizeT % 2^32 * n % 2^32, memHowElements n⟩ tc n ↔
      n < 2^30 ∧ tc.Measured n := by
  unfold TcBlock.Holds
  simp only [memHowElements_eq]
  constructor
  · rintro ⟨hle, hcount⟩
    have hlt := Nat.mod_lt n (show 0 < 2^30 by omega)
    exact ⟨by omega, CTypeCode.measured_of_le hn hle⟩
  · rintro ⟨hlt, hm⟩
    refine ⟨?_, Nat.mod_eq_of_lt hlt⟩
    rw [hm.size hn, Nat.mul_comm _ n, Nat.mod_eq_of_lt hm.1]

theorem allocTcvalBlock_holds {b : TcBlock} (h : allocTcvalBlock tc n = some b) :
    b.Holds tc n ↔ n < 2^30 ∧ tc.Measured n := by
  unfold allocTcvalBlock at h
  split at h
  · cases h
  · rename_i hn
    simp only at h
    split at h
    · cases h
    · cases h
      exact holds_iff (by omega)

theorem allocByTcBlock_holds {b : TcBlock} (h : allocByTcBlock tc = some b) :
    b.Holds tc 1 ↔ tc.Measured 1 := by
  unfold allocByTcBlock at h
  simp only at h
  split at h
  · cases h
  · cases h
    have hiff := @holds_iff tc 1 (by decide)
    rw [Nat.mul_one, Nat.mod_mod] at hiff
    rw [hiff]
    exact ⟨fun hm => hm.2, fun hm => ⟨by decide, hm⟩⟩

/-- What a block grows to, and what is cleared of it. -/
theorem reallocTcvalBlock_holds {m : Nat} {r : GrownBlock} (hmn : m < n)
    (h : reallocTcvalBlock tc m n = some r) :
    r.block.Holds tc n ∧ r.cleared.1 = m * tc.gatherAllocInfo ∧
        r.cleared.1 + r.cleared.2 ≤ r.block.bytes ↔ n < 2^30 ∧ tc.Measured n := by
  unfold reallocTcvalBlock at h
  simp only at h
  split at h
  · cases h
  · cases h
    have hn : 0 < n := by omega
    simp only
    rw [holds_iff hn]
    refine ⟨fun hh => hh.1, fun hh => ⟨hh, ?_⟩⟩
    have hsize := hh.2.size hn
    have hm : m * tc.gatherAllocInfo ≤ n * tc.gatherAllocInfo := Nat.mul_le_mul_right _ hmn.le
    have hsub : (n - m) * tc.gatherAllocInfo = n * tc.gatherAllocInfo - m * tc.gatherAllocInfo :=
      Nat.sub_mul ..
    have hlt := hh.2.1
    rw [hsize, Nat.mod_eq_of_lt (show m * tc.gatherAllocInfo < 2^32 by omega),
      Nat.mod_eq_of_lt (show (n - m) * tc.gatherAllocInfo < 2^32 by omega),
      Nat.mul_comm _ n, Nat.mod_eq_of_lt hlt]
    exact ⟨rfl, by omega⟩

end

/-! ### The blocks that a value is read into -/

section
variable {α : Type}

mutual

/-- No type that a block is reserved for takes two gigabytes. -/
def CValue.small (tc : CTypeCode) : CValue α → Bool
  | .atom _ => true
  | .any type value => decide (type.gatherAllocInfo < 2^31) && CValue.small type value
  | .record members => CValue.smallAll tc.skipAlias.subtypes members
  | .union switch body => CValue.small (tc.skipAlias.arm switch) body
  | .seq elements =>
      (decide (tc.skipAlias.kind ≠ .sequence) ||
        decide (tc.skipAlias.element.gatherAllocInfo < 2^31)) &&
        CValue.smallEach tc.skipAlias.element elements

def CValue.smallAll : List CTypeCode → List (CValue α) → Bool
  | tc :: tcs, v :: vs => CValue.small tc v && CValue.smallAll tcs vs
  | _, _ => true

def CValue.smallEach (tc : CTypeCode) : List (CValue α) → Bool
  | [] => true
  | v :: vs => CValue.small tc v && CValue.smallEach tc vs

end

namespace Walker

/-- `ORBit_demarshal_value` in the blocks that it has been given. -/
def demarshalBlocks : Walker :=
  { demarshalValue with
    room := fun element length i =>
      if isOctet element.kind then length
      else element.gatherSizeT % 2^32 * min length (growAlloc i) % 2^32 }

theorem demarshalBlocks_room {element : CTypeCode} {length : Nat}
    (hs : element.gatherAllocInfo < 2^31) :
    demarshalBlocks.room element length = demarshalValue.room element length := by
  have hsize : element.gatherSizeT % 2^32 = element.gatherAllocInfo % 2^32 := by
    obtain ⟨hsize, -⟩ := element.gatherSizeT_eq (by omega)
    rw [hsize, asSizeT_mod, element.reckoned_eq hs]
  funext i
  unfold demarshalBlocks demarshalValue
  simp only [hsize, CTypeCode.allocTcval]

mutual

/-- Small blocks are as the layout has them. -/
theorem walk_demarshalBlocks : (v : CValue α) → (block : List Nat) → (room : Nat) →
    (tc : CTypeCode) → (start : Nat) → v.small tc = true →
    demarshalBlocks.walk block room tc start v = demarshalValue.walk block room tc start v
  | .atom _, block, room, tc, start, _ => rfl
  | .any type value, block, room, tc, start, hs => by
    simp only [CValue.small, Bool.and_eq_true] at hs
    rw [walk, walk, walk_demarshalBlocks value _ _ _ _ hs.2]
    rfl
  | .record members, block, room, tc, start, hs => by
    rw [walk, walk, walkMembers_demarshalBlocks members _ _ _ _ _ hs]
  | .union switch body, block, room, tc, start, hs => by
    have hbody := walk_demarshalBlocks body block room (tc.skipAlias.arm switch)
      (start + tc.skipAlias.bodyOffset) hs
    rw [walk, walk, hbody]
    rfl
  | .seq elements, block, room, tc, start, hs => by
    simp only [CValue.small, Bool.and_eq_true, Bool.or_eq_true, decide_eq_true_eq] at hs
    have hlimit : demarshalBlocks.loopLimit = demarshalValue.loopLimit := rfl
    rw [walk, walk, hlimit]
    refine if_congr Iff.rfl ?_ rfl
    cases hk : tc.skipAlias.kind with
    | sequence =>
      simp only
      rw [demarshalBlocks_room (hs.1.resolve_left fun hne => hne hk),
        walkElements_demarshalBlocks elements _ _ _ _ _ _ hs.2]
    | array =>
      simp only
      rw [walkElements_demarshalBlocks elements _ _ _ _ _ _ hs.2]
    | _ => rfl

theorem walkMembers_demarshalBlocks : (vs : List (CValue α)) → (block : List Nat) →
    (room start : Nat) → (tcs : List CTypeCode) → (offset : Nat) → CValue.smallAll tcs vs = true →
    demarshalBlocks.walkMembers block room start tcs offset vs =
      demarshalValue.walkMembers block room start tcs offset vs
  | [], block, room, start, tcs, offset, _ => by
    cases tcs <;> rfl
  | v :: vs, block, room, start, tcs, offset, hs => by
    cases tcs with
    | nil => rfl
    | cons tc tcs =>
      simp only [CValue.smallAll, Bool.and_eq_true] at hs
      rw [walkMembers, walkMembers, walk_demarshalBlocks v _ _ _ _ hs.1]
      simp only [walkMembers_demarshalBlocks vs _ _ _ _ _ hs.2]

theorem walkElements_demarshalBlocks : (vs : List (CValue α)) → (block : List Nat) →
    (room : Nat → Nat) → (tc : CTypeCode) → (first index place : Nat) →
    CValue.smallEach tc vs = true →
    demarshalBlocks.walkElements block room tc first index place vs =
      demarshalValue.walkElements block room tc first index place vs
  | [], _, _, _, _, _, _, _ => rfl
  | v :: vs, block, room, tc, first, index, place, hs => by
    simp only [CValue.smallEach, Bool.and_eq_true] at hs
    rw [walkElements, walkElements, walk_demarshalBlocks v _ _ _ _ hs.1]
    simp only [walkElements_demarshalBlocks vs _ _ _ _ _ _ hs.2]

end

/-- Small values that fit are read into their blocks, and not past them. -/
theorem demarshalBlocks_agrees {tc : CTypeCode} {v : CValue α} (hc : v.conforms tc = true)
    (hf : v.fits tc = true) (hs : v.small tc = true) (ht : tc.gatherAllocInfo < 2^31) :
    ∃ w, demarshalBlocks.walk [] (tc.gatherSizeT % 2^32) tc 0 v = some w ∧ w.Agrees tc 0 := by
  have hsize : tc.gatherSizeT % 2^32 = tc.gatherAllocInfo := by
    obtain ⟨hsize, -⟩ := tc.gatherSizeT_eq (by omega)
    rw [hsize, asSizeT_mod, tc.reckoned_eq ht, Nat.mod_eq_of_lt (by omega)]
  obtain ⟨w, hw⟩ := walk_total (W := demarshalValue) (fun _ h => h) demarshalValue_loopLimit v []
    tc.gatherAllocInfo tc 0 hc hf
  refine ⟨w, ?_, walk_agrees demarshalValue_lays v hc hf (Or.inl rfl) (by omega) hw⟩
  rw [hsize, walk_demarshalBlocks v _ _ _ _ hs, hw]

end Walker

end

/-- An array of octets. -/
def CTypeCode.octets (length : Nat) : CTypeCode :=
  .node ⟨.array, length, [], [], [], [], -1, 0, 0⟩ [.basic .octet] none

end ORBit2
