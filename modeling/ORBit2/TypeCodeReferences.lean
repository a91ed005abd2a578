import ORBit2.TypeCodeRoundTrip

/-! Which references the encoder of TypeCodes writes, told from the graph alone, and what the
decoder makes of a graph that is sent. -/

set_option autoImplicit false

namespace ORBit2
open Words

namespace TCGraph

mutual

/-- The references that are sent for a graph, in order, each with the answer whether the node
was first met inside the innermost encapsulation around the reference; and the nodes met
inside that encapsulation up to here. -/
def references (outside : List Nat) : TCGraph → (inside : List Nat) → List Bool × List Nat
  | .node addr info subtypes discriminator, inside =>
      if info.kind.tkType = .empty then ([], inside)
      else if addr ∈ inside then ([true], inside)
      else if addr ∈ outside then ([false], inside)
      else if info.kind.tkType = .complex then
        let outside := addr :: (inside ++ outside)
        let first := discriminatorReferences outside discriminator []
        let others := allReferences outside subtypes first.2
        (first.1 ++ others.1, others.2 ++ addr :: inside)
      else ([], addr :: inside)

def allReferences (outside : List Nat) :
    List TCGraph → (inside : List Nat) → List Bool × List Nat
  | [], inside => ([], inside)
  | tc :: tcs, inside =>
      let first := references outside tc inside
      let others := allReferences outside tcs first.2
      (first.1 ++ others.1, others.2)

def discriminatorReferences (outside : List Nat) :
    Option TCGraph → (inside : List Nat) → List Bool × List Nat
  | none, inside => ([], inside)
  | some tc, inside => references outside tc inside

end

/-- No reference leads out of the encapsulation that it stands in. -/
def Local (g : TCGraph) : Prop := ∀ inside ∈ (g.references [] []).1, inside = true

end TCGraph

/-- The node begins inside the encapsulation of the reference. -/
def BackRef.inside (r : BackRef) : Bool := decide (r.start ≤ r.index)

theorem BackRef.near_eq_inside {r : BackRef} (h : r.stop - r.index ≤ 2^31) :
    r.near = r.inside := by
  rw [near, inside, decide_eq_true h]
  cases decide (r.start ≤ r.index) <;> rfl

/-! ### The encoder finds each part it needs -/

namespace Enc

def Total (p : Enc) : Prop := ∀ size prior, ∃ r, p size prior = some r

theorem Total.put (bytes : Nat → List UInt8) : (Enc.put bytes).Total := fun _ _ => ⟨_, rfl⟩

theorem Total.seq {p q : Enc} (hp : p.Total) (hq : q.Total) : (p.seq q).Total := by
  intro size prior
  obtain ⟨r, hr⟩ := hp size prior
  obtain ⟨r', hr'⟩ := hq (size + r.bytes.length) r.prior
  refine ⟨⟨r.bytes ++ r'.bytes, r'.prior, r.refs ++ r'.refs⟩, ?_⟩
  rw [Enc.seq, hr]
  simp only [Option.bind_eq_bind, Option.bind_some, hr']

end Enc

section
variable {host : Endian} {start : Nat}
open Enc

theorem encNames_total (names : List (List UInt8)) : (encNames host names).Total := by
  induction names with
  | nil => exact Total.put _
  | cons name names ih => exact (Total.put _).seq ih

theorem encMembers_total {names : List (List UInt8)} {tcs : List TCGraph}
    (hl : tcs.length = names.length) (ht : ∀ tc ∈ tcs, (tcEnc host start tc).Total) :
    (encMembers host start names tcs).Total := by
  induction tcs generalizing names with
  | nil =>
    obtain rfl := List.eq_nil_of_length_eq_zero hl.symm
    exact Total.put _
  | cons tc tcs ih =>
    cases names with
    | nil => simp at hl
    | cons name names =>
      rw [encMembers]
      exact (Total.put _).seq ((ht tc List.mem_cons_self).seq
        (ih (by simpa using hl) fun tc hm => ht tc (List.mem_cons_of_mem _ hm)))

theorem encArms_total {w : Nat} {labels : List Int} {names : List (List UInt8)}
    {tcs : List TCGraph} (hn : tcs.length = names.length) (hl : tcs.length = labels.length)
    (ht : ∀ tc ∈ tcs, (tcEnc host start tc).Total) :
    (encArms host start w labels names tcs).Total := by
  induction tcs generalizing labels names with
  | nil =>
    obtain rfl := List.eq_nil_of_length_eq_zero hn.symm
    obtain rfl := List.eq_nil_of_length_eq_zero hl.symm
    exact Total.put _
  | cons tc tcs ih =>
    cases names with
    | nil => simp at hn
    | cons name names =>
      cases labels with
      | nil => simp at hl
      | cons label labels =>
        rw [encArms]
        exact (Total.put _).seq ((Total.put _).seq ((ht tc List.mem_cons_self).seq
          (ih (by simpa using hn) (by simpa using hl)
            fun tc hm => ht tc (List.mem_cons_of_mem _ hm))))

theorem encoder_total {info : TCInfo} {subtypes : List TCGraph} {discriminator : Option TCGraph}
    (hp : info.parts subtypes.length (discriminator.map fun d => d.info.kind) = true)
    (hk : info.kind.tkType ≠ .empty) (hs : ∀ tc ∈ subtypes, (tcEnc host start tc).Total)
    (hd : ∀ tc ∈ discriminator, (tcEnc host start tc).Total) :
    (encoder host info subtypes.length (discriminator.map fun d => d.info.kind)
      (encFirst host start subtypes) (encDiscriminator host start discriminator)
      (encMembers host start info.subnames subtypes)
      (fun w => encArms host start w info.sublabels info.subnames subtypes)).Total := by
  have hfirst : subtypes.length = 1 → (encFirst host start subtypes).Total := by
    intro h₁
    obtain ⟨tc, rfl⟩ := List.length_eq_one_iff.1 h₁
    exact hs tc List.mem_cons_self
  unfold encoder
  unfold TCInfo.parts at hp
  cases h : info.kind <;> simp only [h, Bool.and_eq_true, beq_iff_eq, TCKind.tkType, ne_eq,
    not_true_eq_false] at hp hk ⊢
  case objref => exact (Total.put _).seq (Total.put _)
  case struct | except =>
    exact (Total.put _).seq ((Total.put _).seq ((Total.put _).seq (encMembers_total hp.1 hs)))
  case union =>
    cases discriminator with
    | none => simp at hp
    | some d =>
      simp only [Option.map_some, Bool.and_eq_true] at hp
      obtain ⟨w, hw⟩ := Option.isSome_iff_exists.1 hp.2.1
      refine (Total.put _).seq ((Total.put _).seq ((hd d rfl).seq ?_))
      refine (Total.put _).seq ((Total.put _).seq ?_)
      rw [Option.map_some, Option.bind_some, hw]
      exact encArms_total hp.1.1 hp.1.2 hs
  case enum =>
    exact (Total.put _).seq ((Total.put _).seq ((Total.put _).seq (encNames_total _)))
  case «alias» => exact (Total.put _).seq ((Total.put _).seq (hfirst hp.1))
  case sequence | array => exact (hfirst hp.1).seq (Total.put _)
  case string | wstring => exact Total.put _
  case fixed => exact (Total.put _).seq (Total.put _)

end

mutual

theorem tcEnc_total (host : Endian) : (g : TCGraph) → g.sendable = true →
    ∀ start, (tcEnc host start g).Total
  | .node addr info subtypes discriminator => by
    intro h start size prior
    simp only [TCGraph.sendable, Bool.and_eq_true] at h
    obtain ⟨⟨⟨_, hp⟩, hs⟩, hd⟩ := h
    simp only [tcEnc]
    by_cases hk : info.kind.tkType = .empty
    · exact ⟨_, by rw [if_pos hk]⟩
    · rw [if_neg hk]
      cases prior.find? (·.1 == addr) with
      | some entry => exact ⟨_, rfl⟩
      | none =>
        have hbody := fun start => encoder_total hp hk
          (fun tc hm => tcEncAll_total host subtypes hs tc hm start)
          (fun tc hm => tcEncDiscriminator_total host discriminator hd tc hm start)
        by_cases hc : info.kind.tkType = .complex
        · simp only [hc, if_true]
          obtain ⟨r, hr⟩ := hbody (12 + (size + (pad 4 size).length) + 8)
            (size + (pad 4 size).length + 9) ((addr, size + (pad 4 size).length) :: prior)
          rw [hr]
          exact ⟨_, rfl⟩
        · simp only [hc, if_false]
          obtain ⟨r, hr⟩ := hbody start (size + (pad 4 size).length + 4)
            ((addr, size + (pad 4 size).length) :: prior)
          rw [hr]
          exact ⟨_, rfl⟩

theorem tcEncAll_total (host : Endian) : (tcs : List TCGraph) → TCGraph.allSendable tcs = true →
    ∀ tc ∈ tcs, ∀ start, (tcEnc host start tc).Total
  | [] => by simp
  | tc :: tcs => by
    intro h tc' hm
    rw [TCGraph.allSendable, Bool.and_eq_true] at h
    have htc := tcEnc_total host tc h.1
    have htcs := tcEncAll_total host tcs h.2
    rcases List.mem_cons.1 hm with rfl | hm
    · exact htc
    · exact htcs tc' hm

theorem tcEncDiscriminator_total (host : Endian) : (discriminator : Option TCGraph) →
    TCGraph.discriminatorSendable discriminator = true →
    ∀ tc ∈ discriminator, ∀ start, (tcEnc host start tc).Total
  | none => by simp
  | some d => by
    intro h tc hm
    have hd := tcEnc_total host d h
    cases hm
    exact hd

end

/-! ### The references in the bytes -/

/-- The nodes that the encoder knows are those inside and those outside the encapsulation that
begins at `start`. -/
structure Split (outside : List Nat) (start : Nat) (inside : List Nat)
    (prior : List (Nat × Nat)) (size : Nat) : Prop where
  begun : start ≤ 12 + size
  found : ∀ addr, (prior.find? (·.1 == addr)).isSome = true ↔ addr ∈ inside ∨ addr ∈ outside
  within : ∀ addr ∈ inside, ∀ entry, prior.find? (·.1 == addr) = some entry →
    start ≤ 12 + entry.2
  before : ∀ addr ∈ outside, ∀ entry, prior.find? (·.1 == addr) = some entry →
    12 + entry.2 < start
  below : ∀ addr entry, prior.find? (·.1 == addr) = some entry → entry.2 < size

/-- The encoder writes the references that `f` foretells. -/
def Tracks (outside : List Nat) (start : Nat) (enc : Enc)
    (f : (inside : List Nat) → List Bool × List Nat) : Prop :=
  ∀ ⦃size : Nat⦄ ⦃prior : List (Nat × Nat)⦄ ⦃r : Encoded⦄ ⦃inside : List Nat⦄,
    enc size prior = some r → Split outside start inside prior size →
    r.refs.map BackRef.inside = (f inside).1 ∧
      (∀ ref ∈ r.refs, ref.stop ≤ 12 + size + r.bytes.length) ∧ Keeps prior r.prior ∧
      Split outside start (f inside).2 r.prior (size + r.bytes.length)

section
variable {outside inside : List Nat} {start size size' : Nat} {prior : List (Nat × Nat)}

theorem Split.mono (h : Split outside start inside prior size) (hs : size ≤ size') :
    Split outside start inside prior size' := by
  refine ⟨?_, h.found, h.within, h.before, ?_⟩
  · have hb := h.begun
    omega
  · intro addr entry ha
    exact Nat.lt_of_lt_of_le (h.below addr entry ha) hs

theorem Split.not_found {addr : Nat} (hi : addr ∉ inside) (ho : addr ∉ outside)
    (h : Split outside start inside prior size) : prior.find? (·.1 == addr) = none := by
  cases hf : prior.find? (·.1 == addr) with
  | none => rfl
  | some entry =>
    have hm := (h.found addr).1 (by rw [hf]; rfl)
    exact absurd hm (by simp [hi, ho])

theorem find?_push (addr index a : Nat) :
    ((addr, index) :: prior).find? (·.1 == a) =
      if addr = a then some (addr, index) else prior.find? (·.1 == a) := by
  by_cases h : addr = a
  · rw [List.find?_cons_of_pos (by simpa using h), if_pos h]
  · rw [List.find?_cons_of_neg (by simpa using h), if_neg h]

/-- A node that is met for the first time. -/
theorem Split.push (h : Split outside start inside prior size) {addr : Nat}
    (ho : addr ∉ outside) (hs : size < size') :
    Split outside start (addr :: inside) ((addr, size) :: prior) size' := by
  have hb := h.begun
  refine ⟨by omega, ?_, ?_, ?_, ?_⟩
  · intro a
    rw [find?_push]
    split
    · rename_i he
      simp [he]
    · rename_i he
      rw [h.found a, List.mem_cons]
      simp [Ne.symm he]
  · intro a hm entry hf
    rw [find?_push] at hf
    split at hf
    · cases hf
      exact hb
    · rename_i he
      exact h.within a ((List.mem_cons.1 hm).resolve_left (Ne.symm he)) entry hf
  · intro a hm entry hf
    rw [find?_push] at hf
    split at hf
    · rename_i he
      exact absurd hm (he ▸ ho)
    · exact h.before a hm entry hf
  · intro a entry hf
    rw [find?_push] at hf
    split at hf
    · cases hf
      exact hs
    · exact Nat.lt_trans (h.below a entry hf) hs

/-- An encapsulation begins. -/
theorem Split.enter (h : Split outside start inside prior size) (hs : size < size') :
    Split (inside ++ outside) (12 + size') [] prior size' := by
  refine ⟨Nat.le_refl _, ?_, by simp, ?_, (h.mono (Nat.le_of_lt hs)).below⟩
  · intro addr
    rw [h.found addr]
    simp
  · intro addr _ entry hf
    have hb := h.below addr entry hf
    omega

/-- An encapsulation ends. -/
theorem Split.leave {prior' : List (Nat × Nat)} {start' : Nat} {seen : List Nat}
    (h : Split outside start inside prior size) (hk : Keeps prior prior')
    (h' : Split (inside ++ outside) start' seen prior' size') (hs : start ≤ start') :
    Split outside start (seen ++ inside) prior' size' := by
  have hkeep : ∀ addr, addr ∈ inside ∨ addr ∈ outside → ∀ entry,
      prior'.find? (·.1 == addr) = some entry → prior.find? (·.1 == addr) = some entry := by
    intro addr hm entry hf
    obtain ⟨entry', he⟩ := Option.isSome_iff_exists.1 ((h.found addr).2 hm)
    rw [hk addr entry' he] at hf
    rw [he, hf]
  refine ⟨Nat.le_trans hs h'.begun, ?_, ?_, ?_, h'.below⟩
  · intro addr
    rw [h'.found addr, List.mem_append, List.mem_append, or_assoc]
  · intro addr hm entry hf
    rcases List.mem_append.1 hm with hm | hm
    · exact Nat.le_trans hs (h'.within addr hm entry hf)
    · exact h.within addr hm entry (hkeep addr (.inl hm) entry hf)
  · intro addr hm entry hf
    exact h.before addr hm entry (hkeep addr (.inr hm) entry hf)

end

namespace Tracks
variable {outside : List Nat} {start : Nat} {p q : Enc}
  {f g : (inside : List Nat) → List Bool × List Nat}

theorem put (bytes : Nat → List UInt8) :
    Tracks outside start (Enc.put bytes) fun inside => ([], inside) := by
  intro size prior r inside henc hs
  cases henc
  exact ⟨rfl, by simp, Keeps.refl _, hs.mono (Nat.le_add_right _ _)⟩

theorem seq (hp : Tracks outside start p f) (hq : Tracks outside start q g) :
    Tracks outside start (p.seq q) fun inside =>
      ((f inside).1 ++ (g (f inside).2).1, (g (f inside).2).2) := by
  intro size prior r inside henc hs
  obtain ⟨r₁, h₁, henc⟩ := Option.bind_eq_some_iff.1 henc
  obtain ⟨r₂, h₂, henc⟩ := Option.bind_eq_some_iff.1 henc
  cases henc
  obtain ⟨hr₁, hb₁, hk₁, hs₁⟩ := hp h₁ hs
  obtain ⟨hr₂, hb₂, hk₂, hs₂⟩ := hq h₂ hs₁
  rw [Nat.add_assoc] at hs₂
  rw [List.length_append]
  refine ⟨by rw [List.map_append, hr₁, hr₂], ?_, hk₁.trans hk₂, hs₂⟩
  intro ref hm
  rcases List.mem_append.1 hm with hm | hm
  · have hb := hb₁ ref hm
    omega
  · have hb := hb₂ ref hm
    omega

theorem put_seq (bytes : Nat → List UInt8) (hq : Tracks outside start q g) :
    Tracks outside start ((Enc.put bytes).seq q) g := (put bytes).seq hq

theorem seq_put (bytes : Nat → List UInt8) (hp : Tracks outside start p f) :
    Tracks outside start (p.seq (Enc.put bytes)) f := by
  intro size prior r inside henc hs
  have h := (hp.seq (put bytes)) henc hs
  simpa using h

theorem abort : Tracks outside start Enc.abort f := by
  intro size prior r inside henc
  cases henc

end Tracks

section
variable {host : Endian} {outside : List Nat} {start : Nat}
open Tracks

theorem encNames_tracks (names : List (List UInt8)) :
    Tracks outside start (encNames host names) fun inside => ([], inside) := by
  induction names with
  | nil => exact put _
  | cons name names ih => exact put_seq _ ih

theorem encMembers_tracks {tcs : List TCGraph} (names : List (List UInt8))
    (ht : ∀ tc ∈ tcs, Tracks outside start (tcEnc host start tc) (TCGraph.references outside tc)) :
    Tracks outside start (encMembers host start names tcs)
      (TCGraph.allReferences outside tcs) := by
  induction tcs generalizing names with
  | nil =>
    cases names with
    | nil => exact put _
    | cons name names => exact abort
  | cons tc tcs ih =>
    cases names with
    | nil => exact abort
    | cons name names =>
      rw [encMembers]
      exact put_seq _ ((ht tc List.mem_cons_self).seq
        (ih names fun tc hm => ht tc (List.mem_cons_of_mem _ hm)))

theorem encArms_tracks {tcs : List TCGraph} (w : Nat) (labels : List Int)
    (names : List (List UInt8))
    (ht : ∀ tc ∈ tcs, Tracks outside start (tcEnc host start tc) (TCGraph.references outside tc)) :
    Tracks outside start (encArms host start w labels names tcs)
      (TCGraph.allReferences outside tcs) := by
  induction tcs generalizing labels names with
  | nil =>
    cases labels <;> cases names
    · exact put _
    all_goals exact abort
  | cons tc tcs ih =>
    cases labels with
    | nil => cases names <;> exact abort
    | cons label labels =>
      cases names with
      | nil => exact abort
      | cons name names =>
        rw [encArms]
        exact put_seq _ (put_seq _ ((ht tc List.mem_cons_self).seq
          (ih labels names fun tc hm => ht tc (List.mem_cons_of_mem _ hm))))

theorem encFirst_tracks {tc : TCGraph}
    (ht : Tracks outside start (tcEnc host start tc) (TCGraph.references outside tc)) :
    Tracks outside start (encFirst host start [tc]) (TCGraph.allReferences outside [tc]) := by
  intro size prior r inside henc hs
  have h := ht henc hs
  simpa [TCGraph.allReferences] using h

theorem encoder_tracks {info : TCInfo} {subtypes : List TCGraph} {discriminator : Option TCGraph}
    (hp : info.parts subtypes.length (discriminator.map fun d => d.info.kind) = true)
    (hs : ∀ tc ∈ subtypes,
      Tracks outside start (tcEnc host start tc) (TCGraph.references outside tc))
    (hd : Tracks outside start (encDiscriminator host start discriminator)
      (TCGraph.discriminatorReferences outside discriminator)) :
    Tracks outside start
      (encoder host info subtypes.length (discriminator.map fun d => d.info.kind)
        (encFirst host start subtypes) (encDiscriminator host start discriminator)
        (encMembers host start info.subnames subtypes)
        (fun w => encArms host start w info.sublabels info.subnames subtypes))
      fun inside =>
        let first := TCGraph.discriminatorReferences outside discriminator inside
        let others := TCGraph.allReferences outside subtypes first.2
        (first.1 ++ others.1, others.2) := by
  have hmembers := encMembers_tracks info.subnames hs
  have hempty : subtypes.length = 0 → ∀ inside,
      TCGraph.allReferences outside subtypes inside = ([], inside) := by
    intro h₀ inside
    rw [List.eq_nil_of_length_eq_zero h₀]
    rfl
  have hfirst : subtypes.length = 1 → Tracks outside start (encFirst host start subtypes)
      (TCGraph.allReferences outside subtypes) := by
    intro h₁
    obtain ⟨tc, rfl⟩ := List.length_eq_one_iff.1 h₁
    exact encFirst_tracks (hs tc List.mem_cons_self)
  by_cases hu : info.kind = .union
  · simp only [encoder, hu]
    refine put_seq _ (put_seq _ (hd.seq (put_seq _ (put_seq _ ?_))))
    split
    · exact encArms_tracks _ _ _ hs
    · exact abort
  · have hnone := TCInfo.parts_none hp hu
    obtain rfl := Option.map_eq_none_iff.1 hnone
    unfold encoder
    unfold TCInfo.parts at hp
    simp only [TCGraph.discriminatorReferences, List.nil_append]
    cases h : info.kind <;> simp only [h, Bool.and_eq_true, beq_iff_eq] at hp ⊢
    case struct | except => exact put_seq _ (put_seq _ (put_seq _ hmembers))
    case enum =>
      simp only [hempty hp.1]
      exact put_seq _ (put_seq _ (put_seq _ (encNames_tracks _)))
    case «alias» => exact put_seq _ (put_seq _ (hfirst hp.1))
    case sequence | array => exact seq_put _ (hfirst hp.1)
    case objref | fixed =>
      simp only [hempty hp.1]
      exact put_seq _ (put _)
    case string | wstring =>
      simp only [hempty hp.1]
      exact put _
    case union => exact absurd h hu
    all_goals exact abort

end

mutual

/-- The references that are sent for a graph. -/
theorem tcEnc_tracks (host : Endian) : (g : TCGraph) → g.sendable = true → ∀ outside start,
    Tracks outside start (tcEnc host start g) (g.references outside)
  | .node addr info subtypes discriminator => by
    intro h outside start size prior r inside henc hs
    simp only [TCGraph.sendable, Bool.and_eq_true] at h
    obtain ⟨⟨⟨_, hp⟩, hsub⟩, hdisc⟩ := h
    simp only [tcEnc] at henc
    rw [TCGraph.references]
    by_cases hk : info.kind.tkType = .empty
    · rw [if_pos hk] at henc ⊢
      cases henc
      exact ⟨rfl, by simp, Keeps.refl _, hs.mono (Nat.le_add_right _ _)⟩
    rw [if_neg hk] at henc ⊢
    by_cases hi : addr ∈ inside
    · obtain ⟨entry, he⟩ := Option.isSome_iff_exists.1 ((hs.found addr).2 (.inl hi))
      rw [if_pos hi]
      simp only [he] at henc
      cases henc
      have hb := hs.within addr hi entry he
      refine ⟨by simp [BackRef.inside, hb], ?_, Keeps.refl _, hs.mono (Nat.le_add_right _ _)⟩
      simp
      omega
    rw [if_neg hi]
    by_cases ho : addr ∈ outside
    · obtain ⟨entry, he⟩ := Option.isSome_iff_exists.1 ((hs.found addr).2 (.inr ho))
      rw [if_pos ho]
      simp only [he] at henc
      cases henc
      have hb := hs.before addr ho entry he
      refine ⟨by simp [BackRef.inside, hb], ?_, Keeps.refl _, hs.mono (Nat.le_add_right _ _)⟩
      simp
      omega
    have hf := hs.not_found hi ho
    have hkeep : Keeps prior ((addr, size + (pad 4 size).length) :: prior) := Keeps.cons hf
    have hsplit := (hs.mono (Nat.le_add_right size (pad 4 size).length)).push ho (Nat.lt_succ_self _)
    rw [if_neg ho]
    simp only [hf] at henc
    by_cases hc : info.kind.tkType = .complex
    · simp only [hc, if_true] at henc ⊢
      obtain ⟨rb, hb, henc⟩ := Option.bind_eq_some_iff.1 henc
      cases henc
      have hinner : Split _ _ _ _ (size + (pad 4 size).length + 9) :=
        (hsplit.enter (show _ < size + (pad 4 size).length + 8 by omega)).mono (by omega)
      obtain ⟨hr, hstop, hk', hs'⟩ := encoder_tracks hp
        (fun tc hm => tcEncAll_tracks host subtypes hsub tc hm _ _)
        (tcEncDiscriminator_tracks host discriminator hdisc _ _) hb hinner
      have hbegun := hs.begun
      have hlen : (pad 4 size ++ host.split 4 info.kind.code ++ host.split 4 (1 + rb.bytes.length) ++
          (endianFlag host :: rb.bytes)).length = (pad 4 size).length + 9 + rb.bytes.length := by
        simp
        omega
      rw [hlen]
      refine ⟨hr, ?_, hkeep.trans hk', (hsplit.leave hk' hs' (by omega)).mono (by omega)⟩
      intro ref hm
      have hb := hstop ref hm
      omega
    · simp only [hc, if_false] at henc ⊢
      obtain ⟨rb, hb, henc⟩ := Option.bind_eq_some_iff.1 henc
      cases henc
      have hsimple : info.kind.tkType = .simple := by
        cases ht : info.kind.tkType <;> simp_all
      have hinner := hsplit.mono (show _ ≤ size + (pad 4 size).length + 4 by omega)
      obtain ⟨hr, hstop, hk', hs'⟩ := encoder_tracks hp
        (fun tc hm => tcEncAll_tracks host subtypes hsub tc hm _ _)
        (tcEncDiscriminator_tracks host discriminator hdisc _ _) hb hinner
      obtain ⟨hn, hnone⟩ := TCInfo.parts_simple hp hsimple
      obtain rfl := List.eq_nil_of_length_eq_zero hn
      obtain rfl := Option.map_eq_none_iff.1 hnone
      have hlen : (pad 4 size ++ host.split 4 info.kind.code ++ rb.bytes).length =
          (pad 4 size).length + 4 + rb.bytes.length := by simp [Nat.add_assoc]
      rw [hlen]
      refine ⟨hr, ?_, hkeep.trans hk', hs'.mono (by omega)⟩
      intro ref hm
      have hb := hstop ref hm
      omega

theorem tcEncAll_tracks (host : Endian) : (tcs : List TCGraph) → TCGraph.allSendable tcs = true →
    ∀ tc ∈ tcs, ∀ outside start,
      Tracks outside start (tcEnc host start tc) (tc.references outside)
  | [] => by simp
  | tc :: tcs => by
    intro h tc' hm
    rw [TCGraph.allSendable, Bool.and_eq_true] at h
    have htc := tcEnc_tracks host tc h.1
    have htcs := tcEncAll_tracks host tcs h.2
    rcases List.mem_cons.1 hm with rfl | hm
    · exact htc
    · exact htcs tc' hm

theorem tcEncDiscriminator_tracks (host : Endian) : (discriminator : Option TCGraph) →
    TCGraph.discriminatorSendable discriminator = true → ∀ outside start,
      Tracks outside start (encDiscriminator host start discriminator)
        (TCGraph.discriminatorReferences outside discriminator)
  | none => fun _ _ _ => Tracks.abort
  | some d => tcEnc_tracks host d

end

end ORBit2
