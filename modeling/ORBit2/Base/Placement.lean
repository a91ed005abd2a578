import ORBit2.Base.Words

/-! Parts that lie one behind another, each at the next address that it is aligned for; and when
two ways to do so put the same things at the same places. -/

set_option autoImplicit false

namespace Placement
open Words

/-- What lies in a part, counted from its start. -/
structure Piece (α : Type) where
  align : Nat
  size : Nat
  cells : List (Nat × α)

section
variable {α : Type}

def shift (s : Nat) (cells : List (Nat × α)) : List (Nat × α) := cells.map fun c => (s + c.1, c.2)

@[grind =] def place (pos : Nat) : List (Piece α) → List (Nat × α)
  | [] => []
  | p :: ps => shift (alignUp pos p.align) p.cells ++ place (alignUp pos p.align + p.size) ps

/-- The end of the last part, of parts of these alignments and sizes. -/
@[grind =] def lastEnd (pos : Nat) : List (Nat × Nat) → Nat
  | [] => pos
  | (align, size) :: parts => lastEnd (alignUp pos align + size) parts

def Piece.extent (p : Piece α) : Nat × Nat := (p.align, p.size)

@[simp] theorem shift_nil (s : Nat) : shift s ([] : List (Nat × α)) = [] := rfl

@[simp] theorem shift_append (s : Nat) (xs ys : List (Nat × α)) :
    shift s (xs ++ ys) = shift s xs ++ shift s ys := List.map_append

@[simp] theorem shift_shift (s t : Nat) (xs : List (Nat × α)) :
    shift s (shift t xs) = shift (s + t) xs := by
  simp [shift, Nat.add_assoc]

@[simp] theorem length_shift (s : Nat) (xs : List (Nat × α)) : (shift s xs).length = xs.length :=
  List.length_map _

@[simp] theorem shift_zero (xs : List (Nat × α)) : shift 0 xs = xs := by simp [shift]

@[simp] theorem shift_eq_nil {s : Nat} {xs : List (Nat × α)} : shift s xs = [] ↔ xs = [] :=
  List.map_eq_nil_iff

theorem shift_inj {s : Nat} {xs ys : List (Nat × α)} (h : shift s xs = shift s ys) : xs = ys := by
  refine List.map_injective_iff.mpr ?_ h
  rintro ⟨a, x⟩ ⟨b, y⟩ heq
  obtain ⟨hab, hxy⟩ := Prod.mk.inj heq
  exact Prod.ext (Nat.add_left_cancel hab) hxy

/-! ### Parts that begin with something -/

/-- A part without content has no size, and the first thing in a part is at its start. -/
structure Piece.Sound (p : Piece α) : Prop where
  pos : 0 < p.align
  empty : p.cells = [] → p.size = 0
  first : ∀ c ∈ p.cells.head?, c.1 = 0

theorem alignUp_zero {b : Nat} (hb : 0 < b) : alignUp 0 b = 0 :=
  alignUp_eq_of_dvd hb (Nat.dvd_zero b)

theorem lastEnd_of_empty {ps : List (Piece α)} (h : ∀ p ∈ ps, p.Sound) (hempty : place 0 ps = []) :
    lastEnd 0 (ps.map Piece.extent) = 0 := by
  induction ps with
  | nil => rfl
  | cons p ps ih =>
    have hp := h p List.mem_cons_self
    rw [place, List.append_eq_nil_iff, shift_eq_nil, alignUp_zero hp.pos] at hempty
    obtain ⟨hcells, hempty⟩ := hempty
    rw [hp.empty hcells] at hempty
    rw [List.map_cons, Piece.extent, lastEnd, alignUp_zero hp.pos, hp.empty hcells]
    exact ih (fun q hq => h q (List.mem_cons_of_mem _ hq)) hempty

theorem place_first {ps : List (Piece α)} (h : ∀ p ∈ ps, p.Sound) :
    ∀ c ∈ (place 0 ps).head?, c.1 = 0 := by
  induction ps with
  | nil => exact fun c hc => nomatch hc
  | cons p ps ih =>
    have hp := h p List.mem_cons_self
    rw [place, alignUp_zero hp.pos]
    cases hcells : p.cells with
    | nil =>
      rw [shift_nil, List.nil_append, hp.empty hcells]
      exact ih fun q hq => h q (List.mem_cons_of_mem _ hq)
    | cons c cells =>
      intro d hd
      cases hd
      exact (Nat.zero_add _).trans (hp.first c (by rw [hcells]; rfl))

/-- Parts of one size, which is a multiple of what they are aligned for. -/
theorem lastEnd_replicate {align size pos : Nat} (hpos : 0 < align) (hsize : align ∣ size)
    (h : align ∣ pos) (n : Nat) : lastEnd pos (List.replicate n (align, size)) = pos + size * n := by
  induction n generalizing pos with
  | zero => rfl
  | succ n ih =>
    rw [List.replicate_succ, lastEnd, alignUp_eq_of_dvd hpos h, ih (Nat.dvd_add h hsize), Nat.mul_succ]
    omega

/-! ### Moving -/

theorem place_add {s : Nat} {ps : List (Piece α)} (h : ∀ p ∈ ps, 0 < p.align ∧ p.align ∣ s) (pos : Nat) :
    place (s + pos) ps = shift s (place pos ps) ∧
      lastEnd (s + pos) (ps.map Piece.extent) = s + lastEnd pos (ps.map Piece.extent) := by
  induction ps generalizing pos with
  | nil => exact ⟨rfl, rfl⟩
  | cons p ps ih =>
    obtain ⟨hpos, hdvd⟩ := h p List.mem_cons_self
    have halign : alignUp (s + pos) p.align = s + alignUp pos p.align := by
      rw [Nat.add_comm, alignUp_add_of_dvd hpos hdvd, Nat.add_comm]
    obtain ⟨hplace, hend⟩ := ih (fun q hq => h q (List.mem_cons_of_mem _ hq)) (alignUp pos p.align + p.size)
    refine ⟨?_, ?_⟩
    · rw [place, place, halign, Nat.add_assoc, hplace, shift_append, shift_shift]
    · rw [List.map_cons, Piece.extent, lastEnd, lastEnd, halign, Nat.add_assoc]
      exact hend

/-! ### Two ways to place -/

/-- A part that lacks nothing but size, or some of what lies in the other one. -/
structure Piece.Under (p q : Piece α) : Prop where
  sound : p.Sound
  sound' : q.Sound
  align : p.align = q.align
  length : p.cells.length ≤ q.cells.length

/-- All is placed alike from `near` on as from `far` on. -/
@[grind =] def Alike (near far : Nat) : List (Piece α) → List (Piece α) → Prop
  | p :: ps, q :: qs =>
      (q.cells = [] ∨ alignUp near q.align = alignUp far q.align ∧ p.cells = q.cells) ∧
        Alike (alignUp near q.align + p.size) (alignUp far q.align + q.size) ps qs
  | _, _ => True

theorem Piece.Under.cells_nil {p q : Piece α} (h : p.Under q) (hq : q.cells = []) : p.cells = [] := by
  have hlen := h.length
  rw [hq] at hlen
  exact List.eq_nil_of_length_eq_zero (Nat.le_zero.mp hlen)

theorem Piece.Under.shift_eq_iff {p q : Piece α} (h : p.Under q) (near far : Nat) :
    shift near p.cells = shift far q.cells ↔ q.cells = [] ∨ near = far ∧ p.cells = q.cells := by
  constructor
  · intro heq
    cases hq : q.cells with
    | nil => exact .inl rfl
    | cons c cells =>
      refine .inr ?_
      cases hp : p.cells with
      | nil =>
        rw [hp, hq] at heq
        cases heq
      | cons d cells' =>
        have hzero := h.sound.first d (by rw [hp]; rfl)
        have hzero' := h.sound'.first c (by rw [hq]; rfl)
        have hnear : near = far := by
          rw [hp, hq] at heq
          have hhead := congrArg Prod.fst (List.cons.inj heq).1
          simpa [hzero, hzero'] using hhead
        refine ⟨hnear, ?_⟩
        rw [← hp, ← hq]
        rw [hnear] at heq
        exact shift_inj heq
  · rintro (hq | ⟨rfl, heq⟩)
    · rw [hq, h.cells_nil hq, shift_nil, shift_nil]
    · rw [heq]

theorem sound_of_forall₂ {ps qs : List (Piece α)} (h : List.Forall₂ Piece.Under ps qs) :
    (∀ p ∈ ps, p.Sound) ∧ ∀ q ∈ qs, q.Sound := by
  induction h with
  | nil => exact ⟨fun _ h => (nomatch h), fun _ h => (nomatch h)⟩
  | cons hpq _ ih =>
    exact ⟨List.forall_mem_cons.mpr ⟨hpq.sound, ih.1⟩, List.forall_mem_cons.mpr ⟨hpq.sound', ih.2⟩⟩

theorem append_eq_iff {xs xs' ys ys' : List α} (hx : xs.length ≤ xs'.length)
    (hy : ys.length ≤ ys'.length) : xs ++ ys = xs' ++ ys' ↔ xs = xs' ∧ ys = ys' := by
  constructor
  · intro h
    have hlen := congrArg List.length h
    simp only [List.length_append] at hlen
    exact List.append_inj h (by omega)
  · rintro ⟨rfl, rfl⟩
    rfl

theorem length_place_le {ps qs : List (Piece α)} (h : List.Forall₂ Piece.Under ps qs) (near far : Nat) :
    (place near ps).length ≤ (place far qs).length := by
  induction h generalizing near far with
  | nil => exact Nat.le_refl _
  | cons hpq _ ih =>
    rw [place, place, List.length_append, List.length_append, length_shift, length_shift]
    exact Nat.add_le_add hpq.length (ih _ _)

/-- Parts one behind another are a part. -/
theorem under_row {ps qs : List (Piece α)} (h : List.Forall₂ Piece.Under ps qs) {align size : Nat}
    (halign : 0 < align) (hsize : lastEnd 0 (qs.map Piece.extent) = 0 → size = 0) :
    Piece.Under ⟨align, lastEnd 0 (ps.map Piece.extent), place 0 ps⟩ ⟨align, size, place 0 qs⟩ := by
  obtain ⟨hps, hqs⟩ := sound_of_forall₂ h
  exact ⟨⟨halign, lastEnd_of_empty hps, place_first hps⟩,
    ⟨halign, fun hempty => hsize (lastEnd_of_empty hqs hempty), place_first hqs⟩, rfl,
    length_place_le h 0 0⟩

theorem place_eq_iff {ps qs : List (Piece α)} (h : List.Forall₂ Piece.Under ps qs) (near far : Nat) :
    place near ps = place far qs ↔ Alike near far ps qs := by
  induction h generalizing near far with
  | nil => exact ⟨fun _ => trivial, fun _ => rfl⟩
  | cons hpq htail ih =>
    rw [place, place, Alike, append_eq_iff (by simpa using hpq.length) (length_place_le htail _ _),
      hpq.align, hpq.shift_eq_iff, ih]

theorem forall₂_replicate {β γ : Type} {R : β → γ → Prop} {b : β} {c : γ} (h : R b c) (n : Nat) :
    List.Forall₂ R (List.replicate n b) (List.replicate n c) := by
  induction n with
  | zero => exact .nil
  | succ n ih => exact .cons h ih

theorem alike_of_empty {q : Piece α} (hq : q.cells = []) (p : Piece α) (near far n : Nat) :
    Alike near far (List.replicate n p) (List.replicate n q) := by
  induction n generalizing near far with
  | zero => trivial
  | succ n ih => exact ⟨.inl hq, ih _ _⟩

/-- Parts that are all the same are placed alike if they are alike, and fill what they take where
another one is behind them. -/
theorem alike_replicate {p q : Piece α} (hpos : 0 < q.align) (hdvd : q.align ∣ q.size) {near far : Nat}
    (halign : alignUp near q.align = alignUp far q.align) (n : Nat) :
    Alike near far (List.replicate n p) (List.replicate n q) ↔
      n = 0 ∨ q.cells = [] ∨ p.cells = q.cells ∧ (n = 1 ∨ alignUp p.size q.align = q.size) := by
  by_cases hq : q.cells = []
  · exact ⟨fun _ => .inr (.inl hq), fun _ => alike_of_empty hq p near far n⟩
  induction n generalizing near far with
  | zero => exact ⟨fun _ => .inl rfl, fun _ => trivial⟩
  | succ n ih =>
    have hnear : alignUp (alignUp near q.align + p.size) q.align =
        alignUp p.size q.align + alignUp near q.align := by
      rw [Nat.add_comm, alignUp_add_of_dvd hpos (dvd_alignUp _ _)]
    have hfar : alignUp (alignUp near q.align + q.size) q.align = q.size + alignUp near q.align := by
      rw [Nat.add_comm, alignUp_add_of_dvd hpos (dvd_alignUp _ _), alignUp_eq_of_dvd hpos hdvd]
    simp only [List.replicate_succ, Alike, hq, false_or, halign, true_and, Nat.succ_ne_zero]
    cases n with
    | zero => simp [Alike]
    | succ n =>
      by_cases hfit : alignUp p.size q.align = q.size
      · rw [ih (by rw [← halign, hnear, hfar, hfit])]
        simp [hq, hfit]
      · rw [List.replicate_succ, List.replicate_succ, Alike, ← halign, hnear, hfar]
        simp [hq, hfit]

end

end Placement
