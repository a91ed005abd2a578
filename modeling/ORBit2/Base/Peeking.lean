import Mathlib

/-! Programs that are given some bytes of memory and may read others. Where nothing else is mapped,
such a program stops at the first byte that it was not given; where everything is mapped, it never
does. -/

set_option autoImplicit false

namespace Peeking

/-- The memory of a process; `none` where nothing is mapped. -/
abbrev Mapping : Type := Nat → Option UInt8

/-- Some bytes, and where they lie in an address space of 64 bits. -/
structure Given where
  base : Nat
  data : List UInt8
  addressable : base + data.length < 2^64

namespace Given

/-- Nothing else is mapped. -/
def alone (g : Given) : Mapping := fun a => if g.base ≤ a then g.data[a - g.base]? else none

/-- Everything else is zero. -/
def padded (g : Given) : Mapping := fun a => some ((g.alone a).getD 0)

/-- The bytes lie in a memory. -/
def In (g : Given) (mem : Mapping) : Prop := ∀ a b, g.alone a = some b → mem a = some b

theorem in_alone (g : Given) : g.In g.alone := fun _ _ h => h

theorem in_padded (g : Given) : g.In g.padded := fun a b h => by simp [padded, h]

theorem alone_isSome {g : Given} {a : Nat} :
    (g.alone a).isSome ↔ g.base ≤ a ∧ a < g.base + g.data.length := by
  unfold alone
  split
  · rw [isSome_getElem?]
    omega
  · simp only [Option.isSome_none, Bool.false_eq_true, false_iff]
    omega

end Given

/-! ### Reads -/

@[grind =] def bytesFrom (mem : Mapping) : (n a : Nat) → Option (List UInt8)
  | 0, _ => some []
  | n+1, a => (mem a).bind fun b => (bytesFrom mem n (a+1)).map (b :: ·)

/-- The bytes up to a zero. -/
@[grind =] def textFrom (mem : Mapping) : (steps a : Nat) → Option (List UInt8)
  | 0, _ => none
  | steps+1, a => (mem a).bind fun b => if b = 0 then some [] else (textFrom mem steps (a+1)).map (b :: ·)

/-- A read that is not preceded by a check: so many bytes, or a text up to its end. -/
inductive Peek where
  | block (a n : Nat)
  | text (a : Nat)
  deriving DecidableEq, Repr

def Peek.read (mem : Mapping) : Peek → Option (List UInt8)
  | .block a n => bytesFrom mem n a
  | .text a => textFrom mem (2^64) a

/-- What is read is among the bytes given. -/
def Given.Inside (g : Given) : Peek → Prop
  | .block a n => n = 0 ∨ g.base ≤ a ∧ a + n ≤ g.base + g.data.length
  | .text a => g.base ≤ a ∧ 0 ∈ g.data.drop (a - g.base)

section
variable {g : Given} {mem : Mapping}

theorem bytesFrom_in (h : g.In mem) {n a : Nat} {bs : List UInt8}
    (hb : bytesFrom g.alone n a = some bs) : bytesFrom mem n a = some bs := by
  induction n generalizing a bs with
  | zero => exact hb
  | succ n ih =>
    obtain ⟨b, hread, hrest⟩ := Option.bind_eq_some_iff.mp hb
    obtain ⟨rest, htail, rfl⟩ := Option.map_eq_some_iff.mp hrest
    rw [bytesFrom, h a b hread, Option.bind_some, ih htail, Option.map_some]

theorem textFrom_in (h : g.In mem) {steps a : Nat} {bs : List UInt8}
    (hb : textFrom g.alone steps a = some bs) : textFrom mem steps a = some bs := by
  induction steps generalizing a bs with
  | zero => cases hb
  | succ steps ih =>
    obtain ⟨b, hread, hrest⟩ := Option.bind_eq_some_iff.mp hb
    rw [textFrom, h a b hread, Option.bind_some]
    split at hrest
    · rw [if_pos ‹_›]
      exact hrest
    · obtain ⟨rest, htail, rfl⟩ := Option.map_eq_some_iff.mp hrest
      rw [if_neg ‹_›, ih htail, Option.map_some]

theorem bytesFrom_alone {n a : Nat} :
    (bytesFrom g.alone n a).isSome ↔
      n = 0 ∨ g.base ≤ a ∧ a + n ≤ g.base + g.data.length := by
  induction n generalizing a with
  | zero => simp [bytesFrom]
  | succ n ih =>
    have hone := @Given.alone_isSome g a
    have hrest := @ih (a+1)
    rw [bytesFrom]
    cases hread : g.alone a with
    | none =>
      rw [hread] at hone
      simp only [Option.isSome_none, Bool.false_eq_true, false_iff] at hone
      simp only [Option.bind_none, Option.isSome_none, Bool.false_eq_true, false_iff]
      omega
    | some b =>
      rw [hread] at hone
      simp only [Option.isSome_some, true_iff] at hone
      rw [Option.bind_some, Option.isSome_map, hrest]
      omega

theorem textFrom_alone {steps a : Nat} (ha : g.base ≤ a)
    (hsteps : g.base + g.data.length < a + steps) :
    (textFrom g.alone steps a).isSome ↔ 0 ∈ g.data.drop (a - g.base) := by
  induction steps generalizing a with
  | zero =>
    rw [List.drop_eq_nil_of_le (by omega)]
    simp [textFrom]
  | succ steps ih =>
    rw [textFrom, Given.alone, if_pos ha]
    cases hread : g.data[a - g.base]? with
    | none =>
      rw [List.drop_eq_nil_of_le (List.getElem?_eq_none_iff.mp hread)]
      simp
    | some b =>
      obtain ⟨hlt, hb⟩ := List.getElem?_eq_some_iff.mp hread
      have hnext : a - g.base + 1 = a + 1 - g.base := by omega
      have ih := @ih (a+1) (by omega) (by omega)
      rw [List.drop_eq_getElem_cons hlt, hb, hnext, Option.bind_some, List.mem_cons]
      by_cases h0 : b = 0
      · simp [h0]
      · rw [if_neg h0, Option.isSome_map, ih]
        constructor
        · exact .inr
        · rintro (rfl | h)
          · exact absurd rfl h0
          · exact h

theorem bytesFrom_padded (n a : Nat) : (bytesFrom g.padded n a).isSome := by
  induction n generalizing a with
  | zero => rfl
  | succ n ih =>
    rw [bytesFrom, Given.padded, Option.bind_some, Option.isSome_map]
    exact ih (a+1)

/-- Where everything else is zero, each text has an end. -/
theorem textFrom_padded {steps a : Nat} (h : 0 < steps)
    (hsteps : g.base + g.data.length < a + steps) : (textFrom g.padded steps a).isSome := by
  induction steps generalizing a with
  | zero => omega
  | succ steps ih =>
    rw [textFrom, Given.padded, Option.bind_some]
    split
    · rfl
    · rename_i hb
      have hin : (g.alone a).isSome := by
        by_contra hn
        rw [Option.not_isSome_iff_eq_none.mp hn] at hb
        exact hb rfl
      have hlt := (Given.alone_isSome.mp hin).2
      rw [Option.isSome_map]
      exact ih (by omega) (by omega)

theorem Peek.read_in (h : g.In mem) {p : Peek} {bs : List UInt8} (hb : p.read g.alone = some bs) :
    p.read mem = some bs := by
  cases p with
  | block a n => exact bytesFrom_in h hb
  | text a => exact textFrom_in h hb

theorem Peek.read_alone {p : Peek} : (p.read g.alone).isSome ↔ g.Inside p := by
  have hfits := g.addressable
  cases p with
  | block a n => exact bytesFrom_alone
  | text a =>
    rw [Peek.read, Given.Inside]
    by_cases ha : g.base ≤ a
    · rw [textFrom_alone ha (by omega)]
      exact (and_iff_right ha).symm
    · have hnone : g.alone a = none := by rw [Given.alone, if_neg ha]
      rw [show (2^64 : Nat) = 2^64 - 1 + 1 by omega, textFrom, hnone]
      simp [ha]

theorem Peek.read_padded (p : Peek) : (p.read g.padded).isSome := by
  have hfits := g.addressable
  cases p with
  | block a n => exact bytesFrom_padded n a
  | text a => exact textFrom_padded (by omega) (by omega)

end

/-! ### Programs -/

/-- A function that has returned: with a value, with an error, or not at all. -/
inductive Ended (σ α : Type) where
  | ok (a : α) (s : σ)
  | fail (s : σ)
  | abort

def Ended.mapState {σ τ α : Type} (f : τ → σ) : Ended τ α → Ended σ α
  | .ok a t => .ok a (f t)
  | .fail t => .fail (f t)
  | .abort => .abort

/-- What a program has done: how it has ended, if it has not read memory that is not mapped, and
what it has read unchecked so far. -/
def Prog (σ α : Type) : Type := Mapping → σ → Option (Ended σ α) × List Peek

namespace Prog
variable {σ τ α β : Type}

instance : Monad (Prog σ) where
  pure a := fun _ s => (some (.ok a s), [])
  bind x f := fun mem s =>
    match x mem s with
    | (some (.ok a s), peeks) => ((f a mem s).1, peeks ++ (f a mem s).2)
    | (some (.fail s), peeks) => (some (.fail s), peeks)
    | (some .abort, peeks) => (some .abort, peeks)
    | (none, peeks) => (none, peeks)

/-- A step that reads nothing unchecked; it is `none` where it should have. -/
def lift (m : σ → Option (Ended σ α)) : Prog σ α := fun _ s => (m s, [])

@[grind =] def fail : Prog σ α := lift fun s => some (.fail s)

@[grind =] def abort : Prog σ α := lift fun _ => some .abort

def peek (p : σ → Peek) : Prog σ (List UInt8) := fun mem s =>
  (((p s).read mem).map (.ok · s), [p s])

/-- A program that depends on the state. -/
def ask (f : σ → Prog σ α) : Prog σ α := fun mem s => f s mem s

/-- A program that works on a state of its own. -/
def within (start : σ → τ) (finish : σ → τ → σ) (m : Prog τ α) : Prog σ α := fun mem s =>
  ((m mem (start s)).1.map (Ended.mapState (finish s)), (m mem (start s)).2)

/-- A program whose error does not matter. -/
def caught (m : Prog σ α) : Prog σ Unit := fun mem s =>
  ((m mem s).1.map fun
    | .ok _ s | .fail s => .ok () s
    | .abort => .abort, (m mem s).2)

/-- The same program, so many times. -/
@[grind =] def times (m : Prog σ α) : Nat → Prog σ (List α)
  | 0 => pure []
  | n+1 => do
      let a ← m
      let as ← times m n
      return a :: as

/-- The program does the same in any memory, as long as it reads what it was given, and stops
only at what it was not given. -/
structure Sound (g : Given) (m : Prog σ α) : Prop where
  same : ∀ mem s r, g.In mem → (m g.alone s).1 = some r → (m mem s).1 = some r
  inside : ∀ s, (m g.alone s).1.isSome ↔ ∀ p ∈ (m g.alone s).2, g.Inside p
  total : ∀ s, (m g.padded s).1.isSome

namespace Sound
variable {g : Given} {m : Prog σ α}

theorem pure (a : α) : Sound g (Pure.pure a : Prog σ α) :=
  ⟨fun _ _ _ _ h => h, fun _ => ⟨fun _ _ h => absurd h List.not_mem_nil, fun _ => rfl⟩, fun _ => rfl⟩

theorem lift {f : σ → Option (Ended σ α)} (h : ∀ s, (f s).isSome) : Sound g (Prog.lift f) :=
  ⟨fun _ _ _ _ h => h, fun s => ⟨fun _ _ h => absurd h List.not_mem_nil, fun _ => h s⟩, h⟩

theorem fail : Sound g (Prog.fail : Prog σ α) := lift fun _ => rfl

theorem abort : Sound g (Prog.abort : Prog σ α) := lift fun _ => rfl

theorem peek (p : σ → Peek) : Sound g (Prog.peek p) where
  same mem s r hin h := by
    obtain ⟨bs, hread, rfl⟩ := Option.map_eq_some_iff.mp h
    simp only [Prog.peek, Peek.read_in hin hread, Option.map_some]
  inside s := by
    simp only [Prog.peek, Option.isSome_map, Peek.read_alone, List.mem_singleton, forall_eq]
  total s := by
    simp only [Prog.peek, Option.isSome_map]
    exact Peek.read_padded _

theorem bind {f : α → Prog σ β} (hm : Sound g m) (hf : ∀ a, Sound g (f a)) : Sound g (m >>= f) where
  same mem s r hin h := by
    have hsame := hm.same mem s
    simp only [Bind.bind] at h ⊢
    rcases hx : m g.alone s with ⟨_ | ⟨a, s'⟩ | s' | _, peeks⟩
    all_goals simp only [hx] at h
    · cases h
    · have hmem := hsame _ hin (by rw [hx])
      rcases hy : m mem s with ⟨r', peeks'⟩
      obtain rfl : r' = some (.ok a s') := by simpa [hy] using hmem
      exact (hf a).same mem s' r hin h
    all_goals
      cases h
      have hmem := hsame _ hin (by rw [hx])
      rcases hy : m mem s with ⟨r', peeks'⟩
      rw [hy] at hmem
      obtain rfl := hmem
      rfl
  inside s := by
    have hinside := hm.inside s
    simp only [Bind.bind]
    rcases hx : m g.alone s with ⟨_ | ⟨a, s'⟩ | s' | _, peeks⟩
    all_goals simp only [hx] at hinside ⊢
    case some.ok =>
      rw [(hf a).inside s']
      simp only [Option.isSome_some, true_iff] at hinside
      simp only [List.mem_append, or_imp, forall_and, and_iff_right hinside]
    all_goals exact hinside
  total s := by
    have htotal := hm.total s
    simp only [Bind.bind]
    rcases hx : m g.padded s with ⟨_ | ⟨a, s'⟩ | s' | _, peeks⟩
    all_goals simp only [hx] at htotal ⊢
    · cases htotal
    · exact (hf a).total s'
    all_goals rfl

theorem ask {f : σ → Prog σ α} (h : ∀ s, Sound g (f s)) : Sound g (Prog.ask f) :=
  ⟨fun mem s => (h s).same mem s, fun s => (h s).inside s, fun s => (h s).total s⟩

theorem within {start : σ → τ} {finish : σ → τ → σ} {m : Prog τ α} (h : Sound g m) :
    Sound g (Prog.within start finish m) where
  same mem s r hin hr := by
    obtain ⟨r', hr', rfl⟩ := Option.map_eq_some_iff.mp hr
    simp only [Prog.within, h.same mem (start s) r' hin hr', Option.map_some]
  inside s := by
    simp only [Prog.within, Option.isSome_map]
    exact h.inside (start s)
  total s := by
    simp only [Prog.within, Option.isSome_map]
    exact h.total (start s)

theorem caught (h : Sound g m) : Sound g (Prog.caught m) where
  same mem s r hin hr := by
    obtain ⟨r', hr', rfl⟩ := Option.map_eq_some_iff.mp hr
    simp only [Prog.caught, h.same mem s r' hin hr', Option.map_some]
  inside s := by
    simp only [Prog.caught, Option.isSome_map]
    exact h.inside s
  total s := by
    simp only [Prog.caught, Option.isSome_map]
    exact h.total s

theorem times (h : Sound g m) (n : Nat) : Sound g (m.times n) := by
  induction n with
  | zero => exact pure []
  | succ n ih => exact bind h fun a => bind ih fun as => pure (a :: as)

/-- A program whose end is chosen by what it has read so far. -/
theorem ite {c : Prop} [Decidable c] {m' : Prog σ α} (h : Sound g m) (h' : Sound g m') :
    Sound g (if c then m else m') := by
  split
  · exact h
  · exact h'

/-- It ends alike in all memories if, and only if, all it reads unchecked has been given to it. -/
theorem same_iff (h : Sound g m) (s : σ) :
    (∀ mem mem', g.In mem → g.In mem' → (m mem s).1 = (m mem' s).1) ↔
      ∀ p ∈ (m g.alone s).2, g.Inside p := by
  rw [← h.inside s]
  constructor
  · intro hsame
    rw [hsame g.alone g.padded g.in_alone g.in_padded]
    exact h.total s
  · intro hsome mem mem' hin hin'
    obtain ⟨r, hr⟩ := Option.isSome_iff_exists.mp hsome
    rw [h.same mem s r hin hr, h.same mem' s r hin' hr]

end Sound
end Prog
end Peeking
