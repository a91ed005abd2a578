import Mathlib

/-! Programs that note what they do. Such a program works on a state, leaves the events of its run
behind, and may come to a place from where on nothing is known of it. -/

set_option autoImplicit false

/-- The rest of the run, if there is one, and the events so far. -/
def Traced (ε σ α : Type) : Type := σ → Option (α × σ) × List ε

namespace Traced
variable {ε σ τ α β : Type}

instance : Monad (Traced ε σ) where
  pure a := fun s => (some (a, s), [])
  bind m f := fun s =>
    match m s with
    | (some (a, s), events) => ((f a s).1, events ++ (f a s).2)
    | (none, events) => (none, events)

/-- A step on the state, and its events. -/
def step (f : σ → α × σ × List ε) : Traced ε σ α := fun s => (some ((f s).1, (f s).2.1), (f s).2.2)

def get : Traced ε σ σ := step fun s => (s, s, [])

def modify (f : σ → σ) : Traced ε σ Unit := step fun s => ((), f s, [])

def emits (events : List ε) : Traced ε σ Unit := step fun s => ((), s, events)

def stop : Traced ε σ α := fun _ => (none, [])

/-- A program that works on a state of its own. -/
def within (start : σ → τ) (finish : σ → τ → σ) (m : Traced ε τ α) : Traced ε σ α := fun s =>
  ((m (start s)).1.map fun r => (r.1, finish s r.2), (m (start s)).2)

/-! ### What holds of every run -/

/-- What runs keep: the states that they go through, and a relation between the state they begin in,
their events and, where they come to their end, the state there. -/
structure Law (ε σ : Type) where
  ok : σ → Prop
  along : σ → List ε → Option σ → Prop
  nothing : ∀ s, ok s → along s [] (some s)
  /-- one run behind another -/
  append : ∀ s log s' rest end', along s log (some s') → along s' rest end' →
    along s (log ++ rest) end'

/-- The run from `s` keeps the law; where it comes to its end, `post` holds of the value, of the
events and of the state. -/
def Keeps (law : Law ε σ) (s : σ) (m : Traced ε σ α) (post : α → List ε → σ → Prop) : Prop :=
  law.ok s → law.along s (m s).2 ((m s).1.map Prod.snd) ∧
    ∀ a s', (m s).1 = some (a, s') → law.ok s' ∧ post a (m s).2 s'

namespace Keeps
variable {law : Law ε σ} {s : σ} {m : Traced ε σ α} {f : α → Traced ε σ β}
  {p : α → List ε → σ → Prop} {q : β → List ε → σ → Prop}

theorem pure {a : α} (h : p a [] s) : Keeps law s (Pure.pure a) p := by
  intro hs
  refine ⟨law.nothing s hs, ?_⟩
  rintro _ _ ⟨⟩
  exact ⟨hs, h⟩

/-- The run may be taken to begin in a state that the law allows. -/
theorem of_ok (h : law.ok s → Keeps law s m p) : Keeps law s m p := fun hs => h hs hs

theorem mono {p' : α → List ε → σ → Prop} (h : Keeps law s m p)
    (hp : ∀ a log s', p a log s' → p' a log s') : Keeps law s m p' := by
  intro hs
  obtain ⟨halong, hend⟩ := h hs
  refine ⟨halong, fun a s' ha => ?_⟩
  obtain ⟨hs', hpost⟩ := hend a s' ha
  exact ⟨hs', hp a _ s' hpost⟩

theorem bind (hm : Keeps law s m p)
    (hf : ∀ a log s', p a log s' → Keeps law s' (f a) fun b rest => q b (log ++ rest)) :
    Keeps law s (m >>= f) q := by
  intro hs
  obtain ⟨halong, hend⟩ := hm hs
  simp only [Bind.bind]
  rcases hx : m s with ⟨_ | ⟨a, s'⟩, log⟩
  · rw [hx] at halong
    exact ⟨halong, fun _ _ h => nomatch h⟩
  · rw [hx] at halong hend
    obtain ⟨hs', hpost⟩ := hend a s' rfl
    obtain ⟨hrest, hlast⟩ := hf a log s' hpost hs'
    exact ⟨law.append s log s' _ _ halong hrest, hlast⟩

theorem step {g : σ → α × σ × List ε} (hok : law.ok s → law.ok (g s).2.1)
    (halong : law.ok s → law.along s (g s).2.2 (some (g s).2.1)) (h : p (g s).1 (g s).2.2 (g s).2.1) :
    Keeps law s (Traced.step g) p := by
  intro hs
  refine ⟨halong hs, ?_⟩
  rintro _ _ ⟨⟩
  exact ⟨hok hs, h⟩

theorem get {p : σ → List ε → σ → Prop} (h : p s [] s) : Keeps law s Traced.get p :=
  step id (law.nothing s) h

end Keeps

/-- Each run comes to its end. -/
def Ends (m : Traced ε σ α) : Prop := ∀ s, ∃ r, (m s).1 = some r

namespace Ends
variable {m : Traced ε σ α} {f : α → Traced ε σ β}

theorem pure (a : α) : Ends (Pure.pure a : Traced ε σ α) := fun s => ⟨(a, s), rfl⟩

theorem step (g : σ → α × σ × List ε) : Ends (Traced.step g) := fun _ => ⟨_, rfl⟩

theorem bind (hm : Ends m) (hf : ∀ a, Ends (f a)) : Ends (m >>= f) := by
  intro s
  obtain ⟨⟨a, s'⟩, hr⟩ := hm s
  obtain ⟨r, hr'⟩ := hf a s'
  refine ⟨r, ?_⟩
  simp only [Bind.bind]
  rcases hx : m s with ⟨_ | ⟨a', s''⟩, log⟩
  · rw [hx] at hr
    cases hr
  · rw [hx] at hr
    cases hr
    exact hr'

end Ends
end Traced
