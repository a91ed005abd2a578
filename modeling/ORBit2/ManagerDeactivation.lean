import ORBit2.PoaManagers

/-! The deactivation of a POAManager that waits for the completion of requests. -/

set_option autoImplicit false

namespace ORBit2.PortableServer

/-- The task walks over the objects for a deactivation of the manager. -/
def Task.walksFor (m : Nat) : Task → Bool
  | .deactivate _ _ (.manager m' _) | .traverse _ _ _ _ (.manager m' _) => m' == m
  | _ => false

def Event.isCall : Event → Bool
  | .call _ _ => true
  | _ => false

/-- How often the object loses its servant in a run. -/
def losses (w : World) (o : Nat) (s : State) : List Event → Nat
  | [] => 0
  | e :: es =>
      (if (s.objects o).bind (·.servant) ≠ none ∧ ((s.step w e).objects o).bind (·.servant) = none then 1
      else 0) + losses w o (s.step w e) es

/-- Once the walk from `s'` on is over, and the application has called nothing else, every object that
was active in `s` at a POA of the manager has been deactivated, and only once. -/
def State.DeactivatesAll (w : World) (s s' : State) (m : Nat) : Prop :=
  ∀ es, (∀ e ∈ es, e.isCall = false) →
    (∀ k ∈ (Runs.run (State.step w) s' es).pending, k.walksFor m = false) →
    ∀ p ∈ (s.managers m).poaCollection, ∀ e ∈ (s.poas p).map, ∀ x ∈ s.objects e.2,
      x.servant ≠ none → losses w e.2 s' es = 1

/-- No request gets through the manager to an object. -/
def State.Bars (w : World) (m : Nat) (s : State) : Prop :=
  ∀ c x s' ks, s.objects c.object = some x → w.manager x.poa = m →
    s.handleRequest w c = .ok (s', ks) → ks = [] ∧ s'.objects = s.objects

/-- What a deactivation that waits is to do. -/
structure State.DeactivatesIdle (w : World) (s : State) (m : Nat) (etherealize : Bool) : Prop where
  refused : (∃ s' ks, s.managerDeactivate w m etherealize true = .ok (s', ks, .badInvOrder)) ↔
    ∃ p ∈ (s.managers m).poaCollection, s.InUse p
  unchanged : ∀ s' ks, s.managerDeactivate w m etherealize true = .ok (s', ks, .badInvOrder) →
    s' = s ∧ ks = []
  done : ∀ s' ks r, s.managerDeactivate w m etherealize true = .ok (s', ks, r) → r ≠ .badInvOrder →
    ∀ t, (s'.managers m).state = .inactive ∧ s.DeactivatesAll w (s'.push t ks s.tasks) m ∧
      ∀ es, Runs.Always (State.step w) (State.Bars w m) (s'.push t ks s.tasks) es

section
variable {w : World} {s : State} {m : Nat}

theorem State.bars_of_inactive (h : (s.managers m).state = .inactive) : s.Bars w m := by
  intro c x s' ks hx hm hr
  unfold State.handleRequest at hr
  rw [State.object_of_objects hx, Outcomes.ok_bind] at hr
  obtain ⟨s₁, hs₁, hr⟩ := Outcomes.of_bind hr
  rw [State.lock_managers hs₁, hm, h] at hr
  cases hr
  exact ⟨rfl, (State.unlock_objects s₁ c.poa).trans (State.lock_objects hs₁)⟩

/-- Nothing comes through an inactive manager in any run. -/
theorem State.always_bars (w : World) (h : (s.managers m).state = .inactive) (es : List Event) :
    Runs.Always (State.step w) (State.Bars w m) s es := by
  have hrun : Runs.Always (State.step w) (fun s => (s.managers m).state = .inactive) s es :=
    Runs.always_invariant (fun s e hs => State.keepsInactive_step w s e m hs) es h
  exact hrun.imp fun s hs => State.bars_of_inactive hs

/-- The test of the code: what is refused is a POA without any use. -/
theorem State.managerDeactivate_eq (etherealize : Bool) (hm : (s.managers m).state ≠ .inactive)
    (hfree : w.threadSafe = true → ∀ p ∈ (s.managers m).poaCollection, (s.poas p).locked = false) :
    s.managerDeactivate w m etherealize true =
      if ∃ p ∈ (s.managers m).poaCollection, ¬ s.InUse p then .ok (s, [], .badInvOrder)
      else .ok (s.setManagerState m .inactive, match (s.managers m).poaCollection.head? with
        | none => []
        | some p => [.deactivate p etherealize (.manager m etherealize)], .done) := by
  have hunlocked : ¬ (true = true ∧ w.threadSafe = true ∧
      ∃ p ∈ (s.managers m).poaCollection, (s.poas p).locked = true) := by
    rintro ⟨-, hts, p, hp, hlocked⟩
    rw [hfree hts p hp] at hlocked
    cases hlocked
  unfold State.managerDeactivate
  dsimp only
  rw [if_neg hm, if_neg hunlocked]
  by_cases hidle : ∃ p ∈ (s.managers m).poaCollection, ¬ s.InUse p
  · rw [if_pos ⟨rfl, hidle⟩, if_pos hidle]
  · refine (if_neg fun h => hidle h.2).trans (Eq.trans ?_ (if_neg hidle).symm)
    rfl

theorem State.setManagerState_state (s : State) (m : Nat) (state : POAManagerState) :
    ((s.setManagerState m state).managers m).state = state := by
  simp [State.setManagerState]

end

/-- Two POAs; an object of the first one is in a request. -/
def oneOfTwoInUse : List Event :=
  [.call 0 (.createPOA 0), .call 0 (.createPOA 1), .call 0 (.managerActivate 0),
    .call 0 (.servantToReference 0 (some 7) [1, 2, 3, 4]), .call 0 (.invoke 0 3), .run 0]

end ORBit2.PortableServer
