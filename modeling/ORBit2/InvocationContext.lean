import ORBit2.Base.SharedStack
import ORBit2.LockDiscipline
import ORBit2.ServantLocator

/-! The stack of invocations in all runs: the requests that the threads execute, and what Current
and the servants are told of them. -/

set_option autoImplicit false

namespace ORBit2.PortableServer

/-- The request that the thread executes until the task is done: it is on the stack. -/
def Task.executes : Task → Option Call
  | .method c _ | .endUse c => some c
  | _ => none

/-- The request whose object the task uses. -/
def Task.call : Task → Option Call
  | .request c | .incarnate c | .preinvoke c | .method c _ | .endUse c => some c
  | _ => none

def executed (ts : List Task) : List Call := ts.filterMap Task.executes

/-- The requests that a thread executes, the innermost first. -/
def State.executing (s : State) (t : Nat) : List Call := executed (s.own t)

/-- The threads with the objects of the requests they execute. -/
def State.executions (s : State) : List (Nat × Nat) :=
  s.tasks.filterMap fun u => u.2.executes.map fun c => (u.1, c.object)

/-- What changes neither the stack nor where objects belong. -/
structure State.Framed (s s' : State) : Prop where
  grown : s.nextObject ≤ s'.nextObject
  formed : s.Formed → s'.Formed
  old : ∀ o x', s'.objects o = some x' → o < s.nextObject →
    ∃ x, s.objects o = some x ∧ x'.poa = x.poa
  invocations : s'.invocations = s.invocations
  queue : s'.queue = s.queue

section
variable {w : World} {s s' s₁ : State} {k : Task} {ts ts' ks ls : List Task} {c : Call}
variable {o p : Nat} {x x' : POAObject}

theorem State.Quiet.framed (h : s.Quiet w s') : s.Framed s' where
  grown := h.grown
  formed := h.formed
  old o x' hx' ho := by
    obtain ⟨x, hx, hp, -⟩ := h.old o x' hx' ho
    exact ⟨x, hx, hp⟩
  invocations := h.invocations
  queue := h.queue

theorem State.Framed.refl (s : State) : s.Framed s where
  grown := Nat.le_refl _
  formed := id
  old _ x' hx' _ := ⟨x', hx', rfl⟩
  invocations := rfl
  queue := rfl

theorem State.Framed.trans (h : s.Framed s₁) (h' : s₁.Framed s') : s.Framed s' where
  grown := Nat.le_trans h.grown h'.grown
  formed hf := h'.formed (h.formed hf)
  old o x' hx' ho := by
    obtain ⟨x₁, hx₁, hp₁⟩ := h'.old o x' hx' (Nat.lt_of_lt_of_le ho h.grown)
    obtain ⟨x, hx, hp⟩ := h.old o x₁ hx₁ ho
    exact ⟨x, hx, hp₁.trans hp⟩
  invocations := h'.invocations.trans h.invocations
  queue := h'.queue.trans h.queue

/-- A change at one object, and at its place in the lists. -/
theorem State.Framed.change (hx : s.objects o = some x)
    (ho : ∀ o', s'.objects o' = if o' = o then some x' else s.objects o')
    (hm : s'.poas = s.poas) (hn : s'.nextObject = s.nextObject) (hp : x'.poa = x.poa)
    (hid : x'.objectId = x.objectId) (hd : x'.life.destroyed = x.life.destroyed)
    (hlist : ∀ sv o', o' ∈ s'.privates sv → o' = o ∨ o' ∈ s.privates sv)
    (hi : s'.invocations = s.invocations) (hq : s'.queue = s.queue) : s.Framed s' where
  grown := Nat.le_of_eq hn.symm
  formed hf := hf.change hx ho hm hn hp (fun h => .inr ⟨hid, hd ▸ h⟩) hlist
  old o' y hy _ := by
    rw [ho] at hy
    split at hy
    · rename_i he
      cases hy
      exact ⟨x, he ▸ hx, hp⟩
    · exact ⟨y, hy, rfl⟩
  invocations := hi
  queue := hq

theorem State.Framed.link {servant : Nat} (hx : s.objects o = some x) (hp : x'.poa = x.poa)
    (hid : x'.objectId = x.objectId) (hd : x'.life.destroyed = x.life.destroyed) :
    s.Framed (s.link o x' servant) := by
  refine .change hx (State.setObject_objects s o · _) rfl rfl hp hid hd (fun sv o' hmem => ?_) rfl rfl
  by_cases hsv : sv = servant
  · subst hsv
    simp only [State.link, Function.update_self, List.mem_cons] at hmem
    exact hmem
  · simp only [State.link, Function.update_of_ne hsv] at hmem
    exact .inr hmem

theorem State.Framed.unlink {servant : Nat} (hx : s.objects o = some x) (hp : x'.poa = x.poa)
    (hid : x'.objectId = x.objectId) (hd : x'.life.destroyed = x.life.destroyed)
    (hr : s.unlink o x' servant = .ok s') : s.Framed s' := by
  unfold State.unlink at hr
  split at hr
  · cases hr
    refine .change hx (State.setObject_objects s o · _) rfl rfl hp hid hd (fun sv o' hmem => ?_)
      rfl rfl
    by_cases hsv : sv = servant
    · subst hsv
      simp only [Function.update_self] at hmem
      exact .inr (List.mem_of_mem_erase hmem)
    · simp only [Function.update_of_ne hsv] at hmem
      exact .inr hmem
  · cases hr

theorem State.Framed.setObject (hx : s.objects o = some x) (hp : x'.poa = x.poa)
    (hid : x'.objectId = x.objectId) (hd : x'.life.destroyed = x.life.destroyed) :
    s.Framed (s.setObject o x') :=
  .change hx (State.setObject_objects s o · _) rfl rfl hp hid hd (fun _ _ => .inr) rfl rfl

theorem State.Framed.activateObject {servant : Option Nat}
    (hr : s.activateObject w p o servant = .ok s') : s.Framed s' := by
  obtain ⟨x, sv, hx, -, -, -, rfl⟩ := State.activateObject_ok hr
  exact .link hx rfl rfl rfl

theorem State.Framed.deactivateObject {etherealize cleanup : Bool}
    (hr : s.deactivateObject w p o etherealize cleanup = .ok (s', ls)) : s.Framed s' := by
  unfold State.deactivateObject at hr
  obtain ⟨x, hx, hr⟩ := Outcomes.of_bind hr
  have hx := State.object_ok hx
  split at hr
  · cases hr
    exact .refl s
  · dsimp only at hr
    split at hr
    · cases hr
      exact .setObject hx rfl rfl rfl
    · obtain ⟨s₁, hs₁, hr⟩ := Outcomes.of_bind hr
      have h₁ : s.Framed s₁ := by
        refine .unlink hx ?_ ?_ ?_ hs₁ <;> rfl
      have hq : s₁.Quiet w s' := .etherealizeObject hr
      exact h₁.trans hq.framed

theorem executed_append : executed (ts ++ ts') = executed ts ++ executed ts' :=
  List.filterMap_append

theorem Task.call_of_plain (hk : k.plain = true) : k.call = none := by
  cases k <;> first | rfl | cases hk

theorem Task.executes_of_call (hk : k.call = none) : k.executes = none := by
  cases k <;> first | rfl | cases hk

theorem executed_idle (h : ∀ k ∈ ts, k.call = none) : executed ts = [] :=
  List.filterMap_eq_nil_iff.mpr fun k hk => Task.executes_of_call (h k hk)

theorem State.Framed.unuse {cookie : Nat} (hr : s.unuse w c cookie = .ok (s', ls)) :
    s.Framed s' ∧ ∀ k ∈ ls, k.call = none := by
  unfold State.unuse at hr
  obtain ⟨x, hx, hr⟩ := Outcomes.of_bind hr
  split at hr
  · cases hr
    exact ⟨.refl s, by simp⟩
  · split at hr
    · unfold State.unuseServant at hr
      obtain ⟨x, hx, hr⟩ := Outcomes.of_bind hr
      obtain ⟨-, hr⟩ := Outcomes.of_guard hr
      split at hr
      · cases hr
      · obtain ⟨s₁, hs₁, hr⟩ := Outcomes.of_bind hr
        obtain ⟨s₂, hs₂, hr⟩ := Outcomes.of_bind hr
        obtain ⟨y, -, hr⟩ := Outcomes.of_bind hr
        split at hr
        · cases hr
        · cases hr
          have h₁ : s.Framed s₁ := .unlink (State.object_ok hx) rfl rfl rfl hs₁
          have hq : s₁.Quiet w s₂ := .release hs₂
          have h₂ : s.Framed s₂ := h₁.trans hq.framed
          exact ⟨⟨h₂.grown, fun hf => ⟨(h₂.formed hf).bound, (h₂.formed hf).listed,
            (h₂.formed hf).entries, (h₂.formed hf).gone⟩, h₂.old, h₂.invocations, h₂.queue⟩,
            by simp [Task.call]⟩
    · exact ⟨.deactivateObject hr, fun k hk =>
        Task.call_of_plain (State.deactivateObject_plain hr k hk)⟩
    · cases hr

/-- How a step of a thread changes the stack: before and after it the thread executes these
requests. -/
inductive State.Moves (s s' : State) : List Call → List Call → Prop where
  | stays (cs : List Call) : s'.invocations = s.invocations → State.Moves s s' cs cs
  | starts (c : Call) : s'.invocations = c.object :: s.invocations → State.Moves s s' [] [c]
  | ends (c : Call) : s'.invocations = s.invocations.erase c.object → State.Moves s s' [c] []

/-- A step that does a task. -/
structure Turn (s s' : State) (k : Task) (ls : List Task) : Prop where
  grown : s.nextObject ≤ s'.nextObject
  formed : s.Formed → s'.Formed
  old : ∀ o x', s'.objects o = some x' → o < s.nextObject →
    ∃ x, s.objects o = some x ∧ x'.poa = x.poa
  queue : s'.queue = s.queue
  moves : s.Moves s' (executed [k]) (executed ls)
  calls : ∀ k' ∈ ls, ∀ c ∈ k'.call, k.call = some c

/-- The stack stays as it is. -/
theorem State.Framed.turn (h : s.Framed s') (he : executed ls = executed [k])
    (hc : ∀ k' ∈ ls, ∀ c ∈ k'.call, k.call = some c) : Turn s s' k ls where
  grown := h.grown
  formed := h.formed
  old := h.old
  queue := h.queue
  moves := by
    rw [he]
    exact .stays _ h.invocations
  calls := hc

theorem State.Framed.idle (h : s.Framed s') (hk : k.executes = none)
    (hls : ∀ k' ∈ ls, k'.call = none) : Turn s s' k ls := by
  refine h.turn ?_ fun k' hk' c hc => ?_
  · rw [executed_idle hls]
    simp [executed, hk]
  · rw [hls k' hk'] at hc
    cases hc

theorem Turn.before (h : Turn s₁ s' k ls) (h₁ : s.Framed s₁) : Turn s s' k ls where
  grown := Nat.le_trans h₁.grown h.grown
  formed hf := h.formed (h₁.formed hf)
  old o x' hx' ho := by
    obtain ⟨x₁, hx₁, hp₁⟩ := h.old o x' hx' (Nat.lt_of_lt_of_le ho h₁.grown)
    obtain ⟨x, hx, hp⟩ := h₁.old o x₁ hx₁ ho
    exact ⟨x, hx, hp₁.trans hp⟩
  queue := h.queue.trans h₁.queue
  moves := by
    have hm := h.moves
    generalize executed [k] = before at hm ⊢
    generalize executed ls = after at hm ⊢
    cases hm with
    | stays _ hi => exact .stays _ (hi.trans h₁.invocations)
    | starts c hi => exact .starts c (by rw [hi, h₁.invocations])
    | ends c hi => exact .ends c (by rw [hi, h₁.invocations])
  calls := h.calls

theorem State.Framed.endRequest {cookie : Nat} (hr : s.endRequest w c cookie = .ok (s', ls)) :
    s.Framed s' ∧ executed ls = [c] ∧ ∀ k ∈ ls, ∀ d ∈ k.call, d = c := by
  unfold State.endRequest at hr
  obtain ⟨⟨s₁, tasks⟩, hs₁, hr⟩ := Outcomes.of_bind hr
  cases hr
  obtain ⟨hframed, hidle⟩ := State.Framed.unuse hs₁
  refine ⟨hframed, ?_, fun k hk d hd => ?_⟩
  · rw [executed_append, executed_idle hidle]
    rfl
  · rcases List.mem_append.mp hk with hk | hk
    · rw [hidle k hk] at hd
      cases hd
    · simp only [List.mem_cons, List.not_mem_nil, or_false] at hk
      rcases hk with rfl | rfl
      · exact (Option.some.inj hd).symm
      · cases hd

/-- Everything but the stack. -/
theorem Turn.around {s₂ : State} (h : s.Framed s₁) (ho : s₂.objects = s₁.objects)
    (hp : s₂.poas = s₁.poas) (hv : s₂.privates = s₁.privates) (hn : s₂.nextObject = s₁.nextObject)
    (hq : s₂.queue = s₁.queue) (h' : s₂.Framed s')
    (hm : s.Moves s' (executed [k]) (executed ls))
    (hc : ∀ k' ∈ ls, ∀ c ∈ k'.call, k.call = some c) : Turn s s' k ls where
  grown := Nat.le_trans h.grown (hn ▸ h'.grown)
  formed hf := by
    have hf₁ := h.formed hf
    refine h'.formed ⟨?_, ?_, ?_, ?_⟩
    · rw [ho, hn]
      exact hf₁.bound
    · rw [hv, hn]
      exact hf₁.listed
    · rw [ho, hp, hn]
      exact hf₁.entries
    · rw [ho]
      exact hf₁.gone
  old o x' hx' hlt := by
    obtain ⟨x₁, hx₁, hp₁⟩ := h'.old o x' hx' (by rw [hn]; exact Nat.lt_of_lt_of_le hlt h.grown)
    rw [ho] at hx₁
    obtain ⟨x, hx, hpoa⟩ := h.old o x₁ hx₁ hlt
    exact ⟨x, hx, hp₁.trans hpoa⟩
  queue := h'.queue.trans (hq.trans h.queue)
  moves := hm
  calls := hc

theorem Turn.dispatch {cookie : Nat} (hk : k.executes = none) (hkc : k.call = some c)
    (hr : s.dispatch w c cookie = .ok (s', ls)) : Turn s s' k ls := by
  obtain ⟨x, servant, s₁, hx, -, hs₁, hcases⟩ := State.dispatch_ok hr
  have hset : s.Framed (s.setObject c.object { x with useCnt := (x.useCnt + 1) % useCntMod }) :=
    .setObject hx rfl rfl rfl
  have hrest : s₁.Framed s' ∧ executed ls = [c] ∧ ∀ k ∈ ls, ∀ d ∈ k.call, d = c := by
    rcases hcases with ⟨-, rfl, rfl⟩ | ⟨-, hr⟩
    · have hq : s₁.Quiet w (s₁.unlock w c.poa) := .unlock
      have h := hq.framed
      refine ⟨⟨h.grown, fun hf => ⟨(h.formed hf).bound, (h.formed hf).listed,
        (h.formed hf).entries, (h.formed hf).gone⟩, h.old, h.invocations, h.queue⟩, rfl, ?_⟩
      intro k' hk' d hd
      rw [List.mem_singleton.mp hk'] at hd
      exact (Option.some.inj hd).symm
    · exact State.Framed.endRequest hr
  obtain ⟨hframed, hexec, hcalls⟩ := hrest
  have hpushed : s₁.invocations = c.object :: s.invocations := by rw [hs₁]
  refine Turn.around hset (by rw [hs₁]) (by rw [hs₁]) (by rw [hs₁]) (by rw [hs₁]) (by rw [hs₁])
    hframed ?_ fun k' hk' d hd => ?_
  · rw [hexec]
    have hnone : executed [k] = [] := by simp [executed, hk]
    rw [hnone]
    exact .starts c (hframed.invocations.trans hpushed)
  · rw [hkc, hcalls k' hk' d hd]

theorem Turn.served {cookie : Nat} {raised : Bool} (hk : k.executes = none)
    (hkc : k.call = some c) (hr : s.served w c cookie raised = .ok (s', ls)) : Turn s s' k ls := by
  unfold State.served at hr
  obtain ⟨x, -, hr⟩ := Outcomes.of_bind hr
  split at hr
  · exact .dispatch hk hkc hr
  · cases hr
    have hq : s.Quiet w (s.unlock w c.poa) := .unlock
    exact hq.framed.idle hk (by simp)

theorem Turn.handleRequest (hr : s.handleRequest w c = .ok (s', ls)) :
    Turn s s' (.request c) ls := by
  unfold State.handleRequest at hr
  obtain ⟨x, -, hr⟩ := Outcomes.of_bind hr
  obtain ⟨s₁, hs₁, hr⟩ := Outcomes.of_bind hr
  have hlock : s.Quiet w s₁ := .lock hs₁
  have hdrop : ∀ s₂, s₁.Quiet w s₂ → Turn s s₂ (.request c) [] := fun s₂ hq =>
    (hlock.trans hq).framed.idle rfl (by simp)
  dsimp only at hr
  split at hr
  · cases hr
    refine hdrop _ (.trans ?_ .unlock)
    split
    · exact .setPoa (fun _ _ => id) fun _ => id
    · exact .refl s₁
  · cases hr
    exact hdrop _ .unlock
  · cases hr
    exact hdrop _ .unlock
  · split at hr
    · exact (Turn.dispatch rfl rfl hr).before hlock.framed
    · split at hr
      · cases hr
        exact hdrop _ .unlock
      · obtain ⟨s₂, hs₂, hr⟩ := Outcomes.of_bind hr
        exact (Turn.dispatch rfl rfl hr).before (hlock.framed.trans (.activateObject hs₂))
      · split at hr
        · cases hr
          refine hlock.framed.turn ?_ fun k' hk' d hd => ?_
          · split <;> rfl
          · rw [List.mem_singleton.mp hk'] at hd
            split at hd <;> exact hd
        · cases hr

/-- What the servant manager returned is put into the object, or not. -/
theorem State.Framed.useServant {servant : Option Nat} {raised raised' : Bool}
    (hr : s.useServant w c servant raised = .ok (s', raised')) : s.Framed s' := by
  unfold State.useServant at hr
  obtain ⟨x, hx, hr⟩ := Outcomes.of_bind hr
  split at hr
  · cases hr
    exact .refl s
  · split at hr
    · cases hr
      exact .refl s
    · cases hr
      exact .link (State.object_ok hx) rfl rfl rfl

theorem Turn.incarnated {servant : Option Nat} {raised : Bool}
    (hr : s.incarnated w c servant raised = .ok (s', ls)) : Turn s s' (.incarnate c) ls := by
  unfold State.incarnated at hr
  obtain ⟨⟨s₁, raised'⟩, hs₁, hr⟩ := Outcomes.of_bind hr
  exact (Turn.served rfl rfl hr).before (.useServant hs₁)

theorem Turn.preinvoked {servant : Option Nat} {cookie : Nat} {raised : Bool}
    (hr : s.preinvoked w c servant cookie raised = .ok (s', ls)) : Turn s s' (.preinvoke c) ls := by
  unfold State.preinvoked at hr
  obtain ⟨x, -, hr⟩ := Outcomes.of_bind hr
  dsimp only at hr
  obtain ⟨⟨s₁, raised'⟩, hs₁, hr⟩ := Outcomes.of_bind hr
  have hvisits : ∀ vs : List Visit, s.Framed { s with visits := vs } := fun vs =>
    ⟨Nat.le_refl _, fun hf => ⟨hf.bound, hf.listed, hf.entries, hf.gone⟩,
      fun o x' hx' _ => ⟨x', hx', rfl⟩, rfl, rfl⟩
  exact (Turn.served rfl rfl hr).before ((hvisits _).trans (.useServant hs₁))

theorem Turn.returned {cookie : Nat} (hr : s.returned w c cookie = .ok (s', ls)) :
    Turn s s' (.method c cookie) ls := by
  unfold State.returned at hr
  obtain ⟨s₁, hs₁, hr⟩ := Outcomes.of_bind hr
  have hlock : s.Quiet w s₁ := .lock hs₁
  obtain ⟨hframed, hexec, hcalls⟩ := State.Framed.endRequest hr
  refine (hlock.framed.trans hframed).turn hexec fun k' hk' d hd => ?_
  rw [hcalls k' hk' d hd]
  rfl

theorem Turn.endUse (hr : s.endUse w c = .ok (s', ls)) : Turn s s' (.endUse c) ls := by
  unfold State.endUse at hr
  obtain ⟨x, hx, hr⟩ := Outcomes.of_bind hr
  have hx := State.object_ok hx
  dsimp only at hr
  have hset : s.Framed (s.setObject c.object
      { x with useCnt := (x.useCnt + (useCntMod - 1)) % useCntMod }) := .setObject hx rfl rfl rfl
  obtain ⟨s₁, hs₁⟩ : ∃ s₁ : State, s₁ = { s.setObject c.object
      { x with useCnt := (x.useCnt + (useCntMod - 1)) % useCntMod } with
    invocations := s.invocations.erase c.object } := ⟨_, rfl⟩
  rw [← hs₁] at hr
  have hrest : s₁.Framed s' ∧ ∀ k ∈ ls, k.call = none := by
    split at hr
    · unfold State.postInvoke at hr
      obtain ⟨y, hy, hr⟩ := Outcomes.of_bind hr
      split at hr
      · cases hr
        exact ⟨.refl _, by simp⟩
      · split at hr
        · exact ⟨.deactivateObject hr, fun k hk =>
            Task.call_of_plain (State.deactivateObject_plain hr k hk)⟩
        · cases hr
          exact ⟨.refl _, by simp⟩
    · cases hr
      exact ⟨.refl _, by simp⟩
  obtain ⟨hframed, hidle⟩ := hrest
  have hpopped : s₁.invocations = s.invocations.erase c.object := by rw [hs₁]
  refine Turn.around hset (by rw [hs₁]) (by rw [hs₁]) (by rw [hs₁]) (by rw [hs₁]) (by rw [hs₁])
    hframed ?_ fun k' hk' d hd => ?_
  · rw [executed_idle hidle]
    exact .ends c (hframed.invocations.trans hpopped)
  · rw [hidle k' hk'] at hd
    cases hd

/-- A step of a thread that waits for nobody. -/
theorem Turn.runTask (hwait : k.waits = false) (hr : s.runTask w k = .ok (s', ls)) :
    Turn s s' k ls := by
  have hplain : s.Quiet w s' → k.executes = none → (∀ k' ∈ ls, k'.plain = true) →
      Turn s s' k ls := fun hq hk hls =>
    hq.framed.idle hk fun k' hk' => Task.call_of_plain (hls k' hk')
  cases k <;> simp only [State.runTask] at hr
  case deactivateObject p o etherealize cleanup =>
    exact (State.Framed.deactivateObject hr).idle rfl fun k hk =>
      Task.call_of_plain (State.deactivateObject_plain hr k hk)
  case release o =>
    obtain ⟨s₁, hs₁, hr⟩ := Outcomes.of_bind hr
    cases hr
    exact hplain (.release hs₁) rfl (by simp)
  case unlock p =>
    cases hr
    exact hplain .unlock rfl (by simp)
  case request c => exact .handleRequest hr
  case endUse c => exact .endUse hr
  case deactivate p etherealize caller =>
    have hq : s.Quiet w s' := .deactivate hr
    unfold State.deactivate at hr
    dsimp only at hr
    split at hr
    · exact hplain hq rfl (State.afterDeactivate_plain hr)
    · split at hr
      · exact hplain hq rfl (State.afterDeactivate_plain hr)
      · obtain ⟨s₁, hs₁, hr⟩ := Outcomes.of_bind hr
        cases hr
        exact hq.framed.idle rfl (by simp [Task.call])
  case traverse p rest inUse etherealize caller =>
    have hq : s.Quiet w s' := .traverse hr
    unfold State.traverse at hr
    split at hr
    · obtain ⟨x, -, hr⟩ := Outcomes.of_bind hr
      cases hr
      exact hq.framed.idle rfl (by simp [Task.call])
    · exact hplain hq rfl (State.afterDeactivate_plain hr)
  case destroy p etherealize =>
    have hq : s.Quiet w s' := .destroy (Except.ok.inj hr)
    refine hplain hq rfl (State.destroy_plain (Except.ok.inj hr))
  case destroyChildren p etherealize i =>
    exact hplain (.destroyChildren hr) rfl (State.destroyChildren_plain hr)
  case destroyEnd p wait =>
    obtain ⟨-, hr⟩ := Outcomes.of_guard hr
    cases hr
    exact hplain (.refl s) rfl (by simp)
  all_goals cases hwait

/-- A function of the application has returned. -/
theorem Turn.resumeTask {r : Reply} (hwait : k.waits = true)
    (hr : s.resumeTask w r k = .ok (s', ls)) : Turn s s' k ls := by
  have hplain : s.Quiet w s' → k.executes = none → (∀ k' ∈ ls, k'.plain = true) →
      Turn s s' k ls := fun hq hk hls =>
    hq.framed.idle hk fun k' hk' => Task.call_of_plain (hls k' hk')
  cases k <;> simp only [State.resumeTask] at hr
  case etherealize p o servant =>
    exact hplain (.callFinalize hr) rfl (State.callFinalize_plain hr)
  case finalize p o servant raised =>
    obtain ⟨s₁, hs₁, hr⟩ := Outcomes.of_bind hr
    cases hr
    exact hplain (.finalized hs₁) rfl (by simp)
  case incarnate c => exact .incarnated hr
  case preinvoke c => exact .preinvoked hr
  case method c cookie => exact .returned hr
  case postinvoke c cookie servant =>
    cases hr
    exact hplain (.refl s) rfl (by simp)
  all_goals cases hwait

end

/-- What every run keeps, and what the stack is while the threads agree. -/
structure State.Contexts (s : State) : Prop where
  formed : s.Formed
  sits : ∀ k ∈ s.pending, ∀ c ∈ k.call, c.Sits s
  queue : ∀ c ∈ s.queue, c.Sits s
  follows : SharedStack.Agreed s.executions → SharedStack.Follows s.executions s.invocations

section
variable {w : World} {s s' s₁ : State} {k : Task} {ts ts' ks ls : List Task} {c : Call}
variable {o p t : Nat} {rest : List (Nat × Task)}

/-- The objects of the requests that these tasks execute. -/
def executionsOf (tasks : List (Nat × Task)) : List (Nat × Nat) :=
  tasks.filterMap fun u => u.2.executes.map fun c => (u.1, c.object)

theorem own_executionsOf (tasks : List (Nat × Task)) (t : Nat) :
    SharedStack.own (executionsOf tasks) t =
      (executed ((tasks.filter fun u => u.1 = t).map (·.2))).map (·.object) := by
  induction tasks with
  | nil => rfl
  | cons u tasks ih =>
    obtain ⟨u, k⟩ := u
    by_cases hu : u = t
    · cases he : k.executes with
      | none => simpa [executionsOf, executed, hu, he] using ih
      | some c => simpa [executionsOf, executed, hu, he, SharedStack.own] using ih
    · cases he : k.executes with
      | none => simpa [executionsOf, executed, hu, he] using ih
      | some c => simpa [executionsOf, executed, hu, he, SharedStack.own] using ih

theorem State.own_executions (s : State) (t : Nat) :
    SharedStack.own s.executions t = (s.executing t).map (·.object) := own_executionsOf s.tasks t

theorem executionsOf_append (tasks tasks' : List (Nat × Task)) :
    executionsOf (tasks ++ tasks') = executionsOf tasks ++ executionsOf tasks' :=
  List.filterMap_append

theorem executionsOf_map (t : Nat) (ts : List Task) :
    executionsOf (ts.map (t, ·)) = (executed ts).map fun c => (t, c.object) := by
  induction ts with
  | nil => rfl
  | cons k ts ih =>
    cases he : k.executes with
    | none => simpa [executionsOf, executed, he] using ih
    | some c => simpa [executionsOf, executed, he] using ih

theorem executionsOf_perm {tasks tasks' : List (Nat × Task)} (h : tasks.Perm tasks') :
    (executionsOf tasks).Perm (executionsOf tasks') := h.filterMap _

/-- Behind a step: what the thread executes now comes before the rest. -/
theorem State.executions_push (s : State) (t : Nat) (ls : List Task) (rest : List (Nat × Task)) :
    (s.push t ls rest).executions =
      (executed ls).map (fun c => (t, c.object)) ++ executionsOf rest := by
  show executionsOf (ls.map (t, ·) ++ rest) = _
  rw [executionsOf_append, executionsOf_map]

theorem SharedStack.own_mine (cs : List Call) (t : Nat) (es : List (Nat × Nat)) :
    SharedStack.own (cs.map (fun c => (t, c.object)) ++ es) t =
      cs.map (·.object) ++ SharedStack.own es t := by
  rw [SharedStack.own_append]
  simp [SharedStack.own, List.filter_map, Function.comp_def]

theorem SharedStack.own_others (cs : List Call) {t u : Nat} (hu : u ≠ t) (es : List (Nat × Nat)) :
    SharedStack.own (cs.map (fun c => (t, c.object)) ++ es) u = SharedStack.own es u := by
  rw [SharedStack.own_append]
  simp [SharedStack.own, List.filter_map, Function.comp_def, Ne.symm hu]

/-- The stack after a step of a thread. `before` is what the thread had to execute in the task. -/
theorem State.Moves.follows {before after : List Call} {es es' rest : List (Nat × Nat)}
    (h : s.Moves s' before after) (hf : SharedStack.Follows es s.invocations)
    (hperm : es.Perm (before.map (fun c => (t, c.object)) ++ rest))
    (hown : ∀ u, SharedStack.own es u =
      SharedStack.own (before.map (fun c => (t, c.object)) ++ rest) u)
    (hes' : es' = after.map (fun c => (t, c.object)) ++ rest) (ha : SharedStack.Agreed es') :
    SharedStack.Follows es' s'.invocations := by
  subst hes'
  have hf₁ := hf.congr hperm.symm fun u => (hown u).symm
  cases h with
  | stays cs hi =>
    rw [hi]
    exact hf₁
  | starts c hi =>
    rw [hi]
    refine hf₁.push (i := t) ?_ (fun u hu => ?_) (.refl _) ha
    · rw [SharedStack.own_mine, SharedStack.own_mine]
      rfl
    · rw [SharedStack.own_others _ hu, SharedStack.own_others _ hu]
  | ends c hi =>
    rw [hi]
    refine hf₁.pop (i := t) ?_ (fun u hu => ?_) (.refl _) ha
    · rw [SharedStack.own_mine, SharedStack.own_mine]
      rfl
    · rw [SharedStack.own_others _ hu, SharedStack.own_others _ hu]

/-- The next task of a thread is what the thread executes first. -/
theorem State.executions_of_nextTask (h : nextTask t s.tasks = some (k, rest)) :
    s.executions.Perm ((executed [k]).map (fun c => (t, c.object)) ++ executionsOf rest) ∧
      ∀ u, SharedStack.own s.executions u = SharedStack.own
        ((executed [k]).map (fun c => (t, c.object)) ++ executionsOf rest) u := by
  constructor
  · have hp := executionsOf_perm (perm_of_nextTask h)
    have he : executionsOf ((t, k) :: rest) =
        (executed [k]).map (fun c => (t, c.object)) ++ executionsOf rest := by
      rw [← executionsOf_map, ← executionsOf_append]
      rfl
    rwa [he] at hp
  · intro u
    obtain ⟨hown, hothers⟩ := State.own_of_nextTask h
    rw [State.own_executions, State.executing]
    by_cases hu : u = t
    · subst hu
      rw [hown, SharedStack.own_mine, own_executionsOf]
      show (executed ([k] ++ _)).map _ = _
      rw [executed_append, List.map_append]
    · rw [hothers u hu, SharedStack.own_others _ hu, own_executionsOf]

theorem Call.Sits.framed (h : c.Sits s) (hg : s.nextObject ≤ s'.nextObject)
    (ho : ∀ o x', s'.objects o = some x' → o < s.nextObject →
      ∃ x, s.objects o = some x ∧ x'.poa = x.poa) : c.Sits s' := by
  refine ⟨Nat.lt_of_lt_of_le h.1 hg, fun x' hx' => ?_⟩
  obtain ⟨x, hx, hp⟩ := ho _ x' hx' h.1
  exact hp.trans (h.2 x hx)

theorem State.pending_push (s : State) (t : Nat) (ls : List Task) (rest : List (Nat × Task)) :
    (s.push t ls rest).pending = ls ++ rest.map (·.2) := by
  simp [State.push, State.pending, Function.comp_def]

/-- The thread has done its next task. -/
theorem State.Contexts.turn (h : s.Contexts) (hnext : nextTask t s.tasks = some (k, rest))
    (hagreed : SharedStack.Agreed s.executions) (ht : Turn s s' k ls) :
    (s'.push t ls rest).Contexts where
  formed := by
    have hf := ht.formed h.formed
    exact ⟨hf.bound, hf.listed, hf.entries, hf.gone⟩
  sits k' hk' c hc := by
    have hp := (perm_of_nextTask hnext).map (·.2)
    have hsits : c.Sits s := by
      rw [State.pending_push] at hk'
      rcases List.mem_append.mp hk' with hk' | hk'
      · exact h.sits k (hp.mem_iff.mpr (List.mem_cons_self ..)) c (ht.calls k' hk' c hc)
      · exact h.sits k' (hp.mem_iff.mpr (List.mem_cons_of_mem _ hk')) c hc
    exact hsits.framed ht.grown ht.old
  queue c hc := by
    have hc : c ∈ s.queue := by
      rw [← ht.queue]
      exact hc
    exact (h.queue c hc).framed ht.grown ht.old
  follows ha := by
    obtain ⟨hperm, hown⟩ := State.executions_of_nextTask hnext
    exact ht.moves.follows (h.follows hagreed) hperm hown (State.executions_push _ _ _ _) ha

/-- An operation that leaves these tasks behind. -/
structure Asked (s s' : State) (ls : List Task) : Prop where
  grown : s.nextObject ≤ s'.nextObject
  formed : s'.Formed
  old : ∀ o x', s'.objects o = some x' → o < s.nextObject →
    ∃ x, s.objects o = some x ∧ x'.poa = x.poa
  invocations : s'.invocations = s.invocations
  queue : ∀ c ∈ s'.queue, c ∈ s.queue ∨ c.Sits s'
  sits : ∀ k ∈ ls, ∀ c ∈ k.call, c ∈ s.queue ∨ c.Sits s'
  idle : executed ls = []

theorem State.Contexts.asked (h : s.Contexts) (ha : Asked s s' ls) : (s'.push t ls s.tasks).Contexts where
  formed := ⟨ha.formed.bound, ha.formed.listed, ha.formed.entries, ha.formed.gone⟩
  sits k hk c hc := by
    have hold : ∀ d : Call, d.Sits s → d.Sits s' := fun d hd => hd.framed ha.grown ha.old
    rw [State.pending_push] at hk
    rcases List.mem_append.mp hk with hk | hk
    · rcases ha.sits k hk c hc with hq | hs
      · exact hold c (h.queue c hq)
      · exact hs
    · exact hold c (h.sits k hk c hc)
  queue c hc := by
    rcases ha.queue c hc with hq | hs
    · exact (h.queue c hq).framed ha.grown ha.old
    · exact hs
  follows hagreed := by
    rw [State.executions_push, ha.idle, List.map_nil, List.nil_append] at hagreed ⊢
    show SharedStack.Follows _ s'.invocations
    rw [ha.invocations]
    exact h.follows hagreed

theorem State.Framed.asked (h : s.Framed s') (hf : s.Formed)
    (hls : ∀ k ∈ ls, ∀ c ∈ k.call, c ∈ s.queue ∨ c.Sits s') (hidle : executed ls = []) :
    Asked s s' ls where
  grown := h.grown
  formed := h.formed hf
  old := h.old
  invocations := h.invocations
  queue _ hc := .inl (h.queue ▸ hc)
  sits := hls
  idle := hidle

theorem Call.executed_tasks : executed c.tasks = [] := by
  unfold Call.tasks
  split <;> rfl

theorem Call.of_tasks {k : Task} {d : Call} (hk : k ∈ c.tasks) (hd : d ∈ k.call) : d = c := by
  unfold Call.tasks at hk
  rcases List.mem_cons.mp hk with rfl | hk
  · exact (Option.some.inj hd).symm
  · split at hk
    · rw [List.mem_singleton.mp hk] at hd
      cases hd
    · cases hk

theorem Asked.perform {op : Operation} {r : Result} (hf : s.Formed)
    (hr : s.perform w op = .ok (s', ls, r)) : Asked s s' ls := by
  by_cases hop : op.Requests
  · cases op <;> simp only [State.perform] at hr
    case invoke o opname =>
      obtain ⟨⟨s₁, tasks⟩, hs₁, hr⟩ := Outcomes.of_bind hr
      cases hr
      unfold State.invoke at hs₁
      obtain ⟨x, hx, hs₁⟩ := Outcomes.of_bind hs₁
      obtain ⟨-, hs₁⟩ := Outcomes.of_guard hs₁
      cases hs₁
      have hx := State.object_ok hx
      refine ⟨Nat.le_refl _, ⟨hf.bound, hf.listed, hf.entries, hf.gone⟩,
        fun o x' hx' _ => ⟨x', hx', rfl⟩, rfl, fun _ => .inl, fun k hk c hc => .inr ?_,
        Call.executed_tasks⟩
      rw [Call.of_tasks hk hc]
      refine ⟨hf.lt hx, fun y hy => ?_⟩
      cases hx.symm.trans hy
      rfl
    case incoming p oid opname =>
      obtain ⟨⟨s₁, tasks⟩, hs₁, hr⟩ := Outcomes.of_bind hr
      cases hr
      unfold State.incoming at hs₁
      obtain ⟨s₂, hs₂, hs₁⟩ := Outcomes.of_bind hs₁
      obtain ⟨⟨s₃, tasks⟩, hs₃, hs₁⟩ := Outcomes.of_bind hs₁
      cases hs₁
      have h₂ : s.Quiet w s₂ := .lock hs₂
      obtain ⟨s₄, hq, hcases⟩ := State.assign_ok (h₂.formed hf) hs₃
      have h₄ := (h₂.trans hq).framed
      have hf₄ := h₄.formed hf
      -- all that comes behind is the queue, the lock and the count of requests
      have hunlock : ∀ (q : List Call) (n : Nat),
          { State.unlock w { s₄ with queue := q } p with nextCall := n } =
            { State.unlock w s₄ p with queue := q, nextCall := n } := by
        intro q n
        unfold State.unlock
        split <;> rfl
      have h₅ : s.Framed (s₄.unlock w p) := h₄.trans (State.Quiet.unlock (w := w)).framed
      have hasked : ∀ (q : List Call) (ls : List Task),
          (∀ c ∈ q, c ∈ s.queue ∨ c.Sits (s₄.unlock w p)) →
          (∀ k ∈ ls, ∀ c ∈ k.call, c ∈ s.queue ∨ c.Sits (s₄.unlock w p)) → executed ls = [] →
          Asked s { s₄.unlock w p with queue := q, nextCall := s₂.nextCall + 1 } ls := by
        intro q ls hq hls hidle
        have hf₅ := h₅.formed hf
        exact ⟨h₅.grown, ⟨hf₅.bound, hf₅.listed, hf₅.entries, hf₅.gone⟩, h₅.old, h₅.invocations,
          hq, hls, hidle⟩
      rcases hcases with ⟨rfl, rfl⟩ | ⟨o, ho, hpoa, hcases⟩
      · have h := hasked s₃.queue [] (fun c hc => .inl (h₄.queue ▸ hc)) (by simp) rfl
        rw [← hunlock] at h
        exact hq.nextCall ▸ h
      · have hsits : Call.Sits (s₄.unlock w p) ⟨p, o, opname, true, s₂.nextCall⟩ := by
          have hfr := (State.Quiet.unlock (w := w) (s := s₄) (p := p)).framed
          exact Call.Sits.framed ⟨ho, hpoa⟩ hfr.grown hfr.old
        rcases hcases with ⟨rfl, rfl⟩ | ⟨rfl, rfl⟩
        · have h := hasked s₃.queue _ (fun c hc => .inl (h₄.queue ▸ hc))
            (fun k hk c hc => .inr (by rw [Call.of_tasks hk hc]; exact hsits))
            (Call.executed_tasks)
          rw [← hunlock] at h
          exact hq.nextCall ▸ h
        · have h := hasked (s₄.queue ++ [⟨p, o, opname, true, s₂.nextCall⟩]) [] (fun c hc => ?_)
            (by simp) rfl
          · rw [← hunlock] at h
            exact hq.nextCall ▸ h
          · rcases List.mem_append.mp hc with hc | hc
            · exact .inl (h₄.queue ▸ hc)
            · rw [List.mem_singleton.mp hc]
              exact .inr hsits
    case serve i =>
      split at hr
      · cases hr
        exact (State.Framed.refl s).asked hf (by simp) rfl
      · rename_i c hc
        cases hr
        refine ⟨Nat.le_refl _, ⟨hf.bound, hf.listed, hf.entries, hf.gone⟩,
          fun o x' hx' _ => ⟨x', hx', rfl⟩, rfl, fun d hd => .inl (List.mem_of_mem_eraseIdx hd),
          fun k hk d hd => .inl ?_, Call.executed_tasks⟩
        rw [Call.of_tasks hk hd]
        exact List.mem_of_getElem? hc
    all_goals cases hop
  · have hq : s.Quiet w s' := .perform hf hop hr
    have hidle : ∀ k ∈ ls, k.call = none := by
      intro k hk
      rcases State.perform_tasks hf hop hr k hk with hk | ⟨p, o, rfl, -⟩
      · exact Task.call_of_plain hk
      · rfl
    refine hq.framed.asked hf (fun k hk c hc => ?_) (executed_idle hidle)
    rw [hidle k hk] at hc
    cases hc

theorem State.Contexts.execute {e : Event} (h : s.Contexts)
    (hagreed : SharedStack.Agreed s.executions) (hr : s.execute w e = .ok s') : s'.Contexts := by
  cases e with
  | call t op =>
    unfold State.execute at hr
    dsimp only at hr
    split at hr
    · obtain ⟨⟨s₁, ls, r⟩, hs₁, hr⟩ := Outcomes.of_bind hr
      cases hr
      exact h.asked (.perform h.formed hs₁)
    · cases hr
      exact h
  | run t =>
    unfold State.execute at hr
    dsimp only at hr
    split at hr
    · rename_i k rest hnext
      split at hr
      · cases hr
        exact h
      · rename_i hk
        obtain ⟨⟨s₁, ls⟩, hs₁, hr⟩ := Outcomes.of_bind hr
        cases hr
        exact h.turn hnext hagreed (.runTask (by simpa using hk) hs₁)
    · cases hr
      exact h
  | answer t r =>
    unfold State.execute at hr
    dsimp only at hr
    split at hr
    · rename_i k rest hnext
      split at hr
      · rename_i hk
        obtain ⟨⟨s₁, ls⟩, hs₁, hr⟩ := Outcomes.of_bind hr
        cases hr
        exact h.turn hnext hagreed (.resumeTask hk hs₁)
      · cases hr
        exact h
    · cases hr
      exact h

theorem State.Contexts.step {e : Event} (h : s.Contexts)
    (hagreed : SharedStack.Agreed s.executions) : (s.step w e).Contexts := by
  unfold State.step
  split
  · exact h
  · split
    · rename_i s₁ hs₁
      exact h.execute hagreed hs₁
    · exact h
    · exact ⟨⟨h.formed.bound, h.formed.listed, h.formed.entries, h.formed.gone⟩, h.sits, h.queue,
        h.follows⟩

theorem State.contexts_init : State.init.Contexts where
  formed := State.formed_init
  sits _ hk := by cases hk
  queue _ hc := by cases hc
  follows _ := SharedStack.follows_nil

end

section
variable (w : World) (s : State) (t : Nat)

def State.uses (servant o : Nat) : Bool := (s.objects o).any fun x => x.servant = some servant

/-- The innermost request that the thread executes on the servant. -/
def State.innermost (servant : Nat) : Option Call :=
  (s.executing t).find? fun c => s.uses servant c.object

/-- The object is still there, with its id. -/
def State.Named (o : Nat) : Prop := ∃ x ∈ s.objects o, x.objectId ≠ none

instance (o : Nat) : Decidable (s.Named o) := by unfold State.Named; infer_instance

/-- `servant_to_id` comes to the object of the request `c`: as the only one of the servant, or as
the outermost of the requests being executed on it. -/
def State.Reaches (p servant : Nat) (c : Call) : Prop :=
  (if (w.policies p).retain ∧ (w.policies p).uniqueId then (s.privates servant).head? = some c.object
  else ¬ ((w.policies p).retain ∧ (w.policies p).implicitActivation) ∧
    (∀ e ∈ s.executions, s.objects e.2 ≠ none) ∧
    ∀ u ∈ s.tasks.map (·.1),
      ∀ d ∈ ((s.executing u).filter fun d => s.uses servant d.object).getLast?, d.object = c.object)

instance (p servant : Nat) (c : Call) : Decidable (s.Reaches w p servant c) := by
  unfold State.Reaches; infer_instance

/-- What the questions of a thread need. -/
def State.Asks : Operation → Prop
  | .currentGetPOA => s.executing t ≠ [] ∧
      ∀ c ∈ (s.executing t).head?, s.objects c.object ≠ none
  | .currentGetObjectId => (s.executing t = [] → s.executions = []) ∧
      ∀ c ∈ (s.executing t).head?, s.Named c.object
  | .servantToId p (some servant) _ => ∀ c ∈ s.innermost t servant,
      ((w.policies p).processing = .defaultServant ∨ ((w.policies p).retain ∧
        ((w.policies p).uniqueId ∨ (w.policies p).implicitActivation))) ∧
      s.Named c.object ∧ s.Reaches w p servant c
  | .servantToReference p (some servant) _ => ∀ c ∈ s.innermost t servant,
      ((w.policies p).retain ∧ (w.policies p).uniqueId) ∧
      (s.privates servant).head? = some c.object
  | _ => True

instance (op : Operation) : Decidable (s.Asks w t op) := by
  unfold State.Asks
  induction op using Operation.casesOn with
  | servantToId p servant random => induction servant using Option.casesOn <;> infer_instance
  | servantToReference p servant random =>
    induction servant using Option.casesOn <;> infer_instance
  | _ => infer_instance

/-- What the questions of a thread are answered. -/
def State.Told : Operation → Prop
  | .currentGetPOA => ∀ c ∈ (s.executing t).head?,
      s.perform w .currentGetPOA = .ok (s, [], .poa c.poa)
  | .currentGetObjectId =>
      (s.executing t = [] → s.perform w .currentGetObjectId = .ok (s, [], .noContext)) ∧
      ∀ c ∈ (s.executing t).head?, ∃ oid, (s.objects c.object).bind (·.objectId) = some oid ∧
        s.perform w .currentGetObjectId = .ok (s, [], .objectId oid)
  | .servantToId p (some servant) random => ∀ c ∈ s.innermost t servant,
      s.perform w (.servantToId p (some servant) random) = .error .blocked ∨
      ∃ s' oid, (s.objects c.object).bind (·.objectId) = some oid ∧
        s.perform w (.servantToId p (some servant) random) = .ok (s', [], .objectId oid)
  | .servantToReference p (some servant) random => ∀ c ∈ s.innermost t servant,
      s.perform w (.servantToReference p (some servant) random) = .error .blocked ∨
      ∃ s', s.perform w (.servantToReference p (some servant) random) =
        .ok (s', [], .reference c.object)
  | _ => True

/-- The threads agree on the object they are at, and the questions are in order. -/
def State.CarefulContext (e : Event) : Prop :=
  SharedStack.Agreed s.executions ∧
  match e with
  | .call t op => s.Asks w t op
  | _ => True

instance (e : Event) : Decidable (s.CarefulContext w e) := by
  unfold State.CarefulContext; induction e using Event.casesOn <;> infer_instance

/-- The top of the stack is the innermost request of every thread that executes one, and the
questions are answered for the thread that asks. -/
def State.Answers (e : Event) : Prop :=
  (∀ t, ∀ c ∈ (s.executing t).head?, s.invocationStackPeek = some c.object) ∧
  match e with
  | .call t op => s.Told w t op
  | _ => True

end

section
variable {w : World} {s s' : State} {c : Call} {t p servant : Nat}

/-- The search goes to the end of the stack. -/
theorem State.foldl_objectId (s : State) (servant : Nat) (os : List Nat) (found : Option Octets) :
    (os.filterMap s.objects).foldl
      (fun found x => if x.servant = some servant then x.objectId else found) found =
    match (os.filter (s.uses servant)).getLast? with
    | some o => (s.objects o).bind (·.objectId)
    | none => found := by
  induction os generalizing found with
  | nil => rfl
  | cons o os ih =>
    cases hx : s.objects o with
    | none =>
      have hnot : s.uses servant o = false := by simp [State.uses, hx]
      rw [List.filterMap_cons_none hx, List.filter_cons_of_neg (by simp [hnot])]
      exact ih found
    | some x =>
      rw [List.filterMap_cons_some hx, List.foldl_cons, ih]
      by_cases hsv : x.servant = some servant
      · have huses : s.uses servant o = true := by simp [State.uses, hx, hsv]
        rw [List.filter_cons_of_pos huses, if_pos hsv, List.getLast?_cons]
        cases (os.filter (s.uses servant)).getLast? <;> simp [hx]
      · have hnot : s.uses servant o = false := by simp [State.uses, hx, hsv]
        rw [List.filter_cons_of_neg (by simp [hnot]), if_neg hsv]

theorem State.head_executions (h : c ∈ (s.executing t).head?) :
    c.object ∈ (SharedStack.own s.executions t).head? := by
  rw [State.own_executions, List.head?_map, Option.mem_def.mp h]
  rfl

/-- The object of a request that is executed is on the stack. -/
theorem State.Contexts.peek (h : s.Contexts) (ha : SharedStack.Agreed s.executions)
    (hc : c ∈ (s.executing t).head?) : s.invocationStackPeek = some c.object :=
  (h.follows ha).head (State.head_executions hc)

theorem State.pending_of_executing (h : c ∈ s.executing t) : ∃ k ∈ s.pending, c ∈ k.call := by
  obtain ⟨k, hk, hc⟩ := List.mem_filterMap.mp h
  obtain ⟨u, hu, rfl⟩ := List.mem_map.mp hk
  refine ⟨u.2, List.mem_map.mpr ⟨u, (List.mem_filter.mp hu).1, rfl⟩, ?_⟩
  cases he : u.2 with
  | method d cookie =>
    rw [he] at hc
    exact hc
  | endUse d =>
    rw [he] at hc
    exact hc
  | _ =>
    rw [he] at hc
    cases hc

theorem State.Contexts.getPOA (h : s.Contexts) (ha : SharedStack.Agreed s.executions)
    (hc : c ∈ (s.executing t).head?) (hx : s.objects c.object ≠ none) :
    s.perform w .currentGetPOA = .ok (s, [], .poa c.poa) := by
  obtain ⟨x, hx⟩ := Option.ne_none_iff_exists'.mp hx
  obtain ⟨k, hk, hkc⟩ := State.pending_of_executing (List.mem_of_mem_head? hc)
  have hpoa : x.poa = c.poa := (h.sits k hk c hkc).2 x hx
  simp only [State.perform, State.currentGetPOA, h.peek ha hc, State.object, hx, Outcomes.ok_bind,
    hpoa]

theorem State.Contexts.getObjectId (h : s.Contexts) (ha : SharedStack.Agreed s.executions)
    (hc : c ∈ (s.executing t).head?) (hx : s.Named c.object) :
    ∃ oid, (s.objects c.object).bind (·.objectId) = some oid ∧
      s.perform w .currentGetObjectId = .ok (s, [], .objectId oid) := by
  obtain ⟨x, hx, hid⟩ := hx
  obtain ⟨oid, hid⟩ := Option.ne_none_iff_exists'.mp hid
  have hx : s.objects c.object = some x := hx
  refine ⟨oid, by rw [hx]; exact hid, ?_⟩
  simp only [State.perform, State.currentGetObjectId, h.peek ha hc, State.object, hx,
    Outcomes.ok_bind, hid]

/-- Where the thread has a request on the servant, and no thread has another object at the
outermost place, the search finds that object. -/
theorem State.Contexts.lookup (h : s.Contexts) (ha : SharedStack.Agreed s.executions)
    (hc : c ∈ s.innermost t servant) (hthere : ∀ e ∈ s.executions, s.objects e.2 ≠ none)
    (hlast : ∀ u ∈ s.tasks.map (·.1),
      ∀ d ∈ ((s.executing u).filter fun d => s.uses servant d.object).getLast?,
        d.object = c.object) :
    s.invocationStackLookupObjid servant = .ok ((s.objects c.object).bind (·.objectId)) := by
  have hf := h.follows ha
  have hmem : c ∈ s.executing t := List.mem_of_find?_eq_some hc
  have huses : s.uses servant c.object = true := by
    have := List.find?_some hc
    simpa using this
  have hown : c.object ∈ SharedStack.own s.executions t := by
    rw [State.own_executions]
    exact List.mem_map.mpr ⟨c, hmem, rfl⟩
  have hfound : (s.invocations.filter (s.uses servant)).getLast? = some c.object := by
    refine hf.getLast (s.uses servant) hown huses fun u b hb => ?_
    rw [State.own_executions, List.filter_map, List.getLast?_map] at hb
    obtain ⟨d, hd, rfl⟩ := Option.map_eq_some_iff.mp hb
    have hu : u ∈ s.tasks.map (·.1) := by
      have hdm := (List.mem_filter.mp (List.mem_of_mem_getLast? hd)).1
      obtain ⟨k, hk, -⟩ := List.mem_filterMap.mp hdm
      obtain ⟨v, hv, -⟩ := List.mem_map.mp hk
      exact List.mem_map.mpr ⟨v, (List.mem_filter.mp hv).1, by simpa using (List.mem_filter.mp hv).2⟩
    exact hlast u hu d hd
  unfold State.invocationStackLookupObjid
  rw [if_neg]
  · rw [State.foldl_objectId, hfound]
  · rintro ⟨o, ho, hnone⟩
    obtain ⟨e, he, rfl⟩ := List.mem_map.mp (hf.perm.mem_iff.mp ho)
    exact hthere e he hnone

theorem State.Contexts.servantToId (h : s.Contexts) (ha : SharedStack.Agreed s.executions)
    {random : Octets} (hask : s.Asks w t (.servantToId p (some servant) random)) :
    s.Told w t (.servantToId p (some servant) random) := by
  intro c hc
  obtain ⟨hpolicy, ⟨x, hx, hid⟩, hreach⟩ := hask c hc
  obtain ⟨oid, hid⟩ := Option.ne_none_iff_exists'.mp hid
  have hx : s.objects c.object = some x := hx
  have huses : s.uses servant c.object = true := by
    have := List.find?_some hc
    simpa using this
  have hsv : x.servant = some servant := by simpa [State.uses, hx] using huses
  cases hl : s.lock w p with
  | error stop =>
    rw [State.lock_error hl] at hl
    exact .inl (by simp only [State.perform, State.poaServantToId, hl, Outcomes.error_bind])
  | ok s₁ =>
    have hobjects := State.lock_objects hl
    have hprivates := State.lock_privates hl
    have hstack : s₁.invocations = s.invocations :=
      (State.Quiet.lock (w := w) hl).invocations
    have hservant : s₁.servantId w p servant random = .ok (s₁, some oid) := by
      unfold State.Reaches at hreach
      unfold State.servantId State.uniqueObject
      rw [hprivates]
      split at hreach
      · rename_i hunique
        simp only [hreach, if_pos hunique, State.object, hobjects, hx, Outcomes.ok_bind, hsv,
          if_pos]
        simp only [State.key, hobjects, hx, Option.bind_some, hid]
      · rename_i hunique
        obtain ⟨hnot, hthere, hlast⟩ := hreach
        have hfound : s₁.invocationStackLookupObjid servant = .ok (some oid) := by
          have := h.lookup ha hc hthere hlast
          rw [hx, Option.bind_some, hid] at this
          unfold State.invocationStackLookupObjid at this ⊢
          rwa [hstack, hobjects]
        have hsearch : ∀ b : Prop, [Decidable b] → ¬ ((w.policies p).retain ∧
            (w.policies p).implicitActivation ∧ b) := fun b _ hb => hnot ⟨hb.1, hb.2.1⟩
        cases (s.privates servant).head? <;>
          simp only [if_neg hunique, Outcomes.ok_bind, if_neg (hsearch _), hfound]
    refine .inr ⟨s₁.unlock w p, oid, by rw [hx]; exact hid, ?_⟩
    simp only [State.perform, State.poaServantToId, hl, Outcomes.ok_bind, not_not.mpr hpolicy,
      if_false, hservant, Option.elim]

theorem State.servantToReference_told {random : Octets}
    (hask : s.Asks w t (.servantToReference p (some servant) random)) :
    s.Told w t (.servantToReference p (some servant) random) := by
  intro c hc
  obtain ⟨hpolicy, hhead⟩ := hask c hc
  have huses : s.uses servant c.object = true := by
    have := List.find?_some hc
    simpa using this
  obtain ⟨x, hx, hsv⟩ : ∃ x, s.objects c.object = some x ∧ x.servant = some servant := by
    cases hx : s.objects c.object with
    | none => simp [State.uses, hx] at huses
    | some x => exact ⟨x, rfl, by simpa [State.uses, hx] using huses⟩
  cases hl : s.lock w p with
  | error stop =>
    rw [State.lock_error hl] at hl
    exact .inl (by simp only [State.perform, State.poaServantToReference, hl, Outcomes.error_bind])
  | ok s₁ =>
    have hobjects := State.lock_objects hl
    have hprivates := State.lock_privates hl
    obtain ⟨s₂, hs₂⟩ : ∃ s₂, s₁.referenceFor c.object = .ok s₂ := by
      unfold State.referenceFor State.duplicateReference State.objToRef State.object
      rw [hobjects, hx]
      cases hr : x.objref with
      | none => exact ⟨_, by simp only [Outcomes.ok_bind, hr, hsv]; rfl⟩
      | some n => exact ⟨_, by simp only [Outcomes.ok_bind, hr]; rfl⟩
    refine .inr ⟨s₂.unlock w p, ?_⟩
    simp only [State.perform, State.poaServantToReference, hl, Outcomes.ok_bind,
      State.servantReference, hprivates, hhead, hpolicy]
    simp only [and_self, true_or, not_true_eq_false, if_false, if_true]
    rw [hs₂]
    rfl

theorem State.Contexts.answers {e : Event} (h : s.Contexts) (hc : s.CarefulContext w e) :
    s.Answers w e := by
  obtain ⟨ha, hask⟩ := hc
  refine ⟨fun t c hc => h.peek ha hc, ?_⟩
  cases e with
  | run t => trivial
  | answer t r => trivial
  | call t op =>
    cases op with
    | currentGetPOA =>
      exact fun c hc => h.getPOA ha hc (hask.2 c hc)
    | currentGetObjectId =>
      refine ⟨fun hnone => ?_, fun c hc => h.getObjectId ha hc (hask.2 c hc)⟩
      have hempty : s.invocations = [] := by
        have hp := (h.follows ha).perm
        rw [hask.1 hnone] at hp
        exact hp.eq_nil
      simp only [State.perform, State.currentGetObjectId, State.invocationStackPeek, hempty,
        List.head?_nil, Outcomes.ok_bind]
    | servantToId p servant random =>
      cases servant with
      | none => trivial
      | some servant => exact h.servantToId ha hask
    | servantToReference p servant random =>
      cases servant with
      | none => trivial
      | some servant => exact State.servantToReference_told hask
    | _ => trivial

end

/-- One POA with a default servant, in a process with threads. -/
def sharedWorld : World where
  threadSafe := true
  threadIo := false
  endian := .little
  policies := fun _ => ⟨false, false, true, false, false, .defaultServant⟩
  manager := fun _ => 0
  parent := fun _ => none
  classInfo := fun _ => ⟨[], fun _ => true, fun _ => false, false⟩

/-- Two references, and a method that runs at the first of them. -/
def atFirst : List Event :=
  [.call 0 (.createPOA 0), .call 0 (.setServant 0 7), .call 0 (.managerActivate 0),
    .call 0 (.createReference 0 true [1, 2, 3, 4]), .call 0 (.createReference 0 true [1, 2, 3, 4]),
    .call 0 .currentGetObjectId, .call 0 (.invoke 0 3), .run 0]

/-- The method invokes the other object, and later another thread is at the first object too. -/
def nestedAndShared : List Event := atFirst ++
  [.call 0 .currentGetObjectId, .call 0 (.servantToId 0 (some 7) []), .call 0 (.invoke 1 4), .run 0,
    .call 0 .currentGetPOA, .answer 0 ⟨none, 0, false⟩, .run 0, .run 0, .call 1 (.invoke 0 3),
    .run 1, .call 1 .currentGetObjectId, .answer 0 ⟨none, 0, false⟩, .run 0, .run 0,
    .call 1 .currentGetObjectId, .answer 1 ⟨none, 0, false⟩, .run 1, .run 1, .run 1]

/-- Another thread is at the second object. -/
def atTwo : List Event := atFirst ++ [.call 1 (.invoke 1 3), .run 1]

end ORBit2.PortableServer
