import ORBit2.ActiveObjectMap
import ORBit2.PoaFrame

/-! Servant locators in all runs: what `preinvoke` returns, what is dispatched to it, and the
`postinvoke` behind it. -/

set_option autoImplicit false

namespace ORBit2.PortableServer

/-- The request of a visit. -/
def Visit.number : Visit → Nat
  | .preinvoke n _ _ _ _ | .dispatch n _ | .postinvoke n _ _ _ _ => n

def State.visitsOf (s : State) (n : Nat) : List Visit := s.visits.filter fun v => v.number = n

/-- The request with this number waits, or its method has not returned. -/
def Task.underWay (n : Nat) : Task → Nat
  | .request c | .incarnate c | .preinvoke c | .method c _ => if c.number = n then 1 else 0
  | _ => 0

/-- The method of a request at the object runs. -/
def Task.runsOn (o : Nat) : Task → Nat
  | .method c _ => if c.object = o then 1 else 0
  | _ => 0

@[grind =] def underWay (n : Nat) (ts : List Task) : Nat := (ts.map (Task.underWay n)).sum

@[grind =] def runsOn (o : Nat) (ts : List Task) : Nat := (ts.map (Task.runsOn o)).sum

def queued (n : Nat) (cs : List Call) : Nat := cs.countP fun c => c.number = n

@[simp] theorem underWay_cons (n : Nat) (k : Task) (ts : List Task) :
    underWay n (k :: ts) = k.underWay n + underWay n ts := by simp [underWay]

@[simp] theorem underWay_append (n : Nat) (ts ts' : List Task) :
    underWay n (ts ++ ts') = underWay n ts + underWay n ts' := by simp [underWay]

@[simp] theorem runsOn_cons (o : Nat) (k : Task) (ts : List Task) :
    runsOn o (k :: ts) = k.runsOn o + runsOn o ts := by simp [runsOn]

@[simp] theorem runsOn_append (o : Nat) (ts ts' : List Task) :
    runsOn o (ts ++ ts') = runsOn o ts + runsOn o ts' := by simp [runsOn]

/-- The object of a request belongs to the POA of the request. -/
def Call.Sits (s : State) (c : Call) : Prop :=
  c.object < s.nextObject ∧ ∀ x, s.objects c.object = some x → x.poa = c.poa

/-- The object does not belong to a servant locator's POA. -/
def State.Unlocated (w : World) (s : State) (o : Nat) : Prop :=
  o < s.nextObject ∧ ∀ x, s.objects o = some x → ¬ w.Locates x.poa

/-- The request is with the servant that its own `preinvoke` returned. -/
def State.Served (s : State) (c : Call) (cookie : Nat) (dispatched : Bool) : Prop :=
  ∃ x oid servant, s.objects c.object = some x ∧ x.servant = some servant ∧
    x.objectId = some oid ∧ s.visitsOf c.number =
      .preinvoke c.number oid c.opname cookie servant ::
        if dispatched then [.dispatch c.number servant] else []

/-- A request has come to its end. Only at a POA without servant locator it saw none. -/
def Finished (n : Nat) (vs : List Visit) : Prop :=
  (∃ servant, vs = [.dispatch n servant]) ∨ ∃ oid opname cookie servant,
    vs = [.preinvoke n oid opname cookie servant, .dispatch n servant,
      .postinvoke n oid opname cookie servant] ∨
    vs = [.preinvoke n oid opname cookie servant, .postinvoke n oid opname cookie servant]

section
variable (w : World) (D : Nat → Bool) (s : State)

/-- What holds of a task. `D` tells the requests whose dispatch has been seen. -/
def Task.Stands : Task → Prop
  | .deactivateObject _ o _ _ => s.Unlocated w o
  | .traverse _ rest _ _ _ => ∀ o ∈ rest, s.Unlocated w o
  | .request c => c.Sits s ∧ s.visitsOf c.number = []
  | .incarnate c => c.Sits s ∧ s.visitsOf c.number = [] ∧ ¬ w.Locates c.poa
  | .preinvoke c => c.Sits s ∧ s.visitsOf c.number = [] ∧ w.Locates c.poa ∧
      (s.poas c.poa).servantManager = true
  | .method c cookie => c.Sits s ∧
      (w.Locates c.poa → (s.poas c.poa).servantManager = true ∧ s.Served c cookie (D c.number)) ∧
      (¬ w.Locates c.poa → s.visitsOf c.number = [] ∨
        ∃ servant, s.visitsOf c.number = [.dispatch c.number servant])
  | .endUse c => c.Sits s
  | _ => True

/-- The invariant, with the pending tasks of all threads in any order. -/
structure Locating (ts : List Task) : Prop where
  formed : s.Formed
  unasked : ∀ o x, s.objects o = some x → w.Locates x.poa → x.life.deactivateDo = false
  linked : ∀ o x, s.objects o = some x → w.Locates x.poa → ∀ sv,
    (s.privates sv).count o = if x.servant = some sv then 1 else 0
  running : ∀ o x, s.objects o = some x → w.Locates x.poa →
    runsOn o ts = if x.servant = none then 0 else 1
  stands : ∀ k ∈ ts, k.Stands w D s
  queue : ∀ c ∈ s.queue, c.Sits s ∧ s.visitsOf c.number = []
  once : ∀ n, underWay n ts + queued n s.queue ≤ if n < s.nextCall then 1 else 0
  unseen : ∀ n, s.nextCall ≤ n → s.visitsOf n = []
  finished : ∀ n, s.visitsOf n = [] ∨ 0 < underWay n ts ∨ Finished n (s.visitsOf n)

end

/-- The servant of the object is the one that these visits of the request are about. -/
def State.Saw (s s' : State) (c : Call) (cookie : Nat)
    (rest : Octets → Nat → List Visit → Prop) : Prop :=
  ∃ x oid servant vs, s.objects c.object = some x ∧ x.servant = some servant ∧
    x.objectId = some oid ∧
    s'.visitsOf c.number = .preinvoke c.number oid c.opname cookie servant :: vs ∧
    rest oid servant vs

section
variable {w : World} {D : Nat → Bool} {s s' s₁ : State} {k : Task} {ts ts' ks ls : List Task}
variable {c : Call} {o p : Nat} {x x' : POAObject}

theorem State.visitsOf_congr (hv : s'.visits = s.visits) (n : Nat) :
    s'.visitsOf n = s.visitsOf n := by unfold State.visitsOf; rw [hv]

/-- One more visit. -/
theorem State.visitsOf_append {v : Visit} (hv : s'.visits = s.visits ++ [v]) (n : Nat) :
    s'.visitsOf n = if v.number = n then s.visitsOf n ++ [v] else s.visitsOf n := by
  unfold State.visitsOf
  rw [hv, List.filter_append]
  split
  · rename_i h
    simp [h]
  · rename_i h
    simp [h]

theorem Call.Sits.steady (h : c.Sits s) (hst : s.Steady w s') : c.Sits s' := by
  refine ⟨Nat.lt_of_lt_of_le h.1 hst.grown, fun x' hx' => ?_⟩
  obtain ⟨x, hx, hp, -⟩ := hst.old _ x' hx' h.1
  exact hp.trans (h.2 x hx)

theorem State.Unlocated.steady (h : s.Unlocated w o) (hst : s.Steady w s') :
    s'.Unlocated w o := by
  refine ⟨Nat.lt_of_lt_of_le h.1 hst.grown, fun x' hx' => ?_⟩
  obtain ⟨x, hx, hp, -⟩ := hst.old _ x' hx' h.1
  rw [hp]
  exact h.2 x hx

theorem State.Served.steady {cookie : Nat} {dispatched : Bool} (h : s.Served c cookie dispatched)
    (hf : s.Formed) (hloc : w.Locates c.poa) (hc : c.Sits s) (hst : s.Steady w s')
    (hv : s'.visitsOf c.number = s.visitsOf c.number) : s'.Served c cookie dispatched := by
  obtain ⟨x, oid, servant, hx, hsv, hid, hvis⟩ := h
  have hloc' : w.Locates x.poa := (hc.2 x hx).symm ▸ hloc
  obtain ⟨x', hx', hid'⟩ := hst.served hf _ x hx hloc' (by simp [hsv]) (by simp [hid])
  obtain ⟨y, hy, -, hl⟩ := hst.old _ x' hx' hc.1
  cases hx.symm.trans hy
  exact ⟨x', oid, servant, hx', (hl hloc').1.trans hsv, hid'.trans hid, hv.trans hvis⟩

/-- A change of the state, and of the visits of other requests. -/
theorem Task.Stands.steady {D' : Nat → Bool} (h : k.Stands w D s) (hf : s.Formed)
    (hst : s.Steady w s') (hv : ∀ n, k.underWay n ≠ 0 → s'.visitsOf n = s.visitsOf n)
    (hD : ∀ n, k.underWay n ≠ 0 → D' n = D n) : k.Stands w D' s' := by
  cases k with
  | deactivateObject p o etherealize cleanup => exact State.Unlocated.steady h hst
  | traverse p rest inUse etherealize caller =>
    exact fun o ho => State.Unlocated.steady (h o ho) hst
  | request c =>
    have hv := hv c.number (by simp [Task.underWay])
    exact ⟨h.1.steady hst, hv.trans h.2⟩
  | incarnate c =>
    have hv := hv c.number (by simp [Task.underWay])
    exact ⟨h.1.steady hst, hv.trans h.2.1, h.2.2⟩
  | preinvoke c =>
    have hv := hv c.number (by simp [Task.underWay])
    exact ⟨h.1.steady hst, hv.trans h.2.1, h.2.2.1, hst.managed _ h.2.2.2⟩
  | method c cookie =>
    have hv := hv c.number (by simp [Task.underWay])
    have hD := hD c.number (by simp [Task.underWay])
    refine ⟨h.1.steady hst, fun hloc => ?_, fun hloc => ?_⟩
    · obtain ⟨hm, hserved⟩ := h.2.1 hloc
      rw [hD]
      exact ⟨hst.managed _ hm, hserved.steady hf hloc h.1 hst hv⟩
    · rw [hv]
      exact h.2.2 hloc
  | endUse c => exact Call.Sits.steady h hst
  | _ => trivial

theorem runsOn_eq_zero (h : ∀ c cookie, Task.method c cookie ∈ ts → c.object ≠ o) :
    runsOn o ts = 0 := by
  induction ts with
  | nil => rfl
  | cons k ts ih =>
    have ih := ih fun c cookie hc => h c cookie (List.mem_cons_of_mem _ hc)
    cases k with
    | method c cookie =>
      have hne := h c cookie (List.mem_cons_self ..)
      simp [Task.runsOn, hne, ih]
    | _ => simp [Task.runsOn, ih]

theorem not_runs_of_runsOn_eq_zero (h : runsOn o ts = 0) :
    ∀ c cookie, Task.method c cookie ∈ ts → c.object ≠ o := by
  intro c cookie hmem ho
  induction ts with
  | nil => cases hmem
  | cons k ts ih =>
    rw [runsOn_cons] at h
    rcases List.mem_cons.mp hmem with rfl | hmem
    · simp [Task.runsOn, ho] at h
    · exact ih (by omega) hmem

/-- Nothing happens to a servant locator. -/
theorem Locating.steady (h : Locating w D s ts) (hst : s.Steady w s') (hv : s'.visits = s.visits)
    (hq : s'.queue = s.queue) (hn : s'.nextCall = s.nextCall) : Locating w D s' ts where
  formed := hst.formed h.formed
  unasked o x' hx' hloc := by
    by_cases ho : o < s.nextObject
    · obtain ⟨x, hx, hp, hl⟩ := hst.old o x' hx' ho
      rw [hp] at hloc
      exact (hl hloc).2.1 (h.unasked o x hx hloc)
    · exact (hst.new h.formed o x' hx' (by omega) hloc).2.1
  linked o x' hx' hloc sv := by
    by_cases ho : o < s.nextObject
    · obtain ⟨x, hx, hp, hl⟩ := hst.old o x' hx' ho
      rw [hp] at hloc
      rw [(hl hloc).2.2 sv, (hl hloc).1]
      exact h.linked o x hx hloc sv
    · obtain ⟨hsv, -, hnot⟩ := hst.new h.formed o x' hx' (by omega) hloc
      rw [hsv, List.count_eq_zero_of_not_mem (hnot sv)]
      rfl
  running o x' hx' hloc := by
    by_cases ho : o < s.nextObject
    · obtain ⟨x, hx, hp, hl⟩ := hst.old o x' hx' ho
      rw [hp] at hloc
      rw [(hl hloc).1]
      exact h.running o x hx hloc
    · rw [(hst.new h.formed o x' hx' (by omega) hloc).1]
      refine runsOn_eq_zero fun c cookie hc heq => ho ?_
      rw [← heq]
      exact (h.stands _ hc).1.1
  stands k hk := (h.stands k hk).steady h.formed hst (fun n _ => State.visitsOf_congr hv n)
    fun _ _ => rfl
  queue c hc := by
    rw [hq] at hc
    obtain ⟨hsits, hvis⟩ := h.queue c hc
    exact ⟨hsits.steady hst, (State.visitsOf_congr hv _).trans hvis⟩
  once n := by
    rw [hq, hn]
    exact h.once n
  unseen n hle := by
    rw [State.visitsOf_congr hv]
    exact h.unseen n (hn ▸ hle)
  finished n := by
    rw [State.visitsOf_congr hv]
    exact h.finished n

theorem Locating.quiet (h : Locating w D s ts) (hq : s.Quiet w s') : Locating w D s' ts :=
  h.steady hq.toSteady hq.visits hq.queue hq.nextCall

theorem underWay_perm (n : Nat) (hp : ts.Perm ts') : underWay n ts = underWay n ts' :=
  (hp.map _).sum_nat

theorem runsOn_perm (o : Nat) (hp : ts.Perm ts') : runsOn o ts = runsOn o ts' :=
  (hp.map _).sum_nat

theorem Locating.perm (h : Locating w D s ts) (hp : ts.Perm ts') : Locating w D s ts' where
  formed := h.formed
  unasked := h.unasked
  linked := h.linked
  running o x hx hloc := by
    rw [← runsOn_perm o hp]
    exact h.running o x hx hloc
  stands k hk := h.stands k (hp.mem_iff.mpr hk)
  queue := h.queue
  once n := by
    rw [← underWay_perm n hp]
    exact h.once n
  unseen := h.unseen
  finished n := by
    rw [← underWay_perm n hp]
    exact h.finished n

/-- A task that has no request, or whose request has come to its end. -/
def Task.Silent (k : Task) : Prop := (∀ n, k.underWay n = 0) ∧ ∀ o, k.runsOn o = 0

theorem underWay_silent (n : Nat) (h : ∀ k ∈ ls, k.Silent) : underWay n ls = 0 := by
  induction ls with
  | nil => rfl
  | cons k ls ih =>
    rw [underWay_cons, (h k (List.mem_cons_self ..)).1 n,
      ih fun k' hk' => h k' (List.mem_cons_of_mem _ hk')]

theorem runsOn_silent (o : Nat) (h : ∀ k ∈ ls, k.Silent) : runsOn o ls = 0 := by
  induction ls with
  | nil => rfl
  | cons k ls ih =>
    rw [runsOn_cons, (h k (List.mem_cons_self ..)).2 o,
      ih fun k' hk' => h k' (List.mem_cons_of_mem _ hk')]

/-- Tasks make place for others, without any change of the state. -/
theorem Locating.exchange (h : Locating w D s (ks ++ ts))
    (hr : ∀ o x, s.objects o = some x → w.Locates x.poa → runsOn o ls = runsOn o ks)
    (hu : ∀ n, underWay n ls ≤ underWay n ks) (hl : ∀ k' ∈ ls, k'.Stands w D s)
    (hfin : ∀ n, underWay n ls < underWay n ks →
      s.visitsOf n = [] ∨ Finished n (s.visitsOf n)) : Locating w D s (ls ++ ts) where
  formed := h.formed
  unasked := h.unasked
  linked := h.linked
  running o x hx hloc := by
    rw [runsOn_append, hr o x hx hloc, ← runsOn_append]
    exact h.running o x hx hloc
  stands k' hk' := by
    rcases List.mem_append.mp hk' with hk' | hk'
    · exact hl k' hk'
    · exact h.stands k' (List.mem_append_right _ hk')
  queue := h.queue
  once n := by
    have hn := h.once n
    have := hu n
    rw [underWay_append] at hn
    rw [underWay_append]
    omega
  unseen := h.unseen
  finished n := by
    have := hu n
    have hn := h.finished n
    rw [underWay_append] at hn
    rw [underWay_append]
    by_cases hlt : underWay n ls < underWay n ks
    · exact (hfin n hlt).imp_right .inr
    · rcases hn with hn | hn | hn
      · exact .inl hn
      · exact .inr (.inl (by omega))
      · exact .inr (.inr hn)

theorem Locating.replace (h : Locating w D s (k :: ts))
    (hr : ∀ o x, s.objects o = some x → w.Locates x.poa → runsOn o ls = k.runsOn o)
    (hu : ∀ n, underWay n ls ≤ k.underWay n) (hl : ∀ k' ∈ ls, k'.Stands w D s)
    (hfin : ∀ n, underWay n ls < k.underWay n →
      s.visitsOf n = [] ∨ Finished n (s.visitsOf n)) : Locating w D s (ls ++ ts) := by
  have hone : ∀ n, underWay n [k] = k.underWay n := fun n => by simp [underWay]
  have h' : Locating w D s ([k] ++ ts) := h
  refine h'.exchange (fun o x hx hlx => ?_) (fun n => ?_) hl fun n hlt => hfin n ?_
  · rw [hr o x hx hlx]
    simp [runsOn]
  · rw [hone]
    exact hu n
  · rwa [hone] at hlt

/-- New tasks that are silent. -/
theorem Locating.add (h : Locating w D s ts) (hl : ∀ k' ∈ ls, k'.Silent ∧ k'.Stands w D s) :
    Locating w D s (ls ++ ts) := by
  have hls := fun k' hk' => (hl k' hk').1
  have h' : Locating w D s ([] ++ ts) := h
  refine h'.exchange (fun o _ _ _ => runsOn_silent o hls) (fun n => ?_)
    (fun k' hk' => (hl k' hk').2) fun n hlt => absurd hlt (Nat.not_lt_zero _)
  rw [underWay_silent n hls]
  exact Nat.zero_le _

theorem Locating.silent (h : Locating w D s (k :: ts)) (hk : k.Silent)
    (hl : ∀ k' ∈ ls, k'.Silent ∧ k'.Stands w D s) : Locating w D s (ls ++ ts) := by
  have h' : Locating w D s ([] ++ ts) := by
    refine h.replace (fun o _ _ _ => (hk.2 o).symm) (fun n => Nat.zero_le _) (by simp)
      fun n hlt => ?_
    rw [hk.1 n] at hlt
    exact absurd hlt (Nat.not_lt_zero _)
  exact h'.add hl

/-- The next task is the only one of its request. -/
theorem Locating.only (h : Locating w D s (k :: ts)) {n : Nat} (hk : k.underWay n = 1) :
    underWay n ts = 0 ∧ queued n s.queue = 0 ∧ n < s.nextCall := by
  have hn := h.once n
  rw [underWay_cons, hk] at hn
  split at hn
  · exact ⟨by omega, by omega, by assumption⟩
  · omega

theorem underWay_pos {n : Nat} (hk : k ∈ ts) (hpos : k.underWay n ≠ 0) : 0 < underWay n ts := by
  induction ts with
  | nil => cases hk
  | cons k' ts ih =>
    rw [underWay_cons]
    rcases List.mem_cons.mp hk with rfl | hk
    · omega
    · have := ih hk
      omega

theorem queued_pos {n : Nat} {cs : List Call} (hc : c ∈ cs) (hn : c.number = n) :
    0 < queued n cs := List.countP_pos_iff.mpr ⟨c, hc, by simpa using hn⟩

/-- Something happens at the object of a request at a servant locator, and is seen by that
request alone. -/
theorem Locating.change {D' : Nat → Bool} {k' : Task} {n : Nat} (h : Locating w D s (k :: ts))
    (hx : s.objects o = some x) (hloc : w.Locates x.poa)
    (hk : k.underWay n = 1) (hk' : ∀ m, k'.underWay m ≤ k.underWay m)
    (hother : ∀ m, m ≠ n → k.underWay m = 0)
    (ho : ∀ o', s'.objects o' = if o' = o then some x' else s.objects o')
    (hm : s'.poas = s.poas) (hn : s'.nextObject = s.nextObject) (hq : s'.queue = s.queue)
    (hnc : s'.nextCall = s.nextCall) (hp : x'.poa = x.poa) (hid : x'.objectId = x.objectId)
    (hlife : x'.life = x.life)
    (hlist : ∀ sv o', o' ∈ s'.privates sv → o' = o ∨ o' ∈ s.privates sv)
    (hcount : ∀ sv o', o' ≠ o → (s'.privates sv).count o' = (s.privates sv).count o')
    (hlinked : ∀ sv, (s'.privates sv).count o = if x'.servant = some sv then 1 else 0)
    (hruns : runsOn o ts = 0) (hrun : ∀ o', k'.runsOn o' =
      if o' = o then (if x'.servant = none then 0 else 1) else k.runsOn o')
    (hv : ∀ m, m ≠ n → s'.visitsOf m = s.visitsOf m) (hD : ∀ m, m ≠ n → D' m = D m)
    (hstands : k'.Stands w D' s')
    (hfin : k'.underWay n = 0 → Finished n (s'.visitsOf n)) : Locating w D' s' (k' :: ts) := by
  obtain ⟨hts, hqueue, hlt⟩ := h.only hk
  have hget : ∀ o' y, s'.objects o' = some y → (o' = o ∧ y = x') ∨ (o' ≠ o ∧ s.objects o' = some y) := by
    intro o' y hy
    rw [ho] at hy
    split at hy
    · rename_i he
      cases hy
      exact .inl ⟨he, rfl⟩
    · rename_i hne
      exact .inr ⟨hne, hy⟩
  have hsits : ∀ c : Call, c.Sits s → c.Sits s' := by
    rintro c ⟨hc, hpoa⟩
    refine ⟨hn ▸ hc, fun y hy => ?_⟩
    rcases hget _ y hy with ⟨he, rfl⟩ | ⟨-, hy⟩
    · exact hp.trans (hpoa x (he ▸ hx))
    · exact hpoa y hy
  have hunlocated : ∀ o', s.Unlocated w o' → s'.Unlocated w o' := by
    rintro o' ⟨ho', hnot⟩
    refine ⟨hn ▸ ho', fun y hy => ?_⟩
    rcases hget _ y hy with ⟨he, rfl⟩ | ⟨-, hy⟩
    · rw [hp]
      exact hnot x (he ▸ hx)
    · exact hnot y hy
  constructor
  · refine h.formed.change hx ho hm hn hp (fun hd => .inr ⟨hid, hlife ▸ hd⟩) hlist
  · intro o' y hy hl
    rcases hget o' y hy with ⟨-, rfl⟩ | ⟨-, hy⟩
    · rw [hlife]
      exact h.unasked o x hx hloc
    · exact h.unasked o' y hy hl
  · intro o' y hy hl sv
    rcases hget o' y hy with ⟨rfl, rfl⟩ | ⟨hne, hy⟩
    · exact hlinked sv
    · rw [hcount sv o' hne]
      exact h.linked o' y hy hl sv
  · intro o' y hy hl
    rw [runsOn_cons, hrun]
    rcases hget o' y hy with ⟨rfl, rfl⟩ | ⟨hne, hy⟩
    · rw [if_pos rfl, hruns]
      rfl
    · rw [if_neg hne, ← runsOn_cons]
      exact h.running o' y hy hl
  · intro k₁ hk₁
    rcases List.mem_cons.mp hk₁ with rfl | hk₁
    · exact hstands
    · have hne : ∀ m, k₁.underWay m ≠ 0 → m ≠ n := by
        rintro m hm rfl
        have := underWay_pos hk₁ hm
        omega
      have hst := h.stands k₁ (List.mem_cons_of_mem _ hk₁)
      cases k₁ with
      | deactivateObject p o' etherealize cleanup => exact hunlocated o' hst
      | traverse p rest inUse etherealize caller =>
        exact fun o' ho' => hunlocated o' (hst o' ho')
      | request c =>
        exact ⟨hsits c hst.1, (hv _ (hne _ (by simp [Task.underWay]))).trans hst.2⟩
      | incarnate c =>
        exact ⟨hsits c hst.1, (hv _ (hne _ (by simp [Task.underWay]))).trans hst.2.1, hst.2.2⟩
      | preinvoke c =>
        rw [Task.Stands, hm]
        exact ⟨hsits c hst.1, (hv _ (hne _ (by simp [Task.underWay]))).trans hst.2.1, hst.2.2⟩
      | method c cookie =>
        have hvc := hv _ (hne c.number (by simp [Task.underWay]))
        have hDc := hD _ (hne c.number (by simp [Task.underWay]))
        refine ⟨hsits c hst.1, fun hlc => ?_, fun hlc => ?_⟩
        · rw [hm, hDc]
          obtain ⟨hman, y, oid, servant, hy, hsv, hyid, hvis⟩ := hst.2.1 hlc
          have hco : c.object ≠ o := not_runs_of_runsOn_eq_zero hruns c cookie hk₁
          exact ⟨hman, y, oid, servant, by rw [ho, if_neg hco, hy], hsv, hyid, hvc.trans hvis⟩
        · rw [hvc]
          exact hst.2.2 hlc
      | endUse c => exact hsits c hst
      | _ => trivial
  · intro c hc
    rw [hq] at hc
    obtain ⟨hs, hvis⟩ := h.queue c hc
    refine ⟨hsits c hs, ?_⟩
    rw [hv c.number, hvis]
    rintro he
    have := queued_pos hc he
    omega
  · intro m
    have := h.once m
    have := hk' m
    rw [underWay_cons] at *
    rw [hq, hnc]
    omega
  · intro m hle
    rw [hnc] at hle
    rw [hv m (by omega)]
    exact h.unseen m hle
  · intro m
    rw [underWay_cons]
    by_cases hmn : m = n
    · subst hmn
      by_cases hz : k'.underWay m = 0
      · exact .inr (.inr (hfin hz))
      · exact .inr (.inl (by omega))
    · have hz := hother m hmn
      have := hk' m
      have hf := h.finished m
      rw [underWay_cons] at hf
      rw [hv m hmn]
      rcases hf with hf | hf | hf
      · exact .inl hf
      · exact .inr (.inl (by omega))
      · exact .inr (.inr hf)

/-- The request sees its dispatch. -/
theorem Locating.log {D' : Nat → Bool} {cookie servant : Nat}
    (h : Locating w D s (.method c cookie :: ts)) (hD : ∀ n, n ≠ c.number → D' n = D n)
    (hstands : (Task.method c cookie).Stands w D'
      { s with visits := s.visits ++ [.dispatch c.number servant] }) :
    Locating w D' { s with visits := s.visits ++ [.dispatch c.number servant] }
      (.method c cookie :: ts) := by
  obtain ⟨hts, hqueue, hlt⟩ := h.only (n := c.number) (by simp [Task.underWay])
  have hv : ∀ n, n ≠ c.number → State.visitsOf
      { s with visits := s.visits ++ [.dispatch c.number servant] } n = s.visitsOf n := by
    intro n hn
    rw [State.visitsOf_append rfl, if_neg]
    exact fun he => hn he.symm
  have hst : s.Steady w { s with visits := s.visits ++ [.dispatch c.number servant] } :=
    .congr rfl rfl rfl fun _ => ⟨fun _ => id, id⟩
  refine ⟨⟨h.formed.bound, h.formed.listed, h.formed.entries, h.formed.gone⟩, h.unasked, h.linked,
    h.running, fun k hk => ?_, fun c' hc' => ?_, h.once, fun n hle => ?_, fun n => ?_⟩
  · rcases List.mem_cons.mp hk with rfl | hk
    · exact hstands
    · have hne : ∀ n, k.underWay n ≠ 0 → n ≠ c.number := by
        rintro n hn rfl
        have := underWay_pos hk hn
        omega
      exact (h.stands k (List.mem_cons_of_mem _ hk)).steady h.formed hst
        (fun n hn => hv n (hne n hn)) fun n hn => hD n (hne n hn)
  · have hc' : c' ∈ s.queue := hc'
    obtain ⟨hsits, hvis⟩ := h.queue c' hc'
    refine ⟨hsits, ?_⟩
    rw [hv, hvis]
    intro he
    have := queued_pos hc' he
    omega
  · have hle : s.nextCall ≤ n := hle
    rw [hv n (by omega)]
    exact h.unseen n hle
  · by_cases hn : n = c.number
    · exact .inr (.inl (by simp [hn, Task.underWay]))
    · rw [hv n hn]
      exact h.finished n

/-- The task of a request that is under way. -/
def Task.Of (c : Call) (k : Task) : Prop := ∀ n, k.underWay n = if c.number = n then 1 else 0

theorem not_runsOn_located {cookie : Nat} (hsits : c.Sits s) (hloc : ¬ w.Locates c.poa)
    (hx : s.objects o = some x) (hlx : w.Locates x.poa) :
    (Task.method c cookie).runsOn o = 0 := by
  simp only [Task.runsOn, ite_eq_right_iff, Nat.one_ne_zero]
  rintro rfl
  rw [hsits.2 x hx] at hlx
  exact hloc hlx

/-- These tasks say nothing of objects or requests. -/
def Task.plain : Task → Bool
  | .etherealize .. | .finalize .. | .release .. | .unlock .. | .postinvoke .. | .deactivate ..
  | .destroy .. | .destroyChildren .. | .destroyEnd .. => true
  | _ => false

theorem Task.silent_of_plain (hk : k.plain = true) : k.Silent ∧ k.Stands w D s := by
  cases k with
  | deactivateObject => cases hk
  | request => cases hk
  | incarnate => cases hk
  | preinvoke => cases hk
  | method => cases hk
  | endUse => cases hk
  | traverse => cases hk
  | _ => exact ⟨⟨fun _ => rfl, fun _ => rfl⟩, trivial⟩

theorem State.callFinalize_plain {servant : Nat} {raised : Bool}
    (hr : s.callFinalize w p o servant raised = .ok (s', ls)) : ∀ k ∈ ls, k.plain = true := by
  unfold State.callFinalize at hr
  split at hr
  · cases hr
    simp [Task.plain]
  · obtain ⟨s₁, -, hr⟩ := Outcomes.of_bind hr
    cases hr
    simp

theorem State.deactivateObject_plain {etherealize cleanup : Bool}
    (hr : s.deactivateObject w p o etherealize cleanup = .ok (s', ls)) :
    ∀ k ∈ ls, k.plain = true := by
  unfold State.deactivateObject at hr
  obtain ⟨x, -, hr⟩ := Outcomes.of_bind hr
  split at hr
  · cases hr
    simp
  · dsimp only at hr
    split at hr
    · cases hr
      simp
    · obtain ⟨s₁, -, hr⟩ := Outcomes.of_bind hr
      unfold State.etherealizeObject at hr
      obtain ⟨y, -, hr⟩ := Outcomes.of_bind hr
      split at hr
      · dsimp only at hr
        split at hr
        · split at hr
          · cases hr
            simp [Task.plain]
          · cases hr
        · exact State.callFinalize_plain hr
      · obtain ⟨s₂, -, hr⟩ := Outcomes.of_bind hr
        cases hr
        simp

theorem State.afterDeactivate_plain {done : Bool} {caller : Deactivator}
    (hr : s.afterDeactivate w p done caller = .ok (s', ls)) : ∀ k ∈ ls, k.plain = true := by
  unfold State.afterDeactivate at hr
  split at hr
  · cases hr
    split <;> simp [Task.plain]
  · split at hr
    · cases hr
      simp
    · cases hr
      simp

theorem State.destroy_plain {etherealize : Bool} (hr : s.destroy w p etherealize = (s', ls)) :
    ∀ k ∈ ls, k.plain = true := by
  unfold State.destroy at hr
  dsimp only at hr
  split at hr
  · cases hr
    simp
  · cases hr
    simp [Task.plain]

theorem State.destroyChildren_plain {etherealize : Bool} {i : Nat}
    (hr : s.destroyChildren w p etherealize i = .ok (s', ls)) : ∀ k ∈ ls, k.plain = true := by
  unfold State.destroyChildren at hr
  split at hr
  · dsimp only at hr
    split at hr
    · cases hr
      simp [Task.plain]
    · obtain ⟨locked, -, hr⟩ := Outcomes.of_bind hr
      split at hr
      · cases hr
        simp [Task.plain]
      · cases hr
        simp [Task.plain]
  · obtain ⟨s₁, -, hr⟩ := Outcomes.of_bind hr
    dsimp only at hr
    split at hr
    · cases hr
      simp
    · cases hr
      simp [Task.plain]

/-- The end of a request at a POA without servant locator. -/
theorem Locating.endRequest_other {cookie : Nat} (h : Locating w D s (k :: ts)) (hk : k.Of c)
    (hruns : ∀ o x, s.objects o = some x → w.Locates x.poa → k.runsOn o = 0) (hsits : c.Sits s)
    (hloc : ¬ w.Locates c.poa)
    (hvis : s.visitsOf c.number = [] ∨ Finished c.number (s.visitsOf c.number))
    (hr : s.endRequest w c cookie = .ok (s', ls)) : Locating w D s' (ls ++ ts) := by
  unfold State.endRequest at hr
  obtain ⟨⟨s₁, tasks⟩, hs₁, hr⟩ := Outcomes.of_bind hr
  cases hr
  have hunuse : s.Quiet w s' ∧ ∀ k ∈ tasks, k.plain = true := by
    unfold State.unuse at hs₁
    obtain ⟨x, hx, hs₁⟩ := Outcomes.of_bind hs₁
    have hx := State.object_ok hx
    have hlx : ¬ w.Locates x.poa := by rwa [hsits.2 x hx]
    split at hs₁
    · cases hs₁
      exact ⟨.refl s, by simp⟩
    · rename_i hret
      split at hs₁
      · rename_i hproc
        exact absurd ⟨by simpa using hret, hproc⟩ hlx
      · exact ⟨.deactivateObject hx hlx hs₁, State.deactivateObject_plain hs₁⟩
      · cases hs₁
  obtain ⟨hq, hplain⟩ := hunuse
  have hsilent : ∀ k' ∈ tasks ++ [.endUse c, .unlock c.poa], k'.Silent ∧ k'.Stands w D s' := by
    intro k' hk'
    rcases List.mem_append.mp hk' with hk' | hk'
    · exact Task.silent_of_plain (hplain k' hk')
    · rcases List.mem_cons.mp hk' with rfl | hk'
      · exact ⟨⟨fun _ => rfl, fun _ => rfl⟩, hsits.steady hq.toSteady⟩
      · rw [List.mem_singleton.mp hk']
        exact Task.silent_of_plain rfl
  have hls := fun k' hk' => (hsilent k' hk').1
  refine (h.quiet hq).replace (fun o x hx hlx => ?_) (fun n => ?_)
    (fun k' hk' => (hsilent k' hk').2) fun n hlt => ?_
  · rw [runsOn_silent o hls]
    by_cases ho : o < s.nextObject
    · obtain ⟨y, hy, hp, -⟩ := hq.old o x hx ho
      exact (hruns o y hy (hp ▸ hlx)).symm
    · have hnot := (h.quiet hq).running o x hx hlx
      rw [(hq.new h.formed o x hx (by omega) hlx).1, runsOn_cons, if_pos rfl] at hnot
      omega
  · rw [underWay_silent n hls]
    exact Nat.zero_le _
  · rw [underWay_silent n hls, hk] at hlt
    have hn : c.number = n := by
      by_contra hne
      simp [hne] at hlt
    rw [State.visitsOf_congr hq.visits, ← hn]
    exact hvis

/-- A request is dispatched: the object is in use, and the method is called if there is one. -/
theorem State.dispatch_ok {cookie : Nat} (hr : s.dispatch w c cookie = .ok (s', ls)) :
    ∃ x servant s₁, s.objects c.object = some x ∧ x.servant = some servant ∧
      s₁ = { s.setObject c.object { x with useCnt := (x.useCnt + 1) % useCntMod } with
        invocations := c.object :: s.invocations } ∧
      (((w.classInfo servant).implements c.opname = true ∧ ls = [.method c cookie] ∧
        s' = { s₁.unlock w c.poa with
          visits := (s₁.unlock w c.poa).visits ++ [.dispatch c.number servant] }) ∨
      ((w.classInfo servant).implements c.opname = false ∧
        s₁.endRequest w c cookie = .ok (s', ls))) := by
  unfold State.dispatch at hr
  obtain ⟨x, hx, hr⟩ := Outcomes.of_bind hr
  split at hr
  · cases hr
  · rename_i servant hsv
    refine ⟨x, servant, _, State.object_ok hx, hsv, rfl, ?_⟩
    dsimp only at hr
    split at hr
    · rename_i himp
      cases hr
      refine .inl ⟨himp, rfl, ?_⟩
      rw [(State.Quiet.unlock (w := w)).visits]
    · rename_i himp
      exact .inr ⟨by simpa using himp, hr⟩

theorem State.Steady.inUse {n : Nat} (hx : s.objects o = some x) {invocations : List Nat} :
    s.Steady w { s.setObject o { x with useCnt := n } with invocations := invocations } := by
  have h : s.Quiet w (s.setObject o { x with useCnt := n }) :=
    .setObject hx rfl rfl rfl rfl fun _ => id
  exact h.toSteady.trans (.congr rfl rfl rfl fun _ => ⟨fun _ => id, id⟩)

theorem Locating.dispatch_other {cookie : Nat} (h : Locating w D s (k :: ts)) (hk : k.Of c)
    (hruns : ∀ o x, s.objects o = some x → w.Locates x.poa → k.runsOn o = 0) (hsits : c.Sits s)
    (hloc : ¬ w.Locates c.poa) (hvis : s.visitsOf c.number = [])
    (hr : s.dispatch w c cookie = .ok (s', ls)) : Locating w D s' (ls ++ ts) := by
  obtain ⟨x, servant, s₁, hx, -, hs₁, hcases⟩ := State.dispatch_ok hr
  have hst : s.Steady w s₁ := by
    rw [hs₁]
    exact .inUse hx
  have h₁ : Locating w D s₁ (k :: ts) := by
    refine h.steady hst ?_ ?_ ?_ <;> rw [hs₁] <;> rfl
  have hvis₁ : s₁.visitsOf c.number = [] := by
    rw [State.visitsOf_congr (s := s) (by rw [hs₁]; rfl)]
    exact hvis
  have hsits₁ : c.Sits s₁ := hsits.steady hst
  have hruns₁ : ∀ o x, s₁.objects o = some x → w.Locates x.poa → k.runsOn o = 0 := by
    intro o y hy hly
    have ho : o < s.nextObject := by
      have := h₁.formed.lt hy
      rw [hs₁] at this
      exact this
    obtain ⟨z, hz, hp, -⟩ := hst.old o y hy ho
    exact hruns o z hz (hp ▸ hly)
  rcases hcases with ⟨-, rfl, rfl⟩ | ⟨-, hr⟩
  · have hq : s₁.Quiet w (s₁.unlock w c.poa) := .unlock
    have h₂ : Locating w D s₁ ([.method c cookie] ++ ts) := by
      refine h₁.replace ?_ ?_ ?_ ?_
      · intro o y hy hly
        rw [hruns₁ o y hy hly, runsOn_cons, not_runsOn_located hsits₁ hloc hy hly]
        rfl
      · intro n
        rw [hk n]
        simp [Task.underWay, underWay]
      · intro k' hk'
        rw [List.mem_singleton.mp hk']
        exact ⟨hsits₁, fun hl => absurd hl hloc, fun _ => .inl hvis₁⟩
      · intro n hlt
        rw [hk n] at hlt
        simp [Task.underWay, underWay] at hlt
    refine (h₂.quiet hq).log (fun _ _ => rfl) ⟨hsits₁.steady (hq.toSteady.trans
      (.congr rfl rfl rfl fun _ => ⟨fun _ => id, id⟩)), fun hl => absurd hl hloc, fun _ => .inr
        ⟨servant, ?_⟩⟩
    have hn : (Visit.dispatch c.number servant).number = c.number := rfl
    rw [State.visitsOf_append rfl, if_pos hn, State.visitsOf_congr hq.visits, hvis₁]
    rfl
  · exact h₁.endRequest_other hk hruns₁ hsits₁ hloc (.inl hvis₁) hr

/-- `preinvoke` has returned a servant: the request has seen it, and the object is linked. -/
theorem Locating.linked_located {cookie servant : Nat} {oid : Octets}
    (h : Locating w D s (.preinvoke c :: ts)) (hx : s.objects c.object = some x)
    (hsv : x.servant = none) (hid : x.objectId = some oid) (hs₁ : s₁ =
      { s with visits := s.visits ++ [.preinvoke c.number oid c.opname cookie servant] }) :
    Locating w (Function.update D c.number false) (s₁.link c.object x servant)
      (.method c cookie :: ts) := by
  obtain ⟨hsits, hvis, hloc, hman⟩ := h.stands _ (List.mem_cons_self ..)
  have hlx : w.Locates x.poa := by rwa [hsits.2 x hx]
  have hcount : ∀ sv, (s.privates sv).count c.object = 0 := by
    intro sv
    rw [h.linked _ x hx hlx sv, hsv]
    rfl
  have hruns : runsOn c.object ts = 0 := by
    have := h.running _ x hx hlx
    rw [hsv, runsOn_cons, if_pos rfl] at this
    omega
  have hnumber : (Visit.preinvoke c.number oid c.opname cookie servant).number = c.number := rfl
  have hseen : (s₁.link c.object x servant).visitsOf c.number =
      [.preinvoke c.number oid c.opname cookie servant] := by
    have hv : (s₁.link c.object x servant).visits =
        s.visits ++ [.preinvoke c.number oid c.opname cookie servant] := by
      rw [hs₁]
      rfl
    rw [State.visitsOf_append hv, if_pos hnumber, hvis]
    rfl
  have hobj : ∀ o', (s₁.link c.object x servant).objects o' = if o' = c.object then
      some { x with servant := some servant, refs := x.refs + 1 } else s.objects o' := by
    intro o'
    rw [hs₁]
    exact State.setObject_objects _ _ _ _
  have hpriv : (s₁.link c.object x servant).privates =
      Function.update s.privates servant (c.object :: s.privates servant) := by
    rw [hs₁]
    rfl
  refine h.change (n := c.number) (o := c.object) hx hlx (by simp [Task.underWay]) (fun m => ?_)
    (fun m hm => ?_) hobj (by rw [hs₁]; rfl) (by rw [hs₁]; rfl) (by rw [hs₁]; rfl)
    (by rw [hs₁]; rfl) ?_ ?_ ?_ (fun sv o' hmem => ?_) (fun sv o' hne => ?_) (fun sv => ?_) hruns
    (fun o' => ?_) (fun m hm => ?_) (fun m hm => ?_) ?_ fun hz => ?_
  · exact Nat.le_refl _
  · simp [Task.underWay, Ne.symm hm]
  · rfl
  · rfl
  · rfl
  · rw [hpriv] at hmem
    by_cases hsv' : sv = servant
    · subst hsv'
      simpa using hmem
    · exact .inr (by simpa [hsv'] using hmem)
  · rw [hpriv]
    by_cases hsv' : sv = servant
    · subst hsv'
      simp [Ne.symm hne]
    · simp [hsv']
  · rw [hpriv]
    by_cases hsv' : sv = servant
    · subst hsv'
      simp [hcount]
    · simp [hsv', Ne.symm hsv', hcount]
  · simp [Task.runsOn, eq_comm]
  · have hv : (s₁.link c.object x servant).visits =
        s.visits ++ [.preinvoke c.number oid c.opname cookie servant] := by
      rw [hs₁]
      rfl
    rw [State.visitsOf_append hv, if_neg]
    rw [hnumber]
    exact fun he => hm he.symm
  · simp [hm]
  · refine ⟨⟨?_, fun y hy => ?_⟩, fun _ => ⟨?_, ?_⟩, fun hl => absurd hloc hl⟩
    · rw [hs₁]
      exact hsits.1
    · rw [hobj, if_pos rfl] at hy
      cases hy
      exact hsits.2 x hx
    · rw [hs₁]
      exact hman
    · refine ⟨_, oid, servant, (hobj _).trans (if_pos rfl), rfl, hid, ?_⟩
      rw [hseen]
      simp
  · simp [Task.underWay] at hz

/-- `ORBit_POA_ServantManager_unuse_servant`, for an object with another reference. -/
theorem State.unuse_ok (cookie : Nat) {servant : Nat} {oid : Octets} (hx : s.objects c.object = some x)
    (hloc : w.Locates x.poa) (hman : (s.poas x.poa).servantManager = true)
    (hsv : x.servant = some servant) (hid : x.objectId = some oid) (hrefs : 1 < x.refs)
    (hmem : c.object ∈ s.privates servant) : ∃ s', s.unuse w c cookie =
        .ok (s', [.postinvoke c cookie servant]) ∧
      (∀ o', s'.objects o' = if o' = c.object then
        some { x with servant := none, refs := x.refs - 1 } else s.objects o') ∧
      s'.privates = Function.update s.privates servant ((s.privates servant).erase c.object) ∧
      s'.visits = s.visits ++ [.postinvoke c.number oid c.opname cookie servant] ∧
      s'.poas = s.poas ∧ s'.nextObject = s.nextObject ∧ s'.queue = s.queue ∧
      s'.nextCall = s.nextCall := by
  obtain ⟨s₁, hs₁⟩ : ∃ s₁ : State, s₁ = { s.setObject c.object { x with servant := none } with
      privates := Function.update s.privates servant ((s.privates servant).erase c.object) } :=
    ⟨_, rfl⟩
  obtain ⟨s₂, hs₂⟩ : ∃ s₂ : State, s₂ =
      s₁.setObject c.object { x with servant := none, refs := x.refs - 1 } := ⟨_, rfl⟩
  have hx₀ : s.object c.object = .ok x := by
    unfold State.object
    rw [hx]
  have hunlink : s.unlink c.object x servant = .ok s₁ := by
    unfold State.unlink
    rw [if_pos hmem, hs₁]
  have hx₁ : s₁.object c.object = .ok { x with servant := none } := by
    rw [hs₁]
    exact State.object_setObject s c.object _
  have hrelease : s₁.release c.object = .ok s₂ := by
    unfold State.release
    rw [hx₁, Outcomes.ok_bind, if_neg (by show ¬ x.refs = 0; omega),
      if_neg (by show ¬ x.refs = 1; omega), hs₂]
  have hx₂ : s₂.object c.object = .ok { x with servant := none, refs := x.refs - 1 } := by
    rw [hs₂]
    exact State.object_setObject s₁ c.object _
  refine ⟨{ s₂ with
    visits := s₂.visits ++ [.postinvoke c.number oid c.opname cookie servant] }, ?_, ?_, ?_⟩
  · unfold State.unuse
    rw [hx₀, Outcomes.ok_bind, if_neg (by simp [hloc.1])]
    simp only [hloc.2]
    unfold State.unuseServant
    rw [hx₀, Outcomes.ok_bind, if_neg (by simp [hman])]
    simp only [hsv, hunlink, Outcomes.ok_bind, hrelease, hx₂, hid]
  · intro o'
    rw [hs₂, hs₁]
    by_cases ho : o' = c.object <;> simp [State.setObject, ho]
  · rw [hs₂, hs₁]
    exact ⟨rfl, rfl, rfl, rfl, rfl, rfl⟩

/-- The method has returned, and `postinvoke` is called. -/
theorem Locating.unuse_located {cookie : Nat} (h : Locating w D s (.method c cookie :: ts))
    (hloc : w.Locates c.poa) (hD : ∀ n, n ≠ c.number → D n = true)
    (hrefs : ∀ x ∈ s.objects c.object, 1 < x.refs) :
    ∃ s' servant, s.unuse w c cookie = .ok (s', [.postinvoke c cookie servant]) ∧
      Locating w (fun _ => true) s' (.postinvoke c cookie servant :: ts) ∧ c.Sits s' ∧
      s.Saw s' c cookie fun oid servant vs =>
        vs = (if D c.number then [.dispatch c.number servant] else []) ++
          [.postinvoke c.number oid c.opname cookie servant] := by
  obtain ⟨hsits, hserved, -⟩ := h.stands _ (List.mem_cons_self ..)
  obtain ⟨hman, x, oid, servant, hx, hsv, hid, hvis⟩ := hserved hloc
  have hpoa : x.poa = c.poa := hsits.2 x hx
  have hlx : w.Locates x.poa := by rwa [hpoa]
  have hcount : ∀ sv, (s.privates sv).count c.object = if servant = sv then 1 else 0 := by
    intro sv
    rw [h.linked _ x hx hlx sv, hsv]
    simp
  have hmem : c.object ∈ s.privates servant := by
    rw [← List.count_pos_iff, hcount, if_pos rfl]
    exact Nat.one_pos
  have hruns : runsOn c.object ts = 0 := by
    have := h.running _ x hx hlx
    rw [hsv, runsOn_cons] at this
    simp only [Task.runsOn, if_pos, reduceCtorEq, if_false] at this
    omega
  obtain ⟨s', hr, hobj, hpriv, hv, hpoas, hnext, hqueue, hcall⟩ :=
    State.unuse_ok cookie hx hlx (by rwa [hpoa]) hsv hid (hrefs x hx) hmem
  have hnumber : (Visit.postinvoke c.number oid c.opname cookie servant).number = c.number := rfl
  have hsits' : c.Sits s' := by
    refine ⟨hnext ▸ hsits.1, fun y hy => ?_⟩
    rw [hobj, if_pos rfl] at hy
    cases hy
    exact hpoa
  have hseen : s'.visitsOf c.number = .preinvoke c.number oid c.opname cookie servant ::
      (if D c.number then [.dispatch c.number servant] else []) ++
        [.postinvoke c.number oid c.opname cookie servant] := by
    rw [State.visitsOf_append hv, if_pos hnumber, hvis]
  refine ⟨s', servant, hr, ?_, hsits', x, oid, servant, _, hx, hsv, hid, hseen, rfl⟩
  refine h.change (n := c.number) (o := c.object) hx hlx (by simp [Task.underWay]) (fun m => ?_)
    (fun m hm => ?_) hobj hpoas hnext hqueue hcall rfl rfl rfl (fun sv o' hmem => ?_)
    (fun sv o' hne => ?_) (fun sv => ?_) hruns (fun o' => ?_) (fun m hm => ?_)
    (fun m hm => (hD m hm).symm) trivial fun hz => ?_
  · exact Nat.zero_le _
  · simp [Task.underWay, Ne.symm hm]
  · rw [hpriv] at hmem
    by_cases hsv' : sv = servant
    · subst hsv'
      exact .inr (List.mem_of_mem_erase (by simpa using hmem))
    · exact .inr (by simpa [hsv'] using hmem)
  · rw [hpriv]
    by_cases hsv' : sv = servant
    · subst hsv'
      simp [List.count_erase_of_ne hne]
    · simp [hsv']
  · rw [hpriv]
    by_cases hsv' : sv = servant
    · subst hsv'
      simp [List.count_erase_self, hcount]
    · simp [hsv', Ne.symm hsv', hcount]
  · by_cases ho : o' = c.object
    · simp [Task.runsOn, ho]
    · simp [Task.runsOn, ho, Ne.symm ho]
  · rw [State.visitsOf_append hv, if_neg]
    rw [hnumber]
    exact fun he => hm he.symm
  · rw [hseen]
    refine .inr ⟨oid, c.opname, cookie, servant, ?_⟩
    cases D c.number with
    | true => exact .inl rfl
    | false => exact .inr rfl

/-- The end of a request at a servant locator. -/
theorem Locating.endRequest_located {cookie : Nat} (h : Locating w D s (.method c cookie :: ts))
    (hloc : w.Locates c.poa) (hD : ∀ n, n ≠ c.number → D n = true)
    (hrefs : ∀ x ∈ s.objects c.object, 1 < x.refs) :
    ∃ s' ls, s.endRequest w c cookie = .ok (s', ls) ∧
      Locating w (fun _ => true) s' (ls ++ ts) ∧
      s.Saw s' c cookie fun oid servant vs =>
        vs = (if D c.number then [.dispatch c.number servant] else []) ++
          [.postinvoke c.number oid c.opname cookie servant] := by
  obtain ⟨s', servant, hr, h', hsits, hsaw⟩ := h.unuse_located hloc hD hrefs
  refine ⟨s', [.postinvoke c cookie servant] ++ [.endUse c, .unlock c.poa], ?_, ?_, hsaw⟩
  · unfold State.endRequest
    rw [hr, Outcomes.ok_bind]
  · refine h'.silent ⟨fun _ => rfl, fun _ => rfl⟩ fun k hk => ?_
    simp only [List.cons_append, List.nil_append, List.mem_cons, List.not_mem_nil, or_false] at hk
    rcases hk with rfl | rfl | rfl
    · exact Task.silent_of_plain rfl
    · exact ⟨⟨fun _ => rfl, fun _ => rfl⟩, hsits⟩
    · exact Task.silent_of_plain rfl

/-- The dispatch to the servant that `preinvoke` returned. -/
theorem Locating.dispatch_located {cookie : Nat} (h : Locating w D s (.method c cookie :: ts))
    (hloc : w.Locates c.poa) (hD : ∀ n, n ≠ c.number → D n = true) (hDc : D c.number = false)
    (hrefs : ∀ x ∈ s.objects c.object, ∀ servant ∈ x.servant,
      (w.classInfo servant).implements c.opname = false → 1 < x.refs) :
    ∃ s' ls, s.dispatch w c cookie = .ok (s', ls) ∧
      Locating w (fun _ => true) s' (ls ++ ts) ∧ s.Saw s' c cookie fun _ _ _ => True := by
  obtain ⟨hsits, hserved, -⟩ := h.stands _ (List.mem_cons_self ..)
  obtain ⟨hman, x, oid, servant, hx, hsv, hid, hvis⟩ := hserved hloc
  obtain ⟨s₁, hs₁⟩ : ∃ s₁ : State, s₁ =
      { s.setObject c.object { x with useCnt := (x.useCnt + 1) % useCntMod } with
        invocations := c.object :: s.invocations } := ⟨_, rfl⟩
  have hst : s.Steady w s₁ := by
    rw [hs₁]
    exact .inUse hx
  have h₁ : Locating w D s₁ (.method c cookie :: ts) := by
    refine h.steady hst ?_ ?_ ?_ <;> rw [hs₁] <;> rfl
  have hdispatch : s.dispatch w c cookie =
      if (w.classInfo servant).implements c.opname then
        .ok ({ s₁.unlock w c.poa with visits := s₁.visits ++ [.dispatch c.number servant] },
          [.method c cookie])
      else s₁.endRequest w c cookie := by
    have hx₀ : s.object c.object = .ok x := by
      unfold State.object
      rw [hx]
    unfold State.dispatch
    rw [hx₀, Outcomes.ok_bind]
    split
    · rename_i hnone
      rw [hsv] at hnone
      cases hnone
    · rename_i sv hsome
      cases hsv.symm.trans hsome
      rw [hs₁]
  rw [hdispatch]
  split
  · have hq : s₁.Quiet w (s₁.unlock w c.poa) := .unlock
    have hn : (Visit.dispatch c.number servant).number = c.number := rfl
    have hsame : (s₁.unlock w c.poa).visits = s.visits := by
      rw [hq.visits, hs₁]
      rfl
    refine ⟨_, _, rfl, ?_, x, oid, servant, [.dispatch c.number servant], hx, hsv, hid, ?_, trivial⟩
    swap
    · rw [← hq.visits, State.visitsOf_append rfl, if_pos hn, State.visitsOf_congr hsame, hvis, hDc]
      rfl
    rw [← hq.visits]
    refine (h₁.quiet hq).log (fun n hn => (hD n hn).symm) ?_
    have hst' : s.Steady w { s₁.unlock w c.poa with
        visits := (s₁.unlock w c.poa).visits ++ [.dispatch c.number servant] } :=
      hst.trans (hq.toSteady.trans (.congr rfl rfl rfl fun _ => ⟨fun _ => id, id⟩))
    refine ⟨hsits.steady hst', fun _ => ⟨hst'.managed _ hman, ?_⟩, fun hl => absurd hloc hl⟩
    have hlx : w.Locates x.poa := by rwa [hsits.2 x hx]
    obtain ⟨x', hx', hid'⟩ := hst'.served h.formed _ x hx hlx (by simp [hsv]) (by simp [hid])
    obtain ⟨y, hy, -, hl⟩ := hst'.old _ x' hx' hsits.1
    cases hx.symm.trans hy
    refine ⟨x', oid, servant, hx', (hl hlx).1.trans hsv, hid'.trans hid, ?_⟩
    rw [State.visitsOf_append rfl, if_pos hn, State.visitsOf_congr hsame, hvis, hDc]
    rfl
  · rename_i himp
    have hy₁ : s₁.objects c.object = some { x with useCnt := (x.useCnt + 1) % useCntMod } := by
      rw [hs₁]
      exact (State.setObject_objects _ _ _ _).trans (if_pos rfl)
    have hrefs₁ : ∀ y ∈ s₁.objects c.object, 1 < y.refs := by
      intro y hy
      cases hy₁.symm.trans hy
      exact hrefs x hx servant hsv (by simpa using himp)
    obtain ⟨s', ls, hr, h', y, oid', servant', vs, hy, hsv', hid', hseen, -⟩ :=
      h₁.endRequest_located hloc hD hrefs₁
    cases hy₁.symm.trans hy
    exact ⟨s', ls, hr, h', x, oid', servant', vs, hx, hsv', hid', hseen, trivial⟩

/-- What `preinvoke` may return, when no other request is with a servant for the object. -/
def State.Locatable (w : World) (s : State) (c : Call) (r : Reply) : Prop :=
  (∀ x ∈ s.objects c.object, x.servant = none) ∧
  ∀ servant ∈ r.servant, r.raised = false ∧ ∃ x ∈ s.objects c.object, x.objectId ≠ none ∧
    ¬ ((w.policies x.poa).uniqueId = true ∧ s.privates servant ≠ []) ∧
    ((w.classInfo servant).implements c.opname = false → 0 < x.refs)

instance (w : World) (s : State) (c : Call) (r : Reply) : Decidable (s.Locatable w c r) := by
  unfold State.Locatable; infer_instance

/-- `preinvoke` has returned a servant. -/
theorem Locating.preinvoked_some {r : Reply} {servant : Nat}
    (h : Locating w (fun _ => true) s (.preinvoke c :: ts)) (hc : s.Locatable w c r)
    (hsv : r.servant = some servant) : ∃ s' ls,
      s.preinvoked w c r.servant r.cookie r.raised = .ok (s', ls) ∧
        Locating w (fun _ => true) s' (ls ++ ts) ∧
        ∃ oid vs, s'.visitsOf c.number =
          .preinvoke c.number oid c.opname r.cookie servant :: vs := by
  obtain ⟨hraised, x, hx, hid, hun, hrefs⟩ := hc.2 servant hsv
  obtain ⟨oid, hid⟩ := Option.ne_none_iff_exists'.mp hid
  have hx : s.objects c.object = some x := hx
  have hnone := hc.1 x hx
  obtain ⟨s₁, hs₁⟩ : ∃ s₁ : State, s₁ = { s with
    visits := s.visits ++ [.preinvoke c.number oid c.opname r.cookie servant] } := ⟨_, rfl⟩
  have h₂ := h.linked_located hx hnone hid hs₁
  have hobj : (s₁.link c.object x servant).objects c.object =
      some { x with servant := some servant, refs := x.refs + 1 } := by
    rw [hs₁]
    exact (State.setObject_objects _ _ _ _).trans (if_pos rfl)
  have hloc : w.Locates c.poa := (h.stands _ (List.mem_cons_self ..)).2.2.1
  have hpre : s.preinvoked w c r.servant r.cookie r.raised =
      (s₁.link c.object x servant).dispatch w c r.cookie := by
    have hx₁ : s₁.objects c.object = some x := by
      rw [hs₁]
      exact hx
    have hpriv : s₁.privates = s.privates := by rw [hs₁]
    unfold State.preinvoked State.object
    simp only [hx, Outcomes.ok_bind, hsv, hid, ← hs₁]
    unfold State.useServant State.object
    simp only [hx₁, Outcomes.ok_bind, hpriv, if_neg hun]
    unfold State.served State.object
    simp only [hobj, Outcomes.ok_bind]
    rw [if_pos ⟨hraised, by simp⟩]
  rw [hpre]
  have hrefs₂ : ∀ y ∈ (s₁.link c.object x servant).objects c.object, ∀ sv ∈ y.servant,
      (w.classInfo sv).implements c.opname = false → 1 < y.refs := by
    intro y hy sv hsv' himp
    cases hobj.symm.trans hy
    cases hsv'
    have := hrefs himp
    show 1 < x.refs + 1
    omega
  obtain ⟨s', ls, hr, h', y, oid', servant', vs, hy, hsv', -, hseen, -⟩ :=
    h₂.dispatch_located hloc (fun n hn => by simp [hn]) (by simp) hrefs₂
  cases hobj.symm.trans hy
  cases hsv'
  exact ⟨s', ls, hr, h', oid', vs, hseen⟩

/-- `preinvoke` has returned no servant. -/
theorem Locating.preinvoked_none {r : Reply}
    (h : Locating w (fun _ => true) s (.preinvoke c :: ts)) (hc : s.Locatable w c r)
    (hsv : r.servant = none) (hr : s.preinvoked w c r.servant r.cookie r.raised = .ok (s', ls)) :
    Locating w (fun _ => true) s' (ls ++ ts) := by
  obtain ⟨-, hvis, -⟩ := h.stands _ (List.mem_cons_self ..)
  unfold State.preinvoked at hr
  obtain ⟨x, hx, hr⟩ := Outcomes.of_bind hr
  have hx := State.object_ok hx
  rw [hsv] at hr
  dsimp only at hr
  obtain ⟨⟨s₁, raised⟩, hs₁, hr⟩ := Outcomes.of_bind hr
  unfold State.useServant at hs₁
  obtain ⟨y, -, hs₁⟩ := Outcomes.of_bind hs₁
  cases hs₁
  unfold State.served at hr
  obtain ⟨y, hy, hr⟩ := Outcomes.of_bind hr
  have hy : s.objects c.object = some y := State.object_ok hy
  rw [if_neg fun hs => hs.2 (hc.1 y hy)] at hr
  cases hr
  have hdrop : Locating w (fun _ => true) s ([] ++ ts) := by
    refine h.replace (fun _ _ _ _ => rfl) (fun n => Nat.zero_le _) (by simp) fun n hlt => ?_
    by_cases hn : c.number = n
    · exact .inl (hn ▸ hvis)
    · simp [Task.underWay, hn] at hlt
  exact hdrop.quiet .unlock

/-- A request that waits comes to nothing. -/
theorem Locating.drop (h : Locating w D s (k :: ts)) (hk : k.Of c)
    (hruns : ∀ o x, s.objects o = some x → w.Locates x.poa → k.runsOn o = 0)
    (hvis : s.visitsOf c.number = [] ∨ Finished c.number (s.visitsOf c.number)) :
    Locating w D s ([] ++ ts) := by
  refine h.replace (fun o x hx hlx => (hruns o x hx hlx).symm) (fun n => Nat.zero_le _) (by simp)
    fun n hlt => ?_
  rw [hk n] at hlt
  have hn : c.number = n := by
    by_contra hne
    simp [hne] at hlt
  exact hn ▸ hvis

/-- A request that waits goes on waiting. -/
theorem Locating.pass {k' : Task} (h : Locating w D s (k :: ts)) (hk : k.Of c) (hk' : k'.Of c)
    (hruns : ∀ o, k.runsOn o = 0) (hruns' : ∀ o, k'.runsOn o = 0) (hstands : k'.Stands w D s) :
    Locating w D s ([k'] ++ ts) := by
  refine h.replace (fun o _ _ _ => ?_) (fun n => ?_) (fun k₁ hk₁ => ?_) fun n hlt => ?_
  · rw [runsOn_cons, hruns', hruns]
    rfl
  · rw [underWay_cons, hk', hk]
    exact Nat.le_refl _
  · rw [List.mem_singleton.mp hk₁]
    exact hstands
  · rw [underWay_cons, hk', hk] at hlt
    exact absurd hlt (Nat.lt_irrefl _)

theorem Locating.handleRequest (h : Locating w D s (.request c :: ts))
    (hc : w.Locates c.poa → (s.managers (w.manager c.poa)).state = .active →
      ∀ x ∈ s.objects c.object, x.servant = none)
    (hr : s.handleRequest w c = .ok (s', ls)) : Locating w D s' (ls ++ ts) := by
  unfold State.handleRequest at hr
  obtain ⟨x, hx, hr⟩ := Outcomes.of_bind hr
  have hx := State.object_ok hx
  obtain ⟨s₁, hs₁, hr⟩ := Outcomes.of_bind hr
  have h₁ : Locating w D s₁ (.request c :: ts) := h.quiet (.lock hs₁)
  obtain ⟨hsits, hvis⟩ := h₁.stands _ (List.mem_cons_self ..)
  have hk : (Task.request c).Of c := fun _ => rfl
  have hruns : ∀ o, (Task.request c).runsOn o = 0 := fun _ => rfl
  have hpoa : x.poa = c.poa := (h.stands _ (List.mem_cons_self ..)).1.2 x hx
  have hx₁ : s₁.objects c.object = some x := by rw [State.lock_objects hs₁, hx]
  have hdrop : ∀ s₂, s₁.Quiet w s₂ → Locating w D s₂ ([] ++ ts) := fun s₂ hq =>
    (h₁.drop hk (fun o _ _ _ => hruns o) (.inl hvis)).quiet hq
  dsimp only at hr
  split at hr
  · cases hr
    refine hdrop _ (.trans ?_ .unlock)
    split
    · exact .setPoa (fun _ _ => id) fun _ => id
    · exact .refl s₁
  · cases hr
    exact hdrop _ .unlock
  · cases hr
    exact hdrop _ .unlock
  · rename_i hact
    split at hr
    · rename_i hsv
      have hloc : ¬ w.Locates c.poa := fun hl =>
        hsv (hc hl (by rw [← hpoa, ← State.lock_managers hs₁]; exact hact) x hx)
      exact h₁.dispatch_other hk (fun o _ _ _ => hruns o) hsits hloc hvis hr
    · split at hr
      · cases hr
        exact hdrop _ .unlock
      · rename_i hproc
        have hloc : ¬ w.Locates c.poa := by
          rintro ⟨-, hl⟩
          rw [← hpoa, hproc] at hl
          cases hl
        obtain ⟨s₂, hs₂, hr⟩ := Outcomes.of_bind hr
        have hq : s₁.Quiet w s₂ := .activateObject hx₁ (by rwa [hpoa]) hs₂
        exact (h₁.quiet hq).dispatch_other hk (fun o _ _ _ => hruns o) (hsits.steady hq.toSteady)
          hloc ((State.visitsOf_congr hq.visits _).trans hvis) hr
      · rename_i hproc
        split at hr
        · rename_i hman
          cases hr
          rw [hpoa] at hproc hman
          split
          · rename_i hret
            rw [hpoa] at hret
            exact h₁.pass hk (fun _ => rfl) hruns (fun _ => rfl)
              ⟨hsits, hvis, not_locates_of_retain hret⟩
          · rename_i hret
            rw [hpoa] at hret
            exact h₁.pass hk (fun _ => rfl) hruns (fun _ => rfl)
              ⟨hsits, hvis, ⟨by simpa using hret, hproc⟩, hman⟩
        · cases hr

theorem Locating.incarnated {servant : Option Nat} {raised : Bool}
    (h : Locating w D s (.incarnate c :: ts))
    (hr : s.incarnated w c servant raised = .ok (s', ls)) : Locating w D s' (ls ++ ts) := by
  obtain ⟨hsits, hvis, hloc⟩ := h.stands _ (List.mem_cons_self ..)
  unfold State.incarnated at hr
  obtain ⟨⟨s₁, raised'⟩, hs₁, hr⟩ := Outcomes.of_bind hr
  have hq : s.Quiet w s₁ := by
    unfold State.useServant at hs₁
    obtain ⟨x, hx, hs₁⟩ := Outcomes.of_bind hs₁
    have hx := State.object_ok hx
    split at hs₁
    · cases hs₁
      exact .refl s
    · split at hs₁
      · cases hs₁
        exact .refl s
      · cases hs₁
        exact .link hx (by rwa [hsits.2 x hx]) rfl rfl rfl
  have h₁ := h.quiet hq
  have hvis₁ := (State.visitsOf_congr hq.visits c.number).trans hvis
  have hk : (Task.incarnate c).Of c := fun _ => rfl
  unfold State.served at hr
  obtain ⟨x, -, hr⟩ := Outcomes.of_bind hr
  split at hr
  · exact h₁.dispatch_other hk (fun _ _ _ _ => rfl) (hsits.steady hq.toSteady) hloc hvis₁ hr
  · cases hr
    exact (h₁.drop hk (fun _ _ _ _ => rfl) (.inl hvis₁)).quiet .unlock

theorem Locating.returned {cookie : Nat} (h : Locating w (fun _ => true) s (.method c cookie :: ts))
    (hc : w.Locates c.poa → ∀ x ∈ s.objects c.object, 1 < x.refs)
    (hr : s.returned w c cookie = .ok (s', ls)) : Locating w (fun _ => true) s' (ls ++ ts) := by
  unfold State.returned at hr
  obtain ⟨s₁, hs₁, hr⟩ := Outcomes.of_bind hr
  have h₁ := h.quiet (.lock hs₁)
  by_cases hloc : w.Locates c.poa
  · obtain ⟨s₂, ls₂, hr₂, h₂, -⟩ := h₁.endRequest_located hloc (fun _ _ => rfl) fun x hx =>
      hc hloc x (by rwa [State.lock_objects hs₁] at hx)
    cases hr.symm.trans hr₂
    exact h₂
  · obtain ⟨hsits, -, hvis⟩ := h₁.stands _ (List.mem_cons_self ..)
    refine h₁.endRequest_other (fun _ => rfl) (fun o x hx hlx => ?_) hsits hloc ?_ hr
    · exact not_runsOn_located hsits hloc hx hlx
    · exact (hvis hloc).imp_right fun hd => .inl hd

theorem Locating.endUse (h : Locating w D s (.endUse c :: ts))
    (hr : s.endUse w c = .ok (s', ls)) : Locating w D s' (ls ++ ts) := by
  have hsits : c.Sits s := h.stands _ (List.mem_cons_self ..)
  unfold State.endUse at hr
  obtain ⟨x, hx, hr⟩ := Outcomes.of_bind hr
  have hx := State.object_ok hx
  dsimp only at hr
  generalize hs₁ : ({ s.setObject c.object
      { x with useCnt := (x.useCnt + (useCntMod - 1)) % useCntMod } with
    invocations := s.invocations.erase c.object } : State) = s₁ at hr
  have h₁ : Locating w D s₁ (.endUse c :: ts) := by
    have hst : s.Steady w s₁ := by
      rw [← hs₁]
      exact .inUse hx
    refine h.steady hst ?_ ?_ ?_ <;> rw [← hs₁] <;> rfl
  have hdone : Locating w D s₁ ([] ++ ts) :=
    h₁.silent ⟨fun _ => rfl, fun _ => rfl⟩ (by simp)
  split at hr
  · unfold State.postInvoke at hr
    obtain ⟨y, hy, hr⟩ := Outcomes.of_bind hr
    have hy := State.object_ok hy
    split at hr
    · cases hr
      exact hdone
    · split at hr
      · rename_i hdo
        have hly : ¬ w.Locates y.poa := by
          intro hl
          rw [h₁.unasked _ y hy hl] at hdo
          cases hdo
        have hq : s₁.Quiet w s' := .deactivateObject hy hly hr
        exact (h₁.quiet hq).silent ⟨fun _ => rfl, fun _ => rfl⟩ fun k hk =>
          Task.silent_of_plain (State.deactivateObject_plain hr k hk)
      · cases hr
        exact hdone
  · cases hr
    exact hdone

/-- The tasks that are nothing to a servant locator. -/
theorem Locating.runTask (h : Locating w D s (k :: ts)) (hwait : k.waits = false)
    (hc : ∀ c, k = .request c → w.Locates c.poa →
      (s.managers (w.manager c.poa)).state = .active → ∀ x ∈ s.objects c.object, x.servant = none)
    (hr : s.runTask w k = .ok (s', ls)) : Locating w D s' (ls ++ ts) := by
  have hplain : s.Quiet w s' → k.Silent → (∀ k' ∈ ls, k'.plain = true) →
      Locating w D s' (ls ++ ts) := by
    intro hq hk hls
    exact (h.quiet hq).silent hk fun k' hk' => Task.silent_of_plain (hls k' hk')
  cases k <;> simp only [State.runTask] at hr
  case deactivateObject p o etherealize cleanup =>
    have hun : s.Unlocated w o := h.stands _ (List.mem_cons_self ..)
    have hx : ∃ x, s.objects o = some x := by
      unfold State.deactivateObject at hr
      obtain ⟨x, hx, -⟩ := Outcomes.of_bind hr
      exact ⟨x, State.object_ok hx⟩
    obtain ⟨x, hx⟩ := hx
    exact hplain (.deactivateObject hx (hun.2 x hx) hr) ⟨fun _ => rfl, fun _ => rfl⟩
      (State.deactivateObject_plain hr)
  case release o =>
    obtain ⟨s₁, hs₁, hr⟩ := Outcomes.of_bind hr
    cases hr
    exact hplain (.release hs₁) ⟨fun _ => rfl, fun _ => rfl⟩ (by simp)
  case unlock p =>
    cases hr
    exact hplain .unlock ⟨fun _ => rfl, fun _ => rfl⟩ (by simp)
  case request c => exact h.handleRequest (hc c rfl) hr
  case endUse c => exact h.endUse hr
  case deactivate p etherealize caller =>
    have hq : s.Quiet w s' := .deactivate hr
    unfold State.deactivate at hr
    dsimp only at hr
    split at hr
    · exact hplain hq ⟨fun _ => rfl, fun _ => rfl⟩ (State.afterDeactivate_plain hr)
    · split at hr
      · exact hplain hq ⟨fun _ => rfl, fun _ => rfl⟩ (State.afterDeactivate_plain hr)
      · obtain ⟨s₁, hs₁, hr⟩ := Outcomes.of_bind hr
        cases hr
        refine (h.quiet hq).silent ⟨fun _ => rfl, fun _ => rfl⟩ fun k' hk' => ?_
        rw [List.mem_singleton.mp hk']
        refine ⟨⟨fun _ => rfl, fun _ => rfl⟩, fun o ho => ?_⟩
        split at ho
        · rename_i hret
          obtain ⟨e, he, rfl⟩ := List.mem_map.mp ho
          obtain ⟨hlt, hpoa⟩ := (h.quiet hq).formed.entries p e he
          refine ⟨hlt, fun x hx => ?_⟩
          rw [hpoa x hx]
          exact not_locates_of_retain hret
        · cases ho
  case traverse p rest inUse etherealize caller =>
    have hq : s.Quiet w s' := .traverse hr
    have hrest : ∀ o ∈ rest, s.Unlocated w o := h.stands _ (List.mem_cons_self ..)
    unfold State.traverse at hr
    split at hr
    · obtain ⟨x, -, hr⟩ := Outcomes.of_bind hr
      cases hr
      refine h.silent ⟨fun _ => rfl, fun _ => rfl⟩ fun k' hk' => ?_
      simp only [List.mem_cons, List.not_mem_nil, or_false] at hk'
      rcases hk' with rfl | rfl
      · exact ⟨⟨fun _ => rfl, fun _ => rfl⟩, hrest _ (List.mem_cons_self ..)⟩
      · exact ⟨⟨fun _ => rfl, fun _ => rfl⟩, fun o ho => hrest o (List.mem_cons_of_mem _ ho)⟩
    · exact hplain hq ⟨fun _ => rfl, fun _ => rfl⟩ (State.afterDeactivate_plain hr)
  case destroy p etherealize =>
    have hq : s.Quiet w s' := .destroy (Except.ok.inj hr)
    exact hplain hq ⟨fun _ => rfl, fun _ => rfl⟩ (State.destroy_plain (Except.ok.inj hr))
  case destroyChildren p etherealize i =>
    exact hplain (.destroyChildren hr) ⟨fun _ => rfl, fun _ => rfl⟩ (State.destroyChildren_plain hr)
  case destroyEnd p wait =>
    obtain ⟨-, hr⟩ := Outcomes.of_guard hr
    cases hr
    exact hplain (.refl s) ⟨fun _ => rfl, fun _ => rfl⟩ (by simp)
  all_goals cases hwait

theorem Locating.resumeTask {r : Reply} (h : Locating w (fun _ => true) s (k :: ts))
    (hwait : k.waits = true) (hpre : ∀ c, k = .preinvoke c → s.Locatable w c r)
    (hret : ∀ c cookie, k = .method c cookie → w.Locates c.poa →
      ∀ x ∈ s.objects c.object, 1 < x.refs)
    (hr : s.resumeTask w r k = .ok (s', ls)) : Locating w (fun _ => true) s' (ls ++ ts) := by
  have hplain : s.Quiet w s' → k.Silent → (∀ k' ∈ ls, k'.plain = true) →
      Locating w (fun _ => true) s' (ls ++ ts) := by
    intro hq hk hls
    exact (h.quiet hq).silent hk fun k' hk' => Task.silent_of_plain (hls k' hk')
  cases k <;> simp only [State.resumeTask] at hr
  case etherealize p o servant =>
    exact hplain (.callFinalize hr) ⟨fun _ => rfl, fun _ => rfl⟩ (State.callFinalize_plain hr)
  case finalize p o servant raised =>
    obtain ⟨s₁, hs₁, hr⟩ := Outcomes.of_bind hr
    cases hr
    exact hplain (.finalized hs₁) ⟨fun _ => rfl, fun _ => rfl⟩ (by simp)
  case incarnate c => exact h.incarnated hr
  case preinvoke c =>
    cases hsv : r.servant with
    | none => exact h.preinvoked_none (hpre c rfl) hsv hr
    | some servant =>
      obtain ⟨s₂, ls₂, hr₂, h₂, -⟩ := h.preinvoked_some (hpre c rfl) hsv
      cases hr.symm.trans hr₂
      exact h₂
  case method c cookie => exact h.returned (hret c cookie rfl) hr
  case postinvoke c cookie servant =>
    cases hr
    exact hplain (.refl s) ⟨fun _ => rfl, fun _ => rfl⟩ (by simp)
  all_goals cases hwait

@[simp] theorem queued_append (n : Nat) (cs cs' : List Call) :
    queued n (cs ++ cs') = queued n cs + queued n cs' := List.countP_append

/-- A new request is to be handled, or put into the queue. -/
theorem Locating.arrive {cs : List Call} (h : Locating w D s ts)
    (hl : ∀ k ∈ ls, k.Stands w D s) (hruns : ∀ o, runsOn o ls = 0)
    (hcs : ∀ c ∈ cs, c.Sits s ∧ s.visitsOf c.number = [])
    (hu : ∀ n, underWay n ls + queued n cs ≤ if n = s.nextCall then 1 else 0) :
    Locating w D { s with queue := s.queue ++ cs, nextCall := s.nextCall + 1 } (ls ++ ts) := by
  have hst : s.Steady w { s with queue := s.queue ++ cs, nextCall := s.nextCall + 1 } :=
    .congr rfl rfl rfl fun _ => ⟨fun _ => id, id⟩
  refine ⟨hst.formed h.formed, h.unasked, h.linked, fun o x hx hlx => ?_, fun k hk => ?_,
    fun c hc => ?_, fun n => ?_, fun n hle => ?_, fun n => ?_⟩
  · rw [runsOn_append, hruns, Nat.zero_add]
    exact h.running o x hx hlx
  · have hk : k.Stands w D s := by
      rcases List.mem_append.mp hk with hk | hk
      · exact hl k hk
      · exact h.stands k hk
    exact hk.steady h.formed hst (fun _ _ => rfl) fun _ _ => rfl
  · rcases List.mem_append.mp hc with hc | hc
    · exact h.queue c hc
    · exact hcs c hc
  · have hn := h.once n
    have := hu n
    rw [underWay_append, queued_append]
    show _ ≤ if n < s.nextCall + 1 then 1 else 0
    split at hn <;> split at this <;> split <;> omega
  · have hle : s.nextCall + 1 ≤ n := hle
    exact h.unseen n (by omega)
  · rw [underWay_append]
    rcases h.finished n with hf | hf | hf
    · exact .inl hf
    · exact .inr (.inl (by omega))
    · exact .inr (.inr hf)

theorem Call.underWay_tasks (c : Call) (n : Nat) :
    underWay n c.tasks = if c.number = n then 1 else 0 := by
  unfold Call.tasks
  split <;> simp [underWay, Task.underWay]

theorem Call.runsOn_tasks (c : Call) (o : Nat) : runsOn o c.tasks = 0 := by
  unfold Call.tasks
  split <;> simp [runsOn, Task.runsOn]

theorem Call.stands_tasks (hsits : c.Sits s) (hvis : s.visitsOf c.number = []) :
    ∀ k ∈ c.tasks, k.Stands w D s := by
  intro k hk
  unfold Call.tasks at hk
  rcases List.mem_cons.mp hk with rfl | hk
  · exact ⟨hsits, hvis⟩
  · split at hk
    · rw [List.mem_singleton.mp hk]
      trivial
    · cases hk

/-- The new request is handled here. -/
theorem Locating.arrive_tasks (h : Locating w D s ts) (hsits : c.Sits s)
    (hn : c.number = s.nextCall) :
    Locating w D { s with nextCall := s.nextCall + 1 } (c.tasks ++ ts) := by
  have hvis : s.visitsOf c.number = [] := h.unseen _ (by omega)
  have h' : Locating w D { s with queue := s.queue ++ [], nextCall := s.nextCall + 1 }
      (c.tasks ++ ts) := by
    refine h.arrive (Call.stands_tasks hsits hvis) (Call.runsOn_tasks c) (by simp) fun n => ?_
    rw [Call.underWay_tasks, hn]
    simp [queued, eq_comm]
  simpa using h'

/-- A request is taken from the queue. -/
theorem Locating.serve {i : Nat} (h : Locating w D s ts) (hi : s.queue[i]? = some c) :
    Locating w D { s with queue := s.queue.eraseIdx i } (c.tasks ++ ts) := by
  obtain ⟨hlt, rfl⟩ := List.getElem?_eq_some_iff.mp hi
  have hmem : s.queue[i] ∈ s.queue := List.getElem_mem hlt
  obtain ⟨hsits, hvis⟩ := h.queue _ hmem
  have hperm : (s.queue[i] :: s.queue.eraseIdx i).Perm s.queue :=
    List.getElem_cons_eraseIdx_perm hlt
  have hst : s.Steady w { s with queue := s.queue.eraseIdx i } :=
    .congr rfl rfl rfl fun _ => ⟨fun _ => id, id⟩
  refine ⟨hst.formed h.formed, h.unasked, h.linked, fun o x hx hlx => ?_, fun k hk => ?_,
    fun c hc => h.queue c (List.mem_of_mem_eraseIdx hc), fun n => ?_, h.unseen, fun n => ?_⟩
  · rw [runsOn_append, Call.runsOn_tasks, Nat.zero_add]
    exact h.running o x hx hlx
  · have hk : k.Stands w D s := by
      rcases List.mem_append.mp hk with hk | hk
      · exact Call.stands_tasks hsits hvis k hk
      · exact h.stands k hk
    exact hk.steady h.formed hst (fun _ _ => rfl) fun _ _ => rfl
  · have hn := h.once n
    have hcount : queued n s.queue = queued n (s.queue[i] :: s.queue.eraseIdx i) :=
      (hperm.countP_eq _).symm
    rw [underWay_append, Call.underWay_tasks]
    rw [hcount] at hn
    simp only [queued, List.countP_cons, decide_eq_true_eq] at hn ⊢
    omega
  · rw [underWay_append]
    rcases h.finished n with hf | hf | hf
    · exact .inl hf
    · exact .inr (.inl (by omega))
    · exact .inr (.inr hf)

/-- What an operation leaves to its thread, if it brings no request. -/
theorem State.perform_tasks {op : Operation} {r : Result} (hf : s.Formed) (hop : ¬ op.Requests)
    (hr : s.perform w op = .ok (s', ls, r)) :
    ∀ k ∈ ls, k.plain = true ∨
      ∃ p o, k = .deactivateObject p o true false ∧ s'.Unlocated w o := by
  have hq : s.Quiet w s' := .perform hf hop hr
  cases op <;> simp only [State.perform] at hr
  case deactivateObject p oid =>
    unfold State.poaDeactivateObject at hr
    obtain ⟨s₁, hs₁, hr⟩ := Outcomes.of_bind hr
    split at hr
    · cases hr
      simp
    · rename_i hret
      have hret : (w.policies p).retain = true := by simpa using hret
      obtain ⟨found, hfound, hr⟩ := Outcomes.of_bind hr
      split at hr
      · cases hr
        simp
      · rename_i o
        obtain ⟨s₂, hs₂, hr⟩ := Outcomes.of_bind hr
        cases hr
        have h₁ : s.Quiet w s₁ := .lock hs₁
        obtain ⟨hlt, hpoa⟩ := (h₁.formed hf).found hfound
        have hun : s₁.Unlocated w o := ⟨hlt, fun x hx => by
          rw [hpoa x hx]
          exact not_locates_of_retain hret⟩
        intro k hk
        simp only [List.mem_cons, List.not_mem_nil, or_false] at hk
        rcases hk with rfl | rfl | rfl
        · exact .inr ⟨p, o, rfl, hun.steady (State.Quiet.duplicate hs₂).toSteady⟩
        · exact .inl rfl
        · exact .inl rfl
  case destroy p etherealize wait =>
    unfold State.poaDestroy at hr
    obtain ⟨s₁, -, hr⟩ := Outcomes.of_bind hr
    dsimp only at hr
    split at hr
    · cases hr
      simp
    · obtain ⟨-, hr⟩ := Outcomes.of_guard hr
      split at hr
      · cases hr
        simp
      · cases hr
        refine fun k hk => .inl ?_
        simp only [List.mem_cons, List.not_mem_nil, or_false] at hk
        rcases hk with rfl | rfl | rfl <;> rfl
  case managerDeactivate m etherealize wait =>
    unfold State.managerDeactivate at hr
    dsimp only at hr
    split at hr
    · cases hr
      simp
    · obtain ⟨-, hr⟩ := Outcomes.of_guard hr
      split at hr
      · cases hr
        simp
      · cases hr
        refine fun k hk => .inl ?_
        split at hk
        · cases hk
        · rw [List.mem_singleton.mp hk]
          rfl
  case createPOA | setThreadHint | setServant | holdRequests | discardRequests =>
    cases hr
    simp
  case setServantManager =>
    split at hr <;> cases hr <;> simp
  case referenceToServant | referenceToId | currentGetPOA | currentGetObjectId =>
    obtain ⟨r₁, -, hr⟩ := Outcomes.of_bind hr
    cases hr
    simp
  case duplicateReference | releaseReference =>
    obtain ⟨s₁, -, hr⟩ := Outcomes.of_bind hr
    cases hr
    simp
  case invoke | incoming | serve => exact absurd trivial hop
  all_goals
    obtain ⟨⟨s₁, r₁⟩, -, hr⟩ := Outcomes.of_bind hr
    cases hr
    simp

theorem Locating.perform {op : Operation} {r : Result} (h : Locating w D s ts)
    (hr : s.perform w op = .ok (s', ls, r)) : Locating w D s' (ls ++ ts) := by
  by_cases hop : op.Requests
  · cases op <;> simp only [State.perform] at hr
    case invoke o opname =>
      obtain ⟨⟨s₁, tasks⟩, hs₁, hr⟩ := Outcomes.of_bind hr
      cases hr
      unfold State.invoke at hs₁
      obtain ⟨x, hx, hs₁⟩ := Outcomes.of_bind hs₁
      obtain ⟨-, hs₁⟩ := Outcomes.of_guard hs₁
      cases hs₁
      have hx := State.object_ok hx
      refine h.arrive_tasks ⟨h.formed.lt hx, fun y hy => ?_⟩ rfl
      cases hx.symm.trans hy
      rfl
    case incoming p oid opname =>
      obtain ⟨⟨s₁, tasks⟩, hs₁, hr⟩ := Outcomes.of_bind hr
      cases hr
      unfold State.incoming at hs₁
      obtain ⟨s₂, hs₂, hs₁⟩ := Outcomes.of_bind hs₁
      obtain ⟨⟨s₃, tasks⟩, hs₃, hs₁⟩ := Outcomes.of_bind hs₁
      cases hs₁
      have h₂ := h.quiet (.lock hs₂)
      obtain ⟨s₄, hq, hcases⟩ := State.assign_ok h₂.formed hs₃
      have h₄ := h₂.quiet hq
      have hunlock : ∀ (q : List Call) (n : Nat), { State.unlock w { s₄ with queue := q } p with
          nextCall := n } = State.unlock w { s₄ with queue := q, nextCall := n } p := by
        intro q n
        unfold State.unlock
        split <;> rfl
      rcases hcases with ⟨rfl, rfl⟩ | ⟨o, ho, hpoa, hcases⟩
      · have h₅ : Locating w D { s₃ with
            queue := s₃.queue ++ [], nextCall := s₃.nextCall + 1 } ([] ++ ts) :=
          h₄.arrive (by simp) (fun _ => rfl) (by simp) fun n => by simp [underWay, queued]
        rw [List.append_nil] at h₅
        exact hunlock s₃.queue (s₃.nextCall + 1) ▸ h₅.quiet .unlock
      · have hsits : Call.Sits s₄ ⟨p, o, opname, true, s₂.nextCall⟩ := ⟨ho, hpoa⟩
        rcases hcases with ⟨rfl, rfl⟩ | ⟨rfl, rfl⟩
        · have h₅ := h₄.arrive_tasks hsits hq.nextCall.symm
          exact hunlock s₃.queue (s₃.nextCall + 1) ▸ h₅.quiet .unlock
        · have hvis : s₄.visitsOf s₂.nextCall = [] := h₄.unseen _ (Nat.le_of_eq hq.nextCall)
          have h₅ : Locating w D { s₄ with
              queue := s₄.queue ++ [⟨p, o, opname, true, s₂.nextCall⟩]
              nextCall := s₄.nextCall + 1 } ([] ++ ts) := by
            refine h₄.arrive (by simp) (fun _ => rfl) (fun c hc => ?_) fun n => ?_
            · rw [List.mem_singleton.mp hc]
              exact ⟨hsits, hvis⟩
            · rw [hq.nextCall]
              simp [underWay, queued, List.countP_cons, eq_comm]
          exact hunlock _ (s₄.nextCall + 1) ▸ h₅.quiet .unlock
    case serve i =>
      split at hr
      · cases hr
        exact h
      · rename_i c hc
        cases hr
        exact h.serve hc
    all_goals cases hop
  · have hq : s.Quiet w s' := .perform h.formed hop hr
    refine (h.quiet hq).add fun k hk => ?_
    rcases State.perform_tasks h.formed hop hr k hk with hk | ⟨p, o, rfl, hun⟩
    · exact Task.silent_of_plain hk
    · exact ⟨⟨fun _ => rfl, fun _ => rfl⟩, hun⟩

theorem Locating.push {t : Nat} {rest : List (Nat × Task)}
    (h : Locating w D s (ls ++ rest.map (·.2))) :
    Locating w D (s.push t ls rest) (s.push t ls rest).pending := by
  have hp : (s.push t ls rest).pending = ls ++ rest.map (·.2) := by
    simp [State.push, State.pending, Function.comp_def]
  rw [hp]
  exact h.steady (.congr rfl rfl rfl fun _ => ⟨fun _ => id, id⟩) rfl rfl rfl

end

section
variable (w : World) (s : State)

/-- No other request for the object is with a servant when one is handled. -/
def State.AloneWith : Task → Prop
  | .request c => w.Locates c.poa → (s.managers (w.manager c.poa)).state = .active →
      ∀ x ∈ s.objects c.object, x.servant = none
  | _ => True

instance (k : Task) : Decidable (s.AloneWith w k) := by
  unfold State.AloneWith; induction k using Task.casesOn <;> infer_instance

/-- `preinvoke` returns a servant or an exception, and the object is still referred to when the
method returns. -/
def State.Leaves (r : Reply) : Task → Prop
  | .preinvoke c => s.Locatable w c r
  | .method c _ => w.Locates c.poa → ∀ x ∈ s.objects c.object, 1 < x.refs
  | _ => True

instance (r : Reply) (k : Task) : Decidable (s.Leaves w r k) := by
  unfold State.Leaves; induction k using Task.casesOn <;> infer_instance

/-- The steps that leave the requests of servant locators in order. -/
def State.CarefulLocator : Event → Prop
  | .call _ _ => True
  | .run t => ∀ k ∈ (nextTask t s.tasks).map (·.1), s.AloneWith w k
  | .answer t r => ∀ k ∈ (nextTask t s.tasks).map (·.1), s.Leaves w r k

instance (e : Event) : Decidable (s.CarefulLocator w e) := by
  unfold State.CarefulLocator; induction e using Event.casesOn <;> infer_instance

/-- What the requests at servant locators have seen. -/
structure State.Paired : Prop where
  /-- a request has seen nothing yet, or its method runs, or it has come to its end -/
  pairs : ∀ n, s.visitsOf n = [] ∨ Finished n (s.visitsOf n) ∨
    ∃ c cookie, .method c cookie ∈ s.pending ∧ c.number = n
  /-- the method that runs is that of the servant the request's own `preinvoke` returned -/
  running : ∀ c cookie, .method c cookie ∈ s.pending → w.Locates c.poa → s.Served c cookie true
  /-- an object is on the list of its servant, once, and on no other -/
  linked : ∀ o x, s.objects o = some x → w.Locates x.poa → ∀ sv,
    (s.privates sv).count o = if x.servant = some sv then 1 else 0
  /-- and it has a servant just while one method runs -/
  alone : ∀ o x, s.objects o = some x → w.Locates x.poa →
    runsOn o s.pending = if x.servant = none then 0 else 1

/-- What a step does for the request at a servant locator whose turn it is. -/
def State.Proceeds (e : Event) : Prop :=
  match e with
  | .call _ _ => True
  | .run t => ∀ c rest, nextTask t s.tasks = some (.request c, rest) → w.Locates c.poa →
      s.execute w e ≠ .error .nullServant
  | .answer t r =>
      (∀ c rest, nextTask t s.tasks = some (.preinvoke c, rest) → ∀ servant ∈ r.servant,
        ∃ s' oid vs, s.execute w e = .ok s' ∧ s'.visitsOf c.number =
          .preinvoke c.number oid c.opname r.cookie servant :: vs) ∧
      (∀ c cookie rest, nextTask t s.tasks = some (.method c cookie, rest) → w.Locates c.poa →
        s.execute w e = .error .blocked ∨ ∃ s' oid servant, s.execute w e = .ok s' ∧
          s'.visitsOf c.number = [.preinvoke c.number oid c.opname cookie servant,
            .dispatch c.number servant, .postinvoke c.number oid c.opname cookie servant])

end

section
variable {w : World} {s s' : State} {c : Call}

/-- The invariant between two steps. -/
def State.Located (w : World) (s : State) : Prop := Locating w (fun _ => true) s s.pending

theorem State.Located.execute {e : Event} (h : s.Located w) (hc : s.CarefulLocator w e)
    (hr : s.execute w e = .ok s') : s'.Located w := by
  cases e with
  | call t op =>
    unfold State.execute at hr
    dsimp only at hr
    split at hr
    · obtain ⟨⟨s₁, ls, r⟩, hs₁, hr⟩ := Outcomes.of_bind hr
      cases hr
      exact (Locating.perform h hs₁).push
    · cases hr
      exact h
  | run t =>
    unfold State.execute at hr
    dsimp only at hr
    split at hr
    · rename_i k rest hnext
      have hp := (perm_of_nextTask hnext).map (·.2)
      split at hr
      · cases hr
        exact h
      · rename_i hk
        obtain ⟨⟨s₁, ls⟩, hs₁, hr⟩ := Outcomes.of_bind hr
        cases hr
        have hck : s.AloneWith w k := hc k (by simp [hnext])
        refine ((Locating.perm h hp).runTask (by simpa using hk) ?_ hs₁).push
        rintro c rfl
        exact hck
    · cases hr
      exact h
  | answer t r =>
    unfold State.execute at hr
    dsimp only at hr
    split at hr
    · rename_i k rest hnext
      have hp := (perm_of_nextTask hnext).map (·.2)
      split at hr
      · rename_i hk
        obtain ⟨⟨s₁, ls⟩, hs₁, hr⟩ := Outcomes.of_bind hr
        cases hr
        have hck : s.Leaves w r k := hc k (by simp [hnext])
        refine ((Locating.perm h hp).resumeTask hk ?_ ?_ hs₁).push
        · rintro c rfl
          exact hck
        · rintro c cookie rfl
          exact hck
      · cases hr
        exact h
    · cases hr
      exact h

theorem State.Located.step {e : Event} (h : s.Located w) (hc : s.CarefulLocator w e) :
    (s.step w e).Located w := by
  unfold State.step
  split
  · exact h
  · split
    · rename_i s₁ hs₁
      exact h.execute hc hs₁
    · exact h
    · exact Locating.steady h (.congr rfl rfl rfl fun _ => ⟨fun _ => id, id⟩) rfl rfl rfl

theorem State.formed_init : State.init.Formed := by
  constructor <;> simp [State.init, POA.init]

theorem State.located_init (w : World) : State.init.Located w where
  formed := State.formed_init
  unasked _ _ hx := by cases hx
  linked _ _ hx := by cases hx
  running _ _ hx := by cases hx
  stands _ hk := by cases hk
  queue _ hc := by cases hc
  once _ := Nat.le_refl 0
  unseen _ _ := rfl
  finished _ := .inl rfl

theorem underWay_ne_zero {n : Nat} {ts : List Task} (h : 0 < underWay n ts) :
    ∃ k ∈ ts, k.underWay n ≠ 0 := by
  induction ts with
  | nil => exact absurd h (Nat.lt_irrefl 0)
  | cons k ts ih =>
    rw [underWay_cons] at h
    by_cases hk : k.underWay n = 0
    · obtain ⟨k', hk', hn⟩ := ih (by omega)
      exact ⟨k', List.mem_cons_of_mem _ hk', hn⟩
    · exact ⟨k, List.mem_cons_self .., hk⟩

theorem State.Located.paired (h : s.Located w) : s.Paired w where
  pairs n := by
    rcases h.finished n with hn | hn | hn
    · exact .inl hn
    · obtain ⟨k, hk, hkn⟩ := underWay_ne_zero hn
      have hst := h.stands k hk
      cases k with
      | request c =>
        have hcn : c.number = n := by simpa [Task.underWay] using hkn
        exact .inl (hcn ▸ hst.2)
      | incarnate c =>
        have hcn : c.number = n := by simpa [Task.underWay] using hkn
        exact .inl (hcn ▸ hst.2.1)
      | preinvoke c =>
        have hcn : c.number = n := by simpa [Task.underWay] using hkn
        exact .inl (hcn ▸ hst.2.1)
      | method c cookie =>
        have hcn : c.number = n := by simpa [Task.underWay] using hkn
        exact .inr (.inr ⟨c, cookie, hk, hcn⟩)
      | _ => exact absurd rfl hkn
    · exact .inr (.inl hn)
  running c cookie hk hloc := ((h.stands _ hk).2.1 hloc).2
  linked := h.linked
  alone := h.running

/-- One only waits for a lock. -/
theorem State.lock_error {p : Nat} {stop : Stop} (hl : s.lock w p = .error stop) :
    stop = .blocked := by
  unfold State.lock at hl
  split at hl
  · cases hl
  · split at hl
    · cases hl
      rfl
    · cases hl

/-- A request at a servant locator is dispatched to a servant only behind `preinvoke`. -/
theorem State.handleRequest_located (hsits : c.Sits s) (hloc : w.Locates c.poa)
    (hc : (s.managers (w.manager c.poa)).state = .active → ∀ x ∈ s.objects c.object,
      x.servant = none) : s.handleRequest w c ≠ .error .nullServant := by
  unfold State.handleRequest State.object
  cases hx : s.objects c.object with
  | none => exact fun h => nomatch h
  | some x =>
    have hpoa : x.poa = c.poa := hsits.2 x hx
    dsimp only
    rw [Outcomes.ok_bind]
    cases hl : s.lock w c.poa with
    | error stop =>
      rw [State.lock_error hl]
      exact fun h => nomatch h
    | ok s₁ =>
      rw [Outcomes.ok_bind, hpoa, hloc.2]
      split
      · exact fun h => nomatch h
      · exact fun h => nomatch h
      · exact fun h => nomatch h
      · rename_i hact
        rw [State.lock_managers hl] at hact
        rw [if_neg (not_not.mpr (hc hact x hx))]
        dsimp only
        split
        · exact fun h => nomatch h
        · exact fun h => nomatch h

theorem State.Located.proceeds {e : Event} (h : s.Located w) (hc : s.CarefulLocator w e) :
    s.Proceeds w e := by
  cases e with
  | call t op => trivial
  | run t =>
    intro c rest hnext hloc
    have hck : s.AloneWith w (.request c) := hc _ (by simp [hnext])
    have hp := (perm_of_nextTask hnext).map (·.2)
    have hsits : c.Sits s := ((Locating.perm h hp).stands _ (List.mem_cons_self ..)).1
    have hreq := State.handleRequest_located hsits hloc (hck hloc)
    unfold State.execute
    simp only [hnext, Task.waits, State.runTask]
    intro hr
    cases hs : s.handleRequest w c with
    | error stop =>
      rw [hs] at hr hreq
      cases hr
      exact hreq rfl
    | ok t =>
      rw [hs] at hr
      cases hr
  | answer t r =>
    refine ⟨fun c rest hnext servant hsv => ?_, fun c cookie rest hnext hloc => ?_⟩
    · have hck : s.Leaves w r (.preinvoke c) := hc _ (by simp [hnext])
      have hp := (perm_of_nextTask hnext).map (·.2)
      obtain ⟨s', ls, hr, -, oid, vs, hseen⟩ := (Locating.perm h hp).preinvoked_some hck hsv
      refine ⟨s'.push t ls rest, oid, vs, ?_, hseen⟩
      unfold State.execute
      simp only [hnext, Task.waits, State.resumeTask, hr, if_pos, Outcomes.ok_bind]
    · have hck : s.Leaves w r (.method c cookie) := hc _ (by simp [hnext])
      have hp := (perm_of_nextTask hnext).map (·.2)
      have hl := Locating.perm h hp
      unfold State.execute
      simp only [hnext, Task.waits, State.resumeTask, if_pos]
      cases hs₁ : s.lock w c.poa with
      | error stop =>
        unfold State.returned
        rw [hs₁, State.lock_error hs₁]
        exact .inl rfl
      | ok s₁ =>
        have h₁ := hl.quiet (.lock hs₁)
        obtain ⟨s₂, ls, hr, -, x, oid, servant, vs, -, -, -, hseen, hvs⟩ :=
          h₁.endRequest_located hloc (fun _ _ => rfl) fun x hx =>
            hck hloc x (by rwa [State.lock_objects hs₁] at hx)
        refine .inr ⟨s₂.push t ls rest, oid, servant, ?_, ?_⟩
        · unfold State.returned
          simp only [hs₁, hr, Outcomes.ok_bind]
        · exact hseen.trans (by rw [hvs]; rfl)

/-- In every run of careful steps the visits of every request are in order in every state, and
every step does for its request what it should. -/
theorem paired_of_careful (w : World) (es : List Event)
    (h : Runs.Meets (State.step w) (State.CarefulLocator w) .init es) :
    Runs.Always (State.step w) (State.Paired w) .init es ∧
    Runs.Meets (State.step w) (State.Proceeds w) .init es := by
  have hrun : Runs.Always (State.step w) (State.Located w) .init es :=
    h.always (fun s e hs hc => State.Located.step hs hc) (State.located_init w)
  exact ⟨hrun.imp fun s hs => State.Located.paired hs,
    h.imp (fun s e hs hc => State.Located.step hs hc)
      (fun s e hs hc => State.Located.proceeds hs hc) (State.located_init w)⟩

end

/-- One POA with a servant locator, and no other thread. -/
def locatorWorld : World where
  threadSafe := false
  threadIo := false
  endian := .little
  policies := fun _ => ⟨true, false, true, false, false, .servantManager⟩
  manager := fun _ => 0
  parent := fun _ => none
  classInfo := fun _ => ⟨[], fun _ => true, fun _ => false, true⟩

/-- Two references, and the method of a request at the first of them. -/
def firstRequest : List Event :=
  [.call 0 (.createPOA 0), .call 0 (.setServantManager 0), .call 0 (.managerActivate 0),
    .call 0 (.createReference 0 true [1, 2, 3, 4]), .call 0 (.createReference 0 true [1, 2, 3, 4]),
    .call 0 (.invoke 0 3), .run 0, .answer 0 ⟨some 7, 5, false⟩]

/-- The method invokes the other object, which is with the same servant. -/
def nestedOnOther : List Event := firstRequest ++
  [.call 0 (.invoke 1 4), .run 0, .answer 0 ⟨some 7, 6, false⟩, .answer 0 ⟨none, 0, false⟩,
    .answer 0 ⟨none, 0, false⟩, .run 0, .run 0, .answer 0 ⟨none, 0, false⟩,
    .answer 0 ⟨none, 0, false⟩, .run 0, .run 0]

theorem paired_nestedOnOther :
    Runs.Meets (State.step locatorWorld) (State.CarefulLocator locatorWorld) .init nestedOnOther ∧
    Runs.Always (State.step locatorWorld) (State.Paired locatorWorld) .init nestedOnOther :=
  ⟨by decide, (paired_of_careful locatorWorld nestedOnOther (by decide)).1⟩

/-- The method invokes its own object. -/
def nestedOnSame : List Event := firstRequest ++
  [.call 0 (.invoke 0 4), .run 0, .answer 0 ⟨none, 0, false⟩, .answer 0 ⟨none, 0, false⟩, .run 0,
    .run 0]

/-- The second request is dispatched without a `preinvoke` and takes the servant away from the
first one, whose end has only NULL for `postinvoke`. -/
theorem not_paired_nestedOnSame :
    ¬ State.Paired locatorWorld (State.run locatorWorld nestedOnSame) ∧
    (State.run locatorWorld nestedOnSame).visits =
      [.preinvoke 0 [1, 0, 0, 0, 1, 2, 3, 4] 3 5 7, .dispatch 0 7, .dispatch 1 7,
        .postinvoke 1 [1, 0, 0, 0, 1, 2, 3, 4] 4 0 7] ∧
    (State.run locatorWorld (nestedOnSame ++ [.answer 0 ⟨none, 0, false⟩])).stopped =
      some .nullServant := by
  refine ⟨fun h => ?_, by decide, by decide⟩
  have hmem : Task.method ⟨0, 0, 3, false, 0⟩ 5 ∈
      (State.run locatorWorld nestedOnSame).pending := by decide
  obtain ⟨x, oid, servant, hx, hsv, -⟩ := h.running _ _ hmem ⟨rfl, rfl⟩
  have hnone : ∀ y ∈ (State.run locatorWorld nestedOnSame).objects 0, y.servant = none := by
    decide
  rw [hnone x hx] at hsv
  cases hsv

end ORBit2.PortableServer
