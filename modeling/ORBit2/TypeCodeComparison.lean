import ORBit2.TypeCodeCore

/-! `CORBA_TypeCode_equal` and `CORBA_TypeCode_equivalent` on finite trees, with the leaves
`CORBA_tk_recursive` that stand for a TypeCode further up. -/

set_option autoImplicit false

namespace ORBit2
open CTypeCode (coreInfo coreInfo_kind blank hasParts)

inductive TypeCodeTree where
  | recursive (recurseDepth : Int)
  | node (info : TCInfo) (subtypes : List TypeCodeTree) (discriminator : Option TypeCodeTree)
  deriving Repr

namespace TypeCodeTree

/-- `while (obj->kind == CORBA_tk_alias) obj = obj->subtypes [0];` -/
def skipAlias : TypeCodeTree → TypeCodeTree
  | .recursive depth => .recursive depth
  | .node info subtypes discriminator =>
      match info.kind, subtypes with
      | .alias, tc :: _ => skipAlias tc
      | _, _ => .node info subtypes discriminator

mutual

/-- `typecode_equiv_internal`; `none` is a failed `g_assert`. -/
def typecodeEquivInternal (strictEqual : Bool) : TypeCodeTree → TypeCodeTree → Option Bool
  | .recursive depth, tc =>
      match if strictEqual then tc else tc.skipAlias with
      | .recursive depth' => some (depth == depth')
      | .node _ _ _ => some false
  | .node info subtypes discriminator, tc =>
      if strictEqual = false ∧ info.kind = .alias then
        equivHead strictEqual subtypes tc.skipAlias
      else
        match if strictEqual then tc else tc.skipAlias with
        | .recursive _ => some false
        | .node info' subtypes' discriminator' =>
            if info.kind ≠ info'.kind then some false
            else
              match info.kind with
              | .wstring | .string => some (info.length == info'.length)
              | .objref => some (info.repoId == info'.repoId)
              | .except | .struct =>
                  if info.repoId ≠ info'.repoId ∨ subtypes.length ≠ subtypes'.length then
                    some false
                  else equivMembers strictEqual subtypes subtypes'
              | .union =>
                  if info.repoId ≠ info'.repoId ∨ subtypes.length ≠ subtypes'.length then
                    some false
                  else
                    match equivDiscriminator strictEqual discriminator discriminator' with
                    | some true =>
                        if info.defaultIndex ≠ info'.defaultIndex then some false
                        else
                          equivArms strictEqual subtypes info.sublabels subtypes' info'.sublabels
                    | r => r
              | .enum =>
                  some (info.subnames.length == info'.subnames.length &&
                    info.repoId == info'.repoId && info.subnames == info'.subnames)
              | .sequence | .array =>
                  if info.length ≠ info'.length then some false
                  else if subtypes.length ≠ 1 ∨ subtypes'.length ≠ 1 then none
                  else equivMembers strictEqual subtypes subtypes'
              | .alias =>
                  if info.repoId ≠ info'.repoId then some false
                  else if subtypes.length ≠ 1 ∨ subtypes'.length ≠ 1 then none
                  else equivMembers strictEqual subtypes subtypes'
              | .fixed => some (info.digits == info'.digits && info.scale == info'.scale)
              | _ => some true

def equivHead (strictEqual : Bool) : List TypeCodeTree → TypeCodeTree → Option Bool
  | [], _ => none
  | sub :: _, tc => typecodeEquivInternal strictEqual sub tc

def equivDiscriminator (strictEqual : Bool) :
    Option TypeCodeTree → Option TypeCodeTree → Option Bool
  | some d, some d' => typecodeEquivInternal strictEqual d d'
  | _, _ => some false

def equivMembers (strictEqual : Bool) : List TypeCodeTree → List TypeCodeTree → Option Bool
  | sub :: subtypes, sub' :: subtypes' =>
      match typecodeEquivInternal strictEqual sub sub' with
      | some true => equivMembers strictEqual subtypes subtypes'
      | r => r
  | _, _ => some true

def equivArms (strictEqual : Bool) :
    List TypeCodeTree → List Int → List TypeCodeTree → List Int → Option Bool
  | sub :: subtypes, label :: labels, sub' :: subtypes', label' :: labels' =>
      match typecodeEquivInternal strictEqual sub sub' with
      | some true =>
          if label ≠ label' then some false
          else equivArms strictEqual subtypes labels subtypes' labels'
      | r => r
  | _, _, _, _ => some true

end

/-- `CORBA_TypeCode_equal`. -/
def equal (obj tc : TypeCodeTree) : Option Bool := typecodeEquivInternal true obj tc

/-- `CORBA_TypeCode_equivalent`. -/
def equivalent (obj tc : TypeCodeTree) : Option Bool := typecodeEquivInternal false obj tc

mutual

/-- The parts a TypeCode's kind calls for are there. -/
def wellFormed : TypeCodeTree → Bool
  | .recursive _ => true
  | .node info subtypes discriminator =>
      (match info.kind with
        | .union => discriminator.isSome && info.sublabels.length == subtypes.length
        | .sequence | .array | .alias => subtypes.length == 1
        | _ => true) && allWellFormed subtypes && discriminatorWellFormed discriminator

def allWellFormed : List TypeCodeTree → Bool
  | [] => true
  | tc :: tcs => wellFormed tc && allWellFormed tcs

def discriminatorWellFormed : Option TypeCodeTree → Bool
  | none => true
  | some tc => wellFormed tc

end

mutual

/-- Every alias replaced by its content. -/
def resolve : TypeCodeTree → TypeCodeTree
  | .recursive depth => .recursive depth
  | .node info subtypes discriminator =>
      match info.kind, subtypes with
      | .alias, tc :: _ => resolve tc
      | _, subtypes => .node info (resolveAll subtypes) (resolveDiscriminator discriminator)

def resolveAll : List TypeCodeTree → List TypeCodeTree
  | [] => []
  | tc :: tcs => resolve tc :: resolveAll tcs

def resolveDiscriminator : Option TypeCodeTree → Option TypeCodeTree
  | none => none
  | some tc => some (resolve tc)

end

mutual

/-- A TypeCode reduced to what is compared. -/
def core : TypeCodeTree → TypeCodeTree
  | .recursive depth => .recursive depth
  | .node info subtypes discriminator =>
      .node (coreInfo info) (if hasParts info.kind then coreAll subtypes else [])
        (if info.kind = .union then coreDiscriminator discriminator else none)

def coreAll : List TypeCodeTree → List TypeCodeTree
  | [] => []
  | tc :: tcs => core tc :: coreAll tcs

def coreDiscriminator : Option TypeCodeTree → Option TypeCodeTree
  | none => none
  | some tc => some (core tc)

end

theorem resolveAll_eq_map (tcs : List TypeCodeTree) : resolveAll tcs = tcs.map resolve := by
  induction tcs with
  | nil => rfl
  | cons tc tcs ih => rw [resolveAll, ih, List.map_cons]

theorem resolveDiscriminator_eq_map (d : Option TypeCodeTree) :
    resolveDiscriminator d = d.map resolve := by
  cases d <;> rfl

theorem coreAll_eq_map (tcs : List TypeCodeTree) : coreAll tcs = tcs.map core := by
  induction tcs with
  | nil => rfl
  | cons tc tcs ih => rw [coreAll, ih, List.map_cons]

theorem coreDiscriminator_eq_map (d : Option TypeCodeTree) :
    coreDiscriminator d = d.map core := by
  cases d <;> rfl

theorem allWellFormed_iff (tcs : List TypeCodeTree) :
    allWellFormed tcs = true ↔ ∀ tc ∈ tcs, tc.wellFormed = true := by
  induction tcs with
  | nil => simp [allWellFormed]
  | cons tc tcs ih => simp [allWellFormed, ih]

theorem wellFormed_node {info : TCInfo} {subtypes : List TypeCodeTree}
    {discriminator : Option TypeCodeTree}
    (h : (node info subtypes discriminator).wellFormed = true) :
    allWellFormed subtypes = true ∧ discriminatorWellFormed discriminator = true ∧
      (info.kind = .union → discriminator.isSome = true ∧
        info.sublabels.length = subtypes.length) ∧
      (info.kind = .sequence ∨ info.kind = .array ∨ info.kind = .alias →
        subtypes.length = 1) := by
  rw [wellFormed, Bool.and_eq_true, Bool.and_eq_true] at h
  obtain ⟨⟨hk, hs⟩, hd⟩ := h
  refine ⟨hs, hd, ?_, ?_⟩
  · intro hu
    simpa only [hu, Bool.and_eq_true, beq_iff_eq] using hk
  · rintro (hu | hu | hu) <;> simpa [hu] using hk

/-- An alias has exactly its content. -/
theorem alias_content {info : TCInfo} {subtypes : List TypeCodeTree}
    {discriminator : Option TypeCodeTree}
    (h : (node info subtypes discriminator).wellFormed = true) (hk : info.kind = .alias) :
    ∃ tc, subtypes = [tc] ∧ tc.wellFormed = true := by
  obtain ⟨hs, -, -, hone⟩ := wellFormed_node h
  have h1 := hone (.inr (.inr hk))
  obtain ⟨tc, rfl⟩ := List.length_eq_one_iff.1 h1
  exact ⟨tc, rfl, (allWellFormed_iff _).1 hs tc List.mem_cons_self⟩

theorem skipAlias_of_ne {info : TCInfo} {subtypes : List TypeCodeTree}
    {discriminator : Option TypeCodeTree} (h : info.kind ≠ .alias) :
    (node info subtypes discriminator).skipAlias = node info subtypes discriminator := by
  unfold skipAlias
  split
  · rename_i hk
    exact absurd hk h
  · rfl

theorem resolve_of_ne {info : TCInfo} {subtypes : List TypeCodeTree}
    {discriminator : Option TypeCodeTree} (h : info.kind ≠ .alias) :
    (node info subtypes discriminator).resolve =
      node info (subtypes.map resolve) (discriminator.map resolve) := by
  unfold resolve
  split
  · rename_i hk
    exact absurd hk h
  · rw [resolveAll_eq_map, resolveDiscriminator_eq_map]

theorem skipAlias_alias {info : TCInfo} (h : info.kind = .alias) (tc : TypeCodeTree)
    (subtypes : List TypeCodeTree) (discriminator : Option TypeCodeTree) :
    (node info (tc :: subtypes) discriminator).skipAlias = tc.skipAlias := by
  simp [skipAlias, h]

theorem resolve_alias {info : TCInfo} (h : info.kind = .alias) (tc : TypeCodeTree)
    (subtypes : List TypeCodeTree) (discriminator : Option TypeCodeTree) :
    (node info (tc :: subtypes) discriminator).resolve = tc.resolve := by
  simp [resolve, h]

/-- What is left after the loop over the aliases of a well-formed TypeCode. -/
theorem skipAlias_spec : (tc : TypeCodeTree) → tc.wellFormed = true →
    tc.skipAlias.wellFormed = true ∧ tc.skipAlias.resolve = tc.resolve ∧
      ∀ info subtypes discriminator,
        tc.skipAlias = node info subtypes discriminator → info.kind ≠ .alias
  | .recursive depth => by
    intro _
    exact ⟨rfl, rfl, nofun⟩
  | .node info [] discriminator => by
    intro h
    have hk : info.kind ≠ .alias := by
      intro hk
      obtain ⟨tc, hs, -⟩ := alias_content h hk
      cases hs
    rw [skipAlias_of_ne hk]
    refine ⟨h, rfl, ?_⟩
    intro info' subtypes' discriminator' he
    cases he
    exact hk
  | .node info (sub :: subtypes) discriminator => by
    intro h
    by_cases hk : info.kind = .alias
    · obtain ⟨tc, hs, hw⟩ := alias_content h hk
      cases hs
      have ih := skipAlias_spec sub hw
      rw [skipAlias_alias hk, resolve_alias hk]
      exact ih
    · rw [skipAlias_of_ne hk]
      refine ⟨h, rfl, ?_⟩
      intro info' subtypes' discriminator' he
      cases he
      exact hk

/-- What the comparison depends on. -/
def compared (strictEqual : Bool) (tc : TypeCodeTree) : TypeCodeTree :=
  if strictEqual then tc.core else tc.resolve.core

@[simp] theorem compared_recursive (strictEqual : Bool) (depth : Int) :
    compared strictEqual (.recursive depth) = .recursive depth := by
  cases strictEqual <;> rfl

theorem compared_node {strictEqual : Bool} {info : TCInfo} {subtypes : List TypeCodeTree}
    {discriminator : Option TypeCodeTree} (h : strictEqual = true ∨ info.kind ≠ .alias) :
    compared strictEqual (node info subtypes discriminator) =
      .node (coreInfo info)
        (if hasParts info.kind then subtypes.map (compared strictEqual) else [])
        (if info.kind = .union then discriminator.map (compared strictEqual) else none) := by
  cases strictEqual with
  | true =>
    have hc : compared true = core := rfl
    rw [hc, core, coreAll_eq_map, coreDiscriminator_eq_map]
  | false =>
    have hk : info.kind ≠ .alias := by simpa using h
    have hc : compared false = core ∘ resolve := rfl
    rw [hc, Function.comp_apply, resolve_of_ne hk, core, coreAll_eq_map,
      coreDiscriminator_eq_map, List.map_map, Option.map_map]

/-- The tree the recursion looks at on the right. -/
theorem target_spec (strictEqual : Bool) (tc : TypeCodeTree) (h : tc.wellFormed = true) :
    ∃ t, (if strictEqual then tc else tc.skipAlias) = t ∧ t.wellFormed = true ∧
      compared strictEqual t = compared strictEqual tc ∧
      ∀ info subtypes discriminator, t = node info subtypes discriminator →
        strictEqual = true ∨ info.kind ≠ .alias := by
  cases strictEqual with
  | true => exact ⟨tc, rfl, h, rfl, fun _ _ _ _ => .inl rfl⟩
  | false =>
    obtain ⟨hw, hr, hk⟩ := skipAlias_spec tc h
    refine ⟨tc.skipAlias, rfl, hw, ?_, fun info subtypes d he => .inr (hk info subtypes d he)⟩
    exact congrArg core hr

mutual

/-- `typecode_equiv_internal` is equality of what it compares, in both modes. -/
theorem typecodeEquivInternal_compared (strictEqual : Bool) : (tc : TypeCodeTree) →
    tc.wellFormed = true → ∀ tc' : TypeCodeTree, tc'.wellFormed = true →
      ∃ b, typecodeEquivInternal strictEqual tc tc' = some b ∧
        (b = true ↔ compared strictEqual tc = compared strictEqual tc')
  | .recursive depth, _, tc', h' => by
    obtain ⟨t, ht, -, hc, hk⟩ := target_spec strictEqual tc' h'
    unfold typecodeEquivInternal
    rw [ht, ← hc]
    cases t with
    | recursive depth' => exact ⟨_, rfl, by simp⟩
    | node info subtypes discriminator =>
      refine ⟨false, rfl, ?_⟩
      rw [compared_node (hk info subtypes discriminator rfl)]
      simp
  | .node info subtypes discriminator, h, tc', h' => by
    obtain ⟨t, ht, hw, hc, hk⟩ := target_spec strictEqual tc' h'
    by_cases hmode : strictEqual = false ∧ info.kind = .alias
    · -- the alias on the left is skipped too
      obtain ⟨sub, hs, hsub⟩ := alias_content h hmode.2
      subst hs
      obtain ⟨rfl, hkind⟩ := hmode
      have ht' : tc'.skipAlias = t := ht
      obtain ⟨b, hb, hiff⟩ := typecodeEquivInternal_compared false sub hsub t hw
      refine ⟨b, ?_, ?_⟩
      · rw [typecodeEquivInternal, if_pos ⟨rfl, hkind⟩, equivHead, ht', hb]
      · have hcontent : compared false (node info [sub] discriminator) = compared false sub :=
          congrArg core (resolve_alias hkind sub [] discriminator)
        rw [hiff, hc, hcontent]
    · have hmode' : strictEqual = true ∨ info.kind ≠ .alias := by
        cases strictEqual <;> simp_all
      obtain ⟨hs, hd, hu, hone⟩ := wellFormed_node h
      unfold typecodeEquivInternal
      rw [if_neg hmode, ht, ← hc, compared_node hmode']
      cases t with
      | recursive depth' => exact ⟨false, rfl, by simp⟩
      | node info' subtypes' discriminator' =>
        rw [compared_node (hk info' subtypes' discriminator' rfl)]
        obtain ⟨hs', hd', hu', hone'⟩ := wellFormed_node hw
        simp only
        by_cases hkk : info.kind = info'.kind
        · have hm := equivMembers_compared strictEqual subtypes hs subtypes' hs'
          rw [if_neg (by simpa using hkk)]
          rw [← hkk] at hu' hone'
          have hne : subtypes.length ≠ subtypes'.length →
              subtypes.map (compared strictEqual) ≠ subtypes'.map (compared strictEqual) := by
            intro hl hcc
            apply hl
            simpa using congrArg List.length hcc
          cases hkind : info.kind
          case union =>
            obtain ⟨hsome, hlabels⟩ := hu hkind
            obtain ⟨hsome', hlabels'⟩ := hu' hkind
            obtain ⟨d, rfl⟩ := Option.isSome_iff_exists.1 hsome
            obtain ⟨d', rfl⟩ := Option.isSome_iff_exists.1 hsome'
            obtain ⟨c, hcd, hciff⟩ := typecodeEquivInternal_compared strictEqual d hd d' hd'
            by_cases hid : info.repoId = info'.repoId
            · by_cases hl : subtypes.length = subtypes'.length
              · obtain ⟨e, he, heiff⟩ := equivArms_compared strictEqual subtypes hs subtypes' hs'
                  hl info.sublabels info'.sublabels hlabels hlabels'
                cases c
                · refine ⟨false, by simp [hid, hl, equivDiscriminator, hcd], ?_⟩
                  have hdd : compared strictEqual d ≠ compared strictEqual d' :=
                    fun hcc => by simp [hcc] at hciff
                  simp [← hkk, hkind, hdd]
                · have hdd : compared strictEqual d = compared strictEqual d' := hciff.1 rfl
                  by_cases hdef : info.defaultIndex = info'.defaultIndex
                  · refine ⟨e, by simp [hid, hl, equivDiscriminator, hcd, hdef, he], ?_⟩
                    rw [heiff]
                    simp [coreInfo, blank, hasParts, hkind, ← hkk, hdd, hid, hdef, and_comm]
                  · refine ⟨false, by simp [hid, hl, equivDiscriminator, hcd, hdef], ?_⟩
                    simp [coreInfo, hkind, ← hkk, hdef]
              · refine ⟨false, by simp [hl], ?_⟩
                simp [hasParts, hkind, ← hkk, hne hl]
            · refine ⟨false, by simp [hid], ?_⟩
              simp [coreInfo, hkind, ← hkk, hid]
          case sequence | array =>
            have h1 := hone (by simp [hkind])
            have h1' := hone' (by simp [hkind])
            obtain ⟨b, hb, hiff⟩ := hm (by rw [h1, h1'])
            by_cases hlen : info.length = info'.length
            · refine ⟨b, by simp [hlen, h1, h1', hb], ?_⟩
              rw [hiff]
              simp [coreInfo, blank, hasParts, hkind, ← hkk, hlen]
            · refine ⟨false, by simp [hlen], ?_⟩
              simp [coreInfo, hkind, ← hkk, hlen]
          case «alias» =>
            have h1 := hone (by simp [hkind])
            have h1' := hone' (by simp [hkind])
            obtain ⟨b, hb, hiff⟩ := hm (by rw [h1, h1'])
            by_cases hid : info.repoId = info'.repoId
            · refine ⟨b, by simp [hid, h1, h1', hb], ?_⟩
              rw [hiff]
              simp [coreInfo, blank, hasParts, hkind, ← hkk, hid]
            · refine ⟨false, by simp [hid], ?_⟩
              simp [coreInfo, hkind, ← hkk, hid]
          case struct | except =>
            by_cases hid : info.repoId = info'.repoId
            · by_cases hl : subtypes.length = subtypes'.length
              · obtain ⟨b, hb, hiff⟩ := hm hl
                refine ⟨b, by simp [hid, hl, hb], ?_⟩
                rw [hiff]
                simp [coreInfo, blank, hasParts, hkind, ← hkk, hid]
              · refine ⟨false, by simp [hl], ?_⟩
                simp [hasParts, hkind, ← hkk, hne hl]
            · refine ⟨false, by simp [hid], ?_⟩
              simp [coreInfo, hkind, ← hkk, hid]
          case enum =>
            refine ⟨_, rfl, ?_⟩
            simp only [coreInfo, blank, hasParts, hkind, ← hkk, beq_iff_eq, Bool.and_eq_true]
            constructor
            · rintro ⟨⟨_, hid⟩, hsub⟩
              simp [hid, hsub]
            · intro hcc
              simp only [node.injEq, TCInfo.mk.injEq] at hcc
              obtain ⟨⟨_, _, _, hid, hsub, _⟩, _⟩ := hcc
              exact ⟨⟨congrArg List.length hsub, hid⟩, hsub⟩
          all_goals
            refine ⟨_, rfl, ?_⟩
            simp only [coreInfo, blank, hasParts, hkind, ← hkk]
            simp
        · refine ⟨false, by rw [if_pos (by simpa using hkk)], ?_⟩
          have hne : coreInfo info ≠ coreInfo info' := by
            intro hcc
            have hck := congrArg TCInfo.kind hcc
            rw [coreInfo_kind, coreInfo_kind] at hck
            exact hkk hck
          simp [hne]

theorem equivMembers_compared (strictEqual : Bool) : (tcs : List TypeCodeTree) →
    allWellFormed tcs = true → ∀ tcs' : List TypeCodeTree, allWellFormed tcs' = true →
      tcs.length = tcs'.length →
      ∃ b, equivMembers strictEqual tcs tcs' = some b ∧
        (b = true ↔ tcs.map (compared strictEqual) = tcs'.map (compared strictEqual))
  | [], _, [], _, _ => ⟨true, by simp [equivMembers], by simp⟩
  | tc :: tcs, h, tc' :: tcs', h', hl => by
    rw [allWellFormed, Bool.and_eq_true] at h h'
    obtain ⟨b, hb, hiff⟩ := typecodeEquivInternal_compared strictEqual tc h.1 tc' h'.1
    obtain ⟨c, hc, hciff⟩ := equivMembers_compared strictEqual tcs h.2 tcs' h'.2 (by simpa using hl)
    rw [equivMembers, hb]
    simp only [List.map_cons, List.cons.injEq, ← hiff, ← hciff]
    cases b
    · exact ⟨false, rfl, by simp⟩
    · exact ⟨c, hc, by simp⟩

theorem equivArms_compared (strictEqual : Bool) : (tcs : List TypeCodeTree) →
    allWellFormed tcs = true → ∀ tcs' : List TypeCodeTree, allWellFormed tcs' = true →
      tcs.length = tcs'.length →
      ∀ labels labels' : List Int, labels.length = tcs.length → labels'.length = tcs'.length →
      ∃ b, equivArms strictEqual tcs labels tcs' labels' = some b ∧
        (b = true ↔ tcs.map (compared strictEqual) = tcs'.map (compared strictEqual) ∧
          labels = labels')
  | [], _, [], _, _, [], [], _, _ => ⟨true, by simp [equivArms], by simp⟩
  | tc :: tcs, h, tc' :: tcs', h', hl, label :: labels, label' :: labels', hn, hn' => by
    rw [allWellFormed, Bool.and_eq_true] at h h'
    obtain ⟨b, hb, hiff⟩ := typecodeEquivInternal_compared strictEqual tc h.1 tc' h'.1
    obtain ⟨c, hc, hciff⟩ := equivArms_compared strictEqual tcs h.2 tcs' h'.2 (by simpa using hl)
      labels labels' (by simpa using hn) (by simpa using hn')
    rw [equivArms, hb]
    simp only [List.map_cons, List.cons.injEq, ← hiff]
    cases b
    · exact ⟨false, rfl, by simp⟩
    · by_cases hlabel : label = label'
      · refine ⟨c, by simpa [hlabel] using hc, ?_⟩
        rw [hciff]
        simp [hlabel]
      · exact ⟨false, by simp [hlabel], by simp [hlabel]⟩

end

theorem equal_spec {a b : TypeCodeTree} (ha : a.wellFormed = true) (hb : b.wellFormed = true) :
    ∃ r, a.equal b = some r ∧ (r = true ↔ a.core = b.core) :=
  typecodeEquivInternal_compared true a ha b hb

theorem equivalent_spec {a b : TypeCodeTree} (ha : a.wellFormed = true)
    (hb : b.wellFormed = true) :
    ∃ r, a.equivalent b = some r ∧ (r = true ↔ a.resolve.core = b.resolve.core) :=
  typecodeEquivInternal_compared false a ha b hb

mutual

theorem wellFormed_resolve : (tc : TypeCodeTree) → tc.wellFormed = true →
    tc.resolve.wellFormed = true
  | .recursive depth, _ => rfl
  | .node info subtypes discriminator, h => by
    obtain ⟨hs, hd, -, -⟩ := wellFormed_node h
    have hs' := allWellFormed_resolve subtypes hs
    have hd' := discriminatorWellFormed_resolve discriminator hd
    by_cases hk : info.kind = .alias
    · obtain ⟨sub, rfl, -⟩ := alias_content h hk
      rw [resolve_alias hk]
      simpa [resolveAll, allWellFormed] using hs'
    · have hres : (node info subtypes discriminator).resolve =
          node info (resolveAll subtypes) (resolveDiscriminator discriminator) := by
        rw [resolve_of_ne hk, resolveAll_eq_map, resolveDiscriminator_eq_map]
      rw [hres, wellFormed, hs', hd']
      rw [wellFormed, hs, hd] at h
      rw [resolveAll_eq_map, resolveDiscriminator_eq_map]
      simpa using h

theorem allWellFormed_resolve : (tcs : List TypeCodeTree) → allWellFormed tcs = true →
    allWellFormed (resolveAll tcs) = true
  | [], _ => rfl
  | tc :: tcs, h => by
    rw [allWellFormed, Bool.and_eq_true] at h
    rw [resolveAll, allWellFormed, wellFormed_resolve tc h.1, allWellFormed_resolve tcs h.2]
    rfl

theorem discriminatorWellFormed_resolve : (d : Option TypeCodeTree) →
    discriminatorWellFormed d = true → discriminatorWellFormed (resolveDiscriminator d) = true
  | none, _ => rfl
  | some tc, h => wellFormed_resolve tc h

end

theorem coreInfo_coreInfo (info : TCInfo) : coreInfo (coreInfo info) = coreInfo info := by
  cases hk : info.kind <;> simp [coreInfo, blank, hk]

mutual

/-- Taking the aliases out needs nothing but what is compared. -/
theorem core_resolve_core : (tc : TypeCodeTree) → tc.core.resolve.core = tc.resolve.core
  | .recursive depth => rfl
  | .node info subtypes discriminator => by
    have hs := core_resolve_coreAll subtypes
    have hd := core_resolve_coreDiscriminator discriminator
    by_cases hk : info.kind = .alias
    · cases subtypes with
      | nil => simp [core, resolve, resolveAll, coreAll, hk, coreInfo_coreInfo]
      | cons sub subtypes =>
        have ih := core_resolve_core sub
        rw [resolve_alias hk, ← ih, core]
        simp [resolve, hk, hasParts, coreAll]
    · have hk' : (coreInfo info).kind ≠ .alias := by rwa [coreInfo_kind]
      rw [core, resolve_of_ne hk', resolve_of_ne hk, core, core, coreInfo_coreInfo, coreInfo_kind,
        ← resolveAll_eq_map, ← resolveAll_eq_map, ← resolveDiscriminator_eq_map,
        ← resolveDiscriminator_eq_map, ← hs, ← hd]
      by_cases hu : info.kind = .union
      · simp [hu, hasParts]
      · by_cases hp : hasParts info.kind = true <;> simp [hp, hu]

theorem core_resolve_coreAll : (tcs : List TypeCodeTree) →
    coreAll (resolveAll (coreAll tcs)) = coreAll (resolveAll tcs)
  | [] => rfl
  | tc :: tcs => by
    simp only [coreAll, resolveAll]
    rw [core_resolve_core tc, core_resolve_coreAll tcs]

theorem core_resolve_coreDiscriminator : (d : Option TypeCodeTree) →
    coreDiscriminator (resolveDiscriminator (coreDiscriminator d)) =
      coreDiscriminator (resolveDiscriminator d)
  | none => rfl
  | some tc => by
    simp only [coreDiscriminator, resolveDiscriminator]
    rw [core_resolve_core tc]

end

/-- The laws of both comparisons. -/
theorem comparison_laws {a b c : TypeCodeTree} (ha : a.wellFormed = true)
    (hb : b.wellFormed = true) (hc : c.wellFormed = true) :
    (∃ r, a.equivalent b = some r ∧ a.resolve.equal b.resolve = some r) ∧
    (a.equal b = some true → a.equivalent b = some true) ∧
    (a.equal a = some true ∧ a.equivalent a = some true) ∧
    (a.equal b = b.equal a ∧ a.equivalent b = b.equivalent a) ∧
    (a.equal b = some true → b.equal c = some true → a.equal c = some true) ∧
    (a.equivalent b = some true → b.equivalent c = some true → a.equivalent c = some true) := by
  obtain ⟨e, he, heiff⟩ := equal_spec ha hb
  obtain ⟨e', he', heiff'⟩ := equal_spec hb ha
  obtain ⟨v, hv, hviff⟩ := equivalent_spec ha hb
  obtain ⟨v', hv', hviff'⟩ := equivalent_spec hb ha
  obtain ⟨r, hr, hriff⟩ := equal_spec (wellFormed_resolve a ha) (wellFormed_resolve b hb)
  have holds : ∀ {o : Option Bool} {x : Bool} {p : Prop}, o = some x → (x = true ↔ p) →
      (o = some true ↔ p) := by
    rintro o x p rfl hp
    simpa using hp
  have hequal : ∀ {x y : TypeCodeTree}, x.wellFormed = true → y.wellFormed = true →
      (x.equal y = some true ↔ x.core = y.core) := by
    intro x y hx hy
    obtain ⟨w, hw, hwiff⟩ := equal_spec hx hy
    exact holds hw hwiff
  have hequivalent : ∀ {x y : TypeCodeTree}, x.wellFormed = true → y.wellFormed = true →
      (x.equivalent y = some true ↔ x.resolve.core = y.resolve.core) := by
    intro x y hx hy
    obtain ⟨w, hw, hwiff⟩ := equivalent_spec hx hy
    exact holds hw hwiff
  refine ⟨⟨v, hv, ?_⟩, ?_, ⟨(hequal ha ha).2 rfl, (hequivalent ha ha).2 rfl⟩, ⟨?_, ?_⟩, ?_, ?_⟩
  · rw [hr, Option.some.injEq, Bool.eq_iff_iff, hriff, hviff]
  · rw [hequal ha hb, hequivalent ha hb, ← core_resolve_core a, ← core_resolve_core b]
    intro h
    rw [h]
  · rw [he, he', Option.some.injEq, Bool.eq_iff_iff, heiff, heiff', eq_comm]
  · rw [hv, hv', Option.some.injEq, Bool.eq_iff_iff, hviff, hviff', eq_comm]
  · rw [hequal ha hb, hequal hb hc, hequal ha hc]
    exact Eq.trans
  · rw [hequivalent ha hb, hequivalent hb hc, hequivalent ha hc]
    exact Eq.trans

def leaf (kind : TCKind) : TypeCodeTree := .node (blank kind) [] none

def aliasOf (repoId : List UInt8) (tc : TypeCodeTree) : TypeCodeTree :=
  .node { blank .alias with repoId := repoId } [tc] none

theorem comparison_laws_aliasOf :
    (aliasOf [65] (leaf .long)).equivalent (leaf .long) =
      (leaf .long).equivalent (aliasOf [65] (leaf .long)) ∧
    ∃ r, (aliasOf [65] (leaf .long)).equivalent (leaf .long) = some r ∧
      (aliasOf [65] (leaf .long)).resolve.equal (leaf .long).resolve = some r := by
  have h := comparison_laws (a := aliasOf [65] (leaf .long)) (b := leaf .long)
    (c := aliasOf [66] (aliasOf [65] (leaf .long))) (by decide) (by decide)
    (by decide)
  exact ⟨h.2.2.2.1.2, h.1⟩

end TypeCodeTree
end ORBit2
