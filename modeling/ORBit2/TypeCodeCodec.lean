import ORBit2.TypeCodeReferences

/-! TypeCodes sent and received: a tree arrives as it was sent, and a graph whose nodes are
shared arrives as long as no reference leaves the encapsulation it stands in. -/

set_option autoImplicit false

namespace ORBit2
open Words

/-- The buffer holds a message in which `bytes` were written at `size`, and is being read
there. -/
structure Receives (sender : Endian) (size : Nat) (bytes rest : List UInt8) (c : RecvCursor) :
    Prop where
  base : 8 ∣ c.base
  cur : c.cur = 12 + size
  sender : c.sender = sender
  data : ∃ written : List UInt8, written.length = 12 + size ∧ c.data = written ++ (bytes ++ rest)

/-- `CORBA_TypeCode_equal` accepts what is read. -/
def DecodesEqual (g : TCGraph) (c : RecvCursor) : Prop :=
  ∃ tc s tc', decodeTypeCode c = .ok tc s ∧ tc.read = some tc' ∧ g.plain.equal tc' = some true

theorem Receives.stands {sender : Endian} {size : Nat} {bytes rest : List UInt8} {c : RecvCursor}
    (h : Receives sender size bytes rest c) :
    Stands sender 0 ⟨c, [], 0⟩ size (bytes ++ rest) := by
  obtain ⟨written, hw, hd⟩ := h.data
  have hc := h.cur
  refine ⟨⟨c.base, h.base, ?_⟩, rfl, ?_, h.sender, ?_, ?_⟩
  · simp only
    omega
  · simp only
    omega
  · simp only [hd, List.length_append]
    omega
  · simp only [hc, hd, ← hw, List.drop_left]

/-- The addresses of a graph lead to its nodes. -/
theorem TCGraph.Consistent.table {g : TCGraph} (h : g.Consistent) :
    ∃ table : Nat → TCGraph, ∀ node ∈ g.nodes, table node.addr = node := by
  refine ⟨fun a => (g.nodes.find? (·.addr == a)).getD g, ?_⟩
  intro node hm
  cases hf : g.nodes.find? (·.addr == node.addr) with
  | none =>
    have hn := List.find?_eq_none.1 hf node hm
    simp at hn
  | some node' =>
    have ha := List.find?_some hf
    have he := h node' (List.mem_of_find?_eq_some hf) node hm (by simpa using ha)
    simpa [hf] using he

/-- A graph that is sent arrives, unless a reference is not found. -/
theorem decodeTypeCode_encoded {g : TCGraph} {sender : Endian} {size : Nat} {r : Encoded}
    {rest : List UInt8} {c : RecvCursor} (hg : g.sendable = true) (hc : g.Consistent)
    (henc : encodeTypeCode sender g size = some r) (hlt : 12 + size + r.bytes.length < 2^32)
    (hr : Receives sender size r.bytes rest c) :
    ∃ s, decodeTypeCode c = (if r.refs.all BackRef.near then .ok g.image s else .crash) ∧
      s.cursor = { c with cur := c.cur + r.bytes.length } := by
  obtain ⟨table, ht⟩ := hc.table
  have hs := hr.stands
  have hl := hs.length
  rw [List.length_append] at hl
  have hknown : Known table [] [] [] size := ⟨by simp, by simp, by simp⟩
  obtain ⟨new, hm, _⟩ := tcEnc_reads table sender g hg ht (by simp) henc hs hlt
    (show r.bytes.length ≤ c.data.length + 1 by simp only at hl; omega) hknown
  exact ⟨_, hm, rfl⟩

theorem encodeTypeCode_tracks {g : TCGraph} {sender : Endian} {size : Nat} {r : Encoded}
    (hg : g.sendable = true) (henc : encodeTypeCode sender g size = some r) :
    r.refs.map BackRef.inside = (g.references [] []).1 ∧
      ∀ ref ∈ r.refs, ref.stop ≤ 12 + size + r.bytes.length := by
  have hsplit : Split [] 0 [] [] size := ⟨by omega, by simp, by simp, by simp, by simp⟩
  obtain ⟨hr, hb, _⟩ := tcEnc_tracks sender g hg [] 0 henc hsplit
  exact ⟨hr, hb⟩

/-- No two positions in a message of at most 2 GiB are further apart than a reference can
say. -/
theorem refs_near_iff {g : TCGraph} {sender : Endian} {size : Nat} {r : Encoded}
    (hg : g.sendable = true) (henc : encodeTypeCode sender g size = some r)
    (hlt : 12 + size + r.bytes.length ≤ 2^31) :
    r.refs.all BackRef.near = true ↔ g.Local := by
  obtain ⟨hr, hb⟩ := encodeTypeCode_tracks hg henc
  rw [TCGraph.Local, ← hr, List.all_eq_true]
  constructor
  · intro h inside hm
    obtain ⟨ref, href, rfl⟩ := List.mem_map.1 hm
    have hstop := hb ref href
    rw [← BackRef.near_eq_inside (by omega)]
    exact h ref href
  · intro h ref href
    have hstop := hb ref href
    rw [BackRef.near_eq_inside (by omega)]
    exact h _ (List.mem_map_of_mem href)

/-- A shared TypeCode that is met again outside the encapsulation where it was first met is
written as a reference that the decoder does not find. -/
theorem decodesEqual_iff_local {g : TCGraph} {sender : Endian} {size : Nat} {r : Encoded}
    {rest : List UInt8} {c : RecvCursor} (hg : g.sendable = true) (hc : g.Consistent)
    (henc : encodeTypeCode sender g size = some r) (hlt : 12 + size + r.bytes.length ≤ 2^31)
    (hr : Receives sender size r.bytes rest c) : DecodesEqual g c ↔ g.Local := by
  obtain ⟨s, hd, _⟩ := decodeTypeCode_encoded hg hc henc (by omega) hr
  rw [← refs_near_iff hg henc hlt]
  constructor
  · rintro ⟨tc, s', tc', hok, _⟩
    by_contra hn
    rw [hd, if_neg hn] at hok
    cases hok
  · intro hn
    rw [if_pos hn] at hd
    exact ⟨_, _, _, hd, TCGraph.read_image g hg, TCGraph.equal_sent g hg⟩

/-- A struct with the members `a`, `b` and so on. -/
def structNode (addr : Nat) (tcs : List TCGraph) : TCGraph :=
  .node addr { TCInfo.bare .struct with
    subnames := (List.range tcs.length).map fun i => [UInt8.ofNat (97 + i)] } tcs none

/-- `struct A { long a; };` -/
def shared : TCGraph := structNode 1 [.node 0 (TCInfo.bare .long) [] none]

/-- `struct { A a; A b; };` -/
def sharedInside : TCGraph := structNode 3 [shared, shared]

/-- `struct { A a; struct { A a; } b; };` -/
def sharedOutside : TCGraph := structNode 3 [shared, structNode 2 [shared]]

/-- The bytes of a message in a buffer of a big-endian host. -/
def received (bytes : List UInt8) : RecvCursor :=
  ⟨0, List.replicate 12 0 ++ (bytes ++ []), 12, .big, .little⟩

theorem receives_received (bytes : List UInt8) : Receives .little 0 bytes [] (received bytes) :=
  ⟨⟨0, rfl⟩, rfl, rfl, ⟨_, List.length_replicate, rfl⟩⟩

theorem sharedInside_consistent : sharedInside.Consistent := by
  intro node hm node' hm' he
  have hn : sharedInside.nodes = [sharedInside, shared, shared] := rfl
  simp only [hn, List.mem_cons, List.not_mem_nil, or_false] at hm hm'
  rcases hm with rfl | rfl | rfl <;> rcases hm' with rfl | rfl | rfl <;>
    first | rfl | exact absurd he (by decide)

theorem sharedOutside_consistent : sharedOutside.Consistent := by
  intro node hm node' hm' he
  have hn : sharedOutside.nodes = [sharedOutside, shared, structNode 2 [shared], shared] := rfl
  simp only [hn, List.mem_cons, List.not_mem_nil, or_false] at hm hm'
  rcases hm with rfl | rfl | rfl | rfl <;> rcases hm' with rfl | rfl | rfl | rfl <;>
    first | rfl | exact absurd he (by decide)

theorem decodesEqual_sharedInside : ∃ r, encodeTypeCode .little sharedInside 0 = some r ∧
    12 + 0 + r.bytes.length ≤ 2^31 ∧
    (DecodesEqual sharedInside (received r.bytes) ↔ sharedInside.Local) := by
  have hlen : (encodeTypeCode .little sharedInside 0).any (·.bytes.length ≤ 200) = true := by
    decide_cbv
  obtain ⟨r, henc, hr⟩ := (Option.any_eq_true _ _).1 hlen
  have hb : 12 + 0 + r.bytes.length ≤ 2^31 := by
    have hr := of_decide_eq_true hr
    omega
  exact ⟨r, henc, hb, decodesEqual_iff_local (by decide) sharedInside_consistent henc hb
    (receives_received r.bytes)⟩

/-- The second `A` refers out of the encapsulation of the inner struct. -/
theorem sharedOutside_not_decodesEqual : sharedOutside.sendable = true ∧
    sharedOutside.Consistent ∧ ∃ r, encodeTypeCode .little sharedOutside 0 = some r ∧
      12 + 0 + r.bytes.length ≤ 2^31 ∧ Receives .little 0 r.bytes [] (received r.bytes) ∧
      ¬ DecodesEqual sharedOutside (received r.bytes) := by
  have hg : sharedOutside.sendable = true := by decide
  have hlen : (encodeTypeCode .little sharedOutside 0).any (·.bytes.length ≤ 200) = true := by
    decide_cbv
  obtain ⟨r, henc, hr⟩ := (Option.any_eq_true _ _).1 hlen
  have hb : 12 + 0 + r.bytes.length ≤ 2^31 := by
    have hr := of_decide_eq_true hr
    omega
  refine ⟨hg, sharedOutside_consistent, r, henc, hb, receives_received r.bytes, ?_⟩
  have hlocal : ¬ sharedOutside.Local := fun h => absurd (h false (by decide)) (by decide)
  obtain ⟨s, hd, _⟩ := decodeTypeCode_encoded hg sharedOutside_consistent henc (by omega)
    (receives_received r.bytes)
  rw [if_neg (mt (refs_near_iff hg henc hb).1 hlocal)] at hd
  rintro ⟨tc, s', tc', hok, _⟩
  rw [hd] at hok
  cases hok

/-! ### Trees -/

namespace TCGraph

/-- As long as none of the nodes has been met, and none comes twice, there is no reference. -/
def Fresh (outside addrs : List Nat) (f : (inside : List Nat) → List Bool × List Nat) : Prop :=
  addrs.Nodup → ∀ inside, (∀ a ∈ addrs, a ∉ inside ∧ a ∉ outside) →
    (f inside).1 = [] ∧ ∀ a ∈ (f inside).2, a ∈ inside ∨ a ∈ addrs

theorem Fresh.seq {outside addrs addrs' : List Nat}
    {f g : (inside : List Nat) → List Bool × List Nat} (hf : Fresh outside addrs f)
    (hg : Fresh outside addrs' g) :
    Fresh outside (addrs ++ addrs') fun inside =>
      ((f inside).1 ++ (g (f inside).2).1, (g (f inside).2).2) := by
  intro hn inside hi
  obtain ⟨hn₁, hn₂, hd⟩ := List.nodup_append.1 hn
  obtain ⟨hf₁, hf₂⟩ := hf hn₁ inside fun a ha => hi a (List.mem_append_left _ ha)
  obtain ⟨hg₁, hg₂⟩ := hg hn₂ (f inside).2 (by
    intro a ha
    obtain ⟨hin, hout⟩ := hi a (List.mem_append_right _ ha)
    refine ⟨?_, hout⟩
    intro hm
    rcases hf₂ a hm with hm | hm
    · exact hin hm
    · exact hd a hm a ha rfl)
  refine ⟨by simp only [hf₁, hg₁, List.append_nil], ?_⟩
  intro a ha
  rcases hg₂ a ha with ha | ha
  · rcases hf₂ a ha with ha | ha
    · exact .inl ha
    · exact .inr (List.mem_append_left _ ha)
  · exact .inr (List.mem_append_right _ ha)

theorem Fresh.nil {outside : List Nat} : Fresh outside [] fun inside => ([], inside) :=
  fun _ _ _ => ⟨rfl, fun _ ha => .inl ha⟩

theorem nodes_addr_of_ne {addr : Nat} {info : TCInfo} {subtypes : List TCGraph}
    {discriminator : Option TCGraph} (hk : info.kind.tkType ≠ .empty) :
    (node addr info subtypes discriminator).nodes.map TCGraph.addr =
      addr :: (discriminatorNodes discriminator ++ allNodes subtypes).map TCGraph.addr := by
  rw [nodes, if_neg hk]
  rfl

mutual

theorem references_fresh : (g : TCGraph) → ∀ outside,
    Fresh outside (g.nodes.map addr) (references outside g)
  | .node addr info subtypes discriminator => by
    intro outside hn inside hi
    rw [references]
    by_cases hk : info.kind.tkType = .empty
    · rw [if_pos hk]
      exact ⟨rfl, fun a ha => .inl ha⟩
    rw [nodes_addr_of_ne hk] at hn hi ⊢
    obtain ⟨hin, hout⟩ := hi addr List.mem_cons_self
    obtain ⟨hna, hn⟩ := List.nodup_cons.1 hn
    rw [if_neg hk, if_neg hin, if_neg hout]
    by_cases hc : info.kind.tkType = .complex
    · rw [if_pos hc]
      have hparts := Fresh.seq
        (discriminatorReferences_fresh discriminator (addr :: (inside ++ outside)))
        (allReferences_fresh subtypes (addr :: (inside ++ outside)))
      rw [List.map_append] at hn hna
      obtain ⟨h₁, h₂⟩ := hparts hn [] (by
        intro a ha
        refine ⟨by simp, ?_⟩
        obtain ⟨hi', ho'⟩ := hi a (List.mem_cons_of_mem _ (by rwa [List.map_append]))
        intro hm
        rcases List.mem_cons.1 hm with rfl | hm
        · exact hna ha
        · rcases List.mem_append.1 hm with hm | hm
          · exact hi' hm
          · exact ho' hm)
      refine ⟨h₁, ?_⟩
      intro a ha
      rcases List.mem_append.1 ha with ha | ha
      · rcases h₂ a ha with ha | ha
        · cases ha
        · exact .inr (List.mem_cons_of_mem _ (by rwa [List.map_append]))
      · rcases List.mem_cons.1 ha with rfl | ha
        · exact .inr List.mem_cons_self
        · exact .inl ha
    · rw [if_neg hc]
      refine ⟨rfl, ?_⟩
      intro a ha
      rcases List.mem_cons.1 ha with rfl | ha
      · exact .inr List.mem_cons_self
      · exact .inl ha

theorem allReferences_fresh : (tcs : List TCGraph) → ∀ outside,
    Fresh outside ((allNodes tcs).map addr) (allReferences outside tcs)
  | [] => fun _ => Fresh.nil
  | tc :: tcs => by
    intro outside
    rw [allNodes, List.map_append]
    exact (references_fresh tc outside).seq (allReferences_fresh tcs outside)

theorem discriminatorReferences_fresh : (discriminator : Option TCGraph) → ∀ outside,
    Fresh outside ((discriminatorNodes discriminator).map addr)
      (discriminatorReferences outside discriminator)
  | none => fun _ => Fresh.nil
  | some d => references_fresh d

end

end TCGraph

/-- A tree arrives as it was sent, in either byte order, and the decoder has read just the
bytes of it. -/
theorem decodeTypeCode_tree {g : TCGraph} (hg : g.sendable = true)
    (hn : (g.nodes.map TCGraph.addr).Nodup) (sender : Endian) (size : Nat) :
    ∃ r, encodeTypeCode sender g size = some r ∧
      (12 + size + r.bytes.length < 2^32 → ∀ rest c, Receives sender size r.bytes rest c →
        ∃ tc s, decodeTypeCode c = .ok tc s ∧
          s.cursor = { c with cur := c.cur + r.bytes.length } ∧
          tc.read = some g.plain.sent ∧ g.plain.equal g.plain.sent = some true) := by
  obtain ⟨r, henc⟩ := tcEnc_total sender g hg 0 size []
  refine ⟨r, henc, ?_⟩
  intro hlt rest c hr
  have hc : g.Consistent := by
    intro node hm node' hm' he
    exact List.inj_on_of_nodup_map hn hm hm' he
  obtain ⟨s, hd, hs⟩ := decodeTypeCode_encoded hg hc henc hlt hr
  have hnone := (TCGraph.references_fresh g [] hn [] (by simp)).1
  rw [← (encodeTypeCode_tracks hg henc).1, List.map_eq_nil_iff] at hnone
  rw [hnone] at hd
  exact ⟨_, s, hd, hs, TCGraph.read_image g hg, TCGraph.equal_sent g hg⟩

/-- `union switch (char) { case '\xff': sequence<E> a; default: fixed<5,2> b; }`, where `E` is
an alias of an enum. -/
def mixedTree : TCGraph :=
  .node 1 { TCInfo.bare .union with
      name := [85], subnames := [[97], [98]], sublabels := [-1, 0], defaultIndex := 1 }
    [.node 2 { TCInfo.bare .sequence with length := 7 }
      [.node 3 { TCInfo.bare .alias with name := [69] }
        [.node 4 { TCInfo.bare .enum with subnames := [[120], [121]] } [] none] none] none,
      .node 5 { TCInfo.bare .fixed with digits := 5, scale := 2 } [] none]
    (some (.node 0 (TCInfo.bare .char) [] none))

theorem decodeTypeCode_mixedTree : mixedTree.sendable = true ∧
    (mixedTree.nodes.map TCGraph.addr).Nodup ∧
    ∃ r, encodeTypeCode .big mixedTree 8 = some r ∧
      (12 + 8 + r.bytes.length < 2^32 → ∀ rest c, Receives .big 8 r.bytes rest c →
        ∃ tc s, decodeTypeCode c = .ok tc s ∧
          s.cursor = { c with cur := c.cur + r.bytes.length } ∧
          tc.read = some mixedTree.plain.sent ∧
          mixedTree.plain.equal mixedTree.plain.sent = some true) :=
  ⟨by decide, by decide, decodeTypeCode_tree (by decide) (by decide) .big 8⟩

end ORBit2
