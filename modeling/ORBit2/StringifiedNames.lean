import ORBit2.IopProfiles

/-! Names as strings (name-support.c). -/

set_option autoImplicit false

namespace ORBit2

def dot : UInt8 := 46
def slash : UInt8 := 47
def backslash : UInt8 := 92

/-- The characters that are written behind a backslash. -/
def Escaped (c : UInt8) : Prop := c = dot ∨ c = slash ∨ c = backslash

instance (c : UInt8) : Decidable (Escaped c) := by unfold Escaped; infer_instance

/-- `CosNaming_NameComponent`, with the characters of its strings. -/
structure NameStrings where
  id : List UInt8
  kind : List UInt8
  deriving DecidableEq, Repr

/-! ### To a string -/

/-- The loop of `ORBit_CosNaming_NameComponent_to_string` over one of the strings. -/
def escape (pos : List UInt8) : List UInt8 := pos.flatMap fun c => if Escaped c then [backslash, c] else [c]

/-- `ORBit_CosNaming_NameComponent_to_string`. -/
def NameStrings.toString (comp : NameStrings) : List UInt8 :=
  if comp.id = [] ∧ comp.kind = [] then [dot]
  else escape comp.id ++ (if comp.kind ≠ [] then [dot] else []) ++ escape comp.kind

/-- `ORBit_CosNaming_Name_to_string`. -/
def nameToString (name : List NameStrings) : List UInt8 := name.flatMap fun comp => slash :: comp.toString

/-! ### From a string -/

/-- The variables of `ORBit_string_to_CosNaming_Name`: the entries of `ids` and `kinds` before `pos`
and the entry at `pos`, which is their last. -/
structure NameReader where
  before : List NameStrings
  entry : NameStrings
  used : Bool
  appendToKinds : Bool
  deriving DecidableEq, Repr

inductive NameResult where
  | name (n : List NameStrings)
  /-- NULL, from `g_return_val_if_fail`; no exception has been raised -/
  | null
  /-- the string is read behind its terminator -/
  | overrun
  deriving DecidableEq, Repr

namespace NameReader

def init : NameReader := ⟨[], ⟨[], []⟩, false, false⟩

/-- `g_string_append_c`. -/
def append (st : NameReader) (c : UInt8) : NameReader :=
  if st.appendToKinds then { st with entry := { st.entry with kind := st.entry.kind ++ [c] } }
  else { st with entry := { st.entry with id := st.entry.id ++ [c] } }

/-- The case of a slash. -/
def nextEntry (st : NameReader) : NameReader :=
  if st.used then ⟨st.before ++ [st.entry], ⟨[], []⟩, false, false⟩
  else { st with used := false, appendToKinds := false }

/-- What is behind the loop. -/
def finish (st : NameReader) : List NameStrings := if st.used then st.before ++ [st.entry] else st.before

/-- The loop, over the memory from `string` on. -/
def parse (st : NameReader) : List UInt8 → NameResult
  | [] => .overrun
  | c :: string =>
      if c = 0 then .name st.finish
      else if c = dot then
        if st.appendToKinds then .null else parse { st with used := true, appendToKinds := true } string
      else if c = slash then parse st.nextEntry string
      else if c = backslash then
        match string with
        | [] => .overrun
        | c :: string => if Escaped c then parse (st.append c) string else .null
      else parse { st.append c with used := true } string

end NameReader

/-- `ORBit_string_to_CosNaming_Name`. -/
def stringToName (string : List UInt8) : NameResult := NameReader.init.parse (string ++ [0])

inductive ResolveStr where
  /-- `name->_length` with `name` NULL -/
  | nullName
  | overrun
  | itself
  | resolve (n : List NameStrings)
  deriving DecidableEq, Repr

/-- `impl_NamingContextExt_resolve_str`, as far as the call of `impl_NamingContext_resolve`. -/
def resolveStr (n : List UInt8) : ResolveStr :=
  match stringToName n with
  | .null => .nullName
  | .overrun => .overrun
  | .name [] => .itself
  | .name name => .resolve name

/-! ### Strings that are read -/

/-- A component has one dot, and a backslash is followed by one of the three characters. -/
def WellSpelled (dotSeen : Bool) : List UInt8 → Bool
  | [] => true
  | c :: s =>
      if c = dot then !dotSeen && WellSpelled true s
      else if c = slash then WellSpelled false s
      else if c = backslash then
        match s with
        | [] => false
        | c :: s => decide (Escaped c) && WellSpelled dotSeen s
      else WellSpelled dotSeen s

namespace NameReader

@[simp] theorem append_appendToKinds (st : NameReader) (c : UInt8) :
    (st.append c).appendToKinds = st.appendToKinds := by
  rw [append]
  split <;> rfl

section Steps
variable (st : NameReader) (string : List UInt8)

theorem parse_end : st.parse [0] = .name st.finish := rfl

theorem parse_dot : st.parse (dot :: string) =
    if st.appendToKinds then .null else parse { st with used := true, appendToKinds := true } string := by
  rw [parse.eq_def]
  rfl

theorem parse_slash : st.parse (slash :: string) = st.nextEntry.parse string := by
  rw [parse.eq_def]
  rfl

theorem parse_backslash (c : UInt8) : st.parse (backslash :: c :: string) =
    if Escaped c then (st.append c).parse string else .null := by
  rw [parse.eq_def]
  rfl

theorem parse_other {c : UInt8} (hend : c ≠ 0) (h : ¬ Escaped c) :
    st.parse (c :: string) = parse { st.append c with used := true } string := by
  obtain ⟨hdot, hslash, hbackslash⟩ : c ≠ dot ∧ c ≠ slash ∧ c ≠ backslash := by
    simpa [Escaped] using h
  rw [parse.eq_def]
  simp only [if_neg hend, if_neg hdot, if_neg hslash, if_neg hbackslash]

end Steps

/-- The parser comes to its end inside the string, with a name exactly where the string is well
spelled. -/
theorem parse_string {dotSeen : Bool} {s : List UInt8} (h : 0 ∉ s) (st : NameReader)
    (hst : st.appendToKinds = dotSeen) :
    st.parse (s ++ [0]) = .null ∧ WellSpelled dotSeen s = false ∨
      (∃ n, st.parse (s ++ [0]) = .name n) ∧ WellSpelled dotSeen s = true := by
  fun_induction WellSpelled dotSeen s generalizing st with
  | case1 => exact Or.inr ⟨⟨_, st.parse_end⟩, rfl⟩
  | case2 dotSeen s ih =>
    rw [List.cons_append, parse_dot, hst]
    cases dotSeen with
    | true => exact Or.inl ⟨rfl, rfl⟩
    | false => exact ih (fun h' => h (List.mem_cons_of_mem _ h')) _ rfl
  | case3 dotSeen s _ ih =>
    rw [List.cons_append, parse_slash]
    refine ih (fun h' => h (List.mem_cons_of_mem _ h')) _ ?_
    rw [nextEntry]
    split <;> rfl
  | case4 dotSeen =>
    exact Or.inl ⟨rfl, rfl⟩
  | case5 dotSeen c s _ _ ih =>
    rw [List.cons_append, List.cons_append, parse_backslash]
    by_cases hc : Escaped c
    · rw [if_pos hc, decide_eq_true hc, Bool.true_and]
      refine ih (fun h' => h (List.mem_cons_of_mem _ (List.mem_cons_of_mem _ h'))) _ ?_
      rw [append_appendToKinds, hst]
    · rw [if_neg hc, decide_eq_false hc]
      exact Or.inl ⟨rfl, rfl⟩
  | case6 dotSeen c s hdot hslash hbackslash ih =>
    have hc : c ≠ 0 := fun hc => h (hc ▸ List.mem_cons_self)
    have hesc : ¬ Escaped c := by
      simpa [Escaped] using ⟨hdot, hslash, hbackslash⟩
    rw [List.cons_append, parse_other st _ hc hesc]
    refine ih (fun h' => h (List.mem_cons_of_mem _ h')) _ ?_
    rw [← hst]
    exact append_appendToKinds st c

/-! ### Names that are read back -/

/-- So many characters have been appended. -/
def appendAll (st : NameReader) (bytes : List UInt8) : NameReader :=
  if st.appendToKinds then
    { st with
      entry := { st.entry with kind := st.entry.kind ++ bytes }
      used := st.used || bytes.any fun c => !decide (Escaped c) }
  else
    { st with
      entry := { st.entry with id := st.entry.id ++ bytes }
      used := st.used || bytes.any fun c => !decide (Escaped c) }

theorem appendAll_nil (st : NameReader) : st.appendAll [] = st := by
  simp [appendAll]

theorem appendAll_cons (st : NameReader) (c : UInt8) (bytes : List UInt8) :
    st.appendAll (c :: bytes) =
      appendAll { st.append c with used := st.used || !decide (Escaped c) } bytes := by
  cases hst : st.appendToKinds <;>
    simp [appendAll, append, hst, Bool.or_assoc]

theorem parse_escape {bytes : List UInt8} (h : 0 ∉ bytes) (st : NameReader) (rest : List UInt8) :
    st.parse (escape bytes ++ rest) = (st.appendAll bytes).parse rest := by
  induction bytes generalizing st with
  | nil => rw [appendAll_nil]; rfl
  | cons c bytes ih =>
    have hc : c ≠ 0 := fun hc => h (hc ▸ List.mem_cons_self)
    have hbytes := ih fun h' => h (List.mem_cons_of_mem _ h')
    rw [appendAll_cons, ← hbytes, escape, List.flatMap_cons, ← escape]
    by_cases hesc : Escaped c
    · have hused : (st.append c).used = st.used := by
        rw [append]
        split <;> rfl
      rw [if_pos hesc, decide_eq_true hesc, Bool.not_true, Bool.or_false, ← hused]
      rw [List.append_assoc, List.cons_append, List.cons_append, List.nil_append, parse_backslash,
        if_pos hesc]
    · rw [if_neg hesc, decide_eq_false hesc, Bool.not_false, Bool.or_true, List.append_assoc,
        List.cons_append, List.nil_append, parse_other st _ hc hesc]

end NameReader

/-- Something of the component counts as used: a dot, or a character without a backslash. -/
def NameStrings.Shown (comp : NameStrings) : Prop :=
  comp.id = [] ∨ comp.kind ≠ [] ∨ ∃ c ∈ comp.id, ¬ Escaped c

instance (comp : NameStrings) : Decidable comp.Shown := by unfold NameStrings.Shown; infer_instance

/-- `CosNaming_NameComponent`: its strings have no zero inside. -/
abbrev NameComponentStrings : Type := {comp : NameStrings // 0 ∉ comp.id ∧ 0 ∉ comp.kind}

namespace NameReader

/-- A component has been read. -/
def add (st : NameReader) (comp : NameStrings) : NameReader where
  before := st.before
  entry := ⟨st.entry.id ++ comp.id, st.entry.kind ++ comp.kind⟩
  used := decide comp.Shown
  appendToKinds := decide (comp.id = [] ∨ comp.kind ≠ [])

theorem parse_component (comp : NameComponentStrings) (st : NameReader) (rest : List UInt8) :
    st.parse (slash :: comp.1.toString ++ rest) = (st.nextEntry.add comp.1).parse rest := by
  obtain ⟨⟨id, kind⟩, hid, hkind⟩ := comp
  rw [List.cons_append, parse_slash]
  have hused : st.nextEntry.used = false ∧ st.nextEntry.appendToKinds = false := by
    rw [nextEntry]
    split <;> exact ⟨rfl, rfl⟩
  generalize st.nextEntry = st at hused ⊢
  obtain ⟨before, entry, used, appendToKinds⟩ := st
  obtain ⟨rfl, rfl⟩ := hused
  by_cases hnil : id = [] ∧ kind = []
  · obtain ⟨rfl, rfl⟩ := hnil
    rw [NameStrings.toString, if_pos ⟨rfl, rfl⟩, List.cons_append, List.nil_append, parse_dot,
      if_neg Bool.false_ne_true]
    simp [add, NameStrings.Shown]
  · simp only [NameStrings.toString, if_neg hnil, List.append_assoc]
    rw [parse_escape hid]
    by_cases hkind' : kind = []
    · subst hkind'
      have hid' : id ≠ [] := fun h => hnil ⟨h, rfl⟩
      have hany : (id.any fun c => !decide (Escaped c)) = decide (∃ c ∈ id, ¬ Escaped c) := by
        rw [Bool.eq_iff_iff]
        simp
      simp [escape, appendAll, add, NameStrings.Shown, hid', hany]
    · rw [if_pos hkind', List.cons_append, List.nil_append, parse_dot]
      simp only [appendAll, Bool.false_eq_true, if_false]
      rw [parse_escape hkind]
      simp [appendAll, add, NameStrings.Shown, hkind']

theorem parse_name (n : List NameComponentStrings) (st : NameReader) :
    st.parse (nameToString (n.map Subtype.val) ++ [0]) =
      .name (n.foldl (fun st comp => st.nextEntry.add comp.1) st).finish := by
  induction n generalizing st with
  | nil => exact st.parse_end
  | cons comp n ih =>
    rw [List.map_cons, nameToString, List.flatMap_cons, ← nameToString, List.append_assoc, parse_component,
      ih, List.foldl_cons]

theorem nextEntry_before (st : NameReader) : st.nextEntry.before = st.finish := by
  rw [nextEntry, finish]
  split <;> rfl

theorem finish_add (st : NameReader) (comp : NameStrings) :
    (st.nextEntry.add comp).finish =
      if comp.Shown then st.finish ++ [(st.nextEntry.add comp).entry] else st.finish := by
  rw [finish, ← nextEntry_before]
  simp only [add, decide_eq_true_eq]

/-- Each component that is shown makes one entry. -/
theorem finish_length (n : List NameComponentStrings) (st : NameReader) :
    (n.foldl (fun st comp => st.nextEntry.add comp.1) st).finish.length =
      st.finish.length + n.countP fun comp => decide comp.1.Shown := by
  induction n generalizing st with
  | nil => rfl
  | cons comp n ih =>
    rw [List.foldl_cons, ih, finish_add, List.countP_cons]
    simp only [decide_eq_true_eq]
    split
    · rw [List.length_append, List.length_singleton]
      omega
    · omega

theorem finish_shown {n : List NameComponentStrings} (h : ∀ comp ∈ n, comp.1.Shown) {st : NameReader}
    (hst : st.nextEntry.entry = ⟨[], []⟩) :
    (n.foldl (fun st comp => st.nextEntry.add comp.1) st).finish = st.finish ++ n.map Subtype.val := by
  induction n generalizing st with
  | nil => exact (List.append_nil _).symm
  | cons comp n ih =>
    obtain ⟨hcomp, hn⟩ := List.forall_mem_cons.mp h
    have hentry : (st.nextEntry.add comp.1).entry = comp.1 := by
      simp [add, hst]
    have hused : (st.nextEntry.add comp.1).used = true := decide_eq_true hcomp
    have hnext : (st.nextEntry.add comp.1).nextEntry.entry = ⟨[], []⟩ := by
      rw [nextEntry, if_pos hused]
    rw [List.foldl_cons, ih hn hnext, finish_add, if_pos hcomp, hentry, List.append_assoc]
    rfl

end NameReader

/-! ### The two operations -/

/-- A name is returned; there is no exception that this function raises. -/
def NameResult.Answers (r : NameResult) : Prop := ∃ n, r = .name n

theorem stringToName_nameToString (n : List NameComponentStrings) :
    stringToName (nameToString (n.map Subtype.val)) = .name (n.map Subtype.val) ↔
      ∀ comp ∈ n, comp.1.Shown := by
  rw [stringToName, NameReader.parse_name, NameResult.name.injEq]
  constructor
  · intro h
    have hlength := NameReader.finish_length n .init
    rw [h, List.length_map] at hlength
    have hall : (n.countP fun comp => decide comp.1.Shown) = n.length := by
      simpa [NameReader.init, NameReader.finish] using hlength.symm
    intro comp hcomp
    exact of_decide_eq_true (List.countP_eq_length.mp hall comp hcomp)
  · intro h
    exact NameReader.finish_shown h rfl

theorem stringToName_string (s : CString) :
    stringToName s.1 = .null ∧ WellSpelled false s.1 = false ∨
      (∃ n, stringToName s.1 = .name n) ∧ WellSpelled false s.1 = true :=
  NameReader.parse_string s.2 .init rfl

/-- A name is read back from its string if, and only if, each of its components has a kind, or no id,
or a character in its id that is not escaped. A string is answered, and `resolve_str` finds a name, if,
and only if, it is well spelled; it is read to its terminator at most. -/
theorem stringifiedNames (n : List NameComponentStrings) (s : CString) :
    (stringToName (nameToString (n.map Subtype.val)) = .name (n.map Subtype.val) ↔
      ∀ comp ∈ n, comp.1.Shown) ∧
    ((stringToName s.1).Answers ↔ WellSpelled false s.1) ∧
    (resolveStr s.1 ≠ .nullName ↔ WellSpelled false s.1) ∧
    stringToName s.1 ≠ .overrun := by
  refine ⟨stringToName_nameToString n, ?_, ?_, ?_⟩
  · rcases stringToName_string s with ⟨hnull, hspelled⟩ | ⟨hname, hspelled⟩
    · rw [hnull, hspelled]
      exact iff_of_false (fun ⟨_, h⟩ => nomatch h) Bool.false_ne_true
    · exact iff_of_true hname hspelled
  · rcases stringToName_string s with ⟨hnull, hspelled⟩ | ⟨⟨n, hname⟩, hspelled⟩
    · rw [resolveStr, hnull, hspelled]
      exact iff_of_false (fun h => h rfl) Bool.false_ne_true
    · rw [resolveStr, hname]
      refine iff_of_true ?_ hspelled
      cases n <;> exact fun h => nomatch h
  · rcases stringToName_string s with ⟨hnull, -⟩ | ⟨⟨n, hname⟩, -⟩
    · rw [hnull]
      exact fun h => nomatch h
    · rw [hname]
      exact fun h => nomatch h

/-- The name with the id `.` alone is lost, and `a.b.c` is a NULL name for `resolve_str`. -/
theorem singleDot_lost :
    stringToName (nameToString [⟨[dot], []⟩]) = .name [] ∧
      resolveStr [97, dot, 98, dot, 99] = .nullName := by
  decide

end ORBit2
