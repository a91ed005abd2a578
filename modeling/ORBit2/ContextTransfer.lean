import ORBit2.IorRoundTrip
import ORBit2.BoundedDecoding

/-! The context of a request: the strings that a client writes, and the table that a server makes of
them, whose keys and values stay where they are in the message. -/

set_option autoImplicit false

namespace ORBit2.RequestContext
open Words Peeking

/-- `ctx->mappings` of a client, NULL if nothing was ever set, as `g_hash_table_lookup` sees it. -/
abbrev Mappings : Type := Option (CString → Option CString)

def lookup (mappings : Mappings) (name : CString) : Option CString := mappings.bind (· name)

/-- A string behind its length, which is a `CORBA_unsigned_long`. -/
def putString (host : Endian) (str : CString) : Put :=
  (Put.word host 4 ((str.1.length + 1) % 2^32)).seq
    (.append ((str.1 ++ [0]).take ((str.1.length + 1) % 2^32)))

/-- The loop of `ORBit_Context_marshal`. -/
def putItems (host : Endian) (mappings : Mappings) : List CString → Put
  | [] => .nothing
  | name :: mlist =>
      match lookup mappings name with
      | none => putItems host mappings mlist
      | some value =>
          (putString host name).seq ((putString host value).seq (putItems host mappings mlist))

/-- The items that are found. -/
def found (mappings : Mappings) (mlist : List CString) : Nat :=
  (mlist.filter fun name => (lookup mappings name).isSome).length

/-- `ORBit_Context_marshal`; the number of strings is filled in at the end. -/
def marshal (host : Endian) (mappings : Mappings) (mlist : List CString) : Put := fun pos =>
  Put.align 4 pos ++ host.split 4 (2 * found mappings mlist % 2^32) ++
    putItems host mappings mlist (alignUp pos 4 + 4)

/-- The table of a server: for the text of a key, the address of the value. -/
abbrev Table : Type := List UInt8 → Option Nat

/-- `key = buf->cur` -/
def here : Dec Nat := fun c => .ok (c.here, c)

/-- One string of the loop of `ORBit_Context_demarshal`: its address. -/
def demarshalString : Dec Nat := do
  let len ← Dec.alignedWord 4
  Dec.need len
  let key ← here
  Dec.advance len
  return key

/-- The loop of `ORBit_Context_demarshal`, with `nstrings - i` strings still to come. A key is hashed
up to its end, wherever that is; a last key without a value is left. -/
def demarshalPairs : Nat → Table → Prog RecvCursor Table
  | 0, mappings => pure mappings
  | 1, mappings => do
      let _ ← demarshalString.prog
      return mappings
  | n+2, mappings => do
      let key ← demarshalString.prog
      let value ← demarshalString.prog
      let text ← Prog.peek fun _ => .text key
      demarshalPairs n (Function.update mappings text (some value))

/-- `ORBit_Context_demarshal`, up to the loop. A context without strings is an error. -/
def demarshalHead : Dec Nat := do
  let nstrings ← Dec.alignedWord 4
  Dec.need (nstrings * 8 % 2^32)
  if nstrings = 0 then Dec.stop .fail else return nstrings

/-- `ORBit_Context_demarshal` -/
def demarshal : Prog RecvCursor Table := do
  let nstrings ← demarshalHead.prog
  demarshalPairs nstrings fun _ => none

section
variable {α β σ : Type} {mem : Mapping}

theorem prog_bind_ok {m : Dec α} {k : α → Prog RecvCursor β} {c c' : RecvCursor} {a : α}
    (h : m c = .ok (a, c')) : (m.prog >>= k) mem c = k a mem c' := by
  simp only [Bind.bind, Dec.prog, Prog.lift, h, List.nil_append]

theorem prog_bind_fail {m : Dec α} {k : α → Prog RecvCursor β} {c : RecvCursor}
    (h : m c = .error .fail) : (m.prog >>= k) mem c = (some (.fail c), []) := by
  simp only [Bind.bind, Dec.prog, Prog.lift, h]

theorem peek_bind_some {p : σ → Peek} {k : List UInt8 → Prog σ β} {s : σ} {text : List UInt8}
    (h : (p s).read mem = some text) :
    (Prog.peek p >>= k) mem s = ((k text mem s).1, p s :: (k text mem s).2) := by
  simp only [Bind.bind, Prog.peek, h, Option.map_some, List.singleton_append]

theorem peek_bind_none {p : σ → Peek} {k : List UInt8 → Prog σ β} {s : σ}
    (h : (p s).read mem = none) : (Prog.peek p >>= k) mem s = (none, [p s]) := by
  simp only [Bind.bind, Prog.peek, h, Option.map_none]

theorem prog_bind_eq_ok {m : Dec α} {k : α → Prog RecvCursor β} {c c'' : RecvCursor} {r : β}
    (h : ((m.prog >>= k) mem c).1 = some (.ok r c'')) :
    ∃ a c', m c = .ok (a, c') ∧ (k a mem c').1 = some (.ok r c'') := by
  cases hm : m c with
  | ok result =>
    obtain ⟨a, c'⟩ := result
    rw [prog_bind_ok hm] at h
    exact ⟨a, c', rfl, h⟩
  | error e =>
    cases e with
    | fail =>
      rw [prog_bind_fail hm] at h
      cases h
    | undefined =>
      simp only [Bind.bind, Dec.prog, Prog.lift, hm] at h
      cases h

theorem peek_bind_eq_some {p : σ → Peek} {k : List UInt8 → Prog σ β} {s : σ} {r : Ended σ β}
    (h : ((Prog.peek p >>= k) mem s).1 = some r) :
    ∃ text, (p s).read mem = some text ∧ (k text mem s).1 = some r := by
  cases hread : (p s).read mem with
  | none =>
    rw [peek_bind_none hread] at h
    cases h
  | some text =>
    rw [peek_bind_some hread] at h
    exact ⟨text, rfl, h⟩

end

/-- A text that lies among the bytes given, with its end. -/
theorem textFrom_of_drop {g : Given} {str post : List UInt8} (h0 : 0 ∉ str) {steps a : Nat}
    (ha : g.base ≤ a) (hd : g.data.drop (a - g.base) = str ++ 0 :: post) (hs : str.length < steps) :
    textFrom g.alone steps a = some str := by
  induction str generalizing a steps with
  | nil =>
    obtain ⟨steps, rfl⟩ := Nat.exists_eq_succ_of_ne_zero (Nat.ne_zero_of_lt hs)
    have hread : g.data[a - g.base]? = some 0 := by
      rw [← List.head?_drop, hd]
      rfl
    rw [textFrom, Given.alone, if_pos ha, hread]
    rfl
  | cons b str ih =>
    obtain ⟨steps, rfl⟩ := Nat.exists_eq_succ_of_ne_zero (Nat.ne_zero_of_lt hs)
    have hread : g.data[a - g.base]? = some b := by
      rw [← List.head?_drop, hd]
      rfl
    have hnext : g.data.drop (a + 1 - g.base) = str ++ 0 :: post := by
      have hsub : a + 1 - g.base = 1 + (a - g.base) := by omega
      rw [hsub, Nat.add_comm, ← List.drop_drop, hd]
      rfl
    have hb : b ≠ 0 := fun h => h0 (h ▸ List.mem_cons_self)
    have hrest := ih (fun h => h0 (List.mem_cons_of_mem b h)) (by omega) hnext
      (Nat.lt_of_succ_lt_succ hs)
    rw [textFrom, Given.alone, if_pos ha, hread, Option.bind_some, if_neg hb, hrest]
    rfl

/-- A text is shorter than the memory it is in. -/
theorem length_lt_of_textFrom {g : Given} {steps a : Nat} {str : List UInt8}
    (h : textFrom g.alone steps a = some str) :
    g.base ≤ a ∧ a + str.length < g.base + g.data.length := by
  induction steps generalizing a str with
  | zero => cases h
  | succ steps ih =>
    obtain ⟨b, hread, hrest⟩ := Option.bind_eq_some_iff.mp h
    have hin := Given.alone_isSome.mp (Option.isSome_of_eq_some hread)
    split at hrest
    · cases hrest
      exact hin
    · obtain ⟨rest, htail, rfl⟩ := Option.map_eq_some_iff.mp hrest
      have htail := ih htail
      rw [List.length_cons]
      omega

/-! ### What was written is read -/

section
variable {host : Endian} {mappings : Mappings}

/-- The text of the value that a server has for a name. -/
def valueOf (g : Given) (table : Table) (name : CString) : Option (List UInt8) :=
  (table name.1).bind (textFrom g.alone (2^64))

/-- The context of the server is that of the client, as far as the names of the method go, and the
reader stands behind it. -/
def Transferred (g : Given) (c : RecvCursor) (stop : Nat) (mappings : Mappings) (mlist : List CString) :
    Prop :=
  ∃ table c', (demarshal g.alone c).1 = some (.ok table c') ∧ c'.cur = stop ∧
    ∀ name : CString, valueOf g table name =
      if name ∈ mlist then (lookup mappings name).map Subtype.val else none

/-- No string is too long for its length. -/
def Measured (mappings : Mappings) (mlist : List CString) : Prop :=
  ∀ name ∈ mlist, ∀ value ∈ lookup mappings name,
    name.1.length + 1 < 2^32 ∧ value.1.length + 1 < 2^32

theorem putString_eq {str : CString} (h : str.1.length + 1 < 2^32) :
    putString host str = Put.string host str.1 := by
  unfold putString Put.string
  rw [Nat.mod_eq_of_lt h, List.take_of_length_le (by simp)]

theorem marshal_eq (mlist : List CString) :
    marshal host mappings mlist =
      (Put.word host 4 (2 * found mappings mlist % 2^32)).seq (putItems host mappings mlist) := by
  funext pos
  have hle := @le_alignUp pos 4 (by omega)
  have hpos : pos + (Put.word host 4 (2 * found mappings mlist % 2^32) pos).length = alignUp pos 4 + 4 := by
    simp only [Put.word, Put.seq, Put.align, Put.append, List.length_append, List.length_replicate,
      Endian.split_length]
    omega
  rw [Put.seq, hpos]
  rfl

/-- Where a string is read, and what is found there. -/
theorem demarshalString_at {f : Frame} {b : PlainBuffer} {str : CString}
    (hlen : str.1.length + 1 < 2^32) (hw : (b.put (.string f.sender str.1)).Within f.data) :
    ∃ key post, demarshalString (f.at b) = .ok (f.base + key, f.at (b.put (.string f.sender str.1))) ∧
      f.data.drop key = str.1 ++ 0 :: post := by
  let word : Put := .word f.sender 4 (str.1.length + 1)
  have hput : b.put (.string f.sender str.1) = (b.put word).append (str.1 ++ [0]) :=
    PlainBuffer.put_seq b word _
  rw [hput] at hw ⊢
  have hread : Dec.alignedWord 4 (f.at b) = .ok (str.1.length + 1, f.at (b.put word)) := by
    have hword := hw.mono (PlainBuffer.grows_append _ _)
    have hread := f.alignedWord_at (b := b) (w := 4) (n := str.1.length + 1) (by decide) (by omega)
    rw [PlainBuffer.put_word] at hword ⊢
    simp only [PlainBuffer.appendAligned, Endian.split_length] at hread
    exact hread hword
  have hneed := f.need_at hw
  have hadvance := f.advance_at (b := b.put word) (str.1 ++ [0])
  have hlength : (str.1 ++ [0]).length = str.1.length + 1 := List.length_append
  rw [hlength] at hneed hadvance
  obtain ⟨post, hdrop⟩ := hw.drop
  refine ⟨(b.put word).pos, post, ?_, by rw [hdrop, List.append_assoc]; rfl⟩
  have hhere : here (f.at (b.put word)) =
      .ok (f.base + (b.put word).pos, f.at (b.put word)) := rfl
  rw [demarshalString, Dec.bind_ok hread, Dec.bind_ok hneed, Dec.bind_ok hhere, Dec.bind_ok hadvance,
    Dec.pure_apply]

/-- The items take two words each at least. -/
theorem le_length_putItems (host : Endian) (mappings : Mappings) (mlist : List CString) (pos : Nat) :
    8 * found mappings mlist ≤ (putItems host mappings mlist pos).length := by
  have hword : ∀ (str : CString) (pos : Nat), 4 ≤ (putString host str pos).length := by
    intro str pos
    simp only [putString, Put.word, Put.seq, Put.append, List.length_append, Endian.split_length]
    omega
  induction mlist generalizing pos with
  | nil => exact Nat.zero_le _
  | cons name mlist ih =>
    unfold putItems found
    cases hvalue : lookup mappings name with
    | none =>
      rw [List.filter_cons_of_neg (by simp [hvalue])]
      exact ih pos
    | some value =>
      rw [List.filter_cons_of_pos (by simp [hvalue]), List.length_cons]
      simp only [Put.seq, List.length_append]
      have hname := hword name pos
      have hval := hword value (pos + (putString host name pos).length)
      have hrest := ih (pos + (putString host name pos).length +
        (putString host value (pos + (putString host name pos).length)).length)
      unfold found at hrest
      omega

/-- The loop reads what was written. -/
theorem demarshalPairs_at {g : Given} {f : Frame} (hbase : f.base = g.base) (hdata : f.data = g.data)
    (mlist : List CString) (hm : Measured mappings mlist) {b : PlainBuffer} (table : Table)
    (hw : (b.put (putItems f.sender mappings mlist)).Within f.data) :
    ∃ table', (demarshalPairs (2 * found mappings mlist) table g.alone (f.at b)).1 =
        some (.ok table' (f.at (b.put (putItems f.sender mappings mlist)))) ∧
      ∀ name : CString, valueOf g table' name =
        if name ∈ mlist ∧ (lookup mappings name).isSome then (lookup mappings name).map Subtype.val
        else valueOf g table name := by
  induction mlist generalizing b table with
  | nil =>
    refine ⟨table, ?_, fun name => by simp⟩
    have hnothing : b.put (putItems f.sender mappings []) = b := PlainBuffer.put_nothing b
    rw [hnothing]
    rfl
  | cons name mlist ih =>
    have hmrest : Measured mappings mlist := fun n hn => hm n (List.mem_cons_of_mem name hn)
    cases hvalue : lookup mappings name with
    | none =>
      have hput : putItems f.sender mappings (name :: mlist) = putItems f.sender mappings mlist := by
        rw [putItems, hvalue]
      have hfound : found mappings (name :: mlist) = found mappings mlist := by
        rw [found, List.filter_cons_of_neg (by simp [hvalue]), found]
      rw [hput] at hw ⊢
      obtain ⟨table', hrun, hall⟩ := ih hmrest table hw
      refine ⟨table', hfound ▸ hrun, fun other => ?_⟩
      rw [hall other]
      by_cases ho : other = name
      · subst ho
        simp [hvalue]
      · simp [ho]
    | some value =>
      obtain ⟨hnamelen, hvaluelen⟩ := hm name List.mem_cons_self value hvalue
      have hput : b.put (putItems f.sender mappings (name :: mlist)) =
          ((b.put (.string f.sender name.1)).put (.string f.sender value.1)).put
            (putItems f.sender mappings mlist) := by
        rw [putItems, hvalue]
        simp only [putString_eq hnamelen, putString_eq hvaluelen, PlainBuffer.put_seq]
      have hfound : 2 * found mappings (name :: mlist) = 2 * found mappings mlist + 2 := by
        rw [found, List.filter_cons_of_pos (by simp [hvalue]), List.length_cons, found]
        omega
      rw [hput] at hw ⊢
      have hwvalue := hw.mono (PlainBuffer.grows_put _ _)
      obtain ⟨key, post, hkey, hkeytext⟩ :=
        demarshalString_at hnamelen (hwvalue.mono (PlainBuffer.grows_put _ _))
      obtain ⟨val, post', hval, hvaltext⟩ := demarshalString_at hvaluelen hwvalue
      have htext : (Peek.text (f.base + key)).read g.alone = some name.1 := by
        rw [← Nat.add_sub_cancel_left f.base key, hbase, hdata] at hkeytext
        rw [hbase]
        exact textFrom_of_drop name.2 (Nat.le_add_right _ _) hkeytext (by omega)
      have hvalread : textFrom g.alone (2^64) (f.base + val) = some value.1 := by
        rw [← Nat.add_sub_cancel_left f.base val, hbase, hdata] at hvaltext
        rw [hbase]
        exact textFrom_of_drop value.2 (Nat.le_add_right _ _) hvaltext (by omega)
      obtain ⟨table', hrun, hall⟩ :=
        ih hmrest (Function.update table name.1 (some (f.base + val))) hw
      refine ⟨table', ?_, fun other => ?_⟩
      · rw [hfound, demarshalPairs, prog_bind_ok hkey, prog_bind_ok hval, 
          peek_bind_some (p := fun _ => .text (f.base + key)) htext]
        exact hrun
      · rw [hall other]
        by_cases ho : other = name
        · subst ho
          have hown : valueOf g (Function.update table other.1 (some (f.base + val))) other =
              some value.1 := by
            unfold valueOf
            rw [Function.update_self]
            exact hvalread
          rw [hown]
          by_cases hmem : other ∈ mlist
          · simp [hvalue, hmem]
          · simp [hvalue, hmem]
        · have hne : other.1 ≠ name.1 := fun h => ho (Subtype.ext h)
          simp [ho, valueOf, Function.update_of_ne hne]

/-- What the reader makes of the number of strings. -/
theorem demarshalHead_at (f : Frame) (b : PlainBuffer) (mappings : Mappings) (mlist : List CString)
    (hlt : f.data.length < 2^32) (hw : (b.put (marshal f.sender mappings mlist)).Within f.data) :
    demarshalHead (f.at b) =
      if f.data.length < alignUp b.pos 4 + 4 + 16 * found mappings mlist % 2^32 ∨
        found mappings mlist = 0 then .error .fail
      else .ok (2 * found mappings mlist,
        f.at (b.put (.word f.sender 4 (2 * found mappings mlist)))) := by
  rw [marshal_eq, PlainBuffer.put_seq] at hw
  have hle := le_length_putItems f.sender mappings mlist
    (b.put (.word f.sender 4 (2 * found mappings mlist % 2^32))).pos
  have hpos := hw.pos_le
  rw [PlainBuffer.put_pos] at hpos
  have hmod : 2 * found mappings mlist % 2^32 = 2 * found mappings mlist := by
    rw [Nat.mod_eq_of_lt]
    omega
  rw [hmod] at hw
  have hread : Dec.alignedWord 4 (f.at b) = .ok (2 * found mappings mlist,
      f.at (b.put (.word f.sender 4 (2 * found mappings mlist)))) := by
    have hword := hw.mono (PlainBuffer.grows_put _ _)
    have hread := f.alignedWord_at (b := b) (w := 4) (n := 2 * found mappings mlist) (by decide) (by omega)
    rw [PlainBuffer.put_word] at hword ⊢
    simp only [PlainBuffer.appendAligned, Endian.split_length] at hread
    exact hread hword
  have hproduct : 2 * found mappings mlist * 8 % 2^32 = 16 * found mappings mlist % 2^32 := by
    congr 1
    omega
  rw [demarshalHead, Dec.bind_ok hread, hproduct]
  by_cases hneed : f.data.length < alignUp b.pos 4 + 4 + 16 * found mappings mlist % 2^32
  · have hfail : Dec.need (16 * found mappings mlist % 2^32)
        (f.at (b.put (.word f.sender 4 (2 * found mappings mlist)))) = .error .fail := by
      rw [Dec.need, if_pos]
      rw [Frame.at_data, Frame.at_cur, PlainBuffer.put_word_pos]
      exact hneed
    have hor : f.data.length < alignUp b.pos 4 + 4 + 16 * found mappings mlist % 2^32 ∨
        found mappings mlist = 0 := .inl hneed
    rw [if_pos hor, Dec.bind_error hfail]
  · have hok : Dec.need (16 * found mappings mlist % 2^32)
        (f.at (b.put (.word f.sender 4 (2 * found mappings mlist)))) =
        .ok ((), f.at (b.put (.word f.sender 4 (2 * found mappings mlist)))) := by
      rw [Dec.need, if_neg]
      rw [Frame.at_data, Frame.at_cur, PlainBuffer.put_word_pos]
      exact hneed
    rw [Dec.bind_ok hok]
    by_cases hzero : found mappings mlist = 0
    · have hor : f.data.length < alignUp b.pos 4 + 4 + 16 * found mappings mlist % 2^32 ∨
          found mappings mlist = 0 := .inr hzero
      rw [if_pos hor, if_pos (by omega)]
      rfl
    · have hnot : ¬ (f.data.length < alignUp b.pos 4 + 4 + 16 * found mappings mlist % 2^32 ∨
          found mappings mlist = 0) := by
        rintro (h | h)
        · exact hneed h
        · exact hzero h
      rw [if_neg hnot, if_neg (by omega)]
      rfl

/-- A key in the table is a text that has been read, unless it was there before. -/
theorem key_of_demarshalPairs {g : Given} {n : Nat} {table table' : Table} {c c' : RecvCursor}
    (h : (demarshalPairs n table g.alone c).1 = some (.ok table' c')) {key : List UInt8}
    (hkey : table' key ≠ none) : table key ≠ none ∨ ∃ a, textFrom g.alone (2^64) a = some key := by
  induction n using Nat.twoStepInduction generalizing table c with
  | zero =>
    cases h
    exact .inl hkey
  | one =>
    obtain ⟨a, c₁, -, h⟩ := prog_bind_eq_ok h
    cases h
    exact .inl hkey
  | more n ih _ =>
    obtain ⟨a, c₁, -, h⟩ := prog_bind_eq_ok h
    obtain ⟨v, c₂, -, h⟩ := prog_bind_eq_ok h
    obtain ⟨text, htext, h⟩ := peek_bind_eq_some h
    rcases ih h with hold | hread
    · by_cases he : key = text
      · exact .inr ⟨a, he ▸ htext⟩
      · rw [Function.update_of_ne he] at hold
        exact .inl hold
    · exact .inr hread

theorem transferred_iff {g : Given} (haligned : 8 ∣ g.base) (hlt : g.data.length < 2^32)
    (server : Endian) (mlist : List CString) {b : PlainBuffer}
    (hw : (b.put (marshal host mappings mlist)).Within g.data) :
    Transferred g ⟨g.base, g.data, b.pos, server, host⟩ (b.put (marshal host mappings mlist)).pos
        mappings mlist ↔
      Measured mappings mlist ∧ 0 < found mappings mlist ∧
        16 * found mappings mlist % 2^32 ≤ g.data.length - (alignUp b.pos 4 + 4) := by
  let f : Frame := ⟨g.base, server, host, g.data, haligned⟩
  have hhead := demarshalHead_at f b mappings mlist hlt hw
  have hrest : (b.put (marshal host mappings mlist)).pos ≤ g.data.length := hw.pos_le
  have hstart : alignUp b.pos 4 + 4 ≤ (b.put (marshal host mappings mlist)).pos := by
    rw [marshal_eq, PlainBuffer.put_seq, PlainBuffer.put_pos, PlainBuffer.put_word_pos]
    exact Nat.le_add_right _ _
  constructor
  · rintro ⟨table, c', hrun, -, hall⟩
    obtain ⟨n, c₁, hn, hpairs⟩ := prog_bind_eq_ok (c := f.at b) hrun
    rw [hhead] at hn
    obtain ⟨hgood, -⟩ := Outcomes.of_guard hn
    refine ⟨fun name hname value hvalue => ?_, by omega, ?_⟩
    · have hshown := hall name
      rw [if_pos hname, hvalue] at hshown
      obtain ⟨a, ha, htext⟩ := Option.bind_eq_some_iff.mp hshown
      have hlong := length_lt_of_textFrom htext
      have hentry : table name.1 ≠ none := by
        rw [ha]
        exact Option.some_ne_none a
      rcases key_of_demarshalPairs hpairs hentry with hnone | ⟨a', hkey⟩
      · exact absurd rfl hnone
      · have hkeylong := length_lt_of_textFrom hkey
        omega
    · have hfits : ¬ g.data.length < alignUp b.pos 4 + 4 + 16 * found mappings mlist % 2^32 :=
        fun h => hgood (.inl h)
      omega
  · rintro ⟨hm, hpos, hfits⟩
    have hnot : ¬ (f.data.length < alignUp b.pos 4 + 4 + 16 * found mappings mlist % 2^32 ∨
        found mappings mlist = 0) := by
      have hdata : f.data.length = g.data.length := rfl
      omega
    rw [if_neg hnot] at hhead
    have hle := le_length_putItems host mappings mlist
      (b.put (.word host 4 (2 * found mappings mlist % 2^32))).pos
    have hput : b.put (marshal host mappings mlist) =
        (b.put (.word host 4 (2 * found mappings mlist))).put (putItems host mappings mlist) := by
      have hmod : 2 * found mappings mlist % 2^32 = 2 * found mappings mlist := by
        rw [marshal_eq, PlainBuffer.put_seq, PlainBuffer.put_pos] at hrest
        rw [Nat.mod_eq_of_lt]
        omega
      rw [marshal_eq, hmod, PlainBuffer.put_seq]
    rw [hput] at hw ⊢
    obtain ⟨table, hpairs, hall⟩ :=
      demarshalPairs_at (g := g) (f := f) rfl rfl mlist hm (fun _ => none) hw
    refine ⟨table, f.at ((b.put (.word host 4 (2 * found mappings mlist))).put
      (putItems host mappings mlist)), ?_, rfl, fun name => ?_⟩
    · have hstep : demarshal g.alone (f.at b) = demarshalPairs (2 * found mappings mlist) (fun _ => none)
          g.alone (f.at (b.put (.word host 4 (2 * found mappings mlist)))) := prog_bind_ok hhead
      rw [← hpairs, ← hstep]
      rfl
    · rw [hall name]
      by_cases hname : name ∈ mlist
      · cases hvalue : lookup mappings name with
        | none => simp [hname, valueOf]
        | some value => simp [hname]
      · simp [hname, valueOf]

end

/-! ### Other bytes -/

/-- The addresses of the pairs that the loop comes to, and whether it comes to its end. -/
def pairsOf : Nat → RecvCursor → List (Nat × Nat) × Bool
  | 0, _ => ([], true)
  | 1, c => ([], (demarshalString c).isOk)
  | n+2, c =>
      match demarshalString c with
      | .error _ => ([], false)
      | .ok (key, c) =>
          match demarshalString c with
          | .error _ => ([], false)
          | .ok (value, c) => ((key, value) :: (pairsOf n c).1, (pairsOf n c).2)

/-- No byte around those given is read, and what is accepted ends among them. -/
def Contained (g : Given) (c : RecvCursor) : Prop :=
  (∀ p ∈ (demarshal g.alone c).2, g.Inside p) ∧
  ∀ table c', (demarshal g.alone c).1 = some (.ok table c') →
    ∀ key a, table key = some a → g.Inside (.text a)

/-- The keys that have a value have an end among the bytes given, and so do the values, if there are as
many strings as there should be. -/
def Terminated (g : Given) (c : RecvCursor) : Prop :=
  ∀ n c', demarshalHead c = .ok (n, c') → ∀ pair ∈ (pairsOf n c').1,
    g.Inside (.text pair.1) ∧ ((pairsOf n c').2 = true → g.Inside (.text pair.2))

section
variable {g : Given}

theorem bounded_demarshalString : demarshalString.Bounded :=
  (Dec.bounded_alignedWord 4).bind fun len => (Dec.bounded_need len).bind fun _ =>
    .bind (fun _ h => nomatch h) fun key => (Dec.bounded_advance len).bind fun _ => Dec.bounded_pure key

theorem bounded_demarshalHead : demarshalHead.Bounded := by
  refine (Dec.bounded_alignedWord 4).bind fun nstrings => (Dec.bounded_need _).bind fun _ => ?_
  split
  · exact fun c h => nomatch h
  · exact Dec.bounded_pure nstrings

/-- The reader never goes back. -/
theorem here_le_of_alignedWord {c c' : RecvCursor} {n : Nat} (h : Dec.alignedWord 4 c = .ok (n, c')) :
    c.here ≤ c'.here := by
  obtain ⟨⟨⟩, c₁, halign, h⟩ := Dec.bind_eq_ok.mp h
  cases halign
  obtain ⟨⟨⟩, c₂, hneed, h⟩ := Dec.bind_eq_ok.mp h
  obtain ⟨m, c₃, hpeek, h⟩ := Dec.bind_eq_ok.mp h
  obtain ⟨⟨⟩, c₄, hadvance, h⟩ := Dec.bind_eq_ok.mp h
  cases h
  cases hadvance
  obtain ⟨-, hpeek⟩ := Outcomes.of_guard hpeek
  obtain ⟨-, hneed⟩ := Outcomes.of_guard hneed
  cases hpeek
  cases hneed
  have hle := @le_alignUp (c.base + c.cur) 4 (by omega)
  simp only [RecvCursor.here]
  omega

theorem demarshalHead_ok {c c' : RecvCursor} {n : Nat} (h : demarshalHead c = .ok (n, c')) :
    c.here ≤ c'.here := by
  obtain ⟨m, c₁, hword, h⟩ := Dec.bind_eq_ok.mp h
  obtain ⟨⟨⟩, c₂, hneed, h⟩ := Dec.bind_eq_ok.mp h
  obtain ⟨-, hneed⟩ := Outcomes.of_guard hneed
  cases hneed
  split at h
  · cases h
  · cases h
    exact here_le_of_alignedWord hword

/-- A string that is read lies behind the place where the reader stood, and the reader behind it. -/
theorem demarshalString_ok {c c' : RecvCursor} {key : Nat} (h : demarshalString c = .ok (key, c')) :
    c.here ≤ key ∧ key ≤ c'.here := by
  obtain ⟨len, c₁, hlen, h⟩ := Dec.bind_eq_ok.mp h
  obtain ⟨⟨⟩, c₂, hneed, h⟩ := Dec.bind_eq_ok.mp h
  obtain ⟨key', c₃, hkey, h⟩ := Dec.bind_eq_ok.mp h
  obtain ⟨⟨⟩, c₄, hadvance, h⟩ := Dec.bind_eq_ok.mp h
  cases h
  cases hadvance
  cases hkey
  obtain ⟨-, hneed⟩ := Outcomes.of_guard hneed
  cases hneed
  refine ⟨here_le_of_alignedWord hlen, ?_⟩
  simp only [RecvCursor.here]
  omega

/-- A text ends inside if one behind it does. -/
theorem inside_of_le {a a' : Nat} (ha : g.base ≤ a) (hle : a ≤ a') (h : g.Inside (.text a')) :
    g.Inside (.text a) := by
  refine ⟨ha, ?_⟩
  have hsplit : a' - g.base = (a - g.base) + (a' - a) := by omega
  have h0 := h.2
  rw [hsplit, ← List.drop_drop] at h0
  exact List.mem_of_mem_drop h0

/-- The pairs lie behind the reader. -/
theorem here_le_pairsOf (n : Nat) (c : RecvCursor) :
    ∀ pair ∈ (pairsOf n c).1, c.here ≤ pair.1 ∧ c.here ≤ pair.2 := by
  induction n using Nat.twoStepInduction generalizing c with
  | zero => exact fun pair h => nomatch h
  | one => exact fun pair h => nomatch h
  | more n ih _ =>
    intro pair hpair
    unfold pairsOf at hpair
    split at hpair
    · cases hpair
    · rename_i key c₁ hkey
      split at hpair
      · cases hpair
      · rename_i value c₂ hvalue
        have hk := demarshalString_ok hkey
        have hv := demarshalString_ok hvalue
        rcases List.mem_cons.mp hpair with rfl | hrest
        · dsimp only
          omega
        · have hrest := ih c₂ pair hrest
          omega

/-- No value lies behind the last one. -/
theorem le_last_of_pairsOf (n : Nat) (c : RecvCursor) :
    ∀ last ∈ (pairsOf n c).1.getLast?, ∀ pair ∈ (pairsOf n c).1, pair.2 ≤ last.2 := by
  induction n using Nat.twoStepInduction generalizing c with
  | zero => exact fun last h => nomatch h
  | one => exact fun last h => nomatch h
  | more n ih _ =>
    intro last hlast pair hpair
    unfold pairsOf at hlast hpair
    split at hpair
    · cases hpair
    · rename_i key c₁ hkey
      split at hpair
      · cases hpair
      · rename_i value c₂ hvalue
        rw [hkey] at hlast
        dsimp only at hlast
        rw [hvalue] at hlast
        dsimp only at hlast
        have hv := demarshalString_ok hvalue
        cases hrest : (pairsOf n c₂).1 with
        | nil =>
          rw [hrest] at hlast hpair
          cases hlast
          rw [List.mem_singleton.mp hpair]
          exact le_rfl
        | cons head tail =>
          rw [hrest, List.getLast?_cons_cons, ← hrest] at hlast
          rcases List.mem_cons.mp hpair with rfl | hmem
          · have hbehind := here_le_pairsOf n c₂ last (List.mem_of_getLast? hlast)
            dsimp only
            omega
          · exact ih c₂ last hlast pair hmem

/-- The table with the pairs in it. -/
def entered (g : Given) (table : Table) (pairs : List (Nat × Nat)) : Table :=
  pairs.foldl (fun table pair =>
    Function.update table ((textFrom g.alone (2^64) pair.1).getD []) (some pair.2)) table

theorem value_of_entered {table : Table} {pairs : List (Nat × Nat)} {key : List UInt8} {a : Nat}
    (h : entered g table pairs key = some a) : table key = some a ∨ ∃ pair ∈ pairs, pair.2 = a := by
  induction pairs generalizing table with
  | nil => exact .inl h
  | cons pair pairs ih =>
    rcases ih h with hold | ⟨pair', hmem, heq⟩
    · dsimp only at hold
      by_cases he : key = (textFrom g.alone (2^64) pair.1).getD []
      · subst he
        rw [Function.update_self] at hold
        cases hold
        exact .inr ⟨pair, List.mem_cons_self, rfl⟩
      · rw [Function.update_of_ne he] at hold
        exact .inl hold
    · exact .inr ⟨pair', List.mem_cons_of_mem _ hmem, heq⟩

theorem last_entered (g : Given) (table : Table) {pairs : List (Nat × Nat)} {last : Nat × Nat}
    (h : pairs.getLast? = some last) : ∃ key, entered g table pairs key = some last.2 := by
  obtain ⟨init, rfl⟩ := List.getLast?_eq_some_iff.mp h
  refine ⟨(textFrom g.alone (2^64) last.1).getD [], ?_⟩
  unfold entered
  rw [List.foldl_append]
  exact Function.update_self _ _ _

/-! Where the reader stops, and where it goes on. -/

theorem pairsOf_key_error {n : Nat} {c : RecvCursor} {e : Stop} (h : demarshalString c = .error e) :
    pairsOf (n + 2) c = ([], false) := by
  rw [pairsOf, h]

theorem pairsOf_value_error {n : Nat} {c c' : RecvCursor} {key : Nat} {e : Stop}
    (h : demarshalString c = .ok (key, c')) (h' : demarshalString c' = .error e) :
    pairsOf (n + 2) c = ([], false) := by
  simp only [pairsOf, h, h']

theorem pairsOf_pair {n : Nat} {c c₁ c₂ : RecvCursor} {key value : Nat}
    (h : demarshalString c = .ok (key, c₁)) (h' : demarshalString c₁ = .ok (value, c₂)) :
    pairsOf (n + 2) c = ((key, value) :: (pairsOf n c₂).1, (pairsOf n c₂).2) := by
  simp only [pairsOf, h, h']

theorem pairsOf_one {c : RecvCursor} : pairsOf 1 c = ([], (demarshalString c).isOk) := rfl

/-- A string fails, or it is read. -/
theorem demarshalString_cases (c : RecvCursor) :
    demarshalString c = .error .fail ∨ ∃ key c', demarshalString c = .ok (key, c') := by
  cases h : demarshalString c with
  | error e =>
    cases e with
    | undefined => exact absurd h (bounded_demarshalString c)
    | fail => exact .inl rfl
  | ok r => exact .inr ⟨r.1, r.2, rfl⟩

/-- The loop has read nothing unchecked, and has left it. -/
theorem run_of_fail {n : Nat} {table : Table} {c c' : RecvCursor} (hpairs : pairsOf n c = ([], false))
    (hrun : demarshalPairs n table g.alone c = (some (.fail c'), [])) :
    ((∀ p ∈ (demarshalPairs n table g.alone c).2, g.Inside p) ↔
      ∀ pair ∈ (pairsOf n c).1, g.Inside (.text pair.1)) ∧
    ((∀ pair ∈ (pairsOf n c).1, g.Inside (.text pair.1)) →
      if (pairsOf n c).2 then
        ∃ c', (demarshalPairs n table g.alone c).1 = some (.ok (entered g table (pairsOf n c).1) c')
      else ∃ c', (demarshalPairs n table g.alone c).1 = some (.fail c')) := by
  rw [hpairs, hrun]
  exact ⟨iff_of_true (fun p h => nomatch h) (fun p h => nomatch h), fun _ => ⟨c', rfl⟩⟩

/-- What the loop reads unchecked, and what it returns if that was all there. -/
theorem demarshalPairs_run (n : Nat) (table : Table) (c : RecvCursor) :
    ((∀ p ∈ (demarshalPairs n table g.alone c).2, g.Inside p) ↔
      ∀ pair ∈ (pairsOf n c).1, g.Inside (.text pair.1)) ∧
    ((∀ pair ∈ (pairsOf n c).1, g.Inside (.text pair.1)) →
      if (pairsOf n c).2 then
        ∃ c', (demarshalPairs n table g.alone c).1 = some (.ok (entered g table (pairsOf n c).1) c')
      else ∃ c', (demarshalPairs n table g.alone c).1 = some (.fail c')) := by
  induction n using Nat.twoStepInduction generalizing table c with
  | zero => exact ⟨iff_of_true (fun p h => nomatch h) (fun p h => nomatch h), fun _ => ⟨c, rfl⟩⟩
  | one =>
    rcases demarshalString_cases c with hkey | ⟨key, c₁, hkey⟩
    · refine run_of_fail ?_ (prog_bind_fail hkey)
      rw [pairsOf_one, hkey]
      rfl
    · have hpairs : pairsOf 1 c = ([], true) := by
        rw [pairsOf_one, hkey]
        rfl
      have hrun : demarshalPairs 1 table g.alone c = (some (.ok table c₁), []) := prog_bind_ok hkey
      rw [hpairs, hrun]
      exact ⟨iff_of_true (fun p h => nomatch h) (fun p h => nomatch h), fun _ => ⟨c₁, rfl⟩⟩
  | more n ih _ =>
    rcases demarshalString_cases c with hkey | ⟨key, c₁, hkey⟩
    · exact run_of_fail (pairsOf_key_error hkey) (prog_bind_fail hkey)
    · rcases demarshalString_cases c₁ with hvalue | ⟨value, c₂, hvalue⟩
      · have hrun : demarshalPairs (n + 2) table g.alone c = (some (.fail c₁), []) :=
          (prog_bind_ok hkey).trans (prog_bind_fail hvalue)
        exact run_of_fail (pairsOf_value_error hkey hvalue) hrun
      · rw [pairsOf_pair hkey hvalue, demarshalPairs, prog_bind_ok hkey, prog_bind_ok hvalue]
        cases htext : (Peek.text key).read g.alone with
        | none =>
          have hout : ¬ g.Inside (.text key) := by
            rw [← Peek.read_alone, htext]
            exact Bool.false_ne_true
          rw [peek_bind_none (p := fun _ => .text key) htext]
          constructor
          · refine iff_of_false (fun h => hout (h _ List.mem_cons_self)) fun h => ?_
            exact hout (h (key, value) List.mem_cons_self)
          · exact fun h => absurd (h (key, value) List.mem_cons_self) hout
        | some text =>
          have hin : g.Inside (.text key) := by
            rw [← Peek.read_alone, htext]
            rfl
          obtain ⟨hpeeks, hend⟩ := ih (Function.update table text (some value)) c₂
          rw [peek_bind_some (p := fun _ => .text key) htext]
          simp only [List.forall_mem_cons, hin, true_and]
          refine ⟨hpeeks, fun hall => ?_⟩
          have hentered : entered g table ((key, value) :: (pairsOf n c₂).1) =
              entered g (Function.update table text (some value)) (pairsOf n c₂).1 := by
            have hread : textFrom g.alone (2^64) key = some text := htext
            simp only [entered, List.foldl_cons, hread, Option.getD_some]
          rw [hentered]
          exact hend hall

/-- A context that is refused, or the loop behind its head. -/
theorem demarshal_cases (c : RecvCursor) :
    demarshalHead c = .error .fail ∧ demarshal g.alone c = (some (.fail c), []) ∨
    ∃ n c', demarshalHead c = .ok (n, c') ∧
      demarshal g.alone c = demarshalPairs n (fun _ => none) g.alone c' := by
  cases h : demarshalHead c with
  | error e =>
    cases e with
    | undefined => exact absurd h (bounded_demarshalHead c)
    | fail => exact .inl ⟨rfl, prog_bind_fail h⟩
  | ok r => exact .inr ⟨r.1, r.2, rfl, prog_bind_ok h⟩

theorem contained_iff {g : Given} {c : RecvCursor} (hbase : g.base ≤ c.here) :
    Contained g c ↔ Terminated g c := by
  rcases demarshal_cases (g := g) c with ⟨hhead, hrun⟩ | ⟨n, c', hhead, hrun⟩
  · refine iff_of_true ?_ fun n c' h => ?_
    · unfold Contained
      rw [hrun]
      exact ⟨fun p h => (nomatch h), fun table c' h => (nomatch h)⟩
    · rw [hhead] at h
      cases h
  · obtain ⟨hpeeks, hend⟩ := demarshalPairs_run (g := g) n (fun _ => none) c'
    have hbase' : ∀ pair ∈ (pairsOf n c').1, g.base ≤ pair.2 := fun pair hpair =>
      hbase.trans ((demarshalHead_ok hhead).trans (here_le_pairsOf n c' pair hpair).2)
    unfold Contained
    rw [hrun]
    constructor
    · rintro ⟨hinside, hvalues⟩ n' c'' hhead' pair hpair
      rw [hhead] at hhead'
      cases hhead'
      have hkeys := hpeeks.mp hinside
      refine ⟨hkeys pair hpair, fun hcomplete => ?_⟩
      have haccepted := hend hkeys
      rw [if_pos hcomplete] at haccepted
      obtain ⟨c₁, haccepted⟩ := haccepted
      -- the last value is in the table, and no value lies behind it
      have hlast := List.getLast?_eq_some_getLast (List.ne_nil_of_mem hpair)
      generalize (pairsOf n c').1.getLast (List.ne_nil_of_mem hpair) = last at hlast
      obtain ⟨key, hkey⟩ := last_entered g (fun _ => none) hlast
      have hlastin := hvalues _ c₁ haccepted key last.2 hkey
      exact inside_of_le (hbase' pair hpair) (le_last_of_pairsOf n c' last hlast pair hpair) hlastin
    · intro h
      have h := h n c' hhead
      have hkeys : ∀ pair ∈ (pairsOf n c').1, g.Inside (.text pair.1) := fun pair hpair =>
        (h pair hpair).1
      refine ⟨hpeeks.mpr hkeys, fun table c₁ htable key a ha => ?_⟩
      have haccepted := hend hkeys
      split at haccepted
      · rename_i hcomplete
        obtain ⟨c₂, haccepted⟩ := haccepted
        rw [haccepted] at htable
        cases htable
        rcases value_of_entered ha with hnone | ⟨pair, hpair, rfl⟩
        · cases hnone
        · exact (h pair hpair).2 hcomplete
      · obtain ⟨c₂, hfail⟩ := haccepted
        rw [hfail] at htable
        cases htable

end

/-- A context comes over if, and only if, it has a string, no string is too long for its length, and
there are eight bytes a string behind the count: a short value at the end of a message is refused. Of
other bytes no more than the message is read if, and only if, the keys with a value have an end there,
and the values that are accepted have one, too. -/
theorem context_demarshal_iff {g : Given} (haligned : 8 ∣ g.base) (hlt : g.data.length < 2^32)
    (host server : Endian) (mappings : Mappings) (mlist : List CString) {b : PlainBuffer}
    (hw : (b.put (marshal host mappings mlist)).Within g.data) (pos : Nat) (sender : Endian) :
    (Transferred g ⟨g.base, g.data, b.pos, server, host⟩ (b.put (marshal host mappings mlist)).pos
        mappings mlist ↔
      Measured mappings mlist ∧ 0 < found mappings mlist ∧
        16 * found mappings mlist % 2^32 ≤ g.data.length - (alignUp b.pos 4 + 4)) ∧
    (Contained g ⟨g.base, g.data, pos, server, sender⟩ ↔
      Terminated g ⟨g.base, g.data, pos, server, sender⟩) :=
  ⟨transferred_iff haligned hlt server mlist hw, contained_iff (Nat.le_add_right g.base pos)⟩

/-- The context `a = bcd`, which has just enough bytes. -/
theorem context_demarshal_bcd :
    let mappings : Mappings :=
      some fun name => if name.1 = [97] then some ⟨[98, 99, 100], by decide⟩ else none
    let g : Given := ⟨0, [2, 0, 0, 0, 2, 0, 0, 0, 97, 0, 0, 0, 4, 0, 0, 0, 98, 99, 100, 0], by decide⟩
    Transferred g ⟨0, g.data, 0, .big, .little⟩ 20 mappings [⟨[97], by decide⟩] ∧
      (Contained g ⟨0, g.data, 4, .big, .little⟩ ↔ Terminated g ⟨0, g.data, 4, .big, .little⟩) := by
  intro mappings g
  have h := context_demarshal_iff (g := g) (by decide) (by decide) .little .big mappings
    [⟨[97], by decide⟩] (b := ⟨0, []⟩) ⟨[], [], rfl, by decide⟩ 4 .little
  have hpos : (PlainBuffer.put ⟨0, []⟩ (marshal .little mappings [⟨[97], by decide⟩])).pos = 20 := by
    decide
  rw [hpos] at h
  refine ⟨h.1.mpr ⟨fun name hname value hvalue => ?_, by decide, by decide⟩, h.2⟩
  cases List.mem_singleton.mp hname
  cases hvalue
  decide

/-- The context `a = bc`, at the end of a message. -/
theorem context_demarshal_bc :
    let mappings : Mappings :=
      some fun name => if name.1 = [97] then some ⟨[98, 99], by decide⟩ else none
    let g : Given := ⟨0, [2, 0, 0, 0, 2, 0, 0, 0, 97, 0, 0, 0, 3, 0, 0, 0, 98, 99, 0], by decide⟩
    (PlainBuffer.put ⟨0, []⟩ (marshal .little mappings [⟨[97], by decide⟩])).Within g.data ∧
      ¬ Transferred g ⟨0, g.data, 0, .little, .little⟩ 19 mappings [⟨[97], by decide⟩] := by
  intro mappings g
  refine ⟨⟨[], [], rfl, by decide⟩, ?_⟩
  rintro ⟨table, c', hrun, -⟩
  have hhead : demarshalHead ⟨0, g.data, 0, .little, .little⟩ = .error .fail := by decide
  rw [demarshal, prog_bind_fail hhead] at hrun
  cases hrun

end ORBit2.RequestContext
