import ORBit2.CursorSteps
import ORBit2.HostileReferences
import ORBit2.IorParsing

/-! One run of `ORBit_demarshal_IOR`: what it reads and where, what it has allocated and freed at each
of its exits, and what it returns. -/

set_option autoImplicit false

namespace ORBit2
open Words

/-! ### Events -/

/-- The profile of an old ORBit ends before the length of its path is complete. -/
def RecvCursor.endsAtHead (c : RecvCursor) : Bool :=
  match (do let _ ← Dec.octets 2; Dec.alignedWord 4 : Dec Nat) c with
  | .ok _ => false
  | .error _ => true

/-- It ends behind its path, before its port is complete. -/
def RecvCursor.endsAtPort (c : RecvCursor) : Bool :=
  match (do let _ ← Dec.octets 2; Dec.counted : Dec (List UInt8)) c with
  | .ok (_, c') =>
      match Dec.port c' with
      | .ok _ => false
      | .error _ => true
  | .error _ => false

namespace ParseEvent

/-- What is read lies in the buffer, and what passes for being there is there. -/
def Right : ParseEvent → Prop
  | .read start cur size stop => start ≤ cur ∧ cur + size ≤ stop
  | .elements size room => size ≤ room
  | _ => True

/-- No encapsulation is empty, and the number of bytes of the code sets does not wrap round to one
that there is room for. -/
def Sane : ParseEvent → Prop
  | .encapsulation len => len ≠ 0
  | .codeSets count cur stop => cur + count * 4 % 2^32 ≤ stop → cur + 4 * count ≤ stop
  | _ => True

/-- How many more times a block has been allocated than freed; the buffer of a profile that ends at
its head is left. -/
def effect (c : Chunk) : ParseEvent → Int
  | .heap e => e.effect c
  | .orbitSpecific self sub => if sub.endsAtHead ∧ self = c then -1 else 0
  | _ => 0

/-- Frees of fields that have not been assigned, against profiles that end at their port. -/
def unset : ParseEvent → Int
  | .heap .freeUnset => 1
  | .orbitSpecific _ sub => if sub.endsAtPort then -1 else 0
  | _ => 0

def text? : ParseEvent → Option (List UInt8)
  | .text bytes => some bytes
  | _ => none

def address? : ParseEvent → Option Nat
  | .heap (.alloc c) => some c.address
  | _ => none

end ParseEvent

def tally (c : Chunk) (log : List ParseEvent) : Int := (log.map (ParseEvent.effect c)).sum

def unsets (log : List ParseEvent) : Int := (log.map ParseEvent.unset).sum

def textsOf (log : List ParseEvent) : List (List UInt8) := log.filterMap ParseEvent.text?

/-- The addresses of the blocks that are allocated. -/
def addresses (log : List ParseEvent) : List Nat := log.filterMap ParseEvent.address?

section Append
variable (c : Chunk) (e : ParseEvent) (log rest : List ParseEvent) (events : List HeapEvent)

@[simp] theorem tally_nil : tally c [] = 0 := rfl

@[simp] theorem tally_cons : tally c (e :: log) = e.effect c + tally c log := by
  simp [tally]

@[simp] theorem tally_append : tally c (log ++ rest) = tally c log + tally c rest := by
  simp [tally]

@[simp] theorem tally_heap : tally c (events.map .heap) = heapTally c events := by
  rw [tally, List.map_map]
  rfl

@[simp] theorem unsets_nil : unsets [] = 0 := rfl

@[simp] theorem unsets_cons : unsets (e :: log) = e.unset + unsets log := by
  simp [unsets]

@[simp] theorem unsets_append : unsets (log ++ rest) = unsets log + unsets rest := by
  simp [unsets]

@[simp] theorem textsOf_append : textsOf (log ++ rest) = textsOf log ++ textsOf rest := by
  simp [textsOf]

@[simp] theorem textsOf_heap : textsOf (events.map .heap) = [] := by
  rw [textsOf, List.filterMap_map, List.filterMap_eq_nil_iff]
  exact fun _ _ => rfl

@[simp] theorem addresses_append : addresses (log ++ rest) = addresses log ++ addresses rest := by
  simp [addresses]

end Append

/-- The run reads inside its buffers if, and only if, all it comes to is sane. -/
def Fine (log : List ParseEvent) : Prop := (∀ e ∈ log, e.Right) ↔ ∀ e ∈ log, e.Sane

theorem Fine.append {log rest : List ParseEvent} (h : Fine log) (h' : Fine rest) : Fine (log ++ rest) := by
  simp only [Fine, List.forall_mem_append]
  exact and_congr h h'

theorem Fine.heap (events : List HeapEvent) : Fine (events.map .heap) := by
  simp [Fine, ParseEvent.Right, ParseEvent.Sane]

/-- What each run keeps: it stands behind the beginning of its buffer, reads inside it as far as that
is sane, and gives each block an address of its own. -/
def parsingLaw : Traced.Law ParseEvent Parsing where
  ok s := s.start ≤ s.cursor.cur
  along s log stop := Fine log ∧ ∃ k, addresses log = List.range' s.next k ∧
    ∀ s', stop = some s' → s'.next = s.next + k
  nothing s _ := ⟨iff_of_true (List.forall_mem_nil _) (List.forall_mem_nil _), 0, rfl, by rintro _ ⟨⟩; rfl⟩
  append := by
    rintro s log s' rest stop ⟨hfine, k, hlog, hnext⟩ ⟨hfine', k', hrest, hstop⟩
    have hnext := hnext s' rfl
    refine ⟨hfine.append hfine', k + k', ?_, ?_⟩
    · rw [addresses_append, hlog, hrest, hnext, List.range'_append_1]
    · intro s'' hs''
      rw [hstop s'' hs'', hnext]
      omega

/-! ### Readers that take so many bytes -/

namespace Dec

theorem need_room {c : RecvCursor} {n : Nat} (h : c.cur + n ≤ c.data.length) : need n c = .ok ((), c) :=
  if_neg (by omega)

theorem octets_room {c : RecvCursor} {n : Nat} (h : c.cur + n ≤ c.data.length) :
    octets n c = .ok ((c.data.drop c.cur).take n, { c with cur := c.cur + n }) := by
  have hpeek : peekBytes n c = .ok ((c.data.drop c.cur).take n, c) := if_neg (by omega)
  rw [octets, bind_ok (need_room h), bind_ok hpeek]
  rfl

theorem octets_short {c : RecvCursor} {n : Nat} (h : c.data.length < c.cur + n) :
    octets n c = .error .fail := by
  rw [octets, bind_error (e := .fail) (by rw [need, if_pos h])]

/-- Where so many bytes are left, the reader takes these. -/
def Exact {α : Type} (size : Nat) (m : Dec α) : Prop :=
  ∀ c : RecvCursor, c.cur + size ≤ c.data.length →
    ∃ a, m c = .ok (a, { c with cur := c.cur + size })

namespace Exact
variable {α β : Type} {m : Dec α} {f : α → Dec β} {n k : Nat}

theorem pure (a : α) : Exact 0 (Pure.pure a : Dec α) := fun _ _ => ⟨a, rfl⟩

theorem bind (hm : Exact n m) (hf : ∀ a, Exact k (f a)) : Exact (n + k) (m >>= f) := by
  intro c hc
  obtain ⟨a, ha⟩ := hm c (by omega)
  obtain ⟨b, hb⟩ := hf a { c with cur := c.cur + n } (by simp only; omega)
  exact ⟨b, by rw [bind_ok ha, hb, Nat.add_assoc]⟩

theorem word (w : Nat) : Exact w (Dec.word w) := by
  intro c hc
  rw [Dec.word, bind_apply, Dec.peek, if_neg (by omega)]
  exact ⟨_, rfl⟩

theorem ulong : Exact 4 Dec.ulong := (word 4).bind fun _ => pure _

theorem ushort : Exact 2 Dec.ushort := (word 2).bind fun _ => pure _

theorem octets (n : Nat) : Exact n (Dec.octets n) := fun _ hc => ⟨_, octets_room hc⟩

end Exact
end Dec

namespace Parse

/-- `m` keeps the law, from each state. -/
abbrev Keeps {α : Type} (s : Parsing) (m : Parse α) (post : α → List ParseEvent → Parsing → Prop) : Prop :=
  Traced.Keeps parsingLaw s m post

/-! ### Steps -/

/-- What a run leaves: the blocks that are held, and the strings that have been taken. -/
structure Leaves (owned : List Chunk) (texts : List (List UInt8)) (log : List ParseEvent) : Prop where
  held : ∀ c, tally c log = owned.count c
  unset : unsets log = 0
  texts : textsOf log = texts

section Leaves
variable {owned owned' : List Chunk} {texts texts' : List (List UInt8)} {log rest : List ParseEvent}

theorem Leaves.nothing : Leaves [] [] [] := ⟨fun _ => rfl, rfl, rfl⟩

theorem Leaves.append (h : Leaves owned texts log) (h' : Leaves owned' texts' rest) :
    Leaves (owned ++ owned') (texts ++ texts') (log ++ rest) where
  held c := by rw [tally_append, h.held, h'.held, List.count_append, Nat.cast_add]
  unset := by rw [unsets_append, h.unset, h'.unset, add_zero]
  texts := by rw [textsOf_append, h.texts, h'.texts]

/-- In another order. -/
theorem Leaves.perm (owned' : List Chunk) (h : Leaves owned texts log) (hperm : ∀ c, owned'.count c = owned.count c) :
    Leaves owned' texts log :=
  ⟨fun c => by rw [h.held, hperm], h.unset, h.texts⟩

theorem unsets_frees {events : List HeapEvent} (h : Frees events) : unsets (events.map .heap) = 0 := by
  induction events with
  | nil => rfl
  | cons e events ih =>
    obtain ⟨c, rfl⟩ := h e List.mem_cons_self
    rw [List.map_cons, unsets_cons, ih fun e he => h e (List.mem_cons_of_mem _ he)]
    rfl

theorem addresses_frees {events : List HeapEvent} (h : Frees events) :
    addresses (events.map .heap) = [] := by
  rw [addresses, List.filterMap_map, List.filterMap_eq_nil_iff]
  intro e he
  obtain ⟨c, rfl⟩ := h e he
  rfl

/-- Some of the blocks are freed. -/
theorem Leaves.freed {events : List HeapEvent} (owned' gone : List Chunk) (h : Leaves owned texts log)
    (hevents : ∀ c, heapTally c events = -gone.count c) (hfrees : Frees events)
    (hcount : ∀ c, owned.count c = gone.count c + owned'.count c) :
    Leaves owned' texts (log ++ events.map .heap) where
  held c := by
    have hc := hcount c
    rw [tally_append, h.held, tally_heap, hevents]
    omega
  unset := by rw [unsets_append, h.unset, unsets_frees hfrees, add_zero]
  texts := by rw [textsOf_append, textsOf_heap, List.append_nil, h.texts]

end Leaves

theorem keeps_heap {α : Type} {m : Traced HeapEvent Nat α} {p : α → List ParseEvent → Parsing → Prop}
    {s : Parsing} {a : α} {k : Nat} (events : List HeapEvent)
    (hm : m s.next = (some (a, s.next + k), events))
    (haddresses : addresses (events.map .heap) = List.range' s.next k)
    (h : p a (events.map .heap) { s with next := s.next + k }) : Keeps s (heap m) p := by
  intro hs
  rw [heap, hm]
  refine ⟨⟨.heap events, k, haddresses, ?_⟩, ?_⟩
  · rintro _ ⟨⟩
    rfl
  · rintro _ _ ⟨⟩
    exact ⟨hs, h⟩

theorem keeps_newChunk (s : Parsing) (allocator : Allocator) :
    Keeps s (heap (newChunk allocator)) fun c log s' =>
      c.allocator = allocator ∧ Leaves [c] [] log ∧ s'.cursor = s.cursor := by
  refine keeps_heap (k := 1) _ rfl rfl ⟨rfl, ⟨fun d => ?_, rfl, rfl⟩, rfl⟩
  rw [tally_heap, count_singleton, heapTally_cons, heapTally_nil, add_zero]
  rfl

theorem keeps_newBytes (s : Parsing) (allocator : Allocator) (size : Nat) :
    Keeps s (heap (newBytes allocator size)) fun p log s' =>
      MadeBy allocator p ∧ (p = none ↔ size = 0) ∧ Leaves p.toList [] log ∧ s'.cursor = s.cursor := by
  by_cases hsize : size = 0
  · refine keeps_heap (k := 0) (a := none) [] ?_ rfl ⟨?_, ?_, .nothing, rfl⟩
    · rw [newBytes, if_pos hsize]
      rfl
    · exact fun c h => nomatch h
    · exact iff_of_true rfl hsize
  · refine keeps_heap (k := 1) (a := some ⟨s.next, allocator⟩) [.alloc ⟨s.next, allocator⟩] ?_
      rfl ⟨madeBy_some.mpr rfl, ?_, ⟨fun d => ?_, rfl, rfl⟩, rfl⟩
    · rw [newBytes, if_neg hsize]
      rfl
    · exact iff_of_false (Option.some_ne_none _) hsize
    · rw [tally_heap, Option.toList_some, count_singleton, heapTally_cons, heapTally_nil, add_zero]
      rfl

theorem keeps_emits {s : Parsing} {log : List ParseEvent} {p : Unit → List ParseEvent → Parsing → Prop}
    (hfine : s.start ≤ s.cursor.cur → Fine log) (haddresses : addresses log = []) (h : p () log s) :
    Keeps s (Traced.emits log) p := by
  refine .step id (fun hs => ⟨hfine hs, 0, haddresses, ?_⟩) h
  rintro _ ⟨⟩
  rfl

theorem keeps_free (s : Parsing) {events : List HeapEvent} (h : Frees events) :
    Keeps s (free events) fun _ log s' => s' = s ∧ log = events.map .heap :=
  keeps_emits (fun _ => .heap events) (addresses_frees h) ⟨rfl, rfl⟩

/-- A reader that is made by a test for its bytes. -/
theorem keeps_tested {α : Type} (s : Parsing) {n size : Nat} (hn : 0 < n) {m : Dec α}
    (hm : Dec.Exact size m) :
    Keeps s (tested n size m) fun r log s' =>
      Leaves [] [] log ∧
        match r with
        | none => (do Dec.align n; Dec.need size; m : Dec α) s.cursor = .error .fail
        | some a => (do Dec.align n; Dec.need size; m : Dec α) s.cursor = .ok (a, s'.cursor) := by
  intro hs
  have hs : s.start ≤ s.cursor.cur := hs
  have hle : s.cursor.cur ≤ alignUp (s.cursor.base + s.cursor.cur) n - s.cursor.base := by
    have h := le_alignUp (s.cursor.base + s.cursor.cur) hn
    omega
  generalize hc : ({ s.cursor with cur := alignUp (s.cursor.base + s.cursor.cur) n - s.cursor.base } :
    RecvCursor) = c
  have hbegin : (do Dec.align n; Dec.need size; m : Dec α) s.cursor = (do Dec.need size; m : Dec α) c := by
    rw [Dec.bind_apply, Dec.align, hc]
  rw [tested, hbegin]
  by_cases hroom : c.data.length < c.cur + size
  · have hfail : (do Dec.need size; m : Dec α) c = .error .fail := by
      rw [Dec.bind_apply, Dec.need, if_pos hroom]
    rw [hfail]
    refine ⟨parsingLaw.nothing s hs, ?_⟩
    rintro _ _ ⟨⟩
    exact ⟨hs, .nothing, rfl⟩
  · obtain ⟨a, ha⟩ := hm c (by omega)
    have hok : (do Dec.need size; m : Dec α) c = .ok (a, { c with cur := c.cur + size }) := by
      rw [Dec.bind_apply, Dec.need, if_neg hroom]
      exact ha
    rw [hok]
    subst hc
    refine ⟨⟨iff_of_true ?_ ?_, 0, rfl, ?_⟩, ?_⟩
    · simp only [List.forall_mem_singleton, ParseEvent.Right]
      simp only at hroom
      omega
    · simp [ParseEvent.Sane]
    · rintro _ ⟨⟩
      rfl
    · rintro _ _ ⟨⟩
      refine ⟨?_, ⟨fun _ => rfl, rfl, rfl⟩, rfl⟩
      simp only [parsingLaw]
      omega

theorem keeps_octets (s : Parsing) (size : Nat) :
    Keeps s (octets size) fun r log s' =>
      Leaves [] [] log ∧
        match r with
        | none => Dec.octets size s.cursor = .error .fail
        | some bytes => Dec.octets size s.cursor = .ok (bytes, s'.cursor) ∧ bytes.length = size := by
  intro hs
  have hs : s.start ≤ s.cursor.cur := hs
  rw [octets]
  by_cases hroom : s.cursor.data.length < s.cursor.cur + size
  · rw [if_pos hroom]
    refine ⟨parsingLaw.nothing s hs, ?_⟩
    rintro _ _ ⟨⟩
    exact ⟨hs, .nothing, Dec.octets_short hroom⟩
  · rw [if_neg hroom]
    refine ⟨⟨iff_of_true ?_ ?_, 0, rfl, ?_⟩, ?_⟩
    · simp [ParseEvent.Right, RecvCursor.room]
      omega
    · simp [ParseEvent.Sane]
    · rintro _ ⟨⟩
      rfl
    · rintro _ _ ⟨⟩
      refine ⟨?_, ⟨fun _ => rfl, rfl, rfl⟩, Dec.octets_room (by omega), ?_⟩
      · simp only [parsingLaw]
        omega
      · rw [List.length_take, List.length_drop]
        omega

theorem keeps_length (s : Parsing) :
    Keeps s length fun r log s' =>
      Leaves [] [] log ∧
        match r with
        | none => Dec.alignedWord 4 s.cursor = .error .fail
        | some n => Dec.alignedWord 4 s.cursor = .ok (n, s'.cursor) := by
  refine (keeps_tested (n := 4) s (by decide) (Dec.Exact.word 4)).mono fun r log s' h => ?_
  cases r <;> exact h

/-! ### What a function returns -/

/-- A struct that is returned: what it stands for, the blocks it is made of, its strings, and whether
each block is freed by the one that has made it. -/
structure View (α β : Type) where
  value : α → β
  chunks : α → List Chunk
  strings : α → List Block
  Own : α → Prop

/-- The copy of a string that has been taken. -/
def kept (bytes : List UInt8) : Block := if bytes.length = 0 then none else some bytes

/-- A function returns NULL where the reader fails, and has given back all that it had; else it
returns what the reader reads. -/
def Parsed {α β : Type} (v : View α β) (d : Dec β) (s : Parsing) :
    Option α → List ParseEvent → Parsing → Prop
  | none, log, _ => (∃ texts, Leaves [] texts log) ∧ d s.cursor = .error .fail
  | some a, log, s' =>
      v.Own a ∧ (∃ texts, Leaves (v.chunks a) texts log ∧ v.strings a = texts.map kept) ∧
        d s.cursor = .ok (v.value a, s'.cursor)

def charsView : View Chars Block :=
  ⟨Chars.text, fun chars => chars.block.toList, fun chars => [chars.text], fun chars => MadeBy .glib chars.block⟩

def keyView : View KeyStruct (List UInt8) :=
  ⟨KeyStruct.octets, KeyStruct.chunks, fun _ => [], KeyStruct.Own⟩

def componentView : View ComponentInfo (IopComponent Block) :=
  ⟨ComponentInfo.value, ComponentInfo.chunks, fun c => c.value.strings, ComponentInfo.Own⟩

def componentsView : View (List ComponentInfo) (List (IopComponent Block)) :=
  ⟨List.map ComponentInfo.value, componentsChunks, fun cs => cs.flatMap fun c => c.value.strings,
    fun cs => ∀ c ∈ cs, c.Own⟩

def codeSetView : View CodeSetData CodeSetComponent :=
  ⟨CodeSetData.value, fun data => data.buffer.toList, fun _ => [], fun data => MadeBy .orbit data.buffer⟩

def profileView : View ProfileInfo (IopProfile Block) :=
  ⟨ProfileInfo.value, ProfileInfo.chunks, fun p => p.value.strings, ProfileInfo.Own⟩

def profilesView : View (List ProfileInfo) (List (IopProfile Block)) :=
  ⟨List.map ProfileInfo.value, profilesChunks, fun ps => ps.flatMap fun p => p.value.strings,
    fun ps => ∀ p ∈ ps, p.Own⟩

theorem keeps_memdup (s : Parsing) (bytes : List UInt8) :
    Keeps s (memdup bytes) fun chars log s' =>
      MadeBy .glib chars.block ∧ Leaves chars.block.toList [] log ∧ chars.bytes = bytes ∧
        chars.text = kept bytes ∧ s'.cursor = s.cursor := by
  refine (keeps_newBytes s .glib bytes.length).bind fun block log s' h => .pure ?_
  obtain ⟨hmade, hnone, hleaves, hcursor⟩ := h
  refine ⟨hmade, ?_, rfl, ?_, hcursor⟩
  · rw [List.append_nil]
    exact hleaves
  · cases block with
    | none => rw [kept, if_pos (hnone.mp rfl)]; rfl
    | some c => rw [kept, if_neg fun h => absurd (hnone.mpr h) (Option.some_ne_none c)]; rfl

theorem keeps_text (s : Parsing) (bytes : List UInt8) :
    Keeps s (Traced.emits [.text bytes]) fun _ log s' => Leaves [] [bytes] log ∧ s' = s :=
  keeps_emits (fun _ => iff_of_true (by simp [ParseEvent.Right]) (by simp [ParseEvent.Sane])) rfl
    ⟨⟨fun _ => rfl, rfl, rfl⟩, rfl⟩

theorem memdup_octets {c c' : RecvCursor} {len : Nat} {bytes : List UInt8}
    (h : Dec.octets len c = .ok (bytes, c')) (hlen : bytes.length = len) :
    Dec.memdup len c = .ok (kept bytes, c') := by
  rw [Dec.memdup, Dec.bind_ok h, kept, hlen]
  rfl

theorem keeps_string (s : Parsing) (len : Nat) :
    Keeps s (string len) (Parsed charsView (Dec.memdup len) s) := by
  refine (keeps_octets s len).bind fun r log s₁ hoctets => ?_
  obtain ⟨hlog, hoctets⟩ := hoctets
  cases r with
  | none => exact .pure ⟨⟨_, hlog.append .nothing⟩, Dec.bind_error hoctets⟩
  | some bytes =>
    refine (keeps_text s₁ bytes).bind fun _ log₂ s₂ htext => ?_
    obtain ⟨htext, rfl⟩ := htext
    refine (keeps_memdup s₂ bytes).bind fun chars log₃ s₃ hchars => .pure ?_
    obtain ⟨hmade, hleaves, -, hkept, hcursor⟩ := hchars
    have hall := hlog.append (htext.append (hleaves.append .nothing))
    rw [List.nil_append, List.nil_append, List.append_nil] at hall
    refine ⟨hmade, ⟨[bytes], hall, congrArg (fun text => [text]) hkept⟩, ?_⟩
    rw [memdup_octets hoctets.1 hoctets.2, hcursor, ← hkept]
    rfl

theorem keeps_countedString (s : Parsing) :
    Keeps s countedString (Parsed charsView Dec.stringBlock s) := by
  refine (keeps_length s).bind fun r log s₁ hlen => ?_
  obtain ⟨hlog, hlen⟩ := hlen
  cases r with
  | none => exact .pure ⟨⟨_, hlog.append .nothing⟩, Dec.bind_error hlen⟩
  | some len =>
    refine (keeps_string s₁ len).mono fun r log' s' h => ?_
    cases r with
    | none =>
      obtain ⟨⟨texts, hleaves⟩, hfail⟩ := h
      exact ⟨⟨_, hlog.append hleaves⟩, by rw [Dec.stringBlock, Dec.bind_ok hlen, hfail]⟩
    | some chars =>
      obtain ⟨hown, ⟨texts, hleaves, hstrings⟩, hok⟩ := h
      exact ⟨hown, ⟨_, hlog.append hleaves, hstrings⟩, by rw [Dec.stringBlock, Dec.bind_ok hlen, hok]⟩

theorem keeps_objectKey (s : Parsing) : Keeps s objectKey (Parsed keyView Dec.counted s) := by
  refine (keeps_length s).bind fun r log s₁ hlen => ?_
  obtain ⟨hlog, hlen⟩ := hlen
  cases r with
  | none => exact .pure ⟨⟨_, hlog.append .nothing⟩, Dec.bind_error hlen⟩
  | some len =>
    refine (keeps_octets s₁ len).bind fun r log₂ s₂ hoctets => ?_
    obtain ⟨hlog₂, hoctets⟩ := hoctets
    cases r with
    | none =>
      exact .pure ⟨⟨_, hlog.append (hlog₂.append .nothing)⟩, by rw [Dec.counted, Dec.bind_ok hlen, hoctets]⟩
    | some bytes =>
      refine (keeps_newChunk s₂ .orbit).bind fun self log₃ s₃ hself => ?_
      obtain ⟨hmade, hlog₃, hcursor₃⟩ := hself
      refine (keeps_newBytes s₃ .orbit len).bind fun buffer log₄ s₄ hbuffer => .pure ?_
      obtain ⟨hmade₄, -, hlog₄, hcursor₄⟩ := hbuffer
      have hall := hlog.append (hlog₂.append (hlog₃.append (hlog₄.append .nothing)))
      rw [List.append_nil] at hall
      refine ⟨⟨hmade, hmade₄⟩, ⟨[], hall, rfl⟩, ?_⟩
      rw [Dec.counted, Dec.bind_ok hlen, hoctets.1, hcursor₄, hcursor₃]
      rfl

/-! ### Encapsulations -/

/-- A buffer has been set up for an encapsulation, and what is read from it is what is read inside. -/
structure Opened (ownOrder : Bool) (s : Parsing) (sub : SubBuffer) (log : List ParseEvent) (s' : Parsing) :
    Prop where
  allocator : sub.self.allocator = .glib
  leaves : Leaves [sub.self] [] log
  begins : sub.start ≤ sub.cursor.cur
  encaps : ∀ {α : Type} (m : Dec α), Dec.encaps ownOrder m s.cursor =
    match m sub.cursor with
    | .error e => .error e
    | .ok (a, _) => .ok (a, s'.cursor)

theorem keeps_useEncaps (s : Parsing) (ownOrder : Bool) (len : Nat) :
    Keeps s (useEncaps ownOrder len) fun sub log s' =>
      sub.self.allocator = .glib ∧ Leaves [sub.self] [] log ∧ sub.start = s.cursor.cur ∧
        sub.cursor = s.cursor.encaps ownOrder len ∧
        s'.cursor = { s.cursor with cur := s.cursor.cur + len } := by
  refine (keeps_newChunk s .glib).bind fun self log s₁ hself => ?_
  obtain ⟨hmade, hleaves, hcursor⟩ := hself
  refine .step (fun hs => ?_) (fun hs => ⟨?_, 0, rfl, ?_⟩) ⟨hmade, ?_, ?_, ?_, ?_⟩
  · have hs : s₁.start ≤ s₁.cursor.cur := hs
    simp only [parsingLaw]
    omega
  · have hlen : s₁.cursor.cur + 1 ≤ s₁.cursor.cur + len ↔ len ≠ 0 := by omega
    simp [Fine, ParseEvent.Right, ParseEvent.Sane, hlen]
  · rintro _ ⟨⟩
    rfl
  · refine Leaves.perm _ (hleaves.append (?_ : Leaves [] [] _)) fun c => ?_
    · exact ⟨fun _ => rfl, rfl, rfl⟩
    · rw [List.append_nil]
  · rw [← hcursor]
  · rw [← hcursor]
  · rw [← hcursor]

theorem keeps_useEncapsBuf (s : Parsing) (ownOrder : Bool) :
    Keeps s (useEncapsBuf ownOrder) fun r log s' =>
      match r with
      | none => Leaves [] [] log ∧ ∀ {α : Type} (m : Dec α), Dec.encaps ownOrder m s.cursor = .error .fail
      | some sub => Opened ownOrder s sub log s' := by
  refine (keeps_length s).bind fun r log s₁ hlen => ?_
  obtain ⟨hlog, hlen⟩ := hlen
  cases r with
  | none => exact .pure ⟨hlog.append .nothing, fun m => Dec.bind_error hlen⟩
  | some len =>
    refine .bind (p := fun s log s' => s = s₁ ∧ s' = s₁ ∧ log = []) (.get ⟨rfl, rfl, rfl⟩)
      fun found log₂ s₂ hget => ?_
    obtain ⟨rfl, rfl, rfl⟩ := hget
    by_cases hroom : s₂.cursor.data.length < s₂.cursor.cur + len
    · simp only [if_pos hroom]
      refine .pure ⟨hlog.append .nothing, fun m => ?_⟩
      rw [Dec.encaps, Dec.bind_ok hlen, Dec.bind_error]
      rw [Dec.need, if_pos hroom]
    · simp only [if_neg hroom]
      refine .bind (p := fun _ log s' => Leaves [] [] log ∧ s' = s₂)
        (keeps_emits (fun _ => ?_) rfl ⟨⟨fun _ => rfl, rfl, rfl⟩, rfl⟩) fun _ log₃ s₃ helements => ?_
      · refine iff_of_true ?_ (by simp [ParseEvent.Sane])
        simp only [List.forall_mem_singleton, ParseEvent.Right, RecvCursor.room]
        omega
      obtain ⟨hlog₃, rfl⟩ := helements
      refine (keeps_useEncaps s₃ ownOrder len).bind fun sub log₄ s₄ hsub => .pure ?_
      obtain ⟨hmade, hlog₄, hstart, hcursor, hcursor₄⟩ := hsub
      refine ⟨hmade, hlog.append (hlog₃.append (hlog₄.append .nothing)), ?_, fun m => ?_⟩
      · rw [hstart, hcursor]
        exact Nat.le_succ _
      · rw [Dec.encaps, Dec.bind_ok hlen, Dec.bind_ok (Dec.need_room (by omega)), Dec.within, hcursor]
        cases m (s₃.cursor.encaps ownOrder len) with
        | error e => rfl
        | ok r => rw [hcursor₄]

theorem keeps_inside {α : Type} {s : Parsing} {sub : SubBuffer} {m : Parse α}
    {p : α → List ParseEvent → Parsing → Prop} (hbegins : sub.start ≤ sub.cursor.cur)
    (h : Keeps ⟨sub.cursor, sub.start, s.next⟩ m p) :
    Keeps s (inside sub m) fun a log s' => s'.cursor = s.cursor ∧ ∃ t, p a log t := by
  intro hs
  obtain ⟨⟨hfine, k, haddresses, hnext⟩, hend⟩ := h hbegins
  refine ⟨⟨hfine, k, haddresses, ?_⟩, ?_⟩
  · intro s' hs'
    simp only [inside, Traced.within, Option.map_map, Option.map_eq_some_iff] at hs'
    obtain ⟨r, hr, rfl⟩ := hs'
    exact hnext r.2 (by rw [hr]; rfl)
  · intro a s' ha
    simp only [inside, Traced.within, Option.map_eq_some_iff] at ha
    obtain ⟨⟨a', t⟩, hr, heq⟩ := ha
    cases heq
    exact ⟨hs, rfl, t, (hend a' t hr).2⟩

/-- The buffer is given back. -/
theorem keeps_unuse (s : Parsing) {sub : SubBuffer} (h : sub.self.allocator = .glib) :
    Keeps s (unuse sub) fun _ log s' =>
      s' = s ∧ log = (gFree (some sub.self)).map .heap ∧ ∀ c, heapTally c (gFree (some sub.self)) =
        -([sub.self].count c : Int) :=
  (keeps_free s (.gFree _)).mono fun _ _ _ hfree =>
    ⟨hfree.1, hfree.2, fun c => heapTally_gFree c (madeBy_some.mpr h)⟩

/-- What is returned from an encapsulation, whose buffer is given back in any case. -/
theorem keeps_enclosed {α β : Type} {v : View α β} {d : Dec β} {ownOrder : Bool}
    {body : Parse (Option α)} (hbody : ∀ s, Keeps s body (Parsed v d s)) (s : Parsing) :
    Keeps s (do
      match ← useEncapsBuf ownOrder with
      | none => return none
      | some sub =>
          let retval ← inside sub body
          unuse sub
          return retval) (Parsed v (Dec.encaps ownOrder d) s) := by
  refine (keeps_useEncapsBuf s ownOrder).bind fun r log s₁ hsub => ?_
  cases r with
  | none => exact .pure ⟨⟨_, hsub.1.append .nothing⟩, hsub.2 d⟩
  | some sub =>
    obtain ⟨hmade, hlog, hbegins, hencaps⟩ := hsub
    refine (keeps_inside hbegins (hbody _)).bind fun r log₂ s₂ hr => ?_
    obtain ⟨hcursor, t, hr⟩ := hr
    refine (keeps_unuse s₂ hmade).bind fun _ log₃ s₃ hfree => .pure ?_
    obtain ⟨rfl, rfl, hfree⟩ := hfree
    have hencaps := hencaps d
    cases r with
    | none =>
      obtain ⟨⟨texts, hleaves⟩, hfail⟩ := hr
      refine ⟨⟨[] ++ texts, ?_⟩, by rw [hencaps, hfail]⟩
      have h := (hlog.append hleaves).freed [] _ hfree (.gFree _) fun c => by simp
      rw [List.append_nil, ← List.append_assoc]
      exact h
    | some a =>
      obtain ⟨hown, ⟨texts, hleaves, hstrings⟩, hok⟩ := hr
      refine ⟨hown, ⟨[] ++ texts, ?_, hstrings⟩, by rw [hencaps, hok, hcursor]⟩
      have h := (hlog.append hleaves).freed (v.chunks a) _ hfree (.gFree _) fun c => by
        rw [List.count_append]
      rw [List.append_nil, ← List.append_assoc]
      exact h

theorem encaps_map {α β : Type} (ownOrder : Bool) (m : Dec α) (g : α → β) :
    (do let a ← Dec.encaps ownOrder m; return g a : Dec β) =
      Dec.encaps ownOrder (do let a ← m; return g a) := by
  funext c
  simp only [Dec.encaps, Dec.bind_apply]
  cases Dec.alignedWord 4 c with
  | error e => rfl
  | ok r =>
    cases hneed : Dec.need r.1 r.2 with
    | error e => simp only [hneed]
    | ok u =>
      simp only [hneed, Dec.within, Dec.bind_apply]
      cases m (u.2.encaps ownOrder r.1) with
      | error e => rfl
      | ok a => rfl

/-! ### Components -/

theorem keeps_sslSecTrans (s : Parsing) :
    Keeps s sslSecTrans (Parsed componentView (Dec.encaps false do
      Dec.align 4
      Dec.need 10
      let targetSupports ← Dec.ulong
      let targetRequires ← Dec.ulong
      let port ← Dec.ushort
      return .sslSecTrans targetSupports targetRequires port) s) := by
  refine (keeps_useEncapsBuf s false).bind fun r log s₁ hsub => ?_
  cases r with
  | none => exact .pure ⟨⟨_, hsub.1.append .nothing⟩, hsub.2 _⟩
  | some sub =>
    obtain ⟨hmade, hlog, hbegins, hencaps⟩ := hsub
    have hwords : Dec.Exact 10 (do
        let targetSupports ← Dec.ulong
        let targetRequires ← Dec.ulong
        let port ← Dec.ushort
        return (targetSupports, targetRequires, port)) :=
      Dec.Exact.ulong.bind fun _ => Dec.Exact.ulong.bind fun _ => Dec.Exact.ushort.bind fun _ => .pure _
    refine (keeps_inside hbegins (keeps_tested (n := 4) _ (by decide) hwords)).bind fun r log₂ s₂ hr => ?_
    obtain ⟨hcursor, t, hlog₂, hr⟩ := hr
    have hread : ∀ c : RecvCursor, (do
        Dec.align 4
        Dec.need 10
        let targetSupports ← Dec.ulong
        let targetRequires ← Dec.ulong
        let port ← Dec.ushort
        return IopComponent.sslSecTrans targetSupports targetRequires port : Dec (IopComponent Block)) c =
        (do
          let words ← (do
            Dec.align 4
            Dec.need 10
            let targetSupports ← Dec.ulong
            let targetRequires ← Dec.ulong
            let port ← Dec.ushort
            return (targetSupports, targetRequires, port))
          return IopComponent.sslSecTrans words.1 words.2.1 words.2.2 : Dec (IopComponent Block)) c := by
      intro c
      simp only [Dec.bind_assoc, Dec.pure_bind]
    cases r with
    | none =>
      refine (keeps_unuse s₂ hmade).bind fun _ log₃ s₃ hfree => .pure ?_
      obtain ⟨rfl, rfl, hfree⟩ := hfree
      refine ⟨⟨[], ?_⟩, by rw [hencaps, hread, Dec.bind_error hr]⟩
      have h := (hlog.append hlog₂).freed [] _ hfree (.gFree _) fun c => by simp
      rw [List.append_nil, ← List.append_assoc]
      exact h
    | some words =>
      obtain ⟨targetSupports, targetRequires, port⟩ := words
      refine (keeps_newChunk s₂ .glib).bind fun retval log₃ s₃ hretval => ?_
      obtain ⟨hmade₃, hlog₃, hcursor₃⟩ := hretval
      refine (keeps_unuse s₃ hmade).bind fun _ log₄ s₄ hfree => .pure ?_
      obtain ⟨rfl, rfl, hfree⟩ := hfree
      refine ⟨⟨hmade₃, trivial⟩, ⟨[], ?_, rfl⟩, ?_⟩
      · have h := (hlog.append (hlog₂.append hlog₃)).freed [retval] _ hfree (.gFree _)
          fun c => by rw [List.nil_append, List.count_append]
        simp only [List.append_nil, List.append_assoc] at h ⊢
        exact h
      · rw [hencaps, hread, Dec.bind_ok hr, hcursor₃, hcursor]
        rfl

theorem keeps_genericSslSecTrans (s : Parsing) :
    Keeps s genericSslSecTrans (Parsed componentView (do
      let service ← Dec.encaps false Dec.stringBlock
      return .genericSslSecTrans service) s) := by
  have hbody : ∀ s, Keeps s genericSslService (Parsed componentView (do
      let service ← Dec.stringBlock
      return .genericSslSecTrans service) s) := by
    intro s
    refine (keeps_length s).bind fun r log s₁ hlen => ?_
    obtain ⟨hlog, hlen⟩ := hlen
    cases r with
    | none =>
      refine .pure ⟨⟨_, hlog.append .nothing⟩, ?_⟩
      rw [Dec.stringBlock, Dec.bind_assoc, Dec.bind_error hlen]
    | some len =>
      refine (keeps_octets s₁ len).bind fun r log₂ s₂ hoctets => ?_
      obtain ⟨hlog₂, hoctets⟩ := hoctets
      cases r with
      | none =>
        refine .pure ⟨⟨_, hlog.append (hlog₂.append .nothing)⟩, ?_⟩
        rw [Dec.stringBlock, Dec.bind_assoc, Dec.bind_ok hlen, Dec.memdup, Dec.bind_assoc,
          Dec.bind_error hoctets]
      | some bytes =>
        refine (keeps_newChunk s₂ .glib).bind fun retval log₃ s₃ hretval => ?_
        obtain ⟨hmade, hlog₃, hcursor₃⟩ := hretval
        refine (keeps_text s₃ bytes).bind fun _ log₄ s₄ htext => ?_
        obtain ⟨hlog₄, rfl⟩ := htext
        refine (keeps_memdup s₄ bytes).bind fun service log₅ s₅ hservice => .pure ?_
        obtain ⟨hmade₅, hlog₅, -, hkept, hcursor₅⟩ := hservice
        have hall := hlog.append (hlog₂.append (hlog₃.append (hlog₄.append (hlog₅.append .nothing))))
        refine ⟨⟨hmade, hmade₅⟩, ⟨[bytes], hall.perm _ fun c => ?_, congrArg (fun text => [text]) hkept⟩, ?_⟩
        · simp [componentView, ComponentInfo.chunks, ComponentFields.chunks, List.count_cons, Nat.add_comm]
        · rw [Dec.stringBlock, Dec.bind_assoc, Dec.bind_ok hlen,
            Dec.bind_ok (memdup_octets hoctets.1 hoctets.2), hcursor₅, hcursor₃, ← hkept]
          rfl
  rw [encaps_map]
  exact keeps_enclosed hbody s

theorem keeps_completeObjectKey (s : Parsing) :
    Keeps s completeObjectKey (Parsed componentView (do
      let objectKey ← Dec.counted
      return .completeObjectKey (some objectKey)) s) := by
  refine (keeps_objectKey s).bind fun r log s₁ hkey => ?_
  cases r with
  | none =>
    obtain ⟨⟨texts, hleaves⟩, hfail⟩ := hkey
    exact .pure ⟨⟨_, hleaves.append .nothing⟩, Dec.bind_error hfail⟩
  | some key =>
    obtain ⟨hown, ⟨texts, hleaves, htexts⟩, hok⟩ := hkey
    refine (keeps_newChunk s₁ .glib).bind fun retval log₂ s₂ hretval => .pure ?_
    obtain ⟨hmade, hlog₂, hcursor⟩ := hretval
    refine ⟨⟨hmade, ?_⟩, ⟨texts ++ ([] ++ []), hleaves.append (hlog₂.append .nothing) |>.perm _ fun c => ?_, ?_⟩, ?_⟩
    · rintro _ ⟨⟩
      exact hown
    · simp [componentView, keyView, ComponentInfo.chunks, ComponentFields.chunks, keyChunks]
    · rw [List.append_nil, List.append_nil, ← htexts]
      rfl
    · rw [Dec.bind_ok hok, hcursor]
      rfl

theorem times_ulong_le {count : Nat} {c c' : RecvCursor} {ids : List UInt32}
    (h : Dec.ulong.times count c = .ok (ids, c')) : c.cur ≤ c'.cur := by
  induction count generalizing c ids with
  | zero =>
    cases h
    exact Nat.le_refl _
  | succ count ih =>
    obtain ⟨id, c₁, hid, h⟩ := Dec.bind_eq_ok.mp h
    obtain ⟨ids', c₂, hids, h⟩ := Dec.bind_eq_ok.mp h
    cases h
    obtain ⟨n, c₃, hword, h⟩ := Dec.bind_eq_ok.mp hid
    cases h
    obtain ⟨-, -, rfl⟩ := Dec.word_eq_ok.mp hword
    exact Nat.le_trans (Nat.le_add_right _ _) (ih hids)

theorem keeps_codeSetIds (s : Parsing) (count : Nat) :
    Keeps s (codeSetIds count) fun r log s' =>
      Leaves [] [] log ∧
        match r with
        | none => (do Dec.need (count * 4 % 2^32); Dec.ulong.times count : Dec (List UInt32)) s.cursor =
            .error .fail
        | some ids => (do Dec.need (count * 4 % 2^32); Dec.ulong.times count : Dec (List UInt32)) s.cursor =
            .ok (ids, s'.cursor) := by
  intro hs
  have hs : s.start ≤ s.cursor.cur := hs
  rw [codeSetIds]
  by_cases hroom : s.cursor.data.length < s.cursor.cur + count * 4 % 2^32
  · rw [if_pos hroom]
    refine ⟨⟨iff_of_true ?_ ?_, 0, rfl, ?_⟩, ?_⟩
    · simp [ParseEvent.Right]
    · simp only [List.forall_mem_singleton, ParseEvent.Sane]
      omega
    · rintro _ ⟨⟩
      rfl
    · rintro _ _ ⟨⟩
      refine ⟨hs, ⟨fun _ => rfl, rfl, rfl⟩, ?_⟩
      rw [Dec.bind_error]
      rw [Dec.need, if_pos hroom]
  · rw [if_neg hroom]
    have hfine : Fine [.codeSets count s.cursor.cur s.cursor.data.length, .elements (4 * count) s.cursor.room,
        .read s.start s.cursor.cur (4 * count) s.cursor.data.length] := by
      simp only [Fine, List.forall_mem_cons, List.not_mem_nil, false_implies, implies_true, and_true,
        ParseEvent.Right, ParseEvent.Sane, RecvCursor.room, true_and]
      omega
    have hneed : Dec.need (count * 4 % 2^32) s.cursor = .ok ((), s.cursor) := Dec.need_room (by omega)
    simp only [Dec.bind_ok hneed]
    cases hids : Dec.ulong.times count s.cursor with
    | error e =>
      refine ⟨⟨hfine, 0, rfl, ?_⟩, ?_⟩
      · rintro _ ⟨⟩
      · rintro _ _ ⟨⟩
    | ok r =>
      obtain ⟨ids, c⟩ := r
      refine ⟨⟨hfine, 0, rfl, ?_⟩, ?_⟩
      · rintro _ ⟨⟩
        rfl
      · rintro _ _ ⟨⟩
        refine ⟨Nat.le_trans hs (times_ulong_le hids), ⟨fun _ => rfl, rfl, rfl⟩, rfl⟩

theorem keeps_codeSetComponent (s : Parsing) :
    Keeps s codeSetComponent (Parsed codeSetView demarshalCodeSet s) := by
  have hwords : Dec.Exact 8 (do
      let nativeCodeSet ← Dec.ulong
      let sequenceLength ← Dec.word 4
      return (nativeCodeSet, sequenceLength)) :=
    Dec.Exact.ulong.bind fun _ => (Dec.Exact.word 4).bind fun _ => .pure _
  have hread : ∀ c : RecvCursor, demarshalCodeSet c = (do
      let words ← (do
        Dec.align 4
        Dec.need 8
        let nativeCodeSet ← Dec.ulong
        let sequenceLength ← Dec.word 4
        return (nativeCodeSet, sequenceLength))
      let ids ← (do Dec.need (words.2 * 4 % 2^32); Dec.ulong.times words.2)
      return ⟨words.1, ids⟩ : Dec CodeSetComponent) c := by
    intro c
    simp only [demarshalCodeSet, Dec.bind_assoc, Dec.pure_bind]
  refine (keeps_tested (n := 4) s (by decide) hwords).bind fun r log s₁ hr => ?_
  obtain ⟨hlog, hr⟩ := hr
  cases r with
  | none => exact .pure ⟨⟨_, hlog.append .nothing⟩, by rw [hread, Dec.bind_error hr]⟩
  | some words =>
    obtain ⟨nativeCodeSet, sequenceLength⟩ := words
    refine (keeps_codeSetIds s₁ sequenceLength).bind fun r log₂ s₂ hids => ?_
    obtain ⟨hlog₂, hids⟩ := hids
    cases r with
    | none =>
      refine .pure ⟨⟨_, hlog.append (hlog₂.append .nothing)⟩, ?_⟩
      rw [hread, Dec.bind_ok hr, Dec.bind_error hids]
    | some ids =>
      refine (keeps_newBytes s₂ .orbit sequenceLength).bind fun buffer log₃ s₃ hbuffer => .pure ?_
      obtain ⟨hmade, -, hlog₃, hcursor⟩ := hbuffer
      have hall := hlog.append (hlog₂.append (hlog₃.append .nothing))
      rw [List.append_nil] at hall
      refine ⟨hmade, ⟨[], hall, rfl⟩, ?_⟩
      rw [hread, Dec.bind_ok hr, Dec.bind_ok hids, hcursor]
      rfl

/-- Both components, or the first that cannot be read. -/
theorem keeps_codeSetPair (s : Parsing) :
    Keeps s codeSetPair fun r log s' =>
      MadeBy .orbit r.2.1.buffer ∧ MadeBy .orbit r.2.2.buffer ∧
        (∃ texts, Leaves (r.2.1.buffer.toList ++ r.2.2.buffer.toList) texts log ∧
          (r.1 = true → texts = [])) ∧
        (do
          let forCharData ← demarshalCodeSet
          let forWcharData ← demarshalCodeSet
          return (forCharData, forWcharData) : Dec _) s.cursor =
        if r.1 then .ok ((r.2.1.value, r.2.2.value), s'.cursor) else .error .fail := by
  have hno : MadeBy .orbit noCodeSets.buffer := fun _ h => nomatch h
  refine (keeps_codeSetComponent s).bind fun r log s₁ hr => ?_
  cases r with
  | none =>
    obtain ⟨⟨texts, hlog⟩, hfail⟩ := hr
    refine .pure ⟨hno, hno, ⟨texts ++ [], hlog.append .nothing, ?_⟩, by rw [Dec.bind_error hfail]; rfl⟩
    rintro ⟨⟩
  | some forCharData =>
    obtain ⟨hown, ⟨texts, hlog, htexts⟩, hok⟩ := hr
    refine (keeps_codeSetComponent s₁).bind fun r log₂ s₂ hr => ?_
    cases r with
    | none =>
      obtain ⟨⟨texts₂, hlog₂⟩, hfail⟩ := hr
      refine .pure ⟨hown, hno, ⟨texts ++ (texts₂ ++ []), hlog.append (hlog₂.append .nothing), ?_⟩,
        by rw [Dec.bind_ok hok, Dec.bind_error hfail]; rfl⟩
      rintro ⟨⟩
    | some forWcharData =>
      obtain ⟨hown₂, ⟨texts₂, hlog₂, htexts₂⟩, hok₂⟩ := hr
      have hnil : texts = [] := List.map_eq_nil_iff.mp htexts.symm
      have hnil₂ : texts₂ = [] := List.map_eq_nil_iff.mp htexts₂.symm
      subst hnil hnil₂
      refine .pure ⟨hown, hown₂, ⟨[], ?_, fun _ => rfl⟩, by rw [Dec.bind_ok hok, Dec.bind_ok hok₂]; rfl⟩
      have h := hlog.append (hlog₂.append .nothing)
      rw [List.append_nil (codeSetView.chunks forWcharData)] at h
      exact h

theorem keeps_codeSets (s : Parsing) :
    Keeps s codeSets (Parsed componentView (Dec.encaps true do
      let forCharData ← demarshalCodeSet
      let forWcharData ← demarshalCodeSet
      return .codeSets forCharData forWcharData) s) := by
  refine (keeps_useEncapsBuf s true).bind fun r log s₁ hsub => ?_
  cases r with
  | none => exact .pure ⟨⟨_, hsub.1.append .nothing⟩, hsub.2 _⟩
  | some sub =>
    obtain ⟨hmade, hlog, hbegins, hencaps⟩ := hsub
    refine (keeps_newChunk s₁ .glib).bind fun retval log₂ s₂ hretval => ?_
    obtain ⟨hmade₂, hlog₂, hcursor₂⟩ := hretval
    refine (keeps_inside hbegins (keeps_codeSetPair _)).bind fun r log₃ s₃ hr => ?_
    obtain ⟨both, forCharData, forWcharData⟩ := r
    obtain ⟨hcursor₃, t, hown, hown', ⟨texts, hlog₃, htexts⟩, hr⟩ := hr
    have hread : (do
        let forCharData ← demarshalCodeSet
        let forWcharData ← demarshalCodeSet
        return IopComponent.codeSets forCharData forWcharData : Dec (IopComponent Block)) = (do
        let pair ← (do
          let forCharData ← demarshalCodeSet
          let forWcharData ← demarshalCodeSet
          return (forCharData, forWcharData))
        return .codeSets pair.1 pair.2) := by
      simp only [Dec.bind_assoc, Dec.pure_bind]
    refine (keeps_unuse s₃ hmade).bind fun _ log₄ s₄ hfree => ?_
    obtain ⟨rfl, rfl, hfree⟩ := hfree
    have hheld := (hlog.append (hlog₂.append hlog₃)).freed
      ([retval] ++ (forCharData.buffer.toList ++ forWcharData.buffer.toList)) _ hfree
      (.gFree _) fun c => by rw [List.count_append]
    cases both with
    | true =>
      simp only [if_true] at hr ⊢
      have hnil := htexts rfl
      subst hnil
      refine .pure ⟨⟨hmade₂, hown, hown'⟩, ⟨[], ?_, rfl⟩, ?_⟩
      · refine Leaves.perm _
          (?_ : Leaves ([retval] ++ (forCharData.buffer.toList ++ forWcharData.buffer.toList)) [] _) fun c => ?_
        · simpa only [List.append_nil, List.append_assoc] using hheld
        · simp only [componentView, ComponentInfo.chunks, ComponentFields.chunks, List.count_append]
          omega
      · rw [hencaps, hread, Dec.bind_ok hr, hcursor₃, hcursor₂]
        rfl
    | false =>
      simp only [Bool.false_eq_true, if_false] at hr ⊢
      refine (keeps_free _ (.orbitFree _)).bind fun _ log₅ s₅ hfree₅ => ?_
      obtain ⟨-, rfl⟩ := hfree₅
      refine (keeps_free _ (.orbitFree _)).bind fun _ log₆ s₆ hfree₆ => ?_
      obtain ⟨-, rfl⟩ := hfree₆
      refine (keeps_free _ (.gFree _)).bind fun _ log₇ s₇ hfree₇ => .pure ?_
      obtain ⟨-, rfl⟩ := hfree₇
      have hchar := hheld.freed ([retval] ++ forWcharData.buffer.toList) _
        (fun c => heapTally_orbitFree c hown) (.orbitFree _) fun c => by
          simp only [List.count_append]
          omega
      have hwchar := hchar.freed [retval] _ (fun c => heapTally_orbitFree c hown')
        (.orbitFree _) fun c => by
          simp only [List.count_append]
          omega
      have hall := hwchar.freed [] _ (fun c => heapTally_gFree c (madeBy_some.mpr hmade₂))
        (.gFree _) fun c => by simp
      refine ⟨⟨[] ++ ([] ++ texts), ?_⟩, by rw [hencaps, hread, Dec.bind_error hr]⟩
      simpa only [List.append_nil, List.append_assoc] using hall

def unknownView : View (Chunk × OctetData) (List UInt8) :=
  ⟨fun r => r.2.octets, fun r => r.2.buffer.toList ++ [r.1], fun _ => [],
    fun r => r.1.allocator = .glib ∧ MadeBy .glib r.2.buffer⟩

theorem keeps_unknownData (s : Parsing) : Keeps s unknownData (Parsed unknownView Dec.counted s) := by
  refine (keeps_length s).bind fun r log s₁ hlen => ?_
  obtain ⟨hlog, hlen⟩ := hlen
  cases r with
  | none => exact .pure ⟨⟨_, hlog.append .nothing⟩, Dec.bind_error hlen⟩
  | some len =>
    refine (keeps_octets s₁ len).bind fun r log₂ s₂ hoctets => ?_
    obtain ⟨hlog₂, hoctets⟩ := hoctets
    cases r with
    | none =>
      exact .pure ⟨⟨_, hlog.append (hlog₂.append .nothing)⟩, by rw [Dec.counted, Dec.bind_ok hlen, hoctets]⟩
    | some bytes =>
      refine (keeps_newChunk s₂ .glib).bind fun retval log₃ s₃ hretval => ?_
      obtain ⟨hmade, hlog₃, hcursor₃⟩ := hretval
      refine (keeps_memdup s₃ bytes).bind fun data log₄ s₄ hdata => .pure ?_
      obtain ⟨hmade₄, hlog₄, hbytes, -, hcursor₄⟩ := hdata
      have hall := hlog.append (hlog₂.append (hlog₃.append (hlog₄.append .nothing)))
      refine ⟨⟨hmade, hmade₄⟩, ⟨[], hall.perm _ fun c => ?_, rfl⟩, ?_⟩
      · simp only [unknownView, List.nil_append, List.append_nil, List.count_append]
        omega
      · rw [Dec.counted, Dec.bind_ok hlen, hoctets.1, hcursor₄, hcursor₃, ← hbytes]
        rfl

theorem keeps_component (s : Parsing) (cid : UInt32) :
    Keeps s (component cid) (Parsed componentView (demarshalComponentOf cid) s) := by
  unfold component demarshalComponentOf
  by_cases hknown : cid ∉ knownComponents
  · simp only [dif_pos hknown]
    refine (keeps_unknownData s).bind fun r log s₁ hr => ?_
    cases r with
    | none =>
      obtain ⟨⟨texts, hlog⟩, hfail⟩ := hr
      exact .pure ⟨⟨_, hlog.append .nothing⟩, Dec.bind_error hfail⟩
    | some r =>
      obtain ⟨hown, ⟨texts, hlog, htexts⟩, hok⟩ := hr
      refine .pure ⟨hown, ⟨texts, ?_, htexts⟩, Dec.bind_ok hok⟩
      rw [List.append_nil]
      exact hlog
  · simp only [dif_neg hknown]
    by_cases hkey : cid = tagCompleteObjectKey
    · simp only [if_pos hkey]
      exact keeps_completeObjectKey s
    by_cases hgeneric : cid = tagGenericSslSecTrans
    · simp only [if_neg hkey, if_pos hgeneric]
      exact keeps_genericSslSecTrans s
    by_cases hssl : cid = tagSslSecTrans
    · simp only [if_neg hkey, if_neg hgeneric, if_pos hssl]
      exact keeps_sslSecTrans s
    · simp only [if_neg hkey, if_neg hgeneric, if_neg hssl]
      exact keeps_codeSets s

/-- From `n` rounds with the components `cs` so far. -/
theorem keeps_componentLoop (n : Nat) {cs : List ComponentInfo} (hcs : ∀ c ∈ cs, c.Own) (s : Parsing) :
    Keeps s (componentLoop cs n) fun r log s' =>
      match r with
      | none => (∃ texts, ∀ before t, Leaves (componentsChunks cs) t before → Leaves [] (t ++ texts)
          (before ++ log)) ∧ demarshalComponent.times n s.cursor = .error .fail
      | some all => ∃ rest, all = cs ++ rest ∧ Parsed componentsView (demarshalComponent.times n) s
          (some rest) log s' := by
  induction n generalizing cs s with
  | zero =>
    refine .pure ⟨[], (List.append_nil cs).symm, List.forall_mem_nil _, ⟨[], .nothing, rfl⟩, rfl⟩
  | succ n ih =>
    have hfails : ∀ {log : List ParseEvent} {texts : List (List UInt8)}, Leaves [] texts log →
        ∃ texts, ∀ before t, Leaves (componentsChunks cs) t before → Leaves [] (t ++ texts)
          (before ++ (log ++ ((componentsFree cs).map .heap ++ []))) := by
      intro log texts hlog
      refine ⟨texts, fun before t hbefore => ?_⟩
      have h := (hbefore.append hlog).freed [] _
        (fun c => heapTally_componentsFree c hcs) (.components cs) fun c => by simp
      simpa only [List.append_assoc, List.append_nil] using h
    refine (keeps_length s).bind fun r log s₁ hlen => ?_
    obtain ⟨hlog, hlen⟩ := hlen
    cases r with
    | none =>
      refine (keeps_free s₁ (.components cs)).bind fun _ log₂ s₂ hfree => .pure ?_
      obtain ⟨rfl, rfl⟩ := hfree
      refine ⟨hfails hlog, ?_⟩
      rw [Dec.times, Dec.bind_error]
      rw [demarshalComponent, Dec.bind_error hlen]
    | some cid =>
      refine (keeps_component s₁ (UInt32.ofNat cid)).bind fun r log₂ s₂ hr => ?_
      cases r with
      | none =>
        obtain ⟨⟨texts, hlog₂⟩, hfail⟩ := hr
        refine (keeps_free s₂ (.components cs)).bind fun _ log₃ s₃ hfree => .pure ?_
        obtain ⟨rfl, rfl⟩ := hfree
        refine ⟨?_, ?_⟩
        · have h := hfails (hlog.append hlog₂)
          simpa only [List.append_assoc] using h
        · rw [Dec.times, Dec.bind_error]
          rw [demarshalComponent, Dec.bind_ok hlen, hfail]
      | some c =>
        obtain ⟨hown, ⟨texts, hlog₂, htexts⟩, hok⟩ := hr
        have hread : demarshalComponent s.cursor = .ok (c.value, s₂.cursor) := by
          rw [demarshalComponent, Dec.bind_ok hlen, hok]
          rfl
        have hcs' : ∀ c' ∈ cs ++ [c], c'.Own := by
          rw [List.forall_mem_append]
          exact ⟨hcs, List.forall_mem_singleton.mpr hown⟩
        refine (ih hcs' s₂).mono fun r log₃ s₃ hr => ?_
        cases r with
        | none =>
          obtain ⟨⟨texts₃, hlog₃⟩, hfail⟩ := hr
          refine ⟨⟨texts ++ texts₃, fun before t hbefore => ?_⟩, ?_⟩
          · have h := hlog₃ _ _ ((hbefore.append (hlog.append hlog₂)).perm _ fun c' => ?_)
            · simpa only [List.append_assoc, List.nil_append] using h
            · simp [componentsChunks, componentView]
          · rw [Dec.times, Dec.bind_ok hread, Dec.bind_error hfail]
        | some all =>
          obtain ⟨rest, rfl, hrest, ⟨texts₃, hlog₃, htexts₃⟩, hok₃⟩ := hr
          refine ⟨c :: rest, by rw [List.append_assoc]; rfl, List.forall_mem_cons.mpr ⟨hown, hrest⟩,
            ⟨texts ++ texts₃, ?_, ?_⟩, ?_⟩
          · have h := hlog.append (hlog₂.append hlog₃)
            exact h
          · rw [List.map_append, ← htexts, ← htexts₃]
            rfl
          · rw [Dec.times, Dec.bind_ok hread, Dec.bind_ok hok₃]
            rfl

theorem keeps_components (s : Parsing) :
    Keeps s components (Parsed componentsView demarshalComponents s) := by
  refine (keeps_length s).bind fun r log s₁ hlen => ?_
  obtain ⟨hlog, hlen⟩ := hlen
  cases r with
  | none => exact .pure ⟨⟨_, hlog.append .nothing⟩, Dec.bind_error hlen⟩
  | some len =>
    refine (keeps_componentLoop len (List.forall_mem_nil _) s₁).mono fun r log₂ s₂ hr => ?_
    cases r with
    | none =>
      obtain ⟨⟨texts, hlog₂⟩, hfail⟩ := hr
      exact ⟨⟨_, hlog₂ _ _ hlog⟩, by rw [demarshalComponents, Dec.bind_ok hlen, hfail]⟩
    | some all =>
      obtain ⟨rest, rfl, hown, ⟨texts, hlog₂, htexts⟩, hok⟩ := hr
      exact ⟨hown, ⟨_, hlog.append hlog₂, htexts⟩, by rw [demarshalComponents, Dec.bind_ok hlen, hok]⟩

/-! ### Profiles -/

theorem align_one {α : Type} (m : Dec α) (c : RecvCursor) : (do Dec.align 1; m : Dec α) c = m c := by
  rw [Dec.bind_apply, Dec.align, alignUp_one, Nat.add_sub_cancel_left]

theorem need_octets (n : Nat) (c : RecvCursor) :
    (do Dec.need n; Dec.octets n : Dec (List UInt8)) c = Dec.octets n c := by
  by_cases h : c.data.length < c.cur + n
  · rw [Dec.octets_short h, Dec.bind_error]
    rw [Dec.need, if_pos h]
  · rw [Dec.bind_ok (Dec.need_room (by omega))]

/-- The two bytes of a version. -/
theorem keeps_twoOctets (s : Parsing) :
    Keeps s (tested 1 2 (Dec.octets 2)) fun r log s' =>
      Leaves [] [] log ∧
        match r with
        | none => Dec.octets 2 s.cursor = .error .fail
        | some v => Dec.octets 2 s.cursor = .ok (v, s'.cursor) := by
  refine (keeps_tested (n := 1) s (by decide) (Dec.Exact.octets 2)).mono fun r log s' h => ?_
  obtain ⟨hlog, h⟩ := h
  cases r <;> rw [align_one, need_octets] at h <;> exact ⟨hlog, h⟩

theorem keeps_version (s : Parsing) :
    Keeps s version fun r log s' =>
      Leaves [] [] log ∧
        match r with
        | none => Dec.version s.cursor = .error .fail
        | some v => Dec.version s.cursor = .ok (v, s'.cursor) := by
  refine (keeps_twoOctets s).bind fun r log s₁ h => ?_
  obtain ⟨hlog, h⟩ := h
  cases r with
  | none => exact .pure ⟨hlog.append .nothing, Dec.bind_error h⟩
  | some v =>
    refine .pure ⟨hlog.append .nothing, ?_⟩
    cases hids : Version.ofIds v with
    | none => simp only [Dec.version, Dec.bind_ok h, hids, Dec.stop_apply]
    | some version => simp only [Dec.version, Dec.bind_ok h, hids, Dec.pure_apply]

theorem keeps_port (s : Parsing) :
    Keeps s (tested 2 2 Dec.ushort) fun r log s' =>
      Leaves [] [] log ∧
        match r with
        | none => Dec.port s.cursor = .error .fail
        | some port => Dec.port s.cursor = .ok (port, s'.cursor) := by
  refine (keeps_tested (n := 2) s (by decide) Dec.Exact.ushort).mono fun r log s' h => ?_
  cases r <;> exact h

theorem keeps_errout {α : Type} (s : Parsing) (p : ProfileInfo) :
    Keeps s (errout p : Parse (Option α)) fun r log _ => r = none ∧ log = p.free.map .heap := by
  refine (keeps_free s (.profile p)).bind fun _ log s₁ h => .pure ⟨rfl, ?_⟩
  rw [h.2, List.append_nil]

theorem Leaves.errout {owned : List Chunk} {texts : List (List UInt8)} {log : List ParseEvent}
    {p : ProfileInfo} (h : Leaves owned texts log) (hown : p.Own)
    (hcount : ∀ c, owned.count c = p.chunks.count c) : Leaves [] texts (log ++ p.free.map .heap) :=
  h.freed _ _ (fun c => p.heapTally_free c hown) (.profile p) fun c => by simp [hcount c]

theorem madeBy_none {allocator : Allocator} : MadeBy allocator none := fun _ h => nomatch h

theorem keyOwn_none : KeyOwn none := fun _ h => nomatch h

theorem keyOwn_some {key : KeyStruct} (h : key.Own) : KeyOwn (some key) := by
  rintro _ ⟨⟩
  exact h

section Rest
variable {retval : Chunk} (hmade : retval.allocator = .glib) {before : List ParseEvent}
  {texts : List (List UInt8)}
include hmade

theorem keeps_internetIopRest (version : Version) {host : Chars} (hhost : MadeBy .glib host.block)
    (hbefore : Leaves (retval :: host.block.toList) texts before) (htexts : [host.text] = texts.map kept)
    (s : Parsing) :
    Keeps s (internetIopRest version retval host) fun r log s' =>
      Parsed profileView (do
        let port ← Dec.port
        let objectKey ← Dec.counted
        let components ← demarshalSinceVersion version
        return .internetIop version host.text port (some objectKey) components) s r (before ++ log) s' := by
  refine (keeps_port s).bind fun r log s₁ hport => ?_
  obtain ⟨hlog, hport⟩ := hport
  cases r with
  | none =>
    refine (keeps_errout s₁ _).mono fun r log₂ s₂ herr => ?_
    obtain ⟨rfl, rfl⟩ := herr
    refine ⟨⟨texts ++ [], ?_⟩, Dec.bind_error hport⟩
    have h := (hbefore.append hlog).errout
      (p := ⟨retval, .internetIop version host 0 none []⟩)
      ⟨hmade, List.forall_mem_nil _, hhost, keyOwn_none⟩ fun c => by
        simp [ProfileInfo.chunks, ProfileFields.chunks, componentsChunks, keyChunks, List.count_cons]
    rwa [List.append_assoc] at h
  | some port =>
    refine (keeps_objectKey s₁).bind fun r log₂ s₂ hkey => ?_
    cases r with
    | none =>
      obtain ⟨⟨texts₂, hlog₂⟩, hfail⟩ := hkey
      refine (keeps_errout s₂ _).mono fun r log₃ s₃ herr => ?_
      obtain ⟨rfl, rfl⟩ := herr
      refine ⟨⟨texts ++ ([] ++ texts₂), ?_⟩, by rw [Dec.bind_ok hport, Dec.bind_error hfail]⟩
      have h := (hbefore.append (hlog.append hlog₂)).errout
        (p := ⟨retval, .internetIop version host port none []⟩)
        ⟨hmade, List.forall_mem_nil _, hhost, keyOwn_none⟩ fun c => by
          simp [ProfileInfo.chunks, ProfileFields.chunks, componentsChunks, keyChunks, List.count_cons]
      simpa only [List.append_assoc] using h
    | some key =>
      obtain ⟨hkeyOwn, ⟨texts₂, hlog₂, htexts₂⟩, hok⟩ := hkey
      have hnil : texts₂ = [] := List.map_eq_nil_iff.mp htexts₂.symm
      subst hnil
      have hheld := hbefore.append (hlog.append hlog₂)
      by_cases hversion : version = .v1_0
      · simp only [if_pos hversion]
        refine .pure ⟨⟨hmade, List.forall_mem_nil _, hhost, keyOwn_some hkeyOwn⟩, ⟨texts, ?_, ?_⟩, ?_⟩
        · rw [List.append_nil log₂]
          have h := hheld.perm (profileView.chunks
            ⟨retval, .internetIop version host port (some key) []⟩) fun c => by
              simp [profileView, keyView, ProfileInfo.chunks, ProfileFields.chunks, componentsChunks,
                keyChunks, List.count_cons]
              omega
          simpa only [List.append_nil] using h
        · exact htexts
        · rw [Dec.bind_ok hport, Dec.bind_ok hok, demarshalSinceVersion,
            if_neg (not_not.mpr hversion)]
          rfl
      · simp only [if_neg hversion]
        refine (keeps_components s₂).bind fun r log₃ s₃ hcomponents => ?_
        cases r with
        | none =>
          obtain ⟨⟨texts₃, hlog₃⟩, hfail⟩ := hcomponents
          refine (keeps_errout s₃ _).mono fun r log₄ s₄ herr => ?_
          obtain ⟨rfl, rfl⟩ := herr
          refine ⟨⟨texts ++ ([] ++ []) ++ texts₃, ?_⟩, ?_⟩
          · have h := (hheld.append hlog₃).errout
              (p := ⟨retval, .internetIop version host port (some key) []⟩)
              ⟨hmade, List.forall_mem_nil _, hhost, keyOwn_some hkeyOwn⟩ fun c => by
                simp [keyView, ProfileInfo.chunks, ProfileFields.chunks, componentsChunks, keyChunks,
                  List.count_cons]
                omega
            simpa only [List.append_assoc] using h
          · rw [Dec.bind_ok hport, Dec.bind_ok hok, demarshalSinceVersion, if_pos hversion,
              Dec.bind_error hfail]
        | some components =>
          obtain ⟨hown, ⟨texts₃, hlog₃, htexts₃⟩, hok₃⟩ := hcomponents
          refine .pure ⟨⟨hmade, hown, hhost, keyOwn_some hkeyOwn⟩, ⟨texts ++ texts₃, ?_, ?_⟩, ?_⟩
          · have h := (hheld.append hlog₃).perm (profileView.chunks
              ⟨retval, .internetIop version host port (some key) components⟩) fun c => by
                simp [profileView, keyView, componentsView, ProfileInfo.chunks, ProfileFields.chunks,
                  keyChunks, List.count_cons]
                omega
            simpa only [List.append_nil, List.append_assoc] using h
          · rw [List.map_append, ← htexts, ← htexts₃]
            simp [profileView, componentsView, ProfileInfo.value, ProfileFields.value, IopProfile.strings,
              List.flatMap_map]
          · rw [Dec.bind_ok hport, Dec.bind_ok hok, demarshalSinceVersion, if_pos hversion,
              Dec.bind_ok hok₃]
            rfl

theorem keeps_genericIopRest (version : Version) {proto : Chars} (hproto : MadeBy .glib proto.block)
    (hbefore : Leaves (retval :: proto.block.toList) texts before) (htexts : [proto.text] = texts.map kept)
    (s : Parsing) :
    Keeps s (genericIopRest version retval proto) fun r log s' =>
      Parsed profileView (do
        let host ← Dec.stringBlock
        let service ← Dec.stringBlock
        let components ← demarshalComponents
        return .genericIop version proto.text host service components) s r (before ++ log) s' := by
  refine (keeps_countedString s).bind fun r log s₁ hhost => ?_
  cases r with
  | none =>
    obtain ⟨⟨texts₁, hlog⟩, hfail⟩ := hhost
    refine (keeps_errout s₁ _).mono fun r log₂ s₂ herr => ?_
    obtain ⟨rfl, rfl⟩ := herr
    refine ⟨⟨texts ++ texts₁, ?_⟩, Dec.bind_error hfail⟩
    have h := (hbefore.append hlog).errout
      (p := ⟨retval, .genericIop version proto noChars noChars []⟩)
      ⟨hmade, List.forall_mem_nil _, hproto, madeBy_none, madeBy_none⟩ fun c => by
        simp [ProfileInfo.chunks, ProfileFields.chunks, componentsChunks, noChars, List.count_cons]
    simpa only [List.append_assoc] using h
  | some host =>
    obtain ⟨hownHost, ⟨texts₁, hlog, htexts₁⟩, hok⟩ := hhost
    have hheld := hbefore.append hlog
    refine (keeps_countedString s₁).bind fun r log₂ s₂ hservice => ?_
    cases r with
    | none =>
      obtain ⟨⟨texts₂, hlog₂⟩, hfail⟩ := hservice
      refine (keeps_errout s₂ _).mono fun r log₃ s₃ herr => ?_
      obtain ⟨rfl, rfl⟩ := herr
      refine ⟨⟨texts ++ texts₁ ++ texts₂, ?_⟩, by rw [Dec.bind_ok hok, Dec.bind_error hfail]⟩
      have h := (hheld.append hlog₂).errout
        (p := ⟨retval, .genericIop version proto host noChars []⟩)
        ⟨hmade, List.forall_mem_nil _, hproto, hownHost, madeBy_none⟩ fun c => by
          simp [charsView, ProfileInfo.chunks, ProfileFields.chunks, componentsChunks, noChars,
            List.count_cons]
          omega
      simpa only [List.append_assoc] using h
    | some service =>
      obtain ⟨hownService, ⟨texts₂, hlog₂, htexts₂⟩, hok₂⟩ := hservice
      have hheld₂ := hheld.append hlog₂
      refine (keeps_components s₂).bind fun r log₃ s₃ hcomponents => ?_
      cases r with
      | none =>
        obtain ⟨⟨texts₃, hlog₃⟩, hfail⟩ := hcomponents
        refine (keeps_errout s₃ _).mono fun r log₄ s₄ herr => ?_
        obtain ⟨rfl, rfl⟩ := herr
        refine ⟨⟨texts ++ texts₁ ++ texts₂ ++ texts₃, ?_⟩, ?_⟩
        · have h := (hheld₂.append hlog₃).errout
            (p := ⟨retval, .genericIop version proto host service []⟩)
            ⟨hmade, List.forall_mem_nil _, hproto, hownHost, hownService⟩ fun c => by
              simp [charsView, ProfileInfo.chunks, ProfileFields.chunks, componentsChunks,
                List.count_cons]
              omega
          simpa only [List.append_assoc] using h
        · rw [Dec.bind_ok hok, Dec.bind_ok hok₂, Dec.bind_error hfail]
      | some components =>
        obtain ⟨hown, ⟨texts₃, hlog₃, htexts₃⟩, hok₃⟩ := hcomponents
        refine .pure ⟨⟨hmade, hown, hproto, hownHost, hownService⟩,
          ⟨texts ++ texts₁ ++ texts₂ ++ texts₃, ?_, ?_⟩, ?_⟩
        · have h := (hheld₂.append hlog₃).perm (profileView.chunks
            ⟨retval, .genericIop version proto host service components⟩) fun c => by
              simp [profileView, charsView, componentsView, ProfileInfo.chunks, ProfileFields.chunks,
                List.count_cons]
              omega
          simpa only [List.append_nil, List.append_assoc] using h
        · simp only [List.map_append, ← htexts, ← htexts₁, ← htexts₂, ← htexts₃]
          simp [profileView, charsView, componentsView, ProfileInfo.value, ProfileFields.value,
            IopProfile.strings, List.flatMap_map]
        · rw [Dec.bind_ok hok, Dec.bind_ok hok₂, Dec.bind_ok hok₃]
          rfl

end Rest

theorem keeps_internetIopBody (s : Parsing) :
    Keeps s internetIopBody (Parsed profileView demarshalInternetIop s) := by
  refine (keeps_version s).bind fun r log s₁ hversion => ?_
  obtain ⟨hlog, hversion⟩ := hversion
  cases r with
  | none => exact .pure ⟨⟨_, hlog.append .nothing⟩, Dec.bind_error hversion⟩
  | some version =>
    refine (keeps_length s₁).bind fun r log₂ s₂ hlen => ?_
    obtain ⟨hlog₂, hlen⟩ := hlen
    cases r with
    | none =>
      refine .pure ⟨⟨_, hlog.append (hlog₂.append .nothing)⟩, ?_⟩
      rw [demarshalInternetIop, Dec.bind_ok hversion, Dec.stringBlock, Dec.bind_assoc, Dec.bind_error hlen]
    | some len =>
      refine (keeps_newChunk s₂ .glib).bind fun retval log₃ s₃ hretval => ?_
      obtain ⟨hmade, hlog₃, hcursor⟩ := hretval
      refine (keeps_string s₃ len).bind fun r log₄ s₄ hhost => ?_
      cases r with
      | none =>
        obtain ⟨⟨texts, hlog₄⟩, hfail⟩ := hhost
        rw [hcursor] at hfail
        refine (keeps_errout s₄ _).mono fun r log₅ s₅ herr => ?_
        obtain ⟨rfl, rfl⟩ := herr
        refine ⟨⟨[] ++ ([] ++ ([] ++ texts)), ?_⟩, ?_⟩
        · have h := (hlog.append (hlog₂.append (hlog₃.append hlog₄))).errout
            (p := ⟨retval, .internetIop version noChars 0 none []⟩)
            ⟨hmade, List.forall_mem_nil _, madeBy_none, keyOwn_none⟩ fun c => by
              simp [ProfileInfo.chunks, ProfileFields.chunks, componentsChunks, keyChunks, noChars]
          simpa only [List.append_assoc] using h
        · rw [demarshalInternetIop, Dec.bind_ok hversion, Dec.stringBlock, Dec.bind_assoc, Dec.bind_ok hlen,
            Dec.bind_error hfail]
      | some host =>
        obtain ⟨hown, ⟨texts, hlog₄, htexts⟩, hok⟩ := hhost
        rw [hcursor] at hok
        have hread : Dec.stringBlock s₁.cursor = .ok (host.text, s₄.cursor) := by
          rw [Dec.stringBlock, Dec.bind_ok hlen, hok]
          rfl
        have hheld := hlog.append (hlog₂.append (hlog₃.append hlog₄))
        refine (keeps_internetIopRest hmade version hown hheld htexts s₄).mono fun r log₅ s₅ h => ?_
        simp only [List.append_assoc] at h
        cases r with
        | none =>
          obtain ⟨hleaves, hfail⟩ := h
          exact ⟨hleaves, by rw [demarshalInternetIop, Dec.bind_ok hversion, Dec.bind_ok hread, hfail]⟩
        | some p =>
          obtain ⟨hown, hleaves, hok⟩ := h
          exact ⟨hown, hleaves, by rw [demarshalInternetIop, Dec.bind_ok hversion, Dec.bind_ok hread, hok]⟩

theorem keeps_genericIopBody (s : Parsing) :
    Keeps s genericIopBody (Parsed profileView demarshalGenericIop s) := by
  refine (keeps_version s).bind fun r log s₁ hversion => ?_
  obtain ⟨hlog, hversion⟩ := hversion
  cases r with
  | none => exact .pure ⟨⟨_, hlog.append .nothing⟩, Dec.bind_error hversion⟩
  | some version =>
    refine (keeps_length s₁).bind fun r log₂ s₂ hlen => ?_
    obtain ⟨hlog₂, hlen⟩ := hlen
    cases r with
    | none =>
      refine .pure ⟨⟨_, hlog.append (hlog₂.append .nothing)⟩, ?_⟩
      rw [demarshalGenericIop, Dec.bind_ok hversion, Dec.stringBlock, Dec.bind_assoc, Dec.bind_error hlen]
    | some len =>
      refine (keeps_newChunk s₂ .glib).bind fun retval log₃ s₃ hretval => ?_
      obtain ⟨hmade, hlog₃, hcursor⟩ := hretval
      refine (keeps_string s₃ len).bind fun r log₄ s₄ hproto => ?_
      cases r with
      | none =>
        obtain ⟨⟨texts, hlog₄⟩, hfail⟩ := hproto
        rw [hcursor] at hfail
        refine (keeps_errout s₄ _).mono fun r log₅ s₅ herr => ?_
        obtain ⟨rfl, rfl⟩ := herr
        refine ⟨⟨[] ++ ([] ++ ([] ++ texts)), ?_⟩, ?_⟩
        · have h := (hlog.append (hlog₂.append (hlog₃.append hlog₄))).errout
            (p := ⟨retval, .genericIop version noChars noChars noChars []⟩)
            ⟨hmade, List.forall_mem_nil _, madeBy_none, madeBy_none, madeBy_none⟩ fun c => by
              simp [ProfileInfo.chunks, ProfileFields.chunks, componentsChunks, noChars]
          simpa only [List.append_assoc] using h
        · rw [demarshalGenericIop, Dec.bind_ok hversion, Dec.stringBlock, Dec.bind_assoc, Dec.bind_ok hlen,
            Dec.bind_error hfail]
      | some proto =>
        obtain ⟨hown, ⟨texts, hlog₄, htexts⟩, hok⟩ := hproto
        rw [hcursor] at hok
        have hread : Dec.stringBlock s₁.cursor = .ok (proto.text, s₄.cursor) := by
          rw [Dec.stringBlock, Dec.bind_ok hlen, hok]
          rfl
        have hheld := hlog.append (hlog₂.append (hlog₃.append hlog₄))
        refine (keeps_genericIopRest hmade version hown hheld htexts s₄).mono fun r log₅ s₅ h => ?_
        simp only [List.append_assoc] at h
        cases r with
        | none =>
          obtain ⟨hleaves, hfail⟩ := h
          exact ⟨hleaves, by rw [demarshalGenericIop, Dec.bind_ok hversion, Dec.bind_ok hread, hfail]⟩
        | some p =>
          obtain ⟨hown, hleaves, hok⟩ := h
          exact ⟨hown, hleaves, by rw [demarshalGenericIop, Dec.bind_ok hversion, Dec.bind_ok hread, hok]⟩

theorem keeps_multipleComponentsBody (s : Parsing) :
    Keeps s multipleComponentsBody (Parsed profileView (do
      let components ← demarshalComponents
      return .multipleComponents components) s) := by
  refine (keeps_components s).bind fun r log s₁ hr => ?_
  cases r with
  | none =>
    obtain ⟨⟨texts, hlog⟩, hfail⟩ := hr
    exact .pure ⟨⟨_, hlog.append .nothing⟩, Dec.bind_error hfail⟩
  | some components =>
    obtain ⟨hown, ⟨texts, hlog, htexts⟩, hok⟩ := hr
    refine (keeps_newChunk s₁ .glib).bind fun retval log₂ s₂ hretval => .pure ?_
    obtain ⟨hmade, hlog₂, hcursor⟩ := hretval
    have hall := hlog.append (hlog₂.append .nothing)
    refine ⟨⟨hmade, hown⟩, ⟨texts ++ ([] ++ []), hall.perm _ fun c => ?_, ?_⟩, ?_⟩
    · simp [profileView, componentsView, ProfileInfo.chunks, ProfileFields.chunks]
    · rw [List.append_nil, List.append_nil, ← htexts]
      simp [profileView, componentsView, ProfileInfo.value, ProfileFields.value, IopProfile.strings,
        List.flatMap_map]
    · rw [Dec.bind_ok hok, hcursor]
      rfl

/-! ### The profile of an old ORBit -/

/-- What each exit of `IOP_TAG_ORBIT_SPECIFIC_demarshal` means for the bytes, and what has been done
by then. -/
def ExitPost (s : Parsing) : Exit → List ParseEvent → Parsing → Prop
  | .return, log, _ =>
      s.cursor.endsAtHead = true ∧ s.cursor.endsAtPort = false ∧ Leaves [] [] log ∧
        demarshalOrbitSpecific s.cursor = .error .fail
  | .errout, log, _ =>
      s.cursor.endsAtHead = false ∧ (∀ c, tally c log = 0) ∧
        unsets log = (if s.cursor.endsAtPort then 1 else 0) ∧
        demarshalOrbitSpecific s.cursor = .error .fail
  | .done p, log, s' =>
      s.cursor.endsAtHead = false ∧ s.cursor.endsAtPort = false ∧
        Parsed profileView demarshalOrbitSpecific s (some p) log s'

theorem demarshalOrbitSpecific_eq (c : RecvCursor) :
    demarshalOrbitSpecific c = (do
      let _ ← Dec.octets 2
      let unixSockPath ← Dec.stringBlock
      let ipv6Port ← Dec.port
      let objectKey ← Dec.counted
      return IopProfile.orbitSpecific unixSockPath ipv6Port (some objectKey) : Dec (IopProfile Block)) c := by
  rw [demarshalOrbitSpecific]
  by_cases h : c.data.length < c.cur + 2
  · rw [Dec.bind_error (Dec.octets_short h), Dec.bind_error]
    rw [Dec.need, if_pos h]
  · rw [Dec.bind_ok (Dec.octets_room (by omega)), Dec.bind_ok (Dec.need_room (by omega))]
    rfl

/-- The rest behind the path, which has been read from `s`. -/
theorem keeps_orbitSpecificRest {s s₁ : Parsing} {retval : Chunk} {path : Chars} {v : List UInt8}
    {before : List ParseEvent} {texts : List (List UInt8)} {c₁ : RecvCursor}
    (hmade : retval.allocator = .glib) (hpath : MadeBy .glib path.block)
    (hbefore : Leaves (retval :: path.block.toList) texts before) (htexts : [path.text] = texts.map kept)
    (hversion : Dec.octets 2 s.cursor = .ok (v, c₁))
    (hcounted : Dec.counted c₁ = .ok (path.bytes, s₁.cursor))
    (hstring : Dec.stringBlock c₁ = .ok (path.text, s₁.cursor))
    (hhead : s.cursor.endsAtHead = false) :
    Keeps s₁ (orbitSpecificRest retval path) fun r log s' => ExitPost s r (before ++ log) s' := by
  have hport : s.cursor.endsAtPort = match Dec.port s₁.cursor with
      | .ok _ => false
      | .error _ => true := by
    rw [RecvCursor.endsAtPort, Dec.bind_ok hversion, hcounted]
  refine (keeps_port s₁).bind fun r log s₂ hr => ?_
  obtain ⟨hlog, hr⟩ := hr
  cases r with
  | none =>
    rw [hr] at hport
    refine .bind (p := fun _ log _ => log = (.freeUnset :: gFree path.block ++ gFree (some retval)).map .heap)
      (keeps_emits (fun _ => .heap _) ?_ rfl) fun _ log₂ s₃ hfree => .pure ?_
    · have h := addresses_frees ((Frees.gFree path.block).append (.gFree (some retval)))
      exact h
    subst hfree
    refine ⟨hhead, fun c => ?_, ?_, ?_⟩
    · have hheld := (hbefore.append hlog).held c
      have hretval := heapTally_gFree c (madeBy_some.mpr hmade)
      simp only [tally_append, tally_heap, List.cons_append, heapTally_cons, heapTally_append,
        heapTally_gFree c hpath, hretval, HeapEvent.effect, List.append_nil, List.count_cons,
        Option.toList_some, List.count_nil] at hheld ⊢
      omega
    · have hunset := (hbefore.append hlog).unset
      have hfrees := unsets_frees ((Frees.gFree path.block).append (.gFree (some retval)))
      rw [hport]
      simp only [unsets_append, List.cons_append, List.map_cons, unsets_cons, hfrees, ParseEvent.unset,
        List.append_nil, if_true] at hunset ⊢
      omega
    · rw [demarshalOrbitSpecific_eq, Dec.bind_ok hversion, Dec.bind_ok hstring, Dec.bind_error hr]
  | some port =>
    rw [hr] at hport
    refine (keeps_objectKey s₂).bind fun r log₂ s₃ hkey => ?_
    cases r with
    | none =>
      obtain ⟨⟨texts₂, hlog₂⟩, hfail⟩ := hkey
      refine (keeps_free s₃ ((Frees.gFree path.block).append (.gFree (some retval)))).bind
        fun _ log₃ s₄ hfree => .pure ?_
      obtain ⟨-, rfl⟩ := hfree
      have hall := (hbefore.append (hlog.append hlog₂)).freed []
        (path.block.toList ++ [retval]) (fun c => by
          rw [heapTally_append, heapTally_gFree c hpath, heapTally_gFree c (madeBy_some.mpr hmade),
            List.count_append, Option.toList_some]
          omega) ((Frees.gFree path.block).append (.gFree (some retval))) fun c => by
          simp [List.count_cons]
      simp only [List.append_assoc] at hall
      simp only [List.append_nil]
      refine ⟨hhead, fun c => ?_, ?_, ?_⟩
      · rw [hall.held]
        rfl
      · rw [hall.unset, hport]
        rfl
      · rw [demarshalOrbitSpecific_eq, Dec.bind_ok hversion, Dec.bind_ok hstring, Dec.bind_ok hr,
          Dec.bind_error hfail]
    | some key =>
      obtain ⟨hkeyOwn, ⟨texts₂, hlog₂, htexts₂⟩, hok⟩ := hkey
      have hnil : texts₂ = [] := List.map_eq_nil_iff.mp htexts₂.symm
      subst hnil
      refine .pure ⟨hhead, hport, ⟨hmade, hpath, keyOwn_some hkeyOwn⟩, ⟨texts, ?_, htexts⟩, ?_⟩
      · have h := (hbefore.append (hlog.append hlog₂)).perm (profileView.chunks
          ⟨retval, .orbitSpecific path port (some key)⟩) fun c => by
            simp [profileView, keyView, ProfileInfo.chunks, ProfileFields.chunks, keyChunks, List.count_cons]
            omega
        simpa only [List.append_nil] using h
      · rw [demarshalOrbitSpecific_eq, Dec.bind_ok hversion, Dec.bind_ok hstring, Dec.bind_ok hr,
          Dec.bind_ok hok]
        rfl

theorem keeps_orbitSpecificBody (s : Parsing) : Keeps s orbitSpecificBody (ExitPost s) := by
  refine (keeps_twoOctets s).bind fun r log s₁ hversion => ?_
  obtain ⟨hlog, hversion⟩ := hversion
  cases r with
  | none =>
    refine .pure ⟨?_, ?_, hlog.append .nothing, ?_⟩
    · rw [RecvCursor.endsAtHead, Dec.bind_error hversion]
    · rw [RecvCursor.endsAtPort, Dec.bind_error hversion]
    · rw [demarshalOrbitSpecific_eq, Dec.bind_error hversion]
  | some v =>
    refine (keeps_length s₁).bind fun r log₂ s₂ hlen => ?_
    obtain ⟨hlog₂, hlen⟩ := hlen
    cases r with
    | none =>
      refine .pure ⟨?_, ?_, hlog.append (hlog₂.append .nothing), ?_⟩
      · rw [RecvCursor.endsAtHead, Dec.bind_ok hversion, hlen]
      · rw [RecvCursor.endsAtPort, Dec.bind_ok hversion, Dec.counted, Dec.bind_error hlen]
      · rw [demarshalOrbitSpecific_eq, Dec.bind_ok hversion, Dec.stringBlock, Dec.bind_assoc,
          Dec.bind_error hlen]
    | some len =>
      have hhead : s.cursor.endsAtHead = false := by
        rw [RecvCursor.endsAtHead, Dec.bind_ok hversion, hlen]
      refine (keeps_octets s₂ len).bind fun r log₃ s₃ hoctets => ?_
      obtain ⟨hlog₃, hoctets⟩ := hoctets
      cases r with
      | none =>
        have hall := hlog.append (hlog₂.append (hlog₃.append .nothing))
        have hport : s.cursor.endsAtPort = false := by
          rw [RecvCursor.endsAtPort, Dec.bind_ok hversion, Dec.counted, Dec.bind_ok hlen, hoctets]
        refine .pure ⟨hhead, hall.held, ?_, ?_⟩
        · rw [hall.unset, hport]
          rfl
        · rw [demarshalOrbitSpecific_eq, Dec.bind_ok hversion, Dec.stringBlock, Dec.bind_assoc,
            Dec.bind_ok hlen, Dec.memdup, Dec.bind_assoc, Dec.bind_error hoctets]
      | some bytes =>
        obtain ⟨hoctets, hbytes⟩ := hoctets
        refine (keeps_newChunk s₃ .glib).bind fun retval log₄ s₄ hretval => ?_
        obtain ⟨hmade, hlog₄, hcursor₄⟩ := hretval
        refine (keeps_text s₄ bytes).bind fun _ log₅ s₅ htext => ?_
        obtain ⟨hlog₅, rfl⟩ := htext
        refine (keeps_memdup s₅ bytes).bind fun path log₆ s₆ hpath => ?_
        obtain ⟨hmade₆, hlog₆, hpathBytes, hkept, hcursor₆⟩ := hpath
        have hheld := hlog.append (hlog₂.append (hlog₃.append (hlog₄.append (hlog₅.append hlog₆))))
        have hcursor : s₆.cursor = s₃.cursor := by rw [hcursor₆, hcursor₄]
        have hcounted : Dec.counted s₁.cursor = .ok (path.bytes, s₆.cursor) := by
          rw [Dec.counted, Dec.bind_ok hlen, hoctets, hpathBytes, hcursor]
        have hstring : Dec.stringBlock s₁.cursor = .ok (path.text, s₆.cursor) := by
          rw [Dec.stringBlock, Dec.bind_ok hlen, memdup_octets hoctets hbytes, hkept, hcursor]
        refine (keeps_orbitSpecificRest hmade hmade₆ hheld (congrArg (fun text => [text]) hkept) hversion
          hcounted hstring hhead).mono fun r log₇ s₇ h => ?_
        simpa only [List.append_assoc] using h

theorem keeps_orbitSpecific (s : Parsing) :
    Keeps s orbitSpecific (Parsed profileView (Dec.encaps true demarshalOrbitSpecific) s) := by
  refine (keeps_useEncapsBuf s true).bind fun r log s₁ hsub => ?_
  cases r with
  | none => exact .pure ⟨⟨_, hsub.1.append .nothing⟩, hsub.2 _⟩
  | some sub =>
    obtain ⟨hmade, hlog, hbegins, hencaps⟩ := hsub
    refine .bind (p := fun _ log s' => log = [.orbitSpecific sub.self sub.cursor] ∧ s' = s₁)
      (keeps_emits (fun _ => iff_of_true (by simp [ParseEvent.Right]) (by simp [ParseEvent.Sane])) rfl
        ⟨rfl, rfl⟩) fun _ log₂ s₂ hbegin => ?_
    obtain ⟨rfl, rfl⟩ := hbegin
    refine (keeps_inside hbegins (keeps_orbitSpecificBody _)).bind fun r log₃ s₃ hr => ?_
    obtain ⟨hcursor, t, hr⟩ := hr
    have hencaps := hencaps demarshalOrbitSpecific
    have hheld := hlog.held
    have hunset := hlog.unset
    cases r with
    | «return» =>
      obtain ⟨hhead, hport, hlog₃, hfail⟩ := hr
      have hhead : sub.cursor.endsAtHead = true := hhead
      have hport : sub.cursor.endsAtPort = false := hport
      refine .pure ⟨⟨_, fun c => ?_, ?_, rfl⟩, by rw [hencaps, hfail]⟩
      · simp only [tally_append, tally_cons, tally_nil, hheld, hlog₃.held, ParseEvent.effect, hhead,
          true_and, count_singleton, List.count_nil]
        split <;> rfl
      · simp [hunset, hlog₃.unset, ParseEvent.unset, hport]
    | errout =>
      obtain ⟨hhead, hheld₃, hunset₃, hfail⟩ := hr
      have hhead : sub.cursor.endsAtHead = false := hhead
      have hunset₃ : unsets log₃ = if sub.cursor.endsAtPort then 1 else 0 := hunset₃
      refine (keeps_unuse s₃ hmade).bind fun _ log₄ s₄ hfree => .pure ?_
      obtain ⟨-, rfl, hfree⟩ := hfree
      refine ⟨⟨_, fun c => ?_, ?_, rfl⟩, by rw [hencaps, hfail]⟩
      · simp only [tally_append, tally_cons, tally_nil, tally_heap, hheld, hheld₃, hfree,
          ParseEvent.effect, hhead, Bool.false_eq_true, false_and, if_false, List.count_nil]
        omega
      · simp only [unsets_append, unsets_cons, unsets_nil, hunset, hunset₃, ParseEvent.unset,
          unsets_frees (.gFree _)]
        split <;> rfl
    | done p =>
      obtain ⟨hhead, hport, hown, ⟨texts, hlog₃, htexts⟩, hok⟩ := hr
      have hhead : sub.cursor.endsAtHead = false := hhead
      have hport : sub.cursor.endsAtPort = false := hport
      refine (keeps_unuse s₃ hmade).bind fun _ log₄ s₄ hfree => .pure ?_
      obtain ⟨rfl, rfl, hfree⟩ := hfree
      have hbegin : Leaves [] [] [ParseEvent.orbitSpecific sub.self sub.cursor] := by
        refine ⟨fun c => ?_, ?_, rfl⟩
        · simp [ParseEvent.effect, hhead]
        · simp [ParseEvent.unset, hport]
      have hall := (hlog.append (hbegin.append hlog₃)).freed (profileView.chunks p) _ hfree
        (.gFree _) fun c => by rw [List.count_append, List.nil_append]
      refine ⟨hown, ⟨texts, ?_, htexts⟩, by rw [hencaps, hok, hcursor]⟩
      simpa only [List.append_nil, List.nil_append, List.append_assoc] using hall

theorem keeps_profileOf (s : Parsing) (p : UInt32) :
    Keeps s (profileOf p) (Parsed profileView (demarshalProfileOf p) s) := by
  unfold profileOf demarshalProfileOf
  by_cases hknown : p ∉ knownProfiles
  · simp only [dif_pos hknown]
    refine (keeps_unknownData s).bind fun r log s₁ hr => ?_
    cases r with
    | none =>
      obtain ⟨⟨texts, hlog⟩, hfail⟩ := hr
      exact .pure ⟨⟨_, hlog.append .nothing⟩, Dec.bind_error hfail⟩
    | some r =>
      obtain ⟨hown, ⟨texts, hlog, htexts⟩, hok⟩ := hr
      refine .pure ⟨hown, ⟨texts, ?_, htexts⟩, Dec.bind_ok hok⟩
      rw [List.append_nil]
      exact hlog
  · simp only [dif_neg hknown]
    by_cases hiiop : p = tagInternetIop
    · simp only [if_pos hiiop]
      exact keeps_enclosed keeps_internetIopBody s
    by_cases hmultiple : p = tagMultipleComponents
    · simp only [if_neg hiiop, if_pos hmultiple]
      rw [encaps_map]
      exact keeps_enclosed keeps_multipleComponentsBody s
    by_cases hgeneric : p = tagGenericIop
    · simp only [if_neg hiiop, if_neg hmultiple, if_pos hgeneric]
      exact keeps_enclosed keeps_genericIopBody s
    · simp only [if_neg hiiop, if_neg hmultiple, if_neg hgeneric]
      exact keeps_orbitSpecific s

theorem keeps_profile (s : Parsing) : Keeps s profile (Parsed profileView demarshalProfile s) := by
  refine (keeps_length s).bind fun r log s₁ hlen => ?_
  obtain ⟨hlog, hlen⟩ := hlen
  cases r with
  | none => exact .pure ⟨⟨_, hlog.append .nothing⟩, Dec.bind_error hlen⟩
  | some p =>
    refine (keeps_profileOf s₁ (UInt32.ofNat p)).mono fun r log₂ s₂ hr => ?_
    cases r with
    | none =>
      obtain ⟨⟨texts, hlog₂⟩, hfail⟩ := hr
      exact ⟨⟨_, hlog.append hlog₂⟩, by rw [demarshalProfile, Dec.bind_ok hlen, hfail]⟩
    | some p =>
      obtain ⟨hown, ⟨texts, hlog₂, htexts⟩, hok⟩ := hr
      exact ⟨hown, ⟨_, hlog.append hlog₂, htexts⟩, by rw [demarshalProfile, Dec.bind_ok hlen, hok]⟩

/-- From `n` rounds with the profiles `ps` so far. -/
theorem keeps_profileLoop (n : Nat) {ps : List ProfileInfo} (hps : ∀ p ∈ ps, p.Own) (s : Parsing) :
    Keeps s (profileLoop ps n) fun r log s' =>
      match r with
      | none => (∃ texts, ∀ before t, Leaves (profilesChunks ps) t before → Leaves [] (t ++ texts)
          (before ++ log)) ∧ demarshalProfile.times n s.cursor = .error .fail
      | some all => ∃ rest, all = ps ++ rest ∧ Parsed profilesView (demarshalProfile.times n) s
          (some rest) log s' := by
  induction n generalizing ps s with
  | zero =>
    refine .pure ⟨[], (List.append_nil ps).symm, List.forall_mem_nil _, ⟨[], .nothing, rfl⟩, rfl⟩
  | succ n ih =>
    refine (keeps_profile s).bind fun r log s₁ hr => ?_
    cases r with
    | none =>
      obtain ⟨⟨texts, hlog⟩, hfail⟩ := hr
      refine (keeps_free s₁ (.profiles ps)).bind fun _ log₂ s₂ hfree => .pure ?_
      obtain ⟨rfl, rfl⟩ := hfree
      refine ⟨⟨texts, fun before t hbefore => ?_⟩, by rw [Dec.times, Dec.bind_error hfail]⟩
      have h := (hbefore.append hlog).freed [] _
        (fun c => heapTally_deleteProfiles c hps) (.profiles ps) fun c => by simp
      simpa only [List.append_assoc, List.append_nil] using h
    | some p =>
      obtain ⟨hown, ⟨texts, hlog, htexts⟩, hok⟩ := hr
      have hps' : ∀ p' ∈ ps ++ [p], p'.Own := by
        rw [List.forall_mem_append]
        exact ⟨hps, List.forall_mem_singleton.mpr hown⟩
      refine (ih hps' s₁).mono fun r log₂ s₂ hr => ?_
      cases r with
      | none =>
        obtain ⟨⟨texts₂, hlog₂⟩, hfail⟩ := hr
        refine ⟨⟨texts ++ texts₂, fun before t hbefore => ?_⟩, ?_⟩
        · have h := hlog₂ _ _ ((hbefore.append hlog).perm _ fun c' => ?_)
          · simpa only [List.append_assoc] using h
          · simp [profilesChunks, profileView]
        · rw [Dec.times, Dec.bind_ok hok, Dec.bind_error hfail]
      | some all =>
        obtain ⟨rest, rfl, hrest, ⟨texts₂, hlog₂, htexts₂⟩, hok₂⟩ := hr
        refine ⟨p :: rest, by rw [List.append_assoc]; rfl, List.forall_mem_cons.mpr ⟨hown, hrest⟩,
          ⟨texts ++ texts₂, ?_, ?_⟩, ?_⟩
        · have h := hlog.append hlog₂
          exact h
        · rw [List.map_append, ← htexts, ← htexts₂]
          rfl
        · rw [Dec.times, Dec.bind_ok hok, Dec.bind_ok hok₂]
          rfl

/-! ### The reference -/

/-- What `ORBit_demarshal_IOR` leaves behind: nothing, and nothing assigned, where it fails; the
profiles that are returned and no more where it succeeds. -/
structure IorPost (s : Parsing) (r : IorReturn) (log : List ParseEvent) (s' : Parsing) : Prop where
  failed : r.failure = true → r.assigned = none ∧ demarshalIOR s.cursor = .error .fail
  nil : r.failure = false → r.assigned = none → demarshalIOR s.cursor = .ok (none, s'.cursor)
  accepted : ∀ typeId profiles, r.assigned = some (typeId, profiles) → r.failure = false ∧
    (∀ p ∈ profiles, p.Own) ∧
    profiles.flatMap (fun p => p.value.strings) = (textsOf log).map kept ∧
    demarshalIOR s.cursor = .ok (some (typeId.chars, profiles.map ProfileInfo.value), s'.cursor)
  held : ∀ c, tally c log = (r.assigned.elim [] fun a => profilesChunks a.2).count c
  unset : unsets log = 0

theorem iorPost_failed {s s' : Parsing} {log : List ParseEvent} (texts : List (List UInt8))
    (h : Leaves [] texts log) (hfail : demarshalIOR s.cursor = .error .fail) :
    IorPost s ⟨true, none⟩ log s' where
  failed _ := ⟨rfl, hfail⟩
  nil h := by cases h
  accepted _ _ h := by cases h
  held := h.held
  unset := h.unset

theorem alignedWord_room {c c' : RecvCursor} {n : Nat} (h : Dec.alignedWord 4 c = .ok (n, c')) :
    c.cur + 4 ≤ c.data.length := by
  obtain ⟨⟨⟩, c₁, halign, h⟩ := Dec.bind_eq_ok.mp h
  obtain ⟨⟨⟩, c₂, hneed, h⟩ := Dec.bind_eq_ok.mp h
  obtain rfl := Dec.align_eq_ok.mp halign
  have hroom := (Dec.need_eq_ok.mp hneed).1
  have hle := le_alignUp (c.base + c.cur) (show 0 < 4 by decide)
  simp only at hroom
  omega

theorem keeps_ior (s : Parsing) : Keeps s ior (IorPost s) := by
  refine (keeps_length s).bind fun r log s₁ hlen => ?_
  obtain ⟨hlog, hlen⟩ := hlen
  cases r with
  | none => exact .pure (iorPost_failed _ (hlog.append .nothing) (Dec.bind_error hlen))
  | some len =>
    refine .bind (p := fun st log s' => st = s₁ ∧ s' = s₁ ∧ log = []) (.get ⟨rfl, rfl, rfl⟩)
      fun found log₂ s₂ hget => ?_
    obtain ⟨rfl, rfl, rfl⟩ := hget
    by_cases hroom : s₂.cursor.data.length < s₂.cursor.cur + len
    · simp only [if_pos hroom]
      refine .pure (iorPost_failed _ (hlog.append .nothing) ?_)
      rw [demarshalIOR, Dec.bind_ok hlen, Dec.bind_error]
      rw [Dec.need, if_pos hroom]
    · simp only [if_neg hroom]
      refine .of_ok fun hok => ?_
      have hstart : s₂.start ≤ s₂.cursor.cur := hok
      refine .bind (p := fun _ log s' => Leaves [] [] log ∧ s' = s₂)
        (keeps_emits (fun _ => ?_) rfl ⟨⟨fun _ => rfl, rfl, rfl⟩, rfl⟩) fun _ log₃ s₃ helements => ?_
      · refine iff_of_true ?_ (by simp [ParseEvent.Sane])
        simp only [List.forall_mem_singleton, ParseEvent.Right, RecvCursor.room]
        omega
      obtain ⟨hlog₃, rfl⟩ := helements
      refine .bind (p := fun _ log s' => log = [] ∧
        s' = { s₃ with cursor := { s₃.cursor with cur := s₃.cursor.cur + len } })
        (.step (fun hs => Nat.le_trans hs (Nat.le_add_right _ _)) (fun hs => ⟨?_, 0, rfl, ?_⟩) ⟨rfl, rfl⟩)
        fun _ log₄ s₄ hadvance => ?_
      · exact iff_of_true (List.forall_mem_nil _) (List.forall_mem_nil _)
      · rintro _ ⟨⟩
        rfl
      obtain ⟨rfl, hs₄⟩ := hadvance
      refine (keeps_length s₄).bind fun r log₅ s₅ hnum => ?_
      obtain ⟨hlog₅, hnum⟩ := hnum
      have hhead : demarshalIOR s.cursor = (do
          let numProfiles ← Dec.alignedWord 4
          if (s₃.cursor.data.drop s₃.cursor.cur).headD 0 = 0 ∧ numProfiles = 0 then return none
          else
            let profiles ← demarshalProfile.times numProfiles
            return some (s₃.cursor.data.drop s₃.cursor.cur, profiles) : Dec Ior) s₄.cursor := by
        rw [demarshalIOR, Dec.bind_ok hlen, Dec.bind_ok (Dec.need_room (by omega)), hs₄]
        rfl
      have hheld := hlog.append (hlog₃.append hlog₅)
      cases r with
      | none =>
        refine .pure (iorPost_failed ([] ++ ([] ++ [])) ?_ (by rw [hhead, Dec.bind_error hnum]))
        simpa only [List.append_nil, List.nil_append] using hheld
      | some numProfiles =>
        rw [Dec.bind_ok hnum] at hhead
        refine .bind (p := fun _ log s' => Leaves [] [] log ∧ s' = s₅)
          (@keeps_emits s₅ [.read s₃.start s₃.cursor.cur 1 s₃.cursor.data.length] _ (fun _ => ?_) rfl
            ⟨⟨fun _ => rfl, rfl, rfl⟩, rfl⟩) fun _ log₆ s₆ hfirst => ?_
        · refine iff_of_true ?_ (by simp [ParseEvent.Sane])
          rw [List.forall_mem_singleton]
          have hword := alignedWord_room hnum
          simp only [hs₄] at hword
          exact ⟨hstart, by omega⟩
        obtain ⟨hlog₆, rfl⟩ := hfirst
        have hheld := hheld.append hlog₆
        by_cases hnil : (s₃.cursor.data.drop s₃.cursor.cur).headD 0 = 0 ∧ numProfiles = 0
        · simp only [if_pos hnil] at hhead ⊢
          simp only [List.nil_append, List.append_assoc] at hheld
          refine .pure ⟨(by rintro ⟨⟩), fun _ _ => hhead, (by rintro _ _ ⟨⟩), ?_, ?_⟩
          · simp only [List.append_nil, List.nil_append]
            exact hheld.held
          · simp only [List.append_nil, List.nil_append]
            exact hheld.unset
        · simp only [if_neg hnil] at hhead ⊢
          refine (keeps_profileLoop numProfiles (List.forall_mem_nil _) s₆).bind fun r log₇ s₇ hr => ?_
          cases r with
          | none =>
            obtain ⟨⟨texts, hlog₇⟩, hfail⟩ := hr
            refine .pure (iorPost_failed ([] ++ texts) ?_ (by rw [hhead, Dec.bind_error hfail]))
            have h := hlog₇ _ _ hheld
            simpa only [List.append_nil, List.nil_append, List.append_assoc] using h
          | some profiles =>
            obtain ⟨rest, rfl, hown, ⟨texts, hlog₇, htexts⟩, hok⟩ := hr
            have hall := hheld.append hlog₇
            simp only [List.append_nil, List.nil_append, List.append_assoc] at hall
            refine .pure ⟨(by rintro ⟨⟩), (by rintro _ ⟨⟩), ?_, ?_, ?_⟩
            · rintro _ _ ⟨⟩
              refine ⟨rfl, hown, ?_, ?_⟩
              · simp only [List.append_nil, List.nil_append]
                rw [hall.texts, ← htexts]
                rfl
              · rw [hhead, Dec.bind_ok hok]
                rfl
            · simp only [List.append_nil, List.nil_append]
              exact hall.held
            · simp only [List.append_nil, List.nil_append]
              exact hall.unset

end Parse
end ORBit2
