import ORBit2.Base.Traversal
import ORBit2.SendBuffer

/-! What is gathered from a send buffer is the message that was asked for, however its pieces lie
in memory and whatever was in the buffer before. -/

set_option autoImplicit false

namespace ORBit2
open Words Gather Refinement

namespace SendBuffer

/-- The chunks lie apart from one another and from the header; what is left is the end of the last
one that is in use. -/
structure Chunks (b : SendBuffer) : Prop where
  self : b.headerAt ≠ 0
  apart : b.indirects.Pairwise fun c e => c.ptr + c.size ≤ e.ptr ∨ e.ptr + e.size ≤ c.ptr
  clear : ∀ c ∈ b.indirects, c.ptr ≠ 0 ∧ c.size = giopChunkSize
  header : ∀ a, b.Owned a → ¬ b.InHeader a
  used : b.numIndirectsUsed ≤ b.indirects.length
  left : b.indirectLeft = 0 ∨ ∃ before c, b.indirects.take b.numIndirectsUsed = before ++ [c] ∧
    c.ptr ≤ b.indirect ∧ b.indirect + b.indirectLeft = c.ptr + c.size

/-- An item lies in a chunk, at its offset in the body and nowhere else. -/
def Item (b : SendBuffer) (body : List Nat) (p : Piece) (item : Nat × Nat) : Prop :=
  (∀ a, p.1 ≤ a → a < p.1 + p.2 → b.Owned a) ∧
    ∃ before after, body = before ++ List.range' p.1 p.2 ++ after ∧
      before.length = item.1 ∧ p.2 = item.2 ∧
      (∀ a ∈ before, a < p.1 ∨ p.1 + p.2 ≤ a) ∧ ∀ a ∈ after, a < p.1 ∨ p.1 + p.2 ≤ a

section
variable {b b' : SendBuffer} {body new : List Nat} {p : Piece} {item : Nat × Nat} {a : Nat}

theorem Chunks.owned_of_free (h : b.Chunks) (ha : b.Free a) : b.Owned a := by
  rcases ha with ⟨hlo, hhi⟩ | ⟨c, hc, hin⟩
  · rcases h.left with hzero | ⟨before, c, htake, hptr, hend⟩
    · omega
    · have hc : c ∈ b.indirects.take b.numIndirectsUsed := by simp [htake]
      exact ⟨c, List.mem_of_mem_take hc, by omega, by omega⟩
  · exact ⟨c, List.mem_of_mem_drop hc, hin⟩

theorem Chunks.indirect_ne_zero (h : b.Chunks) (hl : 0 < b.indirectLeft) : b.indirect ≠ 0 := by
  rcases h.left with hzero | ⟨before, c, htake, hptr, -⟩
  · omega
  · have hc : c ∈ b.indirects.take b.numIndirectsUsed := by simp [htake]
    have hne := (h.clear c (List.mem_of_mem_take hc)).1
    omega

theorem Item.grow (h : b.Item body p item) (kept : ∀ a, b.Owned a → b'.Owned a)
    (hnew : ∀ a ∈ new, a ∈ body → ¬ b.Owned a) : b'.Item (body ++ new) p item := by
  obtain ⟨howned, before, after, rfl, hlen, hn, hbefore, hafter⟩ := h
  refine ⟨fun a hlo hhi => kept a (howned a hlo hhi), before, after ++ new, by simp, hlen, hn,
    hbefore, fun a ha => ?_⟩
  rcases List.mem_append.mp ha with ha | ha
  · exact hafter a ha
  · by_contra hin
    have hmem : a ∈ before ++ List.range' p.1 p.2 ++ after := by
      simp only [List.mem_append, List.mem_range'_1]
      omega
    exact hnew a ha hmem (howned a (by omega) (by omega))

end

end SendBuffer

namespace SendState

/-- The pieces of the buffer are the header and the body of the message, in memory at the addresses
`body`. -/
structure Holds (host : Endian) (s : SendState) (body : List Nat) (m : PlainMessage) : Prop where
  chunks : s.buffer.Chunks
  stops : Stops s.buffer.iovecs s.buffer.lastptr
  spare : s.buffer.iovecs.length ≤ s.buffer.numAlloced
  header : s.buffer.header = ⟨m.version, Endian.flag host, m.messageType, body.length % 2^32⟩
  pieces : cells s.buffer.iovecs = List.range' s.buffer.headerAt 12 ++ body
  content : body.map s.memory = m.plain.body
  size : m.plain.headerSize = 12
  apart : ∀ a ∈ body, ¬ s.buffer.InHeader a ∧ ¬ s.buffer.Free a
  items : List.Forall₂ (s.buffer.Item body) s.returned m.items

/-- What a step leaves as it was: the memory outside the chunks, and all chunks but a new one. -/
structure Follows (ptr : Nat) (s s' : SendState) : Prop where
  headerAt : s'.buffer.headerAt = s.buffer.headerAt
  owned : ∀ a, s'.buffer.Owned a → s.buffer.Owned a ∨ InChunk ptr a
  kept : ∀ a, s.buffer.Owned a → s'.buffer.Owned a
  memory : ∀ a, s'.memory a = s.memory a ∨ s'.buffer.Owned a

section
variable {host : Endian} {blank : Bool} {ptr : Nat} {s s' s'' : SendState} {body : List Nat}
variable {m : PlainMessage}

theorem Follows.refl (ptr : Nat) (s : SendState) : s.Follows ptr s :=
  ⟨rfl, fun _ => .inl, fun _ => id, fun _ => .inl rfl⟩

theorem Follows.trans (h : s.Follows ptr s') (h' : s'.Follows ptr s'') : s.Follows ptr s'' where
  headerAt := h'.headerAt.trans h.headerAt
  owned a ha := (h'.owned a ha).elim (h.owned a) .inr
  kept a ha := h'.kept a (h.kept a ha)
  memory a := by
    rcases h'.memory a with heq | howned
    · rcases h.memory a with heq' | howned
      · exact .inl (heq.trans heq')
      · exact .inr (h'.kept a howned)
    · exact .inr howned

section
variable {mem : Nat} {content : List UInt8}

/-- A content that is lent stays what it was. -/
theorem Lends.follows (h : s.Lends ptr mem content) (hf : s.Follows ptr s') :
    s'.Lends ptr mem content := by
  have hapart : ∀ a, mem ≤ a → a < mem + content.length →
      ¬ s'.buffer.Owned a ∧ ¬ s'.buffer.InHeader a ∧ ¬ InChunk ptr a := by
    intro a hlo hhi
    obtain ⟨howned, hheader, hchunk⟩ := h.apart a hlo hhi
    refine ⟨fun ha => (hf.owned a ha).elim howned hchunk, ?_, hchunk⟩
    rwa [SendBuffer.InHeader, hf.headerAt]
  refine ⟨?_, hapart, h.notNull⟩
  rw [load_congr fun a hlo hhi => (hf.memory a).resolve_right (hapart a hlo hhi).1, h.holds]

theorem view_of_not_inHeader {a : Nat} (h : ¬ s.buffer.InHeader a) : s.view a = s.memory a := by
  apply store_of_outside
  rw [MsgHeader.encode_length]
  unfold SendBuffer.InHeader at h
  omega

theorem Lends.load_view (h : s.Lends ptr mem content) :
    load s.view mem content.length = content := by
  rw [load_congr fun a hlo hhi => view_of_not_inHeader (h.apart a hlo hhi).2.1, h.holds]

end

/-! ### Chunks -/

theorem Holds.rechunk (h : s.Holds host body m) {b : SendBuffer} (hchunks : b.Chunks)
    (hsame : b = { s.buffer with
      indirects := b.indirects, indirect := b.indirect, indirectLeft := b.indirectLeft,
      numIndirectsUsed := b.numIndirectsUsed })
    {memory : Mem UInt8} (hmemory : ∀ a ∈ body, memory a = s.memory a)
    (hkept : ∀ a, s.buffer.Owned a → b.Owned a) (hfree : ∀ a ∈ body, ¬ b.Free a) :
    ({ s with memory := memory, buffer := b } : SendState).Holds host body m := by
  have hcontent : body.map memory = body.map s.memory := List.map_congr_left hmemory
  have hitems : List.Forall₂ (b.Item body) s.returned m.items := by
    refine h.items.imp fun p item hitem => ?_
    have hgrow : b.Item (body ++ []) p item := hitem.grow hkept (by simp)
    rwa [List.append_nil] at hgrow
  have hheader : ∀ a, b.InHeader a ↔ s.buffer.InHeader a := by
    rw [hsame]
    exact fun a => Iff.rfl
  refine ⟨hchunks, ?_, ?_, ?_, ?_, hcontent.trans h.content, h.size, ?_, hitems⟩
  · rw [hsame]
    exact h.stops
  · rw [hsame]
    exact h.spare
  · rw [hsame]
    exact h.header
  · rw [hsame]
    exact h.pieces
  · exact fun a ha => ⟨fun hin => (h.apart a ha).1 ((hheader a).mp hin), hfree a ha⟩

theorem getNextIndirect_spec (h : s.Holds host body m) (hfresh : s.Fresh ptr) {hint : Nat}
    (hhint : hint ≤ giopChunkSize) :
    ∃ s', s.getNextIndirect blank ptr hint = .ok s' ∧ s'.Holds host body m ∧ s.Follows ptr s' ∧
      s'.buffer.indirectLeft = giopChunkSize ∧ s'.returned = s.returned := by
  have hc := h.chunks
  rcases hnext : s.buffer.indirects[s.buffer.numIndirectsUsed]? with _ | chunk
  · -- all chunks are in use
    have hall : s.buffer.indirects.length ≤ s.buffer.numIndirectsUsed :=
      List.getElem?_eq_none_iff.mp hnext
    have hused : s.buffer.numIndirectsUsed = s.buffer.indirects.length := by
      have hle := hc.used
      omega
    have hsize : max giopChunkSize (alignUp hint 8) = giopChunkSize :=
      max_eq_left (alignUp_le_of_dvd (by omega) (by decide) hhint)
    let b : SendBuffer := { s.buffer with
      indirects := s.buffer.indirects ++ [⟨ptr, giopChunkSize⟩]
      indirect := ptr
      indirectLeft := giopChunkSize
      numIndirectsUsed := s.buffer.numIndirectsUsed + 1 }
    have howned : ∀ a, b.Owned a ↔ s.buffer.Owned a ∨ InChunk ptr a := by
      intro a
      simp [b, SendBuffer.Owned, InChunk, or_and_right, exists_or]
    have hfree : ∀ a, b.Free a → InChunk ptr a := by
      intro a ha
      simpa [b, SendBuffer.Free, InChunk, hused] using ha
    have hchunks : b.Chunks := by
      refine ⟨hc.self, ?_, ?_, ?_, by simp [b, hused], .inr ⟨s.buffer.indirects, ⟨ptr, giopChunkSize⟩, ?_⟩⟩
      · refine List.pairwise_append.mpr ⟨hc.apart, List.pairwise_singleton .., ?_⟩
        intro c hmem e he
        obtain rfl := List.mem_singleton.mp he
        by_contra hmeet
        replace hmeet : ¬ (c.ptr + c.size ≤ ptr ∨ ptr + giopChunkSize ≤ c.ptr) := hmeet
        obtain ⟨hne, hsz⟩ := hc.clear c hmem
        -- the larger of the two addresses would be in both
        have hin : InChunk ptr (max c.ptr ptr) := by
          unfold InChunk
          omega
        exact (hfresh.unused _ hin).1 ⟨c, hmem, by omega, by omega⟩
      · intro c hmem
        rcases List.mem_append.mp hmem with hmem | hmem
        · exact hc.clear c hmem
        · obtain rfl := List.mem_singleton.mp hmem
          exact ⟨hfresh.notNull, rfl⟩
      · intro a ha
        rcases (howned a).mp ha with ha | ha
        · exact hc.header a ha
        · exact (hfresh.unused a ha).2.1
      · exact ⟨List.take_of_length_le (by simp [b, hused]), Nat.le_refl _, rfl⟩
    have hbody : ∀ a ∈ body, ¬ InChunk ptr a := by
      intro a ha hin
      apply (hfresh.unused a hin).2.2
      rw [h.pieces]
      exact List.mem_append_right _ ha
    have hmemory : ∀ a, ¬ InChunk ptr a →
        (if blank then store s.memory ptr (List.replicate giopChunkSize 0) else s.memory) a =
          s.memory a := by
      intro a ha
      cases blank with
      | false => rfl
      | true =>
        apply store_of_outside
        rw [List.length_replicate]
        unfold InChunk at ha
        omega
    refine ⟨_, ?_, h.rechunk hchunks rfl (fun a ha => hmemory a (hbody a ha))
      (fun a ha => (howned a).mpr (.inl ha)) fun a ha hf => hbody a ha (hfree a hf), ?_, rfl, rfl⟩
    · simp [getNextIndirect, hnext, hfresh.aligned, hsize, b]
    · refine ⟨rfl, fun a => (howned a).mp, fun a ha => (howned a).mpr (.inl ha), fun a => ?_⟩
      by_cases hin : InChunk ptr a
      · exact .inr ((howned a).mpr (.inr hin))
      · exact .inl (hmemory a hin)
  · -- a chunk of an earlier message is left
    obtain ⟨hlt, hget⟩ := List.getElem?_eq_some_iff.mp hnext
    have hdrop : s.buffer.indirects.drop s.buffer.numIndirectsUsed =
        chunk :: s.buffer.indirects.drop (s.buffer.numIndirectsUsed + 1) := by
      rw [List.drop_eq_getElem_cons hlt, hget]
    have htake : s.buffer.indirects.take (s.buffer.numIndirectsUsed + 1) =
        s.buffer.indirects.take s.buffer.numIndirectsUsed ++ [chunk] := by
      rw [List.take_succ_eq_append_getElem hlt, hget]
    have hmem : chunk ∈ s.buffer.indirects := List.mem_of_getElem? hnext
    let b : SendBuffer := { s.buffer with
      indirect := chunk.ptr
      indirectLeft := chunk.size
      numIndirectsUsed := s.buffer.numIndirectsUsed + 1 }
    have hfree : ∀ a, b.Free a → s.buffer.Free a := by
      rintro a (hin | ⟨c, hcmem, hin⟩)
      · exact .inr ⟨chunk, by simp [hdrop], hin⟩
      · exact .inr ⟨c, by simp only [hdrop]; exact List.mem_cons_of_mem _ hcmem, hin⟩
    have hchunks : b.Chunks :=
      ⟨hc.self, hc.apart, hc.clear, hc.header, hlt, .inr ⟨_, chunk, htake, Nat.le_refl _, rfl⟩⟩
    refine ⟨{ s with buffer := b }, ?_, h.rechunk hchunks rfl (fun _ _ => rfl) (fun _ => id)
      fun a ha hf => (h.apart a ha).2 (hfree a hf), ?_, (hc.clear chunk hmem).2, rfl⟩
    · simp [getNextIndirect, hnext, b]
    · exact ⟨rfl, fun _ => .inl, fun _ => id, fun _ => .inl rfl⟩

/-- Memory for a new chunk is there, or there is no need for one. -/
def Supplied (s : SendState) (ptr n : Nat) : Prop := s.Fresh ptr ∨ n ≤ s.buffer.indirectLeft

theorem room_spec (blank : Bool) (h : s.Holds host body m) {n : Nat} (hs : s.Supplied ptr n)
    (hn : n ≤ giopChunkSize) (hint : Nat) (hhint : hint ≤ giopChunkSize) :
    ∃ s', s.room blank ptr hint n = .ok s' ∧ s'.Holds host body m ∧ s.Follows ptr s' ∧
      n ≤ s'.buffer.indirectLeft ∧ (s' = s ∨ s'.buffer.indirectLeft = giopChunkSize) ∧
      s'.returned = s.returned := by
  unfold room
  split
  · next hlt =>
    have hfresh : s.Fresh ptr := hs.resolve_right (by omega)
    obtain ⟨s', hok, hholds, hfollows, hleft, hret⟩ := getNextIndirect_spec h hfresh hhint
    exact ⟨s', hok, hholds, hfollows, by omega, .inr hleft, hret⟩
  · exact ⟨s, rfl, h, Follows.refl .., by omega, .inl rfl, rfl⟩

/-! ### Pieces -/

def appended (m : PlainMessage) (bytes : List UInt8) : PlainMessage :=
  { m with plain := m.plain.append bytes }

/-- One more piece, of a chunk or of the caller's memory. -/
theorem Holds.extend (h : s.Holds host body m) {mem : Nat} {bytes : List UInt8} {b : SendBuffer}
    (hchunks : b.Chunks)
    (hsame : b = { s.buffer.appended mem bytes.length with
      indirect := b.indirect, indirectLeft := b.indirectLeft })
    {memory : Mem UInt8} (hmemory : ∀ a ∈ body, memory a = s.memory a)
    (hload : load memory mem bytes.length = bytes) (hfree : ∀ a, b.Free a → s.buffer.Free a)
    (hnew : ∀ a ∈ List.range' mem bytes.length,
      ¬ s.buffer.InHeader a ∧ ¬ b.Free a ∧ (a ∈ body → ¬ s.buffer.Owned a)) :
    ({ s with memory := memory, buffer := b } : SendState).Holds host
      (body ++ List.range' mem bytes.length) (appended m bytes) := by
  have howned : ∀ a, s.buffer.Owned a → b.Owned a := by
    rw [hsame]
    exact fun a => id
  have hheader : ∀ a, b.InHeader a ↔ s.buffer.InHeader a := by
    rw [hsame]
    exact fun a => Iff.rfl
  have hvecs : b.iovecs = push s.buffer.iovecs s.buffer.lastptr mem bytes.length := by
    rw [hsame]
    rfl
  have hlast : b.lastptr = mem + bytes.length := by
    rw [hsame]
    rfl
  refine ⟨hchunks, ?_, ?_, ?_, ?_, ?_, h.size, ?_, ?_⟩
  · rw [hvecs, hlast]
    exact stops_push _ _ h.stops
  · have hspare := h.spare
    have halloced : b.numAlloced = if s.buffer.iovecs ≠ [] ∧ mem = s.buffer.lastptr ∨
        s.buffer.iovecs.length < s.buffer.numAlloced then s.buffer.numAlloced
        else max s.buffer.numAlloced 4 * 2 := by
      rw [hsame]
      rfl
    rw [hvecs, halloced]
    by_cases hjoin : s.buffer.iovecs ≠ [] ∧ mem = s.buffer.lastptr
    · rw [if_pos (.inl hjoin), push, if_pos hjoin, List.length_modify]
      exact hspare
    · have hle : (push s.buffer.iovecs s.buffer.lastptr mem bytes.length).length ≤ _ :=
        length_push_le mem bytes.length
      by_cases hlt : s.buffer.iovecs.length < s.buffer.numAlloced
      · rw [if_pos (.inr hlt)]
        omega
      · rw [if_neg (not_or.mpr ⟨hjoin, hlt⟩)]
        omega
  · rw [hsame]
    simp only [SendBuffer.appended, h.header, appended, List.length_append, List.length_range',
      Nat.mod_add_mod]
  · rw [hvecs, cells_push _ _ h.stops, h.pieces, List.append_assoc, hsame]
    rfl
  · rw [List.map_append, List.map_congr_left hmemory, h.content]
    exact congrArg (m.plain.body ++ ·) hload
  · intro a ha
    rcases List.mem_append.mp ha with ha | ha
    · exact ⟨fun hin => (h.apart a ha).1 ((hheader a).mp hin),
        fun hf => (h.apart a ha).2 (hfree a hf)⟩
    · exact ⟨fun hin => (hnew a ha).1 ((hheader a).mp hin), (hnew a ha).2.1⟩
  · exact h.items.imp fun p item hitem => hitem.grow howned fun a ha => (hnew a ha).2.2

/-- What has been copied into a chunk. -/
theorem put_spec (ptr : Nat) (h : s.Holds host body m) (bytes : List UInt8)
    (hleft : bytes.length ≤ s.buffer.indirectLeft) (hne : s.buffer.indirect ≠ 0) :
    ∃ s', s.put bytes = .ok s' ∧
      s'.Holds host (body ++ List.range' s.buffer.indirect bytes.length) (appended m bytes) ∧
      s.Follows ptr s' ∧ s'.buffer.indirectLeft = s.buffer.indirectLeft - bytes.length ∧
      s'.buffer.indirect = s.buffer.indirect + bytes.length ∧
      (s.Fresh ptr → s'.Fresh ptr) ∧ s'.returned = s.returned := by
  have hc := h.chunks
  let b : SendBuffer := { s.buffer.appended s.buffer.indirect bytes.length with
    indirect := s.buffer.indirect + bytes.length
    indirectLeft := s.buffer.indirectLeft - bytes.length }
  have hstill : ∀ a, s.buffer.indirect ≤ a → a < s.buffer.indirect + bytes.length →
      s.buffer.Free a := fun a hlo hhi => .inl ⟨hlo, by omega⟩
  have hfree : ∀ a, b.Free a → s.buffer.Free a := by
    rintro a (⟨hlo, hhi⟩ | hrest)
    · replace hlo : s.buffer.indirect + bytes.length ≤ a := hlo
      replace hhi : a < s.buffer.indirect + bytes.length + (s.buffer.indirectLeft - bytes.length) :=
        hhi
      exact .inl ⟨by omega, by omega⟩
    · exact .inr hrest
  -- what is behind the piece in its chunk is in no chunk that comes later
  have hgone : ∀ a, s.buffer.indirect ≤ a → a < s.buffer.indirect + bytes.length → ¬ b.Free a := by
    rintro a hlo hhi (⟨hlo', -⟩ | ⟨c, hcmem, hin⟩)
    · exact absurd hlo' (by simp only [b]; omega)
    · rcases hc.left with hzero | ⟨before, last, htake, hptr, hend⟩
      · omega
      · have happend : s.buffer.indirects = before ++ [last] ++
            s.buffer.indirects.drop s.buffer.numIndirectsUsed := by
          rw [← htake, List.take_append_drop]
        have hapart := hc.apart
        rw [happend] at hapart
        have hlast := (List.pairwise_append.mp hapart).2.2 last (by simp) c hcmem
        omega
  have hchunks : b.Chunks := by
    refine ⟨hc.self, hc.apart, hc.clear, hc.header, hc.used, ?_⟩
    rcases hc.left with hzero | ⟨before, last, htake, hptr, hend⟩
    · exact .inl (by simp only [b]; omega)
    · exact .inr ⟨before, last, htake, by simp only [b]; omega, by simp only [b]; omega⟩
  have hmemory : ∀ a, a < s.buffer.indirect ∨ s.buffer.indirect + bytes.length ≤ a →
      store s.memory s.buffer.indirect bytes a = s.memory a := fun a => store_of_outside
  have houtside : ∀ a, ¬ s.buffer.Free a →
      a < s.buffer.indirect ∨ s.buffer.indirect + bytes.length ≤ a := by
    intro a ha
    by_contra hin
    exact ha (hstill a (by omega) (by omega))
  refine ⟨{ s with memory := store s.memory s.buffer.indirect bytes, buffer := b }, ?_,
    h.extend hchunks rfl (fun a ha => hmemory a (houtside a (h.apart a ha).2)) load_store_self hfree ?_,
    ⟨rfl, fun _ => .inl, fun _ => id, fun a => ?_⟩, rfl, rfl, fun hf => ⟨hf.notNull, hf.aligned, ?_⟩, rfl⟩
  · rw [put, if_neg (by omega), SendBuffer.appendReal, if_neg hne]
    rfl
  · intro a ha
    obtain ⟨hlo, hhi⟩ := List.mem_range'_1.mp ha
    have hown := hc.owned_of_free (hstill a hlo hhi)
    exact ⟨hc.header a hown, hgone a hlo hhi, fun hmem => absurd (hstill a hlo hhi) (h.apart a hmem).2⟩
  · by_cases hin : s.buffer.Owned a
    · exact .inr hin
    · exact .inl (hmemory a (houtside a fun hf => hin (hc.owned_of_free hf)))
  · intro a ha
    obtain ⟨howned, hheader, hvecs⟩ := hf.unused a ha
    refine ⟨howned, hheader, ?_⟩
    rw [show b.iovecs = push s.buffer.iovecs s.buffer.lastptr s.buffer.indirect bytes.length from rfl,
      cells_push _ _ h.stops, List.mem_append]
    rintro (hmem | hmem)
    · exact hvecs hmem
    · obtain ⟨hlo, hhi⟩ := List.mem_range'_1.mp hmem
      exact howned (hc.owned_of_free (hstill a hlo hhi))

/-- What is not copied stays with the caller. -/
theorem borrow_spec (h : s.Holds host body m) {mem : Nat} {content : List UInt8}
    (hlend : s.Lends ptr mem content) (hne : content ≠ []) :
    ∃ s', (s.buffer.appendReal mem content.length >>= fun b => .ok { s with buffer := b }) = .ok s' ∧
      s'.Holds host (body ++ List.range' mem content.length) (appended m content) ∧
      s'.returned = s.returned := by
  have hchunks : (s.buffer.appended mem content.length).Chunks :=
    ⟨h.chunks.self, h.chunks.apart, h.chunks.clear, h.chunks.header, h.chunks.used, h.chunks.left⟩
  refine ⟨{ s with buffer := s.buffer.appended mem content.length }, ?_,
    h.extend hchunks rfl (fun _ _ => rfl) hlend.holds (fun _ => id) ?_, rfl⟩
  · rw [SendBuffer.appendReal, if_neg (hlend.notNull hne)]
    rfl
  · intro a ha
    obtain ⟨hlo, hhi⟩ := List.mem_range'_1.mp ha
    obtain ⟨howned, hheader, -⟩ := hlend.apart a hlo hhi
    exact ⟨hheader, fun hf => howned (h.chunks.owned_of_free hf), fun _ => howned⟩

/-! ### Calls -/

theorem Holds.length (h : s.Holds host body m) : m.plain.body.length = body.length := by
  rw [← h.content, List.length_map]

theorem Holds.pos (h : s.Holds host body m) : m.plain.pos = 12 + body.length := by
  rw [PlainBuffer.pos, h.size, h.length]

/-- The place of what is put into the chunk next. -/
theorem Holds.item (h : s.Holds host body m) {n : Nat} (hleft : n ≤ s.buffer.indirectLeft) :
    s.buffer.Item (body ++ List.range' s.buffer.indirect n) (s.buffer.indirect, n)
      (body.length, n) := by
  have hstill : ∀ a, s.buffer.indirect ≤ a → a < s.buffer.indirect + n → s.buffer.Free a :=
    fun a hlo hhi => .inl ⟨hlo, by omega⟩
  refine ⟨fun a hlo hhi => h.chunks.owned_of_free (hstill a hlo hhi), body, [], by simp, rfl, rfl,
    fun a ha => ?_, by simp⟩
  by_contra hin
  exact (h.apart a ha).2 (hstill a (by omega) (by omega))

theorem Holds.record (h : s.Holds host body m) {p : Piece} {item : Nat × Nat}
    (hi : s.buffer.Item body p item) :
    ({ s with returned := s.returned ++ [p] } : SendState).Holds host body
      { m with items := m.items ++ [item] } :=
  { h with items := List.rel_append h.items (.cons hi .nil) }

theorem padding_eq (n : Nat) {boundary : Nat} (hb : boundary ∣ 16) :
    alignUp ((n % 2^32 + 12) % 2^32) boundary - (n % 2^32 + 12) % 2^32 =
      alignUp (12 + n) boundary - (12 + n) := by
  have hpos : 0 < boundary := Nat.pos_of_dvd_of_pos hb (by decide)
  have hms : (n % 2^32 + 12) % 2^32 = (12 + n) % 2^32 := by omega
  have hsum : 12 + n = (12 + n) % 2^32 + 2^32 * ((12 + n) / 2^32) := by omega
  have hdvd : boundary ∣ 2^32 * ((12 + n) / 2^32) :=
    Dvd.dvd.mul_right (hb.trans (by decide)) _
  have hup := alignUp_add_of_dvd (n := (12 + n) % 2^32) hpos hdvd
  rw [← hsum] at hup
  rw [hms]
  omega

theorem align_spec (blank : Bool) (h : s.Holds host body m) (hfresh : s.Fresh ptr) {boundary : Nat}
    (hb : boundary ∣ 16) :
    ∃ s' body', s.align blank ptr boundary = .ok s' ∧
      s'.Holds host body' (m.exec host (.align boundary)) ∧ s.Follows ptr s' ∧
      (s'.Fresh ptr ∨ giopChunkSize ≤ s'.buffer.indirectLeft + 16) ∧ s'.returned = s.returned := by
  have hpos : 0 < boundary := Nat.pos_of_dvd_of_pos hb (by decide)
  have hle : boundary ≤ 16 := Nat.le_of_dvd (by decide) hb
  have hsize : s.buffer.header.messageSize = body.length % 2^32 := by rw [h.header]
  have hamt := padding_eq body.length hb
  have hlt := alignUp_lt (12 + body.length) hpos
  have hplain : m.exec host (.align boundary) =
      appended m (List.replicate (alignUp (12 + body.length) boundary - (12 + body.length)) 0) := by
    rw [PlainMessage.exec, PlainBuffer.exec, PlainBuffer.align, h.pos]
    rfl
  rw [hplain]
  simp only [align, hsize, hamt]
  split
  · next hzero =>
    refine ⟨s, body, rfl, ?_, Follows.refl .., .inl hfresh, rfl⟩
    rw [hzero]
    simpa [appended, PlainBuffer.append] using h
  · next hne =>
    obtain ⟨s₁, hroom, hholds, hfollows, hleft, hsame, hret⟩ := room_spec blank h
      (n := alignUp (12 + body.length) boundary - (12 + body.length)) (.inl hfresh)
      (by unfold giopChunkSize; omega) 0 (by decide)
    have hnull := hholds.chunks.indirect_ne_zero (by omega)
    obtain ⟨s₂, hput, hholds', hfollows', hleft', -, hfresh', hret'⟩ := put_spec ptr hholds
      (List.replicate (alignUp (12 + body.length) boundary - (12 + body.length)) 0)
      (by rwa [List.length_replicate]) hnull
    rw [List.length_replicate] at hleft'
    refine ⟨s₂, _, ?_, hholds', hfollows.trans hfollows', ?_, hret'.trans hret⟩
    · rw [hroom]
      exact hput
    · rcases hsame with rfl | hfull
      · exact .inl (hfresh' hfresh)
      · exact .inr (by omega)

theorem append_spec (blank : Bool) (h : s.Holds host body m) {mem : Nat} {content : List UInt8}
    (hs : content.length ≤ 32 → s.Supplied ptr content.length) (hlend : s.Lends ptr mem content)
    (hnull : content = [] → s.buffer.indirect ≠ 0) :
    ∃ s' body', s.append blank ptr mem content.length = .ok s' ∧
      s'.Holds host body' (m.exec host (.append content)) ∧ s'.returned = s.returned := by
  unfold append
  split
  · next hshort =>
    have hsmall : content.length ≤ giopChunkSize := by
      unfold giopChunkSize
      omega
    obtain ⟨s₁, hroom, hholds, hfollows, hleft, hsame, hret⟩ :=
      room_spec blank h (hs hshort) hsmall content.length hsmall
    have hne : s₁.buffer.indirect ≠ 0 := by
      by_cases hempty : content = []
      · rcases hsame with rfl | hfull
        · exact hnull hempty
        · exact hholds.chunks.indirect_ne_zero (by rw [hfull]; decide)
      · have hpos := List.length_pos_of_ne_nil hempty
        exact hholds.chunks.indirect_ne_zero (by omega)
    obtain ⟨s₂, hput, hholds', -, -, -, -, hret'⟩ := put_spec ptr hholds content hleft hne
    refine ⟨s₂, _, ?_, hholds', hret'.trans hret⟩
    rw [appendCopy, hroom]
    exact (congrArg (put · s₁) (hlend.follows hfollows).load_view).trans hput
  · next hlong =>
    have hne : content ≠ [] := by
      rintro rfl
      exact hlong (by decide)
    obtain ⟨s', hok, hholds, hret⟩ := borrow_spec h hlend hne
    exact ⟨s', _, hok, hholds, hret⟩

theorem appendAligned_spec (mem : Option Nat) (h : s.Holds host body m) (hfresh : s.Fresh ptr)
    {content : List UInt8} (hn : content.length ∣ 16)
    (hmem : mem.elim (content = List.replicate content.length 0) (s.Lends ptr · content)) :
    ∃ s' body', s.appendAligned blank ptr mem content.length = .ok s' ∧
      s'.Holds host body' (m.alignedItem host content) := by
  have hpos : 0 < content.length := Nat.pos_of_dvd_of_pos hn (by decide)
  have hle : content.length ≤ 16 := Nat.le_of_dvd (by decide) hn
  obtain ⟨s₁, body', halign, hholds₁, hfollows₁, hsupply, hret₁⟩ := 
    align_spec blank h hfresh hn
  obtain ⟨s₂, hroom, hholds₂, hfollows₂, hleft, -, hret₂⟩ := room_spec blank hholds₁
    (n := content.length) (hsupply.imp_right fun hl => by unfold giopChunkSize at hl; omega)
    (by unfold giopChunkSize; omega) 0 (by decide)
  obtain ⟨s₃, hput, hholds₃, hfollows₃, -, -, -, hret₃⟩ := put_spec ptr hholds₂ content hleft
    (hholds₂.chunks.indirect_ne_zero (by omega))
  have hitem : s₃.buffer.Item (body' ++ List.range' s₂.buffer.indirect content.length ++ [])
      (s₂.buffer.indirect, content.length) (body'.length, content.length) :=
    (hholds₂.item hleft).grow hfollows₃.kept (by simp)
  rw [List.append_nil, ← hholds₂.length] at hitem
  have hbytes : s₂.itemBytes content.length mem = content := by
    cases mem with
    | none => exact hmem.symm
    | some mem => exact (Lends.follows hmem (hfollows₁.trans hfollows₂)).load_view
  refine ⟨{ s₃ with returned := s₃.returned ++ [(s₂.buffer.indirect, content.length)] },
    body' ++ List.range' s₂.buffer.indirect content.length, ?_, hholds₃.record hitem⟩
  rw [appendAligned, halign]
  simp only [Outcomes.ok_bind, hroom, hbytes, hput]
  rfl

theorem appendString_spec (h : s.Holds host body m) (hfresh : s.Fresh ptr) {str : Nat}
    {content : List UInt8} (hlend : s.Lends ptr str (content ++ [0]))
    (hsize : content.length + 5 < 2^32) :
    ∃ s' body', s.appendString host blank ptr str content.length = .ok s' ∧
      s'.Holds host body' (m.exec host (.appendString content)) := by
  have hlen : (content.length + 1) % 2^32 = content.length + 1 := Nat.mod_eq_of_lt (by omega)
  have hsum : (4 + (content.length + 1)) % 2^32 = 4 + (content.length + 1) :=
    Nat.mod_eq_of_lt (by omega)
  have hwhole : (content ++ [0]).length = content.length + 1 := by simp
  obtain ⟨s₁, body', halign, hholds₁, hfollows₁, hsupply, hret₁⟩ :=
    align_spec blank h hfresh (show 4 ∣ 16 by decide)
  have hlend₁ := hlend.follows hfollows₁
  simp only [appendString, hlen, hsum, halign, Outcomes.ok_bind]
  split
  · next hfits =>
    -- the length and the string are copied into one chunk
    have hload := hlend₁.load_view
    rw [hwhole] at hload
    have hbytes : (host.split 4 (content.length + 1) ++ (content ++ [0])).length =
        4 + (content.length + 1) := by
      rw [List.length_append, Endian.split_length, hwhole]
    obtain ⟨s₂, hput, hholds₂, -⟩ := put_spec ptr hholds₁
      (host.split 4 (content.length + 1) ++ (content ++ [0])) (by rwa [hbytes])
      (hholds₁.chunks.indirect_ne_zero (by omega))
    have hplain : appended (m.exec host (.align 4))
        (host.split 4 (content.length + 1) ++ (content ++ [0])) =
          m.exec host (.appendString content) := by
      simp [appended, PlainMessage.exec, PlainBuffer.exec, PlainBuffer.appendString,
        PlainBuffer.append, List.append_assoc]
    rw [hplain] at hholds₂
    exact ⟨s₂, _, by rw [hload]; exact hput, hholds₂⟩
  · next hlong =>
    obtain ⟨s₂, hroom, hholds₂, hfollows₂, hleft, hsame, -⟩ := room_spec blank hholds₁
      (n := 4) (hsupply.imp_right fun hl => by unfold giopChunkSize at hl; omega)
      (by decide) 4 (by decide)
    obtain ⟨s₃, hput, hholds₃, hfollows₃, hleft₃, -, hfresh₃, -⟩ := put_spec ptr hholds₂
      (host.split 4 (content.length + 1)) (by rwa [Endian.split_length])
      (hholds₂.chunks.indirect_ne_zero (by omega))
    rw [Endian.split_length] at hleft₃
    have hs : (content ++ [0]).length ≤ 32 → s₃.Supplied ptr (content ++ [0]).length := by
      intro hshort
      rcases hsame with rfl | hfull
      · rcases hsupply with hfresh₁ | hl
        · exact .inl (hfresh₃ hfresh₁)
        · unfold giopChunkSize at hl
          omega
      · unfold giopChunkSize at hfull
        exact .inr (by omega)
    obtain ⟨s₄, body₄, happend, hholds₄, -⟩ := append_spec blank hholds₃ hs
      ((hlend₁.follows hfollows₂).follows hfollows₃) (by simp)
    rw [hwhole] at happend
    exact ⟨s₄, body₄, by rw [hroom]; simp only [Outcomes.ok_bind, hput, happend], hholds₄⟩

theorem use_spec (blank : Bool) (hc : s.buffer.Chunks) (version : Version)
    (hflags : s.buffer.header.flags = Endian.flag host) :
    ∃ s', s.use blank version = .ok s' ∧
      s'.Holds host [] (PlainMessage.start version s.buffer.header.messageType) := by
  let b : SendBuffer := { s.buffer with
    header := { s.buffer.header with version := version }
    iovecs := []
    indirectLeft := 0
    numIndirectsUsed := 0 }
  have hok : b.appendReal b.headerAt 12 = .ok (b.appended b.headerAt 12) := if_neg hc.self
  refine ⟨_, by rw [use, hok]; rfl, ?_⟩
  refine ⟨⟨hc.self, hc.apart, hc.clear, hc.header, Nat.zero_le _, .inl rfl⟩, ⟨[], _, rfl, rfl⟩,
    ?_, ?_, by simp [b, SendBuffer.appended, push], rfl, rfl, by simp, .nil⟩
  · have hgrown : 1 ≤ if 0 < s.buffer.numAlloced then s.buffer.numAlloced
        else max s.buffer.numAlloced 4 * 2 := by
      split <;> omega
    simpa [b, SendBuffer.appended, push] using hgrown
  · simp [b, SendBuffer.appended, PlainMessage.start, hflags]

theorem patch_spec (h : s.Holds host body m) {i : Nat} {p : Piece} (hp : s.returned[i]? = some p)
    {content : List UInt8} (hlen : content.length ≤ p.2) :
    ∃ item, m.items[i]? = some item ∧
      ({ s with memory := store s.memory p.1 content } : SendState).Holds host body
        { m with plain := { m.plain with body := overwrite m.plain.body item.1 content } } := by
  rcases Traversal.forall₂_getElem? h.items i with ⟨hnone, -⟩ | ⟨q, item, hq, hitem, hplace⟩
  · rw [hnone] at hp
    cases hp
  obtain rfl : q = p := Option.some.inj (hq.symm.trans hp)
  obtain ⟨-, before, after, hbody, hoff, -, hbefore, hafter⟩ := hplace
  refine ⟨item, hitem, { h with content := ?_ }⟩
  -- the place begins with what is written
  have hsplit : List.range' q.1 q.2 =
      List.range' q.1 content.length ++ List.range' (q.1 + content.length) (q.2 - content.length) := by
    rw [List.range'_append_1]
    congr 1
    omega
  have hb : ∀ a ∈ before, a < q.1 ∨ q.1 + content.length ≤ a := fun a ha => by
    have h' := hbefore a ha
    omega
  have ha : ∀ a ∈ List.range' (q.1 + content.length) (q.2 - content.length) ++ after,
      a < q.1 ∨ q.1 + content.length ≤ a := fun a ha => by
    rcases List.mem_append.mp ha with ha | ha
    · obtain ⟨hlo, -⟩ := List.mem_range'_1.mp ha
      exact .inr hlo
    · have h' := hafter a ha
      omega
  have hwritten : (before ++ List.range' q.1 content.length ++ _).map
      (store s.memory q.1 content) = _ := map_store_once hb ha
  rw [show before ++ List.range' q.1 content.length ++
      (List.range' (q.1 + content.length) (q.2 - content.length) ++ after) = body by
    rw [hbody, hsplit]
    simp only [List.append_assoc], h.content, hoff] at hwritten
  exact hwritten

theorem unuse_eq (hc : s.buffer.Chunks) : s.unuse = s := by
  have hshrink : (s.buffer.indirects.take s.buffer.numIndirectsUsed).map (fun chunk =>
      if giopChunkSize < chunk.size then { chunk with size := giopChunkSize } else chunk) =
        (s.buffer.indirects.take s.buffer.numIndirectsUsed).map id := by
    apply List.map_congr_left
    intro chunk hchunk
    have hsize := (hc.clear chunk (List.mem_of_mem_take hchunk)).2
    rw [if_neg (by omega), id]
  simp only [unuse, hshrink, List.map_id, List.take_append_drop]

/-- The buffer holds the message, and every aligned item lies at its alignment. -/
def Represents (host : Endian) (s : SendState) (m : PlainMessage) : Prop :=
  (∃ body, s.Holds host body m) ∧ ∀ item ∈ m.items, item.2 ∣ 12 + item.1

theorem Represents.of_item (h : s.Represents host m) {content : List UInt8}
    (hn : content.length ∣ 16) (hholds : ∃ body, s'.Holds host body (m.alignedItem host content)) :
    s'.Represents host (m.alignedItem host content) := by
  refine ⟨hholds, fun item hitem => ?_⟩
  rcases List.mem_append.mp hitem with hitem | hitem
  · exact h.2 item hitem
  · obtain rfl := List.mem_singleton.mp hitem
    obtain ⟨⟨body, hbody⟩, -⟩ := h
    have hdvd := m.plain.dvd_align_pos (Nat.pos_of_dvd_of_pos hn (by decide))
    rwa [PlainBuffer.pos, PlainBuffer.align_headerSize, hbody.size] at hdvd

/-- Every call does to the pieces what it does to the message. -/
theorem step_refines {e : SendEvent} (h : s.Represents host m) (hp : s.Promise e) :
    ∃ s', s.step host blank e = .ok s' ∧ s'.Represents host (m.step host e) := by
  obtain ⟨ptr, call⟩ := e
  obtain ⟨⟨body, hbody⟩, hitems⟩ := h
  cases call with
  | use version =>
    obtain ⟨s', hok, hholds⟩ := use_spec blank hbody.chunks version (by rw [hbody.header])
    rw [hbody.header] at hholds
    exact ⟨s', hok, ⟨[], hholds⟩, by simp [PlainMessage.step, PlainMessage.start]⟩
  | messageType type =>
    have hc := hbody.chunks
    exact ⟨_, rfl, ⟨body, ⟨hc.self, hc.apart, hc.clear, hc.header, hc.used, hc.left⟩, hbody.stops,
      hbody.spare, by simp only [hbody.header]; rfl, hbody.pieces, hbody.content, hbody.size,
      hbody.apart, hbody.items⟩, hitems⟩
  | append mem content =>
    obtain ⟨hfresh, hlend, hnull⟩ := hp
    obtain ⟨s', body', hok, hholds, -⟩ := append_spec blank hbody (fun _ => .inl hfresh) hlend hnull
    exact ⟨s', hok, ⟨body', hholds⟩, hitems⟩
  | appendAligned mem content =>
    obtain ⟨hfresh, hlend, hn⟩ := hp
    obtain ⟨s', body', hok, hholds⟩ := appendAligned_spec (some mem) hbody hfresh hn hlend
    exact ⟨s', hok, Represents.of_item ⟨⟨body, hbody⟩, hitems⟩ hn ⟨body', hholds⟩⟩
  | reserve alignLen =>
    obtain ⟨hfresh, hn⟩ := hp
    have hlen : (List.replicate alignLen (0 : UInt8)).length = alignLen := List.length_replicate
    rw [← hlen] at hn
    obtain ⟨s', body', hok, hholds⟩ := appendAligned_spec none hbody hfresh hn (by simp)
    rw [hlen] at hok
    exact ⟨s', hok, Represents.of_item ⟨⟨body, hbody⟩, hitems⟩ hn ⟨body', hholds⟩⟩
  | align boundary =>
    obtain ⟨hfresh, hb⟩ := hp
    obtain ⟨s', body', hok, hholds, -⟩ := align_spec blank hbody hfresh hb
    exact ⟨s', hok, ⟨body', hholds⟩, hitems⟩
  | appendString str content =>
    obtain ⟨hfresh, hlend, -, hsize⟩ := hp
    obtain ⟨s', body', hok, hholds⟩ := appendString_spec hbody hfresh hlend hsize
    exact ⟨s', hok, ⟨body', hholds⟩, hitems⟩
  | patch i content =>
    obtain ⟨p, hat, hlen⟩ := hp
    obtain ⟨item, hitem, hholds⟩ := patch_spec hbody hat hlen
    refine ⟨{ s with memory := store s.memory p.1 content }, by simp only [step, hat], ?_⟩
    simp only [PlainMessage.step, hitem]
    exact ⟨⟨body, hholds⟩, hitems⟩
  | outside memory =>
    have hmemory : ∀ a ∈ body, memory a = s.memory a := by
      intro a ha
      have hmem : a ∈ cells s.buffer.iovecs := by
        rw [hbody.pieces]
        exact List.mem_append_right _ ha
      exact (hp a hmem).resolve_left (hbody.apart a ha).1
    exact ⟨_, rfl, ⟨body, hbody.rechunk hbody.chunks rfl hmemory (fun _ => id)
      fun a ha => (hbody.apart a ha).2⟩, hitems⟩
  | unuse =>
    refine ⟨s, ?_, ⟨body, hbody⟩, hitems⟩
    rw [step, unuse_eq hbody.chunks]

theorem split_mod (e : Endian) (w n : Nat) : e.split w (n % 256^w) = e.split w n := by
  have hle : ∀ w n, splitLE w (n % 256^w) = splitLE w n := by
    intro w
    induction w with
    | zero => intro n; rfl
    | succ w ih =>
      intro n
      have hlow : n % 256^(w+1) % 256 = n % 256 :=
        Nat.mod_mod_of_dvd n (Dvd.intro_left (256^w) rfl)
      have hhigh : n % 256^(w+1) / 256 = n / 256 % 256^w := by
        rw [Nat.pow_succ, Nat.mul_comm, Nat.mod_mul_right_div_self]
      rw [splitLE, splitLE, hlow, hhigh, ih]
  cases e <;> simp only [Endian.split, hle]

/-- What is gathered is the header and the body of the message. -/
theorem Holds.gather_eq (h : s.Holds host body m) : gather s.view s.buffer.iovecs = m.wire host := by
  have hlen := s.buffer.header.encode_length
  have hheader : (List.range' s.buffer.headerAt 12).map s.view = s.buffer.header.encode := by
    have hself : load s.view s.buffer.headerAt s.buffer.header.encode.length =
        s.buffer.header.encode := load_store_self
    rwa [hlen] at hself
  have hbody : body.map s.view = m.plain.body := by
    rw [← h.content]
    exact List.map_congr_left fun a ha => view_of_not_inHeader (h.apart a ha).1
  have hencode : s.buffer.header.encode =
      (MsgHeader.mk m.version (Endian.flag host) m.messageType m.plain.body.length).encode := by
    have hsplit := split_mod (MsgHeader.sender
      ⟨m.version, Endian.flag host, m.messageType, 0⟩) 4 body.length
    rw [h.header, h.length]
    exact congrArg (magic ++ m.version.ids ++ [Endian.flag host, m.messageType.code] ++ ·) hsplit
  rw [Gather.gather_eq, h.pieces, List.map_append, hheader, hbody, hencode]
  rfl

end

/-! ### Runs -/

/-- A buffer that can be used for the next message. -/
def Reusable (host : Endian) (s : SendState) : Prop :=
  s.buffer.Chunks ∧ s.buffer.header.flags = Endian.flag host

theorem reusable_new (host : Endian) {headerAt : Nat} (h : headerAt ≠ 0) (memory : Mem UInt8) :
    (SendState.new host headerAt memory).Reusable host :=
  ⟨⟨h, .nil, by simp [SendState.new, SendBuffer.new],
    by simp [SendState.new, SendBuffer.new, SendBuffer.Owned], Nat.zero_le _, .inl rfl⟩, rfl⟩

section
variable {host : Endian} {blank : Bool} {s : SendState}

theorem Represents.reusable {m : PlainMessage} (h : s.Represents host m) : s.Reusable host := by
  obtain ⟨⟨body, hbody⟩, -⟩ := h
  exact ⟨hbody.chunks, by rw [hbody.header]⟩

theorem run_message (hs : s.Reusable host) {ptr : Nat} {version : Version}
    {events : List SendEvent}
    (h : Granted (step host blank) Promise s (⟨ptr, .use version⟩ :: events)) :
    ∃ s', (⟨ptr, .use version⟩ :: events).foldlM (step host blank) s = .ok s' ∧
      s'.Represents host (events.foldl (PlainMessage.step host)
        (.start version s.buffer.header.messageType)) := by
  obtain ⟨s₁, hok, hholds⟩ := use_spec blank hs.1 version hs.2
  have hstart : s₁.Represents host (.start version s.buffer.header.messageType) :=
    ⟨⟨[], hholds⟩, by simp [PlainMessage.start]⟩
  obtain ⟨s', hs', hrep⟩ := run_refines (fun _ _ _ => step_refines) hstart (h.2 s₁ hok)
  refine ⟨s', ?_, hrep⟩
  rw [List.foldlM_cons]
  exact (congrArg (· >>= events.foldlM (step host blank)) hok).trans hs'

end

end SendState

section
variable {host : Endian}

/-- Calls that only append do what the same calls do to the plain buffer. -/
theorem PlainMessage.run_marshals {events : List SendEvent} {m : PlainMessage}
    (h : ∀ e ∈ events, e.call.Marshals) :
    let m' := events.foldl (PlainMessage.step host) m
    m'.plain = m.plain.run host (events.filterMap (·.call.op)) ∧ m'.version = m.version ∧
      m'.messageType = m.messageType := by
  induction events generalizing m with
  | nil => exact ⟨rfl, rfl, rfl⟩
  | cons e events ih =>
    obtain ⟨he, hrest⟩ := List.forall_mem_cons.mp h
    obtain ⟨hplain, hversion, htype⟩ := ih (m := m.step host e) hrest
    have hone : (m.step host e).version = m.version ∧ (m.step host e).messageType = m.messageType ∧
        (m.step host e).plain = m.plain.run host (e.call.op.toList) := by
      obtain ⟨ptr, call⟩ := e
      cases call with
      | append => exact ⟨rfl, rfl, rfl⟩
      | appendAligned => exact ⟨rfl, rfl, rfl⟩
      | reserve => exact ⟨rfl, rfl, rfl⟩
      | align => exact ⟨rfl, rfl, rfl⟩
      | appendString => exact ⟨rfl, rfl, rfl⟩
      | outside => exact ⟨rfl, rfl, rfl⟩
      | use | messageType | patch | unuse => simp [SendCall.Marshals, SendCall.op] at he
    refine ⟨?_, hversion.trans hone.1, htype.trans hone.2.1⟩
    rw [List.foldl_cons, hplain, hone.2.2, ← PlainBuffer.run_append]
    congr 1
    cases hop : e.call.op with
    | none => simp [hop]
    | some op => simp [hop]

end

theorem SendState.fresh_of_buffer {s : SendState} {ptr : Nat} (b : SendBuffer) (hb : s.buffer = b)
    (hptr : ptr ≠ 0 ∧ ptr % 4 = 0) (h : ∀ a, InChunk ptr a →
      ¬ b.Owned a ∧ ¬ b.InHeader a ∧ a ∉ cells b.iovecs) : s.Fresh ptr :=
  ⟨hptr.1, hptr.2, fun a ha => hb ▸ h a ha⟩

end ORBit2
