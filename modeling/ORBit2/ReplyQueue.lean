import ORBit2.Base.Runs
import ORBit2.RecvBuffer

/-! The queue of the calls that wait for a reply, `giop_queued_messages`: one list for
all connections of the process. Every operation runs under its lock. -/

set_option autoImplicit false

namespace ORBit2
open Runs

/-- `GIOPMessageQueueEntry`, one for each call of `giop_recv_list_setup_queue_entry`. -/
structure QueueEntry where
  /-- how many entries were set up before this one -/
  key : Nat
  /-- none is NULL -/
  cnx : Option Nat
  msgType : MsgType
  requestId : Nat
  buffer : Option Nat
  deriving DecidableEq, Repr

/-- What `handle_reply` reads of the buffer it is given. -/
structure Reply where
  cnx : Nat
  msgType : MsgType
  requestId : Nat
  /-- `giop_recv_buffer_reply_status` -/
  status : Nat
  deriving DecidableEq, Repr

/-- An assignment `ent->buffer = buf`. -/
structure Stored where
  entry : QueueEntry
  reply : Reply
  buffer : Nat
  deriving DecidableEq, Repr

structure ReplyQueue where
  /-- `giop_queued_messages` -/
  queued : List QueueEntry
  /-- the entries whose link was deleted, the latest first -/
  removed : List QueueEntry
  /-- how many entries were set up -/
  entries : Nat
  /-- how many buffers `handle_reply` was given; the count names the next one -/
  buffers : Nat
  stored : List Stored
  /-- the buffers given to `giop_recv_buffer_unuse` -/
  released : List Nat
  deriving DecidableEq, Repr

/-- `giop_recv_destroy_queue_entry_T` -/
def QueueEntry.destroy (ent : QueueEntry) : QueueEntry := { ent with cnx := none }

/-- The test in the search loop of `handle_reply`. -/
def QueueEntry.answers (ent : QueueEntry) (r : Reply) : Bool :=
  ent.requestId = r.requestId && ent.msgType = r.msgType

/-- Registered for the connection, the request id and the type of a reply. -/
def QueueEntry.IsFor (ent : QueueEntry) (r : Reply) : Prop :=
  ent.cnx = some r.cnx ∧ ent.requestId = r.requestId ∧ ent.msgType = r.msgType

instance (ent : QueueEntry) (r : Reply) : Decidable (ent.IsFor r) :=
  inferInstanceAs (Decidable (_ ∧ _ ∧ _))

theorem QueueEntry.answers_iff {ent : QueueEntry} {r : Reply} :
    ent.answers r = true ↔ ent.requestId = r.requestId ∧ ent.msgType = r.msgType := by
  simp [QueueEntry.answers]

theorem QueueEntry.IsFor.answers {ent : QueueEntry} {r : Reply} (h : ent.IsFor r) :
    ent.answers r = true :=
  QueueEntry.answers_iff.mpr h.2

/-- `CORBA_SYSTEM_EXCEPTION` -/
def systemException : Nat := 2

namespace ReplyQueue

def empty : ReplyQueue := ⟨[], [], 0, 0, [], []⟩

/-- `giop_recv_list_setup_queue_entry` -/
def setup (q : ReplyQueue) (cnx : Nat) (msgType : MsgType) (requestId : Nat) : ReplyQueue :=
  { q with
    queued := ⟨q.entries, some cnx, msgType, requestId, none⟩ :: q.queued
    entries := q.entries + 1 }

/-- `giop_recv_list_destroy_queue_entry`; `g_list_remove` of what is not there does
nothing. -/
def destroy (q : ReplyQueue) (key : Nat) : ReplyQueue :=
  { q with
    queued := q.queued.eraseP (·.key = key)
    removed := ((q.queued.find? (·.key = key)).map QueueEntry.destroy).toList ++
      q.removed.map fun ent => if ent.key = key then ent.destroy else ent }

/-- `giop_recv_list_zap` -/
def zap (q : ReplyQueue) (cnx : Nat) : ReplyQueue :=
  let zapped := q.queued.filter (·.cnx = some cnx)
  { q with
    queued := q.queued.filter (·.cnx ≠ some cnx)
    removed := (zapped.map fun ent => { ent.destroy with buffer := none }) ++ q.removed
    released := zapped.filterMap (·.buffer) ++ q.released }

/-- `handle_reply`; TRUE is an error. -/
def handleReply (q : ReplyQueue) (r : Reply) : ReplyQueue × Bool :=
  let buf := q.buffers
  let q := { q with buffers := buf + 1 }
  match q.queued.find? (·.answers r) with
  | none => ({ q with released := buf :: q.released }, r.status ≠ systemException)
  | some ent =>
      if ent.cnx ≠ some r.cnx then ({ q with released := buf :: q.released }, true)
      else
        ({ q with
            queued := q.queued.eraseP (·.answers r)
            removed := { ent with buffer := some buf } :: q.removed
            stored := ⟨ent, r, buf⟩ :: q.stored }, false)

end ReplyQueue

inductive QueueOp where
  | setup (cnx : Nat) (msgType : MsgType) (requestId : Nat)
  | reply (r : Reply)
  | zap (cnx : Nat)
  | destroy (key : Nat)
  deriving DecidableEq, Repr

namespace ReplyQueue

def step (q : ReplyQueue) : QueueOp → ReplyQueue
  | .setup cnx msgType requestId => q.setup cnx msgType requestId
  | .reply r => (q.handleReply r).1
  | .zap cnx => q.zap cnx
  | .destroy key => q.destroy key

/-- Nothing was mixed up, whatever happened: every reply is with an entry registered for
it, no entry got two, every entry is on the list or was taken off it once, and every
buffer was either delivered or released, once. -/
structure Safe (q : ReplyQueue) : Prop where
  isFor : ∀ s ∈ q.stored, s.entry.IsFor s.reply
  once : (q.stored.map (·.entry.key)).Nodup
  removed : ((q.removed ++ q.queued).map (·.key)).Perm (List.range q.entries)
  buffers : (q.stored.map (·.buffer) ++ q.released).Perm (List.range q.buffers)

/-- An operation stores a reply in an entry that is on the list only. -/
def StoresQueued (q : ReplyQueue) (op : QueueOp) : Prop :=
  ∀ s ∈ (q.step op).stored, s ∈ q.stored ∨ s.entry ∈ q.queued

/-- A reply that an entry is registered for is stored in such an entry. -/
def Delivers (q : ReplyQueue) : QueueOp → Prop
  | .reply r => (∃ ent ∈ q.queued, ent.IsFor r) →
      ∃ ent ∈ q.queued, ent.IsFor r ∧ ⟨ent, r, q.buffers⟩ ∈ (q.step (.reply r)).stored
  | _ => True

/-- Of the entries that wait for the request id and the type of a reply, the one set up
last is for the connection it came in on, if any of them is. -/
def LatestIsFor (q : ReplyQueue) : QueueOp → Prop
  | .reply r => (∃ ent ∈ q.queued, ent.IsFor r) →
      ∃ ent ∈ q.queued, ent.IsFor r ∧
        ∀ other ∈ q.queued, other.answers r = true → other.key ≤ ent.key
  | _ => True

instance (q : ReplyQueue) (op : QueueOp) : Decidable (q.Delivers op) := by
  cases op <;> unfold Delivers <;> infer_instance

instance (q : ReplyQueue) (op : QueueOp) : Decidable (q.LatestIsFor op) := by
  cases op <;> unfold LatestIsFor <;> infer_instance

/-- What every operation keeps. -/
structure Kept (q : ReplyQueue) : Prop where
  safe : q.Safe
  ordered : q.queued.Pairwise (·.key > ·.key)
  idle : ∀ ent ∈ q.queued, ent.buffer = none
  taken : ∀ s ∈ q.stored, s.entry.key ∈ q.removed.map (·.key)
  filled : ∀ ent ∈ q.removed, ∀ buf, ent.buffer = some buf →
    ∃ s ∈ q.stored, s.entry.key = ent.key ∧ s.buffer = buf

section
variable {q : ReplyQueue}

theorem empty_kept : empty.Kept := by
  constructor
  · constructor <;> simp [empty]
  all_goals simp [empty]

theorem Kept.key_lt (h : q.Kept) {ent : QueueEntry} (he : ent ∈ q.queued) : ent.key < q.entries := by
  have hmem : ent.key ∈ (q.removed ++ q.queued).map (·.key) :=
    List.mem_map_of_mem (List.mem_append_right _ he)
  exact List.mem_range.mp (h.safe.removed.subset hmem)

theorem Kept.eq_of_key (h : q.Kept) {ent other : QueueEntry} (he : ent ∈ q.queued)
    (ho : other ∈ q.queued) (hk : ent.key = other.key) : ent = other := by
  have hn : (q.queued.map (·.key)).Nodup :=
    List.pairwise_map.mpr (h.ordered.imp fun hlt => Nat.ne_of_gt hlt)
  exact List.inj_on_of_nodup_map hn he ho hk

theorem Kept.not_taken (h : q.Kept) {ent : QueueEntry} (he : ent ∈ q.queued) :
    ent.key ∉ q.stored.map (·.entry.key) := by
  intro hm
  obtain ⟨s, hs, hk⟩ := List.mem_map.mp hm
  have hn : ((q.removed ++ q.queued).map (·.key)).Nodup :=
    h.safe.removed.symm.nodup List.nodup_range
  rw [List.map_append, List.nodup_append] at hn
  exact hn.2.2 _ (h.taken s hs) _ (List.mem_map_of_mem he) hk

theorem setup_kept (h : q.Kept) (cnx : Nat) (msgType : MsgType) (requestId : Nat) :
    (q.setup cnx msgType requestId).Kept := by
  refine ⟨⟨h.safe.isFor, h.safe.once, ?_, h.safe.buffers⟩, ?_, ?_, h.taken, h.filled⟩
  · simp only [setup, List.map_append, List.map_cons, List.range_succ]
    have hold := h.safe.removed
    rw [List.map_append] at hold
    exact List.perm_middle.trans ((hold.cons _).trans (List.perm_append_singleton _ _).symm)
  · simp only [setup, List.pairwise_cons]
    exact ⟨fun ent he => h.key_lt he, h.ordered⟩
  · simp only [setup, List.forall_mem_cons]
    exact ⟨trivial, h.idle⟩

/-- One link leaves the list, with the entry behind it changed or not. -/
theorem removed_perm {p : QueueEntry → Bool} {ent ent' : QueueEntry} (hkey : ent'.key = ent.key)
    (hf : q.queued.find? p = some ent) :
    ((ent' :: q.removed ++ q.queued.eraseP p).map (·.key)).Perm
      ((q.removed ++ q.queued).map (·.key)) := by
  obtain ⟨hp, before, after, hq, hb⟩ := List.find?_eq_some_iff_append.mp hf
  have herase : q.queued.eraseP p = before ++ after := by
    rw [hq, List.eraseP_append_right _ (by simpa using hb), List.eraseP_cons_of_pos hp]
  rw [herase, hq]
  simp only [List.map_append, List.map_cons, List.cons_append, hkey]
  rw [← List.append_assoc, ← List.append_assoc]
  exact List.perm_middle.symm

theorem find?_none_eraseP {p : QueueEntry → Bool} (hf : q.queued.find? p = none) :
    q.queued.eraseP p = q.queued :=
  List.eraseP_of_forall_not fun ent he => by simpa using List.find?_eq_none.mp hf ent he

theorem destroy_kept (h : q.Kept) (key : Nat) : (q.destroy key).Kept := by
  have hkeys : (q.removed.map fun ent => if ent.key = key then ent.destroy else ent).map (·.key) =
      q.removed.map (·.key) := by
    rw [List.map_map]
    refine List.map_congr_left fun ent _ => ?_
    by_cases he : ent.key = key <;> simp [he, QueueEntry.destroy]
  have hsub : (q.queued.eraseP (·.key = key)).Sublist q.queued := List.eraseP_sublist
  refine ⟨⟨h.safe.isFor, h.safe.once, ?_, h.safe.buffers⟩, h.ordered.sublist hsub,
    fun ent he => h.idle ent (hsub.subset he), fun s hs => ?_, ?_⟩
  · refine List.Perm.trans ?_ h.safe.removed
    cases hf : q.queued.find? (·.key = key) with
    | none => simp [destroy, hf, find?_none_eraseP hf, hkeys]
    | some ent =>
      have hp := @removed_perm _ _ ent ent.destroy rfl hf
      simp only [destroy, hf, Option.map_some, Option.toList_some, List.map_append, hkeys,
        List.map_cons, List.cons_append, List.nil_append] at hp ⊢
      exact hp
  · have hm := h.taken s hs
    simp only [destroy, List.map_append, hkeys]
    exact List.mem_append_right _ hm
  · intro ent he buf hb
    rcases List.mem_append.mp he with he | he
    · obtain ⟨ent', hf, rfl⟩ : ∃ ent', q.queued.find? (·.key = key) = some ent' ∧
          ent'.destroy = ent := by simpa using he
      have hidle := h.idle ent' (List.mem_of_find?_eq_some hf)
      simp [QueueEntry.destroy, hidle] at hb
    · obtain ⟨ent', hm, rfl⟩ := List.mem_map.mp he
      by_cases hk : ent'.key = key
      · simp only [hk, if_true, QueueEntry.destroy] at hb ⊢
        exact hk ▸ h.filled ent' hm buf hb
      · simp only [hk, if_false] at hb ⊢
        exact h.filled ent' hm buf hb

theorem zap_kept (h : q.Kept) (cnx : Nat) : (q.zap cnx).Kept := by
  have hnone : (q.queued.filter (·.cnx = some cnx)).filterMap (·.buffer) = [] := by
    rw [List.filterMap_eq_nil_iff]
    exact fun ent he => h.idle ent (List.mem_of_mem_filter he)
  have hsub : (q.queued.filter (·.cnx ≠ some cnx)).Sublist q.queued := List.filter_sublist
  refine ⟨⟨h.safe.isFor, h.safe.once, ?_, ?_⟩, h.ordered.sublist hsub,
    fun ent he => h.idle ent (hsub.subset he), fun s hs => ?_, ?_⟩
  · have hsplit := List.filter_append_perm (fun ent : QueueEntry => ent.cnx = some cnx) q.queued
    refine List.Perm.trans ?_ h.safe.removed
    simp only [zap, List.map_append, List.map_map]
    refine (List.perm_append_comm.append_right _).trans ?_
    rw [List.append_assoc]
    refine List.Perm.append_left _ ?_
    have hmap := hsplit.map (·.key)
    rw [List.map_append] at hmap
    simpa [Function.comp_def, QueueEntry.destroy] using hmap
  · simpa [zap, hnone] using h.safe.buffers
  · simp only [zap, List.map_append]
    exact List.mem_append_right _ (h.taken s hs)
  · intro ent he buf hb
    rcases List.mem_append.mp he with he | he
    · obtain ⟨ent', -, rfl⟩ := List.mem_map.mp he
      cases hb
    · exact h.filled ent he buf hb

/-- Everything `handle_reply` can do. -/
inductive ReplyCase (q : ReplyQueue) (r : Reply) : ReplyQueue × Bool → Prop
  | unexpected : (∀ ent ∈ q.queued, ent.answers r = false) →
      ReplyCase q r ({ q with buffers := q.buffers + 1, released := q.buffers :: q.released },
        r.status ≠ systemException)
  | bogus {ent : QueueEntry} : q.queued.find? (·.answers r) = some ent → ent.cnx ≠ some r.cnx →
      ReplyCase q r ({ q with buffers := q.buffers + 1, released := q.buffers :: q.released }, true)
  | stored {ent : QueueEntry} : q.queued.find? (·.answers r) = some ent → ent.IsFor r →
      ReplyCase q r ({ q with
        queued := q.queued.eraseP (·.answers r)
        removed := { ent with buffer := some q.buffers } :: q.removed
        buffers := q.buffers + 1
        stored := ⟨ent, r, q.buffers⟩ :: q.stored }, false)

theorem handleReply_cases (q : ReplyQueue) (r : Reply) : ReplyCase q r (q.handleReply r) := by
  unfold handleReply
  cases hf : q.queued.find? (·.answers r) with
  | none =>
    simp only [hf]
    exact .unexpected fun ent he => by simpa using List.find?_eq_none.mp hf ent he
  | some ent =>
    simp only [hf]
    by_cases hc : ent.cnx ≠ some r.cnx
    · rw [if_pos hc]
      exact .bogus hf hc
    · rw [if_neg hc]
      have ha : ent.answers r = true := by simpa using List.find?_some hf
      exact .stored hf ⟨not_not.mp hc, QueueEntry.answers_iff.mp ha⟩

/-- The entry that the search finds was set up after all others it could have found. -/
theorem Kept.latest (h : q.Kept) {r : Reply} {ent : QueueEntry}
    (hf : q.queued.find? (·.answers r) = some ent) {other : QueueEntry} (ho : other ∈ q.queued)
    (ha : other.answers r = true) : other.key ≤ ent.key := by
  obtain ⟨-, before, after, hq, hb⟩ := List.find?_eq_some_iff_append.mp hf
  have hord := h.ordered
  rw [hq, List.pairwise_append] at hord
  rw [hq] at ho
  rcases List.mem_append.mp ho with hm | hm
  · have hno := hb other hm
    simp [ha] at hno
  rcases List.mem_cons.mp hm with rfl | hm
  · exact Nat.le_refl _
  · exact Nat.le_of_lt ((List.pairwise_cons.mp hord.2.1).1 other hm)

theorem handleReply_kept (h : q.Kept) (r : Reply) : (q.handleReply r).1.Kept := by
  have hcase := handleReply_cases q r
  have hreleased : (q.stored.map (·.buffer) ++ q.buffers :: q.released).Perm
      (List.range (q.buffers + 1)) := by
    rw [List.range_succ]
    exact List.perm_middle.trans ((h.safe.buffers.cons _).trans (List.perm_append_singleton _ _).symm)
  generalize q.handleReply r = p at hcase ⊢
  cases hcase with
  | unexpected hno =>
    exact ⟨⟨h.safe.isFor, h.safe.once, h.safe.removed, hreleased⟩, h.ordered, h.idle, h.taken,
      h.filled⟩
  | bogus hf hc =>
    exact ⟨⟨h.safe.isFor, h.safe.once, h.safe.removed, hreleased⟩, h.ordered, h.idle, h.taken,
      h.filled⟩
  | @stored ent hf hfor =>
    have hmem : ent ∈ q.queued := List.mem_of_find?_eq_some hf
    have hsub : (q.queued.eraseP (·.answers r)).Sublist q.queued := List.eraseP_sublist
    refine ⟨⟨?_, ?_, ?_, ?_⟩, h.ordered.sublist hsub, fun ent he => h.idle ent (hsub.subset he),
      ?_, ?_⟩
    · rw [List.forall_mem_cons]
      exact ⟨hfor, h.safe.isFor⟩
    · rw [List.map_cons, List.nodup_cons]
      exact ⟨h.not_taken hmem, h.safe.once⟩
    · exact (removed_perm rfl hf).trans h.safe.removed
    · rw [List.range_succ]
      exact (h.safe.buffers.cons _).trans (List.perm_append_singleton _ _).symm
    · rw [List.forall_mem_cons]
      refine ⟨by simp, fun s hs => ?_⟩
      rw [List.map_cons]
      exact List.mem_cons_of_mem _ (h.taken s hs)
    · rw [List.forall_mem_cons]
      refine ⟨?_, fun other ho buf hb => ?_⟩
      · rintro buf ⟨⟩
        exact ⟨_, List.mem_cons_self .., rfl, rfl⟩
      · obtain ⟨s, hs, hk⟩ := h.filled other ho buf hb
        exact ⟨s, List.mem_cons_of_mem _ hs, hk⟩

theorem step_kept (h : q.Kept) (op : QueueOp) : (q.step op).Kept := by
  cases op with
  | setup cnx msgType requestId => exact setup_kept h cnx msgType requestId
  | reply r => exact handleReply_kept h r
  | zap cnx => exact zap_kept h cnx
  | destroy key => exact destroy_kept h key

theorem step_storesQueued (q : ReplyQueue) (op : QueueOp) : q.StoresQueued op := by
  intro s hs
  cases op with
  | setup | zap | destroy => exact .inl hs
  | reply r =>
    have hcase := handleReply_cases q r
    simp only [step] at hs
    generalize q.handleReply r = p at hcase hs
    cases hcase with
    | unexpected | bogus => exact .inl hs
    | stored hf hfor =>
      rcases List.mem_cons.mp hs with rfl | hs
      · exact .inr (List.mem_of_find?_eq_some hf)
      · exact .inl hs

/-- A reply reaches an entry registered for it if and only if no connection registered
one for the same id and type later. -/
theorem delivers_iff (h : q.Kept) (op : QueueOp) : q.Delivers op ↔ q.LatestIsFor op := by
  cases op with
  | setup | zap | destroy => exact Iff.rfl
  | reply r =>
    simp only [Delivers, LatestIsFor, step]
    refine forall_congr' fun ⟨own, hown, hfor⟩ => ?_
    have hnew : ∀ s ∈ q.stored, s.buffer < q.buffers := by
      intro s hs
      have hm := h.safe.buffers.subset (List.mem_append_left _ (List.mem_map_of_mem hs))
      exact List.mem_range.mp hm
    have hcase := handleReply_cases q r
    generalize q.handleReply r = p at hcase ⊢
    cases hcase with
    | unexpected hno =>
      have hn := hno own hown
      rw [QueueEntry.IsFor.answers hfor] at hn
      cases hn
    | @bogus ent hf hc =>
      have hent := List.mem_of_find?_eq_some hf
      constructor
      · rintro ⟨x, hx, -, hs⟩
        exact absurd (hnew _ hs) (Nat.lt_irrefl _)
      · rintro ⟨x, hx, hxfor, hlast⟩
        have hle := h.latest hf hx (QueueEntry.IsFor.answers hxfor)
        have ha : ent.answers r = true := by simpa using List.find?_some hf
        have heq := h.eq_of_key hx hent (Nat.le_antisymm hle (hlast ent hent ha))
        exact absurd hxfor.1 (heq ▸ hc)
    | @stored ent hf hfor' =>
      have hent := List.mem_of_find?_eq_some hf
      constructor
      · intro _
        exact ⟨ent, hent, hfor', fun other ho ha => h.latest hf ho ha⟩
      · intro _
        exact ⟨ent, hent, hfor', List.mem_cons_self ..⟩

end

end ReplyQueue
end ORBit2
