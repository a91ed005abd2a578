import ORBit2.ByteStream

/-! `write_data_T` against any answers of the kernel, with its batches and its count, which is an
`int`. -/

set_option autoImplicit false

namespace ORBit2.Link.Progress

inductive Errno where
  | eintr
  | eagain
  | ebadf
  | other
  deriving DecidableEq, Repr

/-- What `writev` comes back with; `errno` is left as it was when it succeeds. -/
inductive Answer where
  | wrote (count : Nat) (errno : Errno)
  | failed (errno : Errno)
  deriving DecidableEq, Repr

/-- The answer to the n-th call, for the vectors that are offered. -/
abbrev Kernel : Type := Nat → List (List UInt8) → Answer

inductive Outcome where
  | returned (status : IOStatus) (sent : List UInt8) (rest : List (List UInt8))
  /-- An iovec behind the last one is looked at. -/
  | wild
  deriving DecidableEq, Repr

/-- `n`, which is an `int`. -/
def Answer.count : Answer → Int
  | .wrote count _ => (count : Int).bmod (2^32)
  | .failed _ => -1

def Answer.errno : Answer → Errno
  | .wrote _ errno => errno
  | .failed errno => errno

/-- The bytes that the kernel has taken. -/
def Answer.taken (offered : List (List UInt8)) : Answer → List UInt8
  | .wrote count _ => offered.flatten.take count
  | .failed _ => []

/-- The loop over the vectors that are written, and what comes behind it. -/
def consume : Nat → List (List UInt8) → Option (List (List UInt8))
  | n, [] => if n = 0 then some [] else none
  | n, vec :: vecs =>
      if vec.length ≤ n then consume (n - vec.length) vecs
      else if n = 0 then some (vec :: vecs)
      else some (vec.drop n :: vecs)

/-- The loop of `write_data_T`, for so many turns; `i` counts the calls, and `sent` what the kernel
has. A call that is interrupted is made again. -/
def turns (iovMax : Nat) (nonblocking : Bool) (kernel : Kernel) :
    Nat → Nat → List (List UInt8) → Nat → List UInt8 → Option Outcome
  | 0, _, _, _, _ => none
  | fuel+1, i, vecs, bytesWritten, sent =>
      if goesOn vecs then
        let offered := vecs.take iovMax
        let answer := kernel i offered
        let sent := sent ++ answer.taken offered
        if answer.count < 0 then
          match answer.errno with
          | .eintr => turns iovMax nonblocking kernel fuel (i+1) vecs bytesWritten sent
          | .eagain =>
              if nonblocking then some (.returned .queuedData sent vecs)
              else some (.returned .fatalError sent vecs)
          | .ebadf | .other => some (.returned .fatalError sent vecs)
        else if answer.count = 0 then some (.returned .fatalError sent vecs)
        else
          match consume answer.count.toNat vecs with
          | none => some .wild
          | some rest =>
              turns iovMax nonblocking kernel fuel (i+1) rest (bytesWritten + answer.count.toNat) sent
      else some (.returned (.ok bytesWritten) sent vecs)

/-- `write_data_T` -/
def writeDataT (iovMax : Nat) (status : Status) (nonblocking : Bool) (kernel : Kernel) (fuel : Nat)
    (vecs : List (List UInt8)) : Option Outcome :=
  if status ≠ .connected then some (.returned .fatalError [] vecs)
  else turns iovMax nonblocking kernel fuel 0 vecs 0 []

/-- A kernel takes a byte at least, and none that is not offered; and it does not let itself be
interrupted for ever. -/
structure Kernel.Fair (kernel : Kernel) : Prop where
  counts : ∀ i offered count errno, kernel i offered = .wrote count errno →
    0 < count ∧ count ≤ offered.flatten.length
  goes : ∀ i, ∃ j, i ≤ j ∧ ∀ offered, kernel j offered ≠ .failed .eintr

/-- What has been written and what is left are what there was, and a count says that all is written. -/
def Outcome.Exact (vecs : List (List UInt8)) : Outcome → Prop
  | .wild => False
  | .returned .queuedData sent rest => sent ++ rest.flatten = vecs.flatten
  | .returned (.ok count) sent _ => sent = vecs.flatten ∧ count = vecs.flatten.length
  | .returned .fatalError _ _ => True

/-- No batch has as many bytes as an `int` does not hold. -/
def Handy (iovMax : Nat) (vecs : List (List UInt8)) : Prop :=
  ∀ i, ((vecs.drop i).take iovMax).flatten.length < 2^31

theorem consume_eq {n : Nat} {vecs : List (List UInt8)} (h : n ≤ vecs.flatten.length) :
    consume n vecs = some (advance n vecs) := by
  induction vecs generalizing n with
  | nil =>
    rw [List.flatten_nil, List.length_nil] at h
    rw [consume, if_pos (by omega), advance]
  | cons vec vecs ih =>
    rw [List.flatten_cons, List.length_append] at h
    rw [consume, advance]
    by_cases hle : vec.length ≤ n
    · rw [if_pos hle, if_pos hle]
      exact ih (by omega)
    · rw [if_neg hle, if_neg hle]
      split
      · rename_i h0
        rw [h0, List.drop_zero]
      · rfl

section
variable {iovMax : Nat} {vec : List UInt8} {vecs : List (List UInt8)}

theorem Handy.tail (h : Handy iovMax (vec :: vecs)) : Handy iovMax vecs := fun i => h (i + 1)

/-- A shorter first vector makes the batches no larger. -/
theorem Handy.shorten (h : Handy iovMax (vec :: vecs)) (n : Nat) :
    Handy iovMax (vec.drop n :: vecs) := by
  intro i
  cases i with
  | zero =>
    have hfirst := h 0
    cases iovMax with
    | zero => exact hfirst
    | succ iovMax =>
      simp only [List.drop_zero, List.take_succ_cons, List.flatten_cons, List.length_append,
        List.length_drop] at hfirst ⊢
      omega
  | succ i => exact h (i + 1)

theorem Handy.advance (h : Handy iovMax vecs) (n : Nat) : Handy iovMax (advance n vecs) := by
  induction vecs generalizing n with
  | nil => exact h
  | cons vec vecs ih =>
    rw [Link.advance]
    split
    · exact ih h.tail _
    · exact h.shorten n

theorem length_offered_le (iovMax : Nat) (vecs : List (List UInt8)) :
    (vecs.take iovMax).flatten.length ≤ vecs.flatten.length := by
  have h := congrArg (fun vs : List (List UInt8) => vs.flatten.length) (List.take_append_drop iovMax vecs)
  simp only [List.flatten_append, List.length_append] at h
  omega

/-- The bytes that are taken are the next ones. -/
theorem take_offered {n : Nat} (h : n ≤ (vecs.take iovMax).flatten.length) :
    (vecs.take iovMax).flatten.take n = vecs.flatten.take n := by
  have hsplit := congrArg List.flatten (List.take_append_drop iovMax vecs)
  rw [List.flatten_append] at hsplit
  rw [← hsplit, List.take_append_of_le_length h]

theorem count_of_lt {n : Nat} (h : n < 2^31) (errno : Errno) : (Answer.wrote n errno).count = n := by
  have hbmod : (n : Int).bmod (2^32) = n := Int.bmod_eq_of_le (by omega) (by omega)
  exact hbmod

/-- The loop is over, or the kernel is asked again. -/
theorem turns_done {nonblocking : Bool} {kernel : Kernel} {vecs : List (List UInt8)} (i : Nat)
    (sent : List UInt8) (h : goesOn vecs = false) :
    turns iovMax nonblocking kernel 1 i vecs sent.length sent =
      some (.returned (.ok sent.length) sent vecs) := by
  simp [turns, h]

theorem turns_wrote {nonblocking : Bool} {kernel : Kernel} {i count : Nat} {errno : Errno}
    (bytesWritten : Nat) (sent : List UInt8) (hgo : goesOn vecs = true)
    (hanswer : kernel i (vecs.take iovMax) = .wrote count errno) (hpos : 0 < count)
    (hle : count ≤ (vecs.take iovMax).flatten.length) (hlt : count < 2^31) (fuel : Nat) :
    turns iovMax nonblocking kernel (fuel + 1) i vecs bytesWritten sent =
      turns iovMax nonblocking kernel fuel (i+1) (advance count vecs) (bytesWritten + count)
        (sent ++ vecs.flatten.take count) := by
  have hcount := count_of_lt hlt errno
  have htotal := Nat.le_trans hle (length_offered_le iovMax vecs)
  rw [turns, if_pos hgo]
  simp only [hanswer, hcount, Answer.taken, take_offered hle, Int.toNat_natCast, consume_eq htotal]
  rw [if_neg (by omega), if_neg (by omega)]

theorem count_failed (errno : Errno) : (Answer.failed errno).count = -1 := rfl

/-- What a failure does. -/
theorem turns_failed {nonblocking : Bool} {kernel : Kernel} {i : Nat} {errno : Errno}
    (sent : List UInt8) (hgo : goesOn vecs = true) (fuel : Nat) :
    kernel i (vecs.take iovMax) = .failed errno →
    turns iovMax nonblocking kernel (fuel + 1) i vecs sent.length sent =
      match errno with
      | .eintr => turns iovMax nonblocking kernel fuel (i+1) vecs sent.length sent
      | .eagain =>
          if nonblocking then some (.returned .queuedData sent vecs)
          else some (.returned .fatalError sent vecs)
      | .ebadf | .other => some (.returned .fatalError sent vecs) := by
  intro hanswer
  rw [turns, if_pos hgo]
  dsimp only
  rw [hanswer, count_failed, if_pos (by decide)]
  simp only [Answer.errno, Answer.taken, List.append_nil]

/-- The loop comes to its end, as it should, if the batches are handy: the bytes that are left become
fewer, and between two answers there are only so many interruptions. -/
theorem turns_exact {nonblocking : Bool} {kernel : Kernel} (hk : kernel.Fair)
    {original : List (List UInt8)} (i : Nat) (vecs : List (List UInt8)) (sent : List UInt8)
    (hhandy : Handy iovMax vecs) (hsettled : goesOn vecs = true ∨ vecs.flatten = [])
    (hsent : sent ++ vecs.flatten = original.flatten) :
    ∃ fuel o, turns iovMax nonblocking kernel fuel i vecs sent.length sent = some o ∧
      o.Exact original := by
  induction hm : vecs.flatten.length using Nat.strongRecOn generalizing i vecs sent with
  | ind m ih =>
    cases hgo : goesOn vecs with
    | false =>
      refine ⟨1, _, turns_done i sent hgo, ?_⟩
      have hnil : vecs.flatten = [] := hsettled.resolve_left (by rw [hgo]; exact Bool.false_ne_true)
      rw [hnil, List.append_nil] at hsent
      exact ⟨hsent, congrArg List.length hsent⟩
    | true =>
      -- an answer ends the loop, or makes the rest shorter
      have hanswered : ∀ i, kernel i (vecs.take iovMax) ≠ .failed .eintr →
          ∃ fuel o, turns iovMax nonblocking kernel fuel i vecs sent.length sent = some o ∧
            o.Exact original := by
        intro i hne
        cases hanswer : kernel i (vecs.take iovMax) with
        | wrote count errno =>
          obtain ⟨hpos, hle⟩ := hk.counts i _ count errno hanswer
          have hlt : count < 2^31 := by
            have hbatch := hhandy 0
            rw [List.drop_zero] at hbatch
            omega
          have htotal := Nat.le_trans hle (length_offered_le iovMax vecs)
          have hrest : (advance count vecs).flatten = vecs.flatten.drop count := flatten_advance count vecs
          have hlen : (advance count vecs).flatten.length < m := by
            rw [hrest, List.length_drop]
            omega
          have hnext : goesOn (advance count vecs) = true ∨ (advance count vecs).flatten = [] := by
            rcases advance_settled count vecs with hnil | hgo
            · rw [hnil]
              exact .inr rfl
            · exact .inl hgo
          have hbytes : sent ++ vecs.flatten.take count ++ (advance count vecs).flatten =
              original.flatten := by
            rw [hrest, List.append_assoc, List.take_append_drop, hsent]
          have hsum : (sent ++ vecs.flatten.take count).length = sent.length + count := by
            rw [List.length_append, List.length_take, Nat.min_eq_left htotal]
          obtain ⟨fuel, o, hrun, ho⟩ :=
            ih _ hlen (i+1) (advance count vecs) (sent ++ vecs.flatten.take count)
              (hhandy.advance count) hnext hbytes rfl
          rw [hsum] at hrun
          exact ⟨fuel + 1, o, (turns_wrote _ sent hgo hanswer hpos hle hlt fuel).trans hrun, ho⟩
        | failed errno =>
          cases errno with
          | eintr => exact absurd hanswer hne
          | eagain =>
            cases nonblocking with
            | true => exact ⟨1, _, turns_failed sent hgo 0 hanswer, hsent⟩
            | false => exact ⟨1, _, turns_failed sent hgo 0 hanswer, trivial⟩
          | ebadf => exact ⟨1, _, turns_failed sent hgo 0 hanswer, trivial⟩
          | other => exact ⟨1, _, turns_failed sent hgo 0 hanswer, trivial⟩
      obtain ⟨j, hij, hj⟩ := hk.goes i
      induction hd : j - i generalizing i with
      | zero =>
        have hi : i = j := by omega
        exact hanswered i (hi ▸ hj _)
      | succ d ihd =>
        by_cases heintr : kernel i (vecs.take iovMax) = .failed .eintr
        · obtain ⟨fuel, o, hrun, ho⟩ := ihd (i+1) (by omega) (by omega)
          exact ⟨fuel + 1, o, (turns_failed sent hgo fuel heintr).trans hrun, ho⟩
        · exact hanswered i heintr

end

/-- A kernel that takes 2^31 bytes where it can, and otherwise one vector. -/
def greedy : Kernel := fun _ offered =>
  if 2^31 ≤ offered.flatten.length then .wrote (2^31) .eintr
  else
    match offered with
    | [] => .failed .other
    | vec :: _ => if vec.length = 0 then .failed .other else .wrote vec.length .other

theorem fair_greedy : greedy.Fair where
  counts := by
    intro i offered count errno h
    unfold greedy at h
    split at h
    · cases h
      omega
    · split at h
      · cases h
      · split at h
        · cases h
        · cases h
          rw [List.flatten_cons, List.length_append]
          omega
  goes := by
    refine fun i => ⟨i, Nat.le_refl i, fun offered h => ?_⟩
    unfold greedy at h
    split at h
    · cases h
    · split at h
      · cases h
      · split at h
        · cases h
        · cases h

/-- Empty vectors in front make no batch larger. -/
theorem handy_of_advance_zero {iovMax : Nat} {vecs : List (List UInt8)}
    (h : Handy iovMax (advance 0 vecs)) : Handy iovMax vecs := by
  induction vecs with
  | nil => exact h
  | cons vec vecs ih =>
    rw [advance] at h
    by_cases hempty : vec.length ≤ 0
    · rw [if_pos hempty, Nat.zero_sub] at h
      have hrest := ih h
      intro i
      cases i with
      | succ i => exact hrest i
      | zero =>
        have hfirst := hrest 0
        cases iovMax with
        | zero => exact hfirst
        | succ iovMax =>
          have hle := length_offered_le iovMax (vecs.take (iovMax + 1))
          rw [List.take_take, Nat.min_eq_left (Nat.le_succ iovMax)] at hle
          rw [List.drop_zero] at hfirst
          rw [List.drop_zero, List.take_succ_cons, List.flatten_cons, List.length_append]
          omega
    · rw [if_neg hempty, List.drop_zero] at h
      exact h

/-- A batch with too many bytes is offered again and again. -/
theorem turns_greedy {iovMax : Nat} (nonblocking : Bool) (fuel i : Nat) {vecs : List (List UInt8)}
    (bytesWritten : Nat) (sent : List UInt8) (hgo : goesOn vecs = true) (h : ¬ Handy iovMax vecs) :
    turns iovMax nonblocking greedy fuel i vecs bytesWritten sent = none := by
  induction fuel generalizing i vecs bytesWritten sent with
  | zero => rfl
  | succ fuel ih =>
    by_cases hbig : 2^31 ≤ (vecs.take iovMax).flatten.length
    · have hanswer : greedy i (vecs.take iovMax) = .wrote (2^31) .eintr := if_pos hbig
      have hcount : (Answer.wrote (2^31) .eintr).count < 0 := by decide
      rw [turns, if_pos hgo]
      dsimp only
      rw [hanswer, if_pos hcount]
      exact ih (i+1) bytesWritten _ hgo h
    · cases vecs with
      | nil => cases hgo
      | cons vec vecs =>
        have hvec : 0 < vec.length := List.length_pos_of_ne_nil (by simpa [goesOn] using hgo)
        cases iovMax with
        | zero => exact absurd (fun i => by simp) h
        | succ iovMax =>
          have hanswer : greedy i ((vec :: vecs).take (iovMax + 1)) = .wrote vec.length .other := by
            unfold greedy
            rw [if_neg hbig, List.take_succ_cons]
            exact if_neg (by omega)
          have hle : vec.length ≤ ((vec :: vecs).take (iovMax + 1)).flatten.length := by
            rw [List.take_succ_cons, List.flatten_cons, List.length_append]
            omega
          have hadvance : advance vec.length (vec :: vecs) = advance 0 vecs := by
            rw [advance, if_pos (Nat.le_refl _), Nat.sub_self]
          rw [turns_wrote bytesWritten sent hgo hanswer hvec hle (by omega) fuel, hadvance]
          have hrest : ¬ Handy (iovMax + 1) (advance 0 vecs) := by
            intro hhandy
            refine h fun i => ?_
            cases i with
            | zero => exact Nat.lt_of_not_le hbig
            | succ i => exact handy_of_advance_zero hhandy i
          rcases advance_settled 0 vecs with hnil | hgo'
          · rw [hnil] at hrest
            exact absurd (fun i => by simp) hrest
          · exact ih (i+1) _ _ hgo' hrest

/-- The loop ends as it should, whatever the kernel does, if, and only if, there is nothing in front of
the first byte, and no batch has 2^31 bytes. -/
theorem writeDataT_exact_iff (iovMax : Nat) (status : Status) (nonblocking : Bool)
    (vecs : List (List UInt8)) :
    (∀ kernel : Kernel, kernel.Fair → ∃ fuel o,
        writeDataT iovMax status nonblocking kernel fuel vecs = some o ∧ o.Exact vecs) ↔
      (status = .connected → (goesOn vecs = true ∨ vecs.flatten = []) ∧ Handy iovMax vecs) := by
  by_cases hs : status = .connected
  · subst hs
    have hrun : ∀ kernel fuel, writeDataT iovMax .connected nonblocking kernel fuel vecs =
        turns iovMax nonblocking kernel fuel 0 vecs 0 [] := fun _ _ => rfl
    simp only [hrun, true_implies]
    constructor
    · intro h
      obtain ⟨fuel, o, ho, hexact⟩ := h greedy fair_greedy
      cases hgo : goesOn vecs with
      | true =>
        refine ⟨.inl rfl, ?_⟩
        by_contra hhandy
        rw [turns_greedy nonblocking fuel 0 0 [] hgo hhandy] at ho
        cases ho
      | false =>
        cases fuel with
        | zero => cases ho
        | succ fuel =>
          rw [turns, if_neg (by rw [hgo]; exact Bool.false_ne_true)] at ho
          cases ho
          have hnil : vecs.flatten = [] := hexact.1.symm
          have hempty : ∀ i, ((vecs.drop i).take iovMax).flatten = [] := by
            intro i
            rw [List.flatten_eq_nil_iff] at hnil ⊢
            exact fun vec hvec => hnil vec (List.mem_of_mem_drop (List.mem_of_mem_take hvec))
          refine ⟨.inr hnil, fun i => ?_⟩
          rw [hempty i]
          exact Nat.two_pow_pos 31
    · rintro ⟨hsettled, hhandy⟩ kernel hk
      exact turns_exact hk 0 vecs [] hhandy hsettled rfl
  · refine iff_of_true (fun kernel _ => ⟨0, .returned .fatalError [] vecs, if_pos hs, trivial⟩) ?_
    exact fun h => absurd h hs

/-- An empty vector in front of a byte. -/
theorem writeDataT_stops :
    writeDataT 1024 .connected true greedy 1 [[], [1]] = some (.returned (.ok 0) [] [[], [1]]) ∧
      ¬ (Outcome.returned (.ok 0) [] [[], [1]]).Exact [[], [1]] :=
  ⟨rfl, fun h => nomatch h.1⟩

end ORBit2.Link.Progress
