import ORBit2.OrbitOptions

/-! Options of an orbitrc file against the same ones of the command line. -/

set_option autoImplicit false

namespace ORBit2.Options
open Corbaloc

/-- `g_ascii_isspace` -/
def blank (c : UInt8) : Bool := c = 32 || c = 9 || c = 10 || c = 12 || c = 13

/-- `g_strchomp (g_strchug (str))` -/
def strip (str : Text) : Text := ((str.dropWhile blank).reverse.dropWhile blank).reverse

/-- What `fgets` gives of a file, 1023 bytes at a time, with what it has of the line. -/
def chunks (line : Text) : List UInt8 → List Text
  | [] => if line = [] then [] else [line]
  | c :: file =>
      if c = 10 ∨ line.length = 1022 then (line ++ [c]) :: chunks [] file else chunks (line ++ [c]) file

/-- One turn of the loop of `ORBit_option_rc_parse`. Of what `g_strsplit (line, "=", 3)` gives, the
third part is not used. -/
def rcLine (optionList : List ORBitOption) (bytes : List UInt8) : List Call :=
  let line := bytes.takeWhile (· ≠ 0)
  if line.head? = some 35 then []
  else if 61 ∈ line then
    match lookup optionList (strip (line.takeWhile (· ≠ 61))) with
    | none => []
    | some option => call option (strip ((line.dropWhile (· ≠ 61)).tail.takeWhile (· ≠ 61)))
  else []

/-- `ORBit_option_rc_parse` -/
def rcParse (optionList : List ORBitOption) (file : List UInt8) : List Call :=
  (chunks [] file).flatMap (rcLine optionList)

/-- The line `name=value`, and the argument `--name=value`. -/
def lineOf (name value : Text) : Text := name ++ 61 :: value

def argumentOf (name value : Text) : Text := 45 :: 45 :: lineOf name value

/-- A line of a file sets what the argument sets, whatever is before and behind it. -/
def Agree (optionList : List ORBitOption) (name value : Text) : Prop :=
  ∀ before behind : List UInt8, (before = [] ∨ before.getLast? = some 10) →
    (behind = [] ∨ behind.head? = some 10) → ∀ (prog : Text) (s : Settings),
    applyAll (rcParse optionList (before ++ lineOf name value ++ behind)) s =
      applyAll (rcParse optionList behind.tail)
        (applyAll (commandLineParse optionList [prog, argumentOf name value]).calls
          (applyAll (rcParse optionList before) s))

/-- A name that can be written in a file and behind dashes. -/
structure Writable (name : Text) : Prop where
  terminated : 0 ∉ name
  separated : 61 ∉ name
  line : 10 ∉ name
  stripped : strip name = name
  comment : name.head? ≠ some 35
  dashed : name.head? ≠ some 45

/-- A value without blanks at its ends, on one line. -/
structure Trimmed (value : Text) : Prop where
  terminated : 0 ∉ value
  line : 10 ∉ value
  stripped : strip value = value

section
variable {optionList : List ORBitOption} {name value : Text}

/-- A line ends its chunk. -/
theorem chunks_append (line : Text) (before file : List UInt8)
    (h : before = [] ∧ line = [] ∨ before.getLast? = some 10) :
    chunks line (before ++ file) = chunks line before ++ chunks [] file := by
  induction before generalizing line with
  | nil =>
    rcases h with ⟨-, rfl⟩ | h
    · rfl
    · cases h
  | cons c before ih =>
    rw [List.cons_append, chunks, chunks]
    by_cases hend : c = 10 ∨ line.length = 1022
    · rw [if_pos hend, if_pos hend, List.cons_append, ih []]
      cases before with
      | nil => exact .inl ⟨rfl, rfl⟩
      | cons c' before =>
        rcases h with ⟨h, -⟩ | h
        · cases h
        · exact .inr h
    · rw [if_neg hend, if_neg hend, ih (line ++ [c])]
      cases before with
      | nil =>
        rcases h with ⟨h, -⟩ | h
        · cases h
        · exact absurd (.inl (Option.some.inj h)) hend
      | cons c' before =>
        rcases h with ⟨h, -⟩ | h
        · cases h
        · exact .inr h

/-- Characters that are no newline stay in one chunk. -/
theorem chunks_line (line text file : Text) (h : 10 ∉ text) (hlen : line.length + text.length ≤ 1022) :
    chunks line (text ++ file) = chunks (line ++ text) file := by
  induction text generalizing line with
  | nil => rw [List.nil_append, List.append_nil]
  | cons c text ih =>
    rw [List.mem_cons, not_or] at h
    obtain ⟨hc, htext⟩ := h
    rw [List.length_cons] at hlen
    have hgo : ¬ (c = 10 ∨ line.length = 1022) := by
      rintro (heq | hfull)
      · exact hc heq.symm
      · omega
    rw [List.cons_append, chunks, if_neg hgo, ih (line ++ [c]) htext (by simp; omega),
      List.append_assoc, List.singleton_append]

theorem strip_sublist (str : Text) : (strip str).Sublist str := by
  rw [strip, ← List.reverse_sublist, List.reverse_reverse]
  exact (List.dropWhile_sublist _).trans (List.reverse_sublist.mpr (List.dropWhile_sublist _))

theorem strip_blank (str : Text) : strip (str ++ [10]) = strip str := by
  have hdrop : ((str ++ [10]).dropWhile blank).reverse.dropWhile blank =
      (str.dropWhile blank).reverse.dropWhile blank := by
    rw [List.dropWhile_append]
    cases hempty : (str.dropWhile blank).isEmpty with
    | true =>
      rw [if_pos rfl, List.isEmpty_iff.mp hempty]
      rfl
    | false =>
      rw [if_neg Bool.false_ne_true, List.reverse_append, List.reverse_singleton,
        List.singleton_append, List.dropWhile_cons_of_pos (by decide)]
  rw [strip, strip, hdrop]

theorem takeWhile_of_not_mem {c : UInt8} {text : Text} (h : c ∉ text) (rest : Text) :
    (text ++ c :: rest).takeWhile (· ≠ c) = text ∧ (text ++ c :: rest).dropWhile (· ≠ c) = c :: rest := by
  have hall : ∀ d ∈ text, (decide (d ≠ c)) = true := by
    intro d hd
    refine decide_eq_true ?_
    rintro rfl
    exact h hd
  constructor
  · rw [List.takeWhile_append_of_pos hall, List.takeWhile_cons_of_neg (by simp), List.append_nil]
  · rw [List.dropWhile_append_of_pos hall, List.dropWhile_cons_of_neg (by simp)]

theorem takeWhile_eq_self {c : UInt8} {text : Text} (h : c ∉ text) : text.takeWhile (· ≠ c) = text := by
  refine List.takeWhile_eq_self_iff.mpr fun d hd => decide_eq_true ?_
  rintro rfl
  exact h hd

/-- The first part of a value, with the newline behind it or without. -/
theorem strip_part {tail : Text} (ht : tail = [] ∨ tail = [10]) (value : Text) :
    strip ((value ++ tail).takeWhile (· ≠ 61)) = strip (value.takeWhile (· ≠ 61)) := by
  rcases ht with rfl | rfl
  · rw [List.append_nil]
  · by_cases hsep : 61 ∈ value
    · have hpart : (value.takeWhile (· ≠ 61)).length ≠ value.length := by
        intro hlen
        have hwhole := (List.takeWhile_prefix (p := (· ≠ 61)) (l := value)).eq_of_length hlen
        have hfirst := List.takeWhile_eq_self_iff.mp hwhole 61 hsep
        exact of_decide_eq_true hfirst rfl
      rw [List.takeWhile_append, if_neg hpart]
    · have hsep' : (61 : UInt8) ∉ value ++ [10] := by
        simp [hsep]
      rw [takeWhile_eq_self hsep', takeWhile_eq_self hsep, strip_blank]

variable (optionList) in
/-- What a line sets, with its newline or without. -/
theorem rcLine_lineOf (hn : Writable name) (hv : Trimmed value) {tail : Text}
    (ht : tail = [] ∨ tail = [10]) : rcLine optionList (lineOf name value ++ tail) =
      match lookup optionList name with
      | none => []
      | some option => call option (strip (value.takeWhile (· ≠ 61))) := by
  have htail : (0 : UInt8) ∉ tail := by
    rcases ht with rfl | rfl
    · exact List.not_mem_nil
    · decide
  have hline : lineOf name value ++ tail = name ++ 61 :: (value ++ tail) := by
    rw [lineOf, List.append_assoc, List.cons_append]
  have hzero : (0 : UInt8) ∉ name ++ 61 :: (value ++ tail) := by
    simp [hn.terminated, hv.terminated, htail]
  have hhead : (name ++ 61 :: (value ++ tail)).head? ≠ some 35 := by
    cases hname : name with
    | nil => exact fun h => by cases h
    | cons c rest =>
      have hcomment := hn.comment
      rw [hname] at hcomment
      exact hcomment
  obtain ⟨hkey, hrest⟩ := takeWhile_of_not_mem hn.separated (value ++ tail)
  simp only [rcLine, hline, takeWhile_eq_self hzero]
  rw [if_neg hhead, if_pos (List.mem_append_right _ List.mem_cons_self), hkey, hrest, hn.stripped,
    List.tail_cons, strip_part ht]

variable (optionList) in
/-- What an argument sets. -/
theorem calls_argumentOf (hn : Writable name) (hlen : (lineOf name value).length ≤ 1023) (prog : Text) :
    (commandLineParse optionList [prog, argumentOf name value]).calls =
      match lookup optionList name with
      | none => []
      | some option => if option.type = .none then [] else call option value := by
  have hcalls : (commandLineParse optionList [prog, argumentOf name value]).calls =
      (scan optionList none [argumentOf name value]).2 := rfl
  have hdash : dash (argumentOf name value) = true := rfl
  have hundashed : undashed (argumentOf name value) = lineOf name value := by
    have hhead : (lineOf name value).head? ≠ some 45 := by
      cases hname : name with
      | nil => exact fun h => by cases h
      | cons c rest =>
        have hdashed := hn.dashed
        rw [hname] at hdashed
        exact hdashed
    cases hline : lineOf name value with
    | nil => simp [lineOf] at hline
    | cons c rest =>
      rw [hline] at hhead
      have hc : c ≠ 45 := fun h => hhead (congrArg some h)
      rw [undashed, argumentOf, hline]
      simp [hc]
  obtain ⟨hkey, hrest⟩ := takeWhile_of_not_mem hn.separated value
  have hnamed : named optionList (argumentOf name value) =
      (lookup optionList name).map fun option => (option, some value) := by
    rw [named, hundashed, List.take_of_length_le hlen, reading, lineOf, hkey, hrest,
      if_pos (List.mem_append_right _ List.mem_cons_self), List.tail_cons]
  rw [hcalls]
  cases hfound : lookup optionList name with
  | none => simp [scan, hdash, hnamed, hfound]
  | some option =>
    by_cases ht : option.type = .none
    · simp [scan, hdash, hnamed, hfound, ht]
    · simp [scan, hdash, hnamed, hfound, ht]

/-- A text that fills a chunk. -/
theorem chunks_full {text : Text} (h : 10 ∉ text) (hlen : text.length = 1023) (file : Text) :
    chunks [] (text ++ file) = text :: chunks [] file := by
  obtain ⟨front, last, rfl⟩ : ∃ front last, text = front ++ [last] := by
    refine ⟨text.dropLast, text.getLast ?_, (List.dropLast_append_getLast _).symm⟩
    rintro rfl
    cases hlen
  have hfront : front.length = 1022 := by simpa using hlen
  have hline : (10 : UInt8) ∉ front := fun hmem => h (List.mem_append_left _ hmem)
  rw [List.append_assoc, chunks_line [] front _ hline (by simp [hfront]), List.nil_append,
    List.singleton_append, chunks, if_pos (.inr hfront)]

/-- A line sets the same whatever surrounds it. -/
theorem rcParse_line (hn : Writable name) (hv : Trimmed value)
    (hlen : (lineOf name value).length ≤ 1023) {before behind : List UInt8}
    (hbefore : before = [] ∨ before.getLast? = some 10) (hbehind : behind = [] ∨ behind.head? = some 10) :
    rcParse optionList (before ++ lineOf name value ++ behind) =
      rcParse optionList before ++ rcLine optionList (lineOf name value) ++
        rcParse optionList behind.tail := by
  have hnewline : (10 : UInt8) ∉ lineOf name value := by
    simp [lineOf, hn.line, hv.line]
  have hsame : rcLine optionList (lineOf name value ++ [10]) = rcLine optionList (lineOf name value) := by
    have hwith := rcLine_lineOf optionList hn hv (.inr rfl)
    have hwithout := rcLine_lineOf optionList hn hv (.inl rfl)
    rw [List.append_nil] at hwithout
    rw [hwith, hwithout]
  have hstart : before = [] ∧ ([] : Text) = [] ∨ before.getLast? = some 10 :=
    hbefore.imp (fun h => ⟨h, rfl⟩) id
  -- the line, which may fill its chunk, and what is behind it
  have hrest : rcParse optionList (lineOf name value ++ behind) =
      rcLine optionList (lineOf name value) ++ rcParse optionList behind.tail := by
    rw [rcParse]
    rcases Nat.lt_or_ge 1022 (lineOf name value).length with hfull | hfits
    · rw [chunks_full hnewline (by omega), List.flatMap_cons]
      rcases hbehind with rfl | hhead
      · rfl
      · obtain ⟨post, rfl⟩ := List.head?_eq_some_iff.mp hhead
        rfl
    · rw [chunks_line [] _ behind hnewline (by simpa using hfits), List.nil_append]
      rcases hbehind with rfl | hhead
      · rw [chunks, if_neg (by simp [lineOf]), List.flatMap_singleton]
        exact (List.append_nil _).symm
      · obtain ⟨post, rfl⟩ := List.head?_eq_some_iff.mp hhead
        rw [chunks, if_pos (.inl rfl), List.flatMap_cons, hsame]
        rfl
  rw [rcParse, List.append_assoc, chunks_append [] before _ hstart, List.flatMap_append]
  rw [rcParse] at hrest
  rw [hrest, ← List.append_assoc]
  rfl

theorem not_mem_part (value : Text) : 61 ∉ strip (value.takeWhile (· ≠ 61)) := by
  intro hmem
  have hfirst := List.mem_takeWhile_imp (p := (· ≠ 61)) ((strip_sublist _).subset hmem)
  exact of_decide_eq_true hfirst rfl

/-! Numbers end at the first character that belongs to none. -/

/-- The sign and the digits of a number. -/
def signed : Text → UInt8 × Text
  | 45 :: s => (45, s.takeWhile isdigit)
  | 43 :: s => (43, s.takeWhile isdigit)
  | s => (0, s.takeWhile isdigit)

def numeral (s : Text) : UInt8 × Text := signed (s.dropWhile isspace)

theorem takeWhile_append_stop {p : UInt8 → Bool} {tail : Text} (h : ∀ c, tail.head? = some c → p c = false)
    (text : Text) : (text ++ tail).takeWhile p = text.takeWhile p := by
  induction text with
  | nil =>
    cases tail with
    | nil => rfl
    | cons c tail => exact List.takeWhile_cons_of_neg (by simp [h c rfl])
  | cons c text ih =>
    cases hc : p c with
    | true => rw [List.cons_append, List.takeWhile_cons_of_pos hc, List.takeWhile_cons_of_pos hc, ih]
    | false => rw [List.cons_append, List.takeWhile_cons_of_neg (by simp [hc]),
        List.takeWhile_cons_of_neg (by simp [hc])]

theorem signed_append {tail : Text}
    (h : ∀ c, tail.head? = some c → isdigit c = false ∧ c ≠ 45 ∧ c ≠ 43) (text : Text) :
    signed (text ++ tail) = signed text := by
  have hstop := takeWhile_append_stop fun c hc => (h c hc).1
  cases text with
  | nil =>
    cases tail with
    | nil => rfl
    | cons c tail =>
      obtain ⟨hdigit, hminus, hplus⟩ := h c rfl
      simp [signed, hminus, hplus, hdigit]
  | cons c text =>
    by_cases hminus : c = 45
    · subst hminus
      exact congrArg (Prod.mk 45) (hstop text)
    by_cases hplus : c = 43
    · subst hplus
      exact congrArg (Prod.mk 43) (hstop text)
    have hplain : ∀ rest, signed (c :: rest) = (0, (c :: rest).takeWhile isdigit) := by
      intro rest
      simp [signed, hminus, hplus]
    rw [List.cons_append, hplain, hplain, ← List.cons_append, hstop]

/-- A number ends at a sign of equality. -/
theorem numeral_separated (text rest : Text) : numeral (text ++ 61 :: rest) = numeral text := by
  have hdrop : (text ++ 61 :: rest).dropWhile isspace = text.dropWhile isspace ++ 61 :: rest := by
    rw [List.dropWhile_append]
    cases hempty : (text.dropWhile isspace).isEmpty with
    | true =>
      rw [if_pos rfl, List.isEmpty_iff.mp hempty]
      rfl
    | false => rw [if_neg Bool.false_ne_true]
  rw [numeral, hdrop, signed_append, numeral]
  intro c hc
  cases hc
  decide

theorem isspace_of_blank {c : UInt8} (h : blank c = true) : isspace c = true := by
  simp only [blank, Bool.or_eq_true, decide_eq_true_eq] at h
  rcases h with (((rfl | rfl) | rfl) | rfl) | rfl <;> decide

/-- Blanks around a number. -/
theorem numeral_strip (str : Text) : numeral (strip str) = numeral str := by
  have hblank : ∀ text : Text, ∀ c ∈ text.takeWhile blank, isspace c = true :=
    fun text c hc => isspace_of_blank (List.mem_takeWhile_imp (p := blank) hc)
  have hlead : numeral (str.dropWhile blank) = numeral str := by
    rw [numeral, numeral, ← List.takeWhile_append_dropWhile (p := blank) (l := str),
      List.dropWhile_append_of_pos (hblank str), List.takeWhile_append_dropWhile]
  have htrail : ∀ text tail : Text, (∀ c ∈ tail, blank c = true) → numeral (text ++ tail) = numeral text := by
    intro text tail htail
    have hspaces : tail.dropWhile isspace = [] :=
      List.dropWhile_eq_nil_iff.mpr fun c hc => isspace_of_blank (htail c hc)
    rw [numeral, List.dropWhile_append, hspaces, numeral]
    cases hempty : (text.dropWhile isspace).isEmpty with
    | true => rw [if_pos rfl, List.isEmpty_iff.mp hempty]
    | false =>
      rw [if_neg Bool.false_ne_true, signed_append]
      intro c hc
      have hplain : ∀ c : UInt8, blank c = true → isdigit c = false ∧ c ≠ 45 ∧ c ≠ 43 := by
        intro c hblank
        simp only [blank, Bool.or_eq_true, decide_eq_true_eq] at hblank
        rcases hblank with (((rfl | rfl) | rfl) | rfl) | rfl <;> decide
      exact hplain c (htail c (List.mem_of_head? hc))
  have hsplit := List.takeWhile_append_dropWhile (p := blank) (l := (str.dropWhile blank).reverse)
  have hends : str.dropWhile blank =
      strip str ++ ((str.dropWhile blank).reverse.takeWhile blank).reverse := by
    rw [strip, ← List.reverse_append, hsplit, List.reverse_reverse]
  rw [← hlead, hends, htrail]
  intro c hc
  exact List.mem_takeWhile_imp (List.mem_reverse.mp hc)

/-- The part of a value in front of a sign of equality has its number. -/
theorem numeral_part (value : Text) : numeral (strip (value.takeWhile (· ≠ 61))) = numeral value := by
  rw [numeral_strip]
  by_cases hsep : 61 ∈ value
  · obtain ⟨front, rest, rfl, hfront⟩ := List.eq_append_cons_of_mem hsep
    rw [(takeWhile_of_not_mem hfront rest).1, numeral_separated]
  · rw [takeWhile_eq_self hsep]

theorem strtol_congr {s t : Text} (h : numeral s = numeral t) : strtol s = strtol t := by
  have hread : ∀ s, strtol s =
      if (numeral s).1 = 45 then max (-(digitsValue (numeral s).2 : Int)) (-2^63)
      else min (digitsValue (numeral s).2 : Int) (2^63 - 1) := by
    intro s
    rw [strtol, numeral]
    dsimp only
    split <;> simp [signed, *]
  rw [hread, hread, h]

theorem strtoul_congr {s t : Text} (h : numeral s = numeral t) : strtoul s = strtoul t := by
  have hread : ∀ s, strtoul s =
      if (numeral s).1 = 45 then
        if digitsValue (numeral s).2 < 2^64 then (2^64 - digitsValue (numeral s).2) % 2^64 else 2^64 - 1
      else min (digitsValue (numeral s).2) (2^64 - 1) := by
    intro s
    rw [strtoul, numeral]
    dsimp only
    split <;> simp [signed, *]
  rw [hread, hread, h]

/-- A value that is read as a number. -/
def OptionType.Number : OptionType → Prop
  | .int | .boolean | .ulong => True
  | _ => False

theorem apply_number {option : ORBitOption} (h : option.type.Number) (value : Text) (s : Settings) :
    (Call.mk option (strip (value.takeWhile (· ≠ 61)))).apply s = (Call.mk option value).apply s := by
  have hint : atoi (strip (value.takeWhile (· ≠ 61))) = atoi value :=
    congrArg (Int.bmod · (2^32)) (strtol_congr (numeral_part value))
  cases harg : option.arg with
  | none => simp only [Call.apply, harg]
  | some arg =>
    cases ht : option.type with
    | int => simp only [Call.apply, harg, ht, hint]
    | boolean => simp only [Call.apply, harg, ht, hint]
    | ulong => simp only [Call.apply, harg, ht, strtoul_congr (numeral_part value)]
    | _ =>
      rw [ht] at h
      exact h.elim

theorem applyAll_append (calls calls' : List Call) (s : Settings) :
    applyAll (calls ++ calls') s = applyAll calls' (applyAll calls s) := List.foldl_append

end

/-- For an option that can be written in a file and on the command line, in a line that is not too long:
the two agree if, and only if, there is no place to set, or the value is a number, or the option takes a
value and the value has no `=`. -/
theorem orbitrc_agree_iff {optionList : List ORBitOption} {name value : Text} {option : ORBitOption}
    (hfound : lookup optionList name = some option) (hn : Writable name) (hv : Trimmed value)
    (hlen : name.length + value.length < 1023) :
    Agree optionList name value ↔
      option.arg = none ∨ option.type.Number ∨ option.type ≠ .none ∧ 61 ∉ value := by
  have hline : (lineOf name value).length ≤ 1023 := by
    rw [lineOf, List.length_append, List.length_cons]
    omega
  have hset := rcLine_lineOf optionList hn hv (.inl rfl)
  rw [List.append_nil, hfound] at hset
  have hargument := fun prog => calls_argumentOf optionList hn hline prog
  simp only [hfound] at hset hargument
  constructor
  · intro h
    by_contra hneither
    rw [not_or, not_or] at hneither
    obtain ⟨harg, hnumber, hvalue⟩ := hneither
    obtain ⟨place, hplace⟩ := Option.ne_none_iff_exists'.mp harg
    -- the line alone, from any settings
    have hsame : ∀ s, applyAll (call option (strip (value.takeWhile (· ≠ 61)))) s =
        applyAll (if option.type = .none then [] else call option value) s := by
      intro s
      have hsame := h [] [] (.inl rfl) (.inl rfl) [] s
      rw [rcParse_line hn hv hline (.inl rfl) (.inl rfl), hset, hargument] at hsame
      have hempty : rcParse optionList [] = [] := rfl
      rw [hempty, List.nil_append, List.tail_nil, hempty, List.append_nil] at hsame
      exact hsame
    cases ht : option.type with
    | none =>
      have hset := congrFun (hsame fun _ => .int 0) place
      simp [ht, call, applyAll, Call.apply, hplace] at hset
    | string =>
      have hsep : 61 ∈ value := by
        by_contra hsep
        exact hvalue ⟨by simp [ht], hsep⟩
      have hset := congrFun (hsame fun _ => .int 0) place
      simp only [ht, call, applyAll, Call.apply, hplace, List.foldl_cons, List.foldl_nil, if_false,
        reduceCtorEq, Function.update_self, Setting.string.injEq, Option.some.injEq] at hset
      exact not_mem_part value (hset.symm ▸ hsep)
    | keyValue =>
      have hsep : 61 ∈ value := by
        by_contra hsep
        exact hvalue ⟨by simp [ht], hsep⟩
      have hpart : splitPair (strip (value.takeWhile (· ≠ 61))) = none := if_neg (not_mem_part value)
      have hpair : splitPair value = some _ := if_pos hsep
      have hset := congrFun (hsame fun _ => .pairs []) place
      simp only [ht, call, applyAll, Call.apply, hplace, hpart, hpair, List.foldl_cons, List.foldl_nil,
        if_false, reduceCtorEq, Function.update_self, Setting.pairs.injEq, List.nil_append,
        List.nil_eq, List.cons_ne_nil] at hset
    | _ =>
      rw [ht] at hnumber
      exact hnumber trivial
  · intro h before behind hbefore hbehind prog s
    rw [rcParse_line hn hv hline hbefore hbehind, hset, hargument, applyAll_append, applyAll_append]
    congr 1
    rcases h with harg | hnumber | ⟨ht, hsep⟩
    · simp [call, harg]
    · have ht : option.type ≠ .none := by
        intro ht
        rw [ht] at hnumber
        exact hnumber
      by_cases harg : option.arg = none
      · simp [call, harg]
      · rw [if_neg ht, call, if_neg harg, if_neg ht, call, if_neg harg, if_neg ht]
        exact apply_number hnumber value _
    · rw [takeWhile_eq_self hsep, hv.stripped, if_neg ht]

/-- The string option `a`. -/
theorem agree_string : Agree [⟨[97], .string, some 0⟩] [97] [120] := by
  have hfound : lookup [⟨[97], .string, some 0⟩] [97] = some ⟨[97], .string, some 0⟩ := by decide
  refine (orbitrc_agree_iff hfound ?_ ?_ (by decide)).mpr
    (.inr (.inr ⟨by decide, by decide⟩))
  · constructor <;> decide
  · constructor <;> decide

/-- The key and value of `a=k=v`: the file gives the key alone. -/
theorem agree_pair_not : ¬ Agree [⟨[97], .keyValue, some 0⟩] [97] [107, 61, 118] := by
  intro h
  have hsame := congrFun (h [] [] (.inl rfl) (.inl rfl) [] fun _ => .pairs []) 0
  revert hsame
  decide

end ORBit2.Options
