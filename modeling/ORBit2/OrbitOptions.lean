import ORBit2.Corbaloc

/-! The options of the ORB (orbit-options.c): those of the command line, which are taken out of it, and
those of an orbitrc file. -/

set_option autoImplicit false

namespace ORBit2.Options
open Corbaloc

/-- The characters of a C string. -/
abbrev Text : Type := List UInt8

inductive OptionType where
  | none
  | string
  | int
  | boolean
  | keyValue
  | ulong
  deriving DecidableEq, Repr

/-- `ORBit_option`; `arg` is a place in memory, if there is one. -/
structure ORBitOption where
  name : Text
  type : OptionType
  arg : Option Nat
  deriving DecidableEq, Repr

/-- What is at the place of an option; a `gboolean` is an `int`. -/
inductive Setting where
  | int (n : Int)
  | ulong (n : Nat)
  | string (str : Option Text)
  | pairs (list : List (Text × Text))
  deriving DecidableEq, Repr

abbrev Settings : Type := Nat → Setting

/-- `strtoul (val, NULL, 10)`, held in the range of an `unsigned long`. -/
def strtoul (s : Text) : Nat :=
  let value (digits : Text) : Nat := digitsValue (digits.takeWhile isdigit)
  match s.dropWhile isspace with
  | 45 :: s => if value s < 2^64 then (2^64 - value s) % 2^64 else 2^64 - 1
  | 43 :: s => min (value s) (2^64 - 1)
  | s => min (value s) (2^64 - 1)

/-- `g_strsplit (val, "=", 2)`, if there is a value. -/
def splitPair (val : Text) : Option (Text × Text) :=
  if 61 ∈ val then some (val.takeWhile (· ≠ 61), (val.dropWhile (· ≠ 61)).tail) else none

/-- A call of `ORBit_option_set` for an option that has a place; the value of a flag is not looked at. -/
structure Call where
  option : ORBitOption
  val : Text
  deriving DecidableEq, Repr

def call (option : ORBitOption) (val : Text) : List Call :=
  if option.arg = none then []
  else if option.type = .none then [⟨option, []⟩]
  else [⟨option, val⟩]

/-- `ORBit_option_set` -/
def Call.apply (c : Call) (s : Settings) : Settings :=
  match c.option.arg with
  | none => s
  | some arg =>
      match c.option.type with
      | .none => Function.update s arg (.int 1)
      | .boolean | .int => Function.update s arg (.int (atoi c.val))
      | .ulong => Function.update s arg (.ulong (strtoul c.val % 2^32))
      | .string => Function.update s arg (.string (some c.val))
      | .keyValue =>
          match splitPair c.val, s arg with
          | some tuple, .pairs list => Function.update s arg (.pairs (list ++ [tuple]))
          | _, _ => s

def applyAll (calls : List Call) (s : Settings) : Settings := calls.foldl (fun s c => c.apply s) s

/-- The loops over the options, up to the one without a name. -/
def lookup (optionList : List ORBitOption) (name : Text) : Option ORBitOption :=
  optionList.find? fun option => option.name = name

/-! ### The command line -/

def dash (arg : Text) : Bool := arg.head? == some 45

/-- The option of a name, and what is behind `=`. -/
def reading (optionList : List ORBitOption) (text : Text) : Option (ORBitOption × Option Text) :=
  (lookup optionList (text.takeWhile (· ≠ 61))).map fun option =>
    (option, if 61 ∈ text then some (text.dropWhile (· ≠ 61)).tail else none)

def undashed (arg : Text) : Text := arg.dropWhile (· = 45)

/-- The option that an argument names, as far as 1023 characters go. -/
def named (optionList : List ORBitOption) (arg : Text) : Option (ORBitOption × Option Text) :=
  reading optionList ((undashed arg).take 1023)

/-- The first loop of `ORBit_option_command_line_parse`, from the second argument on: what is to be
erased, and the calls. -/
@[grind =] def scan (optionList : List ORBitOption) : Option ORBitOption → List Text → List Bool × List Call
  | _, [] => ([], [])
  | option, arg :: args =>
      if dash arg then
        match named optionList arg with
        | none =>
            let (erase, calls) := scan optionList none args
            (false :: erase, calls)
        | some (option, value) =>
            match value with
            | some val =>
                if option.type = .none then
                  let (erase, calls) := scan optionList (some option) args
                  (true :: erase, calls)
                else
                  let (erase, calls) := scan optionList none args
                  (true :: erase, call option val ++ calls)
            | none =>
                let (erase, calls) := scan optionList (some option) args
                (true :: erase, calls)
      else
        match option with
        | none =>
            let (erase, calls) := scan optionList none args
            (false :: erase, calls)
        | some option =>
            let (erase, calls) := scan optionList none args
            (true :: erase, call option arg ++ calls)

/-- The second loop: the arguments that stay, to be followed by empty ones. -/
@[grind =] def compact (numargs : Nat) : Nat → List Text → List Bool → List Text
  | j, arg :: args, erase :: erases =>
      if erase then compact numargs j args erases
      else (if j < numargs then arg else []) :: compact numargs (j+1) args erases
  | _, _, _ => []

/-- `argc`, `argv` and the calls behind `ORBit_option_command_line_parse`; `argv` has what it had in
the places that are not written. -/
structure Parsed where
  argc : Nat
  argv : List Text
  calls : List Call

def commandLineParse (optionList : List ORBitOption) (argv : List Text) : Parsed :=
  let (erase, calls) := scan optionList none argv.tail
  let numargs := argv.length - erase.count true
  let kept := argv.take 1 ++ compact numargs 1 argv.tail erase
  { argc := numargs, argv := kept ++ argv.drop kept.length, calls := calls }

/-- The dashes in front of an argument. -/
def dashes (arg : Text) : Nat := arg.length - (undashed arg).length

/-- An argument `-name`, `--name`, or one of these with `=value`. -/
def listed (optionList : List ORBitOption) (arg : Text) : Option (ORBitOption × Option Text) :=
  if 2 < dashes arg then none else reading optionList (undashed arg)

/-- The arguments that are to stay, and what is to be set. -/
@[grind =] def meant (optionList : List ORBitOption) : List Text → List Text × List Call
  | [] => ([], [])
  | arg :: args =>
      match if dash arg then listed optionList arg else none with
      | none =>
          let (kept, calls) := meant optionList args
          (arg :: kept, calls)
      | some (option, value) =>
          if option.type = .none then
            let (kept, calls) := meant optionList args
            (kept, call option [] ++ calls)
          else
            match value, args with
            | some val, args =>
                let (kept, calls) := meant optionList args
                (kept, call option val ++ calls)
            | none, [] => ([], [])
            | none, val :: args =>
                if dash val then meant optionList (val :: args)
                else
                  let (kept, calls) := meant optionList args
                  (kept, call option val ++ calls)

/-- What is left of some arguments. -/
@[grind =] def keptOf : List Text → List Bool → List Text
  | arg :: args, erase :: erases => if erase then keptOf args erases else arg :: keptOf args erases
  | _, _ => []

/-- What the first loop leaves, and what it sets. -/
def sieve (optionList : List ORBitOption) (option : Option ORBitOption) (args : List Text) :
    List Text × List Call :=
  (keptOf args (scan optionList option args).1, (scan optionList option args).2)

section
variable {optionList : List ORBitOption} {arg : Text} {args : List Text}

theorem compact_eq {numargs j : Nat} {args : List Text} {erases : List Bool}
    (h : j + (keptOf args erases).length ≤ numargs) : compact numargs j args erases = keptOf args erases := by
  induction args generalizing j erases with
  | nil => rfl
  | cons arg args ih =>
    cases erases with
    | nil => rfl
    | cons erase erases =>
      rw [compact, keptOf] at *
      cases erase with
      | true => exact ih h
      | false =>
        simp only [Bool.false_eq_true, if_false, List.length_cons] at h ⊢
        rw [if_pos (by omega), ih (by omega)]

theorem length_keptOf {args : List Text} {erases : List Bool} (h : erases.length = args.length) :
    (keptOf args erases).length + erases.count true = args.length := by
  induction args generalizing erases with
  | nil =>
    cases List.eq_nil_of_length_eq_zero h
    rfl
  | cons arg args ih =>
    cases erases with
    | nil => cases h
    | cons erase erases =>
      have hrest := ih (Nat.succ.inj h)
      cases erase with
      | true =>
        rw [keptOf, if_pos rfl, List.count_cons_self, List.length_cons]
        omega
      | false =>
        rw [keptOf, if_neg Bool.false_ne_true, List.count_cons_of_ne (by decide), List.length_cons,
          List.length_cons]
        omega

/-! The turns of the first loop. -/

theorem sieve_nil (option : Option ORBitOption) : sieve optionList option [] = ([], []) := rfl

theorem sieve_plain (h : dash arg = false) : sieve optionList none (arg :: args) =
    (arg :: (sieve optionList none args).1, (sieve optionList none args).2) := by
  simp [sieve, scan, h, keptOf]

theorem sieve_value (h : dash arg = false) (option : ORBitOption) :
    sieve optionList (some option) (arg :: args) =
      ((sieve optionList none args).1, call option arg ++ (sieve optionList none args).2) := by
  simp [sieve, scan, h, keptOf]

theorem sieve_unknown (h : dash arg = true) (hn : named optionList arg = none)
    (option : Option ORBitOption) : sieve optionList option (arg :: args) =
      (arg :: (sieve optionList none args).1, (sieve optionList none args).2) := by
  simp [sieve, scan, h, hn, keptOf]

theorem sieve_flag (h : dash arg = true) {option : ORBitOption} {value : Option Text}
    (hn : named optionList arg = some (option, value)) (ht : option.type = .none)
    (before : Option ORBitOption) :
    sieve optionList before (arg :: args) = sieve optionList (some option) args := by
  cases value with
  | none => simp [sieve, scan, h, hn, keptOf]
  | some val => simp [sieve, scan, h, hn, ht, keptOf]

theorem sieve_given (h : dash arg = true) {option : ORBitOption} {val : Text}
    (hn : named optionList arg = some (option, some val)) (ht : option.type ≠ .none)
    (before : Option ORBitOption) : sieve optionList before (arg :: args) =
      ((sieve optionList none args).1, call option val ++ (sieve optionList none args).2) := by
  simp [sieve, scan, h, hn, ht, keptOf]

theorem sieve_awaits (h : dash arg = true) {option : ORBitOption}
    (hn : named optionList arg = some (option, none)) (before : Option ORBitOption) :
    sieve optionList before (arg :: args) = sieve optionList (some option) args := by
  simp [sieve, scan, h, hn, keptOf]

/-- An option that waits is forgotten at the next one. -/
theorem sieve_dash (h : dash arg = true) (option : Option ORBitOption) :
    sieve optionList option (arg :: args) = sieve optionList none (arg :: args) := by
  simp [sieve, scan, h]

variable (optionList) in
theorem length_scan (option : Option ORBitOption) (args : List Text) :
    (scan optionList option args).1.length = args.length := by
  induction args generalizing option with
  | nil => rfl
  | cons arg args ih =>
    cases hd : dash arg with
    | false =>
      cases option with
      | none => simp [scan, hd, ih]
      | some option => simp [scan, hd, ih]
    | true =>
      cases hn : named optionList arg with
      | none => simp [scan, hd, hn, ih]
      | some reading =>
        obtain ⟨option, value⟩ := reading
        cases value with
        | none => simp [scan, hd, hn, ih]
        | some val =>
          by_cases ht : option.type = .none
          · simp [scan, hd, hn, ht, ih]
          · simp [scan, hd, hn, ht, ih]

/-- The arguments that are left are those that the first loop has left. -/
theorem commandLineParse_argv (optionList : List ORBitOption) (argv : List Text) :
    (commandLineParse optionList argv).argv.take (commandLineParse optionList argv).argc =
      argv.take 1 ++ (sieve optionList none argv.tail).1 := by
  cases argv with
  | nil => rfl
  | cons arg args =>
    have hlen := length_keptOf (length_scan optionList none args)
    have hkept : compact (args.length + 1 - (scan optionList none args).1.count true) 1 args
        (scan optionList none args).1 = (sieve optionList none args).1 := compact_eq (by omega)
    have hargc : args.length + 1 - (scan optionList none args).1.count true =
        (arg :: (sieve optionList none args).1).length := by
      rw [List.length_cons, sieve]
      dsimp only
      omega
    simp only [commandLineParse, List.tail_cons, List.length_cons, List.take_succ_cons, List.take_zero,
      hkept]
    rw [hargc, List.cons_append, List.nil_append, List.take_append_of_le_length (Nat.le_refl _),
      List.take_length]

/-! What the arguments mean, one by one. -/

theorem meant_plain (h : dash arg = false) : meant optionList (arg :: args) =
    (arg :: (meant optionList args).1, (meant optionList args).2) := by
  rw [meant]
  simp [h]

theorem meant_unknown (hl : listed optionList arg = none) : meant optionList (arg :: args) =
    (arg :: (meant optionList args).1, (meant optionList args).2) := by
  rw [meant]
  simp [hl]

theorem meant_flag (h : dash arg = true) {option : ORBitOption} {value : Option Text}
    (hl : listed optionList arg = some (option, value)) (ht : option.type = .none) :
    meant optionList (arg :: args) =
      ((meant optionList args).1, call option [] ++ (meant optionList args).2) := by
  rw [meant]
  simp [h, hl, ht]

theorem meant_given (h : dash arg = true) {option : ORBitOption} {val : Text}
    (hl : listed optionList arg = some (option, some val)) (ht : option.type ≠ .none) :
    meant optionList (arg :: args) =
      ((meant optionList args).1, call option val ++ (meant optionList args).2) := by
  rw [meant]
  simp [h, hl, ht]

theorem meant_last (h : dash arg = true) {option : ORBitOption}
    (hl : listed optionList arg = some (option, none)) (ht : option.type ≠ .none) :
    meant optionList [arg] = ([], []) := by
  rw [meant]
  simp [h, hl, ht]

theorem meant_again (h : dash arg = true) {option : ORBitOption}
    (hl : listed optionList arg = some (option, none)) (ht : option.type ≠ .none) {next : Text}
    (hnext : dash next = true) :
    meant optionList (arg :: next :: args) = meant optionList (next :: args) := by
  rw [meant]
  simp [h, hl, ht, hnext]

theorem meant_value (h : dash arg = true) {option : ORBitOption}
    (hl : listed optionList arg = some (option, none)) (ht : option.type ≠ .none) {next : Text}
    (hnext : dash next = false) : meant optionList (arg :: next :: args) =
      ((meant optionList args).1, call option next ++ (meant optionList args).2) := by
  rw [meant]
  simp [h, hl, ht, hnext]

/-- Induction along the arguments, an option with its value being one. -/
theorem arguments_induction (optionList : List ORBitOption) {P : List Text → Prop} (nil : P [])
    (plain : ∀ arg args, dash arg = false → P args → P (arg :: args))
    (unknown : ∀ arg args, dash arg = true → listed optionList arg = none → P args → P (arg :: args))
    (flag : ∀ arg args option value, dash arg = true → listed optionList arg = some (option, value) →
      option.type = .none → P args → P (arg :: args))
    (given : ∀ arg args option val, dash arg = true → listed optionList arg = some (option, some val) →
      option.type ≠ .none → P args → P (arg :: args))
    (last : ∀ arg option, dash arg = true → listed optionList arg = some (option, none) →
      option.type ≠ .none → P [arg])
    (again : ∀ arg next args option, dash arg = true → listed optionList arg = some (option, none) →
      option.type ≠ .none → dash next = true → P (next :: args) → P (arg :: next :: args))
    (value : ∀ arg next args option, dash arg = true → listed optionList arg = some (option, none) →
      option.type ≠ .none → dash next = false → P args → P (arg :: next :: args))
    (args : List Text) : P args := by
  induction hn : args.length using Nat.strongRecOn generalizing args with
  | ind n ih =>
    cases args with
    | nil => exact nil
    | cons arg args =>
      rw [List.length_cons] at hn
      have hrest := ih args.length (by omega) args rfl
      cases hd : dash arg with
      | false => exact plain arg args hd hrest
      | true =>
        cases hl : listed optionList arg with
        | none => exact unknown arg args hd hl hrest
        | some read =>
          obtain ⟨option, val⟩ := read
          by_cases ht : option.type = .none
          · exact flag arg args option val hd hl ht hrest
          · cases val with
            | some val => exact given arg args option val hd hl ht hrest
            | none =>
              cases args with
              | nil => exact last arg option hd hl ht
              | cons next args =>
                rw [List.length_cons] at hn
                cases hnext : dash next with
                | true => exact again arg next args option hd hl ht hnext hrest
                | false => exact value arg next args option hd hl ht hnext (ih args.length (by omega) args rfl)

/-! ### What goes wrong -/

/-- An argument that fits into `name`, or is of no option. -/
def Fits (optionList : List ORBitOption) (arg : Text) : Prop :=
  (undashed arg).length ≤ 1023 ∨ named optionList arg = none ∧ listed optionList arg = none

/-- No option has more than two dashes. -/
def TwoDashed (optionList : List ORBitOption) (args : List Text) : Prop :=
  ∀ arg ∈ args, dash arg = true → named optionList arg ≠ none → dashes arg ≤ 2

/-- No flag is in front of an argument that is no option. -/
@[grind =] def Quiet (optionList : List ORBitOption) : List Text → Prop
  | [] => True
  | arg :: args =>
      (dash arg = true → ∀ option value, named optionList arg = some (option, value) →
        option.type = .none → ∀ next ∈ args.head?, dash next = true) ∧ Quiet optionList args

/-- No flag has a place. -/
def Placeless (optionList : List ORBitOption) (args : List Text) : Prop :=
  ∀ arg ∈ args, dash arg = true → ∀ option value, named optionList arg = some (option, value) →
    option.type = .none → option.arg = none

theorem listed_of_fits (h : Fits optionList arg)
    (hdashes : named optionList arg ≠ none → dashes arg ≤ 2) :
    listed optionList arg = named optionList arg := by
  rcases h with hshort | ⟨hnamed, hlisted⟩
  · have hsame : reading optionList (undashed arg) = named optionList arg := by
      rw [named, List.take_of_length_le hshort]
    by_cases hn : named optionList arg = none
    · rw [listed, hsame, hn]
      exact ite_self none
    · rw [listed, if_neg (Nat.not_lt.mpr (hdashes hn)), hsame]
  · rw [hnamed, hlisted]

/-- What is no option stays. -/
theorem mem_meant (h : arg ∈ args) (hd : dash arg = true) (hl : listed optionList arg = none) :
    arg ∈ (meant optionList args).1 := by
  induction args using arguments_induction optionList with
  | nil => cases h
  | plain other args ho ih =>
    rw [meant_plain ho]
    rcases List.mem_cons.mp h with rfl | h
    · exact List.mem_cons_self
    · exact List.mem_cons_of_mem _ (ih h)
  | unknown other args ho hlo ih =>
    rw [meant_unknown hlo]
    rcases List.mem_cons.mp h with rfl | h
    · exact List.mem_cons_self
    · exact List.mem_cons_of_mem _ (ih h)
  | flag other args option value ho hlo ht ih =>
    rw [meant_flag ho hlo ht]
    rcases List.mem_cons.mp h with rfl | h
    · rw [hl] at hlo
      cases hlo
    · exact ih h
  | given other args option val ho hlo ht ih =>
    rw [meant_given ho hlo ht]
    rcases List.mem_cons.mp h with rfl | h
    · rw [hl] at hlo
      cases hlo
    · exact ih h
  | last other option ho hlo ht =>
    cases List.mem_singleton.mp h
    rw [hl] at hlo
    cases hlo
  | again other next args option ho hlo ht hnext ih =>
    rw [meant_again ho hlo ht hnext]
    rcases List.mem_cons.mp h with rfl | h
    · rw [hl] at hlo
      cases hlo
    · exact ih h
  | value other next args option ho hlo ht hnext ih =>
    rw [meant_value ho hlo ht hnext]
    rcases List.mem_cons.mp h with rfl | h
    · rw [hl] at hlo
      cases hlo
    · rcases List.mem_cons.mp h with rfl | h
      · rw [hd] at hnext
        cases hnext
      · exact ih h

/-- An option never stays. -/
theorem not_mem_sieve (hd : dash arg = true) (hn : named optionList arg ≠ none)
    (before : Option ORBitOption) : arg ∉ (sieve optionList before args).1 := by
  induction args generalizing before with
  | nil => exact List.not_mem_nil
  | cons other args ih =>
    cases ho : dash other with
    | false =>
      cases before with
      | none =>
        rw [sieve_plain ho]
        refine List.not_mem_cons_of_ne_of_not_mem ?_ (ih none)
        rintro rfl
        rw [hd] at ho
        cases ho
      | some option =>
        rw [sieve_value ho]
        exact ih none
    | true =>
      cases hno : named optionList other with
      | none =>
        rw [sieve_unknown ho hno]
        refine List.not_mem_cons_of_ne_of_not_mem ?_ (ih none)
        rintro rfl
        exact hn hno
      | some read =>
        obtain ⟨option, value⟩ := read
        by_cases ht : option.type = .none
        · rw [sieve_flag ho hno ht]
          exact ih (some option)
        · cases value with
          | none =>
            rw [sieve_awaits ho hno]
            exact ih (some option)
          | some val =>
            rw [sieve_given ho hno ht]
            exact ih none

/-- The argument that a flag eats is missing. -/
theorem quiet_of_sieve (hread : ∀ arg ∈ args, dash arg = true →
      named optionList arg = listed optionList arg) :
    (sieve optionList none args).1.length ≤ (meant optionList args).1.length ∧
      ((sieve optionList none args).1.length = (meant optionList args).1.length →
        Quiet optionList args) := by
  induction args using arguments_induction optionList with
  | nil => exact ⟨Nat.le_refl 0, fun _ => trivial⟩
  | plain arg args hd ih =>
    have ih := ih fun a ha => hread a (List.mem_cons_of_mem arg ha)
    rw [sieve_plain hd, meant_plain hd, List.length_cons, List.length_cons]
    refine ⟨by omega, fun heq => ⟨fun h => ?_, ih.2 (by omega)⟩⟩
    rw [hd] at h
    cases h
  | unknown arg args hd hl ih =>
    have ih := ih fun a ha => hread a (List.mem_cons_of_mem arg ha)
    have hn := (hread arg List.mem_cons_self hd).trans hl
    rw [sieve_unknown hd hn, meant_unknown hl, List.length_cons, List.length_cons]
    refine ⟨by omega, fun heq => ⟨fun _ option value h => ?_, ih.2 (by omega)⟩⟩
    rw [hn] at h
    cases h
  | given arg args option val hd hl ht ih =>
    have ih := ih fun a ha => hread a (List.mem_cons_of_mem arg ha)
    have hn := (hread arg List.mem_cons_self hd).trans hl
    rw [sieve_given hd hn ht, meant_given hd hl ht]
    refine ⟨ih.1, fun heq => ⟨fun _ option' value h ht' => ?_, ih.2 heq⟩⟩
    rw [hn] at h
    cases h
    exact absurd ht' ht
  | last arg option hd hl ht =>
    have hn := (hread arg List.mem_cons_self hd).trans hl
    rw [sieve_awaits hd hn, meant_last hd hl ht, sieve_nil]
    exact ⟨Nat.le_refl 0, fun _ => ⟨fun _ _ _ _ _ next h => (nomatch h), trivial⟩⟩
  | again arg next args option hd hl ht hnext ih =>
    have ih := ih fun a ha => hread a (List.mem_cons_of_mem arg ha)
    have hn := (hread arg List.mem_cons_self hd).trans hl
    rw [sieve_awaits hd hn, sieve_dash hnext, meant_again hd hl ht hnext]
    refine ⟨ih.1, fun heq => ⟨fun _ _ _ _ _ other h => ?_, ih.2 heq⟩⟩
    cases h
    exact hnext
  | value arg next args option hd hl ht hnext ih =>
    have ih := ih fun a ha => hread a (List.mem_cons_of_mem arg (List.mem_cons_of_mem next ha))
    have hn := (hread arg List.mem_cons_self hd).trans hl
    rw [sieve_awaits hd hn, sieve_value hnext, meant_value hd hl ht hnext]
    refine ⟨ih.1, fun heq => ⟨fun _ option' value h ht' => ?_, fun h => ?_, ih.2 heq⟩⟩
    · rw [hn] at h
      cases h
      exact absurd ht' ht
    · rw [hnext] at h
      cases h
  | flag arg args option value hd hl ht ih =>
    have ih := ih fun a ha => hread a (List.mem_cons_of_mem arg ha)
    have hn := (hread arg List.mem_cons_self hd).trans hl
    rw [sieve_flag hd hn ht, meant_flag hd hl ht]
    cases args with
    | nil =>
      rw [sieve_nil]
      exact ⟨Nat.zero_le _, fun _ => ⟨fun _ _ _ _ _ next h => (nomatch h), trivial⟩⟩
    | cons next args =>
      cases hnext : dash next with
      | true =>
        rw [sieve_dash hnext]
        refine ⟨ih.1, fun heq => ⟨fun _ _ _ _ _ other h => ?_, ih.2 heq⟩⟩
        cases h
        exact hnext
      | false =>
        have hle := ih.1
        rw [sieve_plain hnext, List.length_cons] at hle
        rw [sieve_value hnext]
        dsimp only
        exact ⟨by omega, fun heq => by omega⟩

theorem mem_call {option : ORBitOption} {val : Text} {c : Call} (h : c ∈ call option val) :
    c.option = option := by
  unfold call at h
  split at h
  · cases h
  · split at h
    · cases List.mem_singleton.mp h
      rfl
    · cases List.mem_singleton.mp h
      rfl

/-- A flag that eats nothing is not set. -/
theorem sieve_sets_no_flag (before : Option ORBitOption)
    (hbefore : ∀ option ∈ before, option.type = .none → ∀ next ∈ args.head?, dash next = true)
    (h : Quiet optionList args) : ∀ c ∈ (sieve optionList before args).2, c.option.type ≠ .none := by
  induction args generalizing before with
  | nil => exact fun c hc => nomatch hc
  | cons arg args ih =>
    have hnone := ih none (fun option h => nomatch h) h.2
    cases hd : dash arg with
    | false =>
      cases before with
      | none =>
        rw [sieve_plain hd]
        exact hnone
      | some option =>
        rw [sieve_value hd]
        intro c hc
        rcases List.mem_append.mp hc with hc | hc
        · rw [mem_call hc]
          intro ht
          rw [hbefore option rfl ht arg rfl] at hd
          cases hd
        · exact hnone c hc
    | true =>
      cases hn : named optionList arg with
      | none =>
        rw [sieve_unknown hd hn]
        exact hnone
      | some read =>
        obtain ⟨option, value⟩ := read
        by_cases ht : option.type = .none
        · rw [sieve_flag hd hn ht]
          refine ih (some option) (fun option' ho ht' => ?_) h.2
          cases ho
          exact h.1 hd option value hn ht
        · cases value with
          | none =>
            rw [sieve_awaits hd hn]
            refine ih (some option) (fun option' ho ht' => ?_) h.2
            cases ho
            exact absurd ht' ht
          | some val =>
            rw [sieve_given hd hn ht]
            intro c hc
            rcases List.mem_append.mp hc with hc | hc
            · rw [mem_call hc]
              exact ht
            · exact hnone c hc

/-- A flag with a place is to be set. -/
theorem flag_mem_meant (h : arg ∈ args) (hd : dash arg = true) {option : ORBitOption}
    {value : Option Text} (hl : listed optionList arg = some (option, value))
    (ht : option.type = .none) (harg : option.arg ≠ none) :
    ⟨option, []⟩ ∈ (meant optionList args).2 := by
  induction args using arguments_induction optionList with
  | nil => cases h
  | plain other args ho ih =>
    rw [meant_plain ho]
    rcases List.mem_cons.mp h with rfl | h
    · rw [hd] at ho
      cases ho
    · exact ih h
  | unknown other args ho hlo ih =>
    rw [meant_unknown hlo]
    rcases List.mem_cons.mp h with rfl | h
    · rw [hl] at hlo
      cases hlo
    · exact ih h
  | flag other args option' value' ho hlo ht' ih =>
    rw [meant_flag ho hlo ht']
    rcases List.mem_cons.mp h with rfl | h
    · rw [hl] at hlo
      cases hlo
      rw [call, if_neg harg, if_pos ht]
      exact List.mem_cons_self
    · exact List.mem_append_right _ (ih h)
  | given other args option' val ho hlo ht' ih =>
    rw [meant_given ho hlo ht']
    rcases List.mem_cons.mp h with rfl | h
    · rw [hl] at hlo
      cases hlo
      exact absurd ht ht'
    · exact List.mem_append_right _ (ih h)
  | last other option' ho hlo ht' =>
    cases List.mem_singleton.mp h
    rw [hl] at hlo
    cases hlo
    exact absurd ht ht'
  | again other next args option' ho hlo ht' hnext ih =>
    rw [meant_again ho hlo ht' hnext]
    rcases List.mem_cons.mp h with rfl | h
    · rw [hl] at hlo
      cases hlo
      exact absurd ht ht'
    · exact ih h
  | value other next args option' ho hlo ht' hnext ih =>
    rw [meant_value ho hlo ht' hnext]
    rcases List.mem_cons.mp h with rfl | h
    · rw [hl] at hlo
      cases hlo
      exact absurd ht ht'
    · rcases List.mem_cons.mp h with rfl | h
      · rw [hd] at hnext
        cases hnext
      · exact List.mem_append_right _ (ih h)

/-- Without such flags the loop does what is meant. -/
theorem sieve_eq_meant (hread : ∀ arg ∈ args, dash arg = true →
      named optionList arg = listed optionList arg) (hquiet : Quiet optionList args)
    (hplaceless : Placeless optionList args) :
    sieve optionList none args = meant optionList args := by
  induction args using arguments_induction optionList with
  | nil => rfl
  | plain arg args hd ih =>
    rw [sieve_plain hd, meant_plain hd, ih (fun a ha => hread a (List.mem_cons_of_mem arg ha)) hquiet.2
      fun a ha => hplaceless a (List.mem_cons_of_mem arg ha)]
  | unknown arg args hd hl ih =>
    have hn := (hread arg List.mem_cons_self hd).trans hl
    rw [sieve_unknown hd hn, meant_unknown hl, ih (fun a ha => hread a (List.mem_cons_of_mem arg ha))
      hquiet.2 fun a ha => hplaceless a (List.mem_cons_of_mem arg ha)]
  | given arg args option val hd hl ht ih =>
    have hn := (hread arg List.mem_cons_self hd).trans hl
    rw [sieve_given hd hn ht, meant_given hd hl ht,
      ih (fun a ha => hread a (List.mem_cons_of_mem arg ha)) hquiet.2
        fun a ha => hplaceless a (List.mem_cons_of_mem arg ha)]
  | last arg option hd hl ht =>
    have hn := (hread arg List.mem_cons_self hd).trans hl
    rw [sieve_awaits hd hn, meant_last hd hl ht, sieve_nil]
  | again arg next args option hd hl ht hnext ih =>
    have hn := (hread arg List.mem_cons_self hd).trans hl
    rw [sieve_awaits hd hn, sieve_dash hnext, meant_again hd hl ht hnext,
      ih (fun a ha => hread a (List.mem_cons_of_mem arg ha)) hquiet.2
        fun a ha => hplaceless a (List.mem_cons_of_mem arg ha)]
  | value arg next args option hd hl ht hnext ih =>
    have hn := (hread arg List.mem_cons_self hd).trans hl
    rw [sieve_awaits hd hn, sieve_value hnext, meant_value hd hl ht hnext,
      ih (fun a ha => hread a (List.mem_cons_of_mem arg (List.mem_cons_of_mem next ha))) hquiet.2.2
        fun a ha => hplaceless a (List.mem_cons_of_mem arg (List.mem_cons_of_mem next ha))]
  | flag arg args option value hd hl ht ih =>
    have hn := (hread arg List.mem_cons_self hd).trans hl
    have harg := hplaceless arg List.mem_cons_self hd option value hn ht
    have hforgotten : sieve optionList (some option) args = sieve optionList none args := by
      cases args with
      | nil => rfl
      | cons next args => exact sieve_dash (hquiet.1 hd option value hn ht next rfl) (some option)
    rw [sieve_flag hd hn ht, hforgotten, meant_flag hd hl ht,
      ih (fun a ha => hread a (List.mem_cons_of_mem arg ha)) hquiet.2
        fun a ha => hplaceless a (List.mem_cons_of_mem arg ha), call, if_pos harg]
    rfl

end

/-- The arguments that are left are those that are no options, what is set is what they say, and a place
has what is said last. -/
structure Parses (optionList : List ORBitOption) (argv : List Text) : Prop where
  kept : (commandLineParse optionList argv).argv.take (commandLineParse optionList argv).argc =
    argv.take 1 ++ (meant optionList argv.tail).1
  calls : (commandLineParse optionList argv).calls = (meant optionList argv.tail).2
  settings : ∀ (before : List Call) (c : Call) (behind : List Call) (place : Nat) (s : Settings),
    (meant optionList argv.tail).2 = before ++ c :: behind →
    (∀ c' ∈ behind, c'.option.arg ≠ some place) →
    applyAll (commandLineParse optionList argv).calls s place = c.apply (applyAll before s) place

theorem apply_of_ne {c : Call} {place : Nat} (h : c.option.arg ≠ some place) (s : Settings) :
    c.apply s place = s place := by
  cases harg : c.option.arg with
  | none => simp only [Call.apply, harg]
  | some arg =>
    have hne : place ≠ arg := by
      rintro rfl
      exact h harg
    simp only [Call.apply, harg]
    cases c.option.type with
    | keyValue =>
      cases splitPair c.val with
      | none => rfl
      | some tuple =>
        cases s arg with
        | pairs list => exact Function.update_of_ne hne _ _
        | _ => rfl
    | _ => exact Function.update_of_ne hne _ _

/-- Later calls for other places change nothing. -/
theorem applyAll_of_ne {calls : List Call} {place : Nat}
    (h : ∀ c ∈ calls, c.option.arg ≠ some place) (s : Settings) : applyAll calls s place = s place := by
  induction calls generalizing s with
  | nil => rfl
  | cons c calls ih =>
    have hrest := ih (fun c' hc' => h c' (List.mem_cons_of_mem c hc')) (c.apply s)
    exact hrest.trans (apply_of_ne (h c List.mem_cons_self) s)

/-- Where arguments fit into 1023 characters: if, and only if, options have one or two dashes, and no
flag is in front of an argument that is no option, or has a place. -/
theorem commandLineParse_iff (optionList : List ORBitOption) (argv : List Text)
    (hfits : ∀ arg ∈ argv.tail, dash arg = true → Fits optionList arg) :
    Parses optionList argv ↔ TwoDashed optionList argv.tail ∧ Quiet optionList argv.tail ∧
      Placeless optionList argv.tail := by
  have hcalls : (commandLineParse optionList argv).calls = (sieve optionList none argv.tail).2 := rfl
  have hargv := commandLineParse_argv optionList argv
  constructor
  · rintro ⟨hkept, hset, -⟩
    rw [hargv] at hkept
    have hkept := List.append_cancel_left hkept
    have htwo : TwoDashed optionList argv.tail := by
      intro arg harg hd hn
      by_contra hdashes
      have hmem := mem_meant harg hd (if_pos (Nat.lt_of_not_le hdashes) : listed optionList arg = none)
      rw [← hkept] at hmem
      exact not_mem_sieve hd hn none hmem
    have hread : ∀ arg ∈ argv.tail, dash arg = true → named optionList arg = listed optionList arg :=
      fun arg harg hd => (listed_of_fits (hfits arg harg hd) (htwo arg harg hd)).symm
    have hquiet := (quiet_of_sieve hread).2 (congrArg List.length hkept)
    refine ⟨htwo, hquiet, fun arg harg hd option value hn ht => ?_⟩
    by_contra hplace
    have hmem := flag_mem_meant harg hd ((hread arg harg hd).symm.trans hn) ht hplace
    rw [← hset, hcalls] at hmem
    exact sieve_sets_no_flag none (fun option h => nomatch h) hquiet _ hmem ht
  · rintro ⟨htwo, hquiet, hplaceless⟩
    have hread : ∀ arg ∈ argv.tail, dash arg = true → named optionList arg = listed optionList arg :=
      fun arg harg hd => (listed_of_fits (hfits arg harg hd) (htwo arg harg hd)).symm
    have hsieve := sieve_eq_meant hread hquiet hplaceless
    refine ⟨by rw [hargv, hsieve], by rw [hcalls, hsieve], ?_⟩
    intro before c behind place s hsplit hbehind
    rw [hcalls, hsieve, hsplit, applyAll, List.foldl_append, List.foldl_cons]
    exact applyAll_of_ne hbehind _

/-- The option `a`, a string, is set to `x` and then to `y`; `-b` and `z` stay. -/
theorem commandLineParse_strings :
    Parses [⟨[97], .string, some 0⟩]
      [[112], [45, 97, 61, 120], [45, 98], [45, 45, 97], [121], [122]] := by
  have hstring : ∀ arg option value, named [⟨[97], .string, some 0⟩] arg = some (option, value) →
      option.type ≠ .none := by
    intro arg option value hn
    obtain ⟨option', hfound, heq⟩ := Option.map_eq_some_iff.mp hn
    cases heq
    cases List.mem_singleton.mp (List.mem_of_find?_eq_some hfound)
    decide
  refine (commandLineParse_iff _ _ fun arg harg _ => .inl ?_).mpr ⟨?_, ?_, ?_⟩
  · revert arg
    decide
  · unfold TwoDashed
    decide
  · refine ⟨?_, ?_, ?_, ?_, ?_, trivial⟩
    all_goals exact fun _ option value hn ht => absurd ht (hstring _ option value hn)
  · exact fun _ _ _ option value hn ht => absurd ht (hstring _ option value hn)

/-- The flag `v` eats the argument behind it. -/
theorem commandLineParse_flag : ¬ Parses [⟨[118], .none, some 0⟩] [[112], [45, 118], [120]] := by
  rintro ⟨hkept, -, -⟩
  revert hkept
  decide

end ORBit2.Options
