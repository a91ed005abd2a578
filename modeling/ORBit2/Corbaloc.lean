import ORBit2.ObjectReferences
import ORBit2.ObjectStrings

/-! Object locations as text (corba-loc.c): `ORBit_corbaloc_from` and `ORBit_corbaloc_parse`. -/

set_option autoImplicit false

namespace ORBit2.Corbaloc

/-- The bytes of a text of the source. -/
def text (s : String) : List UInt8 := s.toList.map Char.toUInt8

/-! ### The C library -/

/-- `strchr`: what stands before the first `c`, and what behind it. -/
def strchr (c : UInt8) (s : List UInt8) : Option (List UInt8 × List UInt8) :=
  if c ∈ s then some (s.takeWhile (· ≠ c), (s.dropWhile (· ≠ c)).tail) else none

/-- `strrchr`: what stands before the last `c`, and what behind it. -/
def strrchr (c : UInt8) (s : List UInt8) : Option (List UInt8 × List UInt8) :=
  (strchr c s.reverse).map fun (behind, before) => (before.reverse, behind.reverse)

def isdigit (c : UInt8) : Bool := 48 ≤ c && c ≤ 57

def isspace (c : UInt8) : Bool := c == 32 || (9 ≤ c && c ≤ 13)

def digitsValue (digits : List UInt8) : Nat :=
  digits.foldl (fun n c => 10 * n + (c.toNat - 48)) 0

/-- The number of `strtol`, held in the range of a `long`. -/
def strtol (s : List UInt8) : Int :=
  let value (digits : List UInt8) : Int := digitsValue (digits.takeWhile isdigit)
  match s.dropWhile isspace with
  | 45 :: s => max (-value s) (-2 ^ 63)
  | 43 :: s => min (value s) (2 ^ 63 - 1)
  | s => min (value s) (2 ^ 63 - 1)

/-- `atoi`: the number of `strtol` as an `int`. -/
def atoi (s : List UInt8) : Int := (strtol s).bmod (2 ^ 32)

/-- `%d`. -/
def decimal (n : Nat) : List UInt8 := (Nat.toDigits 10 n).map Char.toUInt8

/-! ### Parsing -/

/-- `OMG_LOCATOR`. -/
def omgLocator : List UInt8 := text "2809"

def versionOf (ver : List UInt8) : Option Version :=
  if (text "1.0").isPrefixOf ver then some .v1_0
  else if (text "1.1").isPrefixOf ver then some .v1_1
  else if (text "1.2").isPrefixOf ver then some .v1_2
  else none

/-- What the text of a port says, when it is one. -/
def portOf (port : List UInt8) : Option UInt16 :=
  if atoi port < 0 ∨ atoi port > 65535 then none
  else if port.all isdigit then some (.ofNat (atoi port).toNat)
  else none

/-- The part of `corbaloc_profile_iiop_parse` behind the scheme. -/
def iiopAddress (ssl : Bool) (token : List UInt8) : Option (Version × List UInt8 × UInt16) :=
  let token := token.dropWhile (· = 47)
  let (ver, token) := (strchr 64 token).getD (if ssl then text "1.1" else text "1.0", token)
  let (host, port) := (strchr 58 token).getD (token, omgLocator)
  if ver = [] ∨ host = [] ∨ port = [] then none
  else do
    let port ← portOf port
    let ver ← versionOf ver
    return (ver, host, port)

/-- The scheme: whether it is one for SSL. -/
def scheme (profile : List UInt8) : Option Bool :=
  if (text ":").isPrefixOf profile || (text "iiop:").isPrefixOf profile then some false
  else if (text "iiops:").isPrefixOf profile || (text "ssliop:").isPrefixOf profile then some true
  else none

/-- `corbaloc_profile_iiop_parse`. -/
def iiopParse (profile : List UInt8) : Option (Bool × Version × List UInt8 × UInt16) := do
  let ssl ← scheme profile
  let (_, token) ← strchr 58 profile
  let address ← iiopAddress ssl token
  return (ssl, address)

/-- `corbaloc_profile_uiop_parse`. -/
def uiopParse (profile : List UInt8) : Option (List UInt8 × UInt16) :=
  if (text "uiop:").isPrefixOf profile then do
    let (_, rest) ← strchr 58 profile
    -- from the last leading '/' on; without one, from the ':' of the scheme on
    let first := if rest.head? = some 47 then 47 else 58
    let (socketPath, port) ← strrchr 58 (first :: rest.dropWhile (· = 47))
    let ipv6Port ← if port = [] then some 0 else portOf port
    if socketPath = [] then none else some (socketPath, ipv6Port)
  else none

/-- `corbaloc_profile_iiop`. -/
def profileIiop (token objkey : List UInt8) : Option (IopProfile (List UInt8)) := do
  let (ssl, ver, host, port) ← iiopParse token
  if ssl then
    if ver = .v1_0 then none
    else some (.internetIop ver host 0 (some objkey) [.sslSecTrans 126 6 port])
  else some (.internetIop ver host port (some objkey) [])

/-- `corbaloc_profile_uiop`. -/
def profileUiop (token objkey : List UInt8) : Option (IopProfile (List UInt8)) := do
  let (socketPath, ipv6Port) ← uiopParse token
  return .orbitSpecific socketPath ipv6Port (some objkey)

/-- `orbit_url_decode`. -/
def urlDecode : List UInt8 → Option (List UInt8)
  | [] => some []
  | 37 :: high :: low :: s =>
      if asciiIsxdigit high && asciiIsxdigit low then
        (urlDecode s).map ((asciiXdigitValue high <<< 4 ||| asciiXdigitValue low) :: ·)
      else none
  | c :: s => if c = 37 then none else (urlDecode s).map (c :: ·)

/-- `g_strsplit (s, ",", G_MAXINT)`. -/
def strsplit (s : List UInt8) : List (List UInt8) := if s = [] then [] else s.splitOn 44

/-- One token of `ORBit_corbaloc_parse`. -/
def tokenProfile (objkey token : List UInt8) : Option (IopProfile (List UInt8)) :=
  match token.head? with
  | some 58 | some 105 | some 115 => profileIiop token objkey
  | some 117 => profileUiop token objkey
  | _ => none

/-- `ORBit_corbaloc_parse`; an error gives the empty list, as NULL does. -/
def corbalocParse (corbaloc : List UInt8) : List (IopProfile (List UInt8)) :=
  let loc :=
    if (text "corbaloc:").isPrefixOf corbaloc then corbaloc.drop (text "corbaloc:").length
    else corbaloc
  let profiles := do
    let (loc, okey) ← strrchr 47 loc
    if okey = [] then none
    else
      let objkey ← urlDecode okey
      (strsplit loc).mapM (tokenProfile objkey)
  profiles.getD []

/-! ### Printing -/

/-- `giop_version_str`. -/
def versionStr : Version → List UInt8
  | .v1_0 => text "1.0"
  | .v1_1 => text "1.1"
  | .v1_2 => text "1.2"

/-- `get_ssl_component`: its port. -/
def sslPort {σ : Type} : List (IopComponent σ) → Option UInt16
  | [] => none
  | .sslSecTrans _ _ port :: _ => some port
  | _ :: components => sslPort components

/-- The object key, every byte as a `%` and two digits. -/
def urlEncode (objectKey : List UInt8) : List UInt8 :=
  objectKey.flatMap fun byte => 37 :: hexPair byte

/-- What `ORBit_corbaloc_from` writes for a profile, up to the key. -/
def address : IopProfile CString → Except ObjrefFault (Option (List UInt8))
  | .internetIop ver host port _ components =>
      match sslPort components with
      | some sslPort =>
          if sslPort = 0 then .error .assertion
          else .ok (some (text "ssliop:" ++ versionStr ver ++ 64 :: host.1 ++
            58 :: decimal sslPort.toNat))
      | none => .ok (some (text "iiop:" ++ versionStr ver ++ 64 :: host.1 ++
          58 :: decimal port.toNat))
  | .orbitSpecific unixSockPath ipv6Port _ =>
      .ok (some (text "uiop:" ++ unixSockPath.1 ++
        58 :: (if ipv6Port ≠ 0 then decimal ipv6Port.toNat else [])))
  | _ => .ok none

/-- `as_corbaloc`. -/
def asCorbaloc (profileList : List (IopProfile CString)) : Bool :=
  profileList.any fun
    | .internetIop _ _ _ _ _ | .orbitSpecific _ _ _ => true
    | _ => false

/-- `ORBit_corbaloc_from`. -/
def corbalocFrom (profileList : List (IopProfile CString)) (objectKey : List UInt8) :
    Except ObjrefFault (Option (List UInt8)) :=
  if asCorbaloc profileList then do
    let addresses ← profileList.mapM address
    return some (text "corbaloc:" ++ [44].intercalate
      (addresses.reduceOption.map (· ++ 47 :: urlEncode objectKey)))
  else .ok none

/-! ### What comes back -/

/-- The same profile: of the same kind, with the same version, host, ports and path, and with the
key. -/
def SameProfile (key : List UInt8) : IopProfile CString → IopProfile (List UInt8) → Prop
  | .internetIop ver host port _ components, .internetIop ver' host' port' key' components' =>
      ver' = ver ∧ host' = host.1 ∧ port' = port ∧ sslPort components' = sslPort components ∧
        key' = some key
  | .orbitSpecific unixSockPath ipv6Port _, .orbitSpecific unixSockPath' ipv6Port' key' =>
      unixSockPath' = unixSockPath.1 ∧ ipv6Port' = ipv6Port ∧ key' = some key
  | _, _ => False

/-- The text is one of these profiles with this key. -/
def RoundTrips (profileList : List (IopProfile CString)) (key : List UInt8) : Prop :=
  ∃ corbaloc, corbalocFrom profileList key = .ok (some corbaloc) ∧
    List.Forall₂ (SameProfile key) profileList (corbalocParse corbaloc)

/-- An IIOP profile whose host has no delimiter of the syntax, or an ORBit-specific one whose path
is absolute and has none. -/
def Plain : IopProfile CString → Prop
  | .internetIop _ host _ _ _ => ∀ c ∈ host.1, c ≠ 44 ∧ c ≠ 47 ∧ c ≠ 58 ∧ c ≠ 64
  | .orbitSpecific unixSockPath _ _ =>
      unixSockPath.1.head? = some 47 ∧ ∀ c ∈ unixSockPath.1, c ≠ 44 ∧ c ≠ 58
  | _ => False

/-- The host is not empty, and an SSL profile is of GIOP 1.1 or 1.2 and has its port in the SSL
component alone; a path begins with one '/'. -/
def ComesBack : IopProfile CString → Prop
  | .internetIop ver host port _ components =>
      host.1 ≠ [] ∧ ∀ ssl ∈ sslPort components, ssl ≠ 0 ∧ port = 0 ∧ ver ≠ .v1_0
  | .orbitSpecific unixSockPath _ _ => ¬ [47, 47] <+: unixSockPath.1
  | _ => False

example : corbalocParse (text "corbaloc:uiop:/tmp/a:,iiop:host:88/Key") =
    [.orbitSpecific (text "/tmp/a") 0 (some (text "Key")),
      .internetIop .v1_0 (text "host") 88 (some (text "Key")) []] := by decide

/-! ### Strings -/

theorem strchr_append {c : UInt8} {l : List UInt8} (r : List UInt8) (h : c ∉ l) :
    strchr c (l ++ c :: r) = some (l, r) := by
  have hall : ∀ x ∈ l, decide (x ≠ c) = true := fun x hx =>
    decide_eq_true fun hxc => h (hxc ▸ hx)
  rw [strchr, if_pos (List.mem_append_right _ List.mem_cons_self),
    List.takeWhile_append_of_pos hall, List.dropWhile_append_of_pos hall,
    List.takeWhile_cons_of_neg (by simp), List.dropWhile_cons_of_neg (by simp), List.append_nil,
    List.tail_cons]

theorem strrchr_append {c : UInt8} (l : List UInt8) {r : List UInt8} (h : c ∉ r) :
    strrchr c (l ++ c :: r) = some (l, r) := by
  have hreverse : (l ++ c :: r).reverse = r.reverse ++ c :: l.reverse := by simp
  rw [strrchr, hreverse, strchr_append _ (by simpa using h), Option.map_some]
  simp only [List.reverse_reverse]

theorem decimal_eq (n : Nat) : decimal n =
    if n < 10 then [.ofNat (48 + n)] else decimal (n / 10) ++ [.ofNat (48 + n % 10)] := by
  have hchar : ∀ d : Fin 10, (Nat.digitChar d.1).toUInt8 = .ofNat (48 + d.1) := by decide
  unfold decimal
  rw [Nat.toDigits_eq_if (by decide)]
  split
  · exact congrArg (fun c => [c]) (hchar ⟨n, ‹_›⟩)
  · rw [List.map_append]
    exact congrArg (fun c => _ ++ [c]) (hchar ⟨n % 10, Nat.mod_lt n (by decide)⟩)

theorem decimal_ne_nil (n : Nat) : decimal n ≠ [] := by
  rw [decimal_eq]
  split <;> simp

theorem isdigit_ofNat {d : Nat} (h : d < 10) : isdigit (.ofNat (48 + d)) = true := by
  have hall : ∀ d : Fin 10, isdigit (.ofNat (48 + d.1)) = true := by decide
  exact hall ⟨d, h⟩

theorem isdigit_decimal {n : Nat} : ∀ c ∈ decimal n, isdigit c = true := by
  induction n using Nat.strongRecOn with
  | ind n ih =>
    intro c hc
    rw [decimal_eq] at hc
    split at hc
    · rw [List.mem_singleton.mp hc]
      exact isdigit_ofNat ‹_›
    · rcases List.mem_append.mp hc with hold | hnew
      · exact ih (n / 10) (by omega) c hold
      · rw [List.mem_singleton.mp hnew]
        exact isdigit_ofNat (Nat.mod_lt n (by decide))

theorem digitsValue_concat (digits : List UInt8) (c : UInt8) :
    digitsValue (digits ++ [c]) = 10 * digitsValue digits + (c.toNat - 48) := by
  simp [digitsValue]

theorem toNat_ofNat {d : Nat} (h : d < 10) : (UInt8.ofNat (48 + d)).toNat - 48 = d := by
  have hall : ∀ d : Fin 10, (UInt8.ofNat (48 + d.1)).toNat - 48 = d.1 := by decide
  exact hall ⟨d, h⟩

theorem digitsValue_decimal (n : Nat) : digitsValue (decimal n) = n := by
  induction n using Nat.strongRecOn with
  | ind n ih =>
    rw [decimal_eq]
    split
    · have hvalue := digitsValue_concat [] (.ofNat (48 + n))
      rw [List.nil_append, toNat_ofNat ‹_›] at hvalue
      simpa [digitsValue] using hvalue
    · rw [digitsValue_concat, ih (n / 10) (by omega), toNat_ofNat (Nat.mod_lt n (by decide))]
      omega

set_option maxRecDepth 4096 in
theorem strtol_digits {digits : List UInt8} (hne : digits ≠ [])
    (hall : ∀ c ∈ digits, isdigit c = true) :
    strtol digits = min (digitsValue digits : Int) (2 ^ 63 - 1) := by
  cases digits with
  | nil => exact absurd rfl hne
  | cons c digits =>
    have hc := hall c List.mem_cons_self
    have hhead : isspace c = false ∧ c ≠ 45 ∧ c ≠ 43 := by
      have hbyte : ∀ c : UInt8, isdigit c = true → isspace c = false ∧ c ≠ 45 ∧ c ≠ 43 :=
        forall_byte (by decide)
      exact hbyte c hc
    unfold strtol
    rw [List.dropWhile_cons_of_neg (by simp [hhead.1])]
    have htake := List.takeWhile_eq_self_iff.mpr hall
    split
    · rename_i hsign
      exact absurd (List.cons.inj hsign).1 hhead.2.1
    · rename_i hsign
      exact absurd (List.cons.inj hsign).1 hhead.2.2
    · simp only [htake]

theorem portOf_decimal (port : UInt16) : portOf (decimal port.toNat) = some port := by
  have hlt := port.toNat_lt
  have hatoi : atoi (decimal port.toNat) = (port.toNat : Int) := by
    rw [atoi, strtol_digits (decimal_ne_nil _) isdigit_decimal, digitsValue_decimal,
      min_eq_left (by omega)]
    exact Int.bmod_eq_of_le (by omega) (by omega)
  have hrange : ¬ ((port.toNat : Int) < 0 ∨ (port.toNat : Int) > 65535) := by omega
  have hdigits : (decimal port.toNat).all isdigit = true := List.all_eq_true.mpr isdigit_decimal
  rw [portOf, hatoi, if_neg hrange, if_pos hdigits, Int.toNat_natCast, UInt16.ofNat_toNat]

theorem portOf_slash (l r : List UInt8) : portOf (l ++ 47 :: r) = none := by
  unfold portOf
  split
  · rfl
  · rw [if_neg (by simp [isdigit])]

/-! ### The key -/

theorem mem_urlEncode {key : List UInt8} {c : UInt8} (h : c ∈ urlEncode key) :
    c = 37 ∨ asciiIsxdigit c = true := by
  obtain ⟨byte, -, hc⟩ := List.mem_flatMap.mp h
  rcases List.mem_cons.mp hc with rfl | hc
  · exact .inl rfl
  · have hpair : c ∈ hexDigits [byte] := by simpa [hexDigits] using hc
    exact .inr (isxdigit_hexDigits hpair)

theorem not_mem_urlEncode (key : List UInt8) {c : UInt8} (hc : c = 44 ∨ c = 47 ∨ c = 58) :
    c ∉ urlEncode key := by
  intro hmem
  rcases mem_urlEncode hmem with rfl | hdigit
  · revert hc
    decide
  · rcases hc with rfl | rfl | rfl <;> revert hdigit <;> decide

theorem urlEncode_ne_nil {key : List UInt8} (h : key ≠ []) : urlEncode key ≠ [] := by
  cases key with
  | nil => exact absurd rfl h
  | cons byte key => exact nofun

set_option maxRecDepth 4096 in
theorem urlDecode_urlEncode (key : List UInt8) : urlDecode (urlEncode key) = some key := by
  induction key with
  | nil => rfl
  | cons byte key ih =>
    have hbyte : ∀ byte : UInt8,
        (asciiIsxdigit (num2hexdigit ((byte &&& 0xF0) >>> 4)) &&
          asciiIsxdigit (num2hexdigit (byte &&& 0xF))) = true ∧
        asciiXdigitValue (num2hexdigit ((byte &&& 0xF0) >>> 4)) <<< 4 |||
          asciiXdigitValue (num2hexdigit (byte &&& 0xF)) = byte := forall_byte (by decide)
    have hcons : urlEncode (byte :: key) = 37 :: num2hexdigit ((byte &&& 0xF0) >>> 4) ::
        num2hexdigit (byte &&& 0xF) :: urlEncode key := rfl
    rw [hcons, urlDecode, if_pos (hbyte byte).1, ih, (hbyte byte).2, Option.map_some]

/-! ### A profile -/

theorem versionOf_versionStr (ver : Version) : versionOf (versionStr ver) = some ver := by
  cases ver <;> decide

set_option maxRecDepth 4096 in
/-- What `corbaloc_profile_iiop_parse` makes of an address. -/
theorem iiopAddress_print (ssl : Bool) (ver : Version) {host port : List UInt8} (hhost : 58 ∉ host)
    (hport : port ≠ []) :
    iiopAddress ssl (versionStr ver ++ 64 :: (host ++ 58 :: port)) =
      if host = [] then none else (portOf port).map fun port => (ver, host, port) := by
  have hver : ∀ c ∈ versionStr ver, c ≠ 64 ∧ c ≠ 47 := by
    cases ver <;> decide
  have hnever : versionStr ver ≠ [] := by
    cases ver <;> decide
  have hdrop : (versionStr ver ++ 64 :: (host ++ 58 :: port)).dropWhile (· = 47) =
      versionStr ver ++ 64 :: (host ++ 58 :: port) := by
    cases ver <;> rfl
  unfold iiopAddress
  simp only [hdrop, strchr_append _ fun hmem => (hver 64 hmem).1 rfl, strchr_append _ hhost,
    Option.getD_some, hnever, hport, false_or, or_false]
  by_cases hnil : host = []
  · rw [if_pos hnil, if_pos hnil]
  · rw [if_neg hnil, if_neg hnil, versionOf_versionStr]
    cases portOf port <;> rfl

theorem iiopParse_iiop (token : List UInt8) :
    iiopParse (text "iiop:" ++ token) = (iiopAddress false token).map fun found => (false, found) := by
  have hscheme : scheme (text "iiop:" ++ token) = some false := rfl
  have hchr : strchr 58 (text "iiop:" ++ token) = some (text "iiop", token) :=
    strchr_append (l := text "iiop") token (by decide)
  unfold iiopParse
  rw [hscheme, hchr]
  cases hfound : iiopAddress false token <;> simp [hfound]

theorem iiopParse_ssliop (token : List UInt8) :
    iiopParse (text "ssliop:" ++ token) =
      (iiopAddress true token).map fun found => (true, found) := by
  have hscheme : scheme (text "ssliop:" ++ token) = some true := rfl
  have hchr : strchr 58 (text "ssliop:" ++ token) = some (text "ssliop", token) :=
    strchr_append (l := text "ssliop") token (by decide)
  unfold iiopParse
  rw [hscheme, hchr]
  cases hfound : iiopAddress true token <;> simp [hfound]

/-- What `corbaloc_profile_uiop_parse` makes of an absolute path. -/
theorem uiopParse_print {path port : List UInt8} (habsolute : path.head? = some 47)
    (hport : 58 ∉ port) :
    uiopParse (text "uiop:" ++ (path ++ 58 :: port)) =
      (if port = [] then some 0 else portOf port).map fun port =>
        (47 :: path.dropWhile (· = 47), port) := by
  have hchr : strchr 58 (text "uiop:" ++ (path ++ 58 :: port)) =
      some (text "uiop", path ++ 58 :: port) :=
    strchr_append (l := text "uiop") _ (by decide)
  have hhead : (path ++ 58 :: port).head? = some 47 := by
    rw [List.head?_append, habsolute, Option.some_or]
  have hdrop : (path ++ 58 :: port).dropWhile (· = 47) =
      path.dropWhile (· = 47) ++ 58 :: port := by
    rw [List.dropWhile_append]
    split
    · rename_i hnil
      rw [List.isEmpty_iff.mp hnil]
      rfl
    · rfl
  have hrchr := strrchr_append (47 :: path.dropWhile (· = 47)) hport
  rw [List.cons_append] at hrchr
  have hprefix : (text "uiop:").isPrefixOf (text "uiop:" ++ (path ++ 58 :: port)) = true := rfl
  rw [uiopParse, if_pos hprefix, hchr]
  simp only [Option.bind_eq_bind, Option.bind_some, hhead, if_true, hdrop, hrchr]
  by_cases hnil : port = []
  · simp [hnil]
  · cases portOf port <;> simp [hnil]

section Tokens
variable (key : List UInt8)

theorem tokenProfile_iiop (ver : Version) {host port : List UInt8} (hhost : 58 ∉ host)
    (hport : port ≠ []) :
    tokenProfile key (text "iiop:" ++ (versionStr ver ++ 64 :: (host ++ 58 :: port))) =
      if host = [] then none
      else (portOf port).map fun port => .internetIop ver host port (some key) [] := by
  change profileIiop (text "iiop:" ++ _) key = _
  rw [profileIiop, iiopParse_iiop, iiopAddress_print false ver hhost hport]
  by_cases hnil : host = []
  · simp [hnil]
  · rw [if_neg hnil, if_neg hnil]
    cases portOf port <;> simp

theorem tokenProfile_ssliop (ver : Version) {host port : List UInt8} (hhost : 58 ∉ host)
    (hport : port ≠ []) :
    tokenProfile key (text "ssliop:" ++ (versionStr ver ++ 64 :: (host ++ 58 :: port))) =
      if host = [] ∨ ver = .v1_0 then none
      else (portOf port).map fun port =>
        .internetIop ver host 0 (some key) [.sslSecTrans 126 6 port] := by
  change profileIiop (text "ssliop:" ++ _) key = _
  rw [profileIiop, iiopParse_ssliop, iiopAddress_print true ver hhost hport]
  by_cases hnil : host = []
  · simp [hnil]
  · rw [if_neg hnil]
    cases portOf port <;> cases ver <;> simp [hnil]

theorem tokenProfile_uiop {path port : List UInt8} (habsolute : path.head? = some 47)
    (hport : 58 ∉ port) :
    tokenProfile key (text "uiop:" ++ (path ++ 58 :: port)) =
      (if port = [] then some 0 else portOf port).map fun port =>
        .orbitSpecific (47 :: path.dropWhile (· = 47)) port (some key) := by
  change profileUiop (text "uiop:" ++ _) key = _
  rw [profileUiop, uiopParse_print habsolute hport]
  cases (if port = [] then some 0 else portOf port) <;> simp

end Tokens

/-- One leading '/' is what is left of a path. -/
theorem single_slash {path : List UInt8} (habsolute : path.head? = some 47) :
    47 :: path.dropWhile (· = 47) = path ↔ ¬ [47, 47] <+: path := by
  cases path with
  | nil => cases habsolute
  | cons c path =>
    obtain rfl : c = 47 := Option.some.inj habsolute
    rw [List.dropWhile_cons_of_pos (by simp), List.cons_prefix_cons, List.cons.injEq]
    cases path with
    | nil => simp
    | cons d path =>
      by_cases hd : d = 47
      · subst hd
        simp only [true_and, List.cons_prefix_cons, List.nil_prefix, not_true_eq_false, iff_false]
        intro heq
        have hlen := List.length_dropWhile_le (p := fun c => decide (c = 47)) path
        rw [List.dropWhile_cons_of_pos (by simp)] at heq
        rw [heq, List.length_cons] at hlen
        omega
      · simp [hd, Ne.symm hd, List.cons_prefix_cons]

/-- What there is to know of the text of a profile. -/
structure Printed (key : List UInt8) (p : IopProfile CString) (a : List UInt8) : Prop where
  oneToken : 44 ∉ a
  filled : a ≠ []
  /-- with a key behind it, as all but the last have, it is no token -/
  spoilt : ∀ behind, 58 ∉ behind → tokenProfile key (a ++ 47 :: behind) = none
  comesBack : (∃ q, tokenProfile key a = some q ∧ SameProfile key p q) ↔ ComesBack p

set_option maxRecDepth 4096 in
theorem decimal_plain {n : Nat} {c : UInt8} (h : c ∈ decimal n) : c ≠ 44 ∧ c ≠ 47 ∧ c ≠ 58 := by
  have hbyte : ∀ c : UInt8, isdigit c = true → c ≠ 44 ∧ c ≠ 47 ∧ c ≠ 58 :=
    forall_byte (by decide)
  exact hbyte c (isdigit_decimal c h)

set_option maxRecDepth 4096 in
theorem versionStr_plain {ver : Version} {c : UInt8} (h : c ∈ versionStr ver) : c ≠ 44 := by
  have hall : ∀ c ∈ versionStr ver, c ≠ 44 := by
    cases ver <;> decide
  exact hall c h

/-- No comma in the text of an IIOP profile. -/
theorem iiop_oneToken {front host : List UInt8} (ver : Version) (n : Nat) (hfront : 44 ∉ front)
    (hhost : 44 ∉ host) : 44 ∉ front ++ (versionStr ver ++ 64 :: (host ++ 58 :: decimal n)) := by
  simp only [List.mem_append, List.mem_cons, not_or]
  exact ⟨hfront, fun h => versionStr_plain h rfl, by decide, hhost, by decide,
    fun h => (decimal_plain h).1 rfl⟩

theorem printed_internetIop {key : List UInt8} {ver : Version} {host : CString} {port : UInt16}
    {own : Option (List UInt8)} {components : List (IopComponent CString)} {a : List UInt8}
    (hplain : Plain (.internetIop ver host port own components))
    (ha : address (.internetIop ver host port own components) = .ok (some a)) :
    Printed key (.internetIop ver host port own components) a := by
  have hcomma : 44 ∉ host.1 := fun h => (hplain 44 h).1 rfl
  have hcolon : 58 ∉ host.1 := fun h => (hplain 58 h).2.2.1 rfl
  rw [address] at ha
  cases hssl : sslPort components with
  | none =>
    rw [hssl] at ha
    obtain rfl : text "iiop:" ++ versionStr ver ++ 64 :: host.1 ++ 58 :: decimal port.toNat = a :=
      Option.some.inj (Except.ok.inj ha)
    simp only [List.append_assoc, List.cons_append]
    refine ⟨iiop_oneToken ver _ (by decide) hcomma, by simp [text], fun behind _ => ?_, ?_⟩
    · simp only [List.append_assoc, List.cons_append]
      rw [tokenProfile_iiop key ver hcolon (by simp), portOf_slash]
      exact ite_self _
    · rw [tokenProfile_iiop key ver hcolon (decimal_ne_nil _), portOf_decimal]
      by_cases hnil : host.1 = [] <;> simp [hnil, SameProfile, ComesBack, hssl, sslPort]
  | some ssl =>
    rw [hssl] at ha
    by_cases hzero : ssl = 0
    · simp [hzero] at ha
    · simp only [if_neg hzero] at ha
      obtain rfl : text "ssliop:" ++ versionStr ver ++ 64 :: host.1 ++ 58 :: decimal ssl.toNat = a :=
        Option.some.inj (Except.ok.inj ha)
      simp only [List.append_assoc, List.cons_append]
      refine ⟨iiop_oneToken ver _ (by decide) hcomma, by simp [text], fun behind _ => ?_, ?_⟩
      · simp only [List.append_assoc, List.cons_append]
        rw [tokenProfile_ssliop key ver hcolon (by simp), portOf_slash]
        exact ite_self _
      · rw [tokenProfile_ssliop key ver hcolon (decimal_ne_nil _), portOf_decimal]
        by_cases hnil : host.1 = [] <;> by_cases hver : ver = .v1_0 <;>
          simp [hnil, hver, hzero, SameProfile, ComesBack, hssl, sslPort, eq_comm]

theorem printed_orbitSpecific {key : List UInt8} {unixSockPath : CString} {ipv6Port : UInt16}
    {own : Option (List UInt8)} {a : List UInt8}
    (hplain : Plain (.orbitSpecific unixSockPath ipv6Port own))
    (ha : address (.orbitSpecific unixSockPath ipv6Port own) = .ok (some a)) :
    Printed key (.orbitSpecific unixSockPath ipv6Port own) a := by
  obtain ⟨habsolute, hdelimiters⟩ := hplain
  have hcomma : 44 ∉ unixSockPath.1 := fun h => (hdelimiters 44 h).1 rfl
  have hport : ∀ c ∈ (if ipv6Port ≠ 0 then decimal ipv6Port.toNat else []), c ≠ 44 ∧ c ≠ 58 := by
    intro c hc
    split at hc
    · exact ⟨(decimal_plain hc).1, (decimal_plain hc).2.2⟩
    · cases hc
  have hfound : (if (if ipv6Port ≠ 0 then decimal ipv6Port.toNat else []) = [] then some 0
      else portOf (if ipv6Port ≠ 0 then decimal ipv6Port.toNat else [])) = some ipv6Port := by
    by_cases hzero : ipv6Port = 0
    · simp [hzero]
    · simp [hzero, decimal_ne_nil, portOf_decimal]
  obtain rfl : text "uiop:" ++ unixSockPath.1 ++
      58 :: (if ipv6Port ≠ 0 then decimal ipv6Port.toNat else []) = a :=
    Option.some.inj (Except.ok.inj ha)
  simp only [List.append_assoc]
  refine ⟨?_, by simp [text], fun behind hbehind => ?_, ?_⟩
  · simp only [List.mem_append, List.mem_cons, not_or]
    exact ⟨by decide, hcomma, by decide, fun h => (hport 44 h).1 rfl⟩
  · simp only [List.append_assoc, List.cons_append]
    rw [tokenProfile_uiop key habsolute, if_neg (by simp), portOf_slash, Option.map_none]
    simp only [List.mem_append, List.mem_cons, not_or]
    exact ⟨fun h => (hport 58 h).2 rfl, by decide, hbehind⟩
  · rw [tokenProfile_uiop key habsolute fun h => (hport 58 h).2 rfl, hfound]
    simp [SameProfile, ComesBack, single_slash habsolute]

theorem printed {key : List UInt8} {p : IopProfile CString} {a : List UInt8} (hplain : Plain p)
    (ha : address p = .ok (some a)) : Printed key p a := by
  cases p with
  | internetIop => exact printed_internetIop hplain ha
  | orbitSpecific => exact printed_orbitSpecific hplain ha
  | genericIop | multipleComponents | unknown => exact absurd hplain id

/-- What is not printed does not come back. -/
theorem not_comesBack {p : IopProfile CString} (hplain : Plain p) {fault : ObjrefFault}
    (ha : address p = .error fault) : ¬ ComesBack p := by
  cases p with
  | internetIop ver host port own components =>
    rw [address] at ha
    intro hback
    cases hssl : sslPort components with
    | none =>
      rw [hssl] at ha
      cases ha
    | some ssl =>
      rw [hssl] at ha
      have hne := (hback.2 ssl (by simp [hssl])).1
      simp only [if_neg hne] at ha
      cases ha
  | orbitSpecific => cases ha
  | genericIop | multipleComponents | unknown => exact absurd hplain id

/-! ### The whole text -/

/-- What stands before the last '/' of a text: the key is behind each profile but the last. -/
def body (key a : List UInt8) : List (List UInt8) → List UInt8
  | [] => a
  | b :: as => a ++ 47 :: urlEncode key ++ 44 :: body key b as

theorem intercalate_body (key a : List UInt8) (as : List (List UInt8)) :
    [44].intercalate ((a :: as).map (· ++ 47 :: urlEncode key)) =
      body key a as ++ 47 :: urlEncode key := by
  induction as generalizing a with
  | nil => simp [body]
  | cons b as ih =>
    rw [List.map_cons, List.intercalate_cons_of_ne_nil (by simp), ih, body]
    simp

/-- The parser on what the printer writes. -/
theorem corbalocParse_body {key : List UInt8} (hkey : key ≠ []) (a : List UInt8)
    (as : List (List UInt8)) :
    corbalocParse (text "corbaloc:" ++ [44].intercalate
      ((a :: as).map (· ++ 47 :: urlEncode key))) =
      ((strsplit (body key a as)).mapM (tokenProfile key)).getD [] := by
  have hprefix (s : List UInt8) : (text "corbaloc:").isPrefixOf (text "corbaloc:" ++ s) = true :=
    List.isPrefixOf_iff_prefix.mpr (List.prefix_append ..)
  rw [intercalate_body]
  simp only [corbalocParse, hprefix, if_true, List.drop_left,
    strrchr_append _ (not_mem_urlEncode key (.inr (.inl rfl))), Option.bind_eq_bind,
    Option.bind_some, if_neg (urlEncode_ne_nil hkey), urlDecode_urlEncode]

theorem strsplit_single {a : List UInt8} (hne : a ≠ []) (h : 44 ∉ a) : strsplit a = [a] := by
  rw [strsplit, if_neg hne, List.splitOn_eq_singleton h]

theorem strsplit_body {key a : List UInt8} (h : 44 ∉ a) (b : List UInt8) (as : List (List UInt8)) :
    strsplit (body key a (b :: as)) = (a ++ 47 :: urlEncode key) :: (body key b as).splitOn 44 := by
  have hfirst : 44 ∉ a ++ 47 :: urlEncode key := by
    simp only [List.mem_append, List.mem_cons, not_or]
    exact ⟨h, by decide, not_mem_urlEncode key (.inl rfl)⟩
  rw [strsplit, body, if_neg (by simp), List.splitOn_append_cons_self_of_not_mem hfirst]

theorem asCorbaloc_plain {p : IopProfile CString} (h : Plain p) (ps : List (IopProfile CString)) :
    asCorbaloc (p :: ps) = true := by
  cases p with
  | internetIop | orbitSpecific => rfl
  | genericIop | multipleComponents | unknown => exact absurd h id

theorem address_plain {p : IopProfile CString} (h : Plain p) {found : Option (List UInt8)}
    (ha : address p = .ok found) : ∃ a, found = some a := by
  cases p with
  | internetIop ver host port own components =>
    rw [address] at ha
    split at ha
    · split at ha <;> cases ha
      exact ⟨_, rfl⟩
    · cases ha
      exact ⟨_, rfl⟩
  | orbitSpecific => exact ⟨_, (Except.ok.inj ha).symm⟩
  | genericIop | multipleComponents | unknown => exact absurd h id

/-- The addresses of the profiles, when they are all printed. -/
theorem addresses_cases {p : IopProfile CString} {ps : List (IopProfile CString)}
    (hplain : ∀ q ∈ p :: ps, Plain q) :
    (∃ fault, (p :: ps).mapM address = .error fault) ∨
      ∃ a as, address p = .ok (some a) ∧ as.length = ps.length ∧
        (p :: ps).mapM address = .ok ((a :: as).map some) := by
  induction ps generalizing p with
  | nil =>
    cases ha : address p with
    | error fault => exact .inl ⟨fault, by simp [ha, bind, Except.bind]⟩
    | ok found =>
      obtain ⟨a, rfl⟩ := address_plain (hplain p List.mem_cons_self) ha
      exact .inr ⟨a, [], rfl, rfl, by simp [ha, bind, Except.bind, pure, Except.pure]⟩
  | cons q qs ih =>
    cases ha : address p with
    | error fault => exact .inl ⟨fault, by rw [List.mapM_cons, ha]; rfl⟩
    | ok found =>
      obtain ⟨a, rfl⟩ := address_plain (hplain p List.mem_cons_self) ha
      rcases ih fun r hr => hplain r (List.mem_cons_of_mem _ hr) with ⟨fault, hfault⟩ |
        ⟨b, bs, -, hlen, hok⟩
      · exact .inl ⟨fault, by rw [List.mapM_cons, ha, hfault]; rfl⟩
      · refine .inr ⟨a, b :: bs, rfl, by rw [List.length_cons, hlen, List.length_cons], ?_⟩
        rw [List.mapM_cons, ha, hok]
        rfl

theorem corbalocFrom_ok {p : IopProfile CString} {ps : List (IopProfile CString)}
    {key a : List UInt8} {as : List (List UInt8)} (hplain : Plain p)
    (h : (p :: ps).mapM address = .ok ((a :: as).map some)) :
    corbalocFrom (p :: ps) key = .ok (some (text "corbaloc:" ++
      [44].intercalate ((a :: as).map (· ++ 47 :: urlEncode key)))) := by
  have hreduce : ((a :: as).map some).reduceOption = a :: as := by
    simp [List.reduceOption]
  simp only [corbalocFrom, asCorbaloc_plain hplain ps, if_true, h, bind, Except.bind, hreduce]
  rfl

theorem roundTrips_single {p : IopProfile CString} {key : List UInt8} (hkey : key ≠ [])
    (hplain : Plain p) : RoundTrips [p] key ↔ ComesBack p := by
  cases ha : address p with
  | error fault =>
    refine iff_of_false ?_ (not_comesBack hplain ha)
    rintro ⟨corbaloc, hfrom, -⟩
    simp only [corbalocFrom, asCorbaloc_plain hplain, if_true, List.mapM_cons, ha, bind,
      Except.bind] at hfrom
    cases hfrom
  | ok found =>
    obtain ⟨a, rfl⟩ := address_plain hplain ha
    have hprinted : Printed key p a := printed hplain ha
    have hmap : [p].mapM address = .ok ([a].map some) := by
      simp [ha, bind, Except.bind, pure, Except.pure]
    have hparse : corbalocParse (text "corbaloc:" ++ [44].intercalate
        ([a].map (· ++ 47 :: urlEncode key))) = (tokenProfile key a).toList := by
      rw [corbalocParse_body hkey, body, strsplit_single hprinted.filled hprinted.oneToken]
      cases htoken : tokenProfile key a <;> simp [htoken]
    unfold RoundTrips
    rw [corbalocFrom_ok hplain hmap, ← hprinted.comesBack]
    simp only [Except.ok.injEq, Option.some.injEq, exists_eq_left', hparse]
    cases tokenProfile key a with
    | none => simp
    | some q => simp

theorem roundTrips_fails {p q : IopProfile CString} {ps : List (IopProfile CString)}
    {key : List UInt8} (hkey : key ≠ []) (hplain : ∀ r ∈ p :: q :: ps, Plain r) :
    ¬ RoundTrips (p :: q :: ps) key := by
  have hp : Plain p := hplain p List.mem_cons_self
  rintro ⟨corbaloc, hfrom, hback⟩
  rcases addresses_cases hplain with ⟨fault, hfault⟩ | ⟨a, as, ha, hlen, hok⟩
  · simp only [corbalocFrom, asCorbaloc_plain hp, if_true, hfault, bind, Except.bind] at hfrom
    cases hfrom
  · rw [corbalocFrom_ok hp hok] at hfrom
    obtain rfl := Option.some.inj (Except.ok.inj hfrom)
    have hprinted : Printed key p a := printed hp ha
    cases as with
    | nil => cases hlen
    | cons b as =>
      have hspoilt := hprinted.spoilt _ (not_mem_urlEncode key (.inr (.inr rfl)))
      rw [corbalocParse_body hkey, strsplit_body hprinted.oneToken, List.mapM_cons, hspoilt] at hback
      cases hback

/-- Of the lists that can be printed, exactly those of one profile come back, when it does. -/
theorem corbaloc_round_trip {profileList : List (IopProfile CString)} {key : List UInt8}
    (hne : profileList ≠ []) (hkey : key ≠ []) (hplain : ∀ p ∈ profileList, Plain p) :
    RoundTrips profileList key ↔ ∃ p, profileList = [p] ∧ ComesBack p := by
  match profileList with
  | [] => exact absurd rfl hne
  | [p] =>
    rw [roundTrips_single hkey (hplain p List.mem_cons_self)]
    simp
  | p :: q :: ps =>
    refine iff_of_false (roundTrips_fails hkey hplain) ?_
    rintro ⟨r, hr, -⟩
    cases hr

/-- An IIOP profile of GIOP 1.2. -/
def iiopProfile (host : CString) (port : UInt16) : IopProfile CString :=
  .internetIop .v1_2 host port none []

theorem plain_iiopProfile {host : CString} {port : UInt16}
    (h : ∀ c ∈ host.1, c ≠ 44 ∧ c ≠ 47 ∧ c ≠ 58 ∧ c ≠ 64) : Plain (iiopProfile host port) := h

set_option maxRecDepth 4096 in
theorem corbaloc_round_trip_one : RoundTrips [iiopProfile ⟨text "host", by decide⟩ 88] [1] := by
  refine (corbaloc_round_trip (by decide) (by decide) fun p hp => ?_).mpr ⟨_, rfl, ?_⟩
  · rw [List.mem_singleton.mp hp]
    exact plain_iiopProfile (by decide)
  · exact ⟨by decide, nofun⟩

/-- Two servers of one object. -/
def twoProfiles : List (IopProfile CString) :=
  [iiopProfile ⟨text "a", by decide⟩ 88, iiopProfile ⟨text "b", by decide⟩ 99]

set_option maxRecDepth 4096 in
theorem two_profiles_lost : (∀ p ∈ twoProfiles, Plain p) ∧ ¬ RoundTrips twoProfiles [1] := by
  have hplain : ∀ p ∈ twoProfiles, Plain p := by
    intro p hp
    rcases List.mem_pair.mp hp with rfl | rfl <;> exact plain_iiopProfile (by decide)
  exact ⟨hplain, roundTrips_fails (by decide) hplain⟩

end ORBit2.Corbaloc
