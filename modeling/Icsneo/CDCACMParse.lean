import Icsneo.CDCACMFind

/-! The text `CDCACM::Find` parses, with `std::stoul` as libstdc++ runs it over `strtoul`: the VID
and PID of a `PRODUCT=` line, the handle from a tty's name, and `HandleToTTY`'s path back. -/

namespace Icsneo.CDCACM

/-- `isspace` in the C locale: space, and `\t` to `\r`. -/
def isspace (c : Char) : Bool := c.toNat = 32 || (9 ≤ c.toNat && c.toNat ≤ 13)

/-- `isdigit` in the C locale. -/
def isdigit (c : Char) : Bool := '0' ≤ c && c ≤ '9'

/-- The value `strtoul` reads a character as: `0`–`9`, and `a`–`z` or `A`–`Z` for 10–35. -/
def digitValue (c : Char) : Option Nat :=
  if '0' ≤ c ∧ c ≤ '9' then some (c.toNat - '0'.toNat)
  else if 'a' ≤ c ∧ c ≤ 'z' then some (c.toNat - 'a'.toNat + 10)
  else if 'A' ≤ c ∧ c ≤ 'Z' then some (c.toNat - 'A'.toNat + 10)
  else none

/-- The values of the digits of base `base` that `s` starts with. -/
def digitRun (base : Nat) : List Char → List Nat
  | [] => []
  | c :: s =>
    match digitValue c with
    | some d => if d < base then d :: digitRun base s else []
    | none => []

/-- The number the digits `ds` write in base `base`, most significant first. -/
def digitsValue (base : Nat) (ds : List Nat) : Nat := ds.foldl (fun v d => v * base + d) 0

/-- What `std::stoul` throws. -/
inductive StoulError
  | invalid_argument
  | out_of_range
  deriving DecidableEq, Repr

/-- The sign `strtoul` reads, `true` for `-`. -/
def stripSign : List Char → Bool × List Char
  | '-' :: s => (true, s)
  | '+' :: s => (false, s)
  | s => (false, s)

/-- The `0x` or `0X` that `strtoul` skips in base 16, `true` when it was there. -/
def strip0x (base : Nat) : List Char → Bool × List Char
  | '0' :: x :: s =>
    if base = 16 ∧ (x = 'x' ∨ x = 'X') then (true, s) else (false, '0' :: x :: s)
  | s => (false, s)

/-- `std::stoul(str, nullptr, base)` over glibc's `strtoul`: white space, a sign, `0x` in base
16, then the longest digit run; no digit throws `invalid_argument` (a lone `0x` reads 0), a value
over `ULONG_MAX` throws `out_of_range`, and `-` negates modulo 2^64. -/
def stoul (str : List Char) (base : Nat) : Except StoulError Nat :=
  let (negative, s) := stripSign (str.dropWhile isspace)
  let (hex, s) := strip0x base s
  match digitRun base s with
  | [] => if hex then .ok 0 else .error .invalid_argument
  | ds =>
    if digitsValue base ds < 2 ^ 64 then
      .ok (if negative then (2 ^ 64 - digitsValue base ds) % 2 ^ 64 else digitsValue base ds)
    else .error .out_of_range

/-- `std::string::npos`. -/
def npos : Nat := 2 ^ 64 - 1

/-- `s.find(c, pos)`: the first position from `pos` on that holds `c`, `none` standing for
`npos`. -/
def findFrom (s : List Char) (c : Char) (pos : Nat) : Option Nat :=
  ((s.drop pos).findIdx? (· == c)).map (· + pos)

/-- `s.substr(pos, n)` for `pos ≤ s.size()`. -/
def substr (s : List Char) (pos n : Nat) : List Char := (s.drop pos).take n

/-- Lines 136–163 for one tty, from the `pos` and `productLine` the loop ended with: the PID when
the entry stays in `foundttys`, `none` when it is erased. -/
def productLinePid (INTREPID_USB_VENDOR_ID : UInt16) (pos : Option Nat)
    (productLine : List Char) : Option UInt16 :=
  if pos ≠ some 0 then none
  else
    match findFrom productLine '/' matchString.length with
    | none => none
    | some firstSlashPos =>
      let pidpos := firstSlashPos + 1
      let vidstr := substr productLine matchString.length (firstSlashPos - matchString.length)
      let pidstr :=
        substr productLine pidpos ((findFrom productLine '/' pidpos).getD npos - pidpos)
      match stoul vidstr 16, stoul pidstr 16 with
      | .ok vid, .ok pid =>
        if UInt16.ofNat vid ≠ INTREPID_USB_VENDOR_ID then none else some (UInt16.ofNat pid)
      | _, _ => none

/-- `HANDLE_OFFSET` (line 21). -/
def HANDLE_OFFSET : Int := 10

/-- A conversion to a signed integer type of `bits` bits: the value modulo `2^bits`, read in two's
complement. -/
def toSigned (bits : Nat) (v : Int) : Int :=
  if v % 2 ^ bits < 2 ^ (bits - 1) then v % 2 ^ bits else v % 2 ^ bits - 2 ^ bits

/-- Lines 179–194 for one tty name: `device.handle`, `neodevice_handle_t` being a signed type of
`handleBits` bits; `none` when `std::stoul` throws and the device is tossed. -/
def ttyHandle (handleBits : Nat) (tty : List Char) : Option Int :=
  match stoul (tty.drop (tty.findIdx isdigit)) 10 with
  | .ok v => some (toSigned handleBits v + HANDLE_OFFSET)
  | .error _ => none

/-- `ss << i` for an `int`: its decimal digits, after a `-` when it is negative. -/
def intDecimal : Int → List Char
  | .ofNat n => Nat.toDigits 10 n
  | .negSucc n => '-' :: Nat.toDigits 10 (n + 1)

/-- `CDCACM::HandleToTTY` (lines 208–212), `int` being 32 bits wide. -/
def HandleToTTY (handle : Int) : List Char :=
  "/dev/ttyACM".toList ++ intDecimal (toSigned 32 (handle - HANDLE_OFFSET))

section Digits

theorem digitValue_digitChar : ∀ d < 16, digitValue (Nat.digitChar d) = some d := by decide

theorem digitChar_ne : ∀ d < 16, isspace (Nat.digitChar d) = false ∧ Nat.digitChar d ≠ '-' ∧
    Nat.digitChar d ≠ '+' ∧ Nat.digitChar d ≠ 'x' ∧ Nat.digitChar d ≠ 'X' ∧
    Nat.digitChar d ≠ '/' := by
  decide

theorem digitsValue_append_singleton (b : Nat) (ds : List Nat) (d : Nat) :
    digitsValue b (ds ++ [d]) = digitsValue b ds * b + d := by
  simp [digitsValue]

/-- `Nat.toDigitsCore` writes `n` with digits below the base, most significant first, in front
of what it was given. -/
theorem toDigitsCore_eq {b : Nat} (hb : 1 < b) :
    ∀ (fuel n : Nat) (cs : List Char), n < fuel →
      ∃ ds : List Nat, ds ≠ [] ∧ (∀ d ∈ ds, d < b) ∧ digitsValue b ds = n ∧
        Nat.toDigitsCore b fuel n cs = ds.map Nat.digitChar ++ cs
  | 0, _, _, h => absurd h (Nat.not_lt_zero _)
  | fuel + 1, n, cs, h => by
    have hmod : n % b < b := Nat.mod_lt n (by omega)
    by_cases hq : n / b = 0
    · refine ⟨[n % b], by simp, by simpa using hmod, ?_, by simp [Nat.toDigitsCore, hq]⟩
      have : n % b = n := Nat.mod_eq_of_lt ((Nat.div_eq_zero_iff (by omega)).mp hq)
      simpa [digitsValue] using this
    · have hlt : n / b < fuel := by
        have := Nat.div_lt_self (Nat.pos_of_ne_zero fun h0 => hq (h0 ▸ Nat.zero_div b)) hb
        omega
      obtain ⟨ds, -, hds, hval, heq⟩ :=
        toDigitsCore_eq hb fuel (n / b) (Nat.digitChar (n % b) :: cs) hlt
      refine ⟨ds ++ [n % b], by simp, ?_, ?_, ?_⟩
      · simpa [or_imp, forall_and] using ⟨hds, hmod⟩
      · rw [digitsValue_append_singleton, hval, Nat.div_add_mod']
      · simp [Nat.toDigitsCore, hq, heq]

theorem toDigits_eq {b : Nat} (hb : 1 < b) (n : Nat) :
    ∃ ds : List Nat, ds ≠ [] ∧ (∀ d ∈ ds, d < b) ∧ digitsValue b ds = n ∧
      Nat.toDigits b n = ds.map Nat.digitChar := by
  simpa using toDigitsCore_eq hb (n + 1) n [] (Nat.lt_succ_self n)

theorem digitRun_digits {b : Nat} (hb : b ≤ 16) {ds : List Nat} (h : ∀ d ∈ ds, d < b) :
    digitRun b (ds.map Nat.digitChar) = ds := by
  induction ds with
  | nil => rfl
  | cons d ds ih =>
    have hd : d < b := h d (List.mem_cons_self d ds)
    simp [digitRun, digitValue_digitChar d (by omega), hd, ih fun d' hd' => h d' (by simp [hd'])]

theorem stripSign_of_ne {c : Char} (hm : c ≠ '-') (hp : c ≠ '+') (s : List Char) :
    stripSign (c :: s) = (false, c :: s) := by
  unfold stripSign
  split <;> simp_all

theorem strip0x_of_head (b : Nat) (c : Char) {s : List Char}
    (hs : ∀ x ∈ s.head?, x ≠ 'x' ∧ x ≠ 'X') : strip0x b (c :: s) = (false, c :: s) := by
  match s, hs with
  | [], _ => simp [strip0x]
  | x :: s, hs =>
    have hx := hs x rfl
    unfold strip0x
    split
    · rename_i hc; cases hc; simp [hx]
    · rfl

/-- `std::stoul` reads back digits of base 10 or 16 written most significant first. -/
theorem stoul_digits {b : Nat} (hb : b = 10 ∨ b = 16) {ds : List Nat} (hne : ds ≠ [])
    (h : ∀ d ∈ ds, d < b) (hv : digitsValue b ds < 2 ^ 64) :
    stoul (ds.map Nat.digitChar) b = .ok (digitsValue b ds) := by
  obtain ⟨d, ds', rfl⟩ := List.exists_cons_of_ne_nil hne
  have h16 : ∀ d' ∈ d :: ds', d' < 16 := fun d' hd' => by have := h d' hd'; omega
  obtain ⟨hsp, hm, hp, -⟩ := digitChar_ne d (h16 d (List.mem_cons_self _ _))
  have hnx : ∀ x ∈ (ds'.map Nat.digitChar).head?, x ≠ 'x' ∧ x ≠ 'X' := by
    cases ds' with
    | nil => simp
    | cons d' _ =>
      have := digitChar_ne d' (h16 d' (by simp))
      simp [this.2.2.2.1, this.2.2.2.2.1]
  have hrun := digitRun_digits (show b ≤ 16 by omega) h
  have hdrop : (Nat.digitChar d :: ds'.map Nat.digitChar).dropWhile isspace =
      Nat.digitChar d :: ds'.map Nat.digitChar := by
    simp [List.dropWhile_cons, hsp]
  simp only [stoul, List.map_cons, hdrop, stripSign_of_ne hm hp, strip0x_of_head b _ hnx]
  simp only [← List.map_cons, hrun, hv]
  simp

/-- `std::stoul` reads back what `Nat.toDigits` writes in base 10 or 16. -/
theorem stoul_toDigits {b : Nat} (hb : b = 10 ∨ b = 16) {n : Nat} (hn : n < 2 ^ 64) :
    stoul (Nat.toDigits b n) b = .ok n := by
  obtain ⟨ds, hne, hds, hval, heq⟩ := toDigits_eq (show 1 < b by omega) n
  rw [heq, ← hval]
  exact stoul_digits hb hne hds (hval ▸ hn)

end Digits

section Product

/-- A `PRODUCT=` line as the kernel writes it, `PRODUCT=%x/%x/%x`: the VID and the PID in hex,
each followed by `/`, then the rest. -/
def productLineOf (vid pid : Nat) (rest : List Char) : List Char :=
  matchString ++ (Nat.toDigits 16 vid ++ '/' :: (Nat.toDigits 16 pid ++ '/' :: rest))

theorem slash_not_mem_toDigits (n : Nat) : '/' ∉ Nat.toDigits 16 n := by
  obtain ⟨ds, -, hds, -, heq⟩ := toDigits_eq (show 1 < 16 by omega) n
  rw [heq, List.mem_map]
  exact fun ⟨d, hd, he⟩ => (digitChar_ne d (hds d hd)).2.2.2.2.2 he

theorem findIdx?_slash {a : List Char} (ha : '/' ∉ a) (s : List Char) (i : Nat) :
    (a ++ '/' :: s).findIdx? (· == '/') i = some (i + a.length) := by
  induction a generalizing i with
  | nil => simp [List.findIdx?_cons]
  | cons c a ih =>
    have hc : c ≠ '/' := fun e => ha (e ▸ List.mem_cons_self c a)
    simp only [List.cons_append, List.findIdx?_cons, beq_iff_eq, hc, if_false,
      ih (fun h => ha (List.mem_cons_of_mem c h)) (i + 1), List.length_cons]
    congr 1
    omega

theorem findFrom_slash (pre : List Char) {a : List Char} (ha : '/' ∉ a) (s : List Char)
    {k : Nat} (hk : pre.length = k) :
    findFrom (pre ++ (a ++ '/' :: s)) '/' k = some (a.length + k) := by
  subst hk
  simp [findFrom, List.drop_left, findIdx?_slash ha]

theorem substr_left (pre mid post : List Char) {k : Nat} (hk : pre.length = k) :
    substr (pre ++ (mid ++ post)) k mid.length = mid := by
  subst hk
  simp [substr, List.drop_left, List.take_left]

theorem uint16_ofNat_eq_iff (n : Nat) (v : UInt16) : UInt16.ofNat n = v ↔ n % 2 ^ 16 = v.toNat :=
  UInt16.ext_iff

/-- What `productLinePid` reads from a line `PRODUCT=<vidstr>/<pidstr>/<rest>` whose two fields
hold no `/`: both fields in hex, the VID cast to `uint16_t` and compared. -/
theorem productLinePid_fields (v : UInt16) {vidstr pidstr : List Char} (hv : '/' ∉ vidstr)
    (hp : '/' ∉ pidstr) (rest : List Char) :
    productLinePid v (some 0) (matchString ++ (vidstr ++ '/' :: (pidstr ++ '/' :: rest))) =
      match stoul vidstr 16, stoul pidstr 16 with
      | .ok vid, .ok pid => if UInt16.ofNat vid ≠ v then none else some (UInt16.ofNat pid)
      | _, _ => none := by
  set line := matchString ++ (vidstr ++ '/' :: (pidstr ++ '/' :: rest))
  have hline : line = (matchString ++ (vidstr ++ ['/'])) ++ (pidstr ++ '/' :: rest) := by
    simp [line]
  have hk : (matchString ++ (vidstr ++ ['/'])).length = vidstr.length + matchString.length + 1 := by
    simp only [List.length_append, List.length_singleton]
    omega
  have hslash₁ : findFrom line '/' matchString.length =
      some (vidstr.length + matchString.length) :=
    findFrom_slash _ hv _ rfl
  have hslash₂ : findFrom line '/' (vidstr.length + matchString.length + 1) =
      some (pidstr.length + (vidstr.length + matchString.length + 1)) := by
    rw [hline]; exact findFrom_slash _ hp _ hk
  have hvidstr : substr line matchString.length vidstr.length = vidstr := substr_left _ _ _ rfl
  have hpidstr : substr line (vidstr.length + matchString.length + 1) pidstr.length = pidstr := by
    rw [hline]; exact substr_left _ _ _ hk
  simp only [productLinePid, ne_eq, not_true_eq_false, if_false, hslash₁, Nat.add_sub_cancel,
    hvidstr, hslash₂, Option.getD_some, hpidstr]

/-- A `PRODUCT=` line as the kernel writes it is read back: the entry stays, with the PID,
exactly when the VID equals `INTREPID_USB_VENDOR_ID` modulo 2^16, the `uint16_t` cast dropping
the VID's higher bits before the comparison. -/
theorem productLinePid_hex (v : UInt16) {vid pid : Nat} (hvid : vid < 2 ^ 64) (hpid : pid < 2 ^ 64)
    (rest : List Char) :
    productLinePid v (find (productLineOf vid pid rest) matchString) (productLineOf vid pid rest) =
      if vid % 2 ^ 16 = v.toNat then some (UInt16.ofNat pid) else none := by
  have hfind : find (productLineOf vid pid rest) matchString = some 0 := by
    simp [find, productLineOf, List.isPrefixOf_iff_prefix]
  rw [hfind, productLineOf,
    productLinePid_fields v (slash_not_mem_toDigits vid) (slash_not_mem_toDigits pid),
    stoul_toDigits (.inr rfl) hvid, stoul_toDigits (.inr rfl) hpid]
  simp only [ne_eq, uint16_ofNat_eq_iff, ite_not]

/-- A VID field of `1093c` passes as the vendor `93c`. -/
theorem productLinePid_hex_truncated :
    0x1093c < 2 ^ 64 ∧ 0x1101 < 2 ^ 64 ∧
      productLinePid 0x93c (find (productLineOf 0x1093c 0x1101 []) matchString)
          (productLineOf 0x1093c 0x1101 []) =
        if 0x1093c % 2 ^ 16 = (0x93c : UInt16).toNat then some (UInt16.ofNat 0x1101) else none :=
  ⟨by norm_num, by norm_num, productLinePid_hex 0x93c (by norm_num) (by norm_num) []⟩

example : productLinePid 0x93c (some 0) "PRODUCT=1093c/1101/100".toList = some 0x1101 := by
  decide

end Product

section Handle

theorem isdigit_digitChar : ∀ d < 10, isdigit (Nat.digitChar d) = true := by decide

theorem findIdx_isdigit {pre : List Char} (hpre : ∀ c ∈ pre, isdigit c = false) {ds : List Nat}
    (hne : ds ≠ []) (h : ∀ d ∈ ds, d < 10) :
    (pre ++ ds.map Nat.digitChar).findIdx isdigit = pre.length := by
  induction pre with
  | nil =>
    obtain ⟨d, ds, rfl⟩ := List.exists_cons_of_ne_nil hne
    simp [List.findIdx_cons, isdigit_digitChar d (h d (List.mem_cons_self d ds))]
  | cons c pre ih =>
    simp [List.findIdx_cons, hpre c (List.mem_cons_self c pre),
      ih fun c' hc' => hpre c' (List.mem_cons_of_mem c hc')]

/-- The handle `Find` makes for a tty whose name is a number in decimal after a text with no
digit: the number, converted to `neodevice_handle_t`, plus `HANDLE_OFFSET`. -/
theorem ttyHandle_decimal (handleBits : Nat) {pre : List Char}
    (hpre : ∀ c ∈ pre, isdigit c = false) {n : Nat} (hn : n < 2 ^ 64) :
    ttyHandle handleBits (pre ++ Nat.toDigits 10 n) =
      some (toSigned handleBits n + HANDLE_OFFSET) := by
  obtain ⟨ds, hne, hds, -, heq⟩ := toDigits_eq (show 1 < 10 by omega) n
  have hidx : (pre ++ Nat.toDigits 10 n).findIdx isdigit = pre.length := by
    rw [heq]; exact findIdx_isdigit hpre hne hds
  simp [ttyHandle, hidx, List.drop_left, stoul_toDigits (.inl rfl) hn]

theorem toSigned_of_lt {bits : Nat} {v : Int} (h₀ : 0 ≤ v) (h : v < 2 ^ (bits - 1)) :
    toSigned bits v = v := by
  have hle : (2 : Int) ^ (bits - 1) ≤ 2 ^ bits :=
    pow_le_pow_right₀ (by norm_num) (Nat.sub_le _ _)
  have hmod : v % 2 ^ bits = v := Int.emod_eq_of_lt h₀ (by omega)
  simp [toSigned, hmod, h]

/-- `HandleToTTY` names the device of the tty `Find` made the handle from: for `ttyACM<n>`, the
number in decimal and small enough for `neodevice_handle_t` and `int`, the handle is at least
`HANDLE_OFFSET`, never the undefined handle 0, and the path is `/dev/ttyACM<n>`. -/
theorem HandleToTTY_ttyHandle {handleBits n : Nat} (hn : n + 10 < 2 ^ (handleBits - 1))
    (h32 : n < 2 ^ 31) :
    ∃ handle, ttyHandle handleBits ("ttyACM".toList ++ Nat.toDigits 10 n) = some handle ∧
      HANDLE_OFFSET ≤ handle ∧
      HandleToTTY handle = "/dev/".toList ++ "ttyACM".toList ++ Nat.toDigits 10 n := by
  have hsigned : toSigned handleBits n = n :=
    toSigned_of_lt (by omega) (by exact_mod_cast (by omega : n < 2 ^ (handleBits - 1)))
  refine ⟨n + HANDLE_OFFSET, ?_, ?_, ?_⟩
  · rw [ttyHandle_decimal handleBits (by decide) (by omega), hsigned]
  · simp [HANDLE_OFFSET]
  · have h32' : toSigned 32 n = n := toSigned_of_lt (by omega) (by exact_mod_cast h32)
    simp [HandleToTTY, h32', intDecimal]

theorem HandleToTTY_ttyACM0 :
    0 + 10 < 2 ^ (32 - 1) ∧ 0 < 2 ^ 31 ∧
      ∃ handle, ttyHandle 32 ("ttyACM".toList ++ Nat.toDigits 10 0) = some handle ∧
        HANDLE_OFFSET ≤ handle ∧
        HandleToTTY handle = "/dev/".toList ++ "ttyACM".toList ++ Nat.toDigits 10 0 :=
  ⟨by norm_num, by norm_num, HandleToTTY_ttyHandle (by norm_num) (by norm_num)⟩

end Handle

end Icsneo.CDCACM
