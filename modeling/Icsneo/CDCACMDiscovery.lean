import Icsneo.CDCACMParse

/-! `CDCACM::Find` as a whole (lines 87–206): the candidates of the `cdc_acm` driver, the
`std::map` to their ttys, the `uevent` pass, and the `FoundDevice`s made from what stays. -/

namespace Icsneo.CDCACM

/-- A directory entry as `readdir` returns it. -/
structure Dirent where
  d_name : List Char
  d_type : UInt8

/-- `DT_LNK` of `<dirent.h>`. -/
def DT_LNK : UInt8 := 10

/-- The files and directories `Find` reads: the entries `readdir` returns for a path, `.` and
`..` included, `none` when `opendir` fails; and the file `std::ifstream` opens at a path. -/
structure SysFs where
  dir : List Char → Option (List Dirent)
  file : List Char → Option File

/-- The constants `Find` uses that are defined outside src/: `INTREPID_USB_VENDOR_ID`, the width
of `neodevice_handle_t` and `sizeof(FoundDevice::serial)`. -/
structure Platform where
  INTREPID_USB_VENDOR_ID : UInt16
  handleBits : Nat
  serialSize : Nat
  serialSize_pos : 0 < serialSize

/-- A `FoundDevice` as `Find` fills it; `makeDriver` is the same factory for every device. -/
structure FoundDevice where
  handle : Int
  productId : UInt16
  serial : List Char
  deriving DecidableEq, Repr

/-- `Directory::ls` (lines 43–52): the entries but `.` and `..`, in `readdir` order. -/
def ls (entries : List Dirent) : List Dirent :=
  entries.filter fun e => e.d_name ≠ ".".toList ∧ e.d_name ≠ "..".toList

/-- Lines 92–103: the names of the `cdc_acm` entries that are links and start with a digit. -/
def foundusbs (listing : List Dirent) : List (List Char) :=
  (listing.filter fun e => e.d_name.head?.any isdigit && e.d_type == DT_LNK).map (·.d_name)

/-- Lines 109–117 for one `usb`: the name of the single entry of its `tty` directory; `none`
when the directory does not open or holds no entry or several. -/
def ttyOf (sys : SysFs) (usb : List Char) : Option (List Char) :=
  match (sys.dir ("/sys/bus/usb/drivers/cdc_acm/".toList ++ usb ++ "/tty".toList)).map ls with
  | some [e] => some e.d_name
  | _ => none

/-- `std::map::insert` on a map kept as its entries in increasing key order: an entry whose key
is already there is not inserted. -/
def mapInsert {α : Type} : List (List Char × α) → List Char × α → List (List Char × α)
  | [], e => [e]
  | x :: m, e =>
    if e.1 < x.1 then e :: x :: m
    else if e.1 = x.1 then x :: m
    else x :: mapInsert m e

/-- One iteration of lines 108–120: `usb` goes into `foundttys` with its tty and a PID of 0. -/
def insertTty (sys : SysFs) (m : List (List Char × List Char × UInt16)) (usb : List Char) :
    List (List Char × List Char × UInt16) :=
  match ttyOf sys usb with
  | some tty => mapInsert m (usb, tty, 0)
  | none => m

/-- Lines 107–120: `foundttys`. -/
def foundttys (sys : SysFs) (foundusbs : List (List Char)) :
    List (List Char × List Char × UInt16) :=
  foundusbs.foldl (insertTty sys) []

/-- The `uevent` file of line 128. -/
def ueventPath (tty : List Char) : List Char :=
  "/sys/class/tty/".toList ++ tty ++ "/device/uevent".toList

/-- Lines 123–166: the entries of `foundttys` that stay, each with its PID, when every `uevent`
loop exits within `fuel` iterations; `none` when one is still running. -/
def keepProducts (INTREPID_USB_VENDOR_ID : UInt16) (fuel : Nat) (sys : SysFs) :
    List (List Char × List Char × UInt16) → Option (List (List Char × List Char × UInt16))
  | [] => some []
  | (usb, tty, _) :: rest =>
    match productLineLoop fuel (ifstream (sys.file (ueventPath tty))) [] with
    | none => none
    | some (_, productLine, pos) =>
      (keepProducts INTREPID_USB_VENDOR_ID fuel sys rest).map fun kept =>
        match productLinePid INTREPID_USB_VENDOR_ID pos productLine with
        | some ttyPid => (usb, tty, ttyPid) :: kept
        | none => kept

/-- `toupper` in the C locale. -/
def toupper (c : Char) : Char := if 'a' ≤ c ∧ c ≤ 'z' then Char.ofNat (c.toNat - 32) else c

/-- `USBSerialGetter(usbid)` (lines 59–79) as `success()` and `getSerial()`. Nothing in its `try`
block throws. -/
def USBSerialGetter (sys : SysFs) (usbid : List Char) : Bool × List Char :=
  match find usbid [':'] with
  | none => (false, [])
  | some colonpos =>
    let reader := ifstream (sys.file
      ("/sys/bus/usb/devices/".toList ++ usbid.take colonpos ++ "/serial".toList))
    (true, (getline reader [] '\n').2.map toupper)

/-- Lines 172–204 for one entry of `foundttys`: the device, or `none` when it is skipped. -/
def makeDevice (p : Platform) (sys : SysFs) :
    List Char × List Char × UInt16 → Option FoundDevice
  | (usb, tty, ttyPid) =>
    let getter := USBSerialGetter sys usb
    if getter.1 then
      (ttyHandle p.handleBits tty).map fun handle =>
        ⟨handle, ttyPid, getter.2.take (p.serialSize - 1)⟩
    else none

/-- `CDCACM::Find(found)` (lines 87–206), each `uevent` loop allowed `fuel` iterations: `found`
with the devices appended, or `none` when a loop is still running. -/
def Find (p : Platform) (fuel : Nat) (sys : SysFs) (found : List FoundDevice) :
    Option (List FoundDevice) :=
  match sys.dir "/sys/bus/usb/drivers/cdc_acm".toList with
  | none => some found
  | some entries =>
    (keepProducts p.INTREPID_USB_VENDOR_ID fuel sys (foundttys sys (foundusbs (ls entries)))).map
      fun kept => found ++ kept.filterMap (makeDevice p sys)

/-! What the search is for: each candidate on its own. -/

/-- The names `Find` starts from: the digit-named links of the `cdc_acm` directory, none when it
does not open. -/
def candidates (sys : SysFs) : List (List Char) :=
  match sys.dir "/sys/bus/usb/drivers/cdc_acm".toList with
  | none => []
  | some entries => foundusbs (ls entries)

/-- What `Find` makes of one candidate `usb` on its own: `some` of its device or of nothing, and
`none` while the `uevent` loop of its tty is still running after `fuel` iterations. -/
def deviceOf (p : Platform) (fuel : Nat) (sys : SysFs) (usb : List Char) :
    Option (Option FoundDevice) :=
  match ttyOf sys usb with
  | none => some none
  | some tty =>
    (productLineLoop fuel (ifstream (sys.file (ueventPath tty))) []).map fun r =>
      (productLinePid p.INTREPID_USB_VENDOR_ID r.2.2 r.2.1).bind fun pid =>
        makeDevice p sys (usb, tty, pid)

/-- Where a device reported for `usb` comes from: the single entry of its tty directory, the
`PRODUCT=` line its `uevent` loop ends on, and the serial file's first line in upper case. -/
structure Reported (p : Platform) (fuel : Nat) (sys : SysFs) (usb : List Char)
    (dev : FoundDevice) : Prop where
  tty : ∃ tty, ttyOf sys usb = some tty ∧ ttyHandle p.handleBits tty = some dev.handle ∧
    ∃ r, productLineLoop fuel (ifstream (sys.file (ueventPath tty))) [] = some r ∧
      productLinePid p.INTREPID_USB_VENDOR_ID r.2.2 r.2.1 = some dev.productId
  serial : (USBSerialGetter sys usb).1 = true ∧
    dev.serial = (USBSerialGetter sys usb).2.take (p.serialSize - 1)

section MapInsert

variable {α : Type}

theorem mem_keys_mapInsert (m : List (List Char × α)) (e : List Char × α) (k : List Char) :
    k ∈ (mapInsert m e).map Prod.fst ↔ k ∈ m.map Prod.fst ∨ k = e.1 := by
  induction m with
  | nil => simp [mapInsert]
  | cons x m ih =>
    unfold mapInsert
    split_ifs with h₁ h₂
    · simp only [List.map_cons, List.mem_cons]
      exact or_comm
    · simp only [List.map_cons, List.mem_cons, h₂]
      exact (or_iff_left_of_imp .inl).symm
    · simp only [List.map_cons, List.mem_cons, ih]
      exact or_assoc.symm

theorem mem_mapInsert {m : List (List Char × α)} {e x : List Char × α}
    (h : x ∈ mapInsert m e) : x ∈ m ∨ x = e := by
  induction m with
  | nil => simpa [mapInsert] using h
  | cons y m ih =>
    unfold mapInsert at h
    split_ifs at h
    · simp only [List.mem_cons] at h ⊢
      exact h.symm
    · exact .inl h
    · simp only [List.mem_cons] at h ⊢
      exact h.elim (fun h => .inl (.inl h)) fun h => (ih h).imp_left .inr

theorem sorted_mapInsert {m : List (List Char × α)} (h : (m.map Prod.fst).Sorted (· < ·))
    (e : List Char × α) : ((mapInsert m e).map Prod.fst).Sorted (· < ·) := by
  induction m with
  | nil => simp [mapInsert]
  | cons x m ih =>
    rw [List.map_cons, List.sorted_cons] at h
    unfold mapInsert
    split_ifs with h₁ h₂
    · refine List.sorted_cons.mpr ⟨?_, List.sorted_cons.mpr h⟩
      simp only [List.map_cons, List.mem_cons]
      rintro b (rfl | hb)
      · exact h₁
      · exact lt_trans h₁ (h.1 b hb)
    · exact List.sorted_cons.mpr h
    · have hx : x.1 < e.1 := lt_of_le_of_ne (not_lt.mp h₁) (Ne.symm h₂)
      refine List.sorted_cons.mpr ⟨fun b hb => ?_, ih h.2⟩
      rcases (mem_keys_mapInsert m e b).mp hb with hb | rfl
      · exact h.1 b hb
      · exact hx

end MapInsert

section Foundttys

variable {sys : SysFs}

/-- What `foundttys` holds after the names `usbs`: keys in increasing order, one for each name
whose `tty` directory has a single entry, each with that entry and a PID of 0. -/
structure TtyMap (sys : SysFs) (usbs : List (List Char))
    (m : List (List Char × List Char × UInt16)) : Prop where
  sorted : (m.map Prod.fst).Sorted (· < ·)
  entry : ∀ e ∈ m, ttyOf sys e.1 = some e.2.1 ∧ e.2.2 = 0
  keys : ∀ usb, usb ∈ m.map Prod.fst ↔ usb ∈ usbs ∧ (ttyOf sys usb).isSome

theorem TtyMap.insert {usbs : List (List Char)} {m : List (List Char × List Char × UInt16)}
    (h : TtyMap sys usbs m) (usb : List Char) :
    TtyMap sys (usbs ++ [usb]) (insertTty sys m usb) := by
  unfold insertTty
  split
  · rename_i tty htty
    refine ⟨sorted_mapInsert h.sorted _, fun e he => ?_, fun k => ?_⟩
    · rcases mem_mapInsert he with he | rfl
      · exact h.entry e he
      · exact ⟨htty, rfl⟩
    · rw [mem_keys_mapInsert, h.keys]
      by_cases hk : k = usb
      · subst hk; simp [htty]
      · simp [hk]
  · rename_i htty
    refine ⟨h.sorted, h.entry, fun k => ?_⟩
    rw [h.keys]
    by_cases hk : k = usb
    · subst hk; simp [htty]
    · simp [hk]

theorem foldl_insertTty_ttyMap :
    ∀ (usbs : List (List Char)) {pre : List (List Char)}
      {m : List (List Char × List Char × UInt16)},
      TtyMap sys pre m → TtyMap sys (pre ++ usbs) (usbs.foldl (insertTty sys) m)
  | [], _, _, h => by simpa using h
  | usb :: usbs, _, _, h => by
    simpa using foldl_insertTty_ttyMap usbs (h.insert usb)

theorem foundttys_ttyMap (usbs : List (List Char)) : TtyMap sys usbs (foundttys sys usbs) :=
  @foldl_insertTty_ttyMap sys usbs [] [] ⟨by simp, by simp, by simp⟩

end Foundttys

section Refinement

variable (p : Platform) (fuel : Nat) (sys : SysFs)

theorem mapM_cons_option {β γ : Type} (f : β → Option γ) (b : β) (l : List β) :
    (b :: l).mapM f = (f b).bind fun c => (l.mapM f).map (c :: ·) := by
  simp only [List.mapM_cons, Option.bind_eq_bind, Option.pure_def, Option.map_eq_bind]
  rfl

theorem mapM_eq_none {β γ : Type} {f : β → Option γ} :
    ∀ {l : List β} {a : β}, a ∈ l → f a = none → l.mapM f = none
  | _ :: _, _, .head _, ha => by simp only [mapM_cons_option, ha, Option.none_bind]
  | b :: _, _, .tail _ hm, ha => by
    rw [mapM_cons_option, mapM_eq_none hm ha]
    cases f b <;> rfl

theorem mapM_isSome {β γ : Type} {f : β → Option γ} :
    ∀ {l : List β}, (∀ a ∈ l, (f a).isSome) → (l.mapM f).isSome
  | [], _ => rfl
  | b :: l, h => by
    obtain ⟨c, hc⟩ := Option.isSome_iff_exists.mp (h b (List.mem_cons_self b l))
    obtain ⟨cs, hcs⟩ := Option.isSome_iff_exists.mp
      (mapM_isSome fun a ha => h a (List.mem_cons_of_mem b ha))
    rw [mapM_cons_option, hc, hcs]
    rfl

theorem mapM_mem {β γ : Type} {f : β → Option γ} :
    ∀ {l : List β} {cs : List γ}, l.mapM f = some cs → ∀ c ∈ cs, ∃ a ∈ l, f a = some c
  | [], cs, h, c, hc => by cases h; cases hc
  | b :: l, cs, h, c, hc => by
    rw [mapM_cons_option] at h
    obtain ⟨c₀, hb, hl⟩ := Option.bind_eq_some.mp h
    obtain ⟨cs', hcs', rfl⟩ := Option.map_eq_some'.mp hl
    rcases List.mem_cons.mp hc with rfl | hc
    · exact ⟨b, List.mem_cons_self b l, hb⟩
    · obtain ⟨a, ha, hfa⟩ := mapM_mem hcs' c hc
      exact ⟨a, List.mem_cons_of_mem b ha, hfa⟩

/-- The `uevent` pass and the device loop, over entries that each hold their tty, are the
one-candidate search run on their keys in order. -/
theorem keepProducts_eq :
    ∀ m : List (List Char × List Char × UInt16), (∀ e ∈ m, ttyOf sys e.1 = some e.2.1) →
      (keepProducts p.INTREPID_USB_VENDOR_ID fuel sys m).map (·.filterMap (makeDevice p sys)) =
        ((m.map Prod.fst).mapM (deviceOf p fuel sys)).map List.reduceOption
  | [], _ => rfl
  | (usb, tty, pid₀) :: m, hm => by
    have htty : ttyOf sys usb = some tty := hm (usb, tty, pid₀) (List.mem_cons_self _ _)
    have ih := keepProducts_eq m fun e he => hm e (List.mem_cons_of_mem _ he)
    simp only [keepProducts, List.map_cons, mapM_cons_option, deviceOf, htty]
    cases productLineLoop fuel (ifstream (sys.file (ueventPath tty))) [] with
    | none => rfl
    | some r =>
      cases hrest : keepProducts p.INTREPID_USB_VENDOR_ID fuel sys m with
      | none =>
        rw [hrest, Option.map_none', eq_comm, Option.map_eq_none'] at ih
        simp only [ih, Option.map_none', Option.map_some', Option.some_bind]
      | some kept =>
        rw [hrest, Option.map_some', eq_comm, Option.map_eq_some'] at ih
        obtain ⟨ds, hds, hkept⟩ := ih
        simp only [hds, Option.map_some', Option.some_bind, Option.some.injEq]
        cases productLinePid p.INTREPID_USB_VENDOR_ID r.2.2 r.2.1 with
        | none => simp only [Option.none_bind, List.reduceOption_cons_of_none, hkept]
        | some pid =>
          cases hd : makeDevice p sys (usb, tty, pid) <;>
            simp only [Option.some_bind, List.filterMap_cons, hd, List.reduceOption_cons_of_none,
              List.reduceOption_cons_of_some, hkept]

/-- `Find` is the one-candidate search run on the keys of `foundttys`, in order. -/
theorem Find_eq (found : List FoundDevice) :
    Find p fuel sys found = (((foundttys sys (candidates sys)).map Prod.fst).mapM
      (deviceOf p fuel sys)).map (found ++ ·.reduceOption) := by
  unfold Find candidates
  split
  · simp only [foundttys, List.foldl_nil, List.map_nil, List.mapM_nil, Option.pure_def,
      Option.map_some', List.reduceOption_nil, List.append_nil]
  · rename_i entries _
    have h := congrArg (Option.map (found ++ ·))
      (keepProducts_eq p fuel sys _ fun e he =>
        ((foundttys_ttyMap (foundusbs (ls entries))).entry e he).1)
    simpa only [Option.map_map, Function.comp_def] using h

/-- `CDCACM::Find` is a one-pass search: over the candidates whose `tty` directory holds a single
entry, each taken once and in increasing order, it appends to `found` what each gives on its own,
and it returns only when each of their `uevent` loops does. -/
theorem Find_refines (found : List FoundDevice) :
    ∃ L : List (List Char), L.Sorted (· < ·) ∧
      (∀ usb, usb ∈ L ↔ usb ∈ candidates sys ∧ (ttyOf sys usb).isSome) ∧
      Find p fuel sys found = (L.mapM (deviceOf p fuel sys)).map (found ++ ·.reduceOption) :=
  ⟨_, (foundttys_ttyMap _).sorted, (foundttys_ttyMap _).keys, Find_eq p fuel sys found⟩

/-- The platform of the runs below, with libicsneo's vendor id, 32-bit handles and 7-byte
serials. -/
def samplePlatform : Platform := ⟨0x93c, 32, 7, by decide⟩

/-- A `sysfs` with one Intrepid device, `1-2:1.0` with tty `ttyACM0`, next to the driver's own
`module` link. -/
def sampleSysFs : SysFs where
  dir path :=
    if path = "/sys/bus/usb/drivers/cdc_acm".toList then
      some [⟨".".toList, 4⟩, ⟨"..".toList, 4⟩, ⟨"1-2:1.0".toList, 10⟩,
        ⟨"module".toList, 10⟩]
    else if path = "/sys/bus/usb/drivers/cdc_acm/1-2:1.0/tty".toList then
      some [⟨".".toList, 4⟩, ⟨"..".toList, 4⟩, ⟨"ttyACM0".toList, 4⟩]
    else none
  file path :=
    if path = "/sys/class/tty/ttyACM0/device/uevent".toList then
      some ⟨"MAJOR=166\nMINOR=0\nPRODUCT=93c/1101/100\n".toList, false⟩
    else if path = "/sys/bus/usb/devices/1-2/serial".toList then some ⟨"ab1234\n".toList, false⟩
    else none

example : Find samplePlatform 64 sampleSysFs [] = some [⟨10, 0x1101, "AB1234".toList⟩] := by
  decide

/-- `Find` never returns when the `uevent` file of a candidate's tty does not open, or fails
partway with no `PRODUCT=` in it, whatever the other candidates hold. -/
theorem Find_hangs (found : List FoundDevice) {usb tty : List Char} (husb : usb ∈ candidates sys)
    (htty : ttyOf sys usb = some tty)
    (hfile : sys.file (ueventPath tty) = none ∨ ∃ f, sys.file (ueventPath tty) = some f ∧
      f.endsInError = true ∧ ¬ matchString <:+: f.chars) :
    Find p fuel sys found = none := by
  have hmem : usb ∈ (foundttys sys (candidates sys)).map Prod.fst :=
    ((foundttys_ttyMap _).keys usb).mpr ⟨husb, by simp [htty]⟩
  have hdev : deviceOf p fuel sys usb = none := by
    simp [deviceOf, htty, productLineLoop_of_stuck (stuck_of_file hfile) fuel]
  rw [Find_eq, mapM_eq_none hmem hdev, Option.map_none']

/-- The device of the sample unplugged between the listing and the read of its `uevent` file. -/
theorem Find_hangs_unplugged :
    let sys : SysFs := { sampleSysFs with file := fun _ => none }
    "1-2:1.0".toList ∈ candidates sys ∧ ttyOf sys "1-2:1.0".toList = some "ttyACM0".toList ∧
      (sys.file (ueventPath "ttyACM0".toList) = none ∨
        ∃ f, sys.file (ueventPath "ttyACM0".toList) = some f ∧ f.endsInError = true ∧
          ¬ matchString <:+: f.chars) ∧
      Find samplePlatform 1000 sys [] = none := by
  intro sys
  have husb : "1-2:1.0".toList ∈ candidates sys := by decide
  have htty : ttyOf sys "1-2:1.0".toList = some "ttyACM0".toList := by decide
  exact ⟨husb, htty, .inl rfl, Find_hangs samplePlatform 1000 sys [] husb htty (.inl rfl)⟩

/-- `Find` returns when the `uevent` file of every candidate's tty opens and reads to its end
within `fuel` characters. -/
theorem Find_returns (found : List FoundDevice)
    (hfiles : ∀ usb ∈ candidates sys, ∀ tty ∈ ttyOf sys usb, ∃ f,
      sys.file (ueventPath tty) = some f ∧ f.endsInError = false ∧ f.chars.length < fuel) :
    (Find p fuel sys found).isSome := by
  rw [Find_eq, Option.isSome_map']
  refine mapM_isSome fun usb hmem => ?_
  obtain ⟨husb, htty⟩ := ((foundttys_ttyMap _).keys usb).mp hmem
  obtain ⟨tty, htty⟩ := Option.isSome_iff_exists.mp htty
  obtain ⟨f, hf, herr, hlen⟩ := hfiles usb husb tty htty
  simp only [deviceOf, htty, hf, Option.isSome_map']
  exact @productLineLoop_exits (ifstream (some f)) rfl herr fuel hlen []

theorem Find_returns_sample :
    (∀ usb ∈ candidates sampleSysFs, ∀ tty ∈ ttyOf sampleSysFs usb, ∃ f,
      sampleSysFs.file (ueventPath tty) = some f ∧ f.endsInError = false ∧
        f.chars.length < 64) ∧
      (Find samplePlatform 64 sampleSysFs []).isSome := by
  have hfiles : ∀ usb ∈ candidates sampleSysFs, ∀ tty ∈ ttyOf sampleSysFs usb, ∃ f,
      sampleSysFs.file (ueventPath tty) = some f ∧ f.endsInError = false ∧
        f.chars.length < 64 := by
    have hc : candidates sampleSysFs = ["1-2:1.0".toList] := by decide
    have ht : ttyOf sampleSysFs "1-2:1.0".toList = some "ttyACM0".toList := by decide
    intro usb husb tty htty
    rw [hc, List.mem_singleton] at husb
    subst husb
    rw [ht, Option.mem_def, Option.some.injEq] at htty
    subst htty
    exact ⟨_, rfl, rfl, by decide⟩
  exact ⟨hfiles, Find_returns samplePlatform 64 sampleSysFs [] hfiles⟩

theorem deviceOf_reported {usb : List Char} {dev : FoundDevice}
    (h : deviceOf p fuel sys usb = some (some dev)) : Reported p fuel sys usb dev := by
  unfold deviceOf at h
  cases htty : ttyOf sys usb with
  | none => simp [htty] at h
  | some tty =>
    simp only [htty, Option.map_eq_some'] at h
    obtain ⟨r, hr, hbind⟩ := h
    obtain ⟨pid, hpid, hdev⟩ := Option.bind_eq_some.mp hbind
    simp only [makeDevice] at hdev
    split at hdev
    · rename_i hget
      obtain ⟨handle, hh, rfl⟩ := Option.map_eq_some'.mp hdev
      exact ⟨⟨tty, htty, hh, r, hr, hpid⟩, hget, rfl⟩
    · cases hdev

theorem Reported.serial_length_lt {usb : List Char} {dev : FoundDevice}
    (h : Reported p fuel sys usb dev) : dev.serial.length < p.serialSize := by
  rw [h.serial.2, List.length_take]
  have := p.serialSize_pos
  omega

/-- Every device `Find` appends is made, as `Reported` says, from a candidate whose tty's
`uevent` file names the vendor; in particular its serial, NUL included, fits `serial`. -/
theorem Find_sound (found : List FoundDevice) {out : List FoundDevice}
    (h : Find p fuel sys found = some out) :
    ∃ new, out = found ++ new ∧ ∀ dev ∈ new,
      (∃ usb ∈ candidates sys, Reported p fuel sys usb dev) ∧ dev.serial.length < p.serialSize := by
  rw [Find_eq] at h
  obtain ⟨ds, hds, rfl⟩ := Option.map_eq_some'.mp h
  refine ⟨ds.reduceOption, rfl, fun dev hdev => ?_⟩
  obtain ⟨usb, hmem, hdev⟩ := mapM_mem hds (some dev) (List.reduceOption_mem_iff.mp hdev)
  have hr := deviceOf_reported p fuel sys hdev
  exact ⟨⟨usb, (((foundttys_ttyMap _).keys usb).mp hmem).1, hr⟩, hr.serial_length_lt⟩

theorem Find_sound_sample :
    Find samplePlatform 64 sampleSysFs [] = some [⟨10, 0x1101, "AB1234".toList⟩] ∧
      ∃ new, [⟨10, 0x1101, "AB1234".toList⟩] = [] ++ new ∧ ∀ dev ∈ new,
        (∃ usb ∈ candidates sampleSysFs, Reported samplePlatform 64 sampleSysFs usb dev) ∧
          dev.serial.length < samplePlatform.serialSize := by
  have h : Find samplePlatform 64 sampleSysFs [] = some [⟨10, 0x1101, "AB1234".toList⟩] := by
    decide
  exact ⟨h, Find_sound samplePlatform 64 sampleSysFs [] h⟩

end Refinement

end Icsneo.CDCACM
