import Icsneo.PlasionRequest

/-! `HardwareCANPacket` of canpacket.h and its 24-byte representation under the SysV ABI of Linux
(x86-64, AArch64): bit-fields from the least significant bit of their unit, units little-endian,
and members at offsets 0, 2, 4, 6, 14 and 16 with no padding. -/

namespace Icsneo.Packet

open Disk (leValue)

/-- The values of a storage unit's bit-fields of widths `ws`, in declaration order: an unsigned
bit-field of `w` bits holds a `BitVec w`. -/
inductive Fields : List Nat → Type
  | nil : Fields []
  | cons {w : Nat} {ws : List Nat} : BitVec w → Fields ws → Fields (w :: ws)
deriving DecidableEq, Repr

namespace Fields

/-- The unit holding the fields, the first-declared in its least significant bits. -/
def pack : {ws : List Nat} → Fields ws → Nat
  | _, .nil => 0
  | w :: _, .cons v vs => v.toNat + 2 ^ w * vs.pack

/-- The fields read from a unit. -/
def unpack : (ws : List Nat) → Nat → Fields ws
  | [], _ => .nil
  | w :: ws, n => .cons (BitVec.ofNat w n) (unpack ws (n / 2 ^ w))

/-- The `k`-th field. -/
def get : {ws : List Nat} → Fields ws → (k : Fin ws.length) → BitVec (ws.get k)
  | _ :: _, .cons v _, ⟨0, _⟩ => v
  | _ :: _, .cons _ vs, ⟨k + 1, h⟩ => vs.get ⟨k, Nat.lt_of_succ_lt_succ h⟩

theorem pack_lt : ∀ {ws : List Nat} (vs : Fields ws), vs.pack < 2 ^ ws.sum
  | _, .nil => Nat.one_pos
  | w :: ws, .cons v vs => by
    have hv := v.isLt
    calc v.toNat + 2 ^ w * vs.pack < 2 ^ w * (vs.pack + 1) := by rw [Nat.mul_succ]; omega
      _ ≤ 2 ^ w * 2 ^ ws.sum := Nat.mul_le_mul_left _ vs.pack_lt
      _ = 2 ^ (w :: ws).sum := by rw [List.sum_cons, Nat.pow_add]

theorem unpack_pack : ∀ {ws : List Nat} (vs : Fields ws), unpack ws vs.pack = vs
  | _, .nil => rfl
  | w :: ws, .cons v vs => by
    rw [pack, unpack, Nat.add_mul_div_left _ _ (Nat.two_pow_pos w), Nat.div_eq_of_lt v.isLt,
      Nat.zero_add, unpack_pack vs]
    congr
    apply BitVec.eq_of_toNat_eq
    rw [BitVec.toNat_ofNat, Nat.add_mul_mod_self_left, Nat.mod_eq_of_lt v.isLt]

theorem pack_unpack : ∀ (ws : List Nat) (n : Nat), (unpack ws n).pack = n % 2 ^ ws.sum
  | [], n => (Nat.mod_one n).symm
  | w :: ws, n => by
    rw [unpack, pack, pack_unpack ws, BitVec.toNat_ofNat, List.sum_cons, Nat.pow_add, Nat.mod_mul]

theorem pack_inj {ws : List Nat} {vs vs' : Fields ws} : vs.pack = vs'.pack ↔ vs = vs' :=
  ⟨fun h => by rw [← unpack_pack vs, h, unpack_pack], congrArg _⟩

theorem get_unpack : ∀ (ws : List Nat) (n : Nat) (k : Fin ws.length),
    (unpack ws n).get k = BitVec.ofNat _ (n / 2 ^ (ws.take k).sum)
  | _ :: _, n, ⟨0, _⟩ => by simp [unpack, get]
  | w :: ws, n, ⟨k + 1, h⟩ => by
    rw [unpack, get, get_unpack ws]
    simp [Nat.pow_add, Nat.div_div_eq_div_mul]

end Fields

/-- The `uint64_t` unit of `timestamp` from its members `TS : 60` and `IsExtended : 1`: the
unnamed 3-bit field between them is zero in a value-initialised object. -/
def timestampUnit : Fields [60, 1] → Fields [60, 3, 1]
  | .cons TS (.cons IsExtended .nil) => .cons TS (.cons 0 (.cons IsExtended .nil))

/-- The members `TS` and `IsExtended` read from the `timestamp` unit. -/
def timestampMembers : Fields [60, 3, 1] → Fields [60, 1]
  | .cons TS (.cons _ (.cons IsExtended .nil)) => .cons TS (.cons IsExtended .nil)

theorem timestampUnit_members (u : Fields [60, 3, 1]) :
    timestampUnit (timestampMembers u) = u ↔ u.get ⟨1, by decide⟩ = 0 := by
  match u with
  | .cons _ (.cons _ (.cons _ .nil)) =>
    simp [timestampUnit, timestampMembers, Fields.get, eq_comm]

/-- The `k` bytes of a `k`-byte unit holding `n`, least significant first. -/
def leBytes : Nat → Nat → List UInt8
  | 0, _ => []
  | k + 1, n => UInt8.ofNat n :: leBytes k (n / 256)

@[simp] theorem length_leBytes : ∀ k n, (leBytes k n).length = k
  | 0, _ => rfl
  | k + 1, n => congrArg (· + 1) (length_leBytes k (n / 256))

theorem leValue_leBytes : ∀ k n, leValue (leBytes k n) = n % 2 ^ (8 * k)
  | 0, n => (Nat.mod_one n).symm
  | k + 1, n => by
    rw [leBytes, leValue, leValue_leBytes k, Nat.mul_succ, Nat.pow_add, Nat.mul_comm (2 ^ (8 * k)),
      Nat.mod_mul]
    rfl

theorem leBytes_leValue : ∀ bs : List UInt8, leBytes bs.length (leValue bs) = bs
  | [] => rfl
  | b :: bs => by
    rw [List.length_cons, leBytes, leValue, Nat.add_mul_div_left _ _ (by decide),
      Nat.div_eq_of_lt b.toNat_lt, Nat.zero_add, leBytes_leValue bs]
    congr
    exact UInt8.toNat.inj (by
      show (b.toNat + 256 * leValue bs) % 256 = b.toNat
      rw [Nat.add_mul_mod_self_left, Nat.mod_eq_of_lt b.toNat_lt])

theorem leValue_lt (bs : List UInt8) : leValue bs < 2 ^ (8 * bs.length) := by
  have h := congrArg leValue (leBytes_leValue bs)
  rw [leValue_leBytes] at h
  rw [← h]
  exact Nat.mod_lt _ (Nat.two_pow_pos _)

/-- The members of `HardwareCANPacket`, each unit's bit-fields in declaration order. -/
structure HardwareCANPacket where
  /-- `IDE : 1`, `SRR : 1`, `SID : 11`, `EDL : 1`, `BRS : 1`, `ESI : 1` -/
  header : Fields [1, 1, 11, 1, 1, 1]
  /-- `EID : 12`, `TXMSG : 1`, `TXAborted : 1`, `TXLostArb : 1`, `TXError : 1` -/
  eid : Fields [12, 1, 1, 1, 1]
  /-- `DLC : 4`, `RB0 : 1`, `IVRIF : 1`, `HVEnable : 1`, `ExtendedNetworkIndexBit : 1`,
  `RB1 : 1`, `RTR : 1`, `EID2 : 6` -/
  dlc : Fields [4, 1, 1, 1, 1, 1, 1, 6]
  /-- `unsigned char data[8]` -/
  data : List UInt8
  stats : UInt16
  /-- `TS : 60`, `IsExtended : 1` -/
  timestamp : Fields [60, 1]
  data_length : data.length = 8
deriving DecidableEq

theorem leBytes_inj {k x y : Nat} (hx : x < 2 ^ (8 * k)) (hy : y < 2 ^ (8 * k)) :
    leBytes k x = leBytes k y ↔ x = y := by
  refine ⟨fun h => ?_, congrArg _⟩
  have := congrArg leValue h
  rwa [leValue_leBytes, leValue_leBytes, Nat.mod_eq_of_lt hx, Nat.mod_eq_of_lt hy] at this

theorem leBytes_leValue_mod {s : List UInt8} {n m : Nat} (hl : s.length = n) (hm : 8 * n = m) :
    leBytes n (leValue s % 2 ^ m) = s := by
  subst hl hm
  rw [Nat.mod_eq_of_lt (leValue_lt s), leBytes_leValue]

theorem leBytes_unpack {ws : List Nat} {n : Nat} {s : List UInt8} (hl : s.length = n)
    (hs : 8 * n = ws.sum) : leBytes n (Fields.unpack ws (leValue s)).pack = s := by
  rw [Fields.pack_unpack, leBytes_leValue_mod hl hs]

namespace HardwareCANPacket

/-- The representation of a value-initialised `HardwareCANPacket` whose members were then given
`p`'s values. -/
def toBytes (p : HardwareCANPacket) : List UInt8 :=
  leBytes 2 p.header.pack ++ leBytes 2 p.eid.pack ++ leBytes 2 p.dlc.pack ++ p.data ++
    leBytes 2 p.stats.toNat ++ leBytes 8 (timestampUnit p.timestamp).pack

/-- The members of the `HardwareCANPacket` whose representation is `b`. -/
def ofBytes (b : List UInt8) (hb : b.length = 24) : HardwareCANPacket where
  header := .unpack _ (leValue (b.take 2))
  eid := .unpack _ (leValue ((b.drop 2).take 2))
  dlc := .unpack _ (leValue ((b.drop 4).take 2))
  data := (b.drop 6).take 8
  stats := UInt16.ofNat (leValue ((b.drop 14).take 2))
  timestamp := timestampMembers (.unpack _ (leValue (b.drop 16)))
  data_length := by simp [hb]

/-- The unnamed 3-bit field of `timestamp` in the representation `b`. -/
def reservedBits (b : List UInt8) : Nat := leValue (b.drop 16) / 2 ^ 60 % 2 ^ 3

theorem take_drop_members (b : List UInt8) :
    b = b.take 2 ++ (b.drop 2).take 2 ++ (b.drop 4).take 2 ++ (b.drop 6).take 8 ++
      (b.drop 14).take 2 ++ b.drop 16 := by
  simp only [List.append_assoc]
  rw [show b.drop 16 = (b.drop 14).drop 2 by simp, List.take_append_drop,
    show b.drop 14 = (b.drop 6).drop 8 by simp, List.take_append_drop,
    show b.drop 6 = (b.drop 4).drop 2 by simp, List.take_append_drop,
    show b.drop 4 = (b.drop 2).drop 2 by simp, List.take_append_drop, List.take_append_drop]

/-- A representation is given back by its members exactly when its unnamed `timestamp` bits are
zero: the members never see those bits. -/
theorem toBytes_ofBytes (b : List UInt8) (hb : b.length = 24) :
    (ofBytes b hb).toBytes = b ↔ reservedBits b = 0 := by
  have hstats :
      leBytes 2 (UInt16.ofNat (leValue ((b.drop 14).take 2))).toNat = (b.drop 14).take 2 :=
    leBytes_leValue_mod (by simp [hb]) rfl
  set u := Fields.unpack [60, 3, 1] (leValue (b.drop 16))
  have ht : leBytes 8 u.pack = b.drop 16 := leBytes_unpack (by simp [hb]) rfl
  have e : (ofBytes b hb).toBytes = b.take 2 ++ (b.drop 2).take 2 ++ (b.drop 4).take 2 ++
      (b.drop 6).take 8 ++ (b.drop 14).take 2 ++
        leBytes 8 (timestampUnit (timestampMembers u)).pack := by
    simp (disch := simp [hb]) only [toBytes, ofBytes, hstats, leBytes_unpack, u]
  rw [e]
  conv_lhs => rhs; rw [take_drop_members b]
  rw [List.append_cancel_left_eq, ← ht, leBytes_inj (Fields.pack_lt _) (Fields.pack_lt _),
    Fields.pack_inj, timestampUnit_members]
  simp [u, Fields.get_unpack, reservedBits, BitVec.toNat_eq]

/-- A representation with bits set in the unnamed field of `timestamp` is not given back. -/
theorem toBytes_ofBytes_reserved :
    (List.replicate 23 0 ++ [0x70] : List UInt8).length = 24 ∧
      (ofBytes (List.replicate 23 0 ++ [0x70]) (by simp)).toBytes ≠
        List.replicate 23 0 ++ [0x70] :=
  ⟨by simp, (toBytes_ofBytes _ (by simp)).not.mpr (by decide)⟩

end HardwareCANPacket

end Icsneo.Packet
