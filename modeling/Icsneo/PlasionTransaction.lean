import Icsneo.PlasionRequest

/-! The response callback of `readLogicalDiskAligned` and the transaction state it shares
with the waiter. The callback's runs are serialised by the mutex `m`, so a run of the
transaction is the callback applied to the delivered messages in order. -/

namespace Icsneo.Disk

/-- The bytes of a `NeoReadMemorySDMessage`. A `std::vector<uint8_t>` holds at most
`max_size()`, that is 2^63 - 1, of them. -/
structure Payload where
  data : List UInt8
  size_lt : data.length < 2^63

/-- A message the `NeoMemorySDRead` filter lets through: a `NeoReadMemorySDMessage`, or a
message of another type, for which the `dynamic_pointer_cast` gives null. -/
inductive Message
  | neoReadMemorySD (p : Payload)
  | other

/-- The caller's buffer `into`, byte by byte from its start. -/
abbrev Buffer := Nat → UInt8

/-- `memcpy(into + off, src.data(), src.size())`. -/
def memcpy (dst : Buffer) (off : Nat) (src : List UInt8) : Buffer :=
  fun i => if off ≤ i ∧ i < off + src.length then src.getD (i - off) 0 else dst i

theorem memcpy_of_lt {dst : Buffer} {off i : Nat} {src : List UInt8} (h : i < off) :
    memcpy dst off src i = dst i := if_neg (by omega)

theorem memcpy_of_ge {dst : Buffer} {off i : Nat} {src : List UInt8}
    (h : off + src.length ≤ i) : memcpy dst off src i = dst i := if_neg (by omega)

theorem memcpy_of_mem {dst : Buffer} {off i : Nat} {src : List UInt8} (h₁ : off ≤ i)
    (h₂ : i < off + src.length) : memcpy dst off src i = src.getD (i - off) 0 :=
  if_pos ⟨h₁, h₂⟩

@[simp] theorem memcpy_nil (dst : Buffer) (off : Nat) : memcpy dst off [] = dst :=
  funext fun _ => if_neg (by simp only [List.length_nil, Nat.add_zero]; omega)

/-- A copy the callback made: the offset in `into` and the bytes copied there. -/
structure Memcpy where
  dst : Nat
  data : List UInt8

/-- All bytes of a sequence of copies, in order. -/
def copiedBytes (ws : List Memcpy) : List UInt8 := (ws.map Memcpy.data).flatten

@[simp] theorem copiedBytes_nil : copiedBytes [] = [] := rfl

@[simp] theorem copiedBytes_append_singleton (ws : List Memcpy) (w : Memcpy) :
    copiedBytes (ws ++ [w]) = copiedBytes ws ++ w.data := by
  simp [copiedBytes]

theorem length_copiedBytes (ws : List Memcpy) :
    (copiedBytes ws).length = (ws.map fun w => w.data.length).sum := by
  simp [copiedBytes, Function.comp_def]

/-- The stack locals the callback captures by reference: `copied` (a `uint32_t`), `error` and
the caller's buffer `into`. -/
structure Txn where
  copied : Nat
  error : Bool
  into : Buffer

/-- The locals as line 29–30 set them up. -/
def Txn.init (into : Buffer) : Txn := ⟨0, false, into⟩

/-- The body of the callback, lines 35–48, with `m` held: the locals after it and the copy it
made. `copied + size()` is computed in `size_t` and `copied += uint32_t(size())` in 32 bits. -/
def Txn.callback (amount : Nat) (t : Txn) : Message → Txn × Option Memcpy
  | .other => ({ t with error := true }, none)
  | .neoReadMemorySD p =>
    if amount < (t.copied + p.data.length) % 2^64 then ({ t with error := true }, none)
    else
      ({ t with
          into := memcpy t.into t.copied p.data
          copied := (t.copied + p.data.length % 2^32) % 2^32 },
        some ⟨t.copied, p.data⟩)

/-- Whether the body ends by `lk.unlock(); cv.notify_all();`: on the error path of lines 36–41,
or when line 45 finds `copied == amount`. Otherwise `lk`'s destructor releases `m` and nothing is
notified. -/
def Txn.notifies (amount : Nat) (t : Txn) : Message → Bool
  | .other => true
  | .neoReadMemorySD p =>
    amount < (t.copied + p.data.length) % 2^64 ||
      (t.copied + p.data.length % 2^32) % 2^32 == amount

/-- The bytes `sdmsg->data` of a `NeoReadMemorySDMessage`. -/
def Message.payload? : Message → Option (List UInt8)
  | .neoReadMemorySD p => some p.data
  | .other => none

def Txn.copyIn (t : Txn) (p : Payload) : Txn :=
  { t with into := memcpy t.into t.copied p.data, copied := t.copied + p.data.length }

@[simp] theorem Txn.copyIn_copied (t : Txn) (p : Payload) :
    (t.copyIn p).copied = t.copied + p.data.length := rfl

@[simp] theorem Txn.copyIn_into (t : Txn) (p : Payload) :
    (t.copyIn p).into = memcpy t.into t.copied p.data := rfl

/-- The wait predicate of line 61, `error || copied == amount`. -/
def Txn.waitPredicate (amount : Nat) (t : Txn) : Bool := t.error || t.copied == amount

/-- One delivery to the callback, with the copies made so far. -/
def deliver (amount : Nat) (s : Txn × List Memcpy) (msg : Message) : Txn × List Memcpy :=
  ((s.1.callback amount msg).1, s.2 ++ (s.1.callback amount msg).2.toList)

/-- The callback run on each of `msgs` in turn. -/
def deliverAll (amount : Nat) (s : Txn × List Memcpy) (msgs : List Message) :
    Txn × List Memcpy :=
  msgs.foldl (deliver amount) s

@[simp] theorem deliverAll_nil (amount : Nat) (s : Txn × List Memcpy) :
    deliverAll amount s [] = s := rfl

@[simp] theorem deliverAll_cons (amount : Nat) (s : Txn × List Memcpy) (msg : Message)
    (msgs : List Message) :
    deliverAll amount s (msg :: msgs) = deliverAll amount (deliver amount s msg) msgs := rfl

theorem deliverAll_append (amount : Nat) (s : Txn × List Memcpy)
    (msgs₁ msgs₂ : List Message) :
    deliverAll amount s (msgs₁ ++ msgs₂) =
      deliverAll amount (deliverAll amount s msgs₁) msgs₂ :=
  List.foldl_append _ _ _ _

theorem deliver_copies_sublist (amount : Nat) (s : Txn × List Memcpy) (msg : Message) :
    List.Sublist ((deliver amount s msg).2.map Memcpy.data)
      (s.2.map Memcpy.data ++ msg.payload?.toList) := by
  cases msg with
  | other => simp [deliver, Txn.callback, Message.payload?]
  | neoReadMemorySD p =>
    simp only [deliver, Txn.callback, Message.payload?]
    split <;> simp

/-- The copies the callback makes are of the delivered payloads, in delivery order. -/
theorem deliverAll_copies_sublist (amount : Nat) :
    ∀ (msgs : List Message) (s : Txn × List Memcpy),
      List.Sublist ((deliverAll amount s msgs).2.map Memcpy.data)
        (s.2.map Memcpy.data ++ msgs.filterMap Message.payload?)
  | [], s => by simp
  | msg :: msgs, s => by
    have hmsg : msg.payload?.toList ++ msgs.filterMap Message.payload? =
        (msg :: msgs).filterMap Message.payload? := by
      cases msg <;> simp [Message.payload?]
    rw [deliverAll_cons, ← hmsg, ← List.append_assoc]
    exact (deliverAll_copies_sublist amount msgs _).trans
      ((deliver_copies_sublist amount s msg).append_right _)

section Step

variable {amount : Nat} {t : Txn}

/-- A chunk that fits below `amount` is copied at `copied`, and `copied` grows by its size
without wrapping. -/
theorem callback_accept {p : Payload} (ha : amount < 2^32)
    (hfit : t.copied + p.data.length ≤ amount) :
    t.callback amount (.neoReadMemorySD p) = (t.copyIn p, some ⟨t.copied, p.data⟩) := by
  have hsum : (t.copied + p.data.length) % 2^64 = t.copied + p.data.length := by omega
  have hcopied : (t.copied + p.data.length % 2^32) % 2^32 = t.copied + p.data.length := by
    omega
  simp only [Txn.callback, Txn.copyIn, hsum, hcopied, if_neg (Nat.not_lt.mpr hfit)]

/-- A chunk that would carry `copied` past `amount` only sets `error`. -/
theorem callback_reject {p : Payload} (hc : t.copied < 2^32)
    (hover : amount < t.copied + p.data.length) :
    t.callback amount (.neoReadMemorySD p) = ({ t with error := true }, none) := by
  have hsum : (t.copied + p.data.length) % 2^64 = t.copied + p.data.length := by
    have := p.size_lt
    omega
  simp only [Txn.callback, hsum, if_pos hover]

/-- Everything one run of the callback can do, from a state with `copied ≤ amount < 2^32`:
copy an accepted chunk, or set `error` and change nothing else. -/
theorem callback_cases (ha : amount < 2^32) (hc : t.copied ≤ amount) (msg : Message) :
    (∃ p : Payload, msg = .neoReadMemorySD p ∧ t.copied + p.data.length ≤ amount ∧
      t.callback amount msg = (t.copyIn p, some ⟨t.copied, p.data⟩)) ∨
    t.callback amount msg = ({ t with error := true }, none) := by
  cases msg with
  | other => exact .inr rfl
  | neoReadMemorySD p =>
    by_cases hfit : t.copied + p.data.length ≤ amount
    · exact .inl ⟨p, rfl, hfit, callback_accept ha hfit⟩
    · exact .inr (callback_reject (by omega) (by omega))

end Step

/-- What every state the transaction reaches satisfies, against the buffer `into₀` the call
was given: `copied` is the exact size of the accepted chunks, `into[0, copied)` holds their
bytes in order, nothing at or past `copied` was written, and no copy goes past `copied`. -/
structure TxnInv (amount : Nat) (into₀ : Buffer) (s : Txn × List Memcpy) : Prop where
  copied_le : s.1.copied ≤ amount
  copied_eq : s.1.copied = (s.2.map fun w => w.data.length).sum
  filled : ∀ i < s.1.copied, s.1.into i = (copiedBytes s.2).getD i 0
  untouched : ∀ i, s.1.copied ≤ i → s.1.into i = into₀ i
  writes_le : ∀ w ∈ s.2, w.dst + w.data.length ≤ s.1.copied

theorem txnInv_init (amount : Nat) (into₀ : Buffer) :
    TxnInv amount into₀ (Txn.init into₀, []) :=
  ⟨Nat.zero_le _, rfl, fun _ h => absurd h (Nat.not_lt_zero _), fun _ _ => rfl,
    fun _ h => absurd h (List.not_mem_nil _)⟩

section Preservation

variable {amount : Nat} {into₀ : Buffer} {s : Txn × List Memcpy}

theorem TxnInv.accept (hi : TxnInv amount into₀ s) {p : Payload}
    (hfit : s.1.copied + p.data.length ≤ amount) :
    TxnInv amount into₀ (s.1.copyIn p, s.2 ++ [⟨s.1.copied, p.data⟩]) := by
  have hlen : (copiedBytes s.2).length = s.1.copied := by
    rw [length_copiedBytes, hi.copied_eq]
  refine ⟨hfit, ?_, fun i (h : i < s.1.copied + p.data.length) => ?_,
    fun i (h : s.1.copied + p.data.length ≤ i) => ?_, fun w hw => ?_⟩
  · simp [hi.copied_eq]
  · rw [Txn.copyIn_into, copiedBytes_append_singleton]
    by_cases hlt : i < s.1.copied
    · rw [memcpy_of_lt hlt, hi.filled i hlt, List.getD_append _ _ _ _ (by omega)]
    · rw [memcpy_of_mem (by omega) h, List.getD_append_right _ _ _ _ (by omega), hlen]
  · rw [Txn.copyIn_into, memcpy_of_ge h, hi.untouched i (by omega)]
  · rcases List.mem_append.mp hw with hw | hw
    · exact le_trans (hi.writes_le w hw) (Nat.le_add_right _ _)
    · simp only [List.mem_singleton] at hw
      subst hw
      exact le_rfl

theorem TxnInv.deliver (ha : amount < 2^32) (hi : TxnInv amount into₀ s) (msg : Message) :
    TxnInv amount into₀ (deliver amount s msg) := by
  rcases callback_cases ha hi.copied_le msg with ⟨p, -, hfit, h⟩ | h <;>
    simp only [Disk.deliver, h, Option.toList_some, Option.toList_none, List.append_nil]
  · exact hi.accept hfit
  · exact ⟨hi.copied_le, hi.copied_eq, hi.filled, hi.untouched, hi.writes_le⟩

theorem TxnInv.deliverAll (ha : amount < 2^32) (hi : TxnInv amount into₀ s)
    (msgs : List Message) : TxnInv amount into₀ (deliverAll amount s msgs) := by
  induction msgs generalizing s with
  | nil => exact hi
  | cons msg msgs ih => exact ih (hi.deliver ha msg)

end Preservation

section Completion

variable {amount : Nat} {s : Txn × List Memcpy}

/-- Once `copied = amount`, a run of the callback changes neither `copied` nor `into`: an
empty chunk copies nothing, and anything else only sets `error`. -/
theorem callback_of_complete {t : Txn} (ha : amount < 2^32) (hc : t.copied = amount)
    (msg : Message) :
    (t.callback amount msg).1.copied = amount ∧ (t.callback amount msg).1.into = t.into := by
  rcases callback_cases ha hc.le msg with ⟨p, -, hfit, h⟩ | h <;> rw [h]
  · have hnil : p.data = [] := List.eq_nil_of_length_eq_zero (by omega)
    simp [hnil, hc]
  · exact ⟨hc, rfl⟩

theorem deliverAll_of_complete (ha : amount < 2^32) (hc : s.1.copied = amount)
    (msgs : List Message) :
    (deliverAll amount s msgs).1.copied = amount ∧
      (deliverAll amount s msgs).1.into = s.1.into := by
  induction msgs generalizing s with
  | nil => exact ⟨hc, rfl⟩
  | cons msg msgs ih =>
    obtain ⟨hc', hinto⟩ := callback_of_complete ha hc msg
    obtain ⟨hc'', hinto'⟩ := @ih (deliver amount s msg) hc'
    exact ⟨hc'', hinto'.trans hinto⟩

/-- Chunks that together fit below `amount` are all accepted: `copied` grows by their total size
and the copies made are theirs, in order. -/
theorem deliverAll_chunks (ha : amount < 2^32) :
    ∀ (chunks : List Payload) {s : Txn × List Memcpy},
      s.1.copied + (chunks.map fun p => p.data.length).sum ≤ amount →
      (deliverAll amount s (chunks.map .neoReadMemorySD)).1.copied =
          s.1.copied + (chunks.map fun p => p.data.length).sum ∧
        (deliverAll amount s (chunks.map .neoReadMemorySD)).2.map Memcpy.data =
          s.2.map Memcpy.data ++ chunks.map Payload.data
  | [], _, _ => by simp
  | p :: chunks, s, h => by
    simp only [List.map_cons, List.sum_cons] at h
    have hd : deliver amount s (.neoReadMemorySD p) =
        (s.1.copyIn p, s.2 ++ [⟨s.1.copied, p.data⟩]) := by
      simp [Disk.deliver, callback_accept ha (show s.1.copied + p.data.length ≤ amount by omega)]
    obtain ⟨h₁, h₂⟩ := @deliverAll_chunks ha chunks
      (s.1.copyIn p, s.2 ++ [⟨s.1.copied, p.data⟩]) (by simp only [Txn.copyIn_copied]; omega)
    simp only [List.map_cons, deliverAll_cons, hd, h₁, h₂, Txn.copyIn_copied, List.sum_cons,
      List.map_append, List.map_singleton, List.append_assoc, List.singleton_append]
    exact ⟨by omega, rfl⟩

end Completion

theorem map_range_eq_of_getD {b : Buffer} {l : List UInt8} {n : Nat} (hl : l.length = n)
    (h : ∀ i < n, b i = l.getD i 0) : (List.range n).map b = l := by
  apply List.ext_getElem (by simp [hl])
  intro i h₁ h₂
  simp only [List.getElem_map, List.getElem_range]
  rw [h i (by simpa using h₁), List.getD_eq_getElem _ _ h₂]

theorem TxnInv.range_into {amount : Nat} {into₀ : Buffer} {s : Txn × List Memcpy}
    (hi : TxnInv amount into₀ s) : (List.range s.1.copied).map s.1.into = copiedBytes s.2 :=
  map_range_eq_of_getD (by rw [length_copiedBytes, hi.copied_eq]) hi.filled

/-- For every admitted request and every sequence of deliveries: `copied ≤ amount` is the exact
size of the accepted chunks, `into[0, copied)` holds them in delivery order, and nothing at or
past `copied`, or past `amount`, was written. -/
theorem deliverAll_transaction_invariant (d : PlasionDiskReadDriver) {pos amount : Nat}
    (h : d.Admits pos amount) (into₀ : Buffer) (msgs : List Message) :
    let s := deliverAll amount (Txn.init into₀, []) msgs
    s.1.copied ≤ amount ∧ s.1.copied = (s.2.map fun w => w.data.length).sum ∧
      (List.range s.1.copied).map s.1.into = copiedBytes s.2 ∧
      List.Sublist (s.2.map Memcpy.data) (msgs.filterMap Message.payload?) ∧
      (∀ i, s.1.copied ≤ i → s.1.into i = into₀ i) ∧
      (∀ w ∈ s.2, w.dst + w.data.length ≤ s.1.copied) ∧
      ∀ w ∈ s.2, w.dst + w.data.length ≤ amount := by
  have hi := (txnInv_init amount into₀).deliverAll (d.amount_lt_of_admits h) msgs
  exact ⟨hi.copied_le, hi.copied_eq, hi.range_into,
    by simpa using deliverAll_copies_sublist amount msgs (Txn.init into₀, []), hi.untouched,
    hi.writes_le, fun w hw => le_trans (hi.writes_le w hw) hi.copied_le⟩

/-- Two chunks filling an 8-byte read, with a stray message between them. -/
theorem deliverAll_transaction_invariant_small :
    let d := PlasionDiskReadDriver.sectorDriver 0 4 16 (by decide) (by decide)
    let msgs : List Message := [.neoReadMemorySD ⟨[1, 2, 3, 4], by decide⟩, .other,
      .neoReadMemorySD ⟨[5, 6], by decide⟩]
    let s := deliverAll 8 (Txn.init fun _ => 0, []) msgs
    d.Admits 0 8 ∧
    (s.1.copied ≤ 8 ∧ s.1.copied = (s.2.map fun w => w.data.length).sum ∧
      (List.range s.1.copied).map s.1.into = copiedBytes s.2 ∧
      List.Sublist (s.2.map Memcpy.data) (msgs.filterMap Message.payload?) ∧
      (∀ i, s.1.copied ≤ i → s.1.into i = 0) ∧
      (∀ w ∈ s.2, w.dst + w.data.length ≤ s.1.copied) ∧
      ∀ w ∈ s.2, w.dst + w.data.length ≤ 8) :=
  ⟨by decide, @deliverAll_transaction_invariant
    (PlasionDiskReadDriver.sectorDriver 0 4 16 (by decide) (by decide)) 0 8 (by decide) _ _⟩

end Icsneo.Disk
