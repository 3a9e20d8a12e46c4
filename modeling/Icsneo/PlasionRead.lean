import Icsneo.PlasionTransaction

/-! `readLogicalDiskAligned` as its caller sees it: the request, the runs of the callback
that finish before the wait ends, and the value returned. -/

namespace Icsneo.Disk

/-- What a call leaves: the value returned, the communication object, and the transaction
when the wait ended, with the copies made by then. -/
structure ReadOutcome where
  result : Option Nat
  com : Communication
  txn : Txn
  writes : List Memcpy

namespace PlasionDiskReadDriver

variable (d : PlasionDiskReadDriver)

/-- Lines 31–59 once the checks pass: `addMessageCallback` (with `m` already locked), then
`rawWrite` of the command frame. The callback's id and the communication object after both. -/
def sendRead (com : Communication) (sector amount : Nat) : Nat × Communication :=
  (com.addMessageCallback.1, com.addMessageCallback.2.rawWrite (d.readCommand sector amount))

/-- `readLogicalDiskAligned(com, report, pos, into, amount, timeout)` when the callback runs on
`msgs` before the wait ends; `wait_for` returns its predicate however the wait ends, so the
timeout is the choice of `msgs`. -/
def readLogicalDiskAligned (com : Communication) (pos : Nat) (into : Buffer) (amount : Nat)
    (msgs : List Message) : ReadOutcome :=
  match d.checkRequest pos amount with
  | none => ⟨none, com, Txn.init into, []⟩
  | some sector =>
    let (cb, com) := d.sendRead com sector amount
    let s := deliverAll amount (Txn.init into, []) msgs
    let hitTimeout := !s.1.waitPredicate amount
    ⟨if hitTimeout then none else some amount, com.removeMessageCallback cb, s.1, s.2⟩

variable {d} {com : Communication} {pos amount : Nat} {into : Buffer} {msgs : List Message}

theorem readLogicalDiskAligned_of_not_admits (h : ¬ d.Admits pos amount) :
    d.readLogicalDiskAligned com pos into amount msgs = ⟨none, com, Txn.init into, []⟩ := by
  simp only [readLogicalDiskAligned, d.checkRequest_eq_none.mpr h]

theorem readLogicalDiskAligned_of_admits (h : d.Admits pos amount) :
    d.readLogicalDiskAligned com pos into amount msgs =
      let s := deliverAll amount (Txn.init into, []) msgs
      ⟨if s.1.waitPredicate amount then some amount else none,
        (d.sendRead com (pos / d.SectorSize) amount).2.removeMessageCallback com.nextCallbackId,
        s.1, s.2⟩ := by
  simp only [readLogicalDiskAligned, d.checkRequest_eq_some.mpr ⟨h, rfl⟩, sendRead,
    Communication.addMessageCallback_fst, Bool.not_eq_true', Bool.if_false_left,
    Bool.not_eq_false]
  split <;> simp_all

/-- The value returned: `some amount` exactly when the request was admitted and the wait
predicate `error || copied == amount` held when the wait ended; `none` otherwise. -/
theorem readLogicalDiskAligned_result :
    (d.readLogicalDiskAligned com pos into amount msgs).result =
      if d.Admits pos amount ∧
          (deliverAll amount (Txn.init into, []) msgs).1.waitPredicate amount
      then some amount else none := by
  by_cases h : d.Admits pos amount
  · rw [readLogicalDiskAligned_of_admits h]
    simp [h]
  · rw [readLogicalDiskAligned_of_not_admits h]
    simp [h]

/-- A read whose callback was handed a message that is not a `NeoReadMemorySDMessage` ends its
wait with `error` set and nothing copied, and still returns the full amount. -/
theorem read_errored_reports_amount (op : UInt8) (com : Communication) (into : Buffer) :
    let o := (sectorDriver op 512 8192 (by decide) (by decide)).readLogicalDiskAligned
      com 0 into 512 [.other]
    o.result = some 512 ∧ o.txn.copied = 0 ∧ o.txn.error = true := by
  have h : (sectorDriver op 512 8192 (by decide) (by decide)).Admits 0 512 := by
    simp [Admits, sectorDriver]
  rw [readLogicalDiskAligned_of_admits h]
  exact ⟨rfl, rfl, rfl⟩

/-- Completion is stable: once the accepted chunks total `amount`, later deliveries keep `copied`
and `into`, and a wait that ends afterwards returns `some amount` with `into[0, amount)` the
chunks delivered up to completion. -/
theorem read_completion_stable (d : PlasionDiskReadDriver) (com : Communication)
    {pos amount : Nat} (h : d.Admits pos amount) (into : Buffer) (msgs₁ msgs₂ : List Message)
    (hc : (deliverAll amount (Txn.init into, []) msgs₁).1.copied = amount) :
    let s₁ := deliverAll amount (Txn.init into, []) msgs₁
    let o := d.readLogicalDiskAligned com pos into amount (msgs₁ ++ msgs₂)
    (∀ later : List Message, (deliverAll amount s₁ later).1.copied = amount ∧
      (deliverAll amount s₁ later).1.into = s₁.1.into ∧
      (deliverAll amount s₁ later).1.waitPredicate amount = true) ∧
    o.result = some amount ∧ (List.range amount).map o.txn.into = copiedBytes s₁.2 ∧
      List.Sublist (s₁.2.map Memcpy.data) (msgs₁.filterMap Message.payload?) := by
  have ha := d.amount_lt_of_admits h
  have hstable := deliverAll_of_complete ha hc
  refine ⟨fun later => ⟨(hstable later).1, (hstable later).2, ?_⟩, ?_, ?_,
    by simpa using deliverAll_copies_sublist amount msgs₁ (Txn.init into, [])⟩
  · simp [Txn.waitPredicate, (hstable later).1]
  · rw [readLogicalDiskAligned_result, deliverAll_append]
    simp [h, Txn.waitPredicate, (hstable msgs₂).1]
  · have hr := ((txnInv_init amount into).deliverAll ha msgs₁).range_into
    rw [hc] at hr
    rw [readLogicalDiskAligned_of_admits h]
    dsimp only
    rw [deliverAll_append, (hstable msgs₂).2]
    exact hr

/-- One 4-byte chunk completes a 4-byte read, and a stray message after it changes nothing. -/
theorem read_completion_stable_small :
    let d := sectorDriver 0 4 16 (by decide) (by decide)
    let p : Payload := ⟨[1, 2, 3, 4], by decide⟩
    let msgs₁ : List Message := [.neoReadMemorySD p]
    let s₁ := deliverAll 4 (Txn.init fun _ => 0, []) msgs₁
    let o := d.readLogicalDiskAligned .empty 0 (fun _ => 0) 4 (msgs₁ ++ [.other])
    d.Admits 0 4 ∧ s₁.1.copied = 4 ∧
    ((∀ later : List Message, (deliverAll 4 s₁ later).1.copied = 4 ∧
      (deliverAll 4 s₁ later).1.into = s₁.1.into ∧
      (deliverAll 4 s₁ later).1.waitPredicate 4 = true) ∧
    o.result = some 4 ∧ (List.range 4).map o.txn.into = copiedBytes s₁.2 ∧
      List.Sublist (s₁.2.map Memcpy.data) (msgs₁.filterMap Message.payload?)) :=
  ⟨by decide, by decide, read_completion_stable _ _ (by decide) _ _ _ (by decide)⟩

/-- A read answered by chunks that together hold exactly `amount` bytes returns `some amount`,
with the chunks' bytes, in order, in `into[0, amount)` and `into` unchanged from `amount` on. -/
theorem readLogicalDiskAligned_chunks (d : PlasionDiskReadDriver) (com : Communication)
    {pos amount : Nat} (h : d.Admits pos amount) (into : Buffer) (chunks : List Payload)
    (hsum : (chunks.map fun p => p.data.length).sum = amount) :
    (d.readLogicalDiskAligned com pos into amount (chunks.map .neoReadMemorySD)).result =
        some amount ∧
      (List.range amount).map
          (d.readLogicalDiskAligned com pos into amount (chunks.map .neoReadMemorySD)).txn.into =
        (chunks.map Payload.data).flatten ∧
      ∀ i, amount ≤ i →
        (d.readLogicalDiskAligned com pos into amount (chunks.map .neoReadMemorySD)).txn.into i =
          into i := by
  have ha := d.amount_lt_of_admits h
  obtain ⟨hc, hw⟩ := @deliverAll_chunks amount ha chunks (Txn.init into, [])
    (by simp [Txn.init, hsum])
  have hi := (txnInv_init amount into).deliverAll ha (chunks.map .neoReadMemorySD)
  have h₀ : (Txn.init into).copied = 0 := rfl
  simp only [h₀, Nat.zero_add, hsum, List.map_nil, List.nil_append] at hc hw
  have hr := hi.range_into
  rw [hc, copiedBytes, hw] at hr
  rw [readLogicalDiskAligned_of_admits h]
  exact ⟨by simp [Txn.waitPredicate, hc], hr, fun i hi' => hi.untouched i (by omega)⟩

/-- Two 4-byte chunks answer an 8-byte read. -/
theorem readLogicalDiskAligned_chunks_two :
    let d := sectorDriver 0 4 16 (by decide) (by decide)
    let chunks : List Payload := [⟨[1, 2, 3, 4], by decide⟩, ⟨[5, 6, 7, 8], by decide⟩]
    let o := d.readLogicalDiskAligned .empty 0 (fun _ => 0) 8 (chunks.map .neoReadMemorySD)
    d.Admits 0 8 ∧ (chunks.map fun p => p.data.length).sum = 8 ∧
      (o.result = some 8 ∧ (List.range 8).map o.txn.into = (chunks.map Payload.data).flatten ∧
        ∀ i, 8 ≤ i → o.txn.into i = 0) :=
  ⟨by decide, by decide, readLogicalDiskAligned_chunks _ _ (by decide) _ _ (by decide)⟩

/-- Where the largest block reaches 2^16 bytes, the length is sent modulo 2^16. -/
example : ((sectorDriver 0 512 65536 (by decide) (by decide)).readLogicalDiskAligned .empty 0
    (fun _ => 0) 65536 []).com.written.map (fun frame => leValue (frame.drop 5)) = [0] := by
  decide

end PlasionDiskReadDriver

end Icsneo.Disk
