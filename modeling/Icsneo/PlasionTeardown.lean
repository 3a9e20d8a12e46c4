import Icsneo.PlasionRead

/-! The read under concurrent dispatch. The waiter runs `readLogicalDiskAligned` while reader
threads dispatch messages through the registry; the callback captures the waiter's locals, `m`
and `cv` among them, by reference. -/

namespace Icsneo.Disk

/-- Where the waiter is in `readLogicalDiskAligned`. -/
inductive WaiterPc
  | start
  | locked (sector : Nat)
  | registered (sector : Nat)
  | sent
  | waiting
  | woke (hitTimeout : Bool)
  | removed (hitTimeout : Bool)
  | returned (result : Option Nat)
  deriving DecidableEq

namespace WaiterPc

/-- The waiter holds `m` from `lk(m)` on line 31 until it returns, except inside `wait_for`. -/
def holdsM : WaiterPc → Bool
  | locked _ | registered _ | sent | woke _ | removed _ => true
  | _ => false

/-- The callback is registered from line 32 to line 62. -/
def subscribed : WaiterPc → Bool
  | registered _ | sent | waiting | woke _ => true
  | _ => false

def isReturned : WaiterPc → Bool
  | returned _ => true
  | _ => false

def early : WaiterPc → Bool
  | start | locked _ => true
  | _ => false

def running : WaiterPc → Bool
  | start | returned _ => false
  | _ => true

def beforeWait : WaiterPc → Bool
  | start | locked _ | registered _ | sent => true
  | _ => false

def pastSend : WaiterPc → Bool
  | sent | waiting | woke _ | removed _ => true
  | _ => false

end WaiterPc

/-- Where the dispatch of one message is: before its snapshot of the registry, entering the
callback, in the body with `m` held, between `lk.unlock()` and `cv.notify_all()`, or done. -/
inductive DispatchPc
  | snapshot
  | calling
  | inBody
  | notifying
  | finished
  deriving DecidableEq

structure Dispatch where
  msg : Message
  pc : DispatchPc

/-- The communication object, the callback's id, the waiter, the dispatches in flight and the
waiter's locals. `writes` and `delivered` record the copies made and the messages the body ran
on, in order; no code reads them. -/
structure System where
  com : Communication
  cb : Nat
  waiter : WaiterPc
  dispatches : List Dispatch
  txn : Txn
  writes : List Memcpy
  delivered : List Message

def System.init (com : Communication) (into : Buffer) : System :=
  ⟨com, com.nextCallbackId, .start, [], Txn.init into, [], []⟩

def System.mFree (s : System) : Bool :=
  !s.waiter.holdsM && s.dispatches.all (·.pc != .inBody)

theorem System.holdsM_of_mFree {s : System} (h : s.mFree) : s.waiter.holdsM = false := by
  simp only [System.mFree, Bool.and_eq_true, Bool.not_eq_true'] at h
  exact h.1

theorem System.not_inBody_of_mFree {s : System} (h : s.mFree) :
    ∀ δ ∈ s.dispatches, δ.pc ≠ .inBody := by
  intro δ hδ
  simp only [System.mFree, Bool.and_eq_true, List.all_eq_true] at h
  simpa using h.2 δ hδ

/-- A dispatch runs the callback's body after the waiter has returned: it locked `m`, a local of
the returned frame, and goes on to read and write `copied`, `error` and `into`. -/
def System.callbackAfterReturn (s : System) : Bool :=
  s.waiter.isReturned && s.dispatches.any (·.pc == .inBody)

inductive Action
  | waiter
  | arrive (msg : Message)
  | dispatch (i : Nat)

section Steps

variable (d : PlasionDiskReadDriver) (pos amount : Nat)

/-- The waiter's next step. `wait_for` ends once `m` is free again, by notification or by the
timeout, and yields the predicate's value. -/
def waiterStep (s : System) : Option System :=
  match s.waiter with
  | .start =>
    match d.checkRequest pos amount with
    | none => some { s with waiter := .returned none }
    | some sector => some { s with waiter := .locked sector }
  | .locked sector =>
    some { s with
      waiter := .registered sector
      com := s.com.addMessageCallback.2 }
  | .registered sector =>
    some { s with
      waiter := .sent
      com := s.com.rawWrite (d.readCommand sector amount) }
  | .sent => some { s with waiter := .waiting }
  | .waiting =>
    if s.mFree then some { s with waiter := .woke !(s.txn.waitPredicate amount) } else none
  | .woke h =>
    some { s with
      waiter := .removed h
      com := s.com.removeMessageCallback s.cb }
  | .removed h => some { s with waiter := .returned (if h then none else some amount) }
  | .returned _ => none

/-- Modelled from the spec: the next step of dispatch `i`. Its snapshot of the registry decides
whether the callback is called, outside the registry lock; the body (lines 33–48) runs with `m`
held and releases it by `lk.unlock()`, then notifies, or by `lk`'s destructor. -/
def dispatchStep (s : System) (i : Nat) : Option System :=
  match s.dispatches[i]? with
  | none => none
  | some δ =>
    match δ.pc with
    | .snapshot =>
      some { s with
        dispatches := s.dispatches.set i
          { δ with pc := if s.cb ∈ s.com.messageCallbacks then .calling else .finished } }
    | .calling =>
      if s.mFree then some { s with dispatches := s.dispatches.set i { δ with pc := .inBody } }
      else none
    | .inBody =>
      some { s with
        dispatches := s.dispatches.set i
          { δ with pc := if s.txn.notifies amount δ.msg then .notifying else .finished }
        txn := (deliver amount (s.txn, s.writes) δ.msg).1
        writes := (deliver amount (s.txn, s.writes) δ.msg).2
        delivered := s.delivered ++ [δ.msg] }
    | .notifying => some { s with dispatches := s.dispatches.set i { δ with pc := .finished } }
    | .finished => none

def step (s : System) : Action → Option System
  | .waiter => waiterStep d pos amount s
  | .arrive msg => some { s with dispatches := s.dispatches ++ [⟨msg, .snapshot⟩] }
  | .dispatch i => dispatchStep amount s i

/-- The states some interleaving reaches from the start of the call. -/
inductive Reachable (com : Communication) (into : Buffer) : System → Prop
  | init : Reachable com into (System.init com into)
  | step {s s' : System} (a : Action) :
      Reachable com into s → step d pos amount s a = some s' → Reachable com into s'

def run (s : System) : List Action → Option System
  | [] => some s
  | a :: as => (step d pos amount s a).bind (run · as)

theorem Reachable.run {com : Communication} {into : Buffer} :
    ∀ {s s' : System} {as : List Action}, Reachable d pos amount com into s →
      run d pos amount s as = some s' → Reachable d pos amount com into s'
  | _, _, [], hs, h => by cases h; exact hs
  | s, _, a :: as, hs, h => by
    cases hst : Disk.step d pos amount s a with
    | none => simp [Disk.run, hst] at h
    | some s₁ =>
      simp only [Disk.run, hst, Option.bind_some] at h
      exact (hs.step a hst).run h

end Steps

/-- The waiter times out and returns while a dispatch that took its snapshot before
`removeMessageCallback` has still to enter the callback. -/
def lateDispatch (msg : Message) : List Action :=
  [.waiter, .waiter, .waiter, .waiter, .arrive msg, .dispatch 0, .waiter, .waiter, .waiter,
    .dispatch 0]

/-- Some interleaving runs the callback, `m` and the locals included, after
`readLogicalDiskAligned` has returned. -/
theorem teardown_callback_after_return :
    ∃ s, Reachable (PlasionDiskReadDriver.sectorDriver 0 512 8192 (by decide) (by decide)) 0
      512 .empty (fun _ => 0) s ∧ s.callbackAfterReturn = true := by
  have h : run (PlasionDiskReadDriver.sectorDriver 0 512 8192 (by decide) (by decide)) 0 512
      (System.init .empty fun _ => 0) (lateDispatch .other) = some _ := rfl
  exact ⟨_, Reachable.init.run _ _ _ h, rfl⟩

section Invariant

variable (d : PlasionDiskReadDriver) (pos amount : Nat) (com₀ : Communication) (into : Buffer)

/-- The communication object as the waiter's own calls leave it at each point. -/
def comAt (w : WaiterPc) : Communication :=
  let sent := (d.sendRead com₀ (pos / d.SectorSize) amount).2
  match w with
  | .start | .locked _ => com₀
  | .registered _ => com₀.addMessageCallback.2
  | .sent | .waiting | .woke _ => sent
  | .removed _ => sent.removeMessageCallback com₀.nextCallbackId
  | .returned _ =>
    if d.Admits pos amount then sent.removeMessageCallback com₀.nextCallbackId else com₀

theorem comAt_messageCallbacks (w : WaiterPc) :
    (comAt d pos amount com₀ w).messageCallbacks =
      com₀.messageCallbacks ++ if w.subscribed then [com₀.nextCallbackId] else [] := by
  cases w <;> simp [comAt, PlasionDiskReadDriver.sendRead, WaiterPc.subscribed,
    com₀.filter_ne_nextCallbackId]
  split <;> simp [com₀.filter_ne_nextCallbackId]

theorem comAt_written (w : WaiterPc) :
    (comAt d pos amount com₀ w).written = com₀.written ++
      if w.pastSend ∨ w.isReturned ∧ d.Admits pos amount then
        [d.readCommand (pos / d.SectorSize) amount] else [] := by
  cases w <;> simp [comAt, PlasionDiskReadDriver.sendRead, WaiterPc.pastSend, WaiterPc.isReturned]
  split <;> simp [*]

/-- What every reachable state satisfies. The dispatches leave the communication object to the
waiter, the locals are the callback run on `delivered` in order, and a woken waiter's
`hitTimeout` is the negated predicate of the current locals. -/
structure SysInv (s : System) : Prop where
  cb_eq : s.cb = com₀.nextCallbackId
  com_eq : s.com = comAt d pos amount com₀ s.waiter
  sector : ∀ sector, s.waiter = .locked sector ∨ s.waiter = .registered sector →
    sector = pos / d.SectorSize
  early : s.waiter.early →
    s.delivered = [] ∧ ∀ δ ∈ s.dispatches, δ.pc = .snapshot ∨ δ.pc = .finished
  waiter_exclusive : s.waiter.holdsM → ∀ δ ∈ s.dispatches, δ.pc ≠ .inBody
  admits : s.waiter.running → d.Admits pos amount
  txn : (s.txn, s.writes) = deliverAll amount (Txn.init into, []) s.delivered
  woke : ∀ h, s.waiter = .woke h ∨ s.waiter = .removed h → h = !s.txn.waitPredicate amount

theorem sysInv_init : SysInv d pos amount com₀ into (System.init com₀ into) :=
  ⟨rfl, rfl, by simp [System.init], fun _ => ⟨rfl, by simp [System.init]⟩,
    by simp [System.init], by simp [System.init, WaiterPc.running], rfl, by simp [System.init]⟩

variable {d pos amount com₀ into} {s s' : System}

theorem SysInv.cb_mem_iff (hi : SysInv d pos amount com₀ into s) :
    s.cb ∈ s.com.messageCallbacks ↔ s.waiter.subscribed := by
  rw [hi.com_eq, comAt_messageCallbacks, hi.cb_eq]
  cases s.waiter.subscribed <;> simp [com₀.nextCallbackId_not_mem]

theorem SysInv.not_holdsM (hi : SysInv d pos amount com₀ into s) {δ : Dispatch}
    (hδ : δ ∈ s.dispatches) (hpc : δ.pc = .inBody) : s.waiter.holdsM = false :=
  Bool.eq_false_iff.mpr fun hm => hi.waiter_exclusive hm δ hδ hpc

theorem SysInv.arrive (hi : SysInv d pos amount com₀ into s) (msg : Message) :
    SysInv d pos amount com₀ into
      { s with dispatches := s.dispatches ++ [⟨msg, .snapshot⟩] } := by
  refine ⟨hi.cb_eq, hi.com_eq, hi.sector, fun he => ⟨(hi.early he).1, fun δ hδ => ?_⟩,
    fun hm δ hδ => ?_, hi.admits, hi.txn, hi.woke⟩
  · rcases List.mem_append.mp hδ with hδ | hδ
    · exact (hi.early he).2 δ hδ
    · simp [List.mem_singleton.mp hδ]
  · rcases List.mem_append.mp hδ with hδ | hδ
    · exact hi.waiter_exclusive hm δ hδ
    · simp [List.mem_singleton.mp hδ]

/-- Everything a step of a dispatch can do: move its own position on, and, in the body, run the
callback once on its message. -/
theorem dispatchStep_cases {i : Nat} (h : dispatchStep amount s i = some s') :
    ∃ δ ∈ s.dispatches,
      (∃ pc, (pc = .finished ∨ pc = .calling ∧ s.cb ∈ s.com.messageCallbacks ∨
          pc = .inBody ∧ δ.pc = .calling ∧ s.mFree) ∧ δ.pc ≠ .inBody ∧
        s' = { s with dispatches := s.dispatches.set i { δ with pc := pc } }) ∨
      (δ.pc = .inBody ∧ ∃ pc, pc ≠ .inBody ∧
        s' = { s with
          dispatches := s.dispatches.set i { δ with pc := pc }
          txn := (deliver amount (s.txn, s.writes) δ.msg).1
          writes := (deliver amount (s.txn, s.writes) δ.msg).2
          delivered := s.delivered ++ [δ.msg] }) := by
  unfold dispatchStep at h
  cases hδ : s.dispatches[i]? with
  | none => simp [hδ] at h
  | some δ =>
    refine ⟨δ, List.getElem?_mem hδ, ?_⟩
    simp only [hδ] at h
    cases hpc : δ.pc <;> simp only [hpc, Option.some.injEq, reduceCtorEq] at h
    case snapshot => exact .inl ⟨_, by split <;> simp [*], by simp, h.symm⟩
    case calling =>
      split at h
      · exact .inl ⟨_, .inr (.inr ⟨rfl, rfl, ‹_›⟩), by simp, (Option.some.inj h).symm⟩
      · cases h
    case inBody => exact .inr ⟨rfl, _, by split <;> simp, h.symm⟩
    case notifying => exact .inl ⟨_, .inl rfl, by simp, h.symm⟩

theorem SysInv.dispatchStep {i : Nat} (hi : SysInv d pos amount com₀ into s)
    (h : dispatchStep amount s i = some s') : SysInv d pos amount com₀ into s' := by
  obtain ⟨δ, hmem, ⟨pc, hpc, hδ, rfl⟩ | ⟨hδ, pc, hpc, rfl⟩⟩ := dispatchStep_cases h
  · refine ⟨hi.cb_eq, hi.com_eq, hi.sector, fun he => ⟨(hi.early he).1, fun δ' hδ' => ?_⟩,
      fun hm δ' hδ' => ?_, hi.admits, hi.txn, hi.woke⟩
    · rcases List.mem_or_eq_of_mem_set hδ' with hδ' | rfl
      · exact (hi.early he).2 δ' hδ'
      rcases hpc with rfl | ⟨rfl, hcb⟩ | ⟨rfl, hc, -⟩
      · simp
      · revert he
        cases hw : s.waiter <;> simp_all [WaiterPc.early, hi.cb_mem_iff, WaiterPc.subscribed]
      · rcases (hi.early he).2 δ hmem with h' | h' <;> simp [h'] at hc
    · rcases List.mem_or_eq_of_mem_set hδ' with hδ' | rfl
      · exact hi.waiter_exclusive hm δ' hδ'
      rcases hpc with rfl | ⟨rfl, -⟩ | ⟨rfl, -, hfree⟩
      · simp
      · simp
      · simp [System.holdsM_of_mFree hfree] at hm
  · have hm := hi.not_holdsM hmem hδ
    refine ⟨hi.cb_eq, hi.com_eq, hi.sector, fun he => ?_, fun h' => absurd h' (by simp [hm]),
      hi.admits, ?_, fun t hw => ?_⟩
    · rcases (hi.early he).2 δ hmem with h' | h' <;> simp [h'] at hδ
    · rw [deliverAll_append, ← hi.txn]
      rfl
    · rcases hw with hw | hw <;> (dsimp only at hw; simp [hw, WaiterPc.holdsM] at hm)

/-- A step of the waiter alone: the dispatches and the locals stay. -/
theorem SysInv.waiterMove (hi : SysInv d pos amount com₀ into s) {w : WaiterPc}
    {c : Communication} (hcom : c = comAt d pos amount com₀ w)
    (hsector : ∀ sector, w = .locked sector ∨ w = .registered sector →
      sector = pos / d.SectorSize)
    (hearly : w.early →
      s.delivered = [] ∧ ∀ δ ∈ s.dispatches, δ.pc = .snapshot ∨ δ.pc = .finished)
    (hhold : w.holdsM → ∀ δ ∈ s.dispatches, δ.pc ≠ .inBody)
    (hrun : w.running → d.Admits pos amount)
    (hwoke : ∀ h, w = .woke h ∨ w = .removed h → h = !s.txn.waitPredicate amount) :
    SysInv d pos amount com₀ into { s with waiter := w, com := c } :=
  ⟨hi.cb_eq, hcom, hsector, hearly, hhold, hrun, hi.txn, hwoke⟩

theorem SysInv.waiterStep (hi : SysInv d pos amount com₀ into s)
    (h : waiterStep d pos amount s = some s') : SysInv d pos amount com₀ into s' := by
  have hcom := hi.com_eq
  have hrun (hr : s.waiter.running) : d.Admits pos amount := hi.admits hr
  unfold Disk.waiterStep at h
  cases hw : s.waiter <;> rw [hw] at hcom <;> simp only [hw, Option.some.injEq, reduceCtorEq] at h
  case start =>
    cases hc : d.checkRequest pos amount <;> simp only [hc, Option.some.injEq] at h <;> subst h
    case none =>
      exact hi.waiterMove (by simp [hcom, comAt, d.checkRequest_eq_none.mp hc]) (by simp)
        (by simp [WaiterPc.early]) (by simp [WaiterPc.holdsM]) (by simp [WaiterPc.running])
        (by simp)
    case some sector =>
      have he := hi.early (by simp [hw, WaiterPc.early])
      obtain ⟨hadm, hsec⟩ := d.checkRequest_eq_some.mp hc
      exact hi.waiterMove hcom (fun _ h' => by rcases h' with h' | h' <;> cases h'; exact hsec)
        (fun _ => he) (fun _ δ hδ => by rcases he.2 δ hδ with h' | h' <;> simp [h'])
        (fun _ => hadm) (by simp)
  case locked sector =>
    subst h
    exact hi.waiterMove (by simp [hcom, comAt]) (fun _ h' => by
        rcases h' with h' | h' <;> cases h'; exact hi.sector _ (.inl hw))
      (by simp [WaiterPc.early]) (fun _ => hi.waiter_exclusive (by simp [hw, WaiterPc.holdsM]))
      (fun _ => hrun (by simp [hw, WaiterPc.running])) (by simp)
  case registered sector =>
    subst h
    exact hi.waiterMove
      (by simp [hcom, comAt, PlasionDiskReadDriver.sendRead, hi.sector sector (.inr hw)])
      (by simp) (by simp [WaiterPc.early])
      (fun _ => hi.waiter_exclusive (by simp [hw, WaiterPc.holdsM]))
      (fun _ => hrun (by simp [hw, WaiterPc.running])) (by simp)
  case sent =>
    subst h
    exact hi.waiterMove hcom (by simp) (by simp [WaiterPc.early]) (by simp [WaiterPc.holdsM])
      (fun _ => hrun (by simp [hw, WaiterPc.running])) (by simp)
  case waiting =>
    split at h <;> simp only [Option.some.injEq, reduceCtorEq] at h
    subst h
    exact hi.waiterMove hcom (by simp) (by simp [WaiterPc.early])
      (fun _ => System.not_inBody_of_mFree ‹_›) (fun _ => hrun (by simp [hw, WaiterPc.running]))
      (by simp)
  case woke t =>
    subst h
    exact hi.waiterMove (by simp [hcom, comAt, hi.cb_eq]) (by simp) (by simp [WaiterPc.early])
      (fun _ => hi.waiter_exclusive (by simp [hw, WaiterPc.holdsM]))
      (fun _ => hrun (by simp [hw, WaiterPc.running]))
      (fun h' hw' => by rcases hw' with hw' | hw' <;> cases hw'; exact hi.woke _ (.inl hw))
  case removed t =>
    subst h
    exact hi.waiterMove (by simp [hcom, comAt, hrun (by simp [hw, WaiterPc.running])]) (by simp)
      (by simp [WaiterPc.early]) (by simp [WaiterPc.holdsM]) (by simp [WaiterPc.running])
      (by simp)

theorem SysInv.step (hi : SysInv d pos amount com₀ into s) {a : Action}
    (h : step d pos amount s a = some s') : SysInv d pos amount com₀ into s' := by
  cases a with
  | waiter => exact hi.waiterStep h
  | arrive msg => cases h; exact hi.arrive msg
  | dispatch i => exact hi.dispatchStep h

theorem Reachable.sysInv (h : Reachable d pos amount com₀ into s) :
    SysInv d pos amount com₀ into s := by
  induction h with
  | init => exact sysInv_init d pos amount com₀ into
  | step _ _ hst ih => exact ih.step hst

/-- At the step in which the call returns, under any interleaving, what it leaves (the value, the
communication object, the locals and the copies) is what the sequential call leaves on the
messages the callback's body has run on, in the order it ran on them. -/
theorem reachable_result_refines (h : Reachable d pos amount com₀ into s)
    (hs : waiterStep d pos amount s = some s') {r : Option Nat} (hr : s'.waiter = .returned r) :
    (⟨r, s'.com, s'.txn, s'.writes⟩ : ReadOutcome) =
      d.readLogicalDiskAligned com₀ pos into amount s'.delivered := by
  have hi := h.sysInv
  have hcom := (h.step .waiter hs).sysInv.com_eq
  have htxn := hi.txn
  rw [hr] at hcom
  unfold Disk.waiterStep at hs
  cases hw : s.waiter <;> simp only [hw, Option.some.injEq, reduceCtorEq] at hs
  case start =>
    cases hc : d.checkRequest pos amount <;>
      simp only [hc, Option.some.injEq] at hs <;> subst hs <;> cases hr
    have hna := d.checkRequest_eq_none.mp hc
    rw [(hi.early (by simp [hw, WaiterPc.early])).1] at htxn ⊢
    rw [PlasionDiskReadDriver.readLogicalDiskAligned_of_not_admits hna]
    simp only [comAt, if_neg hna] at hcom
    simp only [deliverAll_nil, Prod.mk.injEq] at htxn
    simp [hcom, htxn]
  case removed t =>
    subst hs
    cases hr
    have hadm := hi.admits (by simp [hw, WaiterPc.running])
    rw [PlasionDiskReadDriver.readLogicalDiskAligned_of_admits hadm, ← htxn]
    simp only [comAt, if_pos hadm] at hcom
    rw [hi.woke t (.inr hw)]
    cases hp : s.txn.waitPredicate amount <;> simp [hp, hcom]
  case waiting =>
    split at hs <;> simp only [Option.some.injEq, reduceCtorEq] at hs
    subst hs
    cases hr
  all_goals subst hs; cases hr

/-- A 4-byte read answered by one 4-byte chunk returns, and leaves the sequential call's outcome
on that chunk. -/
theorem reachable_result_refines_chunk :
    ∃ s s', Reachable (PlasionDiskReadDriver.sectorDriver 0 4 16 (by decide) (by decide)) 0 4
        .empty (fun _ => 0) s ∧
      waiterStep (PlasionDiskReadDriver.sectorDriver 0 4 16 (by decide) (by decide)) 0 4 s =
        some s' ∧ s'.waiter = .returned (some 4) ∧
      s'.delivered = [.neoReadMemorySD ⟨[1, 2, 3, 4], by decide⟩] ∧
      (⟨some 4, s'.com, s'.txn, s'.writes⟩ : ReadOutcome) =
        (PlasionDiskReadDriver.sectorDriver 0 4 16 (by decide) (by decide)).readLogicalDiskAligned
          .empty 0 (fun _ => 0) 4 s'.delivered := by
  have h : run (PlasionDiskReadDriver.sectorDriver 0 4 16 (by decide) (by decide)) 0 4
      (System.init .empty fun _ => 0)
      [.waiter, .waiter, .waiter, .waiter, .arrive (.neoReadMemorySD ⟨[1, 2, 3, 4], by decide⟩),
        .dispatch 0, .dispatch 0, .dispatch 0, .dispatch 0, .waiter, .waiter] = some _ := rfl
  have hs := Reachable.init.run _ _ _ h
  exact ⟨_, _, hs, rfl, rfl, rfl, reachable_result_refines hs rfl rfl⟩

/-- No state short of the return is stuck: the waiter or some dispatch can always step, so
`removeMessageCallback` never waits for a dispatch. -/
theorem progress_before_return (hr : s.waiter.isReturned = false) :
    (waiterStep d pos amount s).isSome ∨ ∃ i, (dispatchStep amount s i).isSome := by
  cases hw : s.waiter with
  | returned r => simp [hw, WaiterPc.isReturned] at hr
  | waiting =>
    by_cases hfree : s.mFree
    · left
      simp [Disk.waiterStep, hw, hfree]
    · right
      have : ∃ δ ∈ s.dispatches, δ.pc = .inBody := by
        simpa [System.mFree, hw, WaiterPc.holdsM] using hfree
      obtain ⟨δ, hmem, hpc⟩ := this
      obtain ⟨i, hi⟩ := List.getElem?_of_mem hmem
      exact ⟨i, by simp [Disk.dispatchStep, hi, hpc]⟩
  | start => left; simp only [Disk.waiterStep, hw]; split <;> rfl
  | locked _ | registered _ | sent | woke _ | removed _ => left; simp [Disk.waiterStep, hw]

end Invariant

end Icsneo.Disk
