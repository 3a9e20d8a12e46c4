import Icsneo.PlasionTeardown

/-! The command frame under concurrent dispatch. The waiter holds `m` from line 31 until
`wait_for` releases it, after `rawWrite`, so in every interleaving the frame is written once, for
an admitted request, before the callback changes anything. -/

namespace Icsneo.Disk

section Frame

variable (d : PlasionDiskReadDriver) (pos amount : Nat) (com₀ : Communication) (into : Buffer)

/-- Before `wait_for`, or for a refused request, the callback's body has not run; for a refused
request no dispatch calls it. -/
structure FrameInv (s : System) : Prop where
  untouched : s.waiter.beforeWait ∨ ¬ d.Admits pos amount → s.delivered = []
  refused : ¬ d.Admits pos amount → ∀ δ ∈ s.dispatches, δ.pc = .snapshot ∨ δ.pc = .finished

theorem frameInv_init : FrameInv d pos amount (System.init com₀ into) :=
  ⟨fun _ => rfl, by simp [System.init]⟩

variable {d pos amount com₀ into} {s s' : System}

theorem FrameInv.not_inBody (hs : SysInv d pos amount com₀ into s)
    (hf : FrameInv d pos amount s) (h : s.waiter.beforeWait ∨ ¬ d.Admits pos amount)
    {δ : Dispatch} (hδ : δ ∈ s.dispatches) : δ.pc ≠ .inBody := by
  intro hpc
  rcases h with h | h
  · cases hw : s.waiter <;> simp [hw, WaiterPc.beforeWait] at h
    case start =>
      rcases (hs.early (by simp [hw, WaiterPc.early])).2 δ hδ with h' | h' <;> simp [h'] at hpc
    all_goals simpa [hw, WaiterPc.holdsM] using hs.not_holdsM hδ hpc
  · rcases hf.refused h δ hδ with h' | h' <;> simp [h'] at hpc

theorem FrameInv.dispatchStep {i : Nat} (hs : SysInv d pos amount com₀ into s)
    (hf : FrameInv d pos amount s) (h : dispatchStep amount s i = some s') :
    FrameInv d pos amount s' := by
  obtain ⟨δ, hmem, ⟨pc, hpc, -, rfl⟩ | ⟨hδ, -, -, rfl⟩⟩ := dispatchStep_cases h
  · refine ⟨hf.untouched, fun ha δ' hδ' => ?_⟩
    rcases List.mem_or_eq_of_mem_set hδ' with hδ' | rfl
    · exact hf.refused ha δ' hδ'
    rcases hpc with rfl | ⟨rfl, hcb⟩ | ⟨rfl, hc, -⟩
    · simp
    · have := mt hs.admits ha
      cases hw : s.waiter <;> simp_all [WaiterPc.running, hs.cb_mem_iff, WaiterPc.subscribed]
    · rcases hf.refused ha δ hmem with h' | h' <;> simp [h'] at hc
  · exact ⟨fun hb => absurd hδ (hf.not_inBody hs hb hmem),
      fun ha => absurd hδ (hf.not_inBody hs (.inr ha) hmem)⟩

/-- A step of the waiter leaves the dispatches and the history, and reaches a state before
`wait_for` only from one. -/
theorem waiterStep_moves (h : waiterStep d pos amount s = some s') :
    s'.dispatches = s.dispatches ∧ s'.delivered = s.delivered ∧
      (s'.waiter.beforeWait → s.waiter.beforeWait) := by
  unfold Disk.waiterStep at h
  cases hw : s.waiter <;> simp only [hw, Option.some.injEq, reduceCtorEq] at h
  case start => split at h <;> (cases h; simp [hw, WaiterPc.beforeWait])
  case waiting =>
    split at h <;> simp only [Option.some.injEq, reduceCtorEq] at h
    cases h
    simp [WaiterPc.beforeWait]
  all_goals cases h; simp [hw, WaiterPc.beforeWait]

theorem FrameInv.waiterStep (hf : FrameInv d pos amount s)
    (h : waiterStep d pos amount s = some s') : FrameInv d pos amount s' := by
  obtain ⟨hds, hdel, hbw⟩ := waiterStep_moves h
  refine ⟨fun hb => hdel ▸ hf.untouched (hb.imp_left hbw), fun ha => hds ▸ hf.refused ha⟩

theorem FrameInv.step (hs : SysInv d pos amount com₀ into s)
    (hf : FrameInv d pos amount s) {a : Action} (h : step d pos amount s a = some s') :
    FrameInv d pos amount s' := by
  cases a with
  | waiter => exact hf.waiterStep h
  | arrive msg =>
    cases h
    refine ⟨hf.untouched, fun ha δ hδ => ?_⟩
    rcases List.mem_append.mp hδ with hδ | hδ
    · exact hf.refused ha δ hδ
    · simp [List.mem_singleton.mp hδ]
  | dispatch i => exact hf.dispatchStep hs h

theorem Reachable.frameInv (h : Reachable d pos amount com₀ into s) :
    FrameInv d pos amount s := by
  induction h with
  | init => exact frameInv_init d pos amount com₀ into
  | step _ hr hst ih => exact ih.step hr.sysInv hst

/-- In every interleaving the call writes at most one frame, the read command of an admitted
request, and the callback changes none of `copied`, `error` and `into` before it is written. -/
theorem reachable_frame_before_callback (h : Reachable d pos amount com₀ into s) :
    (s.com.written = com₀.written ∨ d.Admits pos amount ∧
      s.com.written = com₀.written ++ [d.readCommand (pos / d.SectorSize) amount]) ∧
    (s.txn ≠ Txn.init into ∨ s.writes ≠ [] →
      s.com.written = com₀.written ++ [d.readCommand (pos / d.SectorSize) amount]) := by
  have hi := h.sysInv
  have hwr : s.com.written = com₀.written ++
      if s.waiter.pastSend ∨ s.waiter.isReturned ∧ d.Admits pos amount then
        [d.readCommand (pos / d.SectorSize) amount] else [] := by
    rw [hi.com_eq, comAt_written]
  by_cases hc : s.waiter.pastSend ∨ s.waiter.isReturned ∧ d.Admits pos amount
  · rw [if_pos hc] at hwr
    have hadm : d.Admits pos amount := by
      rcases hc with hc | hc
      · exact hi.admits (by revert hc; cases s.waiter <;> simp [WaiterPc.pastSend, WaiterPc.running])
      · exact hc.2
    exact ⟨.inr ⟨hadm, hwr⟩, fun _ => hwr⟩
  · rw [if_neg hc, List.append_nil] at hwr
    refine ⟨.inl hwr, fun hch => absurd hch ?_⟩
    have hb : s.waiter.beforeWait ∨ ¬ d.Admits pos amount := by
      by_cases hadm : d.Admits pos amount
      · left
        revert hc
        cases s.waiter <;> simp [WaiterPc.pastSend, WaiterPc.isReturned, WaiterPc.beforeWait, hadm]
      · exact .inr hadm
    have ht := hi.txn
    rw [h.frameInv.untouched hb, deliverAll_nil, Prod.mk.injEq] at ht
    simp [ht]

end Frame

/-- A 4-byte read answered by one 4-byte chunk: the frame was written before the chunk was
copied. -/
theorem reachable_frame_before_callback_chunk :
    ∃ s, Reachable (PlasionDiskReadDriver.sectorDriver 0 4 16 (by decide) (by decide)) 0 4
        .empty (fun _ => 0) s ∧ s.txn.copied = 4 ∧
      ((s.com.written = Communication.empty.written ∨
          (PlasionDiskReadDriver.sectorDriver 0 4 16 (by decide) (by decide)).Admits 0 4 ∧
          s.com.written = Communication.empty.written ++
            [(PlasionDiskReadDriver.sectorDriver 0 4 16 (by decide) (by decide)).readCommand
              (0 / 4) 4]) ∧
        (s.txn ≠ Txn.init (fun _ => 0) ∨ s.writes ≠ [] →
          s.com.written = Communication.empty.written ++
            [(PlasionDiskReadDriver.sectorDriver 0 4 16 (by decide) (by decide)).readCommand
              (0 / 4) 4])) := by
  have h : run (PlasionDiskReadDriver.sectorDriver 0 4 16 (by decide) (by decide)) 0 4
      (System.init .empty fun _ => 0)
      [.waiter, .waiter, .waiter, .waiter, .arrive (.neoReadMemorySD ⟨[1, 2, 3, 4], by decide⟩),
        .dispatch 0, .dispatch 0, .dispatch 0] = some _ := rfl
  have hs := Reachable.init.run _ _ _ h
  exact ⟨_, hs, rfl, reachable_frame_before_callback hs⟩

end Icsneo.Disk
