import Mathlib

/-! The part of `Communication` the disk read drives: the message-callback registry and
`rawWrite`. The class itself is not among the sources, so the registry follows the
library's description of it: ids are issued in increasing order and removal is by id. -/

namespace Icsneo

/-- Modelled from the spec: the message-callback registry of `Communication` (absent from the
sources) and the frames `rawWrite` sent. Every registered id lies below the next id to issue,
which is what makes ids unique over the registry's lifetime. -/
structure Communication where
  messageCallbacks : List Nat
  nextCallbackId : Nat
  written : List (List UInt8)
  callbacks_lt : ∀ id ∈ messageCallbacks, id < nextCallbackId

namespace Communication

/-- A communication object with no callback registered and nothing written. -/
def empty : Communication := ⟨[], 0, [], by simp⟩

/-- `addMessageCallback`: the callback gets the next id and goes last in the registry. -/
def addMessageCallback (com : Communication) : Nat × Communication :=
  (com.nextCallbackId,
    { com with
      messageCallbacks := com.messageCallbacks ++ [com.nextCallbackId]
      nextCallbackId := com.nextCallbackId + 1
      callbacks_lt := fun id h => by
        rcases List.mem_append.mp h with h | h
        · exact Nat.lt_succ_of_lt (com.callbacks_lt id h)
        · simp only [List.mem_singleton] at h; omega })

/-- `removeMessageCallback(id)`: drops the subscription if it is there, and does nothing
otherwise. -/
def removeMessageCallback (com : Communication) (id : Nat) : Communication :=
  { com with
    messageCallbacks := com.messageCallbacks.filter (· != id)
    callbacks_lt := fun i h => com.callbacks_lt i (List.mem_of_mem_filter h) }

/-- `rawWrite(bytes)`: the frame is sent as it is. -/
def rawWrite (com : Communication) (bytes : List UInt8) : Communication :=
  { com with written := com.written ++ [bytes] }

@[simp] theorem addMessageCallback_fst (com : Communication) :
    com.addMessageCallback.1 = com.nextCallbackId := rfl

@[simp] theorem addMessageCallback_messageCallbacks (com : Communication) :
    com.addMessageCallback.2.messageCallbacks = com.messageCallbacks ++ [com.nextCallbackId] :=
  rfl

@[simp] theorem addMessageCallback_nextCallbackId (com : Communication) :
    com.addMessageCallback.2.nextCallbackId = com.nextCallbackId + 1 := rfl

@[simp] theorem addMessageCallback_written (com : Communication) :
    com.addMessageCallback.2.written = com.written := rfl

@[simp] theorem removeMessageCallback_messageCallbacks (com : Communication) (id : Nat) :
    (com.removeMessageCallback id).messageCallbacks = com.messageCallbacks.filter (· != id) :=
  rfl

@[simp] theorem removeMessageCallback_nextCallbackId (com : Communication) (id : Nat) :
    (com.removeMessageCallback id).nextCallbackId = com.nextCallbackId := rfl

@[simp] theorem removeMessageCallback_written (com : Communication) (id : Nat) :
    (com.removeMessageCallback id).written = com.written := rfl

@[simp] theorem rawWrite_messageCallbacks (com : Communication) (bytes : List UInt8) :
    (com.rawWrite bytes).messageCallbacks = com.messageCallbacks := rfl

@[simp] theorem rawWrite_nextCallbackId (com : Communication) (bytes : List UInt8) :
    (com.rawWrite bytes).nextCallbackId = com.nextCallbackId := rfl

@[simp] theorem rawWrite_written (com : Communication) (bytes : List UInt8) :
    (com.rawWrite bytes).written = com.written ++ [bytes] := rfl

/-- The id just issued is not yet in the registry. -/
theorem nextCallbackId_not_mem (com : Communication) :
    com.nextCallbackId ∉ com.messageCallbacks :=
  fun h => Nat.lt_irrefl _ (com.callbacks_lt _ h)

/-- Removing the id a registration just issued gives back the registry it started from. -/
theorem filter_ne_nextCallbackId (com : Communication) :
    (com.messageCallbacks ++ [com.nextCallbackId]).filter (· != com.nextCallbackId) =
      com.messageCallbacks := by
  rw [List.filter_append, List.filter_eq_self.mpr]
  · simp
  · intro id h
    have := com.callbacks_lt id h
    simp only [bne_iff_ne, ne_eq]
    omega

end Communication

end Icsneo
