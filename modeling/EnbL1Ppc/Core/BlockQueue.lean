import Mathlib.Data.BitVec
import Mathlib.Data.Nat.Bitwise
import EnbL1Ppc.Lib.Ring

namespace EnbL1Ppc.Core

open Lib

variable {P : Type} {w : ℕ}

namespace BlockQueue

/-- The `while(n & (n - 1))` loop, which clears the lowest set bit of `n` on each round.
The value of `n` bounds the number of rounds. -/
def clearLowBits : ℕ → BitVec 32 → BitVec 32
  | 0, n => n
  | fuel + 1, n => if n &&& (n - 1) ≠ 0 then clearLowBits fuel (n &&& (n - 1)) else n

def powerOfTwoRoundUp (n : BitVec 32) : BitVec 32 :=
  clearLowBits (n - 1).toNat (n - 1) <<< 1

end BlockQueue

structure QueueItem (P : Type) (w : ℕ) where
  ptr : P
  len : BitVec w
  deriving DecidableEq

/-- `block_queue_t` without its mutex and condition variables. `P` is the type of item
pointers, with `default` as `NULL`, and `w` the width of `size_t`. -/
structure BlockQueue (P : Type) (w : ℕ) where
  head : ℕ
  tail : ℕ
  len : ℕ
  queue : ℕ → QueueItem P w
  popBreakFlag : Bool
  pushBreakFlag : Bool
  numItems : ℤ
  accumulatedItemsLen : BitVec w

namespace BlockQueue

def init [Inhabited P] (minQueueLen : BitVec 32) : BlockQueue P w where
  head := 0
  tail := 0
  len := (powerOfTwoRoundUp minQueueLen).toNat
  queue _ := ⟨default, 0⟩
  popBreakFlag := false
  pushBreakFlag := false
  numItems := 0
  accumulatedItemsLen := 0

/-- The five statements by which `push` and `try_push` store an item. `item_len` is an
`int32_t` that is converted to `size_t`. -/
def store (q : BlockQueue P w) (item : P) (itemLen : ℤ) : BlockQueue P w :=
  { q with
    queue := Function.update q.queue q.head ⟨item, BitVec.ofInt w itemLen⟩
    head := (q.head + 1) &&& (q.len - 1)
    accumulatedItemsLen := q.accumulatedItemsLen + BitVec.ofInt w itemLen
    numItems := q.numItems + 1 }

/-- The statements by which every pop removes the item at `tail`. -/
def remove (q : BlockQueue P w) : BlockQueue P w :=
  { q with
    accumulatedItemsLen := q.accumulatedItemsLen - (q.queue q.tail).len
    numItems := q.numItems - 1
    tail := (q.tail + 1) &&& (q.len - 1) }

def pushBody (q : BlockQueue P w) (item : P) (itemLen : ℤ) : BlockQueue P w × Bool :=
  if !q.pushBreakFlag then (q.store item itemLen, true) else (q, false)

/-- `block_queue_push` from the lock to the unlock; `none` means that it waits on
`not_full_cond`. The flag it returns is read later, by `pushReturn`; here the second
component says whether the item was stored. -/
def push (q : BlockQueue P w) (item : P) (itemLen : ℤ) : Option (BlockQueue P w × Bool) :=
  if q.numItems = q.len ∧ !q.pushBreakFlag then none else some (q.pushBody item itemLen)

def pushWake (q : BlockQueue P w) (item : P) (itemLen : ℤ) : Option (BlockQueue P w × Bool) :=
  if q.pushBreakFlag then some (q.pushBody item itemLen) else q.push item itemLen

def pushReturn (q : BlockQueue P w) : Bool :=
  !q.pushBreakFlag

def tryPush (q : BlockQueue P w) (item : P) (itemLen : ℤ) : BlockQueue P w × Bool :=
  if q.numItems = q.len then (q, false) else (q.store item itemLen, true)

def tryPop (q : BlockQueue P w) : BlockQueue P w × Option P :=
  if q.numItems = 0 then (q, none) else (q.remove, some (q.queue q.tail).ptr)

/-- `block_queue_try_pop_timeout` once `rv` is known; `timedOut` is `rv != 0`. -/
def tryPopTimeoutBody (q : BlockQueue P w) (timedOut : Bool) : BlockQueue P w × Option P :=
  if timedOut ∨ q.popBreakFlag ∨ q.numItems = 0 then (q, none)
  else (q.remove, some (q.queue q.tail).ptr)

def tryPopTimeout (q : BlockQueue P w) : Option (BlockQueue P w × Option P) :=
  if q.numItems = 0 ∧ !q.popBreakFlag then none else some (q.tryPopTimeoutBody false)

def popBody [Inhabited P] (q : BlockQueue P w) : BlockQueue P w × P :=
  ({ q.remove with popBreakFlag := false },
    if q.popBreakFlag then default else (q.queue q.tail).ptr)

/-- `block_queue_pop` from the lock to the unlock; `none` means that it waits on
`not_empty_cond`. -/
def pop [Inhabited P] (q : BlockQueue P w) : Option (BlockQueue P w × P) :=
  if q.numItems = 0 ∧ !q.popBreakFlag then none else some q.popBody

def popWake [Inhabited P] (q : BlockQueue P w) : Option (BlockQueue P w × P) :=
  if q.popBreakFlag then some q.popBody else q.pop

/-- The new `tail` that `block_queue_pop_last` computes from `head`. -/
def lastIndex (q : BlockQueue P w) : ℕ :=
  if q.head > 0 then q.head - 1 else q.len - 1

def popLastBody [Inhabited P] (q : BlockQueue P w) : BlockQueue P w × P :=
  { q with tail := q.lastIndex }.popBody

def popLast [Inhabited P] (q : BlockQueue P w) : Option (BlockQueue P w × P) :=
  if q.numItems = 0 ∧ !q.popBreakFlag then none else some q.popLastBody

def popLastWake [Inhabited P] (q : BlockQueue P w) : Option (BlockQueue P w × P) :=
  if q.popBreakFlag then some q.popLastBody else q.popLast

def breakPop (q : BlockQueue P w) : BlockQueue P w :=
  { q with popBreakFlag := true }

def breakPush (q : BlockQueue P w) : BlockQueue P w :=
  { q with pushBreakFlag := true }

def clear (q : BlockQueue P w) : BlockQueue P w :=
  { q with
    popBreakFlag := true
    pushBreakFlag := true
    head := 0
    tail := 0
    numItems := 0
    accumulatedItemsLen := 0 }

def isEmpty (q : BlockQueue P w) : ℤ :=
  if q.head = q.tail then 1 else 0

/-- The items held: the `num_items` slots that start at `tail`. -/
def held (q : BlockQueue P w) : List (QueueItem P w) :=
  Ring.window q.queue q.len q.tail q.numItems.toNat

@[simp] theorem store_numItems (q : BlockQueue P w) (item : P) (itemLen : ℤ) :
    (q.store item itemLen).numItems = q.numItems + 1 := rfl

@[simp] theorem store_len (q : BlockQueue P w) (item : P) (itemLen : ℤ) :
    (q.store item itemLen).len = q.len := rfl

@[simp] theorem remove_numItems (q : BlockQueue P w) : q.remove.numItems = q.numItems - 1 := rfl

@[simp] theorem remove_len (q : BlockQueue P w) : q.remove.len = q.len := rfl

theorem pushWake_eq (q : BlockQueue P w) (item : P) (itemLen : ℤ) :
    q.pushWake item itemLen = q.push item itemLen := by
  cases h : q.pushBreakFlag <;> simp [pushWake, push, h]

theorem popWake_eq [Inhabited P] (q : BlockQueue P w) : q.popWake = q.pop := by
  cases h : q.popBreakFlag <;> simp [popWake, pop, h]

theorem popLastWake_eq [Inhabited P] (q : BlockQueue P w) : q.popLastWake = q.popLast := by
  cases h : q.popBreakFlag <;> simp [popLastWake, popLast, h]

end BlockQueue

end EnbL1Ppc.Core
