import EnbL1Ppc.Lib.LinkedLists
import Mathlib.Tactic

namespace EnbL1Ppc.Shm

open Lib

inductive Kind
  | free | allocated
  deriving DecidableEq

structure ListId where
  kind : Kind
  index : Fin 9
  deriving DecidableEq

/-- A pointer to a list head, to `global_list_head` or to a node from `kmalloc`. The pointer to
the `g_entry` of a node is the pointer to the node. -/
inductive Ref
  | head (l : ListId)
  | globalHead
  | cell (k : ℕ)
  deriving DecidableEq

/-- The fields of all nodes, the number of nodes that `kmalloc` has handed out, and the outcomes
of its next calls; when they are used up, it succeeds. -/
structure Heap where
  tag : Ref → Kind
  address : Ref → ℕ
  size : Ref → ℕ
  links : Links Ref
  global : Links Ref
  cells : ℕ
  supply : List Bool

def Heap.kmalloc (h : Heap) : Heap × Option Ref :=
  match h.supply with
  | false :: supply => ({ h with supply := supply }, none)
  | _ => ({ h with supply := h.supply.tail, cells := h.cells + 1 }, some (.cell h.cells))

def Heap.set (h : Heap) (r : Ref) (address size : ℕ) (tag : Kind) : Heap :=
  { h with
    address := Function.update h.address r address
    size := Function.update h.size r size
    tag := Function.update h.tag r tag }

def Heap.setSize (h : Heap) (r : Ref) (size : ℕ) : Heap :=
  { h with size := Function.update h.size r size }

def Heap.setTag (h : Heap) (r : Ref) (tag : Kind) : Heap :=
  { h with tag := Function.update h.tag r tag }

/-- `LIST_INDEX_FROM_SIZE` and `LIST_INDEX_FROM_ADDRESS`, with the last list for all that is
larger than `MAX_FREE_SIZE_LIST`. -/
def listIndex (n : ℕ) : Fin 9 :=
  if h : n > 0x8000 then 8 else ⟨n / 0x1000, by omega⟩

def getList (size : ℕ) : ListId :=
  ⟨.free, listIndex size⟩

def getAllocatedListFromAddress (address : ℕ) : ListId :=
  ⟨.allocated, listIndex address⟩

/-- The list a node belongs to: free areas are sorted by size, allocated ones by address. -/
def Heap.listOf (h : Heap) (kind : Kind) (entry : Ref) : ListId :=
  match kind with
  | .free => getList (h.size entry)
  | .allocated => getAllocatedListFromAddress (h.address entry)

/-- Where an entry is put into its list: at the tail, at the head or after the first entry. -/
def Heap.place (h : Heap) (head entry : Ref) : Option (Links Ref) := do
  let tail ← h.links.prev head
  if h.size tail ≤ h.size entry then some (h.links.splice tail entry head)
  else do
    let first ← h.links.next head
    if h.size first > h.size entry then some (h.links.splice head entry first)
    else do
      let second ← h.links.next first
      some (h.links.splice first entry second)

/-- The size of a list head is the sum of its list, in an `unsigned int`. -/
def Heap.listAdd (kind : Kind) (h : Heap) (entry : Ref) : Option Heap := do
  let head := Ref.head (h.listOf kind entry)
  let h' := h.setSize head ((h.size head + h.size entry) % 2 ^ 32)
  let links ← h'.place head entry
  some { h' with links := links }

def Heap.listRemove (kind : Kind) (h : Heap) (entry : Ref) : Option Heap := do
  let head := Ref.head (h.listOf kind entry)
  let h' := h.setSize head ((h.size head + 2 ^ 32 - h.size entry) % 2 ^ 32)
  let links ← h'.links.unlink entry
  some { h' with links := links }

def Heap.listAddAllocatedArea : Heap → Ref → Option Heap :=
  Heap.listAdd .allocated

def Heap.listRemoveAllocatedArea : Heap → Ref → Option Heap :=
  Heap.listRemove .allocated

def Heap.listAddFreeArea : Heap → Ref → Option Heap :=
  Heap.listAdd .free

def Heap.listRemoveFreeArea : Heap → Ref → Option Heap :=
  Heap.listRemove .free

def Heap.listAddGlobalBefore (h : Heap) (entry list : Ref) : Option Heap := do
  let p ← h.global.prev list
  some { h with global := h.global.splice p entry list }

def Heap.listAddGlobalAfter (h : Heap) (entry list : Ref) : Option Heap := do
  let n ← h.global.next list
  some { h with global := h.global.splice list entry n }

def Heap.listRemoveGlobal (h : Heap) (entry : Ref) : Option Heap := do
  let global ← h.global.unlink entry
  some { h with global := global }

/-- The node of the allocated area, or null if `kmalloc` fails or the area is too small. With
`SPLIT_THREASHOLD` 0, an area that is larger than needed is always split. `u` is the number of
bits of an `unsigned long`. -/
def Heap.allocateFreeArea (u : ℕ) (h : Heap) (nptr : Ref) (size : ℕ) :
    Option (Heap × Option Ref) :=
  if h.size nptr = size then do
    let h₁ ← (h.setTag nptr .allocated).listRemoveFreeArea nptr
    let h₂ ← h₁.listAddAllocatedArea nptr
    some (h₂, some nptr)
  else if size < h.size nptr then
    match h.kmalloc with
    | (h', none) => some (h', none)
    | (h', some anptr) => do
      let h₁ ← h'.listRemoveFreeArea nptr
      let h₂ := (h₁.set anptr (h.address nptr) size .allocated).set nptr
        ((h.address nptr + size) % 2 ^ u) (h.size nptr - size) .free
      let h₃ ← h₂.listAddFreeArea nptr
      let h₄ ← h₃.listAddAllocatedArea anptr
      let h₅ ← h₄.listAddGlobalBefore anptr nptr
      some (h₅, some anptr)
  else some (h, none)

def clear (x m : ℕ) : ℕ :=
  x - (x &&& m)

/-- The first address behind `addr` that is aligned, unless the sum overflows. -/
def alignUp (u addr align : ℕ) : ℕ :=
  clear ((addr + align) % 2 ^ u) (align - 1)

def Heap.sizeLeft (h : Heap) (ptr anptr : Ref) (fnptr : Option Ref) : ℕ :=
  let size := (h.size ptr + 2 ^ 32 - h.size anptr) % 2 ^ 32
  match fnptr with
  | none => size
  | some f => (size + 2 ^ 32 - h.size f) % 2 ^ 32

/-- The end of `do_align_valloc`, which cuts the nodes `anptr` and `fnptr` off the end of `ptr`. -/
def Heap.carve (h : Heap) (ptr anptr : Ref) (fnptr : Option Ref) : Option (Heap × Option Ref) := do
  let h₁ ← h.listRemoveFreeArea ptr
  let h₃ ← (h₁.setSize ptr (h₁.sizeLeft ptr anptr fnptr)).listAddFreeArea ptr
  let h₄ ← h₃.listAddAllocatedArea anptr
  let h₅ ← h₄.listAddGlobalAfter anptr ptr
  match fnptr with
  | none => some (h₅, some anptr)
  | some f => do
    let h₆ ← h₅.listAddFreeArea f
    let h₇ ← h₆.listAddGlobalAfter f anptr
    some (h₇, some anptr)

def Heap.StartsAligned (h : Heap) (ptr : Ref) (align : ℕ) : Prop :=
  h.address ptr = 0 ∨
    clear (h.address ptr) (align - 1) ≠ 0 ∧ clear (h.address ptr) (align - 1) = h.address ptr

instance (h : Heap) (ptr : Ref) (align : ℕ) : Decidable (h.StartsAligned ptr align) :=
  inferInstanceAs (Decidable (_ ∨ _))

def Heap.FitsAligned (u : ℕ) (h : Heap) (ptr : Ref) (align size : ℕ) : Prop :=
  alignUp u (h.address ptr) align < (h.address ptr + h.size ptr) % 2 ^ u ∧
    (alignUp u (h.address ptr) align + size) % 2 ^ u ≤ (h.address ptr + h.size ptr) % 2 ^ u

instance (u : ℕ) (h : Heap) (ptr : Ref) (align size : ℕ) :
    Decidable (h.FitsAligned u ptr align size) :=
  inferInstanceAs (Decidable (_ ∧ _))

def Heap.doAlignValloc (u : ℕ) (h : Heap) (ptr : Ref) (align size : ℕ) :
    Option (Heap × Option Ref) :=
  if h.size ptr < size then some (h, none)
  else if h.StartsAligned ptr align then h.allocateFreeArea u ptr (size % 2 ^ 32)
  else if h.FitsAligned u ptr align size then
    let alignAddr := alignUp u (h.address ptr) align
    let endAddr := (h.address ptr + h.size ptr) % 2 ^ u
    match h.kmalloc with
    | (h', none) => some (h', none)
    | (h', some anptr) =>
      let h₁ := h'.set anptr alignAddr (size % 2 ^ 32) .allocated
      if (alignAddr + size) % 2 ^ u = endAddr then h₁.carve ptr anptr none
      else
        match h₁.kmalloc with
        | (h₂, none) => some (h₂, none)
        | (h₂, some fnptr) =>
          (h₂.set fnptr ((alignAddr + size) % 2 ^ u)
            ((endAddr - (alignAddr + size) % 2 ^ u) % 2 ^ 32) .free).carve ptr anptr (some fnptr)
  else some (h, none)

/-- The second result says whether the previous area has taken the node in. -/
def Heap.tryMergeUpward (h : Heap) (curr : Ref) : Option (Heap × Bool) :=
  if h.global.prev curr = some .globalHead then some (h, false)
  else do
    let prev ← h.global.prev curr
    if h.tag prev = .free then do
      let h₁ ← h.listRemoveFreeArea prev
      let h₂ ← (h₁.setSize prev ((h₁.size prev + h₁.size curr) % 2 ^ 32)).listAddFreeArea prev
      some (h₂, true)
    else some (h, false)

/-- The node that is taken in is given back with `kfree`. -/
def Heap.tryMergeDownward (h : Heap) (curr : Ref) : Option Heap :=
  if h.global.next curr = some .globalHead then some h
  else do
    let next ← h.global.next curr
    if h.tag next = .free then do
      let h₁ ← (h.setSize curr ((h.size curr + h.size next) % 2 ^ 32)).listRemoveFreeArea next
      h₁.listRemoveGlobal next
    else some h

/-- The loop of `get_free_area_list` over the lists from the class of `size` on. The inner
`none` is its null. -/
def Heap.firstRoomy (h : Heap) (size : ℕ) : List (Fin 9) → Option (Option (Fin 9))
  | [] => some none
  | i :: rest =>
    if h.size (.head ⟨.free, i⟩) > size then do
      let tail ← h.links.prev (.head ⟨.free, i⟩)
      if h.size tail ≥ size then some (some i) else h.firstRoomy size rest
    else h.firstRoomy size rest

def listsFrom (i : ℕ) : List (Fin 9) :=
  (List.finRange 9).drop i

def Heap.getFreeAreaList (h : Heap) (size : ℕ) : Option (Option (Fin 9)) :=
  if size > 0x8000 then some (some 8) else h.firstRoomy size (listsFrom (size / 0x1000))

/-- The variables of a search through a list when it ends: `allocated_node`, `ptr` and `tptr`. -/
structure Found where
  heap : Heap
  node : Option Ref
  ptr : Ref
  tptr : Ref

/-- `tptr` after `ptr` has been passed over: the largest of these areas, to be sorted in again. -/
def Heap.passOver (h : Heap) (head ptr tptr : Ref) : Option Ref :=
  if tptr = head then h.links.next head
  else some (if h.size tptr < h.size ptr then ptr else tptr)

/-- The loop of `__alloc` and `__memalign` over a list. `attempt` gives `none` if the area is to
be passed over, and the allocated node, or null, if the loop ends. -/
def search (attempt : Heap → Ref → Option (Heap × Option (Option Ref))) (head : Ref) :
    ℕ → Heap → Ref → Ref → Option Found
  | 0, _, _, _ => none
  | n + 1, h, ptr, tptr => do
    let (h', r) ← attempt h ptr
    match r with
    | some node => some ⟨h', node, ptr, tptr⟩
    | none => do
      let tptr' ← h'.passOver head ptr tptr
      let next ← h'.links.next ptr
      if next = head then some ⟨h', none, next, tptr'⟩
      else search attempt head n h' next tptr'

def Heap.searchList (h : Heap) (attempt : Heap → Ref → Option (Heap × Option (Option Ref)))
    (l : ListId) : Option Found := do
  let first ← h.links.next (.head l)
  search attempt (.head l) (h.cells + 1) h first (.head l)

/-- The end of `__alloc` and `__memalign`: the heap and the returned address. -/
def Found.finish (f : Found) (head : Ref) : Option (Heap × ℕ) :=
  match f.node with
  | none => some (f.heap, 0)
  | some node =>
    if f.tptr = head then some (f.heap, f.heap.address node)
    else do
      let h₁ ← f.heap.listRemoveFreeArea f.tptr
      let h₂ ← h₁.listAddFreeArea f.tptr
      some (h₂, h₂.address node)

/-- The first area that is large enough ends the loop of `__alloc`, even if `kmalloc` fails. -/
def allocAttempt (u size : ℕ) (h : Heap) (ptr : Ref) : Option (Heap × Option (Option Ref)) :=
  if size ≤ h.size ptr then (h.allocateFreeArea u ptr (size % 2 ^ 32)).map fun r ↦ (r.1, some r.2)
  else some (h, none)

def memalignAttempt (u size align : ℕ) (h : Heap) (ptr : Ref) :
    Option (Heap × Option (Option Ref)) :=
  (h.doAlignValloc u ptr align size).map fun r ↦ (r.1, r.2.map some)

def Heap.alloc (u : ℕ) (h : Heap) (size : ℕ) : Option (Heap × ℕ) :=
  if size = 0 then some (h, 0)
  else do
    let list ← h.getFreeAreaList (size % 2 ^ 32)
    match list with
    | none => some (h, 0)
    | some i => do
      let f ← h.searchList (allocAttempt u size) ⟨.free, i⟩
      f.finish (.head ⟨.free, i⟩)

/-- The outer loop of `__memalign` from the list `i` on, with the list in which it ends. -/
def searchLists (u size align : ℕ) : List (Fin 9) → Heap → Fin 9 → Option (Found × Fin 9)
  | [], h, i => (h.searchList (memalignAttempt u size align) ⟨.free, i⟩).map fun f ↦ (f, i)
  | j :: rest, h, i => do
    let f ← h.searchList (memalignAttempt u size align) ⟨.free, i⟩
    match f.node with
    | none => searchLists u size align rest f.heap j
    | some _ => some (f, i)

def Heap.memalign (u : ℕ) (h : Heap) (size align : ℕ) : Option (Heap × ℕ) :=
  if size = 0 then some (h, 0)
  else if align = 0 then h.alloc u size
  else do
    let list ← h.getFreeAreaList (size % 2 ^ 32)
    match list with
    | none => some (h, 0)
    | some i => do
      let (f, j) ← searchLists u size align (listsFrom (i + 1)) h i
      f.finish (.head ⟨.free, j⟩)

/-- The loop of `__free`, which ends at the list head if no entry has the address. -/
def Heap.findBlock (h : Heap) (head : Ref) (address : ℕ) : ℕ → Ref → Option Ref
  | 0, _ => none
  | n + 1, anptr =>
    if anptr = head ∨ h.address anptr = address then some anptr
    else do
      let next ← h.links.next anptr
      h.findBlock head address n next

def Heap.blockAt (h : Heap) (address : ℕ) : Option Ref := do
  let head := Ref.head (getAllocatedListFromAddress address)
  let first ← h.links.next head
  h.findBlock head address (h.cells + 1) first

/-- The end of `__free`: the area is taken in by the previous one or put into its list. -/
def Heap.settle (h : Heap) (anptr : Ref) : Option Heap := do
  let (h', merged) ← h.tryMergeUpward anptr
  if merged then h'.listRemoveGlobal anptr else h'.listAddFreeArea anptr

def Heap.release (h : Heap) (anptr : Ref) : Option Heap := do
  let h₁ ← h.listRemoveAllocatedArea anptr
  let h₂ ← (h₁.setTag anptr .free).tryMergeDownward anptr
  h₂.settle anptr

def Heap.free (h : Heap) (address : ℕ) : Option Heap := do
  let anptr ← h.blockAt address
  if h.address anptr = address then h.release anptr else some h

/-- The static data: the list heads are linked to themselves, and their `g_entry` is zero. -/
def Heap.empty : Heap where
  tag _ := .free
  address _ := 0
  size _ := 0
  links :=
    ⟨fun
      | .head l => some (.head l)
      | _ => none,
    fun
      | .head l => some (.head l)
      | _ => none⟩
  global :=
    ⟨fun
      | .globalHead => some .globalHead
      | _ => none,
    fun
      | .globalHead => some .globalHead
      | _ => none⟩
  cells := 0
  supply := []

/-- `initialize`, with a `kmalloc` that succeeds: one free area, whose size is stored in an
`unsigned int`. -/
def initializeHeap (paddr size : ℕ) : Option Heap := do
  let h₁ := { Heap.empty with cells := 1 }.set (.cell 0) paddr (size % 2 ^ 32) .free
  let h₂ ← h₁.listAddFreeArea (.cell 0)
  h₂.listAddGlobalBefore (.cell 0) .globalHead

end EnbL1Ppc.Shm
