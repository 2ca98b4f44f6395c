import LittleBuddy.Lib.BlockHeap
import LittleBuddy.Lib.Runs
import Mathlib.Data.List.Perm.Basic
import Mathlib.Logic.Function.Basic
/-!
# The heap of `utils/heap`

The functions of `utils/heap/multi_heap.c`, without `MULTI_HEAP_POISONING`. Every
block has a header word, with the address of the next block and whether this one
is free; a free block also has the address of the next free one. All of them are
words of the memory that the heap manages, as the contents of the blocks are, so
that a wrong address overwrites one with another.

Addresses are those of bytes, do not wrap, and are used for words only where 4
divides them; sizes are `size_t` and do wrap. A header has 4 bytes, `heap_block_t`
has 8 and `heap_t` 32, with `first_block` behind 20 of them. The lock is held during a whole
call. A failed assertion is a `Fault`.
-/

namespace MultiHeap

/-- What a failed assertion found: a heap that is not as it should be, or (that
of `multi_heap_malloc_impl`) too few free bytes. -/
inductive Fault where
  | corrupt | shortage
  deriving DecidableEq

abbrev M := Except Fault

/-- `MULTI_HEAP_ASSERT`, `assert`. -/
def ensure (c : Prop) [Decidable c] : M Unit := if c then .ok () else .error .corrupt

/-- `HEAP_ALIGN`, for four bytes a pointer, and the `NEXT_BLOCK_MASK` of a header. -/
def align (x : Nat) : Nat := x / 4 * 4

/-- `HEAP_ALIGN_UP` of a `size_t`. -/
def alignUp (x : Nat) : Nat := align ((x + 3) % 2 ^ 32)

/-- `header | BLOCK_FREE_FLAG`. -/
def orFree (header : Nat) : Nat := if header % 2 = 1 then header else header + 1

/-- `header & ~BLOCK_FREE_FLAG`. -/
def andNotFree (header : Nat) : Nat := header / 2 * 2

/-- `heap_t`, and the memory. -/
structure Heap where
  mem : Nat → Nat
  total_bytes : Nat
  free_bytes : Nat
  minimum_free_bytes : Nat
  last_block : Nat
  /-- `&heap->first_block`. -/
  first_block : Nat

namespace Heap

def header (s : Heap) (block : Nat) : Nat := s.mem block

def nextFree (s : Heap) (block : Nat) : Nat := s.mem (block + 4)

def setHeader (s : Heap) (block v : Nat) : Heap := { s with mem := Function.update s.mem block v }

def setNextFree (s : Heap) (block v : Nat) : Heap := { s with mem := Function.update s.mem (block + 4) v }

/-- `memmove` of whole words. -/
def memmove (s : Heap) (dst src n : Nat) : Heap :=
  { s with mem := fun x => if dst ≤ x ∧ x < dst + n then s.mem (src + (x - dst)) else s.mem x }

end Heap

/-! ## Blocks -/

/-- `get_block`. -/
def getBlock (data_ptr : Nat) : Nat := data_ptr - 4

/-- `get_next_block`. Null is 0. -/
def getNextBlock (s : Heap) (block : Nat) : M Nat :=
  let next := align (s.header block)
  if next = 0 then .ok 0
  else do
    ensure (next > block)
    .ok next

/-- `is_free`. -/
def isFree (s : Heap) (block : Nat) : Bool := s.header block % 2 = 1

/-- `is_first_block`. -/
def isFirstBlock (s : Heap) (block : Nat) : Bool := block = s.first_block

/-- `is_last_block`. -/
def isLastBlock (s : Heap) (block : Nat) : Bool := align (s.header block) = 0

/-- `block_data_size`. -/
def blockDataSize (s : Heap) (block : Nat) : Nat :=
  let next := align (s.header block)
  if next = 0 then 0 else next - block - 4

/-- `assert_valid_block`. -/
def assertValidBlock (s : Heap) (block : Nat) : M Unit := do
  ensure (s.first_block ≤ block ∧ block ≤ s.last_block)
  let next ← getNextBlock s block
  ensure (s.first_block ≤ next ∧ next ≤ s.last_block)
  if isFree s block then ensure (s.first_block ≤ s.nextFree block ∧ s.nextFree block ≤ s.last_block)
  else .ok ()

/-- The loop of `get_prev_free_block` from `b` on; it aborts at the end of the list. -/
def prevFreeLoop (s : Heap) (block : Nat) : Nat → Nat → M Nat
  | 0, _ => .error .corrupt
  | fuel + 1, b =>
    if b ≠ 0 ∧ b < block then do
      ensure (isFree s b)
      if s.nextFree b = 0 ∨ s.nextFree b ≥ block then
        if isFree s block then do
          ensure (s.nextFree b = block)
          .ok b
        else .ok b
      else prevFreeLoop s block fuel (s.nextFree b)
    else .error .corrupt

/-- `get_prev_free_block`. -/
def getPrevFreeBlock (s : Heap) (block : Nat) : M Nat := do
  ensure (¬ isFirstBlock s block)
  prevFreeLoop s block s.last_block s.first_block

/-- What `merge_adjacent` does where only one of the blocks is free: it takes that one out of the free list. -/
def takeFree (s : Heap) (free_block : Nat) : M Heap := do
  let prev_free ← getPrevFreeBlock s free_block
  ensure (s.nextFree free_block > prev_free)
  .ok { s.setNextFree prev_free (s.nextFree free_block) with
    free_bytes := s.free_bytes - blockDataSize s free_block }

/-- `merge_adjacent`. -/
def mergeAdjacent (a b : Nat) (s : Heap) : M (Nat × Heap) := do
  ensure (a < b)
  if isLastBlock s b then .ok (a, s)
  else if isFirstBlock s a then .ok (b, s)
  else do
    let next ← getNextBlock s a
    ensure (next = b)
    if isFree s a ∧ isFree s b then
      let s := s.setHeader a (align (s.header b))
      ensure (s.header a ≠ 0)
      let s := s.setHeader a (orFree (s.header a))
      ensure (s.nextFree b ≠ 0 → s.nextFree b > a ∧ s.nextFree b > b)
      .ok (a, { s.setNextFree a (s.nextFree b) with free_bytes := s.free_bytes + 4 })
    else
      let s ← if isFree s a ∨ isFree s b then takeFree s (if isFree s a then a else b) else .ok s
      let s := s.setHeader a (align (s.header b))
      ensure (s.header a ≠ 0)
      .ok (a, s)

/-- The free block before `block`, unless it is known. -/
def prevFreeOr (s : Heap) (block : Nat) : Option Nat → M Nat
  | some prev_free_block => .ok prev_free_block
  | none => getPrevFreeBlock s block

/-- `split_if_necessary`. -/
def splitIfNecessary (block size : Nat) (prev_free_block : Option Nat) (s : Heap) : M Heap := do
  let block_size := blockDataSize s block
  ensure (¬ isFree s block)
  ensure (size ≤ block_size)
  let size := alignUp size
  ensure (¬ isFirstBlock s block)
  ensure (¬ isLastBlock s block)
  let new_block := block + 4 + size
  let next_block ← getNextBlock s block
  if isFree s next_block ∧ ¬ isLastBlock s next_block then
    let s := s.setHeader new_block (s.header next_block)
    let s := s.setNextFree new_block (s.nextFree next_block)
    let prev_free_block ← prevFreeOr s block prev_free_block
    ensure (s.nextFree prev_free_block = next_block)
    let s := { s with free_bytes := s.free_bytes + (block_size - size) }
    .ok ((s.setHeader block new_block).setNextFree prev_free_block new_block)
  else if block_size < size + 8 then .ok s
  else
    let prev_free_block ← prevFreeOr s block prev_free_block
    let s := s.setHeader new_block (orFree (s.header block))
    let s := s.setNextFree new_block (s.nextFree prev_free_block)
    ensure (s.nextFree prev_free_block > new_block)
    let s := { s with free_bytes := s.free_bytes + blockDataSize s new_block }
    .ok ((s.setHeader block new_block).setNextFree prev_free_block new_block)

/-! ## The API -/

/-- `multi_heap_register_impl`. -/
def multiHeapRegister (mem : Nat → Nat) (start size : Nat) : Option Heap :=
  let heap := align (start + 3)
  let stop := align (start + size)
  if stop - start < 32 + 2 * 8 then none
  else
    let last_block := stop - 8
    let first_free_block := start + 32
    let s : Heap := {
      mem
      total_bytes := align size
      free_bytes := align size - 32 - 4 - 8
      minimum_free_bytes := align size - 32 - 4 - 8
      last_block
      first_block := heap + 20 }
    let s := (s.setHeader first_free_block (orFree last_block)).setNextFree first_free_block last_block
    let s := (s.setHeader last_block (orFree 0)).setNextFree last_block 0
    some ((s.setHeader s.first_block (orFree first_free_block)).setNextFree s.first_block first_free_block)

/-- The best block so far: the block, its size and the free block before it. -/
structure Best where
  block : Nat
  size : Nat
  prev_free : Nat

/-- The loop of `multi_heap_malloc_impl` over the free blocks. -/
def searchLoop (s : Heap) (size : Nat) : Nat → Nat → Nat → Best → M Best
  | 0, _, _, _ => .error .corrupt
  | fuel + 1, prev, b, best =>
    if b = 0 then .ok best
    else do
      ensure (b > prev)
      ensure (isFree s b)
      let bs := blockDataSize s b
      if bs ≥ size ∧ bs < best.size then
        if bs = size then .ok ⟨b, bs, prev⟩ else searchLoop s size fuel b (s.nextFree b) ⟨b, bs, prev⟩
      else searchLoop s size fuel b (s.nextFree b) best

/-- What `multi_heap_malloc_impl` does to the best block: it is in use, and not on the free list. -/
def takeBlock (best_block prev_free : Nat) (s : Heap) : Heap :=
  let s := s.setNextFree prev_free (s.nextFree best_block)
  let s := s.setHeader best_block (andNotFree (s.header best_block))
  { s with free_bytes := s.free_bytes - blockDataSize s best_block }

/-- What `multi_heap_free_impl` does to a block, before the merges: it is free, and on the list. -/
def putBlock (pb prev_free : Nat) (s : Heap) : Heap :=
  let s := s.setNextFree pb (s.nextFree prev_free)
  let s := s.setNextFree prev_free pb
  let s := s.setHeader pb (orFree (s.header pb))
  { s with free_bytes := s.free_bytes + blockDataSize s pb }

/-- `minimum_free_bytes` at the end of a call. -/
def noteMinimum (s : Heap) : Heap :=
  if s.free_bytes < s.minimum_free_bytes then { s with minimum_free_bytes := s.free_bytes } else s

/-- `multi_heap_malloc_impl`. -/
def multiHeapMalloc (size : Nat) (s : Heap) : M (Nat × Heap) :=
  let size := alignUp size
  if size = 0 then .ok (0, s)
  else if s.free_bytes < size then .error .shortage
  else do
    let best ← searchLoop s size s.last_block s.first_block (s.nextFree s.first_block) ⟨0, 2 ^ 32 - 1, 0⟩
    if best.block = 0 then .ok (0, s)
    else
      let s ← splitIfNecessary best.block size (some best.prev_free) (takeBlock best.block best.prev_free s)
      .ok (best.block + 4, noteMinimum s)

/-- The first merge of `multi_heap_free_impl`. -/
def mergePrev (prev_free pb : Nat) (s : Heap) : M (Nat × Heap) := do
  let behind ← getNextBlock s prev_free
  if behind = pb then mergeAdjacent prev_free pb s else .ok (pb, s)

/-- The second one. -/
def mergeNext (pb next : Nat) (s : Heap) : M (Nat × Heap) :=
  if isFree s next then mergeAdjacent pb next s else .ok (pb, s)

/-- `multi_heap_free_impl`. -/
def multiHeapFree (p : Nat) (s : Heap) : M Heap :=
  let pb := getBlock p
  if p = 0 then .ok s
  else do
    assertValidBlock s pb
    ensure (¬ isFree s pb)
    ensure (¬ isLastBlock s pb)
    ensure (¬ isFirstBlock s pb)
    let next ← getNextBlock s pb
    let prev_free ← getPrevFreeBlock s pb
    ensure (s.nextFree prev_free = 0 ∨ s.nextFree prev_free > pb)
    let (pb, s) ← mergePrev prev_free pb (putBlock pb prev_free s)
    let (_, s) ← mergeNext pb next s
    .ok s

/-- Can grow into next block? -/
def growNext (pb next prev_grow_size size : Nat) (s : Heap) : M (Nat × Heap) :=
  if isFree s next ∧ blockDataSize s pb + blockDataSize s next + prev_grow_size ≥ size then mergeAdjacent pb next s
  else .ok (pb, s)

/-- Can grow into previous block? -/
def growPrev (prev pb prev_grow_size size : Nat) (s : Heap) : M (Nat × Heap) :=
  if prev_grow_size > 0 ∧ blockDataSize s pb + prev_grow_size ≥ size then mergeAdjacent prev pb s else .ok (pb, s)

/-- `multi_heap_realloc_impl`, where the block has to grow: into its neighbours, if that is enough. -/
def growInPlace (pb size : Nat) (s : Heap) : M (Nat × Heap) := do
  let next ← getNextBlock s pb
  let prev ← getPrevFreeBlock s pb
  let behind ← getNextBlock s prev
  let prev_grow_size := if behind = pb then blockDataSize s prev else 0
  let (pb, s) ← growNext pb next prev_grow_size size s
  growPrev prev pb prev_grow_size size s

/-- `multi_heap_realloc_impl`. -/
def multiHeapRealloc (p size : Nat) (s : Heap) : M (Nat × Heap) :=
  let pb := getBlock p
  let size := alignUp size
  if p = 0 then multiHeapMalloc size s
  else do
    assertValidBlock s pb
    ensure (¬ isFree s pb)
    if size = 0 then do
      let s ← multiHeapFree p s
      .ok (0, s)
    else if size ≤ blockDataSize s pb then do
      let s ← splitIfNecessary pb size none s
      .ok (pb + 4, noteMinimum s)
    else if s.free_bytes < size - blockDataSize s pb then .ok (0, s)
    else do
      let orig_size := blockDataSize s pb
      let orig_pb := pb
      let (pb, s) ← growInPlace pb size s
      if blockDataSize s pb ≥ size then do
        let s ← splitIfNecessary pb size none (s.memmove (pb + 4) (orig_pb + 4) orig_size)
        .ok (pb + 4, noteMinimum s)
      else do
        let (result, s) ← multiHeapMalloc size s
        if result = 0 then .ok (0, noteMinimum s)
        else do
          let s := s.memmove result (pb + 4) (blockDataSize s pb)
          let s ← multiHeapFree (pb + 4) s
          .ok (result, noteMinimum s)

/-! ## The checks -/

/-- The loop of `multi_heap_check`: what is left of it are the last block that was met,
the free bytes and whether the heap is valid, or `none` from `goto done`. -/
def checkLoop (s : Heap) : Nat → Nat → Nat → Nat → Nat → Bool → Option (Nat × Nat × Bool)
  | 0, _, _, _, _, _ => none
  | fuel + 1, b, prev, expected_free, total_free_bytes, valid =>
    if b = 0 then some (prev, total_free_bytes, valid)
    else if b = prev ∨ b < prev ∨ b > s.last_block ∨ b < s.first_block then none
    else
      let next := align (s.header b)
      if isFree s b then
        let adjacent : Bool := prev ≠ 0 ∧ isFree s prev ∧ ¬ isFirstBlock s prev ∧ ¬ isLastBlock s b
        let unexpected : Bool := expected_free ≠ 0 ∧ expected_free ≠ b
        let total_free_bytes := if isFirstBlock s b then total_free_bytes else total_free_bytes + blockDataSize s b
        checkLoop s fuel next b (s.nextFree b) total_free_bytes (valid && !adjacent && !unexpected)
      else checkLoop s fuel next b expected_free total_free_bytes valid

/-- `multi_heap_check`. -/
def multiHeapCheck (s : Heap) : Bool :=
  match checkLoop s (s.last_block + 1) s.first_block 0 0 0 true with
  | none => false
  | some (prev, total_free_bytes, valid) =>
    valid && prev = s.last_block && isFree s s.last_block && s.free_bytes = total_free_bytes

/-- `multi_heap_info_t`. -/
structure Info where
  total_free_bytes : Nat
  total_allocated_bytes : Nat
  largest_free_block : Nat
  minimum_free_bytes : Nat
  allocated_blocks : Nat
  free_blocks : Nat
  total_blocks : Nat
  total_bytes : Nat

/-- The loop of `multi_heap_get_info_impl`. -/
def infoLoop (s : Heap) : Nat → Nat → Info → M Info
  | 0, _, _ => .error .corrupt
  | fuel + 1, b, info =>
    if isLastBlock s b then .ok info
    else do
      let size := blockDataSize s b
      let info := { info with total_blocks := info.total_blocks + 1 }
      let info :=
        if isFree s b then { info with
          total_free_bytes := info.total_free_bytes + size
          largest_free_block := if size > info.largest_free_block then size else info.largest_free_block
          free_blocks := info.free_blocks + 1 }
        else { info with
          total_allocated_bytes := info.total_allocated_bytes + size
          allocated_blocks := info.allocated_blocks + 1 }
      let next ← getNextBlock s b
      infoLoop s fuel next info

/-- `multi_heap_get_info_impl`. -/
def multiHeapGetInfo (s : Heap) : M Info := do
  let first ← getNextBlock s s.first_block
  let info ← infoLoop s s.last_block first ⟨0, 0, 0, 0, 0, 0, 0, 0⟩
  ensure (info.total_free_bytes = s.free_bytes)
  .ok { info with
    minimum_free_bytes := s.minimum_free_bytes
    total_bytes := s.total_bytes }

end MultiHeap
