import D1Flash.Lib.LittleEndian
import D1Flash.Lib.Loops

namespace D1Flash
open LittleEndian (load store)
open NorArray (put)
open Loops (whileLoop)
set_option autoImplicit true

/-! The allocator as `CONFIG_SMALL_MEMORY` builds it for 64-bit pointers:
`mmsize_t` is `uint16_t`. -/

abbrev mmMinShift : Nat := 4
abbrev mmMaxShift : Nat := 22
abbrev mmMinChunk : Nat := 2 ^ mmMinShift
abbrev mmMaxChunk : Nat := 2 ^ mmMaxShift
abbrev mmNnodes : Nat := mmMaxShift - mmMinShift + 1
abbrev mmGranMask : UInt64 := 15
abbrev mmAllocBit : Nat := 0x8000
abbrev sizeofMmAllocnode : Nat := 4

/-- `SIZEOF_MM_FREENODE`, which leaves out the padding of `struct mm_freenode_s`. -/
abbrev sizeofMmFreenode : Nat := sizeofMmAllocnode + 2 * 8

abbrev mmNodeBytes : Nat := 24

def mmAlignUp (a : UInt64) : UInt64 := (a + mmGranMask) &&& ~~~mmGranMask

def mmAlignDown (a : UInt64) : UInt64 := a &&& ~~~mmGranMask

/-- The members of `struct mm_freenode_s`. -/
inductive MmField
  | size
  | preceding
  | flink
  | blink
  deriving DecidableEq

namespace MmField

def off : MmField → Nat
  | size => 0
  | preceding => 2
  | flink => 8
  | blink => 16

def width : MmField → Nat
  | size | preceding => 2
  | flink | blink => 8

end MmField

/-- `struct mm_heap_s` with the memory; the list nodes of the heap are in memory, since the links
lead through them. A pointer is an address, NULL is 0. `gMaxUsedSize` is `g_max_used_size`. -/
structure MmHeap where
  mem : Nat → UInt8
  mmNodelist : Nat
  mmHeapsize : UInt64
  mmHeapstart : Nat
  mmHeapend : Nat
  gMaxUsedSize : Int

namespace MmHeap

def rd (heap : MmHeap) (f : MmField) (node : Nat) : Nat := load heap.mem (node + f.off) f.width

def wr (heap : MmHeap) (f : MmField) (node v : Nat) : MmHeap :=
  { heap with mem := store heap.mem (node + f.off) f.width v }

/-- `&heap->mm_nodelist[ndx]`. -/
def nodeAt (heap : MmHeap) (ndx : Nat) : Nat := heap.mmNodelist + mmNodeBytes * ndx

/-- The chunk has `MM_ALLOC_BIT`. -/
def isAlloc (heap : MmHeap) (node : Nat) : Bool := heap.rd .preceding node &&& mmAllocBit ≠ 0

end MmHeap

/-- `while (size > 1)` in `mm_size2ndx`. -/
def shiftNdx (ndx size : Nat) : Nat :=
  if 1 < size then shiftNdx (ndx + 1) (size >>> 1) else ndx
termination_by size
decreasing_by
  rw [Nat.shiftRight_one]
  omega

def mmSize2ndx (size : Nat) : Nat :=
  if mmMaxChunk ≤ size then mmNnodes - 1 else shiftNdx 0 (size >>> mmMinShift)

namespace MmHeap

/-- The test of the loop in `mm_addfreechunk`. -/
def placeMore (heap : MmHeap) (size next : Nat) : Bool :=
  next ≠ 0 && heap.rd .size next ≠ 0 && heap.rd .size next < size

/-- `mm_addfreechunk`; `none` is a list that does not end within `fuel` nodes. -/
def mmAddfreechunk (fuel node : Nat) (heap : MmHeap) : Option MmHeap :=
  let size := heap.rd .size node
  let ndx := mmSize2ndx size
  (whileLoop (fun p : Nat × Nat => heap.placeMore size p.2) (fun p =>
  (p.2, heap.rd .flink p.2)) fuel
    (heap.nodeAt ndx, heap.rd .flink (heap.nodeAt ndx))).map fun (prev, next) =>
      let heap := heap.wr .flink prev node
      let heap := heap.wr .blink node prev
      let heap := heap.wr .flink node next
      if next ≠ 0 then heap.wr .blink next node else heap

/-- The lines that take a node out of its list. -/
def removeNode (node : Nat) (heap : MmHeap) : MmHeap :=
  let heap := heap.wr .flink (heap.rd .blink node) (heap.rd .flink node)
  if heap.rd .flink node ≠ 0 then
    heap.wr .blink (heap.rd .flink node) (heap.rd .blink node)
  else heap

/-- The headers of a chunk that is split at `size`, and of the chunk after it. -/
def splitNode (node size : Nat) (heap : MmHeap) : MmHeap :=
  let remaining := heap.rd .size node - size
  let next := node + heap.rd .size node
  let remainder := node + size
  let heap := heap.wr .size remainder remaining
  let heap := heap.wr .preceding remainder size
  let heap := heap.wr .size node size
  heap.wr .preceding next (remaining ||| (heap.rd .preceding next &&& mmAllocBit))

/-- The test of the search in `mm_malloc`. -/
def findMore (heap : MmHeap) (size node : Nat) : Bool := node ≠ 0 && heap.rd .size node < size

/-- The search of `mm_malloc` from list `ndx` on. -/
def findNode (fuel ndx size : Nat) (heap : MmHeap) : Option Nat :=
  whileLoop (heap.findMore size) (heap.rd .flink) fuel (heap.rd .flink (heap.nodeAt ndx))

/-- The body of `if (node)` in `mm_malloc`. -/
def takeNode (fuel node size : Nat) (heap : MmHeap) : Option (Nat × MmHeap) :=
  let heap := heap.removeNode node
  let remaining := heap.rd .size node - size
  let rest := if sizeofMmFreenode ≤ remaining then
    (heap.splitNode node size).mmAddfreechunk fuel (node + size) else some heap
  rest.map fun heap =>
    (node + sizeofMmAllocnode, heap.wr .preceding node (heap.rd .preceding node ||| mmAllocBit))

end MmHeap

structure Mallinfo where
  arena : Int
  ordblks : Int
  mxordblk : Int
  uordblks : Int
  fordblks : Int
  deriving DecidableEq

def toInt32 (x : Nat) : Int := (BitVec.ofNat 32 x).toInt

structure MallinfoVars where
  node : Nat
  mxordblk : Nat
  ordblks : Nat
  uordblks : Nat
  fordblks : Nat

namespace MmHeap

def mallinfoTurn (heap : MmHeap) (v : MallinfoVars) : MallinfoVars :=
  let size := heap.rd .size v.node
  if heap.isAlloc v.node then { v with uordblks := v.uordblks + size, node := v.node + size }
  else { v with
    ordblks := v.ordblks + 1, fordblks := v.fordblks + size, mxordblk := max v.mxordblk size,
    node := v.node + size }

def mmMallinfo (fuel : Nat) (heap : MmHeap) : Option Mallinfo :=
  (whileLoop (fun v => v.node < heap.mmHeapend) heap.mallinfoTurn fuel
    ⟨heap.mmHeapstart, 0, 0, 0, 0⟩).map fun v =>
      { arena := toInt32 heap.mmHeapsize.toNat
        ordblks := toInt32 v.ordblks
        mxordblk := toInt32 v.mxordblk
        uordblks := toInt32 (v.uordblks + sizeofMmAllocnode)
        fordblks := toInt32 v.fordblks }

def mmMaxUsedsizeUpdate (fuel : Nat) (heap : MmHeap) : Option MmHeap :=
  (heap.mmMallinfo fuel).map fun info =>
    if heap.gMaxUsedSize < info.uordblks then { heap with gMaxUsedSize := info.uordblks } else heap

def mmMalloc (fuel : Nat) (size : UInt64) (heap : MmHeap) : Option (Nat × MmHeap) :=
  if size < 1 then some (0, heap)
  else
    let size := (mmAlignUp (size + .ofNat sizeofMmAllocnode)).toNat
    let ndx := if mmMaxChunk ≤ size then mmNnodes - 1 else mmSize2ndx size
    match heap.findNode fuel ndx size with
    | none => none
    | some node =>
      match if node = 0 then some (0, heap) else heap.takeNode fuel node size with
      | none => none
      | some (ret, heap) => (heap.mmMaxUsedsizeUpdate fuel).map (ret, ·)

/-- The lines that merge a chunk with the one after it, where `beyond` comes after both. -/
def mergeNode (node next beyond : Nat) (heap : MmHeap) : MmHeap :=
  let heap := heap.wr .size node (heap.rd .size node + heap.rd .size next)
  heap.wr .preceding beyond (heap.rd .size node ||| (heap.rd .preceding beyond &&& mmAllocBit))

/-- The merge of `mm_free` with the following chunk. It gives the chunk after `node`. -/
def freeNext (node : Nat) (heap : MmHeap) : Nat × MmHeap :=
  let next := node + heap.rd .size node
  if heap.isAlloc next then (next, heap)
  else
    let andbeyond := next + heap.rd .size next
    (andbeyond, (heap.removeNode next).mergeNode node next andbeyond)

/-- The merge of `mm_free` with the preceding chunk. It gives the chunk that is free now. -/
def freePrev (node next : Nat) (heap : MmHeap) : Nat × MmHeap :=
  let prev := node - heap.rd .preceding node
  if heap.isAlloc prev then (node, heap)
  else (prev, (heap.removeNode prev).mergeNode prev node next)

def mmFree (fuel mem : Nat) (heap : MmHeap) : Option MmHeap :=
  if mem = 0 then some heap
  else
    let node := mem - sizeofMmAllocnode
    let heap := heap.wr .preceding node (heap.rd .preceding node &&& (mmAllocBit - 1))
    match heap.freeNext node with
    | (next, heap) =>
      match heap.freePrev node next with
      | (node, heap) => heap.mmAddfreechunk fuel node

/-- `memset` of the list nodes and the loop that links them. -/
def linkNodes (heap : MmHeap) : MmHeap :=
  let mem := put heap.mem heap.mmNodelist (List.replicate (mmNodeBytes * mmNnodes) 0)
  (List.range' 1 (mmNnodes - 1)).foldl (fun heap i =>
    (heap.wr .flink (heap.nodeAt (i - 1)) (heap.nodeAt i)).wr .blink (heap.nodeAt i)
      (heap.nodeAt (i - 1))) { heap with mem }

def mmAddregion (fuel : Nat) (heapstart heapsize : UInt64) (heap : MmHeap) : Option MmHeap :=
  let heapbase := mmAlignUp heapstart
  let heapend := mmAlignDown (heapstart + heapsize)
  let heapsize := heapend - heapbase
  let first := heapbase.toNat
  let node := (heapbase + .ofNat sizeofMmAllocnode).toNat
  let last := (heapend - .ofNat sizeofMmAllocnode).toNat
  let heap := { heap with mmHeapsize := heap.mmHeapsize + heapsize, mmHeapstart := first }
  let heap := (heap.wr .size first sizeofMmAllocnode).wr .preceding first mmAllocBit
  let heap := heap.wr .size node (heapsize - .ofNat (2 * sizeofMmAllocnode)).toNat
  let heap := { heap.wr .preceding node sizeofMmAllocnode with mmHeapend := last }
  let heap := heap.wr .size last sizeofMmAllocnode
  let heap := heap.wr .preceding last (heap.rd .size node ||| mmAllocBit)
  heap.mmAddfreechunk fuel node

def mmInitialize (fuel : Nat) (heapstart heapsize : UInt64) (heap : MmHeap) : Option MmHeap :=
  ({ heap with mmHeapsize := 0 }.linkNodes).mmAddregion fuel heapstart heapsize

end MmHeap

end D1Flash
