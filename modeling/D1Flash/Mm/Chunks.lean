import D1Flash.Mm.MmHeap
import D1Flash.Lib.Tiling
import D1Flash.Lib.Links

namespace D1Flash
open Tiling (From total from_append)
set_option autoImplicit true

/-! The chunks of a heap, and what its memory holds of them. -/

structure Chunk where
  addr : Nat
  size : Nat
  alloc : Bool
  deriving DecidableEq

namespace MmHeap

/-- The chunks with the guards around them. -/
def whole (h : MmHeap) (cs : List Chunk) : List Chunk :=
  ⟨h.mmHeapstart, sizeofMmAllocnode, true⟩ :: (cs ++ [⟨h.mmHeapend, sizeofMmAllocnode, true⟩])

/-- Where the chunks lie: one after the other between the guards, in a heap whose size a header can
hold, and with room for the links. -/
structure Shape (h : MmHeap) (cs : List Chunk) : Prop where
  tiles : From Chunk.addr Chunk.size h.mmHeapstart (h.whole cs)
  sizes : ∀ c ∈ cs, mmNodeBytes ≤ c.size ∧ c.size % 8 = 0
  heapsize : h.mmHeapstart + h.mmHeapsize.toNat = h.mmHeapend + sizeofMmAllocnode
  small : h.mmHeapsize.toNat ≤ 0x10000
  aligned : h.mmHeapstart % mmMinChunk = 0
  apart : h.nodeAt mmNnodes ≤ h.mmHeapstart ∨ h.mmHeapend + sizeofMmAllocnode ≤ h.mmNodelist
  space : h.mmHeapend < 2 ^ 64 ∧ h.nodeAt mmNnodes ≤ 2 ^ 64
  pos : 0 < h.mmNodelist ∧ 0 < h.mmHeapstart

variable {h : MmHeap} {cs : List Chunk}

theorem mem_whole : c ∈ h.whole cs ↔ c = ⟨h.mmHeapstart, sizeofMmAllocnode, true⟩ ∨ c ∈ cs ∨
    c = ⟨h.mmHeapend, sizeofMmAllocnode, true⟩ := by
  rw [whole, List.mem_cons, List.mem_append, List.mem_singleton]

theorem Shape.end_eq (hs : Shape h cs) :
    h.mmHeapend = h.mmHeapstart + sizeofMmAllocnode + total Chunk.size cs :=
  (from_append.1 hs.tiles.2).2.1

theorem Shape.bounds (hs : Shape h cs) (hc : c ∈ h.whole cs) :
    h.mmHeapstart ≤ c.addr ∧ c.addr + c.size ≤ h.mmHeapend + sizeofMmAllocnode := by
  obtain ⟨hle, hend⟩ := hs.tiles.mem hc
  refine ⟨hle, Nat.le_trans hend ?_⟩
  rw [hs.end_eq, whole, Tiling.total_cons, Tiling.total_append, Tiling.total_cons, Tiling.total_nil]
  dsimp only
  omega

theorem Shape.size_pos (hs : Shape h cs) (hc : c ∈ h.whole cs) : sizeofMmAllocnode ≤ c.size := by
  rcases mem_whole.1 hc with rfl | hc | rfl
  · exact Nat.le_refl _
  · exact Nat.le_trans (by decide) (hs.sizes c hc).1
  · exact Nat.le_refl _

theorem Shape.chunks_apart (hs : Shape h cs) (hc : c ∈ h.whole cs) (hd : d ∈ h.whole cs) :
    c = d ∨ c.addr + c.size ≤ d.addr ∨ d.addr + d.size ≤ c.addr := by
  have hp := hs.tiles.pairwise
  have hall : ∀ c ∈ h.whole cs, ∀ d ∈ h.whole cs,
      c = d ∨ c.addr + c.size ≤ d.addr ∨ d.addr + d.size ≤ c.addr :=
    fun c hc d hd => List.Pairwise.forall_of_forall_of_flip
      (R := fun c d => c = d ∨ c.addr + c.size ≤ d.addr ∨ d.addr + d.size ≤ c.addr)
      (fun _ _ => Or.inl rfl) (hp.imp fun h => .inr (.inl h)) (hp.imp fun h => .inr (.inr h)) hc hd
  exact hall c hc d hd

theorem Shape.numbers (hs : Shape h cs) :
    h.mmHeapstart + 4 ≤ h.mmHeapend ∧ h.mmHeapend + 4 ≤ h.mmHeapstart + 0x10000 ∧
      (h.mmNodelist + 456 ≤ h.mmHeapstart ∨ h.mmHeapend + 4 ≤ h.mmNodelist) := by
  refine ⟨?_, ?_, hs.apart⟩
  · rw [hs.end_eq]
    exact Nat.le_add_right _ _
  · have hsize : h.mmHeapstart + h.mmHeapsize.toNat = h.mmHeapend + 4 := hs.heapsize
    have hsmall := hs.small
    omega

theorem Shape.addr_le (hs : Shape h cs) (hc : c ∈ cs) :
    h.mmHeapstart + 4 ≤ c.addr ∧ c.addr + c.size ≤ h.mmHeapend ∧ 24 ≤ c.size := by
  have hmem : c ∈ h.whole cs := mem_whole.2 (.inr (.inl hc))
  have hsize : 24 ≤ c.size := (hs.sizes c hc).1
  have hnum := hs.numbers
  obtain ⟨hlo, hhi⟩ := hs.bounds hmem
  rcases hs.chunks_apart hmem (mem_whole.2 (.inl rfl)) with he | he | he
  · rw [he] at hsize
    exact absurd hsize (by decide : ¬ 24 ≤ sizeofMmAllocnode)
  · dsimp only at he
    omega
  · rcases hs.chunks_apart hmem (mem_whole.2 (.inr (.inr rfl))) with hf | hf | hf
    · rw [hf] at hsize
      exact absurd hsize (by decide : ¬ 24 ≤ sizeofMmAllocnode)
    · exact ⟨he, hf, hsize⟩
    · dsimp only at hf
      omega

/-- A place for members: a list node of the heap, a chunk or a guard, with the bytes it has for
them. -/
def Site (h : MmHeap) (cs : List Chunk) (a n : Nat) : Prop :=
  (∃ c ∈ cs, a = c.addr ∧ n = 24) ∨ (a = h.mmHeapstart ∨ a = h.mmHeapend) ∧ n = 4 ∨
    ∃ i < 19, a = h.mmNodelist + 24 * i ∧ n = 24

theorem Shape.sites_apart (hs : Shape h cs) (ha : h.Site cs a n) (hb : h.Site cs b k) :
    a = b ∧ n = k ∨ a + n ≤ b ∨ b + k ≤ a := by
  have hnum := hs.numbers
  rcases ha with ⟨c, hc, rfl, rfl⟩ | ⟨ha, rfl⟩ | ⟨i, hi, rfl, rfl⟩
  · have hca := hs.addr_le hc
    rcases hb with ⟨d, hd, rfl, rfl⟩ | ⟨hb, rfl⟩ | ⟨j, hj, rfl, rfl⟩
    · have hda := hs.addr_le hd
      rcases hs.chunks_apart (mem_whole.2 (.inr (.inl hc))) (mem_whole.2 (.inr (.inl hd))) with
        he | he | he
      · rw [he]
        exact .inl ⟨rfl, rfl⟩
      · omega
      · omega
    · omega
    · omega
  · rcases hb with ⟨d, hd, rfl, rfl⟩ | ⟨hb, rfl⟩ | ⟨j, hj, rfl, rfl⟩
    · have hda := hs.addr_le hd
      omega
    · omega
    · omega
  · rcases hb with ⟨d, hd, rfl, rfl⟩ | ⟨hb, rfl⟩ | ⟨j, hj, rfl, rfl⟩
    · have hda := hs.addr_le hd
      omega
    · omega
    · omega

end MmHeap

theorem MmField.apart (h : f ≠ g) :
    (f : MmField).off + f.width ≤ g.off ∨ g.off + g.width ≤ f.off := by
  cases f <;> cases g <;> first | exact absurd rfl h | decide

namespace MmHeap

variable {h : MmHeap} {cs : List Chunk}

/-- A member that has its place in the heap. -/
def Slot (h : MmHeap) (cs : List Chunk) (f : MmField) (a : Nat) : Prop :=
  ∃ n, h.Site cs a n ∧ f.off + f.width ≤ n

theorem slot_chunk (hc : c ∈ cs) (f : MmField) : h.Slot cs f c.addr :=
  ⟨24, .inl ⟨c, hc, rfl, rfl⟩, by cases f <;> decide⟩

theorem slot_list (hi : i < mmNnodes) (f : MmField) : h.Slot cs f (h.nodeAt i) :=
  ⟨24, .inr (.inr ⟨i, hi, rfl, rfl⟩), by cases f <;> decide⟩

theorem slot_head (hc : c ∈ h.whole cs) (hf : f = .size ∨ f = .preceding) : h.Slot cs f c.addr := by
  rcases mem_whole.1 hc with rfl | hc | rfl
  · refine ⟨4, .inr (.inl ⟨.inl rfl, rfl⟩), ?_⟩
    rcases hf with rfl | rfl <;> decide
  · exact slot_chunk hc f
  · refine ⟨4, .inr (.inl ⟨.inr rfl, rfl⟩), ?_⟩
    rcases hf with rfl | rfl <;> decide

theorem Shape.rd_wr (hs : Shape h cs) (ha : h.Slot cs f a) (hb : h.Slot cs g b) (v : Nat) :
    (h.wr f a v).rd g b = if g = f ∧ b = a then v % 256 ^ f.width else h.rd g b := by
  obtain ⟨n, ha, hf⟩ := ha
  obtain ⟨k, hb, hg⟩ := hb
  by_cases he : g = f ∧ b = a
  · obtain ⟨rfl, rfl⟩ := he
    rw [if_pos ⟨rfl, rfl⟩]
    exact LittleEndian.load_store _ _ _ _
  · rw [if_neg he]
    apply LittleEndian.load_store_of_apart
    rcases hs.sites_apart ha hb with ⟨hab, -⟩ | hab | hab
    · have hfg := MmField.apart fun hfg => he ⟨hfg, hab.symm⟩
      omega
    · omega
    · omega

/-- What the header of a chunk holds of the one before it and of its own use. -/
def tag (prev : Nat) (alloc : Bool) : Nat := prev ||| if alloc then mmAllocBit else 0

def Header (h : MmHeap) (prev : Nat) (c : Chunk) : Prop :=
  h.rd .size c.addr = c.size ∧ h.rd .preceding c.addr = tag prev c.alloc

/-- The headers of chunks that follow one of size `prev`. -/
def Headed (h : MmHeap) : Nat → List Chunk → Prop
  | _, [] => True
  | prev, c :: cs => h.Header prev c ∧ h.Headed c.size cs

/-- The size of the chunk before what follows the chunks. -/
def lastSize (prev : Nat) (cs : List Chunk) : Nat := (cs.getLast?.map Chunk.size).getD prev

theorem lastSize_cons (prev : Nat) (c : Chunk) (cs : List Chunk) :
    lastSize prev (c :: cs) = lastSize c.size cs := by
  rw [lastSize, lastSize, List.getLast?_cons]
  cases cs.getLast? with
  | none => rfl
  | some d => rfl

theorem headed_append : h.Headed prev (cs ++ ds) ↔
    h.Headed prev cs ∧ h.Headed (lastSize prev cs) ds := by
  induction cs generalizing prev with
  | nil => exact (and_iff_right trivial).symm
  | cons c cs ih =>
    rw [List.cons_append, Headed, Headed, ih, lastSize_cons]
    exact and_assoc.symm

theorem Headed.congr {h' : MmHeap} (hh : h.Headed prev cs)
    (he : ∀ c ∈ cs, h'.rd .size c.addr = h.rd .size c.addr ∧
      h'.rd .preceding c.addr = h.rd .preceding c.addr) : h'.Headed prev cs := by
  induction cs generalizing prev with
  | nil => trivial
  | cons c cs ih =>
    obtain ⟨hsize, hprec⟩ := he c List.mem_cons_self
    refine ⟨⟨hsize.trans hh.1.1, hprec.trans hh.1.2⟩, ih hh.2 fun d hd => ?_⟩
    exact he d (List.mem_cons_of_mem c hd)

end MmHeap
end D1Flash
