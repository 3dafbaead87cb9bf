import D1Flash.Mm.MallInfo
import D1Flash.Lib.BitField

namespace D1Flash
set_option autoImplicit true

/-! What `mm_malloc` does. -/

/-- A request that is served: from 13 bytes on the chunk has room for the links when it is freed. -/
def Request (size : UInt64) : Prop := 13 ≤ size.toNat ∧ size.toNat + 20 ≤ 2 ^ 64

instance (size : UInt64) : Decidable (Request size) := inferInstanceAs (Decidable (_ ∧ _))

/-- The bytes of the chunk for a request, with its header. -/
def chunkBytes (size : UInt64) : Nat := (size.toNat + 19) / 16 * 16

theorem mmAlignDown_toNat (a : UInt64) : (mmAlignDown a).toNat = a.toNat / 16 * 16 :=
  BitField.and_high_toNat a.toBitVec 4

theorem mmAlignUp_toNat (h : a.toNat + 15 < 2 ^ 64) :
    (mmAlignUp a).toNat = (a.toNat + 15) / 16 * 16 := by
  have hadd : (a + mmGranMask).toNat = a.toNat + 15 := by
    rw [UInt64.toNat_add]
    exact Nat.mod_eq_of_lt h
  rw [mmAlignUp, ← hadd]
  exact mmAlignDown_toNat _

theorem Request.size (hr : Request n) :
    (mmAlignUp (n + .ofNat sizeofMmAllocnode)).toNat = chunkBytes n := by
  obtain ⟨-, hhi⟩ := hr
  have hadd : (n + .ofNat sizeofMmAllocnode).toNat = n.toNat + 4 := by
    rw [UInt64.toNat_add]
    exact Nat.mod_eq_of_lt (by show n.toNat + 4 < 2 ^ 64; omega)
  rw [mmAlignUp_toNat (by omega), hadd, chunkBytes, Nat.add_assoc]

namespace MmHeap

variable {h h' : MmHeap} {cs : List Chunk} {ns : List MmNode} {out : List Nat}

/-- The record of the peak is no part of the heap. -/
theorem Core.peak (hc : h.Core cs ns out) (m : Int) :
    Core { h with gMaxUsedSize := m } cs ns out where
  shape := ⟨hc.shape.tiles, hc.shape.sizes, hc.shape.heapsize, hc.shape.small, hc.shape.aligned,
    hc.shape.apart, hc.shape.space, hc.shape.pos⟩
  headed := hc.headed.congr fun _ _ => ⟨rfl, rfl⟩
  zero := hc.zero
  linked := hc.linked
  sorted := hc.sorted
  nodup := hc.nodup
  mem := hc.mem

theorem Core.update (hc : h.Core cs ns out) (hf : 0x1000 ≤ fuel) :
    ∃ m, h.mmMaxUsedsizeUpdate fuel = some { h with gMaxUsedSize := m } ∧
      (Fits cs → m = max h.gMaxUsedSize (h.infoOf cs).uordblks) := by
  obtain ⟨info, hinfo⟩ := hc.mallinfo_some hf
  refine ⟨max h.gMaxUsedSize info.uordblks, ?_, fun hfits => ?_⟩
  · rw [mmMaxUsedsizeUpdate, hinfo, Option.map_some]
    split
    · rename_i hlt
      rw [max_eq_right (Int.le_of_lt hlt)]
    · rename_i hle
      rw [max_eq_left (Int.not_lt.1 hle)]
  · have heq := hc.mallinfo hfits hf
    rw [hinfo] at heq
    rw [Option.some.inj heq]

/-- `mm_malloc` takes the best fit, writes only what is the allocator's, and always returns. -/
theorem Core.malloc (hc : h.Core cs ns []) (hfits : Fits cs) (hn : Request n) (hf : 0x1000 ≤ fuel) :
    ∃ p h' cs' ns', h.mmMalloc fuel n = some (p, h') ∧ Takes (chunkBytes n) cs p cs' ∧
      h'.Core cs' ns' [] ∧ Steps h { h' with gMaxUsedSize := h.gMaxUsedSize } cs ∧
      (Fits cs' → h'.gMaxUsedSize = max h.gMaxUsedSize (h.infoOf cs').uordblks) := by
  have hsize := hn.size
  have hmin : 24 ≤ chunkBytes n := by
    have hlo := hn.1
    rw [chunkBytes]
    omega
  have hmod : chunkBytes n % 8 = 0 := by
    rw [chunkBytes]
    omega
  have hpos : ¬ n < 1 := by
    have hlo := hn.1
    rw [UInt64.lt_iff_toNat_lt]
    show ¬ n.toNat < 1
    omega
  have hndx : (if mmMaxChunk ≤ chunkBytes n then mmNnodes - 1 else mmSize2ndx (chunkBytes n)) =
      mmSize2ndx (chunkBytes n) := by
    split
    · rename_i hlarge
      rw [mmSize2ndx, if_pos hlarge]
    · rfl
  obtain ⟨node, hfind, hcase⟩ := hc.find (show 0 < chunkBytes n by omega) hf
  rw [mmMalloc, if_neg hpos, hsize]
  dsimp only
  rw [hndx, hfind]
  dsimp only
  rcases hcase with ⟨rfl, hnone⟩ | ⟨c, hmem, hfree, rfl, hle, hbest⟩
  · obtain ⟨m, hm, hpeak⟩ := hc.update hf
    refine ⟨0, _, cs, ns, ?_, .none hnone, hc.peak m, .refl h cs, hpeak⟩
    rw [if_pos rfl]
    dsimp only
    rw [hm]
    rfl
  · obtain ⟨l, r, rfl⟩ := List.append_of_mem hmem
    obtain ⟨h₁, ns₁, htake, hc₁, hst₁⟩ := hc.take (c := c) (l := l)
      (r := r) hfits hfree hmin hmod hle hf
    obtain ⟨m, hm, hpeak⟩ := hc₁.update hf
    have haddr := hc.addr_lt ((hc.mem _).2 (.inr ⟨c, hmem, hfree, List.not_mem_nil, rfl⟩))
    have h0 : c.addr ≠ 0 := haddr.2
    have hg : h₁.gMaxUsedSize = h.gMaxUsedSize := by rw [hst₁.config]
    have hi : h₁.infoOf = h.infoOf := by rw [hst₁.config]; rfl
    refine ⟨_, _, _, ns₁, ?_, .take hfree hle hbest, hc₁.peak m, ?_, ?_⟩
    · rw [if_neg h0, htake]
      dsimp only
      rw [hm]
      rfl
    · refine ⟨?_, hst₁.bytes⟩
      show ({ h₁ with gMaxUsedSize := h.gMaxUsedSize } : MmHeap) = { h with mem := h₁.mem }
      rw [← hst₁.config, ← hg]
    · rw [← hg, ← hi]
      exact hpeak

end MmHeap
end D1Flash
