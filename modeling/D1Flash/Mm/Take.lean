import D1Flash.Mm.Edits
import Mathlib.Data.List.Perm.Subperm

namespace D1Flash
open Links (linked_append walk_linked)
set_option autoImplicit true

/-! How a chunk is taken for a request. -/

/-- What becomes of a free chunk that is taken for a request of `size` bytes. -/
def Chunk.taken (c : Chunk) (size : Nat) : List Chunk :=
  if size + sizeofMmFreenode ≤ c.size then
    [⟨c.addr, size, true⟩, ⟨c.addr + size, c.size - size, false⟩]
  else [{ c with alloc := true }]

/-- A request that takes the best fit. -/
inductive Takes (size : Nat) : List Chunk → Nat → List Chunk → Prop
  | none (hnone : ∀ c ∈ cs, c.alloc = false → c.size < size) : Takes size cs 0 cs
  | take (hfree : c.alloc = false) (hsize : size ≤ c.size)
      (hbest : ∀ d ∈ l ++ ([c] ++ r), d.alloc = false → size ≤ d.size → c.size ≤ d.size) :
      Takes size (l ++ ([c] ++ r)) (c.addr + sizeofMmAllocnode) (l ++ (c.taken size ++ r))

namespace MmHeap

/-- Headers tell the use of every chunk: only the last one may be as large as `MM_ALLOC_BIT`. -/
def Fits (cs : List Chunk) : Prop := ∀ c ∈ cs.dropLast, c.size < mmAllocBit

variable {h h' : MmHeap} {cs : List Chunk} {ns : List MmNode} {out : List Nat}

theorem Steps.mono (hst : Steps h h' cs) (ho : ∀ a, h.Owned cs a → h.Owned ds a) : Steps h h' ds :=
  ⟨hst.config, fun a ha => hst.bytes a (mt (ho a) ha)⟩

/-- What the allocator has of a chunk is inside a free one that takes the chunk in. -/
theorem owns_of_free {c d : Chunk} (ho : d.Owns a) (hfree : c.alloc = false)
    (hin : c.addr ≤ d.addr ∧ d.addr + d.size ≤ c.addr + c.size ∧ 4 ≤ d.size) : c.Owns a := by
  obtain ⟨hlo, hhi⟩ := ho
  rw [Chunk.Owns, hfree, if_neg Bool.false_ne_true]
  split at hhi
  · have hhi' : a < d.addr + 4 := hhi
    omega
  · omega

theorem owned_mid (hm : ∀ d ∈ m', d.Owns a → ∃ c ∈ m, c.Owns a) (ho : h.Owned (l ++ (m' ++ r)) a) :
    h.Owned (l ++ (m ++ r)) a := by
  rcases ho with ho | ⟨d, hd, ho⟩
  · exact .inl ho
  · obtain ⟨r', hwhole, hwhole'⟩ := h.whole_after l m' r
    rw [hwhole] at hd
    rw [Owned, hwhole' m]
    refine .inr ?_
    rcases List.mem_append.1 hd with hd | hd
    · exact ⟨d, List.mem_append_left _ hd, ho⟩
    · rcases List.mem_append.1 hd with hd | hd
      · rcases List.mem_append.1 hd with hd | hd
        · obtain ⟨c, hc, ho'⟩ := hm d hd ho
          exact ⟨c, List.mem_append_right _ (List.mem_append_left _ (List.mem_append_left _ hc)),
            ho'⟩
        · exact ⟨d, List.mem_append_right _ (List.mem_append_left _ (List.mem_append_right _ hd)),
            ho⟩
      · exact ⟨d, List.mem_append_right _ (List.mem_append_right _ hd), ho⟩

/-- Behind a chunk that the bit would not fit comes the guard. -/
theorem Fits.after (hf : Fits (l ++ (m ++ [c] ++ r))) (h : MmHeap) :
    c.size < mmAllocBit ∨ (h.after r).alloc = true := by
  cases r with
  | nil => exact .inr rfl
  | cons b r =>
    refine .inl (hf c ?_)
    rw [List.dropLast_append_of_ne_nil (by simp), List.dropLast_append_of_ne_nil (by simp)]
    simp

theorem Shape.length_le (hs : h.Shape cs) : cs.length ≤ 0xaaa := by
  have hend : h.mmHeapend = h.mmHeapstart + 4 + Tiling.total Chunk.size cs := hs.end_eq
  have hnum := hs.numbers
  have htotal : 24 * cs.length ≤ Tiling.total Chunk.size cs := by
    have hmin := fun c (hc : c ∈ cs) => (hs.sizes c hc).1
    clear hend hs
    induction cs with
    | nil => exact Nat.le_refl 0
    | cons c cs ih =>
      have hc : 24 ≤ c.size := hmin c List.mem_cons_self
      have hrec := ih fun d hd => hmin d (List.mem_cons_of_mem c hd)
      rw [Tiling.total_cons, List.length_cons]
      omega
  omega

theorem Core.length_le (hc : h.Core cs ns out) : ns.length ≤ 0x1000 := by
  have hsub : ns ⊆ (List.range 19).map h.head ++ cs.map Chunk.node := by
    intro n hn
    rcases (hc.mem n).1 hn with ⟨i, hi, rfl⟩ | ⟨c, hmem, -, -, rfl⟩
    · exact List.mem_append_left _ (List.mem_map_of_mem (List.mem_range.2 hi))
    · exact List.mem_append_right _ (List.mem_map_of_mem hmem)
  have hle := (List.subperm_of_subset hc.nodup.of_map hsub).length_le
  have hcs := hc.shape.length_le
  rw [List.length_append, List.length_map, List.length_map, List.length_range] at hle
  omega

theorem Steps.of_free (hst : Steps h h' (l ++ (m ++ r))) (hfree : c.alloc = false)
    (hm : ∀ d ∈ m, c.addr ≤ d.addr ∧ d.addr + d.size ≤ c.addr + c.size ∧ 4 ≤ d.size) :
    Steps h h' (l ++ ([c] ++ r)) := by
  refine hst.mono fun a ho => owned_mid (fun d hd ho => ?_) ho
  exact ⟨c, List.mem_singleton.2 rfl, owns_of_free ho hfree (hm d hd)⟩

/-- A free chunk is taken, and what it has over goes back to the lists. -/
theorem Core.take (hc : h.Core (l ++ ([c] ++ r)) ns []) (hfits : Fits (l ++ ([c] ++ r)))
    (hfree : c.alloc = false) (hmin : mmNodeBytes ≤ size) (hmod : size % 8 = 0)
    (hsize : size ≤ c.size)
    (hf : 0x1000 ≤ fuel) :
    ∃ h' ns', h.takeNode fuel c.addr size = some (c.addr + sizeofMmAllocnode, h') ∧
      h'.Core (l ++ (c.taken size ++ r)) ns' [] ∧ Steps h h' (l ++ ([c] ++ r)) := by
  have hcm : c ∈ l ++ ([c] ++ r) := by simp
  have hout : ∀ a, a ∈ [c.addr] ↔ a = c.addr ∧ false = false := fun a =>
    List.mem_singleton.trans (and_iff_left rfl).symm
  obtain ⟨ns₁, hc₁, hst₁⟩ := hc.unlink hcm hfree (List.not_mem_nil)
  rw [takeNode, hc₁.rd_chunk hcm, Chunk.taken]
  obtain ⟨hcmin, hmod'⟩ := hc.shape.sizes c hcm
  have hcmin' : 24 ≤ c.size := hcmin
  have hmin' : 24 ≤ size := hmin
  by_cases hcut : size + sizeofMmFreenode ≤ c.size
  · have hcut' : sizeofMmFreenode ≤ c.size - size := by omega
    have hrest : size + 24 ≤ c.size := by
      have hcut'' : size + 20 ≤ c.size := hcut
      omega
    rw [if_pos hcut, if_pos hcut']
    obtain ⟨hc₂, hst₂⟩ := hc₁.split hfree hmin hmod hrest (hfits.after (m := []) _)
    have hin : ∀ d ∈ cut c size, c.addr ≤ d.addr ∧ d.addr + d.size ≤ c.addr + c.size ∧
        4 ≤ d.size := by
      intro d hd
      rcases List.mem_cons.1 hd with rfl | hd
      · dsimp only
        omega
      · cases List.mem_singleton.1 hd
        dsimp only
        omega
    obtain ⟨h₃, ns₃, hadd, hc₃, hst₃⟩ := hc₂.insert
      (List.mem_append_right l (List.mem_append_left r (List.mem_cons_of_mem _ List.mem_cons_self)))
      rfl (by simp; omega) (Nat.le_trans hc₂.length_le hf)
    have hc₃' : h₃.Core (l ++ ⟨c.addr, size, false⟩ ::
      ⟨c.addr + size, c.size - size, false⟩ :: r) ns₃
      [c.addr] := hc₃
    obtain ⟨hc₄, hst₄⟩ := hc₃'.retag hout true
    have htag : h₃.rd .preceding c.addr ||| mmAllocBit =
      tag (lastSize sizeofMmAllocnode l) true := by
      obtain ⟨⟨-, hprec⟩, -⟩ := hc₃.headed_mid
      rw [hprec, tag_set]
    refine ⟨_, ns₃, ?_, hc₄, hst₁.trans ((hst₂.of_free hfree hin).trans
      ((hst₃.of_free hfree hin).trans (hst₄.of_free (m := [_, _]) hfree fun d hd => ?_)))⟩
    · rw [hadd, ← htag]
      rfl
    · rcases List.mem_cons.1 hd with rfl | hd
      · dsimp only
        omega
      · exact hin d (List.mem_cons_of_mem _ hd)
  · have hcut' : ¬ sizeofMmFreenode ≤ c.size - size := by omega
    rw [if_neg hcut, if_neg hcut']
    have hc₁' : (h.removeNode c.addr).Core (l ++ c :: r) ns₁ [c.addr] := hc₁
    obtain ⟨hc₂, hst₂⟩ := hc₁'.retag (hfree ▸ hout) true
    have htag : (h.removeNode c.addr).rd .preceding c.addr ||| mmAllocBit =
        tag (lastSize sizeofMmAllocnode l) true := by
      obtain ⟨⟨-, hprec⟩, -⟩ := hc₁.headed_mid
      rw [hprec, tag_set]
    refine ⟨_, ns₁, ?_, hc₂, hst₁.trans (hst₂.of_free (m := [_]) hfree fun d hd => ?_)⟩
    · rw [← htag]
      rfl
    · cases List.mem_singleton.1 hd
      exact ⟨Nat.le_refl _, Nat.le_refl _, by dsimp only; omega⟩

theorem size_le_of_le {c d : Chunk} (hle : c.node.Le d.node) : c.size ≤ d.size := by
  rcases hle with hlt | ⟨-, hle⟩
  · refine Nat.le_of_lt (Nat.lt_of_not_le fun hdc => ?_)
    exact Nat.lt_irrefl _ (Nat.lt_of_lt_of_le hlt (mmSize2ndx_mono hdc))
  · exact hle

/-- The search of `mm_malloc` finds the free chunk that fits best, if there is one. -/
theorem Core.find (hc : h.Core cs ns []) (hpos : 0 < size) (hf : 0x1000 ≤ fuel) :
    ∃ node, h.findNode fuel (mmSize2ndx size) size = some node ∧
      (node = 0 ∧ (∀ c ∈ cs, c.alloc = false → c.size < size) ∨
        ∃ c ∈ cs, c.alloc = false ∧ node = c.addr ∧ size ≤ c.size ∧
          ∀ d ∈ cs, d.alloc = false → size ≤ d.size → c.size ≤ d.size) := by
  obtain ⟨l, r, rfl, -⟩ := hc.split_head (mmSize2ndx_lt size)
  have hl := hc.linked
  have hlen := hc.length_le
  have hin : ∀ n ∈ r, n ∈ l ++ h.head (mmSize2ndx size) :: r := fun n hn =>
    List.mem_append_right l (List.mem_cons_of_mem _ hn)
  obtain ⟨-, hlr, hhl⟩ := List.pairwise_append.1 hc.sorted
  -- the chunks that are large enough come after the head
  have hlarge : ∀ c ∈ cs, c.alloc = false → size ≤ c.size → c.node ∈ r := by
    intro c hmem hfree hle
    have hndx := mmSize2ndx_mono hle
    have hsize := (hc.shape.addr_le hmem).2.2
    rcases List.mem_append.1 ((hc.mem _).2 (.inr ⟨c, hmem, hfree, List.not_mem_nil, rfl⟩)) with
      hn | hn
    · rcases hhl c.node hn _ List.mem_cons_self with hlt | ⟨-, hzero⟩
      · exact absurd hndx (Nat.not_le.2 hlt)
      · have hzero' : c.size ≤ 0 := hzero
        omega
    · rcases List.mem_cons.1 hn with he | hn
      · have haddr := congrArg MmNode.addr he
        exact (hc.shape.addr_ne_head hmem (mmSize2ndx_lt size) haddr).elim
      · exact hn
  rw [List.map_append, List.map_cons] at hl
  obtain ⟨-, -, hnext, -, hl⟩ := linked_append.1 hl
  change h.rd .flink (h.nodeAt _) = _ at hnext
  have hlenr : (r.map MmNode.addr).length ≤ fuel := by
    rw [List.length_append, List.length_cons] at hlen
    rw [List.length_map]
    omega
  have hwalk := walk_linked hl (rfl : h.findMore size 0 = false) hlenr
  rw [findNode, hnext]
  refine ⟨_, hwalk, ?_⟩
  rw [List.dropWhile_map]
  generalize hp : h.findMore size ∘ MmNode.addr = p
  have hpn : ∀ n ∈ r, p n = true ↔ n.size < size := by
    intro n hn
    rw [← hp, Function.comp_apply, findMore, hc.rd_size (hin n hn), Bool.and_eq_true,
      decide_eq_true_iff, decide_eq_true_iff]
    exact and_iff_right (hc.addr_lt (hin n hn)).2
  have hcut : r.takeWhile p ++ r.dropWhile p = r := List.takeWhile_append_dropWhile
  have hsmall : ∀ n ∈ r.takeWhile p, n.size < size := fun n hn =>
    (hpn n ((List.takeWhile_sublist p).subset hn)).1 (List.mem_takeWhile_imp hn)
  have hfirst : ∀ n ∈ (r.dropWhile p).head?, size ≤ n.size := by
    intro n hn
    have hhead := List.head?_dropWhile_not p r
    rw [hn] at hhead
    have hnr := (List.dropWhile_sublist p).subset (List.mem_of_mem_head? hn)
    exact Nat.not_lt.1 fun hlt => by
      have htrue := (hpn n hnr).2 hlt
      simp [htrue] at hhead
  cases hd : r.dropWhile p with
  | nil =>
    rw [hd, List.append_nil] at hcut
    refine .inl ⟨rfl, fun c hmem hfree => Nat.lt_of_not_le fun hle => ?_⟩
    have hsz := hsmall c.node (hcut.symm ▸ hlarge c hmem hfree hle)
    exact Nat.lt_irrefl _ (Nat.lt_of_lt_of_le hsz hle)
  | cons m d =>
    rw [hd] at hcut hfirst
    have hmr : m ∈ r := hcut ▸ List.mem_append_right _ List.mem_cons_self
    have hm : size ≤ m.size := hfirst m rfl
    obtain ⟨c, hmem, hfree, -, rfl⟩ := hc.chunk_of_pos (hin m hmr)
      (Nat.ne_of_gt (Nat.lt_of_lt_of_le hpos hm))
    refine .inr ⟨c, hmem, hfree, rfl, hm, fun e he hef hle => ?_⟩
    have her := hlarge e he hef hle
    rw [← hcut] at her
    rcases List.mem_append.1 her with her | her
    · have hlt : e.size < size := hsmall e.node her
      exact absurd hle (Nat.not_le.2 hlt)
    · have hsort := (List.pairwise_cons.1 hlr).2
      rw [← hcut] at hsort
      rcases List.mem_cons.1 her with heq | her
      · exact Nat.le_of_eq (congrArg MmNode.size heq).symm
      · exact size_le_of_le ((List.pairwise_cons.1 (List.pairwise_append.1 hsort).2.1).1 e.node her)

end MmHeap
end D1Flash
