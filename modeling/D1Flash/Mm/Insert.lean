import D1Flash.Mm.Relink
import Mathlib.Data.List.TakeWhile

namespace D1Flash
open Links (Linked linked_append walk_pairs)
open Loops (whileLoop)
set_option autoImplicit true

theorem MmNode.Le.trans (hxy : MmNode.Le x y) (hyz : MmNode.Le y z) : MmNode.Le x z := by
  rw [MmNode.Le] at hxy hyz ⊢
  omega

theorem sorted_insert (hs : (l ++ r).Pairwise MmNode.Le) (hl : ∀ n ∈ l, MmNode.Le n y)
    (hr : ∀ n ∈ r.head?, MmNode.Le y n) : (l ++ y :: r).Pairwise MmNode.Le := by
  obtain ⟨hpl, hpr, hlr⟩ := List.pairwise_append.1 hs
  have hyr : ∀ n ∈ r, MmNode.Le y n := by
    cases r with
    | nil => exact fun n hn => (List.not_mem_nil hn).elim
    | cons m r =>
      intro n hn
      have hm := hr m rfl
      rcases List.mem_cons.1 hn with rfl | hn
      · exact hm
      · exact hm.trans ((List.pairwise_cons.1 hpr).1 n hn)
  refine List.pairwise_append.2 ⟨hpl, List.pairwise_cons.2 ⟨hyr, hpr⟩, fun n hn m hm => ?_⟩
  rcases List.mem_cons.1 hm with rfl | hm
  · exact hl n hn
  · exact hlr n hn m hm

namespace MmHeap

variable {h h' : MmHeap} {cs : List Chunk} {ns : List MmNode} {out : List Nat}

theorem Headed.mem (hh : h.Headed prev cs) (hc : c ∈ cs) : h.rd .size c.addr = c.size := by
  induction cs generalizing prev with
  | nil => cases hc
  | cons d cs ih =>
    rcases List.mem_cons.1 hc with rfl | hc
    · exact hh.1.1
    · exact ih hh.2 hc

theorem Core.rd_chunk (hc : h.Core cs ns out) (hmem : c ∈ cs) : h.rd .size c.addr = c.size :=
  hc.headed.mem (mem_whole.2 (.inr (.inl hmem)))

theorem Core.rd_size (hc : h.Core cs ns out) (hn : n ∈ ns) : h.rd .size n.addr = n.size := by
  rcases (hc.mem n).1 hn with ⟨i, hi, rfl⟩ | ⟨c, hmem, -, -, rfl⟩
  · exact hc.zero i hi
  · exact hc.rd_chunk hmem

theorem Core.chunk_of_pos (hc : h.Core cs ns out) (hn : n ∈ ns) (hpos : n.size ≠ 0) :
    ∃ c ∈ cs, c.alloc = false ∧ c.addr ∉ out ∧ n = c.node := by
  rcases (hc.mem n).1 hn with ⟨i, -, rfl⟩ | hex
  · exact (hpos rfl).elim
  · exact hex

theorem Core.head_of_zero (hc : h.Core cs ns out) (hn : n ∈ ns) (hzero : n.size = 0) :
    n = h.head n.ndx := by
  rcases (hc.mem n).1 hn with ⟨i, -, rfl⟩ | ⟨c, hmem, -, -, rfl⟩
  · rfl
  · have hsize := (hc.shape.addr_le hmem).2.2
    have hzero' : c.size = 0 := hzero
    omega

theorem Core.split_head (hc : h.Core cs ns out) (hi : i < mmNnodes) :
    ∃ l r, ns = l ++ h.head i :: r ∧ ∀ n ∈ r, i ≤ n.ndx ∧ (n.size = 0 → i < n.ndx) := by
  obtain ⟨l, r, rfl⟩ := List.append_of_mem (hc.head_mem hi)
  refine ⟨l, r, rfl, fun n hn => ?_⟩
  have hnm : n ∈ l ++ h.head i :: r := List.mem_append_right _ (List.mem_cons_of_mem _ hn)
  have hle := (List.pairwise_cons.1 (List.pairwise_append.1 hc.sorted).2.1).1 n hn
  have hndx : i ≤ n.ndx := by
    rcases hle with hlt | ⟨heq, -⟩
    · exact Nat.le_of_lt hlt
    · exact Nat.le_of_eq heq
  refine ⟨hndx, fun hzero => Nat.lt_of_le_of_ne hndx ?_⟩
  rintro rfl
  have hnd := hc.nodup.of_map
  rw [hc.head_of_zero hnm hzero] at hn
  exact (List.nodup_cons.1 (List.nodup_append.1 hnd).2.1).1 hn

theorem Core.placeMore_node (hc : h.Core cs ns out) (hn : n ∈ ns) (size : Nat) :
    h.placeMore size n.addr = true ↔ n.size ≠ 0 ∧ n.size < size := by
  rw [placeMore, hc.rd_size hn, Bool.and_eq_true, Bool.and_eq_true, decide_eq_true_iff,
    decide_eq_true_iff, decide_eq_true_iff, and_assoc]
  exact and_iff_right (hc.addr_lt hn).2

/-- Where `mm_addfreechunk` puts a free chunk, and how its loop finds the place. -/
theorem Core.place (hc : h.Core cs ns out) (c : Chunk) (hf : ns.length ≤ fuel) :
    ∃ l x r, ns = l ++ x :: r ∧ (l ++ x :: c.node :: r).Pairwise MmNode.Le ∧
      whileLoop (fun p : Nat × Nat => h.placeMore c.size p.2) (fun p => (p.2, h.rd .flink p.2)) fuel
        (h.nodeAt (mmSize2ndx c.size), h.rd .flink (h.nodeAt (mmSize2ndx c.size))) =
          some (x.addr, (r.map MmNode.addr).headD 0) := by
  obtain ⟨l, r, hns, hr⟩ := hc.split_head (mmSize2ndx_lt c.size)
  have hmore := fun n (hn : n ∈ ns) => hc.placeMore_node hn c.size
  have hl := hc.linked
  have hsort := hc.sorted
  have hin : ∀ n ∈ r, n ∈ ns := fun n hn =>
    hns ▸ List.mem_append_right _ (List.mem_cons_of_mem _ hn)
  have hlen : (r.map MmNode.addr).length ≤ fuel := by
    rw [hns, List.length_append, List.length_cons] at hf
    rw [List.length_map]
    omega
  rw [hns, List.map_append, List.map_cons] at hl
  obtain ⟨-, -, hnext, -, hl⟩ := linked_append.1 hl
  have hwalk := walk_pairs hl (rfl : h.placeMore c.size 0 = false) hlen
    (h.nodeAt (mmSize2ndx c.size))
  change h.rd .flink (h.nodeAt _) = _ at hnext
  rw [hnext, hwalk, List.takeWhile_map, List.dropWhile_map]
  generalize hp : h.placeMore c.size ∘ MmNode.addr = p
  have hpm : ∀ n ∈ ns, p n = true ↔ n.size ≠ 0 ∧ n.size < c.size := hp ▸ hmore
  -- the nodes that are passed are chunks of the same list
  have ht : ∀ n ∈ r.takeWhile p, n.Le c.node := by
    intro n hn
    have hnr := (List.takeWhile_sublist p).subset hn
    obtain ⟨hpos, hlt⟩ := (hpm n (hin n hnr)).1 (List.mem_takeWhile_imp hn)
    obtain ⟨d, -, -, -, rfl⟩ := hc.chunk_of_pos (hin n hnr) hpos
    have hndx := mmSize2ndx_mono (Nat.le_of_lt hlt)
    exact .inr ⟨Nat.le_antisymm hndx (hr _ hnr).1, Nat.le_of_lt hlt⟩
  have hd : ∀ n ∈ (r.dropWhile p).head?, MmNode.Le c.node n := by
    intro n hn
    have hnr := (List.dropWhile_sublist p).subset (List.mem_of_mem_head? hn)
    have hnot : ¬ p n = true := by
      have hhead := List.head?_dropWhile_not p r
      rw [hn] at hhead
      simpa using hhead
    rw [hpm n (hin n hnr)] at hnot
    by_cases hzero : n.size = 0
    · exact .inl ((hr n hnr).2 hzero)
    · obtain ⟨d, -, -, -, rfl⟩ := hc.chunk_of_pos (hin n hnr) hzero
      have hle : c.size ≤ d.size := Nat.not_lt.1 fun hlt => hnot ⟨hzero, hlt⟩
      rcases Nat.lt_or_eq_of_le (mmSize2ndx_mono hle) with hlt | heq
      · exact .inl hlt
      · exact .inr ⟨heq, hle⟩
  have hall : ((l ++ h.head (mmSize2ndx c.size) :: r.takeWhile p) ++
      c.node :: r.dropWhile p).Pairwise MmNode.Le := by
    refine sorted_insert ?_ ?_ hd
    · rw [List.append_assoc, List.cons_append, List.takeWhile_append_dropWhile, ← hns]
      exact hsort
    · intro n hn
      have hhead : MmNode.Le (h.head (mmSize2ndx c.size)) c.node := .inr ⟨rfl, Nat.zero_le _⟩
      rcases List.mem_append.1 hn with hn | hn
      · rw [hns] at hsort
        exact ((List.pairwise_append.1 hsort).2.2 n hn _ List.mem_cons_self).trans hhead
      · rcases List.mem_cons.1 hn with rfl | hn
        · exact hhead
        · exact ht n hn
  have hcut : r = r.takeWhile p ++ r.dropWhile p := List.takeWhile_append_dropWhile.symm
  generalize r.takeWhile p = t at hall hcut
  generalize r.dropWhile p = d at hall hcut
  rcases List.eq_nil_or_concat t with rfl | ⟨t, x, rfl⟩
  · refine ⟨l, h.head (mmSize2ndx c.size), d, ?_, ?_, rfl⟩
    · rw [hns, hcut]
      rfl
    · rw [List.append_assoc] at hall
      exact hall
  · refine ⟨l ++ h.head (mmSize2ndx c.size) :: t, x, d, ?_, ?_, ?_⟩
    · rw [hns, hcut]
      simp
    · simpa using hall
    · simp

theorem mem_of_seam {l r : List Nat} (ha : a ∈ (l ++ [x]) ++ r.tail) : a ∈ l ++ x :: r := by
  rw [List.append_assoc] at ha
  rcases List.mem_append.1 ha with ha | ha
  · exact List.mem_append_left _ ha
  · refine List.mem_append_right _ ?_
    rcases List.mem_cons.1 ha with rfl | ha
    · exact List.mem_cons_self
    · exact List.mem_cons_of_mem _ (List.mem_of_mem_tail ha)

/-- The links after `y` is put between `x` and `z`. -/
def linkRd (h : MmHeap) (x y z : Nat) (g : MmField) (b : Nat) : Nat :=
  if z ≠ 0 ∧ g = .blink ∧ b = z then y
  else if g = .flink ∧ b = y then z
  else if g = .blink ∧ b = y then x
  else if g = .flink ∧ b = x then y
  else h.rd g b

theorem linkRd_header (x y z b : Nat) (hg : g = .size ∨ g = .preceding) :
    h.linkRd x y z g b = h.rd g b := by
  rcases hg with rfl | rfl
  · simp [linkRd]
  · simp [linkRd]

theorem linkRd_flink (hby : b ≠ y) (hbx : b ≠ x) : h.linkRd x y z .flink b = h.rd .flink b := by
  simp [linkRd, hby, hbx]

theorem linkRd_blink (hby : b ≠ y) (hbz : ¬ (z ≠ 0 ∧ b = z)) :
    h.linkRd x y z .blink b = h.rd .blink b := by
  rw [linkRd, if_neg fun hc => hbz ⟨hc.1, hc.2.2⟩, if_neg fun hc => (nomatch hc.1),
    if_neg fun hc => hby hc.2, if_neg fun hc => (nomatch hc.1)]

theorem link_spec (hs : h.Shape cs) (hx : h.Own cs .flink x) (hy : ∀ f, h.Own cs f y)
    (hz : z ≠ 0 → h.Own cs .blink z) (hxv : x < 256 ^ 8) (hyv : y < 256 ^ 8) (hzv : z < 256 ^ 8) :
    let h₁ := (h.wr .flink x y).wr .blink y x
    let h₂ := if z ≠ 0 then (h₁.wr .flink y z).wr .blink z y else h₁.wr .flink y z
    Steps h h₂ cs ∧ ∀ g b, h.Slot cs g b → h₂.rd g b = h.linkRd x y z g b := by
  intro h₁ h₂
  have hone := hx.steps hs y
  have hst₁ : Steps h h₁ cs := hone.trans ((hone.own (hy .blink)).steps (hone.shape hs) x)
  have hs₁ := hst₁.shape hs
  refine ⟨hst₁.trans (links_steps hs₁ (hst₁.own (hy .flink)) fun h0 => hst₁.own (hz h0)),
    fun g b hg => ?_⟩
  have hrd₂ : h₂.rd g b = _ := links_rd hs₁ (hst₁.slot (hy .flink).slot)
    (fun h0 => hst₁.slot (hz h0).slot) hyv hzv (hst₁.slot hg)
  have hrd₁ : h₁.rd g b = _ := hs.rd_wr₂ hx.slot (hy .blink).slot hg y x
  rw [hrd₂, hrd₁, linkRd]
  exact if_congr Iff.rfl rfl (if_congr Iff.rfl rfl (if_congr Iff.rfl (Nat.mod_eq_of_lt hxv)
    (if_congr Iff.rfl (Nat.mod_eq_of_lt hyv) rfl)))

theorem linked_link {l r : List Nat} (hl : Linked (h.rd .flink) (h.rd .blink) 0 (l ++ x :: r))
    (hnd : (l ++ x :: r).Nodup) (hy : y ∉ l ++ x :: r) (hyz : y ≠ z) (hz : z = r.headD 0)
    (hzh : ∀ a, a ∈ r.head? ↔ z ≠ 0 ∧ a = z)
    (hrd : ∀ a ∈ l ++ x :: y :: r, ∀ f, h'.rd f a = h.linkRd x y z f a) :
    Linked (h'.rd .flink) (h'.rd .blink) 0 (l ++ x :: y :: r) := by
  have hin : ∀ a ∈ l ++ x :: r, a ∈ l ++ x :: y :: r := by
    intro a ha
    simp only [List.mem_append, List.mem_cons] at ha ⊢
    exact ha.imp_right fun h => h.imp_right .inr
  have hne : ∀ a ∈ l ++ x :: r, a ≠ y := fun a ha he => hy (he ▸ ha)
  have hxm : x ∈ l ++ x :: r := List.mem_append_right _ List.mem_cons_self
  have hym : y ∈ l ++ x :: y :: r :=
    List.mem_append_right _ (List.mem_cons_of_mem _ List.mem_cons_self)
  refine hl.link hnd ?_ ?_ ?_ ?_ ?_ ?_
  · rw [hrd x (hin x hxm)]
    simp [linkRd, hne x hxm]
  · rw [hrd y hym]
    simp [linkRd, hyz]
  · rw [hrd y hym, ← hz]
    simp [linkRd]
  · intro a ha
    obtain ⟨h0, rfl⟩ := (hzh a).1 ha
    have hmem := List.mem_append_right l (List.mem_cons_of_mem x (List.mem_of_mem_head? ha))
    rw [hrd a (hin a hmem)]
    simp [linkRd, h0]
  · intro a ha hax
    have hmem : a ∈ l ++ x :: r := by
      rcases List.mem_append.1 ha with ha | ha
      · exact List.mem_append_left _ ha
      · exact List.mem_append_right _ (List.mem_cons_of_mem _ ha)
    rw [hrd a (hin a hmem)]
    exact linkRd_flink (hne a hmem) hax
  · intro a ha har
    have hmem := mem_of_seam ha
    rw [hrd a (hin a hmem)]
    exact linkRd_blink (hne a hmem) fun hc => har ((hzh a).2 hc)

theorem Core.unlisted (hc : h.Core cs ns (c.addr :: out)) (hmem : c ∈ cs) :
    c.addr ∉ ns.map MmNode.addr := by
  intro ha
  obtain ⟨n, hn, he⟩ := List.mem_map.1 ha
  rcases (hc.mem n).1 hn with ⟨i, hi, rfl⟩ | ⟨d, hd, -, hdo, rfl⟩
  · exact hc.shape.addr_ne_head hmem hi he.symm
  · exact hdo (List.mem_cons.2 (.inl he))

theorem Core.listed_insert (hc : h.Core cs (l ++ x :: r) (c.addr :: out)) (hmem : c ∈ cs)
    (hfree : c.alloc = false) (hout : c.addr ∉ out) (n : MmNode) :
    n ∈ l ++ x :: c.node :: r ↔ h.Listed cs out n := by
  have hiff : h.Listed cs (c.addr :: out) n ↔ _ := listed_cons hc.shape hmem
  rw [← hc.mem] at hiff
  have hc' : h.Listed cs out c.node := .inr ⟨c, hmem, hfree, hout, rfl⟩
  rw [List.append_cons, List.mem_append, List.mem_cons, or_left_comm, ← List.mem_append,
    List.append_assoc, List.singleton_append, hiff]
  constructor
  · rintro (rfl | ⟨hn, -⟩)
    · exact hc'
    · exact hn
  · intro hn
    by_cases he : n = c.node
    · exact .inl he
    · exact .inr ⟨hn, he⟩

/-- A free chunk that is on no list is put in one. -/
theorem Core.insert (hc : h.Core cs ns (c.addr :: out)) (hmem : c ∈ cs) (hfree : c.alloc = false)
    (hout : c.addr ∉ out) (hf : ns.length ≤ fuel) :
    ∃ h' ns', h.mmAddfreechunk fuel c.addr = some h' ∧ h'.Core cs ns' out ∧ Steps h h' cs := by
  obtain ⟨l, x, r, rfl, hsort, hwalk⟩ := hc.place c hf
  have hca := hc.unlisted hmem
  have hxn : x ∈ l ++ x :: r := List.mem_append_right _ List.mem_cons_self
  have hys := fun f => Own.chunk (h := h) hmem hfree f
  obtain ⟨z, hzr, hz, hzo, hzh⟩ := hc.link (r := r) fun n hn =>
    List.mem_append_right l (List.mem_cons_of_mem x hn)
  have hcl := hc.shape.addr_le hmem
  have hlt : c.addr < 256 ^ 8 := by
    have hspace := hc.shape.space.1
    have h256 : (256 : Nat) ^ 8 = 2 ^ 64 := by decide
    omega
  have hyz : c.addr ≠ z := by
    rintro rfl
    have hhead := List.mem_of_mem_head? ((hzh c.addr).2 ⟨by omega, rfl⟩)
    rw [List.map_append, List.map_cons] at hca
    exact hca (List.mem_append_right _ (List.mem_cons_of_mem _ hhead))
  rw [mmAddfreechunk, hc.rd_chunk hmem, hwalk, ← hzr]
  obtain ⟨hst, hrd⟩ := link_spec hc.shape (hc.own hxn .flink) hys hzo (hc.addr_lt hxn).1 hlt hz
  have hslot : ∀ a ∈ (l ++ x :: c.node :: r).map MmNode.addr, ∀ f, h.Slot cs f a := by
    intro a ha f
    obtain ⟨n, hn, rfl⟩ := List.mem_map.1 ha
    rcases (hc.listed_insert hmem hfree hout n).1 hn with ⟨i, hi, rfl⟩ | ⟨d, hd, hdf, -, rfl⟩
    · exact (Own.list hi f).slot
    · exact (Own.chunk (h := h) hd hdf f).slot
  refine ⟨_, l ++ x :: c.node :: r, rfl, hc.relink hst ?_ ?_ hsort ?_ ?_, hst⟩
  · exact fun g b hg hhead => (hrd g b hg).trans (linkRd_header _ _ _ b hhead)
  · have hl := hc.linked
    have hnd := hc.nodup
    rw [List.map_append, List.map_cons] at hl hnd hca hslot ⊢
    exact linked_link hl hnd hca hyz hzr hzh fun a ha f => hrd f a (hslot a ha f)
  · have hnd := hc.nodup
    rw [List.append_cons, List.map_append, List.map_cons]
    refine List.nodup_middle.2 (List.nodup_cons.2 ?_)
    rw [← List.map_append, List.append_assoc]
    exact ⟨hca, hnd⟩
  · exact hc.listed_insert hmem hfree hout

end MmHeap
end D1Flash
