import D1Flash.Mm.Insert
import Mathlib.Data.Nat.Bitwise

namespace D1Flash
open Tiling (From total from_append)
set_option autoImplicit true

/-! Chunks that are cut, joined, given out and taken back by writes to headers. -/

namespace MmHeap

/-- The bit is legible where the size before it is small, or where it is set. -/
theorem tag_bit (hp : prev < mmAllocBit ∨ alloc = true) :
    tag prev alloc &&& mmAllocBit = if alloc then mmAllocBit else 0 := by
  have hand : ∀ n, n &&& mmAllocBit = (n.testBit 15).toNat * 2 ^ 15 := fun n => Nat.and_two_pow n 15
  cases alloc with
  | false =>
    have hlt : prev < 2 ^ 15 := hp.resolve_right Bool.false_ne_true
    rw [tag, if_neg Bool.false_ne_true, Nat.or_zero, hand, Nat.testBit_lt_two_pow hlt]
    rfl
  | true =>
    rw [tag, if_pos rfl, Nat.and_or_distrib_right, hand prev, Nat.and_self]
    cases prev.testBit 15 with
    | false => rfl
    | true => rfl

theorem tag_retag (hp : prev < mmAllocBit ∨ alloc = true) (q : Nat) :
    q ||| (tag prev alloc &&& mmAllocBit) = tag q alloc := by
  rw [tag_bit hp]
  rfl

theorem tag_set (prev : Nat) (alloc : Bool) : tag prev alloc ||| mmAllocBit = tag prev true := by
  cases alloc with
  | false => rw [tag, if_neg Bool.false_ne_true, Nat.or_zero]; rfl
  | true => rw [tag, if_pos rfl, Nat.or_assoc, Nat.or_self]

theorem tag_clear (hp : prev < mmAllocBit) (alloc : Bool) :
    tag prev alloc &&& (mmAllocBit - 1) = tag prev false := by
  have hmod : (tag prev alloc &&& (2 ^ 15 - 1)) = tag prev alloc % 2 ^ 15 :=
    Nat.and_two_pow_sub_one_eq_mod _ 15
  have hbit : (if alloc then mmAllocBit else 0) % 2 ^ 15 = 0 := by cases alloc <;> rfl
  refine hmod.trans ?_
  rw [tag, Nat.or_mod_two_pow, hbit, Nat.mod_eq_of_lt hp]
  rfl

theorem tag_lt (hp : prev < 2 ^ 16) (alloc : Bool) : tag prev alloc < 2 ^ 16 := by
  refine Nat.or_lt_two_pow hp ?_
  cases alloc <;> decide

theorem tag_alloc (hp : prev < mmAllocBit ∨ alloc = true) :
    decide (tag prev alloc &&& mmAllocBit ≠ 0) = alloc := by
  rw [tag_bit hp]
  cases alloc <;> rfl

/-- Some members are written, one after the other. -/
def wrs (ws : List (MmField × Nat × Nat)) (h : MmHeap) : MmHeap :=
  ws.foldl (fun h w => h.wr w.1 w.2.1 w.2.2) h

variable {h h' : MmHeap} {cs : List Chunk} {ns : List MmNode} {out : List Nat}
  {ws : List (MmField × Nat × Nat)}

theorem wrs_steps (hs : h.Shape cs) (hw : ∀ w ∈ ws, h.Own cs w.1 w.2.1) :
    Steps h (h.wrs ws) cs := by
  induction ws generalizing h with
  | nil => exact .refl h cs
  | cons w ws ih =>
    have hst := (hw w List.mem_cons_self).steps hs w.2.2
    refine hst.trans (ih (hst.shape hs) fun w' hw' => hst.own (hw w' ?_))
    exact List.mem_cons_of_mem w hw'

theorem Shape.rd_wrs_of_ne (hs : h.Shape cs) (hw : ∀ w ∈ ws, h.Own cs w.1 w.2.1)
    (hb : h.Slot cs g b) (hne : ∀ w ∈ ws, ¬ (g = w.1 ∧ b = w.2.1)) :
    (h.wrs ws).rd g b = h.rd g b := by
  induction ws generalizing h with
  | nil => rfl
  | cons w ws ih =>
    have hwo := hw w List.mem_cons_self
    have hst := hwo.steps hs w.2.2
    refine (ih (hst.shape hs) (fun w' hw' => hst.own (hw w' (List.mem_cons_of_mem w hw')))
      (hst.slot hb) fun w' hw' => hne w' (List.mem_cons_of_mem w hw')).trans ?_
    rw [hs.rd_wr hwo.slot hb, if_neg (hne w List.mem_cons_self)]

theorem Shape.rd_wrs (hs : h.Shape cs) (hw : ∀ w ∈ ws, h.Own cs w.1 w.2.1)
    (hd : ws.Pairwise fun w w' => ¬ (w.1 = w'.1 ∧ w.2.1 = w'.2.1)) (hin : (g, b, v) ∈ ws) :
    (h.wrs ws).rd g b = v % 256 ^ g.width := by
  induction ws generalizing h with
  | nil => cases hin
  | cons w ws ih =>
    have hwo := hw w List.mem_cons_self
    have hst := hwo.steps hs w.2.2
    have hws := fun w' hw' => hst.own (hw w' (List.mem_cons_of_mem w hw'))
    obtain ⟨hwd, hd⟩ := List.pairwise_cons.1 hd
    rcases List.mem_cons.1 hin with rfl | hin
    · refine ((hst.shape hs).rd_wrs_of_ne hws (hst.slot hwo.slot) hwd).trans ?_
      rw [hs.rd_wr hwo.slot hwo.slot, if_pos ⟨rfl, rfl⟩]
    · exact ih (hst.shape hs) hws hd hin

/-- The chunk after some, which may be the guard. -/
def after (h : MmHeap) (r : List Chunk) : Chunk := r.headD ⟨h.mmHeapend, sizeofMmAllocnode, true⟩

theorem whole_after (h : MmHeap) (l m r : List Chunk) : ∃ r', h.whole (l ++ (m ++ r)) =
    (⟨h.mmHeapstart, sizeofMmAllocnode, true⟩ :: l) ++ ((m ++ [h.after r]) ++ r') ∧
      ∀ m', h.whole (l ++ (m' ++ r)) =
        (⟨h.mmHeapstart, sizeofMmAllocnode, true⟩ :: l) ++ ((m' ++ [h.after r]) ++ r') := by
  refine ⟨(r ++ [(⟨h.mmHeapend, sizeofMmAllocnode, true⟩ : Chunk)]).tail, ?_, fun m' => ?_⟩
  all_goals
    cases r with
    | nil => simp [whole, after]
    | cons b r => simp [whole, after]

theorem Shape.nodup (hs : h.Shape cs) : ((h.whole cs).map Chunk.addr).Nodup := by
  have hp := hs.tiles.pairwise
  refine List.pairwise_map.2 (hp.imp_of_mem fun {c d} hc _ hle => ?_)
  have hpos : 4 ≤ c.size := hs.size_pos hc
  omega

theorem listed_mid (hs : h.Shape (l ++ (m ++ r))) (hm : ∀ d ∈ m, d.alloc = true ∨ d.addr ∈ out)
    (hout : ∀ a ∈ out, ∃ d ∈ m, d.addr = a) : h.Listed (l ++ (m ++ r)) out n ↔
      (∃ i < mmNnodes, n = h.head i) ∨ ∃ d ∈ l ++ r, d.alloc = false ∧ n = d.node := by
  refine or_congr Iff.rfl ⟨?_, ?_⟩
  · rintro ⟨d, hd, hdf, hdo, rfl⟩
    refine ⟨d, ?_, hdf, rfl⟩
    rcases List.mem_append.1 hd with hd | hd
    · exact List.mem_append_left _ hd
    · rcases List.mem_append.1 hd with hd | hd
      · rcases hm d hd with hda | hda
        · rw [hdf] at hda
          cases hda
        · exact (hdo hda).elim
      · exact List.mem_append_right _ hd
  · rintro ⟨d, hd, hdf, rfl⟩
    have hin : ∀ x, x ∈ l ++ r ∨ x ∈ m → x ∈ h.whole (l ++ (m ++ r)) := by
      intro x hx
      refine mem_whole.2 (.inr (.inl ?_))
      rcases hx with hx | hx
      · rcases List.mem_append.1 hx with hx | hx
        · exact List.mem_append_left _ hx
        · exact List.mem_append_right _ (List.mem_append_right _ hx)
      · exact List.mem_append_right _ (List.mem_append_left _ hx)
    refine ⟨d, ?_, hdf, fun hdo => ?_, rfl⟩
    · rcases List.mem_append.1 hd with hd | hd
      · exact List.mem_append_left _ hd
      · exact List.mem_append_right _ (List.mem_append_right _ hd)
    · obtain ⟨x, hx, he⟩ := hout _ hdo
      have heq := hs.addr_inj (hin x (.inr hx)) (hin d (.inl hd)) he
      subst heq
      have hnd := hs.nodup.of_map
      rw [whole, List.nodup_cons, List.nodup_append] at hnd
      obtain ⟨-, hmr, hl⟩ := List.nodup_append.1 hnd.2.1
      rcases List.mem_append.1 hd with hd | hd
      · exact hl x hd x (List.mem_append_left _ hx) rfl
      · exact (List.nodup_append.1 hmr).2.2 x hx x hd rfl

theorem lastSize_concat (prev : Nat) (cs : List Chunk) (c : Chunk) :
    lastSize prev (cs ++ [c]) = c.size := by
  rw [lastSize, List.getLast?_concat]
  rfl

theorem Shape.nodeAt_ne (hs : h.Shape cs) (hi : i < mmNnodes) (hc : c ∈ h.whole cs) :
    h.nodeAt i ≠ c.addr := by
  have hnum := hs.numbers
  have hsize : 4 ≤ c.size := hs.size_pos hc
  obtain ⟨hlo, hhi⟩ := hs.bounds hc
  have hhi' : c.addr + c.size ≤ h.mmHeapend + 4 := hhi
  have hi' : i < 19 := hi
  show h.mmNodelist + 24 * i ≠ c.addr
  omega

theorem own_mid
    (hw : ∀ w ∈ ws, (w.1 = .size ∨ w.1 = .preceding) ∧ ∃ d ∈ m ++ [h.after r], w.2.1 = d.addr) :
    ∀ w ∈ ws, h.Own (l ++ (m ++ r)) w.1 w.2.1 := by
  intro w hwm
  obtain ⟨hf, d, hd, ha⟩ := hw w hwm
  obtain ⟨r', hwhole, -⟩ := h.whole_after l m r
  rw [ha]
  refine .header ?_ hf
  rw [hwhole]
  exact List.mem_append_right _ (List.mem_append_left _ hd)

/-- Chunks in the middle are replaced by others, by writes to their headers and the
one after them. -/
theorem Core.rehead (hc : h.Core (l ++ (m ++ r)) ns out) (hs : h.Shape (l ++ (m' ++ r)))
    (hw : ∀ w ∈ ws, (w.1 = .size ∨ w.1 = .preceding) ∧ ∃ d ∈ m' ++ [h.after r], w.2.1 = d.addr)
    (hh : (∀ w ∈ ws, h.Own (l ++ (m' ++ r)) w.1 w.2.1) →
      h.Headed (lastSize sizeofMmAllocnode l) (m ++ [h.after r]) →
      (h.wrs ws).Headed (lastSize sizeofMmAllocnode l) (m' ++ [h.after r]))
    (hm : ∀ d ∈ m, d.alloc = true ∨ d.addr ∈ out) (hout : ∀ a ∈ out, ∃ d ∈ m, d.addr = a)
    (hm' : ∀ d ∈ m', d.alloc = true ∨ d.addr ∈ out') (hout' : ∀ a ∈ out', ∃ d ∈ m', d.addr = a) :
    (h.wrs ws).Core (l ++ (m' ++ r)) ns out' ∧ Steps h (h.wrs ws) (l ++ (m' ++ r)) := by
  obtain ⟨r', hwhole, hwhole'⟩ := h.whole_after l m r
  replace hwhole' := hwhole' m'
  have hmid : ∀ d ∈ m' ++ [h.after r], d ∈ h.whole (l ++ (m' ++ r)) := by
    intro d hd
    rw [hwhole']
    exact List.mem_append_right _ (List.mem_append_left _ hd)
  have hown : ∀ w ∈ ws, h.Own (l ++ (m' ++ r)) w.1 w.2.1 := own_mid hw
  have hst := wrs_steps hs hown
  have hlisted : ∀ n, h.Listed (l ++ (m ++ r)) out n ↔ h.Listed (l ++ (m' ++ r)) out' n := fun n =>
    (listed_mid hc.shape hm hout).trans (listed_mid hs hm' hout').symm
  -- the headers of the chunks around are as they were
  have hnd := hs.nodup
  have hkeep : ∀ d ∈ h.whole (l ++ (m' ++ r)), d.addr ∉ (m' ++ [h.after r]).map Chunk.addr →
      (h.wrs ws).rd .size d.addr = h.rd .size d.addr ∧
        (h.wrs ws).rd .preceding d.addr = h.rd .preceding d.addr := by
    intro d hd hnot
    have hne : ∀ f, ∀ w ∈ ws, ¬ (f = w.1 ∧ d.addr = w.2.1) := by
      rintro f w hwm ⟨-, ha⟩
      obtain ⟨-, x, hx, hxa⟩ := hw w hwm
      exact hnot (List.mem_map.2 ⟨x, hx, (ha.trans hxa).symm⟩)
    exact ⟨hs.rd_wrs_of_ne hown (slot_head hd (.inl rfl)) (hne _),
      hs.rd_wrs_of_ne hown (slot_head hd (.inr rfl)) (hne _)⟩
  refine ⟨⟨hst.shape hs, ?_, ?_, ?_, hc.sorted, hc.nodup, fun n => ?_⟩, hst⟩
  · have hold := hc.headed
    rw [hst.whole, hwhole', headed_append, headed_append, lastSize_cons, lastSize_concat]
    rw [hwhole, headed_append, headed_append, lastSize_cons, lastSize_concat] at hold
    rw [hwhole', List.map_append, List.map_append, List.nodup_append] at hnd
    obtain ⟨-, hnd, hl⟩ := hnd
    refine ⟨hold.1.congr fun d hd => hkeep d ?_ fun hin => ?_, hh hown hold.2.1,
      hold.2.2.congr fun d hd => hkeep d ?_ fun hin => ?_⟩
    · rw [hwhole']
      exact List.mem_append_left _ hd
    · exact hl _ (List.mem_map_of_mem hd) _ (List.mem_append_left _ hin) rfl
    · rw [hwhole']
      exact List.mem_append_right _ (List.mem_append_right _ hd)
    · exact (List.nodup_append.1 hnd).2.2 _ hin _ (List.mem_map_of_mem hd) rfl
  · intro i hi
    have hnode : (h.wrs ws).nodeAt i = h.nodeAt i := congrArg MmNode.addr (hst.head i)
    rw [hnode]
    refine (hs.rd_wrs_of_ne hown (slot_list hi _) ?_).trans (hc.zero i hi)
    rintro w hwm ⟨-, ha⟩
    obtain ⟨-, x, hx, hxa⟩ := hw w hwm
    exact hs.nodeAt_ne hi (hmid x hx) (ha.trans hxa)
  · have hlink : ∀ a ∈ ns.map MmNode.addr, ∀ f, f = .flink ∨ f = .blink →
        (h.wrs ws).rd f a = h.rd f a := by
      intro a ha f hf
      obtain ⟨n, hn, rfl⟩ := List.mem_map.1 ha
      refine hs.rd_wrs_of_ne hown ?_ ?_
      · rcases (hlisted n).1 ((hc.mem n).1 hn) with ⟨i, hi, rfl⟩ | ⟨d, hd, -, -, rfl⟩
        · exact slot_list hi f
        · exact slot_chunk hd f
      · rintro w hwm ⟨rfl, -⟩
        rcases (hw w hwm).1 with he | he <;> rcases hf with hf | hf <;> rw [he] at hf <;> cases hf
    refine hc.linked.congr (fun a ha => hlink a ha _ (.inl rfl)) fun a ha => ?_
    exact hlink a (List.mem_of_mem_tail ha) _ (.inr rfl)
  · rw [hc.mem, hlisted]
    exact hst.listed.symm

end MmHeap
end D1Flash
