import D1Flash.Mm.Malloc
import Mathlib.Data.List.Chain

namespace D1Flash
set_option autoImplicit true

/-! What `mm_free` does. -/

def joinNext (c : Chunk) : List Chunk → Chunk × List Chunk
  | [] => (c, [])
  | d :: r => if d.alloc then (c, d :: r) else (⟨c.addr, c.size + d.size, false⟩, r)

def joinPrev (l : List Chunk) (c : Chunk) : List Chunk × Chunk :=
  match l.getLast? with
  | none => (l, c)
  | some p => if p.alloc then (l, c) else (l.dropLast, ⟨p.addr, p.size + c.size, false⟩)

/-- The chunks after `c` is given back. -/
def release (l : List Chunk) (c : Chunk) (r : List Chunk) : List Chunk :=
  let next := joinNext { c with alloc := false } r
  let prev := joinPrev l next.1
  prev.1 ++ ([prev.2] ++ next.2)

/-- No two free chunks are side by side. -/
def Coalesced (cs : List Chunk) : Prop := cs.IsChain fun c d => c.alloc = true ∨ d.alloc = true

/-- What may stand beside a free chunk. -/
def Busy (o : Option Chunk) : Prop := ∀ c ∈ o, c.alloc = true

namespace MmHeap

variable {h h' : MmHeap} {cs : List Chunk} {ns : List MmNode} {out : List Nat}

theorem Steps.after (hst : Steps h h' cs) (r : List Chunk) : h'.after r = h.after r := by
  rw [hst.config]
  rfl

theorem owned_merge (hc : c.alloc = false) (hd : d.alloc = false) (hcd : d.addr = c.addr + c.size)
    (ho : h.Owned (l ++ ([⟨c.addr, c.size + d.size, false⟩] ++ r)) a) :
    h.Owned (l ++ ([c, d] ++ r)) a := by
  refine owned_mid (fun x hx ho => ?_) ho
  cases List.mem_singleton.1 hx
  obtain ⟨hlo, hhi⟩ := ho
  rw [if_neg Bool.false_ne_true] at hhi
  dsimp only at hlo hhi
  rcases Nat.lt_or_ge a d.addr with hlt | hge
  · refine ⟨c, List.mem_cons_self, hlo, ?_⟩
    rw [hc, if_neg Bool.false_ne_true]
    omega
  · refine ⟨d, List.mem_cons_of_mem _ List.mem_cons_self, hge, ?_⟩
    rw [hd, if_neg Bool.false_ne_true]
    omega

theorem Core.freeNext (hc : h.Core (l ++ ([c] ++ r)) ns [c.addr]) (hfree : c.alloc = false)
    (hfits : Fits (l ++ ([c] ++ r))) :
    ∃ h₁ ns₁, h.freeNext c.addr = ((h.after (joinNext c r).2).addr, h₁) ∧
      h₁.Core (l ++ ([(joinNext c r).1] ++ (joinNext c r).2)) ns₁ [c.addr] ∧
      Steps h h₁ (l ++ ([c] ++ r)) := by
  have hafter := hc.shape.after_addr
  have hcm : c ∈ l ++ ([c] ++ r) := by simp
  have hbit : h.isAlloc (c.addr + c.size) = (h.after r).alloc := by
    obtain ⟨-, ⟨-, hprec⟩, -⟩ := hc.headed_mid
    rw [MmHeap.isAlloc, ← hafter, hprec]
    exact tag_alloc (hfits.after (m := []) h)
  rw [MmHeap.freeNext, hc.rd_chunk hcm, hbit]
  cases r with
  | nil => exact ⟨h, ns, congrArg (·, h) hafter.symm, hc, .refl _ _⟩
  | cons d r =>
    cases hd : d.alloc with
    | true =>
      have hj : joinNext c (d :: r) = (c, d :: r) := by rw [joinNext, if_pos hd]
      have hda : (h.after (d :: r)).alloc = true := hd
      rw [hj, hda, hafter]
      exact ⟨h, ns, rfl, hc, .refl _ _⟩
    | false =>
      have hdc : d.addr = c.addr + c.size := hafter
      have hj : joinNext c (d :: r) = (⟨c.addr, c.size + d.size, false⟩, r) := by
        rw [joinNext, if_neg (by rw [hd]; exact Bool.false_ne_true)]
      have hda : (h.after (d :: r)).alloc = false := hd
      have hdm : d ∈ l ++ ([c] ++ d :: r) := by simp
      have hcs : 4 ≤ c.size := hc.shape.size_pos (mem_whole.2 (.inr (.inl hcm)))
      have hbeyond : d.addr + d.size = (h.after r).addr := by
        have hs : h.Shape ((l ++ [c]) ++ ([d] ++ r)) := by
          rw [List.append_assoc]
          exact hc.shape
        exact hs.after_addr.symm
      obtain ⟨ns₁, hc₁, hst₁⟩ := hc.unlink hdm hd (by rw [List.mem_singleton]; omega)
      rw [hj, hda, if_neg Bool.false_ne_true, ← hdc, hc.rd_chunk hdm, hbeyond]
      dsimp only
      generalize h.removeNode d.addr = h₁ at hc₁ hst₁ ⊢
      have hfit : d.size < mmAllocBit ∨ (h₁.after r).alloc = true := Fits.after (m := [c]) hfits _
      obtain ⟨hc₂, hst₂⟩ := Core.merge (c := c) (d := d) (r := r) hc₁
        (fun a => by rw [List.mem_cons, List.mem_singleton, or_comm]) hfree hfit
      rw [hst₁.after] at hc₂ hst₂
      exact ⟨_, ns₁, rfl, hc₂, hst₁.trans (hst₂.mono fun a => owned_merge hfree hd hdc)⟩

theorem Core.freePrev (hc : h.Core (l ++ ([c] ++ r)) ns [c.addr]) (hfree : c.alloc = false)
    (hl : ∀ d ∈ l, d.size < mmAllocBit) (hafter : (h.after r).alloc = true) :
    ∃ h₁ ns₁, h.freePrev c.addr (h.after r).addr = ((joinPrev l c).2.addr, h₁) ∧
      h₁.Core ((joinPrev l c).1 ++ ([(joinPrev l c).2] ++ r)) ns₁ [(joinPrev l c).2.addr] ∧
      Steps h h₁ (l ++ ([c] ++ r)) := by
  have hcm : c ∈ l ++ ([c] ++ r) := by simp
  have hprec : h.rd .preceding c.addr = lastSize sizeofMmAllocnode l := by
    obtain ⟨⟨-, hp⟩, -⟩ := hc.headed_mid
    rw [hp, hfree]
    exact Nat.or_zero _
  rw [MmHeap.freePrev, hprec]
  rcases List.eq_nil_or_concat l with rfl | ⟨l, p, rfl⟩
  · -- before the first chunk is the guard
    have hstart : c.addr - lastSize sizeofMmAllocnode [] = h.mmHeapstart := by
      have haddr : c.addr = h.mmHeapstart + 4 := hc.shape.tiles.2.1
      show c.addr - 4 = _
      omega
    have hguard : h.isAlloc h.mmHeapstart = true := by
      obtain ⟨⟨-, hp⟩, -⟩ := hc.headed
      rw [MmHeap.isAlloc, hp]
      exact tag_alloc (.inr rfl)
    rw [hstart, hguard]
    exact ⟨h, ns, rfl, hc, .refl _ _⟩
  · rw [List.concat_eq_append] at hc hcm hl ⊢
    have hc' : h.Core (l ++ ([p, c] ++ r)) ns [c.addr] := by
      rw [List.append_assoc] at hc
      exact hc
    have hpm : p ∈ l ++ ([p, c] ++ r) := by simp
    have hpc : c.addr = p.addr + p.size := by
      have hs : h.Shape (l ++ ([p] ++ c :: r)) := hc'.shape
      exact hs.after_addr
    have hprev : c.addr - lastSize sizeofMmAllocnode (l ++ [p]) = p.addr := by
      rw [lastSize_concat, hpc, Nat.add_sub_cancel]
    have hbit : h.isAlloc p.addr = p.alloc := by
      obtain ⟨⟨-, hp⟩, -⟩ := hc'.headed_mid
      rw [MmHeap.isAlloc, hp]
      refine tag_alloc (.inl ?_)
      rw [lastSize]
      cases hlast : l.getLast? with
      | none => decide
      | some d => exact hl d (List.mem_append_left _ (List.mem_of_getLast? hlast))
    rw [hprev, hbit, joinPrev, List.getLast?_concat]
    dsimp only
    cases hp : p.alloc with
    | true => exact ⟨h, ns, rfl, hc, .refl _ _⟩
    | false =>
      have hps : 4 ≤ p.size := hc'.shape.size_pos (mem_whole.2 (.inr (.inl hpm)))
      obtain ⟨ns₁, hc₁, hst₁⟩ := hc'.unlink hpm hp (by rw [List.mem_singleton]; omega)
      rw [if_neg Bool.false_ne_true, if_neg Bool.false_ne_true, List.dropLast_concat, ← hst₁.after]
      generalize h.removeNode p.addr = h₁ at hc₁ hst₁ ⊢
      obtain ⟨hc₂, hst₂⟩ := hc₁.merge (fun a => by rw [List.mem_cons, List.mem_singleton]) hp
        (.inr (by rw [hst₁.after]; exact hafter))
      refine ⟨_, ns₁, rfl, hc₂, ?_⟩
      rw [List.append_assoc]
      exact hst₁.trans (hst₂.mono fun a => owned_merge hp hfree hpc)

theorem joinNext_fst (hc : c.alloc = false) :
    (joinNext c r).1.alloc = false ∧ (joinNext c r).1.addr = c.addr := by
  cases r with
  | nil => exact ⟨hc, rfl⟩
  | cons d r =>
    rw [joinNext]
    split
    · exact ⟨hc, rfl⟩
    · exact ⟨rfl, rfl⟩

theorem joinPrev_snd (hc : c.alloc = false) (l : List Chunk) : (joinPrev l c).2.alloc = false := by
  rw [joinPrev]
  split
  · exact hc
  · split
    · exact hc
    · rfl

theorem joinNext_snd (hr : Coalesced r) (c : Chunk) :
    Coalesced (joinNext c r).2 ∧ Busy (joinNext c r).2.head? := by
  cases r with
  | nil => exact ⟨hr, fun d hd => (Option.not_mem_none d hd).elim⟩
  | cons d r =>
    rw [joinNext]
    cases hd : d.alloc with
    | true =>
      refine ⟨hr, fun e he => ?_⟩
      cases he
      exact hd
    | false =>
      obtain ⟨hhead, htail⟩ := List.isChain_cons.1 hr
      rw [if_neg Bool.false_ne_true]
      refine ⟨htail, fun e he => (hhead e he).resolve_left ?_⟩
      rw [hd]
      exact Bool.false_ne_true

theorem after_busy (hr : Busy r.head?) (h : MmHeap) : (h.after r).alloc = true := by
  cases r with
  | nil => rfl
  | cons d r => exact hr d rfl

theorem owned_joinNext (hs : h.Shape (l ++ ([c] ++ r))) (hc : c.alloc = false)
    (ho : h.Owned (l ++ ([(joinNext c r).1] ++ (joinNext c r).2)) a) :
    h.Owned (l ++ ([c] ++ r)) a := by
  cases r with
  | nil => exact ho
  | cons d r =>
    rw [joinNext] at ho
    cases hd : d.alloc with
    | true =>
      rw [if_pos hd] at ho
      exact ho
    | false =>
      rw [if_neg (by rw [hd]; exact Bool.false_ne_true)] at ho
      exact owned_merge hc hd hs.after_addr ho

theorem owned_joinPrev (hs : h.Shape (l ++ ([c] ++ r))) (hc : c.alloc = false)
    (ho : h.Owned ((joinPrev l c).1 ++ ([(joinPrev l c).2] ++ r)) a) :
    h.Owned (l ++ ([c] ++ r)) a := by
  rcases List.eq_nil_or_concat l with rfl | ⟨l, p, rfl⟩
  · exact ho
  · rw [List.concat_eq_append] at ho hs ⊢
    rw [joinPrev, List.getLast?_concat] at ho
    dsimp only at ho
    cases hp : p.alloc with
    | true =>
      rw [if_pos hp] at ho
      exact ho
    | false =>
      rw [if_neg (by rw [hp]; exact Bool.false_ne_true), List.dropLast_concat] at ho
      rw [List.append_assoc] at hs ⊢
      have hs' : h.Shape (l ++ ([p] ++ c :: r)) := hs
      exact owned_merge hp hc hs'.after_addr ho

theorem Fits.congr (hf : Fits cs) (he : cs.map Chunk.size = ds.map Chunk.size) : Fits ds := by
  intro d hd
  have hin := List.mem_map_of_mem (f := Chunk.size) hd
  rw [List.map_dropLast, ← he, ← List.map_dropLast] at hin
  obtain ⟨c, hc, hcd⟩ := List.mem_map.1 hin
  exact hcd ▸ hf c hc

/-- `mm_free` gives a chunk back and joins it with the free ones beside it. -/
theorem Core.free (hc : h.Core (l ++ ([c] ++ r)) ns []) (hfits : Fits (l ++ ([c] ++ r)))
    (hco : Coalesced (l ++ ([c] ++ r))) (ha : c.alloc = true) (hf : 0x1000 ≤ fuel) :
    ∃ h' ns', h.mmFree fuel (c.addr + sizeofMmAllocnode) = some h' ∧
      h'.Core (release l c r) ns' [] ∧ Steps h h' (l ++ ([{ c with alloc := false }] ++ r)) := by
  have hprec : h.rd .preceding c.addr &&& (mmAllocBit - 1) =
    tag (lastSize sizeofMmAllocnode l) false := by
    obtain ⟨⟨-, hp⟩, -⟩ := hc.headed_mid
    have hlast : lastSize sizeofMmAllocnode l < mmAllocBit := Fits.before (c := c) (r := r) hfits
    rw [hp, tag_clear hlast]
  have hc₀ : h.Core (l ++ c :: r) ns [] := hc
  obtain ⟨hc₁, hst₁⟩ := hc₀.retag (fun a => by simp [ha]) false
  rw [mmFree, if_neg (by show ¬ c.addr + 4 = 0; omega), Nat.add_sub_cancel]
  dsimp only
  rw [hprec]
  generalize h.wr .preceding c.addr (tag (lastSize sizeofMmAllocnode l) false) = h₁ at hc₁ hst₁ ⊢
  have hfits₁ : Fits (l ++ ([{ c with alloc := false }] ++ r)) := hfits.congr (by simp)
  have hl : ∀ d ∈ l, d.size < mmAllocBit := fun d hd => hfits d (by
    rw [List.dropLast_append_of_ne_nil (by simp)]
    exact List.mem_append_left _ hd)
  have hr : Coalesced r := hco.right_of_append.right_of_append
  have hda : ({ c with alloc := false } : Chunk).alloc = false := rfl
  have haddr : ({ c with alloc := false } : Chunk).addr = c.addr := rfl
  have hout : (if false then ([] : List Nat) else [c.addr]) = [c.addr] := rfl
  rw [release]
  rw [hout, ← haddr] at hc₁
  rw [← haddr]
  generalize ({ c with alloc := false } : Chunk) = d at *
  obtain ⟨h₂, ns₂, hnext, hc₂, hst₂⟩ := Core.freeNext (c := d) (r := r) hc₁ hda hfits₁
  have hafter : (h₂.after (joinNext d r).2).alloc = true := after_busy (joinNext_snd hr d).2 h₂
  obtain ⟨hja, hjd⟩ := joinNext_fst (r := r) hda
  rw [← hjd] at hc₂
  obtain ⟨h₃, ns₃, hprev, hc₃, hst₃⟩ := hc₂.freePrev hja hl hafter
  have hjf := joinPrev_snd hja l
  obtain ⟨h₄, ns₄, hadd, hc₄, hst₄⟩ := hc₃.insert (by simp) hjf List.not_mem_nil
    (Nat.le_trans hc₃.length_le hf)
  have hs₂ : h₂.Shape (l ++ ([d] ++ r)) := hst₂.shape hc₁.shape
  refine ⟨h₄, ns₄, ?_, hc₄, ?_⟩
  · rw [hnext]
    dsimp only
    rw [← hst₂.after, ← hjd, hprev]
    exact hadd
  · refine hst₁.trans (hst₂.trans ((hst₃.mono fun a => owned_joinNext hs₂ hda).trans
      (hst₄.mono fun a ho => ?_)))
    exact owned_joinNext (hst₃.shape hs₂) hda (owned_joinPrev (hst₃.shape hc₂.shape) hja ho)

end MmHeap
end D1Flash
