import D1Flash.Dma.CyclicCover
import D1Flash.Dma.Frame

namespace D1Flash
open LinkedHeap Runs
set_option autoImplicit true

variable {s t u : DmaSys}

def lliBytes (ls : List DmaLli) : Nat := (ls.map fun l => l.len.toNat).sum

theorem lliBytes_cons (l : DmaLli) (ls : List DmaLli) :
    lliBytes (l :: ls) = l.len.toNat + lliBytes ls := List.sum_cons

theorem residueLoop_after (hne : ∀ l ∈ ls, l.pLln ≠ pos)
    (hlt : left.toNat + lliBytes ls < 2 ^ 32) :
    (residueLoop pos ls true left).toNat = left.toNat + lliBytes ls := by
  induction ls generalizing left with
  | nil => rfl
  | cons l ls ih =>
    rw [lliBytes_cons] at hlt
    have hadd : (left + l.len).toNat = left.toNat + l.len.toNat := by
      rw [BitVec.toNat_add, Nat.mod_eq_of_lt (by omega)]
    rw [residueLoop, if_neg (hne l List.mem_cons_self), if_pos rfl,
      ih (fun m hm => hne m (List.mem_cons_of_mem l hm)) (by omega), hadd, lliBytes_cons,
      Nat.add_assoc]

theorem residueLoop_before (hne : ∀ l ∈ ls, l.pLln ≠ pos) (ls' : List DmaLli) (left : BitVec 32) :
    residueLoop pos (ls ++ ls') false left = residueLoop pos ls' false left := by
  induction ls with
  | nil => rfl
  | cons l ls ih =>
    rw [List.cons_append, residueLoop, if_neg (hne l List.mem_cons_self), if_neg Bool.false_ne_true]
    exact ih fun m hm => hne m (List.mem_cons_of_mem l hm)

theorem residueLoop_current {ls : List DmaLli} (hnd : (ls.map DmaLli.pLln).Nodup)
    (hk : k < ls.length)
    (hlt : left.toNat + lliBytes (ls.drop (k + 1)) < 2 ^ 32) :
    (residueLoop ls[k].pLln ls false left).toNat = left.toNat + lliBytes (ls.drop (k + 1)) := by
  have hsplit : ls = ls.take k ++ ls[k] :: ls.drop (k + 1) := by
    rw [← List.drop_eq_getElem_cons hk, List.take_append_drop]
  have hmap : ls.map DmaLli.pLln =
      (ls.take k).map DmaLli.pLln ++ ls[k].pLln :: (ls.drop (k + 1)).map DmaLli.pLln := by
    rw [← List.map_cons, ← List.map_append, ← hsplit]
  rw [hmap, List.nodup_append, List.nodup_cons] at hnd
  obtain ⟨-, ⟨hafter, -⟩, hbefore⟩ := hnd
  have hne : ∀ l ∈ ls.take k, l.pLln ≠ ls[k].pLln := fun l hl =>
    hbefore _ (List.mem_map_of_mem hl) _ List.mem_cons_self
  have hne' : ∀ l ∈ ls.drop (k + 1), l.pLln ≠ ls[k].pLln := fun l hl he =>
    hafter (he ▸ List.mem_map_of_mem hl)
  have hloop : residueLoop ls[k].pLln ls false left =
      residueLoop ls[k].pLln (ls.drop (k + 1)) true left := by
    calc residueLoop ls[k].pLln ls false left
      _ = residueLoop ls[k].pLln (ls.take k ++ ls[k] :: ls.drop (k + 1)) false left := by
        rw [← hsplit]
      _ = residueLoop ls[k].pLln (ls[k] :: ls.drop (k + 1)) false left :=
        residueLoop_before hne _ left
      _ = residueLoop ls[k].pLln (ls.drop (k + 1)) true left := by
        rw [residueLoop, if_pos rfl]
  rw [hloop, residueLoop_after hne' hlt]

theorem skipPeriods_zero (ls : List DmaLli) : skipPeriods 0 ls = [] ↔ ls.length ≤ 1 := by
  cases ls with
  | nil => exact iff_of_true rfl (Nat.zero_le 1)
  | cons l ls =>
    cases ls with
    | nil => exact iff_of_true rfl (Nat.le_refl 1)
    | cons l' ls => exact iff_of_false (fun h => (nomatch h)) (Nat.not_le.2 (by simp))

theorem cyclicItem_len_le (config : DmaSlaveConfig) (bufAddr periodLen : BitVec 32)
    (dir : DmaTransferDirection) (i : Nat) :
    (cyclicItem config bufAddr periodLen dir i).len.toNat ≤ periodLen.toNat := by
  cases dir with
  | memToMem => exact Nat.zero_le _
  | memToDev => exact Nat.le_refl _
  | devToMem => exact Nat.le_refl _
  | devToDev => exact Nat.le_refl _
  | transNone => exact Nat.zero_le _

theorem lliBytes_le (h : ∀ l ∈ ls, l.len.toNat ≤ n) : lliBytes ls ≤ ls.length * n := by
  induction ls with
  | nil => exact Nat.zero_le _
  | cons l ls ih =>
    have hl := h l List.mem_cons_self
    have hls := ih fun m hm => h m (List.mem_cons_of_mem l hm)
    rw [lliBytes_cons, List.length_cons, Nat.succ_mul, Nat.add_comm]
    exact Nat.add_le_add hls hl

theorem ringDescs_fst (item : Nat → DmaLli) (as : List Addr) :
    (ringDescs item as).map Prod.fst = as := by
  apply List.ext_getElem?
  intro i
  rw [List.getElem?_map, ringDescs_getElem?, Option.map_map]
  exact Option.map_id'

/-- Two of the addresses are not one physical address. -/
def PaApart (as : List Addr) : Prop :=
  ∀ a ∈ as, ∀ b ∈ as, vaToPa (some a) = vaToPa (some b) → a = b

theorem ringDescs_links {as : List Addr} (item : Nat → DmaLli) (hnd : as.Nodup) (hpa : PaApart as) :
    (((ringDescs item as).map Prod.snd).map DmaLli.pLln).Nodup := by
  have hlinks : ((ringDescs item as).map Prod.snd).map DmaLli.pLln =
      (as.rotate 1).map fun a => vaToPa (some a) := by
    calc ((ringDescs item as).map Prod.snd).map DmaLli.pLln
      _ = (ringDescs item as).map fun x => x.2.pLln := List.map_map
      _ = ((ringDescs item as).rotate 1).map fun x => vaToPa (some x.1) := ringDescs_closed item as
      _ = (((ringDescs item as).rotate 1).map Prod.fst).map fun a => vaToPa (some a) := by
        rw [List.map_map]
        rfl
      _ = (as.rotate 1).map fun a => vaToPa (some a) := by rw [List.map_rotate, ringDescs_fst]
  rw [hlinks]
  apply List.Nodup.map_on _ (List.nodup_rotate.2 hnd)
  intro a ha b hb hab
  exact hpa a (List.mem_rotate.1 ha) b (List.mem_rotate.1 hb) hab

/-- `DMA_IN_PROGRESS`, with what the current item has left and the bytes of all later ones. -/
def Residue (ls : List DmaLli) (k : Nat) (cnt : BitVec 32) (s : DmaSys)
    (r : Option (DmaRet × DmaSys)) : Prop :=
  ∃ left, r = some ({ ret := dmaInProgress, leftSize := some left }, s) ∧
    left.toNat = cnt.toNat + lliBytes (ls.drop (k + 1))

/-- On a ring whose links differ: the residue is right where there is a second item, and the link
of the current one is not the mark of the end. -/
theorem txStatus_residue_iff (hcyc : (s.chans c).cyclic = true) (hpos : (s.chans c).periodsPos = 0)
    (hxs : s.descs c = some xs) (hnd : ((xs.map Prod.snd).map DmaLli.pLln).Nodup)
    {k : Nat} (hk : k < (xs.map Prod.snd).length)
    (hlt : cnt.toNat + lliBytes ((xs.map Prod.snd).drop (k + 1)) < 2 ^ 32) :
    Residue (xs.map Prod.snd) k cnt s
        (halDmaTxStatus (some c) true (xs.map Prod.snd)[k].pLln cnt s) ↔
      2 ≤ xs.length ∧ (xs.map Prod.snd)[k].pLln ≠ linkEnd := by
  have hdone : dmaComplete ≠ dmaInProgress := by decide
  have hzero : (0 : BitVec 32).toNat = 0 := rfl
  rw [halDmaTxStatus, if_pos hcyc, hxs, hpos]
  dsimp only
  rw [hzero]
  by_cases hone : skipPeriods 0 (xs.map Prod.snd) = []
  · rw [if_pos hone]
    have hlen := (skipPeriods_zero _).1 hone
    rw [List.length_map] at hlen
    apply iff_of_false
    · rintro ⟨left, hleft, -⟩
      exact hdone (congrArg (fun p => p.1.ret) (Option.some.inj hleft))
    · omega
  · rw [if_neg hone]
    have hlen := mt (skipPeriods_zero _).2 hone
    rw [List.length_map] at hlen
    by_cases hend : (xs.map Prod.snd)[k].pLln = linkEnd
    · rw [if_pos hend]
      apply iff_of_false
      · rintro ⟨left, hleft, -⟩
        exact hdone (congrArg (fun p => p.1.ret) (Option.some.inj hleft))
      · exact fun h => h.2 hend
    · rw [if_neg hend]
      exact iff_of_true ⟨_, rfl, residueLoop_current hnd hk hlt⟩ ⟨by omega, hend⟩

theorem ringDescs_bytes {as : List Addr} {ls : List DmaLli}
    (hls : (ringDescs (cyclicItem config bufAddr periodLen dir) as).map Prod.snd = ls)
    (hlen : as.length = cyclicPeriods bufLen periodLen) {k : Nat} (hk : k < ls.length)
    (hcnt : cnt ≤ ls[k].len) : cnt.toNat + lliBytes (ls.drop (k + 1)) < 2 ^ 32 := by
  have hitem : ∀ l ∈ ls, l.len.toNat ≤ periodLen.toNat := by
    intro l hl
    rw [← hls] at hl
    obtain ⟨x, hx, rfl⟩ := List.mem_map.1 hl
    obtain ⟨i, hi, rfl⟩ := List.mem_mapIdx.1 hx
    exact cyclicItem_len_le config bufAddr periodLen dir i
  have hn : ls.length = cyclicPeriods bufLen periodLen := by
    rw [← hls, List.length_map, ringDescs_length, hlen]
  have hcur : cnt.toNat ≤ periodLen.toNat :=
    Nat.le_trans (BitVec.le_def.1 hcnt) (hitem _ (List.getElem_mem hk))
  have hlater : lliBytes (ls.drop (k + 1)) ≤ (ls.length - (k + 1)) * periodLen.toNat := by
    rw [← List.length_drop]
    exact lliBytes_le fun l hl => hitem l (List.mem_of_mem_drop hl)
  have hfit : ls.length * periodLen.toNat ≤ bufLen.toNat := by
    rw [hn, cyclicPeriods, BitVec.toNat_udiv]
    exact Nat.div_mul_le_self _ _
  have hall : (ls.length - (k + 1) + 1) * periodLen.toNat ≤ ls.length * periodLen.toNat :=
    Nat.mul_le_mul_right _ (by omega)
  rw [Nat.succ_mul] at hall
  have := bufLen.isLt
  omega

/-- From the ring's preparation on, whatever calls and interrupts come that do not end it. -/
theorem txStatus_running_iff (h : exec dmaEvent (.init regs) evs = some (os, s))
    (hp : halDmaPrepCyclic (some c) bufAddr bufLen periodLen dir picks s = some (r, t))
    (hok : r.ret = halDmaStatusOk) (hpa : PaApart picks)
    (h' : exec dmaEvent t evs' = some (os', u)) (hq : ∀ e ∈ evs', ¬ DmaEvent.Ends c e) :
    ∃ xs, u.descs c = some xs ∧ xs.length = cyclicPeriods bufLen periodLen ∧
      ∀ k (hk : k < (xs.map Prod.snd).length) (cnt : BitVec 32), cnt ≤ (xs.map Prod.snd)[k].len →
        (Residue (xs.map Prod.snd) k cnt u
            (halDmaTxStatus (some c) true (xs.map Prod.snd)[k].pLln cnt u) ↔
          2 ≤ cyclicPeriods bufLen periodLen ∧ (xs.map Prod.snd)[k].pLln ≠ linkEnd) := by
  have hi := history_inv h
  obtain ⟨nodes, ho⟩ := hi.owns
  obtain ⟨hring, hlen, -⟩ := prepCyclic_ok ho hp hok
  have hit := hi.prepCyclic hp
  obtain ⟨hxs, hcyc, -⟩ := exec_kept hit h' hq hring.descs
  have hiu := exec_inv hit h'
  have hcyc' : (u.chans c).cyclic = true := by
    rw [hcyc, hring.chans, Function.update_self]
  have hlinks := ringDescs_links (cyclicItem (s.chans c).cfg bufAddr periodLen dir) hring.nodup
    fun a ha b hb => hpa a (List.mem_of_mem_take ha) b (List.mem_of_mem_take hb)
  have hn : (ringDescs (cyclicItem (s.chans c).cfg bufAddr periodLen dir)
      (picks.take (bufLen / periodLen).toNat)).length = cyclicPeriods bufLen periodLen := by
    rw [ringDescs_length, hlen, cyclicPeriods]
  refine ⟨_, hxs, hn, fun k hk cnt hcnt => ?_⟩
  have hbytes := ringDescs_bytes rfl hlen hk hcnt
  rw [← hn]
  exact txStatus_residue_iff hcyc' (hiu.tame c).periodsPos hxs hlinks hk hbytes

/-- The first of two periods, with three of its bytes left. -/
theorem txStatus_running_two_periods : ∃ r t xs,
    halDmaPrepCyclic (some 0) 0x1000 8 4 .memToDev [64, 128] (.init fun _ => 0) = some (r, t) ∧
      t.descs 0 = some xs ∧
      Residue (xs.map Prod.snd) 0 3 t (halDmaTxStatus (some 0) true 128 3 t) := by
  have hinit : exec dmaEvent (.init fun _ => 0) [] = some ([], .init fun _ => 0) := rfl
  have hpa : PaApart [64, 128] := by
    unfold PaApart
    decide
  have hsome : (halDmaPrepCyclic (some 0) 0x1000 8 4 .memToDev [64, 128] (.init fun _ => 0)).map
      (fun p => (p.1.ret, (p.2.descs 0).map fun xs => xs.map fun x => (x.2.pLln, x.2.len))) =
        some (halDmaStatusOk, some [(128, 4), (64, 4)]) := by decide
  obtain ⟨⟨r, t⟩, hp, hrt⟩ := Option.map_eq_some_iff.1 hsome
  have hok : r.ret = halDmaStatusOk := congrArg Prod.fst hrt
  have hempty : exec dmaEvent t [] = some ([], t) := rfl
  obtain ⟨xs, hxs, -, hres⟩ := txStatus_running_iff hinit hp hok hpa hempty
    fun e he => absurd he List.not_mem_nil
  have hdescs : (t.descs 0).map (fun xs => xs.map fun x => (x.2.pLln, x.2.len)) =
      some [(128, 4), (64, 4)] := congrArg Prod.snd hrt
  rw [hxs] at hdescs
  obtain ⟨x, ys, rfl, hx, -⟩ := List.map_eq_cons_iff.1 (Option.some.inj hdescs)
  have hlink : x.2.pLln = 128 := congrArg Prod.fst hx
  have hlen : x.2.len = 4 := congrArg Prod.snd hx
  have hcnt : (3 : BitVec 32) ≤ x.2.len := by
    rw [hlen]
    decide
  have hend : x.2.pLln ≠ linkEnd := by
    rw [hlink]
    decide
  have hfirst := (hres 0 (Nat.succ_pos _) 3 hcnt).2 ⟨by decide, hend⟩
  refine ⟨r, t, x :: ys, hp, hxs, ?_⟩
  rwa [← hlink]

/-- A ring of one period is reported complete before it is at its end: four bytes are left. -/
theorem txStatus_one_period :
    (exec dmaEvent (.init fun _ => 0)
      [.call .request, .call (.prepCyclic (some 0) 0x1000 4 4 .memToDev [64]),
        .call (.start (some 0)), .call (.txStatus (some 0) true 64 4)]).map
      (fun r => (r.1.getLast?, (r.2.descs 0).map fun xs => xs.map fun x => (x.2.pLln, x.2.len))) =
      some (some (.ret { ret := dmaComplete, leftSize := some 0 }), some [(64, 4)]) := by
  decide

end D1Flash
