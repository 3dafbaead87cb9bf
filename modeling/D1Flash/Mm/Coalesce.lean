import D1Flash.Mm.Initialize

namespace D1Flash
set_option autoImplicit true

/-! What calls keep of the chunks as a whole. -/

variable {cs cs' l m r : List Chunk} {c : Chunk}

theorem coalesced_mid : Coalesced (l ++ (m ++ r)) ↔ Coalesced l ∧ Coalesced m ∧ Coalesced r ∧
    (∀ c ∈ m.getLast?, ∀ d ∈ r.head?, c.alloc = true ∨ d.alloc = true) ∧
      ∀ c ∈ l.getLast?, ∀ d ∈ (m ++ r).head?, c.alloc = true ∨ d.alloc = true := by
  rw [Coalesced, List.isChain_append, List.isChain_append]
  constructor
  · rintro ⟨hl, ⟨hm, hr, hmr⟩, hlm⟩
    exact ⟨hl, hm, hr, hmr, hlm⟩
  · rintro ⟨hl, hm, hr, hmr, hlm⟩
    exact ⟨hl, ⟨hm, hr, hmr⟩, hlm⟩

theorem Coalesced.beside (hco : Coalesced (l ++ ([c] ++ r))) (hfree : c.alloc = false) :
    Busy l.getLast? ∧ Busy r.head? := by
  obtain ⟨-, -, -, hr, hl⟩ := coalesced_mid.1 hco
  have hne : ¬ c.alloc = true := by
    rw [hfree]
    exact Bool.false_ne_true
  exact ⟨fun d hd => (hl d hd c rfl).resolve_right hne, fun d hd =>
    (hr c rfl d hd).resolve_left hne⟩

theorem Takes.coalesced (ht : Takes size cs p cs') (hco : Coalesced cs) : Coalesced cs' := by
  cases ht with
  | none => exact hco
  | @take l c r hfree hsize hbest =>
    obtain ⟨hl, -, hr, -, -⟩ := coalesced_mid.1 hco
    obtain ⟨-, hbr⟩ := hco.beside hfree
    rw [Chunk.taken]
    split
    · refine coalesced_mid.2 ⟨hl, .cons_cons (.inl rfl) (.singleton _), hr, ?_, ?_⟩
      · exact fun d _ e he => .inr (hbr e he)
      · rintro d - e he
        cases he
        exact .inr rfl
    · refine coalesced_mid.2 ⟨hl, .singleton _, hr, ?_, ?_⟩
      · rintro d hd - -
        cases hd
        exact .inl rfl
      · rintro d - e he
        cases he
        exact .inr rfl

theorem joinPrev_fst (hl : Coalesced l) (c : Chunk) :
    Coalesced (joinPrev l c).1 ∧ Busy (joinPrev l c).1.getLast? := by
  rcases List.eq_nil_or_concat l with rfl | ⟨l, p, rfl⟩
  · exact ⟨hl, fun d hd => (Option.not_mem_none d hd).elim⟩
  · rw [List.concat_eq_append] at hl ⊢
    rw [joinPrev, List.getLast?_concat]
    dsimp only
    cases hp : p.alloc with
    | true =>
      refine ⟨hl, fun e he => ?_⟩
      rw [if_pos rfl, List.getLast?_concat] at he
      cases he
      exact hp
    | false =>
      obtain ⟨hl', -, hlast⟩ := List.isChain_append.1 hl
      rw [if_neg Bool.false_ne_true, List.dropLast_concat]
      refine ⟨hl', fun e he => (hlast e he p rfl).resolve_right ?_⟩
      rw [hp]
      exact Bool.false_ne_true

theorem release_coalesced (hco : Coalesced (l ++ ([c] ++ r))) : Coalesced (release l c r) := by
  obtain ⟨hl, -, hr, -, -⟩ := coalesced_mid.1 hco
  rw [release]
  generalize ({ c with alloc := false } : Chunk) = d
  obtain ⟨hn, hnb⟩ := MmHeap.joinNext_snd hr d
  obtain ⟨hp, hpb⟩ := joinPrev_fst hl (joinNext d r).1
  refine coalesced_mid.2 ⟨hp, .singleton _, hn, ?_, ?_⟩
  · exact fun d _ e he => .inr (hnb e he)
  · exact fun d hd e _ => .inl (hpb d hd)

/-- The chunks in use: a call to take adds one, a call to give back takes one away. -/
theorem Takes.used (ht : Takes size cs p cs') (hp : p ≠ 0) : ∃ d, d.alloc = true ∧
    p = d.addr + sizeofMmAllocnode ∧ size ≤ d.size ∧ (∃ c ∈ cs, c.alloc = false ∧ c.addr = d.addr) ∧
      ∀ x, x.alloc = true → (x ∈ cs' ↔ x = d ∨ x ∈ cs) := by
  cases ht with
  | none => exact (hp rfl).elim
  | @take l c r hfree hsize hbest =>
    have hc : c ∈ l ++ ([c] ++ r) := List.mem_append_right _ List.mem_cons_self
    have hne : ∀ x : Chunk, x.alloc = true → x ≠ c := by
      rintro x hx rfl
      rw [hfree] at hx
      cases hx
    rw [Chunk.taken]
    split
    · refine ⟨⟨c.addr, size, true⟩, rfl, rfl, Nat.le_refl size, ⟨c, hc, hfree, rfl⟩, fun x hx => ?_⟩
      have hxc := hne x hx
      have hrest : x ≠ ⟨c.addr + size, c.size - size, false⟩ := by
        rintro rfl
        cases hx
      simp only [List.mem_append, List.mem_cons, List.not_mem_nil, or_false, hxc, hrest, false_or]
      exact or_left_comm
    · refine ⟨{ c with alloc := true }, rfl, rfl, hsize, ⟨c, hc, hfree, rfl⟩, fun x hx => ?_⟩
      have hxc := hne x hx
      simp only [List.mem_append, List.mem_cons, List.not_mem_nil, or_false, hxc, false_or]
      exact or_left_comm

/-- A chunk is found exactly where the largest free one is large enough. -/
theorem Takes.found_iff (ht : Takes size cs p cs') (hsize : 0 < size) :
    p ≠ 0 ↔ size ≤ largest cs := by
  rw [MmHeap.le_largest hsize]
  cases ht with
  | none hnone =>
    exact iff_of_false (fun h => h rfl) fun ⟨c, hc, ha, hle⟩ => Nat.not_le.2 (hnone c hc ha) hle
  | @take l c r hfree hle hbest =>
    have hc : c ∈ l ++ ([c] ++ r) := List.mem_append_right _ List.mem_cons_self
    exact iff_of_true (Nat.succ_ne_zero _) ⟨c, hc, hfree, hle⟩

theorem joinNext_used (c : Chunk) (hx : x.alloc = true) : x ∈ (joinNext c r).2 ↔ x ∈ r := by
  cases r with
  | nil => exact Iff.rfl
  | cons d r =>
    rw [joinNext]
    cases hd : d.alloc with
    | true => exact Iff.rfl
    | false =>
      rw [if_neg Bool.false_ne_true, List.mem_cons]
      refine ⟨.inr, fun h => h.resolve_left ?_⟩
      rintro rfl
      rw [hd] at hx
      cases hx

theorem joinPrev_used (c : Chunk) (hx : x.alloc = true) : x ∈ (joinPrev l c).1 ↔ x ∈ l := by
  rcases List.eq_nil_or_concat l with rfl | ⟨l, p, rfl⟩
  · exact Iff.rfl
  · rw [List.concat_eq_append, joinPrev, List.getLast?_concat]
    dsimp only
    cases hp : p.alloc with
    | true => exact Iff.rfl
    | false =>
      rw [if_neg Bool.false_ne_true, List.dropLast_concat, List.mem_append, List.mem_singleton]
      refine ⟨.inl, fun h => h.resolve_right ?_⟩
      rintro rfl
      rw [hp] at hx
      cases hx

theorem release_used (c : Chunk) (hx : x.alloc = true) : x ∈ release l c r ↔ x ∈ l ++ r := by
  rw [release]
  generalize hd : ({ c with alloc := false } : Chunk) = d
  have hda : d.alloc = false := by rw [← hd]
  have hne : x ≠ (joinPrev l (joinNext d r).1).2 := by
    rintro rfl
    rw [MmHeap.joinPrev_snd (MmHeap.joinNext_fst hda).1 l] at hx
    cases hx
  rw [List.mem_append, List.mem_append, joinPrev_used _ hx, joinNext_used _ hx, List.mem_singleton,
    List.mem_append, or_iff_right hne]

end D1Flash
