import D1Flash.Lib.Loops

namespace Links
open Loops (whileLoop whileLoop_done whileLoop_more)
set_option autoImplicit true

variable {α : Type} {next prev next' prev' : α → α} {e : α}

/-- The list is linked in both directions, and its last node leads to `e`. -/
def Linked (next prev : α → α) (e : α) : List α → Prop
  | [] => True
  | a :: l => next a = l.headD e ∧ (∀ b ∈ l.head?, prev b = a) ∧ Linked next prev e l

theorem linked_append : Linked next prev e (l ++ r) ↔ Linked next prev (r.headD e) l ∧
    (∀ a ∈ l.getLast?, ∀ b ∈ r.head?, prev b = a) ∧ Linked next prev e r := by
  induction l with
  | nil => simp [Linked]
  | cons a l ih =>
    cases l with
    | nil => simp [Linked]
    | cons b l =>
      rw [List.cons_append, Linked, Linked, ih, List.getLast?_cons_cons]
      constructor
      · rintro ⟨hn, hp, hl, hs, hr⟩
        exact ⟨⟨hn, hp, hl⟩, hs, hr⟩
      · rintro ⟨⟨hn, hp, hl⟩, hs, hr⟩
        exact ⟨hn, hp, hl, hs, hr⟩

theorem linked_range (f : Nat → α) (hn : ∀ i, s ≤ i → i + 1 < s + n → next (f i) = f (i + 1))
    (hp : ∀ i, s ≤ i → i + 1 < s + n → prev (f (i + 1)) = f i)
    (he : ∀ i, i + 1 = s + n → next (f i) = e) :
    Linked next prev e ((List.range' s n).map f) := by
  induction n generalizing s with
  | zero => trivial
  | succ n ih =>
    rw [List.range'_succ, List.map_cons]
    refine ⟨?_, ?_, ih (fun i hi hi' => hn i (by omega) (by omega))
      (fun i hi hi' => hp i (by omega) (by omega)) fun i hi => he i (by omega)⟩
    · cases n with
      | zero => exact he s rfl
      | succ n => exact hn s (Nat.le_refl s) (by omega)
    · cases n with
      | zero => exact fun b hb => (Option.not_mem_none b hb).elim
      | succ n =>
        intro b hb
        cases hb
        exact hp s (Nat.le_refl s) (by omega)

theorem Linked.congr (h : Linked next prev e l) (hn : ∀ a ∈ l, next' a = next a)
    (hp : ∀ a ∈ l.tail, prev' a = prev a) : Linked next' prev' e l := by
  induction l with
  | nil => trivial
  | cons a l ih =>
    obtain ⟨hnext, hprev, hl⟩ := h
    refine ⟨(hn a List.mem_cons_self).trans hnext, fun b hb => ?_, ih hl ?_ ?_⟩
    · exact (hp b (List.mem_of_mem_head? hb)).trans (hprev b hb)
    · exact fun b hb => hn b (List.mem_cons_of_mem a hb)
    · exact fun b hb => hp b (List.mem_of_mem_tail hb)

/-- The part up to a node, where the forward link of that node is the only one that changed. -/
theorem Linked.retarget (h : Linked next prev e (l ++ [x])) (hx : next' x = e')
    (hn : ∀ a ∈ l, next' a = next a) (hp : ∀ a ∈ l ++ [x], prev' a = prev a) :
    Linked next' prev' e' (l ++ [x]) := by
  obtain ⟨hl, hseam, -⟩ := linked_append.1 h
  refine linked_append.2 ⟨?_, ?_, hx, fun b hb => ?_, trivial⟩
  · refine (hl.congr hn fun a ha => ?_)
    exact hp a (List.mem_append_left _ (List.mem_of_mem_tail ha))
  · intro a ha b hb
    cases hb
    rw [hp x (by simp)]
    exact hseam a ha x rfl
  · cases hb

/-- Around a seam, the nodes but for the one before it, and the nodes but for the one after it. -/
theorem nodup_seam (hd : (l ++ x :: r).Nodup) :
    (∀ a ∈ l ++ r, a ≠ x) ∧ ∀ a ∈ (l ++ [x]) ++ r.tail, a ∉ r.head? := by
  obtain ⟨-, hxr, hlr⟩ := List.nodup_append.1 hd
  obtain ⟨hx, hr⟩ := List.nodup_cons.1 hxr
  constructor
  · rintro a ha rfl
    rcases List.mem_append.1 ha with ha | ha
    · exact hlr a ha a List.mem_cons_self rfl
    · exact hx ha
  · intro a ha hz
    have har := List.mem_of_mem_head? hz
    rcases List.mem_append.1 ha with ha | ha
    · rcases List.mem_append.1 ha with ha | ha
      · exact hlr a ha a (List.mem_cons_of_mem x har) rfl
      · cases List.mem_singleton.1 ha
        exact hx har
    · cases r with
      | nil => cases har
      | cons z r =>
        cases hz
        exact (List.nodup_cons.1 hr).1 ha

/-- A node is taken out by the links of its neighbours. -/
theorem Linked.unlink (h : Linked next prev e (l ++ x :: y :: r)) (hd : (l ++ x :: r).Nodup)
    (hx : next' x = r.headD e) (hz : ∀ z ∈ r.head?, prev' z = x)
    (hn : ∀ a ∈ l ++ r, a ≠ x → next' a = next a)
    (hp : ∀ a ∈ (l ++ [x]) ++ r.tail, a ∉ r.head? → prev' a = prev a) :
    Linked next' prev' e (l ++ x :: r) := by
  obtain ⟨hne, hnh⟩ := nodup_seam hd
  have hn' := fun a ha => hn a ha (hne a ha)
  have hp' := fun a ha => hp a ha (hnh a ha)
  rw [List.append_cons] at h ⊢
  obtain ⟨hl, -, -, -, hr⟩ := linked_append.1 h
  refine linked_append.2 ⟨hl.retarget hx ?_ ?_, ?_, hr.congr ?_ ?_⟩
  · exact fun a ha => hn' a (List.mem_append_left _ ha)
  · exact fun a ha => hp' a (List.mem_append_left _ ha)
  · intro a ha z hz'
    rw [List.getLast?_concat] at ha
    cases ha
    exact hz z hz'
  · exact fun a ha => hn' a (List.mem_append_right _ ha)
  · exact fun a ha => hp' a (List.mem_append_right _ ha)

/-- A node is put in by its own links and those of its neighbours. -/
theorem Linked.link (h : Linked next prev e (l ++ x :: r)) (hd : (l ++ x :: r).Nodup)
    (hx : next' x = y) (hy : prev' y = x) (hy' : next' y = r.headD e)
    (hz : ∀ z ∈ r.head?, prev' z = y) (hn : ∀ a ∈ l ++ r, a ≠ x → next' a = next a)
    (hp : ∀ a ∈ (l ++ [x]) ++ r.tail, a ∉ r.head? → prev' a = prev a) :
    Linked next' prev' e (l ++ x :: y :: r) := by
  obtain ⟨hne, hnh⟩ := nodup_seam hd
  have hn' := fun a ha => hn a ha (hne a ha)
  have hp' := fun a ha => hp a ha (hnh a ha)
  rw [List.append_cons] at h ⊢
  obtain ⟨hl, -, hr⟩ := linked_append.1 h
  refine linked_append.2 ⟨hl.retarget hx ?_ ?_, ?_, hy', hz, hr.congr ?_ ?_⟩
  · exact fun a ha => hn' a (List.mem_append_left _ ha)
  · exact fun a ha => hp' a (List.mem_append_left _ ha)
  · intro a ha b hb
    rw [List.getLast?_concat] at ha
    cases ha
    cases hb
    exact hy
  · exact fun a ha => hn' a (List.mem_append_right _ ha)
  · exact fun a ha => hp' a (List.mem_append_right _ ha)

theorem walk_linked {more : α → Bool} (h : Linked next prev e l) (he : more e = false)
    (hf : l.length ≤ fuel) :
    whileLoop more next fuel (l.headD e) = some ((l.dropWhile more).headD e) := by
  induction l generalizing fuel with
  | nil => exact whileLoop_done he fuel
  | cons a l ih =>
    cases hm : more a with
    | false =>
      rw [List.dropWhile_cons_of_neg (by rw [hm]; exact Bool.false_ne_true)]
      exact whileLoop_done hm fuel
    | true =>
      rw [List.dropWhile_cons_of_pos hm]
      cases fuel with
      | zero => cases hf
      | succ fuel =>
        rw [List.headD_cons, whileLoop_more hm, h.1]
        exact ih h.2.2 (Nat.le_of_succ_le_succ hf)

theorem walk_pairs {more : α → Bool} (h : Linked next prev e l) (he : more e = false)
    (hf : l.length ≤ fuel) (a : α) :
    whileLoop (fun p : α × α => more p.2) (fun p => (p.2, next p.2)) fuel (a, l.headD e) =
      some ((l.takeWhile more).getLast?.getD a, (l.dropWhile more).headD e) := by
  induction l generalizing fuel a with
  | nil => exact whileLoop_done (s := (a, e)) he fuel
  | cons b l ih =>
    cases hm : more b with
    | false =>
      have hneg : ¬ more b = true := by rw [hm]; exact Bool.false_ne_true
      rw [List.dropWhile_cons_of_neg hneg, List.takeWhile_cons_of_neg hneg]
      exact whileLoop_done (s := (a, b)) hm fuel
    | true =>
      rw [List.dropWhile_cons_of_pos hm, List.takeWhile_cons_of_pos hm]
      cases fuel with
      | zero => cases hf
      | succ fuel =>
        rw [List.headD_cons, whileLoop_more (s := (a, b)) hm, h.1,
          ih h.2.2 (Nat.le_of_succ_le_succ hf), List.getLast?_cons]
        rfl

end Links
