import D1Flash.Lib.NorArray

namespace NorArray
set_option autoImplicit true

/-- Writes and erases that are held back from an array of cells. -/
structure Overlay (β : Type) where
  buf : Nat → β
  dirty : Nat → Bool
  pending : Nat → Bool

namespace Overlay

def write (o : Overlay β) (a : Nat) (d : List β) : Overlay β where
  buf := put o.buf a d
  dirty i := o.dirty i || decide (a ≤ i ∧ i < a + d.length)
  pending := o.pending

def erase (o : Overlay β) (a n : Nat) : Overlay β where
  buf := o.buf
  dirty := o.dirty
  pending i := o.pending i || decide (a ≤ i ∧ i < a + n)

theorem write_dirty_inside (o : Overlay β) (h : a ≤ i) (h' : i < a + d.length) :
    (o.write a d).dirty i = true := by
  simp only [write, decide_eq_true (And.intro h h'), Bool.or_true]

theorem write_dirty_outside (o : Overlay β) (h : ¬ (a ≤ i ∧ i < a + d.length)) :
    (o.write a d).dirty i = o.dirty i := by
  simp only [write, decide_eq_false h, Bool.or_false]

theorem erase_pending_inside (o : Overlay β) (h : a ≤ i) (h' : i < a + n) :
    (o.erase a n).pending i = true := by
  simp only [erase, decide_eq_true (And.intro h h'), Bool.or_true]

theorem erase_pending_outside (o : Overlay β) (h : ¬ (a ≤ i ∧ i < a + n)) :
    (o.erase a n).pending i = o.pending i := by
  simp only [erase, decide_eq_false h, Bool.or_false]

variable [NorCell β]

/-- The cells once the pending erases are done. -/
def base (o : Overlay β) (m : Nat → β) : Nat → β :=
  fun i => if o.pending i then erased else m i

/-- The cells once everything is written back: erases first, then programs. -/
def flushed (o : Overlay β) (m : Nat → β) : Nat → β :=
  fun i => if o.dirty i then meet (o.base m i) (o.buf i) else o.base m i

/-- The cells as a reader of the overlay sees them. -/
def view (o : Overlay β) (m : Nat → β) : Nat → β :=
  fun i => if o.dirty i then o.buf i else o.base m i

/-- Every dirty cell can still be programmed. -/
def Programmable (o : Overlay β) (m : Nat → β) : Prop :=
  ∀ i, o.dirty i → meet (o.base m i) (o.buf i) = o.buf i

def Clean (o : Overlay β) : Prop := ∀ i, o.dirty i = false ∧ o.pending i = false

/-- A cell that is erased and over which no data is held. -/
def Blank (o : Overlay β) (m : Nat → β) (i : Nat) : Prop :=
  m i = erased ∧ (o.dirty i = true → o.buf i = erased)

/-- The overlay when its erases are written back. -/
def erasesDone (o : Overlay β) : Overlay β := { o with pending := fun _ => false }

theorem base_of_pending (o : Overlay β) (m : Nat → β) (h : o.pending i = true) :
    o.base m i = erased := if_pos h

theorem base_of_not_pending (o : Overlay β) (m : Nat → β) (h : o.pending i = false) :
    o.base m i = m i := by
  rw [base, h]
  exact if_neg Bool.false_ne_true

theorem view_of_dirty (o : Overlay β) (m : Nat → β) (h : o.dirty i = true) :
    o.view m i = o.buf i := if_pos h

theorem view_of_not_dirty (o : Overlay β) (m : Nat → β) (h : o.dirty i = false) :
    o.view m i = o.base m i := by
  rw [view, h]
  exact if_neg Bool.false_ne_true

theorem flushed_of_dirty (o : Overlay β) (m : Nat → β) (h : o.dirty i = true) :
    o.flushed m i = meet (o.base m i) (o.buf i) := if_pos h

theorem flushed_of_not_dirty (o : Overlay β) (m : Nat → β) (h : o.dirty i = false) :
    o.flushed m i = o.base m i := by
  rw [flushed, h]
  exact if_neg Bool.false_ne_true

theorem Clean.flushed {o : Overlay β} (h : o.Clean) (m : Nat → β) : o.flushed m = m := by
  funext i
  rw [o.flushed_of_not_dirty m (h i).1, o.base_of_not_pending m (h i).2]

theorem Clean.view {o : Overlay β} (h : o.Clean) (m : Nat → β) : o.view m = m := by
  funext i
  rw [o.view_of_not_dirty m (h i).1, o.base_of_not_pending m (h i).2]

theorem Clean.programmable {o : Overlay β} (h : o.Clean) (m : Nat → β) : o.Programmable m := by
  intro i hi
  rw [(h i).1] at hi
  cases hi

theorem Clean.blank {o : Overlay β} (h : o.Clean) (he : m i = erased) : o.Blank m i := by
  refine ⟨he, ?_⟩
  intro hd
  rw [(h i).1] at hd
  cases hd

theorem Blank.base {o : Overlay β} (h : o.Blank m i) : o.base m i = erased := by
  cases hp : o.pending i with
  | true => exact o.base_of_pending m hp
  | false => exact (o.base_of_not_pending m hp).trans h.1

theorem Blank.view {o : Overlay β} (h : o.Blank m i) : o.view m i = erased := by
  cases hd : o.dirty i with
  | true => exact (o.view_of_dirty m hd).trans (h.2 hd)
  | false => exact (o.view_of_not_dirty m hd).trans h.base

theorem Blank.flushed {o : Overlay β} (h : o.Blank m i) : o.flushed m i = erased := by
  cases hd : o.dirty i with
  | true => rw [o.flushed_of_dirty m hd, h.base, h.2 hd, NorCell.meet_self]
  | false => exact (o.flushed_of_not_dirty m hd).trans h.base

theorem Programmable.flushed {o : Overlay β} (h : o.Programmable m) : o.flushed m = o.view m := by
  funext i
  cases hd : o.dirty i with
  | true => rw [o.flushed_of_dirty m hd, o.view_of_dirty m hd, h i hd]
  | false => rw [o.flushed_of_not_dirty m hd, o.view_of_not_dirty m hd]

theorem programmable_iff (o : Overlay β) (m : Nat → β) :
    o.Programmable m ↔ ∀ i, o.dirty i = true → o.flushed m i = o.buf i := by
  refine forall_congr' fun i => forall_congr' fun hd => ?_
  rw [o.flushed_of_dirty m hd]

/-- Whether the dirty cells can be programmed only depends on what a flush will leave. -/
theorem Programmable.of_flushed {o o' : Overlay β} (h : o.Programmable m)
    (hf : o'.flushed m' = o.flushed m) (hd : o'.dirty = o.dirty) (hb : o'.buf = o.buf) :
    o'.Programmable m' := by
  rw [programmable_iff] at h ⊢
  intro i hi
  rw [hf, hb]
  exact h i (hd ▸ hi)

/-- Some pending cells have been erased. -/
def Erasing (o : Overlay β) (m m' : Nat → β) : Prop :=
  ∀ i, m' i = m i ∨ o.pending i = true ∧ m' i = erased

/-- Some dirty cells have been programmed. -/
def Writing (o : Overlay β) (m m' : Nat → β) : Prop :=
  ∀ i, m' i = m i ∨ o.dirty i = true ∧ m' i = meet (m i) (o.buf i)

theorem Erasing.refl (o : Overlay β) (m : Nat → β) : o.Erasing m m := by
  intro i
  exact .inl rfl

theorem Erasing.trans {o : Overlay β} (h : o.Erasing m m') (h' : o.Erasing m' m'') :
    o.Erasing m m'' := by
  intro i
  cases h' i with
  | inl he =>
    rw [he]
    exact h i
  | inr he => exact .inr he

theorem Erasing.erased {o : Overlay β} (h : o.Erasing m m') (he : m i = NorCell.erased) :
    m' i = NorCell.erased := by
  cases h i with
  | inl h => exact h.trans he
  | inr h => exact h.2

theorem Erasing.blank {o : Overlay β} (h : o.Erasing m m') (hb : o.Blank m i) : o.Blank m' i :=
  ⟨h.erased hb.1, hb.2⟩

theorem Erasing.base {o : Overlay β} (h : o.Erasing m m') : o.base m' = o.base m := by
  funext i
  cases hp : o.pending i with
  | true => rw [o.base_of_pending m hp, o.base_of_pending m' hp]
  | false =>
    rw [o.base_of_not_pending m hp, o.base_of_not_pending m' hp]
    cases h i with
    | inl h => exact h
    | inr h =>
      rw [hp] at h
      cases h.1

theorem Erasing.flushed {o : Overlay β} (h : o.Erasing m m') : o.flushed m' = o.flushed m := by
  funext i
  rw [Overlay.flushed, Overlay.flushed, h.base]

theorem erasing_erase (o : Overlay β) (m : Nat → β)
    (h : ∀ i, a ≤ i → i < a + n → o.pending i = true) : o.Erasing m (NorArray.erase m a n) := by
  intro i
  by_cases hi : a ≤ i ∧ i < a + n
  · exact .inr ⟨h i hi.1 hi.2, erase_inside m hi.1 hi.2⟩
  · exact .inl (erase_outside m (by omega))

theorem Erasing.done {o : Overlay β} (h : o.Erasing m m')
    (hall : ∀ i, o.pending i = true → m' i = NorCell.erased) :
    m' = o.base m ∧ o.erasesDone.flushed m' = o.flushed m := by
  have hm : m' = o.base m := by
    funext i
    cases hp : o.pending i with
    | true => rw [hall i hp, o.base_of_pending m hp]
    | false => rw [← h.base, o.base_of_not_pending m' hp]
  refine ⟨hm, ?_⟩
  funext i
  rw [Overlay.flushed, Overlay.flushed, hm, o.erasesDone.base_of_not_pending _ rfl]
  rfl

theorem Writing.refl (o : Overlay β) (m : Nat → β) : o.Writing m m := by
  intro i
  exact .inl rfl

theorem meet_meet_self (x y : β) : meet (meet x y) y = meet x y := by
  rw [NorCell.meet_assoc, NorCell.meet_self]

theorem Writing.trans {o : Overlay β} (h : o.Writing m m') (h' : o.Writing m' m'') :
    o.Writing m m'' := by
  intro i
  cases h' i with
  | inl he =>
    rw [he]
    exact h i
  | inr he =>
    refine .inr ⟨he.1, ?_⟩
    cases h i with
    | inl hm => rw [he.2, hm]
    | inr hm => rw [he.2, hm.2, meet_meet_self]

theorem Writing.programmed {o : Overlay β} {m : Nat → β} (h : o.Writing m' m'')
    (hm : m' i = meet (m i) (o.buf i)) : m'' i = meet (m i) (o.buf i) := by
  cases h i with
  | inl h => exact h.trans hm
  | inr h => rw [h.2, hm, meet_meet_self]

theorem Writing.blank {o : Overlay β} (h : o.Writing m m') (hb : o.Blank m i) : o.Blank m' i := by
  refine ⟨?_, hb.2⟩
  cases h i with
  | inl h => exact h.trans hb.1
  | inr h => rw [h.2, hb.1, hb.2 h.1, NorCell.meet_self]

/-- Writing back after the erases keeps what the flush is to leave. -/
theorem Writing.flushed {o : Overlay β} (h : o.Writing m m') (hp : ∀ i, o.pending i = false) :
    o.flushed m' = o.flushed m := by
  funext i
  cases hd : o.dirty i with
  | true =>
    rw [o.flushed_of_dirty m hd, o.flushed_of_dirty m' hd, o.base_of_not_pending m (hp i),
      o.base_of_not_pending m' (hp i)]
    cases h i with
    | inl h => rw [h]
    | inr h => rw [h.2, meet_meet_self]
  | false =>
    rw [o.flushed_of_not_dirty m hd, o.flushed_of_not_dirty m' hd, o.base_of_not_pending m (hp i),
      o.base_of_not_pending m' (hp i)]
    cases h i with
    | inl h => exact h
    | inr h =>
      rw [hd] at h
      cases h.1

theorem writing_program (o : Overlay β) (m : Nat → β) (hk : k ≤ n)
    (h : ∀ i, a ≤ i → i < a + n → o.dirty i = true) :
    o.Writing m (program m a ((slice o.buf a n).take k)) := by
  intro i
  by_cases hi : a ≤ i ∧ i < a + k
  · refine .inr ⟨h i hi.1 (by omega), ?_⟩
    rw [program_inside m hi.1, List.getD_eq_getElem _ _
      (by rw [List.length_take, slice_length]; omega), List.getElem_take, slice_getElem]
    congr 2
    omega
  · exact .inl (program_outside m (by rw [List.length_take, slice_length]; omega))

theorem program_slice (o : Overlay β) (m : Nat → β) (h : a ≤ i) (h' : i < a + n) :
    program m a (slice o.buf a n) i = meet (m i) (o.buf i) := by
  rw [program_inside m h, List.getD_eq_getElem _ _ (by rw [slice_length]; omega), slice_getElem]
  congr 2
  omega

theorem Writing.done {o : Overlay β} (h : o.Writing m m') (hp : ∀ i, o.pending i = false)
    (hall : ∀ i, o.dirty i = true → m' i = meet (m i) (o.buf i)) : m' = o.flushed m := by
  funext i
  cases hd : o.dirty i with
  | true => rw [hall i hd, o.flushed_of_dirty m hd, o.base_of_not_pending m (hp i)]
  | false =>
    rw [o.flushed_of_not_dirty m hd, o.base_of_not_pending m (hp i)]
    cases h i with
    | inl h => exact h
    | inr h =>
      rw [hd] at h
      cases h.1

theorem base_write (o : Overlay β) (m : Nat → β) : (o.write a d).base m = o.base m := rfl

/-- A held-back write shows at once. -/
theorem view_write (o : Overlay β) (m : Nat → β) : (o.write a d).view m = put (o.view m) a d := by
  funext i
  by_cases hi : a ≤ i ∧ i < a + d.length
  · rw [view_of_dirty _ m (o.write_dirty_inside hi.1 hi.2), put_inside _ hi.1 (by omega)]
    exact put_inside _ hi.1 (by omega)
  · rw [put_outside _ (by omega), view, view, o.write_dirty_outside hi, base_write]
    simp only [write, put_outside o.buf (show i < a ∨ a + d.length ≤ i by omega)]

theorem Programmable.write {o : Overlay β} (h : o.Programmable m)
    (hd : ∀ i, a ≤ i → i < a + d.length → meet (o.base m i) (put o.buf a d i) = put o.buf a d i) :
    (o.write a d).Programmable m := by
  intro i hi
  by_cases hin : a ≤ i ∧ i < a + d.length
  · exact hd i hin.1 hin.2
  · rw [o.write_dirty_outside hin] at hi
    rw [base_write]
    simp only [Overlay.write, put_outside o.buf (show i < a ∨ a + d.length ≤ i by omega)]
    exact h i hi

theorem base_erase (o : Overlay β) (m : Nat → β) :
    (o.erase a n).base m = NorArray.erase (o.base m) a n := by
  funext i
  by_cases hi : a ≤ i ∧ i < a + n
  · rw [base_of_pending _ m (o.erase_pending_inside hi.1 hi.2), erase_inside _ hi.1 hi.2]
  · rw [erase_outside _ (by omega), base, base, o.erase_pending_outside hi]

/-- A held-back erase shows at once, except over dirty cells that hold data. -/
theorem view_erase (o : Overlay β) (m : Nat → β)
    (h : ∀ i, a ≤ i → i < a + n → o.dirty i = true → o.buf i = erased) :
    (o.erase a n).view m = NorArray.erase (o.view m) a n := by
  funext i
  have hdirty : (o.erase a n).dirty i = o.dirty i := rfl
  by_cases hi : a ≤ i ∧ i < a + n
  · rw [erase_inside _ hi.1 hi.2]
    cases hd : o.dirty i with
    | true => exact (view_of_dirty _ m (hdirty.trans hd)).trans (h i hi.1 hi.2 hd)
    | false =>
      rw [view_of_not_dirty _ m (hdirty.trans hd), base_erase, erase_inside _ hi.1 hi.2]
  · rw [erase_outside _ (by omega), view, view, hdirty, base_erase, erase_outside _ (by omega)]
    rfl

theorem Programmable.erase {o : Overlay β} (h : o.Programmable m) :
    (o.erase a n).Programmable m := by
  intro i hi
  rw [base_erase]
  by_cases hin : a ≤ i ∧ i < a + n
  · rw [erase_inside _ hin.1 hin.2, erased_meet]
  · rw [erase_outside _ (by omega)]
    exact h i hi

theorem Programmable.view_eq {o o' : Overlay β} (h : o.Programmable m) (h' : o'.Programmable m')
    (hf : o'.flushed m' = o.flushed m) : o'.view m' = o.view m := by
  rw [← h.flushed, ← h'.flushed, hf]

theorem Programmable.base_erased {o : Overlay β} (h : o.Programmable m)
    (he : o.view m i = erased) : o.base m i = erased := by
  cases hd : o.dirty i with
  | true =>
    have hp := h i hd
    rw [o.view_of_dirty m hd] at he
    rw [he, NorCell.meet_erased] at hp
    exact hp
  | false =>
    rw [o.view_of_not_dirty m hd] at he
    exact he

theorem view_erase_below (o : Overlay β) (m : Nat → β) (hp : ∀ i, o.pending i = false)
    (h : ∀ i, a ≤ i → i < a + n → o.dirty i = true → o.buf i = erased) :
    o.view (NorArray.erase m a n) = NorArray.erase (o.view m) a n := by
  have hbase : ∀ m, o.base m = m := by
    intro m
    funext i
    exact o.base_of_not_pending m (hp i)
  have he : o.view (NorArray.erase m a n) = (o.erase a n).view m := by
    funext i
    rw [view, view, base_erase, hbase, hbase]
    rfl
  rw [he, view_erase o m h]

theorem Programmable.erase_below {o : Overlay β} (h : o.Programmable m)
    (hp : ∀ i, o.pending i = false) : o.Programmable (NorArray.erase m a n) := by
  intro i hi
  have hm := h i hi
  rw [o.base_of_not_pending _ (hp i)] at hm ⊢
  by_cases hin : a ≤ i ∧ i < a + n
  · rw [erase_inside _ hin.1 hin.2, erased_meet]
  · rw [erase_outside _ (by omega)]
    exact hm

/-- A call leaves a cell alone: what a flush leaves there, and that it is blank. -/
structure Frame (o o' : Overlay β) (m m' : Nat → β) (i : Nat) : Prop where
  flushed : o'.flushed m' i = o.flushed m i
  blank : o.Blank m i → o'.Blank m' i

theorem Frame.trans {o o' o'' : Overlay β} (h : Frame o o' m m' i) (h' : Frame o' o'' m' m'' i) :
    Frame o o'' m m'' i :=
  ⟨h'.flushed.trans h.flushed, h'.blank ∘ h.blank⟩

theorem Clean.frame {o o' : Overlay β} (h : o'.Clean) (hm : m' i = o.flushed m i) :
    Frame o o' m m' i where
  flushed := by rw [h.flushed, hm]
  blank hb := h.blank (hm.trans hb.flushed)

theorem write_frame (o : Overlay β) (m : Nat → β) (hi : ¬ (a ≤ i ∧ i < a + d.length)) :
    Frame o (o.write a d) m m i := by
  have hbuf : (o.write a d).buf i = o.buf i := put_outside o.buf (by omega)
  have hdirty := o.write_dirty_outside hi
  constructor
  · rw [Overlay.flushed, Overlay.flushed, hdirty, base_write, hbuf]
  · intro hb
    refine ⟨hb.1, ?_⟩
    rw [hdirty, hbuf]
    exact hb.2

theorem flushed_write_inside (o : Overlay β) (m : Nat → β) (h : a ≤ i)
    (h' : i < a + d.length) :
    (o.write a d).flushed m i = meet (o.base m i) (d.getD (i - a) erased) := by
  have hbuf : (o.write a d).buf i = d[i - a] := put_inside o.buf h (by omega)
  rw [flushed_of_dirty _ m (o.write_dirty_inside h h'), base_write, hbuf,
    List.getD_eq_getElem _ _ (by omega)]

theorem erase_blank {o : Overlay β} (h : o.Blank m i) : (o.erase a n).Blank m i := h

theorem erase_frame (o : Overlay β) (m : Nat → β) (hi : ¬ (a ≤ i ∧ i < a + n)) :
    Frame o (o.erase a n) m m i := by
  have hbase : (o.erase a n).base m i = o.base m i := by
    rw [base, base, o.erase_pending_outside hi]
  refine ⟨?_, id⟩
  rw [Overlay.flushed, Overlay.flushed, hbase]
  rfl

theorem flushed_of_base_erased {o : Overlay β} (h : o.base m i = erased)
    (hd : o.dirty i = true → o.buf i = erased) : o.flushed m i = erased := by
  cases hi : o.dirty i with
  | true => rw [o.flushed_of_dirty m hi, h, hd hi, NorCell.meet_self]
  | false => rw [o.flushed_of_not_dirty m hi, h]

theorem flushed_erase_inside {o : Overlay β} (m : Nat → β) (h : a ≤ i) (h' : i < a + n)
    (hd : o.dirty i = true → o.buf i = erased) : (o.erase a n).flushed m i = erased :=
  flushed_of_base_erased (base_of_pending _ m (o.erase_pending_inside h h')) hd

theorem erase_below_blank {o : Overlay β} (h : o.Blank m i) :
    o.Blank (NorArray.erase m a n) i :=
  ⟨erase_of_erased m h.1, h.2⟩

theorem erase_below_frame (o : Overlay β) (m : Nat → β) (hi : ¬ (a ≤ i ∧ i < a + n)) :
    Frame o o m (NorArray.erase m a n) i := by
  refine ⟨?_, erase_below_blank⟩
  rw [Overlay.flushed, Overlay.flushed, base, base, erase_outside m (by omega)]

theorem blank_of_erase_below {o : Overlay β} (m : Nat → β) (h : a ≤ i) (h' : i < a + n)
    (hd : o.dirty i = true → o.buf i = erased) : o.Blank (NorArray.erase m a n) i :=
  ⟨erase_inside m h h', hd⟩

end Overlay
end NorArray
