import D1Flash.Spinor.Factories
import D1Flash.Spinor.LockRange

namespace D1Flash
set_option autoImplicit true

/-- The factories with lock hooks that work on the chip. -/
inductive LockMaker where
  | winbond | xtx | fm | mxic
  deriving DecidableEq, Repr

namespace LockMaker

def name : LockMaker → FactoryName
  | winbond => .winbond
  | xtx => .xtx
  | fm => .fm
  | mxic => .mxic

def query : LockMaker → Nat → List Byte
  | mxic => addr4 norMxicCmdRddpb
  | _ => addr3 norCmdBlkLockStatus

def lockCmd : LockMaker → Nat → List Byte
  | mxic => fun addr => addr4 norMxicCmdWrdpb addr ++ [norMxicDpbLock]
  | _ => addr3 norCmdBlkLock

def unlockCmd : LockMaker → Nat → List Byte
  | mxic => fun addr => addr4 norMxicCmdWrdpb addr ++ [norMxicDpbUnlock]
  | _ => addr3 norCmdBlkUnlock

/-- The status byte of a unit that is locked. -/
def locked : LockMaker → Byte → Bool
  | mxic => fun st => st == 0xFF
  | _ => fun st => st &&& 1 != 0

end LockMaker

/-- What the transfers of a visit to a unit came to: its command did not go through, its read-back
failed, or the read-back reported the unit locked or not. -/
inductive Visit where
  | refused
  | unread
  | read (locked : Bool)
  deriving DecidableEq, Repr

variable (p : SpiPort δ)

def visitQuery (m : LockMaker) (addr : Nat) (s : δ) : Visit × δ :=
  match readByte p (m.query addr) s with
  | ((ret, st), s) => if ret ≠ 0 then (.unread, s) else (.read (m.locked st), s)

/-- A command for a unit and its read-back. -/
def visitSet (m : LockMaker) (cmd : Nat → List Byte) (addr : Nat) (s : δ) : Visit × δ :=
  match blkSetLock p (cmd addr) s with
  | (ret, s) => if ret ≠ 0 then (.refused, s) else visitQuery p m addr s

/-- The visits to units in a row, up to the first that ends the call. -/
def visits (visit : Nat → δ → Visit × δ) (ends : Visit → Bool) :
    List (Nat × Nat) → δ → List Visit × δ
  | [], s => ([], s)
  | u :: us, s =>
    match visit u.1 s with
    | (v, s) =>
      if ends v then ([v], s)
      else
        match visits visit ends us s with
        | (vs, s) => (v :: vs, s)

def Visit.endsLock : Visit → Bool
  | refused => true
  | unread => false
  | read locked => !locked

def Visit.endsUnlock : Visit → Bool
  | refused => true
  | unread => true
  | read locked => locked

theorem lockLoop_visits {hook : Nat → Nat → δ → Int × δ} (visit : Nat → δ → Visit × δ)
    (ends : Visit → Bool)
    (hh : ∀ addr len s, (hook addr len s).2 = (visit addr s).2 ∧
      ((hook addr len s).1 = 0 ↔ ends (visit addr s).1 = false)) (s : δ) :
    (lockLoop T hook fuel addr len s).2 = (visits visit ends (lockUnits T fuel addr len) s).2 ∧
      ((lockLoop T hook fuel addr len s).1 = 0 ↔
        ∀ v ∈ (visits visit ends (lockUnits T fuel addr len) s).1, ends v = false) := by
  induction fuel generalizing addr len s with
  | zero => exact ⟨rfl, fun _ _ hv => (List.not_mem_nil hv).elim, fun _ => rfl⟩
  | succ fuel ih =>
    rw [lockLoop, lockUnits]
    by_cases hz : len = 0
    · rw [if_pos hz, if_pos hz]
      exact ⟨rfl, fun _ _ hv => (List.not_mem_nil hv).elim, fun _ => rfl⟩
    rw [if_neg hz, if_neg hz]
    dsimp only
    rw [visits]
    obtain ⟨hs, hr⟩ := hh (alignDown addr (lockAlignSize T addr)) (lockAlignSize T addr) s
    rcases h : hook (alignDown addr (lockAlignSize T addr)) (lockAlignSize T addr) s with ⟨ret, s₁⟩
    rcases hv : visit (alignDown addr (lockAlignSize T addr)) s with ⟨v, s₂⟩
    rw [h, hv] at hs hr
    dsimp only at hs hr ⊢
    subst hs
    by_cases h0 : ret = 0
    · have hgo := hr.1 h0
      rw [if_neg (not_not.2 h0), hgo, if_neg Bool.false_ne_true]
      refine ⟨(ih s₁).1, (ih s₁).2.trans ?_⟩
      simp only [List.mem_cons, forall_eq_or_imp, hgo, true_and]
    · have hend : ends v = true := by
        cases he : ends v with
        | true => rfl
        | false => exact (h0 (hr.2 he)).elim
      rw [if_pos h0, hend, if_pos rfl]
      refine ⟨rfl, fun h => (h0 h).elim, fun h => ?_⟩
      rw [h v (List.mem_singleton.2 rfl)] at hend
      cases hend

/-- The last of the visits may end a call; those before it do not. -/
theorem visits_ends (visit : Nat → δ → Visit × δ) (ends : Visit → Bool) (us : List (Nat × Nat))
    (s : δ) : (∀ v ∈ (visits visit ends us s).1, ends v = false) ∨
      ∃ vs v, (visits visit ends us s).1 = vs ++ [v] ∧ ends v = true ∧
        ∀ w ∈ vs, ends w = false := by
  induction us generalizing s with
  | nil => exact .inl fun _ hv => (nomatch hv)
  | cons u us ih =>
    rw [visits]
    rcases visit u.1 s with ⟨v, s₁⟩
    dsimp only
    cases he : ends v with
    | true =>
      rw [if_pos rfl]
      exact .inr ⟨[], v, rfl, he, fun _ hw => (nomatch hw)⟩
    | false =>
      rw [if_neg Bool.false_ne_true]
      rcases ih s₁ with h | ⟨vs, w, hvs, hw, hbefore⟩
      · left
        simp only [List.mem_cons, forall_eq_or_imp]
        exact ⟨he, h⟩
      · right
        refine ⟨v :: vs, w, ?_, hw, ?_⟩
        · dsimp only
          rw [hvs]
          rfl
        · simp only [List.mem_cons, forall_eq_or_imp]
          exact ⟨he, hbefore⟩

variable (cfg : Config) {p}

/-- What a query gives as a boolean: a read-back that fails counts as locked. -/
theorem blkIslock_visit (m : LockMaker) (addr : Nat) (s : δ) :
    (blkIslock p (m.query addr) m.locked s).2 = (visitQuery p m addr s).2 ∧
      ((blkIslock p (m.query addr) m.locked s).1 = false ↔
        (visitQuery p m addr s).1 = .read false) := by
  rw [blkIslock, visitQuery]
  rcases readByte p (m.query addr) s with ⟨⟨ret, st⟩, s₁⟩
  dsimp only
  by_cases h0 : ret = 0
  · simp only [h0, ne_eq, not_true_eq_false, if_false, Visit.read.injEq, and_self]
  · simp only [h0, ne_eq, not_false_eq_true, if_true, true_and]
    constructor
    · intro h
      rw [bne_eq_false_iff_eq] at h
      exact (h0 h).elim
    · intro h
      cases h

theorem blkSet_visit (m : LockMaker) (cmd : Nat → List Byte) (after : Bool → Int)
    (ends : Visit → Bool) (hrefused : ends .refused = true)
    (hafter : ∀ v : Visit, v ≠ .refused →
      (after (v != .read false) = 0 ↔ ends v = false)) (addr : Nat) (s : δ) :
    let hook : δ → Int × δ := fun s =>
      match blkSetLock p (cmd addr) s with
      | (ret, s) =>
        if ret ≠ 0 then (ret, s)
        else
          match blkIslock p (m.query addr) m.locked s with
          | (locked, s) => (after locked, s)
    (hook s).2 = (visitSet p m cmd addr s).2 ∧
      ((hook s).1 = 0 ↔ ends (visitSet p m cmd addr s).1 = false) := by
  dsimp only
  rw [visitSet]
  rcases blkSetLock p (cmd addr) s with ⟨ret, s₁⟩
  dsimp only
  by_cases h0 : ret = 0
  · rw [if_neg (not_not.2 h0), if_neg (not_not.2 h0)]
    obtain ⟨hs, hr⟩ := blkIslock_visit (p := p) m addr s₁
    rcases hb : blkIslock p (m.query addr) m.locked s₁ with ⟨b, s₂⟩
    rcases hv : visitQuery p m addr s₁ with ⟨v, s₃⟩
    rw [hb, hv] at hs hr
    refine ⟨hs, ?_⟩
    have hb' : b = (v != .read false) := by
      cases b with
      | true =>
        symm
        rw [bne_iff_ne]
        intro h
        cases hr.2 h
      | false =>
        have hv : v = .read false := hr.1 rfl
        rw [hv]
        rfl
    have hne : v ≠ .refused := by
      rw [visitQuery] at hv
      rintro rfl
      rcases readByte p (m.query addr) s₁ with ⟨⟨r, st⟩, s₄⟩
      simp only at hv
      split at hv <;> cases hv
    rw [hb']
    exact hafter v hne
  · rw [if_pos h0, if_pos h0]
    refine ⟨rfl, fun h => (h0 h).elim, fun h => ?_⟩
    rw [hrefused] at h
    cases h

theorem lockHook_visit (m : LockMaker) (behind : FactoryName → Nat → NorInfo) :
    ∃ hook : Nat → Nat → δ → Int × δ,
      (norFactory cfg p behind m.name).lock = some (fun _ => hook) ∧
      ∀ addr len s, (hook addr len s).2 = (visitSet p m m.lockCmd addr s).2 ∧
        ((hook addr len s).1 = 0 ↔ (visitSet p m m.lockCmd addr s).1.endsLock = false) := by
  have hafter : ∀ v : Visit, v ≠ .refused →
      ((if (v != .read false) = true then (0 : Int) else -eBusy) = 0 ↔ v.endsLock = false) := by
    intro v hv
    cases v with
    | refused => exact (hv rfl).elim
    | unread => decide
    | read b => cases b <;> decide
  have hafter' : ∀ v : Visit, v ≠ .refused →
      ((if (v != .read false) = false then -eBusy else (0 : Int)) = 0 ↔ v.endsLock = false) := by
    intro v hv
    cases v with
    | refused => exact (hv rfl).elim
    | unread => decide
    | read b => cases b <;> decide
  cases m with
  | winbond => exact ⟨_, rfl, fun addr _ s =>
      blkSet_visit .winbond (LockMaker.lockCmd .winbond) (fun b => if b = true then 0 else -eBusy) _
      rfl hafter addr s⟩
  | xtx => exact ⟨_, rfl, fun addr _ s =>
      blkSet_visit .xtx (LockMaker.lockCmd .xtx) (fun b => if b = true then 0 else -eBusy) _ rfl
      hafter addr s⟩
  | fm => exact ⟨_, rfl, fun addr _ s =>
      blkSet_visit .fm (LockMaker.lockCmd .fm) (fun b => if b = true then 0 else -eBusy) _ rfl
      hafter addr s⟩
  | mxic => exact ⟨_, rfl, fun addr _ s =>
      blkSet_visit .mxic (LockMaker.lockCmd .mxic) (fun b => if b = false then -eBusy else 0) _ rfl
      hafter' addr s⟩

theorem unlockHook_visit (m : LockMaker) (behind : FactoryName → Nat → NorInfo) :
    ∃ hook : Nat → Nat → δ → Int × δ,
      (norFactory cfg p behind m.name).unlock = some (fun _ => hook) ∧
      ∀ addr len s, (hook addr len s).2 = (visitSet p m m.unlockCmd addr s).2 ∧
        ((hook addr len s).1 = 0 ↔ (visitSet p m m.unlockCmd addr s).1.endsUnlock = false) := by
  have hafter : ∀ v : Visit, v ≠ .refused →
      ((if (v != .read false) = true then -eBusy else (0 : Int)) = 0 ↔ v.endsUnlock = false) := by
    intro v hv
    cases v with
    | refused => exact (hv rfl).elim
    | unread => decide
    | read b => cases b <;> decide
  cases m with
  | winbond => exact ⟨_, rfl, fun addr _ s =>
      blkSet_visit .winbond (LockMaker.unlockCmd .winbond) (fun b => if b = true then -eBusy else 0)
      _ rfl hafter addr s⟩
  | xtx => exact ⟨_, rfl, fun addr _ s =>
      blkSet_visit .xtx (LockMaker.unlockCmd .xtx) (fun b => if b = true then -eBusy else 0) _ rfl
      hafter addr s⟩
  | fm => exact ⟨_, rfl, fun addr _ s =>
      blkSet_visit .fm (LockMaker.unlockCmd .fm) (fun b => if b = true then -eBusy else 0) _ rfl
      hafter addr s⟩
  | mxic => exact ⟨_, rfl, fun addr _ s =>
      blkSet_visit .mxic (LockMaker.unlockCmd .mxic) (fun b => if b = true then -eBusy else 0) _ rfl
      hafter addr s⟩

theorem islockHook_visit (m : LockMaker) (behind : FactoryName → Nat → NorInfo) :
    ∃ hook : Nat → Nat → δ → Bool × δ,
      (norFactory cfg p behind m.name).islock = some (fun _ => hook) ∧
      ∀ addr len s, (hook addr len s).2 = (visitQuery p m addr s).2 ∧
        ((hook addr len s).1 = false ↔ (visitQuery p m addr s).1 = .read false) := by
  cases m with
  | winbond => exact ⟨_, rfl, fun addr _ s => blkIslock_visit .winbond addr s⟩
  | xtx => exact ⟨_, rfl, fun addr _ s => blkIslock_visit .xtx addr s⟩
  | fm => exact ⟨_, rfl, fun addr _ s => blkIslock_visit .fm addr s⟩
  | mxic => exact ⟨_, rfl, fun addr _ s => blkIslock_visit .mxic addr s⟩

variable (p) in
/-- The visits of a lock of a range. -/
def lockVisits (m : LockMaker) (totalSize addr len : Nat) : δ → List Visit × δ :=
  visits (visitSet p m m.lockCmd) Visit.endsLock (lockUnits totalSize len addr len)

variable (p) in
def unlockVisits (m : LockMaker) (totalSize addr len : Nat) : δ → List Visit × δ :=
  visits (visitSet p m m.unlockCmd) Visit.endsUnlock (lockUnits totalSize len addr len)

variable (p) in
def queryVisits (m : LockMaker) (totalSize addr len : Nat) : δ → List Visit × δ :=
  visits (visitQuery p m) (fun v => v != .read false) (lockUnits totalSize len addr len)

variable {cfg} {nor : Nor δ} {m : LockMaker}

theorem norWrLock_visits (hf : nor.factory = some (norFactory cfg p behind m.name))
    (addr len : Nat) (s : δ) :
    (norWrLock nor addr len s).2 = (lockVisits p m nor.totalSize addr len s).2 ∧
      ((norWrLock nor addr len s).1 = 0 ↔
        ∀ v ∈ (lockVisits p m nor.totalSize addr len s).1, v.endsLock = false) := by
  obtain ⟨hook, hl, hh⟩ := lockHook_visit cfg (p := p) m behind
  rw [norWrLock, hf, Option.bind_some, hl]
  exact lockLoop_visits _ Visit.endsLock hh s

theorem norWrUnlock_visits (hf : nor.factory = some (norFactory cfg p behind m.name))
    (addr len : Nat) (s : δ) :
    (norWrUnlock nor addr len s).2 = (unlockVisits p m nor.totalSize addr len s).2 ∧
      ((norWrUnlock nor addr len s).1 = 0 ↔
        ∀ v ∈ (unlockVisits p m nor.totalSize addr len s).1, v.endsUnlock = false) := by
  obtain ⟨hook, hl, hh⟩ := unlockHook_visit cfg (p := p) m behind
  rw [norWrUnlock, hf, Option.bind_some, hl]
  exact lockLoop_visits _ Visit.endsUnlock hh s

/-- The query hook in the loop over units. -/
def queryHook (hook : Nat → Nat → δ → Bool × δ) (addr len : Nat) (s : δ) : Int × δ :=
  match hook addr len s with
  | (locked, s) => (if locked then 1 else 0, s)

theorem norWrIslock_visits (hf : nor.factory = some (norFactory cfg p behind m.name))
    (addr len : Nat) (s : δ) :
    (norWrIslock nor addr len s).2 = (queryVisits p m nor.totalSize addr len s).2 ∧
      ((norWrIslock nor addr len s).1 = false ↔
        ∀ v ∈ (queryVisits p m nor.totalSize addr len s).1, v = .read false) := by
  obtain ⟨hook, hl, hh⟩ := islockHook_visit cfg (p := p) m behind
  rw [norWrIslock, hf, Option.bind_some, hl]
  have hh' : ∀ addr len s, (queryHook hook addr len s).2 = (visitQuery p m addr s).2 ∧
      ((queryHook hook addr len s).1 = 0 ↔
        ((visitQuery p m addr s).1 != .read false) = false) := by
    intro addr len s
    obtain ⟨hs, hr⟩ := hh addr len s
    refine ⟨hs, ?_⟩
    rw [bne_eq_false_iff_eq, ← hr, queryHook]
    rcases hook addr len s with ⟨locked, s'⟩
    cases locked with
    | false => exact ⟨fun _ => rfl, fun _ => rfl⟩
    | true => exact ⟨fun h => (Int.one_ne_zero h).elim, fun h => (Bool.false_ne_true h.symm).elim⟩
  obtain ⟨hs, hr⟩ : (lockLoop nor.totalSize (queryHook hook) len addr len s).2 =
        (queryVisits p m nor.totalSize addr len s).2 ∧
      ((lockLoop nor.totalSize (queryHook hook) len addr len s).1 = 0 ↔
        ∀ v ∈ (queryVisits p m nor.totalSize addr len s).1, (v != .read false) = false) :=
    lockLoop_visits _ _ hh' s
  simp only [bne_eq_false_iff_eq] at hr
  rw [← hs, ← hr]
  show (lockLoop nor.totalSize (queryHook hook) len addr len s).2 = _ ∧
    (((lockLoop nor.totalSize (queryHook hook) len addr len s).1 != 0) = false ↔ _)
  exact ⟨rfl, bne_eq_false_iff_eq⟩

theorem visitQuery_ne_refused (addr : Nat) (s : δ) : (visitQuery p m addr s).1 ≠ .refused := by
  rw [visitQuery]
  rcases readByte p (m.query addr) s with ⟨⟨ret, st⟩, s'⟩
  dsimp only
  split
  · intro h
    cases h
  · intro h
    cases h

theorem mem_visits {visit : Nat → δ → Visit × δ} {P : Visit → Prop}
    (hP : ∀ addr s, P (visit addr s).1) (ends : Visit → Bool) (us : List (Nat × Nat)) (s : δ)
    {v : Visit} (hv : v ∈ (visits visit ends us s).1) : P v := by
  induction us generalizing s with
  | nil => cases hv
  | cons u us ih =>
    rw [visits] at hv
    have hu := hP u.1 s
    dsimp only at hv
    cases he : ends (visit u.1 s).1 with
    | true =>
      rw [he, if_pos rfl] at hv
      rw [List.mem_singleton.1 hv]
      exact hu
    | false =>
      rw [he, if_neg Bool.false_ne_true] at hv
      rcases List.mem_cons.1 hv with rfl | hv
      · exact hu
      · exact ih _ hv

theorem Visit.endsLock_iff (v : Visit) :
    v.endsLock = true ↔ v = .refused ∨ v = .read false := by
  cases v with
  | refused => decide
  | unread => decide
  | read b => cases b <;> decide

/-- A lock that reports success has verified it, unless a read-back failed unnoticed. -/
theorem norWrLock_verified (hf : nor.factory = some (norFactory cfg p behind m.name))
    (addr len : Nat) (s : δ) :
    ((norWrLock nor addr len s).1 = 0 →
        ∀ v ∈ (lockVisits p m nor.totalSize addr len s).1, v = .read true) ↔
      (.unread ∉ (lockVisits p m nor.totalSize addr len s).1 ∨
        ∃ v ∈ (lockVisits p m nor.totalSize addr len s).1, v = .refused ∨ v = .read false) := by
  obtain ⟨-, hret⟩ := norWrLock_visits hf addr len s
  rw [hret]
  constructor
  · intro h
    by_cases hends : ∀ v ∈ (lockVisits p m nor.totalSize addr len s).1, v.endsLock = false
    · left
      intro hu
      cases h hends _ hu
    · right
      simp only [not_forall, Bool.not_eq_false] at hends
      obtain ⟨v, hv, he⟩ := hends
      exact ⟨v, hv, v.endsLock_iff.1 he⟩
  · intro h hends v hv
    have he := hends v hv
    cases v with
    | refused => cases he
    | unread =>
      rcases h with h | ⟨w, hw, hr⟩
      · exact (h hv).elim
      · have hw' := hends w hw
        rw [w.endsLock_iff.2 hr] at hw'
        cases hw'
    | read locked =>
      cases locked with
      | false => cases he
      | true => rfl

/-- An unlock that reports success has verified it: a read-back that fails counts as locked. -/
theorem norWrUnlock_verified (hf : nor.factory = some (norFactory cfg p behind m.name))
    (addr len : Nat) (s : δ) (h0 : (norWrUnlock nor addr len s).1 = 0) :
    ∀ v ∈ (unlockVisits p m nor.totalSize addr len s).1, v = .read false := by
  intro v hv
  have he := (norWrUnlock_visits hf addr len s).2.1 h0 v hv
  cases v with
  | refused => cases he
  | unread => cases he
  | read locked =>
    cases locked with
    | false => rfl
    | true => cases he

/-- A query that answers true has read a locked unit, unless a read-back failed. -/
theorem norWrIslock_verified (hf : nor.factory = some (norFactory cfg p behind m.name))
    (addr len : Nat) (s : δ) :
    ((norWrIslock nor addr len s).1 = true →
        .read true ∈ (queryVisits p m nor.totalSize addr len s).1) ↔
      .unread ∉ (queryVisits p m nor.totalSize addr len s).1 := by
  obtain ⟨-, hret⟩ := norWrIslock_visits hf addr len s
  rw [← Bool.not_eq_false, hret]
  have hne : ∀ v ∈ (queryVisits p m nor.totalSize addr len s).1, v ≠ .refused :=
    fun v hv => mem_visits (P := fun v => v ≠ .refused) visitQuery_ne_refused _ _ s hv
  rcases visits_ends (visitQuery p m) (fun v => v != .read false)
    (lockUnits nor.totalSize len addr len) s with h | ⟨vs, v, hvs, hv, hbefore⟩
  · simp only [bne_eq_false_iff_eq] at h
    constructor
    · intro _ hu
      cases h _ hu
    · intro _ hnot
      exact (hnot h).elim
  · -- only the last visit read anything but an unlocked unit
    have hlast : ∀ w ∈ (queryVisits p m nor.totalSize addr len s).1, w ≠ .read false → w = v := by
      intro w hw hwf
      rw [queryVisits, hvs] at hw
      rcases List.mem_append.1 hw with hw | hw
      · exact (hwf (bne_eq_false_iff_eq.1 (hbefore w hw))).elim
      · exact List.mem_singleton.1 hw
    have hmem : v ∈ (queryVisits p m nor.totalSize addr len s).1 := by
      rw [queryVisits, hvs]
      exact List.mem_append_right _ (List.mem_singleton.2 rfl)
    have hvf : v ≠ .read false := bne_iff_ne.1 hv
    constructor
    · intro h hu
      have htrue := hlast _ (h fun hall => hvf (hall v hmem)) (fun h => nomatch h)
      rw [← hlast _ hu (fun h => nomatch h)] at htrue
      cases htrue
    · intro hu _
      cases v with
      | refused => exact (hne _ hmem rfl).elim
      | unread => exact (hu hmem).elim
      | read locked =>
        cases locked with
        | false => exact (hvf rfl).elim
        | true => exact hmem

/-- A reported lock state is a verified one: of an unlock always, of a lock exactly when no
read-back fails or a unit refuses, of a query exactly when no read-back fails. -/
theorem lockState_verified (hf : nor.factory = some (norFactory cfg p behind m.name))
    (addr len : Nat) (s₁ s₂ s₃ : δ) :
    ((norWrLock nor addr len s₁).1 = 0 →
          ∀ v ∈ (lockVisits p m nor.totalSize addr len s₁).1, v = .read true) ∧
        ((norWrUnlock nor addr len s₂).1 = 0 →
          ∀ v ∈ (unlockVisits p m nor.totalSize addr len s₂).1, v = .read false) ∧
        ((norWrIslock nor addr len s₃).1 = true →
          .read true ∈ (queryVisits p m nor.totalSize addr len s₃).1) ↔
      (.unread ∉ (lockVisits p m nor.totalSize addr len s₁).1 ∨
          ∃ v ∈ (lockVisits p m nor.totalSize addr len s₁).1, v = .refused ∨ v = .read false) ∧
        .unread ∉ (queryVisits p m nor.totalSize addr len s₃).1 := by
  have hlock := norWrLock_verified hf addr len s₁
  have hquery := norWrIslock_verified hf addr len s₃
  constructor
  · rintro ⟨h₁, -, h₃⟩
    exact ⟨hlock.1 h₁, hquery.1 h₃⟩
  · rintro ⟨h₁, h₃⟩
    exact ⟨hlock.2 h₁, norWrUnlock_verified hf addr len s₂, hquery.2 h₃⟩

/-- A bus on which every transfer goes through but a read of a protection bit. -/
def unreadablePort : SpiPort Unit where
  halSpiXfer t s :=
    if (t.txBuf.getD []).headD 0 = norCmdBlkLockStatus then ((-1, []), s)
    else ((0, List.replicate t.rxLen norSrBitWel), s)
  mdelay _ s := s

def unreadableNor : Nor Unit where
  cmdRead := norCmdFastRead
  cmdWrite := norCmdProg
  rCmdSlen := 5
  wCmdSlen := 4
  totalSize := 0x800000
  blkSize := sz4K
  pageSize := norPageSize
  addrWidth := 3
  info := none
  factory := some (norFactory ⟨true, false, true⟩ unreadablePort (fun _ _ => default)
    .xtx)

/-- A lock whose read-back fails reports success. -/
theorem lockState_unread :
    ¬ ∀ addr len, (norWrLock unreadableNor addr len ()).1 = 0 →
      ∀ v ∈ (lockVisits unreadablePort .xtx 0x800000 addr len ()).1, v = .read true := by
  intro h
  have hv := h 0 0x1000 (by decide +kernel) .unread (by decide +kernel)
  cases hv

theorem lockState_verified_unread :
    ((norWrLock unreadableNor 0 0x1000 ()).1 = 0 →
          ∀ v ∈ (lockVisits unreadablePort .xtx 0x800000 0 0x1000 ()).1, v = .read true) ∧
        ((norWrUnlock unreadableNor 0 0x1000 ()).1 = 0 →
          ∀ v ∈ (unlockVisits unreadablePort .xtx 0x800000 0 0x1000 ()).1, v = .read false) ∧
        ((norWrIslock unreadableNor 0 0x1000 ()).1 = true →
          .read true ∈ (queryVisits unreadablePort .xtx 0x800000 0 0x1000 ()).1) ↔
      (.unread ∉ (lockVisits unreadablePort .xtx 0x800000 0 0x1000 ()).1 ∨
          ∃ v ∈ (lockVisits unreadablePort .xtx 0x800000 0 0x1000 ()).1,
            v = .refused ∨ v = .read false) ∧
        .unread ∉ (queryVisits unreadablePort .xtx 0x800000 0 0x1000 ()).1 := by
  have hf : unreadableNor.factory = some (norFactory ⟨true, false, true⟩ unreadablePort
      (fun _ _ => default) LockMaker.xtx.name) := rfl
  exact lockState_verified hf 0 0x1000 () () ()

end D1Flash
