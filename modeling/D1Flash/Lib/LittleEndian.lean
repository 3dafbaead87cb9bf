import D1Flash.Lib.NorArray
import Mathlib.Algebra.Group.Nat.Defs

namespace LittleEndian
open NorArray (put slice)
set_option autoImplicit true

def bytes : Nat → Nat → List UInt8
  | 0, _ => []
  | n + 1, v => UInt8.ofNat v :: bytes n (v / 256)

def value : List UInt8 → Nat
  | [] => 0
  | b :: bs => b.toNat + 256 * value bs

def load (m : Nat → UInt8) (a n : Nat) : Nat := value (slice m a n)

def store (m : Nat → UInt8) (a n v : Nat) : Nat → UInt8 := put m a (bytes n v)

@[simp] theorem bytes_length (n v : Nat) : (bytes n v).length = n := by
  induction n generalizing v with
  | zero => rfl
  | succ n ih => rw [bytes, List.length_cons, ih]

theorem value_bytes (n v : Nat) : value (bytes n v) = v % 256 ^ n := by
  induction n generalizing v with
  | zero => rw [bytes, value, Nat.pow_zero, Nat.mod_one]
  | succ n ih =>
    rw [bytes, value, ih, Nat.pow_succ', Nat.mod_mul]
    rfl

theorem load_congr (h : ∀ i, a ≤ i → i < a + n → m i = m' i) : load m a n = load m' a n :=
  congrArg value (NorArray.slice_congr h)

theorem load_store (m : Nat → UInt8) (a n v : Nat) : load (store m a n v) a n = v % 256 ^ n := by
  have h := NorArray.slice_put (a := a) (n := 0) (d := bytes n v) m
  rw [bytes_length, Nat.zero_add, Nat.add_zero, NorArray.slice_zero, List.nil_append] at h
  rw [load, store, h, value_bytes]

theorem store_outside (m : Nat → UInt8) (v : Nat) (h : i < a ∨ a + n ≤ i) :
    store m a n v i = m i := by
  apply NorArray.put_outside
  rw [bytes_length]
  exact h

theorem load_store_of_apart (m : Nat → UInt8) (v : Nat) (h : b + k ≤ a ∨ a + n ≤ b) :
    load (store m a n v) b k = load m b k := by
  apply load_congr
  intro i hi hi'
  apply store_outside
  omega

theorem load_zero (h : ∀ i, a ≤ i → i < a + n → m i = 0) : load m a n = 0 := by
  induction n generalizing a with
  | zero => rfl
  | succ n ih =>
    have hrest : load m (a + 1) n = 0 := ih fun i hi hi' => h i (by omega) (by omega)
    rw [load] at hrest
    rw [load, NorArray.slice_succ, value, hrest, h a (Nat.le_refl a) (by omega)]
    rfl

end LittleEndian
