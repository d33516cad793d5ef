/-!
# Milliseconds

`Millis` counts milliseconds on the virtual clock. The count is capped: no value passes
`Millis.limit`, and a sum that would pass it stays at the limit. So `+` is still commutative and
associative with `0` as its unit, and it never makes a time smaller.
-/

namespace Dialogue

/-- The largest count of milliseconds. -/
def Millis.limit : Nat := 0xffffffffffffffff

/-- A count of milliseconds, at most `Millis.limit`. -/
structure Millis where
  toNat : Nat
  toNat_le : toNat ≤ Millis.limit
deriving DecidableEq

namespace Millis

@[ext] theorem ext {a b : Millis} (h : a.toNat = b.toNat) : a = b := by
  cases a; cases b; simp_all

/-- `n` milliseconds, or the limit where `n` passes it. -/
def ofNat (n : Nat) : Millis := ⟨min n limit, Nat.min_le_right n limit⟩

/-- The last time that the clock can show. -/
def last : Millis := ⟨limit, Nat.le_refl limit⟩

instance (n : Nat) : OfNat Millis n := ⟨ofNat n⟩

instance : Inhabited Millis := ⟨0⟩

instance : ToString Millis := ⟨fun a => toString a.toNat⟩

instance : Add Millis := ⟨fun a b => ofNat (a.toNat + b.toNat)⟩

instance : LE Millis := ⟨fun a b => a.toNat ≤ b.toNat⟩

instance : LT Millis := ⟨fun a b => a.toNat < b.toNat⟩

instance (a b : Millis) : Decidable (a ≤ b) := inferInstanceAs (Decidable (a.toNat ≤ b.toNat))

instance (a b : Millis) : Decidable (a < b) := inferInstanceAs (Decidable (a.toNat < b.toNat))

instance : Max Millis := ⟨fun a b => if a ≤ b then b else a⟩

instance : Min Millis := ⟨fun a b => if a ≤ b then a else b⟩

/-! ## The view in natural numbers -/

@[simp] theorem toNat_ofNat (n : Nat) : (ofNat n).toNat = min n limit := rfl

@[simp] theorem toNat_zero : (0 : Millis).toNat = 0 := rfl

/-- A sum stops at the limit. -/
theorem toNat_add (a b : Millis) : (a + b).toNat = min (a.toNat + b.toNat) limit := rfl

theorem le_def {a b : Millis} : a ≤ b ↔ a.toNat ≤ b.toNat := Iff.rfl

theorem lt_def {a b : Millis} : a < b ↔ a.toNat < b.toNat := Iff.rfl

theorem toNat_max (a b : Millis) : (max a b).toNat = max a.toNat b.toNat := by
  show (if a ≤ b then b else a).toNat = _
  split <;> rename_i h <;> rw [le_def] at h <;> omega

/-! ## Order -/

theorem le_refl (a : Millis) : a ≤ a := Nat.le_refl _

theorem le_trans {a b c : Millis} (h : a ≤ b) (h' : b ≤ c) : a ≤ c := Nat.le_trans h h'

theorem le_max_left (a b : Millis) : a ≤ max a b := by
  rw [le_def, toNat_max]; omega

theorem max_eq_right {a b : Millis} (h : a ≤ b) : max a b = b := by
  rw [le_def] at h
  ext
  rw [toNat_max]; omega

theorem min_eq_left {a b : Millis} (h : a ≤ b) : min a b = a := if_pos h

theorem min_eq_right {a b : Millis} (h : b < a) : min a b = b := if_neg (Nat.not_le_of_lt h)

/-! ## Sums -/

/-- Stopping at the limit does not spoil that the order of two summands does not matter. -/
theorem add_comm (a b : Millis) : a + b = b + a := by
  ext; simp only [toNat_add]; omega

theorem add_assoc (a b c : Millis) : a + b + c = a + (b + c) := by
  ext; simp only [toNat_add]; omega

@[simp] theorem add_zero (a : Millis) : a + 0 = a := by
  have := a.toNat_le
  ext; simp only [toNat_add, toNat_zero]; omega

@[simp] theorem zero_add (a : Millis) : 0 + a = a := by rw [add_comm, add_zero]

theorem add_le_add_left {a b : Millis} (h : a ≤ b) (c : Millis) : c + a ≤ c + b := by
  rw [le_def] at h ⊢
  rw [toNat_add, toNat_add]; omega

theorem add_le_add_right {a b : Millis} (h : a ≤ b) (c : Millis) : a + c ≤ b + c := by
  rw [add_comm a, add_comm b]
  exact add_le_add_left h c

/-- Waiting never leads back in time. -/
theorem le_add_right (a b : Millis) : a ≤ a + b := by
  have := a.toNat_le
  rw [le_def, toNat_add]; omega

end Millis

end Dialogue
