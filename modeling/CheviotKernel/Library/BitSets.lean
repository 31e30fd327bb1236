import Mathlib.Data.List.Basic

namespace BitSets

variable {w : ℕ} {a b k m : BitVec w}

def Within (a b : BitVec w) : Prop := ∀ i, a.getLsbD i = true → b.getLsbD i = true

theorem Within.refl (a : BitVec w) : Within a a := fun _ h => h

theorem Within.zero (a : BitVec w) : Within 0 a := fun i h => by simp at h

theorem and_eq_left_iff : a &&& b = a ↔ Within a b := by
  constructor
  · intro h i hi
    rw [← h, BitVec.getLsbD_and] at hi
    exact (Bool.and_eq_true_iff.mp hi).2
  intro h
  apply BitVec.eq_of_getLsbD_eq
  intro i _
  rw [BitVec.getLsbD_and]
  cases hi : a.getLsbD i with
  | false => rfl
  | true => exact h i hi

theorem or_eq_left_iff : a ||| b = a ↔ Within b a := by
  constructor
  · intro h i hi
    rw [← h, BitVec.getLsbD_or, hi, Bool.or_true]
  intro h
  apply BitVec.eq_of_getLsbD_eq
  intro i _
  rw [BitVec.getLsbD_or]
  cases hi : b.getLsbD i with
  | false => rw [Bool.or_false]
  | true => rw [h i hi, Bool.or_true]

theorem and_eq_and_of_within (h : a &&& k = b &&& k) (hm : Within m k) : a &&& m = b &&& m := by
  rw [← and_eq_left_iff] at hm
  rw [← hm, BitVec.and_comm m k, ← BitVec.and_assoc, ← BitVec.and_assoc, h]

theorem or_and_eq_zero_iff : (a ||| b) &&& k = 0 ↔ a &&& k = 0 ∧ b &&& k = 0 := by
  rw [BitVec.and_comm, BitVec.and_or_distrib_left, BitVec.and_comm k a, BitVec.and_comm k b]
  exact BitVec.or_eq_zero_iff

theorem or_and_eq_self (ha : a &&& k = a) (hb : b &&& k = b) : (a ||| b) &&& k = a ||| b := by
  rw [BitVec.and_comm, BitVec.and_or_distrib_left, BitVec.and_comm k a, ha, BitVec.and_comm k b, hb]

theorem and_eq_zero_of_and_eq_self (ha : a &&& m = a) (hm : m &&& k = 0) : a &&& k = 0 := by
  rw [← ha, BitVec.and_assoc, hm]
  exact BitVec.and_zero

section

variable (ha : a &&& k = 0)
include ha

theorem and_or_eq_zero (hb : b &&& k = 0) : (a ||| b) &&& k = 0 :=
  or_and_eq_zero_iff.mpr ⟨ha, hb⟩

theorem and_and_eq_zero : (a &&& b) &&& k = 0 := by
  rw [BitVec.and_comm a b, BitVec.and_assoc, ha]
  exact BitVec.and_zero

theorem or_and_eq_right : (a ||| b) &&& k = b &&& k := by
  rw [BitVec.and_comm, BitVec.and_or_distrib_left, BitVec.and_comm k a, ha, BitVec.and_comm k b]
  exact BitVec.zero_or

theorem and_eq_zero_of_and_eq_zero (hm : m &&& k = m) : a &&& m = 0 := by
  rw [← hm, BitVec.and_comm m k, ← BitVec.and_assoc, ha]
  exact BitVec.zero_and

theorem and_not_eq_self : a &&& ~~~k = a := by
  rw [and_eq_left_iff]
  intro i hi
  have hk : (a &&& k).getLsbD i = false := by rw [ha]; exact BitVec.getLsbD_zero
  rw [BitVec.getLsbD_and, hi, Bool.true_and] at hk
  rw [BitVec.getLsbD_not, hk, decide_eq_true (BitVec.lt_of_getLsbD hi)]
  rfl

end

end BitSets
