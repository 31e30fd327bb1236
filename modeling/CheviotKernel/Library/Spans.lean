import Mathlib.Data.List.GetD
import Mathlib.Data.Int.Basic

namespace Spans

variable {β : Type} {y b i x' : ℤ} {n : ℕ} {src : List β} {m' : ℤ → β}

def overlay (m : ℤ → β) (x : ℤ) (src : List β) : ℤ → β := fun y =>
  if x ≤ y then src.getD (y - x).toNat (m y) else m y

def slice (m : ℤ → β) (x : ℤ) (n : ℕ) : List β := (List.range n).map fun i : ℕ => m (x + i)

variable (m : ℤ → β) (x : ℤ)

@[simp] theorem overlay_nil : overlay m x [] = m := by
  funext y
  simp [overlay]

theorem overlay_outside (h : y < x ∨ x + src.length ≤ y) : overlay m x src y = m y := by
  unfold overlay
  split_ifs with hx
  · exact List.getD_eq_default _ _ (by omega)
  · rfl

theorem overlay_inside (hx : x ≤ y) (hy : y < x + src.length) :
    overlay m x src y = src.get ⟨(y - x).toNat, by omega⟩ := by
  unfold overlay
  rw [if_pos hx, List.getD_eq_getElem _ _ (by omega)]
  rfl

theorem overlay_shift (src : List β) (h : m i = m' (b + i)) : overlay m (x - b) src i = overlay m' x src (b + i) := by
  unfold overlay
  have hiff : x - b ≤ i ↔ x ≤ b + i := by omega
  have hsub : i - (x - b) = b + i - x := by omega
  simp only [hiff, hsub, h]

theorem overlay_append (xs ys : List β) : overlay m x (xs ++ ys) = overlay (overlay m x xs) (x + xs.length) ys := by
  funext y
  by_cases hlt : y < x + xs.length
  · rw [overlay_outside _ _ (.inl hlt)]
    by_cases hx : x ≤ y
    · rw [overlay_inside m x hx (by simp; omega), overlay_inside m x hx hlt]
      simp only [List.get_eq_getElem]
      rw [List.getElem_append_left (by omega)]
    · rw [overlay_outside m x (.inl (by omega)), overlay_outside m x (.inl (by omega))]
  · by_cases hend : y < x + xs.length + ys.length
    · rw [overlay_inside m x (by omega) (by simp; omega), overlay_inside _ _ (by omega) hend]
      simp only [List.get_eq_getElem]
      rw [List.getElem_append_right (by omega)]
      congr 1
      omega
    · rw [overlay_outside m x (.inr (by simp; omega)), overlay_outside _ _ (.inr (by omega)),
        overlay_outside m x (.inr (by omega))]

@[simp] theorem slice_length (n : ℕ) : (slice m x n).length = n := by
  simp [slice]

theorem slice_append (a b : ℕ) : slice m x (a + b) = slice m x a ++ slice m (x + a) b := by
  unfold slice
  rw [List.range_add, List.map_append, List.map_map]
  congr 1
  refine List.map_congr_left fun i _ => ?_
  simp only [Function.comp_apply]
  congr 1
  omega

theorem slice_congr (h : ∀ i : ℕ, i < n → m (x + i) = m' (x' + i)) : slice m x n = slice m' x' n := by
  refine List.map_congr_left fun i hi => ?_
  exact h i (List.mem_range.mp hi)

theorem overlay_slice (hx : x ≤ y) (hy : y < x + n) : overlay m x (slice m' x' n) y = m' (x' + (y - x)) := by
  rw [overlay_inside m x hx (by simpa using hy)]
  simp only [slice, List.get_eq_getElem, List.getElem_map, List.getElem_range]
  congr 1
  omega

end Spans
