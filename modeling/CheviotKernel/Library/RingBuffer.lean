import Mathlib.Data.List.Infix

namespace RingBuffer

variable {β : Type} {cap k pos n : Nat}

def slice (data : Nat → β) (pos n : Nat) : List β :=
  (List.range n).map fun i => data (pos + i)

def blit (data : Nat → β) (pos : Nat) (src : List β) : Nat → β :=
  fun j => if pos ≤ j then src.getD (j - pos) (data j) else data j

def window (cap : Nat) (data : Nat → β) (pos n : Nat) : List β :=
  (List.range n).map fun i => data ((pos + i) % cap)

def store (cap : Nat) (data : Nat → β) (pos : Nat) (src : List β) : Nat → β :=
  fun j => if j < cap then src.getD ((j + cap - pos) % cap) (data j) else data j

theorem wrap_eq (h : k < 2 * cap) : k % cap = if k < cap then k else k - cap := by
  split
  · rename_i hk
    exact Nat.mod_eq_of_lt hk
  · rw [Nat.mod_eq_sub_mod (by omega), Nat.mod_eq_of_lt (by omega)]

theorem window_eq_slice (data : Nat → β) (h : pos + n ≤ cap) : window cap data pos n = slice data pos n := by
  refine List.map_congr_left fun i hi => ?_
  have hi' : i < n := List.mem_range.mp hi
  rw [Nat.mod_eq_of_lt (by omega)]

section

variable (cap : Nat) (data : Nat → β) (pos m n : Nat)

@[simp] theorem slice_length : (slice data pos n).length = n := by
  simp [slice]

@[simp] theorem window_length : (window cap data pos n).length = n := by
  simp [window]

theorem window_add : window cap data pos (m + n) = window cap data pos m ++ window cap data ((pos + m) % cap) n := by
  simp [window, List.range_add, Nat.add_assoc]

theorem blit_nil : blit data pos [] = data := by
  funext j
  simp [blit]

theorem slice_blit (src : List β) : slice (blit data pos src) pos src.length = src := by
  refine List.ext_getElem (by simp) fun i _ h => ?_
  simp [slice, blit, h]

end

theorem slice_blit_slice (dst data : Nat → β) (pos n : Nat) :
    slice (blit dst 0 (slice data pos n)) 0 n = slice data pos n := by
  have h := slice_blit dst 0 (slice data pos n)
  rwa [slice_length] at h

section Store

variable {cap pos len n : Nat} {src : List β}

section

variable (data : Nat → β)
include data

theorem store_nil : store cap data pos [] = data := by
  funext j
  simp [store]

theorem blit_eq_store (h : src.length ≤ cap) : blit data 0 src = store cap data 0 src := by
  funext j
  by_cases hj : j < cap
  · simp [blit, store, hj, Nat.mod_eq_of_lt hj]
  · have hout : src[j]? = none := List.getElem?_eq_none (by omega)
    simp [blit, store, hj, hout]

section

variable (hpos : pos < cap)
include hpos

theorem blit_blit_eq_store (hlen : src.length ≤ cap) :
    blit (blit data pos (src.take (cap - pos))) 0 (src.drop (cap - pos)) = store cap data pos src := by
  funext j
  simp only [blit, store, Nat.zero_le, if_true, Nat.sub_zero, List.getD_eq_getElem?_getD,
    List.getElem?_drop, List.getElem?_take]
  by_cases hj : j < cap
  · rw [if_pos hj, wrap_eq (show j + cap - pos < 2 * cap by omega)]
    by_cases hp : pos ≤ j
    · rw [if_pos hp, if_pos (by omega), if_neg (by omega),
        List.getElem?_eq_none (show src.length ≤ cap - pos + j by omega),
        show j + cap - pos - cap = j - pos by omega]
      rfl
    · rw [if_neg hp, if_pos (by omega), show j + cap - pos = cap - pos + j by omega]
  · rw [if_neg hj, if_pos (by omega), if_neg (by omega),
      List.getElem?_eq_none (show src.length ≤ cap - pos + j by omega)]
    rfl

theorem window_store_same (hlen : src.length ≤ cap) :
    window cap (store cap data pos src) pos src.length = src := by
  refine List.ext_getElem (by simp) fun i _ h => ?_
  have hj : (pos + i) % cap < cap := Nat.mod_lt _ (by omega)
  have hoff : ((pos + i) % cap + cap - pos) % cap = i := by
    rw [wrap_eq (show pos + i < 2 * cap by omega)]
    split <;> rw [wrap_eq (by omega)] <;> split <;> omega
  simp [window, store, hj, hoff, h]

theorem window_store_before (hfit : len + src.length ≤ cap) :
    window cap (store cap data ((pos + len) % cap) src) pos len = window cap data pos len := by
  refine List.map_congr_left fun i hi => ?_
  have hi' : i < len := List.mem_range.mp hi
  have hj : (pos + i) % cap < cap := Nat.mod_lt _ (by omega)
  have hoff : src.length ≤ ((pos + i) % cap + cap - (pos + len) % cap) % cap := by
    rw [wrap_eq (show pos + i < 2 * cap by omega), wrap_eq (show pos + len < 2 * cap by omega)]
    split <;> split <;> rw [wrap_eq (by omega)] <;> split <;> omega
  simp only [store, if_pos hj, List.getD_eq_getElem?_getD, List.getElem?_eq_none hoff]
  rfl

theorem window_push (hfit : len + src.length ≤ cap) :
    window cap (store cap data ((pos + len) % cap) src) pos (len + src.length) =
      window cap data pos len ++ src := by
  rw [window_add, window_store_before data hpos hfit,
    window_store_same data (Nat.mod_lt _ (by omega)) (by omega)]

end

theorem window_pop (h : n ≤ len) :
    window cap data pos len = window cap data pos n ++ window cap data ((pos + n) % cap) (len - n) := by
  rw [← window_add, Nat.add_sub_cancel' h]

end

end Store

end RingBuffer
