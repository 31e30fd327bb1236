import Mathlib.Data.Finset.Card

namespace References

open Function

variable {α β : Type} [DecidableEq α]

structure Pool (α : Type) where
  count : α → ℤ
  free : List α

def Pool.take (x : Pool α) (a : α) (rest : List α) : Pool α := ⟨update x.count a 1, rest⟩

def Pool.hold (x : Pool α) (a : α) : Pool α := { x with count := update x.count a (x.count a + 1) }

def Pool.drop (x : Pool α) (a : α) : Pool α :=
  ⟨update x.count a (x.count a - 1), if x.count a - 1 = 0 then a :: x.free else x.free⟩

structure Balanced (objects : List α) (x : Pool α) (owners : α → Finset β) (loose : List α) : Prop where
  nodup : x.free.Nodup
  subset : ∀ a ∈ x.free, a ∈ objects
  count : ∀ a ∈ objects, x.count a = ((owners a).card + loose.count a : ℕ)
  free_iff : ∀ a ∈ objects, a ∈ x.free ↔ (owners a).card + loose.count a = 0

variable {objects loose' rest : List α} {x : Pool α} {owners owners' : α → Finset β} {loose : List α} {a : α} {b : β}

theorem Balanced.drop (h : Balanced objects x owners (a :: loose)) (ha : a ∈ objects) :
    Balanced objects (x.drop a) owners loose := by
  have hcount := h.count a ha
  have hfree : a ∉ x.free := by simp [h.free_iff a ha]
  rw [List.count_cons_self] at hcount
  refine ⟨?_, ?_, ?_, ?_⟩
  · unfold Pool.drop
    split_ifs
    · exact List.nodup_cons.mpr ⟨hfree, h.nodup⟩
    · exact h.nodup
  · intro c hc
    unfold Pool.drop at hc
    split_ifs at hc
    · rcases List.mem_cons.mp hc with rfl | hc
      · exact ha
      · exact h.subset c hc
    · exact h.subset c hc
  · intro c hc
    by_cases hca : c = a
    · subst hca
      simp only [Pool.drop, update_self]
      omega
    · simpa [Pool.drop, hca, List.count_cons_of_ne (Ne.symm hca)] using h.count c hc
  · intro c hc
    have hiff := h.free_iff c hc
    unfold Pool.drop
    by_cases hca : c = a
    · subst hca
      split_ifs with hz
      · simp only [List.mem_cons, true_or, true_iff]
        omega
      · simp only [hfree, false_iff]
        omega
    · rw [List.count_cons_of_ne (Ne.symm hca)] at hiff
      split_ifs
      · simpa [hca] using hiff
      · exact hiff

namespace Balanced

variable (h : Balanced objects x owners loose)
include h

theorem perm (hp : loose.Perm loose') : Balanced objects x owners loose' := by
  refine ⟨h.nodup, h.subset, ?_, ?_⟩
  · intro a ha
    rw [h.count a ha, hp.count_eq]
  · intro a ha
    rw [h.free_iff a ha, hp.count_eq]

theorem take (hf : x.free = a :: rest) : Balanced objects (x.take a rest) owners (a :: loose) := by
  have hnd := h.nodup
  rw [hf, List.nodup_cons] at hnd
  have ha : a ∈ objects := h.subset a (by simp [hf])
  have hzero := (h.free_iff a ha).mp (by simp [hf])
  refine ⟨hnd.2, fun c hc => h.subset c (by simp [hf, show c ∈ rest from hc]), ?_, ?_⟩
  · intro c hc
    by_cases hca : c = a
    · subst hca
      simp only [Pool.take, update_self, List.count_cons_self]
      omega
    · simp [Pool.take, hca, h.count c hc, List.count_cons_of_ne (Ne.symm hca)]
  · intro c hc
    by_cases hca : c = a
    · subst hca
      simp [Pool.take, hnd.1]
    · rw [List.count_cons_of_ne (Ne.symm hca), ← h.free_iff c hc, hf]
      simp [Pool.take, hca]

theorem hold (ha : a ∈ objects) (hf : a ∉ x.free) : Balanced objects (x.hold a) owners (a :: loose) := by
  refine ⟨h.nodup, h.subset, ?_, ?_⟩
  · intro c hc
    by_cases hca : c = a
    · subst hca
      simp only [Pool.hold, update_self, List.count_cons_self, h.count c hc]
      omega
    · simp [Pool.hold, hca, h.count c hc, List.count_cons_of_ne (Ne.symm hca)]
  · intro c hc
    by_cases hca : c = a
    · subst hca
      simp [Pool.hold, hf]
    · rw [List.count_cons_of_ne (Ne.symm hca)]
      exact h.free_iff c hc

theorem redistribute (hsame : ∀ c, (owners' c).card + loose'.count c = (owners c).card + loose.count c) :
    Balanced objects x owners' loose' := by
  refine ⟨h.nodup, h.subset, ?_, ?_⟩
  · intro c hc
    rw [hsame, h.count c hc]
  · intro c hc
    rw [hsame, h.free_iff c hc]

end Balanced

variable [DecidableEq β]

theorem Balanced.give (h : Balanced objects x owners (a :: loose)) (hb : b ∉ owners a) :
    Balanced objects x (update owners a (insert b (owners a))) loose := by
  refine h.redistribute fun c => ?_
  by_cases hca : c = a
  · subst hca
    rw [update_self, Finset.card_insert_of_notMem hb, List.count_cons_self]
    omega
  · rw [update_of_ne hca, List.count_cons_of_ne (Ne.symm hca)]

theorem Balanced.withdraw (h : Balanced objects x owners loose) (hb : b ∈ owners a) :
    Balanced objects x (update owners a ((owners a).erase b)) (a :: loose) := by
  refine h.redistribute fun c => ?_
  by_cases hca : c = a
  · subst hca
    have hpos : 0 < (owners c).card := Finset.card_pos.mpr ⟨b, hb⟩
    rw [update_self, Finset.card_erase_of_mem hb, List.count_cons_self]
    omega
  · rw [update_of_ne hca, List.count_cons_of_ne (Ne.symm hca)]

end References
