import Mathlib.Data.List.Basic

namespace Latch

inductive Entry (w : ℕ)
  | put (bits : BitVec w)
  | take (mask got : BitVec w)

variable {w : ℕ} {h pre post mid : List (Entry w)} {m g b : BitVec w} {i : ℕ}

def held : List (Entry w) → BitVec w
  | [] => 0
  | .put b :: h => held h ||| b
  | .take m _ :: h => held h &&& ~~~m

def Kept : List (Entry w) → Prop
  | [] => True
  | .put _ :: h => Kept h
  | .take m g :: h => g = held h &&& m ∧ Kept h

structure Delivered (h : List (Entry w)) : Prop where
  first : ∀ post m g mid b pre i, h = post ++ .take m g :: (mid ++ .put b :: pre) → b.getLsbD i = true →
    m.getLsbD i = true → (∀ m' g', .take m' g' ∈ mid → m'.getLsbD i = false) → g.getLsbD i = true
  once : ∀ post m g pre i, h = post ++ .take m g :: pre → g.getLsbD i = true →
    m.getLsbD i = true ∧ ∃ mid b rest, pre = mid ++ .put b :: rest ∧ b.getLsbD i = true ∧
      ∀ m' g', .take m' g' ∈ mid → g'.getLsbD i = false

theorem Kept.suffix (h : Kept (post ++ pre)) : Kept pre := by
  induction post with
  | nil => exact h
  | cons e post ih =>
    cases e with
    | put b => exact ih h
    | take m g => exact ih h.2

theorem Kept.got (h : Kept (post ++ .take m g :: pre)) : g = held pre &&& m := h.suffix.1

theorem Kept.within (h : Kept (mid ++ pre)) (hm : .take m g ∈ mid) (hg : m.getLsbD i = false) : g.getLsbD i = false := by
  obtain ⟨newer, older, rfl⟩ := List.append_of_mem hm
  rw [List.append_assoc] at h
  rw [h.got, BitVec.getLsbD_and, hg, Bool.and_false]

theorem held_getLsbD (h : List (Entry w)) (i : ℕ) : (held h).getLsbD i = true ↔
    ∃ mid b pre, h = mid ++ .put b :: pre ∧ b.getLsbD i = true ∧ ∀ m g, .take m g ∈ mid → m.getLsbD i = false := by
  induction h with
  | nil => simp [held]
  | cons e h ih =>
    cases e with
    | put b =>
      rw [held, BitVec.getLsbD_or, Bool.or_eq_true_iff, ih]
      constructor
      · rintro (⟨mid, b', pre, rfl, hb, hno⟩ | hb)
        · refine ⟨.put b :: mid, b', pre, rfl, hb, fun m g hm => hno m g ?_⟩
          simpa using hm
        · exact ⟨[], b, h, rfl, hb, by simp⟩
      · rintro ⟨mid, b', pre, he, hb, hno⟩
        cases mid with
        | nil =>
          obtain ⟨rfl, rfl⟩ : b = b' ∧ h = pre := by simpa using he
          exact .inr hb
        | cons e mid =>
          obtain ⟨-, rfl⟩ := List.cons.inj he
          exact .inl ⟨mid, b', pre, rfl, hb, fun m g hm => hno m g (List.mem_cons_of_mem e hm)⟩
    | take m g =>
      rw [held, BitVec.getLsbD_and, BitVec.getLsbD_not, Bool.and_eq_true_iff, ih]
      constructor
      · rintro ⟨⟨mid, b, pre, rfl, hb, hno⟩, hm⟩
        refine ⟨.take m g :: mid, b, pre, rfl, hb, fun m' g' hmem => ?_⟩
        rcases List.mem_cons.mp hmem with he | hmem
        · obtain ⟨rfl, rfl⟩ : m' = m ∧ g' = g := by simpa using he
          simpa using (Bool.and_eq_true_iff.mp hm).2
        · exact hno m' g' hmem
      · rintro ⟨mid, b, pre, he, hb, hno⟩
        cases mid with
        | nil => simp at he
        | cons e mid =>
          obtain ⟨rfl, rfl⟩ := List.cons.inj he
          refine ⟨⟨mid, b, pre, rfl, hb, fun m' g' hm => hno m' g' (List.mem_cons_of_mem _ hm)⟩, ?_⟩
          have hlt : i < w := BitVec.lt_of_getLsbD hb
          rw [decide_eq_true hlt, hno m g (by simp)]
          rfl

theorem Kept.delivered (h : Kept pre) : Delivered pre := by
  constructor
  · rintro post m g mid b rest i rfl hb hm hno
    rw [h.got, BitVec.getLsbD_and, hm, Bool.and_true]
    exact (held_getLsbD _ i).mpr ⟨mid, b, rest, rfl, hb, hno⟩
  rintro post m g rest i rfl hg
  rw [h.got, BitVec.getLsbD_and, Bool.and_eq_true_iff] at hg
  obtain ⟨mid, b, older, rfl, hb, hno⟩ := (held_getLsbD rest i).mp hg.1
  have hrest : Kept (mid ++ .put b :: older) := h.suffix.2
  exact ⟨hg.2, mid, b, older, rfl, hb, fun m' g' hm => hrest.within hm (hno m' g' hm)⟩

end Latch
