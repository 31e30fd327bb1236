import Mathlib.Data.List.Basic
import Mathlib.Order.Lattice

namespace Tiling

variable {α : Type}

def Tiles : α → α → List (α × α) → Prop
  | a, b, [] => a = b
  | a, b, t :: ts => t.1 = a ∧ Tiles t.2 b ts

section Ends

variable {a b : α} {t u : α × α} {ts us vs ws : List (α × α)}

theorem tiles_append : Tiles a b (ts ++ us) ↔ ∃ m, Tiles a m ts ∧ Tiles m b us := by
  induction ts generalizing a with
  | nil => simp [Tiles]
  | cons t ts ih =>
    simp only [List.cons_append, Tiles, ih]
    constructor
    · rintro ⟨ht, m, hm, hu⟩
      exact ⟨m, ⟨ht, hm⟩, hu⟩
    · rintro ⟨m, ⟨ht, hm⟩, hu⟩
      exact ⟨ht, m, hm, hu⟩

theorem Tiles.replace (h : Tiles a b (ts ++ us ++ vs)) (hw : ∀ m n, Tiles m n us → Tiles m n ws) :
    Tiles a b (ts ++ ws ++ vs) := by
  obtain ⟨n, hn, hv⟩ := tiles_append.mp h
  obtain ⟨m, ht, hu⟩ := tiles_append.mp hn
  exact tiles_append.mpr ⟨n, tiles_append.mpr ⟨m, ht, hw m n hu⟩, hv⟩

theorem Tiles.meet (h : Tiles a b (ts ++ t :: u :: us)) : t.2 = u.1 := by
  obtain ⟨m, -, -, hu, -⟩ := tiles_append.mp h
  exact hu.symm

end Ends

section Order

variable [LinearOrder α] {a b c lo hi : α} {t : α × α} {ts us vs ws : List (α × α)}

def Proper (ts : List (α × α)) : Prop := ∀ t ∈ ts, t.1 < t.2

structure Partition (a b : α) (ts : List (α × α)) : Prop where
  nonempty : Proper ts
  ordered : ts.Pairwise fun t u => t.2 ≤ u.1
  covers : ∀ n, a ≤ n ∧ n < b ↔ ∃ t ∈ ts, t.1 ≤ n ∧ n < t.2

theorem Proper.replace (h : Proper (ts ++ us ++ vs)) (hw : Proper us → Proper ws) : Proper (ts ++ ws ++ vs) := by
  have hus : Proper us := fun t ht => h t (by simp [ht])
  intro t ht
  simp only [List.mem_append] at ht
  rcases ht with (ht | ht) | ht
  · exact h t (by simp [ht])
  · exact hw hus t ht
  · exact h t (by simp [ht])

section

variable (h : Tiles a b ts) (hp : Proper ts)
include h hp

theorem Tiles.le : a ≤ b := by
  induction ts generalizing a with
  | nil => exact le_of_eq h
  | cons t ts ih =>
    have htail := ih h.2 fun u hu => hp u (List.mem_cons_of_mem t hu)
    have hhead := hp t List.mem_cons_self
    rw [h.1] at hhead
    exact hhead.le.trans htail

theorem Tiles.within (ht : t ∈ ts) : a ≤ t.1 ∧ t.2 ≤ b := by
  obtain ⟨pre, post, rfl⟩ := List.append_of_mem ht
  obtain ⟨m, hpre, hm, hpost⟩ := tiles_append.mp h
  have hlow := hpre.le fun u hu => hp u (by simp [hu])
  have hhigh := hpost.le fun u hu => hp u (by simp [hu])
  exact ⟨hm ▸ hlow, hhigh⟩

theorem Tiles.partition : Partition a b ts := by
  induction ts generalizing a with
  | nil =>
    obtain rfl : a = b := h
    refine ⟨hp, List.Pairwise.nil, fun n => ?_⟩
    simp
  | cons t ts ih =>
    obtain ⟨rfl, htail⟩ := h
    have hps : Proper ts := fun u hu => hp u (List.mem_cons_of_mem t hu)
    have hpart := ih htail hps
    have hhead := hp t List.mem_cons_self
    refine ⟨hp, List.pairwise_cons.mpr ⟨fun u hu => (htail.within hps hu).1, hpart.ordered⟩, fun n => ?_⟩
    simp only [List.mem_cons, exists_eq_or_imp]
    rw [← hpart.covers n]
    constructor
    · rintro ⟨hn, hb⟩
      exact (lt_or_ge n t.2).imp (fun hlt => ⟨hn, hlt⟩) fun hge => ⟨hge, hb⟩
    · rintro (⟨hn, hlt⟩ | ⟨hge, hb⟩)
      · exact ⟨hn, hlt.trans_le (htail.le hps)⟩
      · exact ⟨hhead.le.trans hge, hb⟩

end

def carve (b c lo hi : α) : List (α × α) :=
  (if b < lo then [(b, lo)] else []) ++ (lo, hi) :: if hi < c then [(hi, c)] else []

theorem tiles_carve (hlo : b ≤ lo) (hhi : hi ≤ c) : Tiles b c (carve b c lo hi) := by
  have hleft : Tiles b lo (if b < lo then [(b, lo)] else []) := by
    split_ifs with hlt
    · exact ⟨rfl, rfl⟩
    · exact le_antisymm hlo (not_lt.mp hlt)
  have hright : Tiles hi c (if hi < c then [(hi, c)] else []) := by
    split_ifs with hlt
    · exact ⟨rfl, rfl⟩
    · exact le_antisymm hhi (not_lt.mp hlt)
  exact tiles_append.mpr ⟨lo, hleft, rfl, hright⟩

theorem proper_carve (b c : α) (h : lo < hi) : Proper (carve b c lo hi) := by
  intro t ht
  unfold carve at ht
  all_goals
    aesop

end Order

section Labels

variable [LinearOrder α] {β : Type} {a b lo hi n mid : α} {cs ds : List ((α × α) × β)} {x : β}
  {pre post : List ((α × α) × β)}

def labelAt (cs : List ((α × α) × β)) (n : α) : Option β :=
  (cs.find? fun c => decide (c.1.1 ≤ n ∧ n < c.1.2)).map Prod.snd

theorem labelAt_append (cs ds : List ((α × α) × β)) (n : α) :
    labelAt (cs ++ ds) n = (labelAt cs n).or (labelAt ds n) := by
  simp only [labelAt, List.find?_append]
  cases cs.find? fun c => decide (c.1.1 ≤ n ∧ n < c.1.2) <;> simp

theorem labelAt_singleton (lo hi : α) (x : β) (n : α) :
    labelAt [((lo, hi), x)] n = if lo ≤ n ∧ n < hi then some x else none := by
  by_cases h : lo ≤ n ∧ n < hi <;> simp [labelAt]

theorem labelAt_eq_none (h : ∀ c ∈ cs, ¬ (c.1.1 ≤ n ∧ n < c.1.2)) : labelAt cs n = none := by
  simpa [labelAt] using h

theorem labelAt_cut (hlo : lo ≤ mid) (hhi : mid ≤ hi) (x : β) (n : α) :
    labelAt [((lo, mid), x), ((mid, hi), x)] n = labelAt [((lo, hi), x)] n := by
  have happ : labelAt [((lo, mid), x), ((mid, hi), x)] n =
      (labelAt [((lo, mid), x)] n).or (labelAt [((mid, hi), x)] n) := labelAt_append [((lo, mid), x)] _ n
  rw [happ, labelAt_singleton, labelAt_singleton, labelAt_singleton]
  rcases lt_or_ge n mid with hn | hn
  · simp [hn, hn.trans_le hhi, not_le.mpr hn]
  · simp [hn, hlo.trans hn, not_lt.mpr hn]

theorem labelAt_grow (hlo : lo ≤ mid) (hhi : mid ≤ hi) (x y : β) (n : α) :
    labelAt [((lo, hi), x)] n =
      if mid ≤ n ∧ n < hi then some x else labelAt [((lo, mid), x), ((mid, hi), y)] n := by
  have happ : labelAt [((lo, mid), x), ((mid, hi), y)] n =
      (labelAt [((lo, mid), x)] n).or (labelAt [((mid, hi), y)] n) := labelAt_append [((lo, mid), x)] _ n
  rw [happ, labelAt_singleton, labelAt_singleton, labelAt_singleton]
  rcases lt_or_ge n mid with hn | hn
  · simp [hn, hn.trans_le hhi, not_le.mpr hn]
  · by_cases hlt : n < hi
    · simp [hn, hlt, hlo.trans hn]
    · simp [hlt, not_lt.mpr hn]

theorem labelAt_paint (hpre : ∀ n, lo ≤ n → n < hi → labelAt pre n = none)
    (h : ∀ n, labelAt ds n = if lo ≤ n ∧ n < hi then some x else labelAt cs n) (n : α) :
    labelAt (pre ++ ds ++ post) n = if lo ≤ n ∧ n < hi then some x else labelAt (pre ++ cs ++ post) n := by
  simp only [labelAt_append, h]
  split_ifs with hn
  · simp [hpre n hn.1 hn.2]
  · rfl

end Labels

end Tiling
