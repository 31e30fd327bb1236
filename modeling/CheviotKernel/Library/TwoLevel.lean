import Mathlib.Data.Fintype.Card

namespace TwoLevel

open Function

structure Table (ι φ κ ν : Type) where
  dir : ι → Option φ
  leaf : φ → κ → Option ν

variable {ι φ κ ν : Type} {t : Table ι φ κ ν} {s : ι}

def Table.lookup (t : Table ι φ κ ν) (s : ι) (k : κ) : Option ν :=
  match t.dir s with
  | none => none
  | some f => t.leaf f k

theorem Table.lookup_of_none (h : t.dir s = none) (k : κ) : t.lookup s k = none := by
  simp [lookup, h]

theorem Table.lookup_of_some {f : φ} (h : t.dir s = some f) (k : κ) : t.lookup s k = t.leaf f k := by
  simp [lookup, h]

def Table.store [DecidableEq φ] [DecidableEq κ] (t : Table ι φ κ ν) (f : φ) (k : κ) (v : Option ν) : Table ι φ κ ν :=
  { t with leaf := update t.leaf f (update (t.leaf f) k v) }

def Table.attach [DecidableEq ι] [DecidableEq φ] (t : Table ι φ κ ν) (s : ι) (f : φ) : Table ι φ κ ν :=
  { dir := update t.dir s (some f), leaf := update t.leaf f (fun _ => none) }

def Table.detach [DecidableEq ι] (t : Table ι φ κ ν) (s : ι) : Table ι φ κ ν :=
  { t with dir := update t.dir s none }

structure Apart (own : ι → Prop) (t : Table ι φ κ ν) (pool : List φ) : Prop where
  nodup : pool.Nodup
  busy : ∀ s f, t.dir s = some f → f ∉ pool
  apart : ∀ s s' f, own s → t.dir s = some f → t.dir s' = some f → s' = s

variable {own : ι → Prop} {t : Table ι φ κ ν} {pool : List φ} {s : ι} {f : φ}

section Store

variable [DecidableEq φ] [DecidableEq κ]

theorem Apart.store (h : Apart own t pool) (f : φ) (k : κ) (v : Option ν) : Apart own (t.store f k v) pool :=
  ⟨h.nodup, h.busy, h.apart⟩

theorem Apart.lookup_store [DecidableEq ι] (h : Apart own t pool) (hs : own s) (hf : t.dir s = some f) (k : κ) (v : Option ν)
    (s' : ι) (k' : κ) :
    (t.store f k v).lookup s' k' = if s' = s ∧ k' = k then v else t.lookup s' k' := by
  have hdir : (t.store f k v).dir = t.dir := rfl
  cases hs' : t.dir s' with
  | none =>
    have hne : s' ≠ s := by
      rintro rfl
      rw [hf] at hs'
      cases hs'
    rw [Table.lookup_of_none (by rw [hdir, hs']), Table.lookup_of_none hs', if_neg (fun hh => hne hh.1)]
  | some f' =>
    rw [Table.lookup_of_some (by rw [hdir, hs']), Table.lookup_of_some hs']
    simp only [Table.store, update_apply]
    by_cases hff : f' = f
    · subst hff
      have hss : s' = s := h.apart s s' f' hs hf hs'
      simp [hss, update_apply]
    have hss : s' ≠ s := by
      rintro rfl
      rw [hf] at hs'
      exact hff (Option.some.inj hs').symm
    rw [if_neg hff, if_neg (fun hh => hss hh.1)]

end Store

section Slots

variable [DecidableEq ι] {rest pool' : List φ}

theorem Apart.attach [DecidableEq φ] (h : Apart own t (rest ++ [f])) (s : ι) : Apart own (t.attach s f) rest := by
  have hnd := List.nodup_append.mp h.nodup
  have hfresh : f ∉ rest := fun hm => hnd.2.2 f hm f (List.mem_singleton.mpr rfl) rfl
  have hunused : ∀ s', t.dir s' ≠ some f := fun s' h' => h.busy s' f h' (by simp)
  refine ⟨hnd.1, ?_, ?_⟩
  · intro s' f' hd hm
    simp only [Table.attach, update_apply] at hd
    split at hd
    · exact hfresh (Option.some.inj hd ▸ hm)
    · exact h.busy s' f' hd (List.mem_append_left _ hm)
  · intro s₁ s₂ f' ho h₁ h₂
    simp only [Table.attach, update_apply] at h₁ h₂
    split at h₁ <;> split at h₂
    · rw [‹s₁ = s›, ‹s₂ = s›]
    · exact absurd (h₂.trans h₁.symm) (hunused s₂)
    · exact absurd (h₁.trans h₂.symm) (hunused s₁)
    · exact h.apart s₁ s₂ f' ho h₁ h₂

theorem Apart.lookup_attach [DecidableEq φ] (h : Apart own t (rest ++ [f])) (hn : t.dir s = none) (s' : ι) (k : κ) :
    (t.attach s f).lookup s' k = t.lookup s' k := by
  have hunused : ∀ s', t.dir s' ≠ some f := fun s' h' => h.busy s' f h' (by simp)
  simp only [Table.lookup, Table.attach, update_apply]
  by_cases hss : s' = s
  · subst hss
    simp [hn]
  rw [if_neg hss]
  cases hd : t.dir s' with
  | none => rfl
  | some f' =>
    have hff : f' ≠ f := fun he => hunused s' (he ▸ hd)
    simp [hff]

theorem Apart.detach (h : Apart own t pool) (hs : own s) (hf : t.dir s = some f) (hnd : pool'.Nodup)
    (hp : ∀ f', f' ∈ pool' → f' ∈ pool ∨ f' = f) : Apart own (t.detach s) pool' := by
  have hold : ∀ s' f', (t.detach s).dir s' = some f' → s' ≠ s ∧ t.dir s' = some f' := by
    intro s' f' hd
    simp only [Table.detach, update_apply] at hd
    split_ifs at hd
    exact ⟨‹_›, hd⟩
  refine ⟨hnd, ?_, ?_⟩
  · intro s' f' hd hm
    obtain ⟨hne, hd'⟩ := hold s' f' hd
    rcases hp f' hm with hm' | rfl
    · exact h.busy s' f' hd' hm'
    · exact hne (h.apart s s' f' hs hf hd')
  · intro s₁ s₂ f' ho h₁ h₂
    exact h.apart s₁ s₂ f' ho (hold s₁ f' h₁).2 (hold s₂ f' h₂).2

theorem Table.lookup_detach (t : Table ι φ κ ν) (s s' : ι) (k : κ) :
    (t.detach s).lookup s' k = if s' = s then none else t.lookup s' k := by
  by_cases h : s' = s <;> simp [lookup, detach, h]

end Slots

section Population

variable [Fintype κ] {k : κ}

def Table.population (t : Table ι φ κ ν) (f : φ) : ℕ :=
  (Finset.univ.filter fun k => (t.leaf f k).isSome).card

theorem Table.population_eq_zero : t.population f = 0 ↔ ∀ k, t.leaf f k = none := by
  simp [population]

theorem Table.population_attach [DecidableEq ι] [DecidableEq φ] (t : Table ι φ κ ν) (s : ι) (f f' : φ) :
    (t.attach s f).population f' = if f' = f then 0 else t.population f' := by
  by_cases h : f' = f
  · rw [if_pos h, population_eq_zero]
    simp [attach, h]
  · simp [population, attach, h]

variable [DecidableEq φ] [DecidableEq κ]

theorem Table.population_store_of_ne (t : Table ι φ κ ν) {f' : φ} (h : f' ≠ f) (k : κ) (v : Option ν) :
    (t.store f k v).population f' = t.population f' := by
  simp [population, store, h]

theorem Table.population_store_some (h : t.leaf f k = none) (v : ν) :
    (t.store f k (some v)).population f = t.population f + 1 := by
  have hset : (Finset.univ.filter fun k' => ((t.store f k (some v)).leaf f k').isSome)
      = insert k (Finset.univ.filter fun k' => (t.leaf f k').isSome) := by
    ext k'
    by_cases hk : k' = k <;> simp [store, hk]
  rw [population, hset, Finset.card_insert_of_notMem (by simp [h])]
  rfl

theorem Table.population_store_none (h : t.leaf f k ≠ none) : (t.store f k none).population f + 1 = t.population f := by
  have hset : (Finset.univ.filter fun k' => ((t.store f k none).leaf f k').isSome)
      = (Finset.univ.filter fun k' => (t.leaf f k').isSome).erase k := by
    ext k'
    by_cases hk : k' = k <;> simp [store, hk]
  rw [population, hset]
  exact Finset.card_erase_add_one (by simpa [Option.isSome_iff_ne_none] using h)

theorem Table.population_store_same (h : t.leaf f k ≠ none) (v : ν) :
    (t.store f k (some v)).population f = t.population f := by
  have hset : (Finset.univ.filter fun k' => ((t.store f k (some v)).leaf f k').isSome)
      = Finset.univ.filter fun k' => (t.leaf f k').isSome := by
    ext k'
    by_cases hk : k' = k
    · simp [store, hk, Option.isSome_iff_ne_none, h]
    · simp [store, hk]
  rw [population, hset]
  rfl

end Population

end TwoLevel
