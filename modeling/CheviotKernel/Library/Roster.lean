import Mathlib.Data.Finset.Card

@[ext]
structure Roster (K R M : Type) where
  table : K → Option R
  members : R → List M
  free : List R

namespace Roster

open Function

variable {K R M : Type} {x : Roster K R M} {key : M → Option K} {k : K} {r : R} {m : M}

def On (x : Roster K R M) (k : K) (m : M) : Prop := ∃ r, x.table k = some r ∧ m ∈ x.members r

structure Agrees (x : Roster K R M) (key : M → Option K) : Prop where
  mem : ∀ k r, x.table k = some r → ∀ m, m ∈ x.members r ↔ key m = some k
  nodup : ∀ k r, x.table k = some r → (x.members r).Nodup
  inhabited : ∀ k r, x.table k = some r → x.members r ≠ []
  kept : ∀ m k, key m = some k → x.table k ≠ none
  sole : ∀ k l r, x.table k = some r → x.table l = some r → k = l
  freeNodup : x.free.Nodup
  spare : ∀ r ∈ x.free, ∀ k, x.table k ≠ some r

theorem Agrees.on_iff (h : Agrees x key) : x.On k m ↔ key m = some k := by
  constructor
  · rintro ⟨r, hr, hm⟩
    exact (h.mem k r hr m).mp hm
  · intro hm
    obtain ⟨r, hr⟩ := Option.ne_none_iff_exists'.mp (h.kept m k hm)
    exact ⟨r, hr, (h.mem k r hr m).mpr hm⟩

variable [DecidableEq K] [DecidableEq R] [DecidableEq M]

def join (x : Roster K R M) (r : R) (m : M) : Roster K R M :=
  { x with members := update x.members r (x.members r ++ [m]) }

def leave (x : Roster K R M) (k : K) (r : R) (m : M) : Roster K R M :=
  if (x.members r).erase m = [] then
    ⟨update x.table k none, update x.members r [], x.free ++ [r]⟩
  else { x with members := update x.members r ((x.members r).erase m) }

def found (x : Roster K R M) (k : K) (r : R) (rest : List R) (m : M) : Roster K R M :=
  ⟨update x.table k (some r), update x.members r [m], rest⟩

theorem leave_table (x : Roster K R M) (k : K) (r : R) (m : M) (l : K) :
    (x.leave k r m).table l = x.table l ∨ (x.leave k r m).table l = none := by
  unfold leave
  split
  · by_cases hl : l = k
    · exact .inr (by simp [hl])
    · exact .inl (by simp [hl])
  · exact .inl rfl

omit [DecidableEq K] in
theorem Agrees.join (h : Agrees x key) (hr : x.table k = some r) (hm : key m = none) :
    Agrees (x.join r m) (update key m (some k)) := by
  have hne {n : M} {l : K} (hn : key n = some l) : n ≠ m := by
    rintro rfl
    rw [hm] at hn
    cases hn
  constructor
  · intro l q hq n
    by_cases hql : q = r
    · subst hql
      have hl := h.sole l k q hq hr
      subst hl
      by_cases hn : n = m
      · simp [Roster.join, hn]
      · simp [Roster.join, hn, h.mem l q hq]
    · have hlk : l ≠ k := by
        rintro rfl
        exact hql (Option.some.inj (hq.symm.trans hr))
      by_cases hn : n = m
      · have hnot : ¬ m ∈ x.members q := fun hmem => hne ((h.mem l q hq m).mp hmem) rfl
        simp [Roster.join, hn, hql, hnot, hlk.symm]
      · simp [Roster.join, hn, hql, h.mem l q hq]
  · intro l q hq
    by_cases hqr : q = r
    · subst hqr
      have hnot : m ∉ x.members q := fun hmem => hne ((h.mem k q hr m).mp hmem) rfl
      simp only [Roster.join, update_self]
      refine List.nodup_append.mpr ⟨h.nodup k q hr, List.nodup_singleton m, ?_⟩
      rintro a ha b hb rfl
      exact hnot (List.mem_singleton.mp hb ▸ ha)
    · simpa [Roster.join, hqr] using h.nodup l q hq
  · intro l q hq
    by_cases hqr : q = r
    · simp [Roster.join, hqr]
    · simpa [Roster.join, hqr] using h.inhabited l q hq
  · intro n l hn
    by_cases hnm : n = m
    · subst hnm
      rw [update_self] at hn
      cases hn
      simp [Roster.join, hr]
    · rw [update_of_ne hnm] at hn
      exact h.kept n l hn
  · exact h.sole
  · exact h.freeNodup
  · exact h.spare

theorem Agrees.leave (h : Agrees x key) (hr : x.table k = some r) (hm : key m = some k) :
    Agrees (x.leave k r m) (update key m none) := by
  have herase (n : M) : n ∈ (x.members r).erase m ↔ update key m none n = some k := by
    rw [(h.nodup k r hr).mem_erase_iff, h.mem k r hr]
    by_cases hn : n = m <;> simp [hn]
  have hother {l : K} {q : R} (hq : x.table l = some q) (hqr : q ≠ r) (n : M) :
      n ∈ x.members q ↔ update key m none n = some l := by
    rw [h.mem l q hq]
    by_cases hn : n = m
    · have hlk : k ≠ l := by
        rintro rfl
        exact hqr (Option.some.inj (hq.symm.trans hr))
      simp [hn, hm, hlk]
    · simp [hn]
  have hkey {n : M} {l : K} (hn : update key m none n = some l) : key n = some l := by
    by_cases hnm : n = m
    · simp [hnm] at hn
    · simpa [hnm] using hn
  unfold Roster.leave
  split
  · rename_i hnil
    have htable {l : K} {q : R} (hq : update x.table k none l = some q) : x.table l = some q ∧ q ≠ r := by
      by_cases hl : l = k
      · simp [hl] at hq
      rw [update_of_ne hl] at hq
      refine ⟨hq, ?_⟩
      rintro rfl
      exact hl (h.sole l k q hq hr)
    constructor
    · intro l q hq n
      dsimp only
      rw [update_of_ne (htable hq).2]
      exact hother (htable hq).1 (htable hq).2 n
    · intro l q hq
      dsimp only
      rw [update_of_ne (htable hq).2]
      exact h.nodup l q (htable hq).1
    · intro l q hq
      dsimp only
      rw [update_of_ne (htable hq).2]
      exact h.inhabited l q (htable hq).1
    · intro n l hn
      have hl : l ≠ k := by
        rintro rfl
        have := (herase n).mpr hn
        simp [hnil] at this
      dsimp only
      rw [update_of_ne hl]
      exact h.kept n l (hkey hn)
    · exact fun l l' q hq hq' => h.sole l l' q (htable hq).1 (htable hq').1
    · exact List.nodup_append.mpr ⟨h.freeNodup, List.nodup_singleton r, by
        rintro a ha b hb rfl
        exact h.spare a ha k (List.mem_singleton.mp hb ▸ hr)⟩
    · intro q hq l hl
      rcases List.mem_append.mp hq with hq | hq
      · exact h.spare q hq l (htable hl).1
      · exact (htable hl).2 (List.mem_singleton.mp hq)
  · rename_i hcons
    constructor
    · intro l q hq n
      by_cases hqr : q = r
      · subst hqr
        cases h.sole l k q hq hr
        simpa using herase n
      · simpa [hqr] using hother hq hqr n
    · intro l q hq
      by_cases hqr : q = r
      · subst hqr
        simpa using (h.nodup k q hr).erase m
      · simpa [hqr] using h.nodup l q hq
    · intro l q hq
      by_cases hqr : q = r
      · simpa [hqr] using hcons
      · simpa [hqr] using h.inhabited l q hq
    · exact fun n l hn => h.kept n l (hkey hn)
    · exact h.sole
    · exact h.freeNodup
    · exact h.spare

theorem Agrees.found {rest : List R} (h : Agrees x key) (hfree : x.free = r :: rest) (hk : x.table k = none)
    (hm : key m = none) : Agrees (x.found k r rest m) (update key m (some k)) := by
  have hspare := h.spare r (by simp [hfree])
  have hnodup := List.nodup_cons.mp (hfree ▸ h.freeNodup)
  have hcases {l : K} {q : R} (hq : (x.found k r rest m).table l = some q) :
      l = k ∧ q = r ∨ l ≠ k ∧ q ≠ r ∧ x.table l = some q := by
    by_cases hl : l = k
    · subst hl
      exact .inl ⟨rfl, by simpa [Roster.found, eq_comm] using hq⟩
    · have hq' : x.table l = some q := by simpa [Roster.found, hl] using hq
      exact .inr ⟨hl, fun hqr => hspare l (hqr ▸ hq'), hq'⟩
  have hnone (n : M) : key n ≠ some k := fun hn => h.kept n k hn hk
  constructor
  · intro l q hq n
    rcases hcases hq with ⟨rfl, rfl⟩ | ⟨hl, hqr, hq'⟩
    · by_cases hn : n = m
      · simp [Roster.found, hn]
      · simp [Roster.found, hn, hnone n]
    by_cases hn : n = m
    · have hnot : m ∉ x.members q := by
        rw [h.mem l q hq', hm]
        simp
      simp [Roster.found, hn, hqr, hnot, Ne.symm hl]
    · simp [Roster.found, hn, hqr, h.mem l q hq']
  · intro l q hq
    rcases hcases hq with ⟨rfl, rfl⟩ | ⟨-, hqr, hq'⟩
    · simp [Roster.found]
    · simpa [Roster.found, hqr] using h.nodup l q hq'
  · intro l q hq
    rcases hcases hq with ⟨rfl, rfl⟩ | ⟨-, hqr, hq'⟩
    · simp [Roster.found]
    · simpa [Roster.found, hqr] using h.inhabited l q hq'
  · intro n l hn
    by_cases hl : l = k
    · simp [Roster.found, hl]
    have hnm : n ≠ m := by
      rintro rfl
      rw [update_self] at hn
      exact hl (Option.some.inj hn).symm
    rw [update_of_ne hnm] at hn
    simpa [Roster.found, hl] using h.kept n l hn
  · intro l l' q hq hq'
    rcases hcases hq with ⟨rfl, rfl⟩ | ⟨-, hqr, hq⟩
    · rcases hcases hq' with ⟨rfl, -⟩ | ⟨-, hqr, -⟩
      · rfl
      · exact absurd rfl hqr
    · rcases hcases hq' with ⟨-, rfl⟩ | ⟨-, -, hq'⟩
      · exact absurd rfl hqr
      · exact h.sole l l' q hq hq'
  · exact hnodup.2
  · intro q hq l hl
    rcases hcases hl with ⟨-, rfl⟩ | ⟨-, -, hl⟩
    · exact hnodup.1 hq
    · exact h.spare q (hfree ▸ List.mem_cons_of_mem r hq) l hl

structure Covers (x : Roster K R M) (records : Finset R) (keys : Finset K) : Prop where
  covered : ∀ r ∈ records, r ∈ x.free ∨ ∃ k, x.table k = some r
  keys : ∀ k r, x.table k = some r → k ∈ keys

variable {records : Finset R} {keys : Finset K}

namespace Covers

variable (h : Covers x records keys)
include h

omit [DecidableEq K] [DecidableEq M] in
theorem join (r : R) (m : M) : Covers (x.join r m) records keys :=
  ⟨h.covered, h.keys⟩

theorem leave (hr : x.table k = some r) (m : M) : Covers (x.leave k r m) records keys := by
  unfold Roster.leave
  split
  · constructor
    · intro q hq
      rcases h.covered q hq with hfree | ⟨l, hl⟩
      · exact .inl (List.mem_append_left _ hfree)
      by_cases hlk : l = k
      · have hqr : q = r := Option.some.inj (hl.symm.trans (hlk ▸ hr))
        exact .inl (List.mem_append_right _ (by simp [hqr]))
      · exact .inr ⟨l, by simpa [hlk] using hl⟩
    · intro l q hq
      by_cases hlk : l = k
      · simp [hlk] at hq
      · exact h.keys l q (by simpa [hlk] using hq)
  · exact ⟨h.covered, h.keys⟩

omit [DecidableEq M] in
theorem found {rest : List R} (hfree : x.free = r :: rest)
    (hk : x.table k = none) (hkeys : k ∈ keys) (m : M) : Covers (x.found k r rest m) records keys := by
  constructor
  · intro q hq
    rcases h.covered q hq with hq | ⟨l, hl⟩
    · rw [hfree] at hq
      rcases List.mem_cons.mp hq with rfl | hq
      · exact .inr ⟨k, by simp [Roster.found]⟩
      · exact .inl hq
    · have hlk : l ≠ k := by
        rintro rfl
        rw [hk] at hl
        cases hl
      exact .inr ⟨l, by simpa [Roster.found, hlk] using hl⟩
  · intro l q hq
    by_cases hlk : l = k
    · exact hlk ▸ hkeys
    · exact h.keys l q (by simpa [Roster.found, hlk] using hq)

omit [DecidableEq K] [DecidableEq M] in
theorem free_ne_nil (hcard : keys.card < records.card) : x.free ≠ [] := by
  intro hnil
  have hused : records.image some ⊆ keys.image x.table := by
    intro o ho
    obtain ⟨r, hr, rfl⟩ := Finset.mem_image.mp ho
    obtain ⟨k, hk⟩ : ∃ k, x.table k = some r := by simpa [hnil] using h.covered r hr
    exact Finset.mem_image.mpr ⟨k, h.keys k r hk, hk⟩
  have hle : records.card ≤ keys.card := calc
    records.card = (records.image some).card := (Finset.card_image_of_injective _ (Option.some_injective R)).symm
    _ ≤ (keys.image x.table).card := Finset.card_le_card hused
    _ ≤ keys.card := Finset.card_image_le
  omega

end Covers

end Roster
