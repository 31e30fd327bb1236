import Mathlib.Data.Stream.Init

namespace Asking

variable {σ ρ ε α : Type}

structure Loop (σ ρ ε α : Type) where
  test : σ → Option α
  sends : σ → List ε
  takes : σ → ρ → List ε
  next : σ → ρ → σ ⊕ α

def Loop.run (L : Loop σ ρ ε α) : σ → List ρ → List ε × Option α
  | s, answers =>
    match L.test s with
    | some a => ([], some a)
    | none =>
      match answers with
      | [] => (L.sends s, none)
      | r :: answers =>
        match L.next s r with
        | .inl s' => (L.sends s ++ L.takes s r ++ (L.run s' answers).1, (L.run s' answers).2)
        | .inr a => (L.sends s ++ L.takes s r, some a)

def Loop.Meets (L : Loop σ ρ ε α) (H : σ → ρ → Prop) : σ → List ρ → Prop
  | _, [] => True
  | s, r :: answers => L.test s = none → H s r ∧ ∀ s', L.next s r = .inl s' → L.Meets H s' answers

def Safe (P : ε → Prop) (Q : α → Prop) (r : List ε × Option α) : Prop := (∀ e ∈ r.1, P e) ∧ ∀ a ∈ r.2, Q a

def Harmless (P : ε → Prop) (Q : α → Prop) (run : List ρ → List ε × Option α) (env : Stream' ρ) : Prop :=
  (∀ n, Safe P Q (run (env.take n))) ∧ ∃ n, (run (env.take n)).2 ≠ none

variable {L : Loop σ ρ ε α} {I : σ → Prop} {H : σ → ρ → Prop} {P : ε → Prop} {Q : α → Prop} {s s' : σ} {r : ρ} {a : α}
  {answers : List ρ}

theorem run_over (h : L.test s = some a) : L.run s answers = ([], some a) := by
  unfold Loop.run
  rw [h]

theorem run_nil (h : L.test s = none) : L.run s [] = (L.sends s, none) := by
  unfold Loop.run
  rw [h]

theorem run_goes_on (h : L.test s = none) (hn : L.next s r = .inl s') : L.run s (r :: answers) =
    (L.sends s ++ L.takes s r ++ (L.run s' answers).1, (L.run s' answers).2) := by
  rw [Loop.run, h]
  simp only [hn]

theorem run_ends_with (h : L.test s = none) (hn : L.next s r = .inr a) :
    L.run s (r :: answers) = (L.sends s ++ L.takes s r, some a) := by
  rw [Loop.run, h]
  simp only [hn]

theorem run_append {evs : List ε} (h : L.run s answers = (evs, some a)) (more : List ρ) :
    L.run s (answers ++ more) = (evs, some a) := by
  induction answers generalizing s evs with
  | nil =>
    cases ht : L.test s with
    | some b => rwa [run_over ht] at h ⊢
    | none =>
      rw [run_nil ht] at h
      cases h
  | cons r answers ih =>
    cases ht : L.test s with
    | some b => rwa [run_over ht] at h ⊢
    | none =>
      rw [List.cons_append]
      cases hn : L.next s r with
      | inr b => rwa [run_ends_with ht hn] at h ⊢
      | inl s' =>
        rw [run_goes_on ht hn, Prod.mk.injEq] at h
        rw [run_goes_on ht hn, ih (Prod.ext rfl h.2), ← h.1]

theorem forall_events_iff_meets (hsends : ∀ s, L.sends s = []) (htakes : ∀ s r, I s → L.test s = none →
      ((∀ e ∈ L.takes s r, P e) ↔ H s r)) (hI : ∀ s r s', I s → L.test s = none → L.next s r = .inl s' → I s')
    (hs : I s) : (∀ e ∈ (L.run s answers).1, P e) ↔ L.Meets H s answers := by
  induction answers generalizing s with
  | nil =>
    refine iff_of_true (fun e he => ?_) trivial
    cases ht : L.test s with
    | some a => simp [run_over ht] at he
    | none => simp [run_nil ht, hsends] at he
  | cons r answers ih =>
    cases ht : L.test s with
    | some a => simp [run_over ht, Loop.Meets, ht]
    | none =>
      simp only [Loop.Meets, ht, true_implies, ← htakes s r hs ht]
      cases hn : L.next s r with
      | inl s' =>
        simp only [run_goes_on ht hn, hsends, List.nil_append, List.forall_mem_append, ih (hI s r s' hs ht hn)]
        exact and_congr_right fun _ => ⟨fun h t e => Sum.inl.inj e ▸ h, fun h => h s' rfl⟩
      | inr a => simp [run_ends_with ht hn, hsends]

structure Keeps (L : Loop σ ρ ε α) (I : σ → Prop) (H : σ → ρ → Prop) (P : ε → Prop) (Q : α → Prop) : Prop where
  finished : ∀ s a, I s → L.test s = some a → Q a
  sends : ∀ s, I s → L.test s = none → ∀ e ∈ L.sends s, P e
  takes : ∀ s r, I s → L.test s = none → H s r → ∀ e ∈ L.takes s r, P e
  goesOn : ∀ s r s', I s → L.test s = none → H s r → L.next s r = .inl s' → I s'
  ends : ∀ s r a, I s → L.test s = none → H s r → L.next s r = .inr a → Q a

theorem safe_tail (ht : L.test s = none) (hn : L.next s r = .inl s') (h : Safe P Q (L.run s (r :: answers))) :
    Safe P Q (L.run s' answers) := by
  rw [run_goes_on ht hn] at h
  exact ⟨fun e he => h.1 e (List.mem_append_right _ he), h.2⟩

theorem harmless_const {r : List ε × Option α} (hr : Safe P Q r) (hover : r.2 ≠ none) (env : Stream' ρ) :
    Harmless P Q (fun _ => r) env := ⟨fun _ => hr, 0, hover⟩

section

variable (h : Keeps L I H P Q)
include h

theorem Keeps.safe (hs : I s) (hm : L.Meets H s answers) : Safe P Q (L.run s answers) := by
  induction answers generalizing s with
  | nil =>
    cases ht : L.test s with
    | some a =>
      rw [run_over ht]
      exact ⟨by simp, by simpa using h.finished s a hs ht⟩
    | none =>
      rw [run_nil ht]
      exact ⟨h.sends s hs ht, by simp⟩
  | cons r answers ih =>
    cases ht : L.test s with
    | some a =>
      rw [run_over ht]
      exact ⟨by simp, by simpa using h.finished s a hs ht⟩
    | none =>
      obtain ⟨hr, hrest⟩ := hm ht
      have hsend := h.sends s hs ht
      have htake := h.takes s r hs ht hr
      cases hn : L.next s r with
      | inl s' =>
        obtain ⟨hP, hQ⟩ := ih (h.goesOn s r s' hs ht hr hn) (hrest s' hn)
        rw [run_goes_on ht hn]
        refine ⟨fun e he => ?_, hQ⟩
        simp only [List.mem_append] at he
        exact he.elim (fun he => he.elim (hsend e) (htake e)) (hP e)
      | inr a =>
        rw [run_ends_with ht hn]
        refine ⟨fun e he => ?_, by simpa using h.ends s r a hs ht hr hn⟩
        exact (List.mem_append.mp he).elim (hsend e) (htake e)

-- The measure μ counts the rounds that can still come.
theorem Keeps.terminates (μ : σ → ℕ) (hμ : ∀ s r s', I s → L.test s = none → H s r →
      L.next s r = .inl s' → μ s' < μ s) (env : Stream' ρ) (hs : I s) (hm : ∀ n, L.Meets H s (env.take n)) :
    ∃ n, (L.run s (env.take n)).2 ≠ none := by
  induction hk : μ s using Nat.strong_induction_on generalizing s env with
  | _ k ih =>
    cases ht : L.test s with
    | some a => exact ⟨0, by simp [run_over ht]⟩
    | none =>
      have hhead := hm 1 ht
      cases hn : L.next s env.head with
      | inr a =>
        refine ⟨1, ?_⟩
        rw [Stream'.take_succ, run_ends_with ht hn]
        simp
      | inl s' =>
        have hlt := hμ s env.head s' hs ht hhead.1 hn
        have hrest : ∀ n, L.Meets H s' (env.tail.take n) := fun n => (hm (n + 1) ht).2 s' hn
        obtain ⟨n, hover⟩ := ih (μ s') (hk ▸ hlt) env.tail (h.goesOn s _ s' hs ht hhead.1 hn) hrest rfl
        refine ⟨n + 1, ?_⟩
        rwa [Stream'.take_succ, run_goes_on ht hn]

theorem Keeps.meets (hbad : ∀ s r, I s → L.test s = none → ¬ H s r → ¬ Safe P Q (L.run s [r]))
    (env : Stream' ρ) (hs : I s) (hsafe : ∀ n, Safe P Q (L.run s (env.take n))) (n : ℕ) : L.Meets H s (env.take n) := by
  induction n generalizing s env with
  | zero => trivial
  | succ n ih =>
    intro ht
    have hr : H s env.head := by
      by_contra hr
      exact hbad s env.head hs ht hr (hsafe 1)
    refine ⟨hr, fun s' hn => ih env.tail (h.goesOn s _ s' hs ht hr hn) fun m => ?_⟩
    exact safe_tail ht hn (hsafe (m + 1))

theorem Keeps.harmless_iff (μ : σ → ℕ) (hμ : ∀ s r s', I s → L.test s = none → H s r →
      L.next s r = .inl s' → μ s' < μ s)
    (hbad : ∀ s r, I s → L.test s = none → ¬ H s r → ¬ Safe P Q (L.run s [r])) (env : Stream' ρ) (hs : I s) :
    Harmless P Q (L.run s) env ↔ ∀ n, L.Meets H s (env.take n) := by
  constructor
  · rintro ⟨hsafe, -⟩ n
    exact h.meets hbad env hs hsafe n
  · intro hm
    exact ⟨fun n => h.safe hs (hm n), h.terminates μ hμ env hs hm⟩

end

end Asking
