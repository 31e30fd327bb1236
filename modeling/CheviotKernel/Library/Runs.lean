import Mathlib.Data.List.Basic

namespace Runs

variable {σ α : Type}

inductive Reach (step : σ → α → Option σ) (cond : σ → α → Prop) (init : σ → Prop) : σ → Prop
  | start {s : σ} (h : init s) : Reach step cond init s
  | next {s t : σ} {a : α} (h : Reach step cond init s) (hc : cond s a) (hs : step s a = some t) :
      Reach step cond init t

def always (_ : σ) (_ : α) : Prop := True

def exec (step : σ → α → Option σ) : σ → List α → Option σ
  | s, [] => some s
  | s, a :: as => match step s a with
      | none => none
      | some t => exec step t as

def Meets (step : σ → α → Option σ) (cond : σ → α → Prop) : σ → List α → Prop
  | _, [] => True
  | s, a :: as => cond s a ∧ match step s a with
      | none => True
      | some t => Meets step cond t as

instance decidableMeets (step : σ → α → Option σ) (cond : σ → α → Prop)
    [∀ s a, Decidable (cond s a)] : ∀ s as, Decidable (Meets step cond s as)
  | _, [] => inferInstanceAs (Decidable True)
  | s, a :: as =>
    have : Decidable (match step s a with
        | none => True
        | some t => Meets step cond t as) :=
      match step s a with
      | none => inferInstanceAs (Decidable True)
      | some t => decidableMeets step cond t as
    inferInstanceAs (Decidable (_ ∧ _))

variable {step : σ → α → Option σ} {cond cond' : σ → α → Prop} {init P Q I : σ → Prop} {s t : σ} {as : List α}

theorem guarded {c : Prop} [Decidable c] (h : (if c then some s else none) = some t) : c ∧ s = t := by
  split_ifs at h with hc
  exact ⟨hc, Option.some.inj h⟩

theorem Reach.invariant (h0 : ∀ s, init s → P s) (hstep : ∀ s a t, P s → cond s a → step s a = some t → P t)
    (h : Reach step cond init s) : P s := by
  induction h with
  | start h => exact h0 _ h
  | next _ hc hs ih => exact hstep _ _ _ ih hc hs

theorem Reach.exec (h : Reach step cond init s)
    (hm : Meets step cond s as) (he : exec step s as = some t) : Reach step cond init t := by
  induction as generalizing s with
  | nil =>
    cases he
    exact h
  | cons a as ih =>
    cases hs : step s a with
    | none => simp [Runs.exec, hs] at he
    | some u =>
      simp only [Meets, hs] at hm
      simp only [Runs.exec, hs] at he
      exact ih (h.next hm.1 hs) hm.2 he

theorem meets_of_forall (h : ∀ a ∈ as, ∀ s, cond s a) : Meets step cond s as := by
  induction as generalizing s with
  | nil => trivial
  | cons a as ih =>
    refine ⟨h a (by simp) s, ?_⟩
    cases step s a with
    | none => trivial
    | some t => exact ih fun b hb => h b (by simp [hb])

theorem meets_always (s : σ) (as : List α) : Meets step always s as := meets_of_forall fun _ _ _ => trivial

theorem Reach.exists_of_any (as : List α) (Q : σ → Bool) (h : init s) (hm : Meets step cond s as)
    (hq : (Runs.exec step s as).any Q = true) : ∃ t, Reach step cond init t ∧ Q t = true := by
  cases he : Runs.exec step s as with
  | none => simp [he] at hq
  | some t => exact ⟨t, (Reach.start h).exec hm he, by simpa [he] using hq⟩

theorem Reach.exists_of_run [DecidablePred Q] (as : List α) (h : init s)
    (hm : Meets step cond s as) (hq : (Runs.exec step s as).any (Q ·) = true)
    (hP : ∀ t, Reach step cond init t → Q t → P t) : ∃ t, Reach step cond init t ∧ P t := by
  obtain ⟨t, hr, ht⟩ := Reach.exists_of_any as _ h hm hq
  exact ⟨t, hr, hP t hr (of_decide_eq_true ht)⟩

def Throughout (step : σ → α → Option σ) (P : σ → Prop) : σ → List α → Prop
  | s, [] => P s
  | s, a :: as => P s ∧ match step s a with
      | none => True
      | some t => Throughout step P t as

theorem meets_congr (hI : ∀ s a t, I s → step s a = some t → I t) (h : ∀ s a, I s → (cond s a ↔ cond' s a)) (hs : I s) :
    Meets step cond s as ↔ Meets step cond' s as := by
  induction as generalizing s with
  | nil => rfl
  | cons a as ih =>
    unfold Meets
    rw [h s a hs]
    cases ht : step s a with
    | none => rfl
    | some t => exact and_congr_right fun _ => ih (hI s a t hs ht)

theorem Throughout.head (h : Throughout step P s as) : P s := by
  cases as with
  | nil => exact h
  | cons a as => exact h.1

theorem throughout_iff_meets (hI : ∀ s a t, I s → step s a = some t → I t)
    (hP : ∀ s a t, I s → P s → step s a = some t → (P t ↔ cond s a)) (hs : I s) (hp : P s)
    (he : exec step s as = some t) : Throughout step P s as ↔ Meets step cond s as := by
  induction as generalizing s with
  | nil => exact iff_of_true hp trivial
  | cons a as ih =>
    cases hu : step s a with
    | none => simp [Runs.exec, hu] at he
    | some u =>
      simp only [Runs.exec, hu] at he
      simp only [Throughout, Meets, hu]
      have hiff := hP s a u hs hp hu
      constructor
      · rintro ⟨-, hrun⟩
        exact ⟨hiff.mp hrun.head, (ih (hI s a u hs hu) hrun.head he).mp hrun⟩
      · rintro ⟨hc, hrun⟩
        have hpu := hiff.mpr hc
        exact ⟨hp, (ih (hI s a u hs hu) hpu he).mpr hrun⟩

end Runs
