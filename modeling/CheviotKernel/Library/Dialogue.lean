import Mathlib.Data.List.Basic
import Mathlib.Data.Option.Basic

namespace Dialogue

variable {κ ρ ε α β γ : Type}

structure World (κ ρ ε : Type) where
  state : κ
  answers : List ρ
  log : List ε

def Call (κ ρ ε α : Type) : Type := World κ ρ ε → Option α × World κ ρ ε

instance : Monad (Call κ ρ ε) where
  pure a := fun w => (some a, w)
  bind m f := fun w => match m w with
    | (some a, w') => f a w'
    | (none, w') => (none, w')

def look (f : κ → α) : Call κ ρ ε α := fun w => (some (f w.state), w)

def alter (f : κ → κ) : Call κ ρ ε Unit := fun w => (some (), { w with state := f w.state })

def emit (e : ε) : Call κ ρ ε Unit := fun w => (some (), { w with log := e :: w.log })

def ask (e : ε) (note : ρ → ε) (resume : ρ → κ → κ) : Call κ ρ ε ρ := fun w =>
  match w.answers with
  | [] => (none, { w with log := e :: w.log })
  | r :: rest => (some r, ⟨resume r w.state, rest, note r :: e :: w.log⟩)

section

variable {body : β → Call κ ρ ε (β ⊕ α)} {A : ε → Prop} {J : List ε → ε → Prop} {P P' : World κ ρ ε → Prop}
  {Q Q' : α → World κ ρ ε → Prop} {R I : β → World κ ρ ε → Prop} {C : List ε → Prop} {m : Call κ ρ ε α}
  {f : α → Call κ ρ ε β} {w w' : World κ ρ ε} {a : α} {e : ε} {note : ρ → ε} {resume : ρ → κ → κ} {new log : List ε}

def iterate (body : β → Call κ ρ ε (β ⊕ α)) : ℕ → β → Call κ ρ ε α
  | 0, _ => fun w => (none, w)
  | n + 1, b => body b >>= Sum.elim (iterate body n) pure

def loop (body : β → Call κ ρ ε (β ⊕ α)) (b : β) : Call κ ρ ε α := fun w =>
  iterate body (w.answers.length + 1) b w

def Takes (k : ℕ) (m : Call κ ρ ε α) : Prop :=
  ∀ w a w', m w = (some a, w') → w'.answers.length + k ≤ w.answers.length

def Waits (m : Call κ ρ ε (β ⊕ α)) : Prop :=
  ∀ w b w', m w = (some (.inl b), w') → w'.answers.length < w.answers.length

theorem bind_apply (m : Call κ ρ ε α) (f : α → Call κ ρ ε β) (w : World κ ρ ε) : (m >>= f) w = match m w with
      | (some a, w') => f a w'
      | (none, w') => (none, w') := rfl

theorem bind_some (h : m w = (some a, w')) : (m >>= f) w = f a w' := by
  rw [bind_apply, h]

theorem bind_none (h : m w = (none, w')) : (m >>= f) w = (none, w') := by
  rw [bind_apply, h]

theorem look_bind (g : κ → α) (f : α → Call κ ρ ε β) (w : World κ ρ ε) : (look g >>= f) w = f (g w.state) w := rfl

theorem bind_assoc_apply (m : Call κ ρ ε α) (f : α → Call κ ρ ε β) (g : β → Call κ ρ ε γ) (w : World κ ρ ε) :
    ((m >>= f) >>= g) w = (m >>= fun a => f a >>= g) w := by
  rcases he : m w with ⟨_ | a, w'⟩
  · rw [bind_none he, bind_none (bind_none he)]
  · rw [bind_some he, bind_apply, bind_some he, bind_apply]

namespace Takes

theorem of_same (h : ∀ w, (m w).2.answers = w.answers) : Takes 0 m := by
  intro w a w' he
  have hw := h w
  simp_all

theorem pure (a : α) : Takes 0 (pure a : Call κ ρ ε α) := .of_same fun _ => rfl

theorem look (f : κ → α) : Takes 0 (look f : Call κ ρ ε α) := .of_same fun _ => rfl

theorem alter (f : κ → κ) : Takes 0 (alter f : Call κ ρ ε Unit) := .of_same fun _ => rfl

theorem ask (e : ε) (note : ρ → ε) (resume : ρ → κ → κ) : Takes 1 (ask e note resume) := by
  intro w a w' he
  grind [Dialogue.ask]

theorem bind {j k : ℕ} (hm : Takes k m) (hf : ∀ a, Takes j (f a)) : Takes (j + k) (m >>= f) := by
  intro w b w' hb
  rcases he : m w with ⟨_ | a, u⟩
  · rw [bind_none he] at hb
    cases hb
  · rw [bind_some he] at hb
    have hle := hm w a u he
    have hle' := hf a u b w' hb
    omega

theorem weaken {k : ℕ} (h : Takes k m) : Takes 0 m := fun w a w' he => Nat.le_of_add_right_le (h w a w' he)

end Takes

theorem Waits.guarded {c : Prop} [Decidable c] {m : Call κ ρ ε (β ⊕ α)} (h : Takes 1 m) :
    Waits (if c then m else pure (.inr a)) := by
  intro w b w' hb
  split_ifs at hb
  · exact h w _ w' hb
  · cases hb

theorem iterate_stable (hc : ∀ b, Waits (body b)) (n m : ℕ) (b : β) (w : World κ ρ ε) (hn : w.answers.length < n)
    (hm : w.answers.length < m) : iterate body n b w = iterate body m b w := by
  induction n generalizing m b w with
  | zero => omega
  | succ n ih =>
    rcases m with _ | m
    · omega
    rw [iterate, iterate]
    rcases he : body b w with ⟨_ | b' | a, w'⟩
    · rw [bind_none he, bind_none he]
    · rw [bind_some he, bind_some he]
      have hlt := hc b w b' w' he
      exact ih m b' w' (by omega) (by omega)
    · rw [bind_some he, bind_some he]
      rfl

-- More fuel than loop has changes nothing.
def Ample (body : β → Call κ ρ ε (β ⊕ α)) : Prop :=
  ∀ n b w, w.answers.length < n → iterate body n b w = loop body b w

theorem ample_of_waits (hc : ∀ b, Waits (body b)) : Ample body :=
  fun n b w hn => iterate_stable hc n _ b w hn (Nat.lt_succ_self _)

def Emits (A : ε → Prop) (m : Call κ ρ ε α) : Prop :=
  ∀ w, ∃ new, (m w).2.log = new ++ w.log ∧ ∀ e ∈ new, A e

namespace Emits

theorem of_log (h : ∀ w, (m w).2.log = w.log) : Emits A m :=
  fun w => ⟨[], h w, by simp⟩

theorem pure (a : α) : Emits A (pure a : Call κ ρ ε α) := .of_log fun _ => rfl

theorem look (f : κ → α) : Emits A (look f : Call κ ρ ε α) := .of_log fun _ => rfl

theorem alter (f : κ → κ) : Emits A (alter f : Call κ ρ ε Unit) := .of_log fun _ => rfl

theorem emit (h : A e) : Emits A (emit e : Call κ ρ ε Unit) :=
  fun _ => ⟨[e], rfl, by simpa using h⟩

theorem ask (he : A e) (hn : ∀ r, A (note r)) : Emits A (ask e note resume) := by
  intro w
  unfold Dialogue.ask
  cases w.answers with
  | nil => exact ⟨[e], rfl, by simpa using he⟩
  | cons r rest => exact ⟨[note r, e], rfl, by simpa using ⟨hn r, he⟩⟩

theorem bind (hm : Emits A m) (hf : ∀ a, Emits A (f a)) : Emits A (m >>= f) := by
  intro w
  obtain ⟨new, hlog, hnew⟩ := hm w
  rcases he : m w with ⟨_ | a, w'⟩
  · rw [bind_none he]
    rw [he] at hlog
    exact ⟨new, hlog, hnew⟩
  rw [bind_some he]
  rw [he] at hlog
  obtain ⟨more, hmore, hall⟩ := hf a w'
  refine ⟨more ++ new, by rw [hmore, hlog, List.append_assoc], fun e hmem => ?_⟩
  rcases List.mem_append.mp hmem with h | h
  · exact hall e h
  · exact hnew e h

theorem iterate (h : ∀ b, Emits A (body b)) (n : ℕ) : ∀ b, Emits A (iterate body n b) := by
  induction n with
  | zero => exact fun b => .of_log fun _ => rfl
  | succ n ih =>
    intro b
    refine (h b).bind fun r => ?_
    cases r with
    | inl b' => exact ih b'
    | inr a => exact .pure a

theorem loop (h : ∀ b, Emits A (body b)) (b : β) : Emits A (loop body b) :=
  fun w => Emits.iterate h (w.answers.length + 1) b w

end Emits

def Justified (J : List ε → ε → Prop) : List ε → Prop
  | [] => True
  | e :: past => J past e ∧ Justified J past

instance decidableJustified (J : List ε → ε → Prop) [∀ past e, Decidable (J past e)] :
    ∀ log, Decidable (Justified J log)
  | [] => inferInstanceAs (Decidable True)
  | e :: past =>
    have := decidableJustified J past
    inferInstanceAs (Decidable (J past e ∧ Justified J past))

theorem Justified.of_append (h : Justified J (new ++ log)) : Justified J log := by
  induction new with
  | nil => exact h
  | cons e new ih => exact ih h.2

theorem Justified.of_bind
    (hf : ∀ a, Emits A (f a)) (hj : Justified J ((m >>= f) w).2.log) : Justified J (m w).2.log := by
  rcases he : m w with ⟨_ | a, w'⟩
  · rwa [bind_none he] at hj
  rw [bind_some he] at hj
  obtain ⟨new, hnew, -⟩ := hf a w'
  rw [hnew] at hj
  exact hj.of_append

theorem Justified.of_ask {f : ρ → Call κ ρ ε α} (hf : ∀ r, Emits A (f r))
    (hj : Justified J ((ask e note resume >>= f) w).2.log) : J w.log e := by
  have hask := hj.of_bind hf
  unfold Dialogue.ask at hask
  cases ha : w.answers with
  | nil =>
    rw [ha] at hask
    exact hask.1
  | cons r rest =>
    rw [ha] at hask
    exact hask.2.1

def Safe (J : List ε → ε → Prop) (P : World κ ρ ε → Prop) (m : Call κ ρ ε α) (Q : α → World κ ρ ε → Prop) : Prop :=
  ∀ w, Justified J w.log → P w → Justified J (m w).2.log ∧ ∀ a, (m w).1 = some a → Q a (m w).2

namespace Safe

theorem pure (h : ∀ w, P w → Q a w) : Safe J P (pure a) Q := by
  intro w hj hp
  refine ⟨hj, ?_⟩
  rintro b ⟨⟩
  exact h w hp

theorem bind (hm : Safe J P m Q) (hf : ∀ a, Safe J (Q a) (f a) R) : Safe J P (m >>= f) R := by
  intro w hj hp
  have hw := hm w hj hp
  rcases he : m w with ⟨_ | a, w'⟩
  · rw [bind_none he]
    rw [he] at hw
    exact ⟨hw.1, fun b hb => absurd hb (by simp)⟩
  · rw [bind_some he]
    rw [he] at hw
    exact hf a w' hw.1 (hw.2 a rfl)

theorem mono (h : Safe J P m Q) (hp : ∀ w, P' w → P w) (hq : ∀ a w, Q a w → Q' a w) : Safe J P' m Q' := by
  intro w hj hw
  obtain ⟨h1, h2⟩ := h w hj (hp w hw)
  exact ⟨h1, fun a ha => hq _ _ (h2 a ha)⟩

theorem look {f : κ → α} (h : ∀ w, P w → Q (f w.state) w) : Safe J P (look f) Q := by
  intro w hj hp
  refine ⟨hj, ?_⟩
  rintro b ⟨⟩
  exact h w hp

theorem alter {f : κ → κ} {Q : Unit → World κ ρ ε → Prop} (h : ∀ w, P w → Q () { w with state := f w.state }) :
    Safe J P (alter f) Q := by
  intro w hj hp
  refine ⟨hj, ?_⟩
  rintro b ⟨⟩
  exact h w hp

theorem emit {Q : Unit → World κ ρ ε → Prop} (he : ∀ w, P w → J w.log e)
    (h : ∀ w, P w → Q () { w with log := e :: w.log }) : Safe J P (emit e) Q := by
  intro w hj hp
  refine ⟨⟨he w hp, hj⟩, ?_⟩
  rintro b ⟨⟩
  exact h w hp

theorem ask {Q : ρ → World κ ρ ε → Prop} (he : ∀ w, P w → J w.log e) (hn : ∀ w r, P w → J (e :: w.log) (note r))
    (h : ∀ w r rest, P w → w.answers = r :: rest → Q r ⟨resume r w.state, rest, note r :: e :: w.log⟩) :
    Safe J P (ask e note resume) Q := by
  intro w hj hp
  unfold Dialogue.ask
  cases ha : w.answers with
  | nil => exact ⟨⟨he w hp, hj⟩, fun a h => absurd h (by simp)⟩
  | cons r rest =>
    refine ⟨⟨hn w r hp, he w hp, hj⟩, ?_⟩
    rintro b ⟨⟩
    exact h w r rest hp ha

theorem iterate
    (h : ∀ b, Safe J (I b) (body b) fun r => Sum.elim I Q r) (n : ℕ) : ∀ b, Safe J (I b) (iterate body n b) Q := by
  induction n with
  | zero =>
    intro b w hj _
    exact ⟨hj, fun a ha => absurd ha (by simp [Dialogue.iterate])⟩
  | succ n ih =>
    intro b
    refine (h b).bind fun r => ?_
    cases r with
    | inl b' => exact ih b'
    | inr a => exact Safe.pure fun w hw => hw

theorem loop (h : ∀ b, Safe J (I b) (body b) fun r => Sum.elim I Q r) (b : β) : Safe J (I b) (loop body b) Q :=
  fun w => Safe.iterate h (w.answers.length + 1) b w

end Safe

theorem Emits.silent (h : Emits (fun _ => False) m) : Safe J (fun w => C w.log) m fun _ w => C w.log := by
  intro w hj hc
  obtain ⟨new, hlog, hnew⟩ := h w
  rw [List.eq_nil_iff_forall_not_mem.mpr hnew] at hlog
  have hsame : C (m w).2.log := hlog ▸ hc
  exact ⟨hlog ▸ hj, fun _ _ => hsame⟩

theorem Emits.safe (h : Emits A m) (hC : ∀ past e, C past → C (e :: past)) (hJ : ∀ past e, C past → A e → J past e) :
    Safe J (fun w => C w.log) m fun _ w => C w.log := by
  intro w hj hc
  obtain ⟨new, hlog, hnew⟩ := h w
  have hall : Justified J (new ++ w.log) ∧ C (new ++ w.log) := by
    clear hlog
    induction new with
    | nil => exact ⟨hj, hc⟩
    | cons e new ih =>
      obtain ⟨h1, h2⟩ := ih fun e he => hnew e (List.mem_cons_of_mem _ he)
      exact ⟨⟨hJ _ e h2 (hnew e List.mem_cons_self), h1⟩, hC _ e h2⟩
  rw [← hlog] at hall
  exact ⟨hall.1, fun _ _ => hall.2⟩

end

end Dialogue
