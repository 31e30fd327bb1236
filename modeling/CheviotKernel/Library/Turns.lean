import Mathlib.Data.List.Nodup

namespace Turns

variable {α : Type}

inductive Event (α : Type)
  | joined (a : α)
  | called (a : α)
  | passed (a follower : α)
  | left (a follower : α)
  deriving DecidableEq

def Event.who : Event α → α
  | .joined a => a
  | .called a => a
  | .passed a _ => a
  | .left a _ => a

inductive Line : List (Event α) → List α → Option α → Prop
  | empty : Line [] [] none
  | join {log : List (Event α)} {line : List α} {turn : Option α} {a : α} (h : Line log line turn) (ha : a ∉ line) :
      Line (.joined a :: log) (line ++ [a]) turn
  | call {log : List (Event α)} {line : List α} {a : α} (h : Line log (a :: line) none) :
      Line (.called a :: log) (a :: line) (some a)
  | pass {log : List (Event α)} {line : List α} {a : α} (h : Line log (a :: line) (some a)) :
      Line (.passed a (line.head?.getD a) :: log) (line ++ [a]) none
  | leave {log : List (Event α)} {line : List α} {a : α} (h : Line log (a :: line) (some a)) :
      Line (.left a (line.head?.getD a) :: log) line none

def Present : List (Event α) → α → Prop
  | [], _ => False
  | .joined a :: log, b => b = a ∨ Present log b
  | .left a _ :: log, b => b ≠ a ∧ Present log b
  | _ :: log, b => Present log b

variable {log pre mid post : List (Event α)} {line : List α} {turn : Option α} {a b d x : α} {e : Event α}

theorem Line.nodup (h : Line log line turn) : line.Nodup := by
  induction h with
  | empty => exact List.nodup_nil
  | join _ ha ih =>
    rw [List.nodup_append_comm]
    exact List.nodup_cons.mpr ⟨ha, ih⟩
  | call _ ih => exact ih
  | pass _ ih =>
    rw [List.nodup_append_comm]
    exact ih
  | leave _ ih => exact (List.nodup_cons.mp ih).2

theorem Line.mem_iff (h : Line log line turn) : b ∈ line ↔ Present log b := by
  induction h with
  | empty => simp [Present]
  | join _ _ ih => simp [Present, ih, or_comm]
  | call _ ih => exact ih
  | pass _ ih => simpa [Present, or_comm] using ih
  | @leave log line a h ih =>
    have ha := (List.nodup_cons.mp h.nodup).1
    rw [Present, ← ih, List.mem_cons]
    constructor
    · intro hb
      exact ⟨fun e => ha (e ▸ hb), .inr hb⟩
    · rintro ⟨hne, hb | hb⟩
      · exact absurd hb hne
      · exact hb

theorem Line.turn_head (h : Line log line (some a)) : ∃ rest, line = a :: rest := by
  generalize ht : some a = turn at h
  induction h with
  | empty | pass _ _ | leave _ _ => cases ht
  | join _ _ ih =>
    obtain ⟨rest, rfl⟩ := ih ht
    exact ⟨_, rfl⟩
  | call _ _ =>
    cases ht
    exact ⟨_, rfl⟩

theorem Line.suffix (h : Line (post ++ log) line turn) : ∃ line turn, Line log line turn := by
  induction post generalizing line turn with
  | nil => exact ⟨line, turn, h⟩
  | cons e post ih =>
    cases h with
    | join h _ | call h | pass h | leave h => exact ih h

section Follower

def Due (log : List (Event α)) (d : α) : Prop :=
  ∃ mid a pre, (log = mid ++ .passed a d :: pre ∨ log = mid ++ .left a d :: pre ∧ d ≠ a) ∧ ∀ y, .called y ∉ mid

theorem Due.cons (h : Due (e :: log) d) :
    (∃ a, e = .passed a d) ∨ (∃ a, e = .left a d ∧ d ≠ a) ∨ ((∀ y, e ≠ .called y) ∧ Due log d) := by
  obtain ⟨mid, a, pre, hlog, hmid⟩ := h
  cases mid with
  | nil =>
    rcases hlog with hlog | ⟨hlog, hne⟩
    · exact .inl ⟨a, (List.cons.inj hlog).1⟩
    · exact .inr (.inl ⟨a, (List.cons.inj hlog).1, hne⟩)
  | cons e' mid =>
    have hhead : e = e' := by
      rcases hlog with hlog | ⟨hlog, -⟩ <;> exact (List.cons.inj hlog).1
    refine .inr (.inr ⟨?_, mid, a, pre, ?_, fun y hy => hmid y (List.mem_cons_of_mem _ hy)⟩)
    · rintro y rfl
      exact hmid y (hhead ▸ List.mem_cons_self)
    · exact hlog.imp (fun e => (List.cons.inj e).2) fun e => ⟨(List.cons.inj e.1).2, e.2⟩

theorem Line.due (h : Line log line turn) (hd : Due log d) : turn = none ∧ line.head? = some d := by
  induction h with
  | empty =>
    obtain ⟨mid, a, pre, hlog | ⟨hlog, -⟩, -⟩ := hd
    · simp at hlog
    · simp at hlog
  | join _ _ ih =>
    rcases hd.cons with ⟨a, ha⟩ | ⟨a, ha, -⟩ | ⟨-, hd⟩
    · cases ha
    · cases ha
    · obtain ⟨hturn, hhead⟩ := ih hd
      exact ⟨hturn, by simp [hhead]⟩
  | call _ _ =>
    rcases hd.cons with ⟨a, ha⟩ | ⟨a, ha, -⟩ | ⟨hne, -⟩
    · cases ha
    · cases ha
    · exact absurd rfl (hne _)
  | @pass log line a _ ih =>
    rcases hd.cons with ⟨b, hb⟩ | ⟨b, hb, -⟩ | ⟨-, hd⟩
    · cases hb
      refine ⟨rfl, ?_⟩
      cases line <;> rfl
    · cases hb
    · exact absurd (ih hd).1 (by simp)
  | @leave log line a _ ih =>
    rcases hd.cons with ⟨b, hb⟩ | ⟨b, hb, hne⟩ | ⟨-, hd⟩
    · cases hb
    · cases hb
      refine ⟨rfl, ?_⟩
      cases line with
      | nil => exact absurd rfl hne
      | cons c line => rfl
    · exact absurd (ih hd).1 (by simp)

theorem Line.called_due (h : Line (post ++ .called x :: log) line turn) (hd : Due log d) : x = d := by
  obtain ⟨_, _, hx⟩ := h.suffix
  cases hx with
  | call hx => exact Option.some.inj (hx.due hd).2

end Follower

section Waiting

def Waits (log : List (Event α)) (x b : α) : Prop :=
  ∃ mid pre, log = mid ++ .called x :: pre ∧ Present pre b ∧ .called b ∉ mid

theorem Waits.cons (h : Waits (e :: log) x b) : (e = .called x ∧ Present log b) ∨ (e ≠ .called b ∧ Waits log x b) := by
  obtain ⟨mid, pre, hlog, hb, hmid⟩ := h
  cases mid with
  | nil =>
    obtain ⟨rfl, rfl⟩ := List.cons.inj hlog
    exact .inl ⟨rfl, hb⟩
  | cons e' mid =>
    obtain ⟨rfl, rfl⟩ := List.cons.inj hlog
    refine .inr ⟨?_, mid, pre, rfl, hb, fun hm => hmid (List.mem_cons_of_mem _ hm)⟩
    rintro rfl
    exact hmid List.mem_cons_self

def Ahead (line : List α) (b x : α) : Prop := ∀ l₁ l₂, line = l₁ ++ x :: l₂ → b ∈ l₁

theorem Ahead.append (h : Ahead line b x) (hb : b ∈ line) (a : α) : Ahead (line ++ [a]) b x := by
  intro l₁ l₂ e
  rcases List.append_eq_append_iff.mp e with ⟨m, rfl, hm⟩ | ⟨m, rfl, hm⟩
  · exact List.mem_append_left _ hb
  cases m with
  | nil =>
    rw [List.append_nil] at hb
    exact hb
  | cons c m =>
    obtain ⟨rfl, -⟩ := List.cons.inj hm
    exact h l₁ m rfl

theorem Ahead.of_notMem (h : x ∉ line) : Ahead line b x := by
  rintro l₁ l₂ rfl
  exact absurd (by simp) h

theorem Ahead.tail (h : Ahead (a :: line) b x) (hb : b ≠ a) : Ahead line b x := by
  rintro l₁ l₂ rfl
  rcases List.mem_cons.mp (h (a :: l₁) l₂ rfl) with hba | hmem
  · exact absurd hba hb
  · exact hmem

theorem Line.behind (h : Line log (a :: line) (some a))
    (hw : b ∈ a :: line ∧ some a ≠ some b ∧ (some a = some x ∨ Ahead (a :: line) b x)) :
    b ∈ line ∧ Ahead line b x := by
  obtain ⟨hmem, hturn, horder⟩ := hw
  have hne : b ≠ a := fun e => hturn (congrArg some e.symm)
  refine ⟨(List.mem_cons.mp hmem).resolve_left hne, ?_⟩
  rcases horder with hx | hx
  · cases hx
    exact Ahead.of_notMem (List.nodup_cons.mp h.nodup).1
  · exact hx.tail hne

theorem Line.waits (h : Line log line turn) (hb : b ≠ x) (hw : Waits log x b) :
    b ∈ line ∧ turn ≠ some b ∧ (turn = some x ∨ Ahead line b x) := by
  induction h with
  | empty =>
    obtain ⟨mid, pre, hlog, -⟩ := hw
    simp at hlog
  | join _ _ ih =>
    rcases hw.cons with ⟨he, -⟩ | ⟨-, hw⟩
    · cases he
    · obtain ⟨hmem, hturn, horder⟩ := ih hw
      exact ⟨List.mem_append_left _ hmem, hturn, horder.imp_right fun ho => ho.append hmem _⟩
  | @call log line a h ih =>
    rcases hw.cons with ⟨he, hp⟩ | ⟨he, hw⟩
    · cases he
      exact ⟨h.mem_iff.mpr hp, fun e => hb (Option.some.inj e).symm, .inl rfl⟩
    obtain ⟨hmem, -, horder⟩ := ih hw
    refine ⟨hmem, ?_, .inr (horder.resolve_left (by simp))⟩
    intro e
    exact he (congrArg Event.called (Option.some.inj e))
  | @pass log line a h ih =>
    rcases hw.cons with ⟨he, -⟩ | ⟨-, hw⟩
    · cases he
    · obtain ⟨hmem, hahead⟩ := h.behind (ih hw)
      exact ⟨List.mem_append_left _ hmem, by simp, .inr (hahead.append hmem a)⟩
  | leave h ih =>
    rcases hw.cons with ⟨he, -⟩ | ⟨-, hw⟩
    · cases he
    · obtain ⟨hmem, hahead⟩ := h.behind (ih hw)
      exact ⟨hmem, by simp, .inr hahead⟩

theorem Line.called_between (h : Line (post ++ .called x :: (mid ++ .called x :: pre)) line turn) (hb : b ≠ x)
    (hp : Present pre b) : .called b ∈ mid := by
  by_contra hmid
  obtain ⟨_, _, hx⟩ := h.suffix
  cases hx with
  | @call _ line _ hx =>
    obtain ⟨-, -, horder⟩ := hx.waits hb ⟨mid, pre, rfl, hp, hmid⟩
    have hnil := horder.resolve_left (by simp) [] line rfl
    simp at hnil

end Waiting

end Turns
