import CheviotKernel.Proc.Process

namespace CheviotKernel.Procs

section Exits

variable {cfg : Config} {s : State} {p : ProcId} {c : ThreadId} {l m xs ys : List ThreadId}

def AtEnd (c : ThreadId) (l : List ThreadId) : Prop := l.head? = some c ∨ l.getLast? = some c

-- The lists do_kill_other_threads_and_wait finds until it returns: do_kill_thread does nothing, and the other threads
-- leave, or create more, while it sleeps.
inductive Found (c : ThreadId) (l : List ThreadId) : List ThreadId → Prop
  | call : Found c l l
  | leave {m : List ThreadId} (t : ThreadId) (h : Found c l m) (hm : ¬AtEnd c m) (ht : t ≠ c) : Found c l (m.erase t)
  | create {m : List ThreadId} (t : ThreadId) (h : Found c l m) (hm : ¬AtEnd c m) : Found c l (m ++ [t])

theorem exitFinish_iff_atEnd (hrun : s.panicked = false) (hc : sleeper s c = some (.exiting, p)) :
    (step cfg s (.exitFinish c)).isSome ↔ AtEnd c (s.proc p).threadList := by
  simp [step, transition, hrun, hc, AtEnd]

theorem Found.drop_front (h : Found c l (xs ++ c :: ys)) (hn : (xs ++ c :: ys).Nodup) (hy : ys ≠ []) :
    Found c l (c :: ys) := by
  induction xs with
  | nil => exact h
  | cons x xs ih =>
    have hx : x ≠ c := by
      rintro rfl
      simp at hn
    have hlast : (x :: xs ++ c :: ys).getLast? ≠ some c := by
      intro hl
      rw [List.getLast?_append_of_ne_nil _ (List.cons_ne_nil c ys), List.getLast?_cons_of_ne_nil hy] at hl
      exact (List.nodup_cons.mp (List.nodup_append.mp hn).2.1).1 (List.mem_of_getLast? hl)
    have hend : ¬AtEnd c (x :: xs ++ c :: ys) := by
      rintro (hh | hl)
      · exact hx (Option.some.inj hh)
      · exact hlast hl
    have hnext := h.leave x hend hx
    rw [List.cons_append, List.erase_cons_head] at hnext
    exact ih hnext (List.nodup_cons.mp hn).2

theorem waits_for_others_iff (hc : c ∈ l) (hn : l.Nodup) : (∀ m, Found c l m → AtEnd c m → m = [c]) ↔ l = [c] := by
  constructor
  · intro h
    obtain ⟨xs, ys, rfl⟩ := List.append_of_mem hc
    by_cases hy : ys = []
    · exact h _ .call (.inr (by simp [hy]))
    · have hfront := h _ (Found.call.drop_front hn hy) (.inl rfl)
      exact absurd (List.cons.inj hfront).2 hy
  · rintro rfl m hm -
    induction hm with
    | call => rfl
    | leave t _ hend _ ih => exact absurd (ih ▸ .inl rfl) hend
    | create t _ hend ih => exact absurd (ih ▸ .inl rfl) hend

theorem middle_thread_waits_too_little : (∀ m, Found 0 [0] m → AtEnd 0 m → m = [0]) ∧
    ¬∀ m, Found 1 [0, 1, 2] m → AtEnd 1 m → m = [1] :=
  ⟨(waits_for_others_iff (by decide) (by decide)).mpr rfl,
    fun h => absurd ((waits_for_others_iff (by decide) (by decide)).mp h) (by decide)⟩

theorem last_thread_returns_early : Found 1 [0, 1] [0, 1] ∧ AtEnd 1 [0, 1] := ⟨.call, .inr rfl⟩

end Exits

end CheviotKernel.Procs
