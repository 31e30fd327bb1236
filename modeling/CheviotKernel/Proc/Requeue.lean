import CheviotKernel.Proc.SleepWakeup

namespace CheviotKernel.Bkl

open Function Linked CheviotKernel.Lists

-- DLIST_REM_HEAD reads through the head of r_old, which may be NULL.
def taskRendezRequeue (s : State) (t : ThreadId) (rNew rOld : RendezId) : State :=
  match s.link.head (.rendez rOld) with
  | none => s.kernelpanic
  | some _ =>
    { s with link := dlistAddTail (dlistRemHead s.link (.rendez rOld)) (.rendez rNew) t }.set t
      { s.thread t with blockingRendez := some rNew }

-- The loop of sys_futex_requeue: its bound is the number of rounds it may still make, and it begins with n + m.
def requeueLoop (rendez : RendezId) (rendez2 : Option RendezId) (n : ℕ) : ℕ → State → ℕ → State × ℕ
  | 0, s, count => (s, count)
  | k + 1, s, count =>
    if s.panicked then (s, count)
    else match s.link.head (.rendez rendez) with
      | none => (s, count)
      | some t =>
        if count < n then requeueLoop rendez rendez2 n k (taskWakeupSpecific s t 0) (count + 1)
        else match rendez2 with
          | none => requeueLoop rendez rendez2 n k s (count + 1)
          | some r2 => requeueLoop rendez rendez2 n k (taskRendezRequeue s t rendez r2) (count + 1)

def sleepOn (s : State) (t : ThreadId) (r : RendezId) : State :=
  { s with link := dlistAddTail s.link (.rendez r) t }.set t
    { s.thread t with phase := .asleep, state := .rendezBlocked, blockingRendez := some r }

def futexRequeue (s : State) (rendez : RendezId) (n : BitVec 32) (rendez2 : Option RendezId) (m : BitVec 32) : State × ℕ :=
  requeueLoop rendez rendez2 n.toNat (n + m).toNat s 0

structure Queued (s : State) (ls : Blocked → List ThreadId) : Prop where
  family : Family s.link ls
  sleeping : ∀ r t, t ∈ ls (.rendez r) → (s.thread t).state = .rendezBlocked ∧ (s.thread t).blockingRendez = some r
  running : s.panicked = false

def woken (ls : Blocked → List ThreadId) (r : RendezId) (k : ℕ) : Blocked → List ThreadId :=
  update (update ls (.rendez r) ((ls (.rendez r)).drop k)) .bkl (ls .bkl ++ (ls (.rendez r)).take k)

structure Wakes (s s' : State) (ls : Blocked → List ThreadId) (r : RendezId) (k : ℕ) : Prop where
  queued : Queued s' (woken ls r k)
  woken : ∀ t ∈ (ls (.rendez r)).take k, (s'.thread t).state = .bklBlocked ∧ (s'.thread t).blockingRendez = none
  other : ∀ t ∉ (ls (.rendez r)).take k, s'.thread t = s.thread t

structure Requeued (s s' : State) (ls : Blocked → List ThreadId) (r r2 : RendezId) (n m count : ℕ) : Prop where
  queues : Queued s' (update (update (woken ls r n) (.rendez r) ((ls (.rendez r)).drop (n + m)))
    (.rendez r2) (ls (.rendez r2) ++ ((ls (.rendez r)).drop n).take m))
  woken : ∀ t ∈ (ls (.rendez r)).take n, (s'.thread t).state = .bklBlocked ∧ (s'.thread t).blockingRendez = none
  count : count = min n (ls (.rendez r)).length + min m ((ls (.rendez r)).length - n)

section

variable {s s' : State} {ls : Blocked → List ThreadId} {t : ThreadId} {r r2 : RendezId} {rendez2 : Option RendezId}
  {n k m : ℕ} {rest : List ThreadId}

theorem Queued.head (h : Queued s ls) (r : RendezId) : s.link.head (.rendez r) = (ls (.rendez r)).head? :=
  (h.family.spells (.rendez r)).head

theorem Queued.sleepOn (h : Queued s ls) (hoff : ∀ i, t ∉ ls i) (r : RendezId) :
    Queued (sleepOn s t r) (update ls (.rendez r) (ls (.rendez r) ++ [t])) := by
  refine ⟨family_addTail h.family hoff, ?_, h.running⟩
  intro q u hu
  by_cases ht : u = t
  · subst ht
    obtain rfl : q = r := by simpa using (mem_queue_iff hoff).mp hu
    simp [Bkl.sleepOn, State.set]
  have hold : u ∈ ls (.rendez q) := (mem_update_iff (by simp [ht]) (.rendez q)).mp hu
  have hsame : (Bkl.sleepOn s t r).thread u = s.thread u := set_thread_ne _ _ ht
  rw [hsame]
  exact h.sleeping q u hold

theorem Queued.wakeHead (h : Queued s ls) (hr : ls (.rendez r) = t :: rest) :
    Queued (taskWakeupSpecific s t 0) (woken ls r 1) ∧
      (taskWakeupSpecific s t 0).thread = update s.thread t
        { s.thread t with state := .bklBlocked, blockingRendez := none } := by
  have hmem : t ∈ ls (.rendez r) := by simp [hr]
  obtain ⟨hstate, hblocking⟩ := h.sleeping r t hmem
  have heq : taskWakeupSpecific s t 0 = blockOnBkl { s with link := dlistRemEntry s.link (.rendez r) t } t := by
    simp [taskWakeupSpecific, hstate, hblocking]
  have hr' : ls (.rendez r) = [] ++ t :: rest := hr
  have hlists := family_addTail (i := .bkl) (family_remEntry h.family hr') fun _ hm => ((mem_cut h.family hr').mp hm).1 rfl
  rw [heq]
  refine ⟨⟨?_, ?_, h.running⟩, rfl⟩
  · simpa [woken, hr, blockOnBkl, State.set] using hlists
  intro q u hu
  simp only [woken, hr, List.drop_succ_cons, List.drop_zero, ne_eq, reduceCtorEq, not_false_eq_true,
    update_of_ne] at hu
  have hold := (mem_cut h.family hr').mp hu
  have hsame := set_thread_ne { s with link := dlistAddTail (dlistRemEntry s.link (.rendez r) t) .bkl t }
    { s.thread t with state := .bklBlocked, blockingRendez := none } hold.1
  simp only [blockOnBkl]
  rw [hsame]
  exact h.sleeping q u hold.2

theorem woken_zero (ls : Blocked → List ThreadId) (r : RendezId) : woken ls r 0 = ls := by
  simp [woken]

theorem woken_nil (hr : ls (.rendez r) = []) (k : ℕ) : woken ls r k = ls := by
  have hsame : update ls (.rendez r) [] = ls := by rw [← hr, update_eq_self]
  simp [woken, hr, hsame]

theorem woken_succ (hr : ls (.rendez r) = t :: rest) (k : ℕ) : woken (woken ls r 1) r k = woken ls r (k + 1) := by
  simp [woken, hr, update_comm]

theorem requeueLoop_wakes (r : RendezId) (rendez2 : Option RendezId) (k count : ℕ) (h : Queued s ls) (hk : count + k ≤ n) :
    ∃ s', requeueLoop r rendez2 n k s count = (s', count + min k (ls (.rendez r)).length) ∧ Wakes s s' ls r k := by
  induction k generalizing s ls count with
  | zero => exact ⟨s, by simp [requeueLoop], by rwa [woken_zero], by simp, fun _ _ => rfl⟩
  | succ k ih =>
    cases hq : ls (.rendez r) with
    | nil =>
      have hhead : s.link.head (.rendez r) = none := by rw [h.head, hq]; rfl
      exact ⟨s, by simp [requeueLoop, hhead], by rwa [woken_nil hq], by simp [hq], fun _ _ => rfl⟩
    | cons t rest =>
      have hhead : s.link.head (.rendez r) = some t := by rw [h.head, hq]; rfl
      obtain ⟨hwoken, hthread⟩ := h.wakeHead hq
      have hrest : woken ls r 1 (.rendez r) = rest := by simp [woken, hq]
      have hnodup : (t :: rest).Nodup := hq ▸ (h.family.spells (.rendez r)).nodup
      obtain ⟨s', hloop, hqueued, hdone, hother⟩ := ih (count + 1) hwoken (by omega)
      rw [hrest] at hloop hdone hother
      have hlater : t ∉ rest.take k := fun hm => (List.nodup_cons.mp hnodup).1 (List.mem_of_mem_take hm)
      refine ⟨s', ?_, ?_, ?_, ?_⟩
      · simp only [requeueLoop, h.running, hhead, if_pos (show count < n by omega)]
        rw [if_neg (by simp), hloop]
        simp only [Prod.mk.injEq, true_and, List.length_cons]
        omega
      · rwa [woken_succ hq] at hqueued
      · intro u hu
        rcases List.mem_cons.mp (by simpa [hq] using hu) with rfl | hu
        · rw [hother u hlater, hthread, update_self]
          exact ⟨rfl, rfl⟩
        · exact hdone u hu
      · intro u hu
        have hne : u ≠ t ∧ u ∉ rest.take k := by simpa [hq] using hu
        rw [hother u hne.2, hthread, update_of_ne hne.1]

theorem requeueLoop_stop (hend : s.panicked = true ∨ s.link.head (.rendez r) = none) (k count : ℕ) :
    requeueLoop r rendez2 n k s count = (s, count) := by
  cases k with
  | zero => rfl
  | succ k =>
    rcases hend with hend | hend <;> simp [requeueLoop, hend]

theorem requeueLoop_add (a b : ℕ) (s : State) (count : ℕ) : requeueLoop r rendez2 n (a + b) s count =
    requeueLoop r rendez2 n b (requeueLoop r rendez2 n a s count).1 (requeueLoop r rendez2 n a s count).2 := by
  induction a generalizing s count with
  | zero => simp [requeueLoop]
  | succ a ih =>
    by_cases hp : s.panicked = true
    · simp only [requeueLoop_stop (.inl hp)]
    cases hhead : s.link.head (.rendez r) with
    | none => simp only [requeueLoop_stop (.inr hhead)]
    | some t =>
      rw [Nat.add_right_comm]
      simp only [requeueLoop, hp, hhead]
      by_cases hc : count < n
      · rw [if_pos hc, if_pos hc]
        exact ih _ _
      rw [if_neg hc, if_neg hc]
      cases rendez2 with
      | none | some r2 => exact ih _ _

theorem taskRendezRequeue_blocking (u : ThreadId) (h : (s.thread u).blockingRendez = some r) :
    ((taskRendezRequeue s t r r2).thread u).blockingRendez = some r := by
  unfold taskRendezRequeue
  cases s.link.head (.rendez r2) with
  | none => exact h
  | some _ =>
    by_cases hu : u = t
    · subst hu
      simp [State.set]
    · simpa [State.set, hu] using h

theorem requeueLoop_moves (k count : ℕ) (u : ThreadId) (hc : n ≤ count) (h : (s.thread u).blockingRendez = some r) :
    ((requeueLoop r rendez2 n k s count).1.thread u).blockingRendez = some r := by
  induction k generalizing s count with
  | zero => exact h
  | succ k ih =>
    rw [requeueLoop]
    split
    · exact h
    split
    · exact h
    rw [if_neg (by omega)]
    cases rendez2 with
    | none => exact ih (count + 1) (by omega) h
    | some r2 => exact ih (count + 1) (by omega) (taskRendezRequeue_blocking u h)

theorem requeueLoop_exhausted (h : Queued s ls) (hk : k ≤ n) (hlen : (ls (.rendez r)).length ≤ k) (a : ℕ) :
    requeueLoop r rendez2 n (k + a) s 0 = requeueLoop r rendez2 n k s 0 := by
  obtain ⟨s', hloop, hqueued, -⟩ := requeueLoop_wakes r rendez2 k 0 h (by omega : 0 + k ≤ n)
  have hempty : s'.link.head (.rendez r) = none := by
    rw [hqueued.head]
    simp [woken, List.drop_of_length_le hlen]
  rw [requeueLoop_add, hloop, requeueLoop_stop (.inr hempty)]

theorem requeued_of_wakes (h : Queued s ls) (hk : k ≤ n) (hne : r ≠ r2)
    (hall : k = n ∧ m = 0 ∨ (ls (.rendez r)).length ≤ k) :
    Requeued s (requeueLoop r rendez2 n k s 0).1 ls r r2 n m (requeueLoop r rendez2 n k s 0).2 := by
  obtain ⟨s', hloop, hqueued, hdone, -⟩ := requeueLoop_wakes r rendez2 k 0 h (by omega : 0 + k ≤ n)
  rw [hloop]
  obtain ⟨htake, hmoved, hdrop⟩ : (ls (.rendez r)).take n = (ls (.rendez r)).take k ∧
      ((ls (.rendez r)).drop n).take m = [] ∧ (ls (.rendez r)).drop (n + m) = (ls (.rendez r)).drop k := by
    rcases hall with ⟨rfl, rfl⟩ | hlen
    · exact ⟨rfl, by simp, rfl⟩
    · rw [List.take_of_length_le hlen, List.take_of_length_le (by omega), List.drop_of_length_le (by omega),
        List.drop_of_length_le (by omega), List.drop_of_length_le hlen]
      simp
  refine ⟨?_, ?_, ?_⟩
  · have hlists : update (update (woken ls r n) (.rendez r) ((ls (.rendez r)).drop (n + m)))
        (.rendez r2) (ls (.rendez r2) ++ ((ls (.rendez r)).drop n).take m) = woken ls r k := by
      rw [hmoved, hdrop]
      funext i
      cases i with
      | bkl => simp [woken, htake]
      | rendez q =>
        by_cases h2 : q = r2
        · subst h2
          simp [woken, hne.symm]
        by_cases h1 : q = r
        · subst h1
          simp [woken, h2]
        · simp [woken, h1, h2]
    rw [hlists]
    exact hqueued
  · rw [htake]
    exact hdone
  · omega

theorem requeueLoop_idle (k count : ℕ) (s : State) (hc : n ≤ count) : (requeueLoop r none n k s count).1 = s := by
  induction k generalizing count with
  | zero => rfl
  | succ k ih =>
    rw [requeueLoop]
    split
    · rfl
    split
    · rfl
    · rw [if_neg (by omega)]
      exact ih (count + 1) (by omega)

theorem futexRequeue_wakes {n m : BitVec 32} (h : Queued s ls)
    (hcond : rendez2 = none ∨ m = 0 ∨ (ls (.rendez r)).length ≤ min n.toNat (n + m).toNat) :
    ∃ j, Wakes s (futexRequeue s r n rendez2 m).1 ls r j := by
  have hwakes {k : ℕ} (hk : k ≤ n.toNat)
      (heq : (futexRequeue s r n rendez2 m).1 = (requeueLoop r rendez2 n.toNat k s 0).1) :
      ∃ j, Wakes s (futexRequeue s r n rendez2 m).1 ls r j := by
    obtain ⟨s', hloop, hdone⟩ := requeueLoop_wakes r rendez2 k 0 h (by omega : 0 + k ≤ n.toNat)
    rw [heq, hloop]
    exact ⟨k, hdone⟩
  obtain ⟨a, ha⟩ : ∃ a, (n + m).toNat = min n.toNat (n + m).toNat + a :=
    ⟨(n + m).toNat - min n.toNat (n + m).toNat, by omega⟩
  rcases hcond with rfl | rfl | hlen
  · by_cases hle : (n + m).toNat ≤ n.toNat
    · exact hwakes hle rfl
    refine hwakes le_rfl ?_
    rw [min_eq_left (by omega)] at ha
    simp only [futexRequeue]
    rw [ha]
    by_cases hlen : (ls (.rendez r)).length ≤ n.toNat
    · rw [requeueLoop_exhausted h le_rfl hlen]
    obtain ⟨s', hloop, -⟩ := requeueLoop_wakes r none n.toNat 0 h (by omega : 0 + n.toNat ≤ n.toNat)
    rw [requeueLoop_add, hloop]
    exact requeueLoop_idle a _ s' (by simp only; omega)
  · refine hwakes le_rfl ?_
    simp [futexRequeue]
  · refine hwakes (min_le_left n.toNat (n + m).toNat) ?_
    simp only [futexRequeue]
    rw [ha, requeueLoop_exhausted h (min_le_left _ _) hlen, ← ha]

theorem requeued_iff (s : State) (ls : Blocked → List ThreadId) (r r2 : RendezId) (n m : BitVec 32) (h : Queued s ls)
    (hne : r ≠ r2) :
    Requeued s (futexRequeue s r n (some r2) m).1 ls r r2 n.toNat m.toNat (futexRequeue s r n (some r2) m).2 ↔
      m = 0 ∨ (ls (.rendez r)).length ≤ min n.toNat (n + m).toNat := by
  unfold futexRequeue
  constructor
  · intro hrequeued
    by_contra hcond
    obtain ⟨hm0, hlen⟩ := not_or.mp hcond
    have hpos : 0 < m.toNat := by
      rw [Nat.pos_iff_ne_zero]
      exact fun hz => hm0 (BitVec.eq_of_toNat_eq hz)
    by_cases hwrap : (n + m).toNat < n.toNat
    · -- The sum has wrapped: the loop stops too early.
      obtain ⟨s', hloop, -⟩ := requeueLoop_wakes r (some r2) (n + m).toNat 0 h (by omega : 0 + (n + m).toNat ≤ n.toNat)
      have hcount := hrequeued.count
      rw [hloop] at hcount
      omega
    · -- The first thread to move sleeps on r for ever.
      obtain ⟨k, hk⟩ : ∃ k, (n + m).toNat = n.toNat + k := ⟨(n + m).toNat - n.toNat, by omega⟩
      obtain ⟨s', hloop, -, -, hother⟩ := requeueLoop_wakes r (some r2) n.toNat 0 h (by omega : 0 + n.toNat ≤ n.toNat)
      obtain ⟨t, rest, hdrop⟩ := List.exists_cons_of_ne_nil (List.drop_eq_nil_iff.not.mpr (by omega) :
        (ls (.rendez r)).drop n.toNat ≠ [])
      have hsplit := List.take_append_drop n.toNat (ls (.rendez r))
      have hmem : t ∈ ls (.rendez r) := by
        rw [← hsplit, hdrop]
        simp
      have hlater : t ∉ (ls (.rendez r)).take n.toNat := by
        intro hm
        have hnodup := (h.family.spells (.rendez r)).nodup
        rw [← hsplit, hdrop] at hnodup
        exact ne_of_mem_pre hnodup hm rfl
      have hstays : ((requeueLoop r (some r2) n.toNat (n + m).toNat s 0).1.thread t).blockingRendez = some r := by
        rw [hk, requeueLoop_add, hloop]
        refine requeueLoop_moves k _ t (by simp only; omega) ?_
        rw [hother t hlater]
        exact (h.sleeping r t hmem).2
      have hmoved := (hrequeued.queues.sleeping r2 t ?_).2
      · rw [hstays] at hmoved
        exact hne (Option.some.inj hmoved)
      rw [hdrop]
      obtain ⟨j, hj⟩ : ∃ j, m.toNat = j + 1 := ⟨m.toNat - 1, by omega⟩
      simp [hj]
  · rintro (rfl | hlen)
    · have hzero : (n + 0).toNat = n.toNat := by simp
      rw [hzero]
      exact requeued_of_wakes h le_rfl hne (.inl ⟨rfl, rfl⟩)
    obtain ⟨a, ha⟩ : ∃ a, (n + m).toNat = min n.toNat (n + m).toNat + a :=
      ⟨(n + m).toNat - min n.toNat (n + m).toNat, by omega⟩
    rw [ha, requeueLoop_exhausted h (min_le_left _ _) hlen]
    exact requeued_of_wakes h (min_le_left _ _) hne (.inr hlen)

def threeSleep : State := sleepOn (sleepOn (sleepOn boot 0 1) 1 1) 2 2

theorem threeSleep_queued : ∃ ls, Queued threeSleep ls ∧ ls (.rendez 1) = [0, 1] ∧ ls (.rendez 2) = [2] := by
  have hboot : Queued boot fun _ => [] := ⟨Family.empty, by simp, rfl⟩
  have h0 := hboot.sleepOn (t := 0) (by simp) 1
  have h1 := h0.sleepOn (t := 1) (off_update (by simp) (by simp)) 1
  have h2 := h1.sleepOn (t := 2) (off_update (fun j hj => by simp [hj]) (by simp)) 2
  exact ⟨_, h2, by simp, by simp⟩

theorem requeue_wakes_all : ∃ ls, Queued threeSleep ls ∧ ls (.rendez 1) = [0, 1] ∧
    Requeued threeSleep (futexRequeue threeSleep 1 2 (some 2) 5).1 ls 1 2 2 5 (futexRequeue threeSleep 1 2 (some 2) 5).2 := by
  obtain ⟨ls, hqueued, hone, -⟩ := threeSleep_queued
  refine ⟨ls, hqueued, hone, ?_⟩
  refine (requeued_iff threeSleep ls 1 2 2 5 hqueued (by decide)).mpr (.inr ?_)
  rw [hone]
  decide

theorem requeue_drops_sleeper : (futexRequeue threeSleep 1 1 (some 2) 1).2 = 2 ∧
      ((futexRequeue threeSleep 1 1 (some 2) 1).1.thread 1).blockingRendez = some 1 ∧
      (futexRequeue threeSleep 1 1 (some 2) 1).1.link.head (.rendez 2) = none ∧
      ((futexRequeue threeSleep 1 1 (some 2) 1).1.thread 2).state = .rendezBlocked ∧
      (futexRequeue threeSleep 1 4294967295 (some 2) 1).2 = 0 ∧
      ∀ ls, Queued threeSleep ls → ls (.rendez 1) = [0, 1] →
        ¬ Requeued threeSleep (futexRequeue threeSleep 1 1 (some 2) 1).1 ls 1 2 1 1
          (futexRequeue threeSleep 1 1 (some 2) 1).2 := by
  have hstays : ((futexRequeue threeSleep 1 1 (some 2) 1).1.thread 1).blockingRendez = some 1 := rfl
  refine ⟨rfl, hstays, rfl, rfl, rfl, ?_⟩
  intro ls _ hone hrequeued
  have hmoved := (hrequeued.queues.sleeping 2 1 (by simp [hone])).2
  exact absurd hmoved (by decide)

end

end CheviotKernel.Bkl
