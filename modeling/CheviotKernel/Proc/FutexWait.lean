import CheviotKernel.Proc.Futex

namespace CheviotKernel.Futexes

open Function Linked CheviotKernel.Lists Runs Bkl

def Waits : Call → Prop
  | .wait _ _ timeout => timeout = none
  | .requeue _ _ uaddr2 m => uaddr2 = 0 ∧ m = 0
  | _ => False

def PoolLeft (x : System) (p : ProcId) (uaddr : Uaddr) : Prop :=
  missing x.table p [uaddr] ≤ x.table.freeFutexList.length

def Allowed (x : System) : Action → Prop
  | .call _ call => Waits call
  | .go t => ∀ uaddr, ((∃ val, x.phase t = .holding (.wait uaddr val none)) ∨ ∃ n, x.phase t = .holding (.wake uaddr n)) →
      PoolLeft x (x.proc t) uaddr
  | .exit _ => False
  | .exec _ => False
  | _ => True

structure Sleepers (x : System) (p : ProcId) (uaddr : Uaddr) (ts : List ThreadId) : Prop where
  mem : ∀ t, t ∈ ts ↔ x.proc t = p ∧ x.phase t = .sleeping uaddr ∧ ∃ f, Asleep x t f
  arrival : ts.Pairwise fun t u => x.ticket t < x.ticket u

structure WakesFirst (x y : System) (u : ThreadId) (uaddr : Uaddr) (n : ℕ) (ts : List ThreadId) : Prop where
  seen : Sleepers x (x.proc u) uaddr ts
  ret : y.phase u = .user ∧ y.ret u = some (.count (min n ts.length))
  woken : ∀ t ∈ ts.take n, (y.bkl.thread t).state = .bklBlocked
  other : ∀ t ∉ ts.take n, y.bkl.thread t = x.bkl.thread t
  inOrder : ∃ ls ls', Queued x.bkl ls ∧ Queued y.bkl ls' ∧ ls' .bkl = ls .bkl ++ ts.take n
  left : Sleepers y (x.proc u) uaddr (ts.drop n)

def PlainPhase : Phase → Prop
  | .locking call => Waits call
  | .holding call => Waits call
  | .killing _ => False
  | _ => True

def Plain (x : System) : Prop := ∀ t, PlainPhase (x.phase t)

structure NotLost (x : System) : Prop where
  replaced : ∀ t uaddr val cval, x.phase t = .holding (.wait uaddr val none) → x.memory (x.proc t) uaddr = some cval →
    cval ≠ val → ∃ y, step x (.go t) = some y ∧ y.phase t = .user ∧ y.ret t = some .eagain
  sleeps : ∀ t uaddr val, x.phase t = .holding (.wait uaddr val none) → x.memory (x.proc t) uaddr = some val →
    uaddr % 4 = 0 → PoolLeft x (x.proc t) uaddr → ∃ y ts, step x (.go t) = some y ∧
      Sleepers x (x.proc t) uaddr ts ∧ Sleepers y (x.proc t) uaddr (ts ++ [t])
  stays : ∀ t uaddr, x.phase t = .sleeping uaddr → (∃ f, Asleep x t f) ∨ (x.bkl.thread t).state = .bklBlocked
  wakes : ∀ u uaddr n, x.phase u = .holding (.wake uaddr n) → PoolLeft x (x.proc u) uaddr →
    ∃ y ts, step x (.go u) = some y ∧ WakesFirst x y u uaddr n.toNat ts

section Sleeping

variable {x y : System} {ls : Blocked → List ThreadId} {t u : ThreadId} {p q : ProcId} {uaddr v : Uaddr} {f : FutexId}
  {call : Call} {got : Got} {val n : BitVec 32} {a : Action}

theorem Fetched.sleepers {ts : List ThreadId} (h : Fetched x y q v got)
    (hy : Sleepers y p uaddr ts) : Sleepers x p uaddr ts := by
  rw [h.frame] at hy
  exact ⟨hy.mem, hy.arrival⟩

theorem Fetched.thread (h : Fetched x y p uaddr got) : y.bkl.thread = x.bkl.thread := by
  rw [h.frame]

theorem futexGet_got (hal : uaddr % 4 = 0) (hpool : PoolLeft x p uaddr) : ∃ y f, futexGet x p uaddr = (y, .futex f) := by
  unfold futexGet
  rw [if_neg (by simpa using hal)]
  cases hfind : futexFind x.table p uaddr with
  | some f => exact ⟨x, f, rfl⟩
  | none =>
    cases hfree : x.table.freeFutexList with
    | nil =>
      have hpos := missing_pos (List.mem_singleton_self uaddr) hal hfind
      rw [PoolLeft, hfree, List.length_nil] at hpool
      omega
    | cons f rest => exact ⟨_, f, rfl⟩

theorem Plain.set {q : Phase} (h : Plain x) (hq : PlainPhase q) (hy : y.phase = update x.phase t q) : Plain y := by
  intro u
  rw [hy]
  by_cases hut : u = t
  · subst hut
    rw [update_self]
    exact hq
  · rw [update_of_ne hut]
    exact h u

theorem Plain.careful (h : Plain x) (ha : Allowed x a) : Careful x a := by
  cases a with
  | go t =>
    intro call hcall
    have hplain : PlainPhase (.holding call) := hcall ▸ h t
    cases call with
    | destroy uaddr | fini exec => exact hplain.elim
    | wait uaddr val timeout =>
      obtain rfl : timeout = none := hplain
      exact ha uaddr (.inl ⟨val, hcall⟩)
    | requeue uaddr n uaddr2 m =>
      obtain ⟨rfl, rfl⟩ : uaddr2 = 0 ∧ m = 0 := hplain
      exact ⟨ha uaddr (.inr ⟨n, hcall⟩), .inl rfl⟩
  | create t p | store p uaddr val | call t call | exit t | exec t | die t | fail t | grant => trivial

namespace Inv

variable (h : Inv x ls)
include h

theorem sleeper (hf : f ∈ x.table.futexList p) (hu : (x.table.futex f).uaddr = uaddr) :
    t ∈ ls (.rendez f) ↔ x.proc t = p ∧ x.phase t = .sleeping uaddr ∧ ∃ g, Asleep x t g := by
  constructor
  · intro hm
    have hs := h.queued.sleeping f t hm
    have hproc := (h.table.owned _ f (h.live t f hs)).1
    obtain ⟨v, hv⟩ : ∃ v, x.phase t = .sleeping v := by
      by_contra hnone
      exact h.off t (not_exists.mp hnone) _ hm
    have hword := h.word t f v hs hv
    refine ⟨hproc.symm.trans (h.table.owned p f hf).1, ?_, f, hs⟩
    rw [hv, ← hword, hu]
  · rintro ⟨hp, hphase, g, hs⟩
    have hlive := h.live t g hs
    rw [hp] at hlive
    have hword := h.word t g uaddr hs hphase
    rw [h.table.unique p f g hf hlive (hu.trans hword.symm)]
    exact h.blocked t g hs

theorem sleepers (hf : f ∈ x.table.futexList p) (hu : (x.table.futex f).uaddr = uaddr) :
    Sleepers x p uaddr (ls (.rendez f)) :=
  ⟨fun _ => h.sleeper hf hu, h.arrival f⟩

theorem no_sleepers (hal : uaddr % 4 ≠ 0) (p : ProcId) : Sleepers x p uaddr [] := by
  refine ⟨fun t => ?_, List.Pairwise.nil⟩
  simp only [List.not_mem_nil, false_iff]
  rintro ⟨-, hphase, f, hs⟩
  have hword := h.word t f uaddr hs hphase
  exact hal (hword ▸ h.table.aligned _ f (h.live t f hs))

theorem step_holding (ht : x.phase t = .holding call) : step x (.go t) = some (perform x t call) := by
  have hrun : x.bkl.panicked = false := h.queued.running
  simp [step, go, hrun, ht]

theorem waits (ht : x.phase t = .holding (.wait uaddr val none))
    (hval : x.memory (x.proc t) uaddr = some val) (hal : uaddr % 4 = 0) (hpool : PoolLeft x (x.proc t) uaddr) :
    ∃ ts, Sleepers x (x.proc t) uaddr ts ∧ Sleepers (sysFutexWait x t uaddr val none) (x.proc t) uaddr (ts ++ [t]) ∧
      (sysFutexWait x t uaddr val none).phase = update x.phase t (.sleeping uaddr) := by
  obtain ⟨hinv, hfetch, -⟩ := h.futexGet (x.proc t) uaddr
  obtain ⟨y, f, hgot⟩ := futexGet_got hal hpool
  rw [hgot] at hinv hfetch
  obtain ⟨hmem, hword⟩ := hfetch.found f rfl
  have hphase : y.phase t = .holding (.wait uaddr val none) := hfetch.phase ▸ ht
  have hproc : y.proc = x.proc := hfetch.proc
  have hsleep : sysFutexWait x t uaddr val none = taskSleep (unlockFutexTable y) t f uaddr := by
    simp [sysFutexWait, hval, hgot]
  rw [← hproc] at hmem
  have hslept := hinv.sleep hphase hmem hword
  have hafter : Sleepers (taskSleep (unlockFutexTable y) t f uaddr) (y.proc t) uaddr (ls (.rendez f) ++ [t]) := by
    have hs := hslept.sleepers hmem hword
    rwa [update_self] at hs
  refine ⟨ls (.rendez f), ?_, ?_, ?_⟩
  · rw [← hproc]
    exact hfetch.sleepers (hinv.sleepers hmem hword)
  · rw [hsleep, ← hproc]
    exact hafter
  · rw [hsleep, ← hfetch.phase]
    rfl

theorem wakes (hu : x.phase u = .holding (.wake uaddr n)) (hpool : PoolLeft x (x.proc u) uaddr) :
    ∃ ts, WakesFirst x (sysFutexRequeue x u uaddr n 0 0) u uaddr n.toNat ts ∧
      (sysFutexRequeue x u uaddr n 0 0).phase = update x.phase u .user := by
  by_cases hal : uaddr % 4 = 0
  · obtain ⟨hinv, hfetch, -⟩ := h.futexGet (x.proc u) uaddr
    obtain ⟨y, f, hgot⟩ := futexGet_got hal hpool
    rw [hgot] at hinv hfetch
    obtain ⟨hmem, hword⟩ := hfetch.found f rfl
    have hphase : y.phase u = .holding (.wake uaddr n) := hfetch.phase ▸ hu
    have hthread : y.bkl.thread = x.bkl.thread := hfetch.thread
    obtain ⟨s, hloop, hw⟩ := requeueLoop_wakes f none n.toNat 0 hinv.queued (by omega : 0 + n.toNat ≤ n.toNat)
    have hresult : sysFutexRequeue x u uaddr n 0 0 =
        (unlockFutexTable { y with bkl := s }).return u (.count (min n.toNat (ls (.rendez f)).length)) := by
      simp [sysFutexRequeue, hgot, Futexes.requeueThreads, Bkl.futexRequeue, hloop]
    have hafter := hinv.wake hphase hw (.count (min n.toNat (ls (.rendez f)).length))
    rw [hresult]
    refine ⟨ls (.rendez f), ⟨hfetch.sleepers (hinv.sleepers hmem hword), ?_, ?_, ?_, ?_, ?_⟩, ?_⟩
    · simp [System.return, System.setPhase]
    · exact fun t ht => (hw.woken t ht).1
    · intro t ht
      rw [← hthread]
      exact hw.other t ht
    · exact ⟨ls, _, h.queued, hw.queued, by simp [Bkl.woken]⟩
    · have hs := hafter.sleepers hmem hword
      simpa [Bkl.woken] using hs
    · rw [← hfetch.phase]
      rfl
  · have hresult : sysFutexRequeue x u uaddr n 0 0 = (unlockFutexTable x).return u (.count 0) := by
      simp [sysFutexRequeue, futexGet, hal]
    rw [hresult]
    refine ⟨[], ⟨h.no_sleepers hal _, ?_, by simp, fun _ _ => rfl, ⟨ls, ls, h.queued, h.queued, by simp⟩, ?_⟩, rfl⟩
    · simp [System.return, System.setPhase]
    · rw [List.drop_nil]
      exact (h.release hu (.count 0)).no_sleepers hal _

theorem notLost : NotLost x := by
  refine ⟨?_, ?_, ?_, ?_⟩
  · intro t uaddr val cval ht hmem hne
    refine ⟨_, h.step_holding ht, ?_⟩
    simp [perform, sysFutexWait, hmem, hne, System.return, System.setPhase]
  · intro t uaddr val ht hmem hal hpool
    obtain ⟨ts, hbefore, hafter, -⟩ := h.waits ht hmem hal hpool
    exact ⟨_, ts, h.step_holding ht, hbefore, hafter⟩
  · intro t uaddr ht
    obtain ⟨i, hi⟩ := h.listed t uaddr ht
    cases i with
    | bkl => exact .inr (h.bklBlocked t hi)
    | rendez f => exact .inl ⟨f, h.queued.sleeping f t hi⟩
  · intro u uaddr n hu hpool
    obtain ⟨ts, hwakes, -⟩ := h.wakes hu hpool
    exact ⟨_, ts, h.step_holding hu, hwakes⟩

theorem wait_phase (ht : x.phase t = .holding (.wait uaddr val none)) (hpool : PoolLeft x (x.proc t) uaddr) :
    ∃ q, PlainPhase q ∧ (sysFutexWait x t uaddr val none).phase = update x.phase t q := by
  cases hmem : x.memory (x.proc t) uaddr with
  | none =>
    refine ⟨.user, trivial, ?_⟩
    simp [sysFutexWait, hmem, System.return, System.setPhase, unlockFutexTable]
  | some cval =>
    by_cases hval : cval = val
    · subst hval
      by_cases hal : uaddr % 4 = 0
      · obtain ⟨ts, -, -, hphase⟩ := h.waits ht hmem hal hpool
        exact ⟨.sleeping uaddr, trivial, hphase⟩
      · refine ⟨.user, trivial, ?_⟩
        simp [sysFutexWait, hmem, futexGet, hal, System.return, System.setPhase, unlockFutexTable]
    · refine ⟨.user, trivial, ?_⟩
      simp [sysFutexWait, hmem, hval, System.return, System.setPhase, unlockFutexTable]

theorem perform_phase (hplain : Plain x) (ht : x.phase t = .holding call) (ha : Allowed x (.go t)) :
    ∃ q, PlainPhase q ∧ (perform x t call).phase = update x.phase t q := by
  have hwaits : PlainPhase (.holding call) := ht ▸ hplain t
  cases call with
  | destroy uaddr | fini exec => exact hwaits.elim
  | wait uaddr val timeout =>
    obtain rfl : timeout = none := hwaits
    exact h.wait_phase ht (ha uaddr (.inl ⟨val, ht⟩))
  | requeue uaddr n uaddr2 m =>
    obtain ⟨rfl, rfl⟩ : uaddr2 = 0 ∧ m = 0 := hwaits
    obtain ⟨ts, -, hphase⟩ := h.wakes ht (ha uaddr (.inr ⟨n, ht⟩))
    exact ⟨.user, trivial, hphase⟩

end Inv

protected theorem Plain.step (h : Plain x) (hinv : Inv x ls) (ha : Allowed x a) (hy : step x a = some y) : Plain y := by
  have hrun : x.bkl.panicked = false := hinv.queued.running
  simp only [step, hrun, Bool.false_eq_true, ↓reduceIte] at hy
  cases a with
  | create t p =>
    obtain ⟨-, rfl⟩ := guarded hy
    exact h.set (q := .user) trivial rfl
  | store p uaddr val =>
    cases hy
    exact h
  | call t call =>
    simp only at hy
    split_ifs at hy
    cases call with
    | destroy uaddr | fini exec => exact ha.elim
    | wait uaddr val timeout =>
      cases hy
      exact h.set (q := .locking (.wait uaddr val timeout)) ha rfl
    | requeue uaddr n uaddr2 m =>
      simp only [enter] at hy
      split_ifs at hy
      · cases hy
        exact h.set (q := .user) trivial rfl
      · cases hy
        exact h.set (q := .locking (.requeue uaddr n uaddr2 m)) ha rfl
  | exit t | exec t => exact ha.elim
  | die t =>
    obtain ⟨-, rfl⟩ := guarded hy
    exact h.set (q := .dead) trivial rfl
  | go t =>
    simp only [go] at hy
    have hplain := h t
    generalize hp : x.phase t = ph at hy hplain
    cases ph with
    | locking call =>
      obtain ⟨-, rfl⟩ := guarded hy
      exact h.set (q := .holding call) hplain rfl
    | holding call =>
      cases hy
      obtain ⟨q, hq, hphase⟩ := hinv.perform_phase h hp ha
      exact h.set hq hphase
    | killing exec => exact hplain.elim
    | user | sleeping uaddr | dead => cases hy
  | fail t =>
    have hplain := h t
    simp only at hy
    generalize x.phase t = ph at hy hplain
    cases ph with
    | killing exec => exact hplain.elim
    | user | locking call | holding call | sleeping uaddr | dead => cases hy
  | grant =>
    simp only [grant] at hy
    split at hy <;> cases hy
    exact h.set (q := .user) trivial rfl

theorem futex_waits_not_lost (x : System) (h : Reach step Allowed Start x) : NotLost x := by
  have hall : (∃ ls, Inv x ls) ∧ Plain x := by
    refine Reach.invariant (P := fun x => (∃ ls, Inv x ls) ∧ Plain x) ?_ ?_ h
    · intro x hx
      refine ⟨⟨_, hx.inv⟩, fun t => ?_⟩
      rcases hx.phase t with hp | hp <;> simp [hp, PlainPhase]
    · rintro x a y ⟨⟨ls, hinv⟩, hplain⟩ ha hy
      exact ⟨hinv.step (hplain.careful ha) hy, hplain.step hinv ha hy⟩
  obtain ⟨⟨ls, hinv⟩, -⟩ := hall
  exact hinv.notLost

theorem sleeper_seen : ∃ x, Reach step Allowed Start x ∧ x.phase 1 = .holding (.wake 4 1) ∧ Asleep x 0 0 ∧ NotLost x := by
  have h0 : Reach step Allowed Start (twoThreads [0]) := .start (twoThreads_start (by decide))
  have h1 := Reach.next (a := Action.call 0 (.wait 4 0 none)) h0 rfl rfl
  have h2 := Reach.next (a := Action.go 0) h1 (by rintro uaddr (⟨val, ⟨⟩⟩ | ⟨n, ⟨⟩⟩)) rfl
  have h3 := Reach.next (a := Action.go 0) h2
    (by
      rintro uaddr (⟨val, ⟨⟩⟩ | ⟨n, ⟨⟩⟩)
      change missing _ _ _ ≤ _
      decide) rfl
  have h4 := Reach.next (a := Action.call 1 (.wake 4 1)) h3 ⟨rfl, rfl⟩ rfl
  have h5 := Reach.next (a := Action.go 1) h4 (by rintro uaddr (⟨val, ⟨⟩⟩ | ⟨n, ⟨⟩⟩)) rfl
  exact ⟨_, h5, rfl, ⟨rfl, rfl⟩, futex_waits_not_lost _ h5⟩

end Sleeping

end CheviotKernel.Futexes
