import CheviotKernel.Library.Turns
import CheviotKernel.Proc.Sched

namespace CheviotKernel.RoundRobin

open Function Circular Runs Sched Turns

structure State where
  sched : Sched.State
  log : List (Event Tid)

def resched (s : Sched.State) (log : List (Event Tid)) : State :=
  let s := reschedule s
  ⟨s, match s.currentThread with
    | some c => if c = s.idleThread then log else .called c :: log
    | none => log⟩

def yield (s : State) : State :=
  resched s.sched (match s.sched.currentThread with
    | some c => if c = s.sched.idleThread then s.log else .passed c (s.sched.schedQueue.next c) :: s.log
    | none => s.log)

def block (s : State) (c : Tid) : State :=
  resched (schedUnready s.sched c) (.left c (s.sched.schedQueue.next c) :: s.log)

inductive Action
  | wake (t : Tid)
  | tick
  | yield
  | block

def step (s : State) : Action → Option State
  | .wake t => if Outside s.sched t then some ⟨schedReady s.sched t, .joined t :: s.log⟩ else none
  | .tick => some { s with sched := timerTopHalf s.sched }
  | .yield => some (yield s)
  | .block =>
    match s.sched.currentThread with
    | some c => if Running s.sched c then some (block s c) else none
    | none => none

variable {prio : Tid → ℕ}

structure Booted (prio : Tid → ℕ) (s : State) : Prop where
  heads : ∀ q, s.sched.schedQueue.head q = none
  bitmap : s.sched.schedQueueBitmap = 0
  ready : ∀ t, s.sched.ready t = false
  idle : s.sched.thread s.sched.idleThread = ⟨.idle, 0, 0, 0⟩
  rr : ∀ t, t ≠ s.sched.idleThread → s.sched.thread t = ⟨.rr, prio t, prio t, 0⟩ ∧ 16 ≤ prio t ∧ prio t < 32
  current : s.sched.currentThread = none
  running : s.sched.panicked = false
  log : s.log = []

def Paired (s : State) : Action → Prop
  | .block => ∀ c ∈ s.sched.currentThread, s.sched.schedQueue.next (s.sched.schedQueue.next c) = c
  | _ => True

structure InOrder (prio : Tid → ℕ) (log : List (Event Tid)) : Prop where
  follower : ∀ post mid pre c d x, (log = post ++ .called x :: (mid ++ .passed c d :: pre) ∨
    log = post ++ .called x :: (mid ++ .left c d :: pre) ∧ d ≠ c) → prio x = prio c →
    (∀ y, .called y ∈ mid → prio y ≠ prio c) → x = d
  turns : ∀ post mid pre x b, log = post ++ .called x :: (mid ++ .called x :: pre) → prio b = prio x → b ≠ x →
    Present pre b → .called b ∈ mid

section Invariant

variable {s t : State} {u v : Sched.State} {ls : ℕ → List Tid} {log post mid pre : List (Event Tid)} {c b x : Tid}
  {q : ℕ} {e : Event Tid}

def onLevel (prio : Tid → ℕ) (q : ℕ) (log : List (Event Tid)) : List (Event Tid) :=
  log.filter fun e => prio e.who = q

def turn (prio : Tid → ℕ) (u : Sched.State) (q : ℕ) : Option Tid :=
  u.currentThread.filter fun c => c ≠ u.idleThread ∧ prio c = q

def Fixed (prio : Tid → ℕ) (u : Sched.State) : Prop :=
  ∀ t, t ≠ u.idleThread → (u.thread t).schedPolicy = .rr ∧ (u.thread t).priority = prio t

structure Inv (prio : Tid → ℕ) (s : State) (ls : ℕ → List Tid) : Prop where
  core : Core s.sched ls
  fixed : Fixed prio s.sched
  lines : ∀ q, Line (onLevel prio q s.log) (ls q) (turn prio s.sched q)

theorem onLevel_self (e : Event Tid) (h : prio e.who = q) : onLevel prio q (e :: log) = e :: onLevel prio q log := by
  simp [onLevel, h]

theorem onLevel_other (e : Event Tid) (h : prio e.who ≠ q) : onLevel prio q (e :: log) = onLevel prio q log := by
  simp [onLevel, h]

theorem turn_eq_none (h : ∀ c ∈ u.currentThread, c = u.idleThread ∨ prio c ≠ q) : turn prio u q = none := by
  rw [turn, Option.filter_eq_none_iff]
  intro c hc
  rcases h c hc with rfl | hne
  · simp
  · simp [hne]

theorem turn_eq_some (hc : u.currentThread = some c) (hi : c ≠ u.idleThread) : turn prio u (prio c) = some c := by
  simp [turn, hc, hi]

theorem Fixed.setQuanta (h : Fixed prio u) (c : Tid) (n : ℕ) : Fixed prio (u.setQuanta c n) := by
  intro t ht
  by_cases htc : t = c
  · subst htc
    simpa [State.setQuanta, State.setThread] using h t ht
  · simpa [State.setQuanta, State.setThread, htc] using h t ht

theorem Fixed.charge_rr (h : Fixed prio u) (hc : c ≠ u.idleThread) : Fixed prio (charge u c) := by
  have hq := h.setQuanta c ((u.thread c).quantaUsed + 1)
  simp only [charge, (h c hc).1]
  split_ifs
  · exact Fixed.setQuanta hq c 0
  · exact hq
  · exact hq

theorem resched_inv (hv : chargeCurrent u = v) (h : Core v ls) (hf : Fixed prio v)
    (hl : ∀ q, Line (onLevel prio q log) (ls q) none) : Inv prio (resched u log) ls := by
  subst hv
  have hcore : Core (resched u log).sched ls := { h with }
  refine ⟨hcore, hf, ?_⟩
  rcases pickNext_spec h with ⟨q, -, hpick, -⟩ | ⟨hidle, -⟩
  · obtain ⟨-, hpol, hprio⟩ := (h.placed _ q).mp (List.mem_of_mem_head? hpick)
    have hne := h.ne_idle hpol
    have hpq : prio (pickNext (chargeCurrent u)) = q := (hf _ hne).2.symm.trans hprio
    have hlog : (resched u log).log = .called (pickNext (chargeCurrent u)) :: log := if_neg hne
    intro r
    rw [hlog]
    by_cases hr : r = q
    · subst hr
      obtain ⟨rest, hrest⟩ := List.head?_eq_some_iff.mp hpick
      have hturn : turn prio (resched u log).sched _ = _ := turn_eq_some rfl hne
      rw [hpq] at hturn
      rw [onLevel_self (.called (pickNext (chargeCurrent u))) hpq, hturn, hrest]
      exact (hrest ▸ hl r).call
    · have hpr : prio (pickNext (chargeCurrent u)) ≠ r := fun e => hr (e.symm.trans hpq)
      rw [onLevel_other (.called (pickNext (chargeCurrent u))) hpr, turn_eq_none]
      · exact hl r
      · rintro c ⟨⟩
        exact .inr hpr
  · have hlog : (resched u log).log = log := if_pos hidle
    intro r
    rw [hlog, turn_eq_none]
    · exact hl r
    · rintro c ⟨⟩
      exact .inl hidle

theorem Fixed.schedUnready (h : Fixed prio u) (hc : c ≠ u.idleThread) : Fixed prio (schedUnready u c) := by
  have heq : Sched.schedUnready u c = (dequeue (u.setReady c false) c).setQuanta c 0 := by
    simp [Sched.schedUnready, State.setReady, (h c hc).1]
  rw [heq]
  exact Fixed.setQuanta h c 0

theorem inv_booted (h : Booted prio s) : Inv prio s fun _ => [] := by
  refine ⟨⟨⟨⟨fun _ => ⟨List.nodup_nil, by simp, by simp⟩, h.heads, by simp⟩, ?_⟩, ?_, ?_, ?_, h.running⟩, ?_, ?_⟩
  · simp [h.bitmap]
  · simp [Queued, h.ready]
  · intro t
    by_cases ht : t = s.sched.idleThread
    · rw [ht, h.idle]
      exact ⟨by decide, by decide, by simp⟩
    · obtain ⟨hth, hlow, hhigh⟩ := h.rr t ht
      rw [hth]
      exact ⟨hhigh, hhigh, fun _ => hlow⟩
  · rw [h.idle]
  · intro t ht
    rw [(h.rr t ht).1]
    exact ⟨rfl, rfl⟩
  · intro q
    rw [h.log, turn_eq_none (by simp [h.current])]
    exact Line.empty

theorem present_onLevel (h : Present log b) : Present (onLevel prio (prio b) log) b := by
  induction log with
  | nil => exact h
  | cons e log ih =>
    by_cases he : prio e.who = prio b
    · rw [onLevel_self e he]
      cases e with
      | joined a => exact h.imp_right ih
      | called a | passed a d => exact ih h
      | left a d => exact ⟨h.1, ih h.2⟩
    · rw [onLevel_other e he]
      cases e with
      | joined a =>
        refine ih (h.resolve_left ?_)
        rintro rfl
        exact he rfl
      | called a | passed a d => exact ih h
      | left a d => exact ih h.2

theorem onLevel_split (hx : prio x = q)
    (he : prio e.who = q) : onLevel prio q (post ++ .called x :: (mid ++ e :: pre)) =
      onLevel prio q post ++ .called x :: (onLevel prio q mid ++ e :: onLevel prio q pre) := by
  simp [onLevel, show prio (Event.called x).who = q from hx, he]

namespace Inv

variable (h : Inv prio s ls)
include h

theorem running (hc : s.sched.currentThread = some c) (hi : c ≠ s.sched.idleThread) :
    ∃ rest, ls (prio c) = c :: rest ∧ s.sched.schedQueue.next c = rest.head?.getD c ∧
      Line (onLevel prio (prio c) s.log) (c :: rest) (some c) := by
  have hline := h.lines (prio c)
  rw [turn_eq_some hc hi] at hline
  obtain ⟨rest, hrest⟩ := hline.turn_head
  refine ⟨rest, hrest, ?_, hrest ▸ hline⟩
  simpa using (h.core.queues.loops.cyclic (prio c)).next [] c rest hrest

theorem left (hc : s.sched.currentThread = some c) (he : e.who = c)
    {xs : List Tid} (hx : Line (e :: onLevel prio (prio c) s.log) xs none) (q : ℕ) :
    Line (onLevel prio q (e :: s.log)) (update ls (prio c) xs q) none := by
  subst he
  by_cases hq : q = prio e.who
  · subst hq
    rw [onLevel_self e rfl, update_self]
    exact hx
  have hline := h.lines q
  rw [onLevel_other e (Ne.symm hq), update_of_ne hq]
  rw [turn_eq_none] at hline
  · exact hline
  · intro d hd
    obtain rfl := Option.some.inj (hc.symm.trans hd)
    exact .inr (Ne.symm hq)

protected theorem yield : ∃ ls', Inv prio (yield s) ls' := by
  unfold yield
  cases hc : s.sched.currentThread with
  | none =>
    have hcharge : chargeCurrent s.sched = s.sched := by simp [chargeCurrent, hc]
    refine ⟨ls, resched_inv hcharge h.core h.fixed ?_⟩
    intro q
    have hline := h.lines q
    rwa [turn_eq_none (by simp [hc])] at hline
  | some c =>
    have hcharge : chargeCurrent s.sched = charge s.sched c := by simp [chargeCurrent, hc]
    dsimp only
    by_cases hi : c = s.sched.idleThread
    · simp only [hi, charge, h.core.idle] at hcharge
      rw [if_pos hi]
      refine ⟨ls, resched_inv hcharge (h.core.setQuanta _ _) (h.fixed.setQuanta _ _) ?_⟩
      intro q
      have hline := h.lines q
      rw [turn_eq_none] at hline
      · exact hline
      · intro d hd
        obtain rfl := Option.some.inj (hc.symm.trans hd)
        exact .inl hi
    · obtain ⟨rest, hrest, hnext, hline⟩ := h.running hc hi
      obtain ⟨hpol, hprio⟩ := h.fixed c hi
      have hcore := h.core.charge_rr hpol (hprio.symm ▸ hrest)
      rw [hprio] at hcore
      rw [if_neg hi, hnext]
      exact ⟨_, resched_inv hcharge hcore (h.fixed.charge_rr hi) (h.left hc rfl hline.pass)⟩

protected theorem block (hr : Running s.sched c)
    (hp : s.sched.schedQueue.next (s.sched.schedQueue.next c) = c) : ∃ ls', Inv prio (block s c) ls' := by
  obtain ⟨hc, -, hi⟩ := hr
  obtain ⟨rest, hrest, hnext, hline⟩ := h.running hc hi
  obtain ⟨hpol, hprio⟩ := h.fixed c hi
  have hidle : c ≠ (Sched.schedUnready s.sched c).idleThread := by
    rw [(schedUnready_self s.sched c (by simp [hpol])).2.1]
    exact hi
  have hcur : chargeCurrent (Sched.schedUnready s.sched c) = charge (Sched.schedUnready s.sched c) c := by
    simp [chargeCurrent, (schedUnready_self s.sched c (by simp [hpol])).1, hc]
  have hfixed := h.fixed.schedUnready hi
  obtain ⟨hpol', hprio'⟩ := hfixed c hidle
  have hfront : ls (s.sched.thread c).priority = [] ++ c :: rest := hprio.symm ▸ hrest
  have hcore := h.core.schedUnready (by simp [hpol]) hfront
  rw [hprio] at hcore
  have hcharge : Core (charge (Sched.schedUnready s.sched c) c) (update ls (prio c) rest) := by
    cases rest with
    | nil => exact hcore.charge_rr_empty hpol' (by simp [hprio'])
    | cons d rest =>
      have hsecond : s.sched.schedQueue.next d = (rest ++ [c]).head?.getD d := by
        exact (h.core.queues.loops.cyclic (prio c)).next [c] d rest hrest
      cases rest with
      | nil =>
        have hlone : update ls (prio c) [d] ((Sched.schedUnready s.sched c).thread c).priority = [d] := by
          simp [hprio']
        have hrot := hcore.charge_rr hpol' hlone
        simpa [hprio'] using hrot
      | cons e rest =>
        have hec : e = c := by simpa [hnext, hsecond] using hp
        have hnd := hline.nodup
        simp [hec] at hnd
  unfold block
  rw [hnext]
  exact ⟨_, resched_inv hcur hcharge (hfixed.charge_rr hidle) (h.left hc rfl hline.leave)⟩

theorem wake (hout : Outside s.sched x) : ∃ ls', Inv prio ⟨schedReady s.sched x, .joined x :: s.log⟩ ls' := by
  obtain ⟨hready, -, hi⟩ := hout
  obtain ⟨hpol, hprio⟩ := h.fixed x hi
  have hne : (s.sched.thread x).schedPolicy ≠ .idle := by simp [hpol]
  have hcore := h.core.schedReady hready hne
  rw [hprio] at hcore
  obtain ⟨hcur, hidle, -, -⟩ := schedReady_other s.sched x
  refine ⟨_, hcore, ?_, ?_⟩
  · rw [schedReady_queued hne]
    exact Fixed.setQuanta h.fixed x 0
  intro q
  have hturn : turn prio (Sched.schedReady s.sched x) q = turn prio s.sched q := by
    rw [turn, turn, hcur, hidle]
  rw [hturn]
  by_cases hq : q = prio x
  · subst hq
    rw [onLevel_self (.joined x) (q := prio x) rfl, update_self]
    refine (h.lines _).join ?_
    intro hm
    have hr := ((h.core.placed x _).mp hm).1
    rw [hready] at hr
    cases hr
  · rw [onLevel_other (.joined x) (Ne.symm hq), update_of_ne hq]
    exact h.lines q

theorem tick : Inv prio { s with sched := timerTopHalf s.sched } ls := by
  unfold timerTopHalf
  cases hc : s.sched.currentThread with
  | none => exact h
  | some c =>
    refine ⟨h.core.setQuanta _ _, h.fixed.setQuanta _ _, ?_⟩
    exact h.lines

protected theorem step {a : Action} (hp : Paired s a) (hs : step s a = some t) : ∃ ls', Inv prio t ls' := by
  cases a with
  | wake x =>
    obtain ⟨hout, rfl⟩ := guarded hs
    exact h.wake hout
  | tick =>
    cases hs
    exact ⟨ls, h.tick⟩
  | yield =>
    cases hs
    exact h.yield
  | block =>
    simp only [step] at hs
    split at hs
    · rename_i c hc
      obtain ⟨hr, rfl⟩ := guarded hs
      exact h.block hr (hp c hc)
    · cases hs

theorem inOrder : InOrder prio s.log := by
  constructor
  · intro post mid pre c d x hlog hx hmid
    have hline := h.lines (prio c)
    have hnone (y : Tid) : .called y ∉ onLevel prio (prio c) mid := by
      intro hy
      obtain ⟨hy, hpy⟩ := List.mem_filter.mp hy
      exact hmid y hy (of_decide_eq_true hpy)
    rcases hlog with hl | ⟨hl, hne⟩
    · rw [hl, onLevel_split hx rfl] at hline
      exact hline.called_due ⟨_, c, _, .inl rfl, hnone⟩
    · rw [hl, onLevel_split hx rfl] at hline
      exact hline.called_due ⟨_, c, _, .inr ⟨rfl, hne⟩, hnone⟩
  · intro post mid pre x b hl hb hne hpre
    have hline := h.lines (prio x)
    rw [hl, onLevel_split (x := x) rfl rfl] at hline
    have hmem := hline.called_between hne (hb ▸ present_onLevel hpre)
    exact (List.mem_filter.mp hmem).1

end Inv

theorem in_order_of_paired (h : Reach step Paired (Booted prio) s) : InOrder prio s.log := by
  obtain ⟨ls, hi⟩ := h.invariant (P := fun s => ∃ ls, Inv prio s ls) (fun _ h0 => ⟨_, inv_booted h0⟩)
    fun _ _ _ ⟨_, hi⟩ hp hs => hi.step hp hs
  exact hi.inOrder

end Invariant

instance (s : State) : DecidablePred (Paired s) := fun a => by
  unfold Paired
  split <;> infer_instance

def bootState : State where
  sched :=
    { thread := fun t => if t = 0 then ⟨.idle, 0, 0, 0⟩ else ⟨.rr, 20, 20, 0⟩
      ready := fun _ => false
      schedQueue := ⟨fun _ => none, id, id⟩
      schedQueueBitmap := 0
      currentThread := none
      idleThread := 0
      panicked := false }
  log := []

theorem bootState_booted : Booted (fun _ => 20) bootState := by
  refine ⟨fun _ => rfl, rfl, fun _ => rfl, rfl, ?_, rfl, rfl, rfl⟩
  intro t ht
  exact ⟨if_neg ht, by decide, by decide⟩

theorem in_order_of_two : ∃ s, Reach step Paired (Booted fun _ => 20) s ∧
    s.log = [.called 1, .passed 2 1, .joined 1, .called 2, .left 1 2, .called 1, .joined 2, .joined 1] ∧
    InOrder (fun _ => 20) s.log :=
  Reach.exists_of_run (Q := fun s =>
      s.log = [.called 1, .passed 2 1, .joined 1, .called 2, .left 1 2, .called 1, .joined 2, .joined 1])
    [.wake 1, .wake 2, .yield, .block, .wake 1, .yield] bootState_booted (by decide +kernel) (by decide +kernel)
    fun _ hr hq => ⟨hq, in_order_of_paired hr⟩

theorem blocked_thread_skips_follower : ∃ s, Reach step always (Booted fun _ => 20) s ∧
    s.log = [.called 1, .left 3 2, .joined 1, .called 3, .left 1 2, .called 1, .joined 3, .joined 2, .joined 1] ∧
    ¬ InOrder (fun _ => 20) s.log := by
  refine Reach.exists_of_run (Q := fun s => s.log = [.called 1, .left 3 2, .joined 1, .called 3, .left 1 2, .called 1,
      .joined 3, .joined 2, .joined 1]) [.wake 1, .wake 2, .wake 3, .yield, .block, .wake 1, .block] bootState_booted
    (meets_always _ _) (by decide +kernel) fun s _ hq => ⟨hq, fun ho => ?_⟩
  have hx := ho.follower [.called 1, .left 3 2, .joined 1] [] [.called 1, .joined 3, .joined 2, .joined 1] 1 2 3
    (.inr ⟨hq, by decide⟩) rfl (by simp)
  cases hx

end CheviotKernel.RoundRobin
