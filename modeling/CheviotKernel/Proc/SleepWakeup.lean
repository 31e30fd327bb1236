import CheviotKernel.Include.Lists
import CheviotKernel.Library.Runs
import Mathlib.Data.List.Perm.Subperm

namespace CheviotKernel.Bkl

open Function Linked CheviotKernel.Lists Runs

abbrev ThreadId := ℕ

abbrev RendezId := ℕ

inductive ThreadState
  | exited
  | ready
  | rendezBlocked
  | bklBlocked
  deriving DecidableEq

inductive Phase
  | user
  | locking
  | kernel
  | asleep
  | asleepInterruptible
  | irq
  | irqExit
  | ended
  deriving DecidableEq

inductive Blocked
  | bkl
  | rendez (r : RendezId)
  deriving DecidableEq

structure Thread where
  phase : Phase
  state : ThreadState
  blockingRendez : Option RendezId
  intrFlags : BitVec 32
  timer : Option RendezId

structure State where
  thread : ThreadId → Thread
  link : Links Blocked ThreadId
  bklLocked : Bool
  bklOwner : Option ThreadId
  panicked : Bool

section

variable (s : State)

def State.set (t : ThreadId) (x : Thread) : State := { s with thread := update s.thread t x }

def State.kernelpanic : State := { s with panicked := true }

def giveLock : State :=
  match s.link.head .bkl with
  | some h =>
    { s with link := dlistRemHead s.link .bkl, bklOwner := some h }.set h { s.thread h with state := .ready }
  | none => { s with bklLocked := false, bklOwner := none }

def kernelLock (t : ThreadId) (inside : Phase) : State :=
  if s.bklLocked = false then
    { s with bklLocked := true, bklOwner := some t }.set t { s.thread t with phase := inside }
  else
    { s with link := dlistAddTail s.link .bkl t }.set t { s.thread t with phase := .locking, state := .bklBlocked }

def kernelUnlock : State := if s.bklLocked then giveLock s else s.kernelpanic

def Owns (t : ThreadId) : Prop := s.bklLocked = true ∧ s.bklOwner = some t
  deriving Decidable

def taskSleep (t : ThreadId) (r : RendezId) : State :=
  if Owns s t then
    let s := giveLock s
    { s with link := dlistAddTail s.link (.rendez r) t }.set t
      { s.thread t with phase := .asleep, state := .rendezBlocked, blockingRendez := some r }
  else s.kernelpanic

def taskSleepInterruptible (t : ThreadId) (r : RendezId) (timed : Bool) (intrFlags : BitVec 32)
    (interrupted : Bool) : State :=
  if Owns s t then
    if interrupted then s
    else
      let s := giveLock s
      { s with link := dlistAddTail s.link (.rendez r) t }.set t
        ⟨.asleepInterruptible, .rendezBlocked, some r, intrFlags, if timed then some r else (s.thread t).timer⟩
  else s.kernelpanic

def sleepReturn (t : ThreadId) : State :=
  if Owns s t then s.set t { s.thread t with phase := .kernel } else s.kernelpanic

def sleepInterruptibleReturn (t : ThreadId) : State :=
  s.set t { s.thread t with phase := .kernel, intrFlags := 0, timer := none }

def blockOnBkl (t : ThreadId) : State :=
  { s with link := dlistAddTail s.link .bkl t }.set t { s.thread t with state := .bklBlocked, blockingRendez := none }

def taskWakeup (r : RendezId) : State :=
  match s.link.head (.rendez r) with
  | none => s
  | some t =>
    if (s.thread t).blockingRendez = some r ∧ (s.thread t).state = .rendezBlocked then
      blockOnBkl { s with link := dlistRemHead s.link (.rendez r) } t
    else s.kernelpanic

-- The loop takes a bound, and none stands for a loop that never ends.
def taskWakeupAll (r : RendezId) : ℕ → State → Option State
  | 0, _ => none
  | n + 1, s =>
    match s.link.head (.rendez r) with
    | none => some s
    | some t =>
      if s.bklLocked then taskWakeupAll r n (blockOnBkl { s with link := dlistRemHead s.link (.rendez r) } t)
      else some s.kernelpanic

def taskWakeupSpecific (t : ThreadId) (reason : BitVec 32) : State :=
  if (s.thread t).state = .rendezBlocked ∧ ((s.thread t).intrFlags &&& reason ≠ 0 ∨ reason = 0) then
    match (s.thread t).blockingRendez with
    | some r => blockOnBkl { s with link := dlistRemEntry s.link (.rendez r) t } t
    | none => s.kernelpanic
  else s

def taskTimedSleepCallback (t : ThreadId) (r : RendezId) : State :=
  if (s.thread t).state = .rendezBlocked then
    if (s.thread t).blockingRendez = some r then blockOnBkl { s with link := dlistRemEntry s.link (.rendez r) t } t
    else s.kernelpanic
  else s

def threadStop (t : ThreadId) : State :=
  let s := giveLock s
  s.set t { s.thread t with phase := .ended, state := .exited }

inductive Action
  | start (t : ThreadId)
  | lock (t : ThreadId)
  | lockReturn (t : ThreadId)
  | unlock (t : ThreadId)
  | sleep (t : ThreadId) (r : RendezId)
  | sleepReturn (t : ThreadId)
  | sleepInterruptible (t : ThreadId) (r : RendezId) (timed : Bool) (intrFlags : BitVec 32) (interrupted : Bool)
  | sleepInterruptibleReturn (t : ThreadId)
  | stop (t : ThreadId)
  | interrupt (t : ThreadId)
  | interruptUnlock (t : ThreadId)
  | interruptReturn (t : ThreadId)
  | wakeup (r : RendezId)
  | wakeupAll (r : RendezId)
  | wakeupSpecific (t : ThreadId) (reason : BitVec 32)
  | timeout (t : ThreadId)

def State.runs (t : ThreadId) (p : Phase) : Bool := (s.thread t).phase = p && (s.thread t).state = .ready

def Enabled (maxThread : ℕ) (s : State) : Action → Bool
  | .start t => (s.thread t).phase = .ended && t < maxThread
  | .lock t => s.runs t .user
  | .lockReturn t => s.runs t .locking
  | .unlock t => s.runs t .kernel
  | .sleep t _ => s.runs t .kernel || s.runs t .irqExit
  | .sleepReturn t => s.runs t .asleep
  | .sleepInterruptible t _ _ _ _ => s.runs t .kernel || s.runs t .irqExit
  | .sleepInterruptibleReturn t => s.runs t .asleepInterruptible
  | .stop t => s.runs t .kernel || s.runs t .irqExit
  | .interrupt t => s.runs t .user && !s.bklLocked
  | .interruptUnlock t => s.runs t .irq
  | .interruptReturn t => s.runs t .irqExit
  | .wakeup _ => s.bklLocked
  | .wakeupAll _ => s.bklLocked
  | .wakeupSpecific _ _ => s.bklLocked
  | .timeout t => s.bklLocked && (s.thread t).timer.isSome

def setPhase (t : ThreadId) (p : Phase) : State := s.set t { s.thread t with phase := p }

def perform (maxThread : ℕ) (s : State) : Action → Option State
  | .start t => some (s.set t { s.thread t with phase := .user, state := .ready })
  | .lock t => some (kernelLock s t .kernel)
  | .lockReturn t => some (setPhase s t .kernel)
  | .unlock t => some (setPhase (kernelUnlock s) t .user)
  | .sleep t r => some (taskSleep s t r)
  | .sleepReturn t => some (sleepReturn s t)
  | .sleepInterruptible t r timed intrFlags interrupted =>
    some (taskSleepInterruptible s t r timed intrFlags interrupted)
  | .sleepInterruptibleReturn t => some (sleepInterruptibleReturn s t)
  | .stop t => some (threadStop s t)
  | .interrupt t => some (kernelLock s t .irq)
  | .interruptUnlock t => some (setPhase (kernelUnlock s) t .irqExit)
  | .interruptReturn t => some (setPhase s t .user)
  | .wakeup r => some (taskWakeup s r)
  | .wakeupAll r => taskWakeupAll r (maxThread + 1) s
  | .wakeupSpecific t reason => some (taskWakeupSpecific s t reason)
  | .timeout t => (s.thread t).timer.map fun r => taskTimedSleepCallback (s.set t { s.thread t with timer := none }) t r

def step (maxThread : ℕ) (s : State) (a : Action) : Option State :=
  if s.panicked = false ∧ Enabled maxThread s a = true then perform maxThread s a else none

def boot : State where
  thread := fun _ => ⟨.ended, .exited, none, 0, none⟩
  link := ⟨fun _ => none, fun _ => none, fun _ => none, fun _ => none⟩
  bklLocked := false
  bklOwner := none
  panicked := false

def Booted : Prop := s = boot

def Returning (t : ThreadId) : Prop :=
  (s.thread t).state = .ready ∧ ((s.thread t).phase = .asleep ∨ (s.thread t).phase = .asleepInterruptible)

structure Monitor (s : State) : Prop where
  locked : s.bklLocked = true ↔ s.bklOwner ≠ none
  lists : ∃ ls, Family s.link ls ∧ (s.bklLocked = false → ls .bkl = []) ∧
    (∀ t, t ∈ ls .bkl ↔ (s.thread t).state = .bklBlocked) ∧
    ∀ t r, t ∈ ls (.rendez r) ↔ (s.thread t).state = .rendezBlocked ∧ (s.thread t).blockingRendez = some r
  returning : ∀ t, Returning s t → s.bklOwner = some t
  running : s.panicked = false

def ByOwner : Action → Prop
  | .sleep t _ => s.bklOwner = some t
  | .sleepInterruptible t _ _ _ _ => s.bklOwner = some t
  | .stop t => s.bklOwner = some t
  | _ => True

instance (a : Action) : Decidable (ByOwner s a) := by
  cases a <;> unfold ByOwner <;> infer_instance

end

section Invariant

def fits : Phase → ThreadState → Bool
  | .ended, state => state = .exited
  | .locking, state => state = .ready || state = .bklBlocked
  | .asleep, state => state ≠ .exited
  | .asleepInterruptible, state => state ≠ .exited
  | _, state => state = .ready

def holds : Phase → ThreadState → Bool
  | .kernel, _ => true
  | .irq, _ => true
  | .locking, state => state = .ready
  | .asleep, state => state = .ready
  | .asleepInterruptible, state => state = .ready
  | _, _ => false

theorem holds_of_fits {x : ThreadState} (h : fits p x = true) (hx : x ≠ .ready) : holds p x = false := by
  cases p <;> cases x <;> simp_all [fits, holds]

structure Fine (n : ℕ) (s : State) (ls : Blocked → List ThreadId) (t : ThreadId) : Prop where
  bkl : t ∈ ls .bkl ↔ (s.thread t).state = .bklBlocked
  rendez : ∀ r, t ∈ ls (.rendez r) ↔ (s.thread t).state = .rendezBlocked ∧ (s.thread t).blockingRendez = some r
  blocking : (s.thread t).state = .rendezBlocked → (s.thread t).blockingRendez ≠ none
  owner : s.bklOwner = some t ↔ holds (s.thread t).phase (s.thread t).state = true
  fits : fits (s.thread t).phase (s.thread t).state = true
  timer : ∀ r, (s.thread t).timer = some r → (s.thread t).phase = .asleepInterruptible ∧
    ((s.thread t).state = .rendezBlocked → (s.thread t).blockingRendez = some r)
  bound : (s.thread t).phase ≠ .ended → t < n

structure Lock (s : State) (ls : Blocked → List ThreadId) : Prop where
  family : Family s.link ls
  locked : s.bklLocked = true ↔ s.bklOwner ≠ none
  empty : s.bklLocked = false → ls .bkl = []
  running : s.panicked = false

structure Inv (n : ℕ) (s : State) (ls : Blocked → List ThreadId) : Prop extends Lock s ls where
  fine : ∀ t, Fine n s ls t

structure InvBut (n : ℕ) (s : State) (ls : Blocked → List ThreadId) (t : ThreadId) : Prop extends Lock s ls where
  fine : ∀ u, u ≠ t → Fine n s ls u
  off : ∀ i, t ∉ ls i
  apart : s.bklOwner ≠ some t

variable {n k : ℕ} {s s' : State} {ls ls' : Blocked → List ThreadId} {t u : ThreadId} {r : RendezId} {p : Phase}
  {xs pre post : List ThreadId} {i j : Blocked} {x : Thread} {L : Links Blocked ThreadId}

theorem Fine.congr (h : Fine n s ls u) (ht : s'.thread u = s.thread u) (hl : ∀ i, u ∈ ls' i ↔ u ∈ ls i)
    (ho : s'.bklOwner = some u ↔ s.bklOwner = some u) : Fine n s' ls' u := by
  constructor
  · rw [hl, ht]
    exact h.bkl
  · intro r
    rw [hl, ht]
    exact h.rendez r
  · rw [ht]
    exact h.blocking
  · rw [ho, ht]
    exact h.owner
  · rw [ht]
    exact h.fits
  · rw [ht]
    exact h.timer
  · rw [ht]
    exact h.bound

theorem Fine.off (h : Fine n s ls t) (hb : (s.thread t).state ≠ .bklBlocked)
    (hr : (s.thread t).state ≠ .rendezBlocked) (i : Blocked) : t ∉ ls i := by
  intro hm
  cases i with
  | bkl => exact hb (h.bkl.mp hm)
  | rendez r => exact hr ((h.rendez r).mp hm).1

theorem set_thread_self (s : State) (t : ThreadId) (x : Thread) : (s.set t x).thread t = x := by
  simp [State.set]

theorem set_thread_ne (s : State) (x : Thread) (h : u ≠ t) : (s.set t x).thread u = s.thread u := by
  simp [State.set, h]

theorem mem_update_iff (hx : u ∈ xs ↔ u ∈ ls i) (j : Blocked) : u ∈ update ls i xs j ↔ u ∈ ls j := by
  by_cases hj : j = i
  · subst hj
    simpa using hx
  · rw [update_of_ne hj]

theorem off_update (hoff : ∀ j, j ≠ i → t ∉ ls j) (hx : t ∉ xs) (j : Blocked) : t ∉ update ls i xs j := by
  by_cases hj : j = i
  · subst hj
    simpa using hx
  · rw [update_of_ne hj]
    exact hoff j hj

theorem mem_queue_iff (hoff : ∀ i, t ∉ ls i) : t ∈ update ls i (ls i ++ [t]) j ↔ j = i := by
  by_cases hj : j = i
  · subst hj
    simp
  · rw [update_of_ne hj]
    exact iff_of_false (hoff j) hj

theorem runs_iff : s.runs t p = true ↔ (s.thread t).phase = p ∧ (s.thread t).state = .ready := by
  simp [State.runs]

theorem running_phase (h : s.runs t .kernel = true ∨ s.runs t .irqExit = true) :
    ∃ p, s.runs t p = true ∧ p ≠ .asleep ∧ p ≠ .ended ∧ p ≠ .asleepInterruptible :=
  h.elim (⟨_, ·, by decide⟩) (⟨_, ·, by decide⟩)

theorem Fine.timer_none (h : Fine n s ls t) (hp : (s.thread t).phase ≠ .asleepInterruptible) :
    (s.thread t).timer = none := by
  cases ht : (s.thread t).timer with
  | none => rfl
  | some r => exact absurd (h.timer r ht).1 hp

theorem fine_set (hoff : ∀ i, t ∉ ls i) (hb : x.state ≠ .bklBlocked) (hr : x.state ≠ .rendezBlocked)
    (ho : s.bklOwner = some t ↔ holds x.phase x.state = true) (hf : fits x.phase x.state = true)
    (ht : ∀ r, x.timer = some r → x.phase = .asleepInterruptible) (hn : x.phase ≠ .ended → t < n) :
    Fine n (s.set t x) ls t := by
  constructor <;> rw [set_thread_self]
  exacts [iff_of_false (hoff _) hb, fun _ => iff_of_false (hoff _) fun hc => hr hc.1, fun hc => absurd hc hr, ho, hf,
    fun r hc => ⟨ht r hc, fun hc => absurd hc hr⟩, hn]

theorem Lock.put (h : Lock s ls) (hfine : ∀ u, u ≠ t → Fine n s ls u) (ht : Fine n (s.set t x) ls t) :
    Inv n (s.set t x) ls := by
  refine ⟨{ h with }, fun u => ?_⟩
  by_cases hu : u = t
  · subst hu
    exact ht
  · exact (hfine u hu).congr (set_thread_ne s x hu) (fun _ => Iff.rfl) Iff.rfl

namespace InvBut

variable (h : InvBut n s ls t)
include h

theorem leave (hb : x.state ≠ .bklBlocked) (hr : x.state ≠ .rendezBlocked)
    (hh : holds x.phase x.state = false) (hf : fits x.phase x.state = true) (ht : x.timer = none)
    (hn : x.phase ≠ .ended → t < n) : Inv n (s.set t x) ls :=
  h.toLock.put h.fine (fine_set h.off hb hr (iff_of_false h.apart (by simp [hh])) hf (by simp [ht]) hn)

theorem enter (hfree : s.bklLocked = false) (hx : x.state = .ready)
    (hp : x.phase = .kernel ∨ x.phase = .irq) (ht : x.timer = none) (hn : t < n) :
    Inv n ({ s with bklLocked := true, bklOwner := some t }.set t x) ls := by
  have hnone : s.bklOwner = none := by
    by_contra hc
    simp [h.locked.mpr hc] at hfree
  have hfits : fits x.phase x.state = true ∧ holds x.phase x.state = true := by
    rw [hx]
    rcases hp with e | e <;> rw [e] <;> exact ⟨rfl, rfl⟩
  refine ⟨⟨h.family, iff_of_true rfl (by simp [State.set]), fun hc => by simp [State.set] at hc, h.running⟩, fun u => ?_⟩
  by_cases hu : u = t
  · subst hu
    exact fine_set h.off (by simp [hx]) (by simp [hx]) (iff_of_true rfl hfits.2) hfits.1 (by simp [ht]) fun _ => hn
  · refine (h.fine u hu).congr (set_thread_ne _ x hu) (fun _ => Iff.rfl) (iff_of_false ?_ ?_)
    · simpa [State.set] using fun e => hu e.symm
    · simp [hnone]

theorem queue (i : Blocked) (hl : i = .bkl → s.bklLocked = true)
    (hfine : Fine n ({ s with link := dlistAddTail s.link i t }.set t x) (update ls i (ls i ++ [t])) t) :
    Inv n ({ s with link := dlistAddTail s.link i t }.set t x) (update ls i (ls i ++ [t])) := by
  refine ⟨⟨family_addTail h.family h.off, h.locked, ?_, h.running⟩, fun u => ?_⟩
  · intro hc
    rw [update_of_ne]
    · exact h.empty hc
    intro e
    have := hl e.symm
    simp only [State.set] at hc
    simp [this] at hc
  · by_cases hu : u = t
    · subst hu
      exact hfine
    · exact (h.fine u hu).congr (set_thread_ne _ x hu) (mem_update_iff (by simp [hu])) Iff.rfl

theorem queueBkl (hl : s.bklLocked = true) (hx : x.state = .bklBlocked)
    (hf : fits x.phase x.state = true) (ht : ∀ r, x.timer = some r → x.phase = .asleepInterruptible) (hn : t < n) :
    Inv n ({ s with link := dlistAddTail s.link .bkl t }.set t x) (update ls .bkl (ls .bkl ++ [t])) := by
  have hh : holds x.phase x.state = false := holds_of_fits hf (by simp [hx])
  apply h.queue _ fun _ => hl
  refine ⟨?_, ?_, ?_, ?_, ?_, ?_, ?_⟩ <;> rw [set_thread_self]
  · exact iff_of_true ((mem_queue_iff h.off).mpr rfl) hx
  · intro r
    rw [mem_queue_iff h.off]
    simp [hx]
  · simp [hx]
  · exact iff_of_false h.apart (by simp [hh])
  · exact hf
  · exact fun r hr => ⟨ht r hr, by simp [hx]⟩
  · exact fun _ => hn

theorem queueRendez (hx : x.state = .rendezBlocked)
    (hb : x.blockingRendez = some r) (hp : x.phase = .asleep ∨ x.phase = .asleepInterruptible)
    (ht : ∀ q, x.timer = some q → x.phase = .asleepInterruptible ∧ q = r) (hn : t < n) :
    Inv n ({ s with link := dlistAddTail s.link (.rendez r) t }.set t x)
      (update ls (.rendez r) (ls (.rendez r) ++ [t])) := by
  have hf : fits x.phase x.state = true ∧ holds x.phase x.state = false := by
    rw [hx]
    rcases hp with e | e <;> rw [e] <;> exact ⟨rfl, rfl⟩
  apply h.queue _ (by simp)
  refine ⟨?_, ?_, ?_, ?_, ?_, ?_, ?_⟩ <;> rw [set_thread_self]
  · rw [mem_queue_iff h.off]
    simp [hx]
  · intro q
    rw [mem_queue_iff h.off]
    simp [hx, hb, eq_comm]
  · simp [hb]
  · exact iff_of_false h.apart (by simp [hf.2])
  · exact hf.1
  · intro q hq
    obtain ⟨hi, rfl⟩ := ht q hq
    exact ⟨hi, fun _ => hb⟩
  · exact fun _ => hn

end InvBut

section

variable (h : Inv n s ls) (hl : s.bklLocked = true)
include h

theorem Inv.but (hoff : ∀ i, t ∉ ls i) (hown : s.bklOwner ≠ some t) : InvBut n s ls t :=
  ⟨h.toLock, fun u _ => h.fine u, hoff, hown⟩

theorem InvBut.unlink (hr : ls (.rendez r) = pre ++ t :: post) (hL : Family L (update ls (.rendez r) (pre ++ post))) :
    InvBut n { s with link := L } (update ls (.rendez r) (pre ++ post)) t := by
  have hmem : t ∈ ls (.rendez r) := by simp [hr]
  have hstate := (((h.fine t).rendez r).mp hmem).1
  refine ⟨⟨hL, h.locked, ?_, h.running⟩, ?_, ?_, ?_⟩
  · intro hc
    exact h.empty hc
  · intro u hu
    exact (h.fine u).congr rfl (mem_update_iff (by simp [hr, hu])) Iff.rfl
  · exact fun _ hm => ((mem_cut h.family hr).mp hm).1 rfl
  · intro hc
    have hh := (h.fine t).owner.mp hc
    rw [holds_of_fits (h.fine t).fits (by simp [hstate])] at hh
    exact Bool.noConfusion hh

theorem Inv.lt_of_rendezBlocked (hs : (s.thread t).state = .rendezBlocked) : t < n := by
  apply (h.fine t).bound
  intro hp
  have hf := (h.fine t).fits
  simp [hp, hs, fits] at hf

theorem Inv.head (hh : s.link.head i = some t) : ∃ post, ls i = t :: post := by
  rw [(h.family.spells i).head] at hh
  exact List.head?_eq_some_iff.mp hh

theorem Inv.length_lt : (ls (.rendez r)).length < n + 1 := by
  have hsub : ls (.rendez r) ⊆ List.range n := by
    intro t ht
    exact List.mem_range.mpr (h.lt_of_rendezBlocked (((h.fine t).rendez r).mp ht).1)
  have hlen := (List.Nodup.subperm (h.family.spells (.rendez r)).nodup hsub).length_le
  rw [List.length_range] at hlen
  omega

theorem Inv.disarm : Inv n (s.set t { s.thread t with timer := none }) ls := by
  have hf := h.fine t
  refine h.toLock.put (fun u _ => h.fine u) ⟨?_, ?_, ?_, ?_, ?_, ?_, ?_⟩ <;> rw [set_thread_self]
  exacts [hf.bkl, hf.rendez, hf.blocking, hf.owner, hf.fits, fun r hr => by simp at hr, hf.bound]

theorem Inv.giveLock (ho : s.bklOwner = some t) (hs : (s.thread t).state = .ready) :
    (∃ ls', InvBut n (giveLock s) ls' t) ∧ (giveLock s).thread t = s.thread t := by
  have hoff : ∀ i, t ∉ ls i := (h.fine t).off (by simp [hs]) (by simp [hs])
  have hlocked : s.bklLocked = true := h.locked.mpr (by simp [ho])
  cases hh : s.link.head .bkl with
  | none =>
    have hnil : ls .bkl = [] := by simpa [(h.family.spells .bkl).head] using hh
    simp only [Bkl.giveLock, hh]
    refine ⟨⟨ls, ⟨h.family, by simp, fun _ => hnil, h.running⟩, ?_, hoff, by simp⟩, trivial⟩
    intro u hu
    refine (h.fine u).congr rfl (fun _ => Iff.rfl) (iff_of_false (by simp) ?_)
    rw [ho]
    simpa using fun e => hu e.symm
  | some x =>
    obtain ⟨post, hpost⟩ := h.head hh
    have hx : x ∈ ls .bkl := by simp [hpost]
    have hne : x ≠ t := by
      rintro rfl
      exact hoff .bkl hx
    have hblocked := (h.fine x).bkl.mp hx
    simp only [Bkl.giveLock, hh]
    refine ⟨⟨update ls .bkl post, ⟨family_remHead h.family hpost, ?_, ?_, h.running⟩, ?_, ?_, ?_⟩,
      set_thread_ne _ _ hne.symm⟩
    · exact iff_of_true hlocked (by simp [State.set])
    · intro hc
      simp [State.set, hlocked] at hc
    · intro u hu
      by_cases hux : u = x
      · -- The head of the queue becomes ready and owns the lock.
        subst hux
        have hf := (h.fine u).fits
        have hout : ∀ i, u ∉ update ls .bkl post i :=
          fun _ hm => ((mem_cut h.family (show ls .bkl = [] ++ u :: post from hpost)).mp hm).1 rfl
        rw [hblocked] at hf
        have hready : fits (s.thread u).phase .ready = true ∧ holds (s.thread u).phase .ready = true := by
          revert hf
          cases (s.thread u).phase <;> simp [fits, holds]
        exact fine_set hout (by simp) (by simp) (iff_of_true rfl hready.2) hready.1
          (fun r hr => ((h.fine u).timer r hr).1) (h.fine u).bound
      · refine (h.fine u).congr (set_thread_ne _ _ hux) (mem_update_iff (by simp [hpost, hux])) (iff_of_false ?_ ?_)
        · simpa [State.set] using fun e => hux e.symm
        · rw [ho]
          simpa using fun e => hu e.symm
    · exact off_update (fun j _ => hoff j) (fun hm => hoff .bkl (by simp [hpost, hm]))
    · simpa [State.set] using hne

include hl

theorem Inv.wake (pre post : List ThreadId)
    (hr : ls (.rendez r) = pre ++ t :: post) (hL : Family L (update ls (.rendez r) (pre ++ post))) :
    ∃ ls', Inv n (blockOnBkl { s with link := L } t) ls' ∧ ls' (.rendez r) = pre ++ post := by
  have hstate := (((h.fine t).rendez r).mp (by simp [hr])).1
  have hf := (h.fine t).fits
  rw [hstate] at hf
  refine ⟨_, (InvBut.unlink h hr hL).queueBkl hl rfl ?_ ?_ (h.lt_of_rendezBlocked hstate), by simp⟩
  · revert hf
    cases (s.thread t).phase <;> simp [fits]
  · exact fun q hq => ((h.fine t).timer q hq).1

theorem Inv.taskWakeup : ∃ ls', Inv n (taskWakeup s r) ls' := by
  cases hh : s.link.head (.rendez r) with
  | none =>
    simp only [Bkl.taskWakeup, hh]
    exact ⟨ls, h⟩
  | some t =>
    obtain ⟨post, hpost⟩ := h.head hh
    have hm := ((h.fine t).rendez r).mp (by simp [hpost])
    obtain ⟨ls', h', -⟩ := h.wake hl [] post hpost (family_remHead h.family hpost)
    refine ⟨ls', ?_⟩
    simp only [Bkl.taskWakeup, hh, if_pos (And.intro hm.2 hm.1)]
    exact h'

theorem Inv.taskWakeupAll (hk : (ls (.rendez r)).length < k) :
    ∃ s' ls', taskWakeupAll r k s = some s' ∧ Inv n s' ls' := by
  induction k generalizing s ls with
  | zero => omega
  | succ k ih =>
    cases hh : s.link.head (.rendez r) with
    | none =>
      simp only [Bkl.taskWakeupAll, hh]
      exact ⟨s, ls, rfl, h⟩
    | some t =>
      obtain ⟨post, hpost⟩ := h.head hh
      obtain ⟨ls', h', hlen⟩ := h.wake hl [] post hpost (family_remHead h.family hpost)
      simp only [Bkl.taskWakeupAll, hh]
      rw [if_pos hl]
      apply ih h' hl
      rw [hlen]
      rw [hpost] at hk
      simpa using hk

theorem Inv.unblock (hs : (s.thread t).state = .rendezBlocked) (hb : (s.thread t).blockingRendez = some r) :
    ∃ ls', Inv n (blockOnBkl { s with link := dlistRemEntry s.link (.rendez r) t } t) ls' := by
  obtain ⟨pre, post, hsplit⟩ := List.append_of_mem (((h.fine t).rendez r).mpr ⟨hs, hb⟩)
  obtain ⟨ls', h', -⟩ := h.wake hl pre post hsplit (family_remEntry h.family hsplit)
  exact ⟨ls', h'⟩

theorem Inv.taskWakeupSpecific (reason : BitVec 32) : ∃ ls', Inv n (taskWakeupSpecific s t reason) ls' := by
  unfold Bkl.taskWakeupSpecific
  split_ifs with hc
  · cases hb : (s.thread t).blockingRendez with
    | none => exact absurd hb ((h.fine t).blocking hc.1)
    | some r => exact h.unblock hl hc.1 hb
  · exact ⟨ls, h⟩

theorem Inv.taskTimedSleepCallback (hb : (s.thread t).state = .rendezBlocked → (s.thread t).blockingRendez = some r) :
    ∃ ls', Inv n (taskTimedSleepCallback s t r) ls' := by
  unfold Bkl.taskTimedSleepCallback
  split_ifs with hs hr
  · exact h.unblock hl hs hr
  · exact absurd (hb hs) hr
  · exact ⟨ls, h⟩

end

section

variable (h : Inv n s ls)
include h

theorem Inv.outside (hb : (s.thread t).state ≠ .bklBlocked) (hr : (s.thread t).state ≠ .rendezBlocked)
    (hh : holds (s.thread t).phase (s.thread t).state = false) : InvBut n s ls t := by
  refine h.but ((h.fine t).off hb hr) ?_
  intro hc
  rw [(h.fine t).owner.mp hc] at hh
  exact Bool.noConfusion hh

theorem Inv.inside (hs : (s.thread t).state = .ready) (ho : s.bklOwner = some t)
    (hx : x.state = .ready) (hp : x.phase = .kernel) (ht : x.timer = none) : Inv n (s.set t x) ls := by
  have hoff : ∀ i, t ∉ ls i := (h.fine t).off (by simp [hs]) (by simp [hs])
  have hn : t < n := by
    apply (h.fine t).bound
    intro hc
    have hf := (h.fine t).fits
    simp [hc, hs, fits] at hf
  exact h.toLock.put (fun u _ => h.fine u) (fine_set hoff (by simp [hx]) (by simp [hx])
    (iff_of_true ho (by simp [hp, holds])) (by simp [hp, hx, fits]) (by simp [ht]) fun _ => hn)

theorem Inv.kernelLock (hr : s.runs t .user = true) (hp : p = .kernel ∨ p = .irq) :
    ∃ ls', Inv n (kernelLock s t p) ls' := by
  obtain ⟨hu, hs⟩ := runs_iff.mp hr
  have hb : InvBut n s ls t := h.outside (by simp [hs]) (by simp [hs]) (by simp [hu, holds])
  have ht : (s.thread t).timer = none := (h.fine t).timer_none (by simp [hu])
  have hn : t < n := (h.fine t).bound (by simp [hu])
  unfold Bkl.kernelLock
  split_ifs with hl
  · exact ⟨ls, hb.enter hl hs hp ht hn⟩
  · refine ⟨_, hb.queueBkl (by simpa using hl) rfl rfl ?_ hn⟩
    intro r hc
    simp [ht] at hc

section

variable (ho : s.bklOwner = some t)
include ho

section

variable (hs : (s.thread t).state = .ready)
include hs

section

variable (ht : (s.thread t).timer = none)
include ht

theorem Inv.kernelUnlock (hn : t < n) (hp : p = .user ∨ p = .irqExit) :
    ∃ ls', Inv n (setPhase (kernelUnlock s) t p) ls' := by
  have hlocked : s.bklLocked = true := h.locked.mpr (by simp [ho])
  obtain ⟨⟨ls', hb⟩, hsame⟩ := h.giveLock ho hs
  refine ⟨ls', ?_⟩
  simp only [Bkl.kernelUnlock, hlocked, if_true, setPhase]
  rw [hsame]
  rcases hp with rfl | rfl <;> exact hb.leave (by simp [hs]) (by simp [hs]) rfl (by simp [hs, fits]) ht fun _ => hn

theorem Inv.taskSleep (hn : t < n) : ∃ ls', Inv n (taskSleep s t r) ls' := by
  have hown : Owns s t := ⟨h.locked.mpr (by simp [ho]), ho⟩
  obtain ⟨⟨ls', hb⟩, hsame⟩ := h.giveLock ho hs
  simp only [Bkl.taskSleep, if_pos hown]
  refine ⟨_, hb.queueRendez rfl rfl (.inl rfl) ?_ hn⟩
  intro q hq
  simp [hsame, ht] at hq

theorem Inv.taskSleepInterruptible (hn : t < n) (timed : Bool) (flags : BitVec 32) (interrupted : Bool) :
    ∃ ls', Inv n (taskSleepInterruptible s t r timed flags interrupted) ls' := by
  have hown : Owns s t := ⟨h.locked.mpr (by simp [ho]), ho⟩
  obtain ⟨⟨ls', hb⟩, hsame⟩ := h.giveLock ho hs
  simp only [Bkl.taskSleepInterruptible, if_pos hown]
  cases interrupted with
  | true => exact ⟨ls, h⟩
  | false =>
    refine ⟨_, hb.queueRendez rfl rfl (.inr rfl) ?_ hn⟩
    intro q hq
    rw [hsame, ht] at hq
    cases timed with
    | true => exact ⟨rfl, (by simpa using hq.symm)⟩
    | false => simp at hq

theorem Inv.threadStop : ∃ ls', Inv n (threadStop s t) ls' := by
  obtain ⟨⟨ls', hb⟩, hsame⟩ := h.giveLock ho hs
  refine ⟨ls', ?_⟩
  simp only [Bkl.threadStop, hsame]
  exact hb.leave (by simp) (by simp) rfl rfl ht fun hc => absurd rfl hc

end

end

end

theorem Inv.of_running (hr : s.runs t .kernel = true ∨ s.runs t .irqExit = true) :
    (s.thread t).state = .ready ∧ (s.thread t).timer = none ∧ t < n := by
  obtain ⟨p, hr, -, he, hi⟩ := running_phase hr
  obtain ⟨rfl, hs⟩ := runs_iff.mp hr
  exact ⟨hs, (h.fine t).timer_none hi, (h.fine t).bound he⟩

theorem Inv.owner_of_runs (hr : s.runs t p = true) (hp : holds p .ready = true) : s.bklOwner = some t := by
  obtain ⟨rfl, hs⟩ := runs_iff.mp hr
  apply (h.fine t).owner.mpr
  rw [hs]
  exact hp

theorem Inv.step {a : Action} (hc : ByOwner s a) (hs : step n s a = some s') : ∃ ls', Inv n s' ls' := by
  unfold Bkl.step at hs
  split_ifs at hs with hen
  obtain ⟨-, hen⟩ := hen
  cases a with
  | start t =>
    obtain ⟨hp, hn⟩ : (s.thread t).phase = .ended ∧ t < n := by simpa [Enabled] using hen
    have hx : (s.thread t).state = .exited := by
      have hf := (h.fine t).fits
      simpa [hp, fits] using hf
    have hb : InvBut n s ls t := h.outside (by simp [hx]) (by simp [hx]) (by simp [hp, holds])
    cases hs
    exact ⟨ls, hb.leave (by simp) (by simp) rfl rfl ((h.fine t).timer_none (by simp [hp])) fun _ => hn⟩
  | lock t =>
    cases hs
    exact h.kernelLock hen (.inl rfl)
  | lockReturn t =>
    obtain ⟨hp, hr⟩ := runs_iff.mp hen
    cases hs
    exact ⟨ls, h.inside hr (h.owner_of_runs hen rfl) hr rfl ((h.fine t).timer_none (by simp [hp]))⟩
  | unlock t =>
    obtain ⟨hr, ht, hn⟩ := h.of_running (.inl hen)
    cases hs
    exact h.kernelUnlock (h.owner_of_runs hen rfl) hr ht hn (.inl rfl)
  | sleep t r =>
    obtain ⟨hr, ht, hn⟩ := h.of_running (by simpa [Enabled] using hen)
    cases hs
    exact h.taskSleep hc hr ht hn
  | sleepReturn t =>
    obtain ⟨hp, hr⟩ := runs_iff.mp hen
    have ho := h.owner_of_runs hen rfl
    have hown : Owns s t := ⟨h.locked.mpr (by simp [ho]), ho⟩
    cases hs
    simp only [Bkl.sleepReturn, if_pos hown]
    exact ⟨ls, h.inside hr ho hr rfl ((h.fine t).timer_none (by simp [hp]))⟩
  | sleepInterruptible t r timed flags interrupted =>
    obtain ⟨hr, ht, hn⟩ := h.of_running (by simpa [Enabled] using hen)
    cases hs
    exact h.taskSleepInterruptible hc hr ht hn timed flags interrupted
  | sleepInterruptibleReturn t =>
    obtain ⟨-, hr⟩ := runs_iff.mp hen
    cases hs
    exact ⟨ls, h.inside hr (h.owner_of_runs hen rfl) hr rfl rfl⟩
  | stop t =>
    obtain ⟨hr, ht, -⟩ := h.of_running (by simpa [Enabled] using hen)
    cases hs
    exact h.threadStop hc hr ht
  | interrupt t =>
    obtain ⟨hr, -⟩ : s.runs t .user = true ∧ s.bklLocked = false := by simpa [Enabled] using hen
    cases hs
    exact h.kernelLock hr (.inr rfl)
  | interruptUnlock t =>
    obtain ⟨hp, hr⟩ := runs_iff.mp hen
    cases hs
    exact h.kernelUnlock (h.owner_of_runs hen rfl) hr ((h.fine t).timer_none (by simp [hp]))
      ((h.fine t).bound (by simp [hp])) (.inr rfl)
  | interruptReturn t =>
    obtain ⟨hr, ht, hn⟩ := h.of_running (.inr hen)
    obtain ⟨hp, -⟩ := runs_iff.mp hen
    have hb : InvBut n s ls t := h.outside (by simp [hr]) (by simp [hr]) (by simp [hp, holds])
    cases hs
    exact ⟨ls, hb.leave (by simp [hr]) (by simp [hr]) rfl (by simp [hr, fits]) ht fun _ => hn⟩
  | wakeup r =>
    cases hs
    exact h.taskWakeup hen
  | wakeupAll r =>
    obtain ⟨u, ls', hu, h'⟩ := h.taskWakeupAll hen h.length_lt
    obtain rfl := Option.some.inj (hu.symm.trans hs)
    exact ⟨ls', h'⟩
  | wakeupSpecific t reason =>
    cases hs
    exact h.taskWakeupSpecific hen reason
  | timeout t =>
    obtain ⟨hl, -⟩ : s.bklLocked = true ∧ (s.thread t).timer.isSome = true := by simpa [Enabled] using hen
    obtain ⟨r, hr, rfl⟩ := Option.map_eq_some_iff.mp hs
    apply h.disarm.taskTimedSleepCallback hl
    rw [set_thread_self]
    exact ((h.fine t).timer r hr).2

end

theorem boot_inv : Inv n boot fun _ => [] := by
  refine ⟨⟨Family.empty, by simp [boot], fun _ => rfl, rfl⟩, fun t => ?_⟩
  constructor <;> simp [boot, fits, holds]

theorem Inv.monitor (h : Inv n s ls) : Monitor s := by
  refine ⟨h.locked, ⟨ls, h.family, h.empty, fun t => (h.fine t).bkl, fun t => (h.fine t).rendez⟩, ?_, h.running⟩
  rintro t ⟨hs, hp | hp⟩
  · exact (h.fine t).owner.mpr (by simp [hs, hp, holds])
  · exact (h.fine t).owner.mpr (by simp [hs, hp, holds])

end Invariant

structure Roused (x x' : Thread) : Prop where
  phase : x'.phase = x.phase
  flags : x'.intrFlags = x.intrFlags
  state : (x'.state = x.state ∧ x'.blockingRendez = x.blockingRendez) ∨ x'.state ≠ .rendezBlocked

structure Calm (x : Thread) : Prop where
  blocking : x.state = .rendezBlocked → x.blockingRendez ≠ none
  flags : x.phase = .asleepInterruptible ∨ x.intrFlags = 0

section Rousing

variable {n : ℕ} {s s' : State} {x y z : Thread} {t u : ThreadId} {a : Action} {k : State}

theorem Roused.refl (x : Thread) : Roused x x := ⟨rfl, rfl, .inl ⟨rfl, rfl⟩⟩

theorem Roused.trans (h : Roused x y) (h' : Roused y z) : Roused x z := by
  refine ⟨h'.phase.trans h.phase, h'.flags.trans h.flags, ?_⟩
  rcases h'.state with ⟨hs, hb⟩ | hs
  · rcases h.state with ⟨hs₀, hb₀⟩ | hs₀
    · exact .inl ⟨hs.trans hs₀, hb.trans hb₀⟩
    · exact .inr (hs ▸ hs₀)
  · exact .inr hs

theorem Roused.calm (h : Roused x y) (hc : Calm x) : Calm y := by
  refine ⟨fun hy => ?_, ?_⟩
  · rcases h.state with ⟨hs, hb⟩ | hs
    · rw [hb]
      exact hc.blocking (hs ▸ hy)
    · exact absurd hy hs
  · rw [h.phase, h.flags]
    exact hc.flags

theorem roused_update {f : ThreadId → Thread} (hx : Roused (f t) x) (u : ThreadId) : Roused (f u) (update f t x u) := by
  by_cases hu : u = t
  · subst hu
    rwa [update_self]
  · rw [update_of_ne hu]
    exact .refl _

theorem taskWakeupSpecific_wakes {reason : BitVec 32} (h : Calm (s.thread t)) (hr : (s.thread t).intrFlags &&& reason ≠ 0) :
    ((taskWakeupSpecific s t reason).thread t).state ≠ .rendezBlocked := by
  unfold taskWakeupSpecific
  by_cases hs : (s.thread t).state = .rendezBlocked
  · rw [if_pos ⟨hs, .inl hr⟩]
    cases hb : (s.thread t).blockingRendez with
    | none => exact absurd hb (h.blocking hs)
    | some r => simp [blockOnBkl, set_thread_self]
  · rw [if_neg fun hh => hs hh.1]
    exact hs

inductive Moved (s s' : State) (a : Action) (u : ThreadId) : Prop
  | roused (h : Roused (s.thread u) (s'.thread u))
  | awake (hp : (s.thread u).phase = .asleep → a = .sleepReturn u) (he : (s.thread u).phase = .ended → a = .start u)
      (hs : (s'.thread u).state ≠ .rendezBlocked) (hf : (s'.thread u).intrFlags = 0)
  | slept (r : RendezId) (hp : (s.thread u).phase ≠ .asleep ∧ (s.thread u).phase ≠ .ended) (ha : a = .sleep u r)
      (hx : (s'.thread u).phase = .asleep ∧ (s'.thread u).intrFlags = 0)
      (hb : (s'.thread u).state = .rendezBlocked ∧ (s'.thread u).blockingRendez = some r)
  | sleptInterruptible (r : RendezId) (timed : Bool) (hp : (s.thread u).phase ≠ .asleep ∧ (s.thread u).phase ≠ .ended)
      (ha : a = .sleepInterruptible u r timed (s'.thread u).intrFlags false)
      (hx : (s'.thread u).phase = .asleepInterruptible) (hb : (s'.thread u).blockingRendez = some r)

theorem Roused.awake {p : Phase} (h : Roused (s.thread t) (k.thread t)) (hc : Calm (s.thread t))
    (hr : s.runs t p = true) (hp : p ≠ .asleepInterruptible) :
    (k.thread t).state ≠ .rendezBlocked ∧ (k.thread t).intrFlags = 0 := by
  obtain ⟨hphase, hready⟩ := runs_iff.mp hr
  constructor
  · rcases h.state with ⟨hs, -⟩ | hs
    · rw [hs, hready]
      decide
    · exact hs
  · rw [h.flags]
    exact hc.flags.resolve_left fun hh => hp (hphase.symm.trans hh)

theorem moved_own (hk : Roused (s.thread u) (k.thread u))
    (hp : u = t → ((s.thread u).phase = .asleep → a = .sleepReturn u) ∧ ((s.thread u).phase = .ended → a = .start u))
    (hx : u = t → x.state ≠ .rendezBlocked ∧ x.intrFlags = 0) : Moved s (k.set t x) a u := by
  by_cases hu : u = t
  · subst hu
    obtain ⟨hst, hf⟩ := hx rfl
    exact .awake (hp rfl).1 (hp rfl).2 (by rwa [set_thread_self]) (by rwa [set_thread_self])
  · refine .roused ?_
    rwa [set_thread_ne k x hu]

theorem moved_runs {p : Phase} (hk : Roused (s.thread u) (k.thread u)) (hc : Calm (s.thread u)) (hr : s.runs t p = true)
    (hp : p ≠ .asleep ∧ p ≠ .ended ∧ p ≠ .asleepInterruptible)
    (hst : x.state = (k.thread t).state ∨ x.state ≠ .rendezBlocked) (hf : x.intrFlags = (k.thread t).intrFlags) :
    Moved s (k.set t x) a u := by
  refine moved_own hk ?_ ?_
  · rintro rfl
    rw [(runs_iff.mp hr).1]
    exact ⟨fun h => absurd h hp.1, fun h => absurd h hp.2.1⟩
  · rintro rfl
    obtain ⟨hstate, hflags⟩ := hk.awake hc hr hp.2.2
    exact ⟨hst.elim (fun h => h ▸ hstate) id, hf.trans hflags⟩

section

variable (s : State) (t : ThreadId) (r : RendezId) (u : ThreadId)

theorem roused_giveLock : Roused (s.thread u) ((giveLock s).thread u) := by
  unfold giveLock
  split
  · refine roused_update ?_ u
    exact ⟨rfl, rfl, .inr (by simp)⟩
  · exact .refl _

theorem roused_blockOnBkl : Roused (s.thread u) ((blockOnBkl s t).thread u) := by
  refine roused_update ?_ u
  exact ⟨rfl, rfl, .inr (by simp)⟩

theorem roused_kernelUnlock : Roused (s.thread u) ((kernelUnlock s).thread u) := by
  unfold kernelUnlock
  split
  · exact roused_giveLock s u
  · exact .refl _

theorem roused_taskWakeup : Roused (s.thread u) ((taskWakeup s r).thread u) := by
  unfold taskWakeup
  split
  · exact .refl _
  · split
    · exact roused_blockOnBkl _ _ u
    · exact .refl _

theorem roused_taskTimedSleepCallback : Roused (s.thread u) ((taskTimedSleepCallback s t r).thread u) := by
  unfold taskTimedSleepCallback
  split
  · split
    · exact roused_blockOnBkl _ _ u
    · exact .refl _
  · exact .refl _

theorem boot_calm : Calm (boot.thread u) := ⟨by simp [boot], .inr rfl⟩

end

theorem roused_taskWakeupAll {r : RendezId} {k : ℕ} (h : taskWakeupAll r k s = some s') (u : ThreadId) :
    Roused (s.thread u) (s'.thread u) := by
  induction k generalizing s with
  | zero => cases h
  | succ k ih =>
    simp only [taskWakeupAll] at h
    split at h
    · cases h
      exact .refl _
    split at h
    · refine Roused.trans ?_ (ih h)
      exact roused_blockOnBkl { s with link := dlistRemHead s.link (.rendez r) } _ u
    · cases h
      exact .refl _

theorem roused_taskWakeupSpecific (s : State) (t : ThreadId) (reason : BitVec 32) (u : ThreadId) :
    Roused (s.thread u) ((taskWakeupSpecific s t reason).thread u) := by
  unfold taskWakeupSpecific
  split
  · split
    · exact roused_blockOnBkl _ _ u
    · exact .refl _
  · exact .refl _

theorem step_moved (a : Action) (hs : step n s a = some s') (hc : Calm (s.thread u)) : Moved s s' a u := by
  have hsame := Roused.refl (s.thread u)
  have hgive := roused_giveLock s u
  have hunlock := roused_kernelUnlock s u
  -- the phase of a thread that runs is that of its action's guard
  have hphase {t : ThreadId} {p : Phase} (h : s.runs t p = true) (hp : p ≠ .asleep ∧ p ≠ .ended) (hu : u = t) :
      (s.thread u).phase ≠ .asleep ∧ (s.thread u).phase ≠ .ended := by
    rw [hu, (runs_iff.mp h).1]
    exact hp
  unfold step at hs
  split_ifs at hs with hen
  obtain ⟨-, hen⟩ := hen
  cases a with
  | start t =>
    have hp : (s.thread t).phase = .ended := (by simpa [Enabled] using hen : _ ∧ _).1
    cases hs
    refine moved_own hsame ?_ ?_
    · rintro rfl
      exact ⟨by simp [hp], fun _ => rfl⟩
    · rintro rfl
      exact ⟨by simp, hc.flags.resolve_left (by simp [hp])⟩
  | lock t =>
    cases hs
    simp only [kernelLock]
    split
    · exact moved_runs hsame hc hen (by decide) (.inl rfl) rfl
    · exact moved_runs hsame hc hen (by decide) (.inr (by simp)) rfl
  | lockReturn t | interruptReturn t =>
    cases hs
    exact moved_runs hsame hc hen (by decide) (.inl rfl) rfl
  | unlock t | interruptUnlock t =>
    cases hs
    exact moved_runs hunlock hc hen (by decide) (.inl rfl) rfl
  | sleep t r =>
    cases hs
    simp only [taskSleep]
    split
    · by_cases hu : u = t
      · subst hu
        obtain ⟨p, hr, hp, he, hi⟩ := running_phase (Bool.or_eq_true_iff.mp hen)
        refine .slept r (hphase hr ⟨hp, he⟩ rfl) rfl ?_ ?_
        · rw [set_thread_self]
          exact ⟨rfl, (hgive.awake hc hr hi).2⟩
        · rw [set_thread_self]
          exact ⟨rfl, rfl⟩
      · refine .roused ?_
        rwa [set_thread_ne _ _ hu]
    · exact .roused hsame
  | sleepReturn t =>
    cases hs
    simp only [sleepReturn]
    split
    · refine moved_own hsame ?_ ?_
      · rintro rfl
        exact ⟨fun _ => rfl, by simp [(runs_iff.mp hen).1]⟩
      · rintro rfl
        exact hsame.awake hc hen (by decide)
    · exact .roused hsame
  | sleepInterruptible t r timed flags interrupted =>
    cases hs
    simp only [taskSleepInterruptible]
    split
    · cases interrupted with
      | true => exact .roused hsame
      | false =>
        rw [if_neg Bool.false_ne_true]
        by_cases hu : u = t
        · subst hu
          obtain ⟨p, hr, hp, he, -⟩ := running_phase (Bool.or_eq_true_iff.mp hen)
          refine .sleptInterruptible r timed (hphase hr ⟨hp, he⟩ rfl) ?_ ?_ ?_
          all_goals rw [set_thread_self]
        · refine .roused ?_
          rwa [set_thread_ne _ _ hu]
    · exact .roused hsame
  | sleepInterruptibleReturn t =>
    cases hs
    refine moved_own hsame (fun hu => ?_) ?_
    · have hp := hphase hen (by decide) hu
      exact ⟨fun h => absurd h hp.1, fun h => absurd h hp.2⟩
    · rintro rfl
      exact ⟨by simp [(runs_iff.mp hen).2], rfl⟩
  | stop t =>
    cases hs
    obtain ⟨p, hr, hp⟩ := running_phase (Bool.or_eq_true_iff.mp hen)
    exact moved_runs hgive hc hr hp (.inr (by simp)) rfl
  | interrupt t =>
    have hr : s.runs t .user = true := (Bool.and_eq_true_iff.mp hen).1
    cases hs
    simp only [kernelLock]
    split
    · exact moved_runs hsame hc hr (by decide) (.inl rfl) rfl
    · exact moved_runs hsame hc hr (by decide) (.inr (by simp)) rfl
  | wakeup r =>
    cases hs
    exact .roused (roused_taskWakeup s r u)
  | wakeupAll r => exact .roused (roused_taskWakeupAll hs u)
  | wakeupSpecific t reason =>
    cases hs
    exact .roused (roused_taskWakeupSpecific s t reason u)
  | timeout t =>
    obtain ⟨r, -, rfl⟩ := Option.map_eq_some_iff.mp hs
    refine .roused (Roused.trans ?_ (roused_taskTimedSleepCallback _ t r u))
    refine roused_update ?_ u
    exact ⟨rfl, rfl, .inl ⟨rfl, rfl⟩⟩

section

variable (h : Moved s s' a u)
include h

theorem Moved.calm (hc : Calm (s.thread u)) : Calm (s'.thread u) := by
  cases h with
  | roused h => exact h.calm hc
  | awake _ _ hs hf => exact ⟨fun h => absurd h hs, .inr hf⟩
  | slept r _ _ hx hb => exact ⟨fun _ => by simp [hb.2], .inr hx.2⟩
  | sleptInterruptible r _ _ _ hx hb => exact ⟨fun _ => by simp [hb], .inl hx⟩

theorem Moved.interruptible (hs : (s'.thread u).state = .rendezBlocked) (hf : (s'.thread u).intrFlags ≠ 0) :
    ((s.thread u).state = .rendezBlocked ∧ (s'.thread u).intrFlags = (s.thread u).intrFlags) ∨
      ∃ r timed, a = .sleepInterruptible u r timed (s'.thread u).intrFlags false := by
  cases h with
  | roused h =>
    rcases h.state with ⟨hst, -⟩ | hst
    · exact .inl ⟨hst ▸ hs, h.flags⟩
    · exact absurd hs hst
  | awake _ _ hst => exact absurd hs hst
  | slept r _ _ hx => exact absurd hx.2 hf
  | sleptInterruptible r timed _ ha => exact .inr ⟨r, timed, ha⟩

theorem Moved.uninterruptible (hp : (s.thread u).phase = .asleep)
    (ha : a ≠ .sleepReturn u) : Roused (s.thread u) (s'.thread u) := by
  cases h with
  | roused h => exact h
  | awake hp' => exact absurd (hp' hp) ha
  | slept _ hp' | sleptInterruptible _ _ hp' => exact absurd hp hp'.1

theorem Moved.ended (hp : (s.thread u).phase = .ended) (ha : a ≠ .start u) : (s'.thread u).phase = .ended := by
  cases h with
  | roused h => exact h.phase.trans hp
  | awake _ he => exact absurd (he hp) ha
  | slept _ hp' | sleptInterruptible _ _ hp' => exact absurd hp hp'.2

end

end Rousing

theorem monitor_of_byOwner (maxThread : ℕ) (s : State) (h : Reach (step maxThread) ByOwner Booted s) : Monitor s := by
  obtain ⟨ls, hi⟩ : ∃ ls, Inv maxThread s ls := by
    apply Reach.invariant (P := fun s => ∃ ls, Inv maxThread s ls) _ _ h
    · rintro s rfl
      exact ⟨_, boot_inv⟩
    · rintro s a t ⟨ls, hi⟩ hc hs
      exact hi.step hc hs
  exact hi.monitor

theorem monitor_of_timed_sleep : ∃ s, Reach (step 2) ByOwner Booted s ∧ Returning s 1 ∧ s.bklOwner = some 1 :=
  Reach.exists_of_run (Q := fun s => (s.thread 1).state = .ready ∧ (s.thread 1).phase = .asleepInterruptible)
    [.start 0, .start 1, .lock 1, .sleepInterruptible 1 7 true 1 false, .lock 0, .timeout 1, .unlock 0] rfl
    (by decide) (by decide) fun s hr hq =>
      have hret : Returning s 1 := ⟨hq.1, .inr hq.2⟩
      ⟨hret, (monitor_of_byOwner 2 s hr).returning 1 hret⟩

theorem unlocked_stop_takes_lock :
    ∃ s, Reach (step 2) always Booted s ∧ ¬Monitor s ∧ (s.thread 0).phase = .ended ∧ s.bklOwner = none := by
  refine Reach.exists_of_run (Q := fun s => ((s.thread 1).state = .ready ∧ (s.thread 1).phase = .asleep) ∧
      (s.thread 0).phase = .ended ∧ s.bklOwner = none)
    [.start 0, .start 1, .lock 1, .sleep 1 7, .interrupt 0, .wakeup 7, .interruptUnlock 0, .stop 0] rfl
    (meets_always _ _) (by decide) fun s _ hq => ⟨fun hm => ?_, hq.2⟩
  have ho := hm.returning 1 ⟨hq.1.1, .inl hq.1.2⟩
  simp [hq.2.2] at ho

end CheviotKernel.Bkl
