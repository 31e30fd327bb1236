import CheviotKernel.Proc.SleepWakeup

namespace CheviotKernel.KernelExit

open Function Bkl Runs

inductive Path
  | syscall
  | prefetchAbort
  | dataAbort
  | forkedProcess
  | execedProcess
  | userThread
  | interrupt
  deriving DecidableEq

inductive Op
  | kernelLock
  | lockIfFree
  | body
  | checkSignals
  | kernelUnlock
  deriving DecidableEq

def code : Path → List Op
  | .syscall => [.kernelLock, .body, .checkSignals, .kernelUnlock]
  | .prefetchAbort => [.kernelLock, .body, .checkSignals, .kernelUnlock]
  | .dataAbort => [.kernelLock, .body, .checkSignals, .kernelUnlock]
  | .forkedProcess => [.kernelLock, .checkSignals, .kernelUnlock]
  | .execedProcess => [.checkSignals, .kernelUnlock]
  | .userThread => [.kernelLock, .checkSignals, .kernelUnlock]
  | .interrupt => [.lockIfFree, .body, .kernelUnlock, .checkSignals]

inductive Event
  | checked (t : ThreadId) (owned : Bool)
  | left (t : ThreadId) (checked : Bool)
  deriving DecidableEq

structure State where
  bkl : Bkl.State
  path : ThreadId → Option Path
  rest : ThreadId → List Op
  checked : ThreadId → Bool
  log : List Event

def State.enter (s : State) (t : ThreadId) (p : Path) : State :=
  { s with
    path := update s.path t (some p)
    rest := update s.rest t (code p)
    checked := update s.checked t false }

def State.goOn (s : State) (t : ThreadId) (ops : List Op) (b : Bkl.State) : State :=
  { s with bkl := b, rest := update s.rest t ops }

def checkSignals (s : State) (t : ThreadId) (ops : List Op) : State :=
  { s.goOn t ops s.bkl with
    checked := update s.checked t true
    log := .checked t (decide (Owns s.bkl t)) :: s.log }

def advance (maxThread : ℕ) (s : State) (t : ThreadId) : Option State :=
  match s.rest t with
  | [] => none
  | .kernelLock :: ops => (Bkl.step maxThread s.bkl (.lock t)).map (s.goOn t ops)
  | .lockIfFree :: ops =>
    -- A handler that finds the lock taken skips what follows the top half.
    if s.bkl.bklLocked then
      if s.bkl.runs t .user then some (s.goOn t [.body] s.bkl) else none
    else (Bkl.step maxThread s.bkl (.interrupt t)).map (s.goOn t ops)
  | .body :: ops => if (s.bkl.thread t).state = .ready then some (s.goOn t ops s.bkl) else none
  | .checkSignals :: ops =>
    if s.bkl.runs t (if s.path t = some .interrupt then .irqExit else .kernel) then some (checkSignals s t ops) else none
  | .kernelUnlock :: ops =>
    (Bkl.step maxThread s.bkl (if s.path t = some .interrupt then .interruptUnlock t else .unlock t)).map (s.goOn t ops)

def leave (s : State) (t : ThreadId) : State :=
  { s with
    bkl := if s.bkl.runs t .irqExit then setPhase s.bkl t .user else s.bkl
    path := update s.path t none
    log := .left t (s.checked t) :: s.log }

def Works : Bkl.Action → Bool
  | .lock _ => false
  | .unlock _ => false
  | .interrupt _ => false
  | .interruptUnlock _ => false
  | .interruptReturn _ => false
  | _ => true

inductive Action
  | enter (t : ThreadId) (p : Path)
  | advance (t : ThreadId)
  | exec (t : ThreadId)
  | leave (t : ThreadId)
  | work (a : Bkl.Action)

def start (s : State) : Bkl.Action → State
  | .start t => { s with path := update s.path t none, rest := update s.rest t [] }
  | _ => s

def step (maxThread : ℕ) (s : State) : Action → Option State
  | .enter t p =>
    if s.path t = none ∧ s.bkl.runs t .user ∧ p ≠ .execedProcess then some (s.enter t p) else none
  | .advance t => if s.path t ≠ none then advance maxThread s t else none
  | .exec t =>
    if s.path t = some .syscall ∧ (s.rest t).head? = some .body ∧ s.bkl.runs t .kernel then
      some (s.enter t .execedProcess)
    else none
  | .leave t =>
    if s.path t ≠ none ∧ s.rest t = [] ∧ (s.bkl.thread t).state = .ready then some (leave s t) else none
  | .work a =>
    if Works a then (Bkl.step maxThread s.bkl a).map fun b => { start s a with bkl := b } else none

def Booted (s : State) : Prop := Bkl.Booted s.bkl ∧ (∀ t, s.path t = none) ∧ s.log = []

structure Disciplined (isUser : ThreadId → Bool) (log : List Event) : Prop where
  owned : ∀ t b, isUser t → .checked t b ∈ log → b = true
  checked : ∀ t b, isUser t → .left t b ∈ log → b = true

def Uninterrupted (isUser : ThreadId → Bool) (s : State) : Action → Prop
  | .enter t p => p = .interrupt → isUser t = false
  | .work (.sleep t _) => (s.bkl.thread t).phase ≠ .irqExit
  | .work (.sleepInterruptible t _ _ _ _) => (s.bkl.thread t).phase ≠ .irqExit
  | .work (.stop t) => (s.bkl.thread t).phase ≠ .irqExit
  | _ => True

section Invariant

variable {isUser : ThreadId → Bool} {n : ℕ} {s s' : State} {ls : Blocked → List ThreadId} {t u : ThreadId}
  {ops : List Op} {b : Bkl.State} {a : Bkl.Action}

structure OnWay (s : State) (t : ThreadId) : Prop where
  path : s.path t ≠ some .interrupt
  check : s.path t ≠ none → s.checked t = true ∨ .checkSignals ∈ s.rest t
  free : s.path t ≠ none → .lockIfFree ∉ s.rest t

structure Inv (isUser : ThreadId → Bool) (n : ℕ) (s : State) : Prop where
  bkl : ∃ ls, Bkl.Inv n s.bkl ls
  way : ∀ t, isUser t → OnWay s t
  log : Disciplined isUser s.log

namespace Inv

variable (h : Inv isUser n s)
include h

theorem setBkl (hb : ∃ ls, Bkl.Inv n b ls) : Inv isUser n { s with bkl := b } :=
  ⟨hb, fun t ht => ⟨(h.way t ht).path, (h.way t ht).check, (h.way t ht).free⟩, h.log⟩

theorem move (t : ThreadId) (hb : ∃ ls, Bkl.Inv n s'.bkl ls)
    (hother : ∀ u, u ≠ t → s'.path u = s.path u ∧ s'.checked u = s.checked u ∧ s'.rest u = s.rest u)
    (hself : isUser t → OnWay s t → OnWay s' t) (hlog : Disciplined isUser s'.log) : Inv isUser n s' := by
  refine ⟨hb, fun u hu => ?_, hlog⟩
  by_cases hut : u = t
  · subst hut
    exact hself hu (h.way u hu)
  · obtain ⟨hpath, hchecked, hrest⟩ := hother u hut
    obtain ⟨hirq, hcheck, hfree⟩ := h.way u hu
    constructor
    · rwa [hpath]
    · rwa [hpath, hchecked, hrest]
    · rwa [hpath, hrest]

theorem enter {p : Path} (hp : isUser t → p ≠ .interrupt) : Inv isUser n (s.enter t p) := by
  refine h.move t h.bkl (fun u hut => by simp [State.enter, hut]) (fun hu _ => ?_) h.log
  have hpath := hp hu
  constructor
  · simpa [State.enter] using hpath
  · simp [State.enter]
    cases p <;> simp [code]
  · simp [State.enter]
    cases p <;> simp_all [code]

theorem goOn {op : Op} (hr : s.rest t = op :: ops) (hop : op ≠ .checkSignals)
    (hb : ∃ ls, Bkl.Inv n b ls) : Inv isUser n (s.goOn t ops b) := by
  refine h.move t hb (fun u hut => by simp [State.goOn, hut]) (fun _ hway => ?_) h.log
  obtain ⟨hpath, hcheck, hfree⟩ := hway
  rw [hr] at hcheck hfree
  refine ⟨hpath, ?_, ?_⟩
  · intro hin
    simpa [State.goOn, hop.symm] using hcheck hin
  intro hin
  have hf := hfree hin
  simp only [List.mem_cons, not_or] at hf
  simpa [State.goOn] using hf.2

protected theorem checkSignals (hr : s.rest t = .checkSignals :: ops)
    (hrun : s.bkl.runs t (if s.path t = some .interrupt then .irqExit else .kernel) = true) :
    Inv isUser n (checkSignals s t ops) := by
  obtain ⟨ls, hb⟩ := h.bkl
  refine h.move t ⟨ls, hb⟩ (fun u hut => by simp [checkSignals, State.goOn, hut]) (fun _ hway => ?_) ⟨?_, ?_⟩
  · obtain ⟨hpath, -, hfree⟩ := hway
    rw [hr] at hfree
    refine ⟨hpath, fun _ => .inl (by simp [checkSignals]), ?_⟩
    intro hin
    simpa [checkSignals, State.goOn] using hfree hin
  · intro u x hu hm
    rcases List.mem_cons.mp hm with he | hm
    · obtain ⟨rfl, rfl⟩ := Event.checked.inj he
      rw [if_neg (h.way u hu).path] at hrun
      have ho := hb.owner_of_runs hrun rfl
      exact decide_eq_true ⟨hb.locked.mpr (by simp [ho]), ho⟩
    · exact h.log.owned u x hu hm
  · intro u x hu hm
    rcases List.mem_cons.mp hm with he | hm
    · cases he
    · exact h.log.checked u x hu hm

theorem bklStep (hs : Bkl.step n s.bkl a = some b) (hc : ByOwner s.bkl a) : ∃ ls, Bkl.Inv n b ls := by
  obtain ⟨ls, hb⟩ := h.bkl
  exact hb.step hc hs

protected theorem advance (hin : s.path t ≠ none) (hs : advance n s t = some s') : Inv isUser n s' := by
  unfold advance at hs
  split at hs
  · cases hs
  · rename_i ops hr
    obtain ⟨b, hb, rfl⟩ := Option.map_eq_some_iff.mp hs
    exact h.goOn hr (by simp) (h.bklStep hb trivial)
  · rename_i ops hr
    split_ifs at hs with hl hrun
    · cases hs
      refine h.move t h.bkl (fun u hut => by simp [State.goOn, hut]) (fun _ hway => ?_) h.log
      exact absurd (by simp [hr]) (hway.free hin)
    · obtain ⟨b, hb, rfl⟩ := Option.map_eq_some_iff.mp hs
      exact h.goOn hr (by simp) (h.bklStep hb trivial)
  · rename_i ops hr
    obtain ⟨-, rfl⟩ := guarded hs
    exact h.goOn hr (by simp) h.bkl
  · rename_i ops hr
    obtain ⟨hrun, hs⟩ := Option.ite_none_right_eq_some.mp hs
    cases hs
    exact h.checkSignals hr hrun
  · rename_i ops hr
    obtain ⟨b, hb, rfl⟩ := Option.map_eq_some_iff.mp hs
    refine h.goOn hr (by simp) (h.bklStep hb ?_)
    split_ifs <;> trivial

protected theorem leave (hin : s.path t ≠ none) (hr : s.rest t = []) : Inv isUser n (leave s t) := by
  refine h.move t ?_ (fun u hut => by simp [leave, hut]) (fun _ _ => ?_) ⟨?_, ?_⟩
  · unfold leave
    split_ifs with hrun
    · obtain ⟨ls, hb⟩ := h.bkl
      exact hb.step (a := .interruptReturn t) trivial (if_pos ⟨hb.running, hrun⟩)
    · exact h.bkl
  · exact ⟨by simp [leave], by simp [leave], by simp [leave]⟩
  · intro u x hu hm
    rcases List.mem_cons.mp hm with he | hm
    · cases he
    · exact h.log.owned u x hu hm
  · intro u x hu hm
    rcases List.mem_cons.mp hm with he | hm
    · obtain ⟨rfl, rfl⟩ := Event.left.inj he
      have hc := (h.way u hu).check hin
      simpa [hr] using hc
    · exact h.log.checked u x hu hm

theorem byOwner (hc : Uninterrupted isUser s (.work a)) (hen : Enabled n s.bkl a = true) : ByOwner s.bkl a := by
  obtain ⟨ls, hb⟩ := h.bkl
  have howner {t : ThreadId} (hp : (s.bkl.thread t).phase ≠ .irqExit)
      (hr : (s.bkl.runs t .kernel || s.bkl.runs t .irqExit) = true) : s.bkl.bklOwner = some t := by
    rcases Bool.or_eq_true_iff.mp hr with hr | hr
    · exact hb.owner_of_runs hr rfl
    · exact absurd (runs_iff.mp hr).1 hp
  cases a with
  | sleep t r | sleepInterruptible t r timed flags interrupted | stop t => exact howner hc hen
  | _ => trivial

protected theorem start (a : Bkl.Action) : Inv isUser n (start s a) := by
  cases a with
  | start t =>
    refine h.move t h.bkl (fun u hut => by simp [start, hut]) (fun _ _ => ?_) h.log
    exact ⟨by simp [start], by simp [start], by simp [start]⟩
  | _ => exact h

protected theorem step {a : Action} (hc : Uninterrupted isUser s a) (hs : step n s a = some s') :
    Inv isUser n s' := by
  cases a with
  | enter t p =>
    obtain ⟨-, rfl⟩ := guarded hs
    refine h.enter ?_
    rintro hu rfl
    rw [hc rfl] at hu
    cases hu
  | advance t =>
    simp only [step] at hs
    split_ifs at hs with hin
    exact h.advance hin hs
  | exec t =>
    obtain ⟨-, rfl⟩ := guarded hs
    exact h.enter (by simp)
  | leave t =>
    obtain ⟨hin, rfl⟩ := guarded hs
    exact h.leave hin.1 hin.2.1
  | work a =>
    simp only [step] at hs
    split_ifs at hs
    obtain ⟨b, hb, rfl⟩ := Option.map_eq_some_iff.mp hs
    have hen : Enabled n s.bkl a = true := by
      unfold Bkl.step at hb
      split_ifs at hb with hen
      exact hen.2
    exact (h.start a).setBkl (h.bklStep hb (h.byOwner hc hen))

end Inv

theorem inv_booted (h : Booted s) : Inv isUser n s := by
  obtain ⟨hb, hpath, hlog⟩ := h
  refine ⟨⟨_, hb ▸ boot_inv⟩, ?_, ?_⟩
  · intro t _
    exact ⟨by simp [hpath t], fun hn => absurd (hpath t) hn, fun hn => absurd (hpath t) hn⟩
  · rw [hlog]
    exact ⟨by simp, by simp⟩

theorem disciplined_of_uninterrupted (h : Reach (step n) (Uninterrupted isUser) Booted s) :
    Disciplined isUser s.log ∧ s.bkl.panicked = false := by
  have hi : Inv isUser n s := h.invariant (fun _ h0 => inv_booted h0) fun _ _ _ hi hc hs => hi.step hc hs
  obtain ⟨ls, hb⟩ := hi.bkl
  exact ⟨hi.log, hb.running⟩

end Invariant

def bootState : State := ⟨Bkl.boot, fun _ => none, fun _ => [], fun _ => false, []⟩

instance (isUser : ThreadId → Bool) (s : State) (a : Action) : Decidable (Uninterrupted isUser s a) := by
  unfold Uninterrupted
  split <;> infer_instance

def idleTick (work : List Action) : List Action :=
  [.enter 0 .interrupt, .advance 0] ++ work ++ [.advance 0, .advance 0, .advance 0, .leave 0]

def sleepingCall : List Action :=
  [.work (.start 0), .work (.start 1), .enter 1 .syscall, .advance 1, .work (.sleep 1 7)] ++
    idleTick [.work (.wakeup 7)] ++ [.work (.sleepReturn 1), .advance 1, .advance 1, .advance 1, .leave 1]

theorem sleeping_call_disciplined : ∃ s, Reach (step 2) (Uninterrupted (· ≠ 0)) Booted s ∧
    .left 1 true ∈ s.log ∧ Disciplined (· ≠ 0) s.log ∧ s.bkl.panicked = false :=
  Reach.exists_of_run (Q := fun s => .left 1 true ∈ s.log) sleepingCall (s := bootState) ⟨rfl, fun _ => rfl, rfl⟩
    (by decide +kernel) (by decide +kernel) fun _ hr hq => ⟨hq, disciplined_of_uninterrupted hr⟩

theorem interrupt_checks_unlocked : ∃ s, Reach (step 2) always Booted s ∧
    s.log = [.checked 1 false] ∧ s.bkl.panicked = true ∧ ¬ Disciplined (· ≠ 0) s.log := by
  refine Reach.exists_of_run (Q := fun s => s.log = [.checked 1 false] ∧ s.bkl.panicked = true)
    [.work (.start 1), .enter 1 .interrupt, .advance 1, .advance 1, .advance 1, .advance 1, .work (.sleep 1 7)]
    (s := bootState) ⟨rfl, fun _ => rfl, rfl⟩ (meets_always _ _) (by decide +kernel) fun s _ hq => ⟨hq.1, hq.2, ?_⟩
  intro hd
  have hf := hd.owned 1 false (by decide) (by simp [hq.1])
  cases hf

end CheviotKernel.KernelExit
