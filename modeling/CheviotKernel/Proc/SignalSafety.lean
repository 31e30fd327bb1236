import CheviotKernel.Proc.Delivery

namespace CheviotKernel.Signals

open Runs BitSets

section

structure Task where
  signal : ThreadSignalState
  uc : UserContext
  entry : BitVec 32

structure Process where
  signal : ProcSignalState
  task : ℕ → Option Task

inductive Event
  | user (i : ℕ) (uc : UserContext)
  | sigaction (signal : Int) (act : Option (Option Sigaction)) (oact : Option Bool) (flags : SaFlags)
      (restorer : Option Addr)
  | sigprocmask (i : ℕ) (how : How) (set : Option (Sigset × Bool)) (oset : Option Bool)
  | sigsuspend (i : ℕ) (mask : Option Sigset)
  | sigreturn (i : ℕ) (frame : Option Addr)
  | create (i j : ℕ) (uc : UserContext)
  | signalThread (i signal : ℕ) (code val : Int)
  | signalProcess (signal : ℕ)
  | check (i : ℕ) (frame : Option Sigframe) (copied : Bool)

def Process.setTask (s : Process) (i : ℕ) (x : Task) : Process := { s with task := Function.update s.task i (some x) }

def Task.setSignal (x : Task) (t : ThreadSignalState) : Task := { x with signal := t }

def settle (s : Process) (i : ℕ) (x : Task) : Outcome → Process
  | .exit _ => { s with task := fun _ => none }
  | .done p t uc _ => { s with signal := p }.setTask i ⟨t, uc, x.entry⟩

def step (layout : FrameLayout) (beyond : Bool) (s : Process) : Event → Option Process
  | .user i uc => (s.task i).bind fun x =>
    if uc.cpsr &&& (cpsrModeMask ||| cpsrInterrupts) = x.uc.cpsr &&& (cpsrModeMask ||| cpsrInterrupts) then
      some (s.setTask i { x with uc := uc, entry := uc.cpsr })
    else none
  | .sigaction signal act oact flags restorer =>
    some { s with signal := (sysSigaction s.signal signal act oact flags restorer).1 }
  | .sigprocmask i how set oset => (s.task i).map fun x =>
    s.setTask i (x.setSignal (sysSigprocmask x.signal how set oset).1)
  | .sigsuspend i mask => (s.task i).map fun x => s.setTask i (x.setSignal (sysSigsuspend x.signal mask).1)
  | .sigreturn i frame => (s.task i).map fun x => s.setTask i (x.setSignal (sysSigreturn x.signal frame))
  | .create i j uc => (s.task i).bind fun x =>
    if s.task j = none ∧ uc.cpsr &&& cpsrModeMask = usrMode then
      some (s.setTask j ⟨initThread x.signal.sigMask, uc, uc.cpsr⟩)
    else none
  | .signalThread i signal code val => (s.task i).map fun x =>
    s.setTask i (x.setSignal (doSignalThread s.signal x.signal signal code val))
  | .signalProcess signal =>
    some { s with signal := { s.signal with sigPending := s.signal.sigPending ||| sigbit signal } }
  | .check i frame copied => (s.task i).map fun x =>
    settle s i x (checkSignals layout beyond s.signal x.signal x.uc frame copied)

def Fresh (s : Process) : Prop :=
  s.signal = initSignals ∧ ∃ uc : UserContext, uc.cpsr &&& cpsrModeMask = usrMode ∧
    s.task = fun i => if i = 0 then some ⟨initThread 0, uc, uc.cpsr⟩ else none

def All (P : Task → Prop) (s : Process) : Prop := ∀ i x, s.task i = some x → P x

variable {layout : FrameLayout} {beyond : Bool} {s s' : Process} {P : Task → Prop} {i sig : ℕ} {x : Task}
  {p p' : ProcSignalState} {t t' : ThreadSignalState} {uc uc' : UserContext} {w : Option (Addr × Sigframe)}
  {e : Event} {frame : Option Sigframe}

theorem All.setTask (h : All P s) (hx : P x) : All P (s.setTask i x) := by
  intro j y hy
  by_cases hj : j = i
  · subst hj
    obtain rfl : x = y := by simpa [Process.setTask] using hy
    exact hx
  · exact h j y (by simpa [Process.setTask, hj] using hy)

theorem All.settle (h : All P s) {o : Outcome} (ho : ∀ p t uc w, o = .done p t uc w → P ⟨t, uc, x.entry⟩) :
    All P (settle s i x o) := by
  cases o with
  | exit sig =>
    intro j y hy
    simp [Signals.settle] at hy
  | done p t uc w => exact All.setTask h (ho p t uc w rfl)

inductive Turn (layout : FrameLayout) (beyond : Bool) (s : Process) : Event → Task → Prop
  | user (i : ℕ) (uc : UserContext) (x : Task) (hx : s.task i = some x)
      (h : uc.cpsr &&& (cpsrModeMask ||| cpsrInterrupts) = x.uc.cpsr &&& (cpsrModeMask ||| cpsrInterrupts)) :
      Turn layout beyond s (.user i uc) { x with uc := uc, entry := uc.cpsr }
  | sigprocmask (i : ℕ) (how : How) (set : Option (Sigset × Bool)) (oset : Option Bool) (x : Task)
      (hx : s.task i = some x) :
      Turn layout beyond s (.sigprocmask i how set oset) (x.setSignal (sysSigprocmask x.signal how set oset).1)
  | sigsuspend (i : ℕ) (mask : Option Sigset) (x : Task) (hx : s.task i = some x) :
      Turn layout beyond s (.sigsuspend i mask) (x.setSignal (sysSigsuspend x.signal mask).1)
  | sigreturn (i : ℕ) (frame : Option Addr) (x : Task) (hx : s.task i = some x) :
      Turn layout beyond s (.sigreturn i frame) (x.setSignal (sysSigreturn x.signal frame))
  | create (i j : ℕ) (uc : UserContext) (x : Task) (hx : s.task i = some x) (h : uc.cpsr &&& cpsrModeMask = usrMode) :
      Turn layout beyond s (.create i j uc) ⟨initThread x.signal.sigMask, uc, uc.cpsr⟩
  | signalThread (i signal : ℕ) (code val : Int) (x : Task) (hx : s.task i = some x) :
      Turn layout beyond s (.signalThread i signal code val)
        (x.setSignal (doSignalThread s.signal x.signal signal code val))
  | check (i : ℕ) (frame : Option Sigframe) (copied : Bool) (x : Task) (hx : s.task i = some x) (p : ProcSignalState)
      (t t₁ : ThreadSignalState) (uc uc₁ : UserContext) (w : Option (Addr × Sigframe))
      (hr : restoreFrame x.signal x.uc frame = some (t₁, uc₁))
      (hc : Checked layout beyond s.signal t₁ uc₁ (.done p t uc w)) :
      Turn layout beyond s (.check i frame copied) ⟨t, uc, x.entry⟩

theorem All.step (h : All P s) (ht : ∀ y, Turn layout beyond s e y → P y)
    (hs : step layout beyond s e = some s') : All P s' := by
  cases e with
  | user i uc =>
    obtain ⟨x, hx, hu⟩ := Option.bind_eq_some_iff.mp hs
    obtain ⟨hp, rfl⟩ := guarded hu
    exact h.setTask (ht _ (.user i uc x hx hp))
  | sigaction signal act oact flags restorer | signalProcess signal =>
    cases hs
    exact h
  | sigprocmask i how set oset =>
    obtain ⟨x, hx, rfl⟩ := Option.map_eq_some_iff.mp hs
    exact h.setTask (ht _ (.sigprocmask i how set oset x hx))
  | sigsuspend i mask =>
    obtain ⟨x, hx, rfl⟩ := Option.map_eq_some_iff.mp hs
    exact h.setTask (ht _ (.sigsuspend i mask x hx))
  | sigreturn i frame =>
    obtain ⟨x, hx, rfl⟩ := Option.map_eq_some_iff.mp hs
    exact h.setTask (ht _ (.sigreturn i frame x hx))
  | create i j uc =>
    obtain ⟨x, hx, hu⟩ := Option.bind_eq_some_iff.mp hs
    obtain ⟨hp, rfl⟩ := guarded hu
    exact h.setTask (ht _ (.create i j uc x hx hp.2))
  | signalThread i signal code val =>
    obtain ⟨x, hx, rfl⟩ := Option.map_eq_some_iff.mp hs
    exact h.setTask (ht _ (.signalThread i signal code val x hx))
  | check i frame copied =>
    obtain ⟨x, hx, rfl⟩ := Option.map_eq_some_iff.mp hs
    refine h.settle fun p t uc w ho => ?_
    cases hr : restoreFrame x.signal x.uc frame with
    | none => simp [checkSignals, hr] at ho
    | some y =>
      have hc := checkSignals_checked layout beyond s.signal copied hr
      rw [ho] at hc
      exact ht _ (.check i frame copied x hx p t y.1 uc y.2 w hr hc)

def UserMode (x : Task) : Prop :=
  x.uc.cpsr &&& cpsrModeMask = usrMode ∧ x.uc.cpsr &&& cpsrInterrupts = x.entry &&& cpsrInterrupts

def SameMode (s : Process) : Event → Prop
  | .check i frame _ => ∀ x ∈ s.task i, x.signal.sigreturnSigframe ≠ none → ∀ f ∈ frame,
      f.mcontext.cpsr &&& cpsrModeMask = usrMode ∧ f.mcontext.cpsr &&& cpsrInterrupts = x.entry &&& cpsrInterrupts
  | _ => True

instance (s : Process) (e : Event) : Decidable (SameMode s e) := by
  cases e <;> unfold SameMode <;> infer_instance

theorem Acted.cpsr {oldMask : Sigset}
    (h : Acted layout beyond p t uc oldMask sig (.done p' t' uc' w)) : uc'.cpsr = uc.cpsr := by
  cases h with
  | unrestored | default | ignored | handled => rfl

theorem Checked.cpsr (h : Checked layout beyond p t uc (.done p' t' uc' w)) : uc'.cpsr = uc.cpsr := by
  cases h with
  | quiet | none => rfl
  | acted _ _ _ _ ha => exact ha.cpsr

theorem UserMode.restore (hx : UserMode x)
    (hf : x.signal.sigreturnSigframe ≠ none → ∀ f ∈ frame, f.mcontext.cpsr &&& cpsrModeMask = usrMode ∧
      f.mcontext.cpsr &&& cpsrInterrupts = x.entry &&& cpsrInterrupts)
    (hr : restoreFrame x.signal x.uc frame = some (t, uc)) :
    UserMode ⟨t, uc, x.entry⟩ := by
  unfold restoreFrame at hr
  split at hr
  · cases hr
    exact hx
  next hs =>
    obtain ⟨f, hfr, he⟩ := Option.map_eq_some_iff.mp hr
    cases he
    exact hf (by simp [hs]) f hfr

theorem userMode_step (h : All UserMode s) (hc : SameMode s e) (hs : step layout beyond s e = some s') :
    All UserMode s' := by
  refine h.step (fun y hy => ?_) hs
  cases hy with
  | user i uc x hx hp =>
    have hmode : uc.cpsr &&& cpsrModeMask = x.uc.cpsr &&& cpsrModeMask :=
      and_eq_and_of_within hp (or_eq_left_iff.mp (by decide))
    exact ⟨hmode.trans (h i x hx).1, rfl⟩
  | sigprocmask i how set oset x hx | sigsuspend i mask x hx | sigreturn i frame x hx
  | signalThread i signal code val x hx => exact h i x hx
  | create i j uc x hx hp => exact ⟨hp, rfl⟩
  | check i frame copied x hx p t t₁ uc uc₁ w hr hck =>
    have hmode := (h i x hx).restore (hc x hx) hr
    unfold UserMode at hmode ⊢
    rwa [hck.cpsr]

theorem fresh_all (hs : Fresh s)
    (hP : ∀ uc : UserContext, uc.cpsr &&& cpsrModeMask = usrMode → P ⟨initThread 0, uc, uc.cpsr⟩) : All P s := by
  obtain ⟨-, uc, huc, ht⟩ := hs
  intro i x hx
  rw [ht] at hx
  by_cases hi : i = 0
  · obtain rfl : (⟨initThread 0, uc, uc.cpsr⟩ : Task) = x := by simpa [hi] using hx
    exact hP uc huc
  · simp [hi] at hx

theorem user_mode_of_sameMode (layout : FrameLayout) (beyond : Bool) (s : Process)
    (h : Reach (step layout beyond) SameMode Fresh s) : ∀ i x, s.task i = some x → UserMode x := by
  apply Reach.invariant (P := All UserMode) _ _ h
  · exact fun s hs => fresh_all hs fun uc huc => ⟨huc, rfl⟩
  · exact fun s e s' hi hc hs => userMode_step hi hc hs

def freshProcess : Process where
  signal := initSignals
  task := fun i => if i = 0 then some ⟨initThread 0, sampleContext, usrMode⟩ else none

theorem freshProcess_fresh : Fresh freshProcess := ⟨rfl, sampleContext, rfl, rfl⟩

def frameWith (cpsr : BitVec 32) (sigmask : Sigset) : Sigframe :=
  ⟨{ sampleContext with cpsr := cpsr }, sigmask, 2, none, 0, .func 0x9000⟩

theorem user_mode_after_sigreturn :
    ∃ s x, Reach (step sampleLayout false) SameMode Fresh s ∧ s.task 0 = some x ∧ x.uc.cpsr = 0x30 ∧ UserMode x := by
  obtain ⟨s, hr, hq⟩ : ∃ s, Reach (step sampleLayout false) SameMode Fresh s ∧
      ((s.task 0).any fun x => x.uc.cpsr = 0x30) = true :=
    Reach.exists_of_any [.sigreturn 0 (some 0x100), .check 0 (some (frameWith 0x30 0)) true] _ freshProcess_fresh
      (by decide) (by decide)
  obtain ⟨x, hx, hq⟩ := Option.any_eq_true _ _ |>.mp hq
  refine ⟨s, x, hr, hx, of_decide_eq_true hq, ?_⟩
  exact user_mode_of_sameMode sampleLayout false s hr 0 x hx

theorem supervisor_mode_after_sigreturn :
    ∃ s x, Reach (step sampleLayout false) always Fresh s ∧ s.task 0 = some x ∧ x.uc.cpsr = 0x13 ∧ ¬UserMode x := by
  obtain ⟨s, hr, hq⟩ : ∃ s, Reach (step sampleLayout false) always Fresh s ∧
      ((s.task 0).any fun x => x.uc.cpsr = 0x13) = true :=
    Reach.exists_of_any [.sigreturn 0 (some 0x100), .check 0 (some (frameWith 0x13 0)) true] _ freshProcess_fresh
      (meets_always _ _) (by decide)
  obtain ⟨x, hx, hq⟩ := Option.any_eq_true _ _ |>.mp hq
  have hcpsr : x.uc.cpsr = 0x13 := of_decide_eq_true hq
  refine ⟨s, x, hr, hx, hcpsr, ?_⟩
  rintro ⟨hm, -⟩
  rw [hcpsr] at hm
  exact absurd hm (by decide)

def Clean (m : Sigset) : Prop := m &&& sigcantmask = 0
  deriving Decidable

def Handler.isFunc : Handler → Bool
  | .func _ => true
  | _ => false

def Unhandled (beyond : Bool) (p : ProcSignalState) (t : ThreadSignalState) : Prop :=
  caught p t ≠ 0 → (p.handler (pickSignal (caught p t) - 1)).isFunc = false ∧
    (p.restorer = none → kills beyond (pickSignal (caught p t)) = true)
  deriving Decidable

def Filtered (beyond : Bool) (s : Process) : Event → Prop
  | .sigprocmask _ how set _ => how ≠ .unblock → ∀ x ∈ set, x.2 = false → Clean x.1
  | .sigsuspend _ mask => ∀ m ∈ mask, Clean m
  | .check i frame _ => ∀ x ∈ s.task i, (x.signal.sigreturnSigframe ≠ none → ∀ f ∈ frame, Clean f.sigmask) ∧
      ∀ y ∈ restoreFrame x.signal x.uc frame, Unhandled beyond s.signal y.1
  | _ => True

instance (set : Option (Sigset × Bool)) : Decidable (∀ x ∈ set, x.2 = false → Clean x.1) :=
  Option.decidableForallMem set

instance (mask : Option Sigset) : Decidable (∀ m ∈ mask, Clean m) := Option.decidableForallMem mask

instance (beyond : Bool) (s : Process) (e : Event) : Decidable (Filtered beyond s e) := by
  cases e <;> unfold Filtered <;> infer_instance

def Unblocked (x : Task) : Prop :=
  Clean x.signal.sigMask ∧ (x.signal.useSigsuspendMask = true → Clean x.signal.sigsuspendOldmask)

section

variable (h : Unblocked x)
include h

protected theorem Unblocked.maskBefore : Clean (maskBefore x.signal) := by
  unfold maskBefore
  split_ifs with hu
  · exact h.2 hu
  · exact h.1

theorem sigprocmask_unblocked {how : How} {set : Option (Sigset × Bool)}
    {oset : Option Bool} (hc : how ≠ .unblock → ∀ y ∈ set, y.2 = false → Clean y.1) :
    Unblocked (x.setSignal (sysSigprocmask x.signal how set oset).1) := by
  unfold sysSigprocmask
  split_ifs with ho
  · exact h
  rcases set with _ | ⟨m, _ | _⟩
  · exact h
  · cases how with
    | setmask => exact ⟨hc (by simp) (m, false) rfl rfl, h.2⟩
    | block => exact ⟨and_or_eq_zero h.1 (hc (by simp) (m, false) rfl rfl), h.2⟩
    | unblock => exact ⟨and_and_eq_zero h.1, h.2⟩
    | other => exact h
  · exact h

theorem restoreFrame_unblocked (hf : x.signal.sigreturnSigframe ≠ none → ∀ f ∈ frame, Clean f.sigmask)
    (hr : restoreFrame x.signal x.uc frame = some (t, uc)) (entry : BitVec 32) : Unblocked ⟨t, uc, entry⟩ := by
  unfold restoreFrame at hr
  split at hr
  · cases hr
    exact h
  next hs =>
    obtain ⟨f, hfr, he⟩ := Option.map_eq_some_iff.mp hr
    cases he
    exact ⟨hf (by simp [hs]) f hfr, h.2⟩

end

theorem Checked.unblocked (hc : Checked layout beyond p t uc (.done p' t' uc' w)) (hu : Unhandled beyond p t)
    {entry : BitVec 32} (h : Unblocked ⟨t, uc, entry⟩) : Unblocked ⟨t', uc', entry⟩ := by
  have hbefore : Clean (maskBefore t) := h.maskBefore
  have hdrop (taken : Sigset) : (dropSuspendMask { t with sigPending := taken }).useSigsuspendMask = false :=
    dropSuspendMask_use _
  cases hc with
  | quiet => exact h
  | none left taken =>
    refine ⟨?_, fun hc => ?_⟩
    · rw [dropSuspendMask_sigMask]
      exact hbefore
    · rw [hdrop] at hc
      exact Bool.noConfusion hc
  | acted left taken o hne ha =>
    obtain ⟨hfunc, hkill⟩ := hu hne
    cases ha with
    | unrestored hn hk =>
      rw [hkill hn] at hk
      exact Bool.noConfusion hk
    | default | ignored =>
      refine ⟨hbefore, fun hc => ?_⟩
      rw [show _ = false from hdrop taken] at hc
      exact Bool.noConfusion hc
    | handled pc restorer hh =>
      rw [show p.handler (pickSignal (caught p t) - 1) = .func pc from hh] at hfunc
      exact Bool.noConfusion hfunc

theorem unblocked_step (h : All Unblocked s) (hc : Filtered beyond s e)
    (hs : step layout beyond s e = some s') : All Unblocked s' := by
  refine h.step (fun y hy => ?_) hs
  cases hy with
  | user i uc x hx | sigreturn i frame x hx => exact h i x hx
  | sigprocmask i how set oset x hx => exact sigprocmask_unblocked (h i x hx) hc
  | sigsuspend i mask x hx =>
    cases mask with
    | none => exact h i x hx
    | some m => exact ⟨hc m rfl, fun _ => (h i x hx).1⟩
  | create i j uc x hx => exact ⟨(h i x hx).1, fun hc => Bool.noConfusion hc⟩
  | signalThread i signal code val x hx =>
    unfold doSignalThread
    split_ifs <;> exact h i x hx
  | check i frame copied x hx p t t₁ uc uc₁ w hr hck =>
    obtain ⟨hf, hu⟩ := hc x hx
    exact hck.unblocked (hu (t₁, uc₁) hr) (restoreFrame_unblocked (h i x hx) hf hr x.entry)

end

theorem unblocked_of_filtered (layout : FrameLayout) (beyond : Bool) (s : Process)
    (h : Reach (step layout beyond) (Filtered beyond) Fresh s) :
    ∀ i x, s.task i = some x → Clean x.signal.sigMask := by
  have hall : All Unblocked s := by
    apply Reach.invariant (P := All Unblocked) _ _ h
    · exact fun s hs => fresh_all hs fun uc _ => ⟨(by decide : Clean 0), fun hc => Bool.noConfusion hc⟩
    · exact fun s e s' hi hc hs => unblocked_step hi hc hs
  exact fun i x hx => (hall i x hx).1

theorem unblocked_in_new_thread :
    ∃ s x, Reach (step sampleLayout false) (Filtered false) Fresh s ∧ s.task 1 = some x ∧ x.signal.sigMask = 6 ∧
      Clean x.signal.sigMask := by
  obtain ⟨s, hr, hq⟩ : ∃ s, Reach (step sampleLayout false) (Filtered false) Fresh s ∧
      ((s.task 1).any fun x => x.signal.sigMask = 6) = true :=
    Reach.exists_of_any
      [.sigprocmask 0 .block (some (6, false)) none, .create 0 1 sampleContext, .check 1 none true] _
      freshProcess_fresh (by decide) (by decide)
  obtain ⟨x, hx, hq⟩ := Option.any_eq_true _ _ |>.mp hq
  refine ⟨s, x, hr, hx, of_decide_eq_true hq, ?_⟩
  exact unblocked_of_filtered sampleLayout false s hr 1 x hx

theorem sigsuspend_blocks_kill :
    ∃ s x, Reach (step sampleLayout false) always Fresh s ∧ s.task 0 = some x ∧ ¬Clean x.signal.sigMask := by
  obtain ⟨s, hr, hq⟩ : ∃ s, Reach (step sampleLayout false) always Fresh s ∧
      ((s.task 0).any fun x => !decide (Clean x.signal.sigMask)) = true :=
    Reach.exists_of_any [.sigsuspend 0 (some (sigbit sigkill))] _ freshProcess_fresh (meets_always _ _) (by decide)
  obtain ⟨x, hx, hq⟩ := Option.any_eq_true _ _ |>.mp hq
  exact ⟨s, x, hr, hx, by simpa using hq⟩

end CheviotKernel.Signals
