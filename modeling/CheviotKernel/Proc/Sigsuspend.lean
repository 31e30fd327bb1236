import CheviotKernel.Proc.Delivery
import CheviotKernel.Proc.SleepWakeup

namespace CheviotKernel.Sigsuspend

open Function Runs BitSets Signals

abbrev ThreadId := Bkl.ThreadId

def intrfSignal : BitVec 32 := 1

structure Config where
  maxThread : ℕ
  rootProcess : ProcId
  rendez : ThreadId → Bkl.RendezId
  layout : FrameLayout
  beyond : Bool

structure State where
  bkl : Bkl.State
  process : ThreadId → ProcId
  threads : ProcId → List ThreadId
  proc : ProcId → ProcSignalState
  signal : ThreadId → ThreadSignalState
  suspended : ThreadId → Bool

section

variable (s : State)

def State.setProc (q : ProcId) (p : ProcSignalState) : State :=
  { s with proc := update s.proc q p }

def State.setSignal (t : ThreadId) (x : ThreadSignalState) : State :=
  { s with signal := update s.signal t x }

def unblocks (signal : ℕ) (t : ThreadId) : Bool := sigbit signal &&& ~~~(s.signal t).sigMask ≠ 0

def post (x : ThreadSignalState) (signal : ℕ) (code val : Int) : ThreadSignalState :=
  { x with
    sigPending := x.sigPending ||| sigbit signal
    siCode := update x.siCode (signal - 1) code
    siValue := update x.siValue (signal - 1) val }

def wakeSignalled (t : ThreadId) : State :=
  if (s.bkl.thread t).state = .rendezBlocked then { s with bkl := Bkl.taskWakeupSpecific s.bkl t intrfSignal } else s

-- The loop stops at the first thread that does not block the signal.
def doSignalProcess (q : ProcId) (signal : ℕ) (code val : Int) : State :=
  if (s.proc q).handler (signal - 1) ≠ .ign then
    let s := s.setProc q { s.proc q with sigPending := (s.proc q).sigPending ||| sigbit signal }
    match (s.threads q).find? (unblocks s signal) with
    | none => s
    | some t =>
      let s := s.setProc q { s.proc q with sigPending := (s.proc q).sigPending &&& ~~~sigbit signal }
      wakeSignalled (s.setSignal t (post (s.signal t) signal code val)) t
  else s

-- mask is none where the copyin faults. The sleep is TaskSleep, which leaves intr_flags at 0 and panics
-- in a thread that does not have the lock.
def sysSigsuspend (cfg : Config) (s : State) (t : ThreadId) (mask : Option Sigset) : Option State :=
  if mask = none then some s
  else
    let x := (Signals.sysSigsuspend (s.signal t) mask).1
    if x.sigPending &&& ~~~x.sigMask = 0 then
      (Bkl.step cfg.maxThread s.bkl (.sleep t (cfg.rendez t))).map fun k =>
        { s.setSignal t x with bkl := k, suspended := update s.suspended t (Bkl.Owns s.bkl t) }
    else some (s.setSignal t x)

def checked (cfg : Config) (p : ProcSignalState) (t : ThreadSignalState) (uc : UserContext) (frame : Option Sigframe)
    (copied : Bool) : ProcSignalState × ThreadSignalState :=
  match checkSignals cfg.layout cfg.beyond p t uc frame copied with
  | .done p t _ _ => (p, t)
  | .exit _ =>
    match restoreFrame t uc frame with
    | none => (p, { t with sigreturnSigframe := none })
    | some (t, _) =>
      let (p, t) := gatherPending p t
      let caught := t.sigPending &&& ~~~t.sigMask
      if caught &&& sigbit sigkill ≠ 0 then (p, t)
      else
        let t := dropSuspendMask t
        let sig := pickSignal caught
        (match p.restorer, p.handler (sig - 1) with
          | some _, .func _ => resetHandler p sig
          | _, _ => p,
         { t with sigPending := t.sigPending &&& ~~~sigbit sig, sigMask := t.sigMask ||| handlerAdds p sig })

def execSignals (p : ProcSignalState) : ProcSignalState :=
  { initSignals with handler := fun sig => if p.handler sig ≠ .ign then .dfl else .ign }

inductive Own
  | sigaction (signal : Int) (act : Option (Option Sigaction)) (oact : Option Bool) (flags : SaFlags)
      (restorer : Option Addr)
  | sigprocmask (how : How) (set : Option (Sigset × Bool)) (oset : Option Bool)
  | sigreturn (frame : Option Addr)
  | exception (signal : ℕ) (code val : Int)
  | exec
  | check (uc : UserContext) (frame : Option Sigframe) (copied : Bool)

def Own.run (cfg : Config) (p : ProcSignalState) (x : ThreadSignalState) : Own → ProcSignalState × ThreadSignalState
  | .sigaction signal act oact flags restorer => ((sysSigaction p signal act oact flags restorer).1, x)
  | .sigprocmask how set oset => (p, (sysSigprocmask x how set oset).1)
  | .sigreturn frame => (p, sysSigreturn x frame)
  | .exception signal code val => (p, doSignalThread p x signal code val)
  | .exec => (execSignals p, initThread 0)
  | .check uc frame copied => checked cfg p x uc frame copied

inductive Action
  | spawn (q : ProcId)
  | fork (parent q : ProcId)
  | create (t : ThreadId) (q : ProcId) (sigMask : Sigset)
  | exit (t : ThreadId) (detached : Bool)
  | join (t : ThreadId)
  | kernel (a : Bkl.Action)
  | signal (current : ThreadId) (q : ProcId) (signal : ℕ) (code val : Int)
  | sigsuspend (t : ThreadId) (mask : Option Sigset)
  | own (t : ThreadId) (a : Own)

def inKernel (t : ThreadId) : Bool := s.bkl.runs t .kernel && s.bkl.panicked = false

def leave (ts : List ThreadId) (t : ThreadId) (detached : Bool) : List ThreadId :=
  if detached ∨ ts.erase t = [] then ts.erase t else ts.erase t ++ [t]

def returned (suspended : ThreadId → Bool) : Bkl.Action → ThreadId → Bool
  | .sleepReturn t => update suspended t false
  | _ => suspended

def Own.enabled (t : ThreadId) : Own → Bool
  | .check _ _ _ => inKernel s t || s.bkl.runs t .irqExit
  | _ => inKernel s t

def step (cfg : Config) (s : State) : Action → Option State
  | .spawn q => if s.threads q = [] then some (s.setProc q initSignals) else none
  | .fork parent q =>
    if s.threads q = [] then some (s.setProc q { s.proc parent with sigPending := 0 }) else none
  | .create t q sigMask =>
    if t ∈ s.threads (s.process t) then none
    else
      (Bkl.step cfg.maxThread s.bkl (.start t)).map fun k =>
        { s with
          bkl := k
          process := update s.process t q
          threads := update s.threads q (s.threads q ++ [t])
          signal := update s.signal t (initThread sigMask) }
  | .exit t detached =>
    (Bkl.step cfg.maxThread s.bkl (.stop t)).map fun k =>
      let ts := leave (s.threads (s.process t)) t detached
      { s with
        bkl := k
        process := if t ∈ ts then s.process else update s.process t cfg.rootProcess
        threads := update s.threads (s.process t) ts }
  | .join t =>
    if (s.bkl.thread t).phase = .ended then
      some { s with threads := update s.threads (s.process t) ((s.threads (s.process t)).erase t) }
    else none
  | .kernel a =>
    match a with
    | .start _ => none
    | .stop _ => none
    | a => (Bkl.step cfg.maxThread s.bkl a).map fun k => { s with bkl := k, suspended := returned s.suspended a }
  | .signal current q signal code val => if inKernel s current then some (doSignalProcess s q signal code val) else none
  | .sigsuspend t mask => if inKernel s t then sysSigsuspend cfg s t mask else none
  | .own t a =>
    if a.enabled s t then
      let r := a.run cfg (s.proc (s.process t)) (s.signal t)
      some ((s.setProc (s.process t) r.1).setSignal t r.2)
    else none

def boot : State where
  bkl := Bkl.boot
  process := fun _ => 0
  threads := fun _ => []
  proc := fun _ => initSignals
  signal := fun _ => initThread 0
  suspended := fun _ => false

def Suspended (t : ThreadId) : Prop := s.suspended t = true ∧ (s.bkl.thread t).state = .rendezBlocked
  deriving Decidable

def deliverable (t : ThreadId) : Sigset :=
  ((s.signal t).sigPending ||| (s.proc (s.process t)).sigPending) &&& ~~~(s.signal t).sigMask

def Woken : Prop := ∀ t, Suspended s t → deliverable s t = 0

def Unheard : Action → Prop
  | .signal _ q signal _ _ =>
    (s.proc q).handler (signal - 1) ≠ .ign → ∀ t ∈ (s.threads q).find? (unblocks s signal), ¬Suspended s t
  | .sigsuspend t (some mask) =>
    Bkl.Owns s.bkl t → (s.signal t).sigPending &&& ~~~mask = 0 → (s.proc (s.process t)).sigPending &&& ~~~mask = 0
  | _ => True

instance (a : Action) : Decidable (Unheard s a) := by
  unfold Unheard
  split <;> infer_instance

end

structure Inv (s : State) : Prop where
  calm : ∀ t, Bkl.Calm (s.bkl.thread t)
  listed : ∀ t, (s.bkl.thread t).phase ≠ .ended → t ∈ s.threads (s.process t)
  asleep : ∀ t, s.suspended t = true → (s.bkl.thread t).phase = .asleep

section Step

variable {cfg : Config} {s s' : State} {t u : ThreadId} {q : ProcId} {sig n : ℕ} {code val : Int} {k b : Bkl.State}
  {layout : FrameLayout} {beyond copied detached : Bool} {p p' : ProcSignalState} {x x' : ThreadSignalState}
  {uc uc' : UserContext} {w : Option (Addr × Sigframe)} {a : Bkl.Action} {oldMask sigMask mask : Sigset}

theorem Suspended.of_roused (hr : Bkl.Roused (s.bkl.thread u) (k.thread u))
    (h : (k.thread u).state = .rendezBlocked) : (s.bkl.thread u).state = .rendezBlocked := by
  rcases hr.state with ⟨hs, -⟩ | hs
  · exact hs ▸ h
  · exact absurd h hs

theorem ready_of_inKernel (h : inKernel s t = true) : (s.bkl.thread t).state = .ready :=
  (Bkl.runs_iff.mp (Bool.and_eq_true_iff.mp h).1).2

theorem not_suspended_of_ready (h : (s.bkl.thread t).state = .ready) : ¬Suspended s t := by
  rintro ⟨-, hs⟩
  exact absurd (h.symm.trans hs) (by decide)

theorem wakeSignalled_eq (s : State) (t : ThreadId) :
    wakeSignalled s t = { s with bkl := Bkl.taskWakeupSpecific s.bkl t intrfSignal } := by
  unfold wakeSignalled
  split
  · rfl
  · rename_i hs
    rw [Bkl.taskWakeupSpecific, if_neg fun h => hs h.1]

theorem doSignalProcess_ignored (h : (s.proc q).handler (sig - 1) = .ign) : doSignalProcess s q sig code val = s :=
  if_neg (not_not.mpr h)

theorem doSignalProcess_kept (h : (s.proc q).handler (sig - 1) ≠ .ign) (hf : (s.threads q).find? (unblocks s sig) = none) :
    doSignalProcess s q sig code val =
      s.setProc q { s.proc q with sigPending := (s.proc q).sigPending ||| sigbit sig } := by
  have hf' (p : ProcSignalState) : ((s.setProc q p).threads q).find? (unblocks (s.setProc q p) sig) = none := hf
  simp only [doSignalProcess, if_pos h, hf']

theorem doSignalProcess_taken (h : (s.proc q).handler (sig - 1) ≠ .ign)
    (hf : (s.threads q).find? (unblocks s sig) = some t) :
    doSignalProcess s q sig code val =
      { (s.setProc q { s.proc q with sigPending := ((s.proc q).sigPending ||| sigbit sig) &&& ~~~sigbit sig }).setSignal t
          (post (s.signal t) sig code val) with bkl := Bkl.taskWakeupSpecific s.bkl t intrfSignal } := by
  have hf' (p : ProcSignalState) : ((s.setProc q p).threads q).find? (unblocks (s.setProc q p) sig) = some t := hf
  simp only [doSignalProcess, if_pos h, hf', wakeSignalled_eq]
  simp [State.setProc, State.setSignal]

theorem Woken.mono (h : Woken s) (hm : ∀ u, Suspended s' u → Suspended s u ∧ s'.signal u = s.signal u ∧
    Within (s'.proc (s'.process u)).sigPending (s.proc (s.process u)).sigPending) : Woken s' := by
  intro u hu
  obtain ⟨hs, hx, hp⟩ := hm u hu
  have hz := h u hs
  rw [deliverable, ← or_eq_left_iff.mpr hp, or_and_eq_zero_iff, or_and_eq_zero_iff] at hz
  rw [deliverable, hx]
  exact and_or_eq_zero hz.1 hz.2.2

theorem taken_within (a b : Sigset) : Within ((a ||| b) &&& ~~~b) a := by
  intro i
  simp only [BitVec.getLsbD_and, BitVec.getLsbD_or, Bool.and_eq_true, Bool.or_eq_true]
  rintro ⟨ha | hb, hn⟩
  · exact ha
  · simp [hb] at hn

theorem sysSigaction_sigPending (p : ProcSignalState) (signal : Int) (act : Option (Option Sigaction))
    (oact : Option Bool) (flags : SaFlags) (restorer : Option Addr) :
    (sysSigaction p signal act oact flags restorer).1.sigPending = p.sigPending := by
  have hq : (if oact.isSome then (queryAction p signal.toNat flags restorer).1 else p).sigPending = p.sigPending := by
    split <;> rfl
  simp only [sysSigaction]
  generalize (if oact.isSome then (queryAction p signal.toNat flags restorer).1 else p) = p₁ at hq ⊢
  split_ifs
  · rfl
  · rfl
  · exact hq
  · split <;> exact hq

theorem gatherPending_within (p : ProcSignalState) (x : ThreadSignalState) :
    Within (gatherPending p x).1.sigPending p.sigPending := by
  simp only [gatherPending]
  split
  · intro i hi
    simp only [BitVec.getLsbD_and, Bool.and_eq_true] at hi
    exact hi.1
  · exact Within.refl _

theorem resetHandler_sigPending (p : ProcSignalState) (sig : ℕ) : (resetHandler p sig).sigPending = p.sigPending := by
  unfold resetHandler
  split <;> rfl

theorem actOn_sigPending
    (h : actOn layout beyond p x uc oldMask sig copied = .done p' x' uc' w) : p'.sigPending = p.sigPending := by
  have ha := actOn_acted layout beyond p x uc oldMask sig copied
  rw [h] at ha
  cases ha with
  | unrestored | default => rfl
  | ignored | handled => exact resetHandler_sigPending p sig

theorem deliver_sigPending
    (h : deliver layout beyond p x uc copied = .done p' x' uc' w) : p'.sigPending = p.sigPending := by
  simp only [deliver] at h
  split_ifs at h
  · cases h
    rfl
  · cases h
    rfl
  · exact actOn_sigPending h

theorem checked_within (p : ProcSignalState) (x : ThreadSignalState) (uc : UserContext) (frame : Option Sigframe)
    (copied : Bool) : Within (checked cfg p x uc frame copied).1.sigPending p.sigPending := by
  unfold checked
  split
  · rename_i p' x' uc' w hc
    unfold checkSignals at hc
    split at hc
    · cases hc
    rename_i x₁ uc₁ _
    rw [deliver_sigPending hc]
    exact gatherPending_within p x₁
  · split
    · exact Within.refl _
    rename_i x₁ uc₁ _
    simp only
    split
    · exact gatherPending_within p x₁
    split
    · rw [resetHandler_sigPending]
      exact gatherPending_within p x₁
    · exact gatherPending_within p x₁

theorem sleep_asleep {r : Bkl.RendezId} (hs : Bkl.step n b (.sleep t r) = some k)
    (ho : Bkl.Owns b t) : (k.thread t).phase = .asleep ∧ (k.thread t).state = .rendezBlocked := by
  obtain ⟨-, rfl⟩ := guarded hs
  simp [Bkl.taskSleep, if_pos ho, Bkl.set_thread_self]

theorem stop_ended (hs : Bkl.step n b (.stop t) = some k) : (k.thread t).phase = .ended := by
  obtain ⟨-, rfl⟩ := guarded hs
  simp [Bkl.threadStop, Bkl.set_thread_self]

theorem start_ended (hs : Bkl.step n b (.start t) = some k) : (b.thread t).phase = .ended := by
  unfold Bkl.step at hs
  split_ifs at hs with hen
  have hp : (b.thread t).phase = .ended ∧ t < n := by simpa [Bkl.Enabled] using hen.2
  exact hp.1

structure Keeps (s s' : State) (c : Prop) : Prop where
  inv : Inv s'
  woken : Woken s → (Woken s' ↔ c)

theorem Own.run_within (a : Own) (p : ProcSignalState) (x : ThreadSignalState) :
    Within (a.run cfg p x).1.sigPending p.sigPending := by
  cases a with
  | sigaction signal act oact flags restorer =>
    rw [run, sysSigaction_sigPending]
    exact Within.refl _
  | exec => exact Within.zero _
  | check uc frame copied => exact checked_within p x uc frame copied
  | _ => exact Within.refl _

theorem Own.ready {a : Own} (h : a.enabled s t = true) : (s.bkl.thread t).state = .ready := by
  cases a with
  | check uc frame copied =>
    rcases Bool.or_eq_true_iff.mp h with hin | hin
    · exact ready_of_inKernel hin
    · exact (Bkl.runs_iff.mp hin).2
  | _ => exact ready_of_inKernel h

theorem mem_leave_of_ne {ts : List ThreadId} (h : u ∈ ts) (hne : u ≠ t) : u ∈ leave ts t detached := by
  have hm : u ∈ ts.erase t := (List.mem_erase_of_ne hne).mpr h
  unfold leave
  split
  · exact hm
  · exact List.mem_append_left _ hm

namespace Inv

variable (h : Inv s) (ht : (s.bkl.thread t).state = .ready)
include h

theorem roused (hr : ∀ u, Bkl.Roused (s.bkl.thread u) (k.thread u)) : Inv { s with bkl := k } := by
  refine ⟨fun u => (hr u).calm (h.calm u), fun u hu => ?_, fun u hu => ?_⟩
  · exact h.listed u ((hr u).phase ▸ hu)
  · exact (hr u).phase.trans (h.asleep u hu)

theorem doSignalProcess : Inv (doSignalProcess s q sig code val) := by
  by_cases hh : (s.proc q).handler (sig - 1) = .ign
  · rwa [doSignalProcess_ignored hh]
  cases hf : (s.threads q).find? (unblocks s sig) with
  | none =>
    rw [doSignalProcess_kept hh hf]
    exact ⟨h.calm, h.listed, h.asleep⟩
  | some t =>
    rw [doSignalProcess_taken hh hf]
    refine Inv.roused ⟨h.calm, h.listed, h.asleep⟩ ?_
    exact Bkl.roused_taskWakeupSpecific s.bkl t intrfSignal

theorem not_roused (hs : s.suspended t = true) : Bkl.taskWakeupSpecific s.bkl t intrfSignal = s.bkl := by
  have hf : (s.bkl.thread t).intrFlags = 0 :=
    (h.calm t).flags.resolve_left fun hp => absurd (hp.symm.trans (h.asleep t hs)) (by decide)
  rw [Bkl.taskWakeupSpecific, if_neg]
  rintro ⟨-, hr | hr⟩
  · simp [hf] at hr
  · exact absurd hr (by decide)

theorem woken_doSignalProcess (hw : Woken s) : Woken (Sigsuspend.doSignalProcess s q sig code val) ↔
    ((s.proc q).handler (sig - 1) ≠ .ign → ∀ t ∈ (s.threads q).find? (unblocks s sig), ¬Suspended s t) := by
  by_cases hh : (s.proc q).handler (sig - 1) = .ign
  · rw [doSignalProcess_ignored hh]
    exact iff_of_true hw fun hne => absurd hh hne
  cases hf : (s.threads q).find? (unblocks s sig) with
  | none =>
    rw [doSignalProcess_kept hh hf]
    refine iff_of_true ?_ fun _ t ht => absurd ht (by simp)
    intro u hu
    have hz := hw u hu
    by_cases hq : s.process u = q
    · -- every thread of the process blocks the signal
      have hmem : u ∈ s.threads q := hq ▸ h.listed u (by rw [h.asleep u hu.1]; decide)
      have hblock : unblocks s sig u = false := by simpa using List.find?_eq_none.mp hf u hmem
      have hbit : sigbit sig &&& ~~~(s.signal u).sigMask = 0 := by simpa [unblocks] using hblock
      have hd := and_or_eq_zero hz hbit
      rw [BitVec.or_assoc] at hd
      simpa [deliverable, State.setProc, hq] using hd
    · simpa [deliverable, State.setProc, hq] using hz
  | some t =>
    rw [doSignalProcess_taken hh hf]
    have hun : sigbit sig &&& ~~~(s.signal t).sigMask ≠ 0 := by simpa [unblocks] using List.find?_some hf
    constructor
    · intro hw' _ u hu hs
      obtain rfl : t = u := by simpa using hu
      have hz := hw' t ⟨hs.1, by simpa [h.not_roused hs.1] using hs.2⟩
      simp only [deliverable, State.setSignal, update_self, post, or_and_eq_zero_iff] at hz
      exact hun hz.1.2
    · intro hno
      refine hw.mono fun u hu => ?_
      have hs : Suspended s u := ⟨hu.1, Suspended.of_roused (Bkl.roused_taskWakeupSpecific s.bkl t intrfSignal u) hu.2⟩
      have hne : u ≠ t := by
        rintro rfl
        exact hno hh u rfl hs
      refine ⟨hs, by simp [State.setSignal, State.setProc, hne], ?_⟩
      by_cases hq : s.process u = q
      · simpa [State.setSignal, State.setProc, hq] using taken_within _ _
      · simpa [State.setSignal, State.setProc, hq] using Within.refl _

theorem keeps_setProc (hp : p.sigPending = 0) : Keeps s (s.setProc q p) True := by
  refine ⟨⟨h.calm, h.listed, h.asleep⟩, fun hw => iff_of_true (hw.mono fun u hu => ?_) trivial⟩
  refine ⟨hu, rfl, ?_⟩
  by_cases hq : s.process u = q
  · simpa [State.setProc, hq, hp] using Within.zero _
  · simpa [State.setProc, hq] using Within.refl _

theorem keeps_moved (hs : Bkl.step cfg.maxThread s.bkl a = some s'.bkl)
    (hlisted : ∀ u, (s'.bkl.thread u).phase ≠ .ended → u ∈ s'.threads (s'.process u))
    (hold : ∀ u, s'.suspended u = true → s.suspended u = true ∧ a ≠ .sleepReturn u)
    (hsame : ∀ u, (s.bkl.thread u).phase = .asleep → (s'.bkl.thread u).phase = .asleep →
      s'.signal u = s.signal u ∧ s'.proc (s'.process u) = s.proc (s.process u)) : Keeps s s' True := by
  have hmoved (u : ThreadId) := Bkl.step_moved a hs (h.calm u)
  have hroused (u : ThreadId) (hu : s'.suspended u = true) :
      (s.bkl.thread u).phase = .asleep ∧ Bkl.Roused (s.bkl.thread u) (s'.bkl.thread u) := by
    obtain ⟨hsus, hne⟩ := hold u hu
    exact ⟨h.asleep u hsus, (hmoved u).uninterruptible (h.asleep u hsus) hne⟩
  have hasleep (u : ThreadId) (hu : s'.suspended u = true) : (s'.bkl.thread u).phase = .asleep := by
    obtain ⟨hp, hr⟩ := hroused u hu
    exact hr.phase.trans hp
  refine ⟨⟨fun u => (hmoved u).calm (h.calm u), hlisted, hasleep⟩, fun hw => iff_of_true ?_ trivial⟩
  refine hw.mono fun u hu => ?_
  obtain ⟨hp, hr⟩ := hroused u hu.1
  obtain ⟨hx, hproc⟩ := hsame u hp (hasleep u hu.1)
  refine ⟨⟨(hold u hu.1).1, Suspended.of_roused hr hu.2⟩, hx, ?_⟩
  rw [hproc]
  exact Within.refl _

theorem listed_before (hs : Bkl.step cfg.maxThread s.bkl a = some k)
    (ha : a ≠ .start u) (hu : (k.thread u).phase ≠ .ended) : u ∈ s.threads (s.process u) :=
  h.listed u fun hp => hu ((Bkl.step_moved a hs (h.calm u)).ended hp ha)

theorem keeps_kernel (ha : ∀ t, a ≠ .start t) (hs : Bkl.step cfg.maxThread s.bkl a = some k) :
    Keeps s { s with bkl := k, suspended := returned s.suspended a } True := by
  refine h.keeps_moved hs (fun u hu => h.listed_before hs (ha u) hu) (fun u hu => ?_) fun _ _ _ => ⟨rfl, rfl⟩
  cases a with
  | sleepReturn t =>
    by_cases hut : u = t
    · subst hut
      simp [returned] at hu
    · simp only [returned, update_of_ne hut] at hu
      exact ⟨hu, fun he => hut (Bkl.Action.sleepReturn.inj he).symm⟩
  | _ => exact ⟨hu, by simp⟩

theorem keeps_create (hs : Bkl.step cfg.maxThread s.bkl (.start t) = some k) :
    Keeps s { s with
      bkl := k
      process := update s.process t q
      threads := update s.threads q (s.threads q ++ [t])
      signal := update s.signal t (initThread sigMask) } True := by
  refine h.keeps_moved hs (fun u hu => ?_) (fun u hu => ⟨hu, by simp⟩) fun u hp _ => ?_
  · by_cases hut : u = t
    · subst hut
      simp
    have hmem := h.listed_before hs (by simpa using Ne.symm hut) hu
    by_cases hq : s.process u = q
    · subst hq
      simp [hut, hmem]
    · simp [hut, hq, hmem]
  · have hne : u ≠ t := by
      rintro rfl
      exact absurd ((start_ended hs).symm.trans hp) (by decide)
    simp [hne]

theorem keeps_exit (hs : Bkl.step cfg.maxThread s.bkl (.stop t) = some k) :
    Keeps s { s with
      bkl := k
      process :=
        if t ∈ leave (s.threads (s.process t)) t detached then s.process
        else update s.process t cfg.rootProcess
      threads := update s.threads (s.process t) (leave (s.threads (s.process t)) t detached) } True := by
  have hprocess (u : ThreadId) (hu : (k.thread u).phase ≠ .ended) : u ≠ t ∧
      (if t ∈ leave (s.threads (s.process t)) t detached then s.process
        else update s.process t cfg.rootProcess) u = s.process u := by
    have hne : u ≠ t := by
      rintro rfl
      exact hu (stop_ended hs)
    refine ⟨hne, ?_⟩
    split
    · rfl
    · rw [update_of_ne hne]
  refine h.keeps_moved hs (fun u hu => ?_) (fun u hu => ⟨hu, by simp⟩) fun u _ hp => ⟨rfl, ?_⟩
  · obtain ⟨hne, hsame⟩ := hprocess u hu
    have hmem := h.listed_before hs (by simp) hu
    simp only [hsame]
    by_cases hq : s.process u = s.process t
    · simp only [hq, update_self]
      exact mem_leave_of_ne (hq ▸ hmem) hne
    · simpa only [update_of_ne hq] using hmem
  · have hu : (k.thread u).phase ≠ .ended := fun he => absurd (he.symm.trans hp) (by decide)
    exact congrArg s.proc (hprocess u hu).2

theorem keeps_join (ht : (s.bkl.thread t).phase = .ended) :
    Keeps s { s with threads := update s.threads (s.process t) ((s.threads (s.process t)).erase t) } True := by
  refine ⟨⟨h.calm, fun u hu => ?_, h.asleep⟩, fun hw => iff_of_true hw trivial⟩
  have hne : u ≠ t := by
    rintro rfl
    exact hu ht
  have hmem := h.listed u hu
  by_cases hq : s.process u = s.process t
  · simp only [hq, update_self]
    exact (List.mem_erase_of_ne hne).mpr (hq ▸ hmem)
  · simpa [hq] using hmem

include ht

theorem keeps_own (hp : Within p.sigPending (s.proc (s.process t)).sigPending) :
    Keeps s ((s.setProc (s.process t) p).setSignal t x) True := by
  refine ⟨⟨h.calm, h.listed, h.asleep⟩, fun hw => iff_of_true (hw.mono fun u hu => ?_) trivial⟩
  have hne : u ≠ t := by
    rintro rfl
    exact not_suspended_of_ready ht hu
  refine ⟨hu, by simp [State.setSignal, State.setProc, hne], ?_⟩
  by_cases hq : s.process u = s.process t
  · simpa [State.setSignal, State.setProc, hq] using hp
  · simpa [State.setSignal, State.setProc, hq] using Within.refl _

theorem keeps_sleep (hc : (s.signal t).sigPending &&& ~~~mask = 0)
    (hs : Bkl.step cfg.maxThread s.bkl (.sleep t (cfg.rendez t)) = some k) :
    Keeps s { s.setSignal t (Signals.sysSigsuspend (s.signal t) (some mask)).1 with
      bkl := k, suspended := update s.suspended t (Bkl.Owns s.bkl t) }
      (Bkl.Owns s.bkl t → (s.proc (s.process t)).sigPending &&& ~~~mask = 0) := by
  have hmoved (u : ThreadId) := Bkl.step_moved _ hs (h.calm u)
  have hroused (u : ThreadId) (hu : s.suspended u = true) : Bkl.Roused (s.bkl.thread u) (k.thread u) :=
    (hmoved u).uninterruptible (h.asleep u hu) (by simp)
  refine ⟨⟨fun u => (hmoved u).calm (h.calm u), fun u hu => ?_, fun u hu => ?_⟩, fun hw => ?_⟩
  · exact h.listed u fun hp => hu ((hmoved u).ended hp (by simp))
  · by_cases hne : u = t
    · subst hne
      exact (sleep_asleep hs (by simpa using hu)).1
    · have hu' : s.suspended u = true := by simpa [hne] using hu
      exact (hroused u hu').phase.trans (h.asleep u hu')
  · constructor
    · intro hw' ho
      have hz := hw' t ⟨by simpa using ho, (sleep_asleep hs ho).2⟩
      simp only [deliverable, State.setSignal, update_self, Signals.sysSigsuspend] at hz
      rwa [or_and_eq_right hc] at hz
    · intro hno u hu
      by_cases hne : u = t
      · subst hne
        have ho : Bkl.Owns s.bkl u := by simpa using hu.1
        simp only [deliverable, State.setSignal, update_self]
        exact and_or_eq_zero hc (hno ho)
      · have hu' : s.suspended u = true := by simpa [hne] using hu.1
        have hz := hw u ⟨hu', Suspended.of_roused (hroused u hu') hu.2⟩
        simpa [deliverable, State.setSignal, hne] using hz

theorem keeps_sigsuspend {mask : Option Sigset}
    (hs : sysSigsuspend cfg s t mask = some s') : Keeps s s' (Unheard s (.sigsuspend t mask)) := by
  cases mask with
  | none =>
    obtain rfl : s = s' := by simpa [sysSigsuspend] using hs
    exact ⟨h, fun hw => iff_of_true hw trivial⟩
  | some mask =>
    simp only [sysSigsuspend, if_neg (Option.some_ne_none mask)] at hs
    split at hs
    · rename_i hc
      obtain ⟨k, hk, rfl⟩ := Option.map_eq_some_iff.mp hs
      have hkeep := h.keeps_sleep ht hc hk
      refine ⟨hkeep.inv, fun hw => (hkeep.woken hw).trans ?_⟩
      exact ⟨fun hp ho _ => hp ho, fun hp ho => hp ho hc⟩
    · rename_i hc
      cases hs
      refine ⟨⟨h.calm, h.listed, h.asleep⟩, fun hw => iff_of_true ?_ fun _ hp => absurd hp hc⟩
      refine hw.mono fun u hu => ⟨hu, ?_, Within.refl _⟩
      have hne : u ≠ t := by
        rintro rfl
        exact not_suspended_of_ready ht hu
      simp [State.setSignal, hne]

omit ht

protected theorem step {a : Action} (hs : step cfg s a = some s') : Keeps s s' (Unheard s a) := by
  cases a with
  | spawn q | fork parent q =>
    obtain ⟨-, rfl⟩ := guarded hs
    exact h.keeps_setProc rfl
  | create t q sigMask =>
    simp only [step] at hs
    split_ifs at hs
    obtain ⟨k, hk, rfl⟩ := Option.map_eq_some_iff.mp hs
    exact h.keeps_create hk
  | exit t detached =>
    obtain ⟨k, hk, rfl⟩ := Option.map_eq_some_iff.mp hs
    exact h.keeps_exit hk
  | join t =>
    obtain ⟨ht, rfl⟩ := guarded hs
    exact h.keeps_join ht
  | kernel a =>
    simp only [step] at hs
    split at hs
    · cases hs
    · cases hs
    · rename_i hstart _
      obtain ⟨k, hk, rfl⟩ := Option.map_eq_some_iff.mp hs
      exact h.keeps_kernel hstart hk
  | signal current q signal code val =>
    obtain ⟨-, rfl⟩ := guarded hs
    exact ⟨h.doSignalProcess, h.woken_doSignalProcess⟩
  | sigsuspend t mask =>
    simp only [step] at hs
    split_ifs at hs with hin
    exact h.keeps_sigsuspend (ready_of_inKernel hin) hs
  | own t a =>
    obtain ⟨hin, rfl⟩ := guarded hs
    exact h.keeps_own (Own.ready hin) (a.run_within _ _)

end Inv

end Step

theorem boot_inv : Inv boot :=
  ⟨Bkl.boot_calm, by simp [boot, Bkl.boot], by simp [boot]⟩

theorem boot_woken : Woken boot := by
  rintro t ⟨ht, -⟩
  simp [boot] at ht

theorem sleepers_woken_iff_unheard (cfg : Config) (as : List Action) (s : State) (h : exec (step cfg) boot as = some s) :
    Throughout (step cfg) Woken boot as ↔ Meets (step cfg) Unheard boot as :=
  throughout_iff_meets (fun _ _ _ hi hs => (hi.step hs).inv) (fun _ _ _ hi hw hs => (hi.step hs).woken hw) boot_inv
    boot_woken h

def oneRendez : Config := ⟨2, 0, id, sampleLayout, false⟩

def blockedSignal : List Action :=
  [.create 0 1 0, .create 1 2 0, .kernel (.lock 0), .sigsuspend 0 (some (sigbit 2)), .kernel (.lock 1), .signal 1 1 2 0 0]

theorem blocked_signal_leaves_sleeper_woken :
    ∃ s, exec (step oneRendez) boot blockedSignal = some s ∧ Throughout (step oneRendez) Woken boot blockedSignal := by
  obtain ⟨s, hs⟩ : ∃ s, exec (step oneRendez) boot blockedSignal = some s := ⟨_, rfl⟩
  exact ⟨s, hs, (sleepers_woken_iff_unheard oneRendez blockedSignal s hs).mpr (by decide)⟩

theorem signal_leaves_sleeper_blocked :
    ∃ s, Reach (step oneRendez) always (· = boot) s ∧ Suspended s 0 ∧ deliverable s 0 = sigbit 2 ∧ ¬Woken s := by
  refine Reach.exists_of_run (Q := fun s => Suspended s 0 ∧ deliverable s 0 = sigbit 2)
    [.create 0 1 0, .create 1 2 0, .kernel (.lock 0), .sigsuspend 0 (some 0), .kernel (.lock 1), .signal 1 1 2 0 0]
    rfl (meets_always _ _) (by decide) fun s _ hq => ⟨hq.1, hq.2, fun hw => ?_⟩
  have hz := hw 0 hq.1
  rw [hq.2] at hz
  exact absurd hz (by decide)

end CheviotKernel.Sigsuspend
