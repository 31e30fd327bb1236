import CheviotKernel.Library.Runs
import CheviotKernel.Library.BitSets

namespace CheviotKernel.Signals

open Function

abbrev Addr := BitVec 32

abbrev Sigset := BitVec 32

abbrev Uid := ℕ

def nsig : ℕ := 32

def sigkill : ℕ := 9

def sigsegv : ℕ := 11

def sigstop : ℕ := 17

inductive Handler
  | dfl
  | ign
  | func (pc : Addr)
  deriving DecidableEq

inductive Errno
  | einval
  | efault
  | eintr
  | esrch
  | eperm
  deriving DecidableEq

structure ProcSignalState where
  handler : ℕ → Handler
  handlerMask : ℕ → Sigset
  restorer : Option Addr
  sigInfo : Sigset
  sigResethand : Sigset
  sigNodefer : Sigset
  sigPending : Sigset

structure ThreadSignalState where
  sigMask : Sigset
  sigPending : Sigset
  sigsuspendOldmask : Sigset
  useSigsuspendMask : Bool
  sigreturnSigframe : Option Addr
  siCode : ℕ → Int
  siValue : ℕ → Int

def sigbit (sig : ℕ) : Sigset := BitVec.twoPow 32 (sig - 1)

def sigcantmask : Sigset := sigbit sigkill ||| sigbit sigstop

def spKill (sig : ℕ) : Bool :=
  sig ∈ [1, 2, 3, 4, 5, 6, 7, 8, 9, 10, 11, 12, 13, 14, 15, 24, 25, 26, 27, 30, 31]

def initSignals : ProcSignalState := ⟨fun _ => .dfl, fun _ => 0, none, 0, 0, 0, 0⟩

def initThread (sigMask : Sigset) : ThreadSignalState := ⟨sigMask, 0, 0, false, none, fun _ => 0, fun _ => 0⟩

structure SaFlags where
  siginfo : Bool
  nodefer : Bool
  resethand : Bool
  restorer : Bool

structure Sigaction where
  handler : Handler
  saMask : Sigset
  saFlags : SaFlags
  saRestorer : Option Addr

section Calls

-- The bitmap of the other signals is lost here: the test assigns.
def queryAction (p : ProcSignalState) (signal : ℕ) (flags : SaFlags) (restorer : Option Addr) :
    ProcSignalState × Sigaction :=
  let sigInfo := p.sigInfo &&& sigbit signal
  ({ p with sigInfo := sigInfo },
    ⟨p.handler (signal - 1), p.handlerMask (signal - 1),
      { flags with siginfo := flags.siginfo || sigInfo ≠ 0 }, restorer⟩)

def installAction (p : ProcSignalState) (signal : ℕ) (act : Sigaction) : ProcSignalState where
  handler := update p.handler (signal - 1) act.handler
  handlerMask := update p.handlerMask (signal - 1) (act.saMask &&& ~~~sigcantmask)
  restorer := if act.saFlags.restorer then act.saRestorer else p.restorer
  sigInfo := if act.saFlags.siginfo then p.sigInfo ||| sigbit signal else p.sigInfo
  sigResethand := if act.saFlags.resethand then p.sigResethand ||| sigbit signal else p.sigResethand
  sigNodefer := if act.saFlags.nodefer then p.sigNodefer ||| sigbit signal else p.sigNodefer
  sigPending := p.sigPending

-- act is none for NULL and some none for a copyin that faults; oact is none for NULL and says whether the copyout
-- succeeds; flags and restorer are what the stack held where oact is built.
def sysSigaction (p : ProcSignalState) (signal : Int) (act : Option (Option Sigaction)) (oact : Option Bool)
    (flags : SaFlags) (restorer : Option Addr) : ProcSignalState × Except Errno (Option Sigaction) :=
  if signal ≤ 0 ∨ signal > nsig then (p, .error .einval)
  else if signal = sigkill ∨ signal = sigstop then (p, .error .einval)
  else
    let q := queryAction p signal.toNat flags restorer
    let p := if oact.isSome then q.1 else p
    if oact = some false then (p, .error .efault)
    else
      match act with
      | none => (p, .ok (oact.map fun _ => q.2))
      | some none => (p, .error .efault)
      | some (some act) => (installAction p signal.toNat act, .ok (oact.map fun _ => q.2))

inductive How
  | setmask
  | block
  | unblock
  | other
  deriving DecidableEq

-- set is none for NULL; else the word the copyin leaves behind and whether it succeeds.
def sysSigprocmask (t : ThreadSignalState) (how : How) (set : Option (Sigset × Bool)) (oset : Option Bool) :
    ThreadSignalState × Except Errno (Option Sigset) :=
  if oset = some false then (t, .error .efault)
  else
    let old := oset.map fun _ => t.sigMask
    match set with
    | none => (t, .ok old)
    | some (_, true) => (t, .error .efault)
    | some (set, false) =>
      match how with
      | .setmask => ({ t with sigMask := set }, .ok old)
      | .block => ({ t with sigMask := t.sigMask ||| set }, .ok old)
      | .unblock => ({ t with sigMask := t.sigMask &&& ~~~set }, .ok old)
      | .other => (t, .error .einval)

-- The thread then sleeps if nothing is caught, and returns -EINTR.
def sysSigsuspend (t : ThreadSignalState) (mask : Option Sigset) : ThreadSignalState × Errno :=
  match mask with
  | none => (t, .efault)
  | some mask => ({ t with sigsuspendOldmask := t.sigMask, useSigsuspendMask := true, sigMask := mask }, .eintr)

def sysSigreturn (t : ThreadSignalState) (frame : Option Addr) : ThreadSignalState :=
  { t with sigreturnSigframe := frame }

def doSignalThread (p : ProcSignalState) (t : ThreadSignalState) (signal : ℕ) (code val : Int) : ThreadSignalState :=
  if p.handler (signal - 1) ≠ .ign then
    { t with
      sigPending := t.sigPending ||| sigbit signal
      siCode := update t.siCode (signal - 1) code
      siValue := update t.siValue (signal - 1) val }
  else t

def takeSignal (signal : ℕ) (code val : Int) : List ThreadSignalState → Option (List ThreadSignalState)
  | [] => none
  | t :: ts =>
    if sigbit signal &&& ~~~t.sigMask ≠ 0 then
      some ({ t with
        sigPending := t.sigPending ||| sigbit signal
        siCode := update t.siCode (signal - 1) code
        siValue := update t.siValue (signal - 1) val } :: ts)
    else (takeSignal signal code val ts).map (t :: ·)

end Calls

structure Proc where
  uid : Uid
  signal : ProcSignalState
  threads : List ThreadSignalState

def doSignalProcess (p : Proc) (signal : ℕ) (code val : Int) : Proc :=
  if p.signal.handler (signal - 1) ≠ .ign then
    match takeSignal signal code val p.threads with
    | some ts => { p with signal := { p.signal with sigPending := p.signal.sigPending &&& ~~~sigbit signal }, threads := ts }
    | none => { p with signal := { p.signal with sigPending := p.signal.sigPending ||| sigbit signal } }
  else p

section Kill

abbrev ProcId := ℕ

structure Config where
  maxProcess : ℕ
  maxPid : ℕ
  siUser : Int

structure PidDesc where
  proc : Option ProcId
  pgrp : Option (List ProcId)

structure State where
  proc : ProcId → Proc
  pidTable : ℕ → PidDesc

variable (cfg : Config) (s : State)

def pidToPiddesc (pid : Int) : Option PidDesc :=
  if pid ≤ 0 ∨ pid ≥ cfg.maxPid then none else some (s.pidTable pid.toNat)

def getProcess (pid : Int) : Option ProcId := (pidToPiddesc cfg s pid).bind PidDesc.proc

def getPgrp (pgid : Int) : Option (List ProcId) := (pidToPiddesc cfg s pgid).bind PidDesc.pgrp

def signalTo (signal : ℕ) (code val : Int) (q : ProcId) : State :=
  { s with proc := update s.proc q (doSignalProcess (s.proc q) signal code val) }

def doKillProcess (cur : ProcId) (pid : Int) (signal : ℕ) (code val : Int) : State × Except Errno Unit :=
  match getProcess cfg s pid with
  | none => (s, .error .esrch)
  | some q =>
    if (s.proc q).uid ≠ 0 ∧ (s.proc q).uid ≠ (s.proc cur).uid then (s, .error .eperm)
    else (signalTo s signal code val q, .ok ())

def signalAll (signal : ℕ) (code val : Int) : List ProcId → State → State
  | [], s => s
  | q :: qs, s => signalAll signal code val qs (signalTo s signal code val q)

def doKillProcessGroup (pgid : Int) (signal : ℕ) (code val : Int) : State × Except Errno Unit :=
  if pgid < 0 ∨ pgid ≥ cfg.maxProcess then (s, .error .einval)
  else
    match getPgrp cfg s pgid with
    | none => (s, .error .einval)
    | some members => (signalAll signal code val members s, .ok ())

def sysKill (cur : ProcId) (pid signal : Int) : State × Except Errno Unit :=
  if signal ≤ 0 ∨ signal > nsig ∨ pid = 0 then (s, .error .einval)
  else if pid > 0 then doKillProcess cfg s cur pid signal.toNat cfg.siUser 0
  else doKillProcessGroup cfg s (-pid) signal.toNat cfg.siUser 0

end Kill

section Permission

variable {cfg : Config} {s s' : State} {cur q r : ProcId} {code val pgid : Int} {qs : List ProcId}
  {sig sig' signal : ℕ}

def Permitted (s : State) (cur q : ProcId) : Prop := (s.proc cur).uid = 0 ∨ (s.proc cur).uid = (s.proc q).uid

def Pending (p : Proc) (sig : ℕ) : Prop :=
  p.signal.sigPending &&& sigbit sig ≠ 0 ∨ ∃ t ∈ p.threads, t.sigPending &&& sigbit sig ≠ 0
  deriving Decidable

def Exists (cfg : Config) (s : State) (pid : Int) : Prop :=
  if pid > 0 then getProcess cfg s pid ≠ none else getPgrp cfg s (-pid) ≠ none

structure KillPermission (cfg : Config) (s : State) (cur : ProcId) (pid signal : Int) : Prop where
  pending : ∀ q sig, Pending ((sysKill cfg s cur pid signal).1.proc q) sig → ¬Pending (s.proc q) sig → Permitted s cur q
  superuser : (s.proc cur).uid = 0 → 0 < signal → signal ≤ nsig → pid ≠ 0 → Exists cfg s pid →
    (sysKill cfg s cur pid signal).2 = .ok ()

def News (p : Proc) (sig : ℕ) : Prop := p.signal.handler (sig - 1) ≠ .ign ∧ ¬Pending p sig

structure SameRank (cfg : Config) (s : State) (cur : ProcId) (pid signal : Int) : Prop where
  superuser : pid > 0 → (s.proc cur).uid = 0 → ∀ q ∈ getProcess cfg s pid, (s.proc q).uid = 0
  user : pid > 0 → (s.proc cur).uid ≠ 0 → ∀ q ∈ getProcess cfg s pid, News (s.proc q) signal.toNat → (s.proc q).uid ≠ 0
  high : pid < 0 → -pid ≥ cfg.maxProcess → getPgrp cfg s (-pid) ≠ none → (s.proc cur).uid ≠ 0
  low : pid < 0 → -pid < cfg.maxProcess → ∀ qs ∈ getPgrp cfg s (-pid), ∀ q ∈ qs,
    News (s.proc q) signal.toNat → Permitted s cur q

section Bits

variable {sig sig' : ℕ} {x b : Sigset}

theorem sigbit_ne_zero (h0 : 0 < sig) (h1 : sig ≤ nsig) : sigbit sig ≠ 0 := by
  intro h
  have hbit : (sigbit sig).getLsbD (sig - 1) = true := by
    have hlt : sig - 1 < 32 := Nat.lt_of_lt_of_le (Nat.sub_lt h0 Nat.one_pos) h1
    simp [sigbit, hlt]
  rw [h] at hbit
  simp at hbit

theorem sigbit_eq_of_overlap (h : sigbit sig &&& sigbit sig' ≠ 0) : sigbit sig = sigbit sig' := by
  by_contra hne
  refine h ?_
  have hidx : sig - 1 ≠ sig' - 1 := fun he => hne (congrArg (BitVec.twoPow 32) he)
  rw [sigbit, sigbit, BitVec.and_twoPow]
  simp [hidx]

theorem pending_or (h : (x ||| sigbit sig) &&& b ≠ 0) : x &&& b ≠ 0 ∨ sigbit sig &&& b ≠ 0 := by
  by_contra hn
  rw [not_or, not_not, not_not] at hn
  exact h (BitSets.and_or_eq_zero hn.1 hn.2)

theorem or_sigbit_and (x : Sigset) (sig : ℕ) : (x ||| sigbit sig) &&& sigbit sig = sigbit sig := by
  rw [BitVec.and_comm]
  refine BitSets.and_eq_left_iff.mpr fun i hi => ?_
  rw [BitVec.getLsbD_or, hi, Bool.or_true]

end Bits

section Delivered

variable {p : Proc} {sig sig' : ℕ} {code val : Int} {ts us : List ThreadSignalState}

theorem takeSignal_some (h : takeSignal sig code val ts = some us) :
    ∃ pre t t' post, ts = pre ++ t :: post ∧ us = pre ++ t' :: post ∧ t'.sigPending = t.sigPending ||| sigbit sig := by
  induction ts generalizing us with
  | nil => cases h
  | cons t ts ih =>
    rw [takeSignal] at h
    split_ifs at h with hm
    · cases h
      exact ⟨[], t, _, ts, rfl, rfl, rfl⟩
    · obtain ⟨vs, hvs, rfl⟩ := Option.map_eq_some_iff.mp h
      obtain ⟨pre, u, u', post, rfl, rfl, hp⟩ := ih hvs
      exact ⟨t :: pre, u, u', post, rfl, rfl, hp⟩

theorem takeSignal_pending (hb : sigbit sig ≠ 0)
    (h : takeSignal sig code val ts = some us) : ∃ t ∈ us, t.sigPending &&& sigbit sig ≠ 0 := by
  obtain ⟨pre, t, t', post, -, rfl, hp⟩ := takeSignal_some h
  refine ⟨t', by simp, ?_⟩
  rwa [hp, or_sigbit_and]

theorem takeSignal_grown (h : takeSignal sig code val ts = some us) {u : ThreadSignalState} (hu : u ∈ us) :
    ∃ t ∈ ts, u.sigPending = t.sigPending ∨ u.sigPending = t.sigPending ||| sigbit sig := by
  obtain ⟨pre, t, t', post, rfl, rfl, hp⟩ := takeSignal_some h
  rw [List.perm_middle.mem_iff, List.mem_cons] at hu
  rcases hu with rfl | hmem
  · exact ⟨t, by simp, .inr hp⟩
  · exact ⟨u, List.perm_middle.mem_iff.mpr (List.mem_cons_of_mem t hmem), .inl rfl⟩

@[simp] theorem doSignalProcess_handler : (doSignalProcess p sig code val).signal.handler = p.signal.handler := by
  unfold doSignalProcess
  split_ifs
  · split <;> rfl
  · rfl

theorem doSignalProcess_pending (hb : sigbit sig ≠ 0) (h : p.signal.handler (sig - 1) ≠ .ign) :
    Pending (doSignalProcess p sig code val) sig := by
  unfold doSignalProcess
  rw [if_pos h]
  split
  · rename_i ts hts
    exact .inr (takeSignal_pending hb hts)
  · refine .inl ?_
    rwa [or_sigbit_and]

theorem overlap_of_new (hnow : Pending (doSignalProcess p sig code val) sig') (hbefore : ¬Pending p sig') :
    sigbit sig &&& sigbit sig' ≠ 0 := by
  obtain ⟨hproc, hthread⟩ := not_or.mp hbefore
  unfold doSignalProcess at hnow
  split_ifs at hnow
  · split at hnow
    · rename_i ts hts
      rcases hnow with hp | ⟨u, hu, hp⟩
      · exact absurd (BitSets.and_and_eq_zero (not_not.mp hproc)) hp
      obtain ⟨t, ht, he | he⟩ := takeSignal_grown hts hu
      · exact absurd ⟨t, ht, he ▸ hp⟩ hthread
      · rw [he] at hp
        exact (pending_or hp).resolve_left fun hold => hthread ⟨t, ht, hold⟩
    · rcases hnow with hp | hp
      · exact (pending_or hp).resolve_left hproc
      · exact absurd hp hthread
  · exact absurd hnow hbefore

theorem news_of_new (hnow : Pending (doSignalProcess p sig code val) sig') (hbefore : ¬Pending p sig') : News p sig := by
  refine ⟨fun hign => hbefore ?_, fun hold => hbefore ?_⟩
  · rwa [doSignalProcess, if_neg (not_not.mpr hign)] at hnow
  · unfold Pending at hold ⊢
    rwa [← sigbit_eq_of_overlap (overlap_of_new hnow hbefore)]

end Delivered

theorem signalTo_proc_of_ne (s : State) (h : r ≠ q) : (signalTo s signal code val q).proc r = s.proc r := by
  simp [signalTo, h]

theorem signalAll_proc_of_notMem (h : r ∉ qs) : (signalAll signal code val qs s).proc r = s.proc r := by
  induction qs generalizing s with
  | nil => rfl
  | cons q qs ih =>
    rw [signalAll, ih (fun hr => h (List.mem_cons_of_mem _ hr))]
    exact signalTo_proc_of_ne s (fun e => h (e ▸ List.mem_cons_self))

theorem doKillProcess_of_some (hq : getProcess cfg s pid = some q) :
    doKillProcess cfg s cur pid signal code val =
      if (s.proc q).uid ≠ 0 ∧ (s.proc q).uid ≠ (s.proc cur).uid then (s, .error .eperm)
      else (signalTo s signal code val q, .ok ()) := by
  simp only [doKillProcess, hq]

theorem kill_process_changes (h : (doKillProcess cfg s cur pid signal code val).1.proc r ≠ s.proc r) :
    getProcess cfg s pid = some r ∧ ((s.proc r).uid = 0 ∨ (s.proc r).uid = (s.proc cur).uid) := by
  cases hq : getProcess cfg s pid with
  | none => simp [doKillProcess, hq] at h
  | some q =>
    rw [doKillProcess_of_some hq] at h
    split_ifs at h with hc
    · exact absurd rfl h
    have hr : r = q := by
      by_contra hne
      exact h (signalTo_proc_of_ne s hne)
    subst hr
    refine ⟨rfl, ?_⟩
    by_contra hn
    exact hc (not_or.mp hn)

theorem kill_group_changes (h : (doKillProcessGroup cfg s pgid signal code val).1.proc r ≠ s.proc r) :
    ∃ qs, getPgrp cfg s pgid = some qs ∧ r ∈ qs := by
  unfold doKillProcessGroup at h
  split_ifs at h with hb
  · exact absurd rfl h
  split at h
  · exact absurd rfl h
  next members hg =>
    refine ⟨members, hg, ?_⟩
    by_contra hn
    exact h (signalAll_proc_of_notMem hn)

theorem signalTo_proc_self (s : State) :
    (signalTo s signal code val q).proc q = doSignalProcess (s.proc q) signal code val := by
  simp [signalTo]

theorem signalTo_handler (s : State) :
    ((signalTo s signal code val q).proc r).signal.handler = (s.proc r).signal.handler := by
  by_cases hr : r = q
  · subst hr
    rw [signalTo_proc_self, doSignalProcess_handler]
  · rw [signalTo_proc_of_ne s hr]

theorem signalAll_pending (hb : sigbit sig ≠ 0) (hq : q ∈ qs)
    (h : (s.proc q).signal.handler (sig - 1) ≠ .ign) : Pending ((signalAll sig code val qs s).proc q) sig := by
  induction qs generalizing s with
  | nil => simp at hq
  | cons r qs ih =>
    rw [signalAll]
    by_cases hmem : q ∈ qs
    · refine ih hmem ?_
      rwa [signalTo_handler]
    · obtain rfl := (List.mem_cons.mp hq).resolve_right hmem
      rw [signalAll_proc_of_notMem hmem, signalTo_proc_self]
      exact doSignalProcess_pending hb h

theorem news_of_signalAll (hb : sigbit sig ≠ 0)
    (hnow : Pending ((signalAll sig code val qs s).proc q) sig') (hbefore : ¬Pending (s.proc q) sig') :
    News (s.proc q) sig := by
  induction qs generalizing s with
  | nil => exact absurd hnow hbefore
  | cons r qs ih =>
    by_cases hr : q = r
    · subst hr
      by_cases hmid : Pending ((signalTo s sig code val q).proc q) sig'
      · rw [signalTo_proc_self] at hmid
        exact news_of_new hmid hbefore
      -- A second signal to the same process is no news.
      obtain ⟨hh, hp⟩ := ih hnow hmid
      rw [signalTo_handler] at hh
      rw [signalTo_proc_self] at hp
      exact absurd (doSignalProcess_pending hb hh) hp
    · have hsame : (signalTo s sig code val r).proc q = s.proc q := signalTo_proc_of_ne s hr
      rw [← hsame] at hbefore ⊢
      exact ih hnow hbefore

variable {pid signal : Int} (hlo : 0 < signal) (hhi : signal ≤ nsig)
include hlo hhi

theorem sysKill_eq (hne : pid ≠ 0) :
    sysKill cfg s cur pid signal = if pid > 0 then doKillProcess cfg s cur pid signal.toNat cfg.siUser 0
      else doKillProcessGroup cfg s (-pid) signal.toNat cfg.siUser 0 :=
  if_neg (by omega)

theorem SameRank.pending (hr : SameRank cfg s cur pid signal)
    (hnow : Pending ((sysKill cfg s cur pid signal).1.proc q) sig) (hbefore : ¬Pending (s.proc q) sig) :
    Permitted s cur q := by
  have hb : sigbit signal.toNat ≠ 0 := sigbit_ne_zero (by omega) (by omega)
  have hchange : (sysKill cfg s cur pid signal).1.proc q ≠ s.proc q := fun he => hbefore (he ▸ hnow)
  by_cases hne : pid = 0
  · exact absurd (by simp [sysKill, hne]) hchange
  rw [sysKill_eq hlo hhi hne] at hnow hchange
  split_ifs at hnow hchange with hpos
  · obtain ⟨hq, hu⟩ := kill_process_changes hchange
    rcases hu with hu | hu
    · by_contra hn
      rw [doKillProcess_of_some hq, if_neg (fun hc => hc.1 hu), signalTo_proc_self] at hnow
      exact hr.user hpos (not_or.mp hn).1 q hq (news_of_new hnow hbefore) hu
    · exact .inr hu.symm
  · obtain ⟨qs, hqs, hmem⟩ := kill_group_changes hchange
    unfold doKillProcessGroup at hnow
    split_ifs at hnow with hbad
    · exact absurd hnow hbefore
    · simp only [hqs] at hnow
      exact hr.low (by omega) (by omega) qs hqs q hmem (news_of_signalAll hb hnow hbefore)

theorem SameRank.granted (hr : SameRank cfg s cur pid signal) (hu : (s.proc cur).uid = 0) (hne : pid ≠ 0) (hx : Exists cfg s pid) :
    (sysKill cfg s cur pid signal).2 = .ok () := by
  rw [sysKill_eq hlo hhi hne]
  unfold Exists at hx
  split_ifs at hx ⊢ with hpos
  · obtain ⟨q, hq⟩ := Option.ne_none_iff_exists'.mp hx
    rw [doKillProcess_of_some hq, if_neg]
    exact fun hc => hc.1 (hr.superuser hpos hu q hq)
  have hlt : -pid < cfg.maxProcess := by
    by_contra hge
    exact hr.high (by omega) (by omega) hx hu
  obtain ⟨qs, hqs⟩ := Option.ne_none_iff_exists'.mp hx
  rw [doKillProcessGroup, if_neg (by omega)]
  simp only [hqs]

theorem KillPermission.sameRank (h : KillPermission cfg s cur pid signal) :
    SameRank cfg s cur pid signal := by
  have hb : sigbit signal.toNat ≠ 0 := sigbit_ne_zero (by omega) (by omega)
  refine ⟨fun hpos hu q hq => ?_, fun hpos hu q hq hnews hz => ?_, fun hneg hge hx hu => ?_,
    fun hneg hlt qs hqs q hmem hnews => ?_⟩
  · have hx : Exists cfg s pid := by simp [Exists, hpos, Option.mem_def.mp hq]
    have hok := h.superuser hu hlo hhi (by omega) hx
    rw [sysKill_eq hlo hhi (by omega), doKillProcess_of_some hq] at hok
    split_ifs at hok with hc
    by_contra hz
    exact hc ⟨hz, by rwa [hu]⟩
  · have hnow : Pending ((sysKill cfg s cur pid signal).1.proc q) signal.toNat := by
      rw [sysKill_eq hlo hhi (by omega), if_pos hpos, doKillProcess_of_some hq, if_neg (fun hc => hc.1 hz),
        signalTo_proc_self]
      exact doSignalProcess_pending hb hnews.1
    rcases h.pending q _ hnow hnews.2 with hp | hp
    · exact hu hp
    · exact hu (hp.trans hz)
  · have hx' : Exists cfg s pid := by
      unfold Exists
      rw [if_neg (by omega)]
      exact hx
    have hok := h.superuser hu hlo hhi (by omega) hx'
    rw [sysKill_eq hlo hhi (by omega), if_neg (by omega), doKillProcessGroup, if_pos (.inr hge)] at hok
    simp at hok
  · have hnow : Pending ((sysKill cfg s cur pid signal).1.proc q) signal.toNat := by
      rw [sysKill_eq hlo hhi (by omega), if_neg (by omega), doKillProcessGroup, if_neg (by omega)]
      simp only [Option.mem_def.mp hqs]
      exact signalAll_pending hb hmem hnews.1
    exact h.pending q _ hnow hnews.2

end Permission

theorem kill_permission_iff_sameRank (cfg : Config) (s : State) (cur : ProcId) (pid signal : Int) :
    KillPermission cfg s cur pid signal ↔ (0 < signal → signal ≤ nsig → SameRank cfg s cur pid signal) := by
  constructor
  · exact fun h hlo hhi => h.sameRank hlo hhi
  intro h
  by_cases hvalid : 0 < signal ∧ signal ≤ nsig
  · obtain ⟨hlo, hhi⟩ := hvalid
    exact ⟨fun q sig => (h hlo hhi).pending hlo hhi, fun hu _ _ => (h hlo hhi).granted hlo hhi hu⟩
  · refine ⟨fun q sig hnow hbefore => ?_, fun _ hlo hhi => absurd ⟨hlo, hhi⟩ hvalid⟩
    rw [sysKill, if_pos (by omega)] at hnow
    exact absurd hnow hbefore

def userProc (uid : Uid) : Proc := ⟨uid, initSignals, [initThread 0]⟩

def twoUsers : State where
  proc := fun q => userProc (if q = 0 then 0 else 1000)
  pidTable := fun pid => ⟨some (pid - 1), none⟩

def smallConfig : Config := ⟨4, 8, 0⟩

theorem user_kills_superuser :
    ¬KillPermission smallConfig twoUsers 1 1 9 ∧ ¬KillPermission smallConfig twoUsers 0 2 9 := by
  constructor
  · intro h
    exact absurd (h.pending 0 9 (by decide) (by decide)) (by simp [Permitted, twoUsers, userProc])
  · intro h
    have hok := h.superuser rfl (by decide) (by decide) (by decide) (by simp [Exists, getProcess, pidToPiddesc, smallConfig, twoUsers])
    exact absurd hok (by simp [sysKill, doKillProcess, getProcess, pidToPiddesc, smallConfig, twoUsers, userProc, nsig])

end CheviotKernel.Signals
