import CheviotKernel.Proc.Signal

namespace CheviotKernel.Signals

def sighup : ℕ := 1

def sigcont : ℕ := 19

structure Session where
  sid : Int
  foregroundPgrp : Int

-- file is what filp_get finds: no filp, no vnode, or a vnode and whether it is a character device.
structure Caller where
  proc : ProcId
  pid : Int
  file : Option (Option Bool)
  session : Option Session

section Calls

variable (cfg : Config) (s : State)

def killed (cur : ProcId) (pid signal : Int) : List ProcId :=
  if signal ≤ 0 ∨ signal > nsig ∨ pid = 0 then []
  else if pid > 0 then
    (getProcess cfg s pid).toList.filter fun q => (s.proc q).uid = 0 ∨ (s.proc q).uid = (s.proc cur).uid
  else if -pid ≥ cfg.maxProcess then [] else (getPgrp cfg s (-pid)).getD []

def hangUp (cur : ProcId) (fg : Int) : State :=
  (sysKill cfg (sysKill cfg s cur (-fg) sigcont).1 cur (-fg) sighup).1

def hungUp (cur : ProcId) (fg : Int) : List ProcId :=
  killed cfg s cur (-fg) sigcont ++ killed cfg (sysKill cfg s cur (-fg) sigcont).1 cur (-fg) sighup

def ioctlTiocnotty (c : Caller) : State × List ProcId :=
  match c.file, c.session with
  | some (some true), some session =>
    if c.pid = session.sid then (hangUp cfg s c.proc session.foregroundPgrp, hungUp cfg s c.proc session.foregroundPgrp)
    else (s, [])
  | _, _ => (s, [])

end Calls

section Targets

variable {cfg : Config} {s u : State} {cur q : ProcId} {pid signal fg : Int}

theorem signalAll_uid (sig : ℕ) (code val : Int) (qs : List ProcId) (s : State) :
    (signalAll sig code val qs s).pidTable = s.pidTable ∧
      ∀ r, ((signalAll sig code val qs s).proc r).uid = (s.proc r).uid := by
  induction qs generalizing s with
  | nil => exact ⟨rfl, fun _ => rfl⟩
  | cons q qs ih =>
    refine ⟨(ih _).1, fun r => ((ih _).2 r).trans ?_⟩
    by_cases hr : r = q
    · subst hr
      rw [signalTo_proc_self]
      unfold doSignalProcess
      split_ifs
      · split <;> rfl
      · rfl
    · rw [signalTo_proc_of_ne s hr]

theorem sysKill_killed (cfg : Config) (s : State) (cur : ProcId) (pid signal : Int) :
    (sysKill cfg s cur pid signal).1 = signalAll signal.toNat cfg.siUser 0 (killed cfg s cur pid signal) s := by
  unfold sysKill killed
  split_ifs with hbad hpos hmax
  · rfl
  · cases hq : getProcess cfg s pid with
    | none => simp [doKillProcess, hq, signalAll]
    | some q =>
      rw [doKillProcess_of_some hq]
      by_cases hu : (s.proc q).uid = 0 ∨ (s.proc q).uid = (s.proc cur).uid
      · rw [if_neg (by tauto)]
        simp [hu, signalAll]
      · rw [if_pos (not_or.mp hu)]
        simp [hu, signalAll]
  · rw [doKillProcessGroup, if_pos (.inr hmax), signalAll]
  · rw [doKillProcessGroup, if_neg (by omega)]
    cases getPgrp cfg s (-pid) <;> simp [signalAll]

theorem killed_congr (ht : u.pidTable = s.pidTable) (hu : ∀ r, (u.proc r).uid = (s.proc r).uid) :
    killed cfg u cur pid signal = killed cfg s cur pid signal := by
  simp only [killed, getProcess, getPgrp, pidToPiddesc, ht, hu]

theorem hangUp_signals (cfg : Config) (s : State) (cur : ProcId) (fg : Int) :
    hungUp cfg s cur fg = killed cfg s cur (-fg) sigcont ++ killed cfg s cur (-fg) sighup ∧
      hangUp cfg s cur fg = signalAll sighup cfg.siUser 0 (killed cfg s cur (-fg) sighup)
        (signalAll sigcont cfg.siUser 0 (killed cfg s cur (-fg) sigcont) s) := by
  obtain ⟨ht, hu⟩ := signalAll_uid sigcont cfg.siUser 0 (killed cfg s cur (-fg) sigcont) s
  have hk : killed cfg _ cur (-fg) sighup = _ := killed_congr ht hu
  rw [hungUp, hangUp, sysKill_killed cfg _ cur (-fg) sighup, sysKill_killed]
  exact ⟨congrArg _ hk, congrArg (signalAll _ _ _ · _) hk⟩

theorem mem_killed (h0 : 0 < signal) (h1 : signal ≤ nsig) : q ∈ killed cfg s cur (-fg) signal ↔
    (fg < 0 ∧ getProcess cfg s (-fg) = some q ∧ ((s.proc q).uid = 0 ∨ (s.proc q).uid = (s.proc cur).uid)) ∨
      0 < fg ∧ fg < cfg.maxProcess ∧ ∃ members, getPgrp cfg s fg = some members ∧ q ∈ members := by
  unfold killed
  rcases Int.lt_trichotomy fg 0 with hn | rfl | hp
  · rw [if_neg (by omega)]
    simp [hn, Int.not_lt.mpr (Int.le_of_lt hn)]
  · simp
  · rw [if_neg (by omega), if_neg (by omega), Int.neg_neg]
    simp only [hp, Int.not_lt.mpr (Int.le_of_lt hp)]
    split_ifs with hm
    · simp [Int.not_lt.mpr hm]
    · cases getPgrp cfg s fg <;> simp [Int.not_le.mp hm]

theorem ioctlTiocnotty_spares (c : Caller) (h : q ∉ (ioctlTiocnotty cfg s c).2) :
    (ioctlTiocnotty cfg s c).1.proc q = s.proc q := by
  unfold ioctlTiocnotty at h ⊢
  split at h
  · split_ifs at h ⊢
    · rw [(hangUp_signals _ _ _ _).1, List.mem_append, not_or] at h
      rw [(hangUp_signals _ _ _ _).2, signalAll_proc_of_notMem h.2, signalAll_proc_of_notMem h.1]
    · rfl
  · rfl

end Targets

def Caller.Leads (c : Caller) (x : Session) : Prop :=
  c.file = some (some true) ∧ c.session = some x ∧ c.pid = x.sid

theorem mem_ioctlTiocnotty {cfg : Config} {s : State} {c : Caller} {q : ProcId} :
    q ∈ (ioctlTiocnotty cfg s c).2 ↔ ∃ x, c.Leads x ∧ q ∈ killed cfg s c.proc (-x.foregroundPgrp) sighup := by
  have hk : ∀ fg, q ∈ hungUp cfg s c.proc fg ↔ q ∈ killed cfg s c.proc (-fg) sighup := by
    intro fg
    rw [(hangUp_signals _ _ _ _).1, List.mem_append, mem_killed (by decide) (by decide),
      mem_killed (by decide) (by decide), or_self_iff]
  unfold ioctlTiocnotty Caller.Leads
  split
  · rename_i x hf hx
    split_ifs with hp <;> simp [hf, hx, hp, hk]
  · rename_i h
    simp only [List.not_mem_nil, false_iff, not_exists]
    exact fun x hx => h x hx.1.1 hx.1.2.1

-- pgrpSid gives the session of a process group.
theorem hang_up_reaches_foreground_iff (cfg : Config) (s : State) (pgrpSid : Int → Int) (c : Caller) :
    (∀ q ∈ (ioctlTiocnotty cfg s c).2, ∃ x members, c.session = some x ∧
        getPgrp cfg s x.foregroundPgrp = some members ∧ pgrpSid x.foregroundPgrp = x.sid ∧ q ∈ members) ↔
      ∀ x, c.Leads x →
        (x.foregroundPgrp < 0 → ∀ q, getProcess cfg s (-x.foregroundPgrp) = some q →
          (s.proc q).uid ≠ 0 ∧ (s.proc q).uid ≠ (s.proc c.proc).uid) ∧
        (0 < x.foregroundPgrp → x.foregroundPgrp < cfg.maxProcess →
          ∀ members, getPgrp cfg s x.foregroundPgrp = some members → members ≠ [] →
            pgrpSid x.foregroundPgrp = x.sid) := by
  constructor
  · intro h x hx
    have hin := fun q hq => h q (mem_ioctlTiocnotty.mpr ⟨x, hx, hq⟩)
    refine ⟨fun hn q hq => not_or.mp fun hu => ?_, fun hp hlt members hm hne => ?_⟩
    · obtain ⟨y, members, hy, hm, -⟩ := hin q ((mem_killed (by decide) (by decide)).mpr (.inl ⟨hn, hq, hu⟩))
      obtain rfl := Option.some.inj (hx.2.1.symm.trans hy)
      simp [getPgrp, pidToPiddesc, Int.le_of_lt hn] at hm
    · obtain ⟨q, hq⟩ := List.exists_mem_of_ne_nil _ hne
      obtain ⟨y, ms, hy, -, hsid, -⟩ :=
        hin q ((mem_killed (by decide) (by decide)).mpr (.inr ⟨hp, hlt, members, hm, hq⟩))
      obtain rfl := Option.some.inj (hx.2.1.symm.trans hy)
      exact hsid
  · intro h q hq
    obtain ⟨x, hx, hk⟩ := mem_ioctlTiocnotty.mp hq
    rcases (mem_killed (by decide) (by decide)).mp hk with ⟨hn, hp, hu⟩ | ⟨hp, hlt, members, hm, hmem⟩
    · exact absurd hu (not_or.mpr ((h x hx).1 hn q hp))
    · exact ⟨x, members, hx.2.1, hm, (h x hx).2 hp hlt members hm (List.ne_nil_of_mem hmem), hmem⟩

theorem hang_up_without_foreground_reaches_init :
    let p : Proc := ⟨0, initSignals, [initThread 0]⟩
    let s : State := ⟨fun _ => p, fun _ => ⟨some 3, none⟩⟩
    let out := ioctlTiocnotty ⟨8, 16, 0⟩ s ⟨5, 6, some (some true), some ⟨6, -1⟩⟩
    out.2 = [3, 3] ∧ getPgrp ⟨8, 16, 0⟩ s (-1) = none ∧
      (out.1.proc 3).threads.map ThreadSignalState.sigPending = [sigbit sigcont ||| sigbit sighup] := by
  decide

end CheviotKernel.Signals
