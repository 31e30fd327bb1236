import CheviotKernel.Proc.ThreadExit

namespace CheviotKernel.Procs.Groups

open Runs

structure System where
  procs : State
  lastPgid : ProcId → PidT
  left : ProcId → Bool

-- The process whose pgid a step may write while the process is not running.
def offline (cfg : Config) (s : State) : Action → Option ProcId
  | .exitFinish c => (s.thread c).process
  | .setpgid c pid _ => (caller s c).bind fun p => (lookupProcess cfg s p pid).filter fun q => (s.proc q).state = .exited
  | _ => none

def joins (cfg : Config) (s : State) (a : Action) (s' : State) (p : ProcId) : Bool :=
  (s'.proc p).state ≠ .free ∧ offline cfg s a ≠ some p ∧
    ((s.proc p).state = .free ∨ (s'.proc p).pgid ≠ (s.proc p).pgid)

-- sys_exit takes the process out of the group that it finds.
def leaves (cfg : Config) (s : State) (p : ProcId) : Action → Bool
  | .exitFinish c => (s.thread c).process = some p ∧ (getPgrp cfg s.ids (s.proc p).pgid).isSome
  | _ => false

def step (cfg : Config) (x : System) (a : Action) : Option System :=
  (Procs.step cfg x.procs a).map fun s =>
    ⟨s, fun p => if joins cfg x.procs a s p then (s.proc p).pgid else x.lastPgid p,
      fun p => !joins cfg x.procs a s p && (x.left p || leaves cfg x.procs p a)⟩

def Started (cfg : Config) (x : System) : Prop :=
  Booted cfg x.procs ∧ ∀ p, x.lastPgid p = (x.procs.proc p).pgid ∧ x.left p = false

def NamesRunning (cfg : Config) (s : State) : Action → Prop
  | .setpgid c pid _ => ∀ p ∈ caller s c, ∀ q ∈ lookupProcess cfg s p pid, (s.proc q).state ≠ .exited
  | _ => True

def Proper (cfg : Config) (x : System) (a : Action) : Prop := Joined x.procs a ∧ NamesRunning cfg x.procs a

instance decidableNamesRunning (cfg : Config) (s : State) : ∀ a, Decidable (NamesRunning cfg s a)
  | .setsid .. | .setpgrp .. | .setpgid .. | .fork .. | .threadCreate .. | .exit .. | .exitFinish ..
    | .threadExit .. | .join .. | .joinFinish .. | .waitpid .. | .reaper .. => by dsimp only [NamesRunning]; infer_instance

instance decidableProper (cfg : Config) (x : System) (a : Action) : Decidable (Proper cfg x a) :=
  inferInstanceAs (Decidable (_ ∧ _))

def group (s : State) (cur : ProcId) (pid : PidT) : PidT := if pid = 0 then (s.proc cur).pgid else -pid

section

variable {cfg : Config} {s u : State} {x y : System} {cur p : ProcId} {c : ThreadId} {pid : PidT} {a : Action}

def Recorded (x : System) : Prop :=
  ∀ p, (x.procs.proc p).state ≠ .free → (x.left p = false → (x.procs.proc p).pgid = x.lastPgid p) ∧
    (x.left p = true → (x.procs.proc p).pgid = invalidPid)

theorem finiSessionPgrp_pgid (cfg : Config) (s : State) (p : ProcId) : ((finiSessionPgrp cfg s p).proc p).pgid =
    if (getPgrp cfg s.ids (s.proc p).pgid).isSome then invalidPid else (s.proc p).pgid := by
  obtain ⟨y, sid, hy⟩ := Roll.session.remove_shape cfg (removeFromPgrp cfg s p) p
  have hkept : ((finiSessionPgrp cfg s p).proc p).pgid = ((removeFromPgrp cfg s p).proc p).pgid := by
    rw [finiSessionPgrp, show removeFromSession cfg _ p = _ from hy, setProc_self]
    rfl
  rw [hkept]
  rcases Roll.group.remove_cases cfg s p with ⟨hnone, hr⟩ | ⟨i, hi, hr⟩
  · rw [show removeFromPgrp cfg s p = s from hr, show getPgrp cfg s.ids (s.proc p).pgid = none from hnone]
    rfl
  · rw [show removeFromPgrp cfg s p = _ from hr, show getPgrp cfg s.ids (s.proc p).pgid = some i from hi, setProc_self]
    rfl

theorem doExitThread_pgid (s : State) (c : ThreadId) (p : ProcId) : ((doExitThread s c p).proc p).pgid = (s.proc p).pgid := by
  rcases doExitThread_cases s c p with ⟨x, -, hx, hs⟩ | ⟨-, hs⟩
  · rw [hs, setProc_self]
    rcases hx with ⟨-, hx⟩ | ⟨-, hx⟩ <;> rw [hx]
  · rw [hs, setProc_self]

theorem exitFinish_pgid (h : Posted s) (hm : Manned s none) (hc : Alive s p c)
    (hrun : (exitFinish cfg s c p).panicked = false) : ((exitFinish cfg s c p).proc p).pgid =
      if (getPgrp cfg s.ids (s.proc p).pgid).isSome then invalidPid else (s.proc p).pgid := by
  have hk := kindred_finiSessionPgrp cfg s p
  unfold exitFinish State.andThen at hrun ⊢
  by_cases hstop : (detachChildProcesses cfg (finiSessionPgrp cfg s p) p).panicked = true
  · rw [if_pos hstop, hstop] at hrun
    cases hrun
  rw [if_neg hstop]
  have hdone := (detached_children (h.kindred hk) (hm.kindred hk) cfg p).resolve_left hstop
  have halive : ((finiSessionPgrp cfg s p).proc p).state ≠ .exited := by
    rw [hk.state, hm.alive_init h hc]
    nofun
  rw [doExitThread_pgid, (hdone.crew p halive).2.2, finiSessionPgrp_pgid]

theorem offline_of_proper (hq : NamesRunning cfg s a) (hp : offline cfg s a = some p) :
    ∃ c, a = .exitFinish c ∧ (s.thread c).process = some p := by
  cases a with
  | exitFinish c => exact ⟨c, rfl, hp⟩
  | setpgid c pid pgid =>
    obtain ⟨q, hcaller, hfilter⟩ := Option.bind_eq_some_iff.mp hp
    obtain ⟨hname, hstate⟩ := Option.filter_eq_some_iff.mp hfilter
    exact absurd (of_decide_eq_true hstate) (hq q hcaller p hname)
  | _ => cases hp

-- Only the last part of sys_exit writes the pgid of a process without putting it into the group.
theorem Recorded.step (hr : Recorded x) (h : Posted x.procs) (hm : Manned x.procs none) (hq : Proper cfg x a)
    (hs : step cfg x a = some y) (hrun : y.procs.panicked = false) : Recorded y := by
  obtain ⟨s, hstep, rfl⟩ := Option.map_eq_some_iff.mp hs
  intro p hp
  dsimp only at hp hrun ⊢
  by_cases hj : joins cfg x.procs a s p = true
  · simp [hj]
  by_cases hoff : offline cfg x.procs a = some p
  · obtain ⟨c, rfl, hprocess⟩ := offline_of_proper hq.2 hoff
    obtain ⟨-, hstep⟩ := step_cases hstep
    cases hstep with
    | exitFinish hsleep =>
      obtain ⟨hi, hcp, -⟩ := sleeper_some hsleep
      cases hcp.symm.trans hprocess
      have hpgid := exitFinish_pgid h hm ⟨hi, hcp⟩ hrun
      have hold := hr p (by rw [hm.alive_init h ⟨hi, hcp⟩]; nofun)
      by_cases hfound : (getPgrp cfg x.procs.ids (x.procs.proc p).pgid).isSome = true
      · simp [hj, leaves, hprocess, hfound, hpgid]
      · simpa [hj, leaves, hprocess, hfound, hpgid] using hold
  · have hsame : (x.procs.proc p).state ≠ .free ∧ (s.proc p).pgid = (x.procs.proc p).pgid := by
      simpa [joins, hp, hoff] using hj
    have hquits : leaves cfg x.procs p a = false := by
      cases a <;> simp_all [leaves, offline]
    simpa [hj, hquits, hsame.2] using hr p hsame.1

def started (cfg : Config) : System := ⟨boot cfg, fun p => ((boot cfg).proc p).pgid, fun _ => false⟩

end

end CheviotKernel.Procs.Groups
