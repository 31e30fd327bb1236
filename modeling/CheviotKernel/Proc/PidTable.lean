import CheviotKernel.Proc.Lifecycle

namespace CheviotKernel.Procs

open Runs

structure PidTableOk (s : State) : Prop where
  procs : ∀ p, (s.proc p).state ≠ .free → (s.ids.pidTable (s.proc p).pid).proc = some p
  threads : ∀ t, (s.thread t).state ≠ .free → (s.ids.pidTable (s.thread t).tid).thread = some t
  nodup : s.ids.freePiddescList.Nodup
  empty : ∀ e ∈ s.ids.freePiddescList, s.ids.pidTable e = PidDesc.empty

def Bare (x : Ids) (e : PidT) : Prop := (x.pidTable e).proc = none ∧ (x.pidTable e).thread = none
  deriving Decidable

section

variable (cfg : Config) (s : State)

def PgrpBare (p : ProcId) : Prop :=
  getPgrp cfg s.ids (s.proc p).pgid = none ∨ Bare s.ids (s.proc p).pgid
  deriving Decidable

def SessionBare (p : ProcId) : Prop :=
  getSession cfg s.ids (s.proc p).sid = none ∨ Bare s.ids (s.proc p).sid
  deriving Decidable

def Leavable (p : ProcId) : Prop := PgrpBare cfg s p ∧ SessionBare cfg s p
  deriving Decidable

def ForkUndone (spaceOk stackOk : Bool) : Prop :=
  spaceOk = true ∧ s.freeProcessList ≠ [] ∧ s.ids.freePiddescList ≠ [] ∧
    (stackOk = false ∨ s.freeThreadList = [] ∨ s.ids.freePiddescList.tail = [])
  deriving Decidable

def SetsidLeaves (p : ProcId) : Prop :=
  (s.proc p).sid ≠ (s.proc p).pid ∧ (s.proc p).pgid ≠ (s.proc p).pid ∧ getSession cfg s.ids (s.proc p).sid ≠ none
  deriving Decidable

def PgidKept (cur : ProcId) (pid pgid : PidT) : Prop :=
  ∀ q ∈ lookupProcess cfg s cur pid, (s.proc cur).sid = (s.proc q).sid →
    ∀ i ∈ getPgrp cfg s.ids pgid, (s.ids.pgrp i).sid = (s.proc cur).sid → (s.proc q).pgid = pgid
  deriving Decidable

def Phase.target : Phase → Option ThreadId
  | .joining t => some t
  | _ => none

def JoinOwn (p : ProcId) (t : ThreadId) : Prop :=
  (s.thread t).detached = false ∧ (s.thread t).process = some p
  deriving Decidable

def LeaderGone : Action → Prop
  | .setsid c => ∀ p ∈ caller s c, SetsidLeaves cfg s p → Leavable cfg s p
  | .setpgrp c => ∀ p ∈ caller s c, (s.proc p).pgid ≠ (s.proc p).pid → PgrpBare cfg s p
  | .setpgid c pid pgid => ∀ p ∈ caller s c, PgidKept cfg s p pid pgid
  | .fork c spaceOk stackOk => ∀ p ∈ caller s c, ForkUndone s spaceOk stackOk → Leavable cfg s p
  | .exitFinish c => ∀ r ∈ sleeper s c, Leavable cfg s r.2
  | .joinFinish c => ∀ r ∈ sleeper s c, ∀ t ∈ r.1.target, JoinOwn s r.2 t
  | _ => True

end

section Decide

variable (cfg : Config) (s : State)

instance decidableLeaderGone : ∀ a, Decidable (LeaderGone cfg s a) := fun a => by
  unfold LeaderGone
  split <;> infer_instance

end Decide

section Recorded

variable {cfg : Config} {s t u : State} {own : PidT → Option Holder} {p q cur : ProcId} {spaceOk stackOk : Bool}

theorem Table.own_of_bare {x : Ids} {e : PidT} (h : Table True x own) (he : Bare x e) : own e = none := by
  cases hown : own e with
  | none => rfl
  | some a =>
    cases a with
    | proc p =>
      have hp := h.proc trivial e p hown
      simp [he.1] at hp
    | thread t =>
      have ht := h.thread trivial e t hown
      simp [he.2] at ht

section

variable (h : Inv cfg True s own)
include h

theorem Inv.leave (r : Roll)
    (hp : r.find cfg s.ids (r.idOf (s.proc p)) = none ∨ Bare s.ids (r.idOf (s.proc p))) :
    Inv cfg True (r.remove cfg s p) own := by
  refine h.remove r fun i hi => .inl (h.table.own_of_bare (hp.resolve_left ?_))
  simp [hi]

theorem SessionBare.leave (hs : SessionBare cfg s p) :
    SessionBare cfg (removeFromPgrp cfg s p) p := by
  rcases Roll.group.remove_cases cfg s p with ⟨-, hr⟩ | ⟨i, hi, hr⟩
  · rw [show removeFromPgrp cfg s p = s from hr]
    exact hs
  have hf := Roll.group.left_freed i p (h.table.notMem_of_entry _ (Roll.group.find_some hi).2)
  rw [show removeFromPgrp cfg s p = _ from hr, SessionBare, setProc_self]
  by_cases hg : (s.proc p).sid = (s.proc p).pgid
  · exact .inr (hg ▸ hf.bare)
  · have hsame := hf.other _ hg
    refine hs.imp (Roll.session.find_congr (congrArg _ hsame)).trans fun hb => ?_
    rw [Bare, ← hsame] at hb
    exact hb

theorem Inv.fini (hp : Leavable cfg s p) : Inv cfg True (finiSessionPgrp cfg s p) own :=
  (h.leave .group hp.1).leave .session (hp.2.leave h)

end

theorem Leavable.transfer (h : Leavable cfg s p) (hw : Within s.ids u.ids)
    (hpgid : (u.proc q).pgid = (s.proc p).pgid) (hsid : (u.proc q).sid = (s.proc p).sid) : Leavable cfg u q := by
  have hbare (r : Roll) (g : PidT) (hg : r.find cfg s.ids g = none ∨ Bare s.ids g) :
      r.find cfg u.ids g = none ∨ Bare u.ids g := by
    rcases hw g with hk | hk
    · rwa [r.find_congr (congrArg _ hk), Bare, hk]
    · refine .inl (r.find_of_none ?_)
      cases r
      · exact hk.1
      · exact hk.2
  unfold Leavable PgrpBare SessionBare at h ⊢
  rw [hpgid, hsid]
  exact ⟨hbare .group _ h.1, hbare .session _ h.2⟩

theorem Inv.sysFork (h : Inv cfg True s own) (hrun : s.panicked = false)
    (hcur : (s.proc cur).state ≠ .free) (hc : ForkUndone s spaceOk stackOk → Leavable cfg s cur) :
    ∃ own', Inv cfg True (sysFork cfg s cur spaceOk stackOk) own' := by
  unfold Procs.sysFork
  cases ha : allocProcess s cur with
  | mk u r =>
    cases r with
    | none => exact ⟨own, h.allocProcess_none ha⟩
    | some new =>
      obtain ⟨⟨own₁, hu⟩, hroot, hne, hstate, hthreads, hpan⟩ := h.allocProcess_some hcur ha
      have hrun' : u.panicked = false := hpan.trans hrun
      cases spaceOk with
      | false => exact hu.freeProcess hrun' (by simp [hstate]) hroot hthreads
      | true =>
        have hv := hu.forkSessionPgrp new cur
        have hnew : (Procs.forkSessionPgrp cfg u new cur).proc new =
            { u.proc new with sid := (u.proc cur).sid, pgid := (u.proc cur).pgid } := setProc_self u new _
        dsimp only
        rcases hv.forkThread_cases new stackOk hrun' with
          ⟨w, t, tid, own₂, hw, hinv, htaken, heq⟩ | ⟨w, own₂, hinv, hb, heq | ⟨hwrun, heq, hfail⟩⟩
        · rw [heq]
          refine ⟨own₂, hinv.initThread htaken true (.inr ?_)⟩
          rw [(allocThread_beside hv.table hw).proc, hnew]
          exact hstate
        · exact ⟨own₂, heq ▸ hinv⟩
        · have hundone : ForkUndone s true stackOk := by
            obtain ⟨hprocs, hpids, hfreeThreads, htail⟩ := allocProcess_lists ha
            have hlist := ((Roll.session.quiet_join cfg u.ids (u.proc cur).sid new).trans
              (Roll.group.quiet_join cfg _ (u.proc cur).pgid new)).list
            refine ⟨rfl, hprocs, hpids, hfail.imp id (Or.imp ?_ ?_)⟩
            · exact hfreeThreads.symm.trans
            · exact fun hnil => htail.symm.trans (hlist.symm.trans hnil)
          have hwithin : Within s.ids w.ids := by
            refine (allocProcess_frame ha).1.trans (Within.trans ?_ hb.within)
            exact fun k => .inl (congrFun (forkSessionPgrp_pidTable cfg u new cur) k)
          obtain ⟨hpgid, hsid⟩ := (allocProcess_frame ha).2 cur hne.symm
          have hleave : Leavable cfg w new := by
            refine (hc hundone).transfer hwithin ?_ ?_
            · rw [hb.proc, hnew]
              exact hpgid
            · rw [hb.proc, hnew]
              exact hsid
          rw [heq]
          refine Inv.forkCleanup (hinv.fini hleave) hwrun ?_ ?_ ?_
          · rw [hb.root]
            exact hroot
          · rw [hb.proc, hnew]
            exact hstate
          · rw [hb.proc, hnew]
            exact hthreads

theorem inv_step {a : Action} (h : Inv cfg True s own) (hc : LeaderGone cfg s a) (hs : step cfg s a = some t) :
    ∃ own', Inv cfg True t own' := by
  obtain ⟨hrun, hs⟩ := step_cases hs
  cases hs with
  | setsid hp =>
    obtain ⟨hi, hcp⟩ := caller_some hp
    exact h.sysSetsid (h.process_ne_free hi hcp) fun h₁ h₂ h₃ => ⟨own, h.fini (hc _ hp ⟨h₁, h₂, h₃⟩)⟩
  | setpgrp hp =>
    obtain ⟨hi, hcp⟩ := caller_some hp
    exact h.sysSetpgrp (h.process_ne_free hi hcp) fun hne => ⟨own, h.leave .group (hc _ hp hne)⟩
  | setpgid hp pid pgid => exact ⟨own, h.sysSetpgid _ pid pgid⟩
  | fork hp =>
    obtain ⟨hi, hcp⟩ := caller_some hp
    exact h.sysFork hrun (h.process_ne_free hi hcp) (hc _ hp)
  | threadCreate hp kernel =>
    obtain ⟨hi, hcp⟩ := caller_some hp
    refine h.doCreateThread hrun _ _ ?_
    cases kernel with
    | true => exact .inl rfl
    | false => exact h.process_alive hi hcp
  | exit hp =>
    obtain ⟨hi, hcp⟩ := caller_some hp
    exact ⟨own, h.sysExit hi hcp⟩
  | exitFinish hp =>
    obtain ⟨hi, hcp, -⟩ := sleeper_some hp
    obtain ⟨y, sid, pgid, hy⟩ := finiSessionPgrp_shape cfg s _
    have hfini : Inv cfg True (finiSessionPgrp cfg s _) own := h.fini (hc _ hp)
    exact hfini.exitRest (by rw [hy]; exact hi) (by rw [hy]; exact hcp)
  | threadExit hp =>
    obtain ⟨hi, hcp⟩ := caller_some hp
    exact ⟨own, h.doExitThread hi hcp⟩
  | join hp => exact ⟨own, h.sysThreadJoin⟩
  | joinFinish hp hu =>
    obtain ⟨hi, hcp, -⟩ := sleeper_some hp
    exact h.joinFinish hrun (h.process_ne_free hi hcp) hu (hc _ hp _ rfl).1
  | waitpid hp => exact h.sysWaitpid hrun
  | reaper ht =>
    exact h.threadReaper hrun ht

theorem pid_table_of_leaders_gone (h : Reach (step cfg) (LeaderGone cfg) (Booted cfg) s) : PidTableOk s := by
  obtain ⟨own, hinv⟩ := h.invariant (P := fun s => ∃ own, Inv cfg True s own) (fun _ hb => ⟨_, inv_booted True hb⟩)
    fun _ _ _ ⟨_, hi⟩ hc hs => inv_step hi hc hs
  constructor
  · exact fun p hp => hinv.table.proc trivial _ _ (hinv.procs p hp)
  · exact fun t ht => hinv.table.thread trivial _ _ (hinv.threads t ht)
  · exact hinv.table.nodup
  · exact hinv.table.empty

end Recorded

def smallConfig : Config := ⟨4, 4⟩

def reapRun : List Action :=
  [.fork 0 true true, .fork 0 true true, .setpgrp 2, .exit 1, .exitFinish 1, .reaper 1, .waitpid 0 (-1) false]

theorem pid_table_after_reap : ∃ s, Reach (step smallConfig) (LeaderGone smallConfig) (Booted smallConfig) s ∧
    (s.ids.pidTable 5).pgrp = some 0 ∧ 3 ∈ s.ids.freePiddescList ∧ PidTableOk s :=
  Reach.exists_of_run (Q := fun s => (s.ids.pidTable 5).pgrp = some 0 ∧ 3 ∈ s.ids.freePiddescList) reapRun
    ⟨by decide, by decide, rfl⟩ (by decide) (by decide) fun _ hr hq => ⟨hq.1, hq.2, pid_table_of_leaders_gone hr⟩

def leaderRun : List Action := [.fork 0 true true, .setpgrp 1, .exit 1, .exitFinish 1]

theorem leader_loses_pid : ∃ s, Reach (step smallConfig) always (Booted smallConfig) s ∧
    (s.proc 1).state = .exited ∧ (s.proc 1).pid = 3 ∧ 3 ∈ s.ids.freePiddescList ∧ ¬ PidTableOk s := by
  refine Reach.exists_of_run (Q := fun s => (s.proc 1).state = .exited ∧ (s.proc 1).pid = 3 ∧
      3 ∈ s.ids.freePiddescList ∧ (s.ids.pidTable 3).proc = none) leaderRun ⟨by decide, by decide, rfl⟩
    (meets_always _ _) (by decide) fun s _ ⟨hstate, hpid, hfree, hproc⟩ => ⟨hstate, hpid, hfree, fun hok => ?_⟩
  have hrec := hok.procs 1 (by simp [hstate])
  rw [hpid, hproc] at hrec
  cases hrec

end CheviotKernel.Procs
