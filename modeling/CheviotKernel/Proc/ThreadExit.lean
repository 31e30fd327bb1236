import CheviotKernel.Proc.PidTable
import CheviotKernel.Proc.Crew

namespace CheviotKernel.Procs

open Runs

structure ExitsWithThreads (s : State) : Prop where
  exits : ∀ p, (s.proc p).state ≠ .free → (∀ t, ¬ Alive s p t) → (s.proc p).state = .exited
  ended : ∀ p, (s.proc p).state = .exited → ∀ t, ¬ Alive s p t

def LeavesNone (s : State) (c : ThreadId) (p : ProcId) : Prop :=
  (s.proc p).threadList.erase c = [] ∨ ∃ t ∈ (s.proc p).threadList, t ≠ c ∧ Alive s p t
  deriving Decidable

def Joined (s : State) : Action → Prop
  | .threadExit c => ∀ p ∈ caller s c, LeavesNone s c p
  | .exit c => ∀ p ∈ caller s c, (s.proc p).exitInProgress = true → LeavesNone s c p
  | .exitFinish c => ∀ r ∈ sleeper s c, LeavesNone s c r.2
  | .joinFinish c => ∀ r ∈ sleeper s c, ∀ t ∈ r.1.target, JoinOwn s r.2 t
  | .threadCreate _ kernel _ _ => kernel = true → (s.proc s.rootProcess).state = .init
  | _ => True

section Decide

variable (s : State)

instance decidableJoined : ∀ a, Decidable (Joined s a)
  | .setsid .. | .setpgrp .. | .setpgid .. | .fork .. | .threadCreate .. | .exit .. | .exitFinish ..
    | .threadExit .. | .join .. | .joinFinish .. | .waitpid .. | .reaper .. => by dsimp only [Joined]; infer_instance

end Decide

section Manned

variable {cfg : Config} {s u : State} {p new child parent : ProcId} {t c : ThreadId} {bare bare' : Option ProcId}
  {x : Process} {r l : List ThreadId} {tid pid : PidT} {stackOk fault detached spaceOk : Bool} {y : Ids}

structure Manned (s : State) (bare : Option ProcId) : Prop where
  manned : ∀ p, bare ≠ some p → (s.proc p).state = .init → ∃ t, Alive s p t
  rootEnded : (s.proc s.rootProcess).state ≠ .init → (s.proc s.rootProcess).threadList = []
  freeThreads : ∀ t ∈ s.freeThreadList, (s.thread t).state = .free
  threadsNodup : s.freeThreadList.Nodup
  reaped : ∀ t ∈ s.threadReaperDetachedThreadList, (s.thread t).state = .exited ∧ (s.thread t).detached = true
  reapedNodup : s.threadReaperDetachedThreadList.Nodup

def Crewed (s : State) : Prop := s.panicked = true ∨ Posted s ∧ Manned s none

theorem dead_of_free (ht : (s.thread t).state = .free) : (s.thread t).state ≠ .init := by
  rw [ht]
  nofun

structure Fresh (s u : State) (t : ThreadId) : Prop where
  state : (u.thread t).state = .free
  list : t ∉ u.freeThreadList
  reaped : t ∉ u.threadReaperDetachedThreadList
  proc : u.proc = s.proc
  root : u.rootProcess = s.rootProcess
  panicked : u.panicked = s.panicked

theorem Manned.alive_init (h : Posted s) (hm : Manned s bare) (hc : Alive s p c) : (s.proc p).state = .init := by
  by_cases hroot : p = s.rootProcess
  · subst hroot
    by_contra hs
    have hmem := h.member c _ hc
    rw [hm.rootEnded hs] at hmem
    cases hmem
  · exact h.alive_init hc hroot

def SameCrew (s u : State) : Prop :=
  ∀ q, (s.proc q).state ≠ .exited → (u.proc q).state = (s.proc q).state ∧
    (u.proc q).threadList = (s.proc q).threadList ∧ (u.proc q).pgid = (s.proc q).pgid

theorem SameCrew.setChildren (h : SameCrew s u) (q : ProcId) (parent : Option ProcId) (children : List ProcId) :
    SameCrew s (u.setProc q { u.proc q with parent := parent, childList := children }) := by
  exact setProc_cases (fun w z => (s.proc w).state ≠ .exited →
    z.state = (s.proc w).state ∧ z.threadList = (s.proc w).threadList ∧ z.pgid = (s.proc w).pgid) (h q) fun w _ => h w

theorem SameCrew.freeProcess (h : SameCrew s u) (hrun : u.panicked = false) (hp : (s.proc p).state = .exited) :
    SameCrew s (freeProcess cfg u p) := by
  have hfree {w : State} (hw : SameCrew s w) (y : Ids) (l : List ProcId) :
      SameCrew s ({ w with ids := y, freeProcessList := l }.setProc p Process.zero) := by
    intro q hq
    have hqp : q ≠ p := by
      rintro rfl
      exact hq hp
    rw [setProc_other hqp]
    exact hw q hq
  rcases freeProcess_cases cfg p hrun with hf | ⟨w, hf, ⟨-, rfl⟩ | ⟨q, -, rfl⟩⟩
  · rw [hf]
    exact h
  · rw [hf]
    exact hfree h _ _
  · rw [hf]
    exact hfree (h.setChildren q (u.proc q).parent _) _ _

protected theorem SameCrew.detachChild (hrun : s.panicked = false) : SameCrew s (detachChild cfg p s child) := by
  have hlist : SameCrew s (s.setProc p { s.proc p with childList := (s.proc p).childList.erase child }) :=
    SameCrew.setChildren (fun _ _ => ⟨rfl, rfl, rfl⟩) p (s.proc p).parent _
  unfold detachChild
  dsimp only
  split_ifs with hs
  · refine hlist.freeProcess hrun ?_
    by_contra hc
    exact hc ((hlist child hc).1.symm.trans hs)
  · exact (hlist.setChildren _ (State.proc _ _).parent _).setChildren child _ (State.proc _ child).childList

structure Detached (s u : State) : Prop where
  posted : Posted u
  manned : Manned u none
  crew : SameCrew s u
  thread : u.thread = s.thread

theorem Allocated.manned (h : Allocated s u parent new) (hm : Manned s none) : Manned u (some new) := by
  have hcrew (q : ProcId) (hq : q ≠ new) : (u.proc q).state = (s.proc q).state ∧
      (u.proc q).threadList = (s.proc q).threadList := by
    by_cases hqp : q = parent
    · rw [hqp, h.listed]
      exact ⟨rfl, rfl⟩
    · rw [h.other q hq hqp]
      exact ⟨rfl, rfl⟩
  refine ⟨?_, ?_, ?_, ?_, ?_, ?_⟩
  · intro q hb hq
    rw [(hcrew q fun hc => hb (congrArg some hc.symm)).1] at hq
    obtain ⟨t, ht⟩ := hm.manned q nofun hq
    exact ⟨t, by rwa [Alive, h.thread]⟩
  · obtain ⟨hstate, hlist⟩ := hcrew s.rootProcess h.ne_root.symm
    rw [h.root, hstate, hlist]
    exact hm.rootEnded
  · rw [h.freeThreads, h.thread]
    exact hm.freeThreads
  · rw [h.freeThreads]
    exact hm.threadsNodup
  · rw [h.reaped, h.thread]
    exact hm.reaped
  · rw [h.reaped]
    exact hm.reapedNodup

theorem boot_manned (cfg : Config) : Manned (boot cfg) none := by
  refine ⟨?_, ?_, ?_, List.nodup_range', nofun, List.nodup_nil⟩
  · intro p _ hp
    by_cases hp0 : p = 0
    · subst hp0
      exact ⟨0, rfl, rfl⟩
    · simp [boot, hp0, Process.zero] at hp
  · simp [boot]
  · intro t ht
    have ht0 : t ≠ 0 := Nat.ne_of_gt (List.mem_range'_1.mp ht).1
    simp [boot, ht0, Thread.zero]

namespace Manned

variable (h : Manned s bare)
include h

theorem kindred (k : Kindred s u) : Manned u bare := by
  refine ⟨?_, ?_, ?_, ?_, ?_, ?_⟩
  · intro p hb hp
    rw [k.state] at hp
    obtain ⟨t, ht⟩ := h.manned p hb hp
    exact ⟨t, by rwa [Alive, k.thread]⟩
  · rw [k.root, k.state, k.threadList]
    exact h.rootEnded
  · rw [k.freeThreads, k.thread]
    exact h.freeThreads
  · rw [k.freeThreads]
    exact h.threadsNodup
  · rw [k.reaped, k.thread]
    exact h.reaped
  · rw [k.reaped]
    exact h.reapedNodup

theorem changeProc {l : List ProcId} (hbare : ∀ q, q ≠ p → bare' ≠ some q → bare ≠ some q)
    (hmanned : bare' ≠ some p → x.state = .init → ∃ t, Alive s p t)
    (hroot : p = s.rootProcess → x.state ≠ .init → x.threadList = []) :
    Manned ({ s with ids := y, freeProcessList := l }.setProc p x) bare' := by
  refine { h with manned := ?_, rootEnded := ?_ }
  · exact setProc_cases (fun q z => bare' ≠ some q → z.state = .init → ∃ t, Alive s q t) hmanned
      fun q hqp hb hq => h.manned q (hbare q hqp hb) hq
  · exact setProc_cases (fun q z => q = s.rootProcess → z.state ≠ .init → z.threadList = []) hroot
      (fun _ _ hr => hr ▸ h.rootEnded) s.rootProcess rfl

theorem changeThread {x : Thread}
    (hbare : ∀ q, bare' ≠ some q → bare ≠ some q) (ht : ∀ q, bare' ≠ some q → ¬ Alive s q t)
    (hl : ∀ u ∈ l, u = t ∧ x.state = .free ∨ u ≠ t ∧ u ∈ s.freeThreadList) (hnodup : l.Nodup)
    (hr : ∀ u ∈ r, u = t ∧ x.state = .exited ∧ x.detached = true ∨ u ≠ t ∧ u ∈ s.threadReaperDetachedThreadList)
    (hreap : r.Nodup) :
    Manned ({ s with ids := y, freeThreadList := l, threadReaperDetachedThreadList := r }.setThread t x) bare' := by
  refine ⟨?_, h.rootEnded, ?_, hnodup, ?_, hreap⟩
  · intro p hb hp
    obtain ⟨w, hw⟩ := h.manned p (hbare p hb) hp
    have hwt : w ≠ t := by
      rintro rfl
      exact ht p hb hw
    exact ⟨w, by rwa [Alive, setThread_other hwt]⟩
  · intro u hu
    rcases hl u hu with ⟨rfl, hx⟩ | ⟨hut, hu⟩
    · rw [setThread_self]
      exact hx
    · rw [setThread_other hut]
      exact h.freeThreads u hu
  · intro u hu
    rcases hr u hu with ⟨rfl, hx⟩ | ⟨hut, hu⟩
    · rw [setThread_self]
      exact hx
    · rw [setThread_other hut]
      exact h.reaped u hu

theorem flags {f : ThreadId → Thread} (hstate : ∀ t, (f t).state = (s.thread t).state)
    (hproc : ∀ t, (f t).process = (s.thread t).process)
    (hdetached : ∀ t, (s.thread t).detached = true → (f t).detached = true) : Manned { s with thread := f } bare := by
  refine ⟨?_, h.rootEnded, ?_, h.threadsNodup, ?_, h.reapedNodup⟩
  · intro p hb hp
    obtain ⟨t, ht⟩ := h.manned p hb hp
    exact ⟨t, (hstate t).trans ht.1, (hproc t).trans ht.2⟩
  · exact fun t ht => (hstate t).trans (h.freeThreads t ht)
  · exact fun t ht => ⟨(hstate t).trans (h.reaped t ht).1, hdetached t (h.reaped t ht).2⟩

theorem setChildren (q : ProcId) (parent : Option ProcId) (children : List ProcId) :
    Manned (s.setProc q { s.proc q with parent := parent, childList := children }) bare := by
  refine h.changeProc (fun _ _ hb => hb) (fun hb hq => h.manned q hb hq) ?_
  rintro rfl
  exact h.rootEnded

theorem freeProcess (hrun : s.panicked = false) (hroot : p ≠ s.rootProcess)
    (hbare : ∀ q, q ≠ p → bare ≠ some q) :
    (freeProcess cfg s p).panicked = true ∨ Manned (freeProcess cfg s p) none := by
  have hfree {w : State} (hw : Manned w bare) (hr : p ≠ w.rootProcess) (y : Ids) (l : List ProcId) :
      Manned ({ w with ids := y, freeProcessList := l }.setProc p Process.zero) none :=
    hw.changeProc (fun q hq _ => hbare q hq) nofun fun hc => absurd hc hr
  rcases freeProcess_cases cfg p hrun with hf | ⟨u, hf, ⟨-, rfl⟩ | ⟨q, -, rfl⟩⟩
  · rw [hf]
    exact .inl rfl
  · rw [hf]
    exact .inr (hfree h hroot _ _)
  · rw [hf]
    exact .inr (hfree (h.setChildren q (s.proc q).parent _) hroot _ _)

theorem not_free (ht : (s.thread t).state ≠ .free) : t ∉ s.freeThreadList :=
  fun hmem => ht (h.freeThreads t hmem)

theorem not_reaped (ht : (s.thread t).state ≠ .exited) : t ∉ s.threadReaperDetachedThreadList :=
  fun hmem => ht (h.reaped t hmem).1

theorem abandonThread (hrun : s.panicked = false)
    (ht : (s.thread t).state ≠ .init) (hlist : t ∉ s.freeThreadList) (hreap : t ∉ s.threadReaperDetachedThreadList) :
    (abandonThread cfg s t tid).panicked = true ∨ Manned (abandonThread cfg s t tid) bare := by
  rcases freeThread_cases cfg t tid hrun with hf | hf
  · rw [hf]
    exact .inl rfl
  rw [hf]
  have hnodup := nodup_concat h.threadsNodup hlist
  refine .inr (h.changeThread (fun _ hb => hb) (fun _ _ ha => ht ha.1) ?_ hnodup ?_ h.reapedNodup)
  · exact mem_or (fun _ => rfl) fun w hw hwt => by simpa [hwt] using hw
  · exact mem_other hreap

theorem allocThread_none (hu : allocThread s = (u, none)) : Manned u bare := by
  rcases Procs.allocThread_none hu with rfl | ⟨t, rest, hl, rfl⟩
  · exact h
  have hfree := h.freeThreads t (by simp [hl])
  have hreap := h.not_reaped (t := t) (by simp [hfree])
  refine h.changeThread (fun _ hb => hb) (fun _ _ ha => dead_of_free hfree ha.1) ?_
    (nodup_recycled (hl ▸ h.threadsNodup)) ?_ h.reapedNodup
  · exact mem_or (fun _ => rfl) fun w hw hwt => by simpa [hl, hwt] using hw
  · exact mem_other hreap

theorem allocThread_some (hu : allocThread s = (u, some (t, tid))) : Manned u bare ∧ Fresh s u t := by
  obtain ⟨rest, free, hl, -, rfl⟩ := Procs.allocThread_some hu
  have hfree := h.freeThreads t (by simp [hl])
  have hnodup := List.nodup_cons.mp (hl ▸ h.threadsNodup)
  have hreap := h.not_reaped (t := t) (by simp [hfree])
  refine ⟨h.changeThread (fun _ hb => hb) (fun _ _ ha => dead_of_free hfree ha.1) ?_ hnodup.2 ?_ h.reapedNodup, ?_,
    hnodup.1, hreap, rfl, rfl, rfl⟩
  · exact fun w hw => .inr ⟨fun hwt => hnodup.1 (hwt ▸ hw), hl ▸ List.mem_cons_of_mem t hw⟩
  · exact mem_other hreap
  · rw [setThread_self]
    rfl

theorem initThread (ht : (s.thread t).state ≠ .init) (hlist : t ∉ s.freeThreadList)
    (hreap : t ∉ s.threadReaperDetachedThreadList) (hbare : ∀ q, q ≠ p → bare ≠ some q)
    (hp : (s.proc p).state = .init) (detached : Bool) : Manned (initThread s p t tid detached) none := by
  have hthread : Manned (s.setThread t ⟨tid, some p, .init, detached, none⟩) bare := by
    refine h.changeThread (fun _ hb => hb) (fun _ _ ha => ht ha.1) ?_ h.threadsNodup ?_ h.reapedNodup
    · exact mem_other hlist
    · exact mem_other hreap
  have halive : Alive (s.setThread t ⟨tid, some p, .init, detached, none⟩) p t := by
    rw [Alive, setThread_self]
    exact ⟨rfl, rfl⟩
  refine Manned.kindred ?_ ((Kindred.refl _).setPhase t .running)
  refine hthread.changeProc (fun q hq _ => hbare q hq) (fun _ _ => ⟨t, halive⟩) ?_
  exact fun _ hs => absurd hp hs

end Manned

theorem Manned.leave {y : Thread} (hm : Manned s none) (hc : Alive s p c)
    (hx : x.state = .exited ∧ x.threadList = [] ∨ x.state = .init ∧ ∃ t, t ≠ c ∧ Alive s p t)
    (hr : ∀ w ∈ r, w = c ∧ y.state = .exited ∧ y.detached = true ∨ w ≠ c ∧ w ∈ s.threadReaperDetachedThreadList)
    (hnodup : r.Nodup) : Manned (({ s with threadReaperDetachedThreadList := r }.setThread c y).setProc p x) none := by
  have hfree := hm.not_free (t := c) (by simp [hc.1])
  have hgone : Manned ({ s with threadReaperDetachedThreadList := r }.setThread c y) (some p) := by
    refine hm.changeThread (by simp) ?_ (mem_other hfree) hm.threadsNodup hr hnodup
    intro q hq ha
    exact hq (ha.2.symm.trans hc.2).symm
  refine hgone.changeProc (fun q hq _ hc => hq (Option.some.inj hc).symm) ?_ ?_
  · intro _ hinit
    rcases hx with ⟨hx, -⟩ | ⟨-, t, htc, ht⟩
    · rw [hx] at hinit
      cases hinit
    · exact ⟨t, by rwa [Alive, setThread_other htc]⟩
  · exact fun _ hs => (hx.resolve_right fun hi => hs hi.1).2

protected theorem Manned.detachChild (hm : Manned s none) (cfg : Config) (p : ProcId) (hrun : s.panicked = false)
    (hchild : child ≠ s.rootProcess) :
    (detachChild cfg p s child).panicked = true ∨ Manned (detachChild cfg p s child) none := by
  have hlist := hm.setChildren p (s.proc p).parent ((s.proc p).childList.erase child)
  unfold detachChild
  dsimp only
  split_ifs with hs
  · exact hlist.freeProcess hrun hchild (by simp)
  · exact .inr ((hlist.setChildren _ (State.proc _ _).parent _).setChildren child _ (State.proc _ child).childList)

theorem Manned.sysThreadJoin (h : Manned s none) : Manned (sysThreadJoin cfg s c tid).1 none := by
  unfold Procs.sysThreadJoin
  cases getThread cfg s tid with
  | none => exact h
  | some t =>
    dsimp only
    split_ifs
    · exact h
    · exact h
    · refine Manned.kindred (h.flags ?_ ?_ ?_) ((Kindred.refl _).setPhase c _)
      all_goals
        intro w
        by_cases hwt : w = t
        · simp [hwt]
        · simp [hwt]

section

variable (h : Posted s) (hm : Manned s none) (hrun : s.panicked = false) (hc : Alive s p c)
include h

theorem Crewed.freeProcess (hm : Manned s bare) (hrun : s.panicked = false) (hroot : p ≠ s.rootProcess)
    (hp : (s.proc p).state ≠ .free) (hthreads : (s.proc p).threadList = []) (hbare : ∀ q, q ≠ p → bare ≠ some q) :
    Crewed (freeProcess cfg s p) :=
  (hm.freeProcess hrun hroot hbare).imp_right fun hfree => ⟨h.freeProcess hrun hroot hp hthreads, hfree⟩

theorem Manned.allocProcess_none (hm : Manned s bare) (hu : allocProcess s parent = (u, none)) : Manned u bare := by
  rcases Procs.allocProcess_none hu with rfl | ⟨p, rest, hl, rfl⟩
  · exact hm
  · have hfree : (s.proc p).state = .free := h.freeProcs p (by simp [hl])
    exact hm.changeProc (fun _ _ hb => hb) nofun fun hr => absurd hr (h.free_ne_root hfree)

theorem Crewed.forkCleanup (hm : Manned s (some new)) (hrun : s.panicked = false)
    (hroot : new ≠ s.rootProcess) (hinit : (s.proc new).state = .init) (hthreads : (s.proc new).threadList = []) :
    Crewed (forkCleanup cfg s new) := by
  have hk := kindred_finiSessionPgrp cfg s new
  refine Crewed.freeProcess (h.kindred hk) (hm.kindred hk) ((finiSessionPgrp_panicked cfg s new).trans hrun) ?_ ?_ ?_ ?_
  · rw [hk.root]
    exact hroot
  · rw [hk.state, hinit]
    nofun
  · rw [hk.threadList]
    exact hthreads
  · exact fun q hq hc => hq (Option.some.inj hc).symm

theorem Crewed.forkThread (hm : Manned s (some new)) (hrun : s.panicked = false)
    (hroot : new ≠ s.rootProcess) (hinit : (s.proc new).state = .init) (hthreads : (s.proc new).threadList = []) :
    Crewed (forkThread cfg s new stackOk) := by
  unfold Procs.forkThread
  cases ha : allocThread s with
  | mk u r =>
    have hposted := h.work (worked_allocThread ha) nofun
    cases r with
    | none =>
      have hsame : u.proc = s.proc ∧ u.rootProcess = s.rootProcess ∧ u.panicked = s.panicked := by
        rcases allocThread_none ha with rfl | ⟨t, rest, -, rfl⟩ <;> exact ⟨rfl, rfl, rfl⟩
      obtain ⟨hproc, hr, hpanic⟩ := hsame
      exact Crewed.forkCleanup hposted (hm.allocThread_none ha) (hpanic.trans hrun) (hr ▸ hroot) (hproc ▸ hinit)
        (hproc ▸ hthreads)
    | some r =>
      obtain ⟨t, tid⟩ := r
      obtain ⟨hmanned, hfresh⟩ := hm.allocThread_some ha
      have hdead := dead_of_free hfresh.state
      have hnew : (u.proc new).state = .init := hfresh.proc ▸ hinit
      have hrun' := hfresh.panicked.trans hrun
      cases stackOk with
      | true =>
        refine .inr ⟨hposted.initThread (.inr hnew) true,
          hmanned.initThread hdead hfresh.list hfresh.reaped ?_ hnew true⟩
        exact fun q hq hc => hq (Option.some.inj hc).symm
      | false =>
        have hproc : (abandonThread cfg u t tid).proc = s.proc ∧
            (abandonThread cfg u t tid).rootProcess = s.rootProcess := by
          rcases freeThread_cases cfg t tid hrun' with hf | hf <;> rw [hf] <;> exact ⟨hfresh.proc, hfresh.root⟩
        dsimp only [State.andThen]
        rw [if_neg (by simp)]
        split_ifs with hstop
        · exact .inl hstop
        have hkept : Manned (abandonThread cfg u t tid) (some new) :=
          (hmanned.abandonThread hrun' hdead hfresh.list hfresh.reaped).resolve_left hstop
        exact Crewed.forkCleanup (hposted.work (worked_abandonThread hrun') nofun) hkept (by simpa using hstop) (hproc.2 ▸ hroot)
          (hproc.1 ▸ hinit) (hproc.1 ▸ hthreads)

include hm

theorem detached_children (cfg : Config) (p : ProcId) :
    (detachChildProcesses cfg s p).panicked = true ∨ Detached s (detachChildProcesses cfg s p) := by
  refine (detach_induction cfg p (P := fun u => u.rootProcess = s.rootProcess ∧ (u.panicked = true ∨ Detached s u))
    ⟨rfl, .inr ⟨h, hm, fun _ _ => ⟨rfl, rfl, rfl⟩, rfl⟩⟩ ?_).2
  rintro u ⟨hr, hdone⟩ hrun child hchild
  have hd := hdone.resolve_left (by simp [hrun])
  have hne : child ≠ u.rootProcess := hr ▸ fun hc => h.child p (hc ▸ hchild)
  obtain ⟨hframe, hthread⟩ := detachChild_frame cfg child hrun
  refine ⟨hframe.trans hr, (hd.manned.detachChild cfg p hrun hne).imp_right fun hkept => ?_⟩
  refine ⟨hd.posted.detachChild hrun hne, hkept, fun q hq => ?_, hthread.trans hd.thread⟩
  obtain ⟨hstate, hlist, hpgid⟩ := hd.crew q hq
  obtain ⟨hstate', hlist', hpgid'⟩ := SameCrew.detachChild hrun q (by rwa [hstate])
  exact ⟨hstate'.trans hstate, hlist'.trans hlist, hpgid'.trans hpgid⟩

include hc

theorem Manned.doExitThread (hleaves : LeavesNone s c p) : Manned (doExitThread s c p) none := by
  have hinit := hm.alive_init h hc
  have hreap := hm.not_reaped (t := c) (by simp [hc.1])
  have hother (hne : (s.proc p).threadList.erase c ≠ []) : ∃ t, t ≠ c ∧ Alive s p t := by
    obtain ⟨t, -, htc, ht⟩ := hleaves.resolve_left hne
    exact ⟨t, htc, ht⟩
  rcases doExitThread_cases s c p with ⟨x, hl, hx, hs⟩ | ⟨hne, hs⟩
  · rw [hs]
    refine hm.leave hc ?_ ?_ (nodup_concat hm.reapedNodup hreap)
    · rcases hx with ⟨hempty, hx⟩ | ⟨hne, hx⟩
      · exact .inl ⟨by rw [hx], hempty⟩
      · refine .inr ⟨by rw [hx]; exact hinit, hother ?_⟩
        rwa [← hl]
    · exact mem_or (fun _ => ⟨rfl, rfl⟩) fun w hw hwc => by simpa [hwc] using hw
  · rw [hs]
    refine hm.leave hc (.inr ⟨hinit, hother hne⟩) ?_ hm.reapedNodup
    exact mem_other hreap

theorem Crewed.sysExit (hleaves : (s.proc p).exitInProgress = true → LeavesNone s c p) : Crewed (sysExit s c p) := by
  have hposted := h.work (worked_sysExit h hc) nofun
  unfold Procs.sysExit at hposted ⊢
  split_ifs at hposted ⊢ with hparent hexit
  · exact .inl rfl
  · exact .inr ⟨hposted, hm.doExitThread h hc (hleaves hexit)⟩
  · refine .inr ⟨hposted, Manned.kindred ?_ ((Kindred.refl _).setPhase c .exiting)⟩
    refine (hm.kindred (kindred_setMembership s s.ids p (s.proc p).sid (s.proc p).pgid true)).flags ?_ ?_ ?_
    all_goals
      intro t
      split_ifs
    · rfl
    · rfl
    · rfl
    · rfl
    · exact fun _ => rfl
    · exact id

theorem Crewed.exitFinish (hleaves : LeavesNone s c p) : Crewed (exitFinish cfg s c p) := by
  have hk := kindred_finiSessionPgrp cfg s p
  unfold Procs.exitFinish State.andThen
  split_ifs with hstop
  · exact .inl hstop
  have hdone := (detached_children (h.kindred hk) (hm.kindred hk) cfg p).resolve_left hstop
  have hinit : ((finiSessionPgrp cfg s p).proc p).state ≠ .exited := by
    rw [hk.state, hm.alive_init h hc]
    simp
  have hlist := (hdone.crew p hinit).2.1.trans (hk.threadList p)
  have hthread := hdone.thread.trans hk.thread
  have halive : Alive (detachChildProcesses cfg (finiSessionPgrp cfg s p) p) p c := by
    rw [Alive, hthread]
    exact hc
  refine .inr ⟨hdone.posted.work (worked_doExitThread hdone.posted halive) (by simp), hdone.manned.doExitThread hdone.posted halive ?_⟩
  unfold LeavesNone Alive at hleaves ⊢
  rw [hlist, hthread]
  exact hleaves

omit hc

include hrun

theorem Crewed.joinFinish (hc : Alive s p c)
    (ht : (s.thread t).state = .exited) (hown : JoinOwn s p t) : Crewed (joinFinish cfg s c p t) := by
  have hinit := hm.alive_init h hc
  have hlist : Manned (s.setProc p { s.proc p with threadList := (s.proc p).threadList.erase t }) none := by
    refine hm.changeProc (fun _ _ hb => hb) (fun _ _ => ⟨c, hc⟩) ?_
    exact fun _ hs => absurd hinit hs
  have hfree := hm.not_free (t := t) (by simp [ht])
  have hreap : t ∉ s.threadReaperDetachedThreadList := by
    intro hmem
    have hdetached := (hm.reaped t hmem).2
    rw [hown.1] at hdetached
    cases hdetached
  have hposted : Posted (Procs.joinFinish cfg s c p t) := h.work (worked_joinFinish hrun ht) nofun
  refine (hlist.abandonThread hrun (by simp [State.setProc, ht]) hfree hreap).imp id fun hkept => ⟨hposted, ?_⟩
  exact hkept.kindred ((Kindred.refl _).setPhase c .running)

theorem Crewed.threadReaper (ht : t ∈ s.threadReaperDetachedThreadList) : Crewed (threadReaper cfg s t) := by
  have hlist : Manned { s with threadReaperDetachedThreadList := s.threadReaperDetachedThreadList.erase t } none :=
    { hm with reaped := fun w hw => hm.reaped w (List.mem_of_mem_erase hw), reapedNodup := hm.reapedNodup.erase t }
  have hexited := (hm.reaped t ht).1
  have hfree := hm.not_free (t := t) (by simp [hexited])
  exact (hlist.abandonThread hrun (by simp [hexited]) hfree fun hmem => hm.reapedNodup.not_mem_erase hmem).imp id
    fun hkept => ⟨h.work (worked_threadReaper hrun) nofun, hkept⟩

theorem Crewed.sysWaitpid : Crewed (sysWaitpid cfg s p pid fault).1 := by
  unfold Procs.sysWaitpid
  cases hsel : waitSelect cfg s p pid with
  | error e => exact .inr ⟨h, hm⟩
  | ok found =>
    cases found with
    | none => exact .inr ⟨h, hm⟩
    | some child =>
      cases fault with
      | true => exact .inr ⟨h, hm⟩
      | false =>
        obtain ⟨hs, hkin⟩ := waitSelect_some hsel
        have hroot : child ≠ s.rootProcess := by
          rintro rfl
          rcases hkin with hpar | hmem
          · rw [h.orphan] at hpar
            cases hpar
          · exact h.child p hmem
        have hlist := hm.setChildren p (s.proc p).parent ((s.proc p).childList.erase child)
        exact (hlist.freeProcess hrun hroot (by simp)).imp id fun hkept => ⟨h.waitReap hrun hroot hs, hkept⟩

theorem Crewed.doCreateThread (hp : (s.proc p).state = .init) : Crewed (doCreateThread cfg s p detached stackOk) := by
  unfold Procs.doCreateThread
  cases ha : allocThread s with
  | mk u r =>
    have hposted := h.work (worked_allocThread ha) nofun
    cases r with
    | none => exact .inr ⟨hposted, hm.allocThread_none ha⟩
    | some r =>
      obtain ⟨hmanned, hfresh⟩ := hm.allocThread_some ha
      have hdead := dead_of_free hfresh.state
      have hinit : (u.proc p).state = .init := by
        rw [hfresh.proc]
        exact hp
      cases stackOk with
      | true =>
        exact .inr ⟨hposted.initThread (.inr hinit) detached,
          hmanned.initThread hdead hfresh.list hfresh.reaped (by simp) hinit detached⟩
      | false =>
        have hrun' := hfresh.panicked.trans hrun
        exact (hmanned.abandonThread hrun' hdead hfresh.list hfresh.reaped).imp id
          fun hkept => ⟨hposted.work (worked_abandonThread hrun') nofun, hkept⟩

theorem Crewed.sysFork (hc : Alive s p c) : Crewed (sysFork cfg s p spaceOk stackOk) := by
  unfold Procs.sysFork
  cases ha : allocProcess s p with
  | mk u r =>
    cases r with
    | none => exact .inr ⟨h.allocProcess_none ha, hm.allocProcess_none h ha⟩
    | some new =>
      obtain ⟨hnew, hposted⟩ := h.allocProcess_some (h.alive_ne_free hc) ha
      have hmanned := hnew.manned hm
      have hrun' := hnew.panicked.trans hrun
      have hroot : new ≠ u.rootProcess := hnew.root ▸ hnew.ne_root
      obtain ⟨e, hself⟩ := hnew.made
      have hinit : (u.proc new).state = .init := by rw [hself]
      have hthreads : (u.proc new).threadList = [] := by
        rw [hself]
        rfl
      cases spaceOk with
      | false =>
        refine Crewed.freeProcess hposted hmanned hrun' hroot ?_ hthreads ?_
        · rw [hinit]
          nofun
        · exact fun q hq hc => hq (Option.some.inj hc).symm
      | true =>
        have hk := kindred_forkSessionPgrp cfg u new p
        refine Crewed.forkThread (hposted.kindred hk) (hmanned.kindred hk) hrun' ?_ ?_ ?_
        · exact hroot
        · rw [hk.state]
          exact hinit
        · rw [hk.threadList]
          exact hthreads

omit hrun

theorem Crewed.step {a : Action} (hjoined : Joined s a) (hs : step cfg s a = some u) : Crewed u := by
  obtain ⟨hrun, hs⟩ := step_cases hs
  have hkindred (hk : Kindred s u) : Crewed u := .inr ⟨h.kindred hk, hm.kindred hk⟩
  cases hs with
  | setsid => exact hkindred (kindred_sysSetsid cfg s _)
  | setpgrp => exact hkindred (kindred_sysSetpgrp cfg s _)
  | setpgid => exact hkindred (kindred_sysSetpgid cfg s _ _ _)
  | fork hp => exact Crewed.sysFork h hm hrun (caller_some hp)
  | threadCreate hp kernel =>
    cases kernel with
    | true => exact Crewed.doCreateThread h hm hrun (hjoined rfl)
    | false => exact Crewed.doCreateThread h hm hrun (hm.alive_init h (caller_some hp))
  | exit hp => exact Crewed.sysExit h hm (caller_some hp) (hjoined _ hp)
  | exitFinish hp =>
    obtain ⟨hi, hcp, -⟩ := sleeper_some hp
    exact Crewed.exitFinish h hm ⟨hi, hcp⟩ (hjoined _ hp)
  | threadExit hp =>
    have hc := caller_some hp
    exact .inr ⟨h.work (worked_doExitThread h hc) nofun, hm.doExitThread h hc (hjoined _ hp)⟩
  | join hp => exact .inr ⟨h.work worked_sysThreadJoin nofun, hm.sysThreadJoin⟩
  | joinFinish hp ht =>
    obtain ⟨hi, hcp, -⟩ := sleeper_some hp
    exact Crewed.joinFinish h hm hrun ⟨hi, hcp⟩ ht (hjoined _ hp _ rfl)
  | waitpid hp => exact Crewed.sysWaitpid h hm hrun
  | reaper ht => exact Crewed.threadReaper h hm hrun ht

end

theorem process_exits_with_threads (cfg : Config) (s : State) (h : Reach (step cfg) Joined (Booted cfg) s)
    (hrun : s.panicked = false) : ExitsWithThreads s := by
  have hkept : Crewed s := by
    refine h.invariant (P := Crewed) ?_ ?_
    · rintro s ⟨hp, ht, rfl⟩
      exact .inr ⟨boot_posted hp ht, boot_manned cfg⟩
    · rintro s a u (hstop | ⟨hposted, hmanned⟩) hjoined hs
      · simp [step, hstop] at hs
      · exact Crewed.step hposted hmanned hjoined hs
  obtain ⟨hposted, hmanned⟩ := hkept.resolve_left (by simp [hrun])
  constructor
  · intro p hfree hnone
    cases hstate : (s.proc p).state with
    | free => exact absurd hstate hfree
    | exited => rfl
    | init =>
      obtain ⟨t, ht⟩ := hmanned.manned p nofun hstate
      exact absurd ht (hnone t)
  · intro p hstate t ht
    have hinit := hmanned.alive_init hposted ht
    rw [hstate] at hinit
    cases hinit

end Manned

def joinedRun : List Action :=
  [.fork 0 true true, .threadCreate 1 false false true, .threadExit 2, .join 1 5, .joinFinish 1, .exit 1, .exitFinish 1]

def unjoinedRun : List Action :=
  [.fork 0 true true, .threadCreate 1 false false true, .threadExit 2, .exit 1, .exitFinish 1]

theorem joined_process_exits : ∃ s, Reach (step smallConfig) Joined (Booted smallConfig) s ∧ s.panicked = false ∧
    (s.proc 1).state = .exited ∧ ExitsWithThreads s :=
  Reach.exists_of_run (Q := fun s => s.panicked = false ∧ (s.proc 1).state = .exited) joinedRun
    ⟨by decide, by decide, rfl⟩ (by decide) (by decide) fun s hr hq =>
      ⟨hq.1, hq.2, process_exits_with_threads smallConfig s hr hq.1⟩

def unjoined : State := (exec (step smallConfig) (boot smallConfig) unjoinedRun).getD (boot smallConfig)

theorem unjoined_no_thread : ∀ t, ¬ Alive unjoined 1 t
  | 0 => by decide
  | 1 => by decide
  | 2 => by decide
  | n + 3 => by
      intro h
      cases h.1

theorem unjoined_process_stays : ∃ s, Reach (step smallConfig) always (Booted smallConfig) s ∧ s.panicked = false ∧
    (s.proc 1).state = .init ∧ (∀ t, ¬ Alive s 1 t) ∧ ¬ ExitsWithThreads s := by
  have hboot : Booted smallConfig (boot smallConfig) := ⟨by decide, by decide, rfl⟩
  have hstate : (unjoined.proc 1).state = .init := rfl
  refine ⟨unjoined, (Reach.start hboot).exec (meets_always _ unjoinedRun) rfl, rfl, hstate, unjoined_no_thread, ?_⟩
  intro h
  have hexited := h.exits 1 (by decide) unjoined_no_thread
  cases hexited

end CheviotKernel.Procs
