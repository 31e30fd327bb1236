import CheviotKernel.Proc.Lifecycle

namespace CheviotKernel.Procs

def Alive (s : State) (p : ProcId) (t : ThreadId) : Prop := (s.thread t).state = .init ∧ (s.thread t).process = some p
  deriving Decidable

section

variable {cfg : Config} {s u w : State} {p parent child q new cur : ProcId} {t c : ThreadId} {x : Process} {y : Ids}
  {l : List ProcId} {tid : PidT} {used : Option (ProcId × ThreadId)} {left : Option ProcId}

structure Kindred (s u : State) : Prop where
  thread : u.thread = s.thread
  state : ∀ p, (u.proc p).state = (s.proc p).state
  threadList : ∀ p, (u.proc p).threadList = (s.proc p).threadList
  parent : ∀ p, (u.proc p).parent = (s.proc p).parent
  childList : ∀ p, (u.proc p).childList = (s.proc p).childList
  freeProcs : u.freeProcessList = s.freeProcessList
  freeThreads : u.freeThreadList = s.freeThreadList
  reaped : u.threadReaperDetachedThreadList = s.threadReaperDetachedThreadList
  root : u.rootProcess = s.rootProcess

theorem Kindred.trans (h : Kindred s u) (h' : Kindred u w) : Kindred s w :=
  ⟨h'.thread.trans h.thread, fun p => (h'.state p).trans (h.state p),
    fun p => (h'.threadList p).trans (h.threadList p), fun p => (h'.parent p).trans (h.parent p),
    fun p => (h'.childList p).trans (h.childList p), h'.freeProcs.trans h.freeProcs, h'.freeThreads.trans h.freeThreads,
    h'.reaped.trans h.reaped, h'.root.trans h.root⟩

theorem Kindred.panic (h : Kindred s u) : Kindred s u.panic :=
  { h with }

theorem Kindred.setPhase (h : Kindred s u) (c : ThreadId) (ph : Phase) : Kindred s (u.setPhase c ph) :=
  { h with }

theorem kindred_setMembership (s : State) (y : Ids) (p : ProcId) (sid pgid : PidT) (exiting : Bool) :
    Kindred s ({ s with ids := y }.setProc p { s.proc p with sid := sid, pgid := pgid, exitInProgress := exiting }) := by
  refine ⟨rfl, ?_, ?_, ?_, ?_, rfl, rfl, rfl, rfl⟩
  · exact setProc_cases (fun q z => z.state = (s.proc q).state) rfl fun _ _ => rfl
  · exact setProc_cases (fun q z => z.threadList = (s.proc q).threadList) rfl fun _ _ => rfl
  · exact setProc_cases (fun q z => z.parent = (s.proc q).parent) rfl fun _ _ => rfl
  · exact setProc_cases (fun q z => z.childList = (s.proc q).childList) rfl fun _ _ => rfl

section

variable (cfg s p)

theorem Kindred.refl : Kindred s s :=
  ⟨rfl, fun _ => rfl, fun _ => rfl, fun _ => rfl, fun _ => rfl, rfl, rfl, rfl, rfl⟩

theorem kindred_finiSessionPgrp : Kindred s (finiSessionPgrp cfg s p) := by
  obtain ⟨y, sid, pgid, hy⟩ := finiSessionPgrp_shape cfg s p
  rw [hy]
  exact kindred_setMembership s y p sid pgid (s.proc p).exitInProgress

theorem finiSessionPgrp_panicked : (finiSessionPgrp cfg s p).panicked = s.panicked := by
  obtain ⟨y, sid, pgid, hy⟩ := finiSessionPgrp_shape cfg s p
  rw [hy]
  rfl

theorem kindred_forkSessionPgrp (new old : ProcId) : Kindred s (forkSessionPgrp cfg s new old) :=
  kindred_setMembership s _ new _ _ (s.proc new).exitInProgress

theorem kindred_removeFromPgrp : Kindred s (removeFromPgrp cfg s p) := by
  obtain ⟨y, pgid, hy⟩ := removeFromPgrp_shape cfg s p
  rw [hy]
  exact kindred_setMembership s y p (s.proc p).sid pgid (s.proc p).exitInProgress

theorem kindred_leaveOld : Kindred s (leaveOld cfg s p) := by
  unfold leaveOld
  split
  · exact kindred_finiSessionPgrp cfg s p
  · exact Kindred.refl s

theorem kindred_sysSetsid : Kindred s (sysSetsid cfg s p).1 := by
  rcases sysSetsid_cases cfg s p with ⟨err, hs⟩ | ⟨u, rfl, -, -, hs⟩
  · rw [hs]
    exact Kindred.refl s
  have hleft := kindred_leaveOld cfg s p
  rcases hs with ⟨-, hs⟩ | ⟨i, y, v, -, rfl, ⟨-, hs⟩ | ⟨-, hs⟩⟩
  · rw [hs]
    exact hleft
  · rw [hs]
    exact (hleft.trans (kindred_setMembership _ _ p _ _ ((leaveOld cfg s p).proc p).exitInProgress)).panic
  · rw [hs]
    exact hleft.trans (kindred_setMembership _ _ p _ _ ((leaveOld cfg s p).proc p).exitInProgress)

theorem kindred_sysSetpgrp : Kindred s (sysSetpgrp cfg s p).1 := by
  rcases sysSetpgrp_cases cfg s p with ⟨hs, -⟩ | ⟨u, rfl, -, hs⟩
  · rw [hs]
    exact Kindred.refl s
  have hleft := kindred_removeFromPgrp cfg s p
  have hjoin (y : Ids) := kindred_setMembership (removeFromPgrp cfg s p) y p ((removeFromPgrp cfg s p).proc p).sid
    (s.proc p).pid ((removeFromPgrp cfg s p).proc p).exitInProgress
  rcases hs with ⟨-, hs⟩ | ⟨i, y, -, hs⟩
  · rw [hs]
    exact hleft.trans (hjoin _)
  · rw [hs]
    exact hleft.trans (hjoin _)

theorem kindred_sysSetpgid (cur : ProcId) (pid pgid : PidT) : Kindred s (sysSetpgid cfg s cur pid pgid).1 := by
  unfold sysSetpgid
  repeat' split
  all_goals first | exact Kindred.refl s | exact kindred_setMembership s s.ids _ _ pgid (s.proc _).exitInProgress

end

structure Posted (s : State) : Prop where
  member : ∀ t p, Alive s p t → t ∈ (s.proc p).threadList
  ended : ∀ p, p ≠ s.rootProcess → (s.proc p).state ≠ .init → (s.proc p).threadList = []
  root : (s.proc s.rootProcess).state ≠ .free
  orphan : (s.proc s.rootProcess).parent = none
  child : ∀ p, s.rootProcess ∉ (s.proc p).childList
  freeProcs : ∀ p ∈ s.freeProcessList, (s.proc p).state = .free
  procsNodup : s.freeProcessList.Nodup

theorem mem_append_self (hq : q ∈ l ++ [p]) : q = p ∨ q ∈ l := by
  rcases List.mem_append.mp hq with hq | hq
  · exact .inr hq
  · exact .inl (List.mem_singleton.mp hq)

structure Allocated (s u : State) (parent new : ProcId) : Prop where
  ne_root : new ≠ s.rootProcess
  ne_parent : new ≠ parent
  made : ∃ e, u.proc new = { Process.zero with pid := e, parent := some parent, state := .init }
  listed : u.proc parent = { s.proc parent with childList := (s.proc parent).childList ++ [new] }
  other : ∀ q, q ≠ new → q ≠ parent → u.proc q = s.proc q
  free : s.freeProcessList = new :: u.freeProcessList
  thread : u.thread = s.thread
  freeThreads : u.freeThreadList = s.freeThreadList
  reaped : u.threadReaperDetachedThreadList = s.threadReaperDetachedThreadList
  root : u.rootProcess = s.rootProcess
  panicked : u.panicked = s.panicked
  phase : u.phase = s.phase

theorem detachThreads_alive (s : State) (others : List ThreadId) (p : ProcId) (t : ThreadId) :
    Alive (detachThreads s others) p t ↔ Alive s p t := by
  unfold Alive detachThreads
  dsimp only
  split_ifs <;> exact Iff.rfl

theorem boot_posted (hp : 0 < cfg.maxProcess) (ht : 0 < cfg.maxThread) : Posted (boot cfg) := by
  refine { boot_kin hp ht with member := ?_ }
  rintro t p ⟨ht, hp⟩
  by_cases ht0 : t = 0
  · subst ht0
    cases hp
    simp [boot]
  · simp [boot, ht0, Thread.zero] at ht

structure Reaping.Tended (s u : State) (used : Option (ProcId × ThreadId)) (left : Option ProcId) : Prop where
  parent : ∀ p, (u.proc p).parent = (s.proc p).parent
  childList : ∀ p, (u.proc p).childList = (s.proc p).childList
  free : ∀ p, p ∈ u.freeProcessList ↔ p ∈ s.freeProcessList
  root : u.rootProcess = s.rootProcess
  state : ∀ p, (u.proc p).state = (s.proc p).state ∨
    left = some p ∧ (s.proc p).threadList ≠ [] ∧ (s.proc p).state ≠ .free ∧ (u.proc p).state = .exited
  threadList : ∀ p, (s.proc p).threadList = [] → (u.proc p).threadList = [] ∨ ∃ t, used = some (p, t)
  alive : ∀ t q, Alive u q t → Alive s q t ∨ used = some (q, t)

-- What the calls about threads do to processes, for all of them at once: one thread may start and one process may exit.
structure Worked (s u : State) (used : Option (ProcId × ThreadId)) (left : Option ProcId) : Prop
    extends Reaping.Tended s u used left where
  freeProcs : u.freeProcessList = s.freeProcessList
  exited : ∀ p, (u.proc p).state ≠ (s.proc p).state → (u.proc p).threadList = []
  member : ∀ t q, Alive u q t → t ∈ (s.proc q).threadList ∨ used = some (q, t) → t ∈ (u.proc q).threadList

namespace Worked

theorem kindred (h : Kindred s u) : Worked s u none left :=
  ⟨⟨h.parent, h.childList, fun p => by rw [h.freeProcs], h.root, fun p => .inl (h.state p),
      fun p hp => .inl ((h.threadList p).trans hp), fun t q ht => .inl (by rwa [Alive, h.thread] at ht)⟩,
    h.freeProcs, fun p hp => absurd (h.state p) hp, fun t q _ hm => h.threadList q ▸ hm.resolve_right nofun⟩

theorem refl (s : State) : Worked s s none left := kindred (Kindred.refl s)

theorem trans (h : Worked s u none none) (h' : Worked u w none left) : Worked s w none left := by
  have hstate (p : ProcId) : (u.proc p).state = (s.proc p).state := (h.state p).resolve_right nofun
  have halive {t : ThreadId} {q : ProcId} (ht : Alive w q t) : Alive u q t := (h'.alive t q ht).resolve_right nofun
  refine ⟨⟨fun p => (h'.parent p).trans (h.parent p), fun p => (h'.childList p).trans (h.childList p),
    fun p => (h'.free p).trans (h.free p), h'.root.trans h.root, ?_, ?_, ?_⟩, h'.freeProcs.trans h.freeProcs, ?_, ?_⟩
  · intro p
    rw [← hstate p]
    refine (h'.state p).imp id fun hl => ⟨hl.1, fun hc => ?_, hl.2.2⟩
    exact hl.2.1 ((h.threadList p hc).resolve_right nofun)
  · intro p hp
    exact h'.threadList p ((h.threadList p hp).resolve_right nofun)
  · exact fun t q ht => h.alive t q (halive ht)
  · intro p
    rw [← hstate p]
    exact h'.exited p
  · exact fun t q ht hm => h'.member t q ht (.inl (h.member t q (halive ht) hm))

theorem setThread {x : Thread} {l r : List ThreadId} (hx : ∀ q, x.state = .init → x.process = some q → Alive s q t) :
    Worked s ({ s with ids := y, freeThreadList := l, threadReaperDetachedThreadList := r }.setThread t x) none none := by
  refine ⟨⟨fun _ => rfl, fun _ => rfl, fun _ => Iff.rfl, rfl, fun _ => .inl rfl, fun _ => .inl, ?_⟩, rfl,
    fun _ hp => absurd rfl hp, fun _ _ _ hm => hm.resolve_right nofun⟩
  exact setThread_cases (fun v z => ∀ q, z.state = .init ∧ z.process = some q → Alive s q v ∨ none = some (q, v))
    (fun q hq => .inl (hx q hq.1 hq.2)) fun _ _ _ => .inl

theorem setProc (hparent : x.parent = (s.proc p).parent) (hchild : x.childList = (s.proc p).childList)
    (hstate : x.state = (s.proc p).state ∨ (left = some p ∧ (s.proc p).threadList ≠ [] ∧ (s.proc p).state ≠ .free ∧
      x.state = .exited) ∧ x.threadList = [])
    (hthreads : (s.proc p).threadList = [] → x.threadList = [])
    (hmember : ∀ t, Alive s p t → t ∈ (s.proc p).threadList → t ∈ x.threadList) : Worked s (s.setProc p x) none left := by
  refine ⟨⟨?_, ?_, fun _ => Iff.rfl, rfl, ?_, ?_, fun _ _ => .inl⟩, rfl, ?_, fun t => ?_⟩
  · exact setProc_cases (fun q z => z.parent = (s.proc q).parent) hparent fun _ _ => rfl
  · exact setProc_cases (fun q z => z.childList = (s.proc q).childList) hchild fun _ _ => rfl
  · exact setProc_cases (fun q z => z.state = (s.proc q).state ∨
      left = some q ∧ (s.proc q).threadList ≠ [] ∧ (s.proc q).state ≠ .free ∧ z.state = .exited) (hstate.imp id And.left)
      fun _ _ => .inl rfl
  · exact setProc_cases (fun q z => (s.proc q).threadList = [] → z.threadList = [] ∨ ∃ t, none = some (q, t))
      (fun hl => .inl (hthreads hl)) fun _ _ => .inl
  · exact setProc_cases (fun q z => z.state ≠ (s.proc q).state → z.threadList = [])
      (fun hs => (hstate.resolve_left hs).2) fun _ _ hs => absurd rfl hs
  · exact setProc_cases (fun q z => Alive s q t → t ∈ (s.proc q).threadList ∨ none = some (q, t) → t ∈ z.threadList)
      (fun ht hm => hmember t ht (hm.resolve_right nofun)) fun _ _ _ hm => hm.resolve_right nofun

end Worked

theorem Posted.work (h : Posted s) (k : Worked s u used left)
    (hused : ∀ p t, used = some (p, t) → p = s.rootProcess ∨ (s.proc p).state = .init) : Posted u := by
  refine ⟨?_, ?_, ?_, ?_, ?_, ?_, k.freeProcs ▸ h.procsNodup⟩
  · exact fun t p ht => k.member t p ht ((k.alive t p ht).imp_left (h.member t p))
  · intro p hroot hs
    by_cases hsame : (u.proc p).state = (s.proc p).state
    · rw [k.root] at hroot
      rw [hsame] at hs
      refine (k.threadList p (h.ended p hroot hs)).resolve_right ?_
      rintro ⟨t, ht⟩
      exact hs ((hused p t ht).resolve_left hroot)
    · exact k.exited p hsame
  · rw [k.root]
    rcases k.state s.rootProcess with hs | ⟨-, -, -, hs⟩ <;> rw [hs]
    · exact h.root
    · nofun
  · rw [k.root, k.parent]
    exact h.orphan
  · intro p
    rw [k.root, k.childList]
    exact h.child p
  · intro p hp
    have hfree := h.freeProcs p (k.freeProcs ▸ hp)
    exact ((k.state p).resolve_right fun hl => hl.2.2.1 hfree).trans hfree

theorem Posted.kindred (h : Posted s) (k : Kindred s u) : Posted u :=
  h.work (Worked.kindred k : Worked s u none none) nofun

namespace Posted

variable (h : Posted s) (hrun : s.panicked = false) (hc : Alive s p c)
include h

theorem free_ne_root (hp : (s.proc p).state = .free) : p ≠ s.rootProcess := by
  rintro rfl
  exact h.root hp

theorem changeProc (hmember : ∀ t, Alive s p t → t ∈ x.threadList)
    (hended : p ≠ s.rootProcess → x.state ≠ .init → x.threadList = [])
    (hroot : p = s.rootProcess → x.state ≠ .free ∧ x.parent = none) (hchild : s.rootProcess ∉ x.childList)
    (hl : ∀ q ∈ l, q = p ∧ x.state = .free ∨ q ≠ p ∧ q ∈ s.freeProcessList) (hnodup : l.Nodup) :
    Posted ({ s with ids := y, freeProcessList := l }.setProc p x) := by
  refine ⟨?_, ?_, ?_, ?_, ?_, ?_, hnodup⟩
  · intro t
    exact setProc_cases (fun q z => Alive s q t → t ∈ z.threadList) (hmember t) fun q _ => h.member t q
  · exact setProc_cases (fun q z => q ≠ s.rootProcess → z.state ≠ .init → z.threadList = []) hended
      fun q _ => h.ended q
  · exact setProc_cases (fun q z => q = s.rootProcess → z.state ≠ .free) (fun hr => (hroot hr).1)
      (fun _ _ hr => hr ▸ h.root) s.rootProcess rfl
  · exact setProc_cases (fun q z => q = s.rootProcess → z.parent = none) (fun hr => (hroot hr).2)
      (fun _ _ hr => hr ▸ h.orphan) s.rootProcess rfl
  · exact setProc_cases (fun _ z => s.rootProcess ∉ z.childList) hchild fun q _ => h.child q
  · refine setProc_cases (fun q z => q ∈ l → z.state = .free) ?_ ?_
    · exact fun hp => ((hl p hp).resolve_right fun hc => hc.1 rfl).2
    · exact fun q hqp hq => h.freeProcs q ((hl q hq).resolve_left fun hc => hqp hc.1).2

theorem setChildren (hstate : x.state = (s.proc p).state)
    (hthreads : x.threadList = (s.proc p).threadList) (hparent : p = s.rootProcess → x.parent = none)
    (hchild : s.rootProcess ∉ x.childList) : Posted (s.setProc p x) := by
  refine h.changeProc ?_ ?_ ?_ hchild ?_ h.procsNodup
  · intro t ht
    rw [hthreads]
    exact h.member t p ht
  · rw [hstate, hthreads]
    exact h.ended p
  · rintro rfl
    rw [hstate]
    exact ⟨h.root, hparent rfl⟩
  · exact mem_or (fun hp => hstate.trans (h.freeProcs p hp)) fun _ hq _ => hq

theorem unlist (q p : ProcId) :
    Posted (s.setProc q { s.proc q with childList := (s.proc q).childList.erase p }) := by
  refine h.setChildren rfl rfl ?_ fun hmem => h.child q (List.mem_of_mem_erase hmem)
  rintro rfl
  exact h.orphan

theorem enlist (q : ProcId) (hp : p ≠ s.rootProcess) :
    Posted (s.setProc q { s.proc q with childList := (s.proc q).childList ++ [p] }) := by
  refine h.setChildren rfl rfl ?_ ?_
  · rintro rfl
    exact h.orphan
  intro hmem
  rcases List.mem_append.mp hmem with hmem | hmem
  · exact h.child q hmem
  · exact hp (List.mem_singleton.mp hmem).symm

theorem retire (hroot : p ≠ s.rootProcess)
    (hthreads : (s.proc p).threadList = []) (hl : ∀ q ∈ l, q = p ∨ q ∈ s.freeProcessList) (hnodup : l.Nodup) :
    Posted ({ s with ids := y, freeProcessList := l }.setProc p Process.zero) := by
  refine h.changeProc ?_ (fun _ _ => rfl) (fun hr => absurd hr hroot) List.not_mem_nil ?_ hnodup
  · intro t ht
    have hmem := h.member t p ht
    rwa [hthreads] at hmem
  exact mem_or (fun _ => rfl) fun q hq hqp => (hl q hq).resolve_left hqp

theorem allocProcess_none (hu : allocProcess s parent = (u, none)) : Posted u := by
  rcases Procs.allocProcess_none hu with rfl | ⟨p, rest, hl, rfl⟩
  · exact h
  have hfree : (s.proc p).state = .free := h.freeProcs p (by simp [hl])
  refine h.retire (h.free_ne_root hfree) (h.ended p (h.free_ne_root hfree) (by simp [hfree])) ?_
    (nodup_recycled (hl ▸ h.procsNodup))
  intro q hq
  rw [hl, List.mem_cons]
  exact (mem_append_self hq).imp_right .inr

protected theorem allocProcess_some (hpar : (s.proc parent).state ≠ .free)
    (hu : allocProcess s parent = (u, some new)) :
    Allocated s u parent new ∧ Posted u := by
  obtain ⟨rest, e, free, hl, -, v, hv, rfl⟩ := allocProcess_some hu
  have hnew : (s.proc new).state = .free := h.freeProcs new (by simp [hl])
  have hroot := h.free_ne_root hnew
  have hne : new ≠ parent := by
    rintro rfl
    exact hpar hnew
  have hthreads := h.ended new hroot (by simp [hnew])
  have hnodup := List.nodup_cons.mp (hl ▸ h.procsNodup)
  have hposted : Posted v := by
    rw [hv]
    refine h.changeProc ?_ (fun _ _ => rfl) (fun hr => absurd hr hroot) List.not_mem_nil ?_ hnodup.2
    · intro t ht
      have hmem := h.member t new ht
      rwa [hthreads] at hmem
    · intro q hq
      exact .inr ⟨fun hqn => hnodup.1 (hqn ▸ hq), hl ▸ List.mem_cons_of_mem new hq⟩
  subst hv
  refine ⟨⟨hroot, hne, ⟨e, ?_⟩, ?_, ?_, hl, rfl, rfl, rfl, rfl, rfl, rfl⟩, hposted.enlist parent hroot⟩
  · rw [setProc_other hne, setProc_self]
  · rw [setProc_self, setProc_other hne.symm]
  · intro q hqn hqp
    rw [setProc_other hqp, setProc_other hqn]

theorem exited_bare (hroot : p ≠ s.rootProcess) (hp : (s.proc p).state = .exited) : (s.proc p).threadList = [] :=
  h.ended p hroot (by rw [hp]; nofun)

include hc

theorem alive_init (hroot : p ≠ s.rootProcess) : (s.proc p).state = .init := by
  by_contra hs
  have hmem := h.member c p hc
  rw [h.ended p hroot hs] at hmem
  cases hmem

theorem alive_ne_free : (s.proc p).state ≠ .free := by
  by_cases hroot : p = s.rootProcess
  · rw [hroot]
    exact h.root
  · rw [h.alive_init hc hroot]
    nofun

omit hc

include hrun

theorem freeProcess (hroot : p ≠ s.rootProcess)
    (hp : (s.proc p).state ≠ .free) (hthreads : (s.proc p).threadList = []) : Posted (freeProcess cfg s p) := by
  have hnodup : (s.freeProcessList ++ [p]).Nodup := nodup_concat h.procsNodup fun hmem => hp (h.freeProcs p hmem)
  rcases freeProcess_cases cfg p hrun with hf | ⟨u, hf, ⟨-, rfl⟩ | ⟨q, -, rfl⟩⟩
  · rw [hf]
    exact h.kindred (Kindred.refl s).panic
  · rw [hf]
    exact h.retire hroot hthreads (fun _ => mem_append_self) hnodup
  · rw [hf]
    exact (h.unlist q p).retire hroot ((children_same q _ p).2.trans hthreads) (fun _ => mem_append_self) hnodup

theorem waitReap (hroot : child ≠ s.rootProcess)
    (hchild : (s.proc child).state = .exited) : Posted (waitReap cfg s cur child) := by
  have hlist := h.unlist cur child
  have hstate := (children_same cur ((s.proc cur).childList.erase child) child).1.trans hchild
  refine hlist.freeProcess hrun hroot ?_ (hlist.exited_bare hroot hstate)
  rw [hstate]
  nofun

protected theorem detachChild (hchild : child ≠ s.rootProcess) : Posted (detachChild cfg p s child) := by
  have hlist := h.unlist p child
  unfold detachChild
  dsimp only
  split_ifs with hs
  · refine hlist.freeProcess hrun hchild ?_ (hlist.exited_bare hchild hs)
    rw [hs]
    nofun
  · have hroot := hlist.enlist s.rootProcess hchild
    exact hroot.setChildren rfl rfl (fun hr => absurd hr hchild) (hroot.child child)

end Posted

theorem worked_allocThread {r : Option (ThreadId × PidT)} (hu : allocThread s = (u, r)) : Worked s u none none := by
  cases r with
  | none =>
    rcases allocThread_none hu with rfl | ⟨t, rest, -, rfl⟩
    · exact Worked.refl u
    · exact Worked.setThread nofun
  | some r =>
    obtain ⟨rest, free, -, -, rfl⟩ := allocThread_some hu
    exact Worked.setThread nofun

theorem worked_abandonThread (hrun : s.panicked = false) : Worked s (abandonThread cfg s t tid) none none := by
  rcases freeThread_cases cfg t tid hrun with hf | hf
  · rw [hf]
    exact Worked.kindred (Kindred.refl s).panic
  · rw [hf]
    exact Worked.setThread nofun

theorem worked_initThread (detached : Bool) : Worked s (initThread s p t tid detached) (some (p, t)) none := by
  have hproc (q : ProcId) : (initThread s p t tid detached).proc q =
      { s.proc q with threadList := if q = p then (s.proc q).threadList ++ [t] else (s.proc q).threadList } := by
    by_cases hq : q = p
    · subst hq
      simp [initThread, State.setPhase, State.setThread]
    · simp [initThread, State.setPhase, State.setThread, hq]
  refine ⟨⟨fun q => by rw [hproc], fun q => by rw [hproc], fun _ => Iff.rfl, rfl, fun q => .inl (by rw [hproc]), ?_, ?_⟩,
    rfl, fun q hq => absurd (by rw [hproc]) hq, ?_⟩
  · intro q hq
    rw [hproc]
    by_cases hqp : q = p
    · exact .inr ⟨t, by rw [hqp]⟩
    · exact .inl (by simpa [hqp] using hq)
  · intro v q hv
    by_cases hvt : v = t
    · subst hvt
      have hq : p = q := by simpa [Alive, initThread, State.setPhase] using hv
      exact .inr (by rw [hq])
    · exact .inl (by simpa [Alive, initThread, State.setPhase, State.setProc, hvt] using hv)
  · rintro v q - (hm | hm)
    · rw [hproc]
      by_cases hqp : q = p <;> simp [hqp, hm]
      simp [← hqp, hm]
    · cases hm
      simp [hproc]

theorem Posted.initThread (h : Posted s) (hp : p = s.rootProcess ∨ (s.proc p).state = .init) (detached : Bool) :
    Posted (initThread s p t tid detached) := by
  refine h.work (worked_initThread detached) ?_
  rintro q v ⟨⟩
  exact hp

theorem worked_doExitThread (h : Posted s) (hc : Alive s p c) : Worked s (doExitThread s c p) none (some p) := by
  have hp := h.alive_ne_free hc
  have hlist : (s.proc p).threadList ≠ [] := List.ne_nil_of_mem (h.member c p hc)
  have hstays {v : State} (hv : (v.thread c).state = .exited) (t : ThreadId) (ht : Alive v p t)
      (hm : t ∈ (s.proc p).threadList) : t ∈ (s.proc p).threadList.erase c := by
    refine (List.mem_erase_of_ne ?_).mpr hm
    rintro rfl
    cases hv.symm.trans ht.1
  rcases doExitThread_cases s c p with ⟨x, hl, hx, hs⟩ | ⟨-, hs⟩
  · rw [hs]
    have hthread := Worked.setThread (s := s) (t := c)
      (x := { s.thread c with detached := true, process := some s.rootProcess, state := .exited })
      (y := s.ids) (l := s.freeThreadList) (r := s.threadReaperDetachedThreadList ++ [c]) nofun
    refine hthread.trans (Worked.setProc ?_ ?_ ?_ (fun hl => absurd hl hlist) ?_)
    · rcases hx with ⟨-, hx⟩ | ⟨-, hx⟩ <;> rw [hx] <;> rfl
    · rcases hx with ⟨-, hx⟩ | ⟨-, hx⟩ <;> rw [hx] <;> rfl
    · rcases hx with ⟨hnil, hx⟩ | ⟨-, hx⟩
      · exact .inr ⟨⟨rfl, hlist, hp, by rw [hx]⟩, hnil⟩
      · exact .inl (by rw [hx]; rfl)
    · rw [hl]
      exact hstays (by simp)
  · rw [hs]
    have hthread := Worked.setThread (s := s) (t := c) (x := { s.thread c with state := .exited })
      (y := s.ids) (l := s.freeThreadList) (r := s.threadReaperDetachedThreadList) nofun
    refine hthread.trans (Worked.setProc rfl rfl (.inl rfl) (fun hl => absurd hl hlist) fun t ht hm => ?_)
    exact List.mem_append_left _ (hstays (by simp) t ht hm)

theorem worked_sysExit (h : Posted s) (hc : Alive s p c) : Worked s (sysExit s c p) none (some p) := by
  unfold sysExit
  split_ifs
  · exact Worked.kindred (Kindred.refl s).panic
  · exact worked_doExitThread h hc
  · have hflag := kindred_setMembership s s.ids p (s.proc p).sid (s.proc p).pgid true
    refine (Worked.kindred hflag).trans ⟨⟨fun _ => rfl, fun _ => rfl, fun _ => Iff.rfl, rfl, fun _ => .inl rfl,
      fun _ => .inl, ?_⟩, rfl, fun _ hp => absurd rfl hp, fun _ _ _ hm => hm.resolve_right nofun⟩
    exact fun t q ht => .inl ((detachThreads_alive _ _ q t).mp ht)

theorem worked_sysThreadJoin : Worked s (sysThreadJoin cfg s c tid).1 none none := by
  unfold sysThreadJoin
  cases getThread cfg s tid with
  | none => exact Worked.refl s
  | some t =>
    dsimp only
    split_ifs
    · exact Worked.refl s
    · exact Worked.refl s
    · refine Worked.trans ?_ (Worked.kindred ((Kindred.refl _).setPhase c _))
      exact Worked.setThread fun q ht hq => ⟨ht, hq⟩

theorem worked_joinFinish (hrun : s.panicked = false) (ht : (s.thread t).state = .exited) :
    Worked s (joinFinish cfg s c p t) none none := by
  have hlist : Worked s (s.setProc p { s.proc p with threadList := (s.proc p).threadList.erase t }) none none := by
    refine Worked.setProc rfl rfl (.inl rfl) (fun hl => ?_) fun v hv hm => (List.mem_erase_of_ne ?_).mpr hm
    · rw [hl]
      rfl
    · rintro rfl
      cases ht.symm.trans hv.1
  exact (hlist.trans (worked_abandonThread hrun)).trans (Worked.kindred ((Kindred.refl _).setPhase c .running))

theorem worked_threadReaper (hrun : s.panicked = false) : Worked s (threadReaper cfg s t) none none := by
  have hlist : Worked s { s with threadReaperDetachedThreadList := s.threadReaperDetachedThreadList.erase t } none none :=
    { Worked.refl s with }
  exact hlist.trans (worked_abandonThread hrun)

end

end CheviotKernel.Procs
