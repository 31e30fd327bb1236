import CheviotKernel.Proc.Ids

namespace CheviotKernel.Procs

open Function

inductive Stepped (cfg : Config) (s : State) : Action → State → Prop
  | setsid (hp : caller s c = some p) : Stepped cfg s (.setsid c) (sysSetsid cfg s p).1
  | setpgrp (hp : caller s c = some p) : Stepped cfg s (.setpgrp c) (sysSetpgrp cfg s p).1
  | setpgid (hp : caller s c = some p) (pid pgid : PidT) :
    Stepped cfg s (.setpgid c pid pgid) (sysSetpgid cfg s p pid pgid).1
  | fork (hp : caller s c = some p) : Stepped cfg s (.fork c spaceOk stackOk) (sysFork cfg s p spaceOk stackOk)
  | threadCreate (hp : caller s c = some p) (kernel : Bool) : Stepped cfg s (.threadCreate c kernel detached stackOk)
      (doCreateThread cfg s (if kernel then s.rootProcess else p) detached stackOk)
  | exit (hp : caller s c = some p) : Stepped cfg s (.exit c) (sysExit s c p)
  | exitFinish (hp : sleeper s c = some (.exiting, p)) : Stepped cfg s (.exitFinish c) (exitFinish cfg s c p)
  | threadExit (hp : caller s c = some p) : Stepped cfg s (.threadExit c) (doExitThread s c p)
  | join (hp : caller s c = some p) : Stepped cfg s (.join c tid) (sysThreadJoin cfg s c tid).1
  | joinFinish (hp : sleeper s c = some (.joining t, p)) (ht : (s.thread t).state = .exited) :
    Stepped cfg s (.joinFinish c) (joinFinish cfg s c p t)
  | waitpid (hp : caller s c = some p) : Stepped cfg s (.waitpid c pid fault) (sysWaitpid cfg s p pid fault).1
  | reaper (ht : t ∈ s.threadReaperDetachedThreadList) : Stepped cfg s (.reaper t) (threadReaper cfg s t)

section Invariant

variable {recorded : Prop} {cfg : Config} {s u : State} {own own' : PidT → Option Holder}
  {p parent new child cur : ProcId} {t c : ThreadId} {y x z : Ids} {e tid pid k : PidT} {a b : Holder} {α : Type}
  {r : List ThreadId} {l : List ProcId}

structure Kin (cfg : Config) (s : State) : Prop where
  member : ∀ t p, (s.thread t).state = .init → (s.thread t).process = some p →
    p = s.rootProcess ∨ t ∈ (s.proc p).threadList
  ended : ∀ p, p ≠ s.rootProcess → (s.proc p).state ≠ .init → (s.proc p).threadList = []
  root : (s.proc s.rootProcess).state ≠ .free
  orphan : (s.proc s.rootProcess).parent = none
  child : ∀ p, s.rootProcess ∉ (s.proc p).childList
  freeProcs : ∀ p ∈ s.freeProcessList, (s.proc p).state = .free
  procsNodup : s.freeProcessList.Nodup
  freeThreads : ∀ t ∈ s.freeThreadList, (s.thread t).state = .free
  threadsNodup : s.freeThreadList.Nodup
  reaped : ∀ t ∈ s.threadReaperDetachedThreadList, (s.thread t).state = .exited ∧ (s.thread t).detached = true
  reapedNodup : s.threadReaperDetachedThreadList.Nodup
  procsBound : ∀ p, (s.proc p).state ≠ .free ∨ p ∈ s.freeProcessList → p < cfg.maxProcess
  threadsBound : ∀ t, (s.thread t).state ≠ .free ∨ t ∈ s.freeThreadList → t < cfg.maxThread

structure Inv (cfg : Config) (recorded : Prop) (s : State) (own : PidT → Option Holder) : Prop where
  table : Table recorded s.ids own
  procs : ∀ p, (s.proc p).state ≠ .free → own (s.proc p).pid = some (.proc p)
  threads : ∀ t, (s.thread t).state ≠ .free → own (s.thread t).tid = some (.thread t)
  kin : Kin cfg s

theorem Kin.setIds (h : Kin cfg s) (y : Ids) : Kin cfg { s with ids := y } :=
  { h with }

@[simp]
theorem setProc_other {q : ProcId} (h : q ≠ p) (x : Process) : (s.setProc p x).proc q = s.proc q := by
  simp [State.setProc, h]

@[simp]
theorem setThread_other {u : ThreadId} (h : u ≠ t) (x : Thread) : (s.setThread t x).thread u = s.thread u := by
  simp [State.setThread, h]

theorem mem_or [DecidableEq α] {l l' : List α} {a : α} {P : Prop} (ha : a ∈ l → P)
    (hb : ∀ b ∈ l, b ≠ a → b ∈ l') : ∀ b ∈ l, b = a ∧ P ∨ b ≠ a ∧ b ∈ l' := by
  intro b hmem
  by_cases hba : b = a
  · exact .inl ⟨hba, ha (hba ▸ hmem)⟩
  · exact .inr ⟨hba, hb b hmem hba⟩

theorem mem_other {l : List α} {a : α} {P : Prop} (ha : a ∉ l) : ∀ b ∈ l, b = a ∧ P ∨ b ≠ a ∧ b ∈ l :=
  fun _ hb => .inr ⟨fun hba => ha (hba ▸ hb), hb⟩

theorem update_none_of_ne (he : own e = some a) (hab : b ≠ a) (hk : own k = some b) : update own e none k = some b := by
  have hke : k ≠ e := by
    rintro rfl
    exact hab (Option.some.inj (hk.symm.trans he))
  rw [update_of_ne hke, hk]

theorem update_some_of_none (he : own e = none) (hk : own k = some b) : update own e (some a) k = some b := by
  have hke : k ≠ e := by
    rintro rfl
    rw [he] at hk
    cases hk
  rw [update_of_ne hke, hk]

theorem nodup_recycled {l : List α} {a : α} (h : (a :: l).Nodup) : (l ++ [a]).Nodup :=
  (List.perm_append_singleton a l).nodup_iff.mpr h

theorem nodup_concat {l : List α} {a : α} (h : l.Nodup) (ha : a ∉ l) : (l ++ [a]).Nodup :=
  nodup_recycled (List.nodup_cons.mpr ⟨ha, h⟩)

theorem allocProcess_none (h : allocProcess s parent = (u, none)) :
    u = s ∨ ∃ p rest, s.freeProcessList = p :: rest ∧
      u = { s with freeProcessList := rest ++ [p] }.setProc p Process.zero := by
  unfold allocProcess at h
  split at h
  · cases h
    exact .inl rfl
  rename_i p rest hl
  dsimp only at h
  split at h
  · cases h
    refine .inr ⟨p, rest, hl, ?_⟩
    simp [freeProcessStruct, State.setProc]
  · cases h

theorem allocProcess_some (h : allocProcess s parent = (u, some new)) :
    ∃ rest e free, s.freeProcessList = new :: rest ∧ s.ids.freePiddescList = e :: free ∧
      ∃ v : State, v = { s with
          freeProcessList := rest,
          ids := { s.ids with freePiddescList := free }.setDesc e { PidDesc.empty with proc := some new } }.setProc new
            { Process.zero with pid := e, parent := some parent, state := .init } ∧
        u = v.setProc parent { v.proc parent with childList := (v.proc parent).childList ++ [new] } := by
  unfold allocProcess at h
  split at h
  · cases h
  rename_i p rest hl
  unfold allocPidProc allocPid at h
  dsimp only at h
  split at h
  · cases h
  rename_i hpid
  split at hpid
  · cases hpid
  rename_i free hfree
  cases hpid
  cases h
  refine ⟨rest, _, free, hl, hfree, _, rfl, ?_⟩
  simp [State.setProc]

theorem allocThread_none (h : allocThread s = (u, none)) :
    u = s ∨ ∃ t rest, s.freeThreadList = t :: rest ∧
      u = { s with freeThreadList := rest ++ [t] }.setThread t Thread.zero := by
  unfold allocThread at h
  split at h
  · cases h
    exact .inl rfl
  rename_i t rest hl
  dsimp only at h
  split at h
  · cases h
    refine .inr ⟨t, rest, hl, ?_⟩
    simp [freeThreadStruct, State.setThread]
  · cases h

theorem allocThread_some (h : allocThread s = (u, some (t, tid))) :
    ∃ rest free, s.freeThreadList = t :: rest ∧ s.ids.freePiddescList = tid :: free ∧
      u = { s with
        freeThreadList := rest,
        ids := { s.ids with freePiddescList := free }.setDesc tid { PidDesc.empty with thread := some t } }.setThread t
          Thread.zero := by
  unfold allocThread at h
  split at h
  · cases h
  rename_i t rest hl
  unfold allocPidThread allocPid at h
  dsimp only at h
  split at h
  · cases h
  rename_i htid
  split at htid
  · cases htid
  rename_i free hfree
  cases htid
  cases h
  exact ⟨rest, free, hl, hfree, rfl⟩

structure Taken (cfg : Config) (s : State) (own : PidT → Option Holder) (t : ThreadId) (tid : PidT) : Prop where
  own : own tid = some (.thread t)
  state : (s.thread t).state = .free
  list : t ∉ s.freeThreadList
  bound : t < cfg.maxThread

def leftPgrp (x : Ids) (e : PidT) (i : PgrpId) (p : ProcId) : Ids :=
  freeDesc (dropPgrp (x.setPgrp i { x.pgrp i with processList := (x.pgrp i).processList.erase p }) e) e

def leftSession (x : Ids) (e : PidT) (i : SessionId) (p : ProcId) : Ids :=
  freeDesc (dropSession (x.setSession i { x.session i with processList := (x.session i).processList.erase p }) e) e

def Roll.left : Roll → Ids → PidT → Nat → ProcId → Ids
  | .group => leftPgrp
  | .session => leftSession

def Roll.idOf : Roll → Process → PidT
  | .group => Process.pgid
  | .session => Process.sid

def Roll.setId : Roll → Process → PidT → Process
  | .group, q, g => { q with pgid := g }
  | .session, q, g => { q with sid := g }

theorem Roll.idOf_setId_other {q r : Roll} (hq : q ≠ r) (x : Process) (g : PidT) : q.idOf (r.setId x g) = q.idOf x := by
  cases q <;> cases r <;> first | rfl | exact absurd rfl hq

def Roll.remove : Roll → Config → State → ProcId → State
  | .group => removeFromPgrp
  | .session => removeFromSession

theorem Roll.left_eq (r : Roll) (x : Ids) (e : PidT) (i : Nat) (p : ProcId) :
    r.left x e i p = freeDesc (r.drop (r.setList x i ((r.list x i).erase p)) e) e := by
  cases r <;> rfl

theorem Roll.left_freed (r : Roll) (i : Nat) (p : ProcId) (he : e ∉ x.freePiddescList) :
    Freed x (r.left x e i p) e := by
  have hl := r.quiet_setList x i ((r.list x i).erase p)
  have hq := hl.trans (r.quiet_drop (hl.list ▸ he))
  have hf := freeDesc_freed (hq.list ▸ he)
  rw [r.left_eq]
  refine ⟨fun k hk => ((hf.other k hk).trans (r.drop_other hk)).trans ?_, hf.bare, hq.list ▸ hf.list⟩
  cases r <;> rfl

theorem Table.leave (r : Roll) {i : Nat} (h : Table recorded x own) (hi : r.entry (x.pidTable e) = some i)
    (hfree : own e = none ∨ ¬ recorded ∧ (r.left x e i p).freePiddescList = x.freePiddescList) :
    Table recorded (r.left x e i p) own :=
  h.cleared (r.left_freed i p (h.notMem_of_entry r hi)) (h.notMem_of_entry r hi) hfree

theorem exitedChild_some (h : exitedChild s l = some p) : p ∈ l ∧ (s.proc p).state = .exited :=
  ⟨List.mem_of_find?_eq_some h, by simpa using List.find?_some h⟩

theorem waitSelect_some (h : waitSelect cfg s cur pid = .ok (some child)) :
    (s.proc child).state = .exited ∧ ((s.proc child).parent = some cur ∨ child ∈ (s.proc cur).childList) := by
  unfold waitSelect at h
  split at h
  · cases h
  split at h
  · split at h
    · split at h
      · rename_i q hq hpar
        obtain ⟨hmem, hs⟩ := exitedChild_some (Except.ok.inj h)
        rw [List.mem_singleton.mp hmem] at hs ⊢
        exact ⟨hs, .inl hpar⟩
      · cases h
    · cases h
  · split at h
    · split at h
      · cases h
      · obtain ⟨hmem, hs⟩ := exitedChild_some (Except.ok.inj h)
        exact ⟨hs, .inr hmem⟩
    · generalize (if pid = 0 then (s.proc cur).pgid else -pid) = pgid at h
      dsimp only at h
      split at h
      · cases h
      · obtain ⟨hmem, hs⟩ := exitedChild_some (Except.ok.inj h)
        exact ⟨hs, .inr (List.mem_of_mem_filter hmem)⟩

section

variable (cfg p)

theorem freePid_andThen (pid : PidT) (f : State → State) (hrun : s.panicked = false) :
    (freePid cfg s pid).andThen f = s.panic ∨
      (freePid cfg s pid).andThen f = f { s with ids := freeDesc s.ids pid } := by
  unfold freePid
  cases h : pidToPiddesc cfg pid with
  | none => exact .inl rfl
  | some e =>
    simp [State.andThen, hrun, pidToPiddesc_some h]

theorem freeProcess_cases (hrun : s.panicked = false) :
    freeProcess cfg s p = s.panic ∨ ∃ u : State, freeProcess cfg s p =
      { u with ids := freeDesc s.ids (s.proc p).pid, freeProcessList := u.freeProcessList ++ [p] }.setProc p
        Process.zero ∧
      ((s.proc p).parent = none ∧ u = s ∨ ∃ q, (s.proc p).parent = some q ∧
        u = s.setProc q { s.proc q with childList := (s.proc q).childList.erase p }) := by
  unfold freeProcess
  rcases freePid_andThen cfg (s.proc p).pid _ hrun with hfp | hfp
  · exact .inl hfp
  rw [hfp]
  cases hpar : (s.proc p).parent with
  | none => exact .inr ⟨s, rfl, .inl ⟨rfl, rfl⟩⟩
  | some q =>
    exact .inr ⟨s.setProc q { s.proc q with childList := (s.proc q).childList.erase p }, rfl,
      .inr ⟨q, rfl, rfl⟩⟩

theorem freeProcess_frame (hrun : s.panicked = false) :
    (freeProcess cfg s p).rootProcess = s.rootProcess ∧ (freeProcess cfg s p).thread = s.thread := by
  rcases freeProcess_cases cfg p hrun with hf | ⟨u, hf, ⟨-, rfl⟩ | ⟨q, -, rfl⟩⟩ <;> rw [hf] <;> exact ⟨rfl, rfl⟩

theorem freeThread_cases (t : ThreadId) (tid : PidT) (hrun : s.panicked = false) :
    abandonThread cfg s t tid = s.panic ∨ abandonThread cfg s t tid =
      { s with ids := freeDesc s.ids tid, freeThreadList := s.freeThreadList ++ [t] }.setThread t Thread.zero := by
  exact freePid_andThen cfg tid _ hrun

theorem detach_induction {P : State → Prop} (hs : P s)
    (hstep : ∀ u, P u → u.panicked = false → ∀ child ∈ (s.proc p).childList, P (detachChild cfg p u child)) :
    P (detachChildProcesses cfg s p) := by
  refine List.foldlRecOn (s.proc p).childList _ hs fun u hu child hchild => ?_
  unfold State.andThen
  split
  · exact hu
  · exact hstep u hu (by simp_all) child hchild

end

theorem detachChild_frame (cfg : Config) (child : ProcId) (hrun : s.panicked = false) :
    (detachChild cfg p s child).rootProcess = s.rootProcess ∧ (detachChild cfg p s child).thread = s.thread := by
  unfold detachChild
  dsimp only
  split
  · exact freeProcess_frame cfg child hrun
  · exact ⟨rfl, rfl⟩

section

variable (r : Roll) (cfg : Config) (s : State) (p : ProcId)

@[simp]
theorem setProc_self (x : Process) : (s.setProc p x).proc p = x := by
  simp [State.setProc]

@[simp]
theorem setThread_self (t : ThreadId) (x : Thread) : (s.setThread t x).thread t = x := by
  simp [State.setThread]

theorem Roll.idOf_setId (x : Process) (g : PidT) : r.idOf (r.setId x g) = g := by
  cases r <;> rfl

theorem Roll.setId_same (x : Process) (g : PidT) :
    (r.setId x g).state = x.state ∧ (r.setId x g).pid = x.pid ∧ (r.setId x g).exitInProgress = x.exitInProgress := by
  cases r <;> exact ⟨rfl, rfl, rfl⟩

theorem Roll.remove_cases :
    r.find cfg s.ids (r.idOf (s.proc p)) = none ∧ r.remove cfg s p = s ∨
    ∃ i, r.find cfg s.ids (r.idOf (s.proc p)) = some i ∧ r.remove cfg s p =
      { s with ids := r.left s.ids (r.idOf (s.proc p)) i p }.setProc p (r.setId (s.proc p) invalidPid) := by
  cases r
  all_goals
    simp only [Roll.remove, removeFromPgrp, removeFromSession, Roll.find, getPgrp, getSession, Roll.idOf]
    split
    · exact .inl ⟨rfl, rfl⟩
    rename_i e he
    cases pidToPiddesc_some he
    split
    · rename_i hi
      exact .inl ⟨hi, rfl⟩
    · rename_i i hi
      refine .inr ⟨i, hi, ?_⟩
      simp [freePid, he, Roll.left, leftPgrp, leftSession, Roll.setId]

theorem sysSetpgrp_cases :
    (sysSetpgrp cfg s p).1 = s ∧ (s.proc p).pgid = (s.proc p).pid ∨ ∃ u, u = removeFromPgrp cfg s p ∧
      (s.proc p).pgid ≠ (s.proc p).pid ∧
      (allocPgrp u.ids = none ∧ (sysSetpgrp cfg s p).1 = u.setProc p { u.proc p with pgid := (s.proc p).pid } ∨
      ∃ i y, allocPgrp u.ids = some (i, y) ∧ (sysSetpgrp cfg s p).1 =
        { u with ids := (y.setPgrp i ⟨(u.proc p).sid, [p]⟩).setDesc (s.proc p).pid
                          { y.pidTable (s.proc p).pid with pgrp := some i } }.setProc p
          { u.proc p with pgid := (s.proc p).pid }) := by
  unfold sysSetpgrp
  dsimp only
  split
  · rename_i heq
    exact .inl ⟨rfl, heq⟩
  rename_i hne
  have hleave : (if (s.proc p).pgid ≠ invalidPid then removeFromPgrp cfg s p else s) = removeFromPgrp cfg s p := by
    split
    · rfl
    rename_i hinv
    rw [not_not] at hinv
    rw [removeFromPgrp, hinv]
    rfl
  rw [hleave]
  refine .inr ⟨_, rfl, hne, ?_⟩
  cases ha : allocPgrp (removeFromPgrp cfg s p).ids with
  | none => exact .inl ⟨rfl, by simp [State.setProc, ha]⟩
  | some r => exact .inr ⟨r.1, r.2, rfl, by simp [State.setProc, ha, Ids.setPgrp]⟩

theorem sysSetsid_cases : (∃ err, sysSetsid cfg s p = (s, .error err)) ∨ ∃ u,
      u = leaveOld cfg s p ∧ (s.proc p).sid ≠ (s.proc p).pid ∧ (s.proc p).pgid ≠ (s.proc p).pid ∧
      (allocSession u.ids = none ∧ sysSetsid cfg s p = (u, .error .enomem) ∨
      ∃ i y v, allocSession u.ids = some (i, y) ∧
        v = { u with ids := y.setSession i ⟨(s.proc p).pid, [p]⟩ }.setProc p
          { u.proc p with sid := (s.proc p).pid, pgid := invalidPid } ∧
        (pidToPiddesc cfg (s.proc p).pid = none ∧ sysSetsid cfg s p = (v.panic, .ok (s.proc p).pid) ∨
        pidToPiddesc cfg (s.proc p).pid = some (s.proc p).pid ∧ sysSetsid cfg s p =
          ({ v with ids := v.ids.setDesc (s.proc p).pid
                            { v.ids.pidTable (s.proc p).pid with session := some i, pgrp := none } },
            .ok (s.proc p).pid))) := by
  unfold sysSetsid
  dsimp only
  split
  · exact .inl ⟨_, rfl⟩
  split
  · exact .inl ⟨_, rfl⟩
  rename_i hsid hpgid
  refine .inr ⟨_, rfl, hsid, hpgid, ?_⟩
  generalize leaveOld cfg s p = u
  cases ha : allocSession u.ids with
  | none => exact .inl ⟨rfl, rfl⟩
  | some r =>
    refine .inr ⟨r.1, r.2, _, rfl, rfl, ?_⟩
    cases he : pidToPiddesc cfg (s.proc p).pid with
    | none => exact .inl ⟨rfl, by simp⟩
    | some e =>
      cases pidToPiddesc_some he
      exact .inr ⟨rfl, by simp [State.setProc]⟩

theorem Roll.remove_shape : ∃ y g, r.remove cfg s p = { s with ids := y }.setProc p (r.setId (s.proc p) g) := by
  rcases r.remove_cases cfg s p with ⟨-, hr⟩ | ⟨i, -, hr⟩
  · refine ⟨s.ids, r.idOf (s.proc p), hr.trans ?_⟩
    cases r <;> simp [State.setProc, Roll.setId, Roll.idOf]
  · exact ⟨_, _, hr⟩

theorem removeFromPgrp_shape :
    ∃ y pgid, removeFromPgrp cfg s p = { s with ids := y }.setProc p { s.proc p with pgid := pgid } :=
  Roll.group.remove_shape cfg s p

theorem finiSessionPgrp_shape :
    ∃ y sid pgid, finiSessionPgrp cfg s p =
      { s with ids := y }.setProc p { s.proc p with sid := sid, pgid := pgid } := by
  obtain ⟨y, pgid, hy⟩ := removeFromPgrp_shape cfg s p
  obtain ⟨z, sid, hz⟩ := Roll.session.remove_shape cfg (removeFromPgrp cfg s p) p
  refine ⟨z, sid, pgid, hz.trans ?_⟩
  rw [hy]
  simp [State.setProc, Roll.setId]

end

theorem setProc_cases {x : Process} (P : ProcId → Process → Prop) (hp : P p x) (hother : ∀ q, q ≠ p → P q (s.proc q))
    (q : ProcId) : P q ((s.setProc p x).proc q) := by
  by_cases hqp : q = p
  · rw [hqp, setProc_self]
    exact hp
  · rw [setProc_other hqp]
    exact hother q hqp

theorem setThread_cases {x : Thread} (P : ThreadId → Thread → Prop) (ht : P t x)
    (hother : ∀ v, v ≠ t → P v (s.thread v)) (v : ThreadId) : P v ((s.setThread t x).thread v) := by
  by_cases hvt : v = t
  · rw [hvt, setThread_self]
    exact ht
  · rw [setThread_other hvt]
    exact hother v hvt

theorem children_same (q : ProcId) (l : List ProcId) (p : ProcId) :
    ((s.setProc q { s.proc q with childList := l }).proc p).state = (s.proc p).state ∧
      ((s.setProc q { s.proc q with childList := l }).proc p).threadList = (s.proc p).threadList :=
  setProc_cases (x := { s.proc q with childList := l })
    (fun w z => z.state = (s.proc w).state ∧ z.threadList = (s.proc w).threadList) ⟨rfl, rfl⟩ (fun _ _ => ⟨rfl, rfl⟩) p

theorem doExitThread_cases (s : State) (c : ThreadId) (p : ProcId) :
    (∃ x : Process, x.threadList = (s.proc p).threadList.erase c ∧
      (x.threadList = [] ∧ x = { s.proc p with threadList := x.threadList, state := .exited } ∨
        x.threadList ≠ [] ∧ x = { s.proc p with threadList := x.threadList }) ∧
      doExitThread s c p =
        ({ s with threadReaperDetachedThreadList := s.threadReaperDetachedThreadList ++ [c] }.setThread c
          { s.thread c with detached := true, process := some s.rootProcess, state := .exited }).setProc p x) ∨
    (s.proc p).threadList.erase c ≠ [] ∧
      doExitThread s c p = (s.setThread c { s.thread c with state := .exited }).setProc p
        { s.proc p with threadList := (s.proc p).threadList.erase c ++ [c] } := by
  unfold doExitThread
  by_cases hl : (s.proc p).threadList.erase c = []
  · left
    refine ⟨{ s.proc p with threadList := (s.proc p).threadList.erase c, state := .exited }, rfl,
      .inl ⟨hl, rfl⟩, ?_⟩
    simp [hl, State.setProc, State.setThread]
  · by_cases hd : (s.thread c).detached = true
    · left
      refine ⟨{ s.proc p with threadList := (s.proc p).threadList.erase c }, rfl, .inr ⟨hl, rfl⟩, ?_⟩
      simp [hl, hd, State.setProc, State.setThread]
    · simp [hl, hd, State.setProc, State.setThread]

namespace Inv

variable (h : Inv cfg recorded s own) (hrun : s.panicked = false) (hc : (s.thread c).state = .init)
  (hp : (s.thread c).process = some p)
include h

theorem setIds (hy : Table recorded y own) : Inv cfg recorded { s with ids := y } own :=
  ⟨hy, h.procs, h.threads, h.kin.setIds y⟩

theorem panic : Inv cfg recorded s.panic own :=
  ⟨h.table, h.procs, h.threads, { h.kin with }⟩

theorem setPhase (c : ThreadId) (ph : Phase) : Inv cfg recorded (s.setPhase c ph) own :=
  ⟨h.table, h.procs, h.threads, { h.kin with }⟩

theorem changeProc {x : Process} (hy : Table recorded y own')
    (hkeep : ∀ k a, a ≠ .proc p → own k = some a → own' k = some a)
    (hx : x.state ≠ .free → own' x.pid = some (.proc p))
    (hmember : ∀ t, (s.thread t).state = .init → (s.thread t).process = some p →
      p = s.rootProcess ∨ t ∈ x.threadList)
    (hended : p ≠ s.rootProcess → x.state ≠ .init → x.threadList = [])
    (hroot : p = s.rootProcess → x.state ≠ .free ∧ x.parent = none) (hchild : s.rootProcess ∉ x.childList)
    (hl : ∀ q ∈ l, q = p ∧ x.state = .free ∨ q ≠ p ∧ q ∈ s.freeProcessList) (hnodup : l.Nodup)
    (hbound : x.state ≠ .free ∨ p ∈ l → p < cfg.maxProcess) :
    Inv cfg recorded ({ s with ids := y, freeProcessList := l }.setProc p x) own' := by
  refine ⟨hy, ?_, ?_, ?_⟩
  · refine setProc_cases (fun q z => z.state ≠ .free → own' z.pid = some (.proc q)) hx ?_
    intro q hqp hq
    exact hkeep _ _ (by simpa using hqp) (h.procs q hq)
  · intro t ht
    exact hkeep _ _ (by simp) (h.threads t ht)
  · refine { h.kin with
      member := ?_, ended := ?_, root := ?_, orphan := ?_, child := ?_, freeProcs := ?_, procsNodup := hnodup, procsBound := ?_ }
    · intro t q ht
      exact setProc_cases (fun q z => (s.thread t).process = some q → q = s.rootProcess ∨ t ∈ z.threadList)
        (hmember t ht) (fun q _ => h.kin.member t q ht) q
    · exact setProc_cases (fun q z => q ≠ s.rootProcess → z.state ≠ .init → z.threadList = []) hended
        fun q _ => h.kin.ended q
    · exact setProc_cases (fun q z => q = s.rootProcess → z.state ≠ .free) (fun hr => (hroot hr).1)
        (fun _ _ hr => hr ▸ h.kin.root) s.rootProcess rfl
    · exact setProc_cases (fun q z => q = s.rootProcess → z.parent = none) (fun hr => (hroot hr).2)
        (fun _ _ hr => hr ▸ h.kin.orphan) s.rootProcess rfl
    · exact setProc_cases (fun _ z => s.rootProcess ∉ z.childList) hchild fun q _ => h.kin.child q
    · refine setProc_cases (fun q z => q ∈ l → z.state = .free) ?_ ?_
      · exact fun hp => ((hl p hp).resolve_right fun hc => hc.1 rfl).2
      · exact fun q hqp hq => h.kin.freeProcs q ((hl q hq).resolve_left fun hc => hqp hc.1).2
    · refine setProc_cases (fun q z => z.state ≠ .free ∨ q ∈ l → q < cfg.maxProcess) hbound ?_
      intro q hqp hq
      exact h.kin.procsBound q (hq.imp id fun hmem => ((hl q hmem).resolve_left fun hc => hqp hc.1).2)

theorem changeThread {x : Thread} {l : List ThreadId} (hy : Table recorded y own')
    (hkeep : ∀ k a, a ≠ .thread t → own k = some a → own' k = some a)
    (hx : x.state ≠ .free → own' x.tid = some (.thread t))
    (hmember : x.state = .init → ∀ p, x.process = some p → p = s.rootProcess ∨ t ∈ (s.proc p).threadList)
    (hl : ∀ u ∈ l, u = t ∧ x.state = .free ∨ u ≠ t ∧ u ∈ s.freeThreadList) (hnodup : l.Nodup)
    (hr : ∀ u ∈ r, u = t ∧ x.state = .exited ∧ x.detached = true ∨ u ≠ t ∧ u ∈ s.threadReaperDetachedThreadList)
    (hreap : r.Nodup) (hbound : x.state ≠ .free ∨ t ∈ l → t < cfg.maxThread) :
    Inv cfg recorded ({ s with ids := y, freeThreadList := l, threadReaperDetachedThreadList := r }.setThread t x) own' := by
  refine ⟨hy, ?_, ?_, ?_⟩
  · intro q hq
    exact hkeep _ _ (by simp) (h.procs q hq)
  · refine setThread_cases (fun u z => z.state ≠ .free → own' z.tid = some (.thread u)) hx ?_
    intro u hut hu
    exact hkeep _ _ (by simpa using hut) (h.threads u hu)
  · refine { h.kin with
      member := ?_, freeThreads := ?_, threadsNodup := hnodup, reaped := ?_, reapedNodup := hreap, threadsBound := ?_ }
    · exact setThread_cases (fun u z => ∀ q, z.state = .init → z.process = some q →
        q = s.rootProcess ∨ u ∈ (s.proc q).threadList) (fun q hu => hmember hu q) fun u _ => h.kin.member u
    · refine setThread_cases (fun u z => u ∈ l → z.state = .free) ?_ ?_
      · exact fun ht => ((hl t ht).resolve_right fun hc => hc.1 rfl).2
      · exact fun u hut hu => h.kin.freeThreads u ((hl u hu).resolve_left fun hc => hut hc.1).2
    · refine setThread_cases (fun u z => u ∈ r → z.state = .exited ∧ z.detached = true) ?_ ?_
      · exact fun ht => ((hr t ht).resolve_right fun hc => hc.1 rfl).2
      · exact fun u hut hu => h.kin.reaped u ((hr u hu).resolve_left fun hc => hut hc.1).2
    · refine setThread_cases (fun u z => z.state ≠ .free ∨ u ∈ l → u < cfg.maxThread) hbound ?_
      intro u hut hu
      exact h.kin.threadsBound u (hu.imp id fun hmem => ((hl u hmem).resolve_left fun hc => hut hc.1).2)

theorem notMem_freeProcs (hp : (s.proc p).state ≠ .free) : p ∉ s.freeProcessList :=
  fun hmem => hp (h.kin.freeProcs p hmem)

theorem notMem_freeThreads (ht : (s.thread t).state ≠ .free) : t ∉ s.freeThreadList :=
  fun hmem => ht (h.kin.freeThreads t hmem)

theorem notMem_reaped (ht : (s.thread t).state ≠ .exited) : t ∉ s.threadReaperDetachedThreadList :=
  fun hmem => ht (h.kin.reaped t hmem).1

theorem setProc {x : Process} (hpid : x.pid = (s.proc p).pid)
    (hstate : x.state = (s.proc p).state) (hthreads : x.threadList = (s.proc p).threadList)
    (hparent : p = s.rootProcess → x.parent = none) (hchild : s.rootProcess ∉ x.childList) :
    Inv cfg recorded (s.setProc p x) own := by
  apply h.changeProc h.table (fun _ _ _ hk => hk)
  · rw [hpid, hstate]
    exact h.procs p
  · rw [hthreads]
    exact fun t ht hp => h.kin.member t p ht hp
  · rw [hthreads, hstate]
    exact h.kin.ended p
  · rintro rfl
    exact ⟨hstate ▸ h.kin.root, hparent rfl⟩
  · exact hchild
  · exact mem_or (fun hp => hstate.trans (h.kin.freeProcs p hp)) fun _ hq _ => hq
  · exact h.kin.procsNodup
  · rw [hstate]
    exact h.kin.procsBound p

theorem retireProc (he : own e = some (.proc p))
    (hlist : p ∉ s.freeProcessList) (hroot : p ≠ s.rootProcess) (hthreads : (s.proc p).threadList = [])
    (hbound : p < cfg.maxProcess) (hf : Freed s.ids y e) :
    Inv cfg recorded ({ s with ids := y, freeProcessList := s.freeProcessList ++ [p] }.setProc p Process.zero)
      (update own e none) := by
  apply h.changeProc (h.table.freed hf (h.table.notMem_of_own he)) fun _ _ ha hk => update_none_of_ne he ha hk
  · exact fun hs => absurd rfl hs
  · intro t ht hp
    refine (h.kin.member t p ht hp).imp id ?_
    simp [hthreads]
  · exact fun _ _ => rfl
  · exact fun hr => absurd hr hroot
  · exact List.not_mem_nil
  · exact mem_or (fun _ => rfl) fun q hq hqp => by simpa [hqp] using hq
  · exact nodup_concat h.kin.procsNodup hlist
  · exact fun _ => hbound

theorem retireThread (he : own e = some (.thread t))
    (hlist : t ∉ s.freeThreadList) (hreap : t ∉ s.threadReaperDetachedThreadList)
    (hbound : t < cfg.maxThread) (hf : Freed s.ids y e) :
    Inv cfg recorded ({ s with ids := y, freeThreadList := s.freeThreadList ++ [t] }.setThread t Thread.zero)
      (update own e none) := by
  apply h.changeThread (h.table.freed hf (h.table.notMem_of_own he)) fun _ _ ha hk => update_none_of_ne he ha hk
  · exact fun hs => absurd rfl hs
  · exact fun hs => nomatch hs
  · exact mem_or (fun _ => rfl) fun u hu hut => by simpa [hut] using hu
  · exact nodup_concat h.kin.threadsNodup hlist
  · exact mem_other hreap
  · exact h.kin.reapedNodup
  · exact fun _ => hbound

theorem unlist (q p : ProcId) :
    Inv cfg recorded (s.setProc q { s.proc q with childList := (s.proc q).childList.erase p }) own := by
  refine h.setProc rfl rfl rfl ?_ fun hmem => h.kin.child q (List.mem_of_mem_erase hmem)
  rintro rfl
  exact h.kin.orphan

theorem enlist (q : ProcId) (hp : p ≠ s.rootProcess) :
    Inv cfg recorded (s.setProc q { s.proc q with childList := (s.proc q).childList ++ [p] }) own := by
  refine h.setProc rfl rfl rfl ?_ ?_
  · rintro rfl
    exact h.kin.orphan
  intro hmem
  rcases List.mem_append.mp hmem with hmem | hmem
  · exact h.kin.child q hmem
  · exact hp (List.mem_singleton.mp hmem).symm

theorem ne_root (hp : (s.proc p).state = .free) : p ≠ s.rootProcess := by
  rintro rfl
  exact h.kin.root hp

theorem allocProcess_none (hu : allocProcess s parent = (u, none)) : Inv cfg recorded u own := by
  rcases Procs.allocProcess_none hu with rfl | ⟨p, rest, hl, rfl⟩
  · exact h
  have hfree : (s.proc p).state = .free := h.kin.freeProcs p (by simp [hl])
  have hthreads := h.kin.ended p (h.ne_root hfree) (by simp [hfree])
  apply h.changeProc h.table (fun _ _ _ hk => hk)
  · exact fun hs => absurd rfl hs
  · intro t ht hp
    refine (h.kin.member t p ht hp).imp id ?_
    simp [hthreads]
  · exact fun _ _ => rfl
  · exact fun hr => absurd hr (h.ne_root hfree)
  · exact List.not_mem_nil
  · exact mem_or (fun _ => rfl) fun q hq hqp => by simpa [hl, hqp] using hq
  · exact nodup_recycled (hl ▸ h.kin.procsNodup)
  · exact fun _ => h.kin.procsBound p (.inr (by simp [hl]))

protected theorem allocProcess_some
    (hpar : (s.proc parent).state ≠ .free) (hu : allocProcess s parent = (u, some new)) :
    (∃ own', Inv cfg recorded u own') ∧ new ≠ u.rootProcess ∧ new ≠ parent ∧ (u.proc new).state = .init ∧
      (u.proc new).threadList = [] ∧ u.panicked = s.panicked := by
  obtain ⟨rest, e, free, hl, hfree, v, hv, rfl⟩ := allocProcess_some hu
  have hnew : (s.proc new).state = .free := h.kin.freeProcs new (by simp [hl])
  have hroot := h.ne_root hnew
  have hne : new ≠ parent := by
    rintro rfl
    exact hpar hnew
  have hthreads := h.kin.ended new hroot (by simp [hnew])
  have hnodup := List.nodup_cons.mp (hl ▸ h.kin.procsNodup)
  have hown : own e = none := h.table.unowned e (by simp [hfree])
  have hinv : Inv cfg recorded v (update own e (some (.proc new))) := by
    rw [hv]
    apply h.changeProc (h.table.alloc hfree (fun p hp => by simpa using hp) (fun t ht => by cases ht))
      fun _ _ _ hk => update_some_of_none hown hk
    · exact fun _ => update_self ..
    · intro t ht hp
      refine (h.kin.member t new ht hp).imp id ?_
      simp [hthreads]
    · exact fun _ _ => rfl
    · exact fun hr => absurd hr hroot
    · exact List.not_mem_nil
    · intro q hq
      exact .inr ⟨fun hqn => hnodup.1 (hqn ▸ hq), hl ▸ List.mem_cons_of_mem new hq⟩
    · exact hnodup.2
    · exact fun _ => h.kin.procsBound new (.inr (by simp [hl]))
  subst hv
  refine ⟨⟨_, hinv.enlist parent hroot⟩, hroot, hne, ?_, ?_, rfl⟩
  · rw [setProc_other hne, setProc_self]
  · rw [setProc_other hne, setProc_self]
    rfl

theorem allocThread_none (hu : allocThread s = (u, none)) : Inv cfg recorded u own := by
  rcases Procs.allocThread_none hu with rfl | ⟨t, rest, hl, rfl⟩
  · exact h
  have hfree : (s.thread t).state = .free := h.kin.freeThreads t (by simp [hl])
  apply h.changeThread h.table (fun _ _ _ hk => hk)
  · exact fun hs => absurd rfl hs
  · exact fun hs => nomatch hs
  · exact mem_or (fun _ => rfl) fun u hu hut => by simpa [hl, hut] using hu
  · exact nodup_recycled (hl ▸ h.kin.threadsNodup)
  · exact mem_other (h.notMem_reaped (by simp [hfree]))
  · exact h.kin.reapedNodup
  · exact fun _ => h.kin.threadsBound t (.inr (by simp [hl]))

theorem allocThread_some (hu : allocThread s = (u, some (t, tid))) :
    ∃ own', Inv cfg recorded u own' ∧ Taken cfg u own' t tid ∧ u.proc = s.proc ∧ u.rootProcess = s.rootProcess ∧
      u.panicked = s.panicked := by
  obtain ⟨rest, free, hl, hfree, rfl⟩ := Procs.allocThread_some hu
  have hnew : (s.thread t).state = .free := h.kin.freeThreads t (by simp [hl])
  have hnodup := List.nodup_cons.mp (hl ▸ h.kin.threadsNodup)
  have hbound := h.kin.threadsBound t (.inr (by simp [hl]))
  have hown : own tid = none := h.table.unowned tid (by simp [hfree])
  refine ⟨update own tid (some (.thread t)), ?_, ⟨update_self .., ?_, hnodup.1, hbound⟩, rfl, rfl, rfl⟩
  · apply h.changeThread (h.table.alloc hfree (fun p hp => by cases hp) (fun t ht => by simpa using ht))
      fun _ _ _ hk => update_some_of_none hown hk
    · exact fun hs => absurd rfl hs
    · exact fun hs => nomatch hs
    · intro u hu
      exact .inr ⟨fun hut => hnodup.1 (hut ▸ hu), hl ▸ List.mem_cons_of_mem t hu⟩
    · exact hnodup.2
    · exact mem_other (h.notMem_reaped (by simp [hnew]))
    · exact h.kin.reapedNodup
    · exact fun _ => h.kin.threadsBound t (.inr (by simp [hl]))
  · rw [setThread_self]
    rfl

theorem initThread (ht : Taken cfg s own t tid) (detached : Bool)
    (hp : p = s.rootProcess ∨ (s.proc p).state = .init) : Inv cfg recorded (initThread s p t tid detached) own := by
  have hproc : Inv cfg recorded (s.setProc p { s.proc p with threadList := (s.proc p).threadList ++ [t] }) own := by
    apply h.changeProc h.table (fun _ _ _ hk => hk)
    · exact h.procs p
    · intro u hu hup
      exact (h.kin.member u p hu hup).imp id (List.mem_append_left [t])
    · intro hroot hs
      exact absurd (hp.resolve_left hroot) hs
    · rintro rfl
      exact ⟨h.kin.root, h.kin.orphan⟩
    · exact h.kin.child p
    · exact mem_or (h.kin.freeProcs p) fun _ hq _ => hq
    · exact h.kin.procsNodup
    · exact h.kin.procsBound p
  refine Inv.setPhase ?_ t .running
  apply hproc.changeThread hproc.table (fun _ _ _ hk => hk)
  · exact fun _ => ht.own
  · rintro - q hq
    cases hq
    right
    rw [setProc_self]
    exact List.mem_append_right _ (List.mem_singleton_self t)
  · exact mem_other ht.list
  · exact h.kin.threadsNodup
  · exact mem_other (h.notMem_reaped (by simp [ht.state]))
  · exact h.kin.reapedNodup
  · exact fun _ => ht.bound

theorem setMembership (p : ProcId) (sid pgid : PidT) (exiting : Bool) :
    Inv cfg recorded (s.setProc p { s.proc p with sid := sid, pgid := pgid, exitInProgress := exiting }) own := by
  refine h.setProc rfl rfl rfl ?_ (h.kin.child p)
  rintro rfl
  exact h.kin.orphan

theorem setId (r : Roll) (p : ProcId) (g : PidT) : Inv cfg recorded (s.setProc p (r.setId (s.proc p) g)) own := by
  cases r <;> exact h.setMembership p _ _ _

theorem remove (r : Roll)
    (hfree : ∀ i, r.find cfg s.ids (r.idOf (s.proc p)) = some i → own (r.idOf (s.proc p)) = none ∨
      ¬ recorded ∧ (r.left s.ids (r.idOf (s.proc p)) i p).freePiddescList = s.ids.freePiddescList) :
    Inv cfg recorded (r.remove cfg s p) own := by
  rcases r.remove_cases cfg s p with ⟨-, hr⟩ | ⟨i, hi, hr⟩
  · rw [hr]
    exact h
  · rw [hr]
    exact (h.setIds (h.table.leave r (r.find_some hi).2 (hfree i hi))).setId r p _

theorem forkSessionPgrp (new old : ProcId) : Inv cfg recorded (forkSessionPgrp cfg s new old) own :=
  (h.setMembership new _ _ _).setIds
    (h.table.quiet ((Roll.session.quiet_join _ _ _ _).trans (Roll.group.quiet_join _ _ _ _)))

theorem sysSetpgid (cur : ProcId) (pid pgid : PidT) : Inv cfg recorded (sysSetpgid cfg s cur pid pgid).1 own := by
  unfold Procs.sysSetpgid
  repeat' split
  all_goals first | exact h | exact h.setMembership _ _ _ _

theorem sysSetpgrp (hp : (s.proc p).state ≠ .free)
    (hleave : (s.proc p).pgid ≠ (s.proc p).pid → ∃ own', Inv cfg recorded (removeFromPgrp cfg s p) own') :
    ∃ own', Inv cfg recorded (sysSetpgrp cfg s p).1 own' := by
  rcases sysSetpgrp_cases cfg s p with ⟨hs, -⟩ | ⟨u, hu, hne, hs⟩
  · rw [hs]
    exact ⟨own, h⟩
  obtain ⟨own', hinv⟩ := hleave hne
  obtain ⟨y, pgid, hy⟩ := removeFromPgrp_shape cfg s p
  rw [← hu] at hinv hy
  have hproc : (u.proc p).state = (s.proc p).state ∧ (u.proc p).pid = (s.proc p).pid := by
    rw [hy, setProc_self]
    exact ⟨rfl, rfl⟩
  rcases hs with ⟨-, hs⟩ | ⟨i, z, ha, hs⟩
  · exact ⟨own', hs ▸ hinv.setMembership p _ _ _⟩
  have hq := (Roll.group.quiet_alloc ha).1.trans (quiet_setPgrp z i ⟨(u.proc p).sid, [p]⟩)
  have hown := hinv.table.notMem_of_own (hinv.procs p (hproc.1 ▸ hp))
  rw [hproc.2] at hown
  rw [hs]
  exact ⟨own', (hinv.setIds (hinv.table.quiet
    (hq.trans (quiet_setDesc (by rfl) (by rfl) (hq.list ▸ hown))))).setMembership p _ _ _⟩

theorem sysSetsid (hp : (s.proc p).state ≠ .free)
    (hleave : (s.proc p).sid ≠ (s.proc p).pid → (s.proc p).pgid ≠ (s.proc p).pid →
      getSession cfg s.ids (s.proc p).sid ≠ none → ∃ own', Inv cfg recorded (finiSessionPgrp cfg s p) own') :
    ∃ own', Inv cfg recorded (sysSetsid cfg s p).1 own' := by
  rcases sysSetsid_cases cfg s p with ⟨err, hs⟩ | ⟨u, hu, hsid, hpgid, hs⟩
  · rw [hs]
    exact ⟨own, h⟩
  obtain ⟨own', hinv, hproc⟩ : ∃ own', Inv cfg recorded u own' ∧
      (u.proc p).state = (s.proc p).state ∧ (u.proc p).pid = (s.proc p).pid := by
    rw [hu, leaveOld]
    split
    · rename_i hi
      obtain ⟨own', hinv⟩ := hleave hsid hpgid (by simp [hi])
      obtain ⟨y, sid, pgid, hy⟩ := finiSessionPgrp_shape cfg s p
      refine ⟨own', hinv, ?_⟩
      rw [show removeFromSession cfg (removeFromPgrp cfg s p) p = _ from hy, setProc_self]
      exact ⟨rfl, rfl⟩
    · exact ⟨own, h, rfl, rfl⟩
  rcases hs with ⟨-, hs⟩ | ⟨i, y, v, ha, rfl, hs⟩
  · rw [hs]
    exact ⟨own', hinv⟩
  have hq := (Roll.session.quiet_alloc ha).1.trans (quiet_setSession y i ⟨(s.proc p).pid, [p]⟩)
  rcases hs with ⟨-, hs⟩ | ⟨-, hs⟩
  · rw [hs]
    exact ⟨own', ((hinv.setIds (hinv.table.quiet hq)).setMembership p _ _ _).panic⟩
  · have hown := hinv.table.notMem_of_own (hinv.procs p (hproc.1 ▸ hp))
    rw [hproc.2] at hown
    rw [hs]
    exact ⟨own', (hinv.setIds (hinv.table.quiet
      (hq.trans (quiet_setDesc (by rfl) (by rfl) (hq.list ▸ hown))))).setMembership p _ _ _⟩

theorem exitProc {x : Process} (hp : (s.proc p).state ≠ .free)
    (hc : (s.thread c).state ≠ .init) (hmem : ∀ u, u ≠ c → u ∈ (s.proc p).threadList → u ∈ x.threadList)
    (hstate : x.state = .exited ∧ x.threadList = [] ∨
      x.state = (s.proc p).state ∧ ((s.proc p).threadList = [] → x.threadList = []))
    (hpid : x.pid = (s.proc p).pid) (hparent : x.parent = (s.proc p).parent)
    (hchild : x.childList = (s.proc p).childList) : Inv cfg recorded (s.setProc p x) own := by
  apply h.changeProc h.table (fun _ _ _ hk => hk)
  · exact fun _ => hpid ▸ h.procs p hp
  · intro u hu hup
    refine (h.kin.member u p hu hup).imp id (hmem u ?_)
    rintro rfl
    exact hc hu
  · intro hroot hs
    rcases hstate with ⟨-, hl⟩ | ⟨hs', hl⟩
    · exact hl
    · exact hl (h.kin.ended p hroot (hs' ▸ hs))
  · rintro rfl
    refine ⟨?_, hparent ▸ h.kin.orphan⟩
    rcases hstate with ⟨hs, -⟩ | ⟨hs, -⟩
    · simp [hs]
    · exact hs ▸ hp
  · exact hchild ▸ h.kin.child p
  · exact mem_other (h.notMem_freeProcs hp)
  · exact h.kin.procsNodup
  · exact fun _ => h.kin.procsBound p (.inl hp)

theorem waitSelect_ne_root (hsel : waitSelect cfg s cur pid = .ok (some child)) : child ≠ s.rootProcess := by
  rintro rfl
  rcases (waitSelect_some hsel).2 with hpar | hmem
  · simp [h.kin.orphan] at hpar
  · exact h.kin.child cur hmem

include hrun

theorem freeProcess (hp : (s.proc p).state ≠ .free)
    (hroot : p ≠ s.rootProcess) (hthreads : (s.proc p).threadList = []) :
    ∃ own', Inv cfg recorded (freeProcess cfg s p) own' := by
  have hown := h.procs p hp
  have hlist := h.notMem_freeProcs hp
  have hbound := h.kin.procsBound p (.inl hp)
  have hfreed := freeDesc_freed (h.table.notMem_of_own hown)
  rcases freeProcess_cases cfg p hrun with hf | ⟨u, hf, ⟨-, rfl⟩ | ⟨q, -, rfl⟩⟩
  · exact ⟨own, hf ▸ h.panic⟩
  · exact ⟨_, hf ▸ h.retireProc hown hlist hroot hthreads hbound hfreed⟩
  · refine ⟨_, hf ▸ (h.unlist q p).retireProc hown hlist hroot ?_ hbound hfreed⟩
    exact (children_same q ((s.proc q).childList.erase p) p).2.trans hthreads

theorem abandonThread (hown : own tid = some (.thread t)) (hlist : t ∉ s.freeThreadList)
    (hreap : t ∉ s.threadReaperDetachedThreadList) (hbound : t < cfg.maxThread) :
    ∃ own', Inv cfg recorded (abandonThread cfg s t tid) own' := by
  rcases freeThread_cases cfg t tid hrun with hf | hf
  · exact ⟨own, hf ▸ h.panic⟩
  · exact ⟨_, hf ▸ h.retireThread hown hlist hreap hbound (freeDesc_freed (h.table.notMem_of_own hown))⟩

theorem freeThread (ht : (s.thread t).state ≠ .free)
    (hreap : t ∉ s.threadReaperDetachedThreadList) : ∃ own', Inv cfg recorded (freeThread cfg s t) own' :=
  h.abandonThread hrun (h.threads t ht) (h.notMem_freeThreads ht) hreap (h.kin.threadsBound t (.inl ht))

theorem taken_abandon
    (ht : Taken cfg s own t tid) : ∃ own', Inv cfg recorded (Procs.abandonThread cfg s t tid) own' :=
  h.abandonThread hrun ht.own ht.list (h.notMem_reaped (by simp [ht.state])) ht.bound

theorem doCreateThread (detached stackOk : Bool) (hp : p = s.rootProcess ∨ (s.proc p).state = .init) :
    ∃ own', Inv cfg recorded (doCreateThread cfg s p detached stackOk) own' := by
  unfold Procs.doCreateThread
  split
  · rename_i u hu
    exact ⟨own, h.allocThread_none hu⟩
  rename_i u t tid hu
  obtain ⟨own', hinv, htaken, hproc, hroot, hpan⟩ := h.allocThread_some hu
  split
  · exact ⟨own', hinv.initThread htaken detached (by rwa [hproc, hroot])⟩
  · exact hinv.taken_abandon (hpan.trans hrun) htaken

protected theorem detachChild
    (hchild : child ≠ s.rootProcess) : ∃ own', Inv cfg recorded (detachChild cfg p s child) own' := by
  have hinv := h.unlist p child
  unfold detachChild
  dsimp only
  split
  · rename_i hs
    exact hinv.freeProcess hrun (by simp [hs]) hchild (hinv.kin.ended child hchild (by simp [hs]))
  · refine ⟨own, (hinv.enlist s.rootProcess hchild).setProc rfl rfl rfl ?_ (Kin.child (hinv.enlist _ hchild).kin child)⟩
    exact fun hr => absurd hr hchild

theorem joinFinish
    (hp : (s.proc p).state ≠ .free) (ht : (s.thread t).state = .exited) (hd : (s.thread t).detached = false) :
    ∃ own', Inv cfg recorded (joinFinish cfg s c p t) own' := by
  have hinv : Inv cfg recorded (s.setProc p { s.proc p with threadList := (s.proc p).threadList.erase t }) own := by
    refine h.exitProc (c := t) hp (by simp [ht]) ?_ ?_ rfl rfl rfl
    · exact fun u hut hu => (List.mem_erase_of_ne hut).mpr hu
    · exact .inr ⟨rfl, fun hnil => by simp [hnil]⟩
  have hreap : t ∉ s.threadReaperDetachedThreadList := by
    intro hmem
    simp [(h.kin.reaped t hmem).2] at hd
  obtain ⟨own', hfree⟩ := hinv.freeThread hrun (ht ▸ by simp) hreap
  exact ⟨own', hfree.setPhase c .running⟩

theorem threadReaper
    (ht : t ∈ s.threadReaperDetachedThreadList) : ∃ own', Inv cfg recorded (threadReaper cfg s t) own' := by
  have hinv : Inv cfg recorded { s with
      threadReaperDetachedThreadList := s.threadReaperDetachedThreadList.erase t } own :=
    ⟨h.table, h.procs, h.threads, { h.kin with
      reaped := fun u hu => h.kin.reaped u (List.mem_of_mem_erase hu),
      reapedNodup := h.kin.reapedNodup.erase t }⟩
  refine hinv.freeThread hrun ?_ ?_
  · simp [(h.kin.reaped t ht).1]
  · exact fun hmem => h.kin.reapedNodup.not_mem_erase hmem

theorem sysWaitpid {statusFault : Bool} : ∃ own', Inv cfg recorded (sysWaitpid cfg s cur pid statusFault).1 own' := by
  unfold Procs.sysWaitpid
  split
  · exact ⟨own, h⟩
  · exact ⟨own, h⟩
  · rename_i child hsel
    split
    · exact ⟨own, h⟩
    obtain ⟨hs, -⟩ := waitSelect_some hsel
    have hroot := h.waitSelect_ne_root hsel
    have hinv := h.unlist cur child
    have hstate := (children_same cur ((s.proc cur).childList.erase child) child).1.trans hs
    exact hinv.freeProcess hrun (by simp [hstate]) hroot (hinv.kin.ended child hroot (by simp [hstate]))

omit hrun

theorem detachChildren (p : ProcId) : (∃ own', Inv cfg recorded (detachChildProcesses cfg s p) own') ∧
    (detachChildProcesses cfg s p).thread = s.thread := by
  have hall := detach_induction cfg p (P := fun u => (∃ own', Inv cfg recorded u own') ∧
    u.rootProcess = s.rootProcess ∧ u.thread = s.thread) ⟨⟨own, h⟩, rfl, rfl⟩ ?_
  · exact ⟨hall.1, hall.2.2⟩
  rintro u ⟨⟨own₁, hu⟩, hr, ht⟩ hrun child hchild
  obtain ⟨hr', ht'⟩ := detachChild_frame cfg child hrun
  exact ⟨hu.detachChild hrun (hr ▸ fun hc => h.kin.child p (hc ▸ hchild)), hr'.trans hr, ht'.trans ht⟩

theorem detachThreads (others : List ThreadId) : Inv cfg recorded (detachThreads s others) own := by
  have hcases (P : Thread → Prop) (t : ThreadId) (hd : P { s.thread t with detached := true }) (ht : P (s.thread t)) :
      P ((Procs.detachThreads s others).thread t) := by
    dsimp only [Procs.detachThreads]
    split
    · exact hd
    · exact ht
  refine ⟨h.table, h.procs, ?_, { h.kin with member := ?_, freeThreads := ?_, reaped := ?_, threadsBound := ?_ }⟩
  · intro t
    exact hcases (fun z => z.state ≠ .free → own z.tid = some (.thread t)) t (h.threads t) (h.threads t)
  · intro t p
    exact hcases (fun z => z.state = .init → z.process = some p → p = s.rootProcess ∨ t ∈ (s.proc p).threadList) t
      (h.kin.member t p) (h.kin.member t p)
  · intro t ht
    exact hcases (fun z => z.state = .free) t (h.kin.freeThreads t ht) (h.kin.freeThreads t ht)
  · intro t ht
    exact hcases (fun z => z.state = .exited ∧ z.detached = true) t ⟨(h.kin.reaped t ht).1, rfl⟩ (h.kin.reaped t ht)
  · intro t
    exact hcases (fun z => z.state ≠ .free ∨ t ∈ s.freeThreadList → t < cfg.maxThread) t
      (h.kin.threadsBound t) (h.kin.threadsBound t)

theorem sysThreadJoin : Inv cfg recorded (sysThreadJoin cfg s c tid).1 own := by
  unfold Procs.sysThreadJoin
  split
  · exact h
  rename_i t ht
  split
  · exact h
  split
  · exact h
  refine Inv.setPhase ?_ c _
  apply h.changeThread h.table (fun _ _ _ hk => hk)
  · exact h.threads t
  · exact fun ht q hq => h.kin.member t q ht hq
  · exact mem_or (h.kin.freeThreads t) fun _ hu _ => hu
  · exact h.kin.threadsNodup
  · exact mem_or (h.kin.reaped t) fun _ hu _ => hu
  · exact h.kin.reapedNodup
  · exact h.kin.threadsBound t

include hc

theorem endThread {x : Thread} (hx : x.state = .exited) (htid : x.tid = (s.thread c).tid)
    (hr : ∀ u ∈ r, u = c ∧ x.state = .exited ∧ x.detached = true ∨ u ≠ c ∧ u ∈ s.threadReaperDetachedThreadList)
    (hreap : r.Nodup) : Inv cfg recorded ({ s with threadReaperDetachedThreadList := r }.setThread c x) own := by
  apply h.changeThread h.table (fun _ _ _ hk => hk)
  · exact fun _ => htid ▸ h.threads c (by simp [hc])
  · simp [hx]
  · exact mem_other (h.notMem_freeThreads (by simp [hc]))
  · exact h.kin.threadsNodup
  · exact hr
  · exact hreap
  · exact fun _ => h.kin.threadsBound c (.inl (by simp [hc]))

include hp

theorem process_alive : p = s.rootProcess ∨ (s.proc p).state = .init := by
  by_cases hroot : p = s.rootProcess
  · exact .inl hroot
  right
  by_contra hs
  have hmem := (h.kin.member c p hc hp).resolve_left hroot
  simp [h.kin.ended p hroot hs] at hmem

theorem process_ne_free : (s.proc p).state ≠ .free := by
  rcases h.process_alive hc hp with rfl | hs
  · exact h.kin.root
  · simp [hs]

theorem doExitThread : Inv cfg recorded (doExitThread s c p) own := by
  have halive := h.process_ne_free hc hp
  have hreap := h.notMem_reaped (t := c) (by simp [hc])
  rcases doExitThread_cases s c p with ⟨x, hl, hx, hs⟩ | ⟨hne, hs⟩
  · have hinv : Inv cfg recorded ({ s with
        threadReaperDetachedThreadList := s.threadReaperDetachedThreadList ++ [c] }.setThread c
          { s.thread c with detached := true, process := some s.rootProcess, state := .exited }) own := by
      refine h.endThread hc rfl rfl ?_ ?_
      · exact mem_or (fun _ => ⟨rfl, rfl⟩) fun u hu huc => by simpa [huc] using hu
      · exact nodup_concat h.kin.reapedNodup hreap
    rw [hs]
    refine hinv.exitProc (c := c) halive (by simp) ?_ ?_ ?_ ?_ ?_
    · intro u huc hu
      rw [hl]
      exact (List.mem_erase_of_ne huc).mpr hu
    · rcases hx with ⟨hnil, hx⟩ | ⟨-, hx⟩
      · exact .inl ⟨by rw [hx], hnil⟩
      · exact .inr ⟨by rw [hx]; rfl, fun hnil => hl.trans (congrArg (List.erase · c) hnil)⟩
    all_goals
      rcases hx with ⟨-, hx⟩ | ⟨-, hx⟩ <;> rw [hx] <;> rfl
  · have hinv : Inv cfg recorded (s.setThread c { s.thread c with state := .exited }) own :=
      h.endThread hc rfl rfl (mem_other hreap) h.kin.reapedNodup
    rw [hs]
    refine hinv.exitProc (c := c) halive (by simp) ?_ ?_ rfl rfl rfl
    · intro u huc hu
      exact List.mem_append_left _ ((List.mem_erase_of_ne huc).mpr hu)
    · exact .inr ⟨rfl, fun hnil => absurd (congrArg (List.erase · c) hnil) hne⟩

theorem exitRest :
    ∃ own', Inv cfg recorded ((detachChildProcesses cfg s p).andThen fun s => Procs.doExitThread s c p) own' := by
  obtain ⟨⟨own', hinv⟩, hthread⟩ := h.detachChildren p
  unfold State.andThen
  split
  · exact ⟨own', hinv⟩
  · exact ⟨own', hinv.doExitThread (hthread ▸ hc) (hthread ▸ hp)⟩

theorem sysExit : Inv cfg recorded (sysExit s c p) own := by
  unfold Procs.sysExit
  split
  · exact h.panic
  · split
    · exact h.doExitThread hc hp
    · exact (Inv.detachThreads (h.setMembership p _ _ true) _).setPhase c .exiting

end Inv

theorem Inv.forkCleanup (h : Inv cfg recorded (finiSessionPgrp cfg s new) own)
    (hrun : s.panicked = false) (hroot : new ≠ s.rootProcess) (hstate : (s.proc new).state = .init)
    (hthreads : (s.proc new).threadList = []) : ∃ own', Inv cfg recorded (forkCleanup cfg s new) own' := by
  obtain ⟨y, sid, pgid, hy⟩ := finiSessionPgrp_shape cfg s new
  refine h.freeProcess ?_ ?_ ?_ ?_
  · rw [hy]
    exact hrun
  · rw [hy]
    simp [hstate]
  · rw [hy]
    exact hroot
  · rw [hy, setProc_self]
    exact hthreads

structure Beside (s u : State) : Prop where
  proc : u.proc = s.proc
  thread : ∀ c, (u.thread c).state = .init → u.thread c = s.thread c
  phase : u.phase = s.phase
  root : u.rootProcess = s.rootProcess
  table : ∀ k, k ∉ s.ids.freePiddescList → u.ids.pidTable k = s.ids.pidTable k
  bare : ∀ k ∈ s.ids.freePiddescList, (u.ids.pidTable k).pgrp = none ∧ (u.ids.pidTable k).session = none
  pgrp : u.ids.pgrp = s.ids.pgrp ∧ u.ids.freePgrpList = s.ids.freePgrpList
  session : u.ids.session = s.ids.session ∧ u.ids.freeSessionList = s.ids.freeSessionList

def Within (x y : Ids) : Prop :=
  ∀ k, y.pidTable k = x.pidTable k ∨ (y.pidTable k).pgrp = none ∧ (y.pidTable k).session = none

theorem Within.trans (h : Within x y) (h' : Within y z) : Within x z := by
  intro k
  rcases h' k with hk | hk
  · rw [hk]
    exact h k
  · exact .inr hk

theorem Beside.within (h : Beside s u) : Within s.ids u.ids := by
  intro k
  by_cases hk : k ∈ s.ids.freePiddescList
  · exact .inr (h.bare k hk)
  · exact .inl (h.table k hk)

theorem forkSessionPgrp_pidTable (cfg : Config) (s : State) (new old : ProcId) :
    (forkSessionPgrp cfg s new old).ids.pidTable = s.ids.pidTable := by
  unfold forkSessionPgrp joinPgrp joinSession
  dsimp only
  split <;> split <;> rfl

theorem allocProcess_frame (h : allocProcess s parent = (u, some new)) :
    Within s.ids u.ids ∧ ∀ q, q ≠ new → (u.proc q).pgid = (s.proc q).pgid ∧ (u.proc q).sid = (s.proc q).sid := by
  obtain ⟨rest, e, free, -, -, v, rfl, rfl⟩ := allocProcess_some h
  constructor
  · intro k
    by_cases hk : k = e
    · subst hk
      exact .inr ⟨congrArg PidDesc.pgrp (setDesc_self _), congrArg PidDesc.session (setDesc_self _)⟩
    · exact .inl (setDesc_other hk)
  · refine setProc_cases (fun q z => q ≠ new → z.pgid = (s.proc q).pgid ∧ z.sid = (s.proc q).sid) ?_ ?_
    · intro hq
      rw [setProc_other hq]
      exact ⟨rfl, rfl⟩
    · intro q _ hq
      rw [setProc_other hq]
      exact ⟨rfl, rfl⟩

theorem allocProcess_lists (h : allocProcess s parent = (u, some new)) :
    s.freeProcessList ≠ [] ∧ s.ids.freePiddescList ≠ [] ∧ u.freeThreadList = s.freeThreadList ∧
      u.ids.freePiddescList = s.ids.freePiddescList.tail := by
  obtain ⟨rest, e, free, hl, hfree, v, rfl, rfl⟩ := allocProcess_some h
  refine ⟨by simp [hl], by simp [hfree], rfl, ?_⟩
  rw [hfree]
  rfl

theorem freeDesc_bare (hs : (x.pidTable e).session = none) (hg : (x.pidTable e).pgrp = none) :
    freeDesc x e = { x.setDesc e PidDesc.empty with freePiddescList := x.freePiddescList ++ [e] } := by
  have hd : dropSession (x.setDesc e { x.pidTable e with proc := none, thread := none }) e =
      x.setDesc e PidDesc.empty := by
    simp [dropSession, hs, hg, PidDesc.empty]
  have hd' : dropPgrp (x.setDesc e PidDesc.empty) e = x.setDesc e PidDesc.empty := by
    simp [dropPgrp, PidDesc.empty]
  unfold freeDesc
  dsimp only
  rw [hd, hd']
  simp [PidDesc.empty, Ids.setDesc]

theorem setDesc_bare {d : PidDesc} (hd : d.pgrp = none ∧ d.session = none)
    (hk : (x.pidTable k).pgrp = none ∧ (x.pidTable k).session = none) :
    ((x.setDesc e d).pidTable k).pgrp = none ∧ ((x.setDesc e d).pidTable k).session = none := by
  by_cases hke : k = e
  · subst hke
    rwa [setDesc_self]
  · rwa [setDesc_other hke]

theorem thread_of_init {x : Thread} (hx : x.state ≠ .init)
    (hc : ((s.setThread t x).thread c).state = .init) : (s.setThread t x).thread c = s.thread c := by
  by_cases hct : c = t
  · rw [hct, setThread_self] at hc
    exact absurd hc hx
  · exact setThread_other hct x

theorem allocThread_beside {r : Option (ThreadId × PidT)} (h : Table recorded s.ids own)
    (hu : allocThread s = (u, r)) : Beside s u := by
  have hbare (k : PidT) (hk : k ∈ s.ids.freePiddescList) :
      (s.ids.pidTable k).pgrp = none ∧ (s.ids.pidTable k).session = none := by
    rw [h.empty k hk]
    exact ⟨rfl, rfl⟩
  have hzero : Thread.zero.state ≠ .init := by simp [Thread.zero]
  cases r with
  | none =>
    rcases allocThread_none hu with rfl | ⟨t, rest, -, rfl⟩
    · exact ⟨rfl, fun _ _ => rfl, rfl, rfl, fun _ _ => rfl, hbare, ⟨rfl, rfl⟩, rfl, rfl⟩
    · exact ⟨rfl, fun _ hc => thread_of_init hzero hc, rfl, rfl, fun _ _ => rfl, hbare, ⟨rfl, rfl⟩, rfl, rfl⟩
  | some r =>
    obtain ⟨t, tid⟩ := r
    obtain ⟨rest, free, -, hfree, rfl⟩ := allocThread_some hu
    refine ⟨rfl, fun _ hc => thread_of_init hzero hc, rfl, rfl, ?_, ?_, ⟨rfl, rfl⟩, rfl, rfl⟩
    · intro k hk
      refine setDesc_other ?_
      rintro rfl
      simp [hfree] at hk
    · exact fun k hk => setDesc_bare ⟨rfl, rfl⟩ (hbare k hk)

theorem abandonThread_beside (h : Table recorded s.ids own) (hrun : u.panicked = false)
    (hu : allocThread s = (u, some (t, tid))) : Beside s (abandonThread cfg u t tid) := by
  have hb := allocThread_beside h hu
  rcases freeThread_cases cfg t tid hrun with hf | hf
  · rw [hf]
    exact { hb with }
  obtain ⟨rest, free, -, hfree, -⟩ := allocThread_some hu
  have htid : tid ∈ s.ids.freePiddescList := by simp [hfree]
  rw [hf, freeDesc_bare (hb.bare tid htid).2 (hb.bare tid htid).1]
  refine { hb with thread := ?_, table := ?_, bare := ?_ }
  · intro c hc
    have hsame := thread_of_init (by simp [Thread.zero]) hc
    rw [hsame] at hc ⊢
    exact hb.thread c hc
  · intro k hk
    rw [← hb.table k hk]
    refine setDesc_other ?_
    rintro rfl
    exact hk htid
  · exact fun k hk => setDesc_bare ⟨rfl, rfl⟩ (hb.bare k hk)

theorem Inv.forkThread_cases (h : Inv cfg recorded s own) (new : ProcId) (stackOk : Bool) (hrun : s.panicked = false) :
    (∃ u t tid own', allocThread s = (u, some (t, tid)) ∧ Inv cfg recorded u own' ∧ Taken cfg u own' t tid ∧
      forkThread cfg s new stackOk = Procs.initThread u new t tid true) ∨
    ∃ u own', Inv cfg recorded u own' ∧ Beside s u ∧ (forkThread cfg s new stackOk = u ∨ u.panicked = false ∧
      forkThread cfg s new stackOk = Procs.forkCleanup cfg u new ∧
      (stackOk = false ∨ s.freeThreadList = [] ∨ s.ids.freePiddescList = [])) := by
  unfold forkThread
  cases hu : allocThread s with
  | mk u r =>
    cases r with
    | none =>
      refine .inr ⟨u, own, h.allocThread_none hu, allocThread_beside h.table hu, .inr ⟨?_, rfl, .inr ?_⟩⟩
      · rcases Procs.allocThread_none hu with rfl | ⟨t, rest, -, rfl⟩ <;> exact hrun
      unfold allocThread at hu
      split at hu
      · exact .inl ‹_›
      unfold allocPidThread allocPid at hu
      dsimp only [State.setThread] at hu
      cases hfree : s.ids.freePiddescList with
      | nil => exact .inr rfl
      | cons e rest => simp [hfree] at hu
    | some r =>
      obtain ⟨t, tid⟩ := r
      obtain ⟨own', hinv, htaken, -, -, hpan⟩ := h.allocThread_some hu
      have hrun' : u.panicked = false := hpan.trans hrun
      cases stackOk with
      | true => exact .inl ⟨u, t, tid, own', rfl, hinv, htaken, rfl⟩
      | false =>
        obtain ⟨own'', hinv'⟩ := hinv.taken_abandon hrun' htaken
        refine .inr ⟨Procs.abandonThread cfg u t tid, own'', hinv', abandonThread_beside h.table hrun' hu, ?_⟩
        cases hpan' : (Procs.abandonThread cfg u t tid).panicked <;> simp [State.andThen, hpan']

theorem caller_some (h : caller s c = some p) : (s.thread c).state = .init ∧ (s.thread c).process = some p := by
  unfold caller at h
  split_ifs at h with hc
  exact ⟨hc.1, h⟩

theorem sleeper_some {ph : Phase} (h : sleeper s c = some (ph, p)) :
    (s.thread c).state = .init ∧ (s.thread c).process = some p ∧ s.phase c = ph := by
  unfold sleeper at h
  split_ifs at h with hc
  obtain ⟨q, hq, heq⟩ := Option.map_eq_some_iff.mp h
  cases heq
  exact ⟨hc, hq, rfl⟩

theorem transition_cases {a : Action} (h : transition cfg s a = some u) : Stepped cfg s a u := by
  cases a with
  | exitFinish c =>
    simp only [transition] at h
    split at h
    · rename_i p hp
      obtain ⟨-, rfl⟩ := Runs.guarded h
      exact .exitFinish hp
    · cases h
  | joinFinish c =>
    simp only [transition] at h
    split at h
    · rename_i t p hp
      obtain ⟨ht, rfl⟩ := Runs.guarded h
      exact .joinFinish hp ht
    · cases h
  | reaper t =>
    obtain ⟨ht, rfl⟩ := Runs.guarded h
    exact .reaper (List.mem_of_mem_head? ht)
  | _ =>
    obtain ⟨p, hp, rfl⟩ := Option.map_eq_some_iff.mp h
    constructor
    exact hp

theorem step_cases {a : Action} (h : step cfg s a = some u) : s.panicked = false ∧ Stepped cfg s a u := by
  unfold step at h
  split_ifs at h with hrun
  exact ⟨Bool.not_eq_true _ ▸ hrun, transition_cases h⟩

def bootOwn (e : PidT) : Option Holder :=
  if e = 1 then some (.proc 0) else if e = 2 then some (.thread 0) else none

theorem boot_table (recorded : Prop) (cfg : Config) : Table recorded (bootIds cfg) bootOwn := by
  have hne (k : PidT) (hk : k ∈ (bootIds cfg).freePiddescList) : k ≠ 1 ∧ k ≠ 2 := by
    obtain ⟨n, hn, rfl⟩ := List.mem_map.mp hk
    have hle := (List.mem_range'_1.mp hn).1
    exact ⟨fun h1 => absurd (Int.ofNat.inj h1 : n = 1) (by omega),
      fun h2 => absurd (Int.ofNat.inj h2 : n = 2) (by omega)⟩
  constructor
  · exact List.Nodup.map (fun _ _ h => Int.ofNat.inj h) List.nodup_range'
  · intro k hk
    simp [bootIds, hne k hk]
  · intro k hk
    simp [bootOwn, hne k hk]
  · intro _ k p hk
    unfold bootOwn at hk
    split at hk
    · rename_i hk1
      cases hk
      simp [bootIds, hk1]
    · split at hk <;> cases hk
  · intro _ k t hk
    unfold bootOwn at hk
    split at hk
    · cases hk
    split at hk
    · rename_i hk1 hk2
      cases hk
      simp [bootIds, hk2]
    · cases hk

theorem boot_kin (hp : 0 < cfg.maxProcess) (ht : 0 < cfg.maxThread) : Kin cfg (boot cfg) := by
  have hproc (p : ProcId) (hp : p ≠ 0) : (boot cfg).proc p = Process.zero := by simp [boot, hp]
  have hthread (t : ThreadId) (ht : t ≠ 0) : (boot cfg).thread t = Thread.zero := by simp [boot, ht]
  constructor
  · intro t p ht hp
    by_cases ht0 : t = 0
    · subst ht0
      cases hp
      exact .inl rfl
    · rw [hthread t ht0] at ht
      cases ht
  · intro p hp _
    rw [hproc p hp]
    rfl
  · simp [boot]
  · simp [boot]
  · intro p
    by_cases hp : p = 0
    · simp [boot, hp]
    · rw [hproc p hp]
      exact List.not_mem_nil
  · intro p hp
    rw [hproc p (Nat.ne_of_gt (List.mem_range'_1.mp hp).1)]
    rfl
  · exact List.nodup_range'
  · intro t ht
    rw [hthread t (Nat.ne_of_gt (List.mem_range'_1.mp ht).1)]
    rfl
  · exact List.nodup_range'
  · exact fun t ht => nomatch ht
  · exact List.nodup_nil
  · intro p hq
    rcases hq with hq | hq
    · by_cases hp0 : p = 0
      · exact hp0 ▸ hp
      · exact absurd (congrArg Process.state (hproc p hp0)) hq
    · exact Nat.lt_of_lt_of_eq (List.mem_range'_1.mp hq).2 (Nat.add_sub_cancel' hp)
  · intro t hu
    rcases hu with hu | hu
    · by_cases ht0 : t = 0
      · exact ht0 ▸ ht
      · exact absurd (congrArg Thread.state (hthread t ht0)) hu
    · exact Nat.lt_of_lt_of_eq (List.mem_range'_1.mp hu).2 (Nat.add_sub_cancel' ht)

theorem inv_booted (recorded : Prop) (h : Booted cfg s) : Inv cfg recorded s bootOwn := by
  obtain ⟨hmax, hmax', rfl⟩ := h
  refine ⟨boot_table recorded cfg, ?_, ?_, boot_kin hmax hmax'⟩
  · intro p hp
    by_cases hp0 : p = 0
    · simp [boot, bootOwn, hp0]
    · simp [boot, hp0, Process.zero] at hp
  · intro t ht
    by_cases ht0 : t = 0
    · simp [boot, bootOwn, ht0]
    · simp [boot, ht0, Thread.zero] at ht

end Invariant

end CheviotKernel.Procs
