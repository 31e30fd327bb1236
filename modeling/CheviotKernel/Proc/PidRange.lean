import CheviotKernel.Proc.Ids

namespace CheviotKernel.Procs.PidRange

open Function Runs

structure History where
  procs : State
  own : PidT → Option Holder

inductive Action
  | allocPidProc (p : ProcId)
  | allocPidThread (t : ThreadId)
  | freePid (pid : PidT)

def History.given (h : History) (a : Holder) : Option (PidT × State) → History
  | none => h
  | some (pid, s) => ⟨s, update h.own pid (some a)⟩

def perform (cfg : Config) (h : History) : Action → Option History
  | .allocPidProc p => some (h.given (.proc p) (Procs.allocPidProc h.procs p))
  | .allocPidThread t => some (h.given (.thread t) (Procs.allocPidThread h.procs t))
  | .freePid pid =>
    if h.own pid = none then none else some ⟨Procs.freePid cfg h.procs pid, update h.own pid none⟩

def step (cfg : Config) (h : History) (a : Action) : Option History :=
  if h.procs.panicked then none else perform cfg h a

structure Initialised (cfg : Config) (h : History) : Prop where
  list : h.procs.ids.freePiddescList = (List.range' 1 (cfg.maxProcess + cfg.maxThread)).map Int.ofNat
  table : ∀ pid, h.procs.ids.pidTable pid = PidDesc.empty
  own : ∀ pid, h.own pid = none
  running : h.procs.panicked = false

def doKillProcessGroup (cfg : Config) (s : State) (pgid : PidT) : Except Errno (List ProcId) :=
  if pgid < 0 ∨ pgid ≥ cfg.maxProcess then .error .einval
  else
    match getPgrp cfg s.ids pgid with
    | none => .error .einval
    | some i => .ok (s.ids.pgrp i).processList

def childOf (s : State) (p cur : ProcId) : State := s.setProc p { s.proc p with parent := some cur }

def leading (s : State) (pid : PidT) (i : PgrpId) : State :=
  { s with ids := s.ids.setDesc pid { s.ids.pidTable pid with pgrp := some i } }

structure WorksProc (cfg : Config) (s : State) (pid : PidT) (p : ProcId) : Prop where
  resolved : getProcess cfg s pid = some p
  awaited : ∀ cur, waitSelect cfg (childOf s p cur) cur pid ≠ .error .einval
  killed : ∀ i, doKillProcessGroup cfg (leading s pid i) pid ≠ .error .einval
  freed : (freePid cfg s pid).panicked = false

structure WorksThread (cfg : Config) (s : State) (tid : PidT) (t : ThreadId) : Prop where
  resolved : getThread cfg s tid = some t
  freed : (freePid cfg s tid).panicked = false

def Works (cfg : Config) (s : State) (pid : PidT) : Holder → Prop
  | .proc p => WorksProc cfg s pid p
  | .thread t => WorksThread cfg s pid t

def InRange (cfg : Config) (pid : PidT) : Holder → Prop
  | .proc _ => pid < cfg.maxProcess
  | .thread _ => pid < cfg.maxPid

section Invariant

variable {cfg : Config} {h h' : History} {pid : PidT} {a : Holder} {p cur : ProcId}

structure Inv (h : History) : Prop where
  table : Table True h.procs.ids h.own
  free : ∀ e ∈ h.procs.ids.freePiddescList, 0 < e
  used : ∀ e, h.own e ≠ none → 0 < e

theorem Inv.alloc (hi : Inv h) {d : PidDesc} (hp : ∀ p, a = .proc p → d.proc = some p)
    (ht : ∀ t, a = .thread t → d.thread = some t) : Inv (h.given a (allocPid h.procs d)) := by
  unfold allocPid
  cases hl : h.procs.ids.freePiddescList with
  | nil => exact hi
  | cons e rest =>
    have hfree : ∀ k ∈ e :: rest, 0 < k := hl ▸ hi.free
    refine ⟨hi.table.alloc hl hp ht, fun k hk => hfree k (List.mem_cons_of_mem e hk), ?_⟩
    intro k hk
    by_cases hke : k = e
    · exact hfree k (by simp [hke])
    · exact hi.used k (by simpa [History.given, hke] using hk)

theorem freePid_running (hr : (freePid cfg h.procs pid).panicked = false) :
    freePid cfg h.procs pid = { h.procs with ids := freeDesc h.procs.ids pid } := by
  unfold freePid at hr ⊢
  cases he : pidToPiddesc cfg pid with
  | none => simp [he, State.panic] at hr
  | some e => rw [pidToPiddesc_some he]

theorem Inv.freePid (hi : Inv h) (ho : h.own pid ≠ none) (hr : (freePid cfg h.procs pid).panicked = false) :
    Inv ⟨freePid cfg h.procs pid, update h.own pid none⟩ := by
  obtain ⟨a, ha⟩ := Option.ne_none_iff_exists'.mp ho
  have hmem := hi.table.notMem_of_own ha
  have hf := freeDesc_freed hmem
  rw [freePid_running hr]
  refine ⟨hi.table.freed hf hmem, ?_, ?_⟩
  · intro k hk
    rcases hf.list with hl | ⟨hl, -⟩
    · exact hi.free k (hl ▸ hk)
    rw [hl] at hk
    rcases List.mem_append.mp hk with hk | hk
    · exact hi.free k hk
    · rw [List.mem_singleton.mp hk]
      exact hi.used _ ho
  · intro k hk
    by_cases hke : k = pid
    · simp [hke] at hk
    · exact hi.used k (by simpa [hke] using hk)

theorem Inv.perform (hi : Inv h) {b : Action} (hs : perform cfg h b = some h') (hr : h'.procs.panicked = false) :
    Inv h' := by
  cases b with
  | allocPidProc p | allocPidThread t =>
    cases hs
    exact hi.alloc (by simp) (by simp)
  | freePid pid =>
    simp only [PidRange.perform] at hs
    split_ifs at hs with ho
    cases hs
    exact hi.freePid ho hr

theorem inv_initialised (h0 : Initialised cfg h) : Inv h := by
  refine ⟨⟨?_, fun k _ => h0.table k, fun k _ => h0.own k, ?_, ?_⟩, ?_, ?_⟩
  · rw [h0.list]
    exact List.Nodup.map (fun _ _ e => Int.ofNat.inj e) List.nodup_range'
  · intro _ k p hk
    simp [h0.own] at hk
  · intro _ k t hk
    simp [h0.own] at hk
  · intro e he
    rw [h0.list, List.mem_map] at he
    obtain ⟨n, hn, rfl⟩ := he
    have hlo := (List.mem_range'_1.mp hn).1
    exact Int.ofNat_lt.mpr hlo
  · intro e he
    exact absurd (h0.own e) he

theorem inside (h0 : 0 < pid) (hlt : pid < cfg.maxPid) : ¬(pid ≤ 0 ∨ pid ≥ cfg.maxPid) :=
  not_or.mpr ⟨Int.not_le.mpr h0, Int.not_le.mpr hlt⟩

theorem freePid_panicked (hr : h.procs.panicked = false) (h0 : 0 < pid) :
    (freePid cfg h.procs pid).panicked = false ↔ pid < cfg.maxPid := by
  constructor
  · intro hp
    by_contra hn
    simp [freePid, pidToPiddesc, if_pos (.inr (Int.not_lt.mp hn) : pid ≤ 0 ∨ pid ≥ cfg.maxPid), State.panic] at hp
  · intro hlt
    simpa [freePid, pidToPiddesc, if_neg (inside h0 hlt)] using hr

theorem waitSelect_child {s : State} (h0 : 0 < pid) (hlt : pid < cfg.maxProcess)
    (hp : getProcess cfg s pid = some p) (hc : (s.proc p).parent = some cur) :
    waitSelect cfg s cur pid = .ok (exitedChild s [p]) := by
  have hneg : ¬ -pid ≥ cfg.maxProcess := Int.not_le.mpr
    (Int.lt_of_lt_of_le (Int.neg_neg_of_pos h0) (Int.natCast_nonneg _))
  unfold waitSelect
  rw [if_neg (not_or.mpr ⟨hneg, Int.not_le.mpr hlt⟩), if_pos h0]
  simp [hp, hc]

theorem worksProc_iff (hi : Inv h) (hr : h.procs.panicked = false) (ho : h.own pid = some (.proc p)) :
    WorksProc cfg h.procs pid p ↔ pid < cfg.maxProcess := by
  have h0 := hi.used pid (by simp [ho])
  constructor
  · intro hw
    by_contra hn
    exact hw.killed 0 (if_pos (.inr (Int.not_lt.mp hn)))
  intro hlt
  have hmax : pid < cfg.maxPid := Int.lt_of_lt_of_le hlt (Int.le_add_of_nonneg_right (Int.natCast_nonneg _))
  have hproc : getProcess cfg h.procs pid = some p :=
    (if_neg (inside h0 hmax)).trans (hi.table.proc trivial pid p ho)
  refine ⟨hproc, ?_, ?_, (freePid_panicked hr h0).mpr hmax⟩
  · intro cur
    rw [waitSelect_child (s := childOf h.procs p cur) h0 hlt hproc (by simp [childOf, State.setProc])]
    simp
  intro i
  have hbound : ¬(pid < 0 ∨ pid ≥ cfg.maxProcess) :=
    not_or.mpr ⟨Int.not_lt.mpr (Int.le_of_lt h0), Int.not_le.mpr hlt⟩
  have hpgrp : getPgrp cfg (leading h.procs pid i).ids pid = some i := by
    simp [getPgrp, pidToPiddesc, if_neg (inside h0 hmax), leading]
  unfold doKillProcessGroup
  rw [if_neg hbound, hpgrp]
  simp

theorem worksThread_iff (hi : Inv h) (hr : h.procs.panicked = false) {t : ThreadId}
    (ho : h.own pid = some (.thread t)) : WorksThread cfg h.procs pid t ↔ pid < cfg.maxPid := by
  have h0 := hi.used pid (by simp [ho])
  constructor
  · intro hw
    exact (freePid_panicked hr h0).mp hw.freed
  · intro hlt
    exact ⟨(if_neg (inside h0 hlt)).trans (hi.table.thread trivial pid t ho), (freePid_panicked hr h0).mpr hlt⟩

theorem id_works_iff_inRange (hh : Reach (step cfg) always (Initialised cfg) h) (hr : h.procs.panicked = false)
    (ho : h.own pid = some a) : Works cfg h.procs pid a ↔ InRange cfg pid a := by
  have hi : Inv h := by
    refine hh.invariant (P := fun h => h.procs.panicked = false → Inv h) (fun _ h0 _ => inv_initialised h0) ?_ hr
    intro h b h' hi _ hs hr'
    unfold step at hs
    split_ifs at hs with hp
    exact (hi (Bool.not_eq_true _ ▸ hp)).perform hs hr'
  cases a with
  | proc p => exact worksProc_iff hi hr ho
  | thread t => exact worksThread_iff hi hr ho

end Invariant

def blank : History where
  procs :=
    { ids := ⟨fun _ => PidDesc.empty, [1, 2, 3], fun _ => ⟨0, []⟩, [], fun _ => ⟨0, []⟩, []⟩
      proc := fun _ => Process.zero
      freeProcessList := []
      thread := fun _ => Thread.zero
      freeThreadList := []
      threadReaperDetachedThreadList := []
      rootProcess := 0
      phase := fun _ => .running
      panicked := false }
  own := fun _ => none

theorem blank_initialised : Initialised ⟨2, 1⟩ blank := ⟨by decide, fun _ => rfl, fun _ => rfl, rfl⟩

def threeIds : List Action := [.allocPidProc 0, .allocPidProc 1, .allocPidThread 0]

deriving instance DecidableEq for Holder

theorem first_pid_works : ∃ h, Reach (step ⟨2, 1⟩) always (Initialised ⟨2, 1⟩) h ∧ h.own 1 = some (.proc 0) ∧
    Works ⟨2, 1⟩ h.procs 1 (.proc 0) :=
  Reach.exists_of_run (Q := fun h => h.procs.panicked = false ∧ h.own 1 = some (.proc 0)) threeIds blank_initialised
    (meets_always _ _) (by decide) fun _ hr hq =>
      ⟨hq.2, (id_works_iff_inRange hr hq.1 hq.2).mpr (by decide : (1 : PidT) < 2)⟩

theorem last_ids_fail : ∃ h, Reach (step ⟨2, 1⟩) always (Initialised ⟨2, 1⟩) h ∧
    h.own 2 = some (.proc 1) ∧ ¬ Works ⟨2, 1⟩ h.procs 2 (.proc 1) ∧
    h.own 3 = some (.thread 0) ∧ getThread ⟨2, 1⟩ h.procs 3 = none ∧ (freePid ⟨2, 1⟩ h.procs 3).panicked = true ∧
    ¬ Works ⟨2, 1⟩ h.procs 3 (.thread 0) := by
  refine Reach.exists_of_run (Q := fun h => h.own 2 = some (.proc 1) ∧ h.own 3 = some (.thread 0) ∧
      getThread ⟨2, 1⟩ h.procs 3 = none ∧ (freePid ⟨2, 1⟩ h.procs 3).panicked = true) threeIds blank_initialised
    (meets_always _ _) (by decide) fun h _ ⟨hproc, hthread, hget, hfree⟩ => ⟨hproc, ?_, hthread, hget, hfree, ?_⟩
  · intro hw
    exact hw.awaited 0 rfl
  intro hw
  have hres := hw.resolved
  cases hres

end CheviotKernel.Procs.PidRange
