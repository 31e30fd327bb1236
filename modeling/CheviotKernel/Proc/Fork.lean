import CheviotKernel.Fs.Filedesc
import CheviotKernel.Proc.Rolls
import CheviotKernel.Vm.AddressSpace
import CheviotKernel.Vm.Frames
import CheviotKernel.Vm.RegionLists

namespace CheviotKernel.Fork

open Function
open Procs (ProcId ThreadId PidT PidDesc Ids)

structure Config where
  procs : Procs.Config
  regions : MemRegions.Config
  layout : Vm.Layout

structure System where
  procs : Procs.State
  regions : MemRegions.State
  vm : Vm.Memory
  freePmappagedirList : List ℕ
  pagedir : ProcId → ℕ
  fs : Filps.State
  fdTable : ProcId → Vm.Frame

-- How a call ends that does not return: asleep in alloc_page, or lost on a list without an end.
inductive Stop
  | asleep
  | panicked
  | lost

section

variable (cfg : Config) (x : System)

def System.setProcs (s : Procs.State) : Except Stop System :=
  if s.panicked then .error .panicked else .ok { x with procs := s }

def System.setFs (s : Filps.State) : Except Stop System :=
  if s.panicked then .error .panicked else .ok { x with fs := s }

def freeAll (p : ProcId) : Except Stop System :=
  match MemRegions.memregionFreeAll cfg.regions x.regions p with
  | none => .error .lost
  | some r => .ok { x with regions := r }

def pmapCreate (x : System) (p : ProcId) : Option System :=
  match x.freePmappagedirList with
  | [] => none
  | d :: rest => some { x with
      freePmappagedirList := rest, pagedir := update x.pagedir p d, vm := Vm.pmapCreate x.vm p }

def pmapDestroy (p : ProcId) : System :=
  { x with freePmappagedirList := x.freePmappagedirList ++ [x.pagedir p] }

def freeAddressSpace (p : ProcId) : Except Stop System := freeAll cfg (pmapDestroy x p) p

def cleanupAddressSpace (cfg : Config) (x : System) (p : ProcId) : Except Stop System := do
  let x ← freeAll cfg { x with vm := Vm.cleanupAddressSpace x.vm p cfg.layout.pages } p
  return { x with regions := (MemRegions.initMemregions cfg.regions x.regions p).1 }

def forkAddressSpace (new old : ProcId) : Except Stop (System × Bool) :=
  match pmapCreate x new with
  | none => .ok (x, false)
  | some x =>
    match MemRegions.forkMemregions cfg.regions x.regions new old with
    | none => .error .lost
    | some (r, .error _) => do
        let x ← freeAddressSpace cfg (pmapDestroy { x with regions := r } new) new
        return (x, false)
    | some (r, .ok _) =>
      match Vm.forkPages x.vm old new cfg.layout.pages with
      | .done m => .ok ({ x with regions := r, vm := m }, true)
      | .fail m => do
          let x ← cleanupAddressSpace cfg { x with regions := r, vm := m } new
          let x ← freeAddressSpace cfg x new
          return (x, false)
      | .sleep _ _ _ _ => .error .asleep
      | .panic => .error .panicked

-- alloc_page waits for a page and never returns NULL.
def kmallocPage : Except Stop (Vm.Frame × System) :=
  match Vm.allocPage x.vm with
  | none => .error .asleep
  | some (f, m) => .ok (f, { x with vm := m })

def forkFds (x : System) (new old : ProcId) (beyond : Filps.FileDesc) : Except Stop System := do
  let (f, x) ← kmallocPage x
  { x with fdTable := update x.fdTable new f }.setFs (Filps.forkFds x.fs new old beyond)

def finiFproc (x : System) (p : ProcId) : Except Stop System := do
  let x ← x.setFs (Filps.finiFproc x.fs p)
  return { x with vm := Vm.freePage x.vm (x.fdTable p) }

def forkThread (new : ProcId) : Except Stop (System × Option ThreadId) :=
  match Procs.allocThread x.procs with
  | (s, none) => .ok ({ x with procs := s }, none)
  | (s, some (t, tid)) => do
      let (_, x) ← kmallocPage x
      return ({ x with procs := Procs.initThread s new t tid true }, some t)

def freeProcess (cfg : Config) (x : System) (p : ProcId) : Except Stop System :=
  x.setProcs (Procs.freeProcess cfg.procs x.procs p)

def abandon (new : ProcId) : Except Stop System := do
  let x ← freeAddressSpace cfg x new
  let x ← finiFproc x new
  let x ← x.setProcs (Procs.finiSessionPgrp cfg.procs x.procs new)
  freeProcess cfg x new

-- none is -ENOMEM. beyond: what follows the page of the child's descriptor table.
def sysFork (cur : ProcId) (beyond : Filps.FileDesc) :
    Except Stop (System × Option ProcId) :=
  match Procs.allocProcess x.procs cur with
  | (s, none) => .ok ({ x with procs := s }, none)
  | (s, some new) => do
      match ← forkAddressSpace cfg { x with procs := s } new cur with
      | (x, false) => do
          let x ← freeProcess cfg x new
          return (x, none)
      | (x, true) => do
          let x ← forkFds { x with procs := Procs.forkSessionPgrp cfg.procs x.procs new cur } new cur beyond
          match ← forkThread x new with
          | (x, none) => do
              let x ← abandon cfg x new
              return (x, none)
          | (x, some _) => return (x, some new)

structure FreeListsNodup (x : System) : Prop where
  processes : x.procs.freeProcessList.Nodup
  threads : x.procs.freeThreadList.Nodup
  pids : x.procs.ids.freePiddescList.Nodup
  sessions : x.procs.ids.freeSessionList.Nodup
  pgrps : x.procs.ids.freePgrpList.Nodup
  pagedirs : x.freePmappagedirList.Nodup
  pages : x.vm.freePageQueue.Nodup
  filps : x.fs.filpFreeList.Nodup

structure Restored (v : MemRegions.View) (x x' : System) (cur : ProcId) : Prop where
  children : (x'.procs.proc cur).childList = (x.procs.proc cur).childList
  pidTable : x'.procs.ids.pidTable = x.procs.ids.pidTable
  referenceCnt : x'.vm.referenceCnt = x.vm.referenceCnt
  pagedirs : ∀ d, d ∈ x'.freePmappagedirList ↔ d ∈ x.freePmappagedirList
  regions : ∃ v', MemRegions.Shows x'.regions v' ∧ (∀ r, r ∈ v'.unused ↔ r ∈ v.unused) ∧
    ∀ p r, r ∈ v'.free p ↔ r ∈ v.free p
  filps : ∀ f, (x'.fs.filp f).referenceCnt = (x.fs.filp f).referenceCnt
  nodup : FreeListsNodup x'

structure Live (ids : Ids) : Prop where
  pgrps : ∀ e i, (ids.pidTable e).pgrp = some i → (ids.pgrp i).processList ≠ []
  sessions : ∀ e i, (ids.pidTable e).session = some i → (ids.session i).processList ≠ []

structure Wf (cfg : Config) (v : MemRegions.View) (x : System) (cur : ProcId) : Prop where
  nodup : FreeListsNodup x
  running : x.procs.panicked = false
  caller : cur ∉ x.procs.freeProcessList
  children : ∀ p ∈ x.procs.freeProcessList, p ∉ (x.procs.proc cur).childList
  entries : ∀ e ∈ x.procs.ids.freePiddescList, x.procs.ids.pidTable e = PidDesc.empty
  live : Live x.procs.ids
  pages : ∀ f ∈ x.vm.freePageQueue, x.vm.referenceCnt f ≤ 0
  regions : MemRegions.Inv cfg.regions x.regions v
  spaces : ∀ p ∈ x.procs.freeProcessList, v.sorted p = []
  descriptors : ∀ fd < Filps.filedescMax, (x.fs.fdTable cur fd).valid = true →
    ∀ f, (x.fs.fdTable cur fd).filp = some f → 1 ≤ (x.fs.filp f).referenceCnt

def Unnamed (d : PidDesc) : Prop := d.proc = none ∧ d.thread = none

structure Undone (cfg : Config) (v : MemRegions.View) (x : System) (cur : ProcId) : Prop where
  regions : (v.sorted cur).length ≤ v.unused.length
  unmapped : ∀ va ∈ cfg.layout.pages, Vm.pmapExtract x.vm cur va = none
  fdTable : ∀ f, x.vm.freePageQueue.getLast? = some f → x.vm.referenceCnt f = -1
  pgrp : (Procs.getPgrp cfg.procs x.procs.ids (x.procs.proc cur).pgid).isSome →
    Unnamed (x.procs.ids.pidTable (x.procs.proc cur).pgid)
  session : (Procs.getSession cfg.procs x.procs.ids (x.procs.proc cur).sid).isSome →
    Unnamed (x.procs.ids.pidTable (x.procs.proc cur).sid)

def Clean (v : MemRegions.View) (x : System) (cur : ProcId) : Prop :=
  x.procs.freeProcessList = [] ∨ x.procs.ids.freePiddescList = [] ∨ x.freePmappagedirList = [] ∨ Undone cfg v x cur

end

section Pages

open Vm

variable {m m' : Memory} {old new : Pid} {va w : Va} {e e' : Pte} {f pt : Frame} {pages : List Va}

def Used (m : Memory) (f : Frame) : Prop := f ∉ m.freePageQueue ∧ 1 ≤ m.referenceCnt f

theorem forkPrepare_same (h : forkPrepare m old va e = some (m', e')) :
    m'.freePageQueue = m.freePageQueue ∧ m'.referenceCnt = m.referenceCnt ∧ m'.l1Table = m.l1Table ∧
      ∀ p, p ≠ old → m'.pte p = m.pte p := by
  unfold forkPrepare pmapProtect at h
  split at h
  · split at h
    · cases h
    rename_i hp
    cases h
    split at hp
    · cases hp
      exact ⟨rfl, rfl, rfl, fun _ _ => rfl⟩
    split at hp
    · cases hp
    split at hp
    · cases hp
    cases hp
    refine ⟨rfl, rfl, rfl, fun p hne => ?_⟩
    funext w
    simp [hne]
  · split at h <;> cases h <;> exact ⟨rfl, rfl, rfl, fun _ _ => rfl⟩

theorem enterPte_ok (h : enterPte m new va e pt = .ok m') : m.pte new va = none ∧
    m' = (m.setPte new va (some e)).setReferenceCnt pt (m.referenceCnt pt + 1) := by
  unfold enterPte at h
  split at h
  · cases h
  · rename_i hn
    cases h
    exact ⟨hn, rfl⟩

theorem Used.enterPte (hf : Used m f) (h : enterPte m new va e pt = .ok m') : Used m' f := by
  obtain ⟨-, rfl⟩ := enterPte_ok h
  obtain ⟨hq, hc⟩ := hf
  refine ⟨hq, ?_⟩
  simp only [Memory.setReferenceCnt_referenceCnt]
  split_ifs with hpt
  · subst hpt
    omega
  · exact hc

theorem Used.allocPage (hf : Used m f) (h : allocPage m = some (pt, m')) : Used m' f := by
  obtain ⟨queue, hq, rfl⟩ := allocPage_eq_some h
  obtain ⟨hf, hc⟩ := hf
  rw [hq, List.mem_append, List.mem_singleton, not_or] at hf
  exact ⟨hf.1, by simpa [hf.2] using hc⟩

theorem pmapEnter_ok (h : pmapEnter m new va e = .ok m') :
    (∃ pt, m.l1Table new (pdeIdx va) = some pt ∧ enterPte m new va e pt = .ok m') ∨
    ∃ pt u, m.l1Table new (pdeIdx va) = none ∧ allocPage m = some (pt, u) ∧
      enterPte (u.newTable new (pdeIdx va) pt) new va e pt = .ok m' := by
  unfold pmapEnter at h
  split_ifs at h
  split at h
  · rename_i pt hpt
    exact .inl ⟨pt, hpt, h⟩
  rename_i hnone
  split at h
  · cases h
  · rename_i pt u halloc
    exact .inr ⟨pt, u, hnone, halloc, h⟩

theorem Used.pmapEnter (hf : Used m f) (h : pmapEnter m new va e = .ok m') : Used m' f := by
  rcases pmapEnter_ok h with ⟨pt, -, henter⟩ | ⟨pt, u, -, halloc, henter⟩
  · exact hf.enterPte henter
  · have hu := hf.allocPage halloc
    exact Used.enterPte (m := u.newTable new (pdeIdx va) pt) hu henter

theorem Used.forkCount (hf : Used m f) (e : Pte) : Used (forkCount m e) f := by
  unfold Vm.forkCount
  split_ifs
  · exact hf
  obtain ⟨hq, hc⟩ := hf
  refine ⟨hq, ?_⟩
  simp only [Memory.setReferenceCnt_referenceCnt]
  split_ifs with hpa
  · subst hpa
    omega
  · exact hc

theorem pmapEnter_table (hq : m.freePageQueue.Nodup) (ht : m.l1Table new (pdeIdx va) = none)
    (h : pmapEnter m new va e = .ok m') : ∃ f ∈ m.freePageQueue, Used m' f := by
  rcases pmapEnter_ok h with ⟨pt, hsome, -⟩ | ⟨pt, u, -, halloc, henter⟩
  · rw [ht] at hsome
    cases hsome
  obtain ⟨queue, hqueue, rfl⟩ := allocPage_eq_some halloc
  obtain ⟨-, rfl⟩ := enterPte_ok henter
  rw [hqueue] at hq ⊢
  have hnew : pt ∉ queue := fun hmem => (List.nodup_append.mp hq).2.2 pt hmem pt (by simp) rfl
  exact ⟨pt, by simp, hnew, by simp⟩

theorem forkPages_cons (h : forkPages m old new (va :: pages) = .done m') :
    (pmapExtract m old va = none ∧ forkPages m old new pages = .done m') ∨
    ∃ e u e' w, pmapExtract m old va = some e ∧ forkPrepare m old va e = some (u, e') ∧ pmapEnter u new va e' = .ok w ∧
      forkPages (forkCount w e') old new pages = .done m' := by
  rw [forkPages] at h
  split at h
  · rename_i hnone
    exact .inl ⟨hnone, h⟩
  rename_i e he
  split at h
  · cases h
  rename_i u e' hprep
  split at h
  · cases h
  · cases h
  · rename_i w henter
    exact .inr ⟨e, u, e', w, he, hprep, henter, h⟩

theorem Used.forkPages (hf : Used m f) (h : forkPages m old new pages = .done m') : Used m' f := by
  induction pages generalizing m with
  | nil =>
    cases h
    exact hf
  | cons va pages ih =>
    rcases forkPages_cons h with ⟨-, hrest⟩ | ⟨e, u, e', w, -, hprep, henter, hrest⟩
    · exact ih hf hrest
    obtain ⟨hqueue, hcount, -⟩ := forkPrepare_same hprep
    have hu : Used u f := by
      rw [Used, hqueue, hcount]
      exact hf
    exact ih ((hu.pmapEnter henter).forkCount e') hrest

theorem forkPages_unmapped (h : ∀ va ∈ pages, pmapExtract m old va = none) : forkPages m old new pages = .done m := by
  induction pages with
  | nil => rfl
  | cons va pages ih =>
    rw [Vm.forkPages, h va (by simp)]
    exact ih fun w hw => h w (by simp [hw])

theorem forkPages_mapped (hq : m.freePageQueue.Nodup) (ht : ∀ d, m.l1Table new d = none)
    (hmapped : ∃ va ∈ pages, pmapExtract m old va ≠ none) (h : forkPages m old new pages = .done m') :
    ∃ f ∈ m.freePageQueue, Used m' f := by
  induction pages with
  | nil =>
    obtain ⟨va, hva, -⟩ := hmapped
    cases hva
  | cons va pages ih =>
    rcases forkPages_cons h with ⟨hnone, hrest⟩ | ⟨e, u, e', w, -, hprep, henter, hrest⟩
    · obtain ⟨w, hw, hne⟩ := hmapped
      rcases List.mem_cons.mp hw with rfl | hw
      · exact absurd hnone hne
      · exact ih ⟨w, hw, hne⟩ hrest
    · obtain ⟨hqueue, -, htable, -⟩ := forkPrepare_same hprep
      obtain ⟨f, hf, hused⟩ := pmapEnter_table (hqueue ▸ hq) (by rw [htable]; exact ht _) henter
      exact ⟨f, hqueue ▸ hf, (hused.forkCount e').forkPages hrest⟩

theorem pmapEnter_pte (h : pmapEnter m new va e = .ok m') (hw : w ≠ va) (hn : m.pte new w = none) :
    m'.pte new w = none := by
  rcases pmapEnter_ok h with ⟨pt, -, henter⟩ | ⟨pt, u, -, halloc, henter⟩
  · obtain ⟨-, rfl⟩ := enterPte_ok henter
    simpa [hw] using hn
  · obtain ⟨queue, -, rfl⟩ := allocPage_eq_some halloc
    obtain ⟨-, rfl⟩ := enterPte_ok henter
    simp [hw, hn]

theorem pmapEnter_ne_fail (hva : va ≠ 0) (hn : m.pte new va = none) : pmapEnter m new va e ≠ .fail m' := by
  intro h
  unfold pmapEnter at h
  rw [if_neg hva] at h
  split at h
  · simp [enterPte, hn] at h
  · split at h
    · cases h
    · simp [enterPte] at h

theorem forkPages_ne_fail (hne : new ≠ old) (hnodup : pages.Nodup) (hz : 0 ∉ pages)
    (hn : ∀ va ∈ pages, m.pte new va = none) : forkPages m old new pages ≠ .fail m' := by
  induction pages generalizing m with
  | nil =>
    intro h
    cases h
  | cons va pages ih =>
    intro h
    rw [Vm.forkPages] at h
    rw [List.nodup_cons] at hnodup
    rw [List.mem_cons, not_or] at hz
    split at h
    · exact ih hnodup.2 hz.2 (fun w hw => hn w (by simp [hw])) h
    split at h
    · cases h
    rename_i u e' hprep
    obtain ⟨-, -, -, hpte⟩ := forkPrepare_same hprep
    have hun : ∀ w ∈ va :: pages, u.pte new w = none := by
      intro w hw
      rw [hpte new hne]
      exact hn w hw
    split at h
    · cases h
    · rename_i henter
      exact pmapEnter_ne_fail (Ne.symm hz.1) (hun va (by simp)) henter
    · rename_i w henter
      refine ih hnodup.2 hz.2 ?_ h
      intro k hk
      have hkva : k ≠ va := by
        rintro rfl
        exact hnodup.1 hk
      have hkeep := pmapEnter_pte henter hkva (hun k (by simp [hk]))
      unfold Vm.forkCount
      split_ifs
      · exact hkeep
      · exact hkeep

end Pages

section Descriptors

open Filps hiding ProcId

variable {s s' : Filps.State} {new old p q : ProcId} {fd : ℕ} {fds : List ℕ} {g f : FilpId}

def copies (s : Filps.State) (p : ProcId) (f : FilpId) (fds : List ℕ) : ℕ :=
  fds.countP fun fd => (s.fdTable p fd).valid && decide ((s.fdTable p fd).filp = some f)

theorem copies_congr (h : ∀ fd ∈ fds, s'.fdTable q fd = s.fdTable p fd) : copies s' q f fds = copies s p f fds := by
  refine List.countP_congr fun fd hfd => ?_
  rw [h fd hfd]

theorem fdFree_panicked (h : s.panicked = true) (p : ProcId) (fd : ℕ) : (fdFree s p fd).panicked = true := by
  unfold fdFree Filps.State.kassert
  split_ifs
  · exact h
  · rfl
  · exact h

section

variable (s)

theorem copies_cons (p : ProcId) (f : FilpId) (fd : ℕ) (fds : List ℕ) :
    copies s p f (fd :: fds) = copies s p f [fd] + copies s p f fds := by
  simp only [copies, List.countP_cons, List.countP_nil]
  omega

@[simp] theorem setDesc_fdTable (p q : ProcId) (fd k : ℕ) (d : FileDesc) :
    (s.setDesc p fd d).fdTable q k = if q = p ∧ k = fd then d else s.fdTable q k := by
  by_cases hq : q = p
  · subst hq
    by_cases hk : k = fd
    · simp [hk]
    · simp [Filps.State.setDesc, hk]
  · simp [Filps.State.setDesc, hq]

theorem filpRelease_spec (h : 2 ≤ (s.filp g).referenceCnt) :
    filpRelease s g = s.setFilp g { s.filp g with referenceCnt := (s.filp g).referenceCnt - 1 } := by
  unfold filpRelease
  rw [if_neg (by omega)]

@[simp] theorem filpRelease_panicked (f : FilpId) : (filpRelease s f).panicked = s.panicked := by
  unfold filpRelease
  dsimp only
  split_ifs <;> rfl

end

theorem forkFd_spec (h : (forkFd new old s fd).panicked = false) : s.panicked = false ∧
    (forkFd new old s fd).filpFreeList = s.filpFreeList ∧
    (∀ f, ((forkFd new old s fd).filp f).referenceCnt = (s.filp f).referenceCnt + copies s old f [fd]) ∧
    (∀ f, copies (forkFd new old s fd) new f [fd] = copies s old f [fd]) ∧
    ∀ q k, q ≠ new ∨ k ≠ fd → (forkFd new old s fd).fdTable q k = s.fdTable q k := by
  have hother (d : FileDesc) (q : ProcId) (k : ℕ) (hqk : q ≠ new ∨ k ≠ fd) :
      (s.setDesc new fd d).fdTable q k = s.fdTable q k := by
    rw [setDesc_fdTable, if_neg (by tauto)]
  unfold forkFd at h ⊢
  cases hv : (s.fdTable old fd).valid with
  | false =>
    simp only [hv] at h ⊢
    refine ⟨h, rfl, ?_, ?_, hother _⟩
    · simp [copies, hv, Filps.State.setDesc]
    · simp [copies, hv, FileDesc.none]
  | true =>
    cases hf : (s.fdTable old fd).filp with
    | none => simp [hv, hf] at h
    | some g =>
      simp only [hv, hf] at h ⊢
      refine ⟨h, rfl, ?_, ?_, hother _⟩
      · intro f
        simp only [filpRef, Filps.State.setFilp, Filps.State.setDesc, copies, List.countP_singleton, hv, hf,
          Bool.true_and, decide_eq_true_eq, Option.some.injEq]
        by_cases hfg : f = g
        · subst hfg
          simp
        · simp [hfg, Ne.symm hfg]
      · simp [copies, filpRef, Filps.State.setFilp]

theorem forkFd_fold (hne : new ≠ old) (hnodup : fds.Nodup) (h : (fds.foldl (forkFd new old) s).panicked = false) :
    s.panicked = false ∧ (fds.foldl (forkFd new old) s).filpFreeList = s.filpFreeList ∧
    (∀ f, ((fds.foldl (forkFd new old) s).filp f).referenceCnt = (s.filp f).referenceCnt + copies s old f fds) ∧
    (∀ f, copies (fds.foldl (forkFd new old) s) new f fds = copies s old f fds) ∧
    ∀ q k, q ≠ new ∨ k ∉ fds → (fds.foldl (forkFd new old) s).fdTable q k = s.fdTable q k := by
  induction fds generalizing s with
  | nil => exact ⟨h, rfl, by simp [copies], by simp [copies], fun _ _ _ => rfl⟩
  | cons fd fds ih =>
    rw [List.nodup_cons] at hnodup
    rw [List.foldl_cons] at h ⊢
    obtain ⟨hrun, hlist, hcount, hcopies, htable⟩ := ih hnodup.2 h
    obtain ⟨hrun', hlist', hcount', hcopies', htable'⟩ := forkFd_spec hrun
    have hrest (f : FilpId) : copies (forkFd new old s fd) old f fds = copies s old f fds :=
      copies_congr fun k _ => htable' old k (.inl hne.symm)
    refine ⟨hrun', hlist.trans hlist', ?_, ?_, ?_⟩
    · intro f
      rw [hcount, hcount', hrest, copies_cons s old f fd fds]
      omega
    · intro f
      have hfd : copies (fds.foldl (forkFd new old) (forkFd new old s fd)) new f [fd] = copies s old f [fd] := by
        rw [← hcopies' f]
        refine copies_congr fun k hk => ?_
        rw [List.mem_singleton] at hk
        subst hk
        exact htable new k (.inr hnodup.1)
      rw [copies_cons, hfd, hcopies, hrest, ← copies_cons]
    · intro q k hqk
      rw [List.mem_cons] at hqk
      rw [htable q k (by tauto), htable' q k (by tauto)]

theorem doClose_panicked (hget : filpGet s p fd = some g) (hinv : (fdInvalidate s p fd).panicked = true) :
    (doClose s p fd).1.panicked = true := by
  have hfd := (filpGet_some hget).1
  unfold doClose
  rw [if_neg (by omega), hget]
  simp only
  split <;> simp [fdFree_panicked hinv]

theorem doClose_ok (hfd : fd < filedescMax) (hv : (s.fdTable p fd).valid = true)
    (hg : (s.fdTable p fd).filp = some g) (h : (doClose s p fd).1.panicked = false) :
    (doClose s p fd).1 = filpRelease (s.setDesc p fd FileDesc.none) g ∧ s.panicked = false := by
  have hget : filpGet s p fd = some g := by
    unfold filpGet
    rw [if_pos ⟨hfd, hv⟩, hg]
  cases ha : (s.fdTable p fd).alloced with
  | false =>
    have hinv : (fdInvalidate s p fd).panicked = true := by
      unfold fdInvalidate
      rw [if_pos hfd, ha]
      rfl
    rw [doClose_panicked hget hinv] at h
    cases h
  | true =>
    have hkind : (s.filp g).type = .vnode ∨ (s.filp g).type = .superblock := by
      unfold doClose at h
      rw [if_neg (by omega), hget] at h
      unfold fdInvalidate at h
      rw [if_pos hfd, ha] at h
      simp only at h
      split at h
      · rename_i htype
        exact .inl htype
      · rename_i htype
        exact .inr htype
      · cases h
    have hclose := doClose_of_valid hfd hv ha hg hkind
    have hfree : fdFree (s.setDesc p fd { s.fdTable p fd with valid := false }) p fd = s.setDesc p fd FileDesc.none := by
      unfold fdFree
      rw [if_pos hfd, Filps.setDesc_self, ha, kassert_true]
      simp [Filps.State.setDesc]
    rw [hfree] at hclose
    refine ⟨hclose, ?_⟩
    rw [hclose, filpRelease_panicked] at h
    exact h

theorem doClose_spec (hfd : fd < filedescMax) (h : (doClose s p fd).1.panicked = false)
    (hpos : ∀ f, 0 < copies s p f [fd] → 2 ≤ (s.filp f).referenceCnt) : s.panicked = false ∧
    (doClose s p fd).1.filpFreeList = s.filpFreeList ∧
    (∀ f, ((doClose s p fd).1.filp f).referenceCnt = (s.filp f).referenceCnt - copies s p f [fd]) ∧
    ∀ q k, q ≠ p ∨ k ≠ fd → (doClose s p fd).1.fdTable q k = s.fdTable q k := by
  cases hget : filpGet s p fd with
  | none =>
    have hnone (f : FilpId) : copies s p f [fd] = 0 := by
      unfold filpGet at hget
      split_ifs at hget with hv
      · simp [copies, hget]
      · have : (s.fdTable p fd).valid = false := by simpa [hfd] using hv
        simp [copies, this]
    rw [doClose_none hget] at h ⊢
    exact ⟨h, rfl, by simp [hnone], fun _ _ _ => rfl⟩
  | some g =>
    obtain ⟨-, hv, hg⟩ := filpGet_some hget
    have hcopies (f : FilpId) : copies s p f [fd] = if g = f then 1 else 0 := by
      simp [copies, hv, hg]
    have hcount : 2 ≤ (s.filp g).referenceCnt := hpos g (by simp [hcopies])
    obtain ⟨hclose, hrun⟩ := doClose_ok hfd hv hg h
    rw [hclose, filpRelease_spec (s.setDesc p fd FileDesc.none) hcount]
    refine ⟨hrun, rfl, ?_, ?_⟩
    · intro f
      rw [hcopies]
      by_cases hfg : f = g
      · subst hfg
        simp [Filps.State.setFilp, Filps.State.setDesc]
      · simp [Filps.State.setFilp, Filps.State.setDesc, hfg, Ne.symm hfg]
    · intro q k hqk
      simp only [Filps.State.setFilp]
      rw [setDesc_fdTable, if_neg (by tauto)]

theorem doClose_running (h : (doClose s p fd).1.panicked = false) : s.panicked = false := by
  by_contra hs
  rw [Bool.not_eq_false] at hs
  have hinv : (fdInvalidate s p fd).panicked = true := by
    unfold fdInvalidate Filps.State.kassert
    split_ifs
    · exact hs
    · rfl
    · exact hs
  cases hget : filpGet s p fd with
  | none => exact absurd (doClose_none hget ▸ h) (by simp [hs])
  | some g => exact absurd h (by simp [doClose_panicked hget hinv])

theorem doClose_fold_running (h : (fds.foldl (fun s fd => (doClose s p fd).1) s).panicked = false) :
    s.panicked = false := by
  induction fds generalizing s with
  | nil => exact h
  | cons fd fds ih => exact doClose_running (ih h)

theorem doClose_fold (hnodup : fds.Nodup) (hmax : ∀ fd ∈ fds, fd < filedescMax)
    (h : (fds.foldl (fun s fd => (doClose s p fd).1) s).panicked = false)
    (hpos : ∀ f, 0 < copies s p f fds → (copies s p f fds : ℤ) < (s.filp f).referenceCnt) : s.panicked = false ∧
    (fds.foldl (fun s fd => (doClose s p fd).1) s).filpFreeList = s.filpFreeList ∧
    ∀ f, ((fds.foldl (fun s fd => (doClose s p fd).1) s).filp f).referenceCnt =
      (s.filp f).referenceCnt - copies s p f fds := by
  induction fds generalizing s with
  | nil => exact ⟨h, rfl, by simp [copies]⟩
  | cons fd fds ih =>
    rw [List.nodup_cons] at hnodup
    rw [List.foldl_cons] at h ⊢
    have hcons (f : FilpId) := copies_cons s p f fd fds
    -- Until the rest is known not to panic, the close of fd is only known to leave the other descriptors alone.
    have hrun : (doClose s p fd).1.panicked = false := doClose_fold_running h
    obtain ⟨hrun', hlist', hcount', htable'⟩ := doClose_spec (hmax fd (by simp)) hrun fun f hf => by
      have := hpos f (by rw [hcons]; omega)
      rw [hcons] at this
      omega
    have hrest (f : FilpId) : copies (doClose s p fd).1 p f fds = copies s p f fds := by
      refine copies_congr fun k hk => htable' p k (.inr ?_)
      rintro rfl
      exact hnodup.1 hk
    obtain ⟨-, hlist, hcount⟩ := ih hnodup.2 (fun k hk => hmax k (by simp [hk])) h fun f hf => by
      rw [hrest] at hf
      have := hpos f (by rw [hcons]; omega)
      rw [hcons] at this
      rw [hrest, hcount']
      omega
    refine ⟨hrun', hlist.trans hlist', ?_⟩
    intro f
    rw [hcount, hcount', hrest, hcons]
    omega

theorem closed_after_fork (hne : new ≠ old) (hnodup : fds.Nodup) (hmax : ∀ fd ∈ fds, fd < filedescMax)
    (hpos : ∀ fd ∈ fds, (s.fdTable old fd).valid = true → ∀ f, (s.fdTable old fd).filp = some f →
      1 ≤ (s.filp f).referenceCnt)
    (hfork : (fds.foldl (forkFd new old) s).panicked = false)
    (hclose : (fds.foldl (fun s fd => (doClose s new fd).1) (fds.foldl (forkFd new old) s)).panicked = false) :
    (fds.foldl (fun s fd => (doClose s new fd).1) (fds.foldl (forkFd new old) s)).filpFreeList = s.filpFreeList ∧
    ∀ f, ((fds.foldl (fun s fd => (doClose s new fd).1) (fds.foldl (forkFd new old) s)).filp f).referenceCnt =
      (s.filp f).referenceCnt := by
  obtain ⟨-, hlist, hcount, hcopies, -⟩ := forkFd_fold hne hnodup hfork
  obtain ⟨-, hlist', hcount'⟩ := doClose_fold hnodup hmax hclose fun f hf => by
    rw [hcopies] at hf ⊢
    rw [hcount]
    obtain ⟨fd, hfd, hrefers⟩ := List.countP_pos_iff.mp hf
    simp only [Bool.and_eq_true, decide_eq_true_eq] at hrefers
    have := hpos fd hfd hrefers.1 f hrefers.2
    omega
  refine ⟨hlist'.trans hlist, ?_⟩
  intro f
  rw [hcount', hcount, hcopies]
  omega

theorem filps_undone (hne : new ≠ old) {beyond : FileDesc}
    (hpos : ∀ fd < filedescMax, (s.fdTable old fd).valid = true → ∀ f, (s.fdTable old fd).filp = some f →
      1 ≤ (s.filp f).referenceCnt)
    (hfork : (Filps.forkFds s new old beyond).panicked = false)
    (hfini : (Filps.finiFproc (Filps.forkFds s new old beyond) new).panicked = false) :
    (Filps.finiFproc (Filps.forkFds s new old beyond) new).filpFreeList = s.filpFreeList ∧
    ∀ f, ((Filps.finiFproc (Filps.forkFds s new old beyond) new).filp f).referenceCnt = (s.filp f).referenceCnt := by
  have hpos' : ∀ fd ∈ List.range filedescMax, ((initFproc s new beyond).fdTable old fd).valid = true →
      ∀ f, ((initFproc s new beyond).fdTable old fd).filp = some f → 1 ≤ (s.filp f).referenceCnt := by
    intro fd hfd
    have htable : (initFproc s new beyond).fdTable old = s.fdTable old := update_of_ne hne.symm _ _
    rw [htable]
    exact hpos fd (List.mem_range.mp hfd)
  -- The fold over the whole table is kept closed.
  obtain ⟨u, hu, hu'⟩ : ∃ u, u = Filps.forkFds s new old beyond ∧
      u = (List.range filedescMax).foldl (forkFd new old) (initFproc s new beyond) := ⟨_, rfl, rfl⟩
  obtain ⟨t, ht, ht'⟩ : ∃ t, Filps.finiFproc u new = { t with hasTable := update t.hasTable new false } ∧
      t = (List.range filedescMax).foldl (fun s fd => (doClose s new fd).1) u := ⟨_, rfl, rfl⟩
  rw [← hu] at hfork hfini ⊢
  rw [ht] at hfini ⊢
  have hclosed := closed_after_fork hne List.nodup_range (fun _ => List.mem_range.mp) hpos' (hu' ▸ hfork)
    (by rw [← hu', ← ht']; exact hfini)
  rw [← hu', ← ht'] at hclosed
  exact hclosed

end Descriptors

section Pids

open Procs

variable {cfg : Procs.Config} {s u w : Procs.State} {x y : Ids} {cur new p : ProcId} {e k : PidT} {d : PidDesc}
  {l : List ProcId}

def bare (d : PidDesc) : PidDesc := { d with proc := none, thread := none }

theorem bare_eq_iff : bare d = d ↔ Unnamed d := by
  simp only [Unnamed, PidDesc.ext_iff]
  tauto

theorem live_iff : Live x ↔ ∀ (r : Roll) e i, r.entry (x.pidTable e) = some i → r.list x i ≠ [] := by
  refine ⟨fun h r => ?_, fun h => ⟨h .group, h .session⟩⟩
  cases r
  · exact h.pgrps
  · exact h.sessions

theorem Live.setList (h : Live x) (r : Roll) (i : Nat) (hl : l ≠ []) : Live (r.setList x i l) := by
  refine live_iff.mpr fun q e j hj => ?_
  rw [r.setList_pidTable] at hj
  have hlive := live_iff.mp h q e j hj
  by_cases hq : q = r
  · subst hq
    rw [q.list_setList]
    by_cases hji : j = i
    · simpa [hji] using hl
    · simpa [hji] using hlive
  · rw [Roll.list_setList_other hq]
    exact hlive

theorem Live.setDesc (h : Live x) (hd : ∀ (r : Roll) i, r.entry d = some i → r.entry (x.pidTable e) = some i) :
    Live (x.setDesc e d) := by
  refine live_iff.mpr fun r k i hi => ?_
  have hlist : r.list (x.setDesc e d) i = r.list x i := by cases r <;> rfl
  rw [hlist]
  by_cases hk : k = e
  · subst hk
    rw [setDesc_self] at hi
    exact live_iff.mp h r k i (hd r i hi)
  · rw [setDesc_other hk] at hi
    exact live_iff.mp h r k i hi

theorem Live.left_eq (h : Live x) (r : Roll) {i : Nat} (hi : r.entry (x.pidTable e) = some i)
    (hne : (r.list x i).erase p ≠ []) :
    r.left x e i p = (r.setList x i ((r.list x i).erase p)).setDesc e (bare (x.pidTable e)) := by
  have hlive := live_iff.mp (h.setList r i hne)
  rw [r.left_eq, r.drop_of_members (hlive r e), freeDesc_of_members fun q => hlive q e, if_neg, r.setList_pidTable]
  · rfl
  · rintro ⟨hs, hg⟩
    cases r
    · exact nomatch hi.symm.trans hg
    · exact nomatch hi.symm.trans hs

structure Begun (s u : Procs.State) (cur new : ProcId) (e : PidT) : Prop where
  procs : s.freeProcessList = new :: u.freeProcessList
  pids : s.ids.freePiddescList = e :: u.ids.freePiddescList
  sessions : u.ids.freeSessionList = s.ids.freeSessionList
  pgrps : u.ids.freePgrpList = s.ids.freePgrpList
  threads : s.freeThreadList.Nodup → u.freeThreadList.Nodup
  entry : u.ids.pidTable e = { PidDesc.empty with proc := some new }
  parent : (u.proc new).parent = some cur
  pid : (u.proc new).pid = e
  children : (u.proc cur).childList = (s.proc cur).childList ++ [new]
  running : u.panicked = false

theorem begun_allocProcess (hrun : s.panicked = false) (hne : cur ≠ new) (h : allocProcess s cur = (u, some new)) :
    ∃ e, Begun s u cur new e ∧ (u.proc cur).pgid = (s.proc cur).pgid ∧ (u.proc cur).sid = (s.proc cur).sid ∧
      u.ids.pgrp = s.ids.pgrp ∧ u.ids.session = s.ids.session ∧
      ∀ k, k ≠ e → u.ids.pidTable k = s.ids.pidTable k := by
  obtain ⟨rest, e, free, hprocs, hpids, v, rfl, rfl⟩ := allocProcess_some h
  refine ⟨e, ⟨hprocs, hpids, rfl, rfl, id, ?_, ?_, ?_, ?_, hrun⟩, ?_, ?_, rfl, rfl, ?_⟩
  · exact setDesc_self _
  · simp [hne.symm]
  · simp [hne.symm]
  · simp [hne]
  · simp [hne]
  · simp [hne]
  · intro k hk
    exact setDesc_other hk

theorem Begun.freed (h : Begun s u cur new e) (hne : cur ≠ new) (hchild : new ∉ (s.proc cur).childList)
    (hrun : (Procs.freeProcess cfg u new).panicked = false) :
    ((Procs.freeProcess cfg u new).proc cur).childList = (s.proc cur).childList ∧
    (Procs.freeProcess cfg u new).freeProcessList = u.freeProcessList ++ [new] ∧
    (Procs.freeProcess cfg u new).ids.freePiddescList = u.ids.freePiddescList ++ [e] ∧
    (Procs.freeProcess cfg u new).ids.freeSessionList = s.ids.freeSessionList ∧
    (Procs.freeProcess cfg u new).ids.freePgrpList = s.ids.freePgrpList ∧
    (Procs.freeProcess cfg u new).freeThreadList = u.freeThreadList ∧
    ∀ k, (Procs.freeProcess cfg u new).ids.pidTable k = if k = e then PidDesc.empty else u.ids.pidTable k := by
  have hfree : freeDesc u.ids e = { u.ids.setDesc e PidDesc.empty with
      freePiddescList := u.ids.freePiddescList ++ [e] } := by
    have hnone (r : Roll) (i : Nat) (hi : r.entry (u.ids.pidTable e) = some i) : r.list u.ids i ≠ [] := by
      rw [h.entry] at hi
      cases r <;> cases hi
    rw [freeDesc_of_members hnone, h.entry]
    rfl
  rcases freeProcess_cases cfg new h.running with hpanic | ⟨w, hw, hparent⟩
  · rw [hpanic] at hrun
    cases hrun
  rw [h.parent] at hparent
  rcases hparent with ⟨hnone, -⟩ | ⟨q, hq, rfl⟩
  · cases hnone
  cases hq
  rw [hw, h.pid, hfree]
  refine ⟨?_, rfl, rfl, h.sessions, h.pgrps, rfl, ?_⟩
  · simp only [State.setProc, update_of_ne hne, h.children]
    rw [List.erase_append_right _ hchild]
    simp
  intro k
  by_cases hk : k = e
  · subst hk
    simp [State.setProc]
  · simp [State.setProc, hk]

theorem erase_concat_ne_nil (h : l ≠ []) (p : ProcId) : (l ++ [p]).erase p ≠ [] := by
  have hpos := List.length_pos_iff.mpr h
  rw [← List.length_pos_iff, List.length_erase_of_mem (by simp), List.length_append, List.length_singleton]
  omega

theorem Begun.rewrite {q : Process} (h : Begun s u cur new e) (hne : cur ≠ new)
    (hpids : y.freePiddescList = u.ids.freePiddescList) (hsessions : y.freeSessionList = u.ids.freeSessionList)
    (hpgrps : y.freePgrpList = u.ids.freePgrpList) (hentry : y.pidTable e = u.ids.pidTable e)
    (hparent : q.parent = (u.proc new).parent) (hpid : q.pid = (u.proc new).pid) :
    Begun s ({ u with ids := y }.setProc new q) cur new e where
  procs := h.procs
  pids := h.pids.trans (congrArg (e :: ·) hpids.symm)
  sessions := hsessions.trans h.sessions
  pgrps := hpgrps.trans h.pgrps
  threads := h.threads
  entry := hentry.trans h.entry
  parent := by simpa [State.setProc, hparent] using h.parent
  pid := by simpa [State.setProc, hpid] using h.pid
  children := by simpa [State.setProc, hne] using h.children
  running := h.running

theorem Begun.forkSessionPgrp (h : Begun s u cur new e) (hne : cur ≠ new) :
    Begun s (Procs.forkSessionPgrp cfg u new cur) cur new e := by
  unfold Procs.forkSessionPgrp joinPgrp joinSession
  dsimp only
  split <;> split <;> exact h.rewrite hne rfl rfl rfl rfl rfl rfl

structure Joined (cfg : Procs.Config) (u : Procs.State) (new : ProcId) : Prop where
  live : Live u.ids
  pgrp : ∀ i, getPgrp cfg u.ids (u.proc new).pgid = some i → (u.ids.pgrp i).processList.erase new ≠ []
  session : ∀ i, getSession cfg u.ids (u.proc new).sid = some i → (u.ids.session i).processList.erase new ≠ []

theorem Live.join (hlive : Live x) (cfg : Procs.Config) (r : Roll) (g : PidT) (p : ProcId) :
    Live (r.join cfg x g p) ∧ (∀ q, q ≠ r → q.list (r.join cfg x g p) = q.list x) ∧
    ∀ i, r.find cfg (r.join cfg x g p) g = some i → (r.list (r.join cfg x g p) i).erase p ≠ [] := by
  have hfind : r.find cfg (r.join cfg x g p) g = r.find cfg x g := r.find_congr (by rw [r.join_pidTable])
  rw [hfind, r.join_eq]
  cases hi : r.find cfg x g with
  | none => exact ⟨hlive, fun _ _ => rfl, by simp⟩
  | some i =>
    refine ⟨hlive.setList r i (by simp), fun q hq => Roll.list_setList_other hq x i _, ?_⟩
    rintro i' ⟨⟩
    rw [Option.elim, r.list_setList, update_self]
    exact erase_concat_ne_nil (live_iff.mp hlive r g i (r.find_some hi).2) p

theorem forkSessionPgrp_new (cfg : Procs.Config) (u : Procs.State) (new cur : ProcId) :
    (Procs.forkSessionPgrp cfg u new cur).proc new =
      { u.proc new with sid := (u.proc cur).sid, pgid := (u.proc cur).pgid } := by
  simp [Procs.forkSessionPgrp]

theorem joined_forkSessionPgrp (cfg : Procs.Config) (hlive : Live u.ids) (new cur : ProcId) :
    Joined cfg (Procs.forkSessionPgrp cfg u new cur) new := by
  obtain ⟨hlive', -, hsession⟩ := hlive.join cfg .session (u.proc cur).sid new
  obtain ⟨hlive'', hkept, hpgrp⟩ := hlive'.join cfg .group (u.proc cur).pgid new
  refine ⟨hlive'', ?_, ?_⟩
  · rw [forkSessionPgrp_new]
    exact hpgrp
  rw [forkSessionPgrp_new]
  intro i hi
  have hsame := congrFun (Roll.group.join_pidTable cfg (joinSession cfg u.ids (u.proc cur).sid new) (u.proc cur).pgid new)
  have hlist := hsession i ((Roll.session.find_congr (congrArg _ (hsame _))).symm.trans hi)
  rw [← hkept .session (by simp)] at hlist
  exact hlist

-- remove_from_pgrp and remove_from_session give up the id even when others are left.
structure Left (u w : Procs.State) (named : PidT → Prop) : Prop where
  cleared : ∀ k, named k → w.ids.pidTable k = bare (u.ids.pidTable k)
  kept : ∀ k, ¬ named k → w.ids.pidTable k = u.ids.pidTable k

theorem left_update {named : PidT → Prop} (k : PidT)
    (hw : w.ids.pidTable = update u.ids.pidTable k (bare (u.ids.pidTable k))) (hnamed : ∀ g, named g ↔ g = k) :
    Left u w named := by
  refine ⟨?_, ?_⟩
  · intro g hg
    cases (hnamed g).mp hg
    rw [hw, update_self]
  · intro g hg
    rw [hw, update_of_ne fun hgk => hg ((hnamed g).mpr hgk)]

theorem Begun.remove (h : Begun s u cur new e) (hne : cur ≠ new) (r : Roll) (hlive : Live u.ids)
    (hj : ∀ i, r.find cfg u.ids (r.idOf (u.proc new)) = some i → (r.list u.ids i).erase new ≠ []) :
    Begun s (r.remove cfg u new) cur new e ∧
    Left u (r.remove cfg u new) (fun k => (r.find cfg u.ids (r.idOf (u.proc new))).isSome ∧ k = r.idOf (u.proc new)) ∧
    Live (r.remove cfg u new).ids ∧ ∀ q, q ≠ r →
      q.list (r.remove cfg u new).ids = q.list u.ids ∧ q.idOf ((r.remove cfg u new).proc new) = q.idOf (u.proc new) := by
  rcases r.remove_cases cfg u new with ⟨hnone, hsame⟩ | ⟨i, hi, hleft⟩
  · rw [hsame]
    exact ⟨h, ⟨by simp [hnone], fun _ _ => rfl⟩, hlive, fun _ _ => ⟨rfl, rfl⟩⟩
  obtain ⟨-, hgroup⟩ := r.find_some hi
  have hids := hlive.left_eq r hgroup (hj i hi)
  have hentry : e ≠ r.idOf (u.proc new) := by
    intro he
    rw [← he, h.entry] at hgroup
    cases r <;> cases hgroup
  have htable := r.setList_pidTable u.ids i ((r.list u.ids i).erase new)
  rw [hleft, hids]
  refine ⟨?_, left_update (r.idOf (u.proc new)) ?_ (by simp [hi]), ?_, fun q hq => ⟨?_, ?_⟩⟩
  · cases r <;> exact h.rewrite hne rfl rfl rfl (setDesc_other hentry) rfl rfl
  · cases r <;> rfl
  · refine (hlive.setList r i (hj i hi)).setDesc fun q j hd => ?_
    rw [htable]
    cases q <;> exact hd
  · exact Eq.trans (by cases q <;> rfl) (Roll.list_setList_other hq u.ids i _)
  · rw [setProc_self, Roll.idOf_setId_other hq]

def Leads (cfg : Procs.Config) (x : Ids) (pgid sid k : PidT) : Prop :=
  ((getPgrp cfg x pgid).isSome ∧ k = pgid) ∨ ((getSession cfg x sid).isSome ∧ k = sid)

theorem Begun.finiSessionPgrp (h : Begun s u cur new e) (hne : cur ≠ new) (hj : Joined cfg u new) :
    Begun s (Procs.finiSessionPgrp cfg u new) cur new e ∧
    Left u (Procs.finiSessionPgrp cfg u new) (Leads cfg u.ids (u.proc new).pgid (u.proc new).sid) := by
  obtain ⟨hbegun, hleft, hlive, hsame⟩ := h.remove hne .group hj.live hj.pgrp
  obtain ⟨hlists, hsid⟩ := hsame .session (by simp)
  have hget : Roll.session.find cfg (Roll.group.remove cfg u new).ids (Roll.session.idOf (u.proc new)) =
      Roll.session.find cfg u.ids (Roll.session.idOf (u.proc new)) := by
    refine Roll.session.find_congr ?_
    by_cases hk : (getPgrp cfg u.ids (u.proc new).pgid).isSome ∧ (u.proc new).sid = (u.proc new).pgid
    · exact (congrArg _ (hleft.cleared _ hk)).trans rfl
    · exact congrArg _ (hleft.kept _ hk)
  obtain ⟨hbegun', hleft', -⟩ := hbegun.remove hne .session hlive (by rw [hsid, hget, hlists]; exact hj.session)
  rw [hsid, hget] at hleft'
  refine ⟨hbegun', ?_, ?_⟩
  · intro k hk
    by_cases hs : (getSession cfg u.ids (u.proc new).sid).isSome ∧ k = (u.proc new).sid
    · refine (hleft'.cleared k hs).trans ?_
      by_cases hg : (getPgrp cfg u.ids (u.proc new).pgid).isSome ∧ k = (u.proc new).pgid
      · rw [hleft.cleared k hg]
        rfl
      · rw [hleft.kept k hg]
    · exact (hleft'.kept k hs).trans (hleft.cleared k (hk.resolve_right hs))
  · intro k hk
    rw [Leads, not_or] at hk
    exact (hleft'.kept k hk.2).trans (hleft.kept k hk.1)

theorem Begun.allocThread (h : Begun s u cur new e) (hw : allocThread u = (w, none)) :
    Begun s w cur new e ∧ w.ids = u.ids ∧ w.proc = u.proc := by
  rcases allocThread_none hw with rfl | ⟨t, rest, hthreads, rfl⟩
  · exact ⟨h, rfl, rfl⟩
  refine ⟨{ h with threads := ?_ }, rfl, rfl⟩
  intro hnodup
  exact nodup_recycled (hthreads ▸ h.threads hnodup)

theorem allocProcess_empty (h : allocProcess s cur = (u, none)) :
    s.freeProcessList = [] ∨ s.ids.freePiddescList = [] := by
  cases hp : s.freeProcessList with
  | nil => exact .inl rfl
  | cons p rest =>
    cases he : s.ids.freePiddescList with
    | nil => exact .inr rfl
    | cons e es => simp [allocProcess, allocPidProc, allocPid, hp, he, State.setProc] at h

end Pids

section Calls

variable {cfg : Config} {v : MemRegions.View} {x x' : System} {cur new p : ProcId} {beyond : Filps.FileDesc}
  {s t u : Procs.State} {f : Vm.Frame} {r r' : MemRegions.State} {m m' : Vm.Memory} {rest pagedirs : List ℕ}
  {α β : Type} {e : PidT} {d : ℕ}

-- The loops over a whole table stay folded.
attribute [local irreducible] Filps.forkFds Filps.finiFproc

theorem bind_ok {c : Except Stop α} {f : α → Except Stop β} {b : β} (h : (c >>= f) = .ok b) :
    ∃ a, c = .ok a ∧ f a = .ok b := by
  cases c with
  | error e => cases h
  | ok a => exact ⟨a, rfl, h⟩

theorem setProcs_ok (h : x.setProcs s = .ok x') : s.panicked = false ∧ x' = { x with procs := s } := by
  unfold System.setProcs at h
  split_ifs at h with hp
  cases h
  exact ⟨by simpa using hp, rfl⟩

theorem setFs_ok {s : Filps.State} (h : x.setFs s = .ok x') : s.panicked = false ∧ x' = { x with fs := s } := by
  unfold System.setFs at h
  split_ifs at h with hp
  cases h
  exact ⟨by simpa using hp, rfl⟩

theorem freeAll_ok (h : freeAll cfg x p = .ok x') :
    ∃ r, MemRegions.memregionFreeAll cfg.regions x.regions p = some r ∧ x' = { x with regions := r } := by
  unfold freeAll at h
  split at h
  · cases h
  · rename_i r hr
    cases h
    exact ⟨r, hr, rfl⟩

theorem kmallocPage_ok (h : kmallocPage x = .ok (f, x')) :
    ∃ m, Vm.allocPage x.vm = some (f, m) ∧ x' = { x with vm := m } := by
  unfold kmallocPage at h
  split at h
  · cases h
  · rename_i g m halloc
    cases h
    exact ⟨m, halloc, rfl⟩

theorem forkFds_ok (h : forkFds x new cur beyond = .ok x') :
    ∃ f m, Vm.allocPage x.vm = some (f, m) ∧ (Filps.forkFds x.fs new cur beyond).panicked = false ∧
      x' = { x with vm := m, fdTable := update x.fdTable new f, fs := Filps.forkFds x.fs new cur beyond } := by
  obtain ⟨⟨f, x₁⟩, h₁, h⟩ := bind_ok h
  obtain ⟨m, halloc, rfl⟩ := kmallocPage_ok h₁
  obtain ⟨hfds, rfl⟩ := setFs_ok h
  exact ⟨f, m, halloc, hfds, rfl⟩

theorem forkThread_ok (h : forkThread x new = .ok (x', none)) :
    ∃ s, Procs.allocThread x.procs = (s, none) ∧ x' = { x with procs := s } := by
  unfold forkThread at h
  split at h
  · rename_i s hthread
    cases h
    exact ⟨s, hthread, rfl⟩
  · obtain ⟨⟨stack, x₁⟩, -, h⟩ := bind_ok h
    cases h

inductive Failure (cfg : Config) (x : System) (cur : ProcId) (beyond : Filps.FileDesc) : System → Prop
  | noProcess {s : Procs.State} (halloc : Procs.allocProcess x.procs cur = (s, none)) :
      Failure cfg x cur beyond { x with procs := s }
  | noPagedir {s : Procs.State} {new : ProcId} (halloc : Procs.allocProcess x.procs cur = (s, some new))
      (hdirs : x.freePmappagedirList = []) (hrun : (Procs.freeProcess cfg.procs s new).panicked = false) :
      Failure cfg x cur beyond { x with procs := Procs.freeProcess cfg.procs s new }
  | noRegion {s : Procs.State} {new : ProcId} {d : ℕ} {rest : List ℕ} {r : MemRegions.State} {e : MemRegions.Errno}
      {x' : System} (halloc : Procs.allocProcess x.procs cur = (s, some new)) (hdirs : x.freePmappagedirList = d :: rest)
      (hregions : MemRegions.forkMemregions cfg.regions x.regions new cur = some (r, .error e))
      (htwice : x'.freePmappagedirList = rest ++ [d] ++ [d]) : Failure cfg x cur beyond x'
  | noThread {s t : Procs.State} {new : ProcId} {d : ℕ} {rest : List ℕ} {pagedir : ProcId → ℕ}
      {r r' : MemRegions.State} {m m' : Vm.Memory} {f : Vm.Frame} {fdTable : ProcId → Vm.Frame}
      (halloc : Procs.allocProcess x.procs cur = (s, some new)) (hdirs : x.freePmappagedirList = d :: rest)
      (hregions : MemRegions.forkMemregions cfg.regions x.regions new cur = some (r, .ok ()))
      (hpages : Vm.forkPages (Vm.pmapCreate x.vm new) cur new cfg.layout.pages = .done m)
      (htable : Vm.allocPage m = some (f, m'))
      (hfds : (Filps.forkFds x.fs new cur beyond).panicked = false)
      (hthread : Procs.allocThread (Procs.forkSessionPgrp cfg.procs s new cur) = (t, none))
      (hfree : MemRegions.memregionFreeAll cfg.regions r new = some r')
      (hclosed : (Filps.finiFproc (Filps.forkFds x.fs new cur beyond) new).panicked = false)
      (hrun : (Procs.freeProcess cfg.procs (Procs.finiSessionPgrp cfg.procs t new) new).panicked = false) :
      Failure cfg x cur beyond ⟨Procs.freeProcess cfg.procs (Procs.finiSessionPgrp cfg.procs t new) new, r',
        Vm.freePage m' f, rest ++ [d], pagedir, Filps.finiFproc (Filps.forkFds x.fs new cur beyond) new, fdTable⟩

theorem abandon_ok (h : abandon cfg x new = .ok x') :
    ∃ r, MemRegions.memregionFreeAll cfg.regions x.regions new = some r ∧
      (Filps.finiFproc x.fs new).panicked = false ∧
      (Procs.freeProcess cfg.procs (Procs.finiSessionPgrp cfg.procs x.procs new) new).panicked = false ∧
      x' = { x with
        procs := Procs.freeProcess cfg.procs (Procs.finiSessionPgrp cfg.procs x.procs new) new
        regions := r
        vm := Vm.freePage x.vm (x.fdTable new)
        freePmappagedirList := x.freePmappagedirList ++ [x.pagedir new]
        fs := Filps.finiFproc x.fs new } := by
  obtain ⟨x₁, h₁, h⟩ := bind_ok h
  obtain ⟨r, hr, rfl⟩ := freeAll_ok h₁
  obtain ⟨x₂, h₂, h⟩ := bind_ok h
  obtain ⟨x₃, h₃, h₂⟩ := bind_ok h₂
  obtain ⟨hfs, rfl⟩ := setFs_ok h₃
  cases h₂
  obtain ⟨x₄, h₄, h⟩ := bind_ok h
  obtain ⟨-, rfl⟩ := setProcs_ok h₄
  obtain ⟨hprocs, rfl⟩ := setProcs_ok h
  exact ⟨r, hr, hfs, hprocs, rfl⟩

theorem forkAddressSpace_ok {ok : Bool} (hne : new ≠ cur) (h : forkAddressSpace cfg x new cur = .ok (x', ok)) :
    (x.freePmappagedirList = [] ∧ ok = false ∧ x' = x) ∨
    ∃ d rest, x.freePmappagedirList = d :: rest ∧
      ((∃ r e, MemRegions.forkMemregions cfg.regions x.regions new cur = some (r, .error e) ∧ ok = false ∧
          x'.freePmappagedirList = rest ++ [d] ++ [d]) ∨
        ∃ r m, MemRegions.forkMemregions cfg.regions x.regions new cur = some (r, .ok ()) ∧ ok = true ∧
          Vm.forkPages (Vm.pmapCreate x.vm new) cur new cfg.layout.pages = .done m ∧
          x' = { x with
            regions := r, vm := m, freePmappagedirList := rest, pagedir := update x.pagedir new d }) := by
  unfold forkAddressSpace pmapCreate at h
  cases hdirs : x.freePmappagedirList with
  | nil =>
    rw [hdirs] at h
    cases h
    exact .inl ⟨rfl, rfl, rfl⟩
  | cons d rest =>
    refine .inr ⟨d, rest, rfl, ?_⟩
    rw [hdirs] at h
    simp only at h
    split at h
    · cases h
    · rename_i r e hregions
      obtain ⟨x₁, h₁, h⟩ := bind_ok h
      obtain ⟨r', -, rfl⟩ := freeAll_ok h₁
      cases h
      exact .inl ⟨r, e, hregions, rfl, by simp [pmapDestroy]⟩
    · rename_i r a hregions
      split at h
      · rename_i m hpages
        cases h
        exact .inr ⟨r, m, hregions, rfl, hpages, rfl⟩
      · rename_i m hpages
        exact absurd hpages (forkPages_ne_fail hne cfg.layout.nodup cfg.layout.zero_notMem (by simp))
      · cases h
      · cases h

theorem failure_of_error (hcaller : cur ∉ x.procs.freeProcessList) (h : sysFork cfg x cur beyond = .ok (x', none)) :
    Failure cfg x cur beyond x' := by
  unfold sysFork at h
  split at h
  · rename_i s halloc
    cases h
    exact .noProcess halloc
  rename_i s new halloc
  have hne : new ≠ cur := by
    obtain ⟨rest, e, free, hprocs, -⟩ := Procs.allocProcess_some halloc
    rintro rfl
    exact hcaller (by simp [hprocs])
  obtain ⟨⟨x₁, ok⟩, h₁, h⟩ := bind_ok h
  rcases forkAddressSpace_ok hne h₁ with ⟨hdirs, rfl, rfl⟩ | ⟨d, rest, hdirs, ⟨r, e, hregions, rfl, htwice⟩ |
    ⟨r, m, hregions, rfl, hpages, rfl⟩⟩
  · obtain ⟨x₂, h₂, h⟩ := bind_ok h
    obtain ⟨hrun, rfl⟩ := setProcs_ok h₂
    cases h
    exact .noPagedir halloc hdirs hrun
  · obtain ⟨x₂, h₂, h⟩ := bind_ok h
    obtain ⟨-, rfl⟩ := setProcs_ok h₂
    cases h
    exact .noRegion halloc hdirs hregions htwice
  · obtain ⟨x₂, h₂, h⟩ := bind_ok h
    obtain ⟨f, m', htable, hfds, rfl⟩ := forkFds_ok h₂
    obtain ⟨⟨x₃, thread⟩, h₃, h⟩ := bind_ok h
    cases thread with
    | none =>
      obtain ⟨t, hthread, rfl⟩ := forkThread_ok h₃
      obtain ⟨x₄, h₄, h⟩ := bind_ok h
      obtain ⟨r', hfree, hclosed, hrun, rfl⟩ := abandon_ok h₄
      cases h
      simp only [update_self]
      exact .noThread halloc hdirs hregions hpages htable hfds hthread hfree hclosed hrun
    | some t => cases h

theorem regions_undone {s : MemRegions.State} (h : MemRegions.Inv cfg.regions s v) (hne : cur ≠ new)
    (hempty : v.sorted new = []) (hfork : MemRegions.forkMemregions cfg.regions s new cur = some (r, .ok ()))
    (hfree : MemRegions.memregionFreeAll cfg.regions r new = some r') :
    (v.sorted cur).length ≤ v.unused.length ∧ ∃ v', MemRegions.Shows r' v' ∧ (∀ q, q ∈ v'.unused ↔ q ∈ v.unused) ∧
      ∀ p q, q ∈ v'.free p ↔ q ∈ v.free p := by
  obtain ⟨u, sc, w, hu, hw, -, -, -, hmoves, hok⟩ := h.fork new cur
  rw [hfork] at hu
  cases hu
  obtain ⟨u', w', hu', hw', hsorted, -, hmoves'⟩ := (hw.except new).freeAll
  rw [hfree] at hu'
  cases hu'
  have hnew : w'.sorted new = [] := by rw [hsorted, update_self]
  have htotal := hmoves.trans hmoves'
  refine ⟨(hok hne).mp rfl, w', hw'.shows, ?_, ?_⟩
  · intro q
    have hpool := htotal.pool q
    simpa [hnew] using hpool
  intro p q
  by_cases hp : p = new
  · subst hp
    rw [hw'.isFree, h.isFree, hnew, hempty]
    simp
  · rw [htotal.free p hp]
    simp [hp]

section

variable (hne : cur ≠ new) (hpages : Vm.forkPages (Vm.pmapCreate x.vm new) cur new cfg.layout.pages = .done m)
  (htable : Vm.allocPage m = some (f, m'))
include hne hpages htable

theorem unmapped_undone (hun : ∀ va ∈ cfg.layout.pages, Vm.pmapExtract x.vm cur va = none) :
    x.vm.freePageQueue.getLast? = some f ∧
    (Vm.freePage m' f).freePageQueue = x.vm.freePageQueue ∧
    ∀ k, (Vm.freePage m' f).referenceCnt k = if k = f then -1 else x.vm.referenceCnt k := by
  have hsame : ∀ va ∈ cfg.layout.pages, Vm.pmapExtract (Vm.pmapCreate x.vm new) cur va = none := by
    intro va hva
    rw [← hun va hva]
    simp [Vm.pmapExtract, hne]
  rw [forkPages_unmapped hsame] at hpages
  cases hpages
  obtain ⟨queue, hqueue, rfl⟩ := Vm.allocPage_eq_some htable
  have hqueue : x.vm.freePageQueue = queue ++ [f] := hqueue
  refine ⟨by rw [hqueue, List.getLast?_concat], ?_, ?_⟩
  · simp [Vm.freePage, hqueue]
  intro k
  by_cases hk : k = f <;> simp [Vm.freePage, hk]

theorem mapped_counts (hq : x.vm.freePageQueue.Nodup)
    (hmapped : ¬ ∀ va ∈ cfg.layout.pages, Vm.pmapExtract x.vm cur va = none) :
    ∃ g ∈ x.vm.freePageQueue, 1 ≤ (Vm.freePage m' f).referenceCnt g := by
  push Not at hmapped
  obtain ⟨va, hva, hsome⟩ := hmapped
  have hsome' : Vm.pmapExtract (Vm.pmapCreate x.vm new) cur va ≠ none := by
    simpa [Vm.pmapExtract, hne] using hsome
  have hbare : ∀ d, (Vm.pmapCreate x.vm new).l1Table new d = none := by simp
  obtain ⟨g, hg, hused⟩ := forkPages_mapped (m := Vm.pmapCreate x.vm new) hq hbare ⟨va, hva, hsome'⟩ hpages
  have hgf : g ≠ f := by
    obtain ⟨queue, hqueue, -⟩ := Vm.allocPage_eq_some htable
    rintro rfl
    exact hused.1 (by simp [hqueue])
  refine ⟨g, hg, ?_⟩
  have hcount := (hused.allocPage htable).2
  unfold Vm.freePage
  dsimp only
  split_ifs <;> simpa [hgf] using hcount

theorem undone_pages (h : Wf cfg v x cur) : (Vm.freePage m' f).referenceCnt = x.vm.referenceCnt ↔
      (∀ va ∈ cfg.layout.pages, Vm.pmapExtract x.vm cur va = none) ∧
        ∀ g, x.vm.freePageQueue.getLast? = some g → x.vm.referenceCnt g = -1 := by
  constructor
  · intro hsame
    have hun : ∀ va ∈ cfg.layout.pages, Vm.pmapExtract x.vm cur va = none := by
      by_contra hmapped
      obtain ⟨g, hg, hcount⟩ := mapped_counts hne hpages htable h.nodup.pages hmapped
      rw [hsame] at hcount
      have hfree := h.pages g hg
      omega
    obtain ⟨hlast, -, hcounts⟩ := unmapped_undone hne hpages htable hun
    refine ⟨hun, fun g hg => ?_⟩
    rw [hlast] at hg
    cases hg
    rw [← hsame, hcounts, if_pos rfl]
  · rintro ⟨hun, hfdTable⟩
    obtain ⟨hlast, -, hcounts⟩ := unmapped_undone hne hpages htable hun
    funext k
    rw [hcounts]
    split_ifs with hk
    · rw [hk, hfdTable f hlast]
    · rfl

end

theorem Wf.not_leads (h : Wf cfg v x cur) (he : e ∈ x.procs.ids.freePiddescList) :
    ¬ Leads cfg.procs x.procs.ids (x.procs.proc cur).pgid (x.procs.proc cur).sid e := by
  have hnone (r : Procs.Roll) (hsome : (r.find cfg.procs x.procs.ids e).isSome) : False := by
    rw [r.find_of_none (by rw [h.entries e he]; cases r <;> rfl)] at hsome
    cases hsome
  rintro (⟨hsome, rfl⟩ | ⟨hsome, rfl⟩)
  · exact hnone .group hsome
  · exact hnone .session hsome

theorem Begun.freeListsNodup (h : Begun x.procs u cur new e) (hne : cur ≠ new)
    (hchild : new ∉ (x.procs.proc cur).childList) (hrun : (Procs.freeProcess cfg.procs u new).panicked = false)
    (hx : FreeListsNodup x) (hx' : x'.procs = Procs.freeProcess cfg.procs u new)
    (hpagedirs : x'.freePmappagedirList.Nodup) (hpages : x'.vm.freePageQueue.Nodup)
    (hfilps : x'.fs.filpFreeList.Nodup) : FreeListsNodup x' := by
  obtain ⟨-, hprocs, hpids, hsessions, hpgrps, hthreads, -⟩ := h.freed hne hchild hrun
  rw [← hx'] at hprocs hpids hsessions hpgrps hthreads
  refine ⟨?_, ?_, ?_, ?_, ?_, hpagedirs, hpages, hfilps⟩
  · rw [hprocs]
    exact Procs.nodup_recycled (h.procs ▸ hx.processes)
  · rw [hthreads]
    exact h.threads hx.threads
  · rw [hpids]
    exact Procs.nodup_recycled (h.pids ▸ hx.pids)
  · rw [hsessions]
    exact hx.sessions
  · rw [hpgrps]
    exact hx.pgrps

section

variable (h : Wf cfg v x cur)
include h

theorem restored_noProcess (halloc : Procs.allocProcess x.procs cur = (s, none)) :
    Restored v x { x with procs := s } cur := by
  have hregions : ∃ v', MemRegions.Shows x.regions v' ∧ (∀ r, r ∈ v'.unused ↔ r ∈ v.unused) ∧
      ∀ p r, r ∈ v'.free p ↔ r ∈ v.free p := ⟨v, h.regions.shows, fun _ => Iff.rfl, fun _ _ => Iff.rfl⟩
  rcases Procs.allocProcess_none halloc with rfl | ⟨p, rest, hprocs, rfl⟩
  · exact ⟨rfl, rfl, rfl, fun _ => Iff.rfl, hregions, fun _ => rfl, h.nodup⟩
  have hne : cur ≠ p := by
    rintro rfl
    exact h.caller (by simp [hprocs])
  refine ⟨?_, rfl, rfl, fun _ => Iff.rfl, hregions, fun _ => rfl, { h.nodup with processes := ?_ }⟩
  · simp [hne]
  · exact Procs.nodup_recycled (hprocs ▸ h.nodup.processes)

variable (halloc : Procs.allocProcess x.procs cur = (s, some new))
include halloc

theorem Wf.newcomer : new ∈ x.procs.freeProcessList ∧ cur ≠ new ∧ new ∉ (x.procs.proc cur).childList := by
  obtain ⟨rest, e, free, hprocs, -⟩ := Procs.allocProcess_some halloc
  have hmem : new ∈ x.procs.freeProcessList := by simp [hprocs]
  refine ⟨hmem, ?_, h.children new hmem⟩
  rintro rfl
  exact h.caller hmem

theorem restored_noPagedir (hrun : (Procs.freeProcess cfg.procs s new).panicked = false) :
    Restored v x { x with procs := Procs.freeProcess cfg.procs s new } cur := by
  obtain ⟨-, hne, hchild⟩ := h.newcomer halloc
  obtain ⟨e, hbegun, -, -, -, -, hother⟩ := begun_allocProcess h.running hne halloc
  obtain ⟨hchildren, -, -, -, -, -, htable⟩ := hbegun.freed hne hchild hrun
  refine ⟨hchildren, ?_, rfl, fun _ => Iff.rfl, ⟨v, h.regions.shows, fun _ => Iff.rfl, fun _ _ => Iff.rfl⟩,
    fun _ => rfl, ?_⟩
  · funext k
    rw [htable]
    split_ifs with hk
    · rw [hk, h.entries e (by simp [hbegun.pids])]
    · exact hother k hk
  · exact hbegun.freeListsNodup hne hchild hrun h.nodup rfl h.nodup.pagedirs h.nodup.pages h.nodup.filps

variable (hthread : Procs.allocThread (Procs.forkSessionPgrp cfg.procs s new cur) = (t, none))
include hthread

theorem Wf.finiSessionPgrp :
    ∃ e, Begun x.procs (Procs.finiSessionPgrp cfg.procs t new) cur new e ∧ ∀ k, k ≠ e →
      (Leads cfg.procs x.procs.ids (x.procs.proc cur).pgid (x.procs.proc cur).sid k →
        (Procs.finiSessionPgrp cfg.procs t new).ids.pidTable k = bare (x.procs.ids.pidTable k)) ∧
      (¬ Leads cfg.procs x.procs.ids (x.procs.proc cur).pgid (x.procs.proc cur).sid k →
        (Procs.finiSessionPgrp cfg.procs t new).ids.pidTable k = x.procs.ids.pidTable k) := by
  obtain ⟨-, hne, -⟩ := h.newcomer halloc
  obtain ⟨e, hbegun, hpgid, hsid, hpgrps, hsessions, hother⟩ := begun_allocProcess h.running hne halloc
  have hempty : x.procs.ids.pidTable e = PidDesc.empty := h.entries e (by simp [hbegun.pids])
  have hentry (r : Procs.Roll) (k : PidT) : r.entry (s.ids.pidTable k) = r.entry (x.procs.ids.pidTable k) := by
    by_cases hk : k = e
    · rw [hk, hbegun.entry, hempty]
      cases r <;> rfl
    · rw [hother k hk]
  have hlive : Live s.ids := by
    refine ⟨fun k i hi => ?_, fun k i hi => ?_⟩
    · rw [hpgrps]
      exact h.live.pgrps k i ((hentry .group k).symm.trans hi)
    · rw [hsessions]
      exact h.live.sessions k i ((hentry .session k).symm.trans hi)
  have htable := Procs.forkSessionPgrp_pidTable cfg.procs s new cur
  have hjoined := joined_forkSessionPgrp cfg.procs hlive new cur
  have hforked : Begun x.procs (Procs.forkSessionPgrp cfg.procs s new cur) cur new e := hbegun.forkSessionPgrp hne
  obtain ⟨hbegun', hids, hprocs⟩ := hforked.allocThread hthread
  have hjoined' : Joined cfg.procs t new := by
    refine ⟨hids ▸ hjoined.live, ?_, ?_⟩
    · rw [hids, hprocs]
      exact hjoined.pgrp
    · rw [hids, hprocs]
      exact hjoined.session
  obtain ⟨hfini, hleft⟩ := hbegun'.finiSessionPgrp hne hjoined'
  have hget (r : Procs.Roll) (g : PidT) : r.find cfg.procs t.ids g = r.find cfg.procs x.procs.ids g := by
    refine r.find_congr ?_
    rw [hids, htable, hentry]
  have hleads (k : PidT) : Leads cfg.procs t.ids (t.proc new).pgid (t.proc new).sid k ↔
      Leads cfg.procs x.procs.ids (x.procs.proc cur).pgid (x.procs.proc cur).sid k := by
    rw [hprocs, forkSessionPgrp_new]
    simp only [hpgid, hsid, Leads, show Procs.getPgrp cfg.procs t.ids = _ from funext (hget .group),
      show Procs.getSession cfg.procs t.ids = _ from funext (hget .session)]
    rfl
  refine ⟨e, hfini, fun k hk => ⟨fun hl => ?_, fun hl => ?_⟩⟩
  · rw [hleft.cleared k ((hleads k).mpr hl), hids, htable, hother k hk]
  · rw [hleft.kept k (fun hl' => hl ((hleads k).mp hl')), hids, htable, hother k hk]

variable (hrun : (Procs.freeProcess cfg.procs (Procs.finiSessionPgrp cfg.procs t new) new).panicked = false)
include hrun

theorem undone_pids :
    (Procs.freeProcess cfg.procs (Procs.finiSessionPgrp cfg.procs t new) new).ids.pidTable = x.procs.ids.pidTable ↔
      ∀ k, Leads cfg.procs x.procs.ids (x.procs.proc cur).pgid (x.procs.proc cur).sid k →
        Unnamed (x.procs.ids.pidTable k) := by
  obtain ⟨-, hne, hchild⟩ := h.newcomer halloc
  obtain ⟨e, hbegun, hother⟩ := h.finiSessionPgrp halloc hthread
  obtain ⟨-, -, -, -, -, -, htable⟩ := hbegun.freed hne hchild hrun
  have hfree : e ∈ x.procs.ids.freePiddescList := by simp [hbegun.pids]
  constructor
  · intro hsame k hk
    have hke : k ≠ e := by
      rintro rfl
      exact h.not_leads hfree hk
    have hbare := htable k
    rw [hsame, if_neg hke, (hother k hke).1 hk] at hbare
    exact bare_eq_iff.mp hbare.symm
  · intro hnamed
    funext k
    rw [htable]
    by_cases hke : k = e
    · rw [if_pos hke, hke, h.entries e hfree]
    rw [if_neg hke]
    by_cases hk : Leads cfg.procs x.procs.ids (x.procs.proc cur).pgid (x.procs.proc cur).sid k
    · rw [(hother k hke).1 hk, bare_eq_iff.mpr (hnamed k hk)]
    · exact (hother k hke).2 hk

theorem restored_noThread {pagedir : ProcId → ℕ} {fdTable : ProcId → Vm.Frame}
    (hdirs : x.freePmappagedirList = d :: rest)
    (hregions : MemRegions.forkMemregions cfg.regions x.regions new cur = some (r, .ok ()))
    (hpages : Vm.forkPages (Vm.pmapCreate x.vm new) cur new cfg.layout.pages = .done m)
    (htable : Vm.allocPage m = some (f, m')) (hfds : (Filps.forkFds x.fs new cur beyond).panicked = false)
    (hfree : MemRegions.memregionFreeAll cfg.regions r new = some r')
    (hclosed : (Filps.finiFproc (Filps.forkFds x.fs new cur beyond) new).panicked = false) :
    Restored v x ⟨Procs.freeProcess cfg.procs (Procs.finiSessionPgrp cfg.procs t new) new, r', Vm.freePage m' f,
      rest ++ [d], pagedir, Filps.finiFproc (Filps.forkFds x.fs new cur beyond) new, fdTable⟩ cur ↔
      Undone cfg v x cur := by
  obtain ⟨hnew, hne, hchild⟩ := h.newcomer halloc
  obtain ⟨henough, hshown⟩ := regions_undone h.regions hne (h.spaces new hnew) hregions hfree
  have hpids := undone_pids h halloc hthread hrun
  have hcounts := undone_pages hne hpages htable h
  constructor
  · intro hr
    obtain ⟨hun, hfdTable⟩ := hcounts.mp hr.referenceCnt
    have hnamed := hpids.mp hr.pidTable
    exact ⟨henough, hun, hfdTable, fun hsome => hnamed _ (.inl ⟨hsome, rfl⟩),
      fun hsome => hnamed _ (.inr ⟨hsome, rfl⟩)⟩
  · intro hu
    obtain ⟨e, hbegun, -⟩ := h.finiSessionPgrp halloc hthread
    obtain ⟨hchildren, -⟩ := hbegun.freed hne hchild hrun
    obtain ⟨hfilps, hfilpCounts⟩ := filps_undone hne.symm h.descriptors hfds hclosed
    obtain ⟨-, hqueue, -⟩ := unmapped_undone hne hpages htable hu.unmapped
    have hnamed : ∀ k, Leads cfg.procs x.procs.ids (x.procs.proc cur).pgid (x.procs.proc cur).sid k →
        Unnamed (x.procs.ids.pidTable k) := by
      rintro k (⟨hsome, rfl⟩ | ⟨hsome, rfl⟩)
      · exact hu.pgrp hsome
      · exact hu.session hsome
    refine ⟨hchildren, hpids.mpr hnamed, hcounts.mpr ⟨hu.unmapped, hu.fdTable⟩, ?_, hshown, hfilpCounts, ?_⟩
    · simp [hdirs, or_comm]
    refine hbegun.freeListsNodup hne hchild hrun h.nodup rfl (Procs.nodup_recycled (hdirs ▸ h.nodup.pagedirs)) ?_ ?_
    · rw [hqueue]
      exact h.nodup.pages
    · rw [hfilps]
      exact h.nodup.filps

end

theorem clean_iff_undone
    (halloc : Procs.allocProcess x.procs cur = (s, some new)) (hdirs : x.freePmappagedirList = d :: rest) :
    Clean cfg v x cur ↔ Undone cfg v x cur := by
  obtain ⟨procs, e, free, hprocs, hpids, -⟩ := Procs.allocProcess_some halloc
  simp [Clean, hprocs, hpids, hdirs]

theorem restored_iff_clean (h : Wf cfg v x cur) (hf : sysFork cfg x cur beyond = .ok (x', none)) :
    Restored v x x' cur ↔ Clean cfg v x cur := by
  cases failure_of_error h.caller hf with
  | noProcess halloc =>
    refine iff_of_true (restored_noProcess h halloc) ?_
    rcases allocProcess_empty halloc with hprocs | hpids
    · exact .inl hprocs
    · exact .inr (.inl hpids)
  | noPagedir halloc hdirs hrun =>
    exact iff_of_true (restored_noPagedir h halloc hrun) (.inr (.inr (.inl hdirs)))
  | noRegion halloc hdirs hregions htwice =>
    obtain ⟨-, hne, -⟩ := h.newcomer halloc
    rw [clean_iff_undone halloc hdirs]
    refine iff_of_false ?_ ?_
    · intro hr
      have hnodup := hr.nodup.pagedirs
      rw [htwice] at hnodup
      simp [List.nodup_append] at hnodup
    · intro hu
      obtain ⟨u, sc, w, hfork, -, -, -, -, -, hok⟩ := h.regions.fork _ cur
      rw [hregions] at hfork
      cases hfork
      exact absurd ((hok hne).mpr hu.regions) (by simp [Except.toBool])
  | noThread halloc hdirs hregions hpages htable hfds hthread hfree hclosed hrun =>
    rw [clean_iff_undone halloc hdirs]
    exact restored_noThread h halloc hthread hrun hdirs hregions hpages htable hfds hfree hclosed

def oneRegion : Config := ⟨⟨4, 4⟩, { MemRegions.smallConfig with maxMemregion := 1 }, ⟨1024, 1026, 8, Nat.succ_pos 1023⟩⟩

def rootSystem (pagedirs : List ℕ) : System where
  procs := Procs.boot oneRegion.procs
  regions := (MemRegions.initMemregions oneRegion.regions (MemRegions.boot oneRegion.regions) 0).1
  vm := ⟨[3, 2, 1], fun _ => 0, fun _ => Vm.zeroPage, fun _ _ => none, fun _ _ => none⟩
  freePmappagedirList := pagedirs
  pagedir := fun _ => 0
  fs := Filps.bootState
  fdTable := fun _ => 0

theorem Wf.withPagedirs (h : Wf cfg v x cur) (hnodup : pagedirs.Nodup) :
    Wf cfg v { x with freePmappagedirList := pagedirs } cur :=
  { h with nodup := { h.nodup with pagedirs := hnodup } }

theorem wf_rootSystem : ∃ v, Wf oneRegion v (rootSystem []) 0 := by
  obtain ⟨u, sc, v, hu, hinv, hsorted, -⟩ := (MemRegions.inv_booted oneRegion.regions).initMemregions 0
  have hregions : (rootSystem []).regions = u := congrArg Prod.fst hu
  have hdesc (e : PidT) : ((rootSystem []).procs.ids.pidTable e).pgrp = none ∧
      ((rootSystem []).procs.ids.pidTable e).session = none := by
    simp only [rootSystem, Procs.boot, Procs.bootIds]
    split_ifs <;> exact ⟨rfl, rfl⟩
  refine ⟨v, ⟨by decide, by decide, by decide, by decide, by decide, by decide, by decide, by decide⟩, rfl, by decide, by decide,
    by decide, ⟨fun e i hi => ?_, fun e i hi => ?_⟩, by decide, hregions ▸ hinv, fun p hp => ?_, fun fd _ hv => ?_⟩
  · rw [(hdesc e).1] at hi
    cases hi
  · rw [(hdesc e).2] at hi
    cases hi
  · refine hsorted p ?_
    rintro rfl
    exact absurd hp (by decide)
  · cases hv

theorem pagedirs_exhausted_restored : ∃ v x', Wf oneRegion v (rootSystem []) 0 ∧
    sysFork oneRegion (rootSystem []) 0 Filps.FileDesc.none = .ok (x', none) ∧ Restored v (rootSystem []) x' 0 := by
  obtain ⟨v, hw⟩ := wf_rootSystem
  obtain ⟨x', hf⟩ : ∃ x', sysFork oneRegion (rootSystem []) 0 Filps.FileDesc.none = .ok (x', none) := ⟨_, rfl⟩
  exact ⟨v, x', hw, hf, (restored_iff_clean hw hf).mpr (.inr (.inr (.inl rfl)))⟩

theorem pagedir_freed_twice : ∃ v x', Wf oneRegion v (rootSystem [1, 2]) 0 ∧
    sysFork oneRegion (rootSystem [1, 2]) 0 Filps.FileDesc.none = .ok (x', none) ∧
    x'.freePmappagedirList = [2, 1, 1] ∧ ¬ Restored v (rootSystem [1, 2]) x' 0 := by
  obtain ⟨v, hroot⟩ := wf_rootSystem
  have hw : Wf oneRegion v (rootSystem [1, 2]) 0 := hroot.withPagedirs (by decide)
  obtain ⟨x', hf, htwice⟩ : ∃ x', sysFork oneRegion (rootSystem [1, 2]) 0 Filps.FileDesc.none = .ok (x', none) ∧
      x'.freePmappagedirList = [2, 1, 1] := ⟨_, rfl, rfl⟩
  refine ⟨v, x', hw, hf, htwice, fun hr => ?_⟩
  have hnodup := hr.nodup.pagedirs
  rw [htwice] at hnodup
  exact absurd hnodup (by decide)

end Calls

end CheviotKernel.Fork
