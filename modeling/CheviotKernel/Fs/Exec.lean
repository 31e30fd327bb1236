import CheviotKernel.Fs.Filedesc
import CheviotKernel.Proc.Privileges

namespace CheviotKernel.Exec

open Runs Filps

abbrev Page := ℕ

inductive Errno
  | eperm
  | enoent
  | ebadf
  | einval
  | efault
  | enotdir
  | enoexec
  | enomem
  | eother
  deriving DecidableEq

structure System where
  files : State
  pages : Finset Page
  privileges : ProcId → Privileges.Process

inductive Walk
  | unreadable
  | notDirectory
  | failed
  | found
  deriving DecidableEq

structure Answers where
  permitted : Bool
  page : Option Page
  walk : Walk
  vnode : Bool
  access : Bool
  elfHeaders : Bool
  copyInArgv : Bool
  exitInProgress : Bool
  cleanupAddressSpace : Bool
  loadProcess : Bool
  stack : Bool

section

variable (s : System)

def kfreePage (page : Page) : System := { s with pages := s.pages.erase page }

def lookup (a : Answers) : System × Except Errno Page :=
  match a.page with
  | none => (s, .error .eother)
  | some page =>
    let s := { s with pages := insert page s.pages }
    match a.walk with
    | .unreadable => (kfreePage s page, .error .efault)
    | .notDirectory => (kfreePage s page, .error .enotdir)
    | .failed => (s, .error .eother)
    | .found => (s, .ok page)

def lookupCleanup (page : Page) : System := kfreePage s page

def openFile (p : ProcId) (a : Answers) : System × Except Errno ℕ :=
  if a.vnode then
    match doOpen s.files p false true 0 with
    | (files, .ok fd) => ({ s with files := files }, .ok fd)
    | (files, .error _) => ({ s with files := files }, .error .enomem)
  else (s, .error .eother)

def closeFile (p : ProcId) (fd : ℕ) : System := { s with files := (sysClose s.files p fd).1 }

def sysExit (p : ProcId) : System := { s with files := finiFproc s.files p }

def execPrivileges (s : System) (p : ProcId) : System :=
  { s with privileges := Function.update s.privileges p (Privileges.execPrivileges (s.privileges p)) }

inductive DoExec
  | returns (sc : Option Errno)
  | threadExits
  | starts

def doExec (p : ProcId) (a : Answers) : System × DoExec :=
  if a.elfHeaders = false then (s, .returns (some .enoexec))
  else if a.copyInArgv = false then (s, .returns (some .efault))
  else if a.exitInProgress then (s, .threadExits)
  else if a.cleanupAddressSpace = false then (s, .returns (some .enomem))
  else if a.loadProcess = false then (s, .returns (some .enomem))
  else if a.stack = false then (s, .returns (some .enomem))
  else ({ s with files := execFds s.files p }, .starts)

inductive Outcome
  | returned (sc : Option Errno)
  | exited
  | threadExited
  | started
  deriving DecidableEq

def afterDoExec (p : ProcId) (page : Page) (fd : ℕ) : Option Errno → System × Outcome
  | some _ => (sysExit (closeFile (lookupCleanup s page) p fd) p, .exited)
  | none => (execPrivileges (closeFile (lookupCleanup s page) p fd) p, .returned none)

def sysExec (p : ProcId) (a : Answers) : System × Outcome :=
  if a.permitted = false then (s, .returned (some .eperm))
  else match lookup s a with
    | (s, .error sc) => (s, .returned (some sc))
    | (s, .ok page) =>
      match openFile s p a with
      | (s, .error _) => (lookupCleanup s page, .returned (some .enoent))
      | (s, .ok fd) =>
        match filpGet s.files p fd with
        | none => (lookupCleanup s page, .returned (some .ebadf))
        | some f =>
          if (s.files.filp f).type ≠ .vnode then
            (closeFile (lookupCleanup s page) p fd, .returned (some .einval))
          else if a.access = false then
            (closeFile (lookupCleanup s page) p fd, .returned (some .eperm))
          else match doExec s p a with
            | (s, .returns sc) => afterDoExec s p page fd sc
            | (s, .threadExits) => (s, .threadExited)
            | (s, .starts) => (s, .started)

end

structure Renewed (s s' : System) (p : ProcId) (page : Page) : Prop where
  descriptors : ∀ fd < filedescMax, (s'.files.fdTable p fd).valid = true ↔
    (s.files.fdTable p fd).valid = true ∧ (s.files.fdTable p fd).closeOnExec = false
  page : page ∉ s'.pages
  privileges : (s'.privileges p).privileges = (s.privileges p).privileges &&& (s.privileges p).privilegesAfterExec

section Descriptors

variable {s s' : State} {p : ProcId} {fd w : ℕ}

theorem execFd_other (hw : w ≠ fd) : (execFd p s fd).fdTable p w = s.fdTable p w := by
  have hc : ¬ (p = p ∧ w = fd) := fun h => hw h.2
  unfold execFd
  split
  · cases hget : filpGet (s.setDesc p fd { s.fdTable p fd with closeOnExec := false }) p fd with
    | none => rw [doClose_none hget, setDesc_other s _ hc]
    | some f => rw [(doClose_closed hget).other p w hc, setDesc_other s _ hc]
  · rfl

theorem execFd_self (h : Tidy s) (hfd : fd < filedescMax) : ((execFd p s fd).fdTable p fd).valid = true ↔
    (s.fdTable p fd).valid = true ∧ (s.fdTable p fd).closeOnExec = false := by
  unfold execFd
  cases hclose : (s.fdTable p fd).closeOnExec with
  | false => simp
  | true =>
    have hgone : ((doClose (s.setDesc p fd { s.fdTable p fd with closeOnExec := false }) p fd).1.fdTable p fd).valid =
        false := by
      cases hget : filpGet (s.setDesc p fd { s.fdTable p fd with closeOnExec := false }) p fd with
      | some f => exact (doClose_closed hget).gone hfd
      | none =>
        rw [doClose_none hget]
        by_contra hv
        have hv : (s.fdTable p fd).valid = true := by simpa using hv
        have hfilp := (h p fd hfd hv).2
        simp only [filpGet, setDesc_self, hfd, hv] at hget
        exact hfilp hget
    simp [hgone]

-- Induction on the descriptors that exec_fds has still to look at.
theorem foldl_execFd_valid (fds : List ℕ) (h : Tidy s) (hw : w < filedescMax) :
    ((fds.foldl (execFd p) s).fdTable p w).valid = true ↔
      (s.fdTable p w).valid = true ∧ (w ∈ fds → (s.fdTable p w).closeOnExec = false) := by
  induction fds generalizing s with
  | nil => simp
  | cons fd fds ih =>
    rw [List.foldl_cons, ih (h.execFd p fd)]
    by_cases hfd : w = fd
    · subst hfd
      rw [execFd_self h hw]
      constructor
      · rintro ⟨⟨hv, hc⟩, -⟩
        exact ⟨hv, fun _ => hc⟩
      rintro ⟨hv, hc⟩
      have hkept : execFd p s w = s := by simp [execFd, hc]
      rw [hkept]
      exact ⟨⟨hv, hc (List.mem_cons_self ..)⟩, fun _ => hc (List.mem_cons_self ..)⟩
    · rw [execFd_other hfd]
      simp [hfd]

theorem execFds_valid (h : Tidy s) (hw : w < filedescMax) : ((execFds s p).fdTable p w).valid = true ↔
    (s.fdTable p w).valid = true ∧ (s.fdTable p w).closeOnExec = false := by
  unfold execFds
  rw [foldl_execFd_valid _ h hw]
  simp only [List.mem_range, hw, true_implies]

structure Opened (s s' : State) (p : ProcId) (fd : ℕ) : Prop where
  free : (s.fdTable p fd).alloced = false
  valid : (s'.fdTable p fd).valid = true
  keeps : (s'.fdTable p fd).closeOnExec = false
  other : ∀ w, w ≠ fd → s'.fdTable p w = s.fdTable p w

theorem doOpen_opened (h : doOpen s p false true 0 = (s', .ok fd)) : Opened s s' p fd := by
  unfold doOpen at h
  split at h
  · cases h
  rename_i hal
  split at h <;> cases h
  rename_i hnew
  have htable := filpGetNew_fdTable hnew
  obtain ⟨hfree, -, -, rfl⟩ := fdAlloc_some hal
  refine ⟨hfree, ?_, ?_, ?_⟩
  · simp [install]
  · simp [install, State.setFilp, htable, FileDesc.none]
  · intro w hw
    have hc : ¬ (p = p ∧ w = fd) := fun h => hw h.2
    unfold install
    rw [setDesc_other _ _ hc]
    simp only [State.setFilp, htable]
    exact setDesc_other s _ hc

end Descriptors

section Started

attribute [local irreducible] Filps.execFds Filps.finiFproc

variable {s s' : System} {p : ProcId} {a : Answers}

theorem lookup_ok {page : Page} (h : lookup s a = (s', .ok page)) :
    a.page = some page ∧ s' = { s with pages := insert page s.pages } := by
  unfold lookup at h
  split at h
  · cases h
  next hpage =>
    split at h <;> cases h
    exact ⟨hpage, rfl⟩

theorem openFile_ok {fd : ℕ} (h : openFile s p a = (s', .ok fd)) :
    ∃ files, doOpen s.files p false true 0 = (files, .ok fd) ∧ s' = { s with files := files } := by
  unfold openFile at h
  split at h
  · split at h <;> cases h
    next hopen => exact ⟨_, hopen, rfl⟩
  · cases h

theorem doExec_starts (h : doExec s p a = (s', .starts)) : s' = { s with files := execFds s.files p } := by
  unfold doExec at h
  split_ifs at h
  all_goals cases h
  rfl

theorem sysExec_started (h : sysExec s p a = (s', .started)) :
    ∃ page fd files f, a.page = some page ∧ doOpen s.files p false true 0 = (files, .ok fd) ∧
      filpGet files p fd = some f ∧ s' = ⟨execFds files p, insert page s.pages, s.privileges⟩ := by
  unfold sysExec at h
  split at h
  · cases h
  split at h
  · cases h
  rename_i page hlookup
  obtain ⟨hpage, rfl⟩ := lookup_ok hlookup
  split at h
  · cases h
  rename_i fd hopen
  obtain ⟨files, hfiles, rfl⟩ := openFile_ok hopen
  split at h
  · cases h
  rename_i f hget
  split_ifs at h
  · cases h
  · cases h
  split at h
  next sc _ =>
    cases sc with
    | none | some e => cases h
  · cases h
  next hexec =>
    cases h
    exact ⟨page, fd, files, f, hpage, hfiles, hget, doExec_starts hexec⟩

theorem sysExec_started_files (h : sysExec s p a = (s', .started)) : s'.files = Filps.sysExec s.files p .done := by
  obtain ⟨page, fd, files, f, -, hopen, hget, rfl⟩ := sysExec_started h
  unfold Filps.sysExec
  rw [hopen]
  simp only [hget]

theorem exec_state (s s' : System) (p : ProcId) (a : Answers) (htidy : Tidy s.files)
    (h : sysExec s p a = (s', .started)) :
    ∃ page fd, a.page = some page ∧ fd < filedescMax ∧ (s.files.fdTable p fd).valid = false ∧
      (∀ w < filedescMax, (s'.files.fdTable p w).valid = true ↔
        w = fd ∨ (s.files.fdTable p w).valid = true ∧ (s.files.fdTable p w).closeOnExec = false) ∧
      page ∈ s'.pages ∧ s'.privileges = s.privileges ∧ ¬ Renewed s s' p page := by
  obtain ⟨page, fd, files, f, hpage, hopen, hget, rfl⟩ := sysExec_started h
  have hfd := (filpGet_some hget).1
  have hopened := doOpen_opened hopen
  have hinvalid : (s.files.fdTable p fd).valid = false := by
    by_contra hv
    have hal := (htidy p fd hfd (by simpa using hv)).1
    rw [hopened.free] at hal
    cases hal
  have hfiles : Tidy files := by
    have htidy := htidy.doOpen p false true 0
    rwa [hopen] at htidy
  have hvalid (w : ℕ) (hw : w < filedescMax) : ((execFds files p).fdTable p w).valid = true ↔
      w = fd ∨ (s.files.fdTable p w).valid = true ∧ (s.files.fdTable p w).closeOnExec = false := by
    rw [execFds_valid hfiles hw]
    by_cases hc : w = fd
    · subst hc
      simp [hopened.valid, hopened.keeps]
    · rw [hopened.other w hc]
      simp [hc]
  refine ⟨page, fd, hpage, hfd, hinvalid, hvalid, Finset.mem_insert_self page s.pages, rfl, ?_⟩
  intro hrenewed
  exact hrenewed.page (Finset.mem_insert_self page s.pages)

def booted : System := ⟨bootState, ∅, fun _ => ⟨3, 2⟩⟩

def granted : Answers := ⟨true, some 7, .found, true, true, true, true, false, true, true, true⟩

theorem bootState_tidy : Tidy bootState := tidy_of_reach (Reach.start bootState_booted)

theorem exec_starts : ∃ files, doOpen bootState 0 false true 0 = (files, .ok 0) ∧
    sysExec booted 0 granted = (⟨execFds files 0, {7}, fun _ => ⟨3, 2⟩⟩, .started) :=
  ⟨_, rfl, rfl⟩

def opened : System := { booted with files := (doOpen bootState 0 true true 0).1 }

theorem exec_state_opened : ∃ s', sysExec opened 0 granted = (s', .started) ∧
    (opened.files.fdTable 0 0).valid = true ∧ (s'.files.fdTable 0 0).valid = false ∧ 7 ∈ s'.pages ∧
    s'.privileges = opened.privileges ∧ ¬ Renewed opened s' 0 7 := by
  obtain ⟨s', hstarted⟩ : ∃ s', sysExec opened 0 granted = (s', .started) := ⟨_, rfl⟩
  obtain ⟨page, fd, hpage, -, hinvalid, hvalid, hmem, hprivileges, hnot⟩ :=
    exec_state opened _ 0 granted (bootState_tidy.doOpen 0 true true 0) hstarted
  obtain rfl : 7 = page := Option.some.inj hpage
  refine ⟨s', hstarted, rfl, ?_, hmem, hprivileges, hnot⟩
  rw [← Bool.not_eq_true, hvalid 0 (by decide)]
  rintro (rfl | ⟨-, hkept⟩)
  · exact absurd hinvalid (by decide)
  · exact absurd hkept (by decide)

theorem exec_leaks : ∃ s', sysExec booted 0 granted = (s', .started) ∧
    (booted.files.fdTable 0 0).valid = false ∧ (s'.files.fdTable 0 0).valid = true ∧ 7 ∉ booted.pages ∧ 7 ∈ s'.pages ∧
    (s'.privileges 0).privileges = 3 ∧ (s'.privileges 0).privilegesAfterExec = 2 := by
  obtain ⟨files, hopen, hstarted⟩ := exec_starts
  refine ⟨_, hstarted, rfl, ?_, Finset.notMem_empty 7, Finset.mem_singleton_self 7, rfl, rfl⟩
  have hopened := doOpen_opened hopen
  have htidy : Tidy files := by
    have htidy := bootState_tidy.doOpen 0 false true 0
    rwa [hopen] at htidy
  exact (execFds_valid htidy (by decide)).mpr ⟨hopened.valid, hopened.keeps⟩

end Started

end CheviotKernel.Exec
