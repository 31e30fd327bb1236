import CheviotKernel.Library.References
import CheviotKernel.Library.Runs
import Mathlib.Data.Set.Card

namespace CheviotKernel.Filps

open Function References Runs

abbrev FilpId := ℕ

abbrev ProcId := ℕ

def filedescMax : ℕ := 512

inductive FilpType
  | free
  | undef
  | vnode
  | superblock
  deriving DecidableEq

structure Filp where
  type : FilpType
  referenceCnt : ℤ
  offset : ℤ
  deriving DecidableEq

structure FileDesc where
  filp : Option FilpId
  closeOnExec : Bool
  alloced : Bool
  valid : Bool
  deriving DecidableEq

def FileDesc.none : FileDesc := ⟨Option.none, false, false, false⟩

inductive Errno
  | ebadf
  | einval
  | emfile
  | enomem
  | enosys
  | eother
  deriving DecidableEq

abbrev Result := Except Errno ℕ

structure State where
  filp : FilpId → Filp
  filpFreeList : List FilpId
  fdTable : ProcId → ℕ → FileDesc
  hasTable : ProcId → Bool
  panicked : Bool

section

variable (s : State)

def State.setFilp (f : FilpId) (x : Filp) : State := { s with filp := update s.filp f x }

def State.setDesc (p : ProcId) (fd : ℕ) (d : FileDesc) : State :=
  { s with fdTable := update s.fdTable p (update (s.fdTable p) fd d) }

def State.kassert (b : Bool) : State := if b then s else { s with panicked := true }

def filpGet (p : ProcId) (fd : ℕ) : Option FilpId :=
  if fd < filedescMax ∧ (s.fdTable p fd).valid then (s.fdTable p fd).filp else none

def filpGetNew : State × Option FilpId :=
  match s.filpFreeList with
  | [] => (s, none)
  | f :: rest =>
    let s := s.kassert ((s.filp f).type = .free)
    ({ s with filpFreeList := rest }.setFilp f { s.filp f with type := .undef, referenceCnt := 1 }, some f)

def filpRef (f : FilpId) : State :=
  s.setFilp f { s.filp f with referenceCnt := (s.filp f).referenceCnt + 1 }

def filpRelease (f : FilpId) : State :=
  let n := (s.filp f).referenceCnt - 1
  if n = 0 then
    { s with filpFreeList := f :: s.filpFreeList }.setFilp f { s.filp f with type := .free, referenceCnt := n }
  else s.setFilp f { s.filp f with referenceCnt := n }

def fdAlloc (p : ProcId) (minFd maxFd : ℕ) : State × Option ℕ :=
  match (List.range' minFd (maxFd + 1 - minFd)).find? fun fd => !(s.fdTable p fd).alloced with
  | none => (s, none)
  | some fd => (s.setDesc p fd { FileDesc.none with alloced := true }, some fd)

def fdFree (p : ProcId) (fd : ℕ) : State :=
  if fd < filedescMax then (s.kassert (s.fdTable p fd).alloced).setDesc p fd FileDesc.none else s

def fdInvalidate (p : ProcId) (fd : ℕ) : State :=
  if fd < filedescMax then (s.kassert (s.fdTable p fd).alloced).setDesc p fd { s.fdTable p fd with valid := false }
  else s

def doClose (p : ProcId) (fd : ℕ) : State × Result :=
  if filedescMax ≤ fd then (s, .error .einval)
  else match filpGet s p fd with
    | none => (s, .error .ebadf)
    | some f =>
      let s := fdInvalidate s p fd
      match (s.filp f).type with
      | .vnode => (filpRelease (fdFree s p fd) f, .ok 0)
      | .superblock => (filpRelease (fdFree s p fd) f, .ok 0)
      | _ => ({ s with panicked := true }, .ok 0)

def sysClose (p : ProcId) (fd : ℕ) : State × Result := doClose s p fd

def dupFd (p : ProcId) (fd minFd maxFd : ℕ) (closeOnExec : Bool) : State × Result :=
  match filpGet s p fd with
  | none => (s, .error .einval)
  | some f =>
    match fdAlloc s p minFd maxFd with
    | (s, none) => (s, .error .emfile)
    | (s, some new) =>
      let s := filpRef (s.setDesc p new { s.fdTable p new with filp := some f }) f
      let d := s.fdTable p new
      (s.setDesc p new { d with valid := true, closeOnExec := d.closeOnExec || closeOnExec }, .ok new)

def sysDup (p : ProcId) (fd : ℕ) : State × Result := dupFd s p fd 0 filedescMax false

def sysDup2 (p : ProcId) (fd newFd : ℕ) : State × Result :=
  if filedescMax ≤ fd ∨ filedescMax ≤ newFd then (s, .error .einval)
  else
    let s := if (s.fdTable p newFd).valid then (doClose s p newFd).1 else s
    dupFd s p fd newFd newFd false

inductive Fcntl
  | dupfd (arg : ℕ)
  | dupfdCloexec (arg : ℕ)
  | getfd
  | setfd (cloexec : Bool)
  | getfl
  | setfl
  | other

def sysFcntl (p : ProcId) (fd : ℕ) (cmd : Fcntl) : State × Result :=
  if filedescMax ≤ fd then (s, .error .einval)
  else if (s.fdTable p fd).valid = false then (s, .error .ebadf)
  else match filpGet s p fd with
    | none => (s, .error .einval)
    | some _ =>
      match cmd with
      | .dupfd arg => if filedescMax ≤ arg then (s, .error .ebadf) else dupFd s p fd arg filedescMax false
      | .dupfdCloexec arg => if filedescMax ≤ arg then (s, .error .ebadf) else dupFd s p fd arg filedescMax true
      | .getfd => (s, .ok (s.fdTable p fd).closeOnExec.toNat)
      | .setfd cloexec => (s.setDesc p fd { s.fdTable p fd with closeOnExec := cloexec }, .ok 0)
      | .getfl => (s, .error .einval)
      | .setfl => (s, .error .einval)
      | .other => (s, .error .enosys)

def install (p : ProcId) (fd : ℕ) (f : FilpId) (closeOnExec : Bool) : State :=
  let d := s.fdTable p fd
  s.setDesc p fd { d with filp := some f, valid := true, closeOnExec := d.closeOnExec || closeOnExec }

def doOpen (p : ProcId) (closeOnExec truncated : Bool) (offset : ℤ) : State × Result :=
  match fdAlloc s p 0 filedescMax with
  | (s, none) => (s, .error .enomem)
  | (s, some fd) =>
    match filpGetNew s with
    | (s, none) => (fdFree s p fd, .error .enomem)
    | (s, some f) =>
      let s := s.setFilp f { s.filp f with type := .vnode }
      if truncated then
        let s := s.setFilp f { s.filp f with offset := offset }
        (install s p fd f closeOnExec, .ok fd)
      else (filpRelease (fdFree s p fd) f, .error .eother)

def sysPipe (p : ProcId) (vnode copied : Bool) : State × Result :=
  match fdAlloc s p 0 filedescMax with
  | (s, none) => (s, .error .enomem)
  | (s, some fd0) =>
    match filpGetNew s with
    | (s, none) => (fdFree s p fd0, .error .enomem)
    | (s, some f0) =>
      match fdAlloc s p 0 filedescMax with
      | (s, none) => (fdFree (filpRelease s f0) p fd0, .error .enomem)
      | (s, some fd1) =>
        match filpGetNew s with
        | (s, none) => (fdFree (filpRelease (fdFree s p fd1) f0) p fd0, .error .enomem)
        | (s, some f1) =>
          if vnode then
            let s := s.setFilp f0 { s.filp f0 with type := .vnode, offset := 0 }
            let s := s.setFilp f1 { s.filp f1 with type := .vnode, offset := 0 }
            if copied then (install (install s p fd0 f0 false) p fd1 f1 false, .ok 0)
            else (fdFree (filpRelease (fdFree (filpRelease s f1) p fd1) f0) p fd0, .error .eother)
          else (fdFree (filpRelease (fdFree (filpRelease s f1) p fd1) f0) p fd0, .error .enomem)

-- sys_createmsgport from fd_alloc on: without a vnode it returns with the descriptor and the filp allocated.
def sysCreatemsgport (p : ProcId) (superblock vnode : Bool) : State × Result :=
  match fdAlloc s p 0 filedescMax with
  | (s, none) => (s, .error .emfile)
  | (s, some fd) =>
    match filpGetNew s with
    | (s, none) => (fdFree s p fd, .error .emfile)
    | (s, some f) =>
      if ¬ superblock then (filpRelease (fdFree s p fd) f, .error .emfile)
      else if ¬ vnode then (s, .error .enomem)
      else (install (s.setFilp f { s.filp f with type := .superblock, offset := 0 }) p fd f false, .ok fd)

def openTake (p : ProcId) : State × Option (ℕ × FilpId) :=
  match fdAlloc s p 0 filedescMax with
  | (s, none) => (s, none)
  | (s, some fd) =>
    match filpGetNew s with
    | (s, none) => (fdFree s p fd, none)
    | (s, some f) => (s, some (fd, f))

def openStart (p : ProcId) : State × Option (ℕ × FilpId) :=
  match openTake s p with
  | (s, none) => (s, none)
  | (s, some (fd, f)) => (s.setFilp f { s.filp f with type := .vnode }, some (fd, f))

def openDone (p : ProcId) (fd : ℕ) (f : FilpId) (closeOnExec : Bool) (offset : ℤ) : State :=
  install (s.setFilp f { s.filp f with offset := offset }) p fd f closeOnExec

def openFail (p : ProcId) (fd : ℕ) (f : FilpId) : State := filpRelease (fdFree s p fd) f

def pipeStart (p : ProcId) : State × Option ((ℕ × FilpId) × (ℕ × FilpId)) :=
  match openTake s p with
  | (s, none) => (s, none)
  | (s, some (fd0, f0)) =>
    match openTake s p with
    | (s, none) => (fdFree (filpRelease s f0) p fd0, none)
    | (s, some (fd1, f1)) => (s, some ((fd0, f0), (fd1, f1)))

def pipeTypes (f0 f1 : FilpId) : State :=
  let s := s.setFilp f0 { s.filp f0 with type := .vnode, offset := 0 }
  s.setFilp f1 { s.filp f1 with type := .vnode, offset := 0 }

def pipeDone (p : ProcId) (fd0 : ℕ) (f0 : FilpId) (fd1 : ℕ) (f1 : FilpId) : State :=
  install (install s p fd0 f0 false) p fd1 f1 false

def pipeFail (p : ProcId) (fd0 : ℕ) (f0 : FilpId) (fd1 : ℕ) (f1 : FilpId) : State :=
  fdFree (filpRelease (fdFree (filpRelease s f1) p fd1) f0) p fd0

def mountDone (p : ProcId) (fd : ℕ) (f : FilpId) : State :=
  install (s.setFilp f { s.filp f with type := .superblock, offset := 0 }) p fd f false

def initFproc (p : ProcId) (beyond : FileDesc) : State :=
  { s with
    fdTable := update s.fdTable p fun fd => if fd < filedescMax then FileDesc.none else beyond
    hasTable := update s.hasTable p true }

def forkFd (new old : ProcId) (s : State) (fd : ℕ) : State :=
  if (s.fdTable old fd).valid then
    match (s.fdTable old fd).filp with
    | some f => filpRef (s.setDesc new fd (s.fdTable old fd)) f
    | none => { s with panicked := true }
  else s.setDesc new fd FileDesc.none

def forkFds (new old : ProcId) (beyond : FileDesc) : State :=
  (List.range filedescMax).foldl (forkFd new old) (initFproc s new beyond)

def execFd (p : ProcId) (s : State) (fd : ℕ) : State :=
  if (s.fdTable p fd).closeOnExec then
    (doClose (s.setDesc p fd { s.fdTable p fd with closeOnExec := false }) p fd).1
  else s

def execFds (p : ProcId) : State := (List.range filedescMax).foldl (execFd p) s

def finiFproc (p : ProcId) : State :=
  let s := (List.range filedescMax).foldl (fun s fd => (doClose s p fd).1) s
  { s with hasTable := update s.hasTable p false }

def sysFork (p child : ProcId) (thread : Bool) (beyond : FileDesc) : State :=
  let s := forkFds s child p beyond
  if thread then s else finiFproc s child

inductive Exec
  | refused
  | failed
  | done

-- sys_exec opens the file; if do_exec fails the process exits, and a do_exec that starts the program does not return.
def sysExec (p : ProcId) (outcome : Exec) : State :=
  match doOpen s p false true 0 with
  | (s, .error _) => s
  | (s, .ok fd) =>
    match filpGet s p fd with
    | none => s
    | some _ =>
      match outcome with
      | .refused => (sysClose s p fd).1
      | .failed => finiFproc (sysClose s p fd).1 p
      | .done => execFds s p

inductive Action
  | open (p : ProcId) (closeOnExec truncated : Bool) (offset : ℤ)
  | pipe (p : ProcId) (vnode copied : Bool)
  | createmsgport (p : ProcId) (superblock vnode : Bool)
  | dup (p : ProcId) (fd : ℕ)
  | dup2 (p : ProcId) (fd newFd : ℕ)
  | fcntl (p : ProcId) (fd : ℕ) (cmd : Fcntl)
  | fork (p child : ProcId) (thread : Bool) (beyond : FileDesc)
  | exec (p : ProcId) (outcome : Exec)
  | close (p : ProcId) (fd : ℕ)
  | exit (p : ProcId)

def Action.caller : Action → ProcId
  | .open p _ _ _ => p
  | .pipe p _ _ => p
  | .createmsgport p _ _ => p
  | .dup p _ => p
  | .dup2 p _ _ => p
  | .fcntl p _ _ => p
  | .fork p _ _ _ => p
  | .exec p _ => p
  | .close p _ => p
  | .exit p => p

def perform : Action → Option State
  | .open p closeOnExec truncated offset => some (doOpen s p closeOnExec truncated offset).1
  | .pipe p vnode copied => some (sysPipe s p vnode copied).1
  | .createmsgport p superblock vnode => some (sysCreatemsgport s p superblock vnode).1
  | .dup p fd => some (sysDup s p fd).1
  | .dup2 p fd newFd => some (sysDup2 s p fd newFd).1
  | .fcntl p fd cmd => some (sysFcntl s p fd cmd).1
  | .fork p child thread beyond => if s.hasTable child then none else some (sysFork s p child thread beyond)
  | .exec p outcome => some (sysExec s p outcome)
  | .close p fd => some (sysClose s p fd).1
  | .exit p => some (finiFproc s p)

def step (a : Action) : Option State :=
  if s.panicked = false ∧ s.hasTable a.caller then perform s a else none

structure Booted (filps : List FilpId) (s : State) : Prop where
  free : s.filpFreeList = filps
  nodup : filps.Nodup
  filp : ∀ f ∈ filps, (s.filp f).type = .free ∧ (s.filp f).referenceCnt = 0
  tables : ∀ p, ∀ fd < filedescMax, s.fdTable p fd = FileDesc.none
  running : s.panicked = false

def spare (p : ProcId) (fd : ℕ) : ℕ :=
  (List.range' fd (filedescMax - fd)).countP fun fd => !(s.fdTable p fd).alloced

def Supplied : Action → Prop
  | .open p _ _ _ => 0 < spare s p 0
  | .pipe p vnode copied => 1 < spare s p 0 ∧ vnode = true ∧ copied = true
  | .createmsgport p superblock vnode => 0 < spare s p 0 ∧ superblock = true ∧ vnode = true
  | .dup p _ => 0 < spare s p 0
  | .fcntl p _ (.dupfd _) => 0 < spare s p 0
  | .fcntl p _ (.dupfdCloexec _) => 0 < spare s p 0
  | .exec p _ => 0 < spare s p 0
  | _ => True

def InTable : Action → Prop
  | .fcntl p _ (.dupfd arg) => arg < filedescMax → 0 < spare s p arg
  | .fcntl p _ (.dupfdCloexec arg) => arg < filedescMax → 0 < spare s p arg
  | _ => True

end

noncomputable def descriptors (s : State) (f : FilpId) : ℕ :=
  Set.ncard {x : ProcId × ℕ | x.2 < filedescMax ∧ (s.fdTable x.1 x.2).valid = true ∧
    (s.fdTable x.1 x.2).filp = some f}

structure Counted (filps : List FilpId) (s : State) : Prop where
  count : ∀ f ∈ filps, (s.filp f).referenceCnt = descriptors s f
  free : ∀ f ∈ filps, s.filpFreeList.count f = if descriptors s f = 0 then 1 else 0

section

variable {filps loose loose' : List FilpId} {s s' s₁ s₂ : State} {owners owners' : FilpId → Finset (ProcId × ℕ)}
  {p q new child : ProcId} {fd lo hi w fd0 fd1 fd' newFd : ℕ} {f f' f0 f1 : FilpId} {d beyond : FileDesc} {k : Stakes}
  {type type0 type1 : FilpType} {x : Filp} {closeOnExec thread superblock vnode copied : Bool} {a : Action}
  {g r : Option FilpId} {b : ProcId × ℕ}

def State.pool (s : State) : Pool FilpId := ⟨fun f => (s.filp f).referenceCnt, s.filpFreeList⟩

structure Inv (filps : List FilpId) (s : State) (owners : FilpId → Finset (ProcId × ℕ)) (loose : List FilpId) :
    Prop where
  refs : Balanced filps s.pool owners loose
  owner_iff : ∀ f p fd, (p, fd) ∈ owners f ↔ fd < filedescMax ∧ (s.fdTable p fd).valid = true ∧
    (s.fdTable p fd).filp = some f
  valid : ∀ p, ∀ fd < filedescMax, (s.fdTable p fd).valid = true → (s.fdTable p fd).alloced = true ∧
    ∃ f ∈ filps, (s.fdTable p fd).filp = some f ∧ ((s.filp f).type = .vnode ∨ (s.filp f).type = .superblock)
  freed : ∀ f ∈ s.filpFreeList, (s.filp f).type = .free
  absent : ∀ p, s.hasTable p = false → ∀ fd < filedescMax, (s.fdTable p fd).valid = false
  running : s.panicked = false

theorem fdAlloc_some (ha : fdAlloc s p lo hi = (s', some fd)) : (s.fdTable p fd).alloced = false ∧
    lo ≤ fd ∧ fd ≤ hi ∧ s' = s.setDesc p fd { FileDesc.none with alloced := true } := by
  unfold fdAlloc at ha
  split at ha
  · cases ha
  rename_i w hw
  obtain ⟨rfl, rfl⟩ := ha
  have hm := List.mem_range'_1.mp (List.mem_of_find?_eq_some hw)
  have hp := List.find?_some hw
  exact ⟨by simpa using hp, hm.1, by omega, rfl⟩

theorem fdAlloc_none (ha : fdAlloc s p lo hi = (s', none)) : s' = s := by
  unfold fdAlloc at ha
  split at ha
  · cases ha
    rfl
  · cases ha

structure Pending (s : State) (p : ProcId) (fd : ℕ) : Prop where
  alloced : (s.fdTable p fd).alloced = true
  invalid : (s.fdTable p fd).valid = false

theorem Pending.congr (h : Pending s p fd) (hs : s'.fdTable p fd = s.fdTable p fd) : Pending s' p fd :=
  ⟨hs ▸ h.alloced, hs ▸ h.invalid⟩

theorem fdAlloc_hasTable (ha : fdAlloc s p lo hi = (s', some fd)) : s'.hasTable = s.hasTable := by
  obtain ⟨-, -, -, rfl⟩ := fdAlloc_some ha
  rfl

theorem filpGetNew_none (hn : filpGetNew s = (s', none)) : s' = s := by
  unfold filpGetNew at hn
  split at hn
  · cases hn
    rfl
  · cases hn

theorem filpRelease_filp_other (s : State) {k : FilpId} (hk : k ≠ f) : (filpRelease s f).filp k = s.filp k := by
  unfold filpRelease
  simp only
  split_ifs <;> simp [State.setFilp, hk]

theorem filpGet_some (hg : filpGet s p fd = some f) :
    fd < filedescMax ∧ (s.fdTable p fd).valid = true ∧ (s.fdTable p fd).filp = some f := by
  unfold filpGet at hg
  split_ifs at hg with hc
  exact ⟨hc.1, hc.2, hg⟩

theorem filpGetNew_fdTable (hn : filpGetNew s = (s', g)) : s'.fdTable = s.fdTable := by
  unfold filpGetNew at hn
  split at hn
  · cases hn
    rfl
  · cases hn
    unfold State.kassert
    split <;> rfl

theorem spare_pos : 0 < spare s p lo ↔ ∃ w, lo ≤ w ∧ w < filedescMax ∧ (s.fdTable p w).alloced = false := by
  unfold spare
  rw [List.countP_pos_iff]
  constructor
  · rintro ⟨w, hw, ha⟩
    rw [List.mem_range'_1] at hw
    exact ⟨w, hw.1, by omega, by simpa using ha⟩
  · rintro ⟨w, hlo, hw, ha⟩
    exact ⟨w, List.mem_range'_1.mpr ⟨hlo, by omega⟩, by simpa using ha⟩

theorem spare_two (h : 1 < spare s p 0) (fd : ℕ) : ∃ w, w ≠ fd ∧ w < filedescMax ∧ (s.fdTable p w).alloced = false := by
  unfold spare at h
  rw [List.countP_eq_length_filter] at h
  by_contra hno
  push Not at hno
  have hall : ∀ w ∈ (List.range' 0 (filedescMax - 0)).filter fun fd => !(s.fdTable p fd).alloced, w = fd := by
    intro w hw
    rw [List.mem_filter, List.mem_range'_1] at hw
    by_contra hne
    have ha := hno w hne (by omega)
    simp at hw
    exact ha hw.2
  have hrep := List.eq_replicate_of_mem hall
  have hnd : ((List.range' 0 (filedescMax - 0)).filter fun fd => !(s.fdTable p fd).alloced).Nodup :=
    List.Nodup.filter _ List.nodup_range'
  rw [hrep, List.nodup_replicate] at hnd
  omega

theorem fdAlloc_lt (ha : fdAlloc s p lo filedescMax = (s', some fd)) (hlo : lo ≤ w)
    (hw : w < filedescMax) (hfree : (s.fdTable p w).alloced = false) : fd < filedescMax := by
  have hsplit : List.range' lo (filedescMax + 1 - lo) = List.range' lo (filedescMax - lo) ++ [filedescMax] := by
    rw [show filedescMax + 1 - lo = filedescMax - lo + 1 by omega, List.range'_1_concat]
    congr 2
    omega
  have hfound : ((List.range' lo (filedescMax - lo)).find? fun fd => !(s.fdTable p fd).alloced).isSome := by
    rw [List.find?_isSome]
    exact ⟨w, List.mem_range'_1.mpr ⟨hlo, by omega⟩, by simpa using hfree⟩
  obtain ⟨k, hk⟩ := Option.isSome_iff_exists.mp hfound
  unfold fdAlloc at ha
  rw [hsplit, List.find?_append, hk] at ha
  obtain ⟨-, rfl⟩ := ha
  have hm := List.mem_range'_1.mp (List.mem_of_find?_eq_some hk)
  omega

section

variable (s : State) (f : FilpId)

@[simp] theorem setDesc_self (p : ProcId) (fd : ℕ) (d : FileDesc) : (s.setDesc p fd d).fdTable p fd = d := by
  simp [State.setDesc]

theorem setDesc_other (d : FileDesc) (h : ¬ (q = p ∧ w = fd)) : (s.setDesc p fd d).fdTable q w = s.fdTable q w := by
  by_cases hq : q = p
  · subst hq
    have hw : w ≠ fd := fun hc => h ⟨rfl, hc⟩
    simp [State.setDesc, hw]
  · simp [State.setDesc, hq]

theorem kassert_true : s.kassert true = s := rfl

@[simp] theorem filpRelease_fdTable : (filpRelease s f).fdTable = s.fdTable := by
  unfold filpRelease
  simp only
  split_ifs <;> rfl

@[simp] theorem filpRelease_hasTable : (filpRelease s f).hasTable = s.hasTable := by
  unfold filpRelease
  simp only
  split_ifs <;> rfl

theorem setFilp_pool (x : Filp) : (s.setFilp f x).pool = ⟨update s.pool.count f x.referenceCnt, s.filpFreeList⟩ := by
  simp only [State.pool, State.setFilp, Pool.mk.injEq, and_true]
  funext k
  by_cases hk : k = f <;> simp [hk]

theorem filpRelease_pool : (filpRelease s f).pool = s.pool.drop f := by
  unfold filpRelease
  simp only
  split_ifs with hz <;> rw [setFilp_pool] <;> simp [State.pool, Pool.drop, hz]

theorem filpRef_type (k : FilpId) : ((filpRef s f).filp k).type = (s.filp k).type := by
  unfold filpRef
  by_cases hk : k = f <;> simp [State.setFilp, hk]

theorem fdFree_fdTable_other (hc : ¬ (q = p ∧ w = fd)) : (fdFree s p fd).fdTable q w = s.fdTable q w := by
  unfold fdFree State.kassert
  split_ifs
  · exact setDesc_other s _ hc
  · exact setDesc_other { s with panicked := true } _ hc
  · rfl

@[simp] theorem fdFree_hasTable (p : ProcId) (fd : ℕ) : (fdFree s p fd).hasTable = s.hasTable := by
  unfold fdFree State.kassert
  split_ifs <;> rfl

theorem fdFree_filp (p : ProcId) (fd : ℕ) : (fdFree s p fd).filp = s.filp := by
  unfold fdFree State.kassert
  split_ifs <;> rfl

end

theorem fdAlloc_pending (ha : fdAlloc s p lo hi = (s', some fd)) : Pending s' p fd := by
  obtain ⟨-, -, -, rfl⟩ := fdAlloc_some ha
  exact ⟨by simp, by simp [FileDesc.none]⟩

theorem filpGetNew_some (hfreed : ∀ f ∈ s.filpFreeList, (s.filp f).type = .free)
    (hn : filpGetNew s = (s', some f)) : ∃ rest, s.filpFreeList = f :: rest ∧ s' =
      { s with filpFreeList := rest }.setFilp f { s.filp f with type := .undef, referenceCnt := 1 } := by
  unfold filpGetNew at hn
  split at hn
  · cases hn
  rename_i g rest hfree
  simp only [hfreed g (by simp [hfree])] at hn
  obtain ⟨rfl, rfl⟩ := hn
  exact ⟨rest, hfree, rfl⟩

structure Stakes where
  holding : ProcId → ℕ → FilpId → FilpType → Prop
  table : ProcId → Prop
  used : FilpId → Prop

structure Held (filps : List FilpId) (s : State) (owners : FilpId → Finset (ProcId × ℕ)) (loose : List FilpId)
    (q : ProcId) (w : ℕ) (f : FilpId) (type : FilpType) : Prop where
  mem : f ∈ filps
  loose : f ∈ loose
  unowned : owners f = ∅
  pending : Pending s q w
  type : (s.filp f).type = type

structure Safe (filps : List FilpId) (k : Stakes) (s : State) (owners : FilpId → Finset (ProcId × ℕ))
    (loose : List FilpId) : Prop where
  inv : Inv filps s owners loose
  holding : ∀ q w f type, k.holding q w f type → Held filps s owners loose q w f type
  table : ∀ q, k.table q → s.hasTable q = true
  used : ∀ f, k.used f → f ∈ filps ∧ (owners f).Nonempty

def Stakes.idle (s : State) : Stakes := ⟨fun _ _ _ _ => False, fun q => s.hasTable q = true, fun _ => False⟩

def Stakes.Spares (k : Stakes) (f : FilpId) : Prop := ∀ q w f' type, k.holding q w f' type → f' ≠ f

def Stakes.Off (k : Stakes) (p : ProcId) (fd : ℕ) : Prop :=
  ∀ q w f' type, k.holding q w f' type → ¬ (q = p ∧ w = fd)

def Stakes.Apart (k : Stakes) (p : ProcId) (fd : ℕ) (f : FilpId) : Prop :=
  ∀ q w f' type, k.holding q w f' type → f' ≠ f ∧ ¬ (q = p ∧ w = fd)

theorem Stakes.Apart.spares (h : k.Apart p fd f) : k.Spares f := fun q w f' type hq => (h q w f' type hq).1

theorem Stakes.Apart.off (h : k.Apart p fd f) : k.Off p fd := fun q w f' type hq => (h q w f' type hq).2

theorem Held.congr (hh : Held filps s owners loose q w f type) (hl : f ∈ loose') (ho : owners' f = ∅)
    (hd : s'.fdTable q w = s.fdTable q w) (hf : (s'.filp f).type = (s.filp f).type) :
    Held filps s' owners' loose' q w f type :=
  ⟨hh.mem, hl, ho, hh.pending.congr hd, hf.trans hh.type⟩

theorem doClose_of_valid (hfd : fd < filedescMax) (hv : (s.fdTable p fd).valid = true)
    (ha : (s.fdTable p fd).alloced = true) (hf : (s.fdTable p fd).filp = some f)
    (hkind : (s.filp f).type = .vnode ∨ (s.filp f).type = .superblock) : (doClose s p fd).1 =
      filpRelease (fdFree (s.setDesc p fd { s.fdTable p fd with valid := false }) p fd) f := by
  have hinv : fdInvalidate s p fd = s.setDesc p fd { s.fdTable p fd with valid := false } := by
    unfold fdInvalidate
    rw [if_pos hfd, ha, kassert_true]
  have hget : filpGet s p fd = some f := by
    unfold filpGet
    rw [if_pos ⟨hfd, hv⟩, hf]
  have htype : ((s.setDesc p fd { s.fdTable p fd with valid := false }).filp f).type = (s.filp f).type := rfl
  unfold doClose
  rw [if_neg (by omega)]
  simp only [hget, hinv, htype]
  rcases hkind with hkind | hkind <;> simp only [hkind]

theorem doClose_none (hget : filpGet s p fd = none) : (doClose s p fd).1 = s := by
  unfold doClose
  split
  · rfl
  · simp only [hget]

theorem dupFd_eq {new : ℕ} (hget : filpGet s p fd = some f)
    (hal : fdAlloc s p lo hi = (s', some new)) : (dupFd s p fd lo hi closeOnExec).1 =
      (filpRef (s'.setDesc p new { FileDesc.none with alloced := true, filp := some f }) f).setDesc p new
        ⟨some f, closeOnExec, true, true⟩ := by
  obtain ⟨-, -, -, rfl⟩ := fdAlloc_some hal
  unfold dupFd
  simp [hget, hal, filpRef, State.setFilp, FileDesc.none]

def Stakes.add (k : Stakes) (p : ProcId) (fd : ℕ) (f : FilpId) (type : FilpType) : Stakes :=
  { k with holding := fun q w f' type' => k.holding q w f' type' ∨ (q = p ∧ w = fd ∧ f' = f ∧ type' = type) }

theorem Safe.forget (h : Safe filps (k.add p fd f type) s owners loose) :
    Safe filps k s owners loose ∧ Held filps s owners loose p fd f type :=
  ⟨⟨h.inv, fun q w f' type' hq => h.holding q w f' type' (.inl hq), h.table, h.used⟩,
    h.holding p fd f type (.inr ⟨rfl, rfl, rfl, rfl⟩)⟩

theorem Stakes.Apart.add (h : k.Apart p fd f) (hf : f' ≠ f) (hfd : fd' ≠ fd) : (k.add p fd' f' type).Apart p fd f := by
  rintro q w g type' (hq | ⟨rfl, rfl, rfl, rfl⟩)
  · exact h q w g type' hq
  · exact ⟨hf, fun hc => hfd hc.2⟩

structure Stakes.Pair (k : Stakes) (filps : List FilpId) (s : State) (owners : FilpId → Finset (ProcId × ℕ))
    (loose : List FilpId) (p : ProcId) (fd0 : ℕ) (f0 : FilpId) (fd1 : ℕ) (f1 : FilpId) (type : FilpType) : Prop where
  first : Held filps s owners loose p fd0 f0 type
  second : Held filps s owners loose p fd1 f1 type
  apart0 : k.Apart p fd0 f0
  apart1 : k.Apart p fd1 f1
  filps : f0 ≠ f1
  fds : fd0 ≠ fd1

theorem Held.setFilp (hh : Held filps s owners loose p fd f type) :
    Held filps (s.setFilp f x) owners loose p fd f x.type :=
  ⟨hh.mem, hh.loose, hh.unowned, hh.pending.congr rfl, by simp [State.setFilp]⟩

section

variable (ht : openTake s p = (s', some (fd, f)))
include ht

theorem openTake_some : ∃ s₁, fdAlloc s p 0 filedescMax = (s₁, some fd) ∧ filpGetNew s₁ = (s', some f) := by
  unfold openTake at ht
  split at ht
  · cases ht
  next hal =>
    split at ht <;> cases ht
    next hnew => exact ⟨_, hal, hnew⟩

theorem openTake_lt (hspare : 0 < spare s p 0) : fd < filedescMax := by
  obtain ⟨w, hlo, hw, hfree⟩ := spare_pos.mp hspare
  obtain ⟨s₁, hal, -⟩ := openTake_some ht
  exact fdAlloc_lt hal hlo hw hfree

theorem openTake_spare (hspare : 1 < spare s p 0) : 0 < spare s' p 0 := by
  obtain ⟨w, hne, hw, hfree⟩ := spare_two hspare fd
  obtain ⟨s₁, hal, hnew⟩ := openTake_some ht
  obtain ⟨-, -, -, rfl⟩ := fdAlloc_some hal
  refine spare_pos.mpr ⟨w, Nat.zero_le w, hw, ?_⟩
  rw [filpGetNew_fdTable hnew, setDesc_other s _ (by simp [hne])]
  exact hfree

end

section

variable (h : Safe filps k s owners loose)
include h

theorem Safe.off_of_unalloced (ha : (s.fdTable p fd).alloced = false) : k.Off p fd := by
  rintro q w f' type hk ⟨rfl, rfl⟩
  rw [(h.holding q w f' type hk).pending.alloced] at ha
  cases ha

theorem Safe.off_of_valid (hv : (s.fdTable p fd).valid = true) : k.Off p fd := by
  rintro q w f' type hk ⟨rfl, rfl⟩
  rw [(h.holding q w f' type hk).pending.invalid] at hv
  cases hv

theorem Safe.spares_of_owned (hb : b ∈ owners f) : k.Spares f := by
  rintro q w f' type hk rfl
  rw [(h.holding q w f' type hk).unowned] at hb
  simp at hb

theorem Safe.congr (hi : Inv filps s' owners loose') (htable : s'.hasTable = s.hasTable)
    (hk : ∀ q w f type, k.holding q w f type → f ∈ loose →
      f ∈ loose' ∧ s'.fdTable q w = s.fdTable q w ∧ (s'.filp f).type = (s.filp f).type) : Safe filps k s' owners loose' := by
  refine ⟨hi, ?_, htable ▸ h.table, h.used⟩
  intro q w f type hq
  have hh := h.holding q w f type hq
  obtain ⟨hl, hd, hf⟩ := hk q w f type hq hh.loose
  exact hh.congr hl hh.unowned hd hf

theorem Safe.setDesc (hi : Inv filps (s.setDesc p fd d) owners' loose')
    (hoff : k.Off p fd) (hk : ∀ q w f' type, k.holding q w f' type → f' ∈ loose' ∧ owners' f' = ∅)
    (hu : ∀ f, k.used f → (owners' f).Nonempty) : Safe filps k (s.setDesc p fd d) owners' loose' := by
  refine ⟨hi, ?_, h.table, fun f hf => ⟨(h.used f hf).1, hu f hf⟩⟩
  intro q w f' type hq
  obtain ⟨hl, ho⟩ := hk q w f' type hq
  exact (h.holding q w f' type hq).congr hl ho (setDesc_other s d (hoff q w f' type hq)) rfl

end

section

variable (h : Inv filps s owners loose)
include h

namespace Inv

theorem hasTable (hfd : fd < filedescMax) (hv : (s.fdTable p fd).valid = true) : s.hasTable p = true := by
  by_contra hp
  rw [h.absent p (by simpa using hp) fd hfd] at hv
  cases hv

theorem setDesc (hrefs : Balanced filps s.pool owners' loose')
    (hother : ∀ k b, b ≠ (p, fd) → (b ∈ owners' k ↔ b ∈ owners k))
    (hself : ∀ k, (p, fd) ∈ owners' k ↔ fd < filedescMax ∧ d.valid = true ∧ d.filp = some k)
    (hvalid : fd < filedescMax → d.valid = true → s.hasTable p = true ∧ d.alloced = true ∧
      ∃ f ∈ filps, d.filp = some f ∧ ((s.filp f).type = .vnode ∨ (s.filp f).type = .superblock)) :
    Inv filps (s.setDesc p fd d) owners' loose' := by
  refine ⟨hrefs, ?_, ?_, h.freed, ?_, h.running⟩
  · intro k q w
    by_cases hc : q = p ∧ w = fd
    · obtain ⟨rfl, rfl⟩ := hc
      rw [setDesc_self]
      exact hself k
    · rw [setDesc_other s d hc, hother k (q, w) (by simpa using hc)]
      exact h.owner_iff k q w
  · intro q w hw hv
    by_cases hc : q = p ∧ w = fd
    · obtain ⟨rfl, rfl⟩ := hc
      rw [setDesc_self] at hv ⊢
      exact (hvalid hw hv).2
    · rw [setDesc_other s d hc] at hv ⊢
      exact h.valid q w hw hv
  · intro q hq w hw
    by_cases hc : q = p ∧ w = fd
    · obtain ⟨rfl, rfl⟩ := hc
      by_contra hv
      exact absurd ((hvalid hw (by simpa using hv)).1.symm.trans hq) (by simp)
    · rw [setDesc_other s d hc]
      exact h.absent q hq w hw

theorem setDesc_invalid (hold : fd < filedescMax → (s.fdTable p fd).valid = false)
    (hnew : fd < filedescMax → d.valid = false) : Inv filps (s.setDesc p fd d) owners loose := by
  refine h.setDesc h.refs (fun _ _ _ => Iff.rfl) (fun k => ?_) fun hw hv => ?_
  · rw [h.owner_iff]
    exact and_congr_right fun hw => by simp [hold hw, hnew hw]
  · rw [hnew hw] at hv
    cases hv

theorem setCloseOnExec (p : ProcId) (fd : ℕ) (cloexec : Bool) :
    Inv filps (s.setDesc p fd { s.fdTable p fd with closeOnExec := cloexec }) owners loose :=
  h.setDesc h.refs (fun _ _ _ => Iff.rfl) (fun k => h.owner_iff k p fd)
    fun hw hv => ⟨h.hasTable hw hv, h.valid p fd hw hv⟩

theorem withdraw (hfd : fd < filedescMax) (hv : (s.fdTable p fd).valid = true)
    (hf : (s.fdTable p fd).filp = some f) (hd : d.valid = false) :
    Inv filps (s.setDesc p fd d) (update owners f ((owners f).erase (p, fd))) (f :: loose) := by
  have hold : (p, fd) ∈ owners f := (h.owner_iff f p fd).mpr ⟨hfd, hv, hf⟩
  refine h.setDesc (h.refs.withdraw hold) ?_ ?_ fun _ hc => absurd (hd.symm.trans hc) (by simp)
  · intro k b hb
    by_cases hk : k = f
    · subst hk
      simp [hb]
    · rw [update_of_ne hk]
  · intro k
    by_cases hk : k = f
    · subst hk
      simp [hd]
    · rw [update_of_ne hk, h.owner_iff, hf]
      simp [Ne.symm hk, hd]

theorem invalid_of_unalloced (ha : (s.fdTable p fd).alloced = false)
    (hfd : fd < filedescMax) : (s.fdTable p fd).valid = false := by
  by_contra hv
  simp [(h.valid p fd hfd (by simpa using hv)).1] at ha

theorem fdFree (hp : Pending s p fd) : Inv filps (fdFree s p fd) owners loose := by
  unfold Filps.fdFree
  rw [hp.alloced]
  split_ifs
  · exact h.setDesc_invalid (fun _ => hp.invalid) fun _ => rfl
  · exact h

theorem repool (htable : s'.fdTable = s.fdTable)
    (hhas : s'.hasTable = s.hasTable) (hrun : s'.panicked = s.panicked) (hrefs : Balanced filps s'.pool owners loose')
    (hkind : ∀ k b, b ∈ owners k → (s'.filp k).type = (s.filp k).type)
    (hfreed : ∀ k ∈ s'.filpFreeList, (s'.filp k).type = .free) : Inv filps s' owners loose' := by
  refine ⟨hrefs, htable ▸ h.owner_iff, ?_, hfreed, ?_, hrun.trans h.running⟩
  · intro q w hw hv
    rw [htable] at hv ⊢
    obtain ⟨ha, k, hk, hfilp, htype⟩ := h.valid q w hw hv
    refine ⟨ha, k, hk, hfilp, ?_⟩
    rwa [hkind k (q, w) ((h.owner_iff k q w).mpr ⟨hw, hv, hfilp⟩)]
  · rw [hhas, htable]
    exact h.absent

theorem unused (hf : f ∈ s.filpFreeList) : f ∈ filps ∧ owners f = ∅ ∧ f ∉ loose := by
  have hmem := h.refs.subset f hf
  have hzero := (h.refs.free_iff f hmem).mp hf
  exact ⟨hmem, Finset.card_eq_zero.mp (by omega), List.count_eq_zero.mp (by omega)⟩

theorem filpGetNew (hn : filpGetNew s = (s', some f)) : Inv filps s' owners (f :: loose) := by
  obtain ⟨rest, hfree, rfl⟩ := filpGetNew_some h.freed hn
  obtain ⟨-, hempty, -⟩ := h.unused (f := f) (by simp [hfree])
  have hnd := h.refs.nodup
  simp only [State.pool, hfree, List.nodup_cons] at hnd
  have hpool : ({ s with filpFreeList := rest }.setFilp f
      { s.filp f with type := .undef, referenceCnt := 1 }).pool = s.pool.take f rest := setFilp_pool _ _ _
  refine h.repool rfl rfl rfl (hpool ▸ h.refs.take (by simp [State.pool, hfree])) ?_ ?_
  · intro k b hb
    have hne : k ≠ f := by
      rintro rfl
      simp [hempty] at hb
    simp [State.setFilp, hne]
  · intro k hk
    have hne : k ≠ f := by
      rintro rfl
      exact hnd.1 hk
    simpa [State.setFilp, hne] using h.freed k (by simp [hfree, show k ∈ rest from hk])

theorem setFilp (hx : x.referenceCnt = (s.filp f).referenceCnt)
    (htype : x.type = (s.filp f).type ∨ owners f = ∅ ∧ f ∉ s.filpFreeList) : Inv filps (s.setFilp f x) owners loose := by
  have hpool : (s.setFilp f x).pool = s.pool := (setFilp_pool s f x).trans (by simp [State.pool, hx])
  have hsame (k : FilpId) (hk : k = f → x.type = (s.filp f).type) : ((s.setFilp f x).filp k).type = (s.filp k).type := by
    by_cases hkf : k = f
    · subst hkf
      simpa [State.setFilp] using hk rfl
    · simp [State.setFilp, hkf]
  refine h.repool rfl rfl rfl (hpool ▸ h.refs) ?_ ?_
  · intro k b hb
    refine hsame k ?_
    rintro rfl
    exact htype.resolve_right fun hc => by simp [hc.1] at hb
  · intro k hk
    rw [hsame k]
    · exact h.freed k hk
    · rintro rfl
      exact htype.resolve_right fun hc => hc.2 hk

theorem perm (hp : loose.Perm loose') : Inv filps s owners loose' :=
  { h with refs := h.refs.perm hp }

theorem owned_notMem (hb : b ∈ owners f) : f ∉ s.filpFreeList := by
  intro hm
  rw [(h.unused hm).2.1] at hb
  simp at hb

protected theorem filpRef (hf : f ∈ filps) (hfree : f ∉ s.filpFreeList) :
    Inv filps (filpRef s f) owners (f :: loose) := by
  have hpool : (filpRef s f).pool = s.pool.hold f := setFilp_pool _ _ _
  refine h.repool rfl rfl rfl (hpool ▸ h.refs.hold hf hfree) (fun k _ _ => filpRef_type s f k) ?_
  intro k hk
  rw [filpRef_type]
  exact h.freed k hk

theorem filpGet_mem (hget : filpGet s p fd = some f) :
    f ∈ filps ∧ (p, fd) ∈ owners f ∧ ((s.filp f).type = .vnode ∨ (s.filp f).type = .superblock) := by
  obtain ⟨hfd, hv, hfilp⟩ := filpGet_some hget
  obtain ⟨-, k, hk, hkf, hkind⟩ := h.valid p fd hfd hv
  obtain rfl : k = f := Option.some.inj (hkf.symm.trans hfilp)
  exact ⟨hk, (h.owner_iff k p fd).mpr ⟨hfd, hv, hfilp⟩, hkind⟩

theorem noTable (hgone : ∀ w < filedescMax, (s.fdTable p w).valid = false) :
    Inv filps { s with hasTable := update s.hasTable p false } owners loose := by
  refine { h with absent := ?_ }
  intro q hq w hw
  by_cases hqp : q = p
  · subst hqp
    exact hgone w hw
  · exact h.absent q (by simpa [hqp] using hq) w hw

protected theorem initFproc (hnew : s.hasTable p = false) : Inv filps (initFproc s p beyond) owners loose := by
  have hkeep (q : ProcId) (w : ℕ) (hw : w < filedescMax) :
      ((initFproc s p beyond).fdTable q w).valid = (s.fdTable q w).valid ∧
      ((s.fdTable q w).valid = true → (initFproc s p beyond).fdTable q w = s.fdTable q w) := by
    by_cases hq : q = p
    · subst hq
      have hinv := h.absent q hnew w hw
      simp [initFproc, hw, hinv, FileDesc.none]
    · simp [initFproc, hq]
  refine ⟨h.refs, ?_, ?_, h.freed, ?_, h.running⟩
  · intro f q w
    rw [h.owner_iff]
    refine and_congr_right fun hw => ?_
    rw [(hkeep q w hw).1]
    refine and_congr_right fun hv => ?_
    rw [(hkeep q w hw).2 hv]
  · intro q w hw hv
    rw [(hkeep q w hw).1] at hv
    rw [(hkeep q w hw).2 hv]
    exact h.valid q w hw hv
  · intro q hq w hw
    rw [(hkeep q w hw).1]
    by_cases hqp : q = p
    · subst hqp
      exact h.absent q hnew w hw
    · exact h.absent q (by simpa [initFproc, hqp] using hq) w hw

theorem idle : Safe filps (Stakes.idle s) s owners loose :=
  ⟨h, fun _ _ _ _ hc => hc.elim, fun _ hq => hq, fun _ hc => hc.elim⟩

end Inv

theorem Held.notMem (hh : Held filps s owners loose q w f type) :
    f ∉ s.filpFreeList := fun hm => (h.unused hm).2.2 hh.loose

end

theorem Inv.give (h : Inv filps s owners (f :: loose)) (hf : f ∈ filps) (hfd : fd < filedescMax)
    (hold : (s.fdTable p fd).valid = false) (ha : d.alloced = true) (hv : d.valid = true) (hd : d.filp = some f)
    (hkind : (s.filp f).type = .vnode ∨ (s.filp f).type = .superblock) (htable : s.hasTable p = true) :
    Inv filps (s.setDesc p fd d) (update owners f (insert (p, fd) (owners f))) loose := by
  have hnew (k : FilpId) : (p, fd) ∉ owners k := by
    rw [h.owner_iff]
    simp [hold]
  refine h.setDesc (h.refs.give (hnew f)) ?_ ?_ fun _ _ => ⟨htable, ha, f, hf, hd, hkind⟩
  · intro k b hb
    by_cases hk : k = f
    · subst hk
      simp [hb]
    · rw [update_of_ne hk]
  · intro k
    by_cases hk : k = f
    · subst hk
      simp [hfd, hv, hd]
    · simp [hk, hnew k, hd, Ne.symm hk]

theorem Inv.filpRelease (h : Inv filps s owners (f :: loose)) (hf : f ∈ filps) :
    Inv filps (filpRelease s f) owners loose := by
  have hrefs : Balanced filps (Filps.filpRelease s f).pool owners loose := by
    rw [filpRelease_pool]
    exact h.refs.drop hf
  have hcount : (s.filp f).referenceCnt = _ := h.refs.count f hf
  refine h.repool (filpRelease_fdTable s f) (filpRelease_hasTable s f) ?_ hrefs ?_ ?_
  · unfold Filps.filpRelease
    simp only
    split_ifs <;> rfl
  · intro k b hb
    by_cases hkf : k = f
    · subst hkf
      have hpos : 0 < (owners k).card := Finset.card_pos.mpr ⟨b, hb⟩
      rw [List.count_cons_self] at hcount
      simp [Filps.filpRelease, show ¬ (s.filp k).referenceCnt - 1 = 0 by omega, State.setFilp]
    · rw [filpRelease_filp_other s hkf]
  · intro k hk
    by_cases hkf : k = f
    · subst hkf
      unfold Filps.filpRelease at hk ⊢
      simp only at hk ⊢
      split_ifs at hk ⊢ with hz
      · simp [State.setFilp]
      · have hfree := (h.refs.free_iff k hf).mp hk
        simp at hfree
    · rw [filpRelease_filp_other s hkf]
      refine h.freed k ?_
      unfold Filps.filpRelease at hk
      simp only at hk
      split_ifs at hk
      · simpa [State.setFilp, hkf] using hk
      · exact hk

theorem Safe.give (h : Safe filps k s owners (f :: loose)) (hf : f ∈ filps) (hfd : fd < filedescMax)
    (hold : (s.fdTable p fd).valid = false) (ha : d.alloced = true) (hv : d.valid = true) (hd : d.filp = some f)
    (hkind : (s.filp f).type = .vnode ∨ (s.filp f).type = .superblock) (htable : s.hasTable p = true)
    (hoff : k.Off p fd) (hspares : k.Spares f) :
    Safe filps k (s.setDesc p fd d) (update owners f (insert (p, fd) (owners f))) loose := by
  refine h.setDesc (h.inv.give hf hfd hold ha hv hd hkind htable) hoff ?_ ?_
  · intro q w f' type hq
    have hh := h.holding q w f' type hq
    have hne := hspares q w f' type hq
    exact ⟨by simpa [hne] using hh.loose, (update_of_ne hne _ _).trans hh.unowned⟩
  · intro f' hu
    by_cases hne : f' = f
    · subst hne
      simp
    · rw [update_of_ne hne]
      exact (h.used f' hu).2

theorem Safe.filpRelease (h : Safe filps k s owners (f :: loose)) (hf : f ∈ filps) (hspares : k.Spares f) :
    Safe filps k (filpRelease s f) owners loose := by
  refine h.congr (h.inv.filpRelease hf) (filpRelease_hasTable s f) fun q w f' type hq hl => ?_
  have hne := hspares q w f' type hq
  exact ⟨by simpa [hne] using hl, by rw [filpRelease_fdTable], by rw [filpRelease_filp_other s hne]⟩

namespace Safe

variable (h : Safe filps k s owners loose)
include h

theorem perm (hp : loose.Perm loose') : Safe filps k s owners loose' :=
  h.congr (h.inv.perm hp) rfl fun _ _ _ _ _ hl => ⟨hp.mem_iff.mp hl, rfl, rfl⟩

theorem setDesc_invalid (hoff : k.Off p fd)
    (hold : fd < filedescMax → (s.fdTable p fd).valid = false) (hnew : fd < filedescMax → d.valid = false) :
    Safe filps k (s.setDesc p fd d) owners loose :=
  h.setDesc (h.inv.setDesc_invalid hold hnew) hoff
    (fun q w f' type hq => ⟨(h.holding q w f' type hq).loose, (h.holding q w f' type hq).unowned⟩)
    fun f hf => (h.used f hf).2

theorem fdAlloc (ha : fdAlloc s p lo hi = (s', some fd)) : Safe filps k s' owners loose := by
  obtain ⟨hun, -, -, rfl⟩ := fdAlloc_some ha
  exact h.setDesc_invalid (h.off_of_unalloced hun) (h.inv.invalid_of_unalloced hun) fun _ => rfl

theorem fdFree (hp : Pending s p fd) (hoff : k.Off p fd) : Safe filps k (fdFree s p fd) owners loose :=
  h.congr (h.inv.fdFree hp) (fdFree_hasTable s p fd) fun q w f' type hq hl =>
    ⟨hl, fdFree_fdTable_other s (hoff q w f' type hq), by rw [fdFree_filp]⟩

theorem filpGetNew (hn : filpGetNew s = (s', some f)) : Safe filps k s' owners (f :: loose) := by
  have hi := h.inv.filpGetNew hn
  obtain ⟨rest, hfree, rfl⟩ := filpGetNew_some h.inv.freed hn
  refine h.congr hi rfl fun q w f' type hq hl => ?_
  have hne : f' ≠ f := by
    rintro rfl
    exact (h.holding q w f' type hq).notMem h.inv (by simp [hfree])
  exact ⟨by simp [hl], rfl, by simp [State.setFilp, hne]⟩

protected theorem filpRef (hf : f ∈ filps) (hfree : f ∉ s.filpFreeList) :
    Safe filps k (filpRef s f) owners (f :: loose) :=
  h.congr (h.inv.filpRef hf hfree) rfl fun _ _ f' _ _ hl => ⟨by simp [hl], rfl, filpRef_type s f f'⟩

theorem doClose
    (hu : ∀ f, filpGet s p fd = some f → k.used f → ∃ q w, ¬ (q = p ∧ w = fd) ∧ filpGet s q w = some f) :
    ∃ owners', Safe filps k (doClose s p fd).1 owners' loose := by
  cases hget : filpGet s p fd with
  | none =>
    rw [doClose_none hget]
    exact ⟨owners, h⟩
  | some f =>
    obtain ⟨hfd, hv, hfilp⟩ := filpGet_some hget
    obtain ⟨hf, hmem, hkind⟩ := h.inv.filpGet_mem hget
    have ha := (h.inv.valid p fd hfd hv).1
    have hoff := h.off_of_valid hv
    have hspares := h.spares_of_owned hmem
    rw [doClose_of_valid hfd hv ha hfilp hkind]
    have hw := h.setDesc (h.inv.withdraw (d := { s.fdTable p fd with valid := false }) hfd hv hfilp rfl) hoff
      (fun q w f' type hq => ⟨by simp [(h.holding q w f' type hq).loose],
        (update_of_ne (hspares q w f' type hq) _ _).trans (h.holding q w f' type hq).unowned⟩) ?_
    · refine ⟨_, Safe.filpRelease (hw.fdFree ⟨?_, ?_⟩ hoff) hf hspares⟩
      · rw [setDesc_self]
        exact ha
      · rw [setDesc_self]
    · -- Another descriptor is left where another thread uses the filp.
      intro f' hused
      by_cases hff : f' = f
      · subst hff
        obtain ⟨q, w, hqw, hget'⟩ := hu f' hget hused
        obtain ⟨-, hmem', -⟩ := h.inv.filpGet_mem hget'
        rw [update_self]
        exact ⟨(q, w), Finset.mem_erase.mpr ⟨by simpa using hqw, hmem'⟩⟩
      · rw [update_of_ne hff]
        exact (h.used f' hused).2

theorem setCloseOnExec (p : ProcId) (fd : ℕ) (cloexec : Bool) :
    Safe filps k (s.setDesc p fd { s.fdTable p fd with closeOnExec := cloexec }) owners loose := by
  refine ⟨h.inv.setCloseOnExec p fd cloexec, ?_, h.table, h.used⟩
  intro q w f type hq
  have hh := h.holding q w f type hq
  refine { hh with pending := ?_ }
  by_cases hc : q = p ∧ w = fd
  · obtain ⟨rfl, rfl⟩ := hc
    exact ⟨by simpa using hh.pending.alloced, by simpa using hh.pending.invalid⟩
  · exact hh.pending.congr (setDesc_other s _ hc)

protected theorem initFproc (hnew : s.hasTable p = false)
    (hk : ∀ q w f type, k.holding q w f type → q ≠ p) : Safe filps k (initFproc s p beyond) owners loose := by
  refine ⟨h.inv.initFproc hnew, ?_, ?_, h.used⟩
  · intro q w f type hq
    have hh := h.holding q w f type hq
    exact hh.congr hh.loose hh.unowned (by simp [initFproc, hk q w f type hq]) rfl
  intro q hq
  have hne : q ≠ p := by
    rintro rfl
    rw [h.table q hq] at hnew
    cases hnew
  simpa [initFproc, hne] using h.table q hq

protected theorem forkFd (hfd : fd < filedescMax)
    (hempty : (s.fdTable new fd).valid = false) (htable : s.hasTable new = true)
    (hk : ∀ q w f type, k.holding q w f type → q ≠ new) :
    (∃ owners', Safe filps k (forkFd new p s fd) owners' loose) ∧ (forkFd new p s fd).hasTable = s.hasTable ∧
      ∀ w, w ≠ fd → (forkFd new p s fd).fdTable new w = s.fdTable new w := by
  have hoff : k.Off new fd := fun q w f' type hq hc => hk q w f' type hq hc.1
  unfold forkFd
  split_ifs with hv
  · obtain ⟨ha, f, hf, hfilp, hkind⟩ := h.inv.valid p fd hfd hv
    have hmem : (p, fd) ∈ owners f := (h.inv.owner_iff f p fd).mpr ⟨hfd, hv, hfilp⟩
    simp only [hfilp]
    refine ⟨⟨update owners f (insert (new, fd) (owners f)), ?_⟩, rfl, fun w hw => setDesc_other s _ (by simp [hw])⟩
    -- The entry is copied before the count is raised; the other way round is the same.
    exact (h.filpRef hf (h.inv.owned_notMem hmem)).give hf hfd hempty ha hv hfilp (by rwa [filpRef_type]) htable hoff
      (h.spares_of_owned hmem)
  · exact ⟨⟨owners, h.setDesc_invalid hoff (fun _ => hempty) fun _ => rfl⟩, rfl,
      fun w hw => setDesc_other s _ (by simp [hw])⟩

theorem forkFds (hnew : s.hasTable new = false)
    (hk : ∀ q w f type, k.holding q w f type → q ≠ new) (p : ProcId) (beyond : FileDesc) :
    (∃ owners', Safe filps k (forkFds s new p beyond) owners' loose) ∧
      (forkFds s new p beyond).hasTable = update s.hasTable new true := by
  have hfold : ∀ (todo : List ℕ) (s : State) (owners : FilpId → Finset (ProcId × ℕ)), Safe filps k s owners loose →
      todo.Nodup → s.hasTable new = true → (∀ fd ∈ todo, fd < filedescMax ∧ (s.fdTable new fd).valid = false) →
      (∃ owners', Safe filps k (todo.foldl (forkFd new p) s) owners' loose) ∧
        (todo.foldl (forkFd new p) s).hasTable = s.hasTable := by
    intro todo
    induction todo with
    | nil => exact fun s owners h _ _ _ => ⟨⟨owners, h⟩, rfl⟩
    | cons fd todo ih =>
      intro s owners h hnd htable hempty
      obtain ⟨hfd, hnd⟩ := List.nodup_cons.mp hnd
      obtain ⟨hlt, hinv⟩ := hempty fd (by simp)
      obtain ⟨⟨owners', hdone⟩, hhas, hother⟩ := h.forkFd (p := p) hlt hinv htable hk
      have hrest := ih _ owners' hdone hnd (by rw [hhas, htable]) fun w hw => by
        have hne : w ≠ fd := by
          rintro rfl
          exact hfd hw
        rw [hother w hne]
        exact hempty w (by simp [hw])
      exact ⟨hrest.1, hrest.2.trans hhas⟩
  refine hfold (List.range filedescMax) _ owners (h.initFproc hnew hk) List.nodup_range (by simp [initFproc]) ?_
  intro fd hfd
  have hlt := List.mem_range.mp hfd
  exact ⟨hlt, by simp [initFproc, hlt, FileDesc.none]⟩

end Safe

theorem Safe.install (h : Safe filps k s owners (f :: loose)) (hf : f ∈ filps) (hp : Pending s p fd)
    (hkind : (s.filp f).type = .vnode ∨ (s.filp f).type = .superblock) (htable : s.hasTable p = true)
    (hk : k.Apart p fd f) (closeOnExec : Bool) : ∃ owners', Safe filps k (install s p fd f closeOnExec) owners'
      (if fd < filedescMax then loose else f :: loose) := by
  split_ifs with hfd
  · exact ⟨_, h.give hf hfd hp.invalid hp.alloced rfl rfl hkind htable hk.off hk.spares⟩
  · exact ⟨owners, h.setDesc_invalid hk.off (fun hlt => absurd hlt hfd) fun hlt => absurd hlt hfd⟩

section

variable (h : Safe filps k s owners loose) (htable : s.hasTable p = true)
include h htable

theorem Safe.dupFd_some {new : ℕ} (hget : filpGet s p fd = some f) (hal : Filps.fdAlloc s p lo hi = (s', some new)) :
    ∃ owners', Safe filps k (dupFd s p fd lo hi closeOnExec).1 owners'
      (if new < filedescMax then loose else f :: loose) := by
  obtain ⟨hf, hmem, hkind⟩ := h.inv.filpGet_mem hget
  have hoff := h.off_of_unalloced (fdAlloc_some hal).1
  have h₁ := (h.fdAlloc hal).setDesc_invalid (d := { FileDesc.none with alloced := true, filp := some f }) hoff
    (fun _ => (fdAlloc_pending hal).invalid) fun _ => rfl
  have h₂ := h₁.filpRef hf (h₁.inv.owned_notMem hmem)
  have hpend : Pending (filpRef (s'.setDesc p new { FileDesc.none with alloced := true, filp := some f }) f)
      p new := ⟨by simp [filpRef, State.setFilp], by simp [filpRef, State.setFilp, FileDesc.none]⟩
  have hsame : s'.filp = s.filp ∧ s'.hasTable = s.hasTable := by
    obtain ⟨-, -, -, rfl⟩ := fdAlloc_some hal
    exact ⟨rfl, rfl⟩
  obtain ⟨owners', hdone⟩ := h₂.install hf hpend (by rw [filpRef_type]; exact hsame.1 ▸ hkind)
    (by rw [← htable, ← hsame.2]; rfl)
    (fun q w f' type hq => ⟨h.spares_of_owned hmem q w f' type hq, hoff q w f' type hq⟩) closeOnExec
  refine ⟨owners', ?_⟩
  rw [dupFd_eq hget hal]
  simpa [Filps.install, filpRef, State.setFilp, FileDesc.none] using hdone

theorem Safe.dupFd : ∃ owners' loose', Safe filps k (dupFd s p fd lo hi closeOnExec).1 owners' loose' ∧
      ((∀ s' new, Filps.fdAlloc s p lo hi = (s', some new) → new < filedescMax) → loose' = loose) := by
  cases hget : filpGet s p fd with
  | none =>
    unfold Filps.dupFd
    rw [hget]
    exact ⟨owners, loose, h, fun _ => rfl⟩
  | some f =>
    rcases hal : Filps.fdAlloc s p lo hi with ⟨s₁, _ | new⟩
    · unfold Filps.dupFd
      simp only [hget, hal]
      rw [fdAlloc_none hal]
      exact ⟨owners, loose, h, fun _ => rfl⟩
    · obtain ⟨owners', hdone⟩ := h.dupFd_some htable hget hal
      exact ⟨owners', _, hdone, fun hlt => if_pos (hlt s₁ new rfl)⟩

theorem Safe.sysFcntl {cmd : Fcntl} : ∃ owners' loose', Safe filps k (sysFcntl s p fd cmd).1 owners' loose' ∧
      (InTable s (.fcntl p fd cmd) → loose' = loose) := by
  have hsame : ∃ owners' loose', Safe filps k s owners' loose' ∧ (InTable s (.fcntl p fd cmd) → loose' = loose) :=
    ⟨owners, loose, h, fun _ => rfl⟩
  have hdup (arg : ℕ) (closeOnExec : Bool) (hin : InTable s (.fcntl p fd cmd) → 0 < spare s p arg) :
      ∃ owners' loose', Safe filps k (Filps.dupFd s p fd arg filedescMax closeOnExec).1 owners' loose' ∧
        (InTable s (.fcntl p fd cmd) → loose' = loose) := by
    obtain ⟨owners', loose', hdone, hl⟩ := h.dupFd htable
    refine ⟨owners', loose', hdone, fun hc => hl fun s' new hal => ?_⟩
    obtain ⟨w, hlo, hw, hfree⟩ := spare_pos.mp (hin hc)
    exact fdAlloc_lt hal hlo hw hfree
  unfold Filps.sysFcntl
  split_ifs with hmax hv
  · exact hsame
  · exact hsame
  cases hget : filpGet s p fd with
  | none => exact hsame
  | some f =>
    cases cmd with
    | dupfd arg =>
      simp only
      split_ifs with harg
      · exact hsame
      · exact hdup arg false fun hin => hin (by omega)
    | dupfdCloexec arg =>
      simp only
      split_ifs with harg
      · exact hsame
      · exact hdup arg true fun hin => hin (by omega)
    | setfd cloexec => exact ⟨owners, loose, h.setCloseOnExec p fd cloexec, fun _ => rfl⟩
    | _ => exact hsame

end

section

variable (h : Safe filps k s owners loose)
include h

theorem Safe.openTake_none (ht : openTake s p = (s', none)) : Safe filps k s' owners loose := by
  unfold openTake at ht
  split at ht
  next hal =>
    cases ht
    exact fdAlloc_none hal ▸ h
  next hal =>
    split at ht <;> cases ht
    next hnew =>
      rw [filpGetNew_none hnew]
      exact (h.fdAlloc hal).fdFree (fdAlloc_pending hal) (h.off_of_unalloced (fdAlloc_some hal).1)

theorem Safe.openTake_some (ht : openTake s p = (s', some (fd, f))) :
    Safe filps k s' owners (f :: loose) ∧ Held filps s' owners (f :: loose) p fd f .undef ∧ k.Apart p fd f ∧
      s'.hasTable = s.hasTable := by
  obtain ⟨s₁, hal, hnew⟩ := Filps.openTake_some ht
  have h₁ := h.fdAlloc hal
  have h₂ := h₁.filpGetNew hnew
  obtain ⟨rest, hfree, rfl⟩ := filpGetNew_some h₁.inv.freed hnew
  obtain ⟨hf, hempty, hnot⟩ := h₁.inv.unused (f := f) (by simp [hfree])
  refine ⟨h₂, ⟨hf, by simp, hempty, (fdAlloc_pending hal).congr rfl, by simp [State.setFilp]⟩, ?_, (fdAlloc_hasTable hal :)⟩
  refine fun q w f' type hq => ⟨?_, h.off_of_unalloced (fdAlloc_some hal).1 q w f' type hq⟩
  rintro rfl
  exact hnot (h₁.holding q w f' type hq).loose

theorem Safe.openStart_none (ht : openStart s p = (s', none)) : Safe filps k s' owners loose := by
  unfold openStart at ht
  split at ht <;> cases ht
  next htake => exact h.openTake_none htake

theorem Safe.setOffset (f : FilpId) (offset : ℤ) :
    Safe filps k (s.setFilp f { s.filp f with offset := offset }) owners loose := by
  refine h.congr (h.inv.setFilp rfl (.inl rfl)) rfl fun q w f' type hq hl => ⟨hl, rfl, ?_⟩
  by_cases hf : f' = f <;> simp [State.setFilp, hf]

namespace Safe

variable (hh : Held filps s owners loose p fd f type) (ha : k.Apart p fd f)
include hh

theorem add : Safe filps (k.add p fd f type) s owners loose := by
  refine ⟨h.inv, ?_, h.table, h.used⟩
  rintro q w f' type' (hq | ⟨rfl, rfl, rfl, rfl⟩)
  · exact h.holding q w f' type' hq
  · exact hh

include ha

theorem setHeld (hx : x.referenceCnt = (s.filp f).referenceCnt) : Safe filps k (s.setFilp f x) owners loose :=
  h.congr (h.inv.setFilp hx (.inr ⟨hh.unowned, hh.notMem h.inv⟩)) rfl fun q w f' type hq hl =>
    ⟨hl, rfl, by simp [State.setFilp, ha.spares q w f' type hq]⟩

theorem openFail : Safe filps k (openFail s p fd f) owners (loose.erase f) :=
  ((h.perm (List.perm_cons_erase hh.loose)).fdFree hh.pending ha.off).filpRelease hh.mem ha.spares

theorem releaseFree : Safe filps k (Filps.fdFree (Filps.filpRelease s f) p fd) owners (loose.erase f) := by
  refine ((h.perm (List.perm_cons_erase hh.loose)).filpRelease hh.mem ha.spares).fdFree ?_ ha.off
  exact hh.pending.congr (by rw [filpRelease_fdTable])

theorem installHeld (hkind : type = .vnode ∨ type = .superblock)
    (htable : s.hasTable p = true) (closeOnExec : Bool) :
    ∃ owners', Safe filps k (Filps.install s p fd f closeOnExec) owners'
      (if fd < filedescMax then loose.erase f else f :: loose.erase f) :=
  (h.perm (List.perm_cons_erase hh.loose)).install hh.mem hh.pending (hh.type ▸ hkind) htable ha closeOnExec

theorem mountDone (htable : s.hasTable p = true) : ∃ owners', Safe filps k (mountDone s p fd f) owners'
      (if fd < filedescMax then loose.erase f else f :: loose.erase f) :=
  (h.setHeld (x := { s.filp f with type := .superblock, offset := 0 }) hh ha rfl).installHeld hh.setFilp ha
    (.inr rfl) htable false

end Safe

theorem Safe.openDone {offset : ℤ}
    (hh : Held filps s owners loose p fd f .vnode) (ha : k.Apart p fd f) (htable : s.hasTable p = true) :
    ∃ owners', Safe filps k (openDone s p fd f closeOnExec offset) owners'
      (if fd < filedescMax then loose.erase f else f :: loose.erase f) :=
  (h.setHeld (x := { s.filp f with offset := offset }) hh ha rfl).installHeld hh.setFilp ha (.inl hh.type) htable
    closeOnExec

theorem Safe.openStart_some (ht : openStart s p = (s', some (fd, f))) :
    Safe filps k s' owners (f :: loose) ∧ Held filps s' owners (f :: loose) p fd f .vnode ∧ k.Apart p fd f ∧
      s'.hasTable = s.hasTable ∧ (0 < spare s p 0 → fd < filedescMax) := by
  unfold openStart at ht
  split at ht <;> cases ht
  next htake =>
    obtain ⟨h₁, hh, ha, hhas⟩ := h.openTake_some htake
    exact ⟨h₁.setHeld hh ha rfl, hh.setFilp, ha, hhas, openTake_lt htake⟩

theorem Safe.pipeStart_some (ht : pipeStart s p = (s', some ((fd0, f0), (fd1, f1)))) :
    Safe filps k s' owners (f1 :: f0 :: loose) ∧ k.Pair filps s' owners (f1 :: f0 :: loose) p fd0 f0 fd1 f1 .undef ∧
      s'.hasTable = s.hasTable ∧ (1 < spare s p 0 → fd0 < filedescMax ∧ fd1 < filedescMax) := by
  unfold pipeStart at ht
  split at ht
  · cases ht
  rename_i htake
  split at ht <;> cases ht
  rename_i htake'
  obtain ⟨h₁, hh, ha, hhas⟩ := h.openTake_some htake
  obtain ⟨h₂, hh', ha', hhas'⟩ := (h₁.add hh).openTake_some htake'
  obtain ⟨hfirst, hhfirst⟩ := h₂.forget
  have hne := ha' p fd0 f0 .undef (.inr ⟨rfl, rfl, rfl, rfl⟩)
  refine ⟨hfirst, ⟨hhfirst, hh', ha, fun q w g type hq => ha' q w g type (.inl hq), hne.1,
    fun hc => hne.2 ⟨rfl, hc⟩⟩, hhas'.trans hhas, fun hspare => ⟨openTake_lt htake (by omega), ?_⟩⟩
  -- The second entry comes from the one the first left.
  exact openTake_lt htake' (openTake_spare htake hspare)

theorem Safe.pipeStart_none (ht : pipeStart s p = (s', none)) : Safe filps k s' owners loose := by
  unfold pipeStart at ht
  split at ht
  next htake =>
    cases ht
    exact h.openTake_none htake
  next htake =>
    obtain ⟨h₁, hh, ha, -⟩ := h.openTake_some htake
    split at ht <;> cases ht
    next htake' =>
      obtain ⟨h₂, hh₂⟩ := ((h₁.add hh).openTake_none htake').forget
      simpa using h₂.releaseFree hh₂ ha

theorem Safe.pipeTypes (hp : k.Pair filps s owners loose p fd0 f0 fd1 f1 type) :
    Safe filps k (pipeTypes s f0 f1) owners loose ∧
      k.Pair filps (pipeTypes s f0 f1) owners loose p fd0 f0 fd1 f1 .vnode := by
  obtain ⟨h₁, hh1⟩ := ((h.add hp.second).setHeld (x := { s.filp f0 with type := .vnode, offset := 0 }) hp.first
    (hp.apart0.add hp.filps.symm hp.fds.symm) rfl).forget
  have hh0 := hp.first.setFilp (x := { s.filp f0 with type := .vnode, offset := 0 })
  obtain ⟨h₂, hh0'⟩ := ((h₁.add hh0).setHeld
    (x := { (s.setFilp f0 { s.filp f0 with type := .vnode, offset := 0 }).filp f1 with type := .vnode, offset := 0 })
    hh1 (hp.apart1.add hp.filps hp.fds) rfl).forget
  exact ⟨h₂, { hp with first := hh0', second := hh1.setFilp }⟩

theorem Safe.pipeFail (hp : k.Pair filps s owners loose p fd0 f0 fd1 f1 type) :
    Safe filps k (pipeFail s p fd0 f0 fd1 f1) owners ((loose.erase f1).erase f0) := by
  obtain ⟨h₁, hh0⟩ := ((h.add hp.first).releaseFree hp.second (hp.apart1.add hp.filps hp.fds)).forget
  exact h₁.releaseFree hh0 hp.apart0

theorem Safe.pipeDone (hp : k.Pair filps s owners loose p fd0 f0 fd1 f1 .vnode) (htable : s.hasTable p = true) :
    ∃ owners' loose', Safe filps k (pipeDone s p fd0 f0 fd1 f1) owners' loose' ∧
      (fd0 < filedescMax → fd1 < filedescMax → loose' = (loose.erase f0).erase f1) := by
  obtain ⟨owners₁, h₁⟩ := (h.add hp.second).installHeld hp.first (hp.apart0.add hp.filps.symm hp.fds.symm)
    (.inl rfl) htable false
  obtain ⟨h₁, hh1⟩ := h₁.forget
  obtain ⟨owners₂, h₂⟩ := h₁.installHeld hh1 hp.apart1 (.inl rfl) htable false
  exact ⟨owners₂, _, h₂, fun hlt0 hlt1 => by simp [hlt0, hlt1]⟩

end

def Sound (filps loose : List FilpId) (s : State) : Prop := ∃ owners, Inv filps s owners loose

structure Closed (s s' : State) (p : ProcId) (fd : ℕ) : Prop where
  hasTable : s'.hasTable = s.hasTable
  other : ∀ q w, ¬ (q = p ∧ w = fd) → s'.fdTable q w = s.fdTable q w
  gone : fd < filedescMax → (s'.fdTable p fd).valid = false

theorem Closed.fdFree (h : Closed s s' p fd) : Closed s (fdFree s' p fd) p fd := by
  refine ⟨?_, ?_, ?_⟩
  · rw [fdFree_hasTable]
    exact h.hasTable
  · intro q w hc
    rw [fdFree_fdTable_other _ hc]
    exact h.other q w hc
  · intro hfd
    unfold Filps.fdFree
    rw [if_pos hfd, setDesc_self]
    rfl

theorem Closed.filpRelease (h : Closed s s' p fd) (f : FilpId) : Closed s (filpRelease s' f) p fd :=
  ⟨by rw [filpRelease_hasTable, h.hasTable], by rw [filpRelease_fdTable]; exact h.other,
    by rw [filpRelease_fdTable]; exact h.gone⟩

section

variable (s : State) (p : ProcId) (superblock vnode : Bool)

theorem kassert_fdTable (b : Bool) : (s.kassert b).fdTable = s.fdTable := by
  unfold State.kassert
  split <;> rfl

theorem kassert_hasTable (b : Bool) : (s.kassert b).hasTable = s.hasTable := by
  unfold State.kassert
  split <;> rfl

theorem doOpen_eq (closeOnExec truncated : Bool) (offset : ℤ) :
    doOpen s p closeOnExec truncated offset = match openStart s p with
      | (s, none) => (s, .error .enomem)
      | (s, some (fd, f)) =>
        if truncated then (openDone s p fd f closeOnExec offset, .ok fd) else (openFail s p fd f, .error .eother) := by
  unfold doOpen openStart openTake
  rcases fdAlloc s p 0 filedescMax with ⟨s₁, _ | fd⟩
  · rfl
  · dsimp only
    rcases filpGetNew s₁ with ⟨s₂, _ | f⟩ <;> rfl

theorem sysCreatemsgport_eq :
    sysCreatemsgport s p superblock vnode = match openTake s p with
      | (s, none) => (s, .error .emfile)
      | (s, some (fd, f)) =>
        if ¬ superblock then (openFail s p fd f, .error .emfile)
        else if ¬ vnode then (s, .error .enomem)
        else (mountDone s p fd f, .ok fd) := by
  unfold sysCreatemsgport openTake
  rcases fdAlloc s p 0 filedescMax with ⟨s₁, _ | fd⟩
  · rfl
  · dsimp only
    rcases filpGetNew s₁ with ⟨s₂, _ | f⟩ <;> rfl

theorem sysPipe_eq (copied : Bool) :
    sysPipe s p vnode copied = match pipeStart s p with
      | (s, none) => (s, .error .enomem)
      | (s, some ((fd0, f0), (fd1, f1))) =>
        if vnode then
          if copied then (pipeDone (pipeTypes s f0 f1) p fd0 f0 fd1 f1, .ok 0)
          else (pipeFail (pipeTypes s f0 f1) p fd0 f0 fd1 f1, .error .eother)
        else (pipeFail s p fd0 f0 fd1 f1, .error .enomem) := by
  unfold sysPipe pipeStart openTake
  rcases fdAlloc s p 0 filedescMax with ⟨s₁, _ | fd⟩
  · rfl
  dsimp only
  rcases filpGetNew s₁ with ⟨s₂, _ | f⟩
  · rfl
  dsimp only
  rcases fdAlloc s₂ p 0 filedescMax with ⟨s₃, _ | fd'⟩
  · rfl
  · dsimp only
    rcases filpGetNew s₃ with ⟨s₄, _ | f'⟩ <;> rfl

end

theorem Closed.setDesc_invalid (b : Bool) (hd : d.valid = false) : Closed s ((s.kassert b).setDesc p fd d) p fd := by
  refine ⟨kassert_hasTable s b, ?_, ?_⟩
  · intro q w hc
    rw [setDesc_other _ d hc, kassert_fdTable]
  · intro _
    rw [setDesc_self]
    exact hd

theorem doClose_closed (hget : filpGet s p fd = some f) : Closed s (doClose s p fd).1 p fd := by
  have hfd := (filpGet_some hget).1
  have hinv : Closed s (fdInvalidate s p fd) p fd := by
    unfold fdInvalidate
    rw [if_pos hfd]
    exact Closed.setDesc_invalid _ rfl
  unfold doClose
  rw [if_neg (by omega)]
  simp only [hget]
  split
  · exact hinv.fdFree.filpRelease f
  · exact hinv.fdFree.filpRelease f
  · exact ⟨hinv.hasTable, hinv.other, hinv.gone⟩

theorem doClose_other (hc : ¬ (q = p ∧ w = fd)) : (doClose s p fd).1.fdTable q w = s.fdTable q w := by
  cases hget : filpGet s p fd with
  | none => rw [doClose_none hget]
  | some f => exact (doClose_closed hget).other q w hc

theorem doClose_hasTable (s : State) (p : ProcId) (fd : ℕ) : (doClose s p fd).1.hasTable = s.hasTable := by
  cases hget : filpGet s p fd with
  | none => rw [doClose_none hget]
  | some f => exact (doClose_closed hget).hasTable

theorem Inv.gone (h : Inv filps s owners loose) (hfd : fd < filedescMax) :
    ((doClose s p fd).1.fdTable p fd).valid = false := by
  cases hget : filpGet s p fd with
  | some f => exact (doClose_closed hget).gone hfd
  | none =>
    rw [doClose_none hget]
    by_contra hv
    obtain ⟨-, f, -, hfilp, -⟩ := h.valid p fd hfd (by simpa using hv)
    simp [filpGet, hfd, hfilp, Bool.eq_true_of_not_eq_false hv] at hget

theorem Sound.booted (h : Booted filps s) : Sound filps [] s := by
  have hinvalid (p : ProcId) (fd : ℕ) (hfd : fd < filedescMax) : (s.fdTable p fd).valid = false := by
    rw [h.tables p fd hfd]
    rfl
  refine ⟨fun _ => ∅, ⟨?_, ?_, ?_, ?_⟩, ?_, ?_, ?_, ?_, h.running⟩
  · simpa [State.pool, h.free] using h.nodup
  · intro f hf
    exact h.free ▸ hf
  · intro f hf
    exact (h.filp f hf).2
  · intro f hf
    simp [State.pool, h.free, hf]
  · intro f p fd
    simp only [Finset.notMem_empty, false_iff, not_and]
    intro hfd hv
    simp [hinvalid p fd hfd] at hv
  · intro p fd hfd hv
    simp [hinvalid p fd hfd] at hv
  · intro f hf
    exact (h.filp f (h.free ▸ hf)).1
  · intro p _ fd hfd
    exact hinvalid p fd hfd

def bootState : State :=
  ⟨fun _ => ⟨.free, 0, 0⟩, [0, 1, 2], fun _ _ => FileDesc.none, fun p => p = 0, false⟩

theorem bootState_booted : Booted [0, 1, 2] bootState := by
  refine ⟨rfl, by decide, ?_, fun _ _ _ => rfl, rfl⟩
  intro f _
  exact ⟨rfl, rfl⟩

namespace Sound

variable (h : Sound filps loose s) (htable : s.hasTable p = true)
include h

theorem doClose (p : ProcId) (fd : ℕ) : Sound filps loose (doClose s p fd).1 := by
  obtain ⟨owners, h⟩ := h
  obtain ⟨owners', hdone⟩ := h.idle.doClose fun _ _ hc => hc.elim
  exact ⟨owners', hdone.inv⟩

theorem finiFproc (p : ProcId) : Sound filps loose (finiFproc s p) := by
  have hfold : ∀ (todo : List ℕ) (s : State), Sound filps loose s →
      Sound filps loose (todo.foldl (fun s fd => (Filps.doClose s p fd).1) s) ∧
      ∀ fd < filedescMax, (fd ∈ todo ∨ (s.fdTable p fd).valid = false) →
        ((todo.foldl (fun s fd => (Filps.doClose s p fd).1) s).fdTable p fd).valid = false := by
    intro todo
    induction todo with
    | nil =>
      intro s h
      exact ⟨h, fun fd _ hfd => by simpa using hfd⟩
    | cons k todo ih =>
      intro s h
      obtain ⟨hdone, hgone⟩ := ih _ (h.doClose p k)
      refine ⟨hdone, fun fd hfd hin => hgone fd hfd ?_⟩
      obtain ⟨owners, h⟩ := h
      by_cases hk : fd = k
      · subst hk
        exact .inr (h.gone hfd)
      · rw [doClose_other (by simp [hk])]
        simpa [hk] using hin
  obtain ⟨⟨owners, hdone⟩, hgone⟩ := hfold (List.range filedescMax) s h
  exact ⟨owners, hdone.noTable fun w hw => hgone w hw (.inl (List.mem_range.mpr hw))⟩

theorem sysFork (hchild : s.hasTable child = false) : Sound filps loose (sysFork s p child thread beyond) := by
  obtain ⟨owners, h⟩ := h
  obtain ⟨⟨owners', hfork⟩, -⟩ := h.idle.forkFds hchild (fun _ _ _ _ hc => hc.elim) p beyond
  have hdone : Sound filps loose (forkFds s child p beyond) := ⟨owners', hfork.inv⟩
  unfold Filps.sysFork
  split_ifs
  · exact hdone
  · exact hdone.finiFproc child

theorem execFds (p : ProcId) : Sound filps loose (execFds s p) := by
  refine List.foldlRecOn (motive := Sound filps loose) (List.range filedescMax) (execFd p) h fun s h fd _ => ?_
  unfold execFd
  split_ifs
  · obtain ⟨owners, h⟩ := h
    exact Sound.doClose ⟨owners, h.setCloseOnExec p fd false⟩ p fd
  · exact h

theorem referenceCnt (hf : f ∈ filps) : (s.filp f).referenceCnt = descriptors s f + loose.count f ∧
      s.filpFreeList.count f = if descriptors s f + loose.count f = 0 then 1 else 0 := by
  obtain ⟨owners, h⟩ := h
  have hset : {x : ProcId × ℕ | x.2 < filedescMax ∧ (s.fdTable x.1 x.2).valid = true ∧
      (s.fdTable x.1 x.2).filp = some f} = owners f := by
    ext ⟨p, fd⟩
    simp [h.owner_iff]
  have hcard : descriptors s f = (owners f).card := by
    rw [← Set.ncard_coe_finset, ← hset]
    rfl
  have hiff := h.refs.free_iff f hf
  rw [hcard]
  refine ⟨by simpa [State.pool] using h.refs.count f hf, ?_⟩
  split_ifs with hz
  · exact List.count_eq_one_of_mem h.refs.nodup (hiff.mpr hz)
  · exact List.count_eq_zero.mpr fun hm => hz (hiff.mp hm)

include htable

theorem dupFd : ∃ loose', Sound filps loose' (dupFd s p fd lo hi closeOnExec).1 ∧
      ((∀ s' new, fdAlloc s p lo hi = (s', some new) → new < filedescMax) → loose' = loose) := by
  obtain ⟨owners, h⟩ := h
  obtain ⟨owners', loose', hdone, hl⟩ := h.idle.dupFd htable
  exact ⟨loose', ⟨owners', hdone.inv⟩, hl⟩

theorem sysDup2 : Sound filps loose (sysDup2 s p fd newFd).1 := by
  have hdup {s : State} (h : Sound filps loose s) (htable : s.hasTable p = true) (hlt : newFd < filedescMax) :
      Sound filps loose (Filps.dupFd s p fd newFd newFd false).1 := by
    obtain ⟨loose', hdone, hl⟩ := h.dupFd htable
    refine hl (fun s' new hal => ?_) ▸ hdone
    obtain ⟨-, -, hle, -⟩ := fdAlloc_some hal
    omega
  unfold Filps.sysDup2
  split_ifs with hmax hv
  · exact h
  · refine hdup (h.doClose p newFd) ?_ (by omega)
    rw [doClose_hasTable, htable]
  · exact hdup h htable (by omega)

theorem doOpen (closeOnExec truncated : Bool) (offset : ℤ) :
    ∃ loose', Sound filps loose' (doOpen s p closeOnExec truncated offset).1 ∧ (0 < spare s p 0 → loose' = loose) := by
  obtain ⟨owners, h⟩ := h
  rw [doOpen_eq]
  rcases hopen : openStart s p with ⟨s₁, _ | ⟨fd, f⟩⟩
  · exact ⟨loose, ⟨owners, (h.idle.openStart_none hopen).inv⟩, fun _ => rfl⟩
  obtain ⟨h₁, hh, ha, hhas, hlt⟩ := h.idle.openStart_some hopen
  cases truncated with
  | true =>
    obtain ⟨owners', hdone⟩ := h₁.openDone hh ha (by rw [hhas, htable])
    exact ⟨_, ⟨owners', hdone.inv⟩, fun hspare => by simp [hlt hspare]⟩
  | false => exact ⟨_, ⟨owners, (h₁.openFail hh ha).inv⟩, fun _ => by simp⟩

theorem sysCreatemsgport :
    ∃ loose', Sound filps loose' (sysCreatemsgport s p superblock vnode).1 ∧
      (Supplied s (.createmsgport p superblock vnode) → loose' = loose) := by
  obtain ⟨owners, h⟩ := h
  rw [sysCreatemsgport_eq]
  rcases htake : openTake s p with ⟨s₁, _ | ⟨fd, f⟩⟩
  · exact ⟨loose, ⟨owners, (h.idle.openTake_none htake).inv⟩, fun _ => rfl⟩
  obtain ⟨h₁, hh, ha, hhas⟩ := h.idle.openTake_some htake
  split_ifs with hs hv
  · obtain ⟨owners', hdone⟩ := h₁.mountDone hh ha (by rw [hhas, htable])
    exact ⟨_, ⟨owners', hdone.inv⟩, fun hsup => by simp [openTake_lt htake hsup.1]⟩
  · exact ⟨_, ⟨owners, h₁.inv⟩, fun hsup => absurd hsup.2.2 hv⟩
  · exact ⟨_, ⟨owners, (h₁.openFail hh ha).inv⟩, fun _ => by simp⟩

theorem sysPipe : ∃ loose', Sound filps loose' (sysPipe s p vnode copied).1 ∧
      (Supplied s (.pipe p vnode copied) → loose' = loose) := by
  obtain ⟨owners, h⟩ := h
  rw [sysPipe_eq]
  rcases hpipe : pipeStart s p with ⟨s₁, _ | ⟨⟨fd0, f0⟩, fd1, f1⟩⟩
  · exact ⟨loose, ⟨owners, (h.idle.pipeStart_none hpipe).inv⟩, fun _ => rfl⟩
  obtain ⟨h₁, hp, hhas, hlt⟩ := h.idle.pipeStart_some hpipe
  obtain ⟨h₂, hp'⟩ := h₁.pipeTypes hp
  split_ifs with hv hc
  · obtain ⟨owners', loose', hdone, hl⟩ := h₂.pipeDone hp' ((congrFun hhas p).trans htable)
    refine ⟨loose', ⟨owners', hdone.inv⟩, fun hsup => ?_⟩
    obtain ⟨hlt0, hlt1⟩ := hlt hsup.1
    simpa [hp.filps.symm] using hl hlt0 hlt1
  · exact ⟨_, ⟨owners, (h₂.pipeFail hp').inv⟩, fun _ => by simp⟩
  · exact ⟨_, ⟨owners, (h₁.pipeFail hp).inv⟩, fun _ => by simp⟩

theorem sysExec {outcome : Exec} :
    ∃ loose', Sound filps loose' (sysExec s p outcome) ∧ (0 < spare s p 0 → loose' = loose) := by
  obtain ⟨loose', hopen, hl⟩ := h.doOpen htable false true 0
  refine ⟨loose', ?_, hl⟩
  unfold Filps.sysExec
  rcases hres : Filps.doOpen s p false true 0 with ⟨s₁, _ | fd⟩
  · rwa [hres] at hopen
  rw [hres] at hopen
  cases hget : filpGet s₁ p fd with
  | none =>
    simp only [hget]
    exact hopen
  | some f =>
    simp only [hget]
    cases outcome with
    | refused => exact hopen.doClose p fd
    | failed => exact (hopen.doClose p fd).finiFproc p
    | done => exact hopen.execFds p

omit htable

theorem step (hs : step s a = some s') :
    ∃ loose', Sound filps loose' s' ∧ (Supplied s a → InTable s a → loose' = loose) := by
  unfold Filps.step at hs
  split_ifs at hs with hrun
  have htable := hrun.2
  cases a with
  | «open» p closeOnExec truncated offset =>
    cases hs
    obtain ⟨loose', hdone, hl⟩ := h.doOpen htable closeOnExec truncated offset
    exact ⟨loose', hdone, fun hsup _ => hl hsup⟩
  | pipe p vnode copied =>
    cases hs
    obtain ⟨loose', hdone, hl⟩ := h.sysPipe htable
    exact ⟨loose', hdone, fun hsup _ => hl hsup⟩
  | createmsgport p superblock vnode =>
    cases hs
    obtain ⟨loose', hdone, hl⟩ := h.sysCreatemsgport htable
    exact ⟨loose', hdone, fun hsup _ => hl hsup⟩
  | dup p fd =>
    cases hs
    obtain ⟨loose', hdone, hl⟩ := h.dupFd htable
    refine ⟨loose', hdone, fun hsup _ => hl fun s' new hal => ?_⟩
    obtain ⟨w, hlo, hw, hfree⟩ := spare_pos.mp hsup
    exact fdAlloc_lt hal hlo hw hfree
  | dup2 p fd newFd =>
    cases hs
    exact ⟨loose, h.sysDup2 htable, fun _ _ => rfl⟩
  | fcntl p fd cmd =>
    cases hs
    obtain ⟨owners, h⟩ := h
    obtain ⟨owners', loose', hdone, hl⟩ := h.idle.sysFcntl htable
    exact ⟨loose', ⟨owners', hdone.inv⟩, fun _ hin => hl hin⟩
  | fork p child thread beyond =>
    simp only [perform] at hs
    split_ifs at hs with hchild
    cases hs
    exact ⟨loose, h.sysFork (by simpa using hchild), fun _ _ => rfl⟩
  | exec p outcome =>
    cases hs
    obtain ⟨loose', hdone, hl⟩ := h.sysExec htable
    exact ⟨loose', hdone, fun hsup _ => hl hsup⟩
  | close p fd =>
    cases hs
    exact ⟨loose, h.doClose p fd, fun _ _ => rfl⟩
  | exit p =>
    simp only [perform, Option.some.injEq] at hs
    subst hs
    exact ⟨loose, h.finiFproc p, fun _ _ => rfl⟩

end Sound

theorem Sound.counted (h : Sound filps [] s) : Counted filps s := by
  refine ⟨?_, ?_⟩
  · intro f hf
    exact (h.referenceCnt hf).1
  · intro f hf
    exact (h.referenceCnt hf).2

theorem sound_of_reach (h : Reach step (fun s a => Supplied s a ∧ InTable s a) (Booted filps) s) : Sound filps [] s := by
  refine Reach.invariant (P := Sound filps []) (fun s => Sound.booted) ?_ h
  intro s a s' hs hcond hstep
  obtain ⟨loose, hdone, hl⟩ := hs.step hstep
  exact hl hcond.1 hcond.2 ▸ hdone

theorem filps_counted (filps : List FilpId)
    (h : Reach step (fun s a => Supplied s a ∧ InTable s a) (Booted filps) s) : Counted filps s :=
  (sound_of_reach h).counted

instance (s : State) : (a : Action) → Decidable (Supplied s a) := fun a => by
  unfold Supplied
  split <;> infer_instance

instance (s : State) : (a : Action) → Decidable (InTable s a) := fun a => by
  unfold InTable
  split <;> infer_instance

def duplicating : List Action :=
  [.open 0 true true 0, .dup 0 0, .fcntl 0 1 (.dupfd 7), .pipe 0 true true, .dup2 0 7 2, .close 0 1]

theorem filps_counted_duplicating : ∃ s, Reach step (fun s a => Supplied s a ∧ InTable s a) (Booted [0, 1, 2]) s ∧
    (s.filp 0).referenceCnt = 3 ∧ Counted [0, 1, 2] s :=
  Reach.exists_of_run (Q := fun s => (s.filp 0).referenceCnt = 3) duplicating bootState_booted (by decide +kernel)
    (by decide +kernel) fun _ hr hq => ⟨hq, filps_counted [0, 1, 2] hr⟩

theorem finiFproc_hasTable (s : State) (p : ProcId) : (finiFproc s p).hasTable = update s.hasTable p false := by
  refine congrArg (update · p false) (List.foldlRecOn (motive := fun u : State => u.hasTable = s.hasTable)
    (List.range filedescMax) _ rfl fun u hu fd _ => ?_)
  rw [doClose_hasTable, hu]

theorem Sound.descriptors_eq_zero (h : Sound filps loose s) (hnone : ∀ p, s.hasTable p = false) (f : FilpId) :
    descriptors s f = 0 := by
  obtain ⟨owners, h⟩ := h
  have hempty : {x : ProcId × ℕ | x.2 < filedescMax ∧ (s.fdTable x.1 x.2).valid = true ∧
      (s.fdTable x.1 x.2).filp = some f} = ∅ := by
    ext ⟨p, fd⟩
    simp only [Set.mem_ofPred_eq, Set.mem_empty_iff_false, iff_false, not_and]
    intro hfd hv
    rw [h.absent p (hnone p) fd hfd] at hv
    cases hv
  unfold descriptors
  rw [hempty, Set.ncard_empty]

theorem dupfd_past_table_leaks : ∃ s, Reach step Supplied (Booted [0, 1, 2]) s ∧ (∀ p, s.hasTable p = false) ∧
    (s.filp 0).referenceCnt = 1 ∧ descriptors s 0 = 0 ∧ ¬ Counted [0, 1, 2] s := by
  obtain ⟨s, hs, hget, hal, htable, hrun, hsup⟩ : ∃ s,
      Runs.exec step bootState [.open 0 true true 0, .fcntl 0 0 (.dupfd 511)] = some s ∧ filpGet s 0 0 = some 0 ∧
      (fdAlloc s 0 511 filedescMax).2 = some filedescMax ∧ s.hasTable = bootState.hasTable ∧ s.panicked = false ∧
      Supplied s (.fcntl 0 0 (.dupfd 511)) := by
    refine ⟨_, rfl, rfl, rfl, rfl, rfl, by decide +kernel⟩
  have hr : Reach step (fun s a => Supplied s a ∧ InTable s a) (Booted [0, 1, 2]) s :=
    (Reach.start bootState_booted).exec (by decide +kernel) hs
  have hr₀ : Reach step Supplied (Booted [0, 1, 2]) s :=
    (Reach.start bootState_booted).exec (by decide +kernel) hs
  have hal : fdAlloc s 0 511 filedescMax = (_, some filedescMax) := Prod.ext rfl hal
  have hdup : (sysFcntl s 0 0 (.dupfd 511)).1 = (dupFd s 0 0 511 filedescMax false).1 := by
    simp [sysFcntl, hget, (filpGet_some hget).2.1, filedescMax]
  have hleak : Sound [0, 1, 2] [0] (sysFcntl s 0 0 (.dupfd 511)).1 := by
    obtain ⟨owners, hinv⟩ := sound_of_reach hr
    obtain ⟨owners', hdone⟩ := hinv.idle.dupFd_some (by rw [htable]; rfl) hget hal
    rw [hdup]
    exact ⟨owners', hdone.inv⟩
  have htable₁ : (sysFcntl s 0 0 (.dupfd 511)).1.hasTable = bootState.hasTable := by
    rw [hdup, dupFd_eq hget hal, ← htable]
    exact (fdAlloc_hasTable hal :)
  have hr₁ : Reach step Supplied (Booted [0, 1, 2]) (sysFcntl s 0 0 (.dupfd 511)).1 := by
    refine hr₀.next hsup ?_
    simp [step, Action.caller, hrun, htable, bootState, perform]
  generalize (sysFcntl s 0 0 (.dupfd 511)).1 = s₁ at hleak htable₁ hr₁
  have hr₂ : Reach step Supplied (Booted [0, 1, 2]) (finiFproc s₁ 0) := by
    obtain ⟨owners, hinv⟩ := hleak
    refine hr₁.next (a := .exit 0) trivial ?_
    simp [step, Action.caller, hinv.running, htable₁, bootState, perform]
  have hnone (p : ProcId) : (finiFproc s₁ 0).hasTable p = false := by
    rw [finiFproc_hasTable s₁ 0, htable₁]
    by_cases hp : p = 0
    · simp [hp]
    · simp [hp, bootState]
  have hdone := hleak.finiFproc 0
  have hzero := hdone.descriptors_eq_zero hnone 0
  have hone : ((finiFproc s₁ 0).filp 0).referenceCnt = 1 := by
    rw [(hdone.referenceCnt (by simp)).1, hzero]
    rfl
  refine ⟨finiFproc s₁ 0, hr₂, hnone, hone, hzero, fun hc => ?_⟩
  have hcount := hc.count 0 (by simp)
  rw [hone, hzero] at hcount
  cases hcount

def Proper (table : ℕ → FileDesc) : Prop :=
  ∀ fd < filedescMax, (table fd).valid = true → (table fd).alloced = true ∧ (table fd).filp ≠ none

def Tidy (s : State) : Prop := ∀ p, Proper (s.fdTable p)

section

variable (h : Tidy s)
include h

theorem Tidy.congr (hs : s'.fdTable = s.fdTable) : Tidy s' := by
  intro p
  rw [hs]
  exact h p

theorem Tidy.setFilp (f : FilpId) (x : Filp) : Tidy (s.setFilp f x) := h

theorem Tidy.kassert (b : Bool) : Tidy (s.kassert b) := by
  unfold State.kassert
  split <;> exact h

theorem Tidy.filpRelease (f : FilpId) : Tidy (filpRelease s f) := h.congr (filpRelease_fdTable s f)

section

variable (p : ProcId) (fd : ℕ)

theorem Tidy.setDesc
    (hd : fd < filedescMax → d.valid = true → d.alloced = true ∧ d.filp ≠ none) : Tidy (s.setDesc p fd d) := by
  intro q w hw hv
  by_cases hc : q = p ∧ w = fd
  · obtain ⟨rfl, rfl⟩ := hc
    rw [setDesc_self] at hv ⊢
    exact hd hw hv
  · rw [setDesc_other s d hc] at hv ⊢
    exact h q w hw hv

theorem Tidy.fdFree : Tidy (fdFree s p fd) := by
  unfold Filps.fdFree
  split
  · exact (h.kassert _).setDesc p fd fun _ hv => by cases hv
  · exact h

theorem Tidy.doClose : Tidy (doClose s p fd).1 := by
  cases hget : filpGet s p fd with
  | none =>
    rw [doClose_none hget]
    exact h
  | some f =>
    have hclosed := doClose_closed hget
    intro q w hw hv
    by_cases hc : q = p ∧ w = fd
    · obtain ⟨rfl, rfl⟩ := hc
      rw [hclosed.gone hw] at hv
      cases hv
    · rw [hclosed.other q w hc] at hv ⊢
      exact h q w hw hv

theorem Tidy.execFd : Tidy (execFd p s fd) := by
  unfold Filps.execFd
  split
  · refine Tidy.doClose (h.setDesc p fd ?_) p fd
    exact fun hfd hv => h p fd hfd hv
  · exact h

end

theorem Tidy.fdAlloc (ha : fdAlloc s p lo hi = (s', some fd)) : Tidy s' := by
  obtain ⟨-, -, -, rfl⟩ := fdAlloc_some ha
  exact h.setDesc p fd fun _ hv => by cases hv

theorem Tidy.install (f : FilpId) (closeOnExec : Bool) (ha : (s.fdTable p fd).alloced = true) :
    Tidy (install s p fd f closeOnExec) :=
  h.setDesc p fd fun _ _ => ⟨ha, Option.some_ne_none f⟩

theorem Tidy.taken (hal : Filps.fdAlloc s p 0 filedescMax = (s₁, some fd)) (hnew : Filps.filpGetNew s₁ = (s₂, r)) :
    Tidy s₂ ∧ Pending s₂ p fd :=
  ⟨(h.fdAlloc hal).congr (filpGetNew_fdTable hnew), (fdAlloc_pending hal).congr (by rw [filpGetNew_fdTable hnew])⟩

theorem Tidy.doOpen (p : ProcId) (closeOnExec truncated : Bool) (offset : ℤ) :
    Tidy (doOpen s p closeOnExec truncated offset).1 := by
  unfold Filps.doOpen
  split
  next hal => exact fdAlloc_none hal ▸ h
  next hal =>
    split
    next hnew => exact (h.taken hal hnew).1.fdFree p _
    next f hnew =>
      obtain ⟨h₂, hpending⟩ := h.taken hal hnew
      split
      · exact Tidy.install ((h₂.setFilp f _).setFilp f _) f closeOnExec hpending.alloced
      · exact ((h₂.setFilp f _).fdFree p _).filpRelease f

end

theorem someSound_of_reach {cond : State → Action → Prop} (h : Reach step cond (Booted filps) s) :
    ∃ loose, Sound filps loose s := by
  refine Reach.invariant (P := fun s => ∃ loose, Sound filps loose s) (fun s hs => ⟨[], Sound.booted hs⟩) ?_ h
  rintro s a s' ⟨loose, hs⟩ - hstep
  obtain ⟨loose', hdone, -⟩ := hs.step hstep
  exact ⟨loose', hdone⟩

theorem tidy_of_reach (h : Reach step always (Booted filps) s) : Tidy s := by
  obtain ⟨loose, owners, hinv⟩ := someSound_of_reach h
  intro p fd hfd hv
  obtain ⟨ha, f, -, hfilp, -⟩ := hinv.valid p fd hfd hv
  exact ⟨ha, by simp [hfilp]⟩

end

end CheviotKernel.Filps
