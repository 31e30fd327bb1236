import CheviotKernel.Include.Lists
import CheviotKernel.Vm.Pmap
import Mathlib.Data.List.Range

namespace CheviotKernel.Vm

open CheviotKernel.Lists

inductive Entry
  | faultCopy
  | faultOwn
  | mmap
  | mmapPhys
  deriving DecidableEq

inductive Outcome
  | ret (m : Memory) (success : Bool)
  | asleepCopy (m : Memory) (pa : Frame) (flags : Flags)
  | asleepMap (m : Memory) (flags : Flags)
  | asleepEnter (m : Memory) (k : Entry) (e : Pte)
  | panic

section

variable (m : Memory)

def entered (pa : Frame) : Entry → Memory
  | .faultCopy => m.setReferenceCnt pa (m.referenceCnt pa + 1)
  | .mmap => m.setReferenceCnt pa 1
  | _ => m

def enterFailed (pa : Frame) : Entry → Memory
  | .faultCopy => freePage m pa
  | .faultOwn => m.setReferenceCnt pa (m.referenceCnt pa - 1)
  | _ => m

def enterPage (p : Pid) (va : Va) (k : Entry) (e : Pte) : Outcome :=
  match pmapEnter m p va e with
  | .ok m => .ret (entered m e.pa k) true
  | .fail m => .ret (enterFailed m e.pa k) false
  | .sleep => .asleepEnter m k e

@[simps] def Flags.cow (fl : Flags) : Flags := { fl with mapCow := true }

@[simps] def Flags.unshared (fl : Flags) : Flags := { fl with protWrite := true, mapCow := false }

-- page_fault from its alloc_page on; the memcpy reads the old frame after the allocation.
def copyPage (p : Pid) (va : Va) (paddr : Frame) (flags : Flags) : Outcome :=
  match allocPage m with
  | none => .asleepCopy m paddr flags
  | some (page, m) =>
    enterPage (m.setContents page (m.contents paddr)) p va .faultCopy ⟨page, flags.unshared⟩

def pageFault (p : Pid) (va : Va) (write : Bool) : Outcome :=
  match pmapExtract m p va with
  | none => .ret m false
  | some ⟨paddr, flags⟩ =>
    if flags.mapPhys then .ret m false
    else if ¬ write then .ret m false
    else if flags.protWrite ∧ ¬ flags.mapCow then .ret m false
    else if ¬ (flags.protWrite ∧ flags.mapCow) then .ret m false
    else if m.referenceCnt paddr > 1 then
      let m := m.setReferenceCnt paddr (m.referenceCnt paddr - 1)
      match pmapRemove m p va with
      | none => .ret m false
      | some m => copyPage m p va paddr flags
    else if m.referenceCnt paddr = 1 then
      match pmapRemove m p va with
      | none => .ret m false
      | some m => enterPage m p va .faultOwn ⟨paddr, flags.unshared⟩
    else .panic

def mmapPage (p : Pid) (va : Va) (flags : Flags) : Outcome :=
  match allocPage m with
  | none => .asleepMap m flags
  | some (page, m) => enterPage m p va .mmap ⟨page, flags⟩

inductive ForkOutcome
  | done (m : Memory)
  | fail (m : Memory)
  | sleep (m : Memory) (va : Va) (e : Pte) (rest : List Va)
  | panic

def physFlags : Flags :=
  { protRead := true, protWrite := true, protExec := false, mapPhys := true, mapCow := false }

def forkPrepare (old : Pid) (va : Va) (e : Pte) : Option (Memory × Pte) :=
  if ¬ e.flags.mapPhys ∧ e.flags.protWrite then
    match pmapProtect m old va e.flags.cow with
    | none => none
    | some m => some (m, ⟨e.pa, e.flags.cow⟩)
  else if ¬ e.flags.mapPhys then some (m, e)
  else some (m, ⟨e.pa, physFlags⟩)

def forkCount (e : Pte) : Memory :=
  if e.flags.mapPhys then m else m.setReferenceCnt e.pa (m.referenceCnt e.pa + 1)

def forkPages (m : Memory) (old new : Pid) : List Va → ForkOutcome
  | [] => .done m
  | va :: rest =>
    match pmapExtract m old va with
    | none => forkPages m old new rest
    | some e =>
      match forkPrepare m old va e with
      | none => .panic
      | some (m, e) =>
        match pmapEnter m new va e with
        | .sleep => .sleep m va e rest
        | .fail m => .fail m
        | .ok m => forkPages (forkCount m e) old new rest

def forkResume (old new : Pid) (va : Va) (e : Pte) (rest : List Va) : ForkOutcome :=
  match pmapEnter m new va e with
  | .sleep => .sleep m va e rest
  | .fail m => .fail m
  | .ok m => forkPages (forkCount m e) old new rest

def cleanupPage (p : Pid) (m : Memory) (va : Va) : Memory :=
  match pmapExtract m p va with
  | none => m
  | some e =>
    match pmapRemove m p va with
    | none => m
    | some m =>
      if e.flags.mapPhys then m
      else
        let m := m.setReferenceCnt e.pa (m.referenceCnt e.pa - 1)
        if m.referenceCnt e.pa = 0 then freePage m e.pa else m

def cleanupAddressSpace (p : Pid) (pages : List Va) : Memory :=
  pages.foldl (cleanupPage p) m

@[simps] def pmapCreate (p : Pid) : Memory :=
  { m with
    l1Table := fun q d => if q = p then none else m.l1Table q d
    pte := fun q w => if q = p then none else m.pte q w }

end

structure Layout where
  userBase : Nat
  userCeiling : Nat
  maxPage : Nat
  userBase_pos : 0 < userBase

def Layout.pages (l : Layout) : List Va := List.range' l.userBase (l.userCeiling - l.userBase)

theorem Layout.zero_notMem (l : Layout) : 0 ∉ l.pages := by
  intro h
  exact absurd l.userBase_pos (Nat.not_lt.mpr (List.mem_range'_1.mp h).1)

theorem Layout.nodup (l : Layout) : l.pages.Nodup := List.nodup_range'

-- A process is its one thread and is named by its page directory; the constructors after user are the places where it
-- may be asleep.
inductive Phase
  | absent
  | user
  | copying (va : Va) (pa : Frame) (flags : Flags)
  | mapping (va : Va) (flags : Flags)
  | entering (va : Va) (k : Entry) (e : Pte)
  | forking (child : Pid) (va : Va) (e : Pte) (rest : List Va)
  | unborn

abbrev Eager := Pid → Va → Option (Content × Bool)

namespace Eager

def map (E : Eager) (p : Pid) (va : Va) (page : Content × Bool) : Eager :=
  fun q w => if q = p ∧ w = va then some page else E q w

def write (E : Eager) (p : Pid) (va : Va) (off : Nat) (b : UInt8) : Eager :=
  match E p va with
  | some (c, true) => E.map p va (c.set off b, true)
  | _ => E

def fork (E : Eager) (p child : Pid) : Eager := fun q w => if q = child then E p w else E q w

def exit (E : Eager) (p : Pid) : Eager := fun q w => if q = p then none else E q w

end Eager

structure State where
  vm : Memory
  phase : Pid → Phase
  freePmappagedirList : Linked.Links Unit Pid
  exited : List Pid
  kernel : List Frame
  panicked : Bool
  eager : Eager

def State.setPhase (s : State) (p : Pid) (ph : Phase) : State :=
  { s with phase := Function.update s.phase p ph }

def State.pmapDestroy (s : State) (p : Pid) : State :=
  { s with freePmappagedirList := dlistAddTail s.freePmappagedirList () p }

def State.park (s : State) (p : Pid) (va : Va) : Outcome → State
  | .ret m _ => { s with vm := m }.setPhase p .user
  | .asleepCopy m pa flags => { s with vm := m }.setPhase p (.copying va pa flags)
  | .asleepMap m flags => { s with vm := m }.setPhase p (.mapping va flags)
  | .asleepEnter m k e => { s with vm := m }.setPhase p (.entering va k e)
  | .panic => { s with panicked := true }

def Outcome.succeeded : Outcome → Bool
  | .ret _ success => success
  | _ => false

def State.parkMmap (s : State) (p : Pid) (va : Va) (flags : Flags) (o : Outcome) : State :=
  if o.succeeded then { s.park p va o with eager := s.eager.map p va (zeroPage, flags.protWrite) }
  else s.park p va o

-- What a fork asks for in vain: the regions of fork_memregions or the thread of fork_thread.
inductive Lack
  | nothing
  | regions
  | thread
  deriving DecidableEq

def State.parkFork (l : Layout) (s : State) (p child : Pid) (lack : Lack) : ForkOutcome → State
  | .done m =>
    -- sys_fork frees the address space of a process without a thread as it is, mapped.
    if lack = .thread then (({ s with vm := m }.pmapDestroy child).setPhase p .user).setPhase child .absent
    else (({ s with vm := m, eager := s.eager.fork p child }).setPhase p .user).setPhase child .user
  | .fail m =>
    (({ s with vm := cleanupAddressSpace m child l.pages }.pmapDestroy child).setPhase p .user).setPhase child .absent
  | .sleep m va e rest => (({ s with vm := m }).setPhase p (.forking child va e rest)).setPhase child .unborn
  | .panic => { s with panicked := true }

inductive Action
  | write (p : Pid) (va : Va) (off : Nat) (b : UInt8)
  | mmap (p : Pid) (va : Va) (flags : Flags)
  | mmapPhys (p : Pid) (va : Va) (pa : Frame) (flags : Flags)
  | fork (p child : Pid) (lack : Lack)
  | exit (p : Pid)
  | reap (p : Pid)
  | resume (p : Pid) (lack : Lack)
  | kalloc (c : Content)
  | kfree (f : Frame)

def userWrite (s : State) (p : Pid) (va : Va) (off : Nat) (b : UInt8) : State :=
  match pmapExtract s.vm p va with
  | some e =>
    -- pmap_calc_pa_bits gives user write access exactly to these.
    if e.flags.protWrite ∧ ¬ e.flags.mapCow then
      { s with
        vm := s.vm.setContents e.pa ((s.vm.contents e.pa).set off b)
        eager := s.eager.write p va off b }
    else s.park p va (pageFault s.vm p va true)
  | none => s.park p va (pageFault s.vm p va true)

def resume (l : Layout) (s : State) (p : Pid) (lack : Lack) : Option State :=
  match s.phase p with
  | .copying va pa flags => some (s.park p va (copyPage s.vm p va pa flags))
  | .mapping va flags => some (s.parkMmap p va flags (mmapPage s.vm p va flags))
  | .entering va .mmap e => some (s.parkMmap p va e.flags (enterPage s.vm p va .mmap e))
  | .entering va k e => some (s.park p va (enterPage s.vm p va k e))
  | .forking child va e rest => some (s.parkFork l p child lack (forkResume s.vm p child va e rest))
  | _ => none

def isUser : Phase → Bool
  | .user => true
  | _ => false

def isAbsent : Phase → Bool
  | .absent => true
  | _ => false

def step (l : Layout) (s : State) : Action → Option State
  | .write p va off b => if isUser (s.phase p) then some (userWrite s p va off b) else none
  | .mmap p va flags =>
    if isUser (s.phase p) ∧ va ∈ l.pages ∧ s.vm.pte p va = none ∧ ¬ flags.mapPhys ∧ ¬ flags.mapCow then
      some (s.parkMmap p va flags (mmapPage s.vm p va flags))
    else none
  | .mmapPhys p va pa flags =>
    if isUser (s.phase p) ∧ va ∈ l.pages ∧ s.vm.pte p va = none ∧ flags.mapPhys ∧ l.maxPage ≤ pa then
      some (s.park p va (enterPage s.vm p va .mmapPhys ⟨pa, flags⟩))
    else none
  | .fork p child lack =>
    -- A run is not followed further once pmap_create hands out a directory that is in use.
    if isUser (s.phase p) ∧ isAbsent (s.phase child) ∧ s.freePmappagedirList.head () = some child then
      let s := { s with
        vm := pmapCreate s.vm child
        freePmappagedirList := dlistRemHead s.freePmappagedirList () }
      if lack = .regions then some ((s.pmapDestroy child).pmapDestroy child)
      else some (s.parkFork l p child lack (forkPages s.vm p child l.pages))
    else none
  | .exit p =>
    if isUser (s.phase p) then
      some ({ s with
        vm := cleanupAddressSpace s.vm p l.pages
        eager := s.eager.exit p
        exited := p :: s.exited }.setPhase p .absent)
    else none
  | .reap p =>
    if isAbsent (s.phase p) ∧ p ∈ s.exited then some ({ s with exited := s.exited.erase p }.pmapDestroy p) else none
  | .resume p lack => resume l s p lack
  | .kalloc c =>
    match allocPage s.vm with
    | none => none
    | some (f, m) => some { s with vm := m.setContents f c, kernel := f :: s.kernel }
  | .kfree f =>
    if f ∈ s.kernel then some { s with vm := freePage s.vm f, kernel := s.kernel.erase f } else none

def observed (m : Memory) (p : Pid) (va : Va) : Option (Content × Bool) :=
  match pmapExtract m p va with
  | none => none
  | some e => if e.flags.mapPhys then none else some (m.contents e.pa, e.flags.protWrite)

def Phase.faulting : Phase → Va → Prop
  | .copying va _ _, w => w = va
  | .entering va .faultCopy _, w => w = va
  | .entering va .faultOwn _, w => w = va
  | _, _ => False

def ForkCopies (s : State) : Prop :=
  s.panicked = false ∧ ∀ p va, s.phase p ≠ .unborn → ¬ (s.phase p).faulting va →
    observed s.vm p va = s.eager p va

def Booted (l : Layout) (s : State) : Prop :=
  s.vm.freePageQueue.Nodup ∧ (∀ f ∈ s.vm.freePageQueue, f < l.maxPage) ∧
  s.vm.l1Table = (fun _ _ => none) ∧ s.vm.pte = (fun _ _ => none) ∧
  s.phase = (fun p => if p = 1 then .user else .absent) ∧ s.kernel = [] ∧ s.panicked = false ∧
  s.exited = [] ∧ s.eager = fun _ _ => none

end CheviotKernel.Vm
