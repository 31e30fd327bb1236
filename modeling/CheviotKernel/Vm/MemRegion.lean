import CheviotKernel.Include.Lists
import Mathlib.Algebra.Group.Nat.Defs

namespace CheviotKernel.MemRegions

open Linked CheviotKernel.Lists

abbrev RegionId := ℕ

abbrev AsId := ℕ

inductive MrType
  | unallocated
  | free
  | alloc
  | phys
  deriving DecidableEq

structure MemRegion where
  baseAddr : ℕ
  ceilingAddr : ℕ
  as : Option AsId
  type : MrType
  flags : BitVec 32
  physBaseAddr : ℕ

inductive Errno
  | einval
  | enomem
  deriving DecidableEq

abbrev Result := Except Errno Unit

structure Config where
  maxMemregion : ℕ
  userBase : ℕ
  userCeiling : ℕ
  mapFixed : BitVec 32
  vmFlagsMask : BitVec 32
  vmProtMask : BitVec 32
  base_lt_ceiling : userBase < userCeiling
  ceiling_lt : userCeiling < 2 ^ 32

structure State where
  region : RegionId → MemRegion
  sortedLink : Links AsId RegionId
  freeLink : Links AsId RegionId
  unusedLink : Links Unit RegionId
  hint : AsId → Option RegionId

section

variable (cfg : Config) (s : State)

def State.setRegion (r : RegionId) (m : MemRegion) : State :=
  { s with region := Function.update s.region r m }

def State.setHint (as : AsId) (r : Option RegionId) : State :=
  { s with hint := Function.update s.hint as r }

def word (n : ℕ) : ℕ := n % 2 ^ 32

def pageSize : ℕ := 4096

def alignUp (n : ℕ) : ℕ := word (n + (pageSize - 1)) / pageSize * pageSize

def alignDown (n : ℕ) : ℕ := n - n % pageSize

def MemRegion.contains (m : MemRegion) (addr : ℕ) : Bool := m.baseAddr ≤ addr && addr < m.ceilingAddr

-- Walks that follow links take a bound, and none stands for a walk that never ends.
def bound : ℕ := cfg.maxMemregion + 1

def memregionFind (L : Links AsId RegionId) (s : State) (as : AsId) (addr : ℕ) :
    Option (State × Option RegionId) :=
  match (s.hint as).filter fun r => (s.region r).contains addr with
  | some r => some (s, some r)
  | none =>
    (walk L.next (fun r => (s.region r).contains addr) (bound cfg) (L.head as)).map fun mr =>
      match mr with
      | some r => (s.setHint as (some r), some r)
      | none => (s, none)

def memregionFindFree (as : AsId) (addr : ℕ) : Option (State × Option RegionId) :=
  memregionFind cfg s.freeLink s as addr

def memregionFindSorted (as : AsId) (addr : ℕ) : Option (State × Option RegionId) :=
  memregionFind cfg s.sortedLink s as addr

def MemRegion.fits (m : MemRegion) (size : ℕ) : Bool :=
  m.type = .free && m.baseAddr ≤ alignUp m.baseAddr && alignUp m.baseAddr < m.ceilingAddr &&
    size ≤ m.ceilingAddr - alignUp m.baseAddr

def pickRegion (as : AsId) (addr size : ℕ) (flags : BitVec 32) :
    Option (State × Option (RegionId × ℕ)) :=
  if flags &&& cfg.mapFixed ≠ 0 then
    (memregionFindFree cfg s as addr).map fun (s, mr) =>
      match mr with
      | some mr =>
        if word (addr + size) > (s.region mr).ceilingAddr ∨ (s.region mr).type ≠ .free then (s, none)
        else (s, some (mr, addr))
      | none => (s, none)
  else
    (walk s.freeLink.next (fun r => (s.region r).fits size) (bound cfg) (s.freeLink.head as)).map fun mr =>
      (s, mr.map fun mr => (mr, alignUp (s.region mr).baseAddr))

def remUnused : Option (RegionId × State) :=
  (s.unusedLink.head ()).map fun r => (r, { s with unusedLink := dlistRemHead s.unusedLink () })

def addUnused (r : RegionId) : State := { s with unusedLink := dlistAddHead s.unusedLink () r }

def keepBase (as : AsId) (mr mrbase : RegionId) (addr : ℕ) : State :=
  if (s.region mr).baseAddr < addr then
    let s := { s with
      freeLink := dlistAddHead s.freeLink as mrbase
      sortedLink := dlistInsertBefore s.sortedLink as mr mrbase }
    s.setRegion mrbase { s.region mrbase with
      baseAddr := (s.region mr).baseAddr, ceilingAddr := addr, as := some as, type := .free, flags := 0 }
  else addUnused s mrbase

-- It is mrbase whose as is set here.
def keepTail (as : AsId) (mr mrbase mrtail : RegionId) (top : ℕ) : State :=
  if top < (s.region mr).ceilingAddr then
    let s := { s with
      freeLink := dlistAddHead s.freeLink as mrtail
      sortedLink := dlistInsertAfter s.sortedLink as mr mrtail }
    let s := s.setRegion mrtail { s.region mrtail with
      baseAddr := top, ceilingAddr := (s.region mr).ceilingAddr, type := .free, flags := 0 }
    s.setRegion mrbase { s.region mrbase with as := some as }
  else addUnused s mrtail

def takeRegion (as : AsId) (mr : RegionId) (addr top : ℕ) (flags : BitVec 32) (type : MrType) : State :=
  let s := { s with freeLink := dlistRemEntry s.freeLink as mr }
  s.setRegion mr { s.region mr with
    baseAddr := addr, ceilingAddr := top, as := some as, type := type, flags := flags }

def memregionCreate (as : AsId) (addr size : ℕ) (flags : BitVec 32) (type : MrType) :
    Option (State × Option RegionId) :=
  (pickRegion cfg s as addr size flags).map fun (s, pick) =>
    match pick with
    | none => (s, none)
    | some (mr, addr) =>
      match remUnused s with
      | none => (s, none)
      | some (mrbase, s) =>
        match remUnused s with
        | none => (addUnused s mrbase, none)
        | some (mrtail, s) =>
          let top := word (addr + size)
          let s := keepTail (keepBase s as mr mrbase addr) as mr mrbase mrtail top
          (takeRegion s as mr addr top flags type, some mr)

def splitRegion (as : AsId) (mr new : RegionId) (addr : ℕ) : State :=
  let m := s.region mr
  let s := { s.setHint as none with sortedLink := dlistInsertAfter s.sortedLink as mr new }
  let s := s.setRegion new { s.region new with
    baseAddr := addr, ceilingAddr := m.ceilingAddr, type := m.type, flags := m.flags, as := some as
    physBaseAddr := if m.type = .phys then word (m.physBaseAddr + (addr - m.baseAddr)) else 0 }
  let s := if m.type = .free then { s with freeLink := dlistAddHead s.freeLink as new } else s
  s.setRegion mr { s.region mr with ceilingAddr := addr }

def memregionSplit (as : AsId) (addr : ℕ) : Option (State × Result) :=
  (memregionFindSorted cfg s as addr).map fun (s, mr) =>
    match mr with
    | none => (s, .error .einval)
    | some mr =>
      if addr = (s.region mr).baseAddr ∨ addr = (s.region mr).ceilingAddr then (s, .ok ())
      else match remUnused s with
        | none => (s, .error .enomem)
        | some (new, s) => (splitRegion s as mr new addr, .ok ())

def absorb (as : AsId) (prev mr : RegionId) : State :=
  let s := s.setRegion prev { s.region prev with ceilingAddr := (s.region mr).ceilingAddr }
  let s := s.setRegion mr { s.region mr with as := none, type := .unallocated }
  addUnused { s with sortedLink := dlistRemEntry s.sortedLink as mr } mr

def markFree (as : AsId) (mr : RegionId) : State :=
  let s := s.setRegion mr { s.region mr with type := .free, flags := 0 }
  { s with freeLink := dlistAddHead s.freeLink as mr }

def freePrev (mr : RegionId) : Option RegionId :=
  (s.sortedLink.prev mr).filter fun p => (s.region p).type = .free

def freeRegion (as : AsId) (addr top : ℕ) (mr : RegionId) : State :=
  if (s.region mr).baseAddr ≥ addr ∧ (s.region mr).ceilingAddr ≤ top then
    match freePrev s mr with
    | some prev => absorb s as prev mr
    | none => markFree s as mr
  else s

def freeLoop (as : AsId) (addr top : ℕ) : ℕ → State → Option RegionId → Option (State × Option RegionId)
  | 0, _, _ => none
  | _ + 1, s, none => some (s, none)
  | n + 1, s, some mr =>
    if (s.region mr).baseAddr < top then freeLoop as addr top n (freeRegion s as addr top mr) (s.sortedLink.next mr)
    else some (s, some mr)

def coalesceAbove (as : AsId) (mr : Option RegionId) : State :=
  match mr with
  | some mr =>
    if (s.region mr).type = .free then
      match freePrev s mr with
      | some prev => absorb s as prev mr
      | none => s
    else s
  | none => s

def splitEnds (as : AsId) (addr top : ℕ) : Option (State × Result) :=
  (memregionSplit cfg s as addr).bind fun (s, sc1) =>
    (memregionSplit cfg s as top).map fun (s, sc2) =>
      (s, if sc1.isOk && sc2.isOk then .ok () else .error .enomem)

def memregionFree (as : AsId) (addr size : ℕ) : Option (State × Result) :=
  let top := word (addr + size)
  (splitEnds cfg s as addr top).bind fun (s, sc) =>
    match sc with
    | .error e => some (s, .error e)
    | .ok () =>
      (memregionFindSorted cfg s as addr).bind fun (s, mr) =>
        match mr with
        | none => some (s, .error .einval)
        | some mr =>
          (freeLoop as addr top (bound cfg) (s.setHint as none) (some mr)).map fun (s, mr) =>
            (coalesceAbove s as mr, .ok ())

def releaseRegion (as : AsId) (mr : RegionId) : State :=
  let s := if (s.region mr).type = .free then { s with freeLink := dlistRemEntry s.freeLink as mr } else s
  let s := { s with sortedLink := dlistRemHead s.sortedLink as }
  addUnused (s.setRegion mr { s.region mr with as := none, type := .unallocated }) mr

def freeAllLoop (as : AsId) : ℕ → State → Option State
  | 0, _ => none
  | n + 1, s =>
    match s.sortedLink.head as with
    | none => some (s.setHint as none)
    | some mr => freeAllLoop as n (releaseRegion s as mr)

def memregionFreeAll (as : AsId) : Option State := freeAllLoop as (bound cfg) s

def initLists (as : AsId) : State :=
  { s.setHint as none with
    sortedLink := dlistInit s.sortedLink as
    freeLink := dlistInit s.freeLink as }

def initMemregions (as : AsId) : State × Result :=
  let s := initLists s as
  match remUnused s with
  | none => (s, .error .enomem)
  | some (mr, s) =>
    let s := { s with
      sortedLink := dlistAddTail s.sortedLink as mr
      freeLink := dlistAddTail s.freeLink as mr }
    (s.setRegion mr ⟨cfg.userBase, cfg.userCeiling, some as, .free, 0, 0⟩, .ok ())

def copyRegion (as : AsId) (old new : RegionId) : State :=
  let s := { s with sortedLink := dlistAddTail s.sortedLink as new }
  let s := s.setRegion new { s.region old with as := some as }
  if (s.region new).type = .free then { s with freeLink := dlistAddTail s.freeLink as new } else s

def forkLoop (cfg : Config) (new : AsId) : ℕ → State → Option RegionId → Option (State × Result)
  | 0, _, _ => none
  | _ + 1, s, none => some (s, .ok ())
  | n + 1, s, some mr =>
    match remUnused s with
    | none => (memregionFreeAll cfg s new).map fun s => (s, .error .enomem)
    | some (r, s) => forkLoop cfg new n (copyRegion s new mr r) ((copyRegion s new mr r).sortedLink.next mr)

def forkMemregions (new old : AsId) : Option (State × Result) :=
  let s := initLists s new
  forkLoop cfg new (bound cfg) s (s.sortedLink.head old)

end

end CheviotKernel.MemRegions
