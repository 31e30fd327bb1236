import Mathlib.Logic.Function.Basic
import Mathlib.Tactic.Simps.Basic

namespace CheviotKernel.Vm

abbrev Pid := Nat
abbrev Va := Nat
abbrev Frame := Nat

structure Content where
  byte : Nat → UInt8

def Content.set (c : Content) (off : Nat) (b : UInt8) : Content := ⟨Function.update c.byte off b⟩

def nPagetablePte : Nat := 256

def pdeIdx (va : Va) : Nat := va / nPagetablePte

structure Flags where
  protRead : Bool
  protWrite : Bool
  protExec : Bool
  mapPhys : Bool
  mapCow : Bool
  deriving DecidableEq

structure Pte where
  pa : Frame
  flags : Flags
  deriving DecidableEq

structure Memory where
  freePageQueue : List Frame
  referenceCnt : Frame → Int
  contents : Frame → Content
  l1Table : Pid → Nat → Option Frame
  pte : Pid → Va → Option Pte

section

variable (m : Memory)

@[simps] def Memory.setReferenceCnt (f : Frame) (n : Int) : Memory :=
  { m with referenceCnt := fun k => if k = f then n else m.referenceCnt k }

@[simps] def Memory.setContents (f : Frame) (c : Content) : Memory :=
  { m with contents := fun k => if k = f then c else m.contents k }

@[simps] def Memory.setL1 (p : Pid) (d : Nat) (t : Option Frame) : Memory :=
  { m with l1Table := fun q k => if q = p ∧ k = d then t else m.l1Table q k }

@[simps] def Memory.setPte (p : Pid) (va : Va) (e : Option Pte) : Memory :=
  { m with pte := fun q w => if q = p ∧ w = va then e else m.pte q w }

def zeroPage : Content := ⟨fun _ => 0⟩

-- alloc_page through getblk_anon: none is the TaskSleep on page_list_rendez.
def allocPage : Option (Frame × Memory) :=
  match m.freePageQueue.getLast? with
  | none => none
  | some f =>
    let m := { m with freePageQueue := m.freePageQueue.dropLast }
    some (f, (m.setContents f zeroPage).setReferenceCnt f 0)

def freePage (f : Frame) : Memory :=
  let m := m.setReferenceCnt f (m.referenceCnt f - 1)
  if m.referenceCnt f > 0 then m else { m with freePageQueue := m.freePageQueue ++ [f] }

def pmapExtract (p : Pid) (va : Va) : Option Pte :=
  match m.l1Table p (pdeIdx va) with
  | none => none
  | some _ => m.pte p va

inductive Enter
  | ok (m : Memory)
  | fail (m : Memory)
  | sleep

def enterPte (p : Pid) (va : Va) (e : Pte) (pt : Frame) : Enter :=
  match m.pte p va with
  | some _ => .fail (freePage (m.setL1 p (pdeIdx va) none) pt)
  | none => .ok ((m.setPte p va (some e)).setReferenceCnt pt (m.referenceCnt pt + 1))

@[simps] def Memory.newTable (p : Pid) (d : Nat) (pt : Frame) : Memory :=
  { m.setL1 p d (some pt) with
    pte := fun q w => if q = p ∧ pdeIdx w = d then none else m.pte q w }

def pmapEnter (p : Pid) (va : Va) (e : Pte) : Enter :=
  if va = 0 then .fail m
  else match m.l1Table p (pdeIdx va) with
    | some pt => enterPte m p va e pt
    | none => match allocPage m with
      | none => .sleep
      | some (pt, m) => enterPte (m.newTable p (pdeIdx va) pt) p va e pt

def pmapRemove (p : Pid) (va : Va) : Option Memory :=
  if va = 0 then none
  else match m.l1Table p (pdeIdx va) with
    | none => none
    | some pt => match m.pte p va with
      | none => none
      | some _ =>
        let m := (m.setPte p va none).setReferenceCnt pt (m.referenceCnt pt - 1)
        if m.referenceCnt pt = 0 then some (freePage (m.setL1 p (pdeIdx va) none) pt) else some m

-- none is kernelpanic.
def pmapProtect (p : Pid) (va : Va) (flags : Flags) : Option Memory :=
  if va = 0 then some m
  else match m.l1Table p (pdeIdx va) with
    | none => none
    | some _ => match m.pte p va with
      | none => none
      | some e => some (m.setPte p va (some ⟨e.pa, flags⟩))

end

end CheviotKernel.Vm
