import Mathlib.Tactic.IntervalCases
import CheviotKernel.Library.BitSets
import CheviotKernel.Library.Runs
import CheviotKernel.Library.TwoLevel

namespace CheviotKernel.PageTables

open Function Runs TwoLevel BitSets

abbrev Word := BitVec 32
abbrev Frame := BitVec 20
abbrev AsId := Nat

def l1AddrBits : Word := 0xfff00000
def l1TypeInv : Word := 0x00
def l1TypeC : Word := 0x01
def l1TypeMask : Word := 0x03
def l1CAddrMask : Word := 0xfffffc00

def l2AddrMask : Word := 0xfffff000
def l2AddrBits : Word := 0x000ff000
def l2TypeMask : Word := 0x03
def l2TypeInv : Word := 0x00
def l2Nx : Word := 0x01
def l2TypeS : Word := 0x02
def l2B : Word := 0x04
def l2C : Word := 0x08
def l2ApMask : Word := 0x230

def mapCow : Word := 1 <<< 26

structure Board where
  l2ApRwku : Word
  l2ApRku : Word
  rwku_within : l2ApRwku &&& l2ApMask = l2ApRwku
  rku_within : l2ApRku &&& l2ApMask = l2ApRku
  rku_ne_rwku : l2ApRku ≠ l2ApRwku
  protWrite : Word
  protExec : Word
  mapPhys : Word
  vmCacheMask : Word
  cacheDefault : Word
  cacheWriteback : Word
  cacheWritethru : Word
  cacheWritecombine : Word

section

variable (b : Board) (m : Mem)

def accessBits (flags : Word) : Word :=
  if flags &&& b.protWrite ≠ 0 ∧ flags &&& mapCow = 0 then b.l2ApRwku else b.l2ApRku

def execBits (flags : Word) : Word :=
  if flags &&& b.protExec ≠ b.protExec then l2Nx else 0

-- A policy that is none of the four, CACHE_UNCACHEABLE among them, sets no bit.
def cacheBits (flags default : Word) : Word :=
  if flags &&& b.vmCacheMask = b.cacheDefault then default
  else if flags &&& b.vmCacheMask = b.cacheWriteback then l2B ||| l2C
  else if flags &&& b.vmCacheMask = b.cacheWritethru then l2C
  else if flags &&& b.vmCacheMask = b.cacheWritecombine then l2B
  else 0

def pmapCalcPaBits (flags : Word) : Word :=
  l2TypeS ||| accessBits b flags ||| execBits b flags
    ||| (if flags &&& b.mapPhys = 0 then cacheBits b flags (l2C ||| l2B) else 0)
    ||| (if flags &&& b.mapPhys = b.mapPhys then cacheBits b flags 0 else 0)

theorem pdeIdx_lt (va : Word) : ((va &&& l1AddrBits) >>> 20).toNat < 4096 := by
  rw [BitVec.toNat_ushiftRight]
  omega

theorem pteIdx_lt (va : Word) : ((va &&& l2AddrBits) >>> 12).toNat < 256 := by
  rw [BitVec.toNat_ushiftRight, BitVec.toNat_and]
  have : va.toNat &&& l2AddrBits.toNat ≤ l2AddrBits.toNat := Nat.and_le_right
  have : l2AddrBits.toNat = 0xff000 := rfl
  omega

def pdeIdx (va : Word) : Fin 4096 := ⟨((va &&& l1AddrBits) >>> 20).toNat, pdeIdx_lt va⟩
def pteIdx (va : Word) : Fin 256 := ⟨((va &&& l2AddrBits) >>> 12).toNat, pteIdx_lt va⟩

def pmapVaToPa (va : Word) : Word := va - 0x80000000
def pmapPaToVa (pa : Word) : Word := pa + 0x80000000
def pmapPageToPa (f : Frame) : Word := f.setWidth 32 <<< 12
def pmapPaToPage (pa : Word) : Frame := (pa >>> 12).setWidth 20
def pmapPageToVa (f : Frame) : Word := pmapPaToVa (pmapPageToPa f)
def pmapVaToPage (va : Word) : Frame := pmapPaToPage (pmapVaToPa va)

structure Mem where
  l1Table : AsId → Fin 4096 → Word
  pt : Frame → Fin 256 → Word
  vpteFlags : Frame → Fin 256 → Word
  referenceCnt : Frame → Int
  freePageQueue : List Frame

@[simps] def Mem.setL1 (as : AsId) (d : Fin 4096) (data : Word) : Mem :=
  { m with l1Table := update m.l1Table as (update (m.l1Table as) d data) }

@[simps] def Mem.setPte (f : Frame) (i : Fin 256) (data : Word) : Mem :=
  { m with pt := update m.pt f (update (m.pt f) i data) }

@[simps] def Mem.setFlags (f : Frame) (i : Fin 256) (flags : Word) : Mem :=
  { m with vpteFlags := update m.vpteFlags f (update (m.vpteFlags f) i flags) }

@[simps] def Mem.setReferenceCnt (f : Frame) (n : Int) : Mem :=
  { m with referenceCnt := update m.referenceCnt f n }

def pmapWriteL1 (as : AsId) (d : Fin 4096) (data : Word) : Mem := m.setL1 as d data
def pmapWriteL2 (pt : Word) (i : Fin 256) (data : Word) : Mem := m.setPte (pmapVaToPage pt) i data

-- getblk_anon takes the tail of the queue and sleeps while it is empty, so alloc_page never
-- returns NULL: none is the sleep.
def allocPage : Option (Frame × Mem) :=
  match m.freePageQueue.getLast? with
  | none => none
  | some f => some (f, { m.setReferenceCnt f 0 with freePageQueue := m.freePageQueue.dropLast })

def freePage (f : Frame) : Mem :=
  let m := m.setReferenceCnt f (m.referenceCnt f - 1)
  if m.referenceCnt f > 0 then m else { m with freePageQueue := m.freePageQueue ++ [f] }

def initPagetable (f : Frame) : Mem :=
  { m with
    pt := update m.pt f (fun _ => l2TypeInv)
    vpteFlags := update m.vpteFlags f (fun _ => 0) }

def pmapAllocPagetable : Option (Word × Mem) :=
  match allocPage m with
  | none => none
  | some (page, m) =>
    let pt := pmapPageToVa page
    some (pt, initPagetable m (pmapVaToPage pt))

def pmapFreePagetable (pt : Word) : Mem := freePage m (pmapVaToPage pt)

inductive Errno
  | efault
  | einval
  deriving DecidableEq

def enterPte (as : AsId) (pt va pa flags : Word) : Except Errno Unit × Mem :=
  let ptpage := pmapVaToPage pt
  if m.pt ptpage (pteIdx va) &&& l2TypeMask ≠ l2TypeInv then
    (.error .einval, pmapFreePagetable (pmapWriteL1 m as (pdeIdx va) l1TypeInv) pt)
  else
    let m := m.setFlags ptpage (pteIdx va) flags
    let m := m.setReferenceCnt ptpage (m.referenceCnt ptpage + 1)
    (.ok (), pmapWriteL2 m pt (pteIdx va) (pa ||| pmapCalcPaBits b flags))

-- none: the thread sleeps for a page.
def pmapEnter (as : AsId) (va pa flags : Word) : Option (Except Errno Unit × Mem) :=
  if va = 0 then some (.error .efault, m)
  else if m.l1Table as (pdeIdx va) &&& l1TypeMask = l1TypeInv then
    match pmapAllocPagetable m with
    | none => none
    | some (pt, m) =>
      some (enterPte b (pmapWriteL1 m as (pdeIdx va) (pmapVaToPa pt ||| l1TypeC)) as pt va pa flags)
  else
    let physPt := m.l1Table as (pdeIdx va) &&& l1CAddrMask
    some (enterPte b m as (pmapPaToVa physPt) va pa flags)

def pmapRemove (as : AsId) (va : Word) : Except Errno Unit × Mem :=
  if va = 0 then (.error .efault, m)
  else if m.l1Table as (pdeIdx va) &&& l1TypeMask = l1TypeInv then (.error .einval, m)
  else
    let pt := pmapPaToVa (m.l1Table as (pdeIdx va) &&& l1CAddrMask)
    let ptpage := pmapVaToPage pt
    if m.pt ptpage (pteIdx va) &&& l2TypeMask = l2TypeInv then (.error .einval, m)
    else
      let m := m.setFlags ptpage (pteIdx va) 0
      let m := pmapWriteL2 m pt (pteIdx va) l2TypeInv
      let m := m.setReferenceCnt ptpage (m.referenceCnt ptpage - 1)
      if m.referenceCnt ptpage = 0 then
        (.ok (), pmapFreePagetable (pmapWriteL1 m as (pdeIdx va) l1TypeInv) pt)
      else (.ok (), m)

-- none: kernelpanic.
def pmapProtect (as : AsId) (va flags : Word) : Option Mem :=
  if va = 0 then some m
  else if m.l1Table as (pdeIdx va) &&& l1TypeMask = l1TypeInv then none
  else
    let pt := pmapPaToVa (m.l1Table as (pdeIdx va) &&& l1CAddrMask)
    let ptpage := pmapVaToPage pt
    let pa := m.pt ptpage (pteIdx va) &&& l2AddrMask
    if m.pt ptpage (pteIdx va) &&& l2TypeMask = l2TypeInv then none
    else
      let m := m.setFlags ptpage (pteIdx va) flags
      some (pmapWriteL2 m pt (pteIdx va) (pa ||| pmapCalcPaBits b flags))

def pmapExtract (as : AsId) (va : Word) : Option (Word × Word) :=
  if m.l1Table as (pdeIdx va) &&& l1TypeMask = l1TypeInv then none
  else
    let pt := pmapPaToVa (m.l1Table as (pdeIdx va) &&& l1CAddrMask)
    let ptpage := pmapVaToPage pt
    if m.pt ptpage (pteIdx va) &&& l2TypeMask = l2TypeInv then none
    else some (m.pt ptpage (pteIdx va) &&& l2AddrMask, m.vpteFlags ptpage (pteIdx va))

def pmapCreate (rootPagedir : Fin 4096 → Word) (t : Fin 4096) : Word :=
  if t.val < 2048 then l1TypeInv else rootPagedir t

inductive Op
  | enter (as : AsId) (va pa flags : Word)
  | remove (as : AsId) (va : Word)
  | protect (as : AsId) (va flags : Word)

def Op.va : Op → Word
  | .enter _ va _ _ => va
  | .remove _ va => va
  | .protect _ va _ => va

def step : Op → Option Mem
  | .enter as va pa flags => (pmapEnter b m as va pa flags).map Prod.snd
  | .remove as va => some (pmapRemove m as va).2
  | .protect as va flags => pmapProtect b m as va flags

end

-- A first-level entry is the address space's own unless pmap_create copied a kernel table into it.
def Own (root : Fin 4096 → Word) (d : Fin 4096) : Prop := pmapCreate root d &&& l1TypeMask = l1TypeInv
  deriving Decidable

section Bits

theorem mask_shift {m : Word} {k : ℕ} (h : ∀ i, i < 32 → k ≤ i → m.getLsbD i = true) (va : Word) :
    (va &&& m) >>> k = va >>> k := by
  apply BitVec.eq_of_getLsbD_eq
  intro i hi
  simp only [BitVec.getLsbD_ushiftRight, BitVec.getLsbD_and]
  by_cases hk : k + i < 32
  · rw [h _ hk (Nat.le_add_right _ _), Bool.and_true]
  · rw [BitVec.getLsbD_of_ge va (k + i) (by omega), Bool.false_and]

theorem pdeIdx_val (va : Word) : (pdeIdx va).val = va.toNat / 0x100000 := by
  have h : (va &&& l1AddrBits) >>> 20 = va >>> 20 := mask_shift (by decide) va
  simp only [pdeIdx, h, BitVec.toNat_ushiftRight, Nat.shiftRight_eq_div_pow]

theorem pteIdx_val (va : Word) : (pteIdx va).val = va.toNat / 0x1000 % 0x100 := by
  have h : (va &&& l2AddrBits) >>> 12 = (va >>> 12) &&& 0xff#32 := by
    rw [BitVec.ushiftRight_and_distrib]
    rfl
  have hff : (0xff#32).toNat = 2 ^ 8 - 1 := rfl
  simp only [pteIdx, h, BitVec.toNat_and, hff, Nat.and_two_pow_sub_one_eq_mod, BitVec.toNat_ushiftRight,
    Nat.shiftRight_eq_div_pow]

def page (va : Word) : ℕ := va.toNat / 0x1000

theorem same_page {va va' : Word} : pdeIdx va' = pdeIdx va ∧ pteIdx va' = pteIdx va ↔ page va' = page va := by
  rw [Fin.ext_iff, Fin.ext_iff, pdeIdx_val, pdeIdx_val, pteIdx_val, pteIdx_val, page, page]
  omega

theorem pmapPageToPa_toNat (f : Frame) : (pmapPageToPa f).toNat = f.toNat * 0x1000 := by
  rw [pmapPageToPa, BitVec.toNat_shiftLeft, BitVec.toNat_setWidth]
  omega

theorem pmapPaToPage_toNat (pa : Word) : (pmapPaToPage pa).toNat = pa.toNat / 0x1000 := by
  rw [pmapPaToPage, BitVec.toNat_setWidth, BitVec.toNat_ushiftRight]
  omega

theorem pmapPaToPage_pmapPageToPa (f : Frame) : pmapPaToPage (pmapPageToPa f) = f := by
  apply BitVec.eq_of_toNat_eq
  rw [pmapPaToPage_toNat, pmapPageToPa_toNat, Nat.mul_div_cancel _ (by decide)]

theorem pmapVaToPage_pmapPageToVa (f : Frame) : pmapVaToPage (pmapPageToVa f) = f := by
  have h : pmapVaToPa (pmapPageToVa f) = pmapPageToPa f := BitVec.add_sub_cancel _ _
  rw [pmapVaToPage, h, pmapPaToPage_pmapPageToPa]

theorem pmapPageToPa_aligned (f : Frame) : pmapPageToPa f &&& 0xfff = 0 := by
  apply BitVec.eq_of_toNat_eq
  have hfff : (0xfff : Word).toNat = 2 ^ 12 - 1 := rfl
  rw [BitVec.toNat_and, hfff, Nat.and_two_pow_sub_one_eq_mod, pmapPageToPa_toNat, Nat.mul_mod_left]
  rfl

theorem pde_of_page (f : Frame) : (pmapPageToPa f ||| l1TypeC) &&& l1TypeMask ≠ l1TypeInv ∧
      pmapVaToPage (pmapPaToVa ((pmapPageToPa f ||| l1TypeC) &&& l1CAddrMask)) = f := by
  have hlow := pmapPageToPa_aligned f
  constructor
  · rw [or_and_eq_right (and_eq_zero_of_and_eq_zero hlow (by decide))]
    decide
  have htop : pmapPageToPa f &&& l1CAddrMask = pmapPageToPa f :=
    and_not_eq_self (and_eq_zero_of_and_eq_zero hlow (by decide : (0x3ff : Word) &&& 0xfff = 0x3ff))
  rw [BitVec.or_comm, or_and_eq_right (by decide), htop]
  exact pmapVaToPage_pmapPageToVa f

theorem accessBits_eq_rwku : accessBits b flags = b.l2ApRwku ↔ flags &&& b.protWrite ≠ 0 ∧ flags &&& mapCow = 0 := by
  unfold accessBits
  split
  · exact iff_of_true rfl ‹_›
  · exact iff_of_false b.rku_ne_rwku ‹_›

section

variable (b : Board) (flags : Word)

theorem accessBits_within : accessBits b flags &&& l2ApMask = accessBits b flags := by
  unfold accessBits
  split
  · exact b.rwku_within
  · exact b.rku_within

theorem execBits_within : execBits b flags &&& 0xd = execBits b flags := by
  unfold execBits
  split <;> decide

theorem cacheBits_within {default : Word} (h : default &&& 0xd = default) :
    cacheBits b flags default &&& 0xd = cacheBits b flags default := by
  unfold cacheBits
  split
  · exact h
  split
  · decide
  · split
    · decide
    · split <;> decide

theorem pmapCalcPaBits_eq :
    ∃ low : Word, low &&& 0xd = low ∧ pmapCalcPaBits b flags = l2TypeS ||| accessBits b flags ||| low := by
  refine ⟨execBits b flags ||| (if flags &&& b.mapPhys = 0 then cacheBits b flags (l2C ||| l2B) else 0)
    ||| (if flags &&& b.mapPhys = b.mapPhys then cacheBits b flags 0 else 0), ?_, ?_⟩
  · apply or_and_eq_self (or_and_eq_self (execBits_within b flags) ?_) ?_
    · split
      · exact cacheBits_within b flags (by decide)
      · decide
    · split
      · exact cacheBits_within b flags (by decide)
      · decide
  · simp only [pmapCalcPaBits, BitVec.or_assoc]

end

variable {b : Board} {pa flags : Word}

theorem pte_pa (h : pa &&& 0xfff = 0) : (pa ||| pmapCalcPaBits b flags) &&& l2AddrMask = pa := by
  obtain ⟨low, hlow, heq⟩ := pmapCalcPaBits_eq b flags
  have hbits : pmapCalcPaBits b flags &&& l2AddrMask = 0 := by
    rw [heq]
    refine and_or_eq_zero (and_or_eq_zero (by decide) ?_) (and_eq_zero_of_and_eq_self hlow (by decide))
    exact and_eq_zero_of_and_eq_self (accessBits_within b flags) (by decide)
  rw [BitVec.or_comm, or_and_eq_right hbits]
  exact and_not_eq_self h

theorem pte_valid (pa : Word) : (pa ||| pmapCalcPaBits b flags) &&& l2TypeMask ≠ l2TypeInv := by
  obtain ⟨low, -, heq⟩ := pmapCalcPaBits_eq b flags
  intro h
  have hbit : ((pa ||| pmapCalcPaBits b flags) &&& l2TypeMask).getLsbD 1 = true := by
    rw [heq]
    simp only [BitVec.getLsbD_and, BitVec.getLsbD_or]
    have hs : l2TypeS.getLsbD 1 = true := by decide
    have hm : l2TypeMask.getLsbD 1 = true := by decide
    rw [hs, hm]
    simp
  rw [h] at hbit
  exact absurd hbit (by decide)

theorem pte_access (h : pa &&& 0xfff = 0) : (pa ||| pmapCalcPaBits b flags) &&& l2ApMask = accessBits b flags := by
  obtain ⟨low, hlow, heq⟩ := pmapCalcPaBits_eq b flags
  rw [or_and_eq_right (and_eq_zero_of_and_eq_zero h (by decide)), heq, BitVec.or_assoc,
    or_and_eq_right (by decide), BitVec.or_comm, or_and_eq_right (and_eq_zero_of_and_eq_self hlow (by decide)),
    accessBits_within]

end Bits

end CheviotKernel.PageTables
