import CheviotKernel.Vm.PageTables

namespace CheviotKernel.PageTables

open Function Runs TwoLevel

abbrev Slot := AsId × Fin 4096

def tableOf (m : Mem) (s : Slot) : Option Frame :=
  if m.l1Table s.1 s.2 &&& l1TypeMask = l1TypeInv then none
  else some (pmapVaToPage (pmapPaToVa (m.l1Table s.1 s.2 &&& l1CAddrMask)))

def entryOf (m : Mem) (f : Frame) (i : Fin 256) : Option (Word × Word) :=
  if m.pt f i &&& l2TypeMask = l2TypeInv then none else some (m.pt f i &&& l2AddrMask, m.vpteFlags f i)

def view (m : Mem) : Table Slot Frame (Fin 256) (Word × Word) := ⟨tableOf m, entryOf m⟩

theorem pmapExtract_eq (m : Mem) (as : AsId) (va : Word) :
    pmapExtract m as va = (view m).lookup (as, pdeIdx va) (pteIdx va) := by
  by_cases h : m.l1Table as (pdeIdx va) &&& l1TypeMask = l1TypeInv
  · simp [pmapExtract, Table.lookup, view, tableOf, h]
  · simp [pmapExtract, Table.lookup, view, tableOf, entryOf, h]

def Mem.put (m : Mem) (f : Frame) (i : Fin 256) (flags data : Word) (n : Int) : Mem :=
  ((m.setFlags f i flags).setReferenceCnt f n).setPte f i data

def Mem.newTable (m : Mem) (s : Slot) (f : Frame) (rest : List Frame) : Mem :=
  (initPagetable { m.setReferenceCnt f 0 with freePageQueue := rest } f).setL1 s.1 s.2 (pmapPageToPa f ||| l1TypeC)

def Mem.dropTable (m : Mem) (s : Slot) (f : Frame) : Mem := freePage (m.setL1 s.1 s.2 l1TypeInv) f

section

variable {m m' : Mem} {s s' : Slot} {f f' : Frame} {b : Board} {as : AsId} {va pa flags pt data : Word}
  {r : Except Errno Unit} {root : Fin 4096 → Word} {i : Fin 256} {rest : List Frame} {σ : Space} {n : Int} {op : Op}

@[simp] theorem l2TypeInv_and_l2TypeMask : l2TypeInv &&& l2TypeMask = l2TypeInv := by decide

section

variable (m s f rest)

theorem view_freePage : view (freePage m f) = view m := by
  simp only [freePage]
  split <;> rfl

theorem tableOf_setL1 (data : Word) :
    tableOf (m.setL1 s.1 s.2 data) = update (tableOf m) s
      (if data &&& l1TypeMask = l1TypeInv then none else some (pmapVaToPage (pmapPaToVa (data &&& l1CAddrMask)))) := by
  funext s'
  by_cases h : s' = s
  · subst h
    simp [tableOf]
  rw [update_of_ne h]
  have hl : (m.setL1 s.1 s.2 data).l1Table s'.1 s'.2 = m.l1Table s'.1 s'.2 := by
    rw [Mem.setL1_l1Table]
    by_cases ha : s'.1 = s.1
    · have hd : s'.2 ≠ s.2 := fun hd => h (Prod.ext ha hd)
      rw [ha, update_self, update_of_ne hd]
    · rw [update_of_ne ha]
  simp only [tableOf, hl]

theorem view_dropTable : view (m.dropTable s f) = (view m).detach s := by
  rw [Mem.dropTable, view_freePage]
  exact congrArg (Table.mk · (entryOf m)) (tableOf_setL1 m s l1TypeInv)

theorem view_newTable : view (m.newTable s f rest) = (view m).attach s f := by
  have hdir : tableOf (m.newTable s f rest) = update (tableOf m) s (some f) := by
    rw [Mem.newTable, tableOf_setL1, if_neg (pde_of_page f).1, (pde_of_page f).2]
    rfl
  have hleaf : entryOf (m.newTable s f rest) = update (entryOf m) f (fun _ => none) := by
    funext f' i
    by_cases h : f' = f
    · subst h
      simp [entryOf, Mem.newTable, initPagetable]
    · simp [entryOf, Mem.newTable, initPagetable, h]
  rw [view, hdir, hleaf]
  rfl

theorem view_put (i : Fin 256) (flags data : Word) (n : Int) :
    view (m.put f i flags data n) = (view m).store f i
      (if data &&& l2TypeMask = l2TypeInv then none else some (data &&& l2AddrMask, flags)) := by
  have hleaf : entryOf (m.put f i flags data n) = update (entryOf m) f (update (entryOf m f) i
      (if data &&& l2TypeMask = l2TypeInv then none else some (data &&& l2AddrMask, flags))) := by
    funext f' i'
    by_cases h : f' = f
    · subst h
      by_cases hi : i' = i
      · subst hi
        simp [entryOf, Mem.put]
      · simp [entryOf, Mem.put, hi]
    · simp [entryOf, Mem.put, h]
  exact congrArg (Table.mk (tableOf m)) hleaf

end

theorem tableOf_eq_none (h : m.l1Table as (pdeIdx va) &&& l1TypeMask = l1TypeInv) :
    tableOf m (as, pdeIdx va) = none := by
  simp [tableOf, h]

theorem tableOf_eq_some (h : m.l1Table as (pdeIdx va) &&& l1TypeMask ≠ l1TypeInv) :
    tableOf m (as, pdeIdx va) = some (pmapVaToPage (pmapPaToVa (m.l1Table as (pdeIdx va) &&& l1CAddrMask))) := by
  simp [tableOf, h]

theorem entryOf_eq_none : entryOf m f i = none ↔ m.pt f i &&& l2TypeMask = l2TypeInv := by
  simp [entryOf]

theorem pmapAllocPagetable_eq_some (h : pmapAllocPagetable m = some (pt, m')) :
    ∃ f rest, m.freePageQueue = rest ++ [f] ∧ pt = pmapPageToVa f ∧
      m' = initPagetable { m.setReferenceCnt f 0 with freePageQueue := rest } f := by
  unfold pmapAllocPagetable allocPage at h
  cases hq : m.freePageQueue.getLast? with
  | none => simp [hq] at h
  | some f =>
    have hsplit := List.dropLast_append_getLast? f hq
    simp only [hq, Option.some.injEq, Prod.mk.injEq] at h
    obtain ⟨rfl, rfl⟩ := h
    refine ⟨f, m.freePageQueue.dropLast, hsplit.symm, rfl, ?_⟩
    rw [pmapVaToPage_pmapPageToVa]

theorem pmapProtect_cases (h : pmapProtect b m as va flags = some m') : (va = 0 ∧ m' = m) ∨
    ∃ f, va ≠ 0 ∧ tableOf m (as, pdeIdx va) = some f ∧ entryOf m f (pteIdx va) ≠ none ∧
      m' = m.put f (pteIdx va) flags ((m.pt f (pteIdx va) &&& l2AddrMask) ||| pmapCalcPaBits b flags)
        (m.referenceCnt f) := by
  unfold pmapProtect at h
  split_ifs at h with hva hl
  · cases h
    exact .inl ⟨hva, rfl⟩
  have ht := tableOf_eq_some hl
  by_cases hp : m.pt (pmapVaToPage (pmapPaToVa (m.l1Table as (pdeIdx va) &&& l1CAddrMask))) (pteIdx va) &&& l2TypeMask
      = l2TypeInv
  · simp [hp] at h
  simp only [if_neg hp, Option.some.injEq] at h
  refine .inr ⟨_, hva, ht, mt entryOf_eq_none.mp hp, h.symm.trans ?_⟩
  simp [Mem.put, Mem.setReferenceCnt, pmapWriteL2, Mem.setPte]

section

variable (b : Board) (m : Mem) (as : AsId) (va pa flags : Word)

theorem enterPte_cases (hf : pmapVaToPage pt = f) : (entryOf m f (pteIdx va) ≠ none ∧
      enterPte b m as pt va pa flags = (.error .einval, m.dropTable (as, pdeIdx va) f)) ∨
    (entryOf m f (pteIdx va) = none ∧ enterPte b m as pt va pa flags =
      (.ok (), m.put f (pteIdx va) flags (pa ||| pmapCalcPaBits b flags) (m.referenceCnt f + 1))) := by
  subst hf
  by_cases h : entryOf m (pmapVaToPage pt) (pteIdx va) = none
  · exact .inr ⟨h, if_neg (not_not.mpr (entryOf_eq_none.mp h))⟩
  · exact .inl ⟨h, if_pos (mt entryOf_eq_none.mpr h)⟩

theorem enterPte_newTable (f : Frame) (rest : List Frame) : let m' := m.newTable (as, pdeIdx va) f rest
    enterPte b m' as (pmapPageToVa f) va pa flags =
      (.ok (), m'.put f (pteIdx va) flags (pa ||| pmapCalcPaBits b flags) 1) := by
  intro m'
  have hempty : entryOf m' f (pteIdx va) = none := by simp [m', entryOf, Mem.newTable, initPagetable]
  have hcnt : m'.referenceCnt f + 1 = 1 := by simp [m', Mem.newTable, initPagetable]
  rcases enterPte_cases b m' as va pa flags (pmapVaToPage_pmapPageToVa f) with ⟨hne, -⟩ | ⟨-, he⟩
  · exact absurd hempty hne
  · rw [he, hcnt]

theorem pmapRemove_cases : (pmapRemove m as va).2 = m ∧ (va = 0 ∨ pmapExtract m as va = none) ∨
    ∃ f, va ≠ 0 ∧ tableOf m (as, pdeIdx va) = some f ∧ entryOf m f (pteIdx va) ≠ none ∧
      let m' := m.put f (pteIdx va) 0 l2TypeInv (m.referenceCnt f - 1)
      (pmapRemove m as va).2 = if m.referenceCnt f - 1 = 0 then m'.dropTable (as, pdeIdx va) f else m' := by
  unfold pmapRemove
  split_ifs with hva hl
  · exact .inl ⟨rfl, .inl hva⟩
  · exact .inl ⟨rfl, .inr (if_pos hl)⟩
  have ht := tableOf_eq_some hl
  generalize hpt : pmapPaToVa (m.l1Table as (pdeIdx va) &&& l1CAddrMask) = pt at ht
  by_cases hp : m.pt (pmapVaToPage pt) (pteIdx va) &&& l2TypeMask = l2TypeInv
  · exact .inl ⟨by simp only [hp, if_pos], .inr (by simp [pmapExtract, hpt, hp])⟩
  refine .inr ⟨pmapVaToPage pt, hva, ht, mt entryOf_eq_none.mp hp, ?_⟩
  simp only [if_neg hp, Mem.setReferenceCnt_referenceCnt, update_self]
  exact apply_ite Prod.snd _ _ _

end

theorem pmapEnter_cases (h : pmapEnter b m as va pa flags = some (r, m')) : (va = 0 ∧ r = .error .efault ∧ m' = m) ∨
    (∃ f, va ≠ 0 ∧ tableOf m (as, pdeIdx va) = some f ∧ entryOf m f (pteIdx va) ≠ none ∧
      r = .error .einval ∧ m' = m.dropTable (as, pdeIdx va) f) ∨
    (∃ f, va ≠ 0 ∧ tableOf m (as, pdeIdx va) = some f ∧ entryOf m f (pteIdx va) = none ∧ r = .ok () ∧
      m' = m.put f (pteIdx va) flags (pa ||| pmapCalcPaBits b flags) (m.referenceCnt f + 1)) ∨
    (∃ f rest, va ≠ 0 ∧ tableOf m (as, pdeIdx va) = none ∧ m.freePageQueue = rest ++ [f] ∧ r = .ok () ∧
      m' = (m.newTable (as, pdeIdx va) f rest).put f (pteIdx va) flags (pa ||| pmapCalcPaBits b flags) 1) := by
  unfold pmapEnter at h
  split_ifs at h with hva hl
  · cases h
    exact .inl ⟨hva, rfl, rfl⟩
  · cases ha : pmapAllocPagetable m with
    | none => simp [ha] at h
    | some q =>
      obtain ⟨pt, mt⟩ := q
      obtain ⟨f, rest, hq, rfl, rfl⟩ := pmapAllocPagetable_eq_some ha
      have hpa : pmapVaToPa (pmapPageToVa f) = pmapPageToPa f := BitVec.add_sub_cancel _ _
      simp only [ha, hpa, Option.some.injEq] at h
      have he := (enterPte_newTable b m as va pa flags f rest).symm.trans h
      rw [Prod.mk.injEq] at he
      exact .inr (.inr (.inr ⟨f, rest, hva, tableOf_eq_none hl, hq, he.1.symm, he.2.symm⟩))
  · simp only [Option.some.injEq] at h
    have ht := tableOf_eq_some hl
    rcases enterPte_cases b m as va pa flags rfl with ⟨hne, he⟩ | ⟨hno, he⟩
    · cases he.symm.trans h
      exact .inr (.inl ⟨_, hva, ht, hne, rfl, rfl⟩)
    · cases he.symm.trans h
      exact .inr (.inr (.inl ⟨_, hva, ht, hno, rfl, rfl⟩))

structure Created (root : Fin 4096 → Word) (m : Mem) : Prop where
  l1 : ∀ as d, m.l1Table as d = pmapCreate root d
  nodup : m.freePageQueue.Nodup
  idle : ∀ f ∈ m.freePageQueue, m.referenceCnt f ≤ 0
  kernel : ∀ s f, tableOf m s = some f → f ∉ m.freePageQueue

structure Sound (root : Fin 4096 → Word) (m : Mem) : Prop where
  apart : Apart (fun s : Slot => Own root s.2) (view m) m.freePageQueue
  count : ∀ s f, Own root s.2 → tableOf m s = some f → m.referenceCnt f = (view m).population f
  idle : ∀ f ∈ m.freePageQueue, m.referenceCnt f ≤ 0

theorem Created.tableOf_own (h : Created root m) (hs : Own root s.2) : tableOf m s = none := by
  have : m.l1Table s.1 s.2 &&& l1TypeMask = l1TypeInv := by rw [h.l1]; exact hs
  simp [tableOf, this]

theorem Created.sound (h : Created root m) : Sound root m := by
  refine ⟨⟨h.nodup, h.kernel, ?_⟩, ?_, h.idle⟩
  · intro s s' f hs ht _
    exact absurd (ht.symm.trans (h.tableOf_own hs)) (by simp)
  · intro s f hs ht
    exact absurd (ht.symm.trans (h.tableOf_own hs)) (by simp)

theorem step_enter (h : step b m (.enter as va pa flags) = some m') :
    ∃ r, pmapEnter b m as va pa flags = some (r, m') := by
  simp only [step, Option.map_eq_some_iff] at h
  obtain ⟨⟨r, m₁⟩, he, rfl⟩ := h
  exact ⟨r, he⟩

section

variable (m : Mem) (s : Slot) (f : Frame) (rest : List Frame) (i : Fin 256)

theorem freePage_queue : (freePage m f).referenceCnt = update m.referenceCnt f (m.referenceCnt f - 1) ∧
      (freePage m f).freePageQueue = if m.referenceCnt f - 1 > 0 then m.freePageQueue else m.freePageQueue ++ [f] := by
  simp only [freePage, Mem.setReferenceCnt_referenceCnt, update_self]
  split <;> exact ⟨rfl, rfl⟩

theorem tableOf_newTable : tableOf (m.newTable s f rest) s = some f := by
  have h : (view (m.newTable s f rest)).dir s = ((view m).attach s f).dir s := by rw [view_newTable]
  exact h.trans (update_self ..)

theorem entryOf_newTable : entryOf (m.newTable s f rest) f i = none := by
  simp [entryOf, Mem.newTable, initPagetable]

end

theorem tableOf_newTable_of_ne (hne : f' ≠ f)
    (ht : tableOf (m.newTable s f rest) s' = some f') : tableOf m s' = some f' := by
  have hdir : (view (m.newTable s f rest)).dir s' = some f' := ht
  rw [view_newTable] at hdir
  simp only [Table.attach, update_apply] at hdir
  split at hdir
  · exact absurd (Option.some.inj hdir).symm hne
  · exact hdir

theorem tableOf_dropTable (ht : tableOf (m.dropTable s f) s' = some f') : s' ≠ s ∧ tableOf m s' = some f' := by
  have hdir : (view (m.dropTable s f)).dir s' = some f' := ht
  rw [view_dropTable] at hdir
  simp only [Table.detach, update_apply] at hdir
  split_ifs at hdir
  exact ⟨‹_›, hdir⟩

namespace Sound

variable (h : Sound root m) (hs : Own root s.2) (ht : tableOf m s = some f)
include h

theorem put (ht : tableOf m s = some f) (hn : n = (view (m.put f i flags data n)).population f) : Sound root (m.put f i flags data n) := by
  have hview := view_put m f i flags data n
  have hbusy : f ∉ m.freePageQueue := h.apart.busy s f ht
  refine ⟨hview ▸ h.apart.store f i _, ?_, ?_⟩
  · intro s' f' hs' ht'
    by_cases hf : f' = f
    · subst hf
      simpa [Mem.put] using hn
    · rw [hview, Table.population_store_of_ne _ hf]
      simpa [Mem.put, hf] using h.count s' f' hs' ht'
  · intro f' hm
    have hne : f' ≠ f := fun he => hbusy (he ▸ hm)
    simpa [Mem.put, hne] using h.idle f' hm

theorem newTable (hq : m.freePageQueue = rest ++ [f]) (s : Slot) : Sound root (m.newTable s f rest) := by
  have hview := view_newTable m s f rest
  have ha := hq ▸ h.apart
  have hnew := ha.attach s
  refine ⟨by rw [hview]; exact hnew, ?_, ?_⟩
  · intro s' f' hs' ht'
    rw [hview, Table.population_attach]
    by_cases hf : f' = f
    · simp [hf, Mem.newTable, initPagetable]
    simpa [hf, Mem.newTable, initPagetable] using h.count s' f' hs' (tableOf_newTable_of_ne hf ht')
  · intro f' hm
    have hne : f' ≠ f := by
      rintro rfl
      exact (List.nodup_append.mp ha.nodup).2.2 f' hm f' (List.mem_singleton.mpr rfl) rfl
    simpa [Mem.newTable, initPagetable, hne] using h.idle f' (by rw [hq]; exact List.mem_append_left _ hm)

include hs ht

theorem dropTable : Sound root (m.dropTable s f) := by
  have hview := view_dropTable m s f
  have hbusy : f ∉ m.freePageQueue := h.apart.busy s f ht
  obtain ⟨hcnt, hqueue⟩ := freePage_queue (m.setL1 s.1 s.2 l1TypeInv) f
  have hmem : ∀ f', f' ∈ (m.dropTable s f).freePageQueue →
      f' ∈ m.freePageQueue ∨ f' = f ∧ m.referenceCnt f - 1 ≤ 0 := by
    intro f' hm
    rw [Mem.dropTable, hqueue] at hm
    split at hm
    · exact .inl hm
    · rcases List.mem_append.mp hm with hm | hm
      · exact .inl hm
      · exact .inr ⟨List.mem_singleton.mp hm, not_lt.mp ‹_›⟩
  have hnodup : (m.dropTable s f).freePageQueue.Nodup := by
    rw [Mem.dropTable, hqueue]
    split
    · exact h.apart.nodup
    · exact List.nodup_append.mpr ⟨h.apart.nodup, List.nodup_singleton f, fun a ha c hc hac =>
        hbusy (List.mem_singleton.mp hc ▸ hac ▸ ha)⟩
  have hcount : ∀ f', f' ≠ f → (m.dropTable s f).referenceCnt f' = m.referenceCnt f' := by
    intro f' hne
    rw [Mem.dropTable, hcnt, update_of_ne hne]
    rfl
  refine ⟨?_, ?_, ?_⟩
  · rw [hview]
    exact h.apart.detach hs ht hnodup (fun f' hm => (hmem f' hm).imp_right And.left)
  · intro s' f' hs' ht'
    obtain ⟨hss, hold⟩ := tableOf_dropTable ht'
    have hne : f' ≠ f := fun he => hss (h.apart.apart s s' f hs ht (he ▸ hold))
    rw [hview, hcount f' hne]
    exact h.count s' f' hs' hold
  · intro f' hm
    by_cases hf : f' = f
    · subst hf
      rcases hmem f' hm with hold | ⟨-, hle⟩
      · exact absurd hold hbusy
      · rw [Mem.dropTable, hcnt, update_self]
        exact hle
    · rw [hcount f' hf]
      rcases hmem f' hm with hold | ⟨he, -⟩
      · exact h.idle f' hold
      · exact absurd he hf

theorem fill (hno : entryOf m f i = none) (pa flags : Word) :
    Sound root (m.put f i flags (pa ||| pmapCalcPaBits b flags) (m.referenceCnt f + 1)) := by
  refine h.put ht ?_
  have hpop := Table.population_store_some (t := view m) hno ((pa ||| pmapCalcPaBits b flags) &&& l2AddrMask, flags)
  rw [view_put, if_neg (pte_valid pa), hpop, h.count s f hs ht]
  rfl

theorem clear (hne : entryOf m f i ≠ none) : Sound root (m.put f i 0 l2TypeInv (m.referenceCnt f - 1)) := by
  refine h.put ht ?_
  have hpop := Table.population_store_none (t := view m) hne
  rw [view_put, if_pos l2TypeInv_and_l2TypeMask, h.count s f hs ht]
  omega

theorem change (hne : entryOf m f i ≠ none) (pa flags : Word) :
    Sound root (m.put f i flags (pa ||| pmapCalcPaBits b flags) (m.referenceCnt f)) := by
  refine h.put ht ?_
  have hpop := Table.population_store_same (t := view m) hne
    ((pa ||| pmapCalcPaBits b flags) &&& l2AddrMask, flags)
  rw [view_put, if_neg (pte_valid pa), hpop, h.count s f hs ht]

omit ht

theorem newTable_fill (hq : m.freePageQueue = rest ++ [f]) (i : Fin 256) (pa flags : Word) :
    Sound root ((m.newTable s f rest).put f i flags (pa ||| pmapCalcPaBits b flags) 1) := by
  have hcnt : (m.newTable s f rest).referenceCnt f + 1 = 1 := by simp [Mem.newTable, initPagetable]
  have hfill := (h.newTable hq s).fill (b := b) hs (tableOf_newTable m s f rest) (entryOf_newTable m s f rest i) pa flags
  rwa [hcnt] at hfill

omit hs

section

variable (ho : Own root (pdeIdx va))
include ho

theorem enter (he : pmapEnter b m as va pa flags = some (r, m')) : Sound root m' := by
  rcases pmapEnter_cases he with ⟨-, -, rfl⟩ | ⟨f, -, ht, -, -, rfl⟩ | ⟨f, -, ht, hno, -, rfl⟩ |
    ⟨f, rest, -, -, hq, -, rfl⟩
  · exact h
  · exact h.dropTable ho ht
  · exact h.fill ho ht hno pa flags
  · exact h.newTable_fill ho hq (pteIdx va) pa flags

theorem remove : Sound root (pmapRemove m as va).2 := by
  rcases pmapRemove_cases m as va with ⟨he, -⟩ | ⟨f, -, ht, hne, he⟩
  · rw [he]
    exact h
  have hclear := h.clear ho ht hne
  rw [he]
  split
  · exact hclear.dropTable ho ht
  · exact hclear

theorem protect (he : pmapProtect b m as va flags = some m') : Sound root m' := by
  rcases pmapProtect_cases he with ⟨-, rfl⟩ | ⟨f, -, ht, hne, rfl⟩
  · exact h
  · exact h.change ho ht hne _ flags

end

protected theorem step (ho : Own root (pdeIdx op.va)) (hs : step b m op = some m') : Sound root m' := by
  cases op with
  | enter as va pa flags =>
    obtain ⟨r, he⟩ := step_enter hs
    exact h.enter ho he
  | remove as va => exact Option.some.inj hs ▸ h.remove ho
  | protect as va flags => exact h.protect ho hs

end Sound

def InOwn (root : Fin 4096 → Word) (_ : Mem) (op : Op) : Prop := Own root (pdeIdx op.va)
  deriving Decidable

def FailsCleanly (b : Board) (m : Mem) (as : AsId) (va pa flags : Word) : Prop :=
  ∀ e m', pmapEnter b m as va pa flags = some (.error e, m') →
    (∀ va', pmapExtract m' as va' = pmapExtract m as va') ∧
    (∀ f, (∃ s, tableOf m' s = some f) ∨ 0 < m'.referenceCnt f → f ∉ m'.freePageQueue)

theorem reach_sound (h : Reach (step b) (InOwn root) (Created root) m) : Sound root m :=
  h.invariant (fun _ => Created.sound) (fun _ _ _ hs hc => hs.step hc)

theorem pmapEnter_mapped (hva : va ≠ 0) (ht : tableOf m (as, pdeIdx va) = some f)
    (hne : entryOf m f (pteIdx va) ≠ none) :
    pmapEnter b m as va pa flags = some (.error .einval, m.dropTable (as, pdeIdx va) f) := by
  unfold pmapEnter
  rw [if_neg hva]
  by_cases hl : m.l1Table as (pdeIdx va) &&& l1TypeMask = l1TypeInv
  · rw [tableOf_eq_none hl] at ht
    cases ht
  rw [if_neg hl]
  rw [tableOf_eq_some hl, Option.some.injEq] at ht
  rcases enterPte_cases b m as va pa flags ht with ⟨-, he⟩ | ⟨hno, -⟩
  · exact congrArg some he
  · exact absurd hno hne

theorem enter_fails_cleanly_iff (h : Reach (step b) (InOwn root) (Created root) m) :
    FailsCleanly b m as va pa flags ↔ va = 0 ∨ pmapExtract m as va = none := by
  constructor
  · intro hclean
    by_contra hcon
    obtain ⟨hva, hmap⟩ := not_or.mp hcon
    rw [pmapExtract_eq] at hmap
    cases ht : tableOf m (as, pdeIdx va) with
    | none => exact hmap (Table.lookup_of_none ht _)
    | some f =>
      rw [Table.lookup_of_some ht] at hmap
      -- The table that held va is gone, so va itself is no longer extracted.
      have hlost := (hclean _ _ (pmapEnter_mapped hva ht hmap)).1 va
      rw [pmapExtract_eq, view_dropTable, Table.lookup_detach, if_pos rfl, pmapExtract_eq,
        Table.lookup_of_some ht] at hlost
      exact hmap hlost.symm
  · intro hcond e m' he
    rcases pmapEnter_cases he with ⟨-, -, rfl⟩ | ⟨f, hva, ht, hne, -, -⟩ | ⟨_, _, _, _, hr, _⟩ | ⟨_, _, _, _, _, hr, _⟩
    · refine ⟨fun _ => rfl, ?_⟩
      have hs := reach_sound h
      rintro f (⟨s, ht⟩ | hpos)
      · exact hs.apart.busy s f ht
      · exact fun hm => absurd (hs.idle f hm) (not_le.mpr hpos)
    · rcases hcond with h0 | hno
      · exact absurd h0 hva
      · rw [pmapExtract_eq, Table.lookup_of_some ht] at hno
        exact absurd hno hne
    · cases hr
    · cases hr

def sampleBoard : Board where
  l2ApRwku := 0x30
  l2ApRku := 0x230
  rwku_within := by decide
  rku_within := by decide
  rku_ne_rwku := by decide
  protWrite := 2
  protExec := 4
  mapPhys := 0x100000
  vmCacheMask := 0x70000
  cacheDefault := 0
  cacheWriteback := 0x10000
  cacheWritethru := 0x20000
  cacheWritecombine := 0x30000

def emptyRoot : Fin 4096 → Word := fun _ => 0

def freshMem : Mem where
  l1Table := fun _ => pmapCreate emptyRoot
  pt := fun _ _ => 0
  vpteFlags := fun _ _ => 0
  referenceCnt := fun _ => 0
  freePageQueue := [1, 2, 3]

theorem fresh_created : Created emptyRoot freshMem where
  l1 _ _ := rfl
  nodup := by decide
  idle _ _ := Int.le_refl 0
  kernel s f ht := by
    have hz : freshMem.l1Table s.1 s.2 = 0 := by
      simp [freshMem, pmapCreate, emptyRoot, l1TypeInv]
    have hn : tableOf freshMem s = none := if_pos (by rw [hz]; decide)
    rw [hn] at ht
    cases ht

theorem second_enter_drops_table :
    ∃ m, exec (step sampleBoard) freshMem [.enter 0 0x400000 0x5000 1, .enter 0 0x401000 0x6000 1] = some m ∧
      pmapExtract m 0 0x401000 = some (0x6000, 1) ∧
      ∃ m', pmapEnter sampleBoard m 0 0x400000 0x7000 1 = some (.error .einval, m') ∧
        pmapExtract m' 0 0x401000 = none :=
  ⟨_, rfl, by decide, _, rfl, by decide⟩

theorem enter_beside_mapped_pages : ∃ m, Reach (step sampleBoard) (InOwn emptyRoot) (Created emptyRoot) m ∧
    pmapExtract m 0 0x401000 = some (0x6000, 1) ∧ (pmapEnter sampleBoard m 0 0 0x7000 1).map (·.1) = some (.error .efault) ∧
    FailsCleanly sampleBoard m 0 0 0x7000 1 ∧ ¬ FailsCleanly sampleBoard m 0 0x400000 0x7000 1 := by
  refine Reach.exists_of_run (Q := fun m => pmapExtract m 0 0x401000 = some (0x6000, 1) ∧
      pmapExtract m 0 0x400000 = some (0x5000, 1)) [.enter 0 0x400000 0x5000 1, .enter 0 0x401000 0x6000 1]
    fresh_created (by decide) (by decide) fun m hr hq => ⟨hq.1, rfl, (enter_fails_cleanly_iff hr).mpr (.inl rfl), ?_⟩
  rw [enter_fails_cleanly_iff hr, hq.2]
  decide

abbrev Space := AsId → ℕ → Option (Word × Word)

def Space.put (σ : Space) (as : AsId) (p : ℕ) (e : Option (Word × Word)) : Space :=
  update σ as (update (σ as) p e)

def Op.apply (σ : Space) : Op → Space
  | .enter as va pa flags => σ.put as (page va) (some (pa, flags))
  | .remove as va => σ.put as (page va) none
  | .protect as va flags => σ.put as (page va) ((σ as (page va)).map fun e => (e.1, flags))

def Legal (root : Fin 4096 → Word) (m : Mem) (op : Op) : Prop :=
  op.va ≠ 0 ∧ Own root (pdeIdx op.va) ∧ match op with
    | .enter as va pa _ => pa &&& 0xfff = 0 ∧ pmapExtract m as va = none
    | .remove as va => pmapExtract m as va ≠ none
    | .protect as va _ => pmapExtract m as va ≠ none

instance (root : Fin 4096 → Word) (m : Mem) (op : Op) : Decidable (Legal root m op) := by
  unfold Legal
  split <;> infer_instance

def Shows (m : Mem) (σ : Space) : Prop := ∀ as va, pmapExtract m as va = σ as (page va)

def hardwareEntry (m : Mem) (as : AsId) (va : Word) : Option Word :=
  match tableOf m (as, pdeIdx va) with
  | none => none
  | some f => some (m.pt f (pteIdx va))

def Writable (b : Board) (e : Word) : Prop := e &&& l2TypeMask ≠ l2TypeInv ∧ e &&& l2ApMask = b.l2ApRwku

structure IsFiniteMap (b : Board) (root : Fin 4096 → Word) (m : Mem) (σ : Space) : Prop where
  extract : Shows m σ
  writable : ∀ as va, Own root (pdeIdx va) →
    ((∃ e, hardwareEntry m as va = some e ∧ Writable b e) ↔
      ∃ pa flags, σ as (page va) = some (pa, flags) ∧ flags &&& b.protWrite ≠ 0 ∧ flags &&& mapCow = 0)
  counted : ∀ s f, Own root s.2 → tableOf m s = some f → m.referenceCnt f = (view m).population f
  present : ∀ as d, Own root d →
    (tableOf m (as, d) = none ↔ ∀ va, pdeIdx va = d → pmapExtract m as va = none)

def Formed (b : Board) (root : Fin 4096 → Word) (m : Mem) : Prop :=
  ∀ s f i, Own root s.2 → tableOf m s = some f → m.pt f i &&& l2TypeMask ≠ l2TypeInv →
    ∃ pa, pa &&& 0xfff = 0 ∧ m.pt f i = pa ||| pmapCalcPaBits b (m.vpteFlags f i)

def UsedBut (root : Fin 4096 → Word) (m : Mem) (f : Frame) : Prop :=
  ∀ s' f', f' ≠ f → Own root s'.2 → tableOf m s' = some f' → (view m).population f' ≠ 0

structure Tidy (b : Board) (root : Fin 4096 → Word) (m : Mem) : Prop where
  sound : Sound root m
  used : ∀ s f, Own root s.2 → tableOf m s = some f → (view m).population f ≠ 0
  formed : Formed b root m

def Sets (m m' : Mem) (as : AsId) (va : Word) (v : Option (Word × Word)) : Prop :=
  ∀ as' va', pmapExtract m' as' va' = if as' = as ∧ page va' = page va then v else pmapExtract m as' va'

theorem Shows.sets {v : Option (Word × Word)} (h : Shows m σ) (hs : Sets m m' as va v) :
    Shows m' (σ.put as (page va) v) := by
  intro as' va'
  rw [hs as' va', Space.put]
  by_cases ha : as' = as
  · subst ha
    by_cases hp : page va' = page va
    · simp [hp]
    · simp [hp, h as' va']
  · simp [ha, h as' va']

theorem Sound.sets_put (h : Sound root m) (ho : Own root (pdeIdx va)) (ht : tableOf m (as, pdeIdx va) = some f)
    (flags data : Word) (n : Int) :
    Sets m (m.put f (pteIdx va) flags data n) as va
      (if data &&& l2TypeMask = l2TypeInv then none else some (data &&& l2AddrMask, flags)) := by
  intro as' va'
  have hkey : ((as', pdeIdx va') = (as, pdeIdx va) ∧ pteIdx va' = pteIdx va) ↔ (as' = as ∧ page va' = page va) := by
    rw [← same_page, Prod.mk.injEq, and_assoc]
  rw [pmapExtract_eq, view_put, h.apart.lookup_store ho ht, pmapExtract_eq]
  simp only [hkey]

theorem Sound.extract_newTable (h : Sound root m) (hq : m.freePageQueue = rest ++ [f])
    (hn : tableOf m s = none) (as' : AsId) (va' : Word) :
    pmapExtract (m.newTable s f rest) as' va' = pmapExtract m as' va' := by
  rw [pmapExtract_eq, view_newTable, pmapExtract_eq]
  exact (hq ▸ h.apart).lookup_attach hn _ _

theorem extract_dropTable (ht : tableOf m s = some f) (hempty : (view m).population f = 0) (as' : AsId) (va' : Word) :
    pmapExtract (m.dropTable s f) as' va' = pmapExtract m as' va' := by
  rw [pmapExtract_eq, view_dropTable, Table.lookup_detach, pmapExtract_eq]
  split
  · rw [‹(as', pdeIdx va') = s›, Table.lookup_of_some ht, Table.population_eq_zero.mp hempty]
  · rfl

theorem UsedBut.put (h : UsedBut root m f) (i : Fin 256) (flags data : Word) (n : Int) :
    UsedBut root (m.put f i flags data n) f := by
  intro s' f' hne hs' ht'
  rw [view_put, Table.population_store_of_ne _ hne]
  exact h s' f' hne hs' ht'

theorem Formed.put (h : Formed b root m) (f : Frame) (i : Fin 256) (n : Int)
    (hdata : data &&& l2TypeMask ≠ l2TypeInv → ∃ pa, pa &&& 0xfff = 0 ∧ data = pa ||| pmapCalcPaBits b flags) :
    Formed b root (m.put f i flags data n) := by
  intro s' f' i' hs' ht'
  by_cases hfi : f' = f ∧ i' = i
  · obtain ⟨rfl, rfl⟩ := hfi
    simpa [Mem.put] using hdata
  have hpt : (m.put f i flags data n).pt f' i' = m.pt f' i' ∧
      (m.put f i flags data n).vpteFlags f' i' = m.vpteFlags f' i' := by
    by_cases hf : f' = f
    · subst hf
      have hi : i' ≠ i := fun hi => hfi ⟨rfl, hi⟩
      simp [Mem.put, hi]
    · simp [Mem.put, hf]
  rw [hpt.1, hpt.2]
  exact h s' f' i' hs' ht'

theorem pt_dropTable (m : Mem) (s : Slot) (f : Frame) :
    (m.dropTable s f).pt = m.pt ∧ (m.dropTable s f).vpteFlags = m.vpteFlags := by
  simp only [Mem.dropTable, freePage]
  split <;> exact ⟨rfl, rfl⟩

theorem Tidy.of_dropTable (hs : Sound root m) (ho : Own root s.2) (ht : tableOf m s = some f)
    (hu : UsedBut root m f) (hf : Formed b root m) : Tidy b root (m.dropTable s f) := by
  refine ⟨hs.dropTable ho ht, ?_, ?_⟩
  · intro s' f' hs' ht'
    obtain ⟨hne, hold⟩ := tableOf_dropTable ht'
    have hff : f' ≠ f := fun he => hne (hs.apart.apart s s' f ho ht (he ▸ hold))
    rw [view_dropTable]
    exact hu s' f' hff hs' hold
  · intro s' f' i hs' ht'
    rw [(pt_dropTable m s f).1, (pt_dropTable m s f).2]
    exact hf s' f' i hs' (tableOf_dropTable ht').2

theorem Tidy.of_put (hs : Sound root (m.put f i flags data n))
    (ho : Own root s.2) (ht : tableOf m s = some f) (hn : n ≠ 0)
    (hu : UsedBut root m f) (hf : Formed b root (m.put f i flags data n)) : Tidy b root (m.put f i flags data n) := by
  refine ⟨hs, ?_, hf⟩
  intro s' f' hs' ht'
  by_cases hff : f' = f
  · subst hff
    have hcnt := hs.count s f' ho ht
    simp only [Mem.put, Mem.setPte_referenceCnt, Mem.setReferenceCnt_referenceCnt, update_self] at hcnt
    intro hz
    exact hn (hcnt.trans (by exact_mod_cast hz))
  · exact hu.put i flags data n s' f' hff hs' ht'

theorem Created.tidy (h : Created root m) : Tidy b root m := by
  refine ⟨h.sound, ?_, ?_⟩
  · intro s f hs ht
    exact absurd (ht.symm.trans (h.tableOf_own hs)) (by simp)
  · intro s f i hs ht
    exact absurd (ht.symm.trans (h.tableOf_own hs)) (by simp)

theorem exists_va (d : Fin 4096) (i : Fin 256) : ∃ va, pdeIdx va = d ∧ pteIdx va = i := by
  refine ⟨BitVec.ofNat 32 (d.val * 0x100000 + i.val * 0x1000), Fin.ext ?_, Fin.ext ?_⟩
  · rw [pdeIdx_val, BitVec.toNat_ofNat]
    omega
  · rw [pteIdx_val, BitVec.toNat_ofNat]
    omega

def Space.ofMem (m : Mem) : Space := fun as p => pmapExtract m as (BitVec.ofNat 32 (p * 0x1000))

theorem shows_ofMem (m : Mem) : Shows m (Space.ofMem m) := by
  intro as va
  have hpage : page (BitVec.ofNat 32 (page va * 0x1000)) = page va := by
    rw [page, page, BitVec.toNat_ofNat]
    omega
  have hsame := same_page.mpr hpage
  rw [Space.ofMem, pmapExtract_eq, pmapExtract_eq, hsame.1, hsame.2]

theorem Created.unmapped (h : Created root m) (ho : Own root (pdeIdx va)) : Space.ofMem m as (page va) = none := by
  rw [← shows_ofMem m as va, pmapExtract_eq]
  exact Table.lookup_of_none (h.tableOf_own ho) _

namespace Tidy

variable (h : Tidy b root m) (ho : Own root (pdeIdx va))
include h

theorem usedBut (f : Frame) : UsedBut root m f := fun s' f' _ => h.used s' f'

theorem newTable (s : Slot) (f : Frame) (rest : List Frame) :
    UsedBut root (m.newTable s f rest) f ∧ Formed b root (m.newTable s f rest) := by
  constructor
  · intro s' f' hne hs' ht'
    rw [view_newTable, Table.population_attach, if_neg hne]
    exact h.used s' f' hs' (tableOf_newTable_of_ne hne ht')
  intro s' f' i hs' ht'
  by_cases hf : f' = f
  · subst hf
    exact fun hv => absurd (entryOf_eq_none.mp (entryOf_newTable m s f' rest i)) hv
  · have hold := h.formed s' f' i hs' (tableOf_newTable_of_ne hf ht')
    simpa [Mem.newTable, initPagetable, hf] using hold

theorem count_pos (ho : Own root s.2) (ht : tableOf m s = some f) : 0 < m.referenceCnt f := by
  have hcnt := h.sound.count s f ho ht
  have hused := h.used s f ho ht
  omega

theorem present {d : Fin 4096} (ho : Own root d) :
    tableOf m (as, d) = none ↔ ∀ va, pdeIdx va = d → pmapExtract m as va = none := by
  constructor
  · rintro hn va rfl
    rw [pmapExtract_eq, Table.lookup_of_none hn]
  intro hall
  cases ht : tableOf m (as, d) with
  | none => rfl
  | some f =>
    refine absurd (Table.population_eq_zero.mpr ?_) (h.used (as, d) f ho ht)
    intro i
    obtain ⟨va, rfl, rfl⟩ := exists_va d i
    have hva := hall va rfl
    rwa [pmapExtract_eq, Table.lookup_of_some ht] at hva

include ho

theorem enter (hva : va ≠ 0) (hpa : pa &&& 0xfff = 0)
    (hno : pmapExtract m as va = none) (he : pmapEnter b m as va pa flags = some (r, m')) :
    Tidy b root m' ∧ Sets m m' as va (some (pa, flags)) := by
  have hdata : (pa ||| pmapCalcPaBits b flags) &&& l2TypeMask ≠ l2TypeInv →
      ∃ pa', pa' &&& 0xfff = 0 ∧ pa ||| pmapCalcPaBits b flags = pa' ||| pmapCalcPaBits b flags :=
    fun _ => ⟨pa, hpa, rfl⟩
  have hval : (if (pa ||| pmapCalcPaBits b flags) &&& l2TypeMask = l2TypeInv then none
      else some ((pa ||| pmapCalcPaBits b flags) &&& l2AddrMask, flags)) = some (pa, flags) := by
    rw [if_neg (pte_valid pa), pte_pa hpa]
  rcases pmapEnter_cases he with ⟨h0, -, -⟩ | ⟨f, -, ht, hne, -, -⟩ | ⟨f, -, ht, hno', -, rfl⟩ |
    ⟨f, rest, -, hn, hq, -, rfl⟩
  · exact absurd h0 hva
  · rw [pmapExtract_eq, Table.lookup_of_some ht] at hno
    exact absurd hno hne
  · have hpos := h.count_pos ho ht
    have hs := h.sound.fill (b := b) ho ht hno' pa flags
    have hf := h.formed.put f (pteIdx va) (m.referenceCnt f + 1) hdata
    refine ⟨Tidy.of_put hs ho ht (by omega) (h.usedBut f) hf, ?_⟩
    exact hval ▸ h.sound.sets_put ho ht flags _ _
  · have ht := tableOf_newTable m (as, pdeIdx va) f rest
    have hnew := h.newTable (as, pdeIdx va) f rest
    have hs := h.sound.newTable_fill (b := b) (s := (as, pdeIdx va)) ho hq (pteIdx va) pa flags
    have hf := hnew.2.put f (pteIdx va) 1 hdata
    refine ⟨Tidy.of_put hs ho ht (by decide) hnew.1 hf, ?_⟩
    have hset := (h.sound.newTable hq (as, pdeIdx va)).sets_put ho ht flags (pa ||| pmapCalcPaBits b flags) 1
    rw [hval] at hset
    intro as' va'
    rw [hset as' va', h.sound.extract_newTable hq hn]

theorem remove (hva : va ≠ 0) (hmap : pmapExtract m as va ≠ none) :
    Tidy b root (pmapRemove m as va).2 ∧ Sets m (pmapRemove m as va).2 as va none := by
  rcases pmapRemove_cases m as va with ⟨-, h0 | hno⟩ | ⟨f, -, ht, hne, he⟩
  · exact absurd h0 hva
  · exact absurd hno hmap
  · have hs := h.sound.clear ho ht hne
    have hf : Formed b root (m.put f (pteIdx va) 0 l2TypeInv (m.referenceCnt f - 1)) :=
      h.formed.put f (pteIdx va) _ (fun hv => absurd l2TypeInv_and_l2TypeMask hv)
    have hset := h.sound.sets_put ho ht 0 l2TypeInv (m.referenceCnt f - 1)
    rw [if_pos l2TypeInv_and_l2TypeMask] at hset
    have hu := (h.usedBut f).put (pteIdx va) 0 l2TypeInv (m.referenceCnt f - 1)
    rw [he]
    split
    · have hcnt : m.referenceCnt f - 1 = (view (m.put f (pteIdx va) 0 l2TypeInv (m.referenceCnt f - 1))).population f := by
        rw [← hs.count (as, pdeIdx va) f ho ht]
        simp [Mem.put]
      refine ⟨Tidy.of_dropTable hs ho ht hu hf, ?_⟩
      intro as' va'
      have hempty : (view (m.put f (pteIdx va) 0 l2TypeInv (m.referenceCnt f - 1))).population f = 0 := by omega
      have ht' : tableOf (m.put f (pteIdx va) 0 l2TypeInv (m.referenceCnt f - 1)) (as, pdeIdx va) = some f := ht
      rw [extract_dropTable ht' hempty, hset as' va']
    · exact ⟨Tidy.of_put hs ho ht ‹_› (h.usedBut f) hf, hset⟩

theorem protect (hva : va ≠ 0) (he : pmapProtect b m as va flags = some m') :
    Tidy b root m' ∧ Sets m m' as va ((pmapExtract m as va).map fun e => (e.1, flags)) := by
  rcases pmapProtect_cases he with ⟨h0, -⟩ | ⟨f, -, ht, hne, rfl⟩
  · exact absurd h0 hva
  have hvalid := mt entryOf_eq_none.mpr hne
  have haligned : (m.pt f (pteIdx va) &&& l2AddrMask) &&& 0xfff = 0 := by
    rw [BitVec.and_assoc]
    exact BitVec.and_zero
  have hs := h.sound.change (b := b) ho ht hne (m.pt f (pteIdx va) &&& l2AddrMask) flags
  have hf : Formed b root (m.put f (pteIdx va) flags ((m.pt f (pteIdx va) &&& l2AddrMask) ||| pmapCalcPaBits b flags)
      (m.referenceCnt f)) := h.formed.put f (pteIdx va) (m.referenceCnt f) (fun _ => ⟨_, haligned, rfl⟩)
  have hpos := h.count_pos ho ht
  refine ⟨Tidy.of_put hs ho ht (by omega) (h.usedBut f) hf, ?_⟩
  have hset := h.sound.sets_put ho ht flags
    ((m.pt f (pteIdx va) &&& l2AddrMask) ||| pmapCalcPaBits b flags) (m.referenceCnt f)
  rw [if_neg (pte_valid _), pte_pa haligned] at hset
  have hold : pmapExtract m as va = some (m.pt f (pteIdx va) &&& l2AddrMask, m.vpteFlags f (pteIdx va)) := by
    rw [pmapExtract_eq, Table.lookup_of_some ht]
    exact if_neg hvalid
  rw [hold]
  exact hset

theorem writable : (∃ e, hardwareEntry m as va = some e ∧ Writable b e) ↔
      ∃ pa flags, pmapExtract m as va = some (pa, flags) ∧ flags &&& b.protWrite ≠ 0 ∧ flags &&& mapCow = 0 := by
  rw [pmapExtract_eq]
  cases ht : tableOf m (as, pdeIdx va) with
  | none => simp [hardwareEntry, ht, Table.lookup_of_none (t := view m) ht]
  | some f =>
    rw [Table.lookup_of_some ht]
    have hhw : hardwareEntry m as va = some (m.pt f (pteIdx va)) := by simp [hardwareEntry, ht]
    by_cases hv : m.pt f (pteIdx va) &&& l2TypeMask = l2TypeInv
    · have hno : (view m).leaf f (pteIdx va) = none := entryOf_eq_none.mpr hv
      simp [hhw, Writable, hv, hno]
    obtain ⟨pa, hpa, hpt⟩ := h.formed (as, pdeIdx va) f (pteIdx va) ho ht hv
    have hleaf : (view m).leaf f (pteIdx va) = some (pa, m.vpteFlags f (pteIdx va)) := by
      have : entryOf m f (pteIdx va) = some (m.pt f (pteIdx va) &&& l2AddrMask, m.vpteFlags f (pteIdx va)) := if_neg hv
      rw [hpt, pte_pa hpa] at this
      exact this
    have hw : Writable b (m.pt f (pteIdx va)) ↔ accessBits b (m.vpteFlags f (pteIdx va)) = b.l2ApRwku := by
      have haccess : m.pt f (pteIdx va) &&& l2ApMask = accessBits b (m.vpteFlags f (pteIdx va)) := by
        rw [hpt, pte_access hpa]
      rw [Writable, haccess]
      exact and_iff_right hv
    simp [hhw, hleaf, hw, accessBits_eq_rwku]

omit ho

protected theorem step (hshow : Shows m σ) (hl : Legal root m op)
    (hs : step b m op = some m') : Tidy b root m' ∧ Shows m' (op.apply σ) := by
  obtain ⟨hva, ho, hop⟩ := hl
  cases op with
  | enter as va pa flags =>
    obtain ⟨r, he⟩ := step_enter hs
    obtain ⟨ht, hset⟩ := h.enter ho hva hop.1 hop.2 he
    exact ⟨ht, hshow.sets hset⟩
  | remove as va =>
    obtain ⟨ht, hset⟩ := h.remove ho hva hop
    cases hs
    exact ⟨ht, hshow.sets hset⟩
  | protect as va flags =>
    obtain ⟨ht, hset⟩ := h.protect ho hva hs
    have hset' : Sets m m' as va ((σ as (page va)).map fun e => (e.1, flags)) := hshow as va ▸ hset
    exact ⟨ht, hshow.sets hset'⟩

theorem run {ops : List Op} (hshow : Shows m σ)
    (hm : Meets (step b) (Legal root) m ops) (he : exec (step b) m ops = some m') :
    Tidy b root m' ∧ Shows m' (ops.foldl Op.apply σ) := by
  induction ops generalizing m σ with
  | nil =>
    cases he
    exact ⟨h, hshow⟩
  | cons op ops ih =>
    cases hs : step b m op with
    | none => simp [exec, hs] at he
    | some m₁ =>
      simp only [Meets, hs] at hm
      simp only [exec, hs] at he
      obtain ⟨h₁, hshow₁⟩ := h.step hshow hm.1 hs
      exact ih h₁ hshow₁ hm.2 he

end Tidy

theorem page_tables_are_a_finite_map {ops : List Op} (h : Created root m)
    (hm : Meets (step b) (Legal root) m ops) (he : exec (step b) m ops = some m') :
    (∀ as va, Own root (pdeIdx va) → Space.ofMem m as (page va) = none) ∧
      IsFiniteMap b root m' (ops.foldl Op.apply (Space.ofMem m)) := by
  obtain ⟨ht, hshow⟩ := (Created.tidy h).run (shows_ofMem m) hm he
  refine ⟨fun as va => h.unmapped, hshow, ?_, ht.sound.count, fun as d ho => ht.present ho⟩
  intro as va ho
  rw [← hshow as va]
  exact ht.writable ho

theorem page_entered_protected_removed :
    ∃ m', exec (step sampleBoard) freshMem
        [.enter 0 0x400010 0x5000 2, .enter 0 0x401000 0x6000 1, .protect 0 0x400000 1, .remove 0 0x401fff] = some m' ∧
      IsFiniteMap sampleBoard emptyRoot m' ([.enter 0 0x400010 0x5000 2, .enter 0 0x401000 0x6000 1,
        .protect 0 0x400000 1, .remove 0 0x401fff].foldl Op.apply (Space.ofMem freshMem)) := by
  obtain ⟨m', he⟩ := Option.isSome_iff_exists.mp (by decide : (exec (step sampleBoard) freshMem
    [.enter 0 0x400010 0x5000 2, .enter 0 0x401000 0x6000 1, .protect 0 0x400000 1, .remove 0 0x401fff]).isSome = true)
  exact ⟨m', he, (page_tables_are_a_finite_map fresh_created (by decide) he).2⟩

-- The root directory's entry for 0x80000000 names a table of the kernel, and every pmap_create copies it.
def kernelMem : Mem :=
  { freshMem with l1Table := fun _ => pmapCreate (update emptyRoot 2048 (0x9000 ||| l1TypeC)) }

theorem page_zero_kept_and_kernel_half_shared :
    (∃ m, pmapEnter sampleBoard freshMem 0 0x10 0x5000 1 = some (.ok (), m) ∧ pmapExtract m 0 0 = some (0x5000, 1) ∧
      (∃ m', pmapProtect sampleBoard m 0 0 2 = some m' ∧ pmapExtract m' 0 0 = some (0x5000, 1)) ∧
      pmapExtract (pmapRemove m 0 0).2 0 0 = some (0x5000, 1)) ∧
    ∃ m, pmapEnter sampleBoard kernelMem 0 0x80000000 0x5000 1 = some (.ok (), m) ∧
      pmapExtract kernelMem 1 0x80000000 = none ∧ pmapExtract m 1 0x80000000 = some (0x5000, 1) :=
  ⟨⟨_, rfl, by decide, ⟨_, rfl, by decide⟩, by decide⟩, _, rfl, by decide, by decide⟩

end

end CheviotKernel.PageTables
