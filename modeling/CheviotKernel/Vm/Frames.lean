import CheviotKernel.Vm.Pmap
import Mathlib.Data.Finset.Prod

namespace CheviotKernel.Vm

inductive Role
  | free
  | kernel
  | device
  | data
  | held (p : Pid)
  | table (p : Pid) (d : Nat)
  deriving DecidableEq

structure Ghost where
  role : Frame → Role
  owners : Frame → Finset (Pid × Va)
  extra : Frame → Int

def Role.owns (m : Memory) (f : Frame) (p : Pid) (v : Va) : Role → Prop
  | .data => ∃ e, m.pte p v = some e ∧ e.pa = f ∧ e.flags.mapPhys = false
  | .table q d => p = q ∧ pdeIdx v = d ∧ m.pte p v ≠ none
  | _ => False

def Role.counted : Role → Bool
  | .free => false
  | .device => false
  | _ => true

def Flags.writable (fl : Flags) : Prop := fl.protWrite = true ∧ fl.mapCow = false

structure Accounted (pages : List Va) (kernel : List Frame) (m : Memory) (g : Ghost) : Prop where
  free_nodup : m.freePageQueue.Nodup
  mem_free : ∀ f, f ∈ m.freePageQueue ↔ g.role f = .free
  kernel_nodup : kernel.Nodup
  mem_kernel : ∀ f, f ∈ kernel ↔ g.role f = .kernel
  table_iff : ∀ p d f, m.l1Table p d = some f ↔ g.role f = .table p d
  owner_iff : ∀ f p v, (p, v) ∈ g.owners f ↔ (g.role f).owns m f p v
  count : ∀ f, (g.role f).counted → m.referenceCnt f = (g.owners f).card + g.extra f
  idle : ∀ f, g.role f ≠ .data → g.extra f = 0
  mapped : ∀ p v e, m.pte p v = some e → v ∈ pages ∧ m.l1Table p (pdeIdx v) ≠ none ∧
    g.role e.pa = if e.flags.mapPhys then .device else .data
  sole : ∀ p v e, m.pte p v = some e → e.flags.mapPhys = false → e.flags.writable →
    g.owners e.pa = {(p, v)}

section Frames

variable {pages : List Va} {kernel kernel' : List Frame} {m m' : Memory} {g g' : Ghost} {f pt k : Frame} {p q : Pid}
  {v va : Va} {e : Pte} {r x : Role} {d : Nat}

@[simps] def Ghost.assign (g : Ghost) (f : Frame) (r : Role) : Ghost :=
  { g with role := fun k => if k = f then r else g.role k }

theorem owns_congr (hpte : m'.pte = m.pte) : x.owns m' k p v ↔ x.owns m k p v := by
  cases x <;> simp only [Role.owns, hpte]

theorem allocPage_eq_some (ha : allocPage m = some (f, m')) :
    ∃ queue, m.freePageQueue = queue ++ [f] ∧
      m' = (({ m with freePageQueue := queue }).setContents f zeroPage).setReferenceCnt f 0 := by
  unfold allocPage at ha
  split at ha
  · cases ha
  rename_i x hx
  obtain ⟨queue, hq⟩ := List.getLast?_eq_some_iff.mp hx
  obtain ⟨rfl, rfl⟩ := ha
  exact ⟨queue, hq, by simp [hq]⟩

structure Allocated (m m' : Memory) (f : Frame) : Prop where
  pte : m'.pte = m.pte
  l1Table : m'.l1Table = m.l1Table
  contents : ∀ k, m'.contents k = if k = f then zeroPage else m.contents k
  referenceCnt : ∀ k, m'.referenceCnt k = if k = f then 0 else m.referenceCnt k

theorem allocPage_allocated (ha : allocPage m = some (f, m')) : Allocated m m' f := by
  obtain ⟨queue, -, rfl⟩ := allocPage_eq_some ha
  exact ⟨rfl, rfl, fun k => rfl, fun k => rfl⟩

theorem allocPage_eq_none : allocPage m = none ↔ m.freePageQueue = [] := by
  rw [← List.getLast?_eq_none_iff]
  unfold allocPage
  split <;> simp_all

theorem freePage_eq (hc : m.referenceCnt f ≤ 1) : freePage m f =
    { m.setReferenceCnt f (m.referenceCnt f - 1) with freePageQueue := m.freePageQueue ++ [f] } := by
  unfold freePage
  rw [if_neg]
  · rfl
  · simp
    omega

def Pte.counts (e : Pte) (k : Frame) : Prop := k = e.pa ∧ e.flags.mapPhys = false
  deriving Decidable

@[simps] def Ghost.enter (g : Ghost) (pt : Frame) (p : Pid) (va : Va) (e : Pte) : Ghost where
  role := g.role
  owners := fun k => if k = pt ∨ e.counts k then insert (p, va) (g.owners k) else g.owners k
  extra := fun k => if e.counts k then g.extra k - 1 else g.extra k

@[simps] def Ghost.leave (g : Ghost) (pt : Frame) (p : Pid) (va : Va) (e : Pte) : Ghost where
  role := g.role
  owners := fun k => if k = pt ∨ e.counts k then (g.owners k).erase (p, va) else g.owners k
  extra := fun k => if e.counts k then g.extra k + 1 else g.extra k

theorem owns_setPte (m : Memory) (k : Frame) (p r : Pid) (va v : Va) (e : Option Pte) (x : Role)
    (hne : (r, v) ≠ (p, va)) : x.owns (m.setPte p va e) k r v ↔ x.owns m k r v := by
  have hc : ¬ (r = p ∧ v = va) := fun hc => hne (by rw [hc.1, hc.2])
  cases x <;> simp [Role.owns, hc]

theorem owns_entry {role : Frame → Role} (hpt : ∀ k, role k = .table p (pdeIdx va) ↔ k = pt) (he : m.pte p va = some e)
    (hrole : role e.pa = if e.flags.mapPhys then .device else .data) (k : Frame) :
    (role k).owns m k p va ↔ k = pt ∨ e.counts k := by
  have hcount (hc : e.counts k) : role k = .data := by
    rw [hc.1, hrole, hc.2]
    rfl
  have htable := hpt k
  cases hk : role k with
  | data =>
    rw [hk] at htable
    have hne : k ≠ pt := fun hc => nomatch htable.mpr hc
    simp only [Role.owns, he, Option.some.injEq, hne, false_or]
    constructor
    · rintro ⟨e', rfl, hpa, hp⟩
      exact ⟨hpa.symm, hp⟩
    · rintro ⟨hpa, hp⟩
      exact ⟨e, rfl, hpa.symm, hp⟩
  | table q d =>
    rw [hk] at htable hcount
    have hnc : ¬ e.counts k := fun hc => nomatch hcount hc
    simp only [Role.owns, he, hnc, or_false, ← htable, Role.table.injEq, ne_eq, reduceCtorEq,
      not_false_eq_true, and_true]
    exact ⟨fun hd => ⟨hd.1.symm, hd.2.symm⟩, fun hd => ⟨hd.1.symm, hd.2.symm⟩⟩
  | _ =>
    rw [hk] at htable hcount
    have hnc : ¬ e.counts k := fun hc => nomatch hcount hc
    have hne : k ≠ pt := fun hc => nomatch htable.mpr hc
    simp [Role.owns, hnc, hne]

theorem not_counts_table
    (hrole : g.role e.pa = if e.flags.mapPhys then .device else .data) (hpt : g.role pt = .table p d) :
    ¬ e.counts pt := by
  rintro ⟨hc, hd⟩
  rw [← hc, hpt, hd] at hrole
  cases hrole

structure Enterable (m : Memory) (g : Ghost) (e : Pte) : Prop where
  role : g.role e.pa = if e.flags.mapPhys then .device else .data
  sole : e.flags.mapPhys = false → e.flags.writable → g.owners e.pa = ∅
  other : ∀ q w e', m.pte q w = some e' → e'.flags.mapPhys = false → e'.flags.writable → ¬ e.counts e'.pa

def Role.plain : Role → Bool
  | .free => false
  | .table _ _ => false
  | _ => true

def Keeps (g g' : Ghost) : Prop :=
  ∀ k, (g.role k).plain ∨ (g'.role k).plain → g'.role k = g.role k

def TablesUsed (m : Memory) : Prop :=
  ∀ p d, m.l1Table p d ≠ none → ∃ v, pdeIdx v = d ∧ m.pte p v ≠ none

structure Removed (m m' : Memory) (g g' : Ghost) (p : Pid) (va : Va) (e : Pte) : Prop where
  pte : m'.pte = (m.setPte p va none).pte
  contents : m'.contents = m.contents
  keeps : Keeps g g'
  owners : ∀ k, (g.role k).plain →
    g'.owners k = if e.counts k then (g.owners k).erase (p, va) else g.owners k
  extra : ∀ k, g'.extra k = if e.counts k then g.extra k + 1 else g.extra k
  referenceCnt : ∀ k, (g.role k).plain → m'.referenceCnt k = m.referenceCnt k
  l1Table : ∀ q d, ¬ (q = p ∧ d = pdeIdx va) → m'.l1Table q d = m.l1Table q d
  table : (m'.l1Table p (pdeIdx va) = none ∧ m'.freePageQueue ≠ []) ∨
    ∃ v, pdeIdx v = pdeIdx va ∧ m'.pte p v ≠ none
  queue : m.freePageQueue ≠ [] → m'.freePageQueue ≠ []

structure Entered (m m' : Memory) (g g' : Ghost) (p : Pid) (va : Va) (e : Pte) : Prop where
  pte : m'.pte = (m.setPte p va (some e)).pte
  contents : ∀ k, (g.role k).plain → m'.contents k = m.contents k
  keeps : Keeps g g'
  owners : ∀ k, (g.role k).plain →
    g'.owners k = if e.counts k then insert (p, va) (g.owners k) else g.owners k
  extra : ∀ k, g'.extra k = if e.counts k then g.extra k - 1 else g.extra k
  referenceCnt : ∀ k, (g.role k).plain → m'.referenceCnt k = m.referenceCnt k
  l1Table : ∀ q d, ¬ (q = p ∧ d = pdeIdx va) → m'.l1Table q d = m.l1Table q d

theorem TablesUsed.setPte {x : Option Pte} (h : TablesUsed m) (hpte : m'.pte = (m.setPte p va x).pte)
    (hl1 : ∀ q d, ¬ (q = p ∧ d = pdeIdx va) → m'.l1Table q d = m.l1Table q d)
    (ht : m'.l1Table p (pdeIdx va) ≠ none → ∃ v, pdeIdx v = pdeIdx va ∧ m'.pte p v ≠ none) : TablesUsed m' := by
  intro q d hl
  by_cases hc : q = p ∧ d = pdeIdx va
  · obtain ⟨rfl, rfl⟩ := hc
    exact ht hl
  rw [hl1 q d hc] at hl
  obtain ⟨v, rfl, hv⟩ := h q d hl
  refine ⟨v, rfl, ?_⟩
  have hne : ¬ (q = p ∧ v = va) := fun he => hc ⟨he.1, by rw [he.2]⟩
  simpa [hpte, hne] using hv

theorem Removed.tablesUsed (hr : Removed m m' g g' p va e) (h : TablesUsed m) : TablesUsed m' :=
  h.setPte hr.pte hr.l1Table fun hl => hr.table.resolve_left fun ht => hl ht.1

theorem Entered.tablesUsed (he : Entered m m' g g' p va e) (h : TablesUsed m) : TablesUsed m' :=
  h.setPte he.pte he.l1Table fun _ => ⟨va, rfl, by simp [he.pte]⟩

section

variable (h : Accounted pages kernel m g) (ht : m.l1Table p (pdeIdx va) = some pt) (hr : g.role f = .held q)
include h

namespace Accounted

theorem owners_eq_empty (hr : ∀ p v, ¬ (g.role f).owns m f p v) : g.owners f = ∅ := by
  refine Finset.eq_empty_of_forall_notMem ?_
  rintro ⟨p, v⟩ hm
  exact hr p v ((h.owner_iff f p v).mp hm)

theorem unmapped (hd : g.role f ≠ .device)
    (hempty : g.owners f = ∅) (he : m.pte p v = some e) : e.pa ≠ f := by
  rintro rfl
  have hrole := (h.mapped p v e he).2.2
  split_ifs at hrole with hp
  · exact hd hrole
  have hmem : (p, v) ∈ g.owners e.pa := by
    rw [h.owner_iff, hrole]
    exact ⟨e, he, rfl, by simpa using hp⟩
  simp [hempty] at hmem

theorem retag (r : Role) (hd : g.role f ≠ .device) (hempty : g.owners f = ∅) (hpte : m'.pte = m.pte)
    (hfree : m'.freePageQueue.Nodup ∧
      ∀ k, k ∈ m'.freePageQueue ↔ if k = f then r = .free else k ∈ m.freePageQueue)
    (hkernel : kernel'.Nodup ∧ ∀ k, k ∈ kernel' ↔ if k = f then r = .kernel else k ∈ kernel)
    (htable : ∀ p d k, m'.l1Table p d = some k ↔ if k = f then r = .table p d else m.l1Table p d = some k)
    (hlive : ∀ p v, m.pte p v ≠ none → m'.l1Table p (pdeIdx v) ≠ none)
    (hcnt : ∀ k, k ≠ f → m'.referenceCnt k = m.referenceCnt k)
    (hcntf : r.counted → m'.referenceCnt f = g.extra f) (hidle : r ≠ .data → g.extra f = 0)
    (hown : ∀ p d v, r = .table p d → pdeIdx v = d → m.pte p v = none) :
    Accounted pages kernel' m' (g.assign f r) := by
  refine ⟨hfree.1, ?_, hkernel.1, ?_, ?_, ?_, ?_, ?_, ?_, ?_⟩
  · intro k
    rw [hfree.2, Ghost.assign_role]
    split_ifs
    · rfl
    · exact h.mem_free k
  · intro k
    rw [hkernel.2, Ghost.assign_role]
    split_ifs
    · rfl
    · exact h.mem_kernel k
  · intro p d k
    rw [htable, Ghost.assign_role]
    split_ifs
    · rfl
    · exact h.table_iff p d k
  · intro k p v
    rw [owns_congr hpte, Ghost.assign_role, Ghost.assign_owners]
    split_ifs with hk
    · subst hk
      simp only [hempty, Finset.notMem_empty, false_iff]
      cases r with
      | data =>
        rintro ⟨e, he, hpa, -⟩
        exact h.unmapped hd hempty he hpa
      | table q d =>
        rintro ⟨rfl, hv, hn⟩
        exact hn (hown p d v rfl hv)
      | _ => exact id
    · exact h.owner_iff k p v
  · intro k hk
    rw [Ghost.assign_role] at hk
    rw [Ghost.assign_owners, Ghost.assign_extra]
    split_ifs at hk with hkf
    · simp [hkf, hempty, hcntf hk]
    · rw [hcnt k hkf, h.count k hk]
  · intro k hk
    rw [Ghost.assign_role] at hk
    split_ifs at hk with hkf
    · rw [hkf]
      exact hidle hk
    · exact h.idle k hk
  · intro p v e he
    rw [hpte] at he
    obtain ⟨hp, -, hrole⟩ := h.mapped p v e he
    exact ⟨hp, hlive p v (by simp [he]), by simp [h.unmapped hd hempty he, hrole]⟩
  · intro p v e he
    rw [hpte] at he
    exact h.sole p v e he

theorem extra_of_owners_empty (hc : (g.role f).counted)
    (hempty : g.owners f = ∅) : m.referenceCnt f = g.extra f := by
  simpa [hempty] using h.count f hc

theorem free_same (hold : g.role f ≠ .free) (hnew : r ≠ .free) :
    m.freePageQueue.Nodup ∧ ∀ k, k ∈ m.freePageQueue ↔ if k = f then r = .free else k ∈ m.freePageQueue := by
  refine ⟨h.free_nodup, fun k => ?_⟩
  by_cases hk : k = f
  · simp [hk, h.mem_free, hold, hnew]
  · simp [hk]

theorem kernel_same (hold : g.role f ≠ .kernel)
    (hnew : r ≠ .kernel) : kernel.Nodup ∧ ∀ k, k ∈ kernel ↔ if k = f then r = .kernel else k ∈ kernel := by
  refine ⟨h.kernel_nodup, fun k => ?_⟩
  by_cases hk : k = f
  · simp [hk, h.mem_kernel, hold, hnew]
  · simp [hk]

theorem table_same (hold : ∀ p d, g.role f ≠ .table p d)
    (hnew : ∀ p d, r ≠ .table p d) (p : Pid) (d : Nat) (k : Frame) :
    m.l1Table p d = some k ↔ if k = f then r = .table p d else m.l1Table p d = some k := by
  by_cases hk : k = f
  · simp [hk, h.table_iff, hold, hnew]
  · simp [hk]

theorem table_of_pte (hv : m.pte p v ≠ none) : m.l1Table p (pdeIdx v) ≠ none := by
  obtain ⟨e, he⟩ := Option.ne_none_iff_exists'.mp hv
  exact (h.mapped p v e he).2.1

theorem pte_of_no_table (ht : m.l1Table p (pdeIdx v) = none) : m.pte p v = none := by
  by_contra hv
  exact h.table_of_pte hv ht

theorem allocPage (p : Pid) (ha : allocPage m = some (f, m')) :
    g.role f = .free ∧ Accounted pages kernel m' (g.assign f (.held p)) := by
  obtain ⟨queue, hq, rfl⟩ := allocPage_eq_some ha
  have hnd := h.free_nodup
  rw [hq, List.nodup_append] at hnd
  have hf : g.role f = .free := (h.mem_free f).mp (by simp [hq])
  have hfq : f ∉ queue := fun hm => hnd.2.2 f hm f (by simp) rfl
  have hempty := h.owners_eq_empty (f := f) (by simp [hf, Role.owns])
  have hidle := h.idle f (by simp [hf])
  refine ⟨hf, h.retag _ (by simp [hf]) hempty rfl ⟨hnd.1, ?_⟩ (h.kernel_same (by simp [hf]) (by simp))
    (h.table_same (by simp [hf]) (by simp)) (fun _ _ => h.table_of_pte) ?_ ?_ ?_ ?_⟩
  · intro k
    by_cases hk : k = f
    · simp [hk, hfq]
    · simp [hk, hq]
  · intro k hk
    simp [hk]
  · simp [hidle]
  · simp [hidle]
  · intro q d v hc
    cases hc

theorem newTable_pte (ht : m.l1Table p d = none) : (m.newTable p d f).pte = m.pte := by
  funext r v
  simp only [Memory.newTable_pte]
  split_ifs with hc
  · rw [hc.1, h.pte_of_no_table (hc.2 ▸ ht)]
  · rfl

theorem free_append (hr : g.role f ≠ .free) : (m.freePageQueue ++ [f]).Nodup ∧
      ∀ k, k ∈ m.freePageQueue ++ [f] ↔ if k = f then Role.free = Role.free else k ∈ m.freePageQueue := by
  have hf : f ∉ m.freePageQueue := fun hm => hr ((h.mem_free f).mp hm)
  refine ⟨List.nodup_append.mpr ⟨h.free_nodup, by simp, ?_⟩, ?_⟩
  · rintro k hk j hj rfl
    rw [List.mem_singleton.mp hj] at hk
    exact hf hk
  · intro k
    by_cases hk : k = f <;> simp [hk]

theorem release (hr : g.role f = .data ∨ g.role f = .held q) (hempty : g.owners f = ∅)
    (hc : m.referenceCnt f = 0) : Accounted pages kernel (freePage m f) (g.assign f .free) := by
  have hrole : (g.role f).counted ∧ g.role f ≠ .device ∧ g.role f ≠ .free ∧ g.role f ≠ .kernel ∧
      ∀ p d, g.role f ≠ .table p d := by
    rcases hr with hr | hr <;> simp [hr, Role.counted]
  obtain ⟨hcounted, hdevice, hfree, hkernel, htable⟩ := hrole
  have hextra := h.extra_of_owners_empty hcounted hempty
  rw [freePage_eq (by omega)]
  refine h.retag _ hdevice hempty rfl (h.free_append hfree) (h.kernel_same hkernel (by simp))
    (h.table_same htable (by simp)) (fun _ _ => h.table_of_pte) ?_ ?_ ?_ ?_
  · intro k hk
    simp [hk]
  · intro hcon
    cases hcon
  · exact fun _ => hextra.symm.trans hc
  · intro p d v hcon
    cases hcon

theorem dropTable (ht : m.l1Table p d = some f) (hempty : g.owners f = ∅) (hc : m.referenceCnt f = 0) :
    Accounted pages kernel (freePage (m.setL1 p d none) f) (g.assign f .free) := by
  have hr := (h.table_iff p d f).mp ht
  have hextra := h.extra_of_owners_empty (by simp [hr, Role.counted]) hempty
  rw [freePage_eq (by simp [hc])]
  refine h.retag _ (by simp [hr]) hempty rfl (h.free_append (by simp [hr]))
    (h.kernel_same (by simp [hr]) (by simp)) ?_ ?_ ?_ ?_ ?_ ?_
  · intro q c k
    simp only [Memory.setReferenceCnt_l1Table, Memory.setL1_l1Table]
    by_cases hk : k = f
    · subst hk
      rw [if_pos rfl]
      split_ifs with hqc
      · simp
      · rw [h.table_iff, hr]
        simpa [eq_comm] using hqc
    · split_ifs with hqc
      · rw [hqc.1, hqc.2, ht]
        simpa [eq_comm] using hk
      · rfl
  · intro q v hv
    simp only [Memory.setReferenceCnt_l1Table, Memory.setL1_l1Table]
    split_ifs with hqc
    · have hmem : (q, v) ∈ g.owners f := by
        rw [h.owner_iff, hr]
        exact ⟨hqc.1, hqc.2, hv⟩
      simp [hempty] at hmem
    · exact h.table_of_pte hv
  · intro k hk
    simp [hk]
  · intro hcon
    cases hcon
  · exact fun _ => hextra.symm.trans hc
  · intro q c v hcon
    cases hcon

theorem free_kernel (hf : f ∈ kernel) :
    Accounted pages (kernel.erase f) (freePage m f) (g.assign f .free) := by
  have hr := (h.mem_kernel f).mp hf
  have hempty := h.owners_eq_empty (f := f) (by simp [hr, Role.owns])
  have hidle := h.idle f (by simp [hr])
  have hcount := h.extra_of_owners_empty (by simp [hr, Role.counted]) hempty
  rw [freePage_eq (by omega)]
  refine h.retag _ (by simp [hr]) hempty rfl (h.free_append (by simp [hr])) ⟨h.kernel_nodup.erase f, ?_⟩
    (h.table_same (by simp [hr]) (by simp)) (fun _ _ => h.table_of_pte) ?_ ?_ ?_ ?_
  · intro k
    by_cases hk : k = f
    · simp [h.kernel_nodup.mem_erase_iff]
    · simp [h.kernel_nodup.mem_erase_iff]
  · intro k hk
    simp [hk]
  · intro hcon
    cases hcon
  · exact fun _ => hidle
  · intro p d v hcon
    cases hcon

theorem setReferenceCnt (hr : g.role f = .data) (n : Int) :
    Accounted pages kernel (m.setReferenceCnt f n)
      { g with extra := fun k => if k = f then n - (g.owners f).card else g.extra k } := by
  refine { h with owner_iff := ?_, count := ?_, idle := ?_ }
  · intro k p v
    exact (h.owner_iff k p v).trans (owns_congr rfl).symm
  · intro k hk
    by_cases hkf : k = f
    · simp [hkf]
    · simpa [hkf] using h.count k hk
  · intro k hk
    have hkf : k ≠ f := by
      rintro rfl
      exact hk hr
    simpa [hkf] using h.idle k hk

theorem setContents (c : Content) : Accounted pages kernel (m.setContents f c) g := by
  refine { h with owner_iff := ?_ }
  intro k p v
  exact (h.owner_iff k p v).trans (owns_congr rfl).symm

theorem protect {fl : Flags}
    (he : m.pte p va = some e) (hphys : fl.mapPhys = e.flags.mapPhys) (hcow : fl.mapCow = true) :
    Accounted pages kernel (m.setPte p va (some ⟨e.pa, fl⟩)) g := by
  have howns (k : Frame) (r : Pid) (v : Va) (x : Role) :
      x.owns (m.setPte p va (some ⟨e.pa, fl⟩)) k r v ↔ x.owns m k r v := by
    by_cases hrv : r = p ∧ v = va
    · obtain ⟨rfl, rfl⟩ := hrv
      cases x <;> simp [Role.owns, he, hphys]
    · cases x <;> simp [Role.owns, hrv]
  refine { h with owner_iff := ?_, mapped := ?_, sole := ?_ }
  · intro k r v
    rw [howns, h.owner_iff]
  · intro r v e' he'
    by_cases hrv : r = p ∧ v = va
    · obtain ⟨rfl, rfl⟩ := hrv
      obtain rfl : ⟨e.pa, fl⟩ = e' := by simpa using he'
      simpa [hphys] using h.mapped r v e he
    · exact h.mapped r v e' (by simpa [hrv] using he')
  · intro r v e' he' hp hw
    by_cases hrv : r = p ∧ v = va
    · obtain ⟨rfl, rfl⟩ := hrv
      obtain rfl : ⟨e.pa, fl⟩ = e' := by simpa using he'
      simp [Flags.writable, hcow] at hw
    · exact h.sole r v e' (by simpa [hrv] using he') hp hw

theorem table_unique (ht : m.l1Table p d = some pt) (k : Frame) : g.role k = .table p d ↔ k = pt := by
  rw [← h.table_iff, ht, Option.some.injEq, eq_comm]

theorem pmapExtract (p : Pid) (va : Va) : pmapExtract m p va = m.pte p va := by
  unfold Vm.pmapExtract
  cases ht : m.l1Table p (pdeIdx va) with
  | none => exact (h.pte_of_no_table ht).symm
  | some pt => rfl

end Accounted

include hr

theorem Accounted.newTable (ht : m.l1Table p d = none) :
    Accounted pages kernel (m.newTable p d f) (g.assign f (.table p d)) := by
  have hempty := h.owners_eq_empty (f := f) (by simp [hr, Role.owns])
  have hcount := h.extra_of_owners_empty (by simp [hr, Role.counted]) hempty
  refine h.retag _ (by simp [hr]) hempty (h.newTable_pte ht) (h.free_same (by simp [hr]) (by simp))
    (h.kernel_same (by simp [hr]) (by simp)) ?_ ?_ ?_ ?_ ?_ ?_
  · intro r c k
    simp only [Memory.newTable_l1Table, Memory.setL1_l1Table]
    by_cases hc : r = p ∧ c = d
    · obtain ⟨rfl, rfl⟩ := hc
      by_cases hk : k = f
      · simp [hk]
      · simp [hk, Ne.symm hk, ht]
    · rw [if_neg hc, h.table_iff]
      by_cases hk : k = f
      · subst hk
        simp only [hr, Role.table.injEq, reduceCtorEq, false_iff]
        exact fun hd => hc ⟨hd.1.symm, hd.2.symm⟩
      · simp [hk]
  · intro r v hv
    simp only [Memory.newTable_l1Table, Memory.setL1_l1Table]
    split_ifs
    · simp
    · exact h.table_of_pte hv
  · intro k _
    rfl
  · exact fun _ => hcount
  · exact fun _ => h.idle f (by simp [hr])
  · rintro r c v hc hv
    obtain ⟨rfl, rfl⟩ : p = r ∧ d = c := by simpa using hc
    exact h.pte_of_no_table (hv ▸ ht)

theorem Accounted.data_of_held : Accounted pages kernel m (g.assign f .data) := by
  have hempty := h.owners_eq_empty (f := f) (by simp [hr, Role.owns])
  have hcount := h.extra_of_owners_empty (by simp [hr, Role.counted]) hempty
  refine h.retag _ (by simp [hr]) hempty rfl (h.free_same (by simp [hr]) (by simp))
    (h.kernel_same (by simp [hr]) (by simp)) (h.table_same (by simp [hr]) (by simp)) (fun _ _ => h.table_of_pte) ?_ ?_ ?_ ?_
  · intro k _
    rfl
  · exact fun _ => hcount
  · exact fun hc => absurd rfl hc
  · intro p d v hc
    cases hc

theorem Accounted.kernel_of_held : Accounted pages (f :: kernel) m (g.assign f .kernel) := by
  have hempty := h.owners_eq_empty (f := f) (by simp [hr, Role.owns])
  have hcount := h.extra_of_owners_empty (by simp [hr, Role.counted]) hempty
  have hnew : f ∉ kernel := fun hm => by simp [(h.mem_kernel f).mp hm] at hr
  refine h.retag _ (by simp [hr]) hempty rfl (h.free_same (by simp [hr]) (by simp))
    ⟨List.nodup_cons.mpr ⟨hnew, h.kernel_nodup⟩, ?_⟩ (h.table_same (by simp [hr]) (by simp)) (fun _ _ => h.table_of_pte)
    ?_ ?_ ?_ ?_
  · intro k
    by_cases hk : k = f <;> simp [hk]
  · intro k _
    rfl
  · exact fun _ => hcount
  · exact fun _ => h.idle f (by simp [hr])
  · intro p d v hc
    cases hc

omit hr

include ht

theorem Accounted.enter (hn : m.pte p va = none) (hv : va ∈ pages) (hfit : Enterable m g e) :
    Accounted pages kernel ((m.setPte p va (some e)).setReferenceCnt pt (m.referenceCnt pt + 1))
      (g.enter pt p va e) := by
  have hpt := h.table_unique ht
  have hptrole : g.role pt = .table p (pdeIdx va) := (hpt pt).mpr rfl
  have hfresh (k : Frame) : (p, va) ∉ g.owners k := by
    rw [h.owner_iff]
    cases hk : g.role k <;> simp [Role.owns, hn]
  have hrole := hfit.role
  have hptc := not_counts_table hrole hptrole
  refine { h with owner_iff := ?_, count := ?_, idle := ?_, mapped := ?_, sole := ?_ }
  · intro k r v
    refine Iff.trans ?_ (owns_congr (m := m.setPte p va (some e)) rfl).symm
    by_cases hrv : (r, v) = (p, va)
    · obtain ⟨rfl, rfl⟩ : r = p ∧ v = va := by simpa using hrv
      have hnew : (m.setPte r v (some e)).pte r v = some e := by simp
      rw [Ghost.enter_role, owns_entry hpt hnew hrole, Ghost.enter_owners]
      split_ifs with hc
      · simp [hc]
      · simp [hc, hfresh]
    · rw [owns_setPte _ _ _ _ _ _ _ _ hrv, Ghost.enter_role, ← h.owner_iff, Ghost.enter_owners]
      split_ifs <;> simp_all
  · intro k hk
    have hcount := h.count k hk
    have hcard := Finset.card_insert_of_notMem (hfresh k)
    by_cases hkp : k = pt
    · subst hkp
      simp [hptc]
      omega
    · by_cases hkc : e.counts k
      · simp [hkp, hkc, hcard, hcount]
      · simp [hkp, hkc, hcount]
  · intro k hk
    have hkc : ¬ e.counts k := by
      rintro ⟨rfl, hd⟩
      simp [hrole, hd] at hk
    simpa [hkc] using h.idle k hk
  · intro r v e' he'
    by_cases hrv : r = p ∧ v = va
    · obtain ⟨rfl, rfl⟩ := hrv
      obtain rfl : e = e' := by simpa using he'
      exact ⟨hv, by simp [ht], hrole⟩
    · exact h.mapped r v e' (by simpa [hrv] using he')
  · intro r v e' he' hp hw
    by_cases hrv : r = p ∧ v = va
    · obtain ⟨rfl, rfl⟩ := hrv
      obtain rfl : e = e' := by simpa using he'
      simp [Pte.counts, hp, hfit.sole hp hw]
    have he : m.pte r v = some e' := by simpa [hrv] using he'
    have hdata : g.role e'.pa = .data := by simpa [hp] using (h.mapped r v e' he).2.2
    have hne : e'.pa ≠ pt := fun hc => by rw [hc, hptrole] at hdata; cases hdata
    simp [hne, hfit.other r v e' he hp hw, h.sole r v e' he hp hw]

theorem Accounted.leave (he : m.pte p va = some e) :
    Accounted pages kernel ((m.setPte p va none).setReferenceCnt pt (m.referenceCnt pt - 1))
      (g.leave pt p va e) := by
  have hpt := h.table_unique ht
  have hptrole : g.role pt = .table p (pdeIdx va) := (hpt pt).mpr rfl
  have hrole := (h.mapped p va e he).2.2
  have howner (k : Frame) : (p, va) ∈ g.owners k ↔ k = pt ∨ e.counts k := by
    rw [h.owner_iff, owns_entry hpt he hrole]
  have hptc := not_counts_table hrole hptrole
  refine { h with owner_iff := ?_, count := ?_, idle := ?_, mapped := ?_, sole := ?_ }
  · intro k r v
    refine Iff.trans ?_ (owns_congr (m := m.setPte p va none) rfl).symm
    by_cases hrv : (r, v) = (p, va)
    · obtain ⟨rfl, rfl⟩ : r = p ∧ v = va := by simpa using hrv
      have hnone : ¬ (g.role k).owns (m.setPte r v none) k r v := by
        cases g.role k <;> simp [Role.owns]
      simp only [Ghost.leave_role, Ghost.leave_owners, hnone, iff_false]
      split_ifs with hc
      · simp
      · rwa [howner]
    · rw [owns_setPte _ _ _ _ _ _ _ _ hrv, Ghost.leave_role, ← h.owner_iff, Ghost.leave_owners]
      split_ifs
      · rw [Finset.mem_erase]
        exact and_iff_right hrv
      · rfl
  · intro k hk
    have hcount := h.count k hk
    by_cases hko : k = pt ∨ e.counts k
    · have hcard := Finset.card_erase_add_one ((howner k).mpr hko)
      by_cases hkp : k = pt
      · subst hkp
        simp [hptc]
        omega
      · have hkc := hko.resolve_left hkp
        simp [hkp, hkc]
        omega
    · have hkp : k ≠ pt := fun hc => hko (.inl hc)
      have hkc : ¬ e.counts k := fun hc => hko (.inr hc)
      simp [hkp, hkc, hcount]
  · intro k hk
    have hkc : ¬ e.counts k := by
      rintro ⟨rfl, hd⟩
      simp [hrole, hd] at hk
    simpa [hkc] using h.idle k hk
  · intro r v e' he'
    by_cases hrv : r = p ∧ v = va
    · simp [hrv] at he'
    · exact h.mapped r v e' (by simpa [hrv] using he')
  · intro r v e' he' hp hw
    have hrv : ¬ (r = p ∧ v = va) := by
      intro hc
      simp [hc] at he'
    have heq : m.pte r v = some e' := by simpa [hrv] using he'
    have hsole := h.sole r v e' heq hp hw
    have hnot : ¬ (e'.pa = pt ∨ e.counts e'.pa) := by
      rw [← howner, hsole]
      simpa [eq_comm] using hrv
    simp [hnot, hsole]

theorem enterPte_spec (hv : va ∈ pages) (hn : m.pte p va = none) (hfit : Enterable m g e) :
    ∃ m' g', enterPte m p va e pt = .ok m' ∧ Accounted pages kernel m' g' ∧ Entered m m' g g' p va e := by
  have hpt := (h.table_iff _ _ _).mp ht
  have hplain (k : Frame) (hk : (g.role k).plain) : k ≠ pt := by
    rintro rfl
    simp [hpt, Role.plain] at hk
  refine ⟨_, _, ?_, h.enter ht hn hv hfit, ?_⟩
  · simp [enterPte, hn]
  refine ⟨rfl, fun k _ => rfl, fun k _ => rfl, ?_, fun k => rfl, ?_, fun q d _ => rfl⟩
  · intro k hk
    simp [hplain k hk]
  · intro k hk
    simp [hplain k hk]

omit ht

theorem pmapRemove_spec (hz : 0 ∉ pages) (he : m.pte p va = some e) :
    ∃ m' g', pmapRemove m p va = some m' ∧ Accounted pages kernel m' g' ∧ Removed m m' g g' p va e := by
  obtain ⟨hv, hl, hrole⟩ := h.mapped p va e he
  have hva : va ≠ 0 := fun hc => hz (hc ▸ hv)
  obtain ⟨pt, ht⟩ := Option.ne_none_iff_exists'.mp hl
  have hpt := (h.table_iff _ _ _).mp ht
  have hleft := h.leave ht he
  have hplain (k : Frame) (hk : (g.role k).plain) : k ≠ pt := by
    rintro rfl
    simp [hpt, Role.plain] at hk
  have hcount := hleft.count pt (by simp [hpt, Role.counted])
  have hidle := hleft.idle pt (by simp [hpt])
  simp only [Memory.setReferenceCnt_referenceCnt, if_true] at hcount
  by_cases hlast : m.referenceCnt pt - 1 = 0
  · have hempty : (g.leave pt p va e).owners pt = ∅ := Finset.card_eq_zero.mp (by omega)
    have hdrop := hleft.dropTable ht hempty (by simpa using hlast)
    refine ⟨_, _, ?_, hdrop, ?_⟩
    · simp [pmapRemove, hva, ht, he, hlast]
    rw [freePage_eq (by simp [hlast])]
    refine ⟨rfl, rfl, ?_, ?_, ?_, ?_, ?_, .inl ⟨by simp, by simp⟩, fun _ => by simp⟩
    · intro k hk
      have hkp : k ≠ pt := by
        rintro rfl
        simp [hpt, Role.plain] at hk
      simp [hkp]
    · intro k hk
      simp [hplain k hk]
    · intro k
      rfl
    · intro k hk
      simp [hplain k hk]
    · intro q d hqd
      simp [hqd]
  · obtain ⟨⟨q, v⟩, hqv⟩ : ((g.leave pt p va e).owners pt).Nonempty := by
      rw [← Finset.card_pos]
      omega
    rw [hleft.owner_iff, Ghost.leave_role, hpt] at hqv
    obtain ⟨rfl, hv', hn⟩ := hqv
    refine ⟨_, _, ?_, hleft, ?_⟩
    · simp [pmapRemove, hva, ht, he, hlast]
    refine ⟨rfl, rfl, fun k _ => rfl, ?_, fun k => rfl, ?_, fun q d _ => rfl, .inr ⟨v, hv', hn⟩, id⟩
    · intro k hk
      simp [hplain k hk]
    · intro k hk
      simp [hplain k hk]

theorem pmapEnter_spec (hz : 0 ∉ pages) (hv : va ∈ pages) (hn : m.pte p va = none) (hfit : Enterable m g e) :
    (pmapEnter m p va e = .sleep ∧ m.freePageQueue = [] ∧ m.l1Table p (pdeIdx va) = none) ∨
      ∃ m' g', pmapEnter m p va e = .ok m' ∧ Accounted pages kernel m' g' ∧ Entered m m' g g' p va e := by
  have hva : va ≠ 0 := fun hc => hz (hc ▸ hv)
  cases ht : m.l1Table p (pdeIdx va) with
  | some pt =>
    obtain ⟨m', g', hok, h', he⟩ := enterPte_spec h ht hv hn hfit
    refine .inr ⟨m', g', ?_, h', he⟩
    simpa [pmapEnter, hva, ht] using hok
  | none =>
    cases ha : allocPage m with
    | none =>
      refine .inl ⟨?_, allocPage_eq_none.mp ha, rfl⟩
      simp [pmapEnter, hva, ht, ha]
    | some r =>
      obtain ⟨pt, m₁⟩ := r
      obtain ⟨hfree, h₁⟩ := h.allocPage p ha
      have hal := allocPage_allocated ha
      have ht₁ : m₁.l1Table p (pdeIdx va) = none := by rw [hal.l1Table, ht]
      have h₂ := h₁.newTable (f := pt) (q := p) (by simp) ht₁
      have hpte : (m₁.newTable p (pdeIdx va) pt).pte = m.pte := (h₁.newTable_pte ht₁).trans hal.pte
      have hplain (k : Frame) (hk : (g.role k).plain) : k ≠ pt := by
        rintro rfl
        simp [hfree, Role.plain] at hk
      have hpa : e.pa ≠ pt := hplain e.pa (by rw [hfit.role]; split_ifs <;> rfl)
      have ht₂ : (m₁.newTable p (pdeIdx va) pt).l1Table p (pdeIdx va) = some pt := by simp
      obtain ⟨m', g', hok, h', he⟩ := enterPte_spec (e := e) h₂ ht₂ hv (by rw [hpte, hn])
        ⟨by simpa [hpa] using hfit.role, by simpa using hfit.sole, by rw [hpte]; exact hfit.other⟩
      refine .inr ⟨m', g', ?_, h', ?_⟩
      · simpa [pmapEnter, hva, ht, ha] using hok
      refine ⟨?_, ?_, ?_, ?_, he.extra, ?_, ?_⟩
      · rw [he.pte]
        funext q w
        simp only [Memory.setPte_pte, hpte]
      · intro k hk
        rw [he.contents k (by simpa [hplain k hk] using hk)]
        exact (hal.contents k).trans (if_neg (hplain k hk))
      · intro k hk
        by_cases hkp : k = pt
        · subst hkp
          rcases hk with hk | hk
          · simp [hfree, Role.plain] at hk
          · rw [he.keeps k (.inr hk)] at hk
            simp [Role.plain] at hk
        · simpa [hkp] using he.keeps k (by simpa [hkp] using hk)
      · intro k hk
        simpa using he.owners k (by simpa [hplain k hk] using hk)
      · intro k hk
        rw [he.referenceCnt k (by simpa [hplain k hk] using hk)]
        simp [hal.referenceCnt, hplain k hk]
      · intro q d hqd
        rw [he.l1Table q d hqd]
        simp [hqd, hal.l1Table]

end

end Frames

end CheviotKernel.Vm
