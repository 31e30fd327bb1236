import CheviotKernel.Library.Runs
import CheviotKernel.Vm.AddressSpace
import CheviotKernel.Vm.Frames

namespace CheviotKernel.Vm

open Runs CheviotKernel.Lists

section

variable {l : Layout} {kernel kernel' : List Frame} {m m' m'' m₁ m₂ : Memory} {g g' g'' g₁ g₂ : Ghost} {p q c : Pid}
  {va w v : Va} {T U : Pid → Va → Prop} {e e' : Pte} {k : Entry} {f : Frame} {flags : Flags} {done rest : List Va}
  {track : Prop} {s t : State} {ph : Phase} {o : Outcome} {off : Nat} {b : UInt8}

structure Rest (l : Layout) (kernel : List Frame) (m : Memory) (g : Ghost) : Prop where
  acc : Accounted l.pages kernel m g
  settled : ∀ k, g.extra k = 0
  used : TablesUsed m
  device : ∀ k, l.maxPage ≤ k → g.role k = .device

structure Effect (T : Pid → Va → Prop) (m m' : Memory) (g g' : Ghost) : Prop where
  pte : ∀ q w, ¬ T q w → m'.pte q w = m.pte q w
  contents : ∀ q w e, ¬ T q w → m.pte q w = some e → e.flags.mapPhys = false →
    m'.contents e.pa = m.contents e.pa
  held : ∀ k q, (∀ w, ¬ T q w) → g.role k = .held q → g'.role k = .held q ∧ m'.contents k = m.contents k
  device : ∀ k, g.role k = .device → g'.role k = .device

theorem Effect.refl (T : Pid → Va → Prop) (m : Memory) (g : Ghost) : Effect T m m g g :=
  ⟨fun _ _ _ => rfl, fun _ _ _ _ _ _ => rfl, fun _ _ _ h => ⟨h, rfl⟩, fun _ h => h⟩

theorem Effect.trans (h : Effect T m m' g g') (h' : Effect T m' m'' g' g'') : Effect T m m'' g g'' := by
  refine ⟨?_, ?_, ?_, ?_⟩
  · intro q w hT
    rw [h'.pte q w hT, h.pte q w hT]
  · intro q w e hT he hp
    rw [h'.contents q w e hT (by rw [h.pte q w hT, he]) hp, h.contents q w e hT he hp]
  · intro k q hT hk
    obtain ⟨hr, hc⟩ := h.held k q hT hk
    obtain ⟨hr', hc'⟩ := h'.held k q hT hr
    exact ⟨hr', hc'.trans hc⟩
  · intro k hk
    exact h'.device k (h.device k hk)

def page (p : Pid) (va : Va) (q : Pid) (w : Va) : Prop := q = p ∧ w = va

inductive Brings (l : Layout) (kernel : List Frame) (m : Memory) (g : Ghost) (p : Pid) (va : Va) (k : Entry)
    (flags : Flags) (c : Content) : Outcome → Prop
  | sleeps {m' : Memory} {g' : Ghost} {f : Frame} (h : Rest l kernel m' g') (he : Effect (page p va) m m' g g')
      (hn : m'.pte p va = none) (hf : g'.role f = .held p) (hc : m'.contents f = c) :
      Brings l kernel m g p va k flags c (.asleepEnter m' k ⟨f, flags⟩)
  | done {m' : Memory} {g' : Ghost} {f : Frame} (h : Rest l kernel m' g') (he : Effect (page p va) m m' g g')
      (hm : m'.pte p va = some ⟨f, flags⟩) (hc : m'.contents f = c) :
      Brings l kernel m g p va k flags c (.ret m' true)

theorem Brings.mono {c : Content} (he : Effect (page p va) m m' g g')
    (h : Brings l kernel m' g' p va k flags c o) : Brings l kernel m g p va k flags c o := by
  cases h with
  | sleeps h he' hn hf hc => exact .sleeps h (he.trans he') hn hf hc
  | done h he' hm hc => exact .done h (he.trans he') hm hc

theorem Keeps.role {r : Role} (h : Keeps g g') (hf : g.role f = r) (hr : r.plain) : g'.role f = r :=
  (h f (.inl (hf ▸ hr))).trans hf

theorem pte_off {x : Option Pte} (h : m'.pte = (m.setPte p va x).pte) (q : Pid) (w : Va) (hT : ¬ page p va q w) :
    m'.pte q w = m.pte q w := by
  have hne : ¬ (q = p ∧ w = va) := hT
  simp [h, hne]

section

variable (h : Rest l kernel m g)
include h

theorem Rest.role_of_mapped (he : m.pte q w = some e) (hp : e.flags.mapPhys = false) : g.role e.pa = .data := by
  simpa [hp] using (h.acc.mapped q w e he).2.2

theorem effect_of_keeps (hpte : ∀ q w, ¬ T q w → m'.pte q w = m.pte q w)
    (hc : ∀ k, (g.role k).plain → m'.contents k = m.contents k)
    (hk : ∀ k, (g.role k).plain → (∀ q, g.role k = .held q → ∀ w, ¬ T q w) → g'.role k = g.role k) :
    Effect T m m' g g' := by
  refine ⟨hpte, ?_, ?_, ?_⟩
  · intro q w e _ he hp
    exact hc _ (by simp [h.role_of_mapped he hp, Role.plain])
  · intro k q hT hr
    have hplain : (g.role k).plain := by simp [hr, Role.plain]
    exact ⟨by rw [hk k hplain (by simpa [hr] using hT), hr], hc k hplain⟩
  · intro k hr
    rw [hk k (by simp [hr, Role.plain]) (by simp [hr]), hr]

theorem enterPage_held (hv : va ∈ l.pages) (hn : m.pte p va = none)
    (hp : e.flags.mapPhys = false) (hheld : g.role e.pa = .held p) (hk : k = .faultCopy ∨ k = .mmap) :
    enterPage m p va k e = .asleepEnter m k e ∨
      ∃ m' g', enterPage m p va k e = .ret m' true ∧ Rest l kernel m' g' ∧ Effect (page p va) m m' g g' ∧
        m'.pte p va = some e ∧ m'.contents e.pa = m.contents e.pa := by
  have hacc := h.acc.data_of_held hheld
  have hempty := h.acc.owners_eq_empty (f := e.pa) (by simp [hheld, Role.owns])
  rcases pmapEnter_spec hacc l.zero_notMem hv hn ⟨by simp [hp], fun _ _ => hempty, by
      intro q w e' he' hp' _ hc
      exact h.acc.unmapped (by simp [hheld]) hempty he' hc.1⟩ with hsleep | ⟨m₁, g₁, hok, h₁, he⟩
  · exact .inl (by simp [enterPage, hsleep.1])
  have hdata : g₁.role e.pa = .data := he.keeps.role (by simp) rfl
  have howner : g₁.owners e.pa = {(p, va)} := by
    rw [he.owners e.pa (by simp [Role.plain])]
    simp [Pte.counts, hp, hempty]
  have hone : entered m₁ e.pa k = m₁.setReferenceCnt e.pa 1 := by
    rcases hk with rfl | rfl
    · have hcount := h₁.count e.pa (by simp [hdata, Role.counted])
      have hextra := he.extra e.pa
      simp only [Ghost.assign_extra, h.settled, Pte.counts, hp] at hextra
      rw [howner, hextra] at hcount
      simp [entered, hcount]
    · rfl
  refine .inr ⟨_, _, ?_, ⟨h₁.setReferenceCnt hdata 1, ?_, he.tablesUsed h.used, ?_⟩, ?_, ?_, ?_⟩
  · simp [enterPage, hok, hone]
  · intro j
    by_cases hj : j = e.pa
    · simp [hj, howner]
    · have hextra := he.extra j
      simpa [Pte.counts, hj, h.settled] using hextra
  · intro j hj
    have hd := h.device j hj
    have hne : j ≠ e.pa := by
      rintro rfl
      simp [hheld] at hd
    have hrole := he.keeps j (by simp [hne, hd, Role.plain])
    simpa [hne, hd] using hrole
  · refine effect_of_keeps h (pte_off he.pte) ?_ ?_
    · intro j hj
      by_cases hje : j = e.pa
      · subst hje
        exact he.contents e.pa (by simp [Role.plain])
      · simpa using he.contents j (by simpa [hje] using hj)
    · intro j hj hjp
      have hne : j ≠ e.pa := by
        rintro rfl
        exact hjp p hheld va ⟨rfl, rfl⟩
      simpa [hne] using he.keeps j (by simp [hne, hj])
  · simp [he.pte]
  · exact he.contents e.pa (by simp [Role.plain])

theorem enterPage_phys (hv : va ∈ l.pages) (hn : m.pte p va = none)
    (hp : e.flags.mapPhys = true) (hdev : g.role e.pa = .device) :
    enterPage m p va .mmapPhys e = .asleepEnter m .mmapPhys e ∨
      ∃ m' g', enterPage m p va .mmapPhys e = .ret m' true ∧ Rest l kernel m' g' ∧
        Effect (page p va) m m' g g' ∧ m'.pte p va = some e := by
  have hnc (k : Frame) : ¬ e.counts k := fun hc => absurd hp (by simp [hc.2])
  rcases pmapEnter_spec (e := e) h.acc l.zero_notMem hv hn ⟨by simp [hp, hdev], by simp [hp], by
      intro q w e' he' hp' _
      exact hnc _⟩ with hsleep | ⟨m₁, g₁, hok, h₁, he⟩
  · exact .inl (by simp [enterPage, hsleep.1])
  refine .inr ⟨m₁, g₁, by simp [enterPage, hok, entered], ⟨h₁, ?_, he.tablesUsed h.used, ?_⟩, ?_, by simp [he.pte]⟩
  · intro j
    rw [he.extra j, if_neg (hnc j), h.settled]
  · exact fun j hj => he.keeps.role (h.device j hj) rfl
  · exact effect_of_keeps h (pte_off he.pte) he.contents fun j hj _ => he.keeps j (.inl hj)

theorem alloc_held (p : Pid) (va : Va) (ha : allocPage m = some (f, m')) :
    Rest l kernel m' (g.assign f (.held p)) ∧ Effect (page p va) m m' g (g.assign f (.held p)) ∧
      g.role f = .free := by
  obtain ⟨hfree, h'⟩ := h.acc.allocPage p ha
  have hal := allocPage_allocated ha
  have hne (k : Frame) (hk : (g.role k).plain) : k ≠ f := by
    rintro rfl
    simp [hfree, Role.plain] at hk
  refine ⟨⟨h', h.settled, ?_, ?_⟩, effect_of_keeps h ?_ ?_ ?_, hfree⟩
  · intro q d
    rw [hal.l1Table, hal.pte]
    exact h.used q d
  · intro k hk
    have hd := h.device k hk
    simp [hne k (by simp [hd, Role.plain]), hd]
  · intro q w _
    rw [hal.pte]
  · intro k hk
    rw [hal.contents, if_neg (hne k hk)]
  · intro k hk _
    simp [hne k hk]

theorem Rest.setContents_held (hf : g.role f = .held p) (va : Va)
    (c : Content) : Rest l kernel (m.setContents f c) g ∧ Effect (page p va) m (m.setContents f c) g g := by
  have hne {k : Frame} {r : Role} (hr : g.role k = r) (hrp : r ≠ .held p) : k ≠ f := by
    rintro rfl
    exact hrp (hr.symm.trans hf)
  refine ⟨{ h with acc := h.acc.setContents c }, fun _ _ _ => rfl, ?_, ?_, fun _ hk => hk⟩
  · intro q w e _ he hp
    simp [hne (h.role_of_mapped he hp) (by simp)]
  intro k q hT hk
  have hqp : q ≠ p := fun hq => hT va ⟨hq, rfl⟩
  refine ⟨hk, ?_⟩
  simp [hne hk (by simpa using hqp)]

end

section

variable (h : Rest l kernel m g)
include h

theorem enterPage_brings (hv : va ∈ l.pages) (hn : m.pte p va = none)
    (hp : flags.mapPhys = false) (hf : g.role f = .held p) (hk : k = .faultCopy ∨ k = .mmap) :
    Brings l kernel m g p va k flags (m.contents f) (enterPage m p va k ⟨f, flags⟩) := by
  rcases enterPage_held h hv hn (e := ⟨f, flags⟩) hp hf hk with hs | ⟨m', g', ho, h', he, hm, hc⟩
  · rw [hs]
    exact .sleeps h (Effect.refl _ m g) hn hf rfl
  · rw [ho]
    exact .done h' he hm hc

theorem copyPage_brings (hv : va ∈ l.pages) (hn : m.pte p va = none) (pa : Frame) (hp : flags.mapPhys = false) :
    (m.freePageQueue = [] ∧ copyPage m p va pa flags = .asleepCopy m pa flags) ∨
      ∃ c, (g.role pa = .data → c = m.contents pa) ∧
        Brings l kernel m g p va .faultCopy flags.unshared c (copyPage m p va pa flags) := by
  unfold copyPage
  cases ha : allocPage m with
  | none => exact .inl ⟨allocPage_eq_none.mp ha, rfl⟩
  | some r =>
    obtain ⟨f, m₁⟩ := r
    obtain ⟨h₁, he₁, hfree⟩ := alloc_held h p va ha
    have hal := allocPage_allocated ha
    have hheld : (g.assign f (.held p)).role f = .held p := by simp
    obtain ⟨h₂, he₂⟩ := h₁.setContents_held hheld va (m₁.contents pa)
    have hb := enterPage_brings h₂ hv (by simp [hal.pte, hn]) (show flags.unshared.mapPhys = false from hp) hheld
      (.inl rfl)
    refine .inr ⟨_, ?_, (hb.mono he₂).mono he₁⟩
    intro hpa
    have hne : pa ≠ f := by
      rintro rfl
      simp [hfree] at hpa
    simp [hal.contents, hne]

theorem mmapPage_brings (hv : va ∈ l.pages) (hn : m.pte p va = none)
    (hp : flags.mapPhys = false) : mmapPage m p va flags = .asleepMap m flags ∨
      Brings l kernel m g p va .mmap flags zeroPage (mmapPage m p va flags) := by
  unfold mmapPage
  cases ha : allocPage m with
  | none => exact .inl rfl
  | some r =>
    obtain ⟨f, m₁⟩ := r
    obtain ⟨h₁, he₁, -⟩ := alloc_held h p va ha
    have hal := allocPage_allocated ha
    have hb := enterPage_brings (p := p) h₁ hv (by simp [hal.pte, hn]) hp (f := f) (by simp)
      (.inr rfl)
    rw [hal.contents, if_pos rfl] at hb
    exact .inr (hb.mono he₁)

theorem Removed.effect (hr : Removed m m' g g' p va e) : Effect (page p va) m m' g g' := by
  refine effect_of_keeps h (pte_off hr.pte) ?_ fun k hk _ => hr.keeps k (.inl hk)
  intro k _
  rw [hr.contents]

theorem Removed.device (hr : Removed m m' g g' p va e) (k : Frame) (hk : l.maxPage ≤ k) : g'.role k = .device :=
  hr.keeps.role (h.device k hk) rfl

section

variable (he : m.pte p va = some e)
include he

section

variable (hp : e.flags.mapPhys = false)
include hp

theorem Rest.count_of_mapped : m.referenceCnt e.pa = (g.owners e.pa).card := by
  have hdata := h.role_of_mapped he hp
  simpa [h.settled] using h.acc.count e.pa (by simp [hdata, Role.counted])

theorem Rest.mem_owners : (p, va) ∈ g.owners e.pa := by
  rw [h.acc.owner_iff, h.role_of_mapped he hp]
  exact ⟨e, he, rfl, hp⟩

theorem drop_reference :
    ∃ m' g', pmapRemove (m.setReferenceCnt e.pa (m.referenceCnt e.pa - 1)) p va = some m' ∧
      Rest l kernel m' g' ∧ Effect (page p va) m m' g g' ∧ m'.pte p va = none ∧ g'.role e.pa = .data ∧
      m'.contents = m.contents ∧ (m.freePageQueue ≠ [] → m'.freePageQueue ≠ []) ∧
      ((m'.l1Table p (pdeIdx va) = none ∧ m'.freePageQueue ≠ []) ∨
        ∃ v, v ≠ va ∧ pdeIdx v = pdeIdx va ∧ m.pte p v ≠ none) := by
  have hdata := h.role_of_mapped he hp
  have hcount := h.count_of_mapped he hp
  obtain ⟨m₁, g₁, hrem, h₁, hr⟩ := pmapRemove_spec
    (h.acc.setReferenceCnt hdata (m.referenceCnt e.pa - 1)) l.zero_notMem he
  have hrole := hr.keeps.role hdata rfl
  refine ⟨m₁, g₁, hrem, ⟨h₁, ?_, hr.tablesUsed h.used, ?_⟩, ?_, by simp [hr.pte], hrole, hr.contents, hr.queue, ?_⟩
  · intro k
    rw [hr.extra k]
    by_cases hk : k = e.pa
    · simp [Pte.counts, hk, hp, hcount]
    · simp [Pte.counts, hk, h.settled]
  · exact fun k hk => hr.keeps.role (h.device k hk) rfl
  · refine effect_of_keeps h (pte_off hr.pte) ?_ fun k hk _ => hr.keeps k (.inl hk)
    intro k _
    rw [hr.contents]
    rfl
  · rcases hr.table with ht | ⟨v, hv, hn⟩
    · exact .inl ht
    have hne : v ≠ va := by
      rintro rfl
      simp [hr.pte] at hn
    exact .inr ⟨v, hne, hv, by simpa [hr.pte, hne] using hn⟩

theorem faultOwn_brings (hone : m.referenceCnt e.pa = 1) :
    ∃ m₁, pmapRemove m p va = some m₁ ∧ Brings l kernel m g p va .faultCopy e.flags.unshared
      (m.contents e.pa) (enterPage m₁ p va .faultOwn ⟨e.pa, e.flags.unshared⟩) := by
  have hdata := h.role_of_mapped he hp
  have howner := h.mem_owners he hp
  have hsingle : g.owners e.pa = {(p, va)} := by
    have hcard := h.count_of_mapped he hp
    obtain ⟨x, hx⟩ := Finset.card_eq_one.mp (by omega : (g.owners e.pa).card = 1)
    rw [hx, Finset.mem_singleton] at howner
    rw [hx, howner]
  obtain ⟨m₁, g₁, hrem, h₁, hr⟩ := pmapRemove_spec h.acc l.zero_notMem he
  have hrole := hr.keeps.role hdata rfl
  have hcounts : e.counts e.pa := ⟨rfl, hp⟩
  have hempty : g₁.owners e.pa = ∅ := by
    rw [hr.owners e.pa (by simp [hdata, Role.plain]), if_pos hcounts, hsingle]
    simp
  have hn : m₁.pte p va = none := by simp [hr.pte]
  have hv := (h.acc.mapped p va e he).1
  refine ⟨m₁, hrem, ?_⟩
  rcases pmapEnter_spec (e := ⟨e.pa, e.flags.unshared⟩) h₁ l.zero_notMem hv hn
    ⟨by simp [hp, hrole], fun _ _ => hempty, by
      intro q w e' he' hp' _ hc
      exact h₁.unmapped (by simp [hrole]) hempty he' hc.1⟩ with ⟨-, hq, ht⟩ | ⟨m₂, g₂, hok, h₂, hen⟩
  · rcases hr.table with hs | ⟨v, hv', hn'⟩
    · exact absurd hq hs.2
    · obtain ⟨e', he'⟩ := Option.ne_none_iff_exists'.mp hn'
      exact absurd (hv' ▸ ht) (h₁.mapped p v e' he').2.1
  · have hcounts' (k : Frame) : (⟨e.pa, e.flags.unshared⟩ : Pte).counts k ↔ e.counts k := by
      simp [Pte.counts]
    have hrest : Rest l kernel m₂ g₂ := by
      refine ⟨h₂, ?_, hen.tablesUsed (hr.tablesUsed h.used), ?_⟩
      · intro k
        rw [hen.extra k, hr.extra k, h.settled]
        by_cases hk : e.counts k
        · simp [hcounts', hk]
        · simp [hcounts', hk]
      · exact fun k hk => hen.keeps.role (hr.device h k hk) rfl
    have heff : Effect (page p va) m m₂ g g₂ := by
      refine effect_of_keeps h ?_ ?_ ?_
      · intro q w hT
        have hne : ¬ (q = p ∧ w = va) := hT
        simp [hen.pte, hr.pte, hne]
      · intro k hk
        have hk' : (g₁.role k).plain := by rwa [hr.keeps k (.inl hk)]
        rw [hen.contents k hk', hr.contents]
      · intro k hk _
        have hk' : (g₁.role k).plain := by rwa [hr.keeps k (.inl hk)]
        rw [hen.keeps k (.inl hk'), hr.keeps k (.inl hk)]
    have hret : enterPage m₁ p va .faultOwn ⟨e.pa, e.flags.unshared⟩ = .ret m₂ true := by
      simp [enterPage, hok, entered]
    rw [hret]
    refine .done hrest heff (by simp [hen.pte]; rfl) ?_
    rw [hen.contents e.pa (by simp [hrole, Role.plain]), hr.contents]

end

end

end

def Flags.shared (fl : Flags) : Prop :=
  fl.mapPhys = false ∧ fl.protWrite = true ∧ fl.mapCow = true
  deriving Decidable

def FindsPage (m : Memory) (p : Pid) (va : Va) : Prop :=
  ∀ e ∈ pmapExtract m p va, e.flags.shared → m.referenceCnt e.pa > 1 →
    m.freePageQueue ≠ [] ∨ ∃ pt ∈ m.l1Table p (pdeIdx va), m.referenceCnt pt = 1
  deriving Decidable

theorem Effect.weaken (h : Effect T m m' g g') (hTU : ∀ q w, T q w → U q w) : Effect U m m' g g' :=
  ⟨fun q w hU => h.pte q w fun hT => hU (hTU q w hT),
    fun q w e hU => h.contents q w e fun hT => hU (hTU q w hT),
    fun k q hU => h.held k q fun w hT => hU w (hTU q w hT), h.device⟩

def Copied (old : Option Pte) (new : Option Pte) : Prop :=
  match old with
  | none => new = none
  | some e =>
    if e.flags.mapPhys then ∃ fl, new = some ⟨e.pa, fl⟩ ∧ fl.mapPhys = true
    else new = some e ∧ (e.flags.protWrite = true → e.flags.mapCow = true)

structure Forking (l : Layout) (kernel : List Frame) (m : Memory) (g : Ghost) (p c : Pid) (done : List Va) :
    Prop where
  rest : Rest l kernel m g
  copied : ∀ v ∈ done, Copied (m.pte p v) (m.pte c v)
  blank : ∀ v, v ∉ done → m.pte c v = none

def both (p c : Pid) (q : Pid) (_ : Va) : Prop := q = p ∨ q = c

inductive ForkResult (l : Layout) (kernel : List Frame) (m : Memory) (g : Ghost) (p c : Pid) : ForkOutcome → Prop
  | done {m' : Memory} {g' : Ghost} (h : Forking l kernel m' g' p c l.pages) (he : Effect (both p c) m m' g g')
      (ho : ∀ v, observed m' p v = observed m p v) : ForkResult l kernel m g p c (.done m')
  | sleep {m' : Memory} {g' : Ghost} {va : Va} {e : Pte} {done rest : List Va}
      (hsplit : l.pages = done ++ va :: rest) (h : Forking l kernel m' g' p c done) (hpend : Copied (m'.pte p va) (some e))
      (he : Effect (both p c) m m' g g') (ho : ∀ v, observed m' p v = observed m p v) :
      ForkResult l kernel m g p c (.sleep m' va e rest)

theorem ForkResult.mono {o : ForkOutcome} (he : Effect (both p c) m m' g g')
    (ho : ∀ v, observed m' p v = observed m p v) (h : ForkResult l kernel m' g' p c o) :
    ForkResult l kernel m g p c o := by
  cases h with
  | done h he' ho' => exact .done h (he.trans he') fun v => (ho' v).trans (ho v)
  | sleep hsplit h hpend he' ho' => exact .sleep hsplit h hpend (he.trans he') fun v => (ho' v).trans (ho v)

theorem Layout.notMem_of_split (hsplit : l.pages = done ++ va :: rest) : va ∈ l.pages ∧ va ∉ done := by
  have hnd := l.nodup
  rw [hsplit] at hnd
  exact ⟨by simp [hsplit], fun hm => (List.nodup_append.mp hnd).2.2 va hm va (by simp) rfl⟩

theorem Forking.skip (h : Forking l kernel m g p c done) (hva : va ∉ done)
    (he : m.pte p va = none) : Forking l kernel m g p c (done ++ [va]) := by
  refine ⟨h.rest, ?_, ?_⟩
  · intro v hvd
    rcases List.mem_append.mp hvd with hvd | hvd
    · exact h.copied v hvd
    · obtain rfl := List.mem_singleton.mp hvd
      rw [he]
      exact h.blank v hva
  · intro v hvd
    exact h.blank v fun hc => hvd (by simp [hc])

def PhaseOk (track : Prop) (l : Layout) (s : State) (g : Ghost) (q : Pid) : Phase → Prop
  | .absent => ∀ v, s.vm.pte q v = none ∧ (track → s.eager q v = none)
  | .user => track → ∀ v, observed s.vm q v = s.eager q v
  | .copying va _ flags => ¬ track ∧ va ∈ l.pages ∧ s.vm.pte q va = none ∧ flags.mapPhys = false
  | .mapping va flags => va ∈ l.pages ∧ s.vm.pte q va = none ∧ flags.mapPhys = false ∧
      (track → ∀ v, observed s.vm q v = s.eager q v)
  | .entering va .faultCopy e => va ∈ l.pages ∧ s.vm.pte q va = none ∧ e.flags.mapPhys = false ∧
      e.flags.protWrite = true ∧ g.role e.pa = .held q ∧
      (track → s.eager q va = some (s.vm.contents e.pa, true)) ∧
      (track → ∀ v, v ≠ va → observed s.vm q v = s.eager q v)
  | .entering _ .faultOwn _ => False
  | .entering va .mmap e => va ∈ l.pages ∧ s.vm.pte q va = none ∧ e.flags.mapPhys = false ∧
      g.role e.pa = .held q ∧ s.vm.contents e.pa = zeroPage ∧
      (track → ∀ v, observed s.vm q v = s.eager q v)
  | .entering va .mmapPhys e => va ∈ l.pages ∧ s.vm.pte q va = none ∧ e.flags.mapPhys = true ∧
      g.role e.pa = .device ∧ (track → ∀ v, observed s.vm q v = s.eager q v)
  | .forking c va e rest => s.phase c = .unborn ∧ (∃ done, l.pages = done ++ va :: rest ∧
      (∀ v ∈ done, Copied (s.vm.pte q v) (s.vm.pte c v)) ∧ ∀ v, v ∉ done → s.vm.pte c v = none) ∧
      Copied (s.vm.pte q va) (some e) ∧ (track → ∀ v, observed s.vm q v = s.eager q v)
  | .unborn => True

structure Inv (track : Prop) (l : Layout) (s : State) (g : Ghost) : Prop where
  rest : Rest l s.kernel s.vm g
  running : s.panicked = false
  phases : ∀ q, PhaseOk track l s g q (s.phase q)
  parents : ∀ p q c va e rest va' e' rest', s.phase p = .forking c va e rest →
    s.phase q = .forking c va' e' rest' → p = q

structure Apart (T : Pid → Prop) (s t : State) (g g' : Ghost) : Prop where
  effect : Effect (fun q _ => T q) s.vm t.vm g g'
  phase : ∀ q, ¬ T q → t.phase q = s.phase q
  eager : ∀ q, ¬ T q → t.eager q = s.eager q

theorem apart_of_effect (he : Effect (page p va) s.vm m g g') :
    Apart (· = p) s ({ s with vm := m }.setPhase p ph) g g' := by
  refine ⟨he.weaken fun q w hT => hT.1, ?_, fun q _ => rfl⟩
  intro q hq
  simp [State.setPhase, hq]

@[simp] theorem setPhase_phase (s : State) (p : Pid) (ph : Phase) : (s.setPhase p ph).phase p = ph := by
  simp [State.setPhase]

theorem user_ne_unborn (hu : s.phase p = .user) : s.phase p ≠ .unborn := by
  rw [hu]
  exact Phase.noConfusion

theorem eager_write_other (E : Eager) (off : Nat) (b : UInt8)
    (hne : ¬ (q = p ∧ w = va)) : E.write p va off b q w = E q w := by
  unfold Eager.write
  rcases E p va with _ | ⟨c, _ | _⟩ <;> simp [Eager.map, hne]

theorem isUser_iff : isUser ph = true ↔ ph = .user := by
  cases ph <;> simp [isUser]

theorem isAbsent_iff : isAbsent ph = true ↔ ph = .absent := by
  cases ph <;> simp [isAbsent]

def Supplied : Action → Prop
  | .fork _ _ lack => lack = .nothing
  | .resume _ lack => lack = .nothing
  | _ => True

def NoSleepBeforeCopy (s : State) : Action → Prop
  | .write p va _ _ => FindsPage s.vm p va
  | a => Supplied a

theorem inv_booted (h : Booted l s) : ∃ g, Inv track l s g := by
  obtain ⟨hnd, hlt, hl, hpte, hph, hk, hpan, -, he⟩ := h
  refine ⟨⟨fun f => if f ∈ s.vm.freePageQueue then .free else .device, fun _ => ∅, fun _ => 0⟩, ?_, hpan, ?_, ?_⟩
  · refine ⟨⟨hnd, ?_, by simp [hk], ?_, ?_, ?_, ?_, fun _ _ => rfl, ?_, ?_⟩, fun _ => rfl, ?_, ?_⟩
    · intro f
      by_cases hf : f ∈ s.vm.freePageQueue <;> simp
    · intro f
      by_cases hf : f ∈ s.vm.freePageQueue <;> simp [hf, hk]
    · intro p d f
      by_cases hf : f ∈ s.vm.freePageQueue <;> simp [hf, hl]
    · intro f p v
      by_cases hf : f ∈ s.vm.freePageQueue <;> simp [hf, Role.owns]
    · intro f hf
      by_cases hm : f ∈ s.vm.freePageQueue <;> simp [hm, Role.counted] at hf
    · intro p v e hv
      simp [hpte] at hv
    · intro p v e hv
      simp [hpte] at hv
    · intro p d hd
      simp [hl] at hd
    · intro k hkm
      have hf : k ∉ s.vm.freePageQueue := fun hf => absurd (hlt k hf) (Nat.not_lt.mpr hkm)
      simp [hf]
  · intro q
    rw [hph]
    dsimp only
    split_ifs
    · intro _ v
      simp [observed, pmapExtract, hl, he]
    · intro v
      exact ⟨by rw [hpte], fun _ => by rw [he]⟩
  · intro p q c va e rest va' e' rest' hp
    rw [hph] at hp
    dsimp only at hp
    split_ifs at hp

section

variable (h : Rest l kernel m g) (he : m.pte p va = some e)
include h

theorem pageFault_refuses (hs : ∀ e, m.pte p va = some e → ¬ e.flags.shared) :
    pageFault m p va true = .ret m false := by
  unfold pageFault
  rw [h.acc.pmapExtract]
  cases he : m.pte p va with
  | none => rfl
  | some e =>
    have hns := hs e he
    simp only [Flags.shared] at hns
    cases hp : e.flags.mapPhys <;> cases hw : e.flags.protWrite <;> cases hc : e.flags.mapCow <;> simp_all

theorem observed_congr (h' : Rest l kernel' m' g') (hpte : m'.pte q w = m.pte q w)
    (hc : ∀ e, m.pte q w = some e → e.flags.mapPhys = false → m'.contents e.pa = m.contents e.pa) :
    observed m' q w = observed m q w := by
  unfold observed
  rw [h.acc.pmapExtract, h'.acc.pmapExtract, hpte]
  cases he : m.pte q w with
  | none => rfl
  | some e => cases hp : e.flags.mapPhys <;> simp [hp, hc e he]

theorem Effect.observed
    (h' : Rest l kernel' m' g') (heff : Effect T m m' g g') (hT : ¬ T q w) : observed m' q w = observed m q w :=
  observed_congr h h' (heff.pte q w hT) fun e he hp => heff.contents q w e hT he hp

theorem Rest.observed_none (hn : m.pte p va = none) : observed m p va = none := by
  simp [Vm.observed, h.acc.pmapExtract, hn]

theorem cleanupPage_spec (p : Pid) (va : Va) :
    ∃ g', Rest l kernel (cleanupPage p m va) g' ∧ Effect (page p va) m (cleanupPage p m va) g g' ∧
      (cleanupPage p m va).pte p va = none := by
  unfold cleanupPage
  rw [h.acc.pmapExtract]
  cases he : m.pte p va with
  | none => exact ⟨g, h, Effect.refl _ m g, he⟩
  | some e =>
    obtain ⟨m₁, g₁, hrem, h₁, hr⟩ := pmapRemove_spec h.acc l.zero_notMem he
    have heff := hr.effect h
    have hn : m₁.pte p va = none := by simp [hr.pte]
    simp only [hrem]
    cases hp : e.flags.mapPhys with
    | true =>
      have hnc (k : Frame) : ¬ e.counts k := fun hc => absurd hp (by simp [hc.2])
      refine ⟨g₁, ⟨h₁, ?_, hr.tablesUsed h.used, hr.device h⟩, heff, hn⟩
      intro k
      rw [hr.extra k, if_neg (hnc k), h.settled]
    | false =>
      have hdata := h.role_of_mapped he hp
      have hrole := hr.keeps.role hdata rfl
      have hcount := h₁.count e.pa (by simp [hrole, Role.counted])
      rw [hr.extra e.pa, if_pos ⟨rfl, hp⟩, h.settled] at hcount
      have h₂ := h₁.setReferenceCnt hrole (m₁.referenceCnt e.pa - 1)
      have hdev := hr.device h
      have hrest : Rest l kernel (m₁.setReferenceCnt e.pa (m₁.referenceCnt e.pa - 1)) _ :=
        ⟨h₂, by
          intro k
          by_cases hk : k = e.pa
          · simp only [hk, if_true]
            omega
          · simp [hk, hr.extra, Pte.counts, h.settled], hr.tablesUsed h.used, hdev⟩
      have heff₂ : Effect (page p va) m (m₁.setReferenceCnt e.pa (m₁.referenceCnt e.pa - 1)) g
          { g₁ with extra := fun k =>
              if k = e.pa then m₁.referenceCnt e.pa - 1 - (g₁.owners e.pa).card else g₁.extra k } :=
        { heff with }
      simp only [Bool.false_eq_true, if_false]
      split_ifs with hz
      · have hz' : m₁.referenceCnt e.pa - 1 = 0 := by simpa using hz
        have hempty : g₁.owners e.pa = ∅ := Finset.card_eq_zero.mp (by omega)
        have h₃ := h₂.release (q := p) (.inl hrole) hempty hz
        rw [freePage_eq (by omega)] at h₃ ⊢
        have hne {k : Frame} {r : Role} (hk : g₁.role k = r) (hr : r ≠ .data) : k ≠ e.pa := by
          rintro rfl
          exact hr (hk.symm.trans hrole)
        refine ⟨_, ⟨h₃, hrest.settled, hrest.used, ?_⟩, ⟨heff₂.pte, heff₂.contents, ?_, ?_⟩, hn⟩
        · intro k hk
          have hd := hdev k hk
          simpa [hne hd (by simp)] using hd
        · intro k q hT hk
          obtain ⟨hk', hc⟩ := heff.held k q hT hk
          exact ⟨by simpa [hne hk' (by simp)] using hk', hc⟩
        · intro k hk
          have hk' := heff.device k hk
          simpa [hne hk' (by simp)] using hk'
      · exact ⟨_, hrest, heff₂, hn⟩

theorem cleanupAddressSpace_spec (p : Pid) (pages : List Va) :
    ∃ g', Rest l kernel (cleanupAddressSpace m p pages) g' ∧
      Effect (fun q _ => q = p) m (cleanupAddressSpace m p pages) g g' ∧
      ∀ v, m.pte p v = none ∨ v ∈ pages → (cleanupAddressSpace m p pages).pte p v = none := by
  induction pages generalizing m g with
  | nil => exact ⟨g, h, Effect.refl _ m g, by simp [cleanupAddressSpace]⟩
  | cons va rest ih =>
    obtain ⟨g₁, h₁, he₁, hn₁⟩ := cleanupPage_spec h p va
    obtain ⟨g₂, h₂, he₂, hn₂⟩ := ih h₁
    refine ⟨g₂, h₂, (he₁.weaken fun q w hT => hT.1).trans he₂, ?_⟩
    intro v hv
    refine hn₂ v ?_
    by_cases hva : v = va
    · exact .inl (hva ▸ hn₁)
    · rcases hv with hv | hv
      · exact .inl (by rw [he₁.pte p v fun hT => hva hT.2, hv])
      · exact .inr ((List.mem_cons.mp hv).resolve_left hva)

include he

theorem pageFault_brings (hs : e.flags.shared) :
    Brings l kernel m g p va .faultCopy e.flags.unshared (m.contents e.pa) (pageFault m p va true) ∨
      (¬ FindsPage m p va ∧ ∃ m' g', pageFault m p va true = .asleepCopy m' e.pa e.flags ∧
        Rest l kernel m' g' ∧ Effect (page p va) m m' g g' ∧ m'.pte p va = none) := by
  obtain ⟨hp, hw, hcow⟩ := hs
  have hext : pmapExtract m p va = some e := by rw [h.acc.pmapExtract, he]
  have hcount := h.count_of_mapped he hp
  have hpos : 0 < (g.owners e.pa).card := Finset.card_pos.mpr ⟨_, h.mem_owners he hp⟩
  by_cases hmany : m.referenceCnt e.pa > 1
  · obtain ⟨m₁, g₁, hrem, h₁, heff, hn, hdata, hcont, hqueue, htable⟩ := drop_reference h he hp
    have hpf : pageFault m p va true = copyPage m₁ p va e.pa e.flags := by
      simp [pageFault, hext, hp, hw, hcow, hmany, hrem]
    rw [hpf]
    rcases copyPage_brings h₁ (h.acc.mapped p va e he).1 hn e.pa hp with ⟨hq, hs⟩ | ⟨c, hc, hb⟩
    · refine .inr ⟨?_, m₁, g₁, hs, h₁, heff, hn⟩
      intro hf
      rcases hf e hext ⟨hp, hw, hcow⟩ hmany with hq' | ⟨pt, hpt, hlast⟩
      · exact hqueue hq' hq
      rcases htable with ht | ⟨v, hne, hv, hnv⟩
      · exact ht.2 hq
      have hrole := (h.acc.table_iff _ _ _).mp hpt
      have hc := h.acc.count pt (by simp [hrole, Role.counted])
      rw [h.settled] at hc
      have hone : (g.owners pt).card = 1 := by omega
      have hmem (w : Va) (hw : pdeIdx w = pdeIdx va) (hn : m.pte p w ≠ none) : (p, w) ∈ g.owners pt := by
        rw [h.acc.owner_iff, hrole]
        exact ⟨rfl, hw, hn⟩
      have heq := Finset.card_le_one.mp hone.le _ (hmem v hv hnv) _ (hmem va rfl (by simp [he]))
      exact hne (by simpa using heq)
    · rw [hc hdata, hcont] at hb
      exact .inl (hb.mono heff)
  · have hone : m.referenceCnt e.pa = 1 := by omega
    obtain ⟨m₁, hrem, hb⟩ := faultOwn_brings h he hp hone
    have hpf : pageFault m p va true = enterPage m₁ p va .faultOwn ⟨e.pa, e.flags.unshared⟩ := by
      simp [pageFault, hext, hp, hw, hcow, hone, hrem]
    rw [hpf]
    exact .inl hb

theorem Rest.observed_some
    (hp : e.flags.mapPhys = false) : observed m p va = some (m.contents e.pa, e.flags.protWrite) := by
  simp [Vm.observed, h.acc.pmapExtract, he, hp]

theorem Rest.observed_phys (hp : e.flags.mapPhys = true) : observed m p va = none := by
  simp [Vm.observed, h.acc.pmapExtract, he, hp]

theorem Rest.not_writable_of_shared
    (hp : e.flags.mapPhys = false) (hcow : e.flags.protWrite = true → e.flags.mapCow = true) (he' : m.pte q w = some e') (hp' : e'.flags.mapPhys = false) (hw : e'.flags.writable) :
    ¬ e.counts e'.pa := by
  rintro ⟨hpa, -⟩
  have hsole := h.acc.sole q w e' he' hp' hw
  have hmem := h.mem_owners he hp
  rw [← hpa, hsole] at hmem
  obtain ⟨rfl, rfl⟩ : p = q ∧ va = w := by simpa using hmem
  rw [he, Option.some.injEq] at he'
  subst he'
  exact absurd hw.2 (by simp [hcow hw.1])

theorem store_effect (hw : e.flags.writable) (c : Content) :
    Rest l kernel (m.setContents e.pa c) g ∧ Effect (page p va) m (m.setContents e.pa c) g g := by
  have hrole := (h.acc.mapped p va e he).2.2
  refine ⟨{ h with acc := h.acc.setContents c }, fun _ _ _ => rfl, ?_, ?_, fun _ hk => hk⟩
  · intro q w e' hT he' hp'
    have hne : e'.pa ≠ e.pa := by
      intro hc
      have hdata := h.role_of_mapped he' hp'
      cases hp : e.flags.mapPhys with
      | true => simp [← hc, hdata, hp] at hrole
      | false =>
        have hmem := h.mem_owners he' hp'
        rw [hc, h.acc.sole p va e he hp hw] at hmem
        obtain ⟨hq, hwv⟩ : q = p ∧ w = va := by simpa using hmem
        exact hT ⟨hq, hwv⟩
    simp [hne]
  · intro k q _ hk
    have hne : k ≠ e.pa := by
      rintro rfl
      rw [hk] at hrole
      split_ifs at hrole
    exact ⟨hk, by simp [hne]⟩

omit he

theorem observed_copied (hc : Copied (m.pte p v) (m.pte c v)) : observed m c v = observed m p v := by
  cases hold : m.pte p v with
  | none =>
    rw [hold] at hc
    rw [h.observed_none hold, h.observed_none hc]
  | some e =>
    rw [hold] at hc
    cases hp : e.flags.mapPhys with
    | true =>
      simp only [Copied, hp] at hc
      obtain ⟨fl, hnew, hphys⟩ := hc
      rw [h.observed_phys hold hp, h.observed_phys hnew hphys]
    | false =>
      simp only [Copied, hp] at hc
      rw [h.observed_some hold hp, h.observed_some hc.1 hp]

end

theorem Inv.forkCopies (h : Inv True l s g) : ForkCopies s := by
  refine ⟨h.running, ?_⟩
  intro p va hu hf
  have hok := h.phases p
  generalize s.phase p = ph at hok hu hf
  cases ph with
  | absent => rw [h.rest.observed_none (hok va).1, (hok va).2 trivial]
  | user => exact hok trivial va
  | copying w pa flags => exact absurd trivial hok.1
  | mapping w flags | forking c w e rest => exact hok.2.2.2 trivial va
  | entering w k e =>
    cases k with
    | faultCopy => exact hok.2.2.2.2.2.2 trivial va hf
    | faultOwn => exact hok.elim
    | mmap => exact hok.2.2.2.2.2 trivial va
    | mmapPhys => exact hok.2.2.2.2 trivial va
  | unborn => exact absurd rfl hu

theorem PhaseOk.apart {T : Pid → Prop} {k : List Frame} (h : Rest l s.kernel s.vm g) (h' : Rest l k t.vm g')
    (ha : Apart T s t g g') (hq : ¬ T q) (hchild : ∀ c va e rest, ph = .forking c va e rest → ¬ T c)
    (hok : PhaseOk track l s g q ph) : PhaseOk track l t g' q ph := by
  have hpte (v : Va) : t.vm.pte q v = s.vm.pte q v := ha.effect.pte q v hq
  have hobs (v : Va) : observed t.vm q v = observed s.vm q v := ha.effect.observed h h' hq
  have heager := ha.eager q hq
  cases ph with
  | absent => exact fun v => by rw [hpte, heager]; exact hok v
  | user => exact fun ht v => by rw [hobs, heager]; exact hok ht v
  | copying w pa flags => exact ⟨hok.1, hok.2.1, by rw [hpte, hok.2.2.1], hok.2.2.2⟩
  | mapping w flags =>
    obtain ⟨hv, hn, hp, ho⟩ := hok
    exact ⟨hv, by rw [hpte, hn], hp, fun ht v => by rw [hobs, heager]; exact ho ht v⟩
  | entering w k e =>
    cases k with
    | faultCopy =>
      obtain ⟨hv, hn, hp, hw, hr, he, ho⟩ := hok
      obtain ⟨hr', hc⟩ := ha.effect.held e.pa q (fun _ => hq) hr
      exact ⟨hv, by rw [hpte, hn], hp, hw, hr', fun ht => by rw [heager, he ht, hc],
        fun ht v hne => by rw [hobs, heager]; exact ho ht v hne⟩
    | faultOwn => exact hok
    | mmap =>
      obtain ⟨hv, hn, hp, hr, hz, ho⟩ := hok
      obtain ⟨hr', hc⟩ := ha.effect.held e.pa q (fun _ => hq) hr
      exact ⟨hv, by rw [hpte, hn], hp, hr', by rw [hc, hz], fun ht v => by rw [hobs, heager]; exact ho ht v⟩
    | mmapPhys =>
      obtain ⟨hv, hn, hp, hr, ho⟩ := hok
      exact ⟨hv, by rw [hpte, hn], hp, ha.effect.device _ hr, fun ht v => by rw [hobs, heager]; exact ho ht v⟩
  | forking c w e rest =>
    obtain ⟨hun, ⟨done, hsplit, hcop, hblank⟩, hpend, ho⟩ := hok
    have hc := hchild c w e rest rfl
    have hcpte (v : Va) : t.vm.pte c v = s.vm.pte c v := ha.effect.pte c v hc
    refine ⟨by rw [ha.phase c hc, hun], ⟨done, hsplit, ?_, ?_⟩, by rw [hpte]; exact hpend,
      fun ht v => by rw [hobs, heager]; exact ho ht v⟩
    · intro v hv
      rw [hpte, hcpte]
      exact hcop v hv
    · intro v hv
      rw [hcpte]
      exact hblank v hv
  | unborn => trivial

section

variable (hpc : p ≠ c) (h : Forking l kernel m g p c done)
include hpc h

theorem forkPrepare_spec (hva : va ∉ done) (he : m.pte p va = some e) :
    ∃ m' e', forkPrepare m p va e = some (m', e') ∧ Forking l kernel m' g p c done ∧ Copied (m'.pte p va) (some e') ∧
      Effect (both p c) m m' g g ∧ ∀ v, observed m' p v = observed m p v := by
  obtain ⟨hv, hl, -⟩ := h.rest.acc.mapped p va e he
  obtain ⟨pt, ht⟩ := Option.ne_none_iff_exists'.mp hl
  have hv0 : va ≠ 0 := fun hc => l.zero_notMem (hc ▸ hv)
  unfold forkPrepare
  by_cases hp : e.flags.mapPhys = true
  · refine ⟨m, ⟨e.pa, physFlags⟩, by simp [hp], h, ?_, Effect.refl _ m g, fun _ => rfl⟩
    simp [Copied, he, hp, physFlags]
  have hp' : e.flags.mapPhys = false := by simpa using hp
  by_cases hw : e.flags.protWrite = true
  · have hprot : pmapProtect m p va e.flags.cow =
        some (m.setPte p va (some ⟨e.pa, e.flags.cow⟩)) := by
      simp [pmapProtect, hv0, ht, he]
    have hacc := h.rest.acc.protect he (show e.flags.cow.mapPhys = _ from rfl) rfl
    have hrest : Rest l kernel (m.setPte p va (some ⟨e.pa, e.flags.cow⟩)) g := by
      refine ⟨hacc, h.rest.settled, ?_, h.rest.device⟩
      intro q d hl'
      obtain ⟨v, hd, hn⟩ := h.rest.used q d hl'
      refine ⟨v, hd, ?_⟩
      simp only [Memory.setPte_pte]
      split_ifs
      · simp
      · exact hn
    refine ⟨_, ⟨e.pa, e.flags.cow⟩, by simp [hp', hw, hprot], ⟨hrest, ?_, ?_⟩, ?_,
      { Effect.refl (both p c) m g with pte := ?_ }, ?_⟩
    · intro v hvd
      have hne : v ≠ va := fun hc => hva (hc ▸ hvd)
      simpa [hne] using h.copied v hvd
    · intro v hvd
      simpa [Ne.symm hpc] using h.blank v hvd
    · simp [Copied]
    · intro q w hT
      have hq : q ≠ p := fun hc => hT (.inl hc)
      simp [hq]
    · intro v
      by_cases hvv : v = va
      · subst hvv
        rw [hrest.observed_some (e := ⟨e.pa, e.flags.cow⟩) (by simp) hp',
          h.rest.observed_some he hp']
        rfl
      · exact observed_congr h.rest hrest (by simp [hvv]) fun _ _ _ => rfl
  · have hw' : e.flags.protWrite = false := by simpa using hw
    refine ⟨m, e, by simp [hp', hw'], h, ?_, Effect.refl _ m g, fun _ => rfl⟩
    simp [Copied, he, hp', hw']

theorem Forking.extend (hpend : Copied (m.pte p va) (some e)) (hen : Entered m m₁ g g₁ c va e)
    (hacc : Accounted l.pages kernel m₂ g₂) (hset : ∀ k, g₂.extra k = 0) (hpte : m₂.pte = m₁.pte)
    (hcont : m₂.contents = m₁.contents) (hl₁ : m₂.l1Table = m₁.l1Table) (hrole : g₂.role = g₁.role) :
    Forking l kernel m₂ g₂ p c (done ++ [va]) ∧ Effect (both p c) m m₂ g g₂ ∧
      ∀ v, observed m₂ p v = observed m p v := by
  have hused : TablesUsed m₂ := by
    intro q d
    rw [hl₁, hpte]
    exact hen.tablesUsed h.rest.used q d
  have hkeep (k : Frame) (hk : (g.role k).plain) : g₂.role k = g.role k := by
    rw [hrole, hen.keeps k (.inl hk)]
  have hrest : Rest l kernel m₂ g₂ := by
    refine ⟨hacc, hset, hused, ?_⟩
    intro k hk
    have hd := h.rest.device k hk
    rw [hkeep k (by simp [hd, Role.plain]), hd]
  have heff : Effect (page c va) m m₂ g g₂ :=
    effect_of_keeps h.rest (pte_off (hpte.trans hen.pte)) (fun k hk => by rw [hcont, hen.contents k hk])
      fun k hk _ => hkeep k hk
  have hparent (v : Va) : ¬ page c va p v := fun hT => hpc hT.1
  refine ⟨⟨hrest, ?_, ?_⟩, heff.weaken fun _ _ hT => .inr hT.1, fun v => heff.observed h.rest hrest (hparent v)⟩
  · intro v hv
    rw [heff.pte p v (hparent v)]
    by_cases hvv : v = va
    · subst hvv
      simpa [hpte, hen.pte] using hpend
    · have hd : v ∈ done := by simpa [hvv] using hv
      simpa [hpte, hen.pte, hvv] using h.copied v hd
  · intro v hv
    have hvv : v ≠ va := fun hc => hv (by simp [hc])
    simpa [hpte, hen.pte, hvv] using h.blank v fun hd => hv (by simp [hd])

theorem forkEnter_spec (hv : va ∈ l.pages) (hva : va ∉ done) (hpend : Copied (m.pte p va) (some e)) :
    pmapEnter m c va e = .sleep ∨ ∃ m' g', pmapEnter m c va e = .ok m' ∧
      Forking l kernel (forkCount m' e) g' p c (done ++ [va]) ∧ Effect (both p c) m (forkCount m' e) g g' ∧
      ∀ v, observed (forkCount m' e) p v = observed m p v := by
  have hn := h.blank va hva
  have hcop := hpend
  cases hold : m.pte p va with
  | none => simp [hold, Copied] at hcop
  | some e₀ =>
    simp only [hold, Copied] at hcop
    cases hp : e₀.flags.mapPhys with
    | true =>
      simp only [hp] at hcop
      obtain ⟨fl, hfl, hphys⟩ := hcop
      rw [Option.some.injEq] at hfl
      subst hfl
      have hdev : g.role e₀.pa = .device := by simpa [hp] using (h.rest.acc.mapped p va e₀ hold).2.2
      have hnc (k : Frame) : ¬ (⟨e₀.pa, fl⟩ : Pte).counts k := fun hc =>
        Bool.false_ne_true (hc.2.symm.trans hphys)
      rcases pmapEnter_spec h.rest.acc l.zero_notMem hv hn ⟨by simp [hphys, hdev],
        by simp [hphys], fun _ _ _ _ _ _ => hnc _⟩ with hs | ⟨m₁, g₁, hok, h₁, hen⟩
      · exact .inl hs.1
      have hcount : forkCount m₁ ⟨e₀.pa, fl⟩ = m₁ := by simp [forkCount, hphys]
      refine .inr ⟨m₁, g₁, hok, ?_⟩
      rw [hcount]
      refine h.extend hpc hpend hen h₁ (fun k => ?_) rfl rfl rfl rfl
      rw [hen.extra k, if_neg (hnc k), h.rest.settled]
    | false =>
      simp only [hp, Option.some.injEq] at hcop
      obtain ⟨rfl, hcow⟩ := hcop
      have hdata := h.rest.role_of_mapped hold hp
      rcases pmapEnter_spec h.rest.acc l.zero_notMem hv hn ⟨by simp [hp, hdata],
        fun _ hw => absurd hw.2 (by simp [hcow hw.1]),
        fun _ _ _ he' hp' hw => h.rest.not_writable_of_shared hold hp hcow he' hp' hw⟩
        with hs | ⟨m₁, g₁, hok, h₁, hen⟩
      · exact .inl hs.1
      have hrole := hen.keeps.role hdata rfl
      have hacc := h₁.setReferenceCnt hrole (m₁.referenceCnt e.pa + 1)
      have hcnt := h₁.count e.pa (by simp [hrole, Role.counted])
      rw [hen.extra e.pa, if_pos ⟨rfl, hp⟩, h.rest.settled] at hcnt
      have hcount : forkCount m₁ e = m₁.setReferenceCnt e.pa (m₁.referenceCnt e.pa + 1) := by
        simp [forkCount, hp]
      have hfin := h.extend hpc hpend hen hacc (by
        intro k
        by_cases hk : k = e.pa
        · simp only [hk, if_true]
          omega
        · simp [hk, hen.extra, Pte.counts, h.rest.settled]) rfl rfl rfl rfl
      rw [← hcount] at hfin
      exact .inr ⟨m₁, _, hok, hfin⟩

omit h

theorem forkPages_spec (hsplit : l.pages = done ++ rest)
    (h : Forking l kernel m g p c done) : ForkResult l kernel m g p c (forkPages m p c rest) := by
  induction rest generalizing m g done with
  | nil =>
    obtain rfl : done = l.pages := by simpa using hsplit.symm
    exact .done h (Effect.refl _ m g) fun _ => rfl
  | cons va rest ih =>
    obtain ⟨hv, hva⟩ := Layout.notMem_of_split hsplit
    have hsplit' : l.pages = (done ++ [va]) ++ rest := by simpa using hsplit
    unfold forkPages
    rw [h.rest.acc.pmapExtract]
    cases he : m.pte p va with
    | none => exact ih hsplit' (h.skip hva he)
    | some e =>
      obtain ⟨m₁, e₁, hprep, h₁, hpend, heff, hobs⟩ := forkPrepare_spec hpc h hva he
      simp only [hprep]
      rcases forkEnter_spec hpc h₁ hv hva hpend with hs | ⟨m₂, g₂, hok, h₂, heff₂, hobs₂⟩
      · simp only [hs]
        exact .sleep hsplit h₁ hpend heff hobs
      · simp only [hok]
        exact ((ih hsplit' h₂).mono heff₂ hobs₂).mono heff hobs

theorem forkResume_spec (hsplit : l.pages = done ++ va :: rest)
    (h : Forking l kernel m g p c done) (hpend : Copied (m.pte p va) (some e)) :
    ForkResult l kernel m g p c (forkResume m p c va e rest) := by
  obtain ⟨hv, hva⟩ := Layout.notMem_of_split hsplit
  unfold forkResume
  rcases forkEnter_spec hpc h hv hva hpend with hs | ⟨m₂, g₂, hok, h₂, heff₂, hobs₂⟩
  · simp only [hs]
    exact .sleep hsplit h hpend (Effect.refl _ m g) fun _ => rfl
  · simp only [hok]
    exact (forkPages_spec hpc (by simpa using hsplit) h₂).mono heff₂ hobs₂

end

section

variable (h : Inv track l s g) (hp : s.phase p ≠ .unborn) (hv : va ∈ l.pages)
include h

theorem Inv.phaseOk (hph : s.phase q = ph) : PhaseOk track l s g q ph := hph ▸ h.phases q

theorem Inv.child_unborn (hph : s.phase q = .forking c va e rest) : s.phase c = .unborn := (h.phaseOk hph).1

theorem Inv.blank_of_absent (hc : s.phase c = .absent) : pmapCreate s.vm c = s.vm ∧ ∀ v, s.vm.pte c v = none := by
  have hpte (v : Va) : s.vm.pte c v = none := (h.phaseOk hc v).1
  have hl (d : Nat) : s.vm.l1Table c d = none := by
    by_contra hne
    obtain ⟨v, -, hv⟩ := h.rest.used c d hne
    exact hv (hpte v)
  refine ⟨?_, hpte⟩
  have h₁ : (pmapCreate s.vm c).l1Table = s.vm.l1Table := by
    funext q d
    by_cases hq : q = c <;> simp [hq, hl]
  have h₂ : (pmapCreate s.vm c).pte = s.vm.pte := by
    funext q v
    by_cases hq : q = c <;> simp [hq, hpte]
  calc pmapCreate s.vm c
      = { s.vm with l1Table := (pmapCreate s.vm c).l1Table, pte := (pmapCreate s.vm c).pte } := rfl
    _ = s.vm := by rw [h₁, h₂]

theorem Inv.kernel_step (hr : Rest l kernel m g')
    (he : Effect (fun _ _ => False) s.vm m g g') : Inv track l { s with vm := m, kernel := kernel } g' := by
  have ha : Apart (fun _ => False) s { s with vm := m, kernel := kernel } g g' :=
    ⟨he, fun _ _ => rfl, fun _ _ => rfl⟩
  exact ⟨hr, h.running, fun q => PhaseOk.apart h.rest hr ha id (fun _ _ _ _ _ => id) (h.phases q), h.parents⟩

theorem inv_kalloc (ha : allocPage s.vm = some (f, m)) (c : Content) :
    ∃ g', Inv track l { s with vm := m.setContents f c, kernel := f :: s.kernel } g' := by
  obtain ⟨h₁, -, hfree⟩ := alloc_held h.rest 0 0 ha
  have hal := allocPage_allocated ha
  have hne (k : Frame) (hk : (g.role k).plain) : k ≠ f := by
    rintro rfl
    simp [hfree, Role.plain] at hk
  refine ⟨_, h.kernel_step ⟨(h₁.acc.kernel_of_held (q := 0) (by simp)).setContents c, h.rest.settled, h₁.used, ?_⟩
    (effect_of_keeps h.rest ?_ ?_ ?_)⟩
  · intro k hk
    have hd := h.rest.device k hk
    simp [hne k (by simp [hd, Role.plain]), hd]
  · simp [hal.pte]
  · intro k hk
    simp [hal.contents, hne k hk]
  · intro k hk _
    simp [hne k hk]

theorem inv_kfree (hf : f ∈ s.kernel) :
    ∃ g', Inv track l { s with vm := freePage s.vm f, kernel := s.kernel.erase f } g' := by
  have hr := (h.rest.acc.mem_kernel f).mp hf
  have hacc := h.rest.acc.free_kernel hf
  have hne {k : Frame} {r : Role} (hk : g.role k = r) (hrk : r ≠ .kernel) : k ≠ f := by
    rintro rfl
    exact hrk (hk.symm.trans hr)
  have hsame : (freePage s.vm f).pte = s.vm.pte ∧ (freePage s.vm f).l1Table = s.vm.l1Table ∧
      (freePage s.vm f).contents = s.vm.contents := by
    unfold freePage
    dsimp only
    split_ifs <;> exact ⟨rfl, rfl, rfl⟩
  refine ⟨_, h.kernel_step ⟨hacc, h.rest.settled, ?_, ?_⟩ ⟨?_, ?_, ?_, ?_⟩⟩
  · intro q d
    rw [hsame.2.1, hsame.1]
    exact h.rest.used q d
  · intro k hk
    have hd := h.rest.device k hk
    simp [hne hd (by simp), hd]
  · simp [hsame.1]
  · simp [hsame.2.2]
  · intro k q _ hk
    exact ⟨by simp [hne hk (by simp), hk], by rw [hsame.2.2]⟩
  · intro k hk
    simp [hne hk (by simp), hk]

include hp

theorem Inv.step_of_two
    (hchild : ∀ q, q ≠ p → ∀ va e rest, s.phase q ≠ .forking c va e rest) (hr : Rest l t.kernel t.vm g')
    (hrun : t.panicked = false) (ha : Apart (fun q => q = p ∨ q = c) s t g g')
    (hokp : PhaseOk track l t g' p (t.phase p)) (hokc : PhaseOk track l t g' c (t.phase c))
    (hpf : ∀ d va e rest, t.phase p = .forking d va e rest → d = c)
    (hcf : ∀ d va e rest, t.phase c ≠ .forking d va e rest) : Inv track l t g' := by
  refine ⟨hr, hrun, ?_, ?_⟩
  · intro q
    by_cases hqp : q = p
    · rw [hqp]
      exact hokp
    by_cases hqc : q = c
    · rw [hqc]
      exact hokc
    rw [ha.phase q (not_or.mpr ⟨hqp, hqc⟩)]
    refine PhaseOk.apart h.rest hr ha (not_or.mpr ⟨hqp, hqc⟩) ?_ (h.phases q)
    rintro d va e rest hph (rfl | rfl)
    · exact hp (h.child_unborn hph)
    · exact hchild q hqp va e rest hph
  · have hside {q d : Pid} {va : Va} {e : Pte} {rest : List Va} (hq : t.phase q = .forking d va e rest) :
        (q = p ∧ d = c) ∨ (q ≠ p ∧ s.phase q = .forking d va e rest) := by
      by_cases hqp : q = p
      · exact .inl ⟨hqp, hpf d va e rest (hqp ▸ hq)⟩
      · have hqc : q ≠ c := fun hc => hcf d va e rest (hc ▸ hq)
        exact .inr ⟨hqp, by rw [← ha.phase q (not_or.mpr ⟨hqp, hqc⟩), hq]⟩
    intro q r d va e rest va' e' rest' hq hr'
    rcases hside hq with ⟨rfl, rfl⟩ | ⟨hqp, hq'⟩
    · rcases hside hr' with ⟨rfl, -⟩ | ⟨hrp, hr''⟩
      · rfl
      · exact absurd hr'' (hchild r hrp va' e' rest')
    · rcases hside hr' with ⟨rfl, rfl⟩ | ⟨-, hr''⟩
      · exact absurd hq' (hchild q hqp va e rest)
      · exact h.parents q r d va e rest va' e' rest' hq' hr''

theorem Inv.step_of (hr : Rest l t.kernel t.vm g')
    (hrun : t.panicked = false) (ha : Apart (· = p) s t g g') (hok : PhaseOk track l t g' p (t.phase p))
    (hnf : ∀ c va e rest, t.phase p ≠ .forking c va e rest) : Inv track l t g' := by
  refine h.step_of_two (c := p) hp ?_ hr hrun (by simpa only [or_self] using ha) hok hok ?_ hnf
  · exact fun q _ va e rest hq => hp (h.child_unborn hq)
  · exact fun d va e rest hd => absurd hd (hnf d va e rest)

theorem Inv.parked (hr : Rest l s.kernel m g')
    (he : Effect (page p va) s.vm m g g') (hnf : ∀ c va e rest, ph ≠ .forking c va e rest)
    (hok : PhaseOk track l ({ s with vm := m }.setPhase p ph) g' p ph) :
    ∃ g', Inv track l ({ s with vm := m }.setPhase p ph) g' := by
  refine ⟨g', h.step_of hp hr h.running (apart_of_effect he) ?_ ?_⟩ <;> rw [setPhase_phase]
  · exact hok
  · exact hnf

include hv

theorem inv_fault {c : Content} (hphys : flags.mapPhys = false)
    (hw : flags.protWrite = true) (heager : track → s.eager p va = some (c, true))
    (hother : track → ∀ v, v ≠ va → observed s.vm p v = s.eager p v)
    (hb : Brings l s.kernel s.vm g p va .faultCopy flags c o) : ∃ g', Inv track l (s.park p va o) g' := by
  have hkeep {m : Memory} {g' : Ghost} (hr : Rest l s.kernel m g') (he : Effect (page p va) s.vm m g g')
      (ht : track) (v : Va) (hv : v ≠ va) : observed m p v = s.eager p v :=
    (he.observed h.rest hr fun hT => hv hT.2).trans (hother ht v hv)
  cases hb with
  | @sleeps m g' f hr he hn hf hc =>
    exact h.parked hp hr he (by simp) ⟨hv, hn, hphys, hw, hf, fun ht => (heager ht).trans (by rw [← hc]; rfl), hkeep hr he⟩
  | @done m g' f hr he hm hc =>
    refine h.parked hp hr he (by simp) fun ht v => ?_
    by_cases hvv : v = va
    · subst hvv
      exact (hr.observed_some hm hphys).trans (by rw [hc, hw]; exact (heager ht).symm)
    · exact hkeep hr he ht v hvv

theorem inv_mmap (hphys : flags.mapPhys = false)
    (hnone : s.vm.pte p va = none) (hobs : track → ∀ v, observed s.vm p v = s.eager p v)
    (hb : Brings l s.kernel s.vm g p va .mmap flags zeroPage o) : ∃ g', Inv track l (s.parkMmap p va flags o) g' := by
  have hkeep {m : Memory} {g' : Ghost} (hr : Rest l s.kernel m g') (he : Effect (page p va) s.vm m g g')
      (ht : track) (v : Va) (hv : v ≠ va) : observed m p v = s.eager p v :=
    (he.observed h.rest hr fun hT => hv hT.2).trans (hobs ht v)
  cases hb with
  | @sleeps m g' f hr he hn hf hc =>
    refine h.parked hp hr he (by simp) ⟨hv, hn, hphys, hf, hc, fun ht v => ?_⟩
    by_cases hvv : v = va
    · subst hvv
      have hempty := (h.rest.observed_none hnone).symm.trans (hobs ht v)
      exact (hr.observed_none hn).trans hempty
    · exact hkeep hr he ht v hvv
  | @done m g' f hr he hm hc =>
    have hpark : s.parkMmap p va flags (.ret m true) =
        { { s with vm := m }.setPhase p .user with
          eager := s.eager.map p va (zeroPage, flags.protWrite) } := rfl
    rw [hpark]
    refine ⟨g', h.step_of hp hr h.running ⟨he.weaken fun q w hT => hT.1, ?_, ?_⟩ ?_ (by simp)⟩
    · intro q hq
      simp [State.setPhase, hq]
    · intro q hq
      funext w
      simp [Eager.map, hq]
    · rw [setPhase_phase]
      intro ht v
      by_cases hvv : v = va
      · subst hvv
        refine (hr.observed_some hm hphys).trans ?_
        simp [Eager.map, hc]
      · refine (hkeep hr he ht v hvv).trans ?_
        simp [Eager.map, hvv]

theorem inv_phys (hn : s.vm.pte p va = none) (hphys : e.flags.mapPhys = true) (hdev : g.role e.pa = .device)
    (hobs : track → ∀ v, observed s.vm p v = s.eager p v) :
    ∃ g', Inv track l (s.park p va (enterPage s.vm p va .mmapPhys e)) g' := by
  rcases enterPage_phys h.rest hv hn hphys hdev with hs | ⟨m, g', ho, hr, he, hm⟩
  · rw [hs]
    exact h.parked hp h.rest (.refl (page p va) _ _) (by simp) ⟨hv, hn, hphys, hdev, hobs⟩
  · rw [ho]
    refine h.parked hp hr he (by simp) fun ht v => ?_
    by_cases hvv : v = va
    · subst hvv
      have hempty := (h.rest.observed_none hn).symm.trans (hobs ht v)
      exact (hr.observed_phys hm hphys).trans hempty
    · exact (he.observed h.rest hr fun hT => hvv hT.2).trans (hobs ht v)

theorem inv_mmapPage (hn : s.vm.pte p va = none) (hphys : flags.mapPhys = false)
    (hobs : track → ∀ v, observed s.vm p v = s.eager p v) :
    ∃ g', Inv track l (s.parkMmap p va flags (mmapPage s.vm p va flags)) g' := by
  rcases mmapPage_brings h.rest hv hn hphys with hs | hb
  · rw [hs]
    exact h.parked hp h.rest (.refl (page p va) _ _) (by simp) ⟨hv, hn, hphys, hobs⟩
  · exact inv_mmap h hp hv hphys hn hobs hb

omit hp hv

theorem inv_store (hu : s.phase p = .user) (he : s.vm.pte p va = some e) (hw : e.flags.writable) :
    Inv track l { s with
      vm := s.vm.setContents e.pa ((s.vm.contents e.pa).set off b)
      eager := s.eager.write p va off b } g := by
  have hobs := h.phaseOk hu
  obtain ⟨hr, heff⟩ := store_effect h.rest he hw ((s.vm.contents e.pa).set off b)
  refine h.step_of (user_ne_unborn hu) hr h.running ⟨heff.weaken fun q w hT => hT.1, fun q _ => rfl, ?_⟩ ?_
    (by simp [hu])
  · intro q hq
    funext w
    exact eager_write_other s.eager off b fun hc => hq hc.1
  rw [hu]
  intro htrack v
  by_cases hv : v = va
  · subst hv
    cases hp : e.flags.mapPhys with
    | true =>
      have hempty := (h.rest.observed_phys he hp).symm.trans (hobs htrack v)
      refine (hr.observed_phys he hp).trans ?_
      simp [Eager.write, ← hempty]
    | false =>
      have hown := (h.rest.observed_some he hp).symm.trans (hobs htrack v)
      refine (hr.observed_some he hp).trans ?_
      simp [Eager.write, ← hown, Eager.map, hw.1]
  · refine (heff.observed h.rest hr fun hT => hv hT.2).trans ((hobs htrack v).trans ?_)
    exact (eager_write_other s.eager off b fun hc => hv hc.2).symm

theorem inv_write (hu : s.phase p = .user)
    (hf : track → FindsPage s.vm p va) : ∃ g', Inv track l (userWrite s p va off b) g' := by
  have hobs := h.phaseOk hu
  have hp := user_ne_unborn hu
  have hrefuse (hs : ∀ e, s.vm.pte p va = some e → ¬ e.flags.shared) :
      ∃ g', Inv track l (s.park p va (pageFault s.vm p va true)) g' := by
    rw [pageFault_refuses h.rest hs]
    exact h.parked hp h.rest (.refl (page p va) _ _) (by simp) hobs
  unfold userWrite
  rw [h.rest.acc.pmapExtract]
  cases he : s.vm.pte p va with
  | none => exact hrefuse (by simp [he])
  | some e =>
    simp only
    split_ifs with hw
    · exact ⟨g, inv_store h hu he ⟨hw.1, by simpa using hw.2⟩⟩
    by_cases hs : e.flags.shared
    · have hv := (h.rest.acc.mapped p va e he).1
      rcases pageFault_brings h.rest he hs with hb | ⟨hnf, m, g', ho, hr, heff, hn⟩
      · refine inv_fault h hp hv (show e.flags.unshared.mapPhys = false from hs.1) rfl (fun ht => ?_)
          (fun ht v _ => hobs ht v) hb
        rw [← (h.rest.observed_some he hs.1).symm.trans (hobs ht va), hs.2.1]
      rw [ho]
      exact h.parked hp hr heff (by simp) ⟨fun ht => hnf (hf ht), hv, hn, hs.1⟩
    · exact hrefuse (by simpa [he] using hs)

theorem inv_fork {o : ForkOutcome} (hpc : p ≠ c) (hp : s.phase p ≠ .unborn)
    (hchild : ∀ q, q ≠ p → ∀ va e rest, s.phase q ≠ .forking c va e rest)
    (hobs : track → ∀ v, observed s.vm p v = s.eager p v) (ho : ForkResult l s.kernel s.vm g p c o) :
    ∃ g', Inv track l (s.parkFork l p c .nothing o) g' := by
  cases ho with
  | @done m g' hf he hv =>
    have hphp : (s.parkFork l p c .nothing (.done m)).phase p = .user := by
      simp [State.parkFork, State.setPhase, hpc]
    have hphc : (s.parkFork l p c .nothing (.done m)).phase c = .user := by
      simp [State.parkFork]
    have hcopy (v : Va) : observed m c v = observed m p v := by
      refine observed_copied hf.rest ?_
      by_cases hvp : v ∈ l.pages
      · exact hf.copied v hvp
      have hnone : m.pte p v = none := by
        cases hm : m.pte p v with
        | none => rfl
        | some e => exact absurd (hf.rest.acc.mapped p v e hm).1 hvp
      rw [hnone, hf.blank v hvp]
      rfl
    refine ⟨g', h.step_of_two hp hchild hf.rest h.running ⟨he.weaken fun _ _ hT => hT, ?_, ?_⟩ ?_ ?_
      (by simp [hphp]) (by simp [hphc])⟩
    · intro r hr
      simp [State.parkFork, State.setPhase, not_or.mp hr]
    · intro r hr
      funext w
      simp [State.parkFork, State.setPhase, Eager.fork, not_or.mp hr]
    · rw [hphp]
      intro ht v
      refine (hv v).trans ((hobs ht v).trans ?_)
      simp [State.parkFork, State.setPhase, Eager.fork]
    · rw [hphc]
      intro ht v
      refine (hcopy v).trans ((hv v).trans ((hobs ht v).trans ?_))
      simp [State.parkFork, State.setPhase, Eager.fork]
  | @sleep m g' va e done rest hsplit hf hpend he hv =>
    have hphp : (s.parkFork l p c .nothing (.sleep m va e rest)).phase p = .forking c va e rest := by
      simp [State.parkFork, State.setPhase, hpc]
    have hphc : (s.parkFork l p c .nothing (.sleep m va e rest)).phase c = .unborn := by
      simp [State.parkFork]
    refine ⟨g', h.step_of_two hp hchild hf.rest h.running ⟨he.weaken fun _ _ hT => hT, ?_, fun _ _ => rfl⟩
      ?_ ?_ ?_ (by simp [hphc])⟩
    · intro r hr
      simp [State.parkFork, State.setPhase, not_or.mp hr]
    · rw [hphp]
      exact ⟨hphc, ⟨done, hsplit, hf.copied, hf.blank⟩, hpend, fun ht v => (hv v).trans (hobs ht v)⟩
    · rw [hphc]
      trivial
    · intro d va' e' rest' hd
      rw [hphp] at hd
      cases hd
      rfl

theorem inv_exit (hu : s.phase p = .user) :
    ∃ g', Inv track l ({ s with
      vm := cleanupAddressSpace s.vm p l.pages
      eager := s.eager.exit p }.setPhase p .absent) g' := by
  obtain ⟨g', hr, he, hn⟩ := cleanupAddressSpace_spec h.rest p l.pages
  refine ⟨g', h.step_of (user_ne_unborn hu) hr h.running ⟨he, ?_, ?_⟩ ?_ (by simp)⟩
  · intro q hq
    simp [State.setPhase, hq]
  · intro q hq
    funext w
    simp [State.setPhase, Eager.exit, hq]
  · rw [setPhase_phase]
    intro v
    refine ⟨hn v ?_, fun _ => by simp [State.setPhase, Eager.exit]⟩
    cases hm : s.vm.pte p v with
    | none => exact .inl rfl
    | some e => exact .inr (h.rest.acc.mapped p v e hm).1

theorem inv_resume (hs : resume l s p .nothing = some t) : ∃ g', Inv track l t g' := by
  have hok := h.phases p
  unfold resume at hs
  generalize hph : s.phase p = ph at hok hs
  cases ph with
  | absent | user | unborn => cases hs
  | copying va pa flags =>
    obtain ⟨ht, hv, hn, hphys⟩ := hok
    cases hs
    have hp : s.phase p ≠ .unborn := by simp [hph]
    rcases copyPage_brings h.rest hv hn pa hphys with ⟨-, ho⟩ | ⟨c, -, hb⟩
    · rw [ho]
      exact h.parked hp h.rest (.refl (page p va) _ _) (by simp) ⟨ht, hv, hn, hphys⟩
    · exact inv_fault h hp hv (show flags.unshared.mapPhys = false from hphys) rfl (fun hc => absurd hc ht)
        (fun hc => absurd hc ht) hb
  | mapping va flags =>
    obtain ⟨hv, hn, hphys, hobs⟩ := hok
    cases hs
    exact inv_mmapPage h (by simp [hph]) hv hn hphys hobs
  | entering va k e =>
    cases k with
    | faultOwn => exact hok.elim
    | faultCopy =>
      obtain ⟨hv, hn, hphys, hw, hheld, heager, hobs⟩ := hok
      cases hs
      exact inv_fault h (by simp [hph]) hv hphys hw heager hobs
        (enterPage_brings h.rest hv hn hphys hheld (.inl rfl))
    | mmap =>
      obtain ⟨hv, hn, hphys, hheld, hz, hobs⟩ := hok
      cases hs
      have hb := enterPage_brings h.rest hv hn hphys hheld (.inr rfl)
      rw [hz] at hb
      exact inv_mmap h (by simp [hph]) hv hphys hn hobs hb
    | mmapPhys =>
      obtain ⟨hv, hn, hphys, hdev, hobs⟩ := hok
      cases hs
      exact inv_phys h (by simp [hph]) hv hn hphys hdev hobs
  | forking c va e rest =>
    obtain ⟨hun, ⟨done, hsplit, hcop, hblank⟩, hpend, hobs⟩ := hok
    cases hs
    have hpc : p ≠ c := by
      rintro rfl
      simp [hph] at hun
    refine inv_fork h hpc (by simp [hph]) ?_ hobs (forkResume_spec hpc hsplit ⟨h.rest, hcop, hblank⟩ hpend)
    intro q hq va' e' rest' hq'
    exact hq (h.parents q p c va' e' rest' va e rest hq' hph)

omit h in
theorem Inv.relist (h : Inv track l s g) (dirs : Linked.Links Unit Pid) (exited : List Pid) :
    Inv track l { s with freePmappagedirList := dirs, exited := exited } g :=
  { h with }

theorem inv_step {a : Action} (ha : Supplied a) (hc : track → NoSleepBeforeCopy s a)
    (hs : step l s a = some t) : ∃ g', Inv track l t g' := by
  cases a with
  | write p va off b =>
    obtain ⟨hu, rfl⟩ := guarded hs
    exact inv_write h (isUser_iff.mp hu) hc
  | mmap p va flags =>
    obtain ⟨hu, rfl⟩ := guarded hs
    obtain ⟨hu, hv, hn, hphys, -⟩ := hu
    have hu := isUser_iff.mp hu
    have hobs := h.phaseOk hu
    exact inv_mmapPage h (user_ne_unborn hu) hv hn (by simpa using hphys) hobs
  | mmapPhys p va pa flags =>
    obtain ⟨hu, rfl⟩ := guarded hs
    obtain ⟨hu, hv, hn, hphys, hpa⟩ := hu
    have hu := isUser_iff.mp hu
    have hobs := h.phaseOk hu
    exact inv_phys h (user_ne_unborn hu) hv hn hphys (h.rest.device pa hpa) hobs
  | fork p c lack =>
    obtain rfl : lack = .nothing := ha
    obtain ⟨hu, rfl⟩ := guarded hs
    have hp := isUser_iff.mp hu.1
    have hc := isAbsent_iff.mp hu.2.1
    have hobs := h.phaseOk hp
    have hpc : p ≠ c := by
      rintro rfl
      rw [hp] at hc
      cases hc
    obtain ⟨hcreate, hblank⟩ := h.blank_of_absent hc
    rw [hcreate]
    refine inv_fork (h.relist _ _) hpc (user_ne_unborn hp) ?_ hobs
      (forkPages_spec hpc (List.nil_append l.pages).symm ⟨h.rest, by simp, fun v _ => hblank v⟩)
    intro q _ va e rest hq
    rw [h.child_unborn hq] at hc
    cases hc
  | exit p =>
    obtain ⟨hu, rfl⟩ := guarded hs
    exact inv_exit (h.relist _ (p :: s.exited)) (isUser_iff.mp hu)
  | reap p =>
    obtain ⟨-, rfl⟩ := guarded hs
    exact ⟨g, h.relist _ _⟩
  | resume p lack =>
    obtain rfl : lack = .nothing := ha
    exact inv_resume h hs
  | kalloc c =>
    simp only [step] at hs
    split at hs
    · cases hs
    · rename_i f m ha
      cases hs
      exact inv_kalloc h ha c
  | kfree f =>
    obtain ⟨hf, rfl⟩ := guarded hs
    exact inv_kfree h hf

end

theorem fork_copies_of_no_sleep (h : Reach (step l) NoSleepBeforeCopy (Booted l) s) : ForkCopies s := by
  obtain ⟨g, hinv⟩ := h.invariant (P := fun s => ∃ g, Inv True l s g) (fun _ => inv_booted)
    fun _ a _ ⟨_, hi⟩ hc hs => inv_step hi (by cases a <;> first | exact hc | trivial) (fun _ => hc) hs
  exact hinv.forkCopies

structure FramesOwned (s : State) : Prop where
  running : s.panicked = false
  live : ∀ p v e, s.vm.pte p v = some e → e.flags.mapPhys = false →
    e.pa ∉ s.vm.freePageQueue ∧ e.pa ∉ s.kernel ∧ ∀ q d, s.vm.l1Table q d ≠ some e.pa
  sole : ∀ p v e, s.vm.pte p v = some e → e.flags.mapPhys = false → e.flags.writable →
    ∀ q w e', s.vm.pte q w = some e' → e'.pa = e.pa → q = p ∧ w = v

-- Holds through the sleeps that let a copy go wrong.
theorem frames_owned (h : Reach (step l) (fun _ => Supplied) (Booted l) s) : FramesOwned s := by
  obtain ⟨g, hr, hrun, -⟩ := h.invariant (P := fun s => ∃ g, Inv False l s g) (fun _ => inv_booted)
    fun _ _ _ ⟨_, hi⟩ ha hs => inv_step hi ha False.elim hs
  refine ⟨hrun, fun p v e he hp => ?_, fun p v e he hp hw q w e' he' hpa => ?_⟩
  · simp [hr.acc.mem_free, hr.acc.mem_kernel, hr.acc.table_iff, hr.role_of_mapped he hp]
  · have hp' : e'.flags.mapPhys = false := by
      have hrole := (hr.acc.mapped q w e' he').2.2
      simpa [hpa, hr.role_of_mapped he hp] using hrole
    have hmem := hr.mem_owners he' hp'
    simpa [hpa, hr.acc.sole p v e he hp hw] using hmem

end

instance : DecidablePred Supplied := fun a => by
  unfold Supplied
  split <;> infer_instance

instance (s : State) : DecidablePred (NoSleepBeforeCopy s) := fun a => by
  unfold NoSleepBeforeCopy
  split <;> infer_instance

def twoPages : Layout := ⟨1024, 1026, 8, by decide⟩

def bootState : State where
  vm := ⟨[7, 6, 5, 4, 3, 2, 1], fun _ => 0, fun _ => zeroPage, fun _ _ => none, fun _ _ => none⟩
  phase := fun p => if p = 1 then .user else .absent
  freePmappagedirList := dlistAddTail (dlistAddTail ⟨fun _ => none, fun _ => none, fun _ => none, fun _ => none⟩ () 2) () 3
  exited := []
  kernel := []
  panicked := false
  eager := fun _ _ => none

theorem bootState_booted : Booted twoPages bootState :=
  ⟨by decide, by decide, rfl, rfl, rfl, rfl, rfl, rfl, rfl⟩

def readWrite : Flags :=
  { protRead := true, protWrite := true, protExec := false, mapPhys := false, mapCow := false }

def forked : List Action :=
  [.mmap 1 1024 readWrite, .mmap 1 1025 readWrite, .write 1 1024 0 7, .fork 1 2 .nothing]

def firstByte (o : Option (Content × Bool)) : Option UInt8 := o.map fun page => page.1.byte 0

theorem fork_copies_after_fault : ∃ s, Reach (step twoPages) NoSleepBeforeCopy (Booted twoPages) s ∧
    firstByte (observed s.vm 1 1024) = some 8 ∧ firstByte (observed s.vm 2 1024) = some 7 ∧ ForkCopies s :=
  Reach.exists_of_run (Q := fun s => firstByte (observed s.vm 1 1024) = some 8 ∧
      firstByte (observed s.vm 2 1024) = some 7) (forked ++ [.write 1 1024 0 8, .write 1 1024 0 8]) bootState_booted
    (by decide) (by decide) fun _ hr hq => ⟨hq.1, hq.2, fork_copies_of_no_sleep hr⟩

def race : List Action :=
  forked ++ [.kalloc zeroPage, .kalloc zeroPage, .kalloc zeroPage, .write 1 1024 0 8, .write 2 1024 0 9,
    .write 2 1024 0 9, .kfree 5, .resume 1 .nothing]

theorem parent_sees_child_store : ∃ s, Reach (step twoPages) always (Booted twoPages) s ∧
    firstByte (observed s.vm 1 1024) = some 9 ∧ firstByte (s.eager 1 1024) = some 7 ∧ ¬ ForkCopies s := by
  refine Reach.exists_of_run (Q := fun s => isUser (s.phase 1) = true ∧ firstByte (observed s.vm 1 1024) = some 9 ∧
      firstByte (s.eager 1 1024) = some 7) race bootState_booted (meets_always _ _) (by decide)
    fun s _ ⟨hu, ho, he⟩ => ⟨ho, he, ?_⟩
  have hph := isUser_iff.mp hu
  rintro ⟨-, hc⟩
  have heq := hc 1 1024 (by simp [hph]) (by simp [hph, Phase.faulting])
  rw [heq, he] at ho
  simp at ho

theorem frames_owned_after_race : ∃ s, Reach (step twoPages) (fun _ => Supplied) (Booted twoPages) s ∧
    firstByte (observed s.vm 1 1024) = some 9 ∧ FramesOwned s :=
  Reach.exists_of_run (Q := fun s => firstByte (observed s.vm 1 1024) = some 9) race bootState_booted
    (by decide) (by decide) fun _ hr hq => ⟨hq, frames_owned hr⟩

end CheviotKernel.Vm
