import CheviotKernel.Vm.RegionLists

namespace CheviotKernel.MemRegions

open Linked CheviotKernel.Lists Runs Tiling

structure MmapArgs where
  addr : BitVec 32
  len : BitVec 32
  prot : BitVec 32
  flags : BitVec 32

def mapCow : BitVec 32 := 1 <<< 26

def mapUser : BitVec 32 := 1 <<< 27

def memMask : BitVec 32 := 0xF0000000

def vmSystemMask : BitVec 32 := memMask ||| mapCow ||| mapUser

def MmapArgs.base (a : MmapArgs) : ℕ := alignDown a.addr.toNat

def MmapArgs.size (a : MmapArgs) : ℕ := alignUp a.len.toNat

section

variable (cfg : Config) (x : Spaces)

def MmapArgs.regionFlags (a : MmapArgs) : BitVec 32 :=
  (a.flags &&& cfg.vmFlagsMask &&& ~~~vmSystemMask) ||| mapUser ||| (a.prot &&& cfg.vmProtMask)

def sysMmap (s : State) (as : AsId) (allowed mapped : Bool) (a : MmapArgs) :
    Option (State × Option ℕ) :=
  if allowed then
    (memregionCreate cfg s as a.base a.size (a.regionFlags cfg) .alloc).bind fun (s, mr) =>
      match mr with
      | none => some (s, none)
      | some mr =>
        let addr := (s.region mr).baseAddr
        if mapped ∨ ¬ addr < word (addr + a.size) then some (s, some addr)
        else (memregionFree cfg s as addr a.size).map fun (s, _) => (s, none)
  else some (s, none)

def sysMunmap (s : State) (as : AsId) (addr len : BitVec 32) : Option (State × Result) :=
  (memregionFree cfg s as (alignDown addr.toNat) (alignUp len.toNat)).map fun (s, _) => (s, .ok ())

structure Spaces where
  mem : State
  live : AsId → Bool

inductive Request
  | create (as : AsId)
  | fork (new old : AsId)
  | cleanup (as : AsId)
  | free (as : AsId)
  | mmap (as : AsId) (allowed mapped : Bool) (a : MmapArgs)
  | munmap (as : AsId) (addr len : BitVec 32)

def Spaces.set (mem : State) (as : AsId) (live : Bool) : Spaces :=
  ⟨mem, Function.update x.live as live⟩

def Request.Enabled : Request → Prop
  | .create as => x.live as = false
  | .fork new old => x.live new = false ∧ x.live old = true
  | .cleanup as => x.live as = true
  | .free as => x.live as = true
  | .mmap as _ _ _ => x.live as = true
  | .munmap as _ _ => x.live as = true

instance decidableEnabled : ∀ q : Request, Decidable (q.Enabled x) := fun a => by
  unfold Request.Enabled
  split <;> infer_instance

def serve : Request → Option Spaces
  | .create as =>
    let r := initMemregions cfg x.mem as
    some (x.set r.1 as r.2.isOk)
  | .fork new old => (forkMemregions cfg x.mem new old).map fun r => x.set r.1 new r.2.isOk
  | .cleanup as => (memregionFreeAll cfg x.mem as).map fun s =>
    let r := initMemregions cfg s as
    x.set r.1 as r.2.isOk
  | .free as => (memregionFreeAll cfg x.mem as).map fun s => x.set s as false
  | .mmap as allowed mapped a => (sysMmap cfg x.mem as allowed mapped a).map fun r => { x with mem := r.1 }
  | .munmap as addr len => (sysMunmap cfg x.mem as addr len).map fun r => { x with mem := r.1 }

def spaceStep (q : Request) : Option Spaces :=
  if q.Enabled x then serve cfg x q else none

def SpacesBooted : Prop := x = ⟨boot cfg, fun _ => false⟩

def MmapSane (s : State) (as : AsId) (mapped : Bool) (a : MmapArgs) : Prop :=
  a.size ≠ 0 ∧ (a.regionFlags cfg &&& cfg.mapFixed ≠ 0 → a.base + a.size < 2 ^ 32) ∧
    ∀ p ∈ memregionCreate cfg s as a.base a.size (a.regionFlags cfg) .alloc, ∀ mr ∈ p.2,
      mapped = false → Freeable cfg p.1 as (p.1.region mr).baseAddr a.size
  deriving Decidable

def Sane : Request → Prop
  | .mmap as allowed mapped a => allowed = true → MmapSane cfg x.mem as mapped a
  | .munmap as addr len => Freeable cfg x.mem as (alignDown addr.toNat) (alignUp len.toNat)
  | _ => True

def Partitioned (as : AsId) : Prop :=
  ∃ v, Shows x.mem v ∧ Partition cfg.userBase cfg.userCeiling (layout x.mem (v.sorted as))

end

structure SpacesInv (cfg : Config) (x : Spaces) (v : View) : Prop where
  inv : Inv cfg x.mem v
  proper : ∀ as, Proper (layout x.mem (v.sorted as))
  live : ∀ as, x.live as = true ↔ v.sorted as ≠ []

section Calls

variable {cfg : Config} {s u : State} {v w : View} {as : AsId} {x y : Spaces} {a : MmapArgs}
  {ok allowed mapped : Bool} {n addr : ℕ}

theorem word_of_lt (h : n < 2 ^ 32) : word n = n := Nat.mod_eq_of_lt h

section

variable (h : Inv cfg s v) (hp : ∀ as, Proper (layout s (v.sorted as)))
include h hp

theorem Picked.room_of_sane {q : RegionId}
    (hpick : Picked cfg s v as a.base a.size (a.regionFlags cfg) q addr)
    (hfixed : a.regionFlags cfg &&& cfg.mapFixed ≠ 0 → a.base + a.size < 2 ^ 32) :
    word (addr + a.size) = addr + a.size ∧ cfg.userBase ≤ addr ∧ addr + a.size ≤ cfg.userCeiling := by
  have hq := ((h.isFree as q).mp hpick.free).1
  obtain ⟨hlo, hhi⟩ := (h.tiles as (List.ne_nil_of_mem hq)).within (hp as) (List.mem_map_of_mem hq)
  simp only [span] at hlo hhi
  have hceiling := cfg.ceiling_lt
  have hword : word (addr + a.size) = addr + a.size := by
    apply word_of_lt
    by_cases hf : a.regionFlags cfg &&& cfg.mapFixed = 0
    · have hroom := hpick.room hf
      omega
    · rw [hpick.fixed hf]
      exact hfixed hf
  have hbase := hpick.base
  have htop := hpick.top
  exact ⟨hword, by omega, by omega⟩

theorem Inv.mmap (hc : allowed = true → MmapSane cfg s as mapped a) :
    ∃ t r w, sysMmap cfg s as allowed mapped a = some (t, r) ∧ Inv cfg t w ∧ After s v t w ∧
      ∀ addr ∈ r, cfg.userBase ≤ addr ∧ addr + a.size ≤ cfg.userCeiling := by
  cases allowed with
  | false => exact ⟨s, none, v, rfl, h, After.refl s v, by simp⟩
  | true =>
    obtain ⟨hsize, hfixed, hcleanup⟩ := hc rfl
    obtain ⟨u, mr, w, hrun, hw, hnone, hsome⟩ :=
      h.create (show MrType.alloc ≠ .free by decide) as a.base a.size (a.regionFlags cfg)
    simp only [sysMmap, if_true, hrun, Option.bind_some]
    cases mr with
    | none => exact ⟨u, none, w, rfl, hw, hnone rfl, by simp⟩
    | some mr =>
      obtain ⟨-, q, addr, hpick, hspan, hafter⟩ := hsome mr rfl
      obtain ⟨hword, hlo, hhi⟩ := hpick.room_of_sane h hp hfixed
      have hafter' := hafter (by omega)
      have hbase : (u.region mr).baseAddr = addr := congrArg Prod.fst hspan
      dsimp only
      split_ifs with hmapped
      · refine ⟨u, some addr, w, by rw [hbase], hw, hafter', ?_⟩
        rintro b ⟨⟩
        exact ⟨hlo, hhi⟩
      · obtain ⟨t, sc, z, hfree, hz, hafter''⟩ :=
          hw.free (hcleanup _ hrun mr rfl (by simpa using (not_or.mp hmapped).1))
        exact ⟨t, none, z, by rw [hfree]; rfl, hz, hafter'.trans hafter'', by simp⟩

end

theorem proper_ite {ts : List (ℕ × ℕ)} (h : Proper ts) : Proper (if ok then ts else []) := by
  cases ok with
  | true => exact h
  | false => exact fun t ht => nomatch ht

namespace SpacesInv

variable (h : SpacesInv cfg x v)
include h

theorem after (hw : Inv cfg u w) (ha : After x.mem v u w) : SpacesInv cfg { x with mem := u } w :=
  ⟨hw, ha.proper h.proper, fun as => by rw [h.live as, ne_eq, ne_eq, ha.empty as]⟩

theorem set (hw : Inv cfg u w) (hother : ∀ i ≠ as, w.sorted i = v.sorted i)
    (hlay : ∀ i ≠ as, layout u (v.sorted i) = layout x.mem (v.sorted i))
    (hproper : Proper (layout u (w.sorted as))) (hlive : ok = true ↔ layout u (w.sorted as) ≠ []) :
    SpacesInv cfg (x.set u as ok) w := by
  refine ⟨hw, fun i => ?_, fun i => ?_⟩
  · show Proper (layout u (w.sorted i))
    by_cases hi : i = as
    · subst hi
      exact hproper
    · rw [hother i hi, hlay i hi]
      exact h.proper i
  · by_cases hi : i = as
    · subst hi
      simpa [Spaces.set, layout] using hlive
    · rw [hother i hi]
      simpa [Spaces.set, hi] using h.live i

theorem init (as : AsId) :
    ∃ w, SpacesInv cfg (x.set (initMemregions cfg x.mem as).1 as (initMemregions cfg x.mem as).2.isOk) w := by
  obtain ⟨u, sc, w, hrun, hw, hother, hlay, hnew⟩ := h.inv.initMemregions as
  have harea : Proper [(cfg.userBase, cfg.userCeiling)] := by
    intro t ht
    rw [List.mem_singleton] at ht
    subst ht
    exact cfg.base_lt_ceiling
  rw [hrun]
  refine ⟨w, h.set hw hother hlay ?_ ?_⟩
  · rw [hnew]
    exact proper_ite harea
  · simp [hnew]

theorem freeAll (as : AsId) :
    ∃ u w, memregionFreeAll cfg x.mem as = some u ∧ SpacesInv cfg (x.set u as false) w := by
  obtain ⟨u, w, hrun, hw, hsorted, hlay, -⟩ := (h.inv.except as).freeAll
  refine ⟨u, w, hrun, h.set hw (fun i hi => by simp [hsorted, hi]) hlay ?_ ?_⟩
  · simp [hsorted, layout, Proper]
  · simp [hsorted, layout]

theorem step {q : Request} (hc : Sane cfg x q) (he : q.Enabled x) :
    ∃ y w, spaceStep cfg x q = some y ∧ SpacesInv cfg y w := by
  rw [spaceStep, if_pos he]
  cases q with
  | create as =>
    obtain ⟨w, hw⟩ := h.init as
    exact ⟨_, w, rfl, hw⟩
  | fork new old =>
    obtain ⟨hnew, hold⟩ := he
    have hne : old ≠ new := by
      rintro rfl
      rw [hnew] at hold
      cases hold
    obtain ⟨u, sc, w, hrun, hw, hother, hlay, hcopy, -⟩ := h.inv.fork new old
    have hfull : layout x.mem (v.sorted old) ≠ [] := by simpa [layout] using (h.live old).mp hold
    refine ⟨x.set u new sc.isOk, w, by simp [serve, hrun], h.set hw hother hlay ?_ ?_⟩
    · rw [hcopy hne]
      exact proper_ite (h.proper old)
    · simp [hcopy hne, hfull]
  | cleanup as =>
    obtain ⟨u, w, hrun, hw⟩ := h.freeAll as
    obtain ⟨z, hz⟩ := hw.init as
    refine ⟨x.set (initMemregions cfg u as).1 as (initMemregions cfg u as).2.isOk, z, ?_, ?_⟩
    · simp only [serve, hrun, Option.map_some]
    · simpa [Spaces.set] using hz
  | free as =>
    obtain ⟨u, w, hrun, hw⟩ := h.freeAll as
    exact ⟨_, w, by simp only [serve, hrun, Option.map_some], hw⟩
  | mmap as allowed mapped a =>
    obtain ⟨u, r, w, hrun, hw, hafter, -⟩ := h.inv.mmap h.proper hc
    exact ⟨_, w, by simp only [serve, hrun, Option.map_some], h.after hw hafter⟩
  | munmap as addr len =>
    obtain ⟨u, sc, w, hrun, hw, hafter⟩ := h.inv.free hc
    exact ⟨_, w, by simp only [serve, sysMunmap, hrun, Option.map_some], h.after hw hafter⟩

end SpacesInv

theorem partition_of_sane (h : Reach (spaceStep cfg) (Sane cfg) (SpacesBooted cfg) x) :
    (∀ as, x.live as = true → Partitioned cfg x as) ∧
    ∀ q, Sane cfg x q → q.Enabled x → (spaceStep cfg x q).isSome = true ∧
      ∀ as allowed mapped a s addr, q = .mmap as allowed mapped a →
        sysMmap cfg x.mem as allowed mapped a = some (s, some addr) →
        cfg.userBase ≤ addr ∧ addr + a.size ≤ cfg.userCeiling := by
  obtain ⟨v, hv⟩ := h.invariant (P := fun x => ∃ v, SpacesInv cfg x v)
    (by
      rintro x rfl
      refine ⟨_, inv_booted cfg, ?_, ?_⟩
      · simp [layout, Proper]
      · simp)
    (by
      rintro x q y ⟨v, hv⟩ hc hs
      have he : q.Enabled x := by
        by_contra hno
        simp [spaceStep, hno] at hs
      obtain ⟨z, w, hz, hw⟩ := hv.step hc he
      obtain rfl : z = y := Option.some.inj (hz.symm.trans hs)
      exact ⟨w, hw⟩)
  refine ⟨fun as hlive => ?_, fun q hc he => ⟨?_, ?_⟩⟩
  · exact ⟨v, hv.inv.shows, (hv.inv.tiles as ((hv.live as).mp hlive)).partition (hv.proper as)⟩
  · obtain ⟨y, w, hy, -⟩ := hv.step hc he
    simp [hy]
  · rintro as allowed mapped a s addr rfl hrun
    obtain ⟨u, r, w, hrun', -, -, haddr⟩ := hv.inv.mmap hv.proper hc
    rw [hrun'] at hrun
    cases hrun
    exact haddr addr rfl

end Calls

instance decidableSane (cfg : Config) (x : Spaces) : ∀ q, Decidable (Sane cfg x q) := fun a => by
  unfold Sane
  split <;> infer_instance

def mmapRun : List Request :=
  [.create 0, .mmap 0 true true ⟨0, 0x800, 3, 0⟩, .mmap 0 true true ⟨0, 0x1001, 3, 0⟩,
    .mmap 0 true true ⟨0x00500123, 0x1000, 3, 0x10⟩, .munmap 0 0x00401000 0x1000, .fork 1 0]

theorem partition_after_munmap :
    ∃ x, Reach (spaceStep smallConfig) (Sane smallConfig) (SpacesBooted smallConfig) x ∧ x.live 1 = true ∧
      Partitioned smallConfig x 1 :=
  Reach.exists_of_run (Q := fun x => x.live 1 = true) mmapRun rfl (by decide) (by decide)
    fun _ hr hq => ⟨hq, (partition_of_sane hr).1 1 hq⟩

def emptyRun : List Request := [.create 0, .mmap 0 true true ⟨0, 0, 3, 0⟩]

theorem empty_region_in_list :
    ∃ x, Reach (spaceStep smallConfig) always (SpacesBooted smallConfig) x ∧ x.live 0 = true ∧
      ¬ Partitioned smallConfig x 0 := by
  refine Reach.exists_of_run (Q := fun x => x.live 0 = true ∧ x.mem.sortedLink.head 0 = some 0 ∧
      (x.mem.region 0).baseAddr = 0x00400000 ∧ (x.mem.region 0).ceilingAddr = 0x00400000) emptyRun rfl
    (meets_always _ _) (by decide) fun x _ ⟨hlive, hhead, hbase, hceiling⟩ => ⟨hlive, ?_⟩
  rintro ⟨v, hv, hpart⟩
  rw [(hv.sorted.spells 0).head] at hhead
  have hlt := hpart.nonempty (span x.mem 0) (List.mem_map_of_mem (List.mem_of_head? hhead))
  simp [span, hbase, hceiling] at hlt

end CheviotKernel.MemRegions
