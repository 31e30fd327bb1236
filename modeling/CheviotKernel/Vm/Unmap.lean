import Mathlib.Data.List.Pairwise
import CheviotKernel.Vm.RegionLists

namespace CheviotKernel.MemRegions

open Function Linked CheviotKernel.Lists Runs Tiling

abbrev Kind := MrType × BitVec 32

def kind (s : State) (r : RegionId) : Kind := ((s.region r).type, (s.region r).flags)

def cells (s : State) (rs : List RegionId) : List ((ℕ × ℕ) × Kind) := rs.map fun r => (span s r, kind s r)

def mapAt (cfg : Config) (s : State) (as : AsId) (n : ℕ) : Option Kind :=
  (walk s.sortedLink.next (fun r => (s.region r).contains n) (bound cfg) (s.sortedLink.head as)).join.map (kind s)

-- The address space's list of regions is a partition of the user area. Nothing is said of its
-- free list, which memregion_free can leave in disorder.
structure Laid (cfg : Config) (s : State) (as : AsId) (ls : AsId → List RegionId) (us : List RegionId) : Prop where
  sorted : Family s.sortedLink ls
  unused : Family s.unusedLink fun _ => us
  apart : ∀ i, ∀ r ∈ ls i, r ∉ us
  sortedBound : ∀ i, ∀ r ∈ ls i, r < cfg.maxMemregion
  unusedBound : ∀ r ∈ us, r < cfg.maxMemregion
  hint : ∀ r ∈ s.hint as, r ∈ ls as
  tiles : Tiles cfg.userBase cfg.userCeiling (layout s (ls as))
  proper : Proper (layout s (ls as))
  freeFlags : ∀ r ∈ ls as, (s.region r).type = .free → (s.region r).flags = 0

section

variable {cfg : Config} {s u : State} {as : AsId} {ls : AsId → List RegionId}
  {us us' pre mid mid' post rs rest suf : List RegionId} {p r mr x q : RegionId} {n addr top cur : ℕ}

theorem map_fst_cells (s : State) (rs : List RegionId) : (cells s rs).map Prod.fst = layout s rs := by
  simp [cells, layout]

theorem cells_append (s : State) (xs ys : List RegionId) : cells s (xs ++ ys) = cells s xs ++ cells s ys :=
  List.map_append

theorem cells_congr (h : ∀ r ∈ rs, u.region r = s.region r) : cells u rs = cells s rs := by
  refine List.map_congr_left fun r hr => ?_
  rw [span, span, kind, kind, h r hr]

def Boundary (s : State) (rs : List RegionId) (n : ℕ) : Prop :=
  ∀ r ∈ rs, ¬ ((s.region r).baseAddr < n ∧ n < (s.region r).ceilingAddr)

structure SplitAt (cfg : Config) (addr : ℕ) (as : AsId) (s : State) (ls : AsId → List RegionId) (us : List RegionId)
    (u : State) (ls' : AsId → List RegionId) (us' : List RegionId) (sc : Result) : Prop where
  laid : Laid cfg u as ls' us'
  map : ∀ n, labelAt (cells u (ls' as)) n = labelAt (cells s (ls as)) n
  keeps : ∀ n, Boundary s (ls as) n → Boundary u (ls' as) n
  cut : sc = .ok () → Boundary u (ls' as) addr
  spares : us.length ≤ us'.length + 1
  succeeds : cfg.userBase ≤ addr → addr < cfg.userCeiling → us ≠ [] → sc = .ok ()
  fails : cfg.userCeiling ≤ addr → sc ≠ .ok ()

def Freed (s : State) (rs : List RegionId) (u : State) (rs' : List RegionId) (lo hi : ℕ) : Prop :=
  ∀ n, labelAt (cells u rs') n = if lo ≤ n ∧ n < hi then some (.free, 0) else labelAt (cells s rs) n

section

variable (h : Laid cfg s as ls us) (hs : ls as = pre ++ r :: post)
include h

namespace Laid

theorem length_lt (i : AsId) : (ls i).length < bound cfg :=
  Nat.lt_succ_of_le (length_le_of_lt (h.sorted.spells i).nodup (h.sortedBound i))

theorem mapAt_eq (n : ℕ) : mapAt cfg s as n = labelAt (cells s (ls as)) n := by
  rw [mapAt, (h.sorted.spells as).walk _ (h.length_lt as), labelAt, cells, List.find?_map]
  simp only [Option.map_map]
  have hfun : (fun r => (s.region r).contains n) =
      (fun c : (ℕ × ℕ) × Kind => decide (c.1.1 ≤ n ∧ n < c.1.2)) ∘ fun r => (span s r, kind s r) := by
    funext r
    simp [MemRegion.contains, span]
  rw [hfun]
  rfl

theorem nodup : (ls as ++ us).Nodup :=
  List.nodup_append.mpr ⟨(h.sorted.spells as).nodup, (h.unused.spells ()).nodup,
    fun a ha _ hb hab => h.apart as a ha (hab ▸ hb)⟩

theorem recut (u : State) (mid' us' : List RegionId) (hs : ls as = pre ++ mid ++ post)
    (hL : Family u.sortedLink (update ls as (pre ++ mid' ++ post))) (hU : Family u.unusedLink fun _ => us')
    (hpool : mid' ++ us' = mid ++ us) (hkeep : ∀ q ∈ pre ++ post, u.region q = s.region q) (hhint : u.hint as = none)
    (htiles : ∀ a b, Tiles a b (layout s mid) → Tiles a b (layout u mid'))
    (hproper : ∀ a b, Tiles a b (layout s mid) → Proper (layout s mid) → Proper (layout u mid'))
    (hfree : ∀ q ∈ mid', (u.region q).type = .free → (u.region q).flags = 0) :
    Laid cfg u as (update ls as (pre ++ mid' ++ post)) us' ∧
      cells u (pre ++ mid' ++ post) = cells s pre ++ cells u mid' ++ cells s post := by
  have hmem {q : RegionId} (hq : q ∈ mid' ∨ q ∈ us') : q ∈ ls as ∨ q ∈ us := by
    have : q ∈ mid ++ us := hpool ▸ List.mem_append.mpr hq
    exact (List.mem_append.mp this).imp_left fun hm => by simp [hs, hm]
  have hnew {q : RegionId} (hq : q ∈ pre ++ mid' ++ post) : q ∈ ls as ∨ q ∈ us := by
    simp only [List.mem_append] at hq
    rcases hq with (hq | hq) | hq
    · exact .inl (by simp [hs, hq])
    · exact hmem (.inl hq)
    · exact .inl (by simp [hs, hq])
  have hbound {q : RegionId} (hq : q ∈ ls as ∨ q ∈ us) : q < cfg.maxMemregion :=
    hq.elim (h.sortedBound as q) (h.unusedBound q)
  have hlay (xs : List RegionId) (hxs : ∀ q ∈ xs, q ∈ pre ++ post) : layout u xs = layout s xs :=
    layout_congr fun q hq => by rw [span, span, hkeep q (hxs q hq)]
  have hpre := hlay pre fun q hq => by simp [hq]
  have hpost := hlay post fun q hq => by simp [hq]
  have hlayout : layout u (pre ++ mid' ++ post) = layout s pre ++ layout u mid' ++ layout s post := by
    rw [layout_append, layout_append, hpre, hpost]
  have hold : layout s (ls as) = layout s pre ++ layout s mid ++ layout s post := by
    rw [hs, layout_append, layout_append]
  obtain ⟨a, b, hmid⟩ : ∃ a b, Tiles a b (layout s mid) := by
    obtain ⟨b, hb, -⟩ := tiles_append.mp (hold ▸ h.tiles)
    obtain ⟨a, -, ha⟩ := tiles_append.mp hb
    exact ⟨a, b, ha⟩
  have hnodup : (pre ++ mid' ++ post ++ us').Nodup := by
    have hperm : (pre ++ mid' ++ post ++ us').Perm (pre ++ mid ++ post ++ us) := by
      refine List.perm_iff_count.mpr fun q => ?_
      have hcount := congrArg (List.count q) hpool
      simp only [List.count_append] at hcount ⊢
      omega
    exact hperm.nodup_iff.mpr (hs ▸ h.nodup)
  refine ⟨⟨hL, hU, ?_, ?_, ?_, ?_, ?_, ?_, ?_⟩, ?_⟩
  · intro i q hq hu
    rcases mem_update.mp hq with ⟨-, hin⟩ | ⟨hi, hin⟩
    · exact (List.nodup_append.mp hnodup).2.2 q hin q hu rfl
    · rcases hmem (.inr hu) with hold | hold
      · exact hi (h.sorted.apart hin hold)
      · exact h.apart i q hin hold
  · intro i q hq
    rcases mem_update.mp hq with ⟨-, hin⟩ | ⟨-, hin⟩
    · exact hbound (hnew hin)
    · exact h.sortedBound i q hin
  · exact fun q hq => hbound (hmem (.inr hq))
  · simp [hhint]
  · rw [update_self, hlayout]
    exact (hold ▸ h.tiles).replace htiles
  · rw [update_self, hlayout]
    exact (hold ▸ h.proper).replace (hproper a b hmid)
  · intro q hq hf
    rw [update_self] at hq
    simp only [List.mem_append] at hq
    rcases hq with (hq | hq) | hq
    · rw [hkeep q (by simp [hq])] at hf ⊢
      exact h.freeFlags q (by simp [hs, hq]) hf
    · exact hfree q hq hf
    · rw [hkeep q (by simp [hq])] at hf ⊢
      exact h.freeFlags q (by simp [hs, hq]) hf
  · have hpre : cells u pre = cells s pre := cells_congr fun q hq => hkeep q (by simp [hq])
    have hpost : cells u post = cells s post := cells_congr fun q hq => hkeep q (by simp [hq])
    rw [cells_append, cells_append, hpre, hpost]

theorem setHint {o : Option RegionId} (ho : ∀ r ∈ o, r ∈ ls as) : Laid cfg (s.setHint as o) as ls us :=
  { h with hint := by simpa [State.setHint] using ho }

theorem findSorted (addr : ℕ) :
    ∃ o mr, memregionFindSorted cfg s as addr = some (s.setHint as o, mr) ∧ (∀ r ∈ o, r ∈ ls as) ∧
      (∀ r ∈ mr, r ∈ ls as ∧ (s.region r).contains addr = true) ∧
      (mr = none → ∀ r ∈ ls as, (s.region r).contains addr = false) :=
  find_spelled h.hint (h.sorted.spells as) (h.length_lt as) fun _ => id

theorem within (hr : r ∈ ls as) :
    cfg.userBase ≤ (s.region r).baseAddr ∧ (s.region r).baseAddr < (s.region r).ceilingAddr ∧
      (s.region r).ceilingAddr ≤ cfg.userCeiling := by
  have hmem : span s r ∈ layout s (ls as) := List.mem_map_of_mem hr
  obtain ⟨hlo, hhi⟩ := h.tiles.within h.proper hmem
  exact ⟨hlo, h.proper _ hmem, hhi⟩

theorem covered (hlo : cfg.userBase ≤ n) (hhi : n < cfg.userCeiling) :
    ∃ r ∈ ls as, (s.region r).contains n = true := by
  obtain ⟨t, ht, htn⟩ := ((h.tiles.partition h.proper).covers n).mp ⟨hlo, hhi⟩
  obtain ⟨r, hr, rfl⟩ := List.mem_map.mp ht
  exact ⟨r, hr, contains_iff.mpr htn⟩

theorem disjoint (hr : r ∈ ls as) (hq : q ∈ ls as) (hne : r ≠ q) :
    (s.region r).ceilingAddr ≤ (s.region q).baseAddr ∨ (s.region q).ceilingAddr ≤ (s.region r).baseAddr := by
  have hord : (ls as).Pairwise fun r q => (span s r).2 ≤ (span s q).1 :=
    List.pairwise_map.mp (h.tiles.partition h.proper).ordered
  have hsym : (ls as).Pairwise fun r q => (span s r).2 ≤ (span s q).1 ∨ (span s q).2 ≤ (span s r).1 :=
    hord.imp .inl
  have : Std.Symm fun r q => (span s r).2 ≤ (span s q).1 ∨ (span s q).2 ≤ (span s r).1 := ⟨fun _ _ => Or.symm⟩
  exact hsym.forall hr hq hne

end Laid

include hs

theorem Laid.not_before (n : ℕ)
    (hlo : (s.region r).baseAddr ≤ n) (hhi : n < (s.region r).ceilingAddr) : labelAt (cells s pre) n = none := by
  refine labelAt_eq_none fun c hc hcn => ?_
  obtain ⟨q, hq, rfl⟩ := List.mem_map.mp hc
  have hne := ne_of_mem_pre (hs ▸ (h.sorted.spells as).nodup) hq
  have hdis := h.disjoint (by simp [hs, hq]) (by simp [hs]) hne.symm
  have hin : (s.region q).baseAddr ≤ n ∧ n < (s.region q).ceilingAddr := hcn
  omega

protected theorem Laid.markFree (hhint : s.hint as = none) :
    Laid cfg (markFree s as r) as ls us ∧ Freed s (ls as) (markFree s as r) (ls as)
      (s.region r).baseAddr (s.region r).ceilingAddr := by
  have hs' : ls as = pre ++ [r] ++ post := by simp [hs]
  have hnodup := (h.sorted.spells as).nodup
  rw [hs] at hnodup
  have hregion (q : RegionId) : (markFree s as r).region q =
      if q = r then { s.region r with type := .free, flags := 0 } else s.region q := by
    by_cases hq : q = r
    · subst hq
      simp [markFree, State.setRegion]
    · simp [markFree, State.setRegion, hq]
  have hout (q : RegionId) (hq : q ∈ pre ++ post) : q ≠ r :=
    fun e => (List.nodup_cons.mp (List.nodup_middle.mp hnodup)).1 (e ▸ hq)
  have hlay : layout (markFree s as r) [r] = layout s [r] := by simp [layout, span, hregion]
  have hL : Family (markFree s as r).sortedLink (update ls as (pre ++ [r] ++ post)) := by
    rw [← hs', update_eq_self]
    exact h.sorted
  have hfree (q : RegionId) (hq : q ∈ [r]) (_ : ((markFree s as r).region q).type = .free) :
      ((markFree s as r).region q).flags = 0 := by
    rw [List.mem_singleton] at hq
    simp [hregion, hq]
  obtain ⟨hlaid, hcells⟩ := h.recut (markFree s as r) [r] us hs' hL h.unused rfl
    (fun q hq => by simp [hregion, hout q hq]) hhint (fun a b ht => by rwa [hlay])
    (fun a b _ hp => by rwa [hlay]) hfree
  rw [← hs', update_eq_self] at hlaid
  refine ⟨hlaid, fun n => ?_⟩
  rw [hs', hcells, cells_append, cells_append]
  refine labelAt_paint (h.not_before hs) (fun n => ?_) n
  have hnew : cells (markFree s as r) [r] =
      [(((s.region r).baseAddr, (s.region r).ceilingAddr), (.free, 0))] := by
    simp [cells, span, kind, hregion]
  have hold : cells s [r] = [(((s.region r).baseAddr, (s.region r).ceilingAddr), kind s r)] := rfl
  rw [hnew, hold, labelAt_singleton, labelAt_singleton]
  split_ifs <;> rfl

omit hs

protected theorem Laid.absorb (hs : ls as = pre ++ p :: r :: post) (hp : (s.region p).type = .free) (hhint : s.hint as = none) :
    Laid cfg (absorb s as p r) as (update ls as (pre ++ [p] ++ post)) (r :: us) ∧
      Freed s (ls as) (absorb s as p r) (pre ++ [p] ++ post)
        (s.region r).baseAddr (s.region r).ceilingAddr := by
  have hs' : ls as = (pre ++ [p]) ++ r :: post := by simp [hs]
  have hs'' : ls as = pre ++ [p, r] ++ post := by simp [hs]
  have hnodup := hs ▸ (h.sorted.spells as).nodup
  simp only [List.nodup_middle, List.nodup_cons, List.mem_append, List.mem_cons, not_or] at hnodup
  obtain ⟨⟨hp₁, hne, hp₂⟩, hr, -⟩ := hnodup
  have hout (q : RegionId) (hq : q ∈ pre ++ post) : q ≠ p ∧ q ≠ r := by
    constructor
    · rintro rfl
      exact (List.mem_append.mp hq).elim hp₁ hp₂
    · rintro rfl
      exact (List.mem_append.mp hq).elim hr.1 hr.2
  have hregion := absorb_region s as hne
  have hmeet : (s.region p).ceilingAddr = (s.region r).baseAddr := by
    have ht := h.tiles
    rw [hs, layout_append] at ht
    exact ht.meet
  have hwp := h.within (r := p) (by simp [hs])
  have hwr := h.within (r := r) (by simp [hs])
  have hflags := h.freeFlags p (by simp [hs]) hp
  have hU := family_addHead h.unused (i := ()) fun _ => h.apart as r (by simp [hs])
  have hmid : cells (absorb s as p r) [p] =
      [(((s.region p).baseAddr, (s.region r).ceilingAddr), (.free, 0))] := by
    simp [cells, span, kind, hregion, hne, hp, hflags]
  have hold : cells s [p, r] = [(((s.region p).baseAddr, (s.region r).baseAddr), (.free, 0)),
      (((s.region r).baseAddr, (s.region r).ceilingAddr), kind s r)] := by
    simp [cells, span, kind, hp, hflags, hmeet]
  have hlay : layout (absorb s as p r) [p] = [((s.region p).baseAddr, (s.region r).ceilingAddr)] := by
    rw [← map_fst_cells, hmid]
    rfl
  have htiles (a b : ℕ) (ht : Tiles a b (layout s [p, r])) : Tiles a b (layout (absorb s as p r) [p]) := by
    rw [hlay]
    exact ⟨ht.1, ht.2.2⟩
  have hproper : Proper (layout (absorb s as p r) [p]) := by
    intro t ht
    rw [hlay, List.mem_singleton] at ht
    subst ht
    omega
  have hfree (q : RegionId) (hq : q ∈ [p]) (_ : ((absorb s as p r).region q).type = .free) :
      ((absorb s as p r).region q).flags = 0 := by
    rw [List.mem_singleton] at hq
    subst hq
    simpa [hregion, hne] using hflags
  obtain ⟨hlaid, hcells⟩ := h.recut (absorb s as p r) [p] (r :: us) hs''
    (family_remEntry h.sorted hs') hU (by simp) (fun q hq => by simp [hregion, hout q hq]) hhint
    htiles (fun _ _ _ _ => hproper) hfree
  refine ⟨hlaid, fun n => ?_⟩
  rw [hcells, hs'', cells_append, cells_append]
  refine labelAt_paint (fun n hlo hhi => ?_) (fun n => ?_) n
  · have hbefore := h.not_before hs' n hlo hhi
    rw [cells_append, labelAt_append] at hbefore
    exact (Option.or_eq_none_iff.mp hbefore).1
  · rw [hmid, hold]
    exact labelAt_grow (by omega) (by omega) _ _ n

protected theorem Laid.freeRegion (hs : ls as = pre ++ r :: suf) (hhint : s.hint as = none)
    (hin : (s.region r).baseAddr ≥ addr ∧ (s.region r).ceilingAddr ≤ top) :
    ∃ ls' us' pre', Laid cfg (freeRegion s as addr top r) as ls' us' ∧ ls' as = pre' ++ suf ∧
      (freeRegion s as addr top r).hint as = none ∧
      Freed s (ls as) (freeRegion s as addr top r) (ls' as) (s.region r).baseAddr (s.region r).ceilingAddr := by
  rw [freeRegion, if_pos hin]
  cases hprev : freePrev s r with
  | some p =>
    obtain ⟨hfree, pre, rfl⟩ := freePrev_some (h.sorted.spells as) hs hprev
    have hs' : ls as = pre ++ p :: r :: suf := by simp [hs]
    obtain ⟨hlaid, hfreed⟩ := h.absorb hs' hfree hhint
    exact ⟨_, _, pre ++ [p], hlaid, by simp, hhint, by simpa using hfreed⟩
  | none =>
    obtain ⟨hlaid, hfreed⟩ := h.markFree hs hhint
    exact ⟨ls, us, pre ++ [r], hlaid, by simp [hs], hhint, hfreed⟩

protected theorem Laid.freeLoop (hs : ls as = pre ++ suf) (hn : suf.length < n)
    (hhint : s.hint as = none) (hsuf : Tiles cur cfg.userCeiling (layout s suf)) (haddr : addr ≤ cur) (hcur : cur ≤ top)
    (htop : top ≤ cfg.userCeiling) (hcross : Boundary s suf top) :
    ∃ u mr ls' us' pre' suf', freeLoop as addr top n s suf.head? = some (u, mr) ∧ Laid cfg u as ls' us' ∧
      ls' as = pre' ++ suf' ∧ mr = suf'.head? ∧ u.hint as = none ∧ Freed s (ls as) u (ls' as) cur top := by
  induction suf generalizing s ls us pre n cur with
  | nil =>
    obtain ⟨n, rfl⟩ := exists_succ hn
    have hend : cur = cfg.userCeiling := hsuf
    refine ⟨s, none, ls, us, pre, [], rfl, h, by simpa using hs, rfl, hhint, fun m => ?_⟩
    rw [if_neg (by omega)]
  | cons r suf ih =>
    obtain ⟨n, rfl⟩ := exists_succ hn
    obtain ⟨hbase, hrest⟩ : (s.region r).baseAddr = cur ∧ Tiles (s.region r).ceilingAddr cfg.userCeiling (layout s suf) :=
      hsuf
    have hnext := (h.sorted.spells as).next _ _ _ hs
    have hwithin := h.within (r := r) (by simp [hs])
    simp only [List.head?_cons, freeLoop]
    split_ifs with hlt
    · have hceil : (s.region r).ceilingAddr ≤ top := by
        have hno := hcross r (by simp)
        omega
      have hin : addr ≤ (s.region r).baseAddr ∧ (s.region r).ceilingAddr ≤ top := ⟨by omega, hceil⟩
      obtain ⟨ls', us', pre', hlaid, hs', hhint', hfreed⟩ := h.freeRegion hs hhint hin
      have hkeep (q : RegionId) (hq : q ∈ suf) : (freeRegion s as addr top r).region q = s.region q :=
        freeRegion_keeps (h.sorted.spells as) hs hq
      have hlay : layout (freeRegion s as addr top r) suf = layout s suf :=
        layout_congr fun q hq => by rw [span, span, hkeep q hq]
      obtain ⟨u, mr, lu, uu, pu, su, hrun, hlaidu, hsu, hmr, hhintu, hfreedu⟩ := ih hlaid hs' (by simpa using hn) hhint'
        (hlay ▸ hrest) (by omega) hceil (fun q hq => by rw [hkeep q hq]; exact hcross q (by simp [hq]))
      rw [hnext]
      refine ⟨u, mr, lu, uu, pu, su, hrun, hlaidu, hsu, hmr, hhintu, fun m => ?_⟩
      rw [hfreedu m, hfreed m]
      split_ifs <;> first | rfl | omega
    · refine ⟨s, some r, ls, us, pre, r :: suf, rfl, h, hs, rfl, hhint, fun m => ?_⟩
      rw [if_neg (by omega)]

protected theorem Laid.coalesceAbove (hs : ls as = pre ++ suf) (hhint : s.hint as = none) :
    ∃ ls' us', Laid cfg (coalesceAbove s as suf.head?) as ls' us' ∧
      ∀ n, labelAt (cells (coalesceAbove s as suf.head?) (ls' as)) n = labelAt (cells s (ls as)) n := by
  have hsame : ∃ ls' us', Laid cfg s as ls' us' ∧ ∀ n, labelAt (cells s (ls' as)) n = labelAt (cells s (ls as)) n :=
    ⟨ls, us, h, fun _ => rfl⟩
  cases suf with
  | nil => exact hsame
  | cons r suf =>
    simp only [List.head?_cons, coalesceAbove]
    split_ifs with hf
    · cases hprev : freePrev s r with
      | none => exact hsame
      | some p =>
        obtain ⟨hfree, pre, rfl⟩ := freePrev_some (h.sorted.spells as) hs hprev
        have hs' : ls as = pre ++ p :: r :: suf := by simp [hs]
        obtain ⟨hlaid, hfreed⟩ := h.absorb hs' hfree hhint
        refine ⟨_, _, hlaid, fun n => ?_⟩
        rw [update_self, hfreed n]
        split_ifs with hn
        · have hkind : kind s r = (.free, 0) := by
            rw [kind, hf, h.freeFlags r (by simp [hs]) hf]
          have hbefore := h.not_before hs n hn.1 hn.2
          have hhere : labelAt (cells s [r]) n = some (.free, 0) := by
            rw [← hkind]
            exact (labelAt_singleton _ _ _ n).trans (if_pos hn)
          have hsplit : ls as = (pre ++ [p]) ++ ([r] ++ suf) := hs
          rw [hsplit, cells_append, labelAt_append, hbefore, cells_append, labelAt_append, hhere]
          rfl
        · rfl
    · exact hsame

end

theorem Laid.cutAt (h : Laid cfg s as ls (x :: rest)) (hmr : mr ∈ ls as) (hlo : (s.region mr).baseAddr < addr)
    (hhi : addr < (s.region mr).ceilingAddr) :
    let u := splitRegion { s with unusedLink := dlistRemHead s.unusedLink () } as mr x addr
    ∃ ls', Laid cfg u as ls' rest ∧ (∀ n, labelAt (cells u (ls' as)) n = labelAt (cells s (ls as)) n) ∧
      (∀ n, Boundary s (ls as) n → Boundary u (ls' as) n) ∧ Boundary u (ls' as) addr := by
  intro u
  have hx (i : AsId) : x ∉ ls i := fun hm => h.apart i x hm (by simp)
  have hne : mr ≠ x := fun e => hx as (e ▸ hmr)
  obtain ⟨pre, post, hs⟩ := List.append_of_mem hmr
  have hs' : ls as = pre ++ [mr] ++ post := by simp [hs]
  obtain ⟨hsorted, -, hunused, hhint⟩ :=
    splitRegion_links { s with unusedLink := dlistRemHead s.unusedLink () } as mr x addr
  have hregion := splitRegion_region_eq { s with unusedLink := dlistRemHead s.unusedLink () } as addr hne
  have hL := family_insertAfter h.sorted hs hx
  rw [show pre ++ mr :: x :: post = pre ++ [mr, x] ++ post by simp] at hL
  have hU := family_remHead h.unused (i := ()) rfl
  have hnodup := hs ▸ (h.sorted.spells as).nodup
  have hout (q : RegionId) (hq : q ∈ pre ++ post) : q ≠ mr ∧ q ≠ x := by
    constructor
    · rintro rfl
      exact (List.nodup_cons.mp (List.nodup_middle.mp hnodup)).1 hq
    · rintro rfl
      exact hx as (by simp only [hs', List.mem_append] at hq ⊢; tauto)
  have hmid : cells u [mr, x] =
      [(((s.region mr).baseAddr, addr), kind s mr), ((addr, (s.region mr).ceilingAddr), kind s mr)] := by
    simp [cells, span, kind, u, hregion, hne.symm]
  have hlay : layout u [mr, x] = [((s.region mr).baseAddr, addr), (addr, (s.region mr).ceilingAddr)] := by
    rw [← map_fst_cells, hmid]
    rfl
  have htiles (a b : ℕ) (ht : Tiles a b (layout s [mr])) : Tiles a b (layout u [mr, x]) := by
    rw [hlay]
    exact ⟨ht.1, rfl, ht.2⟩
  have hproper : Proper (layout u [mr, x]) := by
    intro t ht
    rw [hlay] at ht
    rcases List.mem_pair.mp ht with rfl | rfl
    · exact hlo
    · exact hhi
  have hfree (q : RegionId) (hq : q ∈ [mr, x]) (hf : (u.region q).type = .free) : (u.region q).flags = 0 := by
    have hflags := h.freeFlags mr hmr
    rcases List.mem_pair.mp hq with rfl | rfl
    · simpa [u, hregion] using hflags (by simpa [u, hregion] using hf)
    · simpa [u, hregion, hne.symm] using hflags (by simpa [u, hregion, hne.symm] using hf)
  obtain ⟨hlaid, hcells⟩ := h.recut u [mr, x] rest hs' (hsorted ▸ hL) (hunused ▸ hU)
    (by simp) (fun q hq => by simp [u, hregion, hout q hq]) (by simp [u, hhint]) htiles (fun _ _ _ _ => hproper) hfree
  have hbounds (q : RegionId) (hq : q ∈ pre ++ [mr, x] ++ post) :
      (q ∈ ls as ∧ q ≠ mr ∧ u.region q = s.region q) ∨ span u q = ((s.region mr).baseAddr, addr) ∨
        span u q = (addr, (s.region mr).ceilingAddr) := by
    by_cases hqm : q = mr
    · subst hqm
      exact .inr (.inl (by simp [span, u, hregion]))
    by_cases hqx : q = x
    · subst hqx
      exact .inr (.inr (by simp [span, u, hregion, hne.symm]))
    refine .inl ⟨?_, hqm, by simp [u, hregion, hqm, hqx]⟩
    simp only [List.mem_append, List.mem_cons] at hq
    simp only [hs', List.mem_append]
    tauto
  refine ⟨_, hlaid, ?_, ?_, ?_⟩
  · intro n
    rw [update_self, hcells, hs', cells_append, cells_append, hmid, labelAt_append, labelAt_append,
      labelAt_cut hlo.le hhi.le, ← labelAt_append, ← labelAt_append]
    rfl
  · intro n hn q hq
    rw [update_self] at hq
    have hmrn := hn mr hmr
    rcases hbounds q hq with ⟨hin, -, he⟩ | he | he
    · rw [he]
      exact hn q hin
    · simp only [span, Prod.mk.injEq] at he
      omega
    · simp only [span, Prod.mk.injEq] at he
      omega
  · intro q hq
    rw [update_self] at hq
    rcases hbounds q hq with ⟨hin, hqm, he⟩ | he | he
    · have hdis := h.disjoint hin hmr hqm
      rw [he]
      omega
    · simp only [span, Prod.mk.injEq] at he
      omega
    · simp only [span, Prod.mk.injEq] at he
      omega

theorem Laid.split (h : Laid cfg s as ls us) (addr : ℕ) :
    ∃ u sc ls' us', memregionSplit cfg s as addr = some (u, sc) ∧ SplitAt cfg addr as s ls us u ls' us' sc := by
  obtain ⟨o, mr, hfind, ho, hmr, hnone⟩ := h.findSorted addr
  have hlaid := h.setHint ho
  simp only [memregionSplit, hfind, Option.map_some]
  cases mr with
  | none =>
    refine ⟨_, _, ls, us, rfl, hlaid, fun _ => rfl, fun _ => id, by simp, by omega, ?_, by simp⟩
    intro hlo hhi
    obtain ⟨r, hr, hcon⟩ := h.covered hlo hhi
    rw [hnone rfl r hr] at hcon
    cases hcon
  | some mr =>
    obtain ⟨hin, hcon⟩ := hmr mr rfl
    rw [contains_iff] at hcon
    have hwithin := h.within hin
    dsimp only
    split_ifs with hend
    · refine ⟨_, _, ls, us, rfl, hlaid, fun _ => rfl, fun _ => id, fun _ => ?_, by omega, fun _ _ _ => rfl, by omega⟩
      intro q hq hbad
      have hne : q ≠ mr := by
        rintro rfl
        omega
      have hdis := h.disjoint hq hin hne
      have hlow : (s.region q).baseAddr < addr ∧ addr < (s.region q).ceilingAddr := hbad
      omega
    · cases hrem : remUnused (s.setHint as o) with
      | none =>
        have hnil := remUnused_none hlaid.unused hrem
        exact ⟨_, _, ls, us, rfl, hlaid, fun _ => rfl, fun _ => id, by simp, by omega, fun _ _ hne => absurd hnil hne,
          by omega⟩
      | some q =>
        obtain ⟨x, u⟩ := q
        obtain ⟨⟨rest, rfl⟩, rfl⟩ := remUnused_some hlaid.unused hrem
        have hlo : (s.region mr).baseAddr < addr := lt_of_le_of_ne hcon.1 fun e => hend (.inl e.symm)
        obtain ⟨ls', hcut, hmap, hkeeps, hat⟩ := hlaid.cutAt hin hlo hcon.2
        exact ⟨_, _, ls', rest, rfl, hcut, hmap, hkeeps, fun _ => hat, by simp, fun _ _ _ => rfl, by omega⟩

protected theorem Laid.splitEnds (h : Laid cfg s as ls us) (addr top : ℕ) :
    ∃ u sc ls' us', splitEnds cfg s as addr top = some (u, sc) ∧ Laid cfg u as ls' us' ∧
      (∀ n, labelAt (cells u (ls' as)) n = labelAt (cells s (ls as)) n) ∧
      (sc = .ok () → Boundary u (ls' as) addr ∧ Boundary u (ls' as) top) ∧
      (cfg.userBase ≤ addr → addr ≤ top → top < cfg.userCeiling → 2 ≤ us.length → sc = .ok ()) ∧
      (cfg.userCeiling ≤ top → sc ≠ .ok ()) := by
  obtain ⟨u₁, sc₁, ls₁, us₁, hrun₁, h₁⟩ := h.split addr
  obtain ⟨u₂, sc₂, ls₂, us₂, hrun₂, h₂⟩ := h₁.laid.split top
  have hrun : splitEnds cfg s as addr top =
      some (u₂, if sc₁.isOk && sc₂.isOk then .ok () else .error .enomem) := by
    simp [splitEnds, hrun₁, hrun₂]
  have hok : (if sc₁.isOk && sc₂.isOk then (.ok () : Result) else .error .enomem) = .ok () ↔
      sc₁ = .ok () ∧ sc₂ = .ok () := by
    rcases sc₁ with e₁ | ⟨⟩ <;> rcases sc₂ with e₂ | ⟨⟩ <;> simp [Except.toBool]
  refine ⟨u₂, _, ls₂, us₂, hrun, h₂.laid, fun n => by rw [h₂.map n, h₁.map n], ?_, ?_, ?_⟩
  · intro hsc
    obtain ⟨hsc₁, hsc₂⟩ := hok.mp hsc
    exact ⟨h₂.keeps addr (h₁.cut hsc₁), h₂.cut hsc₂⟩
  · intro hlo hle hhi hspare
    have hspares := h₁.spares
    have hne : us ≠ [] := by
      rintro rfl
      simp at hspare
    have hne₁ : us₁ ≠ [] := by
      rintro rfl
      simp at hspares
      omega
    exact hok.mpr ⟨h₁.succeeds hlo (by omega) hne, h₂.succeeds (by omega) hhi hne₁⟩
  · exact fun htop hsc => h₂.fails htop (hok.mp hsc).2

end

def FreeFlags (s : State) : Prop := ∀ r, (s.region r).type = .free → (s.region r).flags = 0

def CreatesUsed : Action → Prop
  | .create _ _ _ _ type => type ≠ .free
  | _ => True

section

variable {cfg : Config} {s t u : State} {v : View} {as new : AsId} {addr size n top : ℕ} {o mr : Option RegionId}
  {sc : Result} {ls : AsId → List RegionId} {us : List RegionId}

theorem remUnused_region {x : RegionId} (hr : remUnused s = some (x, u)) : u.region = s.region := by
  obtain ⟨r, -, he⟩ := Option.map_eq_some_iff.mp hr
  cases he
  rfl

theorem find_region {L : Links AsId RegionId}
    (hf : memregionFind cfg L s as addr = some (u, o)) : u.region = s.region := by
  unfold memregionFind at hf
  split at hf
  · cases hf
    rfl
  · obtain ⟨mr, -, he⟩ := Option.map_eq_some_iff.mp hf
    cases mr <;> cases he <;> rfl

theorem Inv.laid (h : Inv cfg s v) (hf : FreeFlags s) (hp : Proper (layout s (v.sorted as))) (hne : v.sorted as ≠ []) :
    Laid cfg s as v.sorted v.unused :=
  ⟨h.shows.sorted, h.shows.unused, h.apart, h.sortedBound, h.unusedBound, h.hint as, h.tiles as hne, hp,
    fun r _ => hf r⟩

structure Unmaps (cfg : Config) (s : State) (us : List RegionId) (as : AsId) (addr size : ℕ) : Prop where
  returns : (memregionFree cfg s as addr size).isSome = true
  succeeds : 2 ≤ us.length → ∃ t, memregionFree cfg s as addr size = some (t, .ok ())
  frees : ∀ t, memregionFree cfg s as addr size = some (t, .ok ()) →
    ∀ n, mapAt cfg t as n = if addr ≤ n ∧ n < addr + size then some (.free, 0) else mapAt cfg s as n
  unchanged : ∀ t e, memregionFree cfg s as addr size = some (t, .error e) → ∀ n, mapAt cfg t as n = mapAt cfg s as n

theorem Laid.free (h : Laid cfg s as ls us) (hlo : cfg.userBase ≤ addr) (hsize : 0 < size)
    (hhi : addr + size ≤ cfg.userCeiling) :
    ∃ t sc, memregionFree cfg s as addr size = some (t, sc) ∧
      (sc = .ok () → ∀ n, mapAt cfg t as n = if addr ≤ n ∧ n < addr + size then some (.free, 0) else mapAt cfg s as n) ∧
      (sc ≠ .ok () → ∀ n, mapAt cfg t as n = mapAt cfg s as n) ∧
      (addr + size < cfg.userCeiling → 2 ≤ us.length → sc = .ok ()) ∧
      (addr + size = cfg.userCeiling → sc ≠ .ok ()) := by
  have hword : word (addr + size) = addr + size := by
    have := cfg.ceiling_lt
    exact Nat.mod_eq_of_lt (by omega)
  obtain ⟨u, sc, lu, uu, hends, hlaid, hmap, hcut, hsucc, hfail⟩ := h.splitEnds addr (addr + size)
  have hmapAt (n : ℕ) : mapAt cfg u as n = mapAt cfg s as n := by rw [hlaid.mapAt_eq, h.mapAt_eq, hmap]
  simp only [memregionFree, hword, hends]
  cases sc with
  | error e =>
    refine ⟨u, .error e, rfl, by simp, fun _ => hmapAt, fun hlt hspare => hsucc hlo (by omega) hlt hspare, ?_⟩
    exact fun _ => by simp
  | ok x =>
    have hlt : addr + size < cfg.userCeiling := by
      by_contra hge
      exact hfail (by omega) rfl
    obtain ⟨haddr, htop⟩ := hcut rfl
    obtain ⟨o, mr, hfind, ho, hmr, hnone⟩ := hlaid.findSorted addr
    obtain ⟨c, hc, hcon⟩ := hlaid.covered hlo (by omega)
    cases mr with
    | none =>
      rw [hnone rfl c hc] at hcon
      cases hcon
    | some mr =>
      obtain ⟨hin, hmrcon⟩ := hmr mr rfl
      rw [contains_iff] at hmrcon
      have hbase : (u.region mr).baseAddr = addr := by
        have hno := haddr mr hin
        omega
      obtain ⟨pre, suf, hs⟩ := List.append_of_mem hin
      have htiles : Tiles addr cfg.userCeiling (layout u (mr :: suf)) := by
        have ht := hlaid.tiles
        rw [hs, layout_append] at ht
        obtain ⟨m, -, hm⟩ := tiles_append.mp ht
        obtain rfl : addr = m := hbase ▸ hm.1
        exact hm
      have hlaid' := hlaid.setHint (o := none) (by simp)
      have hlen : (mr :: suf).length < bound cfg := by
        have := hlaid.length_lt as
        rw [hs] at this
        simp only [List.length_append] at this
        omega
      obtain ⟨t, mr', lt, ut, pre', suf', hrun, hlaidt, hst, hmr', hhint, hfreed⟩ := hlaid'.freeLoop
        hs hlen (by simp [State.setHint]) htiles (le_refl addr) (Nat.le_add_right addr size) hhi
        (fun q hq => htop q (by rw [hs]; exact List.mem_append_right _ hq))
      obtain ⟨lz, uz, hlaidz, hmapz⟩ := hlaidt.coalesceAbove hst hhint
      have hhints : (u.setHint as o).setHint as none = u.setHint as none := by simp [State.setHint]
      refine ⟨coalesceAbove t as mr', .ok (), ?_, fun _ n => ?_, fun hne => absurd rfl hne, fun _ _ => rfl, by omega⟩
      · simp only [hfind, Option.bind_some, hhints]
        rw [List.head?_cons] at hrun
        rw [hrun]
        rfl
      · rw [hmr', hlaidz.mapAt_eq, hmapz n, hfreed n, ← hmapAt n, hlaid.mapAt_eq]
        rfl

def topRun : List Action := [.init 0, .create 0 0x7EFFF000 0x1000 0x10 .alloc]

theorem top_page_stays_mapped : ∃ s, Reach (step smallConfig) (Clear smallConfig) (Booted smallConfig) s ∧
    ((s.unusedLink.head ()).bind s.unusedLink.next).isSome = true ∧
    mapAt smallConfig s 0 0x7EFFF000 = some (.alloc, 0x10) ∧
    (memregionFree smallConfig s 0 0x7EFFF000 0x1000).any (fun q =>
      !q.2.isOk && mapAt smallConfig q.1 0 0x7EFFF000 == some (.alloc, 0x10)) = true :=
  Reach.exists_of_run (Q := fun s => ((s.unusedLink.head ()).bind s.unusedLink.next).isSome = true ∧
      mapAt smallConfig s 0 0x7EFFF000 = some (.alloc, 0x10) ∧
      (memregionFree smallConfig s 0 0x7EFFF000 0x1000).any (fun q =>
        !q.2.isOk && mapAt smallConfig q.1 0 0x7EFFF000 == some (.alloc, 0x10)) = true) topRun rfl (by decide)
    (by decide) fun _ _ hq => hq

namespace FreeFlags

variable (h : FreeFlags s)
include h

theorem setRegion (r : RegionId) {m : MemRegion} (hm : m.type = .free → m.flags = 0) :
    FreeFlags (s.setRegion r m) := by
  intro q hq
  by_cases hqr : q = r
  · subst hqr
    simp only [State.setRegion, update_self] at hq ⊢
    exact hm hq
  · simp only [State.setRegion, update_of_ne hqr] at hq ⊢
    exact h q hq

theorem resize (r : RegionId) {m : MemRegion} (ht : m.type = (s.region r).type) (hm : m.flags = (s.region r).flags) :
    FreeFlags (s.setRegion r m) :=
  h.setRegion r (by rw [ht, hm]; exact h r)

theorem congr (ht : t.region = s.region) : FreeFlags t := fun r => ht ▸ h r

theorem create {flags : BitVec 32} {type : MrType}
    (htype : type ≠ .free) (hc : memregionCreate cfg s as addr size flags type = some (t, o)) : FreeFlags t := by
  obtain ⟨⟨u, pick⟩, hpick, he⟩ := Option.map_eq_some_iff.mp hc
  have hu : FreeFlags u := by
    refine h.congr ?_
    unfold pickRegion at hpick
    split at hpick
    · obtain ⟨⟨u', mr⟩, hfind, he'⟩ := Option.map_eq_some_iff.mp hpick
      have hregion := find_region hfind
      cases mr with
      | none => cases he'; exact hregion
      | some mr =>
        simp only at he'
        split at he' <;> cases he' <;> exact hregion
    · obtain ⟨mr, -, he'⟩ := Option.map_eq_some_iff.mp hpick
      cases he'
      rfl
  cases pick with
  | none => cases he; exact hu
  | some p =>
    obtain ⟨mr, addr'⟩ := p
    simp only at he
    split at he
    · cases he
      exact hu
    rename_i mrbase u₁ hr₁
    have hu₁ := hu.congr (remUnused_region hr₁)
    split at he
    · cases he
      exact hu₁
    rename_i mrtail u₂ hr₂
    have hu₂ := hu₁.congr (remUnused_region hr₂)
    cases he
    have hbase : FreeFlags (keepBase u₂ as mr mrbase addr') := by
      unfold keepBase
      split
      · exact FreeFlags.setRegion hu₂ mrbase fun _ => rfl
      · exact hu₂
    have htail : FreeFlags (keepTail (keepBase u₂ as mr mrbase addr') as mr mrbase mrtail (word (addr' + size))) := by
      unfold keepTail
      split
      · exact FreeFlags.resize (FreeFlags.setRegion hbase mrtail fun _ => rfl) mrbase rfl rfl
      · exact hbase
    exact FreeFlags.setRegion htail mr fun hf => absurd hf htype

theorem split (hs : memregionSplit cfg s as addr = some (t, sc)) : FreeFlags t := by
  obtain ⟨⟨u, mr⟩, hfind, he⟩ := Option.map_eq_some_iff.mp hs
  have hu := h.congr (find_region hfind)
  cases mr with
  | none => cases he; exact hu
  | some mr =>
    simp only at he
    split at he
    · cases he
      exact hu
    split at he
    · cases he
      exact hu
    rename_i x u₁ hr
    have hu₁ := hu.congr (remUnused_region hr)
    cases he
    have hnew : FreeFlags (u₁.setRegion x ⟨addr, (u₁.region mr).ceilingAddr, some as, (u₁.region mr).type,
        (u₁.region mr).flags, if (u₁.region mr).type = .phys then
          word ((u₁.region mr).physBaseAddr + (addr - (u₁.region mr).baseAddr)) else 0⟩) := hu₁.setRegion x (hu₁ mr)
    simp only [splitRegion]
    split <;> exact FreeFlags.setRegion hnew mr (hnew mr)

protected theorem absorb (p r : RegionId) : FreeFlags (absorb s as p r) := by
  have hp : FreeFlags (s.setRegion p { s.region p with ceilingAddr := (s.region r).ceilingAddr }) := h.resize p rfl rfl
  refine FreeFlags.setRegion hp r fun hf => ?_
  cases hf

protected theorem freeRegion (addr top : ℕ) (r : RegionId) : FreeFlags (freeRegion s as addr top r) := by
  unfold freeRegion
  split
  · split
    · exact h.absorb _ r
    · exact h.setRegion r fun _ => rfl
  · exact h

protected theorem freeLoop (hl : freeLoop as addr top n s mr = some (t, o)) : FreeFlags t := by
  induction n generalizing s mr with
  | zero => cases hl
  | succ n ih =>
    cases mr with
    | none => cases hl; exact h
    | some mr =>
      simp only [freeLoop] at hl
      split at hl
      · exact ih (h.freeRegion addr top mr) hl
      · cases hl
        exact h

theorem free (hf : memregionFree cfg s as addr size = some (t, sc)) : FreeFlags t := by
  simp only [memregionFree, splitEnds, Option.bind_eq_some_iff, Option.map_eq_some_iff] at hf
  obtain ⟨⟨u, sc'⟩, ⟨⟨u₁, sc₁⟩, h₁, ⟨u₂, sc₂⟩, h₂, he⟩, hf⟩ := hf
  cases he
  have hu := (h.split h₁).split h₂
  split at hf
  · cases hf
    exact hu
  simp only [Option.bind_eq_some_iff] at hf
  obtain ⟨⟨u₃, mr⟩, hfind, hf⟩ := hf
  have hu₃ := hu.congr (find_region hfind)
  cases mr with
  | none => cases hf; exact hu₃
  | some mr =>
    obtain ⟨⟨u₄, mr'⟩, hloop, he'⟩ := Option.map_eq_some_iff.mp hf
    cases he'
    have hu₄ := FreeFlags.freeLoop (s := u₃.setHint as none) hu₃ hloop
    unfold coalesceAbove
    split
    · split
      · split
        · exact hu₄.absorb _ _
        · exact hu₄
      · exact hu₄
    · exact hu₄

protected theorem freeAllLoop (hl : freeAllLoop as n s = some t) : FreeFlags t := by
  induction n generalizing s with
  | zero => cases hl
  | succ n ih =>
    simp only [freeAllLoop] at hl
    split at hl
    · cases hl
      exact h
    · refine ih ?_ hl
      unfold releaseRegion
      split <;> exact FreeFlags.setRegion h _ (by simp)

protected theorem forkLoop (hl : forkLoop cfg new n s mr = some (t, sc)) : FreeFlags t := by
  induction n generalizing s mr with
  | zero => cases hl
  | succ n ih =>
    cases mr with
    | none => cases hl; exact h
    | some mr =>
      simp only [forkLoop] at hl
      split at hl
      · obtain ⟨u, hfree, he⟩ := Option.map_eq_some_iff.mp hl
        cases he
        exact h.freeAllLoop hfree
      rename_i x u hrem
      have hu := h.congr (remUnused_region hrem)
      have hcopy : FreeFlags (u.setRegion x { u.region mr with as := some new }) := hu.setRegion x (hu mr)
      exact ih (hcopy.congr (copyRegion_links u new mr x).2.2.2.2) hl

theorem step {a : Action} (hc : CreatesUsed a) (hs : step cfg s a = some t) : FreeFlags t := by
  cases a with
  | init as =>
    simp only [MemRegions.step, Option.some.injEq] at hs
    subst hs
    have hi : FreeFlags (initLists s as) := h
    unfold initMemregions
    cases hr : remUnused (initLists s as) with
    | none => simpa only [hr] using hi
    | some q =>
      obtain ⟨x, u⟩ := q
      have hu : FreeFlags u := hi.congr (remUnused_region hr)
      simp only [hr]
      exact FreeFlags.setRegion hu x fun _ => rfl
  | create as addr size flags type =>
    obtain ⟨⟨u, o⟩, hrun, rfl⟩ := Option.map_eq_some_iff.mp hs
    exact h.create hc hrun
  | free as addr size =>
    obtain ⟨⟨u, sc⟩, hrun, rfl⟩ := Option.map_eq_some_iff.mp hs
    exact h.free hrun
  | split as addr =>
    obtain ⟨⟨u, sc⟩, hrun, rfl⟩ := Option.map_eq_some_iff.mp hs
    exact h.split hrun
  | fork new old =>
    obtain ⟨⟨u, sc⟩, hrun, rfl⟩ := Option.map_eq_some_iff.mp hs
    exact FreeFlags.forkLoop (s := initLists s new) h hrun
  | freeAll as => exact h.freeAllLoop hs

end FreeFlags

theorem freeFlags_of_reach (h : Reach (MemRegions.step cfg) (fun _ => CreatesUsed) (Booted cfg) s) : FreeFlags s :=
  h.invariant (by rintro s rfl r hr; cases hr) fun _ _ _ hs hc => hs.step hc

theorem unmaps_iff_below_ceiling (h : Laid cfg s as ls us) (hlo : cfg.userBase ≤ addr) (hsize : 0 < size)
    (hhi : addr + size ≤ cfg.userCeiling) :
    Unmaps cfg s us as addr size ↔ ¬ (2 ≤ us.length ∧ addr + size = cfg.userCeiling) := by
  obtain ⟨t, sc, hrun, hfrees, hsame, hsucc, hfail⟩ := h.free hlo hsize hhi
  constructor
  · rintro hun ⟨hspare, hceil⟩
    obtain ⟨t', ht'⟩ := hun.succeeds hspare
    rw [hrun] at ht'
    exact hfail hceil (Prod.mk.inj (Option.some.inj ht')).2
  · intro hcond
    refine ⟨by simp [hrun], fun hspare => ?_, fun t' ht' => ?_, fun t' e ht' => ?_⟩
    · have hok := hsucc (by omega) hspare
      exact ⟨t, hok ▸ hrun⟩
    · cases hrun.symm.trans ht'
      exact hfrees rfl
    · cases hrun.symm.trans ht'
      exact hsame nofun

theorem mapped_page_unmapped : ∃ s ls us, Laid smallConfig s 0 ls us ∧
    mapAt smallConfig s 0 0x00400000 = some (.alloc, 0x10) ∧ Unmaps smallConfig s us 0 0x00400000 0x1000 := by
  obtain ⟨s, sc, w, hrun, hinv, hother, -, hlay⟩ := (inv_booted smallConfig).initMemregions 0
  obtain ⟨t, mr, z, hcreate, hz, -, hsome⟩ := hinv.create (show MrType.alloc ≠ .free by decide) 0 0x00400000 0x2000 0x10
  have hok : (initMemregions smallConfig (boot smallConfig) 0).2.isOk = true := by decide
  have hmap : (memregionCreate smallConfig (initMemregions smallConfig (boot smallConfig) 0).1 0 0x00400000 0x2000 0x10
      .alloc).any (fun q => q.2.isSome && mapAt smallConfig q.1 0 0x00400000 == some (.alloc, 0x10)) = true := by decide
  rw [hrun] at hok hmap
  rw [hcreate, Option.any_some, Bool.and_eq_true, beq_iff_eq] at hmap
  rw [if_pos hok] at hlay
  obtain ⟨r, rfl⟩ := Option.isSome_iff_exists.mp hmap.1
  obtain ⟨hr, q, a, hpick, -, hafter⟩ := hsome r rfl
  obtain rfl := hpick.fixed (by decide)
  have hproper : ∀ as, Proper (layout s (w.sorted as)) := by
    intro as
    by_cases has : as = 0
    · simp [has, hlay, Proper, smallConfig]
    · simp [hother as has, layout, Proper]
  have hinit : step smallConfig (boot smallConfig) (.init 0) = some s := by simp [step, hrun]
  have hstep : step smallConfig s (.create 0 0x00400000 0x2000 0x10 .alloc) = some t := by
    rw [step, hcreate]
    rfl
  have hflags : FreeFlags t := freeFlags_of_reach (.next (a := .create 0 0x00400000 0x2000 0x10 .alloc)
    (.next (a := .init 0) (.start rfl) trivial hinit) (show MrType.alloc ≠ .free by decide) hstep)
  have hlaid := hz.laid hflags ((hafter (by decide)).proper hproper 0) (List.ne_nil_of_mem hr)
  exact ⟨t, z.sorted, z.unused, hlaid, hmap.2, (unmaps_iff_below_ceiling hlaid (by decide) (by decide) (by decide)).mpr
    fun hbad => absurd hbad.2 (by decide)⟩

end

end CheviotKernel.MemRegions
