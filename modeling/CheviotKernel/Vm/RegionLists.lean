import Mathlib.Data.List.Perm.Subperm
import CheviotKernel.Library.Runs
import CheviotKernel.Library.Tiling
import CheviotKernel.Vm.MemRegion

namespace CheviotKernel.MemRegions

open Function Linked CheviotKernel.Lists Runs Tiling

structure View where
  sorted : AsId → List RegionId
  free : AsId → List RegionId
  unused : List RegionId

structure Shows (s : State) (v : View) : Prop where
  sorted : Family s.sortedLink v.sorted
  free : Family s.freeLink v.free
  unused : Family s.unusedLink fun _ => v.unused

structure Sound (cfg : Config) (s : State) (v : View) : Prop where
  shows : Shows s v
  isFree : ∀ as r, r ∈ v.free as ↔ r ∈ v.sorted as ∧ (s.region r).type = .free
  apart : ∀ as, ∀ r ∈ v.sorted as, r ∉ v.unused
  sortedBound : ∀ as, ∀ r ∈ v.sorted as, r < cfg.maxMemregion
  unusedBound : ∀ r ∈ v.unused, r < cfg.maxMemregion

def span (s : State) (r : RegionId) : ℕ × ℕ := ((s.region r).baseAddr, (s.region r).ceilingAddr)

def layout (s : State) (rs : List RegionId) : List (ℕ × ℕ) := rs.map (span s)

structure Inv (cfg : Config) (s : State) (v : View) : Prop extends Sound cfg s v where
  hint : ∀ as r, s.hint as = some r → r ∈ v.sorted as
  tiles : ∀ as, v.sorted as ≠ [] → Tiles cfg.userBase cfg.userCeiling (layout s (v.sorted as))

structure Loose (cfg : Config) (v : View) (r : RegionId) : Prop where
  bound : r < cfg.maxMemregion
  sorted : ∀ as, r ∉ v.sorted as
  unused : r ∉ v.unused

section

variable {cfg : Config} {s u t : State} {v w z : View} {as i old : AsId} {r x mr p q y : RegionId}
  {pre post fs mid mid' rs xs suf ys copied todo : List RegionId} {addr top size n : ℕ} {L : Links AsId RegionId}
  {type : MrType}

theorem mem_update {f : AsId → List RegionId} : r ∈ update f as xs i ↔ (i = as ∧ r ∈ xs) ∨ (i ≠ as ∧ r ∈ f i) := by
  by_cases hi : i = as
  · subst hi
    simp
  · simp [hi]

theorem mem_paste (hs : v.sorted as = pre ++ post) :
    r ∈ update v.sorted as (pre ++ x :: post) i ↔ (i = as ∧ r = x) ∨ r ∈ v.sorted i := by
  by_cases hi : i = as
  · subst hi
    rw [update_self, List.perm_middle.mem_iff, List.mem_cons, hs]
    simp only [true_and]
  · simp [hi]

theorem Loose.free (hx : Loose cfg v x) (h : Sound cfg s v) (as : AsId) : x ∉ v.free as := fun hf =>
  hx.sorted as ((h.isFree as x).mp hf).1

structure Recut (s : State) (v : View) (u : State) (w : View) (as : AsId) (mid mid' : List RegionId) : Prop where
  other : ∀ i ≠ as, w.sorted i = v.sorted i
  kept : ∀ r, r ∉ mid → r ∉ mid' → span u r = span s r
  cut : ∃ pre post, v.sorted as = pre ++ mid ++ post ∧ w.sorted as = pre ++ mid' ++ post

structure After (s : State) (v : View) (u : State) (w : View) : Prop where
  proper : (∀ as, Proper (layout s (v.sorted as))) → ∀ as, Proper (layout u (w.sorted as))
  empty : ∀ as, w.sorted as = [] ↔ v.sorted as = []

theorem After.trans (h : After s v u w) (h' : After u w t z) : After s v t z :=
  ⟨fun hp => h'.proper (h.proper hp), fun as => (h'.empty as).trans (h.empty as)⟩

theorem After.setHint (h : After s v u w) (as : AsId) (o : Option RegionId) : After s v (u.setHint as o) w :=
  ⟨h.proper, h.empty⟩

theorem layout_congr (h : ∀ r ∈ rs, span u r = span s r) : layout u rs = layout s rs := List.map_congr_left h

theorem Recut.away (hc : Recut s v u w as mid mid') (h : Sound cfg s v) (h' : Sound cfg u w)
    (hi : i ≠ as) : layout u (w.sorted i) = layout s (v.sorted i) := by
  obtain ⟨pre, post, hv, hw⟩ := hc.cut
  rw [hc.other i hi]
  refine layout_congr fun r hr => hc.kept r (fun hm => ?_) fun hm => ?_
  · exact hi (h.shows.sorted.apart hr (by simp [hv, hm]))
  · exact hi (h'.shows.sorted.apart (hc.other i hi ▸ hr) (by simp [hw, hm]))

theorem length_le_of_lt {xs : List ℕ} (hn : xs.Nodup) (hb : ∀ r ∈ xs, r < n) : xs.length ≤ n := by
  have hsub := (List.Nodup.subperm hn fun r hr => List.mem_range.mpr (hb r hr)).length_le
  rwa [List.length_range] at hsub

theorem contains_iff {m : MemRegion} : m.contains addr = true ↔ m.baseAddr ≤ addr ∧ addr < m.ceilingAddr := by
  simp [MemRegion.contains]

def touches (s : State) (addr top : ℕ) (r : RegionId) : Bool :=
  (s.region r).type = .free && (s.region r).baseAddr ≤ max addr top &&
    (addr ≤ (s.region r).baseAddr || addr < (s.region r).ceilingAddr)

def Untouched (s : State) (v : View) (as : AsId) (addr top : ℕ) : Prop :=
  ∀ r ∈ v.sorted as, touches s addr top r = false

theorem touches_iff : touches s addr top r = true ↔ (s.region r).type = .free ∧
    (s.region r).baseAddr ≤ max addr top ∧ (addr ≤ (s.region r).baseAddr ∨ addr < (s.region r).ceilingAddr) := by
  simp [touches, and_assoc]

structure Picked (cfg : Config) (s : State) (v : View) (as : AsId) (addr size : ℕ) (flags : BitVec 32)
    (mr : RegionId) (a : ℕ) : Prop where
  free : mr ∈ v.free as
  base : (s.region mr).baseAddr ≤ a
  ceiling : a < (s.region mr).ceilingAddr
  top : word (a + size) ≤ (s.region mr).ceilingAddr
  fixed : flags &&& cfg.mapFixed ≠ 0 → a = addr
  room : flags &&& cfg.mapFixed = 0 → a + size ≤ (s.region mr).ceilingAddr

theorem touches_congr (h : u.region q = s.region q) : touches u addr top q = touches s addr top q := by
  simp only [touches, h]

theorem not_touched (h : touches s addr top r = false) (htype : (s.region r).type = .free)
    (hbase : (s.region r).baseAddr ≤ max addr top) :
    (s.region r).baseAddr < addr ∧ (s.region r).ceilingAddr ≤ addr := by
  rw [← Bool.not_eq_true, touches_iff] at h
  constructor
  · by_contra hlt
    exact h ⟨htype, hbase, .inl (not_lt.mp hlt)⟩
  · by_contra hlt
    exact h ⟨htype, hbase, .inr (not_le.mp hlt)⟩

def SplitsFail (cfg : Config) (s : State) (as : AsId) (addr top : ℕ) : Prop :=
  ∀ p ∈ splitEnds cfg s as addr top, p.2.isOk = false

def ClearOfFree (cfg : Config) (s : State) (as : AsId) (addr top : ℕ) : Prop :=
  walk s.sortedLink.next (touches s addr top) (bound cfg) (s.sortedLink.head as) = some none

def Freeable (cfg : Config) (s : State) (as : AsId) (addr size : ℕ) : Prop :=
  SplitsFail cfg s as addr (word (addr + size)) ∨ ClearOfFree cfg s as addr (word (addr + size))

structure InvExcept (cfg : Config) (s : State) (v : View) (as : AsId) : Prop extends Sound cfg s v where
  hint : ∀ i ≠ as, ∀ r, s.hint i = some r → r ∈ v.sorted i
  tiles : ∀ i ≠ as, v.sorted i ≠ [] → Tiles cfg.userBase cfg.userCeiling (layout s (v.sorted i))

structure Moves (as : AsId) (v w : View) : Prop where
  sorted : ∀ i ≠ as, w.sorted i = v.sorted i
  free : ∀ i ≠ as, w.free i = v.free i
  pool : ∀ r, r ∈ w.sorted as ∨ r ∈ w.unused ↔ r ∈ v.sorted as ∨ r ∈ v.unused

theorem Moves.trans (h : Moves as v w) (h' : Moves as w z) : Moves as v z :=
  ⟨fun i hi => (h'.sorted i hi).trans (h.sorted i hi), fun i hi => (h'.free i hi).trans (h.free i hi),
    fun r => (h'.pool r).trans (h.pool r)⟩

theorem InvExcept.whole (h : InvExcept cfg s v as) (hhint : s.hint as = none)
    (htiles : v.sorted as ≠ [] → Tiles cfg.userBase cfg.userCeiling (layout s (v.sorted as))) : Inv cfg s v := by
  refine ⟨h.toSound, fun i r hr => ?_, fun i hne => ?_⟩
  · by_cases hi : i = as
    · subst hi
      simp [hhint] at hr
    · exact h.hint i hi r hr
  · by_cases hi : i = as
    · subst hi
      exact htiles hne
    · exact h.tiles i hi hne

inductive Action
  | init (as : AsId)
  | create (as : AsId) (addr size : ℕ) (flags : BitVec 32) (type : MrType)
  | free (as : AsId) (addr size : ℕ)
  | split (as : AsId) (addr : ℕ)
  | fork (new old : AsId)
  | freeAll (as : AsId)

def step (cfg : Config) (s : State) : Action → Option State
  | .init as => some (initMemregions cfg s as).1
  | .create as addr size flags type => (memregionCreate cfg s as addr size flags type).map Prod.fst
  | .free as addr size => (memregionFree cfg s as addr size).map Prod.fst
  | .split as addr => (memregionSplit cfg s as addr).map Prod.fst
  | .fork new old => (forkMemregions cfg s new old).map Prod.fst
  | .freeAll as => memregionFreeAll cfg s as

def boot (cfg : Config) : State where
  region := fun _ => ⟨0, 0, none, .unallocated, 0, 0⟩
  sortedLink := ⟨fun _ => none, fun _ => none, fun _ => none, fun _ => none⟩
  freeLink := ⟨fun _ => none, fun _ => none, fun _ => none, fun _ => none⟩
  unusedLink := (List.range cfg.maxMemregion).foldl (fun L r => dlistAddTail L () r)
    ⟨fun _ => none, fun _ => none, fun _ => none, fun _ => none⟩
  hint := fun _ => none

def Booted (cfg : Config) (s : State) : Prop := s = boot cfg

def Clear (cfg : Config) (s : State) : Action → Prop
  | .create _ _ _ _ type => type ≠ .free
  | .free as addr size => Freeable cfg s as addr size
  | _ => True

structure FreeListOk (s : State) (v : View) : Prop where
  shows : Shows s v
  free : ∀ as, (v.free as).Perm ((v.sorted as).filter fun r => (s.region r).type = .free)
  unused : ∀ as, ∀ r ∈ v.sorted as, r ∉ v.unused

theorem inv_booted (cfg : Config) : Inv cfg (boot cfg) ⟨fun _ => [], fun _ => [], List.range cfg.maxMemregion⟩ := by
  have hfold (rs pre : List RegionId) (L : Links Unit RegionId) (hL : Family L fun _ => pre)
      (hnodup : (pre ++ rs).Nodup) : Family (rs.foldl (fun L r => dlistAddTail L () r) L) fun _ => pre ++ rs := by
    induction rs generalizing L pre with
    | nil => simpa using hL
    | cons r rs ih =>
      have hr : r ∉ pre := fun hm => ne_of_mem_pre hnodup hm rfl
      have hadd := family_addTail hL (i := ()) fun _ => hr
      simpa using ih (pre ++ [r]) _ hadd (by simpa using hnodup)
  have hunused := hfold (List.range cfg.maxMemregion) [] _ Family.empty List.nodup_range
  refine ⟨⟨⟨Family.empty, Family.empty, hunused⟩, ?_, ?_, ?_, ?_⟩, ?_, ?_⟩
  · simp
  · simp
  · simp
  · simp
  · simp [boot]
  · simp

section

variable (s as)

theorem After.refl (v : View) : After s v s v := ⟨id, fun _ => Iff.rfl⟩

theorem layout_append (xs ys : List RegionId) : layout s (xs ++ ys) = layout s xs ++ layout s ys :=
  List.map_append

theorem setHint_self : s.setHint as (s.hint as) = s := by simp [State.setHint]

theorem splitRegion_links (mr x : RegionId) (addr : ℕ) :
    (splitRegion s as mr x addr).sortedLink = dlistInsertAfter s.sortedLink as mr x ∧
    (splitRegion s as mr x addr).freeLink =
      (if (s.region mr).type = .free then dlistAddHead s.freeLink as x else s.freeLink) ∧
    (splitRegion s as mr x addr).unusedLink = s.unusedLink ∧
    (splitRegion s as mr x addr).hint = update s.hint as none := by
  by_cases hf : (s.region mr).type = .free <;> simp [splitRegion, State.setRegion, State.setHint, hf]

theorem splitRegion_region_eq (addr : ℕ) (hne : mr ≠ x) (r : RegionId) :
    (splitRegion s as mr x addr).region r = if r = mr then { s.region mr with ceilingAddr := addr }
      else if r = x then ⟨addr, (s.region mr).ceilingAddr, some as, (s.region mr).type, (s.region mr).flags,
        if (s.region mr).type = .phys then word ((s.region mr).physBaseAddr + (addr - (s.region mr).baseAddr)) else 0⟩
      else s.region r := by
  by_cases hf : (s.region mr).type = .free <;>
    simp [splitRegion, State.setRegion, State.setHint, hf, hne, update_apply]

theorem splitRegion_region (addr : ℕ) (hne : mr ≠ x) (r : RegionId) :
    (span (splitRegion s as mr x addr) r = if r = mr then ((s.region mr).baseAddr, addr)
      else if r = x then (addr, (s.region mr).ceilingAddr) else span s r) ∧
    ((splitRegion s as mr x addr).region r).type = if r = x then (s.region mr).type else (s.region r).type := by
  rw [span, splitRegion_region_eq s as addr hne]
  by_cases hr : r = mr
  · subst hr
    simp
  · by_cases hx : r = x <;> simp [hr, hx, span, hne.symm]

theorem absorb_region (hne : p ≠ r) (q : RegionId) : (absorb s as p r).region q =
    if q = r then { s.region r with as := none, type := .unallocated }
    else if q = p then { s.region p with ceilingAddr := (s.region r).ceilingAddr } else s.region q := by
  by_cases hr : q = r
  · subst hr
    simp [absorb, addUnused, State.setRegion, hne.symm]
  by_cases hp : q = p
  · subst hp
    simp [absorb, addUnused, State.setRegion, hr]
  · simp [absorb, addUnused, State.setRegion, hr, hp]

theorem Moves.refl (v : View) : Moves as v v := ⟨fun _ _ => rfl, fun _ _ => rfl, fun _ => Iff.rfl⟩

theorem copyRegion_links (old new : RegionId) :
    (copyRegion s as old new).sortedLink = dlistAddTail s.sortedLink as new ∧
    (copyRegion s as old new).freeLink =
      (if (s.region old).type = .free then dlistAddTail s.freeLink as new else s.freeLink) ∧
    (copyRegion s as old new).unusedLink = s.unusedLink ∧ (copyRegion s as old new).hint = s.hint ∧
    (copyRegion s as old new).region = update s.region new { s.region old with as := some as } := by
  by_cases hf : (s.region old).type = .free <;> simp [copyRegion, State.setRegion, hf]

end

theorem Recut.here (hc : Recut s v u w as mid mid') (h : Sound cfg s v) (h' : Sound cfg u w) :
    ∃ A Z, layout s (v.sorted as) = A ++ layout s mid ++ Z ∧ layout u (w.sorted as) = A ++ layout u mid' ++ Z := by
  obtain ⟨pre, post, hv, hw⟩ := hc.cut
  have hnv := (h.shows.sorted.spells as).nodup
  have hnw := (h'.shows.sorted.spells as).nodup
  rw [hv] at hnv
  rw [hw] at hnw
  have hdis {xs ys zs : List RegionId} (hn : (xs ++ ys ++ zs).Nodup) :
      (∀ r ∈ xs, r ∉ ys) ∧ ∀ r ∈ zs, r ∉ ys := by
    obtain ⟨hxy, -, hz⟩ := List.nodup_append.mp hn
    exact ⟨fun r hx hy => (List.nodup_append.mp hxy).2.2 r hx r hy rfl,
      fun r hr hy => hz r (List.mem_append_right xs hy) r hr rfl⟩
  refine ⟨layout s pre, layout s post, by simp [hv, layout_append], ?_⟩
  rw [hw, layout_append, layout_append,
    layout_congr fun r hr => hc.kept r ((hdis hnv).1 r hr) ((hdis hnw).1 r hr),
    layout_congr fun r hr => hc.kept r ((hdis hnv).2 r hr) ((hdis hnw).2 r hr)]

theorem find_spelled (hhint : ∀ r ∈ s.hint as, r ∈ ys)
    (hL : Spells L as xs) (hlen : xs.length < bound cfg) (hxs : ∀ r ∈ xs, r ∈ ys) :
    ∃ o mr, memregionFind cfg L s as addr = some (s.setHint as o, mr) ∧ (∀ r ∈ o, r ∈ ys) ∧
      (∀ r ∈ mr, r ∈ ys ∧ (s.region r).contains addr = true) ∧
      (mr = none → ∀ r ∈ xs, (s.region r).contains addr = false) := by
  unfold memregionFind
  cases hfilter : (s.hint as).filter fun r => (s.region r).contains addr with
  | some r =>
    obtain ⟨hr, hcon⟩ := Option.filter_eq_some_iff.mp hfilter
    refine ⟨s.hint as, some r, by rw [setHint_self], hhint, ?_, by simp⟩
    rintro q ⟨⟩
    exact ⟨hhint r hr, hcon⟩
  | none =>
    simp only [hL.walk _ hlen, Option.map_some]
    cases hf : xs.find? fun r => (s.region r).contains addr with
    | none =>
      refine ⟨s.hint as, none, by rw [setHint_self], hhint, by simp, fun _ r hr => ?_⟩
      exact Bool.not_eq_true _ ▸ List.find?_eq_none.mp hf r hr
    | some r =>
      have hr := hxs r (List.mem_of_find?_eq_some hf)
      refine ⟨some r, some r, rfl, ?_, ?_, by simp⟩
      · rintro q ⟨⟩
        exact hr
      · rintro q ⟨⟩
        have hcon := List.find?_some hf
        exact ⟨hr, hcon⟩

theorem remUnused_none (hU : Family s.unusedLink fun _ => rs) (hr : remUnused s = none) : rs = [] := by
  rw [remUnused, Option.map_eq_none_iff, (hU.spells ()).head] at hr
  exact List.head?_eq_none_iff.mp hr

theorem remUnused_some (hU : Family s.unusedLink fun _ => rs) (hr : remUnused s = some (x, u)) :
    (∃ rest, rs = x :: rest) ∧ u = { s with unusedLink := dlistRemHead s.unusedLink () } := by
  obtain ⟨r, hhead, he⟩ := Option.map_eq_some_iff.mp hr
  cases he
  rw [(hU.spells ()).head] at hhead
  exact ⟨List.head?_eq_some_iff.mp hhead, rfl⟩

section

variable (hL : Spells s.sortedLink as rs) (hs : rs = pre ++ r :: post)
include hL hs

theorem freePrev_eq : freePrev s r = pre.getLast?.filter fun p => (s.region p).type = .free := by
  rw [freePrev, hL.prev _ _ _ hs]

theorem freePrev_some (hp : freePrev s r = some p) : (s.region p).type = .free ∧ ∃ pre', pre = pre' ++ [p] := by
  rw [freePrev_eq hL hs, Option.filter_eq_some_iff, List.getLast?_eq_some_iff, decide_eq_true_iff] at hp
  exact hp.symm

theorem freeRegion_keeps (hq : q ∈ post) : (freeRegion s as addr top r).region q = s.region q := by
  have hnodup := hs ▸ hL.nodup
  have hqr : q ≠ r := (ne_of_mem_post hnodup hq).symm
  unfold freeRegion
  split_ifs
  · cases hprev : freePrev s r with
    | some p =>
      obtain ⟨-, pre, rfl⟩ := freePrev_some hL hs hprev
      have hpr : p ≠ r := (ne_of_mem_pre hnodup (by simp)).symm
      have hqp : q ≠ p := fun e => (List.nodup_append.mp hnodup).2.2 p (by simp) q (by simp [hq]) e.symm
      rw [absorb_region s as hpr, if_neg hqr, if_neg hqp]
    | none => simp [markFree, State.setRegion, hqr]
  · rfl

end

section

variable (h : Sound cfg s v) (hx : Loose cfg v x) (hs : v.sorted as = pre ++ mr :: post)
include h

namespace Sound

theorem same (hL : u.sortedLink = s.sortedLink) (hF : u.freeLink = s.freeLink) (hU : u.unusedLink = s.unusedLink)
    (htype : ∀ as, ∀ r ∈ v.sorted as, (u.region r).type = (s.region r).type) : Sound cfg u v := by
  refine { h with shows := ⟨hL ▸ h.shows.sorted, hF ▸ h.shows.free, hU ▸ h.shows.unused⟩, isFree := ?_ }
  intro as r
  rw [h.isFree]
  constructor
  · rintro ⟨hr, ht⟩
    exact ⟨hr, (htype as r hr).trans ht⟩
  · rintro ⟨hr, ht⟩
    exact ⟨hr, (htype as r hr).symm.trans ht⟩

protected theorem remUnused (hx : remUnused s = some (x, u)) :
    ∃ rest, Sound cfg u { v with unused := rest } ∧ Loose cfg { v with unused := rest } x ∧
      u = { s with unusedLink := dlistRemHead s.unusedLink () } ∧ v.unused = x :: rest := by
  obtain ⟨⟨rest, hrest⟩, rfl⟩ := remUnused_some h.shows.unused hx
  have hnodup := (h.shows.unused.spells ()).nodup
  rw [hrest] at hnodup
  have hrem := family_remHead h.shows.unused (i := ()) hrest
  refine ⟨rest, ⟨⟨h.shows.sorted, h.shows.free, hrem⟩, h.isFree, ?_, h.sortedBound, ?_⟩, ⟨?_, ?_, ?_⟩, rfl, hrest⟩
  · intro as r hr hmem
    exact h.apart as r hr (by simp [hrest, hmem])
  · exact fun r hr => h.unusedBound r (by simp [hrest, show r ∈ rest from hr])
  · exact h.unusedBound x (by simp [hrest])
  · exact fun as hmem => h.apart as x hmem (by simp [hrest])
  · exact (List.nodup_cons.mp hnodup).1

theorem retype (hr : r ∈ v.sorted as) (hL : u.sortedLink = s.sortedLink)
    (hF : Family u.freeLink (update v.free as fs)) (hU : u.unusedLink = s.unusedLink)
    (htype : ∀ q ≠ r, (u.region q).type = (s.region q).type)
    (hfs : ∀ q, q ∈ fs ↔ (q = r ∧ (u.region r).type = .free) ∨ (q ≠ r ∧ q ∈ v.free as)) :
    Sound cfg u { v with free := update v.free as fs } := by
  refine { h with shows := ⟨hL ▸ h.shows.sorted, hF, hU ▸ h.shows.unused⟩, isFree := ?_ }
  intro i q
  have hold := h.isFree i q
  by_cases hq : q = r
  · subst hq
    rw [mem_update, hfs]
    by_cases hi : i = as
    · subst hi
      simp [hr]
    · have hout : q ∉ v.sorted i := fun hm => hi (h.shows.sorted.apart hm hr)
      rw [hold]
      simp [hi, hout]
  · rw [mem_update, hfs, htype q hq]
    by_cases hi : i = as
    · subst hi
      simpa [hq] using hold
    · simpa [hi] using hold

theorem drop (hs : v.sorted as = pre ++ r :: post) (hL : Family u.sortedLink (update v.sorted as (pre ++ post)))
    (hF : Family u.freeLink (update v.free as fs)) (hU : u.unusedLink = dlistAddHead s.unusedLink () r)
    (htype : ∀ q ≠ r, (u.region q).type = (s.region q).type)
    (hfs : ∀ q, q ∈ fs ↔ q ≠ r ∧ q ∈ v.free as) :
    Sound cfg u ⟨update v.sorted as (pre ++ post), update v.free as fs, r :: v.unused⟩ := by
  have hin : r ∈ v.sorted as := by simp [hs]
  have hmem {i : AsId} {q : RegionId} : q ∈ update v.sorted as (pre ++ post) i ↔ q ≠ r ∧ q ∈ v.sorted i :=
    mem_cut h.shows.sorted hs
  have hadd := family_addHead h.shows.unused (i := ()) fun _ => h.apart as r hin
  refine ⟨⟨hL, hF, hU ▸ hadd⟩, ?_, ?_, ?_, ?_⟩
  · intro i q
    have hold := h.isFree i q
    by_cases hq : q = r
    · subst hq
      rw [hmem, mem_update, hfs]
      by_cases hi : i = as
      · simp [hi]
      · have hout : q ∉ v.sorted i := fun hm => hi (h.shows.sorted.apart hm hin)
        rw [hold]
        simp [hout]
    · rw [hmem, mem_update, hfs, htype q hq]
      by_cases hi : i = as
      · subst hi
        simpa [hq] using hold
      · simpa [hi, hq] using hold
  · intro i q hq hun
    obtain ⟨hne, hq⟩ := hmem.mp hq
    rcases List.mem_cons.mp hun with rfl | hun
    · exact hne rfl
    · exact h.apart i q hq hun
  · exact fun i q hq => h.sortedBound i q (hmem.mp hq).2
  · intro q hq
    rcases List.mem_cons.mp hq with rfl | hq
    · exact h.sortedBound as q hin
    · exact h.unusedBound q hq

theorem sorted_length (as : AsId) : (v.sorted as).length < bound cfg :=
  Nat.lt_succ_of_le (length_le_of_lt (h.shows.sorted.spells as).nodup (h.sortedBound as))

theorem free_length (as : AsId) : (v.free as).length < bound cfg :=
  Nat.lt_succ_of_le (length_le_of_lt (h.shows.free.spells as).nodup
    fun r hr => h.sortedBound as r ((h.isFree as r).mp hr).1)

protected theorem takeRegion (hmr : mr ∈ v.free as) (htype : type ≠ .free)
    (addr top : ℕ) (flags : BitVec 32) : ∃ w, Sound cfg (takeRegion s as mr addr top flags type) w ∧ w.sorted = v.sorted := by
  obtain ⟨pre, post, hs⟩ := List.append_of_mem hmr
  have hnodup := (h.shows.free.spells as).nodup
  rw [hs] at hnodup
  have hF := family_remEntry h.shows.free hs
  refine ⟨_, h.retype ((h.isFree as mr).mp hmr).1 rfl hF rfl ?_ ?_, rfl⟩
  · intro q hq
    simp [takeRegion, State.setRegion, hq]
  intro q
  have hfree : ((takeRegion s as mr addr top flags type).region mr).type ≠ .free := by
    simpa [takeRegion, State.setRegion] using htype
  simp only [hfree, hs, and_false, false_or]
  exact mem_remove hnodup

end Sound

theorem Sound.release (hs : v.sorted as = r :: post) :
    ∃ w, Sound cfg (releaseRegion s as r) w ∧ w.sorted = update v.sorted as post ∧
      (∀ q ≠ r, (releaseRegion s as r).region q = s.region q) ∧ (releaseRegion s as r).hint = s.hint ∧
      Moves as v w := by
  have hin : r ∈ v.sorted as := by simp [hs]
  have hL := family_remHead h.shows.sorted hs
  have hkeep (q : RegionId) (hq : q ≠ r) : (releaseRegion s as r).region q = s.region q := by
    unfold releaseRegion
    split_ifs <;> simp [addUnused, State.setRegion, hq]
  obtain ⟨hsorted, hunused, hhint⟩ : (releaseRegion s as r).sortedLink = dlistRemHead s.sortedLink as ∧
      (releaseRegion s as r).unusedLink = dlistAddHead s.unusedLink () r ∧ (releaseRegion s as r).hint = s.hint := by
    unfold releaseRegion
    split_ifs <;> exact ⟨rfl, rfl, rfl⟩
  have hfree : ∃ fs, Family (releaseRegion s as r).freeLink (update v.free as fs) ∧
      ∀ q, q ∈ fs ↔ q ≠ r ∧ q ∈ v.free as := by
    by_cases hf : (s.region r).type = .free
    · have hmem := (h.isFree as r).mpr ⟨hin, hf⟩
      obtain ⟨pre, suf, hfs⟩ := List.append_of_mem hmem
      have hnodup := (h.shows.free.spells as).nodup
      rw [hfs] at hnodup
      refine ⟨pre ++ suf, ?_, fun q => by rw [hfs]; exact mem_remove hnodup⟩
      have hF := family_remEntry h.shows.free hfs
      simpa [releaseRegion, hf, addUnused, State.setRegion] using hF
    · refine ⟨v.free as, ?_, fun q => ⟨fun hq => ⟨fun e => hf (e ▸ ((h.isFree as q).mp hq).2), hq⟩, And.right⟩⟩
      simpa [releaseRegion, hf, addUnused, State.setRegion] using h.shows.free
  obtain ⟨fs, hF, hfs⟩ := hfree
  rw [← hsorted] at hL
  have hs' : v.sorted as = [] ++ r :: post := hs
  refine ⟨_, h.drop hs' hL hF hunused (fun q hq => by rw [hkeep q hq]) hfs, rfl, hkeep, hhint, ?_, ?_, ?_⟩
  · exact fun i hi => by simp [hi]
  · exact fun i hi => by simp [hi]
  · intro q
    simp only [update_self, hs, List.nil_append, List.mem_cons]
    rw [or_left_comm, or_assoc]

protected theorem Sound.freeAllLoop (hxs : v.sorted as = xs) (hn : xs.length < n) :
    ∃ u w, freeAllLoop as n s = some u ∧ Sound cfg u w ∧ w.sorted = update v.sorted as [] ∧
      (∀ q ∉ xs, u.region q = s.region q) ∧ u.hint = update s.hint as none ∧ Moves as v w := by
  induction xs generalizing s v n with
  | nil =>
    obtain ⟨n, rfl⟩ := exists_succ hn
    have hhead : s.sortedLink.head as = none := by rw [(h.shows.sorted.spells as).head, hxs]; rfl
    refine ⟨s.setHint as none, v, by simp [freeAllLoop, hhead], ?_, ?_, fun _ _ => rfl, rfl, .refl as v⟩
    · exact h.same rfl rfl rfl fun _ _ _ => rfl
    · rw [← hxs, update_eq_self]
  | cons r xs ih =>
    obtain ⟨n, rfl⟩ := exists_succ hn
    have hhead : s.sortedLink.head as = some r := by rw [(h.shows.sorted.spells as).head, hxs]; rfl
    obtain ⟨w, hw, hsorted, hkeep, hhint, hmoves⟩ := h.release hxs
    have hrest : w.sorted as = xs := by rw [hsorted, update_self]
    obtain ⟨u, z, hloop, hz, hzs, hzkeep, hzhint, hzmoves⟩ := ih hw hrest (by simpa using hn)
    refine ⟨u, z, by simpa [freeAllLoop, hhead] using hloop, hz, ?_, fun q hq => ?_, ?_, hmoves.trans hzmoves⟩
    · rw [hzs, hsorted, update_idem]
    · simp only [List.mem_cons, not_or] at hq
      rw [hzkeep q hq.2, hkeep q hq.1]
    · rw [hzhint, hhint]

theorem Sound.freeListOk : FreeListOk s v := by
  refine ⟨h.shows, fun as => ?_, h.apart⟩
  rw [List.perm_ext_iff_of_nodup (h.shows.free.spells as).nodup ((h.shows.sorted.spells as).nodup.filter _)]
  intro r
  simp [h.isFree as r]

include hx

protected theorem Sound.addUnused : Sound cfg (addUnused s x) { v with unused := x :: v.unused } := by
  have hadd := family_addHead h.shows.unused (i := ()) fun _ => hx.unused
  refine ⟨⟨h.shows.sorted, h.shows.free, hadd⟩, h.isFree, ?_, h.sortedBound, ?_⟩
  · intro as r hr hmem
    rcases List.mem_cons.mp hmem with rfl | hmem
    · exact hx.sorted as hr
    · exact h.apart as r hr hmem
  · intro r hr
    rcases List.mem_cons.mp hr with rfl | hr
    · exact hx.bound
    · exact h.unusedBound r hr

theorem Sound.insert (hs : v.sorted as = pre ++ post) (hL : Family u.sortedLink (update v.sorted as (pre ++ x :: post)))
    (hF : Family u.freeLink (update v.free as fs)) (hU : u.unusedLink = s.unusedLink)
    (htype : ∀ r ≠ x, (u.region r).type = (s.region r).type)
    (hfs : ∀ r, r ∈ fs ↔ (r = x ∧ (u.region x).type = .free) ∨ r ∈ v.free as) :
    Sound cfg u ⟨update v.sorted as (pre ++ x :: post), update v.free as fs, v.unused⟩ := by
  refine ⟨⟨hL, hF, hU ▸ h.shows.unused⟩, ?_, ?_, ?_, h.unusedBound⟩
  · intro i r
    have hold := h.isFree i r
    by_cases hr : r = x
    · subst hr
      have hout := hx.sorted i
      have hfree := hx.free h i
      rw [mem_update, hfs]
      by_cases hi : i = as
      · subst hi
        simp [hfree]
      · simp [hi, hout, hfree]
    · rw [mem_paste hs, mem_update, hfs, htype r hr]
      by_cases hi : i = as
      · subst hi
        simpa [hr] using hold
      · simpa [hi] using hold
  · intro i r hr
    rcases (mem_paste hs).mp hr with ⟨-, rfl⟩ | hr
    · exact hx.unused
    · exact h.apart i r hr
  · intro i r hr
    rcases (mem_paste hs).mp hr with ⟨-, rfl⟩ | hr
    · exact hx.bound
    · exact h.sortedBound i r hr

include hs

protected theorem Sound.keepBase (addr : ℕ) :
    ∃ w xs, Sound cfg (keepBase s as mr x addr) w ∧ w.sorted = update v.sorted as (pre ++ xs ++ mr :: post) ∧
      (xs = [x] ∧ (s.region mr).baseAddr < addr ∧
          span (keepBase s as mr x addr) x = ((s.region mr).baseAddr, addr) ∨
        xs = [] ∧ addr ≤ (s.region mr).baseAddr) ∧
      (∀ r ∉ xs, (keepBase s as mr x addr).region r = s.region r) ∧
      (∀ r ≠ x, Loose cfg v r → Loose cfg w r) ∧ (keepBase s as mr x addr).hint = s.hint := by
  unfold keepBase
  split_ifs with hlt
  · have hL := family_insertBefore h.shows.sorted hs fun j => hx.sorted j
    have hF := family_addHead h.shows.free (i := as) fun j => hx.free h j
    refine ⟨_, [x], h.insert hx hs hL hF rfl ?_ ?_, by simp, .inl ⟨rfl, hlt, ?_⟩, ?_, ?_, rfl⟩
    · intro r hr
      simp [State.setRegion, hr]
    · simp [State.setRegion]
    · simp [span, State.setRegion]
    · intro r hr
      simp [State.setRegion, List.mem_singleton.not.mp hr]
    · intro r hr hl
      refine ⟨hl.bound, fun i hmem => ?_, hl.unused⟩
      rcases (mem_paste hs).mp hmem with ⟨-, rfl⟩ | hmem
      · exact hr rfl
      · exact hl.sorted i hmem
  · refine ⟨_, [], h.addUnused hx, ?_, .inr ⟨rfl, not_lt.mp hlt⟩, fun _ _ => rfl, ?_, rfl⟩
    · simp [← hs]
    · intro r hr hl
      exact ⟨hl.bound, hl.sorted, by simpa [hr] using hl.unused⟩

protected theorem Sound.keepTail (mrbase : RegionId) (top : ℕ) :
    ∃ w ys, Sound cfg (keepTail s as mr mrbase x top) w ∧
      w.sorted = update v.sorted as (pre ++ mr :: ys ++ post) ∧
      (ys = [x] ∧ top < (s.region mr).ceilingAddr ∧
          span (keepTail s as mr mrbase x top) x = (top, (s.region mr).ceilingAddr) ∨
        ys = [] ∧ (s.region mr).ceilingAddr ≤ top) ∧
      (∀ r ∉ ys, span (keepTail s as mr mrbase x top) r = span s r ∧
        ((keepTail s as mr mrbase x top).region r).type = (s.region r).type) ∧
      (keepTail s as mr mrbase x top).hint = s.hint := by
  have hs' : v.sorted as = (pre ++ [mr]) ++ post := by simp [hs]
  unfold keepTail
  split_ifs with hlt
  · have hL := family_insertAfter h.shows.sorted hs fun j => hx.sorted j
    rw [show pre ++ mr :: x :: post = (pre ++ [mr]) ++ x :: post by simp] at hL
    have hF := family_addHead h.shows.free (i := as) fun j => hx.free h j
    have hother (r : RegionId) (hr : r ≠ x) (f : MemRegion → MemRegion) (m : MemRegion) :
        update (update s.region x m) mrbase (f (update s.region x m mrbase)) r =
          if r = mrbase then f (s.region r) else s.region r := by
      by_cases hb : r = mrbase
      · subst hb
        simp [hr]
      · simp [hb, hr]
    have hself (f : MemRegion → MemRegion) (m : MemRegion) :
        update (update s.region x m) mrbase (f (update s.region x m mrbase)) x =
          if x = mrbase then f m else m := by
      by_cases hb : x = mrbase
      · subst hb
        simp
      · simp [hb]
    refine ⟨_, [x], h.insert hx hs' hL hF rfl ?_ ?_, by simp, .inl ⟨rfl, hlt, ?_⟩, ?_, rfl⟩
    · intro r hr
      simp only [State.setRegion, hother r hr (fun m => { m with as := some as })]
      split_ifs <;> rfl
    · simp only [State.setRegion, hself (fun m => { m with as := some as })]
      split_ifs <;> simp
    · simp only [span, State.setRegion, hself (fun m => { m with as := some as })]
      split_ifs <;> rfl
    · intro r hr
      simp only [span, State.setRegion, hother r (List.mem_singleton.not.mp hr) (fun m => { m with as := some as })]
      split_ifs <;> exact ⟨rfl, rfl⟩
  · exact ⟨_, [], h.addUnused hx, by simp [← hs], .inr ⟨rfl, not_lt.mp hlt⟩, fun _ _ => ⟨rfl, rfl⟩, rfl⟩

end

section

variable (h : InvExcept cfg s v as)
include h

theorem InvExcept.freeAll :
    ∃ u w, memregionFreeAll cfg s as = some u ∧ Inv cfg u w ∧ w.sorted = update v.sorted as [] ∧
      (∀ i ≠ as, layout u (v.sorted i) = layout s (v.sorted i)) ∧ Moves as v w := by
  obtain ⟨u, w, hloop, hw, hsorted, hkeep, hhint, hmoves⟩ := h.toSound.freeAllLoop rfl (h.sorted_length as)
  have hlay (i : AsId) (hi : i ≠ as) : layout u (v.sorted i) = layout s (v.sorted i) := by
    refine layout_congr fun r hr => ?_
    have hout : r ∉ v.sorted as := fun hm => hi (h.shows.sorted.apart hr hm)
    rw [span, hkeep r hout]
    rfl
  refine ⟨u, w, hloop, ⟨hw, fun i r hr => ?_, fun i hne => ?_⟩, hsorted, hlay, hmoves⟩
  · rw [hhint] at hr
    by_cases hi : i = as
    · subst hi
      simp at hr
    · rw [update_of_ne hi] at hr
      rw [hsorted, update_of_ne hi]
      exact h.hint i hi r hr
  · by_cases hi : i = as
    · subst hi
      simp [hsorted] at hne
    · rw [hsorted, update_of_ne hi] at hne ⊢
      rw [hlay i hi]
      exact h.tiles i hi hne

theorem InvExcept.copy (old : RegionId) (hx : Loose cfg v x) :
    ∃ w, InvExcept cfg (copyRegion s as old x) w as ∧ w.sorted = update v.sorted as (v.sorted as ++ [x]) ∧
      (∀ r ≠ x, (copyRegion s as old x).region r = s.region r) ∧ (∀ i ≠ as, w.free i = v.free i) ∧
      w.unused = v.unused := by
  obtain ⟨hsorted, hfree, hunused, hhint, hregion⟩ := copyRegion_links s as old x
  generalize copyRegion s as old x = u at *
  have hkeep (r : RegionId) (hr : r ≠ x) : u.region r = s.region r := by simp [hregion, hr]
  have hL := family_addTail h.shows.sorted (i := as) fun j => hx.sorted j
  rw [← hsorted] at hL
  have hF : ∃ fs, Family u.freeLink (update v.free as fs) ∧
      ∀ r, r ∈ fs ↔ (r = x ∧ (u.region x).type = .free) ∨ r ∈ v.free as := by
    by_cases hf : (s.region old).type = .free
    · rw [if_pos hf] at hfree
      refine ⟨v.free as ++ [x], ?_, fun r => by simp [hregion, hf, or_comm]⟩
      rw [hfree]
      exact family_addTail h.shows.free fun j => hx.free h.toSound j
    · rw [if_neg hf] at hfree
      refine ⟨v.free as, ?_, fun r => by simp [hregion, hf]⟩
      rw [update_eq_self, hfree]
      exact h.shows.free
  obtain ⟨fs, hF, hfs⟩ := hF
  have hend : v.sorted as = v.sorted as ++ [] := by simp
  refine ⟨_, ⟨h.toSound.insert hx hend hL hF hunused (fun r hr => by rw [hkeep r hr]) hfs, ?_, ?_⟩, rfl, hkeep,
    fun i hi => by simp [hi], rfl⟩
  · intro i hi r hr
    rw [hhint] at hr
    simpa [hi] using h.hint i hi r hr
  intro i hi hne
  simp only [update_of_ne hi] at hne ⊢
  rw [layout_congr fun r hr => ?_]
  · exact h.tiles i hi hne
  · have hrx : r ≠ x := fun e => hx.sorted i (e ▸ hr)
    rw [span, hkeep r hrx]
    rfl

protected theorem InvExcept.forkLoop
    (hne : old ≠ as) (hold : v.sorted old = copied ++ todo) (hn : todo.length < n) (hhint : s.hint as = none)
    (hlay : layout s (v.sorted as) = layout s copied) :
    ∃ u sc w, forkLoop cfg as n s todo.head? = some (u, sc) ∧ Inv cfg u w ∧ (∀ i ≠ as, w.sorted i = v.sorted i) ∧
      (∀ i ≠ as, layout u (v.sorted i) = layout s (v.sorted i)) ∧
      (layout u (w.sorted as) = if sc.isOk then layout s (v.sorted old) else []) ∧ Moves as v w ∧
      (sc.isOk = true ↔ todo.length ≤ v.unused.length) := by
  induction todo generalizing s v copied n with
  | nil =>
    obtain ⟨n, rfl⟩ := exists_succ hn
    rw [List.append_nil] at hold
    refine ⟨s, .ok (), v, rfl, h.whole hhint fun hfull => ?_, fun _ _ => rfl, fun _ _ => rfl, ?_, .refl as v, ?_⟩
    · rw [hlay, ← hold]
      refine h.tiles old hne fun hnil => hfull ?_
      rw [hnil] at hold
      simpa [← hold, layout] using hlay
    · simp [hlay, hold, Except.toBool]
    · simp [Except.toBool]
  | cons r todo ih =>
    obtain ⟨n, rfl⟩ := exists_succ hn
    cases hrem : remUnused s with
    | none =>
      obtain ⟨u, w, hfree, hinv, hsorted, haway, hmoves⟩ := h.freeAll
      refine ⟨u, .error .enomem, w, ?_, hinv, fun i hi => by simp [hsorted, hi], haway, ?_, hmoves, ?_⟩
      · simp [forkLoop, hrem, hfree]
      · simp [hsorted, layout, Except.toBool]
      · simp [remUnused_none h.shows.unused hrem, Except.toBool]
    | some p =>
      obtain ⟨x, t⟩ := p
      obtain ⟨rest, hsound, hx, rfl, hunused⟩ := h.toSound.remUnused hrem
      have hpop : InvExcept cfg { s with unusedLink := dlistRemHead s.unusedLink () } { v with unused := rest } as :=
        ⟨hsound, h.hint, h.tiles⟩
      obtain ⟨w, hw, hsorted, hkeep, hfree, hrest⟩ := hpop.copy r hx
      obtain ⟨-, -, -, hhint', hregion⟩ :=
        copyRegion_links { s with unusedLink := dlistRemHead s.unusedLink () } as r x
      have hloop : forkLoop cfg as (n + 1) s (r :: todo).head? = forkLoop cfg as n
          (copyRegion { s with unusedLink := dlistRemHead s.unusedLink () } as r x)
          ((copyRegion { s with unusedLink := dlistRemHead s.unusedLink () } as r x).sortedLink.next r) := by
        simp [forkLoop, hrem]
      rw [hloop]
      generalize copyRegion { s with unusedLink := dlistRemHead s.unusedLink () } as r x = u at *
      have hcopy : span u x = span s r := by simp [span, hregion]
      have hsame (rs : List RegionId) (i : AsId) (hrs : ∀ q ∈ rs, q ∈ v.sorted i) : layout u rs = layout s rs := by
        refine layout_congr fun q hq => ?_
        have hqx : q ≠ x := fun e => hx.sorted i (e ▸ hrs q hq)
        rw [span, hkeep q hqx]
        rfl
      have hold' : w.sorted old = (copied ++ [r]) ++ todo := by simp [hsorted, hne, hold]
      have hnext := (hw.shows.sorted.spells old).next copied r todo (by simp [hold'])
      have hlay' : layout u (w.sorted as) = layout u (copied ++ [r]) := by
        have hnew := hsame (v.sorted as) as fun _ => id
        have hdone := hsame copied old fun q hq => by simp [hold, hq]
        have hr := hsame [r] old fun q hq => by simp [hold, List.mem_singleton.mp hq]
        rw [hsorted, update_self, layout_append, layout_append, hnew, hlay, hdone, hr]
        simp [layout, hcopy]
      obtain ⟨t, sc, z, hrun, hz, hzs, hzlay, hzas, hzmoves, hzok⟩ :=
        ih hw hold' (by simpa using hn) (by rw [hhint']; exact hhint) hlay'
      have hmoves : Moves as v w := by
        refine ⟨fun i hi => by simp [hsorted, hi], hfree, fun q => ?_⟩
        simp only [hsorted, update_self, hrest, hunused, List.mem_append, List.mem_cons, List.not_mem_nil,
          or_false]
        rw [or_assoc]
      rw [hnext]
      refine ⟨t, sc, z, hrun, hz, fun i hi => ?_, fun i hi => ?_, ?_, hmoves.trans hzmoves, ?_⟩
      · rw [hzs i hi]
        simp [hsorted, hi]
      · have hz' := hzlay i hi
        rw [show w.sorted i = v.sorted i by simp [hsorted, hi]] at hz'
        rw [hz', hsame (v.sorted i) i fun _ => id]
      · rw [hzas, show w.sorted old = v.sorted old by simp [hsorted, hne], hsame (v.sorted old) old fun _ => id]
      · simp [hzok, hrest, hunused]

end

section

variable (h : Inv cfg s v)
include h

namespace Inv

theorem recut (h' : Sound cfg u w) (hhint : ∀ i r, u.hint i = some r → r ∈ w.sorted i)
    (hc : Recut s v u w as mid mid') (hmid : mid ≠ [])
    (htiles : ∀ m n, Tiles m n (layout s mid) → Tiles m n (layout u mid')) : Inv cfg u w := by
  refine ⟨h', hhint, fun i hne => ?_⟩
  by_cases hi : i = as
  · subst hi
    obtain ⟨A, Z, hs, hu⟩ := hc.here h.toSound h'
    obtain ⟨pre, post, hv, -⟩ := hc.cut
    have hold := h.tiles i (by simp [hv, hmid])
    rw [hs] at hold
    rw [hu]
    exact hold.replace htiles
  · rw [hc.away h.toSound h' hi]
    rw [hc.other i hi] at hne
    exact h.tiles i hne

theorem after (h' : Sound cfg u w) (hc : Recut s v u w as mid mid') (hmid : mid ≠ []) (hmid' : mid' ≠ [])
    (hproper : ∀ m n, Tiles m n (layout s mid) → Proper (layout s mid) → Proper (layout u mid')) :
    After s v u w := by
  obtain ⟨pre, post, hv, hw⟩ := hc.cut
  constructor
  · intro hp i
    by_cases hi : i = as
    · subst hi
      obtain ⟨A, Z, hs, hu⟩ := hc.here h.toSound h'
      have hold := hp i
      have htiles := h.tiles i (by simp [hv, hmid])
      rw [hs] at hold htiles
      obtain ⟨n, hn, -⟩ := tiles_append.mp htiles
      obtain ⟨m, -, hm⟩ := tiles_append.mp hn
      rw [hu]
      exact hold.replace (hproper m n hm)
    · rw [hc.away h.toSound h' hi]
      exact hp i
  · intro i
    by_cases hi : i = as
    · subst hi
      simp [hv, hw, hmid, hmid']
    · rw [hc.other i hi]

theorem setHint {o : Option RegionId} (ho : ∀ r ∈ o, r ∈ v.sorted as) : Inv cfg (s.setHint as o) v := by
  refine ⟨h.toSound.same rfl rfl rfl fun _ _ _ => rfl, fun i r hr => ?_, h.tiles⟩
  by_cases hi : i = as
  · subst hi
    exact ho r (by simpa [State.setHint] using hr)
  · exact h.hint i r (by simpa [State.setHint, hi] using hr)

theorem find (addr : ℕ) (hL : Spells L as xs) (hlen : xs.length < bound cfg) (hxs : ∀ r ∈ xs, r ∈ v.sorted as) :
    ∃ o mr, memregionFind cfg L s as addr = some (s.setHint as o, mr) ∧ (∀ r ∈ o, r ∈ v.sorted as) ∧
      ∀ r ∈ mr, r ∈ v.sorted as ∧ (s.region r).contains addr = true := by
  obtain ⟨o, mr, hfind, ho, hmr, -⟩ := find_spelled (h.hint as) hL hlen hxs
  exact ⟨o, mr, hfind, ho, hmr⟩

protected theorem remUnused (hx : remUnused s = some (x, u)) :
    ∃ rest, Inv cfg u { v with unused := rest } ∧ Loose cfg { v with unused := rest } x ∧ u.region = s.region ∧
      v.unused = x :: rest ∧ After s v u { v with unused := rest } := by
  obtain ⟨rest, hsound, hloose, rfl, hrest⟩ := h.toSound.remUnused hx
  exact ⟨rest, ⟨hsound, h.hint, h.tiles⟩, hloose, rfl, hrest, id, fun _ => Iff.rfl⟩

theorem cutAt (hx : Loose cfg v x) (hmr : mr ∈ v.sorted as)
    (hlo : (s.region mr).baseAddr < addr) (hhi : addr < (s.region mr).ceilingAddr) :
    ∃ w, Inv cfg (splitRegion s as mr x addr) w ∧ After s v (splitRegion s as mr x addr) w ∧
      ∀ lo hi, Untouched s v as lo hi → Untouched (splitRegion s as mr x addr) w as lo hi := by
  have hne : mr ≠ x := fun e => hx.sorted as (e ▸ hmr)
  obtain ⟨pre, post, hs⟩ := List.append_of_mem hmr
  have hs' : v.sorted as = (pre ++ [mr]) ++ post := by simp [hs]
  obtain ⟨hsorted, hfree, hunused, hhint⟩ := splitRegion_links s as mr x addr
  have hregion := splitRegion_region s as addr hne
  generalize splitRegion s as mr x addr = u at *
  have hL := family_insertAfter h.shows.sorted hs fun j => hx.sorted j
  rw [show pre ++ mr :: x :: post = (pre ++ [mr]) ++ x :: post by simp, ← hsorted] at hL
  have hsound : ∃ free, Sound cfg u ⟨update v.sorted as ((pre ++ [mr]) ++ x :: post), free, v.unused⟩ := by
    have htype (r : RegionId) (hr : r ≠ x) : (u.region r).type = (s.region r).type := by simp [(hregion r).2, hr]
    by_cases hf : (s.region mr).type = .free
    · rw [if_pos hf] at hfree
      have hF := family_addHead h.shows.free (i := as) fun j => hx.free h.toSound j
      rw [← hfree] at hF
      exact ⟨_, h.toSound.insert hx hs' hL hF hunused htype fun r => by simp [(hregion x).2, hf]⟩
    · rw [if_neg hf] at hfree
      have hF : Family u.freeLink (update v.free as (v.free as)) := by
        rw [update_eq_self, hfree]
        exact h.shows.free
      exact ⟨_, h.toSound.insert hx hs' hL hF hunused htype fun r => by simp [(hregion x).2, hf]⟩
  obtain ⟨free, hsound⟩ := hsound
  have hcut : Recut s v u ⟨update v.sorted as ((pre ++ [mr]) ++ x :: post), free, v.unused⟩ as [mr] [mr, x] := by
    refine ⟨fun i hi => by simp [hi], fun r _ hr => ?_, pre, post, by simp [hs], by simp⟩
    simp only [List.mem_cons, not_or] at hr
    simp [(hregion r).1, hr.1, hr.2]
  have hlay : layout u [mr, x] = [((s.region mr).baseAddr, addr), (addr, (s.region mr).ceilingAddr)] := by
    simp [layout, (hregion mr).1, (hregion x).1, hne.symm]
  refine ⟨_, h.recut hsound ?_ hcut (by simp) ?_, h.after hsound hcut (by simp) (by simp) ?_, ?_⟩
  · intro i r hr
    rw [hhint] at hr
    by_cases hi : i = as
    · subst hi
      simp at hr
    · rw [update_of_ne hi] at hr
      simpa [hi] using h.hint i r hr
  · intro m n ht
    rw [hlay]
    exact ⟨ht.1, rfl, ht.2⟩
  · intro m n _ _ t ht
    rw [hlay] at ht
    rcases List.mem_pair.mp ht with rfl | rfl
    · exact hlo
    · exact hhi
  · -- a piece of an untouched region is untouched
    intro lo hi hclear r hr
    by_contra htouch
    rw [Bool.not_eq_false, touches_iff] at htouch
    obtain ⟨htype, hbase, hends⟩ := htouch
    rw [(hregion r).2] at htype
    have hspan := (hregion r).1
    have hold : ¬ ((s.region mr).type = .free ∧ (s.region mr).baseAddr ≤ max lo hi ∧
        (lo ≤ (s.region mr).baseAddr ∨ lo < (s.region mr).ceilingAddr)) := by
      rw [← touches_iff, hclear mr hmr]
      simp
    by_cases hrm : r = mr
    · subst hrm
      simp only [span, if_true, Prod.ext_iff] at hspan
      rw [if_neg hne] at htype
      exact hold ⟨htype, by omega, by omega⟩
    · by_cases hrx : r = x
      · subst hrx
        simp only [span, hrm, if_false, if_true, Prod.ext_iff] at hspan
        rw [if_pos rfl] at htype
        exact hold ⟨htype, by omega, by omega⟩
      · simp only [span, hrm, hrx, if_false, Prod.ext_iff] at hspan
        rw [if_neg hrx] at htype
        have hno := hclear r (((mem_paste hs').mp hr).resolve_left fun hc => hrx hc.2)
        rw [← Bool.not_eq_true, touches_iff] at hno
        exact hno ⟨htype, by omega, by omega⟩

theorem carve (flags : BitVec 32)
    (hx : Loose cfg v x) (hy : Loose cfg v y) (hxy : y ≠ x) (hmr : mr ∈ v.free as) (htype : type ≠ .free)
    (hbase : (s.region mr).baseAddr ≤ addr) (htop : top ≤ (s.region mr).ceilingAddr)
    (hu : u = takeRegion (keepTail (keepBase s as mr x addr) as mr x y top) as mr addr top flags type) :
    ∃ w, Inv cfg u w ∧ (addr < top → After s v u w) ∧ span u mr = (addr, top) ∧ mr ∈ w.sorted as := by
  obtain ⟨hin, hfree⟩ := (h.isFree as mr).mp hmr
  obtain ⟨pre, post, hs⟩ := List.append_of_mem hin
  have hmx : mr ≠ x := fun e => hx.sorted as (e ▸ hin)
  have hmy : mr ≠ y := fun e => hy.sorted as (e ▸ hin)
  obtain ⟨w₁, xs, h₁, hs₁, hxs, hkeep₁, hloose, hhint₁⟩ := h.toSound.keepBase hx hs addr
  have hmxs : mr ∉ xs := by
    rcases hxs with ⟨rfl, -⟩ | ⟨rfl, -⟩
    · simpa using hmx
    · simp
  have hmr₁ := hkeep₁ mr hmxs
  obtain ⟨w₂, ys, h₂, hs₂, hys, hkeep₂, hhint₂⟩ :=
    h₁.keepTail (hloose y hxy hy) (by rw [hs₁, update_self]) x top
  have hmys : mr ∉ ys := by
    rcases hys with ⟨rfl, -⟩ | ⟨rfl, -⟩
    · simpa using hmy
    · simp
  rw [hmr₁] at hys
  have hsorted₂ : w₂.sorted = update v.sorted as (pre ++ (xs ++ mr :: ys) ++ post) := by
    rw [hs₂, hs₁]
    simp
  have hmr₂ : mr ∈ w₂.free as := by
    rw [h₂.isFree, hsorted₂, (hkeep₂ mr hmys).2, hmr₁]
    exact ⟨by simp, hfree⟩
  obtain ⟨w, hw, hsorted⟩ := h₂.takeRegion hmr₂ htype addr top flags
  rw [← hu] at hw
  have hother (r : RegionId) (hr : r ≠ mr) :
      span u r = span (keepTail (keepBase s as mr x addr) as mr x y top) r := by
    simp [hu, takeRegion, span, State.setRegion, hr]
  have hspan : span u mr = (addr, top) := by simp [hu, takeRegion, span, State.setRegion]
  rw [hsorted₂] at hsorted
  have hcut : Recut s v u w as [mr] (xs ++ mr :: ys) := by
    refine ⟨fun i hi => by simp [hsorted, hi], fun r hr hr' => ?_, pre, post, by simp [hs], by simp [hsorted]⟩
    simp only [List.mem_append, List.mem_cons, not_or] at hr'
    rw [hother r hr'.2.1, (hkeep₂ r hr'.2.2).1, span, hkeep₁ r hr'.1]
    rfl
  have hlay : layout u (xs ++ mr :: ys) = Tiling.carve (s.region mr).baseAddr (s.region mr).ceilingAddr addr top := by
    have hleft : layout u xs = if (s.region mr).baseAddr < addr then [((s.region mr).baseAddr, addr)] else [] := by
      rcases hxs with ⟨rfl, hlt, hsp⟩ | ⟨rfl, hge⟩
      · have hxy' : x ∉ ys := by
          rcases hys with ⟨rfl, -⟩ | ⟨rfl, -⟩
          · simpa using hxy.symm
          · simp
        simp [layout, hlt, hother x hmx.symm, (hkeep₂ x hxy').1, hsp]
      · simp [layout, not_lt.mpr hge]
    have hright : layout u ys = if top < (s.region mr).ceilingAddr then [(top, (s.region mr).ceilingAddr)] else [] := by
      rcases hys with ⟨rfl, hlt, hsp⟩ | ⟨rfl, hge⟩
      · simp [layout, hlt, hother y hmy.symm, hsp]
      · simp [layout, not_lt.mpr hge]
    rw [layout_append, hleft, Tiling.carve, ← hright, ← hspan]
    rfl
  refine ⟨w, h.recut hw ?_ hcut (by simp) ?_, fun hlt => h.after hw hcut (by simp) (by simp) ?_, hspan, ?_⟩
  · intro i r hr
    have hr' := h.hint i r (by simpa [hu, takeRegion, State.setRegion, hhint₁, hhint₂] using hr)
    by_cases hi : i = as
    · subst hi
      rw [hs, List.perm_middle.mem_iff, List.mem_cons, List.mem_append] at hr'
      rw [hsorted]
      rcases hr' with rfl | hpre | hpost
      · simp
      · simp [hpre]
      · simp [hpost]
    · simpa [hsorted, hi] using hr'
  · rintro m n ⟨rfl, rfl⟩
    rw [hlay]
    exact tiles_carve hbase htop
  · intro m n _ _
    rw [hlay]
    exact proper_carve _ _ hlt
  · simp [hsorted]

protected theorem markFree (hr : r ∈ v.sorted as) (htype : (s.region r).type ≠ .free) :
    ∃ w, Inv cfg (markFree s as r) w ∧ After s v (markFree s as r) w ∧ w.sorted = v.sorted := by
  have hout (j : AsId) : r ∉ v.free j := fun hm => htype ((h.isFree j r).mp hm).2
  have hspan : span (markFree s as r) = span s := by
    funext q
    by_cases hq : q = r
    · subst hq
      simp [span, markFree, State.setRegion]
    · simp [span, markFree, State.setRegion, hq]
  have hlay : layout (markFree s as r) = layout s := by
    funext rs
    rw [layout, hspan, layout]
  have hF := family_addHead h.shows.free (i := as) hout
  refine ⟨_, ⟨h.toSound.retype hr rfl hF rfl ?_ ?_, h.hint, ?_⟩, ⟨?_, fun _ => Iff.rfl⟩, rfl⟩
  · intro q hq
    simp [markFree, State.setRegion, hq]
  · intro q
    simp only [List.mem_cons, markFree, State.setRegion, update_self, and_true]
    constructor
    · rintro (rfl | hq)
      · exact .inl rfl
      · exact .inr ⟨fun e => hout as (e ▸ hq), hq⟩
    · rintro (rfl | ⟨-, hq⟩)
      · exact .inl rfl
      · exact .inr hq
  · intro i hi
    rw [hlay]
    exact h.tiles i hi
  · intro hp i
    rw [hlay]
    exact hp i

protected theorem absorb (hs : v.sorted as = pre ++ p :: r :: post) (htype : (s.region r).type ≠ .free)
    (hhint : s.hint as = none) :
    ∃ w, Inv cfg (absorb s as p r) w ∧ After s v (absorb s as p r) w ∧
      w.sorted = update v.sorted as (pre ++ p :: post) := by
  have hnodup := (h.shows.sorted.spells as).nodup
  rw [hs] at hnodup
  have hne : p ≠ r := ne_of_mem_post hnodup (by simp)
  have hregion := absorb_region s as hne
  have hs' : v.sorted as = (pre ++ [p]) ++ r :: post := by simp [hs]
  have hL := family_remEntry h.shows.sorted hs'
  have hF : Family s.freeLink (update v.free as (v.free as)) := by
    rw [update_eq_self]
    exact h.shows.free
  have hsound := h.toSound.drop (u := absorb s as p r) hs' hL hF rfl ?_ ?_
  · have hcut : Recut s v (absorb s as p r) ⟨update v.sorted as (pre ++ [p] ++ post),
        update v.free as (v.free as), r :: v.unused⟩ as [p, r] [p] := by
      refine ⟨fun i hi => by simp [hi], fun q hq hq' => ?_, pre, post, by simp [hs], by simp⟩
      simp only [List.mem_cons, not_or] at hq
      simp [span, hregion q, hq.1, hq.2]
    have hlay : layout (absorb s as p r) [p] = [((s.region p).baseAddr, (s.region r).ceilingAddr)] := by
      simp [layout, span, hregion p, hne]
    refine ⟨_, h.recut hsound ?_ hcut (by simp) ?_, h.after hsound hcut (by simp) (by simp) ?_, by simp⟩
    · intro i q hq
      have hq' := h.hint i q hq
      by_cases hi : i = as
      · subst hi
        rw [show (absorb s i p r).hint = s.hint from rfl, hhint] at hq
        cases hq
      · simpa [hi] using hq'
    · rintro m n ⟨hm, hp, hn⟩
      rw [hlay]
      exact ⟨hm, hn⟩
    · rintro m n ⟨-, hmeet, -⟩ hp t ht
      rw [hlay, List.mem_singleton] at ht
      subst ht
      have h₁ : (s.region p).baseAddr < (s.region p).ceilingAddr := hp (span s p) (by simp [layout])
      have h₂ : (s.region r).baseAddr < (s.region r).ceilingAddr := hp (span s r) (by simp [layout])
      have h₃ : (s.region r).baseAddr = (s.region p).ceilingAddr := hmeet
      omega
  · intro q hq
    rw [hregion q, if_neg hq]
    split_ifs with hp
    · rw [hp]
    · rfl
  · intro q
    constructor
    · intro hq
      exact ⟨fun e => htype (e ▸ ((h.isFree as q).mp hq).2), hq⟩
    · exact And.right

theorem meet (hs : v.sorted as = pre ++ r :: q :: post) : (s.region r).ceilingAddr = (s.region q).baseAddr := by
  have ht := h.tiles as (by simp [hs])
  rw [hs, layout_append] at ht
  exact ht.meet

protected theorem freeRegion (hs : v.sorted as = pre ++ r :: suf)
    (htype : (s.region r).type ≠ .free) (hhint : s.hint as = none)
    (hin : (s.region r).baseAddr ≥ addr ∧ (s.region r).ceilingAddr ≤ top) :
    ∃ w pre', Inv cfg (freeRegion s as addr top r) w ∧ After s v (freeRegion s as addr top r) w ∧
      w.sorted as = pre' ++ suf ∧ (freeRegion s as addr top r).hint as = none := by
  rw [freeRegion, if_pos hin]
  cases hprev : freePrev s r with
  | some p =>
    obtain ⟨-, pre, rfl⟩ := freePrev_some (h.shows.sorted.spells as) hs hprev
    have hs' : v.sorted as = pre ++ p :: r :: suf := by simp [hs]
    obtain ⟨w, hw, hafter, hsorted⟩ := h.absorb hs' htype hhint
    exact ⟨w, pre ++ [p], hw, hafter, by simp [hsorted], hhint⟩
  | none =>
    have hr : r ∈ v.sorted as := by simp [hs]
    obtain ⟨w, hw, hafter, hsorted⟩ := h.markFree hr htype
    exact ⟨w, pre ++ [r], hw, hafter, by simp [hsorted, hs], hhint⟩

protected theorem freeLoop (hs : v.sorted as = pre ++ suf)
    (hn : suf.length < n) (hhint : s.hint as = none) (hle : addr ≤ top)
    (hclear : ∀ r ∈ suf, touches s addr top r = false)
    (hstop : ∀ p ∈ pre.getLast?, ∀ r ∈ suf.head?, (s.region p).type = .free → (s.region r).type = .free →
      (s.region r).baseAddr < top) :
    ∃ u mr w, freeLoop as addr top n s suf.head? = some (u, mr) ∧ Inv cfg u w ∧ After s v u w ∧
      coalesceAbove u as mr = u := by
  induction suf generalizing s v pre n with
  | nil =>
    obtain ⟨n, rfl⟩ := exists_succ hn
    exact ⟨s, none, v, rfl, h, After.refl s v, rfl⟩
  | cons r suf ih =>
    obtain ⟨n, rfl⟩ := exists_succ hn
    have hn' : suf.length < n := by simpa using hn
    have hs' : v.sorted as = (pre ++ [r]) ++ suf := by simp [hs]
    have hnext := (h.shows.sorted.spells as).next _ _ _ hs
    have hclear' : ∀ q ∈ suf, touches s addr top q = false := fun q hq => hclear q (List.mem_cons_of_mem r hq)
    simp only [List.head?_cons, freeLoop]
    split_ifs with hlt
    · rw [hnext]
      -- A free region that follows one of base below top lies below addr.
      have hbelow (q : RegionId) (hq : q ∈ suf.head?) (hceil : (s.region r).ceilingAddr ≤ top)
          (htype : (s.region q).type = .free) : (s.region q).baseAddr < top := by
        obtain ⟨rest, rfl⟩ := List.head?_eq_some_iff.mp hq
        have hmeet := h.meet hs
        have hno := not_touched (hclear' q (by simp)) htype (by omega)
        omega
      by_cases hin : (s.region r).baseAddr ≥ addr ∧ (s.region r).ceilingAddr ≤ top
      · have htype : (s.region r).type ≠ .free := fun hf => by
          have hno := not_touched (hclear r (by simp)) hf (by omega)
          omega
        obtain ⟨w, pre', hw, hafter, hsorted, hhint'⟩ := h.freeRegion hs htype hhint hin
        have hkeep (q : RegionId) (hq : q ∈ suf) : (freeRegion s as addr top r).region q = s.region q :=
          freeRegion_keeps (h.shows.sorted.spells as) hs hq
        obtain ⟨u, mr, z, hloop, hz, hafter', hco⟩ := ih hw hsorted hn' hhint'
          (fun q hq => by rw [touches_congr (hkeep q hq)]; exact hclear' q hq)
          (fun p _ q hq _ hf => by
            rw [hkeep q (List.mem_of_mem_head? hq)] at hf ⊢
            exact hbelow q hq hin.2 hf)
        exact ⟨u, mr, z, hloop, hz, hafter.trans hafter', hco⟩
      · rw [freeRegion, if_neg hin]
        refine ih h hs' hn' hhint hclear' fun p hp q hq hfp hfq => ?_
        obtain rfl : r = p := by simpa using hp
        have hno := not_touched (hclear r (by simp)) hfp (by omega)
        exact hbelow q hq (by omega) hfq
    · refine ⟨s, some r, v, rfl, h, After.refl s v, ?_⟩
      simp only [coalesceAbove]
      split_ifs with hf
      · cases hprev : freePrev s r with
        | none => rfl
        | some p =>
          obtain ⟨hfree, pre, rfl⟩ := freePrev_some (h.shows.sorted.spells as) hs hprev
          exact absurd (hstop p (by simp) r rfl hfree hf) hlt
      · rfl

theorem freeLoop_wrapped (hr : r ∈ v.sorted as) (hlt : top < addr)
    (hcon : (s.region r).contains addr = true) (hclear : touches s addr top r = false) :
    ∃ mr, freeLoop as addr top (n + 2) s (some r) = some (s, mr) ∧ coalesceAbove s as mr = s := by
  obtain ⟨pre, post, hs⟩ := List.append_of_mem hr
  have hcon' := contains_iff.mp hcon
  have htype : (s.region r).type ≠ .free := fun hf => by
    have hno := not_touched hclear hf (by omega)
    omega
  simp only [freeLoop]
  split_ifs with hbase
  · rw [freeRegion, if_neg (by omega), (h.shows.sorted.spells as).next _ _ _ hs]
    cases post with
    | nil => exact ⟨none, rfl, rfl⟩
    | cons q post =>
      have hmeet := h.meet hs
      have hs' : v.sorted as = (pre ++ [r]) ++ q :: post := by simp [hs]
      refine ⟨some q, ?_, ?_⟩
      · simp only [List.head?_cons, freeLoop]
        rw [if_neg (by omega)]
      · have hprev : freePrev s q = none := by simp [freePrev_eq (h.shows.sorted.spells as) hs', htype]
        simp [coalesceAbove, hprev]
  · exact ⟨some r, rfl, by simp [coalesceAbove, htype]⟩

end Inv

namespace Inv

variable (as addr top)

theorem findSorted :
    ∃ o mr, memregionFindSorted cfg s as addr = some (s.setHint as o, mr) ∧
    (∀ r ∈ o, r ∈ v.sorted as) ∧ ∀ r ∈ mr, r ∈ v.sorted as ∧ (s.region r).contains addr = true :=
  h.find addr (h.shows.sorted.spells as) (h.sorted_length as) fun _ hr => hr

theorem split : ∃ u sc w, memregionSplit cfg s as addr = some (u, sc) ∧
    Inv cfg u w ∧ After s v u w ∧ ∀ lo hi, Untouched s v as lo hi → Untouched u w as lo hi := by
  obtain ⟨o, mr, hfind, ho, hmr⟩ := h.findSorted as addr
  have hinv := h.setHint ho
  have hsame : After s v (s.setHint as o) v ∧ ∀ lo hi, Untouched s v as lo hi → Untouched (s.setHint as o) v as lo hi :=
    ⟨⟨id, fun _ => Iff.rfl⟩, fun _ _ => id⟩
  simp only [memregionSplit, hfind, Option.map_some]
  cases mr with
  | none => exact ⟨_, _, v, rfl, hinv, hsame⟩
  | some mr =>
    obtain ⟨hin, hcon⟩ := hmr mr rfl
    have hcon' := contains_iff.mp hcon
    dsimp only
    split_ifs with hend
    · exact ⟨_, _, v, rfl, hinv, hsame⟩
    cases hrem : remUnused (s.setHint as o) with
    | none => exact ⟨_, _, v, rfl, hinv, hsame⟩
    | some p =>
      obtain ⟨x, u⟩ := p
      obtain ⟨rest, hinv', hx, hregion, -, hpop⟩ := hinv.remUnused hrem
      have hlo : (u.region mr).baseAddr < addr := by
        rw [hregion]
        exact lt_of_le_of_ne hcon'.1 fun e => hend (.inl e.symm)
      have hhi : addr < (u.region mr).ceilingAddr := by
        rw [hregion]
        exact hcon'.2
      obtain ⟨w, hw, hafter, hclear⟩ := hinv'.cutAt hx hin hlo hhi
      refine ⟨_, _, w, rfl, hw, (hsame.1.trans hpop).trans hafter, fun lo hi hun => hclear lo hi fun r hr => ?_⟩
      rw [touches, hregion]
      exact hun r hr

theorem pick (size : ℕ) (flags : BitVec 32) :
    ∃ o p, pickRegion cfg s as addr size flags = some (s.setHint as o, p) ∧ (∀ r ∈ o, r ∈ v.sorted as) ∧
      ∀ mr a, p = some (mr, a) → Picked cfg s v as addr size flags mr a := by
  unfold pickRegion
  by_cases hfixed : flags &&& cfg.mapFixed = 0
  · rw [if_neg (by simpa using hfixed), (h.shows.free.spells as).walk _ (h.free_length as)]
    refine ⟨s.hint as, _, by rw [setHint_self]; rfl, h.hint as, fun mr a hp => ?_⟩
    obtain ⟨r, hr, hra⟩ := Option.map_eq_some_iff.mp hp
    cases hra
    have hfits := List.find?_some hr
    simp only [MemRegion.fits, Bool.and_eq_true, decide_eq_true_eq] at hfits
    obtain ⟨⟨⟨-, hlo⟩, hhi⟩, hsize⟩ := hfits
    have hroom : alignUp (s.region mr).baseAddr + size ≤ (s.region mr).ceilingAddr := by omega
    exact ⟨List.mem_of_find?_eq_some hr, hlo, hhi, (Nat.mod_le _ _).trans hroom, fun hne => absurd hfixed hne,
      fun _ => hroom⟩
  · obtain ⟨o, mr, hfind, ho, hmr⟩ :=
      h.find addr (h.shows.free.spells as) (h.free_length as) fun r hr => ((h.isFree as r).mp hr).1
    rw [if_pos hfixed, memregionFindFree, hfind]
    cases mr with
    | none => exact ⟨o, none, rfl, ho, by simp⟩
    | some mr =>
      obtain ⟨hin, hcon⟩ := hmr mr rfl
      have hcon' := contains_iff.mp hcon
      simp only [Option.map_some]
      split_ifs with hbad
      · exact ⟨o, none, rfl, ho, by simp⟩
      refine ⟨o, some (mr, addr), rfl, ho, fun r a hp => ?_⟩
      cases hp
      obtain ⟨htop, htype⟩ := not_or.mp hbad
      exact ⟨(h.isFree as mr).mpr ⟨hin, not_not.mp htype⟩, hcon'.1, hcon'.2, not_lt.mp htop, fun _ => rfl,
        fun hz => absurd hz hfixed⟩

protected theorem splitEnds :
    ∃ u sc w, splitEnds cfg s as addr top = some (u, sc) ∧ Inv cfg u w ∧ After s v u w ∧
      (Untouched s v as addr top → Untouched u w as addr top) := by
  obtain ⟨u₁, sc₁, w₁, h₁, hinv₁, hafter₁, hclear₁⟩ := h.split as addr
  obtain ⟨u₂, sc₂, w₂, h₂, hinv₂, hafter₂, hclear₂⟩ := hinv₁.split as top
  have hboth : splitEnds cfg s as addr top =
      some (u₂, if sc₁.isOk && sc₂.isOk then .ok () else .error .enomem) := by
    simp only [splitEnds, h₁, h₂, Option.bind_some, Option.map_some]
  exact ⟨u₂, _, w₂, hboth, hinv₂, hafter₁.trans hafter₂, fun hun => hclear₂ _ _ (hclear₁ _ _ hun)⟩

theorem except : InvExcept cfg s v as :=
  ⟨h.toSound, fun i _ => h.hint i, fun i _ => h.tiles i⟩

protected theorem initLists : Inv cfg (initLists s as) ⟨update v.sorted as [], update v.free as [], v.unused⟩ := by
  have hmem {i : AsId} {q : RegionId} (hq : q ∈ update v.sorted as [] i) : i ≠ as ∧ q ∈ v.sorted i := by
    rcases mem_update.mp hq with ⟨-, hq⟩ | hq
    · simp at hq
    · exact hq
  refine ⟨⟨⟨family_init h.shows.sorted, family_init h.shows.free, h.shows.unused⟩, ?_, ?_, ?_, h.unusedBound⟩, ?_, ?_⟩
  · intro i q
    by_cases hi : i = as
    · simp [hi]
    · simpa [hi, initLists, State.setHint] using h.isFree i q
  · exact fun i q hq => h.apart i q (hmem hq).2
  · exact fun i q hq => h.sortedBound i q (hmem hq).2
  · intro i q hq
    by_cases hi : i = as
    · subst hi
      simp [initLists, State.setHint] at hq
    · simpa [hi] using h.hint i q (by simpa [initLists, State.setHint, hi] using hq)
  · intro i hne
    by_cases hi : i = as
    · subst hi
      simp at hne
    · simp only [update_of_ne hi] at hne ⊢
      exact h.tiles i hne

protected theorem initMemregions :
    ∃ u sc w, initMemregions cfg s as = (u, sc) ∧ Inv cfg u w ∧ (∀ i ≠ as, w.sorted i = v.sorted i) ∧
      (∀ i ≠ as, layout u (v.sorted i) = layout s (v.sorted i)) ∧
      layout u (w.sorted as) = if sc.isOk then [(cfg.userBase, cfg.userCeiling)] else [] := by
  have hinv := h.initLists as
  cases hrem : remUnused (initLists s as) with
  | none =>
    simp only [initMemregions, hrem]
    refine ⟨_, _, _, rfl, hinv, fun i hi => by simp [hi], fun i hi => rfl, ?_⟩
    simp [layout, Except.toBool]
  | some p =>
    obtain ⟨x, t⟩ := p
    obtain ⟨rest, hinv', hx, hregion, -, -⟩ := hinv.remUnused hrem
    simp only [initMemregions, hrem]
    have hempty : (update v.sorted as []) as = [] ++ [] := by simp
    have hL := family_addTail hinv'.shows.sorted (i := as) fun j => hx.sorted j
    have hF := family_addTail hinv'.shows.free (i := as) fun j => hx.free hinv'.toSound j
    simp only [update_self] at hL hF
    have hsound := hinv'.toSound.insert (u := State.setRegion { t with
        sortedLink := dlistAddTail t.sortedLink as x, freeLink := dlistAddTail t.freeLink as x } x
        ⟨cfg.userBase, cfg.userCeiling, some as, .free, 0, 0⟩) hx hempty hL hF rfl ?_ ?_
    · have haway (i : AsId) (hi : i ≠ as) : ∀ r ∈ v.sorted i, r ≠ x := by
        rintro r hr rfl
        exact hx.sorted i (by simpa [hi] using hr)
      have hspan (r : RegionId) (hr : r ≠ x) : span (State.setRegion { t with
          sortedLink := dlistAddTail t.sortedLink as x, freeLink := dlistAddTail t.freeLink as x } x
          ⟨cfg.userBase, cfg.userCeiling, some as, .free, 0, 0⟩) r = span s r := by
        simp [span, State.setRegion, hr, hregion, initLists, State.setHint]
      refine ⟨_, _, _, rfl, ⟨hsound, ?_, ?_⟩, fun i hi => by simp [hi], ?_, ?_⟩
      · intro i q hq
        have hq' := hinv'.hint i q hq
        by_cases hi : i = as
        · subst hi
          simp at hq'
        · simpa [hi] using hq'
      · intro i hne
        by_cases hi : i = as
        · subst hi
          simp [layout, span, State.setRegion, Tiles]
        · simp only [update_of_ne hi] at hne ⊢
          rw [layout_congr fun r hr => hspan r (haway i hi r hr)]
          exact h.tiles i hne
      · exact fun i hi => layout_congr fun r hr => hspan r (haway i hi r hr)
      · simp [layout, span, State.setRegion, Except.toBool]
    · intro r hr
      simp [State.setRegion, hr]
    · simp [State.setRegion]

end Inv

theorem Inv.create (htype : type ≠ .free) (as : AsId) (addr size : ℕ) (flags : BitVec 32) :
    ∃ u mr w, memregionCreate cfg s as addr size flags type = some (u, mr) ∧ Inv cfg u w ∧
      (mr = none → After s v u w) ∧ ∀ r ∈ mr, r ∈ w.sorted as ∧
        ∃ q a, Picked cfg s v as addr size flags q a ∧ span u r = (a, word (a + size)) ∧
          (a < word (a + size) → After s v u w) := by
  obtain ⟨o, p, hpick, ho, hp⟩ := h.pick as addr size flags
  have hinv := h.setHint ho
  have hsame : After s v (s.setHint as o) v := ⟨id, fun _ => Iff.rfl⟩
  simp only [memregionCreate, hpick, Option.map_some]
  cases p with
  | none => exact ⟨_, none, v, rfl, hinv, fun _ => hsame, by simp⟩
  | some p =>
    obtain ⟨mr, a⟩ := p
    have hpicked := hp mr a rfl
    cases hx : remUnused (s.setHint as o) with
    | none => exact ⟨_, none, v, rfl, hinv, fun _ => hsame, by simp⟩
    | some q =>
      obtain ⟨x, t⟩ := q
      obtain ⟨rest, hinv₁, hlx, hregion₁, -, hpop₁⟩ := hinv.remUnused hx
      dsimp only
      cases hy : remUnused t with
      | none =>
        refine ⟨_, none, _, rfl, ⟨hinv₁.toSound.addUnused hlx, hinv₁.hint, hinv₁.tiles⟩, fun _ => ?_, by simp⟩
        exact (hsame.trans hpop₁).trans ⟨id, fun _ => Iff.rfl⟩
      | some q =>
        obtain ⟨y, t'⟩ := q
        obtain ⟨rest', hinv₂, hly, hregion₂, hrest, hpop₂⟩ := hinv₁.remUnused hy
        have hrest : rest = y :: rest' := hrest
        have hregion : t'.region = s.region := hregion₂.trans hregion₁
        have hlx' : Loose cfg { v with unused := rest' } x :=
          ⟨hlx.bound, hlx.sorted, fun hm => hlx.unused (by simp [hrest, show x ∈ rest' from hm])⟩
        have hxy : y ≠ x := fun e => hlx.unused (by simp [hrest, e])
        have hlo : (t'.region mr).baseAddr ≤ a := by
          rw [hregion]
          exact hpicked.base
        have hhi : word (a + size) ≤ (t'.region mr).ceilingAddr := by
          rw [hregion]
          exact hpicked.top
        obtain ⟨w, hw, hafter, hspan, hin⟩ := hinv₂.carve flags hlx' hly hxy hpicked.free htype hlo hhi rfl
        refine ⟨_, some mr, w, rfl, hw, by simp, ?_⟩
        rintro r ⟨⟩
        exact ⟨hin, mr, a, hpicked, hspan, fun hlt => ((hsame.trans hpop₁).trans hpop₂).trans (hafter hlt)⟩

theorem Inv.free (hc : Freeable cfg s as addr size) :
    ∃ u sc w, memregionFree cfg s as addr size = some (u, sc) ∧ Inv cfg u w ∧ After s v u w := by
  obtain ⟨u, sc, w, hsplit, hinv, hafter, hclear⟩ := h.splitEnds as addr (word (addr + size))
  simp only [memregionFree, hsplit, Option.bind_some]
  cases sc with
  | error e => exact ⟨u, _, w, rfl, hinv, hafter⟩
  | ok =>
    have hun : Untouched u w as addr (word (addr + size)) := by
      refine hclear fun r hr => ?_
      rcases hc with hfail | hfree
      · have hok := hfail _ hsplit
        simp [Except.toBool] at hok
      · rw [ClearOfFree, (h.shows.sorted.spells as).walk _ (h.sorted_length as)] at hfree
        have hnone := List.find?_eq_none.mp (Option.some.inj hfree) r hr
        simpa using hnone
    obtain ⟨o, mr, hfind, ho, hmr⟩ := hinv.findSorted as addr
    have hinv' := hinv.setHint ho
    rw [hfind]
    cases mr with
    | none => exact ⟨_, _, w, rfl, hinv', hafter.setHint as o⟩
    | some r =>
      obtain ⟨hr, hcon⟩ := hmr r rfl
      have hinv₀ : Inv cfg ((u.setHint as o).setHint as none) w := hinv'.setHint (by simp)
      simp only [Option.bind_some]
      rcases lt_or_ge (word (addr + size)) addr with hlt | hge
      · have hfuel : ∃ n, bound cfg = n + 2 := by
          have hpos := Nat.lt_of_le_of_lt (Nat.zero_le r) (hinv.sortedBound as r hr)
          exact ⟨cfg.maxMemregion - 1, by rw [bound]; omega⟩
        obtain ⟨n, hn⟩ := hfuel
        obtain ⟨mr, hloop, hco⟩ := hinv₀.freeLoop_wrapped hr hlt hcon (hun r hr)
        rw [hn, hloop]
        exact ⟨_, _, w, rfl, by rw [hco]; exact hinv₀, by rw [hco]; exact (hafter.setHint as o).setHint as none⟩
      · obtain ⟨pre, post, hs⟩ := List.append_of_mem hr
        have hlen := hinv.sorted_length as
        have hcon' := contains_iff.mp hcon
        have htype : (u.region r).type ≠ .free := fun hf => by
          have hno := not_touched (hun r hr) hf (by omega)
          omega
        have hloop := hinv₀.freeLoop hs (n := bound cfg) (by rw [hs, List.length_append] at hlen; omega)
          (by simp [State.setHint]) hge (fun q hq => hun q (by rw [hs]; exact List.mem_append_right pre hq))
          (fun p _ q hq _ hf => by
            cases hq
            exact absurd hf htype)
        obtain ⟨t, mr, z, hloop, hz, hafter', hco⟩ := hloop
        rw [List.head?_cons] at hloop
        rw [hloop]
        exact ⟨_, _, z, rfl, by rw [hco]; exact hz, by rw [hco]; exact ((hafter.setHint as o).setHint as none).trans hafter'⟩

theorem Inv.fork (new old : AsId) :
    ∃ u sc w, forkMemregions cfg s new old = some (u, sc) ∧ Inv cfg u w ∧ (∀ i ≠ new, w.sorted i = v.sorted i) ∧
      (∀ i ≠ new, layout u (v.sorted i) = layout s (v.sorted i)) ∧
      (old ≠ new → layout u (w.sorted new) = if sc.isOk then layout s (v.sorted old) else []) ∧
      Moves new ⟨update v.sorted new [], update v.free new [], v.unused⟩ w ∧
      (old ≠ new → (sc.isOk = true ↔ (v.sorted old).length ≤ v.unused.length)) := by
  have hinv := h.initLists new
  by_cases hne : old = new
  · subst hne
    have hhead : (initLists s old).sortedLink.head old = none := by
      rw [(hinv.shows.sorted.spells old).head]
      simp
    refine ⟨_, .ok (), _, ?_, hinv, fun i hi => by simp [hi], fun _ _ => rfl, fun hc => absurd rfl hc, .refl _ _,
      fun hc => absurd rfl hc⟩
    simp [forkMemregions, hhead, bound, forkLoop]
  · have hold : (update v.sorted new []) old = [] ++ v.sorted old := by simp [hne]
    obtain ⟨u, sc, w, hrun, hw, hsorted, haway, hlay, hmoves, hok⟩ := (hinv.except new).forkLoop hne hold
      (h.sorted_length old) (by simp [initLists, State.setHint]) (by simp)
    have hhead : (initLists s new).sortedLink.head old = (v.sorted old).head? := by
      rw [(hinv.shows.sorted.spells old).head]
      simp [hne]
    rw [forkMemregions, hhead]
    refine ⟨u, sc, w, hrun, hw, fun i hi => ?_, fun i hi => ?_, fun _ => ?_, hmoves, fun _ => hok⟩
    · rw [hsorted i hi]
      simp [hi]
    · have hi' := haway i hi
      simp only [update_of_ne hi] at hi'
      exact hi'
    · simp only [update_of_ne hne] at hlay
      exact hlay

theorem inv_step {a : Action} (hc : Clear cfg s a) : ∃ t w, step cfg s a = some t ∧ Inv cfg t w := by
  cases a with
  | init as =>
    obtain ⟨u, sc, w, hrun, hw, -⟩ := h.initMemregions as
    exact ⟨u, w, by simp [step, hrun], hw⟩
  | create as addr size flags type =>
    obtain ⟨u, mr, w, hrun, hw, -⟩ := h.create hc as addr size flags
    exact ⟨u, w, by simp [step, hrun], hw⟩
  | free as addr size =>
    obtain ⟨u, sc, w, hrun, hw, -⟩ := h.free hc
    exact ⟨u, w, by simp [step, hrun], hw⟩
  | split as addr =>
    obtain ⟨u, sc, w, hrun, hw, -⟩ := h.split as addr
    exact ⟨u, w, by simp [step, hrun], hw⟩
  | fork new old =>
    obtain ⟨u, sc, w, hrun, hw, -⟩ := h.fork new old
    exact ⟨u, w, by simp [step, hrun], hw⟩
  | freeAll as =>
    obtain ⟨u, w, hrun, hw, -⟩ := (h.except as).freeAll
    exact ⟨u, w, by simp [step, hrun], hw⟩

end

theorem free_lists_of_clear (h : Reach (step cfg) (Clear cfg) (Booted cfg) s) :
    (∃ v, FreeListOk s v) ∧ ∀ a, Clear cfg s a → (step cfg s a).isSome = true := by
  obtain ⟨v, hinv⟩ := h.invariant (P := fun s => ∃ v, Inv cfg s v)
    (by
      rintro s rfl
      exact ⟨_, inv_booted cfg⟩)
    (by
      rintro s a t ⟨v, hv⟩ hc hs
      obtain ⟨u, w, hu, hw⟩ := inv_step hv hc
      obtain rfl : u = t := Option.some.inj (hu.symm.trans hs)
      exact ⟨w, hw⟩)
  refine ⟨⟨v, hinv.toSound.freeListOk⟩, fun a hc => ?_⟩
  obtain ⟨u, w, hu, -⟩ := inv_step hinv hc
  simp [hu]

end

instance (cfg : Config) (s : State) (as : AsId) (addr size : ℕ) : Decidable (Freeable cfg s as addr size) :=
  inferInstanceAs (Decidable ((∀ p ∈ splitEnds cfg s as addr (word (addr + size)), p.2.isOk = false) ∨
    walk s.sortedLink.next (touches s addr (word (addr + size))) (bound cfg) (s.sortedLink.head as) = some none))

instance decidableClear (cfg : Config) (s : State) : ∀ a, Decidable (Clear cfg s a) := fun a => by
  unfold Clear
  split <;> infer_instance

def smallConfig : Config where
  maxMemregion := 16
  userBase := 0x00400000
  userCeiling := 0x7F000000
  mapFixed := 0x10
  vmFlagsMask := 0x03FFFFF0
  vmProtMask := 0xF
  base_lt_ceiling := by decide
  ceiling_lt := by decide

def middleRun : List Action :=
  [.init 0, .create 0 0 0x1000 0 .alloc, .create 0 0 0x1000 0 .alloc, .create 0 0 0x1000 0 .alloc,
    .free 0 0x00401000 0x1000, .fork 1 0]

theorem free_lists_after_fork : ∃ s, Reach (step smallConfig) (Clear smallConfig) (Booted smallConfig) s ∧
    (s.freeLink.head 1).map (fun r => (s.region r).baseAddr) = some 0x00401000 ∧ ∃ v, FreeListOk s v :=
  Reach.exists_of_run (Q := fun s => (s.freeLink.head 1).map (fun r => (s.region r).baseAddr) = some 0x00401000)
    middleRun rfl (by decide) (by decide) fun _ hr hq => ⟨hq, (free_lists_of_clear hr).1⟩

def coalesceRun : List Action := [.init 0, .create 0 0 0x1000 0 .alloc, .free 0 0x00400000 0x1000]

theorem coalesced_region_stays_listed : ∃ s, Reach (step smallConfig) always (Booted smallConfig) s ∧
    s.freeLink.next 0 = some 2 ∧ s.unusedLink.head () = some 2 ∧ ∀ v, ¬ FreeListOk s v := by
  refine Reach.exists_of_run (Q := fun s => s.freeLink.head 0 = some 0 ∧ s.freeLink.next 0 = some 2 ∧
      s.unusedLink.head () = some 2) coalesceRun rfl (meets_always _ _) (by decide)
    fun s _ ⟨hhead, hnext, hunused⟩ => ⟨hnext, hunused, fun v hv => ?_⟩
  rw [(hv.shows.free.spells 0).head] at hhead
  obtain ⟨post, hfree⟩ := List.head?_eq_some_iff.mp hhead
  rw [(hv.shows.free.spells 0).next [] 0 post hfree] at hnext
  have hin : 2 ∈ v.free 0 := by
    rw [hfree]
    exact List.mem_cons_of_mem 0 (List.mem_of_head? hnext)
  have hsorted := (List.mem_filter.mp ((hv.free 0).mem_iff.mp hin)).1
  rw [(hv.shows.unused.spells ()).head] at hunused
  exact hv.unused 0 2 hsorted (List.mem_of_head? hunused)

end CheviotKernel.MemRegions
