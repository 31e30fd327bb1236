import CheviotKernel.Fs.Cache
import Mathlib.Data.List.Perm.Subperm

namespace CheviotKernel.FileCache

open Linked CheviotKernel.Lists

structure View where
  free : Unit → List PageId
  hash : ℕ → List PageId
  owned : VId → List PageId

def Caches (c : Cache) (p : PageId) (v : VId) (fileOffset : Int) : Prop :=
  (c.page p).vnode = some v ∧ (c.page p).fileOffset = fileOffset

structure Sound (cfg : Config) (c : Cache) (ls : View) : Prop where
  free : Family c.free ls.free
  hash : Family c.hash ls.hash
  owned : Family c.pageList ls.owned
  hashed : ∀ b p, p ∈ ls.hash b ↔ ∃ v x, Caches c p v x ∧ b = bucket cfg v x
  listed : ∀ v p, p ∈ ls.owned v ↔ (c.page p).vnode = some v
  queued : ∀ p, p ∈ ls.free () ↔ p ∈ cfg.pool ∧ (c.page p).busy = false
  unique : ∀ p q v x, Caches c p v x → Caches c q v x → p = q

structure Neat (cfg : Config) (p : PageId) (x : Page) : Prop where
  bounded : x.vnode ≠ none → p ∈ cfg.pool
  valid : x.valid = true → x.vnode ≠ none
  clean : x.error = false ∧ x.discard = false

def Tidy (cfg : Config) (c : Cache) : Prop := ∀ p, Neat cfg p (c.page p)

structure Good (cfg : Config) (base : Int) (c : Cache) : Prop where
  tidy : Tidy cfg c
  sound : ∃ ls, Sound cfg c ls ∧ c.freePageCnt = base + (ls.free ()).length

structure Apart (cfg : Config) (base : Int) (c : Cache) (ls : View) (p : PageId) : Prop where
  free : Family c.free ls.free
  hash : Family c.hash ls.hash
  owned : Family c.pageList ls.owned
  hashed : ∀ b q, q ∈ ls.hash b ↔ q ≠ p ∧ ∃ v x, Caches c q v x ∧ b = bucket cfg v x
  listed : ∀ v q, q ∈ ls.owned v ↔ q ≠ p ∧ (c.page q).vnode = some v
  queued : ∀ q, q ∈ ls.free () ↔ q ≠ p ∧ q ∈ cfg.pool ∧ (c.page q).busy = false
  unique : ∀ q r v x, q ≠ p → r ≠ p → Caches c q v x → Caches c r v x → q = r
  count : c.freePageCnt = base + (ls.free ()).length

section Writes

variable {cfg : Config} {base y n : Int} {c d : Cache} {ls : View} {p q : PageId} {x : Page} {v : VId}
  {L : Links Unit PageId} {free : Unit → List PageId}

@[simp] theorem set_page_self (c : Cache) (p : PageId) (x : Page) : (c.set p x).page p = x := by
  simp [Cache.set]

theorem set_page_of_ne (x : Page) (h : q ≠ p) : (c.set p x).page q = c.page q := by
  simp [Cache.set, h]

theorem caches_of_ne (x : Page) (h : q ≠ p) : Caches (c.set p x) q v y ↔ Caches c q v y := by
  rw [Caches, Caches, set_page_of_ne x h]

theorem Tidy.set (h : Tidy cfg c) (hx : Neat cfg p x) : Tidy cfg (c.set p x) := by
  intro q
  by_cases hq : q = p
  · subst hq
    rwa [set_page_self]
  · rw [set_page_of_ne x hq]
    exact h q

section

variable (h : Apart cfg base c ls p)
include h

theorem Apart.set (x : Page) : Apart cfg base (c.set p x) ls p where
  free := h.free
  hash := h.hash
  owned := h.owned
  hashed b q := by
    rw [h.hashed]
    refine and_congr_right fun hq => exists_congr fun v => exists_congr fun y => ?_
    rw [caches_of_ne x hq]
  listed v q := by
    rw [h.listed]
    refine and_congr_right fun hq => ?_
    rw [set_page_of_ne x hq]
  queued q := by
    rw [h.queued]
    refine and_congr_right fun hq => ?_
    rw [set_page_of_ne x hq]
  unique q r v y hq hr h1 h2 := h.unique q r v y hq hr ((caches_of_ne x hq).mp h1) ((caches_of_ne x hr).mp h2)
  count := h.count

theorem Apart.mem_of_busy (hb : (c.page p).busy = true) (q : PageId) :
    q ∈ ls.free () ↔ q ∈ cfg.pool ∧ (c.page q).busy = false := by
  rw [h.queued]
  refine ⟨fun hq => hq.2, fun hq => ⟨?_, hq⟩⟩
  rintro rfl
  exact absurd (hb.symm.trans hq.2) (by simp)

theorem Apart.enter (hc : Caches c p v y) (hb : (c.page p).busy = true) (hnew : ∀ q, q ≠ p → ¬Caches c q v y) :
    ∃ ms, Sound cfg { c with hash := dlistAddHead c.hash (bucket cfg v y) p, pageList := dlistAddHead c.pageList v p } ms ∧
      c.freePageCnt = base + (ms.free ()).length := by
  obtain ⟨hash, hfam, hmem, -⟩ := family_withHead h.hash (fun b hp => ((h.hashed b p).mp hp).1 rfl) (bucket cfg v y)
  obtain ⟨owned, ofam, omem, -⟩ := family_withHead h.owned (fun b hp => ((h.listed b p).mp hp).1 rfl) v
  have hself {u : VId} {z : Int} (hz : Caches c p u z) : u = v ∧ z = y :=
    ⟨Option.some.inj (hz.1.symm.trans hc.1), hz.2.symm.trans hc.2⟩
  refine ⟨⟨ls.free, hash, owned⟩, ⟨h.free, hfam, ofam, fun b q => ?_, fun u q => ?_, h.mem_of_busy hb, ?_⟩, h.count⟩
  · rw [hmem, h.hashed]
    constructor
    · rintro (⟨rfl, rfl⟩ | ⟨-, hq⟩)
      · exact ⟨v, y, hc, rfl⟩
      · exact hq
    rintro ⟨u, y, hy, rfl⟩
    by_cases hq : q = p
    · subst hq
      obtain ⟨rfl, rfl⟩ := hself hy
      exact .inl ⟨rfl, rfl⟩
    · exact .inr ⟨hq, u, y, hy, rfl⟩
  · rw [omem, h.listed]
    constructor
    · rintro (⟨rfl, rfl⟩ | ⟨-, hq⟩)
      · exact hc.1
      · exact hq
    intro hu
    by_cases hq : q = p
    · subst hq
      exact .inl ⟨(hself ⟨hu, rfl⟩).1, rfl⟩
    · exact .inr ⟨hq, hu⟩
  · intro q r u y hq hr
    by_cases hqp : q = p
    · subst hqp
      obtain ⟨rfl, rfl⟩ := hself hq
      by_contra hne
      exact hnew r (fun e => hne e.symm) hr
    · by_cases hrp : r = p
      · subst hrp
        obtain ⟨rfl, rfl⟩ := hself hr
        exact absurd hq (hnew q hqp)
      · exact h.unique q r u y hqp hrp hq hr

omit h in
theorem Caches.ne (hq : Caches c q v y) (hn : (c.page p).vnode = none) : q ≠ p := by
  rintro rfl
  exact absurd (hn.symm.trans hq.1) (by simp)

theorem Apart.sound (hn : (c.page p).vnode = none) (hL : Family L free)
    (hmem : ∀ q, q ∈ free () ↔ q ∈ cfg.pool ∧ (c.page q).busy = false) :
    Sound cfg ⟨c.page, L, c.hash, c.pageList, n⟩ ⟨free, ls.hash, ls.owned⟩ := by
  refine ⟨hL, h.hash, h.owned, fun b q => ?_, fun u q => ?_, hmem, fun q r u y hq hr => ?_⟩
  · rw [h.hashed]
    refine ⟨And.right, fun hq => ⟨?_, hq⟩⟩
    obtain ⟨u, y, hy, -⟩ := hq
    exact hy.ne hn
  · rw [h.listed]
    exact ⟨And.right, fun hq => ⟨Caches.ne ⟨hq, rfl⟩ hn, hq⟩⟩
  · exact h.unique q r u y (hq.ne hn) (hr.ne hn) hq hr

end

section Removal

structure Off (cfg : Config) (c : Cache) (hash : ℕ → List PageId) (owned : VId → List PageId) (p : PageId) : Prop where
  hashed : ∀ b q, q ∈ hash b ↔ q ≠ p ∧ ∃ v x, Caches c q v x ∧ b = bucket cfg v x
  listed : ∀ v q, q ∈ owned v ↔ q ≠ p ∧ (c.page q).vnode = some v

theorem Sound.pull (h : Sound cfg c ls) (hc : Caches c p v y) :
    ∃ hash owned, Family (dlistRemEntry c.hash (bucket cfg v y) p) hash ∧
      Family (dlistRemEntry c.pageList v p) owned ∧ Off cfg c hash owned p := by
  obtain ⟨hash, hfam, hmem, -⟩ := family_without h.hash ((h.hashed _ p).mpr ⟨v, y, hc, rfl⟩)
  obtain ⟨owned, ofam, omem, -⟩ := family_without h.owned ((h.listed v p).mpr hc.1)
  refine ⟨hash, owned, hfam, ofam, fun b q => ?_, fun u q => ?_⟩
  · rw [hmem, h.hashed]
  · rw [omem, h.listed]

theorem Sound.off_of_none (h : Sound cfg c ls) (hn : (c.page p).vnode = none) : Off cfg c ls.hash ls.owned p := by
  refine ⟨fun b q => ?_, fun u q => ?_⟩
  · rw [h.hashed]
    refine ⟨fun hq => ⟨?_, hq⟩, And.right⟩
    obtain ⟨u, y, hy, -⟩ := hq
    exact hy.ne hn
  · rw [h.listed]
    exact ⟨fun hq => ⟨Caches.ne ⟨hq, rfl⟩ hn, hq⟩, And.right⟩

theorem Sound.dequeue (h : Sound cfg c ls) (hp : p ∈ ls.free ()) :
    ∃ free, Family (dlistRemEntry c.free () p) free ∧
      (∀ q, q ∈ free () ↔ q ≠ p ∧ q ∈ cfg.pool ∧ (c.page q).busy = false) ∧
        (free ()).length + 1 = (ls.free ()).length := by
  obtain ⟨free, ffam, fmem, flen⟩ := family_without h.free hp
  refine ⟨free, ffam, fun q => ?_, flen⟩
  rw [fmem, h.queued]

@[simp] theorem removeFromLookupPageHash_page (c : Cache) (p : PageId) :
    (removeFromLookupPageHash cfg c p).page = c.page := by
  unfold removeFromLookupPageHash
  split <;> rfl

theorem detach_valid (hc : Caches c p v y) (hv : (c.page p).valid = true) :
    detach cfg c p = Cache.set
      ⟨c.page, dlistRemEntry c.free () p, dlistRemEntry c.hash (bucket cfg v y) p, dlistRemEntry c.pageList v p,
        c.freePageCnt - 1⟩ p { c.page p with busy := true, valid := false } := by
  obtain ⟨h1, rfl⟩ := hc
  simp [detach, take, setBusy, removeFromFreePageQueue, removeFromLookupPageHash, removeFromVnodePageList, Cache.set,
    h1, hv]

theorem detach_invalid (hv : (c.page p).valid = false) :
    detach cfg c p = Cache.set ⟨c.page, dlistRemEntry c.free () p, c.hash, c.pageList, c.freePageCnt - 1⟩ p
      { c.page p with busy := true } := by
  simp [detach, take, setBusy, removeFromFreePageQueue, Cache.set, hv]

section

variable (cfg : Config) (c : Cache) (p : PageId) (v : VId) (y : Int)

@[simp] theorem removeFromVnodePageList_page : (removeFromVnodePageList c p).page = c.page := by
  unfold removeFromVnodePageList
  split <;> rfl

theorem detach_page : (detach cfg c p).page = (c.set p { c.page p with busy := true, valid := false }).page := by
  unfold detach
  cases hv : (c.page p).valid with
  | true => simp [take, setBusy, removeFromFreePageQueue, Cache.set, hv]
  | false =>
    simp only [take, setBusy, removeFromFreePageQueue, set_page_self, hv, Bool.false_eq_true, if_false]

theorem recycle_page : (recycle cfg c p v y).page =
      (c.set p ⟨some v, y, false, true, (c.page p).error, (c.page p).discard⟩).page := by
  simp [recycle, addToVnodePageList, addToLookupPageHash, Cache.set, detach_page]

end

end Removal

section Operations

theorem Sound.requeue (h : Sound cfg c ls)
    (hv : x.vnode = (c.page p).vnode) (ho : x.fileOffset = (c.page p).fileOffset) (hL : Family L free)
    (hmem : ∀ q, q ∈ free () ↔ q ∈ cfg.pool ∧ ((c.set p x).page q).busy = false) :
    Sound cfg (Cache.set ⟨c.page, L, c.hash, c.pageList, n⟩ p x) ⟨free, ls.hash, ls.owned⟩ := by
  have hvnode (q : PageId) : ((c.set p x).page q).vnode = (c.page q).vnode := by
    by_cases hq : q = p
    · subst hq
      rw [set_page_self, hv]
    · rw [set_page_of_ne x hq]
  have hkey (q : PageId) (u : VId) (z : Int) : Caches (c.set p x) q u z ↔ Caches c q u z := by
    by_cases hq : q = p
    · subst hq
      rw [Caches, Caches, set_page_self, hv, ho]
    · rw [caches_of_ne x hq]
  refine ⟨hL, h.hash, h.owned, fun b q => ?_, fun u q => ?_, hmem, fun q r u z hq hr => ?_⟩
  · rw [h.hashed]
    exact exists_congr fun u => exists_congr fun z => and_congr_left fun _ => (hkey q u z).symm
  · rw [h.listed]
    exact Eq.congr_left (hvnode q).symm
  · exact h.unique q r u z ((hkey q u z).mp hq) ((hkey r u z).mp hr)

theorem brelse_error (hc : Caches c p v y) :
    brelse cfg (setError c p) p = Cache.set
      ⟨c.page, dlistAddTail c.free () p, dlistRemEntry c.hash (bucket cfg v y) p, dlistRemEntry c.pageList v p,
        c.freePageCnt + 1⟩ p ⟨none, 0, false, false, false, false⟩ := by
  obtain ⟨h1, rfl⟩ := hc
  simp [brelse, setError, removeFromLookupPageHash, removeFromVnodePageList, addToFreePageQueueTail, Cache.set, h1]

namespace Good

variable (h : Good cfg base c) (hp : p ∈ cfg.pool) (hb : (c.page p).busy = false)
  (hset : (c.page p).vnode ≠ none → (c.page p).valid = true)
include h

theorem available_blk (hp : findAvailableBlk c = some p) : p ∈ cfg.pool ∧ (c.page p).busy = false := by
  obtain ⟨-, ls, hs, -⟩ := h
  refine (hs.queued p).mp (List.mem_of_getLast? ?_)
  rw [← (hs.free.spells ()).tail]
  exact hp

theorem validated (hv : (c.page p).vnode ≠ none) : Good cfg base (setValid c p) := by
  obtain ⟨htidy, ls, hs, hcnt⟩ := h
  have hn := htidy p
  refine ⟨htidy.set ⟨hn.bounded, fun _ => hv, hn.clean⟩, ls, hs.requeue rfl rfl hs.free fun q => ?_, hcnt⟩
  rw [hs.queued]
  by_cases hq : q = p
  · subst hq
    simp
  · simp [set_page_of_ne, hq]

theorem tidy_detach (hpage : d.page = (c.set p { c.page p with busy := true, valid := false }).page)
    (hx : p ∈ cfg.pool) (u : Option VId) (z : Int) :
    Tidy cfg (d.set p { d.page p with vnode := u, fileOffset := z }) := by
  have hn := h.tidy p
  have hd : Tidy cfg d := by
    intro q
    rw [hpage]
    exact h.tidy.set (x := { c.page p with busy := true, valid := false }) ⟨hn.bounded, by simp, hn.clean⟩ q
  refine hd.set ⟨fun _ => hx, ?_, (hd p).clean⟩
  rw [hpage]
  simp

include hp

theorem enqueue (hb : (c.page p).busy = true)
    (hL : ∀ ls : Unit → List PageId, Family c.free ls → (∀ j, p ∉ ls j) → ∃ ms, Family L ms ∧
      (∀ j q, q ∈ ms j ↔ (j = () ∧ q = p) ∨ q ∈ ls j) ∧ (ms ()).length = (ls ()).length + 1) :
    Good cfg base
      (Cache.set ⟨c.page, L, c.hash, c.pageList, c.freePageCnt + 1⟩ p { c.page p with busy := false }) := by
  obtain ⟨htidy, ls, hs, hcnt⟩ := h
  have hout (j : Unit) : p ∉ ls.free j := fun hm => by
    have hf := ((hs.queued p).mp hm).2
    exact absurd (hb.symm.trans hf) (by simp)
  obtain ⟨free, ffam, fmem, flen⟩ := hL ls.free hs.free hout
  have hn := htidy p
  refine ⟨Tidy.set htidy ⟨hn.bounded, hn.valid, hn.clean⟩, ⟨free, ls.hash, ls.owned⟩,
    hs.requeue rfl rfl ffam fun q => ?_, ?_⟩
  · rw [fmem, hs.queued]
    by_cases hq : q = p
    · subst hq
      simp [hp]
    · simp [hq, set_page_of_ne]
  · show c.freePageCnt + 1 = base + (free ()).length
    omega

theorem released (hb : (c.page p).busy = true) : Good cfg base (brelse cfg c p) := by
  have hn := h.tidy p
  have he := h.enqueue hp hb fun _ hf hx => family_withHead hf hx ()
  unfold brelse
  rw [if_neg (by simp [hn.clean])]
  exact he

theorem put_anon (hb : (c.page p).busy = true) : Good cfg base (putblkAnon c p) :=
  h.enqueue hp hb fun _ hf hx => family_withTail hf hx ()

theorem failed (hb : (c.page p).busy = true)
    (hv : (c.page p).vnode ≠ none) : Good cfg base (brelse cfg (setError c p) p) := by
  obtain ⟨htidy, ls, hs, hcnt⟩ := h
  obtain ⟨v, hvn⟩ := Option.ne_none_iff_exists'.mp hv
  obtain ⟨hash, owned, hfam, ofam, hoff⟩ := hs.pull (⟨hvn, rfl⟩ : Caches c p v _)
  have hqueued (q : PageId) : q ∈ ls.free () ↔ q ≠ p ∧ q ∈ cfg.pool ∧ (c.page q).busy = false := by
    rw [hs.queued]
    refine ⟨fun hq => ⟨?_, hq⟩, fun hq => hq.2⟩
    rintro rfl
    exact absurd (hb.symm.trans hq.2) (by simp)
  have hapart : Apart cfg base ⟨c.page, c.free, dlistRemEntry c.hash (bucket cfg v (c.page p).fileOffset) p,
      dlistRemEntry c.pageList v p, c.freePageCnt⟩ ⟨ls.free, hash, owned⟩ p :=
    ⟨hs.free, hfam, ofam, hoff.hashed, hoff.listed, hqueued, fun q r u z _ _ => hs.unique q r u z, hcnt⟩
  obtain ⟨free, ffam, fmem, flen⟩ := family_withTail hs.free (fun j hm => ((hqueued p).mp hm).1 rfl) ()
  have hblank := hapart.set ⟨none, 0, false, false, false, false⟩
  have hmem (q : PageId) : q ∈ free () ↔ q ∈ cfg.pool ∧
      ((c.set p ⟨none, 0, false, false, false, false⟩).page q).busy = false := by
    rw [fmem, hs.queued]
    by_cases hq : q = p
    · subst hq
      simp [hp]
    · simp [hq, set_page_of_ne]
  rw [brelse_error ⟨hvn, rfl⟩]
  refine ⟨Tidy.set htidy ⟨by simp, by simp, ⟨rfl, rfl⟩⟩, _, hblank.sound (by simp) ffam hmem, ?_⟩
  show c.freePageCnt + 1 = base + (free ()).length
  omega

include hb

theorem taken : Good cfg base (take c p) := by
  obtain ⟨htidy, ls, hs, hcnt⟩ := h
  obtain ⟨free, ffam, fmem, flen⟩ := hs.dequeue ((hs.queued p).mpr ⟨hp, hb⟩)
  have hn := htidy p
  have hset := htidy.set (x := { c.page p with busy := true }) ⟨hn.bounded, hn.valid, hn.clean⟩
  have hsound := hs.requeue (x := { c.page p with busy := true }) (n := c.freePageCnt - 1) rfl rfl ffam fun q => by
    rw [fmem]
    by_cases hq : q = p
    · subst hq
      simp
    · simp [hq, set_page_of_ne]
  refine ⟨hset, _, hsound, ?_⟩
  show c.freePageCnt - 1 = base + (free ()).length
  omega

include hset

theorem apart : ∃ ls, Apart cfg base (detach cfg c p) ls p := by
  obtain ⟨htidy, ls, hs, hcnt⟩ := h
  obtain ⟨free, ffam, fmem, flen⟩ := hs.dequeue ((hs.queued p).mpr ⟨hp, hb⟩)
  have hcount : c.freePageCnt - 1 = base + (free ()).length := by omega
  cases hv : (c.page p).valid with
  | true =>
    obtain ⟨v, hvn⟩ := Option.ne_none_iff_exists'.mp ((htidy p).valid hv)
    obtain ⟨hash, owned, hfam, ofam, hoff⟩ := hs.pull (⟨hvn, rfl⟩ : Caches c p v _)
    rw [detach_valid ⟨hvn, rfl⟩ hv]
    refine ⟨⟨free, hash, owned⟩, Apart.set ⟨ffam, hfam, ofam, hoff.hashed, hoff.listed, fmem, ?_, hcount⟩ _⟩
    exact fun q r u z _ _ => hs.unique q r u z
  | false =>
    have hnone : (c.page p).vnode = none := by
      by_contra hne
      exact absurd ((hset hne).symm.trans hv) (by simp)
    have hoff := hs.off_of_none hnone
    have hapart : Apart cfg base ⟨c.page, dlistRemEntry c.free () p, c.hash, c.pageList, c.freePageCnt - 1⟩
        ⟨free, ls.hash, ls.owned⟩ p :=
      ⟨ffam, hs.hash, hs.owned, hoff.hashed, hoff.listed, fmem, fun q r u z _ _ => hs.unique q r u z, hcount⟩
    rw [detach_invalid hv]
    exact ⟨_, hapart.set _⟩

theorem recycled (hnew : ∀ q, ¬Caches c q v y) : Good cfg base (recycle cfg c p v y) := by
  obtain ⟨ls, ha⟩ := h.apart hp hb hset
  have hpage := detach_page cfg c p
  unfold recycle
  generalize detach cfg c p = d at ha hpage
  have hbusy : (d.page p).busy = true := by
    rw [hpage, set_page_self]
  have hother (q : PageId) (hq : q ≠ p) :
      ¬Caches (d.set p { d.page p with vnode := some v, fileOffset := y }) q v y := by
    rw [caches_of_ne _ hq, Caches, hpage, set_page_of_ne _ hq]
    exact hnew q
  have hkey : Caches (d.set p { d.page p with vnode := some v, fileOffset := y }) p v y := by
    rw [Caches, set_page_self]
    exact ⟨rfl, rfl⟩
  have hin := (ha.set { d.page p with vnode := some v, fileOffset := y }).enter hkey
    (by rw [set_page_self]; exact hbusy) hother
  simp only [addToVnodePageList, addToLookupPageHash, set_page_self]
  exact ⟨h.tidy_detach hpage hp (some v) y, hin⟩

theorem recycled_anon : Good cfg base (recycleAnon cfg c p) := by
  obtain ⟨ls, ha⟩ := h.apart hp hb hset
  have hpage := detach_page cfg c p
  have hblank := ha.set { (detach cfg c p).page p with vnode := none, fileOffset := 0 }
  refine ⟨h.tidy_detach hpage hp none 0, ls, hblank.sound (by simp) hblank.free (hblank.mem_of_busy ?_), hblank.count⟩
  simp [hpage]

end Good

end Operations

section Search

theorem Sound.length_hash (h : Sound cfg c ls) (htidy : Tidy cfg c) (b : ℕ) : (ls.hash b).length ≤ cfg.maxPage := by
  have hsub : (ls.hash b).Subperm (List.range cfg.maxPage) := by
    refine (h.hash.spells b).nodup.subperm fun q hq => ?_
    obtain ⟨v, y, hc, -⟩ := (h.hashed b q).mp hq
    refine List.mem_range.mpr (cfg.pool_lt q ((htidy q).bounded ?_))
    simp [hc.1]
  simpa using hsub.length_le

theorem Sound.findBlk_eq (h : Sound cfg c ls) (htidy : Tidy cfg c) (v : VId) (y : Int) :
    findBlk cfg c v y = some ((ls.hash (bucket cfg v y)).find? fun p =>
      (c.page p).vnode = some v ∧ (c.page p).fileOffset = y) :=
  (h.hash.spells _).walk _ (Nat.lt_succ_of_le (h.length_hash htidy _))

theorem Good.find_some (h : Good cfg base c) (hf : findBlk cfg c v y = some (some p)) : Caches c p v y := by
  obtain ⟨htidy, ls, hs, -⟩ := h
  rw [hs.findBlk_eq htidy, Option.some.injEq] at hf
  have hp : (c.page p).vnode = some v ∧ (c.page p).fileOffset = y := by simpa using List.find?_some hf
  exact hp

theorem Good.find_none (h : Good cfg base c) (hf : findBlk cfg c v y = some none) (q : PageId) : ¬Caches c q v y := by
  obtain ⟨htidy, ls, hs, -⟩ := h
  rw [hs.findBlk_eq htidy, Option.some.injEq] at hf
  intro hc
  have hn := List.find?_eq_none.mp hf q ((hs.hashed _ q).mpr ⟨v, y, hc, rfl⟩)
  exact hn (decide_eq_true hc)

end Search

end Writes

end CheviotKernel.FileCache
