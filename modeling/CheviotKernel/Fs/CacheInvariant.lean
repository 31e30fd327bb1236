import CheviotKernel.Fs.CacheLists

namespace CheviotKernel.FileCache

open Linked CheviotKernel.Lists Runs

section Condition

def request (s : State) : Event → Option Request
  | .start _ r => some r
  | .retry t => match s.thread t with
      | .woken r => some r
      | _ => none
  | _ => none

def recycles (cfg : Config) (c : Cache) (r : Request) : Bool :=
  match r.key with
  | none => true
  | some (v, x) => findBlk cfg c v x = some none

def Validated (cfg : Config) (s : State) (e : Event) : Prop :=
  match request s e, findAvailableBlk s.cache with
  | some r, some p => recycles cfg s.cache r = true → (s.cache.page p).vnode ≠ none → (s.cache.page p).valid = true
  | _, _ => True

instance (cfg : Config) (s : State) (e : Event) : Decidable (Validated cfg s e) := by
  unfold Validated
  split <;> infer_instance

theorem Validated.page {cfg : Config} {s : State} {e : Event} {r : Request} {p : PageId} (h : Validated cfg s e)
    (hr : request s e = some r) (hc : recycles cfg s.cache r = true) (hp : findAvailableBlk s.cache = some p)
    (hv : (s.cache.page p).vnode ≠ none) : (s.cache.page p).valid = true := by
  unfold Validated at h
  rw [hr, hp] at h
  exact h hc hv

end Condition

section

variable {cfg : Config} {base cnt : Int} {s s' : State} {c : Cache} {p q : PageId} {t u : Tid} {r : Request}
  {x : Thread} {e : Event}

def Thread.page : Thread → Option PageId
  | .reading p => some p
  | .writing p => some p
  | _ => none

structure Inv (cfg : Config) (base : Int) (s : State) : Prop where
  good : Good cfg base s.cache
  held : ∀ p, s.held p = true → p ∈ cfg.pool ∧ (s.cache.page p).busy = true
  used : ∀ t p, (s.thread t).page = some p →
    p ∈ cfg.pool ∧ (s.cache.page p).busy = true ∧ (s.cache.page p).vnode ≠ none ∧ s.held p = false
  alone : ∀ t u p, (s.thread t).page = some p → (s.thread u).page = some p → t = u

@[simp] theorem setThread_self (s : State) (t : Tid) (x : Thread) : (s.setThread t x).thread t = x := by
  simp [State.setThread]

theorem setThread_of_ne (s : State) (x : Thread) (h : u ≠ t) : (s.setThread t x).thread u = s.thread u := by
  simp [State.setThread, h]

theorem page_setThread (hx : x.page = none) (hq : ((s.setThread t x).thread u).page = some q) :
    u ≠ t ∧ (s.thread u).page = some q := by
  by_cases hu : u = t
  · subst hu
    rw [setThread_self, hx] at hq
    exact absurd hq (by simp)
  · rw [setThread_of_ne s x hu] at hq
    exact ⟨hu, hq⟩

@[simp] theorem wake_page (rs : List Rendez) (x : Thread) : (wake rs x).page = x.page := by
  cases x with
  | asleep r on =>
    simp only [wake]
    split_ifs <;> rfl
  | _ => rfl

theorem take_page_of_ne (c : Cache) (h : q ≠ p) : (take c p).page q = c.page q :=
  set_page_of_ne _ h

theorem brelse_page_of_ne (c : Cache) (h : q ≠ p) : (brelse cfg c p).page q = c.page q := by
  unfold brelse
  split_ifs
  · simp [addToFreePageQueueTail, set_page_of_ne, h]
  · simp [addToFreePageQueue, setBusy, set_page_of_ne, h]

namespace Inv

variable (h : Inv cfg base s) (ht : (s.thread t).page = some p) (hp : s.held p = true)
include h

theorem rethread {f : Tid → Thread}
    (hf : ∀ u q, (f u).page = some q → (s.thread u).page = some q) : Inv cfg base { s with thread := f } where
  good := h.good
  held := h.held
  used u q hq := h.used u q (hf u q hq)
  alone u w q hu hw := h.alone u w q (hf u q hu) (hf w q hw)

theorem update (p : PageId) (t : Tid) (hgood : Good cfg base s'.cache)
    (hpage : ∀ q, q ≠ p → s'.cache.page q = s.cache.page q) (hheld : ∀ q, q ≠ p → s'.held q = s.held q)
    (hhere : s'.held p = true → p ∈ cfg.pool ∧ (s'.cache.page p).busy = true)
    (hthread : ∀ u q, (s'.thread u).page = some q → (q ≠ p ∧ (s.thread u).page = some q) ∨ (u = t ∧ q = p))
    (hused : (s'.thread t).page = some p →
      p ∈ cfg.pool ∧ (s'.cache.page p).busy = true ∧ (s'.cache.page p).vnode ≠ none ∧ s'.held p = false) :
    Inv cfg base s' := by
  refine ⟨hgood, fun q hq => ?_, fun u q hu => ?_, fun u w q hu hw => ?_⟩
  · by_cases hqp : q = p
    · subst hqp
      exact hhere hq
    · rw [hpage q hqp]
      exact h.held q (hheld q hqp ▸ hq)
  · rcases hthread u q hu with ⟨hqp, hold⟩ | ⟨rfl, rfl⟩
    · rw [hpage q hqp, hheld q hqp]
      exact h.used u q hold
    · exact hused hu
  · rcases hthread u q hu with ⟨hqp, hold⟩ | ⟨rfl, rfl⟩
    · rcases hthread w q hw with ⟨-, hold'⟩ | ⟨-, rfl⟩
      · exact h.alone u w q hold hold'
      · exact absurd rfl hqp
    · rcases hthread w q hw with ⟨hqp, -⟩ | ⟨rfl, -⟩
      · exact absurd rfl hqp
      · rfl

theorem unused (hb : (s.cache.page p).busy = false) (hq : (s.thread u).page = some q) : q ≠ p := by
  rintro rfl
  exact absurd ((h.used u q hq).2.1.symm.trans hb) (by simp)

theorem hand (hgood : Good cfg base c) (hp : p ∈ cfg.pool) (hb : (c.page p).busy = true)
    (hpage : ∀ q, q ≠ p → c.page q = s.cache.page q)
    (hothers : ∀ u q, u ≠ t → (s.thread u).page = some q → q ≠ p) :
    Inv cfg base (({ s with cache := c }.setThread t .idle).hold p true) := by
  refine h.update p t hgood hpage (fun q hq => ?_) (fun _ => ⟨hp, hb⟩) (fun u q hq => .inl ?_) fun hq => ?_
  · simp [State.hold, State.setThread, hq]
  · obtain ⟨hu, hold⟩ := page_setThread rfl hq
    exact ⟨hothers u q hu hold, hold⟩
  · exact absurd rfl (page_setThread rfl hq).1

theorem finish (hgood : Good cfg base c) (hp : p ∈ cfg.pool)
    (hfree : (s.cache.page p).busy = false) (hb : (c.page p).busy = true)
    (hpage : ∀ q, q ≠ p → c.page q = s.cache.page q) (hkey : r.key ≠ none → (c.page p).vnode ≠ none) :
    Inv cfg base (finish { s with cache := c } t r p) := by
  have hothers (u : Tid) (q : PageId) (_ : u ≠ t) (hq : (s.thread u).page = some q) : q ≠ p := h.unused hfree hq
  cases r with
  | getblk v y | getblkAnon => exact h.hand hgood hp hb hpage hothers
  | breadZero v y =>
    refine h.hand (hgood.validated (hkey (by simp [Request.key]))) hp ?_ (fun q hq => ?_) hothers
    · rw [setValid, set_page_self]
      exact hb
    · rw [setValid, set_page_of_ne _ hq]
      exact hpage q hq
  | bread v y =>
    unfold FileCache.finish
    split_ifs with hv
    · exact h.hand hgood hp hb hpage hothers
    have hout : s.held p = false := by
      by_contra hne
      exact absurd ((h.held p (by simpa using hne)).2.symm.trans hfree) (by simp)
    refine h.update p t hgood hpage (fun _ _ => rfl) (fun hh => absurd (hh.symm.trans hout) (by simp))
      (fun u q hq => ?_) fun _ => ⟨hp, hb, hkey (by simp [Request.key]), hout⟩
    by_cases hu : u = t
    · subst hu
      rw [setThread_self] at hq
      exact .inr ⟨rfl, (Option.some.inj hq).symm⟩
    · rw [setThread_of_ne _ _ hu] at hq
      exact .inl ⟨hothers u q hu hq, hq⟩

theorem sleep (hx : x.page = none) : Inv cfg base (s.setThread t x) :=
  h.rethread fun _ _ hq => (page_setThread hx hq).2

theorem available {reuse : PageId → Cache}
    (hreuse : ∀ p, findAvailableBlk s.cache = some p → Good cfg base (reuse p) ∧ ((reuse p).page p).busy = true ∧
      (∀ q, q ≠ p → (reuse p).page q = s.cache.page q) ∧ (r.key ≠ none → ((reuse p).page p).vnode ≠ none)) :
    Inv cfg base (available s t r reuse) := by
  unfold FileCache.available
  split
  · exact h.sleep rfl
  rename_i p hp
  obtain ⟨hin, hfree⟩ := h.good.available_blk hp
  obtain ⟨hgood, hb, hpage, hkey⟩ := hreuse p hp
  exact h.finish hgood hin hfree hb hpage hkey

protected theorem attempt (hr : request s e = some r) (hval : Validated cfg s e)
    (hs : attempt cfg s t r = some s') : Inv cfg base s' := by
  unfold attempt at hs
  cases hk : r.key with
  | none =>
    rw [hk] at hs
    cases hs
    refine h.available fun p hp => ?_
    obtain ⟨hin, hfree⟩ := h.good.available_blk hp
    have hset := hval.page hr (by simp [recycles, hk]) hp
    refine ⟨h.good.recycled_anon hin hfree hset, ?_, fun q hq => ?_, fun hne => absurd hk hne⟩
    · rw [recycleAnon, set_page_self, detach_page, set_page_self]
    · rw [recycleAnon, set_page_of_ne _ hq, detach_page, set_page_of_ne _ hq]
  | some key =>
    obtain ⟨v, y⟩ := key
    rw [hk] at hs
    simp only [Option.map_eq_some_iff] at hs
    obtain ⟨found, hf, rfl⟩ := hs
    cases found with
    | none =>
      refine h.available fun p hp => ?_
      obtain ⟨hin, hfree⟩ := h.good.available_blk hp
      have hset := hval.page hr (by simp [recycles, hk, hf]) hp
      have hpage := recycle_page cfg s.cache p v y
      refine ⟨h.good.recycled hin hfree hset (h.good.find_none hf), ?_, fun q hq => ?_, fun _ => ?_⟩
      · rw [hpage, set_page_self]
      · rw [hpage, set_page_of_ne _ hq]
      · rw [hpage]
        simp
    | some p =>
      have hc := h.good.find_some hf
      have hin : p ∈ cfg.pool := (h.good.tidy p).bounded (by simp [hc.1])
      simp only
      split_ifs with hb
      · exact h.sleep rfl
      have hfree : (s.cache.page p).busy = false := by simpa using hb
      refine h.finish (h.good.taken hin hfree) hin hfree ?_ (fun q hq => take_page_of_ne s.cache hq) fun _ => ?_
      · simp [take, setBusy, removeFromFreePageQueue]
      · simp [take, setBusy, removeFromFreePageQueue, hc.1]

theorem letGo (hgood : Good cfg base s'.cache)
    (hpage : ∀ q, q ≠ p → s'.cache.page q = s.cache.page q) (hheld : ∀ q, q ≠ p → s'.held q = s.held q)
    (hhere : s'.held p = false)
    (hthread : ∀ u q, (s'.thread u).page = some q → q ≠ p ∧ (s.thread u).page = some q) : Inv cfg base s' := by
  refine h.update p 0 hgood hpage hheld (fun hh => absurd (hh.symm.trans hhere) (by simp))
    (fun u q hq => .inl (hthread u q hq)) fun hq => ?_
  exact absurd rfl (hthread 0 p hq).1

theorem attempt_ends (t : Tid) (r : Request) : ∃ s', attempt cfg s t r = some s' := by
  unfold attempt
  cases r.key with
  | none => exact ⟨_, rfl⟩
  | some key =>
    obtain ⟨htidy, ls, hs, -⟩ := h.good
    simp only [hs.findBlk_eq htidy]
    exact ⟨_, rfl⟩

include hp

theorem unheld (hq : (s.thread u).page = some q) : q ≠ p := by
  rintro rfl
  exact absurd (hp.symm.trans (h.used u q hq).2.2.2) (by simp)

theorem letHeld (hgood : Good cfg base c) (hpage : ∀ q, q ≠ p → c.page q = s.cache.page q) (rs : List Rendez) :
    Inv cfg base (taskWakeupAll { s.hold p false with cache := c } rs) := by
  refine h.letGo hgood hpage (fun q hq => ?_) ?_ fun u q hq => ?_
  · simp [taskWakeupAll, State.hold, hq]
  · simp [taskWakeupAll, State.hold]
  · simp only [taskWakeupAll, wake_page] at hq
    exact ⟨h.unheld hp hq, hq⟩

theorem bwrite (hv : (s.cache.page p).vnode ≠ none) : Inv cfg base ((s.setThread t (.writing p)).hold p false) := by
  obtain ⟨hin, hb⟩ := h.held p hp
  refine h.update p t h.good (fun _ _ => rfl) (fun q hq => ?_) (fun hh => ?_) (fun u q hq => ?_) fun _ => ?_
  · simp [State.hold, State.setThread, hq]
  · simp [State.hold] at hh
  · by_cases hu : u = t
    · subst hu
      simp only [State.hold, setThread_self, Thread.page, Option.some.injEq] at hq
      exact .inr ⟨rfl, hq.symm⟩
    · simp only [State.hold, setThread_of_ne s _ hu] at hq
      exact .inl ⟨h.unheld hp hq, hq⟩
  · exact ⟨hin, hb, hv, by simp [State.hold]⟩

omit hp

include ht

theorem ends {rs : List Rendez}
    (hq : (wake rs ((s.setThread t .idle).thread u)).page = some q) : q ≠ p ∧ (s.thread u).page = some q := by
  rw [wake_page] at hq
  obtain ⟨hu, hold⟩ := page_setThread rfl hq
  refine ⟨?_, hold⟩
  rintro rfl
  exact hu (h.alone u t q hold ht)

theorem fail : Inv cfg base (fail cfg (s.setThread t .idle) p) := by
  obtain ⟨hp, hb, hv, hh⟩ := h.used t p ht
  refine h.letGo (h.good.failed hp hb hv) (fun q hq => ?_) (fun _ _ => rfl) hh fun u q hq => h.ends ht hq
  show (brelse cfg (setError s.cache p) p).page q = s.cache.page q
  rw [brelse_page_of_ne _ hq, setError, set_page_of_ne _ hq]

theorem written : Inv cfg base (release cfg (s.setThread t .idle) p) := by
  obtain ⟨hp, hb, -, hh⟩ := h.used t p ht
  exact h.letGo (h.good.released hp hb) (fun q hq => brelse_page_of_ne _ hq) (fun _ _ => rfl) hh
    fun u q hq => h.ends ht hq

theorem readDone : Inv cfg base (({ s with cache := setValid s.cache p }.setThread t .idle).hold p true) := by
  obtain ⟨hp, hb, hv, -⟩ := h.used t p ht
  refine h.hand (h.good.validated hv) hp ?_ (fun q hq => set_page_of_ne _ hq) fun u q hu hq => ?_
  · rw [setValid, set_page_self]
    exact hb
  · rintro rfl
    exact hu (h.alone u t q hq ht)

omit ht

protected theorem step (hval : Validated cfg s e) (hs : step cfg s e = some s') : Inv cfg base s' := by
  cases e with
  | start t r =>
    simp only [step] at hs
    split at hs
    · exact h.attempt rfl hval hs
    · cases hs
  | retry t =>
    simp only [step] at hs
    split at hs
    · rename_i r hw
      exact h.attempt (by simp [request, hw]) hval hs
    · cases hs
  | readReply t xfered =>
    simp only [step] at hs
    split at hs
    · rename_i p ht
      have hpage : (s.thread t).page = some p := by rw [ht]; rfl
      split_ifs at hs
      · cases hs
        exact h.fail hpage
      · cases hs
        exact h.readDone hpage
    · cases hs
  | bwrite t p =>
    simp only [step] at hs
    split at hs
    · rename_i v ht hv
      obtain ⟨hp, rfl⟩ := guarded hs
      exact h.bwrite hp (by simp [hv])
    · cases hs
  | writeReply t whole =>
    simp only [step] at hs
    split at hs
    · rename_i p ht
      have hpage : (s.thread t).page = some p := by rw [ht]; rfl
      cases hs
      split_ifs
      · exact h.written hpage
      · exact h.fail hpage
    · cases hs
  | brelse p =>
    obtain ⟨hp, rfl⟩ := guarded hs
    obtain ⟨hin, hb⟩ := h.held p hp
    exact h.letHeld hp (h.good.released hin hb) (fun q hq => brelse_page_of_ne _ hq) _
  | putblkAnon p =>
    obtain ⟨hp, rfl⟩ := guarded hs
    obtain ⟨hin, hb⟩ := h.held p hp
    exact h.letHeld hp (h.good.put_anon hin hb) (fun q hq => set_page_of_ne _ hq) _

end Inv

def blankPage : Page := ⟨none, 0, false, false, false, false⟩

structure Fresh (cfg : Config) (cnt : Int) (s : State) : Prop where
  free : Family s.cache.free fun _ => cfg.pool
  hash : Family s.cache.hash fun _ => []
  pageList : Family s.cache.pageList fun _ => []
  page : ∀ p, s.cache.page p = blankPage
  thread : ∀ t, s.thread t = .idle
  held : ∀ p, s.held p = false
  freePageCnt : s.cache.freePageCnt = cnt

def Consistent (cfg : Config) (cnt : Int) (s : State) : Prop :=
  ∃ ls, Sound cfg s.cache ls ∧ s.cache.freePageCnt = cnt + (ls.free ()).length - cfg.pool.length

theorem Fresh.inv (h : Fresh cfg cnt s) : Inv cfg (cnt - cfg.pool.length) s := by
  have hsound : Sound cfg s.cache ⟨fun _ => cfg.pool, fun _ => [], fun _ => []⟩ := by
    refine ⟨h.free, h.hash, h.pageList, ?_, ?_, ?_, ?_⟩ <;> simp [Caches, h.page, blankPage]
  refine ⟨⟨fun p => ?_, _, hsound, ?_⟩, fun p hp => ?_, fun t p hp => ?_, fun t u p hp => ?_⟩
  · rw [h.page]
    exact ⟨by simp [blankPage], by simp [blankPage], ⟨rfl, rfl⟩⟩
  · rw [h.freePageCnt]
    simp
  · exact absurd hp (by simp [h.held])
  · exact absurd hp (by simp [h.thread, Thread.page])
  · exact absurd hp (by simp [h.thread, Thread.page])

theorem Inv.consistent (h : Inv cfg (cnt - cfg.pool.length) s) : Consistent cfg cnt s := by
  obtain ⟨-, ls, hs, hcnt⟩ := h.good
  exact ⟨ls, hs, by omega⟩

theorem cache_consistent_of_validated (cfg : Config) (cnt : Int) (s : State)
    (h : Reach (step cfg) (Validated cfg) (Fresh cfg cnt) s) : Consistent cfg cnt s := by
  have hinv : Inv cfg (cnt - cfg.pool.length) s :=
    Reach.invariant (fun _ hf => hf.inv) (fun _ _ _ hi hc hs => hi.step hc hs) h
  exact hinv.consistent

def onePage : Config := ⟨1, [0], by decide, fun v => v⟩

def unlinked (ι : Type) : Links ι PageId := ⟨fun _ => none, fun _ => none, fun _ => none, fun _ => none⟩

def onePageState : State :=
  ⟨⟨fun _ => blankPage, dlistAddTail (unlinked Unit) () 0, unlinked ℕ, unlinked VId, 0⟩, fun _ => .idle, fun _ => false⟩

theorem onePageState_fresh : Fresh onePage 0 onePageState where
  free := by
    exact family_addTail Family.empty (by simp)
  hash := Family.empty
  pageList := Family.empty
  page _ := rfl
  thread _ := rfl
  held _ := rfl
  freePageCnt := rfl

def reuseRun : List Event :=
  [.start 0 (.bread 7 0), .start 1 (.bread 7 0), .readReply 0 4096, .brelse 0, .retry 1, .brelse 0, .start 0 .getblkAnon]

theorem cache_consistent_after_reuse : ∃ s, Reach (step onePage) (Validated onePage) (Fresh onePage 0) s ∧
    (s.cache.page 0).vnode = none ∧ s.held 0 = true ∧ Consistent onePage 0 s :=
  Reach.exists_of_run (Q := fun s => (s.cache.page 0).vnode = none ∧ s.held 0 = true) reuseRun onePageState_fresh
    (by decide +kernel) (by decide +kernel) fun s hr hq => ⟨hq.1, hq.2, cache_consistent_of_validated onePage 0 s hr⟩

structure OneUser (cfg : Config) (s : State) : Prop where
  ends : ∀ t r, ∃ s', attempt cfg s t r = some s'
  busy : ∀ t p, (s.thread t).page = some p → (s.cache.page p).busy = true ∧ s.held p = false
  alone : ∀ t u p, (s.thread t).page = some p → (s.thread u).page = some p → t = u

theorem cache_pages_one_user (h : Reach (step cfg) (Validated cfg) (Fresh cfg cnt) s) : OneUser cfg s := by
  have hinv := h.invariant (P := Inv cfg (cnt - cfg.pool.length)) (fun _ hf => hf.inv) fun _ _ _ hi hc hs => hi.step hc hs
  exact ⟨hinv.attempt_ends, fun t p hp => (hinv.used t p hp).2.imp_right And.right, hinv.alone⟩

theorem one_user_while_reading : ∃ s, Reach (step onePage) (Validated onePage) (Fresh onePage 0) s ∧
    (s.thread 0).page = some 0 ∧ (s.thread 1 matches .asleep _ (.page 0)) = true ∧ OneUser onePage s :=
  Reach.exists_of_run (Q := fun s => (s.thread 0).page = some 0 ∧ (s.thread 1 matches .asleep _ (.page 0)) = true)
    (reuseRun.take 2) onePageState_fresh (by decide +kernel) (by decide +kernel)
    fun _ hr hq => ⟨hq.1, hq.2, cache_pages_one_user hr⟩

def staleRun : List Event := [.start 0 (.getblk 7 0), .brelse 0, .start 0 .getblkAnon]

theorem recycled_page_stays_hashed : ∃ s, Reach (step onePage) always (Fresh onePage 0) s ∧
    (s.cache.page 0).vnode = none ∧ s.cache.hash.head (bucket onePage 7 0) = some 0 ∧ ¬Consistent onePage 0 s := by
  refine Reach.exists_of_run (Q := fun s => (s.cache.page 0).vnode = none ∧
    s.cache.hash.head (bucket onePage 7 0) = some 0) staleRun onePageState_fresh (meets_always _ _) (by decide +kernel)
    fun s _ hq => ⟨hq.1, hq.2, ?_⟩
  rintro ⟨ls, hs, -⟩
  have hmem : 0 ∈ ls.hash (bucket onePage 7 0) := by
    refine List.mem_of_head? ?_
    rw [← (hs.hash.spells _).head]
    exact hq.2
  obtain ⟨v, y, hc, -⟩ := (hs.hashed _ 0).mp hmem
  exact absurd (hq.1.symm.trans hc.1) (by simp)

end

end CheviotKernel.FileCache
