import CheviotKernel.Fs.CacheInvariant
import CheviotKernel.Fs.Replies

namespace CheviotKernel.PageRelease

open Asking Replies FileCache
open Vfs (alignDown offT bytesToRead efault)

section Calls

inductive FileCall
  | read (v : FileCache.VId) (sz : ℕ) (size offset : Int) (inkernel : Bool)
  | write (v : FileCache.VId) (sz : ℕ)

-- What a round meets: the offset and the size of the file, the server's replies, and whether the copy succeeds.
structure Answer where
  offset : Int
  size : Int
  xfered : Int
  copied : Bool
  whole : Bool

namespace FileCall

def nbytes : FileCall → ℕ
  | .read _ sz size offset _ => if offset ≥ size then 0 else bytesToRead size offset sz
  | .write _ sz => sz

def request (a : Answer) : FileCall → Request
  | .read v .. => .bread v (alignDown a.offset Vfs.pageSize)
  | .write v _ =>
    let clusterBase := offT (alignDown a.offset Vfs.pageSize)
    if clusterBase < a.size then .bread v clusterBase else .breadZero v clusterBase

def clusterOffset (offset : Int) : FileCall → Int
  | .read .. => offset.tmod Vfs.pageSize
  | .write .. => offT (offset.tmod Vfs.pageSize)

def faults (a : Answer) : FileCall → Bool
  | .read _ _ _ _ inkernel => !inkernel && !a.copied
  | .write .. => !a.copied

-- A round's answer to the loop: the offset it began at, and whether it got a page and could not copy.
def loop (c : FileCall) : Loop Xfer (Int × Bool × Bool) Span Outcome :=
  fileLoop c.nbytes (fun r => some r.2.1) (fun r => c.clusterOffset r.1) fun r => r.2.2

end FileCall

variable (cfg : Config)

-- The page that getblk takes, if it takes one.
def picked (c : Cache) (r : Request) : Option PageId :=
  match r.key with
  | none => findAvailableBlk c
  | some (v, x) => match findBlk cfg c v x with
      | some (some p) => some p
      | _ => findAvailableBlk c

-- bread and bread_zero, with the page taken and whether they return it. none while the thread is asleep, for want of a page
-- or on one that is busy, and for the kassert.
def fetch (s : State) (t : Tid) (r : Request) (xfered : Int) : Option (State × PageId × Bool) :=
  match attempt cfg s t r, picked cfg s.cache r with
  | some s', some p => match s'.thread t with
      | .idle => some (s', p, true)
      | .reading _ => (step cfg s' (.readReply t xfered)).map (·, p, decide (0 < xfered))
      | _ => none
  | _, _ => none

def giveBack (s : State) (t : Tid) (a : Answer) (p : PageId) : FileCall → Option State
  | .read .. => step cfg s (.brelse p)
  | .write .. => (step cfg s (.bwrite t p)).bind fun s => step cfg s (.writeReply t a.whole)

def round (c : FileCall) (t : Tid) (x : Xfer) (a : Answer) (s : State) : Option (State × PageId × (Xfer ⊕ Outcome)) :=
  match fetch cfg s t (c.request a) a.xfered with
  | none => none
  | some (s, p, false) => some (s, p, c.loop.next x (a.offset, false, false))
  | some (s, p, true) =>
    if c.faults a = true then some (s, p, c.loop.next x (a.offset, true, true))
    else (giveBack cfg s t a p c).map (·, p, c.loop.next x (a.offset, true, false))

-- A call that returns, with the pages it has taken.
def run (c : FileCall) (t : Tid) : List Answer → Xfer → State → Option (State × Outcome × List PageId)
  | [], x, s => (c.loop.test x).map (s, ·, [])
  | a :: answers, x, s => match c.loop.test x with
      | some o => some (s, o, [])
      | none => match round cfg c t x a s with
          | none => none
          | some (s, p, .inl x) => (run c t answers x s).map fun r => (r.1, r.2.1, p :: r.2.2)
          | some (s, p, .inr o) => some (s, o, [p])

structure Released (s : State) (pages : List PageId) : Prop where
  busy : ∀ p ∈ pages, (s.cache.page p).busy = false
  waits : ∀ t r s' p, attempt cfg s t r = some s' → s'.thread t = .asleep r (.page p) → p ∉ pages

-- In no round that the call reaches does the copy fail on a page.
def Copied (c : FileCall) (t : Tid) : List Answer → Xfer → State → Prop
  | [], _, _ => True
  | a :: answers, x, s => c.loop.test x = none →
      (∀ s' p, fetch cfg s t (c.request a) a.xfered = some (s', p, true) → c.faults a = false) ∧
        ∀ s' p x', round cfg c t x a s = some (s', p, .inl x') → Copied c t answers x' s'

end Calls

section Release

variable {cfg : Config} {s s' : State} {k : Cache} {c : FileCall} {t : Tid} {r : Request} {p q : PageId} {a : Answer}
  {x : Xfer} {xfered : Int} {ok : Bool} {v : FileCache.VId} {y : Int}

theorem request_fills (c : FileCall) (a : Answer) : ∃ v y, c.request a = .bread v y ∨ c.request a = .breadZero v y := by
  cases c with
  | read v => exact ⟨v, _, .inl rfl⟩
  | write v =>
    refine ⟨v, offT (alignDown a.offset Vfs.pageSize), ?_⟩
    unfold FileCall.request
    dsimp only
    split_ifs
    · exact .inl rfl
    · exact .inr rfl

structure Takes (p : PageId) (k k' : Cache) : Prop where
  busy : (k'.page p).busy = true
  others : ∀ q, q ≠ p → k'.page q = k.page q

theorem Takes.recycle (cfg : Config) (k : Cache) (p : PageId) (v : FileCache.VId) (y : Int) :
    Takes p k (recycle cfg k p v y) := by
  have hpage := recycle_page cfg k p v y
  exact ⟨by rw [hpage, set_page_self], fun q hq => by rw [hpage, set_page_of_ne _ hq]⟩

theorem Takes.take (k : Cache) (p : PageId) : Takes p k (take k p) :=
  ⟨by simp [FileCache.take, setBusy, removeFromFreePageQueue], fun _ hq => take_page_of_ne k hq⟩

theorem attempt_picked (hr : r.key = some (v, y)) (hs : attempt cfg s t r = some s') :
    (∃ on, s'.thread t = .asleep r on) ∨
      ∃ p k, picked cfg s.cache r = some p ∧ Takes p s.cache k ∧ s' = finish { s with cache := k } t r p := by
  simp only [attempt, hr, Option.map_eq_some_iff] at hs
  obtain ⟨found, hf, rfl⟩ := hs
  cases found with
  | none =>
    simp only [available]
    split
    · exact .inl ⟨_, setThread_self _ _ _⟩
    · rename_i p hp
      exact .inr ⟨p, _, by simp [picked, hr, hf, hp], .recycle cfg s.cache p v y, rfl⟩
  | some p =>
    dsimp only
    split_ifs
    · exact .inl ⟨_, setThread_self _ _ _⟩
    · exact .inr ⟨p, _, by simp [picked, hr, hf], .take s.cache p, rfl⟩

theorem Takes.finish (hr : r = .bread v y ∨ r = .breadZero v y) (h : Takes p s.cache k) :
    Takes p s.cache (finish { s with cache := k } t r p).cache ∧
      ((finish { s with cache := k } t r p).thread t = .idle ∨
        (finish { s with cache := k } t r p).thread t = .reading p) := by
  rcases hr with rfl | rfl
  · unfold FileCache.finish
    split_ifs
    · exact ⟨h, .inl (setThread_self _ _ _)⟩
    · exact ⟨h, .inr (setThread_self _ _ _)⟩
  · refine ⟨⟨?_, fun q hq => ?_⟩, .inl (setThread_self _ _ _)⟩
    · simpa [FileCache.finish, State.hold, State.setThread, setValid] using h.busy
    · exact (set_page_of_ne _ hq).trans (h.others q hq)

-- What a release leaves of the pages.
structure Frees (p : PageId) (k k' : Cache) : Prop where
  busy : (k'.page p).busy = false
  others : ∀ q, q ≠ p → k'.page q = k.page q

theorem Frees.keeps {k' : Cache} (h : Frees p k k') (hq : (k.page q).busy = false) : (k'.page q).busy = false := by
  by_cases hqp : q = p
  · exact hqp ▸ h.busy
  · rw [h.others q hqp, hq]

theorem Frees.release (cfg : Config) (s : State) (p : PageId) : Frees p s.cache (release cfg s p).cache := by
  refine ⟨?_, fun q hq => brelse_page_of_ne _ hq⟩
  simp only [FileCache.release, taskWakeupAll, brelse]
  split_ifs
  · simp [addToFreePageQueueTail]
  · simp [addToFreePageQueue, setBusy]

theorem Frees.fail (cfg : Config) (s : State) (p : PageId) : Frees p s.cache (fail cfg s p).cache := by
  have h := Frees.release cfg { s with cache := setError s.cache p } p
  exact ⟨h.busy, fun q hq => (h.others q hq).trans (set_page_of_ne _ hq)⟩

theorem fetch_spec (hr : r = .bread v y ∨ r = .breadZero v y) (h : fetch cfg s t r xfered = some (s', p, ok)) :
    (s'.cache.page p).busy = ok ∧ ∀ q, q ≠ p → s'.cache.page q = s.cache.page q := by
  have hk : r.key = some (v, y) := by rcases hr with rfl | rfl <;> rfl
  unfold fetch at h
  split at h
  · rename_i s₁ p₁ hs hp
    rcases attempt_picked hk hs with ⟨on, ht⟩ | ⟨p₂, k, hp₂, hk, rfl⟩
    · rw [ht] at h
      cases h
    cases hp.symm.trans hp₂
    obtain ⟨htakes, ht | ht⟩ := hk.finish (t := t) hr
    · rw [ht] at h
      cases h
      exact ⟨htakes.busy, htakes.others⟩
    · simp only [ht, step] at h
      split_ifs at h with hbig hfail
      · cases h
      · simp only [Option.map_some, Option.some.injEq, Prod.mk.injEq] at h
        obtain ⟨rfl, rfl, rfl⟩ := h
        have hfrees := Frees.fail cfg ((FileCache.finish { s with cache := k } t r p₁).setThread t .idle) p₁
        exact ⟨by simpa [not_lt.mpr hfail] using hfrees.busy, fun q hq => (hfrees.others q hq).trans (htakes.others q hq)⟩
      · simp only [Option.map_some, Option.some.injEq, Prod.mk.injEq] at h
        obtain ⟨rfl, rfl, rfl⟩ := h
        refine ⟨?_, fun q hq => (set_page_of_ne _ hq).trans (htakes.others q hq)⟩
        simpa [State.hold, State.setThread, setValid, not_le.mp hfail] using htakes.busy
  · cases h

theorem giveBack_frees (h : giveBack cfg s t a p c = some s') : Frees p s.cache s'.cache := by
  cases c with
  | read =>
    obtain ⟨-, rfl⟩ := Runs.guarded h
    exact Frees.release cfg (s.hold p false) p
  | write =>
    simp only [giveBack, step, Option.bind_eq_some_iff] at h
    obtain ⟨s₁, h₁, h₂⟩ := h
    split at h₁
    · obtain ⟨-, rfl⟩ := Runs.guarded h₁
      simp only [State.hold, setThread_self, Option.some.injEq] at h₂
      subst h₂
      split_ifs
      · exact Frees.release cfg _ p
      · exact Frees.fail cfg _ p
    · cases h₁

theorem round_frees {next : Xfer ⊕ Outcome} (h : round cfg c t x a s = some (s', p, next))
    (hc : ∀ s' p, fetch cfg s t (c.request a) a.xfered = some (s', p, true) → c.faults a = false) :
    Frees p s.cache s'.cache := by
  obtain ⟨v, y, hr⟩ := request_fills c a
  unfold round at h
  split at h
  · cases h
  · rename_i hf
    cases h
    exact ⟨(fetch_spec hr hf).1, (fetch_spec hr hf).2⟩
  · rename_i s₁ p₁ hf
    rw [if_neg (by simp [hc _ _ hf]), Option.map_eq_some_iff] at h
    obtain ⟨s₂, hg, h⟩ := h
    cases h
    have hfrees := giveBack_frees hg
    exact ⟨hfrees.busy, fun q hq => (hfrees.others q hq).trans ((fetch_spec hr hf).2 q hq)⟩

theorem run_frees {answers : List Answer} {o : Outcome} {pages : List PageId}
    (h : run cfg c t answers x s = some (s', o, pages)) (hc : Copied cfg c t answers x s) (p : PageId)
    (hp : p ∈ pages ∨ (s.cache.page p).busy = false) : (s'.cache.page p).busy = false := by
  induction answers generalizing x s pages with
  | nil =>
    simp only [run, Option.map_eq_some_iff] at h
    obtain ⟨o', -, h⟩ := h
    cases h
    simpa using hp
  | cons a answers ih =>
    simp only [run] at h
    split at h
    · cases h
      simpa using hp
    rename_i ht
    obtain ⟨hcopied, hrest⟩ := hc ht
    split at h
    · cases h
    · rename_i s₁ p₁ x₁ hround
      have hfrees := round_frees hround hcopied
      simp only [Option.map_eq_some_iff] at h
      obtain ⟨r, hrun, h⟩ := h
      cases h
      refine ih hrun (hrest s₁ p₁ x₁ hround) (or_iff_not_imp_right.mpr fun hbusy => ?_)
      exact (List.mem_cons.mp (hp.resolve_right fun hq => hbusy (hfrees.keeps hq))).resolve_left fun heq =>
        hbusy (heq ▸ hfrees.busy)
    · rename_i hround
      have hfrees := round_frees hround hcopied
      cases h
      exact hp.elim (fun hq => List.mem_singleton.mp hq ▸ hfrees.busy) hfrees.keeps

theorem copied_of_released {answers : List Answer} {o : Outcome} {pages : List PageId}
    (h : run cfg c t answers x s = some (s', o, pages)) (hp : ∀ p ∈ pages, (s'.cache.page p).busy = false) :
    Copied cfg c t answers x s := by
  induction answers generalizing x s pages with
  | nil => trivial
  | cons a answers ih =>
    intro ht
    simp only [run, ht] at h
    refine ⟨fun s₁ p₁ hf => ?_, fun s₁ p₁ x₁ hround => ?_⟩
    · by_contra hfault
      have hround : round cfg c t x a s = some (s₁, p₁, .inr (.returned (-efault))) := by
        simp only [round, hf]
        rw [if_pos (by simpa using hfault)]
        rfl
      rw [hround] at h
      cases h
      obtain ⟨v, y, hr⟩ := request_fills c a
      have hbusy := (fetch_spec hr hf).1
      exact absurd (hbusy.symm.trans (hp p₁ (by simp))) (by simp)
    · rw [hround] at h
      simp only [Option.map_eq_some_iff] at h
      obtain ⟨r, hrun, h⟩ := h
      cases h
      exact ih hrun fun p hmem => hp p (List.mem_cons_of_mem _ hmem)

theorem busy_of_asleep {u : Tid} (h : attempt cfg s u r = some s') (ht : s'.thread u = .asleep r (.page p)) :
    (s.cache.page p).busy = true := by
  have hfinish (s₁ : State) (q : PageId) : (finish s₁ u r q).thread u ≠ .asleep r (.page p) := by
    unfold FileCache.finish
    split
    · split_ifs <;> simp [State.hold]
    · simp [State.hold]
    · simp [State.hold]
  have havailable (reuse : PageId → Cache) : (available s u r reuse).thread u ≠ .asleep r (.page p) := by
    unfold available
    split
    · simp
    · exact hfinish _ _
  unfold attempt at h
  split at h
  · cases h
    exact absurd ht (havailable _)
  · simp only [Option.map_eq_some_iff] at h
    obtain ⟨found, -, rfl⟩ := h
    split at ht
    · exact absurd ht (havailable _)
    · split_ifs at ht with hb
      · rw [setThread_self] at ht
        cases ht
        exact hb
      · exact absurd ht (hfinish _ _)

theorem pages_released_iff_copied (cfg : Config) (s s' : State) (c : FileCall) (t : Tid) (addr : ℕ) (answers : List Answer)
    (o : Outcome) (pages : List PageId) (h : run cfg c t answers ⟨addr, 0⟩ s = some (s', o, pages)) :
    Released cfg s' pages ↔ Copied cfg c t answers ⟨addr, 0⟩ s := by
  refine ⟨fun hr => copied_of_released h hr.busy, fun hc => ?_⟩
  have hbusy (p : PageId) (hp : p ∈ pages) : (s'.cache.page p).busy = false := run_frees h hc p (.inl hp)
  refine ⟨hbusy, fun u r s'' p hs ht hp => ?_⟩
  exact absurd ((busy_of_asleep hs ht).symm.trans (hbusy p hp)) (by simp)

def write2 : FileCall := .write 7 4097

def twoPagesWritten : List Answer := [⟨0, 0, 0, true, true⟩, ⟨4096, 4096, 0, true, false⟩]

theorem two_pages_released : ∃ s', run onePage write2 0 twoPagesWritten ⟨0, 0⟩ onePageState =
    some (s', .returned 4097, [0, 0]) ∧ Released onePage s' [0, 0] := by
  cases h : run onePage write2 0 twoPagesWritten ⟨0, 0⟩ onePageState with
  | none => exact absurd (congrArg Option.isSome h) (by decide +kernel)
  | some r =>
    obtain ⟨s', o, pages⟩ := r
    have hr : (run onePage write2 0 twoPagesWritten ⟨0, 0⟩ onePageState).map Prod.snd = some (.returned 4097, [0, 0]) := by
      decide +kernel
    rw [h] at hr
    cases hr
    refine ⟨s', rfl, (pages_released_iff_copied onePage _ s' write2 0 0 twoPagesWritten _ _ h).mpr ?_⟩
    exact fun _ => ⟨fun _ _ _ => rfl, fun _ _ _ _ _ => ⟨fun _ _ _ => rfl, fun _ _ _ _ => trivial⟩⟩

def faultingRead : Option (State × Outcome × List PageId) :=
  run onePage (.read 7 1 1 0 false) 0 [⟨0, 1, 1, false, true⟩] ⟨0, 0⟩ onePageState

theorem faulting_read_keeps_page : ∃ s', faultingRead = some (s', .returned (-efault), [0]) ∧
    (∃ s'', attempt onePage s' 1 (.bread 7 0) = some s'' ∧ s''.thread 1 = .asleep (.bread 7 0) (.page 0)) ∧
    ¬Released onePage s' [0] := by
  cases h : faultingRead with
  | none => exact absurd (congrArg Option.isSome h) (by decide +kernel)
  | some r =>
    obtain ⟨s', o, pages⟩ := r
    have hr : faultingRead.map (·.2) = some (.returned (-efault), [0]) := by decide +kernel
    have hs : faultingRead.bind (fun r => (attempt onePage r.1 1 (.bread 7 0)).map (·.thread 1)) =
        some (.asleep (.bread 7 0) (.page 0)) := rfl
    rw [h] at hr hs
    cases hr
    obtain ⟨s'', ha, ht⟩ := Option.map_eq_some_iff.mp hs
    exact ⟨s', rfl, ⟨s'', ha, ht⟩, fun hrel => hrel.waits 1 _ s'' 0 ha ht (List.mem_singleton_self 0)⟩

end Release

end CheviotKernel.PageRelease
