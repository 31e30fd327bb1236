import CheviotKernel.Library.Latch
import CheviotKernel.Proc.SleepWakeup

namespace CheviotKernel.ThreadEvents

open Function Runs Latch

abbrev ThreadId := Bkl.ThreadId

def intrfEvent : BitVec 32 := 2
def intrfAll : BitVec 32 := 15

inductive Place
  | outside
  | testing (mask : BitVec 32) (timed : Bool)
  | sleeping (mask : BitVec 32) (timed : Bool)
  | collecting (mask : BitVec 32)
  deriving DecidableEq

structure Config where
  maxThread : ℕ
  rendez : ThreadId → Bkl.RendezId

-- result is what the last wait or check of a thread returned. history is no part of the kernel: it records what was put
-- into pending_events and what the calls of a thread returned.
structure State where
  bkl : Bkl.State
  process : ThreadId → ℕ
  pendingEvents : ThreadId → BitVec 32
  eventMask : ThreadId → BitVec 32
  place : ThreadId → Place
  result : ThreadId → BitVec 32
  history : ThreadId → List (Entry 32)

inductive Errno
  | eperm
  | einval
  | enoent
  deriving DecidableEq

-- An event out of range is shifted by its low byte; only an interrupt server can have one.
def eventBit (event : ℤ) : BitVec 32 := 1 <<< (event % 256).toNat

section

variable (s : State)

def State.setPending (t : ThreadId) (w : BitVec 32) : State :=
  { s with pendingEvents := update s.pendingEvents t w }

def State.setMask (t : ThreadId) (w : BitVec 32) : State :=
  { s with eventMask := update s.eventMask t w }

def State.setPlace (t : ThreadId) (p : Place) : State :=
  { s with place := update s.place t p }

def State.record (t : ThreadId) (e : Entry 32) : State :=
  { s with history := update s.history t (e :: s.history t) }

def raise (t : ThreadId) (event : ℤ) : State :=
  let s := (s.setPending t (s.pendingEvents t ||| eventBit event)).record t (.put (eventBit event))
  if s.pendingEvents t &&& s.eventMask t ≠ 0 then { s with bkl := Bkl.taskWakeupSpecific s.bkl t intrfEvent } else s

def sysThreadEventSignal (current : ThreadId) (thread : Option ThreadId) (event : ℤ) :
    Except Errno Unit × State :=
  match thread with
  | none => (.error .eperm, s)
  | some t =>
    if s.process t ≠ s.process current then (.error .eperm, s)
    else if event < 0 ∨ event > 31 then (.error .einval, s)
    else (.ok (), raise s t event)

def doThreadEventSignal (thread : Option ThreadId) (event : ℤ) : Except Errno Unit × State :=
  match thread with
  | none => (.error .enoent, s)
  | some t => if event < 0 ∨ event > 31 then (.error .einval, s) else (.ok (), raise s t event)

def isrThreadEventSignal (thread : Option ThreadId) (event : ℤ) : Except Errno Unit × State :=
  match thread with
  | none => (.error .einval, s)
  | some t => (.ok (), raise s t event)

def taskCheckInterruptible (t : ThreadId) (intrFlags : BitVec 32) : Bool :=
  intrFlags &&& intrfEvent ≠ 0 && s.pendingEvents t &&& s.eventMask t ≠ 0

def collect (t : ThreadId) (mask : BitVec 32) : BitVec 32 × State :=
  let caught := s.pendingEvents t &&& mask
  (caught, s.setPending t (s.pendingEvents t &&& ~~~caught))

def returns (t : ThreadId) (asked : BitVec 32) (call : BitVec 32 × State) : State :=
  { call.2 with result := update call.2.result t call.1 }.record t (.take asked call.1)

inductive Action
  | start (t : ThreadId) (process : ℕ)
  | kernel (a : Bkl.Action)
  | signal (current : ThreadId) (thread : Option ThreadId) (event : ℤ)
  | message (thread : Option ThreadId) (event : ℤ)
  | interrupt (thread : Option ThreadId) (event : ℤ)
  | check (t : ThreadId) (mask : BitVec 32)
  | wait (t : ThreadId) (mask : BitVec 32) (timed : Bool)
  | test (t : ThreadId)
  | sleep (t : ThreadId)
  | collect (t : ThreadId)

def actor : Bkl.Action → Option ThreadId
  | .unlock t => some t
  | .sleep t _ => some t
  | .sleepInterruptible t _ _ _ _ => some t
  | .stop t => some t
  | _ => none

def Allowed (a : Bkl.Action) : Prop :=
  (∀ t ∈ actor a, s.place t = .outside) ∧ match a with
    | .start _ => False
    | .sleepInterruptible t _ _ flags interrupted => interrupted = taskCheckInterruptible s t flags
    | _ => True

instance : ∀ a, Decidable (Allowed s a)
  | .start .. | .lock .. | .lockReturn .. | .unlock .. | .sleep .. | .sleepReturn .. | .sleepInterruptible ..
    | .sleepInterruptibleReturn .. | .stop .. | .interrupt .. | .interruptUnlock .. | .interruptReturn ..
    | .wakeup .. | .wakeupAll .. | .wakeupSpecific .. | .timeout .. =>
    by dsimp only [Allowed]; infer_instance

def inKernel (t : ThreadId) : Bool := s.bkl.runs t .kernel && s.bkl.panicked = false

def step (cfg : Config) (s : State) : Action → Option State
  | .start t process =>
    (Bkl.step cfg.maxThread s.bkl (.start t)).map fun k =>
      { s with
        bkl := k
        process := update s.process t process
        pendingEvents := update s.pendingEvents t 0
        eventMask := update s.eventMask t 0
        place := update s.place t .outside
        history := update s.history t [] }
  | .kernel a => if Allowed s a then (Bkl.step cfg.maxThread s.bkl a).map fun k => { s with bkl := k } else none
  | .signal current thread event =>
    if inKernel s current ∧ s.place current = .outside then some (sysThreadEventSignal s current thread event).2
    else none
  | .message thread event => some (doThreadEventSignal s thread event).2
  | .interrupt thread event => some (isrThreadEventSignal s thread event).2
  | .check t mask =>
    if inKernel s t ∧ s.place t = .outside then some (returns t mask (collect s t mask)) else none
  | .wait t mask timed =>
    if inKernel s t ∧ s.place t = .outside then some ((s.setMask t mask).setPlace t (.testing mask timed)) else none
  | .test t =>
    match s.place t with
    | .testing mask timed =>
      if inKernel s t then
        if s.pendingEvents t &&& s.eventMask t = 0 then some (s.setPlace t (.sleeping mask timed))
        else some (s.setPlace t (.collecting mask))
      else none
    | _ => none
  | .sleep t =>
    match s.place t with
    | .sleeping mask timed =>
      (Bkl.step cfg.maxThread s.bkl (.sleepInterruptible t (cfg.rendez t) timed intrfAll
        (taskCheckInterruptible s t intrfAll))).map fun k => { s with bkl := k }.setPlace t (.collecting mask)
    | _ => none
  | .collect t =>
    match s.place t with
    | .collecting mask =>
      if inKernel s t then some ((returns t mask (collect s t (s.eventMask t))).setPlace t .outside) else none
    | _ => none

def boot : State where
  bkl := Bkl.boot
  process := fun _ => 0
  pendingEvents := fun _ => 0
  eventMask := fun _ => 0
  place := fun _ => .outside
  result := fun _ => 0
  history := fun _ => []

def Booted : Prop := s = boot

def EventSleep (t : ThreadId) : Prop :=
  (s.bkl.thread t).state = .rendezBlocked ∧ (s.bkl.thread t).intrFlags &&& intrfEvent ≠ 0

end

def Place.mask : Place → Option (BitVec 32)
  | .outside => none
  | .testing mask _ => some mask
  | .sleeping mask _ => some mask
  | .collecting mask => some mask

structure Good (s : State) (t : ThreadId) : Prop where
  calm : Bkl.Calm (s.bkl.thread t)
  quiet : EventSleep s t → s.pendingEvents t &&& s.eventMask t = 0
  mask : ∀ m ∈ (s.place t).mask, s.eventMask t = m
  latch : s.pendingEvents t = held (s.history t)
  kept : Kept (s.history t)

section Steps

variable {cfg : Config} {s s' : State} {t u : ThreadId} {event : ℤ} {k : Bkl.State}

theorem Good.congr (h : Good s u) (hc : Bkl.Calm (k.thread u))
    (hq : (k.thread u).state = .rendezBlocked → (k.thread u).intrFlags &&& intrfEvent ≠ 0 →
      s.pendingEvents u &&& s.eventMask u = 0) : Good { s with bkl := k } u :=
  ⟨hc, fun hs => hq hs.1 hs.2, h.mask, h.latch, h.kept⟩

theorem Good.roused (h : Good s u) (hr : Bkl.Roused (s.bkl.thread u) (k.thread u)) : Good { s with bkl := k } u := by
  refine h.congr (hr.calm h.calm) fun hs hf => ?_
  rcases hr.state with ⟨hst, -⟩ | hst
  · exact h.quiet ⟨hst ▸ hs, hr.flags ▸ hf⟩
  · exact absurd hs hst

theorem Good.setPlace (h : Good s u) {p : Place} (hp : u = t → ∀ m ∈ p.mask, s.eventMask t = m) :
    Good (s.setPlace t p) u := by
  refine { h with mask := ?_ }
  by_cases hu : u = t
  · subst hu
    simpa [State.setPlace] using hp rfl
  · simpa [State.setPlace, hu] using h.mask

theorem inKernel_ready (h : inKernel s t = true) : (s.bkl.thread t).state = .ready :=
  (Bkl.runs_iff.mp (Bool.and_eq_true_iff.mp h).1).2

namespace Good

variable (h : ∀ u, Good s u)
include h

protected theorem raise (t : ThreadId) (event : ℤ) (u : ThreadId) : Good (raise s t event) u := by
  have hput : ∀ v, v ≠ t → Good ((s.setPending t (s.pendingEvents t ||| eventBit event)).record t
      (.put (eventBit event))) v := by
    intro v hv
    have hg := h v
    refine ⟨hg.calm, ?_, hg.mask, ?_, ?_⟩
    · simpa [EventSleep, State.record, State.setPending, hv] using hg.quiet
    · simpa [State.record, State.setPending, hv] using hg.latch
    · simpa [State.record, State.setPending, hv] using hg.kept
  have hself := h t
  have hlatch : s.pendingEvents t ||| eventBit event = held (.put (eventBit event) :: s.history t) := by
    rw [held, hself.latch]
  unfold raise
  dsimp only
  split
  · by_cases hu : u = t
    · subst hu
      -- pending & mask is not 0: a thread asleep for events has been woken
      refine ⟨(Bkl.roused_taskWakeupSpecific _ u intrfEvent u).calm hself.calm, ?_, hself.mask, ?_, ?_⟩
      · rintro ⟨hst, hf⟩
        have hflags := (Bkl.roused_taskWakeupSpecific s.bkl u intrfEvent u).flags
        have hf' : (s.bkl.thread u).intrFlags &&& intrfEvent ≠ 0 := hflags ▸ hf
        exact absurd hst (Bkl.taskWakeupSpecific_wakes hself.calm hf')
      · simpa [State.record, State.setPending] using hlatch
      · simpa [State.record, State.setPending, Kept] using hself.kept
    · exact (hput u hu).roused (Bkl.roused_taskWakeupSpecific _ t intrfEvent u)
  · rename_i hmask
    by_cases hu : u = t
    · subst hu
      refine ⟨hself.calm, fun _ => not_not.mp hmask, hself.mask, ?_, ?_⟩
      · simpa [State.record, State.setPending] using hlatch
      · simpa [State.record, State.setPending, Kept] using hself.kept
    · exact hput u hu

protected theorem collect {mask asked : BitVec 32} (hm : mask = asked)
    (ht : (s.bkl.thread t).state = .ready) (u : ThreadId) : Good (returns t asked (collect s t mask)) u := by
  subst hm
  have hg := h u
  by_cases hu : u = t
  · subst hu
    refine ⟨hg.calm, ?_, hg.mask, ?_, ?_⟩
    · rintro ⟨hst, -⟩
      exact absurd (ht.symm.trans hst) (by decide)
    · have hclear : s.pendingEvents u &&& ~~~(s.pendingEvents u &&& mask) = s.pendingEvents u &&& ~~~mask := by
        apply BitVec.eq_of_getLsbD_eq
        intro i hi
        simp only [BitVec.getLsbD_and, BitVec.getLsbD_not]
        cases (s.pendingEvents u).getLsbD i <;> simp
      simp [returns, collect, State.record, State.setPending, held, hclear, ← hg.latch]
    · simp only [returns, collect, State.record, State.setPending, update_self]
      exact ⟨by rw [← hg.latch], hg.kept⟩
  · refine ⟨hg.calm, ?_, hg.mask, ?_, ?_⟩
    · simpa [EventSleep, returns, collect, State.record, State.setPending, hu] using hg.quiet
    · simpa [returns, collect, State.record, State.setPending, hu] using hg.latch
    · simpa [returns, collect, State.record, State.setPending, hu] using hg.kept

theorem bklStep {a : Bkl.Action} (hs : Bkl.step cfg.maxThread s.bkl a = some k)
    (ha : ∀ t r timed flags, a = .sleepInterruptible t r timed flags false →
      taskCheckInterruptible s t flags = false) (u : ThreadId) : Good { s with bkl := k } u := by
  have hmoved := Bkl.step_moved a hs (h u).calm
  refine (h u).congr (hmoved.calm (h u).calm) fun hst hf => ?_
  have hne : (k.thread u).intrFlags ≠ 0 := by
    intro hz
    rw [hz] at hf
    exact hf (by decide)
  rcases hmoved.interruptible hst hne with ⟨hold, hflags⟩ | ⟨r, timed, he⟩
  · exact (h u).quiet ⟨hold, hflags ▸ hf⟩
  · have hcheck := ha u r timed _ he
    simp only [taskCheckInterruptible, Bool.and_eq_false_iff, decide_eq_false_iff_not, not_not] at hcheck
    exact hcheck.resolve_left hf

theorem start {p : ℕ} (hs : Bkl.step cfg.maxThread s.bkl (.start t) = some k) (u : ThreadId) : Good { s with
      bkl := k
      process := update s.process t p
      pendingEvents := update s.pendingEvents t 0
      eventMask := update s.eventMask t 0
      place := update s.place t .outside
      history := update s.history t [] } u := by
  have hk := Good.bklStep h hs (by simp) u
  by_cases hu : u = t
  · subst hu
    refine ⟨hk.calm, ?_, ?_, ?_, ?_⟩ <;> simp [Place.mask, held, Kept]
  refine ⟨hk.calm, ?_, ?_, ?_, ?_⟩
  · simpa [EventSleep, hu] using hk.quiet
  · simpa [hu] using hk.mask
  · simpa [hu] using hk.latch
  · simpa [hu] using hk.kept

protected theorem step {a : Action} (hs : step cfg s a = some s') (u : ThreadId) : Good s' u := by
  cases a with
  | start t p =>
    obtain ⟨k, hk, rfl⟩ := Option.map_eq_some_iff.mp hs
    exact Good.start h hk u
  | kernel a =>
    simp only [step] at hs
    split_ifs at hs with hal
    obtain ⟨k, hk, rfl⟩ := Option.map_eq_some_iff.mp hs
    refine Good.bklStep h hk ?_ u
    rintro t r timed flags rfl
    exact hal.2.symm
  | signal current thread event =>
    obtain ⟨-, rfl⟩ := guarded hs
    unfold sysThreadEventSignal
    split
    · exact h u
    split_ifs
    · exact h u
    · exact h u
    · exact Good.raise h _ event u
  | message thread event =>
    cases hs
    unfold doThreadEventSignal
    split
    · exact h u
    split_ifs
    · exact h u
    · exact Good.raise h _ event u
  | interrupt thread event =>
    cases hs
    cases thread with
    | none => exact h u
    | some t => exact Good.raise h t event u
  | check t mask =>
    obtain ⟨hin, rfl⟩ := guarded hs
    exact Good.collect h rfl (inKernel_ready hin.1) u
  | wait t mask timed =>
    obtain ⟨hin, rfl⟩ := guarded hs
    have hready := inKernel_ready hin.1
    have hg := h u
    refine Good.setPlace ?_ fun _ => by simp [Place.mask, State.setMask]
    by_cases hu : u = t
    · subst hu
      refine ⟨hg.calm, ?_, ?_, hg.latch, hg.kept⟩
      · rintro ⟨hst, -⟩
        exact absurd (hready.symm.trans hst) (by decide)
      · simp [State.setMask, hin.2, Place.mask]
    · refine ⟨hg.calm, ?_, ?_, hg.latch, hg.kept⟩
      · simpa [EventSleep, State.setMask, hu] using hg.quiet
      · simpa [State.setMask, hu] using hg.mask
  | test t =>
    simp only [step] at hs
    split at hs
    · rename_i mask timed hplace
      have hmask := (h t).mask mask (by simp [hplace, Place.mask])
      split_ifs at hs <;>
      · cases hs
        exact (h u).setPlace fun _ => by simpa [Place.mask] using hmask
    · cases hs
  | sleep t =>
    simp only [step] at hs
    split at hs
    · rename_i mask timed hplace
      have hmask := (h t).mask mask (by simp [hplace, Place.mask])
      obtain ⟨k, hk, rfl⟩ := Option.map_eq_some_iff.mp hs
      refine (Good.bklStep h hk ?_ u).setPlace fun _ => by simpa [Place.mask] using hmask
      rintro t' r timed' flags he
      obtain ⟨rfl, -, -, rfl, hint⟩ : t = t' ∧ cfg.rendez t = r ∧ timed = timed' ∧ intrfAll = flags ∧
          taskCheckInterruptible s t intrfAll = false := by simpa using he
      exact hint
    · cases hs
  | collect t =>
    simp only [step] at hs
    split at hs
    · rename_i mask hplace
      have hmask := (h t).mask mask (by simp [hplace, Place.mask])
      obtain ⟨hin, rfl⟩ := guarded hs
      exact (Good.collect h hmask (inKernel_ready hin) u).setPlace fun _ => by simp [Place.mask]
    · cases hs

end Good

end Steps

theorem boot_good (u : ThreadId) : Good boot u :=
  ⟨Bkl.boot_calm u, by simp [boot], by simp [boot, Place.mask], rfl, trivial⟩

inductive Completes (s : State) (t : ThreadId) : Action → BitVec 32 → Prop
  | check (mask : BitVec 32) : Completes s t (.check t mask) mask
  | wait {mask : BitVec 32} (h : s.place t = .collecting mask) : Completes s t (.collect t) mask

def Untaken (s s' : State) (t : ThreadId) : Prop :=
  s'.result t = s.result t ∧ ∀ m g, .take m g ∈ s'.history t → .take m g ∈ s.history t

theorem untaken_raise (s : State) (t : ThreadId) (event : ℤ) (u : ThreadId) : Untaken s (raise s t event) u := by
  have hput : Untaken s ((s.setPending t (s.pendingEvents t ||| eventBit event)).record t (.put (eventBit event))) u := by
    by_cases hu : u = t <;> simp [Untaken, State.record, State.setPending, hu]
  unfold raise
  dsimp only
  split_ifs <;> exact hput

theorem untaken_returns {s : State} {t u : ThreadId} (hu : u ≠ t) (asked mask : BitVec 32) :
    Untaken s (returns t asked (collect s t mask)) u := by
  simp [Untaken, returns, collect, State.record, State.setPending, hu]

theorem step_untaken {cfg : Config} {s s' : State} {t : ThreadId} {a : Action} (hs : step cfg s a = some s')
    (hopen : ∀ mask, ¬Completes s t a mask) : Untaken s s' t := by
  have hsame : Untaken s s t := ⟨rfl, fun _ _ hm => hm⟩
  cases a with
  | start u p =>
    obtain ⟨k, -, rfl⟩ := Option.map_eq_some_iff.mp hs
    by_cases hu : t = u <;> simp [Untaken, hu]
  | kernel a =>
    simp only [step] at hs
    split_ifs at hs
    obtain ⟨k, -, rfl⟩ := Option.map_eq_some_iff.mp hs
    exact hsame
  | signal current thread event =>
    obtain ⟨-, rfl⟩ := guarded hs
    unfold sysThreadEventSignal
    split
    · exact hsame
    split_ifs
    · exact hsame
    · exact hsame
    · exact untaken_raise s _ event t
  | message thread event =>
    cases hs
    unfold doThreadEventSignal
    split
    · exact hsame
    split_ifs
    · exact hsame
    · exact untaken_raise s _ event t
  | interrupt thread event =>
    cases hs
    cases thread with
    | none => exact hsame
    | some u => exact untaken_raise s u event t
  | check u mask =>
    obtain ⟨-, rfl⟩ := guarded hs
    refine untaken_returns ?_ mask mask
    rintro rfl
    exact hopen mask (.check mask)
  | wait u mask timed =>
    obtain ⟨-, rfl⟩ := guarded hs
    exact hsame
  | test u =>
    simp only [step] at hs
    split at hs
    · split_ifs at hs <;>
      · cases hs
        exact hsame
    · cases hs
  | sleep u =>
    simp only [step] at hs
    split at hs
    · obtain ⟨k, -, rfl⟩ := Option.map_eq_some_iff.mp hs
      exact hsame
    · cases hs
  | collect u =>
    simp only [step] at hs
    split at hs
    · rename_i mask hplace
      obtain ⟨-, rfl⟩ := guarded hs
      refine untaken_returns ?_ mask _
      rintro rfl
      exact hopen mask (.wait hplace)
    · cases hs

structure EventsKept (cfg : Config) (s : State) (t : ThreadId) : Prop where
  quiet : EventSleep s t → s.pendingEvents t &&& s.eventMask t = 0
  pending : s.pendingEvents t = held (s.history t)
  delivered : Delivered (s.history t)
  returned : ∀ a s' mask, step cfg s a = some s' → Completes s t a mask →
    s'.history t = .take mask (s'.result t) :: s.history t ∧
      s'.pendingEvents t = s.pendingEvents t &&& ~~~s'.result t
  unreturned : ∀ a s', step cfg s a = some s' → (∀ mask, ¬Completes s t a mask) → Untaken s s' t

theorem events_kept_and_delivered (cfg : Config) (s : State) (h : Reach (step cfg) always Booted s) (t : ThreadId) :
    EventsKept cfg s t := by
  have hgood : ∀ u, Good s u := h.invariant (P := fun s => ∀ u, Good s u)
    (by rintro s rfl; exact boot_good) (fun _ _ _ hg _ hs => Good.step hg hs)
  refine ⟨(hgood t).quiet, (hgood t).latch, (hgood t).kept.delivered, ?_, ?_⟩
  · intro a s' mask hs hdone
    cases hdone with
    | check mask =>
      obtain ⟨-, rfl⟩ := guarded hs
      simp [returns, collect, State.record, State.setPending]
    | wait hplace =>
      simp only [step, hplace] at hs
      obtain ⟨-, rfl⟩ := guarded hs
      simp [returns, collect, State.record, State.setPending, State.setPlace]
  · intro a s' hs hopen
    exact step_untaken hs hopen

theorem event_between_test_and_sleep :
    ∃ s, Reach (step ⟨1, id⟩) always Booted s ∧ EventSleep s 0 ∧ s.pendingEvents 0 = 1 ∧ s.result 0 = 2 ∧
      EventsKept ⟨1, id⟩ s 0 :=
  Reach.exists_of_run (Q := fun s => ((s.bkl.thread 0).state = .rendezBlocked ∧
      (s.bkl.thread 0).intrFlags &&& intrfEvent ≠ 0) ∧ s.pendingEvents 0 = 1 ∧ s.result 0 = 2)
    [.start 0 0, .kernel (.lock 0), .wait 0 2 false, .test 0, .interrupt (some 0) 1, .sleep 0, .collect 0,
      .wait 0 4 false, .test 0, .interrupt (some 0) 0, .sleep 0] rfl (meets_always _ _) (by decide) fun s hr hq =>
      ⟨hq.1, hq.2.1, hq.2.2, events_kept_and_delivered _ s hr 0⟩

end CheviotKernel.ThreadEvents
