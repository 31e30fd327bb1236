import Mathlib.Algebra.Group.Nat.Defs
import Mathlib.Algebra.Group.Int.Defs
import Mathlib.Data.Int.Order.Basic
import CheviotKernel.Include.Lists
import CheviotKernel.Library.Runs

namespace CheviotKernel.Timers

open Function Linked CheviotKernel.Lists Runs

abbrev ThreadId := ℕ

def jiffiesPerSecond : ℕ := 100

def nanosecondsPerJiffy : ℕ := 10000000

inductive Duration
  | seconds (n : Fin (2 ^ 31))
  | ticks (n : Fin (2 ^ 31))
  | timespec (sec : ℕ) (nsec : Fin (2 ^ 31))

def Duration.toTicks : Duration → ℕ
  | .seconds n => n * jiffiesPerSecond
  | .ticks n => n
  | .timespec sec nsec => sec * jiffiesPerSecond + nsec / nanosecondsPerJiffy

def Duration.ceil : Duration → ℕ
  | .seconds n => n * jiffiesPerSecond
  | .ticks n => n
  | .timespec sec nsec => sec * jiffiesPerSecond + (nsec + (nanosecondsPerJiffy - 1)) / nanosecondsPerJiffy

def longLong (x : ℕ) : ℕ := x % 2 ^ 64

-- expiration_time is a long long.
def wheelExpiration (hardclockTime ticks : ℤ) : ℤ := (hardclockTime + ticks).bmod (2 ^ 64)

def wheelIndex (expirationTime : ℤ) : ℤ := expirationTime.tmod jiffiesPerSecond

structure Timer where
  armed : Bool
  expirationTime : ℤ

inductive Outcome
  | fired (softclockTime hardclockTime : ℤ)
  | cancelled
  | resumed (hardclockTime : ℤ)
  deriving DecidableEq

structure Arming where
  thread : ThreadId
  expiration : ℤ
  start : ℤ
  duration : Duration
  outcome : List Outcome

inductive Phase
  | awake
  | asleep (interruptible : Bool) (arming : ℕ)
  deriving DecidableEq

structure State where
  timingWheel : Links ℤ ThreadId
  timer : ThreadId → Timer
  hardclockTime : ℤ
  softclockTime : ℤ
  pass : Option (Option ThreadId)
  phase : ThreadId → Phase
  history : ℕ → Option Arming
  armings : ℕ

section

variable (s : State)

def arm (t : ThreadId) (d : Duration) (interruptible : Bool) : State :=
  let e := wheelExpiration s.hardclockTime d.toTicks
  { s with
    timer := update s.timer t ⟨true, e⟩
    timingWheel := dlistAddTail s.timingWheel (wheelIndex e) t
    phase := update s.phase t (.asleep interruptible s.armings)
    history := update s.history s.armings (some ⟨t, e, s.hardclockTime, d, []⟩)
    armings := s.armings + 1 }

def unlink (bucket : ℤ) (t : ThreadId) : State :=
  { s with
    timingWheel := dlistRemEntry s.timingWheel bucket t
    timer := update s.timer t { s.timer t with armed := false } }

def note (k : ℕ) (o : Outcome) : State :=
  { s with history := update s.history k ((s.history k).map fun r => { r with outcome := o :: r.outcome }) }

def fire (t : ThreadId) : State :=
  let s := unlink s (wheelIndex s.softclockTime) t
  match s.phase t with
  | .asleep _ k => note s k (.fired s.softclockTime s.hardclockTime)
  | .awake => s

def visit (t : ThreadId) : State :=
  let next := s.timingWheel.next t
  let s := if (s.timer t).expirationTime ≤ s.softclockTime then fire s t else s
  { s with pass := some next }

def awaken (t : ThreadId) : State := { s with phase := update s.phase t .awake }

def resume (t : ThreadId) (interruptible : Bool) (k : ℕ) : State :=
  if (s.timer t).armed then
    if interruptible then
      awaken (note (unlink s (wheelIndex (s.timer t).expirationTime) t) k .cancelled) t
    else s
  else awaken (note s k (.resumed s.hardclockTime)) t

inductive Action
  | arm (t : ThreadId) (d : Duration) (interruptible : Bool)
  | resume (t : ThreadId)
  | timerTopHalf
  | passBegin
  | visit
  | passEnd

def step : Action → Option State
  | .arm t d interruptible =>
    if s.pass = none ∧ s.phase t = .awake then some (arm s t d interruptible) else none
  | .resume t =>
    match s.pass, s.phase t with
    | none, .asleep interruptible k => some (Timers.resume s t interruptible k)
    | _, _ => none
  | .timerTopHalf =>
    if s.hardclockTime + 1 < 2 ^ 31 then some { s with hardclockTime := s.hardclockTime + 1 } else none
  | .passBegin =>
    if s.pass = none ∧ s.softclockTime < s.hardclockTime then
      some { s with pass := some (s.timingWheel.head (wheelIndex s.softclockTime)) }
    else none
  | .visit =>
    match s.pass with
    | some (some t) => some (Timers.visit s t)
    | _ => none
  | .passEnd =>
    match s.pass with
    | some none => some { s with softclockTime := s.softclockTime + 1, pass := none }
    | _ => none

structure Booted (s : State) : Prop where
  wheel : s.timingWheel = ⟨fun _ => none, fun _ => none, fun _ => none, fun _ => none⟩
  timer : ∀ t, (s.timer t).armed = false
  hardclock : s.hardclockTime = 0
  softclock : s.softclockTime = 0
  pass : s.pass = none
  phase : ∀ t, s.phase t = .awake
  history : ∀ k, s.history k = none

-- The other durations, at most 2^31 seconds, cannot overflow.
def Fits : Action → Prop
  | .arm _ d _ => s.hardclockTime + d.toTicks < 2 ^ 63
  | _ => True

def Course (r : Arming) : Prop :=
  (r.outcome = [] ∧ s.softclockTime ≤ r.expiration ∧
    ∃ ls, Family s.timingWheel ls ∧ ∀ b, r.thread ∈ ls b ↔ b = wheelIndex r.expiration) ∨
  (∃ h, r.outcome = [.fired r.expiration h]) ∨
  (∃ h h', r.outcome = [.resumed h', .fired r.expiration h] ∧ r.start + r.duration.ceil ≤ h') ∨
  r.outcome = [.cancelled]

end

section Durations

theorem Duration.ceil_le (d : Duration) : d.ceil ≤ d.toTicks + 1 := by
  cases d with
  | seconds n | ticks n => exact Nat.le_succ _
  | timespec sec nsec =>
    simp only [Duration.ceil, Duration.toTicks, nanosecondsPerJiffy]
    omega

theorem wheelExpiration_eq {hard : ℤ} {n : ℕ} (h0 : 0 ≤ hard) (h : hard + n < 2 ^ 63) :
    wheelExpiration hard n = hard + n :=
  Int.bmod_eq_of_le (by omega) (by omega)

end Durations

section

variable {s s' : State} {ls : ℤ → List ThreadId} {t u : ThreadId} {b : ℤ} {k : ℕ} {pre post : List ThreadId}
  {interruptible : Bool} {r : Arming}

structure Buckets (s : State) (ls : ℤ → List ThreadId) : Prop where
  family : Family s.timingWheel ls
  placed : ∀ t b, t ∈ ls b ↔ (s.timer t).armed = true ∧ b = wheelIndex (s.timer t).expirationTime
  ahead : ∀ t, (s.timer t).armed = true → s.softclockTime ≤ (s.timer t).expirationTime
  behind : s.softclockTime ≤ s.hardclockTime
  started : 0 ≤ s.hardclockTime

structure Walking (s : State) (pre post : List ThreadId) : Prop where
  behind : s.softclockTime < s.hardclockTime
  cursor : s.pass = some post.head?
  visited : ∀ t ∈ pre, (s.timer t).expirationTime ≠ s.softclockTime

def Wheel (s : State) (ls : ℤ → List ThreadId) : Prop :=
  Buckets s ls ∧ (s.pass = none ∨
    ∃ pre post, ls (wheelIndex s.softclockTime) = pre ++ post ∧ Walking s pre post)

section

variable (h : Buckets s ls)
include h

theorem Buckets.notMem (ht : (s.timer t).armed = false) (b : ℤ) : t ∉ ls b := by
  intro hm
  have harmed := ((h.placed t b).mp hm).1
  rw [ht] at harmed
  cases harmed

protected theorem Buckets.arm (d : Duration) (interruptible : Bool) (ht : (s.timer t).armed = false)
    (hd : s.hardclockTime + d.toTicks < 2 ^ 63) :
    ∃ ls', Buckets (arm s t d interruptible) ls' := by
  have hout := h.notMem ht
  obtain ⟨ls', hfam, hmem, -⟩ := family_withTail h.family hout (wheelIndex (wheelExpiration s.hardclockTime d.toTicks))
  refine ⟨ls', hfam, ?_, ?_, h.behind, h.started⟩
  · intro u b
    rw [hmem, h.placed]
    by_cases hu : u = t
    · subst hu
      simp [arm, ht]
    · simp [arm, hu]
  · intro u hu
    by_cases hut : u = t
    · subst hut
      have hbehind := h.behind
      simp only [arm, update_self, wheelExpiration_eq h.started hd]
      omega
    · simp only [arm, update_of_ne hut] at hu ⊢
      exact h.ahead u hu

protected theorem Buckets.unlink (hb : ls b = pre ++ t :: post) :
    Buckets (unlink s b t) (update ls b (pre ++ post)) := by
  refine ⟨family_remEntry h.family hb, ?_, ?_, h.behind, h.started⟩
  · intro u c
    rw [mem_cut h.family hb, h.placed]
    by_cases hu : u = t
    · subst hu
      simp [unlink]
    · simp [unlink, hu]
  · intro u hu
    by_cases hut : u = t
    · subst hut
      simp [unlink] at hu
    · simp only [unlink, update_of_ne hut] at hu ⊢
      exact h.ahead u hu

theorem Buckets.congr (hw : s'.timingWheel = s.timingWheel) (ht : s'.timer = s.timer)
    (hh : s'.hardclockTime = s.hardclockTime) (hs : s'.softclockTime = s.softclockTime) : Buckets s' ls := by
  refine ⟨hw ▸ h.family, ?_, ?_, ?_, hh ▸ h.started⟩
  · rw [ht]
    exact h.placed
  · rw [ht, hs]
    exact h.ahead
  · rw [hs, hh]
    exact h.behind

theorem Wheel.idle (hp : s.pass = none) : Wheel s ls := ⟨h, .inl hp⟩

end

theorem Wheel.timerTopHalf (h : Wheel s ls) :
    Wheel { s with hardclockTime := s.hardclockTime + 1 } ls := by
  obtain ⟨hb, hp⟩ := h
  refine ⟨⟨hb.family, hb.placed, hb.ahead, Int.le_add_one hb.behind, Int.le_add_one hb.started⟩, ?_⟩
  rcases hp with hp | ⟨pre, post, hl, hw⟩
  · exact .inl hp
  · exact .inr ⟨pre, post, hl, Int.lt_add_one_of_le hw.behind.le, hw.cursor, hw.visited⟩

theorem Wheel.passBegin (h : Wheel s ls) (hs : s.softclockTime < s.hardclockTime) :
    Wheel { s with pass := some (s.timingWheel.head (wheelIndex s.softclockTime)) } ls := by
  refine ⟨h.1.congr rfl rfl rfl rfl, .inr ⟨[], _, rfl, hs, ?_, by simp⟩⟩
  exact congrArg some (h.1.family.spells _).head

theorem fire_eq (h : s.phase t = .asleep interruptible k) : fire s t =
    note (unlink s (wheelIndex s.softclockTime) t) k (.fired s.softclockTime s.hardclockTime) := by
  have hp : (unlink s (wheelIndex s.softclockTime) t).phase t = .asleep interruptible k := h
  simp only [fire, hp]
  rfl

theorem Wheel.next (h : Wheel s ls) (hp : s.pass = some (some t)) : ∃ pre post,
    ls (wheelIndex s.softclockTime) = pre ++ t :: post ∧ s.timingWheel.next t = post.head? ∧
      s.softclockTime < s.hardclockTime ∧ ∀ u ∈ pre, (s.timer u).expirationTime ≠ s.softclockTime := by
  obtain ⟨hb, hn | ⟨pre, post, hl, hw⟩⟩ := h
  · rw [hp] at hn
    cases hn
  · have hhead : post.head? = some t := Option.some.inj (hw.cursor.symm.trans hp)
    obtain ⟨post, rfl⟩ := List.head?_eq_some_iff.mp hhead
    exact ⟨pre, post, hl, (hb.family.spells _).next _ _ _ hl, hw.behind, hw.visited⟩

theorem Wheel.visit (h : Wheel s ls) (hp : s.pass = some (some t))
    (ha : s.phase t = .asleep interruptible k) : ∃ ls', Wheel (visit s t) ls' := by
  obtain ⟨pre, post, hl, hnext, hbehind, hvisited⟩ := h.next hp
  unfold Timers.visit
  split_ifs with hdue
  · rw [fire_eq ha]
    refine ⟨_, (h.1.unlink hl).congr rfl rfl rfl rfl, .inr ⟨pre, post, ?_, hbehind, ?_, ?_⟩⟩
    · exact update_self ..
    · exact congrArg some hnext
    · intro u hu
      have hut : u ≠ t := (ne_of_mem_pre (hl ▸ (h.1.family.spells _).nodup) hu).symm
      simpa [note, unlink, hut] using hvisited u hu
  · refine ⟨ls, h.1.congr rfl rfl rfl rfl, .inr ⟨pre ++ [t], post, by simpa using hl, hbehind, ?_, ?_⟩⟩
    · exact congrArg some hnext
    intro u hu
    rcases List.mem_append.mp hu with hu | hu
    · exact hvisited u hu
    · rw [List.mem_singleton.mp hu]
      exact fun e => hdue (le_of_eq e)

theorem Wheel.passEnd (h : Wheel s ls) (hp : s.pass = some none) :
    Wheel { s with softclockTime := s.softclockTime + 1, pass := none } ls := by
  obtain ⟨hb, hn | ⟨pre, post, hl, hw⟩⟩ := h
  · rw [hp] at hn
    cases hn
  have hpost : post = [] := List.head?_eq_none_iff.mp (Option.some.inj (hw.cursor.symm.trans hp))
  rw [hpost, List.append_nil] at hl
  refine Wheel.idle ⟨hb.family, hb.placed, ?_, hw.behind, hb.started⟩ rfl
  intro t ht
  have hle := hb.ahead t ht
  refine lt_of_le_of_ne hle fun e => ?_
  have hm : t ∈ pre := by
    rw [← hl]
    exact (hb.placed t _).mpr ⟨ht, by rw [e]⟩
  exact hw.visited t hm e.symm

structure Sleeper (s : State) (t : ThreadId) (r : Arming) : Prop where
  thread : r.thread = t
  expiration : r.expiration = (s.timer t).expirationTime
  outcome : (s.timer t).armed = true ∧ r.outcome = [] ∨
    (s.timer t).armed = false ∧ ∃ h, r.outcome = [.fired r.expiration h] ∧ r.expiration < h ∧ h ≤ s.hardclockTime

def Over (r : Arming) : Prop :=
  r.outcome = [.cancelled] ∨ ∃ h h', r.outcome = [.resumed h', .fired r.expiration h] ∧ r.expiration < h'

structure Recorded (s : State) (k : ℕ) (r : Arming) : Prop where
  serial : k < s.armings
  expiration : r.expiration = r.start + r.duration.toTicks
  course : (∃ interruptible, s.phase r.thread = .asleep interruptible k) ∨ Over r

structure Book (s : State) : Prop where
  awake : ∀ t, s.phase t = .awake → (s.timer t).armed = false
  asleep : ∀ t interruptible k, s.phase t = .asleep interruptible k → ∃ r, s.history k = some r ∧ Sleeper s t r
  recorded : ∀ k r, s.history k = some r → Recorded s k r

theorem Sleeper.congr (h : Sleeper s t r) (ht : s'.timer t = s.timer t) (hh : s.hardclockTime ≤ s'.hardclockTime) :
    Sleeper s' t r := by
  refine ⟨h.thread, ht ▸ h.expiration, ?_⟩
  rw [ht]
  rcases h.outcome with ⟨ha, ho⟩ | ⟨ha, f, ho, hlt, hle⟩
  · exact .inl ⟨ha, ho⟩
  · exact .inr ⟨ha, f, ho, hlt, le_trans hle hh⟩

theorem Book.congr (h : Book s) (hp : s'.phase = s.phase) (ht : s'.timer = s.timer) (hh : s'.history = s.history)
    (hhard : s.hardclockTime ≤ s'.hardclockTime) (harm : s'.armings = s.armings) : Book s' := by
  refine ⟨?_, ?_, ?_⟩
  · rw [hp, ht]
    exact h.awake
  · rw [hp, hh]
    intro t interruptible k hk
    obtain ⟨r, hr, hs⟩ := h.asleep t interruptible k hk
    exact ⟨r, hr, hs.congr (by rw [ht]) hhard⟩
  · rw [hh]
    intro k r hr
    obtain ⟨hserial, hexp, hcourse⟩ := h.recorded k r hr
    exact ⟨harm ▸ hserial, hexp, hp ▸ hcourse⟩

protected theorem Book.arm (h : Book s) (d : Duration) (interruptible : Bool) (ht : s.phase t = .awake)
    (h0 : 0 ≤ s.hardclockTime) (hd : s.hardclockTime + d.toTicks < 2 ^ 63) : Book (arm s t d interruptible) := by
  have hold {k : ℕ} {r : Arming} (hr : s.history k = some r) : (arm s t d interruptible).history k = some r := by
    have hk := (h.recorded k r hr).serial
    simp [arm, Nat.ne_of_lt hk, hr]
  refine ⟨?_, ?_, ?_⟩
  · intro u hu
    by_cases hut : u = t
    · subst hut
      simp [arm] at hu
    · simp only [arm, update_of_ne hut] at hu ⊢
      exact h.awake u hu
  · intro u i k hk
    by_cases hut : u = t
    · subst hut
      obtain ⟨-, rfl⟩ : interruptible = i ∧ s.armings = k := by simpa [arm] using hk
      refine ⟨⟨u, wheelExpiration s.hardclockTime d.toTicks, s.hardclockTime, d, []⟩, by simp [arm], rfl, ?_, ?_⟩
      · simp [arm]
      · exact .inl ⟨by simp [arm], rfl⟩
    · obtain ⟨r, hr, hs⟩ := h.asleep u i k (by simpa [arm, hut] using hk)
      exact ⟨r, hold hr, hs.congr (by simp [arm, hut]) (le_refl _)⟩
  · intro k r hr
    by_cases hk : k = s.armings
    · subst hk
      obtain rfl : (⟨t, wheelExpiration s.hardclockTime d.toTicks, s.hardclockTime, d, []⟩ : Arming) = r := by
        simpa [arm] using hr
      refine ⟨Nat.lt_succ_self _, wheelExpiration_eq h0 hd, .inl ⟨interruptible, ?_⟩⟩
      simp [arm]
    · have hr' : s.history k = some r := by simpa [arm, hk] using hr
      obtain ⟨hserial, hexp, hcourse⟩ := h.recorded k r hr'
      refine ⟨Nat.lt_succ_of_lt hserial, hexp, hcourse.imp_left ?_⟩
      rintro ⟨i, hi⟩
      have hrt : r.thread ≠ t := by
        intro e
        rw [e, ht] at hi
        cases hi
      exact ⟨i, by simpa [arm, hrt] using hi⟩

section

variable (h : Book s) (hk : s.phase t = .asleep interruptible k)
include h hk

theorem Book.settle {o : Outcome} (hr : s.history k = some r)
    (hhist : s'.history = update s.history k (some { r with outcome := o :: r.outcome }))
    (hother : ∀ u, u ≠ t → s'.timer u = s.timer u ∧ s'.phase u = s.phase u)
    (hhard : s'.hardclockTime = s.hardclockTime) (harm : s'.armings = s.armings)
    (hself : s'.phase t = .asleep interruptible k ∧ Sleeper s' t { r with outcome := o :: r.outcome } ∨
      s'.phase t = .awake ∧ (s'.timer t).armed = false ∧ Over { r with outcome := o :: r.outcome }) : Book s' := by
  obtain ⟨r', hr', hs⟩ := h.asleep t interruptible k hk
  obtain rfl := Option.some.inj (hr.symm.trans hr')
  refine ⟨?_, ?_, ?_⟩
  · intro u hu
    by_cases hut : u = t
    · subst hut
      rcases hself with ⟨hp, -⟩ | ⟨-, ha, -⟩
      · rw [hp] at hu
        cases hu
      · exact ha
    · rw [(hother u hut).1]
      exact h.awake u ((hother u hut).2 ▸ hu)
  · intro u i j hj
    by_cases hut : u = t
    · subst hut
      rcases hself with ⟨hp, hs'⟩ | ⟨hp, -⟩
      · rw [hp] at hj
        cases hj
        exact ⟨_, by rw [hhist, update_self], hs'⟩
      · rw [hp] at hj
        cases hj
    · rw [(hother u hut).2] at hj
      obtain ⟨q, hq, hsq⟩ := h.asleep u i j hj
      have hjk : j ≠ k := by
        rintro rfl
        obtain rfl := Option.some.inj (hr.symm.trans hq)
        exact hut (hsq.thread.symm.trans hs.thread)
      exact ⟨q, by rw [hhist, update_of_ne hjk, hq], hsq.congr (hother u hut).1 (le_of_eq hhard.symm)⟩
  · intro j q hq
    by_cases hjk : j = k
    · subst hjk
      rw [hhist, update_self] at hq
      cases hq
      obtain ⟨hserial, hexp, -⟩ := h.recorded j r hr
      refine ⟨harm ▸ hserial, hexp, ?_⟩
      rcases hself with ⟨hp, -⟩ | ⟨-, -, hover⟩
      · exact .inl ⟨interruptible, hs.thread ▸ hp⟩
      · exact .inr hover
    · rw [hhist, update_of_ne hjk] at hq
      obtain ⟨hserial, hexp, hcourse⟩ := h.recorded j q hq
      refine ⟨harm ▸ hserial, hexp, hcourse.imp_left ?_⟩
      rintro ⟨i, hi⟩
      have hqt : q.thread ≠ t := by
        intro e
        rw [e, hk] at hi
        cases hi
        exact hjk rfl
      exact ⟨i, by rw [(hother _ hqt).2, hi]⟩

theorem Book.visit (hw : Wheel s ls) (hp : s.pass = some (some t)) : Book (visit s t) := by
  obtain ⟨pre, post, hl, -, hbehind, -⟩ := hw.next hp
  obtain ⟨harmed, -⟩ := (hw.1.placed t _).mp (show t ∈ ls (wheelIndex s.softclockTime) by simp [hl])
  obtain ⟨r, hr, hs⟩ := h.asleep t interruptible k hk
  have hempty : r.outcome = [] := by
    rcases hs.outcome with ⟨-, ho⟩ | ⟨ha, -⟩
    · exact ho
    · rw [harmed] at ha
      cases ha
  unfold Timers.visit
  split_ifs with hdue
  · have hexp : r.expiration = s.softclockTime := hs.expiration.trans (le_antisymm hdue (hw.1.ahead t harmed))
    rw [fire_eq hk]
    refine h.settle hk hr (o := .fired s.softclockTime s.hardclockTime) ?_ ?_ rfl rfl (.inl ⟨hk, hs.thread, ?_, ?_⟩)
    · simp [note, unlink, hr]
    · intro u hu
      simp [note, unlink, hu]
    · simpa [note, unlink] using hs.expiration
    · exact .inr ⟨by simp [note, unlink], s.hardclockTime, by simp [hempty, hexp], hexp ▸ hbehind, le_refl _⟩
  · exact h.congr rfl rfl rfl (le_refl _) rfl

theorem Book.resume : Book (resume s t interruptible k) := by
  obtain ⟨r, hr, hs⟩ := h.asleep t interruptible k hk
  unfold Timers.resume
  split_ifs with harmed hi
  · have hempty : r.outcome = [] := by
      rcases hs.outcome with ⟨-, ho⟩ | ⟨ha, -⟩
      · exact ho
      · rw [harmed] at ha
        cases ha
    refine h.settle hk hr (o := .cancelled) ?_ ?_ rfl rfl (.inr ⟨?_, ?_, .inl (by simp [hempty])⟩)
    · simp [awaken, note, unlink, hr]
    · intro u hu
      simp [awaken, note, unlink, hu]
    · simp [awaken]
    · simp [awaken, note, unlink]
  · exact h
  · obtain ⟨f, ho, hlt, hle⟩ : ∃ f, r.outcome = [.fired r.expiration f] ∧ r.expiration < f ∧ f ≤ s.hardclockTime := by
      rcases hs.outcome with ⟨ha, -⟩ | ⟨-, hf⟩
      · exact absurd ha harmed
      · exact hf
    refine h.settle hk hr (o := .resumed s.hardclockTime) ?_ ?_ rfl rfl (.inr ⟨?_, ?_, .inr ?_⟩)
    · simp [awaken, note, hr]
    · intro u hu
      simp [awaken, note, hu]
    · simp [awaken]
    · simpa [awaken, note] using harmed
    · exact ⟨f, s.hardclockTime, by simp [ho], lt_of_lt_of_le hlt hle⟩

end

structure Inv (s : State) (ls : ℤ → List ThreadId) : Prop where
  wheel : Wheel s ls
  book : Book s

theorem Inv.asleep_of_mem (h : Inv s ls) (hm : t ∈ ls b) : ∃ interruptible k, s.phase t = .asleep interruptible k := by
  cases hp : s.phase t with
  | awake =>
    have ha := ((h.wheel.1.placed t b).mp hm).1
    rw [h.book.awake t hp] at ha
    cases ha
  | asleep interruptible k => exact ⟨interruptible, k, rfl⟩

theorem Inv.resume (h : Inv s ls) (hp : s.pass = none) (hk : s.phase t = .asleep interruptible k) :
    ∃ ls', Inv (resume s t interruptible k) ls' := by
  have hbook := h.book.resume hk
  unfold Timers.resume at hbook ⊢
  split_ifs at hbook ⊢ with harmed hi
  · obtain ⟨pre, post, hb⟩ := List.append_of_mem ((h.wheel.1.placed t _).mpr ⟨harmed, rfl⟩)
    exact ⟨_, Wheel.idle ((h.wheel.1.unlink hb).congr rfl rfl rfl rfl) hp, hbook⟩
  · exact ⟨ls, h.wheel, hbook⟩
  · exact ⟨ls, Wheel.idle (h.wheel.1.congr rfl rfl rfl rfl) hp, hbook⟩

protected theorem Inv.step (h : Inv s ls) {a : Action} (hc : Fits s a) (hs : step s a = some s') :
    ∃ ls', Inv s' ls' := by
  cases a with
  | arm t d interruptible =>
    obtain ⟨hg, rfl⟩ := guarded hs
    obtain ⟨ls', hb⟩ := h.wheel.1.arm d interruptible (h.book.awake t hg.2) hc
    exact ⟨ls', Wheel.idle hb hg.1, h.book.arm d interruptible hg.2 h.wheel.1.started hc⟩
  | resume t =>
    simp only [step] at hs
    split at hs
    · rename_i interruptible k hp hk
      cases hs
      exact h.resume hp hk
    · cases hs
  | timerTopHalf =>
    obtain ⟨hg, rfl⟩ := guarded hs
    exact ⟨ls, h.wheel.timerTopHalf, h.book.congr rfl rfl rfl (Int.le_add_one (le_refl _)) rfl⟩
  | passBegin =>
    obtain ⟨hg, rfl⟩ := guarded hs
    exact ⟨ls, h.wheel.passBegin hg.2, h.book.congr rfl rfl rfl (le_refl _) rfl⟩
  | visit =>
    simp only [step] at hs
    split at hs
    · rename_i t hp
      cases hs
      obtain ⟨pre, post, hl, -⟩ := h.wheel.next hp
      obtain ⟨interruptible, k, hk⟩ := h.asleep_of_mem (t := t) (b := wheelIndex s.softclockTime) (by simp [hl])
      obtain ⟨ls', hw⟩ := h.wheel.visit hp hk
      exact ⟨ls', hw, h.book.visit hk h.wheel hp⟩
    · cases hs
  | passEnd =>
    simp only [step] at hs
    split at hs
    · rename_i hp
      cases hs
      exact ⟨ls, h.wheel.passEnd hp, h.book.congr rfl rfl rfl (le_refl _) rfl⟩
    · cases hs

theorem inv_booted (h : Booted s) : Inv s fun _ => [] := by
  refine ⟨Wheel.idle ⟨h.wheel ▸ Family.empty, ?_, ?_, ?_, ?_⟩ h.pass, ?_, ?_, ?_⟩
  · simp [h.timer]
  · intro t ht
    rw [h.timer] at ht
    cases ht
  · exact le_of_eq (h.softclock.trans h.hardclock.symm)
  · exact le_of_eq h.hardclock.symm
  · exact fun t _ => h.timer t
  · intro t interruptible k hk
    rw [h.phase] at hk
    cases hk
  · intro k r hr
    rw [h.history] at hr
    cases hr

theorem Inv.course (h : Inv s ls) (hr : s.history k = some r) : Course s r := by
  obtain ⟨-, hexp, hcourse⟩ := h.book.recorded k r hr
  rcases hcourse with ⟨interruptible, hk⟩ | ho | ⟨f, g, ho, hlt⟩
  · obtain ⟨r', hr', hs⟩ := h.book.asleep r.thread interruptible k hk
    obtain rfl := Option.some.inj (hr.symm.trans hr')
    rcases hs.outcome with ⟨ha, ho⟩ | ⟨-, f, ho, -⟩
    · refine .inl ⟨ho, hs.expiration ▸ h.wheel.1.ahead _ ha, ls, h.wheel.1.family, ?_⟩
      intro b
      rw [h.wheel.1.placed, hs.expiration]
      exact and_iff_right ha
    · exact .inr (.inl ⟨f, ho⟩)
  · exact .inr (.inr (.inr ho))
  · have hceil := r.duration.ceil_le
    exact .inr (.inr (.inl ⟨f, g, ho, by omega⟩))

end

def bootState : State where
  timingWheel := ⟨fun _ => none, fun _ => none, fun _ => none, fun _ => none⟩
  timer := fun _ => ⟨false, 0⟩
  hardclockTime := 0
  softclockTime := 0
  pass := none
  phase := fun _ => .awake
  history := fun _ => none
  armings := 0

theorem bootState_booted : Booted bootState := ⟨rfl, fun _ => rfl, rfl, rfl, rfl, fun _ => rfl, fun _ => rfl⟩

def pass (visits : ℕ) : List Action := .passBegin :: List.replicate visits .visit ++ [.passEnd]

instance (s : State) (a : Action) : Decidable (Fits s a) := by
  cases a <;> unfold Fits <;> infer_instance

end CheviotKernel.Timers
