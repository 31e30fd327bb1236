import Mathlib.Algebra.Group.Int.Defs
import Mathlib.Data.List.TakeWhile
import CheviotKernel.Proc.Timer

namespace CheviotKernel.Timers

def microsecondsPerJiffy : ℕ := 10000

inductive Subsecond
  | usec
  | nsec

def Subsecond.perJiffy : Subsecond → ℕ
  | .usec => microsecondsPerJiffy
  | .nsec => nanosecondsPerJiffy

structure Normalised (u : Subsecond) where
  sec : ℕ
  sub : ℕ
  sub_lt : sub < jiffiesPerSecond * u.perJiffy

variable {u : Subsecond} {s a b : ℕ}

def Normalised.floor (x : Normalised u) : ℕ := x.sec * jiffiesPerSecond + x.sub / u.perJiffy

def toTicks (x : Normalised u) : ℕ := longLong (x.sec * jiffiesPerSecond + x.sub * u.perJiffy)

def timevalToTicks (tv : Normalised .usec) : ℕ := toTicks tv

def timespecToTicks (ts : Normalised .nsec) : ℕ := toTicks ts

def clockGettime (hardclockTime : ℕ) : Normalised .nsec where
  sec := hardclockTime / jiffiesPerSecond
  sub := hardclockTime % jiffiesPerSecond * nanosecondsPerJiffy
  sub_lt := Nat.mul_lt_mul_of_pos_right (Nat.mod_lt _ (by decide)) (by decide)

-- With no descriptor ready, sys_select reads the clock after each back-off until the expiration time has come.
def selectTimedOut (now : ℕ) (timeout : Normalised .usec) (polls : List ℕ) : Option ℕ :=
  polls.find? (longLong (now + timevalToTicks timeout) ≤ ·)

structure Converts (ticks : Normalised u → ℕ) (x x' : Normalised u) : Prop where
  floor : ticks x = x.floor ∧ ticks x' = x'.floor
  monotone : x.floor ≤ x'.floor → ticks x ≤ ticks x'

structure TicksAgree (t now : ℕ) (tv tv' : Normalised .usec) (ts ts' : Normalised .nsec) : Prop where
  roundTrip : timespecToTicks (clockGettime t) = t
  timeval : Converts timevalToTicks tv tv'
  timespec : Converts timespecToTicks ts ts'
  expires : ∀ polls, selectTimedOut now tv polls = polls.find? (now + tv.floor ≤ ·)

def Normalised.Whole (x : Normalised u) : Prop := x.sub = 0 ∧ x.sec * jiffiesPerSecond < 2 ^ 64

theorem mod_ne_of_near (hlt : b < a) (hnear : a < b + 2 ^ 64) : (s + a) % 2 ^ 64 ≠ s + b := by
  omega

theorem toTicks_eq_floor_iff (x : Normalised u) : toTicks x = x.floor ↔ x.Whole := by
  unfold toTicks Normalised.floor Normalised.Whole longLong
  by_cases h0 : x.sub = 0
  · rw [h0, Nat.zero_mul, Nat.zero_div, Nat.mod_eq_iff_lt (by decide)]
    exact (and_iff_right rfl).symm
  · have hsub := x.sub_lt
    refine iff_of_false (mod_ne_of_near ?_ ?_) fun h => h0 h.1 <;> cases u <;>
      simp only [Subsecond.perJiffy, microsecondsPerJiffy, nanosecondsPerJiffy, jiffiesPerSecond] at hsub ⊢ <;> omega

theorem converts_iff (x x' : Normalised u) : Converts toTicks x x' ↔ x.Whole ∧ x'.Whole := by
  rw [← toTicks_eq_floor_iff, ← toTicks_eq_floor_iff]
  constructor
  · exact fun h => h.floor
  · intro h
    exact ⟨h, fun hle => by rwa [h.1, h.2]⟩

theorem round_trip_iff (t : ℕ) : timespecToTicks (clockGettime t) = t ↔ t % jiffiesPerSecond = 0 ∧ t < 2 ^ 64 := by
  have hfloor : (clockGettime t).floor = t := by
    unfold clockGettime Normalised.floor
    rw [Subsecond.perJiffy, Nat.mul_div_cancel _ (by decide)]
    exact Nat.div_add_mod' t jiffiesPerSecond
  have hwhole := toTicks_eq_floor_iff (clockGettime t)
  rw [hfloor] at hwhole
  refine hwhole.trans ?_
  change t % 100 * 10000000 = 0 ∧ t / 100 * 100 < 2 ^ 64 ↔ t % 100 = 0 ∧ t < 2 ^ 64
  omega

theorem find_from_iff : (∀ polls : List ℕ, polls.find? (a ≤ ·) = polls.find? (b ≤ ·)) ↔ a = b := by
  constructor
  · intro h
    have ha := h [a]
    have hb := h [b]
    by_contra hne
    rcases Nat.lt_or_gt_of_ne hne with hlt | hlt
    · simp [Nat.not_le.mpr hlt] at ha
    · simp [Nat.not_le.mpr hlt] at hb
  · rintro rfl
    exact fun _ => rfl

theorem tick_conversions_agree_iff (t now : ℕ) (tv tv' : Normalised .usec) (ts ts' : Normalised .nsec) :
    TicksAgree t now tv tv' ts ts' ↔ (t % jiffiesPerSecond = 0 ∧ t < 2 ^ 64) ∧ (tv.Whole ∧ tv'.Whole) ∧
      (ts.Whole ∧ ts'.Whole) ∧ now + tv.floor < 2 ^ 64 := by
  rw [← round_trip_iff, ← converts_iff, ← converts_iff]
  have hexp : Converts timevalToTicks tv tv' →
      ((∀ polls, selectTimedOut now tv polls = polls.find? (now + tv.floor ≤ ·)) ↔ now + tv.floor < 2 ^ 64) := by
    intro h
    unfold selectTimedOut
    rw [find_from_iff, h.floor.1, longLong, Nat.mod_eq_iff_lt (by decide)]
  constructor
  · intro h
    exact ⟨h.roundTrip, h.timeval, h.timespec, (hexp h.timeval).mp h.expires⟩
  · rintro ⟨hround, htv, hts, hlt⟩
    exact ⟨hround, htv, hts, (hexp htv).mpr hlt⟩

theorem half_second_never_expires :
    timespecToTicks (clockGettime 1) = 100000000000000 ∧
      timevalToTicks ⟨0, 500000, by decide⟩ = 5000000000 ∧ timevalToTicks ⟨1, 0, by decide⟩ = 100 ∧
      ∀ ts ts', ¬TicksAgree 1 0 ⟨0, 500000, by decide⟩ ⟨1, 0, by decide⟩ ts ts' := by
  refine ⟨by decide, by decide, by decide, fun ts ts' h => ?_⟩
  exact absurd h.roundTrip (by decide)

structure Timespec where
  tvSec : ℤ
  tvNsec : ℤ
  long : -2 ^ 31 ≤ tvNsec ∧ tvNsec < 2 ^ 31

def Timespec.ticks (ts : Timespec) : ℤ := ts.tvSec * jiffiesPerSecond + ts.tvNsec.tdiv nanosecondsPerJiffy

-- req->tv_nsec / 1000 is signed and is then stored in a uint64_t.
def Timespec.spinTimeout (req : Timespec) : ℕ := (req.tvNsec.tdiv 1000 % 2 ^ 64).toNat

def archSpinNanosleep (timeout : ℕ) (elapsed : List ℕ) : List ℕ := elapsed.takeWhile (· < timeout)

inductive Wait
  | spin (timeout : ℕ)
  | timer (ticks : ℤ)
  | none

inductive SleepCall
  | sleep (seconds : ℤ)
  | nanosleep (hires : Bool) (req : Timespec)
  | timedwait (blocks : Bool) (timeout : Option Timespec)

def Timespec.Short (req : Timespec) : Prop := req.tvSec = 0 ∧ req.tvNsec < 10000000

instance (req : Timespec) : Decidable req.Short := inferInstanceAs (Decidable (_ ∧ _))

def SleepCall.wait : SleepCall → Wait
  | .sleep seconds => .timer (seconds * jiffiesPerSecond)
  | .nanosleep hires req => if hires = true ∧ req.Short then .spin req.spinTimeout else .timer req.ticks
  | .timedwait true (some timeout) => .timer timeout.ticks
  | .timedwait .. => .none

def Wait.Safe (hardclockTime : Fin (2 ^ 31)) : Wait → Prop
  | .spin timeout => ∀ elapsed, ∀ e ∈ archSpinNanosleep timeout elapsed, e < microsecondsPerJiffy
  | .timer ticks =>
    let expiration := wheelExpiration hardclockTime ticks
    (0 ≤ wheelIndex expiration ∧ wheelIndex expiration < jiffiesPerSecond) ∧ hardclockTime ≤ expiration
  | .none => True

def Representable (hardclockTime : Fin (2 ^ 31)) (ticks : ℤ) : Prop :=
  0 ≤ ticks.bmod (2 ^ 64) ∧ hardclockTime + ticks.bmod (2 ^ 64) < 2 ^ 63

def SleepCall.Sane (hardclockTime : Fin (2 ^ 31)) : SleepCall → Prop
  | .sleep seconds => Representable hardclockTime (seconds * jiffiesPerSecond)
  | .nanosleep hires req => if hires = true ∧ req.Short then -1000 < req.tvNsec else Representable hardclockTime req.ticks
  | .timedwait true (some timeout) => Representable hardclockTime timeout.ticks
  | .timedwait .. => True

theorem timer_safe_iff (now : Fin (2 ^ 31)) (ticks : ℤ) : (Wait.timer ticks).Safe now ↔ Representable now ticks := by
  have hsum : wheelExpiration now ticks = (now + ticks.bmod (2 ^ 64)).bmod (2 ^ 64) := Int.add_bmod_bmod.symm
  have hlo : -2 ^ 63 ≤ ticks.bmod (2 ^ 64) := Int.le_bmod (by decide)
  have hhi : ticks.bmod (2 ^ 64) < 2 ^ 63 := Int.bmod_lt (by decide)
  have hle : now ≤ wheelExpiration now ticks ↔ Representable now ticks := by
    rw [hsum, Int.bmod_def, Representable]
    split_ifs <;> omega
  constructor
  · exact fun h => hle.mp h.2
  · intro h
    have hexp := hle.mpr h
    exact ⟨⟨Int.tmod_nonneg _ (by omega), Int.tmod_lt_of_pos _ (by decide)⟩, hexp⟩

theorem spin_safe_iff (now : Fin (2 ^ 31)) {req : Timespec} (h : req.Short) :
    (Wait.spin req.spinTimeout).Safe now ↔ -1000 < req.tvNsec := by
  have hbound : (Wait.spin req.spinTimeout).Safe now ↔ req.spinTimeout ≤ microsecondsPerJiffy := by
    constructor
    · intro hs
      by_contra hlt
      exact absurd (hs [microsecondsPerJiffy] microsecondsPerJiffy (by simp [archSpinNanosleep, Nat.not_le.mp hlt]))
        (Nat.lt_irrefl _)
    · intro hle elapsed e he
      have hlt := List.mem_takeWhile_imp he
      exact Nat.lt_of_lt_of_le (of_decide_eq_true hlt) hle
  rw [hbound, Timespec.spinTimeout, Int.tdiv_eq_ediv, show Int.sign 1000 = 1 from rfl]
  change (_ : ℤ).toNat ≤ 10000 ↔ _
  have hlong := req.long
  have hshort := h.2
  split_ifs <;> omega

theorem durations_safe_iff (hardclockTime : Fin (2 ^ 31)) (call : SleepCall) :
    call.wait.Safe hardclockTime ↔ call.Sane hardclockTime := by
  cases call with
  | sleep seconds => exact timer_safe_iff hardclockTime _
  | nanosleep hires req =>
    simp only [SleepCall.wait, SleepCall.Sane]
    split_ifs with h
    · exact spin_safe_iff hardclockTime h.2
    · exact timer_safe_iff hardclockTime _
  | timedwait blocks timeout =>
    cases blocks with
    | false => exact Iff.rfl
    | true =>
      cases timeout with
      | none => exact Iff.rfl
      | some timeout => exact timer_safe_iff hardclockTime _

theorem negative_sleep_unsafe : ¬(SleepCall.sleep (-1)).wait.Safe 0 ∧
    ¬(SleepCall.nanosleep true ⟨0, -1000, by decide⟩).wait.Safe 0 := by
  refine ⟨fun h => absurd h.2 (by decide), fun h => ?_⟩
  exact absurd (h [microsecondsPerJiffy] microsecondsPerJiffy (by decide)) (by decide)

end CheviotKernel.Timers
