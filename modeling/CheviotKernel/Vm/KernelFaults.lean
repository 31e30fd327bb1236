import CheviotKernel.Library.Runs

namespace CheviotKernel.KernelFaults

open Runs

inductive Copy
  | copyin
  | copyinstring
  | copyout
  | copyoutstring
  deriving DecidableEq

-- The address of a copy's catch label, or another word.
inductive Pc
  | catch (c : Copy)
  | word (w : BitVec 32)
  deriving DecidableEq

-- What the assembly stores at the end of a copy, and what the handler compares with.
def feelsbadmarker : Pc := .word 0xf3315bad

def notCopying : Pc := .word 0xfee15bad

-- quiet: the last copy ended without a fault.
structure State where
  catchPc : Pc
  copy : Option Copy
  quiet : Bool

-- A data abort in a kernel mode. resolved is whether page_fault returns 0.
structure Abort where
  bklOwner : Bool
  alignment : Bool
  svc : Bool
  resolved : Bool

inductive Event
  | call (c : Copy)
  | done
  | noTermDone
  | abort (f : Abort)

inductive Outcome
  | returned
  | redirected (pc : Pc)
  | panicked

section

variable (s : State)

def dataAbortHandler (f : Abort) : Outcome :=
  if ¬ f.bklOwner ∨ f.alignment then .panicked
  else if f.resolved then .returned
  else if f.svc ∧ s.catchPc ≠ notCopying then .redirected s.catchPc
  else .panicked

-- A run ends with a panic or with a jump that is not to a catch label.
def step : Event → Option State
  | .call c => if s.copy = none then some ⟨.catch c, some c, s.quiet⟩ else none
  | .done => if s.copy = none then none else some ⟨feelsbadmarker, none, true⟩
  | .noTermDone =>
    if s.copy = some .copyinstring ∨ s.copy = some .copyoutstring then some ⟨feelsbadmarker, none, true⟩ else none
  | .abort f =>
    match dataAbortHandler s f with
    | .returned => some s
    | .redirected (.catch _) => some ⟨notCopying, none, false⟩
    | _ => none

def Recovers : Event → Prop
  | .abort f => f.resolved = false →
    dataAbortHandler s f = .panicked ∨ ∃ c, s.copy = some c ∧ dataAbortHandler s f = .redirected (.catch c)
  | _ => True

def Stray : Event → Prop
  | .abort f => s.copy = none ∧ s.quiet = true ∧ f = ⟨true, false, true, false⟩
  | _ => False

def Marked : Prop := s.catchPc = s.copy.elim (bif s.quiet then feelsbadmarker else notCopying) .catch

end

variable {s t : State} {e : Event}

theorem Marked.step (h : Marked s) (hs : step s e = some t) : Marked t := by
  cases e with
  | call c =>
    obtain ⟨-, rfl⟩ := guarded hs
    rfl
  | done =>
    obtain ⟨-, rfl⟩ := guarded ((ite_not ..).trans hs)
    rfl
  | noTermDone =>
    obtain ⟨-, rfl⟩ := guarded hs
    rfl
  | abort f =>
    simp only [KernelFaults.step] at hs
    split at hs
    · cases hs
      exact h
    · cases hs
      rfl
    · cases hs

theorem Marked.recovers_iff (h : Marked s) (e : Event) : Recovers s e ↔ ¬ Stray s e := by
  obtain ⟨pc, copy, quiet⟩ := s
  simp only [Marked] at h
  subst h
  cases e with
  | abort f =>
    obtain ⟨bklOwner, alignment, svc, resolved⟩ := f
    cases copy <;> cases quiet <;> revert bklOwner alignment svc resolved <;>
      simp [Recovers, Stray, dataAbortHandler, feelsbadmarker, notCopying]
  | _ => simp [Recovers, Stray]

def fresh : State := ⟨notCopying, none, false⟩

theorem fault_recovery_iff (es : List Event) :
    Meets step Recovers fresh es ↔ Meets step (fun s e => ¬ Stray s e) fresh es :=
  meets_congr (fun _ _ _ h hs => h.step hs) (fun _ e h => h.recovers_iff e) (I := Marked) rfl

theorem fault_after_copyin_jumps : ∃ s, exec step fresh [.call .copyin, .done] = some s ∧ s.copy = none ∧
    dataAbortHandler s ⟨true, false, true, false⟩ = .redirected (.word 0xf3315bad) := ⟨_, rfl, rfl, rfl⟩

end CheviotKernel.KernelFaults
