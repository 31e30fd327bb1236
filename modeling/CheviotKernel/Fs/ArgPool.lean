import CheviotKernel.Library.Runs

namespace CheviotKernel.ArgPool

open Runs

abbrev ThreadId := ℕ

-- exitInProgress is what do_exec finds after it has copied the arguments in.
structure Call where
  nullArgs : Bool
  exitInProgress : Bool
  deriving DecidableEq

structure Holder where
  thread : ThreadId
  call : Call
  copied : Bool
  deriving DecidableEq

-- holders are the threads between alloc_arg_pool and their free_arg_pool, left those that ended there.
structure State where
  execargsBusy : Bool
  holders : List Holder
  left : List ThreadId

inductive Action
  | allocArgPool (t : ThreadId) (call : Call)
  | proceed (h : Holder) (ok : Bool)

section Step

variable (s : State)

def freeArgPool (h : Holder) : State := { s with execargsBusy := false, holders := s.holders.erase h }

def copyInArgv (h : Holder) (ok : Bool) : State :=
  let copied := { s with holders := { h with copied := true } :: s.holders.erase h }
  if h.call.nullArgs then { copied with execargsBusy := false } else if ok then copied else freeArgPool s h

-- Whatever else fails after the arguments are in, the pool is freed.
def finish (h : Holder) : State :=
  if h.call.exitInProgress then { s with holders := s.holders.erase h, left := h.thread :: s.left }
  else freeArgPool s h

def step : Action → Option State
  | .allocArgPool t call =>
    if s.execargsBusy ∨ t ∈ s.left ++ s.holders.map Holder.thread then none
    else some { s with execargsBusy := true, holders := ⟨t, call, false⟩ :: s.holders }
  | .proceed h ok =>
    if h ∈ s.holders then some (if h.copied then finish s h else copyInArgv s h ok) else none

structure Owned : Prop where
  one : s.holders.length ≤ 1
  released : s.left = []

end Step

def Within (K : Set Call) (_ : State) (a : Action) : Prop := ∀ t c, a = .allocArgPool t c → c ∈ K

def start : State := ⟨false, [], []⟩

def plain : Call := ⟨false, false⟩

inductive Inv : State → Prop
  | free (b : Bool) : Inv ⟨b, [], []⟩
  | held (t : ThreadId) (copied : Bool) : Inv ⟨true, [⟨t, plain, copied⟩], []⟩

section Runs

variable {s s' : State} {a : Action} {K : Set Call}

theorem Inv.step (h : Inv s) (hK : ∀ c ∈ K, c = plain) (hc : Within K s a) (hs : step s a = some s') : Inv s' := by
  cases a with
  | allocArgPool t call =>
    obtain ⟨hfree, rfl⟩ := guarded ((ite_not ..).trans hs)
    cases h with
    | free b => exact hK call (hc t call rfl) ▸ .held t false
    | held u copied => simp at hfree
  | proceed x ok =>
    obtain ⟨hmem, rfl⟩ := guarded hs
    cases h with
    | free b => cases hmem
    | held u copied =>
      cases List.mem_singleton.mp hmem
      cases copied with
      | true => simpa [finish, freeArgPool, plain] using Inv.free false
      | false =>
        cases ok with
        | true => simpa [copyInArgv, plain] using Inv.held u true
        | false => simpa [copyInArgv, freeArgPool, plain] using Inv.free false

theorem Inv.owned (h : Inv s) : Owned s := by
  cases h with
  | free b => exact ⟨by simp, rfl⟩
  | held t copied => exact ⟨by simp, rfl⟩

/-- Whoever goes on, and with it whoever releases the pool, is the only holder. -/
theorem Owned.own {h x : Holder} {ok : Bool} (ho : Owned s) (hs : ArgPool.step s (.proceed h ok) = some s')
    (hx : x ∈ s.holders) : x = h := by
  obtain ⟨y, hy⟩ := List.length_eq_one_iff.mp (Nat.le_antisymm ho.one (List.length_pos_of_mem hx))
  have hmem := (guarded hs).1
  rw [hy] at hx hmem
  exact (List.mem_singleton.mp hx).trans (List.mem_singleton.mp hmem).symm

def leaving (c : Call) : List Action := [.allocArgPool 0 c, .proceed ⟨0, c, false⟩ true, .proceed ⟨0, c, true⟩ true]

end Runs

end CheviotKernel.ArgPool
