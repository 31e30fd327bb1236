import CheviotKernel.Fs.Filedesc
import CheviotKernel.Fs.Vfs

namespace CheviotKernel.Filps

open Function Runs

section Lowest

def fdReads (s : State) (p : ProcId) (minFd maxFd : ℕ) : List ℕ :=
  match (fdAlloc s p minFd maxFd).2 with
  | none => List.range' minFd (maxFd + 1 - minFd)
  | some fd => List.range' minFd (fd + 1 - minFd)

theorem fdAlloc_view {u : Vfs.Kernel} {s : State} {p : ProcId} {m n : ℕ}
    (h : ∀ fd, (u.fdTable fd).alloced = (s.fdTable p fd).alloced) :
    (Vfs.fdAlloc u m n).map Prod.fst = (fdAlloc s p m n).2 := by
  have hsame : (fun fd => decide ((u.fdTable fd).alloced = false)) = fun fd => !(s.fdTable p fd).alloced := by
    funext fd
    simp [h]
  rw [Vfs.fdAlloc, fdAlloc, hsame]
  cases (List.range' m (n + 1 - m)).find? _ <;> rfl

structure AllocCall where
  state : State
  proc : ProcId
  minFd : Fin filedescMax

def AllocCall.any (s : State) (p : ProcId) : AllocCall := ⟨s, p, ⟨0, by decide⟩⟩

def dupfdCall (s : State) (p : ProcId) (fd arg : ℕ) : List AllocCall :=
  if h : (filpGet s p fd).isSome ∧ arg < filedescMax then [⟨s, p, ⟨arg, h.2⟩⟩] else []

-- The calls of fd_alloc that pass FILEDESC_MAX as max_fd, each with the state it is made in.
def allocCalls (s : State) : Action → List AllocCall
  | .open p _ _ _ => [.any s p]
  | .exec p _ => [.any s p]
  | .createmsgport p _ _ => [.any s p]
  | .pipe p _ _ => .any s p :: match openTake s p with
    | (s', some _) => [.any s' p]
    | (_, none) => []
  | .dup p fd => if (filpGet s p fd).isSome then [.any s p] else []
  | .fcntl p fd (.dupfd arg) => dupfdCall s p fd arg
  | .fcntl p fd (.dupfdCloexec arg) => dupfdCall s p fd arg
  | _ => []

def AllocCall.LowestFree (c : AllocCall) (fd : ℕ) : Prop :=
  c.minFd ≤ fd ∧ fd < filedescMax ∧ (c.state.fdTable c.proc fd).alloced = false ∧
    ∀ w : ℕ, c.minFd ≤ w → w < fd → (c.state.fdTable c.proc w).alloced = true

structure AllocCall.Lowest (c : AllocCall) : Prop where
  result : ∀ fd, (fdAlloc c.state c.proc c.minFd filedescMax).2 = some fd ↔ c.LowestFree fd
  reads : ∀ w ∈ fdReads c.state c.proc c.minFd filedescMax, w < filedescMax

theorem fdAlloc_result (s : State) (p : ProcId) (lo hi : ℕ) : (fdAlloc s p lo hi).2 =
    (List.range' lo (hi + 1 - lo)).find? fun fd => !(s.fdTable p fd).alloced := by
  unfold fdAlloc
  split <;> exact Eq.symm ‹_›

theorem AllocCall.lowest_iff (c : AllocCall) : c.Lowest ↔ 0 < spare c.state c.proc c.minFd := by
  have hmin := c.minFd.isLt
  rw [spare_pos]
  constructor
  · intro h
    by_contra hfull
    have hreads := h.reads
    unfold fdReads at hreads
    cases hres : (fdAlloc c.state c.proc c.minFd filedescMax).2 with
    | none =>
      rw [hres] at hreads
      exact absurd (hreads filedescMax (List.mem_range'_1.mpr ⟨hmin.le, by omega⟩)) (Nat.lt_irrefl _)
    | some fd =>
      obtain ⟨hlo, hlt, hfree, -⟩ := (h.result fd).mp hres
      exact hfull ⟨fd, hlo, hlt, hfree⟩
  · rintro ⟨w, hlo, hw, hfree⟩
    have hresult (fd : ℕ) : (fdAlloc c.state c.proc c.minFd filedescMax).2 = some fd ↔ c.LowestFree fd := by
      rw [fdAlloc_result, List.find?_range'_eq_some, List.mem_range'_1]
      simp only [Bool.not_eq_true', Bool.not_not]
      constructor
      · rintro ⟨hun, hmem, hall⟩
        refine ⟨hmem.1, ?_, hun, hall⟩
        by_contra hge
        simp [hall w hlo (by omega)] at hfree
      · rintro ⟨hle, hlt, hun, hall⟩
        exact ⟨hun, ⟨hle, by omega⟩, hall⟩
    refine ⟨hresult, fun v hv => ?_⟩
    unfold fdReads at hv
    cases hres : (fdAlloc c.state c.proc c.minFd filedescMax).2 with
    | none =>
      rw [fdAlloc_result, List.find?_eq_none] at hres
      exact absurd hfree (by simpa using hres w (List.mem_range'_1.mpr ⟨hlo, by omega⟩))
    | some fd =>
      rw [hres, List.mem_range'_1] at hv
      have hlt := ((hresult fd).mp hres).2.1
      omega

theorem fd_alloc_lowest_iff (s : State) (a : Action) :
    (∀ c ∈ allocCalls s a, c.Lowest) ↔ ∀ c ∈ allocCalls s a, 0 < spare c.state c.proc c.minFd :=
  forall₂_congr fun c _ => c.lowest_iff

def lastTaken : State := bootState.setDesc 0 511 ⟨some 0, false, true, true⟩

theorem full_table_overrun : (fdAlloc lastTaken 0 511 filedescMax).2 = some 512 ∧
    ¬∀ c ∈ allocCalls lastTaken (.fcntl 0 511 (.dupfd 511)), c.Lowest := by
  refine ⟨by decide, fun h => ?_⟩
  have hreads := (h ⟨lastTaken, 0, ⟨511, by decide⟩⟩ (List.mem_singleton_self _)).reads
  exact absurd (hreads 512 (by decide)) (by decide)

end Lowest

section Dup2

variable {filps loose : List FilpId} {s s' : State} {p : ProcId} {fd newFd : ℕ} {f g : FilpId}

section

variable (h : Sound filps loose s)
include h

end

end Dup2

end CheviotKernel.Filps
