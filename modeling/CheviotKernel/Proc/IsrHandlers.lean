import CheviotKernel.Proc.Process

namespace CheviotKernel.Procs

open Function

abbrev HandlerId := Nat

structure IsrTables where
  irq : HandlerId → Nat
  thread : HandlerId → ThreadId
  threadList : ThreadId → List HandlerId
  isrHandlerList : Nat → List HandlerId
  irqHandlerCnt : Nat → Int
  irqMaskCnt : Nat → Int
  enabled : Nat → Bool
  isrHandlerFreeList : List HandlerId

section Free

variable (s : State) (p : ProcId) (c : ThreadId)

def doFreeIsrhandler (x : IsrTables) (h : HandlerId) : IsrTables :=
  if (s.thread c).process ≠ some p ∨ x.thread h ≠ c then x
  else
    let irq := x.irq h
    let cnt := x.irqHandlerCnt irq - 1
    { x with
      threadList := update x.threadList c ((x.threadList c).erase h)
      isrHandlerList := update x.isrHandlerList irq ((x.isrHandlerList irq).erase h)
      irqHandlerCnt := update x.irqHandlerCnt irq cnt
      irqMaskCnt := if cnt = 0 then update x.irqMaskCnt irq 0 else x.irqMaskCnt
      enabled := if cnt = 0 then update x.enabled irq false else x.enabled
      isrHandlerFreeList := h :: x.isrHandlerFreeList }

-- The loop of do_free_all_isrhandlers, cut after as many rounds as the first argument says.
def doFreeAllIsrhandlers : Nat → IsrTables → Option IsrTables
  | 0, _ => none
  | n + 1, x =>
    match x.threadList c with
    | [] => some x
    | h :: _ => doFreeAllIsrhandlers n (doFreeIsrhandler s p c x h)

end Free

structure Registered (c : ThreadId) (hs : List HandlerId) (x : IsrTables) : Prop where
  own : ∀ h ∈ x.threadList c, x.thread h = c ∧ h ∈ hs
  listed : ∀ h ∈ hs, (x.isrHandlerList (x.irq h)).count h = (x.threadList c).count h
  once : ∀ h ∈ hs, (x.threadList c).count h + x.isrHandlerFreeList.count h = 1

structure AllFreed (c : ThreadId) (x y : IsrTables) : Prop where
  thread : y.threadList c = []
  irq : ∀ h ∈ x.threadList c, h ∉ y.isrHandlerList (x.irq h)
  free : ∀ h ∈ x.threadList c, y.isrHandlerFreeList.count h = 1

section Exit

variable {s : State} {p : ProcId} {c : ThreadId} {x : IsrTables} {hs l : List HandlerId} {a : HandlerId}

theorem doExitThread_process (hp : (s.thread c).process = some p) :
    ((doExitThread s c p).thread c).process = some p ↔
      (s.proc p).threadList.erase c ≠ [] ∧ (s.thread c).detached = false ∨ p = s.rootProcess := by
  rw [eq_comm]
  by_cases hl : (s.proc p).threadList.erase c = []
  · simp [doExitThread, State.setProc, State.setThread, hl]
  · cases hd : (s.thread c).detached <;> simp [doExitThread, State.setProc, State.setThread, hl, hd, hp]

theorem never_freed (hp : (s.thread c).process ≠ some p) (hx : x.threadList c = a :: l) (n : Nat) :
    doFreeAllIsrhandlers s p c n x = none := by
  induction n with
  | zero => rfl
  | succ n ih => simpa [doFreeAllIsrhandlers, hx, doFreeIsrhandler, hp] using ih

theorem Registered.free (h : Registered c hs x) (hp : (s.thread c).process = some p) (hx : x.threadList c = a :: l) :
    Registered c hs (doFreeIsrhandler s p c x a) := by
  obtain ⟨hown, hlisted, honce⟩ := h
  rw [hx] at hown hlisted honce
  rw [doFreeIsrhandler, if_neg (by simp [hp, hown a])]
  constructor <;> simp only [hx, update_self, List.erase_cons_head]
  · exact fun b hb => hown b (List.mem_cons_of_mem _ hb)
  · intro b hb
    have hcount := hlisted b hb
    rw [List.count_cons] at hcount
    by_cases hi : x.irq b = x.irq a
    · rw [hi, update_self, List.count_erase, ← hi, hcount, Nat.add_sub_cancel]
    · have hba : a ≠ b := fun e => hi (e ▸ rfl)
      simpa [hi, hba] using hcount
  · intro b hb
    have hcount := honce b hb
    rw [List.count_cons] at hcount ⊢
    omega

theorem Registered.drains (h : Registered c hs x) (hp : (s.thread c).process = some p) (hx : x.threadList c = l) :
    ∃ n y, doFreeAllIsrhandlers s p c n x = some y ∧ y.threadList c = [] ∧ y.irq = x.irq ∧ Registered c hs y := by
  induction l generalizing x with
  | nil => exact ⟨1, x, by simp [doFreeAllIsrhandlers, hx], hx, rfl, h⟩
  | cons a l ih =>
    have hfree : (doFreeIsrhandler s p c x a).threadList c = l ∧ (doFreeIsrhandler s p c x a).irq = x.irq := by
      rw [doFreeIsrhandler, if_neg (by simp [hp, h.own a (by simp [hx])])]
      simp [hx]
    obtain ⟨n, y, hrun, hdone, hirq, hreg⟩ := ih (h.free hp hx) hfree.1
    exact ⟨n + 1, y, by simpa [doFreeAllIsrhandlers, hx] using hrun, hdone, hirq.trans hfree.2, hreg⟩

theorem Registered.freed (h : Registered c (x.threadList c) x) (hp : (s.thread c).process = some p) :
    ∃ n y, doFreeAllIsrhandlers s p c n x = some y ∧ AllFreed c x y := by
  obtain ⟨n, y, hrun, hdone, hirq, -, hlisted, honce⟩ := h.drains hp rfl
  rw [hdone] at hlisted honce
  refine ⟨n, y, hrun, hdone, fun a ha => ?_, fun a ha => by simpa using honce a ha⟩
  rw [← hirq]
  exact List.count_eq_zero.mp (hlisted a ha)

theorem exit_frees_handlers_iff (hp : (s.thread c).process = some p) (h : Registered c (x.threadList c) x) :
    (∃ n y, doFreeAllIsrhandlers (doExitThread s c p) p c n x = some y ∧ AllFreed c x y) ↔
      x.threadList c = [] ∨ (s.proc p).threadList.erase c ≠ [] ∧ (s.thread c).detached = false ∨ p = s.rootProcess := by
  rw [← doExitThread_process hp]
  constructor
  · rintro ⟨n, y, hrun, -⟩
    by_contra! hno
    obtain ⟨a, l, hx⟩ := List.exists_cons_of_ne_nil hno.1
    rw [never_freed hno.2 hx] at hrun
    cases hrun
  · rintro (hnil | hkept)
    · exact ⟨1, x, by simp [doFreeAllIsrhandlers, hnil], hnil, by simp [hnil], by simp [hnil]⟩
    · exact h.freed hkept

end Exit

def oneHandler : IsrTables := ⟨fun _ => 96, fun _ => 1, fun _ => [0], fun _ => [0], fun _ => 1, fun _ => 0, fun _ => true, []⟩

def twoThreads (detached : Bool) : State :=
  ((boot ⟨2, 3⟩).setThread 1 ⟨4, some 1, .init, detached, none⟩).setProc 1 { Process.zero with threadList := [1, 2] }

theorem joinable_thread_frees :
    ∃ n y, doFreeAllIsrhandlers (doExitThread (twoThreads false) 1 1) 1 1 n oneHandler = some y ∧ AllFreed 1 oneHandler y :=
  (exit_frees_handlers_iff rfl ⟨by decide, by decide, by decide⟩).mpr (.inr (.inl ⟨by decide, rfl⟩))

theorem detached_thread_never_ends :
    ¬ ∃ n, doFreeAllIsrhandlers (doExitThread (twoThreads true) 1 1) 1 1 n oneHandler ≠ none := by
  rintro ⟨n, hends⟩
  exact hends (never_freed (by decide) rfl n)

end CheviotKernel.Procs
