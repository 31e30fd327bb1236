import CheviotKernel.Proc.Requeue

namespace CheviotKernel.Futexes

open Function Linked CheviotKernel.Lists Runs Bkl

abbrev FutexId := RendezId

abbrev ProcId := ℕ

abbrev Uaddr := ℕ

def futexHashSz : ℕ := 128

structure Futex where
  uaddr : Uaddr
  proc : ProcId
  hash : ℕ

structure Table where
  futex : FutexId → Futex
  freeFutexList : List FutexId
  futexList : ProcId → List FutexId
  futexHashTable : ℕ → List FutexId

def futexHash (p : ProcId) (uaddr : Uaddr) : ℕ := (uaddr + p) % 4294967296 % futexHashSz

def futexFind (x : Table) (p : ProcId) (uaddr : Uaddr) : Option FutexId :=
  (x.futexHashTable (futexHash p uaddr)).find? fun f => (x.futex f).uaddr = uaddr ∧ (x.futex f).proc = p

def addFutex (x : Table) (p : ProcId) (uaddr : Uaddr) (f : FutexId) (rest : List FutexId) : Table where
  futex := update x.futex f ⟨uaddr, p, futexHash p uaddr⟩
  freeFutexList := rest
  futexList := update x.futexList p (f :: x.futexList p)
  futexHashTable := update x.futexHashTable (futexHash p uaddr) (f :: x.futexHashTable (futexHash p uaddr))

def futexFree (x : Table) (p : ProcId) (f : FutexId) : Table :=
  { x with
    freeFutexList := f :: x.freeFutexList
    futexList := update x.futexList p ((x.futexList p).erase f)
    futexHashTable := update x.futexHashTable (x.futex f).hash ((x.futexHashTable (x.futex f).hash).erase f) }

def doCleanupFutexes (x : Table) (p : ProcId) : Table :=
  (x.futexList p).foldl (fun x f => if (x.futex f).proc = p then futexFree x p f else x) x

-- wake is requeue with a uaddr2 of NULL and an m of 0. timeout: NULL, or whether copyin can read it.
inductive Call
  | destroy (uaddr : Uaddr)
  | wait (uaddr : Uaddr) (val : BitVec 32) (timeout : Option Bool)
  | requeue (uaddr : Uaddr) (n : BitVec 32) (uaddr2 : Uaddr) (m : BitVec 32)
  | fini (exec : Bool)

def Call.wake (uaddr : Uaddr) (n : BitVec 32) : Call := .requeue uaddr n 0 0

inductive Ret
  | einval
  | efault
  | eagain
  | count (n : ℕ)
  deriving DecidableEq

inductive Phase
  | user
  | locking (call : Call)
  | holding (call : Call)
  | sleeping (uaddr : Uaddr)
  | killing (exec : Bool)
  | dead

-- holder is the thread that set futex_table_busy. clock and ticket number the threads as they go to sleep.
structure System where
  bkl : Bkl.State
  table : Table
  holder : Option ThreadId
  proc : ThreadId → ProcId
  phase : ThreadId → Phase
  exitInProgress : ProcId → Bool
  memory : ProcId → Uaddr → Option (BitVec 32)
  ret : ThreadId → Option Ret
  clock : ℕ
  ticket : ThreadId → ℕ

section

variable (x : System)

def System.setPhase (t : ThreadId) (p : Phase) : System := { x with phase := update x.phase t p }

def System.return (t : ThreadId) (r : Ret) : System :=
  { x.setPhase t .user with ret := update x.ret t (some r) }

def unlockFutexTable : System := { x with holder := none }

inductive Got
  | null
  | exhausted
  | futex (f : FutexId)

def futexGet (p : ProcId) (uaddr : Uaddr) : System × Got :=
  if uaddr % 4 ≠ 0 then (x, .null)
  else match futexFind x.table p uaddr with
    | some f => (x, .futex f)
    | none =>
      match x.table.freeFutexList with
      | [] => (x, .exhausted)
      | f :: rest =>
        ({ x with
          table := addFutex x.table p uaddr f rest
          bkl := { x.bkl with link := dlistInit x.bkl.link (.rendez f) } }, .futex f)

def sysExit (t : ThreadId) : System :=
  if x.exitInProgress (x.proc t) then x.setPhase t .dead
  else { x.setPhase t (.killing false) with exitInProgress := update x.exitInProgress (x.proc t) true }

def doExec (t : ThreadId) : System :=
  if x.exitInProgress (x.proc t) then x.setPhase t .dead
  else { x.setPhase t (.killing true) with exitInProgress := update x.exitInProgress (x.proc t) true }

def taskSleep (t : ThreadId) (f : FutexId) (uaddr : Uaddr) : System :=
  { x.setPhase t (.sleeping uaddr) with
    bkl := sleepOn x.bkl t f
    clock := x.clock + 1
    ticket := update x.ticket t x.clock }

def sysFutexWait (t : ThreadId) (uaddr : Uaddr) (val : BitVec 32) (timeout : Option Bool) : System :=
  match x.memory (x.proc t) uaddr with
  | none => (unlockFutexTable x).return t .efault
  | some cval =>
    if cval ≠ val then (unlockFutexTable x).return t .eagain
    else if timeout = some true then (unlockFutexTable x).return t .efault
    else match futexGet x (x.proc t) uaddr with
      | (x, .null) => (unlockFutexTable x).return t .einval
      | (x, .exhausted) => sysExit x t
      | (x, .futex f) => taskSleep (unlockFutexTable x) t f uaddr

def requeueThreads (t : ThreadId) (f : FutexId) (n : BitVec 32) (f2 : Option FutexId) (m : BitVec 32) :
    System :=
  let (bkl, count) := futexRequeue x.bkl f n f2 m
  (unlockFutexTable { x with bkl := bkl }).return t (.count count)

def sysFutexRequeue (t : ThreadId) (uaddr : Uaddr) (n : BitVec 32) (uaddr2 : Uaddr) (m : BitVec 32) :
    System :=
  match futexGet x (x.proc t) uaddr with
  | (x, .null) => (unlockFutexTable x).return t (.count 0)
  | (x, .exhausted) => sysExit x t
  | (x, .futex f) =>
    if uaddr2 = 0 then requeueThreads x t f n none m
    else match futexGet x (x.proc t) uaddr2 with
      | (x, .null) => (unlockFutexTable x).return t (.count 0)
      | (x, .exhausted) => sysExit x t
      | (x, .futex f2) => requeueThreads x t f n (some f2) m

def sysFutexDestroy (t : ThreadId) (uaddr : Uaddr) : System :=
  if uaddr % 4 ≠ 0 then (unlockFutexTable x).return t .einval
  else match futexFind x.table (x.proc t) uaddr with
    | none => (unlockFutexTable x).return t .einval
    | some f => (unlockFutexTable { x with table := futexFree x.table (x.proc t) f }).return t (.count 0)

def finiFutexes (t : ThreadId) (exec : Bool) : System :=
  let x := unlockFutexTable { x with table := doCleanupFutexes x.table (x.proc t) }
  if exec then x.setPhase t .user else x.setPhase t .dead

def perform (t : ThreadId) : Call → System
  | .destroy uaddr => sysFutexDestroy x t uaddr
  | .wait uaddr val timeout => sysFutexWait x t uaddr val timeout
  | .requeue uaddr n uaddr2 m => sysFutexRequeue x t uaddr n uaddr2 m
  | .fini exec => finiFutexes x t exec

inductive Action
  | create (t : ThreadId) (p : ProcId)
  | store (p : ProcId) (uaddr : Uaddr) (val : BitVec 32)
  | call (t : ThreadId) (call : Call)
  | exit (t : ThreadId)
  | exec (t : ThreadId)
  | die (t : ThreadId)
  | go (t : ThreadId)
  | fail (t : ThreadId)
  | grant

def Phase.isUser : Phase → Bool
  | .user => true
  | _ => false

def Phase.isDead : Phase → Bool
  | .dead => true
  | _ => false

-- What a thread that has the lock does up to its next sleep. The wait in do_kill_other_threads_and_wait ends once the
-- thread is first or last of thread_list, which other threads decide; lock_futex_table sleeps while the table is busy.
def go (t : ThreadId) : Option System :=
  match x.phase t with
  | .locking call => if x.holder = none then some { x.setPhase t (.holding call) with holder := some t } else none
  | .holding call => some (perform x t call)
  | .killing false => some (x.setPhase t (.locking (.fini false)))
  | .killing true =>
    some { x.setPhase t (.locking (.fini true)) with
      exitInProgress := update x.exitInProgress (x.proc t) false
      memory := update x.memory (x.proc t) fun _ => none }
  | _ => none

def grant : Option System :=
  match x.bkl.link.head .bkl with
  | none => none
  | some t =>
    let bkl := { x.bkl with link := dlistRemHead x.bkl.link .bkl }.set t { x.bkl.thread t with phase := .kernel, state := .ready }
    some ({ x with bkl := bkl }.return t (.count 0))

def enter (t : ThreadId) : Call → Option System
  | .fini _ => none
  | .requeue uaddr n uaddr2 m =>
    if uaddr = uaddr2 then some (x.return t .einval) else some (x.setPhase t (.locking (.requeue uaddr n uaddr2 m)))
  | call => some (x.setPhase t (.locking call))

def step (a : Action) : Option System :=
  if x.bkl.panicked then none
  else match a with
    | .create t p =>
      if (x.phase t).isDead then some { x.setPhase t .user with proc := update x.proc t p } else none
    | .store p uaddr val =>
      some { x with memory := update x.memory p (update (x.memory p) uaddr (some val)) }
    | .call t call => if (x.phase t).isUser then enter x t call else none
    | .exit t => if (x.phase t).isUser then some (sysExit x t) else none
    | .exec t => if (x.phase t).isUser then some (doExec x t) else none
    | .die t => if (x.phase t).isUser then some (x.setPhase t .dead) else none
    | .go t => go x t
    | .fail t =>
      match x.phase t with
      | .killing true =>
        some (sysExit { x with exitInProgress := update x.exitInProgress (x.proc t) false } t)
      | _ => none
    | .grant => grant x

structure Start (x : System) : Prop where
  link : x.bkl.link = ⟨fun _ => none, fun _ => none, fun _ => none, fun _ => none⟩
  ready : ∀ t, (x.bkl.thread t).state = .ready
  running : x.bkl.panicked = false
  free : x.table.freeFutexList.Nodup
  futexList : ∀ p, x.table.futexList p = []
  futexHashTable : ∀ h, x.table.futexHashTable h = []
  holder : x.holder = none
  phase : ∀ t, x.phase t = .user ∨ x.phase t = .dead

def Asleep (t : ThreadId) (f : FutexId) : Prop :=
  (x.bkl.thread t).state = .rendezBlocked ∧ (x.bkl.thread t).blockingRendez = some f

structure NoOrphan (x : System) : Prop where
  listed : ∀ t f, Asleep x t f → ∃ ls, Queued x.bkl ls ∧ t ∈ ls (.rendez f)
  owned : ∀ t f, Asleep x t f → f ∈ x.table.futexList (x.proc t) ∧
    f ∈ x.table.futexHashTable (futexHash (x.proc t) (x.table.futex f).uaddr)
  relock : ∀ t call, x.phase t = .locking call → x.holder ≠ some t

def missing (x : Table) (p : ProcId) (uaddrs : List Uaddr) : ℕ :=
  uaddrs.countP fun uaddr => uaddr % 4 = 0 ∧ futexFind x p uaddr = none

def MovesNothing (p : ProcId) (uaddr : Uaddr) (n : BitVec 32) (uaddr2 : Uaddr) (m : BitVec 32) : Prop :=
  uaddr2 = 0 ∨ m = 0 ∨ ∀ f ls, futexFind x.table p uaddr = some f → Queued x.bkl ls →
    (ls (.rendez f)).length ≤ min n.toNat (n + m).toNat

def NoSleeper (f : FutexId) : Prop := ∀ t, ¬ Asleep x t f

def CallCareful (p : ProcId) : Call → Prop
  | .destroy uaddr => ∀ f, futexFind x.table p uaddr = some f → NoSleeper x f
  | .wait uaddr _ _ => missing x.table p [uaddr] ≤ x.table.freeFutexList.length
  | .requeue uaddr n uaddr2 m =>
    missing x.table p (if uaddr2 = 0 then [uaddr] else [uaddr, uaddr2]) ≤ x.table.freeFutexList.length ∧
      MovesNothing x p uaddr n uaddr2 m
  | .fini _ => ∀ t f, x.proc t = p → ¬ Asleep x t f

def Careful : Action → Prop
  | .go t => ∀ call, x.phase t = .holding call → CallCareful x (x.proc t) call
  | _ => True

end

section Tables

variable {x y : Table} {p q : ProcId} {uaddr : Uaddr} {f g : FutexId} {rest : List FutexId} {α : Type}
  {lists : α → List FutexId} {a b : α}

structure Table.Inv (x : Table) : Prop where
  owned : ∀ p f, f ∈ x.futexList p → (x.futex f).proc = p ∧ (x.futex f).hash = futexHash p (x.futex f).uaddr ∧
    f ∈ x.futexHashTable (x.futex f).hash
  hashed : ∀ h f, f ∈ x.futexHashTable h → (x.futex f).hash = h ∧ f ∈ x.futexList (x.futex f).proc
  listNodup : ∀ p, (x.futexList p).Nodup
  hashNodup : ∀ h, (x.futexHashTable h).Nodup
  free : ∀ p f, f ∈ x.freeFutexList → f ∉ x.futexList p
  freeNodup : x.freeFutexList.Nodup
  unique : ∀ p f g, f ∈ x.futexList p → g ∈ x.futexList p → (x.futex f).uaddr = (x.futex g).uaddr → f = g
  aligned : ∀ p f, f ∈ x.futexList p → (x.futex f).uaddr % 4 = 0

theorem Table.Inv.find_some (h : x.Inv) (hf : futexFind x p uaddr = some f) :
    f ∈ x.futexList p ∧ (x.futex f).uaddr = uaddr := by
  have hmem := List.mem_of_find?_eq_some hf
  have hmatch : (x.futex f).uaddr = uaddr ∧ (x.futex f).proc = p := by simpa using List.find?_some hf
  exact ⟨hmatch.2 ▸ (h.hashed _ f hmem).2, hmatch.1⟩

theorem Table.Inv.find_none (h : x.Inv) (hf : futexFind x p uaddr = none) (hg : g ∈ x.futexList p) :
    (x.futex g).uaddr ≠ uaddr := by
  rintro rfl
  obtain ⟨hproc, hhash, hmem⟩ := h.owned p g hg
  rw [hhash] at hmem
  have hnot := List.find?_eq_none.mp hf g hmem
  simp [hproc] at hnot

theorem Table.Inv.find_of_mem (h : x.Inv) (hf : f ∈ x.futexList p) (hu : (x.futex f).uaddr = uaddr) :
    futexFind x p uaddr = some f := by
  cases hfind : futexFind x p uaddr with
  | none => exact absurd hu (h.find_none hfind hf)
  | some g =>
    obtain ⟨hg, hgu⟩ := h.find_some hfind
    rw [h.unique p f g hf hg (hu.trans hgu.symm)]

theorem mem_update_cons [DecidableEq α] : g ∈ update lists a (f :: lists a) b ↔ (g = f ∧ b = a) ∨ g ∈ lists b := by
  by_cases hb : b = a
  · subst hb
    simp
  · simp [hb]

theorem nodup_update [DecidableEq α] {l : List FutexId} (h : ∀ b, (lists b).Nodup) (hl : l.Nodup) :
    ∀ b, (update lists a l b).Nodup :=
  (forall_update_iff lists fun _ l => l.Nodup).mpr ⟨hl, fun b _ => h b⟩

protected theorem Table.Inv.addFutex (h : x.Inv) (hfree : x.freeFutexList = f :: rest) (hnone : futexFind x p uaddr = none)
    (hal : uaddr % 4 = 0) : (addFutex x p uaddr f rest).Inv := by
  have hnew : ∀ q, f ∉ x.futexList q := fun q => h.free q f (by simp [hfree])
  have hnohash : ∀ k, f ∉ x.futexHashTable k := fun k hm => hnew _ (h.hashed k f hm).2
  have hnodup : (f :: rest).Nodup := hfree ▸ h.freeNodup
  have hsame {g : FutexId} (hg : g ≠ f) : (addFutex x p uaddr f rest).futex g = x.futex g :=
    update_of_ne hg _ _
  have hself : (addFutex x p uaddr f rest).futex f = ⟨uaddr, p, futexHash p uaddr⟩ := update_self ..
  refine ⟨?_, ?_, ?_, ?_, ?_, (List.nodup_cons.mp hnodup).2, ?_, ?_⟩
  · intro q g hg
    rcases mem_update_cons.mp hg with ⟨rfl, rfl⟩ | hg
    · rw [hself]
      exact ⟨rfl, rfl, mem_update_cons.mpr (.inl ⟨rfl, rfl⟩)⟩
    · rw [hsame fun hc => hnew q (hc ▸ hg)]
      obtain ⟨hproc, hhash, hmem⟩ := h.owned q g hg
      exact ⟨hproc, hhash, mem_update_cons.mpr (.inr hmem)⟩
  · intro k g hg
    rcases mem_update_cons.mp hg with ⟨rfl, rfl⟩ | hg
    · rw [hself]
      exact ⟨rfl, mem_update_cons.mpr (.inl ⟨rfl, rfl⟩)⟩
    · rw [hsame fun hc => hnohash k (hc ▸ hg)]
      obtain ⟨hhash, hmem⟩ := h.hashed k g hg
      exact ⟨hhash, mem_update_cons.mpr (.inr hmem)⟩
  · exact nodup_update h.listNodup (List.nodup_cons.mpr ⟨hnew p, h.listNodup p⟩)
  · exact nodup_update h.hashNodup (List.nodup_cons.mpr ⟨hnohash _, h.hashNodup _⟩)
  · intro q g hg hm
    rcases mem_update_cons.mp hm with ⟨rfl, -⟩ | hm
    · exact (List.nodup_cons.mp hnodup).1 hg
    · exact h.free q g (by simp [hfree, show g ∈ rest from hg]) hm
  · intro q g g' hg hg' heq
    rcases mem_update_cons.mp hg with ⟨rfl, rfl⟩ | hm
    · rcases mem_update_cons.mp hg' with ⟨rfl, -⟩ | hm'
      · rfl
      · rw [hself, hsame fun hc => hnew q (hc ▸ hm')] at heq
        exact absurd heq.symm (h.find_none hnone hm')
    · rcases mem_update_cons.mp hg' with ⟨rfl, rfl⟩ | hm'
      · rw [hself, hsame fun hc => hnew q (hc ▸ hm)] at heq
        exact absurd heq (h.find_none hnone hm)
      · rw [hsame fun hc => hnew q (hc ▸ hm), hsame fun hc => hnew q (hc ▸ hm')] at heq
        exact h.unique q g g' hm hm' heq
  · intro q g hg
    rcases mem_update_cons.mp hg with ⟨rfl, rfl⟩ | hm
    · rw [hself]
      exact hal
    · rw [hsame fun hc => hnew q (hc ▸ hm)]
      exact h.aligned q g hm

theorem mem_update_erase [DecidableEq α] (hn : (lists a).Nodup) :
    g ∈ update lists a ((lists a).erase f) b ↔ g ∈ lists b ∧ ¬ (g = f ∧ b = a) := by
  by_cases hb : b = a
  · subst hb
    rw [update_self, hn.mem_erase_iff]
    simp [and_comm]
  · simp [hb]

protected theorem Table.Inv.futexFree (h : x.Inv) (hf : f ∈ x.futexList p) : (futexFree x p f).Inv := by
  obtain ⟨hproc, -, hhash⟩ := h.owned p f hf
  have hlist {q : ProcId} {g : FutexId} (hg : g ∈ (futexFree x p f).futexList q) : g ∈ x.futexList q ∧ g ≠ f := by
    obtain ⟨hm, hne⟩ := (mem_update_erase (h.listNodup p)).mp hg
    refine ⟨hm, ?_⟩
    rintro rfl
    exact hne ⟨rfl, (h.owned q g hm).1.symm.trans hproc⟩
  have hbucket {k : ℕ} {g : FutexId} (hg : g ∈ (futexFree x p f).futexHashTable k) :
      g ∈ x.futexHashTable k ∧ g ≠ f := by
    obtain ⟨hm, hne⟩ := (mem_update_erase (h.hashNodup _)).mp hg
    refine ⟨hm, ?_⟩
    rintro rfl
    exact hne ⟨rfl, (h.hashed k g hm).1.symm⟩
  refine ⟨?_, ?_, ?_, ?_, ?_, ?_, ?_, fun q g hg => h.aligned q g (hlist hg).1⟩
  · intro q g hg
    obtain ⟨hm, hne⟩ := hlist hg
    obtain ⟨hproc', hhash', hmem'⟩ := h.owned q g hm
    exact ⟨hproc', hhash', (mem_update_erase (h.hashNodup _)).mpr ⟨hmem', fun hc => hne hc.1⟩⟩
  · intro k g hg
    obtain ⟨hm, hne⟩ := hbucket hg
    obtain ⟨hhash', hmem'⟩ := h.hashed k g hm
    exact ⟨hhash', (mem_update_erase (h.listNodup p)).mpr ⟨hmem', fun hc => hne hc.1⟩⟩
  · exact nodup_update h.listNodup ((h.listNodup p).erase f)
  · exact nodup_update h.hashNodup ((h.hashNodup _).erase f)
  · intro q g hg hm
    obtain ⟨hm, hne⟩ := hlist hm
    rcases List.mem_cons.mp hg with hg | hg
    · exact hne hg
    · exact h.free q g hg hm
  · exact List.nodup_cons.mpr ⟨fun hm => h.free p f hm hf, h.freeNodup⟩
  · intro q g g' hg hg' heq
    exact h.unique q g g' (hlist hg).1 (hlist hg').1 heq

def Table.Holds (x : Table) (f : FutexId) : Prop := f ∈ x.freeFutexList ∨ ∃ p, f ∈ x.futexList p

theorem Table.Inv.holds_futexFree (h : x.Inv) (hg : x.Holds g) : (futexFree x p f).Holds g := by
  rcases hg with hg | ⟨q, hg⟩
  · exact .inl (List.mem_cons_of_mem f hg)
  by_cases hc : g = f ∧ q = p
  · exact .inl (hc.1 ▸ List.mem_cons_self)
  · exact .inr ⟨q, (mem_update_erase (h.listNodup p)).mpr ⟨hg, hc⟩⟩

theorem futexFree_other (x : Table) (f : FutexId) (hq : q ≠ p) : (futexFree x p f).futexList q = x.futexList q :=
  update_of_ne hq _ _

theorem Table.Inv.cleanup_loop (todo : List FutexId) (h : x.Inv) (hmem : ∀ f ∈ todo, f ∈ x.futexList p)
    (hnodup : todo.Nodup) (hy : todo.foldl (fun x f => if (x.futex f).proc = p then futexFree x p f else x) x = y) :
    y.Inv ∧ (∀ q, q ≠ p → y.futexList q = x.futexList q) ∧ y.futex = x.futex ∧ ∀ f, x.Holds f → y.Holds f := by
  induction todo generalizing x with
  | nil => exact hy ▸ ⟨h, fun _ _ => rfl, rfl, fun _ hf => hf⟩
  | cons f todo ih =>
    have hf := hmem f (by simp)
    have hproc := (h.owned p f hf).1
    rw [List.foldl_cons, if_pos hproc] at hy
    have hnext : ∀ g ∈ todo, g ∈ (futexFree x p f).futexList p := by
      intro g hg
      refine (mem_update_erase (h.listNodup p)).mpr ⟨hmem g (by simp [hg]), ?_⟩
      rintro ⟨rfl, -⟩
      exact (List.nodup_cons.mp hnodup).1 hg
    obtain ⟨hinv, hother, hsame, hkeep⟩ := ih (h.futexFree hf) hnext (List.nodup_cons.mp hnodup).2 hy
    exact ⟨hinv, fun q hq => (hother q hq).trans (futexFree_other x f hq), hsame, fun g hg => hkeep g (h.holds_futexFree hg)⟩

theorem Table.Inv.doCleanupFutexes (h : x.Inv) (p : ProcId) :
    (doCleanupFutexes x p).Inv ∧ (∀ q, q ≠ p → (doCleanupFutexes x p).futexList q = x.futexList q) ∧
      (doCleanupFutexes x p).futex = x.futex ∧ ∀ f, x.Holds f → (doCleanupFutexes x p).Holds f :=
  h.cleanup_loop (x.futexList p) (fun _ hf => hf) (h.listNodup p) rfl

end Tables

section Calls

variable {x y : Table} {pool : List FutexId}

-- A process is named by its pid. futex_free is given a futex that futex_get has found for the process.
inductive TableCall
  | get (p : ProcId) (uaddr : Uaddr) (create : Bool)
  | free (p : ProcId) (f : FutexId)
  | fini (p : ProcId)

def Table.get (x : Table) (p : ProcId) (uaddr : Uaddr) (create : Bool) : Table :=
  if uaddr % 4 ≠ 0 then x
  else match futexFind x p uaddr, create, x.freeFutexList with
    | none, true, f :: rest => addFutex x p uaddr f rest
    | _, _, _ => x

def Table.step (x : Table) : TableCall → Option Table
  | .get p uaddr create => some (x.get p uaddr create)
  | .free p f => if f ∈ x.futexList p then some (futexFree x p f) else none
  | .fini p => some (doCleanupFutexes x p)

structure Table.Fresh (pool : List FutexId) (x : Table) : Prop where
  free : x.freeFutexList = pool
  nodup : pool.Nodup
  futexList : ∀ p, x.futexList p = []
  futexHashTable : ∀ h, x.futexHashTable h = []

theorem futexGet_table (x : System) (p : ProcId) (uaddr : Uaddr) :
    (futexGet x p uaddr).1.table = x.table.get p uaddr true := by
  unfold futexGet Table.get
  split_ifs
  · rfl
  · cases futexFind x.table p uaddr <;> cases x.table.freeFutexList <;> rfl

theorem Table.Inv.step (h : x.Inv) {a : TableCall} (hs : x.step a = some y) : y.Inv ∧ ∀ f, x.Holds f → y.Holds f := by
  cases a with
  | get p uaddr create =>
    cases hs
    unfold Table.get
    split_ifs with hal
    · exact ⟨h, fun _ hf => hf⟩
    split
    · rename_i g rest hnone hfree
      refine ⟨h.addFutex hfree hnone (not_not.mp hal), ?_⟩
      rintro f (hf | ⟨q, hf⟩)
      · rw [hfree] at hf
        rcases List.mem_cons.mp hf with rfl | hf
        · exact .inr ⟨p, mem_update_cons.mpr (.inl ⟨rfl, rfl⟩)⟩
        · exact .inl hf
      · exact .inr ⟨q, mem_update_cons.mpr (.inr hf)⟩
    · exact ⟨h, fun _ hf => hf⟩
  | free p f =>
    obtain ⟨hf, rfl⟩ := guarded hs
    exact ⟨h.futexFree hf, fun _ hg => h.holds_futexFree hg⟩
  | fini p =>
    cases hs
    obtain ⟨hinv, -, -, hkeep⟩ := h.doCleanupFutexes p
    exact ⟨hinv, hkeep⟩

theorem Table.Fresh.inv (h : x.Fresh pool) : x.Inv := by
  constructor <;> simp [h.futexList, h.futexHashTable, h.free, h.nodup]

theorem futex_table (pool : List FutexId) (x : Table) (h : Reach Table.step always (Table.Fresh pool) x) :
    x.Inv ∧ ∀ f ∈ pool, x.Holds f := by
  refine h.invariant (P := fun x => x.Inv ∧ ∀ f ∈ pool, x.Holds f) ?_ ?_
  · exact fun x hx => ⟨hx.inv, fun f hf => .inl (hx.free ▸ hf)⟩
  · rintro x a y ⟨hx, hpool⟩ - hs
    exact ⟨(hx.step hs).1, fun f hf => (hx.step hs).2 f (hpool f hf)⟩

theorem futex_table_two : ∃ x, Reach Table.step always (Table.Fresh [3, 4]) x ∧ x.futexList 5 = [3] ∧
    x.futexList 6 = [4] ∧ x.Inv ∧ ∀ f ∈ [3, 4], x.Holds f :=
  Reach.exists_of_run (Q := fun x => x.futexList 5 = [3] ∧ x.futexList 6 = [4])
    (s := ⟨fun _ => ⟨0, 0, 0⟩, [3, 4], fun _ => [], fun _ => []⟩) [.get 5 8 true, .get 6 8 true, .get 5 8 true]
    ⟨rfl, by decide, fun _ => rfl, fun _ => rfl⟩ (meets_always _ _) (by decide)
    fun x hr hq => ⟨hq.1, hq.2, futex_table [3, 4] x hr⟩

end Calls

section Invariant

variable {x y : System} {ls : Blocked → List ThreadId} {t : ThreadId} {p : ProcId} {uaddr uaddr2 : Uaddr} {got : Got}
  {i : Blocked} {tab : Table} {q : Phase} {n m val : BitVec 32} {k : ℕ}

structure Inv (x : System) (ls : Blocked → List ThreadId) : Prop where
  queued : Queued x.bkl ls
  blocked : ∀ t f, Asleep x t f → t ∈ ls (.rendez f)
  off : ∀ t, (∀ uaddr, x.phase t ≠ .sleeping uaddr) → ∀ i, t ∉ ls i
  table : x.table.Inv
  live : ∀ t f, Asleep x t f → f ∈ x.table.futexList (x.proc t)
  word : ∀ t f uaddr, Asleep x t f → x.phase t = .sleeping uaddr → (x.table.futex f).uaddr = uaddr
  holder : ∀ t, x.holder = some t → ∃ call, x.phase t = .holding call
  arrival : ∀ f, (ls (.rendez f)).Pairwise fun t u => x.ticket t < x.ticket u
  past : ∀ f t, t ∈ ls (.rendez f) → x.ticket t < x.clock
  listed : ∀ t uaddr, x.phase t = .sleeping uaddr → ∃ i, t ∈ ls i
  bklBlocked : ∀ t ∈ ls .bkl, (x.bkl.thread t).state = .bklBlocked

structure Fetched (x y : System) (p : ProcId) (uaddr : Uaddr) (got : Got) : Prop where
  frame : y = { x with table := y.table, bkl := { x.bkl with link := y.bkl.link } }
  grows : ∀ q f, f ∈ x.table.futexList q → f ∈ y.table.futexList q ∧ y.table.futex f = x.table.futex f
  found : ∀ f, got = .futex f → f ∈ y.table.futexList p ∧ (y.table.futex f).uaddr = uaddr
  pool : y.table.freeFutexList.length + missing x.table p [uaddr] ≥ x.table.freeFutexList.length
  exhausted : got = .exhausted → uaddr % 4 = 0 ∧ futexFind x.table p uaddr = none ∧ x.table.freeFutexList = []

theorem Fetched.phase (h : Fetched x y p uaddr got) : y.phase = x.phase := by
  rw [h.frame]

theorem Fetched.proc (h : Fetched x y p uaddr got) : y.proc = x.proc := by
  rw [h.frame]

namespace Inv

variable (h : Inv x ls)
include h

theorem holder_ne (ht : ∀ call, x.phase t ≠ .holding call) : x.holder ≠ some t := by
  intro hh
  obtain ⟨call, hc⟩ := h.holder t hh
  exact ht call hc

theorem moved {ls' : Blocked → List ThreadId} (hq : Queued y.bkl ls') (hphase : ∀ u, u ≠ t → y.phase u = x.phase u)
    (hout : ∀ i, t ∉ ls' i) (hnew : ∀ uaddr, y.phase t ≠ .sleeping uaddr)
    (hasleep : ∀ u f, Asleep y u f → u ∈ ls' (.rendez f) ∧ Asleep x u f ∧ f ∈ y.table.futexList (y.proc u))
    (hmem : ∀ u, u ≠ t → ((∃ i, u ∈ ls' i) ↔ ∃ i, u ∈ ls i)) (hsub : ∀ f, (ls' (.rendez f)).Sublist (ls (.rendez f)))
    (htab : y.table.Inv) (hfutex : y.table.futex = x.table.futex)
    (hholder : ∀ u, y.holder = some u → ∃ call, y.phase u = .holding call) (hticket : y.ticket = x.ticket)
    (hclock : y.clock = x.clock) (hbkl : ∀ u ∈ ls' .bkl, (y.bkl.thread u).state = .bklBlocked) : Inv y ls' := by
  refine ⟨hq, fun u f hs => (hasleep u f hs).1, ?_, htab, fun u f hs => (hasleep u f hs).2.2, ?_, hholder,
    fun f => hticket ▸ (h.arrival f).sublist (hsub f), fun f u hu => hticket ▸ hclock ▸ h.past f u ((hsub f).subset hu),
    ?_, hbkl⟩
  · intro u hu i hi
    have hut : u ≠ t := by
      rintro rfl
      exact hout i hi
    rw [hphase u hut] at hu
    obtain ⟨j, hj⟩ := (hmem u hut).mp ⟨i, hi⟩
    exact h.off u hu j hj
  · intro u f uaddr hs hu
    obtain ⟨hi, hs, -⟩ := hasleep u f hs
    have hut : u ≠ t := by
      rintro rfl
      exact hout _ hi
    rw [hphase u hut] at hu
    rw [hfutex]
    exact h.word u f uaddr hs hu
  · intro u uaddr hu
    have hut : u ≠ t := by
      rintro rfl
      exact hnew uaddr hu
    rw [hphase u hut] at hu
    exact (hmem u hut).mpr (h.listed u uaddr hu)

theorem move (hb : y.bkl = x.bkl) (htab : y.table = x.table)
    (hproc : ∀ u, u ≠ t → y.proc u = x.proc u) (hphase : ∀ u, u ≠ t → y.phase u = x.phase u)
    (hold : ∀ uaddr, x.phase t ≠ .sleeping uaddr) (hnew : ∀ uaddr, y.phase t ≠ .sleeping uaddr)
    (hholder : ∀ u, y.holder = some u → ∃ call, y.phase u = .holding call) (hticket : y.ticket = x.ticket)
    (hclock : y.clock = x.clock) : Inv y ls := by
  have hout := h.off t hold
  refine h.moved (hb ▸ h.queued) hphase hout hnew (fun u f hs => ?_) (fun _ _ => .rfl) (fun _ => .refl _)
    (htab ▸ h.table) (by rw [htab]) hholder hticket hclock (hb ▸ h.bklBlocked)
  unfold Asleep at hs
  rw [hb] at hs
  have hmem := h.blocked u f hs
  have hut : u ≠ t := by
    rintro rfl
    exact hout _ hmem
  rw [htab, hproc u hut]
  exact ⟨hmem, hs, h.live u f hs⟩

theorem unslept (hf : ∀ q, f ∉ x.table.futexList q) : ls (.rendez f) = [] := by
  rw [List.eq_nil_iff_forall_not_mem]
  intro t ht
  exact hf _ (h.live t f (h.queued.sleeping f t ht))

theorem create {rest : List FutexId} (hfree : x.table.freeFutexList = f :: rest)
    (hnone : futexFind x.table p uaddr = none) (hal : uaddr % 4 = 0) :
    Inv { x with
      table := addFutex x.table p uaddr f rest
      bkl := { x.bkl with link := dlistInit x.bkl.link (.rendez f) } } ls := by
  have hnew : ∀ q, f ∉ x.table.futexList q := fun q => h.table.free q f (by simp [hfree])
  have hempty := h.unslept hnew
  have hlink : Family (dlistInit x.bkl.link (.rendez f)) ls := by
    have hinit := family_init h.queued.family (i := .rendez f)
    rwa [← hempty, update_eq_self] at hinit
  refine ⟨⟨hlink, h.queued.sleeping, h.queued.running⟩, h.blocked, h.off, h.table.addFutex hfree hnone hal, ?_, ?_,
    h.holder, h.arrival, h.past, h.listed, h.bklBlocked⟩
  · intro t g hs
    exact mem_update_cons.mpr (.inr (h.live t g hs))
  intro t g u hs hu
  have hne : g ≠ f := by
    rintro rfl
    exact hnew _ (h.live t g hs)
  simp only [addFutex]
  rw [update_of_ne hne]
  exact h.word t g u hs hu

protected theorem futexGet (p : ProcId) (uaddr : Uaddr) :
    Inv (futexGet x p uaddr).1 ls ∧ Fetched x (futexGet x p uaddr).1 p uaddr (futexGet x p uaddr).2 ∧
      ∀ f, (futexGet x p uaddr).2 = .futex f → futexFind x.table p uaddr = some f ∨ ls (.rendez f) = [] := by
  unfold futexGet
  split_ifs with hal
  · exact ⟨h, ⟨rfl, fun _ _ hf => ⟨hf, rfl⟩, nofun, Nat.le_add_right _ _, nofun⟩, nofun⟩
  have hal : uaddr % 4 = 0 := by simpa using hal
  cases hf : futexFind x.table p uaddr with
  | some f =>
    refine ⟨h, ⟨rfl, fun _ _ hf => ⟨hf, rfl⟩, ?_, Nat.le_add_right _ _, nofun⟩, ?_⟩
    · rintro g hg
      cases hg
      exact h.table.find_some hf
    · rintro g hg
      cases hg
      exact .inl rfl
  | none =>
    cases hl : x.table.freeFutexList with
    | nil =>
      refine ⟨h, ⟨rfl, fun _ _ hf => ⟨hf, rfl⟩, nofun, Nat.le_add_right _ _, ?_⟩, nofun⟩
      exact fun _ => ⟨hal, hf, hl⟩
    | cons f rest =>
      have hmissing : missing x.table p [uaddr] = 1 := by simp [missing, hf, hal]
      refine ⟨h.create hl hf hal, ⟨rfl, ?_, ?_, ?_, nofun⟩, ?_⟩
      · intro q g hg
        refine ⟨mem_update_cons.mpr (.inr hg), update_of_ne ?_ _ _⟩
        rintro rfl
        exact h.table.free q g (by simp [hl]) hg
      · rintro g hg
        cases hg
        exact ⟨mem_update_cons.mpr (.inl ⟨rfl, rfl⟩), by simp [addFutex]⟩
      · rw [hmissing]
        simp [addFutex, hl]
      · rintro g hg
        cases hg
        exact .inr (h.unslept fun q => h.table.free q f (by simp [hl]))

end Inv

variable {call : Call} {f : FutexId}

theorem woken_sublist (r g : RendezId) (k : ℕ) : (woken ls r k (.rendez g)).Sublist (ls (.rendez g)) := by
  by_cases hg : g = r
  · subst hg
    simpa [woken] using List.drop_sublist k (ls (.rendez g))
  · simp [woken, hg]

theorem mem_woken_iff {r : RendezId} : (∃ i, t ∈ woken ls r k i) ↔ ∃ i, t ∈ ls i := by
  constructor
  · rintro ⟨_ | q, hm⟩
    · have hm : t ∈ ls .bkl ∨ t ∈ (ls (.rendez r)).take k := by simpa [woken] using hm
      exact hm.elim (fun hm => ⟨_, hm⟩) fun hm => ⟨_, List.mem_of_mem_take hm⟩
    · exact ⟨_, (woken_sublist r q k).subset hm⟩
  · rintro ⟨_ | q, hm⟩
    · exact ⟨.bkl, by simp [woken, hm]⟩
    · by_cases hq : q = r
      · subst hq
        rw [← List.take_append_drop k (ls (.rendez q))] at hm
        rcases List.mem_append.mp hm with hm | hm
        · exact ⟨.bkl, by simp [woken, hm]⟩
        · exact ⟨.rendez q, by simpa [woken] using hm⟩
      · exact ⟨.rendez q, by simpa [woken, hq] using hm⟩

theorem missing_pos {uaddrs : List Uaddr} (hm : uaddr ∈ uaddrs) (hal : uaddr % 4 = 0)
    (hnone : futexFind tab p uaddr = none) : 0 < missing tab p uaddrs :=
  List.countP_pos_iff.mpr ⟨uaddr, hm, by simp [hal, hnone]⟩

section

variable (h : Inv x ls) (ht : x.phase t = .holding call)
include h

theorem Inv.frame (ret : ThreadId → Option Ret) (memory : ProcId → Uaddr → Option (BitVec 32))
    (e : ProcId → Bool) : Inv { x with ret := ret, memory := memory, exitInProgress := e } ls :=
  { h with }

include ht

theorem Inv.release (r : Ret) : Inv ((unlockFutexTable x).return t r) ls :=
  h.move (t := t) rfl rfl (fun _ _ => rfl) (fun _ hu => update_of_ne hu _ _) (by simp [ht])
    (by simp [System.return, System.setPhase]) nofun rfl rfl

theorem Inv.sleep (hf : f ∈ x.table.futexList (x.proc t)) (hu : (x.table.futex f).uaddr = uaddr) :
    Inv (taskSleep (unlockFutexTable x) t f uaddr) (update ls (.rendez f) (ls (.rendez f) ++ [t])) := by
  have hoff := h.off t (by simp [ht])
  have hphase {u : ThreadId} (hut : u ≠ t) : (taskSleep (unlockFutexTable x) t f uaddr).phase u = x.phase u :=
    update_of_ne hut _ _
  have hthread {u : ThreadId} (hut : u ≠ t) :
      (taskSleep (unlockFutexTable x) t f uaddr).bkl.thread u = x.bkl.thread u := set_thread_ne _ _ hut
  have hasleep {u : ThreadId} {g : FutexId} (hs : Asleep (taskSleep (unlockFutexTable x) t f uaddr) u g) :
      (u = t ∧ g = f) ∨ (u ≠ t ∧ Asleep x u g) := by
    by_cases hut : u = t
    · subst hut
      have hg : f = g := by simpa [taskSleep, sleepOn, State.set] using hs.2
      exact .inl ⟨rfl, hg.symm⟩
    unfold Asleep at hs
    rw [hthread hut] at hs
    exact .inr ⟨hut, hs⟩
  have hticket {g : FutexId} {u : ThreadId} (hm : u ∈ ls (.rendez g)) :
      (taskSleep (unlockFutexTable x) t f uaddr).ticket u = x.ticket u := by
    refine update_of_ne ?_ _ _
    rintro rfl
    exact hoff _ hm
  have hself : (taskSleep (unlockFutexTable x) t f uaddr).ticket t = x.clock := update_self ..
  have hkept (g : FutexId) : (ls (.rendez g)).Pairwise fun u v =>
      (taskSleep (unlockFutexTable x) t f uaddr).ticket u < (taskSleep (unlockFutexTable x) t f uaddr).ticket v := by
    refine (h.arrival g).imp_of_mem ?_
    intro u v hu hv hlt
    rwa [hticket hu, hticket hv]
  refine ⟨h.queued.sleepOn hoff f, ?_, ?_, h.table, ?_, ?_, ?_, ?_, ?_, ?_, ?_⟩
  · intro u g hs
    rcases hasleep hs with ⟨rfl, rfl⟩ | ⟨hut, hs⟩
    · simp
    · exact (mem_update_iff (by simp [hut]) (.rendez g)).mpr (h.blocked u g hs)
  · intro u hu i
    have hut : u ≠ t := by
      rintro rfl
      exact hu uaddr (update_self ..)
    rw [hphase hut] at hu
    rw [mem_update_iff (by simp [hut])]
    exact h.off u hu i
  · intro u g hs
    rcases hasleep hs with ⟨rfl, rfl⟩ | ⟨-, hs⟩
    · exact hf
    · exact h.live u g hs
  · intro u g v hs hv
    rcases hasleep hs with ⟨rfl, rfl⟩ | ⟨hut, hs⟩
    · have hphase : uaddr = v := by simpa [taskSleep, System.setPhase] using hv
      exact hu.trans hphase
    · rw [hphase hut] at hv
      exact h.word u g v hs hv
  · intro u hu
    cases hu
  · intro g
    by_cases hg : g = f
    · subst hg
      rw [update_self, List.pairwise_append]
      refine ⟨hkept g, List.pairwise_singleton _ _, ?_⟩
      intro u hu v hv
      obtain rfl : v = t := by simpa using hv
      rw [hticket hu, hself]
      exact h.past g u hu
    · rw [update_of_ne (by simpa using hg)]
      exact hkept g
  · intro g u hu
    by_cases hut : u = t
    · subst hut
      rw [hself]
      exact Nat.lt_succ_self _
    · have hold := (mem_update_iff (by simp [hut]) (.rendez g)).mp hu
      rw [hticket hold]
      exact Nat.lt_succ_of_lt (h.past g u hold)
  · intro u v hu
    by_cases hut : u = t
    · subst hut
      exact ⟨.rendez f, by simp⟩
    rw [hphase hut] at hu
    obtain ⟨i, hi⟩ := h.listed u v hu
    exact ⟨i, (mem_update_iff (by simp [hut]) i).mpr hi⟩
  · intro u hu
    have hut : u ≠ t := by
      rintro rfl
      exact hoff .bkl hu
    rw [hthread hut]
    exact h.bklBlocked u hu

theorem Inv.wake {bkl : Bkl.State} (hw : Wakes x.bkl bkl ls f k) (r : Ret) :
    Inv ((unlockFutexTable { x with bkl := bkl }).return t r) (woken ls f k) := by
  have hasleep {u : ThreadId} {g : FutexId} (hs : (bkl.thread u).state = .rendezBlocked ∧ (bkl.thread u).blockingRendez = some g) :
      u ∉ (ls (.rendez f)).take k ∧ Asleep x u g := by
    have hout : u ∉ (ls (.rendez f)).take k := by
      intro hm
      have hstate := (hw.woken u hm).1
      rw [hs.1] at hstate
      cases hstate
    rw [hw.other u hout] at hs
    exact ⟨hout, hs⟩
  have hlisted {u : ThreadId} : (∃ i, u ∈ woken ls f k i) ↔ ∃ i, u ∈ ls i := mem_woken_iff
  refine h.moved hw.queued (fun _ hu => update_of_ne hu _ _) ?_ (by simp [System.return, System.setPhase]) ?_
    (fun _ _ => hlisted) (woken_sublist f · k) h.table rfl nofun rfl rfl ?_
  · intro i hm
    obtain ⟨j, hj⟩ := hlisted.mp ⟨i, hm⟩
    exact h.off t (by simp [ht]) j hj
  · intro u g hs
    obtain ⟨hout, hold⟩ := hasleep hs
    have hm := h.blocked u g hold
    refine ⟨?_, hold, h.live u g hold⟩
    by_cases hg : g = f
    · subst hg
      rw [← List.take_append_drop k (ls (.rendez g))] at hm
      simpa [woken] using (List.mem_append.mp hm).resolve_left hout
    · simpa [woken, hg] using hm
  · intro u hu
    by_cases hm : u ∈ (ls (.rendez f)).take k
    · exact (hw.woken u hm).1
    have hu : u ∈ ls .bkl := by simpa [woken, hm] using hu
    have hsame := hw.other u hm
    simp only [System.return, System.setPhase, unlockFutexTable]
    rw [hsame]
    exact h.bklBlocked u hu

theorem Inv.free (htab : tab.Inv)
    (hkept : ∀ u g, Asleep x u g → g ∈ tab.futexList (x.proc u)) (hsame : tab.futex = x.table.futex)
    (hq : q = .user ∨ q = .dead) : Inv ((unlockFutexTable { x with table := tab }).setPhase t q) ls := by
  refine h.moved h.queued (fun _ hu => update_of_ne hu _ _) (h.off t (by simp [ht])) ?_
    (fun u g hs => ⟨h.blocked u g hs, hs, hkept u g hs⟩) (fun _ _ => .rfl) (fun _ => .refl _) htab hsame nofun rfl rfl
    h.bklBlocked
  intro uaddr
  simp only [System.setPhase, update_self]
  rintro rfl
  simp at hq

end

section

variable (h : Inv x ls)
include h

protected theorem Inv.grant (hy : grant x = some y) : ∃ ls', Inv y ls' := by
  unfold grant at hy
  cases hhead : x.bkl.link.head .bkl with
  | none =>
    rw [hhead] at hy
    cases hy
  | some t =>
    rw [hhead] at hy
    cases hy
    obtain ⟨rest, hbkl⟩ : ∃ rest, ls .bkl = t :: rest := by
      rw [(h.queued.family.spells .bkl).head] at hhead
      exact List.head?_eq_some_iff.mp hhead
    have hmem : t ∈ ls .bkl := by simp [hbkl]
    have hnodup : (t :: rest).Nodup := hbkl ▸ (h.queued.family.spells .bkl).nodup
    have hout : ∀ i, t ∉ update ls .bkl rest i :=
      off_update (fun j hj hm => hj (h.queued.family.apart hm hmem)) (List.nodup_cons.mp hnodup).1
    let th : Thread := { x.bkl.thread t with phase := .kernel, state := .ready }
    have hasleep {u : ThreadId} {g : FutexId} (hs : (update x.bkl.thread t th u).state = .rendezBlocked ∧
        (update x.bkl.thread t th u).blockingRendez = some g) : u ≠ t ∧ Asleep x u g := by
      have hut : u ≠ t := by
        rintro rfl
        rw [update_self] at hs
        cases hs.1
      rw [update_of_ne hut] at hs
      exact ⟨hut, hs⟩
    have hmem' (u : ThreadId) (hut : u ≠ t) : u ∈ rest ↔ u ∈ ls .bkl := by simp [hbkl, hut]
    have hsub (f : FutexId) : (update ls .bkl rest (.rendez f)).Sublist (ls (.rendez f)) := .refl _
    refine ⟨update ls .bkl rest, h.moved ⟨family_remHead h.queued.family hbkl, ?_, h.queued.running⟩
      (fun _ hu => update_of_ne hu _ _) hout (by simp [System.return, System.setPhase])
      (fun u g hs => ⟨h.blocked u g (hasleep hs).2, (hasleep hs).2, h.live u g (hasleep hs).2⟩)
      (fun u hut => exists_congr (mem_update_iff (hmem' u hut))) hsub h.table rfl ?_ rfl rfl ?_⟩
    · intro r u hu
      have hut : u ≠ t := by
        rintro rfl
        exact hout _ hu
      have hsame : update x.bkl.thread t th u = x.bkl.thread u := update_of_ne hut _ _
      have hs := h.queued.sleeping r u hu
      rw [← hsame] at hs
      exact hs
    · intro u hu
      obtain ⟨call, hcall⟩ := h.holder u hu
      refine ⟨call, (update_of_ne ?_ _ _).trans hcall⟩
      rintro rfl
      exact h.off u (by simp [hcall]) .bkl hmem
    · intro u hu
      have hu : u ∈ rest := hu
      have hut : u ≠ t := by
        rintro rfl
        exact (List.nodup_cons.mp hnodup).1 hu
      have hsame : update x.bkl.thread t th u = x.bkl.thread u := update_of_ne hut _ _
      have hs := h.bklBlocked u (by simp [hbkl, hu])
      rw [← hsame] at hs
      exact hs

section

variable (ht : x.phase t = .holding call)
include ht

theorem Inv.futexWait {timeout : Option Bool}
    (hpool : missing x.table (x.proc t) [uaddr] ≤ x.table.freeFutexList.length) :
    ∃ ls', Inv (sysFutexWait x t uaddr val timeout) ls' := by
  unfold sysFutexWait
  cases x.memory (x.proc t) uaddr with
  | none => exact ⟨ls, h.release ht _⟩
  | some cval =>
    simp only
    split_ifs
    · exact ⟨ls, h.release ht _⟩
    · exact ⟨ls, h.release ht _⟩
    · obtain ⟨hinv, hfetch, -⟩ := h.futexGet (x.proc t) uaddr
      generalize futexGet x (x.proc t) uaddr = got at hinv hfetch ⊢
      obtain ⟨y, got⟩ := got
      have hphase : y.phase t = .holding call := hfetch.phase ▸ ht
      have hproc : y.proc = x.proc := hfetch.proc
      cases got with
      | null => exact ⟨ls, hinv.release hphase _⟩
      | exhausted =>
        obtain ⟨hal, hnone, hfree⟩ := hfetch.exhausted rfl
        have hpos := missing_pos (List.mem_singleton_self uaddr) hal hnone
        rw [hfree, List.length_nil] at hpool
        omega
      | futex f =>
        obtain ⟨hmem, hword⟩ := hfetch.found f rfl
        rw [← hproc] at hmem
        exact ⟨_, hinv.sleep hphase hmem hword⟩

theorem Inv.requeueThreads {f2 : Option FutexId}
    (hcond : f2 = none ∨ m = 0 ∨ (ls (.rendez f)).length ≤ min n.toNat (n + m).toNat) :
    ∃ ls', Inv (requeueThreads x t f n f2 m) ls' := by
  obtain ⟨j, hw⟩ := futexRequeue_wakes h.queued hcond
  exact ⟨_, h.wake ht hw _⟩

theorem Inv.futexRequeue (hcare : CallCareful x (x.proc t) (.requeue uaddr n uaddr2 m)) :
    ∃ ls', Inv (sysFutexRequeue x t uaddr n uaddr2 m) ls' := by
  obtain ⟨hpool, hmoves⟩ := hcare
  obtain ⟨hinv, hfetch, hfirst⟩ := h.futexGet (x.proc t) uaddr
  unfold sysFutexRequeue
  generalize futexGet x (x.proc t) uaddr = got at hinv hfetch hfirst ⊢
  obtain ⟨y, got⟩ := got
  have hphase : y.phase t = .holding call := hfetch.phase ▸ ht
  have hproc : y.proc = x.proc := hfetch.proc
  cases got with
  | null => exact ⟨ls, hinv.release hphase _⟩
  | exhausted =>
    obtain ⟨hal, hnone, hfree⟩ := hfetch.exhausted rfl
    have hword : uaddr ∈ if uaddr2 = 0 then [uaddr] else [uaddr, uaddr2] := by split_ifs <;> simp
    have hpos := missing_pos hword hal hnone
    rw [hfree, List.length_nil] at hpool
    omega
  | futex f =>
    have hlen : uaddr2 = 0 ∨ m = 0 ∨ (ls (.rendez f)).length ≤ min n.toNat (n + m).toNat := by
      rcases hmoves with hzero | hzero | hmoves
      · exact .inl hzero
      · exact .inr (.inl hzero)
      · rcases hfirst f rfl with hfound | hempty
        · exact .inr (.inr (hmoves f ls hfound h.queued))
        · simp [hempty]
    simp only
    split_ifs with hzero
    · exact hinv.requeueThreads hphase (.inl rfl)
    have hlen := hlen.resolve_left hzero
    obtain ⟨hinv2, hfetch2, -⟩ := hinv.futexGet (y.proc t) uaddr2
    generalize futexGet y (y.proc t) uaddr2 = got2 at hinv2 hfetch2 ⊢
    obtain ⟨z, got2⟩ := got2
    have hphase2 : z.phase t = .holding call := hfetch2.phase ▸ hphase
    cases got2 with
    | null => exact ⟨ls, hinv2.release hphase2 _⟩
    | futex f2 => exact hinv2.requeueThreads hphase2 (.inr hlen)
    | exhausted =>
      -- The first word took at most the futex counted for it, so one is left for the second.
      obtain ⟨hal, hnone, hfree⟩ := hfetch2.exhausted rfl
      have hnone : futexFind x.table (x.proc t) uaddr2 = none := by
        rw [hproc] at hnone
        cases hfind : futexFind x.table (x.proc t) uaddr2 with
        | none => rfl
        | some g =>
          obtain ⟨hmem, hword⟩ := h.table.find_some hfind
          obtain ⟨hgrown, hsame⟩ := hfetch.grows _ g hmem
          rw [hinv.table.find_of_mem hgrown (by rw [hsame]; exact hword)] at hnone
          cases hnone
      have hpos := missing_pos (List.mem_singleton_self uaddr2) hal hnone
      have hsum : missing x.table (x.proc t) [uaddr, uaddr2] =
          missing x.table (x.proc t) [uaddr] + missing x.table (x.proc t) [uaddr2] := by
        simp only [missing, ← List.countP_append]
        rfl
      have hleft := hfetch.pool
      rw [if_neg hzero] at hpool
      rw [hfree, List.length_nil] at hleft
      omega

protected theorem Inv.perform (hcare : CallCareful x (x.proc t) call) : ∃ ls', Inv (perform x t call) ls' := by
  cases call with
  | destroy uaddr =>
    simp only [perform, sysFutexDestroy]
    split_ifs with hal
    · exact ⟨ls, h.release ht _⟩
    cases hfind : futexFind x.table (x.proc t) uaddr with
    | none => exact ⟨ls, h.release ht _⟩
    | some f =>
      obtain ⟨hmem, -⟩ := h.table.find_some hfind
      refine ⟨ls, (h.free ht (h.table.futexFree hmem) ?_ rfl (.inl rfl)).frame _ _ _⟩
      intro u g hs
      refine (mem_update_erase (h.table.listNodup _)).mpr ⟨h.live u g hs, ?_⟩
      rintro ⟨rfl, -⟩
      exact hcare g hfind u hs
  | wait uaddr val timeout => exact h.futexWait ht hcare
  | requeue uaddr n uaddr2 m => exact h.futexRequeue ht hcare
  | fini exec =>
    obtain ⟨htab, hother, hsame, -⟩ := h.table.doCleanupFutexes (x.proc t)
    have hkept : ∀ u g, Asleep x u g → g ∈ (doCleanupFutexes x.table (x.proc t)).futexList (x.proc u) := by
      intro u g hs
      rw [hother (x.proc u) fun hu => hcare u g hu hs]
      exact h.live u g hs
    simp only [perform, finiFutexes]
    split_ifs
    · exact ⟨ls, h.free ht htab hkept hsame (.inl rfl)⟩
    · exact ⟨ls, h.free ht htab hkept hsame (.inr rfl)⟩

end

section

variable (hold : ∀ uaddr, x.phase t ≠ .sleeping uaddr)
include hold

section

variable (hfree : ∀ call, x.phase t ≠ .holding call)
include hfree

theorem Inv.setPhase (hnew : ∀ uaddr, q ≠ .sleeping uaddr) : Inv (x.setPhase t q) ls := by
  refine h.move rfl rfl (fun _ _ => rfl) (fun _ hu => update_of_ne hu _ _) hold ?_ ?_ rfl rfl
  · simpa [System.setPhase] using hnew
  intro u hu
  obtain ⟨call, hcall⟩ := h.holder u hu
  refine ⟨call, (update_of_ne ?_ _ _).trans hcall⟩
  rintro rfl
  exact hfree call hcall

theorem Inv.sysExit : Inv (sysExit x t) ls := by
  unfold Futexes.sysExit
  split_ifs
  · exact h.setPhase hold hfree (by simp)
  · exact (h.setPhase hold hfree (by simp)).frame _ _ _

theorem Inv.doExec : Inv (doExec x t) ls := by
  unfold Futexes.doExec
  split_ifs
  · exact h.setPhase hold hfree (by simp)
  · exact (h.setPhase hold hfree (by simp)).frame _ _ _

end

end

protected theorem Inv.go (hcare : ∀ call, x.phase t = .holding call → CallCareful x (x.proc t) call)
    (hy : go x t = some y) : ∃ ls', Inv y ls' := by
  unfold go at hy
  generalize hp : x.phase t = ph at hy
  cases ph with
  | user | sleeping uaddr | dead => cases hy
  | locking call =>
    obtain ⟨-, rfl⟩ := guarded hy
    refine ⟨ls, h.move rfl rfl (fun _ _ => rfl) (fun _ hu => update_of_ne hu _ _) (by simp [hp]) ?_ ?_
      rfl rfl⟩
    · simp [System.setPhase]
    · intro u hu
      cases hu
      exact ⟨call, update_self ..⟩
  | holding call =>
    cases hy
    exact h.perform hp (hcare call hp)
  | killing exec =>
    cases exec with
    | false =>
      cases hy
      exact ⟨ls, h.setPhase (by simp [hp]) (by simp [hp]) (by simp)⟩
    | true =>
      cases hy
      exact ⟨ls, (h.setPhase (by simp [hp]) (by simp [hp]) (by simp)).frame _ _ _⟩

end

theorem Phase.isUser_iff : q.isUser = true ↔ q = .user := by
  cases q <;> simp [Phase.isUser]

theorem Phase.isDead_iff : q.isDead = true ↔ q = .dead := by
  cases q <;> simp [Phase.isDead]

theorem Inv.enter (h : Inv x ls) (hp : x.phase t = .user) (hy : enter x t call = some y) : Inv y ls := by
  have hlock (c : Call) : Inv (x.setPhase t (.locking c)) ls := h.setPhase (by simp [hp]) (by simp [hp]) (by simp)
  unfold Futexes.enter at hy
  cases call with
  | fini exec => cases hy
  | destroy uaddr | wait uaddr val timeout =>
    cases hy
    exact hlock _
  | requeue uaddr n uaddr2 m =>
    simp only at hy
    split_ifs at hy
    · cases hy
      exact (h.setPhase (by simp [hp]) (by simp [hp]) (by simp)).frame _ _ _
    · cases hy
      exact hlock _

protected theorem Inv.step {a : Action} (h : Inv x ls) (hcare : Careful x a) (hy : step x a = some y) : ∃ ls', Inv y ls' := by
  have hrun : x.bkl.panicked = false := h.queued.running
  simp only [step, hrun, Bool.false_eq_true, ↓reduceIte] at hy
  cases a with
  | create t p =>
    obtain ⟨hdead, rfl⟩ := guarded hy
    have hdead := Phase.isDead_iff.mp hdead
    refine ⟨ls, h.move rfl rfl (fun _ hu => update_of_ne hu _ _)
      (fun _ hu => update_of_ne hu _ _) (by simp [hdead]) ?_ ?_ rfl rfl⟩
    · simp [System.setPhase]
    · exact (h.setPhase (by simp [hdead]) (by simp [hdead]) (by simp)).holder
  | store p uaddr val =>
    cases hy
    exact ⟨ls, h.frame _ _ _⟩
  | call t call =>
    simp only at hy
    split_ifs at hy with huser
    exact ⟨ls, h.enter (Phase.isUser_iff.mp huser) hy⟩
  | exit t =>
    obtain ⟨huser, rfl⟩ := guarded hy
    have huser := Phase.isUser_iff.mp huser
    exact ⟨ls, h.sysExit (by simp [huser]) (by simp [huser])⟩
  | exec t =>
    obtain ⟨huser, rfl⟩ := guarded hy
    have huser := Phase.isUser_iff.mp huser
    exact ⟨ls, h.doExec (by simp [huser]) (by simp [huser])⟩
  | die t =>
    obtain ⟨huser, rfl⟩ := guarded hy
    have huser := Phase.isUser_iff.mp huser
    exact ⟨ls, h.setPhase (by simp [huser]) (by simp [huser]) (by simp)⟩
  | go t => exact h.go hcare hy
  | fail t =>
    simp only at hy
    split at hy <;> cases hy
    next hp => exact ⟨ls, (h.frame _ _ _).sysExit (by simp [hp]) (by simp [hp])⟩
  | grant => exact h.grant hy

theorem Start.inv (h : Start x) : Inv x fun _ => [] := by
  have hawake : ∀ t f, ¬ Asleep x t f := by
    rintro t f ⟨hs, -⟩
    rw [h.ready t] at hs
    cases hs
  have hempty : Family x.bkl.link fun _ => [] := by
    rw [h.link]
    exact Family.empty
  have htable : x.table.Inv := Table.Fresh.inv ⟨rfl, h.free, h.futexList, h.futexHashTable⟩
  refine ⟨⟨hempty, by simp, h.running⟩, fun t f hs => absurd hs (hawake t f), by simp, htable,
    fun t f hs => absurd hs (hawake t f), fun t f _ hs => absurd hs (hawake t f), by simp [h.holder], by simp, by simp,
    ?_, by simp⟩
  intro t uaddr ht
  rcases h.phase t with hp | hp
  · rw [hp] at ht
    cases ht
  · rw [hp] at ht
    cases ht

theorem Reach.inv {cond : System → Action → Prop} (hcond : ∀ x a, cond x a → Careful x a) (h : Reach step cond Start x) :
    ∃ ls, Inv x ls := by
  refine Reach.invariant (P := fun x => ∃ ls, Inv x ls) (fun x hx => ⟨_, hx.inv⟩) ?_ h
  rintro x a y ⟨ls, hinv⟩ ha hy
  exact hinv.step (hcond x a ha) hy

theorem Inv.noOrphan (h : Inv x ls) : NoOrphan x := by
  refine ⟨fun t f hs => ⟨ls, h.queued, h.blocked t f hs⟩, ?_, ?_⟩
  · intro t f hs
    have hlive := h.live t f hs
    obtain ⟨-, hhash, hmem⟩ := h.table.owned _ f hlive
    exact ⟨hlive, hhash ▸ hmem⟩
  · exact fun t call hp => h.holder_ne (by simp [hp])

theorem no_orphan_of_reach (x : System) (h : Reach step Careful Start x) : NoOrphan x := by
  obtain ⟨ls, hinv⟩ := Reach.inv (fun _ _ ha => ha) h
  exact hinv.noOrphan

def twoThreads (free : List FutexId) : System where
  bkl := { boot with thread := fun _ => ⟨.kernel, .ready, none, 0, none⟩ }
  table := ⟨fun _ => ⟨0, 0, 0⟩, free, fun _ => [], fun _ => []⟩
  holder := none
  proc := fun _ => 1
  phase := fun _ => .user
  exitInProgress := fun _ => false
  memory := fun _ _ => some 0
  ret := fun _ => none
  clock := 0
  ticket := fun _ => 0

theorem twoThreads_start {free : List FutexId} (h : free.Nodup) : Start (twoThreads free) :=
  ⟨rfl, fun _ => rfl, rfl, h, fun _ => rfl, fun _ => rfl, rfl, fun _ => .inl rfl⟩

theorem sleeper_kept : ∃ x, Reach step Careful Start x ∧ Asleep x 0 0 ∧ NoOrphan x := by
  have h0 : Reach step Careful Start (twoThreads [0]) := .start (twoThreads_start (by decide))
  have h1 := Reach.next (a := Action.call 0 (.wait 4 0 none)) h0 trivial rfl
  have h2 := Reach.next (a := Action.go 0) h1 (by rintro call ⟨⟩) rfl
  have h3 := Reach.next (a := Action.go 0) h2
    (by
      rintro call ⟨⟩
      change missing _ _ _ ≤ _
      decide) rfl
  exact ⟨_, h3, ⟨rfl, rfl⟩, no_orphan_of_reach _ h3⟩

def destroyRun : List Action := [.call 0 (.wait 4 0 none), .go 0, .go 0, .call 1 (.destroy 4), .go 1, .go 1]

def exhaustedRun : List Action := [.call 0 (.wait 4 0 none), .go 0, .go 0, .go 0]

theorem sleeper_orphaned :
    (∃ x, Reach step always Start x ∧ Asleep x 0 0 ∧ x.proc 0 = 1 ∧ x.table.futexList 1 = [] ∧ ¬ NoOrphan x) ∧
      ∃ x, Reach step always Start x ∧ x.phase 0 = .locking (.fini false) ∧ x.holder = some 0 ∧ ¬ NoOrphan x := by
  constructor
  · have h0 : Reach step always Start (twoThreads [0]) := .start (twoThreads_start (by decide))
    have h := h0.exec (meets_always _ destroyRun) rfl
    refine ⟨_, h, ⟨rfl, rfl⟩, rfl, rfl, fun hno => ?_⟩
    have hmem := (hno.owned 0 0 ⟨rfl, rfl⟩).1
    exact absurd hmem (by decide)
  · have h0 : Reach step always Start (twoThreads []) := .start (twoThreads_start (by decide))
    have h := h0.exec (meets_always _ exhaustedRun) rfl
    exact ⟨_, h, rfl, rfl, fun hno => hno.relock 0 _ rfl rfl⟩

end Invariant

end CheviotKernel.Futexes
