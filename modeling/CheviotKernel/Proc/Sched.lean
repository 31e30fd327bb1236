import CheviotKernel.Include.Lists
import CheviotKernel.Library.Runs

namespace CheviotKernel.Sched

open Function Circular CheviotKernel.Lists Runs

abbrev Tid := Nat

inductive Policy
  | rr
  | fifo
  | other
  | idle
  deriving DecidableEq

structure Thread where
  schedPolicy : Policy
  priority : Nat
  desiredPriority : Nat
  quantaUsed : Nat
  deriving DecidableEq

structure State where
  thread : Tid → Thread
  ready : Tid → Bool
  schedQueue : Loop Nat Tid
  schedQueueBitmap : BitVec 32
  currentThread : Option Tid
  idleThread : Tid
  panicked : Bool

def schedQuantaJiffies : Nat := 5

section

variable (s : State)

def State.setThread (t : Tid) (th : Thread) : State :=
  { s with thread := update s.thread t th }

def State.setReady (t : Tid) (b : Bool) : State := { s with ready := update s.ready t b }

def State.setQuanta (t : Tid) (n : Nat) : State :=
  s.setThread t { s.thread t with quantaUsed := n }

def enqueue (t : Tid) : State :=
  let q := (s.thread t).priority
  { s with
    schedQueue := circleqAddTail s.schedQueue q t
    schedQueueBitmap := s.schedQueueBitmap ||| (1#32 <<< q) }

def dequeue (t : Tid) : State :=
  let q := (s.thread t).priority
  let Q := circleqRemEntry s.schedQueue q t
  { s with
    schedQueue := Q
    schedQueueBitmap :=
      if Q.head q = none then s.schedQueueBitmap &&& ~~~(1#32 <<< q) else s.schedQueueBitmap }

def schedReady (t : Tid) : State :=
  let s := s.setReady t true
  match (s.thread t).schedPolicy with
  | .rr => (enqueue s t).setQuanta t 0
  | .fifo => (enqueue s t).setQuanta t 0
  | .other => (enqueue s t).setQuanta t 0
  | .idle => s.setQuanta t 0

def schedUnready (t : Tid) : State :=
  let s := s.setReady t false
  match (s.thread t).schedPolicy with
  | .rr => (dequeue s t).setQuanta t 0
  | .fifo => (dequeue s t).setQuanta t 0
  | .other =>
    let s := dequeue s t
    s.setThread t { s.thread t with priority := (s.thread t).desiredPriority, quantaUsed := 0 }
  | .idle => s

def demote (c : Tid) : State :=
  let q := (s.thread c).priority
  { s with schedQueue := circleqAddTail (circleqRemHead s.schedQueue q) (q - 1) c }.setThread c
    { s.thread c with priority := q - 1 }

def forward (c : Tid) : State :=
  { s with schedQueue := circleqForward s.schedQueue (s.thread c).priority }

def charge (c : Tid) : State :=
  let th := s.thread c
  let s := s.setQuanta c (th.quantaUsed + 1)
  match th.schedPolicy with
  | .rr =>
    if ¬ (16 ≤ th.priority ∧ th.priority < 32) then { s with panicked := true }
    else if s.schedQueue.head th.priority ≠ none then (forward s c).setQuanta c 0
    else s
  | .other =>
    if th.quantaUsed + 1 = schedQuantaJiffies then
      (if th.priority > 1 then demote s c else forward s c).setQuanta c 0
    else s
  | _ => s

def highestBit (b : BitVec 32) : Nat → Option Nat
  | 0 => none
  | q + 1 => if b.getLsbD q then some q else highestBit b q

def pickNext : Tid :=
  if s.schedQueueBitmap ≠ 0 then
    match highestBit s.schedQueueBitmap 32 with
    | some q => (s.schedQueue.head q).getD s.idleThread
    | none => s.idleThread
  else s.idleThread

def chargeCurrent : State :=
  match s.currentThread with
  | some c => charge s c
  | none => s

def reschedule : State :=
  let s := chargeCurrent s
  { s with currentThread := some (pickNext s) }

def initSchedparams (t : Tid) (policy : Policy) (priority : Int) : State :=
  let priority := (min (max priority 0) 31).toNat
  match policy with
  | .rr => let q := if priority ≥ 16 then priority else 16; s.setThread t ⟨.rr, q, q, 0⟩
  | .fifo => let q := if priority ≥ 16 then priority else 16; s.setThread t ⟨.fifo, q, q, 0⟩
  | .other => let q := if priority < 16 then priority else 0; s.setThread t ⟨.other, q, q, 0⟩
  | .idle => s.setThread t ⟨.idle, 0, 0, 0⟩

def dupSchedparams (t old : Tid) : State := s.setThread t { s.thread old with quantaUsed := 0 }

def assignSchedparams (c : Tid) (policy : Policy) (priority : Nat) : State :=
  s.setThread c { s.thread c with
    schedPolicy := policy, desiredPriority := priority, priority := priority }

def changeSchedparams (c : Tid) (policy : Policy) (priority : Nat) : State :=
  reschedule (schedReady (assignSchedparams (schedUnready s c) c policy priority) c)

inductive Errno
  | eperm
  | einval
  deriving DecidableEq

def checkSchedparams (privileged : Bool) (policy : Policy) (priority : Int) : Except Errno Unit :=
  match policy with
  | .rr => if ¬ privileged then .error .eperm else if priority < 16 ∨ priority > 31 then .error .einval else .ok ()
  | .fifo => if ¬ privileged then .error .eperm else if priority < 16 ∨ priority > 31 then .error .einval else .ok ()
  | .other => if priority < 0 ∨ priority > 15 then .error .einval else .ok ()
  | .idle => .error .einval

def sysThreadSetschedparams (c : Tid) (privileged : Bool) (policy : Policy) (priority : Int) :
    State × Except Errno Unit :=
  match checkSchedparams privileged policy priority with
  | .ok () => (changeSchedparams s c policy priority.toNat, .ok ())
  | .error e => (s, .error e)

def timerTopHalf : State :=
  match s.currentThread with
  | some c => s.setQuanta c ((s.thread c).quantaUsed + 1)
  | none => s

inductive Action
  | initSchedparams (t : Tid) (policy : Policy) (priority : Int)
  | dupSchedparams (t old : Tid)
  | schedReady (t : Tid)
  | schedUnready
  | reschedule
  | setschedparams (privileged : Bool) (policy : Policy) (priority : Int)
  | timerTopHalf

def Outside (t : Tid) : Prop := s.ready t = false ∧ s.currentThread ≠ some t ∧ t ≠ s.idleThread
  deriving Decidable

def Running (c : Tid) : Prop := s.currentThread = some c ∧ s.ready c = true ∧ c ≠ s.idleThread
  deriving Decidable

def InterruptsOn : Prop := ∀ c ∈ s.currentThread, s.ready c = true ∨ c = s.idleThread
  deriving Decidable

def step : Action → Option State
  | .initSchedparams t policy priority =>
    if Outside s t then some (initSchedparams s t policy priority) else none
  | .dupSchedparams t old => if Outside s t then some (dupSchedparams s t old) else none
  | .schedReady t => if Outside s t then some (Sched.schedReady s t) else none
  | .schedUnready =>
    match s.currentThread with
    | some c => if Running s c then some (schedUnready s c) else none
    | none => none
  | .reschedule => some (reschedule s)
  | .setschedparams privileged policy priority =>
    match s.currentThread with
    | some c =>
      if Running s c then some (sysThreadSetschedparams s c privileged policy priority).1 else none
    | none => none
  | .timerTopHalf => if InterruptsOn s then some (timerTopHalf s) else none

def Booted : Prop :=
  (∀ q, s.schedQueue.head q = none) ∧ s.schedQueueBitmap = 0 ∧ (∀ t, s.ready t = false) ∧
  (∀ t, s.thread t = if t = s.idleThread then ⟨.idle, 0, 0, 0⟩ else ⟨.other, 0, 0, 0⟩) ∧
  s.currentThread = none ∧ s.panicked = false

end

section

variable {Q : Loop Nat Tid} {b : BitVec 32} {ls ls' : Nat → List Tid} {p q n priority : Nat} {x c a : Tid}
  {pre post rest : List Tid} {s t : State} {th : Thread} {policy : Policy}

structure Queues (Q : Loop Nat Tid) (b : BitVec 32) (ls : Nat → List Tid) : Prop where
  loops : Loops Q ls
  bits : ∀ q, q < 32 → (b.getLsbD q = true ↔ ls q ≠ [])

theorem getLsbD_set (b : BitVec 32) (hq : q < 32) : (b ||| 1#32 <<< p).getLsbD q = (b.getLsbD q || decide (q = p)) := by
  simp only [BitVec.getLsbD_or, BitVec.getLsbD_shiftLeft, hq]
  by_cases h : q = p
  · simp [h]
  rcases Nat.lt_or_gt_of_ne h with h' | h'
  · simp [h, h']
  · have hsub : ¬ q - p = 0 := by omega
    simp [h, hsub]

theorem getLsbD_clear (b : BitVec 32) (hq : q < 32) :
    (b &&& ~~~(1#32 <<< p)).getLsbD q = (b.getLsbD q && !decide (q = p)) := by
  have hs : (1#32 <<< p).getLsbD q = decide (q = p) := by
    have := getLsbD_set (p := p) 0#32 hq
    simpa using this
  simp only [BitVec.getLsbD_and, BitVec.getLsbD_not, hs, hq, decide_true, Bool.true_and]

theorem mem_append_update (ls : Nat → List Tid) (p : Nat) (x : Tid) (t : Tid) (q : Nat) :
    t ∈ update ls p (ls p ++ [x]) q ↔ t ∈ ls q ∨ (t = x ∧ q = p) := by
  by_cases hq : q = p
  · subst hq
    simp
  · simp [hq]

theorem mem_tail_update (h : Loops Q ls) (hi : ls p = x :: rest) : a ∈ update ls p rest q ↔ a ≠ x ∧ a ∈ ls q :=
  mem_update_remove h.apart (h.cyclic p).nodup (show ls p = [] ++ x :: rest from hi)

theorem highestBit_some (h : highestBit b n = some q) :
    q < n ∧ b.getLsbD q = true ∧ ∀ r, q < r → r < n → b.getLsbD r = false := by
  induction n with
  | zero => simp [highestBit] at h
  | succ n ih =>
    unfold highestBit at h
    split_ifs at h with hb
    · cases h
      exact ⟨by omega, hb, fun r hr hn => absurd hr (by omega)⟩
    obtain ⟨hq, hbit, hr⟩ := ih h
    refine ⟨by omega, hbit, fun r hqr hrn => ?_⟩
    by_cases hrn' : r = n
    · rw [hrn']
      exact Bool.not_eq_true _ ▸ hb
    · exact hr r hqr (by omega)

theorem highestBit_none (h : highestBit b n = none) : ∀ r, r < n → b.getLsbD r = false := by
  induction n with
  | zero => intro r hr; omega
  | succ n ih =>
    unfold highestBit at h
    split_ifs at h with hb
    intro r hr
    by_cases hrn : r = n
    · rw [hrn]
      exact Bool.not_eq_true _ ▸ hb
    · exact ih h r (by omega)

namespace Queues

variable (h : Queues Q b ls)
include h

theorem enqueue (hx : ∀ j, x ∉ ls j) :
    Queues (circleqAddTail Q p x) (b ||| 1#32 <<< p) (update ls p (ls p ++ [x])) := by
  refine ⟨loops_addTail h.loops hx, ?_⟩
  intro q hq
  rw [getLsbD_set b hq]
  by_cases hqp : q = p
  · subst hqp
    simp
  · simp [hqp, h.bits q hq]

theorem dequeue (hi : ls p = pre ++ x :: post) :
    Queues (circleqRemEntry Q p x)
      (if (circleqRemEntry Q p x).head p = none then b &&& ~~~(1#32 <<< p) else b)
      (update ls p (pre ++ post)) := by
  have hl := loops_remEntry h.loops hi
  have hhead : (circleqRemEntry Q p x).head p = (pre ++ post).head? := by simpa using hl.head p
  refine ⟨hl, ?_⟩
  intro q hq
  by_cases hqp : q = p
  · subst hqp
    rw [hhead]
    cases hpp : pre ++ post with
    | nil => simp
    | cons a rest => simp [h.bits q hq, hi]
  · rw [update_of_ne hqp, ← h.bits q hq]
    split_ifs
    · simp [getLsbD_clear b hq, hqp]
    · rfl

theorem forward {t : List Tid} (hi : ls p = x :: t) :
    Queues (circleqForward Q p) b (update ls p (t ++ [x])) := by
  refine ⟨loops_forward h.loops hi, ?_⟩
  intro q hq
  by_cases hqp : q = p
  · subst hqp
    simp [h.bits q hq, hi]
  · rw [update_of_ne hqp, h.bits q hq]

theorem demote (hi : ls (p + 1) = x :: rest) (hrest : rest ≠ []) (hlow : ls p ≠ []) :
    Queues (circleqAddTail (circleqRemHead Q (p + 1)) p x) b
      (update (update ls (p + 1) rest) p (ls p ++ [x])) := by
  have hrem := loops_remHead h.loops hi
  have hadd := loops_addTail (i := p) hrem fun _ hm => ((mem_tail_update h.loops hi).mp hm).1 rfl
  rw [update_of_ne (show p ≠ p + 1 by omega)] at hadd
  refine ⟨hadd, ?_⟩
  intro q hq
  rw [h.bits q hq]
  by_cases hqp : q = p
  · subst hqp
    simp [hlow]
  rw [update_of_ne hqp]
  by_cases hqs : q = p + 1
  · subst hqs
    simp [hi, hrest]
  · rw [update_of_ne hqs]

end Queues

structure Thread.Ok (th : Thread) : Prop where
  priority : th.priority < 32
  desired : th.desiredPriority < 32
  rr : th.schedPolicy = .rr → 16 ≤ th.priority

def Queued (s : State) (t : Tid) (q : Nat) : Prop :=
  s.ready t = true ∧ (s.thread t).schedPolicy ≠ .idle ∧ (s.thread t).priority = q

structure Core (s : State) (ls : Nat → List Tid) : Prop where
  queues : Queues s.schedQueue s.schedQueueBitmap ls
  placed : ∀ t q, t ∈ ls q ↔ Queued s t q
  params : ∀ t, (s.thread t).Ok
  idle : (s.thread s.idleThread).schedPolicy = .idle
  running : s.panicked = false

theorem schedReady_queued (hp : (s.thread x).schedPolicy ≠ .idle) :
    schedReady s x = (enqueue (s.setReady x true) x).setQuanta x 0 := by
  cases hpol : (s.thread x).schedPolicy with
  | idle => exact absurd hpol hp
  | rr | fifo | other => simp [schedReady, State.setReady, hpol]

def AtHead (s : State) (ls : Nat → List Tid) (c : Tid) : Prop :=
  s.ready c = true ∧ (s.thread c).schedPolicy ≠ .idle ∧ (ls (s.thread c).priority).head? = some c

def Demotes (s : State) (c : Tid) : Prop :=
  (s.thread c).schedPolicy = .other ∧ (s.thread c).quantaUsed + 1 = schedQuantaJiffies ∧ (s.thread c).priority > 1
  deriving Decidable

def BitsHold (s : State) (c : Tid) : Prop :=
  Demotes s c → (∃ h ∈ s.schedQueue.head (s.thread c).priority, s.schedQueue.next h ≠ h) ∧
    s.schedQueue.head ((s.thread c).priority - 1) ≠ none
  deriving Decidable

structure Inv (s : State) (ls : Nat → List Tid) : Prop where
  core : Core s ls
  current : ∀ c ∈ s.currentThread, c = s.idleThread ∨ AtHead s ls c ∨
    (s.ready c = false ∧ (s.thread c).quantaUsed = 0)

def Picks (s : State) : Prop :=
  (∃ q c, q < 32 ∧ s.currentThread = some c ∧ s.schedQueue.head q = some c ∧
    ∀ r, q < r → r < 32 → s.schedQueue.head r = none) ∨
  (s.currentThread = some s.idleThread ∧ ∀ q, q < 32 → s.schedQueue.head q = none)

theorem Inv.aside (h : Inv s ls) (hcore : Core t ls') (hx : s.currentThread ≠ some x)
    (hcur : t.currentThread = s.currentThread) (hidle : t.idleThread = s.idleThread)
    (hth : ∀ c, c ≠ x → t.thread c = s.thread c) (hready : ∀ c, c ≠ x → t.ready c = s.ready c)
    (hhead : ∀ q c, (ls q).head? = some c → (ls' q).head? = some c) : Inv t ls' := by
  refine ⟨hcore, ?_⟩
  intro c hc
  rw [hcur] at hc
  have hne : c ≠ x := by
    rintro rfl
    exact hx hc
  rcases h.current c hc with hi | ⟨hr, hp, hh⟩ | ⟨hr, hq⟩
  · exact .inl (by rw [hidle, hi])
  · refine .inr (.inl ⟨by rw [hready c hne, hr], by rw [hth c hne]; exact hp, ?_⟩)
    rw [hth c hne]
    exact hhead _ _ hh
  · exact .inr (.inr ⟨by rw [hready c hne, hr], by rw [hth c hne, hq]⟩)

theorem initSchedparams_ok (s : State) (x : Tid) (policy : Policy) (priority : Int) :
    ∃ th : Thread, th.Ok ∧ initSchedparams s x policy priority = s.setThread x th := by
  cases policy with
  | rr | fifo =>
    refine ⟨_, ⟨?_, ?_, ?_⟩, rfl⟩ <;> dsimp only <;> split_ifs <;> omega
  | other =>
    refine ⟨_, ⟨?_, ?_, ?_⟩, rfl⟩
    · dsimp only
      split_ifs <;> omega
    · dsimp only
      split_ifs <;> omega
    · simp
  | idle => exact ⟨⟨.idle, 0, 0, 0⟩, ⟨by decide, by decide, by decide⟩, rfl⟩

theorem schedReady_other (s : State) (x : Tid) :
    (schedReady s x).currentThread = s.currentThread ∧ (schedReady s x).idleThread = s.idleThread ∧
    (∀ c, c ≠ x → (schedReady s x).thread c = s.thread c) ∧ (∀ c, c ≠ x → (schedReady s x).ready c = s.ready c) := by
  unfold schedReady
  simp only [State.setReady]
  cases (s.thread x).schedPolicy <;>
    refine ⟨rfl, rfl, fun c hc => ?_, fun c hc => ?_⟩ <;>
    simp [enqueue, State.setQuanta, State.setThread, hc]

theorem schedUnready_self (s : State) (c : Tid) (hp : (s.thread c).schedPolicy ≠ .idle) :
    (schedUnready s c).currentThread = s.currentThread ∧ (schedUnready s c).idleThread = s.idleThread ∧
    (schedUnready s c).ready c = false ∧ ((schedUnready s c).thread c).quantaUsed = 0 := by
  cases hpol : (s.thread c).schedPolicy with
  | idle => exact absurd hpol hp
  | rr | fifo | other =>
    simp [schedUnready, State.setReady, hpol, dequeue, State.setQuanta, State.setThread]

theorem Inv.atHead (h : Inv s ls) (hr : Running s c) : AtHead s ls c := by
  rcases h.current c hr.1 with hi | hh | ⟨hr', -⟩
  · exact absurd hi hr.2.2
  · exact hh
  · rw [hr.2.1] at hr'
    cases hr'

theorem schedReady_quanta (s : State) (c : Tid) : ((schedReady s c).thread c).quantaUsed = 0 := by
  unfold schedReady
  simp only [State.setReady]
  cases (s.thread c).schedPolicy <;> simp [State.setQuanta, State.setThread]

theorem not_demotes_of_quanta (hq : (s.thread c).quantaUsed = 0) : BitsHold s c := by
  intro hd
  have hfull := hd.2.1
  rw [hq] at hfull
  cases hfull

theorem checkSchedparams_ok {privileged : Bool} {priority : Int}
    (h : checkSchedparams privileged policy priority = .ok ()) :
    priority.toNat < 32 ∧ (policy = .rr → 16 ≤ priority.toNat) := by
  cases policy with
  | rr | fifo | other =>
    simp only [checkSchedparams] at h
    split_ifs at h
    exact ⟨by omega, fun _ => by first | omega | contradiction⟩
  | idle => cases h

def Reschedules : Action → Prop
  | .reschedule => True
  | .setschedparams privileged policy priority => checkSchedparams privileged policy priority = .ok ()
  | _ => False

def DemotionsKeepBits (s : State) : Action → Prop
  | .reschedule => ∀ c ∈ s.currentThread, BitsHold s c
  | _ => True

theorem inv_booted (h : Booted s) : ∃ ls, Inv s ls := by
  obtain ⟨hhead, hbits, hready, hth, hcur, hpan⟩ := h
  refine ⟨fun _ => [], ⟨⟨⟨?_, hhead, by simp⟩, ?_⟩, ?_, ?_, ?_, hpan⟩, by simp [hcur]⟩
  · exact fun _ => ⟨List.nodup_nil, by simp, by simp⟩
  · simp [hbits]
  · simp [Queued, hready]
  · intro t
    rw [hth t]
    split_ifs <;> exact ⟨by decide, by decide, by simp⟩
  · rw [hth, if_pos rfl]

structure ReadyQueues (s : State) : Prop where
  bits : ∀ q, q < 32 → (s.schedQueueBitmap.getLsbD q = true ↔ s.schedQueue.head q ≠ none)
  placed : ∃ ls, Loops s.schedQueue ls ∧ ∀ t q, t ∈ ls q ↔ Queued s t q

theorem Inv.readyQueues (h : Inv s ls) : ReadyQueues s := by
  refine ⟨?_, ls, h.core.queues.loops, h.core.placed⟩
  intro q hq
  rw [h.core.queues.bits q hq, h.core.queues.loops.head]
  simp

section

variable (h : Core s ls) (hc : ∀ c ∈ s.currentThread, c = s.idleThread ∨ AtHead s ls c ∨ (s.thread c).quantaUsed = 0)
  (hb : ∀ c ∈ s.currentThread, BitsHold s c)
include h

namespace Core

theorem setQuanta (x : Tid) (n : Nat) : Core (s.setQuanta x n) ls := by
  have hth (t : Tid) : ((s.setQuanta x n).thread t).schedPolicy = (s.thread t).schedPolicy ∧
      ((s.setQuanta x n).thread t).priority = (s.thread t).priority ∧
      ((s.setQuanta x n).thread t).desiredPriority = (s.thread t).desiredPriority := by
    by_cases ht : t = x
    · subst ht
      simp [State.setQuanta, State.setThread]
    · simp [State.setQuanta, State.setThread, ht]
  refine ⟨h.queues, ?_, ?_, ?_, h.running⟩
  · intro t q
    rw [h.placed t q, Queued, Queued, (hth t).1, (hth t).2.1]
    rfl
  · intro t
    have hok := h.params t
    obtain ⟨hp, hq, hd⟩ := hth t
    exact ⟨by rw [hq]; exact hok.priority, by rw [hd]; exact hok.desired, by rw [hp, hq]; exact hok.rr⟩
  · exact (hth _).1.trans h.idle

theorem schedReady (hout : s.ready x = false) (hp : (s.thread x).schedPolicy ≠ .idle) :
    Core (schedReady s x) (update ls (s.thread x).priority (ls (s.thread x).priority ++ [x])) := by
  have hx (j : Nat) : x ∉ ls j := by
    intro hm
    have hr := ((h.placed x j).mp hm).1
    rw [hout] at hr
    cases hr
  have hqueue : Core (enqueue (s.setReady x true) x)
      (update ls (s.thread x).priority (ls (s.thread x).priority ++ [x])) := by
    refine ⟨h.queues.enqueue hx, ?_, h.params, h.idle, h.running⟩
    intro t q
    rw [mem_append_update, h.placed t q]
    by_cases ht : t = x
    · subst ht
      simp [Queued, enqueue, State.setReady, hout, hp, eq_comm]
    · simp [Queued, enqueue, State.setReady, ht]
  rw [schedReady_queued hp]
  exact hqueue.setQuanta x 0

theorem ready (hout : s.ready x = false) :
    ∃ ls', Core (Sched.schedReady s x) ls' ∧ ∀ q c, (ls q).head? = some c → (ls' q).head? = some c := by
  by_cases hp : (s.thread x).schedPolicy = .idle
  · refine ⟨ls, ?_, fun _ _ hc => hc⟩
    have hcore : Core (s.setReady x true) ls := by
      refine { h with placed := ?_ }
      intro t q
      rw [h.placed t q]
      by_cases ht : t = x
      · subst ht
        simp [Queued, State.setReady, hp]
      · simp [Queued, State.setReady, ht]
    have heq : Sched.schedReady s x = (s.setReady x true).setQuanta x 0 := by
      simp [Sched.schedReady, State.setReady, hp]
    rw [heq]
    exact hcore.setQuanta x 0
  · refine ⟨_, h.schedReady hout hp, ?_⟩
    intro q c hc
    by_cases hq : q = (s.thread x).priority
    · subst hq
      simp [hc]
    · rw [update_of_ne hq, hc]

theorem setThread (hr : s.ready x = false) (hx : x ≠ s.idleThread) (hok : th.Ok) : Core (s.setThread x th) ls := by
  refine ⟨h.queues, ?_, ?_, ?_, h.running⟩
  · intro t q
    rw [h.placed t q]
    by_cases ht : t = x
    · subst ht
      simp [Queued, State.setThread, hr]
    · simp [Queued, State.setThread, ht]
  · intro t
    by_cases ht : t = x
    · subst ht
      simpa [State.setThread] using hok
    · simpa [State.setThread, ht] using h.params t
  · simpa [State.setThread, update_of_ne (Ne.symm hx)] using h.idle

theorem ne_idle (hp : (s.thread x).schedPolicy ≠ .idle) : x ≠ s.idleThread := by
  rintro rfl
  exact hp h.idle

protected theorem schedUnready (hp : (s.thread c).schedPolicy ≠ .idle)
    (hi : ls (s.thread c).priority = pre ++ c :: post) :
    Core (schedUnready s c) (update ls (s.thread c).priority (pre ++ post)) := by
  have hcore : Core (dequeue (s.setReady c false) c) (update ls (s.thread c).priority (pre ++ post)) := by
    refine ⟨h.queues.dequeue hi, ?_, h.params, h.idle, h.running⟩
    intro t q
    rw [mem_update_remove h.queues.loops.apart (h.queues.loops.cyclic _).nodup hi, h.placed t q]
    by_cases ht : t = c
    · subst ht
      simp [Queued, dequeue, State.setReady]
    · simp [Queued, dequeue, State.setReady, ht]
  cases hpol : (s.thread c).schedPolicy with
  | idle => exact absurd hpol hp
  | rr | fifo =>
    have heq : schedUnready s c = (dequeue (s.setReady c false) c).setQuanta c 0 := by
      simp [schedUnready, State.setReady, hpol]
    rw [heq]
    exact hcore.setQuanta c 0
  | other =>
    have heq : schedUnready s c = (dequeue (s.setReady c false) c).setThread c { s.thread c with
        priority := (s.thread c).desiredPriority, quantaUsed := 0 } := by
      simp [schedUnready, State.setReady, hpol, dequeue]
    rw [heq]
    refine hcore.setThread (by simp [dequeue, State.setReady]) (h.ne_idle hp) ?_
    exact ⟨(h.params c).desired, (h.params c).desired, by simp [hpol]⟩

theorem unready (hr : s.ready c = true) (hp : (s.thread c).schedPolicy ≠ .idle) :
    ∃ ls', Core (schedUnready s c) ls' := by
  obtain ⟨pre, post, hi⟩ := List.append_of_mem ((h.placed c _).mpr ⟨hr, hp, rfl⟩)
  exact ⟨_, h.schedUnready hp hi⟩

theorem forward (hi : ls (s.thread c).priority = a :: rest) :
    Core (Sched.forward s c) (update ls (s.thread c).priority (rest ++ [a])) := by
  refine ⟨h.queues.forward hi, ?_, h.params, h.idle, h.running⟩
  intro t q
  have hmem : t ∈ update ls (s.thread c).priority (rest ++ [a]) q ↔ t ∈ ls q := by
    by_cases hq : q = (s.thread c).priority
    · subst hq
      simp [hi, or_comm]
    · rw [update_of_ne hq]
  rw [hmem, h.placed t q]
  rfl

theorem demote (hq : (s.thread c).priority = q + 1)
    (hi : ls (q + 1) = c :: rest) (hrest : rest ≠ []) (hlow : ls q ≠ []) (hpol : (s.thread c).schedPolicy = .other) :
    Core (Sched.demote s c) (update (update ls (q + 1) rest) q (ls q ++ [c])) := by
  have heq : Sched.demote s c = { s with schedQueue := circleqAddTail (circleqRemHead s.schedQueue (q + 1)) q c }.setThread c
      { s.thread c with priority := q } := by
    simp [Sched.demote, hq]
  have hready := ((h.placed c (q + 1)).mp (by simp [hi])).1
  rw [heq]
  refine ⟨h.queues.demote hi hrest hlow, ?_, ?_, ?_, h.running⟩
  · intro t r
    have hmem : t ∈ update (update ls (q + 1) rest) q (ls q ++ [c]) r ↔
        (t ≠ c ∧ t ∈ ls r) ∨ (t = c ∧ r = q) := by
      have happ := mem_append_update (update ls (q + 1) rest) q c t r
      rw [update_of_ne (show q ≠ q + 1 by omega)] at happ
      rw [happ, mem_tail_update h.queues.loops hi]
    rw [hmem, h.placed t r]
    by_cases ht : t = c
    · subst ht
      simp [Queued, State.setThread, hready, hpol, eq_comm]
    · simp [Queued, State.setThread, ht]
  · intro t
    have hok := h.params t
    by_cases ht : t = c
    · subst ht
      have hlt := hok.priority
      simp only [State.setThread, update_self]
      exact ⟨by dsimp only; omega, hok.desired, by simp [hpol]⟩
    · simpa [State.setThread, ht] using hok
  · have hne := h.ne_idle (x := c) (by simp [hpol])
    simpa [State.setThread, update_of_ne (Ne.symm hne)] using h.idle

theorem used_forward (hi : ls (s.thread c).priority = a :: rest) :
    Core ((Sched.forward (s.setQuanta c ((s.thread c).quantaUsed + 1)) c).setQuanta c 0)
      (update ls (s.thread c).priority (rest ++ [a])) := by
  have hsame : ((s.setQuanta c ((s.thread c).quantaUsed + 1)).thread c).priority = (s.thread c).priority := by
    simp [State.setQuanta, State.setThread]
  have hfwd := ((h.setQuanta c ((s.thread c).quantaUsed + 1)).forward (hsame ▸ hi)).setQuanta c 0
  rwa [hsame] at hfwd

section

variable (hpol : (s.thread c).schedPolicy = .rr)
include hpol

theorem rr_range : 16 ≤ (s.thread c).priority ∧ (s.thread c).priority < 32 :=
  ⟨(h.params c).rr hpol, (h.params c).priority⟩

theorem charge_rr_empty
    (hl : ls (s.thread c).priority = []) : Core (charge s c) ls := by
  have hhead : s.schedQueue.head (s.thread c).priority = none := by
    rw [h.queues.loops.head, hl]
    rfl
  simpa [charge, hpol, h.rr_range hpol, hhead, State.setQuanta, State.setThread] using
    h.setQuanta c ((s.thread c).quantaUsed + 1)

theorem charge_rr (hl : ls (s.thread c).priority = a :: rest) :
    Core (charge s c) (update ls (s.thread c).priority (rest ++ [a])) := by
  have hhead : s.schedQueue.head (s.thread c).priority = some a := by
    rw [h.queues.loops.head, hl]
    rfl
  have heq : charge s c = (Sched.forward (s.setQuanta c ((s.thread c).quantaUsed + 1)) c).setQuanta c 0 := by
    simp [charge, hpol, h.rr_range hpol, hhead, State.setQuanta, State.setThread]
  rw [heq]
  exact h.used_forward hl

end

protected theorem charge (hc : c = s.idleThread ∨ AtHead s ls c ∨ (s.thread c).quantaUsed = 0)
    (hbits : BitsHold s c) : ∃ ls', Core (charge s c) ls' := by
  have hquanta := h.setQuanta c ((s.thread c).quantaUsed + 1)
  have hsame : ((s.setQuanta c ((s.thread c).quantaUsed + 1)).thread c).priority = (s.thread c).priority := by
    simp [State.setQuanta, State.setThread]
  cases hpol : (s.thread c).schedPolicy with
  | idle | fifo =>
    refine ⟨ls, ?_⟩
    simpa [charge, hpol] using hquanta
  | rr =>
    cases hl : ls (s.thread c).priority with
    | nil => exact ⟨ls, h.charge_rr_empty hpol hl⟩
    | cons a rest => exact ⟨_, h.charge_rr hpol hl⟩
  | other =>
    by_cases hfull : (s.thread c).quantaUsed + 1 = schedQuantaJiffies
    · obtain ⟨rest, hi⟩ : ∃ rest, ls (s.thread c).priority = c :: rest := by
        rcases hc with rfl | hhead | hzero
        · rw [h.idle] at hpol
          cases hpol
        · exact ⟨_, List.eq_cons_of_mem_head? (by simp [hhead.2.2])⟩
        · simp [hzero, schedQuantaJiffies] at hfull
      by_cases hhigh : (s.thread c).priority > 1
      · obtain ⟨⟨a, ha, hne⟩, hlow⟩ := hbits ⟨hpol, hfull, hhigh⟩
        obtain ⟨q, hq⟩ : ∃ q, (s.thread c).priority = q + 1 := ⟨(s.thread c).priority - 1, by omega⟩
        rw [hq] at hi ha
        obtain rfl : c = a := by simpa [h.queues.loops.head, hi] using ha
        have hrest : rest ≠ [] := by
          rintro rfl
          have hnext := (h.queues.loops.cyclic (q + 1)).next [] c [] (by rw [hi]; rfl)
          exact hne hnext
        have hlow' : ls q ≠ [] := by
          rw [hq, h.queues.loops.head] at hlow
          simpa using hlow
        have hdem := (hquanta.demote (hsame.trans hq) hi hrest hlow'
          (by simpa [State.setQuanta, State.setThread] using hpol)).setQuanta c 0
        have heq : charge s c =
            (Sched.demote (s.setQuanta c ((s.thread c).quantaUsed + 1)) c).setQuanta c 0 := by
          simp [charge, hpol, hfull, hhigh]
        rw [heq]
        exact ⟨_, hdem⟩
      · have heq : charge s c =
            (Sched.forward (s.setQuanta c ((s.thread c).quantaUsed + 1)) c).setQuanta c 0 := by
          simp [charge, hpol, hfull, hhigh]
        rw [heq]
        exact ⟨_, h.used_forward hi⟩
    · refine ⟨ls, ?_⟩
      simpa [charge, hpol, hfull] using hquanta

end Core

theorem pickNext_spec : (∃ q, q < 32 ∧ (ls q).head? = some (pickNext s) ∧ ∀ r, q < r → r < 32 → ls r = []) ∨
      (pickNext s = s.idleThread ∧ ∀ q, q < 32 → ls q = []) := by
  have hempty {r : Nat} (hr : r < 32) (hb : s.schedQueueBitmap.getLsbD r = false) : ls r = [] := by
    by_contra hne
    rw [(h.queues.bits r hr).mpr hne] at hb
    cases hb
  unfold pickNext
  by_cases hz : s.schedQueueBitmap = 0
  · refine .inr ⟨by simp [hz], fun q hq => hempty hq ?_⟩
    rw [hz]
    exact BitVec.getLsbD_zero
  rw [if_pos hz]
  cases hb : highestBit s.schedQueueBitmap 32 with
  | none => exact .inr ⟨rfl, fun q hq => hempty hq (highestBit_none hb q hq)⟩
  | some q =>
    obtain ⟨hq, hbit, hrest⟩ := highestBit_some hb
    obtain ⟨a, rest, hl⟩ := List.exists_cons_of_ne_nil ((h.queues.bits q hq).mp hbit)
    refine .inl ⟨q, hq, ?_, fun r hqr hr => hempty hr (hrest r hqr hr)⟩
    simp [h.queues.loops.head, hl]

include hc hb

theorem Core.chargeCurrent : ∃ ls', Core (chargeCurrent s) ls' := by
  unfold Sched.chargeCurrent
  cases hcur : s.currentThread with
  | none => exact ⟨ls, h⟩
  | some c => exact h.charge (hc c hcur) (hb c hcur)

theorem reschedule_spec : (∃ ls', Inv (reschedule s) ls') ∧ Picks (reschedule s) := by
  obtain ⟨ls', h'⟩ := h.chargeCurrent hc hb
  have hcore : Core (reschedule s) ls' := { h' with }
  have hhead (q : Nat) : (reschedule s).schedQueue.head q = (ls' q).head? := h'.queues.loops.head q
  rcases pickNext_spec h' with ⟨q, hq, hpick, hhigh⟩ | ⟨hidle, hnone⟩
  · refine ⟨⟨ls', hcore, ?_⟩, .inl ⟨q, _, hq, rfl, by rw [hhead, hpick], ?_⟩⟩
    · rintro c ⟨⟩
      have hqueued := (h'.placed _ q).mp (List.mem_of_mem_head? hpick)
      refine .inr (.inl ⟨hqueued.1, hqueued.2.1, ?_⟩)
      have hprio : ((reschedule s).thread (pickNext (chargeCurrent s))).priority = q := hqueued.2.2
      rw [hprio, hpick]
    · intro r hqr hr
      rw [hhead, hhigh r hqr hr]
      rfl
  · refine ⟨⟨ls', hcore, ?_⟩, .inr ⟨congrArg some hidle, ?_⟩⟩
    · rintro c ⟨⟩
      exact .inl hidle
    · intro q hq
      rw [hhead, hnone q hq]
      rfl

end

section

variable (h : Inv s ls)
include h

theorem Inv.setThread (hout : Outside s x) (hok : th.Ok) : Inv (s.setThread x th) ls := by
  refine h.aside (h.core.setThread hout.1 hout.2.2 hok) hout.2.1 rfl rfl ?_ (fun _ _ => rfl)
    fun _ _ hh => hh
  intro c hc
  simp [State.setThread, hc]

theorem Inv.schedReady (hout : Outside s x) : ∃ ls', Inv (schedReady s x) ls' := by
  obtain ⟨ls', hcore, hhead⟩ := h.core.ready hout.1
  obtain ⟨hcur, hidle, hth, hready⟩ := schedReady_other s x
  exact ⟨ls', h.aside hcore hout.2.1 hcur hidle hth hready hhead⟩

protected theorem Inv.schedUnready (hr : Running s c) : ∃ ls', Inv (schedUnready s c) ls' := by
  have hp := (h.atHead hr).2.1
  obtain ⟨ls', hcore⟩ := h.core.unready hr.2.1 hp
  obtain ⟨hcur, -, hready, hquanta⟩ := schedUnready_self s c hp
  refine ⟨ls', hcore, ?_⟩
  intro d hd
  obtain rfl := Option.mem_unique hr.1 (hcur ▸ hd)
  exact .inr (.inr ⟨hready, hquanta⟩)

theorem changeSchedparams_spec (hr : Running s c) (hlt : priority < 32) (hrr : policy = .rr → 16 ≤ priority) :
    (∃ ls', Inv (changeSchedparams s c policy priority) ls') ∧ Picks (changeSchedparams s c policy priority) := by
  have hp := (h.atHead hr).2.1
  obtain ⟨ls₁, h₁⟩ := h.core.unready hr.2.1 hp
  obtain ⟨hcur, hidle, hready, -⟩ := schedUnready_self s c hp
  have h₂ : Core (assignSchedparams (schedUnready s c) c policy priority) ls₁ :=
    h₁.setThread hready (by rw [hidle]; exact hr.2.2) ⟨hlt, hlt, hrr⟩
  obtain ⟨ls₃, h₃, -⟩ := h₂.ready hready
  have hcur' := (schedReady_other (assignSchedparams (schedUnready s c) c policy priority) c).1.trans hcur
  have hq := schedReady_quanta (assignSchedparams (schedUnready s c) c policy priority) c
  refine reschedule_spec h₃ ?_ ?_
  · intro d hd
    obtain rfl := Option.mem_unique hr.1 (hcur' ▸ hd)
    exact .inr (.inr hq)
  · intro d hd
    obtain rfl := Option.mem_unique hr.1 (hcur' ▸ hd)
    exact not_demotes_of_quanta hq

theorem step_spec {a : Action} (hc : DemotionsKeepBits s a) (hs : step s a = some t) :
    (∃ ls', Inv t ls') ∧ (Reschedules a → Picks t) := by
  cases a with
  | initSchedparams x policy priority =>
    obtain ⟨hout, rfl⟩ := guarded hs
    obtain ⟨th, hok, heq⟩ := initSchedparams_ok s x policy priority
    rw [heq]
    exact ⟨⟨ls, h.setThread hout hok⟩, False.elim⟩
  | dupSchedparams x old =>
    obtain ⟨hout, rfl⟩ := guarded hs
    have hok := h.core.params old
    exact ⟨⟨ls, h.setThread hout ⟨hok.priority, hok.desired, hok.rr⟩⟩, False.elim⟩
  | schedReady x =>
    obtain ⟨hout, rfl⟩ := guarded hs
    exact ⟨h.schedReady hout, False.elim⟩
  | schedUnready =>
    simp only [step] at hs
    split at hs
    · obtain ⟨hr, rfl⟩ := guarded hs
      exact ⟨h.schedUnready hr, False.elim⟩
    · cases hs
  | reschedule =>
    simp only [step, Option.some.injEq] at hs
    subst hs
    obtain ⟨hinv, hpick⟩ := reschedule_spec h.core (fun c hcur => (h.current c hcur).imp_right
      (Or.imp_right And.right)) hc
    exact ⟨hinv, fun _ => hpick⟩
  | setschedparams privileged policy priority =>
    simp only [step] at hs
    split at hs
    · obtain ⟨hr, rfl⟩ := guarded hs
      unfold sysThreadSetschedparams
      cases hcheck : checkSchedparams privileged policy priority with
      | error e => exact ⟨⟨ls, h⟩, fun hre => by simp [Reschedules, hcheck] at hre⟩
      | ok u =>
        obtain ⟨hlt, hrr⟩ := checkSchedparams_ok hcheck
        obtain ⟨hinv, hpick⟩ := changeSchedparams_spec h hr hlt hrr
        exact ⟨hinv, fun _ => hpick⟩
    · cases hs
  | timerTopHalf =>
    obtain ⟨hon, rfl⟩ := guarded hs
    refine ⟨⟨ls, ?_⟩, False.elim⟩
    unfold timerTopHalf
    cases hcur : s.currentThread with
    | none => exact h
    | some c =>
      refine ⟨h.core.setQuanta c _, ?_⟩
      intro d hd
      obtain rfl : c = d := Option.mem_unique hcur hd
      rcases h.current c hcur with hi | hh | ⟨hr, -⟩
      · exact .inl hi
      · refine .inr (.inl ?_)
        simpa [AtHead, State.setQuanta, State.setThread] using hh
      · rcases hon c hcur with hr' | hi
        · rw [hr] at hr'
          cases hr'
        · exact .inl hi

end

theorem ready_queues_of_demotions (h : Reach step DemotionsKeepBits Booted s) :
    ReadyQueues s ∧ ∀ a t, DemotionsKeepBits s a → step s a = some t → Reschedules a → Picks t := by
  obtain ⟨ls, hinv⟩ := h.invariant (P := fun s => ∃ ls, Inv s ls) (fun _ => inv_booted)
    fun _ _ _ ⟨_, hi⟩ hc hs => (step_spec hi hc hs).1
  exact ⟨hinv.readyQueues, fun a t hc hs => (step_spec hinv hc hs).2⟩

end

instance (s : State) : DecidablePred (DemotionsKeepBits s) := fun a => by
  unfold DemotionsKeepBits
  split <;> infer_instance

def bootState : State where
  thread t := if t = 1 then ⟨.idle, 0, 0, 0⟩ else ⟨.other, 0, 0, 0⟩
  ready _ := false
  schedQueue := ⟨fun _ => none, id, id⟩
  schedQueueBitmap := 0
  currentThread := none
  idleThread := 1
  panicked := false

theorem bootState_booted : Booted bootState :=
  ⟨fun _ => rfl, rfl, fun _ => rfl, fun _ => rfl, rfl, rfl⟩

def readied (t : Tid) (policy : Policy) (priority : Int) : List Action :=
  [.initSchedparams t policy priority, .schedReady t]

def companions : List Action :=
  readied 2 .other 3 ++ readied 3 .other 3 ++ readied 4 .other 2 ++ List.replicate 6 .reschedule

theorem ready_queues_after_demotion : ∃ s, Reach step DemotionsKeepBits Booted s ∧
    (s.thread 2).priority = 2 ∧ s.currentThread = some 3 ∧ ReadyQueues s :=
  Reach.exists_of_run (Q := fun s => (s.thread 2).priority = 2 ∧ s.currentThread = some 3) companions bootState_booted
    (by decide +kernel) (by decide +kernel) fun _ hr hq => ⟨hq.1, hq.2, (ready_queues_of_demotions hr).1⟩

def alone : List Action := readied 2 .other 2 ++ List.replicate 6 .reschedule

theorem demoted_thread_starves : ∃ s, Reach step always Booted s ∧ s.ready 2 = true ∧
    s.schedQueue.head 1 = some 2 ∧ s.currentThread = some s.idleThread ∧ ¬ ReadyQueues s := by
  refine Reach.exists_of_run (Q := fun s => s.ready 2 = true ∧ s.schedQueue.head 1 = some 2 ∧
      s.currentThread = some s.idleThread ∧ s.schedQueueBitmap.getLsbD 1 = false) alone bootState_booted
    (meets_always _ _) (by decide +kernel) fun s _ ⟨hready, hhead, hcur, hbit⟩ => ⟨hready, hhead, hcur, fun hrq => ?_⟩
  have hset := (hrq.bits 1 (by decide)).mpr (by simp [hhead])
  rw [hbit] at hset
  cases hset

end CheviotKernel.Sched
