import CheviotKernel.Library.BitSets
import CheviotKernel.Library.Runs

namespace CheviotKernel.Privileges

open BitSets Runs

abbrev ProcId := ℕ

abbrev Bitmap := BitVec 64

def privPermitAll : Bitmap := BitVec.allOnes 64

structure Process where
  privileges : Bitmap
  privilegesAfterExec : Bitmap
  deriving DecidableEq

inductive When
  | privNow
  | privAfterExec
  | other
  deriving DecidableEq

inductive Errno
  | einval
  | efault
  deriving DecidableEq

inductive UserSet
  | null
  | unreadable
  | bitmap (set : Bitmap)

def sysSetPrivileges (p : Process) (when : When) : UserSet → Process × Except Errno Bitmap
  | .null => (p, .error .einval)
  | .unreadable => (p, .error .efault)
  | .bitmap set =>
    match when with
    | .privNow =>
      let p := { p with privileges := p.privileges &&& set }
      (p, .ok p.privileges)
    | .privAfterExec =>
      let p := { p with privilegesAfterExec := p.privilegesAfterExec &&& set }
      (p, .ok p.privilegesAfterExec)
    | .other => (p, .error .einval)

def forkPrivileges (parent : Process) : Process := ⟨parent.privileges, parent.privileges⟩

def initPrivileges : Process := ⟨privPermitAll, privPermitAll⟩

def execPrivileges (p : Process) : Process :=
  ⟨p.privileges &&& p.privilegesAfterExec, p.privileges &&& p.privilegesAfterExec⟩

structure Record where
  dropped : Bitmap
  barred : Bitmap
  gone : Bitmap
  deriving DecidableEq

structure System where
  proc : ProcId → Process
  record : ProcId → Record

def System.set (s : System) (p : ProcId) (x : Process) (r : Record) : System :=
  ⟨Function.update s.proc p x, Function.update s.record p r⟩

inductive Action
  | setPrivileges (p : ProcId) (when : When) (set : UserSet)
  | fork (parent child : ProcId)
  | exec (p : ProcId)

def noteSet (r : Record) : When → UserSet → Record
  | .privNow, .bitmap set => { r with dropped := r.dropped ||| ~~~set }
  | .privAfterExec, .bitmap set => { r with barred := r.barred ||| ~~~set }
  | _, _ => r

def noteExec (r : Record) : Record := { r with gone := r.gone ||| r.barred }

def step (s : System) : Action → Option System
  | .setPrivileges p when set =>
    some (s.set p (sysSetPrivileges (s.proc p) when set).1 (noteSet (s.record p) when set))
  | .fork parent child => some (s.set child (forkPrivileges (s.proc parent)) (s.record parent))
  | .exec p => some (s.set p (execPrivileges (s.proc p)) (noteExec (s.record p)))

def Fresh (s : System) : Prop := ∀ p, s.record p = ⟨0, 0, 0⟩

def Settled (s : System) : Action → Prop
  | .fork parent _ => (s.proc parent).privileges &&& (s.proc parent).privilegesAfterExec = (s.proc parent).privileges
  | _ => True

structure Shrunk (x : Process) (r : Record) : Prop where
  now : x.privileges &&& r.dropped = 0
  afterExec : x.privileges &&& r.gone = 0

section

variable {x : Process} {r : Record} {s t : System} {a : Action} {b c : Bitmap} {when : When}

theorem and_and_not (a b : Bitmap) : (a &&& b) &&& ~~~b = 0 := by
  rw [BitVec.and_assoc, BitVec.and_not_self]
  exact BitVec.and_zero

theorem and_or_eq {a : Bitmap} (hb : a &&& b = 0) (hc : a &&& c = 0) : a &&& (b ||| c) = 0 := by
  rw [BitVec.and_comm]
  apply and_or_eq_zero
  · rwa [BitVec.and_comm]
  · rwa [BitVec.and_comm]

theorem now_set {set : UserSet} (h : x.privileges &&& r.dropped = 0) :
    (sysSetPrivileges x when set).1.privileges &&& (noteSet r when set).dropped = 0 := by
  cases set with
  | null | unreadable => cases when <;> exact h
  | bitmap set =>
    cases when with
    | privNow => exact and_or_eq (and_and_eq_zero h) (and_and_not _ _)
    | privAfterExec | other => exact h

structure Pending (x : Process) (r : Record) : Prop where
  gone : x.privileges &&& r.gone = 0
  barred : x.privilegesAfterExec &&& r.barred = 0

theorem Pending.set {set : UserSet} (h : Pending x r) :
    Pending (sysSetPrivileges x when set).1 (noteSet r when set) := by
  cases set with
  | null | unreadable => cases when <;> exact h
  | bitmap set =>
    cases when with
    | privNow => exact ⟨and_and_eq_zero h.gone, h.barred⟩
    | privAfterExec => exact ⟨h.gone, and_or_eq (and_and_eq_zero h.barred) (and_and_not _ _)⟩
    | other => exact h

theorem Pending.fork (h : Pending x r) (hs : x.privileges &&& x.privilegesAfterExec = x.privileges) :
    Pending (forkPrivileges x) r := by
  refine ⟨h.gone, ?_⟩
  rw [forkPrivileges, ← hs, BitVec.and_assoc, h.barred]
  exact BitVec.and_zero

theorem Pending.exec (h : Pending x r) : Pending (execPrivileges x) (noteExec r) := by
  have hbarred : (x.privileges &&& x.privilegesAfterExec) &&& r.barred = 0 := by
    rw [BitVec.and_assoc, h.barred]
    exact BitVec.and_zero
  exact ⟨and_or_eq (and_and_eq_zero h.gone) hbarred, hbarred⟩

theorem set_cases {P : Process → Record → Prop} {p : ProcId} (h : ∀ q, P (s.proc q) (s.record q)) (hx : P x r)
    (q : ProcId) : P ((s.set p x r).proc q) ((s.set p x r).record q) := by
  by_cases hq : q = p
  · subst hq
    simpa [System.set] using hx
  · simpa [System.set, hq] using h q

theorem now_step (h : ∀ p, (s.proc p).privileges &&& (s.record p).dropped = 0)
    (hs : step s a = some t) (p : ProcId) : (t.proc p).privileges &&& (t.record p).dropped = 0 := by
  revert p
  cases a with
  | setPrivileges q when set =>
    cases hs
    exact set_cases (P := fun x r => x.privileges &&& r.dropped = 0) h (now_set (h q))
  | fork parent child =>
    cases hs
    exact set_cases (P := fun x r => x.privileges &&& r.dropped = 0) h (h parent)
  | exec q =>
    cases hs
    exact set_cases (P := fun x r => x.privileges &&& r.dropped = 0) h (and_and_eq_zero (h q))

theorem pending_step (h : ∀ p, Pending (s.proc p) (s.record p)) (hc : Settled s a)
    (hs : step s a = some t) (p : ProcId) : Pending (t.proc p) (t.record p) := by
  revert p
  cases a with
  | setPrivileges q when set =>
    cases hs
    exact set_cases h (h q).set
  | fork parent child =>
    cases hs
    exact set_cases h ((h parent).fork hc)
  | exec q =>
    cases hs
    exact set_cases h (h q).exec

theorem dropped_stay_dropped (h : Reach step always Fresh s) (p : ProcId) :
    (s.proc p).privileges &&& (s.record p).dropped = 0 := by
  refine Reach.invariant (P := fun s => ∀ p, (s.proc p).privileges &&& (s.record p).dropped = 0) ?_ ?_ h p
  · intro s h p
    rw [h p]
    exact BitVec.and_zero
  · exact fun s a t hi _ hs => now_step hi hs

theorem barred_stay_barred (h : Reach step Settled Fresh s) (p : ProcId) : Pending (s.proc p) (s.record p) := by
  refine Reach.invariant (P := fun s => ∀ p, Pending (s.proc p) (s.record p)) ?_ ?_ h p
  · intro s h p
    rw [h p]
    exact ⟨BitVec.and_zero, BitVec.and_zero⟩
  · exact fun s a t hi hc hs => pending_step hi hc hs

theorem privileges_shrink (h : Reach step always Fresh s) : (∀ p, (s.proc p).privileges &&& (s.record p).dropped = 0) ∧
    (Reach step Settled Fresh s → ∀ p, Shrunk (s.proc p) (s.record p)) := by
  refine ⟨dropped_stay_dropped h, fun hsettled p => ⟨dropped_stay_dropped h p, ?_⟩⟩
  exact (barred_stay_barred hsettled p).gone

end

def rootSystem : System := ⟨fun _ => initPrivileges, fun _ => ⟨0, 0, 0⟩⟩

theorem rootSystem_fresh : Fresh rootSystem := fun _ => rfl

instance (s : System) : (a : Action) → Decidable (Settled s a) := fun a => by
  unfold Settled
  split <;> infer_instance

def execThenFork : List Action := [.setPrivileges 1 .privAfterExec (.bitmap (~~~1)), .exec 1, .fork 1 2, .exec 2]

theorem child_of_execed_parent : ∃ s, Reach step always Fresh s ∧ (s.record 2).gone = 1 ∧
    (s.proc 2).privileges = ~~~1 ∧ ∀ p, Shrunk (s.proc p) (s.record p) := by
  obtain ⟨s, hs, hgone, hpriv⟩ : ∃ s, Runs.exec step rootSystem execThenFork = some s ∧ (s.record 2).gone = 1 ∧
      (s.proc 2).privileges = ~~~1 := ⟨_, rfl, by decide, by decide⟩
  have hall := (Reach.start rootSystem_fresh).exec (meets_always _ _) hs
  have hsettled : Reach step Settled Fresh s := (Reach.start rootSystem_fresh).exec (by decide) hs
  exact ⟨s, hall, hgone, hpriv, (privileges_shrink hall).2 hsettled⟩

theorem child_regains_privilege : ∃ s, Reach step always Fresh s ∧ (s.record 2).gone = 1 ∧
    (s.proc 2).privileges = privPermitAll ∧ ¬ Shrunk (s.proc 2) (s.record 2) := by
  obtain ⟨s, hs, hgone, hpriv⟩ : ∃ s, Runs.exec step rootSystem
      [.setPrivileges 1 .privAfterExec (.bitmap (~~~1)), .fork 1 2, .exec 2] = some s ∧ (s.record 2).gone = 1 ∧
      (s.proc 2).privileges = privPermitAll := ⟨_, rfl, by decide, by decide⟩
  refine ⟨s, (Reach.start rootSystem_fresh).exec (meets_always _ _) hs, hgone, hpriv, fun h => ?_⟩
  have hzero := h.afterExec
  rw [hgone, hpriv] at hzero
  exact absurd hzero (by decide)

end CheviotKernel.Privileges
