import CheviotKernel.Proc.Signal

namespace CheviotKernel.Signals

open Function Runs BitSets

def How.apply (mask set : Sigset) : How → Sigset
  | .setmask => set
  | .block => mask ||| set
  | .unblock => mask &&& ~~~set
  | .other => mask

structure MaskCall where
  how : How
  set : Option (Sigset × Bool)
  oset : Option Bool

def MaskCall.run (c : MaskCall) (t : ThreadSignalState) : ThreadSignalState × Except Errno (Option Sigset) :=
  sysSigprocmask t c.how c.set c.oset

def MaskCall.Readable (c : MaskCall) : Prop := c.oset ≠ some false ∧ ∀ set ok, c.set = some (set, ok) → ok = true

def MaskCall.maskAfter (c : MaskCall) (mask : Sigset) : Sigset :=
  match c.set with
  | none => mask
  | some (set, _) => c.how.apply mask set

structure MaskCall.Exact (t : ThreadSignalState) (c : MaskCall) : Prop where
  applies : c.Readable → (c.set ≠ none → c.how ≠ .other) →
    c.run t = ({ t with sigMask := c.maskAfter t.sigMask }, .ok (c.oset.map fun _ => t.sigMask))
  keeps : ¬ c.Readable ∨ (∃ e, (c.run t).2 = .error e) → (c.run t).1.sigMask = t.sigMask

def MaskCall.Harmless (t : ThreadSignalState) (c : MaskCall) : Prop :=
  c.oset = some false ∨ match c.set with
    | none => True
    | some (_, true) => c.how = .other
    | some (set, false) => c.how.apply t.sigMask set = t.sigMask

def maskStep (t : ThreadSignalState) (c : MaskCall) : Option ThreadSignalState := some (c.run t).1

theorem MaskCall.exact_iff (t : ThreadSignalState) (c : MaskCall) : c.Exact t ↔ c.Harmless t := by
  obtain ⟨how, set, oset⟩ := c
  by_cases ho : oset = some false
  · subst ho
    refine iff_of_true ⟨fun hr => absurd rfl hr.1, fun _ => rfl⟩ (.inl rfl)
  rcases set with _ | ⟨set, _ | _⟩
  · refine iff_of_true ⟨fun _ _ => ?_, fun _ => ?_⟩ (.inr trivial) <;> simp [MaskCall.run, sysSigprocmask, ho, maskAfter]
  · have hrun : (MaskCall.run ⟨how, some (set, false), oset⟩ t).1.sigMask = how.apply t.sigMask set := by
      cases how <;> simp [MaskCall.run, sysSigprocmask, ho, How.apply]
    have hun : ¬ MaskCall.Readable ⟨how, some (set, false), oset⟩ := fun hr => absurd (hr.2 set false rfl) (by decide)
    constructor
    · exact fun h => .inr (hrun.symm.trans (h.keeps (.inl hun)))
    · intro h
      exact ⟨fun hr => absurd hr hun, fun _ => hrun.trans (h.resolve_left ho)⟩
  · have hrun : MaskCall.run ⟨how, some (set, true), oset⟩ t = (t, .error .efault) := by
      simp [MaskCall.run, sysSigprocmask]
    constructor
    · intro h
      refine .inr (by_contra fun hn => ?_)
      have hok := h.applies ⟨ho, fun _ ok he => (Prod.mk.inj (Option.some.inj he)).2.symm⟩ fun _ => hn
      rw [hrun] at hok
      cases congrArg Prod.snd hok
    · intro h
      exact ⟨fun _ hn => absurd (h.resolve_left ho) (hn (by simp)), fun _ => by rw [hrun]⟩

theorem unblock_block {mask set : Sigset} (h : mask &&& set = 0) : How.unblock.apply (How.block.apply mask set) set = mask := by
  apply BitVec.eq_of_getLsbD_eq
  intro i hi
  have hbit := congrArg (fun x => BitVec.getLsbD x i) h
  simp only [BitVec.getLsbD_and] at hbit
  simp only [How.apply]
  cases hm : mask.getLsbD i <;> cases hs : set.getLsbD i <;> simp_all

theorem sigprocmask_exact_iff (t : ThreadSignalState) (calls : List MaskCall) :
    (Meets maskStep MaskCall.Exact t calls ↔ Meets maskStep MaskCall.Harmless t calls) ∧
      ∀ mask set : Sigset, mask &&& set = 0 → How.unblock.apply (How.block.apply mask set) set = mask :=
  ⟨meets_congr (I := fun _ => True) (fun _ _ _ _ _ => trivial) (fun t c _ => c.exact_iff t) trivial,
    fun _ _ => unblock_block⟩

theorem readable_mask_refused : (MaskCall.run ⟨.block, some (2, true), none⟩ (initThread 0)).2 = .error .efault ∧
      ¬ Meets maskStep MaskCall.Exact (initThread 0) [⟨.block, some (2, true), none⟩] ∧
      (MaskCall.run ⟨.block, some (2, false), none⟩ (initThread 0)).1.sigMask = 2 := by
  refine ⟨rfl, fun h => ?_, rfl⟩
  have hok := h.1.applies ⟨by simp, by simp⟩ (by simp)
  cases congrArg Prod.snd hok

structure ActionCall where
  signal : Int
  act : Option (Option Sigaction)
  oact : Option Bool
  flags : SaFlags
  restorer : Option Addr

structure Actions where
  proc : ProcSignalState
  last : ℕ → Option Sigaction

def ActionCall.run (c : ActionCall) (p : ProcSignalState) : ProcSignalState × Except Errno (Option Sigaction) :=
  sysSigaction p c.signal c.act c.oact c.flags c.restorer

def actionStep (x : Actions) (c : ActionCall) : Option Actions :=
  some ⟨(c.run x.proc).1, match (c.run x.proc).2, c.act with
    | .ok _, some (some act) => update x.last c.signal.toNat (some act)
    | _, _ => x.last⟩

def settings (p : ProcSignalState) (sig : ℕ) : Handler × Sigset × Bool × Bool × Bool :=
  (p.handler (sig - 1), p.handlerMask (sig - 1), p.sigInfo.getLsbD (sig - 1), p.sigNodefer.getLsbD (sig - 1),
    p.sigResethand.getLsbD (sig - 1))

def Sigaction.Returned (act old : Sigaction) : Prop :=
  old.handler = act.handler ∧ old.saMask = act.saMask &&& ~~~sigcantmask ∧
    old.saFlags.siginfo = act.saFlags.siginfo ∧ old.saFlags.nodefer = act.saFlags.nodefer ∧
    old.saFlags.resethand = act.saFlags.resethand

structure ActionCall.Framed (x : Actions) (c : ActionCall) : Prop where
  others : ∀ sig : ℕ, 0 < sig → sig ≤ nsig → (sig : Int) ≠ c.signal → settings (c.run x.proc).1 sig = settings x.proc sig
  restorer : (∀ act, c.act = some (some act) → act.saFlags.restorer = false) →
    (c.run x.proc).1.restorer = x.proc.restorer
  null : c.act = none → (c.run x.proc).1 = x.proc
  query : ∀ old act, (c.run x.proc).2 = .ok (some old) → x.last c.signal.toNat = some act → act.Returned old

def ActionCall.Valid (c : ActionCall) : Prop :=
  0 < c.signal ∧ c.signal ≤ nsig ∧ c.signal ≠ sigkill ∧ c.signal ≠ sigstop

-- A call that asks for the old action finds no other signal with SA_SIGINFO, and on its stack the flags of that action.
def ActionCall.Careful (x : Actions) (c : ActionCall) : Prop :=
  c.Valid → c.oact ≠ none → (∀ i : ℕ, x.proc.sigInfo.getLsbD i = true → (i : Int) + 1 = c.signal) ∧
    (c.oact = some true → c.act ≠ some none → ∀ act ∈ x.last c.signal.toNat,
      (c.flags.siginfo || x.proc.sigInfo.getLsbD (c.signal.toNat - 1)) = act.saFlags.siginfo ∧
        c.flags.nodefer = act.saFlags.nodefer ∧ c.flags.resethand = act.saFlags.resethand)

section Actions

variable {p q : ProcSignalState} {x y : Actions} {c : ActionCall} {sig : ℕ}

def ActionCall.asked (c : ActionCall) (p : ProcSignalState) : ProcSignalState :=
  if c.oact.isSome then { p with sigInfo := p.sigInfo &&& sigbit c.signal.toNat } else p

inductive ActionCall.Ran (c : ActionCall) (p : ProcSignalState) : ProcSignalState × Except Errno (Option Sigaction) → Prop
  | invalid (h : ¬ c.Valid) : c.Ran p (p, .error .einval)
  | faulted (hv : c.Valid) (h : c.oact = some false ∨ c.act = some none) : c.Ran p (c.asked p, .error .efault)
  | asks (hv : c.Valid) (ha : c.act = none) (ho : c.oact ≠ some false) :
      c.Ran p (c.asked p, .ok (c.oact.map fun _ => (queryAction p c.signal.toNat c.flags c.restorer).2))
  | sets (act : Sigaction) (hv : c.Valid) (ha : c.act = some (some act)) (ho : c.oact ≠ some false) :
      c.Ran p (installAction (c.asked p) c.signal.toNat act,
        .ok (c.oact.map fun _ => (queryAction p c.signal.toNat c.flags c.restorer).2))

theorem ActionCall.ran (c : ActionCall) (p : ProcSignalState) : c.Ran p (c.run p) := by
  unfold run sysSigaction
  by_cases hrange : c.signal ≤ 0 ∨ c.signal > nsig
  · rw [if_pos hrange]
    exact .invalid fun hv => by have := hv.1; have := hv.2.1; omega
  rw [if_neg hrange]
  by_cases hfixed : c.signal = sigkill ∨ c.signal = sigstop
  · rw [if_pos hfixed]
    exact .invalid fun hv => hfixed.elim hv.2.2.1 hv.2.2.2
  rw [if_neg hfixed]
  have hv : c.Valid := ⟨by omega, by omega, fun h => hfixed (.inl h), fun h => hfixed (.inr h)⟩
  by_cases hout : c.oact = some false
  · rw [if_pos hout]
    exact .faulted hv (.inl hout)
  · rw [if_neg hout]
    rcases hact : c.act with _ | _ | act
    · exact .asks hv hact hout
    · exact .faulted hv (.inr hact)
    · exact .sets act hv hact hout

theorem and_sigbit_ne_zero (y : Sigset) (h0 : 0 < sig) (h1 : sig ≤ nsig) :
    decide (y &&& sigbit sig ≠ 0) = y.getLsbD (sig - 1) := by
  have hne := sigbit_ne_zero h0 h1
  rw [sigbit] at hne ⊢
  rw [BitVec.and_twoPow]
  cases y.getLsbD (sig - 1) with
  | false => rfl
  | true => simpa using hne

theorem getLsbD_sigbit (i sig : ℕ) : (sigbit sig).getLsbD i = true → i = sig - 1 := by
  rw [sigbit, BitVec.getLsbD_twoPow]
  simp only [Bool.and_eq_true, decide_eq_true_eq]
  omega

theorem settings_install (act : Sigaction) (h : sig - 1 ≠ c.signal.toNat - 1) :
    settings (installAction p c.signal.toNat act) sig = settings p sig := by
  have hbit : (sigbit c.signal.toNat).getLsbD (sig - 1) = false := by
    by_contra hb
    exact h (getLsbD_sigbit _ _ (by simpa using hb))
  have hor (b : Bool) (y : Sigset) :
      (if b then y ||| sigbit c.signal.toNat else y).getLsbD (sig - 1) = y.getLsbD (sig - 1) := by
    cases b <;> simp [hbit]
  simp only [settings, installAction, update_of_ne h, hor]

theorem ActionCall.asked_of_only (h : c.oact ≠ none → ∀ i : ℕ, p.sigInfo.getLsbD i = true → (i : Int) + 1 = c.signal) :
    c.asked p = p := by
  unfold asked
  split_ifs with ho
  · have hwithin : Within p.sigInfo (sigbit c.signal.toNat) := by
      intro i hi
      have hs := h (Option.isSome_iff_ne_none.mp ho) i hi
      have hlt := BitVec.lt_of_getLsbD hi
      rw [sigbit, BitVec.getLsbD_twoPow]
      simp only [Bool.and_eq_true, decide_eq_true_eq]
      omega
    rw [and_eq_left_iff.mpr hwithin]
  · rfl

theorem ActionCall.asked_settings (hv : c.Valid) (hoact : c.oact ≠ none)
    (hq : q = c.asked p ∨ ∃ act, q = installAction (c.asked p) c.signal.toNat act)
    (h : ∀ sig : ℕ, 0 < sig → sig ≤ nsig → (sig : Int) ≠ c.signal → settings q sig = settings p sig) (i : ℕ)
    (hi : p.sigInfo.getLsbD i = true) : (i : Int) + 1 = c.signal := by
  by_contra hne
  have hlt := BitVec.lt_of_getLsbD hi
  have hbit : (c.asked p).sigInfo.getLsbD i = true := by
    have hsame := h (i + 1) (Nat.succ_pos i) hlt (by exact_mod_cast hne)
    have hasked : settings (c.asked p) (i + 1) = settings p (i + 1) := by
      rcases hq with rfl | ⟨act, rfl⟩
      · exact hsame
      · rwa [settings_install act (by have := hv.1; omega)] at hsame
    have hinfo := congrArg (fun y => y.2.2.1) hasked
    exact hinfo.trans hi
  rw [asked, if_pos (Option.isSome_iff_ne_none.mpr hoact), BitVec.getLsbD_and, Bool.and_eq_true] at hbit
  have := getLsbD_sigbit _ _ hbit.2
  have := hv.1
  omega

def Recorded (x : Actions) : Prop :=
  ∀ sig act, x.last sig = some act → 0 < sig ∧ x.proc.handler (sig - 1) = act.handler ∧
    x.proc.handlerMask (sig - 1) = act.saMask &&& ~~~sigcantmask

theorem Recorded.step (h : Recorded x) (hy : actionStep x c = some y) : Recorded y := by
  cases hy
  have hasked (p : ProcSignalState) : (c.asked p).handler = p.handler ∧ (c.asked p).handlerMask = p.handlerMask := by
    unfold ActionCall.asked
    split_ifs <;> exact ⟨rfl, rfl⟩
  have hran := c.ran x.proc
  generalize c.run x.proc = r at hran
  intro sig act hlast
  cases hran with
  | invalid => exact h sig act hlast
  | faulted =>
    rw [(hasked _).1, (hasked _).2]
    exact h sig act hlast
  | asks hv ha ho =>
    simp only [ha] at hlast
    rw [(hasked _).1, (hasked _).2]
    exact h sig act hlast
  | sets new hv ha ho =>
    simp only [ha] at hlast
    by_cases hs : sig = c.signal.toNat
    · subst hs
      rw [update_self] at hlast
      cases hlast
      exact ⟨by have := hv.1; omega, update_self .., update_self ..⟩
    · rw [update_of_ne hs] at hlast
      obtain ⟨h0, hhandler, hmask⟩ := h sig act hlast
      have hne : sig - 1 ≠ c.signal.toNat - 1 := by have := hv.1; omega
      simp only [installAction, update_of_ne hne, (hasked _).1, (hasked _).2]
      exact ⟨h0, hhandler, hmask⟩

theorem ActionCall.query_eq (hv : c.Valid) : (queryAction p c.signal.toNat c.flags c.restorer).2.saFlags.siginfo =
    (c.flags.siginfo || p.sigInfo.getLsbD (c.signal.toNat - 1)) := by
  rw [← and_sigbit_ne_zero _ (by have := hv.1; omega) (by have := hv.2.1; omega)]
  rfl

theorem ActionCall.Framed.careful (hf : c.Framed x) : c.Careful x := by
  intro hv hoact
  have hran := c.ran x.proc
  have hothers := hf.others
  have hquery := hf.query
  generalize c.run x.proc = r at hran hothers hquery
  cases hran with
  | invalid h => exact absurd hv h
  | faulted _ h =>
    exact ⟨asked_settings hv hoact (.inl rfl) hothers, fun htrue hact => (h.elim (by simp [htrue]) hact).elim⟩
  | asks _ ha ho | sets _ _ ha ho =>
    refine ⟨asked_settings hv hoact (by simp) hothers, fun htrue _ act hlast => ?_⟩
    rw [htrue] at hquery
    obtain ⟨-, -, hflags⟩ := hquery _ act rfl hlast
    rwa [query_eq hv] at hflags

theorem Recorded.framed (h : Recorded x) (hc : c.Careful x) : c.Framed x := by
  have hold (hv : c.Valid) (hact : c.act ≠ some none) (ho : c.oact ≠ some false) (old act : Sigaction)
      (hr : (c.oact.map fun _ => (queryAction x.proc c.signal.toNat c.flags c.restorer).2) = some old)
      (hlast : x.last c.signal.toNat = some act) : act.Returned old := by
    obtain ⟨b, hb, rfl⟩ := Option.map_eq_some_iff.mp hr
    have htrue : c.oact = some true := by
      cases b with
      | true => exact hb
      | false => exact absurd hb ho
    obtain ⟨-, hhandler, hmask⟩ := h _ act hlast
    have hflags := (hc hv (by simp [htrue])).2 htrue hact act hlast
    rw [← ActionCall.query_eq hv] at hflags
    exact ⟨hhandler, hmask, hflags⟩
  have hran := c.ran x.proc
  generalize hr : c.run x.proc = r at hran
  cases hran with
  | invalid => exact ⟨fun _ _ _ _ => by rw [hr], fun _ => by rw [hr], fun _ => by rw [hr], by simp [hr]⟩
  | faulted hv hfault =>
    rw [ActionCall.asked_of_only fun ho => (hc hv ho).1] at hr
    exact ⟨fun _ _ _ _ => by rw [hr], fun _ => by rw [hr], fun _ => by rw [hr], by simp [hr]⟩
  | asks hv ha ho =>
    rw [ActionCall.asked_of_only fun ho => (hc hv ho).1] at hr
    refine ⟨fun _ _ _ _ => by rw [hr], fun _ => by rw [hr], fun _ => by rw [hr], fun old act hok => ?_⟩
    rw [hr] at hok
    exact hold hv (by simp [ha]) ho old act (Except.ok.inj hok)
  | sets new hv ha ho =>
    rw [ActionCall.asked_of_only fun ho => (hc hv ho).1] at hr
    refine ⟨fun sig h0 h1 hne => ?_, fun hrest => ?_, by simp [ha], fun old act hok => ?_⟩
    · rw [hr]
      exact settings_install new (by have := hv.1; omega)
    · rw [hr, installAction, if_neg (by simp [hrest new ha])]
    · rw [hr] at hok
      exact hold hv (by simp [ha]) ho old act (Except.ok.inj hok)

end Actions

theorem sigaction_framed_iff (p : ProcSignalState) (calls : List ActionCall) :
    Meets actionStep ActionCall.Framed ⟨p, fun _ => none⟩ calls ↔
      Meets actionStep ActionCall.Careful ⟨p, fun _ => none⟩ calls :=
  meets_congr (I := Recorded) (fun _ _ _ h => h.step) (fun _ _ h => ⟨ActionCall.Framed.careful, h.framed⟩) nofun

def plainFlags : SaFlags := ⟨false, false, false, false⟩

theorem query_drops_siginfo :
    ¬ Meets actionStep ActionCall.Framed ⟨initSignals, fun _ => none⟩
      [⟨1, some (some ⟨.func 4, 0, { plainFlags with siginfo := true }, none⟩), none, plainFlags, none⟩,
        ⟨2, none, some true, plainFlags, none⟩] := by
  intro h
  have hsame := congrArg ProcSignalState.sigInfo (h.2.1.null rfl)
  exact absurd hsame (by decide)

end CheviotKernel.Signals
