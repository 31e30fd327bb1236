import Mathlib.Algebra.Group.Nat.Defs
import CheviotKernel.Proc.CheckSignals

namespace CheviotKernel.Signals

open BitSets

section Delivery

variable {t t₁ t' : ThreadSignalState} {uc uc₁ uc' : UserContext} {frame : Option Sigframe} {p p' : ProcSignalState}
  {layout : FrameLayout} {beyond copied : Bool} {sig : ℕ} {a b c : BitVec 32}

def maskBefore (t : ThreadSignalState) : Sigset := if t.useSigsuspendMask then t.sigsuspendOldmask else t.sigMask

def caught (p : ProcSignalState) (t : ThreadSignalState) : Sigset := (gatherPending p t).2.sigPending &&& ~~~t.sigMask

def deferred (p : ProcSignalState) (sig : ℕ) : Sigset := if p.sigNodefer &&& sigbit sig ≠ 0 then 0 else sigbit sig

inductive Acted (layout : FrameLayout) (beyond : Bool) (p : ProcSignalState) (t : ThreadSignalState) (uc : UserContext)
    (oldMask : Sigset) (sig : ℕ) : Outcome → Prop
  | exit (s : ℕ) : Acted layout beyond p t uc oldMask sig (.exit s)
  | unrestored (h : p.restorer = none) (hk : kills beyond sig = false) :
      Acted layout beyond p t uc oldMask sig (.done p t uc none)
  | default (h : p.handler (sig - 1) = .dfl) :
      Acted layout beyond p t uc oldMask sig (.done p { t with sigMask := oldMask } uc none)
  | ignored (h : p.handler (sig - 1) = .ign) :
      Acted layout beyond p t uc oldMask sig (.done (resetHandler p sig) { t with sigMask := oldMask } uc none)
  | handled (pc restorer : Addr) (h : p.handler (sig - 1) = .func pc) (hr : p.restorer = some restorer) :
      Acted layout beyond p t uc oldMask sig
        (.done (resetHandler p sig) t
          { uc with sp := (buildFrame layout (resetHandler p sig) uc oldMask sig).1, pc := restorer }
          (some (buildFrame layout (resetHandler p sig) uc oldMask sig)))

inductive Checked (layout : FrameLayout) (beyond : Bool) (p : ProcSignalState) (t : ThreadSignalState)
    (uc : UserContext) : Outcome → Prop
  | exit (s : ℕ) : Checked layout beyond p t uc (.exit s)
  | quiet (left taken : Sigset) (h : caught p t = 0) :
      Checked layout beyond p t uc (.done { p with sigPending := left } { t with sigPending := taken } uc none)
  | none (left taken : Sigset) (h : caught p t ≠ 0) :
      Checked layout beyond p t uc
        (.done { p with sigPending := left } (dropSuspendMask { t with sigPending := taken }) uc none)
  | acted (left taken : Sigset) (o : Outcome) (h : caught p t ≠ 0)
      (ha : Acted layout beyond { p with sigPending := left }
        { dropSuspendMask { t with sigPending := taken } with
          sigPending := taken &&& ~~~sigbit (pickSignal (caught p t))
          sigMask := maskBefore t ||| handlerAdds p (pickSignal (caught p t)) }
        uc (maskBefore t) (pickSignal (caught p t)) o) :
      Checked layout beyond p t uc o

structure DeliverySemantics (layout : FrameLayout) (beyond : Bool) (p : ProcSignalState) (t : ThreadSignalState)
    (uc : UserContext) (frame : Option Sigframe) (copied : Bool) : Prop where
  handled : ∀ t₁ uc₁ p' t' uc' addr f, restoreFrame t uc frame = some (t₁, uc₁) →
    checkSignals layout beyond p t uc frame copied = .done p' t' uc' (some (addr, f)) →
      ∃ pc, p.handler (f.signum - 1) = .func pc ∧ f.action = .func pc ∧
        t'.sigMask = maskBefore t₁ ||| p.handlerMask (f.signum - 1) ||| deferred p f.signum
  unhandled : ∀ t₁ uc₁ p' t' uc', restoreFrame t uc frame = some (t₁, uc₁) → caught p t₁ ≠ 0 →
    checkSignals layout beyond p t uc frame copied = .done p' t' uc' none → t'.sigMask = maskBefore t₁

def Delivers (p : ProcSignalState) (t : ThreadSignalState) : Prop :=
  caught p t ≠ 0 ∧ caught p t &&& sigbit sigkill = 0 ∧ pickSignal (caught p t) ≠ 0

structure Plain (beyond copied : Bool) (p : ProcSignalState) (t : ThreadSignalState) : Prop where
  handled : ∀ pc, p.handler (pickSignal (caught p t) - 1) = .func pc → p.restorer ≠ none → copied = true →
    p.sigResethand &&& sigbit (pickSignal (caught p t)) = 0 ∧
      maskBefore t ||| deferred p (pickSignal (caught p t)) = BitVec.allOnes 32
  unrestored : p.restorer = none → kills beyond (pickSignal (caught p t)) = false →
    Within (handlerAdds p (pickSignal (caught p t))) (maskBefore t)

theorem or_complement_iff : a ||| (b ||| ~~~c) = a ||| c ||| b ↔ a ||| b = BitVec.allOnes 32 := by
  constructor
  · intro h
    apply BitVec.eq_of_getLsbD_eq
    intro i hi
    have hbit := congrArg (fun x => BitVec.getLsbD x i) h
    simp only [BitVec.getLsbD_or] at hbit
    rw [BitVec.getLsbD_allOnes]
    cases ha : a.getLsbD i <;> cases hb : b.getLsbD i <;> simp_all
  · intro h
    rw [← BitVec.or_assoc, h, BitVec.allOnes_or, BitVec.or_assoc, BitVec.or_comm c b, ← BitVec.or_assoc, h,
      BitVec.allOnes_or]

section

variable (layout : FrameLayout) (beyond : Bool) (p : ProcSignalState) (t : ThreadSignalState) (uc : UserContext) (oldMask : Sigset) (sig : ℕ) (copied : Bool)

theorem dropSuspendMask_sigMask : (dropSuspendMask t).sigMask = maskBefore t := by
  unfold dropSuspendMask maskBefore
  split_ifs <;> rfl

theorem dropSuspendMask_sigPending : (dropSuspendMask t).sigPending = t.sigPending := by
  unfold dropSuspendMask
  split_ifs <;> rfl

theorem dropSuspendMask_use : (dropSuspendMask t).useSigsuspendMask = false := by
  unfold dropSuspendMask
  split_ifs with h
  · rfl
  · simpa using h

theorem handlerAdds_eq : handlerAdds p sig = deferred p sig ||| ~~~p.handlerMask (sig - 1) := by
  unfold handlerAdds deferred
  split_ifs <;> simp

theorem gatherPending_eq :
    ∃ left taken, gatherPending p t = ({ p with sigPending := left }, { t with sigPending := taken }) ∧
      caught p t = taken &&& ~~~t.sigMask ∧ (dropSuspendMask { t with sigPending := taken }).sigPending = taken ∧
      (dropSuspendMask { t with sigPending := taken }).sigMask = maskBefore t := by
  obtain ⟨left, taken, hg⟩ : ∃ left taken,
      gatherPending p t = ({ p with sigPending := left }, { t with sigPending := taken }) := by
    simp only [gatherPending]
    split_ifs with h <;> exact ⟨_, _, rfl⟩
  exact ⟨left, taken, hg, by simp [caught, hg], dropSuspendMask_sigPending _, dropSuspendMask_sigMask _⟩

theorem actOn_acted : Acted layout beyond p t uc oldMask sig (actOn layout beyond p t uc oldMask sig copied) := by
  unfold actOn
  cases hr : p.restorer with
  | none =>
    cases hk : kills beyond sig with
    | true => exact .exit _
    | false => exact .unrestored hr hk
  | some restorer =>
    cases hh : p.handler (sig - 1) with
    | dfl =>
      cases kills beyond sig with
      | true => exact .exit _
      | false => exact .default hh
    | ign => exact .ignored hh
    | func pc =>
      cases copied with
      | true => exact .handled pc restorer hh hr
      | false => exact .exit _

end

theorem checkSignals_checked (layout : FrameLayout) (beyond : Bool) (p : ProcSignalState) (copied : Bool)
    (hr : restoreFrame t uc frame = some (t₁, uc₁)) :
    Checked layout beyond p t₁ uc₁ (checkSignals layout beyond p t uc frame copied) := by
  obtain ⟨left, taken, hg, hc, hpend, hmask⟩ := gatherPending_eq p t₁
  simp only [checkSignals, hr, hg, deliver, ← hc, hpend, hmask]
  split_ifs with h0 hk hs
  · exact .quiet left taken h0
  · exact .exit _
  · exact .none left taken h0
  · exact .acted left taken _ h0 (actOn_acted _ _ _ _ _ _ _ _)

theorem checkSignals_acts (layout : FrameLayout) (beyond : Bool) (copied : Bool)
    (hr : restoreFrame t uc frame = some (t₁, uc₁)) (hd : Delivers p t₁) :
    ∃ left taken, checkSignals layout beyond p t uc frame copied =
      actOn layout beyond { p with sigPending := left }
        { dropSuspendMask { t₁ with sigPending := taken } with
          sigPending := taken &&& ~~~sigbit (pickSignal (caught p t₁))
          sigMask := maskBefore t₁ ||| handlerAdds p (pickSignal (caught p t₁)) }
        uc₁ (maskBefore t₁) (pickSignal (caught p t₁)) copied := by
  obtain ⟨hne, hkill, hsig⟩ := hd
  obtain ⟨left, taken, hg, hc, hpend, hmask⟩ := gatherPending_eq p t₁
  refine ⟨left, taken, ?_⟩
  simp only [checkSignals, hr, hg, deliver, ← hc, hpend, hmask]
  rw [if_neg hne, if_neg (not_not.mpr hkill), if_neg hsig]
  rfl

theorem checkSignals_rests {written : Option (Addr × Sigframe)}
    (hr : restoreFrame t uc frame = some (t₁, uc₁)) (hd : ¬Delivers p t₁)
    (ho : checkSignals layout beyond p t uc frame copied = .done p' t' uc' written) :
    written = none ∧ (caught p t₁ ≠ 0 → t'.sigMask = maskBefore t₁) := by
  obtain ⟨left, taken, hg, hc, -⟩ := gatherPending_eq p t₁
  simp only [checkSignals, hr, hg, deliver, ← hc] at ho
  split_ifs at ho with h0 hk hs
  · cases ho
    exact ⟨rfl, fun hne => absurd h0 hne⟩
  · cases ho
    exact ⟨rfl, fun _ => dropSuspendMask_sigMask _⟩
  · exact absurd ⟨h0, not_not.mp hk, hs⟩ hd

section Acts

variable {layout : FrameLayout} {beyond copied : Bool} {p p' : ProcSignalState} {t t' : ThreadSignalState}
  {uc uc' : UserContext} {oldMask : Sigset} {sig : ℕ} {pc restorer addr : Addr}

theorem actOn_handled (hres : p.restorer = some restorer) (hh : p.handler (sig - 1) = .func pc) :
    actOn layout beyond p t uc oldMask sig true =
      .done (resetHandler p sig) t
        { uc with sp := (buildFrame layout (resetHandler p sig) uc oldMask sig).1, pc := restorer }
        (some (buildFrame layout (resetHandler p sig) uc oldMask sig)) := by
  simp only [actOn, hres, hh, if_true]

theorem actOn_written {f : Sigframe}
    (h : actOn layout beyond p t uc oldMask sig copied = .done p' t' uc' (some (addr, f))) :
    p.restorer ≠ none ∧ copied = true ∧ t' = t ∧ (addr, f) = buildFrame layout (resetHandler p sig) uc oldMask sig ∧
      ∃ pc, p.handler (sig - 1) = .func pc := by
  unfold actOn at h
  split at h
  · split_ifs at h
    cases h
  next hres =>
    split at h
    · split_ifs at h
      cases h
    · cases h
    next pc hh =>
      split_ifs at h with hc
      cases h
      exact ⟨by simp [hres], hc, rfl, rfl, pc, hh⟩

theorem actOn_silent (h : actOn layout beyond p t uc oldMask sig copied = .done p' t' uc' none) :
    t'.sigMask = oldMask ∨ (p.restorer = none ∧ kills beyond sig = false ∧ t' = t) := by
  have ha := actOn_acted layout beyond p t uc oldMask sig copied
  rw [h] at ha
  cases ha with
  | unrestored hn hk => exact .inr ⟨hn, hk, rfl⟩
  | default | ignored => exact .inl rfl

end Acts

theorem resetHandler_of_clear (h : p.sigResethand &&& sigbit sig = 0) : resetHandler p sig = p :=
  if_neg (not_not.mpr h)

theorem DeliverySemantics.plain (h : DeliverySemantics layout beyond p t uc frame copied)
    (hr : restoreFrame t uc frame = some (t₁, uc₁)) (hd : Delivers p t₁) : Plain beyond copied p t₁ := by
  obtain ⟨left, taken, ho⟩ := checkSignals_acts layout beyond copied hr hd
  constructor
  · intro pc hh hres hcopied
    obtain ⟨restorer, hres⟩ := Option.ne_none_iff_exists'.mp hres
    subst hcopied
    rw [actOn_handled (p := { p with sigPending := left }) hres hh] at ho
    obtain ⟨pc', -, haction, hmask⟩ := h.handled _ _ _ _ _ _ _ hr ho
    refine ⟨?_, ?_⟩
    · by_contra hset
      rw [resetHandler, if_pos hset] at haction
      simp at haction
    · rw [handlerAdds_eq] at hmask
      exact or_complement_iff.mp hmask
  · intro hres hk
    simp only [actOn, hres, hk, Bool.false_eq_true, if_false] at ho
    exact or_eq_left_iff.mp (h.unhandled _ _ _ _ _ hr hd.1 ho)

end Delivery

theorem delivery_iff_plain (layout : FrameLayout) (beyond : Bool) (p : ProcSignalState) (t : ThreadSignalState)
    (uc : UserContext) (frame : Option Sigframe) (copied : Bool) :
    DeliverySemantics layout beyond p t uc frame copied ↔
      ∀ t₁ uc₁, restoreFrame t uc frame = some (t₁, uc₁) → Delivers p t₁ → Plain beyond copied p t₁ := by
  constructor
  · exact fun h t₁ uc₁ hr hd => h.plain hr hd
  intro h
  constructor
  · intro t₁ uc₁ p' t' uc' addr f hr ho
    by_cases hd : Delivers p t₁
    · obtain ⟨left, taken, heq⟩ := checkSignals_acts layout beyond copied hr hd
      obtain ⟨hres, hcopied, rfl, hframe, pc, hh⟩ := actOn_written (heq.symm.trans ho)
      obtain ⟨hreset, hall⟩ := (h t₁ uc₁ hr hd).handled pc hh hres hcopied
      rw [resetHandler_of_clear (p := { p with sigPending := left }) hreset] at hframe
      obtain ⟨-, rfl⟩ := Prod.mk.inj hframe
      refine ⟨pc, hh, hh, ?_⟩
      rw [handlerAdds_eq]
      exact or_complement_iff.mpr hall
    · exact absurd (checkSignals_rests hr hd ho).1 (by simp)
  · intro t₁ uc₁ p' t' uc' hr hne ho
    by_cases hd : Delivers p t₁
    · obtain ⟨left, taken, heq⟩ := checkSignals_acts layout beyond copied hr hd
      rcases actOn_silent (heq.symm.trans ho) with hmask | ⟨hres, hk, rfl⟩
      · exact hmask
      · exact or_eq_left_iff.mpr ((h t₁ uc₁ hr hd).unrestored hres hk)
    · exact (checkSignals_rests hr hd ho).2 hne

theorem align16 (x : BitVec 32) : (x &&& ~~~15#32).toNat % 16 = 0 ∧ (x &&& ~~~15#32).toNat ≤ x.toNat ∧
    x.toNat < (x &&& ~~~15#32).toNat + 16 := by
  have hshift : x &&& ~~~15#32 = x >>> 4 <<< 4 := by
    apply BitVec.eq_of_getLsbD_eq
    intro i hi
    have hlow : (15#32).getLsbD i = decide (i < 4) := by
      exact Nat.testBit_two_pow_sub_one 4 i
    rw [BitVec.getLsbD_and, BitVec.getLsbD_not, hlow]
    by_cases h4 : i < 4
    · simp [h4]
    · simp [h4, hi, Nat.add_sub_cancel' (Nat.le_of_not_lt h4)]
  rw [hshift, BitVec.toNat_shiftLeft, BitVec.toNat_ushiftRight]
  omega

def cpsrModeMask : BitVec 32 := 0x1F

def usrMode : BitVec 32 := 0x10

def cpsrInterrupts : BitVec 32 := 0xC0

def sampleLayout : FrameLayout := ⟨128, 64, 96⟩

def sampleContext : UserContext := ⟨fun _ => 0, 0x1000, 0, 0x8000, usrMode⟩

def oneHandler : ProcSignalState :=
  { initSignals with handler := fun i => if i = 1 then .func 0x9000 else .dfl, restorer := some 0xA000 }

def interrupted (mask : Sigset) : ThreadSignalState := { initThread mask with sigPending := sigbit 2 }

-- copyout stores to user memory only, which leaves out the first page and ends below 2^31.
theorem sigframe_round_trip {layout : FrameLayout} {beyond copied : Bool} {p p' : ProcSignalState}
    {t t₁ t' : ThreadSignalState} {uc uc₁ uc' : UserContext} {frame : Option Sigframe} {addr : Addr} {f : Sigframe}
    (p₂ : ProcSignalState) (t₂ : ThreadSignalState) (uc₂ : UserContext) (copied₂ : Bool)
    (hsize : layout.size.toNat ≤ 2 ^ 31) (hr : restoreFrame t uc frame = some (t₁, uc₁))
    (hd : checkSignals layout beyond p t uc frame copied = .done p' t' uc' (some (addr, f)))
    (hout : copied = true → 0 < addr.toNat ∧ addr.toNat + layout.size.toNat ≤ 2 ^ 31)
    (hquiet : p₂.sigPending &&& ~~~maskBefore t₁ = 0 ∧ t₂.sigPending &&& ~~~maskBefore t₁ = 0) :
    (∃ p₃ t₃, checkSignals layout beyond p₂ (sysSigreturn t₂ (if addr = 0 then none else some addr)) uc₂ (some f) copied₂ =
      .done p₃ t₃ uc₁ none ∧ t₃.sigMask = maskBefore t₁) ∧
      addr.toNat % 16 = 0 ∧ addr.toNat + layout.size.toNat ≤ uc₁.sp.toNat := by
  obtain ⟨hcopied, haddr, hf⟩ : copied = true ∧ addr = (uc₁.sp - layout.size) &&& ~~~15 ∧
      f.mcontext = uc₁ ∧ f.sigmask = maskBefore t₁ := by
    by_cases hdel : Delivers p t₁
    · obtain ⟨left, taken, heq⟩ := checkSignals_acts layout beyond copied hr hdel
      obtain ⟨-, hcopied, -, hframe, -⟩ := actOn_written (heq.symm.trans hd)
      cases hframe
      exact ⟨hcopied, rfl, rfl, rfl⟩
    · exact absurd (checkSignals_rests hr hdel hd).1 (by simp)
  obtain ⟨hpos, hend⟩ := hout hcopied
  obtain ⟨halign, hle, hlt⟩ := align16 (uc₁.sp - layout.size)
  have haddr' : addr = (uc₁.sp - layout.size) &&& ~~~15#32 := haddr
  rw [← haddr'] at halign hle hlt
  refine ⟨?_, halign, ?_⟩
  · have hne : addr ≠ 0 := by
      rintro rfl
      exact absurd hpos (by decide)
    have hback : restoreFrame (sysSigreturn t₂ (some addr)) uc₂ (some f) =
        some ({ t₂ with sigMask := maskBefore t₁, sigreturnSigframe := none }, uc₁) := by
      simp [restoreFrame, sysSigreturn, hf]
    have hgather : gatherPending p₂ { t₂ with sigMask := maskBefore t₁, sigreturnSigframe := none } =
        (p₂, { t₂ with sigMask := maskBefore t₁, sigreturnSigframe := none }) := by
      exact if_neg (not_not.mpr hquiet.1)
    rw [if_neg hne]
    simp only [checkSignals, hback, hgather, deliver, if_pos hquiet.2]
    exact ⟨_, _, rfl, rfl⟩
  · rw [BitVec.toNat_sub] at hle hlt
    omega

theorem sigframe_round_trip_interrupted : ∃ p' t' uc' addr f,
    checkSignals sampleLayout false oneHandler (interrupted 0) sampleContext none true = .done p' t' uc' (some (addr, f)) ∧
      addr.toNat + sampleLayout.size.toNat ≤ sampleContext.sp.toNat := by
  refine ⟨_, _, _, _, _, rfl, ?_⟩
  have hr : restoreFrame (interrupted 0) sampleContext none = some (interrupted 0, sampleContext) := rfl
  exact (sigframe_round_trip initSignals (initThread 0) sampleContext true (by decide) hr
    (rfl : checkSignals sampleLayout false oneHandler _ _ _ true = _) (fun _ => by decide) (by decide)).2.2

theorem handler_mask_inverted :
    ¬DeliverySemantics sampleLayout false oneHandler (interrupted 0) sampleContext none true := by
  intro hd
  obtain ⟨pc, -, -, hmask⟩ := hd.handled _ _ _ _ _ _ _ rfl rfl
  exact absurd hmask (by decide)

end CheviotKernel.Signals
