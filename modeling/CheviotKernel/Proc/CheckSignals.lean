import CheviotKernel.Proc.Signal

namespace CheviotKernel.Signals

open Runs BitSets

structure UserContext where
  r : Fin 13 → BitVec 32
  sp : Addr
  lr : Addr
  pc : Addr
  cpsr : BitVec 32

structure Sigframe where
  mcontext : UserContext
  sigmask : Sigset
  signum : ℕ
  siginfo : Option Addr
  ucontext : Addr
  action : Handler

structure FrameLayout where
  size : BitVec 32
  si : BitVec 32
  uc : BitVec 32

inductive Outcome
  | exit (signal : ℕ)
  | done (p : ProcSignalState) (t : ThreadSignalState) (uc : UserContext) (written : Option (Addr × Sigframe))

def pickSignal (sigbits : Sigset) : ℕ :=
  if sigbits = 0 then 0
  else
    let (sig, sigbits) := if sigbits &&& 0xFFFF0000 = 0 then (16, sigbits <<< 16) else (32, sigbits)
    let (sig, sigbits) := if sigbits &&& 0xFF000000 = 0 then (sig - 8, sigbits <<< 8) else (sig, sigbits)
    let (sig, sigbits) := if sigbits &&& 0xF0000000 = 0 then (sig - 4, sigbits <<< 4) else (sig, sigbits)
    let (sig, sigbits) := if sigbits &&& 0xC0000000 = 0 then (sig - 2, sigbits <<< 2) else (sig, sigbits)
    if sigbits &&& 0x80000000 = 0 then sig - 1 else sig

section Stages

def restoreFrame (t : ThreadSignalState) (uc : UserContext) (frame : Option Sigframe) :
    Option (ThreadSignalState × UserContext) :=
  match t.sigreturnSigframe with
  | none => some (t, uc)
  | some _ => frame.map fun f => ({ t with sigreturnSigframe := none, sigMask := f.sigmask }, f.mcontext)

def gatherPending (p : ProcSignalState) (t : ThreadSignalState) : ProcSignalState × ThreadSignalState :=
  let directed := p.sigPending &&& ~~~t.sigMask
  if directed ≠ 0 then
    ({ p with sigPending := p.sigPending &&& ~~~directed }, { t with sigPending := t.sigPending ||| directed })
  else (p, t)

def dropSuspendMask (t : ThreadSignalState) : ThreadSignalState :=
  if t.useSigsuspendMask then { t with sigMask := t.sigsuspendOldmask, useSigsuspendMask := false } else t

def handlerAdds (p : ProcSignalState) (sig : ℕ) : Sigset :=
  if p.sigNodefer &&& sigbit sig ≠ 0 then ~~~p.handlerMask (sig - 1)
  else sigbit sig ||| ~~~p.handlerMask (sig - 1)

def resetHandler (p : ProcSignalState) (sig : ℕ) : ProcSignalState :=
  if p.sigResethand &&& sigbit sig ≠ 0 then { p with handler := Function.update p.handler (sig - 1) .dfl } else p

def buildFrame (layout : FrameLayout) (p : ProcSignalState) (uc : UserContext) (oldMask : Sigset) (sig : ℕ) :
    Addr × Sigframe :=
  let addr := (uc.sp - layout.size) &&& ~~~15
  (addr,
    { mcontext := uc
      sigmask := oldMask
      signum := sig
      siginfo := if p.sigInfo &&& sigbit sig ≠ 0 then some (addr + layout.si) else none
      ucontext := addr + layout.uc
      action := p.handler (sig - 1) })

def kills (beyond : Bool) (sig : ℕ) : Bool := if sig < nsig then spKill sig else beyond

def actOn (layout : FrameLayout) (beyond : Bool) (p : ProcSignalState) (t : ThreadSignalState) (uc : UserContext)
    (oldMask : Sigset) (sig : ℕ) (copied : Bool) : Outcome :=
  match p.restorer with
  | none => if kills beyond sig then .exit sig else .done p t uc none
  | some restorer =>
    match p.handler (sig - 1) with
    | .dfl => if kills beyond sig then .exit sig else .done p { t with sigMask := oldMask } uc none
    | .ign => .done (resetHandler p sig) { t with sigMask := oldMask } uc none
    | .func _ =>
      let p := resetHandler p sig
      let written := buildFrame layout p uc oldMask sig
      if copied then .done p t { uc with sp := written.1, pc := restorer } (some written) else .exit sigsegv

def deliver (layout : FrameLayout) (beyond : Bool) (p : ProcSignalState) (t : ThreadSignalState) (uc : UserContext)
    (copied : Bool) : Outcome :=
  let caught := t.sigPending &&& ~~~t.sigMask
  if caught = 0 then .done p t uc none
  else if caught &&& sigbit sigkill ≠ 0 then .exit sigkill
  else
    let t := dropSuspendMask t
    let sig := pickSignal caught
    if sig = 0 then .done p t uc none
    else
      actOn layout beyond p
        { t with sigPending := t.sigPending &&& ~~~sigbit sig, sigMask := t.sigMask ||| handlerAdds p sig } uc t.sigMask
        sig copied

end Stages

def checkSignals (layout : FrameLayout) (beyond : Bool) (p : ProcSignalState) (t : ThreadSignalState)
    (uc : UserContext) (frame : Option Sigframe) (copied : Bool) : Outcome :=
  match restoreFrame t uc frame with
  | none => .exit sigsegv
  | some (t, uc) =>
    let (p, t) := gatherPending p t
    deliver layout beyond p t uc copied

end CheviotKernel.Signals
