import CheviotKernel.Library.Runs

namespace CheviotKernel.Procs

open Function

abbrev ProcId := Nat
abbrev ThreadId := Nat
abbrev SessionId := Nat
abbrev PgrpId := Nat
abbrev PidT := Int

def invalidPid : PidT := -1

inductive ProcState
  | free
  | init
  | exited
  deriving DecidableEq

inductive ThreadState
  | free
  | init
  | exited
  deriving DecidableEq

@[ext]
structure PidDesc where
  proc : Option ProcId
  thread : Option ThreadId
  session : Option SessionId
  pgrp : Option PgrpId
  deriving DecidableEq

def PidDesc.empty : PidDesc := ⟨none, none, none, none⟩

structure Process where
  pid : PidT
  parent : Option ProcId
  state : ProcState
  sid : PidT
  pgid : PidT
  childList : List ProcId
  threadList : List ThreadId
  exitInProgress : Bool

def Process.zero : Process := ⟨0, none, .free, 0, 0, [], [], false⟩

structure Thread where
  tid : PidT
  process : Option ProcId
  state : ThreadState
  detached : Bool
  joinerThread : Option ThreadId

def Thread.zero : Thread := ⟨0, none, .free, false, none⟩

structure Session where
  sid : PidT
  processList : List ProcId

structure Pgrp where
  sid : PidT
  processList : List ProcId

inductive Phase
  | running
  | joining (thread : ThreadId)
  | exiting
  deriving DecidableEq

structure Config where
  maxProcess : Nat
  maxThread : Nat

def Config.maxPid (cfg : Config) : PidT := cfg.maxProcess + cfg.maxThread

structure Ids where
  pidTable : PidT → PidDesc
  freePiddescList : List PidT
  session : SessionId → Session
  freeSessionList : List SessionId
  pgrp : PgrpId → Pgrp
  freePgrpList : List PgrpId

structure State where
  ids : Ids
  proc : ProcId → Process
  freeProcessList : List ProcId
  thread : ThreadId → Thread
  freeThreadList : List ThreadId
  threadReaperDetachedThreadList : List ThreadId
  rootProcess : ProcId
  phase : ThreadId → Phase
  panicked : Bool

namespace Ids

def setDesc (x : Ids) (e : PidT) (d : PidDesc) : Ids := { x with pidTable := update x.pidTable e d }

def setSession (x : Ids) (i : SessionId) (r : Session) : Ids := { x with session := update x.session i r }

def setPgrp (x : Ids) (i : PgrpId) (r : Pgrp) : Ids := { x with pgrp := update x.pgrp i r }

end Ids

namespace State

def setProc (s : State) (p : ProcId) (x : Process) : State := { s with proc := update s.proc p x }

def setThread (s : State) (t : ThreadId) (x : Thread) : State := { s with thread := update s.thread t x }

def setPhase (s : State) (c : ThreadId) (ph : Phase) : State := { s with phase := update s.phase c ph }

def panic (s : State) : State := { s with panicked := true }

def andThen (s : State) (f : State → State) : State := if s.panicked then s else f s

end State

section

variable (cfg : Config) (s : State)

def pidToPiddesc (pid : PidT) : Option PidT :=
  if pid ≤ 0 ∨ pid ≥ cfg.maxPid then none else some pid

def getProcess (pid : PidT) : Option ProcId :=
  if pid ≤ 0 ∨ pid ≥ cfg.maxPid then none else (s.ids.pidTable pid).proc

def getThread (tid : PidT) : Option ThreadId :=
  if tid ≤ 0 ∨ tid ≥ cfg.maxPid then none else (s.ids.pidTable tid).thread

section

variable (x : Ids)

def getSession (sid : PidT) : Option SessionId :=
  match pidToPiddesc cfg sid with
  | none => none
  | some e => (x.pidTable e).session

def getPgrp (pgid : PidT) : Option PgrpId :=
  match pidToPiddesc cfg pgid with
  | none => none
  | some e => (x.pidTable e).pgrp

def allocPid (d : PidDesc) : Option (PidT × State) :=
  match s.ids.freePiddescList with
  | [] => none
  | e :: rest => some (e, { s with ids := { s.ids with freePiddescList := rest }.setDesc e d })

def allocPidProc (p : ProcId) : Option (PidT × State) := allocPid s { PidDesc.empty with proc := some p }

def allocPidThread (t : ThreadId) : Option (PidT × State) :=
  allocPid s { PidDesc.empty with thread := some t }

def allocSession : Option (SessionId × Ids) :=
  match x.freeSessionList with
  | [] => none
  | i :: rest => some (i, { x with freeSessionList := rest }.setSession i ⟨0, []⟩)

def freeSession (i : SessionId) : Ids := { x with freeSessionList := x.freeSessionList ++ [i] }

def allocPgrp : Option (PgrpId × Ids) :=
  match x.freePgrpList with
  | [] => none
  | i :: rest => some (i, { x with freePgrpList := rest }.setPgrp i ⟨0, []⟩)

def freePgrp (i : PgrpId) : Ids := { x with freePgrpList := x.freePgrpList ++ [i] }

def dropSession (e : PidT) : Ids :=
  match (x.pidTable e).session with
  | some i =>
    if (x.session i).processList = [] then (freeSession x i).setDesc e { x.pidTable e with session := none } else x
  | none => x

def dropPgrp (e : PidT) : Ids :=
  match (x.pidTable e).pgrp with
  | some i => if (x.pgrp i).processList = [] then (freePgrp x i).setDesc e { x.pidTable e with pgrp := none } else x
  | none => x

def freeDesc (e : PidT) : Ids :=
  let x := x.setDesc e { x.pidTable e with proc := none, thread := none }
  let x := dropPgrp (dropSession x e) e
  if (x.pidTable e).session = none ∧ (x.pidTable e).pgrp = none then
    { x with freePiddescList := x.freePiddescList ++ [e] }
  else x

def freePid (pid : PidT) : State :=
  match pidToPiddesc cfg pid with
  | none => s.panic
  | some e => { s with ids := freeDesc s.ids e }

def removeFromPgrp (p : ProcId) : State :=
  match pidToPiddesc cfg (s.proc p).pgid with
  | none => s
  | some e =>
    match (s.ids.pidTable e).pgrp with
    | none => s
    | some i =>
      let r := s.ids.pgrp i
      let x := s.ids.setPgrp i { r with processList := r.processList.erase p }
      let s := freePid cfg { s with ids := dropPgrp x e } e
      s.setProc p { s.proc p with pgid := invalidPid }

def removeFromSession (p : ProcId) : State :=
  match pidToPiddesc cfg (s.proc p).sid with
  | none => s
  | some e =>
    match (s.ids.pidTable e).session with
    | none => s
    | some i =>
      let r := s.ids.session i
      let x := s.ids.setSession i { r with processList := r.processList.erase p }
      let s := freePid cfg { s with ids := dropSession x e } e
      s.setProc p { s.proc p with sid := invalidPid }

def finiSessionPgrp (p : ProcId) : State :=
  removeFromSession cfg (removeFromPgrp cfg s p) p

def joinSession (sid : PidT) (p : ProcId) : Ids :=
  match getSession cfg x sid with
  | some i => x.setSession i { x.session i with processList := (x.session i).processList ++ [p] }
  | none => x

def joinPgrp (pgid : PidT) (p : ProcId) : Ids :=
  match getPgrp cfg x pgid with
  | some i => x.setPgrp i { x.pgrp i with processList := (x.pgrp i).processList ++ [p] }
  | none => x

end

def forkSessionPgrp (new old : ProcId) : State :=
  let sid := (s.proc old).sid
  let pgid := (s.proc old).pgid
  let s := s.setProc new { s.proc new with sid := sid, pgid := pgid }
  { s with ids := joinPgrp cfg (joinSession cfg s.ids sid new) pgid new }

inductive Errno
  | eperm
  | einval
  | enomem
  | esrch
  | ebusy
  | edeadlk
  | eagain
  | efault
  deriving DecidableEq

abbrev Result := Except Errno PidT

-- sys_setsid leaves the group only together with a session.
def leaveOld (p : ProcId) : State :=
  match getSession cfg s.ids (s.proc p).sid with
  | some _ => removeFromSession cfg (removeFromPgrp cfg s p) p
  | none => s

-- The last assignments of sys_setsid dereference what pid_to_piddesc returns.
def sysSetsid (p : ProcId) : State × Result :=
  let x := s.proc p
  if x.sid = x.pid then (s, .error .eperm)
  else if x.pgid = x.pid then (s, .error .eperm)
  else
    let s := leaveOld cfg s p
    match allocSession s.ids with
    | none => (s, .error .enomem)
    | some (i, ids) =>
      let ids := ids.setSession i ⟨x.pid, [p]⟩
      let s := { s with ids := ids }.setProc p { s.proc p with sid := x.pid, pgid := invalidPid }
      match pidToPiddesc cfg x.pid with
      | none => (s.panic, .ok x.pid)
      | some e =>
        ({ s with ids := ids.setDesc e { ids.pidTable e with session := some i, pgrp := none } }, .ok x.pid)

def lookupProcess (cur : ProcId) (pid : PidT) : Option ProcId :=
  if pid = 0 then some cur else getProcess cfg s pid

def sysSetpgid (cur : ProcId) (pid pgid : PidT) : State × Result :=
  match lookupProcess cfg s cur pid with
  | none => (s, .error .esrch)
  | some p =>
    if (s.proc cur).sid ≠ (s.proc p).sid then (s, .error .eperm)
    else match getPgrp cfg s.ids pgid with
      | none => (s, .error .eperm)
      | some i =>
        if (s.ids.pgrp i).sid ≠ (s.proc cur).sid then (s, .error .eperm)
        else (s.setProc p { s.proc p with pgid := pgid }, .ok 0)

def sysSetpgrp (p : ProcId) : State × Result :=
  let x := s.proc p
  if x.pgid = x.pid then (s, .error .einval)
  else
    let s := if x.pgid ≠ invalidPid then removeFromPgrp cfg s p else s
    let s := s.setProc p { s.proc p with pgid := x.pid }
    match allocPgrp s.ids with
    | none => (s, .error .enomem)
    | some (i, ids) =>
      let ids := ids.setPgrp i ⟨(s.proc p).sid, [p]⟩
      ({ s with ids := ids.setDesc x.pid { ids.pidTable x.pid with pgrp := some i } }, .ok 0)

def freeProcessStruct (p : ProcId) : State :=
  { s with freeProcessList := s.freeProcessList ++ [p] }.setProc p Process.zero

def allocProcess (parent : ProcId) : State × Option ProcId :=
  match s.freeProcessList with
  | [] => (s, none)
  | p :: rest =>
    let s := { s with freeProcessList := rest }.setProc p Process.zero
    match allocPidProc s p with
    | none => (freeProcessStruct s p, none)
    | some (pid, s) =>
      let s := s.setProc p { Process.zero with pid := pid, parent := some parent, state := .init }
      (s.setProc parent { s.proc parent with childList := (s.proc parent).childList ++ [p] }, some p)

def freeProcess (p : ProcId) : State :=
  (freePid cfg s (s.proc p).pid).andThen fun s =>
    let s := match (s.proc p).parent with
      | some q => s.setProc q { s.proc q with childList := (s.proc q).childList.erase p }
      | none => s
    freeProcessStruct s p

def freeThreadStruct (t : ThreadId) : State :=
  { s with freeThreadList := s.freeThreadList ++ [t] }.setThread t Thread.zero

def freeThread (t : ThreadId) : State :=
  (freePid cfg s (s.thread t).tid).andThen fun s => freeThreadStruct s t

def allocThread : State × Option (ThreadId × PidT) :=
  match s.freeThreadList with
  | [] => (s, none)
  | t :: rest =>
    let s := { s with freeThreadList := rest }.setThread t Thread.zero
    match allocPidThread s t with
    | none => (freeThreadStruct s t, none)
    | some (tid, s) => (s, some (t, tid))

def abandonThread (t : ThreadId) (tid : PidT) : State :=
  (freePid cfg s tid).andThen fun s => freeThreadStruct s t

def initThread (p : ProcId) (t : ThreadId) (tid : PidT) (detached : Bool) : State :=
  let s := s.setProc p { s.proc p with threadList := (s.proc p).threadList ++ [t] }
  (s.setThread t ⟨tid, some p, .init, detached, none⟩).setPhase t .running

def forkCleanup (new : ProcId) : State :=
  freeProcess cfg (finiSessionPgrp cfg s new) new

def forkThread (new : ProcId) (stackOk : Bool) : State :=
  match allocThread s with
  | (s, none) => forkCleanup cfg s new
  | (s, some (t, tid)) =>
    if stackOk then initThread s new t tid true
    else (abandonThread cfg s t tid).andThen fun s => forkCleanup cfg s new

def sysFork (cur : ProcId) (spaceOk stackOk : Bool) : State :=
  match allocProcess s cur with
  | (s, none) => s
  | (s, some new) =>
    if spaceOk then forkThread cfg (forkSessionPgrp cfg s new cur) new stackOk else freeProcess cfg s new

def doCreateThread (p : ProcId) (detached stackOk : Bool) : State :=
  match allocThread s with
  | (s, none) => s
  | (s, some (t, tid)) => if stackOk then initThread s p t tid detached else abandonThread cfg s t tid

def detachChild (p : ProcId) (s : State) (child : ProcId) : State :=
  let s := s.setProc p { s.proc p with childList := (s.proc p).childList.erase child }
  if (s.proc child).state = .exited then freeProcess cfg s child
  else
    let root := s.rootProcess
    let s := s.setProc root { s.proc root with childList := (s.proc root).childList ++ [child] }
    s.setProc child { s.proc child with parent := some root }

def detachChildProcesses (p : ProcId) : State :=
  (s.proc p).childList.foldl (fun s child => s.andThen fun s => detachChild cfg p s child) s

def doExitThread (c : ThreadId) (p : ProcId) : State :=
  let s := s.setProc p { s.proc p with threadList := (s.proc p).threadList.erase c }
  let s := if (s.proc p).threadList = [] then
      (s.setProc p { s.proc p with state := .exited }).setThread c { s.thread c with detached := true }
    else s
  if (s.thread c).detached then
    { s with threadReaperDetachedThreadList := s.threadReaperDetachedThreadList ++ [c] }.setThread c
      { s.thread c with process := some s.rootProcess, state := .exited }
  else
    (s.setProc p { s.proc p with threadList := (s.proc p).threadList ++ [c] }).setThread c
      { s.thread c with state := .exited }

def detachThreads (others : List ThreadId) : State :=
  { s with thread := fun t => if t ∈ others then { s.thread t with detached := true } else s.thread t }

def sysExit (c : ThreadId) (p : ProcId) : State :=
  if (s.proc p).parent = none then s.panic
  else if (s.proc p).exitInProgress then doExitThread s c p
  else
    let s := s.setProc p { s.proc p with exitInProgress := true }
    (detachThreads s ((s.proc p).threadList.filter (· ≠ c))).setPhase c .exiting

def exitFinish (c : ThreadId) (p : ProcId) : State :=
  (detachChildProcesses cfg (finiSessionPgrp cfg s p) p).andThen fun s => doExitThread s c p

def sysThreadJoin (c : ThreadId) (tid : PidT) : State × Result :=
  match getThread cfg s tid with
  | none => (s, .error .esrch)
  | some t =>
    if (s.thread c).joinerThread = some t then (s, .error .edeadlk)
    else if (s.thread t).joinerThread ≠ none then (s, .error .ebusy)
    else ((s.setThread t { s.thread t with joinerThread := some c }).setPhase c (.joining t), .ok 0)

def joinFinish (c : ThreadId) (p : ProcId) (t : ThreadId) : State :=
  let s := s.setProc p { s.proc p with threadList := (s.proc p).threadList.erase t }
  (freeThread cfg s t).setPhase c .running

def threadReaper (t : ThreadId) : State :=
  freeThread cfg { s with
    threadReaperDetachedThreadList := s.threadReaperDetachedThreadList.erase t } t

def exitedChild (candidates : List ProcId) : Option ProcId :=
  candidates.find? fun p => (s.proc p).state = .exited

-- The child that sys_waitpid finds; ok none is the sleep or WNOHANG.
def waitSelect (cur : ProcId) (pid : PidT) : Except Errno (Option ProcId) :=
  if -pid ≥ cfg.maxProcess ∨ pid ≥ cfg.maxProcess then .error .einval
  else if pid > 0 then
    match getProcess cfg s pid with
    | some child =>
      if (s.proc child).parent = some cur then .ok (exitedChild s [child]) else .error .einval
    | none => .error .einval
  else if pid = -1 then
    if (s.proc cur).childList = [] ∧ cur ≠ s.rootProcess then .error .einval
    else .ok (exitedChild s (s.proc cur).childList)
  else
    let pgid := if pid = 0 then (s.proc cur).pgid else -pid
    let members := (s.proc cur).childList.filter fun p => (s.proc p).pgid = pgid
    if members = [] then .error .einval else .ok (exitedChild s members)

def waitReap (cur child : ProcId) : State :=
  freeProcess cfg (s.setProc cur { s.proc cur with childList := (s.proc cur).childList.erase child }) child

def sysWaitpid (cur : ProcId) (pid : PidT) (statusFault : Bool) : State × Result :=
  match waitSelect cfg s cur pid with
  | .error e => (s, .error e)
  | .ok none => (s, .error .eagain)
  | .ok (some child) =>
    if statusFault then (s, .error .efault) else (waitReap cfg s cur child, .ok (s.proc child).pid)

inductive Action
  | setsid (c : ThreadId)
  | setpgrp (c : ThreadId)
  | setpgid (c : ThreadId) (pid pgid : PidT)
  | fork (c : ThreadId) (spaceOk stackOk : Bool)
  | threadCreate (c : ThreadId) (kernel detached stackOk : Bool)
  | exit (c : ThreadId)
  | exitFinish (c : ThreadId)
  | threadExit (c : ThreadId)
  | join (c : ThreadId) (tid : PidT)
  | joinFinish (c : ThreadId)
  | waitpid (c : ThreadId) (pid : PidT) (statusFault : Bool)
  | reaper (t : ThreadId)

def caller (c : ThreadId) : Option ProcId :=
  if (s.thread c).state = .init ∧ s.phase c = .running then (s.thread c).process else none

def sleeper (c : ThreadId) : Option (Phase × ProcId) :=
  if (s.thread c).state = .init then (s.thread c).process.map fun p => (s.phase c, p) else none

def transition : Action → Option State
  | .setsid c => (caller s c).map fun p => (sysSetsid cfg s p).1
  | .setpgrp c => (caller s c).map fun p => (sysSetpgrp cfg s p).1
  | .setpgid c pid pgid => (caller s c).map fun p => (sysSetpgid cfg s p pid pgid).1
  | .fork c spaceOk stackOk => (caller s c).map fun p => sysFork cfg s p spaceOk stackOk
  | .threadCreate c kernel detached stackOk =>
    (caller s c).map fun p => doCreateThread cfg s (if kernel then s.rootProcess else p) detached stackOk
  | .exit c => (caller s c).map fun p => sysExit s c p
  | .exitFinish c =>
    match sleeper s c with
    | some (.exiting, p) =>
      if (s.proc p).threadList.head? = some c ∨ (s.proc p).threadList.getLast? = some c then
        some (exitFinish cfg s c p)
      else none
    | _ => none
  | .threadExit c => (caller s c).map fun p => doExitThread s c p
  | .join c tid => (caller s c).map fun _ => (sysThreadJoin cfg s c tid).1
  | .joinFinish c =>
    match sleeper s c with
    | some (.joining t, p) => if (s.thread t).state = .exited then some (joinFinish cfg s c p t) else none
    | _ => none
  | .waitpid c pid statusFault => (caller s c).map fun p => (sysWaitpid cfg s p pid statusFault).1
  | .reaper t =>
    if s.threadReaperDetachedThreadList.head? = some t then some (threadReaper cfg s t) else none

def step (a : Action) : Option State := if s.panicked then none else transition cfg s a

def bootIds : Ids where
  pidTable e := if e = 1 then { PidDesc.empty with proc := some 0 }
    else if e = 2 then { PidDesc.empty with thread := some 0 } else PidDesc.empty
  freePiddescList := (List.range' 3 (cfg.maxProcess + cfg.maxThread - 2)).map Int.ofNat
  session _ := ⟨0, []⟩
  freeSessionList := List.range (cfg.maxProcess + cfg.maxThread)
  pgrp _ := ⟨0, []⟩
  freePgrpList := List.range (cfg.maxProcess + cfg.maxThread)

def boot : State where
  ids := bootIds cfg
  proc p := if p = 0 then ⟨1, none, .init, invalidPid, invalidPid, [], [0], false⟩ else Process.zero
  freeProcessList := List.range' 1 (cfg.maxProcess - 1)
  thread t := if t = 0 then ⟨2, some 0, .init, false, none⟩ else Thread.zero
  freeThreadList := List.range' 1 (cfg.maxThread - 1)
  threadReaperDetachedThreadList := []
  rootProcess := 0
  phase _ := .running
  panicked := false

def Booted : Prop := 0 < cfg.maxProcess ∧ 0 < cfg.maxThread ∧ s = boot cfg

end

end CheviotKernel.Procs
