import CheviotKernel.Fs.Vfs

namespace CheviotKernel.Vfs

open Dialogue Access

section Path

structure LookupData where
  vnode : Option VId
  parent : Option VId
  lastComponent : Option Name
  position : List Char
  separator : Bool
  nofollow : Bool

def skipSlashes (position : List Char) : List Char := position.dropWhile (· = '/')

def takeName (position : List Char) : Name := position.takeWhile (· ≠ '/')

def afterName (position : List Char) : List Char := position.dropWhile (· ≠ '/')

def pathToken (ld : LookupData) : LookupData :=
  match skipSlashes ld.position with
  | [] => { ld with position := [], separator := false, lastComponent := none }
  | ch => match afterName ch with
      | [] => { ld with position := [], separator := false, lastComponent := some (takeName ch) }
      | _ :: rest => { ld with position := rest, separator := true, lastComponent := some (takeName ch) }

def isLastComponent (ld : LookupData) : Bool := ld.separator = false ∨ ld.position = []

def dot : Name := ['.']

def dotdot : Name := ['.', '.']

end Path

section Walk

def crossMount (ld : LookupData) (v : VId) : Sys (Int × LookupData) := do
  let here ← look fun k => (k.vnode v).vnodeMountedHere
  match here with
  | none => pure (0, { ld with vnode := some v })
  | some m => do
      let tty ← look fun k =>
        decide ((k.superblock (k.vnode m).superblock).dev = devTDevTty) && sIschr (k.vnode m).mode
      if isLastComponent ld = true ∧ ld.nofollow = false ∧ tty = true then do
        let controlling ← look Kernel.controllingTty
        match controlling with
        | none => pure (-eperm, { ld with vnode := none })
        | some t => pure (0, { ld with vnode := some t })
      else pure (0, { ld with vnode := some m })

def lookupIn (ld : LookupData) (dvnode : VId) (name : Name) : Sys (Int × LookupData) := do
  let found ← vfsLookup dvnode name
  match found with
  | (0, some v) => crossMount { ld with parent := some dvnode } v
  | (sc, _) => pure (sc, { ld with parent := some dvnode, vnode := none })

def walkComponent (ld : LookupData) (dvnode : VId) (name : Name) : Sys (Int × LookupData) := do
  let mode ← look fun k => (k.vnode dvnode).mode
  if sIsdir mode = false then pure (-enotdir, ld)
  else if name = dot then pure (0, { ld with vnode := some dvnode })
  else if name = dotdot then do
    let root ← look Kernel.rootVnode
    if dvnode = root then pure (0, { ld with vnode := some root })
    else do
      let covered ← look fun k => (k.vnode dvnode).vnodeCovered
      lookupIn ld (covered.getD dvnode) name
  else lookupIn ld dvnode name

def lookupPathFrom : ℕ → LookupData → VId → Sys (Int × LookupData)
  | 0, ld, _ => pure (-einval, ld)
  | n + 1, ld, v =>
    let ld := pathToken ld
    match ld.lastComponent with
    | none => pure (-einval, ld)
    | some name =>
      if isLastComponent ld = true then pure (0, { ld with vnode := some v, parent := none })
      else do
        let walked ← walkComponent { ld with vnode := none, parent := some v } v name
        match walked with
        | (0, ⟨some u, parent, lastComponent, position, separator, nofollow⟩) =>
          lookupPathFrom n ⟨some u, parent, lastComponent, position, separator, nofollow⟩ u
        | (rc, ld) => pure (rc, ld)

def startVnode (k : Kernel) (path : List Char) : VId := if path.head? = some '/' then k.rootVnode else k.currentDir

-- init_lookup and lookup_path of a LOOKUP_PARENT lookup; path is none when copyinstring fails. The loop that strips
-- trailing slashes starts on the terminating NUL and strips nothing.
def lookupParent (path : Option (List Char)) : Sys (Int × LookupData) := do
  let ld : LookupData := ⟨none, none, none, [], false, false⟩
  let pageFree ← look Kernel.pageFree
  if pageFree = false then pure (-1, ld)
  else match path with
    | none => pure (-efault, ld)
    | some path => do
        let start ← look fun k => startVnode k path
        let mode ← look fun k => (k.vnode start).mode
        if sIsdir mode = false then pure (-enotdir, ld)
        else if path = ['/'] then pure (-einval, ld)
        else lookupPathFrom (path.length + 1) { ld with position := path } start

def lookupLastComponent (ld : LookupData) : Sys (Int × LookupData) :=
  match ld.vnode, ld.lastComponent with
  | some parent, some name => walkComponent { ld with vnode := none, parent := some parent } parent name
  | parent, _ => pure (-enoent, { ld with vnode := none, parent := parent })

-- What the walk of the last component returned is not looked at.

def lookup (path : Option (List Char)) : Sys (Int × LookupData) := do
  let reached ← lookupParent path
  if reached.1 ≠ 0 then pure reached
  else do
    let last ← lookupLastComponent reached.2
    pure (0, last.2)

end Walk

section Open

def installFilp (k : Kernel) (fd : ℕ) (f : FilpId) (v : VId) (oflags : OFlags) : Kernel :=
  let k := k.setFilp f { k.filp f with offset := if oflags.append then (k.vnode v).size else 0 }
  k.setFd fd ⟨some f, (k.fdTable fd).alloced, true, (k.fdTable fd).closeOnExec || oflags.cloexec⟩

-- The check_access before it is compiled out.
def truncateOnOpen (v : VId) (oflags : OFlags) : Sys Int := do
  let mode ← look fun k => (k.vnode v).mode
  if oflags.trunc = true ∧ sIsreg mode = true then vfsTruncate v 0 else pure 0

def openVnode (cfg : Layout) (v : VId) (oflags : OFlags) : Sys Int := do
  let slot ← look fun k => fdAlloc k 0 cfg.filedescMax
  match slot with
  | none => pure (-enomem)
  | some (fd, k) => do
      alter fun _ => k
      let fresh ← look filpGetNew
      match fresh with
      | none => do
          alter fun k => fdFree k fd
          pure (-enomem)
      | some (f, k) => do
          alter fun _ => k.setFilp f { k.filp f with flags := oflags, vnode := some v }
          let sc ← truncateOnOpen v oflags
          if sc ≠ 0 then do
            alter fun k => filpRelease (fdFree k fd) f
            pure sc
          else do
            alter fun k => installFilp k fd f v oflags
            pure fd

def createRefused (dvnode : VId) (oflags : OFlags) : Sys Bool :=
  if oflags.creat = true then do
    let granted ← checkAccessOn dvnode none wOk
    pure (!granted)
  else pure false

def createVnode (dvnode : VId) (name : Name) (oflags : OFlags) (mode : BitVec 32) : Sys (Int × Option VId) := do
  let refused ← createRefused dvnode oflags
  if refused = true then pure (-enoent, none)
  else if name = dot ∨ name = dotdot then pure (-enomem, none)
  else do
    let uid ← look Kernel.uid
    let gid ← look Kernel.gid
    vfsCreate dvnode name oflags uid gid mode

def doOpen (cfg : Layout) (ld : LookupData) (oflags : OFlags) (mode : BitVec 32) : Sys Int :=
  match ld.vnode, ld.parent, ld.lastComponent with
  | some v, _, _ => openVnode cfg v oflags
  | none, some dvnode, some name => do
      let created ← createVnode dvnode name oflags mode
      match created with
      | (0, some v) => openVnode cfg v oflags
      | (sc, _) => pure sc
  | none, _, _ => pure (-enoent)

def sysOpen (cfg : Layout) (path : Option (List Char)) (oflags : OFlags) (mode : BitVec 32) : Sys Int := do
  let found ← lookup path
  if found.1 ≠ 0 then pure found.1 else doOpen cfg found.2 oflags mode

def oRdonly : OFlags := ⟨.rdonly, false, false, false, false⟩

def sysExec (cfg : Layout) (path : Option (List Char)) : Sys Int := do
  let priv ← look Kernel.privExec
  if priv = false then pure (-eperm)
  else do
    let found ← lookup path
    if found.1 ≠ 0 then pure found.1
    else do
      let fd ← doOpen cfg found.2 oRdonly 0
      if fd < 0 then pure (-enoent)
      else withVnode fd
where
  withVnode (fd : Int) : Sys Int := do
    let filp ← look fun k => filpGet cfg k fd
    match filp with
    | none => pure (-ebadf)
    | some f => do
        let vnode ← look fun k => vnodeGetFromFilp k f
        match vnode with
        | none => pure (-einval)
        | some v => do
            let granted ← checkAccessOn v none (rOk ||| xOk)
            if granted = false then pure (-eperm)
            else do
              let reply ← await (.exec fd)
              pure reply.status

end Open

end CheviotKernel.Vfs
