import CheviotKernel.Library.Dialogue
import CheviotKernel.Fs.Access

namespace CheviotKernel.Vfs

open Function Dialogue Access

abbrev VId := ℕ

abbrev FilpId := ℕ

abbrev SbId := ℕ

abbrev Name := List Char

section Constants

def pageSize : Int := 4096

def eperm : Int := 1
def enoent : Int := 2
def eio : Int := 5
def e2big : Int := 7
def ebadf : Int := 9
def enomem : Int := 12
def eacces : Int := 13
def efault : Int := 14
def enotdir : Int := 20
def einval : Int := 22
def eintr : Int := 4
def enosys : Int := 88

def sIfmt : BitVec 32 := 0o170000

def sIschr (mode : BitVec 32) : Bool := mode &&& sIfmt = 0o020000

def sIsdir (mode : BitVec 32) : Bool := mode &&& sIfmt = 0o040000

def sIsblk (mode : BitVec 32) : Bool := mode &&& sIfmt = 0o060000

def sIsreg (mode : BitVec 32) : Bool := mode &&& sIfmt = 0o100000

def sIsfifo (mode : BitVec 32) : Bool := mode &&& sIfmt = 0o010000

def sIssock (mode : BitVec 32) : Bool := mode &&& sIfmt = 0o140000

def devTDevTty : ℕ := 0x0500

end Constants

section Machine

def wrap64 (x : Int) : Int := Int.bmod x (2 ^ 64)

def offT (x : Int) : Int := Int.bmod x (2 ^ 32)

def ssizeT (x : Int) : Int := Int.bmod x (2 ^ 32)

def sizeT (x : Int) : ℕ := (x % 2 ^ 32).toNat

def alignDown (val alignment : Int) : Int := val - val.tmod alignment

end Machine

section Kernel

structure SuperBlock where
  readOnly : Bool
  abort : Bool
  dev : ℕ

structure VNode where
  superblock : SbId
  inodeNr : Int
  mode : BitVec 32
  uid : Id
  gid : Id
  size : Int
  vnodeCovered : Option VId
  vnodeMountedHere : Option VId
  charReadBusy : Bool
  charWriteBusy : Bool

structure OFlags where
  accMode : OpenMode
  creat : Bool
  trunc : Bool
  append : Bool
  cloexec : Bool
  deriving DecidableEq

structure Filp where
  offset : Int
  flags : OFlags
  vnode : Option VId

structure FileDesc where
  filp : Option FilpId
  alloced : Bool
  valid : Bool
  closeOnExec : Bool

structure Layout where
  userBase : ℕ
  userCeiling : ℕ
  kernelBase : ℕ
  kernelCeiling : ℕ
  iovMax : Int
  filedescMax : ℕ

structure Kernel where
  current : Process
  uid : Id
  gid : Id
  privExec : Bool
  pageFree : Bool
  currentDir : VId
  rootVnode : VId
  controllingTty : Option VId
  fdTable : ℕ → FileDesc
  filp : FilpId → Filp
  filpFreeList : List FilpId
  vnode : VId → VNode
  vnodeHash : List VId
  vnodeFreeList : List VId
  superblock : SbId → SuperBlock

def Kernel.setVnode (k : Kernel) (v : VId) (x : VNode) : Kernel := { k with vnode := update k.vnode v x }

def Kernel.setFilp (k : Kernel) (f : FilpId) (x : Filp) : Kernel := { k with filp := update k.filp f x }

def Kernel.setFd (k : Kernel) (fd : ℕ) (x : FileDesc) : Kernel := { k with fdTable := update k.fdTable fd x }

def Kernel.accessNode (k : Kernel) (v : VId) : Access.VNode :=
  ⟨(k.vnode v).uid, (k.vnode v).gid, (k.vnode v).mode, (k.superblock (k.vnode v).superblock).readOnly⟩

end Kernel

section Messages

inductive Msg
  | lookup (dvnode : VId) (name : Name)
  | create (dvnode : VId) (name : Name) (oflags : OFlags) (uid gid : Id) (mode : BitVec 32)
  | read (vnode : VId) (offset : Int) (sz : ℕ)
  | write (vnode : VId) (offset : Int) (sz : ℕ)
  | truncate (vnode : VId) (size : ℕ)
  | stat (vnode : VId)
  | unlink (dvnode vnode : VId) (name : Name)
  deriving DecidableEq

inductive Event
  | access (vnode : VId) (filp : Option OpenMode) (desiredAccess : BitVec 32) (granted : Bool)
  | send (msg : Msg)
  | getblk (vnode : VId) (fileOffset : Int)
  | copy (offset : Int) (len : ℕ)
  | sleep (vnode : VId)
  | pipe (vnode : VId) (sz : ℕ)
  | exec (fd : Int)
  | answered (status : Int)
  deriving DecidableEq

inductive Block
  | null
  | valid
  | invalid
  deriving DecidableEq

structure Attr where
  inodeNr : Int
  size : Int
  uid : Id
  gid : Id
  mode : BitVec 32

structure Answer where
  status : Int
  attr : Attr
  block : Block
  meanwhile : Kernel → Kernel

abbrev Sys := Call Kernel Answer Event

def await (e : Event) : Sys Answer := ask e (fun a => .answered a.status) fun a k => a.meanwhile k

end Messages

section Objects

def filpGet (cfg : Layout) (k : Kernel) (fd : Int) : Option FilpId :=
  if fd < 0 ∨ fd ≥ cfg.filedescMax then none
  else if (k.fdTable fd.toNat).valid = false then none
  else (k.fdTable fd.toNat).filp

section

variable (k : Kernel)

def vnodeGetFromFilp (f : FilpId) : Option VId := (k.filp f).vnode

def vnodeFind (sb : SbId) (inodeNr : Int) : Option VId :=
  k.vnodeHash.find? fun v => (k.vnode v).superblock = sb ∧ (k.vnode v).inodeNr = inodeNr

def vnodeGet (sb : SbId) (inodeNr : Int) : Option VId :=
  if (k.superblock sb).abort = true then none else vnodeFind k sb inodeNr

def vnodeGetNew (sb : SbId) : Option (VId × Kernel) :=
  if (k.superblock sb).abort = true then none
  else match k.vnodeFreeList with
    | [] => none
    | v :: rest => some (v, { k with vnodeFreeList := rest }.setVnode v ⟨sb, -1, 0, 9999, 9999, 0, none, none, false, false⟩)

def enterVnode (v : VId) (a : Attr) : Kernel :=
  { k with vnodeHash := v :: k.vnodeHash }.setVnode v
    { k.vnode v with inodeNr := a.inodeNr, size := a.size, uid := a.uid, gid := a.gid, mode := a.mode }

-- The loop of fd_alloc runs up to and including max_fd.
def fdAlloc (minFd maxFd : ℕ) : Option (ℕ × Kernel) :=
  match (List.range' minFd (maxFd + 1 - minFd)).find? fun fd => (k.fdTable fd).alloced = false with
  | none => none
  | some fd => some (fd, k.setFd fd ⟨none, true, false, false⟩)

def fdFree (fd : ℕ) : Kernel := k.setFd fd ⟨none, false, false, false⟩

def filpGetNew : Option (FilpId × Kernel) :=
  match k.filpFreeList with
  | [] => none
  | f :: rest => some (f, { k with filpFreeList := rest }.setFilp f
      { k.filp f with flags := ⟨.rdonly, false, false, false, false⟩, vnode := none })

def filpRelease (f : FilpId) : Kernel :=
  { k with filpFreeList := f :: k.filpFreeList }.setFilp f { k.filp f with vnode := none }

end

def checkAccessOn (v : VId) (filp : Option FilpId) (desiredAccess : BitVec 32) : Sys Bool := do
  let mode ← look fun k => filp.map fun f => (k.filp f).flags.accMode
  let granted ← look fun k => (checkAccess k.current (k.accessNode v) mode desiredAccess).isOk
  emit (.access v mode desiredAccess granted)
  pure granted

end Objects

section Vfs

inductive Cursor
  | null
  | filp (f : FilpId)
  | value (x : Int)

def Cursor.offset (k : Kernel) : Cursor → Int
  | .null => 0
  | .filp f => (k.filp f).offset
  | .value x => x

def advance (f : FilpId) (n : Int) (k : Kernel) : Kernel :=
  k.setFilp f { k.filp f with offset := wrap64 ((k.filp f).offset + n) }

def Cursor.advance (n : Int) (k : Kernel) : Cursor → Kernel
  | .filp f => Vfs.advance f n k
  | _ => k

def vfsTransfer (request : Int → Msg) (offset : Cursor) : Sys Int := do
  let at' ← look fun k => offset.offset k
  let reply ← await (.send (request at'))
  if reply.status < 0 then pure reply.status
  else do
    alter fun k => offset.advance reply.status k
    pure reply.status

def vfsRead (v : VId) (nbytes : ℕ) (offset : Cursor) : Sys Int := vfsTransfer (fun x => .read v x nbytes) offset

def vfsWrite (v : VId) (nbytes : ℕ) (offset : Cursor) : Sys Int := vfsTransfer (fun x => .write v x nbytes) offset

def vfsWritev (v : VId) (nbytes : ℕ) (offset : Cursor) : Sys Int := vfsTransfer (fun x => .write v x nbytes) offset

def vfsTruncate (v : VId) (size : ℕ) : Sys Int := do
  let reply ← await (.send (.truncate v size))
  pure reply.status

def newVnode (sb : SbId) (attr : Attr) : Sys (Int × Option VId) := do
  let fresh ← look fun k => vnodeGetNew k sb
  match fresh with
  | none => pure (-enomem, none)
  | some (v, k) => do
      alter fun _ => enterVnode k v attr
      pure (0, some v)

def vfsLookup (dvnode : VId) (name : Name) : Sys (Int × Option VId) := do
  let reply ← await (.send (.lookup dvnode name))
  if reply.status ≠ 0 then pure (reply.status, none)
  else do
    let sb ← look fun k => (k.vnode dvnode).superblock
    let known ← look fun k =>
      if reply.attr.inodeNr = (k.vnode dvnode).inodeNr then some dvnode else vnodeGet k sb reply.attr.inodeNr
    match known with
    | some v => pure (0, some v)
    | none => newVnode sb reply.attr

def vfsCreate (dvnode : VId) (name : Name) (oflags : OFlags) (uid gid : Id) (mode : BitVec 32) :
    Sys (Int × Option VId) := do
  let sb ← look fun k => (k.vnode dvnode).superblock
  let reply ← await (.send (.create dvnode name oflags uid gid mode))
  if reply.status ≠ 0 then pure (reply.status, none) else newVnode sb reply.attr

end Vfs

section Cache

-- bread and bread_zero as the file functions see them: whether a page is returned. getblk decides if it is cached.
-- bread_zero does not test for NULL.
def bread (v : VId) (fileOffset : Int) : Sys Bool := do
  let page ← await (.getblk v fileOffset)
  match page.block with
  | .null => pure false
  | .valid => pure true
  | .invalid => do
      let xfered ← vfsRead v pageSize.toNat (.value fileOffset)
      pure (decide (0 < xfered))

def breadZero (v : VId) (fileOffset : Int) : Sys Bool := do
  let page ← await (.getblk v fileOffset)
  pure (decide (page.block ≠ .null))

def nbytesToWrite (size fileOffset : Int) : ℕ :=
  if wrap64 (size - fileOffset) < pageSize then sizeT (size.tmod pageSize) else pageSize.toNat

def bwrite (v : VId) (fileOffset : Int) : Sys Unit := do
  let size ← look fun k => (k.vnode v).size
  let _ ← vfsWrite v (nbytesToWrite size fileOffset) (.value fileOffset)
  pure ()

end Cache

section Bounds

def boundsCheckIn (base ceiling addr sz : ℕ) : Int :=
  if sz ≥ 2 ^ 31 then -e2big
  else if addr < base ∨ addr ≥ ceiling ∨ sz ≥ ceiling - addr then -efault
  else 0

def boundsCheck (cfg : Layout) (addr sz : ℕ) : Int := boundsCheckIn cfg.userBase cfg.userCeiling addr sz

def boundsCheckKernel (cfg : Layout) (addr sz : ℕ) : Int := boundsCheckIn cfg.kernelBase cfg.kernelCeiling addr sz

end Bounds

end CheviotKernel.Vfs
