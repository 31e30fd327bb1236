import CheviotKernel.Fs.Vfs

namespace CheviotKernel.Vfs

open Dialogue Access

section File

def nbytesXfer (remainingToXfer : ℕ) (clusterOffset : Int) : ℕ :=
  if remainingToXfer < sizeT (pageSize - clusterOffset) then remainingToXfer else sizeT (pageSize - clusterOffset)

def shortCount (nbytesTotal : ℕ) : Int := if nbytesTotal > 0 then nbytesTotal else -eio

def copyFromPage (clusterOffset : Int) (nbytes : ℕ) (inkernel : Bool) : Sys Bool :=
  if inkernel = true then do
    emit (.copy clusterOffset nbytes)
    pure true
  else do
    let reply ← await (.copy clusterOffset nbytes)
    pure (decide (reply.status = 0))

def readCluster (v : VId) (f : FilpId) (inkernel : Bool) (clusterBase clusterOffset : Int) (nbytes nbytesTotal : ℕ) :
    Sys (ℕ ⊕ Int) := do
  let page ← bread v clusterBase
  if page = false then pure (.inr (shortCount nbytesTotal))
  else do
    let copied ← copyFromPage clusterOffset nbytes inkernel
    if copied = false then pure (.inr (-efault))
    else do
      alter (advance f nbytes)
      pure (.inl (nbytesTotal + nbytes))

def readRound (v : VId) (f : FilpId) (inkernel : Bool) (nbytesToRead nbytesTotal : ℕ) : Sys (ℕ ⊕ Int) :=
  if nbytesTotal < nbytesToRead then do
    let offset ← look fun k => (k.filp f).offset
    readCluster v f inkernel (alignDown offset pageSize) (offset.tmod pageSize)
      (nbytesXfer (nbytesToRead - nbytesTotal) (offset.tmod pageSize)) nbytesTotal
  else pure (.inr nbytesTotal)

def bytesToRead (size offset : Int) (sz : ℕ) : ℕ := if sizeT (size - offset) < sz then sizeT (size - offset) else sz

def readFromFile (v : VId) (sz : ℕ) (f : FilpId) (inkernel : Bool) : Sys Int := do
  let size ← look fun k => (k.vnode v).size
  let offset ← look fun k => (k.filp f).offset
  if offset ≥ size then pure 0
  else loop (readRound v f inkernel (bytesToRead size offset sz)) 0

def growTo (v : VId) (offset : Int) (k : Kernel) : Kernel :=
  if offset > (k.vnode v).size then k.setVnode v { k.vnode v with size := offset } else k

def clusterPage (v : VId) (size clusterBase : Int) : Sys Bool :=
  if clusterBase < size then bread v clusterBase else breadZero v clusterBase

def writeCluster (v : VId) (f : FilpId) (size clusterBase clusterOffset : Int) (nbytes nbytesTotal : ℕ) :
    Sys (ℕ ⊕ Int) := do
  let page ← clusterPage v size clusterBase
  if page = false then pure (.inr (shortCount nbytesTotal))
  else do
    let reply ← await (.copy clusterOffset nbytes)
    if reply.status ≠ 0 then pure (.inr (-efault))
    else do
      alter (advance f nbytes)
      alter fun k => growTo v (k.filp f).offset k
      bwrite v clusterBase
      pure (.inl (nbytesTotal + nbytes))

-- cluster_base and cluster_offset are off_t here.
def writeRound (v : VId) (f : FilpId) (nbytesToWrite nbytesTotal : ℕ) : Sys (ℕ ⊕ Int) :=
  if nbytesTotal < nbytesToWrite then do
    let offset ← look fun k => (k.filp f).offset
    let size ← look fun k => (k.vnode v).size
    writeCluster v f size (offT (alignDown offset pageSize)) (offT (offset.tmod pageSize))
      (nbytesXfer (nbytesToWrite - nbytesTotal) (offT (offset.tmod pageSize))) nbytesTotal
  else pure (.inr nbytesTotal)

def writeToFile (v : VId) (sz : ℕ) (f : FilpId) : Sys Int := loop (writeRound v f sz) 0

theorem tmod_pageSize (x : Int) : -4096 < x.tmod pageSize ∧ x.tmod pageSize < 4096 := by
  have hpos : (0 : Int) < pageSize := by decide
  have hneg := Int.tmod_lt_of_pos (-x) hpos
  rw [Int.neg_tmod] at hneg
  exact ⟨by simp only [pageSize] at hneg ⊢; omega, Int.tmod_lt_of_pos x hpos⟩

theorem offT_tmod (x : Int) : offT (x.tmod pageSize) = x.tmod pageSize := by
  obtain ⟨h0, h⟩ := tmod_pageSize x
  exact Int.bmod_eq_of_le (by omega) (by omega)

theorem nbytesXfer_eq (n : ℕ) {x : Int} (h0 : -4096 < x) (h : x < 4096) : nbytesXfer n x = min n (4096 - x).toNat := by
  unfold nbytesXfer sizeT pageSize
  split_ifs <;> omega

theorem bytesToRead_le {size offset : Int} (h : offset < size) (sz : ℕ) : offset + bytesToRead size offset sz ≤ size := by
  unfold bytesToRead sizeT
  split_ifs <;> omega

end File

section Devices

def transferred (totalXfered xfered : Int) : Int := if totalXfered = 0 then xfered else ssizeT totalXfered

-- total_xfered is a size_t: it wraps.
def blockRound (transfer : ℕ → Sys Int) (sz totalXfered : ℕ) : Sys (ℕ ⊕ Int) :=
  if totalXfered < sz then do
    let xfered ← transfer (sz - totalXfered)
    if xfered = 0 then pure (.inr (ssizeT totalXfered))
    else if xfered < 0 then pure (.inr (transferred totalXfered xfered))
    else pure (.inl (sizeT (totalXfered + xfered)))
  else pure (.inr (ssizeT totalXfered))

def readFromBlock (v : VId) (sz : ℕ) (offset : Cursor) : Sys Int :=
  loop (blockRound (fun remaining => vfsRead v remaining offset) sz) 0

def writeToBlock (v : VId) (sz : ℕ) (offset : Cursor) : Sys Int :=
  loop (blockRound (fun remaining => vfsWrite v remaining offset) sz) 0

-- The loop that adds up the vector does not move along it.
def writeToBlockv (v : VId) (iov : List ℕ) (iovCnt : ℕ) (offset : Cursor) : Sys Int :=
  vfsWritev v (sizeT (iovCnt * iov.headD 0)) offset

def setCharReadBusy (v : VId) (busy : Bool) (k : Kernel) : Kernel :=
  k.setVnode v { k.vnode v with charReadBusy := busy }

def setCharWriteBusy (v : VId) (busy : Bool) (k : Kernel) : Kernel :=
  k.setVnode v { k.vnode v with charWriteBusy := busy }

def charWait (flag : VNode → Bool) (v : VId) (_ : Unit) : Sys (Unit ⊕ Bool) := do
  let busy ← look fun k => flag (k.vnode v)
  if busy = true then do
    let reply ← await (.sleep v)
    if reply.status ≠ 0 then pure (.inr true) else pure (.inl ())
  else pure (.inr false)

def charRead (v : VId) (sz : ℕ) : Sys Int := if sz > 0 then vfsRead v sz .null else pure 0

def readFromChar (v : VId) (sz : ℕ) : Sys Int := do
  let interrupted ← loop (charWait VNode.charReadBusy v) ()
  if interrupted = true then pure (-eintr)
  else do
    alter (setCharReadBusy v true)
    let xfered ← charRead v sz
    alter (setCharReadBusy v false)
    pure xfered

def charRound (v : VId) (count : ℕ × Int × Int) : Sys ((ℕ × Int × Int) ⊕ Int) :=
  if count.1 > 0 then do
    let xfered ← vfsWrite v count.1 .null
    if xfered ≤ 0 then pure (.inr (transferred count.2.1 xfered))
    else pure (.inl (sizeT (count.1 - xfered), ssizeT (count.2.1 + xfered), xfered))
  else pure (.inr (transferred count.2.1 count.2.2))

def writeToChar (v : VId) (sz : ℕ) : Sys Int := do
  let interrupted ← loop (charWait VNode.charWriteBusy v) ()
  if interrupted = true then pure (-eintr)
  else do
    alter (setCharWriteBusy v true)
    let retval ← loop (charRound v) (sz, 0, 0)
    alter (setCharWriteBusy v false)
    pure retval

def throughPipe (v : VId) (sz : ℕ) : Sys Int := do
  let reply ← await (.pipe v sz)
  pure reply.status

def readFromPipe (v : VId) (sz : ℕ) : Sys Int := throughPipe v sz

def writeToPipe (v : VId) (sz : ℕ) : Sys Int := throughPipe v sz

end Devices

section Syscalls

variable (cfg : Layout)

def withFilp (fd : Int) (noVnode : Int) (body : FilpId → VId → Sys Int) : Sys Int := do
  let filp ← look fun k => filpGet cfg k fd
  match filp with
  | none => pure (-ebadf)
  | some f => do
      let vnode ← look fun k => vnodeGetFromFilp k f
      match vnode with
      | none => pure noVnode
      | some v => body f v

def writeByType (f : FilpId) (v : VId) (sz : ℕ) : Sys Int := do
  let mode ← look fun k => (k.vnode v).mode
  if sIschr mode then writeToChar v sz
  else if sIsreg mode then writeToFile v sz f
  else if sIsfifo mode then writeToPipe v sz
  else if sIsblk mode then writeToBlock v sz (.filp f)
  else if sIssock mode then pure (-enosys)
  else pure (-einval)

def sysWrite (fd : Int) (src sz : ℕ) : Sys Int :=
  if boundsCheck cfg src sz ≠ 0 then pure (boundsCheck cfg src sz)
  else withFilp cfg fd (-einval) fun f v => do
    let granted ← checkAccessOn v (some f) wOk
    if granted = true then writeByType f v sz else pure (-eacces)

def givenCursor (f : FilpId) : Option (Option Int) → Cursor
  | some (some x) => .value x
  | _ => .filp f

def sysPwritev (fd : Int) (iov : Option (List ℕ)) (iovCnt : Int) (offset : Option (Option Int)) : Sys Int :=
  if iovCnt < 1 ∨ iovCnt > cfg.iovMax then pure (-einval)
  else match iov, offset with
    | none, _ => pure (-efault)
    | some _, some none => pure (-efault)
    | some iov, given => withFilp cfg fd (-einval) fun f v => do
        let granted ← checkAccessOn v (some f) rOk
        if granted = true then do
          let mode ← look fun k => (k.vnode v).mode
          if sIsblk mode then
            writeToBlockv v iov iovCnt.toNat (givenCursor f given)
          else pure (-ebadf)
        else pure (-eacces)

def sysTruncate (fd : Int) (_sz : ℕ) : Sys Int :=
  withFilp cfg fd (-efault) fun _ v => do
    let mode ← look fun k => (k.vnode v).mode
    if sIsreg mode then vfsTruncate v 0 else pure (-einval)

def readByType (f : FilpId) (v : VId) (sz : ℕ) : Sys Int := do
  let mode ← look fun k => (k.vnode v).mode
  if sIschr mode then readFromChar v sz
  else if sIsreg mode then readFromFile v sz f false
  else if sIsfifo mode then readFromPipe v sz
  else if sIsblk mode then readFromBlock v sz (.filp f)
  else if sIssock mode then pure (-enosys)
  else pure (-ebadf)

def sysRead (fd : Int) (dst sz : ℕ) : Sys Int :=
  if boundsCheck cfg dst sz ≠ 0 then pure (boundsCheck cfg dst sz)
  else withFilp cfg fd (-einval) fun f v => do
    let granted ← checkAccessOn v (some f) rOk
    if granted = true then readByType f v sz else pure (-eacces)

def kread (fd : Int) (dst sz : ℕ) : Sys Int :=
  if boundsCheckKernel cfg dst sz ≠ 0 then pure (boundsCheckKernel cfg dst sz)
  else withFilp cfg fd (-einval) fun f v => do
    let granted ← checkAccessOn v (some f) rOk
    if granted = true then do
      let mode ← look fun k => (k.vnode v).mode
      if sIsreg mode then readFromFile v sz f true else pure (-ebadf)
    else pure (-eacces)

inductive Whence
  | set
  | cur
  | fin
  | other
  deriving DecidableEq

def seekTarget (k : Kernel) (f : FilpId) (v : VId) (pos : Int) : Whence → Option Int
  | .set => some pos
  | .cur => some (wrap64 ((k.filp f).offset + pos))
  | .fin => some (wrap64 ((k.vnode v).size + pos))
  | .other => none

def seek (pos : Int) (whence : Whence) (f : FilpId) (v : VId) : Sys Int := do
  let mode ← look fun k => (k.vnode v).mode
  if sIsreg mode = false ∧ sIsblk mode = false then pure (-einval)
  else do
    let target ← look fun k => seekTarget k f v pos whence
    match target with
    | none => pure (-einval)
    | some x => do
        alter fun k => k.setFilp f { k.filp f with offset := x }
        pure (offT x)

def sysLseek (fd : Int) (pos : Int) (whence : Whence) : Sys Int := withFilp cfg fd (-einval) (seek (offT pos) whence)

-- pos: none when copyin fails.
def sysLseek64 (fd : Int) (pos : Option Int) (whence : Whence) : Sys Int :=
  match pos with
  | none => pure (-efault)
  | some pos => withFilp cfg fd (-einval) (seek (wrap64 pos) whence)

end Syscalls

section Rounds

variable (v : VId) (f : FilpId) (inkernel : Bool) (n : ℕ) (offset : Cursor)

theorem await_takes (e : Event) : Takes 1 (await e) := .ask _ _ _

theorem vfsTransfer_takes (request : Int → Msg) : Takes 1 (vfsTransfer request offset) := by
  refine (Takes.look _).bind fun x => (await_takes _).bind fun reply => ?_
  split_ifs <;> exact .of_same fun _ => rfl

theorem copyFromPage_takes (x : Int) : Takes 0 (copyFromPage x n inkernel) := by
  unfold copyFromPage
  split_ifs
  · exact .of_same fun _ => rfl
  · exact (await_takes _).weaken.bind fun _ => .pure _

theorem bread_takes (x : Int) : Takes 1 (bread v x) := by
  refine (await_takes _).bind fun page => ?_
  split
  · exact .pure _
  · exact .pure _
  · exact (vfsTransfer_takes _ _).weaken.bind fun _ => .pure _

theorem clusterPage_takes (size x : Int) : Takes 1 (clusterPage v size x) := by
  unfold clusterPage
  split_ifs
  · exact bread_takes v x
  · exact (await_takes _).bind fun _ => .pure _

theorem readRound_ample : Ample (readRound v f inkernel n) := by
  refine ample_of_waits fun _ => .guarded ((Takes.look _).bind fun _ => (bread_takes v _).bind fun page => ?_)
  split_ifs
  · exact .pure _
  refine (copyFromPage_takes _ _ _).bind fun copied => ?_
  split_ifs <;> exact .of_same fun _ => rfl

theorem writeRound_ample : Ample (writeRound v f n) := by
  refine ample_of_waits fun _ => .guarded ((Takes.look _).bind fun _ => (Takes.look _).bind fun size =>
    (clusterPage_takes v size _).bind fun page => ?_)
  split_ifs
  · exact .pure _
  refine (await_takes _).weaken.bind fun reply => ?_
  split_ifs
  · exact .pure _
  · exact (Takes.alter _).bind fun _ => (Takes.alter _).bind fun _ =>
      ((Takes.look _).bind fun _ => (vfsTransfer_takes _ _).weaken.bind fun _ => .pure _).bind fun _ => .pure _

theorem blockRound_ample (request : ℕ → Int → Msg) :
    Ample (blockRound (fun n => vfsTransfer (request n) offset) n) := by
  refine ample_of_waits fun _ => .guarded ((vfsTransfer_takes _ _).bind fun xfered => ?_)
  split_ifs <;> exact .pure _

theorem charRound_ample : Ample (charRound v) := by
  refine ample_of_waits fun _ => .guarded ((vfsTransfer_takes _ _).bind fun xfered => ?_)
  split_ifs <;> exact .pure _

theorem charWait_ample (flag : VNode → Bool) : Ample (charWait flag v) := by
  refine ample_of_waits fun _ w => Waits.guarded ((await_takes _).bind fun reply => ?_) w
  split_ifs <;> exact .pure _

end Rounds

end CheviotKernel.Vfs
