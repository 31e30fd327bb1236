import CheviotKernel.Fs.Authority

namespace CheviotKernel.PathPages

open Dialogue Vfs

structure Pages where
  allocated : ℕ
  freed : ℕ
  deriving DecidableEq

structure Lookup where
  data : LookupData
  path : Option (List Char)
  startVnode : VId
  pages : Pages

inductive Flags
  | node (nofollow : Bool)
  | parent
  | remove

def Flags.nofollow : Flags → Bool
  | .node nofollow => nofollow
  | _ => false

def enotsup : Int := 134

def Lookup.kfreePage (l : Lookup) : Lookup := { l with pages := { l.pages with freed := l.pages.freed + 1 } }

-- copied is the string that copyinstring finds, none when it fails.
def initLookup (copied : Option (List Char)) (flags : Flags) : Sys (Int × Lookup) := do
  let l : Lookup := ⟨⟨none, none, none, [], false, flags.nofollow⟩, none, 0, ⟨0, 0⟩⟩
  let pageFree ← look Kernel.pageFree
  if pageFree = false then pure (-1, l)
  else match copied with
    | none => pure (-efault, { l with pages := ⟨1, 0⟩ }.kfreePage)
    | some path => do
        let start ← look fun k => startVnode k path
        let mode ← look fun k => (k.vnode start).mode
        let l := { l with path := some path, startVnode := start, pages := ⟨1, 0⟩ }
        if sIsdir mode = false then pure (-enotdir, l.kfreePage) else pure (0, l)

def lookupPath (l : Lookup) : Sys (Int × Lookup) := do
  let path := l.path.getD []
  let reached ← lookupPathFrom (path.length + 1) { l.data with position := path } l.startVnode
  pure (reached.1, { l with data := reached.2 })

def lookupLastComponent (l : Lookup) : Sys (Int × Lookup) := do
  let last ← Vfs.lookupLastComponent l.data
  pure (last.1, { l with data := last.2 })

def lookup (copied : Option (List Char)) (flags : Flags) : Sys (Int × Lookup) := do
  let started ← initLookup copied flags
  let l := started.2
  if started.1 ≠ 0 then pure started
  else match flags with
    | .parent =>
      if l.path = some ['/'] then pure (-einval, l)
      else do
        let reached ← lookupPath l
        if reached.1 ≠ 0 then pure reached
        else do
          let last ← lookupLastComponent reached.2
          pure (0, last.2)
    | .remove => pure (-enotsup, l)
    | .node _ =>
      if l.path = some ['/'] then do
        let root ← look Kernel.rootVnode
        pure (0, { l with data := { l.data with vnode := some root } })
      else do
        let reached ← lookupPath l
        if reached.1 ≠ 0 then pure reached
        else do
          let last ← lookupLastComponent reached.2
          pure (last.1, { last.2 with data := { last.2.data with parent := none } })

def lookupCleanup (l : Lookup) : Lookup :=
  let l := if l.path.isSome then { l.kfreePage with path := none } else l
  { l with data := { l.data with vnode := none, parent := none, lastComponent := none, position := [] } }

def errno : Except Access.Errno Unit → Int
  | .ok _ => 0
  | .error .eperm => -eperm
  | .error .eacces => -eacces

section Calls

variable (cfg : Layout) (copied : Option (List Char))

def sysStat (copyout : Int) : Sys (Int × Lookup) := do
  let found ← lookup copied (.node false)
  if found.1 = 0 then do
    let _ ← await (.send (.stat (found.2.data.vnode.getD 0)))
    pure (copyout, lookupCleanup found.2)
  else pure found

def sysAccess (amode : BitVec 32) : Sys (Int × Lookup) := do
  let found ← lookup copied (.node false)
  if found.1 ≠ 0 then pure found
  else do
    let v := found.2.data.vnode.getD 0
    let sc ← look fun k => errno (Access.checkAccess k.current (k.accessNode v) none amode)
    pure (sc, lookupCleanup found.2)

def sysOpen (oflags : OFlags) (mode : BitVec 32) : Sys (Int × Lookup) := do
  let found ← lookup copied .parent
  if found.1 ≠ 0 then pure found
  else do
    let sc ← doOpen cfg found.2.data oflags mode
    pure (sc, lookupCleanup found.2)

def sysUnlink : Sys (Int × Lookup) := do
  let found ← lookup copied .remove
  if found.1 ≠ 0 then pure found
  else do
    let v := found.2.data.vnode.getD 0
    let mode ← look fun k => (k.vnode v).mode
    if sIsreg mode = false then pure (-einval, lookupCleanup found.2)
    else do
      let _ ← await (.send (.unlink (found.2.data.parent.getD 0) v (found.2.data.lastComponent.getD [])))
      pure (0, lookupCleanup found.2)

-- after is all that follows the first lookup; it is never reached.
def sysRename (after : Lookup → Sys (Int × Lookup)) : Sys (Int × Lookup) := do
  let found ← lookup copied .remove
  if found.1 ≠ 0 then pure found else after found.2

def sysIsmount : Sys (Int × Lookup) := do
  let found ← lookup copied (.node true)
  if found.1 ≠ 0 then pure found
  else match found.2.data.vnode with
    | none => pure (-enoent, lookupCleanup found.2)
    | some v => do
        let mounted ← look fun k => (k.vnode v).vnodeCovered.isSome || (k.vnode v).vnodeMountedHere.isSome
        pure (if mounted then 1 else 0, lookupCleanup found.2)

inductive PathCall
  | stat (copyout : Int)
  | access (amode : BitVec 32)
  | open (oflags : OFlags) (mode : BitVec 32)
  | unlink
  | rename (after : Lookup → Sys (Int × Lookup))
  | ismount

def PathCall.run : PathCall → Sys (Int × Lookup)
  | .stat copyout => sysStat copied copyout
  | .access amode => sysAccess copied amode
  | .open oflags mode => sysOpen cfg copied oflags mode
  | .unlink => sysUnlink copied
  | .rename after => sysRename copied after
  | .ismount => sysIsmount copied

def PathCall.flags : PathCall → Flags
  | .stat _ | .access _ => .node false
  | .open _ _ => .parent
  | .unlink | .rename _ => .remove
  | .ismount => .node true

end Calls

abbrev State := World Kernel Answer Event

section Pages

variable {w w' : State} {copied : Option (List Char)} {flags : Flags} {l m : Lookup} {rc : Int}

-- The lookup of sys_open is Vfs.lookup with its page.
theorem lookup_parent_eq (copied : Option (List Char)) (w : State) :
    (lookup copied .parent >>= fun found => pure (found.1, found.2.data)) w = Vfs.lookup copied w := by
  unfold lookup Vfs.lookup initLookup lookupParent
  dsimp only
  rw [bind_assoc_apply, bind_assoc_apply, bind_assoc_apply, look_bind, look_bind]
  split_ifs
  · rfl
  cases copied with
  | none => rfl
  | some path =>
    rw [bind_assoc_apply, bind_assoc_apply, look_bind, look_bind, bind_assoc_apply, bind_assoc_apply, look_bind, look_bind]
    by_cases hdir : sIsdir (w.state.vnode (startVnode w.state path)).mode = false
    · rw [if_pos hdir, if_pos hdir]
      rfl
    rw [if_neg hdir, if_neg hdir]
    by_cases hslash : path = ['/']
    · subst hslash
      rfl
    change ((if some path = some ['/'] then _ else _ : Sys (Int × Lookup)) >>= _) w = _
    rw [if_neg fun hc => hslash (Option.some.inj hc), if_neg hslash, bind_assoc_apply, lookupPath, bind_assoc_apply]
    rcases he : lookupPathFrom (path.length + 1) ⟨none, none, none, path, false, false⟩ (startVnode w.state path) w with
      ⟨_ | ⟨rc, data⟩, u⟩
    · rw [bind_none he]
      exact bind_none he
    · rw [bind_some he]
      refine (bind_some he).trans ?_
      by_cases hrc : rc = 0
      · subst hrc
        exact (bind_assoc_apply _ _ _ u).trans (bind_assoc_apply _ _ _ u)
      · change ((if rc ≠ 0 then _ else _ : Sys (Int × Lookup)) >>= _) u = (if rc ≠ 0 then _ else _ : Sys (Int × LookupData)) u
        rw [if_pos hrc, if_pos hrc]
        rfl

def asked (answers : List Answer) : State := ⟨sampleKernel, answers, []⟩

end Pages

end CheviotKernel.PathPages
