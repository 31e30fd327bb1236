import CheviotKernel.Include.Lists
import CheviotKernel.Library.Runs

namespace CheviotKernel.FileCache

open Linked CheviotKernel.Lists

abbrev PageId := ℕ

abbrev VId := ℕ

abbrev Tid := ℕ

section Hash

abbrev Word := BitVec 32

def rot (x : Word) (k : ℕ) : Word := (x <<< k) ||| (x >>> (32 - k))

def mixLine (k : ℕ) (x y z : Word) : Word × Word := ((x - z) ^^^ rot z k, z + y)

def hashMix (a b c : Word) : Word × Word × Word :=
  let (a, c) := mixLine 4 a b c
  let (b, a) := mixLine 6 b c a
  let (c, b) := mixLine 8 c a b
  let (a, c) := mixLine 16 a b c
  let (b, a) := mixLine 19 b c a
  let (c, b) := mixLine 4 c a b
  (a, b, c)

def finalLine (k : ℕ) (x y : Word) : Word := (x ^^^ y) - rot y k

def hashFinal (a b c : Word) : Word :=
  let c := finalLine 14 c b
  let a := finalLine 11 a c
  let b := finalLine 25 b a
  let c := finalLine 16 c b
  let a := finalLine 4 a c
  let b := finalLine 14 b a
  finalLine 24 c b

def pageLookupHashSz : ℕ := 1024

def calcPageLookupHash (inodeNr fileOffset : Int) : ℕ :=
  let (a, b, c) := hashMix (BitVec.ofInt 32 inodeNr) (BitVec.ofInt 32 fileOffset) (BitVec.ofInt 32 (fileOffset >>> (32 : ℕ)))
  (hashFinal a b c).toNat % pageLookupHashSz

end Hash

section Pages

structure Page where
  vnode : Option VId
  fileOffset : Int
  valid : Bool
  busy : Bool
  error : Bool
  discard : Bool

structure Config where
  maxPage : ℕ
  pool : List PageId
  pool_lt : ∀ p ∈ pool, p < maxPage
  inodeNr : VId → Int

structure Cache where
  page : PageId → Page
  free : Links Unit PageId
  hash : Links ℕ PageId
  pageList : Links VId PageId
  freePageCnt : Int

def Cache.set (c : Cache) (p : PageId) (x : Page) : Cache := { c with page := Function.update c.page p x }

variable (cfg : Config)

def bucket (v : VId) (fileOffset : Int) : ℕ := calcPageLookupHash (cfg.inodeNr v) fileOffset

section

variable (c : Cache)

def addToFreePageQueue (p : PageId) : Cache :=
  { c with free := dlistAddHead c.free () p, freePageCnt := c.freePageCnt + 1 }

def addToFreePageQueueTail (p : PageId) : Cache :=
  { c with free := dlistAddTail c.free () p, freePageCnt := c.freePageCnt + 1 }

def removeFromFreePageQueue (p : PageId) : Cache :=
  { c with free := dlistRemEntry c.free () p, freePageCnt := c.freePageCnt - 1 }

def addToLookupPageHash (p : PageId) : Cache :=
  match (c.page p).vnode with
  | some v => { c with hash := dlistAddHead c.hash (bucket cfg v (c.page p).fileOffset) p }
  | none => c

def removeFromLookupPageHash (p : PageId) : Cache :=
  match (c.page p).vnode with
  | some v => { c with hash := dlistRemEntry c.hash (bucket cfg v (c.page p).fileOffset) p }
  | none => c

def addToVnodePageList (p : PageId) : Cache :=
  match (c.page p).vnode with
  | some v => { c with pageList := dlistAddHead c.pageList v p }
  | none => c

def removeFromVnodePageList (p : PageId) : Cache :=
  match (c.page p).vnode with
  | some v => { c with pageList := dlistRemEntry c.pageList v p }
  | none => c

-- none when the walk does not come to an end.
def findBlk (v : VId) (fileOffset : Int) : Option (Option PageId) :=
  walk c.hash.next (fun p => (c.page p).vnode = some v ∧ (c.page p).fileOffset = fileOffset) (cfg.maxPage + 1)
    (c.hash.head (bucket cfg v fileOffset))

def findAvailableBlk : Option PageId := c.free.tail ()

def setBusy (p : PageId) (b : Bool) : Cache := c.set p { c.page p with busy := b }

def take (p : PageId) : Cache := removeFromFreePageQueue (setBusy c p true) p

def detach (p : PageId) : Cache :=
  let c := take c p
  if (c.page p).valid = true then
    let c := removeFromVnodePageList (removeFromLookupPageHash cfg c p) p
    c.set p { c.page p with valid := false }
  else c

def recycle (p : PageId) (v : VId) (fileOffset : Int) : Cache :=
  let c := detach cfg c p
  let c := c.set p { c.page p with vnode := some v, fileOffset := fileOffset }
  addToVnodePageList (addToLookupPageHash cfg c p) p

def recycleAnon (p : PageId) : Cache :=
  let c := detach cfg c p
  c.set p { c.page p with vnode := none, fileOffset := 0 }

def brelse (p : PageId) : Cache :=
  if (c.page p).error = true ∨ (c.page p).discard = true then
    let c := removeFromVnodePageList (removeFromLookupPageHash cfg c p) p
    addToFreePageQueueTail (c.set p ⟨none, 0, false, false, false, false⟩) p
  else addToFreePageQueue (setBusy c p false) p

def putblkAnon (p : PageId) : Cache := setBusy (addToFreePageQueueTail c p) p false

def setValid (p : PageId) : Cache := c.set p { c.page p with valid := true }

def setError (p : PageId) : Cache := c.set p { c.page p with error := true }

end

end Pages

section Threads

inductive Request
  | getblk (v : VId) (fileOffset : Int)
  | bread (v : VId) (fileOffset : Int)
  | breadZero (v : VId) (fileOffset : Int)
  | getblkAnon

def Request.key : Request → Option (VId × Int)
  | .getblk v x => some (v, x)
  | .bread v x => some (v, x)
  | .breadZero v x => some (v, x)
  | .getblkAnon => none

inductive Rendez
  | page (p : PageId)
  | pageList
  deriving DecidableEq

inductive Thread
  | idle
  | asleep (r : Request) (on : Rendez)
  | woken (r : Request)
  | reading (p : PageId)
  | writing (p : PageId)

structure State where
  cache : Cache
  thread : Tid → Thread
  held : PageId → Bool

inductive Event
  | start (t : Tid) (r : Request)
  | retry (t : Tid)
  | readReply (t : Tid) (xfered : Int)
  | bwrite (t : Tid) (p : PageId)
  | writeReply (t : Tid) (whole : Bool)
  | brelse (p : PageId)
  | putblkAnon (p : PageId)

def State.setThread (s : State) (t : Tid) (x : Thread) : State := { s with thread := Function.update s.thread t x }

def State.hold (s : State) (p : PageId) (b : Bool) : State := { s with held := Function.update s.held p b }

def wake (rs : List Rendez) : Thread → Thread
  | .asleep r on => if on ∈ rs then .woken r else .asleep r on
  | x => x

def taskWakeupAll (s : State) (rs : List Rendez) : State := { s with thread := fun t => wake rs (s.thread t) }

variable (cfg : Config)

def pageSize : Int := 4096

def finish (s : State) (t : Tid) (r : Request) (p : PageId) : State :=
  match r with
  | .bread _ _ =>
    if (s.cache.page p).valid = true then (s.setThread t .idle).hold p true else s.setThread t (.reading p)
  | .breadZero _ _ => ({ s with cache := setValid s.cache p }.setThread t .idle).hold p true
  | _ => (s.setThread t .idle).hold p true

def available (s : State) (t : Tid) (r : Request) (reuse : PageId → Cache) : State :=
  match findAvailableBlk s.cache with
  | none => s.setThread t (.asleep r .pageList)
  | some p => finish { s with cache := reuse p } t r p

def attempt (s : State) (t : Tid) (r : Request) : Option State :=
  match r.key with
  | none => some (available s t r (recycleAnon cfg s.cache))
  | some (v, x) => (findBlk cfg s.cache v x).map fun found => match found with
      | none => available s t r fun p => recycle cfg s.cache p v x
      | some p =>
        if (s.cache.page p).busy = true then s.setThread t (.asleep r (.page p))
        else finish { s with cache := take s.cache p } t r p

def release (s : State) (p : PageId) : State :=
  taskWakeupAll { s with cache := brelse cfg s.cache p } [.pageList, .page p]

def fail (s : State) (p : PageId) : State := release cfg { s with cache := setError s.cache p } p

def step (s : State) : Event → Option State
  | .start t r => match s.thread t with
      | .idle => attempt cfg s t r
      | _ => none
  | .retry t => match s.thread t with
      | .woken r => attempt cfg s t r
      | _ => none
  | .readReply t xfered => match s.thread t with
      | .reading p =>
        if xfered > pageSize then none
        else if xfered ≤ 0 then some (fail cfg (s.setThread t .idle) p)
        else some (({ s with cache := setValid s.cache p }.setThread t .idle).hold p true)
      | _ => none
  | .bwrite t p => match s.thread t, (s.cache.page p).vnode with
      | .idle, some _ => if s.held p = true then some ((s.setThread t (.writing p)).hold p false) else none
      | _, _ => none
  | .writeReply t whole => match s.thread t with
      | .writing p => some (if whole = true then release cfg (s.setThread t .idle) p else fail cfg (s.setThread t .idle) p)
      | _ => none
  | .brelse p => if s.held p = true then some (release cfg (s.hold p false) p) else none
  | .putblkAnon p =>
    if s.held p = true then
      some (taskWakeupAll { s.hold p false with cache := putblkAnon s.cache p } [.pageList])
    else none

end Threads

end CheviotKernel.FileCache
