import CheviotKernel.Fs.Cache
import CheviotKernel.Fs.Vfs
import Mathlib.Data.Set.Function

namespace CheviotKernel.Vnodes

open Function Runs FileCache

abbrev VId := ℕ

abbrev Tid := ℕ

abbrev SbId := BitVec 32

abbrev Ino := BitVec 32

section Kernel

structure VNode where
  superblock : SbId
  inodeNr : Ino
  valid : Bool
  root : Bool
  hashed : Bool
  referenceCnt : Int
  size : Int
  uid : ℕ
  gid : ℕ
  mode : BitVec 32

structure Attr where
  inodeNr : Ino
  size : Int
  uid : ℕ
  gid : ℕ
  mode : BitVec 32

structure Kernel where
  vnode : VId → VNode
  vnodeHash : ℕ → List VId
  vnodeFreeList : List VId
  abort : SbId → Bool
  freeSuperblockList : List SbId

def enomem : Int := 12

def vnodeHashSz : ℕ := 1024

def calcVnodeHash (sb : SbId) (inodeNr : Ino) : ℕ :=
  let (a, b, c) := hashMix sb inodeNr 0xBB40E64D
  (hashFinal a b c).toNat % vnodeHashSz

section

variable (k : Kernel)

def Kernel.set (v : VId) (x : VNode) : Kernel := { k with vnode := update k.vnode v x }

def vnodeRef (v : VId) : Kernel :=
  k.set v { k.vnode v with referenceCnt := (k.vnode v).referenceCnt + 1 }

def vnodeFind (sb : SbId) (inodeNr : Ino) : Option VId :=
  (k.vnodeHash (calcVnodeHash sb inodeNr)).find? fun v =>
    (k.vnode v).valid && (k.vnode v).superblock = sb && (k.vnode v).inodeNr = inodeNr

-- No vnode has V_FREE: only code behind the return of do_vnode_inactive and do_vnode_discard sets it.
def vnodeGet (sb : SbId) (inodeNr : Ino) : Option VId :=
  if k.abort sb = true then none else vnodeFind k sb inodeNr

def vnodeGetNew (sb : SbId) : Option (VId × Kernel) :=
  if k.abort sb = true then none
  else match k.vnodeFreeList with
    | [] => none
    | v :: rest => some (v, { k with vnodeFreeList := rest }.set v ⟨sb, -1, false, false, false, 1, 0, 9999, 9999, 0⟩)

def vnodeHashEnter (v : VId) : Kernel :=
  let h := calcVnodeHash (k.vnode v).superblock (k.vnode v).inodeNr
  { k with vnodeHash := update k.vnodeHash h (v :: k.vnodeHash h) }.set v { k.vnode v with hashed := true }

-- What the reply says of the file. The flags are assigned, so V_HASHED is clear when the vnode is entered.
def fill (v : VId) (root : Bool) (a : Attr) : Kernel :=
  k.set v { k.vnode v with
    inodeNr := a.inodeNr, size := a.size, uid := a.uid, gid := a.gid, mode := a.mode
    valid := true, root := root, hashed := false }

end

end Kernel

section Calls

abbrev Outcome := Int × Option VId

def lookupReply (k : Kernel) (dvnode : VId) (sb : SbId) (sc : Int) (a : Attr) : Outcome × Kernel :=
  if sc ≠ 0 then ((sc, none), k)
  else if a.inodeNr = (k.vnode dvnode).inodeNr then ((0, some dvnode), vnodeRef k dvnode)
  else match vnodeGet k (k.vnode dvnode).superblock a.inodeNr with
    | some v => ((0, some v), vnodeRef k v)
    | none => match vnodeGetNew k sb with
      | none => ((-enomem, none), k)
      | some (v, k) => ((0, some v), vnodeHashEnter (fill k v false a) v)

def createReply (k : Kernel) (sb : SbId) (sc : Int) (a : Attr) : Outcome × Kernel :=
  if sc ≠ 0 then ((sc, none), k)
  else match vnodeGetNew k sb with
    | none => ((-enomem, none), k)
    | some (v, k) => ((0, some v), vnodeHashEnter (fill (vnodeRef k v) v false a) v)

def mountRoot (k : Kernel) (abort : Bool) (a : Attr) : Option Kernel :=
  match k.freeSuperblockList with
  | [] => none
  | sb :: rest =>
    let k := { k with freeSuperblockList := rest, abort := update k.abort sb false }
    match vnodeGetNew k sb with
    | none => some k
    | some (v, k) =>
      let k := { k with abort := update k.abort sb abort }
      some (vnodeRef (vnodeHashEnter (vnodeRef (fill k v true a) v) v) v)

inductive Phase
  | idle
  | lookup (dvnode : VId) (sb : SbId)
  | create (dvnode : VId) (sb : SbId)
  | done (outcome : Outcome)

def Phase.awaiting : Phase → Bool
  | .lookup _ _ => true
  | .create _ _ => true
  | _ => false

structure System where
  kernel : Kernel
  phase : Tid → Phase

inductive Action
  | mount (abort : Bool) (a : Attr)
  | lookup (t : Tid) (dvnode : VId)
  | create (t : Tid) (dvnode : VId)
  | reply (t : Tid) (sc : Int) (a : Attr)

def System.enter (x : System) (t : Tid) (p : Phase) : System := { x with phase := update x.phase t p }

def begin (x : System) (t : Tid) (dvnode : VId) (p : VId → SbId → Phase) : Option System :=
  if (x.phase t).awaiting = false ∧ (x.kernel.vnode dvnode).valid = true then
    some (x.enter t (p dvnode (x.kernel.vnode dvnode).superblock))
  else none

def finish (x : System) (t : Tid) (r : Outcome × Kernel) : System := { x with kernel := r.2 }.enter t (.done r.1)

def step (x : System) : Action → Option System
  | .mount abort a => (mountRoot x.kernel abort a).map fun k => { x with kernel := k }
  | .lookup t dvnode => begin x t dvnode .lookup
  | .create t dvnode => begin x t dvnode .create
  | .reply t sc a =>
    match x.phase t with
    | .lookup dvnode sb => some (finish x t (lookupReply x.kernel dvnode sb sc a))
    | .create _ sb => some (finish x t (createReply x.kernel sb sc a))
    | _ => none

structure Boot (x : System) : Prop where
  invalid : ∀ v, (x.kernel.vnode v).valid = false
  chains : ∀ h, x.kernel.vnodeHash h = []
  vnodes : x.kernel.vnodeFreeList.Nodup
  superblocks : x.kernel.freeSuperblockList.Nodup
  idle : ∀ t, x.phase t = .idle

end Calls

section Uniqueness

def Cached (k : Kernel) (v : VId) : Prop := (k.vnode v).valid = true ∧ ∃ h, v ∈ k.vnodeHash h

def cache (k : Kernel) : Set VId := {v | Cached k v}

def key (k : Kernel) (v : VId) : SbId × Ino := ((k.vnode v).superblock, (k.vnode v).inodeNr)

def OneVnode (k : Kernel) : Prop := Set.InjOn (key k) (cache k)

def Shared (x : System) : Prop := ∀ t u v w, x.phase t = .done (0, some v) → x.phase u = .done (0, some w) →
  key x.kernel v = key x.kernel w → v = w

def Fresh (x : System) : Action → Prop
  | .reply t sc a =>
    match x.phase t with
    | .create _ sb =>
      sc = 0 → (vnodeGetNew x.kernel sb).isSome = true → vnodeFind x.kernel sb a.inodeNr = none
    | _ => True
  | _ => True

structure Sound (k : Kernel) : Prop where
  free : k.vnodeFreeList.Nodup
  superblocks : k.freeSuperblockList.Nodup
  listed : ∀ h, ∀ v ∈ k.vnodeHash h, (k.vnode v).valid = true ∧ h = calcVnodeHash (key k v).1 (key k v).2
  valid : ∀ v, (k.vnode v).valid = true → (∃ h, v ∈ k.vnodeHash h) ∧ v ∉ k.vnodeFreeList ∧
    (key k v).1 ∉ k.freeSuperblockList

structure Inv (x : System) : Prop extends Sound x.kernel where
  waiting : ∀ t d sb, x.phase t = .lookup d sb ∨ x.phase t = .create d sb →
    (x.kernel.vnode d).valid = true ∧ (key x.kernel d).1 = sb
  done : ∀ t v, x.phase t = .done (0, some v) → (x.kernel.vnode v).valid = true

end Uniqueness

section

variable {k k' : Kernel} {v w d : VId} {sb : SbId} {ino : Ino} {a : Attr} {x y : System} {t : Tid}

structure Same (k k' : Kernel) : Prop where
  hash : k'.vnodeHash = k.vnodeHash
  free : k'.vnodeFreeList = k.vnodeFreeList
  superblocks : k'.freeSuperblockList.Sublist k.freeSuperblockList
  valid : ∀ w, (k'.vnode w).valid = (k.vnode w).valid
  keys : ∀ w, key k' w = key k w

structure Added (k k' : Kernel) (v : VId) (sb : SbId) (ino : Ino) : Prop where
  hash : k'.vnodeHash = update k.vnodeHash (calcVnodeHash sb ino) (v :: k.vnodeHash (calcVnodeHash sb ino))
  free : k.vnodeFreeList = v :: k'.vnodeFreeList
  superblocks : k'.freeSuperblockList.Sublist k.freeSuperblockList
  owned : sb ∉ k'.freeSuperblockList
  valid : (k'.vnode v).valid = true
  named : key k' v = (sb, ino)
  others : ∀ w, w ≠ v → k'.vnode w = k.vnode w

theorem Same.refl (k : Kernel) : Same k k := ⟨rfl, rfl, List.Sublist.refl _, fun _ => rfl, fun _ => rfl⟩

theorem same_vnodeRef (k : Kernel) (v : VId) : Same k (vnodeRef k v) := by
  refine ⟨rfl, rfl, List.Sublist.refl _, fun w => ?_, fun w => ?_⟩
  all_goals
    rcases eq_or_ne w v with rfl | hne
    · simp [vnodeRef, Kernel.set, key]
    · simp [vnodeRef, Kernel.set, key, hne]

theorem mem_cache (h : Sound k) : v ∈ cache k ↔ (k.vnode v).valid = true :=
  ⟨fun hv => hv.1, fun hv => ⟨hv, (h.valid v hv).1⟩⟩

theorem Sound.same (h : Sound k) (hs : Same k k') : Sound k' := by
  refine ⟨?_, h.superblocks.sublist hs.superblocks, fun b w hw => ?_, fun w hw => ?_⟩
  · rw [hs.free]
    exact h.free
  · rw [hs.hash] at hw
    rw [hs.valid, hs.keys]
    exact h.listed b w hw
  · rw [hs.valid] at hw
    obtain ⟨hlisted, hfree, hsb⟩ := h.valid w hw
    rw [hs.hash, hs.free, hs.keys]
    exact ⟨hlisted, hfree, fun hm => hsb (hs.superblocks.subset hm)⟩

namespace Added

variable (ha : Added k k' v sb ino)
include ha

theorem keys_others (hne : w ≠ v) : key k' w = key k w := by
  unfold key
  rw [ha.others w hne]

theorem invalid (h : Sound k) : (k.vnode v).valid = false := by
  by_contra hv
  refine (h.valid v (by simpa using hv)).2.1 ?_
  rw [ha.free]
  exact List.mem_cons_self

theorem mem_hash {h : ℕ} (hne : w ≠ v) : w ∈ k'.vnodeHash h ↔ w ∈ k.vnodeHash h := by
  rw [ha.hash]
  rcases eq_or_ne h (calcVnodeHash sb ino) with rfl | hh
  · rw [update_self, List.mem_cons, or_iff_right hne]
  · rw [update_of_ne hh]

theorem hash_of_mem (h : Sound k) {b : ℕ} (hv : v ∈ k'.vnodeHash b) : b = calcVnodeHash sb ino := by
  by_contra hb
  rw [ha.hash, update_of_ne hb] at hv
  exact absurd (h.listed b v hv).1 (by simp [ha.invalid h])

end Added

theorem Sound.added (h : Sound k) (ha : Added k k' v sb ino) : Sound k' := by
  have hfree := h.free
  rw [ha.free, List.nodup_cons] at hfree
  refine ⟨hfree.2, h.superblocks.sublist ha.superblocks, fun b w hw => ?_, fun w hw => ?_⟩
  · rcases eq_or_ne w v with rfl | hne
    · rw [ha.named]
      exact ⟨ha.valid, ha.hash_of_mem h hw⟩
    · rw [ha.others w hne, ha.keys_others hne]
      exact h.listed b w ((ha.mem_hash hne).mp hw)
  · rcases eq_or_ne w v with rfl | hne
    · rw [ha.named]
      exact ⟨⟨calcVnodeHash sb ino, by simp [ha.hash]⟩, hfree.1, ha.owned⟩
    rw [ha.others w hne] at hw
    obtain ⟨⟨b, hb⟩, hfree, hsb⟩ := h.valid w hw
    rw [ha.keys_others hne]
    refine ⟨⟨b, (ha.mem_hash hne).mpr hb⟩, fun hm => hfree ?_, fun hm => hsb (ha.superblocks.subset hm)⟩
    rw [ha.free]
    exact List.mem_cons_of_mem v hm

theorem Same.oneVnode (hs : Same k k') (h : Sound k) : OneVnode k' ↔ OneVnode k := by
  have hcache : cache k' = cache k := by
    ext w
    rw [mem_cache h, mem_cache (h.same hs), hs.valid]
  have hkey : key k' = key k := funext hs.keys
  rw [OneVnode, OneVnode, hcache, hkey]

theorem Added.oneVnode (ha : Added k k' v sb ino) (h : Sound k) :
    OneVnode k' ↔ OneVnode k ∧ (sb, ino) ∉ key k '' cache k := by
  have hnot : v ∉ cache k := by
    rw [mem_cache h, ha.invalid h]
    exact Bool.false_ne_true
  have hcache : cache k' = insert v (cache k) := by
    ext w
    rw [Set.mem_insert_iff, mem_cache (h.added ha), mem_cache h]
    rcases eq_or_ne w v with rfl | hne
    · simp [ha.valid]
    · simp [ha.others w hne, hne]
  have hkey : Set.EqOn (key k') (key k) (cache k) := by
    intro w hw
    exact ha.keys_others fun he => hnot (he ▸ hw)
  rw [OneVnode, hcache, Set.injOn_insert hnot, hkey.injOn_iff, hkey.image_eq, ha.named, OneVnode]

theorem vnodeFind_eq_none (h : Sound k) : vnodeFind k sb ino = none ↔ (sb, ino) ∉ key k '' cache k := by
  rw [vnodeFind, List.find?_eq_none]
  constructor
  · rintro hnone ⟨w, hw, hkey⟩
    obtain ⟨hvalid, b, hb⟩ := hw
    have hb' := (h.listed b w hb).2
    rw [hkey] at hb'
    subst hb'
    refine hnone w hb ?_
    simp only [key, Prod.mk.injEq] at hkey
    simp [hvalid, hkey]
  · rintro hnone w hw hfound
    simp only [Bool.and_eq_true, decide_eq_true_eq] at hfound
    obtain ⟨⟨hvalid, rfl⟩, rfl⟩ := hfound
    exact hnone ⟨w, ⟨hvalid, _, hw⟩, rfl⟩

-- The kernel of Vfs has the cached vnodes in one list.
structure Views (k : Kernel) (u : Vfs.Kernel) : Prop where
  hash : ∀ v, v ∈ u.vnodeHash ↔ v ∈ cache k
  key : ∀ v, (u.vnode v).superblock = (key k v).1.toNat ∧ (u.vnode v).inodeNr = (key k v).2.toInt

theorem Views.vnodeFind {u : Vfs.Kernel} (hu : Views k u) (h : Sound k) (hone : OneVnode k) :
    Vfs.vnodeFind u sb.toNat ino.toInt = vnodeFind k sb ino := by
  have hkey (v : VId) : (u.vnode v).superblock = sb.toNat ∧ (u.vnode v).inodeNr = ino.toInt ↔
      Vnodes.key k v = (sb, ino) := by
    rw [(hu.key v).1, (hu.key v).2, BitVec.toNat_inj, BitVec.toInt_inj, Prod.ext_iff]
  cases hf : Vnodes.vnodeFind k sb ino with
  | none =>
    rw [Vfs.vnodeFind, List.find?_eq_none]
    intro v hv hc
    exact (vnodeFind_eq_none h).mp hf ⟨v, (hu.hash v).mp hv, (hkey v).mp (of_decide_eq_true hc)⟩
  | some v =>
    have hv := List.find?_some hf
    simp only [Bool.and_eq_true, decide_eq_true_eq] at hv
    have hcached : v ∈ cache k := ⟨hv.1.1, _, List.mem_of_find?_eq_some hf⟩
    have hname : Vnodes.key k v = (sb, ino) := Prod.ext hv.1.2 hv.2
    cases hg : Vfs.vnodeFind u sb.toNat ino.toInt with
    | none => exact absurd (decide_eq_true ((hkey v).mpr hname)) (List.find?_eq_none.mp hg v ((hu.hash v).mpr hcached))
    | some w =>
      have hfound := List.find?_some hg
      have hw := (hkey w).mp (of_decide_eq_true hfound)
      exact congrArg some (hone ((hu.hash w).mp (List.mem_of_find?_eq_some hg)) hcached (hw.trans hname.symm))

theorem vnodeGetNew_eq_some (h : vnodeGetNew k sb = some (v, k')) : k.abort sb = false ∧
    ∃ rest, k.vnodeFreeList = v :: rest ∧
      k' = { k with vnodeFreeList := rest }.set v ⟨sb, -1, false, false, false, 1, 0, 9999, 9999, 0⟩ := by
  unfold vnodeGetNew at h
  split_ifs at h with habort
  split at h <;> cases h
  next rest hl => exact ⟨by simpa using habort, rest, hl, rfl⟩

structure Taken (k k' : Kernel) (v : VId) (sb : SbId) : Prop where
  hash : k'.vnodeHash = k.vnodeHash
  free : k.vnodeFreeList = v :: k'.vnodeFreeList
  superblocks : k'.freeSuperblockList.Sublist k.freeSuperblockList
  owned : sb ∉ k'.freeSuperblockList
  superblock : (k'.vnode v).superblock = sb
  others : ∀ w, w ≠ v → k'.vnode w = k.vnode w

theorem taken_getNew (h : vnodeGetNew k sb = some (v, k')) (hsb : sb ∉ k.freeSuperblockList) : Taken k k' v sb := by
  obtain ⟨-, rest, hrest, rfl⟩ := vnodeGetNew_eq_some h
  refine ⟨rfl, hrest, List.Sublist.refl _, hsb, ?_, fun w hne => ?_⟩
  · simp [Kernel.set]
  · simp [Kernel.set, hne]

namespace Taken

variable (h : Taken k k' v sb)
include h

theorem set {r : VNode} (hr : r.superblock = sb) : Taken k (k'.set v r) v sb := by
  refine { h with superblock := ?_, others := fun w hne => ?_ }
  · simpa [Kernel.set] using hr
  · simp [Kernel.set, hne, h.others w hne]

theorem ref : Taken k (vnodeRef k' v) v sb := h.set h.superblock

theorem enter (hvalid : (k'.vnode v).valid = true) : Added k (vnodeHashEnter k' v) v sb (k'.vnode v).inodeNr := by
  refine ⟨?_, h.free, h.superblocks, h.owned, ?_, ?_, fun w hne => ?_⟩
  · simp [vnodeHashEnter, Kernel.set, h.hash, h.superblock]
  · simpa [vnodeHashEnter, Kernel.set] using hvalid
  · simp [vnodeHashEnter, Kernel.set, key, h.superblock]
  · simp [vnodeHashEnter, Kernel.set, hne, h.others w hne]

protected theorem fill (root : Bool) (a : Attr) : Taken k (fill k' v root a) v sb := h.set h.superblock

theorem fill_enter (root : Bool) (a : Attr) : Added k (vnodeHashEnter (fill k' v root a) v) v sb a.inodeNr := by
  have hadded := (h.fill root a).enter (by simp [fill, Kernel.set])
  simpa [fill, Kernel.set] using hadded

end Taken

theorem Added.ref (h : Added k k' v sb ino) : Added k (vnodeRef k' v) v sb ino := by
  refine ⟨h.hash, h.free, h.superblocks, h.owned, ?_, ?_, fun w hne => ?_⟩
  · simpa [vnodeRef, Kernel.set] using h.valid
  · simpa [vnodeRef, Kernel.set, key] using h.named
  · simp [vnodeRef, Kernel.set, hne, h.others w hne]

def Admitted (k k' : Kernel) : Prop :=
  Same k k' ∨ ∃ v sb ino, Added k k' v sb ino ∧ (sb, ino) ∉ key k '' cache k

theorem Admitted.sound (h : Admitted k k') (hk : Sound k) : Sound k' := by
  obtain hs | ⟨v, sb, ino, ha, -⟩ := h
  · exact hk.same hs
  · exact hk.added ha

theorem Admitted.oneVnode (h : Admitted k k') (hk : Sound k) : OneVnode k' ↔ OneVnode k := by
  obtain hs | ⟨v, sb, ino, ha, hnew⟩ := h
  · exact hs.oneVnode hk
  · exact (ha.oneVnode hk).trans (and_iff_left hnew)

structure Grows (k k' : Kernel) : Prop where
  valid : ∀ w, (k.vnode w).valid = true → (k'.vnode w).valid = true
  keys : ∀ w, (k.vnode w).valid = true → key k' w = key k w

theorem Added.grows (h : Added k k' v sb ino) (hk : Sound k) : Grows k k' := by
  have hne : ∀ w, (k.vnode w).valid = true → w ≠ v := by
    rintro w hw rfl
    exact absurd (h.invalid hk) (by simp [hw])
  refine ⟨fun w hw => ?_, fun w hw => h.keys_others (hne w hw)⟩
  rw [h.others w (hne w hw)]
  exact hw

theorem Admitted.grows (h : Admitted k k') (hk : Sound k) : Grows k k' := by
  obtain hs | ⟨v, sb, ino, ha, -⟩ := h
  · exact ⟨fun w hw => (hs.valid w).trans hw, fun w _ => hs.keys w⟩
  · exact ha.grows hk

theorem lookupReply_admitted (h : Sound k) (hd : (k.vnode d).valid = true) (hsb : (key k d).1 = sb) (sc : Int) (a : Attr) :
    Admitted k (lookupReply k d sb sc a).2 ∧
      ∀ v, (lookupReply k d sb sc a).1 = (0, some v) → ((lookupReply k d sb sc a).2.vnode v).valid = true := by
  have hsc : (k.vnode d).superblock = sb := hsb
  unfold lookupReply
  split_ifs with hs hino
  · exact ⟨.inl (.refl k), fun v hv => by simp at hv⟩
  · refine ⟨.inl (same_vnodeRef k d), fun v hv => ?_⟩
    obtain rfl : d = v := by simpa using hv
    rwa [(same_vnodeRef k d).valid]
  · rw [hsc]
    cases hg : vnodeGet k sb a.inodeNr with
    | some w =>
      refine ⟨.inl (same_vnodeRef k w), fun v hv => ?_⟩
      obtain rfl : w = v := by simpa using hv
      unfold vnodeGet at hg
      split_ifs at hg
      have hfound := List.find?_some hg
      simp only [Bool.and_eq_true] at hfound
      rw [(same_vnodeRef k w).valid]
      exact hfound.1.1
    | none =>
      cases hn : vnodeGetNew k sb with
      | none => exact ⟨.inl (.refl k), fun v hv => by simp at hv⟩
      | some new =>
        obtain ⟨w, k'⟩ := new
        have hout : sb ∉ k.freeSuperblockList := hsb ▸ (h.valid d hd).2.2
        have hadded := (taken_getNew hn hout).fill_enter false a
        refine ⟨.inr ⟨w, sb, a.inodeNr, hadded, ?_⟩, fun v hv => ?_⟩
        · rw [← vnodeFind_eq_none h]
          rwa [vnodeGet, (vnodeGetNew_eq_some hn).1] at hg
        · obtain rfl : w = v := by simpa using hv
          exact hadded.valid

theorem createReply_cases (h : Sound k) (hd : (k.vnode d).valid = true) (hsb : (key k d).1 = sb) (sc : Int) (a : Attr) :
    (Same k (createReply k sb sc a).2 ∧ (∀ v, (createReply k sb sc a).1 ≠ (0, some v)) ∧
        (sc = 0 → vnodeGetNew k sb = none)) ∨
      sc = 0 ∧ (vnodeGetNew k sb).isSome = true ∧ ∃ v, (createReply k sb sc a).1 = (0, some v) ∧
        Added k (createReply k sb sc a).2 v sb a.inodeNr := by
  unfold createReply
  split_ifs with hs
  · exact .inl ⟨.refl k, fun v hv => by simp at hv, fun h => absurd h hs⟩
  have hzero : sc = 0 := by simpa using hs
  cases hn : vnodeGetNew k sb with
  | none => exact .inl ⟨.refl k, fun v hv => by simp at hv, fun _ => rfl⟩
  | some new =>
    obtain ⟨w, k'⟩ := new
    have hout : sb ∉ k.freeSuperblockList := hsb ▸ (h.valid d hd).2.2
    have htaken := taken_getNew hn hout
    exact .inr ⟨hzero, rfl, w, rfl, htaken.ref.fill_enter false a⟩

theorem mountRoot_admitted (h : Sound k) {abort : Bool} (hm : mountRoot k abort a = some k') : Admitted k k' := by
  unfold mountRoot at hm
  split at hm
  · cases hm
  rename_i sb rest hl
  have hnodup := h.superblocks
  rw [hl, List.nodup_cons] at hnodup
  have hsub : rest.Sublist k.freeSuperblockList := by
    rw [hl]
    exact List.sublist_cons_self sb rest
  simp only at hm
  split at hm
  · rw [← Option.some.inj hm]
    exact .inl ⟨rfl, rfl, hsub, fun _ => rfl, fun _ => rfl⟩
  next w k1 hn =>
  rw [← Option.some.inj hm]
  have htaken := taken_getNew hn hnodup.1
  have hmounted : Taken k { k1 with abort := update k1.abort sb abort } w sb :=
    { htaken with superblocks := htaken.superblocks.trans hsub }
  have hadded := ((hmounted.fill true a).ref.enter (by simp [fill, vnodeRef, Kernel.set])).ref
  refine .inr ⟨w, sb, _, hadded, ?_⟩
  rintro ⟨u, hu, hkey⟩
  refine (h.valid u hu.1).2.2 ?_
  rw [hkey, hl]
  exact List.mem_cons_self

theorem Inv.boot (h : Boot x) : Inv x := by
  refine ⟨⟨h.vnodes, h.superblocks, fun b v hv => ?_, fun v hv => ?_⟩, fun t d sb hp => ?_, fun t v hp => ?_⟩
  · simp [h.chains b] at hv
  · simp [h.invalid v] at hv
  · simp [h.idle t] at hp
  · simp [h.idle t] at hp

theorem oneVnode_boot (h : Boot x) : OneVnode x.kernel := by
  intro v hv
  simp [cache, Cached, h.invalid v] at hv

section

variable (h : Inv x)
include h

theorem Inv.kernel (hs : Sound k) (hg : Grows x.kernel k) : Inv { x with kernel := k } := by
  refine ⟨hs, fun t d sb hp => ?_, fun t v hp => hg.valid v (h.done t v hp)⟩
  obtain ⟨hv, hkey⟩ := h.waiting t d sb hp
  exact ⟨hg.valid d hv, (congrArg Prod.fst (hg.keys d hv)).trans hkey⟩

theorem Inv.enter {p : Phase} (hw : ∀ d sb, p = .lookup d sb ∨ p = .create d sb →
      (x.kernel.vnode d).valid = true ∧ (key x.kernel d).1 = sb)
    (hd : ∀ v, p = .done (0, some v) → (x.kernel.vnode v).valid = true) (t : Tid) : Inv (x.enter t p) := by
  refine ⟨h.toSound, fun u d sb hp => ?_, fun u v hp => ?_⟩
  · rcases eq_or_ne u t with rfl | hne
    · exact hw d sb (by simpa [System.enter] using hp)
    · exact h.waiting u d sb (by simpa [System.enter, hne] using hp)
  · rcases eq_or_ne u t with rfl | hne
    · exact hd v (by simpa [System.enter] using hp)
    · exact h.done u v (by simpa [System.enter, hne] using hp)

theorem Inv.finish {r : Outcome × Kernel} (hs : Sound r.2) (hg : Grows x.kernel r.2)
    (hr : ∀ v, r.1 = (0, some v) → (r.2.vnode v).valid = true) (t : Tid) : Inv (finish x t r) := by
  refine (h.kernel hs hg).enter (fun d sb hp => ?_) (fun v hv => ?_) t
  · simp at hp
  · exact hr v (by simpa using hv)

theorem Inv.begin {p : VId → SbId → Phase} (hp : p = .lookup ∨ p = .create)
    (hb : begin x t d p = some y) : Inv y ∧ y.kernel = x.kernel := by
  unfold Vnodes.begin at hb
  split_ifs at hb with hc
  rw [← Option.some.inj hb]
  refine ⟨h.enter (fun d' sb' he => ?_) (fun v he => ?_) t, rfl⟩
  · have hsame : d = d' ∧ (x.kernel.vnode d).superblock = sb' := by
      rcases hp with rfl | rfl <;> simpa using he
    obtain ⟨rfl, rfl⟩ := hsame
    exact ⟨hc.2, rfl⟩
  · rcases hp with rfl | rfl <;> simp at he

protected theorem Inv.step {c : Action} (hs : step x c = some y) :
    Inv y ∧ (OneVnode y.kernel ↔ OneVnode x.kernel ∧ Fresh x c) := by
  cases c with
  | mount abort a =>
    simp only [step, Option.map_eq_some_iff] at hs
    obtain ⟨k, hk, rfl⟩ := hs
    have hadm := mountRoot_admitted h.toSound hk
    exact ⟨h.kernel (hadm.sound h.toSound) (hadm.grows h.toSound), by simp [Fresh, hadm.oneVnode h.toSound]⟩
  | lookup t d =>
    obtain ⟨hi, hk⟩ := h.begin (.inl rfl) hs
    exact ⟨hi, by simp [Fresh, hk]⟩
  | create t d =>
    obtain ⟨hi, hk⟩ := h.begin (.inr rfl) hs
    exact ⟨hi, by simp [Fresh, hk]⟩
  | reply t sc a =>
    simp only [step] at hs
    generalize hp : x.phase t = ph at hs
    cases ph with
    | idle | done r => cases hs
    | lookup d sb =>
      cases hs
      obtain ⟨hd, hsb⟩ := h.waiting t d sb (.inl hp)
      obtain ⟨hadm, hout⟩ := lookupReply_admitted h.toSound hd hsb sc a
      refine ⟨h.finish (hadm.sound h.toSound) (hadm.grows h.toSound) hout t, ?_⟩
      have hfresh : Fresh x (.reply t sc a) := by simp [Fresh, hp]
      exact (hadm.oneVnode h.toSound).trans (and_iff_left hfresh).symm
    | create d sb =>
      cases hs
      obtain ⟨hd, hsb⟩ := h.waiting t d sb (.inr hp)
      have hfresh : Fresh x (.reply t sc a) ↔ (sc = 0 → (vnodeGetNew x.kernel sb).isSome = true →
          (sb, a.inodeNr) ∉ key x.kernel '' cache x.kernel) := by
        simp only [Fresh, hp, vnodeFind_eq_none h.toSound]
      rw [hfresh]
      obtain ⟨hsame, hnone, hno⟩ | ⟨hzero, hsome, v, hv, hadded⟩ := createReply_cases h.toSound hd hsb sc a
      · have hadm : Admitted x.kernel (createReply x.kernel sb sc a).2 := .inl hsame
        refine ⟨h.finish (hadm.sound h.toSound) (hadm.grows h.toSound) (fun v hv => absurd hv (hnone v)) t, ?_⟩
        refine (hadm.oneVnode h.toSound).trans (and_iff_left fun hz hn => ?_).symm
        simp [hno hz] at hn
      · refine ⟨h.finish (h.toSound.added hadded) (hadded.grows h.toSound) (fun w hw => ?_) t, ?_⟩
        · obtain rfl : v = w := by simpa using hv.symm.trans hw
          exact hadded.valid
        · refine (hadded.oneVnode h.toSound).trans (and_congr_right fun _ => ?_)
          exact ⟨fun hnot _ _ => hnot, fun hnot => hnot hzero hsome⟩

theorem Inv.run {as : List Action} (he : exec step x as = some y) :
    Inv y ∧ (OneVnode y.kernel ↔ OneVnode x.kernel ∧ Meets step Fresh x as) := by
  induction as generalizing x with
  | nil =>
    cases he
    exact ⟨h, by simp [Meets]⟩
  | cons c as ih =>
    cases hs : step x c with
    | none => simp [exec, hs] at he
    | some z =>
      simp only [exec, hs] at he
      obtain ⟨hz, hone⟩ := h.step hs
      obtain ⟨hy, hrun⟩ := ih hz he
      refine ⟨hy, hrun.trans ?_⟩
      rw [hone, Meets, hs, and_assoc]

theorem Inv.shared (hone : OneVnode x.kernel) : Shared x := by
  intro t u v w ht hu hkey
  exact hone ((mem_cache h.toSound).mpr (h.done t v ht)) ((mem_cache h.toSound).mpr (h.done u w hu)) hkey

end

theorem one_vnode_per_file_iff_fresh {as : List Action} (h : Boot x) (he : exec step x as = some y) :
    OneVnode y.kernel ∧ Shared y ↔ Meets step Fresh x as := by
  obtain ⟨hy, hone⟩ := (Inv.boot h).run he
  rw [and_iff_right (oneVnode_boot h)] at hone
  rw [← hone]
  exact ⟨fun hboth => hboth.1, fun hunique => ⟨hunique, hy.shared hunique⟩⟩

section Race

def blank : VNode := ⟨0, 0, false, false, false, 0, 0, 0, 0, 0⟩

def started : System :=
  ⟨⟨fun _ => blank, fun _ => [], [0, 1, 2, 3], fun _ => false, [0x80200000, 0x80200400]⟩, fun _ => .idle⟩

def file (n : Ino) : Attr := ⟨n, 0, 0, 0, 0o100644⟩

theorem boot_started : Boot started := ⟨fun _ => rfl, fun _ => rfl, by decide, by decide, fun _ => rfl⟩

def inTurn : List Action :=
  [.mount false (file 1), .create 1 0, .lookup 2 0, .reply 1 0 (file 2), .reply 2 0 (file 2)]

theorem file_shared_in_turn : ∃ y, exec step started inTurn = some y ∧
    y.phase 1 = .done (0, some 1) ∧ y.phase 2 = .done (0, some 1) ∧ OneVnode y.kernel ∧ Shared y := by
  refine ⟨_, rfl, rfl, rfl, ?_⟩
  have hrun : exec step started inTurn = some _ := rfl
  refine (one_vnode_per_file_iff_fresh boot_started hrun).mpr ?_
  exact ⟨trivial, trivial, trivial, fun _ _ => rfl, trivial, trivial⟩

def crossed : List Action :=
  [.mount false (file 1), .create 1 0, .lookup 2 0, .reply 2 0 (file 2), .reply 1 0 (file 2)]

theorem create_enters_second_vnode : ∃ y, exec step started crossed = some y ∧ Boot started ∧
    y.phase 1 = .done (0, some 2) ∧ y.phase 2 = .done (0, some 1) ∧ key y.kernel 1 = key y.kernel 2 ∧
      ¬ OneVnode y.kernel ∧ ¬ Shared y := by
  refine ⟨_, rfl, boot_started, rfl, rfl, rfl, fun hone => ?_, fun hshared => ?_⟩
  · have hrun : exec step started crossed = some _ := rfl
    have hinv := ((Inv.boot boot_started).run hrun).1
    exact absurd (hinv.shared hone 1 2 2 1 rfl rfl rfl) (by decide)
  · exact absurd (hshared 1 2 2 1 rfl rfl rfl) (by decide)

end Race

end

end CheviotKernel.Vnodes
