import CheviotKernel.Include.Lists
import CheviotKernel.Proc.Crew

namespace CheviotKernel.Procs.Reaping

open Function Linked CheviotKernel.Lists

inductive Doing
  | nothing
  | forking (new : ProcId)
  | copyingFds (new : ProcId)
  | stacking (new : ProcId) (t : ThreadId) (tid : PidT)
  | failing (new : ProcId)
  | creating (p : ProcId) (t : ThreadId) (tid : PidT) (detached : Bool)
  | copyingOut (child : ProcId)
  | leaving
  deriving DecidableEq

def Doing.forked : Doing → Option ProcId
  | .forking new => some new
  | .copyingFds new => some new
  | .stacking new _ _ => some new
  | .failing new => some new
  | _ => none

structure System where
  procs : State
  link : Links ProcId ProcId
  doing : ThreadId → Doing

def unlinkFreed (s : State) (L : Links ProcId ProcId) (p : ProcId) : Links ProcId ProcId :=
  match (s.proc p).parent with
  | some q => dlistClear (dlistRemEntry L q p) p p
  | none => dlistClear L p p

-- alloc_process_struct clears the structure it takes, also when no pid is left for it.
def linkTaken (s : State) (L : Links ProcId ProcId) : Links ProcId ProcId :=
  match s.freeProcessList with
  | p :: _ => dlistClear L p p
  | [] => L

namespace System

def setDoing (x : System) (c : ThreadId) (d : Doing) : System := { x with doing := update x.doing c d }

def setProcs (x : System) (s : State) : System := { x with procs := s }

def freeProcess (cfg : Config) (x : System) (p : ProcId) : System :=
  { x with procs := Procs.freeProcess cfg x.procs p, link := unlinkFreed x.procs x.link p }

def allocProcess (x : System) (parent : ProcId) : System × Option ProcId :=
  let link := linkTaken x.procs x.link
  match Procs.allocProcess x.procs parent with
  | (s, none) => ({ x with procs := s, link := link }, none)
  | (s, some new) => ({ x with procs := s, link := dlistInit (dlistAddTail link parent new) new }, some new)

-- The child is removed by sys_waitpid and again by free_process.
def waitReap (cfg : Config) (x : System) (cur child : ProcId) : System :=
  { x with
    procs := Procs.waitReap cfg x.procs cur child,
    link := unlinkFreed x.procs (dlistRemEntry x.link cur child) child }

def detachChild (cfg : Config) (p : ProcId) (x : System) (child : ProcId) : System :=
  let link := dlistRemHead x.link p
  { x with
    procs := Procs.detachChild cfg p x.procs child,
    link := if (x.procs.proc child).state = .exited then unlinkFreed x.procs link child
      else dlistAddTail link x.procs.rootProcess child }

def detachAll (cfg : Config) (p : ProcId) (x : System) (children : List ProcId) : System :=
  children.foldl (fun x child => if x.procs.panicked then x else detachChild cfg p x child) x

def detachChildProcesses (cfg : Config) (x : System) (p : ProcId) : System :=
  detachAll cfg p x (x.procs.proc p).childList

end System

section Kin

variable {cfg : Config} {s u w : State} {L : Links ProcId ProcId} {p q child : ProcId} {t c : ThreadId}
  {T T' : ProcId → Prop} {used : Option (ProcId × ThreadId)}

def childLists (s : State) (q : ProcId) : List ProcId := (s.proc q).childList

structure Kin (s : State) (L : Links ProcId ProcId) : Prop where
  posted : Posted s
  family : Family L (childLists s)
  parent : ∀ p q, p ∈ (s.proc q).childList ↔ (s.proc p).parent = some q
  bare : ∀ p, (s.proc p).state = .free → (s.proc p).parent = none ∧ (s.proc p).childList = []
  parented : ∀ p, p ≠ s.rootProcess → (s.proc p).state ≠ .free → ∃ q, (s.proc p).parent = some q
  childless : ∀ p, p ≠ s.rootProcess → (s.proc p).state = .exited → (s.proc p).childList = []
  other : ∀ p, (s.proc p).parent ≠ some p

theorem Kin.nodup (k : Kin s L) (q : ProcId) : (s.proc q).childList.Nodup := (k.family.spells q).nodup

structure Bare (s : State) (p : ProcId) : Prop where
  root : p ≠ s.rootProcess
  state : (s.proc p).state = .init
  threads : (s.proc p).threadList = []
  children : (s.proc p).childList = []

structure Change (s u : State) (T : ProcId → Prop) (used : Option (ProcId × ThreadId)) : Prop where
  root : u.rootProcess = s.rootProcess
  exited : ∀ p, (s.proc p).state = .exited →
    (u.proc p).state = .exited ∧ (u.proc p).parent = (s.proc p).parent ∨ T p ∧ p ∈ u.freeProcessList
  bare : ∀ p, Bare s p → Bare u p ∨ T p ∨ ∃ t, used = some (p, t)
  alive : ∀ t q, Alive u q t → Alive s q t ∨ used = some (q, t)
  freed : ∀ p ∈ u.freeProcessList, p ∈ s.freeProcessList ∨ T p

theorem Change.refl (s : State) : Change s s (fun _ => False) none :=
  ⟨rfl, fun _ hp => .inl ⟨hp, rfl⟩, fun _ => .inl, fun _ _ => .inl, fun _ => .inl⟩

theorem Change.trans (h : Change s u T none)
    (h' : Change u w T' used) (hstays : ∀ p ∈ u.freeProcessList, p ∈ w.freeProcessList) :
    Change s w (fun p => T p ∨ T' p) used := by
  refine ⟨h'.root.trans h.root, ?_, ?_, ?_, ?_⟩
  · intro p hp
    rcases h.exited p hp with ⟨hs, hpar⟩ | ⟨hT, hfree⟩
    · rcases h'.exited p hs with ⟨hs', hpar'⟩ | ⟨hT, hfree⟩
      · exact .inl ⟨hs', hpar'.trans hpar⟩
      · exact .inr ⟨.inr hT, hfree⟩
    · exact .inr ⟨.inl hT, hstays p hfree⟩
  · intro p hp
    rcases h.bare p hp with hb | hT | ⟨t, ht⟩
    · rcases h'.bare p hb with hb | hT | hused
      · exact .inl hb
      · exact .inr (.inl (.inr hT))
      · exact .inr (.inr hused)
    · exact .inr (.inl (.inl hT))
    · cases ht
  · intro t q ht
    rcases h'.alive t q ht with ht | hused
    · exact .inl ((h.alive t q ht).resolve_right nofun)
    · exact .inr hused
  · intro p hp
    rcases h'.freed p hp with hp | hT
    · exact (h.freed p hp).imp id .inl
    · exact .inr (.inr hT)

theorem Change.mono (h : Change s u T used) (hT : ∀ p, T p → T' p) : Change s u T' used :=
  ⟨h.root, fun p hp => (h.exited p hp).imp id fun hg => ⟨hT p hg.1, hg.2⟩,
    fun p hp => (h.bare p hp).imp id (Or.imp (hT p) id), h.alive, fun p hp => (h.freed p hp).imp id (hT p)⟩

end Kin

section Threads

variable {cfg : Config} {s u w : State} {L : Links ProcId ProcId} {p : ProcId} {t c : ThreadId}
  {used : Option (ProcId × ThreadId)} {left : Option ProcId} {tid : PidT}

theorem Tended.change (h : Tended s u used left) : Change s u (fun _ => False) used := by
  refine ⟨h.root, ?_, ?_, h.alive, fun p hp => .inl ((h.free p).mp hp)⟩
  · intro p hp
    refine .inl ⟨?_, h.parent p⟩
    rcases h.state p with hs | ⟨-, -, -, hs⟩
    · rw [hs, hp]
    · exact hs
  · intro p hp
    rcases h.threadList p hp.threads with ht | hused
    · have hs := (h.state p).resolve_right fun hc => hc.2.1 hp.threads
      exact .inl ⟨h.root ▸ hp.root, hs.trans hp.state, ht, (h.childList p).trans hp.children⟩
    · exact .inr (.inr hused)

theorem Kin.tend (k : Kin s L) (h : Tended s u used left) (hposted : Posted u)
    (hleft : ∀ p, left = some p → p ≠ s.rootProcess → (u.proc p).state = .exited → (s.proc p).state ≠ .exited →
      (s.proc p).childList = []) : Kin u L := by
  have hlists : childLists u = childLists s := funext h.childList
  refine ⟨hposted, hlists ▸ k.family, ?_, ?_, ?_, ?_, fun p => h.parent p ▸ k.other p⟩
  · intro p q
    rw [h.childList, h.parent]
    exact k.parent p q
  · intro p hp
    rw [h.parent, h.childList]
    rcases h.state p with hs | ⟨-, -, -, hs⟩
    · exact k.bare p (hs ▸ hp)
    · rw [hs] at hp
      cases hp
  · intro p hroot hp
    rw [h.parent]
    refine k.parented p (h.root ▸ hroot) ?_
    rcases h.state p with hs | ⟨-, -, hs, -⟩
    · exact hs ▸ hp
    · exact hs
  · intro p hroot hp
    rw [h.root] at hroot
    rw [h.childList]
    by_cases hs : (s.proc p).state = .exited
    · exact k.childless p hroot hs
    · have hp' := (h.state p).resolve_left fun hc => hs (hc ▸ hp)
      exact hleft p hp'.1 hroot hp hs

theorem Kin.work (k : Kin s L) (h : Worked s u used left)
    (hused : ∀ p t, used = some (p, t) → p = s.rootProcess ∨ (s.proc p).state = .init)
    (hleft : ∀ p, left = some p → p ≠ s.rootProcess → (u.proc p).state = .exited → (s.proc p).state ≠ .exited →
      (s.proc p).childList = []) : Kin u L :=
  k.tend h.toTended (k.posted.work h hused) hleft

def Leaves (s : State) (c : ThreadId) (p : ProcId) : Prop :=
  p ≠ s.rootProcess → (s.proc p).threadList.erase c = [] → (s.proc p).childList = []

theorem exited_of_doExitThread (hp : ((doExitThread s c p).proc p).state = .exited) (hs : (s.proc p).state ≠ .exited) :
    (s.proc p).threadList.erase c = [] := by
  rcases doExitThread_cases s c p with ⟨x, hl, ⟨hempty, -⟩ | ⟨-, hx⟩, hd⟩ | ⟨-, hd⟩
  · exact hl ▸ hempty
  · rw [hd, setProc_self, hx] at hp
    exact absurd hp hs
  · rw [hd, setProc_self] at hp
    exact absurd hp hs

theorem Kin.doExitThread (k : Kin s L) (hc : Alive s p c) (hleaves : Leaves s c p) : Kin (doExitThread s c p) L := by
  refine k.work (worked_doExitThread k.posted hc) nofun ?_
  rintro q hq hroot hexited hs
  cases hq
  exact hleaves hroot (exited_of_doExitThread hexited hs)

theorem Kin.kindred (k : Kin s L) (h : Kindred s u) : Kin u L :=
  k.work (Worked.kindred h : Worked s u none none) nofun nofun

theorem Kin.sysExit (k : Kin s L) (hc : Alive s p c)
    (hleaves : (s.proc p).exitInProgress = true → Leaves s c p) : Kin (sysExit s c p) L := by
  refine k.work (worked_sysExit k.posted hc) nofun ?_
  rintro q hq hroot hexited hs
  cases hq
  unfold Procs.sysExit at hexited
  split_ifs at hexited with hpar hexit
  · exact absurd hexited hs
  · exact hleaves hexit hroot (exited_of_doExitThread hexited hs)
  · have hflag := kindred_setMembership s s.ids p (s.proc p).sid (s.proc p).pgid true
    exact absurd ((hflag.state p).symm.trans hexited) hs

end Threads

section Trees

variable {cfg : Config} {s u : State} {x y z : System} {L : Links ProcId ProcId} {p q child parent new cur a : ProcId}
  {rest l extra : List ProcId}

structure Gone (s u : State) (p : ProcId) : Prop where
  zero : u.proc p = Process.zero
  other : ∀ q, q ≠ p → u.proc q = { s.proc q with childList := (s.proc q).childList.erase p }
  free : u.freeProcessList = s.freeProcessList ++ [p]
  thread : u.thread = s.thread
  root : u.rootProcess = s.rootProcess

theorem Gone.change (hg : Gone s u p) : Change s u (· = p) none := by
  refine ⟨hg.root, ?_, ?_, ?_, ?_⟩
  · intro q hq
    by_cases hqp : q = p
    · exact .inr ⟨hqp, by simp [hg.free, hqp]⟩
    · rw [hg.other q hqp]
      exact .inl ⟨hq, rfl⟩
  · intro q hq
    by_cases hqp : q = p
    · exact .inr (.inl hqp)
    refine .inl ⟨hg.root ▸ hq.root, ?_, ?_, ?_⟩
    · rw [hg.other q hqp]
      exact hq.state
    · rw [hg.other q hqp]
      exact hq.threads
    · rw [hg.other q hqp]
      rw [hq.children]
      rfl
  · intro t q ht
    rw [Alive, hg.thread] at ht
    exact .inl ht
  · intro q hq
    rw [hg.free] at hq
    exact (mem_append_self hq).symm

theorem erase_again (h : l.Nodup) (p : ProcId) : (l.erase p).erase p = l.erase p :=
  List.erase_of_not_mem fun hmem => (h.mem_erase_iff.mp hmem).1 rfl

theorem freeProcess_again (hrun : s.panicked = false) (hparent : (s.proc p).parent = some q) (hpq : p ≠ q)
    (hnodup : (s.proc q).childList.Nodup) :
    (Procs.freeProcess cfg (s.setProc q { s.proc q with childList := (s.proc q).childList.erase p }) p).panicked = true ∨
      Procs.freeProcess cfg (s.setProc q { s.proc q with childList := (s.proc q).childList.erase p }) p =
        Procs.freeProcess cfg s p := by
  unfold Procs.freeProcess
  rw [setProc_other hpq]
  unfold freePid
  cases pidToPiddesc cfg (s.proc p).pid with
  | none => exact .inl rfl
  | some e =>
    simp [State.andThen, State.setProc, hrun, hpq, hparent, erase_again hnodup]

theorem waitReap_eq (k : Kin x.procs x.link) (hrun : x.procs.panicked = false)
    (hparent : (x.procs.proc child).parent = some cur) :
    (x.waitReap cfg cur child).procs.panicked = true ∨ x.waitReap cfg cur child = x.freeProcess cfg child := by
  have hne : child ≠ cur := by
    rintro rfl
    exact k.other child hparent
  refine (freeProcess_again hrun hparent hne (k.nodup cur)).imp id fun hagain => ?_
  have hlink : unlinkFreed x.procs (dlistRemEntry x.link cur child) child = unlinkFreed x.procs x.link child := by
    unfold unlinkFreed
    rw [hparent]
    dsimp only
    rw [remEntry_again k.family ((k.parent child cur).mpr hparent)]
  rw [System.waitReap, System.freeProcess, hlink, Procs.waitReap, hagain]

theorem detachChild_eq (k : Kin x.procs x.link) (hrun : x.procs.panicked = false)
    (hlist : (x.procs.proc p).childList = child :: rest) (hexited : (x.procs.proc child).state = .exited) :
    (x.detachChild cfg p child).procs.panicked = true ∨ x.detachChild cfg p child = x.freeProcess cfg child := by
  have hmem : child ∈ (x.procs.proc p).childList := by simp [hlist]
  have hparent := (k.parent child p).mp hmem
  have hne : child ≠ p := by
    rintro rfl
    exact k.other child hparent
  have hprocs : Procs.detachChild cfg p x.procs child = Procs.freeProcess cfg
      (x.procs.setProc p { x.procs.proc p with childList := (x.procs.proc p).childList.erase child }) child := by
    unfold Procs.detachChild
    dsimp only
    rw [setProc_other hne, if_pos hexited]
  have hlink : unlinkFreed x.procs (dlistRemHead x.link p) child = unlinkFreed x.procs x.link child := by
    unfold unlinkFreed
    rw [hparent]
    dsimp only
    rw [remHead_eq_remEntry k.family hlist, remEntry_again k.family hmem]
  have hagain : (Procs.detachChild cfg p x.procs child).panicked = true ∨
      Procs.detachChild cfg p x.procs child = Procs.freeProcess cfg x.procs child := by
    rw [hprocs]
    exact freeProcess_again hrun hparent hne (k.nodup p)
  refine hagain.imp id fun hagain => ?_
  rw [System.detachChild, System.freeProcess, if_pos hexited, hlink, hagain]

structure Moved (s u : State) (child : ProcId) : Prop where
  proc : ∀ q, u.proc q = { s.proc q with
    parent := if q = child then some s.rootProcess else (s.proc q).parent,
    childList := (s.proc q).childList.erase child ++ if q = s.rootProcess then [child] else [] }
  free : u.freeProcessList = s.freeProcessList
  thread : u.thread = s.thread
  root : u.rootProcess = s.rootProcess

theorem Moved.change (hm : Moved s u child) (hexited : (s.proc child).state ≠ .exited) :
    Change s u (fun _ => False) none := by
  refine ⟨hm.root, ?_, ?_, ?_, fun a ha => .inl (hm.free ▸ ha)⟩
  · intro a ha
    have hac : a ≠ child := by
      rintro rfl
      exact hexited ha
    rw [hm.proc]
    exact .inl ⟨ha, if_neg hac⟩
  · intro a ha
    refine .inl ⟨hm.root ▸ ha.root, ?_, ?_, ?_⟩
    · rw [hm.proc]
      exact ha.state
    · rw [hm.proc]
      exact ha.threads
    · rw [hm.proc]
      simp [ha.children, ha.root]
  · intro t q ht
    rw [Alive, hm.thread] at ht
    exact .inl ht

structure Detached (x y : System) (p : ProcId) (children : List ProcId) : Prop where
  kin : Kin y.procs y.link
  change : Change x.procs y.procs (fun a => a ∈ children ∧ (x.procs.proc a).state = .exited) none
  thread : y.procs.thread = x.procs.thread
  doing : y.doing = x.doing
  threadList : ∀ a, (x.procs.proc a).state ≠ .exited → (y.procs.proc a).threadList = (x.procs.proc a).threadList
  stays : ∀ a ∈ x.procs.freeProcessList, a ∈ y.procs.freeProcessList
  childList : p ≠ x.procs.rootProcess → (y.procs.proc p).childList = []

structure Round (x y : System) (p child : ProcId) : Prop where
  kin : Kin y.procs y.link
  change : Change x.procs y.procs (fun a => a = child ∧ (x.procs.proc a).state = .exited) none
  thread : y.procs.thread = x.procs.thread
  doing : y.doing = x.doing
  root : y.procs.rootProcess = x.procs.rootProcess
  other : ∀ a, a ≠ child → (y.procs.proc a).state = (x.procs.proc a).state
  threadList : ∀ a, (x.procs.proc a).state ≠ .exited →
    (y.procs.proc a).state = (x.procs.proc a).state ∧ (y.procs.proc a).threadList = (x.procs.proc a).threadList
  stays : ∀ a ∈ x.procs.freeProcessList, a ∈ y.procs.freeProcessList
  childList : ∃ extra, (y.procs.proc p).childList = (x.procs.proc p).childList.erase child ++ extra ∧
    (p ≠ x.procs.rootProcess → extra = [])

theorem detachAll_panicked (hstop : x.procs.panicked = true) (children : List ProcId) :
    x.detachAll cfg p children = x := by
  induction children with
  | nil => rfl
  | cons child rest ih =>
    rw [System.detachAll, List.foldl_cons, if_pos hstop]
    exact ih

theorem Round.detached (h : Round x y p child)
    (hlist : (child :: (rest ++ extra)).Nodup) (hd : Detached y z p rest) : Detached x z p (child :: rest) := by
  refine ⟨hd.kin, ?_, hd.thread.trans h.thread, hd.doing.trans h.doing, ?_, ?_, ?_⟩
  · refine (h.change.trans hd.change hd.stays).mono ?_
    rintro a (⟨rfl, ha⟩ | ⟨hmem, ha⟩)
    · exact ⟨List.mem_cons_self, ha⟩
    have hne : a ≠ child := by
      rintro rfl
      exact (List.nodup_cons.mp hlist).1 (List.mem_append_left _ hmem)
    exact ⟨List.mem_cons_of_mem child hmem, h.other a hne ▸ ha⟩
  · intro a ha
    obtain ⟨hs, hl⟩ := h.threadList a ha
    exact (hd.threadList a (hs ▸ ha)).trans hl
  · exact fun a ha => hd.stays a (h.stays a ha)
  · exact fun hp => hd.childList (h.root ▸ hp)

theorem allocated_same (h : Allocated s u parent new) (ha : a ≠ new) :
    ∃ l, u.proc a = { s.proc a with childList := l } ∧ (a ≠ parent → l = (s.proc a).childList) := by
  by_cases hap : a = parent
  · subst hap
    exact ⟨_, h.listed, fun hc => absurd rfl hc⟩
  · exact ⟨_, h.other a ha hap, fun _ => rfl⟩

theorem allocated_bare (h : Allocated s u parent new) : Bare u new := by
  obtain ⟨e, hmade⟩ := h.made
  refine ⟨h.root ▸ h.ne_root, ?_, ?_, ?_⟩ <;> rw [hmade] <;> rfl

section

variable (k : Kin s L)
include k

theorem Kin.erase_of_ne (hq : (s.proc p).parent ≠ some q) : (s.proc q).childList.erase p = (s.proc q).childList :=
  List.erase_of_not_mem fun hmem => hq ((k.parent p q).mp hmem)

theorem Kin.gone (hrun : s.panicked = false) :
    (Procs.freeProcess cfg s p).panicked = true ∨ Gone s (Procs.freeProcess cfg s p) p := by
  rcases freeProcess_cases cfg p hrun with hf | ⟨v, hf, hv⟩
  · exact .inl (by rw [hf]; rfl)
  refine .inr ?_
  rw [hf]
  rcases hv with ⟨hpar, rfl⟩ | ⟨r, hpar, rfl⟩
  · refine ⟨setProc_self _ _ _, fun q hq => ?_, rfl, rfl, rfl⟩
    rw [setProc_other hq, k.erase_of_ne (by simp [hpar])]
  refine ⟨setProc_self _ _ _, fun q hq => ?_, rfl, rfl, rfl⟩
  rw [setProc_other hq]
  by_cases hqr : q = r
  · subst hqr
    exact setProc_self _ _ _
  · have hne : (s.proc p).parent ≠ some q := fun hc => hqr (Option.some.inj (hc.symm.trans hpar))
    rw [k.erase_of_ne hne]
    exact setProc_other hqr _

theorem Kin.freeProcess (hrun : s.panicked = false) (hroot : p ≠ s.rootProcess)
    (hp : (s.proc p).state ≠ .free) (hthreads : (s.proc p).threadList = []) (hchildren : (s.proc p).childList = []) :
    (Procs.freeProcess cfg s p).panicked = true ∨
      Kin (Procs.freeProcess cfg s p) (unlinkFreed s L p) ∧ Gone s (Procs.freeProcess cfg s p) p := by
  obtain ⟨r, hr⟩ := k.parented p hroot hp
  refine (k.gone hrun).imp id fun hg => ⟨?_, hg⟩
  have hlists : childLists (Procs.freeProcess cfg s p) = fun j => (childLists s j).erase p := by
    funext j
    unfold childLists
    by_cases hj : j = p
    · rw [hj, hg.zero, hchildren]
      rfl
    · rw [hg.other j hj]
  refine ⟨k.posted.freeProcess hrun hroot hp hthreads, ?_, ?_, ?_, ?_, ?_, ?_⟩
  · rw [hlists, unlinkFreed, hr]
    refine family_clear (family_erase k.family ((k.parent p r).mpr hr)) ?_ ?_
    · rw [childLists, hchildren]
      rfl
    · exact fun j hmem => ((k.nodup j).mem_erase_iff.mp hmem).1 rfl
  · intro a b
    by_cases hb : b = p
    · subst hb
      rw [hg.zero]
      refine ⟨nofun, fun hpar => ?_⟩
      by_cases ha : a = b
      · rw [ha, hg.zero] at hpar
        cases hpar
      · rw [hg.other a ha] at hpar
        have hmem := (k.parent a b).mpr hpar
        rwa [hchildren] at hmem
    · rw [hg.other b hb]
      by_cases ha : a = p
      · subst ha
        rw [hg.zero]
        exact ⟨fun hmem => absurd rfl ((k.nodup b).mem_erase_iff.mp hmem).1, nofun⟩
      · rw [hg.other a ha]
        exact (List.mem_erase_of_ne ha).trans (k.parent a b)
  · intro a ha
    by_cases hap : a = p
    · rw [hap, hg.zero]
      exact ⟨rfl, rfl⟩
    rw [hg.other a hap] at ha ⊢
    obtain ⟨hpar, hch⟩ := k.bare a ha
    refine ⟨hpar, ?_⟩
    rw [hch]
    rfl
  · intro a har ha
    by_cases hap : a = p
    · rw [hap, hg.zero] at ha
      exact absurd rfl ha
    · rw [hg.other a hap] at ha ⊢
      exact k.parented a (hg.root ▸ har) ha
  · intro a har ha
    by_cases hap : a = p
    · rw [hap, hg.zero]
      rfl
    rw [hg.other a hap] at ha ⊢
    rw [k.childless a (hg.root ▸ har) ha]
    rfl
  · intro a
    by_cases hap : a = p
    · rw [hap, hg.zero]
      nofun
    · rw [hg.other a hap]
      exact k.other a

theorem Kin.moved (hchild : child ∈ (s.proc p).childList) (hexited : (s.proc child).state ≠ .exited) :
    Moved s (Procs.detachChild cfg p s child) child := by
  have hparent := (k.parent child p).mp hchild
  have hne : child ≠ p := by
    rintro rfl
    exact k.other child hparent
  have hroot : child ≠ s.rootProcess := fun hc => k.posted.child p (hc ▸ hchild)
  have hself := k.erase_of_ne (k.other child)
  unfold Procs.detachChild
  dsimp only
  rw [setProc_other hne, if_neg hexited]
  refine ⟨fun q => ?_, rfl, rfl, rfl⟩
  by_cases hqc : q = child
  · subst hqc
    simp [State.setProc, hne, hroot, hself]
  by_cases hqp : q = p
  · subst hqp
    by_cases hqr : q = s.rootProcess
    · simp [State.setProc, hqc, ← hqr]
    · simp [State.setProc, hqc, hqr]
  · have hkeep : (s.proc q).childList.erase child = (s.proc q).childList :=
      k.erase_of_ne fun hc => hqp (Option.some.inj (hc.symm.trans hparent))
    by_cases hqr : q = s.rootProcess
    · subst hqr
      simp [State.setProc, hqc, hqp, hkeep]
    · simp [State.setProc, hqc, hqp, hqr, hkeep]

theorem Moved.kin (hlist : (s.proc p).childList = child :: rest)
    (hm : Moved s u child) (hposted : Posted u) : Kin u (dlistAddTail (dlistRemHead L p) s.rootProcess child) := by
  have hmem : child ∈ (s.proc p).childList := by simp [hlist]
  have hroot : child ≠ s.rootProcess := fun hc => k.posted.child p (hc ▸ hmem)
  have hout (q : ProcId) : child ∉ (s.proc q).childList.erase child := fun hc =>
    ((k.nodup q).mem_erase_iff.mp hc).1 rfl
  have hlists : childLists u = update (fun j => (childLists s j).erase child) s.rootProcess
      ((childLists s s.rootProcess).erase child ++ [child]) := by
    funext j
    unfold childLists
    rw [hm.proc]
    by_cases hj : j = s.rootProcess
    · subst hj
      simp
    · simp [hj]
  have hbare {a : ProcId} (ha : a ≠ s.rootProcess) (hch : (s.proc a).childList = []) : (u.proc a).childList = [] := by
    rw [hm.proc]
    simp [hch, ha]
  refine ⟨hposted, ?_, ?_, ?_, ?_, ?_, ?_⟩
  · rw [hlists, remHead_eq_remEntry k.family hlist]
    exact family_addTail (family_erase k.family hmem) hout
  · intro a b
    rw [hm.proc a, hm.proc b]
    by_cases ha : a = child
    · subst ha
      by_cases hb : b = s.rootProcess
      · simp [hb]
      · simp [hb, Ne.symm hb, hout b]
    · refine Iff.trans ?_ ((k.parent a b).trans (by simp [ha]))
      by_cases hb : b = s.rootProcess
      · simp [ha]
      · simp [hb, List.mem_erase_of_ne ha]
  · intro a ha
    have hfree : (s.proc a).state = .free := by rwa [hm.proc] at ha
    obtain ⟨hpar, hch⟩ := k.bare a hfree
    have hac : a ≠ child := by
      rintro rfl
      rw [(k.parent a p).mp hmem] at hpar
      cases hpar
    refine ⟨?_, hbare (k.posted.free_ne_root hfree) hch⟩
    rw [hm.proc]
    simp [hac, hpar]
  · intro a har ha
    rw [hm.proc] at ha ⊢
    by_cases hac : a = child
    · exact ⟨s.rootProcess, if_pos hac⟩
    · obtain ⟨q, hq⟩ := k.parented a (hm.root ▸ har) ha
      exact ⟨q, by simp [hac, hq]⟩
  · intro a har ha
    rw [hm.root] at har
    rw [hm.proc] at ha
    exact hbare har (k.childless a har ha)
  · intro a
    rw [hm.proc]
    by_cases hac : a = child
    · subst hac
      simpa using hroot.symm
    · simpa [hac] using k.other a

theorem Kin.exited_child (hmem : child ∈ (s.proc p).childList) (hexited : (s.proc child).state = .exited) :
    child ≠ s.rootProcess ∧ (s.proc child).threadList = [] ∧ (s.proc child).childList = [] := by
  have hroot : child ≠ s.rootProcess := fun hc => k.posted.child p (hc ▸ hmem)
  exact ⟨hroot, k.posted.exited_bare hroot hexited, k.childless child hroot hexited⟩

theorem Kin.unlisted (hp : (s.proc p).state = .free) (q : ProcId) : p ∉ (s.proc q).childList := by
  intro hmem
  have hpar := (k.parent p q).mp hmem
  rw [(k.bare p hp).1] at hpar
  cases hpar

theorem Kin.clear (hp : (s.proc p).state = .free) : Kin s (dlistClear L p p) :=
  { k with family := family_clear k.family (k.bare p hp).2 (k.unlisted hp) }

protected theorem Kin.linkTaken : Kin s (linkTaken s L) := by
  unfold linkTaken
  split
  · rename_i p rest hl
    exact k.clear (k.posted.freeProcs p (by simp [hl]))
  · exact k

theorem Kin.tended_allocProcess (hu : Procs.allocProcess s p = (u, none)) : Tended s u none none := by
  rcases allocProcess_none hu with rfl | ⟨q, rest, hl, rfl⟩
  · exact (Worked.refl u).toTended
  have hfree : (s.proc q).state = .free := k.posted.freeProcs q (by simp [hl])
  obtain ⟨hpar, hch⟩ := k.bare q hfree
  have hthreads := k.posted.ended q (k.posted.free_ne_root hfree) (by simp [hfree])
  have hset : Worked s (s.setProc q Process.zero) none none :=
    Worked.setProc hpar.symm hch.symm (.inl hfree.symm) (fun _ => rfl) fun t _ hm => by rwa [hthreads] at hm
  refine { hset.toTended with free := fun a => ?_, root := rfl }
  simp [State.setProc, hl, or_comm]

theorem Kin.allocated (h : Allocated s u parent new) (hposted : Posted u)
    (hpar : (s.proc parent).state ≠ .free) (hchildless : parent ≠ s.rootProcess → (s.proc parent).state ≠ .exited) :
    Kin u (dlistInit (dlistAddTail (dlistClear L new new) parent new) new) := by
  have hnew : (s.proc new).state = .free := k.posted.freeProcs new (by simp [h.free])
  obtain ⟨hnewpar, hnewch⟩ := k.bare new hnew
  obtain ⟨e, hmade⟩ := h.made
  have hlists : childLists u = update (update (childLists s) parent
      (childLists s parent ++ [new])) new [] := by
    funext j
    unfold childLists
    by_cases hj : j = new
    · subst hj
      rw [update_self, hmade]
      rfl
    rw [update_of_ne hj]
    by_cases hjp : j = parent
    · subst hjp
      rw [update_self, h.listed]
    · rw [update_of_ne hjp, h.other j hj hjp]
  refine ⟨hposted, ?_, ?_, ?_, ?_, ?_, ?_⟩
  · rw [hlists]
    exact family_init (family_addTail (k.clear hnew).family (k.unlisted hnew))
  · intro a b
    have hmem : a ∈ (u.proc b).childList ↔ b ≠ new ∧ (a ∈ (s.proc b).childList ∨ b = parent ∧ a = new) := by
      by_cases hb : b = new
      · simp [hb, hmade, Process.zero]
      by_cases hbp : b = parent
      · subst hbp
        simp [h.listed, hb]
      · simp [h.other b hb hbp, hb, hbp]
    rw [hmem]
    by_cases ha : a = new
    · subst ha
      rw [hmade]
      constructor
      · rintro ⟨-, hmem | ⟨rfl, -⟩⟩
        · exact absurd hmem (k.unlisted hnew b)
        · rfl
      · intro hb
        cases hb
        exact ⟨h.ne_parent.symm, .inr ⟨rfl, rfl⟩⟩
    · obtain ⟨l, hl, -⟩ := allocated_same h ha
      rw [hl, ← k.parent a b]
      constructor
      · rintro ⟨-, hmem | ⟨-, hc⟩⟩
        · exact hmem
        · exact absurd hc ha
      intro hin
      refine ⟨?_, .inl hin⟩
      rintro rfl
      rw [hnewch] at hin
      cases hin
  · intro a ha
    have han : a ≠ new := by
      rintro rfl
      rw [hmade] at ha
      cases ha
    obtain ⟨l, hl, hkeep⟩ := allocated_same h han
    rw [hl] at ha ⊢
    obtain ⟨hapar, hach⟩ := k.bare a ha
    refine ⟨hapar, (hkeep ?_).trans hach⟩
    rintro rfl
    exact hpar ha
  · intro a har ha
    by_cases han : a = new
    · rw [han, hmade]
      exact ⟨parent, rfl⟩
    · obtain ⟨l, hl, -⟩ := allocated_same h han
      rw [hl] at ha ⊢
      exact k.parented a (h.root ▸ har) ha
  · intro a har ha
    rw [h.root] at har
    have han : a ≠ new := by
      rintro rfl
      rw [hmade] at ha
      cases ha
    obtain ⟨l, hl, hkeep⟩ := allocated_same h han
    rw [hl] at ha ⊢
    refine (hkeep ?_).trans (k.childless a har ha)
    rintro rfl
    exact hchildless har ha
  · intro a
    by_cases han : a = new
    · rw [han, hmade]
      exact fun hc => h.ne_parent (Option.some.inj hc).symm
    · obtain ⟨l, hl, -⟩ := allocated_same h han
      rw [hl]
      exact k.other a

theorem allocated_change (h : Allocated s u parent new)
    (hbusy : (s.proc parent).threadList ≠ []) : Change s u (fun _ => False) none := by
  have hnew : (s.proc new).state = .free := k.posted.freeProcs new (by simp [h.free])
  refine ⟨h.root, ?_, ?_, ?_, ?_⟩
  · intro a ha
    have han : a ≠ new := by
      rintro rfl
      rw [hnew] at ha
      cases ha
    obtain ⟨l, hl, -⟩ := allocated_same h han
    rw [hl]
    exact .inl ⟨ha, rfl⟩
  · intro a ha
    have han : a ≠ new := by
      rintro rfl
      have hs := ha.state
      rw [hnew] at hs
      cases hs
    have hap : a ≠ parent := by
      rintro rfl
      exact hbusy ha.threads
    have hsame := h.other a han hap
    refine .inl ⟨h.root ▸ ha.root, ?_, ?_, ?_⟩ <;> rw [hsame]
    · exact ha.state
    · exact ha.threads
    · exact ha.children
  · intro t q ht
    rw [Alive, h.thread] at ht
    exact .inl ht
  · intro a ha
    rw [h.free]
    exact .inl (List.mem_cons_of_mem new ha)

end

variable (k : Kin x.procs x.link) (hrun : x.procs.panicked = false)
include k hrun

theorem Kin.detachChild (hlist : (x.procs.proc p).childList = child :: rest) :
    (x.detachChild cfg p child).procs.panicked = true ∨ Round x (x.detachChild cfg p child) p child := by
  have hmem : child ∈ (x.procs.proc p).childList := by simp [hlist]
  by_cases hexited : (x.procs.proc child).state = .exited
  · rcases detachChild_eq k hrun hlist hexited with hstop | heq
    · exact .inl hstop
    rw [heq]
    obtain ⟨hroot, hthreads, hchildren⟩ := k.exited_child hmem hexited
    refine (k.freeProcess hrun hroot (by rw [hexited]; nofun) hthreads hchildren).imp id fun hfreed => ?_
    obtain ⟨hkin, hg⟩ := hfreed
    have hpc : p ≠ child := by
      rintro rfl
      exact k.other p ((k.parent p p).mp hmem)
    have hne {a : ProcId} (ha : (x.procs.proc a).state ≠ .exited) : a ≠ child := by
      rintro rfl
      exact ha hexited
    refine ⟨hkin, hg.change.mono ?_, hg.thread, rfl, hg.root, ?_, ?_, ?_, [], ?_, fun _ => rfl⟩
    · rintro a rfl
      exact ⟨rfl, hexited⟩
    · intro a ha
      rw [System.freeProcess, hg.other a ha]
    · intro a ha
      rw [System.freeProcess, hg.other a (hne ha)]
      exact ⟨rfl, rfl⟩
    · intro a ha
      rw [System.freeProcess, hg.free]
      exact List.mem_append_left _ ha
    · rw [System.freeProcess, hg.other p hpc, List.append_nil]
  · have hm : Moved x.procs (Procs.detachChild cfg p x.procs child) child := k.moved hmem hexited
    have hposted : Posted (Procs.detachChild cfg p x.procs child) :=
      k.posted.detachChild hrun fun hc => k.posted.child p (hc ▸ hmem)
    have hlink : (x.detachChild cfg p child).link =
        dlistAddTail (dlistRemHead x.link p) x.procs.rootProcess child := if_neg hexited
    refine .inr ⟨?_, (hm.change hexited).mono nofun, hm.thread, rfl, hm.root, ?_, ?_, ?_, ?_⟩
    · rw [hlink]
      exact hm.kin k hlist hposted
    · intro a _
      rw [System.detachChild, hm.proc a]
    · intro a _
      rw [System.detachChild, hm.proc a]
      exact ⟨rfl, rfl⟩
    · exact fun a ha => hm.free ▸ ha
    · exact ⟨_, congrArg Process.childList (hm.proc p), fun hp => if_neg hp⟩

theorem Kin.detachAll (children : List ProcId)
    (hlist : ∃ extra, (x.procs.proc p).childList = children ++ extra ∧ (p ≠ x.procs.rootProcess → extra = [])) :
    (x.detachAll cfg p children).procs.panicked = true ∨ Detached x (x.detachAll cfg p children) p children := by
  induction children generalizing x with
  | nil =>
    obtain ⟨extra, hl, hextra⟩ := hlist
    refine .inr ⟨k, (Change.refl _).mono nofun, rfl, rfl, fun _ _ => rfl, fun _ => id, fun hp => ?_⟩
    exact hl.trans (hextra hp)
  | cons child rest ih =>
    obtain ⟨extra, hl, hextra⟩ := hlist
    have hstep : x.detachAll cfg p (child :: rest) = (x.detachChild cfg p child).detachAll cfg p rest := by
      rw [System.detachAll, List.foldl_cons, if_neg (by simp [hrun])]
      rfl
    rw [hstep]
    rcases k.detachChild hrun hl with hstop | hround
    · rw [detachAll_panicked hstop]
      exact .inl hstop
    cases hgo : (x.detachChild cfg p child).procs.panicked with
    | true =>
      rw [detachAll_panicked hgo]
      exact .inl hgo
    | false =>
      obtain ⟨extra', hl', hextra'⟩ := hround.childList
      rw [hl, List.cons_append, List.erase_cons_head, List.append_assoc] at hl'
      refine (ih hround.kin hgo ⟨extra ++ extra', hl', ?_⟩).imp id (hround.detached (hl ▸ k.nodup p))
      intro hp
      rw [hround.root] at hp
      rw [hextra hp, hextra' hp]
      rfl

theorem Kin.detachChildProcesses (p : ProcId) :
    (x.detachChildProcesses cfg p).procs.panicked = true ∨
      Detached x (x.detachChildProcesses cfg p) p (x.procs.proc p).childList :=
  k.detachAll hrun _ ⟨[], (List.append_nil _).symm, fun _ => rfl⟩

end Trees

end CheviotKernel.Procs.Reaping
