import CheviotKernel.Proc.PidTable
import CheviotKernel.Proc.ProcessTree

namespace CheviotKernel.Procs.Reaping

open Function Linked CheviotKernel.Lists Runs

inductive Action
  | call (a : Procs.Action)
  | fork (c : ThreadId)
  | forkSpace (c : ThreadId) (ok : Bool)
  | forkFds (c : ThreadId)
  | forkStack (c : ThreadId) (ok : Bool)
  | forkUndo (c : ThreadId)
  | create (c : ThreadId) (kernel detached : Bool)
  | createStack (c : ThreadId) (ok : Bool)
  | leave (c : ThreadId)
  | exitFinish (c : ThreadId)
  | waitpid (c : ThreadId) (pid : PidT) (status : Bool)
  | copied (c : ThreadId) (fault : Bool)

section

variable (cfg : Config) (x : System)

def idle : Procs.Action → Bool
  | .setsid c => x.doing c = .nothing
  | .setpgrp c => x.doing c = .nothing
  | .setpgid c _ _ => x.doing c = .nothing
  | .exit c => x.doing c = .nothing
  | .threadExit c => x.doing c = .nothing
  | .join c _ => x.doing c = .nothing
  | .joinFinish c => x.doing c = .nothing
  | .reaper _ => true
  | .fork .. => false
  | .threadCreate .. => false
  | .exitFinish .. => false
  | .waitpid .. => false

def awake (c : ThreadId) : Option ProcId :=
  if x.doing c = .nothing then caller x.procs c else none

def asleep (c : ThreadId) : Option ProcId :=
  if (x.procs.thread c).state = .init then (x.procs.thread c).process else none

def resume (c : ThreadId) (f : ProcId → Doing → Option System) : Option System :=
  (asleep x c).bind fun p => f p (x.doing c)

def sysFork (c : ThreadId) (p : ProcId) : System :=
  match x.allocProcess p with
  | (x, none) => x
  | (x, some new) => x.setDoing c (.forking new)

def forkSpace (c : ThreadId) (p new : ProcId) (ok : Bool) : System :=
  if ok then (x.setProcs (forkSessionPgrp cfg x.procs new p)).setDoing c (.copyingFds new)
  else (x.freeProcess cfg new).setDoing c .nothing

def forkFds (c : ThreadId) (new : ProcId) : System :=
  match allocThread x.procs with
  | (s, none) => (x.setProcs s).setDoing c (.failing new)
  | (s, some (t, tid)) => (x.setProcs s).setDoing c (.stacking new t tid)

def startThread (c : ThreadId) (p : ProcId) (t : ThreadId) (tid : PidT) (detached : Bool) : System :=
  ((x.setProcs (initThread x.procs p t tid detached)).setDoing c .nothing).setDoing t .nothing

def forkStack (c : ThreadId) (new : ProcId) (t : ThreadId) (tid : PidT) (ok : Bool) : System :=
  if ok then startThread x c new t tid true
  else (x.setProcs (abandonThread cfg x.procs t tid)).setDoing c (.failing new)

def forkUndo (c : ThreadId) (new : ProcId) : System :=
  ((x.setProcs (finiSessionPgrp cfg x.procs new)).freeProcess cfg new).setDoing c .nothing

def doCreateThread (c : ThreadId) (p : ProcId) (detached : Bool) : System :=
  match allocThread x.procs with
  | (s, none) => x.setProcs s
  | (s, some (t, tid)) => (x.setProcs s).setDoing c (.creating p t tid detached)

def createStack (c : ThreadId) (p : ProcId) (t : ThreadId) (tid : PidT) (detached ok : Bool) :
    System :=
  if ok then startThread x c p t tid detached
  else (x.setProcs (abandonThread cfg x.procs t tid)).setDoing c .nothing

def exitFinish (c : ThreadId) (p : ProcId) : System :=
  let x := (x.setProcs (finiSessionPgrp cfg x.procs p)).detachChildProcesses cfg p
  if x.procs.panicked then x else (x.setProcs (doExitThread x.procs c p)).setDoing c .nothing

def sysWaitpid (c : ThreadId) (p : ProcId) (pid : PidT) (status : Bool) : System :=
  match waitSelect cfg x.procs p pid with
  | .ok (some child) => if status then x.setDoing c (.copyingOut child) else x.waitReap cfg p child
  | _ => x

def copied (c : ThreadId) (p child : ProcId) (fault : Bool) : System :=
  if fault then x.setDoing c .nothing else (x.waitReap cfg p child).setDoing c .nothing

def transition (cfg : Config) (x : System) : Action → Option System
  | .call a => if idle x a then (Procs.transition cfg x.procs a).map x.setProcs else none
  | .fork c => (awake x c).map fun p => sysFork x c p
  | .forkSpace c ok => resume x c fun
      | p, .forking new => some (forkSpace cfg x c p new ok)
      | _, _ => none
  | .forkFds c => resume x c fun
      | _, .copyingFds new => some (forkFds x c new)
      | _, _ => none
  | .forkStack c ok => resume x c fun
      | _, .stacking new t tid => some (forkStack cfg x c new t tid ok)
      | _, _ => none
  | .forkUndo c => resume x c fun
      | _, .failing new => some (forkUndo cfg x c new)
      | _, _ => none
  | .create c kernel detached => (awake x c).map fun p =>
    doCreateThread x c (if kernel then x.procs.rootProcess else p) detached
  | .createStack c ok => resume x c fun
      | _, .creating p t tid detached => some (createStack cfg x c p t tid detached ok)
      | _, _ => none
  | .leave c => resume x c fun
      | p, .nothing =>
        if x.procs.phase c = .exiting ∧
            ((x.procs.proc p).threadList.head? = some c ∨ (x.procs.proc p).threadList.getLast? = some c) then
          some (x.setDoing c .leaving)
        else none
      | _, _ => none
  | .exitFinish c => resume x c fun
      | p, .leaving => some (exitFinish cfg x c p)
      | _, _ => none
  | .waitpid c pid status => (awake x c).map fun p => sysWaitpid cfg x c p pid status
  | .copied c fault => resume x c fun
      | p, .copyingOut child => some (copied cfg x c p child fault)
      | _, _ => none

def step (a : Action) : Option System :=
  if x.procs.panicked then none else transition cfg x a

def Started : Prop :=
  Booted cfg x.procs ∧ x.link = ⟨fun _ => none, fun _ => none, fun _ => none, fun _ => none⟩ ∧
    x.doing = fun _ => .nothing

structure Tree (x : System) : Prop where
  spelled : Family x.link fun q => (x.procs.proc q).childList
  once : ∀ p q, (x.procs.proc q).childList.count p = if (x.procs.proc p).parent = some q then 1 else 0
  freeOnce : x.procs.freeProcessList.Nodup ∧ ∀ p ∈ x.procs.freeProcessList, (x.procs.proc p).state = .free
  reapable : ∀ p, p ≠ x.procs.rootProcess → (x.procs.proc p).state ≠ .free →
    ∃ q, (x.procs.proc p).parent = some q ∧ (q = x.procs.rootProcess ∨ (x.procs.proc q).state = .init)

def undone : Action → Option ProcId
  | .forkSpace c ok => if ok then none else (x.doing c).forked
  | .forkUndo c => (x.doing c).forked
  | _ => none

structure Reaped (x y : System) (new : Option ProcId) : Prop where
  freed : ∀ p ∈ y.procs.freeProcessList,
    p ∈ x.procs.freeProcessList ∨ (x.procs.proc p).state = .exited ∨ new = some p
  kept : ∀ p, (x.procs.proc p).state = .exited →
    (y.procs.proc p).state = .exited ∧ (y.procs.proc p).parent = (x.procs.proc p).parent ∨
      p ∈ y.procs.freeProcessList

def Unwatched (c : ThreadId) (p child : ProcId) : Prop :=
  ∀ t ∈ (x.procs.proc p).threadList, t ≠ c → x.doing t ≠ .copyingOut child
  deriving Decidable

def Doing.copied : Doing → Option ProcId
  | .copyingOut child => some child
  | _ => none

def Careful : Action → Prop
  | .call (.threadExit c) => ∀ p ∈ caller x.procs c, Leaves x.procs c p
  | .call (.exit c) => ∀ p ∈ caller x.procs c, (x.procs.proc p).exitInProgress = true → Leaves x.procs c p
  | .call (.joinFinish c) => ∀ r ∈ sleeper x.procs c, ∀ t ∈ r.1.target, JoinOwn x.procs r.2 t
  | .exitFinish c => ∀ p ∈ asleep x c, ∀ t ∈ (x.procs.proc p).threadList, (x.doing t).copied = none
  | .waitpid c pid false => ∀ p ∈ caller x.procs c, ∀ child ∈ (waitSelect cfg x.procs p pid).toOption.join,
      Unwatched x c p child
  | .copied c false => ∀ p ∈ asleep x c, ∀ child ∈ (x.doing c).copied, Unwatched x c p child
  | _ => True

end

section Decide

variable (cfg : Config) (x : System)

instance (c : ThreadId) (p : ProcId) : Decidable (Leaves x.procs c p) :=
  inferInstanceAs (Decidable (_ → _ → _))

instance decidableCareful : ∀ a, Decidable (Careful cfg x a) := fun a => by
  unfold Careful
  split <;> infer_instance

end Decide

section

variable {cfg : Config} {s u : State} {x y : System} {p new child q : ProcId} {c t : ThreadId} {d : Doing}
  {T : ProcId → Prop} {used : Option (ProcId × ThreadId)} {L : Links ProcId ProcId} {undo : Option ProcId}
  {ok detached status fault : Bool} {tid pid : PidT}

structure Sound (s : State) (p : ProcId) (d : Doing) : Prop where
  copying : ∀ child, d = .copyingOut child → (s.proc child).state = .exited ∧ (s.proc child).parent = some p
  creating : ∀ q t tid detached, d = .creating q t tid detached → q = s.rootProcess ∨ q = p
  forking : ∀ new, d.forked = some new → Bare s new

theorem Sound.nothing (s : State) (p : ProcId) : Sound s p .nothing := ⟨nofun, nofun, nofun⟩

theorem Sound.forked (p : ProcId) (hd : d.forked = some new) (hb : Bare s new) : Sound s p d := by
  refine ⟨?_, ?_, ?_⟩
  · rintro child rfl
    cases hd
  · rintro q t tid detached rfl
    cases hd
  · intro v hv
    cases hd.symm.trans hv
    exact hb

structure Spared (d : Doing) (T : ProcId → Prop) (used : Option (ProcId × ThreadId)) : Prop where
  copying : ∀ child, d = .copyingOut child → ¬ T child
  forking : ∀ new, d.forked = some new → ¬ T new ∧ ∀ t, used ≠ some (new, t)

theorem Spared.quiet (d : Doing) : Spared d (fun _ => False) none := ⟨fun _ _ => id, fun _ _ => ⟨id, fun _ => nofun⟩⟩

theorem Sound.change (h : Sound s p d) (hc : Change s u T used) (hs : Spared d T used) : Sound u p d := by
  refine ⟨?_, ?_, ?_⟩
  · intro child hd
    obtain ⟨hstate, hparent⟩ := h.copying child hd
    obtain ⟨hstate', hparent'⟩ := (hc.exited child hstate).resolve_right fun hg => hs.copying child hd hg.1
    exact ⟨hstate', hparent'.trans hparent⟩
  · rw [hc.root]
    exact h.creating
  · intro new hd
    obtain ⟨hT, hused⟩ := hs.forking new hd
    rcases hc.bare new (h.forking new hd) with hb | hg | ⟨t, ht⟩
    · exact hb
    · exact absurd hg hT
    · exact absurd ht (hused t)

structure Busy (x : System) : Prop where
  sound : ∀ c p, Alive x.procs p c → Sound x.procs p (x.doing c)
  apart : ∀ c p c' p' new, Alive x.procs p c → Alive x.procs p' c' → (x.doing c).forked = some new →
    (x.doing c').forked = some new → c = c'

structure Progress (x y : System) (undo : Option ProcId) : Prop where
  kin : Kin y.procs y.link
  busy : Busy y
  reaped : Reaped x y undo

theorem Change.reaped (h : Change x.procs y.procs T used)
    (hT : ∀ p, T p → (x.procs.proc p).state = .exited ∨ undo = some p) : Reaped x y undo :=
  ⟨fun p hp => (h.freed p hp).imp id (hT p), fun p hp => (h.exited p hp).imp id And.right⟩

theorem Change.reaped_none (h : Change x.procs y.procs (fun _ => False) used) : Reaped x y undo := h.reaped nofun

theorem alive_busy (k : Kin s L) (hc : Alive s p c) : (s.proc p).threadList ≠ [] :=
  List.ne_nil_of_mem (k.posted.member c p hc)

theorem alive_root_or_init (k : Kin s L) (hc : Alive s p c) : p = s.rootProcess ∨ (s.proc p).state = .init := by
  by_cases hroot : p = s.rootProcess
  · exact .inl hroot
  · exact .inr (k.posted.alive_init hc hroot)

theorem Reaped.kindred (hk : Kindred x.procs u) (h : Reaped (x.setProcs u) y undo) : Reaped x y undo := by
  refine ⟨?_, ?_⟩
  · intro p hp
    have hfreed := h.freed p hp
    rw [System.setProcs, hk.freeProcs, hk.state] at hfreed
    exact hfreed
  · intro p hp
    have hkept := h.kept p ((hk.state p).trans hp)
    rw [System.setProcs, hk.parent] at hkept
    exact hkept

theorem startThread_doing (x : System) (c : ThreadId) (p : ProcId) (t : ThreadId) (tid : PidT) (detached : Bool)
    (v : ThreadId) : (startThread x c p t tid detached).doing v = if v = t ∨ v = c then .nothing else x.doing v := by
  by_cases hvt : v = t
  · simp [startThread, System.setDoing, hvt]
  by_cases hvc : v = c
  · subst hvc
    simp [startThread, System.setDoing, hvt]
  · simp [startThread, System.setDoing, System.setProcs, hvt, hvc]

namespace Busy

variable (h : Busy x)
include h

theorem quiet (hc : Change x.procs u (fun _ => False) none) : Busy (x.setProcs u) := by
  refine ⟨?_, ?_⟩
  · intro c p ha
    exact (h.sound c p ((hc.alive c p ha).resolve_right nofun)).change hc (Spared.quiet _)
  · intro c p c' p' new ha ha'
    exact h.apart c p c' p' new ((hc.alive c p ha).resolve_right nofun) ((hc.alive c' p' ha').resolve_right nofun)

theorem change (hc : Change x.procs y.procs T used)
    (hdoing : ∀ t, t ≠ c → y.doing t = x.doing t ∨ y.doing t = .nothing)
    (hfresh : ∀ q t, used = some (q, t) → y.doing t = .nothing)
    (hspared : ∀ t q, t ≠ c → Alive x.procs q t → Spared (x.doing t) T used)
    (hown : ∀ p, Alive y.procs p c → Sound y.procs p (y.doing c))
    (hnew : ∀ new, (y.doing c).forked = some new → ∀ t q, t ≠ c → Alive x.procs q t → (x.doing t).forked ≠ some new) :
    Busy y := by
  have hold (t : ThreadId) (q : ProcId) (htc : t ≠ c) (ha : Alive y.procs q t) (hd : y.doing t ≠ .nothing) :
      Alive x.procs q t ∧ y.doing t = x.doing t := by
    refine ⟨(hc.alive t q ha).resolve_right fun hused => hd (hfresh q t hused), ?_⟩
    exact (hdoing t htc).resolve_right hd
  have hbusy {t : ThreadId} {new : ProcId} (hf : (y.doing t).forked = some new) : y.doing t ≠ .nothing := by
    intro hd
    rw [hd] at hf
    cases hf
  refine ⟨?_, ?_⟩
  · intro t q ha
    by_cases htc : t = c
    · subst htc
      exact hown q ha
    by_cases hd : y.doing t = .nothing
    · rw [hd]
      exact Sound.nothing _ q
    · obtain ⟨ha', hd'⟩ := hold t q htc ha hd
      rw [hd']
      exact (h.sound t q ha').change hc (hspared t q htc ha')
  · intro a p b q new ha hb hfa hfb
    by_cases hac : a = c
    · by_cases hbc : b = c
      · exact hac.trans hbc.symm
      obtain ⟨hb', hd⟩ := hold b q hbc hb (hbusy hfb)
      rw [hd] at hfb
      subst hac
      exact absurd hfb (hnew new hfa b q hbc hb')
    · obtain ⟨ha', hda⟩ := hold a p hac ha (hbusy hfa)
      rw [hda] at hfa
      by_cases hbc : b = c
      · subst hbc
        exact absurd hfa (hnew new hfb a p hac ha')
      · obtain ⟨hb', hdb⟩ := hold b q hbc hb (hbusy hfb)
        rw [hdb] at hfb
        exact h.apart a p b q new ha' hb' hfa hfb

theorem act (hc : Change x.procs y.procs T none) (hdoing : y.doing = update x.doing c d)
    (hspared : ∀ t q, t ≠ c → Alive x.procs q t → Spared (x.doing t) T none)
    (hown : ∀ p, Alive y.procs p c → Sound y.procs p d)
    (hnew : ∀ new, d.forked = some new → ∀ t q, t ≠ c → Alive x.procs q t → (x.doing t).forked ≠ some new) : Busy y := by
  have hself : y.doing c = d := by rw [hdoing, update_self]
  refine h.change hc ?_ nofun hspared ?_ ?_
  · intro t htc
    rw [hdoing, update_of_ne htc]
    exact .inl rfl
  · rw [hself]
    exact hown
  · rw [hself]
    exact hnew

theorem forked_apart (hc : Alive x.procs p c) (hd : (x.doing c).forked = some new) (t : ThreadId)
    (q : ProcId) (htc : t ≠ c) (ha : Alive x.procs q t) : (x.doing t).forked ≠ some new :=
  fun hf => htc (h.apart t q c p new ha hc hf hd)

theorem goOn (hcaller : Alive x.procs p c) (hold : (x.doing c).forked = some new)
    (hc : Change x.procs y.procs (fun _ => False) none) (hdoing : y.doing = update x.doing c d)
    (hforked : d.forked = some new) : Busy y := by
  refine h.act hc hdoing (fun _ _ _ _ => Spared.quiet _) ?_ ?_
  · intro q _
    have hbare := (h.sound c p hcaller).forking new hold
    rcases hc.bare new hbare with hb | hg | ⟨t, ht⟩
    · exact Sound.forked q hforked hb
    · exact hg.elim
    · cases ht
  · intro new' hnew'
    cases hforked.symm.trans hnew'
    exact h.forked_apart hcaller hold

theorem spared_child (k : Kin x.procs x.link) (hparent : (x.procs.proc child).parent = some p)
    (hexited : (x.procs.proc child).state = .exited) (hfree : Unwatched x c p child) (t : ThreadId) (q : ProcId)
    (htc : t ≠ c) (ha : Alive x.procs q t) : Spared (x.doing t) (· = child) none := by
  have hs := h.sound t q ha
  refine ⟨?_, fun new hd => ⟨?_, nofun⟩⟩
  · rintro _ hd rfl
    obtain ⟨-, hpar⟩ := hs.copying _ hd
    cases hpar.symm.trans hparent
    exact hfree t (k.posted.member t p ha) htc hd
  · rintro rfl
    have hb := (hs.forking new hd).state
    rw [hexited] at hb
    cases hb

theorem spared_new (hc : Alive x.procs p c) (hd : (x.doing c).forked = some new) (t : ThreadId)
    (q : ProcId) (htc : t ≠ c) (ha : Alive x.procs q t) (used : Option (ProcId × ThreadId))
    (hused : ∀ v t, used = some (v, t) → v = new) : Spared (x.doing t) (· = new) used := by
  have hs := h.sound t q ha
  have hbare := ((h.sound c p hc).forking new hd).state
  refine ⟨?_, fun v hv => ⟨?_, ?_⟩⟩
  · rintro _ hcopy rfl
    rw [(hs.copying _ hcopy).1] at hbare
    cases hbare
  · rintro rfl
    exact h.forked_apart hc hd t q htc ha hv
  · intro w hw
    rw [hused v w hw] at hv
    exact h.forked_apart hc hd t q htc ha hv

theorem idles (hc : Change x.procs y.procs T none) (hdoing : y.doing = update x.doing c .nothing)
    (hspared : ∀ t q, t ≠ c → Alive x.procs q t → Spared (x.doing t) T none) : Busy y :=
  h.act hc hdoing hspared (fun q _ => Sound.nothing _ q) nofun

theorem spared_children (k : Kin x.procs x.link)
    (hcare : ∀ t ∈ (x.procs.proc p).threadList, (x.doing t).copied = none) (t : ThreadId) (q : ProcId)
    (ha : Alive x.procs q t) :
    Spared (x.doing t) (fun a => a ∈ (x.procs.proc p).childList ∧ (x.procs.proc a).state = .exited) none := by
  have hs := h.sound t q ha
  refine ⟨?_, fun new hd => ⟨?_, nofun⟩⟩
  · rintro child hd ⟨hmem, -⟩
    obtain ⟨-, hpar⟩ := hs.copying child hd
    cases hpar.symm.trans ((k.parent child p).mp hmem)
    have hnone := hcare t (k.posted.member t p ha)
    rw [hd] at hnone
    cases hnone
  · rintro ⟨-, hexited⟩
    have hb := (hs.forking new hd).state
    rw [hexited] at hb
    cases hb

end Busy

theorem Progress.call (k : Kin x.procs x.link) (h : Busy x) (hrun : x.procs.panicked = false) {a : Procs.Action}
    (hidle : idle x a = true) (hcare : Careful cfg x (.call a)) (hs : Procs.transition cfg x.procs a = some u) :
    Progress x (x.setProcs u) undo := by
  have hmade (left : Option ProcId) (hkin : Kin u x.link) (ht : Worked x.procs u none left) :
      Progress x (x.setProcs u) undo := ⟨hkin, h.quiet ht.change, Change.reaped_none ht.change⟩
  have hkindred (hk : Kindred x.procs u) : Progress x (x.setProcs u) undo :=
    hmade none (k.kindred hk) (Worked.kindred hk)
  cases transition_cases hs with
  | setsid => exact hkindred (kindred_sysSetsid cfg x.procs _)
  | setpgrp => exact hkindred (kindred_sysSetpgrp cfg x.procs _)
  | setpgid => exact hkindred (kindred_sysSetpgid cfg x.procs _ _ _)
  | exit hp =>
    have hc := caller_some hp
    exact hmade (some _) (k.sysExit hc (hcare _ hp)) (worked_sysExit k.posted hc)
  | threadExit hp =>
    have hc := caller_some hp
    exact hmade (some _) (k.doExitThread hc (hcare _ hp)) (worked_doExitThread k.posted hc)
  | join => exact hmade none (k.work worked_sysThreadJoin nofun nofun) worked_sysThreadJoin
  | joinFinish hp ht =>
    exact hmade none (k.work (worked_joinFinish hrun ht) nofun nofun) (worked_joinFinish hrun ht)
  | reaper =>
    exact hmade none (k.work (worked_threadReaper hrun) nofun nofun) (worked_threadReaper hrun)
  | fork | threadCreate | exitFinish | waitpid => cases hidle

theorem Progress.sysFork (k : Kin x.procs x.link) (h : Busy x) (hc : Alive x.procs p c) :
    Progress x (sysFork x c p) undo := by
  have hpar := k.posted.alive_ne_free hc
  unfold Reaping.sysFork System.allocProcess
  cases ha : Procs.allocProcess x.procs p with
  | mk u r =>
    cases r with
    | none =>
      have ht := k.tended_allocProcess ha
      refine ⟨k.linkTaken.tend ht (k.posted.allocProcess_none ha) nofun, ?_, Change.reaped_none ht.change⟩
      exact ⟨(h.quiet ht.change).sound, (h.quiet ht.change).apart⟩
    | some new =>
      obtain ⟨hall, hposted⟩ := k.posted.allocProcess_some hpar ha
      have hch := allocated_change k hall (alive_busy k hc)
      have hlink : linkTaken x.procs x.link = dlistClear x.link new new := by
        rw [linkTaken, hall.free]
      refine ⟨?_, ?_, Change.reaped_none hch⟩
      · rw [hlink]
        refine k.allocated hall hposted hpar fun hroot => ?_
        rw [k.posted.alive_init hc hroot]
        nofun
      · refine h.act hch rfl (fun _ _ _ _ => Spared.quiet _) ?_ ?_
        · refine fun q _ => ⟨nofun, nofun, fun v hv => ?_⟩
          cases hv
          exact allocated_bare hall
        rintro v hv t q - hat hf
        cases hv
        have hb := ((h.sound t q hat).forking new hf).state
        rw [k.posted.freeProcs new (by simp [hall.free])] at hb
        cases hb

section

variable (k : Kin x.procs x.link) (h : Busy x) (hrun : x.procs.panicked = false) (hc : Alive x.procs p c)
include k h

theorem Progress.startThread (hp : p = x.procs.rootProcess ∨ (x.procs.proc p).state = .init)
    (hspared : ∀ v q, v ≠ c → Alive x.procs q v → (x.doing v).forked ≠ some p) :
    Progress x (startThread x c p t tid detached) undo := by
  have ht : Worked x.procs (initThread x.procs p t tid detached) (some (p, t)) none := worked_initThread detached
  have hdoing := startThread_doing x c p t tid detached
  refine ⟨k.tend ht.toTended (k.posted.initThread hp detached) nofun, ?_, Change.reaped_none ht.change⟩
  refine h.change (c := c) ht.change ?_ ?_ ?_ ?_ ?_
  · intro v hvc
    rw [hdoing]
    by_cases hvt : v = t
    · exact .inr (if_pos (.inl hvt))
    · exact .inl (if_neg (by simp [hvt, hvc]))
  · intro q v hv
    cases hv
    rw [hdoing, if_pos (.inl rfl)]
  · intro v q hvc ha
    refine ⟨fun _ _ => id, fun new hf => ⟨id, fun w hw => ?_⟩⟩
    cases hw
    exact hspared v q hvc ha hf
  · intro q _
    rw [hdoing, if_pos (.inr rfl)]
    exact Sound.nothing _ q
  · intro new hf
    rw [hdoing, if_pos (.inr rfl)] at hf
    cases hf

include hrun

theorem Progress.waitReap (hparent : (x.procs.proc child).parent = some p) (hexited : (x.procs.proc child).state = .exited)
    (hfree : Unwatched x c p child) :
    ((x.waitReap cfg p child).setDoing c .nothing).procs.panicked = true ∨
      Progress x ((x.waitReap cfg p child).setDoing c .nothing) undo := by
  rcases waitReap_eq k hrun hparent with hstop | heq
  · exact .inl hstop
  rw [heq]
  obtain ⟨hroot, hthreads, hchildren⟩ := k.exited_child ((k.parent child p).mpr hparent) hexited
  refine (k.freeProcess hrun hroot (by rw [hexited]; nofun) hthreads hchildren).imp id ?_
  rintro ⟨hkin, hg⟩
  refine ⟨hkin, h.idles hg.change rfl (h.spared_child k hparent hexited hfree), Change.reaped hg.change ?_⟩
  rintro a rfl
  exact .inl hexited

include hc

theorem Progress.freeNew (hd : (x.doing c).forked = some new) :
    ((x.freeProcess cfg new).setDoing c .nothing).procs.panicked = true ∨
      Progress x ((x.freeProcess cfg new).setDoing c .nothing) (some new) := by
  have hbare := (h.sound c p hc).forking new hd
  refine (k.freeProcess hrun hbare.root (by rw [hbare.state]; nofun) hbare.threads hbare.children).imp id ?_
  rintro ⟨hkin, hg⟩
  refine ⟨hkin, h.idles hg.change rfl fun t q htc ha => ?_, Change.reaped hg.change fun a ha => ?_⟩
  · exact h.spared_new hc hd t q htc ha none nofun
  · exact .inr (by rw [ha])

theorem Progress.forkSpace (hd : x.doing c = .forking new) : (forkSpace cfg x c p new ok).procs.panicked = true ∨
      Progress x (forkSpace cfg x c p new ok) (if ok then none else some new) := by
  have hforked : (x.doing c).forked = some new := by rw [hd]; rfl
  cases ok with
  | true =>
    have hk := kindred_forkSessionPgrp cfg x.procs new p
    have hch : Change x.procs (forkSessionPgrp cfg x.procs new p) (fun _ => False) none :=
      (Worked.kindred hk : Worked _ _ none none).change
    exact .inr ⟨k.kindred hk, h.goOn hc hforked hch rfl rfl, Change.reaped_none hch⟩
  | false => exact Progress.freeNew k h hrun hc hforked

omit hrun in
theorem Progress.forkFds (hd : x.doing c = .copyingFds new) : Progress x (forkFds x c new) undo := by
  have hforked : (x.doing c).forked = some new := by rw [hd]; rfl
  unfold Reaping.forkFds
  cases ha : allocThread x.procs with
  | mk u r =>
    have ht := worked_allocThread ha
    have hkin := k.work ht nofun nofun
    cases r with
    | none | some r => exact ⟨hkin, h.goOn hc hforked ht.change rfl rfl, Change.reaped_none ht.change⟩

theorem Progress.forkStack (hd : x.doing c = .stacking new t tid) :
    Progress x (forkStack cfg x c new t tid ok) undo := by
  have hforked : (x.doing c).forked = some new := by rw [hd]; rfl
  cases ok with
  | true =>
    have hbare := (h.sound c p hc).forking new hforked
    exact Progress.startThread k h (.inr hbare.state) (h.forked_apart hc hforked)
  | false =>
    have ht : Worked x.procs (abandonThread cfg x.procs t tid) none none := worked_abandonThread hrun
    exact ⟨k.work ht nofun nofun, h.goOn hc hforked ht.change rfl rfl,
      Change.reaped_none ht.change⟩

theorem fini_ready (q : ProcId) :
    Kin (x.setProcs (finiSessionPgrp cfg x.procs q)).procs x.link ∧ Busy (x.setProcs (finiSessionPgrp cfg x.procs q)) ∧
      (x.setProcs (finiSessionPgrp cfg x.procs q)).procs.panicked = false ∧
      Alive (x.setProcs (finiSessionPgrp cfg x.procs q)).procs p c := by
  have hk := kindred_finiSessionPgrp cfg x.procs q
  have hch : Change x.procs (finiSessionPgrp cfg x.procs q) (fun _ => False) none :=
    (Worked.kindred hk : Worked _ _ none none).change
  refine ⟨k.kindred hk, h.quiet hch, (finiSessionPgrp_panicked cfg x.procs q).trans hrun, ?_⟩
  rw [Alive, System.setProcs, hk.thread]
  exact hc

namespace Progress

theorem forkUndo (hd : x.doing c = .failing new) :
    (forkUndo cfg x c new).procs.panicked = true ∨ Progress x (forkUndo cfg x c new) (some new) := by
  obtain ⟨hkin, hbusy, hgo, hc'⟩ := fini_ready k h hrun hc new
  have hforked : ((x.setProcs (finiSessionPgrp cfg x.procs new)).doing c).forked = some new := by
    rw [System.setProcs, hd]
    rfl
  refine (Progress.freeNew hkin hbusy hgo hc' hforked).imp id fun hp => ?_
  exact ⟨hp.kin, hp.busy, hp.reaped.kindred (kindred_finiSessionPgrp cfg x.procs new)⟩

omit hrun in
theorem doCreateThread (hq : q = x.procs.rootProcess ∨ q = p) : Progress x (doCreateThread x c q detached) undo := by
  unfold Reaping.doCreateThread
  cases ha : allocThread x.procs with
  | mk u r =>
    have ht := worked_allocThread ha
    have hkin := k.work ht nofun nofun
    cases r with
    | none => exact ⟨hkin, h.quiet ht.change, Change.reaped_none ht.change⟩
    | some r =>
      refine ⟨hkin, ?_, Change.reaped_none ht.change⟩
      refine h.act ht.change rfl (fun _ _ _ _ => Spared.quiet _) (fun p' hc' => ⟨nofun, ?_, nofun⟩) nofun
      rintro v t tid b hv
      cases hv
      have hcp := (ht.alive c p' hc').resolve_right nofun
      cases hcp.2.symm.trans hc.2
      exact hq.imp (fun hr => hr.trans ht.root.symm) id

theorem createStack (hd : x.doing c = .creating q t tid detached) :
    Progress x (createStack cfg x c q t tid detached ok) undo := by
  cases ok with
  | true =>
    have hq := (h.sound c p hc).creating q t tid detached hd
    refine Progress.startThread k h ?_ ?_
    · rcases hq with hq | rfl
      · exact .inl hq
      · exact alive_root_or_init k hc
    intro v r _ ha hf
    have hbare := (h.sound v r ha).forking q hf
    rcases hq with hq | rfl
    · exact hbare.root hq
    · exact alive_busy k hc hbare.threads
  | false =>
    have ht : Worked x.procs (abandonThread cfg x.procs t tid) none none := worked_abandonThread hrun
    exact ⟨k.work ht nofun nofun, h.idles ht.change rfl fun _ _ _ _ => Spared.quiet _,
      Change.reaped_none ht.change⟩

theorem detachAndExit (undo : Option ProcId)
    (hcare : ∀ t ∈ (x.procs.proc p).threadList, (x.doing t).copied = none)
    (hy : y = x.detachChildProcesses cfg p) (hgo : y.procs.panicked = false) :
    Progress x ((y.setProcs (doExitThread y.procs c p)).setDoing c .nothing) undo := by
  have hd : Detached x y p (x.procs.proc p).childList := by
    rw [hy] at hgo ⊢
    exact (k.detachChildProcesses hrun p).resolve_left (by simp [hgo])
  have hc' : Alive y.procs p c := by
    rw [Alive, hd.thread]
    exact hc
  have ht := worked_doExitThread hd.kin.posted hc'
  have hch : Change x.procs (doExitThread y.procs c p)
      (fun a => a ∈ (x.procs.proc p).childList ∧ (x.procs.proc a).state = .exited) none :=
    (hd.change.trans ht.change fun a ha => (ht.free a).mpr ha).mono fun a ha => ha.resolve_right id
  refine ⟨hd.kin.doExitThread hc' fun hroot _ => hd.childList (hd.change.root ▸ hroot), ?_, ?_⟩
  · refine h.idles (c := c) hch ?_ fun t q _ ha => h.spared_children k hcare t q ha
    rw [← hd.doing]
    rfl
  · exact Change.reaped hch fun a ha => .inl ha.2

theorem exitFinish (hcare : ∀ t ∈ (x.procs.proc p).threadList, (x.doing t).copied = none) :
    (exitFinish cfg x c p).procs.panicked = true ∨ Progress x (exitFinish cfg x c p) undo := by
  have hk := kindred_finiSessionPgrp cfg x.procs p
  obtain ⟨hkin, hbusy, hgo, hc'⟩ := fini_ready k h hrun hc p
  unfold Reaping.exitFinish
  dsimp only
  split_ifs with hstop
  · exact .inl hstop
  have hcare' : ∀ t ∈ ((x.setProcs (finiSessionPgrp cfg x.procs p)).procs.proc p).threadList,
      (x.doing t).copied = none := by
    rw [System.setProcs, hk.threadList]
    exact hcare
  have hdone := Progress.detachAndExit hkin hbusy hgo hc' undo hcare' rfl (Bool.eq_false_iff.mpr hstop)
  exact .inr ⟨hdone.kin, hdone.busy, hdone.reaped.kindred hk⟩

theorem sysWaitpid (hd : x.doing c = .nothing)
    (hcare : status = false → ∀ child ∈ (waitSelect cfg x.procs p pid).toOption.join, Unwatched x c p child) :
    (sysWaitpid cfg x c p pid status).procs.panicked = true ∨ Progress x (sysWaitpid cfg x c p pid status) undo := by
  have hsame : Progress x x undo :=
    ⟨k, h, Change.reaped_none (Change.refl x.procs)⟩
  unfold Reaping.sysWaitpid
  cases hsel : waitSelect cfg x.procs p pid with
  | error e => exact .inr hsame
  | ok found =>
    cases found with
    | none => exact .inr hsame
    | some child =>
      obtain ⟨hexited, hkin⟩ := waitSelect_some hsel
      have hparent : (x.procs.proc child).parent = some p := hkin.elim id (k.parent child p).mp
      cases status with
      | true =>
        refine .inr ⟨k, ?_, Change.reaped_none (Change.refl x.procs)⟩
        refine h.act (Change.refl x.procs) rfl (fun _ _ _ _ => Spared.quiet _) ?_ nofun
        intro q hq
        cases hq.2.symm.trans hc.2
        refine ⟨fun v hv => ?_, nofun, nofun⟩
        cases hv
        exact ⟨hexited, hparent⟩
      | false =>
        have hidle : (x.waitReap cfg p child).setDoing c .nothing = x.waitReap cfg p child := by
          rw [System.setDoing, System.waitReap, ← hd, update_eq_self]
        show (x.waitReap cfg p child).procs.panicked = true ∨ Progress x (x.waitReap cfg p child) undo
        rw [← hidle]
        exact Progress.waitReap k h hrun hparent hexited (hcare rfl child (by rw [hsel]; rfl))

theorem copied (hd : x.doing c = .copyingOut child) (hcare : fault = false → Unwatched x c p child) :
    (copied cfg x c p child fault).procs.panicked = true ∨ Progress x (copied cfg x c p child fault) undo := by
  cases fault with
  | true =>
    refine .inr ⟨k, ?_, Change.reaped_none (Change.refl x.procs)⟩
    exact h.idles (Change.refl x.procs) rfl fun _ _ _ _ => Spared.quiet _
  | false =>
    obtain ⟨hexited, hparent⟩ := (h.sound c p hc).copying child hd
    exact Progress.waitReap k h hrun hparent hexited (hcare rfl)

end Progress

end

theorem awake_some (h : awake x c = some p) : x.doing c = .nothing ∧ caller x.procs c = some p := by
  unfold awake at h
  split_ifs at h with hd
  exact ⟨hd, h⟩

theorem resume_some {f : ProcId → Doing → Option System} (h : resume x c f = some y) :
    ∃ p, asleep x c = some p ∧ Alive x.procs p c ∧ f p (x.doing c) = some y := by
  obtain ⟨p, hp, hf⟩ := Option.bind_eq_some_iff.mp h
  refine ⟨p, hp, ?_, hf⟩
  unfold asleep at hp
  split_ifs at hp with hi
  exact ⟨hi, hp⟩

theorem Progress.step {a : Action} (k : Kin x.procs x.link) (h : Busy x) (hcare : Careful cfg x a)
    (hs : step cfg x a = some y) : y.procs.panicked = true ∨ Progress x y (undone x a) := by
  unfold Reaping.step at hs
  split_ifs at hs with hrun
  rw [Bool.not_eq_true] at hrun
  cases a <;> simp only [transition] at hs
  case call a =>
    split_ifs at hs with hidle
    obtain ⟨u, hu, rfl⟩ := Option.map_eq_some_iff.mp hs
    exact .inr (Progress.call k h hrun hidle hcare hu)
  case fork c =>
    obtain ⟨p, hp, rfl⟩ := Option.map_eq_some_iff.mp hs
    exact .inr (Progress.sysFork k h (caller_some (awake_some hp).2))
  case forkSpace c ok =>
    obtain ⟨p, -, hc, hf⟩ := resume_some hs
    split at hf <;> cases hf
    rename_i hd
    rw [undone, hd]
    exact Progress.forkSpace k h hrun hc hd
  case forkFds c =>
    obtain ⟨p, -, hc, hf⟩ := resume_some hs
    split at hf <;> cases hf
    rename_i hd
    exact .inr (Progress.forkFds k h hc hd)
  case forkStack c ok =>
    obtain ⟨p, -, hc, hf⟩ := resume_some hs
    split at hf <;> cases hf
    rename_i hd
    exact .inr (Progress.forkStack k h hrun hc hd)
  case forkUndo c =>
    obtain ⟨p, -, hc, hf⟩ := resume_some hs
    split at hf <;> cases hf
    rename_i hd
    rw [undone, hd]
    exact Progress.forkUndo k h hrun hc hd
  case create c kernel detached =>
    obtain ⟨p, hp, rfl⟩ := Option.map_eq_some_iff.mp hs
    refine .inr (Progress.doCreateThread k h (caller_some (awake_some hp).2) ?_)
    cases kernel with
    | true => exact .inl rfl
    | false => exact .inr rfl
  case createStack c ok =>
    obtain ⟨p, -, hc, hf⟩ := resume_some hs
    split at hf <;> cases hf
    rename_i hd
    exact .inr (Progress.createStack k h hrun hc hd)
  case leave c =>
    obtain ⟨p, -, hc, hf⟩ := resume_some hs
    split at hf
    · obtain ⟨-, rfl⟩ := guarded hf
      have hch := Change.refl x.procs
      refine .inr ⟨k, ?_, Change.reaped_none hch⟩
      exact h.act hch rfl (fun _ _ _ _ => Spared.quiet _) (fun _ _ => ⟨nofun, nofun, nofun⟩) nofun
    · cases hf
  case exitFinish c =>
    obtain ⟨p, hp, hc, hf⟩ := resume_some hs
    split at hf <;> cases hf
    exact Progress.exitFinish k h hrun hc (hcare _ hp)
  case waitpid c pid status =>
    obtain ⟨p, hp, rfl⟩ := Option.map_eq_some_iff.mp hs
    obtain ⟨hd, hcaller⟩ := awake_some hp
    refine Progress.sysWaitpid k h hrun (caller_some hcaller) hd ?_
    rintro rfl
    exact hcare p hcaller
  case copied c fault =>
    obtain ⟨p, hp, hc, hf⟩ := resume_some hs
    split at hf <;> cases hf
    rename_i hd
    refine Progress.copied k h hrun hc hd ?_
    rintro rfl
    exact hcare _ hp _ (by rw [hd]; rfl)

theorem Kin.tree (k : Kin x.procs x.link) : Tree x := by
  refine ⟨k.family, ?_, ⟨k.posted.procsNodup, k.posted.freeProcs⟩, ?_⟩
  · intro p q
    split_ifs with hpar
    · exact List.count_eq_one_of_mem (k.nodup q) ((k.parent p q).mpr hpar)
    · exact List.count_eq_zero_of_not_mem fun hmem => hpar ((k.parent p q).mp hmem)
  · intro p hroot hp
    obtain ⟨q, hq⟩ := k.parented p hroot hp
    have hmem := (k.parent p q).mpr hq
    refine ⟨q, hq, ?_⟩
    by_cases hqr : q = x.procs.rootProcess
    · exact .inl hqr
    cases hs : (x.procs.proc q).state with
    | init => exact .inr rfl
    | free =>
      rw [(k.bare q hs).2] at hmem
      cases hmem
    | exited =>
      rw [k.childless q hqr hs] at hmem
      cases hmem

theorem boot_kin (hp : 0 < cfg.maxProcess) (ht : 0 < cfg.maxThread) :
    Kin (boot cfg) ⟨fun _ => none, fun _ => none, fun _ => none, fun _ => none⟩ := by
  have hproc (p : ProcId) : ((boot cfg).proc p).parent = none ∧ ((boot cfg).proc p).childList = [] := by
    by_cases hp : p = 0
    · simp [boot, hp]
    · simp [boot, hp, Process.zero]
  have hlists : childLists (boot cfg) = fun _ => [] := funext fun p => (hproc p).2
  refine ⟨boot_posted hp ht, hlists ▸ Family.empty, ?_, fun p _ => hproc p, ?_, fun p _ _ => (hproc p).2, ?_⟩
  · intro p q
    simp [(hproc p).1, (hproc q).2]
  · intro p hroot hp
    have hp0 : p ≠ 0 := hroot
    simp [boot, hp0, Process.zero] at hp
  · intro p
    simp [(hproc p).1]

theorem kin_of_reach (h : Reach (step cfg) (Careful cfg) (Started cfg) x) (hrun : x.procs.panicked = false) :
    Kin x.procs x.link ∧ Busy x := by
  have hinv : x.procs.panicked = true ∨ Kin x.procs x.link ∧ Busy x := by
    refine h.invariant (P := fun x => x.procs.panicked = true ∨ Kin x.procs x.link ∧ Busy x) ?_ ?_
    · rintro x ⟨⟨hp, ht, hboot⟩, hlink, hdoing⟩
      refine .inr ⟨?_, ?_, ?_⟩
      · rw [hboot, hlink]
        exact boot_kin hp ht
      · intro c p _
        rw [hdoing]
        exact Sound.nothing _ p
      · intro c p c' p' new _ _ hf
        rw [hdoing] at hf
        cases hf
    · rintro x a y (hstop | ⟨hkin, hbusy⟩) hcare hs
      · simp [step, hstop] at hs
      · exact (Progress.step hkin hbusy hcare hs).imp id fun hp => ⟨hp.kin, hp.busy⟩
  exact hinv.resolve_left (by simp [hrun])

end

theorem tree_kept_and_reaped_once (cfg : Config) (x : System) (h : Reach (step cfg) (Careful cfg) (Started cfg) x)
    (hrun : x.procs.panicked = false) :
    Tree x ∧ ∀ a y, Careful cfg x a → step cfg x a = some y → y.procs.panicked = false → Reaped x y (undone x a) := by
  obtain ⟨hkin, hbusy⟩ := kin_of_reach h hrun
  refine ⟨hkin.tree, ?_⟩
  intro a y hcare hs hgo
  exact ((Progress.step hkin hbusy hcare hs).resolve_left (by simp [hgo])).reaped

def bootSystem (cfg : Config) : System :=
  ⟨boot cfg, ⟨fun _ => none, fun _ => none, fun _ => none, fun _ => none⟩, fun _ => .nothing⟩

def forkRun (c : ThreadId) : List Action := [.fork c, .forkSpace c true, .forkFds c, .forkStack c true]

def exitRun (c : ThreadId) : List Action := [.call (.exit c), .leave c, .exitFinish c]

def reapRun : List Action := forkRun 0 ++ exitRun 1 ++ [.waitpid 0 (-1) true, .copied 0 false]

theorem child_reaped : ∃ x, Reach (step smallConfig) (Careful smallConfig) (Started smallConfig) x ∧
    x.procs.panicked = false ∧ x.procs.freeProcessList = [2, 3, 1] ∧ Tree x :=
  Reach.exists_of_run (Q := fun x => x.procs.panicked = false ∧ x.procs.freeProcessList = [2, 3, 1]) reapRun
    (s := bootSystem smallConfig) ⟨⟨by decide, by decide, rfl⟩, rfl, rfl⟩ (by decide) (by decide) fun x hr hq =>
      ⟨hq.1, hq.2, (tree_kept_and_reaped_once smallConfig x hr hq.1).1⟩

def twoWaitersRun : List Action :=
  [.create 0 false false, .createStack 0 true] ++ forkRun 0 ++ exitRun 2 ++
    [.waitpid 0 (-1) true, .waitpid 1 (-1) true, .copied 0 false] ++ forkRun 0

def orphanRun : List Action := forkRun 0 ++ forkRun 1 ++ [.call (.threadExit 1), .waitpid 0 (-1) false]

def twoProcesses : Config := ⟨2, 6⟩

theorem running_child_freed : ∃ x y, Reach (step twoProcesses) always (Started twoProcesses) x ∧
    step twoProcesses x (.copied 1 false) = some y ∧ y.procs.panicked = false ∧ (x.procs.proc 1).state = .init ∧
    ¬ Reaped x y (undone x (.copied 1 false)) := by
  have hboot : Started twoProcesses (bootSystem twoProcesses) := ⟨⟨by decide, by decide, rfl⟩, rfl, rfl⟩
  obtain ⟨x, hr, hq⟩ : ∃ x, Reach (step twoProcesses) always (Started twoProcesses) x ∧
      decide ((x.procs.proc 1).state = .init ∧ 1 ∉ x.procs.freeProcessList ∧
        ∃ y ∈ step twoProcesses x (.copied 1 false), y.procs.panicked = false ∧ 1 ∈ y.procs.freeProcessList) = true :=
    Reach.exists_of_any twoWaitersRun _ hboot (meets_always _ _) (by decide)
  obtain ⟨hstate, hfree, y, hs, hrun, hfreed⟩ := of_decide_eq_true hq
  refine ⟨x, y, hr, hs, hrun, hstate, fun h => ?_⟩
  rcases h.freed 1 hfreed with hold | hexited | hundone
  · exact hfree hold
  · rw [hstate] at hexited
    cases hexited
  · cases hundone

theorem child_orphaned : ∃ x, Reach (step smallConfig) always (Started smallConfig) x ∧ x.procs.panicked = false ∧
    (x.procs.proc 2).parent = some 1 ∧ (x.procs.proc 1).childList = [] ∧ ¬ Tree x := by
  refine Reach.exists_of_run (Q := fun x => x.procs.panicked = false ∧ (x.procs.proc 2).parent = some 1 ∧
      (x.procs.proc 1).childList = []) orphanRun (s := bootSystem smallConfig) ⟨⟨by decide, by decide, rfl⟩, rfl, rfl⟩
    (meets_always _ _) (by decide)
    fun x _ ⟨hrun, hparent, hlist⟩ => ⟨hrun, hparent, hlist, fun h => ?_⟩
  have honce := h.once 2 1
  rw [hlist, if_pos hparent] at honce
  cases honce

theorem reaping_goes_wrong : (∃ x y, Reach (step twoProcesses) always (Started twoProcesses) x ∧
      step twoProcesses x (.copied 1 false) = some y ∧ y.procs.panicked = false ∧ (x.procs.proc 1).state = .init ∧
      ¬ Reaped x y (undone x (.copied 1 false))) ∧
    ∃ x, Reach (step smallConfig) always (Started smallConfig) x ∧ x.procs.panicked = false ∧
      (x.procs.proc 2).parent = some 1 ∧ (x.procs.proc 1).childList = [] ∧ ¬ Tree x :=
  ⟨running_child_freed, child_orphaned⟩

end CheviotKernel.Procs.Reaping
