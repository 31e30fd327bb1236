import CheviotKernel.Proc.Rolls
import CheviotKernel.Proc.PidTable

namespace CheviotKernel.Procs

open Function Runs Roster

section

variable {cfg : Config} {s u w : State} {p parent new q cur child : ProcId} {g a b e pid tid pgid : PidT}
  {t c : ThreadId} {x : Process} {recorded : Prop} {own : PidT → Option Holder} {y : Ids}
  {group session : ProcId → Option PidT} {stackOk spaceOk detached statusFault : Bool}
  {key key' : Roll → ProcId → Option PidT} {l r : List ThreadId}

def groupOf (s : State) (p : ProcId) : Option PidT :=
  if (s.proc p).state ≠ .free ∧ 0 < (s.proc p).pgid then some (s.proc p).pgid else none

def sessionOf (s : State) (p : ProcId) : Option PidT :=
  if (s.proc p).state ≠ .free ∧ 0 < (s.proc p).sid then some (s.proc p).sid else none

def Roll.keyOf : Roll → State → ProcId → Option PidT
  | .group => groupOf
  | .session => sessionOf

namespace Roll

variable (r : Roll)

theorem keyOf_eq (s : State) (p : ProcId) : r.keyOf s p =
    if (s.proc p).state ≠ .free ∧ 0 < r.idOf (s.proc p) then some (r.idOf (s.proc p)) else none := by
  cases r <;> rfl

theorem keyOf_some : r.keyOf s p = some g ↔ (s.proc p).state ≠ .free ∧ r.idOf (s.proc p) = g ∧ 0 < g := by
  rw [r.keyOf_eq]
  split
  · rename_i h
    constructor
    · intro hg
      cases hg
      exact ⟨h.1, rfl, h.2⟩
    · exact fun hg => congrArg some hg.2.1
  · rename_i h
    constructor
    · intro hg
      cases hg
    · rintro ⟨hs, rfl, hpos⟩
      exact absurd ⟨hs, hpos⟩ h

theorem keyOf_congr (h : u.proc p = s.proc p) : r.keyOf u p = r.keyOf s p := by
  rw [r.keyOf_eq, r.keyOf_eq, h]

theorem keyOf_free (h : (s.proc p).state = .free) : r.keyOf s p = none := by
  simp [r.keyOf_eq, h]

theorem keyOf_invalid (h : r.idOf (s.proc p) ≤ 0) : r.keyOf s p = none :=
  (r.keyOf_eq s p).trans (if_neg fun hc => absurd hc.2 (Int.not_lt.mpr h))

end Roll

def recordSet (cfg : Config) : Finset Nat := Finset.range (cfg.maxProcess + cfg.maxThread)

def keySet (cfg : Config) : Finset PidT := ((Finset.range cfg.maxPid.toNat).erase 0).image Int.ofNat

theorem mem_keySet_iff : g ∈ keySet cfg ↔ 0 < g ∧ g < cfg.maxPid := by
  unfold keySet
  rw [Finset.mem_image]
  constructor
  · rintro ⟨n, hn, rfl⟩
    rw [Finset.mem_erase, Finset.mem_range, Int.lt_toNat] at hn
    exact ⟨Int.natCast_pos.mpr (Nat.pos_of_ne_zero hn.1), hn.2⟩
  rintro ⟨hpos, hlt⟩
  refine ⟨g.toNat, ?_, Int.toNat_of_nonneg (Int.le_of_lt hpos)⟩
  rw [Finset.mem_erase, Finset.mem_range]
  exact ⟨Nat.ne_of_gt (Int.pos_iff_toNat_pos.mp hpos), (Int.toNat_lt_toNat (Int.lt_trans hpos hlt)).mpr hlt⟩

theorem mem_keySet : g ∈ keySet cfg ↔ pidToPiddesc cfg g = some g := by
  rw [mem_keySet_iff]
  unfold pidToPiddesc
  split
  · rename_i h
    refine ⟨fun hg => ?_, fun hg => nomatch hg⟩
    rcases h with h | h
    · exact absurd hg.1 (Int.not_lt.mpr h)
    · exact absurd hg.2 (Int.not_lt.mpr h)
  · rename_i h
    rw [not_or, Int.not_le, Int.not_le] at h
    exact ⟨fun _ => rfl, fun _ => h⟩

theorem maxPid_toNat (cfg : Config) : cfg.maxPid.toNat = cfg.maxProcess + cfg.maxThread := by
  exact Int.toNat_natCast _

theorem keySet_card_lt (h : 0 < cfg.maxProcess) : (keySet cfg).card < (recordSet cfg).card := by
  unfold keySet
  rw [maxPid_toNat]
  refine Nat.lt_of_le_of_lt Finset.card_image_le (Finset.card_erase_lt_of_mem ?_)
  rw [Finset.mem_range]
  omega

structure Rolls (cfg : Config) (x : Ids) (group session : ProcId → Option PidT) : Prop where
  groups : (pgrps x).Agrees group
  sessions : (sessions x).Agrees session
  groupsCover : (pgrps x).Covers (recordSet cfg) (keySet cfg)
  sessionsCover : (Procs.sessions x).Covers (recordSet cfg) (keySet cfg)

structure Members (cfg : Config) (s : State) : Prop where
  rolls : Rolls cfg s.ids (groupOf s) (sessionOf s)
  leadsGroup : ∀ p, (s.proc p).state ≠ .free → (s.proc p).exitInProgress = false →
    (s.ids.pidTable (s.proc p).pid).pgrp ≠ none → (s.proc p).pgid = (s.proc p).pid
  leadsSession : ∀ p, (s.proc p).state ≠ .free → (s.proc p).exitInProgress = false →
    (s.ids.pidTable (s.proc p).pid).session ≠ none → (s.proc p).sid = (s.proc p).pid
  gone : ∀ p, p ≠ s.rootProcess → (s.proc p).state = .exited → groupOf s p = none ∧ sessionOf s p = none
  exiting : ∀ c p, (s.thread c).state = .init → s.phase c = .exiting → (s.thread c).process = some p →
    (s.proc p).exitInProgress = true

def Accords (cfg : Config) (x : Ids) (key : Roll → ProcId → Option PidT) : Prop :=
  ∀ r : Roll, (r.roster x).Agrees (key r) ∧ (r.roster x).Covers (recordSet cfg) (keySet cfg)

theorem Accords.congr {x : Ids} (h : Accords cfg x key)
    (hroster : ∀ r : Roll, r.roster y = r.roster x) (hkey : ∀ r p, key' r p = key r p) : Accords cfg y key' := by
  intro r
  rw [hroster r, funext (hkey r)]
  exact h r

theorem members_of_accords (hrolls : Accords cfg s.ids fun r => r.keyOf s)
    (hleads : ∀ (r : Roll) p, (s.proc p).state ≠ .free → (s.proc p).exitInProgress = false →
      r.entry (s.ids.pidTable (s.proc p).pid) ≠ none → r.idOf (s.proc p) = (s.proc p).pid)
    (hgone : ∀ p, p ≠ s.rootProcess → (s.proc p).state = .exited → groupOf s p = none ∧ sessionOf s p = none)
    (hexit : ∀ c p, (s.thread c).state = .init → s.phase c = .exiting → (s.thread c).process = some p →
      (s.proc p).exitInProgress = true) : Members cfg s :=
  ⟨⟨(hrolls .group).1, (hrolls .session).1, (hrolls .group).2, (hrolls .session).2⟩, hleads .group, hleads .session,
    hgone, hexit⟩

theorem Members.accords (h : Members cfg s) : Accords cfg s.ids fun r => r.keyOf s
  | .group => ⟨h.rolls.groups, h.rolls.groupsCover⟩
  | .session => ⟨h.rolls.sessions, h.rolls.sessionsCover⟩

theorem Members.leads (h : Members cfg s) : ∀ (r : Roll) p, (s.proc p).state ≠ .free →
    (s.proc p).exitInProgress = false → r.entry (s.ids.pidTable (s.proc p).pid) ≠ none →
    r.idOf (s.proc p) = (s.proc p).pid
  | .group => h.leadsGroup
  | .session => h.leadsSession

structure Frame (s u : State) : Prop where
  pgrps : pgrps u.ids = pgrps s.ids
  sessions : sessions u.ids = sessions s.ids
  root : u.rootProcess = s.rootProcess
  alive : ∀ p, (u.proc p).state ≠ .free → (s.proc p).state ≠ .free ∧ (u.proc p).pid = (s.proc p).pid ∧
    (u.proc p).pgid = (s.proc p).pgid ∧ (u.proc p).sid = (s.proc p).sid ∧
    ((s.proc p).exitInProgress = true → (u.proc p).exitInProgress = true)
  gone : ∀ p, (u.proc p).state = (s.proc p).state ∨ groupOf s p = none ∧ sessionOf s p = none
  exiting : ∀ c, (u.thread c).state = .init → u.phase c = .exiting → (s.thread c).state = .init ∧
    s.phase c = .exiting ∧ (s.thread c).process = (u.thread c).process

theorem Frame.refl (s : State) : Frame s s :=
  ⟨rfl, rfl, rfl, fun _ hp => ⟨hp, rfl, rfl, rfl, id⟩, fun _ => .inl rfl, fun _ hc hph => ⟨hc, hph, rfl⟩⟩

theorem frame_setProc {l : List ProcId} (hg : pgrps y = pgrps s.ids) (hs : sessions y = sessions s.ids)
    (hx : x.state ≠ .free → (s.proc p).state ≠ .free ∧ x.pid = (s.proc p).pid ∧ x.pgid = (s.proc p).pgid ∧
      x.sid = (s.proc p).sid ∧ ((s.proc p).exitInProgress = true → x.exitInProgress = true))
    (hgone : x.state = (s.proc p).state ∨ groupOf s p = none ∧ sessionOf s p = none) :
    Frame s ({ s with ids := y, freeProcessList := l }.setProc p x) := by
  refine { Frame.refl s with pgrps := hg, sessions := hs, alive := ?_, gone := ?_ }
  · intro q hq
    by_cases hqp : q = p
    · subst hqp
      rw [setProc_self] at hq ⊢
      exact hx hq
    · rw [setProc_other hqp] at hq ⊢
      exact ⟨hq, rfl, rfl, rfl, id⟩
  · intro q
    by_cases hqp : q = p
    · subst hqp
      rw [setProc_self]
      exact hgone
    · rw [setProc_other hqp]
      exact .inl rfl

theorem frame_alike (hstate : x.state = (s.proc p).state) (hpid : x.pid = (s.proc p).pid)
    (hpgid : x.pgid = (s.proc p).pgid) (hsid : x.sid = (s.proc p).sid)
    (hexit : (s.proc p).exitInProgress = true → x.exitInProgress = true) : Frame s (s.setProc p x) :=
  frame_setProc rfl rfl (fun hx => ⟨hstate ▸ hx, hpid, hpgid, hsid, hexit⟩) (.inl hstate)

theorem frame_setThread {x : Thread} (hg : pgrps y = pgrps s.ids) (hs : sessions y = sessions s.ids)
    (hx : x.state = .init → (s.thread t).state = .init ∧ (s.thread t).process = x.process) :
    Frame s ({ s with ids := y, freeThreadList := l, threadReaperDetachedThreadList := r }.setThread t x) := by
  refine { Frame.refl s with pgrps := hg, sessions := hs, exiting := ?_ }
  intro c hc hph
  by_cases hct : c = t
  · subst hct
    rw [setThread_self] at hc ⊢
    exact ⟨(hx hc).1, hph, (hx hc).2⟩
  · rw [setThread_other hct] at hc ⊢
    exact ⟨hc, hph, rfl⟩

theorem Members.freeDesc (h : Members cfg s) (e : PidT) (r : Roll) : r.roster (freeDesc s.ids e) = r.roster s.ids := by
  refine r.roster_freeDesc fun q i hi => ?_
  rw [← q.roster_members]
  exact (h.accords q).1.inhabited e i ((q.roster_table _ e).trans hi)

theorem Beside.frame (h : Beside s u) (ht : Table recorded s.ids own) : Frame s u := by
  have hroster (r : Roll) : r.roster u.ids = r.roster s.ids := by
    refine r.roster_of_table (fun k => ?_) h.pgrp.1 h.session.1 h.pgrp.2 h.session.2
    by_cases hk : k ∈ s.ids.freePiddescList
    · rw [ht.empty k hk]
      cases r
      · exact (h.bare k hk).1
      · exact (h.bare k hk).2
    · rw [h.table k hk]
  constructor
  · exact hroster .group
  · exact hroster .session
  · exact h.root
  · intro p hp
    rw [h.proc] at hp ⊢
    exact ⟨hp, rfl, rfl, rfl, id⟩
  · intro p
    rw [h.proc]
    exact .inl rfl
  · intro c hc hph
    have hsame := h.thread c hc
    rw [hsame] at hc ⊢
    exact ⟨hc, h.phase ▸ hph, rfl⟩

namespace Frame

variable (h : Frame s u)
include h

theorem roster : ∀ r : Roll, r.roster u.ids = r.roster s.ids
  | .group => h.pgrps
  | .session => h.sessions

theorem idOf (hp : (u.proc p).state ≠ .free) : ∀ r : Roll, r.idOf (u.proc p) = r.idOf (s.proc p)
  | .group => (h.alive p hp).2.2.1
  | .session => (h.alive p hp).2.2.2.1

theorem keyOf (r : Roll) (p : ProcId) : r.keyOf u p = r.keyOf s p := by
  by_cases hu : (u.proc p).state = .free
  · rw [r.keyOf_free hu]
    rcases h.gone p with hs | hs
    · rw [r.keyOf_free (hs ▸ hu)]
    · cases r
      · exact hs.1.symm
      · exact hs.2.symm
  · simp [r.keyOf_eq, hu, (h.alive p hu).1, h.idOf hu r]

theorem unlisted (hs : groupOf s p = none ∧ sessionOf s p = none) : groupOf u p = none ∧ sessionOf u p = none :=
  ⟨(h.keyOf .group p).trans hs.1, (h.keyOf .session p).trans hs.2⟩

theorem trans (h' : Frame u w) : Frame s w := by
  constructor
  · exact h'.pgrps.trans h.pgrps
  · exact h'.sessions.trans h.sessions
  · exact h'.root.trans h.root
  · intro p hp
    obtain ⟨hu, hpid, hpgid, hsid, hexit⟩ := h'.alive p hp
    obtain ⟨hs, hpid', hpgid', hsid', hexit'⟩ := h.alive p hu
    exact ⟨hs, hpid.trans hpid', hpgid.trans hpgid', hsid.trans hsid', hexit ∘ hexit'⟩
  · intro p
    rcases h'.gone p with hw | hw
    · exact (h.gone p).imp hw.trans id
    · exact .inr ⟨(h.keyOf .group p).symm.trans hw.1, (h.keyOf .session p).symm.trans hw.2⟩
  · intro c hc hph
    obtain ⟨hu, hph', hproc⟩ := h'.exiting c hc hph
    obtain ⟨hs, hph'', hproc'⟩ := h.exiting c hu hph'
    exact ⟨hs, hph'', hproc'.trans hproc⟩

end Frame

theorem Members.frame (h : Members cfg s) (hu : Inv cfg recorded u own) (hf : Frame s u) : Members cfg u := by
  refine members_of_accords (h.accords.congr hf.roster hf.keyOf) ?_ ?_ ?_
  · intro r p hp hexit hne
    obtain ⟨hs, hpid, -, -, hflag⟩ := hf.alive p hp
    rw [hpid, r.entry_of_roster (hf.roster r)] at hne
    rw [hpid, hf.idOf hp]
    refine h.leads r p hs ?_ hne
    by_contra hc
    rw [hflag (by simpa using hc)] at hexit
    cases hexit
  · intro p hroot hp
    refine hf.unlisted ?_
    rcases hf.gone p with hs | hs
    · exact h.gone p (hf.root ▸ hroot) (hs ▸ hp)
    · exact hs
  · intro c p hc hph hp
    obtain ⟨hs, hph', hproc⟩ := hf.exiting c hc hph
    have halive := hu.process_ne_free hc hp
    exact (hf.alive p halive).2.2.2.2 (h.exiting c p hs hph' (hproc.trans hp))

theorem frame_doExitThread (hp : (s.proc p).state ≠ .free)
    (hkeys : (s.proc p).threadList.erase c = [] → groupOf s p = none ∧ sessionOf s p = none) :
    Frame s (doExitThread s c p) := by
  rcases doExitThread_cases s c p with ⟨x, hl, hx, hs⟩ | ⟨-, hs⟩
  · rw [hs]
    have ht : Frame s ({ s with
        threadReaperDetachedThreadList := s.threadReaperDetachedThreadList ++ [c] }.setThread c
          { s.thread c with detached := true, process := some s.rootProcess, state := .exited }) :=
      frame_setThread rfl rfl fun hz => nomatch hz
    refine ht.trans (frame_setProc rfl rfl (fun _ => ?_) ?_)
    · rcases hx with ⟨-, hx⟩ | ⟨-, hx⟩ <;> rw [hx] <;> exact ⟨hp, rfl, rfl, rfl, id⟩
    rcases hx with ⟨hnil, -⟩ | ⟨-, hx⟩
    · exact .inr (ht.unlisted (hkeys (hl ▸ hnil)))
    · left
      rw [hx]
      rfl
  · rw [hs]
    have ht : Frame s (s.setThread c { s.thread c with state := .exited }) :=
      frame_setThread rfl rfl fun hz => nomatch hz
    exact ht.trans (frame_alike rfl rfl rfl rfl id)

section

variable (s : State) (p : ProcId) (t : ThreadId) (tid : PidT) (detached : Bool)

theorem frame_panic : Frame s s.panic :=
  { Frame.refl s with }

theorem frame_childList (l : List ProcId) : Frame s (s.setProc p { s.proc p with childList := l }) :=
  frame_alike rfl rfl rfl rfl id

theorem frame_parent (q : Option ProcId) : Frame s (s.setProc p { s.proc p with parent := q }) :=
  frame_alike rfl rfl rfl rfl id

theorem frame_setPhase (c : ThreadId) (ph : Phase) (hph : ph ≠ .exiting) : Frame s (s.setPhase c ph) := by
  refine { Frame.refl s with exiting := ?_ }
  intro d hd hexit
  by_cases hdc : d = c
  · simp [State.setPhase, hdc, hph] at hexit
  · exact ⟨hd, by simpa [State.setPhase, hdc] using hexit, rfl⟩

theorem frame_detachThreads (others : List ThreadId) : Frame s (detachThreads s others) := by
  refine { Frame.refl s with exiting := ?_ }
  intro c hc hph
  dsimp only [detachThreads] at hc ⊢
  split at hc
  · rename_i hmem
    rw [if_pos hmem]
    exact ⟨hc, hph, rfl⟩
  · rename_i hmem
    rw [if_neg hmem]
    exact ⟨hc, hph, rfl⟩

theorem frame_initThread : Frame s (initThread s p t tid detached) := by
  have hp : Frame s (s.setProc p { s.proc p with threadList := (s.proc p).threadList ++ [t] }) :=
    frame_alike rfl rfl rfl rfl id
  refine hp.trans { Frame.refl _ with exiting := ?_ }
  intro c hc hph
  by_cases hct : c = t
  · subst hct
    simp [initThread, State.setPhase] at hph
  have hthread := setThread_other (s := s.setProc p { s.proc p with threadList := (s.proc p).threadList ++ [t] }) hct
    ⟨tid, some p, .init, detached, none⟩
  have hc' : (s.thread c).state = .init := (congrArg Thread.state hthread).symm.trans hc
  refine ⟨hc', ?_, (congrArg Thread.process hthread).symm⟩
  simpa [initThread, State.setPhase, State.setThread, hct] using hph

end

theorem Members.frame_freeProcess (h : Members cfg s) (hrun : s.panicked = false)
    (hkeys : groupOf s p = none ∧ sessionOf s p = none) : Frame s (freeProcess cfg s p) := by
  have hsame := h.freeDesc (s.proc p).pid
  have hzero : Process.zero.state ≠ .free → False := fun hz => hz rfl
  rcases freeProcess_cases cfg p hrun with hf | ⟨u, hf, ⟨-, rfl⟩ | ⟨q, -, rfl⟩⟩
  · rw [hf]
    exact frame_panic s
  · rw [hf]
    exact frame_setProc (hsame .group) (hsame .session) (fun hz => (hzero hz).elim) (.inr hkeys)
  · have hq : Frame s (s.setProc q { s.proc q with childList := (s.proc q).childList.erase p }) :=
      frame_alike rfl rfl rfl rfl id
    rw [hf]
    exact hq.trans (frame_setProc (hsame .group) (hsame .session) (fun hz => (hzero hz).elim) (.inr (hq.unlisted hkeys)))

theorem Members.frame_freeThread (h : Members cfg s) (hrun : s.panicked = false) (t : ThreadId) (tid : PidT) :
    Frame s (abandonThread cfg s t tid) := by
  rcases freeThread_cases cfg t tid hrun with hf | hf
  · rw [hf]
    exact frame_panic s
  · rw [hf]
    exact frame_setThread (h.freeDesc tid .group) (h.freeDesc tid .session) fun hz => nomatch hz

section Change

variable {r : Roll} (hu : u = { s with ids := y }.setProc p (r.setId (s.proc p) g))
include hu

theorem Roll.keyOf_change (hp : (s.proc p).state ≠ .free) :
    r.keyOf u = update (r.keyOf s) p (if 0 < g then some g else none) := by
  funext q
  by_cases hqp : q = p
  · subst hqp
    rw [hu, r.keyOf_eq, setProc_self, r.idOf_setId, (r.setId_same _ g).1]
    simp [hp]
  · rw [update_of_ne hqp]
    exact r.keyOf_congr (by rw [hu, setProc_other hqp])

theorem Roll.keyOf_change_other {q : Roll} (hq : q ≠ r) : q.keyOf u = q.keyOf s := by
  funext t
  by_cases htp : t = p
  · subst htp
    rw [hu, q.keyOf_eq, q.keyOf_eq, setProc_self, idOf_setId_other hq, (r.setId_same _ g).1]
  · exact q.keyOf_congr (by rw [hu, setProc_other htp])

theorem Members.change (h : Members cfg s) (hp : (s.proc p).state ≠ .free)
    (hsame : ∀ q, q ≠ r → q.roster y = q.roster s.ids)
    (hagrees : (r.roster y).Agrees (update (r.keyOf s) p (if 0 < g then some g else none)))
    (hcovers : (r.roster y).Covers (recordSet cfg) (keySet cfg))
    (hother : ∀ q, q ≠ p → (s.proc q).state ≠ .free → r.entry (s.ids.pidTable (s.proc q).pid) = none →
      r.entry (y.pidTable (s.proc q).pid) = none)
    (hself : (s.proc p).exitInProgress = false → r.entry (y.pidTable (s.proc p).pid) ≠ none → g = (s.proc p).pid)
    (hgone : p = s.rootProcess ∨ (s.proc p).state ≠ .exited) : Members cfg u := by
  have hpp : u.proc p = r.setId (s.proc p) g := by rw [hu, setProc_self]
  have hq (q : ProcId) (hqp : q ≠ p) : u.proc q = s.proc q := by rw [hu, setProc_other hqp]
  have hids : u.ids = y := by rw [hu, State.setProc]
  subst hu
  obtain ⟨hstate, hpid, hflag⟩ := r.setId_same (s.proc p) g
  refine members_of_accords (fun q => ?_) ?_ ?_ ?_
  · dsimp only
    by_cases hqr : q = r
    · subst hqr
      rw [hids, q.keyOf_change rfl hp]
      exact ⟨hagrees, hcovers⟩
    · rw [hids, hsame q hqr, Roll.keyOf_change_other rfl hqr]
      exact h.accords q
  · intro q t ht hexit hne
    rw [hids] at hne
    have hentry (hqr : q ≠ r) (k : PidT) := q.entry_of_roster (hsame q hqr) k
    by_cases htp : t = p
    · subst htp
      rw [hpp, hpid] at hne ⊢
      rw [hpp, hflag] at hexit
      by_cases hqr : q = r
      · subst hqr
        rw [q.idOf_setId]
        exact hself hexit hne
      · rw [hentry hqr] at hne
        rw [Roll.idOf_setId_other hqr]
        exact h.leads q t hp hexit hne
    · rw [hq t htp] at ht hexit hne ⊢
      refine h.leads q t ht hexit fun hnone => hne ?_
      by_cases hqr : q = r
      · subst hqr
        exact hother t htp ht hnone
      · rw [hentry hqr, hnone]
  · intro q hroot hs
    by_cases hqp : q = p
    · subst hqp
      rw [hpp, hstate] at hs
      exact absurd hs (hgone.resolve_left hroot)
    · rw [hq q hqp] at hs
      obtain ⟨hg, hs⟩ := h.gone q hroot hs
      exact ⟨(Roll.group.keyOf_congr (hq q hqp)).trans hg, (Roll.session.keyOf_congr (hq q hqp)).trans hs⟩
  · intro c q hc hph hproc
    have hexit := h.exiting c q hc hph hproc
    by_cases hqp : q = p
    · subst hqp
      rw [hpp, hflag]
      exact hexit
    · rw [hq q hqp]
      exact hexit

end Change

theorem Accords.find_none {x : Ids} (h : Accords cfg x key) (r : Roll)
    (hg : r.find cfg x g = none) : (r.roster x).table g = none := by
  cases hi : (r.roster x).table g with
  | none => rfl
  | some i =>
    rw [r.find_eq, mem_keySet.mp ((h r).2.keys g i hi), Option.bind_some, ← r.roster_table, hi] at hg
    cases hg

theorem pos_of_piddesc (h : pidToPiddesc cfg g = some g) : 0 < g :=
  (mem_keySet_iff.mp (mem_keySet.mpr h)).1

def Fewer (s u : State) : Prop :=
  ∀ k, (u.ids.pidTable k).pgrp = (s.ids.pidTable k).pgrp ∨ (u.ids.pidTable k).pgrp = none

theorem Fewer.trans (h : Fewer s u) (h' : Fewer u w) : Fewer s w := by
  intro k
  rcases h' k with hk | hk
  · rw [hk]
    exact h k
  · exact .inr hk

theorem fewer_of_pgrps (h : pgrps u.ids = pgrps s.ids) : Fewer s u :=
  fun k => .inl (congrFun (congrArg Roster.table h) k)

theorem Frame.fewer (h : Frame s u) : Fewer s u := fewer_of_pgrps h.pgrps

def Unled (s : State) (p : ProcId) : Prop :=
  (s.proc p).exitInProgress = false →
    (s.ids.pidTable (s.proc p).pid).pgrp = none ∧ (s.ids.pidTable (s.proc p).pid).session = none

theorem Members.allocProcess_none (hinv : Inv cfg recorded s own) (h : Members cfg s)
    (ha : allocProcess s parent = (u, none)) : Members cfg u ∧ Fewer s u := by
  have hf : Frame s u := by
    rcases Procs.allocProcess_none ha with rfl | ⟨p, rest, hl, rfl⟩
    · exact Frame.refl _
    · have hfree : (s.proc p).state = .free := hinv.kin.freeProcs p (by simp [hl])
      exact frame_setProc rfl rfl (fun hz => absurd rfl hz) (.inl hfree.symm)
  exact ⟨h.frame (hinv.allocProcess_none ha) hf, hf.fewer⟩

structure Newborn (s : State) (p : ProcId) : Prop where
  state : (s.proc p).state = .init
  group : groupOf s p = none
  session : sessionOf s p = none
  bare : (s.ids.pidTable (s.proc p).pid).pgrp = none ∧ (s.ids.pidTable (s.proc p).pid).session = none

protected theorem Members.allocProcess_some (hinv : Inv cfg recorded s own) (h : Members cfg s)
    (hpar : (s.proc parent).state ≠ .free) (ha : allocProcess s parent = (u, some new)) :
    Members cfg u ∧ Newborn u new ∧ pgrps u.ids = pgrps s.ids := by
  obtain ⟨⟨own', hu⟩, -, hne, -⟩ := hinv.allocProcess_some hpar ha
  obtain ⟨rest, e, free, hl, hfree, v, hv, rfl⟩ := allocProcess_some ha
  have hnew : (s.proc new).state = .free := hinv.kin.freeProcs new (by simp [hl])
  have hempty : s.ids.pidTable e = PidDesc.empty := hinv.table.empty e (by simp [hfree])
  have hproc : v.proc new = { Process.zero with pid := e, parent := some parent, state := .init } := by
    rw [hv, setProc_self]
  have hother (q : ProcId) (hq : q ≠ new) : v.proc q = s.proc q := by rw [hv, setProc_other hq]
  have hids : v.ids = { s.ids with freePiddescList := free }.setDesc e { PidDesc.empty with proc := some new } := by
    rw [hv, State.setProc]
  have hsame (r : Roll) : r.roster v.ids = r.roster s.ids := by
    rw [hids]
    refine Eq.trans (r.roster_setDesc ?_) ?_
    · rw [show _ = PidDesc.empty from hempty]
      cases r <;> rfl
    · exact r.roster_of_table (fun _ => rfl) rfl rfl rfl rfl
  have hkeyOf (r : Roll) : r.keyOf v new = none := by
    refine r.keyOf_invalid ?_
    rw [hproc]
    cases r <;> exact Int.le_refl 0
  have hbare (r : Roll) : r.entry (v.ids.pidTable e) = none := by
    rw [r.entry_of_roster (hsame r), hempty]
    cases r <;> rfl
  have hmem : Members cfg v := by
    refine members_of_accords (h.accords.congr hsame fun r q => ?_) ?_ ?_ ?_
    · by_cases hq : q = new
      · rw [hq, hkeyOf, r.keyOf_free hnew]
      · exact r.keyOf_congr (hother q hq)
    · intro r q hq hexit hrec
      by_cases hqn : q = new
      · subst hqn
        rw [hproc] at hrec
        exact absurd (hbare r) hrec
      · rw [hother q hqn] at hq hexit hrec ⊢
        rw [r.entry_of_roster (hsame r)] at hrec
        exact h.leads r q hq hexit hrec
    · intro q hroot hq
      by_cases hqn : q = new
      · subst hqn
        rw [hproc] at hq
        cases hq
      rw [hother q hqn] at hq
      rw [hv] at hroot
      obtain ⟨hg, hs⟩ := h.gone q hroot hq
      exact ⟨(Roll.group.keyOf_congr (hother q hqn)).trans hg, (Roll.session.keyOf_congr (hother q hqn)).trans hs⟩
    · intro c q hc hph hcq
      subst hv
      have hqn : q ≠ new := by
        rintro rfl
        exact hinv.process_ne_free hc hcq hnew
      rw [hother q hqn]
      exact h.exiting c q hc hph hcq
  have hf : Frame v (v.setProc parent { v.proc parent with childList := (v.proc parent).childList ++ [new] }) :=
    frame_alike rfl rfl rfl rfl id
  have hborn := setProc_other (s := v) hne { v.proc parent with
    childList := (v.proc parent).childList ++ [new] }
  refine ⟨hmem.frame hu hf, ⟨?_, ?_, ?_, ?_⟩, hsame .group⟩
  · rw [hborn, hproc]
  · exact (Roll.group.keyOf_congr hborn).trans (hkeyOf .group)
  · exact (Roll.session.keyOf_congr hborn).trans (hkeyOf .session)
  · rw [hborn, hproc]
    exact ⟨hbare .group, hbare .session⟩

theorem Inv.pid_ne (h : Inv cfg recorded s own) (hp : (s.proc p).state ≠ .free)
    (hq : (s.proc q).state ≠ .free) (hqp : q ≠ p) : (s.proc q).pid ≠ (s.proc p).pid := by
  intro heq
  have hown := (h.procs q hq).symm.trans ((congrArg own heq).trans (h.procs p hp))
  exact hqp (by simpa using hown)

def Persist (s u : State) : Prop :=
  ∀ g i, (s.ids.pidTable g).pgrp = some i → (u.ids.pidTable g).pgrp = some i ∨ (u.ids.pidTable g).pgrp = none

theorem Fewer.persist (h : Fewer s u) : Persist s u := by
  intro g i hi
  exact (h g).imp (fun hg => hg.trans hi) id

structure NewSession (s u : State) (p : ProcId) : Prop where
  fresh : (s.ids.pidTable (s.proc p).pid).session = none
  leader : (u.proc p).sid = (s.proc p).pid ∧ (u.proc p).pid = (s.proc p).pid
  member : (sessions u.ids).On (s.proc p).pid p

structure Outside (cfg : Config) (recorded : Prop) (s u : State) (p : ProcId) : Prop where
  members : Members cfg u
  group : groupOf u p = none
  session : sessionOf u p = none
  fewer : Fewer s u
  inv : ∃ own, Inv cfg recorded u own
  state : (u.proc p).state = (s.proc p).state
  pid : (u.proc p).pid = (s.proc p).pid
  exitInProgress : (u.proc p).exitInProgress = (s.proc p).exitInProgress
  root : u.rootProcess = s.rootProcess

namespace Members

variable (h : Members cfg s)
include h

theorem unlisted (r : Roll) (hg : r.find cfg s.ids (r.idOf (s.proc p)) = none) : r.keyOf s p = none := by
  cases hk : r.keyOf s p with
  | none => rfl
  | some g =>
    obtain ⟨-, rfl, -⟩ := r.keyOf_some.mp hk
    exact absurd (h.accords.find_none r hg) ((h.accords r).1.kept p _ hk)

theorem leave (r : Roll) (hp : (s.proc p).state ≠ .free)
    (hgone : p = s.rootProcess ∨ (s.proc p).state ≠ .exited)
    (hlead : (s.proc p).exitInProgress = false → r.entry (s.ids.pidTable (s.proc p).pid) = none) :
    Members cfg (r.remove cfg s p) ∧ r.keyOf (r.remove cfg s p) p = none ∧
      (∀ q, q ≠ r → q.keyOf (r.remove cfg s p) = q.keyOf s ∧ q.roster (r.remove cfg s p).ids = q.roster s.ids) ∧
      ∀ k, r.entry ((r.remove cfg s p).ids.pidTable k) = r.entry (s.ids.pidTable k) ∨
        r.entry ((r.remove cfg s p).ids.pidTable k) = none := by
  rcases r.remove_cases cfg s p with ⟨hnone, hr⟩ | ⟨i, hi, hr⟩
  · rw [hr]
    exact ⟨h, h.unlisted r hnone, fun _ _ => ⟨rfl, rfl⟩, fun _ => .inl rfl⟩
  obtain ⟨hkey, hentry⟩ := r.find_some hi
  have htable := (r.roster_table _ _).trans hentry
  have hkeyOf : r.keyOf s p = some (r.idOf (s.proc p)) := r.keyOf_some.mpr ⟨hp, rfl, pos_of_piddesc hkey⟩
  obtain ⟨hleave, hsame⟩ := Roll.roster_left (fun q => (h.accords q).1) hentry hkeyOf
  have hfewer (k : PidT) : r.entry ((r.left s.ids (r.idOf (s.proc p)) i p).pidTable k) =
      r.entry (s.ids.pidTable k) ∨ r.entry ((r.left s.ids (r.idOf (s.proc p)) i p).pidTable k) = none := by
    rw [← r.roster_table, ← r.roster_table, hleave]
    exact leave_table (r.roster s.ids) (r.idOf (s.proc p)) i p k
  have hdrop {k : PidT} (hk : r.entry (s.ids.pidTable k) = none) :
      r.entry ((r.left s.ids (r.idOf (s.proc p)) i p).pidTable k) = none :=
    (hfewer k).elim (fun hk' => hk'.trans hk) id
  have hids : (r.remove cfg s p).ids = r.left s.ids (r.idOf (s.proc p)) i p := by
    rw [hr]
    rfl
  refine ⟨h.change hr hp hsame ?_ ?_ (fun _ _ _ => hdrop) ?_ hgone, ?_, fun q hq => ⟨?_, ?_⟩, ?_⟩
  · rw [hleave]
    exact (h.accords r).1.leave htable hkeyOf
  · rw [hleave]
    exact (h.accords r).2.leave htable p
  · exact fun hexit hne => absurd (hdrop (hlead hexit)) hne
  · rw [r.keyOf_change hr hp, update_self, if_neg (by decide)]
  · exact Roll.keyOf_change_other hr hq
  · rw [hids, hsame q hq]
  · rw [hids]
    exact hfewer

theorem fini (hp : (s.proc p).state ≠ .free)
    (hgone : p = s.rootProcess ∨ (s.proc p).state ≠ .exited) (hlead : Unled s p) :
    Members cfg (finiSessionPgrp cfg s p) ∧
      (groupOf (finiSessionPgrp cfg s p) p = none ∧ sessionOf (finiSessionPgrp cfg s p) p = none) ∧
      Fewer s (finiSessionPgrp cfg s p) := by
  obtain ⟨hu, hgroup, hsame, hfewer⟩ := h.leave .group hp hgone fun hexit => (hlead hexit).1
  obtain ⟨y, pgid, hy⟩ := removeFromPgrp_shape cfg s p
  have hproc : (removeFromPgrp cfg s p).proc p = { s.proc p with pgid := pgid } := by rw [hy, setProc_self]
  have hroot : (removeFromPgrp cfg s p).rootProcess = s.rootProcess := by rw [hy]; rfl
  obtain ⟨hv, hsession, hkeep, -⟩ := Members.leave (s := removeFromPgrp cfg s p) hu .session
    (by rw [hproc]; exact hp) (by rw [hproc, hroot]; exact hgone) (by
      rw [hproc]
      exact fun hexit => (Roll.session.entry_of_roster (hsame .session (by simp)).2 _).trans (hlead hexit).2)
  obtain ⟨hkeyOf, hpgrps⟩ := hkeep .group (by simp)
  refine ⟨hv, ⟨(congrFun hkeyOf p).trans hgroup, hsession⟩, ?_⟩
  exact Fewer.trans hfewer (fewer_of_pgrps hpgrps)

theorem join (r : Roll) (hp : (s.proc p).state = .init) (hkey : r.keyOf s p = none)
    (hg : r.find cfg s.ids g = none → ¬ 0 < g) (hbare : r.entry (s.ids.pidTable (s.proc p).pid) = none) :
    Members cfg ({ s with ids := r.join cfg s.ids g p }.setProc p (r.setId (s.proc p) g)) := by
  have halive : (s.proc p).state ≠ .free := by simp [hp]
  have htable : (r.join cfg s.ids g p).pidTable = s.ids.pidTable := r.join_pidTable cfg s.ids g p
  have hself : r.entry ((r.join cfg s.ids g p).pidTable (s.proc p).pid) = none := by rw [htable, hbare]
  obtain ⟨hsame, hagrees, hcovers⟩ : (∀ q, q ≠ r → q.roster (r.join cfg s.ids g p) = q.roster s.ids) ∧
      (r.roster (r.join cfg s.ids g p)).Agrees (update (r.keyOf s) p (if 0 < g then some g else none)) ∧
      (r.roster (r.join cfg s.ids g p)).Covers (recordSet cfg) (keySet cfg) := by
    cases hi : r.find cfg s.ids g with
    | none =>
      rw [r.join_eq, hi, if_neg (hg hi), ← hkey, update_eq_self]
      exact ⟨fun _ _ => rfl, h.accords r⟩
    | some i =>
      obtain ⟨hpos, hentry⟩ := r.find_some hi
      obtain ⟨hjoin, hsame⟩ := Roll.roster_join hi
      rw [hjoin, if_pos (pos_of_piddesc hpos)]
      exact ⟨hsame, (h.accords r).1.join ((r.roster_table _ g).trans hentry) hkey, (h.accords r).2.join i p⟩
  refine h.change rfl halive hsame hagrees hcovers (fun q _ _ hn => ?_) (fun _ hne => absurd hself hne)
    (.inr (by simp [hp]))
  rw [htable, hn]

theorem forkSessionPgrp (hnew : Newborn s new)
    (hcur : (s.proc cur).state ≠ .free) (hne : cur ≠ new) : Members cfg (forkSessionPgrp cfg s new cur) := by
  have hkeyed {u : State} (hu : Members cfg u) (r : Roll) (hproc : u.proc cur = s.proc cur)
      (hnone : r.find cfg u.ids (r.idOf (s.proc cur)) = none) : ¬ 0 < r.idOf (s.proc cur) := by
    intro hpos
    have hkey := (r.keyOf_some).mpr ⟨by rw [hproc]; exact hcur, congrArg r.idOf hproc, hpos⟩
    rw [hu.unlisted r (by rwa [hproc])] at hkey
    cases hkey
  obtain ⟨u, hdef⟩ : ∃ u, u = { s with ids := joinSession cfg s.ids (s.proc cur).sid new }.setProc new
      { s.proc new with sid := (s.proc cur).sid } := ⟨_, rfl⟩
  have hproc : u.proc new = { s.proc new with sid := (s.proc cur).sid } := by rw [hdef, setProc_self]
  have hu : Members cfg u := by
    rw [hdef]
    exact h.join .session hnew.state hnew.session (hkeyed h .session rfl) hnew.bare.2
  have hv := hu.join .group (g := (s.proc cur).pgid) (by rw [hproc]; exact hnew.state)
    ((congrFun (Roll.keyOf_change_other (r := .session) hdef (by simp)) new).trans hnew.group)
    (hkeyed hu .group (by rw [hdef, setProc_other hne])) (by
      rw [hproc, hdef]
      exact (congrArg PidDesc.pgrp (congrFun (Roll.session.join_pidTable cfg s.ids _ new) _)).trans hnew.bare.1)
  refine (congrArg (Members cfg) ?_).mp hv
  rw [hdef]
  simp [Procs.forkSessionPgrp, State.setProc, Roll.join, Roll.setId]

end Members

section Outside

variable (h : Outside cfg recorded s u p) (hp : (s.proc p).state ≠ .free) (hexit : (s.proc p).exitInProgress = false)

include h hp

theorem Outside.alive : (u.proc p).state ≠ .free := h.state ▸ hp

include hexit

theorem Outside.unled (hpos : 0 < (s.proc p).pid) (r : Roll) : r.entry (u.ids.pidTable (s.proc p).pid) = none := by
  have halive := h.alive hp
  have hnone : r.keyOf u p = none := by
    cases r
    · exact h.group
    · exact h.session
  by_contra hrec
  rw [← h.pid] at hrec
  have hkey := r.keyOf_some.mpr ⟨halive, (h.members.leads r p halive (h.exitInProgress.trans hexit) hrec).trans h.pid, hpos⟩
  rw [hnone] at hkey
  cases hkey

end Outside

namespace Members

variable (h : Members cfg s) (hp : (s.proc p).state ≠ .free) (hgone : p = s.rootProcess ∨ (s.proc p).state ≠ .exited)

include h hp

theorem unled (hg : (s.proc p).pgid ≠ (s.proc p).pid) (hs : (s.proc p).sid ≠ (s.proc p).pid) : Unled s p := by
  intro hexit
  constructor
  · by_contra hne
    exact hg (h.leads .group p hp hexit hne)
  · by_contra hne
    exact hs (h.leads .session p hp hexit hne)

include hgone

theorem sysSetpgrp (hmax : 0 < cfg.maxProcess) (hexit : (s.proc p).exitInProgress = false)
    (hkey : pidToPiddesc cfg (s.proc p).pid = some (s.proc p).pid)
    (hinv : (s.proc p).pgid ≠ (s.proc p).pid → ∃ own', Inv cfg recorded (removeFromPgrp cfg s p) own') :
    Members cfg (sysSetpgrp cfg s p).1 ∧ Persist s (sysSetpgrp cfg s p).1 := by
  rcases sysSetpgrp_cases cfg s p with ⟨hs, -⟩ | ⟨u, hu, hne, hs⟩
  · rw [hs]
    exact ⟨h, fun _ _ hi => .inl hi⟩
  have hled : (s.ids.pidTable (s.proc p).pid).pgrp = none := by
    by_contra hrec
    exact hne (h.leads .group p hp hexit hrec)
  obtain ⟨hmem, hgroup, -, hfewer⟩ := h.leave .group hp hgone fun _ => hled
  obtain ⟨own', hinv'⟩ := hinv hne
  obtain ⟨y, pgid, hy⟩ := removeFromPgrp_shape cfg s p
  rw [show Roll.group.remove cfg s p = u from hu.symm] at hmem hgroup hfewer
  rw [← hu] at hinv' hy
  have hproc : u.proc p = { s.proc p with pgid := pgid } := by rw [hy, setProc_self]
  have halive : (u.proc p).state ≠ .free := by
    rw [hproc]
    exact hp
  have hpid : (u.proc p).pid = (s.proc p).pid := by rw [hproc]
  have hnone : (u.ids.pidTable (s.proc p).pid).pgrp = none := by
    rcases hfewer (s.proc p).pid with hk | hk
    · exact hk.trans hled
    · exact hk
  rcases hs with ⟨ha, -⟩ | ⟨i, z, ha, ht⟩
  · have hcons := (hmem.accords .group).2.free_ne_nil (keySet_card_lt hmax)
    unfold allocPgrp at ha
    split at ha
    · rename_i hnil
      exact absurd hnil hcons
    · cases ha
  · obtain ⟨w, hw⟩ : ∃ w, w = (z.setPgrp i ⟨(u.proc p).sid, [p]⟩).setDesc (s.proc p).pid
        { z.pidTable (s.proc p).pid with pgrp := some i } := ⟨_, rfl⟩
    obtain ⟨rest, hfree, hg, hsame⟩ := Roll.roster_found (r := .group)
      (d := { z.pidTable (s.proc p).pid with pgrp := some i }) ha (u.proc p).sid rfl (fun q hq => by
        cases q
        · exact absurd rfl hq
        · exact congrArg (fun f => (f (s.proc p).pid).session) (Roll.group.quiet_alloc ha).2)
    rw [show (Roll.group.found z i _ p).setDesc _ _ = w from hw.symm] at hg hsame
    rw [← hw] at ht
    have hother {k : PidT} (hk : k ≠ (s.proc p).pid) : (w.pidTable k).pgrp = (u.ids.pidTable k).pgrp :=
      (congrFun (congrArg Roster.table hg) k).trans (by simp [Roster.found, hk, Roll.roster, pgrps])
    constructor
    · refine Members.change ht hmem halive hsame ?_ ?_ ?_ ?_ ?_
      · rw [hg, if_pos (pos_of_piddesc hkey)]
        exact (hmem.accords .group).1.found hfree hnone hgroup
      · rw [hg]
        exact (hmem.accords .group).2.found hfree hnone (mem_keySet.mpr hkey) p
      · intro q hq hqs hn
        have hk := hinv'.pid_ne halive hqs hq
        rw [hpid] at hk
        exact (hother hk).trans hn
      · exact fun _ _ => hpid.symm
      · rw [hproc, hy]
        exact hgone
    · intro g j hj
      have hgne : g ≠ (s.proc p).pid := by
        rintro rfl
        rw [hled] at hj
        cases hj
      have hids : (Procs.sysSetpgrp cfg s p).1.ids = w := by
        rw [ht]
        rfl
      rw [hids, hother hgne]
      exact (hfewer g).imp (fun hk => hk.trans hj) id

theorem leaveOld (hinv : Inv cfg recorded s own) (hled : Unled s p)
    (halone : getSession cfg s.ids (s.proc p).sid = none → getPgrp cfg s.ids (s.proc p).pgid = none)
    (hfini : getSession cfg s.ids (s.proc p).sid ≠ none → ∃ own', Inv cfg recorded (finiSessionPgrp cfg s p) own') :
    Outside cfg recorded s (leaveOld cfg s p) p := by
  rw [Procs.leaveOld]
  split
  · rename_i i hi
    obtain ⟨hmem, ⟨hgroup, hsession⟩, hfewer⟩ := h.fini hp hgone hled
    obtain ⟨y, sid, pgid, hy⟩ := finiSessionPgrp_shape cfg s p
    have hproc : (removeFromSession cfg (removeFromPgrp cfg s p) p).proc p =
        { s.proc p with sid := sid, pgid := pgid } := by
      rw [show removeFromSession cfg (removeFromPgrp cfg s p) p = _ from hy, setProc_self]
    refine ⟨hmem, hgroup, hsession, hfewer, hfini (by simp [hi]), by rw [hproc], by rw [hproc], by rw [hproc], ?_⟩
    rw [show removeFromSession cfg (removeFromPgrp cfg s p) p = _ from hy]
    rfl
  · rename_i hi
    exact ⟨h, h.unlisted .group (halone hi), h.unlisted .session hi, fun _ => .inl rfl, ⟨own, hinv⟩, rfl, rfl, rfl, rfl⟩

theorem sysSetsid (hinv : Inv cfg recorded s own)
    (hgo : (s.proc p).sid ≠ (s.proc p).pid → (s.proc p).pgid ≠ (s.proc p).pid →
      (s.proc p).exitInProgress = false ∧ pidToPiddesc cfg (s.proc p).pid = some (s.proc p).pid ∧
      (getSession cfg s.ids (s.proc p).sid = none → getPgrp cfg s.ids (s.proc p).pgid = none) ∧
      (getSession cfg s.ids (s.proc p).sid ≠ none → ∃ own', Inv cfg recorded (finiSessionPgrp cfg s p) own')) :
    Members cfg (sysSetsid cfg s p).1 ∧ Fewer s (sysSetsid cfg s p).1 ∧
      ((sysSetsid cfg s p).2.isOk = true → NewSession s (sysSetsid cfg s p).1 p) := by
  rcases sysSetsid_cases cfg s p with ⟨err, hs⟩ | ⟨u, hu, hsid, hpgid, hs⟩
  · rw [hs]
    exact ⟨h, fun _ => .inl rfl, fun hok => absurd hok (by simp [Except.toBool])⟩
  obtain ⟨hexit, hkey, halone, hfini⟩ := hgo hsid hpgid
  have hled := h.unled hp hpgid hsid
  have hout : Outside cfg recorded s u p := hu ▸ h.leaveOld hp hgone hinv hled halone hfini
  obtain ⟨own', hinv'⟩ := hout.inv
  have halive := hout.alive hp
  have hpos := pos_of_piddesc hkey
  have hnone := hout.unled hp hexit hpos
  rcases hs with ⟨-, hs⟩ | ⟨i, y, v, ha, hv, ⟨hbad, -⟩ | ⟨-, hs⟩⟩
  · rw [hs]
    exact ⟨hout.members, hout.fewer, fun hok => absurd hok (by simp [Except.toBool])⟩
  · rw [hkey] at hbad
    cases hbad
  · obtain ⟨z, hz⟩ : ∃ z, z = v.ids.setDesc (s.proc p).pid
        { v.ids.pidTable (s.proc p).pid with session := some i, pgrp := none } := ⟨_, rfl⟩
    have ht : (Procs.sysSetsid cfg s p).1 = { u with ids := z }.setProc p
        { u.proc p with sid := (s.proc p).pid, pgid := invalidPid } := by
      rw [hs, hz, hv]
      rfl
    have hvids : v.ids = y.setSession i ⟨(s.proc p).pid, [p]⟩ := by
      rw [hv]
      rfl
    obtain ⟨v', hv'⟩ : ∃ v', v' = u.setProc p { u.proc p with pgid := invalidPid } := ⟨_, rfl⟩
    have hproc : v'.proc p = { u.proc p with pgid := invalidPid } := by rw [hv', setProc_self]
    have hbare : Members cfg v' := by
      refine Members.change hv' hout.members halive (fun _ _ => rfl) ?_
        (hout.members.accords .group).2 (fun _ _ _ hn => hn) ?_ ?_
      · rw [if_neg (by decide), ← show Roll.group.keyOf u p = none from hout.group, update_eq_self]
        exact (hout.members.accords .group).1
      · rw [hout.pid]
        exact fun _ hne => absurd (hnone .group) hne
      · rw [hout.state, hout.root]
        exact hgone
    have hsession : Roll.session.keyOf v' = Roll.session.keyOf u :=
      Roll.keyOf_change_other (r := .group) hv' (by simp)
    obtain ⟨rest, hfree, hfound, hsame⟩ := Roll.roster_found (r := .session)
      (d := { v.ids.pidTable (s.proc p).pid with session := some i, pgrp := none }) ha (s.proc p).pid rfl
      (fun q hq => by
        cases q
        · exact (hnone .group).symm
        · exact absurd rfl hq)
    rw [show Roll.session.found y i (s.proc p).pid p = v.ids from hvids.symm, ← hz] at hfound hsame
    have hother {k : PidT} (hk : k ≠ (s.proc p).pid) : (z.pidTable k).session = (u.ids.pidTable k).session :=
      (congrFun (congrArg Roster.table hfound) k).trans (by simp [Roster.found, hk, Roll.roster, sessions])
    have ht' : (Procs.sysSetsid cfg s p).1 = { v' with ids := z }.setProc p { v'.proc p with sid := (s.proc p).pid } := by
      rw [ht, hv']
      simp [State.setProc]
    have hids : v'.ids = u.ids := by rw [hv', State.setProc]
    have hmove : Members cfg (Procs.sysSetsid cfg s p).1 := by
      refine Members.change (r := .session) ht' hbare (by rw [hproc]; exact halive) ?_ ?_ ?_ ?_ ?_ ?_
      · rw [hids]
        exact hsame
      · rw [hfound, if_pos hpos, hsession]
        exact (hout.members.accords .session).1.found hfree (hnone .session) hout.session
      · rw [hfound]
        exact (hout.members.accords .session).2.found hfree (hnone .session) (mem_keySet.mpr hkey) p
      · intro q hq hqs hn
        rw [hv', setProc_other hq] at hqs hn ⊢
        have hk := hinv'.pid_ne halive hqs hq
        rw [hout.pid] at hk
        exact (hother hk).trans hn
      · rw [hproc]
        exact fun _ _ => hout.pid.symm
      · rw [hproc, hv']
        exact (hout.root ▸ hout.state ▸ hgone :)
    refine ⟨hmove, ?_, fun _ => ?_⟩
    · refine hout.fewer.trans fun k => .inl ?_
      rw [ht]
      exact Roll.group.entry_of_roster (hsame .group (by simp)) k
    refine ⟨(hled hexit).2, ?_, ?_⟩
    · rw [ht, setProc_self]
      exact ⟨rfl, hout.pid⟩
    · refine (hmove.accords .session).1.on_iff.mpr (Roll.session.keyOf_some.mpr ⟨?_, ?_, hpos⟩)
      · rw [ht, setProc_self]
        exact halive
      · rw [ht, setProc_self]
        rfl

end Members

def Unheld (cfg : Config) (s : State) (e : PidT) : Prop :=
  (∀ q < cfg.maxProcess, (s.proc q).state ≠ .free → (s.proc q).pid ≠ e) ∧
    ∀ t < cfg.maxThread, (s.thread t).state ≠ .free → (s.thread t).tid ≠ e

/-- Once `p` has gone, nothing carries the id `e` that no other process keeps as its group or session. -/
def LeavesIdle (cfg : Config) (s : State) (p : ProcId) (e : PidT) : Prop :=
  0 < e → (∀ q < cfg.maxProcess, q ≠ p → (s.proc q).state ≠ .free → (s.proc q).pgid ≠ e ∧ (s.proc q).sid ≠ e) →
    Unheld cfg s e

def LeavesBothIdle (cfg : Config) (s : State) (p : ProcId) : Prop :=
  LeavesIdle cfg s p (s.proc p).pgid ∧ LeavesIdle cfg s p (s.proc p).sid

theorem Unheld.of_same (h : Unheld cfg s e) (hproc : ∀ q, (u.proc q).state = (s.proc q).state ∧
    (u.proc q).pid = (s.proc q).pid) (hthread : u.thread = s.thread) : Unheld cfg u e := by
  constructor
  · intro q hq hs
    rw [(hproc q).2]
    exact h.1 q hq ((hproc q).1 ▸ hs)
  · rw [hthread]
    exact h.2

theorem removeFromPgrp_same (cfg : Config) (s : State) (p : ProcId) :
    (∀ q, ((removeFromPgrp cfg s p).proc q).state = (s.proc q).state ∧
      ((removeFromPgrp cfg s p).proc q).pid = (s.proc q).pid) ∧ (removeFromPgrp cfg s p).thread = s.thread := by
  obtain ⟨y, pgid, hy⟩ := removeFromPgrp_shape cfg s p
  rw [hy]
  refine ⟨?_, rfl⟩
  exact setProc_cases (fun q z => z.state = (s.proc q).state ∧ z.pid = (s.proc q).pid) ⟨rfl, rfl⟩ fun _ _ => ⟨rfl, rfl⟩

def Kept (cfg : Config) (s u : State) : Prop := (∃ own, Inv cfg False u own) ∧ Members cfg u ∧ Persist s u

theorem Members.kept (h : Members cfg s) (hu : ∃ own, Inv cfg False u own) (hf : Frame s u) : Kept cfg s u := by
  obtain ⟨own', hinv⟩ := hu
  exact ⟨⟨own', hinv⟩, h.frame hinv hf, hf.fewer.persist⟩

theorem Members.setExiting (h : Members cfg s)
    (hp : ∀ p, (s.thread c).process = some p → (s.proc p).exitInProgress = true) :
    Members cfg (s.setPhase c .exiting) := by
  refine { h with exiting := ?_ }
  intro d p hd hph hproc
  by_cases hdc : d = c
  · exact hp p (hdc ▸ hproc)
  · exact h.exiting d p hd (by simpa [State.setPhase, hdc] using hph) hproc

theorem Members.entry_kept {r k : Roll} {i : Nat} (hm : Members cfg (r.remove cfg s p))
    (hi : r.find cfg s.ids (r.idOf (s.proc p)) = some i) (hqk : q = p → k ≠ r) (hq : (s.proc q).state ≠ .free)
    (hid : k.idOf (s.proc q) = r.idOf (s.proc p)) :
    (r.left s.ids (r.idOf (s.proc p)) i p).pidTable (r.idOf (s.proc p)) ≠ PidDesc.empty := by
  intro hempty
  rcases r.remove_cases cfg s p with ⟨hnone, -⟩ | ⟨j, hj, hs⟩
  · cases hnone.symm.trans hi
  cases hi.symm.trans hj
  have hsame : k.keyOf (r.remove cfg s p) q = k.keyOf s q := by
    by_cases hqp : q = p
    · exact congrFun (Roll.keyOf_change_other hs (hqk hqp)) q
    · exact k.keyOf_congr (by rw [hs, setProc_other hqp])
  have hids : (r.remove cfg s p).ids = r.left s.ids (r.idOf (s.proc p)) i p := by
    rw [hs]
    rfl
  have hkept := (hm.accords k).1.kept q _ (hsame.trans (k.keyOf_some.mpr ⟨hq, hid, pos_of_piddesc (r.find_some hi).1⟩))
  rw [hids, k.roster_table, hempty] at hkept
  cases k <;> exact hkept rfl

section

variable (h : Inv cfg False s own) (hm : Members cfg s) (hrun : s.panicked = false)
include h

theorem Inv.prune (he : Unheld cfg s e) : Inv cfg False s (update own e none) := by
  refine ⟨⟨h.table.nodup, h.table.empty, ?_, fun hf => hf.elim, fun hf => hf.elim⟩, ?_, ?_, h.kin⟩
  · intro k hk
    by_cases hke : k = e
    · simp [hke]
    · rw [update_of_ne hke]
      exact h.table.unowned k hk
  · intro q hq
    rw [update_of_ne (he.1 q (h.kin.procsBound q (.inl hq)) hq)]
    exact h.procs q hq
  · intro t ht
    rw [update_of_ne (he.2 t (h.kin.threadsBound t (.inl ht)) ht)]
    exact h.threads t ht

theorem Inv.release (hf : Freed s.ids y e) (he : e ∉ s.ids.freePiddescList)
    (hr : y.pidTable e = PidDesc.empty → Unheld cfg s e) : ∃ own', Inv cfg False { s with ids := y } own' := by
  rcases hf.list with hl | ⟨-, hempty⟩
  · exact ⟨own, h.setIds (h.table.cleared hf he (.inr ⟨not_false, hl⟩))⟩
  · have hpruned := h.prune (hr hempty)
    exact ⟨_, hpruned.setIds (hpruned.table.cleared hf he (.inl (update_self ..)))⟩

theorem Inv.releaseRoll (r : Roll) (hm : Members cfg (r.remove cfg s p)) (hr : 0 < r.idOf (s.proc p) →
      (∀ q (k : Roll), (q = p → k ≠ r) → (s.proc q).state ≠ .free → k.idOf (s.proc q) ≠ r.idOf (s.proc p)) →
      Unheld cfg s (r.idOf (s.proc p))) : ∃ own', Inv cfg False (r.remove cfg s p) own' := by
  rcases r.remove_cases cfg s p with ⟨-, hs⟩ | ⟨i, hi, hs⟩
  · rw [hs]
    exact ⟨own, h⟩
  obtain ⟨hkey, hentry⟩ := r.find_some hi
  have he := h.table.notMem_of_entry r hentry
  obtain ⟨own', hinv⟩ := h.release (r.left_freed i p he) he fun hempty =>
    hr (pos_of_piddesc hkey) fun q k hqk hq hid => hm.entry_kept hi hqk hq hid hempty
  rw [hs]
  exact ⟨own', hinv.setId r p _⟩

theorem Inv.releaseFini (hm : Members cfg (removeFromPgrp cfg s p)) (hm' : Members cfg (finiSessionPgrp cfg s p))
    (hr : LeavesBothIdle cfg s p) : ∃ own', Inv cfg False (finiSessionPgrp cfg s p) own' := by
  obtain ⟨y, pgid, hy⟩ := removeFromPgrp_shape cfg s p
  obtain ⟨hproc, hthread⟩ := removeFromPgrp_same cfg s p
  obtain ⟨own', hu⟩ : ∃ own', Inv cfg False (removeFromPgrp cfg s p) own' :=
    h.releaseRoll .group hm fun hpos hids => hr.1 hpos fun q _ hqp hq =>
      ⟨hids q .group (absurd · hqp) hq, hids q .session (absurd · hqp) hq⟩
  have hsid : ((removeFromPgrp cfg s p).proc p).sid = (s.proc p).sid := by rw [hy, setProc_self]
  refine hu.releaseRoll .session hm' fun hpos hids => ?_
  rw [show Roll.session.idOf _ = _ from hsid] at hpos hids ⊢
  refine (hr.2 hpos fun q _ hqp hq => ?_).of_same hproc hthread
  have hsame : (removeFromPgrp cfg s p).proc q = s.proc q := by rw [hy, setProc_other hqp]
  rw [← hsame] at hq ⊢
  exact ⟨hids q .group (absurd · hqp) hq, hids q .session (absurd · hqp) hq⟩

theorem Inv.keepRoll (r : Roll) (hm : Members cfg (r.remove cfg s p))
    (hqp : q ≠ p) (hq : (s.proc q).state ≠ .free) (hg : r.idOf (s.proc q) = r.idOf (s.proc p)) :
    Inv cfg False (r.remove cfg s p) own := by
  refine h.remove r fun i hi => .inr ⟨not_false, ?_⟩
  rcases (r.left_freed i p (h.table.notMem_of_entry r (r.find_some hi).2)).list with hl | ⟨-, hempty⟩
  · exact hl
  · exact absurd hempty (hm.entry_kept hi (absurd · hqp) hq hg)

theorem Inv.keepFini (hm : Members cfg (removeFromPgrp cfg s p))
    (hm' : Members cfg (finiSessionPgrp cfg s p)) (hqp : q ≠ p) (hq : (s.proc q).state ≠ .free)
    (hg : (s.proc q).pgid = (s.proc p).pgid) (hs : (s.proc q).sid = (s.proc p).sid) :
    Inv cfg False (finiSessionPgrp cfg s p) own := by
  obtain ⟨y, pgid, hy⟩ := removeFromPgrp_shape cfg s p
  have hu : Inv cfg False (removeFromPgrp cfg s p) own := h.keepRoll .group hm hqp hq hg
  refine hu.keepRoll .session hm' hqp ?_ ?_
  · rw [hy, setProc_other hqp]
    exact hq
  · rw [hy, setProc_other hqp, setProc_self]
    exact hs

include hm hrun

theorem undoFork (hne : new ≠ cur) (hroot : new ≠ s.rootProcess) (hstate : (s.proc new).state = .init)
    (hthreads : (s.proc new).threadList = []) (hlead : Unled s new) (hcur : (s.proc cur).state ≠ .free)
    (hpgid : (s.proc new).pgid = (s.proc cur).pgid) (hsid : (s.proc new).sid = (s.proc cur).sid) :
    (∃ own', Inv cfg False (forkCleanup cfg s new) own') ∧ Members cfg (forkCleanup cfg s new) ∧
      Fewer s (forkCleanup cfg s new) := by
  have halive : (s.proc new).state ≠ .free := by simp [hstate]
  have hgone : new = s.rootProcess ∨ (s.proc new).state ≠ .exited := .inr (by simp [hstate])
  obtain ⟨hfini, hkeys, hfewer⟩ := hm.fini halive hgone hlead
  have hleave := (hm.leave .group halive hgone fun hexit => (hlead hexit).1).1
  have hinv := h.keepFini hleave hfini hne.symm hcur hpgid.symm hsid.symm
  obtain ⟨y, sid, pgid, hy⟩ := finiSessionPgrp_shape cfg s new
  have hrun' : (finiSessionPgrp cfg s new).panicked = false := by
    rw [hy]
    exact hrun
  have hf := hfini.frame_freeProcess hrun' hkeys
  obtain ⟨own', hfree⟩ := hinv.forkCleanup hrun hroot hstate hthreads
  exact ⟨⟨own', hfree⟩, hfini.frame hfree hf, hfewer.trans hf.fewer⟩

theorem kept_fork (hcur : (s.proc cur).state ≠ .free) : Kept cfg s (sysFork cfg s cur spaceOk stackOk) := by
  unfold sysFork
  cases ha : allocProcess s cur with
  | mk u r =>
    cases r with
    | none =>
      obtain ⟨hu, hfewer⟩ := hm.allocProcess_none h ha
      exact ⟨⟨own, h.allocProcess_none ha⟩, hu, hfewer.persist⟩
    | some new =>
      obtain ⟨⟨own₁, hu⟩, hroot, hne, hstate, hthreads, hpan⟩ := h.allocProcess_some hcur ha
      obtain ⟨hmu, hborn, hpgrps⟩ := hm.allocProcess_some h hcur ha
      have hfewer : Fewer s u := fewer_of_pgrps hpgrps
      have hrun' : u.panicked = false := hpan.trans hrun
      cases spaceOk with
      | false =>
        have hf := hmu.frame_freeProcess hrun' ⟨hborn.group, hborn.session⟩
        obtain ⟨own₂, hinv⟩ := hu.freeProcess hrun' (by simp [hstate]) hroot hthreads
        exact ⟨⟨own₂, hinv⟩, hmu.frame hinv hf, (hfewer.trans hf.fewer).persist⟩
      | true =>
        have hcur' : (u.proc cur).state ≠ .free := by
          obtain ⟨rest, e, free, -, -, v, hv, rfl⟩ := allocProcess_some ha
          rw [setProc_self, hv, setProc_other hne.symm]
          exact hcur
        have hv := hu.forkSessionPgrp new cur
        have hmv := hmu.forkSessionPgrp hborn hcur' hne.symm
        have hfewer' : Fewer s (forkSessionPgrp cfg u new cur) := by
          refine hfewer.trans fun k => .inl ?_
          rw [forkSessionPgrp_pidTable]
        have hnew : (forkSessionPgrp cfg u new cur).proc new =
            { u.proc new with sid := (u.proc cur).sid, pgid := (u.proc cur).pgid } := setProc_self u new _
        have hold : (forkSessionPgrp cfg u new cur).proc cur = u.proc cur := setProc_other hne.symm _
        dsimp only
        rcases hv.forkThread_cases new stackOk hrun' with
          ⟨w, t, tid, own₂, hw, hinv, htaken, heq⟩ | ⟨w, own₂, hinv, hb, heq | ⟨hwrun, heq, -⟩⟩
        · have hb := allocThread_beside hv.table hw
          have hf := (hb.frame hv.table).trans (frame_initThread w new t tid true)
          have hinit := hinv.initThread htaken true (.inr (by rw [hb.proc, hnew]; exact hstate))
          rw [heq]
          exact ⟨⟨own₂, hinit⟩, hmv.frame hinit hf, (hfewer'.trans hf.fewer).persist⟩
        · have hf := hb.frame hv.table
          rw [heq]
          exact ⟨⟨own₂, hinv⟩, hmv.frame hinv hf, (hfewer'.trans hf.fewer).persist⟩
        · have hf := hb.frame hv.table
          have hmw := hmv.frame hinv hf
          have hbare (k : PidT) : (w.ids.pidTable k).pgrp = (u.ids.pidTable k).pgrp ∧
              (w.ids.pidTable k).session = (u.ids.pidTable k).session := by
            have hg := congrFun (congrArg Roster.table hf.pgrps) k
            have hs := congrFun (congrArg Roster.table hf.sessions) k
            dsimp only [pgrps, sessions] at hg hs
            rw [forkSessionPgrp_pidTable] at hg hs
            exact ⟨hg, hs⟩
          have hlead : Unled w new := by
            intro _
            rw [hb.proc, hnew, (hbare _).1, (hbare _).2]
            exact hborn.bare
          obtain ⟨hinv', hmem, hcleanup⟩ := undoFork hinv hmw hwrun hne (hb.root ▸ hroot)
            (by rw [hb.proc, hnew]; exact hstate) (by rw [hb.proc, hnew]; exact hthreads) hlead
            (by rw [hb.proc, hold]; exact hcur') (by rw [hb.proc, hnew, hold]) (by rw [hb.proc, hnew, hold])
          rw [heq]
          exact ⟨hinv', hmem, ((hfewer'.trans hf.fewer).trans hcleanup).persist⟩

theorem kept_createThread (hp : p = s.rootProcess ∨ (s.proc p).state = .init) :
    Kept cfg s (doCreateThread cfg s p detached stackOk) := by
  refine hm.kept (h.doCreateThread hrun detached stackOk hp) ?_
  unfold doCreateThread
  cases ha : allocThread s with
  | mk u r =>
    have hf := (allocThread_beside h.table ha).frame h.table
    cases r with
    | none => exact hf
    | some r =>
      obtain ⟨t, tid⟩ := r
      obtain ⟨own', hinv, -, -, -, hpan⟩ := h.allocThread_some ha
      dsimp only
      split
      · exact hf.trans (frame_initThread u p t tid detached)
      · exact (abandonThread_beside h.table (hpan.trans hrun) ha).frame h.table

theorem frame_detachChild (hchild : child ≠ s.rootProcess) : Frame s (detachChild cfg p s child) := by
  have hunlist := frame_childList s p ((s.proc p).childList.erase child)
  have hmem := hm.frame (h.unlist p child) hunlist
  unfold detachChild
  dsimp only
  split
  · rename_i hs
    exact hunlist.trans (hmem.frame_freeProcess hrun (hmem.gone child hchild hs))
  · exact (hunlist.trans (frame_childList _ _ _)).trans (frame_parent _ _ _)

omit hrun

theorem frame_detachChildren (p : ProcId) : Frame s (detachChildProcesses cfg s p) := by
  refine (detach_induction cfg p (P := fun u => (∃ own', Inv cfg False u own') ∧ Frame s u) ⟨⟨own, h⟩, .refl s⟩ ?_).2
  rintro u ⟨⟨own₁, hu⟩, hf⟩ hrun child hchild
  have hne : child ≠ u.rootProcess := hf.root ▸ fun hc => h.kin.child p (hc ▸ hchild)
  exact ⟨hu.detachChild hrun hne, hf.trans (frame_detachChild hu (hm.frame hu hf) hrun hne)⟩

theorem kept_exitFinish (hc : (s.thread c).state = .init)
    (hp : (s.thread c).process = some p) (hexit : (s.proc p).exitInProgress = true)
    (hr : LeavesBothIdle cfg s p) : Kept cfg s (exitFinish cfg s c p) := by
  have halive := h.process_ne_free hc hp
  have hgone : p = s.rootProcess ∨ (s.proc p).state ≠ .exited :=
    (h.process_alive hc hp).imp id fun hs => by simp [hs]
  have hled : Unled s p := fun hfalse => by simp [hexit] at hfalse
  obtain ⟨hmem, hkeys, hfewer⟩ := hm.fini halive hgone hled
  obtain ⟨own', hinv⟩ := h.releaseFini (hm.leave .group halive hgone fun hexit => (hled hexit).1).1 hmem hr
  obtain ⟨y, sid, pgid, hy⟩ := finiSessionPgrp_shape cfg s p
  have hc' : ((finiSessionPgrp cfg s p).thread c).state = .init := by
    rw [hy]
    exact hc
  have hp' : ((finiSessionPgrp cfg s p).thread c).process = some p := by
    rw [hy]
    exact hp
  have hf := frame_detachChildren hinv hmem p
  obtain ⟨⟨own₁, hdetached⟩, hthread⟩ := hinv.detachChildren p
  have hrest : Frame (finiSessionPgrp cfg s p) (exitFinish cfg s c p) := by
    unfold exitFinish State.andThen
    split
    · exact hf
    refine hf.trans (frame_doExitThread (hdetached.process_ne_free (c := c) ?_ ?_) fun _ => ?_)
    · rw [hthread]
      exact hc'
    · rw [hthread]
      exact hp'
    · exact hf.unlisted hkeys
  obtain ⟨own₂, hfinal⟩ := hinv.exitRest hc' hp'
  exact ⟨⟨own₂, hfinal⟩, hmem.frame hfinal hrest, (hfewer.trans hrest.fewer).persist⟩

theorem kept_exit (hc : (s.thread c).state = .init) (hp : (s.thread c).process = some p)
    (hlast : (s.proc p).exitInProgress = true → (s.proc p).threadList.erase c = [] →
      groupOf s p = none ∧ sessionOf s p = none) : Kept cfg s (sysExit s c p) := by
  have hinv := h.sysExit hc hp
  unfold sysExit at hinv ⊢
  split
  · exact hm.kept ⟨own, h.panic⟩ (frame_panic s)
  split
  · rename_i hexit
    exact hm.kept ⟨own, h.doExitThread hc hp⟩ (frame_doExitThread (h.process_ne_free hc hp) (hlast hexit))
  rename_i hpar hexit
  rw [if_neg hpar, if_neg hexit] at hinv
  have hmark : Frame s (s.setProc p { s.proc p with exitInProgress := true }) :=
    frame_alike rfl rfl rfl rfl fun _ => rfl
  have hf := hmark.trans (frame_detachThreads _
    (((s.setProc p { s.proc p with exitInProgress := true }).proc p).threadList.filter (· ≠ c)))
  have hdet := (h.setMembership p (s.proc p).sid (s.proc p).pgid true).detachThreads
    (((s.setProc p { s.proc p with exitInProgress := true }).proc p).threadList.filter (· ≠ c))
  refine ⟨⟨own, hinv⟩, Members.setExiting (hm.frame hdet hf) ?_, fun g i hi => .inl hi⟩
  intro q hq
  have hqp : q = p := by
    dsimp only [detachThreads] at hq
    split at hq <;> exact Option.some.inj (hq.symm.trans hp)
  subst hqp
  dsimp only [detachThreads]
  rw [setProc_self]

theorem kept_join : Kept cfg s (sysThreadJoin cfg s c tid).1 := by
  refine hm.kept ⟨own, h.sysThreadJoin⟩ ?_
  unfold sysThreadJoin
  split
  · exact Frame.refl s
  split
  · exact Frame.refl s
  split
  · exact Frame.refl s
  rename_i u _ _ _
  have hf : Frame s (s.setThread u { s.thread u with joinerThread := some c }) :=
    frame_setThread rfl rfl fun hu => ⟨hu, rfl⟩
  exact hf.trans (frame_setPhase _ c (.joining u) (by simp))

include hrun

theorem kept_joinFinish
    (hp : (s.proc p).state ≠ .free) (ht : (s.thread t).state = .exited) (hd : (s.thread t).detached = false) :
    Kept cfg s (joinFinish cfg s c p t) := by
  refine hm.kept (h.joinFinish hrun hp ht hd) ?_
  have hf : Frame s (s.setProc p { s.proc p with threadList := (s.proc p).threadList.erase t }) :=
    frame_alike rfl rfl rfl rfl id
  have hmem : Members cfg (s.setProc p { s.proc p with threadList := (s.proc p).threadList.erase t }) := by
    refine hm.frame (h.exitProc (c := t) hp (by simp [ht]) ?_ ?_ rfl rfl rfl) hf
    · exact fun u hut hu => (List.mem_erase_of_ne hut).mpr hu
    · exact .inr ⟨rfl, fun hnil => by simp [hnil]⟩
  exact (hf.trans (hmem.frame_freeThread hrun t _)).trans (frame_setPhase _ c .running (by simp))

theorem kept_reaper (ht : t ∈ s.threadReaperDetachedThreadList) : Kept cfg s (threadReaper cfg s t) := by
  refine hm.kept (h.threadReaper hrun ht) ?_
  have hf : Frame s { s with threadReaperDetachedThreadList := s.threadReaperDetachedThreadList.erase t } :=
    { Frame.refl s with }
  have hmem : Members cfg { s with threadReaperDetachedThreadList := s.threadReaperDetachedThreadList.erase t } :=
    { hm with }
  exact hf.trans (hmem.frame_freeThread hrun t (s.thread t).tid)

theorem kept_waitpid : Kept cfg s (sysWaitpid cfg s cur pid statusFault).1 := by
  refine hm.kept (h.sysWaitpid hrun) ?_
  unfold sysWaitpid
  split
  · exact Frame.refl s
  · exact Frame.refl s
  · rename_i child hsel
    split
    · exact Frame.refl s
    obtain ⟨hs, -⟩ := waitSelect_some hsel
    have hroot := h.waitSelect_ne_root hsel
    have hf := frame_childList s cur ((s.proc cur).childList.erase child)
    exact hf.trans ((hm.frame (h.unlist cur child) hf).frame_freeProcess hrun (hf.unlisted (hm.gone child hroot hs)))

end

theorem sysSetpgid_kept (h : PgidKept cfg s cur pid pgid) : (sysSetpgid cfg s cur pid pgid).1 = s := by
  unfold sysSetpgid
  split
  · rfl
  rename_i q hq
  split
  · rfl
  rename_i hsid
  split
  · rfl
  rename_i i hi
  split
  · rfl
  rename_i hsid'
  have hsame := h q hq (not_not.mp hsid) i hi (not_not.mp hsid')
  rw [← hsame]
  exact congrArg (fun f => { s with proc := f }) (update_eq_self q s.proc)

end

structure Membership (s : State) : Prop where
  group : ∀ p g, 0 < g → ((pgrps s.ids).On g p ↔ (s.proc p).state ≠ .free ∧ (s.proc p).pgid = g)
  oneGroup : ∀ p g k, (pgrps s.ids).On g p → (pgrps s.ids).On k p → g = k
  session : ∀ p g, 0 < g → ((sessions s.ids).On g p ↔ (s.proc p).state ≠ .free ∧ (s.proc p).sid = g)
  oneSession : ∀ p g k, (sessions s.ids).On g p → (sessions s.ids).On k p → g = k
  unreleased : ∀ g i, (s.ids.pidTable g).pgrp = some i → i ∉ s.ids.freePgrpList

section

variable (cfg : Config) (s : State)

def GroupsKept (u : State) : Prop :=
  ∀ g i, (s.ids.pidTable g).pgrp = some i → (u.ids.pidTable g).pgrp = some i ∨
    ∀ q, (u.proc q).state ≠ .free → (u.proc q).pgid ≠ g

structure NewGroup (s u : State) (p : ProcId) : Prop where
  fresh : (s.ids.pidTable (s.proc p).pid).pgrp = none
  leader : (u.proc p).pgid = (s.proc p).pid ∧ (u.proc p).pid = (s.proc p).pid
  member : (pgrps u.ids).On (s.proc p).pid p

def Founds (p : ProcId) : Prop :=
  (s.proc p).exitInProgress = false ∧ pidToPiddesc cfg (s.proc p).pid = some (s.proc p).pid
  deriving Decidable

def InNoRecord (p : ProcId) : Prop :=
  getPgrp cfg s.ids (s.proc p).pgid = none ∧ getSession cfg s.ids (s.proc p).sid = none
  deriving Decidable

def LastLeaves (c : ThreadId) (p : ProcId) : Prop :=
  (s.proc p).threadList.erase c = [] → InNoRecord cfg s p
  deriving Decidable

def SetsidOrderly (p : ProcId) : Prop :=
  (s.proc p).sid ≠ (s.proc p).pid → (s.proc p).pgid ≠ (s.proc p).pid → Founds cfg s p ∧
    (getSession cfg s.ids (s.proc p).sid = none → getPgrp cfg s.ids (s.proc p).pgid = none) ∧
    (getSession cfg s.ids (s.proc p).sid ≠ none → LeavesBothIdle cfg s p)

def SetpgrpOrderly (p : ProcId) : Prop :=
  (s.proc p).pgid ≠ (s.proc p).pid → Founds cfg s p ∧
    ((s.proc p).sid ≠ (s.proc p).pgid → LeavesIdle cfg s p (s.proc p).pgid)

end

def Orderly (whole : Prop) (cfg : Config) (s : State) : Action → Prop
  | .setsid c => ∀ p ∈ caller s c, SetsidOrderly cfg s p ∧
    (whole → (s.proc p).sid = (s.proc p).pid ∨ (s.proc p).pgid = (s.proc p).pid)
  | .setpgrp c => ∀ p ∈ caller s c, SetpgrpOrderly cfg s p
  | .setpgid c pid pgid => ∀ p ∈ caller s c, PgidKept cfg s p pid pgid
  | .exit c => ∀ p ∈ caller s c, (s.proc p).exitInProgress = true → LastLeaves cfg s c p
  | .exitFinish c => ∀ r ∈ sleeper s c, LeavesBothIdle cfg s r.2
  | .threadExit c => ∀ p ∈ caller s c, LastLeaves cfg s c p
  | .joinFinish c => ∀ r ∈ sleeper s c, ∀ t ∈ r.1.target, JoinOwn s r.2 t
  | _ => True

section Decide

variable (cfg : Config) (s : State)

instance (e : PidT) : Decidable (Unheld cfg s e) := inferInstanceAs (Decidable (_ ∧ _))

instance (p : ProcId) (e : PidT) : Decidable (LeavesIdle cfg s p e) := inferInstanceAs (Decidable (_ → _ → _))

instance (p : ProcId) : Decidable (LeavesBothIdle cfg s p) := inferInstanceAs (Decidable (_ ∧ _))

instance (p : ProcId) : Decidable (SetsidOrderly cfg s p) := inferInstanceAs (Decidable (_ → _ → _ ∧ _ ∧ _))

instance (p : ProcId) : Decidable (SetpgrpOrderly cfg s p) := inferInstanceAs (Decidable (_ → _ ∧ _))

instance decidableOrderly (whole : Prop) [Decidable whole] : ∀ a, Decidable (Orderly whole cfg s a)
  | .setsid .. | .setpgrp .. | .setpgid .. | .fork .. | .threadCreate .. | .exit .. | .exitFinish ..
    | .threadExit .. | .join .. | .joinFinish .. | .waitpid .. | .reaper .. => by dsimp only [Orderly]; infer_instance

end Decide

section Runs

variable {whole : Prop} {cfg : Config} {s t : State} {own : PidT → Option Holder} {p : ProcId}

theorem kept_setsid (h : Inv cfg False s own) (hm : Members cfg s) (halive : (s.proc p).state ≠ .free)
    (hgone : p = s.rootProcess ∨ (s.proc p).state ≠ .exited) (hc : SetsidOrderly cfg s p) :
    Kept cfg s (sysSetsid cfg s p).1 ∧
      ((sysSetsid cfg s p).2.isOk = true → NewSession s (sysSetsid cfg s p).1 p) := by
  have hfini (h₁ : (s.proc p).sid ≠ (s.proc p).pid) (h₂ : (s.proc p).pgid ≠ (s.proc p).pid)
      (h₃ : getSession cfg s.ids (s.proc p).sid ≠ none) : ∃ own', Inv cfg False (finiSessionPgrp cfg s p) own' := by
    have hled := hm.unled halive h₂ h₁
    exact h.releaseFini (hm.leave .group halive hgone fun hexit => (hled hexit).1).1
      (hm.fini halive hgone hled).1 ((hc h₁ h₂).2.2 h₃)
  obtain ⟨hmem, hfewer, hnew⟩ := hm.sysSetsid halive hgone h fun h₁ h₂ =>
    ⟨(hc h₁ h₂).1.1, (hc h₁ h₂).1.2, (hc h₁ h₂).2.1, hfini h₁ h₂⟩
  exact ⟨⟨h.sysSetsid halive hfini, hmem, hfewer.persist⟩, hnew⟩

theorem kept_setpgrp (hmax : 0 < cfg.maxProcess) (h : Inv cfg False s own) (hm : Members cfg s)
    (halive : (s.proc p).state ≠ .free) (hgone : p = s.rootProcess ∨ (s.proc p).state ≠ .exited)
    (hc : SetpgrpOrderly cfg s p) : Kept cfg s (sysSetpgrp cfg s p).1 := by
  by_cases hne : (s.proc p).pgid = (s.proc p).pid
  · have hsame : (sysSetpgrp cfg s p).1 = s := by simp [sysSetpgrp, hne]
    rw [hsame]
    exact ⟨⟨own, h⟩, hm, fun _ _ hi => .inl hi⟩
  · obtain ⟨hfound, hr⟩ := hc hne
    have hleave := (hm.leave .group halive hgone fun hexit => by
      by_contra hrec
      exact hne (hm.leads .group p halive hexit hrec)).1
    have hinv : ∃ own', Inv cfg False (removeFromPgrp cfg s p) own' :=
      h.releaseRoll .group hleave fun hpos hids =>
        hr (hids p .session (by simp) halive) hpos fun q _ hqp hq =>
          ⟨hids q .group (absurd · hqp) hq, hids q .session (absurd · hqp) hq⟩
    obtain ⟨hmem, hpersist⟩ := hm.sysSetpgrp halive hgone hmax hfound.1 hfound.2 fun _ => hinv
    exact ⟨h.sysSetpgrp halive fun _ => hinv, hmem, hpersist⟩

theorem kept_step {a : Action} (hmax : 0 < cfg.maxProcess) (h : Inv cfg False s own) (hm : Members cfg s)
    (hc : Orderly whole cfg s a) (hs : step cfg s a = some t) : Kept cfg s t := by
  obtain ⟨hrun, hs⟩ := step_cases hs
  have hgone {c : ThreadId} {p : ProcId} (hi : (s.thread c).state = .init) (hp : (s.thread c).process = some p) :
      p = s.rootProcess ∨ (s.proc p).state ≠ .exited := (h.process_alive hi hp).imp id fun hs => by simp [hs]
  have hlast {c : ThreadId} {p : ProcId} (hl : LastLeaves cfg s c p) (hnil : (s.proc p).threadList.erase c = []) :
      groupOf s p = none ∧ sessionOf s p = none := ⟨hm.unlisted .group (hl hnil).1, hm.unlisted .session (hl hnil).2⟩
  cases hs with
  | setsid hp =>
    obtain ⟨hi, hcp⟩ := caller_some hp
    exact (kept_setsid h hm (h.process_ne_free hi hcp) (hgone hi hcp) (hc _ hp).1).1
  | setpgrp hp =>
    obtain ⟨hi, hcp⟩ := caller_some hp
    exact kept_setpgrp hmax h hm (h.process_ne_free hi hcp) (hgone hi hcp) (hc _ hp)
  | setpgid hp pid pgid =>
    rw [sysSetpgid_kept (hc _ hp)]
    exact ⟨⟨own, h⟩, hm, fun _ _ hi => .inl hi⟩
  | fork hp =>
    obtain ⟨hi, hcp⟩ := caller_some hp
    exact kept_fork h hm hrun (h.process_ne_free hi hcp)
  | threadCreate hp kernel =>
    obtain ⟨hi, hcp⟩ := caller_some hp
    refine kept_createThread h hm hrun ?_
    cases kernel with
    | true => exact .inl rfl
    | false => exact h.process_alive hi hcp
  | exit hp =>
    obtain ⟨hi, hcp⟩ := caller_some hp
    exact kept_exit h hm hi hcp fun hexit => hlast (hc _ hp hexit)
  | exitFinish hp =>
    obtain ⟨hi, hcp, hph⟩ := sleeper_some hp
    have hr : LeavesBothIdle cfg s _ := hc (_, _) hp
    exact kept_exitFinish h hm hi hcp (hm.exiting _ _ hi hph hcp) hr
  | threadExit hp =>
    obtain ⟨hi, hcp⟩ := caller_some hp
    exact hm.kept ⟨own, h.doExitThread hi hcp⟩
      (frame_doExitThread (h.process_ne_free hi hcp) (hlast (hc _ hp)))
  | join hp => exact kept_join h hm
  | joinFinish hp hu =>
    obtain ⟨hi, hcp, -⟩ := sleeper_some hp
    exact kept_joinFinish h hm hrun (h.process_ne_free hi hcp) hu (hc _ hp _ rfl).1
  | waitpid hp => exact kept_waitpid h hm hrun
  | reaper ht =>
    exact kept_reaper h hm hrun ht

theorem members_booted (h : Booted cfg s) : Members cfg s := by
  obtain ⟨-, -, rfl⟩ := h
  have hnone (r : Roll) (k : PidT) : r.entry ((boot cfg).ids.pidTable k) = none := by
    dsimp only [boot, bootIds]
    cases r
    all_goals
      split
      · rfl
      · split <;> rfl
  have hkeys (r : Roll) (p : ProcId) : r.keyOf (boot cfg) p = none := by
    by_cases hp : p = 0
    · subst hp
      refine r.keyOf_invalid ?_
      cases r <;> exact (Int.negSucc_lt_zero 0).le
    · exact r.keyOf_free (by simp [boot, hp, Process.zero])
  refine members_of_accords (fun r => ⟨⟨?_, ?_, ?_, ?_, ?_, ?_, ?_⟩, ?_, ?_⟩) ?_ ?_ ?_
  any_goals simp [Roll.roster_table, hnone, hkeys]
  · cases r <;> exact List.nodup_range
  · refine fun i hi => ?_
    cases r <;> exact List.mem_range.mpr (Finset.mem_range.mp hi)
  · exact fun p _ _ => ⟨hkeys .group p, hkeys .session p⟩
  · intro c p _ hph
    cases hph

theorem Members.membership (h : Members cfg s) : Membership s := by
  have hon (r : Roll) (p : ProcId) (g : PidT) (hg : 0 < g) :
      (r.roster s.ids).On g p ↔ (s.proc p).state ≠ .free ∧ r.idOf (s.proc p) = g := by
    rw [(h.accords r).1.on_iff, r.keyOf_some]
    exact ⟨fun hk => ⟨hk.1, hk.2.1⟩, fun hk => ⟨hk.1, hk.2, hg⟩⟩
  have hone (r : Roll) (p : ProcId) (g k : PidT) (hg : (r.roster s.ids).On g p) (hk : (r.roster s.ids).On k p) : g = k :=
    Option.some.inj (((h.accords r).1.on_iff.mp hg).symm.trans ((h.accords r).1.on_iff.mp hk))
  exact ⟨hon .group, hone .group, hon .session, hone .session,
    fun g i hi hfree => (h.accords .group).1.spare i hfree g hi⟩

theorem Kept.groupsKept (hm : Members cfg s) (h : Kept cfg s t) : GroupsKept s t := by
  intro g i hi
  rcases h.2.2 g i hi with ht | ht
  · exact .inl ht
  right
  intro q hq hg
  have hpos := pos_of_piddesc (mem_keySet.mp ((hm.accords .group).2.keys g i hi))
  exact (h.2.1.accords .group).1.kept q g (Roll.group.keyOf_some.mpr ⟨hq, hg, hpos⟩) ht

theorem membership_of_orderly (h : Reach (step cfg) (Orderly whole cfg) (Booted cfg) s) :
    Membership s ∧ ∀ a t, Orderly whole cfg s a → step cfg s a = some t → GroupsKept s t ∧
      ∀ c p, a = .setsid c → caller s c = some p → (sysSetsid cfg s p).2.isOk = true →
        NewSession s t p ∧ (whole → NewGroup s t p) := by
  obtain ⟨hmax, own, hinv, hm⟩ := h.invariant
    (P := fun s => 0 < cfg.maxProcess ∧ ∃ own, Inv cfg False s own ∧ Members cfg s)
    (fun _ hb => ⟨hb.1, _, inv_booted False hb, members_booted hb⟩)
    (by
      rintro s a t ⟨hmax, own, hi, hm⟩ hc hs
      obtain ⟨⟨own', hi'⟩, hm', -⟩ := kept_step hmax hi hm hc hs
      exact ⟨hmax, own', hi', hm'⟩)
  refine ⟨hm.membership, fun a t hc hs => ⟨(kept_step hmax hinv hm hc hs).groupsKept hm, ?_⟩⟩
  rintro c p rfl hp hok
  obtain ⟨hi, hcp⟩ := caller_some hp
  have hrun : s.panicked = false := by
    by_contra hpan
    simp [step, hpan] at hs
  have ht : t = (sysSetsid cfg s p).1 := by
    simpa [step, hrun, transition, hp, eq_comm] using hs
  obtain ⟨hgo, hwhole⟩ := hc p hp
  have hgone : p = s.rootProcess ∨ (s.proc p).state ≠ .exited :=
    (hinv.process_alive hi hcp).imp id fun hs => by simp [hs]
  have hnew := (kept_setsid hinv hm (hinv.process_ne_free hi hcp) hgone hgo).2 hok
  refine ⟨ht ▸ hnew, fun hw => ?_⟩
  rcases hwhole hw with hsid | hpgid
  · simp [sysSetsid, hsid, Except.isOk, Except.toBool] at hok
  · simp [sysSetsid, hpgid, Except.isOk, Except.toBool] at hok

end Runs

def groupRun : List Action :=
  [.fork 0 true true, .setpgrp 1, .setsid 1, .fork 1 true true, .exit 1, .exitFinish 1, .reaper 1,
    .waitpid 0 (-1) false]

theorem membership_in_group : (∃ s, Reach (step smallConfig) (Orderly True smallConfig) (Booted smallConfig) s ∧
      (s.ids.pidTable 3).proc = none ∧ (pgrps s.ids).On 3 2 ∧ Membership s) ∧
    ∃ s t, Reach (step smallConfig) (Orderly False smallConfig) (Booted smallConfig) s ∧
      step smallConfig s (.setsid 1) = some t ∧ NewSession s t 1 := by
  constructor
  · obtain ⟨s, hr, hq⟩ : ∃ s, Reach (step smallConfig) (Orderly True smallConfig) (Booted smallConfig) s ∧
        ((s.ids.pidTable 3).proc == none && (s.ids.pidTable 3).pgrp == some 0 &&
          (s.ids.pgrp 0).processList == [2]) = true :=
      Reach.exists_of_any groupRun _ ⟨by decide, by decide, rfl⟩ (by decide) (by decide)
    simp only [Bool.and_eq_true, beq_iff_eq] at hq
    exact ⟨s, hr, hq.1.1, ⟨0, hq.1.2, by simp [pgrps, hq.2]⟩, (membership_of_orderly hr).1⟩
  · obtain ⟨s, hr, hq⟩ : ∃ s, Reach (step smallConfig) (Orderly False smallConfig) (Booted smallConfig) s ∧
        (decide (Orderly False smallConfig s (.setsid 1)) && (step smallConfig s (.setsid 1)).isSome &&
          decide (caller s 1 = some 1) && (sysSetsid smallConfig s 1).2.isOk) = true :=
      Reach.exists_of_any [.fork 0 true true] _ ⟨by decide, by decide, rfl⟩ (by decide) (by decide)
    simp only [Bool.and_eq_true, decide_eq_true_eq, Option.isSome_iff_exists] at hq
    obtain ⟨⟨⟨hc, t, ht⟩, hcaller⟩, hok⟩ := hq
    exact ⟨s, t, hr, ht, (((membership_of_orderly hr).2 _ t hc ht).2 1 1 rfl hcaller hok).1⟩

def strayRun : List Action := [.fork 0 true true, .fork 0 true true, .setpgrp 1, .setpgid 0 0 3, .setsid 2]

theorem setpgid_leaves_list_behind : ∃ s, Reach (step smallConfig) always (Booted smallConfig) s ∧
    (s.proc 0).pgid = 3 ∧ (s.proc 2).sid = (s.proc 2).pid ∧ (s.proc 2).pgid = invalidPid ∧ ¬ Membership s := by
  refine Reach.exists_of_run (Q := fun s => (s.proc 0).pgid = 3 ∧ (s.proc 0).state ≠ .free ∧
      (s.ids.pidTable 3).pgrp = some 0 ∧ (s.ids.pgrp 0).processList = [1] ∧ (s.proc 2).sid = (s.proc 2).pid ∧
      (s.proc 2).pgid = invalidPid) strayRun ⟨by decide, by decide, rfl⟩ (meets_always _ _) (by decide)
    fun s _ ⟨hpgid, halive, hrec, hlist, hsid, hnone⟩ => ⟨hpgid, hsid, hnone, fun hm => ?_⟩
  obtain ⟨i, hi, hmem⟩ := (hm.group 0 3 (by decide)).mpr ⟨halive, hpgid⟩
  have hrec' : (s.ids.pidTable 3).pgrp = some i := hi
  rw [hrec] at hrec'
  cases hrec'
  simp [pgrps, hlist] at hmem

end CheviotKernel.Procs
