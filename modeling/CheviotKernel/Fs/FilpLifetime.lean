import CheviotKernel.Fs.Filedesc

namespace CheviotKernel.Filps.Lifetime

open Function Runs

abbrev ThreadId := ℕ

inductive Transfer
  | read
  | write
  | fstat
  deriving DecidableEq

inductive Segment
  | close (q : ProcId) (fd : ℕ)
  | closeOnExec (fd : ℕ)
  | dup (fd newFd : ℕ)
  | killOtherThreads
  | exitThread

inductive Phase
  | dead
  | user
  -- opened is the generation of the filp when the call looked it up.
  | transfer (kind : Transfer) (fd : ℕ) (f : FilpId) (opened : ℕ)
  -- In vfs_truncate of do_open, in lookup_cleanup of sys_createmsgport, in copyout of sys_pipe.
  | opening (fd : ℕ) (f : FilpId) (closeOnExec : Bool) (offset : ℤ)
  | mounting (fd : ℕ) (f : FilpId)
  | piping (fd0 : ℕ) (f0 : FilpId) (fd1 : ℕ) (f1 : FilpId)
  | forking (child : ProcId)
  | executing (fd : ℕ)
  | running (segments : List Segment)

def Phase.isDead : Phase → Bool
  | .dead => true
  | _ => false

structure Advance where
  opened : ℕ
  now : ℕ

structure System where
  state : State
  generation : FilpId → ℕ
  proc : ThreadId → ProcId
  phase : ThreadId → Phase
  log : List Advance

section

variable (s : State) (x : System)

-- A filp leaves the free list in filp_get_new only.
def bump (s' : State) (generation : FilpId → ℕ) : FilpId → ℕ := fun f =>
  if f ∈ s.filpFreeList ∧ f ∉ s'.filpFreeList then generation f + 1 else generation f

def System.run (t : ThreadId) (s : State) (phase : Phase) : System :=
  { x with
    state := s
    generation := bump x.state s x.generation
    phase := update x.phase t phase }

def closes (q : ProcId) : List Segment := (List.range filedescMax).map (Segment.close q)

def exitSegments (p : ProcId) : List Segment := .killOtherThreads :: closes p ++ [.exitThread]

def execSegments (p : ProcId) (fd : ℕ) : Exec → List Segment
  | .refused => [.close p fd]
  | .failed => .close p fd :: exitSegments p
  | .done => .killOtherThreads :: (List.range filedescMax).map .closeOnExec

inductive Action
  | create (t t' : ThreadId)
  | call (t : ThreadId) (kind : Transfer) (fd : ℕ)
  | advance (t : ThreadId) (n : ℤ)
  | return (t : ThreadId)
  | open (t : ThreadId) (closeOnExec : Bool) (offset : ℤ)
  | opened (t : ThreadId) (truncated : Bool)
  | pipe (t : ThreadId) (vnode : Bool)
  | piped (t : ThreadId) (copied : Bool)
  | createmsgport (t : ThreadId) (superblock vnode : Bool)
  | mounted (t : ThreadId)
  | dup (t : ThreadId) (fd : ℕ)
  | dup2 (t : ThreadId) (fd newFd : ℕ)
  | fcntl (t : ThreadId) (fd : ℕ) (cmd : Fcntl)
  | fork (t : ThreadId) (child : ProcId) (beyond : FileDesc)
  | forked (t : ThreadId) (thread : Option ThreadId)
  | exec (t : ThreadId)
  | loaded (t : ThreadId) (outcome : Exec)
  | close (t : ThreadId) (fd : ℕ)
  | exit (t : ThreadId)
  | resume (t : ThreadId)

def start (threads : List ThreadId) (x : System) (t t' : ThreadId) (p : ProcId) : Option System :=
  if t' ∈ threads ∧ (x.phase t').isDead then
    some
      { x with
        proc := update x.proc t' p
        phase := update (update x.phase t .user) t' .user }
  else none

def enter (threads : List ThreadId) (x : System) (t : ThreadId) (p : ProcId) (s : State) : Action → Option System
  | .create _ t' => start threads x t t' p
  | .call _ kind fd =>
    match filpGet s p fd with
    | none => some x
    | some f => some (x.run t s (.transfer kind fd f (x.generation f)))
  | .open _ closeOnExec offset =>
    match openStart s p with
    | (s, none) => some (x.run t s .user)
    | (s, some (fd, f)) => some (x.run t s (.opening fd f closeOnExec offset))
  | .pipe _ vnode =>
    match pipeStart s p with
    | (s, none) => some (x.run t s .user)
    | (s, some ((fd0, f0), (fd1, f1))) =>
      if vnode then some (x.run t (pipeTypes s f0 f1) (.piping fd0 f0 fd1 f1))
      else some (x.run t (pipeFail s p fd0 f0 fd1 f1) .user)
  | .createmsgport _ superblock vnode =>
    match openTake s p with
    | (s, none) => some (x.run t s .user)
    | (s, some (fd, f)) =>
      if ¬ superblock then some (x.run t (openFail s p fd f) .user)
      else if ¬ vnode then some (x.run t s .user)
      else some (x.run t s (.mounting fd f))
  | .dup _ fd => some (x.run t (sysDup s p fd).1 .user)
  | .dup2 _ fd newFd =>
    if filedescMax ≤ fd ∨ filedescMax ≤ newFd then some x
    else some (x.run t s (.running [.close p newFd, .dup fd newFd]))
  | .fcntl _ fd cmd => some (x.run t (sysFcntl s p fd cmd).1 .user)
  | .fork _ child beyond =>
    if s.hasTable child then none else some (x.run t (forkFds s child p beyond) (.forking child))
  | .exec _ =>
    match openStart s p with
    | (s, none) => some (x.run t s .user)
    | (s, some (fd, f)) => some (x.run t (openDone s p fd f false 0) (.executing fd))
  | .close _ fd => some (x.run t s (.running [.close p fd]))
  | .exit _ => some (x.run t s (.running (exitSegments p)))
  | _ => none

-- do_kill_other_threads_and_wait goes on once the thread is first or last of thread_list, so others may still be alive.
def runSegment (t : ThreadId) (p : ProcId) (s : State) (rest : List Segment) : Segment → Option System
  | .close q fd => some (x.run t (doClose s q fd).1 (.running rest))
  | .closeOnExec fd => some (x.run t (execFd p s fd) (.running rest))
  | .dup fd newFd => some (x.run t (dupFd s p fd newFd newFd false).1 (.running rest))
  | .killOtherThreads => some (x.run t s (.running rest))
  | .exitThread => some (x.run t s .dead)

def wake (threads : List ThreadId) (x : System) (t : ThreadId) (p : ProcId) (s : State) : Phase → Action → Option System
  | .transfer .fstat _ _ _, .advance _ _ => none
  | .transfer kind fd f opened, .advance _ n =>
    let y := x.run t (s.setFilp f { s.filp f with offset := (s.filp f).offset + n }) (.transfer kind fd f opened)
    some { y with log := ⟨opened, x.generation f⟩ :: x.log }
  | .transfer _ _ _ _, .return _ => some (x.run t s .user)
  | .opening fd f closeOnExec offset, .opened _ truncated =>
    if truncated then some (x.run t (openDone s p fd f closeOnExec offset) .user)
    else some (x.run t (openFail s p fd f) .user)
  | .piping fd0 f0 fd1 f1, .piped _ copied =>
    if copied then some (x.run t (pipeDone s p fd0 f0 fd1 f1) .user)
    else some (x.run t (pipeFail s p fd0 f0 fd1 f1) .user)
  | .mounting fd f, .mounted _ => some (x.run t (mountDone s p fd f) .user)
  | .forking child, .forked _ (some t') => start threads x t t' child
  | .forking child, .forked _ none => some (x.run t s (.running (closes child)))
  | .executing fd, .loaded _ outcome => some (x.run t s (.running (execSegments p fd outcome)))
  | .running [], .resume _ => some (x.run t s .user)
  | .running (segment :: rest), .resume _ => runSegment x t p s rest segment
  | _, _ => none

def Action.thread : Action → ThreadId
  | .create t _ => t
  | .call t _ _ => t
  | .advance t _ => t
  | .return t => t
  | .open t _ _ => t
  | .opened t _ => t
  | .pipe t _ => t
  | .piped t _ => t
  | .createmsgport t _ _ => t
  | .mounted t => t
  | .dup t _ => t
  | .dup2 t _ _ => t
  | .fcntl t _ _ => t
  | .fork t _ _ => t
  | .forked t _ => t
  | .exec t => t
  | .loaded t _ => t
  | .close t _ => t
  | .exit t => t
  | .resume t => t

def step (threads : List ThreadId) (x : System) (a : Action) : Option System :=
  if x.state.panicked then none
  else match x.phase a.thread with
    | .dead => none
    | .user => enter threads x a.thread (x.proc a.thread) x.state a
    | phase => wake threads x a.thread (x.proc a.thread) x.state phase a

def closing : Action → Option (ProcId × ℕ)
  | .resume t =>
    match x.phase t with
    | .running (.close q fd :: _) => some (q, fd)
    | .running (.closeOnExec fd :: _) =>
      if (x.state.fdTable (x.proc t) fd).closeOnExec then some (x.proc t, fd) else none
    | _ => none
  | _ => none

def LeavesAnother (a : Action) : Prop :=
  ∀ q fd f, closing x a = some (q, fd) → filpGet x.state q fd = some f →
    (∃ t kind w n, x.phase t = .transfer kind w f n) →
    ∃ q' w, ¬ (q' = q ∧ w = fd) ∧ filpGet x.state q' w = some f

end

structure Start (filps : List FilpId) (x : System) : Prop where
  booted : Booted filps x.state
  table : ∀ t, (x.phase t).isDead = false → x.state.hasTable (x.proc t) = true
  phase : ∀ t, x.phase t = .dead ∨ x.phase t = .user
  log : x.log = []

structure Alive (x : System) : Prop where
  notFree : ∀ t kind fd f opened, x.phase t = .transfer kind fd f opened → f ∉ x.state.filpFreeList
  same : ∀ t kind fd f opened, x.phase t = .transfer kind fd f opened → x.generation f = opened
  log : ∀ e ∈ x.log, e.now = e.opened

def Phase.held : Phase → List (ℕ × FilpId × FilpType)
  | .opening fd f _ _ => [(fd, f, .vnode)]
  | .mounting fd f => [(fd, f, .undef)]
  | .piping fd0 f0 fd1 f1 => [(fd0, f0, .vnode), (fd1, f1, .vnode)]
  | _ => []

def Phase.Idle : Phase → Prop
  | .dead => True
  | .user => True
  | .executing _ => True
  | .running _ => True
  | _ => False

def Phase.uses : Phase → Option (FilpId × ℕ)
  | .transfer _ _ f opened => some (f, opened)
  | _ => none

section Runs

variable {filps loose loose' : List FilpId} {threads : List ThreadId} {x y : System} {t t' : ThreadId} {s : State}
  {phase : Phase} {owners owners' : FilpId → Finset (ProcId × ℕ)} {f : FilpId} {p : ProcId} {a : Action}
  {n w fd opened : ℕ}

def System.stakes (x : System) (who : ThreadId → Prop) : Stakes where
  holding q w f type := ∃ t, who t ∧ x.proc t = q ∧ (w, f, type) ∈ (x.phase t).held
  table q := ∃ t, ((x.phase t).isDead = false ∧ x.proc t = q) ∨ x.phase t = .forking q
  used f := ∃ t n, who t ∧ (x.phase t).uses = some (f, n)

structure Good (filps : List FilpId) (x : System) (owners : FilpId → Finset (ProcId × ℕ)) (loose : List FilpId) :
    Prop where
  safe : Safe filps (x.stakes fun _ => True) x.state owners loose
  apart : ∀ t w f type, (w, f, type) ∈ (x.phase t).held → (x.stakes (· ≠ t)).Apart (x.proc t) w f
  distinct : ∀ t, ((x.phase t).held.map fun e => e.1).Nodup ∧ ((x.phase t).held.map fun e => e.2.1).Nodup
  generation : ∀ t f n, (x.phase t).uses = some (f, n) → x.generation f = n
  log : ∀ e ∈ x.log, e.now = e.opened

theorem run_phase_other (x : System) (s : State) (phase : Phase) (hne : t' ≠ t) :
    (x.run t s phase).phase t' = x.phase t' :=
  update_of_ne hne _ _

theorem bump_self (s : State) (generation : FilpId → ℕ) : bump s s generation = generation := by
  funext f
  simp [bump]

theorem filpGet_setCloseOnExec (s : State) (p : ProcId) (fd : ℕ) (cloexec : Bool) (q : ProcId) (w : ℕ) :
    filpGet (s.setDesc p fd { s.fdTable p fd with closeOnExec := cloexec }) q w = filpGet s q w := by
  unfold filpGet
  by_cases hc : q = p ∧ w = fd
  · obtain ⟨rfl, rfl⟩ := hc
    simp
  · rw [setDesc_other s _ hc]

theorem uses_some (hu : (x.phase t).uses = some (f, n)) : ∃ kind w, x.phase t = .transfer kind w f n := by
  cases hph : x.phase t with
  | transfer kind w f' n' =>
    rw [hph] at hu
    cases hu
    exact ⟨kind, w, rfl⟩
  | _ =>
    rw [hph] at hu
    cases hu

theorem Good.start_state (h : Start filps x) : ∃ owners, Good filps x owners [] := by
  obtain ⟨owners, hinv⟩ := Sound.booted h.booted
  have hquiet (t : ThreadId) : (x.phase t).held = [] ∧ (x.phase t).uses = none ∧ ∀ q, x.phase t ≠ .forking q := by
    rcases h.phase t with hp | hp <;> simp [hp, Phase.held, Phase.uses]
  refine ⟨owners, ⟨hinv, ?_, ?_, ?_⟩, ?_, ?_, ?_, ?_⟩
  · rintro q w f type ⟨t, -, -, hm⟩
    rw [(hquiet t).1] at hm
    cases hm
  · rintro q ⟨t, ⟨hlive, rfl⟩ | hf⟩
    · exact h.table t hlive
    · exact absurd hf ((hquiet t).2.2 q)
  · rintro f ⟨t, n, -, hu⟩
    rw [(hquiet t).2.1] at hu
    cases hu
  · intro t w f type hm
    rw [(hquiet t).1] at hm
    cases hm
  · intro t
    rw [(hquiet t).1]
    exact ⟨List.nodup_nil, List.nodup_nil⟩
  · intro t f n hu
    rw [(hquiet t).2.1] at hu
    cases hu
  · intro e he
    rw [h.log] at he
    cases he

def bootSystem : System :=
  ⟨bootState, fun _ => 0, fun _ => 0, fun t => if t = 0 then .user else .dead, []⟩

theorem bootSystem_start : Start [0, 1, 2] bootSystem := by
  refine ⟨bootState_booted, fun _ _ => rfl, ?_, rfl⟩
  intro t
  by_cases ht : t = 0
  · exact .inr (by simp [bootSystem, ht])
  · exact .inl (by simp [bootSystem, ht])

def sharing : List Action :=
  [.open 0 false 0, .opened 0 true, .create 0 1, .call 0 .read 0, .dup 1 0, .close 1 0, .resume 1, .advance 0 5]

def reusing : List Action :=
  [.open 0 false 0, .opened 0 true, .create 0 1, .call 0 .read 0, .close 1 0, .resume 1, .resume 1,
    .open 1 false 0, .opened 1 true, .advance 0 5]

theorem close_during_read_frees_filp : ∃ x y, Reach (step [0, 1]) always (Start [0, 1, 2]) x ∧
    Reach (step [0, 1]) always (Start [0, 1, 2]) y ∧ x.phase 0 = .transfer .read 0 0 1 ∧
    x.state.filpFreeList = [0, 1, 2] ∧ ¬ Alive x ∧
    filpGet y.state 0 0 = some 0 ∧ (y.state.filp 0).offset = 5 ∧ y.log = [⟨1, 2⟩] ∧ ¬ Alive y := by
  obtain ⟨x, hx, hphase, hfree⟩ : ∃ x, Runs.exec (step [0, 1]) bootSystem (reusing.take 6) = some x ∧
      x.phase 0 = .transfer .read 0 0 1 ∧ x.state.filpFreeList = [0, 1, 2] := ⟨_, rfl, rfl, rfl⟩
  obtain ⟨y, hy, hget, hoffset, hlog⟩ : ∃ y, Runs.exec (step [0, 1]) bootSystem reusing = some y ∧
      filpGet y.state 0 0 = some 0 ∧ (y.state.filp 0).offset = 5 ∧ y.log = [⟨1, 2⟩] := ⟨_, rfl, rfl, rfl, rfl⟩
  refine ⟨x, y, (Reach.start bootSystem_start).exec (meets_always _ _) hx,
    (Reach.start bootSystem_start).exec (meets_always _ _) hy, hphase, hfree, ?_, hget, hoffset, hlog, ?_⟩
  · intro hc
    have hnot := hc.notFree 0 .read 0 0 1 hphase
    simp [hfree] at hnot
  · intro hc
    have hnow := hc.log ⟨1, 2⟩ (by simp [hlog])
    cases hnow

namespace Good

variable (h : Good filps x owners loose) (ht : (x.phase t).isDead = false)
  (hs : Safe filps (x.stakes (· ≠ t)) s owners' loose')
include h

theorem others (t : ThreadId) : Safe filps (x.stakes (· ≠ t)) x.state owners loose := by
  refine ⟨h.safe.inv, ?_, h.safe.table, ?_⟩
  · rintro q w f type ⟨t', -, hq, hm⟩
    exact h.safe.holding q w f type ⟨t', trivial, hq, hm⟩
  · rintro f ⟨t', n, -, hu⟩
    exact h.safe.used f ⟨t', n, trivial, hu⟩

theorem held {type : FilpType}
    (hm : (w, f, type) ∈ (x.phase t).held) : Held filps x.state owners loose (x.proc t) w f type :=
  h.safe.holding _ w f type ⟨t, trivial, rfl, hm⟩

theorem bump_eq (hu : (x.phase t).uses = some (f, n)) : bump x.state s x.generation f = n := by
  obtain ⟨-, b, hb⟩ := h.safe.used f ⟨t, n, trivial, hu⟩
  have hfree := h.safe.inv.owned_notMem hb
  simp [bump, hfree, h.generation t f n hu]

theorem create (ht' : x.phase t' = .dead) (htable : x.state.hasTable p = true) :
    Good filps { x with proc := update x.proc t' p, phase := update x.phase t' .user } owners
      loose := by
  have hsame {α : Type} {g : Phase → α} (hg : g .user = g .dead) (u : ThreadId) :
      g (update x.phase t' .user u) = g (x.phase u) := by
    by_cases hu : u = t'
    · subst hu
      rw [update_self, ht', hg]
    · rw [update_of_ne hu]
  have hheld := hsame (g := Phase.held) rfl
  have huses := hsame (g := Phase.uses) rfl
  have hproc (u : ThreadId) {e : ℕ × FilpId × FilpType} (he : e ∈ (x.phase u).held) :
      update x.proc t' p u = x.proc u := by
    refine update_of_ne ?_ _ _
    rintro rfl
    rw [ht'] at he
    cases he
  refine ⟨⟨h.safe.inv, ?_, ?_, ?_⟩, ?_, ?_, ?_, h.log⟩
  · rintro q w f type ⟨u, -, rfl, hm⟩
    simp only [hheld] at hm
    simp only [hproc u hm]
    exact h.held hm
  · rintro q ⟨u, hu⟩
    simp only at hu
    by_cases hne : u = t'
    · subst hne
      simp only [update_self] at hu
      rcases hu with ⟨-, rfl⟩ | hu
      · exact htable
      · cases hu
    · rw [update_of_ne hne, update_of_ne hne] at hu
      exact h.safe.table q ⟨u, hu⟩
  · rintro f ⟨u, n, -, hu⟩
    simp only [huses] at hu
    exact h.safe.used f ⟨u, n, trivial, hu⟩
  · rintro u w f type hm q w' f' type' ⟨u', hne, rfl, hm'⟩
    simp only [hheld] at hm hm'
    simp only [hproc u hm, hproc u' hm']
    exact h.apart u w f type hm _ w' f' type' ⟨u', hne, rfl, hm'⟩
  · intro u
    simp only [hheld]
    exact h.distinct u
  · intro u f n hu
    simp only [huses] at hu
    exact h.generation u f n hu

theorem alive : Alive x := by
  refine ⟨?_, ?_, h.log⟩
  · intro t kind fd f opened ht
    obtain ⟨-, b, hb⟩ := h.safe.used f ⟨t, opened, trivial, by rw [ht]; rfl⟩
    exact h.safe.inv.owned_notMem hb
  · intro t kind fd f opened ht
    exact h.generation t f opened (by rw [ht]; rfl)

include ht

theorem hasTable : x.state.hasTable (x.proc t) = true :=
  h.safe.table _ ⟨t, .inl ⟨ht, rfl⟩⟩

include hs

theorem run (hheld : ∀ w f type, (w, f, type) ∈ phase.held → Held filps s owners' loose' (x.proc t) w f type ∧
      (x.stakes (· ≠ t)).Apart (x.proc t) w f)
    (hdistinct : (phase.held.map fun e => e.1).Nodup ∧ (phase.held.map fun e => e.2.1).Nodup)
    (hfork : ∀ q, phase = .forking q → s.hasTable q = true)
    (huse : ∀ f n, phase.uses = some (f, n) → f ∈ filps ∧ (owners' f).Nonempty ∧
      bump x.state s x.generation f = n) : Good filps (x.run t s phase) owners' loose' := by
  have hself : (x.run t s phase).phase t = phase := by simp [System.run]
  have hother (t' : ThreadId) (hne : t' ≠ t) := run_phase_other x s phase hne
  refine ⟨⟨hs.inv, ?_, ?_, ?_⟩, ?_, ?_, ?_, h.log⟩
  · rintro q w f type ⟨t', -, rfl, hm⟩
    by_cases hne : t' = t
    · subst hne
      rw [hself] at hm
      exact (hheld w f type hm).1
    · rw [hother t' hne] at hm
      exact hs.holding _ w f type ⟨t', hne, rfl, hm⟩
  · rintro q ⟨t', hq⟩
    by_cases hne : t' = t
    · subst hne
      rw [hself] at hq
      rcases hq with ⟨-, rfl⟩ | hq
      · exact hs.table _ ⟨t', .inl ⟨ht, rfl⟩⟩
      · exact hfork q hq
    · rw [hother t' hne] at hq
      exact hs.table q ⟨t', hq⟩
  · rintro f ⟨t', n, -, hu⟩
    by_cases hne : t' = t
    · subst hne
      rw [hself] at hu
      exact ⟨(huse f n hu).1, (huse f n hu).2.1⟩
    · rw [hother t' hne] at hu
      exact hs.used f ⟨t', n, hne, hu⟩
  · rintro t' w f type hm q w' f' type' ⟨t'', hne', rfl, hm'⟩
    by_cases hne : t' = t
    · subst hne
      rw [hself] at hm
      rw [hother t'' hne'] at hm'
      exact (hheld w f type hm).2 _ w' f' type' ⟨t'', hne', rfl, hm'⟩
    · rw [hother t' hne] at hm
      by_cases hne'' : t'' = t
      · subst hne''
        rw [hself] at hm'
        obtain ⟨hff, hent⟩ := (hheld w' f' type' hm').2 _ w f type ⟨t', hne, rfl, hm⟩
        exact ⟨hff.symm, fun hc => hent ⟨hc.1.symm, hc.2.symm⟩⟩
      · rw [hother t'' hne''] at hm'
        exact h.apart t' w f type hm _ w' f' type' ⟨t'', hne', rfl, hm'⟩
  · intro t'
    by_cases hne : t' = t
    · subst hne
      rw [hself]
      exact hdistinct
    · rw [hother t' hne]
      exact h.distinct t'
  · intro t' f n hu
    by_cases hne : t' = t
    · subst hne
      rw [hself] at hu
      exact (huse f n hu).2.2
    · rw [hother t' hne] at hu
      exact h.bump_eq hu

theorem release (hheld : phase.held = []) (huse : phase.uses = none)
    (hfork : ∀ q, phase = .forking q → s.hasTable q = true) : Good filps (x.run t s phase) owners' loose' := by
  refine h.run ht hs ?_ ?_ hfork ?_
  · intro w f type hm
    rw [hheld] at hm
    cases hm
  · rw [hheld]
    exact ⟨List.nodup_nil, List.nodup_nil⟩
  · intro f n hu
    rw [huse] at hu
    cases hu

theorem idle (hp : phase.Idle) : ∃ owners loose, Good filps (x.run t s phase) owners loose := by
  refine ⟨owners', loose', h.release ht hs ?_ ?_ ?_⟩ <;> cases phase <;> first | exact hp.elim | rfl | nofun

omit hs

theorem start
    (htable : x.state.hasTable p = true) (hs : start threads x t t' p = some y) : Good filps y owners loose := by
  obtain ⟨hc, rfl⟩ := guarded hs
  have hne : t' ≠ t := by
    rintro rfl
    rw [hc.2] at ht
    cases ht
  have hdead : (x.run t x.state .user).phase t' = .dead := by
    rw [run_phase_other x x.state .user hne]
    have hd := hc.2
    cases hph : x.phase t' with
    | dead => rfl
    | _ =>
      rw [hph] at hd
      cases hd
  have hr := (h.release ht (h.others t) rfl rfl (by simp)).create hdead htable
  simpa only [System.run, bump_self] using hr

protected theorem enter
    (hs : enter threads x t (x.proc t) x.state a = some y) : ∃ owners' loose', Good filps y owners' loose' := by
  have htable := h.hasTable ht
  have hother := h.others t
  cases a with
  | create t₀ t' => exact ⟨owners, loose, h.start ht htable hs⟩
  | call t₀ kind fd =>
    simp only [enter] at hs
    split at hs
    · cases hs
      exact ⟨owners, loose, h⟩
    rename_i f hget
    cases hs
    obtain ⟨hf, hmem, -⟩ := h.safe.inv.filpGet_mem hget
    refine ⟨owners, loose, h.run ht hother ?_ ⟨List.nodup_nil, List.nodup_nil⟩ (by simp) ?_⟩
    · intro w f' type hm
      cases hm
    · intro f' n hu
      cases hu
      exact ⟨hf, ⟨_, hmem⟩, by rw [bump_self]⟩
  | «open» t₀ closeOnExec offset =>
    simp only [enter] at hs
    split at hs
    · rename_i s' hopen
      cases hs
      exact h.idle ht (hother.openStart_none hopen) trivial
    rename_i s' fd f hopen
    cases hs
    obtain ⟨h₁, hh, ha, -⟩ := hother.openStart_some hopen
    refine ⟨owners, f :: loose, h.run ht h₁ ?_ (by simp [Phase.held]) (by simp) (by simp [Phase.uses])⟩
    intro w f' type hm
    simp only [Phase.held, List.mem_singleton] at hm
    obtain ⟨rfl, rfl, rfl⟩ := hm
    exact ⟨hh, ha⟩
  | pipe t₀ vnode =>
    simp only [enter] at hs
    split at hs
    · rename_i s' hpipe
      cases hs
      exact h.idle ht (hother.pipeStart_none hpipe) trivial
    · rename_i s' fd0 f0 fd1 f1 hpipe
      obtain ⟨h₁, hpair, -⟩ := hother.pipeStart_some hpipe
      split_ifs at hs
      · cases hs
        obtain ⟨h₂, hpair'⟩ := h₁.pipeTypes hpair
        refine ⟨owners, _, h.run ht h₂ ?_ (by simp [Phase.held, hpair.filps, hpair.fds]) (by simp) (by simp [Phase.uses])⟩
        intro w f' type hm
        simp only [Phase.held, List.mem_cons, List.not_mem_nil, or_false] at hm
        rcases hm with ⟨rfl, rfl, rfl⟩ | ⟨rfl, rfl, rfl⟩
        · exact ⟨hpair'.first, hpair'.apart0⟩
        · exact ⟨hpair'.second, hpair'.apart1⟩
      · cases hs
        exact h.idle ht (h₁.pipeFail hpair) trivial
  | createmsgport t₀ superblock vnode =>
    simp only [enter] at hs
    split at hs
    · rename_i s' htake
      cases hs
      exact h.idle ht (hother.openTake_none htake) trivial
    rename_i s' fd f htake
    obtain ⟨h₁, hh, ha, -⟩ := hother.openTake_some htake
    split_ifs at hs
    · cases hs
      refine ⟨owners, f :: loose, h.run ht h₁ ?_ (by simp [Phase.held]) (by simp) (by simp [Phase.uses])⟩
      intro w f' type hm
      simp only [Phase.held, List.mem_singleton] at hm
      obtain ⟨rfl, rfl, rfl⟩ := hm
      exact ⟨hh, ha⟩
    · cases hs
      exact h.idle ht h₁ trivial
    · cases hs
      exact h.idle ht (h₁.openFail hh ha) trivial
  | dup t₀ fd =>
    cases hs
    obtain ⟨owners', loose', h₁, -⟩ := hother.dupFd htable
    exact h.idle ht h₁ trivial
  | dup2 t₀ fd newFd =>
    simp only [enter] at hs
    split_ifs at hs
    · cases hs
      exact ⟨owners, loose, h⟩
    · cases hs
      exact h.idle ht hother trivial
  | fcntl t₀ fd cmd =>
    cases hs
    obtain ⟨owners', loose', h₁, -⟩ := hother.sysFcntl htable
    exact h.idle ht h₁ trivial
  | fork t₀ child beyond =>
    simp only [enter] at hs
    split_ifs at hs with hc
    simp only [Option.some.injEq] at hs
    subst hs
    have hnew : x.state.hasTable child = false := by simpa using hc
    have hk : ∀ q w f type, (x.stakes (· ≠ t)).holding q w f type → q ≠ child := by
      rintro q w f type ⟨t', hne, rfl, hm⟩ rfl
      have hlive : (x.phase t').isDead = false := by
        cases hph : x.phase t' with
        | dead =>
          rw [hph] at hm
          cases hm
        | _ => rfl
      rw [h.hasTable hlive] at hnew
      cases hnew
    obtain ⟨⟨owners', h₁⟩, hhas⟩ := hother.forkFds hnew hk (x.proc t) beyond
    refine ⟨owners', loose, h.release ht h₁ rfl rfl ?_⟩
    rintro q hq
    cases hq
    rw [hhas, update_self]
  | exec t₀ =>
    simp only [enter] at hs
    split at hs
    · rename_i s' hopen
      cases hs
      exact h.idle ht (hother.openStart_none hopen) trivial
    rename_i s' fd f hopen
    cases hs
    obtain ⟨h₁, hh, ha, hhas, -⟩ := hother.openStart_some hopen
    obtain ⟨owners', h₂⟩ := h₁.openDone hh ha (by rw [hhas, htable])
    exact h.idle ht h₂ trivial
  | close t₀ fd =>
    cases hs
    exact h.idle ht hother trivial
  | exit t₀ =>
    simp only [enter, Option.some.injEq] at hs
    subst hs
    exact h.idle ht hother trivial
  | advance t₀ n | «return» t₀ | opened t₀ truncated | piped t₀ copied | mounted t₀ | forked t₀ thread
  | loaded t₀ outcome | resume t₀ => cases hs

omit ht

theorem runSegment {segment : Segment} {rest : List Segment}
    (ht : x.phase t = .running (segment :: rest)) (hk : LeavesAnother x (.resume t))
    (hs : runSegment x t (x.proc t) x.state rest segment = some y) :
    ∃ owners' loose', Good filps y owners' loose' := by
  have hlive : (x.phase t).isDead = false := by rw [ht]; rfl
  have hother := h.others t
  have hleft (q : ProcId) (fd : ℕ) (hc : closing x (.resume t) = some (q, fd)) (f : FilpId)
      (hget : filpGet x.state q fd = some f) (hu : (x.stakes (· ≠ t)).used f) :
      ∃ q' w, ¬ (q' = q ∧ w = fd) ∧ filpGet x.state q' w = some f := by
    obtain ⟨t', n, -, hu⟩ := hu
    obtain ⟨kind, w, hph⟩ := uses_some hu
    exact hk q fd f hc hget ⟨t', kind, w, n, hph⟩
  cases segment with
  | close q fd =>
    cases hs
    obtain ⟨owners', h₁⟩ := hother.doClose (hleft q fd (by simp [closing, ht]))
    exact h.idle hlive h₁ trivial
  | closeOnExec fd =>
    cases hs
    unfold execFd
    split_ifs with hc
    · have hclosing : closing x (.resume t) = some (x.proc t, fd) := by simp [closing, ht, hc]
      have hleft := hleft (x.proc t) fd hclosing
      simp only [← filpGet_setCloseOnExec x.state (x.proc t) fd false] at hleft
      obtain ⟨owners', h₁⟩ := (hother.setCloseOnExec (x.proc t) fd false).doClose hleft
      exact h.idle hlive h₁ trivial
    · exact h.idle hlive hother trivial
  | dup fd newFd =>
    cases hs
    obtain ⟨owners', loose', h₁, -⟩ := hother.dupFd (h.hasTable hlive)
    exact h.idle hlive h₁ trivial
  | killOtherThreads | exitThread =>
    cases hs
    exact h.idle hlive hother trivial

theorem advance {kind : Transfer} {n : ℤ} (ht : x.phase t = .transfer kind fd f opened) :
    Good filps { x.run t (x.state.setFilp f { x.state.filp f with offset := (x.state.filp f).offset + n })
      (.transfer kind fd f opened) with log := ⟨opened, x.generation f⟩ :: x.log } owners loose := by
  have huses : (x.phase t).uses = some (f, opened) := by rw [ht]; rfl
  have hr : Good filps (x.run t (x.state.setFilp f { x.state.filp f with offset := (x.state.filp f).offset + n })
      (.transfer kind fd f opened)) owners loose := by
    refine h.run (by rw [ht]; rfl) ((h.others t).setOffset f _) ?_ ⟨List.nodup_nil, List.nodup_nil⟩ (by simp) ?_
    · intro w f' type hm
      cases hm
    intro f' m hu
    cases hu
    obtain ⟨hf, hown⟩ := h.safe.used f ⟨t, opened, trivial, huses⟩
    exact ⟨hf, hown, h.bump_eq huses⟩
  refine { hr with log := ?_ }
  intro e he
  rcases List.mem_cons.mp he with rfl | he
  · exact h.generation t f opened huses
  · exact h.log e he

protected theorem wake (ha : a.thread = t) (ht : (x.phase t).isDead = false)
    (hk : LeavesAnother x a) (hs : wake threads x t (x.proc t) x.state (x.phase t) a = some y) :
    ∃ owners' loose', Good filps y owners' loose' := by
  have htable := h.hasTable ht
  have hother := h.others t
  generalize hph : x.phase t = ph at hs
  cases ph with
  | dead =>
    rw [hph] at ht
    cases ht
  | user => cases a <;> cases hs
  | transfer kind fd f opened =>
    cases a with
    | advance t₀ n =>
      have hgood := h.advance (n := n) hph
      cases kind with
      | read | write =>
        cases hs
        exact ⟨owners, loose, hgood⟩
      | fstat => cases hs
    | «return» t₀ =>
      cases kind <;>
      · cases hs
        exact h.idle ht hother trivial
    | _ => cases kind <;> cases hs
  | opening fd f closeOnExec offset =>
    have hm : (fd, f, FilpType.vnode) ∈ (x.phase t).held := by simp [hph, Phase.held]
    cases a with
    | opened t₀ truncated =>
      simp only [wake] at hs
      split_ifs at hs
      · cases hs
        obtain ⟨owners', h₁⟩ := hother.openDone (h.held hm) (h.apart t fd f _ hm) htable
        exact h.idle ht h₁ trivial
      · cases hs
        exact h.idle ht (hother.openFail (h.held hm) (h.apart t fd f _ hm)) trivial
    | _ => cases hs
  | mounting fd f =>
    have hm : (fd, f, FilpType.undef) ∈ (x.phase t).held := by simp [hph, Phase.held]
    cases a with
    | mounted t₀ =>
      cases hs
      obtain ⟨owners', h₁⟩ := hother.mountDone (h.held hm) (h.apart t fd f _ hm) htable
      exact h.idle ht h₁ trivial
    | _ => cases hs
  | piping fd0 f0 fd1 f1 =>
    have hm0 : (fd0, f0, FilpType.vnode) ∈ (x.phase t).held := by simp [hph, Phase.held]
    have hm1 : (fd1, f1, FilpType.vnode) ∈ (x.phase t).held := by simp [hph, Phase.held]
    have hdistinct := h.distinct t
    simp only [hph, Phase.held, List.map_cons, List.map_nil, List.nodup_cons, List.mem_singleton, List.not_mem_nil,
      not_false_eq_true, List.nodup_nil, and_true] at hdistinct
    have hpair : (x.stakes (· ≠ t)).Pair filps x.state owners loose (x.proc t) fd0 f0 fd1 f1 .vnode :=
      ⟨h.held hm0, h.held hm1, h.apart t fd0 f0 _ hm0, h.apart t fd1 f1 _ hm1, hdistinct.2, hdistinct.1⟩
    cases a with
    | piped t₀ copied =>
      simp only [wake] at hs
      split_ifs at hs
      · cases hs
        obtain ⟨owners', loose', h₁, -⟩ := hother.pipeDone hpair htable
        exact h.idle ht h₁ trivial
      · cases hs
        exact h.idle ht (hother.pipeFail hpair) trivial
    | _ => cases hs
  | forking child =>
    cases a with
    | forked t₀ thread =>
      cases thread with
      | none =>
        cases hs
        exact h.idle ht hother trivial
      | some t' => exact ⟨owners, loose, h.start ht (h.safe.table child ⟨t, .inr hph⟩) hs⟩
    | _ => cases hs
  | executing fd =>
    cases a with
    | loaded t₀ outcome =>
      cases hs
      exact h.idle ht hother trivial
    | _ => cases hs
  | running segments =>
    cases a with
    | resume t₀ =>
      cases segments with
      | nil =>
        cases hs
        exact h.idle ht hother trivial
      | cons segment rest =>
        obtain rfl : t₀ = t := ha
        exact h.runSegment hph hk hs
    | _ => cases segments <;> cases hs

theorem step (hk : LeavesAnother x a)
    (hs : step threads x a = some y) : ∃ owners' loose', Good filps y owners' loose' := by
  unfold Lifetime.step at hs
  split_ifs at hs
  generalize hph : x.phase a.thread = ph at hs
  cases ph with
  | dead => cases hs
  | user => exact h.enter (by rw [hph]; rfl) hs
  | _ => exact h.wake rfl (by rw [hph]; rfl) hk (by rw [hph]; exact hs)

end Good

theorem filp_alive_during_calls (filps : List FilpId) (threads : List ThreadId)
    (h : Reach (step threads) LeavesAnother (Start filps) x) : Alive x := by
  have hgood : ∃ owners loose, Good filps x owners loose := by
    refine Reach.invariant (P := fun x => ∃ owners loose, Good filps x owners loose) ?_ ?_ h
    · intro x hx
      obtain ⟨owners, hg⟩ := Good.start_state hx
      exact ⟨owners, [], hg⟩
    · rintro x a y ⟨owners, loose, hg⟩ hk hs
      exact hg.step hk hs
  obtain ⟨owners, loose, hg⟩ := hgood
  exact hg.alive

theorem filp_alive_while_shared : ∃ x, Reach (step [0, 1]) LeavesAnother (Start [0, 1, 2]) x ∧
    x.phase 0 = .transfer .read 0 0 1 ∧ (x.state.filp 0).offset = 5 ∧ Alive x := by
  obtain ⟨x, hx, hphase, hoffset⟩ : ∃ x, Runs.exec (step [0, 1]) bootSystem sharing = some x ∧
      x.phase 0 = .transfer .read 0 0 1 ∧ (x.state.filp 0).offset = 5 := ⟨_, rfl, rfl, rfl⟩
  have hmeets : Meets (step [0, 1]) LeavesAnother bootSystem sharing := by
    refine ⟨?_, ?_, ?_, ?_, ?_, ?_, ?_, ?_, trivial⟩
    all_goals
      intro q fd f hc hget hu
      cases hc
    cases hget
    exact ⟨0, 1, by simp, rfl⟩
  have hr := (Reach.start bootSystem_start).exec hmeets hx
  exact ⟨x, hr, hphase, hoffset, filp_alive_during_calls [0, 1, 2] [0, 1] hr⟩

end Runs

end CheviotKernel.Filps.Lifetime
