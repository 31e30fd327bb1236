import CheviotKernel.Fs.Authority

namespace CheviotKernel.Vfs

open Dialogue Access

section Creation

def lastExchange : List Event → Option (Msg × Int)
  | .answered s :: .send msg :: _ => some (msg, s)
  | .send _ :: _ => none
  | _ :: past => lastExchange past
  | [] => none

def Creates (past : List Event) : Event → Prop
  | .send (.create d name oflags _ _ _) =>
    oflags.creat = true ∧ Event.access d none wOk true ∈ past ∧ lastExchange past = some (.lookup d name, -enoent)
  | _ => True

instance (past : List Event) (e : Event) : Decidable (Creates past e) := by
  rcases e with _ | (_ | _ | _ | _ | _) | _ | _ | _ | _ | _ | _ <;> unfold Creates <;> infer_instance

inductive CreateCall
  | open (path : Option (List Char)) (oflags : OFlags) (mode : BitVec 32)
  | exec (path : Option (List Char))

def CreateCall.run (cfg : Layout) : CreateCall → Sys Int
  | .open path oflags mode => sysOpen cfg path oflags mode
  | .exec path => sysExec cfg path

def CreateCall.path : CreateCall → Option (List Char)
  | .open path _ _ => path
  | .exec path => path

def CreateCall.creat : CreateCall → Bool
  | .open _ oflags _ => oflags.creat
  | .exec _ => false

def CreationAuthority (cfg : Layout) (k : Kernel) (c : CreateCall) (answers : List Answer) : Prop :=
  Justified Creates (c.run cfg ⟨k, answers, []⟩).2.log

section

variable (k : Kernel)

def Denied (d : VId) : Prop := (checkAccess k.current (k.accessNode d) none wOk).isOk = false

def Controlled (ld : LookupData) (v : VId) : Prop :=
  ∀ m ∈ (k.vnode v).vnodeMountedHere, isLastComponent ld = true → ld.nofollow = false →
    (k.superblock (k.vnode m).superblock).dev = devTDevTty → sIschr (k.vnode m).mode = true → k.controllingTty ≠ none

def knownVnode (d : VId) (inodeNr : Int) : Option VId :=
  if inodeNr = (k.vnode d).inodeNr then some d else vnodeGet k (k.vnode d).superblock inodeNr

def Entered (ld : LookupData) (d : VId) (inodeNr : Int) : Prop :=
  match knownVnode k d inodeNr with
  | some v => Controlled k ld v
  | none => (vnodeGetNew k (k.vnode d).superblock).isSome = true

def Decided (creat : Bool) (ld : LookupData) (p : VId) (w : World Kernel Answer Event) : Prop :=
  if sIsdir (w.state.vnode p).mode = true then
    ∀ a ∈ w.answers.head?, (a.status = 0 ∧ Entered (a.meanwhile w.state) ld p a.attr.inodeNr) ∨
      (creat = true ∧ (Denied (a.meanwhile w.state) p ∨ a.status = -enoent))
  else creat = true ∧ Denied w.state p

def Found (c : CreateCall) (answers : List Answer) : Prop :=
  ∀ ld w, lookupParent c.path ⟨k, answers, []⟩ = (some (0, ld), w) → ∀ p ∈ ld.vnode, ∀ name ∈ ld.lastComponent,
    name ≠ dot → name ≠ dotdot → Decided c.creat ld p w

def CreateCall.admitted : CreateCall → Bool
  | .open _ _ _ => true
  | .exec _ => k.privExec

end

variable {cfg : Layout}

abbrev State := World Kernel Answer Event

section Walk

variable {ld : LookupData} {d v : VId} {name : Name} {a : Answer} {rest : List Answer} {w w' : State} {k k' : Kernel}

theorem crossMount_eq (ld : LookupData) (v : VId) (w : State) :
    ∃ rc u, crossMount ld v w = (some (rc, { ld with vnode := u }), w) ∧ (u ≠ none ↔ Controlled w.state ld v) := by
  simp only [crossMount, bind_apply, look]
  cases hm : (w.state.vnode v).vnodeMountedHere with
  | none => exact ⟨_, _, rfl, iff_of_true (by simp) fun m h => absurd (hm.symm.trans h) (by simp)⟩
  | some m =>
    simp only [bind_apply, look]
    split_ifs with hc
    · obtain ⟨hlast, hfollow, htty⟩ := hc
      simp only [Bool.and_eq_true, decide_eq_true_eq] at htty
      simp only [bind_apply, look]
      cases ht : w.state.controllingTty with
      | none =>
        refine ⟨_, _, rfl, iff_of_false (by simp) fun h => ?_⟩
        exact h m hm hlast hfollow htty.1 htty.2 ht
      | some t => exact ⟨_, _, rfl, iff_of_true (by simp) fun _ _ _ _ _ _ => by simp [ht]⟩
    · refine ⟨_, _, rfl, iff_of_true (by simp) fun m' hm' hlast hfollow hdev hchr => ?_⟩
      obtain rfl := Option.some.inj (hm.symm.trans hm')
      exact absurd ⟨hlast, hfollow, by simp [hdev, hchr]⟩ hc

def answered (w : State) (msg : Msg) (a : Answer) (rest : List Answer) : State :=
  ⟨a.meanwhile w.state, rest, .answered a.status :: .send msg :: w.log⟩

theorem await_cons (msg : Msg) (h : w.answers = a :: rest) : await (.send msg) w = (some a, answered w msg a rest) := by
  simp only [await, ask, h, answered]

theorem await_nil {e : Event} (h : w.answers = []) : await e w = (none, { w with log := e :: w.log }) := by
  simp only [await, ask, h]

theorem vnodeGetNew_unmounted {sb : SbId} (h : vnodeGetNew k sb = some (v, k')) :
    (k'.vnode v).vnodeMountedHere = none := by
  unfold vnodeGetNew at h
  split_ifs at h
  split at h <;> cases h
  simp [Kernel.setVnode]

theorem newVnode_eq (ld : LookupData) (sb : SbId) (attr : Attr) (w : State) :
    (vnodeGetNew w.state sb = none ∧ newVnode sb attr w = (some (-enomem, none), w)) ∨
      (vnodeGetNew w.state sb).isSome = true ∧
        ∃ v w', newVnode sb attr w = (some (0, some v), w') ∧ Controlled w'.state ld v := by
  simp only [newVnode, bind_apply, look]
  cases hg : vnodeGetNew w.state sb with
  | none => exact .inl ⟨rfl, rfl⟩
  | some fresh =>
    obtain ⟨v, k⟩ := fresh
    refine .inr ⟨rfl, v, { w with state := enterVnode k v attr }, rfl, fun m hm => ?_⟩
    have hnone := vnodeGetNew_unmounted hg
    simp [enterVnode, Kernel.setVnode, hnone] at hm

theorem lookupIn_failed {sc : Int} (h : vfsLookup d name w = (some (sc, none), w')) :
    lookupIn ld d name w = (some (sc, { ld with parent := some d, vnode := none }), w') := by
  rw [lookupIn, bind_some h]
  rcases sc with (_ | n) | n
  all_goals rfl

section Lookup

variable (d : VId) (name : Name) (h : w.answers = a :: rest)

include h

theorem vfsLookup_failed (hs : a.status ≠ 0) :
    vfsLookup d name w = (some (a.status, none), answered w (.lookup d name) a rest) := by
  rw [vfsLookup, bind_some (await_cons _ h), if_pos hs]
  rfl

theorem vfsLookup_found (hs : a.status = 0) :
    vfsLookup d name w = (match knownVnode (a.meanwhile w.state) d a.attr.inodeNr with
      | some v => pure (0, some v)
      | none => newVnode ((a.meanwhile w.state).vnode d).superblock a.attr : Sys (Int × Option VId))
        (answered w (.lookup d name) a rest) := by
  rw [vfsLookup, bind_some (await_cons _ h), if_neg (by simpa using hs)]
  rfl

theorem lookupIn_eq (ld : LookupData) :
    ∃ rc u w', lookupIn ld d name w = (some (rc, { ld with parent := some d, vnode := u }), w') ∧
      (u ≠ none ↔ a.status = 0 ∧ Entered (a.meanwhile w.state) ld d a.attr.inodeNr) ∧
        (u = none → w' = answered w (.lookup d name) a rest) := by
  by_cases hs : a.status = 0
  · have hl := vfsLookup_found d name h hs
    cases hk : knownVnode (a.meanwhile w.state) d a.attr.inodeNr with
    | some v =>
      obtain ⟨rc, u, hcross, hu⟩ := crossMount_eq { ld with parent := some d } v (answered w (.lookup d name) a rest)
      rw [hk] at hl
      refine ⟨rc, u, _, (bind_some hl).trans hcross, hu.trans ?_, fun _ => rfl⟩
      rw [Entered, hk]
      exact (and_iff_right hs).symm
    | none =>
      rw [hk] at hl
      rcases newVnode_eq { ld with parent := some d } ((a.meanwhile w.state).vnode d).superblock a.attr
        (answered w (.lookup d name) a rest) with ⟨hnone, hnew⟩ | ⟨hsome, v, w', hnew, hcontrolled⟩
      · refine ⟨-enomem, none, _, lookupIn_failed (hl.trans hnew), iff_of_false (by simp) ?_, fun _ => rfl⟩
        rw [Entered, hk]
        rintro ⟨-, hsome⟩
        exact absurd hnone (Option.isSome_iff_ne_none.mp hsome)
      · obtain ⟨rc, u, hcross, hu⟩ := crossMount_eq { ld with parent := some d } v w'
        have hne : u ≠ none := hu.mpr hcontrolled
        refine ⟨rc, u, w', (bind_some (hl.trans hnew)).trans hcross, iff_of_true hne ⟨hs, ?_⟩, fun hnone => absurd hnone hne⟩
        rw [Entered, hk]
        exact hsome
  · exact ⟨a.status, none, _, lookupIn_failed (vfsLookup_failed d name h hs), iff_of_false (by simp) fun hc => hs hc.1,
      fun _ => rfl⟩

end Lookup

end Walk

section Reached

def Granted (log : List Event) : Prop := ∀ msg s, lastExchange log = some (msg, s) → s = 0

def Walked (ld : LookupData) (r : Int × LookupData) (w : State) : Prop :=
  r.2.lastComponent = ld.lastComponent ∧ (r.1 = 0 → Granted w.log)

section

variable (ld : LookupData) (d : VId) (name : Name)

theorem vfsLookup_granted : Safe Creates (fun _ => True) (vfsLookup d name) fun r w => r.1 = 0 → Granted w.log := by
  refine Safe.bind (Q := fun a w => lastExchange w.log = some (.lookup d name, a.status))
    (Safe.ask (fun _ _ => trivial) (fun _ _ _ => trivial) fun _ _ _ _ _ => rfl) fun a => ?_
  split_ifs with hs
  · exact Safe.pure fun w _ h0 => absurd h0 hs
  have hgranted (w : State) (hw : lastExchange w.log = some (.lookup d name, a.status)) : Granted w.log := by
    intro msg s h
    rw [← (Prod.mk.inj (Option.some.inj (hw.symm.trans h))).2]
    exact not_ne_iff.mp hs
  refine Safe.bind (Q := fun _ w => Granted w.log) (Safe.look fun w hw => hgranted w hw) fun sb => ?_
  refine Safe.bind (Q := fun _ w => Granted w.log) (Safe.look fun w hw => hw) fun known => ?_
  cases known with
  | some v => exact Safe.pure fun w hw _ => hw
  | none => exact (newVnode_emits sb a.attr).silent.mono (fun _ h => h) fun _ _ h _ => h

theorem crossMount_walked (v : VId) : Safe Creates (fun w => Granted w.log) (crossMount ld v) (Walked ld) := by
  intro w hj hg
  obtain ⟨rc, u, he, -⟩ := crossMount_eq ld v w
  rw [he]
  refine ⟨hj, fun r hr => ?_⟩
  cases hr
  exact ⟨rfl, fun _ => hg⟩

theorem lookupIn_walked : Safe Creates (fun _ => True) (lookupIn ld d name) (Walked ld) := by
  refine (vfsLookup_granted d name).bind fun found => ?_
  split
  · exact (crossMount_walked _ _).mono (fun w hw => hw rfl) fun _ _ h => h
  · exact Safe.pure fun w hw => ⟨rfl, hw⟩

theorem walkComponent_walked : Safe Creates (fun w => Granted w.log) (walkComponent ld d name) (Walked ld) := by
  refine Safe.bind (Q := fun _ w => Granted w.log) (Safe.look fun w hw => hw) fun mode => ?_
  split_ifs
  · exact Safe.pure fun w hw => ⟨rfl, fun _ => hw⟩
  · exact Safe.pure fun w hw => ⟨rfl, fun _ => hw⟩
  · refine Safe.bind (Q := fun _ w => Granted w.log) (Safe.look fun w hw => hw) fun root => ?_
    split_ifs
    · exact Safe.pure fun w hw => ⟨rfl, fun _ => hw⟩
    · exact Safe.bind (Q := fun _ _ => True) (Safe.look fun _ _ => trivial) fun covered => lookupIn_walked _ _ _
  · exact (lookupIn_walked _ _ _).mono (fun _ _ => trivial) fun _ _ h => h

end

theorem lookupPathFrom_granted (n : ℕ) :
    ∀ ld v, Safe Creates (fun w => Granted w.log) (lookupPathFrom n ld v) fun r w => r.1 = 0 → Granted w.log := by
  induction n with
  | zero => exact fun ld v => Safe.pure fun w hw _ => hw
  | succ n ih =>
    intro ld v
    simp only [lookupPathFrom]
    split
    · exact Safe.pure fun w hw _ => hw
    split_ifs
    · exact Safe.pure fun w hw _ => hw
    refine (walkComponent_walked _ _ _).bind fun walked => ?_
    split
    · exact (ih _ _).mono (fun w hw => hw.2 rfl) fun _ _ h => h
    · exact Safe.pure fun w hw => hw.2

theorem lookupParent_granted (path : Option (List Char)) :
    Safe Creates (fun w => Granted w.log) (lookupParent path) fun r w => r.1 = 0 → Granted w.log := by
  refine Safe.bind (Q := fun _ w => Granted w.log) (Safe.look fun w hw => hw) fun pageFree => ?_
  split_ifs
  · exact Safe.pure fun w hw _ => hw
  cases path with
  | none => exact Safe.pure fun w hw _ => hw
  | some path =>
    refine Safe.bind (Q := fun _ w => Granted w.log) (Safe.look fun w hw => hw) fun start => ?_
    refine Safe.bind (Q := fun _ w => Granted w.log) (Safe.look fun w hw => hw) fun mode => ?_
    split_ifs
    · exact Safe.pure fun w hw _ => hw
    · exact Safe.pure fun w hw _ => hw
    · exact lookupPathFrom_granted _ _ _

end Reached

section Messages

def NotCreate : Event → Prop
  | .send (.create _ _ _ _ _ _) => False
  | _ => True

theorem creates_of_notCreate {past : List Event} {e : Event} (h : NotCreate e) : Creates past e := by
  rcases e with _ | (_ | _ | _ | _ | _) | _ | _ | _ | _ | _ | _
  all_goals trivial

variable {α β : Type} {w : State} {m : Sys α}

theorem justified_of_notCreate (h : Emits NotCreate m) (hj : Justified Creates w.log) : Justified Creates (m w).2.log :=
  (h.safe (C := fun _ => True) (fun _ _ _ => trivial) (fun _ _ _ => creates_of_notCreate) w hj trivial).1

theorem justified_bind_iff {f : α → Sys β} (hf : ∀ r, Emits NotCreate (f r)) :
    Justified Creates ((m >>= f) w).2.log ↔ Justified Creates (m w).2.log := by
  refine ⟨fun h => h.of_bind hf, fun h => ?_⟩
  rcases he : m w with ⟨_ | r, w'⟩
  · rw [bind_none he]
    rwa [he] at h
  · rw [bind_some he]
    rw [he] at h
    exact justified_of_notCreate (hf r) h

theorem openVnode_notCreate (v : VId) (oflags : OFlags) : Emits NotCreate (openVnode cfg v oflags) :=
  openVnode_emits (fun _ => trivial) cfg fun _ => trivial

theorem withVnode_notCreate (fd : Int) : Emits NotCreate (sysExec.withVnode cfg fd) := by
  refine (Emits.look _).bind fun filp => ?_
  cases filp with
  | none => exact .pure _
  | some f =>
    refine (Emits.look _).bind fun vnode => ?_
    cases vnode with
    | none => exact .pure _
    | some v =>
      refine (checkAccessOn_emits fun _ _ => trivial).bind fun granted => ?_
      split_ifs
      · exact .pure _
      · exact (await_emits trivial fun _ => trivial).bind fun _ => .pure _

end Messages

section Create

variable {d : VId} {name : Name} {oflags : OFlags} {mode : BitVec 32} {w : State} {uid gid : Id}

theorem vfsCreate_iff (hj : Justified Creates w.log) :
    Justified Creates (vfsCreate d name oflags uid gid mode w).2.log ↔
      Creates w.log (.send (.create d name oflags uid gid mode)) := by
  rw [vfsCreate, look_bind, justified_bind_iff]
  · cases h : w.answers with
    | nil =>
      rw [await_nil h]
      exact and_iff_left hj
    | cons a rest =>
      rw [await_cons _ h]
      exact (and_iff_right trivial).trans (and_iff_left hj)
  · intro reply
    split_ifs
    · exact .pure _
    · exact newVnode_emits _ _

theorem createVnode_iff (hj : Justified Creates w.log) (hdot : name ≠ dot) (hdotdot : name ≠ dotdot) :
    Justified Creates (createVnode d name oflags mode w).2.log ↔
      oflags.creat = true ∧ (Denied w.state d ∨ lastExchange w.log = some (.lookup d name, -enoent)) := by
  have hname : ¬(name = dot ∨ name = dotdot) := fun h => h.elim hdot hdotdot
  have hcreate (x : State) (hx : Justified Creates x.log) :
      Justified Creates ((look Kernel.uid >>= fun uid => look Kernel.gid >>= fun gid =>
        vfsCreate d name oflags uid gid mode) x).2.log ↔
          Creates x.log (.send (.create d name oflags x.state.uid x.state.gid mode)) := by
    rw [look_bind, look_bind, vfsCreate_iff hx]
  unfold createVnode
  cases hc : oflags.creat with
  | false =>
    have hnot : createRefused d oflags w = (some false, w) := by
      rw [createRefused, if_neg (by simp [hc])]
      rfl
    rw [bind_some hnot, if_neg Bool.false_ne_true, if_neg hname, hcreate w hj]
    simp [Creates, hc]
  | true =>
    obtain ⟨granted, hgranted, hcheck⟩ := checkAccessOn_eq d none wOk w
    have hrefused : createRefused d oflags w = (some !granted, { w with log := .access d none wOk granted :: w.log }) := by
      rw [createRefused, if_pos hc, bind_some hcheck]
      rfl
    have hdenied : Denied w.state d ↔ granted = false := by rw [hgranted]; rfl
    rw [bind_some hrefused, hdenied]
    cases granted with
    | false => exact iff_of_true ⟨trivial, hj⟩ ⟨rfl, .inl rfl⟩
    | true =>
      rw [Bool.not_true, if_neg Bool.false_ne_true, if_neg hname, hcreate { w with log := .access d none wOk true :: w.log } ⟨trivial, hj⟩]
      simp [Creates, hc, lastExchange]

theorem createVnode_dot (h : name = dot ∨ name = dotdot) : Emits NotCreate (createVnode d name oflags mode) := by
  refine (createRefused_emits fun _ _ => trivial).bind fun refused => ?_
  split_ifs <;> exact .pure _

end Create

section Last

variable {ld : LookupData} {d p v : VId} {name : Name} {oflags : OFlags} {mode : BitVec 32} {w : State}

theorem doOpen_found (hv : ld.vnode = some v) : Emits NotCreate (doOpen cfg ld oflags mode) := by
  unfold doOpen
  rw [hv]
  exact openVnode_notCreate _ _

theorem doOpen_unnamed (hv : ld.vnode = none) (h : ld.parent = none ∨ ld.lastComponent = none) :
    Emits NotCreate (doOpen cfg ld oflags mode) := by
  unfold doOpen
  rw [hv]
  rcases h with hp | hn
  · rw [hp]
    exact .pure _
  rw [hn]
  cases ld.parent with
  | none | some d => exact .pure _

theorem doOpen_missing (ld : LookupData) (hv : ld.vnode = none) (hp : ld.parent = some d) (hn : ld.lastComponent = some name) :
    Justified Creates (doOpen cfg ld oflags mode w).2.log ↔ Justified Creates (createVnode d name oflags mode w).2.log := by
  unfold doOpen
  rw [hv, hp, hn]
  refine justified_bind_iff fun created => ?_
  split
  · exact openVnode_notCreate _ _
  · exact .pure _

theorem doOpen_dot (h : ld.lastComponent = some dot ∨ ld.lastComponent = some dotdot) :
    Emits NotCreate (doOpen cfg ld oflags mode) := by
  unfold doOpen
  split
  · exact openVnode_notCreate _ _
  · rename_i d name _ _ hn
    have hname : name = dot ∨ name = dotdot :=
      h.imp (fun h => Option.some.inj (hn.symm.trans h)) fun h => Option.some.inj (hn.symm.trans h)
    refine (createVnode_dot hname).bind fun created => ?_
    split
    · exact openVnode_notCreate _ _
    · exact .pure _
  · exact .pure _

theorem walk_iff (ld : LookupData) (hj : Justified Creates w.log) (hg : Granted w.log) (hv : ld.vnode = none) (hp : ld.parent = some p)
    (hn : ld.lastComponent = some name) (hdot : name ≠ dot) (hdotdot : name ≠ dotdot) :
    Justified Creates ((walkComponent ld p name >>= fun walked => doOpen cfg walked.2 oflags mode) w).2.log ↔
      Decided oflags.creat ld p w := by
  by_cases hdir : sIsdir (w.state.vnode p).mode = true
  · have hwalk : walkComponent ld p name w = lookupIn ld p name w := by
      rw [walkComponent, look_bind, if_neg (by simp [hdir]), if_neg hdot, if_neg hdotdot]
    rw [Decided, if_pos hdir]
    cases ha : w.answers with
    | nil =>
      have hwait : lookupIn ld p name w = (none, { w with log := .send (.lookup p name) :: w.log }) := by
        exact bind_none (bind_none (await_nil ha))
      rw [bind_none (hwalk.trans hwait)]
      exact iff_of_true ⟨trivial, hj⟩ (by simp)
    | cons a rest =>
      obtain ⟨rc, u, w', hlookup, hu, hw'⟩ := lookupIn_eq p name ha ld
      rw [bind_some (hwalk.trans hlookup)]
      have hlog : Justified Creates (lookupIn ld p name w).2.log :=
        justified_of_notCreate (lookupIn_emits (fun _ _ => trivial) (fun _ => trivial) _ _ _) hj
      rw [hlookup] at hlog
      cases u with
      | some v =>
        have hfound := hu.mp (by simp)
        refine iff_of_true (justified_of_notCreate (doOpen_found rfl) hlog) fun a' ha' => .inl ?_
        obtain rfl := Option.some.inj ha'
        exact hfound
      | none =>
        obtain rfl := hw' rfl
        refine (doOpen_missing { ld with parent := some p, vnode := none } rfl rfl hn).trans ?_
        rw [createVnode_iff hlog hdot hdotdot]
        have hmissing := mt hu.mpr (by simp)
        simp only [List.head?_cons, Option.mem_def, Option.some.injEq, forall_eq', hmissing]
        simp [answered, lastExchange]
  · have hwalk : walkComponent ld p name w = (some (-enotdir, ld), w) := by
      rw [walkComponent, look_bind, if_pos (by simpa using hdir)]
      rfl
    rw [bind_some hwalk, doOpen_missing ld hv hp hn, createVnode_iff hj hdot hdotdot, Decided, if_neg hdir]
    have hlast : lastExchange w.log ≠ some (.lookup p name, -enoent) := fun h => absurd (hg _ _ h) (by decide)
    simp [hlast]

theorem lastComponent_iff (hj : Justified Creates w.log) (hg : Granted w.log) :
    Justified Creates ((lookupLastComponent ld >>= fun last => doOpen cfg last.2 oflags mode) w).2.log ↔
      ∀ p ∈ ld.vnode, ∀ name ∈ ld.lastComponent, name ≠ dot → name ≠ dotdot → Decided oflags.creat ld p w := by
  unfold lookupLastComponent
  split
  · rename_i p name hv hn
    by_cases hdots : name = dot ∨ name = dotdot
    · refine iff_of_true ?_ fun p' _ name' hn' hdot hdotdot => ?_
      · refine (Safe.bind (R := fun _ _ => True) (walkComponent_walked _ p name) (fun walked => ?_) w hj hg).1
        intro x hx hwalked
        have hlast : walked.2.lastComponent = some name := hwalked.1.trans hn
        refine ⟨justified_of_notCreate (doOpen_dot ?_) hx, fun _ _ => trivial⟩
        exact hdots.imp (fun h : name = dot => h ▸ hlast) fun h : name = dotdot => h ▸ hlast
      · obtain rfl := Option.some.inj (hn.symm.trans hn')
        exact (hdots.elim hdot hdotdot).elim
    · obtain ⟨hdot, hdotdot⟩ := not_or.mp hdots
      refine (walk_iff { ld with vnode := none, parent := some p } hj hg rfl rfl hn hdot hdotdot).trans ?_
      constructor
      · intro h p' hp' _ _ _ _
        obtain rfl := Option.some.inj (hv.symm.trans hp')
        exact h
      · exact fun h => h p hv name hn hdot hdotdot
  · rename_i hne
    refine iff_of_true (justified_of_notCreate (doOpen_unnamed rfl ?_) hj) fun p hp name hn => absurd hn (hne p name hp)
    cases hv : ld.vnode with
    | none => exact .inl rfl
    | some p =>
      cases hn : ld.lastComponent with
      | none => exact .inr rfl
      | some name => exact absurd hn (hne p name hv)

theorem lookup_iff {k : Kernel} {answers : List Answer} (path : Option (List Char)) {t : LookupData → Sys Int}
    (ht : ∀ ld w, Justified Creates ((lookupLastComponent ld >>= fun last => t last.2) w).2.log ↔
      Justified Creates ((lookupLastComponent ld >>= fun last => doOpen cfg last.2 oflags mode) w).2.log) :
    Justified Creates
        ((lookup path >>= fun found => if found.1 ≠ 0 then pure found.1 else t found.2) ⟨k, answers, []⟩).2.log ↔
      ∀ ld w, lookupParent path ⟨k, answers, []⟩ = (some (0, ld), w) → ∀ p ∈ ld.vnode, ∀ name ∈ ld.lastComponent,
        name ≠ dot → name ≠ dotdot → Decided oflags.creat ld p w := by
  obtain ⟨hj, hg⟩ := lookupParent_granted path ⟨k, answers, []⟩ trivial fun _ _ h => absurd h (by simp [lastExchange])
  rw [lookup, bind_assoc_apply]
  rcases he : lookupParent path ⟨k, answers, []⟩ with ⟨_ | ⟨rc, ld⟩, w⟩
  · rw [bind_none he]
    rw [he] at hj
    exact iff_of_true hj fun ld w h => absurd h (by simp)
  rw [bind_some he]
  rw [he] at hj hg
  by_cases hrc : rc = 0
  · subst hrc
    rw [if_neg (by simp), bind_assoc_apply]
    change Justified Creates ((lookupLastComponent ld >>= fun last => t last.2) w).2.log ↔ _
    rw [ht, lastComponent_iff hj (hg _ rfl rfl)]
    constructor
    · intro h ld' w' h'
      obtain ⟨h1, rfl⟩ := Prod.mk.inj h'
      obtain ⟨-, rfl⟩ := Prod.mk.inj (Option.some.inj h1)
      exact h
    · exact fun h => h ld w rfl
  · rw [if_pos hrc]
    refine iff_of_true ?_ fun ld' w' h' => ?_
    · change Justified Creates ((if rc ≠ 0 then pure rc else t ld : Sys Int) w).2.log
      rw [if_pos hrc]
      exact hj
    · exact absurd (Prod.mk.inj (Option.some.inj (Prod.mk.inj h').1)).1 hrc

theorem exec_iff (ld : LookupData) (w : State) :
    Justified Creates ((lookupLastComponent ld >>= fun last => doOpen cfg last.2 oRdonly 0 >>= fun fd =>
        if fd < 0 then pure (-enoent) else sysExec.withVnode cfg fd) w).2.log ↔
      Justified Creates ((lookupLastComponent ld >>= fun last => doOpen cfg last.2 oRdonly 0) w).2.log := by
  rw [← bind_assoc_apply]
  refine justified_bind_iff fun fd => ?_
  split_ifs
  · exact .pure _
  · exact withVnode_notCreate fd

end Last

end Creation

theorem creation_authority_iff_found (cfg : Layout) (k : Kernel) (c : CreateCall) (answers : List Answer) :
    CreationAuthority cfg k c answers ↔ (c.admitted k = true → Found k c answers) := by
  cases c with
  | «open» path oflags mode =>
    exact (lookup_iff (t := fun ld => doOpen cfg ld oflags mode) path fun _ _ => Iff.rfl).trans ⟨fun h _ => h, fun h => h rfl⟩
  | exec path =>
    change Justified Creates (sysExec cfg path ⟨k, answers, []⟩).2.log ↔ _
    rw [sysExec, look_bind]
    by_cases hp : k.privExec = true
    · rw [if_neg (by simp [hp])]
      exact (lookup_iff (t := fun ld => doOpen cfg ld oRdonly 0 >>= fun fd =>
        if fd < 0 then pure (-enoent) else sysExec.withVnode cfg fd) path exec_iff).trans ⟨fun h _ => h, fun h => h hp⟩
    · rw [if_pos (by simpa using hp)]
      exact iff_of_true trivial fun h => absurd h hp

def oCreat : OFlags := ⟨.rdwr, true, false, false, false⟩

theorem creation_without_authority :
    ¬CreationAuthority sampleLayout sampleKernel (.exec (some ['f'])) [replyWith (-enoent) 0] ∧
      ¬CreationAuthority sampleLayout sampleKernel (.open (some ['f']) oRdonly 0) [replyWith (-enoent) 0] ∧
        ¬CreationAuthority sampleLayout sampleKernel (.open (some ['f']) oCreat 0o644) [replyWith (-eio) 0] := by
  unfold CreationAuthority
  decide

end CheviotKernel.Vfs
