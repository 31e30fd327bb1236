import CheviotKernel.Fs.File
import CheviotKernel.Fs.Lookup

namespace CheviotKernel.Vfs

open Dialogue Access

section Emissions

variable {A : Event → Prop} {d v : VId}

theorem await_emits {e : Event} (he : A e) (ha : ∀ s, A (.answered s)) : Emits A (await e) :=
  .ask he fun a => ha a.status

theorem vfsTransfer_emits {request : Int → Msg} (h : ∀ x, A (.send (request x))) (ha : ∀ s, A (.answered s))
    (offset : Cursor) : Emits A (vfsTransfer request offset) := by
  refine (Emits.look _).bind fun x => (await_emits (h x) ha).bind fun reply => ?_
  split_ifs
  · exact .pure _
  · exact (Emits.alter _).bind fun _ => .pure _

theorem newVnode_emits (sb : SbId) (attr : Attr) : Emits A (newVnode sb attr) := by
  refine (Emits.look _).bind fun fresh => ?_
  rcases fresh with _ | ⟨v, k⟩
  · exact .pure _
  · exact (Emits.alter _).bind fun _ => .pure _

theorem vfsLookup_emits {name : Name} (h : A (.send (.lookup d name))) (ha : ∀ s, A (.answered s)) :
    Emits A (vfsLookup d name) := by
  refine (await_emits h ha).bind fun reply => ?_
  split_ifs
  · exact .pure _
  refine (Emits.look _).bind fun sb => (Emits.look _).bind fun known => ?_
  cases known with
  | none => exact newVnode_emits sb reply.attr
  | some v => exact .pure _

theorem checkAccessOn_emits {filp : Option FilpId} {d : BitVec 32} (h : ∀ mode b, A (.access v mode d b)) :
    Emits A (checkAccessOn v filp d) :=
  (Emits.look _).bind fun mode => (Emits.look _).bind fun b => (Emits.emit (h mode b)).bind fun _ => .pure _

end Emissions

section Lookup

variable {A : Event → Prop} (hl : ∀ d name, A (.send (.lookup d name))) (ha : ∀ s, A (.answered s))

theorem crossMount_emits (ld : LookupData) (v : VId) : Emits A (crossMount ld v) := by
  refine (Emits.look _).bind fun here => ?_
  cases here with
  | none => exact .pure _
  | some m =>
    refine (Emits.look _).bind fun tty => ?_
    split_ifs
    · refine (Emits.look _).bind fun controlling => ?_
      cases controlling <;> exact .pure _
    · exact .pure _

include hl ha

section

variable (ld : LookupData) (d : VId) (name : Name)

theorem lookupIn_emits : Emits A (lookupIn ld d name) := by
  refine (vfsLookup_emits (hl d name) ha).bind fun found => ?_
  split
  · exact crossMount_emits _ _
  · exact .pure _

theorem walkComponent_emits : Emits A (walkComponent ld d name) := by
  refine (Emits.look _).bind fun mode => ?_
  split_ifs
  · exact .pure _
  · exact .pure _
  · refine (Emits.look _).bind fun root => ?_
    split_ifs
    · exact .pure _
    · exact (Emits.look _).bind fun covered => lookupIn_emits hl ha _ _ _
  · exact lookupIn_emits hl ha _ _ _

theorem lookupLastComponent_emits : Emits A (lookupLastComponent ld) := by
  unfold lookupLastComponent
  split
  · exact walkComponent_emits hl ha _ _ _
  · exact .pure _

end

theorem lookupPathFrom_emits (n : ℕ) : ∀ ld v, Emits A (lookupPathFrom n ld v) := by
  induction n with
  | zero => exact fun ld v => .pure _
  | succ n ih =>
    intro ld v
    simp only [lookupPathFrom]
    split
    · exact .pure _
    split_ifs
    · exact .pure _
    refine (walkComponent_emits hl ha _ _ _).bind fun walked => ?_
    split
    · exact ih _ _
    · exact .pure _

theorem lookupParent_emits (path : Option (List Char)) : Emits A (lookupParent path) := by
  refine (Emits.look _).bind fun pageFree => ?_
  split_ifs
  · exact .pure _
  cases path with
  | none => exact .pure _
  | some path =>
    refine (Emits.look _).bind fun start => (Emits.look _).bind fun mode => ?_
    split_ifs
    · exact .pure _
    · exact .pure _
    · exact lookupPathFrom_emits hl ha _ _ _

theorem lookup_emits (path : Option (List Char)) : Emits A (lookup path) := by
  refine (lookupParent_emits hl ha path).bind fun reached => ?_
  split_ifs
  · exact .pure _
  · exact (lookupLastComponent_emits hl ha _).bind fun _ => .pure _

end Lookup

section Open

variable {A : Event → Prop} (ha : ∀ s, A (.answered s))

include ha

theorem truncateOnOpen_emits {v : VId} {oflags : OFlags} (ht : oflags.trunc = true → A (.send (.truncate v 0))) :
    Emits A (truncateOnOpen v oflags) := by
  refine (Emits.look _).bind fun mode => ?_
  split_ifs with hc
  · exact (await_emits (ht hc.1) ha).bind fun _ => .pure _
  · exact .pure _

theorem openVnode_emits (cfg : Layout) {v : VId} {oflags : OFlags} (ht : oflags.trunc = true → A (.send (.truncate v 0))) :
    Emits A (openVnode cfg v oflags) := by
  refine (Emits.look _).bind fun slot => ?_
  rcases slot with _ | ⟨fd, k⟩
  · exact .pure _
  refine (Emits.alter _).bind fun _ => (Emits.look _).bind fun fresh => ?_
  rcases fresh with _ | ⟨f, k⟩
  · exact (Emits.alter _).bind fun _ => .pure _
  refine (Emits.alter _).bind fun _ => (truncateOnOpen_emits ha ht).bind fun sc => ?_
  split_ifs <;> exact (Emits.alter _).bind fun _ => .pure _

omit ha in
theorem createRefused_emits {d : VId} {oflags : OFlags} (hacc : ∀ m b, A (.access d m wOk b)) :
    Emits A (createRefused d oflags) := by
  unfold createRefused
  split_ifs
  · exact (checkAccessOn_emits hacc).bind fun _ => .pure _
  · exact .pure _

end Open

section Write

variable {A : Event → Prop} {v : VId} (hw : ∀ x n, A (.send (.write v x n))) (ha : ∀ s, A (.answered s))

theorem bread_emits (hr : ∀ x n, A (.send (.read v x n))) (ha : ∀ s, A (.answered s)) {x : Int}
    (hg : A (.getblk v x)) : Emits A (bread v x) := by
  refine (await_emits hg ha).bind fun page => ?_
  split
  · exact .pure _
  · exact .pure _
  · exact (vfsTransfer_emits (fun y => hr y _) ha _).bind fun _ => .pure _

theorem breadZero_emits (ha : ∀ s, A (.answered s)) {x : Int} (hg : A (.getblk v x)) : Emits A (breadZero v x) :=
  (await_emits hg ha).bind fun _ => .pure _

theorem clusterPage_emits (hr : ∀ x n, A (.send (.read v x n))) (ha : ∀ s, A (.answered s)) {size x : Int}
    (hg : A (.getblk v x)) : Emits A (clusterPage v size x) := by
  unfold clusterPage
  split_ifs
  · exact bread_emits hr ha hg
  · exact breadZero_emits ha hg

theorem charWait_emits (ha : ∀ s, A (.answered s)) (hs : A (.sleep v)) (flag : VNode → Bool) (u : Unit) :
    Emits A (charWait flag v u) := by
  refine (Emits.look _).bind fun busy => ?_
  split_ifs
  · refine (await_emits hs ha).bind fun reply => ?_
    split_ifs <;> exact .pure _
  · exact .pure _

include hw ha

theorem bwrite_emits (x : Int) : Emits A (bwrite v x) :=
  (Emits.look _).bind fun _ => (vfsTransfer_emits (fun y => hw y _) ha _).bind fun _ => .pure _

theorem writeToFile_emits (hr : ∀ x n, A (.send (.read v x n))) (hg : ∀ x, A (.getblk v x)) (hc : ∀ x n, A (.copy x n))
    (sz : ℕ) (f : FilpId) : Emits A (writeToFile v sz f) := by
  refine Emits.loop (fun total => ?_) 0
  unfold writeRound
  split
  · refine (Emits.look _).bind fun offset => (Emits.look _).bind fun size =>
      (clusterPage_emits hr ha (hg _)).bind fun page => ?_
    split_ifs
    · exact .pure _
    refine (await_emits (hc _ _) ha).bind fun reply => ?_
    split_ifs
    · exact .pure _
    · exact (Emits.alter _).bind fun _ => (Emits.alter _).bind fun _ => (bwrite_emits hw ha _).bind fun _ => .pure _
  · exact .pure _

theorem writeToBlock_emits (sz : ℕ) (offset : Cursor) : Emits A (writeToBlock v sz offset) := by
  refine Emits.loop (fun total => ?_) 0
  unfold blockRound
  split
  · refine (vfsTransfer_emits (fun x => hw x _) ha offset).bind fun xfered => ?_
    split_ifs <;> exact .pure _
  · exact .pure _

theorem writeToChar_emits (hs : A (.sleep v)) (sz : ℕ) : Emits A (writeToChar v sz) := by
  refine (Emits.loop (charWait_emits ha hs _) ()).bind fun interrupted => ?_
  split_ifs
  · exact .pure _
  refine (Emits.alter _).bind fun _ => (Emits.loop (fun count => ?_) (sz, 0, 0)).bind fun retval =>
    (Emits.alter _).bind fun _ => .pure _
  unfold charRound
  split
  · refine (vfsTransfer_emits (fun x => hw x _) ha _).bind fun xfered => ?_
    split_ifs <;> exact .pure _
  · exact .pure _

theorem writeByType_emits (hr : ∀ x n, A (.send (.read v x n))) (hg : ∀ x, A (.getblk v x)) (hc : ∀ x n, A (.copy x n))
    (hs : A (.sleep v)) (hp : ∀ n, A (.pipe v n)) (f : FilpId) (sz : ℕ) : Emits A (writeByType f v sz) := by
  refine (Emits.look _).bind fun mode => ?_
  split_ifs
  · exact writeToChar_emits hw ha hs sz
  · exact writeToFile_emits hw ha hr hg hc sz f
  · exact (await_emits (hp sz) ha).bind fun _ => .pure _
  · exact writeToBlock_emits hw ha sz _
  · exact .pure _
  · exact .pure _

end Write

section WriteAuthority

def Msg.modifies : Msg → Option VId
  | .write v _ _ => some v
  | .truncate v _ => some v
  | _ => none

def Event.creates : Event → Bool
  | .send (.create ..) => true
  | _ => false

def Authorised (mode : Option OpenMode) (past : List Event) : Event → Prop
  | .send msg => ∀ v ∈ msg.modifies, Event.access v mode wOk true ∈ past ∨ past.any Event.creates = true
  | _ => True

instance (mode : Option OpenMode) (past : List Event) (e : Event) : Decidable (Authorised mode past e) := by
  cases e <;> unfold Authorised <;> infer_instance

inductive WriteCall
  | write (fd : Int) (src sz : ℕ)
  | pwritev (fd : Int) (iov : Option (List ℕ)) (iovCnt : Int) (offset : Option (Option Int))
  | truncate (fd : Int) (sz : ℕ)
  | open (path : Option (List Char)) (oflags : OFlags) (mode : BitVec 32)

variable (cfg : Layout) (k : Kernel)

def WriteCall.run : WriteCall → Sys Int
  | .write fd src sz => sysWrite cfg fd src sz
  | .pwritev fd iov iovCnt offset => sysPwritev cfg fd iov iovCnt offset
  | .truncate fd sz => sysTruncate cfg fd sz
  | .open path oflags mode => sysOpen cfg path oflags mode

def modeOfFd (fd : Int) : Option OpenMode := (filpGet cfg k fd).map fun f => (k.filp f).flags.accMode

def WriteCall.openMode : WriteCall → Option OpenMode
  | .write fd _ _ => modeOfFd cfg k fd
  | .pwritev fd _ _ _ => modeOfFd cfg k fd
  | .truncate fd _ => modeOfFd cfg k fd
  | .open _ oflags _ => some oflags.accMode

def WriteAuthority (c : WriteCall) (answers : List Answer) : Prop :=
  k.current.euid ≠ superuser → Justified (Authorised (c.openMode cfg k)) (c.run cfg ⟨k, answers, []⟩).2.log

def FdVnode (fd : Int) (P : FilpId → VId → Prop) : Prop :=
  ∀ f ∈ filpGet cfg k fd, ∀ v ∈ vnodeGetFromFilp k f, P f v

def Opens (k : Kernel) : Prop := ∃ slot, fdAlloc k 0 cfg.filedescMax = some slot ∧ (filpGetNew slot.2).isSome = true

def Readable (f : FilpId) (v : VId) : Prop :=
  (checkAccess k.current (k.accessNode v) (some (k.filp f).flags.accMode) rOk).isOk = true

def Unmodified (answers : List Answer) : WriteCall → Prop
  | .write _ _ _ => True
  | .pwritev fd iov iovCnt offset => 1 ≤ iovCnt → iovCnt ≤ cfg.iovMax → iov ≠ none → offset ≠ some none →
      FdVnode cfg k fd fun f v => sIsblk (k.vnode v).mode = true → ¬Readable k f v
  | .truncate fd _ => FdVnode cfg k fd fun _ v => sIsreg (k.vnode v).mode = false
  | .open path oflags _ => oflags.trunc = true → ∀ ld w, lookup path ⟨k, answers, []⟩ = (some (0, ld), w) →
      ∀ v ∈ ld.vnode, sIsreg (w.state.vnode v).mode = true → ¬Opens cfg w.state

variable {cfg k} {mode : Option OpenMode} {α : Type} {v : VId} {past : List Event} {e : Event}
  {fd noVnode iovCnt : Int} {body : FilpId → VId → Sys Int} {w : World Kernel Answer Event}
  {offset : Option (Option Int)} {J : List Event → Event → Prop}

def Only (v : VId) : Event → Prop
  | .send msg => ∀ u ∈ msg.modifies, u = v
  | _ => True

def Harmless : Event → Prop
  | .send msg => msg.modifies = none
  | _ => True

theorem authorised_of_only (h : Event.access v mode wOk true ∈ past) (he : Only v e) : Authorised mode past e := by
  cases e with
  | send msg =>
    intro u hu
    rw [he u hu]
    exact .inl h
  | _ => trivial

theorem authorised_of_harmless (he : Harmless e) : Authorised mode past e := by
  cases e with
  | send msg =>
    have hm : msg.modifies = none := he
    intro u hu
    rw [hm] at hu
    exact absurd hu (by simp)
  | _ => trivial

theorem authorised_of_created (h : past.any Event.creates = true) : Authorised mode past e := by
  cases e with
  | send msg => exact fun _ _ => .inr h
  | _ => trivial

theorem authorised_of_emits {m : Sys α} (h : Emits Harmless m) (w : World Kernel Answer Event)
    (hj : Justified (Authorised mode) w.log) : Justified (Authorised mode) (m w).2.log := by
  have hs := h.safe (J := Authorised mode) (C := fun _ => True) (fun _ _ _ => trivial)
    fun _ _ _ he => authorised_of_harmless he
  exact (hs w hj trivial).1

theorem writeByType_only (f : FilpId) (v : VId) (sz : ℕ) : Emits (Only v) (writeByType f v sz) := by
  refine writeByType_emits ?_ ?_ ?_ ?_ ?_ ?_ ?_ f sz
  · intro x n u hu
    exact (Option.some.inj hu).symm
  · exact fun _ => trivial
  · intro x n u hu
    exact absurd hu (by simp [Msg.modifies])
  all_goals intros; trivial

theorem withFilp_eq :
    withFilp cfg fd noVnode body w = match filpGet cfg w.state fd with
      | none => (some (-ebadf), w)
      | some f => match vnodeGetFromFilp w.state f with
          | none => (some noVnode, w)
          | some v => body f v w := by
  simp only [withFilp, bind_apply, look]
  cases filpGet cfg w.state fd with
  | none => rfl
  | some f =>
    simp only [bind_apply, look]
    cases vnodeGetFromFilp w.state f <;> rfl

theorem checkAccessOn_eq (v : VId) (filp : Option FilpId) (d : BitVec 32) (w : World Kernel Answer Event) :
    ∃ b, b = (checkAccess w.state.current (w.state.accessNode v) (filp.map fun f => (w.state.filp f).flags.accMode) d).isOk ∧
      checkAccessOn v filp d w =
        (some b, { w with log := .access v (filp.map fun f => (w.state.filp f).flags.accMode) d b :: w.log }) :=
  ⟨_, rfl, rfl⟩

theorem sysWrite_authorised (fd : Int) (src sz : ℕ) (answers : List Answer) :
    Justified (Authorised (modeOfFd cfg k fd)) (sysWrite cfg fd src sz ⟨k, answers, []⟩).2.log := by
  unfold sysWrite
  split_ifs
  · trivial
  rw [withFilp_eq]
  cases hf : filpGet cfg k fd with
  | none => trivial
  | some f =>
    cases hv : vnodeGetFromFilp k f with
    | none => simp only [hv]; trivial
    | some v =>
      simp only [hv]
      obtain ⟨b, -, hb⟩ := checkAccessOn_eq v (some f) wOk ⟨k, answers, []⟩
      rw [bind_some hb]
      cases b with
      | false => exact ⟨trivial, trivial⟩
      | true =>
        have hmode : modeOfFd cfg k fd = some (k.filp f).flags.accMode := by rw [modeOfFd, hf]; rfl
        rw [hmode]
        have hs := (writeByType_only f v sz).safe (J := Authorised (some (k.filp f).flags.accMode))
          (fun past e h => List.mem_cons_of_mem e h) fun past e h he => authorised_of_only h he
        refine (hs _ ?_ List.mem_cons_self).1
        exact ⟨trivial, trivial⟩

theorem withFilp_authorised_iff {answers : List Answer} {P : FilpId → VId → Prop}
    (h : ∀ f v, Justified (Authorised mode) (body f v ⟨k, answers, []⟩).2.log ↔ P f v) :
    Justified (Authorised mode) (withFilp cfg fd noVnode body ⟨k, answers, []⟩).2.log ↔ FdVnode cfg k fd P := by
  rw [withFilp_eq]
  cases hf : filpGet cfg k fd with
  | none => exact iff_of_true trivial fun f hf' => absurd (hf.symm.trans hf') (by simp)
  | some f =>
    simp only
    cases hv : vnodeGetFromFilp k f with
    | none =>
      refine iff_of_true trivial fun f' hf' v hv' => ?_
      obtain rfl := Option.some.inj (hf.symm.trans hf')
      exact absurd (hv.symm.trans hv') (by simp)
    | some v =>
      rw [h f v]
      constructor
      · intro hp f' hf' v' hv'
        obtain rfl := Option.some.inj (hf.symm.trans hf')
        obtain rfl := Option.some.inj (hv.symm.trans hv')
        exact hp
      · exact fun hp => hp f hf v hv

def pwritevOn (iov : List ℕ) (iovCnt : Int) (offset : Option (Option Int)) (f : FilpId) (v : VId) : Sys Int := do
  let granted ← checkAccessOn v (some f) rOk
  if granted = true then do
    let mode ← look fun k => (k.vnode v).mode
    if sIsblk mode then writeToBlockv v iov iovCnt.toNat (givenCursor f offset) else pure (-ebadf)
  else pure (-eacces)

theorem sysPwritev_eq {iov : List ℕ} (hlo : 1 ≤ iovCnt) (hhi : iovCnt ≤ cfg.iovMax) (ho : offset ≠ some none) :
    sysPwritev cfg fd (some iov) iovCnt offset = withFilp cfg fd (-einval) (pwritevOn iov iovCnt offset) := by
  unfold sysPwritev
  rw [if_neg (by omega)]
  rcases offset with _ | _ | x
  · rfl
  · exact absurd rfl ho
  · rfl

theorem sysPwritev_refused {iov : Option (List ℕ)}
    (h : ¬(1 ≤ iovCnt ∧ iovCnt ≤ cfg.iovMax) ∨ iov = none ∨ offset = some none) :
    ∃ rc, sysPwritev cfg fd iov iovCnt offset = pure rc := by
  unfold sysPwritev
  split_ifs with hb
  · exact ⟨_, rfl⟩
  rcases h with h | rfl | rfl
  · exact absurd (by omega) h
  · exact ⟨_, rfl⟩
  · cases iov <;> exact ⟨_, rfl⟩

theorem vfsTransfer_justified {request : Int → Msg} {offset : Cursor} (hj : Justified J (vfsTransfer request offset w).2.log) :
    J w.log (.send (request (offset.offset w.state))) := by
  refine Justified.of_ask (A := fun _ => True) (fun reply => ?_) hj
  split_ifs
  · exact .pure _
  · exact (Emits.alter _).bind fun _ => .pure _

theorem vfsTruncate_justified {size : ℕ}
    (hj : Justified J (vfsTruncate v size w).2.log) : J w.log (.send (.truncate v size)) :=
  Justified.of_ask (A := fun _ => True) (fun _ => .pure _) hj

theorem pwritevOn_authorised_iff {f : FilpId} (iov : List ℕ) (iovCnt : Int) (offset : Option (Option Int))
    (answers : List Answer) :
    Justified (Authorised mode) (pwritevOn iov iovCnt offset f v ⟨k, answers, []⟩).2.log ↔
      (sIsblk (k.vnode v).mode = true → ¬Readable k f v) := by
  obtain ⟨b, hok, hb⟩ := checkAccessOn_eq v (some f) rOk ⟨k, answers, []⟩
  have hread : Readable k f v ↔ b = true := by rw [hok]; rfl
  rw [hread, pwritevOn, bind_some hb]
  cases b with
  | false => exact iff_of_true ⟨trivial, trivial⟩ fun _ => Bool.false_ne_true
  | true =>
    rw [if_pos rfl]
    cases hblk : sIsblk (k.vnode v).mode with
    | false =>
      simp only [bind_apply, look, hblk]
      exact iff_of_true ⟨trivial, trivial⟩ fun h => absurd h Bool.false_ne_true
    | true =>
      simp only [bind_apply, look, hblk]
      refine iff_of_false (fun hj => ?_) fun h => h trivial trivial
      have hne : wOk ≠ rOk := by decide
      rcases vfsTransfer_justified hj v rfl with hmem | hany
      · simp [hne] at hmem
      · simp [Event.creates] at hany

theorem sysPwritev_authorised_iff (fd : Int) (iov : Option (List ℕ)) (iovCnt : Int) (offset : Option (Option Int))
    (answers : List Answer) :
    Justified (Authorised mode) (sysPwritev cfg fd iov iovCnt offset ⟨k, answers, []⟩).2.log ↔
      Unmodified cfg k answers (.pwritev fd iov iovCnt offset) := by
  by_cases hbad : ¬(1 ≤ iovCnt ∧ iovCnt ≤ cfg.iovMax) ∨ iov = none ∨ offset = some none
  · obtain ⟨rc, hrc⟩ : ∃ rc, sysPwritev cfg fd iov iovCnt offset = pure rc := sysPwritev_refused hbad
    rw [hrc]
    refine iff_of_true trivial fun hlo hhi hiov ho => ?_
    rcases hbad with hb | hb | hb
    · exact absurd ⟨hlo, hhi⟩ hb
    · exact absurd hb hiov
    · exact absurd hb ho
  · rw [not_or, not_or, not_not] at hbad
    obtain ⟨⟨hlo, hhi⟩, hiov, ho⟩ := hbad
    obtain ⟨iov, rfl⟩ := Option.ne_none_iff_exists'.mp hiov
    rw [sysPwritev_eq hlo hhi ho]
    have hcond : Unmodified cfg k answers (.pwritev fd (some iov) iovCnt offset) ↔
        FdVnode cfg k fd fun f v => sIsblk (k.vnode v).mode = true → ¬Readable k f v :=
      ⟨fun h => h hlo hhi hiov ho, fun h _ _ _ _ => h⟩
    rw [hcond]
    exact withFilp_authorised_iff fun f v => pwritevOn_authorised_iff iov iovCnt offset answers

theorem sysTruncate_authorised_iff (fd : Int) (sz : ℕ) (answers : List Answer) :
    Justified (Authorised mode) (sysTruncate cfg fd sz ⟨k, answers, []⟩).2.log ↔
      Unmodified cfg k answers (.truncate fd sz) := by
  refine withFilp_authorised_iff fun f v => ?_
  simp only [bind_apply, look]
  cases hreg : sIsreg (k.vnode v).mode with
  | false => exact iff_of_true trivial rfl
  | true =>
    refine iff_of_false (fun hj => ?_) Bool.false_ne_true.symm
    rcases vfsTruncate_justified hj v rfl with hmem | hany
    · exact absurd hmem List.not_mem_nil
    · exact absurd hany Bool.false_ne_true

section Opening

variable {v d : VId} {oflags : OFlags} {w : World Kernel Answer Event} {name : Name} {uid gid : Id} {perm : BitVec 32}

theorem openVnode_eq (v : VId) (oflags : OFlags) (h : Opens cfg w.state) :
    ∃ k' g, k'.vnode = w.state.vnode ∧ (∀ (A : Event → Prop) sc, Emits A (g sc)) ∧
      openVnode cfg v oflags w = (truncateOnOpen v oflags >>= g) { w with state := k' } := by
  obtain ⟨⟨fd, k₁⟩, hslot, hfresh⟩ := h
  obtain ⟨⟨f, k₂⟩, hfresh⟩ := Option.isSome_iff_exists.mp hfresh
  have hv₁ : k₁.vnode = w.state.vnode := by
    unfold fdAlloc at hslot
    split at hslot <;> cases hslot
    rfl
  have hv₂ : k₂.vnode = k₁.vnode := by
    simp only [filpGetNew] at hfresh
    split at hfresh <;> cases hfresh
    rfl
  refine ⟨k₂.setFilp f { k₂.filp f with flags := oflags, vnode := some v },
    fun sc => if sc ≠ 0 then do
        alter fun k => filpRelease (fdFree k fd) f
        pure sc
      else do
        alter fun k => installFilp k fd f v oflags
        pure fd, ?_, ?_, ?_⟩
  · exact hv₂.trans hv₁
  · intro A sc
    dsimp only
    split_ifs
    · exact (Emits.alter _).bind fun _ => .pure _
    · exact (Emits.alter _).bind fun _ => .pure _
  · simp only [openVnode, bind_apply, look, alter, hslot, hfresh]

theorem openVnode_full (h : ¬Opens cfg w.state) : (openVnode cfg v oflags w).2.log = w.log := by
  simp only [openVnode, bind_apply, look]
  cases hslot : fdAlloc w.state 0 cfg.filedescMax with
  | none => rfl
  | some slot =>
    obtain ⟨fd, k₁⟩ := slot
    cases hfresh : filpGetNew k₁ with
    | none =>
      simp only [bind_apply, alter, look, hfresh]
      rfl
    | some fresh => exact absurd ⟨(fd, k₁), hslot, by rw [hfresh]; rfl⟩ h

theorem openVnode_authorised_iff (hj : Justified (Authorised mode) w.log) (hacc : ∀ m d b, Event.access v m d b ∉ w.log)
    (hnew : w.log.any Event.creates = false) :
    Justified (Authorised mode) (openVnode cfg v oflags w).2.log ↔
      (oflags.trunc = true → sIsreg (w.state.vnode v).mode = true → ¬Opens cfg w.state) := by
  by_cases ho : Opens cfg w.state
  · obtain ⟨k', g, hv, hg, heq⟩ := openVnode_eq v oflags ho
    rw [heq]
    have hlook : truncateOnOpen v oflags { w with state := k' } =
        (if oflags.trunc = true ∧ sIsreg (w.state.vnode v).mode = true then vfsTruncate v 0 else pure 0)
          { w with state := k' } := by
      rw [← hv]
      rfl
    by_cases hc : oflags.trunc = true ∧ sIsreg (w.state.vnode v).mode = true
    · refine iff_of_false (fun hjust => ?_) fun h => h hc.1 hc.2 ho
      have htrunc := hjust.of_bind (hg fun _ => True)
      rw [hlook, if_pos hc] at htrunc
      rcases vfsTruncate_justified htrunc v rfl with hmem | hany
      · exact hacc _ _ _ hmem
      · exact absurd (hany.symm.trans hnew) (by simp)
    · refine iff_of_true ?_ fun ht hr => absurd ⟨ht, hr⟩ hc
      rw [if_neg hc] at hlook
      rw [bind_some hlook]
      exact authorised_of_emits (hg _ 0) _ hj
  · refine iff_of_true ?_ fun _ _ => ho
    rwa [openVnode_full ho]

theorem vfsCreate_created :
    Safe (Authorised mode) (fun _ => True) (vfsCreate d name oflags uid gid perm)
      fun _ w => w.log.any Event.creates = true := by
  refine Safe.bind (Q := fun _ _ => True) (Safe.look fun _ _ => trivial) fun sb => ?_
  refine Safe.bind (Q := fun _ w => w.log.any Event.creates = true)
    (Safe.ask (fun _ _ u hu => absurd hu (by simp [Msg.modifies])) (fun _ _ _ => trivial) fun w r rest _ _ => ?_)
    fun reply => ?_
  · simp [Event.creates]
  split_ifs
  · exact Safe.pure fun _ hw => hw
  · exact (newVnode_emits (A := fun _ => True) sb reply.attr).safe (C := fun past => past.any Event.creates = true)
      (fun past e h => by simp [h]) fun past e h _ => authorised_of_created h

theorem createVnode_created :
    Safe (Authorised mode) (fun _ => True) (createVnode d name oflags perm)
      fun r w => r.2 ≠ none → w.log.any Event.creates = true := by
  refine Safe.bind (Q := fun _ _ => True) ?_ fun refused => ?_
  · exact ((createRefused_emits (A := Harmless) fun _ _ => trivial).safe (C := fun _ => True) (fun _ _ _ => trivial)
      fun _ _ _ he => authorised_of_harmless he).mono (fun _ _ => trivial) fun _ _ _ => trivial
  split_ifs
  · exact Safe.pure fun _ _ hne => absurd rfl hne
  · exact Safe.pure fun _ _ hne => absurd rfl hne
  · refine Safe.bind (Q := fun _ _ => True) (Safe.look fun _ _ => trivial) fun uid => ?_
    refine Safe.bind (Q := fun _ _ => True) (Safe.look fun _ _ => trivial) fun gid => ?_
    exact vfsCreate_created.mono (fun _ h => h) fun _ _ h _ => h

theorem doOpen_created {ld : LookupData} (hv : ld.vnode = none) :
    Safe (Authorised mode) (fun _ => True) (doOpen cfg ld oflags perm) fun _ _ => True := by
  unfold doOpen
  rw [hv]
  split
  · rename_i he
    exact absurd he (by simp)
  · refine createVnode_created.bind fun created => ?_
    split
    · refine ((openVnode_emits (A := fun _ => True) (fun _ => trivial) cfg fun _ => trivial).safe
        (C := fun past => past.any Event.creates = true) (fun past e h => by simp [h])
        fun past e h _ => authorised_of_created h).mono (fun w hw => hw (by simp)) fun _ _ _ => trivial
    · exact Safe.pure fun _ _ => trivial
  · exact Safe.pure fun _ _ => trivial

def Searching : Event → Prop
  | .send (.lookup _ _) => True
  | .answered _ => True
  | _ => False

theorem Searching.not_creates {e : Event} (h : Searching e) : ¬e.creates = true := by
  cases e with
  | send msg =>
    cases msg with
    | create d name oflags uid gid perm => exact fun _ => h
    | _ => exact Bool.false_ne_true
  | _ => exact Bool.false_ne_true

theorem sysOpen_authorised_iff (path : Option (List Char)) (oflags : OFlags) (perm : BitVec 32) (answers : List Answer) :
    Justified (Authorised mode) (sysOpen cfg path oflags perm ⟨k, answers, []⟩).2.log ↔
      Unmodified cfg k answers (.open path oflags perm) := by
  have hsearch : Emits Searching (lookup path) := lookup_emits (fun _ _ => trivial) (fun _ => trivial) path
  obtain ⟨new, hlog, hnew⟩ := hsearch ⟨k, answers, []⟩
  rw [List.append_nil] at hlog
  have hj : Justified (Authorised mode) (lookup path ⟨k, answers, []⟩).2.log :=
    authorised_of_emits (lookup_emits (fun _ _ => rfl) (fun _ => trivial) path) _ trivial
  rcases he : lookup path ⟨k, answers, []⟩ with ⟨_ | ⟨rc, ld⟩, w⟩
  · rw [he] at hj
    rw [sysOpen, bind_none he]
    exact iff_of_true hj fun _ ld w h => absurd (he.symm.trans h) (by simp)
  rw [he] at hj hlog
  rw [sysOpen, bind_some he]
  by_cases hrc : rc = 0
  · subst hrc
    rw [if_neg (by simp)]
    have hcond : Unmodified cfg k answers (.open path oflags perm) ↔
        (oflags.trunc = true → ∀ v ∈ ld.vnode, sIsreg (w.state.vnode v).mode = true → ¬Opens cfg w.state) := by
      constructor
      · exact fun h ht v hv hr => h ht ld w he v hv hr
      intro h ht ld' w' he' v hv hr
      cases he.symm.trans he'
      exact h ht v hv hr
    rw [hcond]
    cases hv : ld.vnode with
    | none =>
      exact iff_of_true (doOpen_created hv w hj trivial).1 fun _ v h => absurd h (by simp)
    | some v =>
      have hopen : doOpen cfg ld oflags perm = openVnode cfg v oflags := by
        unfold doOpen
        rw [hv]
      have hall (e : Event) (hmem : e ∈ w.log) : Searching e := by
        exact hnew e (hlog ▸ hmem)
      have hacc (m d b) : Event.access v m d b ∉ w.log := fun hmem => hall _ hmem
      have hcr : w.log.any Event.creates = false := by
        rw [List.any_eq_false]
        exact fun e hmem => (hall e hmem).not_creates
      rw [hopen, openVnode_authorised_iff hj hacc hcr]
      constructor
      · intro h ht v' hv' hr
        obtain rfl := Option.some.inj hv'
        exact h ht hr
      · exact fun h ht hr => h ht v rfl hr
  · rw [if_pos hrc]
    refine iff_of_true hj fun _ ld' w' h => ?_
    obtain ⟨h1, -⟩ := Prod.mk.inj (he.symm.trans h)
    exact absurd (Prod.mk.inj (Option.some.inj h1)).1 hrc

end Opening

end WriteAuthority

theorem write_authority_iff_unmodified (cfg : Layout) (k : Kernel) (c : WriteCall) (answers : List Answer) :
    WriteAuthority cfg k c answers ↔ (k.current.euid ≠ superuser → Unmodified cfg k answers c) := by
  refine forall_congr' fun _ => ?_
  cases c with
  | write fd src sz => exact iff_of_true (sysWrite_authorised fd src sz answers) trivial
  | pwritev fd iov iovCnt offset => exact sysPwritev_authorised_iff fd iov iovCnt offset answers
  | truncate fd sz => exact sysTruncate_authorised_iff fd sz answers
  | «open» path oflags perm => exact sysOpen_authorised_iff path oflags perm answers

section Samples

def sampleLayout : Layout := ⟨0x1000, 0x80000000, 0x80000000, 0xFFFFFFFF, 16, 8⟩

def sampleVnode (inodeNr : Int) (mode : BitVec 32) : VNode := ⟨0, inodeNr, mode, 0, 0, 100, none, none, false, false⟩

def sampleKernel : Kernel where
  current := ⟨1000, 1000, []⟩
  uid := 1000
  gid := 1000
  privExec := true
  pageFree := true
  currentDir := 0
  rootVnode := 0
  controllingTty := none
  fdTable := fun fd => if fd < 3 then ⟨some fd, true, true, false⟩ else ⟨none, false, false, false⟩
  filp := fun f => ⟨0, ⟨if f = 2 then .wronly else .rdonly, false, false, false, false⟩, some (f + 1)⟩
  filpFreeList := [3, 4]
  vnode := fun v => sampleVnode v
    (if v = 0 then 0o040777 else if v = 1 then 0o100444 else if v = 2 then 0o060444 else 0o060222)
  vnodeHash := [0, 1, 2, 3]
  vnodeFreeList := [4, 5]
  superblock := fun _ => ⟨false, false, 0⟩

def replyWith (status : Int) (inodeNr : Int) : Answer := ⟨status, ⟨inodeNr, 100, 0, 0, 0o100444⟩, .valid, id⟩

end Samples

theorem reader_modifies_files :
    ¬WriteAuthority sampleLayout sampleKernel (.truncate 0 0) [] ∧
      ¬WriteAuthority sampleLayout sampleKernel (.pwritev 1 (some [5]) 1 none) [] ∧
        ¬WriteAuthority sampleLayout sampleKernel (.open (some ['f']) ⟨.rdonly, false, true, false, false⟩ 0)
          [replyWith 0 1] := by
  refine ⟨fun h => ?_, fun h => ?_, fun h => ?_⟩
  all_goals exact absurd (h (by decide)) (by decide)

end CheviotKernel.Vfs
