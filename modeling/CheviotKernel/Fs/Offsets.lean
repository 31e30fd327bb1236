import CheviotKernel.Fs.Authority
import CheviotKernel.Library.Runs

namespace CheviotKernel.Vfs

open Dialogue Access Runs

section Arithmetic

variable {x pos : Int} {n : ℕ}

theorem wrap64_of_range (h0 : 0 ≤ x) (h1 : x < 2 ^ 63) : wrap64 x = x :=
  Int.bmod_eq_of_le (by omega) (by omega)

theorem wrap64_lt (x : Int) : wrap64 x < 2 ^ 63 := by
  have h := Int.bmod_lt (x := x) (m := 2 ^ 64) (by decide)
  unfold wrap64
  omega

theorem offT_lt (x : Int) : offT x < 2 ^ 63 := by
  have h := Int.bmod_lt (x := x) (m := 2 ^ 32) (by decide)
  unfold offT
  omega

theorem seekTarget_lt {k : Kernel} {f : FilpId} {v : VId} {whence : Whence} (hp : pos < 2 ^ 63)
    (hx : seekTarget k f v pos whence = some x) : x < 2 ^ 63 := by
  cases whence with
  | set =>
    cases hx
    exact hp
  | cur | fin =>
    cases hx
    exact wrap64_lt _
  | other => exact absurd hx (by simp [seekTarget])

theorem clusterOffset_range (h : 0 ≤ x) : 0 ≤ x.tmod pageSize ∧ x.tmod pageSize < 4096 :=
  ⟨Int.tmod_nonneg _ h, Int.tmod_lt_of_pos _ (by decide)⟩

theorem cluster_within (h0 : 0 ≤ x) (h1 : x < 4096) :
    (0 ≤ x ∧ x + nbytesXfer n x ≤ pageSize) ∧ nbytesXfer n x ≤ n := by
  rw [nbytesXfer_eq n (by omega) h1, pageSize]
  omega

end Arithmetic

section Copies

def InPage (_ : List Event) : Event → Prop
  | .copy offset len => 0 ≤ offset ∧ offset + len ≤ pageSize
  | _ => True

instance (past : List Event) : ∀ e, Decidable (InPage past e)
  | .access .. | .send .. | .getblk .. | .copy .. | .sleep .. | .pipe .. | .exec .. | .answered .. => by dsimp only [InPage]; infer_instance

structure Sound (k : Kernel) : Prop where
  offset : ∀ f, 0 ≤ (k.filp f).offset ∧ (k.filp f).offset < 2 ^ 63
  size : ∀ v, 0 ≤ (k.vnode v).size ∧ (k.vnode v).size < 2 ^ 63

def Alone (S : Kernel → Prop) (w : World Kernel Answer Event) : Prop :=
  (∀ a ∈ w.answers, a.meanwhile = id) ∧ S w.state

variable {S T : Kernel → Prop} {α : Type} {e : Event} {R : α → Kernel → Prop}

theorem await_alone (he : ∀ past, InPage past e) : Safe InPage (Alone S) (await e) fun _ => Alone S := by
  refine Safe.ask (fun w _ => he w.log) (fun _ _ _ => trivial) fun w a rest hw ha => ?_
  have hid : a.meanwhile = id := hw.1 a (by rw [ha]; exact List.mem_cons_self)
  refine ⟨fun b hb => hw.1 b (by rw [ha]; exact List.mem_cons_of_mem a hb), ?_⟩
  rw [hid]
  exact hw.2

theorem emit_alone (he : ∀ past, InPage past e) : Safe InPage (Alone S) (emit e) fun _ => Alone S :=
  Safe.emit (fun w _ => he w.log) fun _ hw => hw

theorem look_alone {f : Kernel → α} (h : ∀ k, S k → R (f k) k) : Safe InPage (Alone S) (look f) fun a => Alone (R a) :=
  Safe.look fun w hw => ⟨hw.1, h w.state hw.2⟩

theorem alter_alone {f : Kernel → Kernel} (h : ∀ k, S k → T (f k)) : Safe InPage (Alone S) (alter f) fun _ => Alone T :=
  Safe.alter fun w hw => ⟨hw.1, h w.state hw.2⟩

theorem pure_alone {a : α} (h : ∀ k, S k → R a k) : Safe InPage (Alone S) (pure a) fun a => Alone (R a) :=
  Safe.pure fun w hw => ⟨hw.1, h w.state hw.2⟩

theorem transfer_alone {request : Int → Msg} {x : Int} :
    Safe InPage (Alone S) (vfsTransfer request (.value x)) fun _ => Alone S := by
  refine (look_alone (R := fun _ => S) fun _ h => h).bind fun y => ?_
  refine Safe.bind (await_alone fun _ => trivial) fun reply => ?_
  split_ifs
  · exact pure_alone fun _ h => h
  · exact (alter_alone (T := S) fun _ h => h).bind fun _ => pure_alone fun _ h => h

theorem bread_alone (v : VId) (x : Int) : Safe InPage (Alone S) (bread v x) fun _ => Alone S := by
  refine Safe.bind (await_alone fun _ => trivial) fun page => ?_
  split
  · exact pure_alone fun _ h => h
  · exact pure_alone fun _ h => h
  · exact transfer_alone.bind fun _ => pure_alone fun _ h => h

theorem clusterPage_alone (v : VId) (size x : Int) : Safe InPage (Alone S) (clusterPage v size x) fun _ => Alone S := by
  unfold clusterPage
  split_ifs
  · exact bread_alone v x
  · exact Safe.bind (await_alone fun _ => trivial) fun _ => pure_alone fun _ h => h

theorem bwrite_alone (v : VId) (x : Int) : Safe InPage (Alone S) (bwrite v x) fun _ => Alone S :=
  (look_alone (R := fun _ => S) fun _ h => h).bind fun _ => transfer_alone.bind fun _ => pure_alone fun _ h => h

theorem checkAccessOn_alone (v : VId) (filp : Option FilpId) (d : BitVec 32) :
    Safe InPage (Alone S) (checkAccessOn v filp d) fun _ => Alone S :=
  (look_alone (R := fun _ => S) fun _ h => h).bind fun _ => (look_alone (R := fun _ => S) fun _ h => h).bind fun _ =>
    Safe.bind (emit_alone fun _ => trivial) fun _ => pure_alone fun _ h => h

end Copies

section Rounds

variable {f : FilpId} {v : VId} {want total n : ℕ} {k : Kernel} {x base size offset : Int}

structure Room (f : FilpId) (want total : ℕ) (k : Kernel) : Prop where
  sound : Sound k
  room : total ≤ want ∧ (k.filp f).offset + (want - total : ℕ) < 2 ^ 63

theorem Room.start (h : Sound k) (hw : (k.filp f).offset + want < 2 ^ 63) : Room f want 0 k :=
  ⟨h, Nat.zero_le _, by simpa using hw⟩

section

variable (h : Room f want total k)
include h

theorem advance_offset (hn : n ≤ want - total) :
    wrap64 ((k.filp f).offset + n) = (k.filp f).offset + n := by
  have ho := h.sound.offset f
  have hr := h.room
  exact wrap64_of_range (by omega) (by omega)

theorem Room.advance (hn : n ≤ want - total) : Room f want (total + n) (advance f n k) := by
  have hoff := advance_offset h hn
  have ho := h.sound.offset f
  have hr := h.room
  refine ⟨⟨fun g => ?_, h.sound.size⟩, by omega, ?_⟩
  · by_cases hg : g = f
    · subst hg
      simp only [Vfs.advance, Kernel.setFilp, Function.update_self]
      omega
    · simpa [Vfs.advance, Kernel.setFilp, hg] using h.sound.offset g
  · simp only [Vfs.advance, Kernel.setFilp, Function.update_self]
    omega

theorem Room.grow (v : VId) : Room f want total (growTo v (k.filp f).offset k) := by
  unfold growTo
  split_ifs with hc
  · refine ⟨⟨h.sound.offset, fun u => ?_⟩, h.room⟩
    by_cases hu : u = v
    · subst hu
      simpa [Kernel.setVnode] using h.sound.offset f
    · simpa [Kernel.setVnode, hu] using h.sound.size u
  · exact h

end

theorem rounds_alone {body : ℕ → Sys (ℕ ⊕ Int)} (h : ∀ total, Safe InPage (Alone (Room f want total)) (body total)
      fun r => Alone (Sum.elim (Room f want) (fun _ => Sound) r)) :
    Safe InPage (Alone (Room f want 0)) (loop body 0) fun _ => Alone Sound := by
  refine Safe.loop (I := fun total => Alone (Room f want total)) (fun total => ?_) 0
  refine (h total).mono (fun _ hw => hw) fun r w hw => ?_
  cases r <;> exact hw

section

variable (h : 0 ≤ x ∧ x + n ≤ pageSize)
include h

theorem copyFromPage_alone {S : Kernel → Prop} (inkernel : Bool) :
    Safe InPage (Alone S) (copyFromPage x n inkernel) fun _ => Alone S := by
  unfold copyFromPage
  split_ifs
  · exact Safe.bind (emit_alone fun _ => h) fun _ => pure_alone fun _ hk => hk
  · exact Safe.bind (await_alone fun _ => h) fun _ => pure_alone fun _ hk => hk

theorem readCluster_alone {inkernel : Bool}
    (hn : n ≤ want - total) : Safe InPage (Alone (Room f want total)) (readCluster v f inkernel base x n total)
      fun r => Alone (Sum.elim (Room f want) (fun _ => Sound) r) := by
  refine (bread_alone v base).bind fun page => ?_
  split_ifs
  · exact pure_alone fun _ hk => hk.sound
  refine (copyFromPage_alone h inkernel).bind fun copied => ?_
  split_ifs
  · exact pure_alone fun _ hk => hk.sound
  · exact (alter_alone fun _ hk => hk.advance hn).bind fun _ => pure_alone fun _ hk => hk

theorem writeCluster_alone (hn : n ≤ want - total) :
    Safe InPage (Alone (Room f want total)) (writeCluster v f size base x n total)
      fun r => Alone (Sum.elim (Room f want) (fun _ => Sound) r) := by
  refine (clusterPage_alone v size base).bind fun page => ?_
  split_ifs
  · exact pure_alone fun _ hk => hk.sound
  refine Safe.bind (await_alone fun _ => h) fun reply => ?_
  split_ifs
  · exact pure_alone fun _ hk => hk.sound
  · refine (alter_alone fun _ hk => hk.advance hn).bind fun _ => ?_
    refine (alter_alone fun _ hk => hk.grow v).bind fun _ => ?_
    exact (bwrite_alone v base).bind fun _ => pure_alone fun _ hk => hk

end

theorem readRound_alone (inkernel : Bool) (total : ℕ) :
    Safe InPage (Alone (Room f want total)) (readRound v f inkernel want total)
      fun r => Alone (Sum.elim (Room f want) (fun _ => Sound) r) := by
  unfold readRound
  split
  · refine (look_alone (R := fun offset k => 0 ≤ offset ∧ Room f want total k)
      fun k hk => ⟨(hk.sound.offset f).1, hk⟩).bind fun offset => ?_
    intro w hj hw
    obtain ⟨h0, h1⟩ := clusterOffset_range hw.2.1
    obtain ⟨hin, hle⟩ := cluster_within h0 h1
    exact readCluster_alone hin hle w hj ⟨hw.1, hw.2.2⟩
  · exact pure_alone fun _ hk => hk.sound

theorem writeRound_alone (total : ℕ) :
    Safe InPage (Alone (Room f want total)) (writeRound v f want total)
      fun r => Alone (Sum.elim (Room f want) (fun _ => Sound) r) := by
  unfold writeRound
  split
  · refine (look_alone (R := fun offset k => 0 ≤ offset ∧ Room f want total k)
      fun k hk => ⟨(hk.sound.offset f).1, hk⟩).bind fun offset => ?_
    intro w hj hw
    obtain ⟨h0, h1⟩ := clusterOffset_range hw.2.1
    obtain ⟨hin, hle⟩ := cluster_within h0 h1
    rw [offT_tmod]
    exact writeCluster_alone hin hle w hj ⟨hw.1, hw.2.2⟩
  · exact pure_alone fun _ hk => hk.sound

theorem readFromFile_alone (sz : ℕ) (inkernel : Bool) :
    Safe InPage (Alone Sound) (readFromFile v sz f inkernel) fun _ => Alone Sound := by
  refine (look_alone (R := fun size k => size < 2 ^ 63 ∧ Sound k) fun k hk => ⟨(hk.size v).2, hk⟩).bind fun size => ?_
  refine (look_alone (R := fun offset k => size < 2 ^ 63 ∧ offset = (k.filp f).offset ∧ Sound k)
    fun k hk => ⟨hk.1, rfl, hk.2⟩).bind fun offset => ?_
  split_ifs with hc
  · exact pure_alone fun _ hk => hk.2.2
  refine (rounds_alone (readRound_alone inkernel)).mono (fun w hw => ⟨hw.1, Room.start hw.2.2.2 ?_⟩) fun _ _ h => h
  have hle := bytesToRead_le (not_le.mp hc) sz
  rw [← hw.2.2.1]
  have hs := hw.2.1
  omega

end Rounds

section Sequences

variable (cfg : Layout) {s : FileRun}

inductive FileOp
  | lseek (fd pos : Int) (whence : Whence)
  | lseek64 (fd : Int) (pos : Option Int) (whence : Whence)
  | read (fd : Int) (dst sz : ℕ)
  | kread (fd : Int) (dst sz : ℕ)
  | write (fd : Int) (src sz : ℕ)

def FileOp.fd : FileOp → Int
  | .lseek fd _ _ => fd
  | .lseek64 fd _ _ => fd
  | .read fd _ _ => fd
  | .kread fd _ _ => fd
  | .write fd _ _ => fd

def FileOp.run : FileOp → Sys Int
  | .lseek fd pos whence => sysLseek cfg fd pos whence
  | .lseek64 fd pos whence => sysLseek64 cfg fd pos whence
  | .read fd dst sz => sysRead cfg fd dst sz
  | .kread fd dst sz => Vfs.kread cfg fd dst sz
  | .write fd src sz => sysWrite cfg fd src sz

structure FileStep where
  op : FileOp
  replies : List (Int × Block)

def FileStep.answers (a : FileStep) : List Answer := a.replies.map fun r => ⟨r.1, ⟨0, 0, 0, 0, 0⟩, r.2, id⟩

def OnRegular (k : Kernel) (fd : Int) : Prop := FdVnode cfg k fd fun _ v => sIsreg (k.vnode v).mode = true

instance (k : Kernel) (fd : Int) : Decidable (OnRegular cfg k fd) := by
  unfold OnRegular FdVnode
  infer_instance

structure FileRun where
  kernel : Kernel
  log : List Event
  waiting : Bool

def fileStep (s : FileRun) (a : FileStep) : Option FileRun :=
  if s.waiting = false ∧ OnRegular cfg s.kernel a.op.fd then
    let r := a.op.run cfg ⟨s.kernel, a.answers, s.log⟩
    some ⟨r.2.state, r.2.log, r.1.isNone⟩
  else none

def Opened (s : FileRun) : Prop :=
  s.log = [] ∧ (∀ v, 0 ≤ (s.kernel.vnode v).size ∧ (s.kernel.vnode v).size < 2 ^ 63) ∧
    ∀ f, (s.kernel.filp f).offset = 0 ∨
      ∃ v, (s.kernel.filp f).vnode = some v ∧ (s.kernel.filp f).offset = (s.kernel.vnode v).size

def Forward (s : FileRun) (a : FileStep) : Prop :=
  ∀ f ∈ filpGet cfg s.kernel a.op.fd, ∀ v ∈ vnodeGetFromFilp s.kernel f, match a.op with
    | .lseek _ pos whence => ∀ x ∈ seekTarget s.kernel f v (offT pos) whence, 0 ≤ x
    | .lseek64 _ pos whence => ∀ p ∈ pos, ∀ x ∈ seekTarget s.kernel f v (wrap64 p) whence, 0 ≤ x
    | .write _ _ sz => (s.kernel.filp f).offset + sz < 2 ^ 63
    | _ => True

instance (s : FileRun) (a : FileStep) : Decidable (Forward cfg s a) := by
  obtain ⟨op, replies⟩ := a
  cases op <;> unfold Forward <;> infer_instance

variable {cfg} {S : Kernel → Prop} {fd e pos : Int}

theorem withFilp_alone {body : FilpId → VId → Sys Int}
    (h : ∀ f v, Safe InPage (Alone fun k => Sound k ∧ filpGet cfg k fd = some f ∧ vnodeGetFromFilp k f = some v ∧ S k)
      (body f v) fun _ => Alone Sound) :
    Safe InPage (Alone fun k => Sound k ∧ S k) (withFilp cfg fd e body) fun _ => Alone Sound := by
  refine (look_alone (R := fun filp k => Sound k ∧ filpGet cfg k fd = filp ∧ S k)
    fun k hk => ⟨hk.1, rfl, hk.2⟩).bind fun filp => ?_
  cases filp with
  | none => exact pure_alone fun _ hk => hk.1
  | some f =>
    refine (look_alone (R := fun vnode k => Sound k ∧ filpGet cfg k fd = some f ∧ vnodeGetFromFilp k f = vnode ∧ S k)
      fun k hk => ⟨hk.1, hk.2.1, rfl, hk.2.2⟩).bind fun vnode => ?_
    cases vnode with
    | none => exact pure_alone fun _ hk => hk.1
    | some v => exact h f v

theorem seek_alone {whence : Whence} {f : FilpId} {v : VId} (hp : pos < 2 ^ 63) :
    Safe InPage (Alone fun k => Sound k ∧ ∀ x ∈ seekTarget k f v pos whence, 0 ≤ x) (seek pos whence f v)
      fun _ => Alone Sound := by
  refine (look_alone (R := fun _ k => Sound k ∧ ∀ x ∈ seekTarget k f v pos whence, 0 ≤ x)
    fun _ hk => hk).bind fun mode => ?_
  split_ifs
  · exact pure_alone fun _ hk => hk.1
  refine (look_alone (R := fun target k => Sound k ∧ ∀ x ∈ target, 0 ≤ x ∧ x < 2 ^ 63) fun k hk =>
    ⟨hk.1, fun x hx => ⟨hk.2 x hx, seekTarget_lt hp hx⟩⟩).bind fun target => ?_
  cases target with
  | none => exact pure_alone fun _ hk => hk.1
  | some x =>
    refine (alter_alone (T := Sound) fun k hk => ⟨fun g => ?_, hk.1.size⟩).bind fun _ => pure_alone fun _ hk => hk
    by_cases hg : g = f
    · subst hg
      simpa [Kernel.setFilp] using hk.2 x rfl
    · simpa [Kernel.setFilp, hg] using hk.1.offset g

theorem reg_of_type {mode : BitVec 32} (h : sIsreg mode = true) : sIschr mode = false := by
  have he : mode &&& sIfmt = 0o100000 := by simpa [sIsreg] using h
  simp [sIschr, he]

theorem fileOp_alone {op : FileOp} {replies : List (Int × Block)}
    (hr : OnRegular cfg s.kernel op.fd) (hf : Forward cfg s ⟨op, replies⟩) :
    Safe InPage (Alone fun k => Sound k ∧ k = s.kernel) (op.run cfg) fun _ => Alone Sound := by
  cases op with
  | lseek fd pos whence =>
    refine withFilp_alone fun f v => (seek_alone (offT_lt pos)).mono ?_ fun _ _ h => h
    rintro w ⟨ha, hk, hfilp, hv, he⟩
    refine ⟨ha, hk, ?_⟩
    rw [he] at hfilp hv ⊢
    exact hf f hfilp v hv
  | lseek64 fd pos whence =>
    cases pos with
    | none => exact pure_alone fun _ hk => hk.1
    | some p =>
      refine withFilp_alone fun f v => (seek_alone (wrap64_lt p)).mono ?_ fun _ _ h => h
      rintro w ⟨ha, hk, hfilp, hv, he⟩
      refine ⟨ha, hk, ?_⟩
      rw [he] at hfilp hv ⊢
      exact hf f hfilp v hv p rfl
  | read fd dst sz =>
    simp only [FileOp.run, sysRead]
    split_ifs
    · exact pure_alone fun _ hk => hk.1
    refine withFilp_alone fun f v => (checkAccessOn_alone v (some f) rOk).bind fun granted => ?_
    split_ifs
    · refine (look_alone (R := fun mode k => sIsreg mode = true ∧ Sound k) ?_).bind fun mode => ?_
      · rintro k ⟨hk, hfilp, hv, rfl⟩
        exact ⟨hr f hfilp v hv, hk⟩
      · intro w hj hw
        rw [if_neg (by simp [reg_of_type hw.2.1]), if_pos hw.2.1]
        exact readFromFile_alone sz false w hj ⟨hw.1, hw.2.2⟩
    · exact pure_alone fun _ hk => hk.1
  | kread fd dst sz =>
    simp only [FileOp.run, Vfs.kread]
    split_ifs
    · exact pure_alone fun _ hk => hk.1
    refine withFilp_alone fun f v => (checkAccessOn_alone v (some f) rOk).bind fun granted => ?_
    split_ifs
    · refine (look_alone (R := fun _ => Sound) fun _ hk => hk.1).bind fun mode => ?_
      split_ifs
      · exact readFromFile_alone sz true
      · exact pure_alone fun _ hk => hk
    · exact pure_alone fun _ hk => hk.1
  | write fd src sz =>
    simp only [FileOp.run, sysWrite]
    split_ifs
    · exact pure_alone fun _ hk => hk.1
    refine withFilp_alone fun f v => (checkAccessOn_alone v (some f) wOk).bind fun granted => ?_
    split_ifs
    · refine (look_alone (R := fun mode k => sIsreg mode = true ∧ Room f sz 0 k) ?_).bind fun mode => ?_
      · rintro k ⟨hk, hfilp, hv, rfl⟩
        exact ⟨hr f hfilp v hv, Room.start hk (hf f hfilp v hv)⟩
      · intro w hj hw
        rw [if_neg (by simp [reg_of_type hw.2.1]), if_pos hw.2.1]
        exact rounds_alone (fun total => writeRound_alone total) w hj ⟨hw.1, hw.2.2⟩
    · exact pure_alone fun _ hk => hk.1

theorem answers_alone (a : FileStep) : ∀ b ∈ a.answers, b.meanwhile = id := by
  intro b hb
  obtain ⟨r, -, rfl⟩ := List.mem_map.mp hb
  rfl

def Paged (s : FileRun) : Prop := Justified InPage s.log ∧ (s.waiting = false → Sound s.kernel)

theorem fileStep_paged {t : FileRun} {a : FileStep} (h : Paged s) (hf : Forward cfg s a)
    (hs : fileStep cfg s a = some t) : Paged t := by
  obtain ⟨hr, rfl⟩ := guarded hs
  have hop := fileOp_alone hr.2 hf ⟨s.kernel, a.answers, s.log⟩ h.1 ⟨answers_alone a, h.2 hr.1, rfl⟩
  refine ⟨hop.1, fun hw => ?_⟩
  obtain ⟨x, hx⟩ := Option.isSome_iff_exists.mp (Option.isNone_eq_false_iff.mp hw)
  exact (hop.2 x hx).2

theorem Opened.paged (h : Opened s) : Paged s := by
  obtain ⟨hlog, hsize, hoff⟩ := h
  refine ⟨by rw [hlog]; trivial, fun _ => ⟨fun f => ?_, hsize⟩⟩
  rcases hoff f with h0 | ⟨v, -, hv⟩
  · rw [h0]
    decide
  · rw [hv]
    exact hsize v

end Sequences

theorem copies_in_page_of_forward (cfg : Layout) (s : FileRun) (h : Reach (fileStep cfg) (Forward cfg) Opened s) :
    Justified InPage s.log :=
  (h.invariant (P := Paged) (fun _ h0 => h0.paged) fun _ _ _ hs hf ht => fileStep_paged hs hf ht).1

section Samples

def fileKernel : Kernel :=
  { sampleKernel with
    filp := fun _ => ⟨0, ⟨.rdwr, false, false, false, false⟩, some 1⟩
    vnode := fun v => sampleVnode v 0o100666 }

theorem fileKernel_opened : Opened ⟨fileKernel, [], false⟩ := by
  refine ⟨rfl, fun v => ?_, fun f => .inl rfl⟩
  show (0 : Int) ≤ 100 ∧ (100 : Int) < 2 ^ 63
  decide

end Samples

theorem copy_after_seek : ∃ s, Reach (fileStep sampleLayout) (Forward sampleLayout) Opened s ∧
    Event.copy 90 5 ∈ s.log ∧ Justified InPage s.log :=
  Reach.exists_of_run (Q := fun s => Event.copy 90 5 ∈ s.log)
    [⟨.lseek 0 (-10) .fin, []⟩, ⟨.read 0 0x2000 5, [(0, .valid), (0, .valid)]⟩] fileKernel_opened (by decide)
    (by decide) fun s hr hq => ⟨hq, copies_in_page_of_forward _ s hr⟩

theorem copy_before_page : ∃ s, Reach (fileStep sampleLayout) always Opened s ∧
    Event.copy (-10) 5 ∈ s.log ∧ ¬Justified InPage s.log :=
  Reach.exists_of_run (Q := fun s => Event.copy (-10) 5 ∈ s.log ∧ ¬Justified InPage s.log)
    [⟨.lseek 0 (-10) .set, []⟩, ⟨.read 0 0x2000 5, [(0, .valid), (0, .valid)]⟩] fileKernel_opened (meets_always _ _)
    (by decide) fun _ _ hq => hq

end CheviotKernel.Vfs
