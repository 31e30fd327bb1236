import Mathlib.Data.List.Nodup
import CheviotKernel.Proc.Process

namespace CheviotKernel.Procs

open Function

inductive Roll
  | group
  | session

def Roll.entry : Roll → PidDesc → Option Nat
  | .group => PidDesc.pgrp
  | .session => PidDesc.session

def Roll.find : Roll → Config → Ids → PidT → Option Nat
  | .group => getPgrp
  | .session => getSession

def Roll.list : Roll → Ids → Nat → List ProcId
  | .group, x, i => (x.pgrp i).processList
  | .session, x, i => (x.session i).processList

def Roll.setList : Roll → Ids → Nat → List ProcId → Ids
  | .group, x, i, l => x.setPgrp i { x.pgrp i with processList := l }
  | .session, x, i, l => x.setSession i { x.session i with processList := l }

def Roll.alloc : Roll → Ids → Option (Nat × Ids)
  | .group => allocPgrp
  | .session => allocSession

def Roll.clear : Roll → Ids → PidT → Nat → Ids
  | .group, x, e, i => (freePgrp x i).setDesc e { x.pidTable e with pgrp := none }
  | .session, x, e, i => (freeSession x i).setDesc e { x.pidTable e with session := none }

def Roll.drop : Roll → Ids → PidT → Ids
  | .group => dropPgrp
  | .session => dropSession

def Roll.join : Roll → Config → Ids → PidT → ProcId → Ids
  | .group => joinPgrp
  | .session => joinSession

section Lookup

variable {cfg : Config} {x y : Ids} {g : PidT} {i : Nat} (r : Roll)

theorem pidToPiddesc_some {pid e : PidT} (h : pidToPiddesc cfg pid = some e) : e = pid := by
  unfold pidToPiddesc at h
  split_ifs at h
  exact (Option.some.inj h).symm

theorem Roll.find_eq (cfg : Config) (x : Ids) (g : PidT) :
    r.find cfg x g = (pidToPiddesc cfg g).bind fun e => r.entry (x.pidTable e) := by
  cases r
  all_goals
    simp only [Roll.find, getPgrp, getSession]
    cases pidToPiddesc cfg g <;> rfl

theorem Roll.find_some (h : r.find cfg x g = some i) :
    pidToPiddesc cfg g = some g ∧ r.entry (x.pidTable g) = some i := by
  rw [r.find_eq] at h
  obtain ⟨e, he, hi⟩ := Option.bind_eq_some_iff.mp h
  cases pidToPiddesc_some he
  exact ⟨he, hi⟩

theorem Roll.find_of_none (h : r.entry (x.pidTable g) = none) : r.find cfg x g = none := by
  cases hg : r.find cfg x g with
  | none => rfl
  | some i => rw [(r.find_some hg).2] at h; cases h

theorem Roll.find_congr (h : r.entry (y.pidTable g) = r.entry (x.pidTable g)) : r.find cfg y g = r.find cfg x g := by
  rw [r.find_eq, r.find_eq]
  cases he : pidToPiddesc cfg g with
  | none => rfl
  | some e =>
    cases pidToPiddesc_some he
    exact h

end Lookup

section

variable {x y z : Ids} {e k : PidT} {d : PidDesc} {recorded : Prop} {own : PidT → Option Holder} {a : Holder}
  {i : Nat} {q r : Roll}

@[simp]
theorem setDesc_other (hk : k ≠ e) : (x.setDesc e d).pidTable k = x.pidTable k := by
  simp [Ids.setDesc, hk]

@[simp]
theorem setDesc_self (d : PidDesc) : (x.setDesc e d).pidTable e = d := by
  simp [Ids.setDesc]

structure Freed (x y : Ids) (e : PidT) : Prop where
  other : ∀ k, k ≠ e → y.pidTable k = x.pidTable k
  bare : (y.pidTable e).proc = none ∧ (y.pidTable e).thread = none
  list : y.freePiddescList = x.freePiddescList ∨
    (y.freePiddescList = x.freePiddescList ++ [e] ∧ y.pidTable e = PidDesc.empty)

structure Quiet (x y : Ids) : Prop where
  proc : ∀ k, (y.pidTable k).proc = (x.pidTable k).proc
  thread : ∀ k, (y.pidTable k).thread = (x.pidTable k).thread
  list : y.freePiddescList = x.freePiddescList
  free : ∀ k ∈ x.freePiddescList, y.pidTable k = x.pidTable k

theorem Quiet.trans (h : Quiet x y) (h' : Quiet y z) : Quiet x z := by
  constructor
  · exact fun k => (h'.proc k).trans (h.proc k)
  · exact fun k => (h'.thread k).trans (h.thread k)
  · exact h'.list.trans h.list
  · intro k hk
    exact (h'.free k (h.list ▸ hk)).trans (h.free k hk)

theorem quiet_setPgrp (x : Ids) (i : PgrpId) (r : Pgrp) : Quiet x (x.setPgrp i r) :=
  ⟨fun _ => rfl, fun _ => rfl, rfl, fun _ _ => rfl⟩

theorem quiet_setSession (x : Ids) (i : SessionId) (r : Session) : Quiet x (x.setSession i r) :=
  ⟨fun _ => rfl, fun _ => rfl, rfl, fun _ _ => rfl⟩

theorem quiet_setDesc (hp : d.proc = (x.pidTable e).proc) (ht : d.thread = (x.pidTable e).thread)
    (he : e ∉ x.freePiddescList) : Quiet x (x.setDesc e d) := by
  have hsame (k : PidT) : ((x.setDesc e d).pidTable k).proc = (x.pidTable k).proc ∧
      ((x.setDesc e d).pidTable k).thread = (x.pidTable k).thread := by
    by_cases hk : k = e
    · subst hk
      simp [hp, ht]
    · simp [hk]
  constructor
  · exact fun k => (hsame k).1
  · exact fun k => (hsame k).2
  · rfl
  · intro k hk
    exact setDesc_other fun hke => he (hke ▸ hk)

theorem Roll.quiet_alloc (r : Roll) (h : r.alloc x = some (i, y)) : Quiet x y ∧ y.pidTable = x.pidTable := by
  cases r
  all_goals
    simp only [Roll.alloc, allocPgrp, allocSession] at h
    split at h
    · cases h
    · cases h
      exact ⟨⟨fun _ => rfl, fun _ => rfl, rfl, fun _ _ => rfl⟩, rfl⟩

theorem Roll.list_setList_other (hq : q ≠ r) (x : Ids) (i : Nat) (l : List ProcId) :
    q.list (r.setList x i l) = q.list x := by
  cases q <;> cases r <;> first | rfl | exact absurd rfl hq

section

variable (r : Roll) (cfg : Config) (x : Ids) (g : PidT) (p : ProcId)

theorem Quiet.refl : Quiet x x := ⟨fun _ => rfl, fun _ => rfl, rfl, fun _ _ => rfl⟩

theorem Roll.join_eq : r.join cfg x g p = (r.find cfg x g).elim x fun i => r.setList x i (r.list x i ++ [p]) := by
  cases r
  all_goals
    simp only [Roll.join, joinPgrp, joinSession, Roll.find]
    split
    all_goals
      rename_i hi
      rw [hi]
      rfl

theorem Roll.drop_cases (e : PidT) :
    r.drop x e = x ∧ (∀ i, r.entry (x.pidTable e) = some i → r.list x i ≠ []) ∨
    ∃ i, r.entry (x.pidTable e) = some i ∧ r.list x i = [] ∧ r.drop x e = r.clear x e i := by
  cases r
  all_goals
    simp only [Roll.drop, dropPgrp, dropSession]
    split
    · rename_i i hi
      split
      · rename_i hnil
        exact .inr ⟨i, hi, hnil, rfl⟩
      · rename_i hcons
        exact .inl ⟨rfl, fun j hj => Option.some.inj (hi.symm.trans hj) ▸ hcons⟩
    · rename_i hnone
      exact .inl ⟨rfl, fun j hj => nomatch hnone.symm.trans hj⟩

section

variable (i : Nat) (l : List ProcId)

theorem Roll.quiet_setList : Quiet x (r.setList x i l) := by
  cases r <;> exact ⟨fun _ => rfl, fun _ => rfl, rfl, fun _ _ => rfl⟩

theorem Roll.setList_pidTable : (r.setList x i l).pidTable = x.pidTable := by
  cases r <;> rfl

theorem Roll.list_setList : r.list (r.setList x i l) = update (r.list x) i l := by
  funext j
  by_cases hj : j = i <;> cases r <;> simp [Roll.list, Roll.setList, Ids.setPgrp, Ids.setSession, hj]

end

theorem Roll.join_pidTable : (r.join cfg x g p).pidTable = x.pidTable := by
  rw [r.join_eq]
  cases r.find cfg x g with
  | none => rfl
  | some i => exact r.setList_pidTable x i _

theorem Roll.quiet_join : Quiet x (r.join cfg x g p) := by
  rw [r.join_eq]
  cases r.find cfg x g with
  | none => exact Quiet.refl x
  | some i => exact r.quiet_setList x i _

end

theorem Roll.quiet_drop (r : Roll) (he : e ∉ x.freePiddescList) : Quiet x (r.drop x e) := by
  rcases r.drop_cases x e with ⟨hd, -⟩ | ⟨i, -, -, hd⟩
  · rw [hd]
    exact Quiet.refl x
  · have hfree (y : Ids) (hy : y.pidTable = x.pidTable) (hl : y.freePiddescList = x.freePiddescList) : Quiet x y :=
      ⟨by simp [hy], by simp [hy], hl, by simp [hy]⟩
    rw [hd]
    cases r
    · exact (hfree (freePgrp x i) rfl rfl).trans (quiet_setDesc (by rfl) (by rfl) he)
    · exact (hfree (freeSession x i) rfl rfl).trans (quiet_setDesc (by rfl) (by rfl) he)

theorem Roll.drop_other (r : Roll) (hk : k ≠ e) : (r.drop x e).pidTable k = x.pidTable k := by
  rcases r.drop_cases x e with ⟨hd, -⟩ | ⟨i, -, -, hd⟩
  · rw [hd]
  · rw [hd]
    cases r <;> exact setDesc_other hk

theorem freeDesc_freed (he : e ∉ x.freePiddescList) : Freed x (freeDesc x e) e := by
  unfold freeDesc
  generalize hz : x.setDesc e { x.pidTable e with proc := none, thread := none } = z
  have hez : e ∉ z.freePiddescList := hz ▸ he
  have hs : Quiet z (dropSession z e) := Roll.session.quiet_drop hez
  have hp : Quiet _ (dropPgrp (dropSession z e) e) := Roll.group.quiet_drop (hs.list ▸ hez)
  have hother (k : PidT) (hk : k ≠ e) : (dropPgrp (dropSession z e) e).pidTable k = x.pidTable k := by
    refine (Roll.group.drop_other hk).trans ((Roll.session.drop_other hk).trans ?_)
    rw [← hz, setDesc_other hk]
  have hlist : (dropPgrp (dropSession z e) e).freePiddescList = x.freePiddescList := by
    rw [hp.list, hs.list, ← hz]
    rfl
  have hproc : ((dropPgrp (dropSession z e) e).pidTable e).proc = none := by
    rw [hp.proc, hs.proc, ← hz, setDesc_self]
  have hthread : ((dropPgrp (dropSession z e) e).pidTable e).thread = none := by
    rw [hp.thread, hs.thread, ← hz, setDesc_self]
  dsimp only
  split_ifs with hnone
  · exact ⟨hother, ⟨hproc, hthread⟩, .inr ⟨congrArg (· ++ [e]) hlist, PidDesc.ext hproc hthread hnone.1 hnone.2⟩⟩
  · exact ⟨hother, ⟨hproc, hthread⟩, .inl hlist⟩

inductive Holder
  | proc (p : ProcId)
  | thread (t : ThreadId)

structure Table (recorded : Prop) (x : Ids) (own : PidT → Option Holder) : Prop where
  nodup : x.freePiddescList.Nodup
  empty : ∀ k ∈ x.freePiddescList, x.pidTable k = PidDesc.empty
  unowned : ∀ k ∈ x.freePiddescList, own k = none
  proc : recorded → ∀ k p, own k = some (.proc p) → (x.pidTable k).proc = some p
  thread : recorded → ∀ k t, own k = some (.thread t) → (x.pidTable k).thread = some t

namespace Table

variable (h : Table recorded x own)
include h

theorem quiet (hq : Quiet x y) : Table recorded y own := by
  constructor
  · exact hq.list ▸ h.nodup
  · intro k hk
    rw [hq.list] at hk
    rw [hq.free k hk, h.empty k hk]
  · exact hq.list ▸ h.unowned
  · intro hr k p hk
    rw [hq.proc, h.proc hr k p hk]
  · intro hr k t hk
    rw [hq.thread, h.thread hr k t hk]

theorem freed (hf : Freed x y e) (he : e ∉ x.freePiddescList) : Table recorded y (update own e none) := by
  have hne {k : PidT} {a : Holder} (hk : update own e none k = some a) : k ≠ e ∧ own k = some a := by
    by_cases hke : k = e
    · simp [hke] at hk
    · exact ⟨hke, by simpa [hke] using hk⟩
  have hfree (k : PidT) (hk : k ∈ y.freePiddescList) :
      k ∈ x.freePiddescList ∧ k ≠ e ∨ k = e ∧ y.pidTable e = PidDesc.empty := by
    rcases hf.list with hl | ⟨hl, hempty⟩
    · rw [hl] at hk
      exact .inl ⟨hk, fun hke => he (hke ▸ hk)⟩
    rw [hl] at hk
    rcases List.mem_append.mp hk with hk | hk
    · exact .inl ⟨hk, fun hke => he (hke ▸ hk)⟩
    · exact .inr ⟨List.mem_singleton.mp hk, hempty⟩
  constructor
  · rcases hf.list with hl | ⟨hl, -⟩
    · exact hl ▸ h.nodup
    · rw [hl, ← List.concat_eq_append]
      exact List.Nodup.concat he h.nodup
  · intro k hk
    rcases hfree k hk with ⟨hx, hne⟩ | ⟨rfl, hempty⟩
    · rw [hf.other k hne, h.empty k hx]
    · exact hempty
  · intro k hk
    rcases hfree k hk with ⟨hx, hne⟩ | ⟨rfl, -⟩
    · rw [update_of_ne hne, h.unowned k hx]
    · exact update_self ..
  · intro hr k p hk
    rw [hf.other k (hne hk).1, h.proc hr k p (hne hk).2]
  · intro hr k t hk
    rw [hf.other k (hne hk).1, h.thread hr k t (hne hk).2]

theorem cleared (hf : Freed x y e) (he : e ∉ x.freePiddescList)
    (hfree : own e = none ∨ ¬ recorded ∧ y.freePiddescList = x.freePiddescList) : Table recorded y own := by
  rcases hfree with hown | ⟨hr, hlist⟩
  · have hupdate : update own e none = own := by
      rw [← hown, update_eq_self]
    exact hupdate ▸ h.freed hf he
  constructor
  · exact hlist ▸ h.nodup
  · intro k hk
    rw [hlist] at hk
    rw [hf.other k fun hke => he (hke ▸ hk), h.empty k hk]
  · exact hlist ▸ h.unowned
  · exact fun h => absurd h hr
  · exact fun h => absurd h hr

theorem alloc {rest : List PidT} (hl : x.freePiddescList = e :: rest) (hp : ∀ p, a = .proc p → d.proc = some p)
    (ht : ∀ t, a = .thread t → d.thread = some t) :
    Table recorded ({ x with freePiddescList := rest }.setDesc e d) (update own e (some a)) := by
  obtain ⟨he, hnodup⟩ := List.nodup_cons.mp (hl ▸ h.nodup)
  have hmem {k : PidT} (hk : k ∈ rest) : k ∈ x.freePiddescList ∧ k ≠ e :=
    ⟨hl ▸ List.mem_cons_of_mem e hk, fun hke => he (hke ▸ hk)⟩
  constructor
  · exact hnodup
  · intro k hk
    rw [setDesc_other (hmem hk).2]
    exact h.empty k (hmem hk).1
  · intro k hk
    rw [update_of_ne (hmem hk).2]
    exact h.unowned k (hmem hk).1
  · intro hr k p hk
    by_cases hke : k = e
    · subst hke
      rw [setDesc_self]
      exact hp p (by simpa using hk)
    · rw [setDesc_other hke]
      exact h.proc hr k p (by simpa [hke] using hk)
  · intro hr k t hk
    by_cases hke : k = e
    · subst hke
      rw [setDesc_self]
      exact ht t (by simpa using hk)
    · rw [setDesc_other hke]
      exact h.thread hr k t (by simpa [hke] using hk)

theorem notMem_of_own (he : own e = some a) : e ∉ x.freePiddescList := by
  intro hmem
  rw [h.unowned e hmem] at he
  cases he

theorem notMem_of_entry (r : Roll) (hi : r.entry (x.pidTable e) = some i) : e ∉ x.freePiddescList := by
  intro hmem
  rw [h.empty e hmem] at hi
  cases r <;> cases hi

end Table

end

end CheviotKernel.Procs
