import CheviotKernel.Library.Roster
import CheviotKernel.Proc.Lifecycle

namespace CheviotKernel.Procs

open Roster

def pgrps (x : Ids) : Roster PidT PgrpId ProcId :=
  ⟨fun e => (x.pidTable e).pgrp, fun i => (x.pgrp i).processList, x.freePgrpList⟩

def sessions (x : Ids) : Roster PidT SessionId ProcId :=
  ⟨fun e => (x.pidTable e).session, fun i => (x.session i).processList, x.freeSessionList⟩

def Roll.roster : Roll → Ids → Roster PidT Nat ProcId
  | .group => pgrps
  | .session => sessions

def Roll.found : Roll → Ids → Nat → PidT → ProcId → Ids
  | .group, x, i, sid, p => x.setPgrp i ⟨sid, [p]⟩
  | .session, x, i, sid, p => x.setSession i ⟨sid, [p]⟩

section Ids

variable {cfg : Config} {x y : Ids} {e : PidT} {p : ProcId} {d : PidDesc} {i : Nat} (r : Roll)

theorem Roll.roster_table (x : Ids) (e : PidT) : (r.roster x).table e = r.entry (x.pidTable e) := by
  cases r <;> rfl

theorem Roll.roster_members (x : Ids) (i : Nat) : (r.roster x).members i = r.list x i := by
  cases r <;> rfl

theorem Roll.entry_of_roster (h : r.roster y = r.roster x) (k : PidT) :
    r.entry (y.pidTable k) = r.entry (x.pidTable k) := by
  rw [← r.roster_table, ← r.roster_table, h]

theorem Roll.roster_of_table (hd : ∀ k, r.entry (y.pidTable k) = r.entry (x.pidTable k)) (hpgrp : y.pgrp = x.pgrp)
    (hsession : y.session = x.session) (hpgrps : y.freePgrpList = x.freePgrpList)
    (hsessions : y.freeSessionList = x.freeSessionList) : r.roster y = r.roster x := by
  cases r
  · exact Roster.ext (funext hd) (by simp [Roll.roster, pgrps, hpgrp]) hpgrps
  · exact Roster.ext (funext hd) (by simp [Roll.roster, sessions, hsession]) hsessions

theorem Roll.roster_setDesc (hd : r.entry d = r.entry (x.pidTable e)) : r.roster (x.setDesc e d) = r.roster x := by
  refine r.roster_of_table (fun k => ?_) rfl rfl rfl rfl
  by_cases hk : k = e
  · subst hk
    simp [hd]
  · simp [hk]

theorem Roll.drop_of_members (h : ∀ i, r.entry (x.pidTable e) = some i → r.list x i ≠ []) : r.drop x e = x := by
  rcases r.drop_cases x e with ⟨hd, -⟩ | ⟨i, hi, hnil, -⟩
  · exact hd
  · exact absurd hnil (h i hi)

section

variable (h : ∀ (r : Roll) i, r.entry (x.pidTable e) = some i → r.list x i ≠ [])
include h

theorem freeDesc_of_members :
    freeDesc x e = if (x.pidTable e).session = none ∧ (x.pidTable e).pgrp = none then
        { x.setDesc e { x.pidTable e with proc := none, thread := none } with
          freePiddescList := x.freePiddescList ++ [e] }
      else x.setDesc e { x.pidTable e with proc := none, thread := none } := by
  have hsame (r : Roll) : r.drop (x.setDesc e { x.pidTable e with proc := none, thread := none }) e =
      x.setDesc e { x.pidTable e with proc := none, thread := none } := by
    refine r.drop_of_members ?_
    rw [setDesc_self]
    cases r
    · exact h .group
    · exact h .session
  unfold freeDesc
  dsimp only
  rw [show dropSession _ e = _ from hsame .session, show dropPgrp _ e = _ from hsame .group, setDesc_self]
  rfl

theorem Roll.roster_freeDesc : r.roster (freeDesc x e) = r.roster x := by
  have hsame : r.roster (x.setDesc e { x.pidTable e with proc := none, thread := none }) = r.roster x :=
    r.roster_setDesc (by cases r <;> rfl)
  rw [freeDesc_of_members h]
  split
  · refine Eq.trans ?_ hsame
    exact r.roster_of_table (fun _ => rfl) rfl rfl rfl rfl
  · exact hsame

end

theorem Roll.roster_drop (hi : r.entry (x.pidTable e) = some i) :
    r.roster (r.drop (r.setList x i ((r.list x i).erase p)) e) = (r.roster x).leave e i p := by
  cases r
  all_goals
    simp only [Roll.entry] at hi
    simp only [Roll.drop, dropPgrp, dropSession, Roll.setList, Ids.setPgrp, Ids.setSession, Roll.list, hi,
      Function.update_self, Roster.leave]
    split
    · rename_i hnil
      rw [if_pos (by exact hnil)]
      apply Roster.ext
      · funext k
        by_cases hk : k = e
        · simp [Roll.roster, pgrps, sessions, hk]
        · simp [Roll.roster, pgrps, sessions, freePgrp, freeSession, hk]
      · funext j
        by_cases hj : j = i
        · simp [Roll.roster, pgrps, sessions, Ids.setDesc, freePgrp, freeSession, hj, hnil]
        · simp [Roll.roster, pgrps, sessions, Ids.setDesc, freePgrp, freeSession, hj]
      · simp [Roll.roster, pgrps, sessions, Ids.setDesc, freePgrp, freeSession]
    · rename_i hcons
      rw [if_neg (by exact hcons)]
      refine Roster.ext rfl (funext fun j => ?_) rfl
      by_cases hj : j = i <;> simp [Roll.roster, pgrps, sessions, hj]

variable {r} {q : Roll}

theorem Roll.roster_setList_other (hq : q ≠ r) (x : Ids) (i : Nat) (l : List ProcId) :
    q.roster (r.setList x i l) = q.roster x := by
  cases r <;> cases q <;> first | rfl | exact absurd rfl hq

theorem Roll.roster_drop_other (hq : q ≠ r) (x : Ids) (e : PidT) : q.roster (r.drop x e) = q.roster x := by
  rcases r.drop_cases x e with ⟨hd, -⟩ | ⟨i, -, -, hd⟩
  · rw [hd]
  rw [hd]
  cases r <;> cases q
  · exact absurd rfl hq
  · exact (Roll.session.roster_setDesc (by rfl)).trans rfl
  · exact (Roll.group.roster_setDesc (by rfl)).trans rfl
  · exact absurd rfl hq

theorem Roll.roster_left {key : Roll → ProcId → Option PidT} (h : ∀ q : Roll, (q.roster x).Agrees (key q))
    (hi : r.entry (x.pidTable e) = some i) (hp : key r p = some e) :
    r.roster (r.left x e i p) = (r.roster x).leave e i p ∧ ∀ q, q ≠ r → q.roster (r.left x e i p) = q.roster x := by
  have hleave := r.roster_drop (p := p) hi
  have hsame (q : Roll) (hq : q ≠ r) := (roster_drop_other hq _ e).trans
    (roster_setList_other hq x i ((r.list x i).erase p))
  have hfull (q : Roll) (j : Nat) (hj : q.entry ((r.drop (r.setList x i ((r.list x i).erase p)) e).pidTable e) = some j) :
      q.list (r.drop (r.setList x i ((r.list x i).erase p)) e) j ≠ [] := by
    rw [← q.roster_table] at hj
    rw [← q.roster_members]
    by_cases hq : q = r
    · subst hq
      exact (hleave ▸ (h q).leave (q.roster_table x e ▸ hi) hp).inhabited e j hj
    · exact (hsame q hq ▸ h q).inhabited e j hj
  rw [r.left_eq]
  exact ⟨(r.roster_freeDesc hfull).trans hleave, fun q hq => (q.roster_freeDesc hfull).trans (hsame q hq)⟩

theorem Roll.roster_join {g : PidT} (hi : r.find cfg x g = some i) :
    r.roster (r.join cfg x g p) = (r.roster x).join i p ∧ ∀ q, q ≠ r → q.roster (r.join cfg x g p) = q.roster x := by
  rw [r.join_eq, hi]
  refine ⟨?_, fun q hq => roster_setList_other hq x i _⟩
  cases r
  all_goals
    refine Roster.ext rfl (funext fun j => ?_) rfl
    by_cases hj : j = i
    all_goals simp [Roll.roster, pgrps, sessions, Roll.setList, Roll.list, Ids.setPgrp, Ids.setSession, Roster.join, hj]

theorem Roll.roster_found (ha : r.alloc x = some (i, y)) (sid : PidT) (hd : r.entry d = some i)
    (hother : ∀ q, q ≠ r → q.entry d = q.entry (x.pidTable e)) :
    ∃ rest, (r.roster x).free = i :: rest ∧
      r.roster ((r.found y i sid p).setDesc e d) = (r.roster x).found e i rest p ∧
      ∀ q, q ≠ r → q.roster ((r.found y i sid p).setDesc e d) = q.roster x := by
  cases r
  all_goals
    simp only [Roll.alloc, allocPgrp, allocSession] at ha
    split at ha
    · cases ha
    rename_i j rest hfree
    cases ha
    refine ⟨rest, hfree, Roster.ext (funext fun k => ?_) (funext fun j => ?_) rfl, fun q hq => ?_⟩
    · by_cases hk : k = e
      · simpa [Roll.roster, pgrps, sessions, Roster.found, hk, Roll.entry] using hd
      · simp [Roll.roster, pgrps, sessions, Roster.found, hk, Roll.found, Ids.setPgrp, Ids.setSession]
    · by_cases hj : j = i
      · simp [Roll.roster, pgrps, sessions, Roster.found, Roll.found, Ids.setPgrp, Ids.setSession, Ids.setDesc, hj]
      · simp [Roll.roster, pgrps, sessions, Roster.found, Roll.found, Ids.setPgrp, Ids.setSession, Ids.setDesc, hj]
    · refine Eq.trans (q.roster_setDesc ?_) ?_
      · exact hother q hq
      · cases q <;> first | rfl | exact absurd rfl hq

end Ids

end CheviotKernel.Procs
