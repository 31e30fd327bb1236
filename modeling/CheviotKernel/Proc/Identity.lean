import Mathlib.Data.Set.Insert
import Mathlib.Data.List.Basic

namespace CheviotKernel.Identity

abbrev Id := ℤ

def superuser : Id := 0

structure Limits where
  uidMax : ℤ
  gidMax : ℤ
  ngroupsMax : ℤ

structure Ids where
  uid : Id
  euid : Id
  suid : Id
  gid : Id
  egid : Id
  sgid : Id
  groups : List Id
  deriving DecidableEq

inductive Errno
  | einval
  | eperm
  | efault
  deriving DecidableEq

abbrev Result := Except Errno Unit

section

variable (lim : Limits) (i : Ids)

def sysSetuid (uid : Id) : Ids × Result :=
  if uid < 0 ∨ uid > lim.uidMax then (i, .error .einval)
  else if i.uid ≠ uid ∨ i.euid ≠ superuser then (i, .error .eperm)
  else ({ i with uid := uid, euid := uid, suid := uid }, .ok ())

def sysSetgid (gid : Id) : Ids × Result :=
  if gid < 0 ∨ gid > lim.gidMax then (i, .error .einval)
  else if i.gid ≠ gid ∨ i.euid ≠ superuser then (i, .error .eperm)
  else ({ i with gid := gid, egid := gid, sgid := gid }, .ok ())

def sysSeteuid (uid : Id) : Ids × Result :=
  if uid < 0 ∨ uid > lim.uidMax then (i, .error .einval)
  else if (i.uid ≠ uid ∧ i.suid ≠ uid) ∨ i.euid ≠ superuser then (i, .error .eperm)
  else ({ i with euid := uid }, .ok ())

def sysSetegid (gid : Id) : Ids × Result :=
  if gid < 0 ∨ gid > lim.gidMax then (i, .error .einval)
  else if (i.gid ≠ gid ∧ i.sgid ≠ gid) ∨ i.euid ≠ superuser then (i, .error .eperm)
  else ({ i with egid := gid }, .ok ())

def unlessMinusOne (new old : Id) : Id := if new ≠ -1 then new else old

def setreuid (ruid euid : Id) : Ids × Result :=
  if ruid < 0 ∨ euid < 0 then (i, .error .einval)
  else if i.euid = superuser ∨ ((ruid = i.uid ∨ ruid = i.euid) ∧ (euid = i.uid ∨ euid = i.euid)) then
    ({ i with uid := unlessMinusOne ruid i.uid, euid := unlessMinusOne euid i.euid }, .ok ())
  else (i, .error .eperm)

def setregid (rgid egid : Id) : Ids × Result :=
  if i.euid = superuser ∨ ((rgid = i.gid ∨ rgid = i.egid) ∧ (egid = i.gid ∨ egid = i.egid)) then
    ({ i with gid := unlessMinusOne rgid i.gid, egid := unlessMinusOne egid i.egid }, .ok ())
  else (i, .error .eperm)

def setresuid (ruid euid suid : Id) : Ids × Result :=
  if i.euid = superuser ∨ ((ruid = i.uid ∨ ruid = i.euid ∨ ruid = i.suid) ∧
      (euid = i.uid ∨ euid = i.euid ∨ euid = i.suid) ∧ (suid = i.uid ∨ suid = i.euid ∨ suid = i.suid)) then
    ({ i with
      uid := unlessMinusOne ruid i.uid
      euid := unlessMinusOne euid i.euid
      suid := unlessMinusOne suid i.suid }, .ok ())
  else (i, .error .eperm)

def setresgid (rgid egid sgid : Id) : Ids × Result :=
  if i.euid = superuser ∨ ((rgid = i.gid ∨ rgid = i.egid ∨ rgid = i.sgid) ∧
      (egid = i.gid ∨ egid = i.egid ∨ egid = i.sgid) ∧ (sgid = i.gid ∨ sgid = i.egid ∨ sgid = i.sgid)) then
    ({ i with
      gid := unlessMinusOne rgid i.gid
      egid := unlessMinusOne egid i.egid
      sgid := unlessMinusOne sgid i.sgid }, .ok ())
  else (i, .error .eperm)

inductive GroupList
  | null
  | unreadable
  | array (gid : ℕ → Id)

def GroupList.isNull : GroupList → Bool
  | .null => true
  | _ => false

def copyinGroups (ngroups : ℕ) : GroupList → Option (List Id)
  | .array gid => some ((List.range ngroups).map gid)
  | _ => if ngroups = 0 then some [] else none

def sysSetgroups (ngroups : ℤ) (grouplist : GroupList) : Ids × Result :=
  if ngroups < 0 ∨ ngroups > lim.ngroupsMax then (i, .error .einval)
  else if ngroups > 0 ∧ grouplist.isNull = true then (i, .error .efault)
  else match copyinGroups ngroups.toNat grouplist with
    | none => ({ i with groups := [] }, .error .efault)
    | some groups =>
      if groups.any fun g => g < 0 || g > lim.gidMax then ({ i with groups := [] }, .error .einval)
      else ({ i with groups := groups }, .ok ())

def forkIds (old : Ids) : Ids := old

inductive Call
  | setuid (uid : Id)
  | seteuid (uid : Id)
  | setgid (gid : Id)
  | setegid (gid : Id)
  | setreuid (ruid euid : Id)
  | setregid (rgid egid : Id)
  | setresuid (ruid euid suid : Id)
  | setresgid (rgid egid sgid : Id)
  | setgroups (ngroups : ℤ) (grouplist : GroupList)
  | fork

def perform : Call → Ids
  | .setuid uid => (sysSetuid lim i uid).1
  | .seteuid uid => (sysSeteuid lim i uid).1
  | .setgid gid => (sysSetgid lim i gid).1
  | .setegid gid => (sysSetegid lim i gid).1
  | .setreuid ruid euid => (setreuid i ruid euid).1
  | .setregid rgid egid => (setregid i rgid egid).1
  | .setresuid ruid euid suid => (setresuid i ruid euid suid).1
  | .setresgid rgid egid sgid => (setresgid i rgid egid sgid).1
  | .setgroups ngroups grouplist => (sysSetgroups lim i ngroups grouplist).1
  | .fork => forkIds i

def run (lim : Limits) (i : Ids) : List Call → Ids
  | [] => i
  | c :: calls => run lim (perform lim i c) calls

def Unprivileged (lim : Limits) : Ids → List Call → Prop
  | _, [] => True
  | i, c :: calls => i.euid ≠ superuser ∧ Unprivileged lim (perform lim i c) calls

def Ids.uids : Set Id := {i.uid, i.euid, i.suid}

def Ids.mainGids : Set Id := {i.gid, i.egid, i.sgid}

def Ids.gids : Set Id := i.mainGids ∪ {g | g ∈ i.groups}

structure NotGrown (i j : Ids) : Prop where
  uids : j.uids ⊆ i.uids
  gids : j.gids ⊆ i.gids

def Call.newGroups : Call → Option (List Id)
  | .setgroups ngroups grouplist =>
    if ngroups < 0 ∨ ngroups > lim.ngroupsMax then none
    else if ngroups > 0 ∧ grouplist.isNull = true then none
    else match copyinGroups ngroups.toNat grouplist with
      | none => some []
      | some groups => if groups.any fun g => g < 0 || g > lim.gidMax then some [] else some groups
  | _ => none

def lastGroups (lim : Limits) : List Call → Option (List Id)
  | [] => none
  | c :: calls => (lastGroups lim calls).or (c.newGroups lim)

def Named (calls : List Call) : Prop :=
  ∀ groups, lastGroups lim calls = some groups → ∀ g ∈ groups, g ∈ i.gids

end

section

variable {lim : Limits} {i j : Ids} {s : Set Id} {calls : List Call} {new old a b c : Id}

theorem mem_unlessMinusOne (hnew : new ∈ s) (hold : old ∈ s) : unlessMinusOne new old ∈ s := by
  unfold unlessMinusOne
  split
  · exact hnew
  · exact hold

theorem three_subset (ha : a ∈ s) (hb : b ∈ s) (hc : c ∈ s) : ({a, b, c} : Set Id) ⊆ s := by
  intro x hx
  rcases hx with rfl | rfl | rfl
  · exact ha
  · exact hb
  · exact hc

def Ids.Within (j i : Ids) : Prop := j.uids ⊆ i.uids ∧ j.mainGids ⊆ i.mainGids

theorem Ids.Within.of_eq (h : j = i) : j.Within i := h ▸ ⟨subset_rfl, subset_rfl⟩

theorem sysSetgroups_groups (ngroups : ℤ) (grouplist : GroupList) : (sysSetgroups lim i ngroups grouplist).1 =
      { i with groups := ((Call.setgroups ngroups grouplist).newGroups lim).getD i.groups } := by
  simp only [sysSetgroups, Call.newGroups]
  split_ifs with hcount hnull
  · rfl
  · rfl
  · cases copyinGroups ngroups.toNat grouplist with
    | none => rfl
    | some groups =>
      dsimp only
      split_ifs <;> rfl

section

variable (i : Ids) (c : Call)

theorem Ids.uid_mem : i.uid ∈ i.uids := .inl rfl

theorem Ids.euid_mem : i.euid ∈ i.uids := .inr (.inl rfl)

theorem Ids.suid_mem : i.suid ∈ i.uids := .inr (.inr rfl)

theorem Ids.gid_mem : i.gid ∈ i.mainGids := .inl rfl

theorem Ids.egid_mem : i.egid ∈ i.mainGids := .inr (.inl rfl)

theorem Ids.sgid_mem : i.sgid ∈ i.mainGids := .inr (.inr rfl)

theorem perform_groups : (perform lim i c).groups = (c.newGroups lim).getD i.groups := by
  cases c with
  | setgroups ngroups grouplist => exact congrArg Ids.groups (sysSetgroups_groups ngroups grouplist)
  | fork => rfl
  | _ =>
    simp only [perform, sysSetuid, sysSeteuid, sysSetgid, sysSetegid, setreuid, setregid,
      setresuid, setresgid]
    split_ifs <;> rfl

end

section

variable (h : i.euid ≠ superuser)
include h

theorem setreuid_within (ruid euid : Id) : (setreuid i ruid euid).1.Within i := by
  unfold setreuid
  split_ifs with hneg hmay
  · exact .of_eq rfl
  · obtain ⟨hr, he⟩ := hmay.resolve_left h
    exact ⟨three_subset (mem_unlessMinusOne (hr.imp_right .inl) i.uid_mem)
      (mem_unlessMinusOne (he.imp_right .inl) i.euid_mem) i.suid_mem, subset_rfl⟩
  · exact .of_eq rfl

theorem setresuid_within (ruid euid suid : Id) : (setresuid i ruid euid suid).1.Within i := by
  unfold setresuid
  split_ifs with hmay
  · obtain ⟨hr, he, hs⟩ := hmay.resolve_left h
    exact ⟨three_subset (mem_unlessMinusOne hr i.uid_mem) (mem_unlessMinusOne he i.euid_mem)
      (mem_unlessMinusOne hs i.suid_mem), subset_rfl⟩
  · exact .of_eq rfl

theorem setregid_within (rgid egid : Id) : (setregid i rgid egid).1.Within i := by
  unfold setregid
  split_ifs with hmay
  · obtain ⟨hr, he⟩ := hmay.resolve_left h
    exact ⟨subset_rfl, three_subset (mem_unlessMinusOne (hr.imp_right .inl) i.gid_mem)
      (mem_unlessMinusOne (he.imp_right .inl) i.egid_mem) i.sgid_mem⟩
  · exact .of_eq rfl

theorem setresgid_within (rgid egid sgid : Id) : (setresgid i rgid egid sgid).1.Within i := by
  unfold setresgid
  split_ifs with hmay
  · obtain ⟨hr, he, hs⟩ := hmay.resolve_left h
    exact ⟨subset_rfl, three_subset (mem_unlessMinusOne hr i.gid_mem) (mem_unlessMinusOne he i.egid_mem)
      (mem_unlessMinusOne hs i.sgid_mem)⟩
  · exact .of_eq rfl

theorem superuser_calls (id : Id) : (sysSetuid lim i id).1 = i ∧ (sysSeteuid lim i id).1 = i ∧
      (sysSetgid lim i id).1 = i ∧ (sysSetegid lim i id).1 = i := by
  simp only [sysSetuid, sysSeteuid, sysSetgid, sysSetegid, h, ne_eq, not_false_eq_true, or_true]
  refine ⟨?_, ?_, ?_, ?_⟩ <;> split <;> rfl

theorem perform_within (c : Call) : (perform lim i c).Within i := by
  cases c with
  | setuid uid => exact .of_eq (superuser_calls h uid).1
  | seteuid uid => exact .of_eq (superuser_calls h uid).2.1
  | setgid gid => exact .of_eq (superuser_calls h gid).2.2.1
  | setegid gid => exact .of_eq (superuser_calls h gid).2.2.2
  | setreuid ruid euid => exact setreuid_within h ruid euid
  | setregid rgid egid => exact setregid_within h rgid egid
  | setresuid ruid euid suid => exact setresuid_within h ruid euid suid
  | setresgid rgid egid sgid => exact setresgid_within h rgid egid sgid
  | setgroups ngroups grouplist =>
    rw [perform, sysSetgroups_groups]
    exact ⟨subset_rfl, subset_rfl⟩
  | fork => exact .of_eq rfl

end

theorem run_within (h : Unprivileged lim i calls) : (run lim i calls).Within i := by
  induction calls generalizing i with
  | nil => exact .of_eq rfl
  | cons c calls ih =>
    have hc : (perform lim i c).Within i := perform_within h.1 c
    have hrest := ih h.2
    exact ⟨hrest.1.trans hc.1, hrest.2.trans hc.2⟩

theorem run_groups (calls : List Call) (i : Ids) : (run lim i calls).groups = (lastGroups lim calls).getD i.groups := by
  induction calls generalizing i with
  | nil => rfl
  | cons c calls ih =>
    rw [run, ih, perform_groups, lastGroups]
    cases lastGroups lim calls <;> rfl

theorem unprivileged_of_not_mem (h : superuser ∉ i.uids) : Unprivileged lim i calls := by
  induction calls generalizing i with
  | nil => trivial
  | cons c calls ih =>
    have heuid : i.euid ≠ superuser := fun he => h (he ▸ i.euid_mem)
    exact ⟨heuid, ih fun hmem => h ((perform_within heuid c).1 hmem)⟩

theorem gids_subset_iff (h : Unprivileged lim i calls) : (run lim i calls).gids ⊆ i.gids ↔ Named lim i calls := by
  constructor
  · intro hsub groups hlast g hg
    apply hsub
    refine .inr (?_ : g ∈ (run lim i calls).groups)
    rw [run_groups, hlast]
    exact hg
  · intro hnamed g hg
    rcases hg with hmain | hgroup
    · exact .inl ((run_within h).2 hmain)
    rw [run_groups] at hgroup
    cases hlast : lastGroups lim calls with
    | none =>
      rw [hlast] at hgroup
      exact .inr hgroup
    | some groups =>
      rw [hlast] at hgroup
      exact hnamed groups hlast g hgroup

theorem identity_grows_by_setgroups (lim : Limits) (i : Ids) (calls : List Call) :
    (superuser ∉ i.uids → Unprivileged lim i calls) ∧
      (Unprivileged lim i calls → (NotGrown i (run lim i calls) ↔ Named lim i calls)) := by
  refine ⟨unprivileged_of_not_mem, fun h => ?_⟩
  rw [← gids_subset_iff h]
  exact ⟨NotGrown.gids, fun hgids => ⟨(run_within h).1, hgids⟩⟩

def user : Ids := ⟨100, 100, 100, 20, 20, 20, [30]⟩

def wide : Limits := ⟨65535, 65535, 8⟩

theorem user_keeps_identity :
    superuser ∉ user.uids ∧ NotGrown user (run wide user [.setgroups 1 (.array fun _ => 20), .setreuid 100 100]) := by
  obtain ⟨hunprivileged, hgrown⟩ := identity_grows_by_setgroups wide user
    [.setgroups 1 (.array fun _ => 20), .setreuid 100 100]
  have huids : superuser ∉ user.uids := by simp [Ids.uids, superuser, user]
  refine ⟨huids, (hgrown (hunprivileged huids)).mpr ?_⟩
  intro groups hlast g hg
  obtain rfl : [20] = groups := Option.some.inj hlast
  obtain rfl : g = 20 := List.mem_singleton.mp hg
  exact .inl user.gid_mem

theorem user_joins_group_zero :
    Unprivileged wide user [.setgroups 1 (.array fun _ => 0)] ∧
      (0 : Id) ∈ (run wide user [.setgroups 1 (.array fun _ => 0)]).gids ∧ (0 : Id) ∉ user.gids := by
  refine ⟨⟨by decide, trivial⟩, .inr ?_, ?_⟩
  · exact List.mem_singleton_self 0
  · simp [Ids.gids, Ids.mainGids, user]

-- What a call with a valid id x does by the saved-id rules: privileged is the process after it for the superuser, and
-- effective with the effective id set to x.
def SavedIdRule (i : Ids) (x real saved : Id) (privileged effective : Ids) (r : Ids × Result) : Prop :=
  if i.euid = superuser then r = (privileged, .ok ())
  else if x = real ∨ x = saved then r = (effective, .ok ())
  else r.1 = i ∧ r.2 ≠ .ok ()

theorem savedIdRule_iff {x real saved : Id} {privileged effective : Ids} {invalid deny : Prop} [Decidable invalid]
    [Decidable deny] (hvalid : ¬invalid) :
    SavedIdRule i x real saved privileged effective (if invalid then (i, .error .einval)
      else if deny ∨ i.euid ≠ superuser then (i, .error .eperm) else (privileged, .ok ())) ↔
      if i.euid = superuser then ¬deny else x ≠ real ∧ x ≠ saved := by
  by_cases hs : i.euid = superuser <;> simp [SavedIdRule, hvalid, hs]

theorem saved_id_rules_iff (lim : Limits) (i : Ids) (x : Id) :
    (0 ≤ x ∧ x ≤ lim.uidMax →
      (SavedIdRule i x i.uid i.suid { i with uid := x, euid := x, suid := x } { i with euid := x } (sysSetuid lim i x) ↔
        if i.euid = superuser then x = i.uid else x ≠ i.uid ∧ x ≠ i.suid) ∧
      (SavedIdRule i x i.uid i.suid { i with euid := x } { i with euid := x } (sysSeteuid lim i x) ↔
        (i.euid = superuser ↔ x = i.uid ∨ x = i.suid))) ∧
    (0 ≤ x ∧ x ≤ lim.gidMax →
      (SavedIdRule i x i.gid i.sgid { i with gid := x, egid := x, sgid := x } { i with egid := x } (sysSetgid lim i x) ↔
        if i.euid = superuser then x = i.gid else x ≠ i.gid ∧ x ≠ i.sgid) ∧
      (SavedIdRule i x i.gid i.sgid { i with egid := x } { i with egid := x } (sysSetegid lim i x) ↔
        (i.euid = superuser ↔ x = i.gid ∨ x = i.sgid))) := by
  have hvalid {m : ℤ} (h : 0 ≤ x ∧ x ≤ m) : ¬ (x < 0 ∨ x > m) :=
    not_or.mpr ⟨Int.not_lt.mpr h.1, Int.not_lt.mpr h.2⟩
  refine ⟨fun h => ⟨(savedIdRule_iff (hvalid h)).trans ?_, (savedIdRule_iff (hvalid h)).trans ?_⟩,
    fun h => ⟨(savedIdRule_iff (hvalid h)).trans ?_, (savedIdRule_iff (hvalid h)).trans ?_⟩⟩ <;> grind

theorem user_refused_other_id :
    SavedIdRule user 7 100 100 { user with euid := 7 } { user with euid := 7 } (sysSeteuid wide user 7) :=
  (((saved_id_rules_iff wide user 7).1 (by decide)).2).mpr (by decide)

theorem superuser_cannot_change_uid : sysSetuid wide ⟨0, 0, 0, 0, 0, 0, []⟩ 7 = (⟨0, 0, 0, 0, 0, 0, []⟩, .error .eperm) ∧
    sysSeteuid wide ⟨7, 8, 7, 0, 0, 0, []⟩ 7 = (⟨7, 8, 7, 0, 0, 0, []⟩, .error .eperm) := by
  decide

end

end CheviotKernel.Identity
