import CheviotKernel.Library.BitSets
import Mathlib.Tactic.IntervalCases

namespace CheviotKernel.Access

open BitSets

abbrev Id := ℕ

def superuser : Id := 0

def xOk : BitVec 32 := 1

def wOk : BitVec 32 := 2

def rOk : BitVec 32 := 4

structure Process where
  euid : Id
  egid : Id
  groups : List Id

structure VNode where
  uid : Id
  gid : Id
  mode : BitVec 32
  readOnly : Bool

inductive OpenMode
  | rdonly
  | wronly
  | rdwr
  deriving DecidableEq

inductive Errno
  | eperm
  | eacces
  deriving DecidableEq

def matchSupplementaryGroup (proc : Process) (gid : Id) : Bool := proc.groups.any (· = gid)

def permBits (mode : BitVec 32) (shift : ℕ) : BitVec 32 := (mode >>> shift) &&& (rOk ||| wOk ||| xOk)

def modeRefuses (filp : Option OpenMode) (desiredAccess : BitVec 32) : Bool :=
  match filp with
  | some .rdonly => desiredAccess &&& wOk ≠ 0
  | some .wronly => desiredAccess &&& rOk ≠ 0
  | _ => false

def checkAccess (current : Process) (vnode : VNode) (filp : Option OpenMode) (desiredAccess : BitVec 32) :
    Except Errno Unit :=
  if current.euid = superuser then .ok ()
  else
    let desiredAccess := desiredAccess &&& (rOk ||| wOk ||| xOk)
    if desiredAccess &&& wOk ≠ 0 ∧ vnode.readOnly = true then .error .eperm
    else if modeRefuses filp desiredAccess = true then .error .eperm
    else if current.euid = vnode.uid ∧ permBits vnode.mode 6 &&& desiredAccess = permBits vnode.mode 6 then .ok ()
    else if current.egid = vnode.gid ∧ permBits vnode.mode 3 &&& desiredAccess = permBits vnode.mode 3 then .ok ()
    else if matchSupplementaryGroup current vnode.gid = true ∧
        permBits vnode.mode 3 &&& desiredAccess = permBits vnode.mode 3 then .ok ()
    else if permBits vnode.mode 0 ||| desiredAccess = permBits vnode.mode 0 then .ok ()
    else .error .eacces

section Specification

inductive Permission
  | execute
  | write
  | read

def Permission.bit : Permission → ℕ
  | .execute => 0
  | .write => 1
  | .read => 2

inductive Class
  | other
  | group
  | owner

def Class.shift : Class → ℕ
  | .other => 0
  | .group => 3
  | .owner => 6

variable (current : Process) (vnode : VNode) (filp : Option OpenMode) (desiredAccess : BitVec 32)

def Wants (p : Permission) : Prop := desiredAccess.getLsbD p.bit = true
  deriving Decidable

def Has (c : Class) (p : Permission) : Prop := vnode.mode.getLsbD (c.shift + p.bit) = true
  deriving Decidable

def Member : Class → Prop
  | .other => True
  | .group => current.egid = vnode.gid ∨ vnode.gid ∈ current.groups
  | .owner => current.euid = vnode.uid

def Grants (c : Class) : Prop := ∀ p, Wants desiredAccess p → Has vnode c p

def MountAllows : Prop := ¬(Wants desiredAccess .write ∧ vnode.readOnly = true)

def OpenAllows : Prop :=
  match filp with
  | some .rdonly => ¬Wants desiredAccess .write
  | some .wronly => ¬Wants desiredAccess .read
  | _ => True

def Allowed : Prop :=
  MountAllows vnode desiredAccess ∧ OpenAllows filp desiredAccess ∧
    ∃ c, Member current vnode c ∧ Grants vnode desiredAccess c

def Spends (c : Class) : Prop := ∀ p, Has vnode c p → Wants desiredAccess p

def Own (c : Class) : Prop := c ≠ .other ∧ Member current vnode c

def Settled : Prop :=
  ¬MountAllows vnode desiredAccess ∨ ¬OpenAllows filp desiredAccess ∨ Grants vnode desiredAccess .other ∨
    (∀ c, Own current vnode c → ¬Spends vnode desiredAccess c ∧ ¬Grants vnode desiredAccess c) ∨
    ((∃ c, Own current vnode c ∧ Spends vnode desiredAccess c) ∧ ∃ c, Own current vnode c ∧ Grants vnode desiredAccess c)

end Specification

section Bits

variable {current : Process} {vnode : VNode} {filp : Option OpenMode} {d : BitVec 32}

theorem rwx_getLsbD (i : ℕ) : (rOk ||| wOk ||| xOk).getLsbD i = decide (i < 3) := by
  by_cases hi : i < 32
  · have hall : ∀ j : Fin 32, (rOk ||| wOk ||| xOk).getLsbD j = decide (j.val < 3) := by decide
    exact hall ⟨i, hi⟩
  · rw [BitVec.getLsbD_of_ge _ _ (by omega)]
    exact (decide_eq_false (by omega)).symm

theorem permBits_getLsbD (mode : BitVec 32) (shift i : ℕ) :
    (permBits mode shift).getLsbD i = (mode.getLsbD (shift + i) && decide (i < 3)) := by
  rw [permBits, BitVec.getLsbD_and, BitVec.getLsbD_ushiftRight, rwx_getLsbD]

theorem forall_bit_iff {P : ℕ → Prop} : (∀ i, i < 3 → P i) ↔ ∀ p : Permission, P p.bit := by
  constructor
  · intro h p
    apply h
    cases p <;> decide
  intro h i hi
  interval_cases i
  · exact h .execute
  · exact h .write
  · exact h .read

theorem masked_getLsbD (i : ℕ) : (d &&& (rOk ||| wOk ||| xOk)).getLsbD i = (d.getLsbD i && decide (i < 3)) := by
  rw [BitVec.getLsbD_and, rwx_getLsbD]

theorem spends_iff (c : Class) :
    permBits vnode.mode c.shift &&& (d &&& (rOk ||| wOk ||| xOk)) = permBits vnode.mode c.shift ↔ Spends vnode d c := by
  rw [and_eq_left_iff]
  refine Iff.trans ?_ (forall_bit_iff (P := fun i => vnode.mode.getLsbD (c.shift + i) = true → d.getLsbD i = true))
  apply forall_congr'
  intro i
  rw [permBits_getLsbD, masked_getLsbD]
  by_cases hi : i < 3 <;> simp [hi]

theorem grants_iff (c : Class) :
    permBits vnode.mode c.shift ||| (d &&& (rOk ||| wOk ||| xOk)) = permBits vnode.mode c.shift ↔ Grants vnode d c := by
  rw [or_eq_left_iff]
  refine Iff.trans ?_ (forall_bit_iff (P := fun i => d.getLsbD i = true → vnode.mode.getLsbD (c.shift + i) = true))
  apply forall_congr'
  intro i
  rw [permBits_getLsbD, masked_getLsbD]
  by_cases hi : i < 3 <;> simp [hi]

theorem wants_iff (p : Permission) : d &&& (rOk ||| wOk ||| xOk) &&& BitVec.twoPow 32 p.bit ≠ 0 ↔ Wants d p := by
  have hp : p.bit < 3 := by cases p <;> decide
  rw [Wants, BitVec.and_twoPow, masked_getLsbD]
  have hne : ¬BitVec.twoPow 32 p.bit = 0#32 := by cases p <;> decide
  simp [hp, hne]

theorem wants_write_iff : d &&& (rOk ||| wOk ||| xOk) &&& wOk ≠ 0 ↔ Wants d .write := wants_iff .write

theorem wants_read_iff : d &&& (rOk ||| wOk ||| xOk) &&& rOk ≠ 0 ↔ Wants d .read := wants_iff .read

theorem mountAllows_iff : ¬(d &&& (rOk ||| wOk ||| xOk) &&& wOk ≠ 0 ∧ vnode.readOnly = true) ↔ MountAllows vnode d := by
  rw [wants_write_iff]
  rfl

theorem openAllows_iff : ¬modeRefuses filp (d &&& (rOk ||| wOk ||| xOk)) = true ↔ OpenAllows filp d := by
  rcases filp with _ | _ | _ | _
  · simp [modeRefuses, OpenAllows]
  · rw [modeRefuses, decide_eq_true_eq, wants_write_iff]
    rfl
  · rw [modeRefuses, decide_eq_true_eq, wants_read_iff]
    rfl
  · simp [modeRefuses, OpenAllows]

theorem matchSupplementaryGroup_iff : matchSupplementaryGroup current vnode.gid = true ↔ vnode.gid ∈ current.groups := by
  simp [matchSupplementaryGroup]

def Passes (current : Process) (vnode : VNode) (filp : Option OpenMode) (d : BitVec 32) : Prop :=
  MountAllows vnode d ∧ OpenAllows filp d ∧
    ((current.euid = vnode.uid ∧ Spends vnode d .owner) ∨ (current.egid = vnode.gid ∧ Spends vnode d .group) ∨
      (vnode.gid ∈ current.groups ∧ Spends vnode d .group) ∨ Grants vnode d .other)

theorem checkAccess_ok_iff (hu : current.euid ≠ superuser) :
    checkAccess current vnode filp d = .ok () ↔ Passes current vnode filp d := by
  unfold checkAccess Passes
  rw [if_neg hu, ← mountAllows_iff, ← openAllows_iff, ← spends_iff .owner, ← spends_iff .group, ← grants_iff .other,
    ← matchSupplementaryGroup_iff]
  simp only [Class.shift]
  split_ifs <;> simp_all

theorem passes_iff : Passes current vnode filp d ↔ MountAllows vnode d ∧ OpenAllows filp d ∧
    ((∃ c, Own current vnode c ∧ Spends vnode d c) ∨ Grants vnode d .other) := by
  refine and_congr_right fun _ => and_congr_right fun _ => ?_
  constructor
  · rintro (⟨hm, hs⟩ | ⟨hm, hs⟩ | ⟨hm, hs⟩ | ho)
    · exact .inl ⟨.owner, ⟨by simp, hm⟩, hs⟩
    · exact .inl ⟨.group, ⟨by simp, .inl hm⟩, hs⟩
    · exact .inl ⟨.group, ⟨by simp, .inr hm⟩, hs⟩
    · exact .inr ho
  · rintro (⟨c, ⟨hc, hm⟩, hs⟩ | ho)
    · cases c with
      | other => exact absurd rfl hc
      | group => exact hm.elim (fun he => .inr (.inl ⟨he, hs⟩)) fun he => .inr (.inr (.inl ⟨he, hs⟩))
      | owner => exact .inl ⟨hm, hs⟩
    · exact .inr (.inr (.inr ho))

theorem allowed_iff : Allowed current vnode filp d ↔ MountAllows vnode d ∧ OpenAllows filp d ∧
    ((∃ c, Own current vnode c ∧ Grants vnode d c) ∨ Grants vnode d .other) := by
  refine and_congr_right fun _ => and_congr_right fun _ => ?_
  constructor
  · rintro ⟨c, hm, hg⟩
    by_cases hc : c = .other
    · exact .inr (hc ▸ hg)
    · exact .inl ⟨c, ⟨hc, hm⟩, hg⟩
  · rintro (⟨c, ⟨-, hm⟩, hg⟩ | ho)
    · exact ⟨c, hm, hg⟩
    · exact ⟨.other, trivial, ho⟩

end Bits

theorem checkAccess_allowed_iff_settled (current : Process) (vnode : VNode) (filp : Option OpenMode)
    (desiredAccess : BitVec 32) (hu : current.euid ≠ superuser) :
    (checkAccess current vnode filp desiredAccess = .ok () ↔ Allowed current vnode filp desiredAccess) ↔
      Settled current vnode filp desiredAccess := by
  rw [checkAccess_ok_iff hu, passes_iff, allowed_iff]
  unfold Settled
  by_cases hmount : MountAllows vnode desiredAccess
  · by_cases hopen : OpenAllows filp desiredAccess
    · by_cases ho : Grants vnode desiredAccess .other
      · simp [ho]
      simp only [hmount, hopen, ho, true_and, or_false, false_or, not_true_eq_false]
      constructor
      · intro h
        by_cases hs : ∃ c, Own current vnode c ∧ Spends vnode desiredAccess c
        · exact .inr ⟨hs, h.mp hs⟩
        · exact .inl fun c hc => ⟨fun hc' => hs ⟨c, hc, hc'⟩, fun hc' => hs (h.mpr ⟨c, hc, hc'⟩)⟩
      · rintro (hnone | ⟨hs, hg⟩)
        · refine iff_of_false ?_ ?_
          · rintro ⟨c, hc, hs⟩
            exact (hnone c hc).1 hs
          · rintro ⟨c, hc, hg⟩
            exact (hnone c hc).2 hg
        · exact iff_of_true hs hg
    · simp [hopen]
  · simp [hmount]

theorem owner_reads_and_writes : Allowed ⟨1000, 300, [200]⟩ ⟨1000, 100, 0o600, false⟩ (some .rdwr) (rOk ||| wOk) := by
  have hown : Own ⟨1000, 300, [200]⟩ ⟨1000, 100, 0o600, false⟩ .owner := ⟨by simp, rfl⟩
  refine ((checkAccess_allowed_iff_settled _ _ _ _ (by decide)).mpr ?_).mp rfl
  refine .inr (.inr (.inr (.inr ⟨⟨.owner, hown, ?_⟩, ⟨.owner, hown, ?_⟩⟩)))
  · intro p
    cases p <;> decide
  · intro p
    cases p <;> decide

theorem owner_of_locked_file_writes :
    checkAccess ⟨1000, 100, []⟩ ⟨1000, 100, 0, false⟩ none wOk = .ok () ∧
      ¬Allowed ⟨1000, 100, []⟩ ⟨1000, 100, 0, false⟩ none wOk := by
  refine ⟨rfl, ?_⟩
  rintro ⟨-, -, c, -, hg⟩
  exact absurd (hg .write rfl) (by simp [Has])

end CheviotKernel.Access
