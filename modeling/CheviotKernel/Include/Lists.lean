import CheviotKernel.Library.Ring

namespace CheviotKernel.Lists

open Function Linked

variable {ι ν : Type} [DecidableEq ι] [DecidableEq ν] {i : ι} {p x n : ν}

section

variable (L : Links ι ν)

def dlistInit (i : ι) : Links ι ν :=
  (L.setHead i none).setTail i none

def dlistAddHead (i : ι) (x : ν) : Links ι ν :=
  let L := L.setNext x (L.head i)
  let L := L.setPrev x none
  let L := match L.head i with
    | some h => L.setPrev h (some x)
    | none => L.setTail i (some x)
  L.setHead i (some x)

def dlistAddTail (i : ι) (x : ν) : Links ι ν :=
  let L := L.setNext x none
  let L := L.setPrev x (L.tail i)
  let L := match L.tail i with
    | some t => L.setNext t (some x)
    | none => L.setHead i (some x)
  L.setTail i (some x)

-- The C macro dereferences the head; every caller tests it against NULL first.
def dlistRemHead (i : ι) : Links ι ν :=
  match L.head i with
  | none => L
  | some h =>
    let L := L.setHead i (L.next h)
    match L.head i with
    | some n => L.setPrev n none
    | none => L.setTail i none

def dlistRemTail (i : ι) : Links ι ν :=
  match L.tail i with
  | none => L
  | some t =>
    let L := L.setTail i (L.prev t)
    match L.tail i with
    | some p => L.setNext p none
    | none => L.setHead i none

def dlistInsertAfter (i : ι) (p x : ν) : Links ι ν :=
  let L := L.setNext x (L.next p)
  let L := L.setPrev x (some p)
  let L := L.setNext p (some x)
  match L.next x with
  | some n => L.setPrev n (some x)
  | none => L.setTail i (some x)

def dlistInsertBefore (i : ι) (n x : ν) : Links ι ν :=
  let L := L.setPrev x (L.prev n)
  let L := L.setNext x (some n)
  let L := L.setPrev n (some x)
  match L.prev x with
  | some p => L.setNext p (some x)
  | none => L.setHead i (some x)

def dlistRemEntry (i : ι) (x : ν) : Links ι ν :=
  let L := match L.prev x with
    | some p => L.setNext p (L.next x)
    | none => L.setHead i (L.next x)
  match L.next x with
  | some n => L.setPrev n (L.prev x)
  | none => L.setTail i (L.prev x)

def dlistClear (i : ι) (x : ν) : Links ι ν :=
  ((dlistInit L i).setNext x none).setPrev x none

theorem addHead_eq_splice (i : ι) (x : ν) : dlistAddHead L i x = L.splice i none x (L.head i) := by
  cases h : L.head i <;> simp [dlistAddHead, h] <;> rfl

theorem addTail_eq_splice (i : ι) (x : ν) : dlistAddTail L i x = L.splice i (L.tail i) x none := by
  cases h : L.tail i <;> simp [dlistAddTail, Links.splice, Links.pointNext, Links.pointPrev, h]

theorem remHead_eq_cut {L : Links ι ν} {h : ν} (hh : L.head i = some h) :
    dlistRemHead L i = L.cut i none (L.next h) := by
  cases hn : L.next h <;> simp [dlistRemHead, Links.cut, Links.pointNext, Links.pointPrev, hh, hn]

theorem remTail_eq_cut {L : Links ι ν} {t : ν} (ht : L.tail i = some t) :
    dlistRemTail L i = L.cut i (L.prev t) none := by
  cases hp : L.prev t <;> simp [dlistRemTail, Links.cut, Links.pointNext, Links.pointPrev, ht, hp] <;> rfl

theorem insertAfter_eq_splice (i : ι) (hne : x ≠ p) : dlistInsertAfter L i p x = L.splice i (some p) x (L.next p) := by
  cases h : L.next p <;>
    simp [dlistInsertAfter, Links.splice, Links.pointNext, Links.pointPrev, h, hne]

theorem insertBefore_eq_splice (i : ι) (hne : x ≠ n) :
    dlistInsertBefore L i n x = L.splice i (L.prev n) x (some n) := by
  cases h : L.prev n <;>
    simp [dlistInsertBefore, h, hne] <;> rfl

theorem remEntry_eq_cut (i : ι) (x : ν) : dlistRemEntry L i x = L.cut i (L.prev x) (L.next x) := by
  cases hp : L.prev x with
  | none => cases hn : L.next x <;>
      simp [dlistRemEntry, Links.cut, Links.pointNext, Links.pointPrev, hp, hn]
  | some p =>
    have hsame : update L.next p (L.next x) x = L.next x := by
      by_cases h : x = p
      · subst h; simp
      · simp [h]
    cases hn : L.next x <;>
      simp [dlistRemEntry, Links.cut, Links.pointNext, Links.pointPrev, hp, hn, hn ▸ hsame]

end

section Families

variable {L : Links ι ν} {ls : ι → List ν} {i j : ι} {x q p n : ν} {pre post xs : List ν}

omit [DecidableEq ν] in
theorem mem_remove (hn : (pre ++ x :: post).Nodup) : q ∈ pre ++ post ↔ q ≠ x ∧ q ∈ pre ++ x :: post := by
  have hout := (List.nodup_cons.mp (List.nodup_middle.mp hn)).1
  simp only [List.mem_append, List.mem_cons] at hout ⊢
  constructor
  · intro hq
    exact ⟨fun e => hout (e ▸ hq), by tauto⟩
  · tauto

omit [DecidableEq ν] in
theorem mem_update_remove (hap : ∀ {i j a}, a ∈ ls i → a ∈ ls j → i = j) (hn : (ls i).Nodup)
    (hi : ls i = pre ++ x :: post) : q ∈ update ls i (pre ++ post) j ↔ q ≠ x ∧ q ∈ ls j := by
  by_cases hj : j = i
  · subst hj
    rw [update_self, mem_remove (hi ▸ hn), hi]
  rw [update_of_ne hj]
  refine ⟨fun hq => ⟨?_, hq⟩, And.right⟩
  rintro rfl
  exact hj (hap hq (by simp [hi]))

section

variable (h : Family L ls)
include h

omit [DecidableEq ν] in
theorem family_init : Family (dlistInit L i) (update ls i []) := by
  refine h.replace ⟨List.nodup_nil, by simp [dlistInit], by simp [dlistInit], by simp, by simp⟩ (fun j hj => ?_) (by simp)
  exact ⟨by simp [dlistInit, hj], by simp [dlistInit, hj], fun _ _ => ⟨rfl, rfl⟩⟩

theorem remHead_eq_remEntry (hi : ls i = x :: xs) : dlistRemHead L i = dlistRemEntry L i x := by
  have hh : L.head i = some x := by rw [(h.spells i).head, hi]; rfl
  rw [remHead_eq_cut hh, remEntry_eq_cut, (h.spells i).prev [] x xs hi]
  rfl

theorem family_remTail (hi : ls i = pre ++ [x]) : Family (dlistRemTail L i) (update ls i pre) := by
  have ht : L.tail i = some x := by rw [(h.spells i).tail, hi]; simp
  rw [remTail_eq_cut ht, (h.spells i).prev pre x [] hi]
  simpa using h.cut pre [] hi

theorem family_insertAfter (hi : ls i = pre ++ p :: post) (hx : ∀ j, x ∉ ls j) :
    Family (dlistInsertAfter L i p x) (update ls i (pre ++ p :: x :: post)) := by
  have hne : x ≠ p := by rintro rfl; exact hx i (by simp [hi])
  rw [insertAfter_eq_splice _ _ hne, (h.spells i).next _ _ _ hi]
  have hs := h.splice (pre ++ [p]) post (by simpa using hi) hx
  simpa using hs

theorem family_insertBefore (hi : ls i = pre ++ n :: post) (hx : ∀ j, x ∉ ls j) :
    Family (dlistInsertBefore L i n x) (update ls i (pre ++ x :: n :: post)) := by
  have hne : x ≠ n := by rintro rfl; exact hx i (by simp [hi])
  rw [insertBefore_eq_splice _ _ hne, (h.spells i).prev _ _ _ hi]
  exact h.splice pre (n :: post) hi hx

theorem family_remEntry (hi : ls i = pre ++ x :: post) : Family (dlistRemEntry L i x) (update ls i (pre ++ post)) := by
  rw [remEntry_eq_cut, (h.spells i).next _ _ _ hi, (h.spells i).prev _ _ _ hi]
  exact h.cut pre post hi

theorem family_remHead (hi : ls i = x :: xs) : Family (dlistRemHead L i) (update ls i xs) := by
  rw [remHead_eq_remEntry h hi]
  exact (family_remEntry h hi : Family _ (update ls i ([] ++ xs)))

omit [DecidableEq ν] in
theorem mem_cut (hi : ls i = pre ++ x :: post) : q ∈ update ls i (pre ++ post) j ↔ q ≠ x ∧ q ∈ ls j :=
  mem_update_remove h.apart (h.spells i).nodup hi

theorem family_without (hx : x ∈ ls i) : ∃ ms, Family (dlistRemEntry L i x) ms ∧
    (∀ j q, q ∈ ms j ↔ q ≠ x ∧ q ∈ ls j) ∧ (ms i).length + 1 = (ls i).length := by
  obtain ⟨pre, post, hi⟩ := List.append_of_mem hx
  refine ⟨_, family_remEntry h hi, fun j q => mem_cut h hi, ?_⟩
  rw [hi]
  simp
  omega

theorem family_erase (hx : x ∈ ls i) : Family (dlistRemEntry L i x) fun j => (ls j).erase x := by
  obtain ⟨pre, post, hi⟩ := List.append_of_mem hx
  have hpre : x ∉ pre := fun hmem => ne_of_mem_pre (hi ▸ (h.spells i).nodup) hmem rfl
  have hlists : (fun j => (ls j).erase x) = update ls i (pre ++ post) := by
    funext j
    by_cases hj : j = i
    · subst hj
      rw [update_self, hi, List.erase_append_right _ hpre, List.erase_cons_head]
    · rw [update_of_ne hj]
      exact List.erase_of_not_mem fun hmem => hj (h.apart hmem hx)
  rw [hlists]
  exact family_remEntry h hi

theorem family_clear (hi : ls i = []) (hx : ∀ j, x ∉ ls j) : Family (dlistClear L i x) ls := by
  have hinit : Family (dlistInit L i) ls := by
    have hf := family_init h (i := i)
    rwa [← hi, update_eq_self] at hf
  refine ⟨fun j => ?_, hinit.apart⟩
  have hne {a : ν} (ha : a ∈ ls j) : a ≠ x := fun e => hx j (e ▸ ha)
  exact (hinit.spells j).congr rfl rfl (fun a ha => by simp [dlistClear, hne ha])
    fun a ha => by simp [dlistClear, hne ha]

section

variable (hx : ∀ j, x ∉ ls j)
include hx

theorem family_addHead : Family (dlistAddHead L i x) (update ls i (x :: ls i)) := by
  rw [addHead_eq_splice, (h.spells i).head]
  exact h.splice [] (ls i) rfl hx

theorem family_addTail : Family (dlistAddTail L i x) (update ls i (ls i ++ [x])) := by
  rw [addTail_eq_splice, (h.spells i).tail]
  exact h.splice (ls i) [] (by simp) hx

theorem family_withHead (i : ι) : ∃ ms, Family (dlistAddHead L i x) ms ∧
    (∀ j q, q ∈ ms j ↔ (j = i ∧ q = x) ∨ q ∈ ls j) ∧ (ms i).length = (ls i).length + 1 := by
  refine ⟨_, family_addHead h hx, fun j q => ?_, by simp⟩
  by_cases hj : j = i
  · subst hj
    simp
  · simp [hj]

theorem family_withTail (i : ι) : ∃ ms, Family (dlistAddTail L i x) ms ∧
    (∀ j q, q ∈ ms j ↔ (j = i ∧ q = x) ∨ q ∈ ls j) ∧ (ms i).length = (ls i).length + 1 := by
  refine ⟨_, family_addTail h hx, fun j q => ?_, by simp⟩
  by_cases hj : j = i
  · subst hj
    simp [or_comm]
  · simp [hj]

end

end

theorem cut_again (L : Links ι ν) (i : ι) (p n : Option ν) : (L.cut i p n).cut i p n = L.cut i p n := by
  cases p <;> cases n <;> simp [Links.cut, Links.pointNext, Links.pointPrev, Links.setHead, Links.setTail,
    Links.setNext, Links.setPrev]

theorem remEntry_again (h : Family L ls) (hx : x ∈ ls i) :
    dlistRemEntry (dlistRemEntry L i x) i x = dlistRemEntry L i x := by
  obtain ⟨pre, post, hi⟩ := List.append_of_mem hx
  have hnd := hi ▸ (h.spells i).nodup
  have hnx : post.head? ≠ some x := fun e => ne_of_mem_post hnd (List.mem_of_head? e) rfl
  have hpx : pre.getLast? ≠ some x := fun e => ne_of_mem_pre hnd (List.mem_of_getLast? e) rfl
  have hp := (h.spells i).prev _ _ _ hi
  have hn := (h.spells i).next _ _ _ hi
  rw [remEntry_eq_cut L, hp, hn, remEntry_eq_cut, cut_prev, cut_next, if_neg hnx, if_neg hpx, hp, hn, cut_again]

end Families

section Circleq

open Circular

def circleqAddHead (R : Loop ι ν) (i : ι) (x : ν) : Loop ι ν :=
  let R := match R.head i with
    | some h =>
      let R := R.setNext x h
      let R := R.setPrev x (R.prev h)
      let R := R.setPrev h x
      R.setNext (R.prev x) x
    | none => (R.setNext x x).setPrev x x
  R.setHead i (some x)

def circleqAddTail (R : Loop ι ν) (i : ι) (x : ν) : Loop ι ν :=
  match R.head i with
  | some h =>
    let R := R.setNext x h
    let R := R.setPrev x (R.prev h)
    let R := R.setPrev (R.next x) x
    R.setNext (R.prev x) x
  | none => ((R.setNext x x).setPrev x x).setHead i (some x)

def circleqForward (R : Loop ι ν) (i : ι) : Loop ι ν :=
  match R.head i with
  | some h => R.setHead i (some (R.next h))
  | none => R

def circleqRemEntry (R : Loop ι ν) (i : ι) (x : ν) : Loop ι ν :=
  if R.next x ≠ x then
    let R := R.setPrev (R.next x) (R.prev x)
    let R := R.setNext (R.prev x) (R.next x)
    if R.head i = some x then R.setHead i (some (R.next x)) else R
  else R.setHead i none

def circleqRemHead (R : Loop ι ν) (i : ι) : Loop ι ν :=
  match R.head i with
  | some h =>
    if R.next h ≠ h then
      let R := R.setPrev (R.next h) (R.prev h)
      let R := R.setNext (R.prev h) (R.next h)
      R.setHead i (some (R.next h))
    else R.setHead i none
  | none => R

def circleqRemTail (R : Loop ι ν) (i : ι) : Loop ι ν :=
  match R.head i with
  | some h =>
    if R.next h ≠ h then
      let R := R.setNext (R.prev (R.prev h)) h
      R.setPrev h (R.prev (R.prev h))
    else R.setHead i none
  | none => R

theorem circleqRemHead_eq {R : Loop ι ν} {h : ν} (hh : R.head i = some h) :
    circleqRemHead R i = circleqRemEntry R i h := by
  simp [circleqRemHead, circleqRemEntry, hh]

variable {R : Loop ι ν} {ls : ι → List ν} {i : ι} {x : ν} {t pre post : List ν}

theorem circleqAddTail_of_head {h : ν} (hh : R.head i = some h) (hx : x ≠ h) :
    circleqAddTail R i x = R.join (R.prev h) x h := by
  simp [circleqAddTail, hh, Loop.join, hx]

theorem loops_addTail (hl : Loops R ls) (hx : ∀ j, x ∉ ls j) :
    Loops (circleqAddTail R i x) (update ls i (ls i ++ [x])) := by
  cases hi : ls i with
  | nil =>
    have hh : R.head i = none := by rw [hl.head, hi]; rfl
    simp only [circleqAddTail, hh]
    refine hl.replace (Cyclic.single x (by simp) (by simp)) (by simp) (fun j hj => by simp [hj])
      (by simp +contextual) (by simp +contextual) (by simp [hx])
  | cons h t =>
    have hh : R.head i = some h := by rw [hl.head, hi]; rfl
    have hcyc : Cyclic R (h :: t) := hi ▸ hl.cyclic i
    have hprev : R.prev h = t.getLast?.getD h := by simpa using hcyc.prev [] h t rfl
    have hxi : x ∉ h :: t := hi ▸ hx i
    rw [circleqAddTail_of_head hh (fun e => hxi (by simp [e])), hprev]
    have hlast : t.getLast?.getD h ∈ h :: t := List.mem_of_getLast? List.getLast?_cons
    have hne {a b : ν} (ha : a ∉ h :: t ++ [x]) (hb : b ∈ h :: t ++ [x]) : a ≠ b := fun e => ha (e ▸ hb)
    refine hl.replace (hcyc.join hxi) (by simp [Loop.join, hh]) (fun j _ => rfl) ?_ ?_ ?_
    · intro a ha
      simp [Loop.join, hne ha (List.mem_append_left _ hlast), hne ha (b := x) (by simp)]
    · intro a ha
      simp [Loop.join, hne ha (b := h) (by simp), hne ha (b := x) (by simp)]
    · intro a ha
      rcases List.mem_append.mp ha with ha | ha
      · exact .inl (hi ▸ ha)
      · exact .inr (List.mem_singleton.mp ha ▸ hx)

omit [DecidableEq ν] in
theorem loops_setHead (hl : Loops R ls) (hi : ls i = pre ++ post) :
    Loops (R.setHead i (post ++ pre).head?) (update ls i (post ++ pre)) := by
  have hcyc : Cyclic R (pre ++ post) := hi ▸ hl.cyclic i
  refine hl.replace (hcyc.rotate.congr (fun _ _ => rfl) fun _ _ => rfl) (by simp) (fun j hj => by simp [hj])
    (fun _ _ => rfl) (fun _ _ => rfl) fun a ha => .inl ?_
  rw [hi]
  exact List.perm_append_comm.mem_iff.mp ha

omit [DecidableEq ν] in
theorem loops_forward {h : ν} (hl : Loops R ls) (hi : ls i = h :: t) :
    Loops (circleqForward R i) (update ls i (t ++ [h])) := by
  have hh : R.head i = some h := by rw [hl.head, hi]; rfl
  have hnext : R.next h = t.head?.getD h := by simpa using (hl.cyclic i).next [] h t hi
  have hturn := loops_setHead hl (show ls i = [h] ++ t from hi)
  simp only [circleqForward, hh, hnext]
  rwa [List.head?_append, List.head?_cons, Option.or_some] at hturn

theorem loops_addHead (hl : Loops R ls) (hx : ∀ j, x ∉ ls j) :
    Loops (circleqAddHead R i x) (update ls i (x :: ls i)) := by
  have heq : circleqAddHead R i x = (circleqAddTail R i x).setHead i (some x) := by
    cases hh : R.head i <;> simp [circleqAddHead, circleqAddTail, hh]
  have hturn := loops_setHead (loops_addTail hl hx) (update_self i _ _)
  rw [heq]
  simpa using hturn

theorem loops_remEntry (hl : Loops R ls) (hi : ls i = pre ++ x :: post) :
    Loops (circleqRemEntry R i x) (update ls i (pre ++ post)) := by
  have hcyc : Cyclic R (pre ++ x :: post) := hi ▸ hl.cyclic i
  have hnext := hcyc.next pre x post rfl
  have hprev := hcyc.prev pre x post rfl
  cases hu : post ++ pre with
  | nil =>
    obtain ⟨rfl, rfl⟩ := List.append_eq_nil_iff.mp hu
    have hself : R.next x = x := hnext
    simp only [circleqRemEntry, hself, ne_eq]
    exact hl.replace ⟨by simp, by simp, by simp⟩ (by simp) (fun j hj => by simp [hj]) (fun _ _ => rfl) (fun _ _ => rfl)
      (by simp)
  | cons h t =>
    rw [hu] at hnext hprev
    simp only [List.getLast?_cons] at hnext hprev
    have hturn : Cyclic R (x :: h :: t) := hu ▸ hcyc.rotate
    have hcut : Cyclic (R.bypass (t.getLast?.getD h) h) (pre ++ post) := Cyclic.rotate (hu ▸ hturn.bypass)
    have hlast : t.getLast?.getD h ∈ post ++ pre := hu ▸ List.mem_of_getLast? List.getLast?_cons
    have hne {a b : ν} (ha : a ∉ pre ++ post) (hb : b ∈ post ++ pre) : a ≠ b := fun e =>
      ha (List.perm_append_comm.mem_iff.mp (e ▸ hb))
    have hback : Loops ((R.bypass (t.getLast?.getD h) h).setHead i (pre ++ post).head?) (update ls i (pre ++ post)) := by
      refine hl.replace (hcut.congr (fun _ _ => rfl) fun _ _ => rfl) (by simp) (fun j hj => by simp [Loop.bypass, hj])
        ?_ ?_ fun a ha => .inl ?_
      · intro a ha
        simp [Loop.bypass, hne ha hlast]
      · intro a ha
        simp [Loop.bypass, hne ha (b := h) (by simp [hu])]
      · rw [hi]
        exact List.perm_middle.mem_iff.mpr (List.mem_cons_of_mem x ha)
    have hxh : h ≠ x := by
      rintro rfl
      simpa using hturn.nodup
    have hhead : R.head i = (pre ++ x :: post).head? := hi ▸ hl.head i
    have heq : circleqRemEntry R i x = if R.head i = some x then (R.bypass (t.getLast?.getD h) h).setHead i (some h)
        else R.bypass (t.getLast?.getD h) h := by
      simp [circleqRemEntry, hnext, hprev, hxh, Loop.bypass]
    rw [heq]
    cases pre with
    | nil =>
      obtain rfl : post = h :: t := by simpa using hu
      rwa [if_pos (by simp [hhead])]
    | cons c pre =>
      have hcx : c ≠ x := by
        rintro rfl
        simpa using hcyc.nodup
      rw [if_neg (by simpa [hhead] using hcx)]
      have hc : (c :: pre ++ post).head? = (R.bypass (t.getLast?.getD h) h).head i := hhead.symm
      rwa [hc, setHead_head] at hback

theorem loops_remHead (hl : Loops R ls) (hi : ls i = x :: post) : Loops (circleqRemHead R i) (update ls i post) := by
  have hh : R.head i = some x := by rw [hl.head, hi]; rfl
  rw [circleqRemHead_eq hh]
  exact (loops_remEntry hl hi : Loops _ (update ls i ([] ++ post)))

theorem loops_remTail (hl : Loops R ls) (hi : ls i = pre ++ [x]) : Loops (circleqRemTail R i) (update ls i pre) := by
  have hcyc : Cyclic R (pre ++ [x]) := hi ▸ hl.cyclic i
  have hrem := loops_remEntry hl hi
  rw [List.append_nil] at hrem
  suffices heq : circleqRemTail R i = circleqRemEntry R i x from heq ▸ hrem
  have hnext := hcyc.next pre x [] rfl
  cases pre with
  | nil =>
    have hh : R.head i = some x := by rw [hl.head, hi]; rfl
    have hself : R.next x = x := hnext
    simp [circleqRemTail, circleqRemEntry, hh, hself]
  | cons h pre =>
    have hh : R.head i = some h := by rw [hl.head, hi]; rfl
    have hprev : R.prev h = x := by simpa using hcyc.prev [] h (pre ++ [x]) rfl
    have hnd := hcyc.nodup
    have hnx : R.next x = h := hnext
    have hxh : h ≠ x := by
      rintro rfl
      simp at hnd
    have hne : R.next h ≠ h := by
      rw [hcyc.next [] h (pre ++ [x]) rfl]
      cases pre <;> grind
    simp [circleqRemTail, circleqRemEntry, hh, hprev, hnx, hne, hxh, Loop.setPrev, Loop.setNext]

end Circleq

open Circular in
theorem list_macros_implement_sequences {L : Links ι ν} {R : Loop ι ν} {ls rs : ι → List ν} (h : Family L ls)
    (hl : Loops R rs) (i : ι) :
    ((∀ x, (∀ j, x ∉ ls j) → Family (dlistAddHead L i x) (update ls i (x :: ls i)) ∧
        Family (dlistAddTail L i x) (update ls i (ls i ++ [x])) ∧
        ∀ pre p post, ls i = pre ++ p :: post →
          Family (dlistInsertAfter L i p x) (update ls i (pre ++ p :: x :: post)) ∧
            Family (dlistInsertBefore L i p x) (update ls i (pre ++ x :: p :: post))) ∧
      (∀ x xs, ls i = x :: xs → Family (dlistRemHead L i) (update ls i xs) ∧
        dlistRemEntry (dlistRemHead L i) i x = dlistRemHead L i) ∧
      (∀ pre x, ls i = pre ++ [x] → Family (dlistRemTail L i) (update ls i pre)) ∧
      ∀ pre x post, ls i = pre ++ x :: post → Family (dlistRemEntry L i x) (update ls i (pre ++ post)) ∧
        dlistRemEntry (dlistRemEntry L i x) i x = dlistRemEntry L i x) ∧
    (∀ x, (∀ j, x ∉ rs j) → Loops (circleqAddHead R i x) (update rs i (x :: rs i)) ∧
        Loops (circleqAddTail R i x) (update rs i (rs i ++ [x]))) ∧
      (∀ x xs, rs i = x :: xs → Loops (circleqRemHead R i) (update rs i xs) ∧
        Loops (circleqForward R i) (update rs i (xs ++ [x]))) ∧
      (∀ pre x, rs i = pre ++ [x] → Loops (circleqRemTail R i) (update rs i pre)) ∧
      ∀ pre x post, rs i = pre ++ x :: post → Loops (circleqRemEntry R i x) (update rs i (pre ++ post)) := by
  refine ⟨⟨?_, ?_, fun pre x => family_remTail h, ?_⟩, ?_, ?_, fun pre x => loops_remTail hl,
    fun pre x post => loops_remEntry hl⟩
  · intro x hx
    refine ⟨family_addHead h hx, family_addTail h hx, ?_⟩
    intro pre p post hi
    exact ⟨family_insertAfter h hi hx, family_insertBefore h hi hx⟩
  · intro x xs hi
    refine ⟨family_remHead h hi, ?_⟩
    rw [remHead_eq_remEntry h hi, remEntry_again h (by simp [hi])]
  · intro pre x post hi
    exact ⟨family_remEntry h hi, remEntry_again h (by simp [hi])⟩
  · intro x hx
    exact ⟨loops_addHead hl hx, loops_addTail hl hx⟩
  · intro x xs hi
    exact ⟨loops_remHead hl hi, loops_forward hl hi⟩

def three : Links Unit Nat :=
  dlistAddTail (dlistAddTail (dlistAddTail ⟨fun _ => none, fun _ => none, fun _ => none, fun _ => none⟩ () 1) () 2) () 3

def ringOfThree : Circular.Loop Unit Nat :=
  circleqAddTail (circleqAddTail (circleqAddTail ⟨fun _ => none, id, id⟩ () 1) () 2) () 3

open Circular in
theorem list_macros_on_three :
    Family (dlistInsertAfter three () 2 5) (update (fun _ => [1, 2, 3]) () [1, 2, 5, 3]) ∧
    Family (dlistRemEntry three () 2) (update (fun _ => [1, 2, 3]) () [1, 3]) ∧
    dlistRemEntry (dlistRemEntry three () 2) () 2 = dlistRemEntry three () 2 ∧
    Loops (circleqAddHead ringOfThree () 5) (update (fun _ => [1, 2, 3]) () [5, 1, 2, 3]) ∧
    Loops (circleqRemEntry ringOfThree () 2) (update (fun _ => [1, 2, 3]) () [1, 3]) := by
  have h : Family three fun _ => [1, 2, 3] :=
    family_addTail (family_addTail (family_addTail Family.empty (by simp)) (by simp)) (by simp)
  have hempty : Loops (⟨fun _ => none, id, id⟩ : Loop Unit Nat) fun _ => [] :=
    ⟨fun _ => ⟨by simp, by simp, by simp⟩, fun _ => rfl, by simp⟩
  have hl : Loops ringOfThree fun _ => [1, 2, 3] :=
    loops_addTail (loops_addTail (loops_addTail hempty (by simp)) (by simp)) (by simp)
  obtain ⟨⟨hadd, -, -, hrem⟩, hinto, -, -, hout⟩ := list_macros_implement_sequences h hl ()
  obtain ⟨hcut, hagain⟩ := hrem [1] 2 [3] rfl
  exact ⟨((hadd 5 (by simp)).2.2 [1] 2 [3] rfl).1, hcut, hagain, (hinto 5 (by simp)).1, hout [1] 2 [3] rfl⟩

end CheviotKernel.Lists
