import CheviotKernel.Library.Linked

namespace Circular

open Function Linked

variable {ι ν : Type} {xs ys pre post t : List ν} {a b : ν}

structure Loop (ι ν : Type) where
  head : ι → Option ν
  next : ν → ν
  prev : ν → ν

structure Cyclic (R : Loop ι ν) (xs : List ν) : Prop where
  nodup : xs.Nodup
  next : ∀ pre a post, xs = pre ++ a :: post → R.next a = (post ++ pre).head?.getD a
  prev : ∀ pre a post, xs = pre ++ a :: post → R.prev a = (post ++ pre).getLast?.getD a

structure Loops (R : Loop ι ν) (ls : ι → List ν) : Prop where
  cyclic : ∀ i, Cyclic R (ls i)
  head : ∀ i, R.head i = (ls i).head?
  apart : ∀ {i j a}, a ∈ ls i → a ∈ ls j → i = j

theorem Cyclic.congr {R R' : Loop ι ν} (h : Cyclic R xs) (hn : ∀ a ∈ xs, R'.next a = R.next a)
    (hp : ∀ a ∈ xs, R'.prev a = R.prev a) : Cyclic R' xs := by
  refine ⟨h.nodup, ?_, ?_⟩
  · intro pre a post e
    rw [hn a (by simp [e]), h.next pre a post e]
  · intro pre a post e
    rw [hp a (by simp [e]), h.prev pre a post e]

theorem Cyclic.rotate {R : Loop ι ν} (h : Cyclic R (xs ++ ys)) : Cyclic R (ys ++ xs) := by
  have hsplit {pre post : List ν} {a : ν} (e : ys ++ xs = pre ++ a :: post) :
      ∃ pre' post', xs ++ ys = pre' ++ a :: post' ∧ post' ++ pre' = post ++ pre := by
    rcases split_append e with ⟨m, rfl, rfl⟩ | ⟨m, rfl, rfl⟩
    · exact ⟨xs ++ pre, m, by simp, by simp⟩
    · exact ⟨m, post ++ ys, by simp, by simp⟩
  refine ⟨List.nodup_append_comm.mp h.nodup, ?_, ?_⟩
  · intro pre a post e
    obtain ⟨pre', post', e', hrest⟩ := hsplit e
    rw [h.next _ _ _ e', hrest]
  · intro pre a post e
    obtain ⟨pre', post', e', hrest⟩ := hsplit e
    rw [h.prev _ _ _ e', hrest]

theorem Cyclic.single {R : Loop ι ν} (x : ν) (hn : R.next x = x) (hp : R.prev x = x) : Cyclic R [x] := by
  have hsplit {pre post : List ν} {a : ν} (e : [x] = pre ++ a :: post) : pre = [] ∧ a = x ∧ post = [] := by
    cases pre with
    | nil => simpa [eq_comm] using e
    | cons b pre => simp at e
  refine ⟨List.nodup_singleton x, ?_, ?_⟩
  · intro pre a post e
    obtain ⟨rfl, rfl, rfl⟩ := hsplit e
    exact hn
  · intro pre a post e
    obtain ⟨rfl, rfl, rfl⟩ := hsplit e
    exact hp

theorem last_of_split {h : ν} (e : h :: t = pre ++ a :: post) :
    (post = [] ∧ t.getLast?.getD h = a) ∨ (post ≠ [] ∧ t.getLast?.getD h ∈ post) := by
  have hlast : some (t.getLast?.getD h) = (a :: post).getLast? := by
    rw [← List.getLast?_cons, e, List.getLast?_append]
    rfl
  cases post with
  | nil => exact .inl ⟨rfl, by simpa using hlast⟩
  | cons b post =>
    refine .inr ⟨by simp, List.mem_of_getLast? ?_⟩
    rw [hlast, List.getLast?_cons_cons]

theorem head_of_split {h : ν} (e : h :: t = pre ++ a :: post) :
    (pre = [] ∧ h = a ∧ t = post) ∨ ∃ pre', pre = h :: pre' := by
  cases pre with
  | nil => exact .inl ⟨rfl, by simpa using e⟩
  | cons b pre =>
    obtain ⟨rfl, -⟩ : h = b ∧ _ := by simpa using e
    exact .inr ⟨pre, rfl⟩

theorem Loops.replace [DecidableEq ι] {R R' : Loop ι ν} {ls : ι → List ν} (h : Loops R ls) {i : ι}
    (hc : Cyclic R' ys) (hi : R'.head i = ys.head?) (hh : ∀ j, j ≠ i → R'.head j = R.head j)
    (hn : ∀ a, a ∉ ys → R'.next a = R.next a) (hp : ∀ a, a ∉ ys → R'.prev a = R.prev a)
    (hmem : ∀ a ∈ ys, a ∈ ls i ∨ ∀ j, a ∉ ls j) : Loops R' (update ls i ys) := by
  refine ⟨?_, ?_, apart_update h.apart hmem⟩
  · intro j
    by_cases hj : j = i
    · rw [hj, update_self]
      exact hc
    · have hout (a : ν) (ha : a ∈ ls j) : a ∉ ys := fun hm =>
        (hmem a hm).elim (fun hi => hj (h.apart ha hi)) fun hnot => hnot j ha
      rw [update_of_ne hj]
      exact (h.cyclic j).congr (fun a ha => hn a (hout a ha)) fun a ha => hp a (hout a ha)
  · intro j
    by_cases hj : j = i
    · rw [hj, update_self, hi]
    · rw [update_of_ne hj, hh j hj, h.head j]

section Head

variable [DecidableEq ι] (R : Loop ι ν) (i : ι)

@[simps] def Loop.setHead (h : Option ν) : Loop ι ν :=
  { R with head := fun k => if k = i then h else R.head k }

@[simp] theorem setHead_setHead (g h : Option ν) : (R.setHead i g).setHead i h = R.setHead i h := by
  simp only [Loop.setHead, Loop.mk.injEq, and_true]
  funext k
  split_ifs <;> rfl

theorem setHead_head : R.setHead i (R.head i) = R := by
  have hsame : (fun k => if k = i then R.head i else R.head k) = R.head := by
    funext k
    simp +contextual [eq_comm]
  rw [Loop.setHead, hsame]

end Head

section Update

variable [DecidableEq ν] {R : Loop ι ν} {t : List ν} {x : ν}

@[simps] def Loop.setNext (R : Loop ι ν) (a b : ν) : Loop ι ν :=
  { R with next := fun k => if k = a then b else R.next k }

@[simps] def Loop.setPrev (R : Loop ι ν) (a b : ν) : Loop ι ν :=
  { R with prev := fun k => if k = a then b else R.prev k }

def Loop.join (R : Loop ι ν) (b x a : ν) : Loop ι ν :=
  (((R.setNext x a).setPrev x b).setPrev a x).setNext b x

def Loop.bypass (R : Loop ι ν) (b a : ν) : Loop ι ν := (R.setPrev a b).setNext b a

theorem Cyclic.join {h : ν} (hc : Cyclic R (h :: t)) (hx : x ∉ h :: t) :
    Cyclic (R.join (t.getLast?.getD h) x h) (h :: t ++ [x]) := by
  have hxb : x ≠ t.getLast?.getD h := by
    intro e
    refine hx (List.mem_of_getLast? ?_)
    rw [List.getLast?_cons, e]
  have hxh : x ≠ h := fun e => hx (by simp [e])
  -- Either a was in the ring already or it is the new last one.
  have hsplit {pre post : List ν} {a : ν} (e : h :: t ++ [x] = pre ++ a :: post) :
      (∃ m, h :: t = pre ++ a :: m ∧ post = m ++ [x] ∧ a ≠ x) ∨ (a = x ∧ post = [] ∧ pre = h :: t) := by
    rcases split_append e with ⟨m, hm, rfl⟩ | ⟨m, hm, rfl⟩
    · refine .inl ⟨m, hm, rfl, ?_⟩
      rintro rfl
      exact hx (by simp [hm])
    · cases m with
      | nil => exact .inr (by simpa [eq_comm] using hm)
      | cons b m => simp at hm
  refine ⟨?_, ?_, ?_⟩
  · refine List.nodup_append.mpr ⟨hc.nodup, List.nodup_singleton x, ?_⟩
    rintro a ha b hb rfl
    exact hx (List.mem_singleton.mp hb ▸ ha)
  · intro pre a post e
    rcases hsplit e with ⟨m, hm, rfl, hax⟩ | ⟨rfl, rfl, rfl⟩
    · rcases last_of_split hm with ⟨rfl, rfl⟩ | ⟨hne, hlast⟩
      · simp [Loop.join]
      · have hab := ne_of_mem_post (hm ▸ hc.nodup) hlast
        obtain ⟨c, m, rfl⟩ := List.exists_cons_of_ne_nil hne
        simpa [Loop.join, hab, hax] using hc.next _ _ _ hm
    · simp [Loop.join, hxb]
  · intro pre a post e
    rcases hsplit e with ⟨m, hm, rfl, hax⟩ | ⟨rfl, rfl, rfl⟩
    · rcases head_of_split hm with ⟨rfl, rfl, rfl⟩ | ⟨pre', rfl⟩
      · simp [Loop.join]
      · have hah := ne_of_mem_pre (hm ▸ hc.nodup) (List.mem_cons_self : h ∈ h :: pre')
        have hprev := hc.prev _ _ _ hm
        simpa [Loop.join, hah, hax] using hprev
    · simp [Loop.join, hxh, List.getLast?_cons]

theorem Cyclic.bypass {h : ν} (hc : Cyclic R (x :: h :: t)) : Cyclic (R.bypass (t.getLast?.getD h) h) (h :: t) := by
  have hnd := (List.nodup_cons.mp hc.nodup).2
  refine ⟨hnd, ?_, ?_⟩
  · intro pre a post e
    have hold := hc.next (x :: pre) a post (by rw [e]; rfl)
    rcases last_of_split e with ⟨rfl, rfl⟩ | ⟨hne, hlast⟩
    · rcases head_of_split e with ⟨rfl, hh, rfl⟩ | ⟨pre', rfl⟩
      · simp [Loop.bypass]
      · simp [Loop.bypass]
    · have hab := ne_of_mem_post (e ▸ hnd) hlast
      obtain ⟨c, m, rfl⟩ := List.exists_cons_of_ne_nil hne
      simpa [Loop.bypass, hab] using hold
  · intro pre a post e
    have hold := hc.prev (x :: pre) a post (by rw [e]; rfl)
    rcases head_of_split e with ⟨rfl, rfl, rfl⟩ | ⟨pre', rfl⟩
    · simp [Loop.bypass]
    · have hah := ne_of_mem_pre (e ▸ hnd) (List.mem_cons_self : h ∈ h :: pre')
      simpa [Loop.bypass, hah] using hold

end Update

end Circular
