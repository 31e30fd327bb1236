import Mathlib.Data.List.Nodup
import Mathlib.Data.List.Infix

namespace Linked

open Function

variable {ι ν : Type} {m n : Nat} {i : ι} {xs pre post pre' post' s : List ν} {a x : ν}

structure Links (ι ν : Type) where
  head : ι → Option ν
  tail : ι → Option ν
  next : ν → Option ν
  prev : ν → Option ν

structure Spells (L : Links ι ν) (i : ι) (xs : List ν) : Prop where
  nodup : xs.Nodup
  head : L.head i = xs.head?
  tail : L.tail i = xs.getLast?
  next : ∀ pre a post, xs = pre ++ a :: post → L.next a = post.head?
  prev : ∀ pre a post, xs = pre ++ a :: post → L.prev a = pre.getLast?

structure Family (L : Links ι ν) (ls : ι → List ν) : Prop where
  spells : ∀ i, Spells L i (ls i)
  apart : ∀ {i j a}, a ∈ ls i → a ∈ ls j → i = j

theorem Spells.congr {L L' : Links ι ν} (h : Spells L i xs) (hh : L'.head i = L.head i) (ht : L'.tail i = L.tail i)
    (hn : ∀ a ∈ xs, L'.next a = L.next a) (hp : ∀ a ∈ xs, L'.prev a = L.prev a) :
    Spells L' i xs := by
  refine ⟨h.nodup, hh.trans h.head, ht.trans h.tail, ?_, ?_⟩
  · intro pre a post e
    exact (hn a (by simp [e])).trans (h.next _ _ _ e)
  · intro pre a post e
    exact (hp a (by simp [e])).trans (h.prev _ _ _ e)

theorem split_append (e : pre ++ post = pre' ++ a :: post') :
    (∃ m, pre = pre' ++ a :: m ∧ post' = m ++ post) ∨ ∃ m, post = m ++ a :: post' ∧ pre' = pre ++ m := by
  rcases List.append_eq_append_iff.mp e with ⟨m, rfl, hm⟩ | ⟨m, rfl, hm⟩
  · exact .inr ⟨m, hm, rfl⟩
  cases m with
  | nil => exact .inr ⟨[], by simpa using hm.symm, by simp⟩
  | cons b m =>
    obtain ⟨rfl, rfl⟩ : a = b ∧ post' = m ++ post := by simpa using hm
    exact .inl ⟨m, rfl, rfl⟩

theorem split_middle (e : pre ++ x :: post = pre' ++ a :: post') :
    (∃ m, pre = pre' ++ a :: m ∧ post' = m ++ x :: post) ∨ (pre' = pre ∧ a = x ∧ post' = post) ∨
      ∃ m, post = m ++ a :: post' ∧ pre' = pre ++ x :: m := by
  rcases split_append e with h | ⟨m, hm, rfl⟩
  · exact .inl h
  cases m with
  | nil =>
    obtain ⟨rfl, rfl⟩ : x = a ∧ post = post' := by simpa using hm
    exact .inr (.inl ⟨by simp, rfl, rfl⟩)
  | cons b m =>
    obtain ⟨rfl, rfl⟩ : x = b ∧ post = m ++ a :: post' := by simpa using hm
    exact .inr (.inr ⟨m, rfl, rfl⟩)

theorem ne_of_mem_post {b : ν} (h : (pre ++ a :: post).Nodup) (hb : b ∈ post) : a ≠ b := by
  rintro rfl
  exact (List.nodup_cons.mp (List.nodup_append.mp h).2.1).1 hb

theorem ne_of_mem_pre {b : ν} (h : (pre ++ a :: post).Nodup) (hb : b ∈ pre) : a ≠ b := by
  rintro rfl
  exact (List.nodup_append.mp h).2.2 a hb a (by simp) rfl

theorem getLast_ne_of_nodup (h : (pre ++ a :: x :: s).Nodup) : (pre ++ a :: x :: s).getLast? ≠ some a := by
  intro hc
  have ha : (x :: s).getLast? = some a := by simpa using hc
  exact ne_of_mem_post h (List.mem_of_getLast? ha) rfl

theorem head_ne_of_nodup (h : (s ++ [x] ++ a :: post).Nodup) : (s ++ [x] ++ a :: post).head? ≠ some a := by
  intro hc
  have ha : (s ++ [x]).head? = some a := by simpa using hc
  exact ne_of_mem_pre h (List.mem_of_head? ha) rfl

def walk (next : ν → Option ν) (p : ν → Bool) : Nat → Option ν → Option (Option ν)
  | 0, _ => none
  | _ + 1, none => some none
  | n + 1, some a => if p a then some (some a) else walk next p n (next a)

theorem exists_succ (h : m < n) : ∃ k, n = k + 1 := ⟨n - 1, by omega⟩

theorem Spells.walk_suffix {L : Links ι ν} (h : Spells L i xs) (hs : s <:+ xs) (p : ν → Bool) (hn : s.length < n) :
    walk L.next p n s.head? = some (s.find? p) := by
  induction s generalizing n with
  | nil =>
    obtain ⟨n, rfl⟩ := exists_succ hn
    rfl
  | cons a s ih =>
    obtain ⟨n, rfl⟩ := exists_succ hn
    obtain ⟨pre, e⟩ := hs
    simp only [List.head?_cons, walk, List.find?_cons]
    cases p a with
    | true => simp
    | false =>
      rw [h.next _ _ _ e.symm]
      simpa using ih ⟨pre ++ [a], by simpa using e⟩ (by simpa using hn)

theorem Spells.walk {L : Links ι ν} (h : Spells L i xs) (p : ν → Bool) (hn : xs.length < n) : walk L.next p n (L.head i) = some (xs.find? p) := by
  rw [h.head]
  exact h.walk_suffix (List.suffix_refl _) p hn

theorem Family.empty : Family (⟨fun _ => none, fun _ => none, fun _ => none, fun _ => none⟩ : Links ι ν)
    (fun _ => []) := by
  refine ⟨fun i => ⟨List.nodup_nil, rfl, rfl, ?_, ?_⟩, ?_⟩
  · intro pre a post e
    simp at e
  · intro pre a post e
    simp at e
  · intro i j a ha
    simp at ha

section Writes

variable [DecidableEq ι] [DecidableEq ν] {L L' : Links ι ν} {i : ι} {pre post l : List ν} {x : ν} {ls : ι → List ν}

@[simps] def Links.setHead (L : Links ι ν) (i : ι) (v : Option ν) : Links ι ν :=
  { L with head := update L.head i v }
@[simps] def Links.setTail (L : Links ι ν) (i : ι) (v : Option ν) : Links ι ν :=
  { L with tail := update L.tail i v }
@[simps] def Links.setNext (L : Links ι ν) (a : ν) (v : Option ν) : Links ι ν :=
  { L with next := update L.next a v }
@[simps] def Links.setPrev (L : Links ι ν) (a : ν) (v : Option ν) : Links ι ν :=
  { L with prev := update L.prev a v }

def Links.pointNext (L : Links ι ν) (i : ι) (p v : Option ν) : Links ι ν :=
  match p with
  | some a => L.setNext a v
  | none => L.setHead i v

def Links.pointPrev (L : Links ι ν) (i : ι) (n v : Option ν) : Links ι ν :=
  match n with
  | some b => L.setPrev b v
  | none => L.setTail i v

def Links.splice (L : Links ι ν) (i : ι) (p : Option ν) (x : ν) (n : Option ν) : Links ι ν :=
  (((L.setNext x n).setPrev x p).pointNext i p (some x)).pointPrev i n (some x)

def Links.cut (L : Links ι ν) (i : ι) (p n : Option ν) : Links ι ν :=
  (L.pointNext i p n).pointPrev i n p

section

variable (L : Links ι ν) (i j : ι) (p n : Option ν) (x a : ν)

theorem splice_head : (L.splice i p x n).head j = if j = i ∧ p = none then some x else L.head j := by
  cases p <;> cases n <;> simp [Links.splice, Links.pointNext, Links.pointPrev, update_apply]

theorem splice_tail : (L.splice i p x n).tail j = if j = i ∧ n = none then some x else L.tail j := by
  cases p <;> cases n <;> simp [Links.splice, Links.pointNext, Links.pointPrev, update_apply]

theorem splice_next : (L.splice i p x n).next a = if p = some a then some x else if a = x then n else L.next a := by
  cases p <;> cases n <;>
    simp [Links.splice, Links.pointNext, Links.pointPrev, update_apply, eq_comm]

theorem splice_prev : (L.splice i p x n).prev a = if n = some a then some x else if a = x then p else L.prev a := by
  cases p <;> cases n <;>
    simp [Links.splice, Links.pointNext, Links.pointPrev, update_apply, eq_comm]

theorem cut_head : (L.cut i p n).head j = if j = i ∧ p = none then n else L.head j := by
  cases p <;> cases n <;> simp [Links.cut, Links.pointNext, Links.pointPrev, update_apply]

theorem cut_tail : (L.cut i p n).tail j = if j = i ∧ n = none then p else L.tail j := by
  cases p <;> cases n <;> simp [Links.cut, Links.pointNext, Links.pointPrev, update_apply]

theorem cut_next : (L.cut i p n).next a = if p = some a then n else L.next a := by
  cases p <;> cases n <;>
    simp [Links.cut, Links.pointNext, Links.pointPrev, update_apply, eq_comm]

theorem cut_prev : (L.cut i p n).prev a = if n = some a then p else L.prev a := by
  cases p <;> cases n <;>
    simp [Links.cut, Links.pointNext, Links.pointPrev, update_apply, eq_comm]

end

theorem Spells.splice (h : Spells L i (pre ++ post)) (hx : x ∉ pre ++ post) :
    Spells (L.splice i pre.getLast? x post.head?) i (pre ++ x :: post) := by
  have hnd : (pre ++ x :: post).Nodup := List.nodup_middle.mpr (List.nodup_cons.mpr ⟨hx, h.nodup⟩)
  have hdis := (List.nodup_append.mp h.nodup).2.2
  have hne {a : ν} (ha : a ∈ pre ++ post) : a ≠ x := fun e => hx (e ▸ ha)
  refine ⟨hnd, ?_, ?_, ?_, ?_⟩
  · rw [splice_head, h.head]
    cases pre <;> simp
  · rw [splice_tail, h.tail]
    cases post <;> simp
  · intro pre' a post' e
    rw [splice_next]
    rcases split_middle e with ⟨m, rfl, rfl⟩ | ⟨rfl, rfl, rfl⟩ | ⟨m, rfl, rfl⟩
    · -- `a` stands before the new entry: only the last of `pre` is redirected
      cases m with
      | nil => simp
      | cons b m =>
        have hl : (pre' ++ a :: b :: m).getLast? ≠ some a :=
          getLast_ne_of_nodup (List.nodup_append.mp h.nodup).1
        rw [if_neg hl, if_neg (hne (by simp)), h.next pre' a (b :: m ++ post) (by simp)]
        simp
    · have hl : pre'.getLast? ≠ some a := fun hc => hx (by simp [List.mem_of_getLast? hc])
      simp [hl]
    · have hl : pre.getLast? ≠ some a := fun hc => hdis a (List.mem_of_getLast? hc) a (by simp) rfl
      rw [if_neg hl, if_neg (hne (by simp)), h.next (pre ++ m) a post' (by simp)]
  · intro pre' a post' e
    rw [splice_prev]
    rcases split_middle e with ⟨m, rfl, rfl⟩ | ⟨rfl, rfl, rfl⟩ | ⟨m, rfl, rfl⟩
    · have hl : post.head? ≠ some a := fun hc => hdis a (by simp) a (List.mem_of_head? hc) rfl
      rw [if_neg hl, if_neg (hne (by simp)), h.prev pre' a (m ++ post) (by simp)]
    · have hl : post'.head? ≠ some a := fun hc => hx (by simp [List.mem_of_head? hc])
      simp [hl]
    · cases m using List.reverseRecOn with
      | nil => simp
      | append_singleton m b =>
        have hl : (m ++ [b] ++ a :: post').head? ≠ some a :=
          head_ne_of_nodup (List.nodup_append.mp h.nodup).2.1
        rw [if_neg hl, if_neg (hne (by simp)), h.prev (pre ++ (m ++ [b])) a post' (by simp)]
        simp [List.getLast?_cons]

theorem Spells.cut (h : Spells L i (pre ++ x :: post)) : Spells (L.cut i pre.getLast? post.head?) i (pre ++ post) := by
  have hnd := List.nodup_middle.mp h.nodup
  have hdis := (List.nodup_append.mp (List.nodup_cons.mp hnd).2).2.2
  refine ⟨(List.nodup_cons.mp hnd).2, ?_, ?_, ?_, ?_⟩
  · rw [cut_head, h.head]
    cases pre <;> simp
  · rw [cut_tail, h.tail]
    cases post <;> simp
  · intro pre' a post' e
    rw [cut_next]
    rcases split_append e with ⟨m, rfl, rfl⟩ | ⟨m, rfl, rfl⟩
    · cases m with
      | nil => simp
      | cons b m =>
        have hl : (pre' ++ a :: b :: m).getLast? ≠ some a :=
          getLast_ne_of_nodup (List.nodup_append.mp h.nodup).1
        rw [if_neg hl, h.next pre' a (b :: m ++ x :: post) (by simp)]
        simp
    · have hl : pre.getLast? ≠ some a := fun hc => hdis a (List.mem_of_getLast? hc) a (by simp) rfl
      rw [if_neg hl, h.next (pre ++ x :: m) a post' (by simp)]
  · intro pre' a post' e
    rw [cut_prev]
    rcases split_append e with ⟨m, rfl, rfl⟩ | ⟨m, rfl, rfl⟩
    · have hl : post.head? ≠ some a := fun hc => hdis a (by simp) a (List.mem_of_head? hc) rfl
      rw [if_neg hl, h.prev pre' a (m ++ x :: post) (by simp)]
    cases m using List.reverseRecOn with
    | nil => simp
    | append_singleton m b =>
      have hl : (m ++ [b] ++ a :: post').head? ≠ some a :=
        head_ne_of_nodup (List.nodup_append.mp (List.nodup_cons.mp hnd).2).2.1
      rw [if_neg hl, h.prev (pre ++ x :: (m ++ [b])) a post' (by simp)]
      simp [List.getLast?_cons]

omit [DecidableEq ν] in
theorem apart_update (h : ∀ {i j a}, a ∈ ls i → a ∈ ls j → i = j) (hmem : ∀ a ∈ l, a ∈ ls i ∨ ∀ j, a ∉ ls j)
    {j k : ι} {a : ν} (hj : a ∈ update ls i l j) (hk : a ∈ update ls i l k) : j = k := by
  have back {j : ι} (hj : a ∈ update ls i l j) : a ∈ ls j ∨ j = i ∧ ∀ j, a ∉ ls j := by
    by_cases hji : j = i
    · subst hji
      rw [update_self] at hj
      exact (hmem a hj).imp_right fun hout => ⟨rfl, hout⟩
    · exact .inl (by rwa [update_of_ne hji] at hj)
  rcases back hj with hj | ⟨hji, hout⟩ <;> rcases back hk with hk | ⟨hki, hout'⟩
  · exact h hj hk
  · exact absurd hj (hout' j)
  · exact absurd hk (hout k)
  · exact hji.trans hki.symm

omit [DecidableEq ν] in
theorem Family.replace (h : Family L ls) (hi : Spells L' i l)
    (hfar : ∀ j, j ≠ i → L'.head j = L.head j ∧ L'.tail j = L.tail j ∧
      ∀ a ∈ ls j, L'.next a = L.next a ∧ L'.prev a = L.prev a)
    (hmem : ∀ a ∈ l, a ∈ ls i ∨ ∀ j, a ∉ ls j) : Family L' (update ls i l) := by
  refine ⟨fun j => ?_, apart_update h.apart hmem⟩
  by_cases hj : j = i
  · subst hj
    rwa [update_self]
  rw [update_of_ne hj]
  obtain ⟨hhead, htail, hlinks⟩ := hfar j hj
  exact (h.spells j).congr hhead htail (fun a ha => (hlinks a ha).1) fun a ha => (hlinks a ha).2

theorem Family.splice (h : Family L ls) (pre post : List ν) (hi : ls i = pre ++ post) (hx : ∀ j, x ∉ ls j) :
    Family (L.splice i pre.getLast? x post.head?) (update ls i (pre ++ x :: post)) := by
  refine h.replace ((hi ▸ h.spells i).splice (hi ▸ hx i)) (fun j hj => ⟨?_, ?_, fun a ha => ?_⟩) fun a ha => ?_
  · rw [splice_head, if_neg (fun c => hj c.1)]
  · rw [splice_tail, if_neg (fun c => hj c.1)]
  · have far : a ∉ pre ++ post := fun hm => hj (h.apart ha (hi ▸ hm))
    have hne : a ≠ x := fun e => hx j (e ▸ ha)
    have hp : pre.getLast? ≠ some a := fun c => far (by simp [List.mem_of_getLast? c])
    have hn : post.head? ≠ some a := fun c => far (by simp [List.mem_of_head? c])
    rw [splice_next, splice_prev, if_neg hp, if_neg hn, if_neg hne, if_neg hne]
    exact ⟨rfl, rfl⟩
  · rcases List.mem_cons.mp (List.perm_middle.mem_iff.mp ha) with rfl | ha
    · exact .inr hx
    · exact .inl (hi ▸ ha)

theorem Family.cut (h : Family L ls) (pre post : List ν) (hi : ls i = pre ++ x :: post) :
    Family (L.cut i pre.getLast? post.head?) (update ls i (pre ++ post)) := by
  refine h.replace (hi ▸ h.spells i).cut (fun j hj => ⟨?_, ?_, fun a ha => ?_⟩) fun a ha => .inl ?_
  · rw [cut_head, if_neg (fun c => hj c.1)]
  · rw [cut_tail, if_neg (fun c => hj c.1)]
  · have far : a ∉ pre ++ x :: post := fun hm => hj (h.apart ha (hi ▸ hm))
    rw [cut_next, cut_prev, if_neg (fun c => far (by simp [List.mem_of_getLast? c])),
      if_neg (fun c => far (by simp [List.mem_of_head? c]))]
    exact ⟨rfl, rfl⟩
  · rw [hi]
    exact List.perm_middle.mem_iff.mpr (List.mem_cons_of_mem x ha)

end Writes

end Linked
