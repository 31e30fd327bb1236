import CheviotKernel.Fs.FileData
import CheviotKernel.Fs.Replies

namespace CheviotKernel.Transfers

open Asking Vfs FileData

structure Answer where
  page : Bool
  copied : Bool
  xfered : ℤ

structure Round where
  offset : ℤ
  clusterBase : ℤ
  nbytes : ℕ
  copied : Bool
  stored : Bool

structure State where
  offset : ℤ
  size : ℤ
  total : ℕ
  deriving DecidableEq

abbrev Outcome := List Round × Option (Replies.Outcome × State)

section

variable (write : Bool) (n : ℕ)

-- cluster_base is an off64_t in read_from_file and an off_t in write_to_file.
def clusterBase (offset : ℤ) : ℤ := if write then offT (alignDown offset pageSize) else alignDown offset pageSize

def State.control (x : State) : Loop Replies.Xfer Answer Replies.Span Replies.Outcome :=
  Replies.fileLoop n (fun a => some a.page) (fun _ => x.offset.tmod pageSize) fun a => !a.copied

def State.nbytes (x : State) : ℕ := nbytesXfer (n - x.total) (x.offset.tmod pageSize)

def State.moved (x : State) : State where
  offset := x.offset + x.nbytes n
  size := if write = true ∧ x.offset + x.nbytes n > x.size then x.offset + x.nbytes n else x.size
  total := x.total + x.nbytes n

-- The server has stored what bwrite sent it.
def State.stored (x : State) (a : Answer) : Bool :=
  a.xfered = nbytesToWrite (x.moved write n).size (clusterBase write x.offset)

def transferLoop : Loop State Answer Round (Replies.Outcome × State) where
  test x := ((x.control n).test ⟨0, x.total⟩).map (·, x)
  sends _ := []
  takes x a := if a.page = true then
    [⟨x.offset, clusterBase write x.offset, x.nbytes n, a.copied, a.copied && x.stored write n a⟩] else []
  next x a := match (x.control n).next ⟨0, x.total⟩ a with
    | .inl _ => .inl (x.moved write n)
    | .inr o => .inr (o, x)

end

section

variable (env : Stream' Answer) (offset size : ℤ) (sz : ℕ)

-- A round moves at least one byte, so as many answers as bytes are enough.
def readFromFile : Outcome :=
  if offset ≥ size then ([], some (.returned 0, ⟨offset, size, 0⟩))
  else (transferLoop false (bytesToRead size offset sz)).run ⟨offset, size, 0⟩ (env.take (bytesToRead size offset sz))

def writeToFile : Outcome := (transferLoop true sz).run ⟨offset, size, 0⟩ (env.take sz)

end

def bytesOf (p : Round → Bool) (rounds : List Round) : ℕ := ((rounds.filter p).map Round.nbytes).sum

def Honest (offset size : ℤ) (o : Outcome) : Prop :=
  ∃ result x, o.2 = some (.returned result, x) ∧ result ≤ bytesOf Round.stored o.1 ∧
    x.offset - offset ≤ bytesOf Round.stored o.1 ∧
    (x.size = size ∨ ∃ r ∈ o.1, r.stored = true ∧ x.size = r.offset + r.nbytes)

def InPlace (o : Outcome) : Prop := ∀ r ∈ o.1, r.clusterBase = r.offset - r.offset % 4096

def StoresCopied (n : ℕ) (x : State) (a : Answer) : Prop :=
  a.page = true → a.copied = true → x.stored true n a = true

-- Round m is the one that starts at 2^31.
def StaysBelow (env : Stream' Answer) (offset : ℤ) (sz : ℕ) : Prop :=
  let m := (2 ^ 19 - offset / 4096).toNat
  offset + sz ≤ 2 ^ 31 ∨ ∃ i ≤ m, (env.get i).page = false ∨ i < m ∧ (env.get i).copied = false

section

variable {write : Bool} {n k : ℕ} {x y : State} {a : Answer} {answers : List Answer} {env : Stream' Answer}

theorem ssizeT_le (n : ℕ) : ssizeT n ≤ n := by
  rw [ssizeT, Int.bmod_def]
  split_ifs <;> omega

theorem nbytes_pos (h : x.total < n) : 0 < x.nbytes n ∧ x.nbytes n ≤ n - x.total :=
  Replies.nbytesXfer_pos (by omega) (tmod_pageSize _).1 (tmod_pageSize _).2

theorem test_none : (transferLoop write n).test x = none ↔ x.total < n := by
  simp [transferLoop, State.control, Replies.fileLoop]

theorem test_some (h : ¬ x.total < n) : (transferLoop write n).test x = some (.returned (ssizeT x.total), x) := by
  simp [transferLoop, State.control, Replies.fileLoop, h]

theorem next_eq : (transferLoop write n).next x a =
    if a.page = false then .inr (.returned (shortCount x.total), x)
    else if a.copied = false then .inr (.returned (-efault), x) else .inl (x.moved write n) := by
  obtain ⟨page, copied, xfered⟩ := a
  cases page <;> cases copied <;> rfl

theorem bytesOf_cons (p : Round → Bool) (r : Round) (rounds : List Round) :
    bytesOf p (r :: rounds) = (if p r then r.nbytes else 0) + bytesOf p rounds := by
  unfold bytesOf
  rw [List.filter_cons]
  split_ifs <;> simp

structure Accounted (write : Bool) (x : State) (o : Outcome) : Prop where
  rounds : ∀ r ∈ o.1, r.clusterBase = clusterBase write r.offset ∧ x.offset ≤ r.offset ∧ 0 < r.nbytes ∧
    (r.stored = true → r.copied = true)
  ends : ∃ result y, o.2 = some (.returned result, y) ∧ result ≤ x.total + bytesOf Round.copied o.1 ∧
    y.offset = x.offset + bytesOf Round.copied o.1 ∧
    (y.size = x.size ∨ ∃ r ∈ o.1, r.copied = true ∧ y.size = r.offset + r.nbytes)

theorem Accounted.stop {result : ℤ} (h : result ≤ x.total) : Accounted write x ([], some (.returned result, x)) :=
  ⟨by simp, result, x, rfl, by simpa [bytesOf] using h, by simp [bytesOf], .inl rfl⟩

theorem Accounted.round {rest : Outcome} {stored : Bool} (hpos : 0 < x.nbytes n)
    (h : Accounted write (x.moved write n) rest) :
    Accounted write x (⟨x.offset, clusterBase write x.offset, x.nbytes n, true, stored⟩ :: rest.1, rest.2) := by
  obtain ⟨result, y, hret, hcount, hadvance, hgrowth⟩ := h.ends
  simp only [State.moved] at hcount hadvance
  refine ⟨List.forall_mem_cons.mpr ⟨⟨rfl, le_refl _, hpos, fun _ => rfl⟩, fun r hr => ?_⟩, result, y, hret, ?_, ?_, ?_⟩
  · obtain ⟨hbase, hle, hr⟩ := h.rounds r hr
    simp only [State.moved] at hle
    exact ⟨hbase, by omega, hr⟩
  · simp only [bytesOf_cons, if_true]
    omega
  · simp only [bytesOf_cons, if_true]
    omega
  · rcases hgrowth with hsize | ⟨r, hr, hcopied, hsize⟩
    · simp only [State.moved] at hsize
      split_ifs at hsize
      · exact .inr ⟨_, List.mem_cons_self, rfl, hsize⟩
      · exact .inl hsize
    · exact .inr ⟨r, List.mem_cons_of_mem _ hr, hcopied, hsize⟩

theorem transferLoop_accounted (h : n ≤ x.total + answers.length) :
    Accounted write x ((transferLoop write n).run x answers) := by
  induction answers generalizing x with
  | nil =>
    rw [run_over (test_some (by simpa using h))]
    exact .stop (ssizeT_le _)
  | cons a answers ih =>
    by_cases hlt : x.total < n
    swap
    · rw [run_over (test_some hlt)]
      exact .stop (ssizeT_le _)
    have ht : (transferLoop write n).test x = none := test_none.mpr hlt
    obtain ⟨hpos, hle⟩ := nbytes_pos hlt
    rw [List.length_cons] at h
    have hshort : shortCount x.total ≤ x.total := by
      unfold shortCount eio
      split_ifs <;> omega
    have hneg : -efault ≤ (x.total : ℤ) := Int.le_trans (by decide) (Int.natCast_nonneg _)
    cases hpage : a.page with
    | false =>
      rw [run_ends_with ht (next_eq.trans (if_pos hpage))]
      simpa [transferLoop, hpage] using (Accounted.stop hshort : Accounted write x _)
    | true =>
      cases hcopied : a.copied with
      | false =>
        rw [run_ends_with ht (by rw [next_eq, hpage, hcopied]; rfl)]
        simp only [transferLoop, hpage, hcopied, if_true, List.nil_append, Bool.false_and]
        exact ⟨by simpa using hpos, _, x, rfl, by simpa [bytesOf] using hneg, by simp [bytesOf], .inl rfl⟩
      | true =>
        rw [run_goes_on ht (by rw [next_eq, hpage, hcopied]; rfl)]
        simp only [transferLoop, hpage, hcopied, if_true, List.nil_append, Bool.true_and]
        exact (ih (by simp only [State.moved]; omega)).round hpos

theorem transferLoop_ne_zero {result : ℤ} (h0 : 0 < n) (hn : n < 2 ^ 32) (hle : x.total ≤ n)
    (hstart : 0 < x.total + answers.length)
    (h : ((transferLoop write n).run x answers).2 = some (.returned result, y)) : result ≠ 0 := by
  have hcount (total : ℕ) (hpos : 0 < total) (hle : total ≤ n) : ssizeT total ≠ 0 := by
    rw [ssizeT, Int.bmod_def]
    split_ifs <;> omega
  have hover (x : State) (answers : List Answer) (hlt : ¬x.total < n) (hpos : 0 < x.total) (hle : x.total ≤ n)
      (h : ((transferLoop write n).run x answers).2 = some (.returned result, y)) : result ≠ 0 := by
    simp only [run_over (test_some hlt), Option.some.injEq, Prod.mk.injEq, Replies.Outcome.returned.injEq] at h
    exact h.1 ▸ hcount _ hpos hle
  induction answers generalizing x with
  | nil =>
    by_cases hlt : x.total < n
    · simp [run_nil (test_none.mpr hlt)] at h
    · exact hover x [] hlt hstart hle h
  | cons a answers ih =>
    by_cases hlt : x.total < n
    swap
    · exact hover x _ hlt (by omega) hle h
    have ht : (transferLoop write n).test x = none := test_none.mpr hlt
    obtain ⟨hpos, hk⟩ := nbytes_pos hlt
    have hnext : (transferLoop write n).next x a = _ := next_eq
    split_ifs at hnext
    · simp only [run_ends_with ht hnext, Option.some.injEq, Prod.mk.injEq, Replies.Outcome.returned.injEq] at h
      rw [← h.1, shortCount]
      split_ifs with htotal
      · omega
      · decide
    · simp only [run_ends_with ht hnext, Option.some.injEq, Prod.mk.injEq, Replies.Outcome.returned.injEq] at h
      exact h.1 ▸ by decide
    · rw [run_goes_on ht hnext] at h
      exact ih (by simp only [State.moved]; omega) (by simp only [State.moved]; omega) h

theorem bytesOf_le_iff {rounds : List Round} (h : ∀ r ∈ rounds, 0 < r.nbytes ∧ (r.stored = true → r.copied = true)) :
    bytesOf Round.copied rounds ≤ bytesOf Round.stored rounds ↔ ∀ r ∈ rounds, r.copied = true → r.stored = true := by
  have hle (rounds : List Round) (h : ∀ r ∈ rounds, r.stored = true → r.copied = true) :
      bytesOf Round.stored rounds ≤ bytesOf Round.copied rounds := by
    induction rounds with
    | nil => exact Nat.le_refl _
    | cons r rounds ih =>
      have hr := h r List.mem_cons_self
      have hrest := ih fun r hr => h r (List.mem_cons_of_mem _ hr)
      rw [bytesOf_cons, bytesOf_cons]
      split_ifs <;> first | omega | simp_all
  induction rounds with
  | nil => simp [bytesOf]
  | cons r rounds ih =>
    obtain ⟨hpos, hr⟩ := h r List.mem_cons_self
    have hrest := hle rounds fun r hr => (h r (List.mem_cons_of_mem _ hr)).2
    have hiff := ih fun r hr => h r (List.mem_cons_of_mem _ hr)
    rw [bytesOf_cons, bytesOf_cons, List.forall_mem_cons]
    refine Iff.trans ?_ (and_congr_right fun _ => hiff)
    cases hc : r.copied <;> cases hs : r.stored <;> simp [hc, hs] at hr ⊢
    omega

theorem write_honest_iff (env : Stream' Answer) (offset size : ℤ) (sz : ℕ) :
    Honest offset size (writeToFile env offset size sz) ↔
      (transferLoop true sz).Meets (StoresCopied sz) ⟨offset, size, 0⟩ (env.take sz) := by
  have h : Accounted true ⟨offset, size, 0⟩ (writeToFile env offset size sz) := transferLoop_accounted (by simp)
  obtain ⟨result, x, hret, hcount, hadvance, hgrowth⟩ := h.ends
  dsimp only at hcount hadvance hgrowth
  have hiff := bytesOf_le_iff fun r hr => (h.rounds r hr).2.2
  rw [← forall_events_iff_meets (P := fun r => r.copied = true → r.stored = true) (I := fun _ => True) (fun _ => rfl)
    (fun x a _ _ => ?_) (fun _ _ _ _ _ _ => trivial) trivial]
  swap
  · unfold StoresCopied transferLoop
    cases hp : a.page <;> cases hc : a.copied <;> simp [hp, hc]
  refine Iff.trans ⟨?_, fun hle => ?_⟩ hiff
  · rintro ⟨result', x', hret', -, hbound, -⟩
    obtain ⟨-, rfl⟩ : result = result' ∧ x = x' := by simpa [hret] using hret'
    omega
  · refine ⟨result, x, hret, by omega, by omega, hgrowth.imp_right ?_⟩
    rintro ⟨r, hr, hcopied, hsize⟩
    exact ⟨r, hr, hiff.mp hle r hr hcopied, hsize⟩

def refusing : Stream' Answer := Stream'.const ⟨true, true, -eio⟩

theorem refused_write_counted : (writeToFile refusing 0 0 1).2 = some (.returned 1, ⟨1, 1, 1⟩) ∧
    ¬Honest 0 0 (writeToFile refusing 0 0 1) := by
  have hret : (writeToFile refusing 0 0 1).2 = some (.returned 1, ⟨1, 1, 1⟩) := by decide
  refine ⟨hret, ?_⟩
  rintro ⟨result, x, hx, -, hadvance, -⟩
  obtain ⟨-, rfl⟩ : 1 = result ∧ (⟨1, 1, 1⟩ : State) = x := by simpa [hret] using hx
  exact absurd hadvance (by decide)

-- The first round moves the transfer one round closer to 2^31, or ends it in its page.
theorem staysBelow_iff {offset : ℤ} {sz nbytes : ℕ} (h0 : 0 ≤ offset) (hsz : 0 < sz)
    (hn : nbytes = min sz (4096 - offset % 4096).toNat) (hpage : env.head.page = true) :
    StaysBelow env offset sz ↔ offset < 2 ^ 31 ∧ (env.head.copied = true →
      sz ≤ nbytes ∨ StaysBelow env.tail (offset + nbytes) (sz - nbytes)) := by
  have hhead : env.get 0 = env.head := rfl
  unfold StaysBelow
  by_cases hlt : offset < 2 ^ 31
  swap
  · refine iff_of_false ?_ fun h => hlt h.1
    rintro (hend | ⟨i, hi, hstop⟩)
    · omega
    · obtain rfl : i = 0 := by omega
      rw [hhead, hpage] at hstop
      exact hstop.elim (by simp) fun h => by omega
  simp only [hlt, true_and]
  cases hcopied : env.head.copied with
  | false => exact iff_of_true (.inr ⟨0, Nat.zero_le _, .inr ⟨by omega, hcopied⟩⟩) (by simp)
  | true =>
    simp only [true_implies]
    by_cases hlast : sz ≤ nbytes
    · exact iff_of_true (.inl (by omega)) (.inl hlast)
    have hm : (2 ^ 19 - offset / 4096).toNat = (2 ^ 19 - (offset + nbytes) / 4096).toNat + 1 := by omega
    rw [or_iff_right hlast, hm]
    refine or_congr (by omega) ⟨?_, ?_⟩
    · rintro ⟨_ | i, hi, hstop⟩
      · rw [hhead, hpage, hcopied] at hstop
        simp at hstop
      · exact ⟨i, by omega, hstop.imp_right fun h => ⟨by omega, h.2⟩⟩
    · rintro ⟨i, hi, hstop⟩
      exact ⟨i + 1, by omega, hstop.imp_right fun h => ⟨by omega, h.2⟩⟩

theorem meets_below_iff (h0 : 0 ≤ x.offset) (h : n ≤ x.total + k) :
    (transferLoop true n).Meets (fun x a => a.page = true → x.offset < 2 ^ 31) x (env.take k) ↔
      n ≤ x.total ∨ StaysBelow env x.offset (n - x.total) := by
  induction k generalizing x env with
  | zero => exact iff_of_true trivial (.inl (by simpa using h))
  | succ k ih =>
    by_cases hlt : x.total < n
    swap
    · exact iff_of_true (fun ht => absurd (test_none.mp ht) hlt) (.inl (by omega))
    obtain ⟨hpos, hle⟩ := nbytes_pos hlt
    simp only [Stream'.take_succ, Loop.Meets, test_none, hlt, true_implies, Nat.not_le.mpr hlt, false_or, next_eq]
    cases hpage : env.head.page with
    | false => exact iff_of_true ⟨by simp, by simp⟩ (.inr ⟨0, Nat.zero_le _, .inl hpage⟩)
    | true =>
      have hbytes : x.nbytes n = min (n - x.total) (4096 - x.offset % 4096).toNat := by
        rw [State.nbytes, tmod_of_nonneg h0, nbytesXfer_eq _ (by omega) (by omega)]
      rw [staysBelow_iff h0 (by omega) hbytes hpage]
      refine and_congr (by simp) ?_
      cases env.head.copied with
      | false => simp
      | true =>
        rw [Nat.sub_sub, show n - x.total ≤ x.nbytes n ↔ n ≤ x.total + x.nbytes n by omega]
        simp only [Bool.true_eq_false, if_false, Sum.inl.injEq, forall_eq', true_implies]
        exact ih (by simp only [State.moved]; omega) (by simp only [State.moved]; omega)

theorem large_files_iff (reads writes : Stream' Answer) {offset : ℤ} (size : ℤ) {sz : ℕ} (h0 : 0 ≤ offset)
    (hpos : 0 < sz) (hsz : sz < 2 ^ 32) :
    (InPlace (readFromFile reads offset size sz) ∧
        ∀ x, (readFromFile reads offset size sz).2 = some (.returned 0, x) → offset ≥ size) ∧
        InPlace (writeToFile writes offset size sz) ↔
      (offset ≥ size ∨ sizeT (size - offset) ≠ 0) ∧ StaysBelow writes offset sz := by
  refine and_congr ?_ ?_
  · unfold readFromFile
    by_cases hend : offset ≥ size
    · rw [if_pos hend]
      exact iff_of_true ⟨by simp [InPlace], fun _ _ => hend⟩ (.inl hend)
    rw [if_neg hend]
    refine (and_iff_right fun r hr => ?_).trans ?_
    · obtain ⟨hbase, hle, -⟩ := (transferLoop_accounted (by simp)).rounds r hr
      rw [hbase]
      exact alignDown_pageSize (Int.le_trans h0 hle)
    · have hbytes : bytesToRead size offset sz = 0 ↔ sizeT (size - offset) = 0 := by
        unfold bytesToRead
        split_ifs <;> omega
      simp only [hend, imp_false, false_or]
      refine ⟨fun hres hs => ?_, fun hs x hres => ?_⟩
      · rw [hbytes.mpr hs, run_over (test_some (Nat.lt_irrefl 0))] at hres
        exact hres ⟨offset, size, 0⟩ (by simp [ssizeT])
      · have hle := Replies.bytesToRead_le_sz size offset sz
        exact transferLoop_ne_zero (by omega) (by omega) (Nat.zero_le _) (by simp; omega) hres rfl
  · have hmeets : _ ↔ sz ≤ (⟨offset, size, 0⟩ : State).total ∨ StaysBelow writes _ _ :=
      meets_below_iff (k := sz) h0 (by simp)
    simp only [Nat.not_le.mpr hpos, false_or, Nat.sub_zero] at hmeets
    rw [← hmeets, InPlace, writeToFile]
    refine forall_events_iff_meets (I := fun x => 0 ≤ x.offset) (fun _ => rfl) (fun x a hx _ => ?_)
      (fun x a y hx _ hy => ?_) h0
    · have hbase : clusterBase true x.offset = x.offset - x.offset % 4096 ↔ x.offset < 2 ^ 31 := by
        rw [clusterBase, if_pos rfl, alignDown_pageSize hx, offT, Int.bmod_def]
        split_ifs <;> omega
      unfold transferLoop
      cases hp : a.page <;> simp [hp, hbase]
    · rw [next_eq] at hy
      split_ifs at hy
      obtain rfl := Sum.inl.inj hy
      simp only [State.moved]
      omega

def storing : Stream' Answer := Stream'.const ⟨true, true, 4096⟩

theorem large_files_around_two_gigabytes : InPlace (readFromFile storing (2 ^ 31 - 5000) (2 ^ 33 + 7) 9000) ∧
    InPlace (writeToFile storing (2 ^ 31 - 5000) (2 ^ 33 + 7) 5000) ∧
    (writeToFile storing (2 ^ 31 - 5000) (2 ^ 33 + 7) 5000).1.length = 2 :=
  ⟨((large_files_iff storing (Stream'.const ⟨false, true, 0⟩) (2 ^ 33 + 7) (by decide) (by decide) (by decide)).mpr
      ⟨.inr (by decide), .inr ⟨0, by decide, .inl rfl⟩⟩).1.1,
    ((large_files_iff storing storing (2 ^ 33 + 7) (by decide) (by decide) (by decide)).mpr
      ⟨.inr (by decide), .inl (by decide)⟩).2, by decide⟩

theorem four_gigabytes_unreadable : (readFromFile storing 0 (2 ^ 32) 1).2 = some (.returned 0, ⟨0, 2 ^ 32, 0⟩) ∧
    ¬InPlace (writeToFile storing (2 ^ 31) 0 1) := by
  refine ⟨by decide, fun h => ?_⟩
  exact absurd (h _ List.mem_cons_self) (by decide)

end

section Models

open Dialogue

variable {write : Bool} {n total fuel : ℕ} {size offset : ℤ} {evicted : ℕ → ℤ → Bool} {file : File} {v : VId} {f : FilpId}
  {w w' : World Kernel Vfs.Answer Event} {r : ℕ ⊕ ℤ} {x : State}

/-- A round of `transferLoop` from `x` goes on with so many bytes, or ends with that result. -/
def Follows (write : Bool) (n : ℕ) (x : State) (r : ℕ ⊕ ℤ) : Prop :=
  ∃ a, Sum.map State.total Prod.fst ((transferLoop write n).next x a) = Sum.map id Replies.Outcome.returned r

theorem follows_short : Follows write n x (.inr (shortCount x.total)) := ⟨⟨false, false, 0⟩, by simp [next_eq]⟩

theorem follows_moved : Follows write n x (.inl (x.total + x.nbytes n)) := ⟨⟨true, true, 0⟩, by simp [next_eq, State.moved]⟩

theorem cluster_follows {α : Type} {page : Sys Bool} {copy : Sys α} {bad : α → Prop} [DecidablePred bad]
    {rest : Sys (ℕ ⊕ ℤ)} (hrest : ∀ w r w', rest w = (some r, w') → r = .inl (x.total + x.nbytes n))
    (h : (page >>= fun p => if p = false then pure (.inr (shortCount x.total)) else copy >>= fun c =>
      if bad c then pure (.inr (-efault)) else rest) w = (some r, w')) : Follows write n x r := by
  rw [bind_apply] at h
  split at h
  swap
  · cases h
  split_ifs at h
  · cases h
    exact follows_short
  rw [bind_apply] at h
  split at h
  swap
  · cases h
  split_ifs at h
  · cases h
    exact ⟨⟨true, false, 0⟩, by simp [next_eq]⟩
  · rw [hrest _ _ _ h]
    exact follows_moved

theorem readRound_follows {inkernel : Bool} (hlt : total < n) (h : readRound v f inkernel n total w = (some r, w')) :
    Follows false n ⟨(w.state.filp f).offset, size, total⟩ r := by
  rw [readRound, if_pos hlt, look_bind] at h
  refine cluster_follows (fun w r w' h => ?_) h
  cases h
  rfl

theorem writeRound_follows (hlt : total < n) (h : writeRound v f n total w = (some r, w')) :
    Follows true n ⟨(w.state.filp f).offset, size, total⟩ r := by
  rw [writeRound, if_pos hlt, look_bind, look_bind, offT_tmod] at h
  refine cluster_follows (fun w r w' h => ?_) h
  simp only [bind_apply, alter] at h
  split at h <;> cases h
  rfl

theorem readLoop_follows {dst : List Byte} (hlt : dst.length < n) :
    ∃ r, Follows false n ⟨offset, size, dst.length⟩ r ∧
      match r, FileData.readLoop evicted n (fuel + 1) file offset dst with
      | .inr count, o => o.2 = (count, dst)
      | .inl m, o => ∃ file' new, o = FileData.readLoop evicted n fuel file' (offset + (m - dst.length : ℕ)) (dst ++ new) ∧
          (dst ++ new).length = m := by
  rw [FileData.readLoop, if_pos hlt]
  split
  · exact ⟨_, follows_short, rfl⟩
  · rename_i file' d _
    refine ⟨_, follows_moved, file', Spans.slice d (offset.tmod pageSize) (State.nbytes n ⟨offset, size, dst.length⟩),
      ?_, ?_⟩
    · rw [Nat.add_sub_cancel_left]
      rfl
    · simp [State.nbytes]

theorem writeLoop_follows {src : List Byte} (hne : src ≠ []) (hs : total + src.length = n) :
    ∃ r, Follows true n ⟨offset, size, total⟩ r ∧
      match r, FileData.writeLoop evicted (fuel + 1) file offset src total with
      | .inr count, o => o.2 = (count, [])
      | .inl m, o => ∃ file', o = FileData.writeLoop evicted fuel file' (offset + (m - total : ℕ)) (src.drop (m - total)) m := by
  have hsrc : src.length = n - total := by omega
  simp only [FileData.writeLoop, if_pos hne, offT_tmod, hsrc]
  split
  · exact ⟨_, follows_short, rfl⟩
  · exact ⟨_, follows_moved, _, by rw [Nat.add_sub_cancel_left]; rfl⟩

end Models

end CheviotKernel.Transfers
