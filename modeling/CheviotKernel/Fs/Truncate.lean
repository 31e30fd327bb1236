import CheviotKernel.Fs.FileData

namespace CheviotKernel.FileData

open Function Spans Vfs

def Server.truncate (sv : Server) (size : ℤ) : Server := ⟨size, fun x => if x < sv.size then sv.byte x else 0⟩

def vfsTruncate (f : File) (size : ℤ) (sc : ℤ) : File × ℤ :=
  if sc = 0 then ({ f with server := f.server.truncate size }, 0) else (f, sc)

structure Target where
  filp : Bool
  vnode : Bool
  regular : Bool

-- It does not look at sz.
def sysTruncate (f : File) (target : Target) (_sz : ℕ) (sc : ℤ) : File × ℤ :=
  if target.filp = false then (f, -ebadf)
  else if target.vnode = false then (f, -efault)
  else if target.regular = false then (f, -einval)
  else vfsTruncate f 0 sc

def openTruncate (f : File) (regular : Bool) (sc : ℤ) : File × ℤ := if regular then vfsTruncate f 0 sc else (f, 0)

inductive Request
  | truncate (target : Target) (sz : ℕ)
  | openTrunc

def Request.newSize : Request → ℤ
  | .truncate _ sz => sz
  | .openTrunc => 0

def Request.perform (f : File) (sc : ℤ) : Request → File × ℤ
  | .truncate target sz => sysTruncate f target sz sc
  | .openTrunc => openTruncate f true sc

abbrev Calls := List (Call × (ℤ → Bool) × (ℕ → ℤ → Bool))

def Call.wrote : Call → Result → ℤ → Prop
  | .write offset _, result, x => offset ≤ x ∧ x < offset + result.1
  | .read _ _, _, _ => False

def Wrote (f : File) (calls : Calls) (x : ℤ) : Prop :=
  ∃ c ∈ (calls.map Prod.fst).zip (run f calls).2, c.1.wrote c.2 x

structure Truncated (f : File) (sz : ℤ) (calls : Calls) : Prop where
  size : f.size = sz
  reads : ∀ evicted offset n, sz ≤ offset → (readFromFile evicted f offset n).2 = (0, [])
  gap : ∀ evicted x, sz ≤ x → x < (run f calls).1.size → ¬ Wrote f calls x →
    (readFromFile evicted (run f calls).1 x 1).2 = (1, [0])

-- From 2^31 on write_to_file works on another page.
def Call.WritesLow : Call → Prop
  | .write offset src => 0 ≤ offset ∧ offset + src.length < 2 ^ 31
  | .read _ _ => True

section

variable {f f' : File} {s b x sc : ℤ} {gap gap' : ℤ → Prop} {a : Contents} {d : ℤ → Byte}

structure Cleared (f : File) (s : ℤ) (gap : ℤ → Prop) : Prop where
  nonneg : 0 ≤ s
  size : s ≤ f.size
  bounded : f.size < 2 ^ 63
  server : ∀ x, gap x → x < f.server.size → f.server.byte x = 0
  serverSize : f.server.size ≤ f.size
  grown : s < f.size → f.server.size = f.size ∧ f.size < 2 ^ 31
  page : ∀ b d, f.page b = some d → ∀ i, 0 ≤ i → i < 4096 → gap (b + i) → d i = 0

namespace Cleared

variable (h : Cleared f s gap)
include h

theorem mono (hg : ∀ x, gap' x → gap x) : Cleared f s gap' :=
  ⟨h.nonneg, h.size, h.bounded, fun x hx => h.server x (hg x hx), h.serverSize, h.grown,
    fun b d hd i hi0 hi hx => h.page b d hd i hi0 hi (hg _ hx)⟩

theorem evict (evicted : ℤ → Bool) : Cleared (f.evict evicted) s gap := by
  refine { h with page := ?_ }
  intro b d hd
  simp only [File.evict] at hd
  split_ifs at hd
  exact h.page b d hd

theorem setPage (hd : ∀ i, 0 ≤ i → i < 4096 → gap (b + i) → d i = 0) : Cleared (f.setPage b d) s gap := by
  refine { h with page := ?_ }
  intro b' d' hd'
  rcases page_of_setPage hd' with ⟨rfl, rfl⟩ | ⟨-, hd'⟩
  · exact hd
  · exact h.page b' d' hd'

protected theorem bread (b : ℤ) :
    Cleared (bread f b).1 s gap ∧
      (∀ d, (bread f b).2 = some d → ∀ i, 0 ≤ i → i < 4096 → gap (b + i) → d i = 0) ∧
      (b < f.server.size → (bread f b).2 ≠ none) := by
  unfold bread
  cases hp : f.page b with
  | some d =>
    refine ⟨h, ?_, fun _ => Option.some_ne_none d⟩
    rintro d' hd'
    cases hd'
    exact h.page b d hp
  | none =>
    have hd : ∀ i, 0 ≤ i → i < 4096 → gap (b + i) → overlay zeroPage 0 (f.server.read b pageSize.toNat) i = 0 := by
      intro i hi0 hi hgap
      unfold Server.read
      by_cases hin : b + i < f.server.size
      · rw [overlay_slice zeroPage 0 hi0 (by simp [pageSize]; omega), sub_zero]
        exact h.server (b + i) hgap hin
      · rw [overlay_outside zeroPage 0 (.inr (by simp; omega))]
        rfl
    dsimp only
    split_ifs with hlen
    · refine ⟨h, ?_, fun hlt => ?_⟩
      · rintro d hd
        cases hd
      · simp [Server.read, pageSize] at hlen
        omega
    · refine ⟨h.setPage hd, ?_, fun _ => Option.some_ne_none _⟩
      rintro d' hd'
      cases hd'
      exact hd

theorem writeRound (base offset : ℤ) (chunk : List Byte) (h0 : 0 ≤ base)
    (hb : base % 4096 = 0) (ho : base ≤ offset) (hne : chunk ≠ []) (hend : offset + chunk.length ≤ base + 4096)
    (hbound : offset + chunk.length < 2 ^ 31) (hd : ∀ i, 0 ≤ i → i < 4096 → gap (base + i) → d i = 0) :
    Cleared (bwrite { f.setPage base (overlay d (offset - base) chunk) with
      size := if offset + chunk.length > f.size then offset + chunk.length else f.size } base
      (overlay d (offset - base) chunk)) s fun x => gap x ∧ ¬ (offset ≤ x ∧ x < offset + chunk.length) := by
  have hpos : 0 < chunk.length := List.length_pos_iff.mpr hne
  have hgrow := h.size
  have hbounded := h.bounded
  have hserver := h.serverSize
  have hgrown := h.grown
  obtain ⟨f', hf', hsize, hpages, hssize, hbyte⟩ := bwrite_round f (overlay d (offset - base) chunk)
    (offset + chunk.length) h0 hb (by omega) (by omega) (by omega)
  have hd' : ∀ i, 0 ≤ i → i < 4096 → gap (base + i) ∧ ¬ (offset ≤ base + i ∧ base + i < offset + chunk.length) →
      overlay d (offset - base) chunk i = 0 := by
    intro i hi0 hi hgap
    rw [overlay_outside d _ (by omega)]
    exact hd i hi0 hi hgap.1
  rw [hf']
  refine ⟨h.nonneg, by omega, by omega, ?_, by omega, ?_, ?_⟩
  · intro x hgap hx
    rw [hbyte]
    split_ifs with hin hlt
    · refine hd' _ (by omega) (by omega) ?_
      rwa [add_sub_cancel]
    · exact h.server x hgap.1 hlt
    · rfl
  · intro hs
    omega
  · intro b' e he
    rw [hpages] at he
    rcases page_of_setPage he with ⟨rfl, rfl⟩ | ⟨-, he⟩
    · exact hd'
    · exact fun i hi0 hi hgap => h.page b' e he i hi0 hi hgap.1

theorem clusterPage (b : ℤ) :
    Cleared (if b < f.size then bread f b else breadZero f b).1 s gap ∧
      ∀ d, (if b < f.size then bread f b else breadZero f b).2 = some d →
        ∀ i, 0 ≤ i → i < 4096 → gap (b + i) → d i = 0 := by
  split_ifs with hlt
  · exact ⟨(h.bread b).1, (h.bread b).2.1⟩
  refine ⟨h.setPage fun _ _ _ _ => rfl, ?_⟩
  rintro d hd
  cases hd
  exact fun _ _ _ _ => rfl

theorem reads_zero (evicted : ℕ → ℤ → Bool) (hs : s ≤ x) (hx : x < f.size)
    (hgap : gap x) : (readFromFile evicted f x 1).2 = (1, [0]) := by
  obtain ⟨hserver, hsmall⟩ := h.grown (by omega)
  have h0 : 0 ≤ x := h.nonneg.trans hs
  have hone : bytesToRead f.size x 1 = 1 := by
    unfold bytesToRead sizeT
    split_ifs <;> omega
  have hxfer : nbytesXfer 1 (x % 4096) = 1 := by
    rw [nbytesXfer_eq _ (by omega) (by omega)]
    omega
  obtain ⟨-, hd, hsome⟩ := (h.evict (evicted 0)).bread (x - x % 4096)
  unfold readFromFile
  rw [if_neg (by omega), hone, readLoop, alignDown_pageSize h0, tmod_of_nonneg h0]
  rcases hpage : bread (f.evict (evicted 0)) (x - x % 4096) with ⟨f', _ | d⟩
  · rw [hpage] at hsome
    exact absurd rfl (hsome (by simp only [File.evict]; omega))
  · rw [hpage] at hd
    have hzero : d (x % 4096) = 0 := hd d rfl (x % 4096) (by omega) (by omega) (by rwa [sub_add_cancel])
    simp [readLoop, hxfer, slice, hzero]

end Cleared

section

variable (evicted : ℕ → ℤ → Bool) (h : Cleared f s gap)
include h

-- Induction on the rounds: n bytes are written before the loop ends, and nothing else is.
protected theorem Cleared.writeLoop (fuel : ℕ) (offset : ℤ) (src : List Byte)
    (total : ℕ) (h0 : 0 ≤ offset) (hr : offset + src.length < 2 ^ 31) :
    ∃ n : ℕ, (0 < total + n → (writeLoop evicted fuel f offset src total).2.1 = ((total + n : ℕ) : ℤ)) ∧
      Cleared (writeLoop evicted fuel f offset src total).1 s
        fun x => gap x ∧ ¬ (offset ≤ x ∧ x < offset + n) := by
  induction fuel generalizing f gap offset src total with
  | zero => exact ⟨0, fun _ => rfl, h.mono fun _ hx => hx.1⟩
  | succ fuel ih =>
    rw [writeLoop]
    split_ifs with hne
    · have hpos : 0 < src.length := List.length_pos_iff.mpr hne
      rw [tmod_of_nonneg h0, alignDown_pageSize h0, offT_of_lt (by omega) (by omega), offT_of_lt (by omega) (by omega)]
      simp only
      rw [nbytesXfer_eq _ (by omega) (by omega)]
      obtain ⟨hkept, hd⟩ := (h.evict (evicted fuel)).clusterPage (offset - offset % 4096)
      rcases hpage : (if offset - offset % 4096 < (f.evict (evicted fuel)).size
          then bread (f.evict (evicted fuel)) (offset - offset % 4096)
          else breadZero (f.evict (evicted fuel)) (offset - offset % 4096)) with ⟨f', _ | d⟩
      · rw [hpage] at hkept
        refine ⟨0, fun htotal => ?_, hkept.mono fun _ hx => hx.1⟩
        simp only [shortCount]
        rw [if_pos (by omega)]
        rfl
      · rw [hpage] at hkept hd
        set k : ℕ := min src.length (4096 - offset % 4096).toNat with hk
        have hlen : (src.take k).length = k := by simp; omega
        have hchunk : src.take k ≠ [] := by
          rw [← List.length_pos_iff]
          omega
        have hround := hkept.writeRound (offset - offset % 4096) offset (src.take k) (by omega) (by omega) (by omega)
          hchunk (by omega) (by omega) (hd d rfl)
        rw [hlen, sub_sub_cancel] at hround
        obtain ⟨n, hcount, hdone⟩ := ih hround (offset + k) (src.drop k) (total + k) (by omega) (by simp; omega)
        refine ⟨k + n, fun _ => ?_, hdone.mono ?_⟩
        · rw [hcount (by omega)]
          omega
        · intro x hx
          exact ⟨⟨hx.1, by omega⟩, by omega⟩
    · exact ⟨0, fun _ => rfl, h.mono fun _ hx => hx.1⟩

protected theorem Cleared.readLoop (n fuel : ℕ) (offset : ℤ) (dst : List Byte) :
    Cleared (readLoop evicted n fuel f offset dst).1 s gap := by
  induction fuel generalizing f offset dst with
  | zero => exact h
  | succ fuel ih =>
    rw [readLoop]
    split_ifs
    · have hkept := ((h.evict (evicted fuel)).bread (alignDown offset pageSize)).1
      rcases hpage : bread (f.evict (evicted fuel)) (alignDown offset pageSize) with ⟨f', _ | d⟩
      · rw [hpage] at hkept
        exact hkept
      · rw [hpage] at hkept
        exact ih hkept _ _
    · exact h

protected theorem Cleared.readFromFile (offset : ℤ) (sz : ℕ) :
    Cleared (readFromFile evicted f offset sz).1 s gap := by
  unfold readFromFile
  split_ifs
  · exact h
  · exact h.readLoop evicted _ _ offset []

protected theorem Cleared.perform {call : Call} (hc : call.WritesLow) :
    Cleared (perform evicted f call).1 s
      fun x => gap x ∧ ¬ call.wrote (perform evicted f call).2 x := by
  cases call with
  | read offset sz => exact (h.readFromFile evicted offset sz).mono fun _ hx => hx.1
  | write offset src =>
    obtain ⟨n, hcount, hdone⟩ := h.writeLoop evicted src.length offset src 0 hc.1 hc.2
    refine hdone.mono ?_
    rintro x ⟨hgap, hwrote⟩
    refine ⟨hgap, fun hin => hwrote ⟨hin.1, ?_⟩⟩
    have hresult : (perform evicted f (.write offset src)).2.1 = ((0 + n : ℕ) : ℤ) := hcount (by omega)
    omega

end

protected theorem Cleared.run (h : Cleared f s gap) (calls : Calls) (hc : ∀ c ∈ calls, c.1.WritesLow) :
    Cleared (run f calls).1 s fun x => gap x ∧ ¬ Wrote f calls x := by
  induction calls generalizing f gap with
  | nil => exact h.mono fun _ hx => hx.1
  | cons c calls ih =>
    have hperform := (h.evict c.2.1).perform c.2.2 (hc c (by simp))
    have hdone := ih hperform fun c' hm => hc c' (by simp [hm])
    refine hdone.mono ?_
    rintro x ⟨hgap, hwrote⟩
    simp only [Wrote, run, List.map_cons, List.zip_cons_cons, List.exists_mem_cons_iff, not_or] at hwrote
    exact ⟨⟨hgap, hwrote.1⟩, hwrote.2⟩

theorem vfsTruncate_ok (h : vfsTruncate f 0 sc = (f', 0)) : f' = { f with server := f.server.truncate 0 } := by
  unfold vfsTruncate at h
  split_ifs at h with hsc
  · cases h
    rfl
  · cases h
    exact absurd rfl hsc

theorem Request.perform_ok {r : Request} (h : r.perform f sc = (f', 0)) :
    f' = { f with server := f.server.truncate 0 } := by
  cases r with
  | truncate target sz =>
    simp only [Request.perform, sysTruncate] at h
    split_ifs at h
    · cases h
    · cases h
    · cases h
    · exact vfsTruncate_ok h
  | openTrunc => exact vfsTruncate_ok h

theorem Shows.cleared (h : Shows f a) :
    Cleared { f with server := f.server.truncate 0 } f.size fun x => f.size ≤ x := by
  have hsize := h.size
  have hnonneg := h.nonneg
  have hbounded := h.bounded
  refine ⟨by omega, le_rfl, by simp only; omega, ?_, ?_, ?_, ?_⟩
  · intro x hx hlt
    simp only [Server.truncate] at hlt
    omega
  · simp only [Server.truncate]
    omega
  · intro hlt
    exact absurd hlt (lt_irrefl _)
  · intro b d hd i hi0 hi hx
    rw [(h.page b d hd).2.2 i hi0 hi]
    exact h.beyond (b + i) (by omega)

theorem truncated_iff (f f' : File) (a : Contents) (r : Request) (sc : ℤ) (calls : Calls) (h : Shows f a)
    (hok : r.perform f sc = (f', 0)) (hc : ∀ c ∈ calls, c.1.WritesLow) :
    Truncated f' r.newSize calls ↔ r.newSize = f.size := by
  obtain rfl := Request.perform_ok hok
  constructor
  · intro htruncated
    exact htruncated.size.symm
  intro hsize
  rw [hsize]
  refine ⟨rfl, ?_, ?_⟩
  · intro evicted offset n hle
    unfold readFromFile
    rw [if_pos hle]
  · intro evicted x hs hx hwrote
    exact (h.cleared.run calls hc).reads_zero evicted hs hx ⟨hs, hwrote⟩

def regularFile : Target := ⟨true, true, true⟩

def cachedFive : File := (uncached fiveBytes).setPage 0 fiveBytes.byte

def extending (offset : ℤ) : Calls := [(.write offset [9], fun _ => false, fun _ _ => false)]

theorem cachedFive_shown : Shows cachedFive fiveBytes :=
  fiveBytes_shown.setPage (by decide) (by decide) fun i _ _ => by rw [zero_add]

theorem truncated_to_same_size : ∃ f', Request.perform cachedFive 0 (.truncate regularFile 5) = (f', 0) ∧
    Truncated f' 5 (extending 8) :=
  ⟨_, rfl, (truncated_iff cachedFive _ fiveBytes (.truncate regularFile 5) 0 (extending 8) cachedFive_shown rfl
    (by simp [extending, Call.WritesLow])).mpr rfl⟩

-- The last read is after a truncation to the size the file has, and a write far beyond it.
theorem truncation_keeps_bytes : Shows cachedFive fiveBytes ∧
    ∃ f', Request.perform cachedFive 0 (.truncate regularFile 3) = (f', 0) ∧
      Request.perform cachedFive 0 .openTrunc = (f', 0) ∧ f'.size = 5 ∧
      (readFromFile (fun _ _ => false) f' 3 10).2 = (2, [4, 5]) ∧
      (readFromFile (fun _ _ => false) (run f' (extending 8)).1 3 10).2 = (6, [4, 5, 0, 0, 0, 9]) ∧
      ¬ Truncated f' 3 [] ∧ ¬ Truncated f' 0 [] ∧ Request.perform cachedFive 0 (.truncate regularFile 5) = (f', 0) ∧
      (readFromFile (fun _ _ => false) (run f' (extending (2 ^ 32 + 8))).1 8 1).2 = (1, [9]) := by
  refine ⟨cachedFive_shown, _, rfl, rfl, rfl, ?_, ?_, ?_, ?_, rfl, ?_⟩
  · decide +kernel
  · decide +kernel
  · intro h
    exact absurd h.size (by decide)
  · intro h
    exact absurd h.size (by decide)
  · decide +kernel

end

end CheviotKernel.FileData
