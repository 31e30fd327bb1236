import CheviotKernel.Fs.File
import CheviotKernel.Library.Spans

namespace CheviotKernel.FileData

open Function Spans Vfs

abbrev Byte := UInt8

structure Server where
  size : ℤ
  byte : ℤ → Byte

def Server.read (sv : Server) (offset : ℤ) (nbytes : ℕ) : List Byte :=
  slice sv.byte offset (min nbytes (sv.size - offset).toNat)

def Server.write (sv : Server) (offset : ℤ) (src : List Byte) : Server :=
  if src = [] then sv
  else ⟨max sv.size (offset + src.length), overlay (fun x => if x < sv.size then sv.byte x else 0) offset src⟩

structure File where
  size : ℤ
  page : ℤ → Option (ℤ → Byte)
  server : Server

def File.evict (f : File) (evicted : ℤ → Bool) : File := { f with page := fun b => if evicted b then none else f.page b }

def File.setPage (f : File) (base : ℤ) (d : ℤ → Byte) : File := { f with page := update f.page base (some d) }

def zeroPage : ℤ → Byte := fun _ => 0

def bread (f : File) (fileOffset : ℤ) : File × Option (ℤ → Byte) :=
  match f.page fileOffset with
  | some d => (f, some d)
  | none =>
    let xfered := f.server.read fileOffset pageSize.toNat
    if xfered.length = 0 then (f, none)
    else (f.setPage fileOffset (overlay zeroPage 0 xfered), some (overlay zeroPage 0 xfered))

def breadZero (f : File) (fileOffset : ℤ) : File × Option (ℤ → Byte) :=
  (f.setPage fileOffset zeroPage, some zeroPage)

def bwrite (f : File) (fileOffset : ℤ) (d : ℤ → Byte) : File :=
  { f with server := f.server.write fileOffset (slice d 0 (nbytesToWrite f.size fileOffset)) }

abbrev Result := ℤ × List Byte

def readLoop (evicted : ℕ → ℤ → Bool) (nbytesToRead : ℕ) : ℕ → File → ℤ → List Byte → File × Result
  | 0, f, _, dst => (f, dst.length, dst)
  | fuel + 1, f, offset, dst =>
    if dst.length < nbytesToRead then
      let n := nbytesXfer (nbytesToRead - dst.length) (offset.tmod pageSize)
      match bread (f.evict (evicted fuel)) (alignDown offset pageSize) with
      | (f, none) => (f, shortCount dst.length, dst)
      | (f, some d) => readLoop evicted nbytesToRead fuel f (offset + n) (dst ++ slice d (offset.tmod pageSize) n)
    else (f, dst.length, dst)

def readFromFile (evicted : ℕ → ℤ → Bool) (f : File) (offset : ℤ) (sz : ℕ) : File × Result :=
  if offset ≥ f.size then (f, 0, [])
  else readLoop evicted (bytesToRead f.size offset sz) (bytesToRead f.size offset sz) f offset []

def writeLoop (evicted : ℕ → ℤ → Bool) : ℕ → File → ℤ → List Byte → ℕ → File × Result
  | 0, f, _, _, nbytesTotal => (f, nbytesTotal, [])
  | fuel + 1, f, offset, src, nbytesTotal =>
    if src ≠ [] then
      let clusterBase := offT (alignDown offset pageSize)
      let clusterOffset := offT (offset.tmod pageSize)
      let n := nbytesXfer src.length clusterOffset
      let f := f.evict (evicted fuel)
      match if clusterBase < f.size then bread f clusterBase else breadZero f clusterBase with
      | (f, none) => (f, shortCount nbytesTotal, [])
      | (f, some d) =>
        let d := overlay d clusterOffset (src.take n)
        let f := { f.setPage clusterBase d with size := if offset + n > f.size then offset + n else f.size }
        writeLoop evicted fuel (bwrite f clusterBase d) (offset + n) (src.drop n) (nbytesTotal + n)
    else (f, nbytesTotal, [])

def writeToFile (evicted : ℕ → ℤ → Bool) (f : File) (offset : ℤ) (src : List Byte) : File × Result :=
  writeLoop evicted src.length f offset src 0

inductive Call
  | read (offset : ℤ) (sz : ℕ)
  | write (offset : ℤ) (src : List Byte)

def perform (evicted : ℕ → ℤ → Bool) (f : File) : Call → File × Result
  | .read offset sz => readFromFile evicted f offset sz
  | .write offset src => writeToFile evicted f offset src

def run (f : File) : List (Call × (ℤ → Bool) × (ℕ → ℤ → Bool)) → File × List Result
  | [] => (f, [])
  | (call, before, evicted) :: rest =>
    let (f, result) := perform evicted (f.evict before) call
    let (f, results) := run f rest
    (f, result :: results)

structure Contents where
  size : ℤ
  byte : ℤ → Byte

def Contents.read (a : Contents) (offset : ℤ) (sz : ℕ) : List Byte :=
  slice a.byte offset (min sz (a.size - offset).toNat)

def Contents.write (a : Contents) (offset : ℤ) (src : List Byte) : Contents :=
  if src = [] then a else ⟨max a.size (offset + src.length), overlay a.byte offset src⟩

def Contents.perform (a : Contents) : Call → Contents × Result
  | .read offset sz => (a, (a.read offset sz).length, a.read offset sz)
  | .write offset src => (a.write offset src, src.length, [])

def Contents.run (a : Contents) : List Call → Contents × List Result
  | [] => (a, [])
  | call :: rest =>
    let (a, result) := a.perform call
    let (a, results) := a.run rest
    (a, result :: results)

def Call.span : Call → ℤ × ℕ
  | .read offset sz => (offset, sz)
  | .write offset src => (offset, src.length)

def Call.InRange (call : Call) : Prop := 0 ≤ call.span.1 ∧ call.span.1 + call.span.2 < 2 ^ 31

structure Shows (f : File) (a : Contents) : Prop where
  size : f.size = a.size
  nonneg : 0 ≤ a.size
  bounded : a.size < 2 ^ 63
  serverSize : f.server.size = a.size
  server : ∀ x, 0 ≤ x → x < a.size → f.server.byte x = a.byte x
  beyond : ∀ x, a.size ≤ x → a.byte x = 0
  page : ∀ b d, f.page b = some d → 0 ≤ b ∧ b % 4096 = 0 ∧ ∀ i, 0 ≤ i → i < 4096 → d i = a.byte (b + i)

def Fits (a : Contents) : Call → Prop
  | .read offset sz => offset < a.size → a.size - offset < 2 ^ 32 ∨ sz ≤ sizeT (a.size - offset)
  | .write _ _ => True

def AllFit (a : Contents) : List Call → Prop
  | [] => True
  | call :: rest => Fits a call ∧ AllFit (a.perform call).1 rest

def ends : List Call → List ℤ
  | [] => []
  | .read _ _ :: rest => ends rest
  | .write offset src :: rest => if src = [] then ends rest else (offset + src.length) :: ends rest

def Refines (f : File) (a : Contents) (calls : List (Call × (ℤ → Bool) × (ℕ → ℤ → Bool))) : Prop :=
  (run f calls).2 = (a.run (calls.map Prod.fst)).2 ∧
    (run f calls).1.size = (ends (calls.map Prod.fst)).foldl max a.size

section

variable {offset b size x co base b' i start : ℤ} {f : File} {a : Contents} {d e : ℤ → Byte}

theorem tmod_of_nonneg (h : 0 ≤ offset) : offset.tmod pageSize = offset % 4096 :=
  Int.tmod_eq_emod_of_nonneg h

theorem alignDown_pageSize (h : 0 ≤ offset) : alignDown offset pageSize = offset - offset % 4096 := by
  rw [alignDown, tmod_of_nonneg h]

theorem offT_of_lt (h0 : 0 ≤ x) (h : x < 2 ^ 31) : offT x = x := by
  unfold offT
  rw [Int.bmod_eq_of_le (by omega) (by omega)]

theorem nbytesToWrite_eq (h0 : 0 ≤ base) (hb : base % 4096 = 0) (h : base < size) (hs : size < 2 ^ 63) :
    (nbytesToWrite size base : ℤ) = min 4096 (size - base) := by
  have hw : wrap64 (size - base) = size - base := by
    unfold wrap64
    rw [Int.bmod_eq_of_le (by omega) (by omega)]
  have hm : size.tmod pageSize = size % 4096 := tmod_of_nonneg (by omega)
  unfold nbytesToWrite sizeT
  rw [hm]
  unfold pageSize
  split_ifs <;> omega

theorem page_of_setPage (h : (f.setPage b d).page b' = some e) : b' = b ∧ e = d ∨ b' ≠ b ∧ f.page b' = some e := by
  simp only [File.setPage] at h
  by_cases hb : b' = b
  · rw [hb, update_self] at h
    exact .inl ⟨hb, (Option.some.inj h).symm⟩
  · rw [update_of_ne hb] at h
    exact .inr ⟨hb, h⟩

-- What one round of the write loop leaves: the server holds the cluster up to the new end of the file.
theorem bwrite_round (f : File) (d : ℤ → Byte) (top : ℤ) (h0 : 0 ≤ b) (hb : b % 4096 = 0) (ht : b < top)
    (hf : f.size < 2 ^ 63) (hbound : top < 2 ^ 63) :
    ∃ f', bwrite { f.setPage b d with size := if top > f.size then top else f.size } b d = f' ∧
      f'.size = max f.size top ∧ f'.page = (f.setPage b d).page ∧
      f'.server.size = max f.server.size (min (b + 4096) f'.size) ∧
      ∀ x, f'.server.byte x = if b ≤ x ∧ x < min (b + 4096) f'.size then d (x - b)
        else if x < f.server.size then f.server.byte x else 0 := by
  have hsize : (if top > f.size then top else f.size) = max f.size top := by
    split_ifs <;> omega
  rw [hsize]
  have hcount : (nbytesToWrite (max f.size top) b : ℤ) = min 4096 (max f.size top - b) :=
    nbytesToWrite_eq h0 hb (by omega) (by omega)
  set count : ℕ := nbytesToWrite (max f.size top) b with hct
  have hsent : slice d 0 count ≠ [] := by
    intro hnil
    have hlen := congrArg List.length hnil
    simp at hlen
    omega
  refine ⟨_, rfl, rfl, rfl, ?_, fun x => ?_⟩
  · simp only [bwrite, Server.write, ← hct, hsent, if_false, slice_length, File.setPage]
    omega
  simp only [bwrite, Server.write, ← hct, hsent, if_false]
  split_ifs with hin hlt
  · rw [overlay_slice _ _ hin.1 (by omega), zero_add]
  · rw [overlay_outside _ _ (by simp only [slice_length]; omega)]
    exact if_pos hlt
  · rw [overlay_outside _ _ (by simp only [slice_length]; omega)]
    exact if_neg hlt

theorem bytesToRead_eq_iff (h : offset < size) (sz : ℕ) :
    bytesToRead size offset sz = min sz (size - offset).toNat ↔
      size - offset < 2 ^ 32 ∨ sz ≤ sizeT (size - offset) := by
  unfold bytesToRead sizeT
  split_ifs <;> omega

def uncached (a : Contents) : File := ⟨a.size, fun _ => none, ⟨a.size, a.byte⟩⟩

theorem shows_uncached (h0 : 0 ≤ a.size) (h : a.size < 2 ^ 63) (hb : ∀ x, a.size ≤ x → a.byte x = 0) :
    Shows (uncached a) a := by
  refine ⟨rfl, h0, h, rfl, fun x _ _ => rfl, hb, ?_⟩
  intro b d hd
  cases hd

def fiveBytes : Contents := ⟨5, overlay (fun _ => 0) 0 [1, 2, 3, 4, 5]⟩

theorem fiveBytes_shown : Shows (uncached fiveBytes) fiveBytes := by
  refine shows_uncached (by decide) (by decide) ?_
  intro x hx
  have hend : (0 : ℤ) + ([1, 2, 3, 4, 5] : List Byte).length ≤ x := hx
  exact overlay_outside (fun _ => 0) 0 (.inr hend)

def rewriting : List (Call × (ℤ → Bool) × (ℕ → ℤ → Bool)) :=
  [(.write 4 [9, 8, 7], fun _ => false, fun _ _ => false), (.read 3 10, fun _ => true, fun _ _ => true)]

def fourGiB : Contents := ⟨2 ^ 32, fun _ => 0⟩

def reading : List (Call × (ℤ → Bool) × (ℕ → ℤ → Bool)) := [(.read 0 1, fun _ => false, fun _ _ => false)]

theorem large_file_reads_short : Shows (uncached fourGiB) fourGiB ∧ (∀ c ∈ reading, c.1.InRange) ∧
    (run (uncached fourGiB) reading).2 = [(0, [])] ∧ (fourGiB.run (reading.map Prod.fst)).2 = [(1, [0])] ∧
    ¬ Refines (uncached fourGiB) fourGiB reading := by
  have hcode : (run (uncached fourGiB) reading).2 = [(0, [])] := by decide +kernel
  have hspec : (fourGiB.run (reading.map Prod.fst)).2 = [(1, [0])] := by decide +kernel
  refine ⟨shows_uncached (by decide) (by decide) fun _ _ => rfl, ?_, hcode, hspec, ?_⟩
  · simp [reading, Call.InRange, Call.span]
  · rintro ⟨hresults, -⟩
    rw [hcode, hspec] at hresults
    simp at hresults

section

variable (a : Contents) (offset : ℤ)

@[simp] theorem write_nil : a.write offset [] = a := by
  simp [Contents.write]

theorem write_append (xs ys : List Byte) :
    a.write offset (xs ++ ys) = (a.write offset xs).write (offset + xs.length) ys := by
  by_cases hx : xs = []
  · simp [hx]
  by_cases hy : ys = []
  · simp [hy]
  simp only [Contents.write, List.append_eq_nil_iff, hx, hy, and_self, if_false, overlay_append, List.length_append]
  congr 1
  omega

theorem write_size {src : List Byte} (h : src ≠ []) : (a.write offset src).size = max a.size (offset + src.length) := by
  simp [Contents.write, h]

theorem Contents.run_size (calls : List Call) : (a.run calls).1.size = (ends calls).foldl max a.size := by
  induction calls generalizing a with
  | nil => rfl
  | cons call rest ih =>
    simp only [Contents.run, ih]
    cases call with
    | read offset sz => rfl
    | write offset src =>
      by_cases hs : src = []
      · simp [Contents.perform, ends, hs]
      · simp [Contents.perform, ends, hs, write_size a offset hs]

end

namespace Shows

variable (h : Shows f a) (h0 : 0 ≤ b) (hb : b % 4096 = 0)
include h

theorem evict (evicted : ℤ → Bool) : Shows (f.evict evicted) a := by
  refine { h with page := ?_ }
  intro b d hd
  simp only [File.evict] at hd
  split_ifs at hd
  exact h.page b d hd

theorem writeRound (base offset : ℤ) (chunk : List Byte) (h0 : 0 ≤ base)
    (hb : base % 4096 = 0) (ho : base ≤ offset) (hne : chunk ≠ []) (hend : offset + chunk.length ≤ base + 4096)
    (hbound : offset + chunk.length < 2 ^ 31) (hd : ∀ i, 0 ≤ i → i < 4096 → d i = a.byte (base + i)) :
    Shows (bwrite { f.setPage base (overlay d (offset - base) chunk) with
      size := if offset + chunk.length > f.size then offset + chunk.length else f.size } base
      (overlay d (offset - base) chunk)) (a.write offset chunk) := by
  have hpos : 0 < chunk.length := List.length_pos_iff.mpr hne
  have hd' : ∀ i, 0 ≤ i → i < 4096 → overlay d (offset - base) chunk i = overlay a.byte offset chunk (base + i) := by
    intro i hi0 hi
    exact overlay_shift d offset chunk (hd i hi0 hi)
  have hnew : a.write offset chunk = ⟨max a.size (offset + chunk.length), overlay a.byte offset chunk⟩ := by
    simp [Contents.write, hne]
  have hsize := h.size
  have hbounded := h.bounded
  obtain ⟨f', hf', hsize', hpages, hserver, hbyte⟩ := bwrite_round f (overlay d (offset - base) chunk)
    (offset + chunk.length) h0 hb (by omega) (by omega) (by omega)
  have hssize := h.serverSize
  rw [hf', hnew]
  refine ⟨by simp only; omega, by simp only; omega, by simp only; omega, by simp only; omega, ?_, ?_, ?_⟩
  · intro x hx0 hx
    simp only at hx ⊢
    rw [hbyte]
    split_ifs with hin hlt
    · rw [hd' _ (by omega) (by omega), add_sub_cancel]
    · rw [overlay_outside a.byte offset (by omega)]
      exact h.server x hx0 (by omega)
    · rw [overlay_outside a.byte offset (by omega)]
      exact (h.beyond x (by omega)).symm
  · intro x hx
    simp only at hx ⊢
    rw [overlay_outside a.byte offset (by omega)]
    exact h.beyond x (by omega)
  · intro b' e he
    rw [hpages] at he
    rcases page_of_setPage he with ⟨rfl, rfl⟩ | ⟨hne, he⟩
    · exact ⟨h0, hb, hd'⟩
    obtain ⟨hb0, hbm, hpage⟩ := h.page b' e he
    refine ⟨hb0, hbm, fun i hi0 hi => ?_⟩
    -- Two clusters do not overlap.
    simp only
    rw [hpage i hi0 hi, overlay_outside a.byte offset (by omega)]

include h0

theorem fetched (hi0 : 0 ≤ i) (hi : i < 4096) :
    overlay zeroPage 0 (f.server.read b pageSize.toNat) i = a.byte (b + i) := by
  unfold Server.read
  rw [h.serverSize]
  by_cases hin : b + i < a.size
  · rw [overlay_slice zeroPage 0 hi0 (by simp [pageSize]; omega), sub_zero]
    exact h.server (b + i) (by omega) hin
  · rw [overlay_outside zeroPage 0 (.inr (by simp; omega)), h.beyond (b + i) (by omega)]
    rfl

include hb

theorem setPage (hd : ∀ i, 0 ≤ i → i < 4096 → d i = a.byte (b + i)) : Shows (f.setPage b d) a := by
  refine { h with page := ?_ }
  intro b' d' hd'
  rcases page_of_setPage hd' with ⟨rfl, rfl⟩ | ⟨-, hd'⟩
  · exact ⟨h0, hb, hd⟩
  · exact h.page b' d' hd'

protected theorem bread (hlt : b < a.size) :
    ∃ f' d, bread f b = (f', some d) ∧ Shows f' a ∧ ∀ i, 0 ≤ i → i < 4096 → d i = a.byte (b + i) := by
  unfold bread
  cases hp : f.page b with
  | some d => exact ⟨f, d, rfl, h, (h.page b d hp).2.2⟩
  | none =>
    have hne : ¬ (f.server.read b pageSize.toNat).length = 0 := by
      simp [Server.read, h.serverSize, pageSize]
      omega
    simp only [hne]
    have hd : ∀ i, 0 ≤ i → i < 4096 → overlay zeroPage 0 (f.server.read b pageSize.toNat) i = a.byte (b + i) :=
      fun i hi0 hi => h.fetched h0 hi0 hi
    exact ⟨_, _, rfl, h.setPage h0 hb hd, hd⟩

theorem clusterPage :
    ∃ f' d, (if b < f.size then bread f b else breadZero f b) = (f', some d) ∧ Shows f' a ∧
      ∀ i, 0 ≤ i → i < 4096 → d i = a.byte (b + i) := by
  split_ifs with hlt
  · exact h.bread h0 hb (h.size ▸ hlt)
  have hd : ∀ i, 0 ≤ i → i < 4096 → zeroPage i = a.byte (b + i) := by
    intro i hi0 hi
    rw [h.beyond (b + i) (by rw [← h.size]; omega)]
    rfl
  exact ⟨_, _, rfl, h.setPage h0 hb hd, hd⟩

end Shows

section

variable (evicted : ℕ → ℤ → Bool) (h : Shows f a)
include h

protected theorem Shows.readLoop {n : ℕ} (fuel : ℕ) (dst : List Byte)
    (h0 : 0 ≤ start) (hsize : start + n ≤ a.size) (hdst : dst = slice a.byte start dst.length) (hlen : dst.length ≤ n)
    (hfuel : n ≤ dst.length + fuel) :
    ∃ f', readLoop evicted n fuel f (start + dst.length) dst = (f', (n : ℤ), slice a.byte start n) ∧ Shows f' a := by
  induction fuel generalizing f dst with
  | zero =>
    have hn : dst.length = n := by omega
    refine ⟨f, ?_, h⟩
    rw [readLoop, ← hn, ← hdst]
  | succ fuel ih =>
    rw [readLoop]
    split_ifs with hlt
    · set offset : ℤ := start + dst.length with hoffset
      rw [tmod_of_nonneg (by omega), alignDown_pageSize (by omega), nbytesXfer_eq _ (by omega) (by omega)]
      obtain ⟨f', d, hbread, hshows, hd⟩ := (h.evict (evicted fuel)).bread (b := offset - offset % 4096) (by omega)
        (by omega) (by omega)
      simp only [hbread]
      set k : ℕ := min (n - dst.length) (4096 - offset % 4096).toNat with hk
      have hslice : slice d (offset % 4096) k = slice a.byte (start + dst.length) k := by
        refine slice_congr _ _ fun i hi => ?_
        rw [hd _ (by omega) (by omega)]
        congr 1
        omega
      have hdst' : dst ++ slice d (offset % 4096) k = slice a.byte start (dst.length + k) := by
        rw [hslice, slice_append, ← hdst]
      have hlen' : (dst ++ slice d (offset % 4096) k).length = dst.length + k := by simp
      have hrest := ih hshows (dst ++ slice d (offset % 4096) k) (by rw [hlen', hdst']) (by omega) (by omega)
      rw [hlen'] at hrest
      rw [add_assoc]
      exact_mod_cast hrest
    · have hn : dst.length = n := by omega
      exact ⟨f, by rw [← hn, ← hdst], h⟩

protected theorem Shows.readFromFile (sz : ℕ) (h0 : 0 ≤ offset) :
    ∃ (f' : File) (n : ℕ), readFromFile evicted f offset sz = (f', (n : ℤ), slice a.byte offset n) ∧ Shows f' a ∧
      n = if offset < a.size then bytesToRead a.size offset sz else 0 := by
  unfold readFromFile
  rw [h.size]
  by_cases hlt : offset < a.size
  · rw [if_neg (by omega), if_pos hlt]
    obtain ⟨f', hloop, hshows⟩ := h.readLoop evicted (bytesToRead a.size offset sz) [] h0 (bytesToRead_le hlt sz)
      rfl (Nat.zero_le _) (by simp)
    simp only [List.length_nil, Nat.cast_zero, add_zero] at hloop
    exact ⟨f', _, hloop, hshows, rfl⟩
  · rw [if_pos (by omega), if_neg hlt]
    exact ⟨f, 0, rfl, h, rfl⟩

protected theorem Shows.writeLoop (fuel : ℕ) (offset : ℤ) (src : List Byte) (total : ℕ)
    (h0 : 0 ≤ offset) (hr : offset + src.length < 2 ^ 31) (hfuel : src.length ≤ fuel) :
    ∃ f', writeLoop evicted fuel f offset src total = (f', ((total + src.length : ℕ) : ℤ), []) ∧
      Shows f' (a.write offset src) := by
  induction fuel generalizing f a offset src total with
  | zero =>
    obtain rfl : src = [] := List.eq_nil_of_length_eq_zero (by omega)
    exact ⟨f, rfl, by simpa using h⟩
  | succ fuel ih =>
    rw [writeLoop]
    split_ifs with hne
    · have hpos : 0 < src.length := List.length_pos_iff.mpr hne
      rw [tmod_of_nonneg h0, alignDown_pageSize h0, offT_of_lt (by omega) (by omega), offT_of_lt (by omega) (by omega)]
      simp only
      rw [nbytesXfer_eq _ (by omega) (by omega)]
      obtain ⟨f', d, hpage, hshows, hd⟩ := (h.evict (evicted fuel)).clusterPage (b := offset - offset % 4096) (by omega)
        (by omega)
      simp only [hpage]
      set k : ℕ := min src.length (4096 - offset % 4096).toNat with hk
      have hlen : (src.take k).length = k := by simp; omega
      have hchunk : src.take k ≠ [] := by
        rw [← List.length_pos_iff]
        omega
      have hround := hshows.writeRound (offset - offset % 4096) offset (src.take k) (by omega) (by omega) (by omega)
        hchunk (by omega) (by omega) hd
      rw [hlen, sub_sub_cancel] at hround
      obtain ⟨f'', hrest, hdone⟩ := ih hround (offset + k) (src.drop k) (total + k) (by omega) (by simp; omega) (by simp; omega)
      refine ⟨f'', hrest.trans ?_, ?_⟩
      · simp only [List.length_drop, Prod.mk.injEq, true_and, and_true]
        omega
      · have happend := write_append a offset (src.take k) (src.drop k)
        rw [List.take_append_drop, hlen] at happend
        rwa [happend]
    · have hnil : src = [] := by simpa using hne
      subst hnil
      exact ⟨f, rfl, by simpa using h⟩

protected theorem Shows.perform {call : Call} (hc : call.InRange) :
    Shows (perform evicted f call).1 (a.perform call).1 ∧
      ((perform evicted f call).2 = (a.perform call).2 ↔ Fits a call) := by
  cases call with
  | read offset sz =>
    have h0 : 0 ≤ offset := hc.1
    obtain ⟨f', n, hread, hshows, hn⟩ := h.readFromFile evicted sz h0
    simp only [perform, Contents.perform, hread, Fits, Contents.read, slice_length]
    refine ⟨hshows, ?_⟩
    by_cases hlt : offset < a.size
    · rw [if_pos hlt] at hn
      subst hn
      simp only [hlt, true_imp_iff, ← bytesToRead_eq_iff hlt sz]
      constructor
      · intro heq
        exact_mod_cast (Prod.mk.inj heq).1
      · intro heq
        rw [heq]
    · subst hn
      have hzero : (a.size - offset).toNat = 0 := by omega
      simp [hlt, hzero]
  | write offset src =>
    obtain ⟨f', hwrite, hshows⟩ := h.writeLoop evicted src.length offset src 0 hc.1 hc.2 le_rfl
    simp only [perform, writeToFile, Contents.perform, hwrite, Fits]
    exact ⟨hshows, by simp⟩

end

protected theorem Shows.run (h : Shows f a) (calls : List (Call × (ℤ → Bool) × (ℕ → ℤ → Bool)))
    (hc : ∀ c ∈ calls, c.1.InRange) :
    Shows (run f calls).1 (a.run (calls.map Prod.fst)).1 ∧
      ((run f calls).2 = (a.run (calls.map Prod.fst)).2 ↔ AllFit a (calls.map Prod.fst)) := by
  induction calls generalizing f a with
  | nil => exact ⟨h, by simp [run, Contents.run, AllFit]⟩
  | cons c rest ih =>
    obtain ⟨call, before, evicted⟩ := c
    obtain ⟨hshows, hiff⟩ := (h.evict before).perform evicted (hc (call, before, evicted) (by simp))
    obtain ⟨hdone, hrest⟩ := ih hshows fun c hm => hc c (by simp [hm])
    refine ⟨hdone, ?_⟩
    simp only [run, Contents.run, List.map_cons, AllFit, List.cons.injEq, hiff, hrest]

theorem refines_iff_allFit (f : File) (a : Contents) (calls : List (Call × (ℤ → Bool) × (ℕ → ℤ → Bool)))
    (h : Shows f a) (hc : ∀ c ∈ calls, c.1.InRange) : Refines f a calls ↔ AllFit a (calls.map Prod.fst) := by
  obtain ⟨hdone, hiff⟩ := h.run calls hc
  unfold Refines
  rw [hiff, hdone.size, Contents.run_size]
  simp

theorem refines_after_eviction : Refines (uncached fiveBytes) fiveBytes rewriting ∧
    (run (uncached fiveBytes) rewriting).2 = [(3, []), (4, [4, 9, 8, 7])] := by
  refine ⟨(refines_iff_allFit _ _ _ fiveBytes_shown ?_).mpr ?_, ?_⟩
  · simp [rewriting, Call.InRange, Call.span]
  · simp [rewriting, AllFit, Fits, Contents.perform, Contents.write, fiveBytes]
  · decide +kernel

end

end CheviotKernel.FileData
