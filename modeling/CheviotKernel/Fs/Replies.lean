import CheviotKernel.Library.Asking
import CheviotKernel.Fs.File

namespace CheviotKernel.Replies

open Asking Vfs

section Calls

structure Buffer where
  addr : ℕ
  sz : ℕ
  small : sz < 2147483648
  inside : addr + sz < 4294967296

structure Span where
  addr : ℕ
  size : ℕ
  deriving DecidableEq

inductive Outcome
  | panicked
  | returned (n : Int)
  deriving DecidableEq

structure Round where
  reply : BitVec 32
  block : Block
  offset : Int
  size : Int
  copied : Bool

structure Xfer where
  addr : ℕ
  total : ℕ

def blockLoop (sz : ℕ) : Loop Xfer Round Span Outcome where
  test s := if s.total < sz then none else some (.returned (ssizeT s.total))
  sends s := [⟨s.addr, sz - s.total⟩]
  takes _ _ := []
  next s r :=
    let xfered := r.reply.toInt
    if xfered = 0 then .inr (.returned (ssizeT s.total))
    else if xfered < 0 then .inr (.returned (transferred s.total xfered))
    else .inl ⟨sizeT (s.addr + xfered), sizeT (s.total + xfered)⟩

structure CharXfer where
  src : ℕ
  remaining : ℕ
  total : Int
  xfered : Int

def charLoop : Loop CharXfer Round Span Outcome where
  test s := if s.remaining > 0 then none else some (.returned (transferred s.total s.xfered))
  sends s := [⟨s.src, s.remaining⟩]
  takes _ _ := []
  next s r :=
    let xfered := r.reply.toInt
    if xfered ≤ 0 then .inr (.returned (transferred s.total xfered))
    else .inl ⟨sizeT (s.src + xfered), sizeT (s.remaining - xfered), ssizeT (s.total + xfered), xfered⟩

def charOnce (dst sz : ℕ) : Loop Unit Round Span Outcome where
  test _ := if sz > 0 then none else some (.returned 0)
  sends _ := [⟨dst, sz⟩]
  takes _ _ := []
  next _ r := .inr (.returned r.reply.toInt)

-- none: the kassert fails.
def bread (r : Round) : Option Bool :=
  match r.block with
  | .null => some false
  | .valid => some true
  | .invalid => if r.reply.toInt ≤ pageSize then some (decide (0 < r.reply.toInt)) else none

def breadZero (r : Round) : Bool := decide (r.block ≠ .null)

-- The common shape of the loops of read_from_file and write_to_file: page is what bread or bread_zero gives, faulted that
-- the copy fails. The result of bwrite is not looked at.
def fileLoop {ρ : Type} (sz : ℕ) (page : ρ → Option Bool) (clusterOffset : ρ → Int) (faulted : ρ → Bool) :
    Loop Xfer ρ Span Outcome where
  test s := if s.total < sz then none else some (.returned (ssizeT s.total))
  sends _ := []
  takes s r := if page r = some true then [⟨s.addr, nbytesXfer (sz - s.total) (clusterOffset r)⟩] else []
  next s r :=
    match page r with
    | none => .inr .panicked
    | some false => .inr (.returned (shortCount s.total))
    | some true =>
      if faulted r = true then .inr (.returned (-efault))
      else
        let nbytes := nbytesXfer (sz - s.total) (clusterOffset r)
        .inl ⟨sizeT (s.addr + nbytes), sizeT (s.total + nbytes)⟩

def readLoop (nbytesToRead : ℕ) (inkernel : Bool) : Loop Xfer Round Span Outcome :=
  fileLoop nbytesToRead bread (fun r => r.offset.tmod pageSize) fun r => !inkernel && !r.copied

def writePage (r : Round) : Option Bool :=
  if offT (alignDown r.offset pageSize) < r.size then bread r else some (breadZero r)

def writeLoop (sz : ℕ) : Loop Xfer Round Span Outcome :=
  fileLoop sz writePage (fun r => offT (r.offset.tmod pageSize)) fun r => !r.copied

inductive Call
  | readFromFile (size offset : Int) (inkernel : Bool)
  | writeToFile
  | readFromChar (interrupted : Bool)
  | writeToChar (interrupted : Bool)
  | readFromBlock
  | writeToBlock

def Call.run (b : Buffer) : Call → List Round → List Span × Option Outcome
  | .readFromFile size offset inkernel =>
    if offset ≥ size then fun _ => ([], some (.returned 0))
    else (readLoop (bytesToRead size offset b.sz) inkernel).run ⟨b.addr, 0⟩
  | .writeToFile => (writeLoop b.sz).run ⟨b.addr, 0⟩
  | .readFromChar interrupted =>
    if interrupted = true then fun _ => ([], some (.returned (-eintr))) else (charOnce b.addr b.sz).run ()
  | .writeToChar interrupted =>
    if interrupted = true then fun _ => ([], some (.returned (-eintr))) else charLoop.run ⟨b.addr, b.sz, 0, 0⟩
  | .readFromBlock => (blockLoop b.sz).run ⟨b.addr, 0⟩
  | .writeToBlock => (blockLoop b.sz).run ⟨b.addr, 0⟩

end Calls

section Bounds

def Span.Within (b : Buffer) (s : Span) : Prop := b.addr ≤ s.addr ∧ s.addr + s.size ≤ b.addr + b.sz

def Outcome.Fits (b : Buffer) : Outcome → Prop
  | .panicked => False
  | .returned n => n ≤ b.sz

def PageBounded (r : Round) : Prop := r.block = .invalid → r.reply.toInt ≤ pageSize

def BlockBounded (sz : ℕ) (s : Xfer) (r : Round) : Prop :=
  s.total + r.reply.toInt ≤ sz ∨ 2147483648 ≤ s.total + r.reply.toInt

def CharBounded (s : CharXfer) (r : Round) : Prop := r.reply.toInt ≤ s.remaining

def Call.Bounded (b : Buffer) (env : Stream' Round) : Call → Prop
  | .readFromFile size offset inkernel => offset ≥ size ∨
      ∀ n, (readLoop (bytesToRead size offset b.sz) inkernel).Meets (fun _ r => PageBounded r) ⟨b.addr, 0⟩ (env.take n)
  | .writeToFile => ∀ n, (writeLoop b.sz).Meets
      (fun _ r => offT (alignDown r.offset pageSize) < r.size → PageBounded r) ⟨b.addr, 0⟩ (env.take n)
  | .readFromChar interrupted => interrupted = true ∨ b.sz = 0 ∨ env.head.reply.toInt ≤ b.sz
  | .writeToChar interrupted => interrupted = true ∨ ∀ n, charLoop.Meets CharBounded ⟨b.addr, b.sz, 0, 0⟩ (env.take n)
  | .readFromBlock => ∀ n, (blockLoop b.sz).Meets (BlockBounded b.sz) ⟨b.addr, 0⟩ (env.take n)
  | .writeToBlock => ∀ n, (blockLoop b.sz).Meets (BlockBounded b.sz) ⟨b.addr, 0⟩ (env.take n)

end Bounds

section Arithmetic

variable {x : Int}

theorem ssizeT_of_lt (h0 : 0 ≤ x) (h : x < 2147483648) : ssizeT x = x := by
  unfold ssizeT
  rw [Int.bmod_def]
  omega

theorem ssizeT_neg (h0 : 2147483648 ≤ x) (h : x < 4294967296) : ssizeT x < 0 := by
  unfold ssizeT
  rw [Int.bmod_def]
  omega

theorem sizeT_of_lt (h0 : 0 ≤ x) (h : x < 4294967296) : (sizeT x : Int) = x := by
  unfold sizeT
  omega

theorem reply_lt (r : BitVec 32) : r.toInt < 2147483648 := by
  have := BitVec.toInt_lt (x := r)
  omega

theorem nbytesXfer_pos {n : ℕ} (hn : 0 < n) (h0 : -4096 < x) (h : x < 4096) :
    0 < nbytesXfer n x ∧ nbytesXfer n x ≤ n := by
  rw [nbytesXfer_eq n h0 h]
  omega

end Arithmetic

section Devices

variable (b : Buffer) (env : Stream' Round)

theorem blockLoop_keeps : Keeps (blockLoop b.sz)
    (fun s => (s.addr = b.addr + s.total ∧ s.total ≤ b.sz) ∨ 2147483648 ≤ s.total ∧ s.total < 4294967296)
    (BlockBounded b.sz) (Span.Within b) (Outcome.Fits b) := by
  have hb := b.small
  have hi := b.inside
  refine ⟨fun s a hs ht => ?_, fun s hs ht e he => ?_, fun s r hs ht hr e he => ?_, fun s r s' hs ht hr hn => ?_,
    fun s r a hs ht hr hn => ?_⟩
  · simp only [blockLoop] at ht
    split_ifs at ht with hlt
    cases ht
    simp only [Outcome.Fits]
    rcases hs with ⟨-, hle⟩ | ⟨h0, h1⟩
    · rw [ssizeT_of_lt (by omega) (by omega)]
      omega
    · have := ssizeT_neg (x := s.total) (by omega) (by omega)
      omega
  · simp only [blockLoop, List.mem_singleton] at he ht
    subst he
    split_ifs at ht with hlt
    simp only [Span.Within]
    omega
  · simp [blockLoop] at he
  · have hlt := reply_lt r.reply
    simp only [blockLoop] at ht hn
    split_ifs at ht with hsz
    split_ifs at hn with h0 h1
    obtain rfl := Sum.inl.inj hn
    have ha : (sizeT (s.total + r.reply.toInt) : Int) = s.total + r.reply.toInt := sizeT_of_lt (by omega) (by omega)
    rcases hr with hle | hbig
    · have hd : (sizeT (s.addr + r.reply.toInt) : Int) = s.addr + r.reply.toInt := sizeT_of_lt (by omega) (by omega)
      simp only
      omega
    · simp only
      omega
  · simp only [blockLoop] at ht hn
    split_ifs at ht with hsz
    split_ifs at hn with h0 h1
    · obtain rfl := Sum.inr.inj hn
      simp only [Outcome.Fits]
      rw [ssizeT_of_lt (by omega) (by omega)]
      omega
    · obtain rfl := Sum.inr.inj hn
      simp only [Outcome.Fits, transferred]
      rw [ssizeT_of_lt (by omega) (by omega)]
      omega

theorem blockLoop_harmless_iff : Harmless (Span.Within b) (Outcome.Fits b) ((blockLoop b.sz).run ⟨b.addr, 0⟩) env ↔
    ∀ n, (blockLoop b.sz).Meets (BlockBounded b.sz) ⟨b.addr, 0⟩ (env.take n) := by
  have hb := b.small
  refine (blockLoop_keeps b).harmless_iff (fun s => b.sz - s.total) (fun s r s' hs ht hr hn => ?_)
    (fun s r hs ht hr hsafe => ?_) env (.inl ⟨rfl, Nat.zero_le _⟩)
  · have hlt := reply_lt r.reply
    simp only [blockLoop] at ht hn
    split_ifs at ht with hsz
    split_ifs at hn with h0 h1
    obtain rfl := Sum.inl.inj hn
    have ha : (sizeT (s.total + r.reply.toInt) : Int) = s.total + r.reply.toInt := sizeT_of_lt (by omega) (by omega)
    simp only
    omega
  -- The total passes sz, the loop is over and the total is returned.
  · simp only [BlockBounded] at hr
    have hsz : s.total < b.sz := by
      simp only [blockLoop] at ht
      split_ifs at ht with hsz
      exact hsz
    have ha : (sizeT (s.total + r.reply.toInt) : Int) = s.total + r.reply.toInt := sizeT_of_lt (by omega) (by omega)
    have hn : (blockLoop b.sz).next s r = .inl ⟨sizeT (s.addr + r.reply.toInt), sizeT (s.total + r.reply.toInt)⟩ := by
      simp only [blockLoop]
      rw [if_neg (by omega), if_neg (by omega)]
    have hover : (blockLoop b.sz).test ⟨sizeT (s.addr + r.reply.toInt), sizeT (s.total + r.reply.toInt)⟩ =
        some (.returned (s.total + r.reply.toInt)) := by
      simp only [blockLoop]
      rw [if_neg (by omega), ha, ssizeT_of_lt (by omega) (by omega)]
    rw [run_goes_on ht hn, run_over hover] at hsafe
    have hfits : s.total + r.reply.toInt ≤ b.sz := hsafe.2 _ rfl
    omega

theorem charLoop_keeps : Keeps charLoop
    (fun s => s.src + s.remaining = b.addr + b.sz ∧ s.total + s.remaining = b.sz ∧ 0 ≤ s.total ∧ s.xfered ≤ b.sz)
    CharBounded (Span.Within b) (Outcome.Fits b) := by
  have hb := b.small
  have hi := b.inside
  refine ⟨fun s a hs ht => ?_, fun s hs ht e he => ?_, fun s r hs ht hr e he => ?_, fun s r s' hs ht hr hn => ?_,
    fun s r a hs ht hr hn => ?_⟩
  · simp only [charLoop] at ht
    split_ifs at ht with hlt
    cases ht
    simp only [Outcome.Fits, transferred]
    rw [ssizeT_of_lt (by omega) (by omega)]
    omega
  · simp only [charLoop, List.mem_singleton] at he
    subst he
    simp only [Span.Within]
    omega
  · simp [charLoop] at he
  · simp only [charLoop] at ht hn
    split_ifs at hn with h0
    obtain rfl := Sum.inl.inj hn
    simp only [CharBounded] at hr
    have hsrc : (sizeT (s.src + r.reply.toInt) : Int) = s.src + r.reply.toInt := sizeT_of_lt (by omega) (by omega)
    have hrem : (sizeT (s.remaining - r.reply.toInt) : Int) = s.remaining - r.reply.toInt :=
      sizeT_of_lt (by omega) (by omega)
    simp only
    rw [ssizeT_of_lt (by omega) (by omega)]
    omega
  · simp only [charLoop] at ht hn
    split_ifs at hn with h0
    obtain rfl := Sum.inr.inj hn
    simp only [Outcome.Fits, transferred]
    rw [ssizeT_of_lt (by omega) (by omega)]
    omega

theorem charLoop_harmless_iff :
    Harmless (Span.Within b) (Outcome.Fits b) (charLoop.run ⟨b.addr, b.sz, 0, 0⟩) env ↔
      ∀ n, charLoop.Meets CharBounded ⟨b.addr, b.sz, 0, 0⟩ (env.take n) := by
  have hb := b.small
  refine (charLoop_keeps b).harmless_iff CharXfer.remaining (fun s r s' hs ht hr hn => ?_)
    (fun s r hs ht hr hsafe => ?_) env ⟨rfl, by simp, by simp, by simp⟩
  · simp only [charLoop] at ht hn
    split_ifs at hn with h0
    obtain rfl := Sum.inl.inj hn
    simp only [CharBounded] at hr
    have hrem : (sizeT (s.remaining - r.reply.toInt) : Int) = s.remaining - r.reply.toInt :=
      sizeT_of_lt (by omega) (by omega)
    simp only
    omega
  -- What remains wraps around, and the next request is made from beyond the buffer.
  · simp only [CharBounded] at hr
    have hlt := reply_lt r.reply
    have hn : charLoop.next s r = .inl ⟨sizeT (s.src + r.reply.toInt), sizeT (s.remaining - r.reply.toInt),
        ssizeT (s.total + r.reply.toInt), r.reply.toInt⟩ := by
      simp only [charLoop]
      rw [if_neg (by omega)]
    have hrem : (sizeT (s.remaining - r.reply.toInt) : Int) = s.remaining - r.reply.toInt + 4294967296 := by
      unfold sizeT
      omega
    have hnone : charLoop.test ⟨sizeT (s.src + r.reply.toInt), sizeT (s.remaining - r.reply.toInt),
        ssizeT (s.total + r.reply.toInt), r.reply.toInt⟩ = none := by
      simp only [charLoop]
      rw [if_pos (by omega)]
    rw [run_goes_on ht hn, run_nil hnone] at hsafe
    have hwithin := hsafe.1 ⟨sizeT (s.src + r.reply.toInt), sizeT (s.remaining - r.reply.toInt)⟩ (by simp [charLoop])
    simp only [Span.Within] at hwithin
    omega

theorem charOnce_harmless_iff : Harmless (Span.Within b) (Outcome.Fits b) ((charOnce b.addr b.sz).run ()) env ↔
    b.sz = 0 ∨ env.head.reply.toInt ≤ b.sz := by
  have hkeeps : Keeps (charOnce b.addr b.sz) (fun _ => True) (fun _ r => r.reply.toInt ≤ b.sz) (Span.Within b)
      (Outcome.Fits b) := by
    refine ⟨fun s a _ ht => ?_, fun s _ _ e he => ?_, fun s r _ _ _ e he => ?_, fun _ _ _ _ _ _ _ => trivial,
      fun s r a _ _ hr hn => ?_⟩
    · simp only [charOnce] at ht
      split_ifs at ht
      cases ht
      simp [Outcome.Fits]
    · simp only [charOnce, List.mem_singleton] at he
      subst he
      exact ⟨Nat.le_refl _, Nat.le_refl _⟩
    · simp [charOnce] at he
    · obtain rfl := Sum.inr.inj hn
      exact hr
  have hiff := hkeeps.harmless_iff (fun _ => 0) (fun s r s' _ _ _ hn => by simp [charOnce] at hn)
    (fun s r _ ht hr hsafe => ?_) env (s := ()) trivial
  · rw [hiff]
    constructor
    · intro hm
      by_cases hz : b.sz = 0
      · exact .inl hz
      · exact .inr (hm 1 (by simp [charOnce]; omega)).1
    · intro hz n
      cases n with
      | zero => trivial
      | succ n =>
        intro ht
        refine ⟨hz.resolve_left fun h0 => ?_, fun s' hn => by simp [charOnce] at hn⟩
        simp [charOnce, h0] at ht
  · have hn : (charOnce b.addr b.sz).next s r = .inr (.returned r.reply.toInt) := rfl
    rw [run_ends_with ht hn] at hsafe
    exact hr (hsafe.2 _ rfl)

end Devices

section Files

variable (b : Buffer) (env : Stream' Round) {sz : ℕ} {page : Round → Option Bool} {clusterOffset : Round → Int}
  {faulted : Round → Bool}

theorem fileLoop_harmless_iff (hsz : sz ≤ b.sz) (hoff : ∀ r, -4096 < clusterOffset r ∧ clusterOffset r < 4096) :
    Harmless (Span.Within b) (Outcome.Fits b) ((fileLoop sz page clusterOffset faulted).run ⟨b.addr, 0⟩) env ↔
      ∀ n, (fileLoop sz page clusterOffset faulted).Meets (fun _ r => page r ≠ none) ⟨b.addr, 0⟩ (env.take n) := by
  have hb := b.small
  have hi := b.inside
  -- One round moves between one byte and what remains.
  have hround : ∀ (s : Xfer) r s', s.total ≤ sz → s.addr = b.addr + s.total →
      (fileLoop sz page clusterOffset faulted).test s = none →
      (fileLoop sz page clusterOffset faulted).next s r = .inl s' →
      s'.addr = b.addr + s'.total ∧ s.total < s'.total ∧ s'.total ≤ sz := by
    intro s r s' hle haddr ht hn
    simp only [fileLoop] at ht hn
    split_ifs at ht with hlt
    have hpos := nbytesXfer_pos (n := sz - s.total) (by omega) (hoff r).1 (hoff r).2
    split at hn
    · simp at hn
    · simp at hn
    · split_ifs at hn
      obtain rfl := Sum.inl.inj hn
      have ha := sizeT_of_lt (x := s.addr + nbytesXfer (sz - s.total) (clusterOffset r)) (by omega) (by omega)
      have hd := sizeT_of_lt (x := s.total + nbytesXfer (sz - s.total) (clusterOffset r)) (by omega) (by omega)
      simp only
      omega
  have hkeeps : Keeps (fileLoop sz page clusterOffset faulted) (fun s => s.addr = b.addr + s.total ∧ s.total ≤ sz)
      (fun _ r => page r ≠ none) (Span.Within b) (Outcome.Fits b) := by
    refine ⟨fun s a hs ht => ?_, fun s _ _ e he => ?_, fun s r hs ht hr e he => ?_, fun s r s' hs ht _ hn => ?_,
      fun s r a hs ht hr hn => ?_⟩
    · simp only [fileLoop] at ht
      split_ifs at ht
      cases ht
      simp only [Outcome.Fits]
      rw [ssizeT_of_lt (by omega) (by omega)]
      omega
    · simp [fileLoop] at he
    · simp only [fileLoop] at ht he
      split_ifs at ht with hlt
      split_ifs at he
      · obtain rfl := List.mem_singleton.mp he
        have hpos := nbytesXfer_pos (n := sz - s.total) (by omega) (hoff r).1 (hoff r).2
        simp only [Span.Within]
        omega
      · simp at he
    · obtain ⟨haddr, -, hle⟩ := hround s r s' hs.2 hs.1 ht hn
      exact ⟨haddr, hle⟩
    · simp only [fileLoop] at ht hn
      split at hn
      · next hp => exact absurd hp hr
      · obtain rfl := Sum.inr.inj hn
        simp only [Outcome.Fits, shortCount, eio]
        split_ifs <;> omega
      · split_ifs at hn
        obtain rfl := Sum.inr.inj hn
        simp only [Outcome.Fits, efault]
        omega
  refine hkeeps.harmless_iff (fun s => sz - s.total) (fun s r s' hs ht _ hn => ?_) (fun s r _ ht hr hsafe => ?_) env
    ⟨rfl, Nat.zero_le _⟩
  · obtain ⟨-, hlt, hle⟩ := hround s r s' hs.2 hs.1 ht hn
    omega
  have hn : (fileLoop sz page clusterOffset faulted).next s r = .inr .panicked := by
    simp only [not_not] at hr
    simp only [fileLoop, hr]
  rw [run_ends_with ht hn] at hsafe
  exact hsafe.2 _ rfl

theorem bread_ne_none (r : Round) : bread r ≠ none ↔ PageBounded r := by
  unfold bread PageBounded
  cases r.block with
  | null | valid | invalid => simp

theorem writePage_ne_none (r : Round) :
    writePage r ≠ none ↔ (offT (alignDown r.offset pageSize) < r.size → PageBounded r) := by
  unfold writePage
  split_ifs with hlt
  · simp only [bread_ne_none, hlt, true_implies]
  · simp [hlt]

theorem bytesToRead_le_sz (size offset : Int) (sz : ℕ) : bytesToRead size offset sz ≤ sz := by
  unfold bytesToRead
  split_ifs <;> omega

end Files

theorem fits_returned (b : Buffer) {n : Int} (h : n ≤ 0) :
    Safe (Span.Within b) (Outcome.Fits b) (([], some (.returned n)) : List Span × Option Outcome) := by
  refine ⟨by simp, ?_⟩
  rintro a ⟨⟩
  exact h.trans (Int.natCast_nonneg _)

theorem replies_harmless_iff_bounded (c : Call) (b : Buffer) (env : Stream' Round) :
    Harmless (Span.Within b) (Outcome.Fits b) (c.run b) env ↔ c.Bounded b env := by
  cases c with
  | readFromFile size offset inkernel =>
    simp only [Call.run, Call.Bounded]
    split_ifs with hend
    · exact iff_of_true (harmless_const (fits_returned b (Int.le_refl 0)) (by simp) env) (.inl hend)
    · rw [or_iff_right hend, readLoop, fileLoop_harmless_iff b env (bytesToRead_le_sz _ _ _) fun r => tmod_pageSize _]
      simp only [bread_ne_none]
  | writeToFile =>
    simp only [Call.run, Call.Bounded, writeLoop]
    rw [fileLoop_harmless_iff b env (Nat.le_refl _) fun r => by rw [offT_tmod]; exact tmod_pageSize _]
    simp only [writePage_ne_none]
  | readFromChar interrupted =>
    simp only [Call.run, Call.Bounded]
    split_ifs with hint
    · exact iff_of_true (harmless_const (fits_returned b (by decide)) (by simp) env) (.inl hint)
    · rw [or_iff_right hint]
      exact charOnce_harmless_iff b env
  | writeToChar interrupted =>
    simp only [Call.run, Call.Bounded]
    split_ifs with hint
    · exact iff_of_true (harmless_const (fits_returned b (by decide)) (by simp) env) (.inl hint)
    · rw [or_iff_right hint]
      exact charLoop_harmless_iff b env
  | readFromBlock | writeToBlock => exact blockLoop_harmless_iff b env

section Excess

def hundred : Buffer := ⟨0x00500000, 100, by decide, by decide⟩

def counting (n : ℕ) : Stream' Round := Stream'.const ⟨BitVec.ofNat 32 n, .invalid, 0, 5000, true⟩

theorem excessive_replies_harm :
    ((Call.readFromFile 5000 0 false).run hundred ((counting 4097).take 1)).2 = some .panicked ∧
    ((Call.readFromChar false).run hundred ((counting 200).take 1)).2 = some (.returned 200) ∧
    ((Call.writeToChar false).run hundred ((counting 101).take 1)).1 = [⟨0x00500000, 100⟩, ⟨0x00500065, 4294967295⟩] ∧
    (Call.readFromBlock.run hundred ((counting 200).take 1)).2 = some (.returned 200) ∧
    ∀ c ∈ [Call.readFromFile 5000 0 false, .readFromChar false, .writeToChar false, .readFromBlock, .writeToBlock],
      ¬ Harmless (Span.Within hundred) (Outcome.Fits hundred) (c.run hundred) (counting 4097) := by
  refine ⟨by decide, by decide, by decide, by decide, fun c hc h => ?_⟩
  have hfirst := h.1 1
  have hmore : ¬ Outcome.Fits hundred (.returned 4097) := by simp [Outcome.Fits, hundred]
  simp only [List.mem_cons, List.not_mem_nil, or_false] at hc
  rcases hc with rfl | rfl | rfl | rfl | rfl
  · exact hfirst.2 .panicked (by decide)
  · exact hmore (hfirst.2 _ (by decide))
  · have hspan : (⟨0x00501001, 4294963299⟩ : Span) ∈
        ((Call.writeToChar false).run hundred ((counting 4097).take 1)).1 := List.mem_cons_of_mem _ List.mem_cons_self
    exact absurd (hfirst.1 _ hspan).2 (by decide)
  · exact hmore (hfirst.2 _ (by decide))
  · exact hmore (hfirst.2 _ (by decide))

end Excess

end CheviotKernel.Replies
