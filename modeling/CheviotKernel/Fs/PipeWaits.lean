import CheviotKernel.Fs.Pipe
import Mathlib.Data.Stream.Init

namespace CheviotKernel.Pipes

open Function Runs RingBuffer

abbrev Faults := Option Nat × Option Nat

def Call.Waits (pipeBuf : Nat) (p : Pipe) : Call → Prop
  | .read _ _ => p.dataSz = 0 ∧ p.writerCnt > 0
  | .write _ => p.freeSz < pipeBuf ∧ p.readerCnt > 0

def Call.reads : Call → Bool
  | .read _ _ => true
  | .write _ => false

def Sleeping (s : State) (t : Tid) (call : Call) : Prop := t ∈ s.rendez ∧ s.calls t = some call

structure Ring (p : Pipe) : Prop where
  positions : p.rPos < pipeBufSz ∧ p.wPos < pipeBufSz
  sizes : p.dataSz + p.freeSz = pipeBufSz
  next : p.wPos = (p.rPos + p.dataSz) % pipeBufSz

def Waiting (pipeBuf : Nat) (s : State) : Prop :=
  ∀ t ∈ s.rendez, ∃ call, s.calls t = some call ∧ call.Waits pipeBuf s.pipe

-- A write that does not wrap leaves its bytes at the start of the ring and not at w_pos.
structure Stored (p p' : Pipe) (src : List UInt8) : Prop where
  grown : p'.dataSz = p.dataSz + src.length ∧ p'.rPos = p.rPos
  wrapped : pipeBufSz < p.wPos + src.length → window pipeBufSz p'.data p.wPos src.length = src
  flat : p.wPos + src.length ≤ pipeBufSz → slice p'.data 0 src.length = src

structure Orderly (pipeBuf : Nat) (s : State) : Prop where
  ring : Ring s.pipe
  waits : Waiting pipeBuf s
  apart : ∀ t u c d, Sleeping s t c → Sleeping s u d → c.reads = d.reads
  whole : ∀ t src u, s.calls t = some (.write src) → src ≠ [] → src.length ≤ pipeBuf → 0 < s.pipe.readerCnt →
    step pipeBuf s (.run t (none, none)) = some u → t ∈ u.rendez ∨
      u.accepted = s.accepted ++ src ∧ u.returned t = some (.ok src.length) ∧ Stored s.pipe u.pipe src

section

variable {pipeBuf sz m n sz2 : Nat} {s u : State} {t v : Tid} {p p' : Pipe} {dst dst' data : Nat → UInt8}
  {src src2 : List UInt8} {fault : Faults} {call c d : Call} {o : Option Nat}

theorem ring (p : Pipe) : Ring p :=
  ⟨⟨p.rPos_lt, p.wPos_eq ▸ Nat.mod_lt _ (by decide)⟩, p.sizes, p.wPos_eq⟩

theorem readFromPipe_sleep (h : readFromPipe p sz dst fault = .sleep) : (Call.read sz dst).Waits pipeBuf p := by
  by_contra hw
  rw [Call.Waits] at hw
  simp only [readFromPipe] at h
  split_ifs at h
  · split at h
    · cases h
    · unfold readSecond at h
      split_ifs at h
      split at h <;> cases h
  · unfold readSecond at h
    split_ifs at h
    split at h <;> cases h

theorem writeToPipe_sleep (h : writeToPipe pipeBuf p src (none, none) = .sleep) : (Call.write src).Waits pipeBuf p := by
  by_contra hw
  rw [Call.Waits] at hw
  simp only [writeToPipe, copy, writeSecond_none] at h
  split_ifs at h

theorem waiting_nobody (h : s.rendez = []) : Waiting pipeBuf s := by
  intro t ht
  rw [h] at ht
  cases ht

theorem rendez_loop (s : State) (t : Tid) (call : Call) (n : Nat) : (s.loop t call n).rendez = s.rendez := by
  unfold State.loop
  split_ifs <;> rfl

theorem writeToPipe_whole (hw : ¬(p.freeSz < pipeBuf ∧ p.readerCnt > 0)) (hr : p.readerCnt ≠ 0)
    (hfit : src.length ≤ p.freeSz) :
    ∃ p', writeToPipe pipeBuf p src (none, none) = .moved p' () src.length ∧ Stored p p' src := by
  have hn : nbytesToCopy src.length p.freeSz = src.length := by
    unfold nbytesToCopy
    split_ifs <;> omega
  have hsz := p.sizes
  have hpos := (ring p).positions.2
  simp only [writeToPipe, if_neg hw, if_neg hr, hn, copy, writeSecond_none]
  split_ifs with hwrap
  · refine ⟨_, rfl, ⟨rfl, rfl⟩, fun _ => ?_, fun hflat => absurd hwrap (by omega)⟩
    have hdata : (blit (blit p.data p.wPos (src.take (pipeBufSz - p.wPos))) 0 ((src.drop (pipeBufSz - p.wPos)).take
        (src.length - (pipeBufSz - p.wPos)))) = store pipeBufSz p.data p.wPos src := by
      rw [← List.drop_take, List.take_length, blit_blit_eq_store p.data hpos (by omega)]
    exact (congrArg (window pipeBufSz · p.wPos src.length) hdata).trans (window_store_same p.data hpos (by omega))
  · refine ⟨_, rfl, ⟨rfl, rfl⟩, fun h => absurd h hwrap, fun _ => ?_⟩
    rw [List.take_length]
    exact slice_blit p.data 0 src

theorem runWrite_whole (hne : src ≠ []) (hlen : src.length ≤ pipeBuf) (hr : 0 < s.pipe.readerCnt) :
    t ∈ (runWrite pipeBuf s t src (none, none)).rendez ∨
      (runWrite pipeBuf s t src (none, none)).accepted = s.accepted ++ src ∧
      (runWrite pipeBuf s t src (none, none)).returned t = some (.ok src.length) ∧
      Stored s.pipe (runWrite pipeBuf s t src (none, none)).pipe src := by
  by_cases hw : s.pipe.freeSz < pipeBuf ∧ s.pipe.readerCnt > 0
  · simp [runWrite, writeToPipe, hw]
  obtain ⟨p', hmoved, hstored⟩ : ∃ p', writeToPipe pipeBuf s.pipe src (none, none) = .moved p' () src.length ∧
      Stored s.pipe p' src := writeToPipe_whole hw (by omega) (by omega)
  have hpos : src.length ≠ 0 := by simpa using hne
  simp only [runWrite, hmoved, State.loop, if_neg hpos, List.take_length]
  exact .inr ⟨rfl, update_self .., hstored⟩

namespace Waiting

variable (h : Waiting pipeBuf s)
include h

theorem sleep (hc : s.calls t = some call)
    (hw : call.Waits pipeBuf s.pipe) : Waiting pipeBuf { s with rendez := s.rendez ++ [t] } := by
  intro u hu
  rcases List.mem_append.mp hu with hu | hu
  · exact h u hu
  · obtain rfl := List.mem_singleton.mp hu
    exact ⟨call, hc, hw⟩

theorem setCall {o : Option Call} (ht : t ∉ s.rendez) :
    Waiting pipeBuf { s with calls := update s.calls t o } := by
  intro u hu
  have hne : u ≠ t := fun e => ht (e ▸ hu)
  simpa [hne] using h u hu

theorem runRead (hc : s.calls t = some (.read sz dst)) (ht : t ∉ s.rendez) :
    Waiting pipeBuf (runRead s t sz dst fault) := by
  unfold Pipes.runRead
  split
  · rename_i hs
    exact h.sleep hc (readFromPipe_sleep hs)
  · rename_i p ret hf
    rw [readFromPipe_finish hf]
    exact h.setCall ht
  · exact waiting_nobody (rendez_loop ..)

theorem runWrite (hc : s.calls t = some (.write src)) (ht : t ∉ s.rendez) :
    Waiting pipeBuf (runWrite pipeBuf s t src (none, none)) := by
  unfold Pipes.runWrite
  split
  · rename_i hs
    exact h.sleep hc (writeToPipe_sleep hs)
  · rename_i p ret hf
    rw [writeToPipe_finish hf]
    exact h.setCall ht
  · exact waiting_nobody (rendez_loop ..)

theorem close {cnt : Int} (hp : p.dataSz = s.pipe.dataSz ∧ p.freeSz = s.pipe.freeSz)
    (hcnt : p.readerCnt = s.pipe.readerCnt ∧ p.writerCnt = cnt ∧ s.pipe.writerCnt = cnt + 1 ∨
      p.writerCnt = s.pipe.writerCnt ∧ p.readerCnt = cnt ∧ s.pipe.readerCnt = cnt + 1) :
    Waiting pipeBuf { s with pipe := p, rendez := if cnt = 0 then [] else s.rendez } := by
  by_cases h0 : cnt = 0
  · exact waiting_nobody (if_pos h0)
  intro t ht
  rw [if_neg h0] at ht
  obtain ⟨call, hc, hw⟩ := h t ht
  refine ⟨call, hc, ?_⟩
  cases call <;> simp only [Call.Waits] at hw ⊢ <;> omega

theorem step {a : Action} (hf : NoFault s a) (hs : step pipeBuf s a = some u) : Waiting pipeBuf u := by
  cases a with
  | enter t call =>
    simp only [Pipes.step] at hs
    split at hs
    · cases hs
    rename_i hnone
    cases hs
    refine h.setCall fun ht => ?_
    obtain ⟨call, hc, -⟩ := h t ht
    rw [hnone] at hc
    cases hc
  | run t fault =>
    obtain rfl : fault = (none, none) := hf
    simp only [Pipes.step] at hs
    split_ifs at hs with ht
    split at hs
    · cases hs
    · rename_i hc
      cases hs
      exact h.runRead hc ht
    · rename_i hc
      cases hs
      exact h.runWrite hc ht
  | closeReader =>
    cases hs
    exact h.close ⟨rfl, rfl⟩ (.inr ⟨rfl, rfl, by omega⟩)
  | closeWriter =>
    cases hs
    exact h.close ⟨rfl, rfl⟩ (.inl ⟨rfl, rfl, by omega⟩)

theorem apart (hbuf : pipeBuf ≤ pipeBufSz) (ht : Sleeping s t c) (hv : Sleeping s v d) : c.reads = d.reads := by
  obtain ⟨c', hc, hcw⟩ := h t ht.1
  obtain ⟨d', hd, hdw⟩ := h v hv.1
  cases hc.symm.trans ht.2
  cases hd.symm.trans hv.2
  have := s.pipe.sizes
  cases c <;> cases d <;> simp only [Call.reads, Call.Waits] at hcw hdw ⊢ <;> omega

end Waiting

theorem pipe_waits_orderly {pipeBuf : Nat} (hbuf : pipeBuf ≤ pipeBufSz) {s : State}
    (h : Reach (step pipeBuf) NoFault Created s) : Orderly pipeBuf s := by
  have hw : Waiting pipeBuf s := by
    refine h.invariant (fun s hs => ?_) fun _ _ _ hi hf => hi.step hf
    obtain ⟨page, rfl⟩ := hs
    exact waiting_nobody rfl
  refine ⟨ring s.pipe, hw, fun t u c d ht hu => hw.apart hbuf ht hu, fun t src u hc hne hlen hr hs => ?_⟩
  simp only [step, hc] at hs
  split_ifs at hs
  cases hs
  exact runWrite_whole hne hlen hr

theorem reader_asleep_orderly : ∃ s, Reach (step 512) NoFault Created s ∧
    Sleeping s 1 (.read 2 fun _ => 0) ∧ Orderly 512 s := by
  have hm : Meets (step 512) NoFault zeroPage [.enter 1 (.read 2 fun _ => 0), .run 1 (none, none)] := by decide
  have h := (Reach.start ⟨_, rfl⟩ : Reach _ _ Created zeroPage).exec hm rfl
  exact ⟨_, h, ⟨by decide, rfl⟩, pipe_waits_orderly (by decide) h⟩

def round (pipeBuf : Nat) : Pipe × Call → Faults → Option (Pipe × Call)
  | (p, .read sz dst), fault =>
    match readFromPipe p sz dst fault with
    | .moved p dst 0 => some (p, .read sz dst)
    | _ => none
  | (p, .write src), fault =>
    match writeToPipe pipeBuf p src fault with
    | .moved p _ 0 => some (p, .write src)
    | _ => none

def Call.Ends (pipeBuf : Nat) (p : Pipe) (call : Call) (faults : Stream' Faults) : Prop :=
  ∃ n, (faults.take n).foldlM (round pipeBuf) (p, call) = none

def Call.Stuck (pipeBuf : Nat) (p : Pipe) : Call → Prop
  | .read sz _ => p.dataSz ≠ 0 ∧ sz = 0 ∨ p.dataSz = 0 ∧ p.writerCnt < 0
  | .write src => ¬ (p.freeSz < pipeBuf ∧ p.readerCnt > 0) ∧ p.readerCnt ≠ 0 ∧ (src = [] ∨ p.freeSz = 0)

theorem nbytesToCopy_eq_zero : nbytesToCopy m n = 0 ↔ m = 0 ∨ n = 0 := by
  unfold nbytesToCopy
  split_ifs <;> omega

theorem taken_zero (p : Pipe) (h : 0 ≤ p.dataSz) : p.taken 0 h = p := by
  simp [Pipe.taken, Nat.mod_eq_of_lt p.rPos_lt]

theorem put_zero (p : Pipe) (h : 0 ≤ p.freeSz) : p.put p.data 0 h = p := by
  have hw : p.wPos % pipeBufSz = p.wPos := Nat.mod_eq_of_lt (ring p).positions.2
  simp [Pipe.put, hw]

theorem round_stuck (h : call.Stuck pipeBuf p) : round pipeBuf (p, call) fault = some (p, call) := by
  have hr := p.rPos_lt
  have hw := (ring p).positions.2
  cases call with
  | read sz dst =>
    have hn : nbytesToCopy sz p.dataSz = 0 := nbytesToCopy_eq_zero.mpr (by rcases h with h | h <;> simp [h])
    have hs : ¬ (p.dataSz = 0 ∧ p.writerCnt > 0) ∧ ¬ (p.writerCnt = 0 ∧ p.dataSz = 0) := by
      simp only [Call.Stuck] at h
      omega
    simp only [round, readFromPipe, if_neg hs.1, if_neg hs.2, hn, readSecond, Nat.add_zero, if_neg (Nat.not_lt_of_lt hr),
      if_true, taken_zero]
  | write src =>
    obtain ⟨hs, he, hz⟩ := h
    have hn : nbytesToCopy src.length p.freeSz = 0 := nbytesToCopy_eq_zero.mpr (by simpa using hz)
    simp only [round, writeToPipe, if_neg hs, if_neg he, hn, writeSecond, Nat.add_zero, if_neg (Nat.not_lt_of_lt hw),
      if_true, put_zero]

theorem readSecond_moved {hn : n ≤ p.dataSz} (h : readSecond p n hn dst sz2 o = .moved p' dst' m) : m = n := by
  unfold readSecond at h
  split_ifs at h
  · cases h
    rfl
  · split at h <;> cases h
    rfl

theorem writeSecond_moved {hn : n ≤ p.freeSz}
    {u : Unit} (h : writeSecond p n hn data src2 sz2 o = .moved p' u m) : m = n := by
  unfold writeSecond at h
  split_ifs at h
  · cases h
    rfl
  · split at h <;> cases h
    rfl

theorem round_ends (h : ¬ call.Stuck pipeBuf p) : round pipeBuf (p, call) fault = none := by
  cases call with
  | read sz dst =>
    simp only [round]
    split
    · rename_i hm
      simp only [readFromPipe] at hm
      split_ifs at hm with hsleep hend hwrap
      · split at hm
        · cases hm
        · have := nbytesToCopy_eq_zero.mp (readSecond_moved hm).symm
          simp only [Call.Stuck] at h
          omega
      · have := nbytesToCopy_eq_zero.mp (readSecond_moved hm).symm
        simp only [Call.Stuck] at h
        omega
    · rfl
  | write src =>
    simp only [round]
    split
    · rename_i hm
      exfalso
      simp only [writeToPipe] at hm
      split_ifs at hm with hsleep hend hwrap
      · split at hm
        · cases hm
        · have hz := nbytesToCopy_eq_zero.mp (writeSecond_moved hm).symm
          exact h ⟨hsleep, hend, by simpa using hz⟩
      · have hz := nbytesToCopy_eq_zero.mp (writeSecond_moved hm).symm
        exact h ⟨hsleep, hend, by simpa using hz⟩
    · rfl

theorem stuck_rounds (h : call.Stuck pipeBuf p) (faults : List Faults) :
    faults.foldlM (round pipeBuf) (p, call) = some (p, call) := by
  induction faults with
  | nil => rfl
  | cons fault faults ih => rw [List.foldlM_cons, round_stuck h, Option.bind_eq_bind, Option.bind_some, ih]

end

theorem call_ends_iff_not_stuck (pipeBuf : Nat) (p : Pipe) (call : Call) (faults : Stream' Faults) :
    call.Ends pipeBuf p faults ↔ ¬ call.Stuck pipeBuf p := by
  constructor
  · rintro ⟨n, hn⟩ hstuck
    rw [stuck_rounds hstuck] at hn
    cases hn
  · intro h
    refine ⟨1, ?_⟩
    rw [Stream'.take_succ, List.foldlM_cons, round_ends h]
    rfl

def oneByte : Pipe := (sysPipe fun _ => 0).put (fun _ => 0) 1 (by decide)

theorem empty_read_never_ends : ¬ (Call.read 0 fun _ => 0).Ends 512 oneByte fun _ => (none, none) := by
  have hstuck : (Call.read 0 fun _ => 0).Stuck 512 oneByte := .inl ⟨by decide, rfl⟩
  rintro ⟨n, hn⟩
  rw [stuck_rounds hstuck] at hn
  cases hn

end CheviotKernel.Pipes
