import CheviotKernel.Library.Runs
import CheviotKernel.Library.RingBuffer

namespace CheviotKernel.Pipes

open Function Runs RingBuffer

abbrev Tid := Nat

def pipeBufSz : Nat := 4096

structure Pipe where
  data : Nat → UInt8
  wPos : Nat
  rPos : Nat
  freeSz : Nat
  dataSz : Nat
  readerCnt : Int
  writerCnt : Int
  rPos_lt : rPos < pipeBufSz
  sizes : dataSz + freeSz = pipeBufSz
  wPos_eq : wPos = (rPos + dataSz) % pipeBufSz

inductive Errno
  | eio
  deriving DecidableEq

def sysPipe (page : Nat → UInt8) : Pipe where
  data := page
  wPos := 0
  rPos := 0
  freeSz := pipeBufSz
  dataSz := 0
  readerCnt := 1
  writerCnt := 1
  rPos_lt := by decide
  sizes := by decide
  wPos_eq := by decide

def copy (dst : Nat → UInt8) (off : Nat) (src : List UInt8) : Option Nat → (Nat → UInt8) × Bool
  | none => (blit dst off src, true)
  | some k => (blit dst off (src.take k), false)

inductive Outcome (τ : Type)
  | sleep
  | finish (pipe : Pipe) (ret : Except Errno Nat)
  | moved (pipe : Pipe) (buf : τ) (nbytes : Nat)

def nbytesToCopy (remaining avail : Nat) : Nat :=
  if remaining < avail then remaining else avail

theorem nbytesToCopy_le (remaining avail : Nat) : nbytesToCopy remaining avail ≤ avail := by
  unfold nbytesToCopy
  split <;> omega

theorem nbytesToCopy_le_remaining (remaining avail : Nat) : nbytesToCopy remaining avail ≤ remaining := by
  unfold nbytesToCopy
  split <;> omega

@[simps] def Pipe.taken (p : Pipe) (n : Nat) (h : n ≤ p.dataSz) : Pipe where
  data := p.data
  wPos := p.wPos
  rPos := (p.rPos + n) % pipeBufSz
  freeSz := p.freeSz + n
  dataSz := p.dataSz - n
  readerCnt := p.readerCnt
  writerCnt := p.writerCnt
  rPos_lt := Nat.mod_lt _ (by decide)
  sizes := by
    have := p.sizes
    omega
  wPos_eq := by
    rw [p.wPos_eq, Nat.mod_add_mod, Nat.add_assoc, Nat.add_sub_cancel' h]

@[simps] def Pipe.put (p : Pipe) (data : Nat → UInt8) (n : Nat) (h : n ≤ p.freeSz) : Pipe where
  data := data
  wPos := (p.wPos + n) % pipeBufSz
  rPos := p.rPos
  freeSz := p.freeSz - n
  dataSz := p.dataSz + n
  readerCnt := p.readerCnt
  writerCnt := p.writerCnt
  rPos_lt := p.rPos_lt
  sizes := by
    have := p.sizes
    omega
  wPos_eq := by
    rw [p.wPos_eq, Nat.mod_add_mod, Nat.add_assoc]

@[simps] def Pipe.spoil (p : Pipe) (data : Nat → UInt8) : Pipe :=
  { p with data := data }

def readSecond (p : Pipe) (n : Nat) (h : n ≤ p.dataSz) (dst : Nat → UInt8) (sz2 : Nat)
    (fault : Option Nat) : Outcome (Nat → UInt8) :=
  if sz2 = 0 then .moved (p.taken n h) dst n
  -- The destination is dst again, not dst2, and the source is the start of the ring.
  else match copy dst 0 (slice p.data 0 sz2) fault with
    | (_, false) => .finish p (.error .eio)
    | (dst, true) => .moved (p.taken n h) dst n

-- One round of the outer loop: nbytes_read is 0 whenever a round starts, so the test
-- data_sz == 0 && nbytes_read > 0 never breaks and dst still is the caller's buffer.
def readFromPipe (p : Pipe) (sz : Nat) (dst : Nat → UInt8) (fault : Option Nat × Option Nat) :
    Outcome (Nat → UInt8) :=
  if p.dataSz = 0 ∧ p.writerCnt > 0 then .sleep
  else if p.writerCnt = 0 ∧ p.dataSz = 0 then .finish p (.ok 0)
  else
    let n := nbytesToCopy sz p.dataSz
    if p.rPos + n > pipeBufSz then
      let sz1 := pipeBufSz - p.rPos
      match copy dst 0 (slice p.data p.rPos sz1) fault.1 with
      | (_, false) => .finish p (.error .eio)
      | (dst, true) => readSecond p n (nbytesToCopy_le _ _) dst (n - sz1) fault.2
    else readSecond p n (nbytesToCopy_le _ _) dst n fault.2

def writeSecond (p : Pipe) (n : Nat) (h : n ≤ p.freeSz) (data : Nat → UInt8) (src2 : List UInt8)
    (sz2 : Nat) (fault : Option Nat) : Outcome Unit :=
  if sz2 = 0 then .moved (p.put data n h) () n
  else match copy data 0 (src2.take sz2) fault with
    | (data, false) => .finish (p.spoil data) (.error .eio)
    | (data, true) => .moved (p.put data n h) () n

def writeToPipe (pipeBuf : Nat) (p : Pipe) (src : List UInt8) (fault : Option Nat × Option Nat) :
    Outcome Unit :=
  if p.freeSz < pipeBuf ∧ p.readerCnt > 0 then .sleep
  else if p.readerCnt = 0 then .finish p (.ok 0)
  else
    let n := nbytesToCopy src.length p.freeSz
    if p.wPos + n > pipeBufSz then
      let sz1 := pipeBufSz - p.wPos
      match copy p.data p.wPos (src.take sz1) fault.1 with
      | (data, false) => .finish (p.spoil data) (.error .eio)
      | (data, true) => writeSecond p n (nbytesToCopy_le _ _) data (src.drop sz1) (n - sz1) fault.2
    else writeSecond p n (nbytesToCopy_le _ _) p.data src n fault.2

inductive Call
  | read (sz : Nat) (dst : Nat → UInt8)
  | write (src : List UInt8)

structure State where
  pipe : Pipe
  rendez : List Tid
  calls : Tid → Option Call
  returned : Tid → Option (Except Errno Nat)
  accepted : List UInt8
  handed : List UInt8

inductive Action
  | enter (t : Tid) (call : Call)
  | run (t : Tid) (fault : Option Nat × Option Nat)
  | closeReader
  | closeWriter

section

variable (s : State)

def State.leave (t : Tid) (ret : Except Errno Nat) : State :=
  { s with calls := update s.calls t none, returned := update s.returned t (some ret) }

def State.loop (t : Tid) (call : Call) (n : Nat) : State :=
  if n = 0 then { s with calls := update s.calls t (some call) } else s.leave t (.ok n)

def runRead (t : Tid) (sz : Nat) (dst : Nat → UInt8) (fault : Option Nat × Option Nat) :
    State :=
  match readFromPipe s.pipe sz dst fault with
  | .sleep => { s with rendez := s.rendez ++ [t] }
  | .finish p ret => { s with pipe := p }.leave t ret
  | .moved p dst n =>
    { s with pipe := p, rendez := [], handed := s.handed ++ slice dst 0 n }.loop t (.read sz dst) n

def runWrite (pipeBuf : Nat) (s : State) (t : Tid) (src : List UInt8) (fault : Option Nat × Option Nat) :
    State :=
  match writeToPipe pipeBuf s.pipe src fault with
  | .sleep => { s with rendez := s.rendez ++ [t] }
  | .finish p ret => { s with pipe := p }.leave t ret
  | .moved p _ n =>
    { s with pipe := p, rendez := [], accepted := s.accepted ++ src.take n }.loop t (.write src) n

def vnodePutFifoReader : State :=
  let cnt := s.pipe.readerCnt - 1
  { s with
    pipe := { s.pipe with readerCnt := cnt }
    rendez := if cnt = 0 then [] else s.rendez }

def vnodePutFifoWriter : State :=
  let cnt := s.pipe.writerCnt - 1
  { s with
    pipe := { s.pipe with writerCnt := cnt }
    rendez := if cnt = 0 then [] else s.rendez }

def step (pipeBuf : Nat) (s : State) : Action → Option State
  | .enter t call =>
    match s.calls t with
    | some _ => none
    | none => some { s with calls := update s.calls t (some call) }
  | .run t fault =>
    if t ∈ s.rendez then none
    else match s.calls t with
      | none => none
      | some (.read sz dst) => some (runRead s t sz dst fault)
      | some (.write src) => some (runWrite pipeBuf s t src fault)
  | .closeReader => some (vnodePutFifoReader s)
  | .closeWriter => some (vnodePutFifoWriter s)

def Created : Prop :=
  ∃ page, s = ⟨sysPipe page, [], fun _ => none, fun _ => none, [], []⟩

def NoFault (_ : State) : Action → Prop
  | .run _ fault => fault = (none, none)
  | _ => True

instance : DecidablePred (NoFault s) := fun a => by
  unfold NoFault
  split <;> infer_instance

def held (p : Pipe) : List UInt8 :=
  window pipeBufSz p.data p.rPos p.dataSz

def Fifo : Prop :=
  s.handed <+: s.accepted ∧ s.accepted.drop s.handed.length = held s.pipe
  deriving Decidable

theorem held_put_store (p : Pipe) {n : Nat} {src : List UInt8} (hlen : src.length = n) (h : n ≤ p.freeSz) :
    held (p.put (store pipeBufSz p.data p.wPos src) n h) = held p ++ src := by
  subst hlen
  have hfit : p.dataSz + src.length ≤ pipeBufSz := by
    have := p.sizes
    omega
  have hpush := window_push p.data p.rPos_lt hfit
  rwa [← p.wPos_eq] at hpush

theorem slice_readSecond {p p' : Pipe} {n m : Nat} {h : n ≤ p.dataSz} {dst dst' : Nat → UInt8}
    (hm : readSecond p n h dst n none = .moved p' dst' m) :
    m = n ∧ p' = p.taken n h ∧ slice dst' 0 n = slice p.data 0 n := by
  unfold readSecond at hm
  split_ifs at hm with hz
  · injection hm with hp hd hn
    subst hz
    exact ⟨hn.symm, hp.symm, rfl⟩
  · injection hm with hp hd hn
    exact ⟨hn.symm, hp.symm, hd ▸ slice_blit_slice dst p.data 0 n⟩

theorem readFromPipe_moved {p p' : Pipe} {sz m : Nat} {dst dst' : Nat → UInt8}
    (hal : nbytesToCopy sz p.dataSz = 0 ∨ p.rPos = 0)
    (hm : readFromPipe p sz dst (none, none) = .moved p' dst' m) :
    ∃ h : m ≤ p.dataSz, p' = p.taken m h ∧ slice dst' 0 m = window pipeBufSz p.data p.rPos m := by
  have hle := nbytesToCopy_le sz p.dataSz
  have hsz := p.sizes
  have hr := p.rPos_lt
  have hfit : ¬ p.rPos + nbytesToCopy sz p.dataSz > pipeBufSz := by omega
  simp only [readFromPipe] at hm
  split_ifs at hm
  obtain ⟨rfl, rfl, hs⟩ := slice_readSecond hm
  refine ⟨hle, rfl, hs.trans ?_⟩
  rw [window_eq_slice _ (by omega)]
  rcases hal with h0 | h0
  · rw [h0]
    rfl
  · rw [h0]

theorem readFromPipe_finish {p p' : Pipe} {sz : Nat} {dst : Nat → UInt8}
    {fault : Option Nat × Option Nat} {ret : Except Errno Nat}
    (hf : readFromPipe p sz dst fault = .finish p' ret) : p' = p := by
  have hsecond {n : Nat} {h : n ≤ p.dataSz} {dst : Nat → UInt8} {sz2 : Nat}
      (hs : readSecond p n h dst sz2 fault.2 = .finish p' ret) : p' = p := by
    unfold readSecond at hs
    split at hs
    · cases hs
    split at hs
    · injection hs with hp
      exact hp.symm
    · cases hs
  simp only [readFromPipe] at hf
  split_ifs at hf
  · injection hf with hp
    exact hp.symm
  · split at hf
    · injection hf with hp
      exact hp.symm
    · exact hsecond hf
  · exact hsecond hf

theorem writeSecond_none (p : Pipe) {n : Nat} (h : n ≤ p.freeSz) (data : Nat → UInt8) (src2 : List UInt8) (sz2 : Nat) :
    writeSecond p n h data src2 sz2 none = .moved (p.put (blit data 0 (src2.take sz2)) n h) () n := by
  unfold writeSecond
  split_ifs with hz
  · rw [hz, List.take_zero, blit_nil]
  · rfl

theorem writeToPipe_moved {pipeBuf : Nat} {p p' : Pipe} {src : List UInt8} {m : Nat} {u : Unit}
    (hal : nbytesToCopy src.length p.freeSz = 0 ∨ p.wPos = 0 ∨
      pipeBufSz < p.wPos + nbytesToCopy src.length p.freeSz)
    (hm : writeToPipe pipeBuf p src (none, none) = .moved p' u m) :
    ∃ h : m ≤ p.freeSz, m ≤ src.length ∧
      p' = p.put (store pipeBufSz p.data p.wPos (src.take m)) m h := by
  have hle := nbytesToCopy_le src.length p.freeSz
  have hrem := nbytesToCopy_le_remaining src.length p.freeSz
  have hsz := p.sizes
  have hw : p.wPos < pipeBufSz := by
    rw [p.wPos_eq]
    exact Nat.mod_lt _ (by decide)
  simp only [writeToPipe, writeSecond_none] at hm
  split_ifs at hm with hsleep hend hwrap
  · injection hm with hp _ hn
    subst hp hn
    refine ⟨hle, hrem, ?_⟩
    have hlen : (src.take (nbytesToCopy src.length p.freeSz)).length ≤ pipeBufSz := by
      simp
      omega
    rw [← blit_blit_eq_store p.data hw hlen, List.take_take, List.drop_take, Nat.min_eq_left (by omega)]
  · injection hm with hp _ hn
    subst hp hn
    refine ⟨hle, hrem, ?_⟩
    have hdata : blit p.data 0 (src.take (nbytesToCopy src.length p.freeSz)) =
        store pipeBufSz p.data p.wPos (src.take (nbytesToCopy src.length p.freeSz)) := by
      rcases hal with h0 | h0 | h0
      · rw [h0, List.take_zero, blit_nil, store_nil]
      · rw [h0, blit_eq_store]
        simp
        omega
      · exact absurd h0 hwrap
    rw [hdata]

theorem writeToPipe_finish {pipeBuf : Nat} {p p' : Pipe} {src : List UInt8} {ret : Except Errno Nat}
    (hf : writeToPipe pipeBuf p src (none, none) = .finish p' ret) : p' = p := by
  simp only [writeToPipe, copy, writeSecond_none] at hf
  split_ifs at hf
  injection hf with hp
  exact hp.symm

def CallAligned (pipeBuf : Nat) (p : Pipe) : Call → Prop
  | .read sz _ => nbytesToCopy sz p.dataSz = 0 ∨ p.rPos = 0
  | .write src => (p.freeSz < pipeBuf ∧ p.readerCnt > 0) ∨ p.readerCnt = 0 ∨
      nbytesToCopy src.length p.freeSz = 0 ∨ p.wPos = 0 ∨
      pipeBufSz < p.wPos + nbytesToCopy src.length p.freeSz

instance (pipeBuf : Nat) (p : Pipe) : DecidablePred (CallAligned pipeBuf p) := fun a => by
  unfold CallAligned
  split <;> infer_instance

def Aligned (pipeBuf : Nat) (s : State) : Action → Prop
  | .run t fault => fault = (none, none) ∧ ∀ call ∈ s.calls t, CallAligned pipeBuf s.pipe call
  | _ => True

instance (pipeBuf : Nat) (s : State) : DecidablePred (Aligned pipeBuf s) := fun a => by
  unfold Aligned
  split <;> infer_instance

def Conserved : Prop :=
  s.accepted = s.handed ++ held s.pipe

end

theorem Conserved.fifo {s : State} (h : Conserved s) : Fifo s := by
  rw [Fifo, h]
  exact ⟨List.prefix_append _ _, List.drop_left⟩

theorem conserved_loop {s : State} {t : Tid} {call : Call} {n : Nat} : Conserved (s.loop t call n) ↔ Conserved s := by
  unfold State.loop
  split_ifs <;> exact Iff.rfl

theorem conserved_runRead {s : State} {t : Tid} {sz : Nat} {dst : Nat → UInt8} (h : Conserved s)
    (hal : nbytesToCopy sz s.pipe.dataSz = 0 ∨ s.pipe.rPos = 0) :
    Conserved (runRead s t sz dst (none, none)) := by
  unfold runRead
  split
  · exact h
  · rename_i p ret hf
    rw [readFromPipe_finish hf]
    exact h
  · rename_i p dst' n hm
    obtain ⟨hn, rfl, hs⟩ := readFromPipe_moved hal hm
    rw [conserved_loop]
    unfold Conserved at h ⊢
    rw [h, held, window_pop s.pipe.data hn, hs, List.append_assoc]
    rfl

theorem conserved_runWrite {pipeBuf : Nat} {s : State} {t : Tid} {src : List UInt8} (h : Conserved s)
    (hal : CallAligned pipeBuf s.pipe (.write src)) :
    Conserved (runWrite pipeBuf s t src (none, none)) := by
  unfold runWrite
  split
  · exact h
  · rename_i p ret hf
    rw [writeToPipe_finish hf]
    exact h
  · rename_i p u n hm
    rcases hal with hsleep | hend | hal
    · simp [writeToPipe, hsleep] at hm
    · simp [writeToPipe, hend] at hm
    · obtain ⟨hn, hlen, rfl⟩ := writeToPipe_moved hal hm
      rw [conserved_loop]
      unfold Conserved at h ⊢
      rw [h, held_put_store s.pipe (List.length_take_of_le hlen) hn, List.append_assoc]

theorem conserved_step {pipeBuf : Nat} {s t : State} {a : Action} (h : Conserved s)
    (hal : Aligned pipeBuf s a) (hs : step pipeBuf s a = some t) : Conserved t := by
  cases a with
  | enter tid call =>
    simp only [step] at hs
    split at hs
    · cases hs
    · cases hs
      exact h
  | run tid fault =>
    obtain ⟨rfl, hcall⟩ := hal
    simp only [step] at hs
    split_ifs at hs
    split at hs
    · cases hs
    · rename_i sz dst hc
      cases hs
      exact conserved_runRead h (hcall _ hc)
    · rename_i src hc
      cases hs
      exact conserved_runWrite h (hcall _ hc)
  | closeReader | closeWriter => cases hs; exact h

theorem conserved_created {s : State} (h : Created s) : Conserved s := by
  obtain ⟨page, rfl⟩ := h
  rfl

theorem fifo_of_aligned {pipeBuf : Nat} {s : State} (h : Reach (step pipeBuf) (Aligned pipeBuf) Created s) : Fifo s :=
  (h.invariant (fun _ => conserved_created) fun _ _ _ => conserved_step).fifo

def zeroPage : State := ⟨sysPipe fun _ => 0, [], fun _ => none, fun _ => none, [], []⟩

theorem fifo_of_aligned_drained : ∃ s, Reach (step 512) (Aligned 512) Created s ∧
    s.handed = [1, 2] ∧ s.accepted = [1, 2, 3] ∧ Fifo s := by
  have hm : Meets (step 512) (Aligned 512) zeroPage
      [.enter 1 (.write [1, 2, 3]), .run 1 (none, none), .enter 2 (.read 2 fun _ => 0),
        .run 2 (none, none)] := by decide
  have h := (Reach.start ⟨_, rfl⟩ : Reach _ _ Created zeroPage).exec hm rfl
  exact ⟨_, h, rfl, rfl, fifo_of_aligned h⟩

theorem second_read_repeats_first_byte : ∃ s, Reach (step 512) NoFault Created s ∧
    s.accepted = [1, 2] ∧ s.handed = [1, 1] ∧ ¬ Fifo s := by
  have hm : Meets (step 512) NoFault zeroPage
      [.enter 1 (.write [1, 2]), .run 1 (none, none), .enter 2 (.read 1 fun _ => 0),
        .run 2 (none, none), .enter 2 (.read 1 fun _ => 0), .run 2 (none, none)] := by decide
  have h := (Reach.start ⟨_, rfl⟩ : Reach _ _ Created zeroPage).exec hm rfl
  exact ⟨_, h, rfl, rfl, by decide⟩

end CheviotKernel.Pipes
