import CheviotKernel.Fs.FileData
import CheviotKernel.Library.Runs

namespace CheviotKernel.FileData.Writers

open Function Spans Vfs Runs

abbrev Tid := ℕ

structure CachePage where
  data : ℤ → Byte
  valid : Bool
  busy : Bool

structure Job where
  offset : ℤ
  src : List Byte
  nbytesTotal : ℕ

def Job.clusterBase (j : Job) : ℤ := offT (alignDown j.offset pageSize)

def Job.clusterOffset (j : Job) : ℤ := offT (j.offset.tmod pageSize)

def Job.nbytes (j : Job) : ℕ := nbytesXfer j.src.length j.clusterOffset

def Job.chunk (j : Job) : List Byte := j.src.take j.nbytes

def Job.next (j : Job) : Job := ⟨j.offset + j.nbytes, j.src.drop j.nbytes, j.nbytesTotal + j.nbytes⟩

/-- The rounds of `writeLoop` are those of a `Job`. -/
theorem writeLoop_job {j : Job} (hne : j.src ≠ []) (evicted : ℕ → ℤ → Bool) (fuel : ℕ) (f : File) :
    writeLoop evicted (fuel + 1) f j.offset j.src j.nbytesTotal =
      let f := f.evict (evicted fuel)
      match if j.clusterBase < f.size then bread f j.clusterBase else breadZero f j.clusterBase with
      | (f, none) => (f, shortCount j.nbytesTotal, [])
      | (f, some d) =>
        let d := overlay d j.clusterOffset j.chunk
        let size := if j.next.offset > f.size then j.next.offset else f.size
        writeLoop evicted fuel (bwrite { f.setPage j.clusterBase d with size := size } j.clusterBase d)
          j.next.offset j.next.src j.next.nbytesTotal := by
  rw [writeLoop, if_pos hne]
  rfl

inductive Phase
  | idle
  | loop (j : Job)
  | getblk (zero : Bool) (j : Job)
  | reading (reply : Option (List Byte)) (j : Job)
  | copying (j : Job)
  | writing (base : ℤ) (sent : List Byte) (stored : Bool) (j : Job)
  | returned (count : ℤ)

structure State where
  size : ℤ
  page : ℤ → Option CachePage
  server : Server
  writer : Tid → Phase

section

variable (x : State)

def State.setPhase (t : Tid) (phase : Phase) : State := { x with writer := update x.writer t phase }

def State.setPage (base : ℤ) (page : Option CachePage) : State :=
  { x with page := update x.page base page }

def acquire (t : Tid) (zero : Bool) (j : Job) (page : CachePage) : State :=
  if zero then (x.setPage j.clusterBase (some ⟨zeroPage, true, true⟩)).setPhase t (.copying j)
  else if page.valid then (x.setPage j.clusterBase (some page)).setPhase t (.copying j)
  else (x.setPage j.clusterBase (some page)).setPhase t (.reading none j)

-- One turn of getblk's loop; a turn that ends in TaskSleep changes nothing.
def attempt (t : Tid) (zero : Bool) (j : Job) (available : Bool) : State :=
  match x.page j.clusterBase with
  | some page =>
    if page.busy then x
    else acquire x t zero j ⟨if page.valid then page.data else zeroPage, page.valid, true⟩
  | none => if available then acquire x t zero j ⟨zeroPage, false, true⟩ else x

def readReply (t : Tid) (j : Job) (xfered : List Byte) : State :=
  if xfered.length = 0 then (x.setPage j.clusterBase none).setPhase t (.returned (shortCount j.nbytesTotal))
  else (x.setPage j.clusterBase (some ⟨overlay zeroPage 0 xfered, true, true⟩)).setPhase t (.copying j)

def copyin (t : Tid) (j : Job) (page : CachePage) : State :=
  let d := overlay page.data j.clusterOffset j.chunk
  let size := if j.next.offset > x.size then j.next.offset else x.size
  ({ x with size := size }.setPage j.clusterBase (some ⟨d, true, true⟩)).setPhase t
    (.writing j.clusterBase (slice d 0 (nbytesToWrite size j.clusterBase)) false j.next)

def writeReply (t : Tid) (base : ℤ) (j : Job) (ok : Bool) : State :=
  if ok then
    match x.page base with
    | some page => (x.setPage base (some { page with busy := false })).setPhase t (.loop j)
    | none => x.setPhase t (.loop j)
  else (x.setPage base none).setPhase t (.loop j)

inductive Action
  | call (t : Tid)
  | round (t : Tid)
  | attempt (t : Tid) (available : Bool)
  | fetch (t : Tid)
  | readReply (t : Tid) (ok : Bool)
  | copyin (t : Tid) (ok : Bool)
  | store (t : Tid)
  | writeReply (t : Tid) (ok : Bool)
  | evict (base : ℤ)

def step (calls : Tid → ℤ × List Byte) (x : State) : Action → Option State
  | .call t => match x.writer t with
      | .idle => some (x.setPhase t (.loop ⟨(calls t).1, (calls t).2, 0⟩))
      | _ => none
  | .round t => match x.writer t with
      | .loop j =>
        if j.src = [] then some (x.setPhase t (.returned j.nbytesTotal))
        else some (x.setPhase t (.getblk (decide (¬ j.clusterBase < x.size)) j))
      | _ => none
  | .attempt t available => match x.writer t with
      | .getblk zero j => some (attempt x t zero j available)
      | _ => none
  | .fetch t => match x.writer t with
      | .reading none j => some (x.setPhase t (.reading (some (x.server.read j.clusterBase pageSize.toNat)) j))
      | _ => none
  | .readReply t ok => match x.writer t with
      | .reading reply j => if ok then reply.map (readReply x t j) else some (readReply x t j [])
      | _ => none
  | .copyin t ok => match x.writer t with
      | .copying j =>
        if ok then (x.page j.clusterBase).map (copyin x t j) else some (x.setPhase t (.returned (-efault)))
      | _ => none
  | .store t => match x.writer t with
      | .writing base sent false j =>
        some ({ x with server := x.server.write base sent }.setPhase t (.writing base sent true j))
      | _ => none
  | .writeReply t ok => match x.writer t with
      | .writing base _ stored j => if ok && !stored then none else some (writeReply x t base j ok)
      | _ => none
  | .evict base => match x.page base with
      | some page => if page.busy then none else some (x.setPage base none)
      | none => none

def Phase.cluster : Phase → Option ℤ
  | .getblk _ j => some j.clusterBase
  | .reading _ j => some j.clusterBase
  | .copying j => some j.clusterBase
  | .writing base _ _ _ => some base
  | _ => none

def Orderly : Action → Prop
  | .round t => ∀ j, x.writer t = .loop j → j.src ≠ [] → 0 ≤ j.offset ∧ j.offset < 2 ^ 31 ∧
      ∀ t', t' ≠ t → (x.writer t').cluster = some j.clusterBase →
        j.clusterBase < x.size ∧ ∀ j', x.writer t' ≠ .getblk true j'
  | .writeReply _ ok => ok = true
  | _ => True

def State.file : File := ⟨x.size, fun b => (x.page b).map CachePage.data, x.server⟩

end

structure Start (a : Contents) (x : State) : Prop where
  shows : Shows x.file a
  page : ∀ b page, x.page b = some page → page.valid = true ∧ page.busy = false
  writer : ∀ t, x.writer t = .idle

def InSpan (call : ℤ × List Byte) (p : ℤ) : Prop := call.1 ≤ p ∧ p < call.1 + call.2.length

def Disjoint (calls : Tid → ℤ × List Byte) : Prop := ∀ t t', t ≠ t' → ∀ p, InSpan (calls t) p → ¬ InSpan (calls t') p

def Kept (calls : Tid → ℤ × List Byte) (x : State) : Prop :=
  ∃ a, Shows x.file a ∧ ∀ t, x.writer t ≠ .idle → slice a.byte (calls t).1 (calls t).2.length = (calls t).2

def stored (sv : Server) (p : ℤ) : Byte := if p < sv.size then sv.byte p else 0

def Phase.job : Phase → Option Job
  | .loop j => some j
  | .getblk _ j => some j
  | .reading _ j => some j
  | .copying j => some j
  | .writing _ _ _ j => some j
  | _ => none

def Phase.owns : Phase → Option ℤ
  | .reading _ j => some j.clusterBase
  | .copying j => some j.clusterBase
  | .writing base _ _ _ => some base
  | _ => none

def Phase.held : Phase → Option ℤ
  | .getblk true j => some j.clusterBase
  | .reading _ j => some j.clusterBase
  | .copying j => some j.clusterBase
  | .writing base _ _ _ => some base
  | _ => none

def Phase.unsent : Phase → Option (ℤ × List Byte)
  | .writing base sent false _ => some (base, sent)
  | _ => none

def Phase.fetching : Phase → Option ℤ
  | .reading _ j => some j.clusterBase
  | _ => none

structure Job.Ready (j : Job) : Prop where
  src : j.src ≠ []
  nonneg : 0 ≤ j.offset
  bounded : j.offset < 2 ^ 31

def OnCluster (b : ℤ) (m : ℤ → Byte) (a : Contents) : Prop := ∀ i, 0 ≤ i → i < 4096 → m i = a.byte (b + i)

section Jobs

variable {j : Job}

namespace Job.Ready

variable (h : j.Ready)
include h

theorem clusterBase : j.clusterBase = j.offset - j.offset % 4096 := by
  have h0 := h.nonneg
  have h1 := h.bounded
  rw [Job.clusterBase, alignDown_pageSize h0, offT_of_lt (by omega) (by omega)]

theorem clusterOffset : j.clusterOffset = j.offset % 4096 := by
  have h0 := h.nonneg
  rw [Job.clusterOffset, tmod_of_nonneg h0, offT_of_lt (by omega) (by omega)]

theorem aligned : 0 ≤ j.clusterBase ∧ j.clusterBase % 4096 = 0 := by
  have h0 := h.nonneg
  rw [h.clusterBase]
  omega

theorem nbytes : j.nbytes = min j.src.length (4096 - j.offset % 4096).toNat := by
  rw [Job.nbytes, h.clusterOffset, nbytesXfer_eq _ (by omega) (by omega)]

theorem chunk_length : j.chunk.length = j.nbytes := by
  have hn := h.nbytes
  simp only [Job.chunk, List.length_take]
  omega

theorem chunk_ne_nil : j.chunk ≠ [] := by
  have hpos : 0 < j.src.length := List.length_pos_iff.mpr h.src
  have hn := h.nbytes
  rw [← List.length_pos_iff, h.chunk_length]
  omega

end Job.Ready

end Jobs

section Stores

variable (sv : Server)

theorem stored_write (base : ℤ) (src : List Byte) : stored (sv.write base src) = overlay (stored sv) base src := by
  funext p
  by_cases hs : src = []
  · simp [Server.write, hs]
  simp only [stored, Server.write, hs, if_false]
  by_cases hin : base ≤ p ∧ p < base + src.length
  · rw [if_pos (by omega), overlay_inside _ _ hin.1 hin.2, overlay_inside _ _ hin.1 hin.2]
  rw [overlay_outside _ _ (by omega), overlay_outside _ _ (by omega)]
  by_cases hlt : p < sv.size <;> simp [stored, hlt]

theorem overlay_read (base : ℤ) {i : ℤ} (h0 : 0 ≤ i) (h : i < 4096) :
    overlay zeroPage 0 (sv.read base pageSize.toNat) i = stored sv (base + i) := by
  unfold Server.read stored
  split_ifs with hlt
  · rw [overlay_slice zeroPage 0 h0 (by simp [pageSize]; omega), sub_zero]
  · rw [overlay_outside zeroPage 0 (.inr (by simp; omega))]
    rfl

end Stores

structure Stored (a : Contents) (x : State) : Prop where
  size : x.size = a.size
  nonneg : 0 ≤ a.size
  bounded : a.size < 2 ^ 63
  beyond : ∀ p, a.size ≤ p → a.byte p = 0
  serverSize : x.server.size ≤ a.size
  reaches : a.size ≤ x.server.size ∨ ∃ t m, (x.writer t).unsent = some m ∧ a.size ≤ m.1 + m.2.length
  server : ∀ b, 0 ≤ b → b % 4096 = 0 → (∀ t m, (x.writer t).unsent = some m → m.1 ≠ b) →
    OnCluster b (fun i => stored x.server (b + i)) a

structure PageSound (a : Contents) (x : State) (b : ℤ) (page : CachePage) : Prop where
  nonneg : 0 ≤ b
  aligned : b % 4096 = 0
  valid : page.valid = true → OnCluster b page.data a
  invalid : page.valid = false → ∃ t, (x.writer t).fetching = some b

def Pages (a : Contents) (x : State) : Prop := ∀ b page, x.page b = some page → PageSound a x b page

def Sound (a : Contents) (x : State) : Phase → Prop
  | .getblk zero j => j.Ready ∧ (zero = true → OnCluster j.clusterBase zeroPage a)
  | .reading reply j => j.Ready ∧ (∃ page, x.page j.clusterBase = some page ∧ page.busy = true) ∧
      ∀ xfered, reply = some xfered → OnCluster j.clusterBase (overlay zeroPage 0 xfered) a
  | .copying j => j.Ready ∧ ∃ page, x.page j.clusterBase = some page ∧ page.busy = true ∧ page.valid = true
  | .writing base sent stored _ => 0 ≤ base ∧ base % 4096 = 0 ∧
      (∃ page, x.page base = some page ∧ page.busy = true ∧ page.valid = true) ∧
      (stored = false → sent ≠ [] ∧ sent.length ≤ 4096 ∧ base + sent.length ≤ a.size ∧
        OnCluster base (fun i => overlay (Writers.stored x.server) base sent (base + i)) a)
  | _ => True

structure Apart (p q : Phase) : Prop where
  owns : ∀ b, p.owns = some b → q.owns ≠ some b
  zeroing : ∀ j, p = .getblk true j → q.cluster ≠ some j.clusterBase
  zeroed : ∀ j, q = .getblk true j → p.cluster ≠ some j.clusterBase

structure Job.Continues (j : Job) (call : ℤ × List Byte) (a : Contents) : Prop where
  offset : j.offset = call.1 + j.nbytesTotal
  src : j.src = call.2.drop j.nbytesTotal
  le : j.nbytesTotal ≤ call.2.length
  done : slice a.byte call.1 j.nbytesTotal = call.2.take j.nbytesTotal

structure Progress (call : ℤ × List Byte) (a : Contents) (p : Phase) : Prop where
  job : ∀ j, p.job = some j → j.Continues call a
  returned : ∀ n, p = .returned n → n = call.2.length → slice a.byte call.1 call.2.length = call.2

structure Inv (calls : Tid → ℤ × List Byte) (a : Contents) (x : State) : Prop where
  stored : Stored a x
  pages : Pages a x
  sound : ∀ t, Sound a x (x.writer t)
  apart : ∀ t t', t ≠ t' → Apart (x.writer t) (x.writer t')
  progress : ∀ t, Progress (calls t) a (x.writer t)

section

variable {a a' : Contents} {x x' : State} {p q p' : Phase} {calls : Tid → ℤ × List Byte} {t : Tid} {j : Job}
  {b i base : ℤ} {n : ℕ} {m : ℤ → Byte} {page : CachePage} {zero : Bool}

theorem Apart.symm (h : Apart p q) : Apart q p where
  owns := by
    intro b hq hp
    exact h.owns b hp hq
  zeroing := h.zeroed
  zeroed := h.zeroing

theorem Apart.mono (h : Apart p q) (howns : ∀ b, p'.owns = some b → p.owns = some b)
    (hcluster : ∀ b, p'.cluster = some b → p.cluster = some b) (hzero : ∀ j, p' ≠ .getblk true j) : Apart p' q where
  owns := by
    intro b hb
    exact h.owns b (howns b hb)
  zeroing := by
    intro j hj
    exact absurd hj (hzero j)
  zeroed := by
    intro j hj hb
    exact h.zeroed j hj (hcluster _ hb)

theorem Apart.of_none (hc : p.cluster = none) (ho : p.owns = none) (hz : ∀ j, p ≠ .getblk true j) : Apart p q where
  owns := by simp [ho]
  zeroing := by
    intro j hj
    exact absurd hj (hz j)
  zeroed := by simp [hc]

theorem Apart.held (h : Apart p q) (hb : p.owns = some b) (hcluster : p.cluster = some b) : q.held ≠ some b := by
  intro hq
  cases q with
  | getblk zero j =>
    cases zero with
    | true =>
      have hj : j.clusterBase = b := by simpa [Phase.held] using hq
      exact h.zeroed j rfl (hj ▸ hcluster)
    | false => simp [Phase.held] at hq
  | reading reply j | copying j | writing base sent stored j => exact h.owns b hb hq
  | _ => simp [Phase.held] at hq

theorem Sound.frame (h : Sound a x p) (hsize : a.size ≤ a'.size) (hpage : ∀ b, p.owns = some b → x'.page b = x.page b)
    (hbyte : ∀ b, p.held = some b → 0 ≤ b → b % 4096 = 0 → ∀ i, 0 ≤ i → i < 4096 →
      a'.byte (b + i) = a.byte (b + i) ∧ stored x'.server (b + i) = stored x.server (b + i)) : Sound a' x' p := by
  cases p with
  | getblk zero j =>
    obtain ⟨hready, hzero⟩ := h
    refine ⟨hready, ?_⟩
    rintro rfl i hi0 hi
    rw [(hbyte _ rfl hready.aligned.1 hready.aligned.2 i hi0 hi).1]
    exact hzero rfl i hi0 hi
  | reading reply j =>
    obtain ⟨hready, hbusy, hreply⟩ := h
    refine ⟨hready, ?_, ?_⟩
    · rwa [hpage _ rfl]
    · intro xfered hx i hi0 hi
      rw [(hbyte _ rfl hready.aligned.1 hready.aligned.2 i hi0 hi).1]
      exact hreply xfered hx i hi0 hi
  | copying j =>
    obtain ⟨hready, hbusy⟩ := h
    refine ⟨hready, ?_⟩
    rwa [hpage _ rfl]
  | writing base sent done j =>
    obtain ⟨h0, hb, hbusy, hsent⟩ := h
    refine ⟨h0, hb, ?_, ?_⟩
    · rwa [hpage _ rfl]
    intro hd
    obtain ⟨hne, hlen, hend, hon⟩ := hsent hd
    refine ⟨hne, hlen, hend.trans hsize, ?_⟩
    intro i hi0 hi
    obtain ⟨hbyte, hstored⟩ := hbyte _ rfl h0 hb i hi0 hi
    rw [hbyte, ← hon i hi0 hi]
    simp only [overlay, hstored]
  | _ => trivial

theorem Stored.congr (h : Stored a x) (hsize : x'.size = x.size) (hserver : x'.server = x.server)
    (hunsent : ∀ t, (x'.writer t).unsent = (x.writer t).unsent) : Stored a x' where
  size := hsize.trans h.size
  nonneg := h.nonneg
  bounded := h.bounded
  beyond := h.beyond
  serverSize := by
    rw [hserver]
    exact h.serverSize
  reaches := by
    simp only [hserver, hunsent]
    exact h.reaches
  server := by
    simp only [hserver, hunsent]
    exact h.server

theorem unsent_update (h : p.unsent = (x.writer t).unsent) :
    ∀ t', (update x.writer t p t').unsent = (x.writer t').unsent :=
  (forall_update_iff x.writer fun t' q => q.unsent = (x.writer t').unsent).mpr ⟨h, fun _ _ => rfl⟩

theorem PageSound.update (h : PageSound a x b page) (hp : (x.writer t).fetching = some b → p.fetching = some b)
    (hw : x'.writer = update x.writer t p) : PageSound a x' b page := by
  refine ⟨h.nonneg, h.aligned, h.valid, fun hv => ?_⟩
  obtain ⟨t', ht'⟩ := h.invalid hv
  refine ⟨t', ?_⟩
  rw [hw]
  by_cases ht : t' = t
  · subst ht
    rw [update_self]
    exact hp ht'
  · rwa [update_of_ne ht]

theorem Sound.busy (h : Sound a x p) (hb : p.owns = some b) : ∃ page, x.page b = some page ∧ page.busy = true := by
  cases p with
  | reading reply j =>
    cases hb
    exact h.2.1
  | copying j =>
    cases hb
    obtain ⟨-, page, hp, hbusy, -⟩ := h
    exact ⟨page, hp, hbusy⟩
  | writing base sent done j =>
    cases hb
    obtain ⟨-, -, ⟨page, hp, hbusy, -⟩, -⟩ := h
    exact ⟨page, hp, hbusy⟩
  | _ => cases hb

theorem apart_update (h : ∀ t t', t ≠ t' → Apart (x.writer t) (x.writer t')) (hp : ∀ t', t' ≠ t → Apart p (x.writer t')) :
    ∀ t₁ t₂, t₁ ≠ t₂ → Apart (update x.writer t p t₁) (update x.writer t p t₂) := by
  intro t₁ t₂ hne
  by_cases h1 : t₁ = t
  · subst h1
    rw [update_self, update_of_ne hne.symm]
    exact hp t₂ hne.symm
  rw [update_of_ne h1]
  by_cases h2 : t₂ = t
  · subst h2
    rw [update_self]
    exact (hp t₁ h1).symm
  · rw [update_of_ne h2]
    exact h t₁ t₂ hne

theorem Progress.of_job {call : ℤ × List Byte} (hj : j.Continues call a) (hp : p.job = some j) :
    Progress call a p where
  job := by
    intro j' hj'
    rw [hp] at hj'
    cases hj'
    exact hj
  returned := by
    rintro n rfl
    cases hp

theorem Progress.of_short {call : ℤ × List Byte} {n : ℤ} (h : n ≠ call.2.length) : Progress call a (.returned n) where
  job := by
    intro j hj
    cases hj
  returned := by
    intro n' hn' hlen
    cases hn'
    exact absurd hlen h

theorem Job.Continues.lt {call : ℤ × List Byte} (h : j.Continues call a) (hs : j.src ≠ []) :
    j.nbytesTotal < call.2.length := by
  have hpos : 0 < j.src.length := List.length_pos_iff.mpr hs
  rw [h.src, List.length_drop] at hpos
  omega

theorem shortCount_ne {m : ℕ} (h : n < m) : shortCount n ≠ m := by
  unfold shortCount
  have : (eio : ℤ) > 0 := by decide
  omega

theorem write_byte_outside (hready : j.Ready) (hb : b % 4096 = 0) (hne : b ≠ j.clusterBase) (hi0 : 0 ≤ i)
    (hi : i < 4096) : (a.write j.offset j.chunk).byte (b + i) = a.byte (b + i) := by
  have hn := hready.nbytes
  have hbase := hready.clusterBase
  simp only [Contents.write, hready.chunk_ne_nil]
  exact overlay_outside a.byte j.offset (by rw [hready.chunk_length]; omega)

theorem OnCluster.outside (h : OnCluster b m a) (hready : j.Ready) (hb : b % 4096 = 0)
    (hne : b ≠ j.clusterBase) : OnCluster b m (a.write j.offset j.chunk) := by
  intro i hi0 hi
  rw [write_byte_outside hready hb hne hi0 hi]
  exact h i hi0 hi

theorem OnCluster.copied (h : OnCluster j.clusterBase m a) (hready : j.Ready) :
    OnCluster j.clusterBase (overlay m j.clusterOffset j.chunk) (a.write j.offset j.chunk) := by
  intro i hi0 hi
  have hco : j.clusterOffset = j.offset - j.clusterBase := by
    rw [hready.clusterOffset, hready.clusterBase]
    omega
  simp only [Contents.write, hready.chunk_ne_nil]
  rw [hco]
  exact overlay_shift m j.offset j.chunk (h i hi0 hi)

theorem Job.Continues.inSpan {call : ℤ × List Byte} (h : j.Continues call a) {p : ℤ} (h0 : j.offset ≤ p)
    (hp : p < j.offset + j.chunk.length) : InSpan call p := by
  have hlen : j.chunk.length ≤ j.src.length := by simp [Job.chunk]
  have hoffset := h.offset
  rw [h.src, List.length_drop] at hlen
  exact ⟨by omega, by omega⟩

theorem slice_write_outside {call : ℤ × List Byte} (hn : n ≤ call.2.length) (hready : j.Ready)
    (hout : ∀ p, j.offset ≤ p → p < j.offset + j.chunk.length → ¬ InSpan call p) :
    slice (a.write j.offset j.chunk).byte call.1 n = slice a.byte call.1 n := by
  refine slice_congr _ _ fun i hi => ?_
  simp only [Contents.write, hready.chunk_ne_nil]
  refine overlay_outside _ _ ?_
  by_contra hin
  exact hout (call.1 + i) (by omega) (by omega) ⟨by omega, by omega⟩

theorem Progress.outside {call : ℤ × List Byte} (h : Progress call a p) (hready : j.Ready)
    (hout : ∀ p, j.offset ≤ p → p < j.offset + j.chunk.length → ¬ InSpan call p) :
    Progress call (a.write j.offset j.chunk) p where
  job := by
    intro j' hj'
    obtain ⟨hoffset, hsrc, hle, hdone⟩ := h.job j' hj'
    exact ⟨hoffset, hsrc, hle, (slice_write_outside hle hready hout).trans hdone⟩
  returned := by
    intro n hn hlen
    exact (slice_write_outside le_rfl hready hout).trans (h.returned n hn hlen)

theorem Job.Continues.next {call : ℤ × List Byte} (h : j.Continues call a) (hready : j.Ready) :
    j.next.Continues call (a.write j.offset j.chunk) := by
  have hn := hready.nbytes
  have hlen := hready.chunk_length
  have hsrc : j.src.length = call.2.length - j.nbytesTotal := by rw [h.src, List.length_drop]
  have hlt := h.lt hready.src
  have hoffset := h.offset
  refine ⟨?_, ?_, ?_, ?_⟩
  · simp only [Job.next]
    omega
  · simp only [Job.next, h.src, List.drop_drop]
  · simp only [Job.next]
    omega
  · -- What was there before lies in front of the chunk.
    have hbefore : slice (a.write j.offset j.chunk).byte call.1 j.nbytesTotal = call.2.take j.nbytesTotal := by
      rw [← h.done]
      refine slice_congr _ _ fun i hi => ?_
      simp only [Contents.write, hready.chunk_ne_nil]
      exact overlay_outside _ _ (by omega)
    have hchunk : slice (a.write j.offset j.chunk).byte j.offset j.nbytes = j.chunk := by
      simp only [Contents.write, hready.chunk_ne_nil, if_false]
      refine List.ext_get (by simp [hlen]) fun i h1 h2 => ?_
      simp only [slice, List.get_eq_getElem, List.getElem_map, List.getElem_range]
      rw [overlay_inside _ _ (by omega) (by omega)]
      simp
    have htake : j.chunk = (call.2.drop j.nbytesTotal).take j.nbytes := by rw [Job.chunk, h.src]
    simp only [Job.next]
    rw [slice_append, hbefore, ← hoffset, hchunk, htake, List.take_add]

namespace Inv

variable (h : Inv calls a x)
include h

theorem step_of (hwriter : x'.writer = update x.writer t p) (hstored : Stored a' x')
    (hpages : Pages a' x') (hsize : a.size ≤ a'.size)
    (hpage : ∀ t', t' ≠ t → ∀ b, (x.writer t').owns = some b → x'.page b = x.page b)
    (hbyte : ∀ t', t' ≠ t → ∀ b, (x.writer t').held = some b → 0 ≤ b → b % 4096 = 0 → ∀ i, 0 ≤ i → i < 4096 →
      a'.byte (b + i) = a.byte (b + i) ∧ Writers.stored x'.server (b + i) = Writers.stored x.server (b + i))
    (hsound : Sound a' x' p) (hapart : ∀ t', t' ≠ t → Apart p (x.writer t'))
    (hothers : ∀ t', t' ≠ t → Progress (calls t') a' (x.writer t')) (hprogress : Progress (calls t) a' p) :
    Inv calls a' x' where
  stored := hstored
  pages := hpages
  sound := by
    rw [hwriter, forall_update_iff x.writer fun _ => Sound a' x']
    exact ⟨hsound, fun t' ht => (h.sound t').frame hsize (hpage t' ht) (hbyte t' ht)⟩
  apart := by
    rw [hwriter]
    exact apart_update h.apart hapart
  progress := by
    rw [hwriter, forall_update_iff x.writer fun t => Progress (calls t) a']
    exact ⟨hprogress, hothers⟩

theorem setPhase (hunsent : p.unsent = (x.writer t).unsent)
    (hfetching : ∀ b, (x.writer t).fetching = some b → p.fetching = some b) (hsound : Sound a x p)
    (hapart : ∀ t', t' ≠ t → Apart p (x.writer t')) (hprogress : Progress (calls t) a p) :
    Inv calls a (x.setPhase t p) := by
  have hstored : Stored a (x.setPhase t p) := h.stored.congr rfl rfl (unsent_update hunsent)
  refine h.step_of rfl hstored ?_ le_rfl (fun _ _ _ _ => rfl) (fun _ _ _ _ _ _ _ _ _ => ⟨rfl, rfl⟩)
    (hsound.frame le_rfl (fun _ _ => rfl) fun _ _ _ _ _ _ _ => ⟨rfl, rfl⟩) hapart (fun t' _ => h.progress t') hprogress
  exact fun b page hp => (h.pages b page hp).update (hfetching b) rfl

theorem setPage {pg : Option CachePage}
    (howner : ∀ t', t' ≠ t → (x.writer t').owns ≠ some b) (hunsent : p.unsent = (x.writer t).unsent)
    (hfetching : ∀ b', (x.writer t).fetching = some b' → b' = b)
    (hpg : ∀ page, pg = some page → PageSound a ((x.setPage b pg).setPhase t p) b page)
    (hsound : Sound a ((x.setPage b pg).setPhase t p) p) (hapart : ∀ t', t' ≠ t → Apart p (x.writer t'))
    (hprogress : Progress (calls t) a p) : Inv calls a ((x.setPage b pg).setPhase t p) := by
  have hstored : Stored a ((x.setPage b pg).setPhase t p) := h.stored.congr rfl rfl (unsent_update hunsent)
  refine h.step_of rfl hstored ?_ le_rfl ?_ (fun _ _ _ _ _ _ _ _ _ => ⟨rfl, rfl⟩) hsound hapart
    (fun t' _ => h.progress t') hprogress
  · intro b' page hp
    by_cases hb : b' = b
    · subst hb
      simp only [State.setPhase, State.setPage, update_self] at hp
      exact hpg page hp
    simp only [State.setPhase, State.setPage, update_of_ne hb] at hp
    exact (h.pages b' page hp).update (fun hf => absurd (hfetching b' hf) hb) rfl
  · intro t' ht b' hb'
    have hb : b' ≠ b := by
      rintro rfl
      exact howner t' ht hb'
    simp only [State.setPhase, State.setPage, update_of_ne hb]

theorem evict (hp : x.page b = some page) (hbusy : page.busy = false) :
    Inv calls a (x.setPage b none) where
  stored := h.stored.congr rfl rfl fun _ => rfl
  pages := by
    intro b' page' hp'
    by_cases hb : b' = b
    · subst hb
      simp [State.setPage] at hp'
    · simp only [State.setPage, update_of_ne hb] at hp'
      exact { h.pages b' page' hp' with }
  sound := by
    intro t
    refine (h.sound t).frame le_rfl ?_ fun _ _ _ _ _ _ _ => ⟨rfl, rfl⟩
    intro b' hb'
    have hb : b' ≠ b := by
      rintro rfl
      obtain ⟨page', hp', hbusy'⟩ := (h.sound t).busy hb'
      rw [hp] at hp'
      cases hp'
      rw [hbusy] at hbusy'
      cases hbusy'
    simp only [State.setPage, update_of_ne hb]
  apart := h.apart
  progress := h.progress

section

variable (hw : x.writer t = p)
include hw

theorem job (hj : p.job = some j) : j.Continues (calls t) a := (h.progress t).job j (hw ▸ hj)

theorem sound_of : Sound a x p := hw ▸ h.sound t

theorem apart_of (t' : Tid) (ht : t' ≠ t) : Apart p (x.writer t') := hw ▸ h.apart t t' ht.symm

end

theorem call (hw : x.writer t = .idle) : Inv calls a (x.setPhase t (.loop ⟨(calls t).1, (calls t).2, 0⟩)) := by
  refine h.setPhase (by rw [hw]; rfl) (by simp [hw, Phase.fetching]) trivial ?_ ?_
  · intro t' _
    exact Apart.of_none rfl rfl (by simp)
  · exact Progress.of_job ⟨by simp, by simp, by simp, by simp [slice]⟩ rfl

theorem finish (hw : x.writer t = .loop j) (hs : j.src = []) :
    Inv calls a (x.setPhase t (.returned j.nbytesTotal)) := by
  have hj := h.job hw rfl
  refine h.setPhase (by rw [hw]; rfl) (by simp [hw, Phase.fetching]) trivial ?_ ?_
  · intro t' _
    exact Apart.of_none rfl rfl (by simp)
  have hall : (calls t).2.length = j.nbytesTotal := by
    have hle := hj.le
    have hdrop := hj.src
    rw [hs, eq_comm, List.drop_eq_nil_iff] at hdrop
    omega
  refine ⟨by simp [Phase.job], ?_⟩
  intro n _ _
  rw [hall, hj.done, ← hall, List.take_length]

theorem round (hw : x.writer t = .loop j) (hready : j.Ready)
    (hothers : ∀ t', t' ≠ t → (x.writer t').cluster = some j.clusterBase →
      j.clusterBase < x.size ∧ ∀ j', x.writer t' ≠ .getblk true j') :
    Inv calls a (x.setPhase t (.getblk (decide (¬ j.clusterBase < x.size)) j)) := by
  have hj := h.job hw rfl
  refine h.setPhase (by rw [hw]; rfl) (by simp [hw, Phase.fetching]) ⟨hready, ?_⟩ ?_ (Progress.of_job hj rfl)
  · intro hz i hi0 hi
    have hlt : ¬ j.clusterBase < x.size := by simpa using hz
    rw [h.stored.size] at hlt
    rw [h.stored.beyond _ (by omega)]
    rfl
  · intro t' ht
    refine ⟨by simp [Phase.owns], ?_, ?_⟩
    · intro j' hj' hc
      have hz : decide (¬ j.clusterBase < x.size) = true ∧ j = j' := by simpa using hj'
      obtain ⟨hz, rfl⟩ := hz
      exact absurd (hothers t' ht hc).1 (by simpa using hz)
    · intro j' hj' hc
      have hb : j.clusterBase = j'.clusterBase := by simpa [Phase.cluster] using hc
      refine (hothers t' ht ?_).2 j' hj'
      rw [hj', hb]
      rfl

theorem acquire (hw : x.writer t = .getblk zero j)
    (hfree : ∀ page, x.page j.clusterBase = some page → page.busy = false) (hbusy : page.busy = true)
    (hvalid : page.valid = true → OnCluster j.clusterBase page.data a) : Inv calls a (acquire x t zero j page) := by
  have hj := h.job hw rfl
  obtain ⟨hready, hzero⟩ := h.sound_of hw
  have howner : ∀ t', t' ≠ t → (x.writer t').owns ≠ some j.clusterBase := by
    intro t' _ hb
    obtain ⟨page', hp, hbusy'⟩ := (h.sound t').busy hb
    rw [hfree page' hp] at hbusy'
    cases hbusy'
  -- The page is taken for the cluster the writer was waiting for.
  have hapart : ∀ p : Phase, p.owns = some j.clusterBase → p.cluster = some j.clusterBase →
      (∀ j', p ≠ .getblk true j') → ∀ t', t' ≠ t → Apart p (x.writer t') := by
    intro p ho hc hz t' ht
    have happ := h.apart_of hw t' ht
    refine ⟨?_, ?_, ?_⟩
    · intro b hb
      rw [ho] at hb
      cases hb
      exact howner t' ht
    · intro j' hj'
      exact absurd hj' (hz j')
    · intro j' hj' hb
      rw [hc] at hb
      exact happ.zeroed j' hj' hb
  have hunsent : (x.writer t).unsent = none := by rw [hw]; rfl
  have hfetching : ∀ b, (x.writer t).fetching = some b → b = j.clusterBase := by
    intro b hb
    rw [hw] at hb
    cases hb
  unfold Writers.acquire
  split_ifs with hz hv
  · refine h.setPage howner hunsent.symm hfetching ?_ ⟨hready, _, update_self _ _ _, rfl, rfl⟩
      (hapart _ rfl rfl (by simp)) (Progress.of_job hj rfl)
    rintro page' ⟨⟩
    exact ⟨hready.aligned.1, hready.aligned.2, fun _ => hzero hz, by simp⟩
  · refine h.setPage howner hunsent.symm hfetching ?_ ⟨hready, _, update_self _ _ _, hbusy, hv⟩
      (hapart _ rfl rfl (by simp)) (Progress.of_job hj rfl)
    rintro page' ⟨⟩
    exact ⟨hready.aligned.1, hready.aligned.2, hvalid, by simp [hv]⟩
  · refine h.setPage howner hunsent.symm hfetching ?_
      ⟨hready, ⟨_, update_self _ _ _, hbusy⟩, by simp⟩ (hapart _ rfl rfl (by simp)) (Progress.of_job hj rfl)
    rintro page' ⟨⟩
    refine ⟨hready.aligned.1, hready.aligned.2, fun hv' => absurd hv' hv, fun _ => ⟨t, ?_⟩⟩
    simp [State.setPhase, Phase.fetching]

theorem attempt (hw : x.writer t = .getblk zero j) (available : Bool) :
    Inv calls a (attempt x t zero j available) := by
  unfold Writers.attempt
  cases hp : x.page j.clusterBase with
  | some page =>
    simp only
    split
    · exact h
    rename_i hbusy
    refine h.acquire hw ?_ rfl ?_
    · intro page' hp'
      rw [hp] at hp'
      cases hp'
      simpa using hbusy
    · intro hv
      simp only at hv
      simp only [hv]
      exact (h.pages _ page hp).valid hv
  | none =>
    split_ifs
    · refine h.acquire hw ?_ rfl (by simp)
      intro page' hp'
      rw [hp] at hp'
      cases hp'
    · exact h

theorem fetch (hw : x.writer t = .reading none j) :
    Inv calls a (x.setPhase t (.reading (some (x.server.read j.clusterBase pageSize.toNat)) j)) := by
  have hj := h.job hw rfl
  obtain ⟨hready, hbusy, -⟩ := h.sound_of hw
  refine h.setPhase (by rw [hw]; rfl) (by simp [hw, Phase.fetching]) ⟨hready, hbusy, ?_⟩ ?_ (Progress.of_job hj rfl)
  · rintro xfered ⟨⟩ i hi0 hi
    rw [overlay_read _ _ hi0 hi]
    refine h.stored.server _ hready.aligned.1 hready.aligned.2 ?_ i hi0 hi
    -- Nobody else has the page, so nobody has data of it on the way.
    intro t' m hm hmb
    by_cases ht : t' = t
    · rw [ht, hw] at hm
      cases hm
    refine (h.apart_of hw t' ht).owns j.clusterBase rfl ?_
    cases hw' : x.writer t' with
    | writing base sent done j' =>
      rw [hw'] at hm
      cases done with
      | true => cases hm
      | false =>
        cases hm
        rw [← hmb]
        rfl
    | _ =>
      rw [hw'] at hm
      cases hm
  · intro t' ht
    have happ := h.apart_of hw t' ht
    exact happ.mono (fun _ hb => hb) (fun _ hb => hb) (by simp)

theorem readReply {reply : Option (List Byte)} (hw : x.writer t = .reading reply j)
    {xfered : List Byte} (hx : xfered = [] ∨ reply = some xfered) : Inv calls a (readReply x t j xfered) := by
  have hj := h.job hw rfl
  obtain ⟨hready, -, hreply⟩ := h.sound_of hw
  have happ := h.apart_of hw
  have howner : ∀ t', t' ≠ t → (x.writer t').owns ≠ some j.clusterBase := by
    intro t' ht
    exact (happ t' ht).owns j.clusterBase rfl
  have hunsent : (x.writer t).unsent = none := by rw [hw]; rfl
  have hfetching : ∀ b, (x.writer t).fetching = some b → b = j.clusterBase := by
    intro b hb
    rw [hw] at hb
    cases hb
    rfl
  unfold Writers.readReply
  split_ifs with hlen
  · refine h.setPage howner hunsent.symm hfetching (by simp) trivial ?_
      (Progress.of_short (shortCount_ne (hj.lt hready.src)))
    intro t' _
    exact Apart.of_none rfl rfl (by simp)
  · have hsome : reply = some xfered := by
      rcases hx with rfl | hx
      · simp at hlen
      · exact hx
    refine h.setPage howner hunsent.symm hfetching ?_ ⟨hready, _, update_self _ _ _, rfl, rfl⟩ ?_
      (Progress.of_job hj rfl)
    · rintro page ⟨⟩
      exact ⟨hready.aligned.1, hready.aligned.2, fun _ => hreply xfered hsome, by simp⟩
    · intro t' ht
      exact (happ t' ht).mono (fun _ hb => hb) (fun _ hb => hb) (by simp)

theorem fault (hw : x.writer t = .copying j) : Inv calls a (x.setPhase t (.returned (-efault))) := by
  refine h.setPhase (by rw [hw]; rfl) (by simp [hw, Phase.fetching]) trivial ?_ (Progress.of_short ?_)
  · intro t' _
    exact Apart.of_none rfl rfl (by simp)
  · have : (efault : ℤ) > 0 := by decide
    omega

end Inv

section Copyin

variable {page : CachePage}

@[simp] theorem copyin_server : (copyin x t j page).server = x.server := rfl

@[simp] theorem copyin_page_self :
    (copyin x t j page).page j.clusterBase = some ⟨overlay page.data j.clusterOffset j.chunk, true, true⟩ :=
  update_self _ _ _

theorem copyin_page_of_ne (hb : b ≠ j.clusterBase) : (copyin x t j page).page b = x.page b :=
  update_of_ne hb _ _

theorem copyin_writer : (copyin x t j page).writer = update x.writer t (.writing j.clusterBase
    (slice (overlay page.data j.clusterOffset j.chunk) 0 (nbytesToWrite (copyin x t j page).size j.clusterBase)) false
      j.next) :=
  rfl

theorem Pages.copyin (h : Pages a x) (hready : j.Ready) (hw : (x.writer t).fetching = none)
    (hdata : OnCluster j.clusterBase page.data a) : Pages (a.write j.offset j.chunk) (copyin x t j page) := by
  intro b page' hp
  by_cases hb : b = j.clusterBase
  · subst hb
    rw [copyin_page_self] at hp
    cases hp
    exact ⟨hready.aligned.1, hready.aligned.2, fun _ => hdata.copied hready, by simp⟩
  · rw [copyin_page_of_ne hb] at hp
    obtain ⟨h0, hal, hvalid, hinvalid⟩ := (h b page' hp).update (t := t) (by simp [hw]) copyin_writer
    exact ⟨h0, hal, fun hv => (hvalid hv).outside hready hal hb, hinvalid⟩

section

variable (h : Stored a x) (hready : j.Ready)
include h hready

theorem copyin_size : (copyin x t j page).size = (a.write j.offset j.chunk).size := by
  rw [write_size a j.offset hready.chunk_ne_nil, hready.chunk_length, ← h.size]
  simp only [copyin, State.setPhase, State.setPage, Job.next]
  split_ifs <;> omega

theorem copyin_count (t : Tid) (page : CachePage) : (nbytesToWrite (copyin x t j page).size j.clusterBase : ℤ) =
      min 4096 ((a.write j.offset j.chunk).size - j.clusterBase) := by
  have hn := hready.nbytes
  have hbase := hready.clusterBase
  have hbound := hready.bounded
  have hsmall := h.bounded
  have hpos := List.length_pos_iff.mpr hready.src
  have hsize := write_size a j.offset hready.chunk_ne_nil
  rw [hready.chunk_length] at hsize
  rw [copyin_size h hready]
  exact nbytesToWrite_eq hready.aligned.1 hready.aligned.2 (by omega) (by omega)

theorem Stored.beyond_write {p : ℤ} (hp : (a.write j.offset j.chunk).size ≤ p) :
    (a.write j.offset j.chunk).byte p = 0 := by
  rw [write_size a j.offset hready.chunk_ne_nil] at hp
  simp only [Contents.write, hready.chunk_ne_nil, if_false]
  rw [overlay_outside _ _ (by omega)]
  exact h.beyond p (by omega)

theorem Stored.copyin (hw : (x.writer t).unsent = none) : Stored (a.write j.offset j.chunk) (copyin x t j page) := by
  have hgrows := write_size a j.offset hready.chunk_ne_nil
  have hcount := copyin_count h hready t page
  have hlen := hready.chunk_length
  have hn := hready.nbytes
  have hbase := hready.clusterBase
  have hbound := hready.bounded
  have hsmall := h.bounded
  have hnonneg := h.nonneg
  have hserver := h.serverSize
  have hother {t' m} (hm : (x.writer t').unsent = some m) : (Writers.copyin x t j page).writer t' = x.writer t' := by
    refine update_of_ne ?_ _ _
    rintro rfl
    rw [hw] at hm
    cases hm
  refine ⟨copyin_size h hready, by omega, by omega, fun p hp => h.beyond_write hready hp, ?_, ?_, ?_⟩
  · rw [copyin_server]
    omega
  · by_cases hext : a.size < j.offset + j.chunk.length
    · refine .inr ⟨t, _, by rw [copyin_writer, update_self]; rfl, ?_⟩
      rw [slice_length]
      omega
    rcases h.reaches with hreach | ⟨t', m, hm, hreach⟩
    · rw [copyin_server]
      omega
    refine .inr ⟨t', m, by rwa [hother hm], ?_⟩
    omega
  · intro b h0 hb hnone
    have hne : b ≠ j.clusterBase := by
      rintro rfl
      exact hnone t _ (by rw [copyin_writer, update_self]; rfl) rfl
    refine OnCluster.outside (h.server b h0 hb ?_) hready hb hne
    exact fun t' m hm => hnone t' m (by rwa [hother hm])

theorem Stored.sent (hdata : OnCluster j.clusterBase page.data a) :
    OnCluster j.clusterBase (fun i => overlay (stored x.server) j.clusterBase
      (slice (overlay page.data j.clusterOffset j.chunk) 0 (nbytesToWrite (Writers.copyin x t j page).size j.clusterBase))
      (j.clusterBase + i)) (a.write j.offset j.chunk) := by
  have hcount := copyin_count h hready t page
  intro i hi0 hi
  simp only
  by_cases hin : i < nbytesToWrite (Writers.copyin x t j page).size j.clusterBase
  · rw [overlay_slice _ _ (by omega) (by omega), zero_add, add_sub_cancel_left]
    exact hdata.copied hready i hi0 hi
  · have hgrows := write_size a j.offset hready.chunk_ne_nil
    have hserver := h.serverSize
    rw [overlay_outside _ _ (by rw [slice_length]; omega), h.beyond_write hready (by omega), stored, if_neg (by omega)]

end

theorem Inv.copyin (h : Inv calls a x) (hd : Disjoint calls) (hw : x.writer t = .copying j)
    (hp : x.page j.clusterBase = some page) : Inv calls (a.write j.offset j.chunk) (copyin x t j page) := by
  have hj := h.job hw rfl
  obtain ⟨hready, page', hp', -, hvalid⟩ := h.sound_of hw
  rw [hp] at hp'
  cases hp'
  have hdata := (h.pages _ page hp).valid hvalid
  have happ := h.apart_of hw
  have hgrows := write_size a j.offset hready.chunk_ne_nil
  have hcount := copyin_count h.stored hready t page
  refine h.step_of copyin_writer (h.stored.copyin hready (by rw [hw]; rfl)) (h.pages.copyin hready (by rw [hw]; rfl) hdata)
    (by omega) ?_ ?_ ⟨hready.aligned.1, hready.aligned.2, ⟨_, copyin_page_self, rfl, rfl⟩, fun _ => ⟨?_, ?_, ?_, ?_⟩⟩ ?_ ?_
    (Progress.of_job (hj.next hready) rfl)
  · intro t' ht b hb
    refine copyin_page_of_ne ?_
    rintro rfl
    exact (happ t' ht).owns _ rfl hb
  · intro t' ht b hb h0 hal i hi0 hi
    have hne : b ≠ j.clusterBase := by
      rintro rfl
      exact (happ t' ht).held rfl rfl hb
    exact ⟨write_byte_outside hready hal hne hi0 hi, rfl⟩
  · have hn := hready.nbytes
    have hpos := List.length_pos_iff.mpr hready.src
    have hbase := hready.clusterBase
    have hlen := hready.chunk_length
    rw [← List.length_pos_iff, slice_length]
    omega
  · rw [slice_length]
    omega
  · rw [slice_length]
    omega
  · exact h.stored.sent hready hdata
  · intro t' ht
    exact (happ t' ht).mono (fun _ hb => hb) (fun _ hb => hb) (by simp)
  · intro t' ht
    refine (h.progress t').outside hready ?_
    intro p hp0 hp1
    exact hd t t' ht.symm p (hj.inSpan hp0 hp1)

end Copyin

theorem Inv.store (h : Inv calls a x) {sent : List Byte} (hw : x.writer t = .writing base sent false j) :
    Inv calls a ({ x with server := x.server.write base sent }.setPhase t (.writing base sent true j)) := by
  have hj := h.job hw rfl
  obtain ⟨h0, hb, hbusy, hsent⟩ := h.sound_of hw
  obtain ⟨hne, hlen, hend, hon⟩ := hsent rfl
  have happ := h.apart_of hw
  have helsewhere : ∀ b, b % 4096 = 0 → b ≠ base → ∀ i, 0 ≤ i → i < 4096 →
      Writers.stored (x.server.write base sent) (b + i) = Writers.stored x.server (b + i) := by
    intro b hal hbne i hi0 hi
    rw [stored_write]
    exact overlay_outside _ _ (by omega)
  have hwriter : ∀ t', t' ≠ t → update x.writer t (.writing base sent true j) t' = x.writer t' :=
    fun t' ht => update_of_ne ht _ _
  refine h.step_of rfl { h.stored with serverSize := ?_, reaches := ?_, server := ?_ } ?_ le_rfl
    (fun _ _ _ _ => rfl) ?_ ⟨h0, hb, hbusy, by simp⟩ ?_ (fun t' _ => h.progress t') (Progress.of_job hj rfl)
  · have hserver := h.stored.serverSize
    simp only [State.setPhase, Server.write, hne, if_false]
    omega
  · simp only [State.setPhase, Server.write, hne, if_false]
    rcases h.stored.reaches with hreach | ⟨t', m, hm, hreach⟩
    · exact .inl (by omega)
    by_cases ht : t' = t
    · rw [ht, hw] at hm
      cases hm
      exact .inl (hreach.trans (le_max_right _ _))
    · exact .inr ⟨t', m, by rwa [hwriter t' ht], hreach⟩
  · intro b hb0 hal hnone i hi0 hi
    simp only [State.setPhase] at hnone ⊢
    by_cases hbb : b = base
    · rw [hbb, stored_write]
      exact hon i hi0 hi
    rw [helsewhere b hal hbb i hi0 hi]
    refine h.stored.server b hb0 hal ?_ i hi0 hi
    intro t' m hm
    by_cases ht : t' = t
    · rw [ht, hw] at hm
      cases hm
      exact Ne.symm hbb
    · exact hnone t' m (by rwa [hwriter t' ht])
  · exact fun b page hp => (h.pages b page hp).update (by simp [hw, Phase.fetching]) rfl
  · intro t' ht b hheld hb0 hal i hi0 hi
    have hbne : b ≠ base := by
      rintro rfl
      exact (happ t' ht).held rfl rfl hheld
    exact ⟨rfl, helsewhere b hal hbne i hi0 hi⟩
  · intro t' ht
    exact (happ t' ht).mono (fun _ hb => hb) (fun _ hb => hb) (by simp)

theorem Inv.writeReply (h : Inv calls a x) {sent : List Byte}
    (hw : x.writer t = .writing base sent true j) : Inv calls a (writeReply x t base j true) := by
  have hj := h.job hw rfl
  obtain ⟨h0, hb, ⟨page, hp, hbusy, hvalid⟩, -⟩ := h.sound_of hw
  simp only [Writers.writeReply, hp]
  have happ := h.apart_of hw
  refine h.setPage (fun t' ht => (happ t' ht).owns base rfl) (by rw [hw]; rfl) (by simp [hw, Phase.fetching]) ?_ trivial ?_
    (Progress.of_job hj rfl)
  · rintro page' ⟨⟩
    exact ⟨h0, hb, fun _ => (h.pages base page hp).valid hvalid, by simp [hvalid]⟩
  · intro t' _
    exact Apart.of_none rfl rfl (by simp)

protected theorem Inv.step {act : Action} (hd : Disjoint calls) (h : ∃ a, Inv calls a x) (hc : Orderly x act)
    (hs : step calls x act = some x') : ∃ a, Inv calls a x' := by
  obtain ⟨a, h⟩ := h
  cases act <;> simp only [step] at hs
  case call t =>
    split at hs <;> cases hs
    next hw => exact ⟨a, h.call hw⟩
  case round t =>
    split at hs
    next j hw =>
      split_ifs at hs with hsrc <;> cases hs
      · exact ⟨a, h.finish hw hsrc⟩
      · obtain ⟨h0, hbound, hothers⟩ := hc j hw hsrc
        exact ⟨a, h.round hw ⟨hsrc, h0, hbound⟩ hothers⟩
    next => cases hs
  case attempt t available =>
    split at hs <;> cases hs
    next hw => exact ⟨a, h.attempt hw available⟩
  case fetch t =>
    split at hs <;> cases hs
    next hw => exact ⟨a, h.fetch hw⟩
  case readReply t ok =>
    split at hs
    next hw =>
      split_ifs at hs
      · obtain ⟨xfered, hx, rfl⟩ := Option.map_eq_some_iff.mp hs
        exact ⟨a, h.readReply hw (.inr hx)⟩
      · cases hs
        exact ⟨a, h.readReply hw (.inl rfl)⟩
    next => cases hs
  case copyin t ok =>
    split at hs
    next hw =>
      split_ifs at hs
      · obtain ⟨page, hp, rfl⟩ := Option.map_eq_some_iff.mp hs
        exact ⟨_, h.copyin hd hw hp⟩
      · cases hs
        exact ⟨a, h.fault hw⟩
    next => cases hs
  case store t =>
    split at hs <;> cases hs
    next hw => exact ⟨a, h.store hw⟩
  case writeReply t ok =>
    obtain rfl : ok = true := hc
    split at hs
    next done j hw =>
      split_ifs at hs with hdone
      cases hs
      obtain rfl : done = true := by simpa using hdone
      exact ⟨a, h.writeReply hw⟩
    next => cases hs
  case evict base =>
    split at hs
    next hp =>
      split_ifs at hs with hbusy
      cases hs
      exact ⟨a, h.evict hp (by simpa using hbusy)⟩
    next => cases hs

theorem Start.inv (h : Start a x) : Inv calls a x where
  stored := by
    have hsize : x.server.size = a.size := h.shows.serverSize
    refine { h.shows with serverSize := hsize.le, reaches := .inl hsize.ge, server := ?_ }
    intro b h0 _ _ i hi0 _
    simp only [stored, hsize]
    split_ifs with hlt
    · exact h.shows.server (b + i) (by omega) hlt
    · exact (h.shows.beyond (b + i) (by omega)).symm
  pages := by
    intro b page hp
    obtain ⟨hvalid, -⟩ := h.page b page hp
    obtain ⟨h0, hal, hon⟩ := h.shows.page b page.data (by simp [State.file, hp])
    exact ⟨h0, hal, fun _ => hon, by simp [hvalid]⟩
  sound := by
    intro t
    rw [h.writer t]
    trivial
  apart := by
    intro t t' _
    rw [h.writer t]
    exact Apart.of_none rfl rfl (by simp)
  progress := by
    intro t
    rw [h.writer t]
    exact ⟨by simp [Phase.job], by simp⟩

theorem Inv.kept (h : Inv calls a x)
    (hdone : ∀ t, x.writer t = .idle ∨ x.writer t = .returned (calls t).2.length) : Kept calls x := by
  have hunsent : ∀ t, (x.writer t).unsent = none := by
    intro t
    rcases hdone t with hw | hw <;> rw [hw] <;> rfl
  have hfetching : ∀ t, (x.writer t).fetching = none := by
    intro t
    rcases hdone t with hw | hw <;> rw [hw] <;> rfl
  have hserver : x.server.size = a.size := by
    refine le_antisymm h.stored.serverSize ?_
    rcases h.stored.reaches with hreach | ⟨t, m, hm, -⟩
    · exact hreach
    · rw [hunsent t] at hm
      cases hm
  refine ⟨a, { h.stored with serverSize := hserver, server := ?_, page := ?_ }, ?_⟩
  · intro p h0 hp
    have hon := h.stored.server (p - p % 4096) (by omega) (by omega) (by simp [hunsent]) (p % 4096) (by omega) (by omega)
    simp only [sub_add_cancel] at hon
    rwa [Writers.stored, if_pos (by omega)] at hon
  · intro b d hd
    obtain ⟨page, hp, rfl⟩ := Option.map_eq_some_iff.mp hd
    obtain ⟨h0, hal, hvalid, hinvalid⟩ := h.pages b page hp
    refine ⟨h0, hal, hvalid ?_⟩
    by_contra hv
    obtain ⟨t, ht⟩ := hinvalid (by simpa using hv)
    rw [hfetching t] at ht
    cases ht
  · intro t hidle
    rcases hdone t with hw | hw
    · exact absurd hw hidle
    · exact (h.progress t).returned _ hw rfl

end

theorem writers_kept (calls : Tid → ℤ × List Byte) (a : Contents) (x : State) (hd : Disjoint calls)
    (h : Reach (step calls) Orderly (Start a) x)
    (hdone : ∀ t, x.writer t = .idle ∨ x.writer t = .returned (calls t).2.length) : Kept calls x := by
  obtain ⟨a', hinv⟩ := h.invariant (P := fun x => ∃ a, Inv calls a x) (fun _ h0 => ⟨a, h0.inv⟩)
    fun _ _ _ hi hc hs => Inv.step hd hi hc hs
  exact hinv.kept hdone

def nothing : Contents := ⟨0, fun _ => 0⟩

def emptyFile : State := ⟨0, fun _ => none, ⟨0, fun _ => 0⟩, fun _ => .idle⟩

def appending : Tid → ℤ × List Byte
  | 0 => (0, [1, 2])
  | 1 => (2, [3])
  | _ => (0, [])

theorem start_emptyFile : Start nothing emptyFile where
  shows := by
    have h : Shows (uncached nothing) nothing := shows_uncached le_rfl (by decide) fun _ _ => rfl
    exact h
  page := by simp [emptyFile]
  writer := fun _ => rfl

theorem disjoint_appending : Disjoint appending := by
  intro t t' ht p hp hp'
  rcases t with _ | _ | t <;> rcases t' with _ | _ | t' <;> simp [InSpan, appending] at ht hp hp' <;> omega

def following : List Action :=
  [.call 0, .round 0, .attempt 0 true, .copyin 0 true, .call 1, .round 1, .attempt 1 true, .store 0, .writeReply 0 true,
    .round 0, .attempt 1 true, .copyin 1 true, .store 1, .writeReply 1 true, .round 1]

theorem meets_following : Meets (step appending) Orderly emptyFile following := by
  refine ⟨trivial, ?_, trivial, trivial, trivial, ?_, trivial, trivial, rfl, ?_, trivial, trivial, trivial, rfl, ?_, trivial⟩
  · rintro j ⟨⟩ -
    refine ⟨by decide, by decide, ?_⟩
    rintro (_ | t') ht hc
    · exact absurd rfl ht
    · cases hc
  · rintro j ⟨⟩ -
    refine ⟨by decide, by decide, ?_⟩
    rintro (_ | _ | t') ht hc
    · exact ⟨by decide, by rintro j ⟨⟩⟩
    · exact absurd rfl ht
    · cases hc
  · rintro j ⟨⟩ hs
    exact absurd rfl hs
  · rintro j ⟨⟩ hs
    exact absurd rfl hs

theorem writers_kept_following : ∃ x, Reach (step appending) Orderly (Start nothing) x ∧
    (readFromFile (fun _ _ => false) x.file 0 8).2 = (3, [1, 2, 3]) ∧ Kept appending x := by
  obtain ⟨x, hx, h0, h1, hidle, hread⟩ : ∃ x, exec (step appending) emptyFile following = some x ∧
      x.writer 0 = .returned 2 ∧ x.writer 1 = .returned 1 ∧ (∀ t, x.writer (t + 2) = .idle) ∧
      (readFromFile (fun _ _ => false) x.file 0 8).2 = (3, [1, 2, 3]) :=
    ⟨_, rfl, rfl, rfl, fun _ => rfl, rfl⟩
  have hreach := (Reach.start start_emptyFile).exec meets_following hx
  refine ⟨x, hreach, hread, writers_kept appending nothing x disjoint_appending hreach ?_⟩
  rintro (_ | _ | t)
  · exact .inr h0
  · exact .inr h1
  · exact .inl (hidle t)

-- Both find the file empty and sleep for want of a page; the second then waits for the page of the first.
def overtaking : List Action :=
  [.call 0, .round 0, .attempt 0 false, .call 1, .round 1, .attempt 1 false, .attempt 0 true, .copyin 0 true,
    .attempt 1 true, .store 0, .writeReply 0 true, .round 0, .attempt 1 true, .copyin 1 true, .store 1,
    .writeReply 1 true, .round 1]

theorem concurrent_write_lost : ∃ x, Reach (step appending) always (Start nothing) x ∧ Disjoint appending ∧
    (∀ t, x.writer t = .idle ∨ x.writer t = .returned (appending t).2.length) ∧
    (readFromFile (fun _ _ => false) x.file 0 8).2 = (3, [0, 0, 3]) ∧ ¬ Kept appending x := by
  obtain ⟨x, hx, h0, h1, hidle, hread, d, hpage, hd⟩ : ∃ x, exec (step appending) emptyFile overtaking = some x ∧
      x.writer 0 = .returned 2 ∧ x.writer 1 = .returned 1 ∧ (∀ t, x.writer (t + 2) = .idle) ∧
      (readFromFile (fun _ _ => false) x.file 0 8).2 = (3, [0, 0, 3]) ∧ ∃ d, x.file.page 0 = some d ∧ d 0 = 0 :=
    ⟨_, rfl, rfl, rfl, fun _ => rfl, rfl, _, rfl, rfl⟩
  have hreach := (Reach.start start_emptyFile).exec (meets_always _ _) hx
  refine ⟨x, hreach, disjoint_appending, ?_, hread, ?_⟩
  · rintro (_ | _ | t)
    · exact .inr h0
    · exact .inr h1
    · exact .inl (hidle t)
  · rintro ⟨a, hshows, hkept⟩
    have hslice := hkept 0 (by rw [h0]; simp)
    obtain ⟨-, -, hon⟩ := hshows.page 0 d hpage
    have hbyte : a.byte 0 = 0 := (hon 0 le_rfl (by decide)).symm.trans hd
    simp [appending, slice, List.range_succ, hbyte] at hslice

end CheviotKernel.FileData.Writers
