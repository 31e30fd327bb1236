import CheviotKernel.Library.Asking
import Mathlib.Algebra.GroupWithZero.Nat
import Mathlib.Data.List.Range

namespace CheviotKernel.MsgCopy

open Asking

def einval : Int := 22

def efault : Int := 14

-- An array of cnt io vectors; what lies at and after cnt is not part of the list.
structure Iov where
  cnt : ℕ
  size : ℕ → ℕ

inductive Event
  | entry (server : Bool) (i : ℕ)
  | copy (i offset x xoffset n : ℕ)
  deriving DecidableEq

structure Cursor where
  i : ℕ
  remaining : ℕ
  offset : ℕ

def seekFrom (size : ℕ → ℕ) (offset : ℕ) : ℕ → ℕ → ℕ → Option Cursor
  | 0, _, _ => none
  | k + 1, i, base =>
    if base ≤ offset ∧ offset < base + size i then some ⟨i, base + size i - offset, offset - base⟩
    else seekFrom size offset k (i + 1) (base + size i)

def seekiov (v : Iov) (offset : ℕ) : Option Cursor := seekFrom v.size offset v.cnt 0 0

def Cursor.advance (c : Cursor) (n : ℕ) : Cursor := ⟨c.i, c.remaining - n, c.offset + n⟩

def Cursor.enter (c : Cursor) (v : Iov) : Cursor := ⟨c.i + 1, v.size (c.i + 1), 0⟩

def Cursor.refill (c : Cursor) (v : Iov) (server used : Bool) : Cursor × List Event :=
  if used then (c.enter v, [.entry server (c.i + 1)]) else (c, [])

structure Flat where
  iov : Cursor
  nbytes : ℕ

def Flat.chunk (bufSz : ℕ) (s : Flat) : ℕ := min (bufSz - s.nbytes) s.iov.remaining

def Flat.after (v : Iov) (bufSz : ℕ) (s : Flat) : Cursor × List Event :=
  let c := s.iov.advance (s.chunk bufSz)
  c.refill v false (c.remaining = 0)

-- The answer of a round is whether ipcopy (copyout, copyin) succeeded.
def flatLoop (v : Iov) (bufSz : ℕ) : Loop Flat Bool Event Int where
  test s := if s.iov.i < v.cnt ∧ s.nbytes < bufSz ∧ bufSz - s.nbytes > 0 then none else some s.nbytes
  sends s := [.copy s.iov.i s.iov.offset 0 s.nbytes (s.chunk bufSz)]
  takes s ok := if ok then (s.after v bufSz).2 else []
  next s ok := if !ok then .inr (-efault) else .inl ⟨(s.after v bufSz).1, s.nbytes + s.chunk bufSz⟩

inductive Call
  | read
  | write

def Call.refuses (iovMax cnt : ℕ) : Call → Bool
  | .read => cnt = 0 ∨ cnt ≥ iovMax
  | .write => cnt = 0 ∨ cnt > iovMax

-- sys_readmsg over the send vectors of the message, sys_writemsg over its receive vectors.
def Call.flat (iovMax : ℕ) (v : Iov) (offset bufSz : ℕ) (call : Call) : List Bool → List Event × Option Int :=
  if call.refuses iovMax v.cnt then fun _ => ([], some (-einval))
  else
    match seekiov v offset with
    | none => fun _ => ([], some (-einval))
    | some c => (flatLoop v bufSz).run ⟨c, 0⟩

structure Pair where
  msg : Cursor
  server : Cursor
  nbytes : ℕ

def Pair.chunk (s : Pair) : ℕ := min s.msg.remaining s.server.remaining

def Pair.writeEntries (m : Iov) (s : Pair) : Pair × List Event :=
  let a := s.msg.advance s.chunk
  let c := s.server.advance s.chunk
  let a := a.refill m false (a.remaining = 0)
  -- The server's next size is read from the message's vectors.
  let b := c.refill m false (c.remaining = 0)
  (⟨a.1, b.1, s.nbytes + s.chunk⟩, a.2 ++ b.2)

def pairLoop (m x : Iov) (after : Pair → Pair × List Event) : Loop Pair Bool Event Int where
  test s := if s.msg.i < m.cnt ∧ s.server.i < x.cnt then none else some s.nbytes
  sends s := [.copy s.msg.i s.msg.offset s.server.i s.server.offset s.chunk]
  takes s ok := if ok then (after s).2 else []
  next s ok := if !ok then .inr s.nbytes else .inl (after s).1

def row (i offset n : ℕ) : List (ℕ × ℕ) := (List.range' offset n).map (i, ·)

def cells (size : ℕ → ℕ) : ℕ → ℕ → List (ℕ × ℕ)
  | 0, _ => []
  | k + 1, i => row i 0 (size i) ++ cells size k (i + 1)

def Iov.cells (v : Iov) : List (ℕ × ℕ) := MsgCopy.cells v.size v.cnt 0

def moved : List Event → List ((ℕ × ℕ) × ℕ × ℕ)
  | [] => []
  | .entry _ _ :: evs => moved evs
  | .copy i offset x xoffset n :: evs => (row i offset n).zip (row x xoffset n) ++ moved evs

def InLists (m x : Iov) (evs : List Event) : Prop :=
  ∀ server i, .entry server i ∈ evs → i < if server then x.cnt else m.cnt

-- With all memory accessible the call ends, having moved the bytes in order and read no entry past a list.
def Copies (m x : Iov) (offset : ℕ) (run : List Bool → List Event × Option Int) : Prop :=
  let bytes := (m.cells.drop offset).zip x.cells
  ∃ n evs, run (List.replicate n true) = (evs, some (bytes.length : Int)) ∧ moved evs = bytes ∧ InLists m x evs

section

variable {size : ℕ → ℕ} {offset k i base bufSz j c a b d e last : ℕ} {v m x : Iov} {s : Flat} {rest : List (ℕ × ℕ)}

theorem flatLoop_short (hi : s.iov.i < v.cnt) (h0 : s.nbytes < bufSz) (h : bufSz - s.nbytes < s.iov.remaining) :
    (flatLoop v bufSz).run s [true] =
      ([.copy s.iov.i s.iov.offset 0 s.nbytes (bufSz - s.nbytes)], some (bufSz : Int)) := by
  have hchunk : s.chunk bufSz = bufSz - s.nbytes := Nat.min_eq_left h.le
  have hn : (flatLoop v bufSz).next s true = .inl ⟨s.iov.advance (bufSz - s.nbytes), bufSz⟩ := by
    simp [flatLoop, Flat.after, Cursor.refill, hchunk, Cursor.advance, Nat.sub_ne_zero_of_lt h, Nat.add_sub_of_le h0.le]
  rw [run_goes_on (if_pos ⟨hi, h0, by omega⟩) hn, run_over (if_neg (by simp))]
  simp [flatLoop, Flat.after, Cursor.refill, Cursor.advance, hchunk, Nat.sub_ne_zero_of_lt h]

theorem flatLoop_whole {answers : List Bool} (hi : s.iov.i < v.cnt) (h0 : s.nbytes < bufSz)
    (h : s.iov.remaining ≤ bufSz - s.nbytes) :
    (flatLoop v bufSz).run s (true :: answers) =
      let r := (flatLoop v bufSz).run ⟨s.iov.enter v, s.nbytes + s.iov.remaining⟩ answers
      (.copy s.iov.i s.iov.offset 0 s.nbytes s.iov.remaining :: .entry false (s.iov.i + 1) :: r.1, r.2) := by
  have hchunk : s.chunk bufSz = s.iov.remaining := Nat.min_eq_right h
  have hn : (flatLoop v bufSz).next s true = .inl ⟨s.iov.enter v, s.nbytes + s.iov.remaining⟩ := by
    simp [flatLoop, Flat.after, Cursor.refill, hchunk, Cursor.advance, Cursor.enter]
  rw [run_goes_on (if_pos ⟨hi, h0, by omega⟩) hn]
  simp [flatLoop, Flat.after, Cursor.refill, Cursor.advance, hchunk]

theorem inLists_cons {evs : List Event} :
    InLists m x (.copy a b c d e :: .entry false i :: evs) ↔ i < m.cnt ∧ InLists m x evs := by
  simp [InLists, and_assoc]

def FlatSpec (v : Iov) (bufSz : ℕ) (s : Flat) (rest : List (ℕ × ℕ)) (last : ℕ) : Prop :=
  ∃ n evs, (flatLoop v bufSz).run s (List.replicate n true) =
      (evs, some ((s.nbytes + min rest.length (bufSz - s.nbytes) : ℕ) : Int)) ∧
    moved evs = rest.zip (row 0 s.nbytes (bufSz - s.nbytes)) ∧
    (InLists v ⟨1, fun _ => bufSz⟩ evs ↔
      bufSz - s.nbytes < rest.length ∨ bufSz - s.nbytes = rest.length ∧ last = 0)

theorem flatSpec_full (h : bufSz ≤ s.nbytes) (hl : last ≤ rest.length) : FlatSpec v bufSz s rest last := by
  have hz : bufSz - s.nbytes = 0 := by omega
  refine ⟨0, [], ?_, by simp [hz, moved, row], iff_of_true (fun _ _ hin => by simp at hin) (by omega)⟩
  rw [run_over (if_neg (by omega)), hz]
  simp

section

variable (l : List (ℕ × ℕ)) (x y i offset : ℕ)

@[simp] theorem length_row (n : ℕ) : (row i offset n).length = n := by
  simp [row]

theorem row_add (m n : ℕ) : row i offset (m + n) = row i offset m ++ row i (offset + m) n := by
  rw [row, ← List.range'_append_1, List.map_append]
  rfl

theorem zip_row (h : a ≤ b) : (row i offset a ++ l).zip (row x y b) =
      (row i offset a).zip (row x y a) ++ l.zip (row x (y + a) (b - a)) := by
  rw [← Nat.add_sub_of_le h, row_add, List.zip_append (by simp), Nat.add_sub_cancel_left]

theorem zip_row_short (h : b ≤ a) : (row i offset a ++ l).zip (row x y b) = (row i offset b).zip (row x y b) := by
  rw [← Nat.add_sub_of_le h, row_add, List.append_assoc, zip_row _ _ _ _ _ le_rfl]
  simp [row]

end

theorem le_length_cells (size : ℕ → ℕ) (j i : ℕ) : size (i + j) ≤ (cells size (j + 1) i).length := by
  induction j generalizing i with
  | zero => simp [cells]
  | succ j ih =>
    have hj := ih (i + 1)
    rw [show i + 1 + j = i + (j + 1) by omega] at hj
    rw [cells, List.length_append]
    omega

theorem seekFrom_spec (h : base ≤ offset) (hlt : offset - base < (cells size k i).length) :
    ∃ c j, seekFrom size offset k i base = some c ∧ c.i + j + 1 = i + k ∧ 0 < c.remaining ∧ c.remaining ≤ size c.i ∧
      (cells size k i).drop (offset - base) = row c.i c.offset c.remaining ++ cells size j (c.i + 1) := by
  induction k generalizing i base with
  | zero => simp [cells] at hlt
  | succ k ih =>
    unfold seekFrom
    split_ifs with hin
    · refine ⟨_, k, rfl, by dsimp; omega, by dsimp; omega, by dsimp; omega, ?_⟩
      obtain ⟨d, rfl⟩ := Nat.exists_eq_add_of_le h
      obtain ⟨r, hr⟩ := Nat.exists_eq_add_of_lt hin.2
      have hs : size i = d + (r + 1) := by omega
      rw [cells, hs, row_add, List.append_assoc, List.drop_left' (by simp)]
      simp only [Nat.zero_add]
      congr 2 <;> omega
    · have hle : base + size i ≤ offset := by omega
      rw [cells, List.length_append, length_row] at hlt
      obtain ⟨c, j, hc, hj, h0, h1, hd⟩ := ih (i := i + 1) hle (by omega)
      refine ⟨c, j, hc, by omega, h0, h1, ?_⟩
      rw [← hd, cells, List.drop_append, List.drop_eq_nil_of_le (by rw [length_row]; omega), length_row, Nat.sub_sub]
      rfl

theorem flatSpec_whole (hi : s.iov.i + 1 < v.cnt) (h0 : s.nbytes < bufSz) (h : s.iov.remaining ≤ bufSz - s.nbytes)
    (hrest : FlatSpec v bufSz ⟨s.iov.enter v, s.nbytes + s.iov.remaining⟩ rest last) :
    FlatSpec v bufSz s (row s.iov.i s.iov.offset s.iov.remaining ++ rest) last := by
  obtain ⟨n, evs, hrun, hmoved, hin⟩ := hrest
  refine ⟨n + 1, .copy s.iov.i s.iov.offset 0 s.nbytes s.iov.remaining :: .entry false (s.iov.i + 1) :: evs, ?_, ?_, ?_⟩
  · rw [List.replicate_succ, flatLoop_whole (by omega) h0 h, hrun]
    dsimp only
    rw [List.length_append, length_row]
    congr 3
    omega
  · rw [moved, moved, hmoved, zip_row _ _ _ _ _ h, Nat.sub_sub]
  · rw [inLists_cons, hin, List.length_append, length_row]
    dsimp only
    omega

theorem flatSpec_last (hi : s.iov.i + 1 = v.cnt) (h0 : s.nbytes < bufSz) (h : s.iov.remaining ≤ bufSz - s.nbytes) :
    FlatSpec v bufSz s (row s.iov.i s.iov.offset s.iov.remaining) s.iov.remaining := by
  refine ⟨1, [.copy s.iov.i s.iov.offset 0 s.nbytes s.iov.remaining, .entry false (s.iov.i + 1)], ?_, ?_, ?_⟩
  · rw [List.replicate_one, flatLoop_whole (by omega) h0 h, run_over (if_neg (by simp [Cursor.enter, hi]))]
    rw [length_row, Nat.min_eq_left h]
  · have hz := zip_row [] 0 s.nbytes s.iov.i s.iov.offset h
    rw [List.append_nil] at hz
    rw [hz]
    rfl
  · rw [inLists_cons, length_row]
    omega

theorem flatSpec_short (hi : s.iov.i < v.cnt) (h0 : s.nbytes < bufSz) (h : bufSz - s.nbytes < s.iov.remaining) :
    FlatSpec v bufSz s (row s.iov.i s.iov.offset s.iov.remaining ++ rest) last := by
  have hlen : bufSz - s.nbytes < (row s.iov.i s.iov.offset s.iov.remaining ++ rest).length := by
    rw [List.length_append, length_row]
    omega
  refine ⟨1, [.copy s.iov.i s.iov.offset 0 s.nbytes (bufSz - s.nbytes)], ?_, ?_, iff_of_true ?_ (.inl hlen)⟩
  · rw [List.replicate_one, flatLoop_short hi h0 h, Nat.min_eq_right hlen.le, Nat.add_sub_of_le h0.le]
  · rw [zip_row_short _ _ _ _ _ h.le, moved, moved, List.append_nil]
  · intro _ _ hin
    simp at hin

theorem flatLoop_run (hj : s.iov.i + j + 1 = v.cnt) :
    FlatSpec v bufSz s (row s.iov.i s.iov.offset s.iov.remaining ++ cells v.size j (s.iov.i + 1))
      (if j = 0 then s.iov.remaining else v.size (s.iov.i + j)) := by
  induction j generalizing s with
  | zero =>
    rcases Nat.lt_or_ge s.nbytes bufSz with h0 | hfull
    · rcases Nat.lt_or_ge (bufSz - s.nbytes) s.iov.remaining with hlt | hle
      · exact flatSpec_short (by omega) h0 hlt
      · rw [cells, List.append_nil]
        exact flatSpec_last hj h0 hle
    · exact flatSpec_full hfull (by simp)
  | succ j ih =>
    have hlast : s.iov.i + (j + 1) = s.iov.i + 1 + j := by omega
    rw [if_neg (Nat.succ_ne_zero j), hlast]
    rcases Nat.lt_or_ge s.nbytes bufSz with h0 | hfull
    · rcases Nat.lt_or_ge (bufSz - s.nbytes) s.iov.remaining with hlt | hle
      · exact flatSpec_short (by omega) h0 hlt
      · refine flatSpec_whole (by omega) h0 hle ?_
        have hrest := ih (s := ⟨s.iov.enter v, s.nbytes + s.iov.remaining⟩) (by dsimp [Cursor.enter]; omega)
        cases j <;> exact hrest
    · refine flatSpec_full hfull ?_
      have hle := le_length_cells v.size j (s.iov.i + 1)
      rw [List.length_append]
      omega

end

theorem not_copies_refused (m x : Iov) (offset : ℕ) : ¬ Copies m x offset fun _ => ([], some (-einval)) := by
  rintro ⟨n, evs, hrun, -⟩
  have hlen := Option.some.inj (Prod.mk.inj hrun).2
  unfold einval at hlen
  omega

theorem Copies.of_run {m x : Iov} {offset n : ℕ} {run : List Bool → List Event × Option Int} {evs : List Event} {a : Int}
    (h : Copies m x offset run) (hrun : run (List.replicate n true) = (evs, some a))
    (hmore : ∀ answers more e b, run answers = (e, some b) → run (answers ++ more) = (e, some b)) :
    moved evs = (m.cells.drop offset).zip x.cells ∧ InLists m x evs := by
  obtain ⟨k, evs', hk, hmoved⟩ := h
  have h1 := hmore _ (List.replicate k true) _ _ hrun
  have h2 := hmore _ (List.replicate n true) _ _ hk
  rw [← List.replicate_add, Nat.add_comm, List.replicate_add, h2] at h1
  cases h1
  exact hmoved

theorem flat_copies_iff (iovMax : ℕ) (call : Call) (v : Iov) (offset bufSz : ℕ) (h0 : 0 < v.cnt) (hmax : v.cnt ≤ iovMax)
    (ho : offset < v.cells.length) :
    Copies v ⟨1, fun _ => bufSz⟩ offset (call.flat iovMax v offset bufSz) ↔
      (call = .read → v.cnt < iovMax) ∧
        (bufSz < v.cells.length - offset ∨ bufSz = v.cells.length - offset ∧ v.size (v.cnt - 1) = 0) := by
  have hlt : offset - 0 < (cells v.size v.cnt 0).length := ho
  obtain ⟨c, j, hc, hj, hpos, hsize, hd⟩ := seekFrom_spec (Nat.zero_le offset) hlt
  have hflat : FlatSpec v bufSz ⟨c, 0⟩ _ _ := flatLoop_run (j := j) (by dsimp; omega)
  obtain ⟨n, evs, hrun, hmoved, hin⟩ := hflat
  have hlast : (if j = 0 then c.remaining else v.size (c.i + j)) = 0 ↔ v.size (v.cnt - 1) = 0 := by
    rw [show v.cnt - 1 = c.i + j by omega]
    split_ifs with hz
    · subst hz
      exact iff_of_false (by omega) (by rw [Nat.add_zero]; omega)
    · rfl
  have hcells : Iov.cells ⟨1, fun _ => bufSz⟩ = row 0 0 bufSz := List.append_nil _
  unfold Call.flat
  split_ifs with hr
  · cases call with
    | read =>
      have hge : ¬ v.cnt < iovMax := by
        simp [Call.refuses] at hr
        omega
      exact iff_of_false (not_copies_refused _ _ _) fun h => hge (h.1 rfl)
    | write =>
      simp [Call.refuses] at hr
      omega
  · have hcnt : call = .read → v.cnt < iovMax := by
      rintro rfl
      simp [Call.refuses] at hr
      omega
    have hdrop : v.cells.drop offset = row c.i c.offset c.remaining ++ cells v.size j (c.i + 1) := hd
    rw [seekiov, hc]
    dsimp only [Nat.sub_zero] at hin hrun hmoved ⊢
    rw [hlast, ← hdrop, List.length_drop] at hin
    constructor
    · intro h
      exact ⟨hcnt, hin.mp (h.of_run hrun fun _ more _ _ he => run_append he more).2⟩
    · rintro ⟨-, hcond⟩
      refine ⟨n, evs, ?_, ?_, hin.mpr hcond⟩
      · rw [hrun, hcells, hdrop, List.length_zip, length_row, Nat.zero_add]
      · rw [hmoved, hcells, hdrop]

theorem three_bytes_of_four_copied : Copies ⟨2, fun _ => 2⟩ ⟨1, fun _ => 3⟩ 0 (Call.read.flat 4 ⟨2, fun _ => 2⟩ 0 3) :=
  (flat_copies_iff 4 .read ⟨2, fun _ => 2⟩ 0 3 (by decide) (by decide) (by decide)).mpr
    ⟨fun _ => by decide, .inl (by decide)⟩

theorem whole_message_reads_past_list :
    ¬ InLists ⟨1, fun _ => 1⟩ ⟨1, fun _ => 1⟩ (Call.write.flat 4 ⟨1, fun _ => 1⟩ 0 1 [true]).1 := by
  intro h
  exact absurd (h false 1 (by decide)) (by decide)

section Vectors

variable {m x v : Iov} {s : Pair} {server used : Bool}

section

variable (hm : s.msg.i < m.cnt) (hx : s.server.i < x.cnt)
include hm hx

end

end Vectors

-- How many empty vectors stand at the end.
def idle : List ℕ → ℕ
  | [] => 0
  | a :: as => if a + as.sum = 0 then as.length + 1 else idle as

-- Vectors of sizes as are not used up when those of sizes bs are.
def Outlasts (as bs : List ℕ) : Prop := bs.sum < as.sum ∨ bs.sum = as.sum ∧ idle bs < idle as

-- The sizes and the bytes of the j vectors from a cursor on.
def Cursor.sizes (c : Cursor) (size : ℕ → ℕ) : ℕ → List ℕ
  | 0 => []
  | j + 1 => c.remaining :: (List.range' (c.i + 1) j).map size

def Cursor.rest (c : Cursor) (size : ℕ → ℕ) : ℕ → List (ℕ × ℕ)
  | 0 => []
  | j + 1 => row c.i c.offset c.remaining ++ cells size j (c.i + 1)

-- The server's vectors as sys_writemsgiov takes them.
def taken (m x : Iov) : Iov := ⟨x.cnt, fun k => if k = 0 then x.size 0 else m.size k⟩

def Iov.idle (v : Iov) : ℕ := MsgCopy.idle ((List.range' 0 v.cnt).map v.size)

section Writes

variable {as bs : List ℕ} {a b : ℕ} {m x : Iov} {s : Pair} {j k : ℕ}

def WriteSpec (m x : Iov) (s : Pair) (j k : ℕ) : Prop :=
  let msg := s.msg.rest m.size j
  let server := s.server.rest (taken m x).size k
  ∃ n evs, (pairLoop m x (Pair.writeEntries m)).run s (List.replicate n true) =
      (evs, some ((s.nbytes + min msg.length server.length : ℕ) : Int)) ∧ moved evs = msg.zip server ∧
    (InLists m x evs ↔ j = 0 ∨ k = 0 ∨
      x.cnt < m.cnt ∧ Outlasts (s.msg.sizes m.size j) (s.server.sizes (taken m x).size k))

theorem WriteSpec.round {s' : Pair} {entries : List Event} {j' k' : ℕ} (h : WriteSpec m x s' j' k')
    (hm : s.msg.i < m.cnt) (hx : s.server.i < x.cnt) (hs : s.writeEntries m = (s', entries)) (hmoved : moved entries = [])
    (hzip : (s.msg.rest m.size j).zip (s.server.rest (taken m x).size k) =
      (row s.msg.i s.msg.offset s.chunk).zip (row s.server.i s.server.offset s.chunk) ++
        (s'.msg.rest m.size j').zip (s'.server.rest (taken m x).size k'))
    (hin : InLists m x entries ∧ (j' = 0 ∨ k' = 0 ∨ x.cnt < m.cnt ∧ Outlasts (s'.msg.sizes m.size j')
        (s'.server.sizes (taken m x).size k')) ↔ j = 0 ∨ k = 0 ∨
      x.cnt < m.cnt ∧ Outlasts (s.msg.sizes m.size j) (s.server.sizes (taken m x).size k)) : WriteSpec m x s j k := by
  obtain ⟨n, evs, hrun, hrest, hlists⟩ := h
  have hnbytes : s'.nbytes = s.nbytes + s.chunk := (congrArg (fun r => r.1.nbytes) hs).symm
  have hskip (l : List Event) (h : moved l = []) : moved (l ++ evs) = moved evs := by
    induction l with
    | nil => rfl
    | cons e l ih =>
      cases e with
      | entry server i => exact ih h
      | copy i o y p n =>
        simp only [moved, List.append_eq_nil_iff] at h
        simp only [List.cons_append, moved, h.1, ih h.2, List.nil_append]
  have hlen := congrArg List.length hzip
  simp only [List.length_append, List.length_zip, length_row, min_self] at hlen
  refine ⟨n + 1, .copy s.msg.i s.msg.offset s.server.i s.server.offset s.chunk :: (entries ++ evs), ?_, ?_, ?_⟩
  · have hn : (pairLoop m x (Pair.writeEntries m)).next s true = .inl s' := congrArg Sum.inl (congrArg Prod.fst hs)
    rw [List.replicate_succ, run_goes_on (if_pos ⟨hm, hx⟩) hn, hrun, hnbytes, hlen, Nat.add_assoc]
    simp [pairLoop, hs]
  · rw [moved, hskip _ hmoved, hrest, hzip]
  · rw [← hin, ← hlists]
    simp only [InLists, List.mem_cons, List.mem_append, reduceCtorEq, false_or, or_imp, forall_and]

end Writes

end CheviotKernel.MsgCopy

namespace CheviotKernel.MsgCopy.Words

-- off_t and size_t are 32-bit words: the first comparison is signed, the second unsigned.
def seekLoop (offset : BitVec 32) : List (BitVec 32) → ℕ → BitVec 32 → Option Cursor
  | [], _, _ => none
  | size :: rest, i, base =>
    if base.sle offset ∧ offset < base + size then
      some ⟨i, (base + size - offset).toNat, (offset - base).toNat⟩
    else seekLoop offset rest (i + 1) (base + size)

inductive Seek
  | panic
  | ret (r : Except ℤ Cursor)

def seekiov (iov : List (BitVec 32)) (offset : BitVec 32) : Seek :=
  if offset.toInt < 0 then .ret (.error (-einval))
  else if iov.length = 0 then .panic
  else
    match seekLoop offset iov 0 0#32 with
    | none => .ret (.error (-einval))
    | some c => .ret (.ok c)

def total (iov : List (BitVec 32)) : ℕ := (iov.map BitVec.toNat).sum

def sizes (iov : List (BitVec 32)) : Iov := ⟨iov.length, fun i => (iov.getD i 0).toNat⟩

section

variable {size : ℕ → ℕ} {i : ℕ}

theorem sizes_tail {w : BitVec 32} {rest : List (BitVec 32)} (h : ∀ j, size (i + j) = (sizes (w :: rest)).size j) :
    ∀ j, size (i + 1 + j) = (sizes rest).size j :=
  fun j => (congrArg size (by omega)).trans (h (j + 1))

/-- While the sizes add up to less than `2 ^ 31`, the comparisons and sums on words are those on numbers. -/
theorem seekLoop_eq_seekFrom {offset base : BitVec 32} {iov : List (BitVec 32)} (ho : offset.toNat < 2 ^ 31)
    (hb : base.toNat ≤ offset.toNat) (ht : base.toNat + total iov < 2 ^ 31)
    (hsize : ∀ j, size (i + j) = (sizes iov).size j) :
    seekLoop offset iov i base = seekFrom size offset.toNat iov.length i base.toNat := by
  induction iov generalizing i base with
  | nil => rfl
  | cons w rest ih =>
    have hw : size i = w.toNat := hsize 0
    have hc : total (w :: rest) = w.toNat + total rest := List.sum_cons
    have hadd : (base + w).toNat = base.toNat + w.toNat := BitVec.toNat_add_of_lt (by omega)
    have hle : base.sle offset := by
      rw [BitVec.sle_iff_toInt_le, BitVec.toInt_eq_toNat_of_lt (by omega), BitVec.toInt_eq_toNat_of_lt (by omega)]
      exact_mod_cast hb
    rw [seekLoop, List.length_cons, seekFrom, hw, ← hadd]
    by_cases hlt : offset < base + w
    · rw [if_pos ⟨hle, hlt⟩, if_pos ⟨hb, hlt⟩, BitVec.toNat_sub_of_le (BitVec.le_of_lt hlt),
        BitVec.toNat_sub_of_le (BitVec.le_def.mpr hb)]
    · rw [if_neg (fun h => hlt h.2), if_neg (fun h => hlt h.2)]
      rw [BitVec.lt_def] at hlt
      exact ih (by omega) (by omega) (sizes_tail hsize)

theorem seekFrom_split {offset base : ℕ} {iov : List (BitVec 32)} (hb : base ≤ offset)
    (hsize : ∀ j, size (i + j) = (sizes iov).size j) :
    match seekFrom size offset iov.length i base with
    | none => base + total iov ≤ offset
    | some c => ∃ pre w post, iov = pre ++ w :: post ∧ c.i = i + pre.length ∧
        offset = base + total pre + c.offset ∧ c.offset + c.remaining = w.toNat ∧ 0 < c.remaining := by
  induction iov generalizing i base with
  | nil => exact hb
  | cons w rest ih =>
    have hw : size i = w.toNat := hsize 0
    have hc (l : List (BitVec 32)) : total (w :: l) = w.toNat + total l := List.sum_cons
    rw [List.length_cons, seekFrom, hw]
    by_cases hlt : offset < base + w.toNat
    · rw [if_pos ⟨hb, hlt⟩]
      refine ⟨[], w, rest, rfl, rfl, ?_, ?_, ?_⟩ <;> simp only [total, List.map_nil, List.sum_nil] <;> omega
    · rw [if_neg (fun h => hlt h.2)]
      have hrest := @ih (i + 1) (base + w.toNat) (by omega) (sizes_tail hsize)
      rw [hc]
      split at hrest
      · omega
      · obtain ⟨pre, v, post, rfl, hi, hs, hr⟩ := hrest
        refine ⟨w :: pre, v, post, rfl, ?_, ?_, hr⟩
        · rw [hi, List.length_cons]
          omega
        · rw [hs, hc]
          omega

end

theorem seekiov_eq {iov : List (BitVec 32)} {offset : BitVec 32} (hne : iov ≠ []) (ht : total iov < 2 ^ 31)
    (hpos : ¬ offset.toInt < 0) : seekiov iov offset =
      match MsgCopy.seekiov (sizes iov) offset.toNat with
      | none => .ret (.error (-einval))
      | some c => .ret (.ok c) := by
  have hlt : offset.toNat < 2 ^ 31 := by
    rw [BitVec.toInt_eq_toNat_cond] at hpos
    split_ifs at hpos <;> omega
  have hloop : seekLoop offset iov 0 0#32 = seekFrom (sizes iov).size offset.toNat iov.length 0 0 :=
    seekLoop_eq_seekFrom hlt (Nat.zero_le _) (by simpa using ht) fun j => by rw [Nat.zero_add]
  rw [seekiov, if_neg hpos, if_neg (by simpa using hne), hloop]
  rfl

theorem seekiov_within_total (iov : List (BitVec 32)) (hne : iov ≠ []) (ht : total iov < 2 ^ 31) (offset : BitVec 32) :
    if 0 ≤ offset.toInt ∧ offset.toInt < total iov then
      ∃ pre size post remaining position, iov = pre ++ size :: post ∧
        seekiov iov offset = .ret (.ok ⟨pre.length, remaining, position⟩) ∧
        offset.toInt = total pre + position ∧ position + remaining = size.toNat ∧ 0 < remaining
    else seekiov iov offset = .ret (.error (-einval)) := by
  by_cases hneg : offset.toInt < 0
  · rw [if_neg (by omega), seekiov, if_pos hneg]
  have hint : offset.toInt = offset.toNat := by
    rw [BitVec.toInt_eq_toNat_cond] at hneg ⊢
    split_ifs at hneg ⊢ <;> omega
  have hspec := @seekFrom_split (sizes iov).size 0 offset.toNat 0 iov (Nat.zero_le _) fun j => by rw [Nat.zero_add]
  rw [seekiov_eq hne ht hneg, MsgCopy.seekiov, show (sizes iov).cnt = iov.length from rfl, hint]
  split at hspec
  · rw [if_neg (by omega)]
  · next c _ =>
    obtain ⟨pre, size, post, rfl, hi, hs, hr⟩ := hspec
    have htot : total (pre ++ size :: post) = total pre + (size.toNat + total post) := by simp [total]
    have hpre : c.i = pre.length := by omega
    rw [if_pos (by omega)]
    exact ⟨pre, size, post, c.remaining, c.offset, rfl, by rw [← hpre], by omega, hr⟩

theorem seekiov_past_an_empty_vector : seekiov [2, 0, 3] 2 = .ret (.ok ⟨2, 3, 0⟩) ∧
    ∃ pre size post remaining position, [2, 0, 3] = pre ++ size :: post ∧
      seekiov [2, 0, 3] 2 = .ret (.ok ⟨pre.length, remaining, position⟩) ∧
      (2 : BitVec 32).toInt = total pre + position ∧ position + remaining = size.toNat ∧ 0 < remaining :=
  ⟨rfl, seekiov_within_total [2, 0, 3] (by simp) (by decide) 2⟩

end CheviotKernel.MsgCopy.Words
