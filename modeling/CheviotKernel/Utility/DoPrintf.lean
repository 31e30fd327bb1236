import Mathlib.Algebra.Group.Int.Defs
import Mathlib.Data.List.Basic
import Mathlib.Data.List.Induction
import Mathlib.Logic.Function.Basic
import Mathlib.Tactic.IntervalCases

namespace CheviotKernel.DoPrintf

-- One slot of the va_list: its word, and for %s the memory at that address.
structure Arg where
  word : BitVec 32
  text : List Char

structure Flags where
  left : Bool := false
  sign : Bool := false
  zero : Bool := false
  uppercase : Bool := false
  alternate : Bool := false

def Flags.read (f : Flags) : Char → Option Flags
  | '-' => some { f with left := true }
  | '+' => some { f with sign := true }
  | '#' => some { f with alternate := true }
  | '0' => some { f with zero := true }
  | _ => none

def nul : Char := Char.ofNat 0

def conv (i : ℕ) : Char := "0123456789abcdef@OVRPHLOW".toList.getD i nul

def unsignedLoop (base : ℕ) : ℕ → ℕ → List Char
  | 0, _ => []
  | k + 1, n => conv (n % base) :: if n / base > 0 then unsignedLoop base k (n / base) else []

def signedLoop (base : ℕ) : ℕ → Bool → ℕ → ℕ → List Char
  | 0, _, _, _ => []
  | k + 1, first, carry, n =>
    (if first ∧ carry = 1 then conv ((n % base + carry) % base) else conv ((n + carry) % base)) ::
      if n / base > 0 then signedLoop base k false (if n % base + carry ≥ base then 1 else 0) (n / base) else []

-- A 32-bit value has at most 32 digits; the buffer ends with the sign.
def uitoA32 (n : BitVec 32) (base : ℕ) : List Char := unsignedLoop base 32 n.toNat ++ ['+']

def itoA32 (n : BitVec 32) (base : ℕ) : List Char :=
  if n.toInt < 0 then
    (if n.toInt = -2 ^ 31 then signedLoop base 32 true 1 (-(n.toInt + 1)).toNat
      else signedLoop base 32 true 0 (-n.toInt).toNat) ++ ['-']
  else signedLoop base 32 true 0 n.toInt.toNat ++ ['+']

def printFormattedInteger (buf : List Char) (base : ℕ) (f : Flags) (width : ℤ) : List Char :=
  let sign := buf.getLastD nul
  let signstr := if sign = '-' then ['-'] else if f.sign then [if sign = '+' then '+' else '-'] else []
  let annotatestr :=
    if f.alternate then if base = 16 then ['0', 'x'] else if base = 8 then ['0'] else [] else []
  let len := buf.length - 1 + signstr.length + annotatestr.length
  let padding := if len < width then (width - len).toNat else 0
  List.replicate (if f.zero ∨ f.left then 0 else padding) ' ' ++ signstr ++ annotatestr ++
    List.replicate (if f.zero then padding else 0) '0' ++
    -- Char.toUpper takes 32 off the codes of 'a' to 'z'.
    buf.dropLast.reverse.map (if f.uppercase then Char.toUpper else id) ++
    List.replicate (if ¬ f.zero ∧ f.left then padding else 0) ' '

def convert (f : Flags) (width : ℤ) (arg : Arg) : Char → List Char
  | '%' => ['%']
  | 'c' => [if Char.ofNat (arg.word.toNat % 256) = nul then '#' else Char.ofNat (arg.word.toNat % 256)]
  | 's' => arg.text.takeWhile (· ≠ nul)
  | 'X' => printFormattedInteger (uitoA32 arg.word 16) 16 { f with uppercase := true } width
  | 'x' | 'p' => printFormattedInteger (uitoA32 arg.word 16) 16 f width
  | 'd' | 'i' => printFormattedInteger (itoA32 arg.word 10) 10 f width
  | 'u' => printFormattedInteger (uitoA32 arg.word 10) 10 f width
  | 'o' => printFormattedInteger (itoA32 arg.word 8) 8 f width
  | _ => []

def takes (c : Char) : ℕ := if c ∈ "csXxpdiuo".toList then 1 else 0

def isDigit (c : Char) : Bool := '0' ≤ c ∧ c ≤ '9'

def widen (width : ℤ) (c : Char) : ℤ := (width * 10 + (c.toNat - 48)).bmod (2 ^ 32)

-- Which of the three loops reads the next character.
inductive At
  | text
  | flags (f : Flags)
  | width (f : Flags) (width : ℤ)

-- The format is the memory from the pointer on: a conversion cut short by the terminator steps over it.
def printLoop (ap : ℕ → Arg) : At → ℕ → List Char → List Char
  | _, _, [] => []
  | .text, n, c :: rest =>
    if c = nul then [] else if c = '%' then printLoop ap (.flags {}) n rest else c :: printLoop ap .text n rest
  | .flags f, n, c :: rest =>
    match f.read c with
    | some f => printLoop ap (.flags f) n rest
    | none =>
      if isDigit c then printLoop ap (.width f (widen 0 c)) n rest
      else convert f 1 (ap n) c ++ printLoop ap .text (n + takes c) rest
  | .width f width, n, c :: rest =>
    if isDigit c then printLoop ap (.width f (widen width c)) n rest
    else convert f width (ap n) c ++ printLoop ap .text (n + takes c) rest

def output (format : List Char) (ap : ℕ → Arg) : List Char := printLoop ap .text 0 format

def doPrintf (format : List Char) (ap : ℕ → Arg) : List Char := output format ap ++ [nul]

-- What has been stored at each offset from str.
@[ext]
structure SnprintfArg where
  str : ℤ → Option Char
  size : ℤ
  pos : ℤ

def snprintfPrintChar (sa : SnprintfArg) (ch : Char) : SnprintfArg where
  str :=
    if sa.pos < sa.size then Function.update sa.str sa.pos (some ch)
    else if sa.pos = sa.size then Function.update sa.str sa.size (some nul) else sa.str
  size := sa.size
  pos := (sa.pos + 1).bmod (2 ^ 32)

def snprintf (size : BitVec 32) (format : List Char) (ap : ℕ → Arg) : (ℤ → Option Char) × ℤ :=
  let sa := (doPrintf format ap).foldl snprintfPrintChar ⟨fun _ => none, size.toInt, 0⟩
  (sa.str, sa.pos - 1)

-- The va_list is the caller's.
def vsnprintf (size : BitVec 32) (format : List Char) (args : ℕ → Arg) : (ℤ → Option Char) × ℤ :=
  snprintf size format args

def Bounded (size : ℕ) (full : List Char) (str : ℤ → Option Char) : Prop :=
  (∀ i, str i ≠ none → 0 ≤ i ∧ i < size) ∧
    ∀ i ≤ (full.take (size - 1)).length, str i = (full.take (size - 1) ++ [nul])[i]?

def cells (cs : List Char) (i : ℤ) : Option Char := if i < 0 then none else cs[i.toNat]?

inductive Flag
  | left
  | sign
  | alternate
  | zero
  deriving DecidableEq

def Flag.char : Flag → Char
  | .left => '-'
  | .sign => '+'
  | .alternate => '#'
  | .zero => '0'

def Flags.add (f : Flags) (fs : List Flag) : Flags where
  left := f.left || .left ∈ fs
  sign := f.sign || .sign ∈ fs
  zero := f.zero || .zero ∈ fs
  uppercase := f.uppercase
  alternate := f.alternate || .alternate ∈ fs

inductive Conversion
  | d
  | i
  | o
  | u
  | x
  | X
  deriving DecidableEq

def Conversion.char : Conversion → Char
  | .d => 'd'
  | .i => 'i'
  | .o => 'o'
  | .u => 'u'
  | .x => 'x'
  | .X => 'X'

def Conversion.base : Conversion → ℕ
  | .o => 8
  | .x | .X => 16
  | _ => 10

def Conversion.value (word : BitVec 32) : Conversion → ℤ
  | .d | .i | .o => word.toInt
  | _ => word.toNat

def Conversion.annotation : Conversion → List Char
  | .o => ['0']
  | .x | .X => ['0', 'x']
  | _ => []

def Conversion.digits (v : ℤ) (k : Conversion) : List Char :=
  (Nat.toDigits k.base v.natAbs).map (if k = .X then Char.toUpper else id)

def Flags.signOf (f : Flags) (v : ℤ) : List Char := if v < 0 then ['-'] else if f.sign then ['+'] else []

def Flags.annotate (f : Flags) (k : Conversion) : List Char := if f.alternate then k.annotation else []

def Padded (f : Flags) (k : Conversion) (v : ℤ) (out : List Char) : Prop :=
  ∃ fore zeros tail, out = List.replicate fore ' ' ++ f.signOf v ++ f.annotate k ++ List.replicate zeros '0' ++
    k.digits v ++ List.replicate tail ' '

def minimal (f : Flags) (k : Conversion) (v : ℤ) : ℕ := (f.signOf v ++ f.annotate k ++ k.digits v).length

def widthText (w : ℕ) : List Char := if w = 0 then [] else Nat.toDigits 10 w

variable {base k n w : ℕ} {first : Bool} {f : Flags} {q : Conversion} {width v : ℤ} {buf cs : List Char} {c : Char}
  {sa : SnprintfArg} {size i : ℤ}

theorem snprintfPrintChar_str : (snprintfPrintChar sa c).str i =
    if i = sa.pos ∧ sa.pos ≤ sa.size then some (if sa.pos < sa.size then c else nul) else sa.str i := by
  simp only [snprintfPrintChar]
  grind [Function.update_apply]

theorem foldl_fits (h : (cs.length : ℤ) ≤ size) (hs : size < 2 ^ 31) :
    cs.foldl snprintfPrintChar ⟨fun _ => none, size, 0⟩ = ⟨cells cs, size, cs.length⟩ := by
  induction cs using List.reverseRecOn with
  | nil => simp [cells, funext_iff]
  | append_singleton cs c ih =>
    rw [List.length_append, List.length_singleton] at h ⊢
    have hpos : ((cs.length : ℤ) + 1).bmod (2 ^ 32) = cs.length + 1 := Int.bmod_eq_of_le_mul_two (by omega) (by omega)
    rw [List.foldl_append, ih (by omega), List.foldl_cons, List.foldl_nil]
    refine SnprintfArg.ext (funext fun i => ?_) rfl ?_
    · rw [snprintfPrintChar_str]
      grind [cells]
    · rw [snprintfPrintChar, hpos]
      rfl

theorem foldl_keeps (h : sa.str i ≠ none) : (cs.foldl snprintfPrintChar sa).str i ≠ none := by
  induction cs generalizing sa with
  | nil => exact h
  | cons c cs ih =>
    apply ih
    rw [snprintfPrintChar_str]
    split_ifs <;> simp [h]

theorem foldl_overrun (h : k < cs.length) (hs : (k : ℤ) < 2 ^ 31) :
    (cs.foldl snprintfPrintChar ⟨fun _ => none, k, 0⟩).str k ≠ none := by
  have htake : (cs.take k).length = k := by
    rw [List.length_take]
    omega
  rw [← List.take_append_drop k cs, List.drop_eq_getElem_cons h, List.foldl_append, foldl_fits (by omega) hs, htake,
    List.foldl_cons]
  apply foldl_keeps
  simp [snprintfPrintChar]

theorem foldl_negative (hs : sa.size < 0) (hsa : ∀ i, sa.str i ≠ none → i < 0)
    (h : (cs.foldl snprintfPrintChar sa).str i ≠ none) : i < 0 := by
  induction cs generalizing sa with
  | nil => exact hsa i h
  | cons c cs ih =>
    refine @ih (snprintfPrintChar sa c) hs (fun i hi => ?_) h
    rw [snprintfPrintChar_str] at hi
    by_cases hc : i = sa.pos ∧ sa.pos ≤ sa.size
    · omega
    · rw [if_neg hc] at hi
      exact hsa i hi

theorem cells_ne_none : cells cs i ≠ none ↔ 0 ≤ i ∧ i < cs.length := by
  grind [cells]

theorem formatting_bounded_iff (size : BitVec 32) (format : List Char) (ap : ℕ → Arg) :
    (Bounded size.toNat (output format ap) (snprintf size format ap).1 ↔
      (output format ap).length < size.toNat ∧ size.toNat < 2 ^ 31) ∧
    (Bounded size.toNat (output format ap) (vsnprintf size format ap).1 ↔
      (output format ap).length < size.toNat ∧ size.toNat < 2 ^ 31) := by
  have hlen : (doPrintf format ap).length = (output format ap).length + 1 := by simp [doPrintf]
  simp only [vsnprintf, and_self, snprintf]
  by_cases hs : size.toNat < 2 ^ 31
  · rw [BitVec.toInt_eq_toNat_of_lt (by omega)]
    have hs' : (size.toNat : ℤ) < 2 ^ 31 := by omega
    constructor
    · rintro ⟨hin, -⟩
      refine ⟨?_, hs⟩
      by_contra hge
      exact absurd (hin _ (foldl_overrun (by omega) hs')).2 (Int.lt_irrefl _)
    · rintro ⟨hfit, -⟩
      rw [foldl_fits (by omega) hs', Bounded, List.take_of_length_le (by omega)]
      refine ⟨fun i hi => ?_, fun i _ => ?_⟩
      · have hin := cells_ne_none.mp hi
        omega
      · simp only [cells, if_neg (show ¬ (i : ℤ) < 0 by omega)]
        rfl
  · refine iff_of_false ?_ fun h => hs h.2
    rintro ⟨-, hout⟩
    have hneg : size.toInt < 0 := by
      rw [BitVec.toInt_eq_toNat_cond]
      split_ifs <;> omega
    have hstored : ((output format ap).take (size.toNat - 1) ++ [nul])[0]? ≠ none := by simp
    rw [← hout 0 (Nat.zero_le _)] at hstored
    exact absurd (foldl_negative hneg (by simp) hstored) (by simp)

theorem one_character_overruns_one_byte : (snprintf 1 ['a'] fun _ => ⟨0, []⟩).1 1 = some nul ∧
    ¬ Bounded 1 (output ['a'] fun _ => ⟨0, []⟩) (snprintf 1 ['a'] fun _ => ⟨0, []⟩).1 := by
  have h : (snprintf 1 ['a'] fun _ => ⟨0, []⟩).1 1 = some nul := by decide
  refine ⟨h, fun hb => ?_⟩
  have hlt := (hb.1 1 (h ▸ Option.some_ne_none nul)).2
  omega

theorem conv_eq (h : n < 16) : conv n = n.digitChar := by
  decide +revert

theorem unsignedLoop_eq (hb : 1 < base) (hb' : base ≤ 16) (h : n < base ^ k) (hk : 0 < k) :
    unsignedLoop base k n = (Nat.toDigits base n).reverse := by
  induction k generalizing n with
  | zero => omega
  | succ k ih =>
    have hm := Nat.mod_lt n (show base > 0 by omega)
    rw [unsignedLoop, conv_eq (by omega)]
    by_cases hn : n < base
    · rw [Nat.div_eq_of_lt hn, Nat.mod_eq_of_lt hn, Nat.toDigits_of_lt_base hn]
      rfl
    · have hk : k ≠ 0 := by
        rintro rfl
        exact hn (by simpa using h)
      have hlt : n / base < base ^ k := Nat.div_lt_of_lt_mul (by rwa [Nat.pow_succ'] at h)
      rw [if_pos (Nat.div_pos (by omega) (by omega)), ih hlt (by omega),
        Nat.toDigits_of_base_le hb (Nat.le_of_not_lt hn), List.reverse_append]
      rfl

theorem signedLoop_eq (hb : 0 < base) : signedLoop base k first 0 n = unsignedLoop base k n := by
  induction k generalizing first n with
  | zero => rfl
  | succ k ih =>
    have hm : ¬ n % base + 0 ≥ base := by
      have := Nat.mod_lt n hb
      omega
    rw [signedLoop, unsignedLoop, if_neg (by simp), if_neg hm, ih, Nat.add_zero]

theorem itoA32_eq {word : BitVec 32} (hb : base = 8 ∨ base = 10) (h : word.toInt.natAbs < base ^ 32) :
    itoA32 word base = (Nat.toDigits base word.toInt.natAbs).reverse ++ [if word.toInt < 0 then '-' else '+'] := by
  rw [← unsignedLoop_eq (by omega) (by omega) h (by omega), itoA32]
  split_ifs with hneg hmin
  · rw [hmin]
    rcases hb with rfl | rfl <;> rfl
  · rw [signedLoop_eq (by omega)]
    congr 3
    omega
  · rw [signedLoop_eq (by omega)]
    congr 3
    omega

theorem uitoA32_eq {word : BitVec 32} (hb : 1 < base) (hb' : base ≤ 16) (h : (word.toNat : ℤ).natAbs < base ^ 32) :
    uitoA32 word base =
      (Nat.toDigits base (word.toNat : ℤ).natAbs).reverse ++ [if (word.toNat : ℤ) < 0 then '-' else '+'] := by
  rw [← unsignedLoop_eq hb hb' h (by omega), if_neg (by omega)]
  rfl

theorem Conversion.value_lt (q : Conversion) (word : BitVec 32) : (q.value word).natAbs < q.base ^ 32 := by
  have hlt := word.toInt_lt
  have hle := word.le_toInt
  have hnat := word.isLt
  cases q <;> simp only [value, base] <;> omega

theorem printFormattedInteger_spec {v : ℤ} (hf : f.uppercase = decide (q = .X))
    (hbuf : buf = (Nat.toDigits q.base v.natAbs).reverse ++ [if v < 0 then '-' else '+']) :
    Padded f q v (printFormattedInteger buf q.base f width) ∧
      ((printFormattedInteger buf q.base f width).length : ℤ) = max width (minimal f q v) := by
  have hsign : (if (if v < 0 then '-' else '+') = '-' then ['-'] else
      if f.sign then [if (if v < 0 then '-' else '+') = '+' then '+' else '-'] else []) = f.signOf v := by
    unfold Flags.signOf
    split_ifs <;> simp_all
  have hpre : (if f.alternate then if q.base = 16 then ['0', 'x'] else if q.base = 8 then ['0'] else [] else []) =
      f.annotate q := by cases q <;> rfl
  have hdigits : (Nat.toDigits q.base v.natAbs).map (if f.uppercase then Char.toUpper else id) = q.digits v := by
    rw [hf, Conversion.digits]
    simp only [decide_eq_true_eq]
  have hlen : (Nat.toDigits q.base v.natAbs).length = (q.digits v).length := (List.length_map _).symm
  subst hbuf
  simp only [printFormattedInteger, List.getLastD_concat, List.dropLast_concat, List.reverse_reverse, hsign, hpre,
    hdigits, List.length_append, List.length_reverse, List.length_singleton, Nat.add_sub_cancel, hlen]
  refine ⟨⟨_, _, _, rfl⟩, ?_⟩
  simp only [List.length_replicate, minimal, List.length_append]
  cases f.zero <;> cases f.left <;> simp <;> omega

theorem convert_spec (q : Conversion) (width : ℤ) (arg : Arg) (hf : f.uppercase = false) :
    Padded f q (q.value arg.word) (convert f width arg q.char) ∧
      ((convert f width arg q.char).length : ℤ) = max width (minimal f q (q.value arg.word)) := by
  have h := q.value_lt arg.word
  cases q with
  | d | i | o => exact printFormattedInteger_spec hf (itoA32_eq (by decide) h)
  | u | x => exact printFormattedInteger_spec hf (uitoA32_eq (by decide) (by decide) h)
  | X =>
    exact printFormattedInteger_spec (f := { f with uppercase := true }) (q := .X) rfl
      (uitoA32_eq (by decide) (by decide) h)

theorem printLoop_flags (ap : ℕ → Arg) (fs : List Flag) (rest : List Char) :
    printLoop ap (.flags f) n (fs.map Flag.char ++ rest) = printLoop ap (.flags (f.add fs)) n rest := by
  induction fs generalizing f with
  | nil => simp [Flags.add]
  | cons g fs ih => cases g <;> simp [Flag.char, printLoop, Flags.read, ih, Flags.add]

theorem digit_read (h : n < 10) : isDigit n.digitChar ∧ (n.digitChar.toNat : ℤ) - 48 = n ∧
    (n ≠ 0 → f.read n.digitChar = none) := by
  interval_cases n <;> simp [isDigit, Nat.digitChar, Flags.read]

theorem printLoop_width (ap : ℕ → Arg) (hw : w ≠ 0) (rest : List Char) :
    printLoop ap (.flags f) n (Nat.toDigits 10 w ++ rest) = printLoop ap (.width f ((w : ℤ).bmod (2 ^ 32))) n rest := by
  induction w using Nat.strongRecOn generalizing rest with
  | _ w ih =>
    by_cases h : w < 10
    · obtain ⟨hd, hv, hr⟩ := digit_read (f := f) h
      rw [Nat.toDigits_of_lt_base h, List.singleton_append, printLoop, hr hw]
      simp only [hd, if_true, widen, hv, Int.zero_mul, Int.zero_add]
    · obtain ⟨hd, hv, -⟩ := digit_read (f := f) (Nat.mod_lt w (show 10 > 0 by omega))
      rw [Nat.toDigits_of_base_le (by omega) (Nat.le_of_not_lt h), List.append_assoc, List.singleton_append,
        ih _ (by omega) (by omega), printLoop, if_pos hd, widen, hv]
      rw [← Int.bmod_add_bmod, Int.bmod_mul_bmod, Int.bmod_add_bmod,
        show (w / 10 : ℕ) * 10 + (w % 10 : ℕ) = (w : ℤ) by omega]

theorem minimal_bounds (h : v.natAbs < q.base ^ 32) : 0 < minimal f q v ∧ minimal f q v ≤ 35 := by
  have hpos := Nat.length_toDigits_pos (b := q.base) (n := v.natAbs)
  have hdigits := (Nat.length_toDigits_le_iff (by cases q <;> decide) (by decide)).mpr h
  have hsign : (f.signOf v).length ≤ 1 := by
    unfold Flags.signOf
    split_ifs <;> simp
  have hpre : (f.annotate q).length ≤ 2 := by
    unfold Flags.annotate
    split_ifs
    · cases q <;> decide
    · simp
  simp only [minimal, Conversion.digits, List.length_append, List.length_map]
  omega

theorem integer_formatting_iff (q : Conversion) (fs : List Flag) (w : ℕ) (rest : List Char) (ap : ℕ → Arg) (n : ℕ) :
    ∃ out, printLoop ap .text n ('%' :: (fs.map Flag.char ++ (widthText w ++ q.char :: rest))) =
        out ++ printLoop ap .text (n + 1) rest ∧
      Padded (Flags.add {} fs) q (q.value (ap n).word) out ∧
      (out.length = max w (minimal (Flags.add {} fs) q (q.value (ap n).word)) ↔ w < 2 ^ 31) := by
  have hread : printLoop ap .text n ('%' :: (fs.map Flag.char ++ (widthText w ++ q.char :: rest))) =
      convert (Flags.add {} fs) (if w = 0 then 1 else (w : ℤ).bmod (2 ^ 32)) (ap n) q.char ++
        printLoop ap .text (n + 1) rest := by
    rw [printLoop, if_neg (by decide), if_pos rfl, printLoop_flags, widthText]
    split_ifs with hw
    · cases q <;> rfl
    · rw [printLoop_width ap hw]
      cases q <;> rfl
  obtain ⟨hpad, hlen⟩ := convert_spec q (if w = 0 then 1 else (w : ℤ).bmod (2 ^ 32)) (ap n) (f := Flags.add {} fs) rfl
  refine ⟨_, hread, hpad, ?_⟩
  have hmin := minimal_bounds (f := Flags.add {} fs) (q.value_lt (ap n).word)
  have hlt := Int.bmod_lt (x := w) (m := 2 ^ 32) (by decide)
  split_ifs at hlen ⊢ with hw
  · omega
  · by_cases hsmall : w < 2 ^ 31
    · have hb : (w : ℤ).bmod (2 ^ 32) = w := Int.bmod_eq_of_le_mul_two (by omega) (by omega)
      omega
    · omega

theorem wide_five_unpadded : (output "%2147483648d".toList fun _ => ⟨5, []⟩) = ['5'] ∧
    (output "%2147483648d".toList fun _ => ⟨5, []⟩).length ≠ max (2 ^ 31) 1 := by
  have h : (output "%2147483648d".toList fun _ => ⟨5, []⟩) = ['5'] := by decide
  exact ⟨h, by rw [h]; decide⟩

end CheviotKernel.DoPrintf
