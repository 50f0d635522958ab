import Mathlib.Data.Nat.Digits.Defs
import GroupChat.Posix.CString

/-!
# Text files and decimal numbers

`fgetsLines` is what repeated calls of `fgets` read from a file: lines, cut where they do
not fit the buffer. `decimal` and `scanInt` are `%d` of `printf` and `scanf`, and
`scanInt_decimal` is their round trip.
-/

namespace Posix

/-! ## Lines -/

/-- Split off the next line of at most `n` bytes. -/
def lineOf : Nat → List Byte → List Byte × List Byte
  | 0, s => ([], s)
  | _ + 1, [] => ([], [])
  | n + 1, b :: s =>
    if b = newline then ([b], s) else (b :: (lineOf n s).1, (lineOf n s).2)

theorem lineOf_append {n : Nat} : ∀ s : List Byte, (lineOf n s).1 ++ (lineOf n s).2 = s := by
  induction n with
  | zero => intro s; rfl
  | succ n ih =>
      intro s
      cases s with
      | nil => rfl
      | cons b s =>
          rw [lineOf]
          split
          · rfl
          · rw [List.cons_append, ih s]

theorem lineOf_ne_nil {n : Nat} {b : Byte} {s : List Byte} : (lineOf (n + 1) (b :: s)).1 ≠ [] := by
  rw [lineOf]
  split <;> simp

theorem length_lineOf_lt {n : Nat} {b : Byte} {s : List Byte} :
    (lineOf (n + 1) (b :: s)).2.length < (b :: s).length := by
  have happ := congrArg List.length (lineOf_append (n := n + 1) (b :: s))
  have hpos := List.length_pos_iff.mpr (lineOf_ne_nil (n := n) (b := b) (s := s))
  rw [List.length_append] at happ
  omega

/-- The lines `fgets` reads into a buffer of `size` bytes, of which the terminator takes
one. -/
def fgetsLines (size : Nat) : List Byte → List (List Byte)
  | [] => []
  | b :: s => (lineOf (size - 2 + 1) (b :: s)).1 :: fgetsLines size (lineOf (size - 2 + 1) (b :: s)).2
termination_by s => s.length
decreasing_by exact length_lineOf_lt

theorem fgetsLines_nil (size : Nat) : fgetsLines size [] = [] := by
  rw [fgetsLines]

theorem fgetsLines_of_ne_nil {size : Nat} {s : List Byte} (h : s ≠ []) :
    fgetsLines size s =
      (lineOf (size - 2 + 1) s).1 :: fgetsLines size (lineOf (size - 2 + 1) s).2 := by
  obtain ⟨b, s, rfl⟩ := List.exists_cons_of_ne_nil h
  rw [fgetsLines]

theorem lineOf_fits {n : Nat} : ∀ {w rest : List Byte}, newline ∉ w → w.length < n →
    lineOf n (w ++ newline :: rest) = (w ++ [newline], rest) := by
  induction n with
  | zero => intro w rest _ h; omega
  | succ n ih =>
      intro w rest hw h
      cases w with
      | nil => rw [List.nil_append, lineOf, if_pos rfl, List.nil_append]
      | cons b w =>
          rw [List.mem_cons, not_or] at hw
          rw [List.length_cons] at h
          rw [List.cons_append, lineOf, if_neg (fun hb => hw.1 hb.symm), ih hw.2 (by omega)]
          rfl

theorem lineOf_cut {n : Nat} : ∀ {w rest : List Byte}, newline ∉ w → n ≤ w.length →
    lineOf n (w ++ rest) = (w.take n, w.drop n ++ rest) := by
  induction n with
  | zero => intro w rest _ _; rfl
  | succ n ih =>
      intro w rest hw h
      obtain ⟨b, w, rfl⟩ := List.exists_cons_of_length_pos (Nat.zero_lt_of_lt h)
      rw [List.mem_cons, not_or] at hw
      rw [List.length_cons] at h
      rw [List.cons_append, lineOf, if_neg (fun hb => hw.1 hb.symm), ih hw.2 (by omega)]
      rfl

theorem lineOf_take {n : Nat} : ∀ {w : List Byte}, newline ∉ w → (lineOf n w).1 = w.take n := by
  induction n with
  | zero => intro w _; rfl
  | succ n ih =>
      intro w hw
      cases w with
      | nil => rfl
      | cons b w =>
          rw [List.mem_cons, not_or] at hw
          rw [lineOf, if_neg (fun hb => hw.1 hb.symm), ih hw.2, List.take_succ_cons]

/-- The first line of a text without newlines is as much of it as fits the buffer. -/
theorem fgetsLines_headD {size : Nat} (hsize : 2 ≤ size) {w : List Byte} (hw : newline ∉ w) :
    (fgetsLines size w).headD [] = w.take (size - 1) := by
  have hn : size - 2 + 1 = size - 1 := by omega
  cases w with
  | nil =>
      rw [fgetsLines_nil, List.take_nil]
      rfl
  | cons b w => rw [fgetsLines_of_ne_nil (by simp), List.headD_cons, lineOf_take hw, hn]

/-- A line that fits the buffer is read whole. -/
theorem fgetsLines_line {size : Nat} {w : List Byte} (hw : newline ∉ w)
    (hfit : w.length + 1 < size) (rest : List Byte) :
    fgetsLines size (w ++ newline :: rest) = (w ++ [newline]) :: fgetsLines size rest := by
  rw [fgetsLines_of_ne_nil (by simp), lineOf_fits hw (by omega)]

/-- A line that does not fit is cut. -/
theorem fgetsLines_cut {size : Nat} (hsize : 2 ≤ size) {w : List Byte} (hw : newline ∉ w)
    (hlong : size ≤ w.length + 1) (rest : List Byte) :
    fgetsLines size (w ++ rest) =
      w.take (size - 1) :: fgetsLines size (w.drop (size - 1) ++ rest) := by
  have hn : size - 2 + 1 = size - 1 := by omega
  have hne : w ++ rest ≠ [] := by
    apply List.ne_nil_of_length_pos
    rw [List.length_append]
    omega
  rw [fgetsLines_of_ne_nil hne, lineOf_cut hw (by omega), hn]

theorem fgetsLines_flatten (size : Nat) {n : Nat} : ∀ {s : List Byte}, s.length ≤ n →
    (fgetsLines size s).flatten = s := by
  induction n with
  | zero =>
      intro s h
      rw [List.length_eq_zero_iff.mp (Nat.le_zero.mp h), fgetsLines_nil]
      rfl
  | succ n ih =>
      intro s h
      cases s with
      | nil =>
          rw [fgetsLines_nil]
          rfl
      | cons b s =>
          have hlt := length_lineOf_lt (n := size - 2) (b := b) (s := s)
          rw [fgetsLines_of_ne_nil (by simp), List.flatten_cons, ih (by omega), lineOf_append]

theorem mem_of_mem_fgetsLines {size : Nat} {s l : List Byte} {b : Byte}
    (hl : l ∈ fgetsLines size s) (hb : b ∈ l) : b ∈ s := by
  rw [← fgetsLines_flatten size (le_refl s.length)]
  exact List.mem_flatten.mpr ⟨l, hl, hb⟩

/-- A line ends at the first newline. -/
theorem newline_not_mem_dropLast_lineOf {n : Nat} :
    ∀ s : List Byte, newline ∉ (lineOf n s).1.dropLast := by
  induction n with
  | zero =>
      intro s
      exact List.not_mem_nil
  | succ n ih =>
      intro s
      cases s with
      | nil => exact List.not_mem_nil
      | cons b s =>
          by_cases hb : b = newline
          · rw [lineOf, if_pos hb]
            exact List.not_mem_nil
          · rw [lineOf, if_neg hb]
            cases hline : (lineOf n s).1 with
            | nil => exact List.not_mem_nil
            | cons c l =>
                rw [List.dropLast_cons_of_ne_nil (by simp), ← hline, List.mem_cons, not_or]
                exact ⟨fun h => hb h.symm, ih s⟩

theorem newline_not_mem_dropLast_of_mem_fgetsLines {size n : Nat} :
    ∀ {s l : List Byte}, s.length ≤ n → l ∈ fgetsLines size s → newline ∉ l.dropLast := by
  induction n with
  | zero =>
      intro s l hn hl
      obtain rfl := List.length_eq_zero_iff.mp (Nat.le_zero.mp hn)
      rw [fgetsLines_nil] at hl
      cases hl
  | succ n ih =>
      intro s l hn hl
      cases s with
      | nil =>
          rw [fgetsLines_nil] at hl
          cases hl
      | cons b s =>
          have hlt := length_lineOf_lt (n := size - 2) (b := b) (s := s)
          rw [fgetsLines_of_ne_nil (by simp)] at hl
          obtain rfl | hl := List.mem_cons.mp hl
          · exact newline_not_mem_dropLast_lineOf _
          · exact ih (by omega) hl

/-- The lines of a file are read one after the other. -/
theorem fgetsLines_append {size : Nat} (hsize : 2 ≤ size) {n : Nat} :
    ∀ {w : List Byte}, w.length ≤ n → newline ∉ w → ∀ rest : List Byte,
      fgetsLines size (w ++ newline :: rest) =
        fgetsLines size (w ++ [newline]) ++ fgetsLines size rest := by
  induction n with
  | zero =>
      intro w hn hw rest
      obtain rfl := List.length_eq_zero_iff.mp (Nat.le_zero.mp hn)
      rw [fgetsLines_line hw (by exact hsize) rest, fgetsLines_line hw (by exact hsize) [],
        fgetsLines_nil]
      rfl
  | succ n ih =>
      intro w hn hw rest
      by_cases hfit : w.length + 1 < size
      · rw [fgetsLines_line hw hfit rest, fgetsLines_line hw hfit [], fgetsLines_nil]
        rfl
      · have hdrop : newline ∉ w.drop (size - 1) := fun h => hw (List.mem_of_mem_drop h)
        rw [fgetsLines_cut hsize hw (by omega) (newline :: rest),
          fgetsLines_cut hsize hw (by omega) [newline],
          ih (by rw [List.length_drop]; omega) hdrop rest, List.cons_append]

/-- The first piece of a line is what fits, and the others are read from what is left. -/
theorem fgetsLines_first {size : Nat} (hsize : 2 ≤ size) {w : List Byte} (hw : newline ∉ w) :
    fgetsLines size (w ++ [newline]) =
      (w ++ [newline]).take (size - 1) :: fgetsLines size ((w ++ [newline]).drop (size - 1)) := by
  have hlen : (w ++ [newline]).length = w.length + 1 := by simp
  by_cases hfit : w.length + 1 < size
  · rw [fgetsLines_line hw hfit [], List.take_of_length_le (by omega),
      List.drop_of_length_le (by omega)]
  · rw [fgetsLines_cut hsize hw (by omega) [newline], List.take_append_of_le_length (by omega),
      List.drop_append_of_le_length (by omega)]

/-! ## Decimal numbers -/

/-- The digits `%d` prints for a number that is not negative. -/
def decimal (n : Nat) : List Byte :=
  if n = 0 then [48] else (Nat.digits 10 n).reverse.map fun d => UInt8.ofNat (48 + d)

def isDigit (b : Byte) : Bool := 48 ≤ b && b ≤ 57

/-- The white space `%d` skips: tab, newline, vertical tab, form feed, return and space. -/
def isSpace (b : Byte) : Bool := b = 32 || (9 ≤ b && b ≤ 13)

def digitsValue (ds : List Byte) : Nat := ds.foldl (fun n b => 10 * n + (b.toNat - 48)) 0

/-- `sscanf(s, "%d", &n)`: the number stored, if one is. A number that is not an `int` has
no defined result. -/
def scanInt (s : List Byte) : Except Fault (Option Int) :=
  let s := s.dropWhile isSpace
  let negative := s.head? = some 45
  let s := if s.head? = some 45 ∨ s.head? = some 43 then s.tail else s
  let ds := s.takeWhile isDigit
  let n : Int := if negative then -(digitsValue ds : Int) else digitsValue ds
  if ds = [] then .ok none
  else if n < -2 ^ 31 ∨ 2 ^ 31 ≤ n then .error .overflow
  else .ok (some n)

/-- A decimal digit as a byte. -/
theorem digit_byte {d : Nat} (h : d < 10) :
    (UInt8.ofNat (48 + d)).toNat = 48 + d ∧ isDigit (UInt8.ofNat (48 + d)) = true := by
  have hval : (UInt8.ofNat (48 + d)).toNat = 48 + d := by
    rw [UInt8.toNat_ofNat']
    omega
  refine ⟨hval, ?_⟩
  simp only [isDigit, Bool.and_eq_true, decide_eq_true_eq, UInt8.le_iff_toNat_le, hval]
  exact ⟨Nat.le_add_right 48 d, by simp only [UInt8.reduceToNat]; omega⟩

theorem decimal_ne_nil (n : Nat) : decimal n ≠ [] := by
  unfold decimal
  split
  · exact List.cons_ne_nil _ _
  · rename_i h
    simpa [Nat.digits_ne_nil_iff_ne_zero] using h

theorem isDigit_of_mem_decimal {n : Nat} : ∀ b ∈ decimal n, isDigit b = true := by
  intro b hb
  unfold decimal at hb
  split at hb
  · rw [List.mem_singleton.mp hb]
    rfl
  · obtain ⟨d, hd, rfl⟩ := List.mem_map.mp hb
    exact (digit_byte (Nat.digits_lt_base (by omega) (List.mem_reverse.mp hd))).2

theorem not_mem_decimal {c : Byte} (hc : isDigit c = false) (n : Nat) : c ∉ decimal n := by
  intro h
  rw [isDigit_of_mem_decimal c h] at hc
  cases hc

theorem foldl_digits {ds : List Nat} (h : ∀ d ∈ ds, d < 10) :
    digitsValue (ds.reverse.map fun d => UInt8.ofNat (48 + d)) = Nat.ofDigits 10 ds := by
  induction ds with
  | nil => rfl
  | cons d ds ih =>
      have hd := (digit_byte (h d List.mem_cons_self)).1
      have hrest := ih (fun e he => h e (List.mem_cons_of_mem _ he))
      rw [digitsValue] at hrest ⊢
      rw [List.reverse_cons, List.map_append, List.foldl_append, hrest, List.map_singleton,
        List.foldl_cons, List.foldl_nil, hd, Nat.ofDigits_cons, Nat.add_sub_cancel_left]
      exact Nat.add_comm _ _

theorem digitsValue_decimal (n : Nat) : digitsValue (decimal n) = n := by
  unfold decimal
  split
  · rename_i h
    rw [h]
    rfl
  · rw [foldl_digits (fun d hd => Nat.digits_lt_base (by omega) hd), Nat.ofDigits_digits]

theorem decimal_injective {m n : Nat} (h : decimal m = decimal n) : m = n := by
  rw [← digitsValue_decimal m, h, digitsValue_decimal]

/-- The text is the number `n` in decimal digits. -/
def IsDecimal (s : List Byte) (n : Nat) : Prop :=
  s ≠ [] ∧ (∀ b ∈ s, isDigit b = true) ∧ digitsValue s = n

theorem isDecimal_decimal (n : Nat) : IsDecimal (decimal n) n :=
  ⟨decimal_ne_nil n, isDigit_of_mem_decimal, digitsValue_decimal n⟩

/-- Digits are read as their number. -/
theorem scanInt_digits {s : List Byte} {n : Nat} (hs : IsDecimal s n) :
    scanInt s = if 2 ^ 31 ≤ n then .error .overflow else .ok (some n) := by
  obtain ⟨hne, hdigits, hvalue⟩ := hs
  obtain ⟨b, ds, hcons⟩ := List.exists_cons_of_ne_nil hne
  have hb := hdigits b (by rw [hcons]; exact List.mem_cons_self)
  have hspace : isSpace b = false := by
    simp only [isDigit, isSpace, Bool.and_eq_true, decide_eq_true_eq, Bool.or_eq_false_iff,
      Bool.and_eq_false_iff, decide_eq_false_iff_not, UInt8.le_iff_toNat_le,
      ← UInt8.toNat_inj, UInt8.reduceToNat] at hb ⊢
    omega
  have hsign : b ≠ 45 ∧ b ≠ 43 := by
    simp only [isDigit, Bool.and_eq_true, decide_eq_true_eq, UInt8.le_iff_toNat_le,
      Ne, ← UInt8.toNat_inj, UInt8.reduceToNat] at hb ⊢
    omega
  have hskip : s.dropWhile isSpace = s := by
    rw [hcons, List.dropWhile_cons_of_neg (by rw [hspace]; exact Bool.false_ne_true)]
  have htake : s.takeWhile isDigit = s := List.takeWhile_eq_self_iff.mpr hdigits
  have hhead : s.head? = some b := by rw [hcons, List.head?_cons]
  simp only [scanInt, hskip, hhead, Option.some.injEq, hsign.1, hsign.2, or_self, if_false, htake,
    hne, hvalue]
  by_cases hlarge : 2 ^ 31 ≤ n
  · rw [if_pos hlarge, if_pos (by omega)]
  · rw [if_neg hlarge, if_neg (by omega)]

/-- What `%d` prints, `%d` reads back. -/
theorem scanInt_decimal {n : Nat} (h : n < 2 ^ 31) : scanInt (decimal n) = .ok (some n) := by
  rw [scanInt_digits (isDecimal_decimal n), if_neg (Nat.not_le.mpr h)]

/-- A scan fails only on a number that is not an `int`. -/
theorem scanInt_ok {s : List Byte} (h : scanInt s ≠ .error .overflow) :
    ∃ scanned, scanInt s = .ok scanned := by
  unfold scanInt at h ⊢
  dsimp only at h ⊢
  generalize List.takeWhile isDigit _ = ds at h ⊢
  generalize (if (s.dropWhile isSpace).head? = some 45 then -(digitsValue ds : Int)
    else digitsValue ds) = n at h ⊢
  by_cases hnil : ds = []
  · exact ⟨none, if_pos hnil⟩
  · rw [if_neg hnil] at h ⊢
    by_cases hlarge : n < -2 ^ 31 ∨ 2 ^ 31 ≤ n
    · exact absurd (if_pos hlarge) h
    · exact ⟨some n, if_neg hlarge⟩

theorem length_decimal_le {n : Nat} (h : n < 2 ^ 31) : (decimal n).length ≤ 10 := by
  unfold decimal
  split
  · exact Nat.le_add_left 1 9
  · rw [List.length_map, List.length_reverse, Nat.digits_length_le_iff (by omega)]
    omega

theorem length_decimal {n d : Nat} (h : 10 ^ d ≤ n) (h' : n < 10 ^ (d + 1)) :
    (decimal n).length = d + 1 := by
  have hpos : 0 < 10 ^ d := Nat.pow_pos (by decide)
  unfold decimal
  rw [if_neg (by omega), List.length_map, List.length_reverse]
  apply Nat.le_antisymm
  · exact (Nat.digits_length_le_iff (by omega) n).mpr h'
  · exact (Nat.lt_digits_length_iff (by omega) n).mpr h

end Posix
