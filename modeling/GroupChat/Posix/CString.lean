import Mathlib.Data.List.TakeWhile
import GroupChat.Posix.Basic

/-!
# C strings

The string functions of the C library on byte arrays. An array is the list of its bytes,
and a function that runs off its end is a `Fault`. A string produced by the program, such
as a token, is the list of its bytes before the terminator, which is understood.

`strtok` is given the rest of the string explicitly, where the library keeps it between
calls; `tokens` is what repeated calls return until the null pointer. `strncmp_prefix` is
the fact behind every comparison whose length is that of the stored string: it decides
prefixes, not equality.
-/

namespace Posix

def space : Byte := 32
def newline : Byte := 10

/-! ## Arrays -/

/-- The string an array holds. -/
def cstr (buf : List Byte) : Except Fault (List Byte) :=
  if 0 ∈ buf then .ok (buf.takeWhile (· ≠ 0)) else .error .outOfBounds

/-- `strncmp(a, b, n)` for an array `a` and a string `b`. -/
def strncmp : List Byte → List Byte → Nat → Except Fault Int
  | _, _, 0 => .ok 0
  | [], _, _ + 1 => .error .outOfBounds
  | x :: a, b, n + 1 =>
    if x ≠ b.headD 0 then .ok (x.toNat - (b.headD 0).toNat)
    else if x = 0 then .ok 0
    else strncmp a b.tail n

/-- `strcmp(a, b) == 0` for an array `a` and a string `b`. -/
def strcmpEq (a b : List Byte) : Except Fault Bool :=
  (strncmp a b (b.length + 1)).map fun c => decide (c = 0)

/-- The `n` bytes `strncpy` writes: the string at the source, padded with zeros. -/
def strncpyBytes : List Byte → Nat → Except Fault (List Byte)
  | _, 0 => .ok []
  | [], _ + 1 => .error .outOfBounds
  | b :: src, n + 1 =>
    if b = 0 then .ok (List.replicate (n + 1) 0)
    else (strncpyBytes src n).map (b :: ·)

/-- `strncpy(dest, src, n)`: the destination array afterwards. -/
def strncpy (dest src : List Byte) (n : Nat) : Except Fault (List Byte) :=
  if dest.length < n then .error .outOfBounds
  else (strncpyBytes src n).map (· ++ dest.drop n)

/-- `strchr(buf, c)`: the index of the first `c` in the string. -/
def strchr : List Byte → Byte → Except Fault (Option Nat)
  | [], _ => .error .outOfBounds
  | b :: buf, c =>
    if b = c then .ok (some 0)
    else if b = 0 then .ok none
    else (strchr buf c).map (Option.map (· + 1))

theorem nul_not_mem_takeWhile (buf : List Byte) : 0 ∉ buf.takeWhile (· ≠ 0) := by
  intro h
  have htrue := List.mem_takeWhile_imp h
  exact of_decide_eq_true htrue rfl

theorem cstr_terminated {s : List Byte} (hs : 0 ∉ s) (junk : List Byte) :
    cstr (s ++ 0 :: junk) = .ok s := by
  have hall : ∀ b ∈ s, decide (b ≠ 0) = true := by
    intro b hb
    exact decide_eq_true (fun h => hs (h ▸ hb))
  rw [cstr, if_pos (by simp), List.takeWhile_append_of_pos hall,
    List.takeWhile_cons_of_neg (by simp), List.append_nil]

/-- A terminator after a buffer makes it a string. -/
theorem cstr_append_nul (buf : List Byte) : cstr (buf ++ [0]) = .ok (buf.takeWhile (· ≠ 0)) := by
  rw [cstr, if_pos (by simp)]
  congr 1
  induction buf with
  | nil => rfl
  | cons b buf ih =>
      by_cases hb : b ≠ 0
      · rw [List.cons_append, List.takeWhile_cons_of_pos (by simpa using hb), ih,
          List.takeWhile_cons_of_pos (by simpa using hb)]
      · rw [List.cons_append, List.takeWhile_cons_of_neg (by simpa using hb),
          List.takeWhile_cons_of_neg (by simpa using hb)]

theorem cstr_unterminated {buf : List Byte} (h : 0 ∉ buf) :
    cstr buf = .error .outOfBounds := by
  rw [cstr, if_neg h]

/-- Comparing the first `n` bytes of a stored string decides whether they are a prefix. -/
theorem strncmp_prefix {n : Nat} : ∀ {s b : List Byte} (junk : List Byte), 0 ∉ s → 0 ∉ b →
    n ≤ b.length → ∃ c, strncmp (s ++ 0 :: junk) b n = .ok c ∧ (c = 0 ↔ b.take n <+: s) := by
  induction n with
  | zero =>
      intro s b junk _ _ _
      exact ⟨0, by rw [strncmp], by simp⟩
  | succ n ih =>
      intro s b junk hs hb hn
      obtain ⟨y, b, rfl⟩ := List.exists_cons_of_length_pos (Nat.zero_lt_of_lt hn)
      rw [List.take_succ_cons]
      have hy : y ≠ 0 := fun h => hb (h ▸ List.mem_cons_self)
      cases s with
      | nil =>
          refine ⟨(0 : Byte).toNat - y.toNat, ?_, ?_⟩
          · rw [List.nil_append, strncmp, List.headD_cons, if_pos hy.symm]
          · have hpos : y.toNat ≠ 0 := fun h => hy (UInt8.toNat_inj.mp h)
            have hzero : (0 : Byte).toNat = 0 := rfl
            simp only [List.prefix_nil, reduceCtorEq, iff_false]
            omega
      | cons x s =>
          rw [List.mem_cons, not_or] at hs hb
          rw [List.cons_append, strncmp, List.headD_cons]
          by_cases hxy : x = y
          · subst hxy
            rw [if_neg (by simp), if_neg hy, List.tail_cons]
            obtain ⟨c, hc, hiff⟩ := ih junk hs.2 hb.2 (Nat.le_of_succ_le_succ hn)
            exact ⟨c, hc, by rw [hiff, List.cons_prefix_cons, and_iff_right rfl]⟩
          · rw [if_pos hxy]
            refine ⟨_, rfl, ?_⟩
            have hne : x.toNat ≠ y.toNat := fun h => hxy (UInt8.toNat_inj.mp h)
            rw [List.cons_prefix_cons]
            constructor
            · intro h
              omega
            · rintro ⟨rfl, -⟩
              exact absurd rfl hxy

theorem strncpyBytes_terminated {n : Nat} : ∀ {s junk : List Byte}, 0 ∉ s →
    strncpyBytes (s ++ 0 :: junk) n = .ok ((s ++ List.replicate n 0).take n) := by
  induction n with
  | zero =>
      intro s junk _
      rw [strncpyBytes, List.take_zero]
  | succ n ih =>
      intro s junk hs
      cases s with
      | nil => simp [strncpyBytes]
      | cons x s =>
          rw [List.mem_cons, not_or] at hs
          have hx : x ≠ 0 := fun h => hs.1 h.symm
          have hpad : (s ++ List.replicate (n + 1) 0).take n = (s ++ List.replicate n 0).take n := by
            rw [List.take_append, List.take_append, List.take_replicate, List.take_replicate]
            congr 2
            omega
          rw [List.cons_append, strncpyBytes, if_neg hx, ih hs.2, List.cons_append,
            List.take_succ_cons, hpad]
          rfl

theorem strncpyBytes_of_append {s rest : List Byte} (hs : 0 ∉ s) :
    strncpyBytes (s ++ rest) s.length = .ok s := by
  induction s with
  | nil => rw [List.length_nil, strncpyBytes]
  | cons x s ih =>
      rw [List.mem_cons, not_or] at hs
      rw [List.cons_append, List.length_cons, strncpyBytes, if_neg (fun h => hs.1 h.symm), ih hs.2]
      rfl

/-- Copying a string without its last byte. -/
theorem strncpyBytes_dropLast {s : List Byte} (h0 : 0 ∉ s) (hne : s ≠ []) (rest : List Byte) :
    strncpyBytes (s ++ rest) (s.length - 1) = .ok s.dropLast := by
  have hsplit : s ++ rest = s.dropLast ++ (s.getLast hne :: rest) := by
    rw [List.append_cons, List.dropLast_append_getLast hne]
  rw [hsplit, ← List.length_dropLast]
  exact strncpyBytes_of_append fun h => h0 (List.mem_of_mem_dropLast h)

/-- Copying all bytes of a string reads no further, and leaves the rest of the array. -/
theorem strncpy_prefix {s rest : List Byte} {n : Nat} (hs : 0 ∉ s) (hn : s.length ≤ n) :
    strncpy (List.replicate n 0) (s ++ rest) s.length =
      .ok (s ++ List.replicate (n - s.length) 0) := by
  rw [strncpy, List.length_replicate, if_neg (Nat.not_lt.mpr hn), strncpyBytes_of_append hs,
    List.drop_replicate]
  rfl

theorem length_strncpyBytes {n : Nat} : ∀ {src bs : List Byte}, strncpyBytes src n = .ok bs →
    bs.length = n := by
  induction n with
  | zero =>
      intro src bs h
      rw [strncpyBytes] at h
      exact Except.ok.inj h ▸ rfl
  | succ n ih =>
      intro src bs h
      cases src with
      | nil =>
          rw [strncpyBytes] at h
          cases h
      | cons b src =>
          rw [strncpyBytes] at h
          by_cases hb : b = 0
          · rw [if_pos hb] at h
            exact Except.ok.inj h ▸ List.length_replicate
          · rw [if_neg hb] at h
            cases hrest : strncpyBytes src n with
            | error fault =>
                rw [hrest] at h
                cases h
            | ok rest =>
                rw [hrest] at h
                have hbs : b :: rest = bs := Except.ok.inj h
                rw [← hbs, List.length_cons, ih hrest]

/-- `strncpy` writes inside the destination. -/
theorem length_strncpy {dest src d : List Byte} {n : Nat} (h : strncpy dest src n = .ok d) :
    d.length = dest.length := by
  rw [strncpy] at h
  split at h
  · cases h
  · cases hbytes : strncpyBytes src n with
    | error fault =>
        rw [hbytes] at h
        cases h
    | ok bs =>
        rw [hbytes] at h
        have hd : bs ++ dest.drop n = d := Except.ok.inj h
        rw [← hd, List.length_append, length_strncpyBytes hbytes, List.length_drop]
        omega

theorem strchr_found {s rest : List Byte} {c : Byte} (h0 : 0 ∉ s) (hs : c ∉ s) :
    strchr (s ++ c :: rest) c = .ok (some s.length) := by
  induction s with
  | nil => rw [List.nil_append, strchr, if_pos rfl, List.length_nil]
  | cons x s ih =>
      rw [List.mem_cons, not_or] at h0 hs
      rw [List.cons_append, strchr, if_neg (fun h => hs.1 h.symm), if_neg (fun h => h0.1 h.symm),
        ih h0.2 hs.2]
      rfl

/-! ## Tokens -/

/-- `strtok`: the next token and the rest of the string, if there is a token. -/
def strtok (s : List Byte) (delim : Byte) : Option (List Byte × List Byte) :=
  match s.dropWhile (· = delim) with
  | [] => none
  | b :: t =>
    some ((b :: t).takeWhile (· ≠ delim), ((b :: t).dropWhile (· ≠ delim)).tail)

theorem length_strtok_lt {s t rest : List Byte} {delim : Byte}
    (h : strtok s delim = some (t, rest)) : rest.length < s.length := by
  unfold strtok at h
  split at h
  · cases h
  · rename_i b u hdrop
    have hsuf := (List.dropWhile_suffix (l := s) (· = delim)).length_le
    have hsuf' := (List.dropWhile_suffix (l := b :: u) (· ≠ delim)).length_le
    rw [hdrop] at hsuf
    cases h
    rw [List.length_tail]
    simp only [List.length_cons] at hsuf hsuf'
    omega

/-- All tokens of a string. -/
def tokens (s : List Byte) (delim : Byte) : List (List Byte) :=
  match _h : strtok s delim with
  | none => []
  | some (t, rest) => t :: tokens rest delim
termination_by s.length
decreasing_by exact length_strtok_lt _h

theorem tokens_none {s : List Byte} {delim : Byte} (h : strtok s delim = none) :
    tokens s delim = [] := by
  rw [tokens]
  split
  · rfl
  · rename_i h'
    rw [h] at h'
    cases h'

theorem tokens_some {s t rest : List Byte} {delim : Byte}
    (h : strtok s delim = some (t, rest)) : tokens s delim = t :: tokens rest delim := by
  rw [tokens]
  split
  · rename_i h'
    rw [h] at h'
    cases h'
  · rename_i h'
    rw [h] at h'
    cases h'
    rfl

theorem strtok_nil (delim : Byte) : strtok [] delim = none := rfl

theorem takeWhile_ne_append {w : List Byte} {delim : Byte} (hw : delim ∉ w)
    (rest : List Byte) :
    (w ++ delim :: rest).takeWhile (· ≠ delim) = w ∧
      (w ++ delim :: rest).dropWhile (· ≠ delim) = delim :: rest := by
  have hall : ∀ b ∈ w, decide (b ≠ delim) = true := by
    intro b hb
    exact decide_eq_true (fun h => hw (h ▸ hb))
  constructor
  · rw [List.takeWhile_append_of_pos hall, List.takeWhile_cons_of_neg (by simp), List.append_nil]
  · rw [List.dropWhile_append_of_pos hall, List.dropWhile_cons_of_neg (by simp)]

theorem takeWhile_of_notMem {w : List Byte} {delim : Byte} (hw : delim ∉ w) :
    w.takeWhile (· ≠ delim) = w := by
  rw [List.takeWhile_eq_self_iff]
  intro b hb
  exact decide_eq_true fun h => hw (h ▸ hb)

theorem takeWhile_eq_self {w : List Byte} {delim : Byte} :
    w.takeWhile (· ≠ delim) = w ↔ delim ∉ w := by
  constructor
  · intro h hmem
    rw [← h] at hmem
    have htrue := List.mem_takeWhile_imp hmem
    exact of_decide_eq_true htrue rfl
  · exact takeWhile_of_notMem

/-- A word followed by the delimiter is the next token. -/
theorem strtok_word {w rest : List Byte} {delim : Byte} (hne : w ≠ []) (hw : delim ∉ w) :
    strtok (w ++ delim :: rest) delim = some (w, rest) := by
  obtain ⟨b, w, rfl⟩ := List.exists_cons_of_ne_nil hne
  have hb : b ≠ delim := fun h => hw (h ▸ List.mem_cons_self)
  obtain ⟨htake, hdrop⟩ := takeWhile_ne_append hw rest
  have hskip : (b :: w ++ delim :: rest).dropWhile (· = delim) = b :: (w ++ delim :: rest) := by
    rw [List.cons_append, List.dropWhile_cons_of_neg (by simpa using hb)]
  unfold strtok
  rw [hskip]
  simp only [← List.cons_append, htake, hdrop, List.tail_cons]

/-- A word at the end of the string is the last token. -/
theorem strtok_last {w : List Byte} {delim : Byte} (hne : w ≠ []) (hw : delim ∉ w) :
    strtok w delim = some (w, []) := by
  obtain ⟨b, w, rfl⟩ := List.exists_cons_of_ne_nil hne
  have hb : b ≠ delim := fun h => hw (h ▸ List.mem_cons_self)
  have hall : ∀ x ∈ b :: w, decide (x ≠ delim) = true := by
    intro x hx
    exact decide_eq_true (fun h => hw (h ▸ hx))
  have htake := List.takeWhile_eq_self_iff.mpr hall
  have hdrop := List.dropWhile_eq_nil_iff.mpr hall
  unfold strtok
  rw [List.dropWhile_cons_of_neg (by simpa using hb)]
  simp only [htake, hdrop, List.tail_nil]

theorem tokens_word {w rest : List Byte} {delim : Byte} (hne : w ≠ []) (hw : delim ∉ w) :
    tokens (w ++ delim :: rest) delim = w :: tokens rest delim :=
  tokens_some (strtok_word hne hw)

theorem tokens_last {w : List Byte} {delim : Byte} (hne : w ≠ []) (hw : delim ∉ w) :
    tokens w delim = [w] := by
  rw [tokens_some (strtok_last hne hw), tokens_none (strtok_nil delim)]

theorem strtok_spec {s t rest : List Byte} {delim : Byte} (h : strtok s delim = some (t, rest)) :
    t ≠ [] ∧ delim ∉ t := by
  unfold strtok at h
  split at h
  · cases h
  · rename_i b u hdrop
    have hb : b ≠ delim := by
      have hhead := List.head?_dropWhile_not (fun x => decide (x = delim)) s
      rw [hdrop] at hhead
      simpa using hhead
    cases h
    refine ⟨by simp [hb], fun hmem => ?_⟩
    have := List.mem_takeWhile_imp hmem
    simp at this

/-- A token is not empty and does not contain the delimiter. -/
theorem mem_tokens {delim : Byte} {n : Nat} : ∀ {s t : List Byte}, s.length ≤ n →
    t ∈ tokens s delim → t ≠ [] ∧ delim ∉ t := by
  induction n with
  | zero =>
      intro s t hn ht
      obtain rfl := List.length_eq_zero_iff.mp (Nat.le_zero.mp hn)
      rw [tokens_none (strtok_nil delim)] at ht
      cases ht
  | succ n ih =>
      intro s t hn ht
      cases h : strtok s delim with
      | none =>
          rw [tokens_none h] at ht
          cases ht
      | some r =>
          obtain ⟨u, rest⟩ := r
          rw [tokens_some h] at ht
          rcases List.mem_cons.mp ht with rfl | ht
          · exact strtok_spec h
          · have := length_strtok_lt h
            exact ih (by omega) ht

/-- A token is followed by a delimiter and the rest of the string, or ends it. -/
theorem strtok_split {s t rest : List Byte} {delim : Byte} (h : strtok s delim = some (t, rest)) :
    ∃ skipped, s = skipped ++ (t ++ delim :: rest) ∨ (rest = [] ∧ s = skipped ++ t) := by
  unfold strtok at h
  split at h
  · cases h
  · rename_i b u hdrop
    have hs := List.takeWhile_append_dropWhile (p := fun x => decide (x = delim)) (l := s)
    have hbu := List.takeWhile_append_dropWhile (p := fun x => decide (x ≠ delim)) (l := b :: u)
    rw [hdrop] at hs
    obtain ⟨rfl, rfl⟩ : (b :: u).takeWhile (· ≠ delim) = t ∧
        ((b :: u).dropWhile (· ≠ delim)).tail = rest := by simpa using h
    refine ⟨s.takeWhile (· = delim), ?_⟩
    cases hend : (b :: u).dropWhile (· ≠ delim) with
    | nil =>
        rw [hend, List.append_nil] at hbu
        exact Or.inr ⟨rfl, by rw [hbu, hs]⟩
    | cons d v =>
        have hd := List.head?_dropWhile_not (fun x => decide (x ≠ delim)) (b :: u)
        rw [hend] at hd
        have hdelim : d = delim := by simpa using hd
        rw [hend, hdelim] at hbu
        exact Or.inl (by rw [List.tail_cons, hbu, hs])

/-- The first token of a string is followed by a delimiter if there are more. -/
theorem tokens_cons_split {s t : List Byte} {ts : List (List Byte)} {delim : Byte}
    (h : tokens s delim = t :: ts) :
    ∃ skipped rest, tokens rest delim = ts ∧
      (s = skipped ++ (t ++ delim :: rest) ∨ (rest = [] ∧ s = skipped ++ t)) := by
  cases htok : strtok s delim with
  | none =>
      rw [tokens_none htok] at h
      cases h
  | some r =>
      obtain ⟨u, rest⟩ := r
      rw [tokens_some htok] at h
      obtain ⟨rfl, hrest⟩ := List.cons.inj h
      obtain ⟨skipped, hs⟩ := strtok_split htok
      exact ⟨skipped, rest, hrest, hs⟩

/-- A string with `k` delimiters has at most `k + 1` tokens. -/
theorem length_tokens_le {delim : Byte} {n : Nat} : ∀ {s : List Byte}, s.length ≤ n →
    (tokens s delim).length ≤ s.count delim + 1 := by
  induction n with
  | zero =>
      intro s hn
      obtain rfl := List.length_eq_zero_iff.mp (Nat.le_zero.mp hn)
      rw [tokens_none (strtok_nil delim)]
      exact Nat.zero_le _
  | succ n ih =>
      intro s hn
      cases h : strtok s delim with
      | none =>
          rw [tokens_none h]
          exact Nat.zero_le _
      | some r =>
          obtain ⟨t, rest⟩ := r
          rw [tokens_some h, List.length_cons]
          have hlt := length_strtok_lt h
          obtain ⟨skipped, rfl | ⟨rfl, rfl⟩⟩ := strtok_split h
          · have hrest := ih (s := rest) (by omega)
            rw [List.count_append, List.count_append, List.count_cons_self]
            omega
          · rw [tokens_none (strtok_nil delim)]
            exact Nat.le_add_left _ _

end Posix
