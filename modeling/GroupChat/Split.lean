import GroupChat.Credential.Accounts
import GroupChat.Posix.Block
import GroupChat.Server

/-!
# `split`, pass by pass

`split` goes over its string three times: it counts the separators, it allocates a block for each
token and it copies the tokens. `splitPasses` does the same on the memory itself, with arbitrary
contents in the new blocks and a fault for every write outside one. `splitPasses_eq` says that it
comes to the tokens that `split` of the server model has.

The last token gets no terminator, so `tokenised_iff` says that all is well exactly when the last
byte of its block was zero before, and the two counters do not overflow.
-/

namespace GroupChat

open Posix

/-! ## The passes -/

/-- What is in the block that `malloc` returns for token `i`. -/
abbrev Malloc := (i size : Nat) → Block size

/-- The first loop, from `p` on. -/
def countPass (c : Byte) : List Byte → Int → Except Fault Int
  | [], _ => .error .outOfBounds
  | b :: p, count =>
    if b = 0 then .ok count
    else if b = c then do countPass c p (← intResult (count + 1))
    else countPass c p count

/-- `(*arr)[i] = malloc(token_len)`, when the entries before `i` are filled. -/
def allocToken (malloc : Malloc) (count tokenLen : Int) (arr : List (List Byte)) :
    Except Fault (List (List Byte)) :=
  if arr.length < count then
    .ok (arr ++ [(malloc arr.length (toSizeT tokenLen)).bytes])
  else .error .outOfBounds

/-- The second loop, from `p` on, and the allocation after it. -/
def sizePass (c : Byte) (malloc : Malloc) (count : Int) :
    List Byte → Int → List (List Byte) → Except Fault (List (List Byte))
  | [], _, _ => .error .outOfBounds
  | b :: p, tokenLen, arr =>
    if b = 0 then allocToken malloc count tokenLen arr
    else if b = c then do
      let arr ← allocToken malloc count tokenLen arr
      sizePass c malloc count p 1 arr
    else do sizePass c malloc count p (← intResult (tokenLen + 1)) arr

/-- `*t = b`, with `t` the address `off` bytes into `(*arr)[i]`. -/
def writeToken (arr : List (List Byte)) (i off : Nat) (b : Byte) :
    Except Fault (List (List Byte)) :=
  match arr[i]? with
  | none => .error .outOfBounds
  | some block =>
    if off < block.length then .ok (arr.set i (block.set off b)) else .error .outOfBounds

/-- The third loop, from `p` on. -/
def copyPass (c : Byte) : List Byte → Nat → Nat → List (List Byte) →
    Except Fault (List (List Byte))
  | [], _, _, _ => .error .outOfBounds
  | b :: p, i, off, arr =>
    if b = 0 then .ok arr
    else if b ≠ c ∧ b ≠ 0 then do
      let arr ← writeToken arr i off b
      copyPass c p i (off + 1) arr
    else do
      let arr ← writeToken arr i off 0
      if i + 1 < arr.length then copyPass c p (i + 1) 0 arr else throw .outOfBounds

/-- `split`: its result and the blocks of the tokens. -/
def splitPasses (str : List Byte) (c : Byte) (malloc : Malloc) :
    Except Fault (Int × List (List Byte)) := do
  let count ← countPass c str 1
  let arr ← sizePass c malloc count str 1 []
  let arr ← copyPass c str 0 0 arr
  return (count, arr)

/-- What `split` is to do with a string. -/
structure Tokenised (s : List Byte) (c : Byte) (ret : Int) (arr : List (List Byte)) : Prop where
  count : ret = s.count c + 1
  filled : arr.length = s.count c + 1
  tokens : ∃ words, arr.mapM cstr = .ok words ∧ (∀ w ∈ words, c ∉ w) ∧ [c].intercalate words = s

/-- `split` comes to its end without a write outside a block, and has done it. -/
def SplitsWell (a : Argument) (c : Byte) (malloc : Malloc) : Prop :=
  ∃ ret arr, splitPasses a.buf c malloc = .ok (ret, arr) ∧ Tokenised a.str c ret arr

/-! ## Splitting at the separator -/

section Words

variable {s : List Byte} {c : Byte}

theorem splitOn_cons_self (c : Byte) (s : List Byte) : (c :: s).splitOn c = [] :: s.splitOn c := by
  rw [List.splitOn_cons_eq_if_modifyHead, if_pos (beq_self_eq_true c)]

theorem splitOn_cons_ne {b c : Byte} (h : b ≠ c) (s : List Byte) :
    (b :: s).splitOn c = (s.splitOn c).modifyHead (b :: ·) := by
  rw [List.splitOn_cons_eq_if_modifyHead, if_neg (by simpa using h)]

theorem length_splitOn (c : Byte) (s : List Byte) : (s.splitOn c).length = s.count c + 1 := by
  induction s with
  | nil => rfl
  | cons b s ih =>
      by_cases hb : b = c
      · rw [hb, splitOn_cons_self, List.length_cons, ih, List.count_cons_self]
      · rw [splitOn_cons_ne hb, List.length_modifyHead, ih, List.count_cons_of_ne hb]

/-- No byte of a token is the separator, and every byte is one of the string. -/
theorem mem_splitOn {w : List Byte} (hw : w ∈ s.splitOn c) : c ∉ w ∧ ∀ b ∈ w, b ∈ s := by
  induction s generalizing w with
  | nil =>
      rw [List.splitOn_nil, List.mem_singleton] at hw
      rw [hw]
      exact ⟨List.not_mem_nil, fun b hb => hb⟩
  | cons b s ih =>
      by_cases hb : b = c
      · rw [hb, splitOn_cons_self, List.mem_cons] at hw
        rcases hw with rfl | hw
        · exact ⟨List.not_mem_nil, fun b hb => absurd hb List.not_mem_nil⟩
        · exact ⟨(ih hw).1, fun b' hb' => List.mem_cons_of_mem _ ((ih hw).2 b' hb')⟩
      · obtain ⟨w', ws, hws⟩ := List.exists_cons_of_ne_nil (List.splitOn_ne_nil c s)
        rw [splitOn_cons_ne hb, hws, List.modifyHead_cons, List.mem_cons] at hw
        rw [hws] at ih
        rcases hw with rfl | hw
        · obtain ⟨hc, hall⟩ := ih List.mem_cons_self
          rw [List.mem_cons, not_or]
          refine ⟨⟨fun h => hb h.symm, hc⟩, fun b' hb' => ?_⟩
          rcases List.mem_cons.mp hb' with rfl | hb'
          · exact List.mem_cons_self
          · exact List.mem_cons_of_mem _ (hall b' hb')
        · obtain ⟨hc, hall⟩ := ih (List.mem_cons_of_mem _ hw)
          exact ⟨hc, fun b' hb' => List.mem_cons_of_mem _ (hall b' hb')⟩

end Words

/-! ## The first pass -/

theorem countPass_eq {c : Byte} {s junk : List Byte} (hs : 0 ∉ s) {count : Int} (h0 : 0 ≤ count)
    (hcount : count < 2 ^ 31) :
    countPass c (s ++ 0 :: junk) count =
      if count + s.count c < 2 ^ 31 then .ok (count + s.count c) else .error .overflow := by
  induction s generalizing count with
  | nil =>
      rw [List.nil_append, countPass, if_pos rfl, List.count_nil, Nat.cast_zero, add_zero,
        if_pos hcount]
  | cons b s ih =>
      rw [List.mem_cons, not_or] at hs
      rw [List.cons_append, countPass, if_neg (fun h => hs.1 h.symm)]
      by_cases hb : b = c
      · rw [if_pos hb, hb, List.count_cons_self]
        rcases lt_or_ge (count + 1) (2 ^ 31) with hlt | hge
        · rw [intResult_of_mem (by omega) hlt, ok_bind, ih hs.2 (by omega) hlt]
          congr 1 <;> push_cast <;> ring_nf
        · rw [intResult, if_pos (Or.inr hge), if_neg (by push_cast; omega)]
          rfl
      · rw [if_neg hb, List.count_cons_of_ne hb, ih hs.2 h0 hcount]

/-! ## The second pass -/

/-- The blocks of the tokens from token `i` on, of which `n` bytes have gone by. -/
def tokenBlocks (malloc : Malloc) : Nat → Nat → List (List Byte) → List (List Byte)
  | _, _, [] => []
  | i, n, w :: ws => (malloc i (n + w.length + 1)).bytes :: tokenBlocks malloc (i + 1) 0 ws

/-- Their sizes are `int`s. -/
def TokensFit (n : Nat) : List (List Byte) → Prop
  | [] => True
  | w :: ws => n + w.length + 1 < 2 ^ 31 ∧ ∀ v ∈ ws, v.length + 1 < 2 ^ 31

theorem tokensFit_zero {ws : List (List Byte)} :
    TokensFit 0 ws ↔ ∀ w ∈ ws, w.length + 1 < 2 ^ 31 := by
  cases ws with
  | nil => simp [TokensFit]
  | cons w ws => rw [TokensFit, Nat.zero_add, List.forall_mem_cons]

section SizePass

variable {c : Byte} {malloc : Malloc} {count : Int} {s junk : List Byte}

theorem allocToken_ok {arr : List (List Byte)} (h : arr.length < count) {n : Nat}
    (hn : n + 1 < 2 ^ 31) :
    allocToken malloc count ((n : Int) + 1) arr =
      .ok (arr ++ [(malloc arr.length (n + 1)).bytes]) := by
  have hsize : toSizeT ((n : Int) + 1) = n + 1 := by
    rw [← Nat.cast_succ]
    exact toSizeT_of_lt (by omega)
  rw [allocToken, if_pos h, hsize]

/-- While the sizes are `int`s every token gets a block of its length and one byte more. -/
theorem sizePass_ok (hs : 0 ∉ s) {n : Nat} {arr : List (List Byte)}
    (hfit : TokensFit n (s.splitOn c)) (hroom : (arr.length + (s.splitOn c).length : Nat) ≤ count) :
    sizePass c malloc count (s ++ 0 :: junk) ((n : Int) + 1) arr =
      .ok (arr ++ tokenBlocks malloc arr.length n (s.splitOn c)) := by
  induction s generalizing n arr with
  | nil =>
      rw [List.splitOn_nil] at hfit hroom ⊢
      rw [List.length_singleton] at hroom
      rw [List.nil_append, sizePass, if_pos rfl, allocToken_ok (n := n) (by omega) hfit.1]
      rfl
  | cons b s ih =>
      rw [List.mem_cons, not_or] at hs
      rw [List.cons_append, sizePass, if_neg (fun h => hs.1 h.symm)]
      by_cases hb : b = c
      · rw [hb, splitOn_cons_self] at hfit hroom
        rw [List.length_cons] at hroom
        have hrest : TokensFit 0 (s.splitOn c) := tokensFit_zero.mpr hfit.2
        have hone : (1 : Int) = ((0 : Nat) : Int) + 1 := rfl
        rw [if_pos hb, allocToken_ok (n := n) (by omega) hfit.1, ok_bind, hone,
          ih hs.2 hrest (by rw [List.length_append, List.length_singleton]; omega), hb,
          splitOn_cons_self, tokenBlocks, List.append_assoc, List.length_append]
        rfl
      · obtain ⟨w, ws, hws⟩ := List.exists_cons_of_ne_nil (List.splitOn_ne_nil c s)
        rw [splitOn_cons_ne hb, hws, List.modifyHead_cons] at hfit hroom ⊢
        rw [hws] at ih
        rw [TokensFit, List.length_cons] at hfit
        have hnext : TokensFit (n + 1) (w :: ws) := ⟨by omega, hfit.2⟩
        have hsize : n + 1 + w.length + 1 = n + (w.length + 1) + 1 := by omega
        rw [if_neg hb, intResult_of_mem (by omega) (by omega), ok_bind, ← Nat.cast_succ,
          ih hs.2 hnext hroom, tokenBlocks, tokenBlocks, List.length_cons, hsize]

/-- A pass that ends has counted every size in an `int`. -/
theorem sizePass_fits (hs : 0 ∉ s) {n : Nat} (hn : n + 1 < 2 ^ 31) {arr arr' : List (List Byte)}
    (h : sizePass c malloc count (s ++ 0 :: junk) ((n : Int) + 1) arr = .ok arr') :
    TokensFit n (s.splitOn c) := by
  induction s generalizing n arr with
  | nil =>
      rw [List.splitOn_nil]
      exact ⟨hn, fun v hv => absurd hv List.not_mem_nil⟩
  | cons b s ih =>
      rw [List.mem_cons, not_or] at hs
      rw [List.cons_append, sizePass, if_neg (fun h => hs.1 h.symm)] at h
      by_cases hb : b = c
      · rw [if_pos hb] at h
        obtain ⟨arr₁, -, hrest⟩ := bind_eq_ok.mp h
        have hone : (1 : Int) = ((0 : Nat) : Int) + 1 := rfl
        rw [hone] at hrest
        rw [hb, splitOn_cons_self]
        exact ⟨hn, tokensFit_zero.mp (ih hs.2 (by decide) hrest)⟩
      · rw [if_neg hb] at h
        obtain ⟨next, hnext, hrest⟩ := bind_eq_ok.mp h
        obtain ⟨rfl, -, hlt⟩ := intResult_eq_ok.mp hnext
        rw [← Nat.cast_succ] at hrest
        have hfit := ih hs.2 (by omega) hrest
        obtain ⟨w, ws, hws⟩ := List.exists_cons_of_ne_nil (List.splitOn_ne_nil c s)
        rw [splitOn_cons_ne hb, hws, List.modifyHead_cons]
        rw [hws] at hfit
        refine ⟨?_, hfit.2⟩
        have := hfit.1
        rw [List.length_cons]
        omega

end SizePass

/-! ## The third pass -/

/-- The tokens copied into blocks: a terminator after each but the last. -/
def fillBlocks : List (List Byte) → List (List Byte) → List (List Byte)
  | [w], [block] => [w ++ block.drop w.length]
  | w :: ws, _ :: blocks => (w ++ [0]) :: fillBlocks ws blocks
  | _, _ => []

/-- A block for each token, one byte longer than the token. -/
def Roomy : List (List Byte) → List (List Byte) → Prop :=
  List.Forall₂ fun w block => block.length = w.length + 1

theorem fillBlocks_cons {b x : Byte} {block : List Byte} {ws blocks : List (List Byte)} :
    fillBlocks (ws.modifyHead (b :: ·)) ((x :: block) :: blocks) =
      (fillBlocks ws (block :: blocks)).modifyHead (b :: ·) := by
  cases ws with
  | nil => rfl
  | cons w ws =>
      cases ws with
      | nil => cases blocks <;> rfl
      | cons w' ws => rfl

section CopyPass

variable {c : Byte} {s junk : List Byte}

theorem writeToken_ok {done later : List (List Byte)} {u rest : List Byte} {x : Byte} (b : Byte) :
    writeToken (done ++ (u ++ x :: rest) :: later) done.length u.length b =
      .ok (done ++ (u ++ b :: rest) :: later) := by
  have hget : (done ++ (u ++ x :: rest) :: later)[done.length]? = some (u ++ x :: rest) := by
    rw [List.getElem?_append_right (le_refl _), Nat.sub_self]
    rfl
  have hlt : u.length < (u ++ x :: rest).length := by
    rw [List.length_append, List.length_cons]
    omega
  rw [writeToken, hget]
  simp only [if_pos hlt]
  rw [List.set_append_right _ _ (le_refl _), Nat.sub_self, List.set_cons_zero,
    List.set_append_right _ _ (le_refl _), Nat.sub_self, List.set_cons_zero]

/-- The pass in the middle of a token: `u` has been copied, `rest` is what is left of its block. -/
theorem copyPass_eq (hs : 0 ∉ s) {done later : List (List Byte)} {u rest : List Byte}
    (hroom : Roomy (s.splitOn c) (rest :: later)) :
    copyPass c (s ++ 0 :: junk) done.length u.length (done ++ (u ++ rest) :: later) =
      .ok (done ++ (fillBlocks (s.splitOn c) (rest :: later)).modifyHead (u ++ ·)) := by
  induction s generalizing done later u rest with
  | nil =>
      rw [List.splitOn_nil] at hroom ⊢
      cases hroom with
      | cons hlen hnil =>
          cases hnil
          rw [List.nil_append, copyPass, if_pos rfl]
          rfl
  | cons b s ih =>
      rw [List.mem_cons, not_or] at hs
      have hb0 : b ≠ 0 := fun h => hs.1 h.symm
      rw [List.cons_append, copyPass, if_neg hb0]
      by_cases hb : b = c
      · rw [hb, splitOn_cons_self] at hroom ⊢
        cases hroom with
        | cons hlen hrest =>
            obtain ⟨x, rfl⟩ := List.length_eq_one_iff.mp hlen
            obtain ⟨w, ws, hws⟩ := List.exists_cons_of_ne_nil (List.splitOn_ne_nil c s)
            rw [hws] at hrest ih ⊢
            cases hrest with
            | @cons _ block _ blocks hblock hblocks =>
                have hnext := @ih hs.2 (done ++ [u ++ [0]]) blocks [] block (.cons hblock hblocks)
                have hid : (fillBlocks (w :: ws) (block :: blocks)).modifyHead ([] ++ ·) =
                    fillBlocks (w :: ws) (block :: blocks) := congrFun List.modifyHead_id _
                rw [List.length_append, List.length_singleton, List.length_nil, List.nil_append,
                  List.append_assoc, hid, List.append_assoc] at hnext
                rw [if_neg (by simp), writeToken_ok, ok_bind, if_pos (by simp)]
                exact hnext
      · obtain ⟨w, ws, hws⟩ := List.exists_cons_of_ne_nil (List.splitOn_ne_nil c s)
        rw [splitOn_cons_ne hb, hws] at hroom ⊢
        rw [hws] at ih
        rw [List.modifyHead_cons] at hroom
        cases hroom with
        | cons hlen hrest =>
            rw [List.length_cons] at hlen
            obtain ⟨x, rest', rfl⟩ := List.exists_cons_of_length_eq_add_one hlen
            have hlen' : rest'.length = w.length + 1 := Nat.succ.inj hlen
            have hnext := @ih hs.2 done later (u ++ [b]) rest' (.cons hlen' hrest)
            have hmodify : ((fillBlocks (w :: ws) (rest' :: later)).modifyHead (b :: ·)).modifyHead
                (u ++ ·) = (fillBlocks (w :: ws) (rest' :: later)).modifyHead (u ++ [b] ++ ·) := by
              cases fillBlocks (w :: ws) (rest' :: later) with
              | nil => rfl
              | cons v vs =>
                  rw [List.modifyHead_cons, List.modifyHead_cons, List.modifyHead_cons,
                    List.append_assoc]
                  rfl
            rw [List.length_append, List.length_singleton, List.append_assoc] at hnext
            rw [if_pos ⟨hb, hb0⟩, writeToken_ok, ok_bind, fillBlocks_cons, hmodify]
            exact hnext

end CopyPass

/-! ## The three passes together -/

section Split

variable {a : Argument} {c : Byte} {malloc : Malloc}

/-- What `malloc` left in the last byte of the last block. -/
def lastByte (a : Argument) (c : Byte) (malloc : Malloc) : Byte :=
  (malloc (a.str.count c) (((a.str.splitOn c).getLastD []).length + 1)).bytes.getLastD 0

theorem roomy_tokenBlocks {i : Nat} {ws : List (List Byte)} :
    Roomy ws (tokenBlocks malloc i 0 ws) := by
  induction ws generalizing i with
  | nil => exact .nil
  | cons w ws ih =>
      refine .cons ?_ ih
      rw [Block.full, Nat.zero_add]

theorem drop_last {block : List Byte} {n : Nat} (h : block.length = n + 1) :
    block.drop n = [block.getLastD 0] := by
  have hne : block ≠ [] := List.ne_nil_of_length_eq_add_one h
  have hn : n = block.length - 1 := by omega
  rw [hn, List.drop_length_sub_one hne, List.getLastD_eq_getLast?, List.getLast?_eq_some_getLast hne]
  rfl

/-- Filling the new blocks leaves the last byte of the last one as it was. -/
theorem fillBlocks_tokenBlocks {i : Nat} {w : List Byte} {ws : List (List Byte)} :
    fillBlocks (w :: ws) (tokenBlocks malloc i 0 (w :: ws)) =
      (w :: ws).dropLast.map (· ++ [0]) ++ [(w :: ws).getLastD [] ++
        [(malloc (i + ws.length) (((w :: ws).getLastD []).length + 1)).bytes.getLastD 0]] := by
  induction ws generalizing i w with
  | nil =>
      rw [tokenBlocks, tokenBlocks, fillBlocks, drop_last (by rw [Block.full, Nat.zero_add]),
        Nat.zero_add]
      rfl
  | cons v ws ih =>
      have hindex : i + 1 + ws.length = i + (v :: ws).length := by
        rw [List.length_cons]
        omega
      rw [tokenBlocks]
      change (w ++ [0]) :: fillBlocks (v :: ws) (tokenBlocks malloc (i + 1) 0 (v :: ws)) = _
      rw [ih, hindex, List.dropLast_cons_cons, List.map_cons, List.cons_append]
      rfl

/-- The counters of the first two passes stay `int`s. -/
def CountersFit (s : List Byte) (c : Byte) : Prop :=
  s.count c + 1 < 2 ^ 31 ∧ ∀ w ∈ s.splitOn c, w.length + 1 < 2 ^ 31

/-- The passes come to the number and the tokens that `split` has. -/
theorem splitPasses_eq (hfit : CountersFit a.str c) :
    splitPasses a.buf c malloc =
      .ok ((a.str.count c : Int) + 1, split a.str c (lastByte a c malloc)) := by
  obtain ⟨hcount, hsizes⟩ := hfit
  have hs := a.nul_not_mem
  have hwords := length_splitOn c a.str
  have hnum : (1 : Int) + a.str.count c = a.str.count c + 1 := add_comm _ _
  have hsize : sizePass c malloc ((a.str.count c : Int) + 1) (a.str ++ 0 :: a.junk) 1 [] =
      .ok (tokenBlocks malloc 0 0 (a.str.splitOn c)) := by
    refine sizePass_ok (n := 0) hs (tokensFit_zero.mpr hsizes) ?_
    rw [List.length_nil, Nat.zero_add, hwords]
    exact le_refl _
  have hcopy : copyPass c (a.str ++ 0 :: a.junk) 0 0 (tokenBlocks malloc 0 0 (a.str.splitOn c)) =
      .ok (split a.str c (lastByte a c malloc)) := by
    obtain ⟨w, ws, hws⟩ := List.exists_cons_of_ne_nil (List.splitOn_ne_nil c a.str)
    have hroom : Roomy (a.str.splitOn c) (tokenBlocks malloc 0 0 (w :: ws)) := by
      rw [hws]
      exact roomy_tokenBlocks
    have hpass : copyPass c (a.str ++ 0 :: a.junk) 0 0 (tokenBlocks malloc 0 0 (w :: ws)) =
        .ok ((fillBlocks (a.str.splitOn c) (tokenBlocks malloc 0 0 (w :: ws))).modifyHead
          ([] ++ ·)) :=
      @copyPass_eq c a.str a.junk hs [] _ [] _ hroom
    have hid : (fillBlocks (w :: ws) (tokenBlocks malloc 0 0 (w :: ws))).modifyHead ([] ++ ·) =
        fillBlocks (w :: ws) (tokenBlocks malloc 0 0 (w :: ws)) := congrFun List.modifyHead_id _
    have hlast : ws.length = a.str.count c := by
      rw [hws, List.length_cons] at hwords
      omega
    rw [hws, hpass, hws, hid, fillBlocks_tokenBlocks, Nat.zero_add, hlast, split, lastByte, hws]
  rw [splitPasses, Argument.buf, terminated, countPass_eq hs (by decide) (by decide), hnum,
    if_pos (by omega), ok_bind, hsize, ok_bind, hcopy, ok_bind]
  rfl

/-- A call that ends has not run over. -/
theorem countersFit_of_splitPasses {ret : Int} {arr : List (List Byte)}
    (h : splitPasses a.buf c malloc = .ok (ret, arr)) : CountersFit a.str c := by
  have hs := a.nul_not_mem
  obtain ⟨count, hcount, h⟩ := bind_eq_ok.mp h
  obtain ⟨blocks, hsize, -⟩ := bind_eq_ok.mp h
  rw [Argument.buf, terminated, countPass_eq hs (by decide) (by decide)] at hcount
  have hone : (1 : Int) = ((0 : Nat) : Int) + 1 := rfl
  rw [Argument.buf, terminated, hone] at hsize
  constructor
  · by_contra hbig
    rw [if_neg (by omega)] at hcount
    cases hcount
  · exact tokensFit_zero.mp (sizePass_fits hs (by decide) hsize)

/-- The tokens but the last are strings whatever `malloc` left. -/
theorem mapM_cstr_terminated {ws : List (List Byte)} (hws : ∀ w ∈ ws, 0 ∉ w) :
    (ws.map (· ++ [0])).mapM cstr = .ok ws := by
  induction ws with
  | nil => rfl
  | cons w ws ih =>
      rw [List.forall_mem_cons] at hws
      rw [List.map_cons, List.mapM_cons, cstr_terminated hws.1 [], ok_bind, ih hws.2]
      rfl

/-- The tokens are strings exactly when the last one got a terminator. -/
theorem mapM_cstr_split {s : List Byte} (hs : 0 ∉ s) {heap : Byte} :
    (split s c heap).mapM cstr = if heap = 0 then .ok (s.splitOn c) else .error .outOfBounds := by
  have hwords : ∀ w ∈ s.splitOn c, 0 ∉ w := fun w hw h0 => hs ((mem_splitOn hw).2 0 h0)
  have hne := List.splitOn_ne_nil c s
  have hinit : ∀ w ∈ (s.splitOn c).dropLast, 0 ∉ w :=
    fun w hw => hwords w (List.mem_of_mem_dropLast hw)
  have hlast : 0 ∉ (s.splitOn c).getLastD [] := by
    rw [List.getLastD_eq_getLast?, List.getLast?_eq_some_getLast hne]
    exact hwords _ (List.getLast_mem hne)
  rw [split, List.mapM_append, mapM_cstr_terminated hinit, ok_bind, List.mapM_cons]
  by_cases h0 : heap = 0
  · rw [if_pos h0, h0, cstr_terminated hlast [], List.getLastD_eq_getLast?,
      List.getLast?_eq_some_getLast hne]
    exact congrArg Except.ok (List.dropLast_append_getLast hne)
  · have hopen : 0 ∉ (s.splitOn c).getLastD [] ++ [heap] := by
      rw [List.mem_append, List.mem_singleton, not_or]
      exact ⟨hlast, fun h => h0 h.symm⟩
    rw [if_neg h0, cstr_unterminated hopen]
    rfl

/-- `split` does its work exactly on the strings whose counters are `int`s, and if the byte after
the last token happened to be zero. -/
theorem tokenised_iff (a : Argument) (c : Byte) (malloc : Malloc) :
    SplitsWell a c malloc ↔ CountersFit a.str c ∧ lastByte a c malloc = 0 := by
  constructor
  · rintro ⟨ret, arr, hpasses, -, -, words, hwords, -, -⟩
    have hfit := countersFit_of_splitPasses hpasses
    refine ⟨hfit, ?_⟩
    rw [splitPasses_eq hfit] at hpasses
    cases hpasses
    rw [mapM_cstr_split a.nul_not_mem] at hwords
    by_contra h0
    rw [if_neg h0] at hwords
    cases hwords
  · intro ⟨hfit, h0⟩
    refine ⟨_, _, splitPasses_eq hfit, rfl, ?_, a.str.splitOn c, ?_, ?_, ?_⟩
    · rw [split, List.length_append, List.length_map, List.length_dropLast, List.length_singleton,
        length_splitOn]
      omega
    · rw [mapM_cstr_split a.nul_not_mem, if_pos h0]
    · exact fun w hw => (mem_splitOn hw).1
    · exact List.intercalate_splitOn c

/-- `a` in a block that held a `b`: the token is no string. -/
theorem last_token_unterminated :
    ¬ ∀ (a : Argument) (c : Byte) (malloc : Malloc), SplitsWell a c malloc := by
  intro h
  obtain ⟨ret, arr, hpasses, -, -, words, hwords, -, -⟩ :=
    h ⟨[97], [], by decide⟩ 32 fun _ size => ⟨List.replicate size 98, List.length_replicate⟩
  have hrun : splitPasses (Argument.mk [97] [] (by decide)).buf 32
      (fun _ size => ⟨List.replicate size 98, List.length_replicate⟩) = .ok (1, [[97, 98]]) := rfl
  rw [hrun] at hpasses
  cases hpasses
  cases hwords

end Split

/-! ## Token by token -/

section Tokens

variable {c heap : Byte} {s : List Byte}

/-- The first token of a string with a separator. -/
theorem split_append_cons {w : List Byte} (hw : c ∉ w) (rest : List Byte) :
    split (w ++ c :: rest) c heap = (w ++ [0]) :: split rest c heap := by
  have hne := List.splitOn_ne_nil c rest
  obtain ⟨v, vs, hvs⟩ := List.exists_cons_of_ne_nil hne
  rw [split, List.splitOn_append_cons_self_of_not_mem hw, List.dropLast_cons_of_ne_nil hne,
    List.map_cons, List.cons_append, split, hvs]
  rfl

theorem split_ne_nil : split s c heap ≠ [] := by
  rw [split]
  exact List.append_ne_nil_of_right_ne_nil _ (List.cons_ne_nil _ _)

/-- A string without a separator is its only token. -/
theorem split_of_notMem (hs : c ∉ s) : split s c heap = [s ++ [heap]] := by
  rw [split, List.splitOn_eq_singleton hs]
  rfl

theorem head_split_terminated (h : c ∈ s ∨ heap = 0) :
    (split s c heap).headD [] = s.takeWhile (· ≠ c) ++ [0] := by
  by_cases hc : c ∈ s
  · obtain ⟨w, rest, rfl, hw⟩ := List.eq_append_cons_of_mem hc
    rw [split_append_cons hw, List.headD_cons, (takeWhile_ne_append hw rest).1]
  · rw [split_of_notMem hc, List.headD_cons, takeWhile_of_notMem hc, h.resolve_left hc]

/-- What stands before the first separator begins the first token. -/
theorem head_split_append {w : List Byte} (hw : c ∉ w) (rest : List Byte) :
    ∃ junk, (split (w ++ rest) c heap).headD [] = w ++ junk := by
  by_cases hc : c ∈ rest
  · obtain ⟨v, rest', rfl, hv⟩ := List.eq_append_cons_of_mem hc
    have hwv : c ∉ w ++ v := List.not_mem_append hw hv
    refine ⟨v ++ [0], ?_⟩
    rw [← List.append_assoc, split_append_cons hwv, List.headD_cons, List.append_assoc]
  · have hall : c ∉ w ++ rest := List.not_mem_append hw hc
    refine ⟨rest ++ [heap], ?_⟩
    rw [split_of_notMem hall, List.headD_cons, List.append_assoc]

/-- The first token is a string if it is not the last one too, or if it happened to be followed by a
zero. -/
theorem cstr_head_split (h0 : 0 ∉ s) :
    cstr ((split s c heap).headD []) =
      if c ∈ s ∨ heap = 0 then .ok (s.takeWhile (· ≠ c)) else .error .outOfBounds := by
  by_cases hc : c ∈ s
  · obtain ⟨w, rest, rfl, hw⟩ := List.eq_append_cons_of_mem hc
    have hw0 : 0 ∉ w := fun h => h0 (List.mem_append_left _ h)
    rw [if_pos (Or.inl hc), split_append_cons hw, List.headD_cons, cstr_terminated hw0 [],
      (takeWhile_ne_append hw rest).1]
  · rw [split_of_notMem hc, List.headD_cons, takeWhile_of_notMem hc]
    by_cases hheap : heap = 0
    · rw [if_pos (Or.inr hheap), hheap, cstr_terminated h0 []]
    · have hopen : 0 ∉ s ++ [heap] := by
        rw [List.mem_append, List.mem_singleton, not_or]
        exact ⟨h0, fun h => hheap h.symm⟩
      rw [if_neg (not_or.mpr ⟨hc, hheap⟩), cstr_unterminated hopen]

end Tokens

end GroupChat
