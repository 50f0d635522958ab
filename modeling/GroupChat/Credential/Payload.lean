import GroupChat.Credential.Creation

/-!
# The payload of `USR_CREATE` and `USR_LOGIN`

`parse_username_pw` takes the payload apart at its first colon. It is to accept exactly the payloads
whose two fields leave room for a terminator in their arrays, and to leave the arrays alone
otherwise. The second field is the rest of the text, up to the length in the header; the code
measures it by that length alone, which may be more than the text has. `parsesExactly_iff` says for
which payloads and header lengths the contract is kept all the same.
-/

namespace GroupChat

open Posix

/-- What `parse_username_pw` computes for the password's length. -/
def pwLength (len : UInt32) (d : Nat) : Int := toInt32 len.toNat - toInt32 d - 1

/-- The bytes after the colon at `d`, up to the length in the header or the terminator. -/
def passwordField (payload : Argument) (len : UInt32) (d : Nat) : List Byte :=
  (payload.str.drop (d + 1)).take (len.toNat - (d + 1))

/-- The first colon of the payload is at `d`, and both fields leave room for a terminator. -/
structure FieldsFit (payload : Argument) (len : UInt32) (d : Nat) : Prop where
  colon : payload.str.idxOf? 58 = some d
  username : d < MAX_CHAR_USERID
  password : (passwordField payload len d).length < MAX_CHAR_USERPASS

/-- The result is 0 exactly when the fields fit, and then the arrays hold them as strings; otherwise
they stay as they were. -/
def ParsesExactly (payload : Argument) (len : UInt32) : Prop :=
  ∃ ret destUname destPw,
    parseUsernamePw (List.replicate MAX_CHAR_USERID 0) (List.replicate MAX_CHAR_USERPASS 0)
      payload.buf (toInt32 len.toNat) = .ok (ret, destUname, destPw) ∧
    (ret = 0 ↔ ∃ d, FieldsFit payload len d) ∧
    (∀ d, FieldsFit payload len d → cstr destUname = .ok (payload.str.take d) ∧
      cstr destPw = .ok (passwordField payload len d)) ∧
    ((∀ d, ¬ FieldsFit payload len d) → destUname = List.replicate MAX_CHAR_USERID 0 ∧
      destPw = List.replicate MAX_CHAR_USERPASS 0)

/-- There is a colon, the lengths are computed within `int`, and either the username is past its
array, or the password's length is and a field really is too long, or both lengths are within the
arrays and both fields leave room for a terminator. -/
def LengthsClear (payload : Argument) (len : UInt32) : Prop :=
  ∃ d, payload.str.idxOf? 58 = some d ∧ -2 ^ 31 ≤ pwLength len d ∧ pwLength len d + 1 < 2 ^ 31 ∧
    (MAX_CHAR_USERID < toInt32 d ∨
      (MAX_CHAR_USERPASS < pwLength len d ∧
        (MAX_CHAR_USERID ≤ d ∨ MAX_CHAR_USERPASS ≤ (passwordField payload len d).length)) ∨
      (d < MAX_CHAR_USERID ∧ 0 ≤ pwLength len d ∧ pwLength len d ≤ MAX_CHAR_USERPASS ∧
        (passwordField payload len d).length < MAX_CHAR_USERPASS))

/-! ## The two copies -/

section Copies

variable {s junk : List Byte} {n m : Nat}

/-- Copying the first bytes of a string into a larger array of zeros. -/
theorem strncpy_take (hs : 0 ∉ s) (hn : n ≤ m) :
    strncpy (List.replicate m 0) (terminated s junk) n =
      .ok (s.take n ++ List.replicate (m - (s.take n).length) 0) := by
  have hpad : (s ++ List.replicate n 0).take n ++ List.replicate (m - n) (0 : Byte) =
      s.take n ++ List.replicate (m - (s.take n).length) 0 := by
    rw [List.take_append, List.take_replicate, List.append_assoc, List.replicate_append_replicate,
      List.length_take]
    congr 2
    omega
  rw [strncpy, List.length_replicate, if_neg (Nat.not_lt.mpr hn), terminated,
    strncpyBytes_terminated hs, List.drop_replicate]
  exact congrArg Except.ok hpad

theorem cstr_padded (hs : 0 ∉ s) (hlt : s.length < m) :
    cstr (s ++ List.replicate (m - s.length) 0) = .ok s := by
  have hpad : List.replicate (m - s.length) (0 : Byte) = 0 :: List.replicate (m - s.length - 1) 0 := by
    rw [← List.replicate_succ]
    congr 1
    omega
  rw [hpad]
  exact cstr_terminated hs _

theorem strncpy_too_long {dest src : List Byte} (h : dest.length < n) :
    strncpy dest src n = .error .outOfBounds := if_pos h

end Copies

/-! ## One call -/

section Parse

variable {payload : Argument} {destUname destPw : List Byte} {len : Int} {d : Nat}

theorem strchr_str (payload : Argument) {c : Byte} (hc : c ≠ 0) :
    strchr payload.buf c = .ok (payload.str.idxOf? c) := by
  obtain ⟨s, junk, h0⟩ := payload
  change strchr (s ++ 0 :: junk) c = .ok (s.idxOf? c)
  induction s with
  | nil => rw [List.nil_append, strchr, if_neg hc.symm, if_pos rfl, List.idxOf?_nil]
  | cons b s ih =>
      rw [List.mem_cons, not_or] at h0
      rw [List.cons_append, strchr, List.idxOf?_cons]
      by_cases hb : b = c
      · rw [if_pos hb, if_pos (by simpa using hb)]
      · rw [if_neg hb, if_neg (Ne.symm h0.1), ih h0.2, if_neg (by simpa using hb)]
        rfl

/-- Without a colon the null pointer is taken for the delimiter. -/
theorem parse_without_colon (h : payload.str.idxOf? 58 = none) :
    parseUsernamePw destUname destPw payload.buf len = .error .nullPointer := by
  rw [parseUsernamePw, strchr_str payload (by decide), h]
  rfl

theorem parse_at_colon (h : payload.str.idxOf? 58 = some d) :
    parseUsernamePw destUname destPw payload.buf len =
      (intResult (len - toInt32 d) >>= fun rest => intResult (rest - 1) >>= fun pwLen =>
        if toInt32 d > MAX_CHAR_USERID ∨ pwLen > MAX_CHAR_USERPASS then
          .ok (-1, destUname, destPw)
        else
          strncpy destUname payload.buf (toSizeT (toInt32 d)) >>= fun u =>
            strncpy destPw (payload.buf.drop (d + 1)) (toSizeT pwLen) >>= fun p =>
              .ok (0, u, p)) := by
  rw [parseUsernamePw, strchr_str payload (by decide), h]
  rfl

theorem lt_of_idxOf? (h : payload.str.idxOf? 58 = some d) : d < payload.str.length :=
  (List.idxOf?_eq_some_iff.mp h).1

theorem drop_buf (h : d < payload.str.length) :
    payload.buf.drop (d + 1) = terminated (payload.str.drop (d + 1)) payload.junk := by
  rw [Argument.buf, terminated, List.drop_append_of_le_length h]
  rfl

/-- With the lengths in `int`, the comparisons decide. -/
theorem parse_counted {len : UInt32} (h : payload.str.idxOf? 58 = some d)
    (hlow : -2 ^ 31 ≤ pwLength len d) (hhigh : pwLength len d + 1 < 2 ^ 31) :
    parseUsernamePw destUname destPw payload.buf (toInt32 len.toNat) =
      if toInt32 d > MAX_CHAR_USERID ∨ pwLength len d > MAX_CHAR_USERPASS then
        .ok (-1, destUname, destPw)
      else
        strncpy destUname payload.buf (toSizeT (toInt32 d)) >>= fun u =>
          strncpy destPw (payload.buf.drop (d + 1)) (toSizeT (pwLength len d)) >>= fun p =>
            .ok (0, u, p) := by
  have hrest : intResult (toInt32 len.toNat - toInt32 d) = .ok (pwLength len d + 1) := by
    rw [pwLength] at hlow hhigh ⊢
    exact intResult_eq_ok.mpr ⟨by omega, by omega, by omega⟩
  have hcount : intResult (pwLength len d + 1 - 1) = .ok (pwLength len d) :=
    intResult_eq_ok.mpr ⟨by omega, by omega, by omega⟩
  rw [parse_at_colon h, hrest, ok_bind, hcount, ok_bind]

/-- A call that returns has found a colon and kept the lengths in `int`. -/
theorem parse_ok_counted {len : UInt32} {r : Int × List Byte × List Byte}
    (h : parseUsernamePw destUname destPw payload.buf (toInt32 len.toNat) = .ok r) :
    ∃ d, payload.str.idxOf? 58 = some d ∧ -2 ^ 31 ≤ pwLength len d ∧
      pwLength len d + 1 < 2 ^ 31 := by
  cases hcolon : payload.str.idxOf? 58 with
  | none =>
      rw [parse_without_colon hcolon] at h
      cases h
  | some d =>
      refine ⟨d, rfl, ?_⟩
      rw [parse_at_colon hcolon] at h
      obtain ⟨rest, hrest, h⟩ := bind_eq_ok.mp h
      obtain ⟨pwLen, hpwLen, -⟩ := bind_eq_ok.mp h
      obtain ⟨hrest, hlow, hhigh⟩ := intResult_eq_ok.mp hrest
      obtain ⟨-, hlow', hhigh'⟩ := intResult_eq_ok.mp hpwLen
      have hcount : pwLength len d = rest - 1 := by rw [pwLength, hrest]
      exact ⟨by omega, by omega⟩

/-- Copies within the arrays have lengths within them. -/
theorem le_of_strncpy {src d' : List Byte} {n : Int} {m : Nat} (hn : -2 ^ 31 ≤ n) (hm : m < 2 ^ 31)
    (h : strncpy (List.replicate m 0) src (toSizeT n) = .ok d') : 0 ≤ n := by
  by_contra hneg
  have hhuge := le_toSizeT_of_neg (Int.not_le.mp hneg) hn
  rw [strncpy_too_long (by rw [List.length_replicate]; omega)] at h
  cases h

/-- The header length, as far as it is not negative as an `int`. -/
theorem toNat_of_pwLength {len : UInt32} (hd : d ≤ MAX_CHAR_USERID) (h : 0 ≤ pwLength len d) :
    ((len.toNat - (d + 1) : Nat) : Int) = pwLength len d := by
  have hlt := len.toNat_lt
  have hd' : d ≤ 8 := hd
  rw [pwLength, toInt32_of_lt (show d < 2 ^ 31 by omega)] at h ⊢
  by_cases hlen : len.toNat < 2 ^ 31
  · rw [toInt32_of_lt hlen] at h ⊢
    omega
  · rw [toInt32_of_ge (by omega) hlt] at h
    omega

end Parse

theorem fieldsFit_unique {payload : Argument} {len : UInt32} {d d' : Nat}
    (h : FieldsFit payload len d) (hcolon : payload.str.idxOf? 58 = some d') : d = d' :=
  Option.some.inj (h.colon.symm.trans hcolon)

/-- A field past its array is not one that fits. -/
theorem not_fieldsFit {payload : Argument} {len : UInt32} {d : Nat}
    (hcolon : payload.str.idxOf? 58 = some d)
    (hlong : MAX_CHAR_USERID ≤ d ∨ MAX_CHAR_USERPASS ≤ (passwordField payload len d).length)
    (d' : Nat) : ¬ FieldsFit payload len d' := by
  intro hfit
  obtain rfl := fieldsFit_unique hfit hcolon
  rcases hlong with hlong | hlong
  · exact absurd hfit.username (Nat.not_lt.mpr hlong)
  · exact absurd hfit.password (Nat.not_lt.mpr hlong)

/-- An offset that is large as an `int` is large. -/
theorem le_of_toInt32 {d : Nat} (h : MAX_CHAR_USERID < toInt32 d) : MAX_CHAR_USERID ≤ d := by
  change 8 ≤ d
  by_contra hlt
  rw [toInt32_of_lt (show d < 2 ^ 31 by omega)] at h
  have : (8 : Int) < d := h
  omega

/-- The two arrays after a call that accepts fields that fit. The password's length may be the size
of its array: the text then ends before it. -/
theorem parse_fits {payload : Argument} {len : UInt32} {d : Nat} (hfit : FieldsFit payload len d)
    (hnonneg : 0 ≤ pwLength len d) (hle : pwLength len d ≤ MAX_CHAR_USERPASS) :
    ∃ destUname destPw,
      parseUsernamePw (List.replicate MAX_CHAR_USERID 0) (List.replicate MAX_CHAR_USERPASS 0)
        payload.buf (toInt32 len.toNat) = .ok (0, destUname, destPw) ∧
      cstr destUname = .ok (payload.str.take d) ∧
      cstr destPw = .ok (passwordField payload len d) := by
  have hd := hfit.username
  have hd8 : d < 8 := hd
  have hle128 : pwLength len d ≤ 128 := hle
  have hin := lt_of_idxOf? hfit.colon
  have hname : toInt32 d = d := toInt32_of_lt (by omega)
  have hword := toNat_of_pwLength hd.le hnonneg
  have hcount : len.toNat - (d + 1) ≤ MAX_CHAR_USERPASS := by
    change len.toNat - (d + 1) ≤ 128
    omega
  have hfew : ¬ (toInt32 d > MAX_CHAR_USERID ∨ pwLength len d > MAX_CHAR_USERPASS) := by
    rw [hname]
    omega
  have htake : (payload.str.take d).length = d := List.length_take_of_le hin.le
  have hrest0 : 0 ∉ payload.str.drop (d + 1) := fun h =>
    payload.nul_not_mem (List.mem_of_mem_drop h)
  refine ⟨_, _, ?_, cstr_padded (fun h => payload.nul_not_mem (List.mem_of_mem_take h))
    (htake ▸ hd), cstr_padded (fun h => hrest0 (List.mem_of_mem_take h)) hfit.password⟩
  rw [parse_counted hfit.colon (by omega) (by omega), if_neg hfew, hname, ← hword,
    toSizeT_of_lt (by omega), toSizeT_of_lt (by omega), drop_buf hin]
  refine bind_eq_ok.mpr ⟨_, strncpy_take payload.nul_not_mem hd.le, ?_⟩
  exact bind_eq_ok.mpr ⟨_, strncpy_take hrest0 hcount, rfl⟩

/-- A call that returns 0 has copied both fields, with lengths within the arrays. -/
theorem parse_accepts {payload : Argument} {len : UInt32} {destUname destPw : List Byte} {d : Nat}
    (hcolon : payload.str.idxOf? 58 = some d)
    (hlow : -2 ^ 31 ≤ pwLength len d) (hhigh : pwLength len d + 1 < 2 ^ 31)
    (hparse : parseUsernamePw (List.replicate MAX_CHAR_USERID 0)
      (List.replicate MAX_CHAR_USERPASS 0) payload.buf (toInt32 len.toNat) =
        .ok (0, destUname, destPw)) :
    0 ≤ pwLength len d ∧ pwLength len d ≤ MAX_CHAR_USERPASS := by
  rw [parse_counted hcolon hlow hhigh] at hparse
  split at hparse
  · cases hparse
  · rename_i hfew
    obtain ⟨-, hle⟩ := not_or.mp hfew
    obtain ⟨u, -, hparse⟩ := bind_eq_ok.mp hparse
    obtain ⟨p, hp, -⟩ := bind_eq_ok.mp hparse
    exact ⟨le_of_strncpy hlow (show MAX_CHAR_USERPASS < 2 ^ 31 by decide) hp, Int.not_lt.mp hle⟩

/-- A call that refuses has found one of the two lengths past its array. -/
theorem parse_refuses {payload : Argument} {len : UInt32} {ret : Int}
    {destUname destPw : List Byte} {d : Nat} (hcolon : payload.str.idxOf? 58 = some d)
    (hlow : -2 ^ 31 ≤ pwLength len d) (hhigh : pwLength len d + 1 < 2 ^ 31)
    (hparse : parseUsernamePw (List.replicate MAX_CHAR_USERID 0)
      (List.replicate MAX_CHAR_USERPASS 0) payload.buf (toInt32 len.toNat) =
        .ok (ret, destUname, destPw)) (hret : ret ≠ 0) :
    MAX_CHAR_USERID < toInt32 d ∨ MAX_CHAR_USERPASS < pwLength len d := by
  rw [parse_counted hcolon hlow hhigh] at hparse
  split at hparse
  · rename_i hlarge
    exact hlarge
  · obtain ⟨u, -, hparse⟩ := bind_eq_ok.mp hparse
    obtain ⟨p, -, hparse⟩ := bind_eq_ok.mp hparse
    cases hparse
    exact absurd rfl hret

/-- What does not fit has a field past its array. -/
theorem long_of_not_fits {payload : Argument} {len : UInt32} {d : Nat}
    (hcolon : payload.str.idxOf? 58 = some d) (hno : ¬ FieldsFit payload len d) :
    MAX_CHAR_USERID ≤ d ∨ MAX_CHAR_USERPASS ≤ (passwordField payload len d).length := by
  by_contra hshort
  obtain ⟨hd, hrest⟩ := not_or.mp hshort
  exact hno ⟨hcolon, Nat.not_le.mp hd, Nat.not_le.mp hrest⟩

/-- `parse_username_pw` keeps its contract exactly on the payloads whose lengths are clear. -/
theorem parsesExactly_iff (payload : Argument) (len : UInt32) :
    ParsesExactly payload len ↔ LengthsClear payload len := by
  constructor
  · rintro ⟨ret, destUname, destPw, hparse, hzero, -, -⟩
    obtain ⟨d, hcolon, hlow, hhigh⟩ := parse_ok_counted hparse
    refine ⟨d, hcolon, hlow, hhigh, ?_⟩
    by_cases hret : ret = 0
    · obtain ⟨d', hfit⟩ := hzero.mp hret
      obtain rfl := fieldsFit_unique hfit hcolon
      obtain ⟨hnonneg, hle⟩ := parse_accepts hcolon hlow hhigh (hret ▸ hparse)
      exact Or.inr (Or.inr ⟨hfit.username, hnonneg, hle, hfit.password⟩)
    · have hlong := long_of_not_fits hcolon fun hfit => hret (hzero.mpr ⟨d, hfit⟩)
      rcases parse_refuses hcolon hlow hhigh hparse hret with hname | hpw
      · exact Or.inl hname
      · exact Or.inr (Or.inl ⟨hpw, hlong⟩)
  · rintro ⟨d, hcolon, hlow, hhigh, hclear⟩
    -- the first two ways are refusals, the third is an acceptance
    have hrefused : ∀ (_ : toInt32 d > MAX_CHAR_USERID ∨ pwLength len d > MAX_CHAR_USERPASS)
        (_ : MAX_CHAR_USERID ≤ d ∨ MAX_CHAR_USERPASS ≤ (passwordField payload len d).length),
        ParsesExactly payload len := by
      intro hlarge hlong
      have hno := not_fieldsFit hcolon hlong
      refine ⟨-1, _, _, ?_, ?_, fun d' hfit => absurd hfit (hno d'), fun _ => ⟨rfl, rfl⟩⟩
      · rw [parse_counted hcolon hlow hhigh, if_pos hlarge]
      · exact iff_of_false (by decide) (fun ⟨d', hfit⟩ => hno d' hfit)
    rcases hclear with hname | ⟨hpw, hlong⟩ | ⟨hd, hnonneg, hle, hrest⟩
    · exact hrefused (Or.inl hname) (Or.inl (le_of_toInt32 hname))
    · exact hrefused (Or.inr hpw) hlong
    · have hfit : FieldsFit payload len d := ⟨hcolon, hd, hrest⟩
      obtain ⟨destUname, destPw, hparse, hname, hpassword⟩ := parse_fits hfit hnonneg hle
      refine ⟨0, destUname, destPw, hparse, iff_of_true rfl ⟨d, hfit⟩, ?_, ?_⟩
      · intro d' hfit'
        obtain rfl := fieldsFit_unique hfit' hcolon
        exact ⟨hname, hpassword⟩
      · intro hno
        exact absurd hfit (hno d)

/-- The payload `abcdefgh:p`. -/
def eightBytePayload : Argument :=
  ⟨[97, 98, 99, 100, 101, 102, 103, 104, 58, 112], [], by decide⟩

/-- A username of eight bytes is accepted and fills its array, which then holds no string. -/
theorem eight_byte_username : ¬ ParsesExactly eightBytePayload 10 := by
  rintro ⟨ret, destUname, destPw, hparse, hzero, -, -⟩
  have hrun : Lts.returns (parseUsernamePw (List.replicate MAX_CHAR_USERID 0)
      (List.replicate MAX_CHAR_USERPASS 0) eightBytePayload.buf (toInt32 (10 : UInt32).toNat))
      (fun r => r.1 = 0) = true := by
    decide +kernel
  rw [hparse] at hrun
  obtain ⟨d, hfit⟩ := hzero.mp (of_decide_eq_true hrun)
  have hcolon : eightBytePayload.str.idxOf? 58 = some 8 := by
    decide +kernel
  obtain rfl := fieldsFit_unique hfit hcolon
  exact absurd hfit.username (by decide)

end GroupChat
