import GroupChat.Credential.Payload
import GroupChat.Wire

/-!
# What is typed and what arrives

The client puts the username and the password that were typed into one payload with a colon between
them, and the server takes it apart at its first colon. They arrive as they were typed exactly when
the username has no colon (`roundTrips_iff`); with one, two different pairs can arrive as the same
credentials (`colon_collides`).
-/

namespace GroupChat

open Posix

/-- `fill_username_password`. The block has the fields that `malloc` left in it; its payload is
written from end to end. -/
def fillUsernamePassword (raw : Mainhdr) (username password : List Byte) : Except Fault Mainhdr := do
  let usernameLength := toInt32 (← cstr username).length
  let passwordLength := toInt32 (← cstr password).length
  let len ← intResult ((← intResult (usernameLength + passwordLength)) + 1)
  let payload := List.replicate (toSizeT len) 0
  let payload ← strncpy payload username (toSizeT usernameLength)
  let payload := payload.set usernameLength.toNat 58
  let rest ← strncpy (payload.drop (usernameLength.toNat + 1)) password (toSizeT passwordLength)
  return { raw with
    len := UInt32.ofInt len
    payload := payload.take (usernameLength.toNat + 1) ++ rest }

/-- A username and a password that the prompts of the client take, in their arrays. -/
structure Typed where
  username : Argument
  password : Argument
  username_ne : username.str ≠ []
  password_ne : password.str ≠ []
  username_lt : username.str.length < MAX_CHAR_USERID
  password_lt : password.str.length < MAX_CHAR_USERPASS
  username_typed : ∀ b ∈ username.str, isSpace b = false
  password_typed : ∀ b ∈ password.str, isSpace b = false

/-- What the parser of the server makes of the packet of the client. -/
def Arrives (raw : Mainhdr) (t : Typed) (r : Int × List Byte × List Byte) : Prop :=
  ∃ hdr, fillUsernamePassword raw t.username.buf t.password.buf = .ok hdr ∧
    parseCredentials hdr.payload hdr.len = .ok r

/-- What was typed is what arrives. -/
def RoundTrips (raw : Mainhdr) (t : Typed) : Prop :=
  ∃ destUname destPw, Arrives raw t (0, destUname, destPw) ∧
    cstr destUname = .ok t.username.str ∧ cstr destPw = .ok t.password.str

namespace Typed

variable (t : Typed)

def payload : List Byte := t.username.str ++ 58 :: t.password.str

theorem lengths : t.username.str.length < 8 ∧ t.password.str.length < 128 :=
  ⟨t.username_lt, t.password_lt⟩

theorem nul_not_mem_payload : 0 ∉ t.payload := by
  rw [payload, List.mem_append, List.mem_cons, not_or, not_or]
  exact ⟨t.username.nul_not_mem, by decide, t.password.nul_not_mem⟩

/-- The payload as `read_main_header` leaves it, with the terminator. -/
def received : Argument := ⟨t.payload, [], t.nul_not_mem_payload⟩

end Typed

theorem ofInt_natCast (n : Nat) : UInt32.ofInt n = UInt32.ofNat n := by
  apply UInt32.toNat_inj.mp
  rw [UInt32.ofInt, UInt32.toNat_ofNat', UInt32.toNat_ofNat']
  omega

/-- What `fill_username_password` makes of two arrays that hold strings. -/
theorem fillUsernamePassword_eq (raw : Mainhdr) {username password : Argument}
    (hulen : username.str.length < MAX_CHAR_USERID)
    (hplen : password.str.length < MAX_CHAR_USERPASS) :
    fillUsernamePassword raw username.buf password.buf =
      .ok { raw with
        len := UInt32.ofNat (username.str ++ 58 :: password.str).length
        payload := username.str ++ 58 :: password.str } := by
  rw [MAX_CHAR_USERID] at hulen
  rw [MAX_CHAR_USERPASS] at hplen
  have hpayload : (username.str ++ 58 :: password.str).length =
      username.str.length + password.str.length + 1 := by
    rw [List.length_append, List.length_cons, Nat.add_assoc]
  generalize hall : (username.str ++ 58 :: password.str).length = n at hpayload ⊢
  have hname : toInt32 username.str.length = username.str.length := toInt32_of_lt (by omega)
  have hword : toInt32 password.str.length = password.str.length := toInt32_of_lt (by omega)
  have hsum : intResult ((username.str.length : Int) + password.str.length) =
      .ok ((username.str.length + password.str.length : Nat) : Int) :=
    intResult_eq_ok.mpr ⟨by omega, by omega, by omega⟩
  have hlen : intResult (((username.str.length + password.str.length : Nat) : Int) + 1) =
      .ok (n : Int) :=
    intResult_eq_ok.mpr ⟨by omega, by omega, by omega⟩
  have hcopy : strncpy (List.replicate n 0) username.buf username.str.length =
      .ok (username.str ++ List.replicate (password.str.length + 1) 0) := by
    have hroom : n - username.str.length = password.str.length + 1 := by omega
    rw [Argument.buf, terminated, strncpy_prefix username.nul_not_mem (by omega), hroom]
  have hset : (username.str ++ List.replicate (password.str.length + 1) 0).set
      username.str.length 58 = username.str ++ 58 :: List.replicate password.str.length 0 := by
    rw [List.set_append_right _ _ (le_refl _), Nat.sub_self, List.replicate_succ]
    rfl
  have hdrop : (username.str ++ 58 :: List.replicate password.str.length (0 : Byte)).drop
      (username.str.length + 1) = List.replicate password.str.length 0 := by
    rw [List.drop_length_add_append]
    rfl
  have htake : (username.str ++ 58 :: List.replicate password.str.length (0 : Byte)).take
      (username.str.length + 1) = username.str ++ [58] := by
    rw [List.take_length_add_append]
    rfl
  have hcopy' : strncpy (List.replicate password.str.length 0) password.buf
      password.str.length = .ok password.str := by
    rw [Argument.buf, terminated, strncpy_prefix password.nul_not_mem (le_refl _), Nat.sub_self]
    exact congrArg Except.ok (List.append_nil _)
  rw [fillUsernamePassword, username.cstr_buf, ok_bind, password.cstr_buf, ok_bind]
  simp only [hname, hword, Int.toNat_natCast]
  rw [hsum, ok_bind, hlen, ok_bind, toSizeT_of_lt (by omega), toSizeT_of_lt (by omega), hcopy,
    ok_bind, hset, hdrop, toSizeT_of_lt (by omega), hcopy', ok_bind, htake, List.append_assoc,
    ofInt_natCast]
  rfl

theorem fillUsernamePassword_typed (raw : Mainhdr) (t : Typed) :
    fillUsernamePassword raw t.username.buf t.password.buf =
      .ok { raw with len := UInt32.ofNat t.payload.length, payload := t.payload } :=
  fillUsernamePassword_eq raw t.username_lt t.password_lt

theorem arrives_iff {raw : Mainhdr} {t : Typed} {r : Int × List Byte × List Byte} :
    Arrives raw t r ↔
      parseCredentials t.payload (UInt32.ofNat t.payload.length) = .ok r := by
  rw [Arrives, fillUsernamePassword_typed]
  constructor
  · rintro ⟨hdr, hfill, hparse⟩
    cases hfill
    exact hparse
  · intro hparse
    exact ⟨_, rfl, hparse⟩

/-- Without a colon in the username, both arrive. -/
theorem roundTrips_of_no_colon {raw : Mainhdr} {t : Typed} (h : 58 ∉ t.username.str) :
    RoundTrips raw t := by
  have hparse := parseCredentials_fields t.username.nul_not_mem h t.password.nul_not_mem
    t.username_lt.le t.password_lt.le
  refine ⟨_, _, arrives_iff.mpr hparse, ?_, ?_⟩
  · exact cstr_padded t.username.nul_not_mem t.username_lt
  · exact cstr_padded t.password.nul_not_mem t.password_lt

/-- With a colon in it, the username that arrives ends before its first colon. -/
theorem cstr_of_colon {raw : Mainhdr} {t : Typed} {destUname destPw u : List Byte}
    (hcolon : 58 ∈ t.username.str) (harrives : Arrives raw t (0, destUname, destPw))
    (hu : cstr destUname = .ok u) : u.length < t.username.str.length := by
  obtain ⟨hulen, -⟩ := t.lengths
  have hparse : parseUsernamePw (List.replicate MAX_CHAR_USERID 0)
      (List.replicate MAX_CHAR_USERPASS 0) t.received.buf
      (toInt32 (UInt32.ofNat t.payload.length).toNat) = .ok (0, destUname, destPw) :=
    arrives_iff.mp harrives
  obtain ⟨d, hd, hlow, hhigh⟩ := parse_ok_counted hparse
  have hlt : d < t.username.str.length := by
    obtain ⟨i, hi, hget⟩ := List.mem_iff_getElem.mp hcolon
    by_contra hge
    obtain ⟨hin, -, hfirst⟩ := List.idxOf?_eq_some_iff.mp hd
    have hget' : t.payload[i]? = some 58 := by
      rw [Typed.payload, List.getElem?_append_left hi, List.getElem?_eq_getElem hi, hget]
    exact hfirst i (by omega) (List.getElem?_eq_some_iff.mp hget').2
  have hname : toInt32 d = d := toInt32_of_lt (by omega)
  rw [parse_counted hd hlow hhigh] at hparse
  split at hparse
  · cases hparse
  · obtain ⟨u', hu', hparse⟩ := bind_eq_ok.mp hparse
    obtain ⟨p', -, hparse⟩ := bind_eq_ok.mp hparse
    cases hparse
    have hd8 : d ≤ MAX_CHAR_USERID := by
      rw [MAX_CHAR_USERID]
      omega
    rw [hname, toSizeT_of_lt (by omega), Argument.buf,
      strncpy_take t.received.nul_not_mem hd8] at hu'
    have htake : (t.received.str.take d).length = d :=
      List.length_take_of_le (lt_of_idxOf? hd).le
    have h0 : 0 ∉ t.received.str.take d := fun h =>
      t.received.nul_not_mem (List.mem_of_mem_take h)
    cases hu'
    rw [cstr_padded h0 (by rw [htake, MAX_CHAR_USERID]; omega)] at hu
    rw [← Except.ok.inj hu, htake]
    exact hlt

/-- Username and password arrive as typed exactly when the username has no colon, and pairs without
one arrive as the same credentials only if they are the same. -/
theorem roundTrips_iff (raw : Mainhdr) (t : Typed) :
    (RoundTrips raw t ↔ 58 ∉ t.username.str) ∧
    ∀ raw' t' r, 58 ∉ t.username.str → 58 ∉ t'.username.str → Arrives raw t r →
      Arrives raw' t' r → t.username.str = t'.username.str ∧ t.password.str = t'.password.str := by
  refine ⟨?_, ?_⟩
  · constructor
    · rintro ⟨destUname, destPw, harrives, hname, -⟩ hcolon
      exact Nat.lt_irrefl _ (cstr_of_colon hcolon harrives hname)
    · exact roundTrips_of_no_colon
  · intro raw' t' r hcolon hcolon' harrives harrives'
    have hround : RoundTrips raw t := roundTrips_of_no_colon hcolon
    have hround' : RoundTrips raw' t' := roundTrips_of_no_colon hcolon'
    obtain ⟨u, p, hr, hu, hp⟩ := hround
    obtain ⟨u', p', hr', hu', hp'⟩ := hround'
    have heq := (arrives_iff.mp hr).symm.trans (arrives_iff.mp harrives)
    have heq' := (arrives_iff.mp hr').symm.trans (arrives_iff.mp harrives')
    cases heq.trans heq'.symm
    exact ⟨Except.ok.inj (hu.symm.trans hu'), Except.ok.inj (hp.symm.trans hp')⟩

/-- The username `a:b` with the password `c`. -/
def colonInName : Typed where
  username := ⟨[97, 58, 98], [0, 0, 0, 0], by decide⟩
  password := ⟨[99], List.replicate 126 0, by decide⟩
  username_ne := by decide
  password_ne := by decide
  username_lt := by decide
  password_lt := by decide
  username_typed := by simp [isSpace]
  password_typed := by simp [isSpace]

/-- The username `a` with the password `b:c`. -/
def colonInPassword : Typed where
  username := ⟨[97], [0, 0, 0, 0, 0, 0], by decide⟩
  password := ⟨[98, 58, 99], List.replicate 124 0, by decide⟩
  username_ne := by decide
  password_ne := by decide
  username_lt := by decide
  password_lt := by decide
  username_typed := by simp [isSpace]
  password_typed := by simp [isSpace]

/-- The two arrive as the same credentials, and the first not as it was typed. -/
theorem colon_collides : ¬ RoundTrips ⟨0, 0, 0, 0, []⟩ colonInName ∧
    ∃ r, Arrives ⟨0, 0, 0, 0, []⟩ colonInName r ∧ Arrives ⟨0, 0, 0, 0, []⟩ colonInPassword r := by
  have hsame : colonInName.payload = colonInPassword.payload := by
    decide
  obtain ⟨u, p, hr, -, -⟩ : RoundTrips ⟨0, 0, 0, 0, []⟩ colonInPassword :=
    roundTrips_of_no_colon (by decide)
  refine ⟨?_, (0, u, p), ?_, hr⟩
  · rintro ⟨destUname, destPw, harrives, hname, -⟩
    exact Nat.lt_irrefl _ (cstr_of_colon (by decide) harrives hname)
  · rw [arrives_iff, hsame]
    exact arrives_iff.mp hr

end GroupChat
