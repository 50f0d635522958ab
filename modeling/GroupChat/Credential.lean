import GroupChat.Posix.Text

/-!
# The credential file

The credential functions of `chat-server.c` and the payload parser of `util.c`. An account
is one line `uid username password` of the file; the four scanners read the file line by
line with `fgets`, split a line with `strtok` and compare a name with `strncmp` over the
length of the stored name.

Usernames and passwords are passed as arrays, so an array without a terminator is read past
its end. `fopen` and `fclose` keep the number of open handles on the file; `find_username`
has no `fclose`. Opening the file always succeeds here: descriptors never run out, however many
handles have been left open.
-/

namespace GroupChat

open Posix

def MAX_CHAR_USERID : Nat := 8
def MAX_CHAR_USERPASS : Nat := 128

def ERR_GENERIC : Int := -10
def ERR_USERNAME_EXIST : Int := -11
def ERR_NEED_LOGIN : Int := -12
def ERR_OUT_MEM : Int := -13

/-! ## The file -/

structure CredentialFile where
  content : List Byte
  handles : Nat
  deriving DecidableEq, Repr

namespace CredentialFile

def fopen (f : CredentialFile) : CredentialFile := { f with handles := f.handles + 1 }

def fclose (f : CredentialFile) : CredentialFile := { f with handles := f.handles - 1 }

/-- The strings that `fgets` puts in `char line[256]`, up to the end of the file. -/
def lines (f : CredentialFile) : List (List Byte) :=
  (fgetsLines 256 f.content).map (·.takeWhile (· ≠ 0))

end CredentialFile

/-- A call of `strtok` whose result is dereferenced. -/
def nextToken (s : List Byte) : Except Fault (List Byte × List Byte) :=
  match strtok s space with
  | none => .error .nullPointer
  | some r => .ok r

/-- `sscanf(uid_s, "%d", &uid)`, which may leave `uid` as it was. -/
def scanUid (uidS : List Byte) (uid : Int) : Except Fault Int :=
  (scanInt uidS).map (·.getD uid)

/-! ## The scanners -/

def findUidLoop (username : List Byte) : List (List Byte) → Int → Except Fault Int
  | [], _ => .ok ERR_GENERIC
  | line :: rest, uid => do
    let (uidS, save) ← nextToken line
    let uid ← scanUid uidS uid
    let (uname, _) ← nextToken save
    if (← strncmp username uname uname.length) = 0 then
      let _ ← cstr username
      return uid
    else findUidLoop username rest uid

/-- `find_uid`. -/
def findUid (username : List Byte) (f : CredentialFile) : Except Fault (Int × CredentialFile) := do
  let creFd := f.fopen
  let ret ← findUidLoop username creFd.lines 0
  return (ret, creFd.fclose)

def findUsernameLoop (inId : UInt16) (username : List Byte) :
    List (List Byte) → Int → Except Fault (Int × List Byte)
  | [], _ => .ok (ERR_GENERIC, username)
  | line :: rest, uid => do
    let (uidS, save) ← nextToken line
    let uid ← scanUid uidS uid
    if (inId.toNat : Int) = uid then
      let (uname, _) ← nextToken save
      let username ← strncpy username (uname ++ [0]) MAX_CHAR_USERID
      return ((← cstr username).length, username)
    else findUsernameLoop inId username rest uid

/-- `find_username`: the result and the array `username` afterwards. -/
def findUsername (inId : UInt16) (username : List Byte) (f : CredentialFile) :
    Except Fault (Int × List Byte × CredentialFile) := do
  let creFd := f.fopen
  let (ret, username) ← findUsernameLoop inId username creFd.lines 0
  return (ret, username, creFd)

def matchUserPwLoop (username password : List Byte) : List (List Byte) → Int → Except Fault Int
  | [], _ => .ok ERR_GENERIC
  | line :: rest, uid => do
    let (uidS, save) ← nextToken line
    let uid ← scanUid uidS uid
    let (uname, save) ← nextToken save
    if (← strncmp username uname uname.length) = 0 then
      let (pw, _) ← nextToken save
      if (← strncmp password pw (pw.length - 1)) = 0 then
        let _ ← cstr username
        return uid
      else matchUserPwLoop username password rest uid
    else matchUserPwLoop username password rest uid

/-- `match_user_pw`. -/
def matchUserPw (username password : List Byte) (f : CredentialFile) :
    Except Fault (Int × CredentialFile) := do
  let creFd := f.fopen
  let ret ← matchUserPwLoop username password creFd.lines 0
  return (ret, creFd.fclose)

/-- The scan of `create_user`: the count it ends with, unless the name is there already. -/
def createUserLoop (username : List Byte) : List (List Byte) → Nat → Except Fault (Option Nat)
  | [], count => .ok (some count)
  | line :: rest, count => do
    let count := count + 1
    if 2 ^ 31 ≤ count then throw .overflow
    let (_, save) ← nextToken line
    let (uname, _) ← nextToken save
    if (← strncmp username uname uname.length) = 0 then
      let _ ← cstr username
      return none
    else createUserLoop username rest count

/-- `fprintf( cre_fd, "%d %s %s\n", count, username, password )`. -/
def credentialLine (count : Nat) (username password : List Byte) : List Byte :=
  decimal count ++ space :: (username ++ space :: (password ++ [newline]))

/-- `create_user`. -/
def createUser (username password : List Byte) (f : CredentialFile) :
    Except Fault (Int × CredentialFile) := do
  let creFd := f.fopen
  match ← createUserLoop username creFd.lines 1 with
  | none => return (ERR_USERNAME_EXIST, creFd.fclose)
  | some count =>
    let line := credentialLine count (← cstr username) (← cstr password)
    return (count, { creFd with content := creFd.content ++ line }.fclose)

/-! ## The payload parser -/

/-- `parse_username_pw`: the result and the two destination arrays. The payload array ends
with the terminator `read_main_header` puts there. -/
def parseUsernamePw (destUname destPw payload : List Byte) (len : Int) :
    Except Fault (Int × List Byte × List Byte) := do
  match ← strchr payload 58 with
  | none => throw .nullPointer
  | some delim =>
    let unameLen := toInt32 delim
    let pwLen ← intResult ((← intResult (len - unameLen)) - 1)
    if unameLen > MAX_CHAR_USERID ∨ pwLen > MAX_CHAR_USERPASS then
      return (-1, destUname, destPw)
    else
      let destUname ← strncpy destUname payload (toSizeT unameLen)
      let destPw ← strncpy destPw (payload.drop (delim + 1)) (toSizeT pwLen)
      return (0, destUname, destPw)

/-- The arrays `username` and `password` of a handler after `memset` and
`parse_username_pw`. -/
def parseCredentials (payload : List Byte) (len : UInt32) :
    Except Fault (Int × List Byte × List Byte) :=
  parseUsernamePw (List.replicate MAX_CHAR_USERID 0) (List.replicate MAX_CHAR_USERPASS 0)
    (payload ++ [0]) (toInt32 len.toNat)

/-- The `USR_CREATE` case: the uid and the status byte of the reply, and the file. The
result of `parse_username_pw` is not looked at. -/
def usrCreate (payload : List Byte) (len : UInt32) (f : CredentialFile) :
    Except Fault (UInt16 × UInt8 × CredentialFile) := do
  let (_, username, password) ← parseCredentials payload len
  let _ ← cstr username
  let _ ← cstr password
  let (status, f) ← createUser username password f
  if status > 0 then
    let (newUid, f) ← matchUserPw username password f
    return (UInt16.ofInt newUid, 0, f)
  else return (0, UInt8.ofInt ERR_USERNAME_EXIST, f)

/-- The part of the `USR_LOGIN` case that decides it: the array `username` and the result of
`match_user_pw`. -/
def usrLogin (payload : List Byte) (len : UInt32) (f : CredentialFile) :
    Except Fault (List Byte × Int × CredentialFile) := do
  let (_, username, password) ← parseCredentials payload len
  let (status, f) ← matchUserPw username password f
  return (username, status, f)

end GroupChat
