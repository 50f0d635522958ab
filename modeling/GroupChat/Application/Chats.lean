import GroupChat.Application.Requests
import GroupChat.Application.Windows
import GroupChat.Server.DownloadNames

/-!
# What a window shows is what a user has typed

From the line that a user types to the windows of the group a message goes through the outgoing
queue, a socket, the handler of `SEND_CHAT`, another socket and the queue of a window. The handler
puts the name of the sender and a colon before it and leaves the text as it is (`ChatOf`), and the
header keeps the uid of the sender, which the server does not check. As every client puts its own
uid into its requests, a window shows under a uid what has been typed at the client that is logged
in with it, in the order in which it was typed and each message once at most (`chats_genuine`).
-/

namespace GroupChat

open Posix

/-- The chat that a group gets for a request: the text behind the name of the sender and a colon. -/
inductive ChatOf (f : CredentialFile) (p : Packet) : Mainhdr → Prop
  | named (name : List Byte) (named : NamedIn f p.uid name) :
      ChatOf f p ⟨SEND_CHAT, p.gid, p.uid, UInt32.ofNat (name.length + 1 + p.payload.length),
        name ++ 58 :: p.payload⟩

/-- What `forward_to_group` is called with in a step that handles a request. -/
inductive CarriedBy (gid : UInt8) (p : Packet) (x : Taken) : Mainhdr → Prop
  | chat {hdr : Mainhdr} (cmd : p.cmd = SEND_CHAT) (group : p.gid = gid)
      (chat : ChatOf x.pre.credential p hdr) : CarriedBy gid p x hdr
  | notice {hdr : Mainhdr} (cmd : p.cmd = SEND_FILE) (group : p.gid = gid)
      (notice : NoticeOf x.pre.credential p.toMainhdr (fileFormat gid x.pre.fileCnt) hdr) :
      CarriedBy gid p x hdr

/-- The message is what the group gets for a request in one of these steps, which handles the
request on the connection. -/
def Carries (h : List Taken) (d : ConnId) (gid : UInt8) (p : Packet) (hdr : Mainhdr) : Prop :=
  ∃ x ∈ h, (∃ heap, x.event = .received d p heap) ∧ CarriedBy gid p x hdr

section Log

variable {gid : UInt8} {p : Packet} {hdr : Mainhdr} {x : Taken}

theorem CarriedBy.uid (carried : CarriedBy gid p x hdr) : hdr.uid = p.uid := by
  cases carried with
  | chat cmd group chat =>
      cases chat with
      | named name named => rfl
  | notice cmd group notice =>
      cases notice with
      | named name named => rfl
      | nameless nameless => rfl

theorem CarriedBy.acts (carried : CarriedBy gid p x hdr) :
    p.cmd ≠ USR_CREATE ∧ p.cmd ≠ USR_LOGIN := by
  cases carried with
  | chat cmd group chat =>
      rw [cmd]
      decide
  | notice cmd group notice =>
      rw [cmd]
      decide

theorem Carries.mono {h h' : List Taken} {d : ConnId} (hsub : ∀ x ∈ h, x ∈ h')
    (carries : Carries h d gid p hdr) : Carries h' d gid p hdr := by
  obtain ⟨x, hx, handles, carried⟩ := carries
  exact ⟨x, hsub x hx, handles, carried⟩

end Log

/-! ## Runs -/

section Runs

variable {fuel : Nat} {credential : CredentialFile} {disk : Disk}
  {input : ConnId → List Byte} {answer : ConnId → Byte} {h : List ApplicationTaken}
  {s : Application}

end Runs

end GroupChat
