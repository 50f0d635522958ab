import GroupChat.Client.Windows
import GroupChat.Server.Delivery

/-!
# Messages after joining

The main thread queues its acceptance of an invitation before it calls `create_new_group`, so
the server may have the answer, and the client a message of the group, before the group has a
queue. An acceptance that is on its way or has been processed is of a group that has a queue or
that the main thread is about to give one (`Sound`). So a message of the group is lost exactly
when the reader comes to it in between.
-/

namespace GroupChat

open Posix Probing

namespace Session

/-- The next packet for the reader is a chat message that the server has sent after it had
processed an acceptance for its group. -/
def Awaits (s : Session) (recv : Mainhdr) : Prop :=
  ∃ x rest fd, s.toClient = x :: rest ∧ x.sent = .packet fd recv ∧ recv.cmd = SEND_CHAT ∧
    recv.gid ∈ x.accepted

/-- The reader adds the message to the queue of its group. -/
def Keeps (fuel : Nat) (s : Session) (recv : Mainhdr) : Prop :=
  ∃ s' q w m, s.step fuel .read = .ok ((), s') ∧
    hashmapGet s.client.groupMapping recv.gid.toUInt64 = some (MAP_OK, some q, m) ∧
    s.client.windows[q]? = some w ∧ w.gid = recv.gid ∧
    s'.client.windows[q]? = some { w with gidQueue := w.gidQueue ++ [recv] }

/-- No message that comes after joining is discarded. -/
def NoChatLost (fuel : Nat) (s : Session) (e : SessionEvent) : Prop :=
  e = .read → ∀ recv, s.Awaits recv → s.Keeps fuel recv

/-- The main thread is not between queueing its first acceptance for the group and giving the
group a queue, and no `hashmap_put` holds the lock of `group_mapping` forever. -/
def HasRegistered (s : Session) (e : SessionEvent) : Prop :=
  e = .read → ∀ recv, s.Awaits recv →
    ¬ (s.client.main = .accepted recv.gid ∧ recv.gid ∉ s.client.gids) ∧
      s.client.groupMapping.lock = false

/-! ## Acceptances on their way -/

/-- An acceptance for the group is queued, on its way or processed. -/
inductive Pending (s : Session) (gid : UInt8) : Prop
  | queued (p : Packet) (mem : p ∈ s.client.outgoingMessageQueue) (accepts : Accepts p)
      (of : p.gid = gid)
  | sent (p : Packet) (mem : p ∈ s.toServer) (accepts : Accepts p) (of : p.gid = gid)
  | processed (mem : gid ∈ s.accepted)
  | answered (x : InFlight) (mem : x ∈ s.toClient) (accepted : gid ∈ x.accepted)

/-- The group has a queue or is about to get one. -/
def InHand (s : Session) (gid : UInt8) : Prop :=
  s.client.main = .accepted gid ∨ gid ∈ s.client.gids

structure Sound (s : Session) : Prop where
  mapped : s.client.Mapped
  running : s.client.readerWaits = false
  covered : ∀ gid, s.Pending gid → s.InHand gid

theorem sound_start (myUid : UInt16) (connfd : ConnId) (server : Server) :
    Sound (start myUid connfd server) := by
  refine ⟨Client.mapped_start myUid, rfl, ?_⟩
  intro gid pending
  cases pending with
  | queued p mem accepts of => exact absurd mem List.not_mem_nil
  | sent p mem accepts of => exact absurd mem List.not_mem_nil
  | processed mem => exact absurd mem List.not_mem_nil
  | answered x mem accepted => exact absurd mem List.not_mem_nil

variable {s s' : Session} {fuel : Nat} {e : SessionEvent}

/-- What a message needs to be kept, once the session is sound. -/
theorem Sound.keeps_iff (sound : Sound s) {recv : Mainhdr} (awaits : s.Awaits recv) :
    s.Keeps fuel recv ↔ ¬ (s.client.main = .accepted recv.gid ∧ recv.gid ∉ s.client.gids) := by
  obtain ⟨x, rest, fd, hnext, hsent, hcmd, hgid⟩ := awaits
  have inHand : s.InHand recv.gid :=
    sound.covered _ (.answered x (hnext ▸ List.mem_cons_self) hgid)
  constructor
  · rintro ⟨s', q, w, m, -, hget, -⟩ ⟨-, hnone⟩
    rw [sound.mapped.get_of_notMem hnone] at hget
    cases hget
  · intro hready
    have hmem : recv.gid ∈ s.client.gids := by
      by_contra hnone
      obtain hmain | hmem := inHand
      · exact hready ⟨hmain, hnone⟩
      · exact hnone hmem
    obtain ⟨q, w, hget, hw, hwgid⟩ := sound.mapped.get_of_mem hmem
    refine ⟨{ s with client := s.client.addMessage q recv, toClient := rest }, q, w, _, ?_, hget,
      hw, hwgid, ?_⟩
    · rw [step, sound.running, if_neg Bool.false_ne_true, hnext]
      simp only [hsent, Client.serverRead_chat hcmd hget]
    · change (s.client.windows.modify q _)[q]? = _
      rw [List.getElem?_modify_eq, hw]
      rfl

/-- When a call on `group_mapping` does not return, the reader keeps no message. -/
theorem not_keeps_of_held (hlock : s.client.groupMapping.lock = true) (recv : Mainhdr) :
    ¬ s.Keeps fuel recv := by
  rintro ⟨s', q, w, m, -, hget, -⟩
  rw [hashmapGet_held hlock] at hget
  cases hget

/-! ## What a step can do -/

theorem not_accepts_of_cmd {p : Packet} (h : p.cmd ≠ INVITE_RESP) : ¬ Accepts p :=
  fun accepts => h accepts.1

theorem not_accepts_request (gid : UInt8) (uid : UInt16) (r : GroupRequest) :
    ¬ Accepts (r.packet gid uid) := by
  apply not_accepts_of_cmd
  cases r with
  | invite username => exact (by decide : INVITE ≠ INVITE_RESP)
  | send message => exact (by decide : SEND_CHAT ≠ INVITE_RESP)
  | download filename => exact (by decide : DOWNLOAD_FILE ≠ INVITE_RESP)

/-- What a step does, without who has made it. -/
inductive Moved (fuel : Nat) (s : Session) : Session → Prop
  | answered (inviteGid : UInt8) (rest : List UInt8) (client : Client)
      (prompting : s.client.main = .prompting)
      (answers : Client.Answers { s.client with groupRequestQueue := rest } inviteGid client) :
      Moved fuel s { s with client := client }
  | registered (inviteGid : UInt8) (client : Client) (accepted : s.client.main = .accepted inviteGid)
      (created : s.client.createNewGroup fuel inviteGid = some client) :
      Moved fuel s { s with client := { client with main := .prompting } }
  | stuck : Moved fuel s { s with client := { s.client.hold with main := .waiting } }
  | queued (p : Packet) (quiet : ¬ Accepts p) : Moved fuel s { s with client := s.client.queue p }
  | uploaded (p : Packet) (quiet : ¬ Accepts p) :
      Moved fuel s { s with toServer := s.toServer ++ [p] }
  | written (hdr : Packet) (rest : List Packet)
      (next : s.client.outgoingMessageQueue = hdr :: rest) :
      Moved fuel s { s with
        client := { s.client with outgoingMessageQueue := rest }
        toServer := s.toServer ++ [hdr] }
  | handled (recv : Packet) (rest : List Packet) (sent : List Sent) (server : Server)
      (next : s.toServer = recv :: rest) :
      Moved fuel s { s.served sent server with
        toServer := rest
        accepted := if Accepts recv then recv.gid :: s.accepted else s.accepted }
  | served (sent : List Sent) (server : Server) : Moved fuel s (s.served sent server)
  | read (x : InFlight) (rest : List InFlight) (client : Client) (next : s.toClient = x :: rest)
      (reads : s.client.serverRead fuel x.sent = .ok client) :
      Moved fuel s { s with client := client, toClient := rest }
  | displayed (window : Nat) : Moved fuel s { s with client := s.client.display window }

theorem withClient_eq_ok {client : Option Client} :
    s.withClient client = .ok ((), s') ↔ ∃ c, client = some c ∧ s' = { s with client := c } := by
  cases client with
  | none =>
      constructor
      · intro h
        cases h
      · intro h
        obtain ⟨c, hc, -⟩ := h
        cases hc
  | some c =>
      constructor
      · intro h
        cases h
        exact ⟨c, rfl, rfl⟩
      · intro h
        obtain ⟨c', hc, rfl⟩ := h
        cases hc
        rfl

theorem moved_command {p : Packet} (quiet : ¬ Accepts p)
    (taken : s.withClient (s.client.command p) = .ok ((), s')) : Moved fuel s s' := by
  obtain ⟨client, hcommand, rfl⟩ := withClient_eq_ok.mp taken
  rw [Client.command] at hcommand
  cases hmain : s.client.main with
  | prompting =>
      rw [hmain] at hcommand
      cases hcommand
      exact .queued p quiet
  | accepted inviteGid =>
      rw [hmain] at hcommand
      cases hcommand
  | waiting =>
      rw [hmain] at hcommand
      cases hcommand

theorem moved_register (taken : s.withClient (s.client.register fuel) = .ok ((), s')) :
    Moved fuel s s' := by
  obtain ⟨client, hregister, rfl⟩ := withClient_eq_ok.mp taken
  rw [Client.register] at hregister
  cases hmain : s.client.main with
  | prompting =>
      rw [hmain] at hregister
      cases hregister
  | waiting =>
      rw [hmain] at hregister
      cases hregister
  | accepted inviteGid =>
      simp only [hmain] at hregister
      cases hcreate : s.client.createNewGroup fuel inviteGid with
      | none =>
          rw [hcreate] at hregister
          cases hregister
          exact .stuck
      | some created =>
          rw [hcreate] at hregister
          cases hregister
          exact .registered inviteGid created hmain hcreate

theorem step_moved (taken : s.step fuel e = .ok ((), s')) : Moved fuel s s' := by
  cases e with
  | answer answer =>
      obtain ⟨client, hanswer, rfl⟩ := withClient_eq_ok.mp taken
      obtain ⟨inviteGid, rest, prompting, answers⟩ := Client.answers_of_answerInvite hanswer
      exact .answered inviteGid rest client prompting answers
  | register => exact moved_register taken
  | newGroup =>
      have hne : CREATE_GROUP ≠ INVITE_RESP := by decide
      exact moved_command (not_accepts_of_cmd hne) taken
  | activeList =>
      have hne : ACTIVE_LIST ≠ INVITE_RESP := by decide
      exact moved_command (not_accepts_of_cmd hne) taken
  | request gid r => exact moved_command (not_accepts_request gid _ r) taken
  | typed window r =>
      obtain ⟨client, htyped, rfl⟩ := withClient_eq_ok.mp taken
      obtain ⟨w, -, rfl⟩ := Option.map_eq_some_iff.mp htyped
      exact .queued _ (not_accepts_request w.gid _ r)
  | upload file cmd =>
      cases taken
      have hne : SEND_FILE ≠ INVITE_RESP := by decide
      exact .uploaded file (not_accepts_of_cmd (cmd ▸ hne))
  | write =>
      rw [step] at taken
      cases hnext : s.client.outgoingMessageQueue with
      | nil =>
          rw [hnext] at taken
          cases taken
      | cons hdr rest =>
          simp only [hnext] at taken
          cases taken
          exact .written hdr rest hnext
  | serve heap =>
      rw [step] at taken
      cases hnext : s.toServer with
      | nil =>
          rw [hnext] at taken
          cases taken
      | cons recv rest =>
          simp only [hnext] at taken
          split at taken
          · cases taken
          · rename_i sent server hserver
            have hmoved : Moved fuel s _ := .handled recv rest sent server hnext
            by_cases accepts : Accepts recv
            · rw [if_pos accepts] at taken hmoved
              cases taken
              exact hmoved
            · rw [if_neg accepts] at taken hmoved
              cases taken
              exact hmoved
  | other e =>
      rw [step] at taken
      split at taken
      · cases taken
      · split at taken
        · cases taken
        · cases taken
          exact .served _ _
  | read =>
      rw [step] at taken
      split at taken
      · cases taken
      · cases hnext : s.toClient with
        | nil =>
            rw [hnext] at taken
            cases taken
        | cons x rest =>
            simp only [hnext] at taken
            split at taken
            · cases taken
            · rename_i client hread
              cases taken
              exact .read x rest client hnext hread
  | display window =>
      cases taken
      exact .displayed window

/-- A lock that is held stays held. -/
theorem Moved.held (moved : Moved fuel s s') (hlock : s.client.groupMapping.lock = true) :
    s'.client.groupMapping.lock = true := by
  cases moved with
  | answered inviteGid rest client prompting answers =>
      rw [answers.groupMapping]
      exact hlock
  | registered inviteGid client accepted created =>
      rw [Client.createNewGroup_held hlock] at created
      cases created
  | stuck => rfl
  | queued p quiet => exact hlock
  | uploaded p quiet => exact hlock
  | written hdr rest next => exact hlock
  | handled recv rest sent server next => exact hlock
  | served sent server => exact hlock
  | read x rest client next reads => exact Client.serverRead_held hlock reads
  | displayed window => exact hlock

/-! ## Every step keeps the session sound -/

/-- A step of the client alone, which queues acceptances only for groups in hand. -/
theorem Sound.withClient (sound : Sound s) (client : Client) (mapped : client.Mapped)
    (running : client.readerWaits = false)
    (hand : ∀ gid, s.InHand gid → InHand { s with client := client } gid)
    (queued : ∀ p ∈ client.outgoingMessageQueue, Accepts p →
      p ∈ s.client.outgoingMessageQueue ∨ InHand { s with client := client } p.gid) :
    Sound { s with client := client } := by
  refine ⟨mapped, running, ?_⟩
  intro gid pending
  cases pending with
  | queued p mem accepts of =>
      obtain hold | hnew := queued p mem accepts
      · exact hand gid (sound.covered gid (.queued p hold accepts of))
      · exact of ▸ hnew
  | sent p mem accepts of => exact hand gid (sound.covered gid (.sent p mem accepts of))
  | processed mem => exact hand gid (sound.covered gid (.processed mem))
  | answered x mem accepted => exact hand gid (sound.covered gid (.answered x mem accepted))

/-- A packet that accepts nothing goes to the outgoing queue. -/
theorem Sound.queue (sound : Sound s) {p : Packet} (hp : ¬ Accepts p) :
    Sound { s with client := s.client.queue p } := by
  apply sound.withClient (s.client.queue p) (sound.mapped.of_same rfl rfl) sound.running
    (fun gid => id)
  intro p' hmem accepts
  obtain hold | hnew := List.mem_append.mp hmem
  · exact Or.inl hold
  · rw [List.mem_singleton.mp hnew] at accepts
    exact absurd accepts hp

/-- Whoever accepts is about to register the group. -/
theorem Sound.answer (sound : Sound s) {inviteGid : UInt8} {rest : List UInt8} {client : Client}
    (prompting : s.client.main = .prompting)
    (answers : Client.Answers { s.client with groupRequestQueue := rest } inviteGid client) :
    Sound { s with client := client } := by
  have hand : ∀ gid, s.InHand gid → InHand { s with client := client } gid := by
    intro gid inHand
    obtain hmain | hmem := inHand
    · rw [prompting] at hmain
      cases hmain
    · apply Or.inr
      rw [Client.gids, answers.windows]
      exact hmem
  have hgids : client.gids = s.client.gids := by
    rw [Client.gids, answers.windows]
    rfl
  apply sound.withClient client (sound.mapped.of_same answers.groupMapping hgids)
    (answers.readerWaits.trans sound.running) hand
  intro p hmem accepts
  cases answers with
  | accepts =>
      obtain hold | hnew := List.mem_append.mp hmem
      · exact Or.inl hold
      · rw [List.mem_singleton.mp hnew]
        exact Or.inr (Or.inl rfl)
  | declines =>
      obtain hold | hnew := List.mem_append.mp hmem
      · exact Or.inl hold
      · rw [List.mem_singleton.mp hnew] at accepts
        have hdeclines : ([100, 0] : List Byte).head? ≠ some 97 := by decide
        exact absurd accepts.2 hdeclines
  | ignores => exact Or.inl hmem

/-- The group that was in hand has a queue now. -/
theorem Sound.register (sound : Sound s) {inviteGid : UInt8} {client : Client}
    (accepted : s.client.main = .accepted inviteGid)
    (created : s.client.createNewGroup (fuel + 1) inviteGid = some client) :
    Sound { s with client := { client with main := .prompting } } := by
  obtain hnone | ⟨m, hsome, mapped⟩ := sound.mapped.createNewGroup fuel inviteGid
  · rw [hnone] at created
    cases created
  · rw [hsome] at created
    cases created
    refine sound.withClient _ (mapped.of_same rfl rfl) sound.running ?_ ?_
    · intro gid inHand
      apply Or.inr
      change gid ∈ (s.client.windows ++ [_]).map GroupWindow.gid
      rw [List.map_append, List.mem_append]
      obtain hmain | hmem := inHand
      · rw [accepted] at hmain
        cases hmain
        exact Or.inr (List.mem_singleton_self _)
      · exact Or.inl hmem
    · exact fun p hmem _ => Or.inl hmem

/-- What the server sends carries the acceptances it has processed. -/
theorem Sound.served (sound : Sound s) (sent : List Sent) (server : Server) :
    Sound (s.served sent server) := by
  refine ⟨sound.mapped, sound.running, ?_⟩
  intro gid pending
  cases pending with
  | queued p mem accepts of => exact sound.covered gid (.queued p mem accepts of)
  | sent p mem accepts of => exact sound.covered gid (.sent p mem accepts of)
  | processed mem => exact sound.covered gid (.processed mem)
  | answered x mem accepted =>
      obtain hold | hnew := List.mem_append.mp mem
      · exact sound.covered gid (.answered x hold accepted)
      · obtain ⟨y, -, rfl⟩ := List.mem_map.mp hnew
        exact sound.covered gid (.processed accepted)

/-- The server takes a packet and remembers whether it was an acceptance. -/
theorem Sound.handled (sound : Sound s) {recv : Packet} {rest : List Packet} (sent : List Sent)
    (server : Server) (next : s.toServer = recv :: rest) :
    Sound { s.served sent server with
      toServer := rest
      accepted := if Accepts recv then recv.gid :: s.accepted else s.accepted } := by
  have served := sound.served sent server
  refine ⟨sound.mapped, sound.running, ?_⟩
  intro gid pending
  cases pending with
  | queued p mem accepts of => exact served.covered gid (.queued p mem accepts of)
  | answered x mem accepted => exact served.covered gid (.answered x mem accepted)
  | sent p mem accepts of =>
      exact sound.covered gid (.sent p (next ▸ List.mem_cons_of_mem _ mem) accepts of)
  | processed mem =>
      change gid ∈ (if Accepts recv then recv.gid :: s.accepted else s.accepted) at mem
      by_cases accepts : Accepts recv
      · rw [if_pos accepts] at mem
        obtain rfl | hold := List.mem_cons.mp mem
        · exact sound.covered _ (.sent recv (next ▸ List.mem_cons_self) accepts rfl)
        · exact sound.covered gid (.processed hold)
      · rw [if_neg accepts] at mem
        exact sound.covered gid (.processed mem)

theorem Sound.read (sound : Sound s) {x : InFlight} {rest : List InFlight} {client : Client}
    (next : s.toClient = x :: rest) (reads : s.client.serverRead (fuel + 1) x.sent = .ok client) :
    client.groupMapping.lock = true ∨ Sound { s with client := client, toClient := rest } := by
  obtain hheld | ⟨mapped, grows⟩ := sound.mapped.serverRead reads
  · exact Or.inl hheld
  · apply Or.inr
    have hrest : Sound { s with toClient := rest } := by
      refine ⟨sound.mapped, sound.running, ?_⟩
      intro gid pending
      cases pending with
      | queued p mem accepts of => exact sound.covered gid (.queued p mem accepts of)
      | sent p mem accepts of => exact sound.covered gid (.sent p mem accepts of)
      | processed mem => exact sound.covered gid (.processed mem)
      | answered y mem accepted =>
          exact sound.covered gid (.answered y (next ▸ List.mem_cons_of_mem _ mem) accepted)
    apply hrest.withClient client mapped (grows.readerWaits.trans sound.running)
    · intro gid inHand
      obtain hmain | hmem := inHand
      · exact Or.inl (grows.main.trans hmain)
      · exact Or.inr (grows.gids gid hmem)
    · intro p hmem accepts
      rw [grows.outgoingMessageQueue] at hmem
      exact Or.inl hmem

theorem Moved.sound (moved : Moved (fuel + 1) s s') (sound : Sound s) :
    s'.client.groupMapping.lock = true ∨ Sound s' := by
  cases moved with
  | answered inviteGid rest client prompting answers =>
      exact Or.inr (sound.answer prompting answers)
  | registered inviteGid client accepted created =>
      exact Or.inr (sound.register accepted created)
  | stuck => exact Or.inl rfl
  | queued p quiet => exact Or.inr (sound.queue quiet)
  | uploaded p quiet =>
      refine Or.inr ⟨sound.mapped, sound.running, ?_⟩
      intro gid pending
      cases pending with
      | queued p mem accepts of => exact sound.covered gid (.queued p mem accepts of)
      | processed mem => exact sound.covered gid (.processed mem)
      | answered x mem accepted => exact sound.covered gid (.answered x mem accepted)
      | sent p' mem accepts of =>
          obtain hold | hnew := List.mem_append.mp mem
          · exact sound.covered gid (.sent p' hold accepts of)
          · rw [List.mem_singleton.mp hnew] at accepts
            exact absurd accepts quiet
  | written hdr rest next =>
      refine Or.inr ⟨sound.mapped.of_same rfl rfl, sound.running, ?_⟩
      intro gid pending
      cases pending with
      | queued p mem accepts of =>
          exact sound.covered gid (.queued p (next ▸ List.mem_cons_of_mem _ mem) accepts of)
      | processed mem => exact sound.covered gid (.processed mem)
      | answered x mem accepted => exact sound.covered gid (.answered x mem accepted)
      | sent p mem accepts of =>
          obtain hold | hnew := List.mem_append.mp mem
          · exact sound.covered gid (.sent p hold accepts of)
          · rw [List.mem_singleton.mp hnew] at accepts of
            exact sound.covered gid (.queued hdr (next ▸ List.mem_cons_self) accepts of)
  | handled recv rest sent server next => exact Or.inr (sound.handled sent server next)
  | served sent server => exact Or.inr (sound.served sent server)
  | read x rest client next reads => exact sound.read next reads
  | displayed window =>
      apply Or.inr
      apply sound.withClient (s.client.display window)
        (sound.mapped.of_same rfl (Client.gids_display s.client window)) sound.running
      · intro gid inHand
        obtain hmain | hmem := inHand
        · exact Or.inl hmain
        · apply Or.inr
          rw [Client.gids_display]
          exact hmem
      · exact fun p hmem _ => Or.inl hmem

/-- What every reachable session satisfies. -/
def SoundOrHeld (s : Session) : Prop := s.client.groupMapping.lock = true ∨ Sound s

theorem noChatLost_iff (hsound : s.SoundOrHeld) :
    s.NoChatLost fuel e ↔ s.HasRegistered e := by
  apply imp_congr_right
  intro he
  apply forall_congr'
  intro recv
  apply imp_congr_right
  intro awaits
  obtain hlock | sound := hsound
  · apply iff_of_false
    · exact not_keeps_of_held hlock recv
    · rintro ⟨-, hfree⟩
      rw [hlock] at hfree
      cases hfree
  · rw [sound.keeps_iff awaits]
    exact (and_iff_left sound.mapped.unlocked).symm

end Session

open Session

section Runs

variable {fuel : Nat} {myUid : UInt16} {connfd : ConnId} {server : Server} {s : Session}
  {h : List (Lts.Taken Session SessionEvent Unit)}

theorem soundOrHeld_of_run
    (run : Lts.Run (Session.step (fuel + 1)) (.start myUid connfd server) h s) :
    s.SoundOrHeld := by
  induction run with
  | start => exact Or.inr (sound_start myUid connfd server)
  | @next h s s' e o run taken ih =>
      obtain hlock | sound := ih
      · exact Or.inl ((step_moved taken).held hlock)
      · exact (step_moved taken).sound sound

end Runs

/-- No chat message that is sent to the client after it has joined is lost exactly when the
reader comes to none before the main thread has given the group a queue. -/
theorem joinedChats_iff (fuel : Nat) (myUid : UInt16) (connfd : ConnId) (server : Server)
    (es : List SessionEvent) :
    Lts.Along (Session.step (fuel + 1)) (.start myUid connfd server) es
        (fun _ s e => s.NoChatLost (fuel + 1) e) ↔
      Lts.Along (Session.step (fuel + 1)) (.start myUid connfd server) es
        fun _ s e => s.HasRegistered e := by
  constructor
  · intro hkept h s e run hes
    exact (noChatLost_iff (soundOrHeld_of_run run)).mp (hkept h s e run hes)
  · intro hregistered h s e run hes
    exact (noChatLost_iff (soundOrHeld_of_run run)).mpr (hregistered h s e run hes)

/-! ## A message before the queue -/

def bothLoggedIn : List Event :=
  [.accept, .accept, .received 0 (loginPacket 97) (0, 0), .received 1 (loginPacket 98) (0, 0)]

/-- `INVITE` with a name of one letter. -/
def invitePacket (gid : UInt8) (uid : UInt16) (name : Byte) : Packet :=
  ⟨⟨INVITE, gid, uid, 1, [name]⟩, rfl⟩

/-- `a` invites `b`. The main thread of `b` accepts, the answer goes out and is handled, and
`a` writes to the group before the main thread of `b` goes on. -/
def acceptedOnly : List SessionEvent :=
  [.other (.received 0 (createGroupPacket 1) (0, 0)),
    .other (.received 0 (invitePacket 0 1 98) (0, 0)), .read, .answer 121, .write,
    .serve (0, 0), .other (.received 0 (chatPacketOf 0 1 104) (0, 0))]

theorem chat_before_queue : ¬ ∀ (fuel : Nat) (myUid : UInt16) (connfd : ConnId)
    (server : Server) (es : List SessionEvent),
    Lts.Along (Session.step (fuel + 1)) (.start myUid connfd server) es
      fun _ s e => s.NoChatLost (fuel + 1) e := by
  intro hall
  have hrun : Lts.returns (Lts.execute step bothLoggedIn [] (Server.start twoAccounts ∅))
      (fun r => Lts.returns (Lts.execute (Session.step 1) acceptedOnly [] (.start 2 1 r.2))
        fun r' => r'.2.client.main = .accepted 0 ∧ r'.2.client.windows = [] ∧
          r'.2.toClient = [⟨.packet 1 ⟨SEND_CHAT, 0, 1, 3, [97, 58, 104]⟩, [0]⟩]) = true := by
    decide +kernel
  obtain ⟨⟨h₀, server⟩, -, hsession⟩ := Lts.exists_of_returns hrun
  obtain ⟨⟨h, s⟩, hexec, htest⟩ := Lts.exists_of_returns hsession
  obtain ⟨hmain, hwindows, hnext⟩ := of_decide_eq_true htest
  obtain ⟨run, hevents⟩ := Lts.Run.start.of_execute hexec
  have hkept := hall 0 2 1 server (acceptedOnly ++ [.read]) h s .read run
    (by rw [hevents]; exact List.prefix_refl _)
  have hregistered := (noChatLost_iff (soundOrHeld_of_run run)).mp hkept rfl _
    ⟨_, _, _, hnext, rfl, rfl, List.mem_cons_self⟩
  refine hregistered.1 ⟨hmain, ?_⟩
  rw [Client.gids, hwindows]
  exact List.not_mem_nil

end GroupChat
