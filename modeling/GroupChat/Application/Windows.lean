import GroupChat.Application.Login
import GroupChat.Client.Windows
import GroupChat.Network.Order

/-!
# What the windows show

The reader puts a chat into the queue that `group_mapping` has for its group, and the window takes
the chats off that queue. A client logs in once, so the server has it in a group as one member at
most. Together: what a window has shown and what it is going to show are chats of its group in the
order of the server, each once, and they are all that have been read since the window was opened, if
the client has no other one for the group (`windows_in_order`).
-/

namespace GroupChat

open Posix

/-- What a step makes the window show. -/
def Client.shown (client : Client) (i : Nat) : ProcessEvent → List Mainhdr
  | .display window =>
    if window = i then (client.windows[i]?.bind fun w => w.gidQueue.head?).toList else []
  | _ => []

def Process.shown (e : ProcessEvent) (i : Nat) : Process → List Mainhdr
  | .dialogue _ => []
  | .chatting client => client.shown i e

def shownBy (c : ConnId) (i : Nat) (x : ApplicationTaken) : List Mainhdr :=
  match x.event with
  | .client d e => if d = c then (x.pre.clients d).shown e i else []
  | _ => []

/-- What the window of the client has shown so far. -/
def shownIn (c : ConnId) (i : Nat) (h : List ApplicationTaken) : List Mainhdr :=
  h.flatMap (shownBy c i)

def Process.window (i : Nat) : Process → Option GroupWindow
  | .dialogue _ => none
  | .chatting client => client.windows[i]?

/-- What a client reads in a step, if it has the window. -/
def readWith (c : ConnId) (i : Nat) (x : ApplicationTaken) : List Sent :=
  if ((x.pre.clients c).window i).isSome then receivedBy c x else []

/-- The chats of a group that a client has read since it opened the window. -/
def chatsSince (gid : UInt8) (c : ConnId) (i : Nat) (h : List ApplicationTaken) : List Mainhdr :=
  (h.flatMap (readWith c i)).filterMap (chatOf gid)

/-- The window is the only one that the client has for its group. -/
def Client.OnlyWindow (client : Client) (i : Nat) (gid : UInt8) : Prop :=
  ∀ j, client.gids[j]? = some gid → j = i

theorem Client.OnlyWindow.of_gids {client client' : Client} {i : Nat} {gid : UInt8}
    (only : client'.OnlyWindow i gid) (hgids : client'.gids = client.gids) :
    client.OnlyWindow i gid := fun j hj => only j (hgids ▸ hj)

/-- What the windows have shown, followed by what is in their queues. -/
structure WindowsInOrder (h : List ApplicationTaken) (s : Application) : Prop where
  ordered : ∀ c client i w, s.clients c = .chatting client → client.windows[i]? = some w →
    (shownIn c i h ++ w.gidQueue).Sublist (chatLog w.gid (serverSteps h))
  /-- as long as no call on `group_mapping` is stuck -/
  complete : ∀ c client i w, s.clients c = .chatting client →
    client.groupMapping.lock = false → client.windows[i]? = some w → client.OnlyWindow i w.gid →
    shownIn c i h ++ w.gidQueue = chatsSince w.gid c i h

/-! ## One step of a client -/

namespace Client

/-- What a step does to the windows. -/
inductive Windowed (client : Client) : ProcessEvent → Act → Client → Prop
  | still (e : ProcessEvent) (act : Act) (client' : Client) (free : client.groupMapping.lock = false)
      (windows : client'.windows = client.windows) (mapped : client'.Mapped)
      (misses : ∀ x ∈ act.read, ∀ gid ∈ client.gids, chatOf gid x = none)
      (shows : ∀ i, client.shown i e = []) : Windowed client e act client'
  | opened (e : ProcessEvent) (act : Act) (client' : Client) (gid : UInt8)
      (free : client.groupMapping.lock = false)
      (windows : client'.windows = client.windows ++ [⟨gid, []⟩]) (mapped : client'.Mapped)
      (misses : ∀ x ∈ act.read, ∀ gid, chatOf gid x = none)
      (shows : ∀ i, client.shown i e = []) : Windowed client e act client'
  /-- a call on `group_mapping` does not return -/
  | held (e : ProcessEvent) (act : Act) (client' : Client)
      (windows : client'.windows = client.windows) (locked : client'.groupMapping.lock = true)
      (shows : ∀ i, client.shown i e = []) : Windowed client e act client'
  | delivered (fd : ConnId) (recv : Mainhdr) (q : Nat) (w : GroupWindow)
      (cmd : recv.cmd = SEND_CHAT) (window : client.windows[q]? = some w) (group : w.gid = recv.gid)
      (mapped : (client.addMessage q recv).Mapped) :
      Windowed client .read (.reads (.packet fd recv)) (client.addMessage q recv)
  | displayed (i : Nat) : Windowed client (.display i) .silent (client.display i)

variable {client client' : Client} {fuel : Nat} {e : ProcessEvent} {act : Act}
  {incoming : Option Sent}

/-- A step that changes neither the windows nor `group_mapping` and reads nothing. -/
theorem Windowed.of_same (mapped : client.groupMapping.lock = true ∨ client.Mapped)
    (windows : client'.windows = client.windows)
    (groupMapping : client'.groupMapping = client.groupMapping) (unread : act.read = [])
    (shows : ∀ i, client.shown i e = []) : client.Windowed e act client' := by
  rcases mapped with locked | mapped
  · exact .held e act client' windows (groupMapping ▸ locked) shows
  · have hgids : client'.gids = client.gids := congrArg (List.map GroupWindow.gid) windows
    refine .still e act client' mapped.unlocked windows (mapped.of_same groupMapping hgids)
      (fun x hx => ?_) shows
    rw [unread] at hx
    exact absurd hx List.not_mem_nil

theorem windowed_command {p : Packet} (mapped : client.groupMapping.lock = true ∨ client.Mapped)
    (shows : ∀ i, client.shown i e = []) (h : silent (client.command p) = .ok (act, client')) :
    client.Windowed e act client' := by
  obtain ⟨rfl, hcommand⟩ := silent_eq_ok h
  rw [command] at hcommand
  split at hcommand
  · cases hcommand
    exact .of_same mapped rfl rfl rfl shows
  · cases hcommand

theorem windowed_register (mapped : client.groupMapping.lock = true ∨ client.Mapped)
    (h : silent (client.register (fuel + 1)) = .ok (act, client')) :
    client.Windowed .register act client' := by
  obtain ⟨rfl, hregister⟩ := silent_eq_ok h
  rw [register] at hregister
  split at hregister
  · rename_i inviteGid hmain
    rcases mapped with locked | mapped
    · rw [createNewGroup_held locked] at hregister
      cases hregister
      exact .held _ _ _ rfl rfl fun _ => rfl
    · obtain hnone | ⟨m, hsome, mapped'⟩ := mapped.createNewGroup fuel inviteGid
      · rw [hnone] at hregister
        cases hregister
        exact .held _ _ _ rfl rfl fun _ => rfl
      · rw [hsome] at hregister
        cases hregister
        exact .opened _ _ _ inviteGid mapped.unlocked rfl (mapped'.of_same rfl rfl)
          (fun x hx => absurd hx List.not_mem_nil) fun _ => rfl
  · cases hregister

/-- The reader when `group_mapping` is right. -/
theorem Mapped.windowed_read (mapped : client.Mapped) {x : Sent}
    (h : client.serverRead (fuel + 1) x = .ok client') :
    client.Windowed .read (.reads x) client' := by
  have hother : ∀ {client'' : Client}, client''.windows = client.windows →
      client''.groupMapping = client.groupMapping → (∀ gid ∈ client.gids, chatOf gid x = none) →
      client.Windowed .read (.reads x) client'' := by
    intro client'' hwindows hmapping hmiss
    have hgids : client''.gids = client.gids := congrArg (List.map GroupWindow.gid) hwindows
    refine .still _ _ _ mapped.unlocked hwindows (mapped.of_same hmapping hgids) (fun y hy => ?_)
      fun _ => rfl
    obtain rfl := List.mem_singleton.mp hy
    exact hmiss
  cases x with
  | file fd gid uid content =>
      cases h
      exact hother rfl rfl fun _ _ => rfl
  | packet fd recv =>
      rw [Client.serverRead] at h
      by_cases hchat : recv.cmd = SEND_CHAT
      · rw [if_pos hchat] at h
        by_cases hgid : recv.gid ∈ client.gids
        · obtain ⟨q, w, hget, hw, hwgid⟩ := mapped.get_of_mem hgid
          rw [hget] at h
          cases h
          exact .delivered fd recv q w hchat hw hwgid
            (mapped.of_same rfl (gids_addMessage client q recv))
        · rw [mapped.get_of_notMem hgid] at h
          cases h
          refine hother rfl rfl fun gid hmem => if_neg ?_
          rintro ⟨-, rfl⟩
          exact hgid hmem
      have hmiss : ∀ gid, chatOf gid (.packet fd recv) = none := fun gid => chatOf_of_ne hchat
      rw [if_neg hchat] at h
      by_cases hinvite : recv.cmd = INVITE
      · rw [if_pos hinvite] at h
        cases h
        exact hother rfl rfl fun gid _ => hmiss gid
      rw [if_neg hinvite] at h
      by_cases hcreate : recv.cmd = CREATE_GROUP ∧ (recv.payload ++ [0]).head? = some (0 : Byte)
      · rw [if_pos hcreate] at h
        obtain hnone | ⟨m, hsome, mapped'⟩ := mapped.createNewGroup fuel recv.gid
        · rw [hnone] at h
          cases h
          exact .held _ _ _ rfl rfl fun _ => rfl
        · rw [hsome] at h
          cases h
          refine .opened _ _ _ recv.gid mapped.unlocked rfl mapped' (fun y hy => ?_) fun _ => rfl
          obtain rfl := List.mem_singleton.mp hy
          exact hmiss
      · rw [if_neg hcreate] at h
        cases h
        exact hother rfl rfl fun gid _ => hmiss gid

/-- The reader when a call on `group_mapping` is stuck. -/
theorem windowed_read_held (locked : client.groupMapping.lock = true) {x : Sent}
    (h : client.serverRead fuel x = .ok client') : client.Windowed .read (.reads x) client' := by
  have hwindows : client'.windows = client.windows := by
    cases x with
    | file fd gid uid content =>
        cases h
        rfl
    | packet fd recv =>
        rw [serverRead, hashmapGet_held locked, createNewGroup_held locked] at h
        split at h
        · cases h
          rfl
        · split at h
          · cases h
            rfl
          · split at h
            · cases h
              rfl
            · cases h
              rfl
  exact .held _ _ _ hwindows (serverRead_held locked h) fun _ => rfl

theorem windowed_of_next (mapped : client.groupMapping.lock = true ∨ client.Mapped)
    (h : client.next (fuel + 1) incoming e = .ok (act, client')) : client.Windowed e act client' := by
  cases e with
  | turn raw => cases h
  | answer answer =>
      obtain ⟨rfl, hanswer⟩ := silent_eq_ok h
      obtain ⟨inviteGid, rest, -, answers⟩ := answers_of_answerInvite hanswer
      exact .of_same mapped answers.windows answers.groupMapping rfl fun _ => rfl
  | register => exact windowed_register mapped h
  | newGroup => exact windowed_command mapped (fun _ => rfl) h
  | activeList => exact windowed_command mapped (fun _ => rfl) h
  | request gid r => exact windowed_command mapped (fun _ => rfl) h
  | typed window r =>
      obtain ⟨rfl, htyped⟩ := silent_eq_ok h
      obtain ⟨w, -, rfl⟩ := Option.map_eq_some_iff.mp htyped
      exact .of_same mapped rfl rfl rfl fun _ => rfl
  | upload gid file =>
      cases h
      exact .of_same mapped rfl rfl rfl fun _ => rfl
  | write =>
      simp only [next] at h
      split at h
      · cases h
      · cases h
        exact .of_same mapped rfl rfl rfl fun _ => rfl
  | read =>
      simp only [next] at h
      split at h
      · cases h
      · split at h
        · cases h
        · split at h
          · cases h
          · rename_i hread
            cases h
            rcases mapped with locked | mapped
            · exact windowed_read_held locked hread
            · exact mapped.windowed_read hread
  | display window =>
      cases h
      exact .displayed window

end Client

/-! ## The windows and what has been read -/

/-- What the client has read is `read`, since it opened the windows `since`, and what the windows
have shown is `shown`. -/
structure WindowsKept (read : List Sent) (since : Nat → List Sent) (shown : Nat → List Mainhdr)
    (client : Client) : Prop where
  mapped : client.groupMapping.lock = true ∨ client.Mapped
  ordered : ∀ i w, client.windows[i]? = some w →
    (shown i ++ w.gidQueue).Sublist (read.filterMap (chatOf w.gid))
  complete : client.groupMapping.lock = false → ∀ i w, client.windows[i]? = some w →
    client.OnlyWindow i w.gid → shown i ++ w.gidQueue = (since i).filterMap (chatOf w.gid)
  unopened : ∀ i, client.windows[i]? = none → shown i = [] ∧ since i = []

section Steps

variable {read : List Sent} {since : Nat → List Sent} {shown : Nat → List Mainhdr}
  {client client' : Client} {e : ProcessEvent} {act : Act}

theorem windowsKept_start (read : List Sent) (hnone : ∀ i, shown i = [] ∧ since i = [])
    (uid : UInt16) : WindowsKept read since shown (.start uid) where
  mapped := Or.inr (Client.mapped_start uid)
  ordered := fun i w hw => absurd hw (by simp [Client.start])
  complete := fun _ i w hw => absurd hw (by simp [Client.start])
  unopened := fun i _ => hnone i

theorem Client.getElem?_gids {i : Nat} {w : GroupWindow} (hw : client.windows[i]? = some w) :
    client.gids[i]? = some w.gid := by
  rw [gids, List.getElem?_map, hw]
  rfl

theorem Client.mem_gids {i : Nat} {w : GroupWindow} (hw : client.windows[i]? = some w) :
    w.gid ∈ client.gids := List.mem_of_getElem? (getElem?_gids hw)

theorem getElem?_of_modify {l : List GroupWindow} {f : GroupWindow → GroupWindow} {i j : Nat}
    (h : (l.modify j f)[i]? = none) : l[i]? = none := by
  rw [List.getElem?_modify] at h
  exact Option.map_eq_none_iff.mp h

/-- What has been read grows. -/
theorem filterMap_sublist_append (gid : UInt8) (read new : List Sent) :
    (read.filterMap (chatOf gid)).Sublist ((read ++ new).filterMap (chatOf gid)) := by
  rw [List.filterMap_append]
  exact List.sublist_append_left _ _

theorem filterMap_append_of_misses {gid : UInt8} {new : List Sent}
    (hmiss : ∀ x ∈ new, chatOf gid x = none) :
    (read ++ new).filterMap (chatOf gid) = read.filterMap (chatOf gid) := by
  rw [List.filterMap_append, List.filterMap_eq_nil_iff.mpr hmiss, List.append_nil]

/-- What the client has read since it opened a window, after one more step. -/
def Client.sinceThen (client : Client) (since : Nat → List Sent) (act : Act) (i : Nat) : List Sent :=
  since i ++ if (client.windows[i]?).isSome then act.read else []

theorem Client.sinceThen_of_window {i : Nat} {w : GroupWindow} (hw : client.windows[i]? = some w) :
    client.sinceThen since act i = since i ++ act.read := by
  rw [sinceThen, hw]
  rfl

theorem Client.sinceThen_of_none {i : Nat} (hi : client.windows[i]? = none) :
    client.sinceThen since act i = since i := by
  rw [sinceThen, hi]
  exact List.append_nil _

theorem Client.sinceThen_of_unread (unread : act.read = []) :
    client.sinceThen since act = since := by
  funext i
  rw [sinceThen, unread, ite_self, List.append_nil]

/-- A chat goes to the end of one queue. -/
theorem WindowsKept.delivered {fd : ConnId} {recv : Mainhdr} {q : Nat} {w : GroupWindow}
    (kept : WindowsKept read since shown client) (cmd : recv.cmd = SEND_CHAT)
    (window : client.windows[q]? = some w) (group : w.gid = recv.gid)
    (mapped : (client.addMessage q recv).Mapped) :
    WindowsKept (read ++ [.packet fd recv]) (client.sinceThen since (.reads (.packet fd recv))) shown
      (client.addMessage q recv) := by
  have hat : ∀ i w', (client.addMessage q recv).windows[i]? = some w' →
      ∃ w, client.windows[i]? = some w ∧
        w' = if q = i then { w with gidQueue := w.gidQueue ++ [recv] } else w := by
    intro i w' hw'
    change (client.windows.modify q fun w => { w with gidQueue := w.gidQueue ++ [recv] })[i]? = _
      at hw'
    rw [List.getElem?_modify] at hw'
    obtain ⟨w, hw, rfl⟩ := Option.map_eq_some_iff.mp hw'
    exact ⟨w, hw, rfl⟩
  have hread : ∀ read, (read ++ [Sent.packet fd recv]).filterMap (chatOf recv.gid) =
      read.filterMap (chatOf recv.gid) ++ [recv] := by
    intro read
    have hchat : chatOf recv.gid (.packet fd recv) = some recv := if_pos ⟨cmd, rfl⟩
    rw [List.filterMap_append, List.filterMap_cons_some hchat, List.filterMap_nil]
  refine ⟨Or.inr mapped, fun i w' hw' => ?_, fun free i w' hw' only => ?_, fun i hi => ?_⟩
  · obtain ⟨w₁, hw₁, rfl⟩ := hat i w' hw'
    by_cases hq : q = i
    · subst hq
      obtain rfl := Option.some.inj (hw₁.symm.trans window)
      rw [if_pos rfl]
      dsimp only
      rw [← List.append_assoc, group, hread]
      exact (group ▸ kept.ordered q w₁ window).append (List.Sublist.refl [recv])
    · rw [if_neg hq]
      exact (kept.ordered i w₁ hw₁).trans (filterMap_sublist_append _ _ _)
  · obtain ⟨w₁, hw₁, rfl⟩ := hat i w' hw'
    have hfree : client.groupMapping.lock = false := free
    by_cases hq : q = i
    · subst hq
      obtain rfl := Option.some.inj (hw₁.symm.trans window)
      rw [if_pos rfl] at only ⊢
      have hall := kept.complete hfree q w₁ window
        (only.of_gids (Client.gids_addMessage client q recv))
      rw [group] at hall
      rw [Client.sinceThen_of_window window]
      dsimp only [Act.read]
      rw [← List.append_assoc, group, hread, hall]
    · rw [if_neg hq] at only ⊢
      have honly : client.OnlyWindow i w₁.gid :=
        only.of_gids (Client.gids_addMessage client q recv)
      rw [Client.sinceThen_of_window hw₁, filterMap_append_of_misses fun x hx => ?_]
      · exact kept.complete hfree i w₁ hw₁ honly
      · obtain rfl := List.mem_singleton.mp hx
        refine if_neg fun hchat => hq (honly q ?_)
        rw [Client.getElem?_gids window, group, hchat.2]
  · have hnone : client.windows[i]? = none := getElem?_of_modify hi
    rw [Client.sinceThen_of_none hnone]
    exact kept.unopened i hnone

/-- A window takes a message off its queue. -/
theorem WindowsKept.displayed {j : Nat} (kept : WindowsKept read since shown client) :
    WindowsKept read since (fun i => shown i ++ client.shown i (.display j)) (client.display j) := by
  have hat : ∀ i w', (client.display j).windows[i]? = some w' →
      ∃ w, client.windows[i]? = some w ∧ w'.gid = w.gid ∧
        shown i ++ client.shown i (.display j) ++ w'.gidQueue = shown i ++ w.gidQueue := by
    intro i w' hw'
    change (client.windows.modify j fun w => { w with gidQueue := w.gidQueue.tail })[i]? = _ at hw'
    rw [List.getElem?_modify] at hw'
    obtain ⟨w, hw, rfl⟩ := Option.map_eq_some_iff.mp hw'
    refine ⟨w, hw, ?_, ?_⟩
    · split
      · rfl
      · rfl
    · rw [Client.shown]
      by_cases hj : j = i
      · rw [if_pos hj, if_pos hj, hw, List.append_assoc, Option.bind_some]
        cases hqueue : w.gidQueue with
        | nil => rfl
        | cons hdr rest => rfl
      · rw [if_neg hj, if_neg hj, List.append_nil]
  have hmapped : (client.display j).groupMapping.lock = true ∨ (client.display j).Mapped :=
    kept.mapped.imp id fun mapped => mapped.of_same rfl (Client.gids_display client j)
  refine ⟨hmapped, fun i w' hw' => ?_, fun free i w' hw' only => ?_, fun i hi => ?_⟩
  · obtain ⟨w, hw, hgid, hall⟩ := hat i w' hw'
    rw [hall, hgid]
    exact kept.ordered i w hw
  · obtain ⟨w, hw, hgid, hall⟩ := hat i w' hw'
    rw [hall, hgid]
    exact kept.complete free i w hw (hgid ▸ only.of_gids (Client.gids_display client j))
  · have hnone : client.windows[i]? = none := getElem?_of_modify hi
    obtain ⟨hshown, hsince⟩ := kept.unopened i hnone
    refine ⟨?_, hsince⟩
    rw [hshown, Client.shown, hnone]
    split
    · rfl
    · rfl

theorem WindowsKept.step (kept : WindowsKept read since shown client)
    (windowed : client.Windowed e act client') :
    WindowsKept (read ++ act.read) (client.sinceThen since act)
      (fun i => shown i ++ client.shown i e) client' := by
  have hsame : (∀ i, client.shown i e = []) → (fun i => shown i ++ client.shown i e) = shown := by
    intro shows
    funext i
    rw [shows, List.append_nil]
  cases windowed with
  | still _ _ _ free' windows mapped misses shows =>
      have hgids : client'.gids = client.gids := congrArg (List.map GroupWindow.gid) windows
      rw [hsame shows]
      refine ⟨Or.inr mapped, fun i w hw => ?_, fun free i w hw only => ?_, fun i hi => ?_⟩
      · rw [windows] at hw
        exact (kept.ordered i w hw).trans (filterMap_sublist_append _ _ _)
      · rw [windows] at hw
        rw [Client.sinceThen_of_window hw,
          filterMap_append_of_misses fun x hx => misses x hx _ (Client.mem_gids hw)]
        exact kept.complete free' i w hw (only.of_gids hgids)
      · rw [windows] at hi
        rw [Client.sinceThen_of_none hi]
        exact kept.unopened i hi
  | opened _ _ _ gid free' windows mapped misses shows =>
      have hgids : client'.gids = client.gids ++ [gid] := by
        rw [Client.gids, windows, List.map_append]
        rfl
      have hread : ∀ gid read, (read ++ act.read).filterMap (chatOf gid) =
          read.filterMap (chatOf gid) :=
        fun gid read => filterMap_append_of_misses fun x hx => misses x hx gid
      -- a window was there before, or it is the new one
      have hat : ∀ (i : Nat) (w : GroupWindow), client'.windows[i]? = some w →
          client.windows[i]? = some w ∨ (client.windows[i]? = none ∧ w.gidQueue = []) := by
        intro i w hw
        rw [windows, List.getElem?_append] at hw
        split at hw
        · exact Or.inl hw
        · rename_i hi
          obtain rfl := List.mem_singleton.mp (List.mem_of_getElem? hw)
          exact Or.inr ⟨List.getElem?_eq_none (Nat.le_of_not_lt hi), rfl⟩
      rw [hsame shows]
      refine ⟨Or.inr mapped, fun i w hw => ?_, fun free i w hw only => ?_, fun i hi => ?_⟩
      · rw [hread]
        rcases hat i w hw with hold | ⟨hnew, hqueue⟩
        · exact kept.ordered i w hold
        · rw [(kept.unopened i hnew).1, hqueue]
          exact List.nil_sublist _
      · rcases hat i w hw with hold | ⟨hnew, hqueue⟩
        · rw [Client.sinceThen_of_window hold, hread]
          refine kept.complete free' i w hold fun j hj => only j ?_
          rw [hgids, List.getElem?_append_left (List.getElem?_eq_some_iff.mp hj).1]
          exact hj
        · obtain ⟨hshown, hsince⟩ := kept.unopened i hnew
          rw [Client.sinceThen_of_none hnew, hshown, hsince, hqueue]
          rfl
      · rw [windows, List.getElem?_append] at hi
        have hnone : client.windows[i]? = none := by
          split at hi
          · exact hi
          · rename_i hlt
            exact List.getElem?_eq_none (Nat.le_of_not_lt hlt)
        rw [Client.sinceThen_of_none hnone]
        exact kept.unopened i hnone
  | held _ _ _ windows locked shows =>
      rw [hsame shows]
      refine ⟨Or.inl locked, fun i w hw => ?_, fun free => ?_, fun i hi => ?_⟩
      · rw [windows] at hw
        exact (kept.ordered i w hw).trans (filterMap_sublist_append _ _ _)
      · rw [locked] at free
        cases free
      · rw [windows] at hi
        rw [Client.sinceThen_of_none hi]
        exact kept.unopened i hi
  | delivered fd recv q w cmd window group mapped =>
      rw [hsame fun _ => rfl]
      exact kept.delivered cmd window group mapped
  | displayed j =>
      rw [Client.sinceThen_of_unread rfl, Act.read, List.append_nil]
      exact kept.displayed

/-- The same for the whole program. -/
def WindowsAt (read : List Sent) (since : Nat → List Sent) (shown : Nat → List Mainhdr) :
    Process → Prop
  | .dialogue _ => ∀ i, shown i = [] ∧ since i = []
  | .chatting client => WindowsKept read since shown client

theorem WindowsAt.step {fuel : Nat} {incoming : Option Sent} {process process' : Process}
    (kept : WindowsAt read since shown process)
    (next : process.next (fuel + 1) incoming e = .ok (act, process')) :
    WindowsAt (read ++ act.read)
      (fun i => since i ++ if (process.window i).isSome then act.read else [])
      (fun i => shown i ++ process.shown e i) process' := by
  cases process with
  | dialogue d =>
      have hnone : ∀ i, shown i ++ (Process.dialogue d).shown e i = [] ∧
          (since i ++ if ((Process.dialogue d).window i).isSome then act.read else []) = [] := by
        intro i
        obtain ⟨hshown, hsince⟩ := kept i
        rw [hshown, hsince]
        exact ⟨rfl, rfl⟩
      cases Process.next_stepped next with
      | dialogue _ _ _ turned =>
          cases turned with
          | idle d' before after => exact hnone
          | requested p d' before awaits => exact hnone
          | created x d' next stage after => exact hnone
          | refused x d' next fails after => exact hnone
          | entered x next awaits status => exact windowsKept_start _ hnone _
  | chatting client =>
      rw [Process.next] at next
      split at next
      · cases next
      · rename_i hnext
        cases next
        exact WindowsKept.step kept (Client.windowed_of_next kept.mapped hnext)

end Steps

/-! ## Runs -/

section Runs

variable {fuel : Nat} {credential : CredentialFile} {disk : Disk}
  {input : ConnId → List Byte} {answer : ConnId → Byte} {h : List ApplicationTaken}
  {s s' : Application} {c : ConnId} {gid : UInt8}

theorem shownIn_append (c : ConnId) (i : Nat) (h : List ApplicationTaken) (x : ApplicationTaken) :
    shownIn c i (h ++ [x]) = shownIn c i h ++ shownBy c i x := by
  rw [shownIn, List.flatMap_append, List.flatMap_singleton]
  rfl

theorem shownBy_client {i : Nat} {x : ApplicationTaken} {pe : ProcessEvent}
    (event : x.event = .client c pe) : shownBy c i x = (x.pre.clients c).shown pe i := by
  rw [shownBy, event]
  exact if_pos rfl

theorem shownBy_elsewhere {x : ApplicationTaken} (event : ∀ pe, x.event ≠ .client c pe) (i : Nat) :
    shownBy c i x = [] := by
  rw [shownBy]
  cases hx : x.event with
  | accept | serve d heap | close d => rfl
  | client d pe =>
      have hd : d ≠ c := by
        rintro rfl
        exact event pe hx
      exact if_neg hd

/-- The client on the connection, with what it has read and what its windows have shown. -/
def WindowsSeen (c : ConnId) (h : List ApplicationTaken) : Process → Prop :=
  WindowsAt (readBy c (networkHistory h)) (fun i => h.flatMap (readWith c i)) fun i => shownIn c i h

theorem windows_of_run
    (run : Lts.Run (Application.step (fuel + 1)) (.start credential disk input answer) h s)
    (c : ConnId) : WindowsSeen c h (s.clients c) := by
  apply client_of_run run
  · exact fun i => ⟨rfl, rfl⟩
  · intro h x process event _ unread kept
    have hall : (fun i => shownIn c i (h ++ [x])) = fun i => shownIn c i h := by
      funext i
      rw [shownIn_append, shownBy_elsewhere event, List.append_nil]
    have hsince : (fun i => (h ++ [x]).flatMap (readWith c i)) = fun i => h.flatMap (readWith c i) := by
      funext i
      rw [List.flatMap_append, List.flatMap_singleton, readWith, unread, ite_self, List.append_nil]
    rw [WindowsSeen, read_append, unread, List.append_nil, hall, hsince]
    exact kept
  · intro h x pe act event next _ read kept
    have hall : (fun i => shownIn c i (h ++ [x])) =
        fun i => shownIn c i h ++ (x.pre.clients c).shown pe i := by
      funext i
      rw [shownIn_append, shownBy_client event]
    have hsince : (fun i => (h ++ [x]).flatMap (readWith c i)) = fun i =>
        h.flatMap (readWith c i) ++ if ((x.pre.clients c).window i).isSome then act.read else [] := by
      funext i
      rw [List.flatMap_append, List.flatMap_singleton, readWith, read]
    rw [WindowsSeen, read_append, read, hall, hsince]
    exact WindowsAt.step kept next

/-- A connection is that of one member of a group at most. -/
theorem membersOn_le_one
    (run : Lts.Run (Application.step fuel) (.start credential disk input answer) h s)
    (gid : UInt8) (c : ConnId) : ∀ x ∈ serverSteps h, (membersOn x.pre gid c).card ≤ 1 := by
  intro x hx
  obtain ⟨h₁, h₂, hsplit⟩ := List.append_of_mem hx
  have hrun := serverSteps_run run
  rw [hsplit] at hrun
  have hregistered := registered_of_run hrun.before.1
  have hone := ((placed_of_run run).place c).once
  rw [hsplit, loginsOn, logins, List.filterMap_append, List.filter_append, List.length_append] at hone
  have hlogins : (loginsOn c h₁).length ≤ 1 := Nat.le_of_add_right_le hone
  rw [Finset.card_le_one]
  intro uid huid uid' huid'
  obtain ⟨-, hlookup⟩ := Finset.mem_filter.mp huid
  obtain ⟨-, hlookup'⟩ := Finset.mem_filter.mp huid'
  obtain ⟨k, hk, hkey⟩ := hregistered _ _ hlookup
  obtain ⟨k', hk', hkey'⟩ := hregistered _ _ hlookup'
  obtain ⟨p, hp⟩ := List.length_eq_one_iff.mp
    (Nat.le_antisymm hlogins (List.length_pos_of_mem hk))
  rw [hp] at hk hk'
  obtain rfl := (Prod.mk.inj ((List.mem_singleton.mp hk).trans (List.mem_singleton.mp hk').symm)).2
  exact UInt16.toNat_inj.mp (hkey.trans hkey'.symm)

theorem windowsKept_of_run
    (run : Lts.Run (Application.step (fuel + 1)) (.start credential disk input answer) h s)
    {client : Client} (hclient : s.clients c = .chatting client) :
    WindowsKept (readBy c (networkHistory h)) (fun i => h.flatMap (readWith c i))
      (fun i => shownIn c i h) client := by
  have kept := windows_of_run run c
  rw [WindowsSeen, hclient] at kept
  exact kept

/-- What a window has shown and is going to show is in the log of its group. -/
theorem shown_sublist_log
    (run : Lts.Run (Application.step (fuel + 1)) (.start credential disk input answer) h s)
    {client : Client} {i : Nat} {w : GroupWindow} (hclient : s.clients c = .chatting client)
    (hw : client.windows[i]? = some w) :
    (shownIn c i h ++ w.gidQueue).Sublist (chatLog w.gid (serverSteps h)) := by
  have hread : (chatsRead w.gid c (networkHistory h)).Sublist (copiesTo w.gid c (serverSteps h)) := by
    rw [serverSteps, ← copies_of_run (server_run (network_run run)), chatsTo,
      ← (links (network_run run)).toClient, List.filterMap_append]
    exact List.sublist_append_left _ _
  have hlog := copiesTo_sublist (membersOn_le_one run w.gid c)
  exact ((windowsKept_of_run run hclient).ordered i w hw).trans (hread.trans hlog)

/-- In every run of the application what a window shows of its group is in the order of the server,
without repetitions, and is all that its client has read since it opened the window. -/
theorem windows_in_order (fuel : Nat) (credential : CredentialFile) (disk : Disk)
    (input : ConnId → List Byte) (answer : ConnId → Byte) (es : List ApplicationEvent) :
    Lts.Throughout (Application.step (fuel + 1)) (.start credential disk input answer) es
      WindowsInOrder := by
  intro h s run _
  constructor
  · exact fun c client i w hclient hw => shown_sublist_log run hclient hw
  · exact fun c client i w hclient free hw only =>
      (windowsKept_of_run run hclient).complete free i w hw only

end Runs

end GroupChat
