import GroupChat.Client
import GroupChat.Gui.Typing
import GroupChat.Lts.Simulation

/-!
# A window as a line editor

An `Editor` is what the window of a group is for: a line of characters that keys change, and that
Return turns into an action for the group. `chatbox_read_input` has the line in an array with a
length beside it; `gui_group_function` reads the action off another array, which holds what is left
of longer lines. For every sequence of keys the window does what the editor does and fails when the
editor fails (`windows_refine`), so the requests of `Client`, which leaves typing out, are those
that are typed.
-/

namespace GroupChat

open Posix

/-! ## The editor -/

/-- What a line that has been ended leads to. -/
inductive LineAction
  | nothing
  /-- the format of the command is printed -/
  | rejected
  | request (r : GroupRequest)
  | upload (filename : Line)

namespace Line

theorem length_word_le (line : Line) (n : Nat) :
    ((line.text.drop n).takeWhile (· ≠ space)).length ≤ line.text.length :=
  ((List.takeWhile_sublist _).trans (List.drop_sublist n _)).length_le

/-- What follows the first `n` characters. -/
def after (line : Line) (n : Nat) : Line :=
  ⟨line.text.drop n, (List.drop_sublist n _).length_le.trans_lt line.short⟩

/-- The word that follows the first `n` characters. -/
def word (line : Line) (n : Nat) : Line :=
  ⟨(line.text.drop n).takeWhile (· ≠ space), (line.length_word_le n).trans_lt line.short⟩

/-- The word, if the array that it is copied to takes what is left of the line. -/
def filename (line : Line) (n : Nat) : Except Fault Line :=
  (typedFilename (line.text.drop n)).map fun _ => line.word n

/-- What a line is for, with `behind` what stands behind it in the array. -/
def action (line : Line) (behind : List Byte) : Except Fault LineAction :=
  if line.text = [] then .ok .nothing
  else if ¬ LooksLikeCommand line.text then .ok (.request (.send line))
  else if 0 ∉ behind then .error .outOfBounds
  else if inviteCommand <+: line.text then
    if space ∈ line.text.drop inviteCommand.length ∨ space ∈ behind.takeWhile (· ≠ 0) then
      .ok .rejected
    else .ok (.request (.invite (line.after inviteCommand.length)))
  else if downloadCommand <+: line.text then
    (line.filename downloadCommand.length).map fun name => .request (.download name)
  else if sendFileCommand <+: line.text then
    (line.filename sendFileCommand.length).map .upload
  else .ok .nothing

end Line

/-- The characters that a window takes. -/
def Typable (b : Byte) : Prop := 0 < b ∧ b < 128

instance (b : Byte) : Decidable (Typable b) := instDecidableAnd

/-- `array` is where lines are handed over. -/
structure Editor where
  connected : Bool
  line : List Byte
  fits : line.length < MAX_MSG_SIZE
  typable : ∀ b ∈ line, Typable b
  array : Block MAX_MSG_SIZE

namespace Editor

/-- The editor of a new window; nobody has written the array. -/
def start (stack : Block MAX_MSG_SIZE) : Editor where
  connected := true
  line := []
  fits := by decide
  typable := fun _ h => (nomatch h)
  array := stack

def close (ed : Editor) : Editor := { ed with connected := false }

def erase (ed : Editor) : Editor where
  connected := ed.connected
  line := ed.line.dropLast
  fits := ed.line.dropLast_sublist.length_le.trans_lt ed.fits
  typable := fun b h => ed.typable b (List.mem_of_mem_dropLast h)
  array := ed.array

def insert (ed : Editor) (b : Byte) : Editor :=
  if h : ed.line.length + 1 < MAX_MSG_SIZE ∧ Typable b then
    { connected := ed.connected
      line := ed.line ++ [b]
      fits := by
        rw [List.length_append]
        exact h.1
      typable := fun c hc => (List.mem_append.mp hc).elim (ed.typable c) fun hc =>
        List.mem_singleton.mp hc ▸ h.2
      array := ed.array }
  else ed

/-- The line lies over what the array held. -/
def handOver (ed : Editor) : Editor where
  connected := ed.connected
  line := []
  fits := by decide
  typable := fun _ h => (nomatch h)
  array := ⟨overwrite ed.array.bytes 0 ed.line, by
    have hfits := ed.fits
    have hfull := ed.array.full
    rw [length_overwrite (by omega), hfull]⟩

/-- The line as the payload of a packet. -/
def typed (ed : Editor) : Line := ⟨ed.line, ed.fits.trans (by decide)⟩

/-- What the array holds behind the line. -/
def behind (ed : Editor) : List Byte := ed.array.bytes.drop ed.line.length

/-- One key. -/
def step (ed : Editor) (keysymbol : UInt32) : Except Fault (LineAction × Editor) :=
  if ed.connected = false then .error .useAfterFree
  else if keysymbol = XK_Escape then .ok (.nothing, ed.close)
  else if keysymbol = XK_BackSpace then .ok (.nothing, ed.erase)
  else if keysymbol = XK_Return then
    (ed.typed.action ed.behind).map fun action => (action, ed.handOver)
  else .ok (.nothing, ed.insert keysymbol.toUInt8)

end Editor

abbrev Editor.Taken := Lts.Taken Editor UInt32 LineAction

/-- What the action is for the window of a group. -/
def LineAction.issued (groupGid : UInt8) (myUid : UInt16) : LineAction → Issued
  | .nothing => .nothing
  | .rejected => .rejected
  | .request r => .queued (r.packet groupGid myUid).toMainhdr
  | .upload filename => .upload groupGid filename.text

/-- The typed text that leaves with an action. -/
def LineAction.text : LineAction → List Byte
  | .nothing => []
  | .rejected => []
  | .request (.invite username) => username.text
  | .request (.send message) => message.text
  | .request (.download filename) => filename.text
  | .upload filename => filename.text

/-! ## The window of an editor -/

/-- A line in an array of zeros. -/
def blanked (line : List Byte) : List Byte :=
  line ++ List.replicate (MAX_MSG_SIZE - line.length) 0

/-- The window has the line of the editor. -/
structure Represents (w : GuiWindow) (ed : Editor) : Prop where
  connected : w.chatbox.c = ed.connected
  bufferLen : w.chatbox.bufferLen.toNat = ed.line.length
  inputBuffer : w.chatbox.inputBuffer.bytes = blanked ed.line
  array : w.msgToSend = ed.array

/-- A window after a sequence of keys. -/
structure WindowRefines (groupGid : UInt8) (myUid : UInt16) (stack : Block MAX_MSG_SIZE)
    (h : List (Lts.Taken GuiWindow KeyRelease Issued)) (w : GuiWindow) : Prop where
  /-- an editor has done the same, and the next key does the same to both; what has left it and the
  line are what was typed, with nothing put in and nothing out of order -/
  editor : ∃ (h' : List Editor.Taken) (ed : Editor),
    Lts.Run Editor.step (Editor.start stack) h' ed ∧ Represents w ed ∧
      h'.map (fun y => (y.event, y.out.issued groupGid myUid)) =
        h.map (fun x => (x.event.keysymbol, x.out)) ∧
      (∀ e, (guiStep groupGid myUid w e).map Prod.fst =
        (ed.step e.keysymbol).map fun r => r.1.issued groupGid myUid) ∧
      List.Sublist (h'.flatMap (fun y => y.out.text) ++ ed.line)
        (h.map fun x => x.event.keysymbol.toUInt8)
  /-- when the array ends with a `NUL`, only a closed window and a file name that does not fit have
  no outcome -/
  fails : stack.bytes.getLast? = some 0 → ∀ e, (∃ fault, guiStep groupGid myUid w e = .error fault) ↔
    w.chatbox.c = false ∨
      (e.keysymbol = XK_Return ∧ LooksLikeCommand w.chatbox.line ∧ ¬ FilenameFits w.chatbox.line)

/-! ## Lines -/

section Lines

variable {groupGid : UInt8} {myUid : UInt16} {line : Line} {behind : List Byte}

theorem filename_map (command : List Byte) (make : Line → LineAction) (give : List Byte → Issued)
    (h : (make (line.word command.length)).issued groupGid myUid =
      give ((line.text.drop command.length).takeWhile (· ≠ space))) :
    ((line.filename command.length).map make).map (LineAction.issued groupGid myUid) =
      (typedFilename (line.text.drop command.length)).map give := by
  rw [Line.filename, typedFilename]
  split
  · exact congrArg Except.ok h
  · rfl

/-- The action of a line is what `gui_group_function` does with it. -/
theorem action_issued : (line.action behind).map (LineAction.issued groupGid myUid) =
    if line.text = [] then .ok .nothing
    else if LooksLikeCommand line.text then
      if 0 ∈ behind then commandOutcome groupGid myUid line.text (behind.takeWhile (· ≠ 0))
      else .error .outOfBounds
    else .ok (.queued
      ⟨SEND_CHAT, groupGid, myUid, UInt32.ofNat line.text.length, line.text⟩) := by
  rw [Line.action]
  by_cases hnil : line.text = []
  · rw [if_pos hnil, if_pos hnil]
    rfl
  rw [if_neg hnil, if_neg hnil]
  by_cases hscan : LooksLikeCommand line.text
  · rw [if_neg (not_not.mpr hscan), if_pos hscan]
    by_cases hend : 0 ∈ behind
    · rw [if_neg (not_not.mpr hend), if_pos hend, commandOutcome]
      by_cases hinvite : inviteCommand <+: line.text
      · rw [if_pos hinvite, if_pos hinvite]
        split
        · rfl
        · rw [← List.length_drop]
          rfl
      rw [if_neg hinvite, if_neg hinvite]
      by_cases hdownload : downloadCommand <+: line.text
      · rw [if_pos hdownload, if_pos hdownload]
        exact filename_map downloadCommand _ _ rfl
      rw [if_neg hdownload, if_neg hdownload]
      by_cases hsend : sendFileCommand <+: line.text
      · rw [if_pos hsend, if_pos hsend]
        exact filename_map sendFileCommand _ _ rfl
      rw [if_neg hsend, if_neg hsend]
      rfl
    · rw [if_pos hend, if_neg hend]
      rfl
  · rw [if_pos hscan, if_neg hscan]
    rfl

/-- A line whose array ends has an action unless its file name does not fit. -/
theorem action_ok_iff (hend : 0 ∈ behind) :
    (∃ action, line.action behind = .ok action) ↔
      (LooksLikeCommand line.text → FilenameFits line.text) := by
  rw [← @map_ok_iff _ _ _ (LineAction.issued 0 0), action_issued, if_pos hend]
  by_cases hscan : LooksLikeCommand line.text
  · have hnil : line.text ≠ [] := by
      intro hnil
      rw [hnil] at hscan
      exact absurd hscan (by decide)
    rw [if_neg hnil, if_pos hscan, commandOutcome_ok_iff, forall_prop_of_true hscan]
  · refine iff_of_true ?_ fun h => absurd h hscan
    split
    · exact ⟨_, rfl⟩
    · exact ⟨_, rfl⟩

theorem filename_text {command : List Byte} {make : Line → LineAction} {action : LineAction}
    (hmake : ∀ name, (make name).text = name.text)
    (h : (line.filename command.length).map make = .ok action) :
    List.Sublist action.text line.text := by
  rw [Line.filename, typedFilename] at h
  split at h
  · cases h
    rw [hmake]
    exact (List.takeWhile_sublist _).trans (List.drop_sublist _ _)
  · cases h

/-- An action takes nothing along but parts of its line. -/
theorem action_text {action : LineAction} (h : line.action behind = .ok action) :
    List.Sublist action.text line.text := by
  rw [Line.action] at h
  split at h
  · cases h
    exact List.nil_sublist _
  split at h
  · cases h
    exact List.Sublist.refl _
  split at h
  · cases h
  split at h
  · split at h
    · cases h
      exact List.nil_sublist _
    · cases h
      exact List.drop_sublist _ _
  split at h
  · exact filename_text (fun name => rfl) h
  split at h
  · exact filename_text (fun name => rfl) h
  cases h
  exact List.nil_sublist _

end Lines

/-! ## Keys -/

section Keys

variable {groupGid : UInt8} {myUid : UInt16} {w : GuiWindow} {ed : Editor}

theorem Represents.line (h : Represents w ed) : w.chatbox.line = ed.line := by
  rw [Chatbox.line, h.bufferLen, h.inputBuffer, blanked, List.take_left]

theorem blanked_eq {line : List Byte} (h : line.length < MAX_MSG_SIZE) :
    blanked line = line ++ 0 :: List.replicate (MAX_MSG_SIZE - (line.length + 1)) 0 := by
  have hblank : MAX_MSG_SIZE - line.length = MAX_MSG_SIZE - (line.length + 1) + 1 := by omega
  rw [blanked, hblank, List.replicate_succ]

theorem erase_blanked {line : List Byte} {b : Byte} (h : (line ++ [b]).length < MAX_MSG_SIZE) :
    overwrite (blanked (line ++ [b])) line.length [0] = blanked line := by
  have hlen : (line ++ [b]).length = line.length + 1 := List.length_append
  rw [@blanked_eq line (by omega), blanked, List.append_assoc, overwrite_append, hlen]
  rfl

theorem end_blanked {line : List Byte} (h : line.length < MAX_MSG_SIZE) :
    overwrite (blanked line) line.length [0] = blanked line := by
  rw [blanked_eq h, overwrite_append]
  rfl

theorem insert_blanked {line : List Byte} (b : Byte) (h : line.length < MAX_MSG_SIZE) :
    overwrite (blanked line) line.length [b] = blanked (line ++ [b]) := by
  have hlen : (line ++ [b]).length = line.length + 1 := List.length_append
  rw [blanked_eq h, overwrite_append, blanked, hlen, List.append_assoc]
  rfl

theorem Represents.erase (h : Represents w ed) :
    ∃ chatbox, w.chatbox.backSpace = .ok chatbox ∧ Represents ⟨chatbox, w.msgToSend⟩ ed.erase := by
  have hfits := ed.fits
  have hlen := h.bufferLen
  have hbytes := h.inputBuffer
  rcases List.eq_nil_or_concat ed.line with hnil | ⟨line, b, hline⟩
  · have hempty : ¬ w.chatbox.bufferLen > 0 := by
      rw [gt_iff_lt, UInt8.lt_iff_toNat_lt, hlen, hnil]
      decide
    have herased : ed.erase.line = ed.line := (congrArg List.dropLast hnil).trans hnil.symm
    refine ⟨w.chatbox, ?_, h.connected, ?_, ?_, h.array⟩
    · rw [Chatbox.backSpace, if_neg hempty]
    · rw [herased]
      exact hlen
    · rw [herased]
      exact hbytes
  · rw [List.concat_eq_append] at hline
    rw [hline] at hfits hlen hbytes
    rw [List.length_append] at hlen
    have herased : ed.erase.line = line := (congrArg List.dropLast hline).trans List.dropLast_concat
    have hsome : w.chatbox.bufferLen > 0 := by
      rw [gt_iff_lt, UInt8.lt_iff_toNat_lt, hlen]
      exact Nat.succ_pos _
    have hone : (1 : UInt8) ≤ w.chatbox.bufferLen :=
      UInt8.le_iff_toNat_le.mpr (UInt8.lt_iff_toNat_lt.mp hsome)
    have hsub : (w.chatbox.bufferLen - 1).toNat = line.length := by
      rw [UInt8.toNat_sub_of_le _ _ hone, hlen]
      rfl
    have hroom : line.length + [(0 : Byte)].length ≤ MAX_MSG_SIZE := by
      rw [List.length_append] at hfits
      exact hfits.le
    obtain ⟨inputBuffer, hbuffer, hwritten⟩ :=
      @Block.memcpy_ok _ w.chatbox.inputBuffer line.length [0] hroom
    refine ⟨{ w.chatbox with bufferLen := w.chatbox.bufferLen - 1, inputBuffer := inputBuffer },
      ?_, h.connected, ?_, ?_, h.array⟩
    · rw [Chatbox.backSpace, if_pos hsome]
      simp only [hsub, hbuffer]
      rfl
    · rw [herased]
      exact hsub
    · rw [herased, ← erase_blanked hfits, ← hbytes]
      exact hwritten

theorem Editor.insert_line {b : Byte} (h : ed.line.length + 1 < MAX_MSG_SIZE ∧ Typable b) :
    (ed.insert b).line = ed.line ++ [b] := by
  rw [insert, dif_pos h]

theorem Editor.insert_same (ed : Editor) (b : Byte) :
    (ed.insert b).connected = ed.connected ∧ (ed.insert b).array = ed.array := by
  rw [insert]
  split
  · exact ⟨rfl, rfl⟩
  · exact ⟨rfl, rfl⟩

theorem Represents.insert (h : Represents w ed) (b : Byte) :
    ∃ chatbox, w.chatbox.typeAscii b = .ok chatbox ∧
      Represents ⟨chatbox, w.msgToSend⟩ (ed.insert b) := by
  have hfits := ed.fits
  have hlen := h.bufferLen
  have hbytes := h.inputBuffer
  obtain ⟨hconnected, harray⟩ := ed.insert_same b
  have hroom : w.chatbox.bufferLen < 255 ↔ ed.line.length + 1 < MAX_MSG_SIZE := by
    rw [UInt8.lt_iff_toNat_lt, hlen]
    exact Nat.succ_lt_succ_iff.symm
  by_cases htakes : ed.line.length + 1 < MAX_MSG_SIZE ∧ Typable b
  · have hadd : (w.chatbox.bufferLen + 1).toNat = (ed.line ++ [b]).length := by
      rw [UInt8.toNat_add, hlen, List.length_append]
      exact Nat.mod_eq_of_lt htakes.1
    have hlonger : (ed.line ++ [b]).length < MAX_MSG_SIZE := by
      rw [List.length_append]
      exact htakes.1
    obtain ⟨first, hfirst, hwritten⟩ :=
      @Block.memcpy_ok _ w.chatbox.inputBuffer ed.line.length [b] hfits
    obtain ⟨second, hsecond, hended⟩ :=
      @Block.memcpy_ok _ first (ed.line ++ [b]).length [0] hlonger
    refine ⟨{ w.chatbox with bufferLen := w.chatbox.bufferLen + 1, inputBuffer := second }, ?_,
      h.connected.trans hconnected.symm, ?_, ?_, h.array.trans harray.symm⟩
    · rw [Chatbox.typeAscii, if_pos ⟨hroom.mpr htakes.1, htakes.2⟩]
      simp only [hlen, hfirst, ok_bind, hadd, hsecond]
      rfl
    · rw [Editor.insert_line htakes]
      exact hadd
    · rw [Editor.insert_line htakes, ← end_blanked hlonger, ← insert_blanked b hfits, ← hbytes,
        ← hwritten]
      exact hended
  · have hrefuses : ¬ (w.chatbox.bufferLen < 255 ∧ 0 < b ∧ b < 128) :=
      fun hno => htakes ⟨hroom.mp hno.1, hno.2⟩
    have hsame : (ed.insert b).line = ed.line := by rw [Editor.insert, dif_neg htakes]
    obtain ⟨inputBuffer, hbuffer, hwritten⟩ :=
      @Block.memcpy_ok _ w.chatbox.inputBuffer ed.line.length [0] hfits
    refine ⟨{ w.chatbox with inputBuffer := inputBuffer }, ?_, h.connected.trans hconnected.symm, ?_,
      ?_, h.array.trans harray.symm⟩
    · rw [Chatbox.typeAscii, if_neg hrefuses]
      simp only [hlen, hbuffer]
      rfl
    · rw [hsame]
      exact hlen
    · rw [hsame, ← end_blanked hfits, ← hbytes]
      exact hwritten

theorem Editor.nul_not_mem (ed : Editor) : 0 ∉ ed.line := fun h =>
  UInt8.lt_irrefl 0 (ed.typable 0 h).1

/-- Return hands the line over. -/
theorem Represents.handOver (h : Represents w ed) (hconnected : w.chatbox.c = true) :
    ∃ chatbox msgToSend, chatboxReadInput w.chatbox w.msgToSend XK_Return =
        .ok (ed.line.length, chatbox, msgToSend) ∧
      Represents ⟨chatbox, msgToSend⟩ ed.handOver := by
  have hcopy : strncpyBytes w.chatbox.inputBuffer.bytes ed.line.length = .ok ed.line := by
    rw [h.inputBuffer]
    exact strncpyBytes_of_append ed.nul_not_mem
  obtain ⟨msg, hmsg, hwritten⟩ := @Block.memcpy_ok _ w.msgToSend 0 ed.line
    ((Nat.zero_add _).le.trans ed.fits.le)
  obtain ⟨blank, hblank, hzeros⟩ := @Block.memcpy_ok _ w.chatbox.inputBuffer 0
    (List.replicate MAX_MSG_SIZE 0) (by rw [List.length_replicate, Nat.zero_add])
  have hblanked : blank.bytes = blanked [] := by
    rw [hzeros, overwrite_zero, List.length_replicate, List.drop_of_length_le
      w.chatbox.inputBuffer.full.le, List.append_nil]
    rfl
  refine ⟨{ w.chatbox with bufferLen := 0, inputBuffer := blank }, msg, ?_, h.connected, rfl,
    hblanked, ?_⟩
  · have hopen : ¬ w.chatbox.c = false := by
      rw [hconnected]
      decide
    rw [chatboxReadInput, if_neg hopen, if_neg (by decide), if_neg (by decide), if_pos rfl,
      Block.strncpy, h.bufferLen, hcopy, ok_bind, hmsg, ok_bind, Block.memset, hblank]
    rfl
  · have hbytes : msg.bytes = ed.handOver.array.bytes := by
      rw [hwritten, h.array]
      rfl
    cases msg
    cases hbytes
    rfl

/-- A key that ends no line. -/
theorem Represents.idle {e : KeyRelease} {chatbox : Chatbox} {msgToSend : Block MAX_MSG_SIZE}
    (h : Represents ⟨chatbox, msgToSend⟩ ed)
    (hread : chatboxReadInput w.chatbox w.msgToSend e.keysymbol = .ok (0, chatbox, msgToSend)) :
    Lts.Lockstep Represents (LineAction.issued groupGid myUid) (guiStep groupGid myUid w e)
      (.ok (.nothing, ed)) := by
  rw [guiStep, hread]
  exact Lts.Lockstep.ok (o := LineAction.nothing) h

/-- One key does the same to the window and to its editor. -/
theorem Represents.key (h : Represents w ed) {stack : Block MAX_MSG_SIZE}
    {history : List (Lts.Taken GuiWindow KeyRelease Issued)}
    (run : Lts.Run (guiStep groupGid myUid) ⟨chatboxInit, stack⟩ history w) (e : KeyRelease) :
    Lts.Lockstep Represents (LineAction.issued groupGid myUid) (guiStep groupGid myUid w e)
      (ed.step e.keysymbol) := by
  obtain ⟨keysymbol, heap⟩ := e
  rw [Editor.step, ← h.connected]
  cases hconnected : w.chatbox.c with
  | false =>
      rw [guiStep, chatboxReadInput, if_pos hconnected, if_pos rfl]
      exact Lts.Lockstep.error Fault.useAfterFree
  | true =>
      have hopen : ¬ w.chatbox.c = false := by
        rw [hconnected]
        decide
      rw [if_neg (by decide)]
      by_cases hescape : keysymbol = XK_Escape
      · have hclosed : Represents ⟨{ w.chatbox with c := false }, w.msgToSend⟩ ed.close :=
          ⟨rfl, h.bufferLen, h.inputBuffer, h.array⟩
        rw [if_pos hescape]
        refine hclosed.idle ?_
        rw [chatboxReadInput, if_neg hopen, if_pos hescape]
      rw [if_neg hescape]
      by_cases hback : keysymbol = XK_BackSpace
      · obtain ⟨chatbox, hread, hrep⟩ := h.erase
        rw [if_pos hback]
        refine hrep.idle ?_
        rw [chatboxReadInput, if_neg hopen, if_neg hescape, if_pos hback, hread]
        rfl
      rw [if_neg hback]
      by_cases hreturn : keysymbol = XK_Return
      · subst hreturn
        obtain ⟨chatbox, msgToSend, hread, hrep⟩ := h.handOver hconnected
        -- what is left of the earlier lines is read off the run
        let t : TypedLine groupGid myUid := ⟨stack, history, w, run, hconnected, heap⟩
        have hline : t.line = ed.line := h.line
        have hremains : t.remains = ed.behind := by
          rw [TypedLine.remains, hline]
          exact congrArg (fun b : Block MAX_MSG_SIZE => b.bytes.drop ed.line.length) h.array
        have hissued : (guiStep groupGid myUid w ⟨XK_Return, heap⟩).map Prod.fst =
            (ed.typed.action ed.behind).map (LineAction.issued groupGid myUid) := by
          have heq := t.issued_eq
          rw [hline, hremains] at heq
          rw [action_issued]
          exact heq
        rw [if_pos rfl]
        rw [guiStep, hread, ok_bind] at hissued ⊢
        dsimp only at hissued ⊢
        generalize guiLine groupGid myUid msgToSend ed.line.length heap = issued at hissued ⊢
        generalize ed.typed.action ed.behind = action at hissued ⊢
        cases issued with
        | error fault =>
            cases action with
            | error fault' =>
                cases hissued
                exact Lts.Lockstep.error fault
            | ok action => cases hissued
        | ok issued =>
            cases action with
            | error fault => cases hissued
            | ok action =>
                cases hissued
                exact Lts.Lockstep.ok hrep
      · obtain ⟨chatbox, hread, hrep⟩ := h.insert keysymbol.toUInt8
        rw [if_neg hreturn]
        refine hrep.idle ?_
        rw [chatboxReadInput, if_neg hopen, if_neg hescape, if_neg hback, if_neg hreturn, hread]
        rfl

end Keys

/-! ## Runs -/

section Runs

variable {stack : Block MAX_MSG_SIZE} {ed ed' : Editor} {keysymbol : UInt32} {action : LineAction}

theorem Editor.handOver_last (h : ed.array.bytes.getLast? = some 0) :
    ed.handOver.array.bytes.getLast? = some 0 ∧ 0 ∈ ed.behind := by
  have hsplit : ed.array.bytes = ed.array.bytes.take ed.line.length ++ ed.behind :=
    (List.take_append_drop _ _).symm
  have hne : ed.behind ≠ [] := by
    have hfits := ed.fits
    have hfull := ed.array.full
    rw [behind, Ne, List.drop_eq_nil_iff]
    omega
  rw [hsplit, List.getLast?_append_of_ne_nil _ hne] at h
  refine ⟨?_, List.mem_of_getLast? h⟩
  have hover : ed.handOver.array.bytes = ed.line ++ ed.behind := overwrite_zero _ _
  rw [hover, List.getLast?_append_of_ne_nil _ hne]
  exact h

/-- The array keeps the `NUL` at its end. -/
theorem Editor.last_of_step (h : ed.array.bytes.getLast? = some 0)
    (hstep : ed.step keysymbol = .ok (action, ed')) : ed'.array.bytes.getLast? = some 0 := by
  rw [step] at hstep
  split at hstep
  · cases hstep
  split at hstep
  · cases hstep
    exact h
  split at hstep
  · cases hstep
    exact h
  split at hstep
  · cases haction : ed.typed.action ed.behind with
    | error fault =>
        rw [haction] at hstep
        cases hstep
    | ok action =>
        rw [haction] at hstep
        cases hstep
        exact (handOver_last h).1
  · cases hstep
    rw [(ed.insert_same _).2]
    exact h

/-- A key adds at most its character to the line and what leaves it. -/
theorem Editor.text_of_step (hstep : ed.step keysymbol = .ok (action, ed')) :
    List.Sublist (action.text ++ ed'.line) (ed.line ++ [keysymbol.toUInt8]) := by
  rw [step] at hstep
  split at hstep
  · cases hstep
  split at hstep
  · cases hstep
    exact List.sublist_append_left _ _
  split at hstep
  · cases hstep
    exact ed.line.dropLast_sublist.trans (List.sublist_append_left _ _)
  split at hstep
  · cases haction : ed.typed.action ed.behind with
    | error fault =>
        rw [haction] at hstep
        cases hstep
    | ok action =>
        rw [haction] at hstep
        cases hstep
        exact (List.append_nil action.text).symm ▸
          (action_text haction).trans (List.sublist_append_left _ _)
  · cases hstep
    rw [insert]
    split
    · exact List.Sublist.refl _
    · exact List.sublist_append_left _ _

theorem Editor.text_of_run {h : List Editor.Taken} (run : Lts.Run step (start stack) h ed) :
    List.Sublist (h.flatMap (fun y => y.out.text) ++ ed.line) (h.map fun y => y.event.toUInt8) := by
  induction run with
  | start => exact List.nil_sublist _
  | next run taken ih =>
      rw [List.flatMap_append, List.map_append, List.flatMap_singleton, List.append_assoc]
      refine ((text_of_step taken).append_left _).trans ?_
      rw [← List.append_assoc]
      exact ih.append_right _

theorem Editor.last_of_run {h : List Editor.Taken} (hlast : stack.bytes.getLast? = some 0)
    (run : Lts.Run step (start stack) h ed) : ed.array.bytes.getLast? = some 0 := by
  induction run with
  | start => exact hlast
  | next run taken ih => exact last_of_step ih taken

/-- Which keys an editor whose array ends has no outcome for. -/
theorem Editor.step_error_iff (hlast : ed.array.bytes.getLast? = some 0) :
    (∃ fault, ed.step keysymbol = .error fault) ↔
      ed.connected = false ∨
        (keysymbol = XK_Return ∧ LooksLikeCommand ed.line ∧ ¬ FilenameFits ed.line) := by
  have haction := @action_ok_iff ed.typed ed.behind (handOver_last hlast).2
  rw [step]
  by_cases hclosed : ed.connected = false
  · rw [if_pos hclosed]
    exact iff_of_true ⟨_, rfl⟩ (Or.inl hclosed)
  rw [if_neg hclosed, or_iff_right hclosed]
  by_cases hreturn : keysymbol = XK_Return
  · subst hreturn
    rw [if_neg (by decide), if_neg (by decide), if_pos rfl, and_iff_right rfl, ← Classical.not_imp]
    change _ ↔ ¬ (LooksLikeCommand ed.typed.text → FilenameFits ed.typed.text)
    rw [← haction]
    cases ed.typed.action ed.behind with
    | error fault => exact iff_of_true ⟨fault, rfl⟩ fun ⟨_, h⟩ => (nomatch h)
    | ok action => exact iff_of_false (fun ⟨_, h⟩ => (nomatch h)) fun h => h ⟨action, rfl⟩
  · refine iff_of_false ?_ fun h => hreturn h.1
    rintro ⟨fault, hstep⟩
    rw [if_neg hreturn] at hstep
    split at hstep
    · cases hstep
    split at hstep
    · cases hstep
    cases hstep

/-- For every sequence of keys, in an array that may hold anything, a window is an editor. -/
theorem windows_refine (groupGid : UInt8) (myUid : UInt16) (stack : Block MAX_MSG_SIZE)
    (es : List KeyRelease) :
    Lts.Throughout (guiStep groupGid myUid) ⟨chatboxInit, stack⟩ es
      (WindowRefines groupGid myUid stack) := by
  intro h w run _
  have hstart : Represents ⟨chatboxInit, stack⟩ (Editor.start stack) := ⟨rfl, rfl, rfl, rfl⟩
  have hstep : ∀ h w ed e, Lts.Run (guiStep groupGid myUid) ⟨chatboxInit, stack⟩ h w →
      Represents w ed → Lts.Lockstep Represents (LineAction.issued groupGid myUid)
        (guiStep groupGid myUid w e) (ed.step e.keysymbol) := fun _ _ _ e run hrep => hrep.key run e
  obtain ⟨h', ed, run', hrep, hhistory⟩ := Lts.Run.lockstep hstart hstep run
  have hnext : ∀ e, (guiStep groupGid myUid w e).map Prod.fst =
      (ed.step e.keysymbol).map fun r => r.1.issued groupGid myUid :=
    fun e => (hrep.key run e).map_fst
  have hkeys : h'.map (fun y => y.event.toUInt8) = h.map fun x => x.event.keysymbol.toUInt8 := by
    have hfirst := congrArg (List.map fun r : UInt32 × Issued => r.1.toUInt8) hhistory
    rw [List.map_map, List.map_map] at hfirst
    exact hfirst
  constructor
  · exact ⟨h', ed, run', hrep, hhistory, hnext, hkeys ▸ Editor.text_of_run run'⟩
  · intro hlast e
    rw [hrep.connected, hrep.line, ← Editor.step_error_iff (Editor.last_of_run hlast run')]
    have hsame := hnext e
    cases hw : guiStep groupGid myUid w e with
    | error fault =>
        rw [hw] at hsame
        cases hed : ed.step e.keysymbol with
        | error fault' => exact iff_of_true ⟨_, rfl⟩ ⟨_, rfl⟩
        | ok r =>
            rw [hed] at hsame
            cases hsame
    | ok r =>
        rw [hw] at hsame
        cases hed : ed.step e.keysymbol with
        | error fault =>
            rw [hed] at hsame
            cases hsame
        | ok r' => exact iff_of_false (fun ⟨_, h⟩ => (nomatch h)) fun ⟨_, h⟩ => (nomatch h)

end Runs

end GroupChat
