import GroupChat.Gui
import GroupChat.Lts.Run
import GroupChat.Split

/-!
# What a typed line leads to

`chatbox_read_input` copies a line by its length into an array that still holds the lines before it,
and `gui_group_function` scans that array as a string. `guiLine_scanned` has the outcome of a line
together with what stands behind it in the array; `sameRequest_iff` says for which lines, and for
which remains of the lines before them, two windows issue the same request.
-/

namespace GroupChat

open Posix

/-! ## Keys -/

section Keys

variable {chatbox chatbox' : Chatbox} {msgToSend msgToSend' : Block MAX_MSG_SIZE} {keysymbol : UInt32}
  {msgSize : Nat}

theorem Chatbox.length_line (chatbox : Chatbox) : chatbox.line.length = chatbox.bufferLen.toNat := by
  have hlt := UInt8.toNat_lt chatbox.bufferLen
  have hsize : MAX_MSG_SIZE = 256 := rfl
  rw [line, List.length_take, chatbox.inputBuffer.full]
  omega

theorem Chatbox.backSpace_line (h : chatbox.backSpace = .ok chatbox') :
    ∃ k, chatbox'.c = chatbox.c ∧ chatbox'.line = chatbox.line.take k := by
  have hlt := UInt8.toNat_lt chatbox.bufferLen
  have hfull : chatbox.inputBuffer.bytes.length = 256 := chatbox.inputBuffer.full
  rw [backSpace] at h
  split at h
  · rename_i hpos
    obtain ⟨inputBuffer, hbuffer, h⟩ := bind_eq_ok.mp h
    cases h
    have hone : 0 < chatbox.bufferLen.toNat := UInt8.lt_iff_toNat_lt.mp hpos
    have hsub : (chatbox.bufferLen - 1).toNat = chatbox.bufferLen.toNat - 1 :=
      UInt8.toNat_sub_of_le _ _ (UInt8.le_iff_toNat_le.mpr hone)
    have hbytes := (Block.memcpy_eq_ok.mp hbuffer).2
    refine ⟨chatbox.bufferLen.toNat - 1, rfl, ?_⟩
    simp only [line, hbytes, hsub]
    rw [take_overwrite (le_refl _) (by omega), List.take_take]
    congr 1
    omega
  · cases h
    exact ⟨chatbox.line.length, rfl, List.take_length.symm⟩

theorem Chatbox.typeAscii_line {ascii : Byte} (h : chatbox.typeAscii ascii = .ok chatbox') :
    chatbox'.c = chatbox.c ∧ (chatbox'.line = chatbox.line ∨
      (ascii ≠ 0 ∧ chatbox'.line = chatbox.line ++ [ascii])) := by
  have hlt := UInt8.toNat_lt chatbox.bufferLen
  have hfull : chatbox.inputBuffer.bytes.length = 256 := chatbox.inputBuffer.full
  rw [typeAscii] at h
  split at h
  · rename_i hascii
    obtain ⟨inputBuffer, hbuffer, h⟩ := bind_eq_ok.mp h
    obtain ⟨inputBuffer', hbuffer', h⟩ := bind_eq_ok.mp h
    cases h
    have hlast : chatbox.bufferLen.toNat < 255 := UInt8.lt_iff_toNat_lt.mp hascii.1
    have hadd : (chatbox.bufferLen + 1).toNat = chatbox.bufferLen.toNat + 1 := by
      rw [UInt8.toNat_add]
      exact Nat.mod_eq_of_lt (Nat.succ_lt_succ hlast)
    have hbytes := (Block.memcpy_eq_ok.mp hbuffer).2
    have hbytes' := (Block.memcpy_eq_ok.mp hbuffer').2
    have hfull' : inputBuffer.bytes.length = 256 := inputBuffer.full
    refine ⟨rfl, Or.inr ⟨(UInt8.ne_of_lt hascii.2.1).symm, ?_⟩⟩
    simp only [line, hbytes', hadd]
    rw [hadd] at hbytes'
    rw [take_overwrite (le_refl _) (by omega), hbytes, overwrite, List.take_left']
    rw [List.length_append, List.length_take]
    simp only [List.length_singleton]
    omega
  · obtain ⟨inputBuffer, hbuffer, h⟩ := bind_eq_ok.mp h
    cases h
    have hbytes := (Block.memcpy_eq_ok.mp hbuffer).2
    refine ⟨rfl, Or.inl ?_⟩
    simp only [line, hbytes]
    exact take_overwrite (le_refl _) (by omega)

/-- A key leaves a line without a `NUL`. -/
theorem chatboxReadInput_line (h0 : 0 ∉ chatbox.line)
    (h : chatboxReadInput chatbox msgToSend keysymbol = .ok (msgSize, chatbox', msgToSend')) :
    0 ∉ chatbox'.line := by
  rw [chatboxReadInput] at h
  split at h
  · cases h
  · split at h
    · cases h
      exact h0
    · split at h
      · cases hback : chatbox.backSpace with
        | error fault =>
            rw [hback] at h
            cases h
        | ok chatbox₁ =>
            rw [hback] at h
            cases h
            obtain ⟨k, -, hline⟩ := Chatbox.backSpace_line hback
            rw [hline]
            exact fun hmem => h0 (List.mem_of_mem_take hmem)
      · split at h
        · obtain ⟨msg, -, h⟩ := bind_eq_ok.mp h
          obtain ⟨inputBuffer, -, h⟩ := bind_eq_ok.mp h
          cases h
          exact List.not_mem_nil
        · cases htype : chatbox.typeAscii keysymbol.toUInt8 with
          | error fault =>
              rw [htype] at h
              cases h
          | ok chatbox₁ =>
              rw [htype] at h
              cases h
              obtain ⟨-, hline | ⟨hne, hline⟩⟩ := Chatbox.typeAscii_line htype
              · rw [hline]
                exact h0
              · rw [hline, List.mem_append, List.mem_singleton, not_or]
                exact ⟨h0, fun h => hne h.symm⟩

/-- The line that Return ends stands at the beginning of `msg_to_send`, what was there before behind
it. -/
theorem chatboxReadInput_return (hc : chatbox.c = true) (h0 : 0 ∉ chatbox.line)
    (msgToSend : Block MAX_MSG_SIZE) :
    ∃ chatbox' msgToSend', chatboxReadInput chatbox msgToSend XK_Return =
        .ok (chatbox.line.length, chatbox', msgToSend') ∧
      msgToSend'.bytes = chatbox.line ++ msgToSend.bytes.drop chatbox.line.length := by
  have hlen := chatbox.length_line
  have hlt := UInt8.toNat_lt chatbox.bufferLen
  have hsize : MAX_MSG_SIZE = 256 := rfl
  have hcopy : strncpyBytes chatbox.inputBuffer.bytes chatbox.bufferLen.toNat = .ok chatbox.line := by
    have hsplit : chatbox.line ++ chatbox.inputBuffer.bytes.drop chatbox.bufferLen.toNat =
        chatbox.inputBuffer.bytes := List.take_append_drop _ _
    rw [← hlen, ← hsplit]
    exact strncpyBytes_of_append h0
  obtain ⟨msg, hmsg, hbytes⟩ := @Block.memcpy_ok _ msgToSend 0 chatbox.line (by omega)
  obtain ⟨blank, hblank, -⟩ := @Block.memcpy_ok _ chatbox.inputBuffer 0
    (List.replicate MAX_MSG_SIZE 0) (by rw [List.length_replicate, Nat.zero_add])
  refine ⟨{ chatbox with bufferLen := 0, inputBuffer := blank }, msg, ?_,
    hbytes.trans (overwrite_zero _ _)⟩
  rw [chatboxReadInput, hc, if_neg (by decide), if_neg (by decide), if_neg (by decide), if_pos rfl,
    Block.strncpy, hcopy, ok_bind, hmsg, ok_bind, Block.memset, hblank, ok_bind, hlen]
  rfl

end Keys

/-! ## File names -/

/-- The file name that a command leads to, whose line goes on with `rest`: as much of it as comes
before a space, if the array takes it and its terminator. -/
def typedFilename (rest : List Byte) : Except Fault (List Byte) :=
  if rest.length < 100 ∨ (rest.length = 100 ∧ space ∈ rest) then
    .ok (rest.takeWhile (· ≠ space))
  else .error .outOfBounds

/-- The token after the command is copied by the length of the line: what stands behind the line
makes no difference. -/
theorem copyFilename_token {rest : List Byte} (h0 : 0 ∉ rest) (behind : List Byte) (heap : Byte) :
    copyFilename ((split (rest ++ behind) space heap).headD []) rest.length =
      typedFilename rest := by
  by_cases hspace : space ∈ rest
  · obtain ⟨u, v, rfl, hu⟩ := List.eq_append_cons_of_mem hspace
    have hu0 : 0 ∉ u := fun h => h0 (List.mem_append_left _ h)
    have hcopy : strncpyBytes (u ++ [0]) (u ++ space :: v).length =
        .ok (u ++ List.replicate (v.length + 1) 0) := by
      have hcount : (u ++ space :: v).length - u.length = v.length + 1 := by
        rw [List.length_append, List.length_cons]
        omega
      rw [strncpyBytes_terminated hu0, List.take_append, List.take_replicate, hcount,
        List.take_of_length_le (by rw [List.length_append]; omega), Nat.min_eq_left (by omega)]
    have hlen : (u ++ space :: v).length = u.length + v.length + 1 := by
      rw [List.length_append, List.length_cons]
      omega
    rw [List.append_assoc, List.cons_append, split_append_cons hu, List.headD_cons,
      copyFilename_of_bytes hcopy, typedFilename, (takeWhile_ne_append hu v).1]
    by_cases hfits : (u ++ space :: v).length ≤ 100
    · rw [if_pos hfits, if_pos ((Nat.lt_or_eq_of_le hfits).imp_right fun h => ⟨h, hspace⟩),
        List.replicate_succ, List.append_assoc, List.cons_append, cstr_terminated hu0]
    · rw [if_neg hfits, if_neg (by omega)]
  · obtain ⟨junk, hjunk⟩ := @head_split_append space heap rest hspace behind
    rw [hjunk, copyFilename_append h0, typedFilename, takeWhile_of_notMem hspace]
    exact if_congr (or_iff_left fun h => hspace h.2).symm rfl rfl

/-! ## Lines -/

/-- `gui_group_function` looks for a command in the line. -/
def LooksLikeCommand (line : List Byte) : Prop :=
  line.head? = some 47 ∧ inviteCommand.length ≤ line.length

instance (line : List Byte) : Decidable (LooksLikeCommand line) := instDecidableAnd

/-- What a scanned line leads to, with `behind` what the string goes on with after it. -/
def commandOutcome (groupGid : UInt8) (myUid : UInt16) (line behind : List Byte) :
    Except Fault Issued :=
  if inviteCommand <+: line then
    if space ∈ line.drop inviteCommand.length ∨ space ∈ behind then .ok .rejected
    else .ok (.queued
      { createAndFillHdr INVITE groupGid myUid (UInt32.ofNat (line.length - inviteCommand.length))
        with payload := line.drop inviteCommand.length })
  else if downloadCommand <+: line then
    (typedFilename (line.drop downloadCommand.length)).map fun filename => .queued
      { createAndFillHdr DOWNLOAD_FILE groupGid myUid (UInt32.ofNat filename.length) with
        payload := filename }
  else if sendFileCommand <+: line then
    (typedFilename (line.drop sendFileCommand.length)).map (Issued.upload groupGid)
  else .ok .nothing

section Lines

variable {groupGid : UInt8} {myUid : UInt16} {msgToSend : Block MAX_MSG_SIZE}
  {line behind junk : List Byte} {heap : Byte}

/-- Comparing the array with a command looks at the line, if the line is long enough. -/
theorem strncmp_command {command : List Byte} (hline : 0 ∉ line) (hbehind : 0 ∉ behind)
    (hcommand : 0 ∉ command) :
    command.length ≤ line.length ∧
      strncmp (line ++ behind ++ 0 :: junk) command command.length = .ok 0 ↔ command <+: line := by
  have htext : 0 ∉ line ++ behind := List.not_mem_append hline hbehind
  obtain ⟨c, hc, hiff⟩ := strncmp_prefix junk htext hcommand (le_refl _)
  rw [hc, Except.ok.injEq, hiff, List.take_length]
  constructor
  · intro ⟨hlen, hcommon⟩
    exact List.prefix_of_prefix_length_le hcommon (List.prefix_append _ _) hlen
  · intro h
    exact ⟨h.length_le, h.trans (List.prefix_append _ _)⟩

/-- An invitation is accepted if the string has no space behind the command. -/
theorem inviteTokens (hrest : 0 ∉ line) :
    (match (inviteCommand.dropLast ++ [0]) :: split (line ++ behind) space heap with
      | [_, input] => do
        let payload ← strncpyBytes input line.length
        return .queued
          { createAndFillHdr INVITE groupGid myUid (UInt32.ofNat line.length) with
            payload := payload }
      | _ => return .rejected) =
      if space ∈ line ∨ space ∈ behind then (.ok .rejected : Except Fault Issued)
      else .ok (.queued { createAndFillHdr INVITE groupGid myUid (UInt32.ofNat line.length) with
        payload := line }) := by
  by_cases hspace : space ∈ line ++ behind
  · rw [if_pos (List.mem_append.mp hspace)]
    obtain ⟨w, rest, hsplit, hw⟩ := List.eq_append_cons_of_mem hspace
    obtain ⟨t, ts, hts⟩ := List.exists_cons_of_ne_nil (@split_ne_nil space heap rest)
    rw [hsplit, split_append_cons hw, hts]
    rfl
  · rw [if_neg (mt List.mem_append.mpr hspace), split_of_notMem hspace, List.append_assoc]
    simp only [strncpyBytes_of_append hrest, ok_bind]
    rfl

/-- A command ends its token with its space. -/
theorem split_command {command : List Byte} (hcommand : command = command.dropLast ++ [space])
    (hword : space ∉ command.dropLast) (rest : List Byte) :
    split (command ++ rest) space heap = (command.dropLast ++ [0]) :: split rest space heap := by
  conv_lhs => rw [hcommand, ← List.append_cons]
  exact split_append_cons hword rest

/-- The token after a command that takes a file name. -/
theorem filenameToken {command : List Byte} (hcommand : command = command.dropLast ++ [space])
    (hword : space ∉ command.dropLast) (hline : 0 ∉ line) :
    ∃ t ts, split (command ++ (line ++ behind)) space heap = (command.dropLast ++ [0]) :: t :: ts ∧
      copyFilename t line.length = typedFilename line := by
  obtain ⟨t, ts, hts⟩ := List.exists_cons_of_ne_nil (@split_ne_nil space heap (line ++ behind))
  have htoken := copyFilename_token hline behind heap
  rw [hts, List.headD_cons] at htoken
  exact ⟨t, ts, by rw [split_command hcommand hword, hts], htoken⟩

theorem length_after_command (command : List Byte) :
    (command ++ line).length - command.length = line.length := by
  rw [List.length_append, Nat.add_sub_cancel_left]

/-- The outcome of a scanned line depends on what stands behind it up to the next `NUL`, and there
on the spaces alone. -/
theorem guiLine_scanned (hline : 0 ∉ line) (hbehind : 0 ∉ behind) (hscan : LooksLikeCommand line)
    (hbytes : msgToSend.bytes = line ++ behind ++ 0 :: junk) :
    guiLine groupGid myUid msgToSend line.length heap =
      commandOutcome groupGid myUid line behind := by
  have htext : 0 ∉ line ++ behind := List.not_mem_append hline hbehind
  have hlen : inviteCommand.length ≤ line.length := hscan.2
  have hpos : line.length ≠ 0 := by
    have hword : inviteCommand.length = 8 := rfl
    omega
  have hhead : (line ++ behind ++ 0 :: junk).head? = some 47 := by
    rw [List.append_assoc, List.head?_append, hscan.1]
    rfl
  have hinvite := (and_iff_right hlen).symm.trans
    (@strncmp_command line behind junk inviteCommand hline hbehind (by decide))
  have hdownload := @strncmp_command line behind junk downloadCommand hline hbehind (by decide)
  have hsend := @strncmp_command line behind junk sendFileCommand hline hbehind (by decide)
  rw [guiLine, if_neg hpos, hbytes, if_pos ⟨hhead, hlen⟩, cstr_terminated htext, ok_bind,
    commandOutcome]
  simp only [hinvite, hdownload, hsend]
  by_cases his : inviteCommand <+: line
  · obtain ⟨rest, rfl⟩ := his
    have hrest : 0 ∉ rest := fun h => hline (List.mem_append_right _ h)
    rw [if_pos (List.prefix_append _ _), if_pos (List.prefix_append _ _), List.append_assoc,
      split_command rfl (by decide), length_after_command, List.drop_left]
    exact inviteTokens hrest
  · rw [if_neg his, if_neg his]
    by_cases his : downloadCommand <+: line
    · obtain ⟨rest, rfl⟩ := his
      have hrest : 0 ∉ rest := fun h => hline (List.mem_append_right _ h)
      obtain ⟨t, ts, hwords, htoken⟩ :=
        @filenameToken rest behind heap downloadCommand rfl (by decide) hrest
      rw [if_pos (List.prefix_append _ _), if_pos (List.prefix_append _ _), List.append_assoc,
        length_after_command, List.drop_left, hwords]
      simp only [htoken]
      cases typedFilename rest <;> rfl
    · rw [if_neg his, if_neg his]
      by_cases his : sendFileCommand <+: line
      · obtain ⟨rest, rfl⟩ := his
        have hrest : 0 ∉ rest := fun h => hline (List.mem_append_right _ h)
        obtain ⟨t, ts, hwords, htoken⟩ :=
          @filenameToken rest behind heap sendFileCommand rfl (by decide) hrest
        rw [if_pos (List.prefix_append _ _), if_pos (List.prefix_append _ _), List.append_assoc,
          length_after_command, List.drop_left, hwords]
        simp only [htoken]
        cases typedFilename rest <;> rfl
      · rw [if_neg his, if_neg his]
        rfl

theorem not_prefix_of_prefix {command command' : List Byte} (h : command <+: line)
    (hlen : command.length ≤ command'.length) (hne : ¬ command <+: command') :
    ¬ command' <+: line := fun h' => hne (List.prefix_of_prefix_length_le h h' hlen)

/-- The file name of the command in the line, if there is one, fits the array. -/
def FilenameFits (line : List Byte) : Prop :=
  ∀ command ∈ [downloadCommand, sendFileCommand], command <+: line →
    (line.drop command.length).length < 100 ∨
      ((line.drop command.length).length = 100 ∧ space ∈ line.drop command.length)

theorem typedFilename_ok_iff {rest : List Byte} :
    (∃ filename, typedFilename rest = .ok filename) ↔
      rest.length < 100 ∨ (rest.length = 100 ∧ space ∈ rest) := by
  rw [typedFilename]
  constructor
  · intro ⟨filename, h⟩
    by_contra hno
    rw [if_neg hno] at h
    cases h
  · intro h
    exact ⟨_, if_pos h⟩

theorem map_ok_iff {α β : Type} {x : Except Fault α} {f : α → β} :
    (∃ b, x.map f = .ok b) ↔ ∃ a, x = .ok a := by
  cases x with
  | error fault => exact ⟨fun ⟨_, h⟩ => (nomatch h), fun ⟨_, h⟩ => (nomatch h)⟩
  | ok a => exact ⟨fun _ => ⟨a, rfl⟩, fun _ => ⟨f a, rfl⟩⟩

/-- A scanned line leads to something defined exactly when its file name fits. -/
theorem commandOutcome_ok_iff :
    (∃ issued, commandOutcome groupGid myUid line behind = .ok issued) ↔ FilenameFits line := by
  rw [commandOutcome, FilenameFits, List.forall_mem_cons, List.forall_mem_singleton]
  by_cases hinvite : inviteCommand <+: line
  · have hdownload := not_prefix_of_prefix hinvite (by decide) (by decide : ¬ _ <+: downloadCommand)
    have hsend := not_prefix_of_prefix hinvite (by decide) (by decide : ¬ _ <+: sendFileCommand)
    rw [if_pos hinvite]
    refine iff_of_true ?_ ⟨fun h => absurd h hdownload, fun h => absurd h hsend⟩
    split
    · exact ⟨_, rfl⟩
    · exact ⟨_, rfl⟩
  · rw [if_neg hinvite]
    by_cases hdownload : downloadCommand <+: line
    · have hsend := not_prefix_of_prefix hdownload (by decide) (by decide : ¬ _ <+: sendFileCommand)
      rw [if_pos hdownload, map_ok_iff, typedFilename_ok_iff]
      exact ⟨fun h => ⟨fun _ => h, fun h => absurd h hsend⟩, fun h => h.1 hdownload⟩
    · rw [if_neg hdownload]
      by_cases hsend : sendFileCommand <+: line
      · rw [if_pos hsend, map_ok_iff, typedFilename_ok_iff]
        exact ⟨fun h => ⟨fun h => absurd h hdownload, fun _ => h⟩, fun h => h.2 hsend⟩
      · rw [if_neg hsend]
        exact iff_of_true ⟨_, rfl⟩ ⟨fun h => absurd h hdownload, fun h => absurd h hsend⟩

/-- What stands behind a line matters to an invitation of one word, and there whether it has a
space. -/
theorem commandOutcome_congr {behind' : List Byte} :
    commandOutcome groupGid myUid line behind = commandOutcome groupGid myUid line behind' ↔
      (inviteCommand <+: line → space ∉ line.drop inviteCommand.length →
        (space ∈ behind ↔ space ∈ behind')) := by
  rw [commandOutcome, commandOutcome]
  by_cases hinvite : inviteCommand <+: line
  · rw [if_pos hinvite, if_pos hinvite]
    by_cases hspace : space ∈ line.drop inviteCommand.length
    · rw [if_pos (Or.inl hspace), if_pos (Or.inl hspace)]
      exact iff_of_true rfl fun _ h => absurd hspace h
    · simp only [hinvite, hspace, not_false_eq_true, forall_const, false_or]
      by_cases hbehind : space ∈ behind <;> by_cases hbehind' : space ∈ behind' <;>
        simp [hbehind, hbehind']
  · rw [if_neg hinvite, if_neg hinvite]
    exact iff_of_true rfl fun h => absurd h hinvite

end Lines

/-! ## Two windows -/

/-- A window in which a line has been typed and Return is released next. -/
structure TypedLine (groupGid : UInt8) (myUid : UInt16) where
  /-- what `msg_to_send` held when the thread began -/
  stack : Block MAX_MSG_SIZE
  history : List (Lts.Taken GuiWindow KeyRelease Issued)
  window : GuiWindow
  run : Lts.Run (guiStep groupGid myUid) ⟨chatboxInit, stack⟩ history window
  connected : window.chatbox.c = true
  heap : Byte

namespace TypedLine

variable {groupGid : UInt8} {myUid : UInt16}

/-- The line. -/
def line (t : TypedLine groupGid myUid) : List Byte := t.window.chatbox.line

/-- What the array holds from the end of the line on. -/
def remains (t : TypedLine groupGid myUid) : List Byte :=
  t.window.msgToSend.bytes.drop t.line.length

/-- What the line leads to. -/
def issued (t : TypedLine groupGid myUid) : Except Fault Issued :=
  (guiStep groupGid myUid t.window ⟨XK_Return, t.heap⟩).map Prod.fst

/-- Two windows with the same line issue the same request, whatever was typed in them before. -/
def SameRequest (a b : TypedLine groupGid myUid) : Prop :=
  a.line = b.line → ∃ issued, a.issued = .ok issued ∧ b.issued = .ok issued

/-- A line that is scanned has a file name that fits, ends in both arrays, and if it is an
invitation of one word then both arrays go on with a space before their next `NUL`, or neither. -/
def Harmless (line remains remains' : List Byte) : Prop :=
  LooksLikeCommand line → FilenameFits line ∧ 0 ∈ remains ∧ 0 ∈ remains' ∧
    (inviteCommand <+: line → space ∉ line.drop inviteCommand.length →
      (space ∈ remains.takeWhile (· ≠ 0) ↔ space ∈ remains'.takeWhile (· ≠ 0)))

theorem nul_not_mem_line (t : TypedLine groupGid myUid) : 0 ∉ t.line := by
  have hrun := t.run
  rw [line]
  generalize t.window = w at hrun
  generalize t.history = h at hrun
  induction hrun with
  | start => exact List.not_mem_nil
  | next run taken ih =>
      obtain ⟨⟨msgSize, chatbox, msgToSend⟩, hread, htaken⟩ := bind_eq_ok.mp taken
      obtain ⟨issued, -, htaken⟩ := bind_eq_ok.mp htaken
      cases htaken
      exact chatboxReadInput_line ih hread

/-- What a line leads to, by the line and by what the array holds behind it. -/
theorem issued_eq (t : TypedLine groupGid myUid) :
    t.issued =
      if t.line = [] then .ok .nothing
      else if LooksLikeCommand t.line then
        if 0 ∈ t.remains then
          commandOutcome groupGid myUid t.line (t.remains.takeWhile (· ≠ 0))
        else .error .outOfBounds
      else .ok (.queued ⟨SEND_CHAT, groupGid, myUid, UInt32.ofNat t.line.length, t.line⟩) := by
  have h0 := t.nul_not_mem_line
  obtain ⟨chatbox, msgToSend, hread, hbytes⟩ :=
    chatboxReadInput_return t.connected h0 t.window.msgToSend
  have hline : guiLine groupGid myUid msgToSend t.line.length t.heap = t.issued := by
    rw [issued, guiStep, hread, ok_bind, ← line]
    simp only
    cases guiLine groupGid myUid msgToSend t.line.length t.heap <;> rfl
  rw [← line, ← remains] at hbytes
  rw [← hline]
  by_cases hnil : t.line = []
  · rw [if_pos hnil, guiLine, hnil, if_pos List.length_nil]
    rfl
  · have hsize : t.line.length ≠ 0 := fun h => hnil (List.length_eq_zero_iff.mp h)
    have hhead : msgToSend.bytes.head? = t.line.head? := by
      rw [hbytes]
      exact List.head?_append_of_ne_nil _ hnil
    rw [if_neg hnil]
    by_cases hscan : LooksLikeCommand t.line
    · rw [if_pos hscan]
      by_cases hend : 0 ∈ t.remains
      · obtain ⟨behind, junk, hremains, hbehind⟩ := List.eq_append_cons_of_mem hend
        have hbytes' : msgToSend.bytes = t.line ++ behind ++ 0 :: junk := by
          rw [hbytes, hremains, List.append_assoc]
        rw [if_pos hend, guiLine_scanned h0 hbehind hscan hbytes', hremains,
          (takeWhile_ne_append hbehind junk).1]
      · have hopen : 0 ∉ msgToSend.bytes := by
          rw [hbytes, List.mem_append, not_or]
          exact ⟨h0, hend⟩
        rw [if_neg hend, guiLine, if_neg hsize, if_pos ⟨hhead.trans hscan.1, hscan.2⟩,
          cstr_unterminated hopen]
        rfl
    · rw [if_neg hscan, guiLine, if_neg hsize, if_neg fun h => hscan ⟨hhead ▸ h.1, h.2⟩, hbytes,
        strncpyBytes_of_append h0]
      rfl

/-- Two windows issue the same request for a line exactly when what is left of the lines before it
does no harm. -/
theorem sameRequest_iff (a b : TypedLine groupGid myUid) :
    SameRequest a b ↔ (a.line = b.line → Harmless a.line a.remains b.remains) := by
  rw [SameRequest]
  refine imp_congr_right fun hline => ?_
  rw [a.issued_eq, b.issued_eq, ← hline, Harmless]
  by_cases hnil : a.line = []
  · have hscan : ¬ LooksLikeCommand a.line := by
      rw [hnil]
      decide
    rw [if_pos hnil, if_pos hnil]
    exact iff_of_true ⟨_, rfl, rfl⟩ fun h => absurd h hscan
  · rw [if_neg hnil, if_neg hnil]
    by_cases hscan : LooksLikeCommand a.line
    · rw [if_pos hscan, if_pos hscan, forall_prop_of_true hscan, ← @commandOutcome_ok_iff groupGid
        myUid a.line (a.remains.takeWhile (· ≠ 0)), ← @commandOutcome_congr groupGid myUid]
      constructor
      · intro ⟨issued, ha, hb⟩
        by_cases hend : 0 ∈ a.remains
        · by_cases hend' : 0 ∈ b.remains
          · rw [if_pos hend] at ha
            rw [if_pos hend'] at hb
            exact ⟨⟨issued, ha⟩, hend, hend', ha.trans hb.symm⟩
          · rw [if_neg hend'] at hb
            cases hb
        · rw [if_neg hend] at ha
          cases ha
      · intro ⟨⟨issued, ha⟩, hend, hend', hsame⟩
        rw [if_pos hend, if_pos hend']
        exact ⟨issued, ha, hsame ▸ ha⟩
    · rw [if_neg hscan, if_neg hscan]
      exact iff_of_true ⟨_, rfl, rfl⟩ fun h => absurd h hscan

end TypedLine

/-! ## An invitation after another line -/

/-- The keys of a text. -/
def typeKeys (text : List Byte) : List KeyRelease := text.map fun b => ⟨b.toUInt32, 0⟩

/-- `/invite b` -/
def inviteLine : List Byte := inviteCommand ++ [98]

/-- `aaaaaaaaa b` and Return, then the invitation. -/
def afterOtherLine : List KeyRelease :=
  typeKeys [97, 97, 97, 97, 97, 97, 97, 97, 97, 32, 98] ++ ⟨XK_Return, 0⟩ :: typeKeys inviteLine

/-- The invitation is queued in a new window and rejected after a longer line with a space. -/
theorem earlier_line_leaks :
    ¬ ∀ (groupGid : UInt8) (myUid : UInt16) (a b : TypedLine groupGid myUid),
      TypedLine.SameRequest a b := by
  intro hall
  let start : GuiWindow := ⟨chatboxInit, .zeros MAX_MSG_SIZE⟩
  have hfirst : Lts.returns (Lts.execute (guiStep 0 1) (typeKeys inviteLine) [] start)
      (fun r => r.2.chatbox.c = true ∧ r.2.chatbox.line = inviteLine ∧
        Lts.returns (guiStep 0 1 r.2 ⟨XK_Return, 0⟩) (fun q => q.1 ≠ .rejected)) = true := by
    decide +kernel
  have hlater : Lts.returns (Lts.execute (guiStep 0 1) afterOtherLine [] start)
      (fun r => r.2.chatbox.c = true ∧ r.2.chatbox.line = inviteLine ∧
        Lts.returns (guiStep 0 1 r.2 ⟨XK_Return, 0⟩) (fun q => q.1 = .rejected)) = true := by
    decide +kernel
  obtain ⟨⟨h, w⟩, hexec, htest⟩ := Lts.exists_of_returns hfirst
  obtain ⟨hconnected, hline, hreturns⟩ := of_decide_eq_true htest
  obtain ⟨q, hstep, hqueued⟩ := Lts.exists_of_returns hreturns
  obtain ⟨⟨h', w'⟩, hexec', htest'⟩ := Lts.exists_of_returns hlater
  obtain ⟨hconnected', hline', hreturns'⟩ := of_decide_eq_true htest'
  obtain ⟨q', hstep', hrejected⟩ := Lts.exists_of_returns hreturns'
  obtain ⟨run, -⟩ := Lts.Run.start.of_execute hexec
  obtain ⟨run', -⟩ := Lts.Run.start.of_execute hexec'
  obtain ⟨issued, ha, hb⟩ := hall 0 1 ⟨.zeros MAX_MSG_SIZE, h, w, run, hconnected, 0⟩
    ⟨.zeros MAX_MSG_SIZE, h', w', run', hconnected', 0⟩ (hline.trans hline'.symm)
  rw [TypedLine.issued, hstep] at ha
  rw [TypedLine.issued, hstep'] at hb
  have hsame : q.1 = q'.1 := (Except.ok.inj ha).trans (Except.ok.inj hb).symm
  exact of_decide_eq_true hqueued (hsame.trans (of_decide_eq_true hrejected))

end GroupChat
