import GroupChat.Client.Terminal

/-!
# What was typed and what is sent

A line with a command and its fields is to issue one request, with the gid and the text that were
typed, or none. `reachesGroup_iff` says for which lines it does.

The text of a request is always what comes before the line's end, so that `chopped_iff` decides
when dropping a last byte gives the rest of the line: when nothing hides a part of it and the line
has its newline.
-/

namespace GroupChat

open Posix

/-! ## What was typed -/

/-- A turn of the loop: what `getline` has read and what the program finds in the memory. -/
structure TypedText where
  /-- the text up to its newline, or up to the end of the input -/
  text : List Byte
  oneLine : newline ∉ text.dropLast
  /-- `read` is an `ssize_t` -/
  short : text.length < 2 ^ 63
  /-- what lies behind the `NUL` that `getline` puts after the text -/
  behind : List Byte
  malloc : Malloc
  /-- what `int gid` holds -/
  gid : Int
  /-- which files `fopen` opens -/
  opens : List Byte → Bool

/-- The text begins with these two fields, each followed by a space. -/
structure Fields (text first second rest : List Byte) : Prop where
  eq : text = first ++ space :: (second ++ space :: rest)
  first : space ∉ first
  second : space ∉ second

/-- A request as it leaves the client. -/
structure Request where
  cmd : UInt8
  gid : UInt8
  text : List Byte

/-- The requests of a line; `send_file` sends nothing when the file does not open. -/
def requests (opens : List Byte → Bool) : Issued → List Request
  | .nothing => []
  | .rejected => []
  | .queued header => [⟨header.cmd, header.gid, header.payload⟩]
  | .upload gid filename => if opens filename then [⟨SEND_FILE, gid, filename⟩] else []

def Command.cmd : Command → UInt8
  | .invite => INVITE
  | .send => SEND_CHAT
  | .sendFile => SEND_FILE
  | .download => DOWNLOAD_FILE

/-- No request, or one with the number in the field for the gid and the rest of the line for the
text. -/
def Reached (opens : List Byte → Bool) (cmd : UInt8) (field rest : List Byte) (issued : Issued) :
    Prop :=
  requests opens issued = [] ∨ ∃ gid : UInt8, IsDecimal field gid.toNat ∧
    requests opens issued = [⟨cmd, gid, rest.takeWhile (· ≠ newline)⟩]

/-- A line with a command and its fields issues what was typed, or nothing. -/
def ReachesGroup (myUid : UInt16) (t : TypedText) : Prop :=
  ∀ (command : Command) field rest, Fields t.text command.word field rest →
    ∃ issued, handleLine myUid (t.text ++ 0 :: t.behind) t.malloc t.gid = .ok issued ∧
      Reached t.opens command.cmd field rest issued

/-! ## When it does -/

/-- The memory of the line, up to its `NUL` and behind it. -/
def TypedText.line (t : TypedText) : Argument := .ofBuf (t.text ++ 0 :: t.behind)

/-- What `malloc` left in the last byte of the last token. -/
def TypedText.heap (t : TypedText) : Byte := lastByte t.line space t.malloc

/-- The field is the number of a group. -/
def NamesGroup (field : List Byte) : Prop := ∃ gid : UInt8, IsDecimal field gid.toNat

/-- The rest of the line ends with its newline and has no `NUL`. -/
def WholeLine (rest : List Byte) : Prop := 0 ∉ rest ∧ newline ∈ rest

/-- The fields of the command are what its way to take them needs. -/
def Command.Proper (command : Command) (field rest : List Byte) (heap : Byte)
    (opens : List Byte → Bool) : Prop :=
  let text := rest.takeWhile (· ≠ 0)
  match command with
  | .invite => space ∈ text ∨ (heap = 0 ∧ NamesGroup field ∧
      (WholeLine rest ∨ rest.takeWhile (· ≠ newline) = List.replicate (2 ^ 32 - 1) 0))
  | .send => NamesGroup field ∧ WholeLine rest ∧ rest.length ≤ 2 ^ 32
  | .sendFile =>
    let input := text.takeWhile (· ≠ space)
    (space ∈ text ∨ heap = 0) ∧ input ≠ [] ∧ input.length ≤ 100 ∧
      scanInt field ≠ .error .overflow ∧
      (opens input.dropLast = true → NamesGroup field ∧ WholeLine rest ∧ space ∉ rest)
  | .download => heap = 0 ∧ NamesGroup field ∧ WholeLine rest ∧ space ∉ rest ∧ rest.length ≤ 100

/-- A command with its fields has counters that fit and either a `NUL` in its second field, which
hides the others, or proper fields. -/
def TypedProperly (t : TypedText) : Prop :=
  ∀ (command : Command) field rest, Fields t.text command.word field rest →
    CountersFit t.line.str space ∧ (0 ∈ field ∨ command.Proper field rest t.heap t.opens)

/-! ## The line as it is split -/

theorem TypedText.buf_line (t : TypedText) : t.line.buf = t.text ++ 0 :: t.behind :=
  Argument.buf_ofBuf (List.mem_append_right _ List.mem_cons_self)

section Split

variable {t : TypedText} {command : Command} {field rest : List Byte}

theorem Command.nul_not_mem_word (command : Command) : (0 : Byte) ∉ command.word := by
  cases command <;> decide

/-- A second field with a `NUL` is the last one. -/
theorem Fields.str_of_nul (fields : Fields t.text command.word field rest) (h0 : 0 ∈ field) :
    t.line.str = command.word ++ space :: field.takeWhile (· ≠ 0) := by
  obtain ⟨w, v, hfield, hw⟩ := List.eq_append_cons_of_mem h0
  have hstr : 0 ∉ command.word ++ space :: w := by
    rw [List.mem_append, List.mem_cons, not_or, not_or]
    exact ⟨command.nul_not_mem_word, by decide, hw⟩
  have htext : t.text ++ 0 :: t.behind =
      (command.word ++ space :: w) ++ 0 :: (v ++ space :: rest ++ 0 :: t.behind) := by
    rw [fields.eq, hfield]
    simp only [List.append_assoc, List.cons_append]
  change (t.text ++ 0 :: t.behind).takeWhile (· ≠ 0) = _
  rw [htext, hfield, (takeWhile_ne_append hw v).1, (takeWhile_ne_append hstr _).1]

theorem Fields.str (fields : Fields t.text command.word field rest) (h0 : 0 ∉ field) :
    t.line.str = command.word ++ space :: (field ++ space :: rest.takeWhile (· ≠ 0)) := by
  have hfirst : 0 ∉ command.word ++ space :: (field ++ [space]) := by
    rw [List.mem_append, List.mem_cons, List.mem_append, List.mem_singleton, not_or, not_or, not_or]
    exact ⟨command.nul_not_mem_word, by decide, h0, by decide⟩
  have hall : ∀ b ∈ command.word ++ space :: (field ++ [space]), decide (b ≠ 0) = true := by
    intro b hb
    exact decide_eq_true fun h => hfirst (h ▸ hb)
  have htext : t.text ++ 0 :: t.behind =
      (command.word ++ space :: (field ++ [space])) ++ (rest ++ 0 :: t.behind) := by
    rw [fields.eq]
    simp only [List.append_assoc, List.cons_append, List.nil_append]
  have hrest : (rest ++ 0 :: t.behind).takeWhile (· ≠ 0) = rest.takeWhile (· ≠ 0) := by
    by_cases hnul : 0 ∈ rest
    · obtain ⟨w, v, rfl, hw⟩ := List.eq_append_cons_of_mem hnul
      rw [List.append_assoc, List.cons_append, (takeWhile_ne_append hw _).1,
        (takeWhile_ne_append hw v).1]
    · rw [(takeWhile_ne_append hnul _).1, takeWhile_of_notMem hnul]
  change (t.text ++ 0 :: t.behind).takeWhile (· ≠ 0) = _
  rw [htext, List.takeWhile_append_of_pos hall, hrest]
  simp only [List.append_assoc, List.cons_append, List.nil_append]

theorem findCommand_word (command : Command) :
    isWord (command.word ++ [0]) newGroupWord = .ok false ∧
      isWord (command.word ++ [0]) activeListWord = .ok false ∧
      findCommand (command.word ++ [0]) [.invite, .send, .sendFile, .download] =
        .ok (some command) := by
  cases command <;> exact ⟨rfl, rfl, rfl⟩

/-- A line that begins with a command and a space goes to that command. -/
theorem handleLine_command {myUid : UInt16} {tail : List Byte}
    (hword : space ∉ command.word) (hstr : t.line.str = command.word ++ space :: tail)
    (hfit : CountersFit t.line.str space) :
    handleLine myUid (t.text ++ 0 :: t.behind) t.malloc t.gid =
      command.call myUid t.line.buf (tail.count space + 2)
        ((command.word ++ [0]) :: split tail space t.heap) t.gid := by
  obtain ⟨hnew, hactive, hfind⟩ := findCommand_word command
  have hsplit : split t.line.str space t.heap = (command.word ++ [0]) :: split tail space t.heap := by
    rw [hstr, split_append_cons hword]
  have hcount : (t.line.str.count space : Int) + 1 = tail.count space + 2 := by
    rw [hstr, List.count_append, List.count_eq_zero_of_not_mem hword, List.count_cons_self]
    push_cast
    ring
  rw [← t.buf_line, handleLine, splitPasses_eq hfit, ok_bind, ← TypedText.heap, hsplit, hcount]
  simp only [List.headD_cons, hnew, hactive, hfind, ok_bind]
  rfl

end Split

/-! ## Whose requests are the ones that were typed -/

section Reached

variable {w field rest junk : List Byte} {heap : Byte} {gid : Int} {myUid : UInt16}
  {opens : List Byte → Bool}

/-- What begins the rest is, without its last byte, the line without its newline exactly when it is
the whole rest and has the newline. -/
theorem chopped_iff {start : List Byte} (hone : newline ∉ rest.dropLast) (hstart : start <+: rest)
    (hne : start ≠ []) :
    start.dropLast = rest.takeWhile (· ≠ newline) ↔ start = rest ∧ newline ∈ rest := by
  have hrest : rest ≠ [] := fun h => hne (List.prefix_nil.mp (h ▸ hstart))
  have hpos := List.length_pos_iff.mpr hne
  constructor
  · intro heq
    have hline : rest.dropLast <+: rest.takeWhile (· ≠ newline) := by
      have hall : ∀ b ∈ rest.dropLast, decide (b ≠ newline) = true := by
        intro b hb
        exact decide_eq_true fun h => hone (h ▸ hb)
      conv_rhs => rw [← List.dropLast_append_getLast hrest]
      rw [List.takeWhile_append_of_pos hall]
      exact List.prefix_append _ _
    have hlen := congrArg List.length heq
    have hle := hline.length_le
    rw [List.length_dropLast] at hlen hle
    refine ⟨hstart.eq_of_length_le (by omega), ?_⟩
    by_contra hnone
    have hstartlen := hstart.length_le
    rw [takeWhile_of_notMem hnone] at hlen
    omega
  · intro ⟨heq, hnewline⟩
    rw [heq]
    have hlast : rest.getLast hrest = newline := by
      rw [← List.dropLast_append_getLast hrest, List.mem_append, List.mem_singleton] at hnewline
      exact (hnewline.resolve_left hone).symm
    conv_rhs => rw [← List.dropLast_append_getLast hrest, hlast]
    exact (takeWhile_ne_append hone []).1.symm

/-- The string up to its terminator, without its last byte. -/
theorem chopped_text (hone : newline ∉ rest.dropLast) (hne : rest.takeWhile (· ≠ 0) ≠ []) :
    (rest.takeWhile (· ≠ 0)).dropLast = rest.takeWhile (· ≠ newline) ↔ WholeLine rest := by
  rw [chopped_iff hone (List.takeWhile_prefix _) hne, takeWhile_eq_self, WholeLine]

/-- The first token of it, without its last byte. -/
theorem chopped_token (hone : newline ∉ rest.dropLast)
    (hne : (rest.takeWhile (· ≠ 0)).takeWhile (· ≠ space) ≠ []) :
    ((rest.takeWhile (· ≠ 0)).takeWhile (· ≠ space)).dropLast = rest.takeWhile (· ≠ newline) ↔
      WholeLine rest ∧ space ∉ rest := by
  have htoken : (rest.takeWhile (· ≠ 0)).takeWhile (· ≠ space) <+: rest.takeWhile (· ≠ 0) :=
    List.takeWhile_prefix _
  have htext : rest.takeWhile (· ≠ 0) <+: rest := List.takeWhile_prefix _
  rw [chopped_iff hone (htoken.trans htext) hne, WholeLine]
  constructor
  · intro ⟨heq, hnewline⟩
    have hall : rest.takeWhile (· ≠ 0) = rest :=
      htext.eq_of_length_le (by rw [← congrArg List.length heq]; exact htoken.length_le)
    rw [hall] at heq
    exact ⟨⟨takeWhile_eq_self.mp hall, hnewline⟩, takeWhile_eq_self.mp heq⟩
  · intro ⟨⟨h0, hnewline⟩, hspace⟩
    rw [takeWhile_of_notMem h0, takeWhile_of_notMem hspace]
    exact ⟨rfl, hnewline⟩

theorem scan_of_namesGroup (h : NamesGroup field) :
    ∃ gid : UInt8, IsDecimal field gid.toNat ∧ scanInt field = .ok (some (gid.toNat : Int)) := by
  obtain ⟨gid, hgid⟩ := h
  have hlt := UInt8.toNat_lt gid
  exact ⟨gid, hgid, by rw [scanInt_digits hgid, if_neg (by omega)]⟩

theorem ofInt_toNat (gid : UInt8) : UInt8.ofInt (gid.toNat : Int) = gid := by
  have hlt := UInt8.toNat_lt gid
  rw [← UInt8.toNat_inj, UInt8.ofInt, UInt8.toNat_ofNat']
  omega

/-- A call that issues one request with the number that was scanned issues what was typed exactly
when the field names a group and the text is the rest of the line. -/
theorem request_iff {f : Option Int → Issued} {cmd : UInt8} {text : List Byte}
    (hf : ∀ scanned, requests opens (f scanned) = [⟨cmd, UInt8.ofInt (scanned.getD gid), text⟩]) :
    (∃ issued, (scanInt field).map f = .ok issued ∧ Reached opens cmd field rest issued) ↔
      NamesGroup field ∧ text = rest.takeWhile (· ≠ newline) := by
  constructor
  · intro ⟨issued, hcall, hreached⟩
    cases hscan : scanInt field with
    | error fault =>
        rw [hscan] at hcall
        cases hcall
    | ok scanned =>
        rw [hscan] at hcall
        cases hcall
        rw [Reached, hf] at hreached
        obtain ⟨typed, htyped, heq⟩ := hreached.resolve_left (List.cons_ne_nil _ _)
        cases heq
        exact ⟨⟨_, htyped⟩, rfl⟩
  · intro ⟨hnames, htext⟩
    obtain ⟨typed, htyped, hscan⟩ := scan_of_namesGroup hnames
    refine ⟨f (some typed.toNat), by rw [hscan]; rfl, Or.inr ⟨typed, htyped, ?_⟩⟩
    rw [hf, htext, Option.getD_some, ofInt_toNat]

/-- The text of an invitation is the rest of the line. -/
theorem invitedText_iff (hone : newline ∉ rest.dropLast) :
    invitedText (rest.takeWhile (· ≠ 0)) = rest.takeWhile (· ≠ newline) ↔
      WholeLine rest ∨ rest.takeWhile (· ≠ newline) = List.replicate (2 ^ 32 - 1) 0 := by
  rw [invitedText]
  by_cases hnil : rest.takeWhile (· ≠ 0) = []
  · have hnotwhole : ¬ WholeLine rest := by
      intro whole
      rw [takeWhile_of_notMem whole.1] at hnil
      rw [hnil] at whole
      exact List.not_mem_nil whole.2
    rw [if_pos hnil, or_iff_right hnotwhole, eq_comm]
  · have hnotzeros : rest.takeWhile (· ≠ newline) ≠ List.replicate (2 ^ 32 - 1) 0 := by
      intro hzeros
      apply hnil
      have hprefix := List.takeWhile_prefix (· ≠ newline) (l := rest)
      rw [hzeros] at hprefix
      obtain ⟨more, hmore⟩ := hprefix
      rw [← hmore]
      rfl
    rw [if_neg hnil, or_iff_left hnotzeros]
    exact chopped_text hone hnil

/-- The same for a call that may fail after the scan. -/
theorem checked_request_iff {P : Prop} [Decidable P] {f : Option Int → Issued} {cmd : UInt8}
    {text : List Byte}
    (hf : ∀ scanned, requests opens (f scanned) = [⟨cmd, UInt8.ofInt (scanned.getD gid), text⟩]) :
    (∃ issued, (scanInt field >>= fun scanned =>
        if P then .ok (f scanned) else .error .outOfBounds) = .ok issued ∧
        Reached opens cmd field rest issued) ↔
      P ∧ NamesGroup field ∧ text = rest.takeWhile (· ≠ newline) := by
  by_cases hP : P
  · have hmap : (scanInt field >>= fun scanned =>
        if P then Except.ok (f scanned) else .error Fault.outOfBounds) = (scanInt field).map f := by
      simp only [if_pos hP]
      cases scanInt field <;> rfl
    rw [hmap, request_iff hf, and_iff_right hP]
  · constructor
    · intro ⟨issued, hcall, _⟩
      obtain ⟨scanned, -, hrest⟩ := bind_eq_ok.mp hcall
      rw [if_neg hP] at hrest
      cases hrest
    · intro h
      exact absurd h.1 hP

theorem inviteCall_iff (hfield : 0 ∉ field) (hone : newline ∉ rest.dropLast)
    (hshort : space ∉ rest.takeWhile (· ≠ 0) → (rest.takeWhile (· ≠ 0)).length < 2 ^ 31) :
    (∃ issued, inviteCall myUid (((rest.takeWhile (· ≠ 0)).count space : Int) + 3)
        (w :: (field ++ [0]) :: split (rest.takeWhile (· ≠ 0)) space heap) gid = .ok issued ∧
        Reached opens INVITE field rest issued) ↔
      Command.invite.Proper field rest heap opens := by
  rw [inviteCall_eq hfield (nul_not_mem_takeWhile rest) hshort]
  change _ ↔ space ∈ rest.takeWhile (· ≠ 0) ∨ (heap = 0 ∧ NamesGroup field ∧
    (WholeLine rest ∨ rest.takeWhile (· ≠ newline) = List.replicate (2 ^ 32 - 1) 0))
  by_cases hspace : space ∈ rest.takeWhile (· ≠ 0)
  · rw [if_pos hspace]
    exact iff_of_true ⟨.rejected, rfl, Or.inl rfl⟩ (Or.inl hspace)
  · rw [if_neg hspace, or_iff_right hspace, ← invitedText_iff hone]
    exact checked_request_iff fun _ => rfl

theorem sendCall_iff (hw : 0 ∉ w) (hwspace : space ∉ w) (hfield : 0 ∉ field)
    (hfieldspace : space ∉ field) (hone : newline ∉ rest.dropLast) (hshort : rest.length < 2 ^ 63) :
    (∃ issued, sendCall myUid
        (w ++ space :: (field ++ space :: (rest.takeWhile (· ≠ 0) ++ 0 :: junk)))
        (((rest.takeWhile (· ≠ 0)).count space : Int) + 3)
        ((w ++ [0]) :: (field ++ [0]) :: split (rest.takeWhile (· ≠ 0)) space heap) gid =
          .ok issued ∧ Reached opens SEND_CHAT field rest issued) ↔
      Command.send.Proper field rest heap opens := by
  have hle := (List.takeWhile_prefix (· ≠ (0 : Byte)) (l := rest)).length_le
  rw [sendCall_eq hw hwspace hfield hfieldspace (nul_not_mem_takeWhile rest) (by omega),
    checked_request_iff fun _ => rfl]
  change _ ↔ NamesGroup field ∧ WholeLine rest ∧ rest.length ≤ 2 ^ 32
  constructor
  · intro ⟨⟨hne, hfits⟩, hnames, htext⟩
    have whole := (chopped_text hone hne).mp htext
    rw [takeWhile_of_notMem whole.1] at hfits
    exact ⟨hnames, whole, hfits⟩
  · intro ⟨hnames, whole, hfits⟩
    have hall := takeWhile_of_notMem whole.1
    have hne : rest.takeWhile (· ≠ 0) ≠ [] := by
      rw [hall]
      exact List.ne_nil_of_mem whole.2
    refine ⟨⟨hne, ?_⟩, hnames, (chopped_text hone hne).mpr whole⟩
    rw [hall]
    exact hfits

theorem sendFileCall_iff (hfield : 0 ∉ field) (hone : newline ∉ rest.dropLast)
    (hshort : rest.length < 2 ^ 63) :
    (∃ issued, sendFileCall (((rest.takeWhile (· ≠ 0)).count space : Int) + 3)
        (w :: (field ++ [0]) :: split (rest.takeWhile (· ≠ 0)) space heap) gid = .ok issued ∧
        Reached opens SEND_FILE field rest issued) ↔
      Command.sendFile.Proper field rest heap opens := by
  have hle := (List.takeWhile_prefix (· ≠ (0 : Byte)) (l := rest)).length_le
  rw [sendFileCall_eq hfield (nul_not_mem_takeWhile rest) (by omega), Command.Proper]
  by_cases hfits : NameFits (rest.takeWhile (· ≠ 0)) heap
  · have hname := chopped_token hone hfits.2.1
    rw [if_pos hfits, and_iff_right hfits.1, and_iff_right hfits.2.1, and_iff_right hfits.2.2]
    generalize ((rest.takeWhile (· ≠ 0)).takeWhile (· ≠ space)).dropLast = filename at hname ⊢
    by_cases hopen : opens filename = true
    · have hrequests : ∀ scanned : Option Int,
          requests opens (.upload (UInt8.ofInt (scanned.getD gid)) filename) =
            [⟨SEND_FILE, UInt8.ofInt (scanned.getD gid), filename⟩] := fun _ => if_pos hopen
      rw [request_iff hrequests, hname, forall_prop_of_true hopen]
      refine ⟨fun h => ⟨?_, h⟩, fun h => h.2⟩
      obtain ⟨typed, -, hscan⟩ := scan_of_namesGroup h.1
      rw [hscan]
      exact fun h => (nomatch h)
    · constructor
      · intro ⟨issued, hok, _⟩
        refine ⟨fun h => ?_, fun h => absurd h hopen⟩
        rw [h] at hok
        cases hok
      · intro ⟨hscan, _⟩
        obtain ⟨scanned, hscanned⟩ := scanInt_ok hscan
        refine ⟨.upload (UInt8.ofInt (scanned.getD gid)) filename, by rw [hscanned]; rfl, ?_⟩
        exact Or.inl (if_neg hopen)
  · rw [if_neg hfits]
    constructor
    · intro ⟨issued, hok, _⟩
      cases hok
    · intro ⟨hend, hne, hlen, _⟩
      exact absurd ⟨hend, hne, hlen⟩ hfits

theorem downloadCall_iff (hfield : 0 ∉ field) (hone : newline ∉ rest.dropLast)
    (hshort : rest.length < 2 ^ 63) :
    (∃ issued, downloadCall myUid (((rest.takeWhile (· ≠ 0)).count space : Int) + 3)
        (w :: (field ++ [0]) :: split (rest.takeWhile (· ≠ 0)) space heap) gid = .ok issued ∧
        Reached opens DOWNLOAD_FILE field rest issued) ↔
      Command.download.Proper field rest heap opens := by
  have hle := (List.takeWhile_prefix (· ≠ (0 : Byte)) (l := rest)).length_le
  rw [downloadCall_eq hfield (nul_not_mem_takeWhile rest) (by omega), Command.Proper]
  constructor
  · intro hreached
    by_cases hfits : NameFits (rest.takeWhile (· ≠ 0)) heap
    · obtain ⟨hend, hne, hlen⟩ := hfits
      rw [if_pos ⟨hend, hne, hlen⟩, request_iff fun _ => rfl, chopped_token hone hne] at hreached
      obtain ⟨hnames, whole, hspace⟩ := hreached
      rw [takeWhile_of_notMem whole.1] at hend hlen
      rw [takeWhile_of_notMem hspace] at hlen
      exact ⟨hend.resolve_left hspace, hnames, whole, hspace, hlen⟩
    · rw [if_neg hfits] at hreached
      obtain ⟨issued, hok, -⟩ := hreached
      cases hok
  · intro ⟨hheap, hnames, whole, hspace, hlen⟩
    have hall : (rest.takeWhile (· ≠ 0)).takeWhile (· ≠ space) = rest := by
      rw [takeWhile_of_notMem whole.1, takeWhile_of_notMem hspace]
    have hne : (rest.takeWhile (· ≠ 0)).takeWhile (· ≠ space) ≠ [] := by
      rw [hall]
      exact List.ne_nil_of_mem whole.2
    have hfits : NameFits (rest.takeWhile (· ≠ 0)) heap := ⟨Or.inr hheap, hne, by rwa [hall]⟩
    rw [if_pos hfits, request_iff fun _ => rfl, chopped_token hone hne]
    exact ⟨hnames, whole, hspace⟩

end Reached

/-! ## Lines and their requests -/

section Lines

variable {t : TypedText} {command : Command} {field rest : List Byte} {myUid : UInt16}

theorem Fields.oneLine (fields : Fields t.text command.word field rest) :
    newline ∉ rest.dropLast := by
  intro hmem
  have hne : rest ≠ [] := by
    intro hnil
    rw [hnil] at hmem
    exact List.not_mem_nil hmem
  apply t.oneLine
  have htext : t.text = (command.word ++ space :: (field ++ [space])) ++ rest := by
    rw [fields.eq]
    simp only [List.append_assoc, List.cons_append, List.nil_append]
  rw [htext, List.dropLast_append_of_ne_nil hne]
  exact List.mem_append_right _ hmem

theorem Fields.short (fields : Fields t.text command.word field rest) : rest.length < 2 ^ 63 := by
  have hshort := t.short
  rw [fields.eq, List.length_append, List.length_cons, List.length_append, List.length_cons] at hshort
  omega

/-- The text is a token if it has no space, and then its length is an `int`. -/
theorem Fields.token_short (fields : Fields t.text command.word field rest) (h0 : 0 ∉ field)
    (hfit : CountersFit t.line.str space) (hspace : space ∉ rest.takeWhile (· ≠ 0)) :
    (rest.takeWhile (· ≠ 0)).length < 2 ^ 31 := by
  have htoken : rest.takeWhile (· ≠ 0) ∈ t.line.str.splitOn space := by
    rw [fields.str h0, List.splitOn_append_cons_self_of_not_mem fields.first,
      List.splitOn_append_cons_self_of_not_mem fields.second, List.splitOn_eq_singleton hspace]
    exact List.mem_cons_of_mem _ (List.mem_cons_of_mem _ List.mem_cons_self)
  have hlt := hfit.2 _ htoken
  omega

/-- With a `NUL` in its second field a line has two tokens, which is too few for any command. -/
theorem handleLine_of_nul (fields : Fields t.text command.word field rest) (h0 : 0 ∈ field)
    (hfit : CountersFit t.line.str space) :
    handleLine myUid (t.text ++ 0 :: t.behind) t.malloc t.gid = .ok .rejected := by
  have hspace : space ∉ field.takeWhile (· ≠ 0) :=
    fun h => fields.second (List.takeWhile_subset _ h)
  rw [handleLine_command fields.first (fields.str_of_nul h0) hfit,
    List.count_eq_zero_of_not_mem hspace]
  cases command <;> rfl

theorem handleLine_fields (fields : Fields t.text command.word field rest) (h0 : 0 ∉ field)
    (hfit : CountersFit t.line.str space) :
    handleLine myUid (t.text ++ 0 :: t.behind) t.malloc t.gid =
      command.call myUid t.line.buf (((rest.takeWhile (· ≠ 0)).count space : Int) + 3)
        ((command.word ++ [0]) :: (field ++ [0]) :: split (rest.takeWhile (· ≠ 0)) space t.heap)
        t.gid := by
  have hcount : ((field ++ space :: rest.takeWhile (· ≠ 0)).count space : Int) + 2 =
      (rest.takeWhile (· ≠ 0)).count space + 3 := by
    rw [List.count_append, List.count_eq_zero_of_not_mem fields.second, List.count_cons_self]
    push_cast
    ring
  rw [handleLine_command fields.first (fields.str h0) hfit, hcount, split_append_cons fields.second]

/-- What a line whose counters fit leads to is decided by its command. -/
theorem reached_iff_proper (fields : Fields t.text command.word field rest) (h0 : 0 ∉ field)
    (hfit : CountersFit t.line.str space) :
    (∃ issued, handleLine myUid (t.text ++ 0 :: t.behind) t.malloc t.gid = .ok issued ∧
        Reached t.opens command.cmd field rest issued) ↔
      command.Proper field rest t.heap t.opens := by
  have hone := fields.oneLine
  have hshort := fields.short
  rw [handleLine_fields fields h0 hfit]
  cases command with
  | invite => exact inviteCall_iff h0 hone (fields.token_short h0 hfit)
  | send =>
      have hbuf : t.line.buf = Command.send.word ++ space ::
          (field ++ space :: (rest.takeWhile (· ≠ 0) ++ 0 :: t.line.junk)) := by
        rw [Argument.buf, terminated, fields.str h0]
        simp only [List.append_assoc, List.cons_append]
      rw [hbuf]
      exact sendCall_iff Command.send.nul_not_mem_word fields.first h0 fields.second hone hshort
  | sendFile => exact sendFileCall_iff h0 hone hshort
  | download => exact downloadCall_iff h0 hone hshort

end Lines

/-- The requests of a line are the ones that were typed exactly when the line was typed properly. -/
theorem reachesGroup_iff (myUid : UInt16) (t : TypedText) :
    ReachesGroup myUid t ↔ TypedProperly t := by
  refine forall_congr' fun command => forall_congr' fun field => forall_congr' fun rest =>
    forall_congr' fun fields => ?_
  by_cases hfit : CountersFit t.line.str space
  · rw [and_iff_right hfit]
    by_cases h0 : 0 ∈ field
    · rw [handleLine_of_nul fields h0 hfit]
      exact iff_of_true ⟨.rejected, rfl, Or.inl rfl⟩ (Or.inl h0)
    · rw [or_iff_right h0, reached_iff_proper fields h0 hfit]
  · constructor
    · intro ⟨issued, hok, _⟩
      rw [← t.buf_line] at hok
      obtain ⟨⟨ret, arr⟩, hsplit, -⟩ := bind_eq_ok.mp hok
      exact absurd (countersFit_of_splitPasses hsplit) hfit
    · intro h
      exact absurd h.1 hfit

/-- `send 300 x`, with its newline. -/
def sendTo300 : TypedText where
  text := [115, 101, 110, 100, 32, 51, 48, 48, 32, 120, 10]
  oneLine := by decide
  short := by decide
  behind := []
  malloc := fun _ size => .zeros size
  gid := 0
  opens := fun _ => false

/-- The text goes to group 44. -/
theorem text_to_other_group :
    ¬ ∀ (myUid : UInt16) (t : TypedText), ReachesGroup myUid t := by
  intro h
  obtain ⟨issued, hok, hreached⟩ :=
    h 0 sendTo300 .send [51, 48, 48] [120, 10] ⟨rfl, by decide, by decide⟩
  have hrun : handleLine 0 (sendTo300.text ++ 0 :: sendTo300.behind) sendTo300.malloc
      sendTo300.gid = .ok (.queued ⟨SEND_CHAT, 44, 0, 1, [120]⟩) := by
    decide +kernel
  rw [hrun] at hok
  cases hok
  obtain ⟨typed, ⟨-, -, hvalue⟩, -⟩ := hreached.resolve_left (List.cons_ne_nil _ _)
  have hlt := UInt8.toNat_lt typed
  have hdigits : digitsValue [51, 48, 48] = 300 := rfl
  omega

end GroupChat
