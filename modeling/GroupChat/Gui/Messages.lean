import GroupChat.Gui
import GroupChat.Lts.Run

/-!
# The table of messages

`roll_messages` copies the whole payload to the beginning of the table, whatever its length. The
table stays intact as long as what a payload writes beyond its entry is what stands there
(`intact_iff`): always when the payload has at most 255 bytes (`intact_of_short`), and for a longer
one when it goes on with a `NUL` and the messages before it.
-/

namespace GroupChat

open Posix Lts

/-- What an entry is to begin with: the first 255 bytes of the payload and a `NUL`. -/
def shown (payload : List Byte) : List Byte := payload.take (MAX_MSG_SIZE - 1) ++ [0]

/-- The entries hold the most recent messages, the last one first. -/
def Shows (h : List (Taken Chatbox Packet Unit)) (chatbox : Chatbox) : Prop :=
  ∀ i < NUMBER_OF_MSGS, ∀ p, (events h).reverse[i]? = some p →
    shown p.payload <+: chatbox.entry i

/-- The other entries are the old ones, each one place further. -/
def Confined (old new : Chatbox) : Prop :=
  new.msgs.bytes.drop MAX_MSG_SIZE = old.msgs.bytes.take (MAX_MSG_SIZE * (NUMBER_OF_MSGS - 1))

/-- The message is stored, in its entry only, and the last ten messages are shown. -/
def StoresIntact (h : List (Taken Chatbox Packet Unit)) (chatbox : Chatbox) (msg : Packet) : Prop :=
  ∃ new, showMessage chatbox msg = .ok ((), new) ∧ Confined chatbox new ∧
    Shows (h ++ [⟨chatbox, msg, (), new⟩]) new

/-- From its byte 255 on a payload repeats what it overwrites: a `NUL` and the entries that were
shown before. -/
def Repeats (_ : List (Taken Chatbox Packet Unit)) (chatbox : Chatbox) (msg : Packet) : Prop :=
  msg.payload.drop (MAX_MSG_SIZE - 1) <+:
    0 :: chatbox.msgs.bytes.take (MAX_MSG_SIZE * (NUMBER_OF_MSGS - 1))

/-! ## One message -/

/-- The table after the shift, its first entry cleared. -/
def Chatbox.rolled (chatbox : Chatbox) : List Byte :=
  List.replicate MAX_MSG_SIZE 0 ++
    chatbox.msgs.bytes.take (MAX_MSG_SIZE * (NUMBER_OF_MSGS - 1))

/-- The shift leaves `msgs[0]` and everything from `msgs[i + 1]` on, and puts the first `i` entries
in between. -/
theorem rollLoop_bytes {i : Nat} : ∀ {msgs : Block (NUMBER_OF_MSGS * MAX_MSG_SIZE)},
    i < NUMBER_OF_MSGS → ∃ new, rollLoop i msgs = .ok new ∧
      new.bytes = msgs.bytes.take MAX_MSG_SIZE ++ msgs.bytes.take (MAX_MSG_SIZE * i) ++
        msgs.bytes.drop (MAX_MSG_SIZE * (i + 1)) := by
  induction i with
  | zero =>
      intro msgs _
      refine ⟨msgs, rfl, ?_⟩
      simp
  | succ i ih =>
      intro msgs hi
      have hfull := msgs.full
      have hstep : MAX_MSG_SIZE * (i + 1) = MAX_MSG_SIZE * i + MAX_MSG_SIZE := Nat.mul_succ _ _
      have hsize : MAX_MSG_SIZE * (i + 1) + MAX_MSG_SIZE ≤ NUMBER_OF_MSGS * MAX_MSG_SIZE := by
        rw [NUMBER_OF_MSGS] at hi ⊢
        rw [MAX_MSG_SIZE]
        omega
      have hslice : (msgs.slice (MAX_MSG_SIZE * i) MAX_MSG_SIZE).length = MAX_MSG_SIZE :=
        Block.length_slice (by omega)
      have hroom : MAX_MSG_SIZE * (i + 1) +
          (msgs.slice (MAX_MSG_SIZE * i) MAX_MSG_SIZE).length ≤ NUMBER_OF_MSGS * MAX_MSG_SIZE := by
        omega
      obtain ⟨moved, hmove, hbytes⟩ := Block.memcpy_ok (b := msgs) hroom
      obtain ⟨new, hnew, hrest⟩ := @ih moved (by omega)
      refine ⟨new, ?_, ?_⟩
      · rw [rollLoop, hmove, ok_bind, hnew]
      · rw [hrest, hbytes, take_overwrite (by omega) (by omega),
          take_overwrite (by omega) (by omega), drop_overwrite (by omega), hslice,
          Nat.mul_succ MAX_MSG_SIZE i, List.take_add, ← Block.slice]
        simp only [List.append_assoc, Nat.mul_succ]

/-- The shift and the clearing of the first entry. -/
theorem rolled_cleared (chatbox : Chatbox) :
    ∃ shifted cleared, rollLoop (NUMBER_OF_MSGS - 1) chatbox.msgs = .ok shifted ∧
      shifted.memset 0 0 MAX_MSG_SIZE = .ok cleared ∧ cleared.bytes = chatbox.rolled := by
  have hnine : NUMBER_OF_MSGS - 1 < NUMBER_OF_MSGS := by decide
  have hfull := chatbox.msgs.full
  obtain ⟨shifted, hroll, hbytes⟩ := @rollLoop_bytes _ chatbox.msgs hnine
  have hroom : 0 + (List.replicate MAX_MSG_SIZE (0 : Byte)).length ≤
      NUMBER_OF_MSGS * MAX_MSG_SIZE := by
    rw [List.length_replicate]
    decide
  obtain ⟨cleared, hclear, hcleared⟩ := Block.memcpy_ok (b := shifted) hroom
  refine ⟨shifted, cleared, hroll, hclear, ?_⟩
  have hfirst : (chatbox.msgs.bytes.take MAX_MSG_SIZE).length = MAX_MSG_SIZE := by
    rw [List.length_take, hfull]
    decide
  have hend : chatbox.msgs.bytes.drop (MAX_MSG_SIZE * (NUMBER_OF_MSGS - 1 + 1)) = [] :=
    List.drop_eq_nil_of_le (le_of_eq hfull)
  rw [hcleared, overwrite_zero, List.length_replicate, hbytes, hend, List.append_nil,
    List.drop_left' hfirst, Chatbox.rolled]

/-- A payload that fits the table is laid over what the shift has left; a longer one runs past the
end of the structure. -/
theorem showMessage_spec (chatbox : Chatbox) (msg : Packet) :
    (NUMBER_OF_MSGS * MAX_MSG_SIZE < msg.payload.length ∧
        showMessage chatbox msg = .error .outOfBounds) ∨
      (msg.payload.length ≤ NUMBER_OF_MSGS * MAX_MSG_SIZE ∧ ∃ new,
        showMessage chatbox msg = .ok ((), new) ∧
          new.msgs.bytes = overwrite chatbox.rolled 0 msg.payload) := by
  have hsize : NUMBER_OF_MSGS * MAX_MSG_SIZE = 2560 := rfl
  have hfull := msg.full
  have hlow := msg.len.toNat_lt
  obtain ⟨shifted, cleared, hroll, hclear, hrolled⟩ := rolled_cleared chatbox
  rw [showMessage, rollMessages, hroll, ok_bind, hclear, ok_bind]
  rcases Nat.lt_or_ge msg.len.toNat (2 ^ 31) with hfits | hbig
  · have hcount : toSizeT (toInt32 msg.len.toNat) = msg.payload.length := by
      rw [toInt32_of_lt hfits, toSizeT_of_lt (by omega), hfull]
    have htake : (msg.payload ++ [0]).take msg.payload.length = msg.payload := List.take_left' rfl
    rw [hcount, htake, if_neg (by simp)]
    rcases Nat.lt_or_ge (NUMBER_OF_MSGS * MAX_MSG_SIZE) msg.payload.length with hlong | hroom
    · left
      refine ⟨hlong, ?_⟩
      rw [Block.memcpy, dif_neg (by omega)]
      rfl
    · right
      have hwithin : 0 + msg.payload.length ≤ NUMBER_OF_MSGS * MAX_MSG_SIZE := by omega
      obtain ⟨stored, hstore, hbytes⟩ := Block.memcpy_ok (b := cleared) hwithin
      refine ⟨hroom, { chatbox with msgs := stored }, ?_, ?_⟩
      · rw [hstore]
        rfl
      · rw [hbytes, hrolled]
  · left
    have hhuge := le_toSizeT_of_neg (n := toInt32 msg.len.toNat)
      (by rw [toInt32_of_ge hbig hlow]; omega) (toInt32_mem _).1
    refine ⟨by omega, ?_⟩
    rw [if_pos (by rw [List.length_append, List.length_singleton]; omega)]
    rfl

/-- Everything behind byte 254 of the table, before the message is stored. -/
theorem drop_rolled (chatbox : Chatbox) :
    chatbox.rolled.drop (MAX_MSG_SIZE - 1) =
      0 :: chatbox.msgs.bytes.take (MAX_MSG_SIZE * (NUMBER_OF_MSGS - 1)) := by
  have hlen : (List.replicate (MAX_MSG_SIZE - 1) (0 : Byte)).length = MAX_MSG_SIZE - 1 :=
    List.length_replicate
  have hzeros : List.replicate MAX_MSG_SIZE (0 : Byte) =
      List.replicate (MAX_MSG_SIZE - 1) 0 ++ [0] := List.replicate_succ'
  rw [Chatbox.rolled, hzeros, List.append_assoc, List.drop_left' hlen]
  rfl

/-- What a payload repeats it does not change. -/
theorem repeats_iff {chatbox new : Chatbox} {msg : Packet} (h : List (Taken Chatbox Packet Unit))
    (hbytes : new.msgs.bytes = overwrite chatbox.rolled 0 msg.payload) :
    Repeats h chatbox msg ↔ new.msgs.bytes.drop (MAX_MSG_SIZE - 1) =
      0 :: chatbox.msgs.bytes.take (MAX_MSG_SIZE * (NUMBER_OF_MSGS - 1)) := by
  rw [Repeats, hbytes, ← drop_rolled, drop_overwrite_zero_iff]

/-- A list around one of its elements. -/
theorem take_drop_succ {bs rest : List Byte} {k : Nat} {b : Byte} (h : bs.drop k = b :: rest) :
    bs.take (k + 1) = bs.take k ++ [b] ∧ bs.drop (k + 1) = rest := by
  constructor
  · rw [List.take_add, h]
    rfl
  · rw [← List.drop_drop, h]
    rfl

theorem entry_zero (chatbox : Chatbox) :
    chatbox.entry 0 = chatbox.msgs.bytes.take MAX_MSG_SIZE := rfl

/-- An entry behind the first is an entry of what follows the first. -/
theorem entry_succ (chatbox : Chatbox) (i : Nat) : chatbox.entry (i + 1) =
    ((chatbox.msgs.bytes.drop MAX_MSG_SIZE).drop (MAX_MSG_SIZE * i)).take MAX_MSG_SIZE := by
  rw [Chatbox.entry, Block.slice, List.drop_drop, Nat.mul_succ, Nat.add_comm]

/-- The other entries are the old ones. -/
theorem entry_of_confined {old new : Chatbox} (h : Confined old new) {i : Nat}
    (hi : i < NUMBER_OF_MSGS - 1) : new.entry (i + 1) = old.entry i := by
  have hroom : MAX_MSG_SIZE * i + MAX_MSG_SIZE ≤ MAX_MSG_SIZE * (NUMBER_OF_MSGS - 1) := by
    rw [← Nat.mul_succ]
    exact Nat.mul_le_mul_left _ hi
  rw [entry_succ, h, Chatbox.entry, Block.slice, List.drop_take, List.take_take,
    Nat.min_eq_left (by omega)]

/-- A short payload is laid over zeros, so a `NUL` follows it. -/
theorem shown_short {chatbox new : Chatbox} {payload : List Byte}
    (hshort : payload.length < MAX_MSG_SIZE)
    (hbytes : new.msgs.bytes = overwrite chatbox.rolled 0 payload) :
    shown payload <+: new.entry 0 := by
  obtain ⟨k, hk⟩ : ∃ k, MAX_MSG_SIZE - payload.length = k + 1 :=
    Nat.exists_eq_add_one.mpr (by omega)
  have hzeros : (List.replicate MAX_MSG_SIZE (0 : Byte)).drop payload.length =
      0 :: List.replicate k 0 := by
    rw [List.drop_replicate, hk, List.replicate_succ]
  have hdrop : chatbox.rolled.drop payload.length = 0 :: (List.replicate k 0 ++
      chatbox.msgs.bytes.take (MAX_MSG_SIZE * (NUMBER_OF_MSGS - 1))) := by
    rw [Chatbox.rolled, List.drop_append_of_le_length (by rw [List.length_replicate]; omega),
      hzeros, List.cons_append]
  have hall : payload.take (MAX_MSG_SIZE - 1) = payload := List.take_of_length_le (by omega)
  rw [shown, hall, entry_zero, hbytes, overwrite_zero, hdrop, List.take_append,
    List.take_of_length_le (by omega), hk, List.take_succ_cons, List.prefix_append_right_inj]
  exact List.prefix_append [0] _

/-- A long payload fills the first entry, up to the byte after it. -/
theorem shown_long {chatbox new : Chatbox} {payload rest : List Byte}
    (hlong : MAX_MSG_SIZE ≤ payload.length)
    (hbytes : new.msgs.bytes = overwrite chatbox.rolled 0 payload)
    (hdrop : new.msgs.bytes.drop (MAX_MSG_SIZE - 1) = 0 :: rest) :
    shown payload <+: new.entry 0 := by
  have htake : new.msgs.bytes.take (MAX_MSG_SIZE - 1) = payload.take (MAX_MSG_SIZE - 1) := by
    rw [hbytes, overwrite_zero, List.take_append_of_le_length (by omega)]
  have hentry : new.entry 0 = shown payload := by
    rw [shown, ← htake]
    exact (take_drop_succ hdrop).1
  exact hentry ▸ List.prefix_refl _

section Step

variable {h : List (Taken Chatbox Packet Unit)} {chatbox : Chatbox} {msg : Packet}

/-- A message that repeats what it overwrites leaves the table as it is to be. -/
theorem storesIntact_of_repeats (hshows : Shows h chatbox)
    (hrepeats : Repeats h chatbox msg) : StoresIntact h chatbox msg := by
  have hsize : NUMBER_OF_MSGS * MAX_MSG_SIZE = 2560 := rfl
  have hrest : MAX_MSG_SIZE * (NUMBER_OF_MSGS - 1) = 2304 := rfl
  have hentry : MAX_MSG_SIZE - 1 = 255 := rfl
  have hroom := hrepeats.length_le
  rw [List.length_drop, List.length_cons, List.length_take] at hroom
  rcases showMessage_spec chatbox msg with ⟨hlong, -⟩ | ⟨-, new, hstep, hbytes⟩
  · omega
  · have hdrop := (repeats_iff h hbytes).mp hrepeats
    have hconfined : Confined chatbox new := (take_drop_succ hdrop).2
    refine ⟨new, hstep, hconfined, ?_⟩
    intro i hi p hp
    rw [events_append, List.reverse_append] at hp
    cases i with
    | zero =>
        obtain rfl : msg = p := Option.some.inj hp
        rcases Nat.lt_or_ge msg.payload.length MAX_MSG_SIZE with hshort | hlong
        · exact shown_short hshort hbytes
        · exact shown_long hlong hbytes hdrop
    | succ i =>
        rw [entry_of_confined hconfined (by omega)]
        exact hshows i (by omega) p hp

theorem repeats_of_storesIntact (hstores : StoresIntact h chatbox msg) :
    Repeats h chatbox msg := by
  obtain ⟨new, hstep, hconfined, hshows⟩ := hstores
  rcases Nat.lt_or_ge msg.payload.length MAX_MSG_SIZE with hshort | hlong
  · rw [Repeats, List.drop_eq_nil_of_le (by omega)]
    exact List.nil_prefix
  · rcases showMessage_spec chatbox msg with ⟨-, hfault⟩ | ⟨-, new', hstep', hbytes⟩
    · rw [hstep] at hfault
      cases hfault
    · rw [hstep] at hstep'
      cases hstep'
      have hfirst := hshows 0 (by decide) msg (by simp)
      have hlen : (new.entry 0).length ≤ (shown msg.payload).length := by
        have hone : MAX_MSG_SIZE = MAX_MSG_SIZE - 1 + 1 := rfl
        rw [shown, List.length_append, List.length_take, List.length_singleton, entry_zero,
          List.length_take]
        omega
      have hentry := hfirst.eq_of_length_le hlen
      have hbefore : (msg.payload.take (MAX_MSG_SIZE - 1)).length = MAX_MSG_SIZE - 1 := by
        rw [List.length_take]
        omega
      rw [repeats_iff h hbytes, ← List.take_append_drop MAX_MSG_SIZE new.msgs.bytes, hconfined,
        ← entry_zero, ← hentry, shown, List.append_assoc, List.drop_left' hbefore]
      rfl

end Step

theorem shows_start : Shows [] chatboxInit := by
  intro i _ p hp
  cases hp

theorem shows_step {h : List (Taken Chatbox Packet Unit)} {chatbox new : Chatbox} {msg : Packet}
    (hshows : Shows h chatbox) (hrepeats : Repeats h chatbox msg)
    (hstep : showMessage chatbox msg = .ok ((), new)) :
    Shows (h ++ [⟨chatbox, msg, (), new⟩]) new := by
  obtain ⟨new', hnew, -, hlast⟩ := storesIntact_of_repeats hshows hrepeats
  rw [hstep] at hnew
  cases hnew
  exact hlast

/-- The window shows the last messages, and storing one changes nothing but its entry, throughout
the delivery of these packets exactly when each of them repeats what it writes beyond its entry. -/
theorem intact_iff (delivered : List Packet) :
    Along showMessage chatboxInit delivered StoresIntact ↔
      Along showMessage chatboxInit delivered Repeats := by
  apply along_iff shows_start
  · intro h s e _ hshows
    exact ⟨repeats_of_storesIntact, storesIntact_of_repeats hshows⟩
  · intro h s e o s' _ hshows hrepeats hstep
    exact shows_step hshows hrepeats hstep

/-- Messages that fit their entries are shown intact, however many there are. -/
theorem intact_of_short {delivered : List Packet}
    (hshort : ∀ p ∈ delivered, p.payload.length < MAX_MSG_SIZE) :
    Along showMessage chatboxInit delivered StoresIntact := by
  have hrepeats : Along showMessage chatboxInit delivered Repeats := by
    intro h chatbox msg _ hes
    have hmem : msg ∈ delivered := hes.subset (by simp)
    have hlt := hshort msg hmem
    rw [Repeats, List.drop_eq_nil_of_le (by omega)]
    exact List.nil_prefix
  have hshows : Throughout showMessage chatboxInit delivered Shows :=
    throughout_of_along shows_start
      (fun h s e o s' _ hshows hrepeats hstep => shows_step hshows hrepeats hstep) hrepeats
  intro h chatbox msg run hes
  exact storesIntact_of_repeats (hshows h chatbox run ((List.prefix_append _ _).trans hes))
    (hrepeats h chatbox msg run hes)

/-- A payload of 256 letters has no room for the `NUL`. -/
theorem long_message_unterminated :
    ¬ ∀ delivered : List Packet, Along showMessage chatboxInit delivered StoresIntact := by
  intro h
  let msg : Packet := ⟨⟨SEND_CHAT, 0, 2, 256, List.replicate 256 120⟩, List.length_replicate⟩
  have hstores := h [msg] [] chatboxInit msg .start (List.prefix_refl _)
  have hrepeats := repeats_of_storesIntact hstores
  rw [Repeats, List.drop_replicate] at hrepeats
  have hzero : (120 : Byte) = 0 := (List.cons_prefix_cons.mp hrepeats).1
  exact absurd hzero (by decide)

end GroupChat
