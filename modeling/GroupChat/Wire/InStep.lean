import GroupChat.Client
import GroupChat.Server.Delivery
import GroupChat.Server.DownloadNames
import GroupChat.Wire.ReceiveFile

/-!
# The stream after a file that was not stored

`read_main_header` leaves the content of a `SEND_FILE` packet on the socket, and the `SEND_FILE`
cases of the server and of the client have `receive_to_file` take it off. That function takes
nothing when the destination does not open or when the length is a negative `int`, and neither
case looks at its result. The server then writes a notice to every member online, the sender
included, and where such a write falls short `send_wrapper` reads what is missing from the same
socket. `keepsInStep_iff` says for exactly which packets the next header is read where it begins;
a file that is left is read for a request (`readMainHeader_content`).
-/

namespace GroupChat

open Posix Socket

/-! ## The `SEND_FILE` cases -/

/-- `receive_to_file`: without a destination it fails before it reads. -/
def receiveToFileAt (opens : Bool) (fuel : Nat) (s : Socket) (len : Int) :
    Option (Except Fault (Int × Option (List Byte) × Socket)) :=
  if opens then
    (receiveToFile fuel s len).map fun r => r.map fun (ret, content, s') => (ret, some content, s')
  else some (.ok (-1, none, s))

/-- Who receives: the thread of a connection of the server, or the reader of a client. -/
inductive Receiver
  | server (s : Server) (c : ConnId)
  | client (myUid : UInt16)

/-- Where the content of a file goes. -/
def Receiver.filename (hdr : Mainhdr) : Receiver → List Byte
  | .server s _ => fileFormat hdr.gid s.fileCnt
  | .client myUid => cfileFormat myUid hdr.gid hdr.uid

/-- The server with the file that has been received, if its destination has opened. -/
def Server.withFile (s : Server) (filename : List Byte) : Option (List Byte) → Server
  | none => { s with fileCnt := s.fileCnt + 1 }
  | some content =>
    { s with fileCnt := s.fileCnt + 1, files := s.files.insert filename content }

/-- The `SEND_FILE` case of the server after `receive_to_file`. -/
def notifyGroup (s : Server) (recv : Mainhdr) (filename : List Byte) :
    Except Fault (List Sent) := do
  let (len, username, credential) ←
    findUsername recv.uid (List.replicate MAX_CHAR_USERID 0) s.credential
  let s := { s with credential := credential }
  let sendPacket := filePacket recv len (← cstr username) filename
  forwardToGroup s sendPacket.gid sendPacket

/-- The `SEND_FILE` case of a receiver, with its socket. `opens` says which files `fopen` opens for
writing. -/
def onSendFileHeader (receiver : Receiver) (opens : List Byte → Bool) (fuel : Nat) (hdr : Mainhdr)
    (socket : Socket) : Option (Except Fault Socket) :=
  let filename := receiver.filename hdr
  let received := receiveToFileAt (opens filename) fuel socket (toInt32 hdr.len.toNat)
  match receiver with
  | .client _ => received.map fun r => r.map fun (_, _, socket) => socket
  | .server s c =>
    if 2 ^ 31 ≤ s.fileCnt + 1 then some (.error .overflow)
    else
      received.map fun r => do
        let (_, content, socket) ← r
        let sent ← notifyGroup (s.withFile filename content) hdr filename
        return sent.foldl (putOn c) socket

/-! ## Staying in step -/

/-- A stream with a `SEND_FILE` header, as many bytes as it announces and what follows. -/
structure FileOnStream where
  socket : Socket
  hdr : Mainhdr
  content : List Byte
  rest : List Byte
  cmd_eq : hdr.cmd = SEND_FILE
  full : content.length = hdr.len.toNat
  incoming_eq : socket.incoming = hdr.wireHeader ++ (content ++ rest)
  flowing : socket.Flowing

/-- The header is read, the case comes to its end and the socket stands where the announced bytes
end. -/
def KeepsInStep (receiver : Receiver) (opens : List Byte → Bool)
    (basic : Vector Byte sizeofMainhdr) (f : FileOnStream) : Prop :=
  ∃ hdr t u bound, readMainHeader basic f.socket = (some hdr, t) ∧
    (∀ fuel ≥ bound, onSendFileHeader receiver opens fuel hdr t = some (.ok u)) ∧
      u.incoming = f.rest ∧ u.Flowing

/-- The bytes of the content that `receive_to_file` takes off the stream. -/
def Receiver.taken (receiver : Receiver) (opens : List Byte → Bool) (hdr : Mainhdr) : Nat :=
  if opens (receiver.filename hdr) = true ∧ hdr.len.toNat < 2 ^ 31 then hdr.len.toNat else 0

/-- The case of the server comes to its end, with this notice for these members. -/
structure Notifies (s : Server) (hdr : Mainhdr) (members : List UInt16) (notice : Mainhdr) :
    Prop where
  counted : s.fileCnt + 1 < 2 ^ 31
  group : s.groups[hdr.gid.toNat]? = some members
  named : ∃ len buf credential name,
    findUsername hdr.uid (List.replicate MAX_CHAR_USERID 0) s.credential =
      .ok (len, buf, credential) ∧ cstr buf = .ok name ∧
    notice = filePacket hdr len name (fileFormat hdr.gid s.fileCnt)
  /-- the members that are online have their connections open -/
  connected : ∀ uid ∈ members, ∀ d, s.activeSockets.lookup uid.toNat = some d → (s.thread d).isSome

/-- The case comes to its end, and the bytes that its writes to the socket fall short by are so
many: the server writes the notice for each member that is mapped to the connection. -/
inductive Receiver.Lacks (hdr : Mainhdr) (answers : List Answer) : Receiver → Nat → Prop
  | client (myUid : UInt16) : Lacks hdr answers (.client myUid) 0
  | server {s : Server} {c : ConnId} {members : List UInt16} {notice : Mainhdr}
      (notifies : Notifies s hdr members notice) :
      Lacks hdr answers (.server s c) (shortfall (sizeofMainhdr + notice.len.toNat) answers
        (members.countP fun uid => s.activeSockets.lookup uid.toNat = some c))

/-! ## Reading leaves the answers to writes alone -/

section Frames

variable {s t : Socket}

theorem recvLoop_frame {n : Nat} : ∀ {s : Socket} {num : Int} {got : List Byte},
    (num - got.length).toNat ≤ n → (recvLoop s num got).2.2.writeAnswers = s.writeAnswers := by
  induction n with
  | zero =>
      intro s num got hn
      rw [recvLoop, if_neg (by omega)]
  | succ n ih =>
      intro s num got hn
      rw [recvLoop]
      split
      · simp only
        split
        · exact (s.read_frame _).2
        · rename_i hc
          have hpos := read_count_pos hc
          have hcount := read_count_eq (s := s) (n := toSizeT (num - got.length)) (by omega)
          rw [ih (by rw [List.length_append]; omega)]
          exact (s.read_frame _).2
      · rfl

theorem recvWrapper_frame (s : Socket) (num : Int) :
    (recvWrapper s num).2.2.writeAnswers = s.writeAnswers := by
  rw [recvWrapper]
  split
  · exact (s.read_frame _).2
  · rw [recvLoop_frame (le_refl _)]
    exact (s.read_frame _).2

theorem readMainHeader_frame (basic : Vector Byte sizeofMainhdr) (s : Socket) :
    (readMainHeader basic s).2.writeAnswers = s.writeAnswers := by
  have hheader := recvWrapper_frame s sizeofMainhdr
  rw [readMainHeader]
  split
  rename_i ret got s' hres
  rw [hres] at hheader
  split
  · rw [recvPayload]
    split
    · have hpayload := recvWrapper_frame s'
        (toInt32 (hostHeader (got ++ basic.toList.drop got.length)).len.toNat)
      split
      rename_i ret' payload s'' hres'
      rw [hres'] at hpayload
      split
      · exact hpayload.trans hheader
      · exact hpayload.trans hheader
    · exact hheader
  · exact hheader

theorem receiveLoop_frame {fuel : Nat} : ∀ {s : Socket} {len : Int} {written content : List Byte},
    receiveLoop fuel s len written = some (.ok (content, t)) → t.writeAnswers = s.writeAnswers := by
  induction fuel with
  | zero =>
      intro s len written content h
      cases h
  | succ fuel ih =>
      intro s len written content h
      rw [receiveLoop] at h
      split at h
      · simp only at h
        generalize (if len < 1024 then len.toNat else 1024) = size at h
        split at h
        · cases h
        · exact (ih h).trans (s.read_frame _).2
      · cases h
        rfl

end Frames

/-! ## Short writes -/

section Writes

variable {s : Socket}

/-- The loop of `send_wrapper` takes what is missing off the stream, as far as it goes. -/
theorem sendLoop_flowing {n : Nat} (hn : n < 2 ^ 64) : ∀ {s : Socket} {num sent : Int}, s.Flowing →
    (num - sent).toNat = n → ∃ u, (sendLoop s num sent).2 = u ∧ u.Flowing ∧
      u.writeAnswers = s.writeAnswers ∧ u.incoming = s.incoming.drop n := by
  induction n using Nat.strong_induction_on with
  | _ n ih =>
    intro s num sent hs hleft
    rw [sendLoop]
    by_cases hlt : sent < num
    · have hsize : toSizeT (num - sent) = n := by
        rw [← Int.toNat_of_nonneg (by omega : 0 ≤ num - sent), hleft]
        exact toSizeT_of_lt hn
      have hframe := (s.read_frame n).2
      rw [if_pos hlt, hsize]
      by_cases hin : s.incoming = []
      · obtain ⟨t, hread, hrest, -, ht⟩ := hs.read_nil hin n
        rw [hread] at hframe
        simp only [hread, true_or, if_true]
        exact ⟨t, rfl, ht, hframe, by rw [hrest, hin, List.drop_nil]⟩
      · obtain ⟨bs, t, hread, hne, hle, hsplit, -, ht⟩ := hs.read (n := n) (by omega) hin
        have hbs : 0 < bs.length := List.length_pos_iff.mpr hne
        have hgo : ¬ ((bs.length : Int) = 0 ∨ (bs.length : Int) = -1) := by omega
        rw [hread] at hframe
        simp only [hread, if_neg hgo]
        obtain ⟨u, hloop, hu, hanswers, hrest⟩ :=
          @ih (n - bs.length) (by omega) (by omega) t num (sent + bs.length) ht (by omega)
        refine ⟨u, hloop, hu, hanswers.trans hframe, ?_⟩
        rw [hrest, hsplit, List.drop_append, List.drop_of_length_le hle, List.nil_append]
    · rw [if_neg hlt]
      obtain rfl : n = 0 := by omega
      exact ⟨s, rfl, hs, rfl, rfl⟩

/-- Sending a packet takes as many bytes off the stream as the write falls short by. -/
theorem sendMainHeader_flowing (hs : s.Flowing) {p : Packet} (hfits : p.len.toNat < 200) :
    ∃ u, (sendMainHeader p.toMainhdr s).2 = u ∧ u.Flowing ∧
      u.writeAnswers = s.writeAnswers.tail ∧
      u.incoming = s.incoming.drop (shortfall (sizeofMainhdr + p.len.toNat) s.writeAnswers 1) := by
  have hlen := p.length_wire
  have hsize : sizeofMainhdr = 8 := rfl
  have hne : p.wire ≠ [] := by
    apply List.ne_nil_of_length_pos
    omega
  have hnum : numBytes p = p.wire.length := by
    rw [numBytes, ← p.length_wire]
    exact toInt32_of_lt (by omega)
  obtain ⟨count, t, hwrite, hin, hreads, hanswers, hcount⟩ := s.write_shortfall hne
  have ht : t.Flowing := by
    intro a ha
    rw [hreads] at ha
    exact hs a ha
  have hoffered : toSizeT (p.wire.length : Int) = p.wire.length := toSizeT_of_lt (by omega)
  have hwrapper : (sendMainHeader p.toMainhdr s).2 =
      (if toInt32 count = 0 then ((0 : Int), t) else if toInt32 count = -1 then (-1, t)
        else sendLoop t p.wire.length (toInt32 count)).2 := by
    rw [sendMainHeader_eq, hnum, sendWrapper_first, hoffered, hwrite]
  rw [← hlen, hwrapper]
  rcases hcount with ⟨hstop, hnone⟩ | ⟨m, rfl, hpos, hle, hshort⟩
  · refine ⟨t, ?_, ht, hanswers, by rw [hnone, hin, List.drop_zero]⟩
    rcases hstop with rfl | rfl
    · rw [if_pos (by decide)]
    · rw [if_neg (by decide), if_pos (by decide)]
  · have hint : toInt32 (m : Int) = m := toInt32_of_lt (by omega)
    obtain ⟨u, hloop, hu, hanswers', hrest⟩ := @sendLoop_flowing (p.wire.length - m) (by omega) t
      p.wire.length m ht (by omega)
    refine ⟨u, ?_, hu, hanswers'.trans hanswers, by rw [hrest, hin, hshort]⟩
    rw [hint, if_neg (by omega), if_neg (by omega)]
    exact hloop

/-- The copies of a packet for the members on the connection. -/
theorem foldl_putOn_flowing (server : Server) (c : ConnId) {p : Packet} (hfits : p.len.toNat < 200)
    (members : List UInt16) : ∀ {s : Socket}, s.Flowing → ∃ u,
      (members.filterMap fun uid => (server.activeSockets.lookup uid.toNat).map fun d =>
        Sent.packet d p.toMainhdr).foldl (putOn c) s = u ∧ u.Flowing ∧
      u.incoming = s.incoming.drop (shortfall (sizeofMainhdr + p.len.toNat) s.writeAnswers
        (members.countP fun uid => server.activeSockets.lookup uid.toNat = some c)) := by
  induction members with
  | nil => exact fun {s} hs => ⟨s, rfl, hs, by rw [List.countP_nil, shortfall_zero]; rfl⟩
  | cons uid next ih =>
      intro s hs
      rw [List.filterMap_cons]
      by_cases hc : server.activeSockets.lookup uid.toNat = some c
      · obtain ⟨t, hsend, ht, hanswers, hrest⟩ := sendMainHeader_flowing hs hfits
        obtain ⟨u, hall, hu, hrest'⟩ := ih ht
        refine ⟨u, ?_, hu, ?_⟩
        · simp only [hc, Option.map_some]
          rw [List.foldl_cons, putOn, if_pos rfl, hsend, hall]
        · rw [hrest', hrest, hanswers, List.drop_drop, List.countP_cons_of_pos (by simpa using hc),
            ← shortfall_succ]
      · rw [List.countP_cons_of_neg (by simpa using hc)]
        cases hlookup : server.activeSockets.lookup uid.toNat with
        | none => exact ih hs
        | some d =>
            have hne : d ≠ c := fun h => hc (h ▸ hlookup)
            simp only [Option.map_some]
            rw [List.foldl_cons, putOn, if_neg hne]
            exact ih hs

end Writes

/-! ## The cases on a stream -/

section Cases

variable {receiver : Receiver} {opens : List Byte → Bool} {hdr : Mainhdr} {t : Socket}
  {content rest : List Byte}

/-- What `receive_to_file` does to a stream that brings the content. -/
theorem receiveToFileAt_flowing (hfull : content.length = hdr.len.toNat)
    (hin : t.incoming = content ++ rest) (ht : t.Flowing) :
    ∃ ret stored u, (∀ fuel > content.length,
        receiveToFileAt (opens (receiver.filename hdr)) fuel t (toInt32 hdr.len.toNat) =
          some (.ok (ret, stored, u))) ∧
      u.Flowing ∧ u.writeAnswers = t.writeAnswers ∧
      u.incoming = (content ++ rest).drop (receiver.taken opens hdr) := by
  by_cases hopen : opens (receiver.filename hdr) = true
  · by_cases hfits : hdr.len.toNat < 2 ^ 31
    · obtain ⟨u, hloop, hrest, hu⟩ := receiveLoop_flowing [] ht hin (Nat.lt_succ_self _)
      have hfile : receiveToFile (content.length + 1) t content.length =
          some (.ok (0, content, u)) := by
        rw [receiveToFile, hloop]
        rfl
      refine ⟨0, some content, u, fun fuel hfuel => ?_, hu, receiveLoop_frame hloop, ?_⟩
      · rw [receiveToFileAt, if_pos hopen, toInt32_of_lt hfits, ← hfull,
          receiveToFile_mono hfuel hfile]
        rfl
      · rw [hrest, Receiver.taken, if_pos ⟨hopen, hfits⟩, ← hfull, List.drop_left]
    · -- the length is negative as an `int`
      have hneg : toInt32 hdr.len.toNat ≤ 0 := by
        rw [toInt32_of_ge (by omega) hdr.len.toNat_lt]
        have := hdr.len.toNat_lt
        omega
      refine ⟨0, some [], t, fun fuel hfuel => ?_, ht, rfl, ?_⟩
      · obtain ⟨k, rfl⟩ := Nat.exists_eq_add_one.mpr (Nat.zero_lt_of_lt hfuel)
        rw [receiveToFileAt, if_pos hopen, receiveToFile, receiveLoop_done hneg]
        rfl
      · rw [hin, Receiver.taken, if_neg fun h => hfits h.2, List.drop_zero]
  · refine ⟨-1, none, t, fun fuel _ => ?_, ht, rfl, ?_⟩
    · rw [receiveToFileAt, if_neg hopen]
    · rw [hin, Receiver.taken, if_neg fun h => hopen h.1, List.drop_zero]

/-- What the server sends after an upload, whether or not the file is there. -/
theorem notifyGroup_eq_ok {s : Server} {filename : List Byte} {stored : Option (List Byte)}
    {sent : List Sent} :
    notifyGroup (s.withFile filename stored) hdr filename = .ok sent ↔
      ∃ members len buf credential name, s.groups[hdr.gid.toNat]? = some members ∧
        findUsername hdr.uid (List.replicate MAX_CHAR_USERID 0) s.credential =
          .ok (len, buf, credential) ∧ cstr buf = .ok name ∧
        (∀ uid ∈ members, ∀ d, s.activeSockets.lookup uid.toNat = some d →
          (s.thread d).isSome) ∧
        sent = members.filterMap fun uid => (s.activeSockets.lookup uid.toNat).map fun d =>
          .packet d (filePacket hdr len name filename) := by
  have hcredential : (s.withFile filename stored).credential = s.credential := by
    cases stored <;> rfl
  have hgroups : (s.withFile filename stored).groups = s.groups := by
    cases stored <;> rfl
  have hsockets : (s.withFile filename stored).activeSockets = s.activeSockets := by
    cases stored <;> rfl
  have hclients : (s.withFile filename stored).clients = s.clients := by
    cases stored <;> rfl
  have hthread : ∀ d, (s.withFile filename stored).thread d = s.thread d := by
    intro d
    rw [Server.thread, Server.thread, hclients]
  constructor
  · intro h
    obtain ⟨⟨len, buf, credential⟩, hfind, h⟩ := bind_eq_ok.mp h
    obtain ⟨name, hstring, h⟩ := bind_eq_ok.mp h
    obtain ⟨members, hmembers, hloop⟩ := bind_eq_ok.mp h
    obtain ⟨hopen, rfl⟩ := forwardLoop_eq_ok.mp hloop
    refine ⟨members, len, buf, credential, name, ?_, hcredential ▸ hfind, hstring, ?_, ?_⟩
    · exact hgroups ▸ groupAt_eq_ok.mp hmembers
    · intro uid hmem d hlookup
      rw [← hthread]
      exact hopen uid hmem d (hsockets ▸ hlookup)
    · simp only [hsockets]
  · rintro ⟨members, len, buf, credential, name, hmembers, hfind, hstring, hopen, rfl⟩
    refine bind_eq_ok.mpr ⟨(len, buf, credential), hcredential ▸ hfind, ?_⟩
    refine bind_eq_ok.mpr ⟨name, hstring, bind_eq_ok.mpr ⟨members, ?_, ?_⟩⟩
    · exact groupAt_eq_ok.mpr (hgroups ▸ hmembers)
    · refine forwardLoop_eq_ok.mpr ⟨fun uid hmem d hlookup => ?_, ?_⟩
      · have hopen' := hopen uid hmem d (hsockets ▸ hlookup)
        rw [← hthread] at hopen'
        exact hopen'
      · simp only [hsockets]

/-- With the destination open the case is the handler of the server. -/
theorem notifyGroup_of_onSendFile {s s' : Server} {sent : List Sent}
    (h : onSendFile s hdr = .ok (sent, s')) :
    s.fileCnt + 1 < 2 ^ 31 ∧
      notifyGroup (s.withFile (fileFormat hdr.gid s.fileCnt) (some (storedContent hdr))) hdr
        (fileFormat hdr.gid s.fileCnt) = .ok sent := by
  obtain ⟨stored, hstore, h⟩ := bind_eq_ok.mp h
  obtain ⟨hcounted, rfl⟩ := storeUpload_eq_ok.mp hstore
  obtain ⟨found, hfind, h⟩ := bind_eq_ok.mp h
  obtain ⟨name, hstring, h⟩ := bind_eq_ok.mp h
  obtain ⟨sent', hforward, h⟩ := bind_eq_ok.mp h
  cases h
  exact ⟨hcounted, bind_eq_ok.mpr ⟨found, hfind, bind_eq_ok.mpr ⟨name, hstring, hforward⟩⟩⟩

/-- A case that ends. -/
theorem onSendFileHeader_lacks (hfull : content.length = hdr.len.toNat)
    (hin : t.incoming = content ++ rest) (ht : t.Flowing) {fuel : Nat}
    (hfuel : fuel > content.length) {u : Socket}
    (h : onSendFileHeader receiver opens fuel hdr t = some (.ok u)) :
    ∃ lacked, receiver.Lacks hdr t.writeAnswers lacked := by
  obtain ⟨ret, stored, v, hreceive, -⟩ :=
    @receiveToFileAt_flowing receiver opens hdr t content rest hfull hin ht
  cases receiver with
  | client myUid => exact ⟨0, .client myUid⟩
  | server s c =>
      simp only [onSendFileHeader, hreceive fuel hfuel] at h
      split at h
      · cases h
      · rename_i hcounted
        obtain ⟨sent, hnotify, -⟩ := bind_eq_ok.mp ((ok_bind _ _).symm.trans (Option.some.inj h))
        obtain ⟨members, len, buf, credential, name, hmembers, hfind, hstring, hopen, -⟩ :=
          notifyGroup_eq_ok.mp hnotify
        exact ⟨_, .server ⟨Nat.not_le.mp hcounted, hmembers,
          ⟨len, buf, credential, name, hfind, hstring, rfl⟩, hopen⟩⟩

/-- Where it leaves the stream. -/
theorem onSendFileHeader_flowing (opens : List Byte → Bool) (hfull : content.length = hdr.len.toNat)
    (hin : t.incoming = content ++ rest) (ht : t.Flowing) {lacked : Nat}
    (lacks : receiver.Lacks hdr t.writeAnswers lacked) :
    ∃ u, (∀ fuel > content.length, onSendFileHeader receiver opens fuel hdr t = some (.ok u)) ∧
      u.Flowing ∧ u.incoming = (content ++ rest).drop (receiver.taken opens hdr + lacked) := by
  obtain ⟨ret, stored, v, hreceive, hv, hanswers, hrest⟩ :=
    @receiveToFileAt_flowing receiver opens hdr t content rest hfull hin ht
  cases lacks with
  | client myUid =>
      refine ⟨v, fun fuel hfuel => ?_, hv, hrest⟩
      simp only [onSendFileHeader, hreceive fuel hfuel]
      rfl
  | @server s c members notice notifies =>
      obtain ⟨len, buf, credential, name, hfind, hstring, rfl⟩ := notifies.named
      have hname := length_fileFormat_le hdr.gid (Nat.lt_of_succ_lt notifies.counted)
      obtain ⟨hpayload, hlen⟩ := (noticeOf_filePacket hfind hstring
        (by omega : (fileFormat hdr.gid s.fileCnt).length < 100)).full (by omega)
      obtain ⟨u, hall, hu, hrest'⟩ := foldl_putOn_flowing s c
        (p := ⟨filePacket hdr len name (fileFormat hdr.gid s.fileCnt), hpayload⟩) hlen members hv
      refine ⟨u, fun fuel hfuel => ?_, hu, ?_⟩
      · simp only [onSendFileHeader, hreceive fuel hfuel]
        rw [if_neg (Nat.not_le.mpr notifies.counted)]
        have hnotify := (@notifyGroup_eq_ok hdr s (fileFormat hdr.gid s.fileCnt) stored _).mpr
          ⟨members, len, buf, credential, name, notifies.group, hfind, hstring,
            notifies.connected, rfl⟩
        rw [Option.map_some, ok_bind]
        exact congrArg some (bind_eq_ok.mpr ⟨_, hnotify, congrArg Except.ok hall⟩)
      · rw [hrest', hrest, hanswers, List.drop_drop]

/-- The header in memory has no payload. -/
theorem lacks_payload {answers : List Answer} {lacked : Nat} {payload : List Byte} :
    receiver.Lacks { hdr with payload := payload } answers lacked ↔
      receiver.Lacks hdr answers lacked := by
  constructor
  · intro lacks
    cases lacks with
    | client myUid => exact .client myUid
    | server notifies =>
        exact .server ⟨notifies.counted, notifies.group, notifies.named, notifies.connected⟩
  · intro lacks
    cases lacks with
    | client myUid => exact .client myUid
    | server notifies =>
        exact .server ⟨notifies.counted, notifies.group, notifies.named, notifies.connected⟩

theorem taken_payload (receiver : Receiver) (opens : List Byte → Bool) (payload : List Byte) :
    receiver.taken opens { hdr with payload := payload } = receiver.taken opens hdr := by
  cases receiver <;> rfl

/-- As many bytes have gone as the content has, or nothing followed it. -/
theorem drop_eq_rest_iff {k : Nat} :
    (content ++ rest).drop k = rest ↔
      k = content.length ∨ (rest = [] ∧ content.length ≤ k) := by
  constructor
  · intro h
    have hlen := congrArg List.length h
    rw [List.length_drop, List.length_append] at hlen
    cases rest with
    | nil =>
        rw [List.length_nil] at hlen
        exact Or.inr ⟨rfl, by omega⟩
    | cons b rest =>
        rw [List.length_cons] at hlen
        exact Or.inl (by omega)
  · rintro (rfl | ⟨rfl, hle⟩)
    · exact List.drop_left
    · rw [List.append_nil]
      exact List.drop_of_length_le hle

end Cases

/-! ## Staying in step -/

variable (receiver : Receiver) (opens : List Byte → Bool) (basic : Vector Byte sizeofMainhdr)

/-- The content is left on the socket. -/
theorem readMainHeader_sendFile (f : FileOnStream) :
    ∃ t, readMainHeader basic f.socket = (some { f.hdr with payload := [] }, t) ∧
      t.incoming = f.content ++ f.rest ∧ t.Flowing ∧ t.writeAnswers = f.socket.writeAnswers := by
  obtain ⟨t, hread, hrest, ht⟩ := readMainHeader_header basic f.flowing f.hdr f.incoming_eq
  have hp : ¬ Mainhdr.hasPayload { f.hdr with payload := [] } = true := by
    rw [hasPayload_iff]
    exact fun h => h.2 f.cmd_eq
  rw [recvPayload_of_not_hasPayload hp] at hread
  have hframe := readMainHeader_frame basic f.socket
  rw [hread] at hframe
  exact ⟨t, hread, hrest, ht, hframe⟩

/-- The next header is read where it begins exactly when the case comes to its end and what
`receive_to_file` takes, with what the writes of the notice on the socket fall short by, are the
bytes that are announced, or all that follows. -/
theorem keepsInStep_iff (f : FileOnStream) :
    KeepsInStep receiver opens basic f ↔
      ∃ lacked, receiver.Lacks f.hdr f.socket.writeAnswers lacked ∧
        (receiver.taken opens f.hdr + lacked = f.hdr.len.toNat ∨
          (f.rest = [] ∧ f.hdr.len.toNat ≤ receiver.taken opens f.hdr + lacked)) := by
  obtain ⟨t, hread, hin, ht, hanswers⟩ := readMainHeader_sendFile basic f
  have hfull : f.content.length = ({ f.hdr with payload := [] } : Mainhdr).len.toNat := f.full
  rw [← f.full, ← hanswers]
  constructor
  · rintro ⟨hdr, t', u, bound, hread', hcase, hrest, -⟩
    obtain ⟨rfl, rfl⟩ : { f.hdr with payload := [] } = hdr ∧ t = t' := by
      rw [hread] at hread'
      cases hread'
      exact ⟨rfl, rfl⟩
    have hends := hcase (max bound (f.content.length + 1)) (le_max_left _ _)
    have hfuel : max bound (f.content.length + 1) > f.content.length :=
      Nat.lt_of_succ_le (le_max_right _ _)
    obtain ⟨lacked, lacks⟩ := onSendFileHeader_lacks hfull hin ht hfuel hends
    obtain ⟨u', hcase', -, hrest'⟩ := onSendFileHeader_flowing opens hfull hin ht lacks
    obtain rfl : u = u' := by
      have hsame := hends.symm.trans (hcase' _ hfuel)
      cases hsame
      rfl
    rw [hrest, taken_payload] at hrest'
    exact ⟨lacked, lacks_payload.mp lacks, drop_eq_rest_iff.mp hrest'.symm⟩
  · rintro ⟨lacked, lacks, hall⟩
    obtain ⟨u, hcase, hu, hrest⟩ :=
      onSendFileHeader_flowing opens hfull hin ht (lacks_payload.mpr lacks)
    rw [taken_payload, drop_eq_rest_iff.mpr hall] at hrest
    exact ⟨_, t, u, f.content.length + 1, hread, hcase, hrest, hu⟩

/-- A file that is not stored is read for the next request: when no write falls short, a content
that is a packet is handled as one. -/
theorem readMainHeader_content (f : FileOnStream) (p : Packet) (notFile : p.cmd ≠ SEND_FILE)
    (fits : p.len.toNat < 2 ^ 31) (hcontent : f.content = p.wire)
    (hnone : receiver.taken opens f.hdr = 0)
    (lacks : receiver.Lacks f.hdr f.socket.writeAnswers 0) :
    ∃ hdr t u v, readMainHeader basic f.socket = (some hdr, t) ∧
      (∀ fuel > f.content.length, onSendFileHeader receiver opens fuel hdr t = some (.ok u)) ∧
        readMainHeader basic u = (some p.toMainhdr, v) := by
  obtain ⟨t, hread, hin, ht, hanswers⟩ := readMainHeader_sendFile basic f
  have hfull : f.content.length = ({ f.hdr with payload := [] } : Mainhdr).len.toNat := f.full
  rw [← hanswers] at lacks
  obtain ⟨u, hcase, hu, hrest⟩ :=
    onSendFileHeader_flowing opens hfull hin ht (lacks_payload.mpr lacks)
  rw [taken_payload, hnone, Nat.add_zero, List.drop_zero, hcontent] at hrest
  obtain ⟨v, hnext, -⟩ := readMainHeader_packet basic hu p notFile fits hrest
  exact ⟨_, t, u, v, hread, hcase, hnext⟩

/-- A file of one byte for an empty group, and the destination does not open. -/
theorem content_left_on_stream : ¬ ∀ (receiver : Receiver) (opens : List Byte → Bool)
    (basic : Vector Byte sizeofMainhdr) (f : FileOnStream),
    KeepsInStep receiver opens basic f := by
  intro h
  let s : Socket := ⟨[4, 0, 0, 2, 0, 0, 0, 1, 120], [], [], []⟩
  have hflow : s.Flowing := by simp [Flowing, s]
  let f : FileOnStream := ⟨s, ⟨SEND_FILE, 0, 2, 1, []⟩, [120], [], rfl, rfl, by decide, hflow⟩
  obtain ⟨hdr, t, u, bound, hread, hcase, hrest, -⟩ :=
    h (.server (.start twoAccounts ∅) 0) (fun _ => false) (Vector.replicate sizeofMainhdr 0) f
  have hread' : readMainHeader (Vector.replicate sizeofMainhdr 0) s =
      (some ⟨SEND_FILE, 0, 2, 1, []⟩, ⟨[120], [], [], []⟩) := by
    decide +kernel
  obtain ⟨rfl, rfl⟩ : (⟨SEND_FILE, 0, 2, 1, []⟩ : Mainhdr) = hdr ∧ ⟨[120], [], [], []⟩ = t := by
    have hsame := hread'.symm.trans hread
    cases hsame
    exact ⟨rfl, rfl⟩
  have hnotify : notifyGroup ((Server.start twoAccounts ∅).withFile (fileFormat 0 1) none)
      ⟨SEND_FILE, 0, 2, 1, []⟩ (fileFormat 0 1) = .ok [] := by
    decide +kernel
  have hends := hcase bound (le_refl bound)
  have hstays : onSendFileHeader (.server (.start twoAccounts ∅) 0) (fun _ => false) bound
      ⟨SEND_FILE, 0, 2, 1, []⟩ ⟨[120], [], [], []⟩ = some (.ok ⟨[120], [], [], []⟩) :=
    congrArg some ((ok_bind _ _).trans (bind_eq_ok.mpr ⟨[], hnotify, rfl⟩))
  rw [hstays] at hends
  cases hends
  cases hrest

end GroupChat
