import GroupChat.Application
import GroupChat.Server.Forwarding
import GroupChat.Server.Registry

/-!
# The login of a client

Until the server has accepted its login a client and the server take turns: one of the two has
something to do for the client, and at most one packet is on its way (`Place`). Nobody else sends on
the connection, because the registry has none that has not logged in. With the response the client
gets the uid that the server has put into the struct of the connection, and it puts no other uid
into a request and never logs in again. So what the server assumes about the headers it gets holds
(`clients_genuine`).
-/

namespace GroupChat

open Posix

/-! ## The server and one connection -/

/-- The logins on a connection. -/
def loginsOn (c : ConnId) (h : List Taken) : List (ConnId × Int) :=
  (logins h).filter fun p => p.1 = c

/-- The step is no login on the connection. -/
def NoLogin (c : ConnId) (e : Event) : Prop :=
  ∀ recv heap, e = .received c recv heap → recv.cmd ≠ USR_LOGIN

/-- The only login on the connection is as the account with this uid, which the struct of the
connection has as long as it is open. -/
structure LoggedIn (h : List Taken) (s : Server) (c : ConnId) (uid : UInt16) : Prop where
  login : ∃ k, loginsOn c h = [(c, k)] ∧ UInt16.ofInt k = uid
  uidOf : ∀ u, s.uidOf c = some u → u = uid

/-- Every connection in the registry has logged in as the account it is registered as. -/
def Registered (h : List Taken) (s : Server) : Prop :=
  ∀ key c, s.activeSockets.lookup key = some c → ∃ k, (c, k) ∈ loginsOn c h ∧ key = k.toNat

section Server

variable {h : List Taken} {s s' : Server} {e : Event} {sent : List Sent} {c : ConnId}
  {recv : Packet} {heap : Byte × Byte}

theorem loginsOn_append (c : ConnId) (h : List Taken) (x : Taken) :
    loginsOn c (h ++ [x]) = loginsOn c h ++ ((loginOf x).toList.filter fun p => p.1 = c) := by
  rw [loginsOn, logins_append, List.filter_append]
  rfl

theorem loginResult_noLogin (hno : NoLogin c (.received c recv heap)) :
    loginResult s recv.toMainhdr = none := loginResult_of_ne (hno recv heap rfl)

theorem loginsOn_noLogin (hno : NoLogin c e) :
    loginsOn c (h ++ [⟨s, e, sent, s'⟩]) = loginsOn c h := by
  have hnone : ((loginOf ⟨s, e, sent, s'⟩).toList.filter fun p => p.1 = c) = [] := by
    rw [List.filter_eq_nil_iff]
    intro p hp
    rw [Option.mem_toList] at hp
    cases e with
    | accept => cases hp
    | closed d => cases hp
    | received d recv heap =>
        obtain ⟨k, hk, rfl⟩ := Option.map_eq_some_iff.mp hp
        rintro hd
        obtain rfl : d = c := of_decide_eq_true hd
        rw [loginResult_noLogin hno] at hk
        cases hk
  rw [loginsOn_append, hnone, List.append_nil]

/-- A step that is no login on the connection gives it no other uid. -/
theorem uidOf_noLogin (hstep : step s e = .ok (sent, s')) (hno : NoLogin c e)
    (hc : c < s.clients.length) {u : UInt16} (hu : s'.uidOf c = some u) : s.uidOf c = some u := by
  cases e with
  | accept =>
      obtain ⟨-, rfl⟩ := step_accept hstep
      rwa [uidOf_accept hc] at hu
  | closed d =>
      obtain ⟨me, hme, -, rfl⟩ := step_closed hstep
      rw [uidOf_closed hme] at hu
      split at hu
      · cases hu
      · exact hu
  | received d recv heap =>
      rcases (step_received hstep).2.sessions with ⟨k, hk, -, huid, -⟩ | ⟨-, same⟩
      · rw [huid] at hu
        split at hu
        · rename_i hd
          subst hd
          rw [loginResult_noLogin hno] at hk
          cases hk
        · exact hu
      · rwa [same.uidOf] at hu

theorem lt_of_loginsOn (hknown : ∀ p ∈ logins h, p.1 < s.clients.length)
    (hne : loginsOn c h ≠ []) : c < s.clients.length := by
  obtain ⟨p, hp⟩ := List.exists_mem_of_ne_nil _ hne
  obtain ⟨hmem, hpc⟩ := List.mem_filter.mp hp
  exact of_decide_eq_true hpc ▸ hknown p hmem

theorem LoggedIn.step {uid : UInt16} (session : LoggedIn h s c uid)
    (hknown : ∀ p ∈ logins h, p.1 < s.clients.length) (hstep : step s e = .ok (sent, s'))
    (hno : NoLogin c e) : LoggedIn (h ++ [⟨s, e, sent, s'⟩]) s' c uid := by
  obtain ⟨k, hlogin, huid⟩ := session.login
  have hne : loginsOn c h ≠ [] := hlogin ▸ List.cons_ne_nil _ _
  constructor
  · rw [loginsOn_noLogin hno]
    exact session.login
  · intro u hu
    exact session.uidOf u (uidOf_noLogin hstep hno (lt_of_loginsOn hknown hne) hu)

theorem registered_step (hreg : Registered h s) (hstep : step s e = .ok (sent, s')) :
    Registered (h ++ [⟨s, e, sent, s'⟩]) s' := by
  have hlater : ∀ c key, (∃ k, (c, k) ∈ loginsOn c h ∧ key = k.toNat) →
      ∃ k, (c, k) ∈ loginsOn c (h ++ [⟨s, e, sent, s'⟩]) ∧ key = k.toNat := by
    rintro c key ⟨k, hmem, hkey⟩
    rw [loginsOn_append]
    exact ⟨k, List.mem_append_left _ hmem, hkey⟩
  intro key c hkey
  cases e with
  | accept =>
      obtain ⟨-, rfl⟩ := step_accept hstep
      exact hlater c key (hreg key c hkey)
  | closed d =>
      obtain ⟨me, hme, -, rfl⟩ := step_closed hstep
      rw [lookup_closed] at hkey
      split at hkey
      · cases hkey
      · exact hlater c key (hreg key c hkey)
  | received d recv heap =>
      rcases (step_received hstep).2.sessions with ⟨k, hk, hsockets, -, -⟩ | ⟨-, same⟩
      · rw [hsockets] at hkey
        by_cases hsame : key = k.toNat
        · rw [hsame, AList.lookup_insert] at hkey
          cases hkey
          rw [loginsOn_append, loginOf_of_some hk]
          exact ⟨k, List.mem_append_right _ (List.mem_filter.mpr
            ⟨List.mem_cons_self, decide_eq_true rfl⟩), hsame⟩
        · rw [AList.lookup_insert_ne hsame] at hkey
          exact hlater c key (hreg key c hkey)
      · rw [same.activeSockets] at hkey
        exact hlater c key (hreg key c hkey)

theorem registered_of_run {credential : CredentialFile} {disk : Disk}
    (run : Lts.Run GroupChat.step (Server.start credential disk) h s) : Registered h s := by
  induction run with
  | start => exact fun key c hkey => by cases hkey
  | next run taken ih => exact registered_step ih taken

/-- A step sends on the connection of its packet and on those in the registry. -/
theorem recipient_of_step (hstep : step s e = .ok (sent, s')) :
    ∀ x ∈ sent, (∃ recv heap, e = .received x.connfd recv heap) ∨
      ∃ key, s.activeSockets.lookup key = some x.connfd := by
  cases e with
  | accept =>
      obtain ⟨rfl, -⟩ := step_accept hstep
      exact fun x hx => absurd hx List.not_mem_nil
  | closed d =>
      obtain ⟨me, -, rfl, -⟩ := step_closed hstep
      exact fun x hx => absurd hx List.not_mem_nil
  | received d recv heap =>
      obtain ⟨me, -, hswitch⟩ := step_switch hstep
      intro x hx
      cases switch_sentBy hswitch x hx with
      | reply reply =>
          obtain ⟨hdr, rfl, -⟩ := reply
          exact Or.inl ⟨recv, heap, rfl⟩
      | invitation key peer hdr request online cmd => exact Or.inr ⟨key, online⟩
      | copy key d' hdr online call cmd => exact Or.inr ⟨key, online⟩
      | file gid uid content request => exact Or.inl ⟨recv, heap, rfl⟩

/-- Nothing is sent on a connection that has not logged in, unless it is a response. -/
theorem quiet_of_fresh (hreg : Registered h s) (hstep : step s e = .ok (sent, s'))
    (hfresh : loginsOn c h = []) (hother : ∀ recv heap, e ≠ .received c recv heap) :
    (sent.filter fun x => x.connfd = c) = [] := by
  rw [List.filter_eq_nil_iff]
  rintro x hx hc
  obtain rfl : x.connfd = c := of_decide_eq_true hc
  rcases recipient_of_step hstep x hx with ⟨recv, heap, he⟩ | ⟨key, hkey⟩
  · exact hother recv heap he
  · obtain ⟨k, hmem, -⟩ := hreg key _ hkey
    rw [hfresh] at hmem
    exact List.not_mem_nil hmem

end Server

/-! ## Where a client and the server are -/

/-- What is on its way between the server and the client, at each point of the program. -/
inductive Place (h : List Taken) (s : Server) (c : ConnId) (toServer : List Packet)
    (toClient : List Sent) : Process → Prop
  | resting (d : Dialogue) (rests : d.Rests) (fresh : loginsOn c h = [])
      (noRequest : toServer = []) (noAnswer : toClient = []) :
      Place h s c toServer toClient (.dialogue d)
  | asked (d : Dialogue) (p : Packet) (awaits : d.Awaits p.cmd) (fresh : loginsOn c h = [])
      (request : toServer = [p]) (noAnswer : toClient = []) :
      Place h s c toServer toClient (.dialogue d)
  | answered (d : Dialogue) (hdr : Mainhdr) (awaits : d.Awaits hdr.cmd)
      (denied : hdr.cmd = USR_LOGIN → (Sent.packet c hdr).payloadR ≠ .ok 0)
      (fresh : loginsOn c h = []) (noRequest : toServer = [])
      (answer : toClient = [.packet c hdr]) : Place h s c toServer toClient (.dialogue d)
  | admitted (d : Dialogue) (hdr : Mainhdr) (later : List Sent) (awaits : d.Awaits USR_LOGIN)
      (cmd : hdr.cmd = USR_LOGIN) (status : (Sent.packet c hdr).payloadR = .ok 0)
      (session : LoggedIn h s c hdr.uid) (noRequest : toServer = [])
      (answer : toClient = .packet c hdr :: later) : Place h s c toServer toClient (.dialogue d)
  | chatting (client : Client) (session : LoggedIn h s c client.myUid)
      (own : ∀ p ∈ client.outgoingMessageQueue ++ toServer, Own client.myUid p) :
      Place h s c toServer toClient (.chatting client)

theorem Dialogue.Awaits.not_rests {d : Dialogue} {cmd : UInt8} (awaits : d.Awaits cmd) :
    ¬ d.Rests := by
  rintro (hrests | hrests) <;> rcases awaits with ⟨hstage, -⟩ | ⟨⟨created, hstage⟩, -⟩ <;>
    exact absurd (hrests.symm.trans hstage) (by simp)

theorem Dialogue.Awaits.unique {d : Dialogue} {cmd cmd' : UInt8} (awaits : d.Awaits cmd)
    (awaits' : d.Awaits cmd') : cmd = cmd' := by
  rcases awaits with ⟨hstage, rfl⟩ | ⟨⟨created, hstage⟩, rfl⟩ <;>
    rcases awaits' with ⟨hstage', rfl⟩ | ⟨⟨created', hstage'⟩, rfl⟩
  · rfl
  · exact absurd (hstage.symm.trans hstage') (by simp)
  · exact absurd (hstage.symm.trans hstage') (by simp)
  · rfl

/-! ## One step -/

section Steps

variable {h : List Taken} {s s' : Server} {e : Event} {sent : List Sent} {c : ConnId}
  {toServer : List Packet} {toClient : List Sent} {process process' : Process} {act : Act}

/-- A step of the client. -/
theorem Place.acts {pe : ProcessEvent} (place : Place h s c toServer toClient process)
    (stepped : process.Stepped toClient.head? pe act process') :
    Place h s c (toServer ++ act.written) (act.left toClient) process' := by
  cases stepped with
  | dialogue d _ _ turned =>
      cases turned with
      | idle d' before after =>
          cases place with
          | resting _ rests fresh noRequest noAnswer =>
              subst noRequest
              exact .resting d' after fresh rfl noAnswer
          | asked _ p awaits fresh request noAnswer => exact absurd before awaits.not_rests
          | answered _ hdr awaits denied fresh noRequest answer =>
              exact absurd before awaits.not_rests
          | admitted _ hdr later awaits cmd status session noRequest answer =>
              exact absurd before awaits.not_rests
      | requested p d' before awaits' =>
          cases place with
          | resting _ rests fresh noRequest noAnswer =>
              subst noRequest
              exact .asked d' p awaits' fresh rfl noAnswer
          | asked _ q awaits fresh request noAnswer => exact absurd before awaits.not_rests
          | answered _ hdr awaits denied fresh noRequest answer =>
              exact absurd before awaits.not_rests
          | admitted _ hdr later awaits cmd status session noRequest answer =>
              exact absurd before awaits.not_rests
      | created x d' next stage after =>
          cases place with
          | resting _ rests fresh noRequest noAnswer =>
              rw [noAnswer] at next
              cases next
          | asked _ p awaits fresh request noAnswer =>
              rw [noAnswer] at next
              cases next
          | answered _ hdr awaits denied fresh noRequest answer =>
              subst noRequest answer
              exact .resting d' after fresh rfl rfl
          | admitted _ hdr later awaits cmd status session noRequest answer =>
              have awaits' : d.Awaits USR_CREATE := Or.inl ⟨stage, rfl⟩
              exact absurd (awaits.unique awaits') (by decide)
      | refused x d' next fails after =>
          cases place with
          | resting _ rests fresh noRequest noAnswer =>
              rw [noAnswer] at next
              cases next
          | asked _ p awaits fresh request noAnswer =>
              rw [noAnswer] at next
              cases next
          | answered _ hdr awaits denied fresh noRequest answer =>
              subst noRequest answer
              exact .resting d' after fresh rfl rfl
          | admitted _ hdr later awaits cmd status session noRequest answer =>
              subst answer
              cases next
              exact absurd status (fails USR_LOGIN awaits cmd)
      | entered x next awaits' status' =>
          cases place with
          | resting _ rests fresh noRequest noAnswer =>
              rw [noAnswer] at next
              cases next
          | asked _ p awaits fresh request noAnswer =>
              rw [noAnswer] at next
              cases next
          | answered _ hdr awaits denied fresh noRequest answer =>
              subst answer
              cases next
              exact absurd status' (denied (awaits.unique awaits'))
          | admitted _ hdr later awaits cmd status session noRequest answer =>
              subst noRequest answer
              cases next
              exact .chatting (.start hdr.uid) session fun p hp => absurd hp List.not_mem_nil
  | chatting client client' _ stepped =>
      cases place with
      | chatting _ session own =>
          cases stepped with
          | quiet _ uid same issued uploads =>
              refine .chatting client' (uid ▸ session) fun p hp => ?_
              rw [same, Act.written, List.append_nil] at hp
              exact uid ▸ own p hp
          | queued _ p uid own' upload queue issued uploads =>
              refine .chatting client' (uid ▸ session) fun q hq => ?_
              rw [queue, Act.written, List.append_nil, List.mem_append, List.mem_append,
                List.mem_singleton] at hq
              rcases hq with (hq | rfl) | hq
              · exact uid ▸ own q (List.mem_append_left _ hq)
              · exact uid ▸ own'
              · exact uid ▸ own q (List.mem_append_right _ hq)
          | uploaded p own' upload issued uploads =>
              refine .chatting client session fun q hq => ?_
              rw [Act.written, ← List.append_assoc, List.mem_append, List.mem_singleton] at hq
              rcases hq with hq | rfl
              · exact own q hq
              · exact own'
          | wrote hdr rest queue issued uploads =>
              refine .chatting _ session fun q hq => ?_
              rw [queue] at own
              rw [Act.written, List.mem_append, List.mem_append, List.mem_singleton] at hq
              rcases hq with hq | hq | rfl
              · exact own q (List.mem_append_left _ (List.mem_cons_of_mem _ hq))
              · exact own q (List.mem_append_right _ hq)
              · exact own q (List.mem_append_left _ List.mem_cons_self)
          | read x _ next uid same issued uploads =>
              refine .chatting client' (uid ▸ session) fun p hp => ?_
              rw [same, Act.written, List.append_nil] at hp
              exact uid ▸ own p hp

/-- A step of the server for another connection. -/
theorem Place.served_other (place : Place h s c toServer toClient process)
    (hknown : ∀ p ∈ logins h, p.1 < s.clients.length) (hreg : Registered h s)
    (hstep : step s e = .ok (sent, s')) (hother : ∀ recv heap, e ≠ .received c recv heap) :
    Place (h ++ [⟨s, e, sent, s'⟩]) s' c toServer (toClient ++ sent.filter fun x => x.connfd = c)
      process := by
  have hno : NoLogin c e := fun recv heap he => absurd he (hother recv heap)
  have hlogins : loginsOn c (h ++ [⟨s, e, sent, s'⟩]) = loginsOn c h := loginsOn_noLogin hno
  cases place with
  | resting d rests fresh noRequest noAnswer =>
      rw [quiet_of_fresh hreg hstep fresh hother, List.append_nil]
      exact .resting d rests (hlogins.trans fresh) noRequest noAnswer
  | asked d p awaits fresh request noAnswer =>
      rw [quiet_of_fresh hreg hstep fresh hother, List.append_nil]
      exact .asked d p awaits (hlogins.trans fresh) request noAnswer
  | answered d hdr awaits denied fresh noRequest answer =>
      rw [quiet_of_fresh hreg hstep fresh hother, List.append_nil]
      exact .answered d hdr awaits denied (hlogins.trans fresh) noRequest answer
  | admitted d hdr later awaits cmd status session noRequest answer =>
      rw [answer, List.cons_append]
      exact .admitted d hdr _ awaits cmd status (session.step hknown hstep hno) noRequest rfl
  | chatting client session own => exact .chatting client (session.step hknown hstep hno) own

variable {recv : Packet} {rest : List Packet} {heap : Byte × Byte}

/-- The response to `USR_CREATE`. -/
theorem create_reply (hcmd : recv.cmd = USR_CREATE)
    (hstep : step s (.received c recv heap) = .ok (sent, s')) :
    ∃ hdr, sent = [.packet c hdr] ∧ hdr.cmd = USR_CREATE := by
  obtain ⟨me, -, hswitch⟩ := step_switch hstep
  have hrun : onUsrCreate s c recv.toMainhdr = .ok (sent, s') := by
    simpa [switch, hcmd] using hswitch
  obtain ⟨⟨newUid, status, credential⟩, -, hrun⟩ := bind_eq_ok.mp hrun
  cases hrun
  exact ⟨_, rfl, hcmd⟩

/-- The response to `USR_LOGIN`, which logs the connection in or not. -/
theorem login_reply (hcmd : recv.cmd = USR_LOGIN)
    (hstep : step s (.received c recv heap) = .ok (sent, s')) :
    ∃ hdr, sent = [.packet c hdr] ∧ hdr.cmd = USR_LOGIN ∧
      (((Sent.packet c hdr).payloadR ≠ .ok 0 ∧
          loginOf ⟨s, .received c recv heap, sent, s'⟩ = none) ∨
        ((Sent.packet c hdr).payloadR = .ok 0 ∧ s'.uidOf c = some hdr.uid ∧
          ∃ k, loginOf ⟨s, .received c recv heap, sent, s'⟩ = some (c, k) ∧
            UInt16.ofInt k = hdr.uid)) := by
  obtain ⟨me, hme, hswitch⟩ := step_switch hstep
  have hrun : onUsrLogin s c me recv.toMainhdr = .ok (sent, s') := by
    simpa [switch, hcmd, USR_CREATE, USR_LOGIN] using hswitch
  cases onUsrLogin_run hrun with
  | refused login fails =>
      have hresult := loginResult_of_login hcmd login
      rw [if_neg fails] at hresult
      have hstatus : (.ok (UInt8.ofInt ERR_GENERIC) : Except Fault Byte) ≠ .ok 0 := by decide
      exact ⟨_, rfl, rfl, Or.inl ⟨hstatus, loginOf_of_none hresult⟩⟩
  | @entered username name status credential login pos =>
      have hresult := loginResult_of_login hcmd login
      rw [if_pos pos] at hresult
      refine ⟨_, rfl, rfl, Or.inr ⟨rfl, ?_, status, loginOf_of_some hresult, rfl⟩⟩
      have hthread := s.thread_set hme (some ⟨⟨UInt16.ofInt status, name⟩, me.fileId⟩) c
      rw [if_pos rfl] at hthread
      exact Server.uidOf_of_thread hthread

/-- A step of the server for the connection. -/
theorem Place.served (place : Place h s c (recv :: rest) toClient process)
    (hknown : ∀ p ∈ logins h, p.1 < s.clients.length)
    (hstep : step s (.received c recv heap) = .ok (sent, s')) :
    Place (h ++ [⟨s, .received c recv heap, sent, s'⟩]) s' c rest
      (toClient ++ sent.filter fun x => x.connfd = c) process := by
  cases place with
  | resting d rests fresh noRequest noAnswer => cases noRequest
  | answered d hdr awaits denied fresh noRequest answer => cases noRequest
  | admitted d hdr later awaits cmd status session noRequest answer => cases noRequest
  | chatting client session own =>
      have hno : NoLogin c (.received c recv heap) := by
        rintro recv' heap' he
        cases he
        exact (own recv (List.mem_append_right _ List.mem_cons_self)).2
      refine .chatting client (session.step hknown hstep hno) fun p hp => own p ?_
      rcases List.mem_append.mp hp with hp | hp
      · exact List.mem_append_left _ hp
      · exact List.mem_append_right _ (List.mem_cons_of_mem _ hp)
  | asked d p awaits fresh request noAnswer =>
      cases request
      subst noAnswer
      rcases awaits with ⟨hstage, hcmd⟩ | ⟨hstage, hcmd⟩
      · obtain ⟨hdr, rfl, hreply⟩ := create_reply hcmd hstep
        have hno : NoLogin c (.received c recv heap) := by
          rintro recv' heap' he
          cases he
          rw [hcmd]
          decide
        have hsent : ([Sent.packet c hdr].filter fun x => x.connfd = c) = [.packet c hdr] :=
          List.filter_cons_of_pos (decide_eq_true rfl)
        rw [hsent]
        refine .answered d hdr (Or.inl ⟨hstage, hreply⟩) (fun hlogin => ?_)
          ((loginsOn_noLogin hno).trans fresh) rfl rfl
        exact absurd (hreply.symm.trans hlogin) (by decide)
      · obtain ⟨hdr, rfl, hreply, hresult⟩ := login_reply hcmd hstep
        have hsent : ([Sent.packet c hdr].filter fun x => x.connfd = c) = [.packet c hdr] :=
          List.filter_cons_of_pos (decide_eq_true rfl)
        rw [hsent]
        rcases hresult with ⟨hdenied, hnone⟩ | ⟨hstatus, huid, k, hlogin, hk⟩
        · refine .answered d hdr (Or.inr ⟨hstage, hreply⟩) (fun _ => hdenied) ?_ rfl rfl
          rw [loginsOn_append, hnone, fresh]
          rfl
        · refine .admitted d hdr [] (Or.inr ⟨hstage, rfl⟩) hreply hstatus ⟨⟨k, ?_, hk⟩, ?_⟩ rfl rfl
          · rw [loginsOn_append, hlogin, fresh]
            simp
          · intro u hu
            exact Option.some.inj (hu.symm.trans huid)

/-- A packet that is handled is one of the dialogue, or of the session of the connection. -/
theorem Place.session (place : Place h s c (recv :: rest) toClient process) :
    recv.cmd = USR_CREATE ∨ recv.cmd = USR_LOGIN ∨ LoggedIn h s c recv.uid := by
  cases place with
  | resting d rests fresh noRequest noAnswer => cases noRequest
  | answered d hdr awaits denied fresh noRequest answer => cases noRequest
  | admitted d hdr later awaits cmd status session noRequest answer => cases noRequest
  | asked d p awaits fresh request noAnswer =>
      cases request
      rcases awaits with ⟨-, hcmd⟩ | ⟨-, hcmd⟩
      · exact Or.inl hcmd
      · exact Or.inr (Or.inl hcmd)
  | chatting client session own =>
      obtain ⟨huid, -⟩ := own recv (List.mem_append_right _ List.mem_cons_self)
      exact Or.inr (Or.inr (huid ▸ session))

theorem LoggedIn.hasLoggedIn {uid : UInt16} (session : LoggedIn h s c uid)
    (hopen : (s.uidOf c).isSome) : HasLoggedIn h s c uid := by
  obtain ⟨u, hu⟩ := Option.isSome_iff_exists.mp hopen
  obtain ⟨k, hlogin, hk⟩ := session.login
  have hmem : (c, k) ∈ loginsOn c h := hlogin ▸ List.mem_cons_self
  refine ⟨?_, (c, k), (List.mem_filter.mp hmem).1, rfl, hk⟩
  rw [hu, session.uidOf u hu]

end Steps

/-! ## Runs -/

/-- Every client is at one of these places. -/
structure Placed (h : List Taken) (s : Application) : Prop where
  known : ∀ p ∈ logins h, p.1 < s.network.server.clients.length
  registered : Registered h s.network.server
  place : ∀ c, Place h s.network.server c (s.network.toServer c) (s.network.toClient c)
    (s.clients c)

/-- What the programs of the clients keep. -/
structure Genuine (credential : CredentialFile) (disk : Disk) (h : List ApplicationTaken)
    (s : Application) : Prop where
  /-- every request has the uid that its connection has logged in with -/
  truthful : Lts.Along step (Server.start credential disk) (Lts.events (serverSteps h)) Truthful
  /-- every effect at the server is for the uid of the connection that causes it -/
  bound : Lts.Along step (Server.start credential disk) (Lts.events (serverSteps h))
    BoundToSession
  /-- nobody logs in twice on a connection -/
  once : ∀ c, (loginsOn c (serverSteps h)).length ≤ 1
  /-- a client that is past the dialogue has the uid that the server has for it -/
  session : ∀ c client, s.clients c = .chatting client →
    LoggedIn (serverSteps h) s.network.server c client.myUid
  /-- as long as the accounts have a `uint16_t`, no freed struct is in the registry -/
  noStale : (∀ p ∈ logins (serverSteps h), p.2 < 2 ^ 16) →
    NoStale (serverSteps h) s.network.server

section Runs

variable {fuel : Nat} {credential : CredentialFile} {disk : Disk}
  {input : ConnId → List Byte} {answer : ConnId → Byte} {h : List ApplicationTaken}
  {s s' : Application} {ae : ApplicationEvent} {out : Option (NetworkEvent × NetworkOut)}

theorem placed_start : Placed [] (Application.start credential disk input answer) where
  known := fun p hp => absurd hp List.not_mem_nil
  registered := fun key c hkey => by cases hkey
  place := fun c => .resting _ (Or.inl rfl) rfl rfl rfl

/-- A step of a client, which is at the same time one of the network or of nobody else. -/
theorem Placed.acts {H : List Taken} (placed : Placed H s) {c : ConnId} {e : ProcessEvent}
    {act : Act} {process : Process}
    (next : (s.clients c).next fuel (s.network.toClient c).head? e = .ok (act, process))
    (hserver : s'.network.server = s.network.server)
    (htoServer : s'.network.toServer =
      Function.update s.network.toServer c (s.network.toServer c ++ act.written))
    (htoClient : s'.network.toClient =
      Function.update s.network.toClient c (act.left (s.network.toClient c)))
    (hclients : s'.clients = Function.update s.clients c process) : Placed H s' := by
  refine ⟨hserver ▸ placed.known, hserver ▸ placed.registered, fun d => ?_⟩
  rw [hserver, htoServer, htoClient, hclients]
  by_cases hd : d = c
  · subst hd
    rw [Function.update_self, Function.update_self, Function.update_self]
    exact (placed.place d).acts (Process.next_stepped next)
  · rw [Function.update_of_ne hd, Function.update_of_ne hd, Function.update_of_ne hd]
    exact placed.place d

/-- A step of the server. -/
theorem Placed.served {H : List Taken} (placed : Placed H s) {e : NetworkEvent} {o : NetworkOut}
    {network : Network} (unwritten : ∀ c p, e ≠ .write c p) (unread : ∀ c, e ≠ .read c)
    (taken : s.network.step e = .ok (o, network)) :
    ∃ y, serverTaken ⟨s.network, e, o, network⟩ = some y ∧
      Placed (H ++ [y]) ⟨network, s.clients⟩ ∧
      ∀ c recv heap, y.event = .received c recv heap → ∃ rest, s.network.toServer c = recv :: rest := by
  cases Network.step_moved taken with
  | wrote c p => exact absurd rfl (unwritten c p)
  | read c x rest next => exact absurd rfl (unread c)
  | went _ e' event idle sent server taken' =>
      refine ⟨_, Network.Moved.serverTaken_went event sent, ⟨?_, ?_, fun c => ?_⟩, ?_⟩
      · exact known_step placed.known taken'
      · exact registered_step placed.registered taken'
      · exact (placed.place c).served_other placed.known placed.registered taken'
          fun recv heap he => idle c recv heap he
      · exact fun c recv heap he => absurd he (idle c recv heap)
  | served c heap recv rest next sent server taken' =>
      refine ⟨_, Network.Moved.serverTaken_went (Network.serverEvent_serve next) sent,
        ⟨?_, ?_, fun d => ?_⟩, ?_⟩
      · exact known_step placed.known taken'
      · exact registered_step placed.registered taken'
      · have place := placed.place d
        by_cases hd : d = c
        · subst hd
          rw [next] at place
          dsimp only
          rw [Function.update_self]
          exact place.served placed.known taken'
        · dsimp only
          rw [Function.update_of_ne hd]
          refine place.served_other placed.known placed.registered taken' fun recv' heap' he => ?_
          cases he
          exact hd rfl
      · rintro c' recv' heap' he
        cases he
        exact ⟨rest, next⟩

/-- What a step of the application does to the steps of the server: it adds one, or none. -/
theorem placed_step (placed : Placed (serverSteps h) s)
    (taken : s.step fuel ae = .ok (out, s')) :
    Placed (serverSteps (h ++ [⟨s, ae, out, s'⟩])) s' ∧
      (serverSteps [⟨s, ae, out, s'⟩] = [] ∨ ∃ y, serverSteps [⟨s, ae, out, s'⟩] = [y] ∧
        ∀ c recv heap, y.event = .received c recv heap →
          ∃ rest, s.network.toServer c = recv :: rest) := by
  rw [serverSteps_append]
  cases Application.step_moved taken with
  | served _ e o network server unwritten unread taken' =>
      obtain ⟨y, hy, hplaced, hevent⟩ := placed.served unwritten unread taken'
      have hsteps : serverSteps [⟨s, ae, some (e, o), ⟨network, s.clients⟩⟩] = [y] :=
        List.filterMap_cons_some hy
      rw [hsteps]
      exact ⟨hplaced, Or.inr ⟨y, rfl, hevent⟩⟩
  | silent c e process next =>
      refine ⟨?_, Or.inl rfl⟩
      rw [show serverSteps [⟨s, .client c e, none, _⟩] = [] from rfl, List.append_nil]
      refine placed.acts next rfl ?_ ?_ rfl
      · rw [Act.written, List.append_nil, Function.update_eq_self]
      · rw [Act.left, Function.update_eq_self]
  | wrote c e p process next =>
      refine ⟨?_, Or.inl rfl⟩
      rw [show serverSteps [⟨s, .client c e, some (.write c p, .wrote), _⟩] = [] from rfl,
        List.append_nil]
      refine placed.acts next rfl rfl ?_ rfl
      rw [Act.left, Function.update_eq_self]
  | read c e x rest process next incoming =>
      refine ⟨?_, Or.inl rfl⟩
      rw [show serverSteps [⟨s, .client c e, some (.read c, .read x), _⟩] = [] from rfl,
        List.append_nil]
      refine placed.acts next rfl ?_ ?_ rfl
      · rw [Act.written, List.append_nil, Function.update_eq_self]
      · rw [Act.left, incoming]
        rfl

theorem placed_of_run
    (run : Lts.Run (Application.step fuel) (.start credential disk input answer) h s) :
    Placed (serverSteps h) s := by
  induction run with
  | start => exact placed_start
  | next run taken ih => exact (placed_step ih taken).1

/-- A client is logged in at most once. -/
theorem Place.once {H : List Taken} {server : Server} {c : ConnId} {toServer : List Packet}
    {toClient : List Sent} {process : Process} (place : Place H server c toServer toClient process) :
    (loginsOn c H).length ≤ 1 := by
  have hfresh : loginsOn c H = [] → (loginsOn c H).length ≤ 1 := by
    intro h
    rw [h]
    exact Nat.zero_le 1
  have hsession : ∀ uid, LoggedIn H server c uid → (loginsOn c H).length ≤ 1 := by
    intro uid session
    obtain ⟨k, hlogin, -⟩ := session.login
    exact hlogin ▸ le_refl 1
  cases place with
  | resting d rests fresh noRequest noAnswer => exact hfresh fresh
  | asked d p awaits fresh request noAnswer => exact hfresh fresh
  | answered d hdr awaits denied fresh noRequest answer => exact hfresh fresh
  | admitted d hdr later awaits cmd status session noRequest answer => exact hsession _ session
  | chatting client session own => exact hsession _ session

/-- What holds wherever the server goes on with the request of a client. -/
theorem along_serverSteps {P : List Taken → Server → Event → Prop}
    (hP : ∀ h s e sent s',
      Lts.Run (Application.step fuel) (.start credential disk input answer) h s →
      step s.network.server e = .ok (sent, s') →
      (∀ c recv heap, e = .received c recv heap → ∃ rest, s.network.toServer c = recv :: rest) →
      P (serverSteps h) s.network.server e)
    (run : Lts.Run (Application.step fuel) (.start credential disk input answer) h s) :
    Lts.Along step (Server.start credential disk) (Lts.events (serverSteps h)) P := by
  induction run with
  | start =>
      intro h s e run hwhere
      exact absurd (List.prefix_nil.mp hwhere) (by simp)
  | @next h s s' ae out run taken ih =>
      have hrun := serverSteps_run (run.next taken)
      rw [serverSteps_append] at hrun ⊢
      rcases (placed_step (placed_of_run run) taken).2 with hnone | ⟨y, hone, hevent⟩
      · rw [hnone, List.append_nil]
        exact ih
      · rw [hone] at hrun ⊢
        obtain ⟨hbefore, htaken⟩ := hrun.before
        obtain ⟨-, hpre⟩ := hbefore.unique (serverSteps_run run) rfl
        rw [hpre] at htaken
        rw [Lts.events_append]
        exact ih.concat (serverSteps_run run)
          (hP h s y.event y.out y.post run htaken hevent)

theorem not_acts_of_login {server : Server} {recv : Mainhdr}
    (hcmd : recv.cmd = USR_CREATE ∨ recv.cmd = USR_LOGIN) : ¬ Acts server recv := by
  rcases hcmd with hcmd | hcmd <;>
    simp [Acts, hcmd, USR_CREATE, USR_LOGIN, CREATE_GROUP, INVITE, INVITE_RESP, SEND_CHAT, SEND_FILE]

/-- Logins on different connections, or as accounts that a `uint16_t` holds. -/
theorem logsInAsOne_of_once (hplaced : Placed (serverSteps h) s)
    (run : Lts.Run (Application.step fuel) (.start credential disk input answer) h s)
    (hsmall : ∀ p ∈ logins (serverSteps h), p.2 < 2 ^ 16) :
    Lts.Along step (Server.start credential disk) (Lts.events (serverSteps h)) LogsInAsOne := by
  intro h₁ s₁ e run₁ hprefix c recv heap k he hk
  obtain ⟨x, t, hsplit, rfl, hx⟩ := (serverSteps_run run).taken_at run₁ hprefix
  have hlogin : loginOf x = some (c, k) := by
    rw [loginOf, hx, he]
    exact congrArg (Option.map (c, ·)) hk
  have hlogins : logins (serverSteps h) = logins h₁ ++ (c, k) :: logins t := by
    rw [hsplit, logins, List.filterMap_append, List.filterMap_cons_some hlogin]
    rfl
  refine ⟨hsmall (c, k) (hlogins ▸ List.mem_append_right _ List.mem_cons_self), ?_⟩
  intro p hp hpc
  have hone := (hplaced.place c).once
  have hmem : p ∈ (logins h₁).filter fun p => p.1 = c :=
    List.mem_filter.mpr ⟨hp, decide_eq_true hpc⟩
  have hmem' : (c, k) ∈ ((c, k) :: logins t).filter fun p => p.1 = c :=
    List.mem_filter.mpr ⟨List.mem_cons_self, decide_eq_true rfl⟩
  rw [loginsOn, hlogins, List.filter_append, List.length_append] at hone
  have hpos := List.length_pos_of_mem hmem
  have hpos' := List.length_pos_of_mem hmem'
  omega

/-- In every run of the application, whatever is typed and however the threads interleave, the
requests are truthful, their effects are bound to the session that they come from, and as long as
the accounts have a `uint16_t` no use of a freed struct is possible. -/
theorem clients_genuine (fuel : Nat) (credential : CredentialFile) (disk : Disk)
    (input : ConnId → List Byte) (answer : ConnId → Byte) (es : List ApplicationEvent) :
    Lts.Throughout (Application.step fuel) (.start credential disk input answer) es
      (Genuine credential disk) := by
  intro h s run _
  have hplaced := placed_of_run run
  refine ⟨?_, ?_, fun c => (hplaced.place c).once, ?_, ?_⟩
  · refine along_serverSteps (fun h s e sent s' run taken hevent => ?_) run
    cases e with
    | accept => trivial
    | closed c => trivial
    | received c recv heap =>
        obtain ⟨rest, hnext⟩ := hevent c recv heap rfl
        have place := (placed_of_run run).place c
        rw [hnext] at place
        rcases place.session with hcmd | hcmd | session
        · exact Or.inl hcmd
        · exact Or.inr (Or.inl hcmd)
        · exact Or.inr (Or.inr (Or.inl (session.hasLoggedIn (step_received taken).1)))
  · refine along_serverSteps (fun h s e sent s' run taken hevent => ?_) run
    rw [boundToSession_iff]
    rintro - c recv heap rfl hacts
    obtain ⟨rest, hnext⟩ := hevent c recv heap rfl
    have place := (placed_of_run run).place c
    rw [hnext] at place
    rcases place.session with hcmd | hcmd | session
    · exact absurd hacts (not_acts_of_login (Or.inl hcmd))
    · exact absurd hacts (not_acts_of_login (Or.inr hcmd))
    · exact session.hasLoggedIn (step_received taken).1
  · intro c client hclient
    have place := hplaced.place c
    rw [hclient] at place
    cases place with
    | chatting _ session own => exact session
  · intro hsmall
    exact noStale_of_logsInAsOne credential disk (logsInAsOne_of_once hplaced run hsmall)
      (serverSteps h) s.network.server (serverSteps_run run) (List.prefix_refl _)

end Runs

end GroupChat
