import GroupChat.Server.History

/-!
# The registry of users online

`active_sockets` maps the account of a login to the connection it came on. A login puts one
key, and the end of a connection removes one key, the uid that is in its struct then. Two
things can go wrong: an entry of the closed connection stays (`noStale_iff` says when it does
not), or the entry that goes is another connection's (`noneLost_iff`).
-/

namespace GroupChat

open Posix

/-- Every connection that a lookup finds is open. -/
def NoStale (_ : List Taken) (s : Server) : Prop :=
  ∀ key c, s.activeSockets.lookup key = some c → (s.uidOf c).isSome

/-- A connection that closes is in the registry under the uid in its struct at most. -/
def ClosesWhole (_ : List Taken) (s : Server) (e : Event) : Prop :=
  ∀ c, e = .closed c → ∀ key, s.activeSockets.lookup key = some c →
    ∃ uid, s.uidOf c = some uid ∧ 0 < uid ∧ key = uid.toNat

/-- The connection that has logged in last as this account. -/
def lastLoginAs (h : List Taken) (k : Int) : Option ConnId :=
  (((logins h).filter fun p => p.2 = k).getLast?).map Prod.fst

/-- The account that this connection has logged in as last. -/
def lastLoginOf (h : List Taken) (c : ConnId) : Option Int :=
  (((logins h).filter fun p => p.1 = c).getLast?).map Prod.snd

/-- `c` is the last connection to have logged in as `k`, and has not logged in as anyone else
since. -/
def LoggedInAs (h : List Taken) (c : ConnId) (k : Int) : Prop :=
  lastLoginAs h k = some c ∧ lastLoginOf h c = some k

/-- A lookup finds every open connection under the account it is logged in as. -/
def NoneLost (h : List Taken) (s : Server) : Prop :=
  ∀ c k, (s.uidOf c).isSome → LoggedInAs h c k → s.activeSockets.lookup k.toNat = some c

/-- No other open connection is logged in as the uid in the struct of a connection that
closes. -/
def ClosesOwn (h : List Taken) (s : Server) (e : Event) : Prop :=
  ∀ d uid, e = .closed d → s.uidOf d = some uid → 0 < uid →
    ∀ c, c ≠ d → (s.uidOf c).isSome → ¬ LoggedInAs h c uid.toNat

/-! ## What a step does to the sessions -/

section Sessions

variable {s : Server}

theorem uidOf_accept {c : ConnId} (hc : c < s.clients.length) :
    ({ s with clients := s.clients ++ [some freshThread] } : Server).uidOf c = s.uidOf c := by
  rw [Server.uidOf, Server.thread, List.getElem?_append_left hc, Server.uidOf, Server.thread]

theorem lt_of_uidOf {c : ConnId} (h : (s.uidOf c).isSome) : c < s.clients.length := by
  by_contra hge
  rw [Server.uidOf, Server.thread, List.getElem?_eq_none (Nat.le_of_not_lt hge)] at h
  cases h

theorem uidOf_closed {d : ConnId} {me : ClientThread} (hme : s.thread d = some me) (c : ConnId) :
    (onClosed s d me).uidOf c = if c = d then none else s.uidOf c := by
  have hthread := s.thread_set hme none c
  change Option.map _ (({ s with clients := s.clients.set d none } : Server).thread c) = _
  rw [hthread]
  by_cases h : c = d
  · rw [if_pos h, if_pos h]
    rfl
  · rw [if_neg h, if_neg h]
    rfl

/-- Closing a connection removes the uid in its struct from the registry and nothing else. -/
theorem lookup_closed {d : ConnId} {me : ClientThread} (key : Nat) :
    (onClosed s d me).activeSockets.lookup key =
      if 0 < me.data.uid ∧ key = me.data.uid.toNat then none else s.activeSockets.lookup key := by
  rw [onClosed]
  by_cases hpos : 0 < me.data.uid
  · simp only [if_pos (show me.data.uid > 0 from hpos)]
    by_cases hkey : key = me.data.uid.toNat
    · rw [if_pos ⟨hpos, hkey⟩, hkey, AList.lookup_erase]
    · rw [if_neg (fun h => hkey h.2), AList.lookup_erase_ne hkey]
  · simp only [if_neg (show ¬ me.data.uid > 0 from hpos)]
    rw [if_neg (fun h => hpos h.1)]

end Sessions

theorem loginResult_pos {s : Server} {recv : Mainhdr} {k : Int} (h : loginResult s recv = some k) :
    0 < k := by
  rw [loginResult] at h
  split at h
  · split at h
    · split at h
      · cases h
        assumption
      · cases h
    · cases h
  · cases h

theorem logins_pos {h : List Taken} {p : ConnId × Int} (hp : p ∈ logins h) : 0 < p.2 := by
  obtain ⟨x, -, hx⟩ := List.mem_filterMap.mp hp
  rw [loginOf] at hx
  split at hx
  · obtain ⟨k, hk, rfl⟩ := Option.map_eq_some_iff.mp hx
    exact loginResult_pos hk
  · cases hx

/-! ## No stale entry -/

theorem noStale_closed_iff {h h' : List Taken} {s : Server} {d : ConnId} {me : ClientThread}
    (hme : s.thread d = some me) (hno : NoStale h s) :
    NoStale h' (onClosed s d me) ↔ ClosesWhole h s (.closed d) := by
  have huid : s.uidOf d = some me.data.uid := Server.uidOf_of_thread hme
  constructor
  · intro hclosed c he key hkey
    cases he
    by_contra hleft
    have hlookup : (onClosed s d me).activeSockets.lookup key = some d := by
      rw [lookup_closed, if_neg]
      · exact hkey
      · rintro ⟨hpos, hsame⟩
        exact hleft ⟨me.data.uid, huid, hpos, hsame⟩
    have hopen := hclosed key d hlookup
    rw [uidOf_closed hme, if_pos rfl] at hopen
    cases hopen
  · intro hwhole key c hkey
    rw [lookup_closed] at hkey
    split at hkey
    · cases hkey
    · rename_i hother
      have hne : c ≠ d := by
        rintro rfl
        obtain ⟨uid, huid', hpos, hsame⟩ := hwhole c rfl key hkey
        rw [huid] at huid'
        cases huid'
        exact hother ⟨hpos, hsame⟩
      rw [uidOf_closed hme, if_neg hne]
      exact hno key c hkey

/-- One step leaves no stale entry exactly when a connection that closes in it closes whole. -/
theorem noStale_step_iff {h h' : List Taken} {s s' : Server} {e : Event} {sent : List Sent}
    (hno : NoStale h s) (hstep : step s e = .ok (sent, s')) :
    NoStale h' s' ↔ ClosesWhole h s e := by
  cases e with
  | accept =>
      rcases step_accept hstep with ⟨rfl, rfl⟩
      refine iff_of_true ?_ (fun c he => by cases he)
      intro key c hkey
      have hopen := hno key c hkey
      rw [uidOf_accept (lt_of_uidOf hopen)]
      exact hopen
  | closed d =>
      obtain ⟨me, hme, rfl, rfl⟩ := step_closed hstep
      exact noStale_closed_iff hme hno
  | received c recv heap =>
      refine iff_of_true ?_ (fun c he => by cases he)
      rcases (step_received hstep).2.sessions with ⟨k, -, hsockets, huid, -⟩ | ⟨-, same⟩
      · intro key d hkey
        rw [huid]
        by_cases hd : d = c
        · rw [if_pos hd]
          rfl
        · rw [if_neg hd]
          rw [hsockets] at hkey
          by_cases hk : key = k.toNat
          · rw [hk, AList.lookup_insert] at hkey
            exact absurd (Option.some.inj hkey).symm hd
          · rw [AList.lookup_insert_ne hk] at hkey
            exact hno key d hkey
      · intro key d hkey
        rw [same.activeSockets] at hkey
        rw [same.uidOf]
        exact hno key d hkey

/-- The registry has no stale entry throughout a run exactly when every connection that closes
in it is in the registry under the uid in its struct at most. -/
theorem noStale_iff (credential : CredentialFile) (disk : Disk) (es : List Event) :
    Lts.Throughout step (Server.start credential disk) es NoStale ↔
      Lts.Along step (Server.start credential disk) es fun h s e =>
        (∃ sent s', step s e = .ok (sent, s')) → ClosesWhole h s e := by
  have hstart : NoStale [] (Server.start credential disk) := by
    intro key c hkey
    cases hkey
  apply Lts.throughout_iff_along hstart hstart
  · intro h s e sent s' _ hno hstep
    exact noStale_step_iff hno hstep
  · intro h s e sent s' _ hno hwhole hstep
    exact (noStale_step_iff hno hstep).mpr hwhole

/-- A connection that logs in as `a` and then as `b`, and closes. -/
def loginTwice : List Event :=
  [.accept, .received 0 (loginPacket 97) (0, 0), .received 0 (loginPacket 98) (0, 0), .closed 0]

theorem stale_entry :
    ¬ Lts.Throughout step (Server.start twoAccounts ∅) loginTwice NoStale := by
  intro hno
  have hrun : Lts.returns (Lts.execute step loginTwice [] (Server.start twoAccounts ∅))
      (fun r => r.2.activeSockets.lookup 1 = some 0 ∧ r.2.uidOf 0 = none) = true := by
    decide +kernel
  obtain ⟨⟨h, s⟩, hexec, htest⟩ := Lts.exists_of_returns hrun
  obtain ⟨run, hevents⟩ := Lts.Run.start.of_execute hexec
  obtain ⟨hlookup, hclosed⟩ := of_decide_eq_true htest
  have hopen := hno h s run (hevents ▸ List.prefix_refl _) 1 0 hlookup
  rw [hclosed] at hopen
  cases hopen

/-! ## No live user is lost -/

section LastLogin

variable {h : List Taken} {x : Taken} {c : ConnId} {k : Int}

theorem logins_of_none (hx : loginOf x = none) : logins (h ++ [x]) = logins h := by
  rw [logins_append, hx]
  exact List.append_nil _

theorem logins_of_some (hx : loginOf x = some (c, k)) :
    logins (h ++ [x]) = logins h ++ [(c, k)] := by
  rw [logins_append, hx]
  rfl

theorem loggedInAs_of_none (hx : loginOf x = none) (c : ConnId) (k : Int) :
    LoggedInAs (h ++ [x]) c k ↔ LoggedInAs h c k := by
  rw [LoggedInAs, LoggedInAs, lastLoginAs, lastLoginOf, logins_of_none hx]
  rfl

theorem lastLoginAs_of_some (hx : loginOf x = some (c, k)) (k' : Int) :
    lastLoginAs (h ++ [x]) k' = if k = k' then some c else lastLoginAs h k' := by
  rw [lastLoginAs, logins_of_some hx, List.filter_append]
  by_cases hk : k = k'
  · rw [if_pos hk, List.filter_cons_of_pos (by simpa using hk), List.filter_nil,
      List.getLast?_concat]
    rfl
  · rw [if_neg hk, List.filter_cons_of_neg (by simpa using hk), List.filter_nil, List.append_nil]
    rfl

theorem lastLoginOf_of_some (hx : loginOf x = some (c, k)) (c' : ConnId) :
    lastLoginOf (h ++ [x]) c' = if c = c' then some k else lastLoginOf h c' := by
  rw [lastLoginOf, logins_of_some hx, List.filter_append]
  by_cases hc : c = c'
  · rw [if_pos hc, List.filter_cons_of_pos (by simpa using hc), List.filter_nil,
      List.getLast?_concat]
    rfl
  · rw [if_neg hc, List.filter_cons_of_neg (by simpa using hc), List.filter_nil, List.append_nil]
    rfl

/-- After a login on `c` as `k`, another connection is logged in as it was, but not as `k`. -/
theorem loggedInAs_of_some (hx : loginOf x = some (c, k)) {c' : ConnId} {k' : Int}
    (hlogged : LoggedInAs (h ++ [x]) c' k') :
    (c' = c ∧ k' = k) ∨ (c' ≠ c ∧ k' ≠ k ∧ LoggedInAs h c' k') := by
  obtain ⟨has, hof⟩ := hlogged
  rw [lastLoginAs_of_some hx] at has
  rw [lastLoginOf_of_some hx] at hof
  by_cases hc : c = c'
  · rw [if_pos hc] at hof
    exact Or.inl ⟨hc.symm, (Option.some.inj hof).symm⟩
  · rw [if_neg hc] at hof
    by_cases hk : k = k'
    · rw [if_pos hk] at has
      exact absurd (Option.some.inj has) hc
    · rw [if_neg hk] at has
      exact Or.inr ⟨Ne.symm hc, Ne.symm hk, has, hof⟩

theorem mem_logins_of_loggedInAs (hlogged : LoggedInAs h c k) : (c, k) ∈ logins h := by
  obtain ⟨⟨c', k'⟩, hlast, hc⟩ := Option.map_eq_some_iff.mp hlogged.1
  obtain ⟨hmem, hk⟩ := List.mem_filter.mp (List.mem_of_getLast? hlast)
  cases hc
  cases of_decide_eq_true hk
  exact hmem

end LastLogin

/-- No live user is lost, and the connections that have logged in are known. -/
structure Sound (h : List Taken) (s : Server) : Prop where
  noneLost : NoneLost h s
  known : ∀ p ∈ logins h, p.1 < s.clients.length

theorem noneLost_closed_iff {h : List Taken} {x : Taken} {s : Server} {d : ConnId}
    {me : ClientThread} (hme : s.thread d = some me) (hx : loginOf x = none)
    (hnone : NoneLost h s) :
    NoneLost (h ++ [x]) (onClosed s d me) ↔ ClosesOwn h s (.closed d) := by
  have huid : s.uidOf d = some me.data.uid := Server.uidOf_of_thread hme
  constructor
  · intro hclosed d' uid he huid' hpos c hne hopen hlogged
    cases he
    rw [huid] at huid'
    cases huid'
    have hopen' : ((onClosed s d me).uidOf c).isSome := by
      rw [uidOf_closed hme, if_neg hne]
      exact hopen
    have hlookup := hclosed c _ hopen' ((loggedInAs_of_none hx c _).mpr hlogged)
    rw [lookup_closed, if_pos ⟨hpos, rfl⟩] at hlookup
    cases hlookup
  · intro hown c k hopen hlogged
    rw [loggedInAs_of_none hx] at hlogged
    rw [uidOf_closed hme] at hopen
    have hne : c ≠ d := by
      rintro rfl
      rw [if_pos rfl] at hopen
      cases hopen
    rw [if_neg hne] at hopen
    have hk := logins_pos (mem_logins_of_loggedInAs hlogged)
    rw [lookup_closed, if_neg]
    · exact hnone c k hopen hlogged
    · rintro ⟨hpos, hsame⟩
      apply hown d me.data.uid rfl huid hpos c hne hopen
      have hkuid : k = (me.data.uid.toNat : Int) := by
        simp only at hk
        omega
      exact hkuid ▸ hlogged

theorem noneLost_login {h : List Taken} {x : Taken} {s s' : Server} {c : ConnId} {k : Int}
    (hx : loginOf x = some (c, k)) (hpos : 0 < k)
    (hsockets : s'.activeSockets = s.activeSockets.insert k.toNat c)
    (huid : ∀ d, s'.uidOf d = if d = c then some (UInt16.ofInt k) else s.uidOf d)
    (hnone : NoneLost h s) : NoneLost (h ++ [x]) s' := by
  intro c' k' hopen hlogged
  rw [hsockets]
  rcases loggedInAs_of_some hx hlogged with ⟨rfl, rfl⟩ | ⟨hc, hk, hlogged⟩
  · exact AList.lookup_insert _
  · have hpos' := logins_pos (mem_logins_of_loggedInAs hlogged)
    have hkey : k'.toNat ≠ k.toNat := by
      simp only at hpos'
      omega
    rw [AList.lookup_insert_ne hkey]
    rw [huid, if_neg hc] at hopen
    exact hnone c' k' hopen hlogged

/-- One step loses no live user exactly when a connection that closes in it removes no other
connection's key. -/
theorem noneLost_step_iff {h : List Taken} {s s' : Server} {e : Event} {sent : List Sent}
    (hsound : Sound h s) (hstep : step s e = .ok (sent, s')) :
    NoneLost (h ++ [⟨s, e, sent, s'⟩]) s' ↔ ClosesOwn h s e := by
  cases e with
  | accept =>
      rcases step_accept hstep with ⟨rfl, rfl⟩
      refine iff_of_true ?_ (fun d uid he => by cases he)
      intro c k _ hlogged
      have hlogged' := (loggedInAs_of_none rfl c k).mp hlogged
      have hlt := hsound.known _ (mem_logins_of_loggedInAs hlogged')
      rename_i hopen
      rw [uidOf_accept hlt] at hopen
      exact hsound.noneLost c k hopen hlogged'
  | closed d =>
      obtain ⟨me, hme, rfl, rfl⟩ := step_closed hstep
      exact noneLost_closed_iff hme rfl hsound.noneLost
  | received c recv heap =>
      refine iff_of_true ?_ (fun d uid he => by cases he)
      rcases (step_received hstep).2.sessions with ⟨k, hk, hsockets, huid, -⟩ | ⟨hnone, same⟩
      · exact noneLost_login (loginOf_of_some hk) (loginResult_pos hk) hsockets huid
          hsound.noneLost
      · intro c' k' hopen hlogged
        rw [loggedInAs_of_none (loginOf_of_none hnone)] at hlogged
        rw [same.uidOf] at hopen
        rw [same.activeSockets]
        exact hsound.noneLost c' k' hopen hlogged

theorem length_clients_le {s s' : Server} {e : Event} {sent : List Sent}
    (hstep : step s e = .ok (sent, s')) : s.clients.length ≤ s'.clients.length := by
  cases e with
  | accept =>
      rcases step_accept hstep with ⟨rfl, rfl⟩
      rw [List.length_append]
      exact Nat.le_add_right _ _
  | closed d =>
      obtain ⟨me, -, rfl, rfl⟩ := step_closed hstep
      exact List.length_set.ge
  | received c recv heap =>
      rcases (step_received hstep).2.sessions with ⟨k, -, -, -, hcount⟩ | ⟨-, same⟩
      · exact hcount.ge
      · exact same.count.ge

/-- The connections that have logged in stay known. -/
theorem known_step {h : List Taken} {s s' : Server} {e : Event} {sent : List Sent}
    (hknown : ∀ p ∈ logins h, p.1 < s.clients.length) (hstep : step s e = .ok (sent, s')) :
    ∀ p ∈ logins (h ++ [⟨s, e, sent, s'⟩]), p.1 < s'.clients.length := by
  intro p hp
  rw [logins_append] at hp
  rcases List.mem_append.mp hp with hp | hp
  · refine Nat.lt_of_lt_of_le (hknown p hp) ?_
    exact length_clients_le hstep
  · cases e with
    | accept => exact absurd hp List.not_mem_nil
    | closed d => exact absurd hp List.not_mem_nil
    | received c recv heap =>
        obtain ⟨hopen, -⟩ := step_received hstep
        rw [Option.mem_toList] at hp
        change Option.map (c, ·) (loginResult s recv.toMainhdr) = some p at hp
        obtain ⟨k, -, rfl⟩ := Option.map_eq_some_iff.mp hp
        exact Nat.lt_of_lt_of_le (lt_of_uidOf hopen) (length_clients_le hstep)

/-- The registry loses no live user throughout a run exactly when no connection that closes in it
removes the key of another one. -/
theorem noneLost_iff (credential : CredentialFile) (disk : Disk) (es : List Event) :
    Lts.Throughout step (Server.start credential disk) es NoneLost ↔
      Lts.Along step (Server.start credential disk) es fun h s e =>
        (∃ sent s', step s e = .ok (sent, s')) → ClosesOwn h s e := by
  have hnone : NoneLost [] (Server.start credential disk) := by
    intro c k hopen _
    cases hopen
  have hstart : Sound [] (Server.start credential disk) :=
    ⟨hnone, fun p hp => absurd hp List.not_mem_nil⟩
  apply Lts.throughout_iff_along hstart hnone
  · intro h s e sent s' _ hsound hstep
    exact noneLost_step_iff hsound hstep
  · intro h s e sent s' _ hsound hown hstep
    exact ⟨(noneLost_step_iff hsound hstep).mpr hown, known_step hsound.known hstep⟩

/-- Two connections log in as `a`, and the first one closes. -/
def sameUserTwice : List Event :=
  [.accept, .accept, .received 0 (loginPacket 97) (0, 0), .received 1 (loginPacket 97) (0, 0),
    .closed 0]

theorem live_user_lost :
    ¬ Lts.Throughout step (Server.start twoAccounts ∅) sameUserTwice NoneLost := by
  intro hnone
  have hrun : Lts.returns (Lts.execute step sameUserTwice [] (Server.start twoAccounts ∅))
      (fun r => r.2.activeSockets.lookup 1 = none ∧ (r.2.uidOf 1).isSome = true ∧
        lastLoginAs r.1 1 = some 1 ∧ lastLoginOf r.1 1 = some 1) = true := by
    decide +kernel
  obtain ⟨⟨h, s⟩, hexec, htest⟩ := Lts.exists_of_returns hrun
  obtain ⟨run, hevents⟩ := Lts.Run.start.of_execute hexec
  obtain ⟨hlookup, hopen, has, hof⟩ := of_decide_eq_true htest
  have hfound := hnone h s run (hevents ▸ List.prefix_refl _) 1 1 hopen ⟨has, hof⟩
  exact absurd (hlookup.symm.trans hfound) (by decide)

/-! ## One account for each connection -/

/-- A login is as an account that a `uint16_t` holds, and as the one that all earlier logins on
its connection were as. -/
def LogsInAsOne (h : List Taken) (s : Server) (e : Event) : Prop :=
  ∀ c recv heap k, e = .received c recv heap → loginResult s recv.toMainhdr = some k →
    k < 2 ^ 16 ∧ ∀ p ∈ logins h, p.1 = c → p.2 = k

/-- What such logins keep: the struct of an open connection holds its account, and the registry
maps only accounts that have logged in on the connection to it. -/
structure OneAccount (h : List Taken) (s : Server) : Prop where
  noStale : NoStale h s
  known : ∀ p ∈ logins h, p.1 < s.clients.length
  small : ∀ p ∈ logins h, p.2 < 2 ^ 16
  session : ∀ p ∈ logins h, (s.uidOf p.1).isSome → s.uidOf p.1 = some (UInt16.ofInt p.2)
  registered : ∀ key c, s.activeSockets.lookup key = some c →
    ∃ k, (c, k) ∈ logins h ∧ key = k.toNat

theorem OneAccount.closesWhole {h : List Taken} {s : Server} (hone : OneAccount h s) (e : Event) :
    ClosesWhole h s e := by
  intro c _ key hkey
  obtain ⟨k, hmem, rfl⟩ := hone.registered key c hkey
  have hpos := logins_pos hmem
  have hsmall := hone.small _ hmem
  have htoNat := toNat_ofInt hpos hsmall
  refine ⟨UInt16.ofInt k, hone.session _ hmem (hone.noStale _ c hkey), ?_, htoNat.symm⟩
  apply UInt16.lt_iff_toNat_lt.mpr
  rw [htoNat]
  simp only [UInt16.toNat_zero] at hpos ⊢
  omega

/-- A step without a login keeps it if it leaves the sessions alone. -/
theorem OneAccount.of_same {h : List Taken} {x : Taken} {s s' : Server} (hone : OneAccount h s)
    (hx : loginOf x = none) (same : SameSessions s s') (hno : NoStale (h ++ [x]) s') :
    OneAccount (h ++ [x]) s' where
  noStale := hno
  known := by
    rw [logins_of_none hx, same.count]
    exact hone.known
  small := by
    rw [logins_of_none hx]
    exact hone.small
  session := by
    intro p hp hopen
    rw [logins_of_none hx] at hp
    rw [same.uidOf] at hopen ⊢
    exact hone.session p hp hopen
  registered := by
    intro key c hkey
    rw [same.activeSockets] at hkey
    rw [logins_of_none hx]
    exact hone.registered key c hkey

theorem OneAccount.step {h : List Taken} {s s' : Server} {e : Event} {sent : List Sent}
    (hone : OneAccount h s) (hlogs : LogsInAsOne h s e) (hstep : step s e = .ok (sent, s')) :
    OneAccount (h ++ [⟨s, e, sent, s'⟩]) s' := by
  have hno : NoStale (h ++ [⟨s, e, sent, s'⟩]) s' :=
    (noStale_step_iff hone.noStale hstep).mpr (hone.closesWhole e)
  have hknown := known_step hone.known hstep
  cases e with
  | accept =>
      rcases step_accept hstep with ⟨rfl, rfl⟩
      refine ⟨hno, hknown, ?_, ?_, ?_⟩
      · rw [logins_of_none rfl]
        exact hone.small
      · intro p hp hopen
        rw [logins_of_none rfl] at hp
        rw [uidOf_accept (hone.known p hp)] at hopen ⊢
        exact hone.session p hp hopen
      · rw [logins_of_none rfl]
        exact hone.registered
  | closed d =>
      obtain ⟨me, hme, rfl, rfl⟩ := step_closed hstep
      refine ⟨hno, hknown, ?_, ?_, ?_⟩
      · rw [logins_of_none rfl]
        exact hone.small
      · intro p hp hopen
        rw [logins_of_none rfl] at hp
        rw [uidOf_closed hme] at hopen ⊢
        split at hopen
        · cases hopen
        · rename_i hne
          rw [if_neg hne]
          exact hone.session p hp hopen
      · intro key c hkey
        rw [lookup_closed] at hkey
        split at hkey
        · cases hkey
        · rw [logins_of_none rfl]
          exact hone.registered key c hkey
  | received c recv heap =>
      rcases (step_received hstep).2.sessions with ⟨k, hk, hsockets, huid, -⟩ | ⟨hnone, same⟩
      · obtain ⟨hsmall, hsame⟩ := hlogs c recv heap k rfl hk
        have hlogins : logins (h ++ [⟨s, .received c recv heap, sent, s'⟩]) = logins h ++ [(c, k)] :=
          logins_of_some (loginOf_of_some hk)
        refine ⟨hno, hknown, ?_, ?_, ?_⟩
        · intro p hp
          rw [hlogins] at hp
          rcases List.mem_append.mp hp with hp | hp
          · exact hone.small p hp
          · cases List.mem_singleton.mp hp
            exact hsmall
        · intro p hp hopen
          rw [hlogins] at hp
          rw [huid] at hopen ⊢
          rcases List.mem_append.mp hp with hp | hp
          · by_cases hpc : p.1 = c
            · rw [if_pos hpc, hsame p hp hpc]
            · rw [if_neg hpc] at hopen ⊢
              exact hone.session p hp hopen
          · cases List.mem_singleton.mp hp
            exact if_pos rfl
        · intro key d hkey
          rw [hlogins]
          rw [hsockets] at hkey
          by_cases hkey' : key = k.toNat
          · rw [hkey', AList.lookup_insert] at hkey
            cases hkey
            exact ⟨k, List.mem_append_right _ List.mem_cons_self, hkey'⟩
          · rw [AList.lookup_insert_ne hkey'] at hkey
            obtain ⟨j, hmem, hj⟩ := hone.registered key d hkey
            exact ⟨j, List.mem_append_left _ hmem, hj⟩
      · exact hone.of_same (loginOf_of_none hnone) same hno

/-- As long as every connection logs in as one account only, the registry has no stale entry. -/
theorem noStale_of_logsInAsOne (credential : CredentialFile) (disk : Disk) {es : List Event}
    (hlogs : Lts.Along step (Server.start credential disk) es LogsInAsOne) :
    Lts.Throughout step (Server.start credential disk) es NoStale := by
  have hstart : OneAccount [] (Server.start credential disk) := by
    refine ⟨?_, ?_, ?_, ?_, ?_⟩
    · intro key c hkey
      cases hkey
    · exact fun p hp => absurd hp List.not_mem_nil
    · exact fun p hp => absurd hp List.not_mem_nil
    · exact fun p hp => absurd hp List.not_mem_nil
    · intro key c hkey
      cases hkey
  have hone : Lts.Throughout step (Server.start credential disk) es OneAccount := by
    apply Lts.throughout_of_along hstart _ hlogs
    intro h s e sent s' _ hone hlogs hstep
    exact hone.step hlogs hstep
  intro h s run hes
  exact (hone h s run hes).noStale

end GroupChat
