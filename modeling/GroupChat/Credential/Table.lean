import GroupChat.Credential.Ledger

/-!
# What the credential file is for

An `AccountTable` is a list of names and passwords in which the number of an account is its place.
The comparisons of the source look at as many bytes as the stored word has, so a name is taken when
a stored one begins it, and a login gets the first account whose name and password begin those that
were typed. In a table that has grown by registrations no name begins a later one, so whoever
registers is found again (`number_of_registered`).

The table is what a ledger holds, without the text of the file.
-/

namespace GroupChat

open Posix

instance (s : List Byte) : Decidable (Plain s) := inferInstanceAs (Decidable (_ ∧ _))

/-- A name and a password that the file can hold. -/
structure Credentials where
  username : List Byte
  password : List Byte
  username_ne : username ≠ []
  username_plain : Plain username
  password_plain : Plain password
  username_lt : username.length < MAX_CHAR_USERID
  password_lt : password.length < MAX_CHAR_USERPASS

abbrev AccountTable := List (List Byte × List Byte)

inductive AccountRequest
  | register (c : Credentials)
  | login (c : Credentials)

namespace AccountTable

/-- A stored name begins this one. -/
def taken (T : AccountTable) (name : List Byte) : Bool := T.any fun a => decide (a.1 <+: name)

/-- The first account whose name and password begin these. -/
def number (T : AccountTable) (c : Credentials) : Option Nat :=
  (T.findIdx? fun a => decide (a.1 <+: c.username ∧ a.2 <+: c.password)).map (· + 1)

/-- The number that a request is answered with, unless it is refused. -/
def step (T : AccountTable) : AccountRequest → Except Empty (Option Nat × AccountTable)
  | .register c =>
    if T.taken c.username then .ok (none, T)
    else .ok (some (T.length + 1), T ++ [(c.username, c.password)])
  | .login c => .ok (T.number c, T)

/-- The lines of the accounts. -/
def content (T : AccountTable) : List Byte :=
  (T.zipIdx 1).flatMap fun a => credentialLine a.2 a.1.1 a.1.2

abbrev Taken := Lts.Taken AccountTable AccountRequest (Option Nat)

/-! ## Runs -/

variable {T₀ T : AccountTable} {h : List Taken}

/-- No name begins a later one. -/
def Unshadowed (T : AccountTable) : Prop := T.Pairwise fun a b => ¬ a.1 <+: b.1

theorem taken_iff {name : List Byte} : T.taken name = true ↔ ∃ a ∈ T, a.1 <+: name := by
  simp [taken]

/-- What a step can do. -/
theorem step_cases {T' : AccountTable} {r : AccountRequest} {out : Option Nat}
    (h : T.step r = .ok (out, T')) :
    (∃ c, r = .register c ∧ T.taken c.username = false ∧ out = some (T.length + 1) ∧
      T' = T ++ [(c.username, c.password)]) ∨
    (T' = T ∧ ((∃ c, r = .register c ∧ out = none) ∨ ∃ c, r = .login c ∧ out = T.number c)) := by
  cases r with
  | register c =>
      rw [step] at h
      by_cases htaken : T.taken c.username = true
      · rw [if_pos htaken] at h
        cases h
        exact Or.inr ⟨rfl, Or.inl ⟨c, rfl, rfl⟩⟩
      · rw [if_neg htaken] at h
        cases h
        exact Or.inl ⟨c, rfl, Bool.eq_false_of_not_eq_true htaken, rfl, rfl⟩
  | login c =>
      cases h
      exact Or.inr ⟨rfl, Or.inr ⟨c, rfl, rfl⟩⟩

theorem unshadowed_of_run (hstart : T₀.Unshadowed) (run : Lts.Run step T₀ h T) : T.Unshadowed := by
  induction run with
  | start => exact hstart
  | next run taken ih =>
      rcases step_cases taken with ⟨c, -, hfree, -, rfl⟩ | ⟨rfl, -⟩
      · refine List.pairwise_append.mpr ⟨ih, List.pairwise_singleton _ _, ?_⟩
        intro a ha b hb hprefix
        obtain rfl := List.mem_singleton.mp hb
        have htaken := taken_iff.mpr ⟨a, ha, hprefix⟩
        rw [hfree] at htaken
        cases htaken
      · exact ih

/-- An account stays at its place. -/
theorem kept_of_run (run : Lts.Run step T₀ h T) {x : Taken} (hx : x ∈ h) {c : Credentials} {k : Nat}
    (hevent : x.event = .register c) (hout : x.out = some k) :
    ∃ i, k = i + 1 ∧ T[i]? = some (c.username, c.password) := by
  induction run with
  | start => exact absurd hx List.not_mem_nil
  | @next h T T' r out run taken ih =>
      rcases List.mem_append.mp hx with hx | hx
      · obtain ⟨i, rfl, hi⟩ := ih hx
        refine ⟨i, rfl, ?_⟩
        rcases step_cases taken with ⟨c', -, -, -, rfl⟩ | ⟨rfl, -⟩
        · rw [List.getElem?_append_left (List.getElem?_eq_some_iff.mp hi).1]
          exact hi
        · exact hi
      · obtain rfl := List.mem_singleton.mp hx
        cases hevent
        rcases step_cases taken with ⟨c', hc', -, hnumber, rfl⟩ | ⟨-, ⟨c', -, hnone⟩ | ⟨c', hc', -⟩⟩
        · cases hc'
          obtain rfl := Option.some.inj (hout.symm.trans hnumber)
          exact ⟨T.length, rfl, List.getElem?_concat_length⟩
        · exact absurd (hout.symm.trans hnone) (by simp)
        · cases hc'

theorem number_of_unshadowed (hpair : T.Unshadowed) {c : Credentials} {i : Nat}
    (hi : T[i]? = some (c.username, c.password)) : T.number c = some (i + 1) := by
  obtain ⟨hlt, hget⟩ := List.getElem?_eq_some_iff.mp hi
  have hfind : T.findIdx? (fun a => decide (a.1 <+: c.username ∧ a.2 <+: c.password)) = some i := by
    rw [List.findIdx?_eq_some_iff_getElem]
    refine ⟨hlt, ?_, fun j hj => ?_⟩
    · rw [hget]
      exact decide_eq_true ⟨List.prefix_refl _, List.prefix_refl _⟩
    · have hno := List.pairwise_iff_getElem.mp hpair j i (hj.trans hlt) hlt hj
      rw [hget] at hno
      simpa using fun hprefix => absurd hprefix hno
  rw [number, hfind]
  rfl

/-- Whoever has registered is logged in as the account that was made. -/
theorem number_of_registered {y : Taken} {h' : List Taken} (hstart : T₀.Unshadowed)
    (run : Lts.Run step T₀ (h ++ y :: h') T) {x : Taken} (hx : x ∈ h) {c : Credentials}
    {k : Nat} (hregister : x.event = .register c) (hout : x.out = some k)
    (hlogin : y.event = .login c) : y.out = some k := by
  obtain ⟨hbefore, htaken⟩ := run.before
  obtain ⟨i, rfl, hi⟩ := kept_of_run hbefore hx hregister hout
  have hnumber := number_of_unshadowed (unshadowed_of_run hstart hbefore) hi
  rw [hlogin] at htaken
  have hanswer : y.pre.number c = y.out := (Prod.mk.inj (Except.ok.inj htaken)).1
  exact hanswer.symm.trans hnumber

end AccountTable

/-! ## The table of a ledger -/

namespace Ledger

def table (L : Ledger) : AccountTable := L.entries.map fun e => (e.name, e.password)

theorem unshadowed_table (L : Ledger) : L.table.Unshadowed :=
  List.pairwise_map.mpr L.unshadowed

theorem taken_table (L : Ledger) (name : List Byte) :
    L.table.taken name = true ↔ ∃ e ∈ L.entries, e.name <+: name := by
  simp [AccountTable.taken_iff, table]

/-- The uid of an entry is its place. -/
theorem number_table (L : Ledger) (c : Credentials) :
    L.table.number c =
      (L.entries.find? fun e => e.name <+: c.username ∧ e.password <+: c.password).map Entry.uid := by
  have hfind : (L.table.findIdx? fun a => decide (a.1 <+: c.username ∧ a.2 <+: c.password)) =
      L.entries.findIdx? fun e => decide (e.name <+: c.username ∧ e.password <+: c.password) :=
    List.findIdx?_map
  rw [AccountTable.number, hfind, List.find?_eq_bind_findIdx?_getElem?]
  cases hi : L.entries.findIdx? fun e => decide (e.name <+: c.username ∧ e.password <+: c.password) with
  | none => rfl
  | some i =>
      obtain ⟨hlt, -⟩ := List.findIdx?_eq_some_iff_getElem.mp hi
      have he : L.entries[i]? = some L.entries[i] := List.getElem?_eq_getElem hlt
      change some (i + 1) = (L.entries[i]?).map Entry.uid
      rw [he, Option.map_some, uid_of_getElem? he]

theorem content_table (L : Ledger) : L.table.content = L.file.content := by
  have hnumbered : L.table.zipIdx 1 = L.entries.map fun e => ((e.name, e.password), e.uid) := by
    apply List.ext_getElem?
    intro i
    rw [List.getElem?_zipIdx, table, List.getElem?_map, List.getElem?_map]
    cases he : L.entries[i]? with
    | none => rfl
    | some e =>
        rw [Option.map_some, Option.map_some, Option.map_some, uid_of_getElem? he, Nat.add_comm]
  rw [AccountTable.content, hnumbered, List.flatMap_map]
  rfl

end Ledger

end GroupChat
