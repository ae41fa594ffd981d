import RePlace.Repo.SessionRecord
import RePlace.Service.Accounts

/-!
# Logins and the replies of the store

A login with every reply the store can give to its `SET`: `set_string` looks only
at whether there is a reply, so an error reply, with which nothing has been
stored, counts as success. `login` in the service is the case of a store that
stores.
-/

namespace RePlace

open Bytes (lit)

/-- What the store does about a `SET`. When the connection fails there is no reply,
and the text may have been stored or not. -/
inductive SetOutcome
  | stored
  | refused (message : Bytes)
  | lost (written : Bool)
deriving DecidableEq

namespace SetOutcome

/-- The reply to the command. -/
def reply : SetOutcome → Option Reply
  | stored => some (.status (lit "OK"))
  | refused message => some (.error message)
  | lost _ => none

/-- Whether the text has been stored. -/
def writes : SetOutcome → Bool
  | stored => true
  | refused _ => false
  | lost written => written

/-- What the store holds after the command. -/
def apply (outcome : SetOutcome) (store : Store) (key value : Bytes) : Store :=
  if outcome.writes then (store.set key value).1 else store

end SetOutcome

/-- `SessionValkey::set_session_impl` with the generated session id and what the
store does about the command. -/
def SessionValkey.setSessionWith (outcome : SetOutcome) (store : Store) (user : User)
    (newId : Uuid) : Store × Except ErrorCode Uuid :=
  let store := outcome.apply store (key newId) (Bytes.beforeNul (record user))
  match ValkeyClient.setString outcome.reply with
  | .error code => (store, .error code)
  | .ok () => (store, .ok newId)

theorem SessionValkey.setSessionWith_stored (store : Store) (user : User) (newId : Uuid) :
    setSessionWith .stored store user newId = setSession store user newId := rfl

namespace Auth

variable (argon2 : Argon2)

/-- `Auth::login(const char*, const char*)` with what the store does about the
`SET`. -/
def loginWith (outcome : SetOutcome) (w : World) (username password : Option CString)
    (newId : Uuid) : World × Except ErrorCode Uuid :=
  match username.filter (·.bytes ≠ []) with
  | none => (w, .error .useCaseAuthLoginUsernameEmpty)
  | some username =>
      match password.filter (·.bytes ≠ []) with
      | none => (w, .error .useCaseAuthLoginPasswordEmpty)
      | some password =>
          match UserPg.getUserByUsername w.users username with
          | .error code => (w, .error code)
          | .ok user =>
              if Crypto.verifyPassword argon2 user.password password then
                let (sessions, result) :=
                  SessionValkey.setSessionWith outcome w.sessions user newId
                ({ w with sessions }, result)
              else (w, .error .useCaseAuthLoginPasswordMismatch)

theorem loginWith_stored (w : World) (username password : Option CString) (newId : Uuid) :
    loginWith argon2 .stored w username password newId =
      login argon2 w username password newId := rfl

/-- The user whom a login lets in. -/
def Admits (w : World) (username password : Option CString) (user : User) : Prop :=
  ∃ name text, username = some name ∧ password = some text ∧ name.bytes ≠ [] ∧ text.bytes ≠ [] ∧
    UserPg.getUserByUsername w.users name = .ok user ∧
    Crypto.verifyPassword argon2 user.password text = true

variable {argon2}

theorem Admits.unique {w : World} {username password : Option CString} {user user' : User}
    (h : Admits argon2 w username password user) (h' : Admits argon2 w username password user') :
    user = user' := by
  obtain ⟨name, -, rfl, -, -, -, huser, -⟩ := h
  obtain ⟨name', -, heq, -, -, -, huser', -⟩ := h'
  obtain rfl := Option.some.inj heq
  exact Except.ok.inj (huser.symm.trans huser')

/-- Where a user is let in, the answer is that of the session store. -/
theorem loginWith_of_admits {w : World} {username password : Option CString} {user : User}
    (h : Admits argon2 w username password user) (outcome : SetOutcome) (newId : Uuid) :
    loginWith argon2 outcome w username password newId =
      (⟨w.users, (SessionValkey.setSessionWith outcome w.sessions user newId).1⟩,
        (SessionValkey.setSessionWith outcome w.sessions user newId).2) := by
  obtain ⟨name, text, rfl, rfl, hname, htext, huser, hverify⟩ := h
  have hkept : ∀ s : CString, s.bytes ≠ [] → (some s).filter (·.bytes ≠ []) = some s := by
    intro s hs
    simp [Option.filter, hs]
  simp only [loginWith, hkept name hname, hkept text htext, huser, hverify, if_true]

/-- Where nobody is let in, the answer is an error. -/
theorem loginWith_of_not_admits {w : World} {username password : Option CString}
    (h : ∀ user, ¬ Admits argon2 w username password user) (outcome : SetOutcome)
    (newId : Uuid) :
    ∃ code, loginWith argon2 outcome w username password newId = (w, .error code) := by
  cases hname : username.filter (·.bytes ≠ []) with
  | none => exact ⟨.useCaseAuthLoginUsernameEmpty, by simp only [loginWith, hname]⟩
  | some name =>
  cases htext : password.filter (·.bytes ≠ []) with
  | none => exact ⟨.useCaseAuthLoginPasswordEmpty, by simp only [loginWith, hname, htext]⟩
  | some text =>
  cases huser : UserPg.getUserByUsername w.users name with
  | error code => exact ⟨code, by simp only [loginWith, hname, htext, huser]⟩
  | ok user =>
  obtain ⟨hsome, hne⟩ := Option.filter_eq_some_iff.mp hname
  obtain ⟨hsome', hne'⟩ := Option.filter_eq_some_iff.mp htext
  have hverify : Crypto.verifyPassword argon2 user.password text ≠ true := fun hv =>
    h user ⟨name, text, hsome, hsome', by simpa using hne, by simpa using hne', huser, hv⟩
  exact ⟨.useCaseAuthLoginPasswordMismatch, by
    simp only [loginWith, hname, htext, huser, hverify, if_false, Bool.false_eq_true]⟩

/-- The rows of a table hold whole ids, as their column type makes them, and
usernames that `set_username` accepts. -/
def ValidRows (rows : List UserRow) : Prop :=
  ∀ row ∈ rows, row.id.Full ∧ row.username.bytes ≠ [] ∧ row.username.bytes.length ≤ 60

/-- The rows that registrations make are valid, as long as the ids are. -/
theorem validRows_of_run {hist : List (Action × Answer)} {w : World} (hrun : Run argon2 hist w)
    (hids : ∀ username password id, RegisteredAs hist username password id → id.Full) :
    ValidRows w.users := by
  have hacc := accounts_of_run hrun
  intro row hrow
  obtain ⟨text, hreg, -⟩ := hacc.sound row hrow
  exact ⟨hids _ _ _ hreg, hacc.valid row hrow⟩

theorem Admits.accepted {w : World} (hrows : ValidRows w.users)
    {username password : Option CString} {user : User}
    (h : Admits argon2 w username password user) : user.Accepted := by
  obtain ⟨name, -, -, -, -, -, huser, -⟩ := h
  obtain ⟨row, hfind, rfl⟩ :=
    (UserPg.getUserByUsername_iff_find fun row hrow => (hrows row hrow).2).mp huser
  obtain ⟨hid, hne, hlen⟩ := hrows row (List.mem_of_find?_eq_some hfind)
  exact ⟨hid, row.username.nulFree, hne, hlen⟩

/-- A login that returns a session id has stored the record of the user whom it let
in, and the user is read back. -/
def ReportsStored (argon2 : Argon2) (outcome : SetOutcome) (w : World)
    (username password : Option CString) (newId : Uuid) : Prop :=
  ∀ s, (loginWith argon2 outcome w username password newId).2 = .ok s →
    ∃ user, Admits argon2 w username password user ∧
      (loginWith argon2 outcome w username password newId).1.sessions (SessionValkey.key s) =
        some (SessionValkey.record user) ∧
      getUser (loginWith argon2 outcome w username password newId).1 s =
        some (.ok { id := user.id, username := user.username })

/-- Once a user is let in, the store has to hold the record whenever it replies. -/
theorem reportsStored_iff_of_admits {w : World} (hrows : ValidRows w.users)
    {username password : Option CString} {user : User}
    (h : Admits argon2 w username password user) (outcome : SetOutcome) (newId : Uuid) :
    ReportsStored argon2 outcome w username password newId ↔
      (outcome.reply ≠ none →
        outcome.apply w.sessions (SessionValkey.key newId) (SessionValkey.record user)
          (SessionValkey.key newId) = some (SessionValkey.record user)) := by
  have hfst : (SessionValkey.setSessionWith outcome w.sessions user newId).1 =
      outcome.apply w.sessions (SessionValkey.key newId) (SessionValkey.record user) := by
    rw [SessionValkey.setSessionWith,
      Bytes.beforeNul_of_nulFree (SessionValkey.record_nulFree user)]
    split <;> rfl
  have hsnd : ∀ s, (SessionValkey.setSessionWith outcome w.sessions user newId).2 = .ok s ↔
      outcome.reply ≠ none ∧ newId = s := by
    intro s
    cases outcome <;> simp [SessionValkey.setSessionWith, SetOutcome.reply, ValkeyClient.setString]
  rw [ReportsStored, loginWith_of_admits h]
  simp only [hfst, hsnd]
  constructor
  · intro hall hreply
    obtain ⟨user', h', hstored, -⟩ := hall newId ⟨hreply, rfl⟩
    rwa [← h.unique h'] at hstored
  · rintro hstored s ⟨hreply, rfl⟩
    exact ⟨user, h, hstored hreply,
      SessionValkey.getUser_of_accepted (h.accepted hrows) (hstored hreply)⟩

/-- A login reports a session that is not stored exactly when the store refuses the
record of a user who has been let in, unless the record stands there already. -/
theorem stored_session_iff {w : World} (hrows : ValidRows w.users)
    (username password : Option CString) (newId : Uuid) (outcome : SetOutcome) :
    ReportsStored argon2 outcome w username password newId ↔
      ∀ message user, outcome = .refused message → Admits argon2 w username password user →
        w.sessions (SessionValkey.key newId) = some (SessionValkey.record user) := by
  by_cases hadmits : ∃ user, Admits argon2 w username password user
  · obtain ⟨user, h⟩ := hadmits
    have huser : (∀ message user, outcome = .refused message →
        Admits argon2 w username password user →
          w.sessions (SessionValkey.key newId) = some (SessionValkey.record user)) ↔
        ∀ message, outcome = .refused message →
          w.sessions (SessionValkey.key newId) = some (SessionValkey.record user) := by
      refine forall_congr' fun message => ⟨fun hall heq => hall user heq h, ?_⟩
      intro hall user' heq h'
      rw [h'.unique h]
      exact hall heq
    rw [reportsStored_iff_of_admits hrows h, huser]
    cases outcome with
    | stored => simp [SetOutcome.apply, SetOutcome.writes, Store.set]
    | refused message => simp [SetOutcome.apply, SetOutcome.writes, SetOutcome.reply]
    | lost written => simp [SetOutcome.reply]
  · have hnone : ∀ user, ¬ Admits argon2 w username password user := not_exists.mp hadmits
    obtain ⟨code, herr⟩ := loginWith_of_not_admits hnone outcome newId
    refine iff_of_true (fun s hs => ?_) fun _ user _ h => absurd h (hnone user)
    rw [herr] at hs
    cases hs

/-- A table with the row of `alice`, and no sessions. -/
def sampleWorld : World where
  users := [⟨sampleId, .lit "alice", .lit "password"⟩]

/-- A store that replies nothing does not have the login of `alice` report a session that
is not stored, and one that is out of memory does not when the password is wrong. -/
theorem stored_session_sample :
    ReportsStored sampleArgon2 (.lost false) sampleWorld (some (.lit "alice"))
        (some (.lit "password")) sampleSession ∧
      ReportsStored sampleArgon2 (.refused (lit "OOM")) sampleWorld (some (.lit "alice"))
        (some (.lit "passwort")) sampleSession := by
  have hrows : ValidRows sampleWorld.users := by
    unfold ValidRows
    decide
  refine ⟨(stored_session_iff hrows _ _ _ _).mpr ?_, (stored_session_iff hrows _ _ _ _).mpr ?_⟩
  · intro message user hlost
    cases hlost
  · rintro message user - ⟨name, text, hname, htext, -, -, huser, hverify⟩
    cases hname
    cases htext
    cases huser
    exact absurd hverify (by decide)

/-- A store that is out of memory refuses the record; the login returns a session id
all the same, for which there is no user. -/
theorem stored_session_fails :
    ValidRows sampleWorld.users ∧
      (loginWith sampleArgon2 (.refused (lit "OOM")) sampleWorld (some (.lit "alice"))
        (some (.lit "password")) sampleSession).2 = .ok sampleSession ∧
      (loginWith sampleArgon2 (.refused (lit "OOM")) sampleWorld (some (.lit "alice"))
        (some (.lit "password")) sampleSession).1.sessions (SessionValkey.key sampleSession) =
          none ∧
      getUser (loginWith sampleArgon2 (.refused (lit "OOM")) sampleWorld (some (.lit "alice"))
        (some (.lit "password")) sampleSession).1 sampleSession =
          some (.error .valkeyTypeError) := by
  refine ⟨?_, rfl, rfl, rfl⟩
  unfold ValidRows
  decide

end Auth

end RePlace
