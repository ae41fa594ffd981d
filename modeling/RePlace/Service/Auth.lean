import RePlace.Data.History
import RePlace.Repo.UserPg
import RePlace.Repo.Valkey

/-!
# The auth service

`service::Auth` over `UserPg` and `SessionValkey`: the overloads for C strings,
and what its calls do to the table of users and to the session store. `step` is
one call by some client, or the expiry of a session in the store; the ids that
the database and `generate_uuidv4` come up with, and whether the database accepts
a row, are given with the call.
-/

namespace RePlace

/-- The table of users and the session store. -/
structure World where
  users : List UserRow := []
  sessions : Store := fun _ => none

namespace Auth

variable (argon2 : Argon2)

/-- `Auth::login(const char*, const char*)`. -/
def login (w : World) (username password : Option CString) (newId : Uuid) :
    World × Except ErrorCode Uuid :=
  -- a null pointer and an empty text are answered alike
  match username.filter (·.bytes ≠ []) with
  | none => (w, .error .useCaseAuthLoginUsernameEmpty)
  | some username =>
      match password.filter (·.bytes ≠ []) with
      | none => (w, .error .useCaseAuthLoginPasswordEmpty)
      | some password =>
          match UserPg.getUserByUsername w.users username with
          | .error code => (w, .error code)
          | .ok user =>
              if Crypto.verifyPassword argon2 user.password password then
                let (sessions, result) := SessionValkey.setSession w.sessions user newId
                ({ w with sessions }, result)
              else (w, .error .useCaseAuthLoginPasswordMismatch)

/-- `Auth::register_user`. -/
def registerUser (w : World) (username password : Option CString) (id : Uuid) (accepted : Bool) :
    World × Except ErrorCode Unit :=
  match ({} : User).setUsername username with
  | (_, .error code) => (w, .error code)
  | (user, .ok ()) =>
      match user.setPassword argon2 password with
      | (_, .error code) => (w, .error code)
      | (user, .ok ()) =>
          match UserPg.addUser w.users user id accepted with
          | (users, .error code) => ({ w with users }, .error code)
          | (users, .ok _) => ({ w with users }, .ok ())

/-- `Auth::logout`. -/
def logout (w : World) (s : Uuid) : World × Except ErrorCode Unit :=
  let (sessions, result) := SessionValkey.removeSession w.sessions s
  ({ w with sessions }, result)

/-- `Auth::get_user`. -/
def getUser (w : World) (s : Uuid) : Option (Except ErrorCode User) :=
  SessionValkey.getUser w.sessions s

/-! ## Runs -/

/-- What happens to the service. -/
inductive Action
  | registerUser (username password : Option CString) (id : Uuid) (accepted : Bool)
  | login (username password : Option CString) (newId : Uuid)
  | logout (s : Uuid)
  | getUser (s : Uuid)
  | expire (s : Uuid)

/-- What is answered. -/
inductive Answer
  | registered (result : Except ErrorCode Unit)
  | loggedIn (result : Except ErrorCode Uuid)
  | loggedOut (result : Except ErrorCode Unit)
  | gotUser (result : Option (Except ErrorCode User))
  | expired

/-- One call, or the expiry of a session. -/
def step (w : World) : Action → World × Answer
  | .registerUser username password id accepted =>
      let (w, result) := registerUser argon2 w username password id accepted
      (w, .registered result)
  | .login username password newId =>
      let (w, result) := login argon2 w username password newId
      (w, .loggedIn result)
  | .logout s =>
      let (w, result) := logout w s
      (w, .loggedOut result)
  | .getUser s => (w, .gotUser (getUser w s))
  | .expire s => ({ w with sessions := w.sessions.expire (SessionValkey.key s) }, .expired)

/-- The runs of the service, from an empty table and an empty store. -/
abbrev Run : List (Action × Answer) → World → Prop := History.Run (step argon2) {}

/-! ## What the calls do -/

variable {argon2}

/-- A user is registered with a new row, or nothing happens. -/
theorem registerUser_cases (w : World) (username password : Option CString) (id : Uuid)
    (accepted : Bool) :
    (∃ name text hash, username = some name ∧ password = some text ∧
      name.bytes ≠ [] ∧ name.bytes.length ≤ 60 ∧
      8 ≤ text.bytes.length ∧ text.bytes.length ≤ 60 ∧
      argon2.hashEncoded text.bytes = .ok hash ∧ (∀ row ∈ w.users, row.username ≠ name) ∧
      registerUser argon2 w username password id accepted =
        (⟨w.users ++ [⟨id, name, hash⟩], w.sessions⟩, .ok ())) ∨
    ∃ code, registerUser argon2 w username password id accepted = (w, .error code) := by
  cases hname : ({} : User).setUsername username with
  | mk user result =>
  cases result with
  | error code => exact .inr ⟨code, by simp only [registerUser, hname]⟩
  | ok _ =>
  cases htext : user.setPassword argon2 password with
  | mk user' result =>
  cases result with
  | error code => exact .inr ⟨code, by simp only [registerUser, hname, htext]⟩
  | ok _ =>
  obtain ⟨name, rfl, hne, hlen, huser⟩ := User.setUsername_ok hname
  obtain ⟨text, hash, rfl, hmin, hmax, hhash, huser'⟩ := User.setPassword_ok htext
  cases hadd : UserPg.addUser w.users user' id accepted with
  | mk users result =>
  cases result with
  | error code =>
      obtain rfl := UserPg.addUser_error hadd
      exact .inr ⟨code, by simp only [registerUser, hname, htext, hadd]⟩
  | ok id' =>
      obtain ⟨hnew, rfl⟩ := UserPg.addUser_ok hadd
      subst huser huser'
      simp only [CString.ofBytes_bytes] at hnew hadd
      refine .inl ⟨name, text, hash, rfl, rfl, hne, hlen, hmin, hmax, hhash, hnew, ?_⟩
      simp only [registerUser, hname, htext, hadd]

/-- A login writes the record of the user under a new key, or nothing happens. -/
theorem login_cases (w : World) (username password : Option CString) (newId : Uuid) :
    (∃ name text user, username = some name ∧ password = some text ∧ name.bytes ≠ [] ∧
      UserPg.getUserByUsername w.users name = .ok user ∧
      Crypto.verifyPassword argon2 user.password text = true ∧
      login argon2 w username password newId =
        (⟨w.users, Function.update w.sessions (SessionValkey.key newId)
          (some (SessionValkey.record user))⟩, .ok newId)) ∨
    ∃ code, login argon2 w username password newId = (w, .error code) := by
  cases hname : username.filter (·.bytes ≠ []) with
  | none => exact .inr ⟨.useCaseAuthLoginUsernameEmpty, by simp only [login, hname]⟩
  | some name =>
  cases htext : password.filter (·.bytes ≠ []) with
  | none => exact .inr ⟨.useCaseAuthLoginPasswordEmpty, by simp only [login, hname, htext]⟩
  | some text =>
  cases huser : UserPg.getUserByUsername w.users name with
  | error code => exact .inr ⟨code, by simp only [login, hname, htext, huser]⟩
  | ok user =>
  by_cases hverify : Crypto.verifyPassword argon2 user.password text = true
  · obtain ⟨hsome, hne⟩ := Option.filter_eq_some_iff.mp hname
    obtain ⟨hsome', -⟩ := Option.filter_eq_some_iff.mp htext
    refine .inl ⟨name, text, user, hsome, hsome', by simpa using hne, huser, hverify, ?_⟩
    simp only [login, hname, htext, huser, hverify, if_true, SessionValkey.setSession_eq]
  · exact .inr ⟨.useCaseAuthLoginPasswordMismatch, by
      simp only [login, hname, htext, huser, hverify, if_false, Bool.false_eq_true]⟩

/-- Where the user is found and the password verified, a session is opened. -/
theorem login_eq {w : World} {name text : CString} {user : User} (hname : name.bytes ≠ [])
    (htext : text.bytes ≠ []) (huser : UserPg.getUserByUsername w.users name = .ok user)
    (hverify : Crypto.verifyPassword argon2 user.password text = true) (newId : Uuid) :
    login argon2 w (some name) (some text) newId =
      (⟨w.users, Function.update w.sessions (SessionValkey.key newId)
        (some (SessionValkey.record user))⟩, .ok newId) := by
  have hkept : ∀ s : CString, s.bytes ≠ [] → (some s).filter (·.bytes ≠ []) = some s := by
    intro s hs
    simp [Option.filter, hs]
  simp only [login, hkept name hname, hkept text htext, huser, hverify, if_true,
    SessionValkey.setSession_eq]

theorem logout_fst (w : World) (s : Uuid) :
    (logout w s).1 = ⟨w.users, Function.update w.sessions (SessionValkey.key s) none⟩ := rfl

theorem logout_ok_iff (w : World) (s : Uuid) :
    (logout w s).2 = .ok () ↔ ∃ json, w.sessions (SessionValkey.key s) = some json :=
  SessionValkey.removeSession_ok_iff w.sessions s

end Auth

end RePlace
