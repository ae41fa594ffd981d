import RePlace.Service.Auth

/-!
# The auth service over its repositories

`service::Auth` is a template over the two repositories. `UserRepo` and `SessionRepo` are
what it calls of them, over any states of theirs; the service of the server is the case of
`UserPg` and `SessionValkey`.
-/

namespace RePlace

/-- What `service::Auth` calls of `repo::User`, with the id that comes up for a new user and
whether the user is accepted. -/
structure UserRepo (σ : Type) where
  addUser : σ → User → Uuid → Bool → σ × Except ErrorCode Uuid
  getUserByUsername : σ → CString → Except ErrorCode User

/-- What `service::Auth` calls of `repo::Session`, with the session id that is generated. -/
structure SessionRepo (τ : Type) where
  setSession : τ → User → Uuid → τ × Except ErrorCode Uuid
  getUser : τ → Uuid → Option (Except ErrorCode User)
  removeSession : τ → Uuid → τ × Except ErrorCode Unit

/-- `UserPg`. -/
def userPg : UserRepo (List UserRow) where
  addUser := UserPg.addUser
  getUserByUsername := UserPg.getUserByUsername

/-- `SessionValkey`. -/
def sessionValkey : SessionRepo Store where
  setSession := SessionValkey.setSession
  getUser := SessionValkey.getUser
  removeSession := SessionValkey.removeSession

namespace Auth.Template

variable {σ τ : Type} (U : UserRepo σ) (S : SessionRepo τ) (argon2 : Argon2)

/-- `Auth::login(const char*, const char*)`. -/
def login (users : σ) (sessions : τ) (username password : Option CString) (newId : Uuid) :
    τ × Except ErrorCode Uuid :=
  match username.filter (·.bytes ≠ []) with
  | none => (sessions, .error .useCaseAuthLoginUsernameEmpty)
  | some username =>
      match password.filter (·.bytes ≠ []) with
      | none => (sessions, .error .useCaseAuthLoginPasswordEmpty)
      | some password =>
          match U.getUserByUsername users username with
          | .error code => (sessions, .error code)
          | .ok user =>
              if Crypto.verifyPassword argon2 user.password password then
                S.setSession sessions user newId
              else (sessions, .error .useCaseAuthLoginPasswordMismatch)

/-- `Auth::register_user`. -/
def registerUser (users : σ) (username password : Option CString) (id : Uuid)
    (accepted : Bool) : σ × Except ErrorCode Unit :=
  match ({} : User).setUsername username with
  | (_, .error code) => (users, .error code)
  | (user, .ok ()) =>
      match user.setPassword argon2 password with
      | (_, .error code) => (users, .error code)
      | (user, .ok ()) =>
          match U.addUser users user id accepted with
          | (users, .error code) => (users, .error code)
          | (users, .ok _) => (users, .ok ())

/-- `Auth::logout`. -/
def logout (sessions : τ) (s : Uuid) : τ × Except ErrorCode Unit := S.removeSession sessions s

/-- `Auth::get_user`. -/
def getUser (sessions : τ) (s : Uuid) : Option (Except ErrorCode User) := S.getUser sessions s

variable {U S argon2}

/-- A login opens a session for the user whose password it comes with, or nothing happens. -/
theorem login_cases (users : σ) (sessions : τ) (username password : Option CString)
    (newId : Uuid) :
    (∃ name text user, username = some name ∧ password = some text ∧
      U.getUserByUsername users name = .ok user ∧
      Crypto.verifyPassword argon2 user.password text = true ∧
      login U S argon2 users sessions username password newId =
        S.setSession sessions user newId) ∨
    ∃ code, login U S argon2 users sessions username password newId = (sessions, .error code) := by
  cases hname : username.filter (·.bytes ≠ []) with
  | none => exact .inr ⟨.useCaseAuthLoginUsernameEmpty, by simp only [login, hname]⟩
  | some name =>
  cases htext : password.filter (·.bytes ≠ []) with
  | none => exact .inr ⟨.useCaseAuthLoginPasswordEmpty, by simp only [login, hname, htext]⟩
  | some text =>
  cases huser : U.getUserByUsername users name with
  | error code => exact .inr ⟨code, by simp only [login, hname, htext, huser]⟩
  | ok user =>
  by_cases hverify : Crypto.verifyPassword argon2 user.password text = true
  · refine .inl ⟨name, text, user, (Option.filter_eq_some_iff.mp hname).1,
      (Option.filter_eq_some_iff.mp htext).1, huser, hverify, ?_⟩
    simp only [login, hname, htext, huser, hverify, if_true]
  · exact .inr ⟨.useCaseAuthLoginPasswordMismatch, by
      simp only [login, hname, htext, huser, hverify, if_false, Bool.false_eq_true]⟩

/-! ## The service of the server -/

theorem login_sessionValkey (w : World) (username password : Option CString) (newId : Uuid) :
    Auth.login argon2 w username password newId =
      (⟨w.users, (login userPg sessionValkey argon2 w.users w.sessions username password
          newId).1⟩,
        (login userPg sessionValkey argon2 w.users w.sessions username password newId).2) := by
  unfold Auth.login login
  cases username.filter (·.bytes ≠ []) with
  | none => rfl
  | some name =>
  cases password.filter (·.bytes ≠ []) with
  | none => rfl
  | some text =>
  dsimp only [userPg, sessionValkey]
  cases UserPg.getUserByUsername w.users name with
  | error code => rfl
  | ok user =>
      dsimp only
      split <;> rfl

theorem registerUser_userPg (w : World) (username password : Option CString) (id : Uuid)
    (accepted : Bool) :
    Auth.registerUser argon2 w username password id accepted =
      (⟨(registerUser userPg argon2 w.users username password id accepted).1, w.sessions⟩,
        (registerUser userPg argon2 w.users username password id accepted).2) := by
  unfold Auth.registerUser registerUser
  cases ({} : User).setUsername username with
  | mk user result =>
  cases result with
  | error code => rfl
  | ok _ =>
  dsimp only [userPg]
  cases user.setPassword argon2 password with
  | mk user result =>
  cases result with
  | error code => rfl
  | ok _ =>
  dsimp only
  cases UserPg.addUser w.users user id accepted with
  | mk users result => cases result <;> rfl

/-- A user is registered with a new row, or nothing happens. -/
theorem registerUser_cases (rows : List UserRow) (username password : Option CString) (id : Uuid)
    (accepted : Bool) :
    (∃ name text hash, username = some name ∧ password = some text ∧
      name.bytes ≠ [] ∧ name.bytes.length ≤ 60 ∧
      8 ≤ text.bytes.length ∧ text.bytes.length ≤ 60 ∧
      argon2.hashEncoded text.bytes = .ok hash ∧ (∀ row ∈ rows, row.username ≠ name) ∧
      registerUser userPg argon2 rows username password id accepted =
        (rows ++ [⟨id, name, hash⟩], .ok ())) ∨
    ∃ code, registerUser userPg argon2 rows username password id accepted =
      (rows, .error code) := by
  have heq := @registerUser_userPg argon2 ⟨rows, fun _ => none⟩ username password id accepted
  rcases @Auth.registerUser_cases argon2 ⟨rows, fun _ => none⟩ username password id accepted with
    ⟨name, text, hash, hname, htext, hne, hlen, hmin, hmax, hhash, hnew, hok⟩ | ⟨code, herr⟩
  · obtain ⟨hworld, hresult⟩ := Prod.mk.inj (hok.symm.trans heq)
    exact .inl ⟨name, text, hash, hname, htext, hne, hlen, hmin, hmax, hhash, hnew,
      Prod.ext (congrArg World.users hworld).symm hresult.symm⟩
  · obtain ⟨hworld, hresult⟩ := Prod.mk.inj (herr.symm.trans heq)
    exact .inr ⟨code, Prod.ext (congrArg World.users hworld).symm hresult.symm⟩

end Auth.Template

end RePlace
