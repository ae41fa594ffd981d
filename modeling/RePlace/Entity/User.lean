import RePlace.Crypto.Password
import RePlace.Uuid

/-!
# Users

The class `User` and its setters: those that take a `const c8*`, and those of the
username and the password that take a `string`. A setter returns its error code
with the state it leaves, so that a caller that ignores the code has the state to
go on with.
-/

namespace RePlace

/-- `User`. -/
structure User where
  id : Uuid := .empty
  username : Bytes := []
  password : Bytes := []
deriving DecidableEq

namespace User

/-- `User::USERNAME_MAX`. -/
def usernameMax : ℕ := 60

/-- `User::PASSWORD_MIN`. -/
def passwordMin : ℕ := 8

/-- `User::PASSWORD_MAX`. -/
def passwordMax : ℕ := 60

/-- `User::set_id(const c8*)`. -/
def setId (user : User) (id : CString) : User := { user with id := .ofCString id }

/-- `User::set_username(const string&)`. -/
def setUsernameString (user : User) (username : Bytes) : User × Except ErrorCode Unit :=
  if username = [] then (user, .error .userUsernameRequired)
  else if username.length > usernameMax then (user, .error .userUsernameMaxLength)
  else ({ user with username := username }, .ok ())

/-- `User::set_username(const c8*)`. -/
def setUsername (user : User) (username : Option CString) : User × Except ErrorCode Unit :=
  match username with
  | none => (user, .error .userUsernameRequired)
  | some username =>
      if username.bytes = [] then (user, .error .userUsernameRequired)
      else if username.strnlen (usernameMax + 1) > usernameMax then
        (user, .error .userUsernameMaxLength)
      else ({ user with username := username.bytes }, .ok ())

/-- `User::set_password(const string&)`. -/
def setPasswordString (argon2 : Argon2) (user : User) (password : Bytes) :
    User × Except ErrorCode Unit :=
  if password = [] then (user, .error .userPasswordRequired)
  else if password.length < passwordMin then (user, .error .userPasswordMinLength)
  -- the size of the username, not of the password
  else if user.username.length > passwordMax then (user, .error .userPasswordMaxLength)
  else
    match Crypto.hashPasswordString argon2 password with
    | .error code => (user, .error code)
    | .ok hash => ({ user with password := hash.bytes }, .ok ())

/-- `User::set_password(const c8*)`. -/
def setPassword (argon2 : Argon2) (user : User) (password : Option CString) :
    User × Except ErrorCode Unit :=
  match password with
  | none => (user, .error .userPasswordRequired)
  | some password =>
      if password.bytes = [] then (user, .error .userPasswordRequired)
      else
        let size := password.strnlen (passwordMax + 1)
        if size < passwordMin then (user, .error .userPasswordMinLength)
        else if size > passwordMax then (user, .error .userPasswordMaxLength)
        else
          match Crypto.hashPassword argon2 password with
          | .error code => (user, .error code)
          | .ok hash => ({ user with password := hash.bytes }, .ok ())

/-- `User::set_hashed_password(const c8*)`. -/
def setHashedPassword (user : User) (hash : CString) : User × Except ErrorCode Unit :=
  ({ user with password := hash.bytes }, .ok ())

/-- A username that is accepted, and what it does to the user. -/
theorem setUsername_ok {user user' : User} {username : Option CString}
    (h : user.setUsername username = (user', .ok ())) :
    ∃ name, username = some name ∧ name.bytes ≠ [] ∧ name.bytes.length ≤ 60 ∧
      user' = { user with username := name.bytes } := by
  unfold setUsername at h
  split at h
  · simp at h
  · rename_i name
    split at h
    · simp at h
    · split at h
      · simp at h
      · rename_i hne hlen
        simp only [CString.strnlen, usernameMax] at hlen
        exact ⟨name, rfl, hne, by omega, by simpa using h.symm⟩

theorem setUsername_of_le {name : CString} (user : User) (hne : name.bytes ≠ [])
    (hlen : name.bytes.length ≤ 60) :
    user.setUsername (some name) = ({ user with username := name.bytes }, .ok ()) := by
  have hshort : ¬ name.strnlen (usernameMax + 1) > usernameMax := by
    simp only [CString.strnlen, usernameMax]
    omega
  simp only [setUsername, hne, hshort, if_false]

/-- A password that is accepted, and what it does to the user. -/
theorem setPassword_ok {argon2 : Argon2} {user user' : User} {password : Option CString}
    (h : user.setPassword argon2 password = (user', .ok ())) :
    ∃ text hash, password = some text ∧ 8 ≤ text.bytes.length ∧ text.bytes.length ≤ 60 ∧
      argon2.hashEncoded text.bytes = .ok hash ∧ user' = { user with password := hash.bytes } := by
  unfold setPassword at h
  split at h
  · simp at h
  · rename_i text
    split at h
    · simp at h
    · dsimp only at h
      split at h
      · simp at h
      · split at h
        · simp at h
        · split at h
          · simp at h
          · rename_i hmin hmax _ hash hhash
            simp only [CString.strnlen, passwordMin, passwordMax] at hmin hmax
            exact ⟨text, hash, rfl, by omega, by omega, Crypto.hashPassword_ok hhash,
              by simpa using h.symm⟩

/-- A password that is accepted is hashed. -/
theorem setPassword_of_le {argon2 : Argon2} {text hash : CString} (user : User)
    (hmin : 8 ≤ text.bytes.length) (hmax : text.bytes.length ≤ 60)
    (hhash : argon2.hashEncoded text.bytes = .ok hash) :
    user.setPassword argon2 (some text) = ({ user with password := hash.bytes }, .ok ()) := by
  have hne : text.bytes ≠ [] := by
    intro hnil
    simp [hnil] at hmin
  have hlong : ¬ text.strnlen (passwordMax + 1) < passwordMin := by
    simp only [CString.strnlen, passwordMax, passwordMin]
    omega
  have hshort : ¬ text.strnlen (passwordMax + 1) > passwordMax := by
    simp only [CString.strnlen, passwordMax]
    omega
  have hencoded : Crypto.hashPassword argon2 text = .ok hash := by
    rw [Crypto.hashPassword, Crypto.hashPasswordSized, CString.strlen, List.take_length, hhash]
  simp only [setPassword, hne, hlong, hshort, hencoded, if_false]

end User

end RePlace
