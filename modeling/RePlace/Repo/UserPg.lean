import RePlace.Entity.User

/-!
# The users table

`UserPg` over the table of users. The database gives a new row its id and may
reject it: for its username, which is unique, or for reasons of its own. The
connection to the database does not fail.
-/

namespace RePlace

/-- A row of `users`. -/
structure UserRow where
  id : Uuid
  username : CString
  password : CString
deriving DecidableEq

namespace UserPg

/-- `UserPg::add_user_impl`. The database takes the new row with the id unless it
does not accept it. -/
def addUser (rows : List UserRow) (user : User) (id : Uuid) (accepted : Bool) :
    List UserRow × Except ErrorCode Uuid :=
  let username := CString.ofBytes user.username
  if (rows.any fun row => row.username = username) || !accepted then
    (rows, .error .dbExecutionError)
  else
    (rows ++ [⟨id, username, CString.ofBytes user.password⟩], .ok (.ofCString id.text))

/-- `UserPg::get_user_by_username_impl(const char*)`. -/
def getUserByUsername (rows : List UserRow) (username : CString) : Except ErrorCode User :=
  match rows.find? fun row => row.username = username with
  | none => .error .repoUserNotFound
  | some row =>
      let user := ({} : User).setId row.id.text
      let (user, _) := user.setUsername (some username)
      let (user, _) := user.setHashedPassword row.password
      .ok user

/-- A row that is taken is the new last row, and its username is new. -/
theorem addUser_ok {rows rows' : List UserRow} {user : User} {id id' : Uuid} {accepted : Bool}
    (h : addUser rows user id accepted = (rows', .ok id')) :
    (∀ row ∈ rows, row.username ≠ CString.ofBytes user.username) ∧
      rows' = rows ++ [⟨id, CString.ofBytes user.username, CString.ofBytes user.password⟩] := by
  unfold addUser at h
  dsimp only at h
  split at h
  · simp at h
  · rename_i hnew
    simp only [Bool.or_eq_true, not_or, List.any_eq_true, decide_eq_true_eq, not_exists,
      not_and] at hnew
    exact ⟨hnew.1, by simpa using (congrArg Prod.fst h).symm⟩

theorem addUser_error {rows rows' : List UserRow} {user : User} {id : Uuid} {accepted : Bool}
    {code : ErrorCode} (h : addUser rows user id accepted = (rows', .error code)) :
    rows' = rows := by
  unfold addUser at h
  dsimp only at h
  split at h
  · exact (congrArg Prod.fst h).symm
  · simp at h

end UserPg

end RePlace
