import RePlace.Service.Auth

/-!
# Calls of one user

A user is known by the username, and by the sessions that its logins get. A call of the user
does the same when only what belongs to the user is there (`step_own`), and the calls of
others do nothing to it (`step_other`).
-/

namespace RePlace.Auth

variable {argon2 : Argon2} {u : CString} {own : Uuid → Bool} {w v : World}

/-- The call comes with the username, or with a session of the user. -/
def Action.isOwn (u : CString) (own : Uuid → Bool) : Action → Bool
  | .registerUser username _ _ _ => username = some u
  | .login username _ _ => username = some u
  | .logout s => own s
  | .getUser s => own s
  | .expire s => own s

/-- The session ids that are generated for the logins of the user, and no others, are its
own. -/
def Action.Owns (u : CString) (own : Uuid → Bool) : Action → Prop
  | .login username _ newId => own newId = true ↔ username = some u
  | _ => True

/-- The second world holds what belongs to the user in the first one. -/
structure Alone (u : CString) (own : Uuid → Bool) (w v : World) : Prop where
  users : v.users = w.users.filter (·.username = u)
  sessions : ∀ s, own s = true → v.sessions (SessionValkey.key s) = w.sessions (SessionValkey.key s)

theorem alone_init : Alone u own {} {} where
  users := rfl
  sessions _ _ := rfl

/-- The user is found in its part of the table. -/
theorem Alone.getUserByUsername (h : Alone u own w v) :
    UserPg.getUserByUsername v.users u = UserPg.getUserByUsername w.users u := by
  have hfind : v.users.find? (fun row => row.username = u) =
      w.users.find? fun row => row.username = u := by
    simp [h.users, List.find?_filter]
  rw [UserPg.getUserByUsername, UserPg.getUserByUsername, hfind]

/-- A session of the user is set in both, or dropped in both. -/
theorem Alone.update (h : Alone u own w v) (s : Uuid) (value : Option Bytes) :
    Alone u own ⟨w.users, Function.update w.sessions (SessionValkey.key s) value⟩
      ⟨v.users, Function.update v.sessions (SessionValkey.key s) value⟩ where
  users := h.users
  sessions s' hs' := by
    by_cases hsame : s' = s
    · subst hsame
      simp only [Function.update_self]
    · have hkey : SessionValkey.key s' ≠ SessionValkey.key s :=
        fun heq => hsame (SessionValkey.key_injective heq)
      simp only [Function.update_of_ne hkey, h.sessions s' hs']

/-- A session of another user is set or dropped. -/
theorem Alone.update_other (h : Alone u own w v) {s : Uuid} (hs : own s = false)
    (value : Option Bytes) :
    Alone u own ⟨w.users, Function.update w.sessions (SessionValkey.key s) value⟩ v where
  users := h.users
  sessions s' hs' := by
    have hkey : SessionValkey.key s' ≠ SessionValkey.key s := by
      intro heq
      rw [SessionValkey.key_injective heq, hs] at hs'
      cases hs'
    exact (h.sessions s' hs').trans (Function.update_of_ne hkey _ _).symm

theorem Alone.registerUser (h : Alone u own w v) (password : Option CString) (id : Uuid)
    (accepted : Bool) :
    (registerUser argon2 v (some u) password id accepted).2 =
        (registerUser argon2 w (some u) password id accepted).2 ∧
      Alone u own (registerUser argon2 w (some u) password id accepted).1
        (registerUser argon2 v (some u) password id accepted).1 := by
  unfold Auth.registerUser
  cases hname : ({} : User).setUsername (some u) with
  | mk user result =>
  cases result with
  | error code => exact ⟨rfl, h⟩
  | ok _ =>
  dsimp only
  cases htext : user.setPassword argon2 password with
  | mk user' result =>
  cases result with
  | error code => exact ⟨rfl, h⟩
  | ok _ =>
  obtain ⟨name, hsome, -, -, rfl⟩ := User.setUsername_ok hname
  obtain rfl := Option.some.inj hsome
  obtain ⟨text, hash, rfl, -, -, -, rfl⟩ := User.setPassword_ok htext
  have hany : (v.users.any fun row => row.username = u) =
      w.users.any fun row => row.username = u := by
    simp [h.users, List.any_filter]
  dsimp only [UserPg.addUser]
  rw [CString.ofBytes_bytes, hany]
  cases (w.users.any fun row => row.username = u) || !accepted with
  | true => exact ⟨rfl, h⟩
  | false =>
      refine ⟨rfl, ?_, h.sessions⟩
      change v.users ++ _ = (w.users ++ _).filter _
      rw [List.filter_append, h.users]
      simp

/-- A registration for another username. -/
theorem Alone.registerUser_other (h : Alone u own w v) {username : Option CString}
    (hother : username ≠ some u) (password : Option CString) (id : Uuid) (accepted : Bool) :
    Alone u own (Auth.registerUser argon2 w username password id accepted).1 v := by
  rcases @registerUser_cases argon2 w username password id accepted with
    ⟨name, text, hash, rfl, -, -, -, -, -, -, -, hok⟩ | ⟨code, herr⟩
  · have hne : name ≠ u := fun heq => hother (congrArg some heq)
    rw [hok]
    refine ⟨?_, h.sessions⟩
    rw [List.filter_append, h.users]
    simp [hne]
  · rw [herr]
    exact h

theorem Alone.login (h : Alone u own w v) (password : Option CString) (newId : Uuid) :
    (login argon2 v (some u) password newId).2 = (login argon2 w (some u) password newId).2 ∧
      Alone u own (login argon2 w (some u) password newId).1
        (login argon2 v (some u) password newId).1 := by
  unfold Auth.login
  cases hname : (some u).filter (·.bytes ≠ []) with
  | none => exact ⟨rfl, h⟩
  | some name =>
  obtain rfl := Option.some.inj (Option.filter_eq_some_iff.mp hname).1
  dsimp only
  cases password.filter (·.bytes ≠ []) with
  | none => exact ⟨rfl, h⟩
  | some text =>
  dsimp only
  rw [h.getUserByUsername]
  cases UserPg.getUserByUsername w.users u with
  | error code => exact ⟨rfl, h⟩
  | ok user =>
  dsimp only
  split
  · simp only [SessionValkey.setSession_eq, true_and]
    exact h.update newId _
  · exact ⟨rfl, h⟩

/-- A call of the user does the same to what belongs to it. -/
theorem step_own (h : Alone u own w v) {a : Action} (hown : a.isOwn u own = true) :
    (step argon2 v a).2 = (step argon2 w a).2 ∧
      Alone u own (step argon2 w a).1 (step argon2 v a).1 := by
  cases a with
  | registerUser username password id accepted =>
      obtain rfl : username = some u := of_decide_eq_true hown
      obtain ⟨hanswer, hnext⟩ := @Alone.registerUser argon2 u own w v h password id accepted
      exact ⟨congrArg Answer.registered hanswer, hnext⟩
  | login username password newId =>
      obtain rfl : username = some u := of_decide_eq_true hown
      obtain ⟨hanswer, hnext⟩ := @Alone.login argon2 u own w v h password newId
      exact ⟨congrArg Answer.loggedIn hanswer, hnext⟩
  | logout s =>
      have hstore := h.sessions s hown
      refine ⟨?_, h.update s none⟩
      simp only [step, logout, SessionValkey.removeSession, Store.del, hstore]
  | getUser s =>
      have hstore := h.sessions s hown
      refine ⟨?_, h⟩
      simp only [step, getUser, SessionValkey.getUser, Store.get, hstore]
  | expire s => exact ⟨rfl, h.update s none⟩

/-- A call of another user does nothing to what belongs to the user. -/
theorem step_other (h : Alone u own w v) {a : Action} (howns : a.Owns u own)
    (hother : a.isOwn u own = false) : Alone u own (step argon2 w a).1 v := by
  cases a with
  | registerUser username password id accepted =>
      exact h.registerUser_other (of_decide_eq_false hother) password id accepted
  | login username password newId =>
      have hnot : own newId = false := by
        rw [Bool.eq_false_iff]
        exact fun hnew => of_decide_eq_false hother (howns.mp hnew)
      rcases @login_cases argon2 w username password newId with
        ⟨name, text, user, -, -, -, -, -, hok⟩ | ⟨code, herr⟩
      · rw [step, hok]
        exact h.update_other hnot _
      · rw [step, herr]
        exact h
  | logout s => exact h.update_other hother none
  | getUser s => exact h
  | expire s => exact h.update_other hother none

end RePlace.Auth
