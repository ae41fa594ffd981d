import RePlace.Repo.Faults

/-!
# Calls that fail

The calls of the auth service with all that can fail in them. `step` of the service is the
case in which nothing fails (`step_unfailing`). A registration or a logout that fails has
either its whole effect or none; a login also when it is answered.
-/

namespace RePlace

/-- What fails in the setters of a user. -/
structure UserFaults where
  username : Allocation := none
  hash : Allocation := none
  password : Allocation := none

/-- The strings have been copied. -/
def UserFaults.stored (f : UserFaults) : Bool :=
  f.username.isNone && f.hash.isNone && f.password.isNone

namespace Auth.Faulty

open Fallible (Attempt)

variable (argon2 : Argon2)

/-! ## The service -/

/-- `Auth::register_user`. -/
def registerUser (w : World) (username password : Option CString) (id : Uuid) (accepted : Bool)
    (user : UserFaults) (db : DbFaults) : World × Except ErrorCode Unit :=
  match User.Alloc.setUsername user.username {} username with
  | (_, .error code) => (w, .error code)
  | (newUser, .ok ()) =>
      match User.Alloc.setPassword argon2 user.hash user.password newUser password with
      | (_, .error code) => (w, .error code)
      | (newUser, .ok ()) =>
          match UserPg.addUserFaulty db w.users newUser id accepted with
          | (users, .error code) => ({ w with users }, .error code)
          | (users, .ok _) => ({ w with users }, .ok ())

/-- `Auth::login(const char*, const char*)`. -/
def login (w : World) (username password : Option CString) (newId : Uuid) (user : UserFaults)
    (db : DbFaults) (store : StoreFaults) : World × Except ErrorCode Uuid :=
  match username.filter (·.bytes ≠ []) with
  | none => (w, .error .useCaseAuthLoginUsernameEmpty)
  | some username =>
      match password.filter (·.bytes ≠ []) with
      | none => (w, .error .useCaseAuthLoginPasswordEmpty)
      | some password =>
          match UserPg.getUserByUsernameFaulty db user.username user.password w.users username with
          | .error code => (w, .error code)
          | .ok found =>
              if Crypto.verifyPassword argon2 found.password password then
                let (sessions, result) :=
                  SessionValkey.setSessionFaulty store w.sessions found newId
                ({ w with sessions }, result)
              else (w, .error .useCaseAuthLoginPasswordMismatch)

/-- `Auth::logout`. -/
def logout (w : World) (s : Uuid) (store : StoreFaults) : World × Except ErrorCode Unit :=
  let (sessions, result) := SessionValkey.removeSessionFaulty store w.sessions s
  ({ w with sessions }, result)

/-- `Auth::get_user`. -/
def getUser (w : World) (s : Uuid) (store : StoreFaults) : Option (Except ErrorCode User) :=
  SessionValkey.getUserFaulty store w.sessions s

/-- A call with what fails in it, or the expiry of a session. -/
inductive Call
  | registerUser (username password : Option CString) (id : Uuid) (accepted : Bool)
      (user : UserFaults) (db : DbFaults)
  | login (username password : Option CString) (newId : Uuid) (user : UserFaults)
      (db : DbFaults) (store : StoreFaults)
  | logout (s : Uuid) (store : StoreFaults)
  | getUser (s : Uuid) (store : StoreFaults)
  | expire (s : Uuid)

/-- One call, or the expiry of a session. -/
def step (w : World) : Call → World × Answer
  | .registerUser username password id accepted user db =>
      let (w, result) := registerUser argon2 w username password id accepted user db
      (w, .registered result)
  | .login username password newId user db store =>
      let (w, result) := login argon2 w username password newId user db store
      (w, .loggedIn result)
  | .logout s store =>
      let (w, result) := logout w s store
      (w, .loggedOut result)
  | .getUser s store => (w, .gotUser (getUser w s store))
  | .expire s => ({ w with sessions := w.sessions.expire (SessionValkey.key s) }, .expired)

/-- The runs of the service, from an empty table and an empty store. -/
abbrev Run : List (Call × Answer) → World → Prop := History.Run (step argon2) {}

/-- The call in which nothing fails. -/
def Call.unfailing : Action → Call
  | .registerUser username password id accepted =>
      .registerUser username password id accepted {} {}
  | .login username password newId => .login username password newId {} {} {}
  | .logout s => .logout s {}
  | .getUser s => .getUser s {}
  | .expire s => .expire s

/-- What a call asks for. -/
def Call.action : Call → Action
  | .registerUser username password id accepted _ _ =>
      .registerUser username password id accepted
  | .login username password newId _ _ _ => .login username password newId
  | .logout s _ => .logout s
  | .getUser s _ => .getUser s
  | .expire s => .expire s

/-! ## When nothing fails -/

variable {argon2}

theorem registerUser_unfailing (w : World) (username password : Option CString) (id : Uuid)
    (accepted : Bool) :
    registerUser argon2 w username password id accepted {} {} =
      Auth.registerUser argon2 w username password id accepted := by
  have hname : User.Alloc.setUsername none {} username = ({} : User).setUsername username :=
    User.apply_setUsername {} username
  rw [registerUser, Auth.registerUser, hname]
  cases ({} : User).setUsername username with
  | mk user result =>
  cases result with
  | error code => rfl
  | ok _ =>
  have htext : User.Alloc.setPassword argon2 none none user password =
      user.setPassword argon2 password := User.apply_setPassword argon2 user password
  simp only [htext]
  rfl

theorem login_unfailing (w : World) (username password : Option CString) (newId : Uuid) :
    login argon2 w username password newId {} {} {} =
      Auth.login argon2 w username password newId := by
  have hfind : ∀ name, UserPg.getUserByUsernameFaulty {} none none w.users name =
      UserPg.getUserByUsername w.users name := by
    intro name
    rw [UserPg.getUserByUsername]
    cases hrow : w.users.find? fun row => row.username = name <;>
      simp only [UserPg.getUserByUsernameFaulty, DbFaults.opened, PgManager.getClient,
        PgClient.prepare, PgClient.execute, allocate, hrow] <;> rfl
  simp only [login, Auth.login, hfind]
  rfl

theorem getUser_unfailing (w : World) (s : Uuid) : getUser w s {} = Auth.getUser w s := by
  rw [getUser, Auth.getUser, SessionValkey.getUserFaulty, SessionValkey.getUser]
  simp only [ValkeyManager.getClient, Command.reply]
  cases w.sessions.get (SessionValkey.key s) <;> rfl

/-- When nothing fails, a call is that of the service. -/
theorem step_unfailing (w : World) (a : Action) :
    step argon2 w (.unfailing a) = Auth.step argon2 w a := by
  cases a with
  | registerUser username password id accepted =>
      rw [Call.unfailing, step, registerUser_unfailing]
      rfl
  | login username password newId =>
      rw [Call.unfailing, step, login_unfailing]
      rfl
  | logout s => rfl
  | getUser s =>
      rw [Call.unfailing, step, getUser_unfailing]
      rfl
  | expire s => rfl

/-! ## How the calls end -/

/-- A registration that fails somewhere. -/
theorem registerUser_attempt (w : World) (username password : Option CString) (id : Uuid)
    (accepted : Bool) (user : UserFaults) (db : DbFaults) :
    Attempt w (Auth.registerUser argon2 w username password id accepted)
      (user.stored && db.executed) (user.stored && db.answered)
      (registerUser argon2 w username password id accepted user db) := by
  obtain ⟨nameAlloc, hash, alloc⟩ := user
  by_cases hstored : UserFaults.stored ⟨nameAlloc, hash, alloc⟩ = true
  · obtain ⟨⟨rfl, rfl⟩, rfl⟩ : (nameAlloc = none ∧ hash = none) ∧ alloc = none := by
      simpa [UserFaults.stored] using hstored
    have hname : User.Alloc.setUsername none {} username = ({} : User).setUsername username :=
      User.apply_setUsername {} username
    have hanswered : db.answered = true → db.executed = true := DbFaults.executed_of_answered
    simp only [UserFaults.stored, Option.isNone_none, Bool.true_and, registerUser,
      Auth.registerUser, hname]
    cases ({} : User).setUsername username with
    | mk newUser result =>
    cases result with
    | error code => exact .of_error rfl hanswered
    | ok _ =>
    have htext : User.Alloc.setPassword argon2 none none newUser password =
        newUser.setPassword argon2 password := User.apply_setPassword argon2 newUser password
    simp only [htext]
    cases newUser.setPassword argon2 password with
    | mk newUser result =>
    cases result with
    | error code => exact .of_error rfl hanswered
    | ok _ =>
    have hadd := UserPg.addUserFaulty_attempt db w.users newUser id accepted
    dsimp only
    generalize UserPg.addUserFaulty db w.users newUser id accepted = r at hadd ⊢
    generalize UserPg.addUser w.users newUser id accepted = full at hadd ⊢
    generalize db.executed = executed, db.answered = answered at hadd ⊢
    obtain ⟨users, result⟩ := full
    cases hadd with
    | done => cases result <;> exact .done
    | unanswered code => cases result <;> exact .unanswered code
    | missed code => exact .missed code
  · have hnot : UserFaults.stored ⟨nameAlloc, hash, alloc⟩ = false := by simpa using hstored
    obtain ⟨code, hcode⟩ : ∃ code, registerUser argon2 w username password id accepted
        ⟨nameAlloc, hash, alloc⟩ db = (w, .error code) := by
      unfold registerUser
      cases nameAlloc with
      | some code =>
          obtain ⟨code', h⟩ := User.setUsername_of_alloc code {} username
          exact ⟨code', by simp only [h]⟩
      | none =>
          dsimp only
          cases User.Alloc.setUsername none {} username with
          | mk newUser result =>
          cases result with
          | error code => exact ⟨code, rfl⟩
          | ok _ =>
              have hsome : hash ≠ none ∨ alloc ≠ none := by
                by_contra hboth
                rw [not_or, not_not, not_not] at hboth
                obtain ⟨rfl, rfl⟩ := hboth
                exact hstored rfl
              obtain ⟨code, h⟩ := @User.setPassword_of_alloc argon2 _ _ hsome newUser password
              exact ⟨code, by simp only [h]⟩
    rw [hnot, hcode]
    exact .missed code

/-- A logout that fails somewhere. -/
theorem logout_attempt (w : World) (s : Uuid) (store : StoreFaults) :
    Attempt w (Auth.logout w s) store.executed store.answered (logout w s store) := by
  unfold logout Auth.logout SessionValkey.removeSessionFaulty SessionValkey.removeSession
    StoreFaults.executed StoreFaults.answered
  cases ValkeyManager.getClient store with
  | error code => exact .missed code
  | ok _ =>
  cases store.command with
  | replied => exact .done
  | refused message => exact .missed _
  | lost executed =>
      cases executed with
      | true => exact .unanswered _
      | false => exact .missed _

/-- Where nobody can log in with an unread password, a login of which no record has been
stored changes nothing, and it succeeds only when the store has refused the record. -/
theorem login_missed (hempty : argon2.RefusesEmpty) (w : World)
    (username password : Option CString) (newId : Uuid) {user : UserFaults} {db : DbFaults}
    {store : StoreFaults}
    (hmissed : (user.password.isNone && db.answered && store.written) = false) :
    (login argon2 w username password newId user db store).1 = w ∧
      ((login argon2 w username password newId user db store).2.isOk = true →
        ∃ message, store.command = .refused message) := by
  unfold login
  cases username.filter (·.bytes ≠ []) with
  | none => exact ⟨rfl, fun h => by cases h⟩
  | some name =>
  dsimp only
  cases htext : password.filter (·.bytes ≠ []) with
  | none => exact ⟨rfl, fun h => by cases h⟩
  | some text =>
  dsimp only
  cases hdb : db.answered with
  | false =>
      obtain ⟨code, hcode⟩ :=
        UserPg.getUserByUsernameFaulty_error hdb user.username user.password w.users name
      rw [hcode]
      exact ⟨rfl, fun h => by cases h⟩
  | true =>
  rcases UserPg.getUserByUsernameFaulty_answered hdb user.username user.password w.users name with
    ⟨code, -, hcode⟩ | ⟨row, -, found, found', -, hfound, -, hread⟩
  · rw [hcode]
    exact ⟨rfl, fun h => by cases h⟩
  rw [hfound]
  dsimp only
  split
  · rename_i hverify
    have hpassword : user.password = none := by
      by_contra hcopy
      have hne : text.bytes ≠ [] := by simpa using (Option.filter_eq_some_iff.mp htext).2
      rw [hread.password, if_neg hcopy] at hverify
      have hnil := hempty _ _ hverify
      rw [CString.strnlen, List.take_eq_nil_iff] at hnil
      rcases hnil with hzero | hnil
      · have := List.length_pos_iff.mpr hne
        omega
      · exact hne hnil
    have hwritten : store.written = false := by
      rwa [hpassword, hdb, Option.isNone_none, Bool.true_and, Bool.true_and] at hmissed
    obtain ⟨hkept, hok⟩ := SessionValkey.setSessionFaulty_missed hwritten w.sessions found' newId
    refine ⟨congrArg (World.mk w.users) hkept, fun h => ?_⟩
    cases hresult : (SessionValkey.setSessionFaulty store w.sessions found' newId).2 with
    | ok s => exact hok s hresult
    | error code =>
        rw [hresult] at h
        cases h
  · exact ⟨rfl, fun h => by cases h⟩

end Auth.Faulty

end RePlace
