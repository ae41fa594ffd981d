import RePlace.Service.SessionLife
import RePlace.Service.Template

/-!
# The auth service over the mocks

The integration tests run `service::Auth` over a repository that keeps the user added
last and one that keeps the session opened last. A session of theirs is found exactly as
long as no other one has been opened, with the user registered last before it: a logout
does not end it, and neither registrations nor time do (`mock_sessions`).
-/

namespace RePlace

open History (Since since_concat not_since_nil)

/-- `MockUserRepo`, with the uuid that is generated. -/
def mockUserRepo : UserRepo User where
  addUser _ user id _ := ({ user with id := id }, .ok id)
  getUserByUsername mock username :=
    if mock.username ≠ username.bytes then .error .notFound else .ok mock

/-- The members of `MockSessionRepo`. -/
structure MockSession where
  sessionId : Uuid := .empty
  user : User := {}

/-- The session is the one that is asked for, and there is one. -/
def MockSession.Holds (mock : MockSession) (s : Uuid) : Prop :=
  mock.sessionId.isEmpty = false ∧ mock.sessionId = s

instance (mock : MockSession) (s : Uuid) : Decidable (mock.Holds s) :=
  inferInstanceAs (Decidable (_ ∧ _))

/-- `MockSessionRepo`, with the uuid that is generated. -/
def mockSessionRepo : SessionRepo MockSession where
  setSession _ user newId := ({ sessionId := newId, user := user }, .ok newId)
  getUser mock s := if mock.Holds s then some (.ok mock.user) else some (.error .notFound)
  removeSession mock s := (mock, if mock.Holds s then .ok () else .error .notFound)

namespace Auth

namespace Template

variable {argon2 : Argon2}

/-- Over every repository a registration adds the same user, or it ends with the same
error. -/
theorem registerUser_built (username password : Option CString) :
    (∃ name text hash, username = some name ∧ password = some text ∧
      name.bytes ≠ [] ∧ name.bytes.length ≤ 60 ∧ Hashed argon2 text hash ∧
      ∀ {σ : Type} (U : UserRepo σ) (users : σ) (id : Uuid) (accepted : Bool),
        registerUser U argon2 users username password id accepted =
          ((U.addUser users ⟨.empty, name.bytes, hash.bytes⟩ id accepted).1,
            (U.addUser users ⟨.empty, name.bytes, hash.bytes⟩ id accepted).2.map fun _ => ())) ∨
    ∃ code, ∀ {σ : Type} (U : UserRepo σ) (users : σ) (id : Uuid) (accepted : Bool),
      registerUser U argon2 users username password id accepted = (users, .error code) := by
  cases hname : ({} : User).setUsername username with
  | mk user result =>
  cases result with
  | error code => exact .inr ⟨code, fun U users id accepted => by simp only [registerUser, hname]⟩
  | ok _ =>
  cases htext : user.setPassword argon2 password with
  | mk user' result =>
  cases result with
  | error code =>
      exact .inr ⟨code, fun U users id accepted => by simp only [registerUser, hname, htext]⟩
  | ok _ =>
  obtain ⟨name, rfl, hne, hlen, rfl⟩ := User.setUsername_ok hname
  obtain ⟨text, hash, rfl, hmin, hmax, hhash, rfl⟩ := User.setPassword_ok htext
  refine .inl ⟨name, text, hash, rfl, rfl, hne, hlen, ⟨hmin, hmax, hhash⟩, ?_⟩
  intro σ U users id accepted
  simp only [registerUser, hname, htext]
  cases U.addUser users ⟨.empty, name.bytes, hash.bytes⟩ id accepted with
  | mk users' result => cases result <;> rfl

/-- A login with a username and a password looks for the user and verifies the password. -/
theorem login_eq {name text : CString} (hname : name.bytes ≠ []) (htext : text.bytes ≠ [])
    {σ τ : Type} (U : UserRepo σ) (S : SessionRepo τ) (users : σ) (sessions : τ) (newId : Uuid) :
    login U S argon2 users sessions (some name) (some text) newId =
      match U.getUserByUsername users name with
      | .error code => (sessions, .error code)
      | .ok user =>
          if Crypto.verifyPassword argon2 user.password text then S.setSession sessions user newId
          else (sessions, .error .useCaseAuthLoginPasswordMismatch) := by
  have hkept : ∀ s : CString, s.bytes ≠ [] → (some s).filter (·.bytes ≠ []) = some s := by
    intro s hs
    simp [Option.filter, hs]
  cases huser : U.getUserByUsername users name <;>
    simp only [login, hkept name hname, hkept text htext, huser]

/-- Over every repository a login has a username and a password, or it ends with the same
error. -/
theorem login_given (username password : Option CString) :
    (∃ name text, username = some name ∧ password = some text ∧ name.bytes ≠ [] ∧
      text.bytes ≠ []) ∨
    ∃ code, ∀ {σ τ : Type} (U : UserRepo σ) (S : SessionRepo τ) (users : σ) (sessions : τ)
        (newId : Uuid),
      login U S argon2 users sessions username password newId = (sessions, .error code) := by
  cases hname : username.filter (·.bytes ≠ []) with
  | none =>
      exact .inr ⟨.useCaseAuthLoginUsernameEmpty, fun U S users sessions newId => by
        simp only [login, hname]⟩
  | some name =>
  cases htext : password.filter (·.bytes ≠ []) with
  | none =>
      exact .inr ⟨.useCaseAuthLoginPasswordEmpty, fun U S users sessions newId => by
        simp only [login, hname, htext]⟩
  | some text =>
  obtain ⟨rfl, hne⟩ := Option.filter_eq_some_iff.mp hname
  obtain ⟨rfl, hne'⟩ := Option.filter_eq_some_iff.mp htext
  exact .inl ⟨name, text, rfl, rfl, by simpa using hne, by simpa using hne'⟩

end Template

/-! ## Runs -/

/-- The mocks of the tests. -/
structure Mocks where
  users : User := {}
  sessions : MockSession := {}

namespace Mocks

open Template (registerUser_built login_given)

variable (argon2 : Argon2)

/-- One call over the mocks; nothing expires in them. -/
def step (m : Mocks) : Action → Mocks × Answer
  | .registerUser username password id accepted =>
      let (users, result) :=
        Template.registerUser mockUserRepo argon2 m.users username password id accepted
      ({ m with users }, .registered result)
  | .login username password newId =>
      let (sessions, result) :=
        Template.login mockUserRepo mockSessionRepo argon2 m.users m.sessions username password
          newId
      ({ m with sessions }, .loggedIn result)
  | .logout s =>
      let (sessions, result) := Template.logout mockSessionRepo m.sessions s
      ({ m with sessions }, .loggedOut result)
  | .getUser s => (m, .gotUser (Template.getUser mockSessionRepo m.sessions s))
  | .expire _ => (m, .expired)

/-- The runs over new mocks. -/
abbrev Run : List (Action × Answer) → Mocks → Prop := History.Run (Mocks.step argon2) {}

/-- The entry is a registration answered `OK`. -/
def Registers (e : Action × Answer) : Prop := e.2 = .registered (.ok ())

/-- The entry is a login answered with a session. -/
def LogsIn (e : Action × Answer) : Prop := ∃ s, e.2 = .loggedIn (.ok s)

/-- The entry registers the user. -/
def RegistersUser (user : User) (e : Action × Answer) : Prop :=
  ∃ name text hash accepted, user = ⟨user.id, CString.bytes name, CString.bytes hash⟩ ∧
    name.bytes ≠ [] ∧ name.bytes.length ≤ 60 ∧ Hashed argon2 text hash ∧
    e = (.registerUser (some name) (some text) user.id accepted, .registered (.ok ()))

/-- The last registration answered `OK` is that of the user. -/
def LastUser (hist : List (Action × Answer)) (user : User) : Prop :=
  Since (fun _ => RegistersUser argon2 user) Registers hist

/-- The entry is a login for the user with a password that is verified. -/
def OpensFor (s : Uuid) (user : User) (e : Action × Answer) : Prop :=
  ∃ name text, user.username = CString.bytes name ∧
    Crypto.verifyPassword argon2 user.password text = true ∧
    e = (.login (some name) (some text) s, .loggedIn (.ok s))

/-- The last login answered with a session is one that opened this session for the user
registered last before it. -/
def LastSession (hist : List (Action × Answer)) (s : Uuid) (user : User) : Prop :=
  Since (fun pre e => LastUser argon2 pre user ∧ OpensFor argon2 s user e) LogsIn hist

/-- What the mocks keep is what the history ends with. -/
structure Invariant (hist : List (Action × Answer)) (m : Mocks) : Prop where
  users : ∀ user, LastUser argon2 hist user ↔ m.users = user ∧ user.username ≠ []
  sessions : ∀ s user, LastSession argon2 hist s user ↔ m.sessions.Holds s ∧ m.sessions.user = user

variable {argon2} {hist : List (Action × Answer)} {m : Mocks}

theorem invariant_init : Invariant argon2 [] {} where
  users user := by
    refine iff_of_false not_since_nil ?_
    rintro ⟨rfl, hne⟩
    exact hne rfl
  sessions s user := by
    refine iff_of_false not_since_nil ?_
    rintro ⟨⟨hfull, -⟩, -⟩
    cases hfull

/-- An entry that neither registers nor opens a session. -/
theorem Invariant.idle (h : Invariant argon2 hist m) {e : Action × Answer}
    (hreg : ¬ Registers e) (hlogin : ¬ LogsIn e) : Invariant argon2 (hist ++ [e]) m where
  users user := by
    rw [← h.users user, LastUser, since_concat]
    refine ⟨fun hor => (hor.resolve_left ?_).1, fun hlast => .inr ⟨hlast, hreg⟩⟩
    rintro ⟨name, text, hash, accepted, -, -, -, -, rfl⟩
    exact hreg rfl
  sessions s user := by
    rw [← h.sessions s user, LastSession, since_concat]
    refine ⟨fun hor => (hor.resolve_left ?_).1, fun hlast => .inr ⟨hlast, hlogin⟩⟩
    rintro ⟨-, name, text, -, -, rfl⟩
    exact hlogin ⟨s, rfl⟩

theorem Invariant.register (h : Invariant argon2 hist m) {name text hash : CString} (id : Uuid)
    (accepted : Bool) (hne : name.bytes ≠ []) (hlen : name.bytes.length ≤ 60)
    (hhash : Hashed argon2 text hash) :
    Invariant argon2
      (hist ++ [(.registerUser (some name) (some text) id accepted, .registered (.ok ()))])
      { m with users := ⟨id, name.bytes, hash.bytes⟩ } where
  users user := by
    rw [LastUser, since_concat]
    constructor
    · rintro (⟨name', text', hash', accepted', huser, hne', -, hhash', he⟩ | ⟨-, hnot⟩)
      · simp only [Prod.mk.injEq, Action.registerUser.injEq, Option.some.injEq, and_true] at he
        obtain ⟨rfl, rfl, hid, -⟩ := he
        obtain rfl : hash = hash' := Except.ok.inj (hhash.2.2.symm.trans hhash'.2.2)
        rw [huser, ← hid]
        exact ⟨rfl, hne'⟩
      · exact absurd rfl hnot
    · rintro ⟨rfl, -⟩
      exact .inl ⟨name, text, hash, accepted, rfl, hne, hlen, hhash, rfl⟩
  sessions s user := by
    rw [← h.sessions s user, LastSession, since_concat]
    refine ⟨fun hor => (hor.resolve_left ?_).1, fun hlast => .inr ⟨hlast, ?_⟩⟩
    · rintro ⟨-, name', text', -, -, he⟩
      cases he
    · rintro ⟨_, he⟩
      cases he

theorem Invariant.open (h : Invariant argon2 hist m) {name text : CString} {newId : Uuid}
    (hname : m.users.username = name.bytes) (hne : name.bytes ≠ [])
    (hverify : Crypto.verifyPassword argon2 m.users.password text = true)
    (hfull : newId.isEmpty = false) :
    Invariant argon2 (hist ++ [(.login (some name) (some text) newId, .loggedIn (.ok newId))])
      { m with sessions := { sessionId := newId, user := m.users } } where
  users user := by
    rw [← h.users user, LastUser, since_concat]
    refine ⟨fun hor => (hor.resolve_left ?_).1, fun hlast => .inr ⟨hlast, ?_⟩⟩
    · rintro ⟨_, _, _, _, -, -, -, -, he⟩
      cases he
    · intro he
      cases he
  sessions s user := by
    rw [LastSession, since_concat]
    constructor
    · rintro (⟨hlast, name', text', -, -, he⟩ | ⟨-, hnot⟩)
      · simp only [Prod.mk.injEq, Action.login.injEq, Option.some.injEq] at he
        obtain ⟨⟨-, -, rfl⟩, -⟩ := he
        exact ⟨⟨hfull, rfl⟩, ((h.users user).mp hlast).1⟩
      · exact absurd ⟨newId, rfl⟩ hnot
    · rintro ⟨⟨-, rfl⟩, rfl⟩
      exact .inl ⟨(h.users _).mpr ⟨rfl, hname ▸ hne⟩, name, text, hname, hverify, rfl⟩

theorem invariant_step (h : Invariant argon2 hist m) (a : Action)
    (hfull : ∀ u ∈ generatedBy (a, (Mocks.step argon2 m a).2), u.Full) :
    Invariant argon2 (hist ++ [(a, (Mocks.step argon2 m a).2)]) (Mocks.step argon2 m a).1 := by
  cases a with
  | registerUser username password id accepted =>
      rcases @registerUser_built argon2 username password with
        ⟨name, text, hash, rfl, rfl, hne, hlen, hhash, hadd⟩ | ⟨code, herr⟩
      · simp only [Mocks.step, hadd]
        exact h.register id accepted hne hlen hhash
      · simp only [Mocks.step, herr]
        exact h.idle nofun nofun
  | login username password newId =>
      rcases @login_given argon2 username password with
        ⟨name, text, rfl, rfl, hne, hne'⟩ | ⟨code, herr⟩
      · simp only [Mocks.step, Template.login_eq hne hne', mockUserRepo] at hfull ⊢
        by_cases hname : m.users.username = name.bytes
        · rw [if_neg (not_not.mpr hname)] at hfull ⊢
          by_cases hverify : Crypto.verifyPassword argon2 m.users.password text = true
          · simp only [hverify, if_true] at hfull ⊢
            exact h.open hname hne hverify (hfull newId (List.mem_singleton_self newId)).not_isEmpty
          · simp only [hverify]
            exact h.idle nofun nofun
        · rw [if_pos hname]
          exact h.idle nofun nofun
      · simp only [Mocks.step, herr]
        exact h.idle nofun nofun
  | logout s => exact h.idle nofun nofun
  | getUser s => exact h.idle nofun nofun
  | expire s => exact h.idle nofun nofun

/-- A session is found over the mocks, and a logout of it answered `OK`, exactly when the
last login that returned a session returned this one; it is found with the user that was
registered last before that login. What has been logged out is found as before. -/
theorem mock_sessions (hrun : Mocks.Run argon2 hist m) (hfull : ∀ u ∈ generated hist, u.Full)
    (s : Uuid) :
    (∀ user, Template.getUser mockSessionRepo m.sessions s = some (.ok user) ↔
      LastSession argon2 hist s user) ∧
    ((Template.logout mockSessionRepo m.sessions s).2 = .ok () ↔
      ∃ user, LastSession argon2 hist s user) := by
  have hinv : (∀ u ∈ generated hist, u.Full) → Invariant argon2 hist m := by
    refine hrun.induction (K := fun hist m =>
      (∀ u ∈ generated hist, u.Full) → Invariant argon2 hist m) (fun _ => invariant_init) ?_
    intro hist m a ih hfull
    simp only [generated_concat, List.mem_append] at hfull
    exact invariant_step (ih fun u hu => hfull u (.inl hu)) a fun u hu => hfull u (.inr hu)
  have hlast := (hinv hfull).sessions s
  simp only [hlast, Template.getUser, Template.logout, mockSessionRepo]
  by_cases hholds : m.sessions.Holds s
  · simp [hholds]
  · simp [hholds]

/-- `alice` has been registered, has logged in and has logged out. -/
def sampleHist : List (Action × Answer) :=
  [(sampleRegister (.lit "password"), .registered (.ok ())),
    (.login (some (.lit "alice")) (some (.lit "password")) sampleSession,
      .loggedIn (.ok sampleSession)),
    (.logout sampleSession, .loggedOut (.ok ()))]

theorem mock_sessions_sample :
    ∃ m, Mocks.Run sampleArgon2 sampleHist m ∧
      (∀ user, Template.getUser mockSessionRepo m.sessions sampleSession = some (.ok user) ↔
        LastSession sampleArgon2 sampleHist sampleSession user) ∧
      ((Template.logout mockSessionRepo m.sessions sampleSession).2 = .ok () ↔
        ∃ user, LastSession sampleArgon2 sampleHist sampleSession user) := by
  have hrun : Mocks.Run sampleArgon2 sampleHist _ := .next (.next (.next .start _) _) _
  exact ⟨_, hrun, mock_sessions hrun (by decide) sampleSession⟩

end Mocks

end Auth

end RePlace
