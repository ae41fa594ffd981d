import Mathlib.Data.List.Forall2
import RePlace.Repo.SessionRecord
import RePlace.Service.Mocks

/-!
# What the mocks stand in for

The mocks keep one user and one session. As long as a run asks for no more, the service
over them answers as it does over the database and the store (`mocks_agree`), but for the
password: the user of a session has it over the mocks only. The test of the service relies
on that, so it is one of the mocks (`mock_test_iff`).
-/

namespace RePlace.Auth

namespace Mocks

/-- What a history leaves to be asked for: whether a user has been registered, the session
opened last, and the sessions that the mocks no longer stand in for, because they have been
logged out or another one has been opened since. -/
structure Memory where
  registered : Bool := false
  newest : Option Uuid := none
  stale : List Uuid := []

namespace Memory

/-- What an entry does to it. -/
def note (g : Memory) : Action × Answer → Memory
  | (_, .registered (.ok _)) => { g with registered := true }
  | (_, .loggedIn (.ok s)) =>
      { g with newest := some s, stale := (g.stale ++ g.newest.toList).filter (· ≠ s) }
  | (.logout s, .loggedOut (.ok _)) => { g with stale := s :: g.stale }
  | _ => g

/-- What the mocks stand in for: the registration of one user, whom the database takes,
logins, and calls for the newest session or one that has never been opened. -/
def Covers (g : Memory) : Action → Prop
  | .registerUser _ _ id accepted => g.registered = false ∧ id.Full ∧ accepted = true
  | .login _ _ newId => newId.Full
  | .logout s => s ∉ g.stale
  | .getUser s => s ∉ g.stale
  | .expire _ => False

end Memory

/-- What a history leaves to be asked for. -/
def memory (hist : List (Action × Answer)) : Memory := hist.foldl Memory.note {}

/-- Every entry of the history is covered by what the entries before it have left, behind a
history that has left this. -/
def Covered (g : Memory) : List (Action × Answer) → Prop
  | [] => True
  | e :: hist => g.Covers e.1 ∧ Covered (g.note e) hist

theorem covered_concat (g : Memory) (hist : List (Action × Answer)) (e : Action × Answer) :
    Covered g (hist ++ [e]) ↔ Covered g hist ∧ (hist.foldl Memory.note g).Covers e.1 := by
  induction hist generalizing g with
  | nil => exact and_comm
  | cons e' hist ih =>
      rw [List.cons_append, Covered, Covered, ih, and_assoc]
      rfl

theorem memory_concat (hist : List (Action × Answer)) (e : Action × Answer) :
    memory (hist ++ [e]) = (memory hist).note e := by
  simp [memory]

/-- The answers are the same, but for the code of an error, and a user of a session comes
without the password. -/
def Matches : Answer → Answer → Prop
  | .registered r, .registered r' => r.toOption = r'.toOption
  | .loggedIn r, .loggedIn r' => r.toOption = r'.toOption
  | .loggedOut r, .loggedOut r' => r.toOption = r'.toOption
  | .gotUser r, .gotUser r' => ∃ x x', r = some x ∧ r' = some x' ∧
      x'.toOption = x.toOption.map fun user => { user with password := [] }
  | _, _ => False

/-- The mocks and the repositories of the server hold the same, as far as it can be asked
for. -/
structure Related (g : Memory) (m : Mocks) (w : World) : Prop where
  users : (g.registered = false ∧ m.users = {} ∧ w.users = []) ∨
    ∃ row, g.registered = true ∧ w.users = [row] ∧ m.users = row.user ∧ m.users.Accepted
  newest : g.newest = if m.sessions.sessionId.isEmpty then none else some m.sessions.sessionId
  sessions : ∀ s, s ∉ g.stale → w.sessions (SessionValkey.key s) =
    if m.sessions.Holds s then some (SessionValkey.record m.sessions.user) else none
  accepted : m.sessions.sessionId.isEmpty = false → m.sessions.user.Accepted

variable {argon2 : Argon2} {g : Memory} {m : Mocks} {w : World}

theorem related_init : Related {} {} {} where
  users := .inl ⟨rfl, rfl, rfl⟩
  newest := rfl
  sessions s _ := by
    rw [if_neg]
    rintro ⟨hfull, -⟩
    cases hfull
  accepted h := by cases h

theorem Related.registerUser (h : Related g m w) {username password : Option CString} {id : Uuid}
    {accepted : Bool} (hcovers : g.Covers (.registerUser username password id accepted)) :
    Related (g.note (.registerUser username password id accepted,
        (Mocks.step argon2 m (.registerUser username password id accepted)).2))
      (Mocks.step argon2 m (.registerUser username password id accepted)).1
      (Auth.step argon2 w (.registerUser username password id accepted)).1 ∧
    Matches (Mocks.step argon2 m (.registerUser username password id accepted)).2
      (Auth.step argon2 w (.registerUser username password id accepted)).2 := by
  obtain ⟨hnew, hfull, rfl⟩ := hcovers
  obtain ⟨-, husers, hrows⟩ | ⟨row, hreg, -⟩ := h.users
  · simp only [Mocks.step, Auth.step, Template.registerUser_userPg]
    rcases @Template.registerUser_built argon2 username password with
      ⟨name, text, hash, rfl, rfl, hne, hlen, hhash, hadd⟩ | ⟨code, herr⟩
    · have hrow : UserPg.addUser w.users ⟨.empty, name.bytes, hash.bytes⟩ id true =
          ([⟨id, name, hash⟩], .ok id) := by
        simp [UserPg.addUser, hrows]
      simp only [hadd, userPg, hrow]
      refine ⟨?_, rfl⟩
      exact
        { users := .inr ⟨⟨id, name, hash⟩, rfl, rfl, rfl, ⟨hfull, name.nulFree, hne, hlen⟩⟩
          newest := h.newest
          sessions := h.sessions
          accepted := h.accepted }
    · simp only [herr]
      exact ⟨h, rfl⟩
  · rw [hnew] at hreg
    cases hreg

/-- The repositories find the same user, or neither finds one. -/
theorem Related.found (h : Related g m w) {name : CString} (hne : name.bytes ≠ []) :
    (mockUserRepo.getUserByUsername m.users name = .ok m.users ∧
      UserPg.getUserByUsername w.users name = .ok m.users ∧ m.users.Accepted) ∨
    ∃ code code', mockUserRepo.getUserByUsername m.users name = .error code ∧
      UserPg.getUserByUsername w.users name = .error code' := by
  obtain ⟨-, husers, hrows⟩ | ⟨row, -, hrows, husers, haccepted⟩ := h.users
  · refine .inr ⟨.notFound, .repoUserNotFound, ?_, ?_⟩
    · rw [husers]
      exact if_pos hne.symm
    · simp [UserPg.getUserByUsername, hrows]
  · have hvalid : ∀ row' ∈ w.users,
        row'.username.bytes ≠ [] ∧ row'.username.bytes.length ≤ 60 := by
      rw [hrows]
      intro row' hrow'
      obtain rfl := List.mem_singleton.mp hrow'
      rw [husers] at haccepted
      exact ⟨haccepted.username_ne_nil, haccepted.username_le⟩
    by_cases hname : row.username = name
    · refine .inl ⟨?_, ?_, haccepted⟩
      · refine if_neg (not_not.mpr ?_)
        rw [husers, ← hname]
        rfl
      · rw [UserPg.getUserByUsername_iff_find hvalid]
        exact ⟨row, by simp [hrows, hname], husers⟩
    · refine .inr ⟨.notFound, .repoUserNotFound, if_pos ?_, ?_⟩
      · rw [husers]
        exact fun hsame => hname (CString.ext hsame)
      · simp [UserPg.getUserByUsername, hrows, hname]

/-- A session that has been opened is the newest one in both. -/
theorem Related.open (h : Related g m w) {user : User} (huser : user.Accepted) {newId : Uuid}
    (hfull : newId.Full) (a : Action) :
    Related (g.note (a, .loggedIn (.ok newId)))
      { m with sessions := { sessionId := newId, user := user } }
      ⟨w.users, Function.update w.sessions (SessionValkey.key newId)
        (some (SessionValkey.record user))⟩ where
  users := h.users
  newest := by
    simp [Memory.note, hfull.not_isEmpty]
  sessions s hs := by
    by_cases hnew : s = newId
    · subst hnew
      rw [if_pos ⟨hfull.not_isEmpty, rfl⟩]
      exact Function.update_self _ _ _
    · have hkey : SessionValkey.key s ≠ SessionValkey.key newId :=
        fun hsame => hnew (SessionValkey.key_injective hsame)
      have hstale : s ∉ g.stale ∧ s ∉ g.newest := by
        simpa [Memory.note, hnew] using hs
      rw [if_neg fun hholds => hnew hholds.2.symm]
      refine (Function.update_of_ne hkey _ _).trans ((h.sessions s hstale.1).trans (if_neg ?_))
      rintro ⟨hopen, hsame⟩
      refine hstale.2 ?_
      rw [h.newest, hopen, hsame]
      rfl
  accepted _ := huser

theorem Related.login (h : Related g m w) {username password : Option CString} {newId : Uuid}
    (hcovers : g.Covers (.login username password newId)) :
    Related (g.note (.login username password newId,
        (Mocks.step argon2 m (.login username password newId)).2))
      (Mocks.step argon2 m (.login username password newId)).1
      (Auth.step argon2 w (.login username password newId)).1 ∧
    Matches (Mocks.step argon2 m (.login username password newId)).2
      (Auth.step argon2 w (.login username password newId)).2 := by
  simp only [Mocks.step, Auth.step, Template.login_sessionValkey]
  rcases @Template.login_given argon2 username password with
    ⟨name, text, rfl, rfl, hne, hne'⟩ | ⟨code, herr⟩
  · simp only [Template.login_eq hne hne']
    rcases h.found hne with ⟨hmock, hrow, haccepted⟩ | ⟨code, code', hmock, hrow⟩
    · simp only [hmock, userPg, hrow]
      by_cases hverify : Crypto.verifyPassword argon2 m.users.password text = true
      · simp only [hverify, if_true, sessionValkey, SessionValkey.setSession_eq]
        exact ⟨h.open haccepted hcovers _, rfl⟩
      · simp only [hverify]
        exact ⟨h, rfl⟩
    · simp only [hmock, userPg, hrow]
      exact ⟨h, rfl⟩
  · simp only [herr]
    exact ⟨h, rfl⟩

theorem Related.logout (h : Related g m w) {s : Uuid} (hcovers : g.Covers (.logout s)) :
    Related (g.note (.logout s, (Mocks.step argon2 m (.logout s)).2))
      (Mocks.step argon2 m (.logout s)).1 (Auth.step argon2 w (.logout s)).1 ∧
    Matches (Mocks.step argon2 m (.logout s)).2 (Auth.step argon2 w (.logout s)).2 := by
  have hstore := h.sessions s hcovers
  have hkey : ∀ s', s' ≠ s → SessionValkey.key s' ≠ SessionValkey.key s :=
    fun s' hne hsame => hne (SessionValkey.key_injective hsame)
  simp only [Mocks.step, Auth.step, Template.logout, mockSessionRepo, Auth.logout,
    SessionValkey.removeSession, Store.del]
  by_cases hholds : m.sessions.Holds s
  · rw [if_pos hholds] at hstore ⊢
    rw [hstore]
    refine ⟨⟨h.users, h.newest, fun s' hs' => ?_, h.accepted⟩, rfl⟩
    obtain ⟨hne, hstale⟩ : s' ≠ s ∧ s' ∉ g.stale := by
      simpa [Memory.note] using hs'
    exact (Function.update_of_ne (hkey s' hne) _ _).trans (h.sessions s' hstale)
  · rw [if_neg hholds] at hstore ⊢
    rw [hstore]
    refine ⟨⟨h.users, h.newest, fun s' hs' => ?_, h.accepted⟩, rfl⟩
    by_cases hne : s' = s
    · subst hne
      rw [if_neg hholds]
      exact Function.update_self _ _ _
    · exact (Function.update_of_ne (hkey s' hne) _ _).trans (h.sessions s' hs')

theorem Related.getUser (h : Related g m w) {s : Uuid} (hcovers : g.Covers (.getUser s)) :
    Matches (Mocks.step argon2 m (.getUser s)).2 (Auth.step argon2 w (.getUser s)).2 := by
  have hstore := h.sessions s hcovers
  simp only [Mocks.step, Auth.step, Template.getUser, mockSessionRepo, Auth.getUser]
  by_cases hholds : m.sessions.Holds s
  · rw [if_pos hholds] at hstore ⊢
    rw [SessionValkey.getUser_of_accepted (h.accepted hholds.1) hstore]
    exact ⟨_, _, rfl, rfl, rfl⟩
  · rw [if_neg hholds] at hstore ⊢
    rw [SessionValkey.getUser_of_none hstore]
    exact ⟨_, _, rfl, rfl, rfl⟩

theorem Related.step (h : Related g m w) {a : Action} (hcovers : g.Covers a) :
    Related (g.note (a, (Mocks.step argon2 m a).2)) (Mocks.step argon2 m a).1
      (Auth.step argon2 w a).1 ∧
    Matches (Mocks.step argon2 m a).2 (Auth.step argon2 w a).2 := by
  cases a with
  | registerUser username password id accepted => exact h.registerUser hcovers
  | login username password newId => exact h.login hcovers
  | logout s => exact h.logout hcovers
  | getUser s => exact ⟨h, h.getUser hcovers⟩
  | expire s => exact hcovers.elim

/-- A run over the mocks that asks for no more than they stand in for is, call by call, a run
over the database and the store with the same answers, but for the codes of errors and the
passwords of the users of sessions. -/
theorem mocks_agree {hist : List (Action × Answer)} (hrun : Mocks.Run argon2 hist m)
    (hcovered : Covered {} hist) :
    ∃ hist' w, Auth.Run argon2 hist' w ∧
      List.Forall₂ (fun e e' => e.1 = e'.1 ∧ Matches e.2 e'.2) hist hist' := by
  suffices hsim : ∃ hist' w, Auth.Run argon2 hist' w ∧
      List.Forall₂ (fun e e' => e.1 = e'.1 ∧ Matches e.2 e'.2) hist hist' ∧
      Related (memory hist) m w by
    obtain ⟨hist', w, hrun', hmatch, -⟩ := hsim
    exact ⟨hist', w, hrun', hmatch⟩
  induction hrun with
  | start => exact ⟨[], {}, .start, .nil, related_init⟩
  | @next hist m hrun a ih =>
      obtain ⟨hbefore, hcovers⟩ := (covered_concat {} hist _).mp hcovered
      obtain ⟨hist', w, hrun', hmatch, hrel⟩ := ih hbefore
      obtain ⟨hrel', hans⟩ := hrel.step hcovers
      refine ⟨hist' ++ [(a, (Auth.step argon2 w a).2)], (Auth.step argon2 w a).1, hrun'.next a,
        List.rel_append hmatch (.cons ⟨rfl, hans⟩ .nil), ?_⟩
      rw [memory_concat]
      exact hrel'

theorem mocks_agree_sample :
    ∃ hist' w, Auth.Run sampleArgon2 hist' w ∧
      List.Forall₂ (fun e e' => e.1 = e'.1 ∧ Matches e.2 e'.2) sampleHist hist' := by
  have hrun : Mocks.Run sampleArgon2 sampleHist _ := .next (.next (.next .start _) _) _
  have hfull : sampleSession.Full := by decide
  exact mocks_agree hrun ⟨⟨rfl, by decide, rfl⟩, hfull, List.not_mem_nil, trivial⟩

end Mocks

/-! ## The test of the service -/

/-- What a test case returns. -/
inductive TestCode
  | ok
  | error (code : ErrorCode)
  | expectFailed
deriving DecidableEq

/-- The case of `test_auth`, over any repositories, with the uuids that are generated. -/
def Template.testAuth {σ τ : Type} (U : UserRepo σ) (S : SessionRepo τ) (argon2 : Argon2)
    (users : σ) (sessions : τ) (username password : CString) (id : Uuid) (accepted : Bool)
    (newId : Uuid) : Option TestCode :=
  match registerUser U argon2 users (some username) (some password) id accepted with
  | (_, .error code) => some (.error code)
  | (users, .ok ()) =>
      match login U S argon2 users sessions (some username) (some password) newId with
      | (_, .error code) => some (.error code)
      | (sessions, .ok sessionId) => do
          match ← getUser S sessions sessionId with
          | .error code => some (.error code)
          | .ok user =>
              if user.username ≠ username.bytes then some .expectFailed
              else if Crypto.verifyPassword argon2 user.password password then some .ok
              else some .expectFailed

variable {argon2 : Argon2}

/-- What is read from the store comes without a password. -/
theorem password_of_decode {json : Bytes} {user : User}
    (h : SessionValkey.decode json = some (.ok user)) : user.password = [] := by
  unfold SessionValkey.decode at h
  dsimp only at h
  split at h
  · cases h
  · split at h
    · cases h
    · rename_i user' hname
      obtain ⟨name, -, -, -, rfl⟩ := User.setUsername_ok hname
      rw [← Except.ok.inj (Option.some.inj h)]
      rfl

theorem password_of_getUser {store : Store} {s : Uuid} {user : User}
    (h : SessionValkey.getUser store s = some (.ok user)) : user.password = [] := by
  unfold SessionValkey.getUser at h
  split at h
  · cases h
  · exact password_of_decode h

/-- The password of a registration is the one that its login verifies. -/
theorem verifyPassword_of_hashed (hlaw : argon2.Lawful) {text hash : CString}
    (h : Hashed argon2 text hash) :
    Crypto.verifyPassword argon2 hash.bytes text = true := by
  obtain ⟨-, hmax, hhash⟩ := h
  rw [Crypto.verifyPassword_iff hlaw hhash]
  exact List.take_of_length_le hmax

/-- The user that a test is given for its session has a password that is verified. -/
theorem verified_of_testAuth {σ τ : Type} {U : UserRepo σ} {S : SessionRepo τ} {users : σ}
    {sessions : τ} {name text : CString} {id newId : Uuid} {accepted : Bool}
    (h : Template.testAuth U S argon2 users sessions name text id accepted newId = some .ok) :
    Acceptable argon2 name text ∧ ∃ sessions' s user,
      Template.getUser S sessions' s = some (.ok user) ∧
      Crypto.verifyPassword argon2 user.password text = true := by
  unfold Template.testAuth at h
  rcases @Template.registerUser_built argon2 (some name) (some text) with
    ⟨name', text', hash, hname, htext, hne, hlen, hhash, -⟩ | ⟨code, herr⟩
  · obtain rfl := Option.some.inj hname
    obtain rfl := Option.some.inj htext
    refine ⟨⟨hne, hlen, hhash.1, hhash.2.1, hash, hhash.2.2⟩, ?_⟩
    split at h
    · cases h
    · split at h
      · cases h
      · rename_i sessions' s _
        obtain ⟨result, hget, h⟩ := Option.bind_eq_some_iff.mp h
        split at h
        · cases h
        · rename_i user
          split at h
          · cases h
          · split at h
            · rename_i hverify
              exact ⟨sessions', s, user, hget, hverify⟩
            · cases h
  · rw [herr] at h
    cases h

/-- Over the mocks the test passes from any state of theirs, with exactly the credentials
that can be registered. Over the database and the store it passes from no state: the user of
a session comes without the password that is expected of it, and an empty hash verifies no
password that is not empty. -/
theorem mock_test_iff (hlaw : argon2.Lawful) (hnone : argon2.RefusesEmpty)
    (name text : CString) (id : Uuid) {newId : Uuid} (hfull : newId.Full) (accepted : Bool) :
    (∀ users sessions, Template.testAuth mockUserRepo mockSessionRepo argon2 users sessions name
        text id accepted newId = some .ok ↔ Acceptable argon2 name text) ∧
    ∀ rows store, Template.testAuth userPg sessionValkey argon2 rows store name text id accepted
      newId ≠ some .ok := by
  refine ⟨fun users sessions => ⟨fun h => (verified_of_testAuth h).1, ?_⟩, ?_⟩
  · rintro ⟨hne, hlen, hmin, hmax, hash, hhash⟩
    have hne' : text.bytes ≠ [] := by
      intro hnil
      simp [hnil] at hmin
    have hverify := verifyPassword_of_hashed hlaw ⟨hmin, hmax, hhash⟩
    have hholds : (⟨newId, ⟨id, name.bytes, hash.bytes⟩⟩ : MockSession).Holds newId :=
      ⟨hfull.not_isEmpty, rfl⟩
    simp only [Template.testAuth, Template.registerUser, User.setUsername_of_le _ hne hlen,
      User.setPassword_of_le _ hmin hmax hhash, mockUserRepo, Template.login_eq hne hne',
      ne_eq, not_true_eq_false, if_false, hverify, if_true, Template.getUser, mockSessionRepo,
      hholds, Option.bind_eq_bind, Option.bind_some]
  · intro rows store h
    obtain ⟨hacceptable, store', s, user, hget, hverify⟩ := verified_of_testAuth h
    rw [password_of_getUser hget] at hverify
    have hnil := hnone _ _ hverify
    have hlen := congrArg List.length hnil
    have hmin := hacceptable.le_text
    simp only [CString.strnlen, List.length_take, List.length_nil] at hlen
    omega

theorem mock_test_sample :
    (∀ users sessions, Template.testAuth mockUserRepo mockSessionRepo sampleArgon2 users sessions
        (.lit "username") (.lit "password") sampleId true sampleSession = some .ok ↔
      Acceptable sampleArgon2 (.lit "username") (.lit "password")) ∧
    ∀ rows store, Template.testAuth userPg sessionValkey sampleArgon2 rows store
      (.lit "username") (.lit "password") sampleId true sampleSession ≠ some .ok :=
  mock_test_iff sampleArgon2_lawful sampleArgon2_refusesEmpty _ _ _ (by decide) _

end RePlace.Auth
