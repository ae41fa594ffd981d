import RePlace.Data.Simulation
import RePlace.Service.Faults

/-!
# Runs in which calls fail

Whatever fails in the calls of a run, the table and the store are those of a run in which
nothing fails (`faults_simulated`).
-/

namespace RePlace.Auth.Faulty

open Fallible (Attempt)

variable {argon2 : Argon2}

/-! ## The service that does not fail -/

/-- The store holds what the other one holds, or the record of the same user without the
username. -/
def Mirrored (store store' : Store) : Prop :=
  ∀ key, store key = store' key ∨ ∃ user : User, user.id.Full ∧
    store' key = some (SessionValkey.record user) ∧
    store key = some (SessionValkey.record { user with username := [] })

/-- A world of the service and the one that it would be in had nothing failed in the
calls that have been executed. -/
structure Mirrors (w v : World) : Prop where
  users : w.users = v.users
  sessions : Mirrored w.sessions v.sessions
  full : ∀ row ∈ v.users, row.id.Full

theorem mirrors_init : Mirrors {} {} where
  users := rfl
  sessions _ := .inl rfl
  full := by simp

theorem Mirrored.update {store store' : Store} (h : Mirrored store store') (key : Bytes)
    {value value' : Option Bytes} (hvalue : value = value' ∨ ∃ user : User, user.id.Full ∧
      value' = some (SessionValkey.record user) ∧
      value = some (SessionValkey.record { user with username := [] })) :
    Mirrored (Function.update store key value) (Function.update store' key value') := by
  intro key'
  by_cases hkey : key' = key
  · subst hkey
    simpa only [Function.update_self] using hvalue
  · simpa only [Function.update_of_ne hkey] using h key'

variable {w v : World}

theorem Mirrors.registerUser (h : Mirrors w v) (username password : Option CString) {id : Uuid}
    (hid : id.Full) (accepted : Bool) :
    Mirrors (Auth.registerUser argon2 w username password id accepted).1
        (Auth.registerUser argon2 v username password id accepted).1 ∧
      (Auth.registerUser argon2 w username password id accepted).2 =
        (Auth.registerUser argon2 v username password id accepted).2 := by
  obtain ⟨users, sessions⟩ := w
  obtain ⟨users', sessions'⟩ := v
  obtain rfl : users = users' := h.users
  unfold Auth.registerUser
  cases ({} : User).setUsername username with
  | mk user result =>
  cases result with
  | error code => exact ⟨h, rfl⟩
  | ok _ =>
  dsimp only
  cases user.setPassword argon2 password with
  | mk user result =>
  cases result with
  | error code => exact ⟨h, rfl⟩
  | ok _ =>
  dsimp only
  cases hadd : UserPg.addUser users user id accepted with
  | mk rows result =>
  cases result with
  | error code =>
      obtain rfl := UserPg.addUser_error hadd
      exact ⟨h, rfl⟩
  | ok id' =>
      obtain ⟨-, rfl⟩ := UserPg.addUser_ok hadd
      refine ⟨⟨rfl, h.sessions, fun row hrow => ?_⟩, rfl⟩
      rcases List.mem_append.mp hrow with hrow | hrow
      · exact h.full row hrow
      · rw [List.mem_singleton.mp hrow]
        exact hid

theorem Mirrors.logout (h : Mirrors w v) (s : Uuid) :
    Mirrors (Auth.logout w s).1 (Auth.logout v s).1 ∧
      (Auth.logout w s).2 = (Auth.logout v s).2 := by
  refine ⟨⟨h.users, h.sessions.update _ (.inl rfl), h.full⟩, ?_⟩
  have hsome : (w.sessions (SessionValkey.key s)).isSome =
      (v.sessions (SessionValkey.key s)).isSome := by
    rcases h.sessions (SessionValkey.key s) with heq | ⟨user, -, hv, hw⟩
    · rw [heq]
    · rw [hv, hw]
      rfl
  simp only [Auth.logout, SessionValkey.removeSession, Store.del, hsome]

/-- A user that is found is the one of the service that does not fail. -/
theorem Mirrors.getUser_ok (h : Mirrors w v) {s : Uuid} {store : StoreFaults} {user : User}
    (hget : getUser w s store = some (.ok user)) : Auth.getUser v s = some (.ok user) := by
  unfold getUser SessionValkey.getUserFaulty at hget
  cases hclient : ValkeyManager.getClient store with
  | error code => rw [hclient] at hget; cases hget
  | ok _ =>
  rw [hclient] at hget
  dsimp only at hget
  cases hjson : ValkeyClient.getStringAlloc store.reply
      (store.command.reply (w.sessions.get (SessionValkey.key s))) with
  | error code => rw [hjson] at hget; cases hget
  | ok json =>
  rw [hjson] at hget
  dsimp only at hget
  obtain ⟨text, htext, rfl⟩ := SessionValkey.getStringAlloc_ok hjson
  rcases h.sessions (SessionValkey.key s) with heq | ⟨found, hid, -, hw⟩
  · rw [Auth.getUser, SessionValkey.getUser, Store.get, ← heq, htext]
    exact SessionValkey.decodeAlloc_ok hget
  · obtain rfl := Option.some.inj (htext.symm.trans hw)
    rw [Bytes.beforeNul_of_nulFree (SessionValkey.record_nulFree _),
      SessionValkey.decodeAlloc_nameless _ hid] at hget
    cases hget

/-- A login of which the record has been stored is one of the service that does not fail,
but its answer may be lost. -/
theorem Mirrors.login (h : Mirrors w v) (username password : Option CString) (newId : Uuid)
    {user : UserFaults} {db : DbFaults} {store : StoreFaults}
    (hdone : (user.password.isNone && db.answered && store.written) = true) :
    Mirrors (login argon2 w username password newId user db store).1
        (Auth.login argon2 v username password newId).1 ∧
      ((login argon2 w username password newId user db store).2 =
          (Auth.login argon2 v username password newId).2 ∨
        (login argon2 w username password newId user db store).2.isOk = false ∧
          store.command = .lost true) := by
  obtain ⟨⟨hpassword, hdb⟩, hwritten⟩ :
      (user.password = none ∧ db.answered = true) ∧ store.written = true := by
    simpa using hdone
  unfold Faulty.login Auth.login
  cases username.filter (·.bytes ≠ []) with
  | none => exact ⟨h, .inl rfl⟩
  | some name =>
  dsimp only
  cases password.filter (·.bytes ≠ []) with
  | none => exact ⟨h, .inl rfl⟩
  | some text =>
  dsimp only
  rw [← h.users]
  rcases UserPg.getUserByUsernameFaulty_answered hdb user.username user.password w.users name with
    ⟨code, hplain, hcode⟩ | ⟨row, hrow, found, found', hplain, hfound, hid, hread⟩
  · rw [hplain, hcode]
    exact ⟨h, .inl rfl⟩
  have hsame : found'.password = found.password := by rw [hread.password, if_pos hpassword]
  rw [hplain, hfound]
  dsimp only
  rw [hsame]
  by_cases hverify : Crypto.verifyPassword argon2 found.password text = true
  · simp only [hverify, if_true]
    obtain ⟨hstored, hanswer⟩ :=
      SessionValkey.setSessionFaulty_written hwritten w.sessions found' newId
    rw [SessionValkey.setSession_eq]
    refine ⟨⟨rfl, ?_, ?_⟩, ?_⟩
    · dsimp only
      rw [hstored]
      refine h.sessions.update _ ?_
      have hrecord : ∀ username, found'.username = username →
          SessionValkey.record found' = SessionValkey.record { found with username } := by
        rintro _ rfl
        rw [SessionValkey.record, SessionValkey.record, hread.id]
      rcases hread.username with hname | hname
      · exact .inl (congrArg some (hrecord _ hname))
      · refine .inr ⟨found, ?_, rfl, congrArg some (hrecord _ hname)⟩
        rw [hid]
        exact h.full row (h.users ▸ hrow)
    · dsimp only
      rw [h.users]
      exact h.full
    · rcases hanswer with hok | ⟨hlost, code, herr⟩
      · exact .inl hok
      · refine .inr ⟨?_, hlost⟩
        rw [herr]
        rfl
  · rw [if_neg hverify, if_neg hverify]
    exact ⟨h, .inl rfl⟩

/-! ## Runs -/

/-- The call has had its effect. -/
def Call.executed : Call → Bool
  | .registerUser _ _ _ _ user db => user.stored && db.executed
  | .login _ _ _ user db store => user.password.isNone && db.answered && store.written
  | .logout _ store => store.executed
  | .getUser _ _ => true
  | .expire _ => true

/-- The answer to a call can be an error although it has been executed: its result has been
lost. A `get_user` has no effect, and fails in other ways too. -/
def Call.Unheard : Call → Prop
  | .registerUser _ _ _ _ _ db => db.statement = .lost true
  | .login _ _ _ _ _ store => store.command = .lost true
  | .logout _ store => store.command = .lost true
  | .getUser _ _ => True
  | .expire _ => False

/-- The store has answered the record of a session with an error. -/
def Call.Refused : Call → Prop
  | .login _ _ _ _ _ store => ∃ message, store.command = .refused message
  | _ => False

/-- The answer is not an error. -/
def Success : Answer → Prop
  | .registered result => result.isOk = true
  | .loggedIn result => result.isOk = true
  | .loggedOut result => result.isOk = true
  | .gotUser result => ∃ user, result = some (.ok user)
  | .expired => True

/-- What a call of the service stands for in a run in which nothing fails: nothing when it
has not been executed, and it has then been answered with an error, or the store has
refused the record of its session; or the same call, with the same answer, or with another
one instead of an error. -/
def Explains (e : Call × Answer) : Option (Action × Answer) → Prop
  | none => e.1.executed = false ∧ (Success e.2 → e.1.Refused)
  | some e' => e.1.executed = true ∧ e'.1 = e.1.action ∧
      (e.2 = e'.2 ∨ ¬ Success e.2 ∧ e.1.Unheard)

/-- The id that comes with a registration is a whole one. -/
def Call.Valid : Call → Prop
  | .registerUser _ _ id _ _ _ => id.Full
  | _ => True

/-- A call that is attempted is one of the service that does not fail, or it has no
effect. -/
theorem Mirrors.attempt {α : Type} (h : Mirrors w v) {full full' r : World × Except ErrorCode α}
    {executed answered : Bool} (hattempt : Attempt w full executed answered r)
    (hfull : Mirrors full.1 full'.1) (hresult : full.2 = full'.2) :
    (executed = false ∧ r.2.isOk = false ∧ Mirrors r.1 v) ∨
      executed = true ∧ Mirrors r.1 full'.1 ∧
        (r.2 = full'.2 ∨ r.2.isOk = false ∧ answered = false) := by
  cases hattempt with
  | done => exact .inr ⟨rfl, hfull, .inl hresult⟩
  | unanswered code => exact .inr ⟨rfl, hfull, .inr ⟨rfl, rfl⟩⟩
  | missed code => exact .inl ⟨rfl, rfl, h⟩

theorem mirrors_step (hempty : argon2.RefusesEmpty) (h : Mirrors w v) {c : Call}
    (hvalid : c.Valid) :
    (Explains (c, (step argon2 w c).2) none ∧ Mirrors (step argon2 w c).1 v) ∨
      ∃ a, Explains (c, (step argon2 w c).2) (some (a, (Auth.step argon2 v a).2)) ∧
        Mirrors (step argon2 w c).1 (Auth.step argon2 v a).1 := by
  cases c with
  | registerUser username password id accepted user db =>
      have hattempt := @registerUser_attempt argon2 w username password id accepted user db
      obtain ⟨hfull, hresult⟩ :=
        @Mirrors.registerUser argon2 w v h username password id hvalid accepted
      rcases h.attempt hattempt hfull hresult with
        ⟨hmissed, herr, hw⟩ | ⟨hdone, hw, hanswer⟩
      · refine .inl ⟨⟨hmissed, fun hok => ?_⟩, hw⟩
        rw [step, Success, herr] at hok
        cases hok
      · refine .inr ⟨.registerUser username password id accepted, ⟨hdone, rfl, ?_⟩, hw⟩
        rcases hanswer with hsame | ⟨herr, hunheard⟩
        · exact .inl (congrArg Answer.registered hsame)
        · obtain ⟨hstored, hexecuted⟩ := Bool.and_eq_true_iff.mp hdone
          rw [hstored, Bool.true_and] at hunheard
          exact .inr ⟨Bool.eq_false_iff.mp herr, DbFaults.lost hexecuted hunheard⟩
  | login username password newId user db store =>
      cases hdone : user.password.isNone && db.answered && store.written with
      | false =>
          obtain ⟨hw, hrefused⟩ := login_missed hempty w username password newId hdone
          refine .inl ⟨⟨hdone, hrefused⟩, ?_⟩
          rw [step]
          exact hw.symm ▸ h
      | true =>
          obtain ⟨hw, hanswer⟩ :=
            @Mirrors.login argon2 w v h username password newId user db store hdone
          refine .inr ⟨.login username password newId, ⟨hdone, rfl, ?_⟩, hw⟩
          rcases hanswer with hsame | ⟨herr, hlost⟩
          · exact .inl (congrArg Answer.loggedIn hsame)
          · exact .inr ⟨Bool.eq_false_iff.mp herr, hlost⟩
  | logout s store =>
      obtain ⟨hfull, hresult⟩ := h.logout s
      rcases h.attempt (logout_attempt w s store) hfull hresult with
        ⟨hmissed, herr, hw⟩ | ⟨hdone, hw, hanswer⟩
      · refine .inl ⟨⟨hmissed, fun hok => ?_⟩, hw⟩
        rw [step, Success, herr] at hok
        cases hok
      · refine .inr ⟨.logout s, ⟨hdone, rfl, ?_⟩, hw⟩
        rcases hanswer with hsame | ⟨herr, hunheard⟩
        · exact .inl (congrArg Answer.loggedOut hsame)
        · exact .inr ⟨Bool.eq_false_iff.mp herr, StoreFaults.lost hdone hunheard⟩
  | getUser s store =>
      refine .inr ⟨.getUser s, ⟨rfl, rfl, ?_⟩, h⟩
      by_cases hok : ∃ user, getUser w s store = some (.ok user)
      · obtain ⟨user, hget⟩ := hok
        refine .inl ?_
        rw [step, Auth.step, hget, h.getUser_ok hget]
      · exact .inr ⟨hok, trivial⟩
  | expire s =>
      exact .inr ⟨.expire s, ⟨rfl, rfl, .inl rfl⟩,
        ⟨h.users, h.sessions.update _ (.inl rfl), h.full⟩⟩

variable {hist : List (Call × Answer)}

/-- Every run in which calls fail is a run of the service in which nothing fails, on the
calls that have been executed, in the same order: the tables agree, and so do the stores,
but for the usernames of sessions whose login could not copy them. A call that has not been
executed has been answered with an error, unless the store has refused the record of its
session. A call that has been executed has been answered as in the other run, or its result
has been lost. -/
theorem faults_simulated (hempty : argon2.RefusesEmpty) (hrun : Run argon2 hist w)
    (hvalid : ∀ e ∈ hist, e.1.Valid) :
    ∃ es v, List.Forall₂ Explains hist es ∧ Auth.Run argon2 es.reduceOption v ∧
      Mirrors w v :=
  hrun.simulate mirrors_init (fun _ _ _ hc h => mirrors_step hempty h hc) hvalid

/-- `alice` is registered, but the result is lost; she logs in all the same. -/
def sampleFaulty : List (Call × Answer) :=
  [(.registerUser (some (.lit "alice")) (some (.lit "password")) sampleId true {}
      { statement := .lost true }, .registered (.error .dbExecutionError)),
    (.login (some (.lit "alice")) (some (.lit "password")) sampleSession {} {} {},
      .loggedIn (.ok sampleSession))]

theorem faults_simulated_sample :
    ∃ w, Run sampleArgon2 sampleFaulty w ∧ ∃ es v, List.Forall₂ Explains sampleFaulty es ∧
      Auth.Run sampleArgon2 es.reduceOption v ∧ Mirrors w v := by
  have hrun : Run sampleArgon2 sampleFaulty _ := .next (.next .start _) _
  refine ⟨_, hrun, faults_simulated sampleArgon2_refusesEmpty hrun fun e he => ?_⟩
  rcases List.mem_pair.mp he with rfl | rfl
  · exact (by decide : sampleId.Full)
  · trivial

end RePlace.Auth.Faulty
