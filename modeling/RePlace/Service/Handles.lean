import RePlace.Data.Handles
import RePlace.Service.Faults

/-!
# Connections, results and replies

The handles of libpq and of the store's library that the calls of the service work with: a
`PgClient` owns its connection, a `PgResult` its result and a `ValkeyClient` its context;
the results of `PQprepare` and the replies of the store are kept in plain pointers. Each
function is the program of what it does to its local objects. Whatever fails, every call
gives back each of its handles once and uses none after that, but for the reply of a `GET`
whose text cannot be copied, which is never given back (`handles_released`).
-/

namespace RePlace

open Handles (Op Settles)

/-- Which of the pointers that libpq returns for a failure are not null. -/
structure Pointers where
  conn : Bool := true
  prepared : Bool := true
  result : Bool := true

/-! ## The local objects -/

namespace Local

/-- The client of a call. -/
def client : ℕ := 0

/-- The variable of a function that it returns. -/
def returned : ℕ := 1

/-- The value of an `expected`. -/
def expected : ℕ := 2

/-- The `PgResult` of a call. -/
def result : ℕ := 3

/-- A plain pointer to a result or to a reply. -/
def reply : ℕ := 4

end Local

open Local

/-! ## The database -/

/-- `PgManager::get_client`; the client stays where it is, only pointers to it are moved. -/
def PgManager.getClientOps (f : DbFaults) (p : Pointers) : List Op :=
  match allocate f.client with
  | .error _ => []
  | .ok () =>
      -- `PQstatus` takes a null pointer
      if f.connected then [.create client, .fill client true, .inspect client]
      else [.create client, .fill client p.conn, .inspect client, .destroy client]

/-- `PgClient::prepare`. -/
def PgClient.prepareOps (f : DbFaults) (p : Pointers) : List Op :=
  [.use client, .create reply, .fill reply (f.prepared || p.prepared), .inspect reply,
    .destroy reply]

/-- What is read of the answer to a statement. -/
inductive Reading
  /-- The database has refused the statement. -/
  | refused
  /-- The number of its rows. -/
  | count
  /-- Also the first value. -/
  | id
  /-- Also the first two values. -/
  | account

/-- `PgResult::get_string` for each value that is read. -/
def Reading.ops : Reading → List Op
  | refused => []
  | count => []
  | id => [.use result]
  | account => [.use result, .use result]

/-- `PgClient::execute`, and the move from the `expected` that it returns. -/
def PgClient.executeOps (f : DbFaults) (p : Pointers) (reading : Reading) : List Op :=
  match f.statement, reading with
  | .lost _, _ =>
      [.create returned, .use client, .fill returned p.result, .inspect returned,
        .destroy returned]
  | .replied, .refused =>
      [.create returned, .use client, .fill returned true, .inspect returned, .destroy returned]
  | .replied, _ =>
      -- `PQresultStatus` and `PQntuples`
      [.create returned, .use client, .fill returned true, .inspect returned, .use returned,
        .move expected returned, .destroy returned, .move result expected, .destroy expected]

namespace UserPg

/-- What both functions of `UserPg` do with a statement. -/
def statementOps (f : DbFaults) (p : Pointers) (reading : Reading) : List Op :=
  match allocate f.values with
  | .error _ => []
  | .ok () =>
      PgManager.getClientOps f p ++
        match PgManager.getClient f with
        | .error _ => []
        | .ok () =>
            PgClient.prepareOps f p ++
              (match PgClient.prepare f, allocate f.strings with
                | .ok (), .ok () =>
                    PgClient.executeOps f p reading ++
                      (match f.statement, reading with
                        | .lost _, _ => []
                        | .replied, .refused => []
                        | .replied, _ => reading.ops ++ [.destroy result])
                | _, _ => []) ++ [.destroy client]

/-- `UserPg::add_user_impl`. -/
def addUserOps (f : DbFaults) (p : Pointers) (rows : List UserRow) (user : User) (id : Uuid)
    (accepted : Bool) : List Op :=
  statementOps f p
    (match (addUser rows user id accepted).2 with
      | .error _ => .refused
      | .ok _ => .id)

/-- `UserPg::get_user_by_username_impl(const char*)`; without a row nothing is read. -/
def getUserByUsernameOps (f : DbFaults) (p : Pointers) (rows : List UserRow)
    (username : CString) : List Op :=
  statementOps f p
    (match rows.find? fun row => row.username = username with
      | none => .count
      | some _ => .account)

end UserPg

/-! ## The store -/

/-- `ValkeyManager::get_client`, and the moves from the `expected` that it returns. -/
def ValkeyManager.getClientOps (f : StoreFaults) : List Op :=
  [.create returned, .fill returned (f.context ≠ .null)] ++
    match f.context with
    | .null => [.destroy returned]
    -- `err` of the context is read, and `errstr` when it is set
    | .failed => [.use returned, .use returned, .destroy returned]
    | .connected =>
        [.use returned, .move expected returned, .destroy returned, .move client expected,
          .destroy expected]

namespace ValkeyClient

/-- What `ValkeyClient::set_string` and `ValkeyClient::remove` do with a command, of whose
reply this is read: without a reply the error of the context is read. -/
def commandOps (f : StoreFaults) (reads : List Op) : List Op :=
  match f.command with
  | .lost _ => [.use client, .create reply, .fill reply false, .use client, .drop reply]
  | _ => [.use client, .create reply, .fill reply true] ++ reads ++ [.destroy reply]

/-- `ValkeyClient::set_string`. -/
def setStringOps (f : StoreFaults) : List Op := commandOps f []

/-- `ValkeyClient::remove`, which reads the integer of the reply. -/
def removeOps (f : StoreFaults) : List Op := commandOps f [.use reply]

/-- `ValkeyClient::get_string`: the type of the reply is read, once more for the log when it
is no text, or else the text. When the text cannot be copied, the function returns without
freeing the reply. -/
def getStringOps (copy : Allocation) : Option Reply → List Op
  | none => [.use client, .create reply, .fill reply false, .use client, .drop reply]
  | some (.string text) =>
      [.use client, .create reply, .fill reply true, .use reply, .use reply] ++
        match (copyString copy [] (Bytes.beforeNul text)).2 with
        | .error _ => [.drop reply]
        | .ok () => [.destroy reply]
  | some _ =>
      [.use client, .create reply, .fill reply true, .use reply, .use reply, .destroy reply]

end ValkeyClient

namespace SessionValkey

/-- `SessionValkey::set_session_impl`. -/
def setSessionOps (f : StoreFaults) : List Op :=
  ValkeyManager.getClientOps f ++
    match ValkeyManager.getClient f with
    | .error _ => []
    | .ok () =>
        (match allocate f.json with
          | .error _ => []
          | .ok () => ValkeyClient.setStringOps f) ++ [.destroy client]

/-- `SessionValkey::get_user_impl`. -/
def getUserOps (f : StoreFaults) (reply : Option Reply) : List Op :=
  ValkeyManager.getClientOps f ++
    match ValkeyManager.getClient f with
    | .error _ => []
    | .ok () => ValkeyClient.getStringOps f.reply reply ++ [.destroy client]

/-- `SessionValkey::remove_session_impl`. -/
def removeSessionOps (f : StoreFaults) : List Op :=
  ValkeyManager.getClientOps f ++
    match ValkeyManager.getClient f with
    | .error _ => []
    | .ok () => ValkeyClient.removeOps f ++ [.destroy client]

end SessionValkey

/-! ## What they give back -/

theorem UserPg.settles_statementOps (f : DbFaults) (p : Pointers) (reading : Reading) :
    Settles (statementOps f p reading) 0 := by
  obtain ⟨vals, cl, connected, prepared, strings, statement⟩ := f
  obtain ⟨conn, prep, res⟩ := p
  refine Handles.settles_of_losses ?_
  cases vals with
  | some code => rfl
  | none =>
  cases cl with
  | some code => rfl
  | none =>
  cases connected with
  | false => cases conn <;> rfl
  | true =>
  cases prepared with
  | false => cases prep <;> rfl
  | true =>
  cases strings with
  | some code => rfl
  | none =>
  cases statement with
  | replied => cases reading <;> rfl
  | lost executed => cases res <;> rfl

namespace SessionValkey

theorem settles_setSessionOps (f : StoreFaults) : Settles (setSessionOps f) 0 := by
  obtain ⟨context, json, command, reply, username⟩ := f
  refine Handles.settles_of_losses ?_
  cases context with
  | failed => rfl
  | null => rfl
  | connected =>
  cases json with
  | some code => rfl
  | none => cases command <;> rfl

theorem settles_removeSessionOps (f : StoreFaults) : Settles (removeSessionOps f) 0 := by
  obtain ⟨context, json, command, reply, username⟩ := f
  refine Handles.settles_of_losses ?_
  cases context with
  | failed => rfl
  | null => rfl
  | connected => cases command <;> rfl

/-- A text has come for the session, and it cannot be copied. -/
def dropsReply (f : StoreFaults) (reply : Option Reply) : Bool :=
  match ValkeyManager.getClient f, reply with
  | .ok (), some (.string _) => f.reply.isSome
  | _, _ => false

theorem settles_getUserOps (f : StoreFaults) (reply : Option Reply) :
    Settles (getUserOps f reply) (if dropsReply f reply then 1 else 0) := by
  obtain ⟨context, json, command, copy, username⟩ := f
  refine Handles.settles_of_losses ?_
  cases context with
  | failed => rfl
  | null => rfl
  | connected =>
  cases reply with
  | none => rfl
  | some reply =>
  cases reply with
  | string text => cases copy <;> rfl
  | nil => rfl
  | integer n => rfl
  | status text => rfl
  | error text => rfl

end SessionValkey

namespace Auth.Faulty

variable (argon2 : Argon2)

/-- What a call does to its local objects. -/
def callOps (w : World) (p : Pointers) : Call → List Op
  | .registerUser username password id accepted user db =>
      match User.Alloc.setUsername user.username {} username with
      | (_, .error _) => []
      | (newUser, .ok ()) =>
          match User.Alloc.setPassword argon2 user.hash user.password newUser password with
          | (_, .error _) => []
          | (newUser, .ok ()) => UserPg.addUserOps db p w.users newUser id accepted
  | .login username password _ user db store =>
      match username.filter (·.bytes ≠ []), password.filter (·.bytes ≠ []) with
      | some username, some password =>
          UserPg.getUserByUsernameOps db p w.users username ++
            match UserPg.getUserByUsernameFaulty db user.username user.password w.users
              username with
            | .error _ => []
            | .ok found =>
                if Crypto.verifyPassword argon2 found.password password then
                  SessionValkey.setSessionOps store
                else []
      | _, _ => []
  | .logout _ store => SessionValkey.removeSessionOps store
  | .getUser s store =>
      SessionValkey.getUserOps store (store.command.reply (w.sessions.get (SessionValkey.key s)))
  | .expire _ => []

/-- The call leaves the reply of the store behind. -/
def dropsReply (w : World) : Call → Bool
  | .getUser s store =>
      SessionValkey.dropsReply store (store.command.reply (w.sessions.get (SessionValkey.key s)))
  | _ => false

/-- The calls that leave a reply behind. -/
def dropped : World → List (Call × Pointers) → ℕ
  | _, [] => 0
  | w, c :: calls =>
      (if dropsReply w c.1 then 1 else 0) + dropped (Faulty.step argon2 w c.1).1 calls

/-- The server with the handles of the libraries that it calls. -/
structure Process where
  world : World := {}
  handles : Handles.State := {}

/-- One call of the process; none when it does what is undefined. -/
def Process.step (p : Process) (c : Call × Pointers) : Option Process :=
  (Handles.exec p.handles (callOps argon2 p.world c.2 c.1)).map fun handles =>
    ⟨(Faulty.step argon2 p.world c.1).1, handles⟩

variable {argon2}

theorem settles_callOps (w : World) (p : Pointers) (c : Call) :
    Settles (callOps argon2 w p c) (if dropsReply w c then 1 else 0) := by
  have hnil : Settles [] 0 := Handles.settles_of_losses rfl
  cases c with
  | registerUser username password id accepted user db =>
      simp only [callOps, dropsReply, Bool.false_eq_true, if_false]
      split
      · exact hnil
      · split
        · exact hnil
        · exact UserPg.settles_statementOps _ _ _
  | login username password newId user db store =>
      simp only [callOps, dropsReply, Bool.false_eq_true, if_false]
      split
      · refine @Settles.append _ _ 0 0 (UserPg.settles_statementOps _ _ _) ?_
        split
        · exact hnil
        · split
          · exact SessionValkey.settles_setSessionOps _
          · exact hnil
      · exact hnil
  | logout s store => exact SessionValkey.settles_removeSessionOps _
  | getUser s store => exact SessionValkey.settles_getUserOps _ _
  | expire s => exact hnil

/-- Whatever fails in the calls of the process, it never does what is undefined, and after
them every connection, context, result and reply that it has been handed has been given back
exactly once, but for one reply of each `get_user` whose text could not be copied. -/
theorem handles_released (calls : List (Call × Pointers)) :
    ∃ p, History.runAll (Process.step argon2) {} calls = some p ∧
      p.world = calls.foldl (fun w c => (Faulty.step argon2 w c.1).1) {} ∧
      p.handles.objects = [] ∧
      (∀ h < p.handles.next, p.handles.closed.count h + p.handles.lost.count h = 1) ∧
      p.handles.lost.length = dropped argon2 {} calls := by
  suffices hrun : ∀ p : Process, Handles.Ledger p.handles → p.handles.objects = [] →
      ∃ p', History.runAll (Process.step argon2) p calls = some p' ∧
        p'.world = calls.foldl (fun w c => (Faulty.step argon2 w c.1).1) p.world ∧
        p'.handles.objects = [] ∧ Handles.Ledger p'.handles ∧
        p'.handles.lost.length = p.handles.lost.length + dropped argon2 p.world calls by
    obtain ⟨p, hp, hworld, hempty, hledger, hlost⟩ := hrun {} Handles.ledger_init rfl
    refine ⟨p, hp, hworld, hempty, fun h hh => ?_, by simpa using hlost⟩
    have hcount := hledger.handles h
    rw [hempty, if_pos hh] at hcount
    simpa [Handles.held] using hcount
  induction calls with
  | nil => exact fun p hledger hempty => ⟨p, rfl, rfl, hempty, hledger, rfl⟩
  | cons c calls ih =>
      intro p hledger hempty
      obtain ⟨s, hs, hnone, hlost⟩ := @settles_callOps argon2 p.world c.2 c.1 p.handles
        hempty
      rw [← Handles.exec_eq hledger] at hs
      have hstep : Process.step argon2 p c = some ⟨(Faulty.step argon2 p.world c.1).1, s⟩ := by
        rw [Process.step, hs]
        rfl
      obtain ⟨p', hp', hworld, hempty', hledger', hlost'⟩ := ih ⟨_, s⟩ (hledger.exec hs) hnone
      refine ⟨p', ?_, hworld, hempty', hledger', ?_⟩
      · rw [History.runAll, List.foldlM_cons, hstep]
        exact hp'
      · rw [hlost', dropped, ← Nat.add_assoc]
        exact congrArg (· + _) hlost

end Auth.Faulty

end RePlace
