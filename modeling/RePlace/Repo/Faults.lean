import RePlace.Data.Fallible
import RePlace.Entity.UserMutations
import RePlace.Service.SessionReplies

/-!
# Statements and commands that fail

The two repositories with all that can fail around them: the allocations, the connections
to the database and to the store, and the statements and commands on these. A statement or
a command that ends without a result may have been executed or not. A string whose copy
fails is left as it was.
-/

namespace RePlace

open Fallible (Attempt)

/-- What `RP_TRY` makes of an allocation. -/
def allocate : Allocation → Except ErrorCode Unit
  | none => .ok ()
  | some code => .error code

/-! ## The database -/

/-- How a statement ends: with its result, or without one, when it has been executed or
not. -/
inductive Statement
  | replied
  | lost (executed : Bool)
deriving DecidableEq

/-- The statement has been executed. -/
def Statement.executed : Statement → Bool
  | replied => true
  | lost executed => executed

/-- What fails around one statement: the copies of its values, the client, the connection,
`PQprepare`, the array of the values, and `PQexecPrepared`. -/
structure DbFaults where
  values : Allocation := none
  client : Allocation := none
  connected : Bool := true
  prepared : Bool := true
  strings : Allocation := none
  statement : Statement := .replied

/-- `PgManager::get_client`. -/
def PgManager.getClient (f : DbFaults) : Except ErrorCode Unit := do
  allocate f.client
  if f.connected then .ok () else .error .dbConnectionError

/-- `PgClient::prepare`. -/
def PgClient.prepare (f : DbFaults) : Except ErrorCode Unit :=
  if f.prepared then .ok () else .error .dbPrepareError

/-- `PgClient::execute` for a statement that leaves these rows and has this result. -/
def PgClient.execute {α : Type} (f : DbFaults) (rows rows' : List UserRow)
    (result : Except ErrorCode α) : List UserRow × Except ErrorCode α :=
  match allocate f.strings with
  | .error code => (rows, .error code)
  | .ok () =>
      match f.statement with
      | .replied => (rows', result)
      | .lost executed => (if executed then rows' else rows, .error .dbExecutionError)

/-- What comes before the statement is executed. -/
def DbFaults.opened (f : DbFaults) : Except ErrorCode Unit := do
  allocate f.values
  PgManager.getClient f
  PgClient.prepare f

namespace DbFaults

/-- Nothing has failed before the statement. -/
def reached (f : DbFaults) : Bool := f.opened.isOk && (allocate f.strings).isOk

/-- The statement has been executed. -/
def executed (f : DbFaults) : Bool := f.reached && f.statement.executed

/-- The statement has a result. -/
def answered (f : DbFaults) : Bool := f.reached && decide (f.statement = .replied)

theorem executed_of_answered {f : DbFaults} (h : f.answered = true) : f.executed = true := by
  simp only [answered, Bool.and_eq_true, decide_eq_true_eq] at h
  simp only [executed, h.1, h.2]
  rfl

/-- A statement without a result that has been executed. -/
theorem lost {f : DbFaults} (hexecuted : f.executed = true) (hanswered : f.answered = false) :
    f.statement = .lost true := by
  obtain ⟨hreached, hstatement⟩ := Bool.and_eq_true_iff.mp hexecuted
  rw [answered, hreached, Bool.true_and, decide_eq_false_iff_not] at hanswered
  cases hlost : f.statement with
  | replied => exact absurd hlost hanswered
  | lost executed => exact congrArg Statement.lost (by rwa [hlost] at hstatement)

end DbFaults

namespace UserPg

/-- `UserPg::add_user_impl`. -/
def addUserFaulty (f : DbFaults) (rows : List UserRow) (user : User) (id : Uuid)
    (accepted : Bool) : List UserRow × Except ErrorCode Uuid :=
  match f.opened with
  | .error code => (rows, .error code)
  | .ok () =>
      let (rows', result) := addUser rows user id accepted
      PgClient.execute f rows rows' result

/-- `UserPg::get_user_by_username_impl(const char*)`, with the copies of the username and
of the password. -/
def getUserByUsernameFaulty (f : DbFaults) (username' password' : Allocation)
    (rows : List UserRow) (username : CString) : Except ErrorCode User :=
  match f.opened with
  | .error code => .error code
  | .ok () =>
      match (PgClient.execute f rows rows (.ok (rows.find? fun row => row.username = username))).2
      with
      | .error code => .error code
      | .ok none => .error .repoUserNotFound
      | .ok (some row) =>
          let user := ({} : User).setId row.id.text
          -- the error codes of both are ignored
          let (user, _) := User.Alloc.setUsername username' user (some username)
          let (user, _) := User.Alloc.setHashedPassword password' user row.password
          .ok user

end UserPg

/-! ## The store -/

/-- How a command ends: with its reply, with an error reply, or without one, when it has
been executed or not. -/
inductive Command
  | replied
  | refused (message : Bytes)
  | lost (executed : Bool)
deriving DecidableEq

namespace Command

/-- The command has been executed. -/
def executed : Command → Bool
  | replied => true
  | refused _ => false
  | lost executed => executed

/-- The reply, when this one belongs to the command. -/
def reply (reply : Reply) : Command → Option Reply
  | replied => some reply
  | refused message => some (.error message)
  | lost _ => none

/-- What the store does about a `SET`. -/
def setOutcome : Command → SetOutcome
  | replied => .stored
  | refused message => .refused message
  | lost executed => .lost executed

end Command

/-- What `valkeyConnectWithTimeout` returns: a context, one with an error, or none. -/
inductive Context
  | connected
  | failed
  | null
deriving DecidableEq

/-- What fails around one command: the connection, the text of the record, the command,
and the copies of the reply and of the username in it. -/
structure StoreFaults where
  context : Context := .connected
  json : Allocation := none
  command : Command := .replied
  reply : Allocation := none
  username : Allocation := none

/-- `ValkeyManager::get_client`. -/
def ValkeyManager.getClient (f : StoreFaults) : Except ErrorCode Unit :=
  match f.context with
  | .null => .error .badAllocation
  | .failed => .error .valkeyConnectionError
  | .connected => .ok ()

namespace StoreFaults

/-- The command has been executed. -/
def executed (f : StoreFaults) : Bool := (ValkeyManager.getClient f).isOk && f.command.executed

/-- The command has its reply. -/
def answered (f : StoreFaults) : Bool :=
  (ValkeyManager.getClient f).isOk && decide (f.command = .replied)

/-- A command without a reply that has been executed. -/
theorem lost {f : StoreFaults} (hexecuted : f.executed = true) (hanswered : f.answered = false) :
    f.command = .lost true := by
  obtain ⟨hreached, hcommand⟩ := Bool.and_eq_true_iff.mp hexecuted
  rw [answered, hreached, Bool.true_and, decide_eq_false_iff_not] at hanswered
  cases hlost : f.command with
  | replied => exact absurd hlost hanswered
  | refused message => rw [hlost] at hcommand; cases hcommand
  | lost executed => exact congrArg Command.lost (by rwa [hlost] at hcommand)

/-- The record of a session has been stored. -/
def written (f : StoreFaults) : Bool :=
  (ValkeyManager.getClient f).isOk && (allocate f.json).isOk && f.command.executed

end StoreFaults

/-- `ValkeyClient::get_string` with the copy of the text. -/
def ValkeyClient.getStringAlloc (copy : Allocation) : Option Reply → Except ErrorCode Bytes
  | none => .error .valkeyCommandError
  | some (.string text) =>
      match copyString copy [] (Bytes.beforeNul text) with
      | (_, .error code) => .error code
      | (str, .ok ()) => .ok str
  | some _ => .error .valkeyTypeError

namespace SessionValkey

/-- `SessionValkey::set_session_impl` with the generated session id. -/
def setSessionFaulty (f : StoreFaults) (store : Store) (user : User) (newId : Uuid) :
    Store × Except ErrorCode Uuid :=
  match ValkeyManager.getClient f with
  | .error code => (store, .error code)
  | .ok () =>
      match allocate f.json with
      | .error code => (store, .error code)
      | .ok () => setSessionWith f.command.setOutcome store user newId

/-- The user of a record, with the copy of the username. -/
def decodeAlloc (username : Allocation) (json : Bytes) : Option (Except ErrorCode User) :=
  let offset := openId.length + openUsername.length + Uuid.size
  if json.length < 2 ∨ json.length < offset then none
  else
    let json := json.set (json.length - 2) 0
    match User.Alloc.setUsername username {} (some (.ofBytes (json.drop offset))) with
    | (_, .error code) => some (.error code)
    | (user, .ok ()) => some (.ok (user.setId (.ofBytes (json.drop openId.length))))

/-- `SessionValkey::get_user_impl`. -/
def getUserFaulty (f : StoreFaults) (store : Store) (s : Uuid) :
    Option (Except ErrorCode User) :=
  match ValkeyManager.getClient f with
  | .error code => some (.error code)
  | .ok () =>
      match ValkeyClient.getStringAlloc f.reply (f.command.reply (store.get (key s))) with
      | .error code => some (.error code)
      | .ok json => decodeAlloc f.username json

/-- `SessionValkey::remove_session_impl`. -/
def removeSessionFaulty (f : StoreFaults) (store : Store) (s : Uuid) :
    Store × Except ErrorCode Unit :=
  match ValkeyManager.getClient f with
  | .error code => (store, .error code)
  | .ok () =>
      let (store', reply) := store.del (key s)
      (if f.command.executed then store' else store,
        ValkeyClient.remove (f.command.reply reply))

end SessionValkey

/-! ## How they end -/

namespace User

theorem setUsername_of_alloc (code : ErrorCode) (user : User) (username : Option CString) :
    ∃ code', Alloc.setUsername (some code) user username = (user, .error code') := by
  cases username with
  | none => exact ⟨_, rfl⟩
  | some name =>
      dsimp only [Alloc.setUsername]
      split
      · exact ⟨_, rfl⟩
      · split
        · exact ⟨_, rfl⟩
        · exact ⟨code, rfl⟩

theorem setPassword_of_alloc {argon2 : Argon2} {hash alloc : Allocation}
    (h : hash ≠ none ∨ alloc ≠ none) (user : User) (password : Option CString) :
    ∃ code, Alloc.setPassword argon2 hash alloc user password = (user, .error code) := by
  cases password with
  | none => exact ⟨_, rfl⟩
  | some text =>
      dsimp only [Alloc.setPassword]
      split
      · exact ⟨_, rfl⟩
      · split
        · exact ⟨_, rfl⟩
        · split
          · exact ⟨_, rfl⟩
          · split
            · exact ⟨_, rfl⟩
            · rename_i hashed hhashed
              cases alloc with
              | some code => exact ⟨code, rfl⟩
              | none =>
                  exfalso
                  obtain ⟨code, rfl⟩ := Option.ne_none_iff_exists'.mp (h.resolve_right (· rfl))
                  unfold Crypto.hashPasswordAlloc copyString at hhashed
                  split at hhashed
                  · cases hhashed
                  · split at hhashed <;> cases hhashed

theorem setUsername_id (user : User) (username : Option CString) :
    (user.setUsername username).1.id = user.id := by
  cases username with
  | none => rfl
  | some name =>
      dsimp only [User.setUsername]
      split
      · rfl
      · split <;> rfl

theorem setUsername_password (user : User) (username : Option CString) :
    (user.setUsername username).1.password = user.password := by
  cases username with
  | none => rfl
  | some name =>
      dsimp only [User.setUsername]
      split
      · rfl
      · split <;> rfl

end User

namespace UserPg

theorem addUserFaulty_attempt (f : DbFaults) (rows : List UserRow) (user : User) (id : Uuid)
    (accepted : Bool) :
    Attempt rows (addUser rows user id accepted) f.executed f.answered
      (addUserFaulty f rows user id accepted) := by
  unfold addUserFaulty DbFaults.executed DbFaults.answered DbFaults.reached
  cases f.opened with
  | error code => exact .missed code
  | ok _ =>
  unfold PgClient.execute
  cases allocate f.strings with
  | error code => exact .missed code
  | ok _ =>
  cases f.statement with
  | replied => exact .done
  | lost executed =>
      cases executed with
      | true => exact .unanswered _
      | false => exact .missed _

/-- A user as it is read when copies of its strings fail. -/
structure ReadAs (password : Allocation) (user user' : User) : Prop where
  id : user'.id = user.id
  username : user'.username = user.username ∨ user'.username = []
  password : user'.password = if password = none then user.password else []

theorem readAs_copies (username' password' : Allocation) (user : User)
    (husername : user.username = []) (hpassword : user.password = []) (name hash : CString) :
    ReadAs password' ((user.setUsername (some name)).1.setHashedPassword hash).1
      (User.Alloc.setHashedPassword password'
        (User.Alloc.setUsername username' user (some name)).1 hash).1 := by
  have hplain : User.Alloc.setUsername none user (some name) = user.setUsername (some name) :=
    User.apply_setUsername user (some name)
  have hpass := (User.setUsername_password user (some name)).trans hpassword
  cases username' with
  | none =>
      rw [hplain]
      cases password' with
      | none => exact ⟨rfl, .inl rfl, rfl⟩
      | some code => exact ⟨rfl, .inl rfl, hpass⟩
  | some code =>
      obtain ⟨code', hname⟩ := User.setUsername_of_alloc code user (some name)
      have hid := (User.setUsername_id user (some name)).symm
      rw [hname]
      cases password' with
      | none => exact ⟨hid, .inr husername, rfl⟩
      | some code => exact ⟨hid, .inr husername, hpassword⟩

theorem getUserByUsernameFaulty_error {f : DbFaults} (h : f.answered = false)
    (username' password' : Allocation) (rows : List UserRow) (name : CString) :
    ∃ code, getUserByUsernameFaulty f username' password' rows name = .error code := by
  unfold getUserByUsernameFaulty PgClient.execute
  unfold DbFaults.answered DbFaults.reached at h
  cases hopened : f.opened with
  | error code => exact ⟨code, rfl⟩
  | ok _ =>
  cases hstrings : allocate f.strings with
  | error code => exact ⟨code, rfl⟩
  | ok _ =>
  cases hstatement : f.statement with
  | replied =>
      rw [hopened, hstrings, hstatement] at h
      cases h
  | lost executed => exact ⟨.dbExecutionError, rfl⟩

/-- When the database answers, the user of the row is read, up to the copies of its
strings. -/
theorem getUserByUsernameFaulty_answered {f : DbFaults} (h : f.answered = true)
    (username' password' : Allocation) (rows : List UserRow) (name : CString) :
    (∃ code, getUserByUsername rows name = .error code ∧
        getUserByUsernameFaulty f username' password' rows name = .error code) ∨
      ∃ row ∈ rows, ∃ user user', getUserByUsername rows name = .ok user ∧
        getUserByUsernameFaulty f username' password' rows name = .ok user' ∧
        user.id = row.id ∧ ReadAs password' user user' := by
  obtain ⟨⟨hopened, hstrings⟩, hstatement⟩ :
      (f.opened.isOk = true ∧ (allocate f.strings).isOk = true) ∧ f.statement = .replied := by
    simpa [DbFaults.answered, DbFaults.reached] using h
  unfold getUserByUsername getUserByUsernameFaulty PgClient.execute
  cases hopen : f.opened with
  | error code => rw [hopen] at hopened; cases hopened
  | ok _ =>
  cases hstr : allocate f.strings with
  | error code => rw [hstr] at hstrings; cases hstrings
  | ok _ =>
  rw [hstatement]
  cases hfind : rows.find? fun row => row.username = name with
  | none => exact .inl ⟨.repoUserNotFound, rfl, rfl⟩
  | some row =>
      have hread := readAs_copies username' password' (({} : User).setId row.id.text) rfl rfl
        name row.password
      exact .inr ⟨row, List.mem_of_find?_eq_some hfind, _, _, rfl, rfl,
        (User.setUsername_id _ (some name)).trans (Uuid.ofCString_text row.id), hread⟩

end UserPg

namespace SessionValkey

/-- A text that comes back is the one in the store. -/
theorem getStringAlloc_ok {f : StoreFaults} {store : Store} {key json : Bytes}
    (h : ValkeyClient.getStringAlloc f.reply (f.command.reply (store.get key)) = .ok json) :
    ∃ text, store key = some text ∧ json = Bytes.beforeNul text := by
  cases hcommand : f.command with
  | refused message => rw [hcommand] at h; cases h
  | lost executed => rw [hcommand] at h; cases h
  | replied =>
      rw [hcommand, Command.reply, Store.get] at h
      cases htext : store key with
      | none => rw [htext] at h; cases h
      | some text =>
          rw [htext] at h
          cases hreply : f.reply with
          | none =>
              rw [hreply] at h
              exact ⟨text, rfl, (Except.ok.inj h).symm⟩
          | some code => rw [hreply] at h; cases h

theorem setSessionFaulty_written {f : StoreFaults} (h : f.written = true) (store : Store)
    (user : User) (newId : Uuid) :
    (setSessionFaulty f store user newId).1 =
        Function.update store (key newId) (some (record user)) ∧
      ((setSessionFaulty f store user newId).2 = .ok newId ∨
        f.command = .lost true ∧
          ∃ code, (setSessionFaulty f store user newId).2 = .error code) := by
  obtain ⟨⟨hclient, hjson⟩, hcommand⟩ : ((ValkeyManager.getClient f).isOk = true ∧
      (allocate f.json).isOk = true) ∧ f.command.executed = true := by
    simpa [StoreFaults.written] using h
  unfold setSessionFaulty
  cases hopen : ValkeyManager.getClient f with
  | error code => rw [hopen] at hclient; cases hclient
  | ok _ =>
  cases htext : allocate f.json with
  | error code => rw [htext] at hjson; cases hjson
  | ok _ =>
  cases hc : f.command with
  | replied =>
      have hset := setSession_eq store user newId
      rw [← setSessionWith_stored] at hset
      exact ⟨congrArg Prod.fst hset, .inl (congrArg Prod.snd hset)⟩
  | refused message => rw [hc] at hcommand; cases hcommand
  | lost executed =>
      rw [hc] at hcommand
      obtain rfl : executed = true := hcommand
      have hset := congrArg Prod.fst (setSession_eq store user newId)
      exact ⟨hset, .inr ⟨rfl, _, rfl⟩⟩

theorem setSessionFaulty_missed {f : StoreFaults} (h : f.written = false) (store : Store)
    (user : User) (newId : Uuid) :
    (setSessionFaulty f store user newId).1 = store ∧
      ∀ s, (setSessionFaulty f store user newId).2 = .ok s →
        ∃ message, f.command = .refused message := by
  unfold setSessionFaulty
  unfold StoreFaults.written at h
  cases hopen : ValkeyManager.getClient f with
  | error code => exact ⟨rfl, fun s hs => by cases hs⟩
  | ok _ =>
  cases htext : allocate f.json with
  | error code => exact ⟨rfl, fun s hs => by cases hs⟩
  | ok _ =>
  cases hc : f.command with
  | replied =>
      rw [hopen, htext, hc] at h
      cases h
  | refused message => exact ⟨rfl, fun _ _ => ⟨message, rfl⟩⟩
  | lost executed =>
      rw [hopen, htext, hc] at h
      obtain rfl : executed = false := h
      exact ⟨rfl, fun s hs => by cases hs⟩

/-- What stands before the username of a record. -/
theorem record_offset {user : User} (hid : user.id.Full) :
    openId.length + openUsername.length + Uuid.size =
      (openId ++ user.id.text.bytes ++ openUsername).length := by
  have hfull : user.id.text.bytes.length = Uuid.size := hid
  simp only [List.length_append, hfull]
  omega

/-- A record has room for what is read of it. -/
theorem record_room {user : User} (hid : user.id.Full) : ¬ ((record user).length < 2 ∨
    (record user).length < openId.length + openUsername.length + Uuid.size) := by
  have hclose : close.length = 2 := rfl
  rw [record_offset hid, record, List.length_append, hclose]
  simp only [List.length_append]
  omega

/-- The record of a user without a username is not decoded. -/
theorem decodeAlloc_nameless (alloc : Allocation) {user : User} (hid : user.id.Full) :
    decodeAlloc alloc (record { user with username := [] }) =
      some (.error .userUsernameRequired) := by
  have hrecord : record { user with username := [] } =
      openId ++ user.id.text.bytes ++ openUsername ++
        close := by
    simp [record, Bytes.beforeNul]
  rw [decodeAlloc, if_neg (@record_room { user with username := [] } hid), hrecord]
  simp only [set_close, record_offset hid, List.drop_left]
  rfl

/-- Nothing is read outside a record. -/
theorem decodeAlloc_ne_none (alloc : Allocation) {user : User} (hid : user.id.Full) :
    decodeAlloc alloc (record user) ≠ none := by
  rw [decodeAlloc, if_neg (record_room hid)]
  dsimp only
  split <;> exact Option.some_ne_none _

/-- Where the store holds a record, or nothing, nothing is read outside it. -/
theorem getUserFaulty_ne_none (f : StoreFaults) {store : Store} {s : Uuid}
    (h : ∀ json, store (key s) = some json → ∃ user : User, user.id.Full ∧ json = record user) :
    getUserFaulty f store s ≠ none := by
  unfold getUserFaulty
  cases ValkeyManager.getClient f with
  | error code => exact Option.some_ne_none _
  | ok _ =>
  cases hjson : ValkeyClient.getStringAlloc f.reply (f.command.reply (store.get (key s))) with
  | error code => exact Option.some_ne_none _
  | ok json =>
  obtain ⟨text, htext, rfl⟩ := getStringAlloc_ok hjson
  obtain ⟨user, hid, rfl⟩ := h text htext
  rw [Bytes.beforeNul_of_nulFree (record_nulFree user)]
  exact decodeAlloc_ne_none f.username hid

theorem decodeAlloc_ok {alloc : Allocation} {json : Bytes} {user : User}
    (h : decodeAlloc alloc json = some (.ok user)) :
    decode json = some (.ok user) := by
  cases alloc with
  | none =>
      rw [← h, decode, decodeAlloc]
      rfl
  | some code =>
      rw [decodeAlloc] at h
      split at h
      · cases h
      · dsimp only at h
        obtain ⟨code', hname⟩ := User.setUsername_of_alloc code {} (some (.ofBytes (List.drop
          (openId.length + openUsername.length + Uuid.size)
          (json.set (json.length - 2) 0))))
        rw [hname] at h
        cases h

end SessionValkey

end RePlace
