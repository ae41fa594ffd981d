import RePlace.Entity.User
import Mathlib.Data.List.Induction

/-!
# Mutations that fail

The operations of a user that return an error, when also an allocation inside them can
fail: the copies of strings that they make end as it is said in their arguments. A
setter copies one string and copies it last, so it leaves the user as it was when it
fails. `copy` has already taken the id, and possibly the username, when a string
cannot be copied.
-/

namespace RePlace

/-- How a copy of a string ends: with an error, or not. -/
abbrev Allocation := Option ErrorCode

/-- `ds::string::copy`. -/
def copyString (alloc : Allocation) (target source : Bytes) : Bytes × Except ErrorCode Unit :=
  match alloc with
  | none => (source, .ok ())
  | some code => (target, .error code)

/-- `hash_password(const c8*, usize)`. -/
def Crypto.hashPasswordAlloc (argon2 : Argon2) (alloc : Allocation) (password : Bytes)
    (size : ℕ) : Except ErrorCode Bytes :=
  match argon2.hashEncoded (password.take size) with
  | .ok encoded =>
      match copyString alloc [] encoded.bytes with
      | (_, .error code) => .error code
      | (hash, .ok ()) => .ok hash
  | .error code =>
      if code = memoryAllocationError then .error .badAllocation else .error .cryptoHashError

namespace User

/-- `this->username.copy`. -/
def storeUsername (alloc : Allocation) (user : User) (username : Bytes) :
    User × Except ErrorCode Unit :=
  let (username, result) := copyString alloc user.username username
  ({ user with username := username }, result)

/-- `this->password.copy`. -/
def storePassword (alloc : Allocation) (user : User) (password : Bytes) :
    User × Except ErrorCode Unit :=
  let (password, result) := copyString alloc user.password password
  ({ user with password := password }, result)

/-- An error-returning operation of a user with its arguments, what the hash function
does in it, and how the copies of strings in it end. -/
inductive Mutation
  | copy (other : User) (username password : Allocation)
  | setUsernameString (username : Bytes) (alloc : Allocation)
  | setUsername (username : Option CString) (alloc : Allocation)
  | setPasswordString (argon2 : Argon2) (password : Bytes) (hash alloc : Allocation)
  | setPassword (argon2 : Argon2) (password : Option CString) (hash alloc : Allocation)
  | setHashedPasswordString (hash : Bytes) (alloc : Allocation)
  | setHashedPassword (hash : CString) (alloc : Allocation)

namespace Alloc

/-- `User::copy`. -/
def copy (username password : Allocation) (user other : User) : User × Except ErrorCode Unit :=
  let user := { user with id := other.id }
  match storeUsername username user other.username with
  | (user, .error code) => (user, .error code)
  | (user, .ok ()) =>
      match storePassword password user other.password with
      | (user, .error code) => (user, .error code)
      | (user, .ok ()) => (user, .ok ())

/-- `User::set_username(const string&)`. -/
def setUsernameString (alloc : Allocation) (user : User) (username : Bytes) :
    User × Except ErrorCode Unit :=
  if username = [] then (user, .error .userUsernameRequired)
  else if username.length > usernameMax then (user, .error .userUsernameMaxLength)
  else storeUsername alloc user username

/-- `User::set_username(const c8*)`. -/
def setUsername (alloc : Allocation) (user : User) (username : Option CString) :
    User × Except ErrorCode Unit :=
  match username with
  | none => (user, .error .userUsernameRequired)
  | some username =>
      if username.bytes = [] then (user, .error .userUsernameRequired)
      else if username.strnlen (usernameMax + 1) > usernameMax then
        (user, .error .userUsernameMaxLength)
      else storeUsername alloc user username.bytes

/-- `User::set_password(const string&)`. -/
def setPasswordString (argon2 : Argon2) (hash alloc : Allocation) (user : User)
    (password : Bytes) : User × Except ErrorCode Unit :=
  if password = [] then (user, .error .userPasswordRequired)
  else if password.length < passwordMin then (user, .error .userPasswordMinLength)
  -- the size of the username, not of the password
  else if user.username.length > passwordMax then (user, .error .userPasswordMaxLength)
  else
    match Crypto.hashPasswordAlloc argon2 hash password password.length with
    | .error code => (user, .error code)
    | .ok hashed => storePassword alloc user hashed

/-- `User::set_password(const c8*)`. -/
def setPassword (argon2 : Argon2) (hash alloc : Allocation) (user : User)
    (password : Option CString) : User × Except ErrorCode Unit :=
  match password with
  | none => (user, .error .userPasswordRequired)
  | some password =>
      if password.bytes = [] then (user, .error .userPasswordRequired)
      else
        let size := password.strnlen (passwordMax + 1)
        if size < passwordMin then (user, .error .userPasswordMinLength)
        else if size > passwordMax then (user, .error .userPasswordMaxLength)
        else
          match Crypto.hashPasswordAlloc argon2 hash password.bytes password.strlen with
          | .error code => (user, .error code)
          | .ok hashed => storePassword alloc user hashed

/-- `User::set_hashed_password(const string&)`. -/
def setHashedPasswordString (alloc : Allocation) (user : User) (hash : Bytes) :
    User × Except ErrorCode Unit := storePassword alloc user hash

/-- `User::set_hashed_password(const c8*)`. -/
def setHashedPassword (alloc : Allocation) (user : User) (hash : CString) :
    User × Except ErrorCode Unit := storePassword alloc user hash.bytes

end Alloc

/-- What a call does to a user. -/
def Mutation.apply (user : User) : Mutation → User × Except ErrorCode Unit
  | .copy other username password => Alloc.copy username password user other
  | .setUsernameString username alloc => Alloc.setUsernameString alloc user username
  | .setUsername username alloc => Alloc.setUsername alloc user username
  | .setPasswordString argon2 password hash alloc =>
      Alloc.setPasswordString argon2 hash alloc user password
  | .setPassword argon2 password hash alloc => Alloc.setPassword argon2 hash alloc user password
  | .setHashedPasswordString hash alloc => Alloc.setHashedPasswordString alloc user hash
  | .setHashedPassword hash alloc => Alloc.setHashedPassword alloc user hash

/-! ## Without failures -/

theorem hashPasswordAlloc_none (argon2 : Argon2) (password : Bytes) (size : ℕ) :
    Crypto.hashPasswordAlloc argon2 none password size =
      (Crypto.hashPasswordSized argon2 password size).map CString.bytes := by
  rw [Crypto.hashPasswordAlloc, Crypto.hashPasswordSized]
  cases argon2.hashEncoded (password.take size) with
  | ok encoded => rfl
  | error code =>
      dsimp only
      split <;> rfl

/-- Where no allocation fails, the setters are those of `User`. -/
theorem apply_setUsernameString (user : User) (username : Bytes) :
    (Mutation.setUsernameString username none).apply user = user.setUsernameString username := rfl

theorem apply_setUsername (user : User) (username : Option CString) :
    (Mutation.setUsername username none).apply user = user.setUsername username := by
  cases username <;> rfl

theorem apply_setPasswordString (argon2 : Argon2) (user : User) (password : Bytes) :
    (Mutation.setPasswordString argon2 password none none).apply user =
      user.setPasswordString argon2 password := by
  rw [Mutation.apply, Alloc.setPasswordString, setPasswordString, hashPasswordAlloc_none,
    Crypto.hashPasswordString]
  cases Crypto.hashPasswordSized argon2 password password.length <;> rfl

theorem apply_setPassword (argon2 : Argon2) (user : User) (password : Option CString) :
    (Mutation.setPassword argon2 password none none).apply user =
      user.setPassword argon2 password := by
  cases password with
  | none => rfl
  | some password =>
      simp only [Mutation.apply, Alloc.setPassword, setPassword, hashPasswordAlloc_none,
        Crypto.hashPassword]
      cases Crypto.hashPasswordSized argon2 password.bytes password.strlen <;> rfl

theorem apply_setHashedPassword (user : User) (hash : CString) :
    (Mutation.setHashedPassword hash none).apply user = user.setHashedPassword hash := rfl

/-! ## One call -/

/-- A result that leaves the user as it was when it is an error. -/
def Kept (user : User) (r : User × Except ErrorCode Unit) : Prop :=
  ∀ code, r.2 = .error code → r.1 = user

namespace Mutation

/-- When the call returns an error, the user is as before. -/
def AllOrNothing (user : User) (m : Mutation) : Prop := user.Kept (m.apply user)

/-- A copy that fails after it has changed something: a string cannot be copied, and
what stands before it differs. -/
def Torn (user : User) : Mutation → Prop
  | .copy other (some _) _ => other.id ≠ user.id
  | .copy other none (some _) => other.id ≠ user.id ∨ other.username ≠ user.username
  | _ => False

end Mutation

theorem kept_error (user : User) (code : ErrorCode) : user.Kept (user, .error code) :=
  fun _ _ => rfl

/-- A string that has not been copied is as before. -/
theorem copyString_error {alloc : Allocation} {target source : Bytes} {code : ErrorCode}
    (h : (copyString alloc target source).2 = .error code) :
    (copyString alloc target source).1 = target := by
  cases alloc with
  | none => cases h
  | some _ => rfl

theorem storeUsername_kept (alloc : Allocation) (user : User) (username : Bytes) :
    user.Kept (storeUsername alloc user username) := by
  intro code h
  exact congrArg (fun s => { user with username := s }) (copyString_error h)

theorem storePassword_kept (alloc : Allocation) (user : User) (password : Bytes) :
    user.Kept (storePassword alloc user password) := by
  intro code h
  exact congrArg (fun s => { user with password := s }) (copyString_error h)

theorem setUsernameString_kept (alloc : Allocation) (user : User) (username : Bytes) :
    user.Kept (Alloc.setUsernameString alloc user username) := by
  unfold Alloc.setUsernameString
  split
  · exact kept_error user _
  · split
    · exact kept_error user _
    · exact storeUsername_kept alloc user username

theorem setUsername_kept (alloc : Allocation) (user : User) (username : Option CString) :
    user.Kept (Alloc.setUsername alloc user username) := by
  cases username with
  | none => exact kept_error user _
  | some username =>
      dsimp only [Alloc.setUsername]
      split
      · exact kept_error user _
      · split
        · exact kept_error user _
        · exact storeUsername_kept alloc user username.bytes

/-- A hash that is stored when there is one. -/
theorem hashed_kept (alloc : Allocation) (user : User) (hashed : Except ErrorCode Bytes) :
    user.Kept (match hashed with
      | .error code => (user, .error code)
      | .ok hash => storePassword alloc user hash) := by
  cases hashed with
  | error code => exact kept_error user code
  | ok hash => exact storePassword_kept alloc user hash

theorem setPasswordString_kept (argon2 : Argon2) (hash alloc : Allocation) (user : User)
    (password : Bytes) : user.Kept (Alloc.setPasswordString argon2 hash alloc user password) := by
  unfold Alloc.setPasswordString
  split
  · exact kept_error user _
  · split
    · exact kept_error user _
    · split
      · exact kept_error user _
      · exact hashed_kept alloc user _

theorem setPassword_kept (argon2 : Argon2) (hash alloc : Allocation) (user : User)
    (password : Option CString) :
    user.Kept (Alloc.setPassword argon2 hash alloc user password) := by
  cases password with
  | none => exact kept_error user _
  | some password =>
      dsimp only [Alloc.setPassword]
      split
      · exact kept_error user _
      · split
        · exact kept_error user _
        · split
          · exact kept_error user _
          · exact hashed_kept alloc user _

theorem copy_kept_iff (username password : Allocation) (user other : User) :
    user.Kept (Alloc.copy username password user other) ↔
      ¬ (Mutation.copy other username password).Torn user := by
  cases username with
  | some code =>
      have hcopy : Alloc.copy (some code) password user other =
          ({ user with id := other.id }, .error code) := rfl
      rw [hcopy, Mutation.Torn, not_not]
      constructor
      · exact fun h => (congrArg User.id (h code rfl) :)
      · exact fun h _ _ => congrArg (fun id => { user with id := id }) h
  | none =>
      cases password with
      | none =>
          refine iff_of_true ?_ (fun h => h)
          intro code h
          cases h
      | some code =>
          have hcopy : Alloc.copy none (some code) user other =
              ({ user with id := other.id, username := other.username }, .error code) := rfl
          rw [hcopy, Mutation.Torn, not_or, not_not, not_not]
          constructor
          · intro h
            have heq := h code rfl
            exact ⟨(congrArg User.id heq :), (congrArg User.username heq :)⟩
          · rintro ⟨hid, hname⟩ _ _
            rw [hid, hname]

/-- A call is all or nothing exactly when it is not a copy that fails after it has
changed something. -/
theorem Mutation.allOrNothing_iff (user : User) (m : Mutation) :
    m.AllOrNothing user ↔ ¬ m.Torn user := by
  cases m with
  | copy other username password => exact copy_kept_iff username password user other
  | setUsernameString username alloc =>
      exact iff_of_true (setUsernameString_kept alloc user username) (fun h => h)
  | setUsername username alloc =>
      exact iff_of_true (setUsername_kept alloc user username) (fun h => h)
  | setPasswordString argon2 password hash alloc =>
      exact iff_of_true (setPasswordString_kept argon2 hash alloc user password) (fun h => h)
  | setPassword argon2 password hash alloc =>
      exact iff_of_true (setPassword_kept argon2 hash alloc user password) (fun h => h)
  | setHashedPasswordString hash alloc =>
      exact iff_of_true (storePassword_kept alloc user hash) (fun h => h)
  | setHashedPassword hash alloc =>
      exact iff_of_true (storePassword_kept alloc user hash.bytes) (fun h => h)

/-! ## Sequences of calls -/

/-- The calls whose source the fields of a user come from: the number of a copy, or
none for what the user has started with or has been set. -/
@[ext] structure Origins where
  id : Option ℕ := none
  username : Option ℕ := none
  password : Option ℕ := none

/-- The id and the username do not come from another source than the password. -/
def Origins.Single (o : Origins) : Prop :=
  ∀ n k, o.id = some n ∨ o.username = some n → o.password = some k → n = k

/-- The origins after a call that has succeeded. -/
def Mutation.origins (o : Origins) (n : ℕ) : Mutation → Origins
  | .copy _ _ _ => ⟨some n, some n, some n⟩
  | .setUsernameString _ _ => { o with username := none }
  | .setUsername _ _ => { o with username := none }
  | .setPasswordString _ _ _ _ => { o with password := none }
  | .setPassword _ _ _ _ => { o with password := none }
  | .setHashedPasswordString _ _ => { o with password := none }
  | .setHashedPassword _ _ => { o with password := none }

/-- The origins after a call that has failed: what it has changed has come from its
source. -/
def Origins.changed (o : Origins) (n : ℕ) (user user' : User) : Origins where
  id := if user'.id = user.id then o.id else some n
  username := if user'.username = user.username then o.username else some n
  password := if user'.password = user.password then o.password else some n

/-- A user in a sequence of calls, with the number of calls so far. -/
structure Traced where
  user : User
  calls : ℕ := 0
  origins : Origins := {}

/-- A call in a sequence. -/
def Traced.step (t : Traced) (m : Mutation) : Traced where
  user := (m.apply t.user).1
  calls := t.calls + 1
  origins :=
    match (m.apply t.user).2 with
    | .ok () => m.origins t.origins t.calls
    | .error _ => t.origins.changed t.calls t.user (m.apply t.user).1

/-- A user after some calls. -/
def after (user : User) (calls : List Mutation) : Traced :=
  calls.foldl Traced.step { user := user }

theorem after_concat (user : User) (calls : List Mutation) (m : Mutation) :
    after user (calls ++ [m]) = (after user calls).step m :=
  List.foldl_concat _ _ _ _

theorem Mutation.origins_single {o : Origins} (h : o.Single) (n : ℕ) (m : Mutation) :
    (m.origins o n).Single := by
  have hname : Origins.Single { o with username := none } := by
    intro n k hn hk
    rcases hn with hn | hn
    · exact h n k (.inl hn) hk
    · cases hn
  have hpass : Origins.Single { o with password := none } := by
    intro n k _ hk
    cases hk
  cases m with
  | copy _ _ _ =>
      intro j k hj hk
      rcases hj with hj | hj <;> exact Option.some.inj (hj.symm.trans hk)
  | setUsernameString _ _ => exact hname
  | setUsername _ _ => exact hname
  | setPasswordString _ _ _ _ => exact hpass
  | setPassword _ _ _ _ => exact hpass
  | setHashedPasswordString _ _ => exact hpass
  | setHashedPassword _ _ => exact hpass

theorem Origins.changed_self (o : Origins) (n : ℕ) (user : User) :
    o.changed n user user = o := by
  simp [Origins.changed]

/-- A call that is all or nothing keeps the sources apart. -/
theorem Traced.step_single {t : Traced} (h : t.origins.Single) {m : Mutation}
    (hm : m.AllOrNothing t.user) : (t.step m).origins.Single := by
  rw [Traced.step]
  cases hresult : (m.apply t.user).2 with
  | ok _ => exact Mutation.origins_single h t.calls m
  | error code =>
      dsimp only
      rw [hm code hresult, Origins.changed_self]
      exact h

/-- While all calls are all or nothing, the sources are kept apart. -/
theorem after_single {user : User} {calls : List Mutation}
    (h : ∀ pre m post, calls = pre ++ m :: post → m.AllOrNothing (after user pre).user) :
    (after user calls).origins.Single := by
  induction calls using List.reverseRecOn with
  | nil =>
      intro n k _ hk
      cases hk
  | append_singleton calls m ih =>
      rw [after_concat]
      refine Traced.step_single (ih fun pre m' post heq => ?_) (h calls m [] rfl)
      exact h pre m' (post ++ [m]) (by rw [heq, List.append_assoc, List.cons_append])

/-- In a sequence of calls, every call that fails leaves the user as it was and no
state combines two sources, exactly when no call is a copy that fails after it has
changed something. -/
theorem all_or_nothing_iff (user : User) (calls : List Mutation) :
    ((∀ pre m post, calls = pre ++ m :: post → m.AllOrNothing (after user pre).user) ∧
      ∀ pre, pre <+: calls → (after user pre).origins.Single) ↔
      ∀ pre m post, calls = pre ++ m :: post → ¬ m.Torn (after user pre).user := by
  have hcalls :
      (∀ pre m post, calls = pre ++ m :: post → m.AllOrNothing (after user pre).user) ↔
      ∀ pre m post, calls = pre ++ m :: post → ¬ m.Torn (after user pre).user := by
    simp only [Mutation.allOrNothing_iff]
  rw [← hcalls, and_iff_left_iff_imp]
  rintro h pre ⟨rest, rfl⟩
  refine after_single fun pre' m post heq => h pre' m (post ++ rest) ?_
  rw [heq, List.append_assoc, List.cons_append]

/-- A first source. -/
def sampleAlice : User where
  id := .ofCString (.lit "4a2c1f52-9f7e-4d0b-8c3b-6f1f0a9d7e11")
  username := Bytes.lit "alice"
  password := Bytes.lit "first"

/-- A second source. -/
def sampleBob : User where
  id := .ofCString (.lit "0c9d4a6e-55b1-4f0e-9a57-2b1d7e8f3c20")
  username := Bytes.lit "bob"
  password := Bytes.lit "second"

/-- A copy of the second source of which the password cannot be copied. -/
def sampleFailure : Mutation := .copy sampleBob none (some .badAllocation)

/-- After a copy of the first source and the failing copy of the second, a user has the
id and the username of the second and the password of the first. -/
theorem all_or_nothing_fails :
    sampleFailure.apply sampleAlice =
        ({ sampleBob with password := sampleAlice.password }, .error .badAllocation) ∧
      ¬ sampleFailure.AllOrNothing sampleAlice ∧
      ¬ (after {} [.copy sampleAlice none none, sampleFailure]).origins.Single := by
  have happly : sampleFailure.apply sampleAlice =
      ({ sampleBob with password := sampleAlice.password }, .error .badAllocation) := rfl
  refine ⟨happly, fun h => ?_, fun h => ?_⟩
  · have hkept := h .badAllocation (by rw [happly])
    rw [happly] at hkept
    exact absurd (congrArg User.username hkept) (by decide)
  · exact absurd (h 1 0 (.inl (by decide)) (by decide)) (by decide)

end User

end RePlace
