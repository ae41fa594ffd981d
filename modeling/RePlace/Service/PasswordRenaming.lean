import RePlace.Service.Accounts

/-!
# Calls with other passwords

Passwords are renamed, such that the setters of a user accept the same ones, and a password
starts with an accepted one as before. A call then has the same answer (`step_rename`): all
that an answer depends on is whether a password is accepted and whether it is the one that
has been registered.
-/

namespace RePlace.Auth

open List (Forall₂)

variable {argon2 : Argon2} {σ : CString → CString} {w v : World}

/-- Passwords are renamed: whether one is empty, too short, too long or cannot be hashed
stays the same, and so does which accepted ones it starts with. -/
structure Renaming (argon2 : Argon2) (σ : CString → CString) : Prop where
  empty : ∀ p, (σ p).bytes = [] ↔ p.bytes = []
  short : ∀ p, (σ p).bytes.length < 8 ↔ p.bytes.length < 8
  long : ∀ p, 60 < (σ p).bytes.length ↔ 60 < p.bytes.length
  failed : ∀ p code, Crypto.hashPassword argon2 (σ p) = .error code ↔
    Crypto.hashPassword argon2 p = .error code
  same : ∀ p q, 8 ≤ p.bytes.length → p.bytes.length ≤ 60 →
    ((σ q).bytes.take 60 = (σ p).bytes ↔ q.bytes.take 60 = p.bytes)

/-- The call with the other password. -/
def Action.rename (σ : CString → CString) : Action → Action
  | .registerUser username password id accepted =>
      .registerUser username (password.map σ) id accepted
  | .login username password newId => .login username (password.map σ) newId
  | .logout s => .logout s
  | .getUser s => .getUser s
  | .expire s => .expire s

/-- Two rows of one account, one with a password and one with its new name. -/
def RenamedRow (argon2 : Argon2) (σ : CString → CString) (row row' : UserRow) : Prop :=
  row'.id = row.id ∧ row'.username = row.username ∧
    ∃ p, Hashed argon2 p row.password ∧ Hashed argon2 (σ p) row'.password

/-- Two worlds that differ in the hashes of the passwords only. -/
structure Renamed (argon2 : Argon2) (σ : CString → CString) (w v : World) : Prop where
  users : Forall₂ (RenamedRow argon2 σ) w.users v.users
  sessions : v.sessions = w.sessions

theorem renamed_init : Renamed argon2 σ {} {} where
  users := .nil
  sessions := rfl

/-! ## Registrations -/

/-- A password is rejected under both names for the same reason, or accepted under both. -/
theorem setPassword_rename (hσ : Renaming argon2 σ) (user : User) (password : Option CString) :
    (∃ code, user.setPassword argon2 password = (user, .error code) ∧
      user.setPassword argon2 (password.map σ) = (user, .error code)) ∨
    ∃ p hash hash', password = some p ∧ Hashed argon2 p hash ∧ Hashed argon2 (σ p) hash' ∧
      user.setPassword argon2 password = ({ user with password := hash.bytes }, .ok ()) ∧
      user.setPassword argon2 (password.map σ) =
        ({ user with password := hash'.bytes }, .ok ()) := by
  cases password with
  | none => exact .inl ⟨.userPasswordRequired, rfl, rfl⟩
  | some p =>
  have hmin : ∀ q : CString, q.strnlen (User.passwordMax + 1) < User.passwordMin ↔
      q.bytes.length < 8 := by
    intro q
    simp only [CString.strnlen, User.passwordMax, User.passwordMin]
    omega
  have hmax : ∀ q : CString, q.strnlen (User.passwordMax + 1) > User.passwordMax ↔
      60 < q.bytes.length := by
    intro q
    simp only [CString.strnlen, User.passwordMax]
    omega
  simp only [Option.map_some, User.setPassword, hmin, hmax, hσ.empty, hσ.short, hσ.long]
  by_cases hempty : p.bytes = []
  · exact .inl ⟨.userPasswordRequired, by rw [if_pos hempty], by rw [if_pos hempty]⟩
  rw [if_neg hempty, if_neg hempty]
  by_cases hshort : p.bytes.length < 8
  · exact .inl ⟨.userPasswordMinLength, by rw [if_pos hshort], by rw [if_pos hshort]⟩
  rw [if_neg hshort, if_neg hshort]
  by_cases hlong : 60 < p.bytes.length
  · exact .inl ⟨.userPasswordMaxLength, by rw [if_pos hlong], by rw [if_pos hlong]⟩
  rw [if_neg hlong, if_neg hlong]
  cases hhash : Crypto.hashPassword argon2 p with
  | error code =>
      rw [(hσ.failed p code).mpr hhash]
      exact .inl ⟨code, rfl, rfl⟩
  | ok hash =>
      cases hhash' : Crypto.hashPassword argon2 (σ p) with
      | error code => cases hhash.symm.trans ((hσ.failed p code).mp hhash')
      | ok hash' =>
          have hshort' := (hσ.short p).not.mpr hshort
          have hlong' := (hσ.long p).not.mpr hlong
          exact .inr ⟨p, hash, hash', rfl,
            ⟨by omega, by omega, Crypto.hashPassword_ok hhash⟩,
            ⟨by omega, by omega, Crypto.hashPassword_ok hhash'⟩, rfl, rfl⟩

theorem Renamed.any (h : Renamed argon2 σ w v) (name : CString) :
    (v.users.any fun row => row.username = name) = w.users.any fun row => row.username = name := by
  have husers := h.users
  generalize w.users = rows, v.users = rows' at husers
  induction husers with
  | nil => rfl
  | cons hrow _ ih => rw [List.any_cons, List.any_cons, hrow.2.1, ih]

theorem Renamed.registerUser (h : Renamed argon2 σ w v) (hσ : Renaming argon2 σ)
    (username password : Option CString) (id : Uuid) (accepted : Bool) :
    (registerUser argon2 v username (password.map σ) id accepted).2 =
        (registerUser argon2 w username password id accepted).2 ∧
      Renamed argon2 σ (registerUser argon2 w username password id accepted).1
        (registerUser argon2 v username (password.map σ) id accepted).1 := by
  unfold Auth.registerUser
  cases ({} : User).setUsername username with
  | mk user result =>
  cases result with
  | error code => exact ⟨rfl, h⟩
  | ok _ =>
  dsimp only
  rcases setPassword_rename hσ user password with
    ⟨code, hold, hnew⟩ | ⟨p, hash, hash', rfl, hhash, hhash', hold, hnew⟩
  · rw [hold, hnew]
    exact ⟨rfl, h⟩
  · rw [hold, hnew]
    dsimp only [UserPg.addUser]
    rw [h.any]
    cases (w.users.any fun row => row.username = CString.ofBytes user.username) || !accepted with
    | true => exact ⟨rfl, h⟩
    | false =>
        refine ⟨rfl, List.rel_append h.users (.cons ⟨rfl, rfl, p, ?_, ?_⟩ .nil), h.sessions⟩
        · simpa only [CString.ofBytes_bytes] using hhash
        · simpa only [CString.ofBytes_bytes] using hhash'

/-! ## Logins -/

/-- The same account is found, under both names of its password. -/
theorem Renamed.getUserByUsername (h : Renamed argon2 σ w v) (name : CString) :
    (∃ code, UserPg.getUserByUsername w.users name = .error code ∧
      UserPg.getUserByUsername v.users name = .error code) ∨
    ∃ (user : User) (p hash hash' : CString), Hashed argon2 p hash ∧ Hashed argon2 (σ p) hash' ∧
      UserPg.getUserByUsername w.users name = .ok { user with password := hash.bytes } ∧
      UserPg.getUserByUsername v.users name = .ok { user with password := hash'.bytes } := by
  have hfind : (w.users.find? (fun row => row.username = name) = none ∧
      v.users.find? (fun row => row.username = name) = none) ∨
      ∃ row row', w.users.find? (fun row => row.username = name) = some row ∧
        v.users.find? (fun row => row.username = name) = some row' ∧
        RenamedRow argon2 σ row row' := by
    have husers := h.users
    generalize w.users = rows, v.users = rows' at husers
    induction husers with
    | nil => exact .inl ⟨rfl, rfl⟩
    | @cons row row' rows rows' hrow _ ih =>
        rw [List.find?_cons, List.find?_cons, hrow.2.1]
        cases decide (row.username = name) with
        | true => exact .inr ⟨row, row', rfl, rfl, hrow⟩
        | false => exact ih
  unfold UserPg.getUserByUsername
  rcases hfind with ⟨hw, hv⟩ | ⟨row, row', hw, hv, hid, -, p, hhash, hhash'⟩
  · rw [hw, hv]
    exact .inl ⟨.repoUserNotFound, rfl, rfl⟩
  · rw [hw, hv]
    refine .inr ⟨((({} : User).setId row.id.text).setUsername (some name)).1, p, row.password,
      row'.password, hhash, hhash', rfl, ?_⟩
    dsimp only
    rw [hid]
    rfl

/-- A password is verified under its new name as under its old one. -/
theorem verifyPassword_rename (hlaw : argon2.Lawful) (hσ : Renaming argon2 σ)
    {p hash hash' : CString} (hhash : Hashed argon2 p hash)
    (hhash' : Hashed argon2 (σ p) hash') (q : CString) :
    Crypto.verifyPassword argon2 hash'.bytes (σ q) = Crypto.verifyPassword argon2 hash.bytes q := by
  rw [Bool.eq_iff_iff, Crypto.verifyPassword_iff hlaw hhash'.2.2,
    Crypto.verifyPassword_iff hlaw hhash.2.2]
  exact hσ.same p q hhash.1 hhash.2.1

theorem Renamed.login (h : Renamed argon2 σ w v) (hlaw : argon2.Lawful)
    (hσ : Renaming argon2 σ) (username password : Option CString) (newId : Uuid) :
    (login argon2 v username (password.map σ) newId).2 =
        (login argon2 w username password newId).2 ∧
      Renamed argon2 σ (login argon2 w username password newId).1
        (login argon2 v username (password.map σ) newId).1 := by
  have hfilter : (password.map σ).filter (·.bytes ≠ []) =
      (password.filter (·.bytes ≠ [])).map σ := by
    cases password with
    | none => rfl
    | some q =>
        simp only [Option.map_some, Option.filter, hσ.empty, ne_eq]
        split <;> rfl
  unfold Auth.login
  cases username.filter (·.bytes ≠ []) with
  | none => exact ⟨rfl, h⟩
  | some name =>
  rw [hfilter]
  dsimp only
  cases password.filter (·.bytes ≠ []) with
  | none => exact ⟨rfl, h⟩
  | some q =>
  dsimp only [Option.map_some]
  rcases h.getUserByUsername name with
    ⟨code, hw, hv⟩ | ⟨user, p, hash, hash', hhash, hhash', hw, hv⟩
  · rw [hw, hv]
    exact ⟨rfl, h⟩
  · rw [hw, hv]
    dsimp only
    rw [verifyPassword_rename hlaw hσ hhash hhash']
    split
    · rw [h.sessions, SessionValkey.setSession_eq, SessionValkey.setSession_eq]
      exact ⟨rfl, h.users, rfl⟩
    · exact ⟨rfl, h⟩

/-- A call with the other password has the same answer. -/
theorem step_rename (hlaw : argon2.Lawful) (hσ : Renaming argon2 σ)
    (h : Renamed argon2 σ w v) (a : Action) :
    (step argon2 v (a.rename σ)).2 = (step argon2 w a).2 ∧
      Renamed argon2 σ (step argon2 w a).1 (step argon2 v (a.rename σ)).1 := by
  cases a with
  | registerUser username password id accepted =>
      obtain ⟨hanswer, hnext⟩ := h.registerUser hσ username password id accepted
      exact ⟨congrArg Answer.registered hanswer, hnext⟩
  | login username password newId =>
      obtain ⟨hanswer, hnext⟩ := h.login hlaw hσ username password newId
      exact ⟨congrArg Answer.loggedIn hanswer, hnext⟩
  | logout s =>
      simp only [Action.rename, step, logout, h.sessions, true_and]
      exact ⟨h.users, rfl⟩
  | getUser s =>
      simp only [Action.rename, step, getUser, h.sessions, true_and]
      exact h
  | expire s =>
      simp only [Action.rename, step, h.sessions, true_and]
      exact ⟨h.users, rfl⟩

end RePlace.Auth
