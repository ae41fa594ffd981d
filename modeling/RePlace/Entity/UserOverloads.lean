import RePlace.Crypto.PasswordOverloads
import RePlace.Entity.User

/-!
# The overloads of the setters

The setters of a user for a `string` against those for a C string. Those of the
username are the same operation. Those of the password differ in their last check:
the one for a `string` measures the username instead of the password.
-/

namespace RePlace.User

variable (argon2 : Argon2)

/-- The codes with which a password is turned down before it is hashed. -/
def passwordRejections : List ErrorCode :=
  [.userPasswordRequired, .userPasswordMinLength, .userPasswordMaxLength]

/-- A password that a setter turns down. -/
def Rejected (result : Except ErrorCode Unit) : Prop :=
  ∃ code ∈ passwordRejections, result = .error code

/-- The setters for a `string` and for a C string do the same, and accept what has
the right length. -/
structure SettersAgree (user : User) (s : CString) : Prop where
  username : user.setUsernameString s.bytes = user.setUsername (some s)
  password : user.setPasswordString argon2 s.bytes = user.setPassword argon2 (some s)
  username_accepted : (user.setUsername (some s)).2 = .ok () ↔
    1 ≤ s.bytes.length ∧ s.bytes.length ≤ 60
  password_accepted : ¬ Rejected (user.setPassword argon2 (some s)).2 ↔
    8 ≤ s.bytes.length ∧ s.bytes.length ≤ 60

/-- What all setters of a password do about one that has been checked. -/
def hashInto (user : User) (s : CString) : User × Except ErrorCode Unit :=
  match Crypto.hashPassword argon2 s with
  | .error code => (user, .error code)
  | .ok hash => ({ user with password := hash.bytes }, .ok ())

variable {argon2}

theorem rejected_error {code : ErrorCode} (h : code ∈ passwordRejections) :
    Rejected (.error code) := ⟨code, h, rfl⟩

/-- A failure of the hash function is not a rejection. -/
theorem hashInto_not_rejected (user : User) (s : CString) :
    ¬ Rejected (user.hashInto argon2 s).2 := by
  rintro ⟨code, hcode, h⟩
  simp only [hashInto, Crypto.hashPassword, Crypto.hashPasswordSized] at h
  cases hhash : argon2.hashEncoded (s.bytes.take s.strlen) with
  | ok hash => simp [hhash] at h
  | error e =>
      by_cases he : e = Crypto.memoryAllocationError
      · simp only [hhash, he, if_true, Except.error.injEq] at h
        subst h
        exact absurd hcode (by decide)
      · simp only [hhash, he, if_false, Except.error.injEq] at h
        subst h
        exact absurd hcode (by decide)

theorem setUsername_eq (user : User) (s : CString) :
    user.setUsername (some s) =
      if s.bytes = [] then (user, .error .userUsernameRequired)
      else if s.bytes.length > 60 then (user, .error .userUsernameMaxLength)
      else ({ user with username := s.bytes }, .ok ()) := by
  have hcap : s.strnlen (usernameMax + 1) > usernameMax ↔ s.bytes.length > 60 := by
    simp only [CString.strnlen, usernameMax]
    omega
  simp only [setUsername, hcap]

theorem setPassword_eq (user : User) (s : CString) :
    user.setPassword argon2 (some s) =
      if s.bytes = [] then (user, .error .userPasswordRequired)
      else if s.bytes.length < 8 then (user, .error .userPasswordMinLength)
      else if s.bytes.length > 60 then (user, .error .userPasswordMaxLength)
      else user.hashInto argon2 s := by
  have hmin : s.strnlen (passwordMax + 1) < passwordMin ↔ s.bytes.length < 8 := by
    simp only [CString.strnlen, passwordMax, passwordMin]
    omega
  have hmax : s.strnlen (passwordMax + 1) > passwordMax ↔ s.bytes.length > 60 := by
    simp only [CString.strnlen, passwordMax]
    omega
  simp only [setPassword, hmin, hmax]
  rfl

theorem setPasswordString_eq (user : User) (s : CString) :
    user.setPasswordString argon2 s.bytes =
      if s.bytes = [] then (user, .error .userPasswordRequired)
      else if s.bytes.length < 8 then (user, .error .userPasswordMinLength)
      else if user.username.length > 60 then (user, .error .userPasswordMaxLength)
      else user.hashInto argon2 s := rfl

theorem setUsername_accepted_iff (user : User) (s : CString) :
    (user.setUsername (some s)).2 = .ok () ↔ 1 ≤ s.bytes.length ∧ s.bytes.length ≤ 60 := by
  rw [setUsername_eq]
  by_cases hnil : s.bytes = []
  · simp [hnil]
  · have hpos : 1 ≤ s.bytes.length := List.length_pos_iff.mpr hnil
    by_cases hlen : s.bytes.length > 60
    · simp only [hnil, hlen, if_true, if_false, reduceCtorEq, false_iff, not_and]
      omega
    · simp only [hnil, hlen, if_false, true_iff]
      omega

theorem setPassword_accepted_iff (user : User) (s : CString) :
    ¬ Rejected (user.setPassword argon2 (some s)).2 ↔
      8 ≤ s.bytes.length ∧ s.bytes.length ≤ 60 := by
  rw [setPassword_eq]
  by_cases hnil : s.bytes = []
  · rw [if_pos hnil, hnil]
    exact iff_of_false (not_not.mpr (rejected_error (by decide))) (by simp)
  · rw [if_neg hnil]
    by_cases hmin : s.bytes.length < 8
    · rw [if_pos hmin]
      exact iff_of_false (not_not.mpr (rejected_error (by decide))) (by omega)
    · rw [if_neg hmin]
      by_cases hmax : s.bytes.length > 60
      · rw [if_pos hmax]
        exact iff_of_false (not_not.mpr (rejected_error (by decide))) (by omega)
      · rw [if_neg hmax]
        exact iff_of_true (hashInto_not_rejected user s) (by omega)

/-- The setters of a password do the same exactly for a text that is too short, or
when it and the username are both too long or both not. -/
theorem setPasswordString_eq_iff (user : User) (s : CString) :
    user.setPasswordString argon2 s.bytes = user.setPassword argon2 (some s) ↔
      s.bytes.length < 8 ∨ (s.bytes.length ≤ 60 ↔ user.username.length ≤ 60) := by
  rw [setPasswordString_eq, setPassword_eq]
  have hdiff : user.hashInto argon2 s ≠ (user, .error .userPasswordMaxLength) := fun h =>
    hashInto_not_rejected user s ⟨.userPasswordMaxLength, by decide, congrArg Prod.snd h⟩
  by_cases hnil : s.bytes = []
  · simp [hnil]
  · rw [if_neg hnil, if_neg hnil]
    by_cases hmin : s.bytes.length < 8
    · rw [if_pos hmin, if_pos hmin]
      exact iff_of_true rfl (.inl hmin)
    · rw [if_neg hmin, if_neg hmin]
      by_cases hmax : s.bytes.length > 60 <;> by_cases hname : user.username.length > 60
      · rw [if_pos hmax, if_pos hname]
        exact iff_of_true rfl (.inr (by omega))
      · rw [if_pos hmax, if_neg hname]
        exact iff_of_false hdiff (by omega)
      · rw [if_neg hmax, if_pos hname]
        exact iff_of_false hdiff.symm (by omega)
      · rw [if_neg hmax, if_neg hname]
        exact iff_of_true rfl (.inr (by omega))

/-- The overloads agree exactly for a text that is too short for a password, or when
it and the current username are both longer than 60 characters or both not. -/
theorem setters_agree_iff (user : User) (s : CString) :
    user.SettersAgree argon2 s ↔
      s.bytes.length < 8 ∨ (s.bytes.length ≤ 60 ↔ user.username.length ≤ 60) := by
  rw [← @setPasswordString_eq_iff argon2]
  constructor
  · exact fun h => h.password
  · exact fun h => ⟨(setUsername_eq user s).symm, h, setUsername_accepted_iff user s,
      setPassword_accepted_iff user s⟩

/-- A password of 61 characters is turned down as a C string and set as a `string`. -/
theorem setters_agree_fails :
    (({} : User).setPassword sampleArgon2 (some Crypto.longPassword)).2 =
        .error .userPasswordMaxLength ∧
      ({} : User).setPasswordString sampleArgon2 Crypto.longPassword.bytes =
        ({ password := Crypto.longPassword.bytes }, .ok ()) := by
  decide

end RePlace.User
