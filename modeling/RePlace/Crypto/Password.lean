import RePlace.Types

/-!
# Hashing passwords

The functions of `utils/crypto/password.cpp` over the argon2 library, which is
not part of the server: `Argon2` is what they use of it, with the configured
cost parameters and the fixed salt.
-/

namespace RePlace

/-- The argon2 library. `hashEncoded` gets the bytes to be hashed and returns the
encoding or an error code; `verify` gets an encoding, a buffer and a length. -/
structure Argon2 where
  hashEncoded : Bytes → Except ℤ CString
  verify : CString → Bytes → ℕ → Bool

/-- An encoding verifies exactly the buffers that start with what was hashed. -/
def Argon2.Lawful (argon2 : Argon2) : Prop :=
  ∀ x e, argon2.hashEncoded x = .ok e → ∀ y n, argon2.verify e y n = true ↔ y.take n = x

/-- An empty encoding verifies nothing but an empty password. -/
def Argon2.RefusesEmpty (argon2 : Argon2) : Prop :=
  ∀ y n, argon2.verify (.ofBytes []) y n = true → y.take n = []

/-- An encoding that is the password itself. -/
def sampleArgon2 : Argon2 where
  hashEncoded x := if h : (0 : UInt8) ∉ x then .ok ⟨x, h⟩ else .error (-1)
  verify e y n := y.take n = e.bytes

theorem sampleArgon2_lawful : sampleArgon2.Lawful := by
  intro x e hok y n
  simp only [sampleArgon2] at hok ⊢
  split at hok
  · rw [← Except.ok.inj hok, decide_eq_true_iff]
  · cases hok

theorem sampleArgon2_refusesEmpty : sampleArgon2.RefusesEmpty :=
  fun _ _ h => of_decide_eq_true h

namespace Crypto

/-- `ARGON2_MEMORY_ALLOCATION_ERROR`. -/
def memoryAllocationError : ℤ := -22

variable (argon2 : Argon2)

/-- `hash_password(const c8*, usize)`. -/
def hashPasswordSized (password : Bytes) (size : ℕ) : Except ErrorCode CString :=
  match argon2.hashEncoded (password.take size) with
  | .ok encoded => .ok encoded
  | .error code =>
      if code = memoryAllocationError then .error .badAllocation else .error .cryptoHashError

/-- `hash_password(const string&)`. -/
def hashPasswordString (password : Bytes) : Except ErrorCode CString :=
  hashPasswordSized argon2 password password.length

/-- `hash_password(const c8*)`. -/
def hashPassword (password : CString) : Except ErrorCode CString :=
  hashPasswordSized argon2 password.bytes password.strlen

/-- `verify_password(const string&, const c8*, usize)`. -/
def verifyPasswordSized (hash : Bytes) (password : Bytes) (size : ℕ) : Bool :=
  argon2.verify (CString.ofBytes hash) password size

/-- `verify_password(const string&, const string&)`. -/
def verifyPasswordString (hash : Bytes) (password : Bytes) : Bool :=
  verifyPasswordSized argon2 hash password password.length

/-- `verify_password(const string&, const c8*)`. -/
def verifyPassword (hash : Bytes) (password : CString) : Bool :=
  verifyPasswordSized argon2 hash password.bytes (password.strnlen 60)

variable {argon2}

/-- What a password has been hashed to. -/
theorem hashPassword_ok {password hash : CString} (h : hashPassword argon2 password = .ok hash) :
    argon2.hashEncoded password.bytes = .ok hash := by
  rw [hashPassword, hashPasswordSized, CString.strlen, List.take_length] at h
  split at h
  · rename_i encoded hok
    rw [hok, Except.ok.inj h]
  · split at h <;> cases h

/-- Only the first 60 characters of a password are verified. -/
theorem verifyPassword_iff (hlaw : argon2.Lawful) {x : Bytes} {hash : CString}
    (hhash : argon2.hashEncoded x = .ok hash) (password : CString) :
    verifyPassword argon2 hash.bytes password = true ↔ password.bytes.take 60 = x := by
  have htake : password.bytes.take (password.strnlen 60) = password.bytes.take 60 := by
    rw [CString.strnlen, Nat.min_comm, ← List.take_eq_take_min]
  rw [verifyPassword, verifyPasswordSized, CString.ofBytes_bytes, hlaw x hash hhash, htake]

end Crypto

end RePlace
