import RePlace.Crypto.Password

/-!
# The overloads of hashing and verifying

The overloads for a `string`, for a C string and for a pointer with its length.
Hashing does the same in all of them. Verifying differs: the overload for a C
string reads at most 60 characters.
-/

namespace RePlace.Crypto

variable (argon2 : Argon2)

/-- The results of the overloads of `hash_password` for a password: as a `string`,
as a C string, and as a pointer with the full length. -/
def hashOverloads (p : CString) : List (Except ErrorCode CString) :=
  [hashPasswordString argon2 p.bytes, hashPassword argon2 p,
    hashPasswordSized argon2 p.bytes p.strlen]

/-- The results of the overloads of `verify_password` for a hash and a password. -/
def verifyOverloads (hash : CString) (q : CString) : List Bool :=
  [verifyPasswordString argon2 hash.bytes q.bytes, verifyPassword argon2 hash.bytes q,
    verifyPasswordSized argon2 hash.bytes q.bytes q.strlen]

variable {argon2}

/-- All overloads hash a password to the same text. -/
theorem hashEncoded_of_mem {p hash : CString} (h : .ok hash ∈ hashOverloads argon2 p) :
    argon2.hashEncoded p.bytes = .ok hash := by
  have hsame : hashOverloads argon2 p = List.replicate 3 (hashPassword argon2 p) := rfl
  rw [hsame] at h
  exact hashPassword_ok (List.eq_of_mem_replicate h).symm

/-- With its full length a password is verified as a whole. -/
theorem verifyPasswordSized_iff (hlaw : argon2.Lawful) {x : Bytes} {hash : CString}
    (hhash : argon2.hashEncoded x = .ok hash) (q : Bytes) :
    verifyPasswordSized argon2 hash.bytes q q.length = true ↔ q = x := by
  rw [verifyPasswordSized, CString.ofBytes_bytes, hlaw x hash hhash, List.take_length]

/-- Every overload accepts exactly the password that was hashed, unless the text is
longer than 60 characters and itself the password, or its first 60 characters are. -/
theorem verify_overloads_iff (hlaw : argon2.Lawful) {p hash : CString}
    (hhash : .ok hash ∈ hashOverloads argon2 p) (q : CString) :
    (∀ v ∈ verifyOverloads argon2 hash q, v = true ↔ q = p) ↔
      ¬ (60 < q.bytes.length ∧ (q.bytes = p.bytes ∨ q.bytes.take 60 = p.bytes)) := by
  have hx := hashEncoded_of_mem hhash
  have hwhole : verifyPasswordSized argon2 hash.bytes q.bytes q.bytes.length = true ↔ q = p := by
    rw [verifyPasswordSized_iff hlaw hx, CString.ext_iff]
  have hall : (∀ v ∈ verifyOverloads argon2 hash q, v = true ↔ q = p) ↔
      (q.bytes.take 60 = p.bytes ↔ q.bytes = p.bytes) := by
    simp only [verifyOverloads, List.forall_mem_cons, verifyPasswordString, CString.strlen, hwhole,
      verifyPassword_iff hlaw hx, CString.ext_iff, true_and, List.not_mem_nil, false_implies,
      implies_true, and_true]
  rw [hall]
  by_cases hshort : q.bytes.length ≤ 60
  · rw [List.take_of_length_le hshort]
    simp only [true_iff, not_and]
    omega
  · have hcut : q.bytes.take 60 ≠ q.bytes := fun h => hshort (by simpa using h)
    have hnot : ¬ (q.bytes.take 60 = p.bytes ∧ q.bytes = p.bytes) := fun h =>
      hcut (h.1.trans h.2.symm)
    have hlong : 60 < q.bytes.length := by omega
    simp only [hlong, true_and]
    tauto

/-- A password of eight characters. -/
theorem verify_overloads_sample :
    sampleArgon2.Lawful ∧ ∀ v ∈ verifyOverloads sampleArgon2 (.lit "password") (.lit "password"),
      v = true ↔ CString.lit "password" = .lit "password" :=
  ⟨sampleArgon2_lawful,
    (verify_overloads_iff sampleArgon2_lawful (p := .lit "password") (by decide) _).mpr
      (by decide)⟩

/-- A password of 61 characters. -/
def longPassword : CString := ⟨List.replicate 61 0x61, by decide⟩

/-- The long password is hashed, verified as a `string`, and not verified as a C
string. -/
theorem verify_overloads_fails :
    sampleArgon2.Lawful ∧
      hashPasswordString sampleArgon2 longPassword.bytes = .ok longPassword ∧
      verifyPasswordString sampleArgon2 longPassword.bytes longPassword.bytes = true ∧
      verifyPassword sampleArgon2 longPassword.bytes longPassword = false :=
  ⟨sampleArgon2_lawful, by decide, by decide, by decide⟩

end RePlace.Crypto
