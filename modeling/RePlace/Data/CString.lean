import Mathlib.Data.List.TakeWhile
import Mathlib.Tactic

/-!
# NUL-terminated byte strings

A `CString` is the text a `const char*` points to: the bytes before the
terminator. That the text holds no NUL is a field, so a length never has to be
guarded. `CString.ofBytes` is what a C function sees of a byte buffer, and the
functions of `<cstring>` are read on the text: `strlen`, `strnlen`, `strcmp`,
`strncmp`.
`strcmp` compares bytes as unsigned values; the three facts that make it a
strict order (`strcmp_eq_zero_iff`, `strcmp_swap`, `strcmp_trans`) are what an
ordered container needs from it.
-/

/-- A byte string of known length. -/
abbrev Bytes := List UInt8

namespace Bytes

/-- The bytes of an ASCII literal. -/
def lit (s : String) : Bytes := s.toList.map fun c => c.toNat.toUInt8

/-- What a C function sees of a buffer: everything before the first NUL. -/
def beforeNul (s : Bytes) : Bytes := s.takeWhile (· ≠ 0)

theorem beforeNul_nulFree (s : Bytes) : (0 : UInt8) ∉ beforeNul s := by
  intro h
  have := List.mem_takeWhile_imp h
  simp at this

theorem beforeNul_of_nulFree {s : Bytes} (h : (0 : UInt8) ∉ s) : beforeNul s = s := by
  rw [beforeNul, List.takeWhile_eq_self_iff]
  intro b hb
  simpa using fun h0 : b = 0 => h (h0 ▸ hb)

@[simp] theorem beforeNul_zero_cons (s : Bytes) : beforeNul (0 :: s) = [] := rfl

theorem beforeNul_append {s : Bytes} (h : (0 : UInt8) ∉ s) (t : Bytes) :
    beforeNul (s ++ t) = s ++ beforeNul t := by
  refine List.takeWhile_append_of_pos fun b hb => ?_
  simpa using fun h0 : b = 0 => h (h0 ▸ hb)

end Bytes

/-- The text of a NUL-terminated string. -/
structure CString where
  bytes : Bytes
  nulFree : (0 : UInt8) ∉ bytes
deriving DecidableEq

namespace CString

@[ext] theorem ext {s t : CString} (h : s.bytes = t.bytes) : s = t := by
  cases s
  cases t
  simpa using h

/-- The C string that starts a buffer. -/
def ofBytes (s : Bytes) : CString := ⟨Bytes.beforeNul s, Bytes.beforeNul_nulFree s⟩

@[simp] theorem bytes_ofBytes (s : Bytes) : (ofBytes s).bytes = Bytes.beforeNul s := rfl

theorem ofBytes_bytes_of_nulFree {s : Bytes} (h : (0 : UInt8) ∉ s) :
    (ofBytes s).bytes = s :=
  Bytes.beforeNul_of_nulFree h

/-- A C string ends at the first NUL of its buffer. -/
theorem ofBytes_append_zero (s : CString) (t : Bytes) : ofBytes (s.bytes ++ 0 :: t) = s := by
  refine ext ?_
  rw [bytes_ofBytes, Bytes.beforeNul_append s.nulFree, Bytes.beforeNul_zero_cons, List.append_nil]

/-- The C string of an ASCII literal. -/
def lit (s : String) : CString := ofBytes (Bytes.lit s)

/-- The first characters of a text. -/
def take (s : CString) (n : ℕ) : CString :=
  ⟨s.bytes.take n, fun h => s.nulFree (List.mem_of_mem_take h)⟩

@[simp] theorem bytes_take (s : CString) (n : ℕ) : (s.take n).bytes = s.bytes.take n := rfl

@[simp] theorem ofBytes_bytes (s : CString) : ofBytes s.bytes = s :=
  ext (ofBytes_bytes_of_nulFree s.nulFree)

/-- `std::strlen`. -/
def strlen (s : CString) : ℕ := s.bytes.length

/-- `strnlen`: the length, but never more than `cap`. -/
def strnlen (s : CString) (cap : ℕ) : ℕ := min s.bytes.length cap

/-- The byte comparison behind `std::strcmp`: the difference of the first two
bytes that differ, a missing byte being the terminator. -/
def compareBytes : Bytes → Bytes → ℤ
  | [], [] => 0
  | [], b :: _ => 0 - (b.toNat : ℤ)
  | a :: _, [] => (a.toNat : ℤ)
  | a :: s, b :: t => if a = b then compareBytes s t else (a.toNat : ℤ) - (b.toNat : ℤ)

/-- `std::strcmp`. -/
def strcmp (s t : CString) : ℤ := compareBytes s.bytes t.bytes

theorem compareBytes_swap (s t : Bytes) : compareBytes s t = - compareBytes t s := by
  induction s generalizing t with
  | nil => cases t <;> simp [compareBytes]
  | cons a s ih =>
      cases t with
      | nil => simp [compareBytes]
      | cons b t =>
          by_cases h : a = b
          · simp [compareBytes, h, ih t]
          · simp [compareBytes, h, Ne.symm h]

theorem toNat_pos_of_ne_zero {b : UInt8} (h : b ≠ 0) : 0 < b.toNat := by
  rcases Nat.eq_zero_or_pos b.toNat with h0 | h0
  · exact absurd (UInt8.toNat_inj.mp (by simpa using h0)) h
  · exact h0

theorem compareBytes_eq_zero {s t : Bytes} (hs : (0 : UInt8) ∉ s) (ht : (0 : UInt8) ∉ t)
    (h : compareBytes s t = 0) : s = t := by
  induction s generalizing t with
  | nil =>
      cases t with
      | nil => rfl
      | cons b t =>
          have hb := toNat_pos_of_ne_zero (b := b) (by rintro rfl; simp at ht)
          simp only [compareBytes] at h
          omega
  | cons a s ih =>
      have ha := toNat_pos_of_ne_zero (b := a) (by rintro rfl; simp at hs)
      cases t with
      | nil =>
          simp only [compareBytes] at h
          omega
      | cons b t =>
          simp only [List.mem_cons, not_or] at hs ht
          by_cases hab : a = b
          · subst hab
            rw [ih hs.2 ht.2 (by simpa [compareBytes] using h)]
          · have hne : a.toNat ≠ b.toNat := fun e => hab (UInt8.toNat_inj.mp e)
            simp only [compareBytes, hab, if_false] at h
            omega

theorem compareBytes_self (s : Bytes) : compareBytes s s = 0 := by
  induction s with
  | nil => rfl
  | cons a s ih => simpa [compareBytes] using ih

theorem compareBytes_trans {r s t : Bytes} (hs : (0 : UInt8) ∉ s) (ht : (0 : UInt8) ∉ t)
    (h₁ : compareBytes r s < 0) (h₂ : compareBytes s t < 0) : compareBytes r t < 0 := by
  induction r generalizing s t with
  | nil =>
      cases t with
      | nil => cases s <;> simp only [compareBytes] at h₁ h₂ <;> omega
      | cons c t =>
          have hc := toNat_pos_of_ne_zero (b := c) (by rintro rfl; simp at ht)
          simp only [compareBytes]
          omega
  | cons a r ih =>
      cases s with
      | nil =>
          simp only [compareBytes] at h₁
          omega
      | cons b s =>
          cases t with
          | nil =>
              simp only [compareBytes] at h₂
              omega
          | cons c t =>
              simp only [List.mem_cons, not_or] at hs ht
              have inj : ∀ {x y : UInt8}, x.toNat = y.toNat → x = y := UInt8.toNat_inj.mp
              by_cases hab : a = b
              · subst hab
                by_cases hac : a = c
                · subst hac
                  simp only [compareBytes, if_true] at h₁ h₂ ⊢
                  exact ih hs.2 ht.2 h₁ h₂
                · simpa [compareBytes, hac] using h₂
              · by_cases hbc : b = c
                · subst hbc
                  simpa [compareBytes, hab] using h₁
                · simp only [compareBytes, hab, hbc, if_false] at h₁ h₂
                  have hac : a ≠ c := by
                    rintro rfl
                    omega
                  simp only [compareBytes, hac, if_false]
                  omega

theorem strcmp_swap (s t : CString) : strcmp s t = - strcmp t s :=
  compareBytes_swap s.bytes t.bytes

theorem strcmp_eq_zero_iff (s t : CString) : strcmp s t = 0 ↔ s = t := by
  constructor
  · exact fun h => ext (compareBytes_eq_zero s.nulFree t.nulFree h)
  · rintro rfl
    exact compareBytes_self s.bytes

/-- `std::strncmp`: the comparison of at most the first `n` characters. -/
def strncmp (s t : CString) (n : ℕ) : ℤ := strcmp (s.take n) (t.take n)

theorem strncmp_eq_zero_iff (s t : CString) (n : ℕ) : strncmp s t n = 0 ↔ s.take n = t.take n :=
  strcmp_eq_zero_iff (s.take n) (t.take n)

theorem strcmp_trans {r s t : CString} (h₁ : strcmp r s < 0) (h₂ : strcmp s t < 0) :
    strcmp r t < 0 :=
  compareBytes_trans s.nulFree t.nulFree h₁ h₂

end CString
