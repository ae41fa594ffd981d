import RePlace.Data.CString

/-!
# Uuids

A `uuid` is the text in its buffer: at most 36 characters, whatever it has been
assigned from.
-/

namespace RePlace

/-- `uuid`. -/
@[ext] structure Uuid where
  text : CString
  length_le : text.bytes.length ≤ 36
deriving DecidableEq

namespace Uuid

/-- `uuid::SIZE`. -/
def size : ℕ := 36

/-- `uuid::uuid()`. -/
def empty : Uuid := ⟨.lit "", by decide⟩

/-- `uuid::uuid(const c8*)` and `uuid::operator=(const c8*)`. -/
def ofCString (s : CString) : Uuid :=
  ⟨s.take size, by
    rw [CString.bytes_take, List.length_take, size]
    exact Nat.min_le_left _ _⟩

/-- `uuid::is_empty`. -/
def isEmpty (u : Uuid) : Bool := u.text.bytes.isEmpty

/-- The `uuid::SIZE` bytes at `uuid::get_string`: behind a shorter text the buffer
holds zeros. -/
def buffer (u : Uuid) : Bytes :=
  u.text.bytes ++ List.replicate (size - u.text.bytes.length) 0

/-- The text fills the buffer, as that of every generated uuid does. -/
def Full (u : Uuid) : Prop := u.text.bytes.length = size

instance (u : Uuid) : Decidable u.Full := inferInstanceAs (Decidable (_ = _))

/-- A character of the text of a uuid: a hexadecimal digit or a dash. -/
def isUuidChar (b : UInt8) : Bool :=
  (0x30 ≤ b ∧ b ≤ 0x39) ∨ (0x61 ≤ b ∧ b ≤ 0x66) ∨ (0x41 ≤ b ∧ b ≤ 0x46) ∨ b = 0x2D

/-- The text is that of a uuid, as `uuid_unparse_lower` and the database write it. -/
structure Textual (u : Uuid) : Prop where
  full : u.Full
  chars : u.text.bytes.all isUuidChar = true

@[simp] theorem ofCString_text (u : Uuid) : ofCString u.text = u := by
  refine Uuid.ext (CString.ext ?_)
  exact List.take_of_length_le u.length_le

/-- A full uuid is read off any text that it starts. -/
theorem Full.ofCString_append {u : Uuid} (hu : u.Full) (s : Bytes) :
    ofCString (CString.ofBytes (u.text.bytes ++ s)) = u := by
  refine Uuid.ext (CString.ext ?_)
  rw [ofCString, CString.bytes_take, CString.bytes_ofBytes, Bytes.beforeNul_append u.text.nulFree,
    ← hu, List.take_left]

/-- A full uuid is read off the texts that it starts. -/
theorem Full.ofCString_ofBytes_iff {u : Uuid} (hu : u.Full) (s : Bytes) :
    ofCString (CString.ofBytes s) = u ↔ u.text.bytes <+: s := by
  constructor
  · rintro rfl
    exact (List.take_prefix _ _).trans (List.takeWhile_prefix _)
  · rintro ⟨t, rfl⟩
    exact hu.ofCString_append t

theorem Full.not_isEmpty {u : Uuid} (hu : u.Full) : u.isEmpty = false := by
  cases h : u.text.bytes with
  | nil => simp [Full, size, h] at hu
  | cons a rest => simp [isEmpty, h]

end Uuid

end RePlace
