import RePlace.Http.JsonText
import RePlace.Repo.SessionRecord

/-!
# The record of a session as JSON

The record is put together from pieces of text. It is as long as the shortest text of
an object with the id and the username can be, so it is one exactly when the username
needs no escapes.
-/

namespace RePlace

open Bytes (lit)
open Http (Json)
open JsonString (isPlain literal_ofAscii utf8_ofAscii_of_plain)

/-- A printable ASCII character. -/
def isPrintable (b : UInt8) : Bool := 0x20 ≤ b ∧ b ≤ 0x7E

/-- A user with the text of a uuid as its id and a printable username that
`set_username` accepts. -/
structure User.Printable (user : User) : Prop where
  accepted : user.Accepted
  id : user.id.Textual
  username : user.username.all isPrintable = true

namespace SessionValkey

/-- The object a record is meant to be. -/
def recordJson (user : User) : Json :=
  .object [(lit "id", .string user.id.text.bytes), (lit "username", .string user.username)]

variable {user : User}

theorem plain_of_isUuidChar {s : Bytes} (hs : s.all Uuid.isUuidChar = true) :
    s.all isPlain = true := by
  rw [List.all_eq_true] at hs ⊢
  intro b hb
  have hchar := hs b hb
  simp only [Uuid.isUuidChar, decide_eq_true_eq, UInt8.le_iff_toNat_le, ← UInt8.toNat_inj,
    UInt8.reduceToNat] at hchar
  rw [isPlain, decide_eq_true_iff]
  omega

theorem plain_of_isPrintable {s : Bytes} (hs : s.all isPrintable = true)
    (hquote : (0x22 : UInt8) ∉ s) (hbackslash : (0x5C : UInt8) ∉ s) : s.all isPlain = true := by
  rw [List.all_eq_true] at hs ⊢
  intro b hb
  have hchar := hs b hb
  simp only [isPrintable, decide_eq_true_eq, UInt8.le_iff_toNat_le, UInt8.reduceToNat] at hchar
  have hne : b.toNat ≠ (0x22 : UInt8).toNat := fun h => hquote (UInt8.toNat_inj.mp h ▸ hb)
  have hne' : b.toNat ≠ (0x5C : UInt8).toNat := fun h => hbackslash (UInt8.toNat_inj.mp h ▸ hb)
  simp only [UInt8.reduceToNat] at hne hne'
  rw [isPlain, decide_eq_true_iff]
  omega

/-- A record with a username without quotes and backslashes is its object. -/
theorem record_text (h : user.Printable) (hquote : (0x22 : UInt8) ∉ user.username)
    (hbackslash : (0x5C : UInt8) ∉ user.username) : (recordJson user).Text (record user) := by
  have hid := plain_of_isUuidChar h.id.chars
  have hname := plain_of_isPrintable h.username hquote hbackslash
  have hkey : (lit "id").all isPlain = true := by decide
  have hkey' : (lit "username").all isPlain = true := by decide
  have htext := Json.text_pair (literal_ofAscii hkey) (literal_ofAscii hid)
    (literal_ofAscii hkey') (literal_ofAscii hname)
  rw [utf8_ofAscii_of_plain hkey, utf8_ofAscii_of_plain hid, utf8_ofAscii_of_plain hkey',
    utf8_ofAscii_of_plain hname] at htext
  have hrecord : record user = lit "\x7b" ++
      ([0x22] ++ lit "id" ++ [0x22] ++ lit ":" ++ ([0x22] ++ user.id.text.bytes ++ [0x22]) ++
        lit "," ++ ([0x22] ++ lit "username" ++ [0x22] ++ lit ":" ++
        ([0x22] ++ user.username ++ [0x22]))) ++ lit "\x7d" := by
    rw [record, Bytes.beforeNul_of_nulFree h.accepted.username_nulFree]
    simp [openId, openUsername, close, lit]
  rw [hrecord]
  exact htext

theorem length_record (h : user.Accepted) :
    (record user).length = 2 + user.id.text.bytes.length + 8 + user.username.length + 13 := by
  rw [record, Bytes.beforeNul_of_nulFree h.username_nulFree]
  simp only [List.length_append, show openId.length = 7 from rfl,
    show openUsername.length = 14 from rfl, show close.length = 2 from rfl]
  omega

/-- What `set_session` stores is the JSON object of the user exactly when the username
has no quotes and no backslashes. -/
theorem record_json_iff (h : user.Printable) (store : Store) (newId : Uuid) :
    (∃ text, (setSession store user newId).1 (key newId) = some text ∧
      (recordJson user).Text text) ↔
      (0x22 : UInt8) ∉ user.username ∧ (0x5C : UInt8) ∉ user.username := by
  rw [setSession_text]
  constructor
  · rintro ⟨text, heq, htext⟩
    obtain rfl := Option.some.inj heq
    exact (Json.plain_of_length htext (length_record h.accepted).le).2
  · rintro ⟨hquote, hbackslash⟩
    exact ⟨_, rfl, record_text h hquote hbackslash⟩

/-- A user with a plain name. -/
def samplePlain : User where
  id := .ofCString (.lit "4a2c1f52-9f7e-4d0b-8c3b-6f1f0a9d7e11")
  username := lit "alice"

/-- A user whose name adds a member to the record. -/
def sampleQuoted : User where
  id := .ofCString (.lit "4a2c1f52-9f7e-4d0b-8c3b-6f1f0a9d7e11")
  username := lit "a\",\"role\":\"b"

theorem samplePlain_printable : samplePlain.Printable where
  accepted := ⟨by decide, by decide, by decide, by decide⟩
  id := ⟨by decide, by decide⟩
  username := by decide

theorem sampleQuoted_printable : sampleQuoted.Printable where
  accepted := ⟨by decide, by decide, by decide, by decide⟩
  id := ⟨by decide, by decide⟩
  username := by decide

/-- The record of `alice` is her object. -/
theorem record_json_sample :
    ∃ text, (setSession (fun _ => none) samplePlain samplePlain.id).1 (key samplePlain.id) =
      some text ∧ (recordJson samplePlain).Text text :=
  (record_json_iff samplePlain_printable (fun _ => none) samplePlain.id).mpr
    ⟨by decide, by decide⟩

/-- A username with quotes is accepted, and what is stored is not its user's object. -/
theorem record_json_fails :
    sampleQuoted.Printable ∧
      ¬ ∃ text, (setSession (fun _ => none) sampleQuoted sampleQuoted.id).1
          (key sampleQuoted.id) = some text ∧ (recordJson sampleQuoted).Text text := by
  refine ⟨sampleQuoted_printable, ?_⟩
  rintro ⟨text, heq, htext⟩
  rw [setSession_text] at heq
  obtain rfl := Option.some.inj heq
  have hplain := Json.plain_of_length htext (length_record sampleQuoted_printable.accepted).le
  exact hplain.2.1 (by decide)

end SessionValkey

end RePlace
