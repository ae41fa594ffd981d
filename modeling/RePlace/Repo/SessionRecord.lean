import RePlace.Repo.Valkey

/-!
# The record of a session

What is written for a user is read back as that user: the encoder of
`set_session` and the decoder of `get_user` agree on every accepted user, also
when the username looks like the text around it. Different users have different
records.
-/

namespace RePlace

open Bytes (lit)

/-- A user as the server builds it: a whole id, and a username that
`set_username` accepts. -/
structure User.Accepted (user : User) : Prop where
  id_full : user.id.Full
  username_nulFree : (0 : UInt8) ∉ user.username
  username_ne_nil : user.username ≠ []
  username_le : user.username.length ≤ User.usernameMax

/-- The username of an accepted user as a C string. -/
def User.Accepted.name {user : User} (h : user.Accepted) : CString :=
  ⟨user.username, h.username_nulFree⟩

theorem User.Accepted.username_eq {user : User} (h : user.Accepted) :
    user.username = h.name.bytes := rfl

namespace SessionValkey

/-- The text that stands under the key of a session after `set_session`. -/
theorem setSession_text (store : Store) (user : User) (newId : Uuid) :
    (setSession store user newId).1 (key newId) = some (record user) := by
  rw [setSession_eq]
  exact Function.update_self (key newId) (some (record user)) store

/-- Whatever store holds the record of an accepted user, the user is read from it. -/
theorem getUser_of_accepted {user : User} (h : user.Accepted) {store : Store} {s : Uuid}
    (hs : store (key s) = some (record user)) :
    getUser store s = some (.ok { id := user.id, username := user.username }) := by
  rw [getUser_of_record hs]
  exact decode_record h.id_full h.username_eq h.username_ne_nil h.username_le

/-- Records of accepted users determine their ids and usernames. -/
theorem record_inj_of_accepted {user user' : User} (h : user.Accepted) (h' : user'.Accepted)
    (heq : record user = record user') : user.id = user'.id ∧ user.username = user'.username := by
  obtain ⟨hid, hname⟩ :=
    record_inj h.id_full h'.id_full h.username_eq h'.username_eq heq
  exact ⟨hid, congrArg CString.bytes hname⟩

/-- `set_session` and `get_user` are a round trip on accepted users, and tell them
apart. -/
theorem session_record_roundTrip {user : User} (h : user.Accepted) (store : Store)
    (newId : Uuid) :
    (∀ store' s, store' (key s) = (setSession store user newId).1 (key newId) →
      getUser store' s = some (.ok { id := user.id, username := user.username })) ∧
    ∀ user' : User, user'.Accepted → user'.id ≠ user.id ∨ user'.username ≠ user.username →
      ∀ store' newId', (setSession store' user' newId').1 (key newId') ≠
        (setSession store user newId).1 (key newId) := by
  rw [setSession_text]
  refine ⟨fun store' s hs => getUser_of_accepted h hs, ?_⟩
  intro user' h' hne store' newId' heq
  rw [setSession_text] at heq
  obtain ⟨hid, hname⟩ := record_inj_of_accepted h' h (Option.some.inj heq)
  rcases hne with hne | hne
  · exact hne hid
  · exact hne hname

/-- A user whose name imitates the end of a record. -/
def sampleImitator : User where
  id := .ofCString (.lit "4a2c1f52-9f7e-4d0b-8c3b-6f1f0a9d7e11")
  username := lit "a\",\"username\":\"b\"\x7d"

theorem sampleImitator_accepted : sampleImitator.Accepted where
  id_full := by decide
  username_nulFree := by decide
  username_ne_nil := by decide
  username_le := by decide

/-- The imitator is read back, and its record is not that of `a` with the same id. -/
theorem session_record_sample :
    getUser (setSession (fun _ => none) sampleImitator sampleImitator.id).1 sampleImitator.id =
        some (.ok { id := sampleImitator.id, username := sampleImitator.username }) ∧
      (setSession (fun _ => none) { sampleImitator with username := lit "a" }
          sampleImitator.id).1 (key sampleImitator.id) ≠
        (setSession (fun _ => none) sampleImitator sampleImitator.id).1 (key sampleImitator.id) :=
  have h := session_record_roundTrip sampleImitator_accepted (fun _ => none) sampleImitator.id
  ⟨h.1 _ sampleImitator.id rfl,
    h.2 { sampleImitator with username := lit "a" }
      ⟨by decide, by decide, by decide, by decide⟩ (.inr (by decide)) _ _⟩

end SessionValkey

end RePlace
