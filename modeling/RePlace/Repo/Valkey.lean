import RePlace.Entity.User

/-!
# The session store

`ValkeyClient` reads the replies of the store, `SessionValkey` keeps one record
for every session under a key made of its id. A record is text, and `get_user`
finds its fields by their offsets. The store is a map from keys to texts; its
commands are atomic, and the connection to it does not fail.
-/

namespace RePlace

open Bytes (lit beforeNul)

/-! ## Replies -/

/-- A reply of the store. -/
inductive Reply
  | status (text : Bytes)
  | error (text : Bytes)
  | string (text : Bytes)
  | integer (value : ℤ)
  | nil
deriving DecidableEq

/-- The field `integer` of a reply. -/
def Reply.toInteger : Reply → ℤ
  | integer value => value
  | _ => 0

namespace ValkeyClient

/-- `ValkeyClient::set_string` on the reply to its command. -/
def setString : Option Reply → Except ErrorCode Unit
  | none => .error .valkeyCommandError
  | some _ => .ok ()

/-- `ValkeyClient::get_string` on the reply to its command. -/
def getString : Option Reply → Except ErrorCode Bytes
  | none => .error .valkeyCommandError
  | some (.string text) => .ok (beforeNul text)
  | some _ => .error .valkeyTypeError

/-- `ValkeyClient::remove` on the reply to its command. -/
def remove : Option Reply → Except ErrorCode Unit
  | none => .error .valkeyCommandError
  | some reply => if reply.toInteger = 1 then .ok () else .error .valkeyNoneDeletedError

end ValkeyClient

/-! ## The store -/

/-- What the store holds. -/
abbrev Store := Bytes → Option Bytes

namespace Store

/-- `SET`. -/
def set (store : Store) (key value : Bytes) : Store × Reply :=
  (Function.update store key (some value), .status (lit "OK"))

/-- `GET`. -/
def get (store : Store) (key : Bytes) : Reply :=
  match store key with
  | none => .nil
  | some value => .string value

/-- `DEL`. -/
def del (store : Store) (key : Bytes) : Store × Reply :=
  (Function.update store key none, .integer (if (store key).isSome then 1 else 0))

/-- A key expires. -/
def expire (store : Store) (key : Bytes) : Store := Function.update store key none

end Store

/-! ## Sessions -/

namespace SessionValkey

/-- `PREFIX` and the session id. -/
def key (s : Uuid) : Bytes := lit "rp-ses:" ++ s.text.bytes

/-- What stands before the id of a record. -/
def openId : Bytes := lit "\x7b\"id\":\""

/-- What stands between the id and the username of a record. -/
def openUsername : Bytes := lit "\",\"username\":\""

/-- What stands behind the username of a record. -/
def close : Bytes := lit "\"\x7d"

/-- The record of a user. -/
def record (user : User) : Bytes :=
  openId ++ user.id.text.bytes ++ openUsername ++ beforeNul user.username ++ close

/-- `SessionValkey::set_session_impl` with the generated session id. -/
def setSession (store : Store) (user : User) (newId : Uuid) : Store × Except ErrorCode Uuid :=
  let (store, reply) := store.set (key newId) (beforeNul (record user))
  match ValkeyClient.setString (some reply) with
  | .error code => (store, .error code)
  | .ok () => (store, .ok newId)

/-- The user of a record; `none` is an access outside the record. -/
def decode (json : Bytes) : Option (Except ErrorCode User) :=
  let offset := openId.length + openUsername.length + Uuid.size
  if json.length < 2 ∨ json.length < offset then none
  else
    let json := json.set (json.length - 2) 0
    match ({} : User).setUsername (some (.ofBytes (json.drop offset))) with
    | (_, .error code) => some (.error code)
    | (user, .ok ()) => some (.ok (user.setId (.ofBytes (json.drop openId.length))))

/-- `SessionValkey::get_user_impl`. -/
def getUser (store : Store) (s : Uuid) : Option (Except ErrorCode User) :=
  match ValkeyClient.getString (some (store.get (key s))) with
  | .error code => some (.error code)
  | .ok json => decode json

/-- `SessionValkey::remove_session_impl`. -/
def removeSession (store : Store) (s : Uuid) : Store × Except ErrorCode Unit :=
  let (store, reply) := store.del (key s)
  (store, ValkeyClient.remove (some reply))

/-! ### Keys and records -/

theorem key_injective : Function.Injective key := by
  intro s t h
  exact Uuid.ext (CString.ext (List.append_cancel_left h))

theorem nulFree_append {x y : Bytes} (hx : (0 : UInt8) ∉ x) (hy : (0 : UInt8) ∉ y) :
    (0 : UInt8) ∉ x ++ y := by
  simp [hx, hy]

theorem record_nulFree (user : User) : (0 : UInt8) ∉ record user := by
  unfold record
  refine nulFree_append (nulFree_append (nulFree_append (nulFree_append (by decide)
    user.id.text.nulFree) (by decide)) (Bytes.beforeNul_nulFree _)) (by decide)

/-- The closing quote is overwritten. -/
theorem set_close (x : Bytes) :
    (x ++ close).set ((x ++ close).length - 2) 0 = x ++ [0, 0x7D] := by
  have hpos : (x ++ close).length - 2 = x.length := by
    rw [List.length_append, show close.length = 2 from rfl, Nat.add_sub_cancel]
  rw [hpos, List.set_append_right _ _ le_rfl, Nat.sub_self]
  rfl

/-- Decoding the record of a user with a full id and an accepted username gives
them back. -/
theorem decode_record {user : User} (hid : user.id.Full) {name : CString}
    (hname : user.username = name.bytes) (hne : name.bytes ≠ []) (hlen : name.bytes.length ≤ 60) :
    decode (record user) = some (.ok { id := user.id, username := name.bytes }) := by
  have hfull : user.id.text.bytes.length = Uuid.size := hid
  have hrecord : record user =
      openId ++ user.id.text.bytes ++ openUsername ++ name.bytes ++ close := by
    rw [record, hname, Bytes.beforeNul_of_nulFree name.nulFree]
  have hroom : ¬ ((record user).length < 2 ∨
      (record user).length < openId.length + openUsername.length + Uuid.size) := by
    rw [hrecord]
    simp only [List.length_append, hfull, show close.length = 2 from rfl]
    omega
  have hdropName : (openId ++ user.id.text.bytes ++ openUsername ++ name.bytes ++ [0, 0x7D]).drop
      (openId.length + openUsername.length + Uuid.size) = name.bytes ++ [0, 0x7D] := by
    have hoffset : openId.length + openUsername.length + Uuid.size =
        (openId ++ user.id.text.bytes ++ openUsername).length := by
      simp only [List.length_append, hfull]
      omega
    rw [hoffset, List.append_assoc _ name.bytes, List.drop_left]
  have hdropId : (openId ++ user.id.text.bytes ++ openUsername ++ name.bytes ++ [0, 0x7D]).drop
      openId.length = user.id.text.bytes ++ (openUsername ++ name.bytes ++ [0, 0x7D]) := by
    simp only [List.append_assoc, List.drop_left]
  rw [hrecord] at hroom ⊢
  simp only [decode, hroom, if_false, set_close, hdropName, hdropId,
    CString.ofBytes_append_zero, User.setUsername_of_le _ hne hlen, User.setId,
    hid.ofCString_append]

/-- Records tell users apart. -/
theorem record_inj {user user' : User} (hid : user.id.Full) (hid' : user'.id.Full)
    {name name' : CString} (hname : user.username = name.bytes)
    (hname' : user'.username = name'.bytes) (h : record user = record user') :
    user.id = user'.id ∧ name = name' := by
  simp only [record, List.append_assoc, hname, hname',
    Bytes.beforeNul_of_nulFree name.nulFree, Bytes.beforeNul_of_nulFree name'.nulFree] at h
  have hrest := List.append_cancel_left h
  have hlen : user.id.text.bytes.length = user'.id.text.bytes.length := by rw [hid, hid']
  obtain ⟨hids, hrest⟩ := List.append_inj hrest hlen
  have hnames := List.append_cancel_right (List.append_cancel_left hrest)
  exact ⟨Uuid.ext (CString.ext hids), CString.ext hnames⟩

/-! ### What the operations do -/

theorem setSession_eq (store : Store) (user : User) (newId : Uuid) :
    setSession store user newId =
      (Function.update store (key newId) (some (record user)), .ok newId) := by
  rw [setSession, Bytes.beforeNul_of_nulFree (record_nulFree user)]
  rfl

theorem removeSession_ok_iff (store : Store) (s : Uuid) :
    (removeSession store s).2 = .ok () ↔ ∃ json, store (key s) = some json := by
  cases hs : store (key s) with
  | none => simp [removeSession, Store.del, ValkeyClient.remove, Reply.toInteger, hs]
  | some json => simp [removeSession, Store.del, ValkeyClient.remove, Reply.toInteger, hs]

/-- The result for a session depends on the text under its key alone. -/
theorem getUser_congr {store store' : Store} {s : Uuid} (h : store (key s) = store' (key s)) :
    getUser store s = getUser store' s := by
  simp only [getUser, Store.get, h]

theorem getUser_of_none {store : Store} {s : Uuid} (h : store (key s) = none) :
    getUser store s = some (.error .valkeyTypeError) := by
  simp [getUser, Store.get, h, ValkeyClient.getString]

theorem getUser_of_record {store : Store} {s : Uuid} {user : User}
    (h : store (key s) = some (record user)) : getUser store s = decode (record user) := by
  simp [getUser, Store.get, h, ValkeyClient.getString,
    Bytes.beforeNul_of_nulFree (record_nulFree user)]

end SessionValkey

end RePlace
