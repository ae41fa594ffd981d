import RePlace.Repo.Valkey

/-!
# The session store with its clock

`SET` gives a text its time: it expires that many seconds later, and until then `GET` finds
it and `DEL` counts it. The store without a clock is what is seen of it at one moment
(`view`).
-/

namespace RePlace

open Bytes (lit)

/-- What the store holds: texts with the seconds in which they expire. -/
abbrev TimedStore := Bytes → Option (Bytes × ℕ)

namespace TimedStore

/-- `SET` with `EX`. -/
def set (store : TimedStore) (now : ℕ) (key value : Bytes) (expiry : ℕ) : TimedStore × Reply :=
  (Function.update store key (some (value, now + expiry)), .status (lit "OK"))

/-- `GET`. -/
def get (store : TimedStore) (now : ℕ) (key : Bytes) : Reply :=
  match store key with
  | none => .nil
  | some (value, deadline) => if now < deadline then .string value else .nil

/-- `DEL`. -/
def del (store : TimedStore) (now : ℕ) (key : Bytes) : TimedStore × Reply :=
  (Function.update store key none, .integer (match store key with
    | none => 0
    | some (_, deadline) => if now < deadline then 1 else 0))

/-- A key is dropped before its time. -/
def evict (store : TimedStore) (key : Bytes) : TimedStore := Function.update store key none

/-- What is seen of the store in a second. -/
def view (store : TimedStore) (now : ℕ) : Store := fun key =>
  match store key with
  | none => none
  | some (value, deadline) => if now < deadline then some value else none

theorem get_eq (store : TimedStore) (now : ℕ) (key : Bytes) :
    store.get now key = (store.view now).get key := by
  unfold get Store.get view
  cases store key with
  | none => rfl
  | some entry =>
      dsimp only
      split <;> rfl

theorem del_reply (store : TimedStore) (now : ℕ) (key : Bytes) :
    (store.del now key).2 = ((store.view now).del key).2 := by
  unfold del Store.del view
  cases store key with
  | none => rfl
  | some entry =>
      dsimp only
      split <;> rfl

theorem view_update_some (store : TimedStore) (key value : Bytes) (deadline t : ℕ) :
    view (Function.update store key (some (value, deadline))) t =
      Function.update (store.view t) key (if t < deadline then some value else none) := by
  funext key'
  by_cases hkey : key' = key
  · subst hkey
    simp only [view, Function.update_self]
  · simp only [view, Function.update_of_ne hkey]

theorem view_update_none (store : TimedStore) (key : Bytes) (t : ℕ) :
    view (Function.update store key none) t = Function.update (store.view t) key none := by
  funext key'
  by_cases hkey : key' = key
  · subst hkey
    simp only [view, Function.update_self]
  · simp only [view, Function.update_of_ne hkey]

/-- What is seen of the store later is what has been seen before. -/
theorem view_of_ne_none {store : TimedStore} {now t : ℕ} {key : Bytes} (hle : now ≤ t)
    (h : store.view t key ≠ none) : store.view now key = store.view t key := by
  unfold view at h ⊢
  cases hentry : store key with
  | none => rfl
  | some entry =>
      rw [hentry] at h
      dsimp only at h ⊢
      have hlt : t < entry.2 := by
        by_contra hover
        exact h (if_neg hover)
      rw [if_pos hlt, if_pos (hle.trans_lt hlt)]

/-- What has expired does not come back. -/
theorem view_eq_none_of_le {store : TimedStore} {now t : ℕ} {key : Bytes} (hle : now ≤ t)
    (h : store.view now key = none) : store.view t key = none := by
  by_contra hne
  exact hne ((view_of_ne_none hle hne).symm.trans h)

end TimedStore

namespace SessionValkey

/-- The seconds that a session lasts. -/
def expiry : ℕ := 3600

/-- `SessionValkey::set_session_impl` with the generated session id. -/
def setSessionAt (now : ℕ) (store : TimedStore) (user : User) (newId : Uuid) :
    TimedStore × Except ErrorCode Uuid :=
  let (store, reply) := store.set now (key newId) (Bytes.beforeNul (record user)) expiry
  match ValkeyClient.setString (some reply) with
  | .error code => (store, .error code)
  | .ok () => (store, .ok newId)

/-- `SessionValkey::get_user_impl`. -/
def getUserAt (now : ℕ) (store : TimedStore) (s : Uuid) : Option (Except ErrorCode User) :=
  match ValkeyClient.getString (some (store.get now (key s))) with
  | .error code => some (.error code)
  | .ok json => decode json

/-- `SessionValkey::remove_session_impl`. -/
def removeSessionAt (now : ℕ) (store : TimedStore) (s : Uuid) :
    TimedStore × Except ErrorCode Unit :=
  let (store, reply) := store.del now (key s)
  (store, ValkeyClient.remove (some reply))

theorem setSessionAt_eq (now : ℕ) (store : TimedStore) (user : User) (newId : Uuid) :
    setSessionAt now store user newId =
      (Function.update store (key newId) (some (record user, now + expiry)), .ok newId) := by
  rw [setSessionAt, Bytes.beforeNul_of_nulFree (record_nulFree user)]
  rfl

theorem getUserAt_eq (now : ℕ) (store : TimedStore) (s : Uuid) :
    getUserAt now store s = getUser (store.view now) s := by
  rw [getUserAt, TimedStore.get_eq]
  rfl

theorem removeSessionAt_eq (now : ℕ) (store : TimedStore) (s : Uuid) :
    removeSessionAt now store s =
      (Function.update store (key s) none, (removeSession (store.view now) s).2) :=
  Prod.ext rfl (congrArg (fun reply => ValkeyClient.remove (some reply))
    (TimedStore.del_reply store now (key s)))

end SessionValkey

end RePlace
