import RePlace.Uuid.Compare

/-!
# The buffer of a uuid

The operations of `uuid` on its array of 40 characters. Some of them store the
terminator and some do not. A buffer represents a `Uuid` when its first 37 characters
are the text and then only NULs. A bounded copy makes such a buffer, with the
terminator stored behind it or over a buffer that has it already.
-/

namespace RePlace.Uuid

open CString (strncmp ofBytes)

/-- `uuid::CAPACITY`. -/
def capacity : ℕ := 37

/-- What `std::strncpy` leaves at `dst`: the first characters of the string at `src`,
NULs up to the count, and behind it what there was. -/
def strncpy (dst src : Bytes) (count : ℕ) : Bytes :=
  let text := (Bytes.beforeNul src).take count
  text ++ List.replicate (count - text.length) 0 ++ dst.drop count

theorem length_strncpy {dst : Bytes} (src : Bytes) {count : ℕ} (h : count ≤ dst.length) :
    (strncpy dst src count).length = dst.length := by
  simp only [strncpy, List.length_append, List.length_replicate, List.length_drop]
  have hle : ((Bytes.beforeNul src).take count).length ≤ count := List.length_take_le _ _
  omega

/-- 36 characters, as `uuid_unparse_lower` writes them. -/
structure Unparsed where
  text : CString
  full : text.bytes.length = size

/-- The uuid with these characters. -/
def Unparsed.uuid (u : Unparsed) : Uuid := ⟨u.text, u.full.le⟩

/-- The `c8 str[40]` of a uuid. -/
structure Buffer where
  str : Bytes
  length_str : str.length = 40

namespace Buffer

/-- `c8 str[40] = {}`. -/
def zeros : Buffer := ⟨List.replicate 40 0, rfl⟩

/-- `std::strncpy(this->str, src, SIZE)`. -/
def copyFrom (b : Buffer) (src : Bytes) : Buffer :=
  ⟨strncpy b.str src size, by
    rw [length_strncpy src (by rw [b.length_str, size]; decide), b.length_str]⟩

/-- `this->str[i] = '\0'`. -/
def store (b : Buffer) (i : ℕ) : Buffer :=
  ⟨b.str.set i 0, by rw [List.length_set, b.length_str]⟩

/-- `uuid()`. -/
def default : Buffer := zeros.store 0

/-- `uuid(const string&)`, which asserts the size. -/
def ofString (str : Bytes) : Option Buffer :=
  if str.length = size then some ((zeros.copyFrom str).store size) else none

/-- `uuid(const c8*)`. -/
def ofCString (str : CString) : Buffer := (zeros.copyFrom str.bytes).store size

/-- `uuid(const uuid&)`. -/
def copy (other : Buffer) : Buffer := zeros.copyFrom other.str

/-- `operator=(const uuid&)` from another object. -/
def assign (b rhs : Buffer) : Buffer := (b.copyFrom rhs.str).store size

/-- `uuid(uuid&&)`. -/
def move (other : Buffer) : Buffer := zeros.copyFrom other.str

/-- `operator=(uuid&&)` from another object. -/
def moveAssign (b other : Buffer) : Buffer := b.copyFrom other.str

/-- `operator=(const c8*)`. -/
def assignCString (b : Buffer) (str : CString) : Buffer := (b.copyFrom str.bytes).store size

/-- `operator=(const string&)`, which asserts the size. -/
def assignString (b : Buffer) (str : Bytes) : Option Buffer :=
  if str.length = size then some ((b.copyFrom str).store size) else none

/-- `generate_uuidv4`, when `uuid_unparse_lower` writes this text. -/
def generate (b : Buffer) (u : Unparsed) : Buffer :=
  ⟨u.text.bytes ++ 0 :: b.str.drop capacity, by
    rw [List.length_append, List.length_cons, List.length_drop, u.full, b.length_str, size,
      capacity]⟩

/-- `get_string`. -/
def getString (b : Buffer) : CString := ofBytes b.str

/-- `is_empty`. -/
def isEmpty (b : Buffer) : Bool := b.str[0]? = some 0

/-- `operator==(const uuid&)`. -/
def eq (b rhs : Buffer) : Bool := strncmp (ofBytes b.str) (ofBytes rhs.str) size = 0

/-- There is a NUL at the index 36, and behind the first NUL there are only NULs up to
it. -/
structure WellFormed (b : Buffer) : Prop where
  terminated : b.str[size]? = some 0
  zeros : ∀ i j, i ≤ j → j ≤ size → b.str[i]? = some 0 → b.str[j]? = some 0

end Buffer

/-! ## Buffers represent texts -/

namespace Buffer

/-- The buffer holds the text, and NULs behind it up to the index 36. -/
def Represents (b : Buffer) (u : Uuid) : Prop := b.str.take capacity = u.buffer ++ [0]

theorem length_buffer (u : Uuid) : u.buffer.length = size := by
  have hle : u.text.bytes.length ≤ size := u.length_le
  rw [Uuid.buffer, List.length_append, List.length_replicate]
  omega

theorem copyFrom_str (b : Buffer) (src : Bytes) :
    (b.copyFrom src).str = (Uuid.ofCString (.ofBytes src)).buffer ++ b.str.drop size := rfl

theorem store_str (b : Buffer) (i : ℕ) : (b.store i).str = b.str.set i 0 := rfl

/-- With the terminator stored behind it, a bounded copy represents what it has
copied. -/
theorem represents_store (b : Buffer) (src : Bytes) :
    ((b.copyFrom src).store size).Represents (.ofCString (.ofBytes src)) := by
  have hlen := length_buffer (.ofCString (.ofBytes src))
  have hrest : 0 < (b.str.drop size).length := by
    rw [List.length_drop, b.length_str, size]
    decide
  obtain ⟨c, rest, hdrop⟩ := List.exists_cons_of_length_pos hrest
  rw [Represents, store_str, copyFrom_str, hdrop, ← hlen, List.set_append_right _ _ le_rfl,
    Nat.sub_self, List.set_cons_zero, show capacity = size + 1 from rfl, ← hlen,
    List.take_length_add_append]
  rfl

/-- Over a buffer that has its terminator, so does a bounded copy without it. -/
theorem represents_copyFrom {b : Buffer} (hb : b.str[size]? = some 0) (src : Bytes) :
    (b.copyFrom src).Represents (.ofCString (.ofBytes src)) := by
  have hlen := length_buffer (.ofCString (.ofBytes src))
  have hdrop : (b.str.drop size).take 1 = [0] := by
    rw [List.take_one, List.head?_drop, hb]
    rfl
  rw [Represents, copyFrom_str, show capacity = size + 1 from rfl, ← hlen,
    List.take_length_add_append, hlen, hdrop]

variable {b c : Buffer} {u v : Uuid}

theorem buffer_concat (u : Uuid) : u.buffer ++ [0] =
    u.text.bytes ++ 0 :: List.replicate (size - u.text.bytes.length) 0 := by
  rw [Uuid.buffer, List.append_assoc, ← List.replicate_succ', List.replicate_succ]

theorem Represents.getString (h : b.Represents u) : b.getString = u.text := by
  rw [Buffer.getString, ← List.take_append_drop capacity b.str, h, buffer_concat,
    List.append_assoc, List.cons_append, CString.ofBytes_append_zero]

/-- Copied from, a buffer gives the uuid that it represents. -/
theorem Represents.ofCString (h : b.Represents u) : Uuid.ofCString (.ofBytes b.str) = u := by
  rw [show CString.ofBytes b.str = u.text from h.getString, ofCString_text]

theorem Represents.get (h : b.Represents u) {i : ℕ} (hi : i ≤ size) :
    b.str[i]? = (u.text.bytes ++ List.replicate (size - u.text.bytes.length + 1) 0)[i]? := by
  have hlt : i < capacity := Nat.lt_succ_of_le hi
  rw [List.replicate_succ, ← buffer_concat, ← h, List.getElem?_take_of_lt hlt]

theorem Represents.get_of_ge (h : b.Represents u) {i : ℕ} (hlen : u.text.bytes.length ≤ i)
    (hi : i ≤ size) : b.str[i]? = some 0 := by
  rw [h.get hi, List.getElem?_append_right hlen, List.getElem?_replicate_of_lt]
  omega

theorem Represents.terminated (h : b.Represents u) : b.str[size]? = some 0 :=
  h.get_of_ge u.length_le le_rfl

theorem Represents.wellFormed (h : b.Represents u) : b.WellFormed where
  terminated := h.terminated
  zeros i j hij hj hi := by
    refine h.get_of_ge (Nat.le_of_not_lt fun hlt => ?_) hj
    have hlen : u.text.bytes.length ≤ size := u.length_le
    rw [h.get (hij.trans hj), List.getElem?_append_left (by omega)] at hi
    exact u.text.nulFree (List.mem_of_getElem? hi)

theorem represents_default : Buffer.default.Represents .empty := rfl

theorem zeros_terminated : Buffer.zeros.str[size]? = some 0 := rfl

theorem generate_str (b : Buffer) (u : Unparsed) :
    (b.generate u).str = u.text.bytes ++ 0 :: b.str.drop capacity := rfl

theorem buffer_of_full {u : Uuid} (hu : u.Full) : u.buffer = u.text.bytes := by
  have hlen : u.text.bytes.length = size := hu
  rw [Uuid.buffer, hlen, Nat.sub_self, List.replicate_zero, List.append_nil]

theorem represents_generate (b : Buffer) (u : Unparsed) : (b.generate u).Represents u.uuid := by
  have hfull : u.uuid.Full := u.full
  rw [Represents, generate_str, buffer_of_full hfull]
  generalize b.str.drop capacity = rest
  rw [show capacity = size + 1 from rfl, ← u.full, List.take_length_add_append]
  rfl

theorem Represents.isEmpty (h : b.Represents u) : b.isEmpty = u.isEmpty := by
  rw [Buffer.isEmpty, Uuid.isEmpty, h.get (Nat.zero_le _)]
  cases htext : u.text.bytes with
  | nil => simp
  | cons a s =>
      have ha : a ≠ 0 := fun h0 => u.text.nulFree (by rw [htext, h0]; exact List.mem_cons_self)
      simpa using ha

/-- Buffers are compared as the uuids that they represent. -/
theorem Represents.eq (h : b.Represents u) (h' : c.Represents v) : b.eq c = u.eq v := by
  have hb : CString.ofBytes b.str = u.text := h.getString
  have hc : CString.ofBytes c.str = v.text := h'.getString
  rw [Buffer.eq, Uuid.eq, hb, hc]

end Buffer

end RePlace.Uuid
