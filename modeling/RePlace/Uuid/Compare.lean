import RePlace.Uuid

/-!
# Comparing uuids

The ten comparison operators of `uuid`. Those for a C string first look at the
character with the index 36, which belongs to the string only when that is long
enough; those for a `string` look at its size, one for equality and one for being
less. What this comes to is decided by whether the text of the uuid starts the other.
-/

namespace RePlace

/-- What a `const c8*` points to: a text, its terminator, and the bytes that can be
read behind it. -/
structure Pointer where
  text : CString
  behind : Bytes

/-- `str[i]`; nothing when it lies behind all that can be read. -/
def Pointer.get (p : Pointer) (i : ℕ) : Option UInt8 := (p.text.bytes ++ 0 :: p.behind)[i]?

namespace Uuid

open CString (strncmp ofBytes)

/-- `operator==(const uuid&)`. -/
def eq (u rhs : Uuid) : Bool := strncmp u.text rhs.text size = 0

/-- `operator==(const c8*)`. -/
def eqPointer (u : Uuid) (str : Pointer) : Option Bool :=
  (str.get size).map fun c => c ≠ 0 ∧ strncmp u.text str.text size = 0

/-- `operator==(const string&)`. -/
def eqString (u : Uuid) (str : Bytes) : Bool :=
  str.length = size ∧ strncmp u.text (ofBytes str) size = 0

/-- `operator!=(const uuid&)`. -/
def ne (u rhs : Uuid) : Bool := strncmp u.text rhs.text size ≠ 0

/-- `operator!=(const c8*)`. -/
def nePointer (u : Uuid) (str : Pointer) : Option Bool :=
  (str.get size).map fun c => c = 0 ∨ strncmp u.text str.text size ≠ 0

/-- `operator!=(const string&)`. -/
def neString (u : Uuid) (str : Bytes) : Bool :=
  str.length < size ∨ strncmp u.text (ofBytes str) size ≠ 0

/-- `operator==(const c8*, const uuid&)`. -/
def pointerEq (lhs : Pointer) (rhs : Uuid) : Option Bool :=
  (lhs.get size).map fun c => c ≠ 0 ∧ strncmp lhs.text rhs.text size = 0

/-- `operator==(const string&, const uuid&)`. -/
def stringEq (lhs : Bytes) (rhs : Uuid) : Bool :=
  lhs.length = size ∧ strncmp (ofBytes lhs) rhs.text size = 0

/-- `operator!=(const c8*, const uuid&)`. -/
def pointerNe (lhs : Pointer) (rhs : Uuid) : Option Bool :=
  (lhs.get size).map fun c => c = 0 ∨ strncmp lhs.text rhs.text size ≠ 0

/-- `operator!=(const string&, const uuid&)`. -/
def stringNe (lhs : Bytes) (rhs : Uuid) : Bool :=
  lhs.length < size ∨ strncmp (ofBytes lhs) rhs.text size ≠ 0

/-- All overloads compare a uuid with a text, whatever it is given as, by the equality
of the texts. -/
structure ComparesTexts (u : Uuid) (t : Pointer) : Prop where
  uuid : ∀ v : Uuid, v.Full → v.text = t.text →
    u.eq v = decide (u.text = t.text) ∧ v.eq u = decide (u.text = t.text) ∧
      u.ne v = !u.eq v ∧ v.ne u = !v.eq u
  pointer : u.eqPointer t = some (decide (u.text = t.text)) ∧
    pointerEq t u = some (decide (u.text = t.text))
  pointer_ne : u.nePointer t = (u.eqPointer t).map not ∧
    pointerNe t u = (pointerEq t u).map not
  string : u.eqString t.text.bytes = decide (u.text = t.text) ∧
    stringEq t.text.bytes u = decide (u.text = t.text)
  string_ne : u.neString t.text.bytes = !u.eqString t.text.bytes ∧
    stringNe t.text.bytes u = !stringEq t.text.bytes u

/-! ## Bounded comparison with a full text -/

theorem Full.strncmp_iff {u : Uuid} (hu : u.Full) (t : CString) :
    strncmp u.text t size = 0 ↔ u.text.bytes <+: t.bytes := by
  have hlen : u.text.bytes.length = size := hu
  rw [CString.strncmp_eq_zero_iff, CString.ext_iff, CString.bytes_take, CString.bytes_take,
    List.take_of_length_le hlen.le, List.prefix_iff_eq_take, hlen]

theorem Full.strncmp_iff' {u : Uuid} (hu : u.Full) (t : CString) :
    strncmp t u.text size = 0 ↔ u.text.bytes <+: t.bytes := by
  rw [← hu.strncmp_iff, CString.strncmp_eq_zero_iff, CString.strncmp_eq_zero_iff]
  exact eq_comm

/-- Uuids are compared by their texts, also when these are shorter. -/
theorem eq_iff (u v : Uuid) : u.eq v = true ↔ u.text = v.text := by
  have htake : ∀ w : Uuid, w.text.take size = w.text := fun w =>
    CString.ext (List.take_of_length_le w.length_le)
  rw [Uuid.eq, decide_eq_true_iff, CString.strncmp_eq_zero_iff, htake, htake]

/-- A text that a full uuid starts is its text, or longer. -/
theorem Full.text_eq_iff {u : Uuid} (hu : u.Full) (t : CString) :
    u.text = t ↔ t.bytes.length = size ∧ u.text.bytes <+: t.bytes := by
  constructor
  · rintro rfl
    exact ⟨hu, List.prefix_refl _⟩
  · rintro ⟨hlen, hpre⟩
    exact CString.ext (hpre.eq_of_length (hu.trans hlen.symm))

/-- The character with the index 36 of a text that a full uuid starts is the terminator
exactly when the text is that of the uuid. -/
theorem Full.get_size {u : Uuid} (hu : u.Full) {t : Pointer}
    (hpre : u.text.bytes <+: t.text.bytes) :
    ∃ c, t.get size = some c ∧ (c = 0 ↔ u.text = t.text) := by
  have hlen : u.text.bytes.length = size := hu
  rw [hu.text_eq_iff]
  rcases (hlen ▸ hpre.length_le : size ≤ t.text.bytes.length).eq_or_lt with heq | hlt
  · refine ⟨0, ?_, iff_of_true rfl ⟨heq.symm, hpre⟩⟩
    rw [Pointer.get, heq, List.getElem?_append_right le_rfl, Nat.sub_self]
    rfl
  · refine ⟨t.text.bytes[size], ?_, iff_of_false (fun h0 => ?_) (fun h => hlt.ne' h.1)⟩
    · rw [Pointer.get, List.getElem?_append_left hlt, List.getElem?_eq_getElem hlt]
    · exact t.text.nulFree (h0 ▸ List.getElem_mem hlt)

theorem Pointer.exists_get_iff (t : Pointer) (i : ℕ) :
    (∃ c, t.get i = some c) ↔ i ≤ t.text.bytes.length + t.behind.length := by
  rw [← Option.isSome_iff_exists, Pointer.get, isSome_getElem?]
  simp only [List.length_append, List.length_cons]
  omega

/-! ## The overloads -/

/-- For a C string that a full uuid starts, equality says the opposite. -/
theorem Full.eqPointer_of_start {u : Uuid} (hu : u.Full) {t : Pointer}
    (hpre : u.text.bytes <+: t.text.bytes) :
    u.eqPointer t = some (decide (u.text ≠ t.text)) := by
  obtain ⟨c, hc, hzero⟩ := hu.get_size hpre
  simp only [eqPointer, hc, Option.map_some, ne_eq, hzero, hu.strncmp_iff, hpre, and_true]

/-- A full uuid is not equal to its own text. -/
theorem Full.eqPointer_self {u : Uuid} (hu : u.Full) (behind : Bytes) :
    u.eqPointer ⟨u.text, behind⟩ = some false := by
  rw [hu.eqPointer_of_start (List.prefix_refl _)]
  simp

/-- With a text that it does not start, a full uuid compares unequal where there is a
character with the index 36. -/
theorem Full.comparesTexts_of_not_start {u : Uuid} (hu : u.Full) {t : Pointer}
    (hpre : ¬ u.text.bytes <+: t.text.bytes) {c : UInt8} (hc : t.get size = some c) :
    u.ComparesTexts t := by
  have hne : u.text ≠ t.text := fun h => hpre (h ▸ List.prefix_refl _)
  have hcmp : strncmp u.text t.text size ≠ 0 := fun h => hpre ((hu.strncmp_iff t.text).mp h)
  have hcmp' : strncmp t.text u.text size ≠ 0 := fun h => hpre ((hu.strncmp_iff' t.text).mp h)
  constructor
  · intro v _ hv
    simp [eq, ne, hv, hcmp, hcmp', hne]
  · simp [eqPointer, pointerEq, hc, hcmp, hcmp', hne]
  · simp [eqPointer, pointerEq, nePointer, pointerNe, hc, hcmp, hcmp']
  · simp [eqString, stringEq, hcmp, hcmp', hne]
  · simp [eqString, stringEq, neString, stringNe, hcmp, hcmp']

/-- The overloads agree exactly on the texts that the uuid does not start, when there is
something to be read at the index 36. -/
theorem compares_texts_iff {u : Uuid} (hu : u.Full) (t : Pointer) :
    u.ComparesTexts t ↔
      ¬ u.text.bytes <+: t.text.bytes ∧ size ≤ t.text.bytes.length + t.behind.length := by
  rw [← Pointer.exists_get_iff]
  constructor
  · refine fun h => ⟨fun hpre => ?_, ?_⟩
    · have heq := h.pointer.1
      rw [hu.eqPointer_of_start hpre, Option.some.injEq, decide_eq_decide] at heq
      exact not_iff_self heq
    · have heq := h.pointer.1
      rw [eqPointer, Option.map_eq_some_iff] at heq
      obtain ⟨c, hc, -⟩ := heq
      exact ⟨c, hc⟩
  · rintro ⟨hpre, c, hc⟩
    exact hu.comparesTexts_of_not_start hpre hc

/-- A uuid. -/
def sampleUuid : Uuid := .ofCString (.lit "4a2c1f52-9f7e-4d0b-8c3b-6f1f0a9d7e11")

/-- Another text of 36 characters, and a short one in a larger array. -/
theorem compares_texts_sample :
    sampleUuid.ComparesTexts ⟨.lit "0c9d4a6e-55b1-4f0e-9a57-2b1d7e8f3c20", []⟩ ∧
      sampleUuid.ComparesTexts ⟨.lit "4a2c1f52", List.replicate 40 0⟩ :=
  have hu : sampleUuid.Full := by decide
  ⟨(compares_texts_iff hu _).mpr (by decide), (compares_texts_iff hu _).mpr (by decide)⟩

/-- A uuid is not equal to its own text, and is equal to a longer one that it starts,
which is not different as a `string`. -/
theorem compares_texts_fails :
    sampleUuid.Full ∧ sampleUuid.eqPointer ⟨sampleUuid.text, []⟩ = some false ∧
      sampleUuid.eqPointer ⟨.lit "4a2c1f52-9f7e-4d0b-8c3b-6f1f0a9d7e11-x", []⟩ = some true ∧
      sampleUuid.neString (Bytes.lit "4a2c1f52-9f7e-4d0b-8c3b-6f1f0a9d7e11-x") = false ∧
      ¬ sampleUuid.ComparesTexts ⟨sampleUuid.text, []⟩ := by
  have heq : sampleUuid.eqPointer ⟨sampleUuid.text, []⟩ = some false := by decide
  refine ⟨by decide, heq, by decide, by decide, fun h => ?_⟩
  have htrue := h.pointer.1
  rw [heq] at htrue
  simp at htrue

end Uuid

end RePlace
