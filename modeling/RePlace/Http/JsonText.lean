import RePlace.Data.JsonString
import RePlace.Http.Request

/-!
# JSON texts

Which texts stand for which document. A text is white space around a value; the
items of an array and the members of an object are values with white space around
them, separated by commas.
-/

namespace RePlace.Http

open Bytes (lit)
open JsonString (Literal utf8)

/-! ## Numbers and white space -/

/-- Digits, at least one. -/
def IsDigits (s : Bytes) : Prop := s ≠ [] ∧ ∀ b ∈ s, 0x30 ≤ b ∧ b ≤ 0x39

/-- The fraction of a number. -/
def IsFraction (s : Bytes) : Prop := s = [] ∨ ∃ digits, IsDigits digits ∧ s = [0x2E] ++ digits

/-- The exponent of a number. -/
def IsExponent (s : Bytes) : Prop :=
  s = [] ∨ ∃ mark sign digits, mark ∈ [lit "e", lit "E"] ∧ sign ∈ [[], lit "+", lit "-"] ∧
    IsDigits digits ∧ s = mark ++ sign ++ digits

/-- A number: an integer part without a leading zero, a fraction and an exponent. -/
def IsNumber (s : Bytes) : Prop :=
  ∃ sign int fraction exponent, sign ∈ [[], lit "-"] ∧ IsDigits int ∧
    (int.head? = some 0x30 → int = [0x30]) ∧ IsFraction fraction ∧ IsExponent exponent ∧
    s = sign ++ int ++ fraction ++ exponent

/-- White space between the parts of a text. -/
def IsSpace (s : Bytes) : Prop := ∀ b ∈ s, b ∈ [0x20, 0x09, 0x0A, 0x0D]

theorem IsDigits.nulFree {s : Bytes} (h : IsDigits s) : (0 : UInt8) ∉ s :=
  fun hmem => absurd (h.2 0 hmem).1 (by decide)

theorem IsNumber.nulFree {s : Bytes} (h : IsNumber s) : (0 : UInt8) ∉ s := by
  obtain ⟨sign, int, fraction, exponent, hsign, hint, -, hfraction, hexponent, rfl⟩ := h
  have hsign' : (0 : UInt8) ∉ sign := by
    simp only [List.mem_cons, List.not_mem_nil, or_false] at hsign
    rcases hsign with rfl | rfl <;> decide
  have hfraction' : (0 : UInt8) ∉ fraction := by
    rcases hfraction with rfl | ⟨digits, hdigits, rfl⟩
    · simp
    · simp [hdigits.nulFree]
  have hexponent' : (0 : UInt8) ∉ exponent := by
    rcases hexponent with rfl | ⟨mark, sign', digits, hmark, hsign', hdigits, rfl⟩
    · simp
    · simp only [List.mem_cons, List.not_mem_nil, or_false] at hmark hsign'
      have hmark0 : (0 : UInt8) ∉ mark := by rcases hmark with rfl | rfl <;> decide
      have hsign0 : (0 : UInt8) ∉ sign' := by rcases hsign' with rfl | rfl | rfl <;> decide
      simp [hmark0, hsign0, hdigits.nulFree]
  simp [hsign', hint.nulFree, hfraction', hexponent']

theorem IsSpace.nulFree {s : Bytes} (h : IsSpace s) : (0 : UInt8) ∉ s :=
  fun hmem => absurd (h 0 hmem) (by decide)

/-! ## Values -/

/-- The parts of a text that nest. -/
inductive JsonPart
  | value (doc : Json)
  | items (docs : List Json)
  | members (ms : List (Bytes × Json))

/-- What is written for a part. -/
inductive JsonPart.Text : JsonPart → Bytes → Prop
  | null : Text (.value .null) (lit "null")
  | true : Text (.value (.bool Bool.true)) (lit "true")
  | false : Text (.value (.bool Bool.false)) (lit "false")
  | number {s : Bytes} (h : IsNumber s) : Text (.value (.number s)) s
  | string {text : List Char} {s : Bytes} (h : Literal text s) :
      Text (.value (.string (utf8 text))) s
  | array {docs : List Json} {s : Bytes} (h : Text (.items docs) s) :
      Text (.value (.array docs)) (lit "[" ++ s ++ lit "]")
  | object {ms : List (Bytes × Json)} {s : Bytes} (h : Text (.members ms) s) :
      Text (.value (.object ms)) (lit "\x7b" ++ s ++ lit "\x7d")
  | noItems {w : Bytes} (hw : IsSpace w) : Text (.items []) w
  | item {doc : Json} {w s w' : Bytes} (hw : IsSpace w) (h : Text (.value doc) s)
      (hw' : IsSpace w') : Text (.items [doc]) (w ++ s ++ w')
  | moreItems {doc : Json} {docs : List Json} {s s' : Bytes} (hne : docs ≠ [])
      (h : Text (.items [doc]) s) (h' : Text (.items docs) s') :
      Text (.items (doc :: docs)) (s ++ lit "," ++ s')
  | noMembers {w : Bytes} (hw : IsSpace w) : Text (.members []) w
  | member {name : List Char} {doc : Json} {w s w' v : Bytes} (hw : IsSpace w)
      (hname : Literal name s) (hw' : IsSpace w') (h : Text (.items [doc]) v) :
      Text (.members [(utf8 name, doc)]) (w ++ s ++ w' ++ lit ":" ++ v)
  | moreMembers {m : Bytes × Json} {ms : List (Bytes × Json)} {s s' : Bytes} (hne : ms ≠ [])
      (h : Text (.members [m]) s) (h' : Text (.members ms) s') :
      Text (.members (m :: ms)) (s ++ lit "," ++ s')

/-- A text that stands for a document. -/
def Json.Text (doc : Json) (s : Bytes) : Prop := JsonPart.Text (.items [doc]) s

/-- No text holds a NUL. -/
theorem JsonPart.Text.nulFree {part : JsonPart} {s : Bytes} (h : part.Text s) :
    (0 : UInt8) ∉ s := by
  induction h with
  | null => decide
  | true => decide
  | false => decide
  | number h => exact h.nulFree
  | string h => exact h.nulFree
  | array _ ih => simpa [lit] using ih
  | object _ ih => simpa [lit] using ih
  | noItems hw => exact hw.nulFree
  | item hw _ hw' ih => simp [hw.nulFree, hw'.nulFree, ih]
  | moreItems _ _ _ ih ih' => simp [lit, ih, ih']
  | noMembers hw => exact hw.nulFree
  | member hw hname hw' _ ih => simp [lit, hw.nulFree, hw'.nulFree, hname.nulFree, ih]
  | moreMembers _ _ _ ih ih' => simp [lit, ih, ih']

theorem Json.Text.nulFree {doc : Json} {s : Bytes} (h : doc.Text s) : (0 : UInt8) ∉ s :=
  JsonPart.Text.nulFree h

theorem JsonPart.Text.ne_nil {doc : Json} {s : Bytes} (h : JsonPart.Text (.value doc) s) :
    s ≠ [] := by
  cases h with
  | null => decide
  | true => decide
  | false => decide
  | number h =>
      obtain ⟨sign, int, fraction, exponent, -, hint, -, -, -, rfl⟩ := h
      simp [hint.1]
  | string h =>
      obtain ⟨raw, -, rfl⟩ := h
      simp
  | array _ => simp [lit]
  | object _ => simp [lit]

theorem Json.Text.ne_nil {doc : Json} {s : Bytes} (h : doc.Text s) : s ≠ [] := by
  cases h with
  | item _ h _ => simp [h.ne_nil]
  | moreItems hne _ _ => exact absurd rfl hne

/-! ## Objects with two strings -/

/-- The text of an object with two strings, without white space. -/
theorem Json.text_pair {n₁ v₁ n₂ v₂ : List Char} {s₁ t₁ s₂ t₂ : Bytes} (hn₁ : Literal n₁ s₁)
    (hv₁ : Literal v₁ t₁) (hn₂ : Literal n₂ s₂) (hv₂ : Literal v₂ t₂) :
    (Json.object [(utf8 n₁, .string (utf8 v₁)), (utf8 n₂, .string (utf8 v₂))]).Text
      (lit "\x7b" ++ (s₁ ++ lit ":" ++ t₁ ++ lit "," ++ (s₂ ++ lit ":" ++ t₂)) ++ lit "\x7d") := by
  have hnone : IsSpace [] := by simp [IsSpace]
  have hstring : ∀ {v : List Char} {t : Bytes}, Literal v t →
      JsonPart.Text (.items [.string (utf8 v)]) t := fun hv => by
    simpa using JsonPart.Text.item hnone (.string hv) hnone
  have hmember : ∀ {n v : List Char} {s t : Bytes}, Literal n s → Literal v t →
      JsonPart.Text (.members [(utf8 n, .string (utf8 v))]) (s ++ lit ":" ++ t) := fun hn hv => by
    simpa using JsonPart.Text.member hnone hn hnone (hstring hv)
  have hobject := JsonPart.Text.object
    (.moreMembers (by simp) (hmember hn₁ hv₁) (hmember hn₂ hv₂))
  simpa [Json.Text] using JsonPart.Text.item hnone hobject hnone

theorem JsonPart.Text.string_inv {u s : Bytes} (h : JsonPart.Text (.value (.string u)) s) :
    ∃ text, utf8 text = u ∧ Literal text s := by
  generalize hp : JsonPart.value (.string u) = part at h
  cases h <;> cases hp
  exact ⟨_, rfl, ‹_›⟩

theorem JsonPart.Text.item_inv {doc : Json} {s : Bytes} (h : JsonPart.Text (.items [doc]) s) :
    ∃ w t w', s = w ++ t ++ w' ∧ JsonPart.Text (.value doc) t := by
  cases h with
  | item _ h _ => exact ⟨_, _, _, rfl, h⟩
  | moreItems hne _ _ => exact absurd rfl hne

/-- A member with a string takes five bytes more than its texts, or its string has
escapes or there is white space. -/
theorem JsonPart.Text.member_length {k u s : Bytes}
    (h : JsonPart.Text (.members [(k, .string u)]) s) :
    k.length + u.length + 5 ≤ s.length ∧
      (s.length ≤ k.length + u.length + 5 → (0x22 : UInt8) ∉ u ∧ (0x5C : UInt8) ∉ u) := by
  cases h with
  | moreMembers hne _ _ => exact absurd rfl hne
  | member hw hname hw' h =>
      obtain ⟨v, t, v', rfl, hvalue⟩ := h.item_inv
      obtain ⟨text, rfl, hliteral⟩ := hvalue.string_inv
      have hcolon : (lit ":").length = 1 := rfl
      simp only [List.length_append, hcolon]
      rcases hname.plain_or_longer with ⟨hlen, -⟩ | hlen <;>
        rcases hliteral.plain_or_longer with ⟨hlen', hquote, hbackslash⟩ | hlen'
      · exact ⟨by omega, fun _ => ⟨hquote, hbackslash⟩⟩
      · exact ⟨by omega, fun hle => by omega⟩
      · exact ⟨by omega, fun _ => ⟨hquote, hbackslash⟩⟩
      · exact ⟨by omega, fun hle => by omega⟩

/-- The shortest text of an object with two strings has no escapes. -/
theorem Json.plain_of_length {k₁ u₁ k₂ u₂ s : Bytes}
    (h : (Json.object [(k₁, .string u₁), (k₂, .string u₂)]).Text s)
    (hlen : s.length ≤ k₁.length + u₁.length + k₂.length + u₂.length + 13) :
    ((0x22 : UInt8) ∉ u₁ ∧ (0x5C : UInt8) ∉ u₁) ∧ (0x22 : UInt8) ∉ u₂ ∧ (0x5C : UInt8) ∉ u₂ := by
  obtain ⟨w, t, w', rfl, hvalue⟩ := JsonPart.Text.item_inv h
  cases hvalue with
  | object hmembers =>
  cases hmembers with
  | moreMembers _ hfirst hsecond =>
      obtain ⟨hle₁, hplain₁⟩ := hfirst.member_length
      obtain ⟨hle₂, hplain₂⟩ := hsecond.member_length
      have hopen : (lit "\x7b").length = 1 := rfl
      have hclose : (lit "\x7d").length = 1 := rfl
      have hcomma : (lit ",").length = 1 := rfl
      simp only [List.length_append, hopen, hclose, hcomma] at hlen
      exact ⟨hplain₁ (by omega), hplain₂ (by omega)⟩

end RePlace.Http
