import RePlace.Data.CString

/-!
# String literals of JSON

A literal spells a list of characters: each one as itself, with a short escape, with
its four hexadecimal digits, or as a pair of surrogates. A spelling is at least as
long as the character in UTF-8, and no longer only when it is the character itself;
so a text is its own spelling exactly when it needs no escapes.
-/

namespace RePlace.JsonString

/-- The value of a hexadecimal digit. -/
def hexDigit (b : UInt8) : Option ℕ :=
  if 0x30 ≤ b ∧ b ≤ 0x39 then some (b.toNat - 0x30)
  else if 0x61 ≤ b ∧ b ≤ 0x66 then some (b.toNat - 0x57)
  else if 0x41 ≤ b ∧ b ≤ 0x46 then some (b.toNat - 0x37)
  else none

/-- The value of four hexadecimal digits. -/
def hex4 : Bytes → Option ℕ
  | [a, b, c, d] => do
      let a ← hexDigit a
      let b ← hexDigit b
      let c ← hexDigit c
      let d ← hexDigit d
      return ((a * 16 + b) * 16 + c) * 16 + d
  | _ => none

/-- The letters that stand behind a backslash, with the characters they stand for. -/
def shortEscapes : List (UInt8 × ℕ) :=
  [(0x22, 0x22), (0x5C, 0x5C), (0x2F, 0x2F), (0x62, 0x08), (0x66, 0x0C), (0x6E, 0x0A),
    (0x72, 0x0D), (0x74, 0x09)]

/-- A character and how it can be written between quotes. -/
inductive Spelling : Char → Bytes → Prop
  | plain {c : Char} (hlow : 0x20 ≤ c.toNat) (hquote : c.toNat ≠ 0x22)
      (hbackslash : c.toNat ≠ 0x5C) : Spelling c (String.utf8EncodeChar c)
  | short {c : Char} {b : UInt8} (h : (b, c.toNat) ∈ shortEscapes) : Spelling c [0x5C, b]
  | unicode {c : Char} {hex : Bytes} (h : hex4 hex = some c.toNat) :
      Spelling c ([0x5C, 0x75] ++ hex)
  | surrogates {c : Char} {hi lo : Bytes} {n m : ℕ} (hhi : hex4 hi = some n)
      (hlo : hex4 lo = some m) (hn : 0xD800 ≤ n ∧ n < 0xDC00) (hm : 0xDC00 ≤ m ∧ m < 0xE000)
      (h : c.toNat = 0x10000 + (n - 0xD800) * 0x400 + (m - 0xDC00)) :
      Spelling c ([0x5C, 0x75] ++ hi ++ ([0x5C, 0x75] ++ lo))

/-- Characters, written one after the other. -/
inductive Spells : List Char → Bytes → Prop
  | nil : Spells [] []
  | cons {c : Char} {r : Bytes} {text : List Char} {s : Bytes} (hc : Spelling c r)
      (ht : Spells text s) : Spells (c :: text) (r ++ s)

/-- A string literal. -/
def Literal (text : List Char) (s : Bytes) : Prop :=
  ∃ raw, Spells text raw ∧ s = [0x22] ++ raw ++ [0x22]

/-- The decoded text in UTF-8. -/
def utf8 (text : List Char) : Bytes := text.flatMap String.utf8EncodeChar

@[simp] theorem utf8_nil : utf8 [] = [] := rfl

@[simp] theorem utf8_cons (c : Char) (text : List Char) :
    utf8 (c :: text) = String.utf8EncodeChar c ++ utf8 text := rfl

/-! ## UTF-8 -/

/-- A byte of a character is the character itself or not in the ASCII range. -/
theorem mem_utf8EncodeChar {c : Char} {b : UInt8} (hb : b ∈ String.utf8EncodeChar c) :
    b.toNat = c.toNat ∨ 0x80 ≤ b.toNat := by
  unfold String.utf8EncodeChar at hb
  dsimp only at hb
  have hval : c.val.toNat = c.toNat := rfl
  split at hb
  next hle =>
      rw [List.mem_singleton.mp hb, UInt8.toNat_ofNat', Nat.mod_eq_of_lt (by omega)]
      exact .inl hval
  next =>
      right
      split at hb
      next =>
          simp only [List.mem_cons, List.not_mem_nil, or_false] at hb
          rcases hb with rfl | rfl <;> rw [UInt8.toNat_ofNat'] <;> omega
      next =>
          split at hb
          next =>
              simp only [List.mem_cons, List.not_mem_nil, or_false] at hb
              rcases hb with rfl | rfl | rfl <;> rw [UInt8.toNat_ofNat'] <;> omega
          next =>
              simp only [List.mem_cons, List.not_mem_nil, or_false] at hb
              rcases hb with rfl | rfl | rfl | rfl <;> rw [UInt8.toNat_ofNat'] <;> omega

theorem length_utf8EncodeChar_le (c : Char) : (String.utf8EncodeChar c).length ≤ 4 := by
  rw [String.length_utf8EncodeChar]
  exact c.utf8Size_le_four

/-- An ASCII character is one byte. -/
theorem utf8EncodeChar_ascii {c : Char} (h : c.toNat ≤ 0x7F) :
    String.utf8EncodeChar c = [UInt8.ofNat c.toNat] := by
  unfold String.utf8EncodeChar
  exact if_pos h

/-! ## Escapes -/

theorem hexDigit_ne_zero {b : UInt8} {n : ℕ} (h : hexDigit b = some n) : b ≠ 0 := by
  rintro rfl
  simp [hexDigit] at h

theorem hexDigit_lt {b : UInt8} {n : ℕ} (h : hexDigit b = some n) : n < 16 := by
  unfold hexDigit at h
  simp only [UInt8.le_iff_toNat_le, UInt8.reduceToNat] at h
  split_ifs at h
  all_goals
    rw [← Option.some.inj h]
    omega

/-- Four hexadecimal digits. -/
theorem hex4_eq_some {hex : Bytes} {n : ℕ} (h : hex4 hex = some n) :
    hex.length = 4 ∧ (0 : UInt8) ∉ hex ∧ n < 0x10000 := by
  unfold hex4 at h
  split at h
  next a b c d =>
      obtain ⟨na, ha, h⟩ := Option.bind_eq_some_iff.mp h
      obtain ⟨nb, hb, h⟩ := Option.bind_eq_some_iff.mp h
      obtain ⟨nc, hc, h⟩ := Option.bind_eq_some_iff.mp h
      obtain ⟨nd, hd, h⟩ := Option.bind_eq_some_iff.mp h
      have hn := Option.some.inj h
      have := hexDigit_lt ha
      have := hexDigit_lt hb
      have := hexDigit_lt hc
      have := hexDigit_lt hd
      refine ⟨rfl, ?_, by omega⟩
      simp [Ne.symm (hexDigit_ne_zero ha), Ne.symm (hexDigit_ne_zero hb),
        Ne.symm (hexDigit_ne_zero hc), Ne.symm (hexDigit_ne_zero hd)]
  next => cases h

/-- A short escape stands for an ASCII character. -/
theorem mem_shortEscapes {b : UInt8} {n : ℕ} (h : (b, n) ∈ shortEscapes) : b ≠ 0 ∧ n ≤ 0x7F := by
  have hall : ∀ e ∈ shortEscapes, e.1 ≠ 0 ∧ e.2 ≤ 0x7F := by decide
  exact hall _ h

/-! ## Spellings -/

/-- A spelling without an escape is the character; one with an escape is longer. -/
theorem Spelling.plain_or_longer {c : Char} {r : Bytes} (h : Spelling c r) :
    (r = String.utf8EncodeChar c ∧ c.toNat ≠ 0x22 ∧ c.toNat ≠ 0x5C) ∨
      (String.utf8EncodeChar c).length < r.length := by
  cases h with
  | plain _ hquote hbackslash => exact .inl ⟨rfl, hquote, hbackslash⟩
  | short h =>
      right
      rw [utf8EncodeChar_ascii (mem_shortEscapes h).2]
      simp
  | unicode h =>
      have := length_utf8EncodeChar_le c
      have := (hex4_eq_some h).1
      simp only [List.length_append, List.length_cons, List.length_nil]
      omega
  | surrogates hhi hlo hn hm h =>
      have := length_utf8EncodeChar_le c
      have := (hex4_eq_some hhi).1
      simp only [List.length_append, List.length_cons, List.length_nil]
      omega

theorem Spelling.nulFree {c : Char} {r : Bytes} (h : Spelling c r) : (0 : UInt8) ∉ r := by
  cases h with
  | plain hlow _ _ =>
      intro hmem
      rcases mem_utf8EncodeChar hmem with heq | hge
      · simp only [UInt8.toNat_zero] at heq
        omega
      · simp at hge
  | short h => simp [Ne.symm (mem_shortEscapes h).1]
  | unicode h => simp [(hex4_eq_some h).2.1]
  | surrogates hhi hlo _ _ _ => simp [(hex4_eq_some hhi).2.1, (hex4_eq_some hlo).2.1]

/-- A spelling of a text is at least as long as the text, and is the text when it has
the same length. -/
theorem Spells.plain_or_longer {text : List Char} {raw : Bytes} (h : Spells text raw) :
    (raw = utf8 text ∧ ∀ c ∈ text, c.toNat ≠ 0x22 ∧ c.toNat ≠ 0x5C) ∨
      (utf8 text).length < raw.length := by
  induction h with
  | nil => exact .inl ⟨rfl, by simp⟩
  | @cons c r text s hc _ ih =>
      rw [utf8_cons, List.length_append, List.length_append]
      rcases hc.plain_or_longer with ⟨rfl, hplain⟩ | hlong
      · rcases ih with ⟨rfl, htext⟩ | hlong
        · exact .inl ⟨rfl, List.forall_mem_cons.mpr ⟨hplain, htext⟩⟩
        · exact .inr (by omega)
      · rcases ih with ⟨rfl, -⟩ | hlong'
        · exact .inr (by omega)
        · exact .inr (by omega)

theorem Spells.append {text text' : List Char} {raw raw' : Bytes} (h : Spells text raw)
    (h' : Spells text' raw') : Spells (text ++ text') (raw ++ raw') := by
  induction h with
  | nil => exact h'
  | cons hc _ ih =>
      rw [List.append_assoc]
      exact .cons hc ih

theorem Spells.nulFree {text : List Char} {raw : Bytes} (h : Spells text raw) :
    (0 : UInt8) ∉ raw := by
  induction h with
  | nil => simp
  | cons hc _ ih => exact fun hmem => (List.mem_append.mp hmem).elim hc.nulFree ih

theorem Literal.nulFree {text : List Char} {s : Bytes} (h : Literal text s) :
    (0 : UInt8) ∉ s := by
  obtain ⟨raw, hraw, rfl⟩ := h
  simp [hraw.nulFree]

/-- The characters of an ASCII text. -/
def ofAscii (s : Bytes) : List Char := s.map fun b => Char.ofNat b.toNat

theorem toNat_ofAscii {b : UInt8} (hb : b.toNat ≤ 0x7F) : (Char.ofNat b.toNat).toNat = b.toNat := by
  rw [Char.ofNat, dif_pos (.inl (by omega))]
  rfl

theorem utf8_ofAscii {s : Bytes} (hs : ∀ b ∈ s, b.toNat ≤ 0x7F) : utf8 (ofAscii s) = s := by
  induction s with
  | nil => rfl
  | cons b s ih =>
      have hb := toNat_ofAscii (hs b (List.mem_cons_self ..))
      have hle := hs b (List.mem_cons_self ..)
      rw [ofAscii, List.map_cons, utf8_cons, utf8EncodeChar_ascii (by omega), hb,
        UInt8.ofNat_toNat]
      exact congrArg _ (ih fun b' hb' => hs b' (List.mem_cons_of_mem _ hb'))

/-- A byte that stands for itself between quotes. -/
def isPlain (b : UInt8) : Bool :=
  0x20 ≤ b.toNat ∧ b.toNat ≤ 0x7F ∧ b.toNat ≠ 0x22 ∧ b.toNat ≠ 0x5C

theorem utf8_ofAscii_of_plain {s : Bytes} (hs : s.all isPlain = true) : utf8 (ofAscii s) = s :=
  utf8_ofAscii fun b hb => (of_decide_eq_true (List.all_eq_true.mp hs b hb)).2.1

/-- A text of such bytes spells itself. -/
theorem spells_ofAscii {s : Bytes} (hs : s.all isPlain = true) : Spells (ofAscii s) s := by
  induction s with
  | nil => exact .nil
  | cons b s ih =>
      rw [List.all_cons, Bool.and_eq_true] at hs
      obtain ⟨hlow, hhigh, hquote, hbackslash⟩ := of_decide_eq_true hs.1
      have hb := toNat_ofAscii hhigh
      have hplain : Spelling (Char.ofNat b.toNat) [b] := by
        have hchar := utf8EncodeChar_ascii (c := Char.ofNat b.toNat) (by omega)
        rw [hb, UInt8.ofNat_toNat] at hchar
        rw [← hchar]
        exact .plain (by omega) (by omega) (by omega)
      exact .cons hplain (ih hs.2)

/-- A text of such bytes stands between quotes as it is. -/
theorem literal_ofAscii {s : Bytes} (hs : s.all isPlain = true) :
    Literal (ofAscii s) ([0x22] ++ s ++ [0x22]) :=
  ⟨s, spells_ofAscii hs, rfl⟩

/-- A literal is longer than its text by the quotes, or it has escapes and is longer
still. Without escapes the text has no quotes and no backslashes. -/
theorem Literal.plain_or_longer {text : List Char} {s : Bytes} (h : Literal text s) :
    (s.length = (utf8 text).length + 2 ∧ (0x22 : UInt8) ∉ utf8 text ∧
      (0x5C : UInt8) ∉ utf8 text) ∨ (utf8 text).length + 2 < s.length := by
  obtain ⟨raw, hraw, rfl⟩ := h
  simp only [List.length_append, List.length_singleton]
  rcases hraw.plain_or_longer with ⟨rfl, hplain⟩ | hlong
  · have hfree : ∀ b : UInt8, b.toNat = 0x22 ∨ b.toNat = 0x5C → b ∉ utf8 text := by
      intro b hb hmem
      obtain ⟨c, hc, hbc⟩ := List.mem_flatMap.mp hmem
      obtain ⟨hquote, hbackslash⟩ := hplain c hc
      rcases mem_utf8EncodeChar hbc with heq | hge <;> omega
    exact .inl ⟨by omega, hfree _ (.inl rfl), hfree _ (.inr rfl)⟩
  · exact .inr (by omega)

end RePlace.JsonString
