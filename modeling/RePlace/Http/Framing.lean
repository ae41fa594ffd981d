import RePlace.Data.Lines
import RePlace.Http.Response

/-!
# The framing of responses

A response is written as a status line, a line for each header, a line with the
length of the content, an empty line and the content. When the headers hold no line
ends, the first empty line is the one in front of the content, whatever the content
is, and a reader gets the headers and the content back.
-/

namespace RePlace.Http

open Bytes (lit)
open Lines (cut pieces)

/-! ## Decimal numbers -/

/-- The number a text of decimal digits stands for. -/
def ofDecimal (s : Bytes) : Option ℕ :=
  if s ≠ [] ∧ s.all (fun b => 0x30 ≤ b ∧ b ≤ 0x39) then
    some (Nat.ofDigitChars 10 (s.map fun b => Char.ofNat b.toNat) 0)
  else none

theorem toNat_of_isDigit {c : Char} (hc : c.isDigit = true) : 48 ≤ c.toNat ∧ c.toNat ≤ 57 := by
  simp only [Char.isDigit, Bool.and_eq_true, decide_eq_true_eq, ge_iff_le,
    UInt32.le_iff_toNat_le] at hc
  exact hc

/-- A decimal digit is a byte. -/
theorem digit_byte {c : Char} (hc : c.isDigit = true) :
    (0x30 ≤ c.toNat.toUInt8 ∧ c.toNat.toUInt8 ≤ 0x39) ∧
      Char.ofNat c.toNat.toUInt8.toNat = c := by
  obtain ⟨hlo, hhi⟩ := toNat_of_isDigit hc
  have hnat : c.toNat.toUInt8.toNat = c.toNat := UInt8.toNat_ofNat_of_lt' (by
    simp only [UInt8.size]
    omega)
  refine ⟨⟨?_, ?_⟩, ?_⟩
  · rw [UInt8.le_iff_toNat_le, hnat]
    exact hlo
  · rw [UInt8.le_iff_toNat_le, hnat]
    exact hhi
  · rw [hnat, Char.ofNat_toNat]

theorem isDigit_of_mem_toDecimal {n : ℕ} {b : UInt8} (hb : b ∈ toDecimal n) :
    0x30 ≤ b ∧ b ≤ 0x39 := by
  obtain ⟨c, hc, rfl⟩ := List.mem_map.mp hb
  exact (digit_byte (Nat.isDigit_of_mem_toDigits (by omega) (by omega) hc)).1

/-- A number is read back from its decimal digits. -/
theorem ofDecimal_toDecimal (n : ℕ) : ofDecimal (toDecimal n) = some n := by
  have hall : (toDecimal n).all (fun b => 0x30 ≤ b ∧ b ≤ 0x39) = true := by
    rw [List.all_eq_true]
    exact fun b hb => decide_eq_true (isDigit_of_mem_toDecimal hb)
  have hne : toDecimal n ≠ [] := by
    rw [toDecimal, ne_eq, List.map_eq_nil_iff]
    exact Nat.toDigits_ne_nil
  have hchars : (toDecimal n).map (fun b => Char.ofNat b.toNat) = Nat.toDigits 10 n := by
    rw [toDecimal, List.map_map]
    refine (List.map_congr_left fun c hc => ?_).trans (List.map_id _)
    exact (digit_byte (Nat.isDigit_of_mem_toDigits (by omega) (by omega) hc)).2
  rw [ofDecimal, if_pos ⟨hne, hall⟩, hchars, Nat.ofDigitChars_ten_toDigits]

/-! ## The head of a response -/

/-- The colon between the name and the value of a header. -/
def colon : UInt8 := 0x3A

def cr : UInt8 := 0x0D

def lf : UInt8 := 0x0A

/-- A header whose name and value end neither the name nor the line. -/
structure Header.Clean (h : Header) : Prop where
  name : colon ∉ h.name ∧ cr ∉ h.name ∧ lf ∉ h.name
  value : cr ∉ h.value ∧ lf ∉ h.value

/-- The line of a header. -/
def Header.line (h : Header) : Bytes := h.name ++ (nameValueSeparator ++ h.value)

/-- The header with the length of a content. -/
def lengthHeader (content : Bytes) : Header where
  name := lit "Content-Length"
  value := toDecimal content.length

/-- The status line without its line end. -/
def statusLine (status : StatusType) : Bytes := (statusString status).dropLast.dropLast

/-- The lines in front of the empty one. -/
def headLines (res : Response) : List Bytes :=
  statusLine res.status :: (res.headers ++ [lengthHeader res.content]).map Header.line

/-- What is written to the connection. -/
def written (res : Response) : Bytes := (toBuffers res).flatten

theorem statusString_eq (status : StatusType) :
    statusString status = statusLine status ++ crlf := by
  cases status <;> rfl

theorem statusLine_clean (status : StatusType) :
    statusLine status ≠ [] ∧ cr ∉ statusLine status := by
  cases status with
  | other code =>
      show statusLine .internalServerError ≠ [] ∧ cr ∉ statusLine .internalServerError
      decide
  | _ => decide

theorem flatten_headers (hs : List Header) :
    (hs.flatMap fun h => [h.name, nameValueSeparator, h.value, crlf]).flatten =
      hs.flatMap fun h => h.line ++ crlf := by
  induction hs with
  | nil => rfl
  | cons h hs ih => simp [Header.line, ih]

/-- Lines with their ends are lines with the separator between them and one behind. -/
theorem intercalate_append_crlf (l : Bytes) (L : List Bytes) :
    crlf.intercalate (l :: L) ++ crlf = (l :: L).flatMap fun m => m ++ crlf := by
  induction L generalizing l with
  | nil => simp
  | cons m L ih =>
      rw [List.intercalate_cons_cons, List.append_assoc, ih m]
      simp

/-- A response is written as its lines, an empty line and its content. -/
theorem written_eq (res : Response) :
    written res = crlf.intercalate (headLines res) ++ (crlf ++ crlf ++ res.content) := by
  have hlines := intercalate_append_crlf (statusLine res.status)
    ((res.headers ++ [lengthHeader res.content]).map Header.line)
  rw [List.append_assoc crlf, ← List.append_assoc _ crlf, headLines, hlines, written, toBuffers]
  simp [statusString_eq, flatten_headers, List.flatMap_map, Header.line, lengthHeader]

/-! ## A reader -/

/-- A header read from its line: the name goes up to the first colon, one space
behind it is dropped. -/
def readHeader (line : Bytes) : Option Header :=
  (cut [colon] line).map fun c => ⟨c.1, if c.2.head? = some 0x20 then c.2.drop 1 else c.2⟩

/-- A status line and header fields read from the beginning of a text, and what stands
behind the first empty line. -/
def readHead (text : Bytes) : Option (Bytes × List Header × Bytes) := do
  let (head, rest) ← cut (crlf ++ crlf) text
  match pieces crlf head.length head with
  | [] => none
  | status :: lines =>
      let fields ← lines.mapM readHeader
      return (status, fields, rest)

/-- A response read from the beginning of a text: the last field of its head has the
length of the content. -/
def readResponse (text : Bytes) : Option (Bytes × List Header × Bytes) := do
  let (status, fields, rest) ← readHead text
  let last ← fields.getLast?
  let n ← ofDecimal last.value
  if last.name = lit "Content-Length" ∧ n ≤ rest.length then
    return (status, fields.dropLast, rest.take n)
  else none

theorem readHeader_line {h : Header} (hh : h.Clean) : readHeader h.line = some h := by
  have hline : h.line = h.name ++ ([colon] ++ (0x20 :: h.value)) := rfl
  rw [readHeader, hline, Lines.cut_append_sep hh.name.1]
  rfl

theorem mapM_readHeader {hs : List Header} (hhs : ∀ h ∈ hs, h.Clean) :
    (hs.map Header.line).mapM readHeader = some hs := by
  induction hs with
  | nil => rfl
  | cons h hs ih =>
      rw [List.map_cons, List.mapM_cons, readHeader_line (hhs h (List.mem_cons_self ..)),
        ih fun h' hh' => hhs h' (List.mem_cons_of_mem _ hh')]
      rfl

theorem lengthHeader_clean (content : Bytes) : (lengthHeader content).Clean where
  name := by
    show colon ∉ lit "Content-Length" ∧ cr ∉ lit "Content-Length" ∧ lf ∉ lit "Content-Length"
    decide
  value := by
    refine ⟨fun hmem => ?_, fun hmem => ?_⟩
    · exact absurd (isDigit_of_mem_toDecimal hmem).1 (by decide)
    · exact absurd (isDigit_of_mem_toDecimal hmem).1 (by decide)

variable {res : Response}

theorem clean_headers (hres : ∀ h ∈ res.headers, h.Clean) :
    ∀ h ∈ res.headers ++ [lengthHeader res.content], h.Clean := by
  intro h hh
  rcases List.mem_append.mp hh with hh | hh
  · exact hres h hh
  · rw [List.mem_singleton.mp hh]
    exact lengthHeader_clean _

/-- The lines of the head are not empty and hold no line ends. -/
theorem headLines_clean (hres : ∀ h ∈ res.headers, h.Clean) :
    ∀ l ∈ headLines res, l ≠ [] ∧ cr ∉ l := by
  intro l hl
  rcases List.mem_cons.mp hl with rfl | hl
  · exact statusLine_clean _
  · obtain ⟨h, hh, rfl⟩ := List.mem_map.mp hl
    have hclean := clean_headers hres h hh
    refine ⟨by simp [Header.line, nameValueSeparator], fun hmem => ?_⟩
    rcases List.mem_append.mp hmem with hmem | hmem
    · exact hclean.name.2.1 hmem
    · rcases List.mem_append.mp hmem with hmem | hmem
      · exact absurd hmem (by decide)
      · exact hclean.value.1 hmem

/-- The head ends at the first empty line, whatever stands behind it. -/
theorem cut_written (hres : ∀ h ∈ res.headers, h.Clean) (more : Bytes) :
    cut (crlf ++ crlf) (written res ++ more) =
      some (crlf.intercalate (headLines res), res.content ++ more) := by
  have hcut := @Lines.cut_doubled _ _ cr lf (headLines res) (by decide) (by simp [headLines])
    (headLines_clean hres) (res.content ++ more)
  rw [written_eq, List.append_assoc, List.append_assoc]
  exact hcut

/-- The head is read back as its lines. -/
theorem pieces_head (hres : ∀ h ∈ res.headers, h.Clean) :
    pieces crlf (crlf.intercalate (headLines res)).length (crlf.intercalate (headLines res)) =
      headLines res := by
  have hclean := headLines_clean hres
  have hlen := Lines.length_le_intercalate crlf fun l hl => (hclean l hl).1
  exact Lines.pieces_intercalate (by simp [headLines]) (fun l hl => (hclean l hl).2)
    (hlen.trans (Nat.le_succ _))

theorem readHead_written (hres : ∀ h ∈ res.headers, h.Clean) (more : Bytes) :
    readHead (written res ++ more) = some (statusLine res.status,
      res.headers ++ [lengthHeader res.content], res.content ++ more) := by
  have hlines := pieces_head hres
  rw [readHead, cut_written hres]
  simp only [Option.bind_eq_bind, Option.bind_some, hlines]
  rw [headLines]
  simp only [mapM_readHeader (clean_headers hres), Option.bind_some]
  rfl

/-- A reader gets back what has been written, and stops behind the content. -/
theorem readResponse_written (hres : ∀ h ∈ res.headers, h.Clean) (more : Bytes) :
    readResponse (written res ++ more) =
      some (statusLine res.status, res.headers, res.content) := by
  rw [readResponse, readHead_written hres]
  simp only [Option.bind_eq_bind, Option.bind_some, List.getLast?_concat, List.dropLast_concat]
  simp [lengthHeader, ofDecimal_toDecimal]

/-- What is written for a response splits at its first empty line into the lines of
its head and its content, and a reader gets the headers and the content back. -/
theorem response_framing (hres : ∀ h ∈ res.headers, h.Clean) :
    ∃ head, cut (crlf ++ crlf) (written res) = some (head, res.content) ∧
      (∀ a b, written res = a ++ (crlf ++ crlf ++ b) → head.length ≤ a.length) ∧
      pieces crlf head.length head = statusLine res.status :: (res.headers.map Header.line ++
        [lit "Content-Length: " ++ toDecimal res.content.length]) ∧
      ofDecimal (toDecimal res.content.length) = some res.content.length ∧
      ∀ more, readResponse (written res ++ more) =
        some (statusLine res.status, res.headers, res.content) := by
  have hcut := cut_written hres []
  rw [List.append_nil, List.append_nil] at hcut
  refine ⟨_, hcut, (Lines.cut_eq_some hcut).2, ?_, ofDecimal_toDecimal _,
    readResponse_written hres⟩
  rw [pieces_head hres, headLines, List.map_append]
  rfl

/-- A response whose content starts with an empty line. -/
def sampleResponse : Response where
  status := .created
  headers := [{ name := lit "Set-Cookie", value := lit "a=b; c: d" }, { name := [], value := [] }]
  content := lit "\r\n\r\nname: value\r\n\r\n"

theorem response_framing_sample :
    ∃ head, cut (crlf ++ crlf) (written sampleResponse) = some (head, sampleResponse.content) ∧
      (∀ a b, written sampleResponse = a ++ (crlf ++ crlf ++ b) → head.length ≤ a.length) ∧
      pieces crlf head.length head = statusLine .created ::
        (sampleResponse.headers.map Header.line ++ [lit "Content-Length: 19"]) ∧
      ofDecimal (toDecimal 19) = some 19 ∧
      ∀ more, readResponse (written sampleResponse ++ more) =
        some (statusLine .created, sampleResponse.headers, sampleResponse.content) :=
  response_framing fun h hh => by
    simp only [sampleResponse, List.mem_cons, List.not_mem_nil, or_false] at hh
    rcases hh with rfl | rfl <;> exact ⟨by decide, by decide⟩

end RePlace.Http
