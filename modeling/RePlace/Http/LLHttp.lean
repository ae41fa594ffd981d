import Mathlib.Data.List.Infix
import RePlace.Http.Request

/-!
# The parser of a connection

The parser is a library outside the server. `LLHttp` is what the server uses of
it: a state, a function that consumes the bytes of one read and invokes
callbacks, and the two fields the server reads. `LLHttp.Reads` says what the
library promises for a stream that consists of blank bytes and valid messages,
however the stream is cut into reads. Callbacks come with the spans they are
called for; `spell` cuts the spans into bytes, so that two ways of delivering the
same text have the same spelling.
-/

namespace RePlace.Http

/-- The callbacks that the server has set. -/
inductive Event
  | url (span : Bytes)
  | urlComplete
  | headerField (span : Bytes)
  | headerFieldComplete
  | headerValue (span : Bytes)
  | headerValueComplete
  | body (span : Bytes)
deriving DecidableEq

namespace Event

/-- The event, with one byte a span. -/
def spellEvent : Event → List Event
  | url s => s.map fun b => url [b]
  | headerField s => s.map fun b => headerField [b]
  | headerValue s => s.map fun b => headerValue [b]
  | body s => s.map fun b => body [b]
  | e => [e]

/-- The events, with one byte a span. -/
def spell (E : List Event) : List Event := E.flatMap spellEvent

@[simp] theorem spell_nil : spell [] = [] := rfl

@[simp] theorem spell_cons (e : Event) (E : List Event) :
    spell (e :: E) = spellEvent e ++ spell E := rfl

@[simp] theorem spell_append (E E' : List Event) : spell (E ++ E') = spell E ++ spell E' :=
  List.flatMap_append

end Event

/-! ## Messages -/

/-- A request as it is sent, and what it says. -/
structure Message where
  text : Bytes
  method : UInt8
  uri : Bytes
  headers : List Header
  body : Bytes
  text_ne_nil : text ≠ []
  uri_ne_nil : uri ≠ []

/-- What stands behind the URI of a message: a header or a piece of the body. -/
inductive Part
  | header (h : Header)
  | body (span : Bytes)

namespace Part

def header? : Part → Option Header
  | header h => some h
  | body _ => none

def bytes : Part → Bytes
  | header _ => []
  | body s => s

@[simp] theorem header?_header (h : Header) : header? (header h) = some h := rfl

@[simp] theorem header?_body (s : Bytes) : header? (body s) = none := rfl

@[simp] theorem bytes_header (h : Header) : bytes (header h) = [] := rfl

@[simp] theorem bytes_body (s : Bytes) : bytes (body s) = s := rfl

/-- The events of a part. -/
def spelling : Part → List Event
  | header h => Event.spell [.headerField h.name, .headerFieldComplete, .headerValue h.value,
      .headerValueComplete]
  | body s => Event.spell [.body s]

end Part

namespace Message

/-- The bytewise events spell the message: its URI, then its headers and the
pieces of its body. -/
def Spells (msg : Message) (E : List Event) : Prop :=
  ∃ parts : List Part, parts.filterMap Part.header? = msg.headers ∧
    parts.flatMap Part.bytes = msg.body ∧
    E = Event.spell [.url msg.uri, .urlComplete] ++ parts.flatMap Part.spelling

/-- Blank bytes and then messages, back to back. -/
def stream (lead : Bytes) (ms : List Message) : Bytes := lead ++ ms.flatMap text

@[simp] theorem stream_nil (lead : Bytes) : stream lead [] = lead := List.append_nil lead

theorem stream_append (lead : Bytes) (ms ms' : List Message) :
    stream lead (ms ++ ms') = stream lead ms ++ stream [] ms' := by
  simp [stream]

/-- More messages make a longer stream. -/
theorem length_stream_take_lt (lead : Bytes) {ms : List Message} {k k' : ℕ} (hlt : k < k')
    (hk' : k' ≤ ms.length) :
    (stream lead (ms.take k)).length < (stream lead (ms.take k')).length := by
  have hcut : ms.take k' = ms.take k ++ (ms.take k').drop k := by
    have := List.take_append_drop k (ms.take k')
    rwa [List.take_take, Nat.min_eq_left hlt.le, eq_comm] at this
  have hne : (ms.take k').drop k ≠ [] := by
    rw [ne_eq, List.drop_eq_nil_iff, List.length_take]
    omega
  obtain ⟨m, rest, hm⟩ := List.exists_cons_of_ne_nil hne
  have hpos := List.length_pos_iff.mpr m.text_ne_nil
  rw [hcut, stream_append, hm, List.length_append]
  simp only [stream, List.nil_append, List.flatMap_cons, List.length_append]
  omega

theorem isPrefix_stream_take (lead : Bytes) (ms : List Message) (k : ℕ) :
    stream lead (ms.take k) <+: stream lead ms := by
  conv_rhs => rw [← List.take_append_drop k ms, stream_append]
  exact List.prefix_append _ _

end Message

/-! ## The parser -/

/-- What `llhttp_execute` leaves: the parser, the callbacks it has invoked and its
result, 0 for `HPE_OK`. -/
structure Executed (σ : Type) where
  parser : σ
  events : List Event
  errno : ℕ

/-- The parser of the library: `llhttp_init`, `llhttp_execute` and the fields
`finish` and `method`. -/
structure LLHttp (σ : Type) where
  init : σ
  execute : σ → Bytes → Executed σ
  finish : σ → UInt8
  method : σ → UInt8

namespace LLHttp

variable {σ : Type} (L : LLHttp σ)

/-- Execute read after read, up to an error. -/
def feed (s : σ) : List Bytes → Executed σ
  | [] => ⟨s, [], 0⟩
  | bytes :: reads =>
      let e := L.execute s bytes
      if e.errno ≠ 0 then e
      else { feed e.parser reads with events := e.events ++ (feed e.parser reads).events }

/-- What the library promises for a stream of blank bytes and messages, for every
way of cutting it into reads. -/
structure Reads (lead : Bytes) (ms : List Message) : Prop where
  /-- The bytes before the first message are CR and LF. -/
  blank : ∀ b ∈ lead, b = 0x0D ∨ b = 0x0A
  /-- The messages are valid: there is no error. -/
  errno : ∀ reads : List Bytes, reads.flatten <+: Message.stream lead ms →
    (L.feed L.init reads).errno = 0
  /-- `finish` is 0 before the first message and at the end of every message. -/
  finish : ∀ reads : List Bytes, reads.flatten <+: Message.stream lead ms →
    (L.finish (L.feed L.init reads).parser = 0 ↔
      reads.flatten <+: lead ∨ ∃ k, reads.flatten = Message.stream lead (ms.take k))
  /-- Blank bytes are skipped without a callback. -/
  silent : ∀ reads : List Bytes, reads.flatten <+: lead → (L.feed L.init reads).events = []
  /-- At the end of a message the callbacks have spelled all messages so far. -/
  complete : ∀ (reads : List Bytes) (k : ℕ) (m : Message), ms[k]? = some m →
    reads.flatten = Message.stream lead (ms.take (k + 1)) →
    L.method (L.feed L.init reads).parser = m.method ∧
      ∃ Es, List.Forall₂ Message.Spells (ms.take (k + 1)) Es ∧
        Event.spell (L.feed L.init reads).events = Es.flatten

variable {L}

@[simp] theorem feed_nil (s : σ) : L.feed s [] = ⟨s, [], 0⟩ := rfl

theorem feed_cons {s : σ} {bytes : Bytes} (h : (L.execute s bytes).errno = 0)
    (reads : List Bytes) : L.feed s (bytes :: reads) =
      { L.feed (L.execute s bytes).parser reads with
        events := (L.execute s bytes).events ++
          (L.feed (L.execute s bytes).parser reads).events } := by
  rw [feed]
  simp [h]

/-- A parser that gets through has got through the first read. -/
theorem errno_of_feed {s : σ} {bytes : Bytes} {reads : List Bytes}
    (h : (L.feed s (bytes :: reads)).errno = 0) : (L.execute s bytes).errno = 0 := by
  by_contra hne
  rw [feed, if_pos hne] at h
  exact hne h

end LLHttp

/-! ## A parser that has been recorded -/

/-- Two spans of one kind in a row are one span. -/
def Event.join : Event → Event → Option Event
  | url s, url s' => some (url (s ++ s'))
  | headerField s, headerField s' => some (headerField (s ++ s'))
  | headerValue s, headerValue s' => some (headerValue (s ++ s'))
  | body s, body s' => some (body (s ++ s'))
  | _, _ => none

/-- An event before others, joined to the first of them if it can be. -/
def Event.before (e : Event) : List Event → List Event
  | [] => [e]
  | e' :: E =>
      match e.join e' with
      | some j => j :: E
      | none => e :: e' :: E

theorem Event.spell_before (e : Event) (E : List Event) :
    spell (e.before E) = e.spellEvent ++ spell E := by
  cases E with
  | nil => simp [before]
  | cons e' E => cases e <;> cases e' <;> simp [before, join, spellEvent]

/-- The bytes a parser has been seen to read, each with the callbacks it is
responsible for, and the fields of the parser by position. -/
structure Recording where
  script : List (UInt8 × List Event)
  finish : ℕ → UInt8
  method : ℕ → UInt8

namespace Recording

/-- Bytes that no callback is called for. -/
def quiet (s : Bytes) : List (UInt8 × List Event) := s.map fun b => (b, [])

variable (R : Recording)

/-- The callbacks of a piece of the script, its spans joined. -/
def play (piece : List (UInt8 × List Event)) : List Event :=
  (piece.flatMap Prod.snd).foldr Event.before []

/-- The parser that behaves as recorded; any other input is an error. -/
def parser : LLHttp ℕ where
  init := 0
  execute pos bytes :=
    if ((R.script.drop pos).take bytes.length).map Prod.fst = bytes then
      ⟨pos + bytes.length, play ((R.script.drop pos).take bytes.length), 0⟩
    else ⟨pos, [], 1⟩
  finish := R.finish
  method := R.method

theorem spell_play (piece : List (UInt8 × List Event)) :
    Event.spell (play piece) = Event.spell (piece.flatMap Prod.snd) := by
  rw [play]
  induction piece.flatMap Prod.snd with
  | nil => rfl
  | cons e E ih => rw [List.foldr_cons, Event.spell_before, ih, Event.spell_cons]

variable {R}

/-- However the script is cut, its callbacks are delivered in order. -/
theorem parser_feed {reads : List Bytes} {pos : ℕ}
    (h : reads.flatten <+: (R.script.drop pos).map Prod.fst) :
    ∃ E, R.parser.feed pos reads = ⟨pos + reads.flatten.length, E, 0⟩ ∧
      Event.spell E =
        Event.spell (((R.script.drop pos).take reads.flatten.length).flatMap Prod.snd) ∧
      ((∀ e ∈ (R.script.drop pos).take reads.flatten.length, e.2 = []) → E = []) := by
  induction reads generalizing pos with
  | nil => exact ⟨[], by simp, by simp, fun _ => rfl⟩
  | cons bytes reads ih =>
      have htake : bytes = ((R.script.drop pos).map Prod.fst).take bytes.length :=
        List.prefix_iff_eq_take.mp ((List.prefix_append bytes reads.flatten).trans h)
      have hfirst : ((R.script.drop pos).take bytes.length).map Prod.fst = bytes := by
        rw [List.map_take, ← htake]
      have hexec : R.parser.execute pos bytes =
          ⟨pos + bytes.length, play ((R.script.drop pos).take bytes.length), 0⟩ := by
        rw [parser]
        exact if_pos hfirst
      have hrest : reads.flatten <+: (R.script.drop (pos + bytes.length)).map Prod.fst := by
        rw [← List.drop_drop, List.map_drop, ← List.prefix_append_right_inj bytes]
        have hsplit : bytes ++ ((R.script.drop pos).map Prod.fst).drop bytes.length =
            (R.script.drop pos).map Prod.fst :=
          (congrArg (· ++ _) htake).trans (List.take_append_drop _ _)
        rwa [hsplit]
      obtain ⟨E, hfeed, hspell, hsilent⟩ := ih hrest
      have hcut : (R.script.drop pos).take (bytes :: reads).flatten.length =
          (R.script.drop pos).take bytes.length ++
            (R.script.drop (pos + bytes.length)).take reads.flatten.length := by
        rw [List.flatten_cons, List.length_append, List.take_add, List.drop_drop]
      refine ⟨play ((R.script.drop pos).take bytes.length) ++ E, ?_, ?_, fun hall => ?_⟩
      · rw [LLHttp.feed_cons (by rw [hexec]), hexec, hfeed]
        simp [Nat.add_assoc]
      · rw [hcut, Event.spell_append, spell_play, hspell, List.flatMap_append, Event.spell_append]
      · rw [hcut] at hall
        have hnone : ((R.script.drop pos).take bytes.length).flatMap Prod.snd = [] :=
          List.flatMap_eq_nil_iff.mpr fun e he => hall e (List.mem_append_left _ he)
        rw [hsilent fun e he => hall e (List.mem_append_right _ he), play, hnone]
        rfl

/-- A recording of blank bytes and messages keeps the promises for them. -/
theorem parser_reads {lead : Bytes} {ms : List Message} {Es : List (List Event)}
    (hblank : ∀ b ∈ lead, b = 0x0D ∨ b = 0x0A)
    (hscript : R.script.map Prod.fst = Message.stream lead ms)
    (hfinish : ∀ pos ≤ R.script.length, R.finish pos = 0 ↔
      pos ≤ lead.length ∨ ∃ k ≤ ms.length, pos = (Message.stream lead (ms.take k)).length)
    (hsilent : ∀ e ∈ R.script.take lead.length, e.2 = [])
    (hEs : List.Forall₂ Message.Spells ms Es)
    (hevents : ∀ k < ms.length, Event.spell
      ((R.script.take (Message.stream lead (ms.take (k + 1))).length).flatMap Prod.snd) =
        (Es.take (k + 1)).flatten)
    (hmethod : ∀ k m, ms[k]? = some m →
      R.method (Message.stream lead (ms.take (k + 1))).length = m.method) :
    R.parser.Reads lead ms := by
  have hfeed : ∀ reads : List Bytes, reads.flatten <+: Message.stream lead ms →
      ∃ E, R.parser.feed R.parser.init reads = ⟨reads.flatten.length, E, 0⟩ ∧
        Event.spell E = Event.spell ((R.script.take reads.flatten.length).flatMap Prod.snd) ∧
        ((∀ e ∈ R.script.take reads.flatten.length, e.2 = []) → E = []) := by
    intro reads hpre
    rw [← hscript] at hpre
    have := @parser_feed R reads 0 (by rwa [List.drop_zero])
    rwa [List.drop_zero, Nat.zero_add] at this
  have hlead : lead <+: Message.stream lead ms := List.prefix_append _ _
  refine ⟨hblank, fun reads hpre => ?_, fun reads hpre => ?_, fun reads hpre => ?_,
    fun reads k m hm hend => ?_⟩
  · obtain ⟨E, hE, -⟩ := hfeed reads hpre
    rw [hE]
  · obtain ⟨E, hE, -⟩ := hfeed reads hpre
    have hlen : reads.flatten.length ≤ R.script.length := by
      have := hpre.length_le
      rwa [← hscript, List.length_map] at this
    rw [hE]
    refine (hfinish _ hlen).trans (or_congr ?_ ?_)
    · exact ⟨List.prefix_of_prefix_length_le hpre hlead, List.IsPrefix.length_le⟩
    · constructor
      · rintro ⟨k, -, hk⟩
        exact ⟨k, List.IsPrefix.eq_of_length
          (List.prefix_of_prefix_length_le hpre (Message.isPrefix_stream_take lead ms k) hk.le) hk⟩
      · rintro ⟨k, hk⟩
        refine ⟨min k ms.length, Nat.min_le_right _ _, ?_⟩
        rw [hk, ← List.take_eq_take_min]
  · obtain ⟨E, hE, -, hnone⟩ := hfeed reads (hpre.trans hlead)
    rw [hE]
    refine hnone fun e he => hsilent e ?_
    exact (List.take_prefix_take_left hpre.length_le).subset he
  · have hk : k < ms.length := (List.getElem?_eq_some_iff.mp hm).1
    obtain ⟨E, hE, hspell, -⟩ := hfeed reads (hend ▸ Message.isPrefix_stream_take lead ms (k + 1))
    rw [hE]
    refine ⟨?_, Es.take (k + 1), List.forall₂_take _ hEs, ?_⟩
    · rw [hend]
      exact hmethod k m hm
    · rw [hspell, hend, hevents k hk]

end Recording

end RePlace.Http
