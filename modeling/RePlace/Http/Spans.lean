import RePlace.Http.Connection

/-!
# The spans of a request

The parser may deliver the URI, the names and the values of a message, and its body,
in any number of pieces. The callbacks put them together again: the buffer that they
share is empty whenever one of the three is complete, so nothing gets from one into
the next.
-/

namespace RePlace.Http

/-- What stands behind the URI of a message, in pieces. -/
inductive PartSpans
  | header (name value : List Bytes)
  | body (span : Bytes)

/-- A message in pieces. -/
structure MessageSpans where
  uri : List Bytes
  parts : List PartSpans

/-- The end of something that has been collected. -/
def Event.IsComplete (e : Event) : Prop :=
  e = .urlComplete ∨ e = .headerFieldComplete ∨ e = .headerValueComplete

namespace PartSpans

/-- The callbacks of a part. -/
def events : PartSpans → List Event
  | header name value => name.map .headerField ++ [.headerFieldComplete] ++
      value.map .headerValue ++ [.headerValueComplete]
  | body span => [.body span]

/-- The part that the pieces make. -/
def whole : PartSpans → Part
  | header name value => .header { name := name.flatten, value := value.flatten }
  | body span => .body span

end PartSpans

namespace MessageSpans

/-- The callbacks of a message. -/
def events (m : MessageSpans) : List Event :=
  m.uri.map .url ++ [.urlComplete] ++ m.parts.flatMap PartSpans.events

/-- The names and values of a message, in order. -/
def headers (m : MessageSpans) : List Header := m.parts.filterMap fun p => p.whole.header?

/-- The body of a message. -/
def body (m : MessageSpans) : Bytes := m.parts.flatMap fun p => p.whole.bytes

/-- The same texts, possibly in other pieces. -/
structure SameTexts (m m' : MessageSpans) : Prop where
  uri : m.uri.flatten = m'.uri.flatten
  headers : m.headers = m'.headers
  body : m.body = m'.body

end MessageSpans

/-! ## Pieces -/

/-- The pieces of a text spell the text. -/
theorem Event.spell_pieces {f : Bytes → Event} (hf : ∀ s, (f s).spellEvent = s.map fun b => f [b])
    (spans : List Bytes) : spell (spans.map f) = (f spans.flatten).spellEvent := by
  induction spans with
  | nil => rw [List.flatten_nil, hf]; rfl
  | cons s spans ih =>
      rw [List.map_cons, spell_cons, ih, hf, hf, hf, List.flatten_cons, List.map_append]

theorem PartSpans.spell_events (p : PartSpans) : Event.spell p.events = p.whole.spelling := by
  cases p with
  | header name value =>
      have hname := Event.spell_pieces (f := .headerField) (fun _ => rfl) name
      have hvalue := Event.spell_pieces (f := .headerValue) (fun _ => rfl) value
      simp only [events, whole, Part.spelling, Event.spell_append, Event.spell_cons,
        Event.spell_nil, hname, hvalue, List.append_assoc, List.append_nil]
  | body span => rfl

theorem PartSpans.spell_flatMap (parts : List PartSpans) :
    Event.spell (parts.flatMap events) = (parts.map whole).flatMap Part.spelling := by
  induction parts with
  | nil => rfl
  | cons p parts ih =>
      rw [List.flatMap_cons, Event.spell_append, ih, spell_events, List.map_cons,
        List.flatMap_cons]

namespace MessageSpans

theorem spell_events (m : MessageSpans) : Event.spell m.events =
    Event.spell [.url m.uri.flatten, .urlComplete] ++
      (m.parts.map PartSpans.whole).flatMap Part.spelling := by
  have huri := Event.spell_pieces (f := .url) (fun _ => rfl) m.uri
  simp only [events, Event.spell_append, Event.spell_cons, Event.spell_nil, huri,
    PartSpans.spell_flatMap, List.append_nil]

/-- The callbacks of a message in pieces take up its texts. -/
theorem foldlM_events (m : MessageSpans) (req : Request) :
    m.events.foldlM onEvent { req := req } =
      some { req := { req with
        uri := m.uri.flatten
        headers := req.headers ++ m.headers.map Header.stored
        body := req.body ++ m.body } } := by
  have huri : (Event.spell [.url m.uri.flatten, .urlComplete]).foldlM onEvent { req := req } =
      some { req := { req with uri := m.uri.flatten } } := by
    rw [ReqData.foldlM_spell]
    simp [onEvent]
  have hheaders : (m.parts.map PartSpans.whole).filterMap Part.header? = m.headers :=
    List.filterMap_map
  have hbody : (m.parts.map PartSpans.whole).flatMap Part.bytes = m.body :=
    List.flatMap_map _ _ _
  rw [← ReqData.foldlM_spell, spell_events, List.foldlM_append, huri]
  exact (foldlM_parts _ _).trans (by rw [hheaders, hbody])

/-- Nothing is left in the shared buffer by what completes something. -/
theorem tmp_of_isComplete {d d' : ReqData} {e : Event} (he : e.IsComplete)
    (h : onEvent d e = some d') : d'.tmp = [] := by
  rcases he with rfl | rfl | rfl
  · rw [← Option.some.inj h]
  · rw [← Option.some.inj h]
  · obtain ⟨v, -, hd⟩ := Option.bind_eq_some_iff.mp h
    rw [← Option.some.inj hd]

/-- However a message has been cut, a new connection collects its URI, its headers with
the names in lower case, and its body; the shared buffer is empty after each
completion, and other pieces of the same texts give the same request. -/
theorem span_assembly (m : MessageSpans) :
    m.events.foldlM onEvent {} =
        some { tmp := [], req :=
          { uri := m.uri.flatten, headers := m.headers.map Header.stored, body := m.body } } ∧
      (∀ pre e post, m.events = pre ++ e :: post → e.IsComplete →
        ∃ d, (pre ++ [e]).foldlM onEvent {} = some d ∧ d.tmp = []) ∧
      ∀ m' : MessageSpans, m'.SameTexts m →
        m'.events.foldlM onEvent {} = m.events.foldlM onEvent {} := by
  refine ⟨foldlM_events m {}, fun pre e post hevents he => ?_, fun m' h => ?_⟩
  · have hrun := foldlM_events m {}
    rw [hevents, List.foldlM_append] at hrun
    obtain ⟨d, hpre, hrest⟩ := Option.bind_eq_some_iff.mp hrun
    obtain ⟨d', hstep, -⟩ := Option.bind_eq_some_iff.mp hrest
    refine ⟨d', ?_, tmp_of_isComplete he hstep⟩
    rw [List.foldlM_append, hpre]
    simpa using hstep
  · rw [foldlM_events m' {}, foldlM_events m {}, h.uri, h.headers, h.body]

end MessageSpans

end RePlace.Http
