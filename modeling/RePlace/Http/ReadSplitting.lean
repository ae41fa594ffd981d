import RePlace.Http.Connection

/-!
# Reads and messages

How the loop of `do_read` divides a stream into requests. It handles the request
after the first read that leaves the parser with a `finish` of 0 (`doRead_eq`).
That is the first read when it holds blank bytes only (`read_splitting_iff`), and
it is the first read that ends where some message ends, however many messages
have gone by (`single_message_iff`).
-/

namespace RePlace.Http

open Bytes (lit)
open RequestHandler (Outcome)

variable {σ δ ε : Type} {L : LLHttp σ} {parse : CString → Json} {h : RequestHandler δ ε}

/-! ## Ways of cutting a stream -/

/-- The reads cut the stream into pieces that fit into the buffer. -/
structure Cut (s : Bytes) (reads : List Bytes) : Prop where
  flatten : reads.flatten = s
  size : ∀ r ∈ reads, r ≠ [] ∧ r.length ≤ bufferSize

section Cut

variable {s : Bytes} {reads : List Bytes}

theorem Cut.isPrefix_take (hc : Cut s reads) (n : ℕ) : (reads.take n).flatten <+: s := by
  rw [← hc.flatten]
  conv_rhs => rw [← List.take_append_drop n reads, List.flatten_append]
  exact List.prefix_append _ _

theorem Cut.length_lt (hc : Cut s reads) {n n' : ℕ} (hlt : n < n') (hn' : n' ≤ reads.length) :
    (reads.take n).flatten.length < (reads.take n').flatten.length := by
  have hcut : reads.take n' = reads.take n ++ (reads.take n').drop n := by
    have := List.take_append_drop n (reads.take n')
    rwa [List.take_take, Nat.min_eq_left hlt.le, eq_comm] at this
  have hne : (reads.take n').drop n ≠ [] := by
    rw [ne_eq, List.drop_eq_nil_iff, List.length_take]
    omega
  obtain ⟨r, rest, hr⟩ := List.exists_cons_of_ne_nil hne
  have hmem : r ∈ reads := by
    have : r ∈ (reads.take n').drop n := by rw [hr]; exact List.mem_cons_self ..
    exact List.mem_of_mem_take (List.mem_of_mem_drop this)
  have hpos := List.length_pos_iff.mpr (hc.size r hmem).1
  rw [hcut, hr, List.flatten_append, List.length_append, List.flatten_cons, List.length_append]
  omega

end Cut

/-! ## The loop -/

/-- The loop goes on while `finish` is not 0 and then handles what has been
collected. -/
theorem doRead_eq {c : Connection σ} {reads : List Bytes} {n : ℕ} {d : ReqData}
    (hn : n < reads.length) (hok : (L.feed c.parser (reads.take (n + 1))).errno = 0)
    (hbusy : ∀ k, 0 < k → k ≤ n → L.finish (L.feed c.parser (reads.take k)).parser ≠ 0)
    (hend : L.finish (L.feed c.parser (reads.take (n + 1))).parser = 0)
    (hdata : (L.feed c.parser (reads.take (n + 1))).events.foldlM onEvent c.data = some d) :
    doRead L parse h c reads =
      some (.handled
        (Connection.request L parse ⟨(L.feed c.parser (reads.take (n + 1))).parser, d⟩)
        (h.handleRequest
          (Connection.request L parse ⟨(L.feed c.parser (reads.take (n + 1))).parser, d⟩))
        (reads.drop (n + 1))) := by
  induction n generalizing c reads with
  | zero =>
      obtain ⟨bytes, reads, rfl⟩ := List.exists_cons_of_length_pos hn
      rw [List.take_succ_cons, List.take_zero] at *
      have hfirst := LLHttp.errno_of_feed hok
      rw [LLHttp.feed_cons hfirst] at *
      simp only [LLHttp.feed_nil, List.append_nil] at *
      simp [doRead, hfirst, hend, hdata]
  | succ n ih =>
      obtain ⟨bytes, reads, rfl⟩ := List.exists_cons_of_length_pos (Nat.zero_lt_of_lt hn)
      rw [List.take_succ_cons] at *
      have hfirst := LLHttp.errno_of_feed hok
      have hgo : L.finish (L.execute c.parser bytes).parser ≠ 0 := by
        have := hbusy 1 Nat.one_pos (by omega)
        rwa [List.take_succ_cons, LLHttp.feed_cons hfirst] at this
      rw [LLHttp.feed_cons hfirst] at *
      simp only [List.foldlM_append] at *
      obtain ⟨d₁, hd₁, hd⟩ := Option.bind_eq_some_iff.mp hdata
      have hrest := @ih ⟨(L.execute c.parser bytes).parser, d₁⟩ reads (by simpa using hn) hok
        (fun k hk hkn => by
          have := hbusy (k + 1) (Nat.succ_pos k) (by omega)
          rwa [List.take_succ_cons, LLHttp.feed_cons hfirst] at this) hend hd
      rw [List.drop_succ_cons, ← hrest, doRead]
      simp [hd₁, hfirst, hgo]

/-- The loop over a stream of messages handles what the first of them have said
together, when a read ends behind them and no read before has ended behind some
message or among the blank bytes. -/
theorem doRead_stream {lead : Bytes} {ms : List Message} {m : Message} {reads : List Bytes}
    {n k : ℕ} (hL : L.Reads lead ms) (hc : Cut (Message.stream lead ms) reads)
    (hn : n < reads.length) (hk : ms[k]? = some m)
    (hend : (reads.take (n + 1)).flatten = Message.stream lead (ms.take (k + 1)))
    (hbusy : ∀ i, 0 < i → i ≤ n → ¬ (reads.take i).flatten <+: lead ∧
      ∀ k, (reads.take i).flatten ≠ Message.stream lead (ms.take k)) :
    ∃ req doc, doRead L parse h (Connection.new L) reads =
        some (.handled req (h.handleRequest req) (reads.drop (n + 1))) ∧
      req = { (ms.take (k + 1)).foldl Request.absorb {} with
        method := m.method, bodyParams := doc } := by
  obtain ⟨hmethod, Es, hEs, hevents⟩ := hL.complete _ k m hk hend
  have hdata := foldlM_messages hEs {}
  rw [← hevents, ReqData.foldlM_spell] at hdata
  have hrun := @doRead_eq σ δ ε L parse h (Connection.new L) reads n _ hn
    (hL.errno _ (hc.isPrefix_take _))
    (fun i hi hin hzero => by
      obtain ⟨hlead, hmsg⟩ := hbusy i hi hin
      rcases (hL.finish _ (hc.isPrefix_take i)).mp hzero with hzero | ⟨k', hzero⟩
      · exact hlead hzero
      · exact hmsg k' hzero)
    ((hL.finish _ (hc.isPrefix_take _)).mpr (.inr ⟨k + 1, hend⟩)) hdata
  obtain ⟨doc, hdoc⟩ := Request.finish_eq parse
    { (ms.take (k + 1)).foldl Request.absorb {} with method := m.method }
  refine ⟨_, doc, hrun, ?_⟩
  rw [Connection.request, ← hdoc, ← hmethod]
  rfl

/-! ## One message -/

/-- The request is the message, as the callbacks store it. -/
structure Carries (req : Request) (msg : Message) : Prop where
  method : req.method = msg.method
  uri : req.uri = msg.uri
  headers : req.headers = msg.headers.map Header.stored
  body : req.body = msg.body

/-- The loop has handled one request, the message, and has read everything. -/
def HandledOnce (msg : Message) (served : Option (Served σ δ ε)) : Prop :=
  ∃ req outcome, served = some (.handled req outcome []) ∧ req.uri ≠ [] ∧ Carries req msg

section ReadSplitting

variable {lead : Bytes} {msg : Message} {reads : List Bytes}

/-- Reads that go beyond the blank bytes do not matter. -/
theorem handledOnce_of_lt (hL : L.Reads lead [msg]) (hc : Cut (lead ++ msg.text) reads)
    (hfirst : ∀ r, reads.head? = some r → lead.length < r.length) :
    HandledOnce msg (doRead L parse h (Connection.new L) reads) := by
  have hstream : Message.stream lead [msg] = lead ++ msg.text := by simp [Message.stream]
  rw [← hstream] at hc
  obtain ⟨r, rest, rfl⟩ : ∃ r rest, reads = r :: rest := by
    refine List.exists_cons_of_ne_nil fun hnil => ?_
    have := hc.flatten
    rw [hnil, hstream] at this
    exact msg.text_ne_nil (List.append_eq_nil_iff.mp this.symm).2
  have hlong : lead.length < r.length := hfirst r rfl
  have hall : ((r :: rest).take (rest.length + 1)).flatten = Message.stream lead [msg] := by
    rw [List.take_of_length_le (by simp), hc.flatten]
  -- before the last read the bytes go beyond the blank ones and end inside the message
  have hbusy : ∀ i, 0 < i → i ≤ rest.length → ¬ ((r :: rest).take i).flatten <+: lead ∧
      ∀ k, ((r :: rest).take i).flatten ≠ Message.stream lead ([msg].take k) := by
    intro i hi hin
    have hshort := hc.length_lt (Nat.lt_succ_of_le hin) (by simp)
    rw [hall, hstream, List.length_append] at hshort
    have hbeyond : lead.length < ((r :: rest).take i).flatten.length := by
      obtain ⟨i, rfl⟩ := Nat.exists_eq_succ_of_ne_zero hi.ne'
      rw [List.take_succ_cons, List.flatten_cons, List.length_append]
      omega
    refine ⟨fun hpre => ?_, fun k hk => ?_⟩
    · have := hpre.length_le
      omega
    · cases k with
      | zero =>
          rw [hk] at hbeyond
          simp [Message.stream] at hbeyond
      | succ k =>
          rw [hk] at hshort
          simp [Message.stream] at hshort
  obtain ⟨req, doc, hrun, rfl⟩ := @doRead_stream σ δ ε L parse h lead [msg] msg (r :: rest)
    rest.length 0 hL hc (by simp) rfl hall hbusy
  refine ⟨_, _, by rw [hrun, List.drop_of_length_le (by simp)], ?_, ?_⟩
  · simpa [Request.absorb] using msg.uri_ne_nil
  · constructor <;> simp [Request.absorb]

/-- One message behind blank bytes is handled once and as it was sent exactly
when the first read goes beyond the blank bytes. -/
theorem read_splitting_iff (hL : L.Reads lead [msg]) (hc : Cut (lead ++ msg.text) reads) :
    HandledOnce msg (doRead L parse h (Connection.new L) reads) ↔
      ∀ r, reads.head? = some r → lead.length < r.length := by
  refine ⟨fun hhandled r hr => ?_, handledOnce_of_lt hL hc⟩
  by_contra hle
  obtain ⟨rest, rfl⟩ : ∃ rest, reads = r :: rest := List.head?_eq_some_iff.mp hr
  have hstream : Message.stream lead [msg] = lead ++ msg.text := by simp [Message.stream]
  have hblank : r <+: lead := by
    have hpre : r <+: lead ++ msg.text := ⟨rest.flatten, by rw [← hc.flatten, List.flatten_cons]⟩
    exact List.prefix_of_prefix_length_le hpre (List.prefix_append _ _) (by omega)
  have hfed : ((r :: rest).take 1).flatten = r := by simp
  have hpre : ((r :: rest).take 1).flatten <+: Message.stream lead [msg] := by
    rw [hstream]
    exact hc.isPrefix_take 1
  have hsilent := hL.silent ((r :: rest).take 1) (by rwa [hfed])
  -- the parser has finished before the message has begun
  have hrun := @doRead_eq σ δ ε L parse h (Connection.new L) (r :: rest) 0 {} (by simp)
    (hL.errno _ hpre) (fun k hk hk0 => by omega)
    ((hL.finish _ hpre).mpr (.inl (by rwa [hfed])))
    (by rw [show (Connection.new L).parser = L.init from rfl, hsilent]; rfl)
  obtain ⟨req, outcome, hserved, hne, -⟩ := hhandled
  rw [hrun] at hserved
  obtain ⟨doc, hdoc⟩ := Request.finish_eq parse
    { ({} : Request) with method := L.method (L.feed L.init ((r :: rest).take 1)).parser }
  simp only [Option.some.injEq, Served.handled.injEq] at hserved
  refine hne ?_
  rw [← hserved.1, Connection.request]
  exact congrArg Request.uri hdoc

/-- `GET / HTTP/1.0`. -/
def sampleMessage : Message where
  text := lit "GET / HTTP/1.0\r\n\r\n"
  method := 1
  uri := lit "/"
  headers := []
  body := []
  text_ne_nil := by decide
  uri_ne_nil := by decide

/-- The parser on an empty line and the sample message. -/
def sampleRecording : Recording where
  script := Recording.quiet (lit "\r\nGET ") ++
    [(slash, [.url [slash]]), (0x20, [.urlComplete])] ++ Recording.quiet (lit "HTTP/1.0\r\n\r\n")
  finish pos := if pos ≤ 2 ∨ pos = 20 then 0 else 2
  method pos := if pos < 6 then 0 else 1

theorem spells_sampleMessage :
    sampleMessage.Spells (Event.spell [.url (lit "/"), .urlComplete]) :=
  ⟨[], rfl, rfl, rfl⟩

theorem reads_sampleRecording :
    sampleRecording.parser.Reads (lit "\r\n") [sampleMessage] := by
  have hblank : ∀ b ∈ ([0x0D, 0x0A] : Bytes), b = 0x0D ∨ b = 0x0A := by simp
  refine Recording.parser_reads hblank (by decide) (by decide) (by decide)
    (.cons spells_sampleMessage .nil) (by decide) ?_
  intro k m hm
  cases k with
  | zero =>
      obtain rfl : sampleMessage = m := by simpa using hm
      decide
  | succ k => simp at hm

theorem read_splitting_sample :
    HandledOnce sampleMessage (doRead sampleRecording.parser (fun _ => .null)
      ({ staticRoutes := [{}] } : RequestHandler Unit CString)
      (Connection.new sampleRecording.parser) [lit "\r\nGET", lit " / HTTP/1.0\r\n\r\n"]) :=
  (read_splitting_iff reads_sampleRecording ⟨by decide, by decide⟩).mpr fun r hr => by
    obtain rfl : lit "\r\nGET" = r := Option.some.inj hr
    decide

/-- After a read of the empty line the request without a URI is handled, and the
message is not read. -/
theorem read_splitting_fails :
    sampleRecording.parser.Reads (lit "\r\n") [sampleMessage] ∧
      Cut (lit "\r\n" ++ sampleMessage.text) [lit "\r\n", sampleMessage.text] ∧
      ¬ HandledOnce sampleMessage (doRead sampleRecording.parser (fun _ => .null)
        ({ staticRoutes := [{}] } : RequestHandler Unit CString)
        (Connection.new sampleRecording.parser) [lit "\r\n", sampleMessage.text]) := by
  refine ⟨reads_sampleRecording, ⟨by decide, by decide⟩, ?_⟩
  have hrun : doRead sampleRecording.parser (fun _ => .null)
      ({ staticRoutes := [{}] } : RequestHandler Unit CString)
      (Connection.new sampleRecording.parser) [lit "\r\n", sampleMessage.text] =
        some (.handled {} none [sampleMessage.text]) := rfl
  rintro ⟨req, outcome, hserved, -, -⟩
  rw [hrun] at hserved
  simp at hserved

end ReadSplitting

/-! ## Several messages -/

namespace Request

theorem headers_foldl_absorb (ms : List Message) (req : Request) :
    (ms.foldl absorb req).headers =
      req.headers ++ ms.flatMap fun m => m.headers.map Header.stored := by
  induction ms generalizing req with
  | nil => simp
  | cons m ms ih => simp [ih, absorb]

theorem body_foldl_absorb (ms : List Message) (req : Request) :
    (ms.foldl absorb req).body = req.body ++ ms.flatMap Message.body := by
  induction ms generalizing req with
  | nil => simp
  | cons m ms ih => simp [ih, absorb]

theorem uri_foldl_absorb {ms : List Message} {m : Message} (hm : ms.getLast? = some m)
    (req : Request) : (ms.foldl absorb req).uri = m.uri := by
  obtain ⟨A, rfl⟩ := List.getLast?_eq_some_iff.mp hm
  simp [absorb]

end Request

/-- The first `k` messages end where a read ends. -/
def EndsAt (ms : List Message) (reads : List Bytes) (k : ℕ) : Prop :=
  0 < k ∧ k ≤ ms.length ∧ ∃ n, (reads.take n).flatten = Message.stream [] (ms.take k)

/-- The first `k` messages end where a read ends, and no fewer do. -/
def FirstEnd (ms : List Message) (reads : List Bytes) (k : ℕ) : Prop :=
  EndsAt ms reads k ∧ ∀ k', EndsAt ms reads k' → k ≤ k'

/-- Whenever a request is handled it is the message. -/
def OnlyMessage (msg : Message) (served : Option (Served σ δ ε)) : Prop :=
  ∀ req outcome unread, served = some (.handled req outcome unread) → Carries req msg

section Pipelining

variable {ms : List Message} {reads : List Bytes}

theorem exists_firstEnd (hne : ms ≠ []) (hc : Cut (Message.stream [] ms) reads) :
    ∃ k, FirstEnd ms reads (k + 1) := by
  classical
  have hall : ∃ k, EndsAt ms reads k :=
    ⟨ms.length, List.length_pos_iff.mpr hne, le_rfl, reads.length, by simp [hc.flatten]⟩
  have hspec := Nat.find_spec hall
  have hleast : ∀ k', EndsAt ms reads k' → Nat.find hall ≤ k' := fun k' => Nat.find_min' hall
  obtain ⟨k, hk⟩ := Nat.exists_eq_succ_of_ne_zero hspec.1.ne'
  rw [hk] at hspec hleast
  exact ⟨k, hspec, hleast⟩

/-- The loop handles all messages up to the first end of a message at which a
read ends. -/
theorem doRead_firstEnd (hL : L.Reads [] ms) (hc : Cut (Message.stream [] ms) reads) {k : ℕ}
    (hfirst : FirstEnd ms reads (k + 1)) {m : Message} (hm : ms[k]? = some m) :
    ∃ req doc unread, doRead L parse h (Connection.new L) reads =
        some (.handled req (h.handleRequest req) unread) ∧
      req = { (ms.take (k + 1)).foldl Request.absorb {} with
        method := m.method, bodyParams := doc } := by
  obtain ⟨⟨-, hk, n, hn⟩, hmin⟩ := hfirst
  have hpos : 0 < (reads.take n).flatten.length := by
    have := Message.length_stream_take_lt [] (Nat.succ_pos k) hk
    rw [hn]
    exact Nat.zero_lt_of_lt this
  -- the read behind which the messages end
  obtain ⟨i, hi, hend⟩ : ∃ i, i < reads.length ∧
      (reads.take (i + 1)).flatten = Message.stream [] (ms.take (k + 1)) := by
    have hmin : min n reads.length ≠ 0 := by
      intro hzero
      rw [List.take_eq_take_min, hzero] at hpos
      simp at hpos
    obtain ⟨i, hi⟩ := Nat.exists_eq_succ_of_ne_zero hmin
    refine ⟨i, by omega, ?_⟩
    rw [← hn, List.take_eq_take_min (i := n), hi]
  obtain ⟨req, doc, hrun, hreq⟩ := @doRead_stream σ δ ε L parse h [] ms m reads i k hL hc hi hm hend
    fun j hj hji => by
      have hgrown := hc.length_lt hj (by omega)
      refine ⟨fun hpre => ?_, fun k' hk' => ?_⟩
      · rw [List.prefix_nil.mp hpre] at hgrown
        simp at hgrown
      · have hshort := hc.length_lt (Nat.lt_succ_of_le hji) (by omega)
        rw [List.take_eq_take_min (l := ms)] at hk'
        have hends : EndsAt ms reads (min k' ms.length) := by
          refine ⟨Nat.pos_of_ne_zero fun hzero => ?_, Nat.min_le_right _ _, j, hk'⟩
          rw [hk', hzero] at hgrown
          simp at hgrown
        rw [hend, hk'] at hshort
        rcases Nat.lt_or_eq_of_le (hmin _ hends) with hlt | heq
        · have := Message.length_stream_take_lt [] hlt (Nat.min_le_right _ _)
          omega
        · rw [heq] at hshort
          omega
  exact ⟨req, doc, _, hrun, hreq⟩

/-- Several messages in one request are the first of them when the others add
nothing and the last one agrees with it. -/
theorem carries_iff {m₁ m : Message} {k : ℕ} (hm : (m₁ :: ms)[k]? = some m) (doc : Json) :
    Carries { ((m₁ :: ms).take (k + 1)).foldl Request.absorb {} with
        method := m.method, bodyParams := doc } m₁ ↔
      (∀ m' ∈ ms.take k, m'.headers = [] ∧ m'.body = []) ∧
        m.method = m₁.method ∧ m.uri = m₁.uri := by
  have hlast : ((m₁ :: ms).take (k + 1)).getLast? = some m := by
    rw [List.getLast?_take]
    simp [hm]
  have huri := Request.uri_foldl_absorb hlast {}
  have hheaders := Request.headers_foldl_absorb ((m₁ :: ms).take (k + 1)) {}
  have hbody := Request.body_foldl_absorb ((m₁ :: ms).take (k + 1)) {}
  rw [List.take_succ_cons] at huri hheaders hbody ⊢
  simp only [List.flatMap_cons, List.nil_append] at hheaders hbody
  constructor
  · rintro ⟨hmethod, hsame, hsame', hsame''⟩
    simp only [huri, hheaders, hbody, List.append_right_eq_self, List.flatMap_eq_nil_iff,
      List.map_eq_nil_iff] at hmethod hsame hsame' hsame''
    exact ⟨fun m' hm' => ⟨hsame' m' hm', hsame'' m' hm'⟩, hmethod, hsame⟩
  · rintro ⟨hnone, hmethod, hsame⟩
    refine ⟨hmethod, by rw [← hsame]; exact huri, ?_, ?_⟩
    · simp only [hheaders, List.append_right_eq_self, List.flatMap_eq_nil_iff, List.map_eq_nil_iff]
      exact fun m' hm' => (hnone m' hm').1
    · simp only [hbody, List.append_right_eq_self, List.flatMap_eq_nil_iff]
      exact fun m' hm' => (hnone m' hm').2

/-- Only the first message is handled exactly when the messages behind it, up to
the first end of a message at which a read ends, add no header and no body, and
the last of them has its method and its URI. -/
theorem single_message_iff {m₁ : Message} (hL : L.Reads [] (m₁ :: ms))
    (hc : Cut (Message.stream [] (m₁ :: ms)) reads) :
    OnlyMessage m₁ (doRead L parse h (Connection.new L) reads) ↔
      ∀ k, FirstEnd (m₁ :: ms) reads (k + 1) →
        (∀ m ∈ ms.take k, m.headers = [] ∧ m.body = []) ∧
          ∀ m, (m₁ :: ms)[k]? = some m → m.method = m₁.method ∧ m.uri = m₁.uri := by
  constructor
  · intro honly k hfirst
    obtain ⟨m, hm⟩ : ∃ m, (m₁ :: ms)[k]? = some m :=
      ⟨_, List.getElem?_eq_getElem (Nat.lt_of_succ_le hfirst.1.2.1)⟩
    obtain ⟨req, doc, unread, hrun, rfl⟩ := @doRead_firstEnd _ _ _ _ parse h _ _ hL hc _ hfirst _ hm
    obtain ⟨hnone, hsame⟩ := (carries_iff hm doc).mp (honly _ _ _ hrun)
    refine ⟨hnone, fun m' hm' => ?_⟩
    obtain rfl : m = m' := by simpa [hm] using hm'
    exact hsame
  · intro hcond req outcome unread hserved
    obtain ⟨k, hfirst⟩ := exists_firstEnd (List.cons_ne_nil _ _) hc
    obtain ⟨m, hm⟩ : ∃ m, (m₁ :: ms)[k]? = some m :=
      ⟨_, List.getElem?_eq_getElem (Nat.lt_of_succ_le hfirst.1.2.1)⟩
    obtain ⟨req', doc, unread', hrun, rfl⟩ :=
      @doRead_firstEnd _ _ _ _ parse h _ _ hL hc _ hfirst _ hm
    rw [hrun] at hserved
    simp only [Option.some.injEq, Served.handled.injEq] at hserved
    obtain ⟨hnone, hsame⟩ := hcond k hfirst
    rw [← hserved.1]
    exact (carries_iff hm doc).mpr ⟨hnone, hsame m hm⟩

/-- `GET / HTTP/1.1` with its host. -/
def sampleKeepAlive : Message where
  text := lit "GET / HTTP/1.1\r\nHost:a\r\n\r\n"
  method := 1
  uri := lit "/"
  headers := [⟨lit "Host", lit "a"⟩]
  body := []
  text_ne_nil := by decide
  uri_ne_nil := by decide

/-- What the parser does with the sample message. -/
def sampleKeepAliveScript : List (UInt8 × List Event) :=
  Recording.quiet (lit "GET ") ++ [(slash, [.url [slash]]), (0x20, [.urlComplete])] ++
    Recording.quiet (lit "HTTP/1.1\r\n") ++ (lit "Host").map (fun b => (b, [.headerField [b]])) ++
    [(0x3A, [.headerFieldComplete]), (0x61, [.headerValue [0x61]])] ++
    Recording.quiet (lit "\r\n") ++ [(0x0D, [.headerValueComplete]), (0x0A, [])]

/-- The parser on the sample message, sent twice. -/
def sampleTwice : Recording where
  script := sampleKeepAliveScript ++ sampleKeepAliveScript
  finish pos := if pos = 0 ∨ pos = 26 ∨ pos = 52 then 0 else 2
  method pos := if pos < 4 then 0 else 1

theorem spells_sampleKeepAlive : sampleKeepAlive.Spells
    (Event.spell [.url (lit "/"), .urlComplete, .headerField (lit "Host"), .headerFieldComplete,
      .headerValue (lit "a"), .headerValueComplete]) :=
  ⟨[.header ⟨lit "Host", lit "a"⟩], rfl, rfl, rfl⟩

theorem reads_sampleTwice : sampleTwice.parser.Reads [] [sampleKeepAlive, sampleKeepAlive] := by
  refine Recording.parser_reads (by simp) (by decide) (by decide) (by decide)
    (.cons spells_sampleKeepAlive (.cons spells_sampleKeepAlive .nil)) (by decide) ?_
  intro k m hm
  match k with
  | 0 =>
      obtain rfl : sampleKeepAlive = m := by simpa using hm
      decide
  | 1 =>
      obtain rfl : sampleKeepAlive = m := by simpa using hm
      decide
  | k + 2 => simp at hm

theorem single_message_sample :
    OnlyMessage sampleKeepAlive (doRead sampleTwice.parser (fun _ => .null)
      ({ staticRoutes := [{}] } : RequestHandler Unit CString)
      (Connection.new sampleTwice.parser) [sampleKeepAlive.text, sampleKeepAlive.text]) := by
  refine (single_message_iff reads_sampleTwice ⟨by decide, by decide⟩).mpr fun k hfirst => ?_
  have hle : k + 1 ≤ 1 := hfirst.2 1 ⟨Nat.one_pos, by decide, 1, by decide⟩
  obtain rfl : k = 0 := by omega
  refine ⟨fun m hm => absurd hm (by simp), fun m hm => ?_⟩
  obtain rfl : sampleKeepAlive = m := by simpa using hm
  exact ⟨rfl, rfl⟩

/-- In one read the headers of both messages are in the request. -/
theorem single_message_fails :
    sampleTwice.parser.Reads [] [sampleKeepAlive, sampleKeepAlive] ∧
      Cut (Message.stream [] [sampleKeepAlive, sampleKeepAlive])
        [sampleKeepAlive.text ++ sampleKeepAlive.text] ∧
      ¬ OnlyMessage sampleKeepAlive (doRead sampleTwice.parser (fun _ => .null)
        ({ staticRoutes := [{}] } : RequestHandler Unit CString)
        (Connection.new sampleTwice.parser) [sampleKeepAlive.text ++ sampleKeepAlive.text]) := by
  refine ⟨reads_sampleTwice, ⟨by decide, by decide⟩, fun honly => ?_⟩
  have hrun : ∃ req outcome, doRead sampleTwice.parser (fun _ => .null)
      ({ staticRoutes := [{}] } : RequestHandler Unit CString)
      (Connection.new sampleTwice.parser) [sampleKeepAlive.text ++ sampleKeepAlive.text] =
        some (.handled req outcome []) ∧ req.headers.length = 2 := ⟨_, _, rfl, rfl⟩
  obtain ⟨req, outcome, hrun, hlen⟩ := hrun
  have hheaders := (honly _ _ _ hrun).headers
  rw [hheaders] at hlen
  simp [sampleKeepAlive] at hlen

end Pipelining

end RePlace.Http
