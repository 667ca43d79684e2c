import InventoryFeed.Proofs.Event.Form
import InventoryFeed.Proofs.Event.Publisher
import InventoryFeed.Proofs.Stream.Taking

/-!
# What feeds leave in an event log

As long as the log's file has room, a feed leaves behind the text of its messages, each followed by a newline,
and holds nothing back. No message has a newline in its text, so the log cut at its newlines is the messages of
all feeds, one on each line, and each line is read as its message.
-/

namespace InventoryFeed

section

variable {m : Type → Type} [Monad m] {γ : Type} [Historied m γ] {κ : Type}

/-- What is known of a bus that takes every message: what holds of its state and of the history after some
messages, and after the flush that follows them. -/
structure EventBus.Takes (bus : EventBus m κ) (kept flushed : List EventMessage → κ → γ → Prop) : Prop where
  /-- A message is taken behind those before it. -/
  append : ∀ message messages k g, kept messages k g → Ensures (bus.append message k) g fun r g' =>
    r.1 = none ∧ kept (messages ++ [message]) r.2 g'
  /-- A flush follows. -/
  flush : ∀ messages k g, kept messages k g → Ensures (bus.flush k) g fun r g' => flushed messages r.2 g'

variable {bus : EventBus m κ} {kept flushed : List EventMessage → κ → γ → Prop}

theorem EventBus.Takes.consumer (hbus : bus.Takes kept flushed) : bus.consumer.Takes kept flushed where
  deliver := by
    intro message messages k g hkept
    refine (hbus.append message messages k g hkept).bind ?_
    rintro ⟨failure, k'⟩ g' ⟨hnone, hkept'⟩
    obtain rfl : failure = none := hnone
    exact .pure ⟨rfl, hkept'⟩
  close := by
    intro messages k g hkept
    exact (hbus.flush messages k g hkept).bind fun r g' hflushed => .pure hflushed

namespace Publisher

/-- A publisher of which no message was lost. -/
structure Holds (kept : List EventMessage → κ → γ → Prop) (job : Job) (rows : List Row) (p : Publisher κ)
    (g : γ) : Prop where
  /-- The messages are of the job. -/
  job_eq : p.job = job
  /-- Each row was given a number. -/
  clock_eq : p.clock = rows.length
  /-- Rows may still come. -/
  running : p.finished = false
  /-- The queue accounts for the messages of the rows. -/
  out : p.out.Holds kept (messages job rows) g

variable {job : Job} {rows : List Row} {p : Publisher κ} {g : γ}

theorem start_holds (job : Job) (marks : Marks) (pace : List Stride) {k : κ} (h : kept [] k g) :
    (start job marks pace k).Holds kept job [] g :=
  ⟨rfl, rfl, rfl, Outbound.start_holds marks pace h⟩

theorem write_holds (hbus : bus.Takes kept flushed) (row : Row) (h : p.Holds kept job rows g) :
    Ensures (p.write bus row) g fun r g' => r.2.Holds kept job (rows ++ [row]) g' := by
  rw [write, if_neg (by simp [h.running])]
  refine (Outbound.push_holds hbus.consumer _ 1 h.out).bind ?_
  rintro ⟨answer, out⟩ g' hout
  rw [h.job_eq, h.clock_eq, ← messages_concat] at hout
  exact .pure ⟨h.job_eq, by simp [h.clock_eq], h.running, hout⟩

theorem awaitDrain_holds (hbus : bus.Takes kept flushed) (h : p.Holds kept job rows g) :
    Ensures (p.awaitDrain bus) g fun r g' => r.2.Holds kept job rows g' := by
  refine (Outbound.awaitDrain_holds hbus.consumer h.out).bind ?_
  rintro ⟨answer, out⟩ g' hout
  exact .pure ⟨h.job_eq, h.clock_eq, h.running, hout⟩

/-- At its end, the bus has taken a message for each row, and was flushed. -/
theorem finish_holds (hbus : bus.Takes kept flushed) (h : p.Holds kept job rows g) :
    Ensures (p.finish bus) g fun r g' =>
      r.1 = .ok () ∧ flushed (messages job rows) r.2.out.consumer g' := by
  rw [finish, if_neg (by simp [h.running])]
  refine (Outbound.finish_holds hbus.consumer h.out).bind ?_
  rintro ⟨answer, out⟩ g' ⟨hanswer, hflushed⟩
  exact .pure ⟨hanswer, hflushed⟩

end Publisher

end

namespace EventLog

/-- The text of messages, a newline behind each. -/
def linesOf (messages : List EventMessage) : List Char := messages.flatMap fun message => message.write ++ ['\n']

/-- The whole text of a log whose file has room: what was written and what is held back. -/
def Has (text : List Char) (log : EventLog) : Prop := log.full = false ∧ log.text ++ log.held = text

/-- A text without bytes has no characters. -/
theorem eq_nil_of_byteCount {text : List Char} (h : byteCount text = 0) : text = [] := by
  have hgrows : ∀ (rest : List Char) (count : Nat),
      count ≤ rest.foldl (fun count c => count + c.utf8Size) count := by
    intro rest
    induction rest with
    | nil => exact Nat.le_refl
    | cons c rest ih => exact fun count => (Nat.le_add_right count c.utf8Size).trans (ih _)
  cases text with
  | nil => rfl
  | cons c rest =>
    have hcount : 0 + c.utf8Size ≤ byteCount (c :: rest) := hgrows rest (0 + c.utf8Size)
    have hpos : 0 < c.utf8Size := c.utf8Size_pos
    omega

/-- What is held back is written where there is room. -/
theorem pushOut_has {text : List Char} {log : EventLog} (h : log.Has text) :
    log.pushOut = (true, { text, held := [], full := false }) := by
  obtain ⟨hfull, rfl⟩ := h
  rw [pushOut]
  split
  · rename_i hempty
    have hheld : log.held = [] := List.isEmpty_iff.mp hempty
    rw [hheld, List.append_nil, ← hfull, ← hheld]
  · rw [if_neg (by simp [hfull]), hfull]

/-- A line is taken behind the text, whether it is held back, makes what is held back go first, or is written at
once. -/
theorem takeLine_has {text : List Char} {log : EventLog} (line : List Char) (h : log.Has text) :
    ∃ next, log.takeLine line = (true, next) ∧ next.Has (text ++ line) := by
  -- Nothing is held back any more when a line comes that does not fit at all.
  have hroom : ∃ next : EventLog, next.Has text ∧ (capacity ≤ byteCount line → next.held = []) ∧
      (if byteCount log.held + byteCount line > capacity then log.pushOut else (true, log)) =
        (true, next) := by
    split
    · rw [pushOut_has h]
      exact ⟨_, ⟨rfl, List.append_nil text⟩, fun _ => rfl, rfl⟩
    · rename_i hfits
      refine ⟨log, h, fun hlong => eq_nil_of_byteCount ?_, rfl⟩
      omega
  obtain ⟨next, ⟨hfull, hnext⟩, hheld, hmade⟩ := hroom
  rw [takeLine, hmade]
  dsimp only
  rw [if_neg (by decide)]
  split
  · refine ⟨_, rfl, hfull, ?_⟩
    rw [← List.append_assoc, hnext]
  · rename_i hlong
    have hempty := hheld (Nat.le_of_not_lt hlong)
    rw [if_neg (by simp [hfull])]
    refine ⟨_, rfl, hfull, ?_⟩
    rw [hempty, List.append_nil] at hnext
    simp only [hempty, hnext, List.append_nil]

/-- A log whose file has room takes every message, each on a line of its own behind the old text. -/
theorem bus_takes (old : List Char) :
    (EventLog.bus : EventBus Id EventLog).Takes (fun messages log _ => log.Has (old ++ linesOf messages))
      fun messages log _ => log = { text := old ++ linesOf messages } where
  append := by
    intro message messages log g h
    obtain ⟨next, htaken, hnext⟩ := takeLine_has (message.write ++ ['\n']) h
    have hlines : linesOf (messages ++ [message]) = linesOf messages ++ (message.write ++ ['\n']) := by
      simp [linesOf]
    have happend : EventLog.bus.append message log = (pure (none, next) : Id _) := by
      simp only [EventLog.bus, htaken, if_true]
    rw [happend]
    refine .pure ⟨rfl, ?_⟩
    rwa [hlines, ← List.append_assoc]
  flush := by
    intro messages log g h
    exact .pure (congrArg Prod.snd (pushOut_has h))

end EventLog

namespace Feed

variable {job : Job} {rows : List Row} {kept flushed : List EventMessage → EventLog → Unit → Prop}
  {p : Publisher EventLog}

/-- A call accounts for the row that it writes. -/
theorem call_holds (hbus : (EventLog.bus : EventBus Id EventLog).Takes kept flushed) (c : FeedCall)
    (h : p.Holds kept job rows ()) :
    Ensures (call p c) () fun p' _ => p'.Holds kept job (rows ++ c.row?.toList) () := by
  cases c with
  | write row =>
    refine (Publisher.write_holds hbus row h).bind ?_
    rintro ⟨answer, p'⟩ _ h'
    exact .pure h'
  | wait =>
    refine (Publisher.awaitDrain_holds hbus h).bind ?_
    rintro ⟨answer, p'⟩ _ h'
    refine .pure ?_
    rw [FeedCall.row?, Option.toList_none, List.append_nil]
    exact h'

/-- Several calls account for the rows that they write. -/
theorem callAll_holds (hbus : (EventLog.bus : EventBus Id EventLog).Takes kept flushed)
    (calls : List FeedCall) (h : p.Holds kept job rows ()) :
    Ensures (callAll p calls) () fun p' _ =>
      p'.Holds kept job (rows ++ calls.filterMap FeedCall.row?) () := by
  induction calls generalizing p rows with
  | nil => exact .pure (by simpa using h)
  | cons first rest ih =>
    refine (call_holds hbus first h).bind ?_
    intro p' _ h'
    have hrows : rows ++ (first :: rest).filterMap FeedCall.row? =
        rows ++ first.row?.toList ++ rest.filterMap FeedCall.row? := by
      cases hfirst : first.row? <;> simp [hfirst]
    rw [hrows]
    exact ih h'

/-- The messages of a feed. -/
def messages (f : Feed) : List EventMessage := Publisher.messages f.job f.rows

/-- A message of a feed has one header. -/
theorem headers_ascend (f : Feed) {message : EventMessage} (h : message ∈ f.messages) :
    (message.headers.map Prod.fst).Pairwise (· < ·) := by
  obtain ⟨i, hi, rfl⟩ := List.mem_mapIdx.mp h
  exact List.pairwise_singleton _ _

/-- A feed leaves the text of its messages behind the old text, and holds nothing back. -/
theorem run_eq (f : Feed) (old : List Char) :
    (f.run { text := old }).run = { text := old ++ EventLog.linesOf f.messages } := by
  have hbus := EventLog.bus_takes old
  have hhandle : (f.handle { text := old }).Has (old ++ EventLog.linesOf []) := by
    rw [handle, ite_self]
    exact ⟨rfl, rfl⟩
  have hrun : Ensures (f.run { text := old }) () fun log _ =>
      log = { text := old ++ EventLog.linesOf f.messages } := by
    refine (callAll_holds hbus f.calls (Publisher.start_holds f.job f.marks f.pace hhandle)).bind ?_
    intro p _ hp
    refine (Publisher.finish_holds hbus hp).bind ?_
    rintro ⟨answer, p'⟩ _ ⟨-, hflushed⟩
    exact .pure hflushed
  exact hrun _ () rfl

end Feed

namespace EventLog

/-- Feeds that follow one another leave the texts of their messages in their order. -/
theorem afterFeeds_eq (feeds : List Feed) (old : List Char) :
    afterFeeds { text := old } feeds = { text := old ++ linesOf (feeds.flatMap Feed.messages) } := by
  induction feeds generalizing old with
  | nil => simp [afterFeeds, linesOf]
  | cons first rest ih =>
    rw [afterFeeds, first.run_eq, ih, List.append_assoc, linesOf, linesOf, linesOf, List.flatMap_cons,
      List.flatMap_append]

theorem linesOf_eq_intercalate (messages : List EventMessage) :
    linesOf messages = ['\n'].intercalate (messages.map EventMessage.write ++ [[]]) := by
  induction messages with
  | nil => rfl
  | cons message rest ih =>
    rw [List.map_cons, List.cons_append, List.intercalate_cons_of_ne_nil (by simp), ← ih]
    rfl

/-- Cut at its newlines, the text of messages is one line for each, and an empty end. -/
theorem splitOn_linesOf (messages : List EventMessage) :
    (linesOf messages).splitOn '\n' = messages.map EventMessage.write ++ [[]] := by
  rw [linesOf_eq_intercalate]
  refine List.splitOn_intercalate '\n' ?_ (by simp)
  intro line hline
  rcases List.mem_append.mp hline with hline | hline
  · obtain ⟨message, -, rfl⟩ := List.mem_map.mp hline
    exact message.newline_not_mem_write
  · rw [List.mem_singleton.mp hline]
    exact List.not_mem_nil

theorem getLast?_linesOf {messages : List EventMessage} (h : linesOf messages ≠ []) :
    (linesOf messages).getLast? = some '\n' := by
  rcases List.eq_nil_or_concat messages with rfl | ⟨first, last, rfl⟩
  · exact absurd rfl h
  · rw [linesOf, List.concat_eq_append, List.flatMap_append]
    simp

/-- After any feeds, the log holds nothing back, ends in a newline unless it is empty, and cut at its newlines
is the texts of the messages of all feeds in their order, an empty end behind them. The text of a message
whose record has no doubles and which is not nested too deep is read back as the message, a record that is null
as none, and names the same job. -/
theorem afterFeeds_read_back (feeds : List Feed) :
    ∃ text, afterFeeds {} feeds = { text } ∧ (text ≠ [] → text.getLast? = some '\n') ∧
      text.splitOn '\n' = (feeds.flatMap Feed.messages).map EventMessage.write ++ [[]] ∧
      ∀ message ∈ feeds.flatMap Feed.messages, message.payload.ts < Word.unsignedEnd →
        (∀ doc ∈ message.payload.record, doc.Exact ∧ doc.Proper) →
        Json.nesting message.compact ≤ Json.maxNesting →
        ∃ read, EventMessage.read message.compact = some read ∧ read = message.withoutNull ∧
          read.jobId? = message.jobId? := by
  refine ⟨linesOf (feeds.flatMap Feed.messages), afterFeeds_eq feeds [], getLast?_linesOf,
    splitOn_linesOf _, ?_⟩
  intro message hmessage hts hrecord hnesting
  obtain ⟨f, -, hf⟩ := List.mem_flatMap.mp hmessage
  exact ⟨_, EventMessage.read_compact (f.headers_ascend hf) hts (fun doc hdoc => (hrecord doc hdoc).1)
    (fun doc hdoc => (hrecord doc hdoc).2) hnesting, rfl, rfl⟩

end EventLog

/-- An authority with a null record, one with a newline in its record, and an iteration over the same file. -/
def hostileFeeds : List Feed := [
  { job := .reindex "job\n1" .authorities "now"
    marks := .events
    pace := [⟨0, true⟩]
    calls := [.write ⟨"a\nb", some .null⟩, .wait, .write ⟨"\"", some (.object [("x\n", .text "\r\n")])⟩]
    reopens := false },
  { job := .iteration "job 2" ⟨"t\no", none⟩ "now"
    marks := .events
    pace := []
    calls := [.write (.idOnly "c")]
    reopens := true }]

/-- Three lines, each of them read back. -/
theorem EventLog.afterFeeds_read_back_hostile : ∃ text lines, afterFeeds {} hostileFeeds = { text } ∧
    text.splitOn '\n' = lines ++ [[]] ∧ lines.length = 3 ∧
    ∀ message ∈ hostileFeeds.flatMap Feed.messages, message.write ∈ lines ∧
      EventMessage.read message.compact = some message.withoutNull := by
  obtain ⟨text, htext, -, hlines, hread⟩ := afterFeeds_read_back hostileFeeds
  refine ⟨text, _, htext, hlines, rfl, fun message hmessage => ⟨List.mem_map_of_mem hmessage, ?_⟩⟩
  have hfits : message.payload.ts < Word.unsignedEnd ∧
      (∀ doc ∈ message.payload.record, doc.Exact ∧ doc.Proper) ∧
      Json.nesting message.compact ≤ Json.maxNesting := by
    rw [EventMessage.nesting_compact]
    rcases hmessage with _ | ⟨_, _ | ⟨_, _ | ⟨_, _ | _⟩⟩⟩
    · refine ⟨by decide, ?_, by decide⟩
      rintro doc ⟨⟩
      exact ⟨trivial, trivial⟩
    · refine ⟨by decide, ?_, by decide⟩
      rintro doc ⟨⟩
      exact ⟨⟨trivial, trivial⟩, List.pairwise_singleton _ _, trivial, trivial⟩
    · refine ⟨by decide, ?_, by decide⟩
      rintro doc ⟨⟩
  obtain ⟨hts, hrecord, hnesting⟩ := hfits
  obtain ⟨read, hread, rfl, -⟩ := hread message hmessage hts hrecord hnesting
  exact hread

end InventoryFeed
