import InventoryFeed.Http.Reply
import InventoryFeed.Proofs.Http.Whole

/-!
# Replies read back

A head that was made is read as its lines, whatever follows it. So an error is read as one reply with the
length of its body, and a stream that is whole as one reply with its body; a stream of which the end is
missing is no reply, nor is any first part of it.
-/

namespace InventoryFeed.Http

/-- A character of one byte that does not begin the end of a line. -/
def isPlain (c : Char) : Bool := c.toNat < 128 && c != '\r'

theorem utf8EncodeChar_ofNat : ∀ n < 128, n ≠ 13 →
    (String.utf8EncodeChar (Char.ofNat n)).all isInLine = true := by
  decide

theorem isInLine_of_plain {line : List Char} (h : line.all isPlain = true) :
    ∀ byte ∈ bytes line, isInLine byte = true := by
  intro byte hbyte
  obtain ⟨c, hc, hbyte⟩ := List.mem_flatMap.mp hbyte
  obtain ⟨hsmall, hne⟩ : c.toNat < 128 ∧ c ≠ '\r' := by
    simpa [isPlain] using List.all_eq_true.mp h c hc
  have hnot : c.toNat ≠ 13 := by
    intro hsame
    refine hne ?_
    rw [← Char.ofNat_toNat c, hsame]
  have hall := utf8EncodeChar_ofNat c.toNat hsmall hnot
  rw [Char.ofNat_toNat] at hall
  exact List.all_eq_true.mp hall byte hbyte

/-- A line that was made is read back. -/
theorem readLine_bytes {line : List Char} (h : line.all isPlain = true) (rest : List UInt8) :
    readLine (bytes (line ++ lineEnd) ++ rest) = some (line, rest) := by
  have hin := isInLine_of_plain h
  have hend : bytes (line ++ lineEnd) ++ rest = bytes line ++ 13 :: 10 :: rest := by
    rw [bytes_append, List.append_assoc]
    rfl
  have hstop : ∀ more : List UInt8, (13 :: more).takeWhile isInLine = [] ∧
      (13 :: more).dropWhile isInLine = 13 :: more := fun more => ⟨rfl, rfl⟩
  rw [hend, readLine_eq_some]
  refine ⟨?_, ?_⟩
  · rw [List.dropWhile_append_of_pos hin, (hstop _).2]
    rfl
  · rw [List.takeWhile_append_of_pos hin, (hstop _).1, List.append_nil, textOf_bytes]

theorem readHead_of_none {wire : List UInt8} (h : readLine wire = none) : readHead wire = none := by
  rw [readHead]
  split <;> simp_all

theorem readHead_of_empty {wire rest : List UInt8} (h : readLine wire = some ([], rest)) :
    readHead wire = some ([], rest) := by
  rw [readHead]
  split <;> simp_all

theorem readHead_of_line {wire rest : List UInt8} {line : List Char}
    (h : readLine wire = some (line, rest)) (hline : line ≠ []) :
    readHead wire = (readHead rest).map fun (lines, after) => (line :: lines, after) := by
  rw [readHead]
  split <;> simp_all

/-- A head that was made is read up to its empty line. -/
theorem readHead_lines {texts : List String}
    (h : ∀ text ∈ texts, text.toList ≠ [] ∧ text.toList.all isPlain = true) (rest : List UInt8) :
    readHead (bytes (lines (texts ++ [""])) ++ rest) = some (texts.map String.toList, rest) := by
  induction texts with
  | nil =>
    have hplain : ([] : List Char).all isPlain = true := rfl
    exact readHead_of_empty (readLine_bytes hplain rest)
  | cons text texts ih =>
    obtain ⟨hne, hplain⟩ := h text (.head _)
    have hsplit : bytes (lines (text :: texts ++ [""])) ++ rest =
        bytes (text.toList ++ lineEnd) ++ (bytes (lines (texts ++ [""])) ++ rest) := by
      rw [← List.append_assoc, ← bytes_append]
      rfl
    rw [hsplit, readHead_of_line (readLine_bytes hplain _) hne,
      ih fun other hother => h other (.tail _ hother)]
    rfl

/-- A line that is read from the first part of some bytes is read from all of them. -/
theorem readLine_append {wire rest : List UInt8} {line : List Char} (more : List UInt8)
    (h : readLine wire = some (line, rest)) : readLine (wire ++ more) = some (line, rest ++ more) := by
  obtain ⟨hrest, htext⟩ := readLine_eq_some.mp h
  have hstop : wire.dropWhile isInLine ≠ [] := by
    intro hnil
    rw [hnil] at hrest
    cases hrest
  obtain ⟨htake, hdrop⟩ := takeWhile_dropWhile_append more hstop
  refine readLine_eq_some.mpr ⟨?_, by rw [htake, htext]⟩
  rw [hdrop, afterLineEnd_append more hrest]

/-- So is a head. -/
theorem readHead_append {wire after : List UInt8} {head : List (List Char)} (more : List UInt8)
    (h : readHead wire = some (head, after)) :
    readHead (wire ++ more) = some (head, after ++ more) := by
  fun_induction readHead wire generalizing head after with
  | case1 => cases h
  | case2 wire rest hline =>
    cases h
    exact readHead_of_empty (readLine_append more hline)
  | case3 wire line rest hne hline ih =>
    obtain ⟨⟨lines, after'⟩, hhead, h⟩ := Option.map_eq_some_iff.mp h
    cases h
    rw [readHead_of_line (readLine_append more hline) hne, ih hhead]
    rfl

/-- What is read from the first part of some bytes of which the head is known: nothing, or what is read
behind that head. -/
theorem reply_of_head {wire whole rest : List UInt8} {head : List (List Char)} (h : wire <+: whole)
    (hhead : readHead whole = some (head, rest)) :
    reply? .chunked wire = none ∨
      ∃ after, after <+: rest ∧ reply? .chunked wire = replyBehind? head after := by
  unfold reply?
  dsimp only
  cases hread : readHead wire with
  | none => exact .inl rfl
  | some read =>
    obtain ⟨front, after⟩ := read
    obtain ⟨more, rfl⟩ := h
    obtain ⟨rfl, rfl⟩ := Prod.mk.inj (Option.some.inj ((readHead_append more hread).symm.trans hhead))
    exact .inr ⟨after, List.prefix_append _ _, rfl⟩

theorem replyBehind_eq {first : List Char} {fields : List (List Char)} {rest body : List UInt8}
    {status : Nat} {stated : Option Nat} (hstatus : statusOf? first = some status)
    (hbody : bodyBehind? fields rest = some (stated, body)) :
    replyBehind? (first :: fields) rest = some ⟨some status, stated, body⟩ := by
  change (statusOf? first).bind _ = _
  rw [hstatus, Option.bind_some, hbody]
  rfl

theorem replyBehind_of_none (first : List Char) {fields : List (List Char)} {rest : List UInt8}
    (hbody : bodyBehind? fields rest = none) : replyBehind? (first :: fields) rest = none := by
  change (statusOf? first).bind _ = _
  rw [hbody]
  exact Option.bind_eq_none_iff.mpr fun _ _ => rfl

/-- The lines of the head of a stream. -/
def streamLines : List String :=
  ["HTTP/1.1 200 OK", "Content-Type: application/json", "Transfer-Encoding: chunked"]

theorem readHead_stream (rest : List UInt8) :
    readHead (streamHead ++ rest) = some (streamLines.map String.toList, rest) := by
  have hlines : ∀ text ∈ streamLines, text.toList ≠ [] ∧ text.toList.all isPlain = true := by decide
  exact readHead_lines hlines rest

/-- Behind the head of a stream the body is in chunks. -/
theorem bodyBehind_stream (rest : List UInt8) :
    bodyBehind? (streamLines.tail.map String.toList) rest =
      match readChunks rest with
      | some (body, []) => some (none, body)
      | _ => none :=
  if_pos (by decide)

theorem statusOf_stream : statusOf? "HTTP/1.1 200 OK".toList = some 200 := by decide

/-- A stream that is read to its end is one reply. -/
theorem reply_of_readChunks {rest body : List UInt8} (h : readChunks rest = some (body, [])) :
    reply? .chunked (streamHead ++ rest) = some ⟨some 200, none, body⟩ := by
  have hbody := bodyBehind_stream rest
  rw [h] at hbody
  unfold reply?
  dsimp only
  rw [readHead_stream]
  exact replyBehind_eq statusOf_stream hbody

theorem isPlain_of_isDigit {c : Char} (h : Ascii.isDigit c = true) : isPlain c = true := by
  simp only [Ascii.isDigit, Bool.and_eq_true, decide_eq_true_eq, Char.le_def,
    UInt32.le_iff_toNat_le] at h
  change 48 ≤ c.toNat ∧ c.toNat ≤ 57 at h
  have hne : c ≠ '\r' := by
    rintro rfl
    exact absurd h.1 (by decide)
  rw [isPlain, Bool.and_eq_true]
  exact ⟨decide_eq_true (by omega), bne_iff_ne.mpr hne⟩

theorem all_isPlain_toDigits (n : Nat) : (Nat.toDigits 10 n).all isPlain = true :=
  List.all_eq_true.mpr fun _ hc => isPlain_of_isDigit (Ascii.isDigit_of_mem_toDigits hc)

theorem decimalOf_toDigits (n : Nat) : decimalOf? (Nat.toDigits 10 n) = some n := by
  have hdigits : (Nat.toDigits 10 n).all Ascii.isDigit = true :=
    List.all_eq_true.mpr fun _ => Ascii.isDigit_of_mem_toDigits
  rw [decimalOf?, if_pos ⟨Nat.toDigits_ne_nil, hdigits⟩, Ascii.ofDigits_toDigits]

/-- A field on its line is read as its value. -/
theorem fieldOn_line {label value : List Char} (hlabel : label.all (· != ':') = true)
    (hvalue : ∀ c ∈ value.head?, (c == ' ') = false) (name : String) :
    fieldOn? name (label ++ ':' :: ' ' :: value) =
      if Ascii.sameIgnoringCase (String.ofList label) name then some value else none := by
  have hfront : (label ++ ':' :: ' ' :: value).takeWhile (· != ':') = label := by
    rw [List.takeWhile_append_of_pos (List.all_eq_true.mp hlabel)]
    exact List.append_nil _
  have hback : (label ++ ':' :: ' ' :: value).dropWhile (· != ':') = ':' :: ' ' :: value := by
    rw [List.dropWhile_append_of_pos (List.all_eq_true.mp hlabel)]
    rfl
  have htrimmed : (' ' :: value).dropWhile (· == ' ') = value := by
    change value.dropWhile _ = value
    cases value with
    | nil => rfl
    | cons c rest => rw [List.dropWhile_cons, hvalue c rfl, if_neg Bool.false_ne_true]
  rw [fieldOn?, hfront, hback]
  change (if _ then some ((' ' :: value).dropWhile _) else none) = _
  rw [htrimmed]

theorem ne_blank_of_isDigit {c : Char} (h : Ascii.isDigit c = true) : (c != ' ') = true := by
  cases hsame : c != ' ' with
  | true => rfl
  | false =>
    rw [bne_eq_false_iff_eq.mp hsame] at h
    exact absurd h (by decide)

/-- The status line of an error. -/
def errorStatus (status : Nat) (reason : String) : String :=
  "HTTP/1.1 " ++ toString status ++ " " ++ reason

/-- The fields of the head of an error. -/
def errorFields (length : Nat) : List String :=
  ["Content-Type: application/json", "Content-Length: " ++ toString length, "Connection: close"]

theorem toList_errorStatus (status : Nat) (reason : String) :
    (errorStatus status reason).toList =
      "HTTP/1.1 ".toList ++ (Nat.toDigits 10 status ++ ' ' :: reason.toList) := by
  simp [errorStatus]

theorem toList_length (length : Nat) : ("Content-Length: " ++ toString length).toList =
    "Content-Length".toList ++ ':' :: ' ' :: Nat.toDigits 10 length := by
  simp

theorem statusOf_error (status : Nat) (reason : String) :
    statusOf? (errorStatus status reason).toList = some status := by
  have hdigits : ∀ c ∈ Nat.toDigits 10 status, (c != ' ') = true :=
    fun _ hc => ne_blank_of_isDigit (Ascii.isDigit_of_mem_toDigits hc)
  have hfront : (Nat.toDigits 10 status ++ ' ' :: reason.toList).takeWhile (· != ' ') =
      Nat.toDigits 10 status := by
    rw [List.takeWhile_append_of_pos hdigits]
    exact List.append_nil _
  rw [toList_errorStatus, statusOf?, List.isPrefixOf?_eq_some_iff_append_eq.mpr rfl]
  change decimalOf? ((Nat.toDigits 10 status ++ ' ' :: reason.toList).takeWhile _) = _
  rw [hfront, decimalOf_toDigits]

/-- The head of an error is read as its lines. -/
theorem readHead_error (status : Nat) {reason : String} (hreason : reason.toList.all isPlain = true)
    (length : Nat) (rest : List UInt8) :
    readHead (errorHead status reason length ++ rest) =
      some ((errorStatus status reason).toList :: (errorFields length).map String.toList, rest) := by
  have hstatus : (errorStatus status reason).toList ≠ [] ∧
      (errorStatus status reason).toList.all isPlain = true := by
    rw [toList_errorStatus, List.all_append, List.all_append, List.all_cons, hreason,
      all_isPlain_toDigits]
    exact ⟨List.cons_ne_nil _ _, by decide⟩
  have hlength : ("Content-Length: " ++ toString length).toList ≠ [] ∧
      ("Content-Length: " ++ toString length).toList.all isPlain = true := by
    rw [toList_length, List.all_append, List.all_cons, List.all_cons, all_isPlain_toDigits]
    exact ⟨List.cons_ne_nil _ _, by decide⟩
  have hlines : ∀ text ∈ errorStatus status reason :: errorFields length,
      text.toList ≠ [] ∧ text.toList.all isPlain = true :=
    List.forall_mem_cons.mpr ⟨hstatus, List.forall_mem_cons.mpr ⟨by decide,
      List.forall_mem_cons.mpr ⟨hlength, by decide⟩⟩⟩
  exact readHead_lines hlines rest

/-- Behind the head of an error the body is as long as the head states. -/
theorem bodyBehind_error (body : List UInt8) :
    bodyBehind? ((errorFields body.length).map String.toList) body =
      some (some body.length, body) := by
  have hdigits : ∀ c ∈ (Nat.toDigits 10 body.length).head?, (c == ' ') = false := by
    intro c hc
    have hdigit := Ascii.isDigit_of_mem_toDigits (List.mem_of_mem_head? hc)
    simpa using ne_blank_of_isDigit hdigit
  have hlabel : "Content-Length".toList.all (· != ':') = true := by decide
  have hstated (name : String) := fieldOn_line hlabel hdigits name
  have hfields : (errorFields body.length).map String.toList =
      ["Content-Type: application/json".toList,
        "Content-Length".toList ++ ':' :: ' ' :: Nat.toDigits 10 body.length,
        "Connection: close".toList] := by
    rw [← toList_length]
    rfl
  have hchunked : field? "transfer-encoding" ((errorFields body.length).map String.toList) = none := by
    rw [hfields, field?, List.findSome?_eq_none_iff]
    refine List.forall_mem_cons.mpr ⟨by decide, List.forall_mem_cons.mpr ⟨?_, by decide⟩⟩
    exact (hstated _).trans (if_neg (by decide))
  have hlength : field? "content-length" ((errorFields body.length).map String.toList) =
      some (Nat.toDigits 10 body.length) := by
    have hother : fieldOn? "content-length" "Content-Type: application/json".toList = none := by decide
    rw [hfields, field?, List.findSome?_cons, hother]
    dsimp only
    rw [List.findSome?_cons, hstated, if_pos (by decide)]
  rw [bodyBehind?, hchunked, if_neg nofun, hlength, Option.bind_some, decimalOf_toDigits]
  exact if_pos rfl

/-- An error is one reply with its status and its body, whose length it states. -/
theorem reply_errorFrame (framing : Framing) (status : Nat) {reason : String}
    (hreason : reason.toList.all isPlain = true) (body : Document) :
    reply? framing (errorFrame framing status reason body) =
      some (errorReply framing status (bytes body.write)) := by
  cases framing with
  | chunked =>
    change (readHead (errorHead status reason (bytes body.write).length ++ bytes body.write)).bind _ = _
    rw [readHead_error status hreason, Option.bind_some]
    exact replyBehind_eq (statusOf_error status reason) (bodyBehind_error _)
  | bare =>
    obtain ⟨tree, htree⟩ := body.exists_tree
    change (if ((textOf? (bytes body.write)).bind Json.Tree.read).isSome then _ else _) = _
    rw [textOf_bytes, Option.bind_some, ← Document.compact, htree]
    rfl

namespace Response

/-- A stream that is whole is one reply whose body is the array of the rows. -/
theorem reply_streamed (framing : Framing) (rows : List Row) :
    reply? framing (rowFrames framing rows ++ closingFrame framing rows) =
      some (streamReply framing (bytes (arrayText rows))) := by
  cases framing with
  | chunked =>
    obtain ⟨wire, hwire, hread⟩ := delivered_chunked rows
    rw [hwire, reply_of_readChunks hread]
    rfl
  | bare =>
    obtain ⟨tree, htree⟩ := (Document.array (rows.map shown)).exists_tree
    rw [delivered_bare, reply?, textOf_bytes, Option.bind_some, arrayText_eq, ← Document.compact, htree]
    rfl

/-- Frames of rows alone are no reply, nor is any first part of them. -/
theorem reply_of_unended {framing : Framing} {rows : List Row} {wire : List UInt8}
    (h : wire <+: rowFrames framing rows) : reply? framing wire = none := by
  cases framing with
  | chunked =>
    rw [rowFrames] at h
    cases hrows : rows.isEmpty with
    | true =>
      -- Without rows there is not even a head.
      rw [List.isEmpty_iff.mp hrows] at h
      rw [List.prefix_nil.mp h]
      have hnone : readHead [] = none := readHead_of_none rfl
      rw [reply?, hnone]
      rfl
    | false =>
      rw [hrows, if_neg Bool.false_ne_true] at h
      rcases reply_of_head h (readHead_stream _) with hnone | ⟨after, hafter, hreply⟩
      · exact hnone
      · have hbody := bodyBehind_stream after
        rw [readChunks_of_unended (ne_nil_of_mem_bodies rows) hafter] at hbody
        exact hreply.trans (replyBehind_of_none _ hbody)
  | bare =>
    have hwhole : (if ((textOf? wire).bind Json.Tree.read).isSome then some wire else none) = none :=
      wholeBody_of_unended h
    rw [ite_eq_right_iff] at hwhole
    exact if_neg fun hsome => absurd (hwhole hsome) (Option.some_ne_none _)

end Response

end InventoryFeed.Http
