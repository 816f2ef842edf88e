import BlackMonolith.JsonText
import BlackMonolith.Library.Utf8
import BlackMonolith.Outbox

/-!
# The spool as bytes

A spool file is read line by line: a line that is no record is skipped, and a line
that is not UTF-8 fails the read. An append writes behind whatever the file ends
with; a rewrite leaves complete lines only.
-/
namespace BlackMonolith.Outbox
open Json Library

/-! ## Records as text -/

/-- The members of a record in the order of its fields; `last_error` is left out when
there is none. -/
def SpoolRecord.members (r : SpoolRecord) : List (String × Value) :=
  [("event_id", .string r.eventId), ("payload", .string r.payload),
    ("attempts", .number (.int r.attempts)), ("next_attempt_ms", .number (.int r.nextAttemptMs))] ++
  (r.lastError.map fun error => ("last_error", Value.string error)).toList ++
  [("created_ms", .number (.int r.createdMs))]

/-- `serde_json::to_string` of a record. -/
def recordText (r : SpoolRecord) : String := (Value.object r.members).toString

/-- The ranges of the fields: a `u32` and two `u128`. -/
structure SpoolRecord.Fits (r : SpoolRecord) : Prop where
  attempts : r.attempts < 2 ^ 32
  nextAttemptMs : r.nextAttemptMs < 2 ^ 128
  createdMs : r.createdMs < 2 ^ 128

/-- `serde_json::from_str` for records and for values: what was written is read back,
and what is read is a JSON document and has fields within their ranges. -/
structure Parser where
  record : String → Option SpoolRecord
  value : String → Option Value
  record_recordText : ∀ r : SpoolRecord, r.Fits → record (recordText r) = some r
  document : ∀ s r, record s = some r → JsonScan.Document s.toList
  fits : ∀ s r, record s = some r → r.Fits

def Parser.serde (parser : Parser) : Serde := ⟨recordText, parser.value⟩

/-! ## Files -/

/-- The bytes of a file, or none when there is no file. -/
abbrev File := Option (List UInt8)

def File.bytes (file : File) : List UInt8 := file.getD []

def newline : UInt8 := 10

def recordLine (r : SpoolRecord) : List UInt8 := Utf8.encode (recordText r).toList ++ [newline]

/-- Complete lines. -/
def complete (records : List SpoolRecord) : List UInt8 := records.flatMap recordLine

/-- The carriage return before a newline. -/
def stripReturn (line : List UInt8) : List UInt8 :=
  if line.getLast? = some 13 then line.dropLast else line

/-- `BufRead::lines` behind the start of a line: the last line need not be terminated. -/
def linesFrom (line : List UInt8) : List UInt8 → List (List UInt8)
  | [] => if line = [] then [] else [line]
  | b :: bytes =>
      if b = newline then stripReturn line :: linesFrom [] bytes else linesFrom (line ++ [b]) bytes

def lines (bytes : List UInt8) : List (List UInt8) := linesFrom [] bytes

section
variable (parser : Parser)

/-- The records of the lines; a line that is not UTF-8 is an error of the read. -/
def readLines : List (List UInt8) → Except String (List SpoolRecord)
  | [] => .ok []
  | line :: rest =>
      match Utf8.decode line with
      | none => .error "stream did not contain valid UTF-8"
      | some cs =>
          (readLines rest).map fun records =>
            if (Text.trim (String.ofList cs)).isEmpty then records
            else (parser.record (String.ofList cs)).toList ++ records

def readRecords (file : File) : Except String (List SpoolRecord) := readLines parser (lines file.bytes)

/-- `write_records_atomically`; an empty spool leaves no file behind. -/
def writeRecords (records : List SpoolRecord) : File :=
  if records.isEmpty then none else some (complete records)

def appendRecord (file : File) (record : SpoolRecord) : File := some (file.bytes ++ recordLine record)

/-- `append_record_bounded` under the bounds of the spool. -/
def appendRecordBoundedFile (file : File) (record : SpoolRecord) : Except String File :=
  if maxSpoolBytes < file.bytes.length + (recordLine record).length then
    (readRecords parser file).map fun records =>
      writeRecords (enforced parser.serde (records ++ [record])).file
  else .ok (appendRecord file record)

def enqueueFile (eventId payload : String) (now : ℕ) (file : File) : Except String File :=
  appendRecordBoundedFile parser file (newRecord eventId payload now)

end

/-! ## Lines -/

theorem printed_members (r : SpoolRecord) : (Value.object r.members).Printed := by
  unfold SpoolRecord.members
  cases r.lastError with
  | none => simp [Value.Printed, Value.MembersPrinted, Number.Printed]
  | some error => simp [Value.Printed, Value.MembersPrinted, Number.Printed]

theorem recordText_toList (r : SpoolRecord) :
    (recordText r).toList = (Value.object r.members).text := Value.toList_toString _

/-- A record begins with a bracket, a quotation mark and the name of its first field. -/
theorem recordText_head (r : SpoolRecord) :
    ∃ body, (recordText r).toList = '\x7b' :: '"' :: 'e' :: body := by
  rw [recordText_toList]
  exact ⟨_, rfl⟩

theorem encode_recordText_ne_nil (r : SpoolRecord) : Utf8.encode (recordText r).toList ≠ [] := by
  obtain ⟨body, hbody⟩ := recordText_head r
  rw [hbody, Utf8.encode_cons]
  intro hnil
  exact String.utf8EncodeChar_ne_nil (List.append_eq_nil_iff.mp hnil).1

theorem recordText_last (r : SpoolRecord) : ∃ body, (recordText r).toList = body ++ ['\x7d'] := by
  rw [recordText_toList]
  exact ⟨'\x7b' :: _, rfl⟩

theorem printable_recordText {r : SpoolRecord} {b : UInt8}
    (h : b ∈ Utf8.encode (recordText r).toList) : 0x20 ≤ b.toNat := by
  rw [recordText_toList] at h
  exact Utf8.le_of_mem_encode (by decide) (Value.printable_text _ (printed_members r)) h

theorem newline_notMem_recordText (r : SpoolRecord) :
    newline ∉ Utf8.encode (recordText r).toList :=
  fun h => absurd (printable_recordText h) (by decide)

theorem linesFrom_append {line xs rest : List UInt8} (h : newline ∉ xs) :
    linesFrom line (xs ++ newline :: rest) = stripReturn (line ++ xs) :: lines rest := by
  induction xs generalizing line with
  | nil =>
      rw [List.nil_append, linesFrom, if_pos rfl, List.append_nil]
      rfl
  | cons b xs ih =>
      obtain ⟨hb, hxs⟩ := not_or.mp (List.mem_cons.not.mp h)
      rw [List.cons_append, linesFrom, if_neg (Ne.symm hb), ih hxs, List.append_assoc,
        List.singleton_append]

theorem linesFrom_last {line xs : List UInt8} (h : newline ∉ xs) :
    linesFrom line xs = if line ++ xs = [] then [] else [line ++ xs] := by
  induction xs generalizing line with
  | nil => rw [linesFrom, List.append_nil]
  | cons b xs ih =>
      obtain ⟨hb, hxs⟩ := not_or.mp (List.mem_cons.not.mp h)
      rw [linesFrom, if_neg (Ne.symm hb), ih hxs, List.append_assoc, List.singleton_append]

theorem stripReturn_recordText (xs : List UInt8) (r : SpoolRecord) :
    stripReturn (xs ++ Utf8.encode (recordText r).toList) =
      xs ++ Utf8.encode (recordText r).toList := by
  obtain ⟨body, hbody⟩ := recordText_last r
  refine if_neg fun h => ?_
  rw [hbody, Utf8.encode_append, ← List.append_assoc,
    show Utf8.encode ['\x7d'] = [0x7d] from rfl, List.getLast?_concat] at h
  exact absurd (Option.some.inj h) (by decide)

theorem lines_complete (records : List SpoolRecord) (tail : List UInt8) :
    lines (complete records ++ tail) =
      records.map (fun r => Utf8.encode (recordText r).toList) ++ lines tail := by
  induction records with
  | nil => rfl
  | cons r records ih =>
      have hline : complete (r :: records) ++ tail =
          Utf8.encode (recordText r).toList ++ newline :: (complete records ++ tail) := by
        simp [complete, recordLine]
      have hstrip := stripReturn_recordText [] r
      rw [hline, lines, linesFrom_append (newline_notMem_recordText r), hstrip, ih]
      rfl

/-! ## Reading records -/

section
variable {parser : Parser}

theorem trim_recordText (r : SpoolRecord) : (Text.trim (recordText r)).isEmpty = false := by
  obtain ⟨body, hbody⟩ := recordText_head r
  have hmem : '\x7b' ∈ trimBoth Text.isWhitespace (recordText r).toList := by
    rw [mem_trimBoth (by decide), hbody]
    exact List.mem_cons_self
  rw [String.isEmpty_eq_false_iff]
  intro hempty
  have hnil : trimBoth Text.isWhitespace (recordText r).toList = [] := by
    have htrim := congrArg String.toList hempty
    rwa [Text.trim, String.toList_ofList] at htrim
  rw [hnil] at hmem
  cases hmem

theorem readLines_record {r : SpoolRecord} (h : r.Fits) (rest : List (List UInt8)) :
    readLines parser (Utf8.encode (recordText r).toList :: rest) =
      (readLines parser rest).map (r :: ·) := by
  rw [readLines, Utf8.decode_encode]
  simp only [String.ofList_toList, trim_recordText, parser.record_recordText r h]
  rfl

theorem readRecords_complete {records : List SpoolRecord} (h : ∀ r ∈ records, r.Fits)
    (tail : List UInt8) :
    readRecords parser (some (complete records ++ tail)) =
      (readLines parser (lines tail)).map (records ++ ·) := by
  have hlines : readRecords parser (some (complete records ++ tail)) =
      readLines parser (records.map (fun r => Utf8.encode (recordText r).toList) ++ lines tail) :=
    congrArg (readLines parser) (lines_complete records tail)
  rw [hlines]
  clear hlines
  induction records with
  | nil =>
      rw [List.map_nil, List.nil_append]
      cases readLines parser (lines tail) <;> rfl
  | cons r records ih =>
      rw [List.map_cons, List.cons_append, readLines_record (h r List.mem_cons_self),
        ih fun r' hr' => h r' (List.mem_cons_of_mem r hr')]
      cases readLines parser (lines tail) <;> rfl

/-- Complete lines are read back, and so is what a rewrite leaves. -/
theorem readRecords_whole {records : List SpoolRecord} (h : ∀ r ∈ records, r.Fits) :
    readRecords parser (some (complete records)) = .ok records := by
  have hread := @readRecords_complete parser _ h []
  rw [List.append_nil] at hread
  refine hread.trans ?_
  show Except.ok (records ++ []) = _
  rw [List.append_nil]

theorem readRecords_writeRecords {records : List SpoolRecord} (h : ∀ r ∈ records, r.Fits) :
    readRecords parser (writeRecords records) = .ok records := by
  cases records with
  | nil => rfl
  | cons r records => exact readRecords_whole h

/-! ## A torn tail -/

/-- A text that is no document is skipped. -/
theorem readLines_skip {cs : List Char} (h : ¬JsonScan.Document cs) :
    readLines parser [Utf8.encode cs] = .ok [] := by
  have hnone : parser.record (String.ofList cs) = none := by
    cases hread : parser.record (String.ofList cs) with
    | none => rfl
    | some r =>
        have hdocument := parser.document _ r hread
        rw [String.toList_ofList] at hdocument
        exact absurd hdocument h
  rw [readLines, Utf8.decode_encode]
  simp only [hnone]
  split <;> rfl

theorem readLines_undecodable {line : List UInt8} (h : Utf8.decode line = none)
    (rest : List (List UInt8)) :
    readLines parser (line :: rest) = .error "stream did not contain valid UTF-8" := by
  rw [readLines, h]

/-- A cut record line is a part of the record's text. -/
theorem initial_recordText {r : SpoolRecord} {tail : List UInt8} (h : tail <+: recordLine r)
    (hne : tail ≠ recordLine r) : tail <+: Utf8.encode (recordText r).toList := by
  obtain ⟨rest, hrest⟩ := h
  cases rest using List.reverseRecOn with
  | nil => exact absurd (by rw [← hrest, List.append_nil]) hne
  | append_singleton rest b =>
      rw [recordLine, ← List.append_assoc] at hrest
      exact ⟨rest, (List.append_inj' hrest rfl).1⟩

theorem lines_tail {r : SpoolRecord} {tail : List UInt8}
    (h : tail <+: Utf8.encode (recordText r).toList) :
    lines tail = if tail = [] then [] else [tail] :=
  linesFrom_last fun hmem => newline_notMem_recordText r (h.mem hmem)

theorem document_recordText (r : SpoolRecord) : JsonScan.Document (recordText r).toList := by
  rw [recordText_toList]
  exact Value.document_object (printed_members r)

/-- No proper part of a record's text is a document. -/
theorem not_document_of_initial {r : SpoolRecord} {cs : List Char} (h : cs <+: (recordText r).toList)
    (hne : cs ≠ (recordText r).toList) : ¬JsonScan.Document cs := by
  obtain ⟨rest, hrest⟩ := h
  obtain ⟨body, hbody⟩ := recordText_last r
  have hmem : '\x7d' ∈ rest := by
    cases rest using List.reverseRecOn with
    | nil => exact absurd (by rw [← hrest, List.append_nil]) hne
    | append_singleton rest c =>
        rw [hbody, ← List.append_assoc] at hrest
        have hlast := (List.append_inj' hrest rfl).2
        rw [hlast]
        exact List.mem_append_right _ (List.mem_singleton_self _)
  have hdocument := document_recordText r
  rw [← hrest] at hdocument
  exact JsonScan.not_document_of_append hdocument hmem rfl

/-- A record behind a part of another is no document. -/
theorem not_document_of_merged {r r' : SpoolRecord} {cs : List Char}
    (h : cs <+: (recordText r).toList) (hne : cs ≠ []) :
    ¬JsonScan.Document (cs ++ (recordText r').toList) := by
  obtain ⟨rest, hrest⟩ := h
  obtain ⟨body, hbody⟩ := recordText_head r
  obtain ⟨body', hbody'⟩ := recordText_head r'
  obtain ⟨c, cs, rfl⟩ := List.exists_cons_of_ne_nil hne
  have hopening : JsonScan.next .before c = some (.inside 0) := by
    rw [hbody] at hrest
    rw [(List.cons.inj hrest).1]
    rfl
  have hdocument := document_recordText r
  rw [← hrest, JsonScan.Document, JsonScan.scan_append] at hdocument
  obtain ⟨place, hplace, -⟩ := Option.bind_eq_some_iff.mp hdocument
  have hbegun : place ≠ .before := by
    rw [JsonScan.scan_cons, hopening, Option.bind_some] at hplace
    exact JsonScan.scan_ne_before hplace JsonScan.Place.noConfusion
  intro hmerged
  rw [JsonScan.Document, JsonScan.scan_append, hplace, Option.bind_some, hbody'] at hmerged
  refine JsonScan.scan_object_ne_done hbegun ⟨rfl, by decide, by decide, rfl⟩ ?_ hmerged
  intro depth
  rw [← hbody', recordText_toList]
  exact Value.scan_object (printed_members r') depth

/-- The read of a file with a torn tail: the tail costs nothing but itself when it is
empty, or a text that is cut before its last character. -/
theorem readRecords_torn {records : List SpoolRecord} {r : SpoolRecord} {tail : List UInt8}
    (h : ∀ r ∈ records, r.Fits) (hr : r.Fits) (htail : tail <+: Utf8.encode (recordText r).toList) :
    readRecords parser (some (complete records ++ tail)) =
      if tail = Utf8.encode (recordText r).toList then .ok (records ++ [r])
      else if (Utf8.decode tail).isSome then .ok records
      else .error "stream did not contain valid UTF-8" := by
  rw [readRecords_complete h, lines_tail htail]
  by_cases hfull : tail = Utf8.encode (recordText r).toList
  · rw [if_pos hfull, hfull, if_neg (encode_recordText_ne_nil r), readLines_record hr]
    rfl
  · rw [if_neg hfull]
    cases hdecode : Utf8.decode tail with
    | none =>
        have hempty : tail ≠ [] := by
          rintro rfl
          have hnil : Utf8.decode [] = some [] := Utf8.decode_encode []
          rw [hnil] at hdecode
          cases hdecode
        rw [if_neg hempty, readLines_undecodable hdecode, Option.isSome_none,
          if_neg Bool.false_ne_true]
        rfl
    | some cs =>
        obtain rfl := Utf8.decode_eq_some_iff.mp hdecode
        rw [Option.isSome_some, if_pos rfl]
        split_ifs with hempty
        · show Except.ok (records ++ []) = _
          rw [List.append_nil]
        · have hcut : cs ≠ (recordText r).toList := fun heq => hfull (congrArg Utf8.encode heq)
          rw [readLines_skip (not_document_of_initial (Utf8.initial_of_encode_initial htail) hcut)]
          show Except.ok (records ++ []) = _
          rw [List.append_nil]

theorem torn_spared_iff {records : List SpoolRecord} {r : SpoolRecord} {tail : List UInt8}
    (h : ∀ r ∈ records, r.Fits) (hr : r.Fits) (htail : tail <+: Utf8.encode (recordText r).toList) :
    readRecords parser (some (complete records ++ tail)) = .ok records ↔
      (Utf8.decode tail).isSome ∧ tail ≠ Utf8.encode (recordText r).toList := by
  rw [readRecords_torn h hr htail]
  split_ifs with hfull hdecode
  · simp [hfull]
  · simp [hfull, hdecode]
  · simp [hdecode]

/-- A record appended behind a torn tail is not read. -/
theorem readRecords_merged {records : List SpoolRecord} {r new : SpoolRecord} {tail : List UInt8}
    (h : ∀ r ∈ records, r.Fits) (htail : tail <+: Utf8.encode (recordText r).toList)
    (hne : tail ≠ []) :
    readRecords parser (some (complete records ++ (tail ++ recordLine new))) ≠
      .ok (records ++ [new]) := by
  have hnewline : newline ∉ tail ++ Utf8.encode (recordText new).toList := by
    intro hmem
    rcases List.mem_append.mp hmem with hmem | hmem
    · exact newline_notMem_recordText r (htail.mem hmem)
    · exact newline_notMem_recordText new hmem
  have hline : lines (tail ++ recordLine new) = [tail ++ Utf8.encode (recordText new).toList] := by
    have hstrip := stripReturn_recordText tail new
    rw [recordLine, ← List.append_assoc, lines, linesFrom_append hnewline, List.nil_append, hstrip]
    rfl
  rw [readRecords_complete h, hline]
  cases hdecode : Utf8.decode (tail ++ Utf8.encode (recordText new).toList) with
  | none =>
      rw [readLines_undecodable hdecode]
      exact fun herror => nomatch herror
  | some cs =>
      have hcs := Utf8.decode_eq_some_iff.mp hdecode
      obtain ⟨body, hbody⟩ := recordText_head new
      have hsplit : tail ++ 0x7b :: Utf8.encode ('"' :: 'e' :: body) = Utf8.encode cs := by
        rw [← hcs, hbody]
        rfl
      obtain ⟨front, rfl⟩ := Utf8.exists_encode_of_ascii (by decide) hsplit
      have hfront : front ≠ [] := fun hnil => hne (by rw [hnil]; rfl)
      have hmerged : ¬JsonScan.Document (front ++ (recordText new).toList) :=
        not_document_of_merged (Utf8.initial_of_encode_initial htail) hfront
      rw [← Utf8.encode_append, readLines_skip hmerged]
      intro hsame
      have hlen := congrArg List.length (Except.ok.inj hsame)
      simp at hlen

/-! ## Appends -/

theorem length_recordLine (r : SpoolRecord) : (recordLine r).length = lineSize parser.serde r := by
  rw [recordLine, List.length_append, Utf8.length_encode]
  rfl

theorem length_complete (records : List SpoolRecord) :
    (complete records).length = fileSize parser.serde records := by
  induction records with
  | nil => rfl
  | cons r records ih =>
      rw [complete, List.flatMap_cons, List.length_append, @length_recordLine parser]
      rw [complete] at ih
      rw [ih, fileSize, fileSize, List.map_cons, List.sum_cons]

theorem complete_append (records : List SpoolRecord) (new : SpoolRecord) :
    complete (records ++ [new]) = complete records ++ recordLine new := by
  simp [complete]

theorem Fits.append {records : List SpoolRecord} {new : SpoolRecord}
    (h : ∀ r ∈ records, r.Fits) (hnew : new.Fits) : ∀ r ∈ records ++ [new], r.Fits := by
  intro r hr
  rcases List.mem_append.mp hr with hr | hr
  · exact h r hr
  · rw [List.mem_singleton.mp hr]
    exact hnew

/-- An append to complete lines is the append to the list of records. -/
theorem appendRecordBoundedFile_complete {records : List SpoolRecord} {new : SpoolRecord}
    (h : ∀ r ∈ records, r.Fits) :
    appendRecordBoundedFile parser (some (complete records)) new =
      .ok (writeRecords (appendRecordBounded parser.serde records new).file) := by
  unfold appendRecordBoundedFile appendRecordBounded File.bytes
  rw [Option.getD_some, @length_complete parser, @length_recordLine parser, readRecords_whole h]
  split_ifs
  · rfl
  · rw [writeRecords, if_neg (by simp), complete_append]
    rfl

/-! ## What a torn tail costs -/

/-- The complete records are read, and after an append that succeeds the new one with them. -/
def TornTailSpared (parser : Parser) (records : List SpoolRecord) (tail : List UInt8)
    (new : SpoolRecord) : Prop :=
  readRecords parser (some (complete records ++ tail)) = .ok records ∧
    ∀ file, appendRecordBoundedFile parser (some (complete records ++ tail)) new = .ok file →
      readRecords parser file = .ok (records ++ [new])

/-- What a rewrite keeps is everything exactly within the bounds. -/
theorem rewritten_iff {records : List SpoolRecord} (h : ∀ r ∈ records, r.Fits) (hne : records ≠ []) :
    readRecords parser (writeRecords (enforced parser.serde records).file) = .ok records ↔
      withinBounds parser.serde maxSpoolRecords maxSpoolBytes records := by
  have hfits : ∀ r ∈ (enforced parser.serde records).file, r.Fits :=
    fun r hr => h r ((enforced_sublist parser.serde records).mem hr)
  rw [readRecords_writeRecords hfits, Except.ok.injEq, enforced_file]
  constructor
  · intro hsame
    rw [← hsame]
    exact longestSuffix_holds (by rw [hsame]; exact hne)
  · exact longestSuffix_of_holds

/-- A torn tail costs at most itself exactly when there is none and the new line fits, or
the file is rewritten, the tail is UTF-8 that stops before the end of its record, and the
bounds keep every record. -/
theorem torn_tail_iff {records : List SpoolRecord} {r new : SpoolRecord} {tail : List UInt8}
    (hrecords : ∀ r ∈ records, r.Fits) (hr : r.Fits) (hnew : new.Fits)
    (htail : tail <+: recordLine r) (hne : tail ≠ recordLine r) :
    TornTailSpared parser records tail new ↔
      (fileSize parser.serde records + tail.length + lineSize parser.serde new ≤ maxSpoolBytes ∧
          tail = []) ∨
        (maxSpoolBytes < fileSize parser.serde records + tail.length + lineSize parser.serde new ∧
          (Utf8.decode tail).isSome ∧ tail ≠ Utf8.encode (recordText r).toList ∧
          withinBounds parser.serde maxSpoolRecords maxSpoolBytes (records ++ [new])) := by
  have hpart := initial_recordText htail hne
  have hread := @torn_spared_iff parser _ _ _ hrecords hr hpart
  have hlength : (complete records ++ tail).length + (recordLine new).length =
      fileSize parser.serde records + tail.length + lineSize parser.serde new := by
    rw [List.length_append, @length_complete parser, @length_recordLine parser]
  unfold TornTailSpared appendRecordBoundedFile
  rw [File.bytes, Option.getD_some, hlength, hread]
  by_cases hfits :
      fileSize parser.serde records + tail.length + lineSize parser.serde new ≤ maxSpoolBytes
  · rw [if_neg (by omega)]
    constructor
    · rintro ⟨-, happended⟩
      refine Or.inl ⟨hfits, ?_⟩
      by_contra htorn
      refine @readRecords_merged parser _ _ new _ hrecords hpart htorn ?_
      rw [← List.append_assoc]
      exact happended _ rfl
    · rintro (⟨-, rfl⟩ | ⟨hover, -⟩)
      · have hdecode : Utf8.decode [] = some [] := Utf8.decode_encode []
        rw [hdecode]
        refine ⟨⟨rfl, (encode_recordText_ne_nil r).symm⟩, ?_⟩
        intro file hfile
        rw [← Except.ok.inj hfile, appendRecord, File.bytes, Option.getD_some, List.append_nil,
          ← complete_append]
        exact readRecords_whole (Fits.append hrecords hnew)
      · omega
  · rw [if_pos (by omega)]
    constructor
    · rintro ⟨⟨hdecode, hcut⟩, happended⟩
      refine Or.inr ⟨by omega, hdecode, hcut, ?_⟩
      rw [hread.mpr ⟨hdecode, hcut⟩] at happended
      exact (rewritten_iff (Fits.append hrecords hnew) (by simp)).mp (happended _ rfl)
    · rintro (⟨hroom, -⟩ | ⟨-, hdecode, hcut, hbounds⟩)
      · omega
      · refine ⟨⟨hdecode, hcut⟩, ?_⟩
        intro file hfile
        rw [hread.mpr ⟨hdecode, hcut⟩] at hfile
        rw [← Except.ok.inj hfile]
        exact (rewritten_iff (Fits.append hrecords hnew) (by simp)).mpr hbounds

end

/-! ## The size of a line -/

/-- The bytes of a text. -/
def width (cs : List Char) : ℕ := (Utf8.encode cs).length

@[simp] theorem width_nil : width [] = 0 := rfl

@[simp] theorem width_append (cs ds : List Char) : width (cs ++ ds) = width cs + width ds := by
  rw [width, Utf8.encode_append, List.length_append, width, width]

theorem width_of_ascii {cs : List Char} (h : ∀ c ∈ cs, c.toNat < 0x80) : width cs = cs.length := by
  induction cs with
  | nil => rfl
  | cons c cs ih =>
      have hc : c.val.toNat ≤ 0x7F := Nat.le_of_lt_succ (h c List.mem_cons_self)
      have hone : String.utf8EncodeChar c = [UInt8.ofNat c.val.toNat] := by
        unfold String.utf8EncodeChar
        exact if_pos hc
      rw [← List.singleton_append, width_append, ih fun d hd => h d (List.mem_cons_of_mem c hd),
        List.length_append, width, Utf8.encode_cons, hone]
      rfl

theorem width_quoted (cs : List Char) :
    width (Value.quoted cs) = width (cs.flatMap Value.escapeChar) + 2 := by
  have hparts : Value.quoted cs = ['"'] ++ (cs.flatMap Value.escapeChar ++ ['"']) := rfl
  have hmark : width ['"'] = 1 := rfl
  rw [hparts, width_append, width_append, hmark]
  omega

def number (n : ℕ) : List Char := (Int.repr n).toList

theorem number_eq (n : ℕ) : number n = Nat.toDigits 10 n := by
  rw [number, Int.repr_eq_if, if_pos (Int.natCast_nonneg n), Int.toNat_natCast, Nat.toList_repr]

theorem width_number (n : ℕ) : width (number n) = (Nat.toDigits 10 n).length := by
  rw [number_eq]
  refine width_of_ascii fun c hc => ?_
  have hdigit := Nat.isDigit_of_mem_toDigits (by decide) (by decide) hc
  simp only [Char.isDigit, Bool.and_eq_true, decide_eq_true_eq] at hdigit
  exact Nat.lt_of_le_of_lt (UInt32.le_iff_toNat_le.mp hdigit.2) (by decide)

theorem width_number_pos (n : ℕ) : 1 ≤ width (number n) := by
  rw [width_number]
  exact Nat.length_toDigits_pos

theorem width_number_le {n k : ℕ} (hk : 0 < k) (hn : n < 10 ^ k) : width (number n) ≤ k := by
  rw [width_number]
  exact (Nat.length_toDigits_le_iff (by decide) hk).mpr hn

/-- A separator and the name of the field behind it. -/
def field (separator : Char) (name : String) : List Char :=
  separator :: (Value.quoted name.toList ++ [':'])

def lastErrorText : Option String → List Char
  | none => []
  | some error => field ',' "last_error" ++ Value.quoted error.toList

/-- The parts of a record's text that its retry state decides, between those it does not. -/
theorem recordText_parts (r : SpoolRecord) :
    (recordText r).toList =
      field '\x7b' "event_id" ++ (Value.quoted r.eventId.toList ++ (field ',' "payload" ++
        (Value.quoted r.payload.toList ++ (field ',' "attempts" ++ (number r.attempts ++
        (field ',' "next_attempt_ms" ++ (number r.nextAttemptMs ++ (lastErrorText r.lastError ++
        (field ',' "created_ms" ++ (number r.createdMs ++ ['\x7d'])))))))))) := by
  rw [recordText_toList]
  unfold SpoolRecord.members
  cases r.lastError with
  | none =>
      simp only [Value.text, Value.membersText, Option.map_none, Option.toList_none, List.nil_append,
        List.cons_append, List.append_nil, List.append_assoc, field, lastErrorText]
      rfl
  | some error =>
      simp only [Value.text, Value.membersText, Option.map_some, Option.toList_some, List.nil_append,
        List.cons_append, List.append_assoc, field, lastErrorText]
      rfl

theorem lineSize_eq (parser : Parser) (r : SpoolRecord) :
    lineSize parser.serde r = width (recordText r).toList + 1 := by
  rw [← length_recordLine, recordLine, List.length_append]
  rfl

/-! ## A parser -/

theorem members_injective {r r' : SpoolRecord} (h : r.members = r'.members) : r = r' := by
  obtain ⟨eventId, payload, attempts, nextAttemptMs, lastError, createdMs⟩ := r
  obtain ⟨eventId', payload', attempts', nextAttemptMs', lastError', createdMs'⟩ := r'
  cases lastError with
  | none =>
      cases lastError' with
      | none =>
          simp [SpoolRecord.members] at h
          simp [h]
      | some error => simp [SpoolRecord.members] at h
  | some error =>
      cases lastError' with
      | none => simp [SpoolRecord.members] at h
      | some error' =>
          simp [SpoolRecord.members] at h
          simp [h]

theorem recordText_injective {r r' : SpoolRecord} (h : recordText r = recordText r') : r = r' := by
  have hvalue := Value.toString_injective (printed_members r) (printed_members r') h
  exact members_injective (Value.object.inj hvalue)

open Classical in
/-- The parser that reads what is written and nothing else. -/
noncomputable def plainParser : Parser where
  record s := if h : ∃ r : SpoolRecord, r.Fits ∧ recordText r = s then some h.choose else none
  value _ := none
  record_recordText r hr := by
    have hwritten : ∃ r' : SpoolRecord, r'.Fits ∧ recordText r' = recordText r := ⟨r, hr, rfl⟩
    rw [dif_pos hwritten, recordText_injective hwritten.choose_spec.2]
  document s r h := by
    split_ifs at h with hwritten
    rw [← hwritten.choose_spec.2]
    exact document_recordText _
  fits s r h := by
    split_ifs at h with hwritten
    rw [← Option.some.inj h]
    exact hwritten.choose_spec.1

/-! ## A tail cut in a character, and one with a record behind it -/

def goodRecord : SpoolRecord := ⟨"good", "\x7b\x7d", 0, 0, none, 0⟩

def accented : SpoolRecord := ⟨"é", "\x7b\x7d", 0, 0, none, 0⟩

/-- The line of the record up to the first byte of its accented character. -/
def cutInCharacter : List UInt8 := (recordLine accented).take 14

def cutInName : List UInt8 := (recordLine accented).take 20

theorem goodRecord_fits : ∀ r ∈ [goodRecord], r.Fits := by
  intro r hr
  rw [List.mem_singleton.mp hr]
  exact ⟨by decide, by decide, by decide⟩

theorem torn_tail_costs_more :
    (cutInCharacter <+: recordLine accented ∧
      ∀ parser : Parser,
        readRecords parser (some (complete [goodRecord] ++ cutInCharacter)) ≠ .ok [goodRecord]) ∧
    cutInName <+: recordLine accented ∧
      ∀ parser : Parser, ∃ file,
        appendRecordBoundedFile parser (some (complete [goodRecord] ++ cutInName)) goodRecord =
          .ok file ∧
        readRecords parser file ≠ .ok [goodRecord, goodRecord] := by
  refine ⟨⟨List.take_prefix _ _, fun parser hread => ?_⟩, List.take_prefix _ _, fun parser => ?_⟩
  · have hpart : cutInCharacter <+: Utf8.encode (recordText accented).toList :=
      initial_recordText (List.take_prefix _ _) (by decide)
    have hspared := (torn_spared_iff goodRecord_fits
      ⟨by decide, by decide, by decide⟩ hpart).mp hread
    rw [Utf8.decode_eq_none (by decide)] at hspared
    exact Bool.false_ne_true hspared.1
  · have hpart : cutInName <+: Utf8.encode (recordText accented).toList :=
      initial_recordText (List.take_prefix _ _) (by decide)
    have hroom : ¬maxSpoolBytes < (File.bytes (some (complete [goodRecord] ++ cutInName))).length +
        (recordLine goodRecord).length := by
      decide
    refine ⟨_, if_neg hroom, ?_⟩
    rw [appendRecord, File.bytes, Option.getD_some, List.append_assoc]
    exact readRecords_merged goodRecord_fits hpart (by decide)

/-- Without a tail the next record is read, behind a torn one it is lost. -/
theorem torn_tail_iff_good :
    TornTailSpared plainParser [goodRecord] [] goodRecord ∧
      ¬TornTailSpared plainParser [goodRecord] cutInName goodRecord := by
  have hfits : accented.Fits := ⟨by decide, by decide, by decide⟩
  have hgood := goodRecord_fits goodRecord (List.mem_singleton_self _)
  have hroom : ∀ tail : List UInt8, tail.length ≤ 20 →
      fileSize plainParser.serde [goodRecord] + tail.length + lineSize plainParser.serde goodRecord ≤
        maxSpoolBytes := by
    intro tail htail
    have hsize : fileSize plainParser.serde [goodRecord] + 20 +
        lineSize plainParser.serde goodRecord ≤ maxSpoolBytes := by
      decide
    omega
  constructor
  · exact (torn_tail_iff goodRecord_fits hfits hgood List.nil_prefix (by decide)).mpr
      (Or.inl ⟨hroom [] (by decide), rfl⟩)
  · intro hspared
    have hcut := (torn_tail_iff goodRecord_fits hfits hgood (List.take_prefix 20 _)
      (by decide)).mp hspared
    have hfits' := hroom cutInName (by decide)
    rcases hcut with ⟨-, hempty⟩ | ⟨hover, -⟩
    · exact absurd hempty (by decide)
    · exact absurd hfits' (Nat.not_le.mpr hover)

end BlackMonolith.Outbox
