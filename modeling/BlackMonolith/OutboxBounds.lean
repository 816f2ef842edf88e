import Mathlib
import BlackMonolith.OutboxReplay

/-!
# The bounds of a spool file

A rewrite enforces both bounds on the records that could be read and on the new ones. An
append that leaves the file within the bound in bytes does not count the records, and
writes behind whatever the file ends with.
-/
namespace BlackMonolith.Outbox
open Library

/-! ## The two appends, for any bounds -/

section
variable (parser : Parser) (maxRecords maxBytes : ℕ)

/-- `append_record_bounded`. -/
def appendRecordBoundedWith (file : File) (record : SpoolRecord) : Except String File :=
  if maxBytes < file.bytes.length + (recordLine record).length then
    (readRecords parser file).map fun records =>
      writeRecords (enforceSpoolBounds parser.serde (records ++ [record]) maxRecords maxBytes).1
  else .ok (appendRecord file record)

/-- `append_dead_records_bounded`. -/
def appendDeadRecordsBoundedWith (deadFile : File) (newDead : List SpoolRecord) :
    Except String File :=
  if newDead.isEmpty then .ok deadFile
  else
    (readRecords parser deadFile).map fun records =>
      writeRecords (enforceSpoolBounds parser.serde (records ++ newDead) maxRecords maxBytes).1

theorem appendRecordBoundedFile_eq (file : File) (record : SpoolRecord) :
    appendRecordBoundedFile parser file record =
      appendRecordBoundedWith parser maxSpoolRecords maxSpoolBytes file record := rfl

/-! ## What an append should leave -/

/-- The bytes behind the last newline, and those up to it. -/
def unfinished (bytes : List UInt8) : List UInt8 := bytes.rtakeWhile (· ≠ newline)

def finished (bytes : List UInt8) : List UInt8 := bytes.rdropWhile (· ≠ newline)

/-- The file is within both bounds and ends, on lines of their own, with the newest of the
appended records that fit. -/
structure KeepsNewest (new : List SpoolRecord) (file : File) : Prop where
  bytes : file.bytes.length ≤ maxBytes
  records : ∃ records, readRecords parser file = .ok records ∧ records.length ≤ maxRecords
  newest : longestSuffix (withinBounds parser.serde maxRecords maxBytes) new ≠ [] →
    ∃ front, unfinished front = [] ∧ file.bytes =
      front ++ complete (longestSuffix (withinBounds parser.serde maxRecords maxBytes) new)

/-- No line of the file is a record, and the record behind its unfinished line is none. -/
def Swallowed (file : File) (record : SpoolRecord) : Prop :=
  unfinished file.bytes ≠ [] ∧ readLines parser (lines (finished file.bytes)) = .ok [] ∧
    ∃ cs, Utf8.decode (unfinished file.bytes) = some cs ∧
      parser.record (String.ofList (cs ++ (recordText record).toList)) = none

/-- When an append of one record keeps to the bounds. -/
def AppendsWithin (file : File) (record : SpoolRecord) : Prop :=
  if maxBytes < file.bytes.length + (recordLine record).length then
    ∃ records, readRecords parser file = .ok records
  else
    (unfinished file.bytes = [] ∧
      ∃ records, readRecords parser file = .ok records ∧ records.length < maxRecords) ∨
    (maxRecords = 0 ∧ Swallowed parser file record)

/-- When an append of dead records keeps to the bounds. -/
def AppendsDeadWithin (deadFile : File) (newDead : List SpoolRecord) : Prop :=
  if newDead.isEmpty then
    deadFile.bytes.length ≤ maxBytes ∧
      ∃ records, readRecords parser deadFile = .ok records ∧ records.length ≤ maxRecords
  else ∃ records, readRecords parser deadFile = .ok records

end

/-! ## Lines behind a file -/

theorem unfinished_newline (bytes : List UInt8) : unfinished (bytes ++ [newline]) = [] :=
  List.rtakeWhile_concat_neg _ _ _ (by simp)

theorem unfinished_finished (bytes : List UInt8) : unfinished (finished bytes) = [] := by
  unfold unfinished finished
  rw [List.rtakeWhile_eq_nil_iff]
  exact fun h => List.rdropWhile_last_not _ _ h

theorem finished_append_unfinished (bytes : List UInt8) :
    finished bytes ++ unfinished bytes = bytes := List.rdropWhile_append_rtakeWhile

theorem newline_notMem_unfinished (bytes : List UInt8) : newline ∉ unfinished bytes := by
  intro hmem
  have hother := List.mem_rtakeWhile_imp hmem
  simp at hother

theorem exists_newline {bytes : List UInt8} (h : unfinished bytes = []) (hne : bytes ≠ []) :
    ∃ front, bytes = front ++ [newline] := by
  cases bytes using List.reverseRecOn with
  | nil => exact absurd rfl hne
  | append_singleton front b =>
    refine ⟨front, ?_⟩
    unfold unfinished at h
    rw [List.rtakeWhile_concat] at h
    split_ifs at h with hb
    · exact absurd h (by simp)
    · rw [of_not_not fun hne => hb (decide_eq_true hne)]

theorem unfinished_complete (records : List SpoolRecord) : unfinished (complete records) = [] := by
  cases records using List.reverseRecOn with
  | nil => rfl
  | append_singleton records r =>
    rw [complete_append, recordLine, ← List.append_assoc]
    exact unfinished_newline _

theorem linesFrom_split (line front rest : List UInt8) :
    linesFrom line (front ++ newline :: rest) =
      linesFrom line (front ++ [newline]) ++ lines rest := by
  induction front generalizing line with
  | nil =>
    rw [List.nil_append, List.nil_append, linesFrom, linesFrom, if_pos rfl, if_pos rfl]
    rfl
  | cons b front ih =>
    rw [List.cons_append, List.cons_append, linesFrom, linesFrom]
    split_ifs
    · rw [ih, List.cons_append]
    · exact ih _

theorem lines_append {bytes : List UInt8} (h : unfinished bytes = []) (rest : List UInt8) :
    lines (bytes ++ rest) = lines bytes ++ lines rest := by
  by_cases hne : bytes = []
  · rw [hne]
    rfl
  · obtain ⟨front, rfl⟩ := exists_newline h hne
    rw [List.append_assoc]
    exact linesFrom_split [] front rest

theorem lines_recordLine {front : List UInt8} (h : newline ∉ front) (r : SpoolRecord) :
    lines (front ++ recordLine r) = [front ++ Utf8.encode (recordText r).toList] := by
  have hnewline : newline ∉ front ++ Utf8.encode (recordText r).toList := by
    intro hmem
    rcases List.mem_append.mp hmem with hmem | hmem
    · exact h hmem
    · exact newline_notMem_recordText r hmem
  have hstrip := stripReturn_recordText front r
  rw [recordLine, ← List.append_assoc, lines, linesFrom_append hnewline, List.nil_append, hstrip]
  rfl

section
variable {parser : Parser} {maxRecords maxBytes : ℕ}

theorem readLines_append (xs ys : List (List UInt8)) :
    readLines parser (xs ++ ys) =
      (readLines parser xs).bind fun records => (readLines parser ys).map (records ++ ·) := by
  induction xs with
  | nil =>
    show readLines parser ys = (readLines parser ys).map ([] ++ ·)
    cases readLines parser ys <;> rfl
  | cons x xs ih =>
    rw [List.cons_append, readLines, readLines]
    cases Utf8.decode x with
    | none => rfl
    | some cs =>
      dsimp only
      rw [ih]
      cases readLines parser xs with
      | error error => rfl
      | ok front =>
        cases readLines parser ys with
        | error error => rfl
        | ok rest =>
          refine congrArg Except.ok ?_
          dsimp only
          split_ifs
          · rfl
          · exact (List.append_assoc _ _ _).symm

theorem readLines_append_eq_nil {xs ys : List (List UInt8)} :
    readLines parser (xs ++ ys) = .ok [] ↔
      readLines parser xs = .ok [] ∧ readLines parser ys = .ok [] := by
  rw [readLines_append]
  cases readLines parser xs with
  | error error => exact ⟨fun h => (nomatch h), fun h => (nomatch h.1)⟩
  | ok front =>
    cases readLines parser ys with
    | error error => exact ⟨fun h => (nomatch h), fun h => (nomatch h.2)⟩
    | ok rest =>
      show Except.ok (front ++ rest) = Except.ok [] ↔ _
      rw [Except.ok.injEq, Except.ok.injEq, Except.ok.injEq]
      exact List.append_eq_nil_iff

/-- Behind a complete line the new record is read after the others. -/
theorem readRecords_append {file : File} {new : SpoolRecord} (h : unfinished file.bytes = [])
    (hnew : new.Fits) :
    readRecords parser (appendRecord file new) =
      (readRecords parser file).map (· ++ [new]) := by
  have hline := @lines_recordLine [] List.not_mem_nil new
  rw [List.nil_append, List.nil_append] at hline
  have hlines : readRecords parser (appendRecord file new) =
      readLines parser (lines file.bytes ++ [Utf8.encode (recordText new).toList]) := by
    rw [← hline, ← lines_append h]
    rfl
  have hread : readLines parser [Utf8.encode (recordText new).toList] = .ok [new] :=
    readLines_record hnew []
  rw [hlines, readLines_append, hread]
  unfold readRecords
  cases readLines parser (lines file.bytes) <;> rfl

/-- Behind an unfinished line the new record is part of that line. -/
theorem readRecords_append_unfinished (file : File) (new : SpoolRecord) :
    readRecords parser (appendRecord file new) =
      readLines parser (lines (finished file.bytes) ++
        [unfinished file.bytes ++ Utf8.encode (recordText new).toList]) := by
  have hbytes : file.bytes ++ recordLine new =
      finished file.bytes ++ (unfinished file.bytes ++ recordLine new) := by
    rw [← List.append_assoc, finished_append_unfinished]
  have hline := lines_recordLine (newline_notMem_unfinished file.bytes) new
  rw [← hline, ← lines_append (unfinished_finished file.bytes), ← hbytes]
  rfl

theorem trim_of_mem {c : Char} {cs : List Char} (hc : Text.isWhitespace c = false) (h : c ∈ cs) :
    (Text.trim (String.ofList cs)).isEmpty = false := by
  have hmem : c ∈ trimBoth Text.isWhitespace cs := (mem_trimBoth hc).mpr h
  rw [String.isEmpty_eq_false_iff]
  intro hempty
  have hnil : trimBoth Text.isWhitespace cs = [] := by
    have htrim := congrArg String.toList hempty
    rwa [Text.trim, String.toList_ofList, String.toList_ofList] at htrim
  rw [hnil] at hmem
  cases hmem

theorem decode_append_recordText {bytes : List UInt8} {cs : List Char} {new : SpoolRecord} :
    Utf8.decode (bytes ++ Utf8.encode (recordText new).toList) = some cs ↔
      ∃ front, Utf8.decode bytes = some front ∧ cs = front ++ (recordText new).toList := by
  constructor
  · intro h
    have hbytes := Utf8.decode_eq_some_iff.mp h
    obtain ⟨body, hbody⟩ := recordText_head new
    have hsplit : bytes ++ 0x7b :: Utf8.encode ('"' :: 'e' :: body) = Utf8.encode cs := by
      rw [← hbytes, hbody]
      rfl
    obtain ⟨front, rfl⟩ := Utf8.exists_encode_of_ascii (by decide) hsplit
    refine ⟨front, Utf8.decode_encode front, ?_⟩
    rw [← Utf8.encode_append] at hbytes
    exact (Utf8.encode_injective hbytes).symm
  · intro ⟨front, hfront, hcs⟩
    rw [Utf8.decode_eq_some_iff.mp hfront, hcs, ← Utf8.encode_append]
    exact Utf8.decode_encode _

/-- What the line is read as when a record follows an unfinished one. -/
theorem readLines_merged_iff {bytes : List UInt8} {new : SpoolRecord} :
    readLines parser [bytes ++ Utf8.encode (recordText new).toList] = .ok [] ↔
      ∃ cs, Utf8.decode bytes = some cs ∧
        parser.record (String.ofList (cs ++ (recordText new).toList)) = none := by
  have hline : ∀ cs, Utf8.decode (bytes ++ Utf8.encode (recordText new).toList) = some cs →
      readLines parser [bytes ++ Utf8.encode (recordText new).toList] =
        .ok (parser.record (String.ofList cs)).toList := by
    intro cs hcs
    obtain ⟨front, -, rfl⟩ := decode_append_recordText.mp hcs
    obtain ⟨body, hbody⟩ := recordText_head new
    have hvisible : (Text.trim (String.ofList (front ++ (recordText new).toList))).isEmpty = false :=
      @trim_of_mem '\x7b' _ (by decide) (by rw [hbody]; simp)
    rw [readLines, hcs]
    dsimp only
    rw [hvisible]
    show Except.ok (_ ++ []) = _
    rw [List.append_nil]
  constructor
  · intro hread
    cases hdecode : Utf8.decode (bytes ++ Utf8.encode (recordText new).toList) with
    | none =>
      rw [readLines_undecodable hdecode] at hread
      cases hread
    | some cs =>
      obtain ⟨front, hfront, rfl⟩ := decode_append_recordText.mp hdecode
      refine ⟨front, hfront, ?_⟩
      rw [hline _ hdecode] at hread
      exact Option.toList_eq_nil_iff.mp (Except.ok.inj hread)
  · rintro ⟨front, hfront, hnone⟩
    rw [hline _ (decode_append_recordText.mpr ⟨front, hfront, rfl⟩), hnone]
    rfl

/-! ## What a rewrite keeps -/

theorem bytes_writeRecords (records : List SpoolRecord) :
    (writeRecords records).bytes = complete records := by
  cases records <;> rfl

theorem withinBounds_nil (serde : Serde) : withinBounds serde maxRecords maxBytes [] = true := by
  simp [withinBounds, fileSize]

theorem withinBounds_longestSuffix (serde : Serde) (records : List SpoolRecord) :
    withinBounds serde maxRecords maxBytes
      (longestSuffix (withinBounds serde maxRecords maxBytes) records) = true := by
  by_cases hnil : longestSuffix (withinBounds serde maxRecords maxBytes) records = []
  · rw [hnil]
    exact withinBounds_nil serde
  · exact longestSuffix_holds hnil

theorem withinBounds_iff {serde : Serde} {records : List SpoolRecord} :
    withinBounds serde maxRecords maxBytes records = true ↔
      records.length ≤ maxRecords ∧ fileSize serde records ≤ maxBytes := by
  simp [withinBounds]

theorem rewrite_keepsNewest {records new : List SpoolRecord} (hrecords : ∀ r ∈ records, r.Fits)
    (hnew : ∀ r ∈ new, r.Fits) :
    KeepsNewest parser maxRecords maxBytes new
      (writeRecords (enforceSpoolBounds parser.serde (records ++ new) maxRecords maxBytes).1) := by
  rw [enforceSpoolBounds_kept]
  have hsuffix := longestSuffix_suffix (withinBounds parser.serde maxRecords maxBytes)
    (records ++ new)
  have hwithin := withinBounds_iff.mp
    (@withinBounds_longestSuffix maxRecords maxBytes parser.serde (records ++ new))
  have hnewest : longestSuffix (withinBounds parser.serde maxRecords maxBytes) new <:+
      longestSuffix (withinBounds parser.serde maxRecords maxBytes) (records ++ new) :=
    longestSuffix_maximal ((longestSuffix_suffix _ _).trans (List.suffix_append _ _))
      (withinBounds_longestSuffix _ _)
  constructor
  · rw [bytes_writeRecords, @length_complete parser]
    exact hwithin.2
  · refine ⟨_, readRecords_writeRecords ?_, hwithin.1⟩
    intro r hr
    rcases List.mem_append.mp (hsuffix.mem hr) with hr | hr
    · exact hrecords r hr
    · exact hnew r hr
  · intro _
    obtain ⟨older, holder⟩ := hnewest
    refine ⟨complete older, unfinished_complete older, ?_⟩
    rw [bytes_writeRecords, ← holder]
    exact List.flatMap_append

/-! ## When the appends keep to the bounds -/

theorem appendDead_keepsNewest_iff {deadFile : File} {newDead : List SpoolRecord}
    (hnew : ∀ r ∈ newDead, r.Fits) :
    (∃ after, appendDeadRecordsBoundedWith parser maxRecords maxBytes deadFile newDead = .ok after ∧
      KeepsNewest parser maxRecords maxBytes newDead after) ↔
    AppendsDeadWithin parser maxRecords maxBytes deadFile newDead := by
  unfold appendDeadRecordsBoundedWith AppendsDeadWithin
  by_cases hempty : newDead.isEmpty
  · rw [if_pos hempty, if_pos hempty]
    rw [List.isEmpty_iff] at hempty
    rw [hempty]
    constructor
    · intro ⟨after, hafter, hkeeps⟩
      cases hafter
      exact ⟨hkeeps.bytes, hkeeps.records⟩
    · exact fun ⟨hbytes, hrecords⟩ => ⟨deadFile, rfl, hbytes, hrecords, fun hne => absurd rfl hne⟩
  · rw [if_neg hempty, if_neg hempty]
    cases hread : readRecords parser deadFile with
    | error error =>
      exact ⟨fun ⟨_, hafter, _⟩ => (nomatch hafter), fun ⟨_, hok⟩ => (nomatch hok)⟩
    | ok records =>
      exact ⟨fun _ => ⟨records, rfl⟩,
        fun _ => ⟨_, rfl, rewrite_keepsNewest (fits_of_readLines hread) hnew⟩⟩

theorem longestSuffix_one {new : SpoolRecord} (hsize : lineSize parser.serde new ≤ maxBytes) :
    longestSuffix (withinBounds parser.serde maxRecords maxBytes) [new] =
      if maxRecords = 0 then [] else [new] := by
  have hwithin : withinBounds parser.serde maxRecords maxBytes [new] = true ↔ ¬ maxRecords = 0 := by
    rw [withinBounds_iff]
    unfold fileSize
    rw [List.map_singleton, List.sum_singleton, List.length_singleton]
    omega
  rw [longestSuffix]
  by_cases hzero : maxRecords = 0
  · rw [if_pos hzero, if_neg fun h => hwithin.mp h hzero]
    rfl
  · rw [if_neg hzero, if_pos (hwithin.mpr hzero)]

/-- The append that writes no more than its line counts no records. -/
theorem append_keepsNewest_iff {file : File} {new : SpoolRecord} (hnew : new.Fits)
    (hroom : file.bytes.length + (recordLine new).length ≤ maxBytes) :
    KeepsNewest parser maxRecords maxBytes [new] (appendRecord file new) ↔
      (unfinished file.bytes = [] ∧
        ∃ records, readRecords parser file = .ok records ∧ records.length < maxRecords) ∨
      (maxRecords = 0 ∧ Swallowed parser file new) := by
  have hbytes : (appendRecord file new).bytes = file.bytes ++ recordLine new := rfl
  have hsize : lineSize parser.serde new ≤ maxBytes := by
    rw [← length_recordLine]
    omega
  have hfits := @longestSuffix_one parser maxRecords maxBytes new hsize
  have hlength : (appendRecord file new).bytes.length ≤ maxBytes := by
    rw [hbytes, List.length_append]
    exact hroom
  by_cases hstart : unfinished file.bytes = []
  · have hread := @readRecords_append parser _ _ hstart hnew
    constructor
    · intro hkeeps
      obtain ⟨records, hrecords, hcount⟩ := hkeeps.records
      rw [hread] at hrecords
      cases hold : readRecords parser file with
      | error error =>
        rw [hold] at hrecords
        cases hrecords
      | ok old =>
        rw [hold] at hrecords
        rw [← Except.ok.inj hrecords, List.length_append, List.length_singleton] at hcount
        exact Or.inl ⟨hstart, old, rfl, hcount⟩
    · intro hcondition
      obtain ⟨-, old, hold, hcount⟩ := hcondition.resolve_right fun h => h.2.1 hstart
      refine ⟨hlength, ⟨old ++ [new], ?_, ?_⟩, ?_⟩
      · rw [hread, hold]
        rfl
      · rw [List.length_append]
        exact hcount
      · intro _
        refine ⟨file.bytes, hstart, ?_⟩
        rw [hfits, if_neg (by omega), hbytes]
        exact congrArg (file.bytes ++ ·) (List.append_nil _).symm
  · have hread : readRecords parser (appendRecord file new) = .ok [] ↔
        Swallowed parser file new := by
      rw [readRecords_append_unfinished, readLines_append_eq_nil, readLines_merged_iff]
      exact (and_iff_right hstart).symm
    constructor
    · intro hkeeps
      have hzero : maxRecords = 0 := by
        by_contra hpositive
        rw [if_neg hpositive] at hfits
        obtain ⟨front, hfront, hsplit⟩ := hkeeps.newest (by rw [hfits]; exact List.cons_ne_nil _ _)
        have hline : complete [new] = recordLine new := List.append_nil _
        rw [hfits, hline, hbytes] at hsplit
        rw [← List.append_cancel_right hsplit] at hfront
        exact hstart hfront
      obtain ⟨records, hrecords, hcount⟩ := hkeeps.records
      rw [hzero, Nat.le_zero, List.length_eq_zero_iff] at hcount
      rw [hcount] at hrecords
      exact Or.inr ⟨hzero, hread.mp hrecords⟩
    · intro hcondition
      obtain ⟨hzero, hswallowed⟩ := hcondition.resolve_left fun h => hstart h.1
      refine ⟨hlength, ⟨[], hread.mpr hswallowed, Nat.zero_le _⟩, ?_⟩
      intro hne
      rw [hfits, if_pos hzero] at hne
      exact absurd rfl hne

theorem append_iff {file : File} {new : SpoolRecord} (hnew : new.Fits) :
    (∃ after, appendRecordBoundedWith parser maxRecords maxBytes file new = .ok after ∧
      KeepsNewest parser maxRecords maxBytes [new] after) ↔
    AppendsWithin parser maxRecords maxBytes file new := by
  unfold appendRecordBoundedWith AppendsWithin
  by_cases hover : maxBytes < file.bytes.length + (recordLine new).length
  · rw [if_pos hover, if_pos hover]
    cases hread : readRecords parser file with
    | error error =>
      exact ⟨fun ⟨_, hafter, _⟩ => (nomatch hafter), fun ⟨_, hok⟩ => (nomatch hok)⟩
    | ok records =>
      have hfits : ∀ r ∈ [new], r.Fits := fun r hr => by rw [List.mem_singleton.mp hr]; exact hnew
      exact ⟨fun _ => ⟨records, rfl⟩,
        fun _ => ⟨_, rfl, rewrite_keepsNewest (fits_of_readLines hread) hfits⟩⟩
  · rw [if_neg hover, if_neg hover, ← append_keepsNewest_iff hnew (Nat.le_of_not_lt hover)]
    constructor
    · intro ⟨after, hafter, hkeeps⟩
      cases hafter
      exact hkeeps
    · exact fun hkeeps => ⟨_, rfl, hkeeps⟩

theorem dropped_add_kept (serde : Serde) (records : List SpoolRecord) :
    (enforceSpoolBounds serde records maxRecords maxBytes).2 +
      (enforceSpoolBounds serde records maxRecords maxBytes).1.length = records.length := by
  have hsuffix := longestSuffix_suffix (withinBounds serde maxRecords maxBytes) records
  rw [← enforceSpoolBounds_kept] at hsuffix
  exact Nat.sub_add_cancel hsuffix.length_le

/-- What the bounds promise: `enforce_spool_bounds` keeps the longest suffix within both and
tells how many records it dropped, and the appends keep to the bounds exactly when the file
can be read and, where the records are not counted, it is complete and has room. -/
theorem spool_bounds_iff (parser : Parser) (maxRecords maxBytes : ℕ) :
    (∀ records : List SpoolRecord,
      (enforceSpoolBounds parser.serde records maxRecords maxBytes).1 <:+ records ∧
      withinBounds parser.serde maxRecords maxBytes
        (enforceSpoolBounds parser.serde records maxRecords maxBytes).1 ∧
      (∀ kept, kept <:+ records → withinBounds parser.serde maxRecords maxBytes kept →
        kept <:+ (enforceSpoolBounds parser.serde records maxRecords maxBytes).1) ∧
      (enforceSpoolBounds parser.serde records maxRecords maxBytes).2 +
        (enforceSpoolBounds parser.serde records maxRecords maxBytes).1.length = records.length ∧
      fileSize parser.serde records = (writeRecords records).bytes.length) ∧
    (∀ file record, record.Fits →
      ((∃ after, appendRecordBoundedWith parser maxRecords maxBytes file record = .ok after ∧
        KeepsNewest parser maxRecords maxBytes [record] after) ↔
      AppendsWithin parser maxRecords maxBytes file record)) ∧
    ∀ deadFile newDead, (∀ r ∈ newDead, r.Fits) →
      ((∃ after, appendDeadRecordsBoundedWith parser maxRecords maxBytes deadFile newDead =
          .ok after ∧ KeepsNewest parser maxRecords maxBytes newDead after) ↔
      AppendsDeadWithin parser maxRecords maxBytes deadFile newDead) := by
  refine ⟨?_, fun file record hrecord => append_iff hrecord,
    fun deadFile newDead hnew => appendDead_keepsNewest_iff hnew⟩
  intro records
  have hdropped := @dropped_add_kept maxRecords maxBytes parser.serde records
  rw [enforceSpoolBounds_kept] at hdropped ⊢
  refine ⟨longestSuffix_suffix _ _, withinBounds_longestSuffix _ _, ?_, hdropped, ?_⟩
  · exact fun kept hkept hwithin => longestSuffix_maximal hkept hwithin
  · rw [bytes_writeRecords]
    exact (length_complete records).symm

end

/-! ## A file at the bound of its records -/

/-- As many records as the bound allows, in few bytes. -/
def fullFile : List SpoolRecord := List.replicate maxSpoolRecords goodRecord

theorem fullFile_fits : ∀ r ∈ fullFile, r.Fits := by
  intro r hr
  rw [List.eq_of_mem_replicate hr]
  exact goodRecord_fits goodRecord (List.mem_singleton_self _)

theorem fullFile_size (parser : Parser) :
    fileSize parser.serde fullFile + lineSize parser.serde goodRecord ≤ maxSpoolBytes := by
  have hline : lineSize parser.serde goodRecord ≤ 200 := by
    rw [← length_recordLine]
    decide
  have htotal : fileSize parser.serde fullFile = 10000 * lineSize parser.serde goodRecord := by
    unfold fileSize fullFile
    rw [List.map_replicate, List.sum_replicate]
    rfl
  have hbytes : maxSpoolBytes = 16777216 := rfl
  omega

/-- A file of complete lines takes the record whatever it holds already. -/
theorem append_complete {parser : Parser} {maxRecords maxBytes : ℕ} {records : List SpoolRecord}
    {new : SpoolRecord} (hrecords : ∀ r ∈ records, r.Fits) (hnew : new.Fits)
    (hsize : fileSize parser.serde records + lineSize parser.serde new ≤ maxBytes) :
    ∃ after,
      appendRecordBoundedWith parser maxRecords maxBytes (some (complete records)) new =
        .ok after ∧
      readRecords parser after = .ok (records ++ [new]) := by
  have hroom : (File.bytes (some (complete records))).length + (recordLine new).length ≤
      maxBytes := by
    rw [@length_recordLine parser]
    exact (congrArg (· + _) (length_complete records)).trans_le hsize
  refine ⟨_, if_neg (Nat.not_lt.mpr hroom), ?_⟩
  have hstart : unfinished (File.bytes (some (complete records))) = [] :=
    unfinished_complete records
  rw [readRecords_append hstart hnew, readRecords_whole hrecords]
  rfl

theorem bounded_append_exceeds :
    fullFile.length = maxSpoolRecords ∧ ∀ parser : Parser,
    withinBounds parser.serde maxSpoolRecords maxSpoolBytes fullFile = true ∧
    ∃ after,
      appendRecordBoundedWith parser maxSpoolRecords maxSpoolBytes (some (complete fullFile))
        goodRecord = .ok after ∧
      readRecords parser after = .ok (fullFile ++ [goodRecord]) ∧
      (fullFile ++ [goodRecord]).length = maxSpoolRecords + 1 ∧
      ¬ KeepsNewest parser maxSpoolRecords maxSpoolBytes [goodRecord] after := by
  have hlength : fullFile.length = maxSpoolRecords := List.length_replicate
  refine ⟨hlength, ?_⟩
  intro parser
  have hgood := goodRecord_fits goodRecord (List.mem_singleton_self _)
  have hsize := fullFile_size parser
  have hcount : (fullFile ++ [goodRecord]).length = maxSpoolRecords + 1 := by
    rw [List.length_append, hlength, List.length_singleton]
  obtain ⟨after, hafter, hread⟩ :=
    @append_complete parser maxSpoolRecords _ _ _ fullFile_fits hgood hsize
  refine ⟨withinBounds_iff.mpr ⟨hlength.le, by omega⟩, after, hafter, hread, hcount, ?_⟩
  intro hkeeps
  obtain ⟨records, hrecords, hwithin⟩ := hkeeps.records
  rw [hread] at hrecords
  rw [← Except.ok.inj hrecords, hcount] at hwithin
  omega

/-- One more record has room in a file of one where two are allowed. -/
theorem spool_bounds_iff_two : ∃ after,
    appendRecordBoundedWith plainParser 2 maxSpoolBytes (some (complete [goodRecord])) goodRecord =
      .ok after ∧ KeepsNewest plainParser 2 maxSpoolBytes [goodRecord] after := by
  have hgood := goodRecord_fits goodRecord (List.mem_singleton_self _)
  have happends : AppendsWithin plainParser 2 maxSpoolBytes (some (complete [goodRecord]))
      goodRecord := by
    unfold AppendsWithin
    rw [if_neg (by decide)]
    exact Or.inl ⟨unfinished_complete _, _, readRecords_whole goodRecord_fits, by decide⟩
  exact ((spool_bounds_iff plainParser 2 maxSpoolBytes).2.1 _ _ hgood).mpr happends

end BlackMonolith.Outbox
