import Mathlib
import BlackMonolith.Library.PyJsonRoundTrip
import BlackMonolith.TraceAudit.AnthropicRelay

/-!
# Server-sent events on the wire

`format_sse` writes an event as two lines and a blank one, and `iter_sse_events`
reads events off the lines of a stream. A payload is one line of printable ASCII,
whatever its strings have in them, so that events come back as they were sent while
the stream stays within the limits of the reader.
-/
namespace BlackMonolith.TraceAudit
open Library PyJsonText

def maxSseLineBytes : ℕ := 256 * 1024
def maxSseEvents : ℕ := 1000000

inductive SseError
  | eventLimit
  | lineTooLong
  | notJson
  | notObject
deriving Repr, DecidableEq

def SseError.message : SseError → String
  | .eventLimit => "upstream SSE stream exceeded the event limit"
  | .lineTooLong => "upstream SSE line exceeds 256 KiB"
  | .notJson => "upstream SSE payload is not valid JSON"
  | .notObject => "upstream SSE payload must be a JSON object"

/-- `len(raw.encode("utf-8", errors="replace"))`. -/
def replacedLength (t : Text) : ℕ :=
  (t.map fun c => if PyString.isSurrogate c then 1 else PyString.utf8Width c).sum

/-- `_sse_event_name`. -/
def sseEventName (data : Members) (fallback : PyString) : PyString :=
  match getStr data "type" with
  | some name => if name.points.isEmpty then fallback else name
  | none => fallback

section
variable (floatRepr : Text → String)

/-- The event of data lines that a blank line or the end of the stream closes. -/
def sseEvent (eventName : Text) (dataLines : List Text) : Except SseError SseEvent :=
  match loads floatRepr ([0x0A].intercalate dataLines) with
  | none => .error .notJson
  | some (.dict data) => .ok ⟨sseEventName data ⟨eventName⟩, data⟩
  | some _ => .error .notObject

structure SseReader where
  eventName : Text
  dataLines : List Text
deriving Repr, DecidableEq

def rstripReturn (t : Text) : Text := t.rdropWhile (· = 0x0D)

/-- The value of a field, without the blank that follows the colon. -/
def fieldValue (line : Text) : Text :=
  let value := (line.dropWhile (· ≠ 0x3A)).tail
  if value.head? = some 0x20 then value.tail else value

/-- A line that is not blank. -/
def SseReader.read (r : SseReader) (line : Text) : SseReader :=
  if line.head? = some 0x3A then r
  else if line.takeWhile (· ≠ 0x3A) = text "event" then { r with eventName := fieldValue line }
  else if line.takeWhile (· ≠ 0x3A) = text "data" then
    { r with dataLines := r.dataLines ++ [fieldValue line] }
  else r

/-- The events of the lines that are left, after `seen` of them, and what is raised. -/
def iterSseFrom : ℕ → SseReader → List Text → List SseEvent × Option SseError
  | _, r, [] =>
      if r.dataLines.isEmpty then ([], none)
      else
        match sseEvent floatRepr r.eventName r.dataLines with
        | .ok e => ([e], none)
        | .error e => ([], some e)
  | seen, r, raw :: lines =>
      if maxSseEvents < seen + 1 then ([], some .eventLimit)
      else if maxSseLineBytes < replacedLength raw then ([], some .lineTooLong)
      else if (rstripReturn raw).isEmpty then
        if r.dataLines.isEmpty then iterSseFrom (seen + 1) ⟨[], []⟩ lines
        else
          match sseEvent floatRepr r.eventName r.dataLines with
          | .error e => ([], some e)
          | .ok e =>
              let (events, raised) := iterSseFrom (seen + 1) ⟨[], []⟩ lines
              (e :: events, raised)
      else iterSseFrom (seen + 1) (r.read (rstripReturn raw)) lines

def iterSseEvents (lines : List Text) : List SseEvent × Option SseError :=
  iterSseFrom floatRepr 0 ⟨[], []⟩ lines

end

def sseFrame (name json : Text) : Text :=
  text "event: " ++ name ++ text "\ndata: " ++ json ++ text "\n\n"

/-- `format_sse`, with the name and the payload of `frame`. -/
def formatSse (event : ClientEvent) : Option Text :=
  (dumps compact (.dict event.frame.data)).map (sseFrame event.frame.name.points)

def formatAll (events : List ClientEvent) : Option Text := (events.mapM formatSse).map List.flatten

/-- What ends a line. -/
inductive LineEnd
  | lf
  | crlf
deriving Repr, DecidableEq

/-- What a line keeps of its end when a text is split at its line feeds. -/
def LineEnd.kept : LineEnd → Text
  | lf => []
  | crlf => [0x0D]

/-- A text with its lines ended in one way. -/
def LineEnd.apply (ending : LineEnd) (t : Text) : Text :=
  t.flatMap fun c => if c = 0x0A then ending.kept ++ [0x0A] else [c]

/-- The lines of a text; one that nothing ends is the last. -/
def splitLines : Text → List Text
  | [] => []
  | c :: t =>
      if c = 0x0A then [] :: splitLines t
      else
        match splitLines t with
        | [] => [[c]]
        | line :: lines => (c :: line) :: lines

/-- What the reader accepts of a stream. -/
structure Fits (lines : List Text) : Prop where
  count : lines.length ≤ maxSseEvents
  size : ∀ line ∈ lines, replacedLength line ≤ maxSseLineBytes

/-- An event whose payload names it, in one line, and is a value that JSON gives back. -/
structure Sendable (floatRepr : Text → String) (event : ClientEvent) : Prop where
  named : getStr event.frame.data "type" = some event.frame.name
  line : 0x0A ∉ event.frame.name.points
  writable : Writable floatRepr (.dict event.frame.data)

/-! ## The lines of a frame -/

theorem splitLines_line {line : Text} (h : 0x0A ∉ line) (t : Text) :
    splitLines (line ++ 0x0A :: t) = line :: splitLines t := by
  induction line with
  | nil => rfl
  | cons c line ih =>
      rw [List.mem_cons, not_or] at h
      rw [List.cons_append, splitLines, if_neg (fun heq => h.1 heq.symm), ih h.2]

namespace LineEnd
variable {ending : LineEnd}

theorem apply_line {line : Text} (h : 0x0A ∉ line) (t : Text) :
    ending.apply (line ++ 0x0A :: t) = line ++ (ending.kept ++ 0x0A :: ending.apply t) := by
  induction line with
  | nil =>
      show ending.kept ++ [0x0A] ++ ending.apply t = _
      rw [List.append_assoc, List.singleton_append]
      rfl
  | cons c line ih =>
      rw [List.mem_cons, not_or] at h
      have hc : ending.apply (c :: (line ++ 0x0A :: t)) = c :: ending.apply (line ++ 0x0A :: t) := by
        unfold LineEnd.apply
        rw [List.flatMap_cons, if_neg (fun heq => h.1 heq.symm)]
        rfl
      rw [List.cons_append, hc, ih h.2, List.cons_append]

theorem feed_notMem_kept : 0x0A ∉ ending.kept := by
  cases ending <;> decide

end LineEnd

/-- The lines of a frame. -/
def frameLines (ending : LineEnd) (name json : Text) : List Text :=
  [text "event: " ++ name ++ ending.kept, text "data: " ++ json ++ ending.kept, ending.kept]

theorem splitLines_frame {ending : LineEnd} {name json : Text} (hname : 0x0A ∉ name)
    (hjson : 0x0A ∉ json) (t : Text) :
    splitLines (ending.apply (sseFrame name json ++ t)) =
      frameLines ending name json ++ splitLines (ending.apply t) := by
  have hevent : 0x0A ∉ text "event: " ++ name := by
    rw [List.mem_append, not_or]
    exact ⟨by decide, hname⟩
  have hdata : 0x0A ∉ text "data: " ++ json := by
    rw [List.mem_append, not_or]
    exact ⟨by decide, hjson⟩
  have hkept : ∀ {line : Text}, 0x0A ∉ line → 0x0A ∉ line ++ ending.kept := by
    intro line hline
    rw [List.mem_append, not_or]
    exact ⟨hline, LineEnd.feed_notMem_kept⟩
  have htext : sseFrame name json ++ t =
      (text "event: " ++ name) ++ 0x0A :: ((text "data: " ++ json) ++ 0x0A :: ([] ++ 0x0A :: t)) := by
    have hbreak : text "\ndata: " = 0x0A :: text "data: " := by decide
    have hend : text "\n\n" = [0x0A, 0x0A] := by decide
    unfold sseFrame
    rw [hbreak, hend]
    simp only [List.append_assoc, List.cons_append, List.nil_append]
  rw [htext, LineEnd.apply_line hevent, LineEnd.apply_line hdata,
    LineEnd.apply_line List.not_mem_nil, ← List.append_assoc, splitLines_line (hkept hevent),
    ← List.append_assoc, splitLines_line (hkept hdata), List.nil_append,
    splitLines_line LineEnd.feed_notMem_kept]
  rfl

/-! ## Reading a frame -/

theorem rstripReturn_kept (ending : LineEnd) (t : Text) :
    rstripReturn (t ++ ending.kept) = rstripReturn t := by
  cases ending with
  | lf => rw [LineEnd.kept, List.append_nil]
  | crlf => exact List.rdropWhile_concat_pos _ _ _ (by decide)

theorem rstripReturn_of_notMem {t : Text} (h : 0x0D ∉ t) : rstripReturn t = t := by
  apply List.rdropWhile_eq_self_iff.mpr
  intro hne hlast
  exact h (of_decide_eq_true hlast ▸ List.getLast_mem hne)

/-- A blank at the end of the front keeps it. -/
theorem rstripReturn_append {t : Text} (h : ∀ c ∈ t.reverse.head?, (decide (c = 0x0D)) = false)
    (u : Text) : rstripReturn (t ++ u) = t ++ rstripReturn u := by
  unfold rstripReturn List.rdropWhile
  rw [List.reverse_append, (takeWhile_append_stop h).2, List.reverse_append, List.reverse_reverse]

section
variable {floatRepr : Text → String}

theorem iterSseFrom_line {seen : ℕ} {r : SseReader} {raw : Text} {lines : List Text}
    (hseen : seen + 1 ≤ maxSseEvents) (hsize : replacedLength raw ≤ maxSseLineBytes)
    (hline : (rstripReturn raw).isEmpty = false) :
    iterSseFrom floatRepr seen r (raw :: lines) =
      iterSseFrom floatRepr (seen + 1) (r.read (rstripReturn raw)) lines := by
  rw [iterSseFrom, if_neg (Nat.not_lt.mpr hseen), if_neg (Nat.not_lt.mpr hsize),
    if_neg (by rw [hline]; decide)]

theorem sseEventName_of_named {data : Members} {name : PyString}
    (h : getStr data "type" = some name) :
    sseEventName data ⟨rstripReturn name.points⟩ = name := by
  unfold sseEventName
  rw [h]
  dsimp only
  split_ifs with hempty
  · have hnil : name = ⟨[]⟩ := congrArg PyString.mk (List.isEmpty_iff.mp hempty)
    rw [hnil]
    rfl
  · rfl

/-- The frame of an event is read as the event, and the reader is at its beginning again. -/
theorem iterSseFrom_frame {seen : ℕ} {ending : LineEnd} {e : SseEvent} {json : Text}
    {rest : List Text} (hnamed : getStr e.data "type" = some e.name)
    (hjson : ∀ c ∈ json, Printable c) (hloads : loads floatRepr json = some (.dict e.data))
    (hseen : seen + 3 ≤ maxSseEvents)
    (hsize : ∀ line ∈ frameLines ending e.name.points json, replacedLength line ≤ maxSseLineBytes) :
    iterSseFrom floatRepr seen ⟨[], []⟩ (frameLines ending e.name.points json ++ rest) =
      (e :: (iterSseFrom floatRepr (seen + 3) ⟨[], []⟩ rest).1,
        (iterSseFrom floatRepr (seen + 3) ⟨[], []⟩ rest).2) := by
  obtain ⟨heventSize, hsizes⟩ := List.forall_mem_cons.mp hsize
  obtain ⟨hdataSize, hblankSize⟩ := List.forall_mem_cons.mp hsizes
  have hevent : rstripReturn (text "event: " ++ e.name.points ++ ending.kept) =
      text "event: " ++ rstripReturn e.name.points := by
    rw [rstripReturn_kept, rstripReturn_append]
    intro c hc
    rw [show (text "event: ").reverse.head? = some 0x20 by decide] at hc
    cases hc
    decide
  have hdata : rstripReturn (text "data: " ++ json ++ ending.kept) = text "data: " ++ json := by
    rw [rstripReturn_kept, rstripReturn_of_notMem]
    rw [List.mem_append, not_or]
    refine ⟨by decide, fun hmem => ?_⟩
    exact absurd (hjson _ hmem).1 (by decide)
  have hblank : (rstripReturn ending.kept).isEmpty = true := by
    cases ending <;> decide
  have hreadEvent : (SseReader.mk [] []).read (text "event: " ++ rstripReturn e.name.points) =
      ⟨rstripReturn e.name.points, []⟩ := rfl
  have hreadData : (SseReader.mk (rstripReturn e.name.points) []).read (text "data: " ++ json) =
      ⟨rstripReturn e.name.points, [json]⟩ := rfl
  have hsse : sseEvent floatRepr (rstripReturn e.name.points) [json] = .ok e := by
    unfold sseEvent
    rw [show [0x0A].intercalate [json] = json from List.append_nil json, hloads]
    dsimp only
    rw [sseEventName_of_named hnamed]
  unfold frameLines
  rw [List.cons_append, iterSseFrom_line (by omega) heventSize (by rw [hevent]; rfl), hevent,
    hreadEvent, List.cons_append, iterSseFrom_line (by omega) hdataSize (by rw [hdata]; rfl), hdata,
    hreadData, List.cons_append, iterSseFrom, if_neg (by omega),
    if_neg (Nat.not_lt.mpr (hblankSize _ List.mem_cons_self)), if_pos hblank]
  dsimp only
  rw [if_neg (show ¬ [json].isEmpty = true from Bool.false_ne_true), hsse]
  rfl

end

/-! ## Streams -/

/-- The lines that the frames of events have. -/
def streamLines (ending : LineEnd) (events : List ClientEvent) : List Text :=
  events.flatMap fun e =>
    frameLines ending e.frame.name.points (textAt compact 0 (.dict e.frame.data))

section
variable {floatRepr : Text → String} {events : List ClientEvent}

theorem formatAll_of_sendable (h : ∀ e ∈ events, Sendable floatRepr e) (ending : LineEnd) :
    ∃ t, formatAll events = some t ∧ splitLines (ending.apply t) = streamLines ending events := by
  induction events with
  | nil => exact ⟨[], rfl, rfl⟩
  | cons e events ih =>
      obtain ⟨he, hrest⟩ := List.forall_mem_cons.mp h
      obtain ⟨t, ht, hlines⟩ := ih hrest
      obtain ⟨frames, hframes, rfl⟩ := Option.map_eq_some_iff.mp ht
      have hformat : formatSse e = some (sseFrame e.frame.name.points
          (textAt compact 0 (.dict e.frame.data))) := by
        unfold formatSse
        rw [dumps_of_writable he.writable]
        rfl
      have hjson : 0x0A ∉ textAt compact 0 (.dict e.frame.data) := fun hmem =>
        absurd (printable_compact he.writable 0 _ hmem).1 (by decide)
      refine ⟨sseFrame e.frame.name.points (textAt compact 0 (.dict e.frame.data)) ++
        frames.flatten, ?_, ?_⟩
      · unfold formatAll
        rw [List.mapM_cons, hformat, hframes]
        rfl
      · rw [splitLines_frame he.line hjson, hlines]
        rfl

theorem iterSseFrom_streamLines (h : ∀ e ∈ events, Sendable floatRepr e) {ending : LineEnd} {seen : ℕ}
    (hcount : seen + (streamLines ending events).length ≤ maxSseEvents)
    (hsize : ∀ line ∈ streamLines ending events, replacedLength line ≤ maxSseLineBytes) :
    iterSseFrom floatRepr seen ⟨[], []⟩ (streamLines ending events) =
      (events.map ClientEvent.frame, none) := by
  induction events generalizing seen with
  | nil => rfl
  | cons e events ih =>
      obtain ⟨he, hrest⟩ := List.forall_mem_cons.mp h
      have hlines : streamLines ending (e :: events) =
          frameLines ending e.frame.name.points (textAt compact 0 (.dict e.frame.data)) ++
            streamLines ending events := List.flatMap_cons
      rw [hlines] at hcount hsize ⊢
      rw [List.length_append] at hcount
      have hthree : (frameLines ending e.frame.name.points
          (textAt compact 0 (.dict e.frame.data))).length = 3 := rfl
      rw [iterSseFrom_frame he.named (printable_compact he.writable 0) (loads_textAt he.writable)
        (by omega) (fun line hline => hsize line (List.mem_append_left _ hline)),
        ih hrest (by omega) (fun line hline => hsize line (List.mem_append_right _ hline))]
      rfl

/-- A reader that raises nothing has found its limits kept. -/
theorem fits_of_iterSseFrom {seen : ℕ} {r : SseReader} {lines : List Text}
    (h : (iterSseFrom floatRepr seen r lines).2 = none) (hseen : seen ≤ maxSseEvents) :
    seen + lines.length ≤ maxSseEvents ∧ ∀ line ∈ lines, replacedLength line ≤ maxSseLineBytes := by
  induction lines generalizing seen r with
  | nil => exact ⟨hseen, List.forall_mem_nil _⟩
  | cons raw lines ih =>
      have hnext : ∀ r', (iterSseFrom floatRepr (seen + 1) r' lines).2 = none →
          seen + 1 ≤ maxSseEvents → replacedLength raw ≤ maxSseLineBytes →
          seen + (raw :: lines).length ≤ maxSseEvents ∧
            ∀ line ∈ raw :: lines, replacedLength line ≤ maxSseLineBytes := by
        intro r' hr' hcount hsize
        obtain ⟨hlength, hsizes⟩ := ih hr' hcount
        refine ⟨?_, List.forall_mem_cons.mpr ⟨hsize, hsizes⟩⟩
        rw [List.length_cons]
        omega
      rw [iterSseFrom] at h
      split_ifs at h with hcount hsize hblank hempty
      · exact hnext _ h (Nat.not_lt.mp hcount) (Nat.not_lt.mp hsize)
      · split at h
        · cases h
        · exact hnext _ h (Nat.not_lt.mp hcount) (Nat.not_lt.mp hsize)
      · exact hnext _ h (Nat.not_lt.mp hcount) (Nat.not_lt.mp hsize)

end

/-- A text event of any kind can be sent. -/
theorem sendable_text (floatRepr : Text → String) {index : ℤ}
    (hindex : (decimal index.natAbs).length ≤ maxStrDigits) {token : Text} (htoken : Unpaired token)
    (kind : DeltaKind) : Sendable floatRepr (.text index token kind) := by
  have hname : ∀ s : String, (lit s).Encodable → Unpaired (lit s).points :=
    fun _ h => unpaired_of_encodable h
  have hkeys : [lit "type", lit "index", lit "delta"].Nodup := by decide
  have hdeltaKeys : [lit "type", lit kind.payloadField].Nodup := by cases kind <;> decide
  have hkind : kind.typeName.Encodable ∧ (lit kind.payloadField).Encodable := by
    cases kind <;> decide
  have hline : 0x0A ∉ (lit "content_block_delta").points := by decide
  have hdelta : Writable floatRepr (.dict [(lit "type", .str kind.typeName),
      (lit kind.payloadField, .str ⟨token⟩)]) :=
    ⟨hdeltaKeys, hname _ (by decide), unpaired_of_encodable hkind.1, hname _ hkind.2, htoken, trivial⟩
  refine ⟨rfl, hline, hkeys, hname _ (by decide), hname _ (by decide), hname _ (by decide), hindex,
    hname _ (by decide), hdelta, trivial⟩

/-- Separators and colons in a tool call and in an answer. -/
def separatorEvents : List ClientEvent :=
  [.text 0 (text "a: b\r\n\u2028") .inputJson, .text 1 (text "\n\ndata: c\u0085") .text]

def ping (extra : Members) : ClientEvent := .passthrough ⟨lit "ping", (lit "type", str "ping") :: extra⟩

@[irreducible] def pad : PyString := ⟨List.replicate (256 * 1024) 0x61⟩

/-- A payload that is longer than a line may be. -/
def longPing : ClientEvent := ping [(lit "pad", .str pad)]

/-- A name that goes on as a field of its own. -/
def brokenName : ClientEvent := .passthrough ⟨lit "x\ndata: 1", [(lit "type", str "x\ndata: 1")]⟩

/-- Two fragments, each with one half of a character. -/
def splitCharacter : ClientEvent := .text 0 [0xD83D, 0xDE00] .text

theorem replacedLength_ge (t : Text) : t.length ≤ replacedLength t := by
  unfold replacedLength
  induction t with
  | nil => exact Nat.le_refl 0
  | cons c t ih =>
      have hc : 1 ≤ if PyString.isSurrogate c then 1 else PyString.utf8Width c := by
        unfold PyString.utf8Width
        split_ifs <;> omega
      rw [List.length_cons, List.map_cons, List.sum_cons]
      omega

theorem longPing_sendable (floatRepr : Text → String) : Sendable floatRepr longPing := by
  have hpad : pad.Encodable := by
    intro c hc
    unfold pad at hc
    rw [List.eq_of_mem_replicate hc]
    decide
  constructor
  · decide +kernel
  · decide
  · exact ⟨by decide, unpaired_of_encodable (by decide), unpaired_of_encodable (by decide),
      unpaired_of_encodable (by decide), unpaired_of_encodable hpad, trivial⟩

/-- A payload is longer than a string in it. -/
theorem length_padded (s : PyString) : s.points.length <
    (textAt compact 0 (.dict [(lit "type", str "ping"), (lit "pad", .str s)])).length := by
  have hmember := (@length_membersAt_cons compact (0 + 1) (lit "pad") (.str s) []).2.1
  have hmembers := (@length_membersAt_cons compact (0 + 1) (lit "type") (str "ping")
    [(lit "pad", .str s)]).2.2 (List.cons_ne_nil _ _)
  have hquoted := length_quoted s
  simp only [textAt, List.length_cons, List.length_append] at hmember ⊢
  omega

theorem longPing_too_long :
    ¬ ∀ line ∈ streamLines .lf [longPing], replacedLength line ≤ maxSseLineBytes := by
  intro h
  have hdata := h (text "data: " ++ textAt compact 0 (.dict longPing.frame.data) ++ LineEnd.lf.kept)
    (List.mem_cons_of_mem _ List.mem_cons_self)
  have hlength := replacedLength_ge
    (text "data: " ++ textAt compact 0 (.dict longPing.frame.data) ++ LineEnd.lf.kept)
  have hpad : pad.points.length = maxSseLineBytes := by
    unfold pad
    exact List.length_replicate
  have hpadded : pad.points.length < (textAt compact 0 (.dict longPing.frame.data)).length :=
    length_padded pad
  rw [List.length_append, List.length_append] at hlength
  omega

theorem LineEnd.lf_apply (t : Text) : LineEnd.lf.apply t = t := by
  have hself : (fun c : CodePoint => if c = 0x0A then LineEnd.lf.kept ++ [0x0A] else [c]) =
      fun c => [c] := by
    funext c
    split_ifs with hc
    · rw [hc]
      rfl
    · rfl
  unfold LineEnd.apply
  rw [hself]
  exact List.flatMap_singleton' t

end BlackMonolith.TraceAudit
