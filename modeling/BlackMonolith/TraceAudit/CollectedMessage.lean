import Mathlib
import BlackMonolith.Library.KeyedAssembly
import BlackMonolith.TraceAudit.RelayedMessage

/-!
# The message as one document

A client that does not stream is given a document. It is assembled from what the relay lets
go, as a streaming client assembles its message, but it knows three types of blocks and takes
nothing but a type, an id and a name from the start of one. The two messages are one where
every block is of that kind.
-/
namespace BlackMonolith.TraceAudit
open Library

/-! ## The document -/

/-- `JSONDecodeError`, and what else `json.loads` raises. -/
inductive LoadsError
  | decode
  | other
deriving DecidableEq

/-- `json.loads`: white space around a value is no part of it. -/
structure JsonReader where
  loads : Text → Except LoadsError PyJson
  loads_nil : ∀ v, loads [] ≠ .ok v
  loads_strip : ∀ t v, loads t = .ok v → loads (PyString.mk t).strip.points = .ok v

/-- A block of `collect_message`. -/
structure CollectedBlock where
  type : PyString
  text : Text := []
  partialJson : Text := []
  thinking : Text := []
  signature : PyString := lit ""
  id : PyString := lit ""
  name : PyString := lit ""

/-- `message` and `blocks` of `collect_message`; the map has the keys in `order`. -/
structure Collection where
  message : Members := []
  blocks : InsertionMap ℤ CollectedBlock := .empty

/-- `d.update(members)`. -/
def update (d members : Members) : Members :=
  members.foldl (fun d member => InsertionMap.setIn member.1 member.2 d) d

/-- `block[field] += text`. -/
def CollectedBlock.append (block : CollectedBlock) (kind : DeltaKind) (token : Text) :
    CollectedBlock :=
  match kind with
  | .text => { block with text := block.text ++ token }
  | .inputJson => { block with partialJson := block.partialJson ++ token }
  | .thinking => { block with thinking := block.thinking ++ token }

namespace Collection

/-- `_block(index, kind)`, and what is done to the block. -/
def block (c : Collection) (index : ℤ) (kind : PyString) (f : CollectedBlock → CollectedBlock) :
    Collection :=
  { c with blocks := c.blocks.set index (f ((c.blocks.get? index).getD { type := kind })) }

def start (c : Collection) (data : Members) : Collection :=
  match getInt data "index" with
  | some index =>
      let block := (getDict data "content_block").getD []
      c.block index ((getStr block "type").getD (lit "text")) fun entry =>
        { entry with
          id := (getStr block "id").getD (lit "")
          name := (getStr block "name").getD (lit "") }
  | none => c

def sign (c : Collection) (data : Members) : Collection :=
  match getDict data "delta", getInt data "index" with
  | some delta, some index =>
      if getStr delta "type" = some (lit "signature_delta") then
        match getStr delta "signature" with
        | some signature =>
            c.block index (lit "thinking") fun entry => { entry with signature := signature }
        | none => c
      else c
  | _, _ => c

/-- The `message_delta` branch, on `message`. -/
def summarize (message data : Members) : Members :=
  let message :=
    match (getDict data "delta").bind (PyJson.get · "stop_reason") with
    | some reason =>
        if reason.truthy then InsertionMap.setIn (lit "stop_reason") reason message else message
    | none => message
  match getDict data "usage" with
  | some usage =>
      InsertionMap.setIn (lit "usage") (.dict (update ((getDict message "usage").getD []) usage))
        message
  | none => message

def next (c : Collection) : ClientEvent → Collection
  | .passthrough event =>
      let type := getStr event.data "type"
      if type = some (lit "message_start") then
        match getDict event.data "message" with
        | some message => { c with message := message }
        | none => c
      else if type = some (lit "content_block_start") then c.start event.data
      else if type = some (lit "content_block_delta") then c.sign event.data
      else if type = some (lit "message_delta") then
        { c with message := summarize c.message event.data }
      else c
  | .text index token kind => c.block index (lit "text") (·.append kind token)

end Collection

/-- The arguments of a tool call; what is no JSON is none. -/
def toolInput (reader : JsonReader) (partialJson : Text) : Option PyJson :=
  let raw := (PyString.mk partialJson).strip.points
  if raw = [] then some (.dict [])
  else
    match reader.loads raw with
    | .ok parsed => some parsed
    | .error .decode => some (.dict [])
    | .error .other => none

/-- A block of the document; `none` is an exception. -/
def CollectedBlock.content (reader : JsonReader) (block : CollectedBlock) : Option Members :=
  if block.type = lit "text" then
    some [(lit "type", str "text"), (lit "text", .str ⟨block.text⟩)]
  else if block.type = lit "thinking" then
    some [(lit "type", str "thinking"), (lit "thinking", .str ⟨block.thinking⟩),
      (lit "signature", .str block.signature)]
  else
    (toolInput reader block.partialJson).map fun input =>
      [(lit "type", .str block.type), (lit "id", .str block.id), (lit "name", .str block.name),
        (lit "input", input)]

/-- `message.setdefault(key, value)`. -/
def setDefault (message : Members) (key : String) (value : PyJson) : Members :=
  if (PyJson.get message key).isSome then message else message ++ [(lit key, value)]

/-- What every document has. -/
def finishDocument (message : Members) (content : List Members) : Members :=
  let message := InsertionMap.setIn (lit "content") (.list (content.map .dict)) message
  setDefault (setDefault (setDefault (setDefault message "type" (str "message"))
    "role" (str "assistant")) "stop_reason" (str "end_turn")) "stop_sequence" .none

/-- `collect_message` on what `run` gives; `none` is an exception. -/
def collectMessage (reader : JsonReader) (events : List ClientEvent)
    (reason : Option StopReason) : Option Members :=
  let c := events.foldl Collection.next {}
  match reason with
  | some .upstreamStreamError => none
  | some .reasoningDivergence =>
      some (finishDocument (InsertionMap.setIn (lit "stop_reason") (str "refusal") c.message)
        [[(lit "type", str "text"), (lit "text", .str ⟨safeRefusal⟩)]])
  | none => (c.blocks.values.mapM (CollectedBlock.content reader)).map (finishDocument c.message)

/-! ## A streaming client -/

/-- A delta as a client reads it. -/
inductive BlockDelta
  | text (kind : DeltaKind) (token : Text)
  | signature (signature : PyString)
  | citation (citation : PyJson)

def readDelta (delta : Members) : Option BlockDelta :=
  (getStr delta "type").bind fun type =>
    match DeltaKind.ofName type with
    | some kind => (getStr delta kind.payloadField).map fun s => .text kind s.points
    | none =>
        if type = lit "signature_delta" then (getStr delta "signature").map .signature
        else if type = citationDeltaKind then (PyJson.get delta "citation").map .citation
        else none

/-- What an event is for the blocks of a message. -/
def pieceOf (e : SseEvent) : KeyedPiece ℤ Members BlockDelta :=
  match e.frame with
  | .blockStart index _ => .start index ((getDict e.data "content_block").getD [])
  | .blockDelta index _ =>
      match (getDict e.data "delta").bind readDelta with
      | some delta => .add index delta
      | none => .other
  | _ => .other

/-- A block of a client: its members, and the arguments that came for it. -/
structure StreamedBlock where
  members : Members
  arguments : Text := []

namespace StreamedBlock

def append (members : Members) (key : String) (token : Text) : Members :=
  InsertionMap.setIn (lit key)
    (.str ⟨((getStr members key).map PyString.points).getD [] ++ token⟩) members

def add (block : StreamedBlock) : BlockDelta → StreamedBlock
  | .text .inputJson token => { block with arguments := block.arguments ++ token }
  | .text .text token => { block with members := append block.members "text" token }
  | .text .thinking token => { block with members := append block.members "thinking" token }
  | .signature s =>
      { block with members := InsertionMap.setIn (lit "signature") (.str s) block.members }
  | .citation citation =>
      let old := match PyJson.get block.members "citations" with
        | some (.list citations) => citations
        | _ => []
      { block with
        members := InsertionMap.setIn (lit "citations") (.list (old ++ [citation])) block.members }

/-- The block once it is closed; the arguments are JSON. -/
def close (reader : JsonReader) (block : StreamedBlock) : Option Members :=
  if block.arguments = [] then some block.members
  else
    match reader.loads block.arguments with
    | .ok input => some (InsertionMap.setIn (lit "input") input block.members)
    | .error _ => none

end StreamedBlock

structure StreamedMessage where
  members : Members := []
  blocks : InsertionMap ℤ StreamedBlock := .empty

/-- The changes of a `message_delta`. -/
def changed (members data : Members) : Members :=
  let delta := (getDict data "delta").getD []
  let members := match PyJson.get delta "stop_reason" with
    | some reason => InsertionMap.setIn (lit "stop_reason") reason members
    | none => members
  let members := match getDict data "usage" with
    | some usage =>
        InsertionMap.setIn (lit "usage") (.dict (update ((getDict members "usage").getD []) usage))
          members
    | none => members
  match PyJson.get delta "stop_sequence" with
  | some stop => InsertionMap.setIn (lit "stop_sequence") stop members
  | none => members

def addPiece (blocks : InsertionMap ℤ StreamedBlock) :
    KeyedPiece ℤ Members BlockDelta → InsertionMap ℤ StreamedBlock
  | .start index members => blocks.set index { members }
  | .add index delta =>
      match blocks.get? index with
      | some block => blocks.set index (block.add delta)
      | none => blocks
  | .other => blocks

def StreamedMessage.next (m : StreamedMessage) (e : SseEvent) : StreamedMessage where
  members :=
    match e.frame with
    | .messageStart => (getDict e.data "message").getD m.members
    | .messageDelta => changed m.members e.data
    | _ => m.members
  blocks := addPiece m.blocks (pieceOf e)

/-- What a client makes of a stream, if it can read the arguments of every tool call. -/
def streamedMessage (reader : JsonReader) (events : List SseEvent) : Option Members :=
  let m := events.foldl StreamedMessage.next {}
  (m.blocks.values.mapM (StreamedBlock.close reader)).map fun content =>
    InsertionMap.setIn (lit "content") (.list (content.map .dict)) m.members

/-! ## What the frames of a message are -/

/-- The message that a `message_start` carries has been given neither a reason to stop nor a
stop sequence. -/
structure MessageHead (message : Members) : Prop where
  type : (PyJson.get message "type").isSome
  role : (PyJson.get message "role").isSome
  stopReason : (PyJson.get message "stop_reason").isSome
  stopSequence : PyJson.get message "stop_sequence" = some .none

/-- The payloads of the frames of a message. -/
def SseEvent.WellFormedPayload (e : SseEvent) : Prop :=
  match e.frame with
  | .messageStart => ∃ message, getDict e.data "message" = some message ∧ MessageHead message ∧
      -- For another `usage` that counts as true, `dict` may raise.
      ∀ usage, PyJson.get message "usage" = some usage → usage.truthy = true →
        ∃ d, usage = .dict d
  | .blockStart _ type => ∀ block, getDict e.data "content_block" = some block →
      (type = lit "text" → (getStr block "text").isSome) ∧
        (type = lit "thinking" → (getStr block "thinking").isSome)
  | .messageDelta => ∃ delta reason, getDict e.data "delta" = some delta ∧
      PyJson.get delta "stop_reason" = some reason ∧ reason.truthy = true
  | _ => True

/-- What a payload names, by its frame. -/
def NamedBy (d : Members) : MessageFrame → Prop
  | .messageStart => getStr d "type" = some (lit "message_start")
  | .blockStart index type => getStr d "type" = some (lit "content_block_start") ∧
      blockIndex d = some index ∧ typeIn d "content_block" = some type
  | .blockDelta index type => getStr d "type" = some (lit "content_block_delta") ∧
      blockIndex d = some index ∧ typeIn d "delta" = some type
  | .messageDelta => getStr d "type" = some (lit "message_delta")
  | .blockStop _ | .messageStop | .other => ∃ type, getStr d "type" = some type ∧
      ∀ s ∈ ["message_start", "content_block_start", "content_block_delta", "message_delta"],
        type ≠ lit s
  | .malformed => True

theorem named_frame (e : SseEvent) : NamedBy e.data e.frame := by
  unfold SseEvent.frame
  cases htype : getStr e.data "type" with
  | none => trivial
  | some type =>
      dsimp only
      by_cases hempty : type.points.isEmpty = true
      · rw [if_pos hempty]
        trivial
      rw [if_neg hempty]
      unfold frameOf
      by_cases hstart : type = lit "message_start"
      · rw [if_pos hstart]
        exact htype.trans (congrArg some hstart)
      rw [if_neg hstart]
      by_cases hblock : type = lit "content_block_start"
      · rw [if_pos hblock]
        split
        · next hindex hkind => exact ⟨htype.trans (congrArg some hblock), hindex, hkind⟩
        · trivial
      rw [if_neg hblock]
      by_cases hdelta : type = lit "content_block_delta"
      · rw [if_pos hdelta]
        split
        · next hindex hkind => exact ⟨htype.trans (congrArg some hdelta), hindex, hkind⟩
        · trivial
      rw [if_neg hdelta]
      by_cases hsummary : type = lit "message_delta"
      · have hstop : type ≠ lit "content_block_stop" := by
          rw [hsummary, Ne, lit_inj]
          decide
        rw [if_neg hstop, if_pos hsummary]
        exact htype.trans (congrArg some hsummary)
      have hnamed : ∃ type', getStr e.data "type" = some type' ∧ ∀ s ∈ ["message_start",
          "content_block_start", "content_block_delta", "message_delta"], type' ≠ lit s := by
        refine ⟨type, htype, ?_⟩
        simp only [List.forall_mem_cons, List.not_mem_nil, false_imp_iff, implies_true, and_true]
        exact ⟨hstart, hblock, hdelta, hsummary⟩
      rw [if_neg hsummary]
      split_ifs
      · split
        · exact hnamed
        · trivial
      · exact hnamed
      · exact hnamed

/-! ## What the document is made of -/

/-- What `collect_message` does to its blocks. -/
def collectPiece (blocks : InsertionMap ℤ CollectedBlock) :
    KeyedPiece ℤ Members BlockDelta → InsertionMap ℤ CollectedBlock
  | .start index first =>
      let new : CollectedBlock := { type := (getStr first "type").getD (lit "text") }
      blocks.set index { (blocks.get? index).getD new with
        id := (getStr first "id").getD (lit "")
        name := (getStr first "name").getD (lit "") }
  | .add index (.text kind token) =>
      blocks.set index (((blocks.get? index).getD { type := lit "text" }).append kind token)
  | .add index (.signature signature) =>
      blocks.set index { (blocks.get? index).getD { type := lit "thinking" } with
        signature := signature }
  | .add _ (.citation _) | .other => blocks

/-- An event as the relay lets it go: no audited delta is passed through. -/
def ClientEvent.Relayed : ClientEvent → Prop
  | .passthrough e => e.auditedDelta = none
  | .text _ _ _ => True

theorem pieceOf_text (index : ℤ) (token : Text) (kind : DeltaKind) :
    pieceOf (ClientEvent.text index token kind).frame = .add index (.text kind token) := by
  unfold pieceOf
  rw [frame_text]
  cases kind
  · rfl
  · rfl
  · rfl

/-- A delta of an event that is not audited is a signature or a citation. -/
theorem readDelta_of_not_audited {e : SseEvent} {delta : Members}
    (haudited : e.auditedDelta = none)
    (htype : getStr e.data "type" = some (lit "content_block_delta"))
    (hdelta : getDict e.data "delta" = some delta) : readDelta delta =
      if getStr delta "type" = some (lit "signature_delta") then
        (getStr delta "signature").map .signature
      else if getStr delta "type" = some citationDeltaKind then
        (PyJson.get delta "citation").map .citation
      else none := by
  unfold SseEvent.auditedDelta at haudited
  unfold readDelta
  have hkind : e.Is "content_block_delta" := by
    apply kind_of_type htype
    decide
  rw [if_pos hkind, hdelta, Option.bind_some, Option.map_eq_none_iff] at haudited
  cases hname : getStr delta "type" with
  | none => rfl
  | some type =>
      rw [hname, Option.bind_some] at haudited
      rw [Option.bind_some, haudited]
      simp only [Option.some.injEq]

/-- What `collect_message` does with an event that is passed through, by its frame. -/
theorem next_passthrough (c : Collection) {e : SseEvent} (h : e.frame ≠ .malformed) :
    c.next (.passthrough e) = match e.frame with
      | .messageStart => { c with message := (getDict e.data "message").getD c.message }
      | .blockStart _ _ => c.start e.data
      | .blockDelta _ _ => c.sign e.data
      | .messageDelta => { c with message := Collection.summarize c.message e.data }
      | _ => c := by
  have hnamed := named_frame e
  unfold Collection.next
  dsimp only
  cases hframe : e.frame with
  | messageStart =>
      rw [hframe] at hnamed
      change getStr e.data "type" = some (lit "message_start") at hnamed
      rw [if_pos hnamed]
      cases getDict e.data "message" with
      | none => rfl
      | some message => rfl
  | blockStart index type =>
      rw [hframe] at hnamed
      rw [hnamed.1]
      simp only [Option.some.injEq, lit_inj, String.reduceEq, if_false, if_true]
  | blockDelta index type =>
      rw [hframe] at hnamed
      rw [hnamed.1]
      simp only [Option.some.injEq, lit_inj, String.reduceEq, if_false, if_true]
  | messageDelta =>
      rw [hframe] at hnamed
      change getStr e.data "type" = some (lit "message_delta") at hnamed
      rw [hnamed]
      simp only [Option.some.injEq, lit_inj, String.reduceEq, if_false, if_true]
  | blockStop _ | messageStop | other =>
      rw [hframe] at hnamed
      obtain ⟨type, htype, hnames⟩ := hnamed
      simp only [List.forall_mem_cons, List.not_mem_nil, false_imp_iff, implies_true, and_true]
        at hnames
      obtain ⟨hstart, hblock, hdelta, hsummary⟩ := hnames
      rw [htype]
      simp only [Option.some.injEq, hstart, hblock, hdelta, hsummary, if_false]
  | malformed => exact absurd hframe h

theorem blocks_next (c : Collection) {event : ClientEvent} (h : event.Relayed)
    (hframe : event.frame.frame ≠ .malformed) :
    (c.next event).blocks = collectPiece c.blocks (pieceOf event.frame) := by
  cases event with
  | text index token kind =>
      rw [pieceOf_text]
      rfl
  | passthrough e =>
      have hnamed := named_frame e
      change (c.next (.passthrough e)).blocks = collectPiece c.blocks (pieceOf e)
      rw [@next_passthrough c e hframe]
      unfold pieceOf
      cases hkind : e.frame with
      | messageStart | messageDelta | blockStop _ | messageStop | other => rfl
      | malformed => exact absurd hkind hframe
      | blockStart index type =>
          rw [hkind] at hnamed
          obtain ⟨-, hindex, -⟩ := hnamed
          dsimp only
          rw [Collection.start, getInt_of_blockIndex hindex]
          rfl
      | blockDelta index type =>
          rw [hkind] at hnamed
          obtain ⟨htype, hindex, hdeltaType⟩ := hnamed
          obtain ⟨delta, hdelta, hname⟩ := Option.bind_eq_some_iff.mp hdeltaType
          dsimp only
          rw [Collection.sign, getInt_of_blockIndex hindex, hdelta, Option.bind_some,
            readDelta_of_not_audited h htype hdelta]
          dsimp only
          by_cases hsignature : getStr delta "type" = some (lit "signature_delta")
          · rw [if_pos hsignature, if_pos hsignature]
            cases getStr delta "signature" with
            | none => rfl
            | some signature => rfl
          · rw [if_neg hsignature, if_neg hsignature]
            split_ifs
            · cases PyJson.get delta "citation" with
              | none => rfl
              | some citation => rfl
            · rfl

/-! ## The pieces of a message -/

def BlockDelta.typeName : BlockDelta → PyString
  | .text kind _ => kind.typeName
  | .signature _ => lit "signature_delta"
  | .citation _ => citationDeltaKind

theorem typeName_of_readDelta {delta : Members} {d : BlockDelta} (h : readDelta delta = some d) :
    getStr delta "type" = some d.typeName := by
  unfold readDelta at h
  obtain ⟨type, htype, hd⟩ := Option.bind_eq_some_iff.mp h
  rw [htype]
  cases hkind : DeltaKind.ofName type with
  | some kind =>
      rw [hkind] at hd
      obtain ⟨s, -, rfl⟩ := Option.map_eq_some_iff.mp hd
      unfold DeltaKind.ofName at hkind
      have hfound := List.find?_some hkind
      have hname : kind.typeName = type := of_decide_eq_true hfound
      exact congrArg some hname.symm
  | none =>
      rw [hkind] at hd
      dsimp only at hd
      split_ifs at hd with hsignature hcitation
      · obtain ⟨s, -, rfl⟩ := Option.map_eq_some_iff.mp hd
        exact congrArg some hsignature
      · obtain ⟨s, -, rfl⟩ := Option.map_eq_some_iff.mp hd
        exact congrArg some hcitation

/-- A delta fits the type of a block. -/
def FitsBlock (first : Members) (delta : BlockDelta) : Prop :=
  ∃ type, getStr first "type" = some type ∧ deltaFits delta.typeName type = true

theorem proper_pieces {p q : BlockProgress ℤ PyString} {events : List SseEvent}
    (h : (frames events).foldlM (BlockProgress.step deltaFits) p = some q)
    {used : List (ℤ × Members)} (hkeys : used.map Prod.fst = p.used)
    (htypes : ∀ block ∈ p.opened, ∃ first, (block.1, first) ∈ used ∧
      getStr first "type" = some block.2) :
    KeyedPiece.Proper FitsBlock used (events.map pieceOf) := by
  induction events generalizing p used with
  | nil => trivial
  | cons e events ih =>
      rw [frames, List.map_cons, List.foldlM_cons] at h
      obtain ⟨p', hstep, hrest⟩ := Option.bind_eq_some_iff.mp h
      have hnamed := named_frame e
      rw [List.map_cons]
      unfold pieceOf
      cases hframe : e.frame with
      | malformed =>
          rw [hframe] at hstep
          cases hstep
      | messageStart | messageDelta | messageStop | other =>
          rw [hframe] at hstep
          simp only [BlockProgress.step] at hstep
          split_ifs at hstep
          cases hstep
          exact ih hrest hkeys htypes
      | blockStop index =>
          rw [hframe] at hstep
          simp only [BlockProgress.step] at hstep
          split_ifs at hstep
          cases hstep
          exact ih hrest hkeys fun block hblock => htypes block (List.mem_of_mem_eraseP hblock)
      | blockStart index type =>
          rw [hframe] at hstep hnamed
          obtain ⟨-, -, htype⟩ := hnamed
          obtain ⟨first, hfirst, hname⟩ := Option.bind_eq_some_iff.mp htype
          simp only [BlockProgress.step] at hstep
          split_ifs at hstep with hnew
          cases hstep
          dsimp only
          rw [hfirst, Option.getD_some]
          refine ⟨by rw [hkeys]; exact hnew.2, ih hrest ?_ ?_⟩
          · rw [List.map_append, hkeys]
            rfl
          · intro block hblock
            rcases List.mem_append.mp hblock with hold | hlast
            · obtain ⟨s, hs, hsame⟩ := htypes block hold
              exact ⟨s, List.mem_append_left _ hs, hsame⟩
            · rw [List.mem_singleton.mp hlast]
              exact ⟨first, List.mem_append_right _ (List.mem_singleton_self _), hname⟩
      | blockDelta index type =>
          rw [hframe] at hstep hnamed
          obtain ⟨-, -, htype⟩ := hnamed
          obtain ⟨delta, hdelta, hname⟩ := Option.bind_eq_some_iff.mp htype
          simp only [BlockProgress.step] at hstep
          split_ifs at hstep with hfits
          cases hstep
          dsimp only
          rw [hdelta, Option.bind_some]
          cases hd : readDelta delta with
          | none => exact ih hrest hkeys htypes
          | some d =>
              obtain ⟨kind, hkind, hfit⟩ := (Option.any_eq_true _ _).mp hfits.2
              obtain ⟨block, hblock, rfl⟩ := Option.map_eq_some_iff.mp hkind
              obtain ⟨first, hfirst, hsame⟩ := htypes block (List.mem_of_find?_eq_some hblock)
              have hfound := List.find?_some hblock
              have hindex : block.1 = index := of_decide_eq_true hfound
              refine ⟨⟨first, hindex ▸ hfirst, block.2, hsame, ?_⟩, ih hrest hkeys htypes⟩
              rw [typeName_of_readDelta hd] at hname
              rw [Option.some.inj hname]
              exact hfit

end BlackMonolith.TraceAudit
