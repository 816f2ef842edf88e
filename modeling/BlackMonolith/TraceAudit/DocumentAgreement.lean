import Mathlib
import BlackMonolith.TraceAudit.PlainBlocks

/-!
# The document and the stream

The relay lets the frames of an answer go in their order, with the same starts and ends and
other texts in between. Over these frames the members of the document and those of a
streaming client change together, up to a stop sequence, and so do their blocks.
-/
namespace BlackMonolith.TraceAudit
open Library

/-! ## All blocks -/

section
variable {sent : List ClientEvent} {events : List SseEvent}

theorem blocks_collected (c : Collection) (hrelayed : ∀ event ∈ sent, event.Relayed)
    (hframes : ∀ event ∈ sent, event.frame.frame ≠ .malformed) :
    (sent.foldl Collection.next c).blocks =
      ((sent.map ClientEvent.frame).map pieceOf).foldl collectPiece c.blocks := by
  induction sent generalizing c with
  | nil => rfl
  | cons event sent ih =>
      obtain ⟨hfirst, hrest⟩ := List.forall_mem_cons.mp hrelayed
      obtain ⟨hframe, hframes⟩ := List.forall_mem_cons.mp hframes
      rw [List.foldl_cons, ih _ hrest hframes, blocks_next c hfirst hframe]
      rfl

theorem blocks_streamed (m : StreamedMessage) (events : List SseEvent) :
    (events.foldl StreamedMessage.next m).blocks =
      (events.map pieceOf).foldl addPiece m.blocks := by
  induction events generalizing m with
  | nil => rfl
  | cons e events ih => exact ih (m.next e)

variable {pieces : List (KeyedPiece ℤ Members BlockDelta)}

theorem entries_collected (h : KeyedPiece.Proper FitsBlock [] pieces) :
    (pieces.foldl collectPiece .empty).entries = (KeyedPiece.started pieces).map fun block =>
      (block.1, (KeyedPiece.addedTo block.1 pieces).foldl CollectedBlock.add
        (emptyBlock block.2)) := by
  refine (KeyedPiece.assembled ?_ ?_ (fun _ => rfl) h rfl).trans (List.nil_append _)
  · intro m index first hnone
    rw [collectPiece, hnone]
    rfl
  · intro m index delta block hblock
    cases delta with
    | text kind token =>
        rw [collectPiece, hblock]
        rfl
    | signature signature =>
        rw [collectPiece, hblock]
        rfl
    | citation citation => exact (InsertionMap.set_of_get? hblock).symm

theorem entries_streamed (h : KeyedPiece.Proper FitsBlock [] pieces) :
    (pieces.foldl addPiece .empty).entries = (KeyedPiece.started pieces).map fun block =>
      (block.1, (KeyedPiece.addedTo block.1 pieces).foldl StreamedBlock.add ⟨block.2, []⟩) := by
  refine (@KeyedPiece.assembled ℤ Members BlockDelta StreamedBlock FitsBlock [] pieces _ addPiece
    (fun first => ⟨first, []⟩) StreamedBlock.add .empty ?_ ?_ (fun _ => rfl) h rfl).trans
      (List.nil_append _)
  · exact fun m index first _ => rfl
  · intro m index delta block hblock
    rw [addPiece, hblock]

/-- A block with what came for it. -/
def withDeltas (pieces : List (KeyedPiece ℤ Members BlockDelta)) :
    List (Members × List BlockDelta) :=
  (KeyedPiece.started pieces).map fun block => (block.2, KeyedPiece.addedTo block.1 pieces)

theorem values_collected (h : KeyedPiece.Proper FitsBlock [] pieces) :
    (pieces.foldl collectPiece .empty).values = (withDeltas pieces).map fun block =>
      block.2.foldl CollectedBlock.add (emptyBlock block.1) := by
  rw [InsertionMap.values, entries_collected h, withDeltas, List.map_map, List.map_map]
  rfl

theorem values_streamed (h : KeyedPiece.Proper FitsBlock [] pieces) :
    (pieces.foldl addPiece .empty).values = (withDeltas pieces).map fun block =>
      block.2.foldl StreamedBlock.add ⟨block.1, []⟩ := by
  rw [InsertionMap.values, entries_streamed h, withDeltas, List.map_map, List.map_map]
  rfl

end

/-! ## Beside the blocks -/

def stopSequence (e : SseEvent) : Option PyJson :=
  (getDict e.data "delta").bind (PyJson.get · "stop_sequence")

def withStop (message : Members) : Option PyJson → Members
  | some stop => InsertionMap.setIn (lit "stop_sequence") stop message
  | none => message

def summaries (events : List SseEvent) : List SseEvent :=
  events.filter fun e => e.frame = .messageDelta

/-- What the document and the message of a client have in common, as far as they have come. -/
def HeadsAgree (message members : Members) (summed : List SseEvent) : BlockPhase → Prop
  | .before => message = members ∧ summed = []
  | .content => message = members ∧ summed = [] ∧ MessageHead message
  | .closing | .stopped => ∃ e, summed = [e] ∧ MessageHead message ∧
      members = withStop message (stopSequence e)

theorem get_setIn_of_ne {d : Members} {key key' : String} {v : PyJson} (h : key ≠ key') :
    PyJson.get (InsertionMap.setIn (lit key) v d) key' = PyJson.get d key' := by
  rw [StreamedBlock.get_eq, StreamedBlock.get_eq, InsertionMap.lookupIn_setIn,
    if_neg fun heq => h (lit_inj.mp heq)]

theorem get_setIn_self {d : Members} {key : String} {v : PyJson} :
    PyJson.get (InsertionMap.setIn (lit key) v d) key = some v := by
  rw [StreamedBlock.get_eq, InsertionMap.lookupIn_setIn, if_pos rfl]

theorem MessageHead.setIn {message : Members} (h : MessageHead message) {key : String}
    {v : PyJson} (hkey : key ≠ "stop_sequence") :
    MessageHead (InsertionMap.setIn (lit key) v message) := by
  have hkept : ∀ s, (PyJson.get message s).isSome →
      (PyJson.get (InsertionMap.setIn (lit key) v message) s).isSome := by
    intro s hs
    by_cases heq : key = s
    · rw [heq, get_setIn_self]
      rfl
    · rw [get_setIn_of_ne heq]
      exact hs
  refine ⟨hkept _ h.type, hkept _ h.role, hkept _ h.stopReason, ?_⟩
  rw [get_setIn_of_ne hkey]
  exact h.stopSequence

theorem MessageHead.summarize {message : Members} (h : MessageHead message) (data : Members) :
    MessageHead (Collection.summarize message data) := by
  unfold Collection.summarize
  dsimp only
  have hreason : MessageHead (match (getDict data "delta").bind (PyJson.get · "stop_reason") with
      | some reason => if reason.truthy then
          InsertionMap.setIn (lit "stop_reason") reason message else message
      | none => message) := by
    split
    · split_ifs
      · exact h.setIn (by decide)
      · exact h
    · exact h
  split
  · exact hreason.setIn (by decide)
  · exact hreason

/-- With a reason to stop, a client changes what `collect_message` changes, and the stop
sequence. -/
theorem changed_eq {message data delta : Members} {reason : PyJson}
    (hdelta : getDict data "delta" = some delta)
    (hreason : PyJson.get delta "stop_reason" = some reason) (htruthy : reason.truthy = true) :
    changed message data =
      withStop (Collection.summarize message data) (PyJson.get delta "stop_sequence") := by
  unfold changed Collection.summarize
  rw [hdelta, Option.bind_some, Option.getD_some]
  simp only [hreason, htruthy, if_true]
  cases PyJson.get delta "stop_sequence" with
  | none => rfl
  | some stop => rfl

theorem phase_step {p q : BlockProgress ℤ PyString} {frame : MessageFrame}
    (h : p.step deltaFits frame = some q) :
    (frame = .messageStart → p.phase = .before ∧ q.phase = .content) ∧
      (frame = .messageDelta → p.phase = .content ∧ q.phase = .closing) ∧
      (frame ≠ .messageStart → frame ≠ .messageDelta →
        q.phase = p.phase ∨ p.phase = .closing ∧ q.phase = .stopped) := by
  cases frame with
  | malformed => cases h
  | messageStart =>
      simp only [BlockProgress.step] at h
      split_ifs at h with hphase
      cases h
      exact ⟨fun _ => ⟨hphase, rfl⟩, fun heq => (by cases heq), fun hne => absurd rfl hne⟩
  | messageDelta =>
      simp only [BlockProgress.step] at h
      split_ifs at h with hphase
      cases h
      exact ⟨fun heq => (by cases heq), fun _ => ⟨hphase.1, rfl⟩, fun _ hne => absurd rfl hne⟩
  | messageStop =>
      simp only [BlockProgress.step] at h
      split_ifs at h with hphase
      cases h
      exact ⟨fun heq => (by cases heq), fun heq => (by cases heq), fun _ _ => .inr ⟨hphase, rfl⟩⟩
  | blockStart | blockDelta | blockStop | other =>
      simp only [BlockProgress.step] at h
      split_ifs at h
      cases h
      exact ⟨fun heq => (by cases heq), fun heq => (by cases heq), fun _ _ => .inl rfl⟩

/-- What neither starts nor sums up a message changes no member of it. -/
theorem message_next_of_other (c : Collection) {event : ClientEvent}
    (hframe : event.frame.frame ≠ .malformed) (hstart : event.frame.frame ≠ .messageStart)
    (hsummary : event.frame.frame ≠ .messageDelta) : (c.next event).message = c.message := by
  cases event with
  | text index token kind => rfl
  | passthrough e =>
      rw [@next_passthrough c e hframe]
      change e.frame ≠ _ at hstart
      change e.frame ≠ _ at hsummary
      cases hkind : e.frame with
      | malformed => exact absurd hkind hframe
      | messageStart => exact absurd hkind hstart
      | messageDelta => exact absurd hkind hsummary
      | blockStop _ | messageStop | other => rfl
      | blockStart index type =>
          dsimp only
          unfold Collection.start
          cases getInt e.data "index" with
          | none => rfl
          | some index => rfl
      | blockDelta index type =>
          dsimp only
          unfold Collection.sign
          split
          · split_ifs
            · split
              · rfl
              · rfl
            · rfl
          · rfl

theorem members_next_of_other (m : StreamedMessage) {e : SseEvent}
    (hstart : e.frame ≠ .messageStart) (hsummary : e.frame ≠ .messageDelta) :
    (m.next e).members = m.members := by
  unfold StreamedMessage.next
  cases hkind : e.frame with
  | messageStart => exact absurd hkind hstart
  | messageDelta => exact absurd hkind hsummary
  | _ => rfl

theorem heads_agree {sent : List ClientEvent} {p : BlockProgress ℤ PyString}
    (hp : progress (sent.map ClientEvent.frame) = some p)
    (hpayload : ∀ event ∈ sent, event.frame.WellFormedPayload) :
    HeadsAgree (sent.foldl Collection.next {}).message
      ((sent.map ClientEvent.frame).foldl StreamedMessage.next {}).members
      (summaries (sent.map ClientEvent.frame)) p.phase := by
  induction sent using List.reverseRec generalizing p with
  | nil =>
      cases hp
      exact ⟨rfl, rfl⟩
  | append_singleton sent event ih =>
      rw [List.map_append, List.map_singleton, progress_append] at hp
      obtain ⟨p', hp', hstep⟩ := Option.bind_eq_some_iff.mp hp
      have hbefore := ih hp' fun e he => hpayload e (List.mem_append_left _ he)
      have hwell := hpayload event (List.mem_append_right _ (List.mem_singleton_self _))
      obtain ⟨hstarts, hsums, hothers⟩ := phase_step hstep
      have hsummaries : summaries ((sent ++ [event]).map ClientEvent.frame) =
          summaries (sent.map ClientEvent.frame) ++ summaries [event.frame] := by
        rw [List.map_append, List.map_singleton, summaries, List.filter_append]
        rfl
      rw [hsummaries, List.foldl_append, List.map_append, List.foldl_append]
      generalize sent.foldl Collection.next {} = c at hbefore ⊢
      generalize (sent.map ClientEvent.frame).foldl StreamedMessage.next {} = m at hbefore ⊢
      generalize summaries (sent.map ClientEvent.frame) = summed at hbefore ⊢
      change HeadsAgree (c.next event).message (m.next event.frame).members
        (summed ++ summaries [event.frame]) p.phase
      have hframe := step_frame_ne hstep
      by_cases hstart : event.frame.frame = .messageStart
      · obtain ⟨hphase', hphase⟩ := hstarts hstart
        rw [hphase'] at hbefore
        obtain ⟨-, hnone⟩ := hbefore
        rw [SseEvent.WellFormedPayload, hstart] at hwell
        obtain ⟨message, hmessage, hhead, -⟩ := hwell
        have hcollected : (c.next event).message = message := by
          cases event with
          | text index token kind =>
              rw [frame_text] at hstart
              cases hstart
          | passthrough e =>
              rw [@next_passthrough c e hframe]
              change e.frame = _ at hstart
              change getDict e.data "message" = _ at hmessage
              rw [hstart, hmessage]
              rfl
        have hstreamed : (m.next event.frame).members = message := by
          unfold StreamedMessage.next
          rw [hstart, hmessage]
          rfl
        rw [hphase, hcollected, hstreamed, hnone, summaries, List.filter_cons_of_neg]
        · exact ⟨rfl, rfl, hhead⟩
        · rw [hstart]
          decide
      by_cases hsummary : event.frame.frame = .messageDelta
      · obtain ⟨hphase', hphase⟩ := hsums hsummary
        rw [hphase'] at hbefore
        obtain ⟨hsame, hnone, hhead⟩ := hbefore
        rw [SseEvent.WellFormedPayload, hsummary] at hwell
        obtain ⟨delta, reason, hdelta, hreason, htruthy⟩ := hwell
        have hcollected : (c.next event).message =
            Collection.summarize c.message event.frame.data := by
          cases event with
          | text index token kind =>
              rw [frame_text] at hsummary
              cases hsummary
          | passthrough e =>
              rw [@next_passthrough c e hframe]
              change e.frame = _ at hsummary
              rw [hsummary]
              rfl
        have hstreamed : (m.next event.frame).members = changed m.members event.frame.data := by
          unfold StreamedMessage.next
          rw [hsummary]
        rw [hphase, hcollected, hstreamed, hnone, summaries, List.filter_cons_of_pos]
        · refine ⟨event.frame, rfl, hhead.summarize _, ?_⟩
          rw [← hsame, changed_eq hdelta hreason htruthy, stopSequence, hdelta, Option.bind_some]
        · exact decide_eq_true hsummary
      · have hnone : summaries [event.frame] = [] := by
          rw [summaries, List.filter_cons_of_neg]
          · rfl
          · rw [decide_eq_true_eq]
            exact hsummary
        rw [message_next_of_other c hframe hstart hsummary, members_next_of_other m hstart hsummary,
          hnone, List.append_nil]
        rcases hothers hstart hsummary with hphase | ⟨hphase', hphase⟩
        · rw [hphase]
          exact hbefore
        · rw [hphase]
          rw [hphase'] at hbefore
          exact hbefore

/-! ## What the relay lets go of an answer -/

section
variable {cfg : GatewayConfig} {es events : List SseEvent} {sent : List ClientEvent}

theorem frame_ne_of_mem {p q : BlockProgress ℤ PyString} {fs : List MessageFrame}
    (h : fs.foldlM (BlockProgress.step deltaFits) p = some q) :
    ∀ frame ∈ fs, frame ≠ .malformed := by
  induction fs generalizing p with
  | nil => exact List.forall_mem_nil _
  | cons frame fs ih =>
      rw [List.foldlM_cons] at h
      obtain ⟨p', hstep, hrest⟩ := Option.bind_eq_some_iff.mp h
      exact List.forall_mem_cons.mpr ⟨step_frame_ne hstep, ih hrest⟩

theorem event_of_mem_reads {n : ℕ} {q : QueuedEvent} (h : .inl q ∈ reads cfg n es) :
    ∃ e ∈ es, e.auditedDelta = none ∧ q.event = AnthropicRelay.audited cfg e := by
  induction es generalizing n with
  | nil => cases h
  | cons e es ih =>
      rcases mem_reads_cons.mp h with hfirst | hrest
      · refine ⟨e, List.mem_cons_self, ?_⟩
        unfold readOf AnthropicRelay.queuedBy at hfirst
        split at hfirst
        · cases List.mem_singleton.mp hfirst
        · split_ifs at hfirst with hdelta
          · cases hfirst
          · rw [List.map_singleton, List.mem_singleton] at hfirst
            rw [Sum.inl.inj hfirst]
            exact ⟨Option.not_isSome_iff_eq_none.mp hdelta, rfl⟩
      · obtain ⟨e', he', hread⟩ := ih hrest
        exact ⟨e', List.mem_cons_of_mem e he', hread⟩

/-- What is sent is an event that was read, its citation audited, or a piece of text. -/
theorem mem_sent (h : Expands SentFor (reads cfg 0 es) sent) : ∀ event ∈ sent,
    (∃ e ∈ es, e.auditedDelta = none ∧ event = .passthrough (AnthropicRelay.audited cfg e)) ∨
      ∃ index token kind, event = .text index token kind := by
  intro event hevent
  obtain ⟨a, ha, hstands⟩ := h.exists_of_mem (P := fun a event =>
      a.elim (fun q => event = .passthrough q.event)
        fun p => ∃ token, event = .text p.block token p.kind) (by
      intro a run hrun b hb
      cases a with
      | inl q =>
          rw [show run = [.passthrough q.event] from hrun] at hb
          exact List.mem_singleton.mp hb
      | inr p => exact hrun b hb) hevent
  cases a with
  | inl q =>
      obtain ⟨e, he, hnone, heq⟩ := event_of_mem_reads ha
      exact Or.inl ⟨e, he, hnone, heq ▸ hstands⟩
  | inr p =>
      obtain ⟨token, heq⟩ := hstands
      exact Or.inr ⟨p.block, token, p.kind, heq⟩

/-- A delta is a well-formed payload. -/
theorem wellFormed_of_delta {e : SseEvent} {index : ℤ} {type : PyString}
    (h : e.frame = .blockDelta index type) : e.WellFormedPayload := by
  rw [SseEvent.WellFormedPayload, h]
  trivial

/-- Only a delta is changed on its way. -/
theorem audited_eq {e : SseEvent} (hframe : e.frame ≠ .malformed) :
    AnthropicRelay.audited cfg e = e ∨ ∃ index type, e.frame = .blockDelta index type := by
  unfold AnthropicRelay.audited
  split_ifs with hcitation
  · right
    obtain ⟨type, hkind, -, heq⟩ := exists_type_of_frame hframe
    have htype : type = lit "content_block_delta" := by
      have his := hcitation.1
      rw [SseEvent.Is, hkind] at his
      exact Option.some.inj his
    subst htype
    rw [heq] at hframe ⊢
    unfold frameOf at hframe ⊢
    simp only [lit_inj, String.reduceEq, if_false, if_true] at hframe ⊢
    split at hframe
    · exact ⟨_, _, rfl⟩
    · exact absurd rfl hframe
  · exact Or.inl rfl

theorem auditedDelta_audited {e : SseEvent} (h : e.auditedDelta = none) :
    (AnthropicRelay.audited cfg e).auditedDelta = none := by
  unfold AnthropicRelay.audited
  split_ifs with hcitation
  · rcases auditCitation_cases cfg e.data with hsame | ⟨delta, v, hdelta, heq⟩
    · rw [hsame]
      exact h
    · have htype : getStr delta "type" = some citationDeltaKind := by
        have hcited := hcitation.2
        rw [hdelta] at hcited
        exact hcited
      unfold SseEvent.auditedDelta
      split_ifs
      · rw [heq, getDict_setMember (isSome_of_getDict hdelta), Option.bind_some]
        have hkept : getStr (setMember delta "citation" v) "type" = some citationDeltaKind := by
          rw [← htype]
          unfold getStr
          rw [get_setMember_ne (by decide)]
        have hunknown : DeltaKind.ofName citationDeltaKind = none := by decide
        rw [hkept, Option.bind_some, hunknown]
        rfl
      · rfl
  · exact h

/-- An answer that is over was read to its end, and its message is the client's. -/
theorem sent_of_complete (hanswer : WellFormedAnswer events)
    (hcomplete : (RelayState.init.run cfg .eof events).2.2 = none) :
    Expands SentFor (reads cfg 0 events) (RelayState.init.run cfg .eof events).1 ∧
      relaySse cfg events .eof =
        (RelayState.init.run cfg .eof events).1.map ClientEvent.frame := by
  obtain ⟨out, hfinished, hreason, -⟩ := (Running.init cfg).run .eof events
  have hread := readUntil_prefix cfg .init [] events
  have hbuffer : RelayState.init.buffer = .init := rfl
  have hobserved : RelayState.init.observed = [] := rfl
  simp only [List.nil_append, hbuffer, hobserved] at hfinished hreason
  have hwhole : (readUntil cfg .init [] events).1 = events := by
    rw [hcomplete] at hreason
    have hnot := stopReason_eq_none_iff.mp hreason.symm
    apply eq_answer_of_stop hanswer hread
    rw [all_goesOn_iff cfg]
    exact fun hsaw => hnot (Or.inr (Or.inr hsaw))
  rw [hwhole] at hfinished
  refine ⟨hfinished.expands, ?_⟩
  unfold relaySse
  dsimp only
  rw [hcomplete]

end

/-! ## The document and the stream -/

/-- Two messages with the same members, and the same blocks in the same order. -/
structure SameMessage (document message : Members) : Prop where
  content : ∃ blocks blocks', PyJson.get document "content" = some (.list (blocks.map .dict)) ∧
    PyJson.get message "content" = some (.list (blocks'.map .dict)) ∧
      List.Forall₂ SameMembers blocks blocks'
  members : ∀ key, lit "content" ≠ key →
    InsertionMap.lookupIn key document = InsertionMap.lookupIn key message

/-- The blocks of a stream, with what came for each. -/
def blocksOf (stream : List SseEvent) : List (Members × List BlockDelta) :=
  withDeltas (stream.map pieceOf)

/-- Every block is plain, and no stop sequence was met. -/
def PlainStream (stream : List SseEvent) : Prop :=
  (∀ block ∈ blocksOf stream, PlainBlock block.1 block.2) ∧
    ∀ e ∈ summaries stream, ∀ stop, stopSequence e = some stop → stop = .none

theorem finishDocument_eq {message : Members} (h : MessageHead message) (content : List Members) :
    finishDocument message content =
      InsertionMap.setIn (lit "content") (.list (content.map .dict)) message := by
  have hkept : ∀ s, s ≠ "content" → (PyJson.get message s).isSome →
      (PyJson.get (InsertionMap.setIn (lit "content") (.list (content.map .dict)) message)
        s).isSome := by
    intro s hs hsome
    rw [get_setIn_of_ne hs.symm]
    exact hsome
  have hstop : (PyJson.get message "stop_sequence").isSome := by
    rw [h.stopSequence]
    rfl
  unfold finishDocument
  dsimp only
  rw [setDefault, setDefault, setDefault, setDefault,
    if_pos (hkept "type" (by decide) h.type), if_pos (hkept "role" (by decide) h.role),
    if_pos (hkept "stop_reason" (by decide) h.stopReason),
    if_pos (hkept "stop_sequence" (by decide) hstop)]

theorem sameMessage_iff {message : Members} (h : MessageHead message) (stop : Option PyJson)
    (contents contents' : List Members) :
    SameMessage (finishDocument message contents)
        (InsertionMap.setIn (lit "content") (.list (contents'.map .dict)) (withStop message stop)) ↔
      List.Forall₂ SameMembers contents contents' ∧ ∀ v, stop = some v → v = .none := by
  have hinj : Function.Injective (List.map PyJson.dict) :=
    List.map_injective_iff.mpr fun _ _ => PyJson.dict.inj
  have hstop := h.stopSequence
  rw [StreamedBlock.get_eq] at hstop
  rw [finishDocument_eq h]
  constructor
  · rintro ⟨⟨blocks, blocks', hblocks, hblocks', hsame⟩, hmembers⟩
    rw [get_setIn_self, Option.some.injEq, PyJson.list.injEq] at hblocks hblocks'
    rw [← hinj hblocks, ← hinj hblocks'] at hsame
    refine ⟨hsame, ?_⟩
    rintro v rfl
    have hboth := hmembers (lit "stop_sequence") (by simp)
    rw [InsertionMap.lookupIn_setIn, InsertionMap.lookupIn_setIn, withStop,
      InsertionMap.lookupIn_setIn, if_pos rfl, hstop] at hboth
    simp only [lit_inj, String.reduceEq, if_false] at hboth
    exact (Option.some.inj hboth).symm
  · rintro ⟨hsame, hnone⟩
    refine ⟨⟨contents, contents', get_setIn_self, get_setIn_self, hsame⟩, fun key hkey => ?_⟩
    rw [InsertionMap.lookupIn_setIn, InsertionMap.lookupIn_setIn, if_neg hkey, if_neg hkey]
    cases stop with
    | none => rfl
    | some v =>
        rw [withStop, InsertionMap.lookupIn_setIn]
        split_ifs with hstopKey
        · rw [← hstopKey, hstop, hnone v rfl]
        · rfl

/-- The payload of a block that was started. -/
theorem started_payload {stream : List SseEvent}
    (hwell : ∀ e ∈ stream, e.WellFormedPayload) {block : ℤ × Members}
    (hblock : block ∈ KeyedPiece.started (stream.map pieceOf))
    (hframes : ∀ e ∈ stream, e.frame ≠ .malformed) :
    ∃ type, getStr block.2 "type" = some type ∧
      (type = lit "text" → (getStr block.2 "text").isSome) ∧
        (type = lit "thinking" → (getStr block.2 "thinking").isSome) := by
  obtain ⟨piece, hpiece, hstarted⟩ := List.mem_filterMap.mp hblock
  obtain ⟨e, he, rfl⟩ := List.mem_map.mp hpiece
  have hnamed := named_frame e
  have hpayload := hwell e he
  unfold pieceOf at hstarted
  cases hframe : e.frame with
  | malformed => exact absurd hframe (hframes e he)
  | messageStart | messageDelta | blockStop _ | messageStop | other =>
      rw [hframe] at hstarted
      cases hstarted
  | blockDelta index type =>
      rw [hframe] at hstarted
      dsimp only at hstarted
      split at hstarted
      · cases hstarted
      · cases hstarted
  | blockStart index type =>
      rw [hframe] at hnamed hstarted
      rw [SseEvent.WellFormedPayload, hframe] at hpayload
      obtain ⟨first, hfirst, htype⟩ := Option.bind_eq_some_iff.mp hnamed.2.2
      dsimp only at hstarted
      rw [hfirst, Option.getD_some] at hstarted
      cases hstarted
      exact ⟨type, htype, hpayload first hfirst⟩

/-- For every well-formed answer that is not terminated, and every streaming client that can
read the arguments of its tool calls: the document is the message of the client if and only if
every block is plain and no stop sequence was met. -/
theorem document_agrees_iff {reader : JsonReader} {cfg : GatewayConfig} {events : List SseEvent}
    {message : Members} (hanswer : WellFormedAnswer events)
    (hpayload : ∀ e ∈ events, e.WellFormedPayload)
    (hcomplete : (RelayState.init.run cfg .eof events).2.2 = none)
    (hstreamed : streamedMessage reader (relaySse cfg events .eof) = some message) :
    ∃ document,
      collectMessage reader (RelayState.init.run cfg .eof events).1
          (RelayState.init.run cfg .eof events).2.2 = some document ∧
        (SameMessage document message ↔ PlainStream (relaySse cfg events .eof)) := by
  obtain ⟨hsent, hrelay⟩ := sent_of_complete hanswer hcomplete
  revert hsent hrelay hstreamed hcomplete
  generalize RelayState.init.run cfg .eof events = result
  generalize relaySse cfg events .eof = stream
  obtain ⟨sent, relay, reason⟩ := result
  rintro hcomplete hstreamed hsent rfl
  dsimp only at hcomplete hsent hstreamed ⊢
  obtain ⟨p, hp, hstopped⟩ := exists_stopped hanswer
  have hread := frame_ne_of_mem hp
  have hprogress := progress_sent hsent hp
  have hframes := frame_ne_of_mem hprogress
  -- What is sent is relayed, and well formed as the answer was.
  have hrelayed : ∀ event ∈ sent, event.Relayed ∧ event.frame.WellFormedPayload := by
    intro event hevent
    rcases mem_sent hsent event hevent with ⟨e, he, hnone, rfl⟩ | ⟨index, token, kind, rfl⟩
    · refine ⟨auditedDelta_audited hnone, ?_⟩
      change (AnthropicRelay.audited cfg e).WellFormedPayload
      rcases @audited_eq cfg e (hread _ (List.mem_map_of_mem he)) with hsame | ⟨index, type, hdelta⟩
      · rw [hsame]
        exact hpayload e he
      · exact wellFormed_of_delta ((frame_audited cfg e).trans hdelta)
    · exact ⟨trivial, wellFormed_of_delta (frame_text index token kind)⟩
  have hmalformed : ∀ event ∈ sent, event.frame.frame ≠ .malformed :=
    fun event hevent => hframes _ (List.mem_map_of_mem (List.mem_map_of_mem hevent))
  have hproper : KeyedPiece.Proper FitsBlock [] ((sent.map ClientEvent.frame).map pieceOf) :=
    proper_pieces hprogress rfl (List.forall_mem_nil _)
  have hwell : ∀ e ∈ sent.map ClientEvent.frame, e.WellFormedPayload := by
    intro e he
    obtain ⟨event, hevent, rfl⟩ := List.mem_map.mp he
    exact (hrelayed event hevent).2
  have hvalid : ∀ e ∈ sent.map ClientEvent.frame, e.frame ≠ .malformed :=
    fun e he => hframes _ (List.mem_map_of_mem he)
  have hagree := heads_agree hprogress fun event hevent => (hrelayed event hevent).2
  rw [hstopped] at hagree
  obtain ⟨e, hsummaries, hhead, hmembers⟩ := hagree
  -- Both maps have one entry for each block that was started.
  have hcollected : (sent.foldl Collection.next {}).blocks.values =
      (blocksOf (sent.map ClientEvent.frame)).map fun block =>
        block.2.foldl CollectedBlock.add (emptyBlock block.1) := by
    rw [@blocks_collected sent _ (fun event hevent => (hrelayed event hevent).1) hmalformed]
    exact values_collected hproper
  have hclient : ((sent.map ClientEvent.frame).foldl StreamedMessage.next {}).blocks.values =
      (blocksOf (sent.map ClientEvent.frame)).map fun block =>
        block.2.foldl StreamedBlock.add ⟨block.1, []⟩ := by
    rw [blocks_streamed]
    exact values_streamed hproper
  obtain ⟨contents', hclosed, rfl⟩ := Option.map_eq_some_iff.mp hstreamed
  rw [hclient, List.mapM_map] at hclosed
  obtain ⟨contents, hcontents, hsame⟩ := exists_mapM_forall₂
    (f := fun block => (block.2.foldl CollectedBlock.add (emptyBlock block.1)).content reader)
    (R := SameMembers) (P := fun block => PlainBlock block.1 block.2) (by
      intro block hblock members hmembers
      obtain ⟨started, hstarted, rfl⟩ := List.mem_map.mp hblock
      obtain ⟨type, htype, htext, hthinking⟩ := started_payload hwell hstarted hvalid
      exact content_same_iff htype
        (hproper.fits_added List.nodup_nil started hstarted) htext hthinking hmembers) hclosed
  refine ⟨finishDocument (sent.foldl Collection.next {}).message contents, ?_, ?_⟩
  · unfold collectMessage
    rw [hcomplete]
    dsimp only
    rw [hcollected, List.mapM_map]
    exact congrArg (Option.map _) hcontents
  · rw [hmembers, sameMessage_iff hhead, hsame, PlainStream, hsummaries]
    simp only [List.forall_mem_singleton]


/-! ## An answer that ends at a stop sequence -/

/-- A reader of the empty object alone. -/
def objectReader : JsonReader where
  loads t := if t = (lit "\x7b\x7d").points then .ok (.dict []) else .error .decode
  loads_nil v h := by
    rw [if_neg (by decide)] at h
    cases h
  loads_strip t v h := by
    split_ifs at h with heq
    subst heq
    exact (if_pos (by decide +kernel)).trans h

def openMessage : SseEvent :=
  sse "message_start" [(lit "message", .dict [(lit "type", str "message"),
    (lit "role", str "assistant"), (lit "stop_reason", .none), (lit "stop_sequence", .none)])]

def textBlock : SseEvent :=
  sse "content_block_start" [(lit "index", .int 0),
    (lit "content_block", .dict [(lit "type", str "text"), (lit "text", str "")])]

def textDelta : SseEvent :=
  sse "content_block_delta" [(lit "index", .int 0),
    (lit "delta", .dict [(lit "type", str "text_delta"), (lit "text", str "one")])]

def stopDelta : SseEvent :=
  sse "message_delta" [(lit "delta", .dict [(lit "stop_reason", str "stop_sequence"),
    (lit "stop_sequence", str "two")])]

def stoppedAnswer : List SseEvent :=
  [openMessage, textBlock, textDelta, sse "content_block_stop" [(lit "index", .int 0)],
    stopDelta, sse "message_stop" []]

theorem stoppedAnswer_payload : ∀ e ∈ stoppedAnswer, e.WellFormedPayload := by
  unfold stoppedAnswer
  simp only [List.forall_mem_cons]
  refine ⟨⟨_, rfl, ⟨rfl, rfl, rfl, rfl⟩, ?_⟩, ?_, trivial, trivial, ⟨_, _, rfl, rfl, rfl⟩, trivial,
    List.forall_mem_nil _⟩
  · intro usage husage
    cases husage
  · rintro block ⟨⟩
    exact ⟨fun _ => rfl, fun h => absurd (lit_inj.mp h) (by decide)⟩

/-- The stop sequence that ended a message is not in the document. -/
theorem stop_sequence_left_out : ∃ document message,
    streamedMessage objectReader (relaySse plainGateway stoppedAnswer .eof) = some message ∧
      collectMessage objectReader (RelayState.init.run plainGateway .eof stoppedAnswer).1
          (RelayState.init.run plainGateway .eof stoppedAnswer).2.2 = some document ∧
        ¬ SameMessage document message := by
  have hread : (streamedMessage objectReader
      (relaySse plainGateway stoppedAnswer .eof)).isSome := by decide +kernel
  obtain ⟨message, hmessage⟩ := Option.isSome_iff_exists.mp hread
  obtain ⟨document, hdocument, hiff⟩ :=
    document_agrees_iff (by decide +kernel) stoppedAnswer_payload (by decide +kernel) hmessage
  refine ⟨document, message, hmessage, hdocument, fun hsame => ?_⟩
  have hnamed : ((summaries (relaySse plainGateway stoppedAnswer .eof)).any fun e =>
      (stopSequence e).any PyJson.truthy) = true := by decide +kernel
  obtain ⟨e, he, hstop⟩ := List.any_eq_true.mp hnamed
  obtain ⟨stop, hstop, htruthy⟩ := (Option.any_eq_true _ _).mp hstop
  rw [(hiff.mp hsame).2 e he stop hstop] at htruthy
  cases htruthy

end BlackMonolith.TraceAudit
