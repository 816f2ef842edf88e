import BlackMonolith.TraceAudit.MessageStream
import BlackMonolith.TraceAudit.RelayOrder

/-!
# The message a client is sent

The stream of an answer that is not terminated expands what was read. A refusal
completes the message that was sent so far only if it has begun, is not yet
summed up, and has no open block that takes no text.
-/
namespace BlackMonolith.TraceAudit
open Library

/-! ## What was read -/

/-- A push: its index, and the block and the kind of the delta it came as. -/
structure Push where
  place : ℕ
  block : ℤ
  kind : DeltaKind
deriving Repr, DecidableEq

abbrev Read := QueuedEvent ⊕ Push

def readOf (cfg : GatewayConfig) (pushes : ℕ) (e : SseEvent) : List Read :=
  match e.fragment with
  | some (kind, _) => [.inr ⟨pushes, (getInt e.data "index").getD 0, kind⟩]
  | none => (AnthropicRelay.queuedBy cfg pushes e).map .inl

/-- Events and pushes in the order in which they were read. -/
def reads (cfg : GatewayConfig) (pushes : ℕ) : List SseEvent → List Read
  | [] => []
  | e :: es => readOf cfg pushes e ++ reads cfg (pushes + (fragments [e]).length) es

def Read.frame : Read → MessageFrame
  | .inl q => q.event.frame
  | .inr p => .blockDelta p.block p.kind.typeName

abbrev readSlot : Read → ℕ := slot QueuedEvent.pushesBefore Push.place

section
variable {cfg : GatewayConfig} {n : ℕ} {es es' : List SseEvent} {e : SseEvent}

theorem fragments_append' (es es' : List SseEvent) :
    fragments (es ++ es') = fragments es ++ fragments es' := List.filterMap_append

theorem reads_append (es es' : List SseEvent) :
    reads cfg n (es ++ es') = reads cfg n es ++ reads cfg (n + (fragments es).length) es' := by
  induction es generalizing n with
  | nil => rfl
  | cons e es ih =>
      have hlength : (fragments (e :: es)).length = (fragments [e]).length + (fragments es).length := by
        rw [← List.singleton_append, fragments_append', List.length_append]
      rw [List.cons_append]
      simp only [reads, ih, hlength, List.append_assoc, Nat.add_assoc]

theorem pushes_reading (es : List SseEvent) :
    (reading cfg es).pushes = (fragments es).length :=
  (reading_length cfg es).2.2

theorem reads_append_singleton (es : List SseEvent) (e : SseEvent) :
    reads cfg 0 (es ++ [e]) = reads cfg 0 es ++ readOf cfg (reading cfg es).pushes e := by
  rw [reads_append, pushes_reading, Nat.zero_add]
  exact congrArg _ (List.append_nil _)

/-- A push has the index it was given. -/
theorem place_of_mem_readOf {p : Push} (h : .inr p ∈ readOf cfg n e) :
    p.place = n ∧ (fragments [e]).length = 1 ∧ e.fragment.map Prod.fst = some p.kind ∧
      p.block = (getInt e.data "index").getD 0 := by
  unfold readOf at h
  unfold fragments
  cases hfragment : e.fragment with
  | none =>
      rw [hfragment] at h
      obtain ⟨q, -, heq⟩ := List.mem_map.mp h
      cases heq
  | some found =>
      rw [hfragment] at h
      cases List.mem_singleton.mp h
      simp [hfragment]

theorem pushesBefore_of_mem_readOf {q : QueuedEvent} (h : .inl q ∈ readOf cfg n e) :
    q.pushesBefore = n := by
  unfold readOf at h
  split at h
  · cases List.mem_singleton.mp h
  · obtain ⟨q', hq', heq⟩ := List.mem_map.mp h
    cases heq
    exact Relayed.pushesBefore_queuedBy q hq'

theorem readOf_cases (cfg : GatewayConfig) (n : ℕ) (e : SseEvent) :
    readOf cfg n e = [] ∨ ∃ a, readOf cfg n e = [a] := by
  unfold readOf AnthropicRelay.queuedBy
  split
  · exact .inr ⟨_, rfl⟩
  · split_ifs
    · exact .inl rfl
    · exact .inr ⟨_, rfl⟩

theorem slot_of_mem_readOf {a : Read} (h : a ∈ readOf cfg n e) : 2 * n ≤ readSlot a := by
  cases a with
  | inl q =>
      have hq := pushesBefore_of_mem_readOf h
      show 2 * n ≤ 2 * q.pushesBefore
      omega
  | inr p =>
      have hp := (place_of_mem_readOf h).1
      show 2 * n ≤ 2 * p.place + 1
      omega

theorem slot_of_mem_reads {a : Read} (h : a ∈ reads cfg n es) : 2 * n ≤ readSlot a := by
  induction es generalizing n with
  | nil => cases h
  | cons e es ih =>
      cases List.mem_append.mp h with
      | inl hfirst => exact slot_of_mem_readOf hfirst
      | inr hrest =>
          have := ih hrest
          omega

/-- What is read keeps its order. -/
theorem reads_ordered (n : ℕ) (es : List SseEvent) :
    (reads cfg n es).Pairwise (Precedes QueuedEvent.pushesBefore Push.place) := by
  induction es generalizing n with
  | nil => exact List.Pairwise.nil
  | cons e es ih =>
      apply List.pairwise_append.mpr
      refine ⟨?_, ih _, ?_⟩
      · rcases readOf_cases cfg n e with hnone | ⟨a, ha⟩
        · rw [hnone]
          exact List.Pairwise.nil
        · rw [ha]
          exact List.pairwise_singleton _ _
      · intro a ha b hb
        have hlater := slot_of_mem_reads hb
        cases a with
        | inl q =>
            have hq := pushesBefore_of_mem_readOf ha
            show 2 * q.pushesBefore ≤ readSlot b
            omega
        | inr p =>
            obtain ⟨hp, hone, -⟩ := place_of_mem_readOf ha
            show 2 * p.place + 1 < readSlot b
            omega

theorem left_reads (es : List SseEvent) :
    (reads cfg 0 es).filterMap Sum.getLeft? = (reading cfg es).queue := by
  induction es using List.reverseRec with
  | nil => rfl
  | append_singleton es e ih =>
      rw [reads_append_singleton, List.filterMap_append, ih, Relayed.reading_append,
        (AnthropicRelay.read_queue cfg (reading cfg es) e).1]
      congr 1
      unfold readOf
      cases hfragment : e.fragment with
      | none => exact Relayed.left_map_inl _
      | some found =>
          obtain ⟨delta, hdelta⟩ := AnthropicRelay.auditedDelta_of_fragment hfragment
          unfold AnthropicRelay.queuedBy
          rw [hdelta]
          rfl

theorem mem_reads_append {a : Read} : a ∈ reads cfg 0 (es ++ [e]) ↔
    a ∈ reads cfg 0 es ∨ a ∈ readOf cfg (reading cfg es).pushes e := by
  rw [reads_append_singleton, List.mem_append]

/-- Every push was read. -/
theorem push_of_lt {i : ℕ} (h : i < (fragments es).length) :
    ∃ p, .inr p ∈ reads cfg 0 es ∧ i = p.place := by
  induction es using List.reverseRec with
  | nil => cases h
  | append_singleton es e ih =>
      rw [fragments_append', List.length_append] at h
      by_cases hold : i < (fragments es).length
      · obtain ⟨p, hp, hplace⟩ := ih hold
        exact ⟨p, mem_reads_append.mpr (.inl hp), hplace⟩
      · unfold fragments at h hold
        cases hfragment : e.fragment with
        | none =>
            simp only [List.filterMap_cons, hfragment, Option.map_none, List.filterMap_nil,
              List.length_nil] at h
            omega
        | some found =>
            simp only [List.filterMap_cons, hfragment, Option.map_some, List.filterMap_nil,
              List.length_singleton] at h
            refine ⟨⟨i, (getInt e.data "index").getD 0, found.1⟩, ?_, rfl⟩
            apply mem_reads_append.mpr
            right
            have hi : i = (reading cfg es).pushes := by
              rw [pushes_reading]
              unfold fragments
              omega
            unfold readOf
            rw [hfragment, hi]
            exact List.mem_singleton_self _

theorem place_lt {p : Push} (h : .inr p ∈ reads cfg 0 es) : p.place < (fragments es).length := by
  induction es using List.reverseRec with
  | nil => cases h
  | append_singleton es e ih =>
      rw [fragments_append', List.length_append]
      cases mem_reads_append.mp h with
      | inl hold =>
          have := ih hold
          omega
      | inr hlast =>
          obtain ⟨hplace, hone, -⟩ := place_of_mem_readOf hlast
          rw [pushes_reading] at hplace
          omega

/-- The relay still knows where a push came from. -/
theorem block_of_push {p : Push} (h : .inr p ∈ reads cfg 0 es) :
    (reading cfg es).blockOfPush.getD p.place 0 = p.block ∧
      (reading cfg es).deltaKindOfPush.getD p.place .text = p.kind := by
  induction es using List.reverseRec with
  | nil => cases h
  | append_singleton es e ih =>
      obtain ⟨hblocks, hkinds, hpushes⟩ := reading_length cfg es
      cases mem_reads_append.mp h with
      | inl hold =>
          have hlt := place_lt hold
          have hsame := @client_read cfg es e (.inr ⟨[], p.place⟩)
            (fun t ht => by
              cases ht
              rw [hpushes]
              exact hlt)
          simp only [client, ClientEvent.text.injEq, true_and] at hsame
          rw [hsame.1, hsame.2]
          exact ih hold
      | inr hlast =>
          obtain ⟨hplace, -, hkind, hblock⟩ := place_of_mem_readOf hlast
          obtain ⟨found, hfound, hfirst⟩ := Option.map_eq_some_iff.mp hkind
          rw [Relayed.reading_append, AnthropicRelay.read_some cfg (reading cfg es) hfound, hblock, ← hfirst, hplace]
          constructor
          · show (_ ++ [_]).getD _ _ = _
            rw [← hblocks]
            simp
          · show (_ ++ [_]).getD _ _ = _
            rw [← hkinds]
            simp

/-! ## What is sent expands what was read -/

/-- What a client is sent for what was read: an event, or any number of deltas. -/
def SentFor : Read → List ClientEvent → Prop
  | .inl q, run => run = [.passthrough q.event]
  | .inr p, run => ∀ event ∈ run, ∃ token, event = .text p.block token p.kind

theorem client_sentFor {a : Read} (ha : a ∈ reads cfg 0 es) {run : List Outgoing}
    (h : Follows Push.place BufferedToken.index a run) :
    SentFor a (run.map (client (reading cfg es))) := by
  cases a with
  | inl q =>
      rw [show run = [.inl q] from h]
      rfl
  | inr p =>
      intro event hevent
      obtain ⟨b, hb, rfl⟩ := List.mem_map.mp hevent
      obtain ⟨t, rfl, hindex⟩ := h b hb
      obtain ⟨hblock, hkind⟩ := block_of_push ha
      refine ⟨t.token, ?_⟩
      unfold client
      dsimp only
      rw [hindex, hblock, hkind]

variable {sent : List ClientEvent} {r : AnthropicRelay} {out : List Outgoing}

theorem Finished.left (h : Finished cfg es sent r out) :
    out.filterMap Sum.getLeft? = (reading cfg es).queue := by
  have hqueued := h.relayed.queued
  rwa [h.queue, List.append_nil] at hqueued

theorem Finished.follows (h : Finished cfg es sent r out) :
    Expands (Follows Push.place BufferedToken.index) (reads cfg 0 es) out := by
  apply expands_of_ordered (reads_ordered 0 es)
  · have hordered := h.relayed.ordered
    rwa [h.queue, List.map_nil, List.append_nil] at hordered
  · rw [h.left, left_reads]
  · intro t ht
    apply push_of_lt
    rw [← @pushes_reading cfg, ← h.relayed.same.pushes]
    exact h.relayed.texts t ht

theorem Finished.expands (h : Finished cfg es sent r out) :
    Expands SentFor (reads cfg 0 es) sent := by
  rw [h.sent]
  exact h.follows.map fun a ha run hrun => client_sentFor ha hrun

/-! ## The message so far -/

theorem step_frame_ne {p q : BlockProgress ℤ PyString} {frame : MessageFrame}
    (h : p.step deltaFits frame = some q) : frame ≠ .malformed := by
  rintro rfl
  cases h

theorem progress_append : progress (es ++ [e]) =
    (progress es).bind fun p => p.step deltaFits e.frame := by
  unfold progress frames
  rw [List.map_append, BlockProgress.after_append]
  congr 1
  funext p
  rw [List.map_singleton, List.foldlM_cons]
  exact bind_pure _

/-- A delta leaves the message where it is. -/
theorem step_blockDelta {p q : BlockProgress ℤ PyString} {index : ℤ} {type : PyString}
    (h : p.step deltaFits (.blockDelta index type) = some q) : q = p := by
  simp only [BlockProgress.step] at h
  split_ifs at h
  exact (Option.some_inj.mp h).symm

theorem foldlM_readOf {p q : BlockProgress ℤ PyString} (h : p.step deltaFits e.frame = some q) :
    (readOf cfg n e).foldlM (fun p a => p.step deltaFits a.frame) p = some q := by
  have hframe := step_frame_ne h
  unfold readOf AnthropicRelay.queuedBy
  cases hfragment : e.fragment with
  | some found =>
      obtain ⟨delta, hdelta⟩ := AnthropicRelay.auditedDelta_of_fragment hfragment
      obtain ⟨index, hindex, heq⟩ := frame_of_auditedDelta hframe hdelta
      rw [heq] at h
      dsimp only
      rw [List.foldlM_cons, hindex]
      exact (congrArg (· >>= _) h).trans (bind_pure _)
  | none =>
      dsimp only
      split_ifs with hdelta
      · -- An audited delta without text is dropped.
        obtain ⟨⟨kind, delta⟩, hdelta⟩ := Option.isSome_iff_exists.mp hdelta
        obtain ⟨index, -, heq⟩ := frame_of_auditedDelta hframe hdelta
        rw [heq] at h
        rw [step_blockDelta h]
        rfl
      · rw [List.map_singleton, List.foldlM_cons]
        have hsame : p.step deltaFits (AnthropicRelay.audited cfg e).frame = some q := by
          rw [frame_audited, h]
        exact (congrArg (· >>= _) hsame).trans (bind_pure _)

/-- What was read comes as far as the upstream answer. -/
theorem foldlM_reads {p : BlockProgress ℤ PyString} (h : progress es = some p) :
    (reads cfg 0 es).foldlM (fun p a => p.step deltaFits a.frame) BlockProgress.init = some p := by
  induction es using List.reverseRec generalizing p with
  | nil => exact h
  | append_singleton es e ih =>
      rw [progress_append] at h
      obtain ⟨q, hq, hstep⟩ := Option.bind_eq_some_iff.mp h
      rw [reads_append_singleton, List.foldlM_append, ih hq]
      exact foldlM_readOf hstep

theorem foldlM_deltas {p : BlockProgress ℤ PyString} {push : Push} {run : List ClientEvent}
    (hrun : SentFor (.inr push) run) (h : p.step deltaFits (Read.frame (.inr push)) = some p) :
    run.foldlM (fun p event => p.step deltaFits event.frame.frame) p = some p := by
  induction run with
  | nil => rfl
  | cons event run ih =>
      obtain ⟨token, rfl⟩ := hrun event List.mem_cons_self
      rw [List.foldlM_cons, frame_text]
      exact (congrArg (· >>= _) h).trans (ih fun e he => hrun e (List.mem_cons_of_mem _ he))

theorem foldlM_sent {p : BlockProgress ℤ PyString} :
    (frames (sent.map ClientEvent.frame)).foldlM (BlockProgress.step deltaFits) p =
      sent.foldlM (fun p event => p.step deltaFits event.frame.frame) p := by
  unfold frames
  rw [List.map_map, List.foldlM_map]
  rfl

/-- A client that is sent what was read gets as far. -/
theorem progress_sent (h : Expands SentFor (reads cfg 0 es) sent) {p : BlockProgress ℤ PyString}
    (hp : progress es = some p) : progress (sent.map ClientEvent.frame) = some p := by
  unfold progress BlockProgress.after
  rw [foldlM_sent]
  apply h.run_eq _ (foldlM_reads hp)
  intro a run p q hrun hstep
  cases a with
  | inl event =>
      rw [show run = [.passthrough event.event] from hrun, List.foldlM_cons]
      exact (congrArg (· >>= _) hstep).trans (bind_pure _)
  | inr push =>
      have hsame := step_blockDelta hstep
      subst hsame
      exact foldlM_deltas hrun hstep

/-! ## What the relay knows of the message -/

theorem map_eraseP_fst (blocks : List (ℤ × PyString)) (index : ℤ) :
    (blocks.eraseP (·.1 = index)).map Prod.fst = (blocks.map Prod.fst).erase index := by
  induction blocks with
  | nil => rfl
  | cons block blocks ih =>
      rw [List.eraseP_cons, List.map_cons, List.erase_cons]
      by_cases h : block.1 = index
      · simp [h]
      · simp [h, ih]

/-- The effect of a frame on what the relay notes. -/
theorem noteFrame_step {p q : BlockProgress ℤ PyString} {relay : AnthropicRelay}
    {frame : MessageFrame} (hopen : relay.openBlocks = p.opened.map Prod.fst)
    (h : p.step deltaFits frame = some q) :
    (noteFrame relay frame).openBlocks = q.opened.map Prod.fst := by
  cases frame with
  | malformed => cases h
  | blockStart index type =>
      simp only [BlockProgress.step] at h
      split_ifs at h
      cases h
      simp [noteFrame, hopen]
  | blockStop index =>
      simp only [BlockProgress.step] at h
      split_ifs at h
      cases h
      simp only [noteFrame, hopen, map_eraseP_fst]
  | other | messageStart | messageDelta | messageStop | blockDelta =>
      simp only [BlockProgress.step] at h
      split_ifs at h
      cases h
      exact hopen

/-- The relay has the open blocks of the message. -/
theorem openBlocks_reading {p : BlockProgress ℤ PyString} (h : progress es = some p) :
    (reading cfg es).openBlocks = p.opened.map Prod.fst := by
  induction es using List.reverseRec generalizing p with
  | nil =>
      cases h
      rfl
  | append_singleton es e ih =>
      rw [progress_append] at h
      obtain ⟨q, hq, hstep⟩ := Option.bind_eq_some_iff.mp h
      have hframe := step_frame_ne hstep
      rw [Relayed.reading_append]
      cases hdelta : e.auditedDelta with
      | some found =>
          obtain ⟨index, -, heq⟩ := frame_of_auditedDelta hframe hdelta
          rw [heq] at hstep
          rw [step_blockDelta hstep, ← ih hq]
          unfold AnthropicRelay.read
          rw [hdelta]
          dsimp only
          split_ifs <;> rfl
      | none =>
          unfold AnthropicRelay.read
          rw [hdelta]
          dsimp only
          rw [note_of_frame _ hframe]
          exact noteFrame_step (ih hq) hstep

theorem startedIndex_of_frame (h : e.frame ≠ .malformed) :
    AnthropicRelay.startedIndex e = e.frame.started := by
  obtain ⟨type, -, htype, hframe⟩ := exists_type_of_frame h
  rw [hframe] at h ⊢
  unfold AnthropicRelay.startedIndex
  rw [htype]
  by_cases hstart : type = lit "content_block_start"
  · subst hstart
    unfold frameOf at h ⊢
    simp only [lit_inj, String.reduceEq, if_false, if_true] at h ⊢
    split at h
    · next hindex _ => exact getInt_of_blockIndex hindex
    · exact absurd rfl h
  · rw [if_neg fun heq => hstart (Option.some_inj.mp heq)]
    unfold frameOf
    rw [if_neg hstart]
    split_ifs
    · rfl
    · cases blockIndex e.data <;> cases typeIn e.data "delta" <;> rfl
    · cases blockIndex e.data <;> rfl
    · rfl
    · rfl
    · rfl

theorem used_step {p q : BlockProgress ℤ PyString} {frame : MessageFrame}
    (h : p.step deltaFits frame = some q) : q.used = p.used ++ frame.started.toList := by
  cases frame with
  | malformed => cases h
  | blockStart | blockStop | other | messageStart | messageDelta | messageStop | blockDelta =>
      simp only [BlockProgress.step] at h
      split_ifs at h
      cases h
      simp [BlockFrame.started]

/-- The client was told of the blocks of the message. -/
theorem started_reading {p : BlockProgress ℤ PyString} (h : progress es = some p) :
    (reading cfg es).queue.filterMap (fun q => AnthropicRelay.startedIndex q.event) = p.used := by
  induction es using List.reverseRec generalizing p with
  | nil =>
      cases h
      rfl
  | append_singleton es e ih =>
      rw [progress_append] at h
      obtain ⟨q, hq, hstep⟩ := Option.bind_eq_some_iff.mp h
      have hframe := step_frame_ne hstep
      rw [Relayed.reading_append, (AnthropicRelay.read_queue cfg (reading cfg es) e).1, List.filterMap_append, ih hq,
        used_step hstep]
      congr 1
      unfold AnthropicRelay.queuedBy
      cases hdelta : e.auditedDelta with
      | some found =>
          obtain ⟨index, -, heq⟩ := frame_of_auditedDelta hframe hdelta
          rw [heq]
          rfl
      | none =>
          have hsame := frame_audited cfg e
          have hstarted := startedIndex_of_frame (hsame ▸ hframe)
          rw [hsame] at hstarted
          simp only [Option.isSome_none, Bool.false_eq_true, if_false, List.filterMap_cons, hstarted]
          cases e.frame.started <;> rfl

/-- The relay saw the end of the message. -/
theorem sawMessageStop_reading (cfg : GatewayConfig) (es : List SseEvent) :
    (reading cfg es).sawMessageStop = es.any fun e => decide (e.Is "message_stop") := by
  induction es using List.reverseRec with
  | nil => rfl
  | append_singleton es e ih =>
      rw [Relayed.reading_append, List.any_append, ← ih, List.any_cons, List.any_nil, Bool.or_false]
      unfold AnthropicRelay.read
      cases hdelta : e.auditedDelta with
      | some found =>
          have hnot : ¬ e.Is "message_stop" := by
            unfold SseEvent.auditedDelta at hdelta
            split_ifs at hdelta with his
            intro hstop
            have heq := lit_inj.mp (Option.some_inj.mp (his.symm.trans hstop))
            exact absurd heq (by decide)
          rw [decide_eq_false hnot, Bool.or_false]
          dsimp only
          split_ifs <;> rfl
      | none =>
          show ((reading cfg es).note e).sawMessageStop = _
          unfold AnthropicRelay.note
          by_cases hstop : e.Is "message_stop"
          · rw [if_pos hstop, decide_eq_true hstop, Bool.or_true]
          · rw [if_neg hstop, decide_eq_false hstop, Bool.or_false]
            split_ifs
            · split <;> rfl
            · split <;> rfl
            · rfl

end

/-! ## The refusal -/

theorem nextBlock_not_mem (blocks : List ℤ) : AnthropicRelay.nextBlock blocks ∉ blocks := by
  cases blocks with
  | nil => exact List.not_mem_nil
  | cons first rest =>
      obtain ⟨hfirst, hrest⟩ := le_foldl_max first rest
      intro hmem
      change rest.foldl max first + 1 ∈ first :: rest at hmem
      cases List.mem_cons.mp hmem with
      | inl heq => omega
      | inr hmem =>
          have := hrest _ hmem
          omega

section
variable {p : BlockProgress ℤ PyString} {relay : AnthropicRelay} {reason : StopReason}

theorem frames_map_stopEvent (indices : List ℤ) :
    frames ((indices.map AnthropicRelay.stopEvent).map ClientEvent.frame) =
      indices.map .blockStop := by
  unfold frames
  rw [List.map_map, List.map_map]
  apply List.map_congr_left
  intro index _
  exact frame_stopEvent index

theorem frames_append (es es' : List SseEvent) : frames (es ++ es') = frames es ++ frames es' :=
  List.map_append

/-- A refusal that goes into an open block. -/
theorem frames_refusal_open {index : ℤ} (h : relay.openBlocks.getLast? = some index)
    (hclient : index ∈ relay.clientBlocks) :
    frames ((relay.refusalEvents reason).map ClientEvent.frame) =
      .blockDelta index (lit "text_delta") ::
        (relay.openBlocks.map .blockStop ++ [.messageDelta, .messageStop]) := by
  unfold AnthropicRelay.refusalEvents
  rw [h]
  dsimp only
  rw [if_pos hclient, List.nil_append, List.map_append, frames_append, frames_refusalEnd,
    List.map_cons, frames, List.map_cons, ← frames, frame_text, frames_map_stopEvent]
  rfl

/-- A refusal in a block of its own. -/
theorem frames_refusal_new (h : relay.openBlocks.getLast? = none) :
    frames ((relay.refusalEvents reason).map ClientEvent.frame) =
      [.blockStart (AnthropicRelay.nextBlock relay.clientBlocks) (lit "text"),
        .blockDelta (AnthropicRelay.nextBlock relay.clientBlocks) (lit "text_delta"),
        .blockStop (AnthropicRelay.nextBlock relay.clientBlocks)] ++
        [.messageDelta, .messageStop] := by
  unfold AnthropicRelay.refusalEvents
  rw [h]
  dsimp only
  rw [List.map_append, frames_append, frames_refusalEnd]
  rfl

/-- A refusal completes a message that has begun and is not summed up, if the last
open block takes text. -/
theorem foldlM_refusal (hdistinct : p.Distinct) (hopen : relay.openBlocks = p.opened.map Prod.fst)
    (hclient : relay.clientBlocks = p.used) :
    ((frames ((relay.refusalEvents reason).map ClientEvent.frame)).foldlM
        (BlockProgress.step deltaFits) p).any (·.phase = .stopped) ↔
      p.phase = .content ∧
        ∀ block ∈ p.opened.getLast?, deltaFits (lit "text_delta") block.2 := by
  have hlast : relay.openBlocks.getLast? = p.opened.getLast?.map Prod.fst := by
    rw [hopen, List.getLast?_map]
  cases hopened : p.opened.getLast? with
  | some block =>
      rw [hopened] at hlast
      have hmem : block ∈ p.opened := List.mem_of_getLast? hopened
      have hused : block.1 ∈ relay.clientBlocks := hclient ▸ hdistinct.used block hmem
      rw [frames_refusal_open hlast hused, List.foldlM_cons]
      by_cases hphase : p.phase = .content
      · rw [BlockProgress.step_delta hphase hdistinct hmem]
        by_cases hfits : deltaFits (lit "text_delta") block.2 = true
        · have hclosed : p.opened.map (fun block => (.blockStop block.1 : MessageFrame)) =
              relay.openBlocks.map .blockStop := by
            rw [hopen, List.map_map]
            rfl
          have hend : [(.messageDelta : MessageFrame), .messageStop].foldlM
              (BlockProgress.step deltaFits) { p with opened := [] } =
              some ⟨.stopped, [], p.used⟩ := BlockProgress.end_message hphase rfl
          rw [if_pos hfits, Option.bind_eq_bind, Option.bind_some, List.foldlM_append, ← hclosed,
            BlockProgress.close_all hphase, Option.bind_eq_bind, Option.bind_some, hend]
          simp [hphase, hfits]
        · rw [if_neg hfits]
          simp [hfits]
      · rw [BlockProgress.step_delta_of_not_content hphase]
        simp [hphase]
  | none =>
      rw [hopened] at hlast
      have hnil : p.opened = [] := List.getLast?_eq_none_iff.mp hopened
      have hnew : AnthropicRelay.nextBlock relay.clientBlocks ∉ p.used := by
        rw [← hclient]
        exact nextBlock_not_mem _
      rw [frames_refusal_new hlast]
      by_cases hphase : p.phase = .content
      · have hfits : deltaFits (lit "text_delta") (lit "text") = true := by decide
        have hadded := BlockProgress.add_block hphase hnil hnew hfits
        have hend : [(.messageDelta : MessageFrame), .messageStop].foldlM
            (BlockProgress.step deltaFits)
            { p with used := p.used ++ [AnthropicRelay.nextBlock relay.clientBlocks] } =
            some { p with phase := .stopped
                          used := p.used ++ [AnthropicRelay.nextBlock relay.clientBlocks] } :=
          BlockProgress.end_message hphase hnil
        rw [List.foldlM_append, hadded, Option.bind_eq_bind, Option.bind_some, hend]
        simp [hphase]
      · rw [List.cons_append, List.foldlM_cons, BlockProgress.step_start_of_not_content hphase]
        simp [hphase]

end

/-! ## Well-formed relays -/

def goesOn (e : SseEvent) : Bool := ¬ e.Is "message_stop"

/-- The events before the end of the message, and those after it. -/
def untilStop (es : List SseEvent) : List SseEvent := es.takeWhile goesOn

def afterStop (es : List SseEvent) : List SseEvent := (es.dropWhile goesOn).tail

/-- A message that a refusal can complete. -/
def TakesRefusal (read : List SseEvent) : Prop :=
  (progress read).any fun p => p.phase = .content ∧
    p.opened.getLast?.all fun block => deltaFits (lit "text_delta") block.2

/-- Nothing that came after the end of the message is let go. -/
def EndsAtStop (cfg : GatewayConfig) (read : List SseEvent) : Prop :=
  (∀ e ∈ afterStop read, e.auditedDelta.isSome) ∧
    ∀ t ∈ PiiStreamBuffer.released cfg.buffer (fragments read),
      t.index < (fragments (untilStop read)).length

/-- When the relay keeps an answer well formed. -/
def KeepsWellFormed (cfg : GatewayConfig) (events : List SseEvent) (ending : Ending) : Prop :=
  let consumed := readUntil cfg .init [] events
  if consumed.2.isSome ∨ ending = .failure ∨ consumed.1.all goesOn then TakesRefusal consumed.1
  else EndsAtStop cfg consumed.1

instance (read : List SseEvent) : Decidable (TakesRefusal read) :=
  inferInstanceAs (Decidable (_ = true))

instance (cfg : GatewayConfig) (read : List SseEvent) : Decidable (EndsAtStop cfg read) :=
  inferInstanceAs (Decidable (_ ∧ _))

instance (cfg : GatewayConfig) (events : List SseEvent) (ending : Ending) :
    Decidable (KeepsWellFormed cfg events ending) :=
  inferInstanceAs (Decidable (ite _ _ _))

section
variable {cfg : GatewayConfig} {events answer : List SseEvent}

theorem readUntil_prefix (cfg : GatewayConfig) (b : PiiStreamBuffer CodePoint) (seen : List Text)
    (es : List SseEvent) : (readUntil cfg b seen es).1 <+: es := by
  induction es generalizing b seen with
  | nil => exact List.prefix_rfl
  | cons e es ih =>
      unfold readUntil
      cases e.fragment with
      | none =>
          dsimp only
          split_ifs
          · exact List.cons_prefix_cons.mpr ⟨rfl, ih b seen⟩
          · exact List.nil_prefix
      | some found =>
          dsimp only
          split_ifs
          · exact List.cons_prefix_cons.mpr ⟨rfl, List.nil_prefix⟩
          · exact List.cons_prefix_cons.mpr ⟨rfl, List.nil_prefix⟩
          · exact List.cons_prefix_cons.mpr ⟨rfl, ih _ _⟩

theorem is_messageStop_iff {e : SseEvent} (h : e.frame ≠ .malformed) :
    e.Is "message_stop" ↔ e.frame = .messageStop := by
  obtain ⟨type, hkind, -, hframe⟩ := exists_type_of_frame h
  have his : e.Is "message_stop" ↔ type = lit "message_stop" := by
    rw [SseEvent.Is, hkind, Option.some_inj]
  rw [his, hframe]
  constructor
  · rintro rfl
    unfold frameOf
    simp only [lit_inj, String.reduceEq, if_false, if_true]
  · intro hstop
    unfold frameOf at hstop
    split_ifs at hstop with h1 h2 h3 h4 h5 h6
    · split at hstop <;> cases hstop
    · split at hstop <;> cases hstop
    · split at hstop <;> cases hstop
    · exact h6

theorem progress_append' (es es' : List SseEvent) : progress (es ++ es') =
    (progress es).bind fun p => (frames es').foldlM (BlockProgress.step deltaFits) p := by
  unfold progress
  rw [frames_append, BlockProgress.after_append]

/-- What comes of a part of a well-formed answer. -/
theorem exists_progress (hanswer : WellFormedAnswer answer) (h : events <+: answer) :
    ∃ p, progress events = some p := by
  obtain ⟨rest, rfl⟩ := h
  cases hp : progress events with
  | some p => exact ⟨p, rfl⟩
  | none =>
      unfold WellFormedAnswer WellFormedMessage at hanswer
      have hnone : BlockProgress.after deltaFits (frames (events ++ rest)) = none := by
        have := progress_append' events rest
        rw [hp] at this
        exact this
      rw [hnone] at hanswer
      cases hanswer

theorem exists_stopped (hanswer : WellFormedAnswer answer) :
    ∃ p, progress answer = some p ∧ p.phase = .stopped := by
  unfold WellFormedAnswer WellFormedMessage at hanswer
  cases hp : BlockProgress.after deltaFits (frames answer) with
  | none =>
      rw [hp] at hanswer
      cases hanswer
  | some p =>
      rw [hp] at hanswer
      exact ⟨p, hp, of_decide_eq_true hanswer⟩

/-- Nothing but its end stops a message. -/
theorem stopped_of_stop {stop : SseEvent} {p : BlockProgress ℤ PyString} (hstop : stop.Is "message_stop")
    (hp : progress (events ++ [stop]) = some p) : p.phase = .stopped := by
  rw [progress_append] at hp
  obtain ⟨q, hq, hstep⟩ := Option.bind_eq_some_iff.mp hp
  have hframe := (is_messageStop_iff (step_frame_ne hstep)).mp hstop
  rw [hframe] at hstep
  simp only [BlockProgress.step] at hstep
  split_ifs at hstep
  cases hstep
  rfl

/-- The end of an answer is its last event. -/
theorem answer_eq (hanswer : WellFormedAnswer answer) :
    ∃ stop, stop.Is "message_stop" ∧ answer = untilStop answer ++ [stop] := by
  obtain ⟨p, hp, hstopped⟩ := exists_stopped hanswer
  have hinit : (BlockProgress.init : BlockProgress ℤ PyString).phase ≠ .stopped := by
    intro h
    cases h
  have hmem := (BlockProgress.stopped_iff hinit hp).mp hstopped
  obtain ⟨e, he, hframe⟩ := List.mem_map.mp hmem
  have hne : e.frame ≠ .malformed := by
    rw [hframe]
    rintro ⟨⟩
  have his : e.Is "message_stop" := (is_messageStop_iff hne).mpr hframe
  have hsplit : untilStop answer ++ answer.dropWhile goesOn = answer :=
    List.takeWhile_append_dropWhile
  cases hdrop : answer.dropWhile goesOn with
  | nil =>
      rw [List.dropWhile_eq_nil_iff] at hdrop
      exact absurd his (of_decide_eq_true (hdrop e he))
  | cons stop tail =>
      have hhead : stop.Is "message_stop" := by
        have hnot := List.head?_dropWhile_not goesOn answer
        rw [hdrop] at hnot
        simpa [goesOn] using hnot
      rw [hdrop] at hsplit
      refine ⟨stop, hhead, ?_⟩
      have hpart : untilStop answer ++ [stop] <+: answer := by
        refine ⟨tail, ?_⟩
        rw [List.append_assoc]
        exact hsplit
      obtain ⟨q, hq⟩ := exists_progress hanswer hpart
      have hall : progress (untilStop answer ++ [stop] ++ tail) = some p := by
        rw [List.append_assoc]
        exact (congrArg progress hsplit).trans hp
      rw [progress_append', hq, Option.bind_some,
        BlockProgress.foldlM_of_stopped (stopped_of_stop hhead hq)] at hall
      split_ifs at hall with hnil
      have htail : tail = [] := List.map_eq_nil_iff.mp hnil
      rw [htail] at hsplit
      exact hsplit.symm

/-! ### A refusal -/

section
variable {read : List SseEvent} {sent : List ClientEvent} {r : AnthropicRelay}
  {out : List Outgoing} {reason : StopReason}

theorem wellFormed_iff_foldlM {p : BlockProgress ℤ PyString} {first rest : List SseEvent}
    (hp : progress first = some p) : WellFormedAnswer (first ++ rest) ↔
      ((frames rest).foldlM (BlockProgress.step deltaFits) p).any (·.phase = .stopped) := by
  have hall := progress_append' first rest
  rw [hp, Option.bind_some] at hall
  unfold WellFormedAnswer WellFormedMessage
  rw [show BlockProgress.after deltaFits (frames (first ++ rest)) = _ from hall]

/-- A refusal after a part of an answer. -/
theorem refused_iff (h : Finished cfg read sent r out) {p : BlockProgress ℤ PyString}
    (hp : progress read = some p) :
    WellFormedAnswer ((sent ++ r.refusalEvents reason).map ClientEvent.frame) ↔
      TakesRefusal read := by
  have hopen : r.openBlocks = p.opened.map Prod.fst :=
    h.relayed.same.openBlocks.trans (openBlocks_reading hp)
  have hclient : r.clientBlocks = p.used := by
    rw [h.relayed.clientBlocks, h.left]
    exact started_reading hp
  rw [List.map_append, wellFormed_iff_foldlM (progress_sent h.expands hp),
    foldlM_refusal (BlockProgress.distinct_after hp) hopen hclient]
  unfold TakesRefusal
  rw [hp, Option.any_some, decide_eq_true_iff]
  cases p.opened.getLast? <;> simp

theorem refusalEvents_ne_nil : r.refusalEvents reason ≠ [] := by
  unfold AnthropicRelay.refusalEvents
  split <;> simp

/-- A refusal after a whole answer, and after what follows one. -/
theorem refused_after_answer (h : Finished cfg read sent r out) (hanswer : WellFormedAnswer answer)
    {rest : List SseEvent} (hread : read = answer ++ rest) :
    ¬ WellFormedAnswer ((sent ++ r.refusalEvents reason).map ClientEvent.frame) := by
  obtain ⟨p, hp, hstopped⟩ := exists_stopped hanswer
  have hexpands := h.expands
  rw [hread, reads_append] at hexpands
  obtain ⟨first, late, rfl, hfirst, -⟩ := hexpands.exists_append
  rw [List.append_assoc, List.map_append, wellFormed_iff_foldlM (progress_sent hfirst hp),
    BlockProgress.foldlM_of_stopped hstopped, if_neg]
  · simp
  · intro hnil
    have hmap : late ++ r.refusalEvents reason = [] :=
      List.map_eq_nil_iff.mp (List.map_eq_nil_iff.mp hnil)
    exact refusalEvents_ne_nil (List.append_eq_nil_iff.mp hmap).2

theorem not_takesRefusal_of_answer (hanswer : WellFormedAnswer answer) (rest : List SseEvent) :
    ¬ TakesRefusal (answer ++ rest) := by
  obtain ⟨p, hp, hstopped⟩ := exists_stopped hanswer
  unfold TakesRefusal
  rw [progress_append', hp, Option.bind_some, BlockProgress.foldlM_of_stopped hstopped]
  split_ifs <;> simp [hstopped]

end

/-! ### An answer that is over -/

section
variable {rest : List SseEvent} {sent : List ClientEvent} {r : AnthropicRelay}
  {out : List Outgoing}

theorem untilStop_append (hanswer : WellFormedAnswer answer) (rest : List SseEvent) :
    untilStop (answer ++ rest) = untilStop answer ∧ afterStop (answer ++ rest) = rest := by
  obtain ⟨stop, hstop, heq⟩ := answer_eq hanswer
  have hbefore : ∀ e ∈ untilStop answer, goesOn e = true :=
    fun e he => List.mem_takeWhile_imp he
  have hnot : ¬ goesOn stop = true := by simpa [goesOn] using hstop
  have hsplit : answer ++ rest = untilStop answer ++ (stop :: rest) := by
    conv_lhs => rw [heq]
    rw [List.append_assoc, List.singleton_append]
  unfold afterStop
  constructor
  · conv_lhs => unfold untilStop
    rw [hsplit, List.takeWhile_append_of_pos hbefore, List.takeWhile_cons_of_neg hnot,
      List.append_nil]
  · rw [hsplit, List.dropWhile_append_of_pos hbefore, List.dropWhile_cons_of_neg hnot]
    rfl

theorem fragments_answer (hanswer : WellFormedAnswer answer) :
    (fragments answer).length = (fragments (untilStop answer)).length := by
  obtain ⟨stop, hstop, heq⟩ := answer_eq hanswer
  have hnone : fragments [stop] = [] := by
    have hdelta : stop.auditedDelta = none := by
      unfold SseEvent.auditedDelta
      apply if_neg
      intro his
      have hsame := lit_inj.mp (Option.some_inj.mp (his.symm.trans hstop))
      exact absurd hsame (by decide)
    unfold fragments SseEvent.fragment
    simp [hdelta]
  conv_lhs => rw [heq]
  rw [fragments_append', hnone, List.append_nil]

theorem mem_reads_cons {n : ℕ} {a : Read} {e : SseEvent} {es : List SseEvent} :
    a ∈ reads cfg n (e :: es) ↔ a ∈ readOf cfg n e ∨ a ∈ reads cfg (n + (fragments [e]).length) es :=
  List.mem_append

/-- An event that is no audited delta is read as itself. -/
theorem exists_event_of_not_delta {n : ℕ} {e : SseEvent} (he : e ∈ rest)
    (hdelta : e.auditedDelta = none) : ∃ q, .inl q ∈ reads cfg n rest := by
  induction rest generalizing n with
  | nil => cases he
  | cons first rest ih =>
      cases he with
      | head =>
          refine ⟨⟨AnthropicRelay.audited cfg e, n⟩, mem_reads_cons.mpr (.inl ?_)⟩
          unfold readOf SseEvent.fragment AnthropicRelay.queuedBy
          simp [hdelta]
      | tail _ he =>
          obtain ⟨q, hq⟩ := ih he
          exact ⟨q, mem_reads_cons.mpr (.inr hq)⟩

theorem no_event_of_deltas {n : ℕ} (h : ∀ e ∈ rest, e.auditedDelta.isSome) (q : QueuedEvent) :
    .inl q ∉ reads cfg n rest := by
  induction rest generalizing n with
  | nil => exact List.not_mem_nil
  | cons first rest ih =>
      intro hq
      cases mem_reads_cons.mp hq with
      | inl hfirst =>
          unfold readOf AnthropicRelay.queuedBy at hfirst
          rw [h first List.mem_cons_self, if_pos rfl] at hfirst
          split at hfirst
          · cases List.mem_singleton.mp hfirst
          · cases hfirst
      | inr hrest => exact ih (fun e he => h e (List.mem_cons_of_mem _ he)) hrest

/-- What an element of an expansion stands for. -/
def StandsFor (a : Read) (b : Outgoing) : Prop :=
  match a with
  | .inl q => b = .inl q
  | .inr p => ∃ t, b = .inr t ∧ t.index = p.place

theorem standsFor (a : Read) (run : List Outgoing)
    (h : Follows Push.place BufferedToken.index a run) : ∀ b ∈ run, StandsFor a b := by
  cases a with
  | inl q =>
      rw [show run = [.inl q] from h]
      intro b hb
      exact List.mem_singleton.mp hb
  | inr p => exact h

/-- Nothing is let go of what came after an answer. -/
theorem late_eq_nil_iff {n : ℕ} {late : List Outgoing}
    (h : Expands (Follows Push.place BufferedToken.index) (reads cfg n rest) late) :
    late = [] ↔ (∀ e ∈ rest, e.auditedDelta.isSome) ∧ ∀ t, .inr t ∈ late → t.index < n := by
  constructor
  · rintro rfl
    refine ⟨?_, fun t ht => absurd ht List.not_mem_nil⟩
    intro e he
    cases hdelta : e.auditedDelta with
    | some found => rfl
    | none =>
        obtain ⟨q, hq⟩ := @exists_event_of_not_delta cfg _ n e he hdelta
        obtain ⟨run, hrun, hsub⟩ := h.exists_run hq
        have hmem : .inl q ∈ run := by
          rw [show run = [.inl q] from hrun]
          exact List.mem_singleton_self _
        exact absurd (hsub _ hmem) List.not_mem_nil
  · rintro ⟨hdeltas, htexts⟩
    apply List.eq_nil_iff_forall_not_mem.mpr
    intro b hb
    obtain ⟨a, ha, hab⟩ := h.exists_of_mem standsFor hb
    cases a with
    | inl q => exact no_event_of_deltas hdeltas q ha
    | inr p =>
        obtain ⟨t, rfl, hindex⟩ := hab
        have hlt := htexts t hb
        have hge := slot_of_mem_reads ha
        simp only [readSlot, slot] at hge
        omega

/-- An answer that is over is well formed if what came after it is kept. -/
theorem completed_iff (h : Finished cfg (answer ++ rest) sent r out)
    (hanswer : WellFormedAnswer answer)
    (hreleased : out.filterMap Sum.getRight? =
      PiiStreamBuffer.released cfg.buffer (fragments (answer ++ rest))) :
    WellFormedAnswer (sent.map ClientEvent.frame) ↔ EndsAtStop cfg (answer ++ rest) := by
  obtain ⟨p, hp, hstopped⟩ := exists_stopped hanswer
  obtain ⟨huntil, hafter⟩ := untilStop_append hanswer rest
  have hfollows := h.follows
  rw [reads_append, Nat.zero_add] at hfollows
  obtain ⟨first, late, hout, hfirst, hlate⟩ := hfollows.exists_append
  -- The client has a whole message once it has what the answer gave.
  have hexpands : Expands SentFor (reads cfg 0 answer) (first.map (client (reading cfg (answer ++ rest)))) := by
    apply hfirst.map
    intro a ha run hrun
    apply client_sentFor _ hrun
    rw [reads_append]
    exact List.mem_append_left _ ha
  have hwhole : WellFormedAnswer (sent.map ClientEvent.frame) ↔ late = [] := by
    rw [h.sent, hout, List.map_append, List.map_append,
      wellFormed_iff_foldlM (progress_sent hexpands hp), BlockProgress.foldlM_of_stopped hstopped]
    unfold frames
    simp only [List.map_eq_nil_iff]
    split_ifs with hnil
    · simp [hnil, hstopped]
    · simp [hnil]
  rw [hwhole, late_eq_nil_iff hlate]
  unfold EndsAtStop
  rw [hafter, huntil, ← fragments_answer hanswer, ← hreleased]
  apply and_congr_right
  intro _
  constructor
  · intro htexts t ht
    obtain ⟨b, hb, hright⟩ := List.mem_filterMap.mp ht
    obtain rfl : b = .inr t := Sum.getRight?_eq_some_iff.mp hright
    rw [hout] at hb
    cases List.mem_append.mp hb with
    | inl hfirst' =>
        obtain ⟨a, ha, hab⟩ := hfirst.exists_of_mem standsFor hfirst'
        cases a with
        | inl q => cases hab
        | inr push =>
            obtain ⟨t', heq, hindex⟩ := hab
            cases heq
            rw [hindex]
            exact place_lt ha
    | inr hlate' => exact htexts t hlate'
  · intro htexts t ht
    apply htexts t
    apply List.mem_filterMap.mpr
    refine ⟨.inr t, ?_, rfl⟩
    rw [hout]
    exact List.mem_append_right _ ht

end

/-- What is read of an answer until its end is the answer. -/
theorem eq_answer_of_stop {read : List SseEvent} (hanswer : WellFormedAnswer answer)
    (h : read <+: answer) (hstop : ¬ read.all goesOn = true) : read = answer := by
  obtain ⟨stop, -, heq⟩ := answer_eq hanswer
  rw [heq] at h
  cases List.prefix_concat_iff.mp h with
  | inl hall => exact hall.trans heq.symm
  | inr hbefore =>
      exfalso
      apply hstop
      apply List.all_eq_true.mpr
      intro e he
      exact List.mem_takeWhile_imp (hbefore.subset he)

theorem all_goesOn_iff (cfg : GatewayConfig) (read : List SseEvent) :
    read.all goesOn = true ↔ (reading cfg read).sawMessageStop = false := by
  rw [sawMessageStop_reading, List.all_eq_true, List.any_eq_false]
  simp [goesOn]

theorem stopReason_eq_none_iff {ended : Option StopReason} {saw : Bool} {ending : Ending} :
    stopReason ended ending saw = none ↔
      ¬ (ended.isSome = true ∨ ending = .failure ∨ saw = false) := by
  unfold stopReason
  cases ended <;> cases ending <;> cases saw <;> simp

end

/-! ## A refusal in a text block, and one in a tool call -/

/-- A gateway whose scanner finds nothing and whose monitor lets everything pass. -/
def plainGateway : GatewayConfig where
  engine := ⟨fun _ => false, fun c => [c], fun _ => none, [], []⟩
  literals := []
  anthropicApiKey := none
  diverges := fun _ => false

def messageStart : SseEvent := sse "message_start" [(lit "message", .dict [])]

def blockStart (type : String) : SseEvent :=
  sse "content_block_start" [(lit "index", .int 0), (lit "content_block", .dict [(lit "type", str type)])]

def answerEnd : List SseEvent :=
  [sse "content_block_stop" [(lit "index", .int 0)], sse "message_delta" [], sse "message_stop" []]

end BlackMonolith.TraceAudit
