import BlackMonolith.TraceAudit.AnthropicRelay
import Mathlib.Data.List.GetD

/-!
# The order in which the relay lets go

The relay sends events and pieces of text in the order in which it read the
events and the pushes they come from, whatever the buffer and the monitor do.
Every event that was read is sent, and every piece of text names its push.
-/
namespace BlackMonolith.TraceAudit
open Library

/-- What leaves the relay: an event, or a piece of text. -/
abbrev Outgoing := QueuedEvent ⊕ BufferedToken CodePoint

abbrev outgoingSlot : Outgoing → ℕ := slot QueuedEvent.pushesBefore BufferedToken.index

/-- The relay that has read some events and has let none of them go. -/
def reading (cfg : GatewayConfig) (es : List SseEvent) : AnthropicRelay :=
  es.foldl (fun r e => (r.read cfg e).1) .init

/-- What an output is for the client. -/
def client (r : AnthropicRelay) : Outgoing → ClientEvent
  | .inl q => .passthrough q.event
  | .inr t => .text (r.blockOfPush.getD t.index 0) t.token (r.deltaKindOfPush.getD t.index .text)

namespace AnthropicRelay
variable {cfg : GatewayConfig} {r r' : AnthropicRelay} {e : SseEvent}

/-! ## Reading -/

/-- Two relays have read the same, whatever they have let go. -/
structure SameReading (r r' : AnthropicRelay) : Prop where
  blockOfPush : r.blockOfPush = r'.blockOfPush
  deltaKindOfPush : r.deltaKindOfPush = r'.deltaKindOfPush
  pushes : r.pushes = r'.pushes
  openBlocks : r.openBlocks = r'.openBlocks
  sawMessageStop : r.sawMessageStop = r'.sawMessageStop

/-- What reading an event adds to the queue. -/
def queuedBy (cfg : GatewayConfig) (pushes : ℕ) (e : SseEvent) : List QueuedEvent :=
  if e.auditedDelta.isSome then [] else [⟨audited cfg e, pushes⟩]

theorem note_queue : (r.note e).queue = r.queue ∧ (r.note e).clientBlocks = r.clientBlocks ∧
    (r.note e).blockOfPush = r.blockOfPush ∧ (r.note e).deltaKindOfPush = r.deltaKindOfPush ∧
    (r.note e).pushes = r.pushes := by
  unfold note
  split_ifs
  · exact ⟨rfl, rfl, rfl, rfl, rfl⟩
  · split <;> exact ⟨rfl, rfl, rfl, rfl, rfl⟩
  · split <;> exact ⟨rfl, rfl, rfl, rfl, rfl⟩
  · exact ⟨rfl, rfl, rfl, rfl, rfl⟩

theorem same_note (h : SameReading r r') : SameReading (r.note e) (r'.note e) := by
  unfold note
  split_ifs
  · exact ⟨h.blockOfPush, h.deltaKindOfPush, h.pushes, h.openBlocks, rfl⟩
  · split
    · exact ⟨h.blockOfPush, h.deltaKindOfPush, h.pushes, congrArg (· ++ _) h.openBlocks,
        h.sawMessageStop⟩
    · exact h
  · split
    · exact ⟨h.blockOfPush, h.deltaKindOfPush, h.pushes, congrArg (List.erase · _) h.openBlocks,
        h.sawMessageStop⟩
    · exact h
  · exact h

/-- An event that gives the auditor nothing. -/
theorem read_none (cfg : GatewayConfig) (r : AnthropicRelay) (h : e.fragment = none) : (r.read cfg e).2 = none ∧
    (r.read cfg e).1 = if e.auditedDelta.isSome then r else
      { r.note e with queue := r.queue ++ queuedBy cfg r.pushes e } := by
  unfold SseEvent.fragment at h
  unfold read queuedBy
  cases hdelta : e.auditedDelta with
  | none =>
      obtain ⟨hqueue, -, -, -, hpushes⟩ := note_queue (r := r) (e := e)
      refine ⟨rfl, ?_⟩
      dsimp only
      rw [hqueue, hpushes]
      rfl
  | some found =>
      rw [hdelta] at h
      dsimp only at h ⊢
      split_ifs at h with hempty
      rw [if_pos hempty]
      exact ⟨rfl, rfl⟩

theorem read_some (cfg : GatewayConfig) (r : AnthropicRelay) {kind : DeltaKind} {token : Text}
    (h : e.fragment = some (kind, token)) :
    r.read cfg e = ({ r with blockOfPush := r.blockOfPush ++ [(getInt e.data "index").getD 0]
                             deltaKindOfPush := r.deltaKindOfPush ++ [kind]
                             pushes := r.pushes + 1 }, some token) := by
  unfold SseEvent.fragment at h
  unfold read
  cases hdelta : e.auditedDelta with
  | none =>
      rw [hdelta] at h
      cases h
  | some found =>
      rw [hdelta] at h
      dsimp only at h ⊢
      split_ifs at h with hempty
      rw [if_neg hempty]
      cases h
      rfl

theorem auditedDelta_of_fragment {kind : DeltaKind} {token : Text}
    (h : e.fragment = some (kind, token)) : ∃ delta, e.auditedDelta = some (kind, delta) := by
  unfold SseEvent.fragment at h
  cases hdelta : e.auditedDelta with
  | none =>
      rw [hdelta] at h
      cases h
  | some found =>
      rw [hdelta] at h
      dsimp only at h
      split_ifs at h
      cases h
      exact ⟨found.2, rfl⟩

theorem read_queue (cfg : GatewayConfig) (r : AnthropicRelay) (e : SseEvent) :
    (r.read cfg e).1.queue = r.queue ++ queuedBy cfg r.pushes e ∧
    (r.read cfg e).1.clientBlocks = r.clientBlocks := by
  cases hfragment : e.fragment with
  | none =>
      rw [(read_none cfg r hfragment).2]
      unfold queuedBy
      split_ifs
      · exact ⟨(List.append_nil _).symm, rfl⟩
      · exact ⟨rfl, (note_queue (r := r) (e := e)).2.1⟩
  | some found =>
      obtain ⟨delta, hdelta⟩ := auditedDelta_of_fragment hfragment
      rw [read_some cfg r hfragment]
      unfold queuedBy
      rw [hdelta]
      exact ⟨(List.append_nil _).symm, rfl⟩

theorem same_read (h : SameReading r r') : SameReading (r.read cfg e).1 (r'.read cfg e).1 := by
  cases hfragment : e.fragment with
  | none =>
      rw [(read_none cfg r hfragment).2, (read_none cfg r' hfragment).2]
      split_ifs
      · exact h
      · have hnote := same_note (e := e) h
        exact ⟨hnote.blockOfPush, hnote.deltaKindOfPush, hnote.pushes, hnote.openBlocks,
          hnote.sawMessageStop⟩
  | some found =>
      rw [read_some cfg r hfragment, read_some cfg r' hfragment]
      exact ⟨congrArg (· ++ _) h.blockOfPush, congrArg (· ++ _) h.deltaKindOfPush,
        congrArg (· + 1) h.pushes, h.openBlocks, h.sawMessageStop⟩

/-! ## Letting go -/

/-- The index of a block whose start the client is told of. -/
def startedIndex (e : SseEvent) : Option ℤ :=
  if getStr e.data "type" = some (lit "content_block_start") then getInt e.data "index" else none

theorem noteClientBlock_eq : r.noteClientBlock e =
    { r with clientBlocks := r.clientBlocks ++ (startedIndex e).toList } := by
  unfold noteClientBlock startedIndex
  split_ifs
  · cases getInt e.data "index" with
    | none => simp
    | some index => rfl
  · simp

theorem foldl_noteClientBlock (qs : List QueuedEvent) :
    qs.foldl (fun r q => r.noteClientBlock q.event) r =
      { r with clientBlocks := r.clientBlocks ++ qs.filterMap fun q => startedIndex q.event } := by
  induction qs generalizing r with
  | nil => simp
  | cons q qs ih =>
      rw [List.foldl_cons, ih, noteClientBlock_eq]
      cases hstarted : startedIndex q.event <;> simp [hstarted]

theorem releaseReady_eq (through : ℤ) : r.releaseReady through =
    ((r.queue.takeWhile (isReady through)).map fun q => .passthrough q.event,
      { r with
        queue := r.queue.dropWhile (isReady through)
        clientBlocks := r.clientBlocks ++
          (r.queue.takeWhile (isReady through)).filterMap fun q => startedIndex q.event }) := by
  unfold releaseReady
  dsimp only
  rw [foldl_noteClientBlock]

end AnthropicRelay

/-! ## The invariant -/

/-- What was let go so far stands in the order in which it was read; what waits
is what was read and not let go. No output comes after the push `low`. -/
structure Relayed (cfg : GatewayConfig) (es : List SseEvent) (out : List Outgoing)
    (r : AnthropicRelay) (low : ℕ) : Prop where
  same : r.SameReading (reading cfg es)
  queued : out.filterMap Sum.getLeft? ++ r.queue = (reading cfg es).queue
  ordered : ((out ++ r.queue.map Sum.inl).map outgoingSlot).Pairwise (· ≤ ·)
  bounded : ∀ a ∈ out, outgoingSlot a ≤ 2 * low + 1
  texts : ∀ t, .inr t ∈ out → t.index < r.pushes
  clientBlocks : r.clientBlocks =
    (out.filterMap Sum.getLeft?).filterMap fun q => AnthropicRelay.startedIndex q.event

namespace Relayed
open AnthropicRelay
variable {cfg : GatewayConfig} {es : List SseEvent} {out : List Outgoing} {r : AnthropicRelay}
  {low : ℕ}

theorem init (cfg : GatewayConfig) : Relayed cfg [] [] .init 0 where
  same := ⟨rfl, rfl, rfl, rfl, rfl⟩
  queued := rfl
  ordered := List.Pairwise.nil
  bounded := List.forall_mem_nil _
  texts := fun _ h => absurd h List.not_mem_nil
  clientBlocks := rfl

theorem mono (h : Relayed cfg es out r low) {high : ℕ} (hle : low ≤ high) :
    Relayed cfg es out r high :=
  { h with bounded := fun a ha => (h.bounded a ha).trans (by omega) }

theorem queue_ordered (h : Relayed cfg es out r low) :
    r.queue.Pairwise fun a b => a.pushesBefore ≤ b.pushesBefore := by
  have hall := h.ordered
  rw [List.map_append, List.pairwise_append, List.map_map] at hall
  apply (List.pairwise_map.mp hall.2.1).imp
  intro a b hab
  simp only [Function.comp_apply, outgoingSlot, slot] at hab
  omega

theorem pushes_le_read (cfg : GatewayConfig) (r : AnthropicRelay) (e : SseEvent) : r.pushes ≤ (r.read cfg e).1.pushes := by
  cases hfragment : e.fragment with
  | none =>
      rw [(read_none cfg r hfragment).2]
      split_ifs
      · exact Nat.le_refl _
      · exact (note_queue (r := r) (e := e)).2.2.2.2.ge
  | some found =>
      rw [read_some cfg r hfragment]
      exact Nat.le_succ _

theorem pushesBefore_queuedBy {pushes : ℕ} {e : SseEvent} :
    ∀ q ∈ queuedBy cfg pushes e, q.pushesBefore = pushes := by
  intro q hq
  unfold queuedBy at hq
  split_ifs at hq
  · cases hq
  · rw [List.mem_singleton.mp hq]

theorem reading_append (es : List SseEvent) (e : SseEvent) :
    reading cfg (es ++ [e]) = ((reading cfg es).read cfg e).1 := by
  unfold reading
  rw [List.foldl_append]
  rfl

/-- No event waits for a push that was not read. -/
theorem pushesBefore_le (cfg : GatewayConfig) (es : List SseEvent) :
    ∀ q ∈ (reading cfg es).queue, q.pushesBefore ≤ (reading cfg es).pushes := by
  induction es using List.reverseRec with
  | nil => exact List.forall_mem_nil _
  | append_singleton es e ih =>
      rw [reading_append]
      have hpushes := pushes_le_read cfg (reading cfg es) e
      intro q hq
      rw [(read_queue cfg (reading cfg es) e).1] at hq
      cases List.mem_append.mp hq with
      | inl hold => exact (ih q hold).trans hpushes
      | inr hlast => exact (pushesBefore_queuedBy q hlast).trans_le hpushes

theorem slot_le (h : Relayed cfg es out r low) {a : Outgoing}
    (ha : a ∈ out ++ r.queue.map Sum.inl) : outgoingSlot a ≤ 2 * r.pushes := by
  have hevent : ∀ q, q ∈ out.filterMap Sum.getLeft? ++ r.queue → q.pushesBefore ≤ r.pushes := by
    intro q hq
    rw [h.queued] at hq
    rw [h.same.pushes]
    exact pushesBefore_le cfg es q hq
  cases a with
  | inl q =>
      have hq : q.pushesBefore ≤ r.pushes := by
        apply hevent
        cases List.mem_append.mp ha with
        | inl hout => exact List.mem_append_left _ (List.mem_filterMap.mpr ⟨_, hout, rfl⟩)
        | inr hwaits =>
            obtain ⟨p, hp, heq⟩ := List.mem_map.mp hwaits
            cases heq
            exact List.mem_append_right _ hp
      show 2 * q.pushesBefore ≤ 2 * r.pushes
      omega
  | inr t =>
      have ht : t.index < r.pushes := by
        cases List.mem_append.mp ha with
        | inl hout => exact h.texts t hout
        | inr hwaits =>
            obtain ⟨p, -, heq⟩ := List.mem_map.mp hwaits
            cases heq
      show 2 * t.index + 1 ≤ 2 * r.pushes
      omega

/-- Reading an event puts it at the end of the queue, if it waits. -/
theorem read (h : Relayed cfg es out r low) (e : SseEvent) :
    Relayed cfg (es ++ [e]) out (r.read cfg e).1 low := by
  obtain ⟨hqueue, hclient⟩ := read_queue cfg r e
  have hpushes := pushes_le_read cfg r e
  have hslot : ∀ q ∈ queuedBy cfg r.pushes e, outgoingSlot (.inl q) = 2 * r.pushes := by
    intro q hq
    rw [← pushesBefore_queuedBy q hq]
    rfl
  constructor
  · rw [reading_append]
    exact same_read h.same
  · rw [reading_append, (read_queue cfg (reading cfg es) e).1, hqueue, ← h.same.pushes,
      ← List.append_assoc, h.queued]
  · have hsplit : out ++ (r.queue ++ queuedBy cfg r.pushes e).map Sum.inl =
        (out ++ r.queue.map Sum.inl) ++ (queuedBy cfg r.pushes e).map Sum.inl := by
      rw [List.map_append, List.append_assoc]
    rw [hqueue, hsplit, List.map_append, List.pairwise_append]
    refine ⟨h.ordered, ?_, ?_⟩
    · apply List.pairwise_of_forall_mem_list
      intro x hx y hy
      rw [List.map_map] at hx hy
      obtain ⟨p, hp, rfl⟩ := List.mem_map.mp hx
      obtain ⟨q, hq, rfl⟩ := List.mem_map.mp hy
      exact (hslot p hp).trans_le (hslot q hq).ge
    · intro x hx y hy
      rw [List.map_map] at hy
      obtain ⟨a, ha, rfl⟩ := List.mem_map.mp hx
      obtain ⟨q, hq, rfl⟩ := List.mem_map.mp hy
      exact (h.slot_le ha).trans_eq (hslot q hq).symm
  · exact h.bounded
  · intro t ht
    exact (h.texts t ht).trans_le hpushes
  · rw [hclient]
    exact h.clientBlocks

theorem left_map_inl {β : Type} (qs : List QueuedEvent) :
    (qs.map (Sum.inl : QueuedEvent → QueuedEvent ⊕ β)).filterMap Sum.getLeft? = qs := by
  rw [List.filterMap_map]
  exact List.filterMap_some

/-- Letting go of the events before a push. -/
theorem release (h : Relayed cfg es out r low) {through : ℕ} (hle : low ≤ through) :
    ∃ ready : List QueuedEvent,
      (r.releaseReady through).1 = ready.map (fun q => .passthrough q.event) ∧
      Relayed cfg es (out ++ ready.map Sum.inl) (r.releaseReady through).2 through ∧
      ∀ q ∈ (r.releaseReady through).2.queue, through < q.pushesBefore := by
  have hsplit : r.queue.takeWhile (isReady through) ++ r.queue.dropWhile (isReady through) =
      r.queue := List.takeWhile_append_dropWhile
  rw [releaseReady_eq]
  refine ⟨r.queue.takeWhile (isReady through), rfl, ?_, ?_⟩
  · constructor
    · exact ⟨h.same.blockOfPush, h.same.deltaKindOfPush, h.same.pushes, h.same.openBlocks,
        h.same.sawMessageStop⟩
    · rw [List.filterMap_append, left_map_inl, List.append_assoc]
      exact (congrArg _ hsplit).trans h.queued
    · have hall := h.ordered
      rw [← hsplit, List.map_append (f := Sum.inl), ← List.append_assoc] at hall
      exact hall
    · intro a ha
      cases List.mem_append.mp ha with
      | inl hout =>
          have hbound := h.bounded a hout
          omega
      | inr hready =>
          obtain ⟨q, hq, rfl⟩ := List.mem_map.mp hready
          have hready := List.mem_takeWhile_imp hq
          have hthrough : (q.pushesBefore : ℤ) ≤ through := of_decide_eq_true hready
          show 2 * q.pushesBefore ≤ 2 * through + 1
          omega
    · intro t ht
      cases List.mem_append.mp ht with
      | inl hout => exact h.texts t hout
      | inr hready =>
          obtain ⟨q, -, heq⟩ := List.mem_map.mp hready
          cases heq
    · rw [List.filterMap_append, left_map_inl, List.filterMap_append, h.clientBlocks]
  · intro q hq
    have hordered := h.queue_ordered
    rw [← hsplit, List.pairwise_append] at hordered
    cases hdrop : r.queue.dropWhile (isReady through) with
    | nil =>
        have hq' : q ∈ r.queue.dropWhile (isReady through) := hq
        rw [hdrop] at hq'
        cases hq'
    | cons first rest =>
        have hfirst : isReady through first = false := by
          have hnot := List.head?_dropWhile_not (isReady through) r.queue
          rw [hdrop] at hnot
          exact hnot
        have hlt : through < first.pushesBefore := by
          have := of_decide_eq_false hfirst
          omega
        have hq' : q ∈ r.queue.dropWhile (isReady through) := hq
        rw [hdrop] at hq'
        have hlast := hordered.2.1
        rw [hdrop, List.pairwise_cons] at hlast
        cases hq' with
        | head => exact hlt
        | tail _ hq' => exact hlt.trans_le (hlast.1 q hq')

/-- Letting go of a piece of text. -/
theorem text (h : Relayed cfg es out r low) {t : BufferedToken CodePoint} (hlow : t.index = low)
    (hlt : t.index < r.pushes) (hqueue : ∀ q ∈ r.queue, low < q.pushesBefore) :
    Relayed cfg es (out ++ [.inr t]) r low := by
  have hleft : (out ++ [Sum.inr t]).filterMap Sum.getLeft? = out.filterMap Sum.getLeft? := by
    rw [List.filterMap_append]
    exact List.append_nil _
  have hslot : outgoingSlot (Sum.inr t) = 2 * low + 1 := by
    rw [← hlow]
    rfl
  have hall := h.ordered
  rw [List.map_append, List.pairwise_append] at hall
  constructor
  · exact h.same
  · rw [hleft]
    exact h.queued
  · rw [List.append_assoc, List.map_append, List.pairwise_append]
    refine ⟨hall.1, ?_, ?_⟩
    · rw [List.singleton_append, List.map_cons, List.pairwise_cons]
      refine ⟨?_, hall.2.1⟩
      intro x hx
      rw [List.map_map] at hx
      obtain ⟨q, hq, rfl⟩ := List.mem_map.mp hx
      have hlater := hqueue q hq
      rw [hslot]
      show 2 * low + 1 ≤ 2 * q.pushesBefore
      omega
    · intro x hx y hy
      rw [List.singleton_append, List.map_cons] at hy
      cases hy with
      | head =>
          obtain ⟨a, ha, rfl⟩ := List.mem_map.mp hx
          rw [hslot]
          exact h.bounded a ha
      | tail _ hy => exact hall.2.2 x hx y hy
  · intro a ha
    cases List.mem_append.mp ha with
    | inl hout => exact h.bounded a hout
    | inr hlast =>
        rw [List.mem_singleton.mp hlast]
        exact hslot.le
  · intro u hu
    cases List.mem_append.mp hu with
    | inl hout => exact h.texts u hout
    | inr hlast =>
        cases List.mem_singleton.mp hlast
        exact hlt
  · rw [hleft]
    exact h.clientBlocks

/-- Letting go of a piece of text, after everything that was read before it. -/
theorem deliver (h : Relayed cfg es out r low) {t : BufferedToken CodePoint}
    (hlow : low ≤ t.index) (hlt : t.index < r.pushes) :
    ∃ sent : List Outgoing, (r.deliver t).1 = sent.map (client (reading cfg es)) ∧
      sent.filterMap Sum.getRight? = [t] ∧
      Relayed cfg es (out ++ sent) (r.deliver t).2 t.index := by
  obtain ⟨ready, hready, hrelayed, hqueue⟩ := h.release hlow
  refine ⟨ready.map Sum.inl ++ [.inr t], ?_, ?_, ?_⟩
  · unfold AnthropicRelay.deliver
    simp only [hready, List.map_append, List.map_map, List.map_singleton, client,
      h.same.blockOfPush, h.same.deltaKindOfPush]
    rfl
  · rw [List.filterMap_append, List.filterMap_map]
    have hnone : ready.filterMap (Sum.getRight? ∘ Sum.inl) = ([] : List (BufferedToken CodePoint)) :=
      List.filterMap_eq_nil_iff.mpr fun _ _ => rfl
    rw [hnone]
    rfl
  · rw [← List.append_assoc]
    apply hrelayed.text rfl _ hqueue
    rw [releaseReady_eq]
    exact hlt

theorem deliver_pushes (t : BufferedToken CodePoint) : (r.deliver t).2.pushes = r.pushes := by
  unfold AnthropicRelay.deliver
  rw [releaseReady_eq]

/-- Letting go of several pieces of text, in the order of their pushes. -/
theorem deliverAll (h : Relayed cfg es out r low) {tokens : List (BufferedToken CodePoint)}
    {high : ℕ} (hhigh : low ≤ high)
    (hsorted : (tokens.map BufferedToken.index).Pairwise (· ≤ ·))
    (hwithin : ∀ t ∈ tokens, low ≤ t.index ∧ t.index ≤ high ∧ t.index < r.pushes) :
    ∃ sent : List Outgoing, (r.deliverAll tokens).1 = sent.map (client (reading cfg es)) ∧
      sent.filterMap Sum.getRight? = tokens ∧
      Relayed cfg es (out ++ sent) (r.deliverAll tokens).2 high := by
  induction tokens generalizing out r low with
  | nil =>
      refine ⟨[], rfl, rfl, ?_⟩
      rw [List.append_nil]
      exact h.mono hhigh
  | cons t tokens ih =>
      obtain ⟨hlow, hle, hlt⟩ := hwithin t List.mem_cons_self
      rw [List.map_cons, List.pairwise_cons] at hsorted
      obtain ⟨first, hfirst, hright, hdelivered⟩ := h.deliver hlow hlt
      have hrest : ∀ u ∈ tokens, t.index ≤ u.index ∧ u.index ≤ high ∧
          u.index < (r.deliver t).2.pushes := by
        intro u hu
        obtain ⟨-, hule, hult⟩ := hwithin u (List.mem_cons_of_mem t hu)
        rw [deliver_pushes]
        exact ⟨hsorted.1 _ (List.mem_map_of_mem hu), hule, hult⟩
      obtain ⟨rest, hsent, hrights, hrelayed⟩ := ih hdelivered hle hsorted.2 hrest
      refine ⟨first ++ rest, ?_, ?_, ?_⟩
      · unfold AnthropicRelay.deliverAll
        rw [List.map_append]
        exact congrArg₂ (· ++ ·) hfirst hsent
      · rw [List.filterMap_append, hright, hrights]
        rfl
      · rw [← List.append_assoc]
        exact hrelayed

theorem right_map_inl (qs : List QueuedEvent) :
    (qs.map (Sum.inl : QueuedEvent → Outgoing)).filterMap Sum.getRight? = [] := by
  rw [List.filterMap_map]
  exact List.filterMap_eq_nil_iff.mpr fun _ _ => rfl

/-- Letting go of the events before the first push that is held. -/
theorem sync (h : Relayed cfg es out r low) {b : PiiStreamBuffer CodePoint} (hb : b.Ordered)
    (hlow : b.low = low) :
    ∃ sent : List Outgoing,
      (r.releaseReady (b.releasedThrough + 1)).1 = sent.map (client (reading cfg es)) ∧
      sent.filterMap Sum.getRight? = [] ∧
      Relayed cfg es (out ++ sent) (r.releaseReady (b.releasedThrough + 1)).2 low := by
  rw [PiiStreamBuffer.releasedThrough_eq hb, hlow]
  obtain ⟨ready, hready, hrelayed, -⟩ := h.release (Nat.le_refl low)
  refine ⟨ready.map Sum.inl, ?_, right_map_inl ready, hrelayed⟩
  rw [hready, List.map_map]
  rfl

/-- What the auditor does with what the buffer lets go of. -/
theorem audited (h : Relayed cfg es out r low) {b b' : PiiStreamBuffer CodePoint}
    {outputs : List (BufferedToken CodePoint)} (hlow : b.low = low)
    (hdrained : PiiStreamBuffer.Drained b outputs b') (hnext : b'.nextIndex = r.pushes) :
    ∃ sent : List Outgoing, (r.deliverAll outputs).1 = sent.map (client (reading cfg es)) ∧
      sent.filterMap Sum.getRight? = outputs ∧
      Relayed cfg es (out ++ sent) (r.deliverAll outputs).2 b'.low := by
  apply h.deliverAll (hlow ▸ hdrained.low_le) hdrained.sorted
  intro t ht
  obtain ⟨hge, hle, hlt⟩ := hdrained.within t ht
  exact ⟨hlow ▸ hge, hle, hnext ▸ hlt⟩

end Relayed

/-! ## Runs -/

/-- The fragments some events give the auditor. -/
def fragments (es : List SseEvent) : List Text :=
  es.filterMap fun e => e.fragment.map Prod.snd

/-- The events that are read until the auditor ends the answer, and why it does. A
citation it fails at is not among them. -/
def readUntil (cfg : GatewayConfig) (b : PiiStreamBuffer CodePoint) (seen : List Text) :
    List SseEvent → List SseEvent × Option StopReason
  | [] =>
      ([], if fingerprinted (b.finish cfg.buffer).1.found then none else some .upstreamStreamError)
  | e :: es =>
      match e.fragment with
      | none =>
          if fingerprinted (AnthropicRelay.citationMatches cfg e) then
            let rest := readUntil cfg b seen es
            (e :: rest.1, rest.2)
          else ([], some .upstreamStreamError)
      | some (_, token) =>
          let drained := b.push cfg.buffer token
          if fingerprinted drained.1.found = false then ([e], some .upstreamStreamError)
          else if cfg.diverges (seen ++ [token]) then ([e], some .reasoningDivergence)
          else
            let rest := readUntil cfg drained.2 (seen ++ [token]) es
            (e :: rest.1, rest.2)

/-- Why an answer is terminated, on what was read of it. -/
def stopReason (ended : Option StopReason) (ending : Ending) (sawMessageStop : Bool) :
    Option StopReason :=
  match ended with
  | some reason => some reason
  | none => if ending = .failure ∨ sawMessageStop = false then some .upstreamStreamError else none

theorem reading_length (cfg : GatewayConfig) (es : List SseEvent) :
    (reading cfg es).blockOfPush.length = (reading cfg es).pushes ∧
      (reading cfg es).deltaKindOfPush.length = (reading cfg es).pushes ∧
      (reading cfg es).pushes = (fragments es).length := by
  induction es using List.reverseRec with
  | nil => exact ⟨rfl, rfl, rfl⟩
  | append_singleton es e ih =>
      obtain ⟨hblocks, hkinds, hpushes⟩ := ih
      rw [Relayed.reading_append, fragments, List.filterMap_append, List.length_append]
      cases hfragment : e.fragment with
      | none =>
          obtain ⟨-, -, hblock, hkind, hpush⟩ :=
            AnthropicRelay.note_queue (r := reading cfg es) (e := e)
          rw [(AnthropicRelay.read_none cfg (reading cfg es) hfragment).2]
          simp only [List.filterMap_cons, hfragment, Option.map_none, List.filterMap_nil,
            List.length_nil]
          split_ifs
          · exact ⟨hblocks, hkinds, hpushes⟩
          · exact ⟨hblock ▸ hpush ▸ hblocks, hkind ▸ hpush ▸ hkinds, hpush.trans hpushes⟩
      | some found =>
          rw [AnthropicRelay.read_some cfg (reading cfg es) hfragment]
          simp only [List.filterMap_cons, hfragment, Option.map_some, List.filterMap_nil,
            List.length_append, List.length_cons, List.length_nil, hblocks, hkinds]
          exact ⟨trivial, trivial, congrArg (· + 1) hpushes⟩

/-- Later reading does not change what a piece of text is for the client. -/
theorem client_read {cfg : GatewayConfig} {es : List SseEvent} (e : SseEvent) (a : Outgoing)
    (ha : ∀ t, a = .inr t → t.index < (reading cfg es).pushes) :
    client (reading cfg (es ++ [e])) a = client (reading cfg es) a := by
  cases a with
  | inl q => rfl
  | inr t =>
      have hlt := ha t rfl
      obtain ⟨hblocks, hkinds, -⟩ := reading_length cfg es
      rw [Relayed.reading_append]
      cases hfragment : e.fragment with
      | none =>
          obtain ⟨-, -, hblock, hkind, -⟩ :=
            AnthropicRelay.note_queue (r := reading cfg es) (e := e)
          rw [(AnthropicRelay.read_none cfg (reading cfg es) hfragment).2]
          split_ifs
          · rfl
          · simp only [client, hblock, hkind]
      | some found =>
          rw [AnthropicRelay.read_some cfg (reading cfg es) hfragment]
          simp only [client]
          rw [List.getD_append _ _ _ _ (by omega), List.getD_append _ _ _ _ (by omega)]

/-- A run that has read some events. -/
structure Running (cfg : GatewayConfig) (es : List SseEvent) (sent : List ClientEvent)
    (s : RelayState) (out : List Outgoing) : Prop where
  relayed : Relayed cfg es out s.relay s.buffer.low
  sent : sent = out.map (client (reading cfg es))
  ordered : s.buffer.Ordered
  next : s.buffer.nextIndex = s.relay.pushes
  observed : s.observed = fragments es
  released : PiiStreamBuffer.init.pushAll cfg.buffer (fragments es) =
    (out.filterMap Sum.getRight?, s.buffer)

/-- A run that is over: everything that was read has been let go. -/
structure Finished (cfg : GatewayConfig) (es : List SseEvent) (sent : List ClientEvent)
    (r : AnthropicRelay) (out : List Outgoing) : Prop where
  relayed : Relayed cfg es out r r.pushes
  sent : sent = out.map (client (reading cfg es))
  queue : r.queue = []

/-- Everything that still waits is handed over. -/
theorem Relayed.finish {cfg : GatewayConfig} {es : List SseEvent} {out : List Outgoing}
    {r : AnthropicRelay} {sent : List ClientEvent} (h : Relayed cfg es out r r.pushes)
    (hsent : sent = out.map (client (reading cfg es))) :
    ∃ new : List Outgoing, new.filterMap Sum.getRight? = [] ∧
      Finished cfg es (sent ++ (r.releaseReady r.pushes).1) (r.releaseReady r.pushes).2
        (out ++ new) := by
  obtain ⟨ready, hready, hrelayed, hqueue⟩ := h.release (Nat.le_refl _)
  refine ⟨ready.map Sum.inl, Relayed.right_map_inl ready, ?_⟩
  constructor
  · exact hrelayed.mono (hrelayed.same.pushes.trans h.same.pushes.symm).ge
  · rw [List.map_append, ← hsent, List.map_map]
    exact congrArg _ hready
  · -- What would still wait has no push to wait for.
    apply List.eq_nil_iff_forall_not_mem.mpr
    intro q hq
    have hlate := hqueue q hq
    have hmem : q ∈ (reading cfg es).queue := by
      rw [← hrelayed.queued]
      exact List.mem_append_right _ hq
    have hle := Relayed.pushesBefore_le cfg es q hmem
    rw [h.same.pushes] at hlate
    omega

namespace Running
open AnthropicRelay
variable {cfg : GatewayConfig} {es : List SseEvent} {sent : List ClientEvent} {s : RelayState}
  {out : List Outgoing}

theorem init (cfg : GatewayConfig) : Running cfg [] [] .init [] where
  relayed := .init cfg
  sent := rfl
  ordered := PiiStreamBuffer.ordered_init
  next := rfl
  observed := rfl
  released := rfl

theorem sent_read (h : Running cfg es sent s out) (e : SseEvent) :
    sent = out.map (client (reading cfg (es ++ [e]))) := by
  rw [h.sent]
  apply List.map_congr_left
  intro a ha
  symm
  apply client_read e a
  rintro t rfl
  rw [← h.relayed.same.pushes]
  exact h.relayed.texts t ha

theorem fragments_append (es : List SseEvent) (e : SseEvent) :
    fragments (es ++ [e]) = fragments es ++ (e.fragment.map Prod.snd).toList := by
  unfold fragments
  rw [List.filterMap_append]
  cases hfragment : e.fragment <;> simp [hfragment]

/-- One event that gives the auditor nothing. -/
theorem step_none (h : Running cfg es sent s out) {e : SseEvent} (he : e.fragment = none) :
    Running cfg (es ++ [e]) (sent ++ (s.step cfg e).1) (s.step cfg e).2 out := by
  obtain ⟨hnone, hrelay⟩ := read_none cfg s.relay he
  have hstep : s.step cfg e = ([], { s with relay := (s.relay.read cfg e).1 }) := by
    unfold RelayState.step
    simp only [hnone]
  have hpushes : (s.relay.read cfg e).1.pushes = s.relay.pushes := by
    rw [hrelay]
    split_ifs
    · rfl
    · exact note_queue.2.2.2.2
  have hfragments : fragments (es ++ [e]) = fragments es := by
    rw [fragments_append, he]
    exact List.append_nil _
  rw [hstep, List.append_nil]
  constructor
  · exact h.relayed.read e
  · exact h.sent_read e
  · exact h.ordered
  · exact h.next.trans hpushes.symm
  · rw [hfragments]
    exact h.observed
  · rw [hfragments]
    exact h.released

/-- A fragment that is audited. -/
theorem audit {s : RelayState} (h : Relayed cfg es out s.relay s.buffer.low)
    (hb : s.buffer.Ordered) (hnext : s.buffer.nextIndex + 1 = s.relay.pushes) (token : Text) :
    ∃ new : List Outgoing, (s.audit cfg token).1 = new.map (client (reading cfg es)) ∧
      new.filterMap Sum.getRight? = (s.buffer.push cfg.buffer token).1.outputs ∧
      Relayed cfg es (out ++ new) (s.audit cfg token).2.relay (s.buffer.push cfg.buffer token).2.low := by
  obtain ⟨hdrained, hindex⟩ := PiiStreamBuffer.drained_push cfg.buffer hb token
  obtain ⟨delivered, hsent, hright, hrelayed⟩ := h.audited rfl hdrained (hindex.trans hnext)
  unfold RelayState.audit
  dsimp only
  split_ifs with hempty
  · obtain ⟨synced, hsynced, hnone, hreleased⟩ := hrelayed.sync hdrained.ordered rfl
    refine ⟨delivered ++ synced, ?_, ?_, ?_⟩
    · rw [hsent, hsynced, List.map_append]
    · rw [List.filterMap_append, hright, hnone, List.append_nil]
    · rw [← List.append_assoc]
      exact hreleased
  · refine ⟨delivered, ?_, hright, hrelayed⟩
    rw [List.append_nil]
    exact hsent

/-- One event whose text is audited. -/
theorem step_some (h : Running cfg es sent s out) {e : SseEvent} {kind : DeltaKind} {token : Text}
    (he : e.fragment = some (kind, token)) :
    ∃ new : List Outgoing, Running cfg (es ++ [e]) (sent ++ (s.step cfg e).1) (s.step cfg e).2
      (out ++ new) := by
  have hread := read_some cfg s.relay he
  have hstep : s.step cfg e = RelayState.audit cfg { s with relay := (s.relay.read cfg e).1 } token := by
    unfold RelayState.step
    simp only [hread]
  have hpushes : (s.relay.read cfg e).1.pushes = s.relay.pushes + 1 := by rw [hread]
  have hfragments : fragments (es ++ [e]) = fragments es ++ [token] := by
    rw [fragments_append, he]
    rfl
  obtain ⟨hdrained, hindex⟩ := PiiStreamBuffer.drained_push cfg.buffer h.ordered token
  have hread' : Relayed cfg (es ++ [e]) out (s.relay.read cfg e).1 s.buffer.low := h.relayed.read e
  obtain ⟨new, hsent, hright, hrelayed⟩ :=
    audit (s := { s with relay := (s.relay.read cfg e).1 }) hread' h.ordered
      ((congrArg (· + 1) h.next).trans hpushes.symm) token
  refine ⟨new, ?_⟩
  rw [hstep]
  constructor
  · exact hrelayed
  · rw [List.map_append, ← h.sent_read e, hsent]
  · exact hdrained.ordered
  · have hsame := hrelayed.same.pushes.trans hread'.same.pushes.symm
    exact (hindex.trans (congrArg (· + 1) h.next)).trans (hpushes.symm.trans hsame.symm)
  · rw [hfragments, ← h.observed]
    rfl
  · rw [hfragments, PiiStreamBuffer.pushAll_append, h.released, List.filterMap_append, hright]
    rfl

theorem step (h : Running cfg es sent s out) (e : SseEvent) :
    ∃ new : List Outgoing, Running cfg (es ++ [e]) (sent ++ (s.step cfg e).1) (s.step cfg e).2
      (out ++ new) := by
  cases hfragment : e.fragment with
  | none =>
      refine ⟨[], ?_⟩
      rw [List.append_nil]
      exact h.step_none hfragment
  | some found => exact h.step_some hfragment

theorem low_le (h : Running cfg es sent s out) : s.buffer.low ≤ s.relay.pushes := by
  rw [← h.next]
  exact PiiStreamBuffer.low_le_nextIndex h.ordered

/-- The end of the upstream stream. -/
theorem flush (h : Running cfg es sent s out) :
    ∃ new : List Outgoing, Relayed cfg es (out ++ new) (s.flush cfg).2.relay
        (s.flush cfg).2.relay.pushes ∧
      sent ++ (s.flush cfg).1 = (out ++ new).map (client (reading cfg es)) ∧
      (out ++ new).filterMap Sum.getRight? = PiiStreamBuffer.released cfg.buffer (fragments es) := by
  obtain ⟨hdrained, hindex⟩ := PiiStreamBuffer.drained_finish cfg.buffer h.ordered
  obtain ⟨delivered, hsent, hright, hrelayed⟩ :=
    h.relayed.audited rfl hdrained (hindex.trans h.next)
  obtain ⟨synced, hsynced, hnone, hreleased⟩ := hrelayed.sync hdrained.ordered rfl
  -- The second drain finds the buffer empty.
  have hempty : ((s.buffer.finish cfg.buffer).2.finish cfg.buffer).1.outputs = [] :=
    PiiStreamBuffer.finish_of_empty PiiStreamBuffer.finish_pending
  have hflush : s.flush cfg =
      (((s.relay.deliverAll (s.buffer.finish cfg.buffer).1.outputs).1 ++
          ((s.relay.deliverAll (s.buffer.finish cfg.buffer).1.outputs).2.releaseReady
            ((s.buffer.finish cfg.buffer).2.releasedThrough + 1)).1),
        ⟨((s.relay.deliverAll (s.buffer.finish cfg.buffer).1.outputs).2.releaseReady
            ((s.buffer.finish cfg.buffer).2.releasedThrough + 1)).2,
          ((s.buffer.finish cfg.buffer).2.finish cfg.buffer).2, s.observed⟩) := by
    unfold RelayState.flush
    simp only [hempty, AnthropicRelay.deliverAll, List.append_nil]
  have hpushes : (s.flush cfg).2.relay.pushes = s.relay.pushes := by
    rw [hflush]
    exact hreleased.same.pushes.trans h.relayed.same.pushes.symm
  refine ⟨delivered ++ synced, ?_, ?_, ?_⟩
  · rw [hpushes, ← List.append_assoc, hflush]
    apply hreleased.mono
    rw [← h.next, ← hindex]
    exact PiiStreamBuffer.low_le_nextIndex hdrained.ordered
  · rw [hflush, List.map_append, List.map_append, h.sent, hsent, hsynced]
  · rw [List.filterMap_append, List.filterMap_append, hright, hnone, List.append_nil]
    unfold PiiStreamBuffer.released
    rw [h.released]

theorem readUntil_of_diverges {e : SseEvent} (hpasses : ¬ s.failsAt cfg e = true)
    (h : s.divergesAt cfg e = true) (rest : List SseEvent) :
    readUntil cfg s.buffer s.observed (e :: rest) = ([e], some .reasoningDivergence) := by
  unfold RelayState.divergesAt at h
  unfold RelayState.failsAt at hpasses
  unfold readUntil
  cases hfragment : e.fragment with
  | none =>
      rw [hfragment] at h
      cases h
  | some found =>
      rw [hfragment] at h hpasses
      dsimp only at h hpasses ⊢
      rw [if_neg (by simpa using hpasses), if_pos h]

/-- The auditor goes on with what the event gives it. -/
theorem readUntil_of_not_diverges {e : SseEvent} (hpasses : ¬ s.failsAt cfg e = true)
    (h : ¬ s.divergesAt cfg e = true) (rest : List SseEvent) :
    readUntil cfg s.buffer s.observed (e :: rest) =
      (e :: (readUntil cfg (s.step cfg e).2.buffer (s.step cfg e).2.observed rest).1,
        (readUntil cfg (s.step cfg e).2.buffer (s.step cfg e).2.observed rest).2) := by
  unfold RelayState.divergesAt at h
  unfold RelayState.failsAt at hpasses
  conv_lhs => unfold readUntil
  unfold RelayState.step
  cases hfragment : e.fragment with
  | none =>
      rw [hfragment] at hpasses
      dsimp only at hpasses ⊢
      rw [(AnthropicRelay.read_none cfg s.relay hfragment).1]
      exact if_pos (by simpa using hpasses)
  | some found =>
      rw [hfragment] at h hpasses
      dsimp only at h hpasses ⊢
      rw [AnthropicRelay.read_some cfg s.relay hfragment, if_neg (by simpa using hpasses), if_neg h]
      rfl

/-- An event at which the auditor fails: a fragment has been read, a citation has not. -/
theorem failed (h : Running cfg es sent s out) {e : SseEvent} (hfails : s.failsAt cfg e = true)
    (rest : List SseEvent) :
    ∃ read, readUntil cfg s.buffer s.observed (e :: rest) = (read, some .upstreamStreamError) ∧
      Relayed cfg (es ++ read) out (s.failed cfg e).relay (s.failed cfg e).relay.pushes ∧
      sent = out.map (client (reading cfg (es ++ read))) := by
  unfold RelayState.failsAt at hfails
  unfold readUntil RelayState.failed
  cases hfragment : e.fragment with
  | none =>
      rw [hfragment] at hfails
      dsimp only at hfails ⊢
      refine ⟨[], if_neg (by simpa using hfails), ?_⟩
      rw [List.append_nil]
      exact ⟨h.relayed.mono h.low_le, h.sent⟩
  | some found =>
      rw [hfragment] at hfails
      dsimp only at hfails ⊢
      refine ⟨[e], if_pos (by simpa using hfails), ?_, h.sent_read e⟩
      exact (h.relayed.read e).mono (h.low_le.trans (Relayed.pushes_le_read cfg s.relay e))

/-- What the client is sent, once the run is over. -/
theorem run (h : Running cfg es sent s out) (ending : Ending) (rest : List SseEvent) :
    ∃ new : List Outgoing,
      Finished cfg (es ++ (readUntil cfg s.buffer s.observed rest).1)
        (sent ++ (s.run cfg ending rest).1) (s.run cfg ending rest).2.1 (out ++ new) ∧
      (s.run cfg ending rest).2.2 =
        stopReason (readUntil cfg s.buffer s.observed rest).2 ending
          (reading cfg (es ++ (readUntil cfg s.buffer s.observed rest).1)).sawMessageStop ∧
      ((s.run cfg ending rest).2.2 = none → (out ++ new).filterMap Sum.getRight? =
        PiiStreamBuffer.released cfg.buffer
          (fragments (es ++ (readUntil cfg s.buffer s.observed rest).1))) := by
  induction rest generalizing es sent s out with
  | nil =>
      unfold readUntil RelayState.run
      rw [List.append_nil]
      by_cases hfails : ending = .failure ∨
          fingerprinted (s.buffer.finish cfg.buffer).1.found = false
      · rw [if_pos hfails]
        obtain ⟨new, -, hfinished⟩ := (h.relayed.mono h.low_le).finish h.sent
        refine ⟨new, hfinished, ?_, fun hnone => by cases hnone⟩
        rcases hfails with rfl | hfails
        · cases fingerprinted (s.buffer.finish cfg.buffer).1.found <;> rfl
        · rw [hfails]
          rfl
      · rw [if_neg hfails]
        obtain ⟨heof, hpasses⟩ := not_or.mp hfails
        rw [Bool.not_eq_false] at hpasses
        obtain ⟨flushed, hrelayed, hsent, hreleased⟩ := h.flush
        obtain ⟨new, hnone, hfinished⟩ := hrelayed.finish hsent
        refine ⟨flushed ++ new, ?_, ?_, ?_⟩
        · rw [← List.append_assoc]
          dsimp only
          rw [← List.append_assoc]
          exact hfinished
        · unfold stopReason
          dsimp only
          rw [hpasses, hrelayed.same.sawMessageStop]
          cases (reading cfg es).sawMessageStop <;> simp [heof]
        · intro _
          rw [← List.append_assoc, List.filterMap_append, hreleased, hnone, List.append_nil]
  | cons e rest ih =>
      obtain ⟨new, hnext⟩ := h.step e
      have hmore : ∀ read : List SseEvent, es ++ [e] ++ read = es ++ (e :: read) := fun read => by
        rw [List.append_assoc, List.singleton_append]
      unfold RelayState.run
      dsimp only
      by_cases hfails : s.failsAt cfg e = true
      · obtain ⟨read, hread, hrelayed, hsent⟩ := h.failed hfails rest
        rw [hread, if_pos hfails]
        obtain ⟨late, -, hfinished⟩ := hrelayed.finish hsent
        exact ⟨late, hfinished, rfl, fun hnone => by cases hnone⟩
      rw [if_neg hfails]
      by_cases hdiverges : s.divergesAt cfg e = true
      · rw [readUntil_of_diverges hfails hdiverges, if_pos hdiverges]
        obtain ⟨late, -, hfinished⟩ := (hnext.relayed.mono hnext.low_le).finish hnext.sent
        refine ⟨new ++ late, ?_, rfl, ?_⟩
        · rw [← List.append_assoc]
          dsimp only
          rw [← List.append_assoc]
          exact hfinished
        · intro hnone
          cases hnone
      · rw [readUntil_of_not_diverges hfails hdiverges, if_neg hdiverges]
        obtain ⟨late, hfinished, hreason, hreleased⟩ := ih hnext
        dsimp only
        rw [← hmore, ← List.append_assoc]
        refine ⟨new ++ late, ?_, hreason, ?_⟩
        · rw [← List.append_assoc]
          exact hfinished
        · rw [← List.append_assoc]
          exact hreleased

end Running

end BlackMonolith.TraceAudit
