import BlackMonolith.Library.Expansion
import BlackMonolith.TraceAudit.Redaction

/-!
# The look-behind of a stream

`PiiStreamBuffer` holds the end of a stream back until the scanner can tell what
is in it. Every fragment keeps the index of the push it came from, through
redaction and splitting. The divergence score that travels with a fragment is
left out.
-/
namespace BlackMonolith.TraceAudit
open Library

def piiCharWindow : ℕ := 256

structure BufferedToken (α : Type) where
  token : List α
  index : ℕ
deriving Repr, DecidableEq

structure BufferDrain (α : Type) where
  outputs : List (BufferedToken α)
  found : List PiiMatch
deriving Repr, DecidableEq

structure BufferConfig where
  engine : Engine
  literals : List Text
  maxChars : ℕ
  atLeast : 64 ≤ maxChars

structure PiiStreamBuffer (α : Type) where
  suppressRun : Bool
  pending : List (BufferedToken α)
  nextIndex : ℕ
deriving Repr, DecidableEq

section
variable {α : Type} [Glyph α]

def joined (items : List (BufferedToken α)) : List α := items.flatMap BufferedToken.token

/-! ## Redaction -/

/-- Where the fragments of a text end. -/
def fragmentEnds (cursor : ℕ) : List (List α) → List ℕ
  | [] => []
  | fragment :: fragments =>
      (cursor + fragment.length) :: fragmentEnds (cursor + fragment.length) fragments

def fragmentStarts (cursor : ℕ) : List (List α) → List ℕ
  | [] => []
  | fragment :: fragments => cursor :: fragmentStarts (cursor + fragment.length) fragments

/-- One match applied to the fragments: the placeholder goes into the first that
it touches. `starts` and `ends` are those of the fragments before any match. -/
def applyMatch (starts ends : List ℕ) (m : PiiMatch) (fragments : List (List α)) :
    List (List α) :=
  let first := ends.findIdx (m.start < ·)
  let last := ends.findIdx (m.stop ≤ ·)
  let startOffset := m.start - starts.getD first 0
  let endOffset := m.stop - starts.getD last 0
  fragments.mapIdx fun k fragment =>
    if k = first then
      if first = last then
        fragment.take startOffset ++ placeholder m.label ++ fragment.drop endOffset
      else fragment.take startOffset ++ placeholder m.label
    else if first < k ∧ k < last then []
    else if k = last then fragment.drop endOffset
    else fragment

/-- The matches from the last start to the first; one that overlaps a match
already applied is skipped. -/
def applyMatches (starts ends : List ℕ) :
    ℕ → List PiiMatch → List (List α) → List PiiMatch → List (List α) × List PiiMatch
  | _, [], fragments, applied => (fragments, applied)
  | lastStart, m :: rest, fragments, applied =>
      if lastStart < m.stop then applyMatches starts ends lastStart rest fragments applied
      else applyMatches starts ends m.start rest (applyMatch starts ends m fragments) (m :: applied)

/-- `_redact_matches`. -/
def redactMatches (found : List PiiMatch) (items : List (BufferedToken α)) :
    List (BufferedToken α) × List PiiMatch :=
  let fragments := items.map BufferedToken.token
  let total := (joined items).length
  let redacted := applyMatches (fragmentStarts 0 fragments) (fragmentEnds 0 fragments) (total + 1)
    (byStartReversed found) fragments []
  ((List.zipWith (fun fragment item => ⟨fragment, item.index⟩) redacted.1 items).filter
    (!·.token.isEmpty), redacted.2)

/-! ## Splitting -/

/-- The fragments up to a place of the text, which begins at `position`. -/
def itemsBefore (stop position : ℕ) : List (BufferedToken α) → List (BufferedToken α)
  | [] => []
  | item :: items =>
      let take := min item.token.length (stop - position)
      let rest := itemsBefore stop (position + item.token.length) items
      if take = 0 then rest else ⟨item.token.take take, item.index⟩ :: rest

def itemsAfter (stop position : ℕ) : List (BufferedToken α) → List (BufferedToken α)
  | [] => []
  | item :: items =>
      let take := min item.token.length (stop - position)
      let rest := itemsAfter stop (position + item.token.length) items
      if take < item.token.length then ⟨item.token.drop take, item.index⟩ :: rest else rest

/-- `_release_prefix`: what is released and what stays. -/
def releasePrefix : ℕ → List (BufferedToken α) → List (BufferedToken α) × List (BufferedToken α)
  | _, [] => ([], [])
  | count, item :: items =>
      if count = 0 then ([], item :: items)
      else
        let take := min count item.token.length
        if take = item.token.length then
          let rest := releasePrefix (count - take) items
          (⟨item.token.take take, item.index⟩ :: rest.1, rest.2)
        else ([⟨item.token.take take, item.index⟩], ⟨item.token.drop take, item.index⟩ :: items)

def space : CodePoint := ⟨0x20, by decide⟩

/-- `text.find(" ", cutoff)`. -/
def findSpace (t : Text) (cutoff : ℕ) : Option ℕ :=
  ((t.drop cutoff).findIdx? (· = space)).map (cutoff + ·)

end

namespace PiiStreamBuffer

section
variable {α : Type} [Glyph α]

def init : PiiStreamBuffer α := ⟨false, [], 0⟩

/-- The labels of matches that are complete when they end the buffer. -/
def complete : List String := ["aws_access_key_id", "us_ssn"]

def overlongLabel : String := "overlong_sensitive_candidate"

/-- An overlong candidate is withheld; its placeholder stands where it began. -/
def withhold (b : PiiStreamBuffer α) : BufferDrain α × PiiStreamBuffer α :=
  let t := points (joined b.pending)
  (⟨[⟨placeholder overlongLabel, (b.pending.head?.map BufferedToken.index).getD 0⟩],
      [⟨overlongLabel, 0, t.length, t⟩]⟩,
    { b with pending := [], suppressRun := true })

/-- `_drain`. -/
def drain (cfg : BufferConfig) (b : PiiStreamBuffer α) (force : Bool) :
    BufferDrain α × PiiStreamBuffer α :=
  let t := points (joined b.pending)
  let found := scan cfg.engine t cfg.literals
  if !force && found.any (fun m => m.stop = t.length && !complete.contains m.label) then
    -- The match may continue in the next fragment.
    if t.length ≤ cfg.maxChars then (⟨[], []⟩, b) else b.withhold
  else if !found.isEmpty then
    let stop := (found.map PiiMatch.stop).foldl max 0
    let (outputs, applied) := redactMatches found (itemsBefore stop 0 b.pending)
    let rest := itemsAfter stop 0 b.pending
    if force then (⟨outputs ++ rest, applied⟩, { b with pending := [] })
    else (⟨outputs, applied⟩, { b with pending := rest })
  else if force then (⟨b.pending, []⟩, { b with pending := [] })
  else if cfg.maxChars < t.length then
    match findSpace t (t.length - cfg.maxChars) with
    | some boundary =>
        if boundary < t.length - 128 then
          let (outputs, rest) := releasePrefix (boundary + 1) b.pending
          (⟨outputs, []⟩, { b with pending := rest })
        else b.withhold
    | none => b.withhold
  else (⟨[], []⟩, b)

/-- Every push consumes one index, even one that is swallowed. -/
def push (cfg : BufferConfig) (b : PiiStreamBuffer α) (token : List α) :
    BufferDrain α × PiiStreamBuffer α :=
  let index := b.nextIndex
  let b := { b with nextIndex := index + 1 }
  if b.suppressRun then
    match (points token).findIdx? PyString.isSpace with
    | none => (⟨[], []⟩, b)
    | some boundary =>
        drain cfg { b with suppressRun := false
                           pending := b.pending ++ [⟨token.drop boundary, index⟩] } false
  else drain cfg { b with pending := b.pending ++ [⟨token, index⟩] } false

def finish (cfg : BufferConfig) (b : PiiStreamBuffer α) :
    BufferDrain α × PiiStreamBuffer α :=
  drain cfg b true

/-- A run: what several pushes let go. -/
def pushAll (cfg : BufferConfig) (b : PiiStreamBuffer α) :
    List (List α) → List (BufferedToken α) × PiiStreamBuffer α
  | [] => ([], b)
  | token :: tokens =>
      let rest := pushAll cfg (b.push cfg token).2 tokens
      ((b.push cfg token).1.outputs ++ rest.1, rest.2)

/-- What a stream that is pushed fragment by fragment lets go, with its end. -/
def released (cfg : BufferConfig) (tokens : List (List α)) : List (BufferedToken α) :=
  let pushed := init.pushAll cfg tokens
  pushed.1 ++ (pushed.2.finish cfg).1.outputs

/-- The highest push whose text has left the buffer. -/
def releasedThrough (b : PiiStreamBuffer α) : ℤ :=
  match b.pending with
  | [] => (b.nextIndex : ℤ) - 1
  | item :: items => (((items.map BufferedToken.index).foldl min item.index : ℕ) : ℤ) - 1

end

end PiiStreamBuffer

/-! ## The push a text comes from -/

section
variable {α : Type}

/-- The outputs come from the items, in their order. -/
abbrev From (items outputs : List (BufferedToken α)) : Prop :=
  Expands (Copies BufferedToken.index) items outputs

theorem from_replace (fragments : List (List α)) (items : List (BufferedToken α)) :
    From items (List.zipWith (fun fragment item => ⟨fragment, item.index⟩) fragments items) := by
  induction items generalizing fragments with
  | nil =>
      rw [List.zipWith_nil_right]
      exact .nil
  | cons item items ih =>
      cases fragments with
      | nil => exact .of_nil _ _
      | cons fragment fragments => exact (ih fragments).keep rfl

theorem itemsBefore_nil {stop position : ℕ} (h : stop ≤ position) (items : List (BufferedToken α)) :
    itemsBefore stop position items = [] := by
  induction items generalizing position with
  | nil => rfl
  | cons item items ih =>
      unfold itemsBefore
      rw [ih (by omega), if_pos (by omega)]

theorem from_split (stop position : ℕ) (items : List (BufferedToken α)) :
    From items (itemsBefore stop position items ++ itemsAfter stop position items) := by
  induction items generalizing position with
  | nil => exact .nil
  | cons item items ih =>
      have hrest := ih (position + item.token.length)
      unfold itemsBefore itemsAfter
      dsimp only
      split_ifs with hnone hafter hafter
      · -- The place is before the item, which stays whole.
        have hnil : itemsBefore stop (position + item.token.length) items = [] :=
          itemsBefore_nil (by omega) items
        rw [hnil] at hrest ⊢
        exact hrest.keep rfl
      · exact hrest.drop item
      · have hnil : itemsBefore stop (position + item.token.length) items = [] :=
          itemsBefore_nil (by omega) items
        rw [hnil] at hrest ⊢
        rw [List.cons_append, List.nil_append]
        exact .again rfl (.keep rfl hrest)
      · exact hrest.keep rfl

theorem from_releasePrefix (count : ℕ) (items : List (BufferedToken α)) :
    From items ((releasePrefix count items).1 ++ (releasePrefix count items).2) := by
  induction items generalizing count with
  | nil => exact .nil
  | cons item items ih =>
      unfold releasePrefix
      dsimp only
      split_ifs
      · exact .refl _ _
      · exact (ih _).keep rfl
      · rw [List.cons_append, List.nil_append]
        exact .again rfl (.keep rfl (.refl _ items))

namespace PiiStreamBuffer
variable {b : PiiStreamBuffer α}

structure Ordered (b : PiiStreamBuffer α) : Prop where
  sorted : (b.pending.map BufferedToken.index).Pairwise (· ≤ ·)
  below : ∀ item ∈ b.pending, item.index < b.nextIndex

/-- The first push whose text has not left the buffer. -/
def low (b : PiiStreamBuffer α) : ℕ := (b.pending.head?.map BufferedToken.index).getD b.nextIndex

theorem ordered_init : (init : PiiStreamBuffer α).Ordered :=
  ⟨List.Pairwise.nil, List.forall_mem_nil _⟩

theorem low_le_nextIndex (h : b.Ordered) : b.low ≤ b.nextIndex := by
  unfold low
  cases hpending : b.pending with
  | nil => exact Nat.le_refl _
  | cons first items =>
      have hfirst := h.below first
      rw [hpending] at hfirst
      exact Nat.le_of_lt (hfirst List.mem_cons_self)

theorem low_le_pending (h : b.Ordered) : ∀ item ∈ b.pending, b.low ≤ item.index := by
  unfold low
  have hsorted := h.sorted
  cases hpending : b.pending with
  | nil => exact List.forall_mem_nil _
  | cons first items =>
      rw [hpending, List.map_cons, List.pairwise_cons] at hsorted
      intro item hitem
      cases hitem with
      | head => exact Nat.le_refl _
      | tail _ hitem => exact hsorted.1 _ (List.mem_map_of_mem hitem)

theorem foldl_min_eq {n : ℕ} {ns : List ℕ} (h : ∀ k ∈ ns, n ≤ k) : ns.foldl min n = n := by
  induction ns with
  | nil => rfl
  | cons k ns ih =>
      rw [List.foldl_cons, Nat.min_eq_left (h k List.mem_cons_self)]
      exact ih fun j hj => h j (List.mem_cons_of_mem k hj)

theorem releasedThrough_eq (h : b.Ordered) : b.releasedThrough + 1 = b.low := by
  unfold releasedThrough low
  have hsorted := h.sorted
  cases hpending : b.pending with
  | nil =>
      show (b.nextIndex : ℤ) - 1 + 1 = b.nextIndex
      omega
  | cons first items =>
      rw [hpending, List.map_cons, List.pairwise_cons] at hsorted
      show (((items.map BufferedToken.index).foldl min first.index : ℕ) : ℤ) - 1 + 1 = first.index
      rw [foldl_min_eq hsorted.1]
      omega

/-- What a step lets go comes from pushes between the first one that was held
before the step and the first one that is held after it. -/
structure Drained (b : PiiStreamBuffer α) (outputs : List (BufferedToken α))
    (b' : PiiStreamBuffer α) : Prop where
  ordered : b'.Ordered
  sorted : (outputs.map BufferedToken.index).Pairwise (· ≤ ·)
  within : ∀ o ∈ outputs, b.low ≤ o.index ∧ o.index ≤ b'.low ∧ o.index < b'.nextIndex
  low_le : b.low ≤ b'.low

theorem drained_of_from {items outputs : List (BufferedToken α)} {b' : PiiStreamBuffer α}
    (hfrom : From items (outputs ++ b'.pending))
    (hsorted : (items.map BufferedToken.index).Pairwise (· ≤ ·))
    (hitems : ∀ item ∈ items, b.low ≤ item.index ∧ item.index < b'.nextIndex)
    (hnext : b.low ≤ b'.nextIndex) : Drained b outputs b' := by
  have hall := hfrom.ordered hsorted
  rw [List.map_append, List.pairwise_append] at hall
  obtain ⟨houtputs, hpending, hacross⟩ := hall
  have hbounds : ∀ o ∈ outputs ++ b'.pending, b.low ≤ o.index ∧ o.index < b'.nextIndex := by
    intro o ho
    obtain ⟨item, hitem, hindex⟩ := hfrom.key_mem ho
    rw [hindex]
    exact hitems item hitem
  have hleft : ∀ o ∈ outputs, b.low ≤ o.index ∧ o.index < b'.nextIndex :=
    fun o ho => hbounds o (List.mem_append_left _ ho)
  have hright : ∀ o ∈ b'.pending, b.low ≤ o.index ∧ o.index < b'.nextIndex :=
    fun o ho => hbounds o (List.mem_append_right _ ho)
  refine ⟨⟨hpending, fun o ho => (hright o ho).2⟩, houtputs, ?_, ?_⟩
  · intro o ho
    refine ⟨(hleft o ho).1, ?_, (hleft o ho).2⟩
    unfold low
    cases hp : b'.pending with
    | nil => exact Nat.le_of_lt (hleft o ho).2
    | cons first rest =>
        apply hacross o.index (List.mem_map_of_mem ho) first.index
        rw [hp]
        exact List.mem_cons_self
  · unfold low at hright ⊢
    cases hp : b'.pending with
    | nil => exact hnext
    | cons first rest =>
        rw [hp] at hright
        exact (hright first List.mem_cons_self).1

variable [Glyph α] {cfg : BufferConfig}

theorem pending_ne_nil (h : cfg.maxChars < (points (joined b.pending)).length) :
    b.pending ≠ [] := by
  intro hnil
  rw [hnil] at h
  exact Nat.not_lt_zero _ h

theorem from_redactMatches (found : List PiiMatch) (items : List (BufferedToken α)) :
    From items (redactMatches found items).1 :=
  (from_replace _ items).trans (.filter _ _ _)

theorem from_withhold (h : cfg.maxChars < (points (joined b.pending)).length) :
    From b.pending (b.withhold.1.outputs ++ b.withhold.2.pending) := by
  have hne := pending_ne_nil h
  unfold withhold
  cases hpending : b.pending with
  | nil => exact absurd hpending hne
  | cons item items => exact .keep rfl (.of_nil _ items)

/-- What is let go and what stays comes from what was held, and no index is taken. -/
theorem from_drain (cfg : BufferConfig) (b : PiiStreamBuffer α) (force : Bool) :
    From b.pending ((b.drain cfg force).1.outputs ++ (b.drain cfg force).2.pending) ∧
      (b.drain cfg force).2.nextIndex = b.nextIndex := by
  unfold drain
  dsimp only
  split_ifs with hheld hfits hfound hforce hforce hlong
  · exact ⟨.refl _ _, rfl⟩
  · exact ⟨from_withhold (Nat.not_le.mp hfits), rfl⟩
  · rw [List.append_nil]
    exact ⟨(from_split _ 0 b.pending).trans ((from_redactMatches _ _).append (.refl _ _)), rfl⟩
  · exact ⟨(from_split _ 0 b.pending).trans ((from_redactMatches _ _).append (.refl _ _)), rfl⟩
  · rw [List.append_nil]
    exact ⟨.refl _ _, rfl⟩
  · split
    · split_ifs
      · exact ⟨from_releasePrefix _ _, rfl⟩
      · exact ⟨from_withhold hlong, rfl⟩
    · exact ⟨from_withhold hlong, rfl⟩
  · exact ⟨.refl _ _, rfl⟩

/-- The part of a push that enters the buffer, if the candidate that is being
withheld ends in it. -/
def accepted (b : PiiStreamBuffer α) (token : List α) : Option (List α) :=
  if b.suppressRun then ((points token).findIdx? PyString.isSpace).map token.drop else some token

def entered (b : PiiStreamBuffer α) (token : List α) : PiiStreamBuffer α :=
  ⟨false, b.pending ++ [⟨token, b.nextIndex⟩], b.nextIndex + 1⟩

theorem push_eq (token : List α) : b.push cfg token =
    match b.accepted token with
    | none => (⟨[], []⟩, { b with nextIndex := b.nextIndex + 1 })
    | some rest => drain cfg (b.entered rest) false := by
  unfold push accepted entered
  cases b with
  | mk suppressRun pending nextIndex =>
      cases suppressRun with
      | false => rfl
      | true =>
          show (match (points token).findIdx? PyString.isSpace with | none => _ | some boundary => _) = _
          cases (points token).findIdx? PyString.isSpace <;> rfl

theorem drained_push (cfg : BufferConfig) (h : b.Ordered) (token : List α) :
    Drained b (b.push cfg token).1.outputs (b.push cfg token).2 ∧
      (b.push cfg token).2.nextIndex = b.nextIndex + 1 := by
  have hlow := low_le_nextIndex h
  rw [push_eq]
  cases b.accepted token with
  | none =>
      constructor
      · apply drained_of_from (.refl _ b.pending) h.sorted
        · intro item hitem
          have hbelow := h.below item hitem
          exact ⟨low_le_pending h item hitem, Nat.lt_succ_of_lt hbelow⟩
        · exact Nat.le_succ_of_le hlow
      · rfl
  | some rest =>
      obtain ⟨hfrom, hnext⟩ := from_drain cfg (b.entered rest) false
      constructor
      · apply drained_of_from hfrom
        · show (List.map _ (b.pending ++ [_])).Pairwise _
          rw [List.map_append, List.pairwise_append]
          refine ⟨h.sorted, List.pairwise_singleton _ _, ?_⟩
          intro x hx y hy
          obtain ⟨item, hitem, rfl⟩ := List.mem_map.mp hx
          rw [List.mem_singleton.mp hy]
          exact Nat.le_of_lt (h.below item hitem)
        · rw [hnext]
          intro item hitem
          show b.low ≤ item.index ∧ item.index < b.nextIndex + 1
          cases List.mem_append.mp hitem with
          | inl hold =>
              have hbelow := h.below item hold
              exact ⟨low_le_pending h item hold, Nat.lt_succ_of_lt hbelow⟩
          | inr hnew =>
              rw [List.mem_singleton.mp hnew]
              exact ⟨hlow, Nat.lt_succ_self _⟩
        · rw [hnext]
          exact Nat.le_succ_of_le hlow
      · exact hnext

theorem pushAll_append (b : PiiStreamBuffer α) (tokens : List (List α)) (token : List α) :
    b.pushAll cfg (tokens ++ [token]) =
      ((b.pushAll cfg tokens).1 ++ ((b.pushAll cfg tokens).2.push cfg token).1.outputs,
        ((b.pushAll cfg tokens).2.push cfg token).2) := by
  induction tokens generalizing b with
  | nil =>
      show (_ ++ [], _) = ([] ++ _, _)
      rw [List.append_nil, List.nil_append]
      rfl
  | cons first tokens ih =>
      rw [List.cons_append]
      simp only [pushAll, ih, List.append_assoc]

theorem finish_pending : (b.finish cfg).2.pending = [] := by
  unfold finish drain
  dsimp only
  split_ifs <;> first | rfl | contradiction

/-- An empty buffer has nothing left to let go. -/
theorem finish_of_empty (h : b.pending = []) : (b.finish cfg).1.outputs = [] := by
  obtain ⟨hfrom, -⟩ := from_drain cfg b true
  rw [h] at hfrom
  cases houtputs : (b.drain cfg true).1.outputs with
  | nil => exact houtputs
  | cons o os =>
      obtain ⟨_, hmem, _⟩ := hfrom.key_mem (List.mem_append_left _ (houtputs ▸ List.mem_cons_self))
      cases hmem

theorem drained_finish (cfg : BufferConfig) (h : b.Ordered) :
    Drained b (b.finish cfg).1.outputs (b.finish cfg).2 ∧
      (b.finish cfg).2.nextIndex = b.nextIndex := by
  obtain ⟨hfrom, hnext⟩ := from_drain cfg b true
  unfold finish
  refine ⟨drained_of_from hfrom h.sorted ?_ ?_, hnext⟩
  · intro item hitem
    rw [hnext]
    exact ⟨low_le_pending h item hitem, h.below item hitem⟩
  · rw [hnext]
    exact low_le_nextIndex h

end PiiStreamBuffer

end

end BlackMonolith.TraceAudit
