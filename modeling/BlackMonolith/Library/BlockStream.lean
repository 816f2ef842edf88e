import Mathlib.Data.List.Basic

/-!
# Streams of blocks

A message that is sent as frames: its start, blocks that are opened, fed and
closed, a summary once all blocks are closed, and its end. A block is opened
once, and only deltas that fit its type go into it, while it is open. Other
frames may stand between the start and the end.
-/
namespace BlackMonolith.Library

inductive BlockFrame (ι κ δ : Type*)
  | messageStart
  | blockStart (index : ι) (type : κ)
  | blockDelta (index : ι) (type : δ)
  | blockStop (index : ι)
  | messageDelta
  | messageStop
  | other
  | malformed
deriving Repr, DecidableEq

/-- The index of a block that is opened. -/
def BlockFrame.started {ι κ δ : Type*} : BlockFrame ι κ δ → Option ι
  | .blockStart index _ => some index
  | _ => none

inductive BlockPhase
  | before
  | content
  | closing
  | stopped
deriving Repr, DecidableEq

/-- How far a message has come: the open blocks in the order of their starts, and
the indices that are taken. -/
structure BlockProgress (ι κ : Type*) where
  phase : BlockPhase
  opened : List (ι × κ)
  used : List ι
deriving Repr, DecidableEq

namespace BlockProgress
variable {ι κ δ : Type*} [DecidableEq ι]

def init : BlockProgress ι κ := ⟨.before, [], []⟩

def typeOf (p : BlockProgress ι κ) (index : ι) : Option κ :=
  (p.opened.find? (·.1 = index)).map Prod.snd

def step (fits : δ → κ → Bool) (p : BlockProgress ι κ) :
    BlockFrame ι κ δ → Option (BlockProgress ι κ)
  | .messageStart => if p.phase = .before then some { p with phase := .content } else none
  | .blockStart index type =>
      if p.phase = .content ∧ index ∉ p.used then
        some { p with opened := p.opened ++ [(index, type)], used := p.used ++ [index] }
      else none
  | .blockDelta index type =>
      if p.phase = .content ∧ (p.typeOf index).any (fits type) then some p else none
  | .blockStop index =>
      if p.phase = .content ∧ (p.typeOf index).isSome then
        some { p with opened := p.opened.eraseP (·.1 = index) }
      else none
  | .messageDelta =>
      if p.phase = .content ∧ p.opened.length = 0 then some { p with phase := .closing } else none
  | .messageStop => if p.phase = .closing then some { p with phase := .stopped } else none
  | .other => if p.phase = .content ∨ p.phase = .closing then some p else none
  | .malformed => none

/-- Where a message is after some frames, if they can begin one. -/
def after (fits : δ → κ → Bool) (frames : List (BlockFrame ι κ δ)) :
    Option (BlockProgress ι κ) :=
  frames.foldlM (step fits) init

variable {fits : δ → κ → Bool} {p q : BlockProgress ι κ}

theorem after_append (frames frames' : List (BlockFrame ι κ δ)) :
    after fits (frames ++ frames') = (after fits frames).bind fun p => frames'.foldlM (step fits) p :=
  List.foldlM_append

/-- Nothing may follow the end. -/
theorem step_of_stopped (h : p.phase = .stopped) (frame : BlockFrame ι κ δ) :
    p.step fits frame = none := by
  cases frame <;> simp [step, h]

theorem foldlM_of_stopped (h : p.phase = .stopped) {frames : List (BlockFrame ι κ δ)} :
    frames.foldlM (step fits) p = if frames = [] then some p else none := by
  cases frames with
  | nil => rfl
  | cons frame frames =>
      rw [List.foldlM_cons, step_of_stopped h]
      rfl

theorem step_stopped_iff (hp : p.phase ≠ .stopped) {frame : BlockFrame ι κ δ}
    (h : p.step fits frame = some q) : q.phase = .stopped ↔ frame = .messageStop := by
  cases frame with
  | malformed => cases h
  | other | blockDelta =>
      simp only [step] at h
      split_ifs at h
      cases h
      exact iff_of_false hp (by rintro ⟨⟩)
  | messageStop =>
      simp only [step] at h
      split_ifs at h
      cases h
      exact iff_of_true rfl rfl
  | messageStart | messageDelta =>
      simp only [step] at h
      split_ifs at h
      cases h
      constructor <;> rintro ⟨⟩
  | blockStart | blockStop =>
      simp only [step] at h
      split_ifs at h
      cases h
      exact iff_of_false hp (by rintro ⟨⟩)

/-- A message has stopped once its end was read. -/
theorem stopped_iff {frames : List (BlockFrame ι κ δ)} (hp : p.phase ≠ .stopped)
    (h : frames.foldlM (step fits) p = some q) :
    q.phase = .stopped ↔ .messageStop ∈ frames := by
  induction frames generalizing p with
  | nil =>
      cases h
      exact iff_of_false hp List.not_mem_nil
  | cons frame frames ih =>
      rw [List.foldlM_cons] at h
      obtain ⟨r, hr, hrest⟩ := Option.bind_eq_some_iff.mp h
      have hnow := step_stopped_iff hp hr
      by_cases hstopped : r.phase = .stopped
      · rw [foldlM_of_stopped hstopped] at hrest
        split_ifs at hrest with hnil
        cases hrest
        rw [hnil, List.mem_singleton]
        exact hnow.trans eq_comm
      · have hne : frame ≠ .messageStop := fun heq => hstopped (hnow.mpr heq)
        rw [ih hstopped hrest, List.mem_cons]
        constructor
        · exact Or.inr
        · intro hmem
          exact hmem.resolve_left hne.symm

/-- No index is open twice, and open indices are taken. -/
structure Distinct (p : BlockProgress ι κ) : Prop where
  opened : (p.opened.map Prod.fst).Nodup
  used : ∀ block ∈ p.opened, block.1 ∈ p.used

theorem distinct_step (h : p.Distinct) {frame : BlockFrame ι κ δ}
    (hstep : p.step fits frame = some q) : q.Distinct := by
  cases frame with
  | malformed => cases hstep
  | other | blockDelta | messageStart | messageDelta | messageStop =>
      simp only [step] at hstep
      split_ifs at hstep
      cases hstep
      exact ⟨h.opened, h.used⟩
  | blockStart index type =>
      simp only [step] at hstep
      split_ifs at hstep with hnew
      cases hstep
      constructor
      · rw [List.map_append, List.map_singleton]
        apply List.nodup_append.mpr
        refine ⟨h.opened, List.pairwise_singleton _ _, ?_⟩
        intro i hi j hj heq
        obtain ⟨block, hblock, rfl⟩ := List.mem_map.mp hi
        have hindex : block.1 = index := heq.trans (List.mem_singleton.mp hj)
        apply hnew.2
        rw [← hindex]
        exact h.used block hblock
      · intro block hblock
        cases List.mem_append.mp hblock with
        | inl hold => exact List.mem_append_left _ (h.used block hold)
        | inr hlast =>
            rw [List.mem_singleton.mp hlast]
            exact List.mem_append_right _ (List.mem_singleton_self index)
  | blockStop index =>
      simp only [step] at hstep
      split_ifs at hstep
      cases hstep
      constructor
      · exact h.opened.sublist ((List.eraseP_sublist).map Prod.fst)
      · intro block hblock
        exact h.used block (List.mem_of_mem_eraseP hblock)

theorem distinct_foldlM (h : p.Distinct) {frames : List (BlockFrame ι κ δ)}
    (hrun : frames.foldlM (step fits) p = some q) : q.Distinct := by
  induction frames generalizing p with
  | nil =>
      cases hrun
      exact h
  | cons frame frames ih =>
      rw [List.foldlM_cons] at hrun
      obtain ⟨r, hr, hrest⟩ := Option.bind_eq_some_iff.mp hrun
      exact ih (distinct_step h hr) hrest

theorem distinct_after {frames : List (BlockFrame ι κ δ)} (h : after fits frames = some p) :
    p.Distinct :=
  have hinit : (init : BlockProgress ι κ).Distinct := ⟨List.nodup_nil, List.forall_mem_nil _⟩
  distinct_foldlM hinit h

theorem find?_of_nodup {blocks : List (ι × κ)} (h : (blocks.map Prod.fst).Nodup) {block : ι × κ}
    (hmem : block ∈ blocks) : blocks.find? (·.1 = block.1) = some block := by
  induction blocks with
  | nil => cases hmem
  | cons first rest ih =>
      rw [List.map_cons, List.nodup_cons] at h
      rw [List.find?_cons]
      cases hmem with
      | head => simp
      | tail _ hmem =>
          have hne : first.1 ≠ block.1 := by
            intro heq
            apply h.1
            rw [heq]
            exact List.mem_map_of_mem hmem
          rw [decide_eq_false hne]
          exact ih h.2 hmem

theorem typeOf_of_mem (h : p.Distinct) {block : ι × κ} (hmem : block ∈ p.opened) :
    p.typeOf block.1 = some block.2 := by
  unfold typeOf
  rw [find?_of_nodup h.opened hmem]
  rfl

/-- Only the content of a message has blocks. -/
theorem step_delta_of_not_content (h : p.phase ≠ .content) (index : ι) (type : δ) :
    p.step fits (.blockDelta index type) = none :=
  if_neg fun hstep => h hstep.1

theorem step_start_of_not_content (h : p.phase ≠ .content) (index : ι) (type : κ) :
    p.step fits (.blockStart index type : BlockFrame ι κ δ) = none :=
  if_neg fun hstep => h hstep.1

theorem step_delta (hphase : p.phase = .content) (hdistinct : p.Distinct) {block : ι × κ}
    (hblock : block ∈ p.opened) (type : δ) :
    p.step fits (.blockDelta block.1 type) = if fits type block.2 then some p else none := by
  simp [step, hphase, typeOf_of_mem hdistinct hblock]

/-- A message without open blocks may end. -/
theorem end_message (hphase : p.phase = .content) (hopened : p.opened = []) :
    [(.messageDelta : BlockFrame ι κ δ), .messageStop].foldlM (step fits) p =
      some { p with phase := .stopped } := by
  simp [step, hphase, hopened, List.foldlM_cons]

/-- A new block with one delta, opened and closed. -/
theorem add_block (hphase : p.phase = .content) (hopened : p.opened = []) {index : ι}
    (hnew : index ∉ p.used) {type : κ} {delta : δ} (hfits : fits delta type = true) :
    [(.blockStart index type : BlockFrame ι κ δ), .blockDelta index delta, .blockStop index].foldlM
      (step fits) p = some { p with used := p.used ++ [index] } := by
  simp [step, typeOf, hphase, hopened, hnew, hfits, List.foldlM_cons]

/-- All open blocks are closed in the order of their starts. -/
theorem close_all (hphase : p.phase = .content) :
    (p.opened.map fun block => (.blockStop block.1 : BlockFrame ι κ δ)).foldlM (step fits) p =
      some { p with opened := [] } := by
  obtain ⟨phase, opened, used⟩ := p
  induction opened with
  | nil => rfl
  | cons block opened ih =>
      rw [List.map_cons, List.foldlM_cons]
      have hstep : step fits ⟨phase, block :: opened, used⟩ (.blockStop block.1 : BlockFrame ι κ δ) =
          some ⟨phase, opened, used⟩ := by
        simp only [step, typeOf, List.find?_cons, List.eraseP_cons]
        simp [show phase = .content from hphase]
      rw [hstep]
      exact ih hphase

end BlockProgress

def WellFormedMessage {ι κ δ : Type*} [DecidableEq ι] (fits : δ → κ → Bool)
    (frames : List (BlockFrame ι κ δ)) : Prop :=
  (BlockProgress.after fits frames).any (·.phase = .stopped)

instance {ι κ δ : Type*} [DecidableEq ι] (fits : δ → κ → Bool) (frames : List (BlockFrame ι κ δ)) :
    Decidable (WellFormedMessage fits frames) :=
  inferInstanceAs (Decidable (_ = true))

end BlackMonolith.Library
