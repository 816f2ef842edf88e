import BlackMonolith.RemoteBridge

/-!
# The lines that the remote bridge reads

Every byte that arrives is handed on in a line or dropped with a part of one: the lines that were
handed on are those of the input if no task was taken from the set while a line was read.
-/
namespace BlackMonolith.RemoteBridge
open Library Json HttpTransport

/-! ## The lines of an input -/

/-- What ends at its only line feed. -/
def endsLine (held : List UInt8) : Option (List UInt8) :=
  if held.getLast? = some 10 then some held else none

/-- The lines of an input with their ends; the last one need not have one. -/
def inputLines (bytes : List UInt8) : List (List UInt8) :=
  Framing.completed endsLine bytes ++
    (if Framing.unfinished endsLine bytes = [] then [] else [Framing.unfinished endsLine bytes])

section
variable {bytes rest front : List UInt8} {lines : List (List UInt8)}

def EndsLine (bytes : List UInt8) : Prop := ∃ front, bytes = front ++ [10] ∧ 10 ∉ front

theorem endsLine_eq_none (h : 10 ∉ bytes) : endsLine bytes = none := by
  unfold endsLine
  rw [if_neg]
  intro hlast
  exact h (List.mem_of_getLast? hlast)

theorem frames_of_notMem (h : 10 ∉ bytes) :
    Framing.frames endsLine [] bytes = ([], bytes) := by
  apply Framing.frames_of_none
  intro n _ _
  apply endsLine_eq_none
  rw [List.nil_append]
  exact fun hmem => h (List.mem_of_mem_take hmem)

/-- The lines of what begins with a line are that line and those of the rest. -/
theorem inputLines_append (h : EndsLine bytes) :
    inputLines (bytes ++ rest) = bytes :: inputLines rest := by
  obtain ⟨front, rfl, hfront⟩ := h
  have hends : endsLine (front ++ [10]) = some (front ++ [10]) := by
    unfold endsLine
    rw [if_pos List.getLast?_concat]
  have hframes : Framing.frames endsLine [] (front ++ [10] ++ rest) =
      ((front ++ [10]) :: Framing.completed endsLine rest, Framing.unfinished endsLine rest) := by
    rw [List.append_assoc, Framing.frames_append, frames_of_notMem hfront]
    exact Framing.frames_cons_of_some hends
  unfold inputLines
  rw [Framing.completed, Framing.unfinished, hframes]
  rfl

theorem inputLines_last (h : 10 ∉ bytes) (hne : bytes ≠ []) : inputLines bytes = [bytes] := by
  unfold inputLines
  rw [Framing.completed, Framing.unfinished, frames_of_notMem h, if_neg hne]
  rfl

theorem flatten_frames (held bytes : List UInt8) :
    (Framing.frames endsLine held bytes).1.flatten ++ (Framing.frames endsLine held bytes).2 =
      held ++ bytes := by
  induction bytes generalizing held with
  | nil => exact (List.append_nil held).symm
  | cons b bytes ih =>
      cases hends : endsLine (held ++ [b]) with
      | none =>
          rw [Framing.frames_cons_of_none hends, ih, List.append_assoc, List.singleton_append]
      | some line =>
          have hline : line = held ++ [b] := by
            unfold endsLine at hends
            split_ifs at hends
            exact (Option.some.inj hends).symm
          rw [Framing.frames_cons_of_some hends, List.flatten_cons, List.append_assoc]
          have hrest := ih []
          rw [List.nil_append] at hrest
          rw [Framing.completed, Framing.unfinished, hrest, hline, List.append_assoc,
            List.singleton_append]

/-- The lines are the input. -/
theorem flatten_inputLines (bytes : List UInt8) : (inputLines bytes).flatten = bytes := by
  have hframes := flatten_frames [] bytes
  rw [List.nil_append] at hframes
  unfold inputLines
  split_ifs with hnone
  · rw [List.append_nil]
    rw [Framing.unfinished] at hnone
    rw [hnone, List.append_nil] at hframes
    exact hframes
  · rw [List.flatten_append, List.flatten_singleton]
    exact hframes

theorem upToLineFeed_cases (available : List UInt8) :
    (∃ rest, available = upToLineFeed available ++ rest ∧ EndsLine (upToLineFeed available)) ∨
      10 ∉ available ∧ upToLineFeed available = available := by
  unfold upToLineFeed
  cases hindex : available.findIdx? (· = 10) with
  | none =>
      right
      refine ⟨fun hmem => ?_, rfl⟩
      have hall := List.findIdx?_eq_none_iff.mp hindex 10 hmem
      cases hall
  | some index =>
      left
      obtain ⟨hlength, hat, hbefore⟩ := List.findIdx?_eq_some_iff_getElem.mp hindex
      refine ⟨available.drop (index + 1), (List.take_append_drop _ _).symm,
        available.take index, ?_, fun hmem => ?_⟩
      · dsimp only
        rw [List.take_add_one, List.getElem?_eq_getElem hlength, of_decide_eq_true hat]
        rfl
      · obtain ⟨i, hi, heq⟩ := List.mem_iff_getElem.mp hmem
        rw [List.length_take] at hi
        rw [List.getElem_take] at heq
        have hnot := hbefore i (by omega)
        rw [heq] at hnot
        exact hnot rfl

/-- A round of `read_bounded_line` reads on, or ends at a line feed. -/
theorem readAvailable_cases (held available : List UInt8) (hheld : 10 ∉ held) :
    readAvailable held available = .tooLong ∨
      10 ∉ available ∧ readAvailable held available = .more (held ++ available) ∨
        ∃ line rest, readAvailable held available = .line line rest ∧ EndsLine line ∧
          line ++ rest = held ++ available := by
  have hcases := upToLineFeed_cases available
  unfold readAvailable
  dsimp only
  generalize upToLineFeed available = consumed at hcases ⊢
  split_ifs with hlong hends
  · exact Or.inl rfl
  · right
    right
    rcases hcases with ⟨rest, rfl, front, hline, hfront⟩ | ⟨hnone, rfl⟩
    · refine ⟨_, _, rfl, ⟨held ++ front, ?_, ?_⟩, ?_⟩
      · rw [hline, List.append_assoc]
      · rw [List.mem_append]
        exact fun hmem => hmem.elim hheld hfront
      · rw [List.drop_left, List.append_assoc]
    · exact absurd (List.mem_of_getLast? hends) hnone
  · right
    left
    rcases hcases with ⟨rest, rfl, front, hline, hfront⟩ | ⟨hnone, rfl⟩
    · rw [hline, List.getLast?_concat] at hends
      exact absurd rfl hends
    · exact ⟨hnone, rfl⟩

end

/-! ## What becomes of the input -/

/-- A line with its end, or a part of one. -/
def Segment.Whole : Segment → Prop
  | .line bytes => EndsLine bytes
  | .dropped bytes => bytes ≠ []

namespace Bridge
variable {fromStr : List UInt8 → Option Value} {b b' : Bridge} {bytes : List UInt8}

/-- Every byte is in a line, in a part that was dropped, in the line that is read, or unread.
Only the last line, at the end of the input, may lack its end. -/
structure InputSound (b : Bridge) : Prop where
  conserved : b.journal.arrived = b.journal.segments.flatMap Segment.bytes ++ b.line ++ b.stdin
  line : 10 ∉ b.line
  segments : (∀ s ∈ b.journal.segments, s.Whole) ∨
    (b.eof = true ∧ b.stdin = [] ∧ b.line = []) ∧
      ∃ front bytes, b.journal.segments = front ++ [.line bytes] ∧ (∀ s ∈ front, s.Whole) ∧
        bytes ≠ [] ∧ 10 ∉ bytes
  draining : b.draining = true → b.eof = true ∧ b.stdin = [] ∧ b.line = []

def SameInput (b b' : Bridge) : Prop :=
  b'.stdin = b.stdin ∧ b'.eof = b.eof ∧ b'.line = b.line ∧ b'.draining = b.draining ∧
    b'.journal.arrived = b.journal.arrived ∧ b'.journal.segments = b.journal.segments

theorem InputSound.congr (h : b.InputSound) (hsame : SameInput b b') : b'.InputSound := by
  obtain ⟨hstdin, heof, hline, hdraining, harrived, hsegments⟩ := hsame
  refine ⟨?_, ?_, ?_, ?_⟩
  · rw [harrived, hsegments, hline, hstdin]
    exact h.conserved
  · rw [hline]
    exact h.line
  · rw [hsegments, heof, hstdin, hline]
    exact h.segments
  · rw [hdraining, heof, hstdin, hline]
    exact h.draining

theorem sameInput_handOn (fromStr : List UInt8 → Option Value) (b : Bridge)
    (bytes : List UInt8) : SameInput (b.withLine bytes) (handOn fromStr b bytes) := by
  unfold handOn
  dsimp only
  split
  · exact ⟨rfl, rfl, rfl, rfl, rfl, rfl⟩
  · split_ifs
    · exact ⟨rfl, rfl, rfl, rfl, rfl, rfl⟩
    · split
      · exact ⟨rfl, rfl, rfl, rfl, rfl, rfl⟩
      · split_ifs
        · exact ⟨rfl, rfl, rfl, rfl, rfl, rfl⟩
        · exact ⟨rfl, rfl, rfl, rfl, rfl, rfl⟩

theorem sameInput_receive (i : ℕ) (task : Task) (head : ResponseHead) :
    SameInput b (b.receive i task head) := by
  unfold receive
  split
  · exact ⟨rfl, rfl, rfl, rfl, rfl, rfl⟩
  · next found hfound =>
      obtain ⟨session, rfl, -⟩ := rememberSession_eq hfound
      split
      · exact ⟨rfl, rfl, rfl, rfl, rfl, rfl⟩
      · exact ⟨rfl, rfl, rfl, rfl, rfl, rfl⟩

theorem InputSound.whole (h : b.InputSound) (hmore : b.stdin ≠ [] ∨ b.line ≠ []) :
    ∀ s ∈ b.journal.segments, s.Whole := by
  rcases h.segments with hwhole | ⟨⟨-, hstdin, hline⟩, -⟩
  · exact hwhole
  · exact hmore.elim (absurd hstdin) (absurd hline)

theorem flatMap_bytes_concat (segments : List Segment) (s : Segment) :
    (segments ++ [s]).flatMap Segment.bytes = segments.flatMap Segment.bytes ++ s.bytes := by
  rw [List.flatMap_append, List.flatMap_singleton]

theorem input_read (h : b.InputSound) {count : ℕ}
    (hstep : act fromStr b (.read count) = some b') : b'.InputSound := by
  obtain ⟨⟨hdraining, -, hpos, hle⟩, hcases⟩ := act_read hstep
  have hne : b.stdin ≠ [] := List.ne_nil_of_length_pos (hpos.trans_le hle)
  have hwhole := h.whole (Or.inl hne)
  have hconserved := h.conserved
  rw [← List.take_append_drop count b.stdin, ← List.append_assoc,
    List.append_assoc (List.flatMap _ _)] at hconserved
  have hgoes : ∀ {P : Prop}, b.draining = true → P := by
    intro P htrue
    rw [hdraining] at htrue
    cases htrue
  have hread := readAvailable_cases b.line (b.stdin.take count) h.line
  rcases hcases with ⟨-, rfl⟩ | ⟨bytes, heq, rfl⟩ | ⟨bytes, rest, heq, rfl⟩
  · exact h.congr ⟨rfl, rfl, rfl, rfl, rfl, rfl⟩
  · rw [heq] at hread
    rcases hread with hlong | ⟨hnone, hmore⟩ | ⟨line, rest, hline, -⟩
    · cases hlong
    · cases hmore
      refine ⟨hconserved, ?_, Or.inl hwhole, hgoes⟩
      rw [List.mem_append]
      exact fun hmem => hmem.elim h.line hnone
    · cases hline
  · rw [heq] at hread
    rcases hread with hlong | ⟨-, hmore⟩ | ⟨line, rest, hline, hends, hsplit⟩
    · cases hlong
    · cases hmore
    · cases hline
      apply InputSound.congr _ (sameInput_handOn fromStr _ bytes)
      refine ⟨?_, List.not_mem_nil, Or.inl ?_, hgoes⟩
      · rw [withLine, flatMap_bytes_concat]
        dsimp only [Segment.bytes]
        rw [hconserved, ← hsplit, List.append_nil]
        simp only [List.append_assoc]
      · intro s hs
        rcases List.mem_append.mp hs with hold | hlast
        · exact hwhole s hold
        · rw [List.mem_singleton.mp hlast]
          exact hends

theorem input_readEnd (h : b.InputSound) (hstep : act fromStr b .readEnd = some b') :
    b'.InputSound := by
  obtain ⟨⟨hdraining, -, heof, hstdin⟩, ⟨hempty, rfl⟩ | ⟨hne, rfl⟩⟩ := act_readEnd hstep
  · exact ⟨h.conserved, h.line, h.segments, fun _ => ⟨heof, hstdin, hempty⟩⟩
  · apply InputSound.congr _ (sameInput_handOn fromStr b b.line)
    refine ⟨?_, List.not_mem_nil, Or.inr ⟨⟨heof, hstdin, rfl⟩, b.journal.segments, b.line, rfl,
      h.whole (Or.inr hne), hne, h.line⟩, fun htrue => ?_⟩
    · rw [withLine, flatMap_bytes_concat, List.append_nil]
      exact h.conserved
    · have hgoes : b.draining = true := htrue
      rw [hdraining] at hgoes
      cases hgoes

theorem input_take (h : b.InputSound) (i : ℕ) (task : Task) (answer : Answer) :
    (b.take i task answer).InputSound := by
  have htaken : ({ b with
      tasks := b.tasks.eraseIdx i
      line := []
      journal.segments := b.journal.segments ++ (if b.line = [] then [] else [.dropped b.line])
      journal.answers := b.journal.answers ++ [(task.number, answer)] } : Bridge).InputSound := by
    by_cases hline : b.line = []
    · rw [if_pos hline, List.append_nil]
      have hconserved := h.conserved
      have hsegments := h.segments
      rw [hline] at hconserved hsegments
      exact ⟨hconserved, List.not_mem_nil, hsegments,
        fun hdraining => ⟨(h.draining hdraining).1, (h.draining hdraining).2.1, rfl⟩⟩
    · rw [if_neg hline]
      refine ⟨?_, List.not_mem_nil, Or.inl ?_,
        fun hdraining => absurd (h.draining hdraining).2.2 hline⟩
      · rw [flatMap_bytes_concat, List.append_nil]
        exact h.conserved
      · intro s hs
        rcases List.mem_append.mp hs with hold | hlast
        · exact h.whole (Or.inr hline) s hold
        · rw [List.mem_singleton.mp hlast]
          exact hline
  unfold take
  dsimp only
  split
  · exact htaken.congr ⟨rfl, rfl, rfl, rfl, rfl, rfl⟩
  · exact htaken

theorem input_step (h : b.InputSound) {action : BridgeAction}
    (hstep : b.step fromStr action = some b') : b'.InputSound := by
  obtain ⟨-, hact⟩ := act_of_step hstep
  cases action with
  | arrive bytes =>
      rw [act] at hact
      split_ifs at hact with heof
      cases hact
      refine ⟨?_, h.line, Or.inl ?_, fun hdraining => absurd (h.draining hdraining).1 heof⟩
      · rw [h.conserved, List.append_assoc]
      · rcases h.segments with hwhole | ⟨⟨heof', -⟩, -⟩
        · exact hwhole
        · exact absurd heof' heof
  | close =>
      cases hact
      refine ⟨h.conserved, h.line, ?_, fun hdraining => ⟨rfl, (h.draining hdraining).2⟩⟩
      exact h.segments.imp id fun hlast => ⟨⟨rfl, hlast.1.2⟩, hlast.2⟩
  | read count => exact input_read h hact
  | readEnd => exact input_readEnd h hact
  | readFails =>
      rw [act_readFails hact]
      exact h.congr ⟨rfl, rfl, rfl, rfl, rfl, rfl⟩
  | send i =>
      obtain ⟨task, -, -, rfl⟩ := act_send hact
      exact h.congr ⟨rfl, rfl, rfl, rfl, rfl, rfl⟩
  | sendFails i =>
      obtain ⟨task, -, -, rfl⟩ := act_sendFails hact
      exact h.congr ⟨rfl, rfl, rfl, rfl, rfl, rfl⟩
  | headers i head =>
      obtain ⟨task, -, -, rfl⟩ := act_headers hact
      exact h.congr (sameInput_receive i task head)
  | body i chunks =>
      obtain ⟨task, head, -, -, rfl⟩ := act_body hact
      exact h.congr ⟨rfl, rfl, rfl, rfl, rfl, rfl⟩
  | bodyFails i chunks =>
      obtain ⟨task, head, answer, -, -, -, rfl⟩ := @act_fails _ _ _ _ _ 0 (Or.inl hact)
      exact h.congr ⟨rfl, rfl, rfl, rfl, rfl, rfl⟩
  | emitFails i chunks written =>
      obtain ⟨task, head, answer, -, -, -, rfl⟩ := act_fails (Or.inr hact)
      exact h.congr ⟨rfl, rfl, rfl, rfl, rfl, rfl⟩
  | join i =>
      obtain ⟨task, answer, -, -, rfl⟩ := act_join hact
      exact input_take h i task answer
  | finish =>
      obtain ⟨-, rfl⟩ := act_finish hact
      exact h.congr ⟨rfl, rfl, rfl, rfl, rfl, rfl⟩

end Bridge

section
variable {segments : List Segment} {bytes : List UInt8}

theorem exists_lines (h : ∀ s ∈ segments, ∃ bytes, s = .line bytes) :
    ∃ lines : List (List UInt8), segments = lines.map .line := by
  induction segments with
  | nil => exact ⟨[], rfl⟩
  | cons s segments ih =>
      obtain ⟨⟨bytes, rfl⟩, hrest⟩ := List.forall_mem_cons.mp h
      obtain ⟨lines, rfl⟩ := ih hrest
      exact ⟨bytes :: lines, rfl⟩

theorem inputLines_flatten (lines : List (List UInt8)) (h : ∀ line ∈ lines, EndsLine line)
    (rest : List UInt8) : inputLines (lines.flatten ++ rest) = lines ++ inputLines rest := by
  induction lines with
  | nil => rfl
  | cons line lines ih =>
      obtain ⟨hends, hlines⟩ := List.forall_mem_cons.mp h
      rw [List.flatten_cons, List.append_assoc, inputLines_append hends, ih hlines]
      rfl

theorem lines_map_line (lines : List (List UInt8)) :
    ({ segments := lines.map .line } : Journal).lines = lines := by
  unfold Journal.lines
  induction lines with
  | nil => rfl
  | cons line lines ih => exact congrArg (line :: ·) ih

theorem flatMap_map_line (lines : List (List UInt8)) :
    (lines.map Segment.line).flatMap Segment.bytes = lines.flatten := by
  induction lines with
  | nil => rfl
  | cons line lines ih =>
      rw [List.map_cons, List.flatMap_cons, ih]
      rfl

/-- What was dropped is missing from the lines. -/
theorem length_lines_lt {journal : Journal} (hwhole : ∀ bytes, .dropped bytes ∈ journal.segments →
    bytes ≠ []) (h : .dropped bytes ∈ journal.segments) :
    journal.lines.flatten.length < (journal.segments.flatMap Segment.bytes).length := by
  unfold Journal.lines
  have hle : ∀ segments : List Segment,
      (segments.filterMap Segment.handedOn).flatten.length ≤
        (segments.flatMap Segment.bytes).length := by
    intro segments
    induction segments with
    | nil => exact le_rfl
    | cons s segments ih =>
        cases s with
        | line bytes =>
            have hhanded : Segment.handedOn (.line bytes) = some bytes := rfl
            rw [List.filterMap_cons_some hhanded, List.flatMap_cons, List.flatten_cons,
              List.length_append, List.length_append]
            exact Nat.add_le_add_left ih _
        | dropped bytes =>
            rw [List.filterMap_cons_none rfl, List.flatMap_cons, List.length_append]
            exact ih.trans (Nat.le_add_left _ _)
  obtain ⟨front, back, hsplit⟩ := List.append_of_mem h
  have hpos := List.length_pos_of_ne_nil (hwhole bytes h)
  rw [hsplit, List.filterMap_append, List.flatMap_append, List.flatten_append,
    List.length_append, List.length_append, List.filterMap_cons_none rfl, List.flatMap_cons,
    List.length_append]
  have hfront := hle front
  have hback := hle back
  dsimp only [Segment.bytes]
  omega

end

namespace Bridge
variable {fromStr : List UInt8 → Option Value} {b b' : Bridge}

theorem InputSound.dropped (h : b.InputSound) {bytes : List UInt8}
    (hbytes : .dropped bytes ∈ b.journal.segments) : bytes ≠ [] := by
  rcases h.segments with hwhole | ⟨-, front, last, hsegments, hwhole, -⟩
  · exact hwhole _ hbytes
  · rw [hsegments] at hbytes
    rcases List.mem_append.mp hbytes with hmem | hlast
    · exact hwhole _ hmem
    · cases List.mem_singleton.mp hlast

/-- At the end of the input the lines that were handed on are its lines, if and only if
nothing was dropped. -/
theorem InputSound.lines_iff (h : b.InputSound) (hdraining : b.draining = true) :
    b.journal.lines = inputLines b.journal.arrived ↔
      ∀ s ∈ b.journal.segments, ∃ bytes, s = .line bytes := by
  obtain ⟨-, hstdin, hline⟩ := h.draining hdraining
  have harrived := h.conserved
  rw [hstdin, hline, List.append_nil, List.append_nil] at harrived
  constructor
  · intro hlines s hs
    cases s with
    | line bytes => exact ⟨bytes, rfl⟩
    | dropped bytes =>
        have hlt := length_lines_lt (fun _ => h.dropped) hs
        rw [hlines, flatten_inputLines, harrived] at hlt
        exact absurd hlt (lt_irrefl _)
  · intro hall
    obtain ⟨lines, hsegments⟩ := exists_lines hall
    have hread : b.journal.lines = lines := by
      rw [← lines_map_line lines, Journal.lines, Journal.lines, hsegments]
    rw [hread, harrived, hsegments, flatMap_map_line]
    rcases h.segments with hwhole | ⟨-, front, last, hlast, hwhole, hne, hnone⟩
    · rw [hsegments] at hwhole
      have hends : ∀ line ∈ lines, EndsLine line :=
        fun line hmem => hwhole _ (List.mem_map_of_mem hmem)
      have hlines := inputLines_flatten lines hends []
      rw [List.append_nil] at hlines
      rw [hlines]
      exact (List.append_nil lines).symm
    · rw [hsegments] at hlast
      obtain ⟨before, after, rfl, hbefore, hafter⟩ := List.map_eq_append_iff.mp hlast
      obtain ⟨line, rest, rfl, hlineEq, hrest⟩ := List.map_eq_cons_iff.mp hafter
      cases hlineEq
      rw [List.map_eq_nil_iff] at hrest
      subst hrest hbefore
      rw [List.flatten_append, List.flatten_singleton, inputLines_flatten before
        (fun line hmem => hwhole _ (List.mem_map_of_mem hmem)), inputLines_last hnone hne]

/-! ## Runs -/

/-- No task is taken from the set while a line is read. -/
def KeepsLine (b : Bridge) : BridgeAction → Prop
  | .join _ => b.line = []
  | _ => True

/-- What an action takes from the input: lines, unless it takes a task while a line is read. -/
def Takes (b : Bridge) (action : BridgeAction) (taken : List Segment) : Prop :=
  (∀ s ∈ taken, ∃ bytes, s = .line bytes) ∧ b.KeepsLine action ∨
    taken = [.dropped b.line] ∧ ¬ b.KeepsLine action

theorem takes_nothing {action : BridgeAction} (h : b.KeepsLine action) : b.Takes action [] :=
  Or.inl ⟨fun _ hs => absurd hs List.not_mem_nil, h⟩

theorem takes_line {action : BridgeAction} (h : b.KeepsLine action) (bytes : List UInt8) :
    b.Takes action [.line bytes] :=
  Or.inl ⟨fun _ hs => ⟨bytes, List.mem_singleton.mp hs⟩, h⟩

theorem segments_handOn (fromStr : List UInt8 → Option Value) (b : Bridge) (bytes : List UInt8) :
    (handOn fromStr b bytes).journal.segments = b.journal.segments ++ [.line bytes] :=
  (sameInput_handOn fromStr b bytes).2.2.2.2.2

theorem takes_act {action : BridgeAction} (h : act fromStr b action = some b') :
    ∃ taken, b'.journal.segments = b.journal.segments ++ taken ∧ b.Takes action taken := by
  have hnothing : b.KeepsLine action → b'.journal.segments = b.journal.segments →
      ∃ taken, b'.journal.segments = b.journal.segments ++ taken ∧ b.Takes action taken :=
    fun hkeeps hsame => ⟨[], hsame.trans (List.append_nil _).symm, takes_nothing hkeeps⟩
  cases action with
  | arrive bytes =>
      rw [act] at h
      split_ifs at h
      cases h
      exact hnothing trivial rfl
  | close =>
      cases h
      exact hnothing trivial rfl
  | read count =>
      obtain ⟨-, ⟨-, rfl⟩ | ⟨bytes, -, rfl⟩ | ⟨bytes, rest, -, rfl⟩⟩ := act_read h
      · exact hnothing trivial rfl
      · exact hnothing trivial rfl
      · refine ⟨_, segments_handOn fromStr _ bytes, ?_⟩
        apply takes_line
        trivial
  | readEnd =>
      obtain ⟨-, ⟨-, rfl⟩ | ⟨-, rfl⟩⟩ := act_readEnd h
      · exact hnothing trivial rfl
      · refine ⟨_, segments_handOn fromStr b b.line, ?_⟩
        apply takes_line
        trivial
  | readFails =>
      rw [act_readFails h] at hnothing ⊢
      exact hnothing trivial rfl
  | send i =>
      obtain ⟨task, -, -, rfl⟩ := act_send h
      exact hnothing trivial rfl
  | sendFails i =>
      obtain ⟨task, -, -, rfl⟩ := act_sendFails h
      exact hnothing trivial rfl
  | headers i head =>
      obtain ⟨task, -, -, rfl⟩ := act_headers h
      exact hnothing trivial (sameInput_receive i task head).2.2.2.2.2
  | body i chunks =>
      obtain ⟨task, head, -, -, rfl⟩ := act_body h
      exact hnothing trivial rfl
  | bodyFails i chunks =>
      obtain ⟨task, head, answer, -, -, -, rfl⟩ := @act_fails _ _ _ _ _ 0 (Or.inl h)
      exact hnothing trivial rfl
  | emitFails i chunks written =>
      obtain ⟨task, head, answer, -, -, -, rfl⟩ := act_fails (Or.inr h)
      exact hnothing trivial rfl
  | join i =>
      obtain ⟨task, answer, -, -, rfl⟩ := act_join h
      refine ⟨if b.line = [] then [] else [.dropped b.line], ?_, ?_⟩
      · unfold take
        dsimp only
        split
        · rfl
        · rfl
      · split_ifs with hline
        · exact takes_nothing hline
        · exact Or.inr ⟨rfl, hline⟩
  | finish =>
      obtain ⟨-, rfl⟩ := act_finish h
      exact hnothing trivial rfl

/-- No part of a line was dropped. -/
def Unbroken (b : Bridge) : Prop := ∀ s ∈ b.journal.segments, ∃ bytes, s = .line bytes

/-- What was dropped stays missing. -/
theorem unbroken_step {action : BridgeAction} (hstep : b.step fromStr action = some b') :
    b'.Unbroken ↔ b.Unbroken ∧ b.KeepsLine action := by
  obtain ⟨taken, hsegments, htakes⟩ := takes_act (act_of_step hstep).2
  unfold Unbroken
  rw [hsegments, List.forall_mem_append]
  rcases htakes with ⟨hlines, hkeeps⟩ | ⟨rfl, hdrops⟩
  · exact ⟨fun h => ⟨h.1, hkeeps⟩, fun h => ⟨h.1, hlines⟩⟩
  · constructor
    · intro h
      obtain ⟨bytes, heq⟩ := h.2 _ (List.mem_singleton_self _)
      cases heq
    · exact fun h => absurd h.2 hdrops

theorem unbroken_run {actions : List BridgeAction}
    (h : Path (step fromStr) unguarded b actions b') :
    b'.Unbroken ↔ b.Unbroken ∧ Path (step fromStr) KeepsLine b actions b' := by
  induction h with
  | done b => exact ⟨fun hunbroken => ⟨hunbroken, .done b⟩, fun hboth => hboth.1⟩
  | step hstep _ _ ih =>
      rw [ih, unbroken_step hstep]
      constructor
      · exact fun ⟨⟨hunbroken, hkeeps⟩, hrest⟩ => ⟨hunbroken, .step hstep hkeeps hrest⟩
      · rintro ⟨hunbroken, hrun⟩
        cases hrun with
        | step hstep' hkeeps hrest =>
            rw [hstep] at hstep'
            cases hstep'
            exact ⟨⟨hunbroken, hkeeps⟩, hrest⟩

theorem input_start : ({} : Bridge).InputSound :=
  ⟨rfl, List.not_mem_nil, Or.inl fun _ hs => absurd hs List.not_mem_nil,
    fun hdraining => (by cases hdraining)⟩

/-- When the input is at its end, the lines that were handed on are its lines, each of them once
and in their order, if and only if no task was taken from the set while a line was read. -/
theorem lines_of_run {actions : List BridgeAction}
    (h : Path (step fromStr) unguarded {} actions b) (hend : b.draining = true) :
    b.journal.lines = inputLines b.journal.arrived ↔
      Path (step fromStr) KeepsLine {} actions b := by
  have hsound : b.InputSound :=
    h.invariant (fun _ _ _ hs _ hstep => input_step hs hstep) input_start
  rw [hsound.lines_iff hend]
  have hstart : ({} : Bridge).Unbroken := fun _ hs => absurd hs List.not_mem_nil
  exact (unbroken_run h).trans (and_iff_right hstart)

/-- A parser to which every line is one notification. -/
def anyMessage (_ : List UInt8) : Option Value := some (.object [("jsonrpc", .string "2.0")])

/-- A notification whose answer comes while the next line is read. -/
def answeredMidLine : List BridgeAction :=
  [.arrive [97, 10, 98], .read 3, .send 0, .headers 0 { status := 202 }, .read 1, .join 0,
    .arrive [99, 10], .close, .read 2, .readEnd]

/-- Of the lines `a` and `bc` the second one loses its beginning. -/
theorem lines_of_run_answered_mid_line :
    ∃ b, execute (step anyMessage) {} answeredMidLine = some b ∧
      b.journal.lines = [[97, 10], [99, 10]] ∧
      inputLines b.journal.arrived = [[97, 10], [98, 99, 10]] ∧
      ¬ Path (step anyMessage) KeepsLine {} answeredMidLine b :=
    by
  have hrun : ((execute (step anyMessage) {}
      answeredMidLine).any fun b => b.draining && b.journal.lines == [[97, 10], [99, 10]] &&
        b.journal.arrived == [97, 10, 98, 99, 10]) = true := by decide +kernel
  obtain ⟨b, hb, hread⟩ := (Option.any_eq_true _ _).mp hrun
  simp only [Bool.and_eq_true, beq_iff_eq] at hread
  obtain ⟨⟨hdraining, hlines⟩, harrived⟩ := hread
  have hinput : inputLines b.journal.arrived = [[97, 10], [98, 99, 10]] := by
    rw [harrived]
    decide +kernel
  refine ⟨b, hb, hlines, hinput, fun hkeeps => ?_⟩
  have hsame := (lines_of_run (Path.of_execute hb) hdraining).mpr hkeeps
  rw [hlines, hinput] at hsame
  cases hsame

end Bridge

end BlackMonolith.RemoteBridge
