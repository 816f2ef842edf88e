import Mathlib
import BlackMonolith.TraceAudit.StreamBuffer

/-!
# What a stream buffer keeps of a text

Everything that is pushed leaves the buffer once and in order: a character as
itself, or behind the marker of the match that was applied to it. The span of a
marker is the text its match reports; that of an overlong candidate also has what
was swallowed after it. A character stays with the push it came from.
-/
namespace BlackMonolith.TraceAudit
open Library

section
variable {α : Type}

/-- The characters of fragments, each with the push it came from. -/
def owned (items : List (BufferedToken α)) : List (α × ℕ) :=
  items.flatMap fun item => item.token.map (·, item.index)

/-- The fragments with other texts. -/
def retoken (fragments : List (List α)) (items : List (BufferedToken α)) :
    List (BufferedToken α) :=
  List.zipWith (fun fragment item => ⟨fragment, item.index⟩) fragments items

/-- A part of what is let go: a character, or a marker and the span it stands for. -/
inductive Piece (α : Type)
  | plain (c : α × ℕ)
  | marker (m : PiiMatch) (index : ℕ) (span : List (α × ℕ))

namespace Piece

def shown [Glyph α] : Piece α → List (α × ℕ)
  | plain c => [c]
  | marker m index _ => (placeholder m.label).map (·, index)

def original : Piece α → List (α × ℕ)
  | plain c => [c]
  | marker _ _ span => span

def reported : Piece α → Option PiiMatch
  | plain _ => none
  | marker m _ _ => some m

/-- A marker stands for the text of its match, or begins with it if it is overlong. -/
def Honest [Glyph α] : Piece α → Prop
  | plain _ => True
  | marker m _ span => points (span.map Prod.fst) = m.value ∨
      m.label = PiiStreamBuffer.overlongLabel ∧ m.value <+: points (span.map Prod.fst)

end Piece

@[simp] theorem owned_nil : owned ([] : List (BufferedToken α)) = [] := rfl

@[simp] theorem owned_cons (item : BufferedToken α) (items : List (BufferedToken α)) :
    owned (item :: items) = item.token.map (·, item.index) ++ owned items := rfl

@[simp] theorem owned_append (items others : List (BufferedToken α)) :
    owned (items ++ others) = owned items ++ owned others := List.flatMap_append

theorem map_fst_owned (items : List (BufferedToken α)) :
    (owned items).map Prod.fst = joined items := by
  induction items with
  | nil => rfl
  | cons item items ih =>
      rw [owned_cons, List.map_append, ih, List.map_map]
      exact congrArg (· ++ joined items) (List.map_id _)

theorem owned_filter (items : List (BufferedToken α)) :
    owned (items.filter (!·.token.isEmpty)) = owned items := by
  induction items with
  | nil => rfl
  | cons item items ih =>
      cases htoken : item.token with
      | nil => simp [htoken, ih]
      | cons c cs => simp [htoken, ih]

theorem retoken_self (items : List (BufferedToken α)) :
    retoken (items.map BufferedToken.token) items = items := by
  induction items with
  | nil => rfl
  | cons item items ih => exact congrArg (item :: ·) ih

theorem owned_itemsBefore (stop position : ℕ) (items : List (BufferedToken α)) :
    owned (itemsBefore stop position items) = (owned items).take (stop - position) := by
  induction items generalizing position with
  | nil => simp [itemsBefore]
  | cons item items ih =>
      rw [itemsBefore, owned_cons, List.take_append, List.length_map]
      have hrest := ih (position + item.token.length)
      rw [← Nat.sub_sub] at hrest
      split_ifs with hnone
      · have hempty : (item.token.map (·, item.index)).take (stop - position) = [] := by
          rw [List.take_eq_nil_iff, List.map_eq_nil_iff, ← List.length_eq_zero_iff]
          omega
        rw [hempty, hrest, List.nil_append]
      · rw [owned_cons, hrest, ← List.map_take]
        congr 2
        rcases Nat.le_total item.token.length (stop - position) with hle | hle
        · rw [Nat.min_eq_left hle, List.take_of_length_le hle, List.take_length]
        · rw [Nat.min_eq_right hle]

theorem owned_itemsAfter (stop position : ℕ) (items : List (BufferedToken α)) :
    owned (itemsAfter stop position items) = (owned items).drop (stop - position) := by
  induction items generalizing position with
  | nil => simp [itemsAfter]
  | cons item items ih =>
      rw [itemsAfter, owned_cons, List.drop_append, List.length_map]
      have hrest := ih (position + item.token.length)
      rw [← Nat.sub_sub] at hrest
      split_ifs with hsome
      · rw [owned_cons, hrest, ← List.map_drop, Nat.min_eq_right (by omega)]
      · have hempty : (item.token.map (·, item.index)).drop (stop - position) = [] := by
          rw [List.drop_eq_nil_iff, List.length_map]
          omega
        rw [hempty, hrest, List.nil_append]

theorem owned_releasePrefix (count : ℕ) (items : List (BufferedToken α)) :
    owned (releasePrefix count items).1 ++ owned (releasePrefix count items).2 = owned items := by
  induction items generalizing count with
  | nil => rfl
  | cons item items ih =>
      unfold releasePrefix
      dsimp only
      split_ifs with hzero hwhole
      · rfl
      · rw [owned_cons, owned_cons, hwhole, List.take_length, List.append_assoc, ih]
      · rw [owned_cons, owned_cons, owned_cons, owned_nil, List.append_nil, ← List.append_assoc,
          ← List.map_append, List.take_append_drop]

/-! ## One match applied to the fragments -/

/-- The fragments still hold what the original ones held before a place. -/
def Intact (limit : ℕ) : ℕ → List (List α) → List (List α) → Prop
  | _, [], [] => True
  | position, original :: originals, fragment :: fragments =>
      (position + original.length ≤ limit → fragment.length = original.length) ∧
        (limit < position + original.length → limit - position ≤ fragment.length) ∧
        Intact limit (position + original.length) originals fragments
  | _, _, _ => False

variable {limit limit' position : ℕ} {originals fragments : List (List α)}
  {items : List (BufferedToken α)}

theorem intact_self (limit position : ℕ) (originals : List (List α)) :
    Intact limit position originals originals := by
  induction originals generalizing position with
  | nil => trivial
  | cons original originals ih => exact ⟨fun _ => rfl, fun _ => by omega, ih _⟩

theorem Intact.length_eq (h : Intact limit position originals fragments) :
    fragments.length = originals.length := by
  induction originals generalizing position fragments with
  | nil =>
      cases fragments with
      | nil => rfl
      | cons _ _ => cases h
  | cons original originals ih =>
      cases fragments with
      | nil => cases h
      | cons fragment fragments => exact congrArg Nat.succ (ih h.2.2)

/-- Nothing lies before a place that is passed. -/
theorem intact_of_lt (hlt : limit < position) (hlength : fragments.length = originals.length) :
    Intact limit position originals fragments := by
  induction originals generalizing position fragments with
  | nil =>
      cases fragments with
      | nil => trivial
      | cons _ _ => cases hlength
  | cons original originals ih =>
      cases fragments with
      | nil => cases hlength
      | cons fragment fragments =>
          exact ⟨fun _ => by omega, fun _ => by omega, ih (by omega) (Nat.succ.inj hlength)⟩

@[simp] theorem retoken_cons (fragment : List α) (fragments : List (List α))
    (item : BufferedToken α) (items : List (BufferedToken α)) :
    retoken (fragment :: fragments) (item :: items) =
      ⟨fragment, item.index⟩ :: retoken fragments items := rfl

theorem mapIdx_const (fragments : List (List α)) :
    fragments.mapIdx (fun _ fragment => fragment) = fragments := by
  induction fragments with
  | nil => rfl
  | cons fragment fragments ih => rw [List.mapIdx_cons, ih]

/-- The fragments with everything before a place cut off. -/
def cutBefore (starts ends : List ℕ) (stop : ℕ) (fragments : List (List α)) : List (List α) :=
  fragments.mapIdx fun k fragment =>
    if k < ends.findIdx (stop ≤ ·) then []
    else if k = ends.findIdx (stop ≤ ·) then
      fragment.drop (stop - starts.getD (ends.findIdx (stop ≤ ·)) 0)
    else fragment

theorem owned_cutBefore {stop : ℕ} (hintact : Intact limit position originals fragments)
    (hlength : fragments.length = items.length) (hposition : position < stop) (hstop : stop ≤ limit)
    (hend : stop ≤ position + (originals.map List.length).sum) :
    owned (retoken (cutBefore (fragmentStarts position originals) (fragmentEnds position originals)
      stop fragments) items) = (owned (retoken fragments items)).drop (stop - position) := by
  induction originals generalizing position fragments items with
  | nil =>
      simp only [List.map_nil, List.sum_nil, Nat.add_zero] at hend
      omega
  | cons original originals ih =>
      cases fragments with
      | nil => cases hintact
      | cons fragment fragments =>
          cases items with
          | nil => cases hlength
          | cons item items =>
              obtain ⟨hsame, hlong, hrest⟩ := hintact
              rw [List.map_cons, List.sum_cons, ← Nat.add_assoc] at hend
              unfold cutBefore fragmentStarts fragmentEnds
              rw [List.findIdx_cons, List.mapIdx_cons, retoken_cons, retoken_cons, owned_cons,
                owned_cons]
              by_cases hhere : stop ≤ position + original.length
              · have hfits : stop - position ≤ fragment.length := by
                  rcases Nat.lt_or_ge limit (position + original.length) with hlimit | hlimit
                  · have hle := hlong hlimit
                    omega
                  · rw [hsame hlimit]
                    omega
                simp only [hhere, decide_true, cond_true, Nat.not_lt_zero, if_false, if_true,
                  List.getD_cons_zero, Nat.succ_ne_zero, mapIdx_const]
                rw [List.drop_append_of_le_length (by rwa [List.length_map]), ← List.map_drop]
              · have hfragment := hsame (by omega)
                simp only [hhere, decide_false, cond_false, Nat.zero_lt_succ, if_true, List.map_nil,
                  List.nil_append, Nat.add_lt_add_iff_right, Nat.add_right_cancel_iff,
                  List.getD_cons_succ]
                rw [List.drop_append, List.length_map, hfragment, List.drop_eq_nil_of_le (by
                  rw [List.length_map]; omega), List.nil_append, Nat.sub_sub]
                exact ih hrest (Nat.succ.inj hlength) (by omega) hend

variable [Glyph α] {m : PiiMatch}

/-- A match replaces its span by one marker, and leaves what is before it alone. -/
theorem owned_applyMatch (hintact : Intact limit position originals fragments)
    (hlength : fragments.length = items.length) (hspan : m.start < m.stop)
    (hposition : position ≤ m.start) (hstop : m.stop ≤ limit)
    (hend : m.stop ≤ position + (originals.map List.length).sum) :
    (∃ index, owned (retoken (applyMatch (fragmentStarts position originals)
        (fragmentEnds position originals) m fragments) items) =
      (owned (retoken fragments items)).take (m.start - position) ++
        (placeholder m.label).map (·, index) ++
        (owned (retoken fragments items)).drop (m.stop - position)) ∧
    Intact m.start position originals (applyMatch (fragmentStarts position originals)
      (fragmentEnds position originals) m fragments) := by
  induction originals generalizing position fragments items with
  | nil =>
      simp only [List.map_nil, List.sum_nil, Nat.add_zero] at hend
      omega
  | cons original originals ih =>
      cases fragments with
      | nil => cases hintact
      | cons fragment fragments =>
          cases items with
          | nil => cases hlength
          | cons item items =>
              obtain ⟨hsame, hlong, hrest⟩ := hintact
              rw [List.map_cons, List.sum_cons, ← Nat.add_assoc] at hend
              unfold applyMatch fragmentStarts fragmentEnds
              dsimp only
              rw [List.findIdx_cons, List.findIdx_cons, List.mapIdx_cons, retoken_cons,
                retoken_cons, owned_cons, owned_cons]
              by_cases hstarts : m.start < position + original.length
              · by_cases hstops : m.stop ≤ position + original.length
                · -- The span lies in the first fragment.
                  have hfits : m.stop - position ≤ fragment.length := by
                    rcases Nat.lt_or_ge limit (position + original.length) with hlimit | hlimit
                    · have hle := hlong hlimit
                      omega
                    · rw [hsame hlimit]
                      omega
                  simp only [hstarts, hstops, decide_true, cond_true, if_true, Nat.succ_ne_zero,
                    if_false, Nat.not_lt_zero, and_false, List.getD_cons_zero, mapIdx_const]
                  refine ⟨⟨item.index, ?_⟩, fun _ => by omega, fun _ => ?_, intact_of_lt hstarts
                    hrest.length_eq⟩
                  · rw [List.take_append_of_le_length (by rw [List.length_map]; omega),
                      List.drop_append_of_le_length (by rwa [List.length_map]), ← List.map_take,
                      ← List.map_drop, List.map_append, List.map_append, List.append_assoc,
                      List.append_assoc]
                  · rw [List.length_append, List.length_append, List.length_take]
                    omega
                · -- It reaches into later ones, which lose what it covers.
                  have hfragment := hsame (by omega)
                  have hgone : (fragment.map (·, item.index)).drop (m.stop - position) = [] := by
                    rw [List.drop_eq_nil_iff, List.length_map]
                    omega
                  have hcut := owned_cutBefore hrest (Nat.succ.inj hlength) (by omega) hstop hend
                  unfold cutBefore at hcut
                  simp only [hstarts, hstops, decide_true, decide_false, cond_true, cond_false,
                    if_true, Nat.succ_ne_zero, if_false, Nat.zero_ne_add_one, Nat.zero_lt_succ,
                    true_and, Nat.add_lt_add_iff_right, Nat.add_right_cancel_iff,
                    List.getD_cons_zero, List.getD_cons_succ]
                  refine ⟨⟨item.index, ?_⟩, fun _ => by omega, fun _ => ?_, intact_of_lt hstarts ?_⟩
                  · rw [hcut, List.take_append_of_le_length (by rw [List.length_map]; omega),
                      List.drop_append, List.length_map, hgone, hfragment, List.nil_append,
                      Nat.sub_sub, ← List.map_take, List.map_append]
                  · rw [List.length_append, List.length_take]
                    omega
                  · rw [List.length_mapIdx, hrest.length_eq]
              · have hstops : ¬m.stop ≤ position + original.length := by omega
                have hfragment := hsame (by omega)
                have hbefore : (fragment.map (·, item.index)).take (m.start - position) =
                    fragment.map (·, item.index) :=
                  List.take_of_length_le (by rw [List.length_map]; omega)
                have hgone : (fragment.map (·, item.index)).drop (m.stop - position) = [] := by
                  rw [List.drop_eq_nil_iff, List.length_map]
                  omega
                obtain ⟨⟨index, happlied⟩, hintact'⟩ :=
                  ih hrest (Nat.succ.inj hlength) (Nat.not_lt.mp hstarts) hend
                unfold applyMatch at happlied hintact'
                dsimp only at happlied hintact'
                simp only [hstarts, hstops, decide_false, cond_false, if_false, Nat.zero_ne_add_one,
                  Nat.not_lt_zero, false_and, Nat.add_lt_add_iff_right, Nat.add_right_cancel_iff,
                  List.getD_cons_succ]
                refine ⟨⟨index, ?_⟩, fun _ => hfragment, fun hlt => by omega, hintact'⟩
                rw [happlied, List.take_append, List.drop_append, hbefore, hgone, List.length_map,
                  hfragment, List.nil_append, Nat.sub_sub, Nat.sub_sub, List.append_assoc,
                  List.append_assoc, List.append_assoc]

/-! ## All matches -/

/-- A sequence of parts, with what it shows and what it stands for. -/
structure Pieces (pieces : List (Piece α)) (shown original : List (α × ℕ)) (found : List PiiMatch) :
    Prop where
  shown : pieces.flatMap Piece.shown = shown
  original : pieces.flatMap Piece.original = original
  reported : pieces.filterMap Piece.reported = found
  honest : ∀ piece ∈ pieces, piece.Honest

theorem pieces_plain (cs : List (α × ℕ)) : Pieces (cs.map Piece.plain) cs cs [] := by
  constructor
  · rw [List.flatMap_map]
    exact List.flatMap_singleton' cs
  · rw [List.flatMap_map]
    exact List.flatMap_singleton' cs
  · rw [List.filterMap_map]
    exact List.filterMap_eq_nil_iff.mpr fun _ _ => rfl
  · intro piece hpiece
    obtain ⟨c, -, rfl⟩ := List.mem_map.mp hpiece
    trivial

theorem pieces_marker {index : ℕ} {span : List (α × ℕ)} (h : (Piece.marker m index span).Honest) :
    Pieces [.marker m index span] ((placeholder m.label).map (·, index)) span [m] := by
  refine ⟨List.append_nil _, List.append_nil _, rfl, ?_⟩
  intro piece hpiece
  rwa [List.mem_singleton.mp hpiece]

theorem Pieces.append {left right : List (Piece α)} {shown shown' original original' : List (α × ℕ)}
    {found found' : List PiiMatch} (hleft : Pieces left shown original found)
    (hright : Pieces right shown' original' found') :
    Pieces (left ++ right) (shown ++ shown') (original ++ original') (found ++ found') := by
  constructor
  · rw [List.flatMap_append, hleft.shown, hright.shown]
  · rw [List.flatMap_append, hleft.original, hright.original]
  · rw [List.filterMap_append, hleft.reported, hright.reported]
  · intro piece hpiece
    rcases List.mem_append.mp hpiece with hmem | hmem
    · exact hleft.honest piece hmem
    · exact hright.honest piece hmem

/-- What the matches report of a text. -/
def ReportedIn (ms : List PiiMatch) (t : Text) : Prop :=
  ∀ m ∈ ms, m.Inside t ∧ m.value = slice t m.start m.stop

/-- Applying matches from the last to the first leaves a sequence of parts. -/
theorem pieces_applyMatches {ms applied : List PiiMatch} {front back : List (α × ℕ)}
    (hms : ReportedIn ms (points (joined items)))
    (hintact : Intact limit 0 (items.map BufferedToken.token) fragments)
    (hfront : front <+: owned items) (hlimit : ∀ m ∈ ms, m.stop ≤ limit → m.stop ≤ front.length)
    (howned : owned (retoken fragments items) = front ++ back) :
    ∃ pieces found,
      (applyMatches (fragmentStarts 0 (items.map BufferedToken.token))
        (fragmentEnds 0 (items.map BufferedToken.token)) limit ms fragments applied).2 =
          found ++ applied ∧
      owned (retoken (applyMatches (fragmentStarts 0 (items.map BufferedToken.token))
        (fragmentEnds 0 (items.map BufferedToken.token)) limit ms fragments applied).1 items) =
          pieces.flatMap Piece.shown ++ back ∧
      Pieces pieces (pieces.flatMap Piece.shown) front found := by
  induction ms generalizing limit fragments front back applied with
  | nil =>
      have hplain := pieces_plain front
      exact ⟨_, [], rfl, by rw [hplain.shown]; exact howned, by rw [hplain.shown]; exact hplain⟩
  | cons m ms ih =>
      have hrest : ReportedIn ms (points (joined items)) := fun m' hm' =>
        hms m' (List.mem_cons_of_mem m hm')
      have hlimit' : ∀ m' ∈ ms, m'.stop ≤ limit → m'.stop ≤ front.length := fun m' hm' =>
        hlimit m' (List.mem_cons_of_mem m hm')
      obtain ⟨⟨hspan, hinside⟩, hvalue⟩ := hms m List.mem_cons_self
      unfold applyMatches
      split_ifs with hskip
      · exact ih hrest hintact hfront hlimit' howned
      · have hstop : m.stop ≤ front.length := hlimit m List.mem_cons_self (Nat.not_lt.mp hskip)
        have htotal : ((items.map BufferedToken.token).map List.length).sum = (joined items).length := by
          rw [joined, List.length_flatMap, List.map_map]
          rfl
        rw [length_points] at hinside
        obtain ⟨⟨index, happlied⟩, hintact'⟩ := @owned_applyMatch _ _ 0 _ _ items _ m hintact
          (by rw [hintact.length_eq, List.length_map]) hspan (Nat.zero_le _) (Nat.not_lt.mp hskip)
          (by rw [htotal]; omega)
        rw [Nat.sub_zero, Nat.sub_zero, howned, List.take_append_of_le_length (by omega),
          List.drop_append_of_le_length hstop, List.append_assoc] at happlied
        have hlength : (front.take m.start).length = m.start := by
          rw [List.length_take]
          omega
        obtain ⟨pieces, found, hfound, hshown, hpieces⟩ := @ih _ _ (m :: applied) _ _ hrest hintact'
          ((List.take_prefix _ _).trans hfront) (fun m' _ hle => hle.trans_eq hlength.symm) happlied
        -- The span of the match lies between what is left to do and what is done.
        have hmarker : (Piece.marker m index ((front.take m.stop).drop m.start)).Honest := by
          refine .inl ?_
          have htake : (front.take m.stop).map Prod.fst = (joined items).take m.stop := by
            obtain ⟨rest, hrest⟩ := hfront
            rw [← map_fst_owned items, ← hrest, List.map_append, List.map_take,
              List.take_append_of_le_length (by rwa [List.length_map])]
          rw [hvalue, slice, List.map_drop, htake, points_drop, points_take]
        have hall := (hpieces.append (pieces_marker hmarker)).append
          (pieces_plain (front.drop m.stop))
        have hsplit : front.take m.start ++ (front.take m.stop).drop m.start ++ front.drop m.stop =
            front := by
          have hinner : front.take m.start ++ (front.take m.stop).drop m.start = front.take m.stop := by
            conv_rhs => rw [← List.take_append_drop m.start (front.take m.stop), List.take_take,
              Nat.min_eq_left (Nat.le_of_lt hspan)]
          rw [hinner, List.take_append_drop]
        rw [hsplit, List.append_nil] at hall
        refine ⟨_, _, ?_, ?_, hall.shown.symm ▸ hall⟩
        · rw [hfound, List.append_assoc]
          rfl
        · rw [hshown, hall.shown]
          simp only [List.append_assoc]

theorem pieces_redactMatches {found : List PiiMatch}
    (hfound : ReportedIn found (points (joined items))) :
    ∃ pieces, Pieces pieces (owned (redactMatches found items).1) (owned items)
      (redactMatches found items).2 := by
  have hsorted : ReportedIn (byStartReversed found) (points (joined items)) := fun m hm =>
    hfound m (mem_byStartReversed.mp hm)
  have hlimit : ∀ m ∈ byStartReversed found, m.stop ≤ (joined items).length + 1 →
      m.stop ≤ (owned items).length := by
    intro m hm _
    have hinside := (hsorted m hm).1.2
    rwa [length_points, ← map_fst_owned, List.length_map] at hinside
  obtain ⟨pieces, applied, happlied, hshown, hpieces⟩ :=
    @pieces_applyMatches _ _ (items.map BufferedToken.token) items _ _ [] _ [] hsorted
      (intact_self _ _ _) (List.prefix_refl _) hlimit (by rw [retoken_self, List.append_nil])
  unfold redactMatches
  dsimp only
  rw [List.append_nil] at happlied hshown
  refine ⟨pieces, ?_⟩
  rw [owned_filter, happlied]
  exact hshown.symm ▸ hpieces

namespace PiiStreamBuffer
variable {b : PiiStreamBuffer α} {cfg : BufferConfig}

/-- The last thing shown is the marker of an overlong candidate. -/
def EndsOverlong (pieces : List (Piece α)) : Prop :=
  ∃ before m index span, pieces = before ++ [.marker m index span] ∧ m.label = overlongLabel

theorem pieces_withhold (b : PiiStreamBuffer α) :
    ∃ pieces, Pieces pieces (owned b.withhold.1.outputs) (owned b.pending) b.withhold.1.found ∧
      EndsOverlong pieces := by
  let m : PiiMatch := ⟨overlongLabel, 0, (points (joined b.pending)).length, points (joined b.pending)⟩
  let index := (b.pending.head?.map BufferedToken.index).getD 0
  have hhonest : (Piece.marker m index (owned b.pending)).Honest := .inl (by rw [map_fst_owned])
  refine ⟨[.marker m index (owned b.pending)], ?_, [], m, _, _, rfl, rfl⟩
  unfold withhold
  dsimp only
  rw [owned_cons, owned_nil, List.append_nil]
  exact pieces_marker hhonest

/-- A step lets parts go and keeps the rest; it begins to withhold only with a marker. -/
structure Parted (b : PiiStreamBuffer α) (drained : BufferDrain α) (b' : PiiStreamBuffer α)
    (pieces : List (Piece α)) (front : List (α × ℕ)) : Prop where
  parts : Pieces pieces (owned drained.outputs) front drained.found
  balance : front ++ owned b'.pending = owned b.pending
  withheld : b'.suppressRun = b.suppressRun ∨ b'.pending = [] ∧ EndsOverlong pieces

theorem parted_plain {drained : BufferDrain α} {b' : PiiStreamBuffer α} (hfound : drained.found = [])
    (hbalance : owned drained.outputs ++ owned b'.pending = owned b.pending)
    (hsuppress : b'.suppressRun = b.suppressRun) :
    ∃ pieces front, Parted b drained b' pieces front := by
  have hplain := pieces_plain (owned drained.outputs)
  exact ⟨_, _, hfound ▸ hplain, hbalance, .inl hsuppress⟩

theorem parted_withhold (b : PiiStreamBuffer α) :
    ∃ pieces front, Parted b b.withhold.1 b.withhold.2 pieces front := by
  obtain ⟨pieces, hpieces, hends⟩ := pieces_withhold b
  exact ⟨pieces, _, hpieces, List.append_nil _, .inr ⟨rfl, hends⟩⟩

/-- The matches of a buffer lie in what is redacted of it. -/
theorem reported_itemsBefore (cfg : BufferConfig) (b : PiiStreamBuffer α) :
    ReportedIn (scan cfg.engine (points (joined b.pending)) cfg.literals)
      (points (joined (itemsBefore
        (((scan cfg.engine (points (joined b.pending)) cfg.literals).map PiiMatch.stop).foldl max 0)
        0 b.pending))) := by
  intro m hm
  obtain ⟨hspan, hinside⟩ := scan_inside hm
  have hmax : m.stop ≤ ((scan cfg.engine (points (joined b.pending)) cfg.literals).map
      PiiMatch.stop).foldl max 0 := (le_foldl_max 0 _).2 _ (List.mem_map_of_mem hm)
  rw [← map_fst_owned, owned_itemsBefore, Nat.sub_zero, List.map_take, map_fst_owned, points_take]
  refine ⟨⟨hspan, ?_⟩, ?_⟩
  · rw [List.length_take]
    omega
  · rw [scan_value hm, slice, slice, List.take_take, Nat.min_eq_left hmax]

theorem parted_drain (cfg : BufferConfig) (b : PiiStreamBuffer α) (force : Bool) :
    ∃ pieces front, Parted b (b.drain cfg force).1 (b.drain cfg force).2 pieces front := by
  unfold drain
  dsimp only
  split_ifs with hheld hfits hfound hforce hforce hlong
  · exact parted_plain rfl rfl rfl
  · exact parted_withhold b
  · obtain ⟨pieces, hpieces⟩ := pieces_redactMatches (reported_itemsBefore cfg b)
    have hrest := pieces_plain (owned (itemsAfter
      (((scan cfg.engine (points (joined b.pending)) cfg.literals).map PiiMatch.stop).foldl max 0)
      0 b.pending))
    have hall := hpieces.append hrest
    rw [List.append_nil, ← owned_append] at hall
    refine ⟨_, _, hall, ?_, .inl rfl⟩
    rw [owned_nil, List.append_nil, owned_itemsBefore, owned_itemsAfter, List.take_append_drop]
  · obtain ⟨pieces, hpieces⟩ := pieces_redactMatches (reported_itemsBefore cfg b)
    refine ⟨pieces, _, hpieces, ?_, .inl rfl⟩
    rw [owned_itemsBefore, owned_itemsAfter, List.take_append_drop]
  · exact parted_plain rfl (List.append_nil _) rfl
  · split
    · split_ifs
      · exact parted_plain rfl (owned_releasePrefix _ _) rfl
      · exact parted_withhold b
    · exact parted_withhold b
  · exact parted_plain rfl rfl rfl

/-! ## A run -/

/-- What was pushed, each token under its index. -/
def pushed (tokens : List (List α)) : List (BufferedToken α) :=
  tokens.zipIdx.map fun (token, index) => ⟨token, index⟩

omit [Glyph α] in
theorem owned_pushed_concat (tokens : List (List α)) (token : List α) :
    owned (pushed (tokens ++ [token])) =
      owned (pushed tokens) ++ token.map (·, tokens.length) := by
  unfold pushed
  rw [List.zipIdx_append, List.map_append, owned_append]
  simp

/-- The matches that several pushes report. -/
def reportAll (cfg : BufferConfig) (b : PiiStreamBuffer α) : List (List α) → List PiiMatch
  | [] => []
  | token :: tokens => (b.push cfg token).1.found ++ reportAll cfg (b.push cfg token).2 tokens

/-- The matches that a whole stream reports. -/
def allReported (cfg : BufferConfig) (tokens : List (List α)) : List PiiMatch :=
  init.reportAll cfg tokens ++ ((init.pushAll cfg tokens).2.finish cfg).1.found

/-- What was pushed is what was let go and what is still held. -/
structure Conserved (tokens : List (List α)) (outputs : List (BufferedToken α))
    (found : List PiiMatch) (b : PiiStreamBuffer α) (pieces : List (Piece α))
    (front : List (α × ℕ)) : Prop where
  parts : Pieces pieces (owned outputs) front found
  balance : front ++ owned b.pending = owned (pushed tokens)
  withheld : b.suppressRun = true → b.pending = [] ∧ EndsOverlong pieces
  next : b.nextIndex = tokens.length

theorem conserved_init : Conserved [] [] [] (init : PiiStreamBuffer α) [] [] :=
  ⟨⟨rfl, rfl, rfl, List.forall_mem_nil _⟩, rfl, fun h => Bool.noConfusion h, rfl⟩

/-- The marker of an overlong candidate also stands for what is swallowed after it. -/
theorem pieces_swallow {pieces : List (Piece α)} {shown original : List (α × ℕ)}
    {found : List PiiMatch} (h : Pieces pieces shown original found) (hends : EndsOverlong pieces)
    (cs : List (α × ℕ)) :
    ∃ pieces', Pieces pieces' shown (original ++ cs) found ∧ EndsOverlong pieces' := by
  obtain ⟨before, m, index, span, rfl, hlabel⟩ := hends
  refine ⟨before ++ [.marker m index (span ++ cs)], ⟨?_, ?_, ?_, ?_⟩, before, m, index, _, rfl,
    hlabel⟩
  · rw [← h.shown, List.flatMap_append, List.flatMap_append]
    rfl
  · rw [← h.original, List.flatMap_append, List.flatMap_append]
    simp [Piece.original]
  · rw [← h.reported, List.filterMap_append, List.filterMap_append]
    rfl
  · intro piece hpiece
    rcases List.mem_append.mp hpiece with hmem | hmem
    · exact h.honest piece (List.mem_append_left _ hmem)
    · rw [List.mem_singleton.mp hmem]
      refine .inr ⟨hlabel, ?_⟩
      rw [List.map_append, points_append]
      have hlast := h.honest _ (List.mem_append_right before List.mem_cons_self)
      rcases hlast with hsame | ⟨-, hinitial⟩
      · rw [← hsame]
        exact List.prefix_append _ _
      · exact hinitial.trans (List.prefix_append _ _)

theorem conserved_push {tokens : List (List α)} {outputs : List (BufferedToken α)}
    {found : List PiiMatch} {pieces : List (Piece α)} {front : List (α × ℕ)}
    (h : Conserved tokens outputs found b pieces front) (token : List α) :
    ∃ pieces' front', Conserved (tokens ++ [token]) (outputs ++ (b.push cfg token).1.outputs)
      (found ++ (b.push cfg token).1.found) (b.push cfg token).2 pieces' front' := by
  have hpushed := owned_pushed_concat tokens token
  have hnext : b.nextIndex + 1 = (tokens ++ [token]).length := by
    rw [h.next, List.length_append, List.length_singleton]
  rw [push_eq]
  cases haccepted : b.accepted token with
  | none =>
      -- The whole token belongs to a candidate that is being withheld.
      have hsuppress : b.suppressRun = true := by
        unfold accepted at haccepted
        split_ifs at haccepted with hsuppress
        exact hsuppress
      obtain ⟨hempty, hends⟩ := h.withheld hsuppress
      obtain ⟨pieces', hpieces, hends'⟩ := pieces_swallow h.parts hends (token.map (·, tokens.length))
      have hbalance := h.balance
      rw [hempty, owned_nil, List.append_nil] at hbalance
      refine ⟨pieces', front ++ token.map (·, tokens.length), ?_, ?_, fun _ => ⟨hempty, hends'⟩,
        hnext⟩
      · rw [List.append_nil, List.append_nil]
        exact hpieces
      · show _ ++ owned b.pending = _
        rw [hempty, owned_nil, List.append_nil, hpushed, hbalance]
  | some rest =>
      obtain ⟨swallowed, hsplit, hswallowed⟩ : ∃ swallowed, token = swallowed ++ rest ∧
          (swallowed = [] ∨ b.suppressRun = true) := by
        unfold accepted at haccepted
        split_ifs at haccepted with hsuppress
        · obtain ⟨boundary, -, rfl⟩ := Option.map_eq_some_iff.mp haccepted
          exact ⟨_, (List.take_append_drop boundary token).symm, .inr hsuppress⟩
        · cases haccepted
          exact ⟨[], rfl, .inl rfl⟩
      obtain ⟨pieces₁, front₁, hpieces₁, hbalance₁⟩ : ∃ pieces₁ front₁,
          Pieces pieces₁ (owned outputs) front₁ found ∧ front₁ ++ owned b.pending =
            owned (pushed tokens) ++ swallowed.map (·, tokens.length) := by
        rcases hswallowed with rfl | hsuppress
        · exact ⟨pieces, front, h.parts, by rw [h.balance, List.map_nil, List.append_nil]⟩
        · obtain ⟨hempty, hends⟩ := h.withheld hsuppress
          obtain ⟨pieces', hpieces, -⟩ := pieces_swallow h.parts hends (swallowed.map (·, tokens.length))
          have hbalance := h.balance
          rw [hempty, owned_nil, List.append_nil] at hbalance
          refine ⟨pieces', front ++ swallowed.map (·, tokens.length), hpieces, ?_⟩
          rw [hempty, owned_nil, List.append_nil, hbalance]
      obtain ⟨pieces₂, front₂, hparted⟩ := parted_drain cfg (b.entered rest) false
      obtain ⟨-, hindex⟩ := from_drain cfg (b.entered rest) false
      refine ⟨pieces₁ ++ pieces₂, front₁ ++ front₂, ?_, ?_, ?_, hindex.trans hnext⟩
      · rw [owned_append]
        exact hpieces₁.append hparted.parts
      · rw [List.append_assoc, hparted.balance]
        show front₁ ++ owned (b.pending ++ [⟨rest, b.nextIndex⟩]) = _
        rw [owned_append, ← List.append_assoc, hbalance₁, hpushed, hsplit, List.map_append, h.next]
        simp
      · intro hsuppress
        rcases hparted.withheld with hsame | ⟨hempty, before, m, index, span, rfl, hlabel⟩
        · rw [hsame] at hsuppress
          cases hsuppress
        · exact ⟨hempty, pieces₁ ++ before, m, index, span, (List.append_assoc _ _ _).symm, hlabel⟩

theorem conserved_pushAll {before : List (List α)} {outputs : List (BufferedToken α)}
    {found : List PiiMatch} {pieces : List (Piece α)} {front : List (α × ℕ)}
    (h : Conserved before outputs found b pieces front) (tokens : List (List α)) :
    ∃ pieces' front', Conserved (before ++ tokens) (outputs ++ (b.pushAll cfg tokens).1)
      (found ++ b.reportAll cfg tokens) (b.pushAll cfg tokens).2 pieces' front' := by
  induction tokens generalizing b before outputs found pieces front with
  | nil =>
      refine ⟨pieces, front, ?_⟩
      simpa [pushAll, reportAll] using h
  | cons token tokens ih =>
      obtain ⟨pieces', front', hpush⟩ := @conserved_push _ _ b cfg _ _ _ _ _ h token
      obtain ⟨pieces'', front'', hall⟩ := ih hpush
      refine ⟨pieces'', front'', ?_⟩
      simpa [pushAll, reportAll, List.append_assoc] using hall

omit [Glyph α] in
theorem Drained.trans {b₁ b₂ : PiiStreamBuffer α} {outputs outputs' : List (BufferedToken α)}
    (h : Drained b outputs b₁) (h' : Drained b₁ outputs' b₂) (hnext : b₁.nextIndex ≤ b₂.nextIndex) :
    Drained b (outputs ++ outputs') b₂ := by
  constructor
  · exact h'.ordered
  · rw [List.map_append, List.pairwise_append]
    refine ⟨h.sorted, h'.sorted, ?_⟩
    intro i hi j hj
    obtain ⟨o, ho, rfl⟩ := List.mem_map.mp hi
    obtain ⟨o', ho', rfl⟩ := List.mem_map.mp hj
    exact (h.within o ho).2.1.trans (h'.within o' ho').1
  · intro o ho
    rcases List.mem_append.mp ho with hleft | hright
    · obtain ⟨hlow, hhigh, hindex⟩ := h.within o hleft
      exact ⟨hlow, hhigh.trans h'.low_le, hindex.trans_le hnext⟩
    · obtain ⟨hlow, hhigh, hindex⟩ := h'.within o hright
      exact ⟨h.low_le.trans hlow, hhigh, hindex⟩
  · exact h.low_le.trans h'.low_le

theorem drained_pushAll (cfg : BufferConfig) (h : b.Ordered) (tokens : List (List α)) :
    Drained b (b.pushAll cfg tokens).1 (b.pushAll cfg tokens).2 ∧
      b.nextIndex ≤ (b.pushAll cfg tokens).2.nextIndex := by
  induction tokens generalizing b with
  | nil => exact ⟨⟨h, List.Pairwise.nil, List.forall_mem_nil _, Nat.le_refl _⟩, Nat.le_refl _⟩
  | cons token tokens ih =>
      obtain ⟨hpush, hnext⟩ := drained_push cfg h token
      obtain ⟨hrest, hlater⟩ := ih hpush.ordered
      exact ⟨hpush.trans hrest hlater, by simp only [pushAll]; omega⟩

/-- A stream from here to its end. -/
theorem drained_rest (cfg : BufferConfig) (h : b.Ordered) (tokens : List (List α)) :
    Drained b ((b.pushAll cfg tokens).1 ++ ((b.pushAll cfg tokens).2.finish cfg).1.outputs)
      ((b.pushAll cfg tokens).2.finish cfg).2 := by
  obtain ⟨hpushed, -⟩ := drained_pushAll cfg h tokens
  obtain ⟨hfinish, hnext⟩ := drained_finish cfg hpushed.ordered
  exact hpushed.trans hfinish hnext.ge

/-- What a point of a run says of the text pushed before it and of what comes later:
what `released_through` counts is out, and does not come again. -/
structure Attributed (cfg : BufferConfig) (before after : List (List α)) : Prop where
  out : ∃ pieces front rest, Pieces pieces (owned (init.pushAll cfg before).1) front
      (init.reportAll cfg before) ∧ front ++ rest = owned (pushed before) ∧
    ∀ c ∈ rest, (init.pushAll cfg before).2.releasedThrough < c.2
  later : ∀ o ∈ ((init.pushAll cfg before).2.pushAll cfg after).1 ++
      (((init.pushAll cfg before).2.pushAll cfg after).2.finish cfg).1.outputs,
    (init.pushAll cfg before).2.releasedThrough < o.index

theorem attributed (cfg : BufferConfig) (before after : List (List α)) :
    Attributed cfg before after := by
  have hordered := (drained_pushAll cfg (@ordered_init α) before).1.ordered
  have hlow := releasedThrough_eq hordered
  constructor
  · obtain ⟨pieces, front, hconserved⟩ := @conserved_pushAll _ _ _ cfg _ _ _ _ _ conserved_init before
    refine ⟨pieces, front, _, hconserved.parts, hconserved.balance, ?_⟩
    intro c hc
    obtain ⟨item, hitem, hmem⟩ := List.mem_flatMap.mp hc
    obtain ⟨_, _, rfl⟩ := List.mem_map.mp hmem
    have hle := low_le_pending hordered item hitem
    dsimp only
    omega
  · intro o ho
    have hle := ((drained_rest cfg hordered after).within o ho).1
    omega

/-- Everything that is pushed comes out once, in order and with its push. -/
theorem buffer_conserves (cfg : BufferConfig) (tokens : List (List α)) :
    ((released cfg tokens).map BufferedToken.index).Pairwise (· ≤ ·) ∧
      (∃ pieces, Pieces pieces (owned (released cfg tokens)) (owned (pushed tokens))
        (allReported cfg tokens)) ∧
      ∀ before after, before ++ after = tokens → Attributed cfg before after := by
  refine ⟨(drained_rest cfg ordered_init tokens).sorted, ?_, fun before after _ =>
    attributed cfg before after⟩
  obtain ⟨pieces, front, hconserved⟩ := @conserved_pushAll _ _ _ cfg _ _ _ _ _ conserved_init tokens
  obtain ⟨pieces', front', hparted⟩ := parted_drain cfg (init.pushAll cfg tokens).2 true
  have hfront : front' = owned (init.pushAll cfg tokens).2.pending := by
    rw [← hparted.balance, show (drain cfg _ true).2.pending = [] from finish_pending, owned_nil,
      List.append_nil]
  refine ⟨pieces ++ pieces', ?_⟩
  have hall := hconserved.parts.append hparted.parts
  rw [hfront, hconserved.balance, ← owned_append] at hall
  exact hall

end PiiStreamBuffer

end

end BlackMonolith.TraceAudit
