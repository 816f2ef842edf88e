import BlackMonolith.Library.InsertionMap

/-!
# Values that are assembled from pieces

A piece starts the value of a new key, adds to the value of a key that was started, or
concerns no key. Whoever sets and replaces the values of a map piece by piece ends with one
value for each key that was started, made of the pieces that came for it.
-/
namespace BlackMonolith.Library

inductive KeyedPiece (ι σ δ : Type*)
  | start (index : ι) (first : σ)
  | add (index : ι) (more : δ)
  | other

namespace KeyedPiece
variable {ι σ δ β : Type*}

def started? : KeyedPiece ι σ δ → Option (ι × σ)
  | .start index first => some (index, first)
  | _ => none

/-- The keys in the order in which they were started, with what started them. -/
def started (pieces : List (KeyedPiece ι σ δ)) : List (ι × σ) := pieces.filterMap started?

/-- A key is started once, and what is added to it comes later and fits it. -/
def Proper (fits : σ → δ → Prop) : List (ι × σ) → List (KeyedPiece ι σ δ) → Prop
  | _, [] => True
  | used, .start index first :: pieces =>
      index ∉ used.map Prod.fst ∧ Proper fits (used ++ [(index, first)]) pieces
  | used, .add index more :: pieces =>
      (∃ first, (index, first) ∈ used ∧ fits first more) ∧ Proper fits used pieces
  | used, .other :: pieces => Proper fits used pieces

variable {fits : σ → δ → Prop} {used : List (ι × σ)} {pieces : List (KeyedPiece ι σ δ)}

/-- A key that is in use is not started again. -/
theorem Proper.started_fresh (h : Proper fits used pieces) :
    ∀ block ∈ started pieces, block.1 ∉ used.map Prod.fst := by
  induction pieces generalizing used with
  | nil => exact List.forall_mem_nil _
  | cons piece pieces ih =>
      cases piece with
      | start index first =>
          obtain ⟨hfresh, hrest⟩ := h
          intro block hblock
          rcases List.mem_cons.mp hblock with rfl | hlater
          · exact hfresh
          · intro hused
            apply ih hrest block hlater
            rw [List.map_append]
            exact List.mem_append_left _ hused
      | add index more => exact ih h.2
      | other => exact ih h

theorem Proper.nodup (h : Proper fits used pieces) (hused : (used.map Prod.fst).Nodup) :
    ((used ++ started pieces).map Prod.fst).Nodup := by
  induction pieces generalizing used with
  | nil =>
      rw [started, List.filterMap_nil, List.append_nil]
      exact hused
  | cons piece pieces ih =>
      cases piece with
      | start index first =>
          have hmore : ((used ++ [(index, first)]).map Prod.fst).Nodup := by
            rw [List.map_append, List.map_singleton, ← List.concat_eq_append]
            exact hused.concat h.1
          have hall := ih h.2 hmore
          rw [List.append_assoc, List.singleton_append] at hall
          exact hall
      | add index more => exact ih h.2 hused
      | other => exact ih h hused

variable [DecidableEq ι]

def addedTo? (index : ι) : KeyedPiece ι σ δ → Option δ
  | .add i more => if i = index then some more else none
  | _ => none

/-- What was added to a key. -/
def addedTo (index : ι) (pieces : List (KeyedPiece ι σ δ)) : List δ :=
  pieces.filterMap (addedTo? index)

/-- What is added to a key fits what started it. -/
theorem Proper.fits_added (h : Proper fits used pieces) (hused : (used.map Prod.fst).Nodup) :
    ∀ block ∈ used ++ started pieces, ∀ more ∈ addedTo block.1 pieces, fits block.2 more := by
  induction pieces generalizing used with
  | nil => exact fun _ _ => List.forall_mem_nil _
  | cons piece pieces ih =>
      cases piece with
      | start index first =>
          have hmore : ((used ++ [(index, first)]).map Prod.fst).Nodup := by
            rw [List.map_append, List.map_singleton, ← List.concat_eq_append]
            exact hused.concat h.1
          have hall := ih h.2 hmore
          rw [List.append_assoc, List.singleton_append] at hall
          exact hall
      | add index more =>
          obtain ⟨⟨first, hfirst, hfit⟩, hrest⟩ := h
          intro block hblock d hd
          rw [addedTo, List.filterMap_cons, addedTo?] at hd
          by_cases hkey : index = block.1
          · rw [if_pos hkey] at hd
            rcases List.mem_cons.mp hd with rfl | hlater
            · -- The keys differ, so the block is the one that was started under this key.
              have hsame : block = (index, first) :=
                List.inj_on_of_nodup_map (hrest.nodup hused) hblock
                  (List.mem_append_left _ hfirst) hkey.symm
              rw [hsame]
              exact hfit
            · exact ih hrest hused block hblock d hlater
          · rw [if_neg hkey] at hd
            exact ih hrest hused block hblock d hd
      | other => exact ih h hused

section
variable {step : InsertionMap ι β → KeyedPiece ι σ δ → InsertionMap ι β} {init : σ → β}
  {extend : β → δ → β} {m : InsertionMap ι β}

theorem entries_set_of_some {k : ι} {b b' : β} (h : m.get? k = some b) :
    (m.set k b').entries = m.entries.map fun e => if k = e.1 then (e.1, b') else e := by
  have hset : ∀ es : List (ι × β), (es.map Prod.fst).Nodup → k ∈ es.map Prod.fst →
      InsertionMap.setIn k b' es = es.map fun e => if k = e.1 then (e.1, b') else e := by
    intro es
    induction es with
    | nil => exact fun _ hmem => absurd hmem List.not_mem_nil
    | cons e es ih =>
        intro hnodup hmem
        rw [List.map_cons, List.nodup_cons] at hnodup
        rw [InsertionMap.setIn, List.map_cons]
        by_cases hkey : e.1 = k
        · have hrest : es.map (fun e => if k = e.1 then (e.1, b') else e) = es := by
            conv_rhs => rw [← List.map_id es]
            apply List.map_congr_left
            intro f hf
            rw [if_neg]
            · rfl
            · rintro rfl
              exact hnodup.1 (hkey ▸ List.mem_map_of_mem hf)
          rw [if_pos hkey, if_pos hkey.symm, hrest, hkey]
        · have hlater : k ∈ es.map Prod.fst :=
            (List.mem_cons.mp hmem).resolve_left fun heq => hkey heq.symm
          rw [if_neg hkey, if_neg fun heq => hkey heq.symm, ih hnodup.2 hlater]
  apply hset m.entries m.nodup
  have hmem := InsertionMap.get?_eq_some_iff.mp h
  exact List.mem_map_of_mem hmem

/-- What is assembled from pieces. -/
theorem assembled
    (hstart : ∀ m index first, m.get? index = none →
      step m (.start index first) = m.set index (init first))
    (hadd : ∀ m index more b, m.get? index = some b →
      step m (.add index more) = m.set index (extend b more))
    (hother : ∀ m, step m .other = m)
    (h : Proper fits used pieces) (hkeys : m.keys = used.map Prod.fst) :
    (pieces.foldl step m).entries =
      (m.entries.map fun e => (e.1, (addedTo e.1 pieces).foldl extend e.2)) ++
        (started pieces).map fun e => (e.1, (addedTo e.1 pieces).foldl extend (init e.2)) := by
  induction pieces generalizing used m with
  | nil =>
      rw [started, List.filterMap_nil, List.map_nil, List.append_nil]
      exact (List.map_id m.entries).symm
  | cons piece pieces ih =>
      rw [List.foldl_cons]
      cases piece with
      | start index first =>
          obtain ⟨hfresh, hrest⟩ := h
          rw [← hkeys] at hfresh
          have hentries : (m.set index (init first)).entries = m.entries ++ [(index, init first)] :=
            InsertionMap.setIn_of_notMem hfresh
          have hnext :
              (m.set index (init first)).keys = (used ++ [(index, first)]).map Prod.fst := by
            rw [InsertionMap.keys, hentries, List.map_append, List.map_append, ← hkeys]
            rfl
          rw [hstart m index first (InsertionMap.get?_eq_none_iff.mpr hfresh), ih hrest hnext,
            hentries, List.map_append, List.append_assoc]
          rfl
      | add index more =>
          obtain ⟨⟨first, hfirst, -⟩, hrest⟩ := h
          have hmem : index ∈ m.keys := by
            rw [hkeys]
            exact List.mem_map_of_mem hfirst
          obtain ⟨b, hb⟩ := Option.ne_none_iff_exists'.mp
            fun hnone => InsertionMap.get?_eq_none_iff.mp hnone hmem
          have hentries := @entries_set_of_some ι β _ m index b (extend b more) hb
          have hnext : (m.set index (extend b more)).keys = used.map Prod.fst := by
            rw [← hkeys, InsertionMap.keys, hentries, List.map_map, InsertionMap.keys]
            apply List.map_congr_left
            intro e _
            dsimp only [Function.comp_apply]
            split_ifs
            · rfl
            · rfl
          rw [hadd m index more b hb, ih hrest hnext, hentries, List.map_map]
          congr 1
          · apply List.map_congr_left
            intro e he
            dsimp only [Function.comp_apply]
            rw [addedTo, addedTo, List.filterMap_cons, addedTo?]
            by_cases hkey : index = e.1
            · have hvalue : e.2 = b := by
                have hget : m.get? e.1 = some e.2 := InsertionMap.get?_eq_some_iff.mpr he
                rw [← hkey, hb] at hget
                exact (Option.some.inj hget).symm
              rw [if_pos hkey, if_pos hkey, List.foldl_cons, hvalue]
            · rw [if_neg hkey, if_neg hkey]
          · apply List.map_congr_left
            intro e he
            have hne : index ≠ e.1 := by
              rintro rfl
              exact hrest.started_fresh e he (hkeys ▸ hmem)
            rw [addedTo, addedTo, List.filterMap_cons, addedTo?, if_neg hne]
      | other =>
          rw [hother, ih h hkeys]
          rfl

end

end KeyedPiece

/-- Where one reading of a list has its results, another one has related results. -/
theorem exists_mapM_forall₂ {α β : Type} {f g : α → Option β} {R : β → β → Prop} {P : α → Prop}
    {as : List α} {xs : List β}
    (h : ∀ a ∈ as, ∀ x, g a = some x → ∃ y, f a = some y ∧ (R y x ↔ P a))
    (hg : as.mapM g = some xs) :
    ∃ ys, as.mapM f = some ys ∧ (List.Forall₂ R ys xs ↔ ∀ a ∈ as, P a) := by
  induction as generalizing xs with
  | nil =>
      cases hg
      exact ⟨[], rfl, fun _ => List.forall_mem_nil _, fun _ => .nil⟩
  | cons a as ih =>
      obtain ⟨hfirst, hrest⟩ := List.forall_mem_cons.mp h
      rw [List.mapM_cons] at hg
      obtain ⟨x, hx, hmore⟩ := Option.bind_eq_some_iff.mp hg
      obtain ⟨xs, hxs, heq⟩ := Option.bind_eq_some_iff.mp hmore
      cases heq
      obtain ⟨y, hy, hiff⟩ := hfirst x hx
      obtain ⟨ys, hys, hiffs⟩ := ih hrest hxs
      refine ⟨y :: ys, ?_, ?_⟩
      · rw [List.mapM_cons, hy, hys]
        rfl
      · rw [List.forall₂_cons, List.forall_mem_cons, hiff, hiffs]

end BlackMonolith.Library
