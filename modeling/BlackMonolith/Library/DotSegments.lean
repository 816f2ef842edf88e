import Mathlib.Data.List.Infix

/-!
# Paths and their dot segments

A path is the list of its segments with slashes between them. Resolving it leaves
out every segment that is one dot and goes back one segment at every two dots;
such a segment at the end leaves an empty one. The first segment, before the first
slash, is not resolved. A path without two dots stays below every initial part.
-/
namespace BlackMonolith.Library.DotSegments
variable {α : Type} [DecidableEq α] (slash dot : α)

/-- The segments after those resolved so far. -/
def resolveAfter : List (List α) → List (List α) → List (List α)
  | resolved, [] => resolved
  | resolved, segment :: segments =>
      if segment = [dot] then
        if segments = [] then resolved ++ [[]] else resolveAfter resolved segments
      else if segment = [dot, dot] then
        if segments = [] then resolved.dropLast ++ [[]]
        else resolveAfter resolved.dropLast segments
      else resolveAfter (resolved ++ [segment]) segments

def join (segments : List (List α)) : List α := [slash].intercalate segments

def resolve (path : List α) : List α :=
  match path.splitOn slash with
  | [] => []
  | root :: segments => join slash (root :: resolveAfter dot [] segments)

/-- The path with its one-dot segments left out. -/
def withoutDots (path : List α) : List α :=
  match path.splitOn slash with
  | [] => []
  | root :: segments => join slash (root :: segments.filter (· ≠ [dot]))

/-- The path is the prefix, or continues it after a slash. -/
def Under (front path : List α) : Prop := path = front ∨ front ++ [slash] <+: path

instance (front path : List α) : Decidable (Under slash front path) :=
  inferInstanceAs (Decidable (_ ∨ _))

example : resolve '/' '.' "/a/./b/../c/.".toList = "/a/c/".toList := by decide

variable {slash dot}

theorem resolveAfter_prefix {resolved segments : List (List α)} (h : [dot, dot] ∉ segments) :
    resolved <+: resolveAfter dot resolved segments := by
  induction segments generalizing resolved with
  | nil => exact List.prefix_refl _
  | cons segment segments ih =>
      obtain ⟨hne, hrest⟩ := not_or.mp (List.mem_cons.not.mp h)
      rw [resolveAfter, if_neg (Ne.symm hne)]
      split_ifs
      · exact List.prefix_append _ _
      · exact ih hrest
      · exact (List.prefix_append _ _).trans (ih hrest)

/-- Without two dots, what stands first stays first. -/
theorem filter_prefix_resolveAfter {resolved front segments : List (List α)}
    (h : [dot, dot] ∉ front ++ segments) :
    resolved ++ front.filter (· ≠ [dot]) <+: resolveAfter dot resolved (front ++ segments) := by
  induction front generalizing resolved with
  | nil => simpa using resolveAfter_prefix (by simpa using h)
  | cons segment front ih =>
      obtain ⟨hne, hrest⟩ := not_or.mp (List.mem_cons.not.mp h)
      rw [List.cons_append, resolveAfter, if_neg (Ne.symm hne), List.filter_cons]
      by_cases hdot : segment = [dot]
      · rw [if_pos hdot, if_neg (by simp [hdot])]
        split_ifs with hlast
        · obtain ⟨rfl, -⟩ := List.append_eq_nil_iff.mp hlast
          simp
        · exact ih hrest
      · rw [if_neg hdot, if_pos (by simp [hdot])]
        simpa using @ih (resolved ++ [segment]) hrest

omit [DecidableEq α] in
theorem join_append {front rest : List (List α)} (hfront : front ≠ []) (hrest : rest ≠ []) :
    join slash (front ++ rest) = join slash front ++ [slash] ++ join slash rest := by
  induction front with
  | nil => exact absurd rfl hfront
  | cons segment front ih =>
      unfold join at ih ⊢
      cases front with
      | nil =>
          rw [List.singleton_append, List.intercalate_cons_of_ne_nil hrest,
            List.intercalate_singleton, List.append_assoc]
      | cons next front =>
          rw [List.cons_append, List.intercalate_cons_of_ne_nil (by simp),
            List.intercalate_cons_of_ne_nil (List.cons_ne_nil _ _), ih (List.cons_ne_nil _ _)]
          simp only [List.append_assoc]

/-- A segment of a path is a part of it. -/
theorem infix_of_mem_splitOn {path segment : List α} (h : segment ∈ path.splitOn slash) :
    segment <:+: path := by
  have hinside : ∀ segments : List (List α), segment ∈ segments → segment <:+: join slash segments := by
    intro segments hmem
    induction segments with
    | nil => cases hmem
    | cons first segments ih =>
        cases segments with
        | nil =>
            cases List.mem_singleton.mp hmem
            rw [join, List.intercalate_singleton]
        | cons next segments =>
            have hjoin : join slash (first :: next :: segments) =
                first ++ [slash] ++ join slash (next :: segments) := by
              unfold join
              rw [List.intercalate_cons_of_ne_nil (List.cons_ne_nil _ _)]
            rw [hjoin]
            rcases List.mem_cons.mp hmem with rfl | hmem
            · exact ⟨[], [slash] ++ join slash (next :: segments), by simp⟩
            · exact (ih hmem).trans (List.suffix_append _ _).isInfix
  have hpath := hinside _ h
  rwa [join, List.intercalate_splitOn] at hpath

omit [DecidableEq α] in
theorem under_join {front segments : List (List α)} (hne : front ≠ []) (h : front <+: segments) :
    Under slash (join slash front) (join slash segments) := by
  obtain ⟨rest, rfl⟩ := h
  cases rest with
  | nil => exact .inl (by rw [List.append_nil])
  | cons segment rest =>
      exact .inr ⟨join slash (segment :: rest), (join_append hne (List.cons_ne_nil _ _)).symm⟩

theorem splitOn_prefix_of_under {front path : List α} (h : Under slash front path) :
    front.splitOn slash <+: path.splitOn slash := by
  rcases h with rfl | ⟨rest, rfl⟩
  · exact List.prefix_refl _
  · rw [List.append_assoc, List.singleton_append, List.splitOn_append_cons_self]
    exact List.prefix_append _ _

/-- Resolving a path without two dots keeps it under its prefix, whose own dots
resolve too. -/
theorem under_resolve {front path : List α} (h : Under slash front path)
    (hdots : [dot, dot] ∉ path.splitOn slash) :
    Under slash (withoutDots slash dot front) (resolve slash dot path) := by
  obtain ⟨more, hmore⟩ := splitOn_prefix_of_under h
  obtain ⟨root, segments, hsegments⟩ := List.exists_cons_of_ne_nil (List.splitOn_ne_nil slash front)
  rw [hsegments, List.cons_append] at hmore
  unfold withoutDots resolve
  rw [hsegments, ← hmore]
  apply under_join (List.cons_ne_nil _ _)
  rw [List.cons_prefix_cons]
  refine ⟨rfl, ?_⟩
  have hrest : [dot, dot] ∉ segments ++ more := fun hmem =>
    hdots (hmore ▸ List.mem_cons_of_mem root hmem)
  simpa using @filter_prefix_resolveAfter _ _ dot [] segments more hrest

/-- A prefix without dot segments is its own resolution. -/
theorem withoutDots_eq_self {front : List α} (h : [dot] ∉ front.splitOn slash) :
    withoutDots slash dot front = front := by
  obtain ⟨root, segments, hsegments⟩ := List.exists_cons_of_ne_nil (List.splitOn_ne_nil slash front)
  unfold withoutDots
  rw [hsegments] at h ⊢
  have hfilter : segments.filter (· ≠ [dot]) = segments := by
    rw [List.filter_eq_self]
    intro segment hmem
    have hne : segment ≠ [dot] := fun heq => h (heq ▸ List.mem_cons_of_mem root hmem)
    simpa using hne
  dsimp only
  rw [hfilter, ← hsegments, join, List.intercalate_splitOn]

end BlackMonolith.Library.DotSegments
