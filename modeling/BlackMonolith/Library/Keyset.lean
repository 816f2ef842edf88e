import Mathlib

/-!
# Reading a sorted list page by page

A page is the beginning of the rows that a cursor selects, and its last row
gives the cursor of the next one. The pages put together are the whole list
exactly when the cursor of each page's last row selects the rows after it.
-/
namespace BlackMonolith.Library.Keyset

variable {α : Type*}

/-! ## Sorted lists -/

section
variable {κ : Type*} [LinearOrder κ] {key : α → κ} {rows : List α}

theorem filter_of_lt_head {row : α} (hsorted : (row :: rows).Pairwise fun a b => key a < key b)
    {k : κ} (h : k < key row) : (row :: rows).filter (fun a => k < key a) = row :: rows := by
  apply List.filter_eq_self.mpr
  intro a ha
  rw [decide_eq_true_eq]
  cases List.mem_cons.mp ha with
  | inl heq => exact heq ▸ h
  | inr hmem => exact h.trans (List.rel_of_pairwise_cons hsorted hmem)

/-- What lies beyond a key is the end of a sorted list. -/
theorem filter_suffix (hsorted : rows.Pairwise fun a b => key a < key b) (k : κ) :
    rows.filter (fun a => k < key a) <:+ rows := by
  induction rows with
  | nil => exact List.suffix_rfl
  | cons row rows ih =>
      by_cases h : k < key row
      · exact (filter_of_lt_head hsorted h).symm ▸ List.suffix_rfl
      · rw [List.filter_cons_of_neg (by rwa [decide_eq_true_eq])]
        exact (ih hsorted.of_cons).trans (List.suffix_cons row rows)

/-- The rows beyond a row of a sorted list are those after it. -/
theorem filter_getElem (hsorted : rows.Pairwise fun a b => key a < key b) {i : ℕ} {row : α}
    (hrow : rows[i]? = some row) : rows.filter (fun a => key row < key a) = rows.drop (i + 1) := by
  induction rows generalizing i with
  | nil => cases hrow
  | cons first rows ih =>
      cases i with
      | zero =>
          cases hrow
          rw [List.filter_cons_of_neg (by simp), List.drop_succ_cons, List.drop_zero]
          apply List.filter_eq_self.mpr
          intro a ha
          rw [decide_eq_true_eq]
          exact List.rel_of_pairwise_cons hsorted ha
      | succ i =>
          rw [List.getElem?_cons_succ] at hrow
          have hbefore : ¬ key row < key first :=
            (List.rel_of_pairwise_cons hsorted (List.mem_of_getElem? hrow)).not_gt
          rw [List.filter_cons_of_neg (by rwa [decide_eq_true_eq]), List.drop_succ_cons,
            ih hsorted.of_cons hrow]

/-- A cursor selects the rows after a row when it separates the same rows as
the row itself does. -/
theorem filter_eq_drop_iff (hsorted : rows.Pairwise fun a b => key a < key b) {i : ℕ} {row : α}
    (hrow : rows[i]? = some row) (k : κ) :
    rows.filter (fun a => k < key a) = rows.drop (i + 1) ↔
      ∀ a ∈ rows, k < key a ↔ key row < key a := by
  rw [← filter_getElem hsorted hrow]
  constructor
  · intro h a ha
    have hmem : a ∈ rows.filter (fun a => k < key a) ↔
        a ∈ rows.filter (fun a => key row < key a) := by rw [h]
    simpa only [List.mem_filter, ha, true_and, decide_eq_true_eq] using hmem
  · intro h
    apply List.filter_congr
    intro a ha
    rw [decide_eq_decide]
    exact h a ha

end

/-! ## Following the cursor -/

section
variable (limit : ℕ) (resume : α → Option (List α))

/-- The pages of the rows selected, in the order they are read. `resume` gives
the rows that the cursor of a row selects, unless it is refused. -/
inductive Visit : List α → List (List α) → Prop
  | last {rows : List α} : rows.length ≤ limit → Visit rows [rows]
  | more {rows rest : List α} {row : α} {pages : List (List α)} : limit < rows.length →
      rows[limit - 1]? = some row → resume row = some rest → Visit rest pages →
      Visit rows (rows.take limit :: pages)

end

section
variable {limit : ℕ} {resume : α → Option (List α)} {rows : List α} {pages : List (List α)}

theorem Visit.head?_flatten (hlimit : 0 < limit) (h : Visit limit resume rows pages) :
    pages.flatten.head? = rows.head? := by
  cases h with
  | last _ => rw [List.flatten_singleton]
  | more hlt _ _ _ =>
      cases rows with
      | nil => exact absurd hlt (Nat.not_lt_zero _)
      | cons row rows =>
          cases limit with
          | zero => exact absurd hlimit (Nat.lt_irrefl 0)
          | succ limit => rfl

/-- Each page that is not the last one ends where the next begins. -/
def Adjoins (limit : ℕ) (resume : α → Option (List α)) (rows : List α) : Prop :=
  ∀ n row, 0 < n → n * limit < rows.length → rows[n * limit - 1]? = some row →
    resume row = some (rows.drop (n * limit))

theorem exists_visit (hlimit : 0 < limit) (h : Adjoins limit resume rows) (n : ℕ) :
    ∃ pages, Visit limit resume (rows.drop (n * limit)) pages ∧
      pages.flatten = rows.drop (n * limit) := by
  -- The induction is on the number of rows that are left.
  induction hleft : rows.length - n * limit using Nat.strongRecOn generalizing n with
  | ind left ih =>
      by_cases hlast : (rows.drop (n * limit)).length ≤ limit
      · exact ⟨_, .last hlast, List.flatten_singleton⟩
      · have hlt : limit < (rows.drop (n * limit)).length := Nat.lt_of_not_le hlast
        have hlength : limit < rows.length - n * limit := by rwa [List.length_drop] at hlt
        have hnext : (n + 1) * limit = n * limit + limit := Nat.succ_mul n limit
        have hindex : n * limit + (limit - 1) < rows.length := by omega
        have hrow : rows[n * limit + (limit - 1)]? = some rows[n * limit + (limit - 1)] :=
          List.getElem?_eq_getElem hindex
        have hboundary : (n + 1) * limit - 1 = n * limit + (limit - 1) := by omega
        have hresume := h (n + 1) rows[n * limit + (limit - 1)] n.succ_pos (by omega)
          (by rw [hboundary]; exact hrow)
        obtain ⟨pages, hvisit, hpages⟩ := ih (rows.length - (n + 1) * limit) (by omega) (n + 1) rfl
        refine ⟨_, .more hlt (by rw [List.getElem?_drop]; exact hrow) hresume hvisit, ?_⟩
        rw [List.flatten_cons, hpages, hnext, ← List.drop_drop, List.take_append_drop]

theorem adjoins_of_visit {β : Type*} {f : α → β} (hlimit : 0 < limit)
    (hnodup : (rows.map f).Nodup) (hsuffix : ∀ row rest, resume row = some rest → rest <:+ rows)
    (hvisit : Visit limit resume rows pages) (hpages : pages.flatten.map f = rows.map f) :
    Adjoins limit resume rows := by
  -- After n pages, what is left to read gives the rows after them.
  have hstep : ∀ n, n * limit < rows.length →
      (∃ pages, Visit limit resume (rows.drop (n * limit)) pages ∧
        pages.flatten.map f = (rows.drop (n * limit)).map f) ∧
      ∀ m row, 0 < m → m ≤ n → rows[m * limit - 1]? = some row →
        resume row = some (rows.drop (m * limit)) := by
    intro n
    induction n with
    | zero =>
        intro _
        rw [Nat.zero_mul, List.drop_zero]
        exact ⟨⟨pages, hvisit, hpages⟩, fun m row hpos hle => absurd hpos (Nat.not_lt.mpr hle)⟩
    | succ n ih =>
        intro hn
        have hnext : (n + 1) * limit = n * limit + limit := Nat.succ_mul n limit
        obtain ⟨⟨before, hbefore, hrows⟩, hearlier⟩ := ih (by omega)
        cases hbefore with
        | last hle =>
            rw [List.length_drop] at hle
            omega
        | @more _ rest row later hlt hrow hresume hlater =>
            have htail : later.flatten.map f = (rows.drop ((n + 1) * limit)).map f := by
              rw [List.flatten_cons, List.map_append] at hrows
              have hsplit : (rows.drop (n * limit)).map f =
                  ((rows.drop (n * limit)).take limit).map f ++
                    (rows.drop ((n + 1) * limit)).map f := by
                rw [← List.map_append, hnext, ← List.drop_drop, List.take_append_drop]
              rw [hsplit] at hrows
              exact List.append_cancel_left hrows
            have hhead : rest.head?.map f = (rows.drop ((n + 1) * limit)).head?.map f := by
              rw [← hlater.head?_flatten hlimit, ← List.head?_map, ← List.head?_map, htail]
            have hrest : rest = rows.drop ((n + 1) * limit) := by
              obtain ⟨skipped, hskipped⟩ := hsuffix row rest hresume
              have hdrop : rest = rows.drop skipped.length := by
                rw [← hskipped, List.drop_left]
              rw [hdrop, List.head?_drop, List.head?_drop, ← List.getElem?_map,
                ← List.getElem?_map] at hhead
              have hindex : (n + 1) * limit < (rows.map f).length := by rwa [List.length_map]
              have heq := (List.getElem?_inj hindex hnodup).mp hhead.symm
              rw [hdrop, heq]
            have hboundary : (n + 1) * limit - 1 = n * limit + (limit - 1) := by omega
            rw [List.getElem?_drop] at hrow
            constructor
            · exact ⟨later, hrest ▸ hlater, htail⟩
            · intro m other hpos hle hother
              by_cases hm : m = n + 1
              · rw [hm, hboundary, hrow] at hother
                cases hother
                rw [hm, hresume, hrest]
              · exact hearlier m other hpos (by omega) hother
  intro n row hpos hn hrow
  exact (hstep n hn).2 n row hpos (Nat.le_refl n) hrow

/-- The pages give every row once and in order exactly when each cursor selects
the rows after its own. -/
theorem visit_lossless_iff {β : Type*} {f : α → β} (hlimit : 0 < limit)
    (hnodup : (rows.map f).Nodup) (hsuffix : ∀ row rest, resume row = some rest → rest <:+ rows) :
    (∃ pages, Visit limit resume rows pages ∧ pages.flatten.map f = rows.map f) ↔
      Adjoins limit resume rows := by
  constructor
  · intro h
    obtain ⟨pages, hvisit, hpages⟩ := h
    exact adjoins_of_visit hlimit hnodup hsuffix hvisit hpages
  · intro h
    obtain ⟨pages, hvisit, hpages⟩ := exists_visit hlimit h 0
    rw [Nat.zero_mul, List.drop_zero] at hvisit hpages
    exact ⟨pages, hvisit, by rw [hpages]⟩

end

end BlackMonolith.Library.Keyset
