import Mathlib.Data.List.Basic
import Mathlib.Data.List.TakeWhile

/-!
# Expansions of a list

An expansion puts, in order, a possibly empty run of outputs in the place of
every element. An automaton that each run leaves where the element does ends in
the same state on both. Events and texts that are let go at different times form
an expansion of what was read when their places never decrease.
-/
namespace BlackMonolith.Library

inductive Expands {α β : Type*} (R : α → List β → Prop) : List α → List β → Prop
  | nil : Expands R [] []
  | cons {a : α} {as : List α} {bs cs : List β} :
      R a bs → Expands R as cs → Expands R (a :: as) (bs ++ cs)

namespace Expands
variable {α β γ σ : Type*} {R : α → List β → Prop} {as as' : List α} {bs bs' : List β}

theorem append (h : Expands R as bs) (h' : Expands R as' bs') :
    Expands R (as ++ as') (bs ++ bs') := by
  induction h with
  | nil => exact h'
  | cons ha _ ih =>
      rw [List.cons_append, List.append_assoc]
      exact .cons ha ih

theorem exists_append (h : Expands R (as ++ as') bs) :
    ∃ cs cs', bs = cs ++ cs' ∧ Expands R as cs ∧ Expands R as' cs' := by
  induction as generalizing bs with
  | nil => exact ⟨[], bs, rfl, .nil, h⟩
  | cons a as ih =>
      cases h with
      | @cons _ _ run rest ha hrest =>
          obtain ⟨cs, cs', rfl, hcs, hcs'⟩ := ih hrest
          exact ⟨run ++ cs, cs', (List.append_assoc ..).symm, .cons ha hcs, hcs'⟩

/-- Every output stands for one of the elements. -/
theorem exists_of_mem {P : α → β → Prop} (hP : ∀ a run, R a run → ∀ b ∈ run, P a b)
    (h : Expands R as bs) {b : β} (hb : b ∈ bs) : ∃ a ∈ as, P a b := by
  induction h with
  | nil => cases hb
  | @cons a as run rest ha _ ih =>
      cases List.mem_append.mp hb with
      | inl hrun => exact ⟨a, List.mem_cons_self, hP a run ha b hrun⟩
      | inr hrest =>
          obtain ⟨a', ha', hab⟩ := ih hrest
          exact ⟨a', List.mem_cons_of_mem a ha', hab⟩

/-- Every element has its run among the outputs. -/
theorem exists_run (h : Expands R as bs) {a : α} (ha : a ∈ as) :
    ∃ run, R a run ∧ ∀ b ∈ run, b ∈ bs := by
  induction h with
  | nil => cases ha
  | @cons first as run rest hfirst _ ih =>
      cases ha with
      | head => exact ⟨run, hfirst, fun b hb => List.mem_append_left _ hb⟩
      | tail _ ha =>
          obtain ⟨run', hrun', hsub⟩ := ih ha
          exact ⟨run', hrun', fun b hb => List.mem_append_right _ (hsub b hb)⟩

theorem map {R' : α → List γ → Prop} {f : β → γ}
    (hf : ∀ a ∈ as, ∀ run, R a run → R' a (run.map f)) (h : Expands R as bs) :
    Expands R' as (bs.map f) := by
  induction h with
  | nil => exact .nil
  | @cons a as run rest ha _ ih =>
      rw [List.map_append]
      have hrest : ∀ b ∈ as, ∀ run, R b run → R' b (run.map f) :=
        fun b hb => hf b (List.mem_cons_of_mem a hb)
      exact .cons (hf a List.mem_cons_self run ha) (ih hrest)

theorem run_eq {f : σ → α → Option σ} {g : σ → β → Option σ}
    (hstep : ∀ a run s t, R a run → f s a = some t → run.foldlM g s = some t)
    (h : Expands R as bs) {s t : σ} (hrun : as.foldlM f s = some t) :
    bs.foldlM g s = some t := by
  induction h generalizing s with
  | nil => exact hrun
  | @cons a as run rest ha _ ih =>
      rw [List.foldlM_cons] at hrun
      obtain ⟨u, hu, hrest⟩ := Option.bind_eq_some_iff.mp hrun
      rw [List.foldlM_append, hstep a run s u ha hu]
      exact ih hrest

end Expands

/-! ## Copies -/

section
variable {α : Type*} {key : α → ℕ} {as bs cs : List α}

/-- Every output has the key of the element it stands for. -/
def Copies (key : α → ℕ) (a : α) (run : List α) : Prop := ∀ b ∈ run, key b = key a

namespace Expands

/-- An element may give one output. -/
theorem keep {a b : α} (hb : key b = key a) (h : Expands (Copies key) as bs) :
    Expands (Copies key) (a :: as) (b :: bs) := by
  have hrun : Copies key a [b] := by
    intro c hc
    rw [List.mem_singleton.mp hc, hb]
  exact .cons hrun h

theorem refl (key : α → ℕ) (as : List α) : Expands (Copies key) as as := by
  induction as with
  | nil => exact .nil
  | cons a as ih => exact ih.keep rfl

/-- An element may give nothing. -/
theorem drop (h : Expands (Copies key) as bs) (a : α) : Expands (Copies key) (a :: as) bs :=
  have hnone : Copies key a [] := List.forall_mem_nil _
  .cons hnone h

theorem of_nil (key : α → ℕ) (as : List α) : Expands (Copies key) as [] := by
  induction as with
  | nil => exact .nil
  | cons a as ih => exact ih.drop a

theorem filter (key : α → ℕ) (p : α → Bool) (as : List α) :
    Expands (Copies key) as (as.filter p) := by
  induction as with
  | nil => exact .nil
  | cons a as ih =>
      rw [List.filter_cons]
      split_ifs
      · exact ih.keep rfl
      · exact ih.drop a

/-- One more copy of the first element. -/
theorem again {a b : α} (hb : key b = key a) (h : Expands (Copies key) (a :: as) bs) :
    Expands (Copies key) (a :: as) (b :: bs) := by
  cases h with
  | @cons _ _ run rest ha hrest =>
      have hrun : Copies key a (b :: run) := by
        intro c hc
        cases hc with
        | head => exact hb
        | tail _ hc => exact ha c hc
      exact .cons hrun hrest

theorem trans (h : Expands (Copies key) as bs) (h' : Expands (Copies key) bs cs) :
    Expands (Copies key) as cs := by
  induction h generalizing cs with
  | nil => exact h'
  | @cons a as run rest ha _ ih =>
      obtain ⟨front, back, rfl, hfront, hback⟩ := exists_append h'
      apply Expands.cons _ (ih hback)
      intro c hc
      obtain ⟨b, hb, hcb⟩ := exists_of_mem (fun _ _ hrun => hrun) hfront hc
      exact hcb.trans (ha b hb)

theorem key_mem (h : Expands (Copies key) as bs) {b : α} (hb : b ∈ bs) :
    ∃ a ∈ as, key b = key a :=
  exists_of_mem (fun _ _ hrun => hrun) h hb

theorem ordered (h : Expands (Copies key) as bs) (has : (as.map key).Pairwise (· ≤ ·)) :
    (bs.map key).Pairwise (· ≤ ·) := by
  induction h with
  | nil => exact List.Pairwise.nil
  | @cons a as run rest ha hrest ih =>
      rw [List.map_cons, List.pairwise_cons] at has
      rw [List.map_append, List.pairwise_append]
      refine ⟨?_, ih has.2, ?_⟩
      · apply List.pairwise_map.mpr
        apply List.pairwise_of_forall_mem_list
        intro b hb c hc
        exact (ha b hb).trans_le (ha c hc).ge
      · intro x hx y hy
        obtain ⟨b, hb, rfl⟩ := List.mem_map.mp hx
        obtain ⟨c, hc, rfl⟩ := List.mem_map.mp hy
        obtain ⟨a', ha', hca⟩ := key_mem hrest hc
        rw [ha b hb, hca]
        exact has.1 (key a') (List.mem_map_of_mem ha')

end Expands

end

/-! ## What is let go in the order of its places -/

section
variable {ε π τ : Type*} (before : ε → ℕ) (place : π → ℕ) (source : τ → ℕ)

/-- An event stands before the push that is read after it, and a text where its
push stands. -/
def slot : ε ⊕ π → ℕ
  | .inl e => 2 * before e
  | .inr p => 2 * place p + 1

/-- Pushes take places of their own. -/
def Precedes (a b : ε ⊕ π) : Prop :=
  match a with
  | .inl _ => slot before place a ≤ slot before place b
  | .inr _ => slot before place a < slot before place b

def Follows : ε ⊕ π → List (ε ⊕ τ) → Prop
  | .inl e, run => run = [.inl e]
  | .inr p, run => ∀ b ∈ run, ∃ t, b = .inr t ∧ source t = place p

/-- Whether an output is a text of the push. -/
def isTextOf (p : π) : ε ⊕ τ → Bool
  | .inl _ => false
  | .inr t => source t = place p

variable {before place source} {reads : List (ε ⊕ π)} {out : List (ε ⊕ τ)}

/-- The copies of a push come first, and no other comes after what follows them. -/
theorem texts_after {p : π} (hfirst : ∀ b ∈ reads, Precedes before place (.inr p) b)
    (hout : (out.map (slot before source)).Pairwise (· ≤ ·))
    (hevents : ∀ e, .inl e ∈ out → .inl e ∈ reads)
    (htexts : ∀ t, .inr t ∈ out → ∃ q, .inr q ∈ .inr p :: reads ∧ source t = place q)
    (hhead : ∀ t, out.head? = some (.inr t) → source t ≠ place p) {t : τ} (ht : .inr t ∈ out) :
    ∃ q, .inr q ∈ reads ∧ source t = place q := by
  have hother : ∀ u, .inr u ∈ out → source u ≠ place p →
      ∃ q, .inr q ∈ reads ∧ source u = place q := by
    intro u hu hne
    obtain ⟨q, hq, hsource⟩ := htexts u hu
    cases hq with
    | head => exact absurd hsource hne
    | tail _ hq => exact ⟨q, hq, hsource⟩
  apply hother t ht
  intro hsource
  cases out with
  | nil => cases ht
  | cons d out =>
      have hle : slot before source d ≤ 2 * place p + 1 := by
        rw [← hsource]
        cases ht with
        | head => exact Nat.le_refl _
        | tail _ ht =>
            exact (List.pairwise_cons.mp hout).1 _ (List.mem_map_of_mem ht)
      cases d with
      | inl e =>
          have hlt := hfirst (.inl e) (hevents e List.mem_cons_self)
          simp only [Precedes, slot] at hlt hle
          omega
      | inr u =>
          obtain ⟨q, hq, hu⟩ := hother u List.mem_cons_self (hhead u rfl)
          have hlt := hfirst (.inr q) hq
          simp only [Precedes, slot] at hlt hle
          omega

theorem expands_of_ordered (hreads : reads.Pairwise (Precedes before place))
    (hout : (out.map (slot before source)).Pairwise (· ≤ ·))
    (hevents : out.filterMap Sum.getLeft? = reads.filterMap Sum.getLeft?)
    (htexts : ∀ t, .inr t ∈ out → ∃ p, .inr p ∈ reads ∧ source t = place p) :
    Expands (Follows place source) reads out := by
  induction reads generalizing out with
  | nil =>
      cases out with
      | nil => exact .nil
      | cons b out =>
          cases b with
          | inl e => cases hevents
          | inr t =>
              obtain ⟨p, hp, -⟩ := htexts t List.mem_cons_self
              cases hp
  | cons a reads ih =>
      obtain ⟨hfirst, hrest⟩ := List.pairwise_cons.mp hreads
      cases a with
      | inl e =>
          have hmem : e ∈ out.filterMap Sum.getLeft? := by
            rw [hevents]
            exact List.mem_cons_self
          cases out with
          | nil => cases hmem
          | cons b out =>
              cases b with
              | inl e' =>
                  obtain ⟨rfl, htail⟩ := List.cons.inj hevents
                  have hrun : Follows place source (.inl e') ([.inl e'] : List (ε ⊕ τ)) := rfl
                  apply Expands.cons hrun
                  apply ih hrest (List.pairwise_cons.mp hout).2 htail
                  intro t ht
                  obtain ⟨p, hp, hsource⟩ := htexts t (List.mem_cons_of_mem _ ht)
                  cases hp with
                  | tail _ hp => exact ⟨p, hp, hsource⟩
              | inr t =>
                  -- A text in front of the event would stand behind its own push.
                  obtain ⟨p, hp, hsource⟩ := htexts t List.mem_cons_self
                  obtain ⟨b, hb, he⟩ := List.mem_filterMap.mp hmem
                  cases hp with
                  | tail _ hp =>
                      have hle := hfirst (.inr p) hp
                      cases hb with
                      | head => cases he
                      | tail _ hb =>
                          have hlater := (List.pairwise_cons.mp hout).1 _ (List.mem_map_of_mem hb)
                          obtain rfl : b = .inl e := Sum.getLeft?_eq_some_iff.mp he
                          simp only [Precedes, slot] at hle hlater
                          omega
      | inr p =>
          obtain ⟨copy, hcopy⟩ : ∃ copy : ε ⊕ τ → Bool, copy = isTextOf place source p := ⟨_, rfl⟩
          have hsplit : out.takeWhile copy ++ out.dropWhile copy = out :=
            List.takeWhile_append_dropWhile
          have hcopies : ∀ b ∈ out.takeWhile copy, ∃ t, b = .inr t ∧ source t = place p := by
            subst hcopy
            intro b hb
            have htext := List.mem_takeWhile_imp hb
            cases b with
            | inl e => cases htext
            | inr t => exact ⟨t, rfl, of_decide_eq_true htext⟩
          have hnone : (out.takeWhile copy).filterMap Sum.getLeft? = [] := by
            apply List.filterMap_eq_nil_iff.mpr
            intro b hb
            obtain ⟨t, rfl, -⟩ := hcopies b hb
            rfl
          have hleft : (out.dropWhile copy).filterMap Sum.getLeft? =
              reads.filterMap Sum.getLeft? := by
            rw [← hsplit, List.filterMap_append, hnone] at hevents
            exact hevents
          have hordered : ((out.dropWhile copy).map (slot before source)).Pairwise (· ≤ ·) :=
            hout.sublist ((List.dropWhile_sublist copy).map _)
          rw [← hsplit]
          apply Expands.cons hcopies
          apply ih hrest hordered hleft
          intro t ht
          apply texts_after hfirst hordered _ _ _ ht
          · intro e he
            have hmem : e ∈ reads.filterMap Sum.getLeft? := by
              rw [← hleft]
              exact List.mem_filterMap.mpr ⟨_, he, rfl⟩
            obtain ⟨b, hb, hbe⟩ := List.mem_filterMap.mp hmem
            obtain rfl : b = .inl e := Sum.getLeft?_eq_some_iff.mp hbe
            exact hb
          · intro u hu
            exact htexts u ((List.dropWhile_sublist copy).subset hu)
          · intro u hu hsource
            have hfalse := List.head?_dropWhile_not copy out
            rw [hu, hcopy] at hfalse
            have htrue : isTextOf place source p (.inr u : ε ⊕ τ) = true := decide_eq_true hsource
            exact absurd htrue (Bool.not_eq_true _ ▸ hfalse)

end

end BlackMonolith.Library
