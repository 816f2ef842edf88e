import BlackMonolith.Library.Clustering
import BlackMonolith.VectorAnchor.DetectorState
import BlackMonolith.VectorAnchor.Retention
import BlackMonolith.VectorAnchor.StateSaving
import Mathlib.Algebra.Order.Field.Basic

/-!
# Topics and the admission of a query

Over an exact field similarity is symmetric, and the hit that is evicted is the nearest to
the new one. A new hit whose neighbours have no neighbours but its own takes the place of
one of its own topic, or opens a topic. One that bridges two topics can merge them, whether
anything is evicted or not, and so can the loss of a hit that kept others apart.
-/
namespace BlackMonolith.Library.InsertionMap
variable {κ ν : Type} [DecidableEq κ] {m : InsertionMap κ ν} {k : κ} {v : ν}

theorem entries_erase_of_split {before after : List (κ × ν)}
    (h : m.entries = before ++ (k, v) :: after) : (m.erase k).entries = before ++ after := by
  have hnodup : (((k, v) :: (before ++ after)).map Prod.fst).Nodup := by
    rw [List.map_cons, List.map_append, ← List.nodup_middle, ← List.map_cons, ← List.map_append,
      ← h]
    exact m.nodup
  have hothers : ∀ e ∈ before ++ after, (!decide (e.1 = k)) = true := by
    intro e he
    have hne : e.1 ≠ k :=
      fun heq => (List.nodup_cons.mp hnodup).1 (List.mem_map.mpr ⟨e, he, heq⟩)
    rw [decide_eq_false hne]
    rfl
  show m.entries.filter (fun e => !decide (e.1 = k)) = _
  rw [h, List.filter_append, List.filter_cons, decide_eq_true rfl]
  exact (List.filter_append _ _).symm.trans (List.filter_eq_self.mpr hothers)

end BlackMonolith.Library.InsertionMap

namespace BlackMonolith.VectorAnchor
open Library Clustering

/-- Arithmetic in an ordered field. -/
structure PythonOps.Exact {F : Type} [Field F] [LinearOrder F] (ops : PythonOps F) : Prop where
  zero : ops.zero = 0
  add : ∀ a b, ops.add a b = a + b
  mul : ∀ a b, ops.mul a b = a * b
  lt : ∀ a b, ops.lt a b = decide (a < b)
  le : ∀ a b, ops.le a b = decide (a ≤ b)

/-- Vectors whose similarities are symmetric and in a linear order, and which can be sorted. -/
structure Vectors.Exact {V F : Type} [LinearOrder F] (vectors : Vectors V F) : Prop where
  greater : ∀ a b, vectors.greater a b = decide (b < a)
  atLeast : ∀ a b, vectors.atLeast a b = decide (b ≤ a)
  symm : ∀ v w, vectors.unitDot v w = vectors.unitDot w v
  arranges : Arranges vectors.sorted

section
variable {F : Type} [Field F] [LinearOrder F] {ops : PythonOps F}

theorem tupleLe_cons (h : ops.Exact) {x y : F} {xs ys : List F} :
    tupleLe ops (x :: xs) (y :: ys) = true ↔ x < y ∨ x = y ∧ tupleLe ops xs ys = true := by
  rw [tupleLe, h.lt, h.lt]
  rcases lt_trichotomy x y with hlt | rfl | hgt
  · simp [hlt]
  · simp
  · simp [hgt, hgt.not_gt, hgt.ne']

theorem tupleLe_total (h : ops.Exact) (xs ys : List F) :
    tupleLe ops xs ys = true ∨ tupleLe ops ys xs = true := by
  induction xs generalizing ys with
  | nil => exact .inl rfl
  | cons x xs ih =>
      cases ys with
      | nil => exact .inr rfl
      | cons y ys =>
          rw [tupleLe_cons h, tupleLe_cons h]
          rcases lt_trichotomy x y with hlt | heq | hgt
          · exact .inl (.inl hlt)
          · exact (ih ys).imp (fun hle => .inr ⟨heq, hle⟩) fun hle => .inr ⟨heq.symm, hle⟩
          · exact .inr (.inl hgt)

theorem tupleLe_antisymm (h : ops.Exact) {xs ys : List F} (hle : tupleLe ops xs ys = true)
    (hge : tupleLe ops ys xs = true) : xs = ys := by
  induction xs generalizing ys with
  | nil =>
      cases ys with
      | nil => rfl
      | cons y ys => cases hge
  | cons x xs ih =>
      cases ys with
      | nil => cases hle
      | cons y ys =>
          rcases (tupleLe_cons h).mp hle with hlt | ⟨rfl, htail⟩
          · rcases (tupleLe_cons h).mp hge with hgt | ⟨heq, -⟩
            · exact absurd hgt hlt.not_gt
            · exact absurd heq hlt.ne'
          · rcases (tupleLe_cons h).mp hge with hgt | ⟨-, htail'⟩
            · exact absurd hgt (lt_irrefl x)
            · rw [ih htail htail']

theorem tupleLe_trans (h : ops.Exact) {xs ys zs : List F} (hxy : tupleLe ops xs ys = true)
    (hyz : tupleLe ops ys zs = true) : tupleLe ops xs zs = true := by
  induction xs generalizing ys zs with
  | nil => rfl
  | cons x xs ih =>
      cases ys with
      | nil => cases hxy
      | cons y ys =>
          cases zs with
          | nil => cases hyz
          | cons z zs =>
              rw [tupleLe_cons h] at hxy hyz ⊢
              rcases hxy with hxy | ⟨rfl, hxy⟩
              · rcases hyz with hyz | ⟨rfl, -⟩
                · exact .inl (hxy.trans hyz)
                · exact .inl hxy
              · exact hyz.imp_right fun ⟨heq, hyz⟩ => ⟨heq, ih hxy hyz⟩

theorem PythonOps.Exact.vectors (h : ops.Exact) : (embeddingVectors ops).Exact where
  greater a b := h.lt b a
  atLeast a b := h.le b a
  symm v w := by
    show (List.zipWith ops.mul v w).foldl _ _ = (List.zipWith ops.mul w v).foldl _ _
    rw [List.zipWith_comm_of_comm]
    intro a b
    rw [h.mul, h.mul, mul_comm]
  arranges :=
    have : Std.Total fun a b : List F => tupleLe ops a b = true := ⟨tupleLe_total h⟩
    have : IsTrans (List F) fun a b => tupleLe ops a b = true := ⟨fun _ _ _ => tupleLe_trans h⟩
    have : Std.Antisymm fun a b : List F => tupleLe ops a b = true :=
      ⟨fun _ _ => tupleLe_antisymm h⟩
    arranges_insertionSort fun a b => tupleLe ops a b = true

end

theorem rationalOps_exact : rationalOps.Exact where
  zero := rfl
  add _ _ := rfl
  mul _ _ := rfl
  lt _ _ := rfl
  le _ _ := rfl

/-- `unit_dot(a, b) >= topic_similarity`. -/
def similar {V F : Type} (vectors : Vectors V F) (cfg : TrackerConfig F) (a b : V) : Bool :=
  vectors.atLeast (vectors.unitDot a b) cfg.topicSimilarity

theorem similar_comm {V F : Type} [LinearOrder F] {vectors : Vectors V F} (h : vectors.Exact)
    (cfg : TrackerConfig F) (a b : V) : similar vectors cfg a b = similar vectors cfg b a := by
  unfold similar
  rw [h.symm]

namespace FrequencyTracker

/-- Queries recorded one after the other, each with the documents that it ranked. -/
def recordAll {V F : Type} (vectors : Vectors V F) (cfg : TrackerConfig F)
    (t : FrequencyTracker V) : List (List String × V) → Except String (FrequencyTracker V)
  | [] => .ok t
  | query :: queries =>
      match t.recordQuery vectors cfg query.1 query.2 with
      | .error message => .error message
      | .ok t' => t'.recordAll vectors cfg queries

section
variable {V F : Type} {vectors : Vectors V F} {cfg : TrackerConfig F} {t : FrequencyTracker V}

/-- The topics of a document are the clusters of its vectors. -/
theorem distinctTopicCount_eq {docId : String} {record : DocRecord V}
    (hrecord : t.docs.get? docId = some record) :
    t.distinctTopicCount vectors cfg docId =
      count (similar vectors cfg) vectors.sorted (t.liveEmbeddings cfg record) := by
  unfold distinctTopicCount
  rw [hrecord]
  rfl

/-! ## The hit that is evicted -/

theorem foldl_nearest [LinearOrder F] (hexact : vectors.Exact) {embedding : V} {qid : ℕ}
    (entries : List (ℕ × V)) (hne : ∀ e ∈ entries, e.1 ≠ qid) (best : F × ℕ) :
    ∃ p, entries.foldl (betterHit vectors embedding qid) (some best) = some p ∧ best.1 ≤ p.1 ∧
      (∀ e ∈ entries, vectors.unitDot embedding e.2 ≤ p.1) ∧
      (p = best ∨ ∃ e ∈ entries, p = (vectors.unitDot embedding e.2, e.1)) := by
  induction entries generalizing best with
  | nil => exact ⟨best, rfl, le_refl _, List.forall_mem_nil _, .inl rfl⟩
  | cons e entries ih =>
      obtain ⟨he, hrest⟩ := List.forall_mem_cons.mp hne
      rw [List.foldl_cons]
      have hstep : betterHit vectors embedding qid (some best) e =
          if best.1 < vectors.unitDot embedding e.2 then some (vectors.unitDot embedding e.2, e.1)
          else some best := by
        unfold betterHit
        rw [if_neg he]
        simp only [hexact.greater, decide_eq_true_eq]
      rw [hstep]
      split_ifs with hlt
      · obtain ⟨p, hp, hle, hmax, hfrom⟩ := ih hrest (vectors.unitDot embedding e.2, e.1)
        refine ⟨p, hp, hlt.le.trans hle, List.forall_mem_cons.mpr ⟨hle, hmax⟩, .inr ?_⟩
        rcases hfrom with rfl | ⟨e', he', rfl⟩
        · exact ⟨e, List.mem_cons_self, rfl⟩
        · exact ⟨e', List.mem_cons_of_mem _ he', rfl⟩
      · obtain ⟨p, hp, hle, hmax, hfrom⟩ := ih hrest best
        refine ⟨p, hp, hle, List.forall_mem_cons.mpr ⟨(not_lt.mp hlt).trans hle, hmax⟩, ?_⟩
        exact hfrom.imp_right fun ⟨e', he', heq⟩ => ⟨e', List.mem_cons_of_mem _ he', heq⟩

theorem betterHit_self (embedding : V) (qid : ℕ) (best : Option (F × ℕ)) :
    betterHit vectors embedding qid best (qid, embedding) = best := if_pos rfl

/-- The new hit itself is not among the candidates. -/
theorem mostSimilar_concat (embedding : V) (qid : ℕ) (entries : List (ℕ × V)) :
    mostSimilar vectors embedding qid (entries ++ [(qid, embedding)]) =
      mostSimilar vectors embedding qid entries := by
  show (entries ++ [(qid, embedding)]).foldl (betterHit vectors embedding qid) none = _
  rw [List.foldl_append, List.foldl_cons, betterHit_self]
  rfl

/-- The nearest of the hits before the new one. -/
theorem mostSimilar_nearest [LinearOrder F] (hexact : vectors.Exact) {embedding : V} {qid : ℕ}
    {entries : List (ℕ × V)} (hne : ∀ e ∈ entries, e.1 ≠ qid) (hsome : entries ≠ []) :
    ∃ e ∈ entries, mostSimilar vectors embedding qid entries =
        some (vectors.unitDot embedding e.2, e.1) ∧
      ∀ e' ∈ entries, vectors.unitDot embedding e'.2 ≤ vectors.unitDot embedding e.2 := by
  obtain ⟨first, rest, rfl⟩ := List.exists_cons_of_ne_nil hsome
  obtain ⟨hfirst, hrest⟩ := List.forall_mem_cons.mp hne
  obtain ⟨p, hp, hle, hmax, hfrom⟩ := @foldl_nearest V F vectors _ hexact embedding qid rest hrest
    (vectors.unitDot embedding first.2, first.1)
  have hstart : betterHit vectors embedding qid none first =
      some (vectors.unitDot embedding first.2, first.1) := if_neg hfirst
  have hfold : mostSimilar vectors embedding qid (first :: rest) = some p := by
    show (first :: rest).foldl (betterHit vectors embedding qid) none = _
    rw [List.foldl_cons, hstart, hp]
  rcases hfrom with rfl | ⟨e, he, rfl⟩
  · exact ⟨first, List.mem_cons_self, hfold, List.forall_mem_cons.mpr ⟨hle, hmax⟩⟩
  · exact ⟨e, List.mem_cons_of_mem _ he, hfold, List.forall_mem_cons.mpr ⟨hle, hmax⟩⟩

/-! ## The admission of a hit -/

theorem evictExcess_of_le {record : DocRecord V} (h : record.size ≤ cfg.maxQueriesPerDoc)
    (fuel qid : ℕ) (embedding : V) :
    evictExcess vectors cfg fuel record qid embedding = record := by
  cases fuel with
  | zero => rfl
  | succ fuel => exact if_neg (Nat.not_lt.mpr h)

theorem entries_set_of_fresh {record : DocRecord V} {qid : ℕ} (h : qid ∉ record.keys)
    (embedding : V) : (record.set qid embedding).entries = record.entries ++ [(qid, embedding)] :=
  InsertionMap.setIn_of_notMem h

theorem size_set_of_fresh {record : DocRecord V} {qid : ℕ} (h : qid ∉ record.keys)
    (embedding : V) : (record.set qid embedding).size = record.size + 1 := by
  unfold InsertionMap.size
  rw [entries_set_of_fresh h, List.length_append]
  rfl

/-- A record with room keeps what it has. -/
theorem values_admitHit_of_room {record : DocRecord V} {qid : ℕ} (hfresh : qid ∉ record.keys)
    (hroom : record.size < cfg.maxQueriesPerDoc) (embedding : V) :
    (admitHit vectors cfg record qid embedding).values = record.values ++ [embedding] := by
  unfold admitHit
  dsimp only
  rw [evictExcess_of_le (by rw [size_set_of_fresh hfresh]; exact hroom)]
  exact InsertionMap.values_set_of_none (InsertionMap.get?_eq_none_iff.mpr hfresh)

/-- A full record gives up the hit nearest to the new one. -/
theorem values_admitHit_of_full [LinearOrder F] (hexact : vectors.Exact) {record : DocRecord V}
    {qid : ℕ} (hfresh : qid ∉ record.keys) (hcap : 1 ≤ cfg.maxQueriesPerDoc)
    (hfull : record.size = cfg.maxQueriesPerDoc) (embedding : V) :
    ∃ value drop old rest,
      mostSimilar vectors embedding qid record.entries = some (value, drop) ∧
      record.get? drop = some old ∧ record.values.Perm (old :: rest) ∧
      (admitHit vectors cfg record qid embedding).values.Perm (embedding :: rest) ∧
      ∀ v ∈ rest, vectors.unitDot embedding v ≤ vectors.unitDot embedding old := by
  have hne : ∀ e ∈ record.entries, e.1 ≠ qid :=
    fun e he heq => hfresh (heq ▸ List.mem_map_of_mem he)
  have hsome : record.entries ≠ [] := by
    intro hnil
    have hsize : record.size = 0 := congrArg List.length hnil
    omega
  obtain ⟨e, he, hnearest, hmax⟩ := mostSimilar_nearest hexact hne hsome
  obtain ⟨before, after, hsplit⟩ := List.append_of_mem he
  have hentries : (admitHit vectors cfg record qid embedding).entries =
      before ++ (after ++ [(qid, embedding)]) := by
    have hexcess : cfg.maxQueriesPerDoc < (record.set qid embedding).size := by
      rw [size_set_of_fresh hfresh, hfull]
      exact Nat.lt_succ_self _
    have hevict : evictFor vectors (record.set qid embedding) qid embedding =
        (record.set qid embedding).erase e.1 := by
      unfold evictFor
      rw [entries_set_of_fresh hfresh, mostSimilar_concat, hnearest]
    have hkept : ((record.set qid embedding).erase e.1).entries =
        before ++ (after ++ [(qid, embedding)]) := by
      apply @InsertionMap.entries_erase_of_split ℕ V _ (record.set qid embedding) e.1 e.2
      rw [entries_set_of_fresh hfresh, hsplit, List.append_assoc]
      rfl
    have hsize : ((record.set qid embedding).erase e.1).size ≤ cfg.maxQueriesPerDoc := by
      have hlength := congrArg List.length hkept
      have hlength' := congrArg List.length hsplit
      rw [List.length_append, List.length_append, List.length_singleton] at hlength
      rw [List.length_append, List.length_cons] at hlength'
      unfold InsertionMap.size at hfull ⊢
      omega
    unfold admitHit
    dsimp only
    rw [size_set_of_fresh hfresh, evictExcess, if_pos hexcess, hevict, evictExcess_of_le hsize]
    exact hkept
  refine ⟨_, e.1, e.2, (before ++ after).map Prod.snd, hnearest,
    InsertionMap.get?_eq_some_iff.mpr he, ?_, ?_, ?_⟩
  · unfold InsertionMap.values
    rw [hsplit, ← List.map_cons]
    exact List.perm_middle.map _
  · unfold InsertionMap.values
    rw [hentries, ← List.append_assoc, List.map_append]
    exact List.perm_append_singleton _ _
  · intro v hv
    obtain ⟨e', he', rfl⟩ := List.mem_map.mp hv
    apply hmax
    rw [hsplit]
    rcases List.mem_append.mp he' with he' | he'
    · exact List.mem_append_left _ he'
    · exact List.mem_append_right _ (List.mem_cons_of_mem _ he')

/-! ## Topics after the admission -/

theorem liveEmbeddings_pruneExpired (record : DocRecord V) :
    t.liveEmbeddings cfg record = (t.pruneExpired cfg record).values := rfl

theorem liveEmbeddings_of_live {record : DocRecord V}
    (h : ∀ q v, record.get? q = some v → t.cutoff cfg ≤ q) :
    t.liveEmbeddings cfg record = record.values := by
  unfold liveEmbeddings
  rw [List.filter_eq_self.mpr]
  · rfl
  · intro hit hmem
    exact decide_eq_true (h hit.1 hit.2 (InsertionMap.get?_eq_some_iff.mpr hmem))

theorem distinctTopicCount_recordDoc {docId : String} {record : DocRecord V} {qid : ℕ}
    (hrecord : t.docs.get? docId = some record) (hcap : 1 ≤ cfg.maxQueriesPerDoc)
    (hlive : t.cutoff cfg ≤ qid) (embedding : V) :
    (recordDoc vectors cfg qid embedding t docId).distinctTopicCount vectors cfg docId =
      count (similar vectors cfg) vectors.sorted
        (admitHit vectors cfg (t.pruneExpired cfg record) qid embedding).values := by
  have hafter : (recordDoc vectors cfg qid embedding t docId).docs.get? docId =
      some (admitHit vectors cfg (t.pruneExpired cfg record) qid embedding) := by
    rw [get?_recordDoc, if_pos rfl, hrecord]
    rfl
  rw [distinctTopicCount_eq hafter, liveEmbeddings_of_live]
  intro q v hq
  rcases (admitHit_spec hcap _ qid embedding).2 q v hq with ⟨rfl, -⟩ | hold
  · exact hlive
  · exact (get?_pruneExpired.mp hold).2

end

/-- Where the new hit bridges no topics, and the hit that it pushes out kept none apart, the
admission loses no topic. -/
theorem admission_keeps_topics {F : Type} [Field F] [LinearOrder F] {ops : PythonOps F}
    (hops : ops.Exact) {cfg : TrackerConfig F} (hcap : 1 ≤ cfg.maxQueriesPerDoc)
    (hhorizon : 1 ≤ cfg.retentionHorizon) {t : FrequencyTracker (List F)} {docId : String}
    {record : DocRecord (List F)} {qid : ℕ} {dim : Option ℕ} {embedding : List F}
    (hrecord : t.docs.get? docId = some record) (hnext : t.nextQueryId = qid + 1)
    (hfits : RecordFits (embeddingVectors ops) cfg qid dim record)
    (hclear : Clear (similar (embeddingVectors ops) cfg) embedding
      (embedding :: t.liveEmbeddings cfg record))
    (hpushed : (t.liveEmbeddings cfg record).length = cfg.maxQueriesPerDoc →
      ∀ value drop old,
        mostSimilar (embeddingVectors ops) embedding qid (t.pruneExpired cfg record).entries =
          some (value, drop) → record.get? drop = some old →
        Clear (similar (embeddingVectors ops) cfg) old (t.liveEmbeddings cfg record)) :
    t.distinctTopicCount (embeddingVectors ops) cfg docId ≤
      (recordDoc (embeddingVectors ops) cfg qid embedding t docId).distinctTopicCount
        (embeddingVectors ops) cfg docId := by
  have hexact := hops.vectors
  have hsymm := similar_comm hexact cfg
  have hlive : t.cutoff cfg ≤ qid := by
    unfold cutoff
    rw [hnext]
    push_cast
    omega
  have hfresh : qid ∉ (t.pruneExpired cfg record).keys := by
    intro hmem
    obtain ⟨v, hv⟩ := Option.isSome_iff_exists.mp (InsertionMap.has_iff.mpr hmem)
    exact absurd (hfits.2 qid v (get?_pruneExpired.mp hv).1).1 (Nat.lt_irrefl _)
  have hsize : (t.pruneExpired cfg record).size ≤ cfg.maxQueriesPerDoc :=
    (List.length_filter_le _ _).trans hfits.1
  rw [distinctTopicCount_eq hrecord, distinctTopicCount_recordDoc hrecord hcap hlive]
  rw [liveEmbeddings_pruneExpired] at hclear hpushed ⊢
  rcases hsize.lt_or_eq with hroom | hfull
  · rw [values_admitHit_of_room hfresh hroom,
      count_perm hexact.arranges (List.perm_append_singleton _ _)]
    exact (count_cons hexact.arranges hsymm hclear).1
  · obtain ⟨value, drop, old, rest, hnearest, hold, hbefore, hafter, hmax⟩ :=
      values_admitHit_of_full hexact hfresh hcap hfull embedding
    have hold' := hpushed (by unfold InsertionMap.values; rw [List.length_map]; exact hfull)
      value drop old hnearest (get?_pruneExpired.mp hold).1
    rw [count_perm hexact.arranges hbefore, count_perm hexact.arranges hafter]
    apply count_replace hexact.arranges hsymm (hold'.of_subset hbefore.symm.subset)
    · exact hclear.of_subset (List.cons_subset_cons _ hbefore.symm.subset)
    · intro z hz hsim
      unfold similar at hsim ⊢
      rw [hexact.atLeast, decide_eq_true_eq] at hsim ⊢
      exact hsim.trans (hmax z hz)

def twoHits : TrackerConfig ℚ where
  minDistinctTopics := 2
  topicSimilarity := 3 / 5
  maxQueriesPerDoc := 2

theorem admission_keeps_topics_repeated :
    let record : DocRecord (List ℚ) := ⟨[(0, [-3 / 5, 4 / 5]), (1, [-4 / 5, -3 / 5])], by decide⟩
    let t : FrequencyTracker (List ℚ) := ⟨⟨[("doc", record)], by decide⟩, ∅, 3, some 2⟩
    t.distinctTopicCount (embeddingVectors rationalOps) twoHits "doc" ≤
      (recordDoc (embeddingVectors rationalOps) twoHits 2 [-3 / 5, 4 / 5] t
        "doc").distinctTopicCount (embeddingVectors rationalOps) twoHits "doc" := by
  intro record t
  have hnearest : mostSimilar (embeddingVectors rationalOps) [-3 / 5, 4 / 5] 2
      (t.pruneExpired twoHits record).entries = some (1, 0) := by decide +kernel
  have hhits : ∀ q v, record.get? q = some v → q < 2 ∧ some 2 = some v.length := by
    intro q v hq
    have hmem := InsertionMap.get?_eq_some_iff.mp hq
    rcases List.mem_cons.mp hmem with heq | hmem
    · cases heq
      decide
    · cases List.mem_singleton.mp hmem
      decide
  apply admission_keeps_topics rationalOps_exact (by decide) (by decide) rfl rfl
    ⟨by decide, hhits⟩
  · unfold Clear
    decide +kernel
  · intro _ value drop old hdrop hold
    cases hnearest.symm.trans hdrop
    cases hold
    unfold Clear
    decide +kernel

/-- The third query is similar to both of the topics before it, which are not similar. It
pushes one out and, first in sorted order, stands for the other. -/
theorem bridging_query_merges_topics :
    let queries : List (List String × List ℚ) :=
      [(["doc"], [-3 / 5, 4 / 5]), (["doc"], [-4 / 5, -3 / 5]), (["doc"], [-24 / 25, 7 / 25])]
    let topics := fun n => ((FrequencyTracker.new.recordAll (embeddingVectors rationalOps) twoHits
      (queries.take n)).toOption.map fun t =>
        t.distinctTopicCount (embeddingVectors rationalOps) twoHits "doc")
    topics 2 = some 2 ∧ topics 3 = some 1 := by
  decide +kernel

end FrequencyTracker

end BlackMonolith.VectorAnchor
