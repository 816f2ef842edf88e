import BlackMonolith.VectorAnchor.TopicCoverage

/-!
# Topics and the order of queries

While neither bound of the tracker is reached by what has not expired, a document holds the
vectors of all queries within the horizon that ranked it, and the topics are counted in
sorted order: the order of the queries does not matter. Once a record is full it does,
since the hit that is evicted is the nearest to the one that comes next.
-/
namespace BlackMonolith.VectorAnchor
open Library Clustering

namespace FrequencyTracker
section
variable {V F : Type} {vectors : Vectors V F} {cfg : TrackerConfig F} {t : FrequencyTracker V}
  {docId : String} {qid : ℕ} {embedding : V}

/-! ## The record of a document while nothing is evicted -/

/-- The record of a document, empty when it has none. -/
def recordOf (t : FrequencyTracker V) (docId : String) : DocRecord V :=
  (t.docs.get? docId).getD .empty

/-- The hits of a document from query `c` on. -/
def hitsFrom (t : FrequencyTracker V) (docId : String) (c : ℤ) : List (ℕ × V) :=
  (t.recordOf docId).entries.filter fun hit => decide (c ≤ hit.1)

theorem hitsFrom_pruned (r : DocRecord V) {c : ℤ} (h : t.cutoff cfg ≤ c) :
    (t.pruneExpired cfg r).entries.filter (fun hit => decide (c ≤ hit.1)) =
      r.entries.filter fun hit => decide (c ≤ hit.1) := by
  show (r.entries.filter fun hit => decide (t.cutoff cfg ≤ hit.1)).filter _ = _
  rw [List.filter_filter]
  apply List.filter_congr
  intro hit _
  by_cases hc : c ≤ hit.1
  · rw [decide_eq_true hc, decide_eq_true (h.trans hc), Bool.and_self]
  · rw [decide_eq_false hc, Bool.false_and]

theorem length_hitsFrom_anti {c c' : ℤ} (h : c ≤ c') :
    (t.hitsFrom docId c').length ≤ (t.hitsFrom docId c).length := by
  unfold hitsFrom
  rw [← List.countP_eq_length_filter, ← List.countP_eq_length_filter]
  apply List.countP_mono_left
  intro hit _ hlive
  exact decide_eq_true (h.trans (of_decide_eq_true hlive))

theorem hitsFrom_hitsFrom {c c' : ℤ} (h : c ≤ c') :
    (t.hitsFrom docId c).filter (fun hit => decide (c' ≤ hit.1)) = t.hitsFrom docId c' := by
  unfold hitsFrom
  rw [List.filter_filter]
  apply List.filter_congr
  intro hit _
  by_cases hc : c' ≤ hit.1
  · rw [decide_eq_true hc, decide_eq_true (h.trans hc), Bool.and_self]
  · rw [decide_eq_false hc, Bool.false_and]

/-- Queries have one hit each, so with each step of the horizon at most one expires. -/
theorem length_hitsFrom_le (c : ℤ) (d : ℕ) :
    (t.hitsFrom docId c).length ≤ (t.hitsFrom docId (c + d)).length + d := by
  have hsplit := List.length_eq_length_filter_add (l := t.hitsFrom docId c)
    fun hit => decide (c + d ≤ hit.1)
  rw [hitsFrom_hitsFrom (by omega)] at hsplit
  have hnodup : (((t.hitsFrom docId c).filter fun hit => !decide (c + d ≤ hit.1)).map
      fun hit => (hit.1 : ℤ)).Nodup := by
    have hkeys : ((t.recordOf docId).entries.map Prod.fst).Nodup := (t.recordOf docId).nodup
    have hkept := hkeys.sublist ((List.filter_sublist.trans List.filter_sublist :
      ((t.hitsFrom docId c).filter fun hit => !decide (c + d ≤ hit.1)).Sublist _).map Prod.fst)
    have hcast := hkept.map (Nat.cast_injective (R := ℤ))
    rw [List.map_map] at hcast
    exact hcast
  have hbetween : (((t.hitsFrom docId c).filter fun hit => !decide (c + d ≤ hit.1)).map
      fun hit => (hit.1 : ℤ)).toFinset ⊆ Finset.Ico c (c + d) := by
    intro q hq
    obtain ⟨hit, hhit, rfl⟩ := List.mem_map.mp (List.mem_toFinset.mp hq)
    obtain ⟨hlive, hexpired⟩ := List.mem_filter.mp hhit
    rw [Bool.not_eq_true', decide_eq_false_iff_not, not_le] at hexpired
    exact Finset.mem_Ico.mpr ⟨of_decide_eq_true (List.mem_filter.mp hlive).2, hexpired⟩
  have hcard := Finset.card_le_card hbetween
  rw [List.toFinset_card_of_nodup hnodup, List.length_map, Int.card_Ico, add_sub_cancel_left,
    Int.toNat_natCast] at hcard
  omega

theorem pruneExpired_of_live {r : DocRecord V}
    (h : ∀ q v, r.get? q = some v → t.cutoff cfg ≤ q) : t.pruneExpired cfg r = r := by
  apply InsertionMap.ext
  apply List.filter_eq_self.mpr
  intro e he
  exact decide_eq_true (h e.1 e.2 (InsertionMap.get?_eq_some_iff.mpr he))

theorem admitHit_of_le {r : DocRecord V}
    (h : (r.set qid embedding).size ≤ cfg.maxQueriesPerDoc) :
    admitHit vectors cfg r qid embedding = r.set qid embedding := evictExcess_of_le h _ _ _

theorem get?_recordDocs_of_notMem {docIds : List String} (h : docId ∉ docIds) :
    (docIds.foldl (recordDoc vectors cfg qid embedding) t).docs.get? docId =
      t.docs.get? docId := by
  induction docIds generalizing t with
  | nil => rfl
  | cons id docIds ih =>
      simp only [List.mem_cons, not_or] at h
      rw [List.foldl_cons, ih h.2, get?_recordDoc, if_neg fun heq => h.1 heq.symm]

/-- A document that is ranked twice is recorded once. -/
theorem get?_recordDocs_of_touched {r : DocRecord V} (hget : t.docs.get? docId = some r)
    (hnew : r.get? qid = some embedding) (hlive : ∀ q v, r.get? q = some v → t.cutoff cfg ≤ q)
    (hsize : r.size ≤ cfg.maxQueriesPerDoc) (docIds : List String) :
    (docIds.foldl (recordDoc vectors cfg qid embedding) t).docs.get? docId = some r := by
  induction docIds generalizing t with
  | nil => exact hget
  | cons id docIds ih =>
      rw [List.foldl_cons]
      refine ih ?_ hlive
      rw [get?_recordDoc]
      split_ifs with heq
      · have hset : r.set qid embedding = r := InsertionMap.set_of_get? hnew
        rw [heq, hget, Option.getD_some, pruneExpired_of_live hlive,
          admitHit_of_le (by rw [hset]; exact hsize), hset]
      · exact hget

theorem get?_recordDocs {docIds : List String} (hmem : docId ∈ docIds)
    (hlive : t.cutoff cfg ≤ qid)
    (hroom : (t.pruneExpired cfg (t.recordOf docId)).size + 1 ≤ cfg.maxQueriesPerDoc) :
    (docIds.foldl (recordDoc vectors cfg qid embedding) t).docs.get? docId =
      some ((t.pruneExpired cfg (t.recordOf docId)).set qid embedding) := by
  induction docIds generalizing t with
  | nil => cases hmem
  | cons id docIds ih =>
      rw [List.foldl_cons]
      by_cases heq : id = docId
      · have hle : ((t.pruneExpired cfg (t.recordOf docId)).set qid embedding).size ≤
            cfg.maxQueriesPerDoc := by
          have hset := @InsertionMap.size_set_le ℕ V _ (t.pruneExpired cfg (t.recordOf docId)) qid
            embedding
          omega
        apply get?_recordDocs_of_touched
        · rw [get?_recordDoc, if_pos heq, heq]
          exact congrArg some (admitHit_of_le hle)
        · exact InsertionMap.get?_set_self
        · intro q v hq
          rw [InsertionMap.get?_set] at hq
          split_ifs at hq with hq'
          · rw [← hq']
            exact hlive
          · exact (get?_pruneExpired.mp hq).2
        · exact hle
      · have hsame : (recordDoc vectors cfg qid embedding t id).docs.get? docId =
            t.docs.get? docId := by rw [get?_recordDoc, if_neg heq]
        have hrecord : (recordDoc vectors cfg qid embedding t id).recordOf docId =
            t.recordOf docId := congrArg (Option.getD · InsertionMap.empty) hsame
        have hlater := @ih (recordDoc vectors cfg qid embedding t id)
          ((List.mem_cons.mp hmem).resolve_left fun h => heq h.symm) hlive
          (by rw [hrecord]; exact hroom)
        rw [hlater, hrecord]
        rfl

theorem nextQueryId_recordDocs (docIds : List String) :
    (docIds.foldl (recordDoc vectors cfg qid embedding) t).nextQueryId = t.nextQueryId := by
  induction docIds generalizing t with
  | nil => rfl
  | cons id docIds ih => exact ih

/-! ## One query -/

/-- There is room for so many more hits whenever they come, no hit is of a later query, and
only these documents are quarantined or have a hit from query `c` on. -/
structure Roomy (cfg : TrackerConfig F) (t : FrequencyTracker V) (docId : String)
    (tracked : Finset String) (c : ℤ) (hits : ℕ) : Prop where
  room : (t.hitsFrom docId (t.nextQueryId + hits - cfg.retentionHorizon)).length + hits ≤
    cfg.maxQueriesPerDoc
  earlier : ∀ q ∈ (t.recordOf docId).keys, q < t.nextQueryId
  tracked : ∀ id ∈ t.docs.keys, id ∈ t.quarantined ∨ t.hitsFrom id c ≠ [] → id ∈ tracked

/-- Below the bound on the documents that stay, pruning drops expired hits only. -/
theorem prune_roomy {tracked : Finset String} {c : ℤ} {hits : ℕ}
    (h : Roomy cfg t docId tracked c hits) (hold : c ≤ t.cutoff cfg)
    (hcard : tracked.card ≤ cfg.maxTrackedDocs) :
    Roomy cfg (t.prune cfg) docId tracked c hits ∧
      ∀ c', t.cutoff cfg ≤ c' → (t.prune cfg).hitsFrom docId c' = t.hitsFrom docId c' := by
  have hstays : ∀ id ∈ (pruneRecords cfg t t.docs.keys).docs.keys, id ∈ tracked := by
    intro id hid
    rw [← InsertionMap.has_iff, InsertionMap.has, get?_pruneRecords] at hid
    cases hget : t.docs.get? id with
    | none => rw [hget] at hid; cases hid
    | some r =>
        apply h.tracked id (InsertionMap.has_iff.mp (by rw [InsertionMap.has, hget]; rfl))
        rw [hget, Option.bind_some, prunedRecord] at hid
        split_ifs at hid with hempty
        · cases hid
        · rw [not_and_or, not_not] at hempty
          refine hempty.symm.imp_right fun hsize hnil => hsize ?_
          have hlive : t.hitsFrom id (t.cutoff cfg) = [] := by
            rw [← hitsFrom_hitsFrom hold, hnil]
            rfl
          unfold hitsFrom recordOf at hlive
          rw [hget] at hlive
          exact congrArg List.length hlive
  have hget : ∀ id, (t.prune cfg).docs.get? id =
      (t.docs.get? id).bind (prunedRecord cfg t id) := by
    intro id
    rw [prune_eq, enforce_eq, enforceOver_of_le ((InsertionMap.size_le_card hstays).trans hcard),
      get?_pruneRecords]
  have hrecord : ∀ id, (t.prune cfg).recordOf id = t.pruneExpired cfg (t.recordOf id) := by
    intro id
    unfold recordOf
    rw [hget]
    cases hold : t.docs.get? id with
    | none => rfl
    | some r =>
        rw [Option.bind_some, prunedRecord, Option.getD_some]
        split_ifs with hempty
        · exact (InsertionMap.ext (List.length_eq_zero_iff.mp hempty.1)).symm
        · rfl
  have hhits : ∀ id c', t.cutoff cfg ≤ c' →
      (t.prune cfg).hitsFrom id c' = t.hitsFrom id c' := by
    intro id c' hc
    unfold hitsFrom
    rw [hrecord]
    exact hitsFrom_pruned _ hc
  refine ⟨⟨?_, ?_, ?_⟩, hhits docId⟩
  · rw [prune_spec.1, hhits docId _ (by unfold cutoff; omega)]
    exact h.room
  · intro q hq
    rw [hrecord] at hq
    rw [prune_spec.1]
    exact h.earlier q ((List.filter_sublist.map Prod.fst).subset hq)
  · intro id hid _
    apply hstays
    rw [prune_eq, enforce_eq, enforceOver_of_le ((InsertionMap.size_le_card hstays).trans hcard)]
      at hid
    exact hid

variable (vectors docId qid) in
/-- The hit that a query is of a document, if it ranked it. -/
def hitOf (query : List String × V) : List (ℕ × V) :=
  if docId ∈ query.1 then [(qid, vectors.normalize query.2)] else []

/-- A document that is not ranked keeps its hits. -/
theorem hitsFrom_recordDocs_of_notMem {docIds : List String} (h : docId ∉ docIds) (c : ℤ) :
    (docIds.foldl (recordDoc vectors cfg qid embedding) t).hitsFrom docId c =
      t.hitsFrom docId c := by
  unfold hitsFrom recordOf
  rw [get?_recordDocs_of_notMem h]

/-- The record of a ranked document ends with the new hit, if there is room for it. -/
theorem entries_recordDocs {docIds : List String} (hmem : docId ∈ docIds)
    (hearlier : ∀ q ∈ (t.recordOf docId).keys, q < qid) (hlive : t.cutoff cfg ≤ qid)
    (hroom : (t.hitsFrom docId (t.cutoff cfg)).length + 1 ≤ cfg.maxQueriesPerDoc) :
    ((docIds.foldl (recordDoc vectors cfg qid embedding) t).recordOf docId).entries =
      t.hitsFrom docId (t.cutoff cfg) ++ [(qid, embedding)] := by
  have hfresh : qid ∉ (t.pruneExpired cfg (t.recordOf docId)).keys := fun hq =>
    absurd (hearlier qid ((List.filter_sublist.map Prod.fst).subset hq)) (Nat.lt_irrefl _)
  have hrecord : (docIds.foldl (recordDoc vectors cfg qid embedding) t).recordOf docId =
      (t.pruneExpired cfg (t.recordOf docId)).set qid embedding :=
    congrArg (Option.getD · InsertionMap.empty) (get?_recordDocs hmem hlive hroom)
  rw [hrecord]
  exact entries_set_of_fresh hfresh embedding

/-- The ranked documents gain a hit each. -/
theorem recordDocs_roomy {tracked : Finset String} {hits : ℕ} {query : List String × V} {c : ℤ}
    (hroom : (t.hitsFrom docId (qid + ↑(hits + (hitOf vectors docId qid query).length) -
      cfg.retentionHorizon)).length + (hits + (hitOf vectors docId qid query).length) ≤
        cfg.maxQueriesPerDoc)
    (htracked : ∀ id ∈ t.docs.keys, id ∈ t.quarantined ∨ t.hitsFrom id c ≠ [] → id ∈ tracked)
    (hearlier : ∀ q ∈ (t.recordOf docId).keys, q < qid) (hnext : t.nextQueryId = qid + 1)
    (hranked : ∀ id ∈ query.1, id ∈ tracked) (hhorizon : 0 < cfg.retentionHorizon) :
    let t' := query.1.foldl (recordDoc vectors cfg qid (vectors.normalize query.2)) t
    Roomy cfg t' docId tracked c hits ∧
      ∀ c' : ℤ, c' ≤ qid → t.cutoff cfg ≤ c' →
        t'.hitsFrom docId c' = t.hitsFrom docId c' ++ hitOf vectors docId qid query := by
  intro t'
  have hcutoff : t.cutoff cfg = qid + 1 - cfg.retentionHorizon := by
    unfold cutoff
    rw [hnext]
    push_cast
    rfl
  have hnext' : t'.nextQueryId = qid + 1 := (nextQueryId_recordDocs _).trans hnext
  have hkeys : ∀ id ∈ t'.docs.keys, id ∈ t'.quarantined ∨ t'.hitsFrom id c ≠ [] →
      id ∈ tracked := by
    intro id hid hlive
    by_cases hmem : id ∈ query.1
    · exact hranked id hmem
    · rw [← InsertionMap.has_iff, InsertionMap.has, get?_recordDocs_of_notMem hmem] at hid
      rw [hitsFrom_recordDocs_of_notMem hmem, quarantined_recordDocs] at hlive
      exact htracked id (InsertionMap.has_iff.mp hid) hlive
  by_cases hmem : docId ∈ query.1
  · have hhit : hitOf vectors docId qid query = [(qid, vectors.normalize query.2)] := if_pos hmem
    rw [hhit] at hroom ⊢
    rw [List.length_singleton] at hroom
    have hstep := @length_hitsFrom_le V t docId (qid + 1 - cfg.retentionHorizon) hits
    have hlast : (qid : ℤ) + ↑(hits + 1) - cfg.retentionHorizon =
        qid + 1 - cfg.retentionHorizon + hits := by
      push_cast
      ring
    rw [hlast] at hroom
    have hentries : (t'.recordOf docId).entries =
        t.hitsFrom docId (t.cutoff cfg) ++ [(qid, vectors.normalize query.2)] :=
      entries_recordDocs hmem hearlier (by rw [hcutoff]; omega) (by rw [hcutoff]; omega)
    have hhits : ∀ c' : ℤ, t.cutoff cfg ≤ c' → t'.hitsFrom docId c' =
        t.hitsFrom docId c' ++ [(qid, vectors.normalize query.2)].filter
          fun hit => decide (c' ≤ hit.1) := by
      intro c' hc'
      unfold hitsFrom at hentries ⊢
      rw [hentries, List.filter_append]
      exact congrArg (· ++ _) (hitsFrom_hitsFrom hc')
    refine ⟨⟨?_, ?_, hkeys⟩, ?_⟩
    · have hone := List.length_filter_le (fun hit : ℕ × V =>
        decide ((qid : ℤ) + 1 - cfg.retentionHorizon + hits ≤ hit.1))
          [(qid, vectors.normalize query.2)]
      rw [hnext', show ((qid + 1 : ℕ) : ℤ) + hits - cfg.retentionHorizon =
        qid + 1 - cfg.retentionHorizon + hits by push_cast; ring,
        hhits _ (by rw [hcutoff]; omega), List.length_append]
      rw [List.length_singleton] at hone
      omega
    · intro q hq
      rw [hnext']
      rw [InsertionMap.keys, hentries, List.map_append] at hq
      rcases List.mem_append.mp hq with hq | hq
      · exact Nat.lt_succ_of_lt (hearlier q ((List.filter_sublist.map Prod.fst).subset hq))
      · rw [List.mem_singleton.mp hq]
        exact Nat.lt_succ_self qid
    · intro c' hc hc'
      rw [hhits c' hc', List.filter_singleton, decide_eq_true hc]
      rfl
  · have hhit : hitOf vectors docId qid query = [] := if_neg hmem
    have hrecord : t'.recordOf docId = t.recordOf docId :=
      congrArg (Option.getD · InsertionMap.empty) (get?_recordDocs_of_notMem hmem)
    rw [hhit] at hroom ⊢
    rw [List.length_nil, Nat.add_zero] at hroom
    refine ⟨⟨?_, ?_, hkeys⟩, fun c' _ _ => ?_⟩
    · rw [hnext', hitsFrom_recordDocs_of_notMem hmem]
      refine le_trans (Nat.add_le_add_right (length_hitsFrom_anti ?_) hits) hroom
      push_cast
      omega
    · intro q hq
      rw [hnext']
      rw [hrecord] at hq
      exact Nat.lt_succ_of_lt (hearlier q hq)
    · rw [hitsFrom_recordDocs_of_notMem hmem, List.append_nil]

theorem recordQuery_roomy {tracked : Finset String} {hits : ℕ} {query : List String × V}
    {t' : FrequencyTracker V} {c : ℤ}
    (h : Roomy cfg t docId tracked c (hits + (hitOf vectors docId t.nextQueryId query).length))
    (hranked : ∀ id ∈ query.1, id ∈ tracked) (hcard : tracked.card ≤ cfg.maxTrackedDocs)
    (hhorizon : 0 < cfg.retentionHorizon) (hc : c ≤ t.nextQueryId + 1 - cfg.retentionHorizon)
    (hrecord : t.recordQuery vectors cfg query.1 query.2 = .ok t') :
    Roomy cfg t' docId tracked c hits ∧ t'.nextQueryId = t.nextQueryId + 1 ∧
      ∀ c' : ℤ, c' ≤ t.nextQueryId → t.nextQueryId + 1 - cfg.retentionHorizon ≤ c' →
        t'.hitsFrom docId c' =
          t.hitsFrom docId c' ++ hitOf vectors docId t.nextQueryId query := by
  unfold recordQuery at hrecord
  split_ifs at hrecord
  simp only [Except.ok.injEq] at hrecord
  obtain ⟨hroomy, hhits⟩ := @recordDocs_roomy V F vectors cfg
    { t with embeddingDim := some (vectors.dim query.2), nextQueryId := t.nextQueryId + 1 }
    docId t.nextQueryId tracked hits query c h.room h.tracked h.earlier rfl hranked hhorizon
  have hnext := @nextQueryId_recordDocs V F vectors cfg
    { t with embeddingDim := some (vectors.dim query.2), nextQueryId := t.nextQueryId + 1 }
    t.nextQueryId (vectors.normalize query.2) query.1
  generalize query.1.foldl (recordDoc vectors cfg t.nextQueryId (vectors.normalize query.2))
    { t with embeddingDim := some (vectors.dim query.2), nextQueryId := t.nextQueryId + 1 } = u
    at *
  dsimp only at hnext
  have hcutoff : u.cutoff cfg = t.nextQueryId + 1 - cfg.retentionHorizon := by
    unfold cutoff
    rw [hnext]
    push_cast
    rfl
  have hlater : ∀ c' : ℤ, c' ≤ t.nextQueryId → t.nextQueryId + 1 - cfg.retentionHorizon ≤ c' →
      u.hitsFrom docId c' = t.hitsFrom docId c' ++ hitOf vectors docId t.nextQueryId query := by
    intro c' hc hc'
    refine hhits c' hc ?_
    unfold cutoff
    push_cast
    exact hc'
  split_ifs at hrecord
  · obtain ⟨hpruned, hkept⟩ := prune_roomy hroomy (hcutoff ▸ hc) hcard
    rw [← hrecord]
    refine ⟨hpruned, prune_spec.1.trans hnext, fun c' hle hge => ?_⟩
    rw [hkept c' (hcutoff ▸ hge)]
    exact hlater c' hle hge
  · rw [← hrecord]
    exact ⟨hroomy, hnext, hlater⟩

/-! ## A run of queries -/

variable (vectors docId) in
/-- The vectors of the queries that ranked a document. -/
def vectorsOf (queries : List (List String × V)) : List V :=
  (queries.filter fun query => decide (docId ∈ query.1)).map fun query =>
    vectors.normalize query.2

theorem vectorsOf_cons (query : List String × V) (queries : List (List String × V)) (q : ℕ) :
    vectorsOf vectors docId (query :: queries) =
      (hitOf vectors docId q query).map Prod.snd ++ vectorsOf vectors docId queries := by
  unfold vectorsOf hitOf
  rw [List.filter_cons]
  by_cases hmem : docId ∈ query.1
  · rw [decide_eq_true hmem, if_pos rfl, if_pos hmem]
    rfl
  · rw [decide_eq_false hmem, if_neg Bool.false_ne_true, if_neg hmem]
    rfl

/-- A run that evicts nothing adds the vectors of the queries to those held before. -/
theorem recordAll_hits {tracked : Finset String} {t' : FrequencyTracker V} {c c' : ℤ}
    {queries : List (List String × V)}
    (h : Roomy cfg t docId tracked c (vectorsOf vectors docId queries).length)
    (hranked : ∀ query ∈ queries, ∀ id ∈ query.1, id ∈ tracked)
    (hcard : tracked.card ≤ cfg.maxTrackedDocs)
    (hold : c ≤ t.nextQueryId + 1 - cfg.retentionHorizon) (hc : c' ≤ t.nextQueryId)
    (hc' : t.nextQueryId + queries.length - cfg.retentionHorizon ≤ c')
    (hrun : t.recordAll vectors cfg queries = .ok t') :
    t'.nextQueryId = t.nextQueryId + queries.length ∧
      (t'.hitsFrom docId c').map Prod.snd =
        (t.hitsFrom docId c').map Prod.snd ++ vectorsOf vectors docId queries := by
  induction queries generalizing t with
  | nil =>
      cases hrun
      exact ⟨rfl, (List.append_nil _).symm⟩
  | cons query queries ih =>
      obtain ⟨hquery, hqueries⟩ := List.forall_mem_cons.mp hranked
      have hvectors := @vectorsOf_cons V F vectors docId query queries t.nextQueryId
      rw [hvectors, List.length_append, List.length_map, Nat.add_comm] at h
      rw [hvectors]
      rw [List.length_cons] at hc'
      push_cast at hc'
      rw [recordAll] at hrun
      cases hrecord : t.recordQuery vectors cfg query.1 query.2 with
      | error message => rw [hrecord] at hrun; cases hrun
      | ok t₁ =>
          rw [hrecord] at hrun
          obtain ⟨hroomy, hnext, hhits⟩ :=
            recordQuery_roomy h hquery hcard (by omega) hold hrecord
          obtain ⟨hn, hall⟩ := ih hroomy hqueries (by rw [hnext]; push_cast; omega)
            (by rw [hnext]; push_cast; omega) (by rw [hnext]; push_cast; omega) hrun
          refine ⟨by rw [hn, hnext, List.length_cons]; omega, ?_⟩
          rw [hall, hhits c' hc (by omega), List.map_append, List.append_assoc]

/-! ## The queries that are recorded -/

theorem embeddingDim_recordDocs (docIds : List String) :
    (docIds.foldl (recordDoc vectors cfg qid embedding) t).embeddingDim = t.embeddingDim := by
  induction docIds generalizing t with
  | nil => rfl
  | cons id docIds ih => exact ih

/-- A finite vector of the dimension of the earlier ones is recorded. -/
theorem recordQuery_ok_iff {query : List String × V} :
    (∃ t', t.recordQuery vectors cfg query.1 query.2 = .ok t') ↔
      vectors.isFinite query.2 = true ∧ ∀ d, t.embeddingDim = some d → d = vectors.dim query.2 := by
  unfold recordQuery
  cases hfinite : vectors.isFinite query.2 with
  | false => simp
  | true =>
      cases hdim : t.embeddingDim with
      | none => simp
      | some d => by_cases heq : d = vectors.dim query.2 <;> simp [heq]

theorem embeddingDim_recordQuery {query : List String × V} {t' : FrequencyTracker V}
    (h : t.recordQuery vectors cfg query.1 query.2 = .ok t') :
    t'.embeddingDim = some (vectors.dim query.2) := by
  unfold recordQuery at h
  split_ifs at h
  simp only [Except.ok.injEq] at h
  rw [← h]
  split_ifs
  · rw [prune_spec.2.1, embeddingDim_recordDocs]
  · rw [embeddingDim_recordDocs]

/-- Whether a run is recorded to its end does not depend on its order. -/
theorem recordAll_ok_iff {queries : List (List String × V)} :
    (∃ t', t.recordAll vectors cfg queries = .ok t') ↔
      ∀ query ∈ queries, vectors.isFinite query.2 = true ∧
        (∀ d, t.embeddingDim = some d → d = vectors.dim query.2) ∧
        ∀ query' ∈ queries, vectors.dim query'.2 = vectors.dim query.2 := by
  induction queries generalizing t with
  | nil => exact ⟨fun _ => List.forall_mem_nil _, fun _ => ⟨t, rfl⟩⟩
  | cons query queries ih =>
      constructor
      · rintro ⟨t', hrun⟩
        rw [recordAll] at hrun
        cases hrecord : t.recordQuery vectors cfg query.1 query.2 with
        | error message => rw [hrecord] at hrun; cases hrun
        | ok t₁ =>
            rw [hrecord] at hrun
            obtain ⟨hfinite, hdim⟩ := recordQuery_ok_iff.mp ⟨t₁, hrecord⟩
            have hlater := ih.mp ⟨t', hrun⟩
            have hsame : ∀ query' ∈ queries, vectors.dim query.2 = vectors.dim query'.2 :=
              fun query' hmem => (hlater query' hmem).2.1 _ (embeddingDim_recordQuery hrecord)
            have hall : ∀ query' ∈ query :: queries, vectors.dim query'.2 = vectors.dim query.2 :=
              List.forall_mem_cons.mpr ⟨rfl, fun query' hmem => (hsame query' hmem).symm⟩
            intro query' hmem
            refine ⟨?_, fun d hd => (hdim d hd).trans (hall query' hmem).symm,
              fun query'' hmem' => (hall query'' hmem').trans (hall query' hmem).symm⟩
            rcases List.mem_cons.mp hmem with rfl | hmem
            · exact hfinite
            · exact (hlater query' hmem).1
      · intro h
        obtain ⟨hfinite, hdim, hsame⟩ := h query List.mem_cons_self
        obtain ⟨t₁, hrecord⟩ := recordQuery_ok_iff.mpr ⟨hfinite, hdim⟩
        rw [recordAll, hrecord]
        apply ih.mpr
        intro query' hmem
        obtain ⟨hfinite', -, hsame'⟩ := h query' (List.mem_cons_of_mem _ hmem)
        refine ⟨hfinite', fun d hd => ?_, fun query'' hmem' =>
          hsame' query'' (List.mem_cons_of_mem _ hmem')⟩
        rw [embeddingDim_recordQuery hrecord] at hd
        rw [← Option.some.inj hd]
        exact hsame' query List.mem_cons_self

/-! ## The score after a run -/

theorem distinctTopicCount_hits (h : Arranges vectors.sorted) :
    t.distinctTopicCount vectors cfg docId =
      count (similar vectors cfg) vectors.sorted
        ((t.hitsFrom docId (t.cutoff cfg)).map Prod.snd) := by
  cases hrecord : t.docs.get? docId with
  | none =>
      have hnil : vectors.sorted [] = [] := List.perm_nil.mp (h.perm [])
      unfold distinctTopicCount hitsFrom recordOf count
      rw [hrecord]
      show 0 = (greedy _ (vectors.sorted [])).length
      rw [hnil]
      rfl
  | some record =>
      rw [distinctTopicCount_eq hrecord]
      unfold hitsFrom recordOf
      rw [hrecord]
      rfl

variable (t) in
/-- The documents that are quarantined or have a hit from query `c` on. -/
def keptFrom (c : ℤ) : List String :=
  t.docs.keys.filter fun id => decide (id ∈ t.quarantined ∨ (t.hitsFrom id c).length ≠ 0)

end

end FrequencyTracker

end BlackMonolith.VectorAnchor
