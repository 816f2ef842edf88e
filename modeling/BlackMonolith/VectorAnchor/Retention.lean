import BlackMonolith.VectorAnchor.FrequencyTracker

/-!
# What the tracker retains

Each function of the tracker is described by what it does to the record of a
document: admitting a hit evicts down to the cap, pruning drops expired hits
and empty records, and the bound on tracked documents erases the oldest records
outside the quarantined set.
-/
namespace BlackMonolith.Library.InsertionMap
variable {κ ν : Type} [DecidableEq κ] {m : InsertionMap κ ν} {k : κ}

/-- Erasing a key that is there takes one entry away. -/
theorem size_erase_of_has (h : m.has k = true) : (m.erase k).size + 1 = m.size := by
  have hkeys : (m.erase k).keys = m.keys.erase k := by
    have hnodup : m.keys.Nodup := m.nodup
    rw [List.Nodup.erase_eq_filter hnodup]
    simp only [keys, erase, filter, List.filter_map]
    congr 1
  have hlength : (m.erase k).keys.length + 1 = m.keys.length := by
    rw [hkeys, List.length_erase_add_one (has_iff.mp h)]
  simpa only [keys, size, List.length_map] using hlength

theorem size_le_of_keys {m' : InsertionMap κ ν} (h : ∀ k ∈ m'.keys, k ∈ m.keys) :
    m'.size ≤ m.size := by
  have hcard := size_le_card fun k hk => List.mem_toFinset.mpr (h k hk)
  have hkeys : m.keys.toFinset.card ≤ m.size := by
    have hle := List.toFinset_card_le m.keys
    simpa only [keys, size, List.length_map] using hle
  omega

theorem size_set_le (v : ν) : (m.set k v).size ≤ m.size + 1 := by
  have hsub : ∀ k' ∈ (m.set k v).keys, k' ∈ insert k m.keys.toFinset := by
    intro k' hk'
    have hhas := has_iff.mpr hk'
    rw [has_set, Bool.or_eq_true, decide_eq_true_eq] at hhas
    rcases hhas with rfl | hold
    · exact Finset.mem_insert_self _ _
    · exact Finset.mem_insert_of_mem (List.mem_toFinset.mpr (has_iff.mp hold))
  have hcard := size_le_card hsub
  have hkeys : m.keys.toFinset.card ≤ m.size := by
    have hle := List.toFinset_card_le m.keys
    simpa only [keys, size, List.length_map] using hle
  have hinsert := Finset.card_insert_le k m.keys.toFinset
  omega

end BlackMonolith.Library.InsertionMap

namespace BlackMonolith.VectorAnchor
open Library

namespace FrequencyTracker
variable {V F : Type} {vectors : Vectors V F} {cfg : TrackerConfig F} {t : FrequencyTracker V}

/-! ## Hits of one document -/

variable (vectors) in
/-- The better of the best hit so far and a candidate. -/
def betterHit (embedding : V) (qid : ℕ) (best : Option (F × ℕ)) (candidate : ℕ × V) :
    Option (F × ℕ) :=
  if candidate.1 = qid then best
  else
    let similarity := vectors.unitDot embedding candidate.2
    match best with
    | none => some (similarity, candidate.1)
    | some (value, _) =>
        if vectors.greater similarity value then some (similarity, candidate.1) else best

theorem betterHit_of_ne {embedding : V} {qid : ℕ} {candidate : ℕ × V} (hne : candidate.1 ≠ qid)
    (best : Option (F × ℕ)) :
    betterHit vectors embedding qid best candidate =
        some (vectors.unitDot embedding candidate.2, candidate.1) ∨
      (betterHit vectors embedding qid best candidate = best ∧ best.isSome) := by
  unfold betterHit
  rw [if_neg hne]
  cases best with
  | none => exact Or.inl rfl
  | some p =>
      dsimp only
      split
      · exact Or.inl rfl
      · exact Or.inr ⟨rfl, rfl⟩

/-- The fold over the hits ends with the best so far or with one of them. -/
theorem foldl_betterHit {embedding : V} {qid : ℕ} (entries : List (ℕ × V))
    {best : Option (F × ℕ)} (hsome : best.isSome ∨ ∃ e ∈ entries, e.1 ≠ qid)
    (hbest : ∀ p, best = some p → p.2 ≠ qid) :
    ∃ p, entries.foldl (betterHit vectors embedding qid) best = some p ∧ p.2 ≠ qid ∧
      (p.2 ∈ entries.map Prod.fst ∨ best = some p) := by
  induction entries generalizing best with
  | nil =>
      rcases hsome with hsome | ⟨e, he, -⟩
      · obtain ⟨p, hp⟩ := Option.isSome_iff_exists.mp hsome
        exact ⟨p, hp, hbest p hp, Or.inr hp⟩
      · cases he
  | cons e entries ih =>
      rw [List.foldl_cons]
      by_cases heq : e.1 = qid
      · have hskip : betterHit vectors embedding qid best e = best := if_pos heq
        rw [hskip]
        have hsome' : best.isSome ∨ ∃ e' ∈ entries, e'.1 ≠ qid := by
          rcases hsome with hsome | ⟨e', he', hne⟩
          · exact Or.inl hsome
          · rcases List.mem_cons.mp he' with rfl | he'
            · exact absurd heq hne
            · exact Or.inr ⟨e', he', hne⟩
        obtain ⟨p, hp, hne, hmem⟩ := ih hsome' hbest
        exact ⟨p, hp, hne, hmem.imp_left (List.mem_cons_of_mem _)⟩
      · rcases betterHit_of_ne heq best with hnext | ⟨hnext, hsome'⟩
        · rw [hnext]
          have hbest' : ∀ p, some (vectors.unitDot embedding e.2, e.1) = some p → p.2 ≠ qid := by
            intro p hp
            cases hp
            exact heq
          obtain ⟨p, hp, hne, hmem⟩ := ih (Or.inl rfl) hbest'
          refine ⟨p, hp, hne, Or.inl ?_⟩
          rcases hmem with hmem | hmem
          · exact List.mem_cons_of_mem _ hmem
          · cases hmem
            exact List.mem_cons_self
        · rw [hnext]
          obtain ⟨p, hp, hne, hmem⟩ := ih (Or.inl hsome') hbest
          exact ⟨p, hp, hne, hmem.imp_left (List.mem_cons_of_mem _)⟩

/-- Among hits other than the new one, one is the most similar. -/
theorem mostSimilar_spec {embedding : V} {qid : ℕ} (entries : List (ℕ × V))
    (h : ∃ e ∈ entries, e.1 ≠ qid) :
    ∃ p, mostSimilar vectors embedding qid entries = some p ∧ p.2 ≠ qid ∧
      p.2 ∈ entries.map Prod.fst := by
  obtain ⟨p, hp, hne, hmem⟩ := @foldl_betterHit V F vectors embedding qid entries none (Or.inr h)
    (by rintro p ⟨⟩)
  refine ⟨p, hp, hne, ?_⟩
  rcases hmem with hmem | hmem
  · exact hmem
  · cases hmem

/-- A record of hits among those of another. -/
def Among (r' r : DocRecord V) : Prop := ∀ q v, r'.get? q = some v → r.get? q = some v

theorem Among.refl (r : DocRecord V) : Among r r := fun _ _ => id

theorem Among.trans {r r' r'' : DocRecord V} (h : Among r'' r') (h' : Among r' r) : Among r'' r :=
  fun q v hv => h' q v (h q v hv)

theorem among_erase (r : DocRecord V) (q : ℕ) : Among (r.erase q) r := by
  intro q' v hv
  rw [InsertionMap.get?_erase] at hv
  split_ifs at hv
  exact hv

/-- One eviction drops one hit, and not the new one. -/
theorem evictFor_spec {record : DocRecord V} {qid : ℕ} {embedding : V}
    (hnew : record.has qid = true) (hsize : 1 < record.size) :
    (evictFor vectors record qid embedding).size + 1 = record.size ∧
      (evictFor vectors record qid embedding).has qid = true ∧
      Among (evictFor vectors record qid embedding) record := by
  have hother : ∃ e ∈ record.entries, e.1 ≠ qid := by
    by_contra hall
    simp only [not_exists, not_and, not_not] at hall
    have hkeys : ∀ k ∈ record.keys, k ∈ ({qid} : Finset ℕ) := by
      intro k hk
      obtain ⟨e, he, rfl⟩ := List.mem_map.mp hk
      exact Finset.mem_singleton.mpr (hall e he)
    have hle := InsertionMap.size_le_card hkeys
    rw [Finset.card_singleton] at hle
    omega
  obtain ⟨⟨value, drop⟩, hbest, hdrop, hmem⟩ :=
    @mostSimilar_spec V F vectors embedding qid record.entries hother
  unfold evictFor
  rw [hbest]
  refine ⟨InsertionMap.size_erase_of_has (InsertionMap.has_iff.mpr hmem), ?_, among_erase _ _⟩
  rw [InsertionMap.has_erase, hnew, Bool.and_true, Bool.not_eq_true', decide_eq_false_iff_not]
  exact fun heq => hdrop heq.symm

/-- The loop stops at the cap. -/
theorem evictExcess_spec (hcap : 1 ≤ cfg.maxQueriesPerDoc) {qid : ℕ} {embedding : V} (fuel : ℕ)
    {record : DocRecord V} (hnew : record.has qid = true)
    (hfuel : record.size ≤ fuel + cfg.maxQueriesPerDoc) :
    (evictExcess vectors cfg fuel record qid embedding).size ≤ cfg.maxQueriesPerDoc ∧
      Among (evictExcess vectors cfg fuel record qid embedding) record := by
  induction fuel generalizing record with
  | zero =>
      unfold evictExcess
      exact ⟨by omega, Among.refl record⟩
  | succ fuel ih =>
      unfold evictExcess
      split
      · next hexcess =>
          obtain ⟨hsize, hkept, hamong⟩ :=
            @evictFor_spec V F vectors record qid embedding hnew (by omega)
          obtain ⟨hle, hamong'⟩ := ih hkept (by omega)
          exact ⟨hle, hamong'.trans hamong⟩
      · next hexcess => exact ⟨Nat.not_lt.mp hexcess, Among.refl record⟩

/-- Admitting a hit keeps to the cap and adds nothing but the hit. -/
theorem admitHit_spec (hcap : 1 ≤ cfg.maxQueriesPerDoc) (record : DocRecord V) (qid : ℕ)
    (embedding : V) :
    (admitHit vectors cfg record qid embedding).size ≤ cfg.maxQueriesPerDoc ∧
      ∀ q v, (admitHit vectors cfg record qid embedding).get? q = some v →
        (q = qid ∧ v = embedding) ∨ record.get? q = some v := by
  have hnew : (record.set qid embedding).has qid = true := by simp
  obtain ⟨hsize, hamong⟩ := @evictExcess_spec V F vectors cfg hcap qid embedding
    (record.set qid embedding).size (record.set qid embedding) hnew (Nat.le_add_right _ _)
  refine ⟨hsize, fun q v hv => ?_⟩
  have hset := hamong q v hv
  rw [InsertionMap.get?_set] at hset
  split_ifs at hset with heq
  · exact Or.inl ⟨heq.symm, (Option.some.inj hset).symm⟩
  · exact Or.inr hset

theorem get?_pruneExpired {record : DocRecord V} {q : ℕ} {v : V} :
    (t.pruneExpired cfg record).get? q = some v ↔ record.get? q = some v ∧ t.cutoff cfg ≤ q := by
  unfold pruneExpired
  rw [InsertionMap.get?_filter, Option.filter_eq_some_iff, decide_eq_true_eq]

/-! ## Pruning -/

/-- What pruning makes of the record of a document. -/
def prunedRecord (cfg : TrackerConfig F) (t : FrequencyTracker V) (docId : String)
    (record : DocRecord V) : Option (DocRecord V) :=
  if (t.pruneExpired cfg record).size = 0 ∧ docId ∉ t.quarantined then none
  else some (t.pruneExpired cfg record)

/-- `prune` before the bound on tracked documents. -/
def pruneRecords (cfg : TrackerConfig F) (t : FrequencyTracker V) (keys : List String) :
    FrequencyTracker V :=
  keys.foldl (fun t docId =>
    match t.docs.get? docId with
    | none => t
    | some record =>
        let record := t.pruneExpired cfg record
        if record.size = 0 ∧ docId ∉ t.quarantined then { t with docs := t.docs.erase docId }
        else { t with docs := t.docs.set docId record }) t

theorem prune_eq : t.prune cfg = (pruneRecords cfg t t.docs.keys).enforceMaxTrackedDocs cfg := rfl

/-- Pruning looks at each document once. -/
theorem pruneRecords_spec {keys : List String} (hkeys : keys.Nodup) :
    (pruneRecords cfg t keys).quarantined = t.quarantined ∧
    (pruneRecords cfg t keys).nextQueryId = t.nextQueryId ∧
    (pruneRecords cfg t keys).embeddingDim = t.embeddingDim ∧
    ∀ id, (pruneRecords cfg t keys).docs.get? id =
      if id ∈ keys then (t.docs.get? id).bind (prunedRecord cfg t id) else t.docs.get? id := by
  unfold pruneRecords
  induction keys generalizing t with
  | nil => exact ⟨rfl, rfl, rfl, fun id => by simp⟩
  | cons docId keys ih =>
      obtain ⟨hnew, hkeys'⟩ := List.nodup_cons.mp hkeys
      rw [List.foldl_cons]
      cases hget : t.docs.get? docId with
      | none =>
          obtain ⟨hq, hn, hd, hdocs⟩ := @ih t hkeys'
          refine ⟨hq, hn, hd, fun id => ?_⟩
          rw [hdocs id]
          by_cases heq : id = docId
          · simp [heq, hget, hnew]
          · simp [heq]
      | some record =>
          dsimp only
          by_cases hdrop : (t.pruneExpired cfg record).size = 0 ∧ docId ∉ t.quarantined
          · rw [if_pos hdrop]
            obtain ⟨hq, hn, hd, hdocs⟩ := @ih { t with docs := t.docs.erase docId } hkeys'
            refine ⟨hq, hn, hd, fun id => ?_⟩
            rw [hdocs id]
            simp only [InsertionMap.get?_erase]
            by_cases heq : id = docId
            · subst heq
              simp [hnew, hget, prunedRecord, hdrop]
            · simp only [heq, if_false, List.mem_cons, false_or]
              rfl
          · rw [if_neg hdrop]
            obtain ⟨hq, hn, hd, hdocs⟩ := @ih
              { t with docs := t.docs.set docId (t.pruneExpired cfg record) } hkeys'
            refine ⟨hq, hn, hd, fun id => ?_⟩
            rw [hdocs id]
            simp only [InsertionMap.get?_set]
            by_cases heq : docId = id
            · subst heq
              simp [hnew, hget, prunedRecord, hdrop]
            · have heq' : ¬ id = docId := fun h => heq h.symm
              simp only [heq, heq', if_false, List.mem_cons, false_or]
              rfl

theorem get?_pruneRecords (id : String) : (pruneRecords cfg t t.docs.keys).docs.get? id =
    (t.docs.get? id).bind (prunedRecord cfg t id) := by
  have hnodup : t.docs.keys.Nodup := t.docs.nodup
  obtain ⟨-, -, -, hdocs⟩ := @pruneRecords_spec V F cfg t t.docs.keys hnodup
  rw [hdocs id]
  split_ifs with hid
  · rfl
  · rw [InsertionMap.get?_eq_none_iff.mpr hid]
    rfl

/-! ## The bound on tracked documents -/

/-- The documents that count against the bound. -/
def unquarantined (t : FrequencyTracker V) : List String :=
  t.docs.keys.filter fun docId => docId ∉ t.quarantined

/-- The loop of `_enforce_max_tracked_docs` over some documents. -/
def enforceOver (cfg : TrackerConfig F) (t : FrequencyTracker V) (keys : List String) :
    FrequencyTracker V :=
  keys.foldl (fun t docId =>
    if t.docs.size ≤ cfg.maxTrackedDocs ∨ docId ∈ t.quarantined then t
    else { t with docs := t.docs.erase docId }) t

theorem enforce_eq : t.enforceMaxTrackedDocs cfg = enforceOver cfg t t.docs.keys := rfl

/-- Records go away whole, never those of quarantined documents, until few
enough are left or all that were looked at are gone. -/
theorem enforceOver_spec (keys : List String) :
    (enforceOver cfg t keys).quarantined = t.quarantined ∧
    (enforceOver cfg t keys).nextQueryId = t.nextQueryId ∧
    (enforceOver cfg t keys).embeddingDim = t.embeddingDim ∧
    (∀ id r, (enforceOver cfg t keys).docs.get? id = some r → t.docs.get? id = some r) ∧
    (∀ id ∈ t.quarantined, (enforceOver cfg t keys).docs.get? id = t.docs.get? id) ∧
    ((enforceOver cfg t keys).docs.size ≤ cfg.maxTrackedDocs ∨
      ∀ id ∈ keys, id ∉ t.quarantined → (enforceOver cfg t keys).docs.get? id = none) := by
  unfold enforceOver
  induction keys generalizing t with
  | nil => exact ⟨rfl, rfl, rfl, fun _ _ => id, fun _ _ => rfl, Or.inr (by simp)⟩
  | cons docId keys ih =>
      rw [List.foldl_cons]
      by_cases hstay : t.docs.size ≤ cfg.maxTrackedDocs ∨ docId ∈ t.quarantined
      · rw [if_pos hstay]
        obtain ⟨hq, hn, hd, hsub, hkept, hbound⟩ := @ih t
        refine ⟨hq, hn, hd, hsub, hkept, ?_⟩
        rcases hstay with hsize | hquarantined
        · left
          apply le_trans _ hsize
          apply InsertionMap.size_le_of_keys
          intro id hid
          obtain ⟨r, hr⟩ := Option.isSome_iff_exists.mp (InsertionMap.has_iff.mpr hid)
          exact InsertionMap.has_iff.mp (Option.isSome_iff_exists.mpr ⟨r, hsub id r hr⟩)
        · refine hbound.imp_right fun hgone id hid hfree => ?_
          rcases List.mem_cons.mp hid with rfl | hid
          · exact absurd hquarantined hfree
          · exact hgone id hid hfree
      · rw [if_neg hstay]
        simp only [not_or] at hstay
        obtain ⟨hq, hn, hd, hsub, hkept, hbound⟩ := @ih { t with docs := t.docs.erase docId }
        have hsub' : ∀ id r, (t.docs.erase docId).get? id = some r →
            id ≠ docId ∧ t.docs.get? id = some r := by
          intro id r hr
          rw [InsertionMap.get?_erase] at hr
          split_ifs at hr with heq
          exact ⟨heq, hr⟩
        refine ⟨hq, hn, hd, fun id r hr => (hsub' id r (hsub id r hr)).2, ?_, ?_⟩
        · intro id hid
          have hne : id ≠ docId := fun heq => hstay.2 (heq ▸ hid)
          rw [hkept id hid]
          dsimp only
          rw [InsertionMap.get?_erase, if_neg hne]
        · refine hbound.imp_right fun hgone id hid hfree => ?_
          rcases List.mem_cons.mp hid with rfl | hid
          · apply Option.eq_none_iff_forall_ne_some.mpr
            intro r hr
            exact (hsub' id r (hsub id r hr)).1 rfl
          · exact hgone id hid hfree

/-- After the bound is enforced, few enough documents outside the quarantine are tracked. -/
theorem unquarantined_enforce :
    (t.enforceMaxTrackedDocs cfg).unquarantined.length ≤ cfg.maxTrackedDocs := by
  rw [enforce_eq]
  obtain ⟨hq, -, -, hsub, -, hbound⟩ := @enforceOver_spec V F cfg t t.docs.keys
  rcases hbound with hsize | hgone
  · apply le_trans (List.length_filter_le _ _)
    simpa only [InsertionMap.keys, InsertionMap.size, List.length_map] using hsize
  · have hnil : (enforceOver cfg t t.docs.keys).unquarantined = [] := by
      apply List.filter_eq_nil_iff.mpr
      intro id hid
      obtain ⟨r, hr⟩ := Option.isSome_iff_exists.mp (InsertionMap.has_iff.mpr hid)
      have hid' : id ∈ t.docs.keys :=
        InsertionMap.has_iff.mp (Option.isSome_iff_exists.mpr ⟨r, hsub id r hr⟩)
      simp only [hq, decide_eq_true_eq, not_not]
      by_contra hfree
      rw [hgone id hid' hfree] at hr
      cases hr
    rw [hnil]
    exact Nat.zero_le _

theorem enforceOver_of_le {keys : List String} (h : t.docs.size ≤ cfg.maxTrackedDocs) :
    enforceOver cfg t keys = t := by
  unfold enforceOver
  induction keys with
  | nil => rfl
  | cons docId keys ih =>
      rw [List.foldl_cons, if_pos (Or.inl h)]
      exact ih

/-- With nothing known to be in quarantine, the oldest documents go. -/
theorem enforce_drop (h : t.quarantined = ∅) :
    (t.enforceMaxTrackedDocs cfg).docs.entries =
      t.docs.entries.drop (t.docs.size - cfg.maxTrackedDocs) := by
  have hloop : ∀ (es : List (String × DocRecord V)) (t : FrequencyTracker V),
      t.docs.entries = es → t.quarantined = ∅ →
        (enforceOver cfg t (es.map Prod.fst)).docs.entries =
          es.drop (es.length - cfg.maxTrackedDocs) := by
    intro es
    induction es with
    | nil =>
        intro t hes _
        rw [List.drop_nil]
        exact hes
    | cons e es ih =>
        intro t hes hq
        have hsize : t.docs.size = (e :: es).length := congrArg List.length hes
        by_cases hle : t.docs.size ≤ cfg.maxTrackedDocs
        · rw [enforceOver_of_le hle, hes, show (e :: es).length - cfg.maxTrackedDocs = 0 by omega]
          rfl
        · have hgo : ¬ (t.docs.size ≤ cfg.maxTrackedDocs ∨ e.1 ∈ t.quarantined) := by
            rw [hq]
            rintro (hsmall | hmem)
            · exact hle hsmall
            · cases hmem
          have hnodup : ((e :: es).map Prod.fst).Nodup := hes ▸ t.docs.nodup
          obtain ⟨hnew, -⟩ := List.nodup_cons.mp hnodup
          have htail : (t.docs.erase e.1).entries = es := by
            simp only [InsertionMap.erase, InsertionMap.filter, hes, List.filter_cons]
            simp only [decide_true, Bool.not_true, Bool.false_eq_true, if_false]
            apply List.filter_eq_self.mpr
            intro e' he'
            have hne : e'.1 ≠ e.1 := fun heq => hnew (heq ▸ List.mem_map_of_mem he')
            simp [hne]
          have hstep : enforceOver cfg t ((e :: es).map Prod.fst) =
              enforceOver cfg { t with docs := t.docs.erase e.1 } (es.map Prod.fst) := by
            unfold enforceOver
            rw [List.map_cons, List.foldl_cons, if_neg hgo]
          rw [hstep, ih { t with docs := t.docs.erase e.1 } htail hq]
          rw [show (e :: es).length - cfg.maxTrackedDocs = es.length - cfg.maxTrackedDocs + 1 by
            rw [hsize] at hle
            simp only [List.length_cons] at hle ⊢
            omega]
          rfl
  exact hloop t.docs.entries t rfl h

/-! ## Recording a query -/

variable (vectors cfg) in
/-- At most so many hits, all of them from queries before `n` and of one dimension. -/
def RecordFits (n : ℕ) (dim : Option ℕ) (record : DocRecord V) : Prop :=
  record.size ≤ cfg.maxQueriesPerDoc ∧
    ∀ q v, record.get? q = some v → q < n ∧ dim = some (vectors.dim v)

theorem RecordFits.among {n : ℕ} {dim : Option ℕ} {record record' : DocRecord V}
    (h : RecordFits vectors cfg n dim record) (hsize : record'.size ≤ record.size)
    (hamong : Among record' record) : RecordFits vectors cfg n dim record' :=
  ⟨hsize.trans h.1, fun q v hv => h.2 q v (hamong q v hv)⟩

/-- Every tracked record fits, and few enough count against the bound. -/
structure Retained (vectors : Vectors V F) (cfg : TrackerConfig F) (t : FrequencyTracker V) :
    Prop where
  records : ∀ id record, t.docs.get? id = some record →
    RecordFits vectors cfg t.nextQueryId t.embeddingDim record
  bounded : t.unquarantined.length ≤ cfg.maxTrackedDocs

theorem get?_recordDoc {qid : ℕ} {embedding : V} {docId id : String} :
    (recordDoc vectors cfg qid embedding t docId).docs.get? id =
      if docId = id then
        some (admitHit vectors cfg (t.pruneExpired cfg ((t.docs.get? docId).getD .empty)) qid
          embedding)
      else t.docs.get? id := by
  unfold recordDoc
  dsimp only
  rw [InsertionMap.get?_set, InsertionMap.get?_erase]
  by_cases heq : docId = id
  · rw [if_pos heq, if_pos heq]
  · rw [if_neg heq, if_neg heq, if_neg fun h => heq h.symm]

/-- The hits of a record that was just touched. -/
theorem touched_hits (hcap : 1 ≤ cfg.maxQueriesPerDoc) {qid : ℕ} {embedding : V} {docId : String}
    {q : ℕ} {v : V}
    (h : (admitHit vectors cfg (t.pruneExpired cfg ((t.docs.get? docId).getD .empty)) qid
      embedding).get? q = some v) :
    (q = qid ∧ v = embedding) ∨
      t.cutoff cfg ≤ q ∧ ∃ record, t.docs.get? docId = some record ∧ record.get? q = some v := by
  rcases (admitHit_spec hcap _ qid embedding).2 q v h with hnew | hold
  · exact Or.inl hnew
  · obtain ⟨hget, hlive⟩ := get?_pruneExpired.mp hold
    cases hrecord : t.docs.get? docId with
    | none =>
        rw [hrecord] at hget
        cases hget
    | some record =>
        rw [hrecord] at hget
        exact Or.inr ⟨hlive, record, rfl, hget⟩

/-- The ranked documents of a query are touched, the others stay as they are. -/
theorem recordDocs_spec (hcap : 1 ≤ cfg.maxQueriesPerDoc) {qid : ℕ} {embedding : V}
    (docIds : List String) (hqid : qid < t.nextQueryId)
    (hdim : t.embeddingDim = some (vectors.dim embedding)) (hlive : t.cutoff cfg ≤ qid)
    (h : ∀ id record, t.docs.get? id = some record →
      RecordFits vectors cfg t.nextQueryId t.embeddingDim record) :
    let t' := docIds.foldl (recordDoc vectors cfg qid embedding) t
    t'.nextQueryId = t.nextQueryId ∧ t'.embeddingDim = t.embeddingDim ∧
    (∀ id record, t'.docs.get? id = some record →
      RecordFits vectors cfg t.nextQueryId t.embeddingDim record) ∧
    (∀ id ∈ docIds, ∃ record, t'.docs.get? id = some record ∧
      ∀ q v, record.get? q = some v → t.cutoff cfg ≤ q) ∧
    ∀ id, id ∉ docIds → t'.docs.get? id = t.docs.get? id := by
  induction docIds generalizing t with
  | nil => exact ⟨rfl, rfl, h, by simp, fun _ _ => rfl⟩
  | cons docId docIds ih =>
      have hstep : ∀ id record,
          (recordDoc vectors cfg qid embedding t docId).docs.get? id = some record →
            RecordFits vectors cfg t.nextQueryId t.embeddingDim record := by
        intro id record hrecord
        rw [get?_recordDoc] at hrecord
        split_ifs at hrecord
        · cases hrecord
          refine ⟨(admitHit_spec hcap _ qid embedding).1, fun q v hv => ?_⟩
          rcases touched_hits hcap hv with ⟨rfl, rfl⟩ | ⟨-, old, hold, hget⟩
          · exact ⟨hqid, hdim⟩
          · exact (h docId old hold).2 q v hget
        · exact h id record hrecord
      obtain ⟨hn, hd, hfits, htouched, hrest⟩ :=
        @ih (recordDoc vectors cfg qid embedding t docId) hqid hdim hlive hstep
      dsimp only [List.foldl_cons]
      refine ⟨hn, hd, hfits, ?_, ?_⟩
      · intro id hid
        by_cases hlater : id ∈ docIds
        · exact htouched id hlater
        · rcases List.mem_cons.mp hid with rfl | hid
          · refine ⟨_, (hrest id hlater).trans (get?_recordDoc.trans (if_pos rfl)), ?_⟩
            intro q v hv
            rcases touched_hits hcap hv with ⟨rfl, -⟩ | ⟨hold, -⟩
            · exact hlive
            · exact hold
          · exact absurd hid hlater
      · intro id hid
        simp only [List.mem_cons, not_or] at hid
        rw [hrest id hid.2, get?_recordDoc, if_neg fun heq => hid.1 heq.symm]

/-- Pruning keeps the records of quarantined documents, with all hits that count. -/
theorem prune_spec :
    (t.prune cfg).nextQueryId = t.nextQueryId ∧ (t.prune cfg).embeddingDim = t.embeddingDim ∧
    (∀ id record, (t.prune cfg).docs.get? id = some record → ∃ old,
      t.docs.get? id = some old ∧ record = t.pruneExpired cfg old) ∧
    ∀ id ∈ t.quarantined, (t.prune cfg).docs.get? id =
      (t.docs.get? id).map (t.pruneExpired cfg) := by
  have hnodup : t.docs.keys.Nodup := t.docs.nodup
  obtain ⟨hq, hn, hd, -⟩ := @pruneRecords_spec V F cfg t t.docs.keys hnodup
  obtain ⟨-, hn', hd', hsub, hkept, -⟩ :=
    @enforceOver_spec V F cfg (pruneRecords cfg t t.docs.keys)
      (pruneRecords cfg t t.docs.keys).docs.keys
  rw [prune_eq, enforce_eq]
  refine ⟨hn'.trans hn, hd'.trans hd, ?_, ?_⟩
  · intro id record hrecord
    have hpruned := hsub id record hrecord
    rw [get?_pruneRecords] at hpruned
    obtain ⟨old, hold, hrecord'⟩ := Option.bind_eq_some_iff.mp hpruned
    unfold prunedRecord at hrecord'
    split_ifs at hrecord'
    exact ⟨old, hold, (Option.some.inj hrecord').symm⟩
  · intro id hid
    rw [hkept id (hq ▸ hid), get?_pruneRecords]
    cases hold : t.docs.get? id with
    | none => rfl
    | some old => simp [prunedRecord, hid]

/-- What recording a query does to each record. -/
theorem recordQuery_spec (hcap : 1 ≤ cfg.maxQueriesPerDoc) (hhorizon : 1 ≤ cfg.retentionHorizon)
    (hnormalize : ∀ v, vectors.dim (vectors.normalize v) = vectors.dim v)
    {t' : FrequencyTracker V} {docIds : List String} {embedding : V}
    (h : Retained vectors cfg t)
    (hrecord : t.recordQuery vectors cfg docIds embedding = .ok t') :
    Retained vectors cfg t' ∧ t'.nextQueryId = t.nextQueryId + 1 ∧
    (∀ id ∈ docIds, ∀ record, t'.docs.get? id = some record → ∀ q v, record.get? q = some v →
      t'.cutoff cfg ≤ q) ∧
    ∀ id ∈ t.quarantined, ∀ record, t.docs.get? id = some record → ∃ record',
      t'.docs.get? id = some record' ∧ (id ∉ docIds → ∀ q v, record.get? q = some v →
        t'.cutoff cfg ≤ q → record'.get? q = some v) := by
  unfold recordQuery at hrecord
  split_ifs at hrecord with hfinite hmismatch
  simp only [Except.ok.injEq] at hrecord
  -- the tracker as the loop over the ranked documents starts
  have hstart : ∀ id record, t.docs.get? id = some record →
      RecordFits vectors cfg (t.nextQueryId + 1) (some (vectors.dim embedding)) record := by
    intro id record hget
    refine ⟨(h.records id record hget).1, fun q v hv => ?_⟩
    obtain ⟨hlt, hdim⟩ := (h.records id record hget).2 q v hv
    refine ⟨Nat.lt_succ_of_lt hlt, ?_⟩
    have hsame := Bool.not_eq_true _ ▸ hmismatch
    simp only [hdim, Option.any_some, ne_eq, decide_not, Bool.not_eq_false',
      decide_eq_true_eq] at hsame
    rw [hsame]
  have hcutoff : ({ t with
      embeddingDim := some (vectors.dim embedding), nextQueryId := t.nextQueryId + 1 } :
        FrequencyTracker V).cutoff cfg ≤ t.nextQueryId := by
    unfold cutoff
    push_cast
    omega
  obtain ⟨hn, hd, hfits, htouched, hrest⟩ := @recordDocs_spec V F vectors cfg
    { t with embeddingDim := some (vectors.dim embedding), nextQueryId := t.nextQueryId + 1 } hcap
    t.nextQueryId (vectors.normalize embedding) docIds (Nat.lt_succ_self _)
    (by rw [hnormalize]) hcutoff hstart
  have hquarantined := @quarantined_recordDocs V F vectors cfg
    { t with embeddingDim := some (vectors.dim embedding), nextQueryId := t.nextQueryId + 1 }
    t.nextQueryId (vectors.normalize embedding) docIds
  generalize docIds.foldl (recordDoc vectors cfg t.nextQueryId (vectors.normalize embedding))
    { t with embeddingDim := some (vectors.dim embedding), nextQueryId := t.nextQueryId + 1 } = u
    at *
  dsimp only at hn hd hquarantined hrest
  have hfits' : ∀ id record, u.docs.get? id = some record →
      RecordFits vectors cfg u.nextQueryId u.embeddingDim record := by
    rw [hn, hd]
    exact hfits
  have hsame : u.cutoff cfg = ({ t with
      embeddingDim := some (vectors.dim embedding), nextQueryId := t.nextQueryId + 1 } :
        FrequencyTracker V).cutoff cfg := by
    unfold cutoff
    rw [hn]
  have hkept : ∀ id record, t.docs.get? id = some record → ∃ record',
      u.docs.get? id = some record' ∧ (id ∉ docIds → record' = record) := by
    intro id record hget
    by_cases hid : id ∈ docIds
    · obtain ⟨record', hget', -⟩ := htouched id hid
      exact ⟨record', hget', fun hnot => absurd hid hnot⟩
    · exact ⟨record, (hrest id hid).trans hget, fun _ => rfl⟩
  split_ifs at hrecord with hprune
  · obtain ⟨hpn, hpd, hpget, hpkept⟩ := @prune_spec V F cfg u
    have hpcutoff : (u.prune cfg).cutoff cfg = u.cutoff cfg := by
      unfold cutoff
      rw [hpn]
    subst hrecord
    refine ⟨⟨?_, unquarantined_enforce⟩, hpn.trans hn, ?_, ?_⟩
    · intro id record hget
      obtain ⟨old, hold, rfl⟩ := hpget id record hget
      rw [hpn, hpd]
      apply (hfits' id old hold).among InsertionMap.size_filter_le
      exact fun q v hv => (get?_pruneExpired.mp hv).1
    · intro id _ record hget q v hv
      obtain ⟨old, -, rfl⟩ := hpget id record hget
      rw [hpcutoff]
      exact (get?_pruneExpired.mp hv).2
    · intro id hid record hget
      obtain ⟨record', hget', hsameRecord⟩ := hkept id record hget
      refine ⟨u.pruneExpired cfg record', ?_, ?_⟩
      · rw [hpkept id (hquarantined ▸ hid), hget']
        rfl
      · intro hnot q v hv hlive
        rw [hsameRecord hnot]
        exact get?_pruneExpired.mpr ⟨hv, hpcutoff ▸ hlive⟩
  · subst hrecord
    simp only [not_or, not_lt] at hprune
    refine ⟨⟨hfits', ?_⟩, hn, ?_, ?_⟩
    · apply le_trans (List.length_filter_le _ _)
      simpa only [InsertionMap.keys, InsertionMap.size, List.length_map] using hprune.2
    · intro id hid record hget q v hv
      obtain ⟨record', hget', hlive⟩ := htouched id hid
      rw [hget'] at hget
      cases hget
      rw [hsame]
      exact hlive q v hv
    · intro id _ record hget
      obtain ⟨record', hget', hsameRecord⟩ := hkept id record hget
      exact ⟨record', hget', fun hnot q v hv _ => hsameRecord hnot ▸ hv⟩

/-! ## Forgetting documents -/

theorem Retained.resetDoc (h : Retained vectors cfg t) (docId : String) :
    Retained vectors cfg (t.resetDoc docId) := by
  refine ⟨?_, le_trans ?_ h.bounded⟩
  · intro id record hget
    simp only [FrequencyTracker.resetDoc, InsertionMap.get?_erase] at hget
    split_ifs at hget
    exact h.records id record hget
  · have hkeys : (t.docs.erase docId).keys = t.docs.keys.filter fun id => !decide (id = docId) := by
      simp only [InsertionMap.keys, InsertionMap.erase, InsertionMap.filter, List.filter_map]
      rfl
    unfold unquarantined
    simp only [FrequencyTracker.resetDoc, hkeys, List.filter_filter]
    apply List.Sublist.length_le
    apply List.monotone_filter_right
    intro id hid
    simp only [Finset.mem_erase, not_and, Bool.and_eq_true, decide_eq_true_eq, Bool.not_eq_true',
      decide_eq_false_iff_not] at hid ⊢
    exact hid.1 hid.2

theorem Retained.forgetDocuments (h : Retained vectors cfg t) (docIds : List String) :
    Retained vectors cfg (t.forgetDocuments docIds) := by
  unfold FrequencyTracker.forgetDocuments
  induction docIds generalizing t with
  | nil => exact h
  | cons docId docIds ih => exact ih (h.resetDoc docId)

theorem get?_forgetDocuments (docIds : List String) (id : String) :
    (t.forgetDocuments docIds).docs.get? id =
      if id ∈ docIds then none else t.docs.get? id := by
  unfold FrequencyTracker.forgetDocuments
  induction docIds generalizing t with
  | nil => simp
  | cons docId docIds ih =>
      rw [List.foldl_cons, ih]
      simp only [FrequencyTracker.resetDoc, InsertionMap.get?_erase, List.mem_cons]
      by_cases heq : id = docId
      · simp [heq]
      · simp [heq]

/-- Quarantining documents leaves fewer that count against the bound. -/
theorem Retained.quarantine (h : Retained vectors cfg t) {t' : FrequencyTracker V}
    (hdocs : t'.docs = t.docs) (hn : t'.nextQueryId = t.nextQueryId)
    (hd : t'.embeddingDim = t.embeddingDim) (hmore : t.quarantined ⊆ t'.quarantined) :
    Retained vectors cfg t' := by
  refine ⟨?_, le_trans ?_ h.bounded⟩
  · rw [hdocs, hn, hd]
    exact h.records
  · unfold unquarantined
    rw [hdocs]
    apply List.Sublist.length_le
    apply List.monotone_filter_right
    intro id hid
    simp only [decide_eq_true_eq] at hid ⊢
    exact fun hmem => hid (hmore hmem)

end FrequencyTracker

end BlackMonolith.VectorAnchor
