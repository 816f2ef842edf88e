import BlackMonolith.VectorAnchor.DetectorInvariant
import BlackMonolith.VectorAnchor.SnapshotLoad

/-!
# The states a service saves

Operations, and restarts on what was saved, leave the documents of the tracker in
the order of their latest hits, since a ranked document moves to the end of the
dictionary with a hit that is later than all others. They leave more documents
than the bound only if all of them are in quarantine, and entries of the
quarantine with short texts.
-/
namespace BlackMonolith.VectorAnchor
open Library

/-! ## The latest hit -/

section
variable {F : Type} {record : DocRecord (List F)}

theorem lastQuery_spec (keys : List ℕ) (start : ℕ) :
    (∀ q ∈ keys, q ≤ keys.foldl max start) ∧ start ≤ keys.foldl max start ∧
      (keys.foldl max start = start ∨ keys.foldl max start ∈ keys) := by
  induction keys generalizing start with
  | nil => exact ⟨fun q hq => absurd hq List.not_mem_nil, le_rfl, Or.inl rfl⟩
  | cons key keys ih =>
      obtain ⟨hle, hstart, hmem⟩ := ih (max start key)
      rw [List.foldl_cons]
      refine ⟨?_, le_trans (le_max_left _ _) hstart, ?_⟩
      · intro q hq
        rcases List.mem_cons.mp hq with rfl | hq
        · exact le_trans (le_max_right _ _) hstart
        · exact hle q hq
      · rcases hmem with heq | hmem
        · rcases le_total key start with hkey | hkey
          · exact Or.inl (heq.trans (max_eq_left hkey))
          · right
            rw [heq, max_eq_right hkey]
            exact List.mem_cons_self
        · exact Or.inr (List.mem_cons_of_mem _ hmem)

theorem le_lastQuery {q : ℕ} (h : q ∈ record.keys) : q ≤ lastQuery record :=
  (lastQuery_spec record.keys 0).1 q h

theorem lastQuery_mem (h : record.size ≠ 0) : lastQuery record ∈ record.keys := by
  rcases (lastQuery_spec record.keys 0).2.2 with hzero | hmem
  · obtain ⟨q, hq⟩ := List.exists_mem_of_ne_nil record.keys (by
      intro hnil
      apply h
      simpa [InsertionMap.keys, InsertionMap.size] using hnil)
    have hle := le_lastQuery hq
    have hlast : lastQuery record = 0 := hzero
    have hq' : q = lastQuery record := by omega
    exact hq' ▸ hq
  · exact hmem

/-- Dropping old hits leaves the latest one, unless it leaves none. -/
theorem lastQuery_filter {cutoff : ℤ}
    (h : (record.filter fun (q : ℕ) _ => decide (cutoff ≤ (q : ℤ))).size ≠ 0) :
    lastQuery (record.filter fun (q : ℕ) _ => decide (cutoff ≤ (q : ℤ))) = lastQuery record := by
  have hmem : ∀ q, q ∈ (record.filter fun (q : ℕ) _ => decide (cutoff ≤ (q : ℤ))).keys ↔
      q ∈ record.keys ∧ cutoff ≤ q := by
    intro q
    simp only [InsertionMap.keys, InsertionMap.filter, List.mem_map, List.mem_filter,
      decide_eq_true_eq]
    constructor
    · rintro ⟨e, ⟨he, hcut⟩, rfl⟩
      exact ⟨⟨e, he, rfl⟩, hcut⟩
    · rintro ⟨⟨e, he, rfl⟩, hcut⟩
      exact ⟨e, ⟨he, hcut⟩, rfl⟩
  have hlast := (hmem _).mp (lastQuery_mem h)
  have hle := le_lastQuery hlast.1
  have hsize : record.size ≠ 0 := by
    intro hzero
    have hshrink := @InsertionMap.size_filter_le _ _ record fun (q : ℕ) _ => decide (cutoff ≤ (q : ℤ))
    omega
  have hkept : lastQuery record ∈ (record.filter fun (q : ℕ) _ => decide (cutoff ≤ (q : ℤ))).keys := by
    refine (hmem _).mpr ⟨lastQuery_mem hsize, ?_⟩
    omega
  have hge := le_lastQuery hkept
  omega

end

/-! ## The order of the documents -/

section
variable {F : Type}

/-- Two documents with hits stand in the order of their latest ones. -/
def InOrder (a b : String × DocRecord (List F)) : Prop :=
  a.2.size ≠ 0 → b.2.size ≠ 0 → lastQuery a.2 ≤ lastQuery b.2

def Ordered (docs : Documents F) : Prop := docs.entries.Pairwise InOrder

theorem Ordered.erase {docs : Documents F} (h : Ordered docs) (id : String) :
    Ordered (docs.erase id) :=
  h.sublist List.filter_sublist

/-- A document put at the end must have the latest hit of all. -/
theorem Ordered.append {docs : Documents F} (h : Ordered docs) {id : String}
    {record : DocRecord (List F)} (hnew : docs.get? id = none)
    (hlast : ∀ id' record', docs.get? id' = some record' → record'.size ≠ 0 →
      lastQuery record' ≤ lastQuery record) : Ordered (docs.set id record) := by
  unfold Ordered
  have hentries : (docs.set id record).entries = docs.entries ++ [(id, record)] :=
    InsertionMap.setIn_of_notMem (InsertionMap.get?_eq_none_iff.mp hnew)
  rw [hentries, List.pairwise_append]
  refine ⟨h, List.pairwise_singleton _ _, ?_⟩
  intro a ha b hb ha' _
  rw [List.mem_singleton.mp hb]
  exact hlast a.1 a.2 (InsertionMap.get?_eq_some_iff.mpr ha) ha'

/-- A record replaced where it is, with the same latest hit if any. -/
theorem Ordered.replace {docs : Documents F} (h : Ordered docs) {id : String}
    {old new : DocRecord (List F)} (hold : docs.get? id = some old)
    (hsame : new.size ≠ 0 → old.size ≠ 0 ∧ lastQuery new = lastQuery old) :
    Ordered (docs.set id new) := by
  have hset : ∀ entries : List (String × DocRecord (List F)), entries.Pairwise InOrder →
      InsertionMap.lookupIn id entries = some old →
        (InsertionMap.setIn id new entries).Pairwise InOrder ∧
          ∀ e, (∀ e' ∈ entries, InOrder e e') →
            ∀ e' ∈ InsertionMap.setIn id new entries, InOrder e e' := by
    intro entries
    induction entries with
    | nil => exact fun _ hlookup => absurd hlookup (by simp [InsertionMap.lookupIn])
    | cons entry entries ih =>
        intro hpairs hlookup
        obtain ⟨hfirst, hrest⟩ := List.pairwise_cons.mp hpairs
        simp only [InsertionMap.lookupIn] at hlookup
        simp only [InsertionMap.setIn]
        by_cases hid : entry.1 = id
        · rw [if_pos hid] at hlookup ⊢
          obtain rfl : entry.2 = old := Option.some.inj hlookup
          refine ⟨List.pairwise_cons.mpr ⟨?_, hrest⟩, ?_⟩
          · intro e he hnew' he'
            obtain ⟨hentry, hlast⟩ := hsame hnew'
            show lastQuery new ≤ lastQuery e.2
            rw [hlast]
            exact hfirst e he hentry he'
          · intro e he e' he'
            rcases List.mem_cons.mp he' with rfl | he'
            · intro hsize hnew'
              obtain ⟨hentry, hlast⟩ := hsame hnew'
              show lastQuery e.2 ≤ lastQuery new
              rw [hlast]
              exact he entry List.mem_cons_self hsize hentry
            · exact he e' (List.mem_cons_of_mem _ he')
        · rw [if_neg hid] at hlookup ⊢
          obtain ⟨hpairs', hall⟩ := ih hrest hlookup
          refine ⟨List.pairwise_cons.mpr ⟨hall entry hfirst, hpairs'⟩, ?_⟩
          intro e he e' he'
          rcases List.mem_cons.mp he' with rfl | he'
          · exact he e' List.mem_cons_self
          · exact hall e (fun x hx => he x (List.mem_cons_of_mem _ hx)) e' he'
  exact (hset docs.entries h hold).1

end

/-! ## The tracker -/

namespace FrequencyTracker
variable {F : Type} {vectors : Vectors (List F) F} {cfg : TrackerConfig F}
  {t t' : FrequencyTracker (List F)} {P : List F → Prop}

/-- Eviction never drops the new hit. -/
theorem evictExcess_has (hcap : 1 ≤ cfg.maxQueriesPerDoc) {qid : ℕ} {embedding : List F} (fuel : ℕ)
    {record : DocRecord (List F)} (hnew : record.has qid = true) :
    (evictExcess vectors cfg fuel record qid embedding).has qid = true := by
  induction fuel generalizing record with
  | zero => exact hnew
  | succ fuel ih =>
      unfold evictExcess
      split
      · next hexcess => exact ih (evictFor_spec hnew (by omega)).2.1
      · exact hnew

theorem admitHit_has (hcap : 1 ≤ cfg.maxQueriesPerDoc) (record : DocRecord (List F)) (qid : ℕ)
    (embedding : List F) : (admitHit vectors cfg record qid embedding).has qid = true :=
  evictExcess_has hcap _ (by simp)

/-- What holds of the hits: they are of earlier queries, and their vectors are good. -/
def HitsFit (P : List F → Prop) (t : FrequencyTracker (List F)) : Prop :=
  ∀ id record, t.docs.get? id = some record → ∀ q vec, record.get? q = some vec →
    q < t.nextQueryId ∧ P vec

theorem HitsFit.lastQuery_lt (h : HitsFit P t) {id : String} {record : DocRecord (List F)}
    (hget : t.docs.get? id = some record) (hsize : record.size ≠ 0) :
    lastQuery record < t.nextQueryId := by
  obtain ⟨vec, hvec⟩ := Option.isSome_iff_exists.mp (InsertionMap.has_iff.mpr (lastQuery_mem hsize))
  exact (h id record hget _ vec hvec).1

theorem recordDoc_sound (hcap : 1 ≤ cfg.maxQueriesPerDoc) {qid : ℕ} {embedding : List F}
    (hqid : t.nextQueryId = qid + 1) (hembedding : P embedding) (hits : HitsFit P t)
    (hordered : Ordered t.docs) (docId : String) :
    HitsFit P (recordDoc vectors cfg qid embedding t docId) ∧
      Ordered (recordDoc vectors cfg qid embedding t docId).docs := by
  constructor
  · intro id record hget q vec hvec
    rw [get?_recordDoc] at hget
    split_ifs at hget
    · cases hget
      rcases touched_hits hcap hvec with ⟨rfl, rfl⟩ | ⟨-, old, hold, hhit⟩
      · refine ⟨?_, hembedding⟩
        show q < t.nextQueryId
        omega
      · exact hits docId old hold q vec hhit
    · exact hits id record hget q vec hvec
  · have hgone : (t.docs.erase docId).get? docId = none := by
      rw [InsertionMap.get?_erase, if_pos rfl]
    refine (hordered.erase docId).append hgone ?_
    intro id record hget hsize
    rw [InsertionMap.get?_erase] at hget
    split_ifs at hget
    have hlt := hits.lastQuery_lt hget hsize
    have hle := le_lastQuery (InsertionMap.has_iff.mp (@admitHit_has _ vectors _ hcap
      (t.pruneExpired cfg ((t.docs.get? docId).getD .empty)) qid embedding))
    omega

theorem recordDocs_sound (hcap : 1 ≤ cfg.maxQueriesPerDoc) {qid : ℕ} {embedding : List F}
    (docIds : List String) (hqid : t.nextQueryId = qid + 1) (hembedding : P embedding)
    (hits : HitsFit P t) (hordered : Ordered t.docs) :
    HitsFit P (docIds.foldl (recordDoc vectors cfg qid embedding) t) ∧
      Ordered (docIds.foldl (recordDoc vectors cfg qid embedding) t).docs := by
  induction docIds generalizing t with
  | nil => exact ⟨hits, hordered⟩
  | cons docId docIds ih =>
      obtain ⟨hits', hordered'⟩ := recordDoc_sound hcap hqid hembedding hits hordered docId
      exact ih hqid hits' hordered'

theorem pruneRecords_ordered (keys : List String) (h : Ordered t.docs) :
    Ordered (pruneRecords cfg t keys).docs := by
  unfold pruneRecords
  induction keys generalizing t with
  | nil => exact h
  | cons docId keys ih =>
      rw [List.foldl_cons]
      cases hget : t.docs.get? docId with
      | none => exact ih h
      | some record =>
          dsimp only
          split
          · exact ih (h.erase docId)
          · apply ih
            apply h.replace hget
            intro hsize
            refine ⟨?_, lastQuery_filter hsize⟩
            intro hzero
            have hshrink := @InsertionMap.size_filter_le _ _ record
              fun (q : ℕ) _ => decide (t.cutoff cfg ≤ (q : ℤ))
            unfold pruneExpired at hsize
            omega

theorem enforceOver_ordered (keys : List String) (h : Ordered t.docs) :
    Ordered (enforceOver cfg t keys).docs := by
  unfold enforceOver
  induction keys generalizing t with
  | nil => exact h
  | cons docId keys ih =>
      rw [List.foldl_cons]
      split
      · exact ih h
      · exact ih (h.erase docId)

/-- More documents than the bound are left only if all are in quarantine. -/
def Crowded (cfg : TrackerConfig F) (t : FrequencyTracker (List F)) : Prop :=
  t.docs.size ≤ cfg.maxTrackedDocs ∨ ∀ id ∈ t.docs.keys, id ∈ t.quarantined

theorem crowded_enforce : (t.enforceMaxTrackedDocs cfg).Crowded cfg := by
  rw [enforce_eq]
  obtain ⟨hq, -, -, hsub, -, hbound⟩ := @enforceOver_spec _ _ cfg t t.docs.keys
  refine hbound.imp_right fun hgone id hid => ?_
  obtain ⟨record, hrecord⟩ := Option.isSome_iff_exists.mp (InsertionMap.has_iff.mpr hid)
  have hid' : id ∈ t.docs.keys :=
    InsertionMap.has_iff.mp (Option.isSome_iff_exists.mpr ⟨record, hsub id record hrecord⟩)
  by_contra hfree
  rw [hgone id hid' (hq ▸ hfree)] at hrecord
  cases hrecord

/-- What every state of the tracker keeps. -/
structure Sound (cfg : TrackerConfig F) (P : List F → Prop) (t : FrequencyTracker (List F)) :
    Prop where
  hits : HitsFit P t
  crowded : t.Crowded cfg
  ordered : Ordered t.docs

theorem sound_new : (FrequencyTracker.new : FrequencyTracker (List F)).Sound cfg P :=
  ⟨fun _ _ h => (nomatch h), Or.inl (Nat.zero_le _), List.Pairwise.nil⟩

theorem prune_sound (hits : HitsFit P t) (hordered : Ordered t.docs) : (t.prune cfg).Sound cfg P := by
  obtain ⟨hn, -, hget, -⟩ := @prune_spec _ _ cfg t
  refine ⟨?_, crowded_enforce, ?_⟩
  · intro id record hrecord q vec hvec
    obtain ⟨old, hold, rfl⟩ := hget id record hrecord
    rw [hn]
    exact hits id old hold q vec (get?_pruneExpired.mp hvec).1
  · rw [prune_eq, enforce_eq]
    exact enforceOver_ordered _ (pruneRecords_ordered _ hordered)

theorem recordQuery_sound (hcap : 1 ≤ cfg.maxQueriesPerDoc) {docIds : List String}
    {embedding : List F} (h : t.Sound cfg P)
    (hP : vectors.isFinite embedding = true → P (vectors.normalize embedding))
    (hrecord : t.recordQuery vectors cfg docIds embedding = .ok t') : t'.Sound cfg P := by
  unfold recordQuery at hrecord
  split_ifs at hrecord with hfinite hmismatch
  simp only [Except.ok.injEq] at hrecord
  have hfinite' : vectors.isFinite embedding = true := by simpa using hfinite
  have hstart : HitsFit P { t with
      embeddingDim := some (vectors.dim embedding), nextQueryId := t.nextQueryId + 1 } := by
    intro id record hget q vec hvec
    obtain ⟨hlt, hvec'⟩ := h.hits id record hget q vec hvec
    exact ⟨Nat.lt_succ_of_lt hlt, hvec'⟩
  obtain ⟨hits, hordered⟩ := @recordDocs_sound _ vectors cfg _ P hcap _ _ docIds rfl
    (hP hfinite') hstart h.ordered
  subst hrecord
  split_ifs with hprune
  · exact prune_sound hits hordered
  · simp only [not_or, not_lt] at hprune
    exact ⟨hits, Or.inl hprune.2, hordered⟩

theorem Sound.markQuarantined (h : t.Sound cfg P) (id : String) :
    (t.markQuarantined id).Sound cfg P :=
  ⟨h.hits, h.crowded.imp_right fun hall id' hid' => Finset.mem_insert_of_mem (hall id' hid'),
    h.ordered⟩

theorem Sound.resetDoc (h : t.Sound cfg P) (docId : String) : (t.resetDoc docId).Sound cfg P := by
  refine ⟨?_, ?_, h.ordered.erase docId⟩
  · intro id record hget
    simp only [FrequencyTracker.resetDoc, InsertionMap.get?_erase] at hget
    split_ifs at hget
    exact h.hits id record hget
  · refine h.crowded.imp (fun hsize => le_trans InsertionMap.size_erase_le hsize) ?_
    intro hall id hid
    have hhas := InsertionMap.has_iff.mpr hid
    simp only [FrequencyTracker.resetDoc, InsertionMap.has_erase, Bool.and_eq_true,
      Bool.not_eq_true', decide_eq_false_iff_not] at hhas
    exact Finset.mem_erase.mpr ⟨hhas.1, hall id (InsertionMap.has_iff.mp hhas.2)⟩

theorem Sound.forgetDocuments (h : t.Sound cfg P) (docIds : List String) :
    (t.forgetDocuments docIds).Sound cfg P := by
  unfold FrequencyTracker.forgetDocuments
  induction docIds generalizing t with
  | nil => exact h
  | cons docId docIds ih => exact ih (h.resetDoc docId)

end FrequencyTracker

/-! ## The proxy -/

/-- The texts of an entry that the service itself writes. -/
def ShortTexts (doc : QuarantinedDoc) : Prop :=
  1 ≤ doc.reason.length ∧ doc.reason.length ≤ 128 ∧ doc.preview.length ≤ 160

/-- Every entry stands under its own id and has short texts. -/
def Quarantine.Sound (q : Quarantine) : Prop :=
  ∀ id doc, q.get? id = some doc → doc.docId = id ∧ ShortTexts doc

namespace Quarantine
variable {q : Quarantine}

theorem sound_empty : Quarantine.Sound .empty := fun _ _ h => (nomatch h)

theorem Sound.set (h : q.Sound) {doc : QuarantinedDoc} (hdoc : ShortTexts doc) :
    Quarantine.Sound (q.set doc.docId doc) := by
  intro id found hget
  rw [InsertionMap.get?_set] at hget
  split_ifs at hget with hid
  · cases hget
    exact ⟨hid, hdoc⟩
  · exact h id found hget

theorem Sound.add (h : q.Sound) {doc : QuarantinedDoc} (hdoc : ShortTexts doc) :
    (q.add doc).1.Sound := by
  unfold Quarantine.add
  split
  · exact h
  · exact h.set hdoc

theorem Sound.removeMany (h : q.Sound) (docIds : List String) : (q.removeMany docIds).Sound := by
  unfold Quarantine.removeMany
  induction docIds generalizing q with
  | nil => exact h
  | cons docId docIds ih =>
      apply ih
      intro id doc hget
      rw [InsertionMap.get?_erase] at hget
      split_ifs at hget
      exact h id doc hget

end Quarantine

theorem shortTexts_preview {docId reason text : String} {score nowMs : ℕ}
    (h : 1 ≤ reason.length ∧ reason.length ≤ 128) :
    ShortTexts ⟨docId, reason, score, String.ofList (text.toList.take 160), nowMs⟩ := by
  refine ⟨h.1, h.2, ?_⟩
  simp

namespace RetrieverProxy
variable {F D : Type} {vectors : Vectors (List F) F} {inspectDocument : String → List String}
  {cfg : ProxyConfig F} {P : List F → Prop} {s : RetrieverProxy (List F)}

structure Sound (cfg : ProxyConfig F) (P : List F → Prop) (s : RetrieverProxy (List F)) : Prop where
  tracker : s.tracker.Sound cfg.tracker P
  quarantine : s.quarantine.Sound

theorem Sound.quarantineDoc (h : s.Sound cfg P) {doc : QuarantinedDoc} (hdoc : ShortTexts doc) :
    (s.quarantineDoc doc).1.Sound cfg P :=
  ⟨h.tracker.markQuarantined doc.docId, h.quarantine.add hdoc⟩

theorem inspectCandidate_sound (nowMs : ℕ) (p : RetrieverProxy (List F) × Scan D)
    (candidate : Candidate D) (h : p.1.Sound cfg P) :
    (inspectCandidate vectors inspectDocument cfg nowMs p candidate).1.Sound cfg P := by
  obtain ⟨proxy, scan⟩ := p
  unfold inspectCandidate
  dsimp only
  split
  · exact h
  · split
    · exact h.quarantineDoc (shortTexts_preview (by decide))
    · cases hanom : proxy.tracker.anomalous vectors cfg.tracker candidate.id with
      | true =>
          simp only [FrequencyTracker.isAnomalous, hanom, if_true]
          have hmarked : ({ proxy with tracker := proxy.tracker.markQuarantined candidate.id } :
              RetrieverProxy (List F)).Sound cfg P :=
            ⟨h.tracker.markQuarantined candidate.id, h.quarantine⟩
          exact hmarked.quarantineDoc (shortTexts_preview (by decide))
      | false =>
          simp only [FrequencyTracker.isAnomalous, hanom, Bool.false_eq_true, if_false]
          exact h

theorem pass_sound (nowMs : ℕ) (cs : List (Candidate D)) (p : RetrieverProxy (List F) × Scan D)
    (h : p.1.Sound cfg P) :
    (cs.foldl (inspectCandidate vectors inspectDocument cfg nowMs) p).1.Sound cfg P := by
  induction cs generalizing p with
  | nil => exact h
  | cons c cs ih => exact ih _ (inspectCandidate_sound nowMs p c h)

theorem retrieve_sound (hcap : 1 ≤ cfg.tracker.maxQueriesPerDoc)
    (hP : ∀ vec, vectors.isFinite vec = true → P (vectors.normalize vec))
    (call : Retrieval (List F) D) (h : s.Sound cfg P) :
    (s.retrieve vectors inspectDocument cfg call).1.Sound cfg P := by
  unfold retrieve refuse
  split
  · exact ⟨h.tracker, h.quarantine⟩
  · split
    · exact ⟨h.tracker, h.quarantine⟩
    · split
      · exact h
      · next embedding _ =>
          unfold retrieveLocked
          cases call.answer (s.requested cfg call.k) with
          | error e => exact h
          | ok answer =>
              dsimp only
              cases htracker : s.tracker.recordQuery vectors cfg.tracker
                  (answer.ids.take cfg.topRankThreshold) embedding with
              | error e => exact h
              | ok tracker =>
                  have hrecorded := FrequencyTracker.recordQuery_sound hcap h.tracker (hP embedding)
                    htracker
                  have hpass := @pass_sound F D vectors inspectDocument cfg P call.nowMs
                    (Answer.candidates answer) ({ s with tracker }, {}) ⟨hrecorded, h.quarantine⟩
                  dsimp only
                  split_ifs
                  · exact hpass
                  · exact hpass
                  · exact hpass

theorem step_sound (hcap : 1 ≤ cfg.tracker.maxQueriesPerDoc)
    (hP : ∀ vec, vectors.isFinite vec = true → P (vectors.normalize vec))
    (op : Operation (List F) D) (h : s.Sound cfg P) :
    (s.step vectors inspectDocument cfg op).Sound cfg P := by
  cases op with
  | retrieve call => exact retrieve_sound hcap hP call h
  | upsertDocuments documents stored saved =>
      cases stored with
      | error e => exact h
      | ok count => exact ⟨h.tracker.forgetDocuments _, h.quarantine.removeMany _⟩
  | releaseQuarantine docId saved =>
      exact ⟨h.tracker.resetDoc docId, h.quarantine.removeMany [docId]⟩
  | resetDetection saved => exact ⟨FrequencyTracker.sound_new, Quarantine.sound_empty⟩

end RetrieverProxy

end BlackMonolith.VectorAnchor
