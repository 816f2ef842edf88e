import BlackMonolith.VectorAnchor.Snapshot

/-!
# What a start makes of a saved state

Reading undoes writing piece by piece: numbers, vectors, hits, documents and
quarantine entries. Vectors are normalized again, and documents without hits are
dropped.
-/
namespace BlackMonolith.Library.InsertionMap
variable {κ ν μ : Type} [DecidableEq κ]

/-- Setting the entries of a list one by one appends them, when their keys are new. -/
theorem entries_foldl_set (f : μ → ν) (es : List (κ × μ)) (m : InsertionMap κ ν)
    (h : (m.keys ++ es.map Prod.fst).Nodup) :
    (es.foldl (fun m e => m.set e.1 (f e.2)) m).entries =
      m.entries ++ es.map fun e => (e.1, f e.2) := by
  induction es generalizing m with
  | nil => simp
  | cons e es ih =>
      have hnew : e.1 ∉ m.entries.map Prod.fst := by
        intro hmem
        exact (List.nodup_append.mp h).2.2 e.1 hmem e.1 List.mem_cons_self rfl
      have hentries : (m.set e.1 (f e.2)).entries = m.entries ++ [(e.1, f e.2)] :=
        setIn_of_notMem hnew
      have hkeys : (m.set e.1 (f e.2)).keys ++ es.map Prod.fst =
          m.keys ++ (e :: es).map Prod.fst := by
        simp only [keys, hentries, List.map_append, List.map_cons, List.map_nil, List.append_assoc,
          List.singleton_append]
      rw [List.foldl_cons, ih _ (hkeys ▸ h), hentries, List.append_assoc, List.map_cons,
        List.singleton_append]

end BlackMonolith.Library.InsertionMap

namespace BlackMonolith.VectorAnchor
open Library

/-- What the state file relies on of Python: a finite float and an integer are
read as they were printed, equal values are equal, and normalizing keeps floats
finite. -/
structure PrintsExactly {F : Type} (ops : PythonOps F) (repr : F → Json.Number)
    (policy : Json.Value) : Prop where
  number : ∀ value, ops.isFinite value = true → ops.ofNumber (repr value) = some value
  int : ∀ n : ℕ, ops.int (Nat.repr n) = some (n : ℤ)
  eqInt : ∀ n : ℕ, ops.eq (jsonInt n) (jsonInt n) = true
  eqPolicy : ops.eq policy policy = true
  finite : ∀ vec, vec.all ops.isFinite = true → (normalize ops vec).all ops.isFinite = true

section
variable {F : Type} {ops : PythonOps F} {repr : F → Json.Number} {policy : Json.Value}

/-! ## Hits -/

variable (ops) in
/-- A vector the file can hold, of the dimension `d`. -/
def VectorFits (d : ℕ) (vec : List F) : Prop :=
  vec.length = d ∧ vec ≠ [] ∧ vec.length ≤ 4096 ∧ vec.all ops.isFinite = true

theorem readNumbers_repr (h : PrintsExactly ops repr policy) {vec : List F}
    (hvec : vec.all ops.isFinite = true) :
    readNumbers ops (vec.map fun value => .number (repr value)) = .ok vec := by
  induction vec with
  | nil => rfl
  | cons value vec ih =>
      rw [List.all_cons, Bool.and_eq_true] at hvec
      simp only [List.map_cons, readNumbers, readNumber, h.number value hvec.1, hvec.1, if_true,
        ih hvec.2]
      rfl

theorem readEmbedding_json (h : PrintsExactly ops repr policy) {d : ℕ} {vec : List F}
    (hvec : VectorFits ops d vec) : readEmbedding ops (embeddingJson repr vec) = .ok vec := by
  obtain ⟨-, hne, hle, hfinite⟩ := hvec
  have hpos : 1 ≤ vec.length := List.length_pos_of_ne_nil hne
  simp only [embeddingJson, readEmbedding, List.length_map, hpos, hle, and_self, if_true]
  exact readNumbers_repr h hfinite

/-- The record of a document as the file gives it back. -/
def renormalized (ops : PythonOps F) (record : DocRecord (List F)) : DocRecord (List F) :=
  record.updateWhere (fun _ _ => true) (normalize ops)

theorem readQueries_json (h : PrintsExactly ops repr policy) {n d : ℕ}
    {hits : List (ℕ × List F)} {dim : Option ℕ} {queries : DocRecord (List F)}
    (hdim : dim = none ∨ dim = some d)
    (hhits : ∀ hit ∈ hits, hit.1 < n ∧ VectorFits ops d hit.2) :
    readQueries ops n (hits.map fun hit => (Nat.repr hit.1, embeddingJson repr hit.2)) dim queries =
      .ok (if hits.isEmpty then dim else some d,
        hits.foldl (fun queries hit => queries.set hit.1 (normalize ops hit.2)) queries) := by
  induction hits generalizing dim queries with
  | nil => rfl
  | cons hit hits ih =>
      obtain ⟨hlt, hfits⟩ := hhits hit List.mem_cons_self
      have hrange : (0 : ℤ) ≤ (hit.1 : ℤ) ∧ (hit.1 : ℤ) < n := by omega
      have hsame : (dim.any fun known => known ≠ hit.2.length) = false := by
        rcases hdim with rfl | rfl
        · rfl
        · rw [Option.any_some, hfits.1]
          simp
      simp only [List.map_cons, readQueries, h.int, hrange, and_self, if_true,
        readEmbedding_json h hfits, hsame, Bool.false_eq_true, if_false, Int.toNat_natCast]
      rw [ih (Or.inr (congrArg some hfits.1)) fun hit' hmem => hhits hit' (List.mem_cons_of_mem _ hmem)]
      simp only [List.isEmpty_cons, Bool.false_eq_true, if_false, hfits.1, ite_self,
        List.foldl_cons]

theorem readRecord_json (h : PrintsExactly ops repr policy) {n d : ℕ} {dim : Option ℕ}
    {record : DocRecord (List F)} (hdim : dim = none ∨ dim = some d)
    (hhits : ∀ hit ∈ record.entries, hit.1 < n ∧ VectorFits ops d hit.2) :
    readQueries ops n (record.entries.map fun hit => (Nat.repr hit.1, embeddingJson repr hit.2))
        dim .empty =
      .ok (if record.entries.isEmpty then dim else some d, renormalized ops record) := by
  rw [readQueries_json h hdim hhits]
  congr 2
  apply InsertionMap.ext
  rw [InsertionMap.entries_foldl_set]
  · simp [renormalized, InsertionMap.updateWhere, InsertionMap.empty]
  · simpa [InsertionMap.keys, InsertionMap.empty] using record.nodup

theorem renormalized_isEmpty {record : DocRecord (List F)} :
    (renormalized ops record).size = 0 ↔ record.entries.isEmpty = true := by
  simp [renormalized, InsertionMap.updateWhere, InsertionMap.size]

/-! ## Documents -/

variable (ops) in
/-- A document of the tracker that the file can hold. -/
def DocumentFits (cap n d : ℕ) (entry : String × DocRecord (List F)) : Prop :=
  (1 ≤ entry.1.length ∧ entry.1.length ≤ 128) ∧ entry.2.size ≤ cap ∧
    ∀ hit ∈ entry.2.entries, hit.1 < n ∧ VectorFits ops d hit.2

def loadedDoc (ops : PythonOps F) (entry : String × DocRecord (List F)) : LoadedDoc F :=
  ⟨lastQuery (renormalized ops entry.2), entry.1, renormalized ops entry.2⟩

/-- The documents with hits are read in the order of the file. -/
theorem readDocuments_json (h : PrintsExactly ops repr policy) {cap n d : ℕ}
    {entries : List (String × DocRecord (List F))} {dim : Option ℕ}
    (hdim : dim = none ∨ dim = some d) (hfits : ∀ entry ∈ entries, DocumentFits ops cap n d entry) :
    readDocuments ops cap n (entries.map fun entry => (entry.1, recordJson repr entry.2)) dim =
      .ok (if entries.all (·.2.entries.isEmpty) then dim else some d,
        (entries.filter fun entry => !entry.2.entries.isEmpty).map (loadedDoc ops)) := by
  induction entries generalizing dim with
  | nil => rfl
  | cons entry entries ih =>
      obtain ⟨⟨hpos, hle⟩, hcap, hhits⟩ := hfits entry List.mem_cons_self
      have hid : ¬(entry.1.length = 0 ∨ 128 < entry.1.length ∨
          cap < (entry.2.entries.map fun hit => (Nat.repr hit.1, embeddingJson repr hit.2)).length) := by
        rw [List.length_map]
        unfold InsertionMap.size at hcap
        omega
      simp only [List.map_cons, recordJson, readDocuments, hid, if_false,
        readRecord_json h hdim hhits]
      have hnext : (if entry.2.entries.isEmpty then dim else some d) = none ∨
          (if entry.2.entries.isEmpty then dim else some d) = some d := by
        split
        · exact hdim
        · exact Or.inr rfl
      have hrest := ih hnext fun entry' hmem => hfits entry' (List.mem_cons_of_mem _ hmem)
      simp only [recordJson] at hrest
      rw [hrest]
      by_cases hempty : entry.2.entries.isEmpty = true
      · simp only [renormalized_isEmpty.mpr hempty, hempty, if_true, List.all_cons, Bool.true_and,
          List.filter_cons, Bool.not_true, Bool.false_eq_true, if_false]
      · have hsize : (renormalized ops entry.2).size ≠ 0 := fun hz =>
          hempty (renormalized_isEmpty.mp hz)
        simp only [hsize, hempty, if_false, List.all_cons, Bool.false_and, List.filter_cons,
          Bool.false_eq_true, Bool.not_false, if_true, ite_self, List.map_cons, loadedDoc]

/-- Only vectors of at most 4096 numbers are read. -/
theorem short_of_readQueries {n : ℕ} {hits : List (ℕ × List F)} {dim : Option ℕ}
    {queries : DocRecord (List F)} {read : Option ℕ × DocRecord (List F)}
    (h : readQueries ops n (hits.map fun hit => (Nat.repr hit.1, embeddingJson repr hit.2)) dim
      queries = .ok read) : ∀ hit ∈ hits, hit.2.length ≤ 4096 := by
  induction hits generalizing dim queries with
  | nil => exact fun hit hhit => absurd hhit List.not_mem_nil
  | cons hit hits ih =>
      rw [List.map_cons, readQueries] at h
      split at h
      · cases h
      · split_ifs at h
        split at h
        · cases h
        · next embedding hembedding =>
            split_ifs at h
            have hlength : hit.2.length ≤ 4096 := by
              unfold embeddingJson readEmbedding at hembedding
              dsimp only at hembedding
              split_ifs at hembedding with hle
              rw [List.length_map] at hle
              exact hle.2
            intro hit' hhit'
            rcases List.mem_cons.mp hhit' with rfl | hhit'
            · exact hlength
            · exact ih h hit' hhit'

/-- Only documents with ids of at most 128 characters are read. -/
theorem short_of_readDocuments {cap n : ℕ} {entries : List (String × DocRecord (List F))}
    {dim : Option ℕ} {read : Option ℕ × List (LoadedDoc F)}
    (h : readDocuments ops cap n (entries.map fun entry => (entry.1, recordJson repr entry.2)) dim =
      .ok read) : ∀ entry ∈ entries, (1 ≤ entry.1.length ∧ entry.1.length ≤ 128) ∧
        ∀ hit ∈ entry.2.entries, hit.2.length ≤ 4096 := by
  induction entries generalizing dim read with
  | nil => exact fun entry hentry => absurd hentry List.not_mem_nil
  | cons entry entries ih =>
      rw [List.map_cons, recordJson, readDocuments] at h
      split_ifs at h with hid
      split at h
      · cases h
      · next hqueries =>
          split at h
          · cases h
          · next hrest =>
              intro entry' hentry'
              rcases List.mem_cons.mp hentry' with rfl | hentry'
              · exact ⟨by omega, short_of_readQueries hqueries⟩
              · exact ih hrest entry' hentry'

/-! ## Quarantine -/

/-- A quarantine entry that the file can hold. -/
def EntryFits (doc : QuarantinedDoc) : Prop :=
  1 ≤ doc.docId.length ∧ doc.docId.length ≤ 128 ∧ 1 ≤ doc.reason.length ∧
    doc.reason.length ≤ 128 ∧ doc.preview.length ≤ 160

theorem readEntry_snapshot (doc : QuarantinedDoc) : Quarantine.readEntry doc.snapshot =
    if 1 ≤ doc.docId.length ∧ doc.docId.length ≤ 128 ∧ 1 ≤ doc.reason.length ∧
        doc.reason.length ≤ 128 ∧ doc.preview.length ≤ 160 then .ok doc
    else .error (.valueError "invalid quarantine entry fields") := by
  unfold Quarantine.readEntry QuarantinedDoc.snapshot
  simp only [Json.Value.get, List.lookup]
  rfl

theorem readEntry_fits {doc : QuarantinedDoc} (h : EntryFits doc) :
    Quarantine.readEntry doc.snapshot = .ok doc := (readEntry_snapshot doc).trans (if_pos h)

theorem fits_of_readEntry {doc doc' : QuarantinedDoc}
    (h : Quarantine.readEntry doc.snapshot = .ok doc') : EntryFits doc := by
  rw [readEntry_snapshot] at h
  split_ifs at h with hfits
  exact hfits

/-- Only entries that fit are read. -/
theorem fits_of_readEntries {docs : List QuarantinedDoc} {q q' : Quarantine}
    (h : Quarantine.readEntries (docs.map (·.snapshot)) q = .ok q') : ∀ doc ∈ docs, EntryFits doc := by
  induction docs generalizing q with
  | nil => exact fun doc hdoc => absurd hdoc List.not_mem_nil
  | cons doc docs ih =>
      rw [List.map_cons, Quarantine.readEntries] at h
      cases hread : Quarantine.readEntry doc.snapshot with
      | error e =>
          rw [hread] at h
          cases h
      | ok found =>
          rw [hread] at h
          dsimp only at h
          split at h
          · intro doc' hdoc'
            rcases List.mem_cons.mp hdoc' with rfl | hdoc'
            · exact fits_of_readEntry hread
            · exact ih h doc' hdoc'
          · cases h

theorem readEntries_snapshot {docs : List QuarantinedDoc} {q : Quarantine}
    (hfits : ∀ doc ∈ docs, EntryFits doc)
    (hnodup : (q.keys ++ docs.map (·.docId)).Nodup) :
    Quarantine.readEntries (docs.map (·.snapshot)) q =
      .ok (docs.foldl (fun q doc => q.set doc.docId doc) q) := by
  induction docs generalizing q with
  | nil => rfl
  | cons doc docs ih =>
      have hnew : doc.docId ∉ q.keys := by
        intro hmem
        exact (List.nodup_append.mp hnodup).2.2 doc.docId hmem doc.docId List.mem_cons_self rfl
      have hhas : q.has doc.docId = false := by
        rw [Bool.eq_false_iff, ne_eq, InsertionMap.has_iff]
        exact hnew
      have hkeys : (q.set doc.docId doc).keys = q.keys ++ [doc.docId] := by
        simp only [InsertionMap.keys, InsertionMap.set, InsertionMap.setIn_of_notMem hnew,
          List.map_append, List.map_cons, List.map_nil]
      simp only [List.map_cons, Quarantine.readEntries,
        readEntry_fits (hfits doc List.mem_cons_self), Quarantine.add, hhas,
        Bool.false_eq_true, if_false, List.foldl_cons]
      apply ih
      · exact fun doc' hmem => hfits doc' (List.mem_cons_of_mem _ hmem)
      · rw [hkeys, List.append_assoc]
        exact hnodup

/-- Every entry stands under the id of its document. -/
def Quarantine.Keyed (q : Quarantine) : Prop := ∀ id doc, q.get? id = some doc → doc.docId = id

theorem Quarantine.Keyed.keys {q : Quarantine} (h : q.Keyed) : q.values.map (·.docId) = q.keys := by
  unfold InsertionMap.values InsertionMap.keys
  rw [List.map_map]
  apply List.map_congr_left
  intro entry hentry
  exact h entry.1 entry.2 (InsertionMap.get?_eq_some_iff.mpr hentry)

/-- The quarantine is read back as it was. -/
theorem fromSnapshot_snapshot {q : Quarantine} (hkeyed : q.Keyed)
    (hfits : ∀ doc ∈ q.values, EntryFits doc) (hsize : q.size ≤ 100000) :
    Quarantine.fromSnapshot q.snapshot = .ok q := by
  have hlength : ¬ 100000 < q.snapshot.length := by
    simp only [Quarantine.snapshot, InsertionMap.values, List.length_map]
    unfold InsertionMap.size at hsize
    omega
  have hkeys : q.values.map (·.docId) = q.keys := hkeyed.keys
  have hnodup : ((InsertionMap.empty : Quarantine).keys ++ q.values.map (·.docId)).Nodup := by
    rw [hkeys]
    exact q.nodup
  rw [Quarantine.fromSnapshot, if_neg hlength, Quarantine.snapshot,
    readEntries_snapshot hfits hnodup]
  congr 1
  apply InsertionMap.ext
  have hentries : q.values.map (fun doc => (doc.docId, doc)) = q.entries := by
    unfold InsertionMap.values
    rw [List.map_map]
    refine (List.map_congr_left fun entry hentry => ?_).trans (List.map_id _)
    exact Prod.ext (hkeyed entry.1 entry.2 (InsertionMap.get?_eq_some_iff.mpr hentry)) rfl
  have hfold := InsertionMap.entries_foldl_set (fun doc : QuarantinedDoc => doc) q.entries
    InsertionMap.empty q.nodup
  rw [← hentries, List.foldl_map, hentries] at hfold
  rw [hfold]
  simp [InsertionMap.empty]

/-! ## The state -/

/-- The tracker that the file of a tracker holds. -/
def reread (ops : PythonOps F) (d : ℕ) (t : FrequencyTracker (List F)) :
    FrequencyTracker (List F) where
  docs := loadedDocs ((t.docs.entries.filter fun entry => !entry.2.entries.isEmpty).map
    (loadedDoc ops))
  quarantined := ∅
  nextQueryId := t.nextQueryId
  embeddingDim := if t.docs.entries.all (·.2.entries.isEmpty) then none else some d

section
variable (ops) (repr) (t : FrequencyTracker (List F)) (q : Quarantine)

theorem payload_payloadOf (store : DetectorStateStore F) :
    store.payload ops (store.payloadOf repr t q) =
      if !ops.eq (jsonInt 1) (jsonInt 1) then .error (.valueError "unsupported detector state")
      else if !ops.eq store.policy store.policy then
        .error (.valueError
          "persisted detector state uses different policy thresholds; reset it explicitly")
      else (Quarantine.fromSnapshot q.snapshot).map (·, t.snapshot repr) := rfl

theorem readTracker_snapshot (cap : ℕ) : readTracker ops cap (t.snapshot repr) =
    if !ops.eq (jsonInt 2) (jsonInt 2) then
      .error (.valueError "unsupported frequency tracker state version")
    else
      match natOf (some (jsonInt t.nextQueryId)) with
      | none => .error (.valueError "invalid frequency tracker state")
      | some n =>
          if 100000 < (t.docs.entries.map fun entry => (entry.1, recordJson repr entry.2)).length
          then .error (.valueError "invalid frequency tracker state")
          else
            match readDocuments ops cap n
                (t.docs.entries.map fun entry => (entry.1, recordJson repr entry.2)) none with
            | .error e => .error e
            | .ok (dim, loaded) => .ok ⟨loadedDocs loaded, ∅, n, dim⟩ := by
  unfold readTracker FrequencyTracker.snapshot
  simp only [Json.Value.get, List.lookup]
  rfl

end

/-- A state that fits is read back, up to what `reread` loses. -/
theorem load_payloadOf {store : DetectorStateStore F} (h : PrintsExactly ops repr store.policy)
    {t : FrequencyTracker (List F)} {q : Quarantine} {d : ℕ}
    (hdocs : ∀ entry ∈ t.docs.entries,
      DocumentFits ops store.cfg.maxQueriesPerDoc t.nextQueryId d entry)
    (htracked : t.docs.size ≤ 100000) (hkeyed : q.Keyed) (hfits : ∀ doc ∈ q.values, EntryFits doc)
    (hsize : q.size ≤ 100000) :
    store.load ops (.json (store.payloadOf repr t q)) =
      .ok (some (((reread ops d t).enforceMaxTrackedDocs store.cfg).updateQuarantined q.keys, q)) := by
  have hpayload : store.payload ops (store.payloadOf repr t q) = .ok (q, t.snapshot repr) := by
    rw [payload_payloadOf, h.eqInt, h.eqPolicy, fromSnapshot_snapshot hkeyed hfits hsize]
    rfl
  have htracker : readTracker ops store.cfg.maxQueriesPerDoc (t.snapshot repr) =
      .ok (reread ops d t) := by
    have hread := readDocuments_json h (Or.inl rfl) hdocs
    have hlength : ¬ 100000 <
        (t.docs.entries.map fun entry => (entry.1, recordJson repr entry.2)).length := by
      rw [List.length_map]
      unfold InsertionMap.size at htracked
      omega
    have hnat : natOf (some (jsonInt t.nextQueryId)) = some t.nextQueryId := by
      simp [natOf, jsonInt]
    simp only [readTracker_snapshot, h.eqInt, Bool.not_true, Bool.false_eq_true, if_false, hnat,
      if_neg hlength, hread]
    rfl
  simp only [DetectorStateStore.load, hpayload, FrequencyTracker.fromSnapshot, htracker]
  rfl

end

end BlackMonolith.VectorAnchor
