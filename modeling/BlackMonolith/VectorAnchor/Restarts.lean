import BlackMonolith.VectorAnchor.SavedStates

/-!
# Restarts on saved states

A file is read back exactly if its ids and vectors are short and it holds at most
100000 documents and quarantine entries; otherwise the service starts afresh. What
is read back are the documents with hits, in their order, up to the bound.
-/
namespace BlackMonolith.VectorAnchor
open Library

section
variable {F : Type} {ops : PythonOps F} {repr : F → Json.Number} {cfg : DetectorConfig F}
  {P : List F → Prop} {s s' : RetrieverProxy (List F)} {record : DocRecord (List F)}

/-! ## What is read back -/

theorem isFinite_normalize (hprints : PrintsExactly ops repr cfg.policy) {vec : List F}
    (h : (embeddingVectors ops).isFinite vec = true) :
    (embeddingVectors ops).isFinite (normalize ops vec) = true := by
  have hlength := dim_normalize ops vec
  simp only [embeddingVectors, Bool.and_eq_true, Bool.not_eq_true',
    List.isEmpty_eq_false_iff] at h hlength ⊢
  refine ⟨?_, hprints.finite vec h.2⟩
  rw [ne_eq, ← List.length_eq_zero_iff, hlength, List.length_eq_zero_iff]
  exact h.1

theorem keys_renormalized : (renormalized ops record).keys = record.keys := by
  simp only [renormalized, InsertionMap.updateWhere, InsertionMap.keys, List.map_map]
  rfl

theorem lastQuery_renormalized : lastQuery (renormalized ops record) = lastQuery record := by
  unfold lastQuery
  rw [keys_renormalized]

theorem size_renormalized : (renormalized ops record).size = record.size := by
  simp only [renormalized, InsertionMap.updateWhere, InsertionMap.size, List.length_map]

theorem get?_renormalized {q : ℕ} :
    (renormalized ops record).get? q = (record.get? q).map (normalize ops) := by
  unfold renormalized
  rw [InsertionMap.get?_updateWhere]
  simp only [if_true]

theorem renormalized_eq (h : ∀ q vec, record.get? q = some vec → normalize ops vec = vec) :
    renormalized ops record = record := by
  apply InsertionMap.ext
  simp only [renormalized, InsertionMap.updateWhere, if_true]
  refine (List.map_congr_left fun hit hhit => ?_).trans (List.map_id _)
  exact Prod.ext rfl (h hit.1 hit.2 (InsertionMap.get?_eq_some_iff.mpr hhit))

/-- The documents with hits are sorted already. -/
theorem entries_reread {t : FrequencyTracker (List F)} (h : Ordered t.docs) (d : ℕ) :
    (reread ops d t).docs.entries =
      (t.docs.entries.filter fun entry => !entry.2.entries.isEmpty).map fun entry =>
        (entry.1, renormalized ops entry.2) := by
  have hsorted : ((t.docs.entries.filter fun entry => !entry.2.entries.isEmpty).map
      (loadedDoc ops)).Pairwise fun a b => a.lastQuery ≤ b.lastQuery := by
    rw [List.pairwise_map]
    refine (List.Pairwise.sublist List.filter_sublist h).imp_of_mem ?_
    intro a b ha hb hab
    have hsize : ∀ e : String × DocRecord (List F),
        e ∈ t.docs.entries.filter (fun entry => !entry.2.entries.isEmpty) → e.2.size ≠ 0 := by
      intro e he hzero
      rw [InsertionMap.size, List.length_eq_zero_iff] at hzero
      have hfull := (List.mem_filter.mp he).2
      rw [hzero] at hfull
      cases hfull
    show lastQuery (renormalized ops a.2) ≤ lastQuery (renormalized ops b.2)
    rw [lastQuery_renormalized, lastQuery_renormalized]
    exact hab (hsize a ha) (hsize b hb)
  have hnodup : ((InsertionMap.empty : Documents F).keys ++
      ((t.docs.entries.filter fun entry => !entry.2.entries.isEmpty).map fun entry =>
        (entry.1, entry.2)).map Prod.fst).Nodup := by
    rw [List.map_map]
    exact (t.docs.nodup.sublist (List.filter_sublist.map _))
  show (loadedDocs _).entries = _
  unfold loadedDocs
  rw [hsorted.insertionSort_eq, List.foldl_map]
  have hfold := InsertionMap.entries_foldl_set (renormalized ops)
    (t.docs.entries.filter fun entry => !entry.2.entries.isEmpty)
    (InsertionMap.empty : Documents F) (by simpa using hnodup)
  exact hfold

/-- The tracker a restart begins with. -/
def restarted (ops : PythonOps F) (cfg : DetectorConfig F) (s : RetrieverProxy (List F)) :
    FrequencyTracker (List F) :=
  ((reread ops (s.tracker.embeddingDim.getD 0) s.tracker).enforceMaxTrackedDocs
    cfg.tracker).updateQuarantined s.quarantine.keys

/-! ## What can be read back -/

/-- A state whose file `load` accepts. -/
structure Loadable (s : RetrieverProxy (List F)) : Prop where
  ids : ∀ id ∈ s.tracker.docs.keys, 1 ≤ id.length ∧ id.length ≤ 128
  vectors : ∀ id record, s.tracker.docs.get? id = some record → ∀ q vec,
    record.get? q = some vec → vec.length ≤ 4096
  tracked : s.tracker.docs.size ≤ 100000
  quarantinedIds : ∀ id ∈ s.quarantine.keys, 1 ≤ id.length ∧ id.length ≤ 128
  quarantined : s.quarantine.size ≤ 100000

def savedFile (repr : F → Json.Number) (cfg : DetectorConfig F) (s : RetrieverProxy (List F)) :
    StateFile :=
  .json (cfg.store.payloadOf repr s.tracker s.quarantine)

theorem save_eq_ok {file : StateFile}
    (h : cfg.store.save repr s.tracker s.quarantine = .ok file) : file = savedFile repr cfg s := by
  unfold DetectorStateStore.save at h
  dsimp only at h
  split_ifs at h
  cases h
  rfl

theorem load_savedFile (hprints : PrintsExactly ops repr cfg.policy)
    (hinvariant : DetectorInvariant cfg s) (hsound : s.Sound cfg.toProxyConfig P)
    (hfinite : ∀ vec, P vec → (embeddingVectors ops).isFinite vec = true) (h : Loadable s) :
    cfg.store.load ops (savedFile repr cfg s) =
      .ok (some (restarted ops cfg s, s.quarantine)) := by
  refine load_payloadOf hprints ?_ h.tracked (fun id doc hget => (hsound.quarantine id doc hget).1)
    ?_ h.quarantined
  · intro entry hentry
    have hget := InsertionMap.get?_eq_some_iff.mpr hentry
    refine ⟨h.ids entry.1 (List.mem_map_of_mem hentry), hinvariant.capped _ _ hget, ?_⟩
    intro hit hhit
    have hvec := InsertionMap.get?_eq_some_iff.mpr hhit
    obtain ⟨hlt, hdim⟩ := hinvariant.hits _ _ hget _ _ hvec
    have hgood := hfinite _ (hsound.tracker.hits _ _ hget _ _ hvec).2
    simp only [embeddingVectors, Bool.and_eq_true, Bool.not_eq_true', List.isEmpty_eq_false_iff]
      at hgood
    refine ⟨hlt, ?_, hgood.1, h.vectors _ _ hget _ _ hvec, hgood.2⟩
    rw [hdim]
    rfl
  · intro doc hdoc
    obtain ⟨id, hget⟩ := InsertionMap.mem_values_iff.mp hdoc
    obtain ⟨hid, hreason, hreason', hpreview⟩ := hsound.quarantine id doc hget
    have hids := h.quarantinedIds id
      (InsertionMap.has_iff.mp (Option.isSome_iff_exists.mpr ⟨doc, hget⟩))
    rw [← hid] at hids
    exact ⟨hids.1, hids.2, hreason, hreason', hpreview⟩

/-- Nothing else is read back. -/
theorem loadable_of_load (hprints : PrintsExactly ops repr cfg.policy)
    (hsound : s.Sound cfg.toProxyConfig P)
    {found : Option (FrequencyTracker (List F) × Quarantine)}
    (h : cfg.store.load ops (savedFile repr cfg s) = .ok found) : Loadable s := by
  unfold savedFile DetectorStateStore.load at h
  dsimp only at h
  have hpolicy : ops.eq cfg.store.policy cfg.store.policy = true := hprints.eqPolicy
  rw [payload_payloadOf, hprints.eqInt, hpolicy] at h
  simp only [Bool.not_true, Bool.false_eq_true, if_false] at h
  cases hquarantine : Quarantine.fromSnapshot s.quarantine.snapshot with
  | error e =>
      rw [hquarantine] at h
      cases h
  | ok quarantine =>
      rw [hquarantine] at h
      simp only [Except.map, FrequencyTracker.fromSnapshot] at h
      cases htracker : readTracker ops cfg.store.cfg.maxQueriesPerDoc
          (s.tracker.snapshot repr) with
      | error e =>
          rw [htracker] at h
          cases h
      | ok tracker =>
          have hnat : natOf (some (jsonInt s.tracker.nextQueryId)) = some s.tracker.nextQueryId := by
            simp [natOf, jsonInt]
          simp only [readTracker_snapshot, hprints.eqInt, Bool.not_true, Bool.false_eq_true,
            if_false, hnat, List.length_map] at htracker
          unfold Quarantine.fromSnapshot at hquarantine
          split_ifs at htracker hquarantine with htracked hmany
          split at htracker
          · cases htracker
          · next hread =>
              have hdocs := short_of_readDocuments hread
              have hentries := fits_of_readEntries hquarantine
              simp only [Quarantine.snapshot, InsertionMap.values, List.length_map] at hmany
              refine ⟨?_, ?_, ?_, ?_, ?_⟩
              · intro id hid
                obtain ⟨entry, hentry, rfl⟩ := List.mem_map.mp hid
                exact (hdocs entry hentry).1
              · intro id record hget q vec hvec
                exact (hdocs (id, record) (InsertionMap.get?_eq_some_iff.mp hget)).2 (q, vec)
                  (InsertionMap.get?_eq_some_iff.mp hvec)
              · unfold InsertionMap.size
                omega
              · intro id hid
                obtain ⟨doc, hget⟩ := Option.isSome_iff_exists.mp (InsertionMap.has_iff.mpr hid)
                obtain ⟨hpos, hle, -⟩ := hentries doc (InsertionMap.mem_values_iff.mpr ⟨id, hget⟩)
                rw [(hsound.quarantine id doc hget).1] at hpos hle
                exact ⟨hpos, hle⟩
              · unfold InsertionMap.size
                omega

/-- A restart finds the saved state, or starts afresh. -/
theorem buildProxy_savedFile (hprints : PrintsExactly ops repr cfg.policy)
    (hinvariant : DetectorInvariant cfg s) (hsound : s.Sound cfg.toProxyConfig P)
    (hfinite : ∀ vec, P vec → (embeddingVectors ops).isFinite vec = true)
    (h : buildProxy ops cfg.store (savedFile repr cfg s) = some s') :
    (Loadable s ∧ s' = ⟨restarted ops cfg s, s.quarantine, ∅⟩) ∨ (¬ Loadable s ∧ s' = .new) := by
  by_cases hload : Loadable s
  · left
    refine ⟨hload, ?_⟩
    unfold buildProxy at h
    rw [load_savedFile hprints hinvariant hsound hfinite hload] at h
    exact (Option.some.inj h).symm
  · right
    refine ⟨hload, ?_⟩
    cases hfound : cfg.store.load ops (savedFile repr cfg s) with
    | ok found => exact absurd (loadable_of_load hprints hsound hfound) hload
    | error e =>
        unfold buildProxy at h
        rw [hfound] at h
        cases e with
        | valueError message => exact (Option.some.inj h).symm
        | overflowError => cases h

/-- What is read back is sound again. -/
theorem restarted_sound (hsound : s.Sound cfg.toProxyConfig P)
    (hfinite : ∀ vec, P vec → (embeddingVectors ops).isFinite vec = true)
    (hP : ∀ vec, (embeddingVectors ops).isFinite vec = true → P (normalize ops vec)) :
    (restarted ops cfg s).Sound cfg.tracker P := by
  let t := reread ops (s.tracker.embeddingDim.getD 0) s.tracker
  have hentries : t.docs.entries = _ := entries_reread hsound.tracker.ordered _
  have hdrop := @FrequencyTracker.enforce_drop _ _ cfg.tracker t rfl
  have hsublist : (t.enforceMaxTrackedDocs cfg.tracker).docs.entries.Sublist t.docs.entries :=
    hdrop ▸ List.drop_sublist _ _
  constructor
  · intro id record hget q vec hvec
    have hmem := hsublist.subset (InsertionMap.get?_eq_some_iff.mp hget)
    rw [hentries] at hmem
    obtain ⟨entry, hentry, heq⟩ := List.mem_map.mp hmem
    cases heq
    rw [get?_renormalized, Option.map_eq_some_iff] at hvec
    obtain ⟨old, hold, rfl⟩ := hvec
    obtain ⟨hlt, hgood⟩ := hsound.tracker.hits entry.1 entry.2
      (InsertionMap.get?_eq_some_iff.mpr (List.mem_filter.mp hentry).1) q old hold
    refine ⟨?_, hP old (hfinite old hgood)⟩
    show q < (t.enforceMaxTrackedDocs cfg.tracker).nextQueryId
    rw [FrequencyTracker.enforce_eq, FrequencyTracker.enforceOver_spec _ |>.2.1]
    exact hlt
  · refine (@FrequencyTracker.crowded_enforce _ cfg.tracker t).imp_right fun hall id hid => ?_
    exact Finset.mem_union_left _ (hall id hid)
  · refine List.Pairwise.sublist hsublist ?_
    rw [hentries, List.pairwise_map]
    refine (List.Pairwise.sublist List.filter_sublist hsound.tracker.ordered).imp ?_
    intro a b hab ha hb
    rw [size_renormalized] at ha hb
    show lastQuery (renormalized ops a.2) ≤ lastQuery (renormalized ops b.2)
    rw [lastQuery_renormalized, lastQuery_renormalized]
    exact hab ha hb

end

/-! ## Reachable states -/

section
variable {F : Type} (D : Type) (ops : PythonOps F) (repr : F → Json.Number)
  (inspectDocument : String → List String) (cfg : DetectorConfig F)

/-- The states of a service that starts empty, operates, and restarts on what it
has saved. -/
inductive Reached : RetrieverProxy (List F) → Prop
  | start : Reached .new
  | operate {s : RetrieverProxy (List F)} (h : Reached s) (op : Operation (List F) D) :
      Reached (s.step (embeddingVectors ops) inspectDocument cfg.toProxyConfig op)
  | restart {s s' : RetrieverProxy (List F)} {file : StateFile} (h : Reached s)
      (hsave : cfg.store.save repr s.tracker s.quarantine = .ok file)
      (hstart : buildProxy ops cfg.store file = some s') : Reached s'

end

section
variable {F D : Type} {ops : PythonOps F} {repr : F → Json.Number}
  {inspectDocument : String → List String} {cfg : DetectorConfig F} {P : List F → Prop}
  {s : RetrieverProxy (List F)}

theorem Reached.invariant (h : Reached D ops repr inspectDocument cfg s) :
    DetectorInvariant cfg s := by
  induction h with
  | start => exact new_invariant
  | operate _ op ih => exact (operate_spec ih op).1
  | restart _ _ hstart _ => exact (@load_spec _ D ops cfg .new _ _ hstart).1

theorem Reached.sound (h : Reached D ops repr inspectDocument cfg s)
    (hprints : PrintsExactly ops repr cfg.policy)
    (hfinite : ∀ vec, P vec → (embeddingVectors ops).isFinite vec = true)
    (hP : ∀ vec, (embeddingVectors ops).isFinite vec = true → P (normalize ops vec)) :
    s.Sound cfg.toProxyConfig P := by
  induction h with
  | start => exact ⟨FrequencyTracker.sound_new, Quarantine.sound_empty⟩
  | operate _ op ih => exact RetrieverProxy.step_sound cfg.hits hP op ih
  | restart hreached hsave hstart ih =>
      rw [save_eq_ok hsave] at hstart
      rcases buildProxy_savedFile hprints hreached.invariant ih hfinite hstart with
        ⟨-, rfl⟩ | ⟨-, rfl⟩
      · exact ⟨restarted_sound ih hfinite hP, ih.quarantine⟩
      · exact ⟨FrequencyTracker.sound_new, Quarantine.sound_empty⟩

end

end BlackMonolith.VectorAnchor
