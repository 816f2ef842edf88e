import BlackMonolith.Baseline.Decisions

/-!
# A reload after operator commands

A reload takes the file for the memory, or merges the two when the memory holds
something that is not saved. The result has every decision of the operators, and
every name in one place, just when the file has every name in one place and the
memory neither trusts nor has revoked what the file says otherwise of.
-/
namespace BlackMonolith.Baseline
open Json Library

/-! ## Files that operators have written -/

section
variable {δ : Type} (fmt : Format δ) (hmac : String → Except String String)

/-- Commands that succeed one after the other: each loads the file, applies and
writes back what it loaded. -/
inductive Operated : Option Contents → List Command → Option Contents → Prop
  | nil (disk : Option Contents) : Operated disk [] disk
  | commit {disk disk' : Option Contents} {commands : List Command} (command : Command)
      {loaded : BaselineStore δ} (order : ℕ) :
      Operated disk commands disk' → load fmt hmac disk' = .ok loaded →
        (command.apply loaded).2 = true →
          Operated disk (commands ++ [command])
            (some (.json (command.apply loaded).1.file order))

end

/-- The last of the commands on a name. -/
def lastOn (commands : List Command) (name : String) : Option Command :=
  commands.reverse.find? (·.tool = name)

@[simp] theorem lastOn_append (commands : List Command) (command : Command) (name : String) :
    lastOn (commands ++ [command]) name =
      if command.tool = name then some command else lastOn commands name := by
  unfold lastOn
  rw [List.reverse_append, List.reverse_singleton, List.singleton_append, List.find?_cons]
  by_cases h : command.tool = name
  · simp [h]
  · simp [h]

theorem lastOn_tool {commands : List Command} {name : String} {command : Command}
    (h : lastOn commands name = some command) : command.tool = name := by
  have hfound := List.find?_some h
  exact of_decide_eq_true hfound

section
variable {δ : Type} {fmt : Format δ} {hmac : String → Except String String}
  {disk disk' : Option Contents} {commands : List Command}

/-- The file has the last decision on every name. -/
theorem Operated.honours (h : Operated fmt hmac disk commands disk') {name : String}
    {command : Command} (hlast : lastOn commands name = some command) :
    ∃ file order, disk' = some (.json file order) ∧ Honours command file := by
  induction h with
  | nil => cases hlast
  | commit latest order _ hload happly ih =>
      refine ⟨_, order, rfl, ?_⟩
      rw [lastOn_append] at hlast
      split at hlast
      · cases hlast
        exact (apply_honours happly).1
      · next hne =>
          obtain ⟨file, order', hdisk, hhonours⟩ := ih hlast
          refine (apply_honours happly).2 command ?_ ?_
          · rw [lastOn_tool hlast]
            exact fun heq => hne heq.symm
          · rcases load_ok hload with ⟨hnone, -⟩ | ⟨order'', hsome, -⟩
            · rw [hnone] at hdisk
              cases hdisk
            · rw [hsome] at hdisk
              cases hdisk
              exact hhonours

end

/-! ## The merge -/

/-- Every name is in one place only. -/
structure Settled (file : BaselineFile) : Prop where
  revoked : ∀ name ∈ file.tools, name ∉ file.revoked
  pending : ∀ name ∈ file.tools, name ∉ file.pending

/-- The memory has each name in one place and every decision on the file that was
loaded: its revocations, and what the commands decided last. -/
structure Respects (commands : List Command) (file memory : BaselineFile) : Prop where
  settled : Settled memory
  revoked : ∀ name ∈ file.revoked, name ∈ memory.revoked ∧ name ∉ memory.tools
  decided : ∀ name command, lastOn commands name = some command → Honours command memory

/-- What the memory alone holds is at odds neither with the file nor with itself. -/
structure Compatible (file memory : BaselineFile) : Prop where
  trusted : ∀ name ∈ memory.tools, name ∉ file.revoked ∧ name ∉ file.pending
  lifted : ∀ name ∈ memory.revoked, name ∉ file.tools ∧ name ∉ memory.tools

section
variable {δ : Type} {store reloaded : BaselineStore δ} {commands : List Command}

theorem merge_respects_iff
    (hdecided : ∀ name command, lastOn commands name = some command →
      Honours command reloaded.file) :
    Respects commands reloaded.file (store.merge reloaded).file ↔
      Settled reloaded.file ∧ Compatible reloaded.file store.file := by
  constructor
  · intro h
    constructor
    · constructor
      · intro name htool hrevoked
        refine h.settled.revoked name ?_ ?_
        · exact Finmap.mem_union.mpr (Or.inl htool)
        · exact Finset.mem_union_left _ hrevoked
      · intro name htool hpending
        refine h.settled.pending name ?_ ?_
        · exact Finmap.mem_union.mpr (Or.inl htool)
        · exact Finmap.mem_union.mpr (Or.inl hpending)
    · constructor
      · intro name htool
        have htool' : name ∈ (store.merge reloaded).tools := Finmap.mem_union.mpr (Or.inr htool)
        constructor
        · exact fun hrevoked => h.settled.revoked name htool' (Finset.mem_union_left _ hrevoked)
        · intro hpending
          exact h.settled.pending name htool' (Finmap.mem_union.mpr (Or.inl hpending))
      · intro name hrevoked
        have hrevoked' : name ∈ (store.merge reloaded).revoked :=
          Finset.mem_union_right _ hrevoked
        constructor
        · intro htool
          exact h.settled.revoked name (Finmap.mem_union.mpr (Or.inl htool)) hrevoked'
        · intro htool
          exact h.settled.revoked name (Finmap.mem_union.mpr (Or.inr htool)) hrevoked'
  · intro h
    obtain ⟨hfile, hmemory⟩ := h
    have hrevoked : ∀ name ∈ (store.merge reloaded).tools,
        name ∉ (store.merge reloaded).revoked := by
      intro name htool hrevoked
      rcases Finset.mem_union.mp hrevoked with hdisk | hold
      · rcases Finmap.mem_union.mp htool with htool | htool
        · exact hfile.revoked name htool hdisk
        · exact (hmemory.trusted name htool).1 hdisk
      · rcases Finmap.mem_union.mp htool with htool | htool
        · exact (hmemory.lifted name hold).1 htool
        · exact (hmemory.lifted name hold).2 htool
    constructor
    · constructor
      · exact hrevoked
      · intro name htool hpending
        rcases Finmap.mem_union.mp hpending with hdisk | hold
        · rcases Finmap.mem_union.mp htool with htool | htool
          · exact hfile.pending name htool hdisk
          · exact (hmemory.trusted name htool).2 hdisk
        · exact notMem_of_mem_sdiff hold htool
    · intro name hname
      have hmem : name ∈ (store.merge reloaded).revoked := Finset.mem_union_left _ hname
      exact ⟨hmem, fun htool => hrevoked name htool hmem⟩
    · intro name command hlast
      refine merge_agrees ?_ command (hdecided name command hlast)
      constructor
      · exact fun name htool hdisk => absurd hdisk (hmemory.trusted name htool).1
      · exact fun name hold htool => absurd htool (hmemory.lifted name hold).1

theorem replace_respects_iff
    (hdecided : ∀ name command, lastOn commands name = some command →
      Honours command reloaded.file) :
    Respects commands reloaded.file (store.replace reloaded).file ↔ Settled reloaded.file := by
  constructor
  · exact fun h => h.settled
  · intro h
    refine ⟨h, fun name hname => ⟨hname, fun htool => h.revoked name htool hname⟩, ?_⟩
    exact hdecided

end

/-! ## The reload -/

section
variable {δ : Type} [DecidableEq δ] {fmt : Format δ} {hmac : String → Except String String}
  {store reloaded : BaselineStore δ} {disk disk' : Option Contents} {commands : List Command}

/-- For every memory, and every valid file that operator commands have written
since it was last loaded. -/
theorem reload_respects_iff (hoperated : Operated fmt hmac disk commands disk')
    (hwritten : commands ≠ []) (hload : load fmt hmac disk' = .ok reloaded)
    (hchanged : store.diskDigest ≠ disk'.map fmt.digest) :
    Respects commands reloaded.file (store.reloadIfChanged fmt hmac disk').1.file ↔
      Settled reloaded.file ∧ (store.dirty → Compatible reloaded.file store.file) := by
  have hdecided : ∀ name command, lastOn commands name = some command →
      Honours command reloaded.file := by
    intro name command hlast
    obtain ⟨file, order, hdisk, hhonours⟩ := hoperated.honours hlast
    rcases load_ok hload with ⟨hnone, -⟩ | ⟨order', hsome, -⟩
    · rw [hnone] at hdisk
      cases hdisk
    · rw [hsome] at hdisk
      cases hdisk
      exact hhonours
  have hreload : (store.reloadIfChanged fmt hmac disk').1 =
      if store.dirty then store.merge reloaded else store.replace reloaded := by
    cases hoperated with
    | nil => exact absurd rfl hwritten
    | commit command order _ _ _ =>
        unfold BaselineStore.reloadIfChanged
        rw [Option.map_some] at hchanged
        dsimp only
        rw [if_neg hchanged, hload]
  rw [hreload]
  cases hdirty : store.dirty with
  | true =>
      simp only [if_true, forall_true_left]
      exact merge_respects_iff hdecided
  | false =>
      simp only [Bool.false_eq_true, if_false, false_implies, and_true]
      exact replace_respects_iff hdecided

end

/-! ## A revocation that the memory has not seen -/

def toolNamed (name : String) : Value := .object [("name", .string name)]

def entryNamed (name : String) : BaselineEntry :=
  ⟨canonicalize (toolNamed name), "", 0, toolNamed name⟩

/-- A file that trusts one tool, and a memory that has loaded it. -/
def trustsRead : BaselineFile := ⟨Finmap.singleton "read" (entryNamed "read"), ∅, ∅⟩

def loadedRead : BaselineStore Contents :=
  { tools := trustsRead.tools
    diskDigest := some (.json trustsRead 0) }

/-- The proxy has also registered a second tool that it could not save. -/
def unsavedWrite : BaselineStore Contents :=
  { loadedRead with
    tools := loadedRead.tools.insert "write" (entryNamed "write")
    unpersisted := {"write"}
    dirty := true }

/-- An operator revokes the tool on disk. -/
def revokedRead : BaselineFile := (loadedRead.revoke "read").1.file

/-- The reload of a memory after that. -/
def reloadRevoked (store : BaselineStore Contents) : BaselineStore Contents :=
  (store.reloadIfChanged plainFormat plainHmac (some (.json revokedRead 0))).1

/-- The revoked tool stays trusted. -/
theorem revoked_read_stays_trusted :
    Operated plainFormat plainHmac (some (.json trustsRead 0)) [.revoke "read"]
        (some (.json revokedRead 0)) ∧
      (∃ reloaded, load plainFormat plainHmac (some (.json revokedRead 0)) = .ok reloaded) ∧
      unsavedWrite.diskDigest ≠ some (.json revokedRead 0) ∧
      "read" ∈ revokedRead.revoked ∧ "read" ∈ (reloadRevoked unsavedWrite).tools ∧
      ¬Respects [.revoke "read"] revokedRead (reloadRevoked unsavedWrite).file := by
  have hoperated : Operated plainFormat plainHmac (some (.json trustsRead 0)) [.revoke "read"]
      (some (.json revokedRead 0)) :=
    @Operated.commit _ _ _ _ _ _ (.revoke "read") loadedRead 0 (.nil _) rfl rfl
  have hrevoked : "read" ∈ revokedRead.revoked := by decide
  have htrusted : "read" ∈ (reloadRevoked unsavedWrite).tools := by decide
  refine ⟨hoperated, ⟨_, rfl⟩, by decide, hrevoked, htrusted, fun h => ?_⟩
  exact (h.revoked "read" hrevoked).2 htrusted

/-- A memory with nothing to save takes over the revocation. -/
theorem reload_respects_clean :
    Respects [.revoke "read"] revokedRead (reloadRevoked loadedRead).file := by
  have hoperated : Operated plainFormat plainHmac (some (.json trustsRead 0)) [.revoke "read"]
      (some (.json revokedRead 0)) :=
    @Operated.commit _ _ _ _ _ _ (.revoke "read") loadedRead 0 (.nil _) rfl rfl
  have hload : load plainFormat plainHmac (some (.json revokedRead 0)) = .ok _ := rfl
  refine (reload_respects_iff hoperated (by decide) hload (by decide)).mpr ⟨?_, ?_⟩
  · have hnone : ∀ name, name ∉ revokedRead.tools := by
      intro name hname
      have hmem := Finmap.mem_erase.mp hname
      exact hmem.1 ((Finmap.mem_singleton name "read" (entryNamed "read")).mp hmem.2)
    exact ⟨fun name hname => absurd hname (hnone name), fun name hname => absurd hname (hnone name)⟩
  · intro hdirty
    cases hdirty

end BlackMonolith.Baseline
