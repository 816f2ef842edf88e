import BlackMonolith.Baseline.ListingSafety

/-!
# Reading back what was written

The limits of a load are on the name of an entry as it stands, on the number of
entries and on the length of the text. The analysis of a listing limits the
trimmed name only, and neither the analysis nor a command counts entries, so a
file may be written that the next load refuses. A float may be read back as
another one, whose canonical text is not the one that was signed. Everything else
a load asks of an entry holds of every entry of a run.
-/
namespace BlackMonolith.Baseline
open Json JsonRpc Library Sanitizer

section
variable {δ : Type} {fmt : Format δ} {hmac : String → Except String String}
  {store : BaselineStore δ}

/-- The limits of a load, and what it cannot read back as it was. -/
structure WithinLimits (fmt : Format δ) (file : BaselineFile) (order : ℕ) : Prop where
  bytes : fmt.bytes (.json file order) ≤ maxBaselineBytes
  tools : file.tools.keys.card ≤ maxBaselineTools
  pending : file.pending.keys.card ≤ maxBaselineTools
  revoked : file.revoked.card ≤ maxBaselineTools
  names : ∀ name, name ∈ file.tools ∨ name ∈ file.pending → Text.len name ≤ maxToolNameBytes
  floats : ∀ name entry, file.tools.lookup name = some entry ∨
    file.pending.lookup name = some entry → entry.tool.asRead fmt.reread = entry.tool

/-- The file is loaded, with the maps of the store. -/
def ReadsBack (fmt : Format δ) (hmac : String → Except String String) (store : BaselineStore δ)
    (disk : Option Contents) : Prop :=
  ∃ reloaded, load fmt hmac disk = .ok reloaded ∧ reloaded.file = store.file

/-! ## Sound entries -/

/-- The identity of a readable tool is not empty, so its name is not. -/
theorem Readable.name_ne_empty {tool : Value} {identity name : String}
    (h : Readable tool identity) (hname : (tool.get "name").bind Value.asStr = some name) :
    name ≠ "" := by
  intro hempty
  have hnamed := h.named
  unfold toolIdentity at hnamed
  rw [hname, hempty] at hnamed
  cases hnamed

theorem BaselineEntry.asRead_eq_iff {entry : BaselineEntry} :
    entry.asRead fmt = entry ↔ entry.tool.asRead fmt.reread = entry.tool := by
  unfold BaselineEntry.asRead
  constructor
  · exact congrArg BaselineEntry.tool
  · intro htool
    rw [htool]

/-- A sound entry that is read back as it was. -/
theorem SoundEntry.isAuthentic {name : String} {entry : BaselineEntry}
    (h : SoundEntry hmac name entry) :
    (entryIsAuthentic hmac name (entry.asRead fmt) && entry.asRead fmt == entry) = true ↔
      Text.len name ≤ maxToolNameBytes ∧ entry.tool.asRead fmt.reread = entry.tool := by
  rw [Bool.and_eq_true, beq_iff_eq, BaselineEntry.asRead_eq_iff]
  refine and_congr_left fun hread => ?_
  rw [BaselineEntry.asRead_eq_iff.mpr hread]
  obtain ⟨identity, hreadable⟩ := h.readable
  have hname : name.isEmpty = false := by
    rw [String.isEmpty_eq_false_iff]
    exact hreadable.name_ne_empty h.named
  have hnull : (entry.tool != .null) = true := bne_iff_ne.mpr h.tool_ne_null
  simp only [entryIsAuthentic, hname, hnull, h.named, h.description, h.hash, Bool.not_false,
    Bool.true_and, beq_self_eq_true, Bool.and_true, decide_eq_true_iff]

theorem areAuthentic_iff {entries : Entries} (h : EveryEntry (SoundEntry hmac) entries) :
    entries.areAuthentic fmt hmac = true ↔
      ∀ name entry, entries.lookup name = some entry →
        Text.len name ≤ maxToolNameBytes ∧ entry.tool.asRead fmt.reread = entry.tool := by
  simp only [Entries.areAuthentic, decide_eq_true_iff, Finmap.mem_keys]
  constructor
  · intro hall name entry hlookup
    have hentry := hall name (Finmap.mem_iff.mpr ⟨entry, hlookup⟩)
    rw [hlookup, Option.all_some] at hentry
    exact (h name entry hlookup).isAuthentic.mp hentry
  · intro hall name hmem
    obtain ⟨entry, hlookup⟩ := Finmap.mem_iff.mp hmem
    rw [hlookup, Option.all_some]
    exact (h name entry hlookup).isAuthentic.mpr (hall name entry hlookup)

/-- A sound record within the limits is loaded as it is; any other is refused. -/
theorem readsBack_iff (h : SoundFile hmac store.file) (order : ℕ) :
    ReadsBack fmt hmac store (some (.json store.file order)) ↔
      WithinLimits fmt store.file order := by
  have htools := @areAuthentic_iff _ fmt _ _ h.tools
  have hpending := @areAuthentic_iff _ fmt _ _ h.pending
  constructor
  · intro hreads
    obtain ⟨reloaded, hload, -⟩ := hreads
    unfold load at hload
    dsimp only at hload
    split_ifs at hload with hbytes htoolCount hpendingCount hrevokedCount hentries
    simp only [Bool.or_eq_true, Bool.not_eq_true', not_or, Bool.not_eq_false] at hentries
    have hread := htools.mp hentries.1
    have hread' := hpending.mp hentries.2
    refine ⟨by omega, by omega, by omega, by omega, ?_, ?_⟩
    · intro name hmem
      cases hmem with
      | inl hmem =>
          obtain ⟨entry, hlookup⟩ := Finmap.mem_iff.mp hmem
          exact (hread name entry hlookup).1
      | inr hmem =>
          obtain ⟨entry, hlookup⟩ := Finmap.mem_iff.mp hmem
          exact (hread' name entry hlookup).1
    · intro name entry hlookup
      cases hlookup with
      | inl hlookup => exact (hread name entry hlookup).2
      | inr hlookup => exact (hread' name entry hlookup).2
  · intro hlimits
    have hentries : (!store.file.tools.areAuthentic fmt hmac ||
        !store.file.pending.areAuthentic fmt hmac) = false := by
      rw [htools.mpr fun name entry hlookup =>
          ⟨hlimits.names name (Or.inl (Finmap.mem_iff.mpr ⟨entry, hlookup⟩)),
            hlimits.floats name entry (Or.inl hlookup)⟩,
        hpending.mpr fun name entry hlookup =>
          ⟨hlimits.names name (Or.inr (Finmap.mem_iff.mpr ⟨entry, hlookup⟩)),
            hlimits.floats name entry (Or.inr hlookup)⟩]
      rfl
    have hload : load fmt hmac (some (.json store.file order)) =
        .ok
          { tools := store.tools
            pending := store.pending
            revoked := store.revoked
            diskDigest := some (fmt.digest (.json store.file order)) } := by
      unfold load
      dsimp only
      rw [if_neg (Nat.not_lt.mpr hlimits.bytes), if_neg (Nat.not_lt.mpr hlimits.tools), if_neg (Nat.not_lt.mpr hlimits.pending),
        if_neg (Nat.not_lt.mpr hlimits.revoked), hentries, if_neg Bool.false_ne_true]
      rfl
    exact ⟨_, hload, rfl⟩

/-! ## Runs -/

/-- The stores of a system: what its proxy holds, and what its operators have
loaded and are about to write. -/
def System.Holds (sys : System δ) (store : BaselineStore δ) : Prop :=
  sys.proxy = some store ∨ ∃ id operator, sys.operators id = some operator ∧
    (store = operator.store ∨ store = (operator.command.apply operator.store).1)

theorem System.Sound.holds {sys : System δ} (h : sys.Sound hmac) (hstore : sys.Holds store) :
    SoundFile hmac store.file := by
  rcases hstore with hproxy | ⟨id, operator, hoperator, hloaded | happlied⟩
  · exact h.proxy store hproxy
  · rw [hloaded]
    exact h.operators id operator hoperator
  · rw [happlied]
    exact (h.operators id operator hoperator).apply operator.command

variable [DecidableEq δ]

/-- Whatever store a run reaches, its file is loaded with the same maps exactly
when the store is within the limits. -/
theorem persisted_reads_back_iff {sys : System δ} {actions : List Action}
    (h : Path (systemStep fmt hmac) unguarded {} actions sys) (hstore : sys.Holds store)
    (order : ℕ) (disk : Option Contents) :
    (ReadsBack fmt hmac store (store.writeStore fmt (.ok order) disk).2.1 ↔
      WithinLimits fmt store.file order) ∧
    (store.dirty = true →
      (ReadsBack fmt hmac store (store.saveIfDirty fmt (.ok order) disk).2.1 ↔
        WithinLimits fmt store.file order)) := by
  have hsound : sys.Sound hmac := h.invariant step_sound System.init_sound
  have hiff : ReadsBack fmt hmac store (some (.json store.file order)) ↔
      WithinLimits fmt store.file order := readsBack_iff (hsound.holds hstore) order
  refine ⟨hiff, fun hdirty => ?_⟩
  have hsaved : (store.saveIfDirty fmt (.ok order) disk).2.1 = some (.json store.file order) := by
    unfold BaselineStore.saveIfDirty
    rw [if_pos hdirty]
    rfl
  rw [hsaved]
  exact hiff

end

/-! ## A padded name -/

/-- A listing of one tool, whose name is padded with ideographic spaces to 129 bytes. -/
def paddedListing : JsonRpcMessage where
  jsonrpc := some "2.0"
  id := some (number 1)
  result := some (.object [("tools", .array [.object
    [("inputSchema", .object []),
      ("name", .string ("read_file" ++ String.ofList (List.replicate 40 '\u3000')))]])])

theorem not_readsBack {store : BaselineStore Contents} {disk : Option Contents}
    (h : (load plainFormat plainHmac disk).isOk = false) :
    ¬ReadsBack plainFormat plainHmac store disk := by
  intro hreads
  obtain ⟨reloaded, hload, -⟩ := hreads
  rw [hload] at h
  cases h

/-- The proxy registers the tool, its store is not read back, and no proxy starts again. -/
theorem padded_name_bricks_baseline :
    ∃ sys store, execute (systemStep plainFormat plainHmac) {} (register paddedListing) = some sys ∧
      sys.proxy = some store ∧
      ¬ReadsBack plainFormat plainHmac store (store.writeStore plainFormat (.ok 0) sys.disk).2.1 ∧
      (systemStep plainFormat plainHmac sys .start).isNone := by
  have hrun : (execute (systemStep plainFormat plainHmac) {} (register paddedListing)).any
      (fun sys => (sys.proxy.any fun store =>
        !(load plainFormat plainHmac (store.writeStore plainFormat (.ok 0) sys.disk).2.1).isOk) &&
          (systemStep plainFormat plainHmac sys .start).isNone) = true := by
    decide +kernel
  obtain ⟨sys, hsys, hchecks⟩ := (Option.any_eq_true _ _).mp hrun
  obtain ⟨hproxy, hstart⟩ := (Bool.and_eq_true _ _).mp hchecks
  obtain ⟨store, hstore, hload⟩ := (Option.any_eq_true _ _).mp hproxy
  exact ⟨sys, store, hsys, hstore, not_readsBack (Bool.not_eq_eq_eq_not.mp hload), hstart⟩

/-- The file of a benign listing is loaded as it was written. -/
theorem persisted_reads_back_benign :
    ∃ sys store, execute (systemStep plainFormat plainHmac) {} (register benign) = some sys ∧
      sys.proxy = some store ∧ "read_file" ∈ store.tools ∧
      ReadsBack plainFormat plainHmac store (store.writeStore plainFormat (.ok 0) sys.disk).2.1 := by
  have hrun : (execute (systemStep plainFormat plainHmac) {} (register benign)).any
      (fun sys => sys.proxy.any fun store =>
        decide (store.tools.keys = {"read_file"} ∧ store.pending.keys = ∅ ∧ store.revoked = ∅)) =
          true := by
    decide
  obtain ⟨sys, hsys, hchecks⟩ := (Option.any_eq_true _ _).mp hrun
  obtain ⟨store, hstore, hmaps⟩ := (Option.any_eq_true _ _).mp hchecks
  obtain ⟨htools, hpending, hrevoked⟩ := of_decide_eq_true hmaps
  have hmem : "read_file" ∈ store.tools := by
    rw [← Finmap.mem_keys, htools]
    exact Finset.mem_singleton_self _
  refine ⟨sys, store, hsys, hstore, hmem, ?_⟩
  refine (persisted_reads_back_iff (Path.of_execute hsys) (Or.inl hstore) 0 sys.disk).1.mpr ?_
  refine ⟨Nat.zero_le _, ?_, ?_, ?_, ?_, fun _ entry _ => Value.asRead_id entry.tool⟩
  · rw [show store.file.tools.keys = {"read_file"} from htools]
    decide
  · rw [show store.file.pending.keys = ∅ from hpending]
    decide
  · rw [show store.file.revoked = ∅ from hrevoked]
    decide
  · intro name hname
    rw [← Finmap.mem_keys, ← Finmap.mem_keys, show store.file.tools.keys = {"read_file"} from htools,
      show store.file.pending.keys = ∅ from hpending, Finset.mem_singleton] at hname
    rcases hname with hname | hname
    · rw [hname]
      decide
    · exact absurd hname (Finset.notMem_empty _)

end BlackMonolith.Baseline
