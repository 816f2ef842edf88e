import BlackMonolith.Baseline.StoreFile
import BlackMonolith.Baseline.ToolSteps
import BlackMonolith.Library.FiniteMaps

/-!
# What the baseline holds

In every run, each trusted or pending entry is a schema the proxy could read,
under its own name, description and fingerprint.
-/
namespace BlackMonolith.Baseline
open Json JsonRpc Library Sanitizer

/-! ## Sound entries -/

section
variable {δ : Type} {cfg : Shield} {hmac : String → Except String String}
  {store : BaselineStore δ} {item : Listed}

/-- An entry holds the schema it was made from. -/
structure SoundEntry (hmac : String → Except String String) (name : String)
    (entry : BaselineEntry) : Prop where
  named : (entry.tool.get "name").bind Value.asStr = some name
  hash : fingerprintTool hmac entry.tool = .ok entry.hash
  description : descriptionOf entry.tool = entry.description
  readable : ∃ identity, Readable entry.tool identity

theorem SoundEntry.tool_ne_null {name : String} {entry : BaselineEntry}
    (h : SoundEntry hmac name entry) : entry.tool ≠ .null := by
  intro hnull
  have hnamed := h.named
  rw [hnull] at hnamed
  cases hnamed

/-- Trusted and pending entries are sound. -/
structure SoundFile (hmac : String → Except String String) (file : BaselineFile) : Prop where
  tools : EveryEntry (SoundEntry hmac) file.tools
  pending : EveryEntry (SoundEntry hmac) file.pending

theorem soundEntry_of_item {hash : String} (hserved : ∃ identity, Readable item.tool identity)
    (hhash : fingerprintTool hmac item.tool = .ok hash) (now : ℕ) :
    SoundEntry hmac item.name ⟨hash, descriptionOf item.tool, now, item.tool⟩ := by
  obtain ⟨identity, hreadable⟩ := hserved
  exact ⟨hreadable.name, hhash, rfl, identity, hreadable⟩

theorem SoundFile.check (h : SoundFile hmac store.file) {hash : String}
    (hserved : ∃ identity, Readable item.tool identity)
    (hhash : fingerprintTool hmac item.tool = .ok hash) :
    SoundFile hmac (store.compare item hash).1.file := by
  unfold BaselineStore.compare BaselineStore.check
  split
  · exact ⟨h.tools.insert (soundEntry_of_item hserved hhash item.now), h.pending⟩
  · exact h

theorem SoundFile.registerPending (h : SoundFile hmac store.file) {hash : String}
    (hserved : ∃ identity, Readable item.tool identity)
    (hhash : fingerprintTool hmac item.tool = .ok hash) :
    SoundFile hmac
      (store.registerPending item.name hash (descriptionOf item.tool) item.now item.tool).1.file := by
  unfold BaselineStore.registerPending
  split
  · exact h
  · exact ⟨h.tools, h.pending.insert (soundEntry_of_item hserved hhash item.now)⟩

theorem SoundFile.analyzeTool (h : SoundFile hmac store.file)
    (hserved : item.isWithheld = false → ∃ identity, Readable item.tool identity) :
    SoundFile hmac (analyzeTool cfg hmac store item).1.file := by
  rcases analyzeTool_cases cfg hmac store item with ⟨hash, hcompared⟩ |
    ⟨hash, events, hpark, hparked⟩ | ⟨hsame, -⟩
  · rw [analyzeTool_of_compared hcompared]
    exact h.check (hserved hcompared.served) hcompared.hashed
  · rw [hparked]
    exact h.registerPending (hserved hpark.served) hpark.hashed
  · rw [hsame]
    exact h

theorem served_readable {clock : ℕ → ℕ} {tools : List Value}
    (hitem : item ∈ listing cfg clock tools) (hserved : item.isWithheld = false) :
    ∃ identity, Readable item.tool identity := by
  obtain ⟨identity, hreadable, -⟩ := (served_iff hitem).mp hserved
  exact ⟨identity, hreadable⟩

theorem SoundFile.judgeListing (h : SoundFile hmac store.file) (clock : ℕ → ℕ)
    (msg : JsonRpcMessage) (tools : List Value) :
    SoundFile hmac (judgeListing cfg hmac clock msg tools store).store.file := by
  rw [judgeListing_store]
  exact @Sweep.invariant _ _ _ _ _ _ _ (fun s : BaselineStore δ => SoundFile hmac s.file)
    (fun s item hitem hs => hs.analyzeTool (served_readable hitem)) h

theorem SoundFile.apply (h : SoundFile hmac store.file) (command : Command) :
    SoundFile hmac (command.apply store).1.file := by
  cases command with
  | approve tool =>
      simp only [Command.apply, BaselineStore.approve]
      split
      · exact h
      · next entry hentry =>
          exact ⟨h.tools.insert (h.pending tool entry hentry), h.pending.erase⟩
  | revoke tool =>
      simp only [Command.apply, BaselineStore.revoke]
      split
      · exact h
      · next entry hentry =>
          refine ⟨h.tools.erase, ?_⟩
          dsimp only [BaselineStore.file]
          split
          · exact h.pending
          · exact h.pending.insert (h.tools tool entry hentry)

end

section
variable {δ : Type} {cfg : Shield} {fmt : Format δ} {hmac : String → Except String String}
  {store store' : BaselineStore δ} {disk : Option Contents}

def SoundDisk (hmac : String → Except String String) (disk : Option Contents) : Prop :=
  ∀ file order, disk = some (.json file order) → SoundFile hmac file

theorem SoundFile.empty : SoundFile hmac ({} : BaselineStore δ).file :=
  ⟨EveryEntry.empty, EveryEntry.empty⟩

theorem SoundFile.merge {reloaded : BaselineStore δ} (h : SoundFile hmac store.file)
    (h' : SoundFile hmac reloaded.file) : SoundFile hmac (store.merge reloaded).file :=
  ⟨h'.tools.union h.tools, h'.pending.union h.pending.sdiff⟩

theorem SoundFile.written {order : ℕ} {disk' : Option Contents} (h : SoundFile hmac store.file)
    (hwritten : Written fmt store store' disk' order) :
    SoundFile hmac store'.file ∧ SoundDisk hmac disk' := by
  rw [hwritten.file, hwritten.disk]
  refine ⟨h, ?_⟩
  intro file order' heq
  cases heq
  exact h

theorem SoundFile.persist (h : SoundFile hmac store.file) (hdisk : SoundDisk hmac disk)
    (fmt : Format δ) (outcome : Except String ℕ) :
    SoundFile hmac (persist fmt outcome disk store).1.file ∧
      SoundDisk hmac (persist fmt outcome disk store).2.1 := by
  rcases @persist_cases _ fmt store outcome disk with ⟨hsame, hdisk'⟩ | ⟨order, hwritten⟩
  · rw [hsame.file, hdisk']
    exact ⟨h, hdisk⟩
  · exact h.written hwritten

theorem SoundDisk.load (h : SoundDisk hmac disk) (hload : load fmt hmac disk = .ok store) :
    SoundFile hmac store.file := by
  rcases load_ok hload with ⟨-, rfl⟩ | ⟨order, hdisk, -⟩
  · exact .empty
  · exact h store.file order hdisk

/-! ## Runs -/

/-- The file and every copy of it hold sound entries. -/
structure System.Sound (hmac : String → Except String String) (sys : System δ) : Prop where
  disk : SoundDisk hmac sys.disk
  proxy : ∀ store, sys.proxy = some store → SoundFile hmac store.file
  operators : ∀ id operator, sys.operators id = some operator →
    SoundFile hmac operator.store.file

theorem System.init_sound : ({} : System δ).Sound hmac := by
  constructor
  · intro file order heq
    cases heq
  · intro store heq
    cases heq
  · intro id operator heq
    cases heq

variable [DecidableEq δ]

theorem SoundFile.reload (h : SoundFile hmac store.file) (hdisk : SoundDisk hmac disk) :
    SoundFile hmac (reload cfg fmt hmac disk store).1.file := by
  cases @reload_cases _ cfg fmt hmac store disk _ with
  | current _ hsame =>
      rw [hsame.file]
      exact h
  | cleared _ _ hsame =>
      rw [hsame.file]
      exact .empty
  | read reloaded hload _ _ hsame =>
      rw [hsame.file]
      have hreloaded := hdisk.load hload
      split
      · exact h.merge hreloaded
      · exact ⟨hreloaded.tools, hreloaded.pending⟩

omit [DecidableEq δ] in
theorem keepsFile_sound {sys : System δ} {action : Action} :
    KeepsFile fmt hmac (SoundFile hmac) sys action where
  empty := .empty
  merge := by
    rintro cfg store reloaded - - - - - hstore hreloaded
    exact hstore.merge hreloaded
  analyse := by
    rintro cfg clock msg tools store - - - hstore
    exact hstore.judgeListing clock msg tools
  apply := fun _ _ operator _ _ hoperator => hoperator.apply operator.command

omit [DecidableEq δ] in
theorem System.sound_iff {sys : System δ} : sys.Sound hmac ↔ sys.Everywhere (SoundFile hmac) :=
  ⟨fun h => ⟨h.disk, h.proxy, h.operators⟩, fun h => ⟨h.disk, h.proxy, h.operators⟩⟩

theorem step_sound (sys : System δ) (action : Action) (sys' : System δ) (h : sys.Sound hmac)
    (_ : unguarded sys action) (hstep : systemStep fmt hmac sys action = some sys') :
    sys'.Sound hmac :=
  System.sound_iff.mpr (step_everywhere (System.sound_iff.mp h) keepsFile_sound hstep)

end

end BlackMonolith.Baseline
