import Mathlib.Data.Finmap
import Mathlib.Data.List.Sort
import BlackMonolith.Json
import BlackMonolith.Text

/-!
# Schema fingerprints and the baseline store

A tool object is fingerprinted by a keyed hash of its canonical form. The store
holds the trusted tools, those seen but not approved, and the revoked names; its
file is written whole and read back under authentication.

`HashMap` and `HashSet` are finite maps and sets without an order. The keyed
hash is HMAC-SHA256 under the key of the proxy.
-/
namespace BlackMonolith.Json.Value

mutual
/-- The value with its floats as `reread` gives them. -/
def asRead (reread : String → String) : Value → Value
  | .number (.float text) => .number (.float (reread text))
  | .array items => .array (itemsAsRead reread items)
  | .object members => .object (membersAsRead reread members)
  | other => other

def itemsAsRead (reread : String → String) : List Value → List Value
  | [] => []
  | item :: items => asRead reread item :: itemsAsRead reread items

def membersAsRead (reread : String → String) : List (String × Value) → List (String × Value)
  | [] => []
  | (key, value) :: members => (key, asRead reread value) :: membersAsRead reread members
end

mutual
theorem asRead_id : (v : Value) → v.asRead id = v
  | .number (.float _) | .number (.int _) | .null | .bool _ | .string _ => rfl
  | .array items => by rw [asRead, itemsAsRead_id items]
  | .object members => by rw [asRead, membersAsRead_id members]

theorem itemsAsRead_id : (items : List Value) → itemsAsRead id items = items
  | [] => rfl
  | item :: items => by rw [itemsAsRead, asRead_id item, itemsAsRead_id items]

theorem membersAsRead_id : (members : List (String × Value)) → membersAsRead id members = members
  | [] => rfl
  | (_, value) :: members => by rw [membersAsRead, asRead_id value, membersAsRead_id members]
end

end BlackMonolith.Json.Value

namespace BlackMonolith.Baseline
open Json

def maxBaselineBytes : ℕ := 16 * 1024 * 1024
def maxBaselineTools : ℕ := 10000
def maxToolNameBytes : ℕ := 128

/-! ## Canonical form -/

/-- Members by key. -/
def sortMembers (members : List (String × String)) : List (String × String) :=
  members.insertionSort fun a b => a.1 ≤ b.1

mutual
/-- Object keys are sorted at every depth. -/
def canonicalize : Value → String
  | .object members =>
      "\x7b" ++ String.intercalate ","
        ((sortMembers (canonicalMembers members)).map fun p => Value.quote p.1 ++ ":" ++ p.2) ++
          "\x7d"
  | .array items => "[" ++ String.intercalate "," (canonicalItems items) ++ "]"
  | other => other.toString

def canonicalItems : List Value → List String
  | [] => []
  | item :: items => canonicalize item :: canonicalItems items

def canonicalMembers : List (String × Value) → List (String × String)
  | [] => []
  | (key, value) :: members => (key, canonicalize value) :: canonicalMembers members
end

/-! ## The store -/

/-- A trusted or pending schema. -/
structure BaselineEntry where
  hash : String
  description : String
  firstSeenMs : ℕ
  tool : Value
deriving Repr, DecidableEq

abbrev Entries := Finmap fun _ : String => BaselineEntry

inductive FirstContact
  | trust
  | approve
deriving Repr, DecidableEq

inductive Verdict
  | registered
  | matching
  | mismatch (baseline : BaselineEntry)
deriving Repr, DecidableEq

structure BaselineFile where
  tools : Entries
  pending : Entries
  revoked : Finset String
deriving DecidableEq

/-- The text of the file: the JSON of a record, whose maps are written in an
arbitrary order, or a text that is not the JSON of any. -/
inductive Contents
  | json (file : BaselineFile) (order : ℕ)
  | other (text : String)
deriving DecidableEq

/-- The length and the SHA-256 digest of a text, and how `serde_json` reads a
float it has printed: it may be one off, and is then printed otherwise. -/
structure Format (δ : Type) where
  bytes : Contents → ℕ
  digest : Contents → δ
  reread : String → String

inductive LoadError
  | tooLarge
  | notJson
  | tooManyTools
  | tooManyPending
  | tooManyRevoked
  | entry
deriving Repr, DecidableEq

/-- The maps of the store and what it remembers of its file. -/
structure BaselineStore (δ : Type) where
  tools : Entries := ∅
  pending : Entries := ∅
  revoked : Finset String := ∅
  dirty : Bool := false
  unpersisted : Finset String := ∅
  diskDigest : Option δ := none
  reloadFailure : Option LoadError := none
  reloadFailureReported : Bool := false
  persistFailure : Option String := none
  persistFailureReported : Bool := false

section
variable {δ : Type} [DecidableEq δ] (fmt : Format δ) (hmac : String → Except String String)

def fingerprintTool (tool : Value) : Except String String := hmac (canonicalize tool)

namespace BaselineStore

/-- A name counts as trusted once its registration is on disk. -/
def contains (store : BaselineStore δ) (toolName : String) : Bool :=
  toolName ∈ store.tools && toolName ∉ store.unpersisted

omit [DecidableEq δ] in
theorem contains_iff {store : BaselineStore δ} {toolName : String} :
    store.contains toolName ↔ toolName ∈ store.tools ∧ toolName ∉ store.unpersisted := by
  unfold contains
  rw [Bool.and_eq_true, decide_eq_true_iff, decide_eq_true_iff]

def isRevoked (store : BaselineStore δ) (toolName : String) : Bool := toolName ∈ store.revoked

def file (store : BaselineStore δ) : BaselineFile := ⟨store.tools, store.pending, store.revoked⟩

end BaselineStore

/-! ## Reading -/

def descriptionOf (tool : Value) : String := ((tool.get "description").bind Value.asStr).getD ""

/-- What `load` asks of an entry. -/
def entryIsAuthentic (name : String) (entry : BaselineEntry) : Bool :=
  !name.isEmpty && Text.len name ≤ maxToolNameBytes &&
    entry.tool != .null &&
    (entry.tool.get "name").bind Value.asStr == some name &&
    descriptionOf entry.tool == entry.description &&
    match fingerprintTool hmac entry.tool with
    | .ok hash => hash == entry.hash
    | .error _ => false

/-- The entry as it is read back from the file. -/
def BaselineEntry.asRead (entry : BaselineEntry) : BaselineEntry :=
  { entry with tool := entry.tool.asRead fmt.reread }

/-- The checks are on the entries as they are read. A float read as another one
changes the canonical text, and the hash is that of the text before, so the entry
is refused unless the HMAC collides (`SoundEntry.asRead_eq`). -/
def Entries.areAuthentic (entries : Entries) : Bool :=
  decide (∀ name ∈ entries.keys, (entries.lookup name).all fun entry =>
    entryIsAuthentic hmac name (entry.asRead fmt) && entry.asRead fmt == entry)

/-- A missing file is an empty store. -/
def load (disk : Option Contents) : Except LoadError (BaselineStore δ) :=
  match disk with
  | none => .ok {}
  | some contents =>
      if maxBaselineBytes < fmt.bytes contents then .error .tooLarge
      else
        match contents with
        | .other _ => .error .notJson
        | .json file _ =>
            if maxBaselineTools < file.tools.keys.card then .error .tooManyTools
            else if maxBaselineTools < file.pending.keys.card then .error .tooManyPending
            else if maxBaselineTools < file.revoked.card then .error .tooManyRevoked
            else if !file.tools.areAuthentic fmt hmac || !file.pending.areAuthentic fmt hmac then
              .error .entry
            else
              .ok
                { tools := file.tools
                  pending := file.pending
                  revoked := file.revoked
                  diskDigest := some (fmt.digest contents) }

namespace BaselineStore

/-- The state on disk wins, except that no revocation is lost: what memory
registered, parked or revoked since is added to it. -/
def merge (store reloaded : BaselineStore δ) : BaselineStore δ :=
  let tools := reloaded.tools ∪ store.tools
  { store with
    tools
    pending := reloaded.pending ∪ (store.pending \ tools)
    revoked := reloaded.revoked ∪ store.revoked
    unpersisted := store.unpersisted.filter (· ∉ reloaded.tools)
    diskDigest := reloaded.diskDigest
    reloadFailure := none
    reloadFailureReported := false }

def replace (store reloaded : BaselineStore δ) : BaselineStore δ :=
  { store with
    tools := reloaded.tools
    pending := reloaded.pending
    revoked := reloaded.revoked
    unpersisted := ∅
    diskDigest := reloaded.diskDigest
    reloadFailure := none
    reloadFailureReported := false }

def reloadIfChanged (store : BaselineStore δ) (disk : Option Contents) :
    BaselineStore δ × Except LoadError Bool :=
  match disk with
  | none =>
      if store.diskDigest.isSome then
        ({ store with
            tools := ∅
            pending := ∅
            revoked := ∅
            unpersisted := ∅
            diskDigest := none
            dirty := false }, .ok true)
      else (store, .ok false)
  | some contents =>
      if store.diskDigest = some (fmt.digest contents) then (store, .ok false)
      else
        match load fmt hmac disk with
        | .error error =>
            if store.reloadFailure = some error then (store, .error error)
            else
              ({ store with reloadFailure := some error, reloadFailureReported := false },
                .error error)
        | .ok reloaded => (if store.dirty then store.merge reloaded else store.replace reloaded, .ok true)

/-- A failure is handed out once. -/
def takeReloadFailure (store : BaselineStore δ) : BaselineStore δ × Option LoadError :=
  if store.reloadFailureReported then (store, none)
  else
    match store.reloadFailure with
    | none => (store, none)
    | some error => ({ store with reloadFailureReported := true }, some error)

/-! ## Changing -/

def register (store : BaselineStore δ) (toolName hash description : String) (now : ℕ)
    (tool : Value) : BaselineStore δ :=
  { store with
    tools := store.tools.insert toolName ⟨hash, description, now, tool⟩
    unpersisted := insert toolName store.unpersisted
    dirty := true }

/-- The first sighting of a pending name is kept. -/
def registerPending (store : BaselineStore δ) (toolName hash description : String) (now : ℕ)
    (tool : Value) : BaselineStore δ × Bool :=
  if toolName ∈ store.pending then (store, false)
  else
    ({ store with
        pending := store.pending.insert toolName ⟨hash, description, now, tool⟩
        dirty := true }, true)

def check (store : BaselineStore δ) (toolName hash description : String) (now : ℕ)
    (tool : Value) : BaselineStore δ × Verdict :=
  match store.tools.lookup toolName with
  | none => (store.register toolName hash description now tool, .registered)
  | some entry => (store, if entry.hash = hash then .matching else .mismatch entry)

def approve (store : BaselineStore δ) (toolName : String) : BaselineStore δ × Bool :=
  match store.pending.lookup toolName with
  | none => (store, false)
  | some entry =>
      ({ store with
          pending := store.pending.erase toolName
          tools := store.tools.insert toolName entry
          revoked := store.revoked.erase toolName
          dirty := true }, true)

/-- The trusted schema becomes pending, unless another one is. -/
def revoke (store : BaselineStore δ) (name : String) : BaselineStore δ × Bool :=
  match store.tools.lookup name with
  | none => (store, false)
  | some entry =>
      ({ store with
          tools := store.tools.erase name
          pending := if name ∈ store.pending then store.pending else store.pending.insert name entry
          revoked := insert name store.revoked
          unpersisted := store.unpersisted.erase name
          dirty := true }, true)

/-! ## Writing -/

/-- `outcome` is the failure of the file system, or the order the maps are written in. -/
def writeStore (store : BaselineStore δ) (outcome : Except String ℕ) (disk : Option Contents) :
    BaselineStore δ × Option Contents × Except String Unit :=
  match outcome with
  | .error error => (store, disk, .error error)
  | .ok order =>
      let contents := Contents.json store.file order
      ({ store with
          diskDigest := some (fmt.digest contents)
          dirty := false
          unpersisted := ∅ }, some contents, .ok ())

def save (store : BaselineStore δ) (outcome : Except String ℕ) (disk : Option Contents) :
    BaselineStore δ × Option Contents × Except String Unit :=
  match store.writeStore fmt outcome disk with
  | (written, disk, .ok ()) =>
      ({ written with persistFailure := none, persistFailureReported := false }, disk, .ok ())
  | (written, disk, .error error) =>
      if written.persistFailure = some error then (written, disk, .error error)
      else
        ({ written with persistFailure := some error, persistFailureReported := false }, disk,
          .error error)

def saveIfDirty (store : BaselineStore δ) (outcome : Except String ℕ) (disk : Option Contents) :
    BaselineStore δ × Option Contents × Except String Bool :=
  if store.dirty then
    let r := store.save fmt outcome disk
    (r.1, r.2.1, r.2.2.map fun _ => true)
  else (store, disk, .ok false)

def takePersistFailure (store : BaselineStore δ) : BaselineStore δ × Option String :=
  if store.persistFailureReported then (store, none)
  else
    match store.persistFailure with
    | none => (store, none)
    | some error => ({ store with persistFailureReported := true }, some error)

end BaselineStore

end

end BlackMonolith.Baseline
