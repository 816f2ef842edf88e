import BlackMonolith.Library.Fallible
import BlackMonolith.Library.PyJsonRead
import BlackMonolith.Library.PyJsonBytes
import Mathlib.Data.Rat.Floor

/-!
# The divergence baseline and its file

The baseline is a table of token counts. The service loads it from a file when it
starts; a reload request may post another one, which is validated and written, and has
the file loaded again. A number is an integer or a float, of which the exact value is
known; arithmetic on floats and the printable characters are parameters.
-/
namespace BlackMonolith.TraceAudit
open Library PyJsonText

namespace Baseline

def maxTokenBytes : ℕ := 512
def maxTokenCount : ℤ := 2147483647
def maxTotal : ℤ := 100000000000000
def maxModelBytes : ℕ := 128
def maxVocabulary : ℕ := 100000
def maxFileBytes : ℕ := 16 * 1024 * 1024

/-- What the Python runtime supplies. -/
structure Runtime where
  /-- `repr(float(text))`. -/
  floatRepr : Points → String
  /-- The value of a float that is finite. -/
  value : String → Option ℚ
  /-- `int(round(x * 1000))`. -/
  thousandfold : ℚ → ℤ
  /-- `abs(a / b - c / d) <= 1e-6`. -/
  near : ℤ → ℤ → ℤ → ℤ → Bool
  isPrintable : CodePoint → Bool
  /-- Whether a text is refused with a `JSONDecodeError`. -/
  isDecodeError : Points → Bool

/-- The text of a finite float is a numeral of the same float. -/
def Runtime.ReadsBack (runtime : Runtime) : Prop :=
  ∀ t x, runtime.value (runtime.floatRepr t) = some x →
    readNumber runtime.floatRepr (chars (runtime.floatRepr t)) =
      some (.float (runtime.floatRepr t), [])

inductive Failure
  | emptyMapping
  | badToken
  | surrogates
  | badNumber
  | overflow
  | repeatedToken
  | tooManyTokens
  | totalTooLarge
  | modelNotString
  | badModel
  | fileTooLarge
  | notUtf8
  | notJson
  | noCounts
  | badCount
  | bodyNotJson
  | bodyNotObject
  | adminUnavailable
  | adminRefused
deriving Repr, DecidableEq

/-- The message, except for what the codecs and `json` raise themselves. -/
def Failure.message : Failure → Option String
  | emptyMapping => some "baseline distribution must be a non-empty object"
  | badToken => some "baseline tokens must be between 1 and 512 UTF-8 bytes"
  | badNumber => some "baseline counts must be positive numbers no greater than 2147483647"
  | repeatedToken => some "baseline tokens must be unique after trimming"
  | tooManyTokens => some "baseline vocabulary exceeds 100000 tokens"
  | totalTooLarge => some "baseline total count exceeds the supported limit"
  | modelNotString => some "baseline model must be a string"
  | badModel => some "baseline model must be printable and at most 128 bytes"
  | fileTooLarge => some "baseline distribution exceeds 16 MiB"
  | noCounts => some "baseline distribution must contain a counts object"
  | badCount => some "baseline counts must be positive integers no greater than 2147483647"
  | bodyNotJson => some "invalid JSON body"
  | bodyNotObject => some "request body must be a JSON object"
  | adminUnavailable => some "administrative authentication is unavailable"
  | adminRefused => some "invalid administrative credential"
  | surrogates | overflow | notUtf8 | notJson => none

abbrev Counts := List (PyString × ℤ)

def Counts.total (counts : Counts) : ℤ := (counts.map Prod.snd).sum

inductive Number
  | int (n : ℤ)
  | float (x : ℚ)
deriving Repr, DecidableEq

/-! ## Validation -/

def acceptedToken (raw : PyString) : Except Failure PyString :=
  let token := raw.strip
  if token.points.isEmpty then .error .badToken
  else
    match token.encodedLength with
    | .error _ => .error .surrogates
    | .ok n => if maxTokenBytes < n then .error .badToken else .ok token

/-- `float(n)` is beyond the largest float. -/
def overflows (n : ℤ) : Bool := 2 ^ 1024 - 2 ^ 970 ≤ n.natAbs

def acceptedNumber (runtime : Runtime) : PyJson → Except Failure Number
  | .int n =>
      if overflows n then .error .overflow
      else if 0 < n ∧ n ≤ maxTokenCount then .ok (.int n)
      else .error .badNumber
  | .float r =>
      match runtime.value r with
      | some x => if 0 < x ∧ x ≤ maxTokenCount then .ok (.float x) else .error .badNumber
      | none => .error .badNumber
  | _ => .error .badNumber

def acceptedCount : PyJson → Except Failure ℤ
  | .int n => if 0 < n ∧ n ≤ maxTokenCount then .ok n else .error .badCount
  | _ => .error .badCount

/-- The members of a mapping after those that were seen. -/
def readTokens {β : Type} (accepted : PyJson → Except Failure β) :
    List (PyString × β) → List (PyString × PyJson) → Except Failure (List (PyString × β))
  | seen, [] => .ok seen
  | seen, (raw, v) :: rest =>
      match acceptedToken raw with
      | .error e => .error e
      | .ok token =>
          match accepted v with
          | .error e => .error e
          | .ok value =>
              if token ∈ seen.map Prod.fst then .error .repeatedToken
              else readTokens accepted (seen ++ [(token, value)]) rest

/-- A float that is no integer, or is less than one. -/
def Number.isWeight : Number → Bool
  | int _ => false
  | float x => x.den ≠ 1 ∨ x < 1

/-- `int(val)`. -/
def Number.toInt : Number → ℤ
  | int n => n
  | float x => ⌊x⌋

def Number.scaled (runtime : Runtime) (v : Number) : ℤ :=
  let x : ℚ := match v with
    | int n => n
    | float x => x
  max 1 (min maxTokenCount (runtime.thousandfold x))

def checkCounts (counts : Counts) : Except Failure Counts :=
  if maxVocabulary < counts.length then .error .tooManyTokens
  else if maxTotal < counts.total then .error .totalTooLarge
  else .ok counts

/-- `_validate_distribution_mapping` with `allow_floats`. -/
def validateDistributionMapping (runtime : Runtime) : PyJson → Except Failure Counts
  | .dict (member :: members) =>
      match readTokens (acceptedNumber runtime) [] (member :: members) with
      | .error e => .error e
      | .ok validated =>
          let toCount : Number → ℤ :=
            if validated.any fun e => e.2.isWeight then Number.scaled runtime else Number.toInt
          checkCounts (validated.map fun e => (e.1, toCount e.2))
  | _ => .error .emptyMapping

/-- `_validate_baseline_model`. -/
def validateBaselineModel (runtime : Runtime) : PyJson → Except Failure (Option PyString)
  | .none => .ok none
  | .str value =>
      let trimmed := value.strip
      if trimmed.points.isEmpty then .ok none
      else
        match trimmed.encodedLength with
        | .error _ => .error .surrogates
        | .ok n =>
            if maxModelBytes < n ∨ trimmed.points.all runtime.isPrintable = false then
              .error .badModel
            else .ok (some trimmed)
  | _ => .error .modelNotString

/-- `_same_distribution`. -/
def sameDistribution (runtime : Runtime) (left right : Counts) : Bool :=
  left.all (fun e => e.1 ∈ right.map Prod.fst) && right.all (fun e => e.1 ∈ left.map Prod.fst) &&
    0 < left.total && 0 < right.total &&
    left.all fun e =>
      runtime.near e.2 left.total ((InsertionMap.lookupIn e.1 right).getD 0) right.total

/-! ## The file -/

def loadCounts (runtime : Runtime) (data : List (PyString × PyJson)) : Except Failure Counts :=
  match PyJson.get data "counts" with
  | some (.dict members) =>
      match readTokens acceptedCount [] members with
      | .error e => .error e
      | .ok counts => checkCounts counts
  | some _ => .error .noCounts
  | none =>
      match PyJson.get data "distribution" with
      | some (.dict members) => validateDistributionMapping runtime (.dict members)
      | _ => .error .noCounts

/-- `_load_baseline`, of the bytes of the file if there is one. -/
def loadBaseline (runtime : Runtime) : Option Bytes → Except Failure Counts
  | none => .ok []
  | some bytes =>
      if maxFileBytes < bytes.length then .error .fileTooLarge
      else
        match decodeStrict bytes with
        | none => .error .notUtf8
        | some text =>
            match loads runtime.floatRepr text with
            | none => .error .notJson
            | some (.dict data) => loadCounts runtime data
            | some _ => .error .noCounts

/-- The model that the members of the file name. -/
def recordedModel (data : List (PyString × PyJson)) : Option PyString :=
  match PyJson.get data "model" with
  | some (.str model) => if model.strip.points.isEmpty then none else some model.strip
  | _ => none

/-- `_load_baseline_model`. -/
def loadBaselineModel (runtime : Runtime) : Option Bytes → Except Failure (Option PyString)
  | none => .ok none
  | some bytes =>
      match decodeStrict bytes with
      | none => .error .notUtf8
      | some text =>
          match loads runtime.floatRepr text with
          | none => if runtime.isDecodeError text then .ok none else .error .notJson
          | some (.dict data) => .ok (recordedModel data)
          | some _ => .ok none

def payload (counts : Counts) (distribution : Option PyJson) (model : Option PyString) : PyJson :=
  .dict ([(PyString.ofString "counts", .dict (counts.map fun e => (e.1, .int e.2))),
      (PyString.ofString "total", .int counts.total),
      (PyString.ofString "vocab", .int counts.length)] ++
    (distribution.map fun d => (PyString.ofString "distribution", d)).toList ++
    (model.map fun m => (PyString.ofString "model", .str m)).toList)

/-- What `_write_baseline_atomic` writes. -/
def writeBaseline (counts : Counts) (distribution : Option PyJson) (model : Option PyString) :
    Option Bytes :=
  (dumps (indented 2) (payload counts distribution model)).map Bytes.ofAscii

/-! ## The service -/

/-- The file, and the baseline in memory with the model it was captured from. -/
structure Service where
  file : Option Bytes
  counts : Counts
  model : Option PyString
deriving Repr, DecidableEq

/-- `lifespan`. -/
def start (runtime : Runtime) (file : Option Bytes) : Except Failure Service :=
  match loadBaseline runtime file with
  | .error e => .error e
  | .ok counts =>
      match loadBaselineModel runtime file with
      | .error e => .error e
      | .ok model => .ok ⟨file, counts, model⟩

structure ReloadRequest where
  authorization : PyString
  body : Bytes
deriving Repr, DecidableEq

structure Rejection where
  status : ℕ
  failure : Failure
deriving Repr, DecidableEq

structure ReloadReply where
  vocabSize : ℕ
  baselineModel : Option PyString
deriving Repr, DecidableEq

/-- A `ValueError` is answered; any other exception is not. -/
def Failure.rejection (e : Failure) : Rejection := ⟨if e = .overflow then 500 else 400, e⟩

/-- `_require_admin_token`. -/
def requireAdmin (expected : Option PyString) (authorization : PyString) : Option Rejection :=
  match expected with
  | none => some ⟨503, .adminUnavailable⟩
  | some token =>
      if token.points.length < 16 then some ⟨503, .adminUnavailable⟩
      else
        let bearer := (PyString.ofString "Bearer ").points
        let supplied := authorization.points.drop bearer.length
        if bearer.isPrefixOf authorization.points ∧ supplied = token.points then none
        else some ⟨401, .adminRefused⟩

def given : PyJson → Option PyJson
  | .none => none
  | v => some v

/-- The mapping that is posted, and whether it is posted as a distribution. -/
def postedMapping (body : List (PyString × PyJson)) : Option PyJson × Bool :=
  match PyJson.get body "distribution" with
  | some v => (given v, true)
  | none => ((PyJson.get body "counts").bind given, false)

/-- The model of a posted mapping: the one that is named, or the recorded one where the
mapping is the recorded one too. -/
def attributedModel (runtime : Runtime) (file : Option Bytes) (named : Option PyString)
    (counts : Counts) : Except Rejection (Option PyString) :=
  match named with
  | some model => .ok (some model)
  | none =>
      match loadBaselineModel runtime file with
      | .error e => .error ⟨500, e⟩
      | .ok none => .ok none
      | .ok (some recorded) =>
          match loadBaseline runtime file with
          | .ok old => .ok (if sameDistribution runtime old counts then some recorded else none)
          | .error .overflow => .error ⟨500, .overflow⟩
          | .error _ => .ok none

/-- The file that a mapping replaces the present one by. -/
def replaceBaseline (runtime : Runtime) (file : Option Bytes) (body : List (PyString × PyJson)) :
    Except Rejection (Option Bytes) :=
  match validateBaselineModel runtime ((PyJson.get body "model").getD .none) with
  | .error e => .error e.rejection
  | .ok named =>
      match postedMapping body with
      | (none, _) => .ok file
      | (some mapping, isDistribution) =>
          match validateDistributionMapping runtime mapping with
          | .error e => .error e.rejection
          | .ok counts =>
              match attributedModel runtime file named counts with
              | .error rejection => .error rejection
              | .ok model =>
                  match writeBaseline counts (if isDistribution then some mapping else none) model with
                  | none => .error ⟨500, .notJson⟩
                  | some bytes => .ok (some bytes)

/-- The object in the body of a request; none is needed. -/
def readBody (runtime : Runtime) (raw : Bytes) :
    Except Rejection (Option (List (PyString × PyJson))) :=
  if raw.strip.isEmpty then .ok none
  else
    match (detectEncoding raw).decode raw with
    | none => .error ⟨500, .notUtf8⟩
    | some text =>
        match loads runtime.floatRepr text with
        | none => .error ⟨if runtime.isDecodeError text then 400 else 500, .bodyNotJson⟩
        | some (.dict body) => .ok (some body)
        | some _ => .error ⟨400, .bodyNotObject⟩

/-- The file after the request's body was dealt with. -/
def nextFile (runtime : Runtime) (file : Option Bytes) (raw : Bytes) :
    Except Rejection (Option Bytes) :=
  match readBody runtime raw with
  | .error rejection => .error rejection
  | .ok none => .ok file
  | .ok (some body) => replaceBaseline runtime file body

/-- The file is loaded into memory. -/
def reloadFile (runtime : Runtime) (s : Service) : Service × Except Rejection ReloadReply :=
  match loadBaseline runtime s.file with
  | .error e => (s, .error e.rejection)
  | .ok counts =>
      match loadBaselineModel runtime s.file with
      | .error e => ({ s with counts := counts }, .error ⟨500, e⟩)
      | .ok model => (⟨s.file, counts, model⟩, .ok ⟨counts.length, model⟩)

/-- `reload_baseline`. -/
def reload (runtime : Runtime) (adminToken : Option PyString) (s : Service) (r : ReloadRequest) :
    Service × Except Rejection ReloadReply :=
  match requireAdmin adminToken r.authorization with
  | some rejection => (s, .error rejection)
  | none =>
      match nextFile runtime s.file r.body with
      | .error rejection => (s, .error rejection)
      | .ok file => reloadFile runtime { s with file := file }

end Baseline

end BlackMonolith.TraceAudit
