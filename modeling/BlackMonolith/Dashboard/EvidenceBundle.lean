import BlackMonolith.Library.JsonOrder

/-!
# Evidence bundles

A bundle is an incident with its audit trail and its session, and an integrity block
over the canonical text of the rest: members sorted by name, `undefined` left out. The
signature of a bundle that is verified may be any JSON value; it is compared by its
`length` and then by the bytes `Buffer.from` makes of it.
-/
namespace BlackMonolith.Dashboard
namespace Evidence

open Library Library.JsonData

/-- What the platform computes: numbers, their conversions, and hashes in hexadecimal.
`numberByte` is `ToUint8`; `textByte` is the same of the number a text stands for. -/
structure Platform (ν : Type) extends Numerals ν where
  /-- The text of the value does not overflow the call stack or the length of a string. -/
  fits : JsonValue ν → Bool
  numberByte : ν → UInt8
  textByte : JsString → UInt8
  sha256 : List UInt8 → JsString
  hmacSha256 : List UInt8 → List UInt8 → JsString
  hmac_length : ∀ key text, (hmacSha256 key text).length = 64
  hmac_ascii : ∀ key text, ∀ u ∈ (hmacSha256 key text).units, u < 0x80

inductive JsError
  | typeError
  | rangeError
deriving Repr, DecidableEq

abbrev Members (ν : Type) := List (JsString × JsonValue ν)

def property {ν : Type} (members : Members ν) (name : String) : Option (JsonValue ν) :=
  InsertionMap.lookupIn (JsString.ofString name) members

/-! ## The canonical text -/

section
variable {ν : Type} (numerals : Numerals ν)

mutual
def canonicalizeJson : JsData ν → CodeUnits
  | .null => stringify numerals .null
  | .bool b => stringify numerals (.bool b)
  | .number n => stringify numerals (.number n)
  | .string s => stringify numerals (.string s)
  | .array items => 0x5B :: (joined (canonicalItems items) ++ [0x5D])
  | .object members =>
      0x7B :: (joined (((canonicalMembers members).mergeSort keyLe).map fun entry =>
        quoted entry.1 ++ 0x3A :: entry.2) ++ [0x7D])

def canonicalItems : List (JsData ν) → List CodeUnits
  | [] => []
  | item :: items => canonicalizeJson item :: canonicalItems items

def canonicalMembers : List (JsString × Option (JsData ν)) → List (JsString × CodeUnits)
  | [] => []
  | (_, none) :: members => canonicalMembers members
  | (key, some v) :: members => (key, canonicalizeJson v) :: canonicalMembers members
end

theorem itemTexts_sortItems (items : List (JsonValue ν)) :
    itemTexts numerals (sortItems items) = items.map fun v => textOf numerals (sortKeys v) := by
  induction items with
  | nil => rfl
  | cons item items ih =>
      rw [sortItems, itemTexts, ih]
      rfl

theorem memberTexts_eq_map (members : Members ν) :
    memberTexts numerals members =
      members.map fun member => quoted member.1 ++ 0x3A :: textOf numerals member.2 := by
  induction members with
  | nil => rfl
  | cons member members ih =>
      rw [memberTexts, ih]
      rfl

mutual
/-- The canonical text is the text of what a text can carry, its members sorted. -/
theorem canonicalizeJson_eq : (v : JsData ν) →
    canonicalizeJson numerals v = textOf numerals (sortKeys (plain numerals v))
  | .null | .bool _ | .string _ => rfl
  | .number n => by
      rw [canonicalizeJson, stringify, plain]
      split_ifs <;> rfl
  | .array items => by
      show 0x5B :: (joined (canonicalItems numerals items) ++ [0x5D]) =
        0x5B :: (joined (itemTexts numerals (sortItems (plainItems numerals items))) ++ [0x5D])
      rw [canonicalItems_eq items, itemTexts_sortItems]
  | .object members => by
      show 0x7B :: (joined (((canonicalMembers numerals members).mergeSort keyLe).map fun entry =>
          quoted entry.1 ++ 0x3A :: entry.2) ++ [0x7D]) =
        0x7B :: (joined (memberTexts numerals
          ((sortMembers (plainMembers numerals members)).mergeSort keyLe)) ++ [0x7D])
      rw [canonicalMembers_eq members, memberTexts_eq_map, ← List.map_mergeSort (r := keyLe),
        List.map_map]
      · rfl
      · intro a _ b _
        rfl

theorem canonicalItems_eq : (items : List (JsData ν)) → canonicalItems numerals items =
    (plainItems numerals items).map fun v => textOf numerals (sortKeys v)
  | [] => rfl
  | item :: items => congrArg₂ List.cons (canonicalizeJson_eq item) (canonicalItems_eq items)

theorem canonicalMembers_eq : (members : List (JsString × Option (JsData ν))) →
    canonicalMembers numerals members =
      (sortMembers (plainMembers numerals members)).map fun member =>
        (member.1, textOf numerals member.2)
  | [] => rfl
  | (_, none) :: members => canonicalMembers_eq members
  | (key, some v) :: members =>
      congrArg₂ List.cons (congrArg (Prod.mk key) (canonicalizeJson_eq v))
        (canonicalMembers_eq members)
end

/-- Neither `undefined` nor an infinite number is in the canonical text. -/
theorem canonicalizeJson_plain (v : JsData ν) :
    canonicalizeJson numerals (toData (plain numerals v)) = canonicalizeJson numerals v := by
  rw [canonicalizeJson_eq, canonicalizeJson_eq, plain_toData _ _ (finite_plain _ _)]

end

/-! ## `Buffer.from` of a JSON value -/

section
variable {ν : Type} [DecidableEq ν] (js : Platform ν)

mutual
/-- `String(v)`, with `none` for a `TypeError`: a member `toString` hides the method. -/
def toText : JsonValue ν → Option CodeUnits
  | .null => some (ascii "null")
  | .bool b => some (ascii (if b then "true" else "false"))
  | .number n => some (js.text n)
  | .string s => some s.units
  | .array items => (joinTexts items).map joined
  | .object members =>
      if (property members "toString").isSome then none else some (ascii "[object Object]")

/-- The items `Array.prototype.join` puts together. -/
def joinTexts : List (JsonValue ν) → Option (List CodeUnits)
  | [] => some []
  | .null :: items => (joinTexts items).map ([] :: ·)
  | item :: items => (toText item).bind fun text => (joinTexts items).map (text :: ·)
end

/-- `ToPrimitive(v)`. -/
def toPrimitive (v : JsonValue ν) : Except JsError JsString :=
  if js.fits v then (toText js v).elim (.error .typeError) fun text => .ok ⟨text⟩
  else .error .rangeError

/-- `ToUint8(ToNumber(v))`. -/
def toUint8 : JsonValue ν → Except JsError UInt8
  | .null => .ok 0
  | .bool b => .ok (if b then 1 else 0)
  | .number n => .ok (js.numberByte n)
  | .string s => .ok (js.textByte s)
  | .array items => (toPrimitive js (.array items)).map js.textByte
  | .object members => (toPrimitive js (.object members)).map js.textByte

/-- The bytes of an array-like value; what is missing counts as 0. -/
def elementBytes (elements : List (Option (JsonValue ν))) : Except JsError (List UInt8) :=
  elements.mapM fun element => (element.map (toUint8 js)).getD (.ok 0)

def truthy : JsonValue ν → Bool
  | .null => false
  | .bool b => b
  | .number n => decide (n ≠ js.ofNat 0)
  | .string s => decide (s.units ≠ [])
  | .array _ | .object _ => true

/-- The elements of an object of the given length. -/
def elements (length : ℕ) (members : Members ν) : List (Option (JsonValue ν)) :=
  (List.range length).map fun i => property members (toString i)

/-- `Buffer.from(v, "utf8")` of a value of the given length. A member `valueOf` is no
function, and an empty string in its place is taken for the value. -/
def bufferFrom (length : ℕ) : JsonValue ν → Except JsError (List UInt8)
  | .string s => .ok (JsString.utf8 s.units)
  | .array items => elementBytes js (items.map some)
  | .object members =>
      match property members "valueOf" with
      | none => elementBytes js (elements length members)
      | some value =>
          if truthy js value then .error .typeError
          else
            match value with
            | .string _ => .ok []
            | _ => elementBytes js (elements length members)
  | .null | .bool _ | .number _ => .error .typeError

/-- `v.length === length`. -/
def hasLength (length : ℕ) : JsonValue ν → Bool
  | .string s => s.length == length
  | .array items => items.length == length
  | .object members =>
      match property members "length" with
      | some (.number n) => decide (n = js.ofNat length)
      | _ => false
  | .null | .bool _ | .number _ => false

def timingSafeEqual (a b : List UInt8) : Except JsError Bool :=
  if a.length = b.length then .ok (a == b) else .error .rangeError

/-! ## Signing and verifying -/

/-- `MONOLITH_EVIDENCE_SIGNING_SECRET`, trimmed. -/
def signingSecret (env : Option JsString) : JsString := (env.map JsString.trim).getD ⟨[]⟩

def usable (secret : JsString) : Bool :=
  32 ≤ secret.length && !secret.units.any fun u => u == 13 || u == 10 || u == 0

structure EvidenceIntegrity where
  algorithm : String
  canonicalSha256 : JsString
  signature : Option JsString

def canonicalBytes (numerals : Numerals ν) (body : JsData ν) : List UInt8 :=
  JsString.utf8 (canonicalizeJson numerals body)

def canonical (body : JsData ν) : Except JsError (List UInt8) :=
  if js.fits (plain js.toNumerals body) then .ok (canonicalBytes js.toNumerals body)
  else .error .rangeError

def sign (env : Option JsString) (text : List UInt8) : JsString :=
  js.hmacSha256 (JsString.utf8 (signingSecret env).units) text

def computeEvidenceIntegrity (body : JsData ν) (env : Option JsString) :
    Except JsError EvidenceIntegrity :=
  (canonical js body).map fun canonical =>
    if usable (signingSecret env) then
      { algorithm := "HMAC-SHA256"
        canonicalSha256 := js.sha256 canonical
        signature := some (sign js env canonical) }
    else
      { algorithm := "SHA-256"
        canonicalSha256 := js.sha256 canonical
        signature := none }

structure EvidenceVerification where
  intact : Bool
  authenticated : Bool
  reason : String
deriving Repr, DecidableEq

def isString (s : JsString) : Option (JsonValue ν) → Bool
  | some (.string s') => s == s'
  | _ => false

def matchesSignature (expected : JsString) (signature : JsonValue ν) : Except JsError Bool :=
  if hasLength js expected.length signature then
    (bufferFrom js expected.length signature).bind (timingSafeEqual (JsString.utf8 expected.units))
  else .ok false

/-- The members other than the integrity block. -/
def bodyOf (bundle : Members ν) : Members ν :=
  bundle.filter (·.1 ≠ JsString.ofString "integrity")

def verifyText (canonical : List UInt8) (integrity : Members ν) (env : Option JsString) :
    Except JsError EvidenceVerification :=
  if isString (js.sha256 canonical) (property integrity "canonical_sha256") = false then
    .ok ⟨false, false, "the bundle contents do not match the recorded digest"⟩
  else
    match property integrity "signature" with
    | none =>
        .ok ⟨true, false, "the bundle was exported without a signing key, so it is not authenticated"⟩
    | some signature =>
        if truthy js signature = false then
          .ok ⟨true, false,
            "the bundle was exported without a signing key, so it is not authenticated"⟩
        else if usable (signingSecret env) = false then
          .ok ⟨true, false,
            "no usable evidence signing key is configured, so the signature cannot be checked"⟩
        else
          (matchesSignature js (sign js env canonical) signature).map fun same =>
            if same then ⟨true, true, "the bundle is intact and its signature verifies"⟩
            else ⟨true, false, "the signature does not match the bundle contents"⟩

def verifyBlock (body integrity : Members ν) (env : Option JsString) :
    Except JsError EvidenceVerification :=
  (canonical js (toData (.object body))).bind fun canonical =>
    verifyText js canonical integrity env

def verifyEvidenceIntegrity (bundle : Members ν) (env : Option JsString) :
    Except JsError EvidenceVerification :=
  match property bundle "integrity" with
  | some (.object integrity) => verifyBlock js (bodyOf bundle) integrity env
  | some (.array _) => verifyBlock js (bodyOf bundle) [] env
  | _ => .ok ⟨false, false, "the bundle carries no integrity block"⟩

/-! ## Exporting -/

def text (s : String) : JsString := JsString.ofString s

/-- What an export is made of, apart from the ledger. -/
structure Export where
  exportedAt : JsString
  actor : JsString
  tenantId : JsString

def basePayload (request : Export) (incident : JsData ν) (audit : List (JsData ν))
    (session : Option (JsData ν)) : List (JsString × Option (JsData ν)) :=
  [(text "format", some (.string (text "project-black-monolith/evidence-bundle@1"))),
    (text "exported_at", some (.string request.exportedAt)),
    (text "exported_by", some (.string request.actor)),
    (text "tenant_id", some (.string request.tenantId)),
    (text "incident", some incident),
    (text "audit", some (.array audit)),
    (text "session", some (session.getD .null))]

def EvidenceIntegrity.toData (integrity : EvidenceIntegrity) : JsData ν :=
  .object [(text "algorithm", some (.string (text integrity.algorithm))),
    (text "canonical_sha256", some (.string integrity.canonicalSha256)),
    (text "signature", some (match integrity.signature with
      | some signature => .string signature
      | none => .null))]

def exportIncidentEvidence (request : Export) (env : Option JsString)
    (incident : Option (JsData ν)) (audit : List (JsData ν)) (session : Option (JsData ν)) :
    Except JsError (Option (JsData ν)) :=
  match incident with
  | none => .ok none
  | some incident =>
      let base := basePayload request incident audit session
      (computeEvidenceIntegrity js (.object base) env).map fun integrity =>
        some (.object (base ++ [(text "integrity", some integrity.toData)]))

end

end Evidence
end BlackMonolith.Dashboard
