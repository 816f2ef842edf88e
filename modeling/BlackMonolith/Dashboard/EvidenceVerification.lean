import Mathlib
import BlackMonolith.Dashboard.EvidenceBundle
import BlackMonolith.Library.PyJsonRoundTrip

/-!
# Verified evidence bundles

What is exported under a usable key is verified once it has been written and read back.
Of the bundles whose body or signature differs from a genuine one, none is authenticated,
save that a signature need not be a string: a list of the 64 character codes has the bytes
of the genuine signature, and a string of 64 units that are not all ASCII has too many
bytes to be compared. And a number that is read as infinite has the canonical text of null.
-/
namespace BlackMonolith.Dashboard
namespace Evidence

open Library Library.JsonData

section
variable {ν : Type} [DecidableEq ν] (js : Platform ν)

/-! ## Signatures of any type -/

/-- A signature that is not compared as a string of 64 ASCII characters would be, but
reaches the comparison of bytes. -/
def Misleading (expected : JsString) (signature : JsonValue ν) : Prop :=
  hasLength js 64 signature = true ∧
    match signature with
    | .string s => ∃ u ∈ s.units, 0x80 ≤ u
    | other => ∀ bytes, bufferFrom js 64 other = .ok bytes → bytes.length = 64 →
        bytes = JsString.utf8 expected.units

section
variable {js} {expected : JsString} {signature : JsonValue ν}

theorem truthy_of_hasLength (h : hasLength js 64 signature = true) :
    truthy js signature = true := by
  cases signature with
  | string s =>
      apply decide_eq_true
      intro hempty
      have hlength : s.units.length = 64 := beq_iff_eq.mp h
      rw [hempty] at hlength
      cases hlength
  | array items => rfl
  | object members => rfl
  | null => cases h
  | bool b => cases h
  | number n => cases h

theorem length_utf8_of_ascii {us : List UInt16} (h : ∀ u ∈ us, u < 0x80) :
    (JsString.utf8 us).length = us.length := by
  rw [JsString.utf8_of_ascii h, List.length_map]

theorem timingSafeEqual_eq_ok {a b : List UInt8} (h : a.length = b.length) :
    timingSafeEqual a b = .ok (a == b) := if_pos h

theorem timingSafeEqual_eq_error {a b : List UInt8} (h : a.length ≠ b.length) :
    timingSafeEqual a b = .error .rangeError := if_neg h

variable (hlength : expected.length = 64)
include hlength

theorem matchesSignature_of_bytes {bytes : List UInt8} (hsame : hasLength js 64 signature = true)
    (hbytes : bufferFrom js 64 signature = .ok bytes) :
    matchesSignature js expected signature =
      timingSafeEqual (JsString.utf8 expected.units) bytes := by
  unfold matchesSignature
  rw [hlength, if_pos hsame, hbytes]
  rfl

variable (hascii : ∀ u ∈ expected.units, u < 0x80)
include hascii

/-- Such a signature makes the comparison fail, or passes for the expected one. -/
theorem matchesSignature_of_misleading (h : Misleading js expected signature) :
    (∃ e, matchesSignature js expected signature = .error e) ∨
      matchesSignature js expected signature = .ok true ∧ signature ≠ .string expected := by
  have hexpected := length_utf8_of_ascii hascii
  obtain ⟨hsame, hkind⟩ := h
  cases hbytes : bufferFrom js 64 signature with
  | error e =>
      left
      refine ⟨e, ?_⟩
      unfold matchesSignature
      rw [hlength, if_pos hsame, hbytes]
      rfl
  | ok bytes =>
      rw [matchesSignature_of_bytes hlength hsame hbytes]
      by_cases hcount : bytes.length = 64
      · cases signature with
        | string s =>
            exfalso
            obtain ⟨u, hu, hlarge⟩ := hkind
            have hsize : s.units.length = 64 := beq_iff_eq.mp hsame
            cases hbytes
            have hsmall := (JsString.ascii_of_length_utf8 s.units).2 (by rw [hcount, hsize]) u hu
            exact absurd hlarge (UInt16.not_le.mpr hsmall)
        | array items =>
            right
            rw [hkind bytes hbytes hcount, timingSafeEqual_eq_ok rfl, beq_self_eq_true]
            exact ⟨rfl, fun heq => nomatch heq⟩
        | object members =>
            right
            rw [hkind bytes hbytes hcount, timingSafeEqual_eq_ok rfl, beq_self_eq_true]
            exact ⟨rfl, fun heq => nomatch heq⟩
        | null => cases hsame
        | bool b => cases hsame
        | number n => cases hsame
      · left
        refine ⟨.rangeError, timingSafeEqual_eq_error ?_⟩
        rw [hexpected]
        intro heq
        exact hcount (heq.symm.trans hlength)

/-- Any other is compared, and only the expected one passes. -/
theorem matchesSignature_of_not_misleading (h : ¬ Misleading js expected signature) :
    ∃ same, matchesSignature js expected signature = .ok same ∧
      (same = true → signature = .string expected) := by
  have hexpected := length_utf8_of_ascii hascii
  cases hsame : hasLength js 64 signature with
  | false =>
      refine ⟨false, ?_, fun heq => nomatch heq⟩
      unfold matchesSignature
      rw [hlength, hsame]
      rfl
  | true =>
      have hother : (∀ s, signature ≠ .string s) →
          (∀ bytes, bufferFrom js 64 signature = .ok bytes → bytes.length = 64 →
            bytes = JsString.utf8 expected.units) → Misleading js expected signature := by
        intro hne hall
        refine ⟨hsame, ?_⟩
        cases signature with
        | string s => exact absurd rfl (hne s)
        | null => exact hall
        | bool b => exact hall
        | number n => exact hall
        | array items => exact hall
        | object members => exact hall
      by_cases hstring : ∃ s, signature = .string s
      · obtain ⟨s, rfl⟩ := hstring
        have hall : ∀ u ∈ s.units, u < 0x80 := by
          intro u hu
          apply UInt16.not_le.mp
          intro hle
          exact h ⟨hsame, u, hu, hle⟩
        have hsize : s.units.length = 64 := beq_iff_eq.mp hsame
        refine ⟨_, (matchesSignature_of_bytes hlength hsame rfl).trans
          (timingSafeEqual_eq_ok ?_), ?_⟩
        · rw [hexpected, length_utf8_of_ascii hall, hsize]
          exact hlength
        · intro heq
          have hunits := JsString.utf8_injOn (JsString.paired_of_ascii hascii)
            (JsString.paired_of_ascii hall) (beq_iff_eq.mp heq)
          exact congrArg JsonValue.string (congrArg JsString.mk hunits).symm
      · rw [not_exists] at hstring
        have hbytes : ∃ bytes, bufferFrom js 64 signature = .ok bytes ∧ bytes.length = 64 ∧
            bytes ≠ JsString.utf8 expected.units := by
          by_contra hnone
          push Not at hnone
          exact h (hother hstring hnone)
        obtain ⟨bytes, hbytes, hcount, hne⟩ := hbytes
        refine ⟨_, (matchesSignature_of_bytes hlength hsame hbytes).trans
          (timingSafeEqual_eq_ok ?_), ?_⟩
        · rw [hexpected, hcount]
          exact hlength
        · intro heq
          exact absurd (beq_iff_eq.mp heq).symm hne

end

/-! ## Which bundles are taken for genuine -/

/-- The signature a bundle carries. -/
def signatureOf (bundle : Members ν) : Option (JsonValue ν) :=
  match property bundle "integrity" with
  | some (.object integrity) => property integrity "signature"
  | _ => none

def bytesOf (body : Members ν) : List UInt8 :=
  canonicalBytes js.toNumerals (toData (.object body))

/-- The integrity block of a body that fits, under a usable key. -/
def signedBlock (env : Option JsString) (text : List UInt8) : EvidenceIntegrity where
  algorithm := "HMAC-SHA256"
  canonicalSha256 := js.sha256 text
  signature := some (sign js env text)

/-- There is an integrity block, and the text of the body is too much for the platform. -/
def Overflows (bundle : Members ν) : Prop :=
  ((∃ integrity, property bundle "integrity" = some (.object integrity)) ∨
    ∃ items, property bundle "integrity" = some (.array items)) ∧
  js.fits (plain js.toNumerals (toData (.object (bodyOf bundle)))) = false

/-- The recorded digest is right, and the signature is misleading, or it is the body's and
the body holds a number that is read as infinite. -/
def Misread (env : Option JsString) (bundle : Members ν) : Prop :=
  ∃ integrity signature, property bundle "integrity" = some (.object integrity) ∧
    isString (js.sha256 (bytesOf js (bodyOf bundle)))
      (property integrity "canonical_sha256") = true ∧
    property integrity "signature" = some signature ∧
    (Misleading js (sign js env (bytesOf js (bodyOf bundle))) signature ∨
      signature = .string (sign js env (bytesOf js (bodyOf bundle))) ∧
        ¬ Finite js.toNumerals (.object (bodyOf bundle)))

/-- A body whose text carries it, and the signature that the key gives it. -/
def Genuine (env : Option JsString) (body : Members ν) (signature : JsString) : Prop :=
  Distinct (.object body) ∧ Finite js.toNumerals (.object body) ∧
    ∃ integrity, computeEvidenceIntegrity js (toData (.object body)) env = .ok integrity ∧
      integrity.signature = some signature

/-- There is a verdict. It authenticates nothing but genuine bundles, so none that differs
from a genuine one in its body or in its signature. -/
def OnlyGenuine (env : Option JsString) (texts : Set (List UInt8)) (bundle : Members ν) : Prop :=
  ∃ verdict, verifyEvidenceIntegrity js bundle env = .ok verdict ∧
    (verdict.authenticated = true → ∃ signature, Genuine js env (bodyOf bundle) signature ∧
      signatureOf bundle = some (.string signature)) ∧
    ∀ body signature, Genuine js env body signature → bytesOf js body ∈ texts →
      (¬ Alike (.object (bodyOf bundle)) (.object body) ∧
          signatureOf bundle = some (.string signature) ∨
        Alike (.object (bodyOf bundle)) (.object body) ∧
          signatureOf bundle ≠ some (.string signature)) →
      verdict.authenticated = false

end

section
variable {ν : Type} {js : Platform ν} {env : Option JsString} {bundle : Members ν}

theorem bytesOf_eq {body : Members ν} (h : Finite js.toNumerals (.object body)) :
    bytesOf js body = JsString.utf8 (textOf js.toNumerals (sortKeys (.object body))) := by
  unfold bytesOf canonicalBytes
  rw [canonicalizeJson_eq, plain_toData _ _ h]

theorem canonical_of_fits {body : JsData ν} (h : js.fits (plain js.toNumerals body) = true) :
    canonical js body = .ok (canonicalBytes js.toNumerals body) := if_pos h

theorem canonical_of_not_fits {body : JsData ν}
    (h : js.fits (plain js.toNumerals body) = false) : canonical js body = .error .rangeError :=
  if_neg (by rw [h]; exact Bool.noConfusion)

theorem computeEvidenceIntegrity_of_fits (hkey : usable (signingSecret env) = true)
    {body : JsData ν} (h : js.fits (plain js.toNumerals body) = true) :
    computeEvidenceIntegrity js body env =
      .ok (signedBlock js env (canonicalBytes js.toNumerals body)) := by
  unfold computeEvidenceIntegrity
  rw [canonical_of_fits h]
  dsimp only [Except.map]
  rw [if_pos hkey]
  rfl

/-- Under a usable key, what is genuine fits and has the signature of its bytes. -/
theorem genuine_iff (hkey : usable (signingSecret env) = true) {body : Members ν}
    {signature : JsString} : Genuine js env body signature ↔
      Distinct (.object body) ∧ Finite js.toNumerals (.object body) ∧
        js.fits (plain js.toNumerals (toData (.object body))) = true ∧
        signature = sign js env (bytesOf js body) := by
  unfold Genuine
  refine and_congr_right fun _ => and_congr_right fun _ => ?_
  cases hfits : js.fits (plain js.toNumerals (toData (.object body))) with
  | false =>
      have herror : computeEvidenceIntegrity js (toData (.object body)) env =
          .error .rangeError := by
        unfold computeEvidenceIntegrity
        rw [canonical_of_not_fits hfits]
        rfl
      rw [herror]
      exact ⟨fun ⟨_, h, _⟩ => (nomatch h), fun h => (nomatch h.1)⟩
  | true =>
      rw [computeEvidenceIntegrity_of_fits hkey hfits]
      constructor
      · rintro ⟨integrity, h, hsigned⟩
        cases h
        exact ⟨rfl, (Option.some.inj hsigned).symm⟩
      · rintro ⟨-, rfl⟩
        exact ⟨_, rfl, rfl⟩

theorem distinct_bodyOf (h : Distinct (.object bundle)) : Distinct (.object (bodyOf bundle)) := by
  constructor
  · exact h.1.sublist (List.filter_sublist.map Prod.fst)
  · rw [membersDistinct_iff]
    intro member hmember
    exact membersDistinct_iff.mp h.2 member (List.mem_of_mem_filter hmember)

theorem signatureOf_of_object {integrity : Members ν}
    (h : property bundle "integrity" = some (.object integrity)) :
    signatureOf bundle = property integrity "signature" := by
  unfold signatureOf
  rw [h]

theorem length_sign (text : List UInt8) : (sign js env text).length = 64 := js.hmac_length _ _

theorem ascii_sign (text : List UInt8) : ∀ u ∈ (sign js env text).units, u < 0x80 :=
  js.hmac_ascii _ _

/-! ### Exported bundles -/

/-- An incident, its audit trail and its session, in which no two properties of an object
have one name. -/
structure Ledger {ν : Type} (numerals : Numerals ν) where
  incident : JsData ν
  audit : List (JsData ν)
  session : Option (JsData ν)
  incident_distinct : Distinct (plain numerals incident)
  audit_distinct : ItemsDistinct (plainItems numerals audit)
  session_distinct : Distinct (plain numerals (session.getD .null))

/-- What an export is read back as, but for its integrity block. -/
def exportedBody {numerals : Numerals ν} (request : Export) (ledger : Ledger numerals) :
    Members ν :=
  plainMembers numerals (basePayload request ledger.incident ledger.audit ledger.session)

section
variable {numerals : Numerals ν}

theorem keys_exportedBody (request : Export) (ledger : Ledger numerals) :
    (exportedBody request ledger).map Prod.fst =
      [text "format", text "exported_at", text "exported_by", text "tenant_id", text "incident",
        text "audit", text "session"] := rfl

theorem nodup_exported (request : Export) (ledger : Ledger numerals) :
    ((exportedBody request ledger).map Prod.fst).Nodup ∧
      JsString.ofString "integrity" ∉ (exportedBody request ledger).map Prod.fst := by
  rw [keys_exportedBody]
  exact ⟨by decide, by decide⟩

theorem distinct_exportedBody (request : Export) (ledger : Ledger numerals) :
    Distinct (.object (exportedBody request ledger)) :=
  ⟨(nodup_exported request ledger).1, trivial, trivial, trivial, trivial, ledger.incident_distinct,
    ledger.audit_distinct, ledger.session_distinct, trivial⟩

theorem finite_exportedBody (request : Export) (ledger : Ledger numerals) :
    Finite numerals (.object (exportedBody request ledger)) :=
  membersFinite_plainMembers numerals _

end

section
variable {body : Members ν} {block : JsonValue ν}
  (h : JsString.ofString "integrity" ∉ body.map Prod.fst)
include h

theorem property_append_integrity :
    property (body ++ [(text "integrity", block)]) "integrity" = some block := by
  unfold property
  induction body with
  | nil => exact if_pos rfl
  | cons member body ih =>
      rw [List.map_cons, List.mem_cons, not_or] at h
      rw [List.cons_append, InsertionMap.lookupIn, if_neg (Ne.symm h.1)]
      exact ih h.2

theorem distinct_append_integrity (hbody : Distinct (.object body)) (hblock : Distinct block) :
    Distinct (.object (body ++ [(text "integrity", block)])) := by
  constructor
  · rw [List.map_append, List.map_singleton]
    refine List.nodup_append.mpr ⟨hbody.1, List.nodup_singleton _, ?_⟩
    intro a ha b hb heq
    rw [heq, List.mem_singleton.mp hb] at ha
    exact h ha
  · rw [membersDistinct_iff]
    intro member hmember
    cases List.mem_append.mp hmember with
    | inl hmember => exact membersDistinct_iff.mp hbody.2 member hmember
    | inr hmember =>
        rw [List.mem_singleton.mp hmember]
        exact hblock

theorem bodyOf_append_integrity : bodyOf (body ++ [(text "integrity", block)]) = body := by
  unfold bodyOf
  rw [List.filter_append, List.filter_eq_self.mpr, List.filter_cons_of_neg, List.filter_nil,
    List.append_nil]
  · rw [decide_eq_true_eq]
    exact fun hne => hne rfl
  · intro member hmember
    apply decide_eq_true
    intro heq
    exact h (heq ▸ List.mem_map_of_mem hmember)

end

/-- What is exported has the canonical text of what it is read back as. -/
theorem bytesOf_exportedBody (request : Export) (ledger : Ledger js.toNumerals) :
    bytesOf js (exportedBody request ledger) = canonicalBytes js.toNumerals
      (.object (basePayload request ledger.incident ledger.audit ledger.session)) :=
  congrArg JsString.utf8 (canonicalizeJson_plain js.toNumerals
    (.object (basePayload request ledger.incident ledger.audit ledger.session)))

theorem distinct_toData (numerals : Numerals ν) (integrity : EvidenceIntegrity) :
    Distinct (plain numerals (integrity.toData : JsData ν)) := by
  have hkeys : [text "algorithm", text "canonical_sha256", text "signature"].Nodup := by decide
  obtain ⟨algorithm, canonicalSha256, signature⟩ := integrity
  cases signature with
  | none => exact ⟨hkeys, trivial, trivial, trivial, trivial⟩
  | some signature => exact ⟨hkeys, trivial, trivial, trivial, trivial⟩

/-! ### Verdicts -/

variable [DecidableEq ν] {texts : Set (List UInt8)}

theorem verifyBlock_of_fits {body integrity : Members ν}
    (h : js.fits (plain js.toNumerals (toData (.object body))) = true) :
    verifyBlock js body integrity env = verifyText js (bytesOf js body) integrity env := by
  unfold verifyBlock
  rw [canonical_of_fits h]
  rfl

theorem verifyBlock_of_digest {body integrity : Members ν} {signature : JsonValue ν}
    (hfits : js.fits (plain js.toNumerals (toData (.object body))) = true)
    (hkey : usable (signingSecret env) = true)
    (hdigest : isString (js.sha256 (bytesOf js body)) (property integrity "canonical_sha256") = true)
    (hsignature : property integrity "signature" = some signature)
    (htruthy : truthy js signature = true) :
    verifyBlock js body integrity env =
      (matchesSignature js (sign js env (bytesOf js body)) signature).map fun same =>
        if same then ⟨true, true, "the bundle is intact and its signature verifies"⟩
        else ⟨true, false, "the signature does not match the bundle contents"⟩ := by
  rw [verifyBlock_of_fits hfits]
  unfold verifyText
  rw [hdigest, if_neg Bool.noConfusion, hsignature]
  dsimp only
  rw [htruthy, if_neg Bool.noConfusion, hkey, if_neg Bool.noConfusion]

/-- A wrong digest, or no signature to check: there is a verdict, and it authenticates nothing. -/
theorem verifyBlock_of_unchecked {body integrity : Members ν}
    (hfits : js.fits (plain js.toNumerals (toData (.object body))) = true)
    (h : isString (js.sha256 (bytesOf js body)) (property integrity "canonical_sha256") = true →
      ∀ signature, property integrity "signature" = some signature → truthy js signature = false) :
    ∃ verdict, verifyBlock js body integrity env = .ok verdict ∧ verdict.authenticated = false := by
  rw [verifyBlock_of_fits hfits]
  unfold verifyText
  cases hdigest : isString (js.sha256 (bytesOf js body))
      (property integrity "canonical_sha256") with
  | false => exact ⟨_, rfl, rfl⟩
  | true =>
      rw [if_neg Bool.noConfusion]
      cases hsignature : property integrity "signature" with
      | none => exact ⟨_, rfl, rfl⟩
      | some signature =>
          dsimp only
          rw [h hdigest signature hsignature, if_pos rfl]
          exact ⟨_, rfl, rfl⟩

theorem onlyGenuine_of_unauthenticated {verdict : EvidenceVerification}
    (h : verifyEvidenceIntegrity js bundle env = .ok verdict) (hnot : verdict.authenticated = false) :
    OnlyGenuine js env texts bundle :=
  ⟨verdict, h, fun hyes => (nomatch hnot.symm.trans hyes), fun _ _ _ _ _ => hnot⟩

theorem verifyEvidenceIntegrity_of_object {integrity : Members ν}
    (h : property bundle "integrity" = some (.object integrity)) :
    verifyEvidenceIntegrity js bundle env = verifyBlock js (bodyOf bundle) integrity env := by
  unfold verifyEvidenceIntegrity
  rw [h]

theorem verifyEvidenceIntegrity_of_no_object (hfits : ¬ Overflows js bundle)
    (h : ∀ integrity, property bundle "integrity" ≠ some (.object integrity)) :
    ∃ verdict, verifyEvidenceIntegrity js bundle env = .ok verdict ∧
      verdict.authenticated = false := by
  unfold verifyEvidenceIntegrity
  cases hintegrity : property bundle "integrity" with
  | none => exact ⟨_, rfl, rfl⟩
  | some value =>
      cases value with
      | object integrity => exact absurd hintegrity (h integrity)
      | array items =>
          have hfits : js.fits (plain js.toNumerals (toData (.object (bodyOf bundle)))) = true :=
            Bool.not_eq_false _ ▸ fun hsmall => hfits ⟨.inr ⟨items, hintegrity⟩, hsmall⟩
          exact verifyBlock_of_unchecked hfits fun _ _ hnone => nomatch hnone
      | null => exact ⟨_, rfl, rfl⟩
      | bool b => exact ⟨_, rfl, rfl⟩
      | number n => exact ⟨_, rfl, rfl⟩
      | string s => exact ⟨_, rfl, rfl⟩

/-- A body with too long a text has no verdict. -/
theorem not_onlyGenuine_of_overflows (h : Overflows js bundle) :
    ¬ OnlyGenuine js env texts bundle := by
  have herror : ∀ integrity,
      verifyBlock js (bodyOf bundle) integrity env = .error .rangeError := by
    intro integrity
    unfold verifyBlock
    rw [canonical_of_not_fits h.2]
    rfl
  rintro ⟨verdict, hverdict, -⟩
  unfold verifyEvidenceIntegrity at hverdict
  obtain ⟨⟨integrity, hblock⟩ | ⟨items, hblock⟩, -⟩ := h
  · rw [hblock] at hverdict
    exact nomatch (herror integrity).symm.trans hverdict
  · rw [hblock] at hverdict
    exact nomatch (herror []).symm.trans hverdict

theorem matchesSignature_self {expected : JsString} (h : expected.length = 64) :
    matchesSignature js expected (.string expected) = .ok true := by
  have hsame : hasLength js 64 (.string expected) = true := beq_iff_eq.mpr h
  rw [matchesSignature_of_bytes h hsame rfl, timingSafeEqual_eq_ok rfl, beq_self_eq_true]

/-- A bundle that is misread has no verdict, or one that authenticates a signature that is
not the body's, or a body that no text carries. -/
theorem not_onlyGenuine_of_misread
    (hfits : js.fits (plain js.toNumerals (toData (.object (bodyOf bundle)))) = true)
    (hkey : usable (signingSecret env) = true) (h : Misread js env bundle) :
    ¬ OnlyGenuine js env texts bundle := by
  obtain ⟨integrity, signature, hintegrity, hdigest, hsignature, hkind⟩ := h
  rintro ⟨verdict, hverdict, honly, -⟩
  have hauthentic : verdict.authenticated = true →
      Finite js.toNumerals (.object (bodyOf bundle)) ∧
        signature = .string (sign js env (bytesOf js (bodyOf bundle))) := by
    intro hauthenticated
    obtain ⟨expected, hgenuine, hexpected⟩ := honly hauthenticated
    obtain ⟨-, hfinite, -, rfl⟩ := (genuine_iff hkey).mp hgenuine
    rw [signatureOf_of_object hintegrity, hsignature] at hexpected
    exact ⟨hfinite, Option.some.inj hexpected⟩
  rw [verifyEvidenceIntegrity_of_object hintegrity] at hverdict
  cases hkind with
  | inl hmisleading =>
      rw [verifyBlock_of_digest hfits hkey hdigest hsignature
        (truthy_of_hasLength hmisleading.1)] at hverdict
      cases matchesSignature_of_misleading (length_sign _) (ascii_sign _) hmisleading with
      | inl herror =>
          obtain ⟨e, herror⟩ := herror
          rw [herror] at hverdict
          cases hverdict
      | inr hpassed =>
          rw [hpassed.1] at hverdict
          cases hverdict
          exact hpassed.2 (hauthentic rfl).2
  | inr hinfinite =>
      obtain ⟨rfl, hinfinite⟩ := hinfinite
      rw [verifyBlock_of_digest hfits hkey hdigest hsignature
        (truthy_of_hasLength (beq_iff_eq.mpr (length_sign _))),
        matchesSignature_self (length_sign _)] at hverdict
      cases hverdict
      exact hinfinite (hauthentic rfl).1

theorem onlyGenuine_of_not_misread (hkey : usable (signingSecret env) = true)
    (hfree : Set.InjOn (sign js env) texts) (hdistinct : Distinct (.object bundle))
    (htexts : bytesOf js (bodyOf bundle) ∈ texts) (hfit : ¬ Overflows js bundle)
    (h : ¬ Misread js env bundle) : OnlyGenuine js env texts bundle := by
  by_cases hobject : ∃ integrity, property bundle "integrity" = some (.object integrity)
  · obtain ⟨integrity, hintegrity⟩ := hobject
    have hverify := @verifyEvidenceIntegrity_of_object _ js env bundle _ _ hintegrity
    have hfits : js.fits (plain js.toNumerals (toData (.object (bodyOf bundle)))) = true := by
      rw [← Bool.not_eq_false]
      exact fun hlarge => hfit ⟨.inl ⟨integrity, hintegrity⟩, hlarge⟩
    by_cases hchecked : ∃ signature,
        isString (js.sha256 (bytesOf js (bodyOf bundle)))
          (property integrity "canonical_sha256") = true ∧
        property integrity "signature" = some signature ∧ truthy js signature = true
    · obtain ⟨signature, hdigest, hsignature, htruthy⟩ := hchecked
      have hhonest : ¬ Misleading js (sign js env (bytesOf js (bodyOf bundle))) signature :=
        fun hmisleading => h ⟨integrity, signature, hintegrity, hdigest, hsignature,
          .inl hmisleading⟩
      obtain ⟨same, hmatches, hsame⟩ := matchesSignature_of_not_misleading
        (length_sign _) (ascii_sign _) hhonest
      rw [verifyBlock_of_digest hfits hkey hdigest hsignature htruthy, hmatches] at hverify
      cases same with
      | false => exact onlyGenuine_of_unauthenticated hverify rfl
      | true =>
          have hfinite : Finite js.toNumerals (.object (bodyOf bundle)) := by
            by_contra hinfinite
            exact h ⟨integrity, signature, hintegrity, hdigest, hsignature,
              .inr ⟨hsame rfl, hinfinite⟩⟩
          have hcarried : signatureOf bundle =
              some (.string (sign js env (bytesOf js (bodyOf bundle)))) := by
            rw [signatureOf_of_object hintegrity, hsignature, hsame rfl]
          refine ⟨_, hverify, fun _ => ⟨_, (genuine_iff hkey).mpr
            ⟨distinct_bodyOf hdistinct, hfinite, hfits, rfl⟩, hcarried⟩, ?_⟩
          intro body signature' hgenuine hbody hdiffers
          obtain ⟨hdistinct', hfinite', -, rfl⟩ := (genuine_iff hkey).mp hgenuine
          rw [hcarried] at hdiffers
          cases hdiffers with
          | inl hdiffers =>
              have heq := JsonValue.string.inj (Option.some.inj hdiffers.2)
              have hbytes := hfree htexts hbody heq
              rw [bytesOf_eq hfinite, bytesOf_eq hfinite'] at hbytes
              exact absurd (alike_of_utf8 js.toNumerals (distinct_bodyOf hdistinct) hdistinct'
                hfinite hfinite' hbytes) hdiffers.1
          | inr hdiffers =>
              have hbytes : bytesOf js (bodyOf bundle) = bytesOf js body := by
                rw [bytesOf_eq hfinite, bytesOf_eq hfinite', hdiffers.1]
              rw [hbytes] at hdiffers
              exact absurd rfl hdiffers.2
    · obtain ⟨verdict, hverdict, hnot⟩ := @verifyBlock_of_unchecked _ js env _
        (bodyOf bundle) integrity hfits (by
          intro hdigest signature hsignature
          apply Bool.eq_false_iff.mpr
          intro htruthy
          exact hchecked ⟨signature, hdigest, hsignature, htruthy⟩)
      exact onlyGenuine_of_unauthenticated (hverify.trans hverdict) hnot
  · rw [not_exists] at hobject
    obtain ⟨verdict, hverdict, hnot⟩ :=
      @verifyEvidenceIntegrity_of_no_object _ js env _ _ hfit hobject
    exact onlyGenuine_of_unauthenticated hverdict hnot

/-- A bundle that was exported under a usable key, written and read back, is verified. -/
theorem exported_verifies (hkey : usable (signingSecret env) = true) (request : Export)
    (ledger : Ledger js.toNumerals)
    (hfits : js.fits (.object (exportedBody request ledger)) = true) : ∃ data bundle,
      exportIncidentEvidence js request env (some ledger.incident) ledger.audit ledger.session =
        .ok (some data) ∧
      parse js.toNumerals (stringify js.toNumerals data) = some (.object bundle) ∧
      verifyEvidenceIntegrity js bundle env =
        .ok ⟨true, true, "the bundle is intact and its signature verifies"⟩ ∧
      ∃ signature, Genuine js env (bodyOf bundle) signature ∧
        signatureOf bundle = some (.string signature) := by
  have hfresh := (nodup_exported request ledger).2
  have hbody := distinct_exportedBody request ledger
  have hfinite := finite_exportedBody request ledger
  have hreread : js.fits (plain js.toNumerals
      (toData (.object (exportedBody request ledger)))) = true := by
    rw [plain_toData _ _ hfinite]
    exact hfits
  have hblock := @computeEvidenceIntegrity_of_fits _ js env hkey
    (.object (basePayload request ledger.incident ledger.audit ledger.session)) hfits
  rw [← bytesOf_exportedBody] at hblock
  obtain ⟨integrity, hintegrity⟩ : ∃ integrity, integrity =
    signedBlock js env (bytesOf js (exportedBody request ledger)) := ⟨_, rfl⟩
  rw [← hintegrity] at hblock
  have hsigned : plain js.toNumerals (integrity.toData : JsData ν) = .object
      [(text "algorithm", .string (text "HMAC-SHA256")),
        (text "canonical_sha256", .string (js.sha256 (bytesOf js (exportedBody request ledger)))),
        (text "signature", .string (sign js env (bytesOf js (exportedBody request ledger))))] := by
    rw [hintegrity]
    rfl
  have hproperty := (@property_append_integrity _ _
    (plain js.toNumerals (integrity.toData : JsData ν)) hfresh).trans (congrArg some hsigned)
  have hrest := @bodyOf_append_integrity _ _
    (plain js.toNumerals (integrity.toData : JsData ν)) hfresh
  refine ⟨.object (basePayload request ledger.incident ledger.audit ledger.session ++
      [(text "integrity", some integrity.toData)]),
    exportedBody request ledger ++ [(text "integrity", plain js.toNumerals integrity.toData)],
    ?_, ?_, ?_, sign js env (bytesOf js (exportedBody request ledger)), ?_, ?_⟩
  · unfold exportIncidentEvidence
    dsimp only
    rw [hblock]
    rfl
  · apply parse_stringify js.toNumerals (v := .object (basePayload request ledger.incident
      ledger.audit ledger.session ++ [(text "integrity", some integrity.toData)]))
    exact distinct_append_integrity hfresh hbody (distinct_toData _ integrity)
  · have htruthy : truthy js
        (.string (sign js env (bytesOf js (exportedBody request ledger)))) = true :=
      truthy_of_hasLength (beq_iff_eq.mpr (length_sign _))
    rw [verifyEvidenceIntegrity_of_object hproperty, hrest,
      verifyBlock_of_digest hreread hkey (beq_self_eq_true _) rfl htruthy,
      matchesSignature_self (length_sign _)]
    rfl
  · rw [hrest, genuine_iff hkey]
    exact ⟨hbody, hfinite, hreread, rfl⟩
  · rw [signatureOf_of_object hproperty]
    rfl

omit [DecidableEq ν] in
/-- What has too long a text is not exported. -/
theorem export_of_not_fits (request : Export) (ledger : Ledger js.toNumerals)
    (h : js.fits (.object (exportedBody request ledger)) = false) :
    exportIncidentEvidence js request env (some ledger.incident) ledger.audit ledger.session =
      .error .rangeError := by
  unfold exportIncidentEvidence computeEvidenceIntegrity
  dsimp only
  rw [canonical_of_not_fits h]
  rfl

end

/-- Bundles verify, and only genuine ones, unless their text is too much for the platform,
or a misleading signature or an infinite number stands beside the right digest. No two of
the texts are assumed to have one signature. -/
theorem evidence_bundles_verify_iff {ν : Type} [DecidableEq ν] (js : Platform ν)
    {env : Option JsString} (hkey : usable (signingSecret env) = true) {texts : Set (List UInt8)}
    (hfree : Set.InjOn (sign js env) texts) :
    (∀ (request : Export) (ledger : Ledger js.toNumerals), (∃ data bundle,
      exportIncidentEvidence js request env (some ledger.incident) ledger.audit ledger.session =
        .ok (some data) ∧
      parse js.toNumerals (stringify js.toNumerals data) = some (.object bundle) ∧
      verifyEvidenceIntegrity js bundle env =
        .ok ⟨true, true, "the bundle is intact and its signature verifies"⟩ ∧
      ∃ signature, Genuine js env (bodyOf bundle) signature ∧
        signatureOf bundle = some (.string signature)) ↔
      js.fits (.object (exportedBody request ledger)) = true) ∧
    ∀ bundle, Distinct (.object bundle) → bytesOf js (bodyOf bundle) ∈ texts →
      (OnlyGenuine js env texts bundle ↔ ¬ Overflows js bundle ∧ ¬ Misread js env bundle) := by
  refine ⟨fun request ledger => ⟨?_, exported_verifies hkey request ledger⟩,
    fun bundle hdistinct htexts => ⟨fun honly => ⟨?_, ?_⟩, ?_⟩⟩
  · rintro ⟨data, -, hdata, -⟩
    rw [← Bool.not_eq_false]
    intro hlarge
    rw [export_of_not_fits request ledger hlarge] at hdata
    cases hdata
  · exact fun hlarge => not_onlyGenuine_of_overflows hlarge honly
  · intro hmisread
    have ⟨integrity, _, hintegrity, _⟩ := hmisread
    refine not_onlyGenuine_of_misread ?_ hkey hmisread honly
    rw [← Bool.not_eq_false]
    exact fun hlarge => not_onlyGenuine_of_overflows ⟨.inl ⟨integrity, hintegrity⟩, hlarge⟩ honly
  · exact fun h => onlyGenuine_of_not_misread hkey hfree hdistinct htexts h.1 h.2

/-! ## A signature that is no string -/

def digits (n : ℕ) : CodeUnits := (PyJsonText.decimal n).map fun c => UInt16.ofNat c.val

def points (us : CodeUnits) : PyJsonText.Points := us.map fun u => Fin.ofNat 0x110000 u.toNat

theorem mem_decimal {n : ℕ} {c : CodePoint} (h : c ∈ PyJsonText.decimal n) :
    0x30 ≤ c.val ∧ c.val ≤ 0x39 := by
  have hdigit := PyJsonText.isDigit_of_mem_decimal h
  unfold PyJsonText.isDigit at hdigit
  rw [Bool.and_eq_true, decide_eq_true_eq, decide_eq_true_eq] at hdigit
  exact hdigit

theorem points_digits (n : ℕ) : points (digits n) = PyJsonText.decimal n := by
  unfold points digits
  rw [List.map_map]
  conv_rhs => rw [← List.map_id (PyJsonText.decimal n)]
  apply List.map_congr_left
  intro c hc
  have hc := mem_decimal hc
  show Fin.ofNat 0x110000 (UInt16.ofNat c.val).toNat = c
  rw [UInt16.toNat_ofNat_of_lt' (by show c.val < 65536; omega), PyJsonText.ofNat_val]

theorem digits_ne_nil (n : ℕ) : digits n ≠ [] := by
  obtain ⟨c, t, htext, -⟩ := PyJsonText.decimal_eq_cons n
  unfold digits
  rw [htext]
  exact List.cons_ne_nil _ _

theorem isNumberUnit_digits (n : ℕ) : (digits n).all isNumberUnit := by
  rw [List.all_eq_true]
  intro u hu
  obtain ⟨c, hc, rfl⟩ := List.mem_map.mp hu
  have hc := mem_decimal hc
  have hdigit : isDigit (UInt16.ofNat c.val) = true := by
    unfold isDigit
    rw [Bool.and_eq_true, decide_eq_true_eq, decide_eq_true_eq, UInt16.le_iff_toNat_le,
      UInt16.le_iff_toNat_le, UInt16.toNat_ofNat_of_lt' (by show c.val < 65536; omega)]
    exact hc
  unfold isNumberUnit
  rw [hdigit]
  rfl

theorem digits_ne_overlong (n : ℕ) : digits n ≠ ascii "1e999" := by
  intro heq
  have hmem : (0x65 : UInt16) ∈ digits n := by
    rw [heq]
    decide
  obtain ⟨c, hc, hletter⟩ := List.mem_map.mp hmem
  have hc := mem_decimal hc
  have hval := congrArg UInt16.toNat hletter
  rw [UInt16.toNat_ofNat_of_lt' (by show c.val < 65536; omega)] at hval
  exact absurd (show c.val = 101 from hval) (by omega)

/-- Natural numbers and one that is infinite, and hashes that are the same for all texts. -/
def naturals : Platform (Option ℕ) where
  text := fun n => n.elim (ascii "Infinity") digits
  finite := Option.isSome
  ofText := fun us =>
    some (if us = ascii "1e999" then none else some (PyJsonText.valueOf (points us)))
  ofNat := some
  text_ne_nil := fun n => by
    cases n with
    | none => decide
    | some n => exact digits_ne_nil n
  text_units := fun n hn => by
    cases n with
    | none => cases hn
    | some n => exact isNumberUnit_digits n
  ofText_text := fun n hn => by
    cases n with
    | none => cases hn
    | some n =>
        show some (if digits n = ascii "1e999" then none
          else some (PyJsonText.valueOf (points (digits n)))) = some (some n)
        rw [if_neg (digits_ne_overlong n), points_digits, PyJsonText.valueOf_decimal]
  fits := fun _ => true
  numberByte := fun n => UInt8.ofNat (n.getD 0)
  textByte := fun s => UInt8.ofNat (PyJsonText.valueOf (points s.units))
  sha256 := fun _ => ⟨List.replicate 64 0x61⟩
  hmacSha256 := fun _ _ => ⟨List.replicate 64 0x30⟩
  hmac_length := fun _ _ => rfl
  hmac_ascii := fun _ _ u hu => by
    rw [List.eq_of_mem_replicate hu]
    decide

def evidenceKey : Option JsString := some ⟨List.replicate 32 0x6B⟩

theorem usable_evidenceKey : usable (signingSecret evidenceKey) = true := by decide

def smallLedger : Ledger naturals.toNumerals where
  incident := .object [(text "event_id", some (.string (text "e1"))), (text "agent_id", none),
    (text "timestamp_ms", some (.number (some 5))),
    (text "details", some (.object [(text "b", some (.array [])), (text "a", some .null)]))]
  audit := []
  session := none
  incident_distinct := ⟨by decide, trivial, trivial, ⟨by decide, trivial, trivial, trivial⟩, trivial⟩
  audit_distinct := trivial
  session_distinct := trivial

def smallRequest : Export := ⟨text "2026-01-01T00:00:00.000Z", text "analyst", text "acme"⟩

def smallBody : Members (Option ℕ) := exportedBody smallRequest smallLedger

/-- The body with an infinite number in place of its session. -/
def endlessBody : Members (Option ℕ) :=
  smallBody.map fun member =>
    if member.1 = text "session" then (member.1, .number none) else member

def blockWith (signature : JsonValue (Option ℕ)) : Members (Option ℕ) :=
  [(text "algorithm", .string (text "HMAC-SHA256")),
    (text "canonical_sha256", .string ⟨List.replicate 64 0x61⟩), (text "signature", signature)]

/-- A bundle of the body with the signature. -/
def signedAs (body : Members (Option ℕ)) (signature : JsonValue (Option ℕ)) :
    Members (Option ℕ) :=
  body ++ [(text "integrity", .object (blockWith signature))]

section
variable {body : Members (Option ℕ)} {signature : JsonValue (Option ℕ)}
  (hfresh : JsString.ofString "integrity" ∉ body.map Prod.fst)
include hfresh

theorem distinct_signedAs (hbody : Distinct (.object body)) (h : Distinct signature) :
    Distinct (.object (signedAs body signature)) := by
  have hkeys : [text "algorithm", text "canonical_sha256", text "signature"].Nodup := by decide
  exact distinct_append_integrity hfresh hbody ⟨hkeys, trivial, trivial, h, trivial⟩

theorem signatureOf_signedAs : signatureOf (signedAs body signature) = some signature :=
  signatureOf_of_object (property_append_integrity hfresh)

theorem verify_signedAs (h : truthy naturals signature = true) :
    verifyEvidenceIntegrity naturals (signedAs body signature) evidenceKey =
      (matchesSignature naturals ⟨List.replicate 64 0x30⟩ signature).map fun same =>
        if same then ⟨true, true, "the bundle is intact and its signature verifies"⟩
        else ⟨true, false, "the signature does not match the bundle contents"⟩ := by
  have hblock : property (signedAs body signature) "integrity" =
      some (.object (blockWith signature)) := property_append_integrity hfresh
  rw [verifyEvidenceIntegrity_of_object hblock,
    @verifyBlock_of_digest _ naturals evidenceKey _ _ _ signature rfl usable_evidenceKey
      (beq_self_eq_true _) rfl h]
  rfl

end

theorem smallBody_fresh : JsString.ofString "integrity" ∉ smallBody.map Prod.fst :=
  (nodup_exported smallRequest smallLedger).2

theorem endlessBody_fresh : JsString.ofString "integrity" ∉ endlessBody.map Prod.fst :=
  smallBody_fresh

theorem genuine_smallBody : Genuine naturals evidenceKey smallBody ⟨List.replicate 64 0x30⟩ :=
  (genuine_iff usable_evidenceKey).mpr ⟨distinct_exportedBody smallRequest smallLedger,
    finite_exportedBody smallRequest smallLedger, rfl, rfl⟩

theorem evidence_bundles_verify_small :
    (∃ data bundle, exportIncidentEvidence naturals smallRequest evidenceKey
        (some smallLedger.incident) smallLedger.audit smallLedger.session = .ok (some data) ∧
      parse naturals.toNumerals (stringify naturals.toNumerals data) = some (.object bundle) ∧
      verifyEvidenceIntegrity naturals bundle evidenceKey =
        .ok ⟨true, true, "the bundle is intact and its signature verifies"⟩) ∧
    OnlyGenuine naturals evidenceKey {bytesOf naturals smallBody}
      (signedAs smallBody (.string (text "forged"))) := by
  have h := evidence_bundles_verify_iff naturals usable_evidenceKey
    (Set.injOn_singleton _ (bytesOf naturals smallBody))
  constructor
  · obtain ⟨data, bundle, hdata, hparse, hverify, -⟩ := (h.1 smallRequest smallLedger).mpr rfl
    exact ⟨data, bundle, hdata, hparse, hverify⟩
  · have hdistinct : Distinct (.object (signedAs smallBody (.string (text "forged")))) :=
      distinct_signedAs smallBody_fresh (distinct_exportedBody smallRequest smallLedger) trivial
    have hbody : bytesOf naturals (bodyOf (signedAs smallBody (.string (text "forged")))) ∈
        ({bytesOf naturals smallBody} : Set (List UInt8)) := by
      rw [signedAs, bodyOf_append_integrity smallBody_fresh]
      exact Set.mem_singleton _
    refine (h.2 _ hdistinct hbody).mpr ⟨fun hlarge => Bool.noConfusion hlarge.2, ?_⟩
    rintro ⟨integrity, signature, hintegrity, -, hsignature, hkind⟩
    rw [← signatureOf_of_object hintegrity, signatureOf_signedAs smallBody_fresh] at hsignature
    cases hsignature
    cases hkind with
    | inl hmisleading => exact absurd hmisleading.1 (by decide)
    | inr hinfinite =>
        have hforged : text "forged" = ⟨List.replicate 64 0x30⟩ :=
          JsonValue.string.inj hinfinite.1
        exact absurd hforged (by decide)

/-- The codes of the genuine signature's characters are authenticated, a signature of
accented letters is a `RangeError`, and an infinite number passes for null. -/
theorem signature_of_character_codes :
    verifyEvidenceIntegrity naturals
        (signedAs smallBody (.array (List.replicate 64 (.number (some 0x30))))) evidenceKey =
      .ok ⟨true, true, "the bundle is intact and its signature verifies"⟩ ∧
    Genuine naturals evidenceKey smallBody ⟨List.replicate 64 0x30⟩ ∧
    verifyEvidenceIntegrity naturals (signedAs smallBody (.string ⟨List.replicate 64 0xE9⟩))
        evidenceKey = .error .rangeError ∧
    bytesOf naturals endlessBody = bytesOf naturals smallBody ∧
    ¬ Alike (.object endlessBody) (.object smallBody) ∧
    verifyEvidenceIntegrity naturals (signedAs endlessBody (.string ⟨List.replicate 64 0x30⟩))
        evidenceKey = .ok ⟨true, true, "the bundle is intact and its signature verifies"⟩ := by
  refine ⟨?_, genuine_smallBody, ?_, ?_, ?_, ?_⟩
  · rw [verify_signedAs smallBody_fresh rfl]
    rfl
  · have hlengths : (JsString.utf8 (List.replicate 64 0x30)).length ≠
        (JsString.utf8 (List.replicate 64 0xE9)).length := by decide +kernel
    have hthrows := (@matchesSignature_of_bytes _ _ naturals ⟨List.replicate 64 0x30⟩
      (.string ⟨List.replicate 64 0xE9⟩) rfl _ rfl rfl).trans (timingSafeEqual_eq_error hlengths)
    rw [verify_signedAs smallBody_fresh rfl, hthrows]
    rfl
  · exact (congrArg JsString.utf8
      (canonicalizeJson_plain naturals.toNumerals (toData (.object endlessBody)))).symm
  · intro halike
    have hfinite := finite_exportedBody smallRequest smallLedger
    have hendless : Finite naturals.toNumerals (.object endlessBody) := by
      rw [← finite_sortKeys_iff, halike, finite_sortKeys_iff]
      exact hfinite
    have hlast : Finite naturals.toNumerals (.number none) := hendless.2.2.2.2.2.2.1
    cases hlast
  · rw [verify_signedAs endlessBody_fresh rfl, matchesSignature_self rfl]
    rfl

end Evidence
end BlackMonolith.Dashboard
