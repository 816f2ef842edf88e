import BlackMonolith.AgentToServer
import BlackMonolith.JsonText
import BlackMonolith.SessionAgreement
import BlackMonolith.TenantAttribution

/-!
# The revocation snapshot

The dashboard names every revoked session in the body of an answer. MCP-Shield and the
Python modules read at most 64 KiB of it: what is left of a longer body is no JSON document,
and then the sessions revoked before are still the ones they know. JSON parsers are
parameters. What `JSON.stringify` writes of strings without lone surrogates is what
`serde_json` writes.
-/
namespace BlackMonolith.RevocationSnapshot
open Json Library MonolithEvents SessionAgreement TenantAttribution

/-! ## The answers of the dashboard -/

/-- The id of a revoked session, of printable ASCII characters; ids are stored trimmed. -/
structure SessionId where
  text : String
  nonempty : text.toList ≠ []
  bounded : text.toList.length ≤ 128
  printable : ∀ c ∈ text.toList, 0x20 ≤ c.toNat ∧ c.toNat ≤ 0x7E
  trimmed : Text.trim text = text
deriving DecidableEq

inductive Answer
  | poll (tenantId : String) (generatedAtMs : Fin (2 ^ 53))
  /-- `evaluated` is whether the circuit breaker could be evaluated. -/
  | ingest (accepted duplicates : Fin (2 ^ 53)) (eventIds : List String) (evaluated : Bool)

/-- `GET /api/sessions/revoked` lists all sessions, each once; so does `POST /api/ingest`,
but for an evaluation of the circuit breaker that failed. -/
def Answer.listed (revoked : List SessionId) : Answer → List SessionId
  | .poll _ _ => revoked.eraseDups
  | .ingest _ _ _ evaluated => if evaluated then revoked.eraseDups else []

def strings (texts : List String) : Value := .array (texts.map .string)

def Answer.members (revoked : List SessionId) (answer : Answer) : List (String × Value) :=
  let sessions := strings ((answer.listed revoked).map (·.text))
  match answer with
  | .poll tenantId generatedAtMs =>
      [("tenant_id", .string tenantId), ("generated_at_ms", .number (.int generatedAtMs.val)),
        ("revoked_sessions", sessions)]
  | .ingest accepted duplicates eventIds _ =>
      [("accepted", .number (.int accepted.val)), ("duplicates", .number (.int duplicates.val)),
        ("event_ids", strings eventIds), ("revoked_sessions", sessions)]

def Answer.body (revoked : List SessionId) (answer : Answer) : List UInt8 :=
  Utf8.encode (Value.object (answer.members revoked)).text

/-! ## The readers -/

/-- `MAX_INGEST_RESPONSE_BYTES`, and the argument of `response.read`. -/
def maxResponseBytes : ℕ := 64 * 1024

/-- The loop of `read_bounded_response` over the chunks of the body. -/
def readChunks (body : List UInt8) : List (List UInt8) → List UInt8
  | [] => body
  | chunk :: chunks =>
      if maxResponseBytes < body.length + chunk.length then body
      else readChunks (body ++ chunk) chunks

def readBoundedResponse (chunks : List (List UInt8)) : String :=
  String.ofList (Utf8.decodeLossy (readChunks [] chunks))

section
variable (loads : List Char → Option Value) (isPrintable : CodePoint → Bool)

def pyValue : Value → PyValue
  | .string s => .str (.ofString s)
  | _ => .other

/-- `update_revoked_sessions_from_ingest` with bytes: -1 is a payload without a snapshot. -/
def updateRevokedSessionsFromIngest (registry : RevokedSessionRegistry) (body : List UInt8) :
    Except UnicodeEncodeError (ℤ × RevokedSessionRegistry) :=
  match ((Utf8.decode body).bind loads).bind (·.get "revoked_sessions") with
  | some (.array raw) =>
      (RevokedSessionRegistry.replace isPrintable (raw.map pyValue)).map fun r => (r.1, r.2)
  | _ => .ok (-1, registry)

/-- The registry after an answer was read; an exception leaves it as it was. -/
def refresh (registry : RevokedSessionRegistry) (body : List UInt8) : RevokedSessionRegistry :=
  match updateRevokedSessionsFromIngest loads isPrintable registry
      (body.take maxResponseBytes) with
  | .ok (_, updated) => updated
  | .error _ => registry

end

/-! ## What the parsers do -/

/-- A member of an answer: a text, a number that fits in 64 bits, or a list of texts. -/
def Shallow : Value → Prop
  | .string _ => True
  | .number (.int n) => 0 ≤ n ∧ n < 2 ^ 63
  | .array items => ∀ item ∈ items, ∃ s, item = .string s
  | _ => False

/-- An object of such members is read with the lists of texts it has, and what is read as
an object is a whole document. -/
structure ObjectReader (read : List Char → Option Value) : Prop where
  object : ∀ members key texts, (Value.object members).Printed →
    (∀ m ∈ members, Shallow m.2) → members.lookup key = some (strings texts) →
      ∃ v, read (Value.object members).text = some v ∧ v.get key = some (strings texts)
  document : ∀ cs v key, read cs = some v → (v.get key).isSome → JsonScan.Document cs

/-! ## What each of them reports -/

/-- The proxy reports exactly these sessions as revoked. -/
def ShieldReports (p : AgentToServer.Proxy) (revoked : List SessionId) : Prop :=
  ∀ s, AgentToServer.isSessionRevoked p s = true ↔ ∃ id ∈ revoked, id.text = Text.trim s

/-- The registry reports exactly these sessions as revoked. -/
def RegistryReports (isPrintable : CodePoint → Bool) (registry : RevokedSessionRegistry)
    (revoked : List SessionId) : Prop :=
  ∀ v, RevokedSessionRegistry.isRevoked isPrintable registry v = .ok true ↔
    ∃ id ∈ revoked, cleanId isPrintable v = .ok (some (.ofString id.text))

/-- The list of the answer is complete. -/
def Answer.Complete (revoked : List SessionId) : Answer → Prop
  | .poll _ _ => True
  | .ingest _ _ _ evaluated => evaluated = true ∨ revoked = []

/-- The body is within what is read. -/
def Answer.Fits (revoked : List SessionId) (answer : Answer) : Prop :=
  (answer.body revoked).length ≤ maxResponseBytes

instance (revoked : List SessionId) (answer : Answer) : Decidable (answer.Fits revoked) :=
  inferInstanceAs (Decidable (_ ≤ _))

/-! ## Whole bodies and cut ones -/

theorem itemsPrinted_strings (texts : List String) :
    Value.ItemsPrinted (texts.map Value.string) := by
  induction texts with
  | nil => trivial
  | cons text texts ih => exact ⟨trivial, ih⟩

theorem members_printed (answer : Answer) (revoked : List SessionId) :
    (Value.object (answer.members revoked)).Printed := by
  cases answer with
  | poll tenantId generatedAtMs =>
    have hkeys : ["tenant_id", "generated_at_ms", "revoked_sessions"].Nodup := by decide
    exact ⟨hkeys, trivial, trivial, itemsPrinted_strings _, trivial⟩
  | ingest accepted duplicates eventIds evaluated =>
    have hkeys : ["accepted", "duplicates", "event_ids", "revoked_sessions"].Nodup := by decide
    exact ⟨hkeys, trivial, trivial, itemsPrinted_strings _, itemsPrinted_strings _, trivial⟩

theorem shallow_strings (texts : List String) : Shallow (strings texts) := by
  intro item hitem
  obtain ⟨text, -, rfl⟩ := List.mem_map.mp hitem
  exact ⟨text, rfl⟩

theorem shallow_number (n : Fin (2 ^ 53)) : Shallow (.number (.int n.val)) := by
  have hlt := n.isLt
  change (0 : ℤ) ≤ n.val ∧ (n.val : ℤ) < 2 ^ 63
  omega

theorem members_shallow (answer : Answer) (revoked : List SessionId) :
    ∀ m ∈ answer.members revoked, Shallow m.2 := by
  cases answer with
  | poll tenantId generatedAtMs =>
    simp only [Answer.members, List.forall_mem_cons]
    exact ⟨trivial, shallow_number _, shallow_strings _, List.forall_mem_nil _⟩
  | ingest accepted duplicates eventIds evaluated =>
    simp only [Answer.members, List.forall_mem_cons]
    exact ⟨shallow_number _, shallow_number _, shallow_strings _, shallow_strings _,
      List.forall_mem_nil _⟩

theorem members_lookup (answer : Answer) (revoked : List SessionId) :
    (answer.members revoked).lookup "revoked_sessions" =
      some (strings ((answer.listed revoked).map (·.text))) := by
  cases answer <;> rfl

/-- What `readChunks` leaves out is nothing, or there is too much. -/
theorem readChunks_spec {body : List UInt8} (hbody : body.length ≤ maxResponseBytes)
    (chunks : List (List UInt8)) :
    if (body ++ chunks.flatten).length ≤ maxResponseBytes then
      readChunks body chunks = body ++ chunks.flatten
    else ∃ rest, rest ≠ [] ∧ readChunks body chunks ++ rest = body ++ chunks.flatten := by
  induction chunks generalizing body with
  | nil =>
    rw [List.flatten_nil, List.append_nil, if_pos hbody]
    rfl
  | cons chunk chunks ih =>
    rw [List.flatten_cons, ← List.append_assoc, readChunks]
    by_cases hover : maxResponseBytes < body.length + chunk.length
    · rw [if_pos hover, if_neg]
      · refine ⟨chunk ++ chunks.flatten, ?_, (List.append_assoc _ _ _).symm⟩
        intro hnil
        rw [(List.append_eq_nil_iff.mp hnil).1] at hover
        exact absurd hover (Nat.not_lt.mpr hbody)
      · rw [List.length_append, List.length_append]
        omega
    · rw [if_neg hover]
      apply ih
      rw [List.length_append]
      omega

/-- A text that leaves out the end of an object is no document. -/
theorem not_document_of_front {members : List (String × Value)} {front rest : List Char}
    (hprinted : (Value.object members).Printed)
    (hsplit : (Value.object members).text = front ++ rest) (hrest : rest ≠ []) :
    ¬ JsonScan.Document front := by
  have hlast : '\x7d' ∈ rest := by
    have htext : (Value.object members).text.getLast? = some '\x7d' := by
      rw [Value.text, ← List.cons_append, List.getLast?_concat]
    rw [hsplit, List.getLast?_append_of_ne_nil _ hrest] at htext
    exact List.mem_of_getLast? htext
  have hdocument := Value.document_object hprinted
  rw [hsplit] at hdocument
  exact JsonScan.not_document_of_append hdocument hlast rfl

theorem next_replacement (place : JsonScan.Place) :
    JsonScan.next place Utf8.replacement ≠ some .done := by
  cases place with
  | before | inside depth | string depth | escape depth | afterString depth | done =>
    have hspace : JsonScan.isSpace Utf8.replacement = false := by decide
    simp [JsonScan.next, Utf8.replacement, JsonScan.isOpening, JsonScan.isClosing,
      JsonScan.isSpace]

/-- What stands before a cut is no document, even with the bytes of a cut character
replaced. -/
theorem not_document_of_cut {members : List (String × Value)} {front rest : List UInt8}
    (hprinted : (Value.object members).Printed)
    (hsplit : front ++ rest = Utf8.encode (Value.object members).text) (hrest : rest ≠ []) :
    ¬ JsonScan.Document (Utf8.decodeLossy front) := by
  obtain ⟨whole, opened, hcut⟩ := Utf8.decodeFrom_cut none front
  have htext : (Value.object members).text = whole ++ Utf8.decodeFrom opened rest := by
    rw [← hcut rest, hsplit]
    exact (Utf8.decodeLossy_encode _).symm
  have hfront : Utf8.decodeLossy front = whole ++ Utf8.decodeFrom opened [] := by
    rw [← hcut [], List.append_nil]
    rfl
  cases opened with
  | none =>
    rw [hfront, Utf8.decodeFrom, List.append_nil]
    exact not_document_of_front hprinted htext (Utf8.decodeFrom_ne_nil (Or.inr hrest))
  | some sequence =>
    rw [hfront, Utf8.decodeFrom, JsonScan.Document, JsonScan.scan_append]
    intro hdone
    obtain ⟨place, -, hplace⟩ := Option.bind_eq_some_iff.mp hdone
    rw [JsonScan.scan_cons] at hplace
    obtain ⟨last, hnext, hend⟩ := Option.bind_eq_some_iff.mp hplace
    rw [JsonScan.scan_nil] at hend
    rw [Option.some.inj hend] at hnext
    exact next_replacement place hnext

/-! ## The ids -/

theorem SessionId.len_le (id : SessionId) : Text.len id.text ≤ 128 := by
  have hascii : ∀ cs : List Char, (∀ c ∈ cs, 0x20 ≤ c.toNat ∧ c.toNat ≤ 0x7E) →
      String.utf8Len cs = cs.length := by
    intro cs hcs
    induction cs with
    | nil => rfl
    | cons c cs ih =>
      have hc := hcs c List.mem_cons_self
      have hone : c.utf8Size = 1 := by
        rw [Char.utf8Size_eq_one_iff, UInt32.le_iff_toNat_le]
        exact hc.2.trans (by decide)
      rw [String.utf8Len_cons, hone, ih fun d hd => hcs d (List.mem_cons_of_mem c hd)]
      rfl
  rw [Text.len, ← String.utf8Len_toList, hascii _ id.printable]
  exact id.bounded

/-- An id of printable ASCII characters is taken as it is. -/
theorem SessionId.clean (id : SessionId) : shieldTenant id.text = some id.text := by
  apply shieldTenant_eq_some_iff.mpr
  refine ⟨id.trimmed, id.nonempty, id.len_le, fun c hc => ?_⟩
  have hbounds := id.printable c hc
  simp only [Text.isControl, Bool.or_eq_false_iff, Bool.and_eq_false_iff,
    decide_eq_false_iff_not]
  omega

theorem cleanSessionIds_texts (ids : List SessionId) :
    AgentToServer.cleanSessionIds ((ids.map (·.text)).map Value.string) = ids.map (·.text) := by
  induction ids with
  | nil => rfl
  | cons id ids ih =>
    obtain ⟨htrim, hne, hlen, hplain⟩ := shieldTenant_eq_some_iff.mp id.clean
    have hempty : id.text.isEmpty = false := by
      rw [Bool.eq_false_iff, Ne, String.isEmpty_iff]
      intro hempty
      rw [hempty] at hne
      exact hne rfl
    have hall : (id.text.toList.all fun c => !Text.isControl c) = true := by
      rw [List.all_eq_true]
      intro c hc
      rw [hplain c hc]
      rfl
    unfold AgentToServer.cleanSessionIds at ih ⊢
    simp only [List.map_cons, List.filterMap_cons, Value.asStr, htrim, List.filter_cons, hempty,
      decide_eq_true hlen, hall, Bool.not_false, Bool.and_self, if_true, ih]

/-- The proxy that knows these ids reports them. -/
theorem isSessionRevoked_iff {p : AgentToServer.Proxy} {ids : List SessionId}
    (hp : p.revokedSessions = ids.map (·.text)) (s : String) :
    AgentToServer.isSessionRevoked p s = true ↔ ∃ id ∈ ids, id.text = Text.trim s := by
  have hmem : p.revokedSessions.contains (Text.trim s) = true ↔
      ∃ id ∈ ids, id.text = Text.trim s := by
    rw [hp, List.contains_iff_mem, List.mem_map]
  unfold AgentToServer.isSessionRevoked
  dsimp only
  split_ifs with hbounds
  · constructor
    · exact fun h => h.elim
    · rintro ⟨id, -, hid⟩
      obtain ⟨-, hne, hlen, -⟩ := shieldTenant_eq_some_iff.mp id.clean
      rw [hid] at hne hlen
      rw [Bool.or_eq_true, decide_eq_true_eq, String.isEmpty_iff] at hbounds
      rcases hbounds with hempty | hlong
      · rw [hempty] at hne
        exact absurd rfl hne
      · exact absurd hlong (Nat.not_lt.mpr hlen)
  · exact hmem

section
variable {isPrintable : CodePoint → Bool}

/-- The ASCII characters that the dashboard calls printable are. -/
def PrintsAscii (isPrintable : CodePoint → Bool) : Prop :=
  ∀ c : Char, 0x20 ≤ c.toNat → c.toNat ≤ 0x7E → isPrintable (point c) = true

theorem cleanId_sessionId (hascii : PrintsAscii isPrintable) (id : SessionId) :
    cleanId isPrintable (.str (.ofString id.text)) = .ok (some (.ofString id.text)) := by
  rw [cleanId_of_shieldTenant id.clean, if_neg]
  rintro ⟨c, hc, hfalse⟩
  obtain ⟨hlow, hhigh⟩ := id.printable c hc
  rw [hascii c hlow hhigh] at hfalse
  cases hfalse

theorem cleanIds_texts (hascii : PrintsAscii isPrintable) (ids : List SessionId) :
    cleanIds isPrintable (((ids.map (·.text)).map Value.string).map pyValue) =
      .ok (ids.map fun id => .ofString id.text) := by
  induction ids with
  | nil => rfl
  | cons id ids ih =>
    simp only [List.map_cons, cleanIds, pyValue, cleanId_sessionId hascii id, ih, bind,
      Except.bind]
    rfl

/-- The registry that holds these ids reports them. -/
theorem isRevoked_iff {registry : RevokedSessionRegistry} {ids : List SessionId}
    (hregistry : ∀ t, t ∈ registry.sessions ↔ ∃ id ∈ ids, PyString.ofString id.text = t)
    (v : PyValue) : RevokedSessionRegistry.isRevoked isPrintable registry v = .ok true ↔
      ∃ id ∈ ids, cleanId isPrintable v = .ok (some (.ofString id.text)) := by
  unfold RevokedSessionRegistry.isRevoked
  cases hclean : cleanId isPrintable v with
  | error e => simp [bind, Except.bind]
  | ok cleaned =>
    cases cleaned with
    | none => simp [bind, Except.bind]
    | some text =>
      simp only [bind, Except.bind, Except.ok.injEq, Option.some.injEq, List.contains_iff_mem,
        hregistry]
      exact exists_congr fun id => and_congr_right fun _ => eq_comm

end

/-! ## After an answer -/

section
variable {cfg : AgentToServer.Config} {loads : List Char → Option Value}
  {isPrintable : CodePoint → Bool} {answer : Answer} {revoked : List SessionId}

/-- A reader finds the list in a whole body, and none in what is left of another. -/
theorem ObjectReader.whole {read : List Char → Option Value} (hread : ObjectReader read)
    (answer : Answer) (revoked : List SessionId) :
    (read (Value.object (answer.members revoked)).text).bind (·.get "revoked_sessions") =
      some (strings ((answer.listed revoked).map (·.text))) := by
  obtain ⟨v, hv, hget⟩ := hread.object _ "revoked_sessions" _ (members_printed answer revoked)
    (members_shallow answer revoked) (members_lookup answer revoked)
  rw [hv, Option.bind_some, hget]

theorem ObjectReader.none_of_not_document {read : List Char → Option Value}
    (hread : ObjectReader read) {cs : List Char} (hcs : ¬ JsonScan.Document cs) (key : String) :
    (read cs).bind (·.get key) = none := by
  rw [Option.bind_eq_none_iff]
  intro v hv
  rw [← Option.not_isSome_iff_eq_none]
  exact fun hsome => hcs (hread.document cs v key hv hsome)

theorem observe_whole (hserde : ObjectReader fun cs => cfg.fromStr (String.ofList cs))
    {chunks : List (List UInt8)} (hchunks : chunks.flatten = answer.body revoked)
    (hfits : (answer.body revoked).length ≤ maxResponseBytes) (p : AgentToServer.Proxy) :
    (AgentToServer.observeRevokedSessions cfg (readBoundedResponse chunks) p).revokedSessions =
      (answer.listed revoked).map (·.text) := by
  have hspec := @readChunks_spec [] (Nat.zero_le _) chunks
  rw [List.nil_append, hchunks, if_pos hfits] at hspec
  have hbody : readBoundedResponse chunks =
      String.ofList (Value.object (answer.members revoked)).text := by
    rw [readBoundedResponse, hspec, Answer.body, Utf8.decodeLossy_encode]
  have hget := hserde.whole answer revoked
  unfold AgentToServer.observeRevokedSessions
  rw [hbody]
  rw [hget]
  exact cleanSessionIds_texts _

theorem observe_cut (hserde : ObjectReader fun cs => cfg.fromStr (String.ofList cs))
    {chunks : List (List UInt8)} (hchunks : chunks.flatten = answer.body revoked)
    (hover : ¬ (answer.body revoked).length ≤ maxResponseBytes) (p : AgentToServer.Proxy) :
    AgentToServer.observeRevokedSessions cfg (readBoundedResponse chunks) p = p := by
  have hspec := @readChunks_spec [] (Nat.zero_le _) chunks
  rw [List.nil_append, hchunks, if_neg hover] at hspec
  obtain ⟨rest, hrest, hsplit⟩ := hspec
  have hcut := not_document_of_cut (members_printed answer revoked) hsplit hrest
  have hget := hserde.none_of_not_document hcut "revoked_sessions"
  unfold AgentToServer.observeRevokedSessions readBoundedResponse
  rw [hget]
  rfl

theorem refresh_whole (hloads : ObjectReader loads) (hascii : PrintsAscii isPrintable)
    (hfits : (answer.body revoked).length ≤ maxResponseBytes)
    (registry : RevokedSessionRegistry) (t : PyString) :
    t ∈ (refresh loads isPrintable registry (answer.body revoked)).sessions ↔
      ∃ id ∈ answer.listed revoked, PyString.ofString id.text = t := by
  have hget := hloads.whole answer revoked
  unfold refresh updateRevokedSessionsFromIngest
  rw [List.take_of_length_le hfits, Answer.body, Utf8.decode_encode, Option.bind_some, hget]
  simp only [strings, RevokedSessionRegistry.replace, cleanIds_texts hascii, bind, Except.bind,
    Except.map, List.mem_dedup, List.mem_map]

theorem refresh_cut (hloads : ObjectReader loads)
    (hover : ¬ (answer.body revoked).length ≤ maxResponseBytes)
    (registry : RevokedSessionRegistry) :
    refresh loads isPrintable registry (answer.body revoked) = registry := by
  have hrest : (answer.body revoked).drop maxResponseBytes ≠ [] := by
    rw [Ne, List.drop_eq_nil_iff]
    exact hover
  have hcut := not_document_of_cut (members_printed answer revoked)
    (List.take_append_drop maxResponseBytes (answer.body revoked)) hrest
  have hget : ((Utf8.decode ((answer.body revoked).take maxResponseBytes)).bind loads).bind
      (·.get "revoked_sessions") = none := by
    cases hdecode : Utf8.decode ((answer.body revoked).take maxResponseBytes) with
    | none => rfl
    | some cs =>
      rw [Utf8.decodeLossy_of_decode hdecode] at hcut
      exact hloads.none_of_not_document hcut _
  unfold refresh updateRevokedSessionsFromIngest
  rw [hget]

theorem listed_eq (hcomplete : answer.Complete revoked) :
    answer.listed revoked = revoked.eraseDups := by
  cases answer with
  | poll tenantId generatedAtMs => rfl
  | ingest accepted duplicates eventIds evaluated =>
    rcases hcomplete with hevaluated | hnone
    · rw [Answer.listed, if_pos hevaluated]
    · rw [hnone]
      cases evaluated <;> rfl

theorem listed_nil (hincomplete : ¬ answer.Complete revoked) :
    answer.listed revoked = [] ∧ revoked ≠ [] := by
  cases answer with
  | poll tenantId generatedAtMs => exact absurd trivial hincomplete
  | ingest accepted duplicates eventIds evaluated =>
    obtain ⟨hevaluated, hnone⟩ := not_or.mp hincomplete
    exact ⟨if_neg hevaluated, hnone⟩

theorem shieldReports_iff {p : AgentToServer.Proxy}
    (hp : p.revokedSessions = (answer.listed revoked).map (·.text)) :
    ShieldReports p revoked ↔ answer.Complete revoked := by
  constructor
  · intro hreports
    by_contra hincomplete
    obtain ⟨hnil, hne⟩ := listed_nil hincomplete
    obtain ⟨id, hid⟩ := List.exists_mem_of_ne_nil revoked hne
    have hrevoked := (hreports id.text).mpr ⟨id, hid, id.trimmed.symm⟩
    obtain ⟨other, hother, -⟩ := (isSessionRevoked_iff hp id.text).mp hrevoked
    rw [hnil] at hother
    cases hother
  · intro hcomplete s
    rw [isSessionRevoked_iff hp, listed_eq hcomplete]
    simp only [List.mem_eraseDups]

theorem registryReports_iff (hascii : PrintsAscii isPrintable)
    {registry : RevokedSessionRegistry} (hregistry : ∀ t, t ∈ registry.sessions ↔
      ∃ id ∈ answer.listed revoked, PyString.ofString id.text = t) :
    RegistryReports isPrintable registry revoked ↔ answer.Complete revoked := by
  constructor
  · intro hreports
    by_contra hincomplete
    obtain ⟨hnil, hne⟩ := listed_nil hincomplete
    obtain ⟨id, hid⟩ := List.exists_mem_of_ne_nil revoked hne
    have hrevoked := (hreports (.str (.ofString id.text))).mpr
      ⟨id, hid, cleanId_sessionId hascii id⟩
    obtain ⟨other, hother, -⟩ := (isRevoked_iff hregistry _).mp hrevoked
    rw [hnil] at hother
    cases hother
  · intro hcomplete v
    rw [isRevoked_iff hregistry, listed_eq hcomplete]
    simp only [List.mem_eraseDups]

/-- A body that fits is adopted, and names the revoked sessions unless the circuit breaker
failed; another leaves each reader with what it knew. -/
theorem snapshot_adopted_iff (hserde : ObjectReader fun cs => cfg.fromStr (String.ofList cs))
    (hloads : ObjectReader loads) (hascii : PrintsAscii isPrintable)
    {chunks : List (List UInt8)} (hchunks : chunks.flatten = answer.body revoked)
    (p : AgentToServer.Proxy) (registry : RevokedSessionRegistry) :
    (ShieldReports (AgentToServer.observeRevokedSessions cfg (readBoundedResponse chunks) p)
        revoked ↔
      if answer.Fits revoked then answer.Complete revoked else ShieldReports p revoked) ∧
    (RegistryReports isPrintable (refresh loads isPrintable registry (answer.body revoked))
        revoked ↔
      if answer.Fits revoked then answer.Complete revoked
      else RegistryReports isPrintable registry revoked) := by
  by_cases hfits : answer.Fits revoked
  · rw [if_pos hfits, if_pos hfits]
    exact ⟨shieldReports_iff (observe_whole hserde hchunks hfits p),
      registryReports_iff hascii (refresh_whole hloads hascii hfits registry)⟩
  · rw [if_neg hfits, if_neg hfits, observe_cut hserde hchunks hfits,
      refresh_cut hloads hfits]
    exact ⟨Iff.rfl, Iff.rfl⟩

end

/-! ## Many sessions -/

theorem length_le_quoted (cs : List Char) : cs.length + 2 ≤ (Value.quoted cs).length := by
  have hescaped : cs.length ≤ (cs.flatMap Value.escapeChar).length := by
    induction cs with
    | nil => exact Nat.le_refl 0
    | cons c cs ih =>
      have hne : Value.escapeChar c ≠ [] := by
        unfold Value.escapeChar
        split_ifs <;> exact List.cons_ne_nil _ _
      have hpos := List.length_pos_of_ne_nil hne
      rw [List.flatMap_cons, List.length_append, List.length_cons]
      omega
  rw [Value.quoted, List.length_cons, List.length_append, List.length_singleton]
  omega

theorem itemsText_cons_cons (v w : Value) (items : List Value) :
    Value.itemsText (v :: w :: items) = v.text ++ ',' :: Value.itemsText (w :: items) := by
  simp only [Value.itemsText]

theorem length_le_itemsText {texts : List String} {n : ℕ}
    (htexts : ∀ text ∈ texts, n ≤ text.toList.length) :
    texts.length * (n + 2) ≤ (Value.itemsText (texts.map Value.string)).length := by
  induction texts with
  | nil =>
    rw [List.length_nil, Nat.zero_mul]
    exact Nat.zero_le _
  | cons text texts ih =>
    have htext := htexts text List.mem_cons_self
    have hquoted := length_le_quoted text.toList
    have hrest := ih fun other hother => htexts other (List.mem_cons_of_mem text hother)
    have hitems : (Value.text (.string text)).length +
        (Value.itemsText (texts.map Value.string)).length ≤
          (Value.itemsText ((text :: texts).map Value.string)).length := by
      cases texts with
      | nil => exact Nat.le_refl _
      | cons next texts =>
        simp only [List.map_cons, itemsText_cons_cons, List.length_append, List.length_cons]
        omega
    rw [Value.text] at hitems
    rw [List.length_cons, Nat.succ_mul]
    omega

theorem length_le_encode (cs : List Char) : cs.length ≤ (Utf8.encode cs).length := by
  induction cs with
  | nil => exact Nat.le_refl 0
  | cons c cs ih =>
    have hpos := c.utf8Size_pos
    rw [Utf8.length_encode_cons, List.length_cons]
    omega

/-- More than 504 ids of the greatest length are too many for a poll. -/
theorem poll_not_fits {revoked : List SessionId} (tenantId : String)
    (generatedAtMs : Fin (2 ^ 53)) (hmany : 504 < revoked.eraseDups.length)
    (hlong : ∀ id ∈ revoked, id.text.toList.length = 128) :
    ¬ (Answer.poll tenantId generatedAtMs).Fits revoked := by
  have hitems := @length_le_itemsText (revoked.eraseDups.map (·.text)) 128 (by
    intro text htext
    obtain ⟨id, hid, rfl⟩ := List.mem_map.mp htext
    exact (hlong id (List.mem_eraseDups.mp hid)).ge)
  have hbody := length_le_encode
    (Value.object ((Answer.poll tenantId generatedAtMs).members revoked)).text
  rw [List.length_map] at hitems
  unfold Answer.Fits Answer.body maxResponseBytes
  simp only [Answer.members, Answer.listed, strings, Value.text, Value.membersText,
    List.length_cons, List.length_append] at hbody ⊢
  omega

/-! A reader of what is printed, and 512 sessions. -/

open Classical in
/-- Finds the object a text is printed from. -/
noncomputable def printedReader (cs : List Char) : Option Value :=
  if h : ∃ members, (Value.object members).Printed ∧ (Value.object members).text = cs then
    some (.object h.choose)
  else none

theorem objectReader_printedReader : ObjectReader printedReader where
  object members key texts hprinted _ hlookup := by
    have hexists : ∃ others, (Value.object others).Printed ∧
        (Value.object others).text = (Value.object members).text := ⟨members, hprinted, rfl⟩
    obtain ⟨hchosen, htext⟩ := hexists.choose_spec
    have hsame : Value.object hexists.choose = .object members := by
      apply Value.toString_injective hchosen hprinted
      rw [← String.toList_inj, Value.toList_toString, Value.toList_toString, htext]
    refine ⟨.object members, ?_, hlookup⟩
    rw [printedReader, dif_pos hexists, hsame]
  document cs v key hread _ := by
    unfold printedReader at hread
    split_ifs at hread with h
    obtain ⟨hchosen, htext⟩ := h.choose_spec
    rw [← htext]
    exact Value.document_object hchosen

noncomputable def printedConfig : AgentToServer.Config where
  mode := .enforce
  boundary := none
  monolithSessionId := none
  unicode := Text.asciiOnly
  parse := fun _ => none
  fromStr := fun body => printedReader body.toList

theorem objectReader_printedConfig :
    ObjectReader fun cs => printedConfig.fromStr (String.ofList cs) := by
  have hread : (fun cs => printedConfig.fromStr (String.ofList cs)) = printedReader := by
    funext cs
    exact congrArg printedReader String.toList_ofList
  rw [hread]
  exact objectReader_printedReader

theorem printsAscii_asciiPrintable : PrintsAscii asciiPrintable := by
  intro c hlow hhigh
  rw [asciiPrintable, Bool.and_eq_true, decide_eq_true_eq, decide_eq_true_eq, val_point]
  exact ⟨hlow, Nat.lt_succ_of_le hhigh⟩

/-- The session that `n` names; below 4096 each names another. -/
def sessionText (n : ℕ) : List Char :=
  List.replicate 126 'a' ++ [Char.ofNat (0x21 + n / 64 % 64), Char.ofNat (0x21 + n % 64)]

theorem toNat_place (n : ℕ) : (Char.ofNat (0x21 + n % 64)).toNat = 0x21 + n % 64 := by
  rw [Char.toNat_ofNat, if_pos]
  unfold Nat.isValidChar
  omega

theorem sessionText_printable (n : ℕ) :
    ∀ c ∈ sessionText n, 0x20 < c.toNat ∧ c.toNat ≤ 0x7E := by
  intro c hc
  rcases List.mem_append.mp hc with hc | hc
  · rw [List.eq_of_mem_replicate hc]
    decide
  · rcases List.mem_cons.mp hc with rfl | hc
    · rw [toNat_place]
      omega
    · rw [List.mem_singleton.mp hc, toNat_place]
      omega

theorem length_sessionText (n : ℕ) : (sessionText n).length = 128 := by
  rw [sessionText, List.length_append, List.length_replicate]
  rfl

def numberedSession (n : ℕ) : SessionId where
  text := String.ofList (sessionText n)
  nonempty := by
    rw [String.toList_ofList]
    exact List.ne_nil_of_length_pos (by rw [length_sessionText]; decide)
  bounded := by rw [String.toList_ofList, length_sessionText]
  printable := by
    rw [String.toList_ofList]
    exact fun c hc => ⟨(sessionText_printable n c hc).1.le, (sessionText_printable n c hc).2⟩
  trimmed := by
    have hplain : ∀ c ∈ sessionText n, Text.isWhitespace c = false := by
      intro c hc
      have hbounds := sessionText_printable n c hc
      simp only [Text.isWhitespace, Bool.or_eq_false_iff, Bool.and_eq_false_iff,
        decide_eq_false_iff_not, beq_eq_false_iff_ne]
      omega
    have htrim : Text.trimList (sessionText n) = sessionText n := trimBoth_eq_self_iff.mpr
      ⟨fun c hc => hplain c (List.mem_of_mem_head? hc),
        fun c hc => hplain c (List.mem_of_mem_getLast? hc)⟩
    rw [Text.trim, String.toList_ofList, htrim]

def manySessions : List SessionId := (List.range 512).map numberedSession

theorem manySessions_nodup : manySessions.Nodup := by
  apply List.Nodup.map_on _ List.nodup_range
  intro n hn m hm h
  have htext : sessionText n = sessionText m := by
    have hlist := congrArg (fun id => id.text.toList) h
    simpa only [numberedSession, String.toList_ofList] using hlist
  obtain ⟨hhigh, hrest⟩ := List.cons.inj (List.append_cancel_left htext)
  have hlow := (List.cons.inj hrest).1
  have hhigh' := congrArg Char.toNat hhigh
  have hlow' := congrArg Char.toNat hlow
  rw [toNat_place, toNat_place] at hhigh' hlow'
  rw [List.mem_range] at hn hm
  omega

theorem manySessions_not_fits :
    ¬ (Answer.poll "acme" 1).Fits manySessions := by
  apply poll_not_fits
  · rw [eraseDups_of_nodup manySessions_nodup, manySessions, List.length_map, List.length_range]
    decide
  · intro id hid
    obtain ⟨n, -, rfl⟩ := List.mem_map.mp hid
    rw [numberedSession, String.toList_ofList, length_sessionText]

/-- A few sessions do reach the readers. -/
theorem snapshot_adopted_iff_one :
    ShieldReports (AgentToServer.observeRevokedSessions printedConfig (readBoundedResponse
        [(Answer.poll "acme" 1).body [numberedSession 0]]) ⟨[], [], [], []⟩)
      [numberedSession 0] ∧
    RegistryReports asciiPrintable (refresh printedReader asciiPrintable ⟨[]⟩
      ((Answer.poll "acme" 1).body [numberedSession 0])) [numberedSession 0] := by
  have hfits : (Answer.poll "acme" 1).Fits [numberedSession 0] := by decide +kernel
  obtain ⟨hshield, hregistry⟩ := @snapshot_adopted_iff printedConfig printedReader asciiPrintable
    (.poll "acme" 1) [numberedSession 0] objectReader_printedConfig objectReader_printedReader
    printsAscii_asciiPrintable [(Answer.poll "acme" 1).body [numberedSession 0]]
    List.flatten_singleton ⟨[], [], [], []⟩ ⟨[]⟩
  rw [if_pos hfits] at hshield hregistry
  exact ⟨hshield.mpr trivial, hregistry.mpr trivial⟩

/-- Readers that know no session learn none of 512, and a failure of the circuit breaker
lifts the revocation of one. -/
theorem large_snapshot_not_adopted :
    (¬ ShieldReports (AgentToServer.observeRevokedSessions printedConfig (readBoundedResponse
        [(Answer.poll "acme" 1).body manySessions]) ⟨[], [], [], []⟩) manySessions ∧
      ¬ RegistryReports asciiPrintable (refresh printedReader asciiPrintable ⟨[]⟩
        ((Answer.poll "acme" 1).body manySessions)) manySessions) ∧
    (Answer.ingest 1 0 [] false).listed [numberedSession 0] = [] ∧
    ¬ ShieldReports (AgentToServer.observeRevokedSessions printedConfig (readBoundedResponse
        [(Answer.ingest 1 0 [] false).body [numberedSession 0]])
          ⟨[], [], [], [(numberedSession 0).text]⟩) [numberedSession 0] := by
  have hfirst : numberedSession 0 ∈ manySessions :=
    List.mem_map.mpr ⟨0, List.mem_range.mpr (by decide), rfl⟩
  refine ⟨⟨?_, ?_⟩, rfl, ?_⟩
  · rw [observe_cut objectReader_printedConfig List.flatten_singleton manySessions_not_fits]
    intro hreports
    have hrevoked := (hreports (numberedSession 0).text).mpr
      ⟨numberedSession 0, hfirst, (numberedSession 0).trimmed.symm⟩
    obtain ⟨other, hother, -⟩ := (@isSessionRevoked_iff _ [] rfl _).mp hrevoked
    cases hother
  · rw [refresh_cut objectReader_printedReader manySessions_not_fits]
    intro hreports
    have hrevoked := (hreports (.str (.ofString (numberedSession 0).text))).mpr
      ⟨numberedSession 0, hfirst, cleanId_sessionId printsAscii_asciiPrintable _⟩
    rw [RevokedSessionRegistry.isRevoked, cleanId_sessionId printsAscii_asciiPrintable] at hrevoked
    cases hrevoked
  · have hfits : (Answer.ingest 1 0 [] false).Fits [numberedSession 0] := by decide
    rw [shieldReports_iff (observe_whole objectReader_printedConfig List.flatten_singleton hfits _)]
    rintro (hevaluated | hnone)
    · cases hevaluated
    · cases hnone

end BlackMonolith.RevocationSnapshot
