import BlackMonolith.AgentToServer
import BlackMonolith.Dashboard.EventStore
import BlackMonolith.Library.Utf16
import BlackMonolith.MonolithEvents.RevokedSessions
import BlackMonolith.ShieldEvents

/-!
# One session id in three languages

MCP-Shield stamps an id that has at most 128 characters; the dashboard trims it
once more and counts UTF-16 units; the outbox and the proxy count bytes. An id is
portable when these agree, and then a revocation reaches the session it names.
-/
namespace BlackMonolith.SessionAgreement
open Json Library ShieldEvents

/-- The byte order mark, which only JavaScript trims. -/
def byteOrderMark : Char := Char.ofNat 0xFEFF

structure Portable (id : String) : Prop where
  bounded : Text.len id ≤ 128
  front : id.toList.head? ≠ some byteOrderMark
  back : id.toList.getLast? ≠ some byteOrderMark

/-- An event that the dashboard takes without a session is taken with the session
`s`, filed under `id` and otherwise the same; a text column holds that id too. -/
def FiledUnder (s id : String) : Prop :=
  ∀ (readNumber : Number → JsNumber) (env : Environment) (e : JsonRpc.Event) (eventId : String)
    (clock : ℕ) (traceId : Option String) (now : ℕ) (randomUUID : JsString)
    (event : Dashboard.MonolithEvent),
    Dashboard.normalizeEvent now randomUUID
      ((buildShieldEvent (identity { env with sessionId := none }) eventId clock e traceId).toJs
        readNumber) = .ok event →
    ∃ session : Dashboard.Identity, session.text = .ofString id ∧ session.toWellFormed = session ∧
      Dashboard.normalizeEvent now randomUUID
        ((buildShieldEvent (identity { env with sessionId := some s }) eventId clock e traceId).toJs
          readNumber) = .ok { event with sessionId := some session }

/-- After a snapshot that names `id`, the proxy of the session `s` finds it revoked. -/
def ReportedRevoked (s id : String) : Prop :=
  ∀ (cfg : AgentToServer.Config) (body : String) (ids : List Value) (p : AgentToServer.Proxy),
    cfg.monolithSessionId = some s →
    ((cfg.fromStr body).bind (·.get "revoked_sessions")).bind Value.asArray = some ids →
    .string id ∈ ids →
    id ∈ (AgentToServer.observeRevokedSessions cfg body p).revokedSessions ∧
      AgentToServer.isSessionRevoked (AgentToServer.observeRevokedSessions cfg body p) s ∧
      (AgentToServer.configuredSessionId cfg).filter (AgentToServer.isSessionRevoked
        (AgentToServer.observeRevokedSessions cfg body p)) = some id

/-- The Python registry adopts the snapshot and matches what was stamped as `id`. -/
def RegistryMatches (isPrintable : CodePoint → Bool) (v : MonolithEvents.PyValue) (id : PyString)
    (items : List MonolithEvents.PyValue) : Prop :=
  ∃ count registry,
    MonolithEvents.RevokedSessionRegistry.replace isPrintable items = .ok (count, registry) ∧
      id ∈ registry.sessions ∧
      MonolithEvents.RevokedSessionRegistry.isRevoked isPrintable registry v = .ok true

section
variable {s id : String}

/-- JavaScript trims what Rust trims but U+0085, and U+FEFF. -/
theorem isSpace_eq (c : Char) : JsString.isSpace c.toNat =
    ((Text.isWhitespace c && c.toNat != 0x85) || c.toNat == 0xFEFF) := by
  rw [Bool.eq_iff_iff]
  simp only [JsString.isSpace, Text.isWhitespace, Bool.or_eq_true, Bool.and_eq_true,
    decide_eq_true_eq, beq_iff_eq, bne_iff_ne]
  omega

theorem isSpace_of_not_isWhitespace {c : Char} (h : Text.isWhitespace c = false) :
    JsString.isSpace c.toNat = false ↔ c ≠ byteOrderMark := by
  have hmark : c = byteOrderMark ↔ c.toNat = 0xFEFF := by
    constructor
    · rintro rfl
      decide
    · intro hc
      rw [← Char.ofNat_toNat c, hc, byteOrderMark]
  rw [isSpace_eq, h, Bool.false_and, Bool.false_or, beq_eq_false_iff_ne, Ne, Ne, hmark]

/-- A stamped id is trimmed for JavaScript too when no byte order mark ends it. -/
theorem trim_ofString_stamped_iff (hid : cleanId s = some id) :
    (JsString.ofString id).trim = .ofString id ↔
      id.toList.head? ≠ some byteOrderMark ∧ id.toList.getLast? ≠ some byteOrderMark := by
  obtain ⟨htrim, -, -, -⟩ := cleanId_eq_some_iff.mp hid
  have hself : trimBoth Text.isWhitespace id.toList = id.toList := by
    rw [← htrim, Text.trim, String.toList_ofList]
    exact Text.trimList_trimList s.toList
  obtain ⟨hfront, hback⟩ := trimBoth_eq_self_iff.mp hself
  rw [JsString.trim_ofString_iff]
  apply and_congr
  · cases hhead : id.toList.head? with
    | none =>
        simp only [Option.mem_def, reduceCtorEq, false_implies, implies_true, ne_eq,
          not_false_eq_true]
    | some c =>
        simp only [Option.mem_some_iff, forall_eq', ne_eq, Option.some.injEq,
          isSpace_of_not_isWhitespace (hfront c hhead)]
  · cases hlast : id.toList.getLast? with
    | none =>
        simp only [Option.mem_def, reduceCtorEq, false_implies, implies_true, ne_eq,
          not_false_eq_true]
    | some c =>
        simp only [Option.mem_some_iff, forall_eq', ne_eq, Option.some.injEq,
          isSpace_of_not_isWhitespace (hback c hlast)]

/-- A character that Rust does not call a control character has no unit that
the dashboard calls one. -/
theorem isControl_of_mem {c : Char} {u : UInt16} (hc : Text.isControl c = false)
    (hu : u ∈ JsString.encodeUtf16 c) : Dashboard.isControl u = false := by
  simp only [Text.isControl, Bool.or_eq_false_iff, Bool.and_eq_false_iff,
    decide_eq_false_iff_not] at hc
  have hcontrol : Dashboard.isControl u = (decide (u.toNat < 0x20) || u.toNat == 0x7F) := by
    simp only [Dashboard.isControl, UInt16.lt_iff_toNat_lt, ← UInt16.toNat_inj, beq_eq_decide]
    rfl
  rw [hcontrol, Bool.or_eq_false_iff, decide_eq_false_iff_not, beq_eq_false_iff_ne]
  cases JsString.mem_encodeUtf16 hu with
  | inl h => omega
  | inr h => omega

/-! ## The dashboard -/

theorem identityText_stamped (hid : cleanId s = some id) (h : Portable id) :
    ∃ session : Dashboard.Identity, session.text = .ofString id ∧
      Dashboard.identityText "session_id" (some (.string (.ofString id))) = .ok (some session) := by
  obtain ⟨-, hne, -, hcontrol⟩ := cleanId_eq_some_iff.mp hid
  have htrim := (trim_ofString_stamped_iff hid).mpr ⟨h.front, h.back⟩
  have hlen : (JsString.ofString id).length ≤ Dashboard.maxIdLength :=
    Nat.le_trans (JsString.length_ofString_le id) h.bounded
  have hprintable : ((JsString.ofString id).units.all fun u => !Dashboard.isControl u) = true := by
    rw [List.all_eq_true]
    intro u hu
    obtain ⟨c, hc, hmem⟩ := List.mem_flatMap.mp hu
    rw [isControl_of_mem (hcontrol c hc) hmem]
    rfl
  have hunits : (JsString.ofString id).units ≠ [] := mt JsString.ofString_units_eq_nil.mp hne
  refine ⟨⟨.ofString id, htrim, hunits, hlen, hprintable⟩, rfl, ?_⟩
  simp only [Dashboard.identityText]
  rw [dif_pos (by rw [htrim]; exact ⟨hunits, hlen, hprintable⟩)]
  simp only [htrim]

theorem filedUnder_of_portable (hid : cleanId s = some id) (h : Portable id) :
    FiledUnder s id := by
  obtain ⟨session, htext, hsession⟩ := identityText_stamped hid h
  intro readNumber env e eventId clock traceId now randomUUID event hbare
  have hwell : session.toWellFormed = session := by
    apply Dashboard.Identity.ext_text
    show session.text.toWellFormed = session.text
    rw [htext, JsString.toWellFormed_ofString]
  refine ⟨session, htext, hwell, ?_⟩
  obtain ⟨value, hvalue, hreads⟩ := Dashboard.normalizeEvent_eq_ok_iff.mp hbare
  cases hvalue
  apply Dashboard.normalizeEvent_eq_ok_iff.mpr
  refine ⟨_, rfl, hreads.withSession ?_ ?_⟩
  · intro name hname
    simp only [buildShieldEvent, identity_session_none, identity_session_some, hid,
      optionalField_none, optionalField_some, List.append_nil]
    exact JsValue.get_insert_ne hname _
  · simp only [buildShieldEvent, identity_session_some, hid, optionalField_some]
    rw [JsValue.get_insert_self (get_session_leadingMembers readNumber _)]
    exact hsession

/-- The least that MCP-Shield emits, which the dashboard takes without a session. -/
def leastEvent (env : Environment) : ShieldEvent :=
  buildShieldEvent (identity env) "00000000-0000-4000-8000-000000000000" 1
    ⟨"baseline_registered", .info, .object []⟩ none

def keepText (n : Number) : JsNumber := .other n.text

theorem normalizeEvent_leastEvent : ∃ event, Dashboard.normalizeEvent 1 ⟨[]⟩
    ((leastEvent { (⟨none, none, none⟩ : Environment) with sessionId := none }).toJs keepText) =
      .ok event := by
  apply exists_ok_of_isSome
  decide

theorem trim_of_filedUnder (h : FiledUnder s id) :
    (JsString.ofString id).trim = .ofString id := by
  obtain ⟨event, hevent⟩ := normalizeEvent_leastEvent
  obtain ⟨session, htext, -, -⟩ := h keepText ⟨none, none, none⟩
    ⟨"baseline_registered", .info, .object []⟩ "00000000-0000-4000-8000-000000000000" 1 none 1 ⟨[]⟩
    event hevent
  rw [← htext]
  exact session.trimmed

/-! ## The outbox and the proxy -/

theorem reportedRevoked_of_bounded (hid : cleanId s = some id) (h : Text.len id ≤ 128) :
    ReportedRevoked s id := by
  obtain ⟨htrim, hne, -, hcontrol⟩ := cleanId_eq_some_iff.mp hid
  have hself : Text.trim id = id := by rw [← htrim, Text.trim_trim]
  have hempty : id.isEmpty = false := by
    apply Bool.eq_false_iff.mpr
    intro hempty
    rw [String.isEmpty_iff.mp hempty] at hne
    exact hne rfl
  have hclean : (!id.isEmpty && Text.len id ≤ 128 && id.toList.all fun c => !Text.isControl c) =
      true := by
    rw [hempty, decide_eq_true h, Bool.not_false, Bool.true_and, Bool.true_and, List.all_eq_true]
    intro c hc
    rw [hcontrol c hc]
    rfl
  intro cfg body ids p hsession hids hmem
  have hobserve : AgentToServer.observeRevokedSessions cfg body p =
      { p with revokedSessions := AgentToServer.cleanSessionIds ids } := by
    simp only [AgentToServer.observeRevokedSessions, hids]
  have hadopted : id ∈ AgentToServer.cleanSessionIds ids := by
    refine List.mem_filter.mpr ⟨List.mem_map.mpr ⟨id, ?_, hself⟩, hclean⟩
    exact List.mem_filterMap.mpr ⟨.string id, hmem, rfl⟩
  have hconfigured : AgentToServer.configuredSessionId cfg = some id := by
    simp only [AgentToServer.configuredSessionId, hsession, Option.map_some, htrim,
      Option.filter_some, hempty, Bool.not_false, Bool.true_and, decide_eq_true h, if_true]
  have hrevoked : ∀ t, Text.trim t = id →
      AgentToServer.isSessionRevoked (AgentToServer.observeRevokedSessions cfg body p) t = true := by
    intro t ht
    simp only [AgentToServer.isSessionRevoked, ht, hempty, Bool.false_or,
      decide_eq_true_eq, Nat.not_lt.mpr h, if_false, hobserve]
    exact List.contains_iff_mem.mpr hadopted
  refine ⟨?_, hrevoked s htrim, ?_⟩
  · rw [hobserve]
    exact hadopted
  · rw [hconfigured, Option.filter_some, hrevoked id hself]
    rfl

/-- An id that the snapshot may name is adopted only if it fits its bytes. -/
theorem bounded_of_reportedRevoked (h : ReportedRevoked s id) : Text.len id ≤ 128 := by
  let cfg : AgentToServer.Config :=
    { mode := .enforce, boundary := none, monolithSessionId := some s, unicode := Text.asciiOnly
      parse := fun _ => none
      fromStr := fun _ => some (.object [("revoked_sessions", .array [.string id])]) }
  obtain ⟨hmem, -, -⟩ := h cfg "" [.string id] ⟨[], [], [], []⟩ rfl rfl List.mem_cons_self
  have hadopted : (AgentToServer.observeRevokedSessions cfg "" ⟨[], [], [], []⟩).revokedSessions =
      AgentToServer.cleanSessionIds [.string id] := rfl
  rw [hadopted, AgentToServer.cleanSessionIds] at hmem
  obtain ⟨-, hclean⟩ := List.mem_filter.mp hmem
  simp only [Bool.and_eq_true, decide_eq_true_eq] at hclean
  exact hclean.1.2

/-! ## Agreement -/

/-- A stamped id means one session everywhere exactly when it is portable and the
Python registry can read the snapshot it is named in. -/
theorem session_agrees_iff (hid : cleanId s = some id) {isPrintable : CodePoint → Bool}
    {v : MonolithEvents.PyValue} {stamped : PyString} {items : List MonolithEvents.PyValue}
    (hstamped : MonolithEvents.cleanId isPrintable v = .ok (some stamped))
    (hnamed : .str stamped ∈ items) :
    FiledUnder s id ∧ ReportedRevoked s id ∧ RegistryMatches isPrintable v stamped items ↔
      Portable id ∧ ∀ item, .str item ∈ items → item.Encodable := by
  constructor
  · rintro ⟨hfiled, hreported, count, registry, hreplace, -⟩
    obtain ⟨hfront, hback⟩ := (trim_ofString_stamped_iff hid).mp (trim_of_filedUnder hfiled)
    refine ⟨⟨bounded_of_reportedRevoked hreported, hfront, hback⟩, ?_⟩
    intro item hitem
    by_contra henc
    exact MonolithEvents.RevokedSessionRegistry.replace_raises hitem henc _ hreplace
  · rintro ⟨hportable, hitems⟩
    exact ⟨filedUnder_of_portable hid hportable, reportedRevoked_of_bounded hid hportable.bounded,
      MonolithEvents.RevokedSessionRegistry.replace_adopts hstamped hnamed hitems⟩

end

/-! The agreement at an ordinary id, and two ids on which the validators part. -/

def asciiPrintable (c : CodePoint) : Bool := 0x20 ≤ c.val && c.val < 0x7F

theorem session_agrees_ascii :
    FiledUnder " sess-1 " "sess-1" ∧ ReportedRevoked " sess-1 " "sess-1" ∧
      RegistryMatches asciiPrintable (.str (.ofString " sess-1 ")) (.ofString "sess-1")
        [.other, .str (.ofString "sess-1")] := by
  have hid : cleanId " sess-1 " = some "sess-1" := by decide
  have hstamped : MonolithEvents.cleanId asciiPrintable (.str (.ofString " sess-1 ")) =
      .ok (some (.ofString "sess-1")) := by decide
  apply (session_agrees_iff hid hstamped (List.mem_cons_of_mem _ List.mem_cons_self)).mpr
  refine ⟨⟨by decide, by decide, by decide⟩, ?_⟩
  intro item hitem
  cases hitem with
  | tail _ hitem =>
      cases hitem with
      | head => decide
      | tail _ hitem => cases hitem

/-- 65 characters of two bytes each. -/
def accentedId : String := String.ofList (List.replicate 65 (Char.ofNat 0xE9))

def markedId : String := String.ofList [byteOrderMark, 's']

/-- The first id is stamped and never found revoked; the second is stamped and
filed under another. -/
theorem validators_disagree :
    (cleanId accentedId = some accentedId ∧ ¬ ReportedRevoked accentedId accentedId) ∧
      cleanId markedId = some markedId ∧ ¬ FiledUnder markedId markedId := by
  have hlist : accentedId.toList = List.replicate 65 (Char.ofNat 0xE9) := String.toList_ofList
  refine ⟨⟨?_, ?_⟩, by decide, ?_⟩
  · rw [cleanId_eq_some_iff, Text.trim, hlist]
    have htrim : Text.trimList (List.replicate 65 (Char.ofNat 0xE9)) =
        List.replicate 65 (Char.ofNat 0xE9) := by decide
    exact ⟨congrArg String.ofList htrim, by decide, by decide,
      Library.forall_mem_of_all (by decide)⟩
  · intro h
    have hlen := bounded_of_reportedRevoked h
    rw [Text.len, ← String.utf8Len_toList, hlist] at hlen
    revert hlen
    decide
  · intro h
    have htrim := trim_of_filedUnder h
    revert htrim
    decide

end BlackMonolith.SessionAgreement
