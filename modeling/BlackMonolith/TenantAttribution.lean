import BlackMonolith.MonolithEvents.EventOutbox
import BlackMonolith.OutboxAdmin
import BlackMonolith.OutboxReplay
import BlackMonolith.SessionAgreement

/-!
# One tenant in two outboxes

The Python outbox stores the tenant of an event beside it and compares that; the Rust
outbox reads it from the payload again. The first strips U+001C to U+001F too and takes
printable characters only, the second takes what is no control character. Where the names
are printable and carry no such edge, and both read the payload, they replay the same.
-/
namespace BlackMonolith.TenantAttribution
open Json Library

/-! ## Trimming by two classes -/

section
variable {α : Type*} {p q : α → Bool} {front back : List α}

theorem trimBoth_of_split (hfront : ∀ x ∈ front, p x = true) (hback : ∀ x ∈ back, p x = true)
    (xs : List α) : trimBoth p (front ++ xs ++ back) = trimBoth p xs := by
  unfold trimBoth
  rw [List.append_assoc, List.dropWhile_append_of_pos hfront]
  by_cases hall : ∀ x ∈ xs, p x = true
  · rw [List.dropWhile_append_of_pos hall, List.dropWhile_eq_nil_iff.mpr hall,
      List.dropWhile_eq_nil_iff.mpr hback]
  · have hdrop : (xs ++ back).dropWhile p = xs.dropWhile p ++ back := by
      rw [List.dropWhile_append, if_neg]
      rw [List.isEmpty_iff, List.dropWhile_eq_nil_iff]
      exact hall
    rw [hdrop]
    unfold List.rdropWhile
    rw [List.reverse_append, List.dropWhile_append_of_pos]
    exact fun x hx => hback x (List.mem_reverse.mp hx)

/-- What trimming leaves, with what it takes away at either end. -/
theorem trimBoth_split (p : α → Bool) (xs : List α) : ∃ front back,
    xs = front ++ trimBoth p xs ++ back ∧ (∀ x ∈ front, p x = true) ∧ ∀ x ∈ back, p x = true := by
  refine ⟨xs.takeWhile p, (xs.dropWhile p).rtakeWhile p, ?_, fun x => List.mem_takeWhile_imp,
    fun x hx => ?_⟩
  · rw [trimBoth, List.append_assoc, List.rdropWhile_append_rtakeWhile,
      List.takeWhile_append_dropWhile]
  · exact List.mem_takeWhile_imp (List.mem_reverse.mp hx)

/-- A wider class takes nothing more away when it does not hold of the ends. -/
theorem trimBoth_wider {xs : List α} (hpq : ∀ x, p x = true → q x = true)
    (hends : trimBoth q (trimBoth p xs) = trimBoth p xs) : trimBoth q xs = trimBoth p xs := by
  obtain ⟨front, back, hsplit, hfront, hback⟩ := trimBoth_split p xs
  conv_lhs => rw [hsplit]
  rw [trimBoth_of_split (fun x hx => hpq x (hfront x hx)) (fun x hx => hpq x (hback x hx)), hends]

theorem trimBoth_map {β : Type*} (f : β → α) (xs : List β) :
    trimBoth p (xs.map f) = (trimBoth (fun x => p (f x)) xs).map f := by
  unfold trimBoth List.rdropWhile
  rw [List.dropWhile_map, ← List.map_reverse, List.dropWhile_map, List.map_reverse]
  rfl

end

/-! ## A name in either language -/

/-- White space for Python only. -/
def isSeparator (c : Char) : Bool := 0x1C ≤ c.toNat && c.toNat ≤ 0x1F

/-- Rust leaves a separator at an end of the name. -/
def Edged (name : String) : Prop :=
  (∃ c ∈ (Text.trim name).toList.head?, isSeparator c = true) ∨
    ∃ c ∈ (Text.trim name).toList.getLast?, isSeparator c = true

def point (c : Char) : CodePoint := ⟨c.toNat, toNat_lt c⟩

theorem val_point (c : Char) : (point c).val = c.toNat := rfl

theorem ofString_points (name : String) :
    (PyString.ofString name).points = name.toList.map point := rfl

theorem isSpace_point (c : Char) :
    PyString.isSpace (point c) = (Text.isWhitespace c || isSeparator c) := by
  rw [Bool.eq_iff_iff]
  unfold PyString.isSpace Text.isWhitespace isSeparator
  rw [val_point]
  simp only [Bool.or_eq_true, Bool.and_eq_true, decide_eq_true_eq, beq_iff_eq]
  omega

theorem isControl_of_isSeparator {c : Char} (h : isSeparator c = true) :
    Text.isControl c = true := by
  simp only [isSeparator, Text.isControl, Bool.and_eq_true, Bool.or_eq_true,
    decide_eq_true_eq] at h ⊢
  omega

/-- Without a separator at an end, both trim to the same text. -/
theorem strip_ofString {name : String} (h : ¬Edged name) :
    (PyString.ofString name).strip = PyString.ofString (Text.trim name) := by
  have htrim : trimBoth (fun c => PyString.isSpace (point c)) name.toList =
      Text.trimList name.toList := by
    apply trimBoth_wider (p := Text.isWhitespace)
    · intro c hc
      rw [isSpace_point, hc, Bool.true_or]
    · have hself : trimBoth Text.isWhitespace (Text.trimList name.toList) =
          Text.trimList name.toList := Text.trimList_trimList _
      obtain ⟨hhead, hlast⟩ := trimBoth_eq_self_iff.mp hself
      unfold Edged Text.trim at h
      rw [String.toList_ofList, not_or] at h
      apply trimBoth_eq_self_iff.mpr
      constructor
      · intro c hc
        rw [isSpace_point, hhead c hc, Bool.false_or, Bool.eq_false_iff]
        exact fun hsep => h.1 ⟨c, hc, hsep⟩
      · intro c hc
        rw [isSpace_point, hlast c hc, Bool.false_or, Bool.eq_false_iff]
        exact fun hsep => h.2 ⟨c, hc, hsep⟩
  unfold PyString.strip
  rw [ofString_points, trimBoth_map, htrim]
  unfold PyString.ofString Text.trim
  rw [String.toList_ofList]
  rfl

theorem encodable_ofString (name : String) : (PyString.ofString name).Encodable := by
  intro c hc
  rw [ofString_points] at hc
  obtain ⟨d, -, rfl⟩ := List.mem_map.mp hc
  have hvalid : d.toNat < 0xD800 ∨ 0xDFFF < d.toNat ∧ d.toNat < 0x110000 := d.valid
  unfold PyString.isSurrogate
  rw [val_point]
  simp only [Bool.and_eq_false_iff, decide_eq_false_iff_not]
  omega

theorem utf8Width_point (c : Char) : PyString.utf8Width (point c) = c.utf8Size := by
  unfold PyString.utf8Width point Char.utf8Size
  have hle : ∀ n : UInt32, c.val ≤ n ↔ c.toNat < n.toNat + 1 := by
    intro n
    rw [UInt32.le_iff_toNat_le, Nat.lt_succ_iff]
    rfl
  simp only [hle]
  rfl

/-- Both count the bytes of UTF-8. -/
theorem encodedLength_ofString (name : String) :
    (PyString.ofString name).encodedLength = .ok (Text.len name) := by
  rw [PyString.encodedLength_of_encodable (encodable_ofString name), ofString_points, List.map_map]
  have hsum : ∀ cs : List Char, (cs.map (PyString.utf8Width ∘ point)).sum = String.utf8Len cs := by
    intro cs
    induction cs with
    | nil => rfl
    | cons c cs ih =>
        rw [List.map_cons, List.sum_cons, ih, String.utf8Len_cons, Function.comp_apply,
          utf8Width_point, Nat.add_comm]
  rw [hsum, String.utf8Len_toList]
  rfl

/-! ## The tenant a name stands for -/

/-- The check of `record_tenant`, which is that of `query_tenant`. -/
def shieldTenant (name : String) : Option String :=
  let tenant := Text.trim name
  if tenant.isEmpty || 128 < Text.len tenant then none
  else if tenant.toList.any Text.isControl then none
  else some tenant

theorem shieldTenant_eq_some_iff {name tenant : String} : shieldTenant name = some tenant ↔
    Text.trim name = tenant ∧ tenant.toList ≠ [] ∧ Text.len tenant ≤ 128 ∧
      ∀ c ∈ tenant.toList, Text.isControl c = false := by
  unfold shieldTenant
  dsimp only
  constructor
  · intro h
    split_ifs at h with hbounds hcontrol
    simp only [Bool.or_eq_true, decide_eq_true_eq, not_or, Nat.not_lt] at hbounds
    obtain rfl := Option.some.inj h
    refine ⟨rfl, fun hnil => hbounds.1 ?_, hbounds.2, fun c hc => ?_⟩
    · rw [String.isEmpty_iff, ← String.toList_eq_nil_iff]
      exact hnil
    · rw [Bool.eq_false_iff]
      exact fun hc' => hcontrol (List.any_eq_true.mpr ⟨c, hc, hc'⟩)
  · rintro ⟨rfl, hne, hlen, hplain⟩
    rw [if_neg, if_neg]
    · intro hany
      obtain ⟨c, hc, hcontrol⟩ := List.any_eq_true.mp hany
      rw [hplain c hc] at hcontrol
      cases hcontrol
    · simp only [Bool.or_eq_true, decide_eq_true_eq, not_or, Nat.not_lt]
      refine ⟨fun hempty => hne ?_, hlen⟩
      rw [String.isEmpty_iff] at hempty
      rw [hempty]
      rfl

/-- A name that Rust takes has no separator at an end. -/
theorem not_edged_of_shieldTenant {name tenant : String} (h : shieldTenant name = some tenant) :
    ¬Edged name := by
  obtain ⟨rfl, -, -, hplain⟩ := shieldTenant_eq_some_iff.mp h
  rintro (⟨c, hc, hsep⟩ | ⟨c, hc, hsep⟩)
  · have hcontrol := hplain c (List.mem_of_mem_head? hc)
    rw [isControl_of_isSeparator hsep] at hcontrol
    cases hcontrol
  · have hcontrol := hplain c (List.mem_of_mem_getLast? hc)
    rw [isControl_of_isSeparator hsep] at hcontrol
    cases hcontrol

section
variable {isPrintable : CodePoint → Bool} {name tenant : String}

/-- What Python makes of a name without such an edge. -/
theorem cleanId_ofString (h : ¬Edged name) :
    MonolithEvents.cleanId isPrintable (.str (.ofString name)) =
      .ok (if (Text.trim name).toList = [] ∨ 128 < Text.len (Text.trim name) ∨
          ∃ c ∈ (Text.trim name).toList, isPrintable (point c) = false then none
        else some (.ofString (Text.trim name))) := by
  unfold MonolithEvents.cleanId
  dsimp only
  rw [strip_ofString h]
  have hnil : (PyString.ofString (Text.trim name)).points = [] ↔ (Text.trim name).toList = [] :=
    List.map_eq_nil_iff
  by_cases hempty : (Text.trim name).toList = []
  · rw [if_pos (hnil.mpr hempty), if_pos (.inl hempty)]
  · have hbad : (decide (MonolithEvents.maxIdLength < Text.len (Text.trim name)) ||
        ((Text.trim name).toList.map point).any fun c => !isPrintable c) = true ↔
          128 < Text.len (Text.trim name) ∨
            ∃ c ∈ (Text.trim name).toList, isPrintable (point c) = false := by
      rw [Bool.or_eq_true, decide_eq_true_eq, List.any_map, List.any_eq_true]
      simp only [Function.comp_apply, Bool.not_eq_true', MonolithEvents.maxIdLength]
    rw [if_neg (hnil.not.mpr hempty), encodedLength_ofString, ofString_points]
    simp only [bind, Except.bind, hbad, hempty, false_or]
    split_ifs
    · rfl
    · rfl

theorem shieldTenant_of_cleanId {t : PyString}
    (hprintable : ∀ c, isPrintable (point c) = true → Text.isControl c = false)
    (hedge : ¬Edged name)
    (h : MonolithEvents.cleanId isPrintable (.str (.ofString name)) = .ok (some t)) :
    shieldTenant name = some (Text.trim name) ∧ t = .ofString (Text.trim name) := by
  rw [cleanId_ofString hedge] at h
  have hsome := Except.ok.inj h
  split_ifs at hsome with hbad
  simp only [not_or, not_exists, not_and, Bool.not_eq_false, Nat.not_lt] at hbad
  refine ⟨shieldTenant_eq_some_iff.mpr ⟨rfl, hbad.1, hbad.2.1, fun c hc => ?_⟩,
    (Option.some.inj hsome).symm⟩
  exact hprintable c (hbad.2.2 c hc)

theorem cleanId_of_shieldTenant (h : shieldTenant name = some tenant) :
    MonolithEvents.cleanId isPrintable (.str (.ofString name)) =
      .ok (if ∃ c ∈ tenant.toList, isPrintable (point c) = false then none
        else some (.ofString tenant)) := by
  rw [cleanId_ofString (not_edged_of_shieldTenant h)]
  obtain ⟨rfl, hne, hlen, -⟩ := shieldTenant_eq_some_iff.mp h
  simp only [hne, Nat.not_lt.mpr hlen, false_or]

end

/-! ## The name in a payload -/

/-- The name that `_tenant_of_payload` cleans. -/
def nameInPython (py : MonolithEvents.Runtime) (payload : MonolithEvents.Payload) :
    Option PyString :=
  match py.loads payload with
  | some (.dict members) => (PyJson.get members "tenant_id").bind PyJson.asStr
  | _ => none

/-- The name that `record_tenant` trims. -/
def nameInRust (serde : Outbox.Serde) (payload : String) : Option String :=
  ((serde.fromStr payload).bind (·.get "tenant_id")).bind Value.asStr

/-- Two readers of JSON find no two names in one payload. -/
def ReadersAgree (py : MonolithEvents.Runtime) (serde : Outbox.Serde) : Prop :=
  ∀ payload name read, nameInPython py (Text.bytes payload) = some name →
    nameInRust serde payload = some read → name = .ofString read

section
variable {py : MonolithEvents.Runtime} {serde : Outbox.Serde}

theorem tenantOfPayload_eq (payload : MonolithEvents.Payload) :
    MonolithEvents.tenantOfPayload py payload =
      match nameInPython py payload with
      | some name => MonolithEvents.cleanId py.isPrintable (.str name)
      | none => .ok none := by
  unfold MonolithEvents.tenantOfPayload nameInPython
  cases py.loads payload with
  | none => rfl
  | some value =>
      cases value with
      | dict members =>
          dsimp only
          cases PyJson.get members "tenant_id" with
          | none => rfl
          | some field => cases field <;> rfl
      | _ => rfl

theorem recordTenant_eq (r : Outbox.SpoolRecord) :
    Outbox.recordTenant serde r = (nameInRust serde r.payload).bind shieldTenant := by
  unfold Outbox.recordTenant nameInRust
  cases serde.fromStr r.payload with
  | none => rfl
  | some value =>
      cases hfield : value.get "tenant_id" with
      | none => simp [hfield]
      | some field =>
          cases htext : field.asStr with
          | none => simp [hfield, htext]
          | some text => simp [hfield, htext, shieldTenant]

theorem readTenant_eq_ok_iff {value : List Char} {id : String} {scope : String}
    (hvalue : Outbox.percentDecode value = .ok id.toList) :
    Outbox.readTenant value = .ok scope ↔ shieldTenant id = some scope := by
  unfold Outbox.readTenant shieldTenant
  rw [hvalue]
  dsimp only
  rw [String.ofList_toList]
  cases hbounds : ((Text.trim id).isEmpty || decide (128 < Text.len (Text.trim id))) with
  | true =>
      rw [Bool.true_or, if_pos rfl, if_pos rfl]
      constructor
      · intro h
        cases h
      · intro h
        cases h
  | false =>
      rw [Bool.false_or, if_neg Bool.false_ne_true]
      split_ifs
      · constructor
        · intro h
          cases h
        · intro h
          cases h
      · rw [Except.ok.injEq, Option.some.injEq]

/-! ## The events of a tenant -/

variable (py) in
/-- A row as the emitter files it under the name in its payload, or as it is backfilled. -/
inductive Filed : MonolithEvents.Row → Prop
  | enqueued {eventId : PyString} {payload : MonolithEvents.Payload} {tenantId : Option PyString}
      {now : ℕ} {row : MonolithEvents.Row}
      (hname : tenantId = none ∨ tenantId = nameInPython py payload)
      (h : MonolithEvents.newRow py eventId payload tenantId now = .ok row) : Filed row
  | backfilled {old row : MonolithEvents.Row} (hnull : old.tenantId = none)
      (h : MonolithEvents.backfillTenantId py old = .ok row) : Filed row

theorem row_of_newRow {eventId : PyString} {payload : MonolithEvents.Payload}
    {tenantId : Option PyString} {now : ℕ} {row : MonolithEvents.Row}
    (h : MonolithEvents.newRow py eventId payload tenantId now = .ok row) :
    ∃ tenant, MonolithEvents.rowTenant py payload tenantId = .ok tenant ∧
      row = ⟨eventId, payload, 0, now, .pending, none, now, now, tenant⟩ := by
  unfold MonolithEvents.newRow at h
  split at h
  · cases h
  · split at h
    · cases h
    · split at h
      · cases h
      · split at h
        · cases h
        · split at h
          · cases h
          · next tenant htenant => exact ⟨tenant, htenant, (Except.ok.inj h).symm⟩

/-- The name in the payload and no name come to the same. -/
theorem rowTenant_of_name {payload : MonolithEvents.Payload} {tenantId : Option PyString}
    (hname : tenantId = none ∨ tenantId = nameInPython py payload) :
    MonolithEvents.rowTenant py payload tenantId = MonolithEvents.tenantOfPayload py payload := by
  unfold MonolithEvents.rowTenant
  rcases hname with rfl | rfl
  · rfl
  · cases hread : nameInPython py payload with
    | none => rfl
    | some name =>
        have hpayload := @tenantOfPayload_eq py payload
        rw [hread] at hpayload
        dsimp only [Option.elim]
        cases hclean : MonolithEvents.cleanId py.isPrintable (.str name) with
        | error e => exact (hpayload.trans hclean).symm
        | ok tenant =>
            cases tenant with
            | none => rfl
            | some tenant => exact (hpayload.trans hclean).symm

/-- The column says what the payload says. -/
theorem tenant_of_filed {row : MonolithEvents.Row} (h : Filed py row) :
    MonolithEvents.tenantOfPayload py row.payload = .ok row.tenantId := by
  cases h with
  | @enqueued eventId payload tenantId now _ hname h =>
      obtain ⟨tenant, htenant, rfl⟩ := row_of_newRow h
      rw [← rowTenant_of_name hname]
      exact htenant
  | @backfilled old _ hnull h =>
      unfold MonolithEvents.backfillTenantId at h
      rw [hnull] at h
      dsimp only at h
      cases htenant : MonolithEvents.tenantOfPayload py old.payload with
      | error e =>
          rw [htenant] at h
          cases h
      | ok tenant =>
          rw [htenant] at h
          obtain rfl := Except.ok.inj h
          exact htenant

/-! ## What a replay moves -/

variable (py serde) in
/-- A dead event of a row that was filed with the payload. -/
def DeadOf (payload : String) (row : MonolithEvents.Row) : Prop :=
  row.status = .dead ∧ ∃ filed, Filed py filed ∧ filed.payload = Text.bytes payload ∧
    row.payload = filed.payload ∧ row.tenantId = filed.tenantId

variable (py) in
/-- A replay for the tenant `id` moves the row. -/
def MovedInPython (id : String) (row : MonolithEvents.Row) : Prop :=
  ∃ scope, MonolithEvents.replayScope py (some (.ofString id)) = .ok scope ∧
    MonolithEvents.replayed scope row = true

variable (serde) in
/-- A request for the tenant that `value` spells moves the record. -/
def MovedInRust (value : List Char) (r : Outbox.SpoolRecord) : Prop :=
  ∃ scope, Outbox.readTenant value = .ok scope ∧ Outbox.Chosen serde (some scope) r

variable {payload id : String} {value : List Char} {row : MonolithEvents.Row}
  {r : Outbox.SpoolRecord}

theorem replayScope_eq_ok_iff {scope : Option PyString} :
    MonolithEvents.replayScope py (some (.ofString id)) = .ok scope ↔
      ∃ t, MonolithEvents.cleanId py.isPrintable (.str (.ofString id)) = .ok (some t) ∧
        scope = some t := by
  unfold MonolithEvents.replayScope
  dsimp only
  cases hclean : MonolithEvents.cleanId py.isPrintable (.str (.ofString id)) with
  | error e => exact ⟨fun h => (by cases h), fun ⟨t, h, _⟩ => (by cases h)⟩
  | ok t =>
      cases t with
      | none => exact ⟨fun h => (by cases h), fun ⟨t, h, _⟩ => (by cases h)⟩
      | some t =>
          constructor
          · intro h
            exact ⟨t, rfl, (Except.ok.inj h).symm⟩
          · rintro ⟨t', h, rfl⟩
            rw [Option.some.inj (Except.ok.inj h)]

theorem movedInPython_iff (hrow : DeadOf py payload row) : MovedInPython py id row ↔
    ∃ name t, nameInPython py (Text.bytes payload) = some name ∧
      MonolithEvents.cleanId py.isPrintable (.str name) = .ok (some t) ∧
      MonolithEvents.cleanId py.isPrintable (.str (.ofString id)) = .ok (some t) := by
  obtain ⟨hdead, filed, hfiled, hpayload, -, htenant⟩ := hrow
  have hstored := tenant_of_filed hfiled
  rw [hpayload, ← htenant, tenantOfPayload_eq] at hstored
  unfold MovedInPython
  constructor
  · rintro ⟨scope, hscope, hmoved⟩
    obtain ⟨t, hid, rfl⟩ := replayScope_eq_ok_iff.mp hscope
    unfold MonolithEvents.replayed at hmoved
    simp only [Option.all_some, Bool.and_eq_true, decide_eq_true_eq] at hmoved
    rw [hmoved.2] at hstored
    cases hread : nameInPython py (Text.bytes payload) with
    | none => rw [hread] at hstored; cases hstored
    | some name =>
        rw [hread] at hstored
        exact ⟨name, t, rfl, hstored, hid⟩
  · rintro ⟨name, t, hread, hname, hid⟩
    rw [hread] at hstored
    refine ⟨some t, replayScope_eq_ok_iff.mpr ⟨t, hid, rfl⟩, ?_⟩
    unfold MonolithEvents.replayed
    simp only [Option.all_some, Bool.and_eq_true, decide_eq_true_eq]
    exact ⟨hdead, Except.ok.inj (hstored.symm.trans hname)⟩

theorem movedInRust_iff (hvalue : Outbox.percentDecode value = .ok id.toList) :
    MovedInRust serde value r ↔ ∃ name t, nameInRust serde r.payload = some name ∧
      shieldTenant name = some t ∧ shieldTenant id = some t := by
  unfold MovedInRust Outbox.Chosen
  simp only [readTenant_eq_ok_iff hvalue, Option.mem_some_iff, forall_eq', recordTenant_eq,
    Option.bind_eq_some_iff]
  constructor
  · rintro ⟨t, hid, name, hread, hname⟩
    exact ⟨name, t, hread, hname, hid⟩
  · rintro ⟨name, t, hread, hname, hid⟩
    exact ⟨t, hid, name, hread, hname⟩

variable (py serde payload id) in
/-- A tenant that both names stand for in Python is read by Rust too, and its names have no
separators at their ends; one that they stand for in Rust is read by Python too, and it is
printable. -/
structure SameReading : Prop where
  stored : ∀ name t, nameInPython py (Text.bytes payload) = some name →
    MonolithEvents.cleanId py.isPrintable (.str name) = .ok (some t) →
    MonolithEvents.cleanId py.isPrintable (.str (.ofString id)) = .ok (some t) →
    (∃ read, nameInRust serde payload = some read ∧ ¬Edged read) ∧ ¬Edged id
  reread : ∀ name t, nameInRust serde payload = some name → shieldTenant name = some t →
    shieldTenant id = some t → (nameInPython py (Text.bytes payload)).isSome ∧
      ∀ c ∈ t.toList, py.isPrintable (point c) = true

theorem moved_iff (hprintable : ∀ c, py.isPrintable (point c) = true → Text.isControl c = false)
    (hreaders : ReadersAgree py serde) (hrow : DeadOf py payload row) (hrecord : r.payload = payload)
    (hvalue : Outbox.percentDecode value = .ok id.toList) :
    (MovedInPython py id row ↔ MovedInRust serde value r) ↔ SameReading py serde payload id := by
  rw [movedInPython_iff hrow, movedInRust_iff hvalue, hrecord]
  constructor
  · intro hagree
    constructor
    · intro name t hread hname hid
      obtain ⟨read, tenant, hread', hname', hid'⟩ := hagree.mp ⟨name, t, hread, hname, hid⟩
      exact ⟨⟨read, hread', not_edged_of_shieldTenant hname'⟩, not_edged_of_shieldTenant hid'⟩
    · intro read tenant hread hname hid
      obtain ⟨name, t, hread', -, hid'⟩ := hagree.mpr ⟨read, tenant, hread, hname, hid⟩
      refine ⟨by rw [hread']; rfl, fun c hc => ?_⟩
      rw [cleanId_of_shieldTenant hid] at hid'
      have hsome := Except.ok.inj hid'
      split_ifs at hsome with hbad
      rw [← Bool.not_eq_false]
      exact fun hc' => hbad ⟨c, hc, hc'⟩
  · rintro ⟨hstored, hreread⟩
    constructor
    · rintro ⟨name, t, hread, hname, hid⟩
      obtain ⟨⟨read, hread', hedge⟩, hedge'⟩ := hstored name t hread hname hid
      obtain rfl := hreaders payload name read hread hread'
      obtain ⟨hshield, ht⟩ := shieldTenant_of_cleanId hprintable hedge hname
      obtain ⟨hshield', ht'⟩ := shieldTenant_of_cleanId hprintable hedge' hid
      have hsame : Text.trim read = Text.trim id := by
        have hpoints := congrArg PyString.points (ht.symm.trans ht')
        rw [ofString_points, ofString_points] at hpoints
        apply String.toList_injective
        apply List.map_injective_iff.mpr _ hpoints
        intro c d hcd
        have hnat := congrArg Fin.val hcd
        rw [val_point, val_point] at hnat
        rw [← Char.ofNat_toNat c, hnat, Char.ofNat_toNat]
      exact ⟨read, _, hread', hshield, hsame ▸ hshield'⟩
    · rintro ⟨read, tenant, hread, hname, hid⟩
      obtain ⟨hsome, hall⟩ := hreread read tenant hread hname hid
      obtain ⟨name, hread'⟩ := Option.isSome_iff_exists.mp hsome
      obtain rfl := hreaders payload name read hread' hread
      have hgood : ¬∃ c ∈ tenant.toList, py.isPrintable (point c) = false := by
        rintro ⟨c, hc, hc'⟩
        rw [hall c hc] at hc'
        cases hc'
      refine ⟨_, .ofString tenant, hread', ?_, ?_⟩
      · rw [cleanId_of_shieldTenant hname, if_neg hgood]
      · rw [cleanId_of_shieldTenant hid, if_neg hgood]

/-! ## What a replay leaves -/

variable (py) in
/-- The rows that are moved start over and the others stay; a scope that cannot be read
raises and moves none. -/
def MovesRows (id : String) (now : ℕ) (table : MonolithEvents.Table) : Prop :=
  match MonolithEvents.replayDeadLetters py (some (.ofString id)) now table with
  | .error _ => ∀ row, ¬MovedInPython py id row
  | .ok (after, _) => after.ids = table.ids ∧ ∀ row ∈ table.rows,
      (MovedInPython py id row → MonolithEvents.revived now row ∈ after.rows) ∧
        (¬MovedInPython py id row → row ∈ after.rows)

variable (serde) in
/-- The records that are moved start over behind the pending ones, where they fit, and the
others stay; a scope that cannot be read is refused and the spool stays as it is. -/
def MovesRecords (value : List Char) (now : ℕ) (spool : Outbox.Spool) : Prop :=
  match Outbox.readTenant value with
  | .error _ => (∀ r, ¬MovedInRust serde value r) ∧
      ∀ rawTarget field token header, field ∈ (Outbox.queryOf rawTarget).splitOn '&' →
        Outbox.spelledValue field = some value →
          (Outbox.handleReplay serde token header rawTarget now spool).2 = spool
  | .ok scope => (∀ r, Outbox.Chosen serde (some scope) r ↔ MovedInRust serde value r) ∧
      ∀ after, Outbox.replayDeadLetters serde (some scope) now spool = .ok after →
        after.dead = (spool.dead.filter fun r => ¬Outbox.Chosen serde (some scope) r) ∧
          (Outbox.withinBounds serde Outbox.maxSpoolRecords Outbox.maxSpoolBytes
              (spool.pending ++ (spool.dead.filter fun r =>
                Outbox.Chosen serde (some scope) r).map (·.replayed now)) = true →
            after.pending.file = spool.pending ++ (spool.dead.filter fun r =>
              Outbox.Chosen serde (some scope) r).map (·.replayed now))

theorem movesRows (id : String) (now : ℕ) (table : MonolithEvents.Table) :
    MovesRows py id now table := by
  unfold MovesRows MonolithEvents.replayDeadLetters
  cases hscope : MonolithEvents.replayScope py (some (.ofString id)) with
  | error e =>
      rintro row ⟨scope, hok, -⟩
      rw [hscope] at hok
      cases hok
  | ok scope =>
      have hmoved : ∀ row, MovedInPython py id row ↔ MonolithEvents.replayed scope row = true := by
        intro row
        unfold MovedInPython
        rw [hscope]
        constructor
        · rintro ⟨scope', hok, hrow⟩
          rw [Except.ok.inj hok]
          exact hrow
        · exact fun hrow => ⟨scope, rfl, hrow⟩
      constructor
      · show ((table.rows.map fun r => if MonolithEvents.replayed scope r then
          MonolithEvents.revived now r else r).map MonolithEvents.Row.eventId) = _
        rw [List.map_map]
        apply List.map_congr_left
        intro r _
        rw [Function.comp_apply]
        split
        · exact MonolithEvents.revived_eventId now r
        · rfl
      · intro row hrow
        constructor
        · intro hmove
          exact List.mem_map.mpr ⟨row, hrow, if_pos ((hmoved row).mp hmove)⟩
        · intro hstay
          exact List.mem_map.mpr ⟨row, hrow, if_neg (mt (hmoved row).mpr hstay)⟩

theorem movesRecords (value : List Char) (now : ℕ) (spool : Outbox.Spool) :
    MovesRecords serde value now spool := by
  unfold MovesRecords
  cases hread : Outbox.readTenant value with
  | error reason =>
      constructor
      · rintro r ⟨scope, hok, -⟩
        rw [hread] at hok
        cases hok
      · intro rawTarget field token header hfield hspelled
        obtain ⟨reason', hrefused⟩ : ∃ reason', Outbox.queryTenant rawTarget = .error reason' := by
          rw [Outbox.queryTenant_eq]
          apply Outbox.queryPairs_error_iff.mpr
          exact ⟨field, hfield, (Outbox.unreadable_spelled_iff hspelled).mpr ⟨reason, hread⟩⟩
        unfold Outbox.handleReplay
        rw [hrefused]
        split
        · rfl
        · rfl
        · rfl
  | ok scope =>
      constructor
      · intro r
        unfold MovedInRust
        rw [hread]
        constructor
        · exact fun h => ⟨scope, rfl, h⟩
        · rintro ⟨scope', hok, h⟩
          rw [Except.ok.inj hok]
          exact h
      · intro after hafter
        by_cases hchosen : (spool.dead.filter fun r => Outbox.Chosen serde (some scope) r) = []
        · have hleft : (spool.dead.filter fun r => ¬Outbox.Chosen serde (some scope) r) =
              spool.dead := by
            apply List.filter_eq_self.mpr
            intro r hr
            exact decide_eq_true fun h =>
              (List.filter_eq_nil_iff.mp hchosen r hr) (decide_eq_true h)
          unfold Outbox.replayDeadLetters at hafter
          simp only [Outbox.selectDead_eq, hchosen, List.isEmpty_nil, Bool.or_true, if_true] at hafter
          obtain rfl := Except.ok.inj hafter
          rw [hleft, hchosen]
          exact ⟨rfl, fun _ => (List.append_nil _).symm⟩
        · have hmoved := @Outbox.replayDeadLetters_of_some (some scope) now spool.dead spool.pending
            serde hchosen
          cases hbounds : Outbox.withinBounds serde Outbox.maxSpoolRecords Outbox.maxSpoolBytes
              (spool.pending ++ spool.dead.filter fun r => Outbox.Chosen serde (some scope) r) with
          | false =>
              obtain ⟨error, herror⟩ := hmoved.1 hbounds
              rw [herror] at hafter
              cases hafter
          | true =>
              obtain rfl := Except.ok.inj ((hmoved.2 hbounds).symm.trans hafter)
              refine ⟨rfl, fun hfits => ?_⟩
              dsimp only
              rw [Outbox.enforced_file, longestSuffix_of_holds hfits]

end

/-! ## Agreement -/

/-- A replay in Python moves a dead event exactly when one in Rust moves a record with its
payload if and only if both read the tenant alike. Each moves what it attributes to the
tenant, leaves the rest, and refuses what it cannot read. -/
theorem tenant_attribution_iff {py : MonolithEvents.Runtime} {serde : Outbox.Serde}
    (hprintable : ∀ c, py.isPrintable (point c) = true → Text.isControl c = false)
    (hreaders : ReadersAgree py serde) {id : String} {value : List Char}
    (hvalue : Outbox.percentDecode value = .ok id.toList) :
    (∀ row r, DeadOf py r.payload row → ((MovedInPython py id row ↔ MovedInRust serde value r) ↔
        SameReading py serde r.payload id)) ∧
      (∀ now table, MovesRows py id now table) ∧ ∀ now spool, MovesRecords serde value now spool :=
  ⟨fun _ _ hrow => moved_iff hprintable hreaders hrow rfl hvalue, movesRows id, movesRecords value⟩

/-- Readers that know one payload, with one tenant in it. -/
def readsPython (payload name : String) : MonolithEvents.Runtime where
  isPrintable := SessionAgreement.asciiPrintable
  loads := fun bytes => if bytes = Text.bytes payload then
    some (.dict [(.ofString "tenant_id", .str (.ofString name))]) else none

def readsRust (payload name : String) : Outbox.Serde where
  toString := fun _ => ""
  fromStr := fun text => if text = payload then
    some (.object [("tenant_id", .string name)]) else none

def deadRow (payload name : String) : MonolithEvents.Row where
  eventId := .ofString "e1"
  payload := Text.bytes payload
  nextAttemptMs := 0
  status := .dead
  createdMs := 0
  updatedMs := 0
  tenantId := if name.toList.all fun c => SessionAgreement.asciiPrintable (point c) then
    some (.ofString name) else none

theorem nameInPython_reads (payload name : String) {bytes : MonolithEvents.Payload}
    {read : PyString} (h : nameInPython (readsPython payload name) bytes = some read) :
    read = .ofString name := by
  unfold nameInPython readsPython at h
  dsimp only at h
  split_ifs at h
  · simp only [PyJson.get, List.find?_cons, decide_true, Option.map_some, Option.bind_some,
      PyJson.asStr] at h
    exact (Option.some.inj h).symm

theorem nameInRust_reads (payload name : String) {text read : String}
    (h : nameInRust (readsRust payload name) text = some read) : read = name := by
  unfold nameInRust readsRust at h
  dsimp only at h
  split_ifs at h
  · exact (Option.some.inj h).symm
  · cases h

theorem readersAgree_reads (payload name : String) :
    ReadersAgree (readsPython payload name) (readsRust payload name) := by
  intro text read read' h h'
  rw [nameInPython_reads payload name h, nameInRust_reads payload name h']

theorem asciiPrintable_plain (c : Char) (h : SessionAgreement.asciiPrintable (point c) = true) :
    Text.isControl c = false := by
  unfold SessionAgreement.asciiPrintable at h
  rw [val_point] at h
  unfold Text.isControl
  simp only [Bool.and_eq_true, decide_eq_true_eq] at h
  simp only [Bool.or_eq_false_iff, Bool.and_eq_false_iff, decide_eq_false_iff_not]
  omega

def acmePayload : String := "\x7b\"tenant_id\":\"acme\"\x7d"

/-- A soft hyphen, which Python does not call printable, in the name. -/
def softName : String := String.ofList ['a', Char.ofNat 0xAD, 'b']

def softPayload : String := "\x7b\"tenant_id\":\"" ++ softName ++ "\"\x7d"

theorem deadOf_acme : DeadOf (readsPython acmePayload "acme") acmePayload
    (deadRow acmePayload "acme") :=
  ⟨rfl, { deadRow acmePayload "acme" with status := .pending },
    .enqueued (.inl rfl) (by decide : MonolithEvents.newRow (readsPython acmePayload "acme")
      (.ofString "e1") (Text.bytes acmePayload) none 0 = _), rfl, rfl, rfl⟩

theorem deadOf_soft : DeadOf (readsPython softPayload softName) softPayload
    (deadRow softPayload softName) :=
  ⟨rfl, { deadRow softPayload softName with status := .pending },
    .enqueued (.inl rfl) (by decide : MonolithEvents.newRow
      (readsPython softPayload softName) (.ofString "e1") (Text.bytes softPayload) none 0 = _),
    rfl, rfl, rfl⟩

theorem tenant_attribution_acme :
    let py := readsPython acmePayload "acme"
    let serde := readsRust acmePayload "acme"
    let r := Outbox.newRecord "e1" acmePayload 0
    ((MovedInPython py "acme" (deadRow acmePayload "acme") ↔ MovedInRust serde "acme".toList r) ↔
        SameReading py serde acmePayload "acme") ∧
      (∀ now table, MovesRows py "acme" now table) ∧
        ∀ now spool, MovesRecords serde "acme".toList now spool := by
  intro py serde r
  obtain ⟨hmoved, hrows, hrecords⟩ := tenant_attribution_iff asciiPrintable_plain
    (readersAgree_reads acmePayload "acme")
    (by decide : Outbox.percentDecode "acme".toList = .ok "acme".toList)
  exact ⟨hmoved _ r deadOf_acme, hrows, hrecords⟩

/-- Rust moves the event of a tenant with a soft hyphen, which is no tenant in Python; Python
moves the event of a tenant that the request spells behind a separator, which Rust refuses. -/
theorem attribution_differs :
    (DeadOf (readsPython softPayload softName) softPayload (deadRow softPayload softName) ∧
      Outbox.percentDecode "a%C2%ADb".toList = .ok softName.toList ∧
      MovedInRust (readsRust softPayload softName) "a%C2%ADb".toList
        (Outbox.newRecord "e1" softPayload 0) ∧
      ¬MovedInPython (readsPython softPayload softName) softName (deadRow softPayload softName)) ∧
    (DeadOf (readsPython acmePayload "acme") acmePayload (deadRow acmePayload "acme") ∧
      Outbox.percentDecode "%1Cacme".toList = .ok "\x1cacme".toList ∧
      MovedInPython (readsPython acmePayload "acme") "\x1cacme" (deadRow acmePayload "acme") ∧
      ¬MovedInRust (readsRust acmePayload "acme") "%1Cacme".toList
        (Outbox.newRecord "e1" acmePayload 0)) := by
  refine ⟨⟨deadOf_soft, by decide, ?_, ?_⟩, deadOf_acme, by decide, ?_, ?_⟩
  · exact ⟨softName, by decide, by decide⟩
  · rintro ⟨scope, hok, -⟩
    have hrefused : MonolithEvents.replayScope (readsPython softPayload softName)
        (some (.ofString softName)) =
          .error (.valueError "tenant must be 1-128 printable characters") := by decide
    rw [hrefused] at hok
    cases hok
  · exact ⟨some (.ofString "acme"), by decide, by decide⟩
  · rintro ⟨scope, hok, -⟩
    have hrefused : Outbox.readTenant "%1Cacme".toList = .error Outbox.unreadableTenant := by
      decide
    rw [hrefused] at hok
    cases hok

end BlackMonolith.TenantAttribution
