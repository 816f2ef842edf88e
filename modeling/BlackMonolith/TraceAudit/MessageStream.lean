import BlackMonolith.Library.BlockStream
import BlackMonolith.TraceAudit.AnthropicRelay

/-!
# Messages as streams of blocks

What a server-sent event is for a client that assembles a message, and how the
relay reads events that are frames of a message.
-/
namespace BlackMonolith.TraceAudit
open Library

abbrev MessageFrame := BlockFrame ℤ PyString PyString

/-- An index; no Boolean is one. -/
def blockIndex (d : Members) : Option ℤ :=
  match PyJson.get d "index" with
  | some (.int n) => some n
  | _ => none

/-- The type of the object under a key. -/
def typeIn (d : Members) (key : String) : Option PyString :=
  (getDict d key).bind (getStr · "type")

/-- The frame of an event whose payload names its type. -/
def frameOf (type : PyString) (d : Members) : MessageFrame :=
  if type = lit "message_start" then .messageStart
  else if type = lit "content_block_start" then
    match blockIndex d, typeIn d "content_block" with
    | some index, some type => .blockStart index type
    | _, _ => .malformed
  else if type = lit "content_block_delta" then
    match blockIndex d, typeIn d "delta" with
    | some index, some type => .blockDelta index type
    | _, _ => .malformed
  else if type = lit "content_block_stop" then
    match blockIndex d with
    | some index => .blockStop index
    | none => .malformed
  else if type = lit "message_delta" then .messageDelta
  else if type = lit "message_stop" then .messageStop
  else .other

def SseEvent.frame (e : SseEvent) : MessageFrame :=
  match getStr e.data "type" with
  | none => .malformed
  | some type => if type.points.isEmpty then .malformed else frameOf type e.data

/-- The deltas that go into a block of each type. -/
def deltaFits (delta block : PyString) : Bool :=
  if delta = lit "text_delta" ∨ delta = lit "citations_delta" then block = lit "text"
  else if delta = lit "thinking_delta" ∨ delta = lit "signature_delta" then block = lit "thinking"
  else if delta = lit "input_json_delta" then
    [lit "tool_use", lit "server_tool_use", lit "mcp_tool_use"].contains block
  else false

def frames (events : List SseEvent) : List MessageFrame := events.map SseEvent.frame

def WellFormedAnswer (events : List SseEvent) : Prop := WellFormedMessage deltaFits (frames events)

instance (events : List SseEvent) : Decidable (WellFormedAnswer events) :=
  inferInstanceAs (Decidable (WellFormedMessage _ _))

/-- The message after some events, if they can begin one. -/
def progress (events : List SseEvent) : Option (BlockProgress ℤ PyString) :=
  BlockProgress.after deltaFits (frames events)

/-! ## Reading frames -/

@[simp] theorem lit_inj {s t : String} : lit s = lit t ↔ s = t := by
  constructor
  · intro h
    have hpoints : s.toList.map Char.toNat = t.toList.map Char.toNat := by
      have := congrArg (fun s => s.points.map Fin.val) h
      simpa [lit, PyString.ofString, List.map_map, Function.comp_def] using this
    have hchar : Function.Injective Char.toNat := fun a b => Char.toNat_inj.mp
    exact String.toList_inj.mp (hchar.list_map hpoints)
  · rintro rfl
    rfl

section
variable {e : SseEvent}

theorem kind_of_type {type : PyString} (h : getStr e.data "type" = some type)
    (hne : type.points.isEmpty = false) : e.kind = some type := by
  unfold getStr at h
  unfold SseEvent.kind
  obtain ⟨v, hv, hstr⟩ := Option.bind_eq_some_iff.mp h
  rw [hv]
  cases v with
  | str s =>
      cases hstr
      simp [PyJson.truthy, PyJson.asStr, hne]
  | _ => cases hstr

/-- A frame of a message names its type, which is what the relay goes by. -/
theorem exists_type_of_frame (h : e.frame ≠ .malformed) : ∃ type, e.kind = some type ∧
    getStr e.data "type" = some type ∧ e.frame = frameOf type e.data := by
  unfold SseEvent.frame at h ⊢
  cases htype : getStr e.data "type" with
  | none =>
      rw [htype] at h
      exact absurd rfl h
  | some type =>
      rw [htype] at h
      dsimp only at h ⊢
      by_cases hempty : type.points.isEmpty = true
      · rw [if_pos hempty] at h
        exact absurd rfl h
      · exact ⟨type, kind_of_type htype (Bool.eq_false_iff.mpr hempty), rfl, if_neg hempty⟩

theorem getInt_of_blockIndex {d : Members} {index : ℤ} (h : blockIndex d = some index) :
    getInt d "index" = some index := by
  unfold blockIndex at h
  unfold getInt
  split at h
  · next n hn =>
      cases h
      rw [hn]
      rfl
  · cases h

/-- What the relay notes of a frame. -/
def noteFrame (r : AnthropicRelay) : MessageFrame → AnthropicRelay
  | .messageStop => { r with sawMessageStop := true }
  | .blockStart index _ => { r with openBlocks := r.openBlocks ++ [index] }
  | .blockStop index => { r with openBlocks := r.openBlocks.erase index }
  | _ => r

theorem note_of_frame (r : AnthropicRelay) (h : e.frame ≠ .malformed) :
    r.note e = noteFrame r e.frame := by
  obtain ⟨type, hkind, -, hframe⟩ := exists_type_of_frame h
  have his : ∀ s, e.Is s ↔ type = lit s := fun s => by rw [SseEvent.Is, hkind, Option.some_inj]
  rw [hframe] at h ⊢
  unfold AnthropicRelay.note
  simp only [his]
  unfold frameOf at h ⊢
  by_cases hstart : type = lit "content_block_start"
  · subst hstart
    simp only [lit_inj, String.reduceEq, if_false, if_true] at h ⊢
    split at h
    · next hindex _ =>
        rw [getInt_of_blockIndex hindex]
        rfl
    · exact absurd rfl h
  by_cases hstop : type = lit "content_block_stop"
  · subst hstop
    simp only [lit_inj, String.reduceEq, if_false, if_true] at h ⊢
    split at h
    · next hindex =>
        rw [getInt_of_blockIndex hindex]
        rfl
    · exact absurd rfl h
  by_cases hend : type = lit "message_stop"
  · subst hend
    simp only [lit_inj, String.reduceEq, if_false, if_true]
    rfl
  simp only [hstart, hstop, hend, if_false]
  split_ifs
  · rfl
  · split <;> rfl
  · rfl
  · rfl

/-- An audited delta is a delta of its kind. -/
theorem frame_of_auditedDelta (h : e.frame ≠ .malformed) {kind : DeltaKind} {delta : Members}
    (hdelta : e.auditedDelta = some (kind, delta)) :
    ∃ index, getInt e.data "index" = some index ∧ e.frame = .blockDelta index kind.typeName := by
  obtain ⟨type, hkind, -, hframe⟩ := exists_type_of_frame h
  unfold SseEvent.auditedDelta at hdelta
  split_ifs at hdelta with his
  have htype : type = lit "content_block_delta" := by
    rw [SseEvent.Is, hkind] at his
    exact Option.some_inj.mp his
  subst htype
  obtain ⟨d, hd, hmap⟩ := Option.bind_eq_some_iff.mp hdelta
  obtain ⟨k, hk, heq⟩ := Option.map_eq_some_iff.mp hmap
  cases heq
  obtain ⟨t, ht, hname⟩ := Option.bind_eq_some_iff.mp hk
  unfold DeltaKind.ofName at hname
  have hfound := List.find?_some hname
  have hkindName : kind.typeName = t := of_decide_eq_true hfound
  have htypeIn : typeIn e.data "delta" = some kind.typeName := by
    rw [hkindName]
    exact Option.bind_eq_some_iff.mpr ⟨delta, hd, ht⟩
  rw [hframe] at h ⊢
  unfold frameOf at h ⊢
  simp only [lit_inj, String.reduceEq, if_false, if_true, htypeIn] at h ⊢
  split at h
  · next hindex htype' =>
      cases htype'
      exact ⟨_, getInt_of_blockIndex hindex, rfl⟩
  · exact absurd rfl h

end

/-! ## What the relay makes of an event -/

section
variable {d : Members} {key key' : String} {v : PyJson}

theorem get_setMember_ne (h : key' ≠ key) :
    PyJson.get (setMember d key v) key' = PyJson.get d key' := by
  unfold PyJson.get setMember
  induction d with
  | nil => rfl
  | cons member d ih =>
      rw [List.map_cons, List.find?_cons, List.find?_cons]
      by_cases hkey : member.1 = lit key
      · have hne : ¬ lit key = PyString.ofString key' := fun heq => h (lit_inj.mp heq).symm
        rw [if_pos hkey, hkey, decide_eq_false hne]
        exact ih
      · rw [if_neg hkey]
        by_cases hkey' : member.1 = PyString.ofString key'
        · simp only [hkey', decide_true]
        · simp only [hkey', decide_false]
          exact ih

theorem get_setMember (h : (PyJson.get d key).isSome) :
    PyJson.get (setMember d key v) key = some v := by
  unfold PyJson.get setMember at *
  induction d with
  | nil => cases h
  | cons member d ih =>
      rw [List.find?_cons] at h
      rw [List.map_cons, List.find?_cons]
      by_cases hkey : member.1 = lit key
      · have hkey' : member.1 = PyString.ofString key := hkey
        rw [if_pos hkey]
        simp only [hkey', decide_true]
        rfl
      · have hkey' : ¬ member.1 = PyString.ofString key := hkey
        rw [if_neg hkey]
        simp only [hkey', decide_false] at h ⊢
        exact ih h

theorem isSome_of_getDict {inner : Members} (h : getDict d key = some inner) :
    (PyJson.get d key).isSome := by
  obtain ⟨v, hv, -⟩ := Option.bind_eq_some_iff.mp h
  rw [hv]
  rfl

theorem getDict_setMember {inner : Members} (h : (PyJson.get d key).isSome) :
    getDict (setMember d key (.dict inner)) key = some inner := by
  unfold getDict
  rw [get_setMember h]
  rfl

end

/-- A citation keeps all but its passage. -/
theorem auditCitation_cases (cfg : GatewayConfig) (data : Members) :
    AnthropicRelay.auditCitation cfg data = data ∨ ∃ delta v, getDict data "delta" = some delta ∧
      AnthropicRelay.auditCitation cfg data =
        setMember data "delta" (.dict (setMember delta "citation" v)) := by
  unfold AnthropicRelay.auditCitation
  cases hdelta : getDict data "delta" with
  | none => exact .inl rfl
  | some delta =>
      dsimp only
      cases getDict delta "citation" with
      | none => exact .inl rfl
      | some citation =>
          dsimp only
          cases getStr citation "cited_text" with
          | none => exact .inl rfl
          | some cited =>
              dsimp only
              split_ifs
              · exact .inl rfl
              · exact .inr ⟨delta, _, rfl, rfl⟩

theorem frame_audited (cfg : GatewayConfig) (e : SseEvent) :
    (AnthropicRelay.audited cfg e).frame = e.frame := by
  unfold AnthropicRelay.audited
  split_ifs
  · cases auditCitation_cases cfg e.data with
    | inl hsame => rw [hsame]
    | inr hcited =>
        obtain ⟨delta, v, hdelta, heq⟩ := hcited
        have htype : getStr (AnthropicRelay.auditCitation cfg e.data) "type" = getStr e.data "type" := by
          unfold getStr
          rw [heq, get_setMember_ne (by decide)]
        have hindex : blockIndex (AnthropicRelay.auditCitation cfg e.data) = blockIndex e.data := by
          unfold blockIndex
          rw [heq, get_setMember_ne (by decide)]
        have hblock : typeIn (AnthropicRelay.auditCitation cfg e.data) "content_block" =
            typeIn e.data "content_block" := by
          unfold typeIn getDict
          rw [heq, get_setMember_ne (by decide)]
        have hinner : typeIn (AnthropicRelay.auditCitation cfg e.data) "delta" =
            typeIn e.data "delta" := by
          unfold typeIn
          rw [heq, getDict_setMember (isSome_of_getDict hdelta), hdelta]
          unfold getStr
          rw [Option.bind_some, Option.bind_some, get_setMember_ne (by decide)]
        unfold SseEvent.frame frameOf
        simp only [htype, hindex, hblock, hinner]
  · rfl

/-- A piece of text is framed as a delta of the kind it arrived as. -/
theorem frame_text (index : ℤ) (token : Text) (kind : DeltaKind) :
    (ClientEvent.text index token kind).frame.frame = .blockDelta index kind.typeName := by
  cases kind <;> rfl

theorem frame_stopEvent (index : ℤ) :
    (AnthropicRelay.stopEvent index).frame.frame = .blockStop index := by
  rfl

theorem frames_refusalEnd :
    frames (AnthropicRelay.refusalEnd.map ClientEvent.frame) = [.messageDelta, .messageStop] := by
  rfl

end BlackMonolith.TraceAudit
