import Mathlib
import BlackMonolith.TraceAudit.CollectedMessage

/-!
# Blocks that a document can hold

`collect_message` takes a type, an id and a name from the start of a block, and what came in
deltas. That is the whole block of a streaming client for a text, a thought and a tool call
that begin empty; a citation, a text at the start and any other member are lost.
-/
namespace BlackMonolith.TraceAudit
open Library

/-! ## One block -/

def emptyBlock (first : Members) : CollectedBlock where
  type := (getStr first "type").getD (lit "text")
  id := (getStr first "id").getD (lit "")
  name := (getStr first "name").getD (lit "")

def CollectedBlock.add (block : CollectedBlock) : BlockDelta → CollectedBlock
  | .text kind token => block.append kind token
  | .signature signature => { block with signature := signature }
  | .citation _ => block

/-- What came of one kind of text. -/
def tokens (kind : DeltaKind) (deltas : List BlockDelta) : Text :=
  deltas.flatMap fun delta => match delta with
    | .text k token => if k = kind then token else []
    | _ => []

theorem tokens_cons_of_ne {kind : DeltaKind} {delta : BlockDelta} {deltas : List BlockDelta}
    (h : ∀ token, delta ≠ .text kind token) : tokens kind (delta :: deltas) =
      tokens kind deltas := by
  unfold tokens
  rw [List.flatMap_cons]
  cases delta with
  | signature signature | citation citation => rfl
  | text k token =>
      dsimp only
      rw [if_neg fun heq => h token (by rw [heq]), List.nil_append]

def signatures (deltas : List BlockDelta) : List PyString :=
  deltas.filterMap fun delta => match delta with
    | .signature signature => some signature
    | _ => none

def citations (deltas : List BlockDelta) : List PyJson :=
  deltas.filterMap fun delta => match delta with
    | .citation citation => some citation
    | _ => none

/-- A block of the document, by what came for it. -/
theorem collected_add (block : CollectedBlock) (deltas : List BlockDelta) :
    deltas.foldl CollectedBlock.add block =
      { block with
        text := block.text ++ tokens .text deltas
        partialJson := block.partialJson ++ tokens .inputJson deltas
        thinking := block.thinking ++ tokens .thinking deltas
        signature := (signatures deltas).getLast?.getD block.signature } := by
  induction deltas generalizing block with
  | nil =>
      simp only [List.foldl_nil, tokens, List.flatMap_nil, List.append_nil, signatures,
        List.filterMap_nil, List.getLast?_nil, Option.getD_none]
  | cons delta deltas ih =>
      rw [List.foldl_cons, ih]
      unfold tokens signatures
      simp only [List.flatMap_cons, List.filterMap_cons]
      cases delta with
      | citation citation => rfl
      | signature signature =>
          simp only [CollectedBlock.add, List.nil_append, List.getLast?_cons, Option.getD_some]
      | text kind token =>
          cases kind
          · simp [CollectedBlock.add, CollectedBlock.append]
          · simp [CollectedBlock.add, CollectedBlock.append]
          · simp [CollectedBlock.add, CollectedBlock.append]

namespace StreamedBlock
variable {block : StreamedBlock} {deltas : List BlockDelta} {key : PyString}

theorem get_eq (d : Members) (key : String) :
    PyJson.get d key = InsertionMap.lookupIn (lit key) d := by
  induction d with
  | nil => rfl
  | cons member d ih =>
      unfold PyJson.get at ih ⊢
      rw [List.find?_cons, InsertionMap.lookupIn]
      by_cases hkey : member.1 = lit key
      · have hkey' : member.1 = PyString.ofString key := hkey
        rw [decide_eq_true hkey', if_pos hkey]
        rfl
      · have hkey' : ¬ member.1 = PyString.ofString key := hkey
        rw [decide_eq_false hkey', if_neg hkey]
        exact ih

theorem arguments_add (block : StreamedBlock) (deltas : List BlockDelta) :
    (deltas.foldl add block).arguments = block.arguments ++ tokens .inputJson deltas := by
  induction deltas generalizing block with
  | nil => exact (List.append_nil _).symm
  | cons delta deltas ih =>
      rw [List.foldl_cons, ih]
      unfold tokens
      rw [List.flatMap_cons]
      cases delta with
      | citation citation => rfl
      | signature signature => rfl
      | text kind token =>
          cases kind
          · rfl
          · exact List.append_assoc _ _ _
          · rfl

/-- The member that a delta changes. -/
def changedKey : BlockDelta → Option String
  | .text .text _ => some "text"
  | .text .thinking _ => some "thinking"
  | .text .inputJson _ => none
  | .signature _ => some "signature"
  | .citation _ => some "citations"

theorem lookup_add_of_ne {delta : BlockDelta} (h : ∀ s ∈ changedKey delta, lit s ≠ key) :
    InsertionMap.lookupIn key (block.add delta).members =
      InsertionMap.lookupIn key block.members := by
  cases delta with
  | text kind token =>
      cases kind with
      | inputJson => rfl
      | text => exact (InsertionMap.lookupIn_setIn _).trans (if_neg (h "text" rfl))
      | thinking => exact (InsertionMap.lookupIn_setIn _).trans (if_neg (h "thinking" rfl))
  | signature signature =>
      exact (InsertionMap.lookupIn_setIn _).trans (if_neg (h "signature" rfl))
  | citation citation =>
      exact (InsertionMap.lookupIn_setIn _).trans (if_neg (h "citations" rfl))

theorem lookup_of_untouched (h : ∀ delta ∈ deltas, ∀ s ∈ changedKey delta, lit s ≠ key) :
    InsertionMap.lookupIn key (deltas.foldl add block).members =
      InsertionMap.lookupIn key block.members := by
  induction deltas generalizing block with
  | nil => rfl
  | cons delta deltas ih =>
      obtain ⟨hfirst, hrest⟩ := List.forall_mem_cons.mp h
      rw [List.foldl_cons, ih hrest, lookup_add_of_ne hfirst]

theorem lookup_add_text {kind : DeltaKind} {token : Text} (htext : lit "text" ≠ key)
    (hthinking : lit "thinking" ≠ key) :
    InsertionMap.lookupIn key (block.add (.text kind token)).members =
      InsertionMap.lookupIn key block.members := by
  apply lookup_add_of_ne
  intro s hs
  cases kind with
  | inputJson => cases hs
  | text =>
      cases hs
      exact htext
  | thinking =>
      cases hs
      exact hthinking

theorem getStr_eq (d : Members) (key : String) :
    getStr d key = (InsertionMap.lookupIn (lit key) d).bind PyJson.asStr := by
  rw [getStr, get_eq]

theorem lookup_of_getStr {d : Members} {key : String} {s : PyString}
    (h : getStr d key = some s) : InsertionMap.lookupIn (lit key) d = some (.str s) := by
  rw [getStr_eq] at h
  obtain ⟨v, hv, hs⟩ := Option.bind_eq_some_iff.mp h
  rw [hv]
  cases v with
  | str t =>
      cases hs
      rfl
  | _ => cases hs

/-- A delta of no text of a kind leaves that text as it is. -/
theorem lookup_add_of_no_tokens {kind : DeltaKind} {delta : BlockDelta}
    (hkind : kind ≠ .inputJson) (h : ∀ token, delta ≠ .text kind token) :
    InsertionMap.lookupIn (lit kind.payloadField) (block.add delta).members =
      InsertionMap.lookupIn (lit kind.payloadField) block.members := by
  apply lookup_add_of_ne
  intro s hs heq
  have hname := lit_inj.mp heq
  cases kind with
  | inputJson => exact hkind rfl
  | text =>
      cases delta with
      | signature signature | citation citation =>
          cases hs
          exact absurd hname (by decide)
      | text k token =>
          cases k with
          | text => exact h token rfl
          | inputJson => cases hs
          | thinking =>
              cases hs
              exact absurd hname (by decide)
  | thinking =>
      cases delta with
      | signature signature | citation citation =>
          cases hs
          exact absurd hname (by decide)
      | text k token =>
          cases k with
          | thinking => exact h token rfl
          | inputJson => cases hs
          | text =>
              cases hs
              exact absurd hname (by decide)

/-- A text that a block begins with grows by what comes for it. -/
theorem text_add {kind : DeltaKind} (hkind : kind ≠ .inputJson) {s : PyString}
    (h : getStr block.members kind.payloadField = some s) :
    getStr (deltas.foldl add block).members kind.payloadField =
      some ⟨s.points ++ tokens kind deltas⟩ := by
  induction deltas generalizing block s with
  | nil =>
      rw [List.foldl_nil, h]
      exact congrArg some (congrArg PyString.mk (List.append_nil _).symm)
  | cons delta deltas ih =>
      rw [List.foldl_cons]
      by_cases htoken : ∃ token, delta = .text kind token
      · obtain ⟨token, rfl⟩ := htoken
        have happend : getStr (block.add (.text kind token)).members kind.payloadField =
            some ⟨s.points ++ token⟩ := by
          have hset : (block.add (.text kind token)).members =
              append block.members kind.payloadField token := by
            cases kind with
            | inputJson => exact absurd rfl hkind
            | text => rfl
            | thinking => rfl
          rw [hset, append, getStr_eq, InsertionMap.lookupIn_setIn, if_pos rfl, h]
          rfl
        rw [ih happend]
        unfold tokens
        rw [List.flatMap_cons]
        simp only [if_true, List.append_assoc]
      · have hother : ∀ token, delta ≠ .text kind token :=
          fun token heq => htoken ⟨token, heq⟩
        have hkept : getStr (block.add delta).members kind.payloadField = some s := by
          rw [getStr_eq, lookup_add_of_no_tokens hkind hother, ← getStr_eq]
          exact h
        rw [ih hkept, tokens_cons_of_ne hother]

/-- The signature is the last that came, or the one a block begins with. -/
theorem signature_add : InsertionMap.lookupIn (lit "signature") (deltas.foldl add block).members =
    ((signatures deltas).getLast?.map PyJson.str).or
      (InsertionMap.lookupIn (lit "signature") block.members) := by
  induction deltas generalizing block with
  | nil => rfl
  | cons delta deltas ih =>
      rw [List.foldl_cons, ih]
      unfold signatures
      rw [List.filterMap_cons]
      cases delta with
      | signature signature =>
          dsimp only
          rw [List.getLast?_cons]
          have hset : InsertionMap.lookupIn (lit "signature")
              (block.add (.signature signature)).members = some (.str signature) :=
            (InsertionMap.lookupIn_setIn _).trans (if_pos rfl)
          rw [hset]
          cases (List.filterMap (fun delta => match delta with
            | BlockDelta.signature signature => some signature
            | _ => none) deltas).getLast? with
          | none => rfl
          | some last => rfl
      | citation citation =>
          dsimp only
          rw [lookup_add_of_ne]
          rintro key ⟨⟩
          simp
      | text kind token =>
          dsimp only
          rw [lookup_add_text (by simp) (by simp)]

/-- A block that was given a citation has citations. -/
theorem citations_add (h : citations deltas ≠ [] ∨
    (InsertionMap.lookupIn (lit "citations") block.members).isSome) :
    (InsertionMap.lookupIn (lit "citations") (deltas.foldl add block).members).isSome := by
  induction deltas generalizing block with
  | nil => exact h.resolve_left fun hne => hne rfl
  | cons delta deltas ih =>
      rw [List.foldl_cons]
      apply ih
      unfold citations at h ⊢
      rw [List.filterMap_cons] at h
      cases delta with
      | citation citation =>
          right
          have hset : (InsertionMap.lookupIn (lit "citations")
              (block.add (.citation citation)).members).isSome := by
            unfold add
            rw [InsertionMap.lookupIn_setIn, if_pos rfl]
            rfl
          exact hset
      | signature signature =>
          refine h.imp id fun hold => ?_
          rw [lookup_add_of_ne]
          · exact hold
          · rintro key ⟨⟩
            simp
      | text kind token =>
          refine h.imp id fun hold => ?_
          rw [lookup_add_text (by simp) (by simp)]
          exact hold

end StreamedBlock

/-! ## When a block of the document is that of the client -/

def SameMembers (d d' : Members) : Prop :=
  ∀ key, InsertionMap.lookupIn key d = InsertionMap.lookupIn key d'

/-- The members have no other keys. -/
def Only (keys : List String) (d : Members) : Prop :=
  ∀ key, (∀ s ∈ keys, lit s ≠ key) → InsertionMap.lookupIn key d = none

/-- A block of a kind that `collect_message` knows: an empty text without citations, an empty
thought that is signed or has an empty signature, or a tool call with an id and a name whose
arguments come in deltas. -/
def PlainBlock (first : Members) (deltas : List BlockDelta) : Prop :=
  if getStr first "type" = some (lit "text") then
    Only ["type", "text"] first ∧ getStr first "text" = some (lit "") ∧ citations deltas = []
  else if getStr first "type" = some (lit "thinking") then
    Only ["type", "thinking", "signature"] first ∧ getStr first "thinking" = some (lit "") ∧
      (signatures deltas = [] → getStr first "signature" = some (lit ""))
  else
    Only ["type", "id", "name", "input"] first ∧
      (getStr first "id").isSome ∧ (getStr first "name").isSome ∧
        (tokens .inputJson deltas = [] → PyJson.get first "input" = some (.dict []))

section
variable {first : Members} {deltas : List BlockDelta} {type : PyString}

/-- The type of a block, by a delta that fits it. -/
theorem type_of_fits {delta : BlockDelta} (htype : getStr first "type" = some type)
    (h : FitsBlock first delta) :
    match delta with
    | .text .text _ | .citation _ => type = lit "text"
    | .text .thinking _ | .signature _ => type = lit "thinking"
    | .text .inputJson _ => type ≠ lit "text" ∧ type ≠ lit "thinking" := by
  obtain ⟨type', htype', hfits⟩ := h
  rw [htype] at htype'
  cases htype'
  unfold deltaFits at hfits
  cases delta with
  | citation citation =>
      simpa [BlockDelta.typeName, citationDeltaKind] using hfits
  | signature signature =>
      simpa [BlockDelta.typeName] using hfits
  | text kind token =>
      cases kind with
      | text => simpa [BlockDelta.typeName, DeltaKind.typeName] using hfits
      | thinking => simpa [BlockDelta.typeName, DeltaKind.typeName] using hfits
      | inputJson =>
          have htools : type = lit "tool_use" ∨ type = lit "server_tool_use" ∨
              type = lit "mcp_tool_use" := by
            simpa [BlockDelta.typeName, DeltaKind.typeName] using hfits
          rcases htools with rfl | rfl | rfl
          · simp
          · simp
          · simp

theorem no_arguments (h : ∀ delta ∈ deltas, ∀ token, delta ≠ .text .inputJson token) :
    tokens .inputJson deltas = [] := by
  induction deltas with
  | nil => rfl
  | cons delta deltas ih =>
      obtain ⟨hfirst, hrest⟩ := List.forall_mem_cons.mp h
      rw [tokens_cons_of_ne hfirst, ih hrest]

/-- What a delta that fits a block can change. -/
theorem changed_of_fits {delta : BlockDelta} (htype : getStr first "type" = some type)
    (hfits : FitsBlock first delta) {s : String} (hs : s ∈ StreamedBlock.changedKey delta) :
    type = lit "text" ∧ (s = "text" ∨ ∃ citation, delta = .citation citation) ∨
      type = lit "thinking" ∧ (s = "thinking" ∨ s = "signature") := by
  have hkind := type_of_fits htype hfits
  cases delta with
  | citation citation => exact Or.inl ⟨hkind, Or.inr ⟨citation, rfl⟩⟩
  | signature signature =>
      cases hs
      exact Or.inr ⟨hkind, Or.inr rfl⟩
  | text kind token =>
      cases kind with
      | inputJson => cases hs
      | text =>
          cases hs
          exact Or.inl ⟨hkind, Or.inl rfl⟩
      | thinking =>
          cases hs
          exact Or.inr ⟨hkind, Or.inl rfl⟩

/-- Without arguments a block is closed as it is. -/
theorem close_of_no_arguments {reader : JsonReader} (h : tokens .inputJson deltas = []) :
    (deltas.foldl StreamedBlock.add ⟨first, []⟩).close reader =
      some (deltas.foldl StreamedBlock.add ⟨first, []⟩).members := by
  have harguments : (deltas.foldl StreamedBlock.add ⟨first, []⟩).arguments = [] := by
    rw [StreamedBlock.arguments_add, h]
    rfl
  rw [StreamedBlock.close, if_pos harguments]

theorem mem_citations {citation : PyJson} (h : .citation citation ∈ deltas) :
    citations deltas ≠ [] := by
  intro hnone
  have hmem : citation ∈ citations deltas := List.mem_filterMap.mpr ⟨_, h, rfl⟩
  rw [hnone] at hmem
  cases hmem

/-- A text block. -/
theorem same_text_iff (htype : getStr first "type" = some (lit "text"))
    (hfits : ∀ delta ∈ deltas, FitsBlock first delta) {s : PyString}
    (htext : getStr first "text" = some s) :
    SameMembers [(lit "type", str "text"), (lit "text", .str ⟨tokens .text deltas⟩)]
        (deltas.foldl StreamedBlock.add ⟨first, []⟩).members ↔ PlainBlock first deltas := by
  have hfinal := StreamedBlock.lookup_of_getStr (@StreamedBlock.text_add ⟨first, []⟩ deltas .text
    (by decide) s htext)
  change InsertionMap.lookupIn (lit "text") _ = _ at hfinal
  -- Without citations, only the text changes.
  have huntouched : ∀ key, citations deltas = [] → lit "text" ≠ key →
      InsertionMap.lookupIn key (deltas.foldl StreamedBlock.add ⟨first, []⟩).members =
        InsertionMap.lookupIn key first := by
    intro key hnone hkey
    apply StreamedBlock.lookup_of_untouched
    intro delta hdelta name hname
    rcases changed_of_fits htype (hfits delta hdelta) hname with
      ⟨-, rfl | ⟨citation, rfl⟩⟩ | ⟨hthinking, -⟩
    · exact hkey
    · exact absurd hnone (mem_citations hdelta)
    · exact absurd (lit_inj.mp hthinking) (by decide)
  have htypeLookup := StreamedBlock.lookup_of_getStr htype
  rw [PlainBlock, if_pos htype]
  constructor
  · intro hsame
    have hnone : citations deltas = [] := by
      by_contra hsome
      have hkept := @StreamedBlock.citations_add ⟨first, []⟩ deltas (Or.inl hsome)
      rw [← hsame (lit "citations")] at hkept
      simp [InsertionMap.lookupIn] at hkept
    refine ⟨fun key hkey => ?_, ?_, hnone⟩
    · rw [← huntouched key hnone (hkey "text" (by decide)), ← hsame key]
      simp only [InsertionMap.lookupIn, if_neg (hkey "type" (by decide)),
        if_neg (hkey "text" (by decide))]
    · have hboth := hsame (lit "text")
      rw [hfinal] at hboth
      simp only [InsertionMap.lookupIn, lit_inj, String.reduceEq, if_false, if_true,
        Option.some.injEq, PyJson.str.injEq, PyString.mk.injEq] at hboth
      have hempty : s.points = [] := List.append_left_eq_self.mp hboth.symm
      rw [htext]
      exact congrArg (fun t => some (PyString.mk t)) hempty
  · rintro ⟨honly, hempty, hnone⟩ key
    by_cases htextKey : lit "text" = key
    · subst htextKey
      rw [hfinal]
      rw [htext] at hempty
      cases hempty
      simp only [InsertionMap.lookupIn, lit_inj, String.reduceEq, if_false, if_true]
      rfl
    · rw [huntouched key hnone htextKey]
      by_cases htypeKey : lit "type" = key
      · subst htypeKey
        rw [htypeLookup]
        simp only [InsertionMap.lookupIn, if_true]
        rfl
      · rw [honly key (by simp [htypeKey, htextKey])]
        simp only [InsertionMap.lookupIn, if_neg htypeKey, if_neg htextKey]

/-- A thinking block. -/
theorem same_thinking_iff (htype : getStr first "type" = some (lit "thinking"))
    (hfits : ∀ delta ∈ deltas, FitsBlock first delta) {s : PyString}
    (hthinking : getStr first "thinking" = some s) :
    SameMembers [(lit "type", str "thinking"), (lit "thinking", .str ⟨tokens .thinking deltas⟩),
        (lit "signature", .str ((signatures deltas).getLast?.getD (lit "")))]
        (deltas.foldl StreamedBlock.add ⟨first, []⟩).members ↔ PlainBlock first deltas := by
  have hfinal := StreamedBlock.lookup_of_getStr (@StreamedBlock.text_add ⟨first, []⟩ deltas
    .thinking (by decide) s hthinking)
  change InsertionMap.lookupIn (lit "thinking") _ = _ at hfinal
  have hsigned := @StreamedBlock.signature_add ⟨first, []⟩ deltas
  have huntouched : ∀ key, lit "thinking" ≠ key → lit "signature" ≠ key →
      InsertionMap.lookupIn key (deltas.foldl StreamedBlock.add ⟨first, []⟩).members =
        InsertionMap.lookupIn key first := by
    intro key hkey hkey'
    apply StreamedBlock.lookup_of_untouched
    intro delta hdelta name hname
    rcases changed_of_fits htype (hfits delta hdelta) hname with
      ⟨htext, -⟩ | ⟨-, rfl | rfl⟩
    · exact absurd (lit_inj.mp htext) (by decide)
    · exact hkey
    · exact hkey'
  have htypeLookup := StreamedBlock.lookup_of_getStr htype
  have hne : ¬ getStr first "type" = some (lit "text") := by
    rw [htype, Option.some.injEq, lit_inj]
    decide
  rw [PlainBlock, if_neg hne, if_pos htype]
  constructor
  · intro hsame
    refine ⟨fun key hkey => ?_, ?_, fun hnone => ?_⟩
    · have hthinkingKey := hkey "thinking" (by decide)
      have hsignatureKey := hkey "signature" (by decide)
      rw [← huntouched key hthinkingKey hsignatureKey, ← hsame key]
      simp only [InsertionMap.lookupIn, if_neg (hkey "type" (by decide)), if_neg hthinkingKey,
        if_neg hsignatureKey]
    · have hboth := hsame (lit "thinking")
      rw [hfinal] at hboth
      simp only [InsertionMap.lookupIn, lit_inj, String.reduceEq, if_false, if_true,
        Option.some.injEq, PyJson.str.injEq, PyString.mk.injEq] at hboth
      have hempty : s.points = [] := List.append_left_eq_self.mp hboth.symm
      rw [hthinking]
      exact congrArg (fun t => some (PyString.mk t)) hempty
    · have hboth := hsame (lit "signature")
      rw [hsigned, hnone] at hboth
      simp only [InsertionMap.lookupIn, lit_inj, String.reduceEq, if_false, if_true,
        List.getLast?_nil, Option.getD_none, Option.map_none, Option.none_or] at hboth
      rw [StreamedBlock.getStr_eq, ← hboth]
      rfl
  · rintro ⟨honly, hempty, hsignature⟩ key
    by_cases hthinkingKey : lit "thinking" = key
    · subst hthinkingKey
      rw [hfinal]
      rw [hthinking] at hempty
      cases hempty
      simp only [InsertionMap.lookupIn, lit_inj, String.reduceEq, if_false, if_true]
      rfl
    by_cases hsignatureKey : lit "signature" = key
    · subst hsignatureKey
      rw [hsigned]
      simp only [InsertionMap.lookupIn, lit_inj, String.reduceEq, if_false, if_true]
      cases hlast : (signatures deltas).getLast? with
      | some last => rfl
      | none =>
          have hnone := List.getLast?_eq_none_iff.mp hlast
          exact (StreamedBlock.lookup_of_getStr (hsignature hnone)).symm
    rw [huntouched key hthinkingKey hsignatureKey]
    by_cases htypeKey : lit "type" = key
    · subst htypeKey
      rw [htypeLookup]
      simp only [InsertionMap.lookupIn, if_true]
      rfl
    · rw [honly key (by simp [htypeKey, hthinkingKey, hsignatureKey])]
      simp only [InsertionMap.lookupIn, if_neg htypeKey, if_neg hthinkingKey, if_neg hsignatureKey]

/-- The call that `collect_message` makes of a block of another type. -/
def callContent (type : PyString) (first : Members) (input : PyJson) : Members :=
  [(lit "type", .str type), (lit "id", .str ((getStr first "id").getD (lit ""))),
    (lit "name", .str ((getStr first "name").getD (lit ""))), (lit "input", input)]

/-- A member that is a string is what `collect_message` takes for it. -/
theorem lookup_string_iff (d : Members) (key : String) :
    some (PyJson.str ((getStr d key).getD (lit ""))) = InsertionMap.lookupIn (lit key) d ↔
      (getStr d key).isSome := by
  constructor
  · intro h
    rw [StreamedBlock.getStr_eq, ← h]
    rfl
  · intro h
    obtain ⟨s, hs⟩ := Option.isSome_iff_exists.mp h
    rw [StreamedBlock.lookup_of_getStr hs, hs]
    rfl

/-- A tool call, by the input that both read. -/
theorem same_call_iff {members : Members} {input : PyJson}
    (htype : getStr first "type" = some type)
    (hkept : ∀ key, lit "input" ≠ key →
      InsertionMap.lookupIn key members = InsertionMap.lookupIn key first) :
    SameMembers (callContent type first input) members ↔
      Only ["type", "id", "name", "input"] first ∧
        (getStr first "id").isSome ∧ (getStr first "name").isSome ∧
          InsertionMap.lookupIn (lit "input") members = some input := by
  have htypeLookup := StreamedBlock.lookup_of_getStr htype
  have hat : ∀ s, s ≠ "input" →
      InsertionMap.lookupIn (lit s) members = InsertionMap.lookupIn (lit s) first :=
    fun s hs => hkept (lit s) fun heq => hs (lit_inj.mp heq).symm
  unfold callContent
  constructor
  · intro hsame
    refine ⟨fun key hkey => ?_, ?_, ?_, ?_⟩
    · have hinputKey := hkey "input" (by decide)
      rw [← hkept key hinputKey, ← hsame key]
      simp only [InsertionMap.lookupIn, if_neg (hkey "type" (by decide)),
        if_neg (hkey "id" (by decide)), if_neg (hkey "name" (by decide)), if_neg hinputKey]
    · have hboth := hsame (lit "id")
      rw [hat "id" (by decide)] at hboth
      simp only [InsertionMap.lookupIn, lit_inj, String.reduceEq, if_false, if_true] at hboth
      exact (lookup_string_iff first "id").mp hboth
    · have hboth := hsame (lit "name")
      rw [hat "name" (by decide)] at hboth
      simp only [InsertionMap.lookupIn, lit_inj, String.reduceEq, if_false, if_true] at hboth
      exact (lookup_string_iff first "name").mp hboth
    · have hboth := hsame (lit "input")
      simp only [InsertionMap.lookupIn, lit_inj, String.reduceEq, if_false, if_true] at hboth
      exact hboth.symm
  · rintro ⟨honly, hid, hname, hinput⟩ key
    by_cases hinputKey : lit "input" = key
    · subst hinputKey
      rw [hinput]
      simp only [InsertionMap.lookupIn, lit_inj, String.reduceEq, if_false, if_true]
    rw [hkept key hinputKey]
    by_cases htypeKey : lit "type" = key
    · subst htypeKey
      rw [htypeLookup]
      simp only [InsertionMap.lookupIn, if_true]
    by_cases hidKey : lit "id" = key
    · subst hidKey
      rw [← (lookup_string_iff first "id").mpr hid]
      simp only [InsertionMap.lookupIn, lit_inj, String.reduceEq, if_false, if_true]
    by_cases hnameKey : lit "name" = key
    · subst hnameKey
      rw [← (lookup_string_iff first "name").mpr hname]
      simp only [InsertionMap.lookupIn, lit_inj, String.reduceEq, if_false, if_true]
    rw [honly key (by simp [htypeKey, hidKey, hnameKey, hinputKey])]
    simp only [InsertionMap.lookupIn, if_neg htypeKey, if_neg hidKey, if_neg hnameKey,
      if_neg hinputKey]

/-- What a client can read, `collect_message` reads too. -/
theorem toolInput_of_loads {reader : JsonReader} {arguments : Text} {input : PyJson}
    (h : reader.loads arguments = .ok input) : toolInput reader arguments = some input := by
  have hstripped := reader.loads_strip arguments input h
  unfold toolInput
  dsimp only
  rw [if_neg, hstripped]
  intro hempty
  rw [hempty] at hstripped
  exact reader.loads_nil input hstripped

/-- A block that a client can close has its place in the document, and is the same there if
and only if it is plain. -/
theorem content_same_iff {reader : JsonReader} (htype : getStr first "type" = some type)
    (hfits : ∀ delta ∈ deltas, FitsBlock first delta)
    (htext : type = lit "text" → (getStr first "text").isSome)
    (hthinking : type = lit "thinking" → (getStr first "thinking").isSome) {members : Members}
    (hclosed : (deltas.foldl StreamedBlock.add ⟨first, []⟩).close reader = some members) :
    ∃ content, (deltas.foldl CollectedBlock.add (emptyBlock first)).content reader =
      some content ∧ (SameMembers content members ↔ PlainBlock first deltas) := by
  have hcollected : (emptyBlock first).type = type := by
    rw [emptyBlock, htype]
    rfl
  rw [collected_add, CollectedBlock.content]
  dsimp only
  rw [hcollected]
  by_cases htextType : type = lit "text"
  · subst htextType
    obtain ⟨s, hs⟩ := Option.isSome_iff_exists.mp (htext rfl)
    have hnone : tokens .inputJson deltas = [] := by
      apply no_arguments
      rintro delta hdelta token rfl
      exact (type_of_fits htype (hfits _ hdelta)).1 rfl
    rw [close_of_no_arguments hnone] at hclosed
    cases hclosed
    rw [if_pos rfl]
    exact ⟨_, rfl, same_text_iff htype hfits hs⟩
  by_cases hthinkingType : type = lit "thinking"
  · subst hthinkingType
    obtain ⟨s, hs⟩ := Option.isSome_iff_exists.mp (hthinking rfl)
    have hnone : tokens .inputJson deltas = [] := by
      apply no_arguments
      rintro delta hdelta token rfl
      exact (type_of_fits htype (hfits _ hdelta)).2 rfl
    rw [close_of_no_arguments hnone] at hclosed
    cases hclosed
    rw [if_neg htextType, if_pos rfl]
    exact ⟨_, rfl, same_thinking_iff htype hfits hs⟩
  rw [if_neg htextType, if_neg hthinkingType]
  have hplain : PlainBlock first deltas ↔ Only ["type", "id", "name", "input"] first ∧
      (getStr first "id").isSome ∧ (getStr first "name").isSome ∧
        (tokens .inputJson deltas = [] → PyJson.get first "input" = some (.dict [])) := by
    rw [PlainBlock, htype, if_neg, if_neg]
    · exact fun heq => hthinkingType (Option.some.inj heq)
    · exact fun heq => htextType (Option.some.inj heq)
  have huntouched : ∀ key,
      InsertionMap.lookupIn key (deltas.foldl StreamedBlock.add ⟨first, []⟩).members =
        InsertionMap.lookupIn key first := by
    intro key
    apply StreamedBlock.lookup_of_untouched
    intro delta hdelta name hname
    rcases changed_of_fits htype (hfits delta hdelta) hname with ⟨htext, -⟩ | ⟨hthinking, -⟩
    · exact absurd htext htextType
    · exact absurd hthinking hthinkingType
  have harguments : (deltas.foldl StreamedBlock.add ⟨first, []⟩).arguments =
      tokens .inputJson deltas := by
    rw [StreamedBlock.arguments_add]
    rfl
  have hjson : (emptyBlock first).partialJson ++ tokens .inputJson deltas =
      tokens .inputJson deltas := rfl
  rw [hjson, hplain]
  by_cases hnone : tokens .inputJson deltas = []
  · rw [close_of_no_arguments hnone] at hclosed
    cases hclosed
    have hempty : toolInput reader [] = some (.dict []) := by
      unfold toolInput
      exact if_pos rfl
    rw [hnone, hempty]
    refine ⟨callContent type first (.dict []), rfl, ?_⟩
    rw [same_call_iff htype fun key _ => huntouched key, huntouched]
    simp only [StreamedBlock.get_eq, true_imp_iff]
  · rw [StreamedBlock.close, harguments, if_neg hnone] at hclosed
    cases hread : reader.loads (tokens .inputJson deltas) with
    | error error =>
        rw [hread] at hclosed
        cases hclosed
    | ok input =>
        rw [hread] at hclosed
        cases hclosed
        rw [toolInput_of_loads hread]
        refine ⟨callContent type first input, rfl, ?_⟩
        rw [same_call_iff htype]
        · rw [InsertionMap.lookupIn_setIn, if_pos rfl]
          simp only [hnone, false_imp_iff, and_true]
        · intro key hkey
          rw [InsertionMap.lookupIn_setIn, if_neg hkey, huntouched]

end

end BlackMonolith.TraceAudit
