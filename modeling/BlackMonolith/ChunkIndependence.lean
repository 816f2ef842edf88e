import BlackMonolith.HttpTransport
import BlackMonolith.Library.Lists

/-!
# Event streams and their transport chunks

A stream has one answer, read from its bytes alone: the messages in the data of
its complete events, up to the response or to data that is no message, and the
failure to decode it where it stops being UTF-8. The bridge decodes and bounds
each chunk by itself, so it gives that answer for some ways of cutting the
stream and not for others.
-/
namespace BlackMonolith.ChunkIndependence
open Library Json HttpTransport

/-- The data of the complete events of a text, each complete with its blank line. -/
def payloads (text : List UInt8) : List (List UInt8) :=
  (Framing.completed endsEvent text).filterMap parseSseData

/-- The event that a text leaves without its blank line. -/
def inProgress (text : List UInt8) : List UInt8 := Framing.unfinished endsEvent text

theorem payloads_append (xs ys : List UInt8) :
    payloads (xs ++ ys) = payloads xs ++ payloads (inProgress xs ++ ys) := by
  rw [payloads, Framing.completed_append, List.filterMap_append]
  rfl

theorem inProgress_append (xs ys : List UInt8) :
    inProgress (xs ++ ys) = inProgress (inProgress xs ++ ys) :=
  Framing.unfinished_append xs ys

section
variable (fromStr : List UInt8 → Option Value) (requestId : Option Value)

/-- The messages of a list of payloads, up to the one that ends the reading. -/
def deliver : List (List UInt8) → List Value × Option (Option BridgeError)
  | [] => ([], none)
  | data :: rest =>
      match readData fromStr requestId data with
      | (emitted, some error) => (emitted, some error)
      | (emitted, none) => (emitted ++ (deliver rest).1, (deliver rest).2)

/-- What the bytes of a stream answer, however they were cut. -/
def answer (stream : List UInt8) : List Value × Option BridgeError :=
  let text := Utf8.wellFormedPrefix stream
  match deliver fromStr requestId (payloads text) with
  | (emitted, some error) => (emitted, error)
  | (emitted, none) =>
      (emitted,
        if text ≠ stream then some .notUtf8
        else if requestId.isSome then some .endedEarly
        else none)

/-- The bridge has read these chunks and goes on. -/
def Underway (before : List (List UInt8)) : Prop :=
  (∀ chunk ∈ before, Utf8.WellFormed chunk) ∧
    ∀ data ∈ payloads before.flatten, (readData fromStr requestId data).2 = none

/-- The chunk has room beside the event in progress and is text by itself; where
it is not, the stream is none either and holds no other data before its end. -/
def ReadAlike (stream : List UInt8) (before : List (List UInt8)) (chunk : List UInt8) : Prop :=
  (inProgress before.flatten).length + chunk.length ≤ maxSseBufferBytes ∧
    (Utf8.WellFormed chunk ∨
      ¬ Utf8.WellFormed stream ∧
        payloads (Utf8.wellFormedPrefix stream) = payloads before.flatten)

end

/-! ## Delivery -/

section
variable {fromStr : List UInt8 → Option Value} {requestId : Option Value}
  {xs ys : List (List UInt8)} {emitted : List Value} {error : Option BridgeError}

theorem deliver_append_of_none (h : deliver fromStr requestId xs = (emitted, none)) :
    deliver fromStr requestId (xs ++ ys) =
      (emitted ++ (deliver fromStr requestId ys).1, (deliver fromStr requestId ys).2) := by
  induction xs generalizing emitted with
  | nil =>
      cases h
      rfl
  | cons data xs ih =>
      rw [List.cons_append]
      rw [deliver] at h ⊢
      cases hread : readData fromStr requestId data with
      | mk read stop =>
          rw [hread] at h
          cases stop with
          | some error => cases h
          | none =>
              have hxs : deliver fromStr requestId xs = ((deliver fromStr requestId xs).1, none) :=
                Prod.ext rfl (Prod.mk.inj h).2
              dsimp only
              rw [ih hxs, ← (Prod.mk.inj h).1, List.append_assoc]

theorem deliver_append_of_some (h : deliver fromStr requestId xs = (emitted, some error)) :
    deliver fromStr requestId (xs ++ ys) = (emitted, some error) := by
  induction xs generalizing emitted with
  | nil => cases h
  | cons data xs ih =>
      rw [List.cons_append]
      rw [deliver] at h ⊢
      cases hread : readData fromStr requestId data with
      | mk read stop =>
          rw [hread] at h
          cases stop with
          | some stopped => exact h
          | none =>
              have hxs : deliver fromStr requestId xs =
                  ((deliver fromStr requestId xs).1, some error) :=
                Prod.ext rfl (Prod.mk.inj h).2
              dsimp only
              rw [ih hxs]
              exact Prod.ext (Prod.mk.inj h).1 rfl

theorem deliver_eq_none_iff :
    (deliver fromStr requestId xs).2 = none ↔
      ∀ data ∈ xs, (readData fromStr requestId data).2 = none := by
  induction xs with
  | nil =>
      constructor
      · intro _ data hdata
        cases hdata
      · intro _
        rfl
  | cons data xs ih =>
      rw [List.forall_mem_cons, ← ih, deliver]
      cases readData fromStr requestId data with
      | mk read stop =>
          cases stop with
          | none => exact (and_iff_right rfl).symm
          | some error =>
              constructor
              · intro h
                cases h
              · intro h
                cases h.1

/-- The errors data can end the reading with. -/
theorem readData_error (data : List UInt8) (h : (readData fromStr requestId data).2 = some error) :
    error ≠ some .notUtf8 ∧ error ≠ some .exceedsLimit := by
  unfold readData at h
  split at h
  · cases h
    exact ⟨by decide, by decide⟩
  · split_ifs at h with hvalid hterminal
    · cases h
      exact ⟨by decide, by decide⟩
    · cases h
      exact ⟨by decide, by decide⟩

theorem deliver_error (h : (deliver fromStr requestId xs).2 = some error) :
    error ≠ some .notUtf8 ∧ error ≠ some .exceedsLimit := by
  induction xs with
  | nil => cases h
  | cons data xs ih =>
      rw [deliver] at h
      have hdata := @readData_error fromStr requestId error data
      cases hread : readData fromStr requestId data with
      | mk read stop =>
          rw [hread] at h hdata
          cases stop with
          | none => exact ih h
          | some stopped => exact hdata h

/-- Data that neither fails nor is refused is emitted. -/
theorem deliver_ne_nil {data : List UInt8} :
    (deliver fromStr requestId (data :: xs)).1 ≠ [] ∨
      ∃ error, (deliver fromStr requestId (data :: xs)).2 = some error := by
  rw [deliver, readData]
  cases fromStr data with
  | none => exact Or.inr ⟨_, rfl⟩
  | some value =>
      dsimp only
      split_ifs
      · exact Or.inl (List.cons_ne_nil _ _)
      · exact Or.inl (List.cons_ne_nil _ _)
      · exact Or.inr ⟨_, rfl⟩

end

/-! ## The answer of a stream -/

section
variable {fromStr : List UInt8 → Option Value} {requestId : Option Value}
  {text stream : List UInt8} {more : List (List UInt8)} {emitted : List Value}
  {error : Option BridgeError}

/-- The data of a text stay the first data of every stream that begins with it. -/
theorem payloads_of_prefix (h : Utf8.WellFormed text) (later : List UInt8) :
    ∃ more, payloads (Utf8.wellFormedPrefix (text ++ later)) = payloads text ++ more := by
  obtain ⟨rest, hrest⟩ := Utf8.prefix_wellFormedPrefix h later
  exact ⟨payloads (inProgress text ++ rest), by rw [← hrest, payloads_append]⟩

theorem answer_of_ended (hmore : payloads (Utf8.wellFormedPrefix stream) = payloads text ++ more)
    (h : deliver fromStr requestId (payloads text) = (emitted, some error)) :
    answer fromStr requestId stream = (emitted, error) := by
  unfold answer
  simp only [hmore, deliver_append_of_some h]

theorem answer_of_wellFormed (h : deliver fromStr requestId (payloads stream) = (emitted, none))
    (hstream : Utf8.WellFormed stream) :
    answer fromStr requestId stream =
      (emitted, if requestId.isSome then some .endedEarly else none) := by
  unfold answer
  simp only [Utf8.wellFormedPrefix_eq_self_iff.mpr hstream, h, ne_eq, not_true, if_false]

theorem answer_error_ne : (answer fromStr requestId stream).2 ≠ some .exceedsLimit := by
  have hdeliver := @deliver_error fromStr requestId (payloads (Utf8.wellFormedPrefix stream))
  unfold answer
  dsimp only
  split
  · rename_i read stopped hread
    rw [hread] at hdeliver
    exact (hdeliver rfl).2
  · intro h
    split_ifs at h
    · cases h
    · cases h

/-- A stream fails to decode after these messages when it is no text and holds
no further data. -/
theorem answer_eq_notUtf8_iff
    (hmore : payloads (Utf8.wellFormedPrefix stream) = payloads text ++ more)
    (h : deliver fromStr requestId (payloads text) = (emitted, none)) :
    answer fromStr requestId stream = (emitted, some .notUtf8) ↔
      ¬ Utf8.WellFormed stream ∧ more = [] := by
  have hread := @deliver_append_of_none _ _ _ more _ h
  rw [← hmore] at hread
  unfold answer
  simp only [hread]
  cases more with
  | nil =>
      simp only [deliver, List.append_nil, and_true, Prod.mk.injEq, true_and]
      rw [← Utf8.wellFormedPrefix_eq_self_iff]
      split_ifs with hwhole
      · exact iff_of_true rfl hwhole
      · exact iff_of_false (by decide) hwhole
      · exact iff_of_false (by decide) hwhole
  | cons data more =>
      apply iff_of_false _ fun hboth => List.cons_ne_nil data more hboth.2
      intro heq
      have hnotUtf8 := @deliver_error fromStr requestId (data :: more)
      cases hdata : (deliver fromStr requestId (data :: more)).2 with
      | some error =>
          rw [hdata] at heq hnotUtf8
          exact (hnotUtf8 rfl).1 (Prod.mk.inj heq).2
      | none =>
          rw [hdata] at heq
          have hnil := List.append_right_eq_self.mp (Prod.mk.inj heq).1
          cases @deliver_ne_nil fromStr requestId more data with
          | inl hne => exact hne hnil
          | inr hstop =>
              obtain ⟨error, herror⟩ := hstop
              rw [hdata] at herror
              cases herror

end

/-! ## Reading the chunks -/

section
variable {value : List UInt8}

theorem frames_of_nextSseEvent_none (h : nextSseEvent value = none) :
    payloads value = [] ∧ inProgress value = value := by
  have hframes : Framing.frames endsEvent [] value = ([], value) := by
    apply Framing.frames_of_none
    intro n _ hn
    rw [List.nil_append]
    rw [List.length_nil, Nat.zero_add] at hn
    exact nextSseEvent_none h hn
  rw [payloads, inProgress, Framing.completed, Framing.unfinished, hframes]
  exact ⟨rfl, rfl⟩

theorem frames_of_nextSseEvent_some {raw consumed : ℕ}
    (h : nextSseEvent value = some (raw, consumed)) :
    payloads value = (parseSseData (value.take raw)).toList ++ payloads (value.drop consumed) ∧
      inProgress value = inProgress (value.drop consumed) := by
  have hfirst := nextSseEvent_some h
  have hle := hfirst.le
  have hframes := @Framing.frames_of_some _ endsEvent [] value _ _ hfirst.pos
    (by rw [List.length_nil]; omega) (fun m _ hm => hfirst.first m hm) hfirst.ends
  rw [List.nil_append] at hframes
  rw [payloads, inProgress, Framing.completed, Framing.unfinished, hframes]
  constructor
  · dsimp only
    rw [List.filterMap_cons]
    cases parseSseData (value.take raw) with
    | none => rfl
    | some data => rfl
  · rfl

end

/-- How reading goes on after the messages of a text. -/
def progressAfter (text : List UInt8) : Option (Option BridgeError) → Progress
  | none => .goesOn (inProgress text)
  | some error => .ended error

section
variable {fromStr : List UInt8 → Option Value} {requestId : Option Value}

theorem deliver_toList_append (event : List UInt8) (rest : List (List UInt8)) :
    deliver fromStr requestId ((parseSseData event).toList ++ rest) =
      match readEvent fromStr requestId event with
      | (emitted, some error) => (emitted, some error)
      | (emitted, none) =>
          (emitted ++ (deliver fromStr requestId rest).1, (deliver fromStr requestId rest).2) := by
  rw [readEvent]
  cases parseSseData event with
  | none => rfl
  | some data => rfl

theorem drain_eq (pending : List UInt8) :
    drain fromStr requestId pending =
      ((deliver fromStr requestId (payloads pending)).1,
        progressAfter pending (deliver fromStr requestId (payloads pending)).2) := by
  induction pending using drain.induct fromStr requestId with
  | case1 pending h =>
      obtain ⟨hpayloads, hrest⟩ := frames_of_nextSseEvent_none h
      rw [drain_of_none h, hpayloads, deliver, progressAfter, hrest]
  | case2 pending raw consumed h emitted error hread =>
      obtain ⟨hpayloads, hrest⟩ := frames_of_nextSseEvent_some h
      rw [drain_of_some h, hpayloads, deliver_toList_append, hread]
      rfl
  | case3 pending raw consumed h emitted hread ih =>
      obtain ⟨hpayloads, hrest⟩ := frames_of_nextSseEvent_some h
      rw [drain_of_some h, hpayloads, deliver_toList_append, hread]
      dsimp only
      rw [ih]
      cases (deliver fromStr requestId (payloads (pending.drop consumed))).2 with
      | none => rw [progressAfter, progressAfter, hrest]
      | some error => rfl

/-- The chunks read so far are the text they make up. -/
theorem consumeFrom_cons_of_wellFormed {before : List UInt8} {chunk : List UInt8}
    {chunks : List (List UInt8)}
    (hroom : (inProgress before).length + chunk.length ≤ maxSseBufferBytes)
    (hchunk : Utf8.WellFormed chunk) :
    consumeFrom fromStr requestId (inProgress before) (chunk :: chunks) =
      match deliver fromStr requestId (payloads (inProgress before ++ chunk)) with
      | (emitted, some error) => (emitted, error)
      | (emitted, none) =>
          (emitted ++ (consumeFrom fromStr requestId (inProgress (before ++ chunk)) chunks).1,
            (consumeFrom fromStr requestId (inProgress (before ++ chunk)) chunks).2) := by
  rw [consumeFrom, if_neg (Nat.not_lt.mpr hroom), if_neg (not_not_intro hchunk), drain_eq,
    inProgress_append before chunk]
  cases deliver fromStr requestId (payloads (inProgress before ++ chunk)) with
  | mk emitted stop =>
      cases stop with
      | none => rfl
      | some error => rfl

theorem Underway.wellFormed {before : List (List UInt8)} {chunk : List UInt8}
    {between : List (List UInt8)} (h : Underway fromStr requestId (before ++ chunk :: between)) :
    Utf8.WellFormed chunk :=
  h.1 chunk (List.mem_append_right before List.mem_cons_self)

/-- A chunk leaves the reading unfinished when its new data do. -/
theorem underway_snoc_iff {before : List (List UInt8)} {chunk : List UInt8}
    (hunderway : Underway fromStr requestId before) (hchunk : Utf8.WellFormed chunk) :
    Underway fromStr requestId (before ++ [chunk]) ↔
      (deliver fromStr requestId (payloads (inProgress before.flatten ++ chunk))).2 = none := by
  have hflatten : (before ++ [chunk]).flatten = before.flatten ++ chunk := by
    rw [List.flatten_append, List.flatten_singleton]
  unfold Underway
  rw [deliver_eq_none_iff, hflatten, payloads_append]
  constructor
  · exact fun h data hdata => h.2 data (List.mem_append_right _ hdata)
  · intro h
    constructor
    · intro other hother
      cases List.mem_append.mp hother with
      | inl hbefore => exact hunderway.1 other hbefore
      | inr hlast => exact List.mem_singleton.mp hlast ▸ hchunk
    · intro data hdata
      cases List.mem_append.mp hdata with
      | inl hbefore => exact hunderway.2 data hbefore
      | inr hnew => exact h data hnew

theorem Underway.of_append {before between : List (List UInt8)}
    (h : Underway fromStr requestId (before ++ between)) : Underway fromStr requestId before := by
  constructor
  · exact fun chunk hchunk => h.1 chunk (List.mem_append_left _ hchunk)
  · intro data hdata
    apply h.2 data
    rw [List.flatten_append, payloads_append]
    exact List.mem_append_left _ hdata

/-- From any point of an unfinished reading, the rest gives the answer of the
stream exactly when each chunk reached is read like the stream it belongs to. -/
theorem consumeFrom_iff {before : List (List UInt8)} (chunks : List (List UInt8))
    (hunderway : Underway fromStr requestId before) :
    ((deliver fromStr requestId (payloads before.flatten)).1 ++
          (consumeFrom fromStr requestId (inProgress before.flatten) chunks).1,
        (consumeFrom fromStr requestId (inProgress before.flatten) chunks).2) =
        answer fromStr requestId (before ++ chunks).flatten ↔
      ∀ between chunk later, chunks = between ++ chunk :: later →
        Underway fromStr requestId (before ++ between) →
          ReadAlike (before ++ chunks).flatten (before ++ between) chunk := by
  induction chunks generalizing before with
  | nil =>
      have hread : deliver fromStr requestId (payloads before.flatten) =
          ((deliver fromStr requestId (payloads before.flatten)).1, none) :=
        Prod.ext rfl (deliver_eq_none_iff.mpr hunderway.2)
      apply iff_of_true
      · rw [List.append_nil, consumeFrom, List.append_nil,
          answer_of_wellFormed hread (Utf8.wellFormed_flatten hunderway.1)]
      · intro between chunk later h
        cases between with
        | nil => cases h
        | cons other between => cases h
  | cons chunk chunks ih =>
      have hwhole := Utf8.wellFormed_flatten hunderway.1
      have hread : deliver fromStr requestId (payloads before.flatten) =
          ((deliver fromStr requestId (payloads before.flatten)).1, none) :=
        Prod.ext rfl (deliver_eq_none_iff.mpr hunderway.2)
      have hflatten : (before ++ chunk :: chunks).flatten =
          before.flatten ++ (chunk ++ chunks.flatten) := by
        rw [List.flatten_append, List.flatten_cons]
      have hsnoc : (before ++ [chunk]).flatten = before.flatten ++ chunk := by
        rw [List.flatten_append, List.flatten_singleton]
      rw [forall_split_cons, List.append_nil]
      by_cases hroom : (inProgress before.flatten).length + chunk.length ≤ maxSseBufferBytes
      · by_cases hchunk : Utf8.WellFormed chunk
        · rw [and_iff_right fun _ => ⟨hroom, Or.inl hchunk⟩,
            consumeFrom_cons_of_wellFormed hroom hchunk]
          have hdeliver := @deliver_append_of_none _ _ _
            (payloads (inProgress before.flatten ++ chunk)) _ hread
          rw [← payloads_append] at hdeliver
          have hstep := underway_snoc_iff hunderway hchunk
          cases hnew : deliver fromStr requestId (payloads (inProgress before.flatten ++ chunk)) with
          | mk emitted stop =>
              rw [hnew] at hdeliver hstep
              cases stop with
              | some error =>
                  -- The reading ends within the chunk, so no later chunk is reached.
                  have htext := (Utf8.wellFormed_append_iff hwhole).mpr hchunk
                  obtain ⟨more, hmore⟩ := payloads_of_prefix htext chunks.flatten
                  rw [List.append_assoc, ← hflatten] at hmore
                  apply iff_of_true
                  · exact (answer_of_ended hmore hdeliver).symm
                  · intro between other later _ hbetween
                    rw [List.append_cons] at hbetween
                    exact absurd (hstep.mp hbetween.of_append) (Option.some_ne_none error)
              | none =>
                  have hnext := ih (hstep.mpr rfl)
                  rw [hsnoc, hdeliver, ← List.append_cons] at hnext
                  simp only [List.append_assoc, List.singleton_append] at hnext
                  exact hnext
        · -- The chunk fails to decode and nothing after it is read.
          obtain ⟨more, hmore⟩ := payloads_of_prefix hwhole (chunk ++ chunks.flatten)
          rw [← hflatten] at hmore
          rw [consumeFrom, if_neg (Nat.not_lt.mpr hroom), if_pos hchunk, List.append_nil, eq_comm,
            answer_eq_notUtf8_iff hmore hread]
          constructor
          · intro h
            refine ⟨fun _ => ⟨hroom, Or.inr ⟨h.1, ?_⟩⟩, fun between other later _ hbetween => ?_⟩
            · rw [hmore, h.2, List.append_nil]
            · exact absurd hbetween.wellFormed hchunk
          · intro h
            cases (h.1 hunderway).2 with
            | inl hwell => exact absurd hwell hchunk
            | inr hstream =>
                refine ⟨hstream.1, ?_⟩
                rw [hmore] at hstream
                exact List.append_right_eq_self.mp hstream.2
      · rw [consumeFrom, if_pos (Nat.lt_of_not_le hroom)]
        apply iff_of_false
        · intro heq
          exact answer_error_ne (Prod.mk.inj heq).2.symm
        · exact fun h => hroom (h.1 hunderway).1

/-- Chunking does not change what a stream answers exactly as long as each chunk
that is read has room beside the event in progress and ends no character in its
middle; a stream that is no text may also fail in a chunk before which all its
data have been read. -/
theorem consumed_iff (chunks : List (List UInt8)) :
    consumeSse fromStr requestId chunks = answer fromStr requestId chunks.flatten ↔
      ∀ before chunk later, chunks = before ++ chunk :: later →
        Underway fromStr requestId before → ReadAlike chunks.flatten before chunk := by
  have hnone : Underway fromStr requestId [] := by
    constructor
    · intro chunk h
      cases h
    · intro data h
      cases h
  exact consumeFrom_iff chunks hnone

end

/-! ## A character that two chunks share -/

/-- The response to request 1 whose result is the letter e with an acute accent. -/
def accented : Value :=
  .object [("id", .number (.int 1)), ("jsonrpc", .string "2.0"),
    ("result", .string (String.singleton (Char.ofNat 0xE9)))]

def accentedStart : List UInt8 :=
  Text.bytes "\x7b\"jsonrpc\":\"2.0\",\"id\":1,\"result\":\""

def accentedEnd : List UInt8 := Text.bytes "\"\x7d"

/-- Reads the one text that the stream holds. -/
def readAccented (data : List UInt8) : Option Value :=
  if data = accentedStart ++ [0xC3, 0xA9] ++ accentedEnd then some accented else none

/-- The same stream is a response in one chunk and an error in two. -/
theorem split_character :
    let start := Text.bytes "data: " ++ accentedStart
    let rest := accentedEnd ++ [10, 10]
    [start ++ [0xC3], [0xA9] ++ rest].flatten = [start ++ [0xC3, 0xA9] ++ rest].flatten ∧
      consumeSse readAccented (some (.number (.int 1))) [start ++ [0xC3, 0xA9] ++ rest] =
        ([accented], none) ∧
      consumeSse readAccented (some (.number (.int 1))) [start ++ [0xC3], [0xA9] ++ rest] =
        ([], some .notUtf8) := by
  decide +kernel

end BlackMonolith.ChunkIndependence
