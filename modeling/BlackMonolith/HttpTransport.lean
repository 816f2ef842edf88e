import BlackMonolith.Json
import BlackMonolith.Text
import BlackMonolith.Library.Framing
import BlackMonolith.Library.Utf8

/-!
# The Streamable HTTP bridge

The event stream that answers a POST arrives in transport chunks and is cut into
events, whose data are JSON-RPC messages. A string is the list of its UTF-8
bytes, on which the searches of the source work; `serde_json::from_str` is a
parameter.
-/
namespace BlackMonolith.HttpTransport
open Library Json

def maxSseBufferBytes : ℕ := 1024 * 1024

inductive BridgeError
  | exceedsLimit
  | notUtf8
  | invalidJson
  | notJsonRpc
  | endedEarly
deriving Repr, DecidableEq

def BridgeError.text : BridgeError → String
  | .exceedsLimit => "remote MCP response exceeds 1 MiB"
  | .notUtf8 => "MCP SSE response was not valid UTF-8"
  | .invalidJson => "MCP SSE data contained invalid JSON"
  | .notJsonRpc => "message is not JSON-RPC 2.0"
  | .endedEarly => "MCP SSE stream ended before the matching JSON-RPC response"

/-! ## Events -/

/-- `str::find` with a string. -/
def find (needle : List UInt8) : List UInt8 → Option ℕ
  | [] => if needle.isEmpty then some 0 else none
  | b :: bs =>
      if needle.isPrefixOf (b :: bs) then some 0 else (find needle bs).map (· + 1)

def lfBreak : List UInt8 := [10, 10]
def crlfBreak : List UInt8 := [13, 10, 13, 10]

/-- Where the first event ends and where the text after it begins. -/
def nextSseEvent (value : List UInt8) : Option (ℕ × ℕ) :=
  let lf := (find lfBreak value).map fun index => (index, index + 2)
  let crlf := (find crlfBreak value).map fun index => (index, index + 4)
  match lf, crlf with
  | some left, some right => some (if left.1 ≤ right.1 then left else right)
  | some found, none => some found
  | none, some found => some found
  | none, none => none

/-- A line without the carriage return before its line feed. -/
def stripCr (line : List UInt8) : List UInt8 :=
  if line.getLast? = some 13 then line.dropLast else line

def linesFrom : List UInt8 → List UInt8 → List (List UInt8)
  | line, [] => if line.isEmpty then [] else [line]
  | line, b :: bs =>
      if b = 10 then stripCr line :: linesFrom [] bs else linesFrom (line ++ [b]) bs

/-- `str::lines`. -/
def lines (text : List UInt8) : List (List UInt8) := linesFrom [] text

/-- `str::strip_prefix`. -/
def stripPrefix (start line : List UInt8) : Option (List UInt8) :=
  if start.isPrefixOf line then some (line.drop start.length) else none

def parseSseData (event : List UInt8) : Option (List UInt8) :=
  let data := ((lines event).filterMap (stripPrefix (Text.bytes "data:"))).map fun line =>
    (stripPrefix [32] line).getD line
  if data.isEmpty then none else some ([10].intercalate data)

/-! ## Messages -/

def validateJsonrpc (value : Value) : Bool :=
  (value.get "jsonrpc").bind Value.asStr == some "2.0"

/-- Whether a message is the response the request waits for. -/
def isTerminal (requestId : Option Value) (value : Value) : Bool :=
  match requestId with
  | none => false
  | some expected =>
      value.get "id" == some expected &&
        ((value.get "result").isSome || (value.get "error").isSome)

/-- Where reading goes on, or how it ended: with an error or with none. -/
inductive Progress
  | goesOn (pending : List UInt8)
  | ended (error : Option BridgeError)
deriving Repr, DecidableEq

section
variable (fromStr : List UInt8 → Option Value) (requestId : Option Value)

/-- The message in the data of one event, and whether it is the last one read. -/
def readData (data : List UInt8) : List Value × Option (Option BridgeError) :=
  match fromStr data with
  | none => ([], some (some .invalidJson))
  | some value =>
      if validateJsonrpc value then
        ([value], if isTerminal requestId value then some none else none)
      else ([], some (some .notJsonRpc))

def readEvent (event : List UInt8) : List Value × Option (Option BridgeError) :=
  match parseSseData event with
  | none => ([], none)
  | some data => readData fromStr requestId data

end

/-! ## Where the events end -/

section
variable {needle : List UInt8} {value : List UInt8}

theorem find_spec (h : needle ≠ []) :
    (∀ i, find needle value = some i →
      needle <+: value.drop i ∧ ∀ j < i, ¬ needle <+: value.drop j) ∧
    (find needle value = none → ∀ j, ¬ needle <+: value.drop j) := by
  induction value with
  | nil =>
      have hnone : find needle [] = none := if_neg (by rwa [List.isEmpty_iff])
      rw [hnone]
      constructor
      · intro i hi
        cases hi
      · intro _ j hj
        rw [List.drop_nil, List.prefix_nil] at hj
        exact h hj
  | cons b bs ih =>
      rw [find]
      by_cases hhead : needle <+: b :: bs
      · rw [if_pos (List.isPrefixOf_iff_prefix.mpr hhead)]
        constructor
        · intro i hi
          cases hi
          exact ⟨hhead, fun j hj => absurd hj (Nat.not_lt_zero j)⟩
        · intro hnone
          cases hnone
      · rw [if_neg (by rwa [List.isPrefixOf_iff_prefix])]
        constructor
        · intro i hi
          obtain ⟨k, hk, rfl⟩ := Option.map_eq_some_iff.mp hi
          obtain ⟨hat, hbefore⟩ := ih.1 k hk
          refine ⟨hat, fun j hj => ?_⟩
          cases j with
          | zero => exact hhead
          | succ j => exact hbefore j (by omega)
        · intro hnone j
          cases j with
          | zero => exact hhead
          | succ j => exact ih.2 (Option.map_eq_none_iff.mp hnone) j

/-- A block ends a prefix where it stands just before its end. -/
theorem suffix_take_iff {n : ℕ} (hn : n ≤ value.length) :
    needle <:+ value.take n ↔ needle.length ≤ n ∧ needle <+: value.drop (n - needle.length) := by
  have hlen : (value.take n).length = n := by rw [List.length_take, Nat.min_eq_left hn]
  constructor
  · intro h
    have hle := h.length_le
    rw [hlen] at hle
    have hback : n - (n - needle.length) = needle.length := by omega
    rw [List.suffix_iff_eq_drop, hlen, List.drop_take, hback] at h
    exact ⟨hle, List.prefix_iff_eq_take.mpr h⟩
  · intro h
    have hback : n - (n - needle.length) = needle.length := by omega
    rw [List.suffix_iff_eq_drop, hlen, List.drop_take, hback]
    exact List.prefix_iff_eq_take.mp h.2

end

/-- The content of an event that a text has just ended. -/
def endsEvent (text : List UInt8) : Option (List UInt8) :=
  if lfBreak.isSuffixOf text then some (text.take (text.length - 2))
  else if crlfBreak.isSuffixOf text then some (text.take (text.length - 4))
  else none

section
variable {value : List UInt8} {n : ℕ}

theorem endsEvent_take_eq_none (hn : n ≤ value.length)
    (hlf : ∀ i, i + 2 = n → ¬ lfBreak <+: value.drop i)
    (hcrlf : ∀ i, i + 4 = n → ¬ crlfBreak <+: value.drop i) :
    endsEvent (value.take n) = none := by
  have hnotLf : ¬ lfBreak.isSuffixOf (value.take n) := by
    rw [List.isSuffixOf_iff_suffix, suffix_take_iff hn]
    intro h
    have hle : 2 ≤ n := h.1
    exact hlf (n - 2) (by omega) h.2
  have hnotCrlf : ¬ crlfBreak.isSuffixOf (value.take n) := by
    rw [List.isSuffixOf_iff_suffix, suffix_take_iff hn]
    intro h
    have hle : 4 ≤ n := h.1
    exact hcrlf (n - 4) (by omega) h.2
  rw [endsEvent, if_neg hnotLf, if_neg hnotCrlf]

theorem le_length_of_prefix_drop {needle : List UInt8} {i : ℕ} (hne : needle ≠ [])
    (h : needle <+: value.drop i) : i + needle.length ≤ value.length := by
  have hpos := List.length_pos_iff.mpr hne
  have hle := h.length_le
  rw [List.length_drop] at hle
  omega

theorem endsEvent_take_lf {i : ℕ} (h : lfBreak <+: value.drop i) :
    endsEvent (value.take (i + 2)) = some (value.take i) := by
  have hle : i + 2 ≤ value.length := le_length_of_prefix_drop (by decide) h
  have hends : lfBreak.isSuffixOf (value.take (i + 2)) := by
    rw [List.isSuffixOf_iff_suffix, suffix_take_iff hle]
    exact ⟨Nat.le_add_left 2 i, h⟩
  have hlen : (value.take (i + 2)).length - 2 = i := by
    rw [List.length_take]
    omega
  rw [endsEvent, if_pos hends, hlen, List.take_take, Nat.min_eq_left (Nat.le_add_right i 2)]

/-- The two breaks differ where they would overlap. -/
theorem breaks_apart {i j : ℕ} (hlf : lfBreak <+: value.drop i) (hcrlf : crlfBreak <+: value.drop j) :
    i ≠ j ∧ i ≠ j + 1 ∧ i ≠ j + 2 := by
  obtain ⟨tail, htail⟩ := hcrlf
  have hdrop : ∀ k, value.drop (j + k) = (crlfBreak ++ tail).drop k := by
    intro k
    rw [htail, List.drop_drop]
  have hat : ∀ k, i = j + k → lfBreak <+: (crlfBreak ++ tail).drop k := by
    intro k hk
    rw [← hdrop, ← hk]
    exact hlf
  refine ⟨fun h => ?_, fun h => ?_, fun h => ?_⟩
  · have := hat 0 (by omega)
    simp [lfBreak, crlfBreak] at this
  · have := hat 1 (by omega)
    simp [lfBreak, crlfBreak] at this
  · have := hat 2 (by omega)
    simp [lfBreak, crlfBreak] at this

theorem endsEvent_take_crlf {j : ℕ} (h : crlfBreak <+: value.drop j) :
    endsEvent (value.take (j + 4)) = some (value.take j) := by
  have hle : j + 4 ≤ value.length := le_length_of_prefix_drop (by decide) h
  have hnot : ¬ lfBreak.isSuffixOf (value.take (j + 4)) := by
    rw [List.isSuffixOf_iff_suffix, suffix_take_iff hle]
    intro hlf
    have hat : lfBreak <+: value.drop (j + 2) := hlf.2
    exact (breaks_apart hat h).2.2 rfl
  have hends : crlfBreak.isSuffixOf (value.take (j + 4)) := by
    rw [List.isSuffixOf_iff_suffix, suffix_take_iff hle]
    exact ⟨Nat.le_add_left 4 j, h⟩
  have hlen : (value.take (j + 4)).length - 4 = j := by
    rw [List.length_take]
    omega
  rw [endsEvent, if_neg hnot, if_pos hends, hlen, List.take_take,
    Nat.min_eq_left (Nat.le_add_right j 4)]

theorem nextSseEvent_none (h : nextSseEvent value = none) (hn : n ≤ value.length) :
    endsEvent (value.take n) = none := by
  have hlfSpec := @find_spec lfBreak value (by decide)
  have hcrlfSpec := @find_spec crlfBreak value (by decide)
  unfold nextSseEvent at h
  cases hlf : find lfBreak value with
  | some i => cases hcrlf : find crlfBreak value <;> simp [hlf, hcrlf] at h
  | none =>
      cases hcrlf : find crlfBreak value with
      | some j => simp [hlf, hcrlf] at h
      | none =>
          exact endsEvent_take_eq_none hn (fun i _ => hlfSpec.2 hlf i)
            fun i _ => hcrlfSpec.2 hcrlf i

/-- The first event of a text, and where the text after it begins. -/
structure FirstEvent (value : List UInt8) (raw consumed : ℕ) : Prop where
  pos : 0 < consumed
  le : consumed ≤ value.length
  ends : endsEvent (value.take consumed) = some (value.take raw)
  first : ∀ m < consumed, endsEvent (value.take m) = none

theorem firstEvent_lf {i : ℕ} (hat : lfBreak <+: value.drop i)
    (hlf : ∀ k < i, ¬ lfBreak <+: value.drop k)
    (hcrlf : ∀ k, k + 4 < i + 2 → ¬ crlfBreak <+: value.drop k) : FirstEvent value i (i + 2) := by
  have hle : i + 2 ≤ value.length := le_length_of_prefix_drop (by decide) hat
  refine ⟨Nat.succ_pos _, hle, endsEvent_take_lf hat, fun m hm => ?_⟩
  apply endsEvent_take_eq_none (by omega)
  · exact fun k hk => hlf k (by omega)
  · exact fun k hk => hcrlf k (by omega)

theorem firstEvent_crlf {j : ℕ} (hat : crlfBreak <+: value.drop j)
    (hcrlf : ∀ k < j, ¬ crlfBreak <+: value.drop k)
    (hlf : ∀ k, k + 2 < j + 4 → ¬ lfBreak <+: value.drop k) : FirstEvent value j (j + 4) := by
  have hle : j + 4 ≤ value.length := le_length_of_prefix_drop (by decide) hat
  refine ⟨Nat.succ_pos _, hle, endsEvent_take_crlf hat, fun m hm => ?_⟩
  apply endsEvent_take_eq_none (by omega)
  · exact fun k hk => hlf k (by omega)
  · exact fun k hk => hcrlf k (by omega)

/-- The search finds the shortest prefix that ends an event. -/
theorem nextSseEvent_some {raw consumed : ℕ} (h : nextSseEvent value = some (raw, consumed)) :
    FirstEvent value raw consumed := by
  have hlfSpec := @find_spec lfBreak value (by decide)
  have hcrlfSpec := @find_spec crlfBreak value (by decide)
  unfold nextSseEvent at h
  cases hlf : find lfBreak value with
  | none =>
      cases hcrlf : find crlfBreak value with
      | none => simp [hlf, hcrlf] at h
      | some j =>
          simp only [hlf, hcrlf, Option.map_none, Option.map_some, Option.some.injEq] at h
          obtain ⟨hat, hbefore⟩ := hcrlfSpec.1 j hcrlf
          cases h
          exact firstEvent_crlf hat hbefore fun k _ => hlfSpec.2 hlf k
  | some i =>
      obtain ⟨hatI, hbeforeI⟩ := hlfSpec.1 i hlf
      cases hcrlf : find crlfBreak value with
      | none =>
          simp only [hlf, hcrlf, Option.map_none, Option.map_some, Option.some.injEq] at h
          cases h
          exact firstEvent_lf hatI hbeforeI fun k _ => hcrlfSpec.2 hcrlf k
      | some j =>
          obtain ⟨hatJ, hbeforeJ⟩ := hcrlfSpec.1 j hcrlf
          have hapart := breaks_apart hatI hatJ
          simp only [hlf, hcrlf, Option.map_some, Option.some.injEq] at h
          split_ifs at h with hle
          · cases h
            exact firstEvent_lf hatI hbeforeI fun k hk => hbeforeJ k (by omega)
          · cases h
            exact firstEvent_crlf hatJ hbeforeJ fun k hk => hbeforeI k (by omega)

end

/-! ## The stream -/

section
variable (fromStr : List UInt8 → Option Value) (requestId : Option Value)

/-- The events that a chunk completes, up to the one that ends the reading. -/
def drain (pending : List UInt8) : List Value × Progress :=
  match _h : nextSseEvent pending with
  | none => ([], .goesOn pending)
  | some (rawEvent, consumed) =>
      match readEvent fromStr requestId (pending.take rawEvent) with
      | (emitted, some error) => (emitted, .ended error)
      | (emitted, none) =>
          let rest := drain (pending.drop consumed)
          (emitted ++ rest.1, rest.2)
termination_by pending.length
decreasing_by
  have hfirst := nextSseEvent_some _h
  have hpos := hfirst.pos
  have hle := hfirst.le
  rw [List.length_drop]
  omega

section
variable {fromStr requestId} {pending : List UInt8}

theorem drain_of_none (h : nextSseEvent pending = none) :
    drain fromStr requestId pending = ([], .goesOn pending) := by
  rw [drain]
  split
  · rfl
  · rename_i heq
    rw [h] at heq
    cases heq

theorem drain_of_some {rawEvent consumed : ℕ}
    (h : nextSseEvent pending = some (rawEvent, consumed)) :
    drain fromStr requestId pending =
      match readEvent fromStr requestId (pending.take rawEvent) with
      | (emitted, some error) => (emitted, .ended error)
      | (emitted, none) =>
          (emitted ++ (drain fromStr requestId (pending.drop consumed)).1,
            (drain fromStr requestId (pending.drop consumed)).2) := by
  rw [drain]
  split
  · rename_i heq
    rw [h] at heq
    cases heq
  · rename_i heq
    rw [h] at heq
    cases heq
    rfl

end

/-- What is emitted while the chunks are read, and the error it ends with. -/
def consumeFrom : List UInt8 → List (List UInt8) → List Value × Option BridgeError
  | _, [] => ([], if requestId.isSome then some .endedEarly else none)
  | pending, chunk :: chunks =>
      if maxSseBufferBytes < pending.length + chunk.length then ([], some .exceedsLimit)
      else if ¬ Utf8.WellFormed chunk then ([], some .notUtf8)
      else
        match drain fromStr requestId (pending ++ chunk) with
        | (emitted, .ended error) => (emitted, error)
        | (emitted, .goesOn rest) =>
            let later := consumeFrom rest chunks
            (emitted ++ later.1, later.2)

def consumeSse (chunks : List (List UInt8)) : List Value × Option BridgeError :=
  consumeFrom fromStr requestId [] chunks

end

end BlackMonolith.HttpTransport
