import Mathlib.Data.List.Infix
import Mathlib.Data.Nat.Find

/-!
# Decoding UTF-8 with replacement

The decoder reads one byte at a time. A sequence in progress remembers the code
point so far, how many bytes are missing and the range the next byte must lie
in, which is where overlong forms, surrogates and code points beyond the last
are excluded. A byte that does not fit ends the sequence with one replacement
character and is read again as the first of a new one.
-/
namespace BlackMonolith.Library.Utf8

structure Sequence where
  code : ℕ
  missing : ℕ
  low : UInt8
  high : UInt8
deriving Repr, DecidableEq

inductive Lead
  | scalar (c : Char)
  | start (s : Sequence)
  | invalid
deriving Repr, DecidableEq

/-- What a byte means at the start of a sequence. -/
def lead (b : UInt8) : Lead :=
  let n := b.toNat
  if n < 0x80 then .scalar (Char.ofNat n)
  else if n < 0xC2 then .invalid
  else if n < 0xE0 then .start ⟨n - 0xC0, 1, 0x80, 0xBF⟩
  else if n = 0xE0 then .start ⟨0, 2, 0xA0, 0xBF⟩
  else if n = 0xED then .start ⟨0xD, 2, 0x80, 0x9F⟩
  else if n < 0xF0 then .start ⟨n - 0xE0, 2, 0x80, 0xBF⟩
  else if n = 0xF0 then .start ⟨0, 3, 0x90, 0xBF⟩
  else if n < 0xF4 then .start ⟨n - 0xF0, 3, 0x80, 0xBF⟩
  else if n = 0xF4 then .start ⟨4, 3, 0x80, 0x8F⟩
  else .invalid

def replacement : Char := Char.ofNat 0xFFFD

/-- The first byte of a sequence: the characters it completes and what it opens. -/
def begin (b : UInt8) : List Char × Option Sequence :=
  match lead b with
  | .scalar c => ([c], none)
  | .start s => ([], some s)
  | .invalid => ([replacement], none)

/-- One byte, in the middle of a sequence or between two. -/
def read : Option Sequence → UInt8 → List Char × Option Sequence
  | none, b => begin b
  | some s, b =>
      if s.low ≤ b ∧ b ≤ s.high then
        let code := s.code * 64 + (b.toNat - 0x80)
        if s.missing = 1 then ([Char.ofNat code], none)
        else ([], some ⟨code, s.missing - 1, 0x80, 0xBF⟩)
      else
        let (cs, next) := begin b
        (replacement :: cs, next)

def decodeFrom : Option Sequence → List UInt8 → List Char
  | none, [] => []
  | some _, [] => [replacement]
  | s, b :: bs =>
      let (cs, next) := read s b
      cs ++ decodeFrom next bs

def decodeLossy (bytes : List UInt8) : List Char := decodeFrom none bytes

example : decodeLossy [0xC3, 0xA9, 0xE2, 0x82, 0x41, 0xFF] =
    [Char.ofNat 0xE9, replacement, 'A', replacement] := by decide

/-! ## Well-formed text -/

/-- One byte of a text that must be well formed: the sequence it leaves open. -/
def accept : Option Sequence → UInt8 → Option (Option Sequence)
  | none, b =>
      match lead b with
      | .scalar _ => some none
      | .start s => some (some s)
      | .invalid => none
  | some s, b =>
      if s.low ≤ b ∧ b ≤ s.high then
        if s.missing = 1 then some none
        else some (some ⟨s.code * 64 + (b.toNat - 0x80), s.missing - 1, 0x80, 0xBF⟩)
      else none

def WellFormed (bytes : List UInt8) : Prop := bytes.foldlM accept none = some none

instance (bytes : List UInt8) : Decidable (WellFormed bytes) :=
  inferInstanceAs (Decidable (_ = _))

/-- The number of bytes before the first that cannot be decoded. -/
def validUpTo (bytes : List UInt8) : ℕ :=
  Nat.findGreatest (fun n => WellFormed (bytes.take n)) bytes.length

/-- The text a list of bytes begins with. -/
def wellFormedPrefix (bytes : List UInt8) : List UInt8 := bytes.take (validUpTo bytes)

section
variable {xs ys : List UInt8}

theorem wellFormed_append_iff (h : WellFormed xs) : WellFormed (xs ++ ys) ↔ WellFormed ys := by
  have hxs : xs.foldlM accept none = some none := h
  unfold WellFormed
  rw [List.foldlM_append, hxs]
  rfl

theorem wellFormed_flatten {pieces : List (List UInt8)} (h : ∀ piece ∈ pieces, WellFormed piece) :
    WellFormed pieces.flatten := by
  induction pieces with
  | nil => exact rfl
  | cons piece pieces ih =>
      rw [List.flatten_cons, wellFormed_append_iff (h piece List.mem_cons_self)]
      exact ih fun other hother => h other (List.mem_cons_of_mem piece hother)

theorem wellFormed_wellFormedPrefix (bytes : List UInt8) : WellFormed (wellFormedPrefix bytes) := by
  have hnil : WellFormed (bytes.take 0) := rfl
  exact Nat.findGreatest_spec (P := fun n => WellFormed (bytes.take n)) (Nat.zero_le _) hnil

theorem wellFormedPrefix_initial (bytes : List UInt8) : wellFormedPrefix bytes <+: bytes :=
  List.take_prefix _ _

/-- Every well-formed beginning lies within the longest one. -/
theorem prefix_wellFormedPrefix (h : WellFormed xs) (ys : List UInt8) :
    xs <+: wellFormedPrefix (xs ++ ys) := by
  have hat : WellFormed ((xs ++ ys).take xs.length) := by rwa [List.take_left]
  have hle : xs.length ≤ validUpTo (xs ++ ys) := by
    apply Nat.le_findGreatest _ hat
    rw [List.length_append]
    omega
  rw [wellFormedPrefix, List.take_append, List.take_of_length_le hle]
  exact List.prefix_append _ _

theorem wellFormedPrefix_eq_self_iff : wellFormedPrefix xs = xs ↔ WellFormed xs := by
  constructor
  · intro h
    rw [← h]
    exact wellFormed_wellFormedPrefix xs
  · intro h
    have hfront := prefix_wellFormedPrefix h []
    rw [List.append_nil] at hfront
    exact (wellFormedPrefix_initial xs).eq_of_length_le hfront.length_le

end

/-! ## Encoded text -/

theorem toNat_ofNat_of_lt {n : ℕ} (h : n < 256) : (UInt8.ofNat n).toNat = n := by
  rw [UInt8.toNat_ofNat', Nat.mod_eq_of_lt h]

/-- The code point of a character: below the surrogates, or above them. -/
theorem code_bounds (c : Char) :
    c.val.toNat < 0xD800 ∨ (0xDFFF < c.val.toNat ∧ c.val.toNat < 0x110000) := c.valid

theorem read_within {s : Sequence} {n : ℕ} (hn : n < 256) (hlow : s.low.toNat ≤ n)
    (hhigh : n ≤ s.high.toNat) :
    read (some s) (UInt8.ofNat n) =
      if s.missing = 1 then ([Char.ofNat (s.code * 64 + (n - 0x80))], none)
      else ([], some ⟨s.code * 64 + (n - 0x80), s.missing - 1, 0x80, 0xBF⟩) := by
  have hwithin : s.low ≤ UInt8.ofNat n ∧ UInt8.ofNat n ≤ s.high := by
    rw [UInt8.le_iff_toNat_le, UInt8.le_iff_toNat_le, toNat_ofNat_of_lt hn]
    exact ⟨hlow, hhigh⟩
  simp only [read, if_pos hwithin, toNat_ofNat_of_lt hn]

theorem lead_ofNat {n : ℕ} (hn : n < 256) : lead (UInt8.ofNat n) =
    if n < 0x80 then .scalar (Char.ofNat n)
    else if n < 0xC2 then .invalid
    else if n < 0xE0 then .start ⟨n - 0xC0, 1, 0x80, 0xBF⟩
    else if n = 0xE0 then .start ⟨0, 2, 0xA0, 0xBF⟩
    else if n = 0xED then .start ⟨0xD, 2, 0x80, 0x9F⟩
    else if n < 0xF0 then .start ⟨n - 0xE0, 2, 0x80, 0xBF⟩
    else if n = 0xF0 then .start ⟨0, 3, 0x90, 0xBF⟩
    else if n < 0xF4 then .start ⟨n - 0xF0, 3, 0x80, 0xBF⟩
    else if n = 0xF4 then .start ⟨4, 3, 0x80, 0x8F⟩
    else .invalid := by
  simp only [lead, toNat_ofNat_of_lt hn]

theorem decodeFrom_last {code n : ℕ} {low high : UInt8} (hn : n < 256) (hlow : low.toNat ≤ n)
    (hhigh : n ≤ high.toNat) (bs : List UInt8) :
    decodeFrom (some ⟨code, 1, low, high⟩) (UInt8.ofNat n :: bs) =
      Char.ofNat (code * 64 + (n - 0x80)) :: decodeFrom none bs := by
  rw [decodeFrom, read_within hn hlow hhigh]
  rfl

theorem decodeFrom_more {code missing n : ℕ} {low high : UInt8} (hn : n < 256)
    (hlow : low.toNat ≤ n) (hhigh : n ≤ high.toNat) (bs : List UInt8) :
    decodeFrom (some ⟨code, missing + 2, low, high⟩) (UInt8.ofNat n :: bs) =
      decodeFrom (some ⟨code * 64 + (n - 0x80), missing + 1, 0x80, 0xBF⟩) bs := by
  have hmore : missing + 2 ≠ 1 := by omega
  rw [decodeFrom, read_within hn hlow hhigh]
  simp only [if_neg hmore, List.nil_append]
  rfl

theorem decodeFrom_start {s : Sequence} {n : ℕ} (h : lead (UInt8.ofNat n) = .start s)
    (bs : List UInt8) : decodeFrom none (UInt8.ofNat n :: bs) = decodeFrom (some s) bs := by
  rw [decodeFrom, read, begin, h]
  rfl

/-- The bytes of a character are read as the character. -/
theorem decodeFrom_encodeChar (c : Char) (bs : List UInt8) :
    decodeFrom none (String.utf8EncodeChar c ++ bs) = c :: decodeFrom none bs := by
  have hbounds := code_bounds c
  have hc : Char.ofNat c.val.toNat = c := Char.ofNat_toNat c
  generalize hv : c.val.toNat = v at hbounds hc
  unfold String.utf8EncodeChar
  simp only [hv]
  split_ifs with h₁ h₂ h₃
  · have hlead : lead (UInt8.ofNat v) = .scalar c := by
      rw [lead_ofNat (by omega), if_pos (by omega), hc]
    rw [List.singleton_append, decodeFrom, read, begin, hlead]
    rfl
  · have hlead : lead (UInt8.ofNat (v / 64 % 32 + 0xC0)) = .start ⟨v / 64, 1, 0x80, 0xBF⟩ := by
      rw [lead_ofNat (by omega), if_neg (by omega), if_neg (by omega), if_pos (by omega)]
      have hcode : v / 64 % 32 + 0xC0 - 0xC0 = v / 64 := by omega
      rw [hcode]
    have hcode : v / 64 * 64 + (v % 64 + 0x80 - 0x80) = v := by omega
    rw [List.cons_append, List.singleton_append, decodeFrom_start hlead,
      decodeFrom_last (by omega) (by simp) (by simp; omega), hcode, hc]
  · have hlead : ∃ low high, lead (UInt8.ofNat (v / 4096 % 16 + 0xE0)) =
        .start ⟨v / 4096, 2, low, high⟩ ∧ low.toNat ≤ v / 64 % 64 + 0x80 ∧
          v / 64 % 64 + 0x80 ≤ high.toNat := by
      rw [lead_ofNat (by omega), if_neg (by omega), if_neg (by omega), if_neg (by omega)]
      have hcode : v / 4096 % 16 + 0xE0 - 0xE0 = v / 4096 := by omega
      split_ifs with he0 hed hef
      · refine ⟨0xA0, 0xBF, ?_, ?_, ?_⟩
        · have hzero : v / 4096 = 0 := by omega
          rw [hzero]
        · simp
          omega
        · simp
          omega
      · refine ⟨0x80, 0x9F, ?_, ?_, ?_⟩
        · have hd : v / 4096 = 0xD := by omega
          rw [hd]
        · simp
        · simp
          omega
      · refine ⟨0x80, 0xBF, ?_, ?_, ?_⟩
        · rw [hcode]
        · simp
        · simp
          omega
      all_goals omega
    obtain ⟨low, high, hlead, hlow, hhigh⟩ := hlead
    have hcode : (v / 4096 * 64 + (v / 64 % 64 + 0x80 - 0x80)) * 64 + (v % 64 + 0x80 - 0x80) = v := by
      omega
    rw [List.cons_append, List.cons_append, List.singleton_append, decodeFrom_start hlead,
      decodeFrom_more (by omega) hlow hhigh, decodeFrom_last (by omega) (by simp) (by simp; omega),
      hcode, hc]
  · have hlead : ∃ low high, lead (UInt8.ofNat (v / 262144 % 8 + 0xF0)) =
        .start ⟨v / 262144, 3, low, high⟩ ∧ low.toNat ≤ v / 4096 % 64 + 0x80 ∧
          v / 4096 % 64 + 0x80 ≤ high.toNat := by
      rw [lead_ofNat (by omega), if_neg (by omega), if_neg (by omega), if_neg (by omega),
        if_neg (by omega), if_neg (by omega), if_neg (by omega)]
      have hcode : v / 262144 % 8 + 0xF0 - 0xF0 = v / 262144 := by omega
      split_ifs with hf0 hf3 hf4
      · refine ⟨0x90, 0xBF, ?_, ?_, ?_⟩
        · have hzero : v / 262144 = 0 := by omega
          rw [hzero]
        · simp
          omega
        · simp
          omega
      · refine ⟨0x80, 0xBF, ?_, ?_, ?_⟩
        · rw [hcode]
        · simp
        · simp
          omega
      · refine ⟨0x80, 0x8F, ?_, ?_, ?_⟩
        · have hfour : v / 262144 = 4 := by omega
          rw [hfour]
        · simp
        · simp
          omega
      · omega
    obtain ⟨low, high, hlead, hlow, hhigh⟩ := hlead
    have hcode : ((v / 262144 * 64 + (v / 4096 % 64 + 0x80 - 0x80)) * 64 +
        (v / 64 % 64 + 0x80 - 0x80)) * 64 + (v % 64 + 0x80 - 0x80) = v := by
      omega
    rw [List.cons_append, List.cons_append, List.cons_append, List.singleton_append,
      decodeFrom_start hlead, decodeFrom_more (by omega) hlow hhigh,
      decodeFrom_more (by omega) (by simp) (by simp; omega),
      decodeFrom_last (by omega) (by simp) (by simp; omega), hcode, hc]

theorem decodeFrom_cons (s : Option Sequence) (b : UInt8) (bs : List UInt8) :
    decodeFrom s (b :: bs) = (read s b).1 ++ decodeFrom (read s b).2 bs := by
  cases s <;> rfl

theorem decodeFrom_ne_nil {s : Option Sequence} {bs : List UInt8}
    (h : s ≠ none ∨ bs ≠ []) : decodeFrom s bs ≠ [] := by
  induction bs generalizing s with
  | nil =>
      cases s with
      | none => exact absurd rfl (h.resolve_right fun hbs => hbs rfl)
      | some s => exact List.cons_ne_nil _ _
  | cons b bs ih =>
      have hstep : (read s b).1 ≠ [] ∨ (read s b).2 ≠ none := by
        cases s with
        | none =>
            cases hlead : lead b <;> simp [read, begin, hlead]
        | some s =>
            unfold read
            dsimp only
            split_ifs <;> simp
      rw [decodeFrom_cons]
      intro hnil
      obtain ⟨hread, hrest⟩ := List.append_eq_nil_iff.mp hnil
      exact ih (Or.inl (hstep.resolve_left fun hne => hne hread)) hrest

/-- A cut leaves whole characters and at most one sequence open. -/
theorem decodeFrom_cut (s : Option Sequence) (front : List UInt8) :
    ∃ whole opened, ∀ rest, decodeFrom s (front ++ rest) = whole ++ decodeFrom opened rest := by
  induction front generalizing s with
  | nil => exact ⟨[], s, fun rest => rfl⟩
  | cons b front ih =>
      obtain ⟨whole, opened, h⟩ := ih (read s b).2
      refine ⟨(read s b).1 ++ whole, opened, fun rest => ?_⟩
      rw [List.append_assoc, ← h rest, List.cons_append, decodeFrom_cons]

/-- The bytes of a text. -/
def encode (cs : List Char) : List UInt8 := cs.flatMap String.utf8EncodeChar

@[simp] theorem encode_nil : encode [] = [] := rfl

@[simp] theorem encode_cons (c : Char) (cs : List Char) :
    encode (c :: cs) = String.utf8EncodeChar c ++ encode cs := rfl

@[simp] theorem encode_append (cs ds : List Char) : encode (cs ++ ds) = encode cs ++ encode ds :=
  List.flatMap_append

theorem decodeLossy_encode (cs : List Char) : decodeLossy (encode cs) = cs := by
  unfold decodeLossy
  induction cs with
  | nil => rfl
  | cons c cs ih => rw [encode_cons, decodeFrom_encodeChar, ih]

/-- The text of bytes that are one. -/
def decode (bytes : List UInt8) : Option (List Char) :=
  (ByteArray.mk bytes.toArray).utf8Decode?.map Array.toList

theorem decode_eq_some_iff {bytes : List UInt8} {cs : List Char} :
    decode bytes = some cs ↔ bytes = encode cs := by
  unfold decode encode
  constructor
  · intro h
    obtain ⟨chars, hchars, rfl⟩ := Option.map_eq_some_iff.mp h
    have hsome : (ByteArray.mk bytes.toArray).utf8Decode?.isSome := by
      rw [hchars]
      rfl
    have hencode := @ByteArray.utf8Encode_get_utf8Decode? _ hsome
    simp only [hchars, Option.get_some] at hencode
    have hdata := congrArg (fun b => b.data.toList) hencode
    simpa [List.utf8Encode] using hdata.symm
  · intro h
    have harray : ByteArray.mk bytes.toArray = cs.utf8Encode := by
      rw [h, List.utf8Encode]
      ext1
      simp
    rw [harray, List.utf8Decode?_utf8Encode]
    rfl

theorem decode_encode (cs : List Char) : decode (encode cs) = some cs := decode_eq_some_iff.mpr rfl

theorem decodeLossy_of_decode {bytes : List UInt8} {cs : List Char} (h : decode bytes = some cs) :
    decodeLossy bytes = cs := by
  rw [decode_eq_some_iff.mp h, decodeLossy_encode]

/-- Bytes that are not those of their lossy text are no text. -/
theorem decode_eq_none {bytes : List UInt8} (h : encode (decodeLossy bytes) ≠ bytes) :
    decode bytes = none := by
  cases hdecode : decode bytes with
  | none => rfl
  | some cs =>
      rw [decodeLossy_of_decode hdecode] at h
      exact absurd (decode_eq_some_iff.mp hdecode).symm h

theorem encode_injective : Function.Injective encode := by
  intro cs ds h
  rw [← decodeLossy_encode cs, h, decodeLossy_encode]

/-- No text begins within another's last character. -/
theorem initial_of_encode_initial {cs ds : List Char} (h : encode cs <+: encode ds) : cs <+: ds := by
  induction cs generalizing ds with
  | nil => exact List.nil_prefix
  | cons c cs ih =>
      obtain ⟨rest, hrest⟩ := h
      cases ds with
      | nil =>
          rw [encode_cons, encode_nil, List.append_assoc] at hrest
          exact absurd (List.append_eq_nil_iff.mp hrest).1 String.utf8EncodeChar_ne_nil
      | cons d ds =>
          rw [encode_cons, encode_cons, List.append_assoc] at hrest
          have hread := congrArg (decodeFrom none) hrest
          rw [decodeFrom_encodeChar, decodeFrom_encodeChar] at hread
          obtain rfl : c = d := (List.cons.inj hread).1
          have htail := List.append_cancel_left hrest
          exact List.cons_prefix_cons.mpr ⟨rfl, ih ⟨rest, htail⟩⟩

theorem continuation_of_mem_tail {c : Char} {b : UInt8} (h : b ∈ (String.utf8EncodeChar c).tail) :
    0x80 ≤ b.toNat := by
  unfold String.utf8EncodeChar at h
  dsimp only at h
  split_ifs at h <;> simp only [List.tail_cons, List.mem_cons, List.not_mem_nil, or_false] at h
  · rw [h, toNat_ofNat_of_lt (by omega)]
    omega
  · rcases h with rfl | rfl
    · rw [toNat_ofNat_of_lt (by omega)]
      omega
    · rw [toNat_ofNat_of_lt (by omega)]
      omega
  · rcases h with rfl | rfl | rfl
    · rw [toNat_ofNat_of_lt (by omega)]
      omega
    · rw [toNat_ofNat_of_lt (by omega)]
      omega
    · rw [toNat_ofNat_of_lt (by omega)]
      omega

/-- A byte of a character is the character or no ASCII byte. -/
theorem byte_of_mem_encodeChar {c : Char} {b : UInt8} (h : b ∈ String.utf8EncodeChar c) :
    b.toNat = c.toNat ∨ 0x80 ≤ b.toNat := by
  by_cases hc : c.val.toNat ≤ 0x7F
  · unfold String.utf8EncodeChar at h
    rw [if_pos hc, List.mem_singleton] at h
    left
    rw [h, toNat_ofNat_of_lt (by omega)]
    rfl
  · right
    unfold String.utf8EncodeChar at h
    dsimp only at h
    have hcode := code_bounds c
    split_ifs at h <;> simp only [List.mem_cons, List.not_mem_nil, or_false] at h
    · rcases h with rfl | rfl
      · rw [toNat_ofNat_of_lt (by omega)]
        omega
      · rw [toNat_ofNat_of_lt (by omega)]
        omega
    · rcases h with rfl | rfl | rfl
      · rw [toNat_ofNat_of_lt (by omega)]
        omega
      · rw [toNat_ofNat_of_lt (by omega)]
        omega
      · rw [toNat_ofNat_of_lt (by omega)]
        omega
    · rcases h with rfl | rfl | rfl | rfl
      · rw [toNat_ofNat_of_lt (by omega)]
        omega
      · rw [toNat_ofNat_of_lt (by omega)]
        omega
      · rw [toNat_ofNat_of_lt (by omega)]
        omega
      · rw [toNat_ofNat_of_lt (by omega)]
        omega

theorem le_of_mem_encode {n : ℕ} {cs : List Char} (hn : n ≤ 0x80) (hcs : ∀ c ∈ cs, n ≤ c.toNat)
    {b : UInt8} (hb : b ∈ encode cs) : n ≤ b.toNat := by
  obtain ⟨c, hc, hmem⟩ := List.mem_flatMap.mp hb
  rcases byte_of_mem_encodeChar hmem with hsame | hhigh
  · rw [hsame]
    exact hcs c hc
  · omega

/-- A text has as many bytes as its string. -/
theorem length_encode (s : String) : (encode s.toList).length = s.utf8ByteSize := by
  rw [← String.size_toByteArray, ← String.utf8Encode_toList]
  simp [List.utf8Encode, encode]

theorem length_encode_cons (c : Char) (cs : List Char) :
    (encode (c :: cs)).length = c.utf8Size + (encode cs).length := by
  rw [encode_cons, List.length_append, String.length_utf8EncodeChar]

/-- The characters of the first bytes, where a character ends there. -/
def takeBytes : ℕ → List Char → Option (List Char)
  | 0, _ => some []
  | _ + 1, [] => none
  | n + 1, c :: cs =>
      if c.utf8Size ≤ n + 1 then (takeBytes (n + 1 - c.utf8Size) cs).map (c :: ·) else none

theorem takeBytes_eq_some_iff (n : ℕ) (cs front : List Char) :
    takeBytes n cs = some front ↔ front <+: cs ∧ (encode front).length = n := by
  induction cs generalizing n front with
  | nil =>
      cases n with
      | zero => simp +contextual [takeBytes, eq_comm, List.prefix_nil]
      | succ n =>
          simp only [takeBytes, List.prefix_nil, false_iff, not_and, reduceCtorEq]
          rintro rfl
          simp
  | cons c cs ih =>
      have hsize := c.utf8Size_pos
      cases n with
      | zero =>
          cases front with
          | nil => simp [takeBytes]
          | cons d front =>
              have hpos := d.utf8Size_pos
              simp only [takeBytes, length_encode_cons]
              simp
              omega
      | succ n =>
          cases front with
          | nil => simp [takeBytes]
          | cons d front =>
              rw [takeBytes, List.cons_prefix_cons, length_encode_cons]
              by_cases hfits : c.utf8Size ≤ n + 1
              · rw [if_pos hfits]
                simp only [Option.map_eq_some_iff, List.cons.injEq]
                constructor
                · rintro ⟨rest, hrest, rfl, rfl⟩
                  obtain ⟨hinitial, hlength⟩ := (ih _ _).mp hrest
                  exact ⟨⟨rfl, hinitial⟩, by omega⟩
                · rintro ⟨⟨rfl, hinitial⟩, hlength⟩
                  exact ⟨front, (ih _ _).mpr ⟨hinitial, by omega⟩, rfl, rfl⟩
              · rw [if_neg hfits]
                simp only [false_iff, not_and, reduceCtorEq]
                rintro ⟨rfl, -⟩
                omega

/-- An ASCII byte stands between two characters. -/
theorem exists_encode_of_ascii {cs : List Char} {xs ys : List UInt8} {b : UInt8}
    (hb : b.toNat < 0x80) (h : xs ++ b :: ys = encode cs) : ∃ front, xs = encode front := by
  induction cs generalizing xs with
  | nil => exact absurd h (by simp)
  | cons c cs ih =>
      cases xs with
      | nil => exact ⟨[], rfl⟩
      | cons x xs =>
          rw [encode_cons] at h
          rcases List.append_eq_append_iff.mp h with ⟨rest, hchar, hback⟩ | ⟨rest, hfront, hrest⟩
          · cases rest with
            | nil => exact ⟨[c], by rw [encode_cons, encode_nil, hchar, List.append_nil, List.append_nil]⟩
            | cons b' rest =>
                obtain rfl : b = b' := (List.cons.inj hback).1
                have hmem : b ∈ (String.utf8EncodeChar c).tail := by
                  rw [hchar, List.cons_append, List.tail_cons]
                  exact List.mem_append_right _ List.mem_cons_self
                have hlow := continuation_of_mem_tail hmem
                omega
          · obtain ⟨front, hfront'⟩ := ih hrest.symm
            exact ⟨c :: front, by rw [hfront, hfront', encode_cons]⟩

/-- A text that begins in an ASCII character occurs in another where its bytes do. -/
theorem infix_of_encode_infix {c : Char} {b : UInt8} {needle cs : List Char}
    (hc : String.utf8EncodeChar c = [b]) (hb : b.toNat < 0x80)
    (h : encode (c :: needle) <:+: encode cs) : c :: needle <:+: cs := by
  obtain ⟨before, after, hsplit⟩ := h
  have hbytes : before ++ b :: (encode needle ++ after) = encode cs := by
    rw [← hsplit, encode_cons, hc]
    simp
  obtain ⟨front, rfl⟩ := exists_encode_of_ascii hb hbytes
  obtain ⟨rest, rfl⟩ : front <+: cs :=
    initial_of_encode_initial ⟨encode (c :: needle) ++ after, by rw [← hsplit, List.append_assoc]⟩
  have hrest : encode (c :: needle) ++ after = encode rest := by
    rw [encode_append, List.append_assoc] at hsplit
    exact List.append_cancel_left hsplit
  obtain ⟨last, rfl⟩ := initial_of_encode_initial ⟨after, hrest⟩
  exact ⟨front, last, List.append_assoc _ _ _⟩

/-- An ASCII character at the end leaves the rest as well formed as it was. -/
theorem decode_concat_isSome_iff {c : Char} {b : UInt8} (hc : String.utf8EncodeChar c = [b])
    (hb : b.toNat < 0x80) (bytes : List UInt8) :
    (decode (bytes ++ [b])).isSome = true ↔ (decode bytes).isSome = true := by
  simp only [Option.isSome_iff_exists, decode_eq_some_iff]
  constructor
  · rintro ⟨cs, hcs⟩
    exact exists_encode_of_ascii hb hcs
  · rintro ⟨front, rfl⟩
    exact ⟨front ++ [c], by rw [encode_append, encode_cons, hc, encode_nil, List.append_nil]⟩

/-- A sequence in progress waits for continuation bytes. -/
def Waiting (s : Option Sequence) : Prop := ∀ t ∈ s, 0x80 ≤ t.low.toNat

theorem waiting_begin (b : UInt8) : Waiting (begin b).2 := by
  have hlead : ∀ s, lead b = .start s → 0x80 ≤ s.low.toNat := by
    intro s h
    unfold lead at h
    dsimp only at h
    split_ifs at h
    all_goals
      rw [← Lead.start.inj h]
      simp
  intro t ht
  unfold begin at ht
  split at ht
  · cases ht
  · next _ hs =>
      rw [Option.mem_some_iff] at ht
      exact hlead t (ht ▸ hs)
  · cases ht

theorem waiting_read {s : Option Sequence} (h : Waiting s) (b : UInt8) : Waiting (read s b).2 := by
  cases s with
  | none => exact waiting_begin b
  | some s =>
      simp only [read]
      split_ifs
      · intro t ht
        cases ht
      · intro t ht
        rw [Option.mem_some_iff] at ht
        rw [← ht]
        simp
      · exact waiting_begin b

/-- An ASCII byte ends a sequence and is read as itself. -/
theorem mem_read_of_ascii {s : Option Sequence} (h : Waiting s) {b : UInt8} (hb : b.toNat < 0x80) :
    Char.ofNat b.toNat ∈ (read s b).1 := by
  have hbegin : begin b = ([Char.ofNat b.toNat], none) := by
    unfold begin lead
    simp only [if_pos hb]
  cases s with
  | none =>
      simp only [read, hbegin, List.mem_singleton]
  | some s =>
      have hlow := h s rfl
      have hout : ¬(s.low ≤ b ∧ b ≤ s.high) := by
        rw [UInt8.le_iff_toNat_le]
        omega
      simp only [read, if_neg hout, hbegin]
      exact List.mem_cons_of_mem _ (List.mem_singleton_self _)

/-- No ASCII byte is lost. -/
theorem count_decodeFrom {b : UInt8} (hb : b.toNat < 0x80) (bytes : List UInt8)
    {s : Option Sequence} (hs : Waiting s) :
    bytes.count b ≤ (decodeFrom s bytes).count (Char.ofNat b.toNat) := by
  induction bytes generalizing s with
  | nil => exact Nat.zero_le _
  | cons a bytes ih =>
      have hrest := ih (waiting_read hs a)
      rw [decodeFrom, List.count_append, List.count_cons]
      split_ifs with heq
      · have hread := List.count_pos_iff.mpr (mem_read_of_ascii hs hb)
        rw [beq_iff_eq] at heq
        subst heq
        omega
      · omega

theorem count_decodeLossy {b : UInt8} (hb : b.toNat < 0x80) (bytes : List UInt8) :
    bytes.count b ≤ (decodeLossy bytes).count (Char.ofNat b.toNat) :=
  count_decodeFrom hb bytes fun _ h => nomatch h

/-- Every ASCII character of a text is a byte of it. -/
theorem count_encode (c : Char) (cs : List Char) (hc : c.val.toNat ≤ 0x7F) :
    cs.count c ≤ (encode cs).count (UInt8.ofNat c.val.toNat) := by
  have hself : String.utf8EncodeChar c = [UInt8.ofNat c.val.toNat] := by
    unfold String.utf8EncodeChar
    exact if_pos hc
  induction cs with
  | nil => exact Nat.zero_le _
  | cons d cs ih =>
      rw [encode_cons, List.count_append, List.count_cons]
      split_ifs with heq
      · rw [beq_iff_eq] at heq
        rw [heq, hself, List.count_singleton_self]
        omega
      · omega

end BlackMonolith.Library.Utf8
