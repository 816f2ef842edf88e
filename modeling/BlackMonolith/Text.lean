import BlackMonolith.Library.Substring
import BlackMonolith.Library.Lists

/-!
# Text operations of the Rust standard library

Character classes and string operations as `char` and `str` define them: white
space is the Unicode property White_Space, control characters are the category
Cc, and the ASCII operations leave every other character alone. A string is
handled as its list of scalar values, or as the bytes of its UTF-8 form where
the source works on bytes. The full Unicode lower-casing table is a parameter.
-/
namespace BlackMonolith.Text
open Library

/-- `char::is_whitespace`. -/
def isWhitespace (c : Char) : Bool :=
  let n := c.toNat
  (9 ≤ n && n ≤ 13) || n == 0x20 || n == 0x85 || n == 0xA0 || n == 0x1680 ||
    (0x2000 ≤ n && n ≤ 0x200A) || n == 0x2028 || n == 0x2029 || n == 0x202F ||
    n == 0x205F || n == 0x3000

/-- `char::is_control`. -/
def isControl (c : Char) : Bool :=
  c.toNat < 0x20 || (0x7F ≤ c.toNat && c.toNat < 0xA0)

def isAsciiAlphanumeric (c : Char) : Bool :=
  ('0' ≤ c && c ≤ '9') || ('A' ≤ c && c ≤ 'Z') || ('a' ≤ c && c ≤ 'z')

def toAsciiLowercase (c : Char) : Char :=
  if 'A' ≤ c && c ≤ 'Z' then Char.ofNat (c.toNat + 32) else c

def toAsciiUppercase (c : Char) : Char :=
  if 'a' ≤ c && c ≤ 'z' then Char.ofNat (c.toNat - 32) else c

def trimList (cs : List Char) : List Char :=
  (cs.dropWhile isWhitespace).rdropWhile isWhitespace

/-- `str::trim`. -/
def trim (s : String) : String := String.ofList (trimList s.toList)

theorem trimList_trimList (cs : List Char) : trimList (trimList cs) = trimList cs :=
  trimBoth_trimBoth isWhitespace cs

@[simp] theorem trim_trim (s : String) : trim (trim s) = trim s := by
  unfold trim
  rw [String.toList_ofList, trimList_trimList]

/-- `str::as_bytes`. -/
def bytes (s : String) : List UInt8 := s.toList.flatMap String.utf8EncodeChar

/-- `str::len`: the bytes of the UTF-8 form. -/
def len (s : String) : ℕ := s.utf8ByteSize

/-- `str::contains` with a string. -/
def contains (s needle : String) : Bool := occursIn needle.toList s.toList

/-- `str::to_ascii_lowercase`. -/
def asciiLowercase (s : String) : String := String.ofList (s.toList.map toAsciiLowercase)

/-- `str::to_ascii_uppercase`. -/
def asciiUppercase (s : String) : String := String.ofList (s.toList.map toAsciiUppercase)

/-- `str::eq_ignore_ascii_case`. -/
def eqIgnoreAsciiCase (s t : String) : Bool := asciiLowercase s == asciiLowercase t

theorem toAsciiLowercase_cases (c : Char) :
    toAsciiLowercase (toAsciiUppercase c) = toAsciiLowercase c ∧
      toAsciiLowercase (toAsciiLowercase c) = toAsciiLowercase c := by
  by_cases h : c.toNat < 128
  · have hall : ∀ n : Fin 128,
        toAsciiLowercase (toAsciiUppercase (Char.ofNat n)) =
            toAsciiLowercase (Char.ofNat n) ∧
          toAsciiLowercase (toAsciiLowercase (Char.ofNat n)) =
            toAsciiLowercase (Char.ofNat n) := by
      decide +kernel
    have hc := hall ⟨c.toNat, h⟩
    rwa [Char.ofNat_toNat] at hc
  · have hlower : toAsciiLowercase c = c := by
      refine if_neg ?_
      simp only [Bool.and_eq_true, decide_eq_true_iff, not_and]
      intro _ hle
      have hnat : c.toNat ≤ 90 := hle
      omega
    have hupper : toAsciiUppercase c = c := by
      refine if_neg ?_
      simp only [Bool.and_eq_true, decide_eq_true_iff, not_and]
      intro _ hle
      have hnat : c.toNat ≤ 122 := hle
      omega
    rw [hupper, hlower]
    exact ⟨rfl, hlower⟩

theorem asciiLowercase_asciiUppercase (s : String) :
    asciiLowercase (asciiUppercase s) = asciiLowercase s := by
  unfold asciiLowercase asciiUppercase
  rw [String.toList_ofList, List.map_map]
  congr 1
  exact List.map_congr_left fun c _ => (toAsciiLowercase_cases c).1

theorem toAsciiUppercase_idem (c : Char) :
    toAsciiUppercase (toAsciiUppercase c) = toAsciiUppercase c := by
  unfold toAsciiUppercase
  by_cases h : ('a' ≤ c && c ≤ 'z') = true
  · rw [if_pos h, if_neg]
    simp only [Bool.and_eq_true, decide_eq_true_iff, Char.le_def, UInt32.le_iff_toNat_le] at h ⊢
    have hc : c.toNat ≤ 122 := h.2
    have hvalid : Nat.isValidChar (c.toNat - 32) := by
      left
      omega
    have hval : (Char.ofNat (c.toNat - 32)).val.toNat = c.toNat - 32 := by
      unfold Char.ofNat
      rw [dif_pos hvalid]
      rfl
    rw [hval]
    intro hle
    have : 97 ≤ c.toNat - 32 := hle.1
    omega
  · rw [if_neg h, if_neg h]

theorem asciiUppercase_idem (s : String) : asciiUppercase (asciiUppercase s) = asciiUppercase s := by
  unfold asciiUppercase
  rw [String.toList_ofList, List.map_map]
  congr 1
  apply List.map_congr_left
  intro c _
  exact toAsciiUppercase_idem c

/-- `str::starts_with` and `str::ends_with` with a string. -/
def startsWith (s p : String) : Bool := p.toList.isPrefixOf s.toList
def endsWith (s p : String) : Bool := p.toList.isSuffixOf s.toList

/-- `str::replace`. -/
def replace (s needle marker : String) : String :=
  String.ofList (replaceAll needle.toList marker.toList s.toList)

/-- `str::to_lowercase`, of which only the ASCII part is fixed here. -/
structure Unicode where
  toLowercase : String → String
  ascii : ∀ s, (∀ c ∈ s.toList, c.toNat < 128) →
    toLowercase s = asciiLowercase s

/-- The lower-casing that changes ASCII letters only. -/
def asciiOnly : Unicode := ⟨asciiLowercase, fun _ _ => rfl⟩

/-! Classes of bytes. -/

def isByteDigit (b : UInt8) : Bool := 48 ≤ b && b ≤ 57
def isByteUpper (b : UInt8) : Bool := 65 ≤ b && b ≤ 90
def isByteLower (b : UInt8) : Bool := 97 ≤ b && b ≤ 122
def isByteAlphanumeric (b : UInt8) : Bool := isByteDigit b || isByteUpper b || isByteLower b
def byteToLower (b : UInt8) : UInt8 := if isByteUpper b then b + 32 else b

end BlackMonolith.Text
