import BlackMonolith.Library.Python
import BlackMonolith.Library.Utf8

/-!
# URLs in the Python standard library

What `urllib.parse` says the path of a URL is, and which host and port
`urllib.request` connects to for it. A URL is the list of its characters, of
which none is white space. The host is the text between the two slashes and the
next delimiter; everything appended after a delimiter leaves it alone. The
decimal digits of Unicode and the test `urlsplit` makes on a host are parameters.
-/
namespace BlackMonolith.Library.Urllib

structure Rules where
  /-- The value of a decimal digit. -/
  decimal : Char → Option ℕ
  /-- The text between the slashes has matching brackets and normalizes to no delimiter. -/
  acceptsNetloc : List Char → Bool

/-! ## Numbers -/

def isSpace (c : Char) : Bool := PyString.isSpace ⟨c.toNat, toNat_lt c⟩

/-- The digits after the first; single underscores may stand between digits. -/
def readDigits (decimal : Char → Option ℕ) : List Char → Option (List ℕ)
  | [] => some []
  | '_' :: c :: cs => (decimal c).bind fun d => (readDigits decimal cs).map (d :: ·)
  | c :: cs => (decimal c).bind fun d => (readDigits decimal cs).map (d :: ·)

def maxStrDigits : ℕ := 4300

def readUnsigned (decimal : Char → Option ℕ) : List Char → Option ℕ
  | [] => none
  | c :: cs =>
      (decimal c).bind fun d => (readDigits decimal cs).bind fun ds =>
        if maxStrDigits < ds.length + 1 then none else some (ds.foldl (fun n d => n * 10 + d) d)

/-- White space for `int`, to which the separators of `str.strip` are none. -/
def isIntSpace (c : Char) : Bool := isSpace c && !(0x1C ≤ c.toNat && c.toNat ≤ 0x1F)

/-- `int`, with `none` for a `ValueError`. -/
def int (decimal : Char → Option ℕ) (text : List Char) : Option ℤ :=
  match trimBoth isIntSpace text with
  | '-' :: cs => (readUnsigned decimal cs).map fun n => -n
  | '+' :: cs => (readUnsigned decimal cs).map fun n => n
  | cs => (readUnsigned decimal cs).map fun n => n

/-! ## Percent encoding -/

def hexValue (c : Char) : Option ℕ :=
  if '0' ≤ c ∧ c ≤ '9' then some (c.toNat - 48)
  else if 'a' ≤ c ∧ c ≤ 'f' then some (c.toNat - 87)
  else if 'A' ≤ c ∧ c ≤ 'F' then some (c.toNat - 55)
  else none

/-- `unquote_to_bytes` of an ASCII text. -/
def unquoteToBytes : List Char → List UInt8
  | '%' :: h :: l :: cs =>
      match hexValue h, hexValue l with
      | some h, some l => UInt8.ofNat (h * 16 + l) :: unquoteToBytes cs
      | _, _ => 37 :: unquoteToBytes (h :: l :: cs)
  | c :: cs => UInt8.ofNat c.toNat :: unquoteToBytes cs
  | [] => []

def isAscii (c : Char) : Bool := c.toNat < 128

/-- `unquote`: each run of ASCII characters is decoded on its own. -/
def unquote (text : List Char) : List Char :=
  (text.splitBy fun a b => isAscii a == isAscii b).flatMap fun run =>
    if run.all isAscii then Utf8.decodeLossy (unquoteToBytes run) else run

example : unquote "/v1%2Fmess%61ges%".toList = "/v1/messages%".toList := by decide +kernel

/-! ## The path of a URL -/

/-- The delimiters that end a host. -/
def isDelimiter (c : Char) : Bool := c = '/' || c = '?' || c = '#'

def isSchemeChar (c : Char) : Bool :=
  ('a' ≤ c && c ≤ 'z') || ('A' ≤ c && c ≤ 'Z') || ('0' ≤ c && c ≤ '9') || c = '+' || c = '-' ||
    c = '.'

def isAsciiAlpha (c : Char) : Bool := ('a' ≤ c && c ≤ 'z') || ('A' ≤ c && c ≤ 'Z')

/-- What follows the scheme, if there is one. -/
def dropScheme (url : List Char) : List Char :=
  let scheme := url.takeWhile (· ≠ ':')
  match url.drop scheme.length with
  | ':' :: rest => if scheme.head?.any isAsciiAlpha && scheme.all isSchemeChar then rest else url
  | _ => url

/-- `urlsplit(url).path`, with `none` for a `ValueError`. -/
def urlsplitPath (rules : Rules) (url : List Char) : Option (List Char) :=
  let url := dropScheme (url.dropWhile (·.toNat ≤ 0x20))
  let pathOf := fun rest : List Char => (rest.takeWhile (· ≠ '#')).takeWhile (· ≠ '?')
  match url with
  | '/' :: '/' :: rest =>
      if rules.acceptsNetloc (rest.takeWhile (!isDelimiter ·)) then
        some (pathOf (rest.dropWhile (!isDelimiter ·)))
      else none
  | _ => some (pathOf url)

/-! ## The host of a request -/

/-- The text before the last number sign. -/
def splitTag (url : List Char) : List Char :=
  if '#' ∈ url then (url.rdropWhile (· ≠ '#')).dropLast else url

/-- The scheme and the host of a request, the host still encoded. -/
def requestHost (url : List Char) : Option (List Char × List Char) :=
  let url := splitTag url
  let scheme := url.takeWhile fun c => c ≠ ':' && c ≠ '/'
  match url.drop scheme.length with
  | ':' :: '/' :: '/' :: rest =>
      if scheme = [] then none else some (scheme, rest.takeWhile (!isDelimiter ·))
  | _ => none

/-- The port after the last colon, unless a bracket follows it. -/
def splitPort (host : List Char) : Option (List Char × List Char) :=
  let portText := host.rtakeWhile fun c => c ≠ ':' && c ≠ ']'
  match (host.take (host.length - portText.length)).getLast? with
  | some ':' => some ((host.take (host.length - portText.length)).dropLast, portText)
  | _ => none

def stripBrackets (host : List Char) : List Char :=
  if host.head? = some '[' ∧ host.getLast? = some ']' then (host.drop 1).dropLast else host

/-- The host and the port `http.client` connects to, with `none` when it refuses. -/
def hostPort (decimal : Char → Option ℕ) (defaultPort : ℤ) (authority : List Char) :
    Option (List Char × ℤ) :=
  let host := unquote authority
  if host = [] then none
  else
    let parsed :=
      match splitPort host with
      | none => some (host, defaultPort)
      | some (name, []) => some (name, defaultPort)
      | some (name, port) => (int decimal port).map fun n => (name, n)
    (parsed.map fun p => (stripBrackets p.1, p.2)).filter fun p =>
      p.1.all fun c => 0x20 < c.toNat && c.toNat != 0x7F

def defaultPort (scheme : List Char) : Option ℤ :=
  if scheme = "http".toList then some 80
  else if scheme = "https".toList then some 443
  else none

/-- Where a request to an authority goes. -/
def reach (rules : Rules) (scheme authority : List Char) : Option (List Char × ℤ) :=
  if rules.acceptsNetloc authority then
    (defaultPort scheme).bind fun port => hostPort rules.decimal port authority
  else none

/-- Where `urllib.request` sends a request for a URL. -/
def connection (rules : Rules) (url : List Char) : Option (List Char × ℤ) :=
  (requestHost url).bind fun p => reach rules p.1 p.2

/-! ## What is appended to a URL -/

/-- The empty text, or one that begins with a delimiter. -/
def Rooted (text : List Char) : Prop := ∀ c ∈ text.head?, isDelimiter c = true

instance (text : List Char) : Decidable (Rooted text) :=
  inferInstanceAs (Decidable (∀ c ∈ text.head?, isDelimiter c = true))

theorem Rooted.of_initial {text front : List Char} (h : Rooted text) (hfront : front <+: text) :
    Rooted front := by
  intro c hc
  obtain ⟨rest, rfl⟩ := hfront
  cases front with
  | nil => cases hc
  | cons d ds => exact h c hc

theorem takeWhile_rooted {text : List Char} (h : Rooted text) :
    text.takeWhile (!isDelimiter ·) = [] := by
  cases text with
  | nil => rfl
  | cons c cs => rw [List.takeWhile_cons, h c rfl]; rfl

theorem rooted_dropWhile (text : List Char) : Rooted (text.dropWhile (!isDelimiter ·)) := by
  intro c hc
  have hnot := List.head?_dropWhile_not (!isDelimiter ·) text
  rw [hc] at hnot
  simpa using hnot

theorem splitTag_initial (url : List Char) : splitTag url <+: url := by
  unfold splitTag
  split
  · exact (List.dropLast_prefix _).trans (List.rdropWhile_prefix _ _)
  · exact List.prefix_refl url

theorem splitTag_append {front rest : List Char} (h : '#' ∉ front) :
    splitTag (front ++ rest) = front ++ splitTag rest := by
  unfold splitTag
  by_cases hmem : '#' ∈ rest
  · rw [if_pos (List.mem_append_right front hmem), if_pos hmem]
    have hne : rest.rdropWhile (· ≠ '#') ≠ [] := by
      intro hnil
      rw [List.rdropWhile_eq_nil_iff] at hnil
      exact absurd (hnil '#' hmem) (by decide)
    have happend : (front ++ rest).rdropWhile (· ≠ '#') = front ++ rest.rdropWhile (· ≠ '#') := by
      unfold List.rdropWhile at hne ⊢
      rw [List.reverse_append, List.dropWhile_append, if_neg, List.reverse_append,
        List.reverse_reverse]
      intro hempty
      exact hne (by rw [List.isEmpty_iff.mp hempty, List.reverse_nil])
    rw [happend, List.dropLast_append_of_ne_nil hne]
  · rw [if_neg hmem, if_neg]
    rw [List.mem_append, not_or]
    exact ⟨h, hmem⟩

/-- The host of a URL is what stands before the first delimiter. -/
theorem requestHost_append {scheme authority rest : List Char} (hscheme : scheme ≠ [])
    (hplain : ∀ c ∈ scheme, c ≠ ':' ∧ c ≠ '/' ∧ c ≠ '#')
    (hauthority : ∀ c ∈ authority, isDelimiter c = false) (hrest : Rooted rest) :
    requestHost (scheme ++ ("://".toList ++ (authority ++ rest))) = some (scheme, authority) := by
  have htag : splitTag (scheme ++ ("://".toList ++ (authority ++ rest))) =
      scheme ++ ("://".toList ++ (authority ++ splitTag rest)) := by
    rw [splitTag_append, splitTag_append, splitTag_append]
    · intro hmem
      exact absurd (hauthority '#' hmem) (by decide)
    · decide
    · intro hmem
      exact (hplain '#' hmem).2.2 rfl
  have hscanned : (scheme ++ ("://".toList ++ (authority ++ splitTag rest))).takeWhile
      (fun c => c ≠ ':' && c ≠ '/') = scheme := by
    rw [List.takeWhile_append_of_pos]
    · exact List.append_nil scheme
    · intro c hc
      obtain ⟨hcolon, hslash, -⟩ := hplain c hc
      simp [hcolon, hslash]
  have hhost : (authority ++ splitTag rest).takeWhile (!isDelimiter ·) = authority := by
    rw [List.takeWhile_append_of_pos, takeWhile_rooted (hrest.of_initial (splitTag_initial rest)),
      List.append_nil]
    intro c hc
    rw [hauthority c hc]
    rfl
  unfold requestHost
  dsimp only
  rw [htag, hscanned, List.drop_left]
  show (if scheme = [] then none else some (scheme,
    (authority ++ splitTag rest).takeWhile (!isDelimiter ·))) = some (scheme, authority)
  rw [if_neg hscheme, hhost]

end BlackMonolith.Library.Urllib
