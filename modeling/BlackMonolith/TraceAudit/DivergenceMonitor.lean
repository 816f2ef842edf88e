import BlackMonolith.Library.Python
import BlackMonolith.Library.Tally
import Mathlib.Data.List.Induction
import Mathlib.Data.Rat.Defs

/-!
# The divergence monitor

The monitor counts the tokens of a rolling window, and after each token computes how far
their distribution is from the baseline's. The counts are kept from call to call: the
token that leaves the window is taken off and the new one is put on. Arithmetic on floats,
which may raise, and `str.lower` are parameters.
-/
namespace BlackMonolith.TraceAudit
namespace Divergence

open Library

abbrev Token := PyString

inductive ArithmeticError
  | zeroDivision
  | domain
  | overflow
deriving Repr, DecidableEq

/-- `add`, `mul`, `div` and `log` are those of Python's floats; `positive` is `x > 0.0`. -/
structure Floats (F : Type) where
  zero : F
  ofInt : ℤ → Except ArithmeticError F
  add : F → F → F
  mul : F → F → F
  div : F → F → Except ArithmeticError F
  log : F → Except ArithmeticError F
  positive : F → Bool

def other : Token := PyString.ofString "<other>"

def normalizeToken (lower : Token → Token) (token : Token) : Token :=
  let t := lower token.strip
  if t.points = [] then other else t

/-- What is fixed when a monitor is made. -/
structure Settings (F : Type) where
  baselineCounts : InsertionMap Token ℤ
  windowSize : ℕ
  minTokensBeforeCheck : ℤ
  smoothing : F

section
variable {F : Type} (floats : Floats F) (lower : Token → Token)

/-- The baseline's tokens and the one for all others, in order. -/
def vocab (baselineCounts : InsertionMap Token ℤ) : List Token :=
  (other :: baselineCounts.keys).dedup.mergeSort fun a b => decide (a.points ≤ b.points)

/-- `n + smoothing * vocab_size`. -/
def smoothed (settings : Settings F) (n : ℤ) : Except ArithmeticError F := do
  let vocabSize ← floats.ofInt (vocab settings.baselineCounts).length
  let total ← floats.ofInt n
  return floats.add total (floats.mul settings.smoothing vocabSize)

/-- `(n + smoothing) / denom`. -/
def share (settings : Settings F) (n : ℤ) (denom : F) : Except ArithmeticError F := do
  let count ← floats.ofInt n
  floats.div (floats.add count settings.smoothing) denom

/-- The smoothed baseline probabilities. -/
def baselineProbabilities (settings : Settings F) :
    Except ArithmeticError (List (Token × F)) := do
  let denom ← smoothed floats settings settings.baselineCounts.values.sum
  (vocab settings.baselineCounts).mapM fun tok => do
    let q ← share floats settings ((settings.baselineCounts.get? tok).getD 0) denom
    return (tok, q)

structure Monitor (F : Type) where
  settings : Settings F
  q : List (Token × F)
  window : List Token
  counts : InsertionMap Token ℤ
  tokensSeen : ℤ

/-- `__init__`. -/
def Monitor.init (settings : Settings F) : Except ArithmeticError (Monitor F) := do
  let q ← baselineProbabilities floats settings
  return { settings, q, window := [], counts := .empty, tokensSeen := 0 }

def bucket (q : List (Token × F)) (token : Token) : Token :=
  let tok := normalizeToken lower token
  if tok ∈ q.map Prod.fst then tok else other

/-- `_counts[tok] -= 1`, and the entry goes when nothing is left. -/
def takeOff (counts : InsertionMap Token ℤ) (tok : Token) : InsertionMap Token ℤ :=
  let n := (counts.get? tok).getD 0 - 1
  if n ≤ 0 then (counts.set tok n).erase tok else counts.set tok n

/-- `_counts[tok] += 1`. -/
def putOn (counts : InsertionMap Token ℤ) (tok : Token) : InsertionMap Token ℤ :=
  counts.set tok ((counts.get? tok).getD 0 + 1)

/-- `append` to a `deque` of a maximal length. -/
def push (maxlen : ℕ) (window : List Token) (tok : Token) : List Token :=
  if window.length = maxlen then (window ++ [tok]).tail else window ++ [tok]

/-- The sum over the vocabulary, for a window of `n` tokens. -/
def kl (settings : Settings F) (q : List (Token × F)) (countOf : Token → ℤ) (n : ℕ) :
    Except ArithmeticError F := do
  let denom ← smoothed floats settings n
  q.foldlM (fun sum (tok, qTok) => do
    let p ← share floats settings (countOf tok) denom
    if floats.positive p then
      let ratio ← floats.div p qTok
      let l ← floats.log ratio
      return floats.add sum (floats.mul p l)
    else return sum) floats.zero

/-- `_kl`. -/
def Monitor.kl (m : Monitor F) : Except ArithmeticError F :=
  Divergence.kl floats m.settings m.q (fun tok => (m.counts.get? tok).getD 0) m.window.length

/-- The counts when the bucket that a full window is about to push out is taken off. -/
def Monitor.evicted (m : Monitor F) : InsertionMap Token ℤ :=
  if m.window.length = m.settings.windowSize then
    (m.window.head?.map (takeOff m.counts)).getD m.counts
  else m.counts

/-- Recording one token. -/
def Monitor.record (m : Monitor F) (token : Token) : Monitor F :=
  let tok := bucket lower m.q token
  { m with
    window := push m.settings.windowSize m.window tok
    counts := putOn m.evicted tok
    tokensSeen := m.tokensSeen + 1 }

/-- `observe`: the monitor after a token, and the divergence once enough tokens were seen. -/
def Monitor.observe (m : Monitor F) (token : Token) :
    Monitor F × Except ArithmeticError (Option F) :=
  let next := m.record lower token
  (next,
    if next.tokensSeen < next.settings.minTokensBeforeCheck then .ok none
    else (next.kl floats).map some)

/-- The monitor after a sequence of tokens. -/
def Monitor.run (m : Monitor F) (tokens : List Token) : Monitor F :=
  tokens.foldl (fun m token => (m.observe floats lower token).1) m

/-- The divergence of a window, counted from scratch. -/
def klOfWindow (m : Monitor F) (window : List Token) : Except ArithmeticError F :=
  Divergence.kl floats m.settings m.q (fun tok => window.count tok) window.length

/-- The buckets of the last tokens, as many as the window holds. -/
def lastBuckets (m : Monitor F) (tokens : List Token) : List Token :=
  (tokens.map (bucket lower m.q)).drop (tokens.length - m.settings.windowSize)

/-! ### Taking off and putting on -/

theorem takeOff_tallies {tok : Token} {rest : List Token} {counts : InsertionMap Token ℤ}
    (h : counts.Tallies id [] (tok :: rest)) : (takeOff counts tok).Tallies id [] rest := by
  have hleft : (counts.get? tok).getD 0 - 1 = (rest.count tok : ℤ) := by
    have hcount := h.getD tok
    rw [id_eq, id_eq, List.count_cons_self, Nat.cast_succ] at hcount
    rw [hcount]
    exact add_sub_cancel_right _ 1
  have hlower := h.lower
  unfold takeOff
  rw [hleft]
  by_cases hmem : tok ∈ rest
  · have hpos : 0 < rest.count tok := List.count_pos_iff.mpr hmem
    rw [if_pos hmem] at hlower
    rw [if_neg (by omega)]
    exact hlower
  · have hzero : rest.count tok = 0 := List.count_eq_zero_of_not_mem hmem
    rw [if_neg hmem] at hlower
    rw [if_pos (by omega)]
    intro k
    rw [← hlower k, InsertionMap.get?_erase, InsertionMap.get?_erase]
    by_cases hk : k = tok
    · rw [if_pos hk, if_pos hk]
    · rw [if_neg hk, if_neg hk, InsertionMap.get?_set_of_ne (Ne.symm hk)]

theorem putOn_tallies {window : List Token} {counts : InsertionMap Token ℤ}
    (h : counts.Tallies id [] window) (tok : Token) :
    (putOn counts tok).Tallies id [] (window ++ [tok]) := by
  have hcount := h.getD tok
  unfold putOn
  rw [id_eq] at hcount
  rw [hcount]
  exact (h.set tok).perm (List.perm_append_singleton tok window).symm

/-- The last `w` of a list stay the last `w` when one is pushed. -/
theorem push_last {w : ℕ} (hw : 0 < w) (tokens : List Token) (tok : Token) :
    push w (tokens.drop (tokens.length - w)) tok =
      (tokens ++ [tok]).drop ((tokens ++ [tok]).length - w) := by
  unfold push
  rw [List.length_drop, List.length_append, List.length_singleton]
  by_cases hfull : w ≤ tokens.length
  · rw [if_pos (by omega), ← List.drop_append_of_le_length (by omega), List.tail_drop]
    congr 1
    omega
  · rw [if_neg (by omega), Nat.sub_eq_zero_of_le (by omega), Nat.sub_eq_zero_of_le (by omega)]
    rfl

/-! ### The invariant of a run -/

/-- What a monitor keeps after `tokens`, when it was `start` before. -/
structure Keeps (start : Monitor F) (tokens : List Token) (m : Monitor F) : Prop where
  settings : m.settings = start.settings
  q : m.q = start.q
  tokensSeen : m.tokensSeen = tokens.length
  window : m.window = lastBuckets lower start tokens
  counts : m.counts.Tallies id [] m.window

theorem lastBuckets_append {start : Monitor F} (hw : 0 < start.settings.windowSize)
    (tokens : List Token) (token : Token) :
    push start.settings.windowSize (lastBuckets lower start tokens) (bucket lower start.q token) =
      lastBuckets lower start (tokens ++ [token]) := by
  have hpush := push_last hw (tokens.map (bucket lower start.q)) (bucket lower start.q token)
  unfold lastBuckets
  rw [List.length_map, List.length_append, List.length_map] at hpush
  rw [hpush, List.map_append, List.length_append]
  rfl

theorem length_lastBuckets (start : Monitor F) (tokens : List Token) :
    (lastBuckets lower start tokens).length = min tokens.length start.settings.windowSize := by
  unfold lastBuckets
  rw [List.length_drop, List.length_map]
  omega

variable {lower}

/-- One token takes the oldest bucket off a full window and puts the new one on. -/
theorem Keeps.record {start m : Monitor F} {tokens : List Token}
    (hw : 0 < start.settings.windowSize) (h : Keeps lower start tokens m) (token : Token) :
    Keeps lower start (tokens ++ [token]) (m.record lower token) := by
  have hwindow : (m.record lower token).window =
      push start.settings.windowSize m.window (bucket lower start.q token) := by
    rw [← h.settings, ← h.q]
    rfl
  have hcounts : (m.record lower token).counts = putOn m.evicted (bucket lower start.q token) := by
    rw [← h.q]
    rfl
  constructor
  · exact h.settings
  · exact h.q
  · rw [List.length_append]
    exact congrArg (· + 1) h.tokensSeen
  · rw [hwindow, h.window]
    exact lastBuckets_append lower hw tokens token
  · rw [hwindow, hcounts]
    unfold push Monitor.evicted
    rw [h.settings]
    by_cases hfull : m.window.length = start.settings.windowSize
    · rw [if_pos hfull, if_pos hfull]
      have hkept := h.counts
      cases hm : m.window with
      | nil =>
        rw [hm] at hfull
        exact absurd hfull hw.ne
      | cons oldest rest =>
        rw [hm] at hkept
        exact putOn_tallies (takeOff_tallies hkept) _
    · rw [if_neg hfull, if_neg hfull]
      exact putOn_tallies h.counts _

variable {floats}

theorem init_keeps {settings : Settings F} {m : Monitor F}
    (h : Monitor.init floats settings = .ok m) : m.settings = settings ∧ Keeps lower m [] m := by
  unfold Monitor.init at h
  cases hq : baselineProbabilities floats settings with
  | error e =>
    rw [hq] at h
    cases h
  | ok q =>
    rw [hq] at h
    cases h
    exact ⟨rfl, rfl, rfl, rfl, (List.drop_nil).symm, InsertionMap.tallies_empty⟩

theorem Keeps.run {start : Monitor F} (hw : 0 < start.settings.windowSize)
    (h : Keeps lower start [] start) (tokens : List Token) :
    Keeps lower start tokens (start.run floats lower tokens) := by
  induction tokens using List.reverseRecOn with
  | nil => exact h
  | append_singleton tokens token ih =>
    have hstep := ih.record hw token
    unfold Monitor.run at hstep ⊢
    rw [List.foldl_append]
    exact hstep

/-- What the counts give is what the window gives. -/
theorem Keeps.kl {start m : Monitor F} {tokens : List Token} (h : Keeps lower start tokens m) :
    m.kl floats = klOfWindow floats start (lastBuckets lower start tokens) := by
  have hcounts : (fun tok => (m.counts.get? tok).getD 0) =
      fun tok => ((lastBuckets lower start tokens).count tok : ℤ) := by
    funext tok
    rw [← h.window]
    exact h.counts.getD tok
  unfold Monitor.kl klOfWindow
  rw [hcounts, h.settings, h.q, h.window]

theorem Keeps.observed {start m : Monitor F} {tokens : List Token}
    (hw : 0 < start.settings.windowSize) (h : Keeps lower start tokens m) (token : Token) :
    (m.observe floats lower token).2 =
      if (tokens.length + 1 : ℤ) < start.settings.minTokensBeforeCheck then .ok none
      else (klOfWindow floats start (lastBuckets lower start (tokens ++ [token]))).map some := by
  have hnext := h.record hw token
  unfold Monitor.observe
  dsimp only
  rw [hnext.kl, hnext.tokensSeen, hnext.settings, List.length_append]
  rfl

/-- After every run the counts are those of the window's buckets, the last that were
observed, and the next divergence is that of its window counted from scratch. -/
theorem divergence_window_exact {settings : Settings F} {m : Monitor F}
    (hwindow : 0 < settings.windowSize) (hinit : Monitor.init floats settings = .ok m)
    (tokens : List Token) :
    let monitor := m.run floats lower tokens
    monitor.window = lastBuckets lower m tokens ∧
    monitor.window.length = min tokens.length settings.windowSize ∧
    (∀ tok, monitor.counts.get? tok =
      if tok ∈ monitor.window then some (monitor.window.count tok : ℤ) else none) ∧
    (∀ n ∈ monitor.counts.values, 0 < n) ∧
    monitor.counts.values.sum = monitor.window.length ∧
    ∀ token, (monitor.observe floats lower token).2 =
      if (tokens.length + 1 : ℤ) < settings.minTokensBeforeCheck then .ok none
      else (klOfWindow floats m (lastBuckets lower m (tokens ++ [token]))).map some := by
  intro monitor
  obtain ⟨hsettings, hstart⟩ := @init_keeps _ _ lower _ _ hinit
  rw [← hsettings] at hwindow ⊢
  have hkeeps : Keeps lower m tokens monitor := hstart.run hwindow tokens
  refine ⟨hkeeps.window, ?_, ?_, ?_, ?_, ?_⟩
  · rw [hkeeps.window]
    exact length_lastBuckets lower m tokens
  · intro tok
    rw [hkeeps.counts tok]
    exact if_congr (or_iff_right List.not_mem_nil) rfl rfl
  · intro n hn
    obtain ⟨tok, hmem, rfl⟩ := hkeeps.counts.mem_values hn
    have hpos := List.count_pos_iff.mpr (hmem.resolve_left List.not_mem_nil)
    rw [id_eq]
    omega
  · have hsum := hkeeps.counts.sum_values (g := id) fun _ => rfl
    rw [List.map_id] at hsum
    exact hsum
  · exact hkeeps.observed hwindow

end

/-- Exact arithmetic, with the logarithm of 1. -/
def exactArithmetic : Floats ℚ where
  zero := 0
  ofInt n := .ok n
  add := (· + ·)
  mul := (· * ·)
  div a b := if b = 0 then .error .zeroDivision else .ok (a / b)
  log x := if x = 1 then .ok 0 else .error .domain
  positive x := 0 < x

/-- A window of two tokens over a vocabulary of the catch-all alone. -/
def pairSettings : Settings ℚ where
  baselineCounts := .empty
  windowSize := 2
  minTokensBeforeCheck := 2
  smoothing := 1

def pairMonitor : Monitor ℚ where
  settings := pairSettings
  q := [(other, 1)]
  window := []
  counts := .empty
  tokensSeen := 0

theorem divergence_window_exact_three :
    Monitor.init exactArithmetic pairSettings = .ok pairMonitor ∧
    (pairMonitor.run exactArithmetic id [other, other, other]).window.length = 2 ∧
    (∀ n ∈ (pairMonitor.run exactArithmetic id [other, other, other]).counts.values, 0 < n) ∧
    (pairMonitor.run exactArithmetic id [other, other, other]).counts.values.sum =
      (pairMonitor.run exactArithmetic id [other, other, other]).window.length := by
  have hinit : Monitor.init exactArithmetic pairSettings = .ok pairMonitor := by
    have hvocab : vocab pairSettings.baselineCounts = [other] := List.mergeSort_singleton _
    have hq : baselineProbabilities exactArithmetic pairSettings = .ok [(other, 1)] := by
      unfold baselineProbabilities smoothed
      rw [hvocab]
      decide +kernel
    unfold Monitor.init
    rw [hq]
    rfl
  have hexact := @divergence_window_exact _ exactArithmetic id _ _ (by decide) hinit [other, other, other]
  exact ⟨hinit, hexact.2.1, hexact.2.2.2.1, hexact.2.2.2.2.1⟩

end Divergence
end BlackMonolith.TraceAudit
