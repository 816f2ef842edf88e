import Mathlib
import BlackMonolith.Library.Substring
import BlackMonolith.Library.Utf8
import BlackMonolith.TraceAudit.RedactionCover

/-!
# Upstream errors

The body of an upstream error is redacted before the client reads it. The literals
are the fallback key and the values of the two credential headers as they were sent:
a literal is never left whole, but the token of an `authorization` header is no
literal.
-/
namespace BlackMonolith.TraceAudit
open Library

/-- The headers of a request, with their names in lower case. -/
abbrev RequestHeaders := List (String × Text)

def RequestHeaders.get (headers : RequestHeaders) (name : String) : Option Text :=
  (headers.find? (·.1 = name)).map (·.2)

/-- `request_credentials`: the credentials a request carried. -/
def requestCredentials (headers : RequestHeaders) : List Text :=
  ((headers.get "x-api-key").toList ++ (headers.get "authorization").toList).filter (· ≠ [])

/-- `anthropic_api_key` is the fallback key. -/
def errorSecrets (anthropicApiKey : Option Text) (headers : RequestHeaders) : List Text :=
  anthropicApiKey.getD [] :: requestCredentials headers

/-- What is read from a body. -/
def received (body : List UInt8) : Text :=
  (PyString.ofString (String.ofList (Utf8.decodeLossy body))).points

def encodeText (t : Text) : List UInt8 := Utf8.encode (t.map fun c => Char.ofNat c.val)

/-- The body that is forwarded, and the labels of the events emitted. -/
def redactUpstreamError (engine : Engine) (errorBody : List UInt8) (secrets : List Text) :
    List UInt8 × List String :=
  let found := scan engine (received errorBody) secrets
  if found.isEmpty then (errorBody, [])
  else
    let literalFound := found.filter (·.label = literalCredentialLabel)
    let patternFound := found.filter (·.label ≠ literalCredentialLabel)
    (encodeText (redact (received errorBody) found),
      patternFound.map PiiMatch.label ++
        if literalFound.isEmpty then [] else [literalCredentialLabel])

/-- A request carries a credential as its key, or as the token of the bearer scheme. -/
inductive Carries (headers : RequestHeaders) (secret : Text) : Prop
  | key : ("x-api-key", secret) ∈ headers → Carries headers secret
  | bearer {scheme : String} {spaces : ℕ} : scheme.toLower = "bearer" → 0 < spaces →
      secret.head? ≠ some 0x20 →
      ("authorization", text scheme ++ List.replicate spaces 0x20 ++ secret) ∈ headers →
      Carries headers secret

/-! ## The text that is forwarded -/

/-- No code point of a text is a surrogate. -/
def Scalar (t : Text) : Prop := ∀ c ∈ t, Nat.isValidChar c.val

theorem scalar_ofString (s : String) : Scalar (PyString.ofString s).points := by
  intro c hc
  obtain ⟨d, -, rfl⟩ := List.mem_map.mp hc
  exact d.valid

theorem received_encodeText {t : Text} (h : Scalar t) : received (encodeText t) = t := by
  unfold received encodeText
  rw [Utf8.decodeLossy_encode]
  unfold PyString.ofString
  rw [String.toList_ofList, List.map_map]
  conv_rhs => rw [← List.map_id t]
  apply List.map_congr_left
  intro c hc
  apply Fin.ext
  simp only [Function.comp_apply, id_eq]
  unfold Char.ofNat
  rw [dif_pos (h c hc)]
  rfl

theorem scalar_redact {t : Text} {found : List PiiMatch} (h : Scalar t) :
    Scalar (redact t found) := by
  intro c hc
  rcases mem_replaceMatches hc with hmem | ⟨m, -, hmark⟩
  · exact h c hmem
  · unfold placeholder at hmark
    obtain ⟨d, hd, rfl⟩ := List.mem_map.mp hmark
    exact scalar_ofString _ d hd

theorem redact_nil (t : Text) : redact t [] = t := rfl

/-- What the client reads is the redacted text of the body. -/
theorem received_redactUpstreamError (engine : Engine) (errorBody : List UInt8)
    (secrets : List Text) :
    received (redactUpstreamError engine errorBody secrets).1 =
      redact (received errorBody) (scan engine (received errorBody) secrets) := by
  unfold redactUpstreamError
  by_cases hempty : (scan engine (received errorBody) secrets).isEmpty
  · rw [if_pos hempty, List.isEmpty_iff.mp hempty, redact_nil]
  · rw [if_neg hempty]
    exact received_encodeText (scalar_redact (scalar_ofString _))

/-! ## What is left whole -/

section
variable {α : Type} [Glyph α]

/-- What lies between the matches that are kept is left as it is. -/
theorem slice_infix_replaceMatches {lastStart : ℕ} {ms : List PiiMatch} {t : List α} {i j : ℕ}
    (hms : ∀ m ∈ ms, m.start < m.stop) (hlast : ∀ m ∈ ms, m.stop ≤ lastStart → m.stop ≤ t.length)
    (h : ∀ m ∈ keptFrom lastStart ms, m.stop ≤ i ∨ j ≤ m.start) :
    (t.take j).drop i <:+: replaceMatches lastStart ms t := by
  induction ms generalizing lastStart t with
  | nil => exact (List.drop_suffix i _).isInfix.trans (List.take_prefix j t).isInfix
  | cons m ms ih =>
      have hrest : ∀ m ∈ ms, m.start < m.stop := fun a ha => hms a (List.mem_cons_of_mem m ha)
      have hm := hms m List.mem_cons_self
      by_cases hskip : lastStart < m.stop
      · have hkept : keptFrom lastStart (m :: ms) = keptFrom lastStart ms := if_pos hskip
        rw [show replaceMatches lastStart (m :: ms) t = replaceMatches lastStart ms t from
          if_pos hskip]
        rw [hkept] at h
        exact ih hrest (fun a ha => hlast a (List.mem_cons_of_mem m ha)) h
      · have hkept : keptFrom lastStart (m :: ms) = m :: keptFrom m.start ms := if_neg hskip
        have hstop := hlast m List.mem_cons_self (Nat.not_lt.mp hskip)
        rw [hkept] at h
        rw [replaceMatches_kept hrest (by omega) (Nat.not_lt.mp hskip)]
        obtain ⟨hside, hothers⟩ := List.forall_mem_cons.mp h
        cases hside with
        | inl hbefore =>
            -- The slice lies behind the match.
            have hslice : (t.take j).drop i = ((t.drop m.stop).take (j - m.stop)).drop (i - m.stop) := by
              rw [← List.drop_take, List.drop_drop, Nat.add_sub_cancel' hbefore]
            rw [hslice]
            have hinside : ((t.drop m.stop).take (j - m.stop)).drop (i - m.stop) <:+:
                t.drop m.stop :=
              (List.drop_suffix _ _).isInfix.trans (List.take_prefix _ _).isInfix
            exact hinside.trans (List.suffix_append _ _).isInfix
        | inr hbehind =>
            have hslice : (t.take j).drop i = ((t.take m.start).take j).drop i := by
              rw [List.take_take, Nat.min_eq_left hbehind]
            rw [hslice, List.append_assoc]
            have hlength : (t.take m.start).length = m.start := by
              rw [List.length_take]
              omega
            exact (ih hrest (by omega) hothers).trans (List.prefix_append _ _).isInfix

end

/-- Characters that have places, one after the other. -/
def Adjacent (x y : Traced) : Prop := ∀ p q, x.2 = some p → y.2 = some q → q = p + 1

theorem unplaced_of_mem_placeholder {label : String} {c : Traced} (h : c ∈ placeholder label) :
    c.2 = none := by
  obtain ⟨_, _, rfl⟩ := List.mem_map.mp h
  rfl

theorem placeholder_ne_nil {α : Type} [Glyph α] (label : String) :
    (placeholder label : List α) ≠ [] := by
  intro h
  have hpoints : text s!"[REDACTED:{label}]" = [] := List.map_eq_nil_iff.mp h
  have hlist : s!"[REDACTED:{label}]".toList = [] := List.map_eq_nil_iff.mp hpoints
  simp only [String.toList_append, List.append_assoc, List.append_eq_nil_iff] at hlist
  exact absurd hlist.1 (by decide)

/-- Where two places meet in a redacted text, they met before. -/
theorem isChain_replaceMatches {lastStart : ℕ} {ms : List PiiMatch} {t : List Traced}
    (h : t.IsChain Adjacent) : (replaceMatches lastStart ms t).IsChain Adjacent := by
  induction ms generalizing lastStart t with
  | nil => exact h
  | cons m ms ih =>
      unfold replaceMatches
      split_ifs
      · exact ih h
      · apply ih
        have hmarker : (placeholder m.label : List Traced).IsChain Adjacent := by
          apply List.Pairwise.isChain
          apply List.pairwise_of_forall_mem_list
          intro x hx y _ p q hp
          rw [unplaced_of_mem_placeholder hx] at hp
          cases hp
        have hfront : (t.take m.start ++ placeholder m.label).IsChain Adjacent := by
          refine (h.take m.start).append hmarker ?_
          intro x _ y hy p q _ hq
          rw [unplaced_of_mem_placeholder (List.mem_of_mem_head? hy)] at hq
          cases hq
        refine hfront.append (h.drop m.stop) ?_
        intro x hx y _ p q hp
        rw [List.getLast?_append_of_ne_nil _ (placeholder_ne_nil m.label)] at hx
        rw [unplaced_of_mem_placeholder (List.mem_of_getLast? hx)] at hp
        cases hp

theorem isChain_traced (t : Text) : (traced t).IsChain Adjacent := by
  have hplaces : ((traced t).map Prod.snd).IsChain
      fun x y => ∀ p q, x = some p → y = some q → q = p + 1 := by
    rw [consecutive_traced t, List.isChain_map]
    refine (List.isChain_range' 0 _ 1).imp ?_
    intro a b hab p q hp hq
    cases hp
    cases hq
    exact hab
  exact (List.isChain_map Prod.snd).mp hplaces

/-- A run of characters with places has consecutive ones. -/
theorem consecutive_of_isChain {run : List Traced} (h : run.IsChain Adjacent)
    (hplaced : ∀ c ∈ run, c.2 ≠ none) : ∃ base, Consecutive base run := by
  induction run with
  | nil => exact ⟨0, rfl⟩
  | cons x run ih =>
      obtain ⟨hx, hrun⟩ := List.forall_mem_cons.mp hplaced
      obtain ⟨hnext, htail⟩ := List.isChain_cons.mp h
      obtain ⟨base, hbase⟩ := ih htail hrun
      obtain ⟨p, hp⟩ := Option.ne_none_iff_exists'.mp hx
      cases run with
      | nil =>
          refine ⟨p, ?_⟩
          unfold Consecutive
          simp [hp]
      | cons y run =>
          refine ⟨p, ?_⟩
          unfold Consecutive at hbase ⊢
          have hy : y.2 = some base := by
            rw [List.map_cons, List.length_cons, List.range'_succ, List.map_cons,
              List.cons.injEq] at hbase
            exact hbase.1
          have hq := hnext y rfl p base hp hy
          rw [List.map_cons, hbase, hp, hq, List.length_cons, List.length_cons]
          rfl

/-- A text that stands where a part of it comes from a marker. -/
def AcrossMarker (secret : Text) (redacted : List Traced) : Prop :=
  ∃ run, run <:+: redacted ∧ points run = secret ∧ ∃ c ∈ run, c.2 = none

section
variable {t secret : Text} {found : List PiiMatch}

theorem places_redact_traced (hfound : ∀ m ∈ found, m.Inside t) {i : ℕ}
    (h : i ∈ places (redact (traced t) found)) : ¬ Covered (kept t.length found) i := by
  rw [@places_redact 0 (traced t) found (by rwa [points_traced]) (consecutive_traced t),
    length_traced] at h
  exact of_decide_eq_true (List.mem_filter.mp h).2

/-- A run of a redacted text whose characters have places is a part of the text that no
kept match touches. -/
theorem run_untouched (hfound : ∀ m ∈ found, m.Inside t) {run : List Traced}
    (hrun : run <:+: redact (traced t) found) (hne : run ≠ []) (hplaced : ∀ c ∈ run, c.2 ≠ none) :
    ∃ i, points run <+: t.drop i ∧
      ∀ m ∈ kept t.length found, m.stop ≤ i ∨ i + run.length ≤ m.start := by
  obtain ⟨base, hbase⟩ :=
    consecutive_of_isChain
      ( List.IsChain.infix (isChain_replaceMatches (isChain_traced t)) hrun) hplaced
  have hplace : ∀ k (hk : k < run.length), (run[k]).2 = some (base + k) := by
    intro k hk
    have h := congrArg (·[k]?) hbase
    simpa [List.getElem?_eq_getElem, hk] using h
  refine ⟨base, ?_, ?_⟩
  · apply List.prefix_iff_getElem?.mpr
    intro k hk
    rw [length_points] at hk
    have hmem : (run[k].1, some (base + k)) ∈ redact (traced t) found := by
      rw [← hplace k hk]
      exact hrun.subset (List.getElem_mem hk)
    rw [List.getElem?_drop, getElem?_of_mem_redact hmem]
    simp [points, Glyph.point]
  · intro m hm
    by_contra hmeets
    have hpos := List.length_pos_iff.mpr hne
    have hlt : m.start < m.stop := by
      have hms : ∀ m ∈ byStartReversed found, m.start < m.stop :=
        fun m hm => (hfound m (mem_byStartReversed.mp hm)).1
      exact hms m (stop_le_of_mem_keptFrom hms hm).1
    have hj : max m.start base - base < run.length := by omega
    have hmem : max m.start base ∈ places (redact (traced t) found) := by
      apply List.mem_filterMap.mpr
      refine ⟨run[max m.start base - base], hrun.subset (List.getElem_mem hj), ?_⟩
      rw [hplace _ hj, Nat.add_sub_cancel' (Nat.le_max_right _ _)]
    exact places_redact_traced hfound hmem ⟨m, hm, by omega, by omega⟩

/-- What stands in a redacted text stands in the text where no kept match touches it, or
across a marker. -/
theorem infix_redact_iff (hsecret : secret ≠ []) (hfound : ∀ m ∈ found, m.Inside t) :
    secret <:+: redact t found ↔
      (∃ i, secret <+: t.drop i ∧
        ∀ m ∈ kept t.length found, m.stop ≤ i ∨ i + secret.length ≤ m.start) ∨
      AcrossMarker secret (redact (traced t) found) := by
  have hpoints : redact t found = points (redact (traced t) found) := by
    rw [points_redact, points_traced]
  constructor
  · intro h
    rw [hpoints] at h
    obtain ⟨run, hrun, rfl⟩ := List.infix_map_iff.mp h
    by_cases hplaced : ∀ c ∈ run, c.2 ≠ none
    · have hne : run ≠ [] := fun hnil => hsecret (by rw [hnil]; rfl)
      obtain ⟨i, hinitial, huntouched⟩ := run_untouched hfound hrun hne hplaced
      refine .inl ⟨i, hinitial, ?_⟩
      rw [List.length_map]
      exact huntouched
    · obtain ⟨c, hc⟩ := not_forall.mp hplaced
      obtain ⟨hmem, hnone⟩ := Classical.not_imp.mp hc
      exact .inr ⟨run, hrun, rfl, c, hmem, not_not.mp hnone⟩
  · rintro (⟨i, hinitial, huntouched⟩ | ⟨run, hrun, rfl, -⟩)
    · have hslice : secret = (t.take (i + secret.length)).drop i := by
        rw [List.drop_take, Nat.add_sub_cancel_left]
        exact List.prefix_iff_eq_take.mp hinitial
      rw [hslice]
      apply slice_infix_replaceMatches _ _ huntouched
      · intro m hm
        exact (hfound m (mem_byStartReversed.mp hm)).1
      · intro m hm _
        exact (hfound m (mem_byStartReversed.mp hm)).2
    · rw [hpoints]
      exact hrun.map Glyph.point

end

/-! ## Markers -/

def markerText (label : String) : Text := text s!"[REDACTED:{label}]"

/-- A run that a marker is part of clashes with the marker of a match that is kept. -/
theorem clash_of_unplaced {lastStart : ℕ} {ms : List PiiMatch} {t run : List Traced}
    (hms : ∀ m ∈ ms, m.start < m.stop) (hlast : ∀ m ∈ ms, m.stop ≤ lastStart → m.stop ≤ t.length)
    (ht : ∀ c ∈ t, c.2 ≠ none) (hrun : ∃ c ∈ run, c.2 = none)
    (h : run <:+: replaceMatches lastStart ms t) :
    ∃ m ∈ keptFrom lastStart ms, Clash (points run) (markerText m.label) := by
  obtain ⟨c, hc, hnone⟩ := hrun
  induction ms generalizing lastStart t with
  | nil => exact absurd hnone (ht c (h.subset hc))
  | cons a ms ih =>
      have hrest : ∀ m ∈ ms, m.start < m.stop := fun b hb => hms b (List.mem_cons_of_mem a hb)
      have ha := hms a List.mem_cons_self
      by_cases hskip : lastStart < a.stop
      · rw [show keptFrom lastStart (a :: ms) = keptFrom lastStart ms from if_pos hskip]
        rw [show replaceMatches lastStart (a :: ms) t = replaceMatches lastStart ms t from
          if_pos hskip] at h
        exact ih hrest (fun b hb => hlast b (List.mem_cons_of_mem a hb)) ht h
      · have hstop := hlast a List.mem_cons_self (Nat.not_lt.mp hskip)
        rw [show keptFrom lastStart (a :: ms) = a :: keptFrom a.start ms from if_neg hskip]
        rw [replaceMatches_kept hrest (by omega) (Nat.not_lt.mp hskip), List.append_assoc] at h
        rcases infix_or_clash (placeholder_ne_nil a.label) h with hfront | hbehind | hclash
        · have hlength : (t.take a.start).length = a.start := by
            rw [List.length_take]
            omega
          obtain ⟨m, hm, hmarker⟩ := ih hrest (by omega)
            (fun c hc => ht c (List.mem_of_mem_take hc)) hfront
          exact ⟨m, List.mem_cons_of_mem a hm, hmarker⟩
        · exact absurd hnone (ht c (List.mem_of_mem_drop (hbehind.subset hc)))
        · refine ⟨a, List.mem_cons_self, ?_⟩
          have hpoints := hclash.map Glyph.point
          rw [show (placeholder a.label : List Traced).map Glyph.point = placeholder a.label from
            points_placeholder a.label] at hpoints
          rw [show markerText a.label = placeholder a.label from (List.map_id _).symm]
          exact hpoints

theorem clash_of_acrossMarker {t secret : Text} {found : List PiiMatch}
    (hfound : ∀ m ∈ found, m.Inside t) (h : AcrossMarker secret (redact (traced t) found)) :
    ∃ m ∈ found, Clash secret (markerText m.label) := by
  have hms : ∀ m ∈ byStartReversed found, m.start < m.stop :=
    fun m hm => (hfound m (mem_byStartReversed.mp hm)).1
  have hlast : ∀ m ∈ byStartReversed found, m.stop ≤ (traced t).length + 1 →
      m.stop ≤ (traced t).length := by
    intro m hm _
    rw [length_traced]
    exact (hfound m (mem_byStartReversed.mp hm)).2
  have hplaced : ∀ c ∈ traced t, c.2 ≠ none := by
    intro c hc
    obtain ⟨x, -, rfl⟩ := List.mem_map.mp hc
    exact Option.some_ne_none _
  obtain ⟨run, hrun, rfl, hnone⟩ := h
  obtain ⟨m, hm, hclash⟩ := clash_of_unplaced hms hlast hplaced hnone hrun
  exact ⟨m, mem_byStartReversed.mp (stop_le_of_mem_keptFrom hms hm).1, hclash⟩

/-- A text without brackets clashes with a marker only as a part of its name. -/
theorem infix_of_clash {secret name : Text} (hopen : 0x5B ∉ secret) (hclose : 0x5D ∉ secret)
    (h : Clash secret (0x5B :: (name ++ [0x5D]))) : secret <:+: name := by
  obtain ⟨before, shared, after, front, back, hne, rfl, hmarker, hstart, hstop⟩ := h
  have hshared : ∀ c ∈ shared, c ≠ 0x5B ∧ c ≠ 0x5D := by
    intro c hc
    constructor
    · rintro rfl
      exact hopen (List.mem_append_left _ (List.mem_append_right _ hc))
    · rintro rfl
      exact hclose (List.mem_append_left _ (List.mem_append_right _ hc))
  cases front with
  | nil =>
      obtain ⟨c, shared, rfl⟩ := List.exists_cons_of_ne_nil hne
      exact absurd (List.cons.inj hmarker).1.symm (hshared c List.mem_cons_self).1
  | cons c front =>
      have hbefore := hstart.resolve_right (List.cons_ne_nil c front)
      rw [List.cons_append, List.cons_append] at hmarker
      have hname := (List.cons.inj hmarker).2
      rcases List.eq_nil_or_concat back with rfl | ⟨back, d, rfl⟩
      · rcases List.eq_nil_or_concat shared with rfl | ⟨shared, e, rfl⟩
        · exact absurd rfl hne
        · rw [List.append_nil, List.concat_eq_append, ← List.append_assoc] at hname
          have hlast := List.append_inj_right' hname rfl
          exact absurd (List.cons.inj hlast).1.symm
            (hshared e (by rw [List.concat_eq_append]; simp)).2
      · have hafter := hstop.resolve_right (by simp)
        rw [List.concat_eq_append, ← List.append_assoc] at hname
        have hinner := (List.append_inj' hname rfl).1
        rw [hbefore, hafter, List.nil_append, List.append_nil, hinner]
        exact ⟨front, back, rfl⟩

/-! ## Literals -/

/-- A match that fits is kept, or one that begins within it is. -/
theorem kept_within {lastStart : ℕ} {ms : List PiiMatch} (hms : ∀ m ∈ ms, m.start < m.stop)
    (hsorted : ms.Pairwise fun a b => b.start ≤ a.start) {m : PiiMatch} (hm : m ∈ ms)
    (hfits : m.stop ≤ lastStart) :
    ∃ k ∈ keptFrom lastStart ms, m.start ≤ k.start ∧ k.start < m.stop := by
  induction ms generalizing lastStart with
  | nil => cases hm
  | cons a ms ih =>
      have hrest : ∀ m ∈ ms, m.start < m.stop := fun b hb => hms b (List.mem_cons_of_mem a hb)
      obtain ⟨hfirst, hordered⟩ := List.pairwise_cons.mp hsorted
      unfold keptFrom
      split_ifs with hskip
      · cases hm with
        | head => omega
        | tail _ hm => exact ih hrest hordered hm hfits
      · cases hm with
        | head => exact ⟨m, List.mem_cons_self, Nat.le_refl _, hms m List.mem_cons_self⟩
        | tail _ hm =>
            rcases Nat.lt_or_ge a.start m.stop with hwithin | hbehind
            · exact ⟨a, List.mem_cons_self, hfirst m hm, hwithin⟩
            · obtain ⟨k, hk, hstart⟩ := ih hrest hordered hm hbehind
              exact ⟨k, List.mem_cons_of_mem a hk, hstart⟩

section
variable {engine : Engine} {t : Text} {literals : List Text}

/-- A counted literal is a long one that stands where it is counted. -/
theorem literal_of_counted {l : PiiMatch} (h : l ∈ literalMatches t literals) :
    ∃ secret ∈ literals, minLiteralSecretLength ≤ secret.length ∧
      l.stop = l.start + secret.length ∧ secret <+: t.drop l.start := by
  obtain ⟨secret, hmem, hsecret⟩ := List.mem_flatMap.mp (List.mem_eraseDups.mp h)
  split_ifs at hsecret with hshort
  · cases hsecret
  · obtain ⟨start, hstart, rfl⟩ := List.mem_map.mp hsecret
    exact ⟨secret, hmem, Nat.not_lt.mp hshort, rfl, (occurrences_initial hstart).2⟩

/-- No literal is left whole: where one stands, a match that is replaced touches it. If that
is a shorter literal counted within an earlier place of this one, the shorter one stands
within this place too. -/
theorem literal_touched {secret : Text} (hmem : secret ∈ literals)
    (hlong : minLiteralSecretLength ≤ secret.length) {i : ℕ} (h : secret <+: t.drop i) :
    ∃ m ∈ kept t.length (scan engine t literals), m.start < i + secret.length ∧ i < m.stop := by
  have hinside : ∀ m ∈ scan engine t literals, m.Inside t := fun m hm => scan_inside hm
  have hms : ∀ m ∈ byStartReversed (scan engine t literals), m.start < m.stop :=
    fun m hm => (hinside m (mem_byStartReversed.mp hm)).1
  induction hn : secret.length using Nat.strong_induction_on generalizing secret i with
  | _ n ih =>
      have hsecret : secret ≠ [] := by
        rintro rfl
        exact absurd hlong (by decide)
      obtain ⟨j, hj, hle, hlt⟩ := @occurrence_counted t secret hsecret 0 0 i (Nat.zero_le i) h
      have hl := mem_literalMatches hmem hlong hj
      have hstop : j + secret.length ≤ t.length :=
        (literalMatches_inside hl).2
      obtain ⟨k, hk, hjk, hkj⟩ := @kept_within (t.length + 1) _ hms
        (List.pairwise_insertionSort _ _) _
        (mem_byStartReversed.mpr (List.mem_append_right _ hl)) (by dsimp only; omega)
      dsimp only at hjk hkj
      have hkscan := mem_byStartReversed.mp (stop_le_of_mem_keptFrom hms hk).1
      have hkpos := (hinside k hkscan).1
      rcases Nat.lt_or_ge i k.stop with hmeets | hbefore
      · exact ⟨k, hk, by omega, hmeets⟩
      · have hcommonlaps := overlaps_of_contains
          (l := ⟨literalCredentialLabel, j, j + secret.length, secret⟩) (m := k) ⟨Nat.le_refl _, Nat.le_refl _⟩ (by dsimp only; omega) hkj
        obtain ⟨short, hshort, hlong', hkstop, hstands⟩ :=
          literal_of_counted (literal_of_overlaps hkscan hl hcommonlaps)
        have hj' := (occurrences_initial hj).2
        rw [Nat.sub_zero] at hj'
        have hsub : j + (k.start - j) = k.start := Nat.add_sub_cancel' hjk
        have hpart : short <+: secret.drop (k.start - j) := by
          have hdrop := hj'.drop (k.start - j)
          rw [List.drop_drop, hsub] at hdrop
          apply List.prefix_of_prefix_length_le hstands hdrop
          rw [List.length_drop]
          omega
        have hagain := hpart.trans (h.drop (k.start - j))
        rw [List.drop_drop] at hagain
        obtain ⟨m, hm, hstart, hmstop⟩ := ih short.length (by omega) hshort hlong' hagain rfl
        exact ⟨m, hm, by omega, by omega⟩

end

/-! ## What an error body echoes -/

/-- No credential that the request carries and the body contains is in what is forwarded. -/
def HidesCredentials (engine : Engine) (anthropicApiKey : Option Text) (headers : RequestHeaders)
    (errorBody : List UInt8) : Prop :=
  ∀ secret, Carries headers secret → minLiteralSecretLength ≤ secret.length →
    secret <:+: received errorBody →
      ¬ secret <:+:
        received (redactUpstreamError engine errorBody (errorSecrets anthropicApiKey headers)).1

/-- The spans that are looked at: a literal, or what a pattern or an encoded atom reports
where no literal stands. -/
inductive Reported (engine : Engine) (t : Text) (literals : List Text) (m : PiiMatch) : Prop
  | literal : m ∈ literalMatches t literals → Reported engine t literals m
  | pattern : m ∈ scanPlain engine t →
      (∀ l ∈ literalMatches t literals, l.overlaps m = false) → Reported engine t literals m
  | encoded {atom : EncodedAtom} : atom ∈ engine.encodedAtoms →
      m ∈ encodedMatches engine t atom →
      (∀ l ∈ literalMatches t literals, l.overlaps m = false) → Reported engine t literals m

/-- The span shares a character with a part of the text. -/
def PiiMatch.Meets (m : PiiMatch) (start stop : ℕ) : Prop := m.start < stop ∧ start < m.stop

/-- A credential is a literal, or wherever it stands there is a reported span such that all
reported spans that begin in that one, itself among them, meet the credential; and the
credential and the marker of a reported span have no part of each other's ends. -/
structure Shielded (engine : Engine) (t : Text) (literals : List Text) (secret : Text) : Prop where
  met : secret ∈ literals ∨ ∀ i, secret <+: t.drop i → ∃ m, Reported engine t literals m ∧
    ∀ m', Reported engine t literals m' → m.start ≤ m'.start → m'.start < m.stop →
      m'.Meets i (i + secret.length)
  unmarked : ∀ m, Reported engine t literals m → ¬ Clash secret (markerText m.label)

section
variable {engine : Engine} {t secret : Text} {literals : List Text}

theorem mem_scan_iff {m : PiiMatch} :
    m ∈ scan engine t literals ↔ Reported engine t literals m := by
  have hclear : ((!(literalMatches t literals).any fun l => l.overlaps m) = true) ↔
      ∀ l ∈ literalMatches t literals, l.overlaps m = false := by
    simp only [Bool.not_eq_true', List.any_eq_false, Bool.not_eq_true]
  unfold scan
  dsimp only
  rw [List.mem_append, List.mem_filter, List.mem_append, List.mem_flatMap, hclear]
  constructor
  · rintro (⟨hplain | ⟨atom, hatom, hencoded⟩, hapart⟩ | hliteral)
    · exact .pattern hplain hapart
    · exact .encoded hatom hencoded hapart
    · exact .literal hliteral
  · intro h
    cases h with
    | literal hliteral => exact .inr hliteral
    | pattern hplain hapart => exact .inl ⟨.inl hplain, hapart⟩
    | encoded hatom hencoded hapart => exact .inl ⟨.inr ⟨_, hatom, hencoded⟩, hapart⟩

theorem reported_of_mem_kept {m : PiiMatch} (h : m ∈ kept t.length (scan engine t literals)) :
    Reported engine t literals m := by
  have hms : ∀ m ∈ byStartReversed (scan engine t literals), m.start < m.stop :=
    fun m hm => (scan_inside (mem_byStartReversed.mp hm)).1
  exact mem_scan_iff.mp (mem_byStartReversed.mp (stop_le_of_mem_keptFrom hms h).1)

/-- Of a reported span, a match that begins in it is replaced. -/
theorem replaced_within {m : PiiMatch} (h : Reported engine t literals m) :
    ∃ k ∈ kept t.length (scan engine t literals), m.start ≤ k.start ∧ k.start < m.stop := by
  have hmem := mem_scan_iff.mpr h
  have hstop := (scan_inside hmem).2
  apply kept_within (fun m hm => (scan_inside (mem_byStartReversed.mp hm)).1)
    (List.pairwise_insertionSort _ _) (mem_byStartReversed.mpr hmem)
  omega

theorem hidden_of_shielded (hlong : minLiteralSecretLength ≤ secret.length)
    (h : Shielded engine t literals secret) :
    ¬ secret <:+: redact t (scan engine t literals) := by
  have hsecret : secret ≠ [] := by
    rintro rfl
    exact absurd hlong (by decide)
  have hinside : ∀ m ∈ scan engine t literals, m.Inside t := fun m hm => scan_inside hm
  rw [infix_redact_iff hsecret hinside, not_or]
  constructor
  · rintro ⟨i, hi, huntouched⟩
    have htouched : ∃ m ∈ kept t.length (scan engine t literals),
        m.start < i + secret.length ∧ i < m.stop := by
      cases h.met with
      | inl hliteral => exact literal_touched hliteral hlong hi
      | inr hplaces =>
          obtain ⟨m, hm, hmeets⟩ := hplaces i hi
          obtain ⟨k, hk, hstart, hstop⟩ := replaced_within hm
          exact ⟨k, hk, hmeets k (reported_of_mem_kept hk) hstart hstop⟩
    obtain ⟨m, hm, hstart, hstop⟩ := htouched
    have hside := huntouched m hm
    omega
  · intro hmarker
    obtain ⟨m, hm, hclash⟩ := clash_of_acrossMarker hinside hmarker
    exact h.unmarked m (mem_scan_iff.mp hm) hclash

/-- A place that no reported span meets is echoed. -/
theorem met_of_hidden (hlong : minLiteralSecretLength ≤ secret.length)
    (h : ¬ secret <:+: redact t (scan engine t literals)) {i : ℕ} (hi : secret <+: t.drop i) :
    ∃ m, Reported engine t literals m ∧ m.Meets i (i + secret.length) := by
  have hsecret : secret ≠ [] := by
    rintro rfl
    exact absurd hlong (by decide)
  by_contra hnone
  apply h
  refine (infix_redact_iff hsecret fun m hm => scan_inside hm).mpr (.inl ⟨i, hi, ?_⟩)
  intro m hm
  by_contra hmeets
  rw [not_or, not_le, not_le] at hmeets
  exact hnone ⟨m, reported_of_mem_kept hm, hmeets.2, hmeets.1⟩

end

/-- The credentials of a request are hidden if each of them is shielded; and only if a
reported span meets each place where one of them stands. -/
theorem hidesCredentials_of_shielded (engine : Engine) (anthropicApiKey : Option Text)
    (headers : RequestHeaders) (errorBody : List UInt8) :
    ((∀ secret, Carries headers secret → minLiteralSecretLength ≤ secret.length →
        secret <:+: received errorBody →
          Shielded engine (received errorBody) (errorSecrets anthropicApiKey headers) secret) →
      HidesCredentials engine anthropicApiKey headers errorBody) ∧
    (HidesCredentials engine anthropicApiKey headers errorBody →
      ∀ secret, Carries headers secret → minLiteralSecretLength ≤ secret.length →
        ∀ i, secret <+: (received errorBody).drop i →
          ∃ m, Reported engine (received errorBody) (errorSecrets anthropicApiKey headers) m ∧
            m.Meets i (i + secret.length)) := by
  unfold HidesCredentials
  simp only [received_redactUpstreamError]
  constructor
  · intro h secret hcarries hlong hbody
    exact hidden_of_shielded hlong (h secret hcarries hlong hbody)
  · intro h secret hcarries hlong i hi
    exact met_of_hidden hlong (h secret hcarries hlong (hi.isInfix.trans
      (List.drop_suffix i _).isInfix)) hi

def silent (label : String) : Pattern := ⟨label, fun _ => [], fun _ _ h => nomatch h⟩

/-- What is found there: one atom, with nothing to decode. -/
def silentEngine : Engine where
  isFormat := fun _ => false
  nfkc := fun c => [c]
  digit := fun c => if 0x30 ≤ c.val ∧ c.val ≤ 0x39 then some (c.val - 0x30) else none
  patterns := ["aws_access_key_id", "openai_style_api_key", "anthropic_api_key",
    "generic_bearer_token", "email_address", "us_ssn", "credit_card", "aws_access_key_id"].map silent
  encodedAtoms := [⟨"percent", onlyIn (text "unknown token opaque-token1") (14, 27),
    onlyIn_inside (by decide), fun _ => none⟩]

/-- An upstream names the key it was given. -/
def keyError : List UInt8 := Utf8.encode "unknown key opaque-key-12".toList

theorem key_hidden :
    HidesCredentials silentEngine none [("x-api-key", text "opaque-key-12")] keyError := by
  have hreceived : received keyError = text "unknown key opaque-key-12" := by decide
  apply (hidesCredentials_of_shielded silentEngine none
    [("x-api-key", text "opaque-key-12")] keyError).1
  intro secret hcarries _ _
  have hsecret : secret = text "opaque-key-12" := by
    cases hcarries with
    | key hmem => exact congrArg Prod.snd (List.mem_singleton.mp hmem)
    | bearer _ _ _ hmem =>
        have hname : "authorization" = "x-api-key" :=
          congrArg Prod.fst (List.mem_singleton.mp hmem)
        exact absurd hname (by decide)
  rw [hsecret, hreceived]
  refine ⟨.inl (by decide), fun m hm hclash => ?_⟩
  have hlabel : ∀ m ∈ scan silentEngine (text "unknown key opaque-key-12")
      (errorSecrets none [("x-api-key", text "opaque-key-12")]),
      m.label = literalCredentialLabel := by decide
  rw [hlabel m (mem_scan_iff.mpr hm)] at hclash
  have hmarker : markerText literalCredentialLabel =
      0x5B :: (text "REDACTED:anthropic_api_key" ++ [0x5D]) := by decide
  rw [hmarker] at hclash
  exact absurd (infix_of_clash (by decide) (by decide) hclash) (by decide)

/-- An upstream names the token alone, without its scheme. -/
def tokenError : List UInt8 := Utf8.encode "unknown token opaque-token1".toList

theorem token_echoed :
    ¬ HidesCredentials silentEngine none [("authorization", text "Bearer opaque-token1")]
      tokenError := by
  intro h
  have hreceived : received tokenError = text "unknown token opaque-token1" := by decide +kernel
  have hcarries : Carries [("authorization", text "Bearer opaque-token1")] (text "opaque-token1") :=
    @Carries.bearer _ _ "Bearer" 1 (by decide +kernel) (by decide) (by decide) (by decide)
  apply h (text "opaque-token1") hcarries (by decide)
  · rw [hreceived]
    decide
  · rw [received_redactUpstreamError, hreceived]
    decide +kernel

end BlackMonolith.TraceAudit
