import Mathlib
import BlackMonolith.TraceAudit.BaselineFile

/-!
# Reloading the baseline

A posted mapping that is validated is written and read back as the same counts: what
validation accepts, loading accepts again, except that the file may have no more than
16 MiB, a bound that is looked at only after the file was replaced. While what is
written stays within it, a reload that is rejected changes nothing, and a restart finds
the baseline that was accepted last.
-/
namespace BlackMonolith.TraceAudit
open Library PyJsonText

namespace Baseline

/-! ## What is asked of a reload -/

section
variable (runtime : Runtime) (adminToken : Option PyString)

/-- A rejected request changes nothing, and an accepted mapping is read back. -/
structure Atomic (s : Service) (r : ReloadRequest) : Prop where
  rejected : ∀ rejection, (reload runtime adminToken s r).2 = .error rejection →
    (reload runtime adminToken s r).1 = s
  readBack : ∀ body mapping reply, readBody runtime r.body = .ok (some body) →
    (postedMapping body).1 = some mapping → (reload runtime adminToken s r).2 = .ok reply →
    ∃ counts, validateDistributionMapping runtime mapping = .ok counts ∧
      (reload runtime adminToken s r).1.counts = counts ∧
      loadBaseline runtime (reload runtime adminToken s r).1.file = .ok counts

/-- A restart finds what is in memory. -/
def Restarts (s : Service) : Prop := start runtime s.file = .ok s

/-- Every request of a run is atomic, and the service can be restarted after each. -/
def KeepsBaseline : Service → List ReloadRequest → Prop
  | s, [] => Restarts runtime s
  | s, r :: rs =>
      Restarts runtime s ∧ Atomic runtime adminToken s r ∧
        KeepsBaseline (reload runtime adminToken s r).1 rs

/-- The file that a request leaves to be loaded. -/
def written (s : Service) (r : ReloadRequest) : Option Bytes :=
  match requireAdmin adminToken r.authorization with
  | some _ => none
  | none =>
      match nextFile runtime s.file r.body with
      | .error _ => none
      | .ok file => file

/-- What a request has written is within the bound of the file. -/
def Fits (s : Service) (r : ReloadRequest) : Prop :=
  ∀ bytes ∈ written runtime adminToken s r, bytes.length ≤ maxFileBytes

instance (s : Service) (r : ReloadRequest) : Decidable (Fits runtime adminToken s r) :=
  inferInstanceAs (Decidable (∀ bytes ∈ _, _))

def AllFit : Service → List ReloadRequest → Prop
  | _, [] => True
  | s, r :: rs => Fits runtime adminToken s r ∧ AllFit (reload runtime adminToken s r).1 rs

instance decidableAllFit : (s : Service) → (rs : List ReloadRequest) →
    Decidable (AllFit runtime adminToken s rs)
  | _, [] => isTrue trivial
  | _, _ :: rs => @instDecidableAnd _ _ _ (decidableAllFit _ rs)

end

/-! ## Tokens -/

theorem acceptedToken_ok {raw token : PyString} (h : acceptedToken raw = .ok token) :
    token = raw.strip ∧ raw.Encodable ∧ acceptedToken token = .ok token := by
  have hraw := h
  unfold acceptedToken at h
  dsimp only at h
  split_ifs at h with hempty
  split at h
  · cases h
  next n hn =>
    split_ifs at h
    have htoken := (Except.ok.inj h).symm
    refine ⟨htoken, ?_, ?_⟩
    · apply PyString.encodable_strip.mp
      by_contra hnot
      rw [PyString.encodedLength_of_not_encodable hnot] at hn
      cases hn
    · rw [htoken] at hraw ⊢
      unfold acceptedToken at hraw ⊢
      rw [PyString.strip_strip]
      exact hraw

section
variable {β : Type} {accepted : PyJson → Except Failure β}

theorem readTokens_cons (seen : List (PyString × β)) (raw : PyString) (v : PyJson)
    (rest : List (PyString × PyJson)) : readTokens accepted seen ((raw, v) :: rest) =
      match acceptedToken raw with
      | .error e => .error e
      | .ok token =>
          match accepted v with
          | .error e => .error e
          | .ok value =>
              if token ∈ seen.map Prod.fst then .error .repeatedToken
              else readTokens accepted (seen ++ [(token, value)]) rest := rfl

/-- What is read is seen already or comes from a member, and no token comes twice. -/
theorem readTokens_ok {seen result : List (PyString × β)} {members : List (PyString × PyJson)}
    (h : readTokens accepted seen members = .ok result) (hseen : (seen.map Prod.fst).Nodup) :
    (result.map Prod.fst).Nodup ∧
      (∀ e ∈ result, e ∈ seen ∨ ∃ raw v, acceptedToken raw = .ok e.1 ∧ accepted v = .ok e.2) ∧
      ∀ member ∈ members, ∃ token value,
        acceptedToken member.1 = .ok token ∧ accepted member.2 = .ok value := by
  induction members generalizing seen with
  | nil =>
      cases h
      exact ⟨hseen, fun e he => .inl he, List.forall_mem_nil _⟩
  | cons member members ih =>
      obtain ⟨raw, v⟩ := member
      rw [readTokens_cons] at h
      cases htoken : acceptedToken raw with
      | error e =>
          rw [htoken] at h
          cases h
      | ok token =>
          cases hvalue : accepted v with
          | error e =>
              rw [htoken, hvalue] at h
              cases h
          | ok value =>
              rw [htoken, hvalue] at h
              dsimp only at h
              split_ifs at h with hmem
              have hnext : ((seen ++ [(token, value)]).map Prod.fst).Nodup := by
                rw [List.map_append]
                exact List.concat_eq_append ▸ List.Nodup.concat hmem hseen
              obtain ⟨hnodup, hresult, hmembers⟩ := ih h hnext
              refine ⟨hnodup, ?_, List.forall_mem_cons.mpr ⟨⟨token, value, htoken, hvalue⟩, hmembers⟩⟩
              intro e he
              rcases hresult e he with hin | hfrom
              · rcases List.mem_append.mp hin with hin | hin
                · exact .inl hin
                · rw [List.mem_singleton.mp hin]
                  exact .inr ⟨raw, v, htoken, hvalue⟩
              · exact .inr hfrom

end

/-! ## Counts -/

/-- The counts that loading accepts. -/
structure Proper (counts : Counts) : Prop where
  nodup : (counts.map Prod.fst).Nodup
  tokens : ∀ e ∈ counts, acceptedToken e.1 = .ok e.1
  positive : ∀ e ∈ counts, 0 < e.2 ∧ e.2 ≤ maxTokenCount
  checked : checkCounts counts = .ok counts

theorem checkCounts_ok {counts result : Counts} (h : checkCounts counts = .ok result) :
    result = counts ∧ counts.length ≤ maxVocabulary ∧ counts.total ≤ maxTotal := by
  unfold checkCounts at h
  split_ifs at h with hmany htotal
  exact ⟨(Except.ok.inj h).symm, not_lt.mp hmany, not_lt.mp htotal⟩

theorem acceptedNumber_ok {runtime : Runtime} {v : PyJson} {number : Number}
    (h : acceptedNumber runtime v = .ok number) :
    (∃ n, v = .int n ∧ number = .int n ∧ 0 < n ∧ n ≤ maxTokenCount) ∨
      ∃ r x, v = .float r ∧ runtime.value r = some x ∧ number = .float x ∧ 0 < x ∧
        x ≤ maxTokenCount := by
  unfold acceptedNumber at h
  split at h
  next n =>
    split_ifs at h with hover hrange
    exact .inl ⟨n, rfl, (Except.ok.inj h).symm, hrange⟩
  next r =>
    split at h
    next x hx =>
      split_ifs at h with hrange
      exact .inr ⟨r, x, rfl, hx, (Except.ok.inj h).symm, hrange⟩
    · cases h
  · cases h

theorem scaled_range (runtime : Runtime) (number : Number) :
    0 < number.scaled runtime ∧ number.scaled runtime ≤ maxTokenCount := by
  have hone : (1 : ℤ) ≤ maxTokenCount := by decide
  unfold Number.scaled
  dsimp only
  generalize runtime.thousandfold _ = n
  omega

theorem toInt_range {runtime : Runtime} {v : PyJson} {number : Number}
    (h : acceptedNumber runtime v = .ok number) (hweight : number.isWeight = false) :
    0 < number.toInt ∧ number.toInt ≤ maxTokenCount := by
  obtain ⟨n, -, rfl, hrange⟩ | ⟨r, x, -, -, rfl, hpos, hle⟩ := acceptedNumber_ok h
  · exact hrange
  · unfold Number.isWeight at hweight
    simp only [decide_eq_false_iff_not, not_or, not_lt] at hweight
    unfold Number.toInt
    constructor
    · exact Int.lt_of_lt_of_le Int.zero_lt_one (Int.le_floor.mpr (by exact_mod_cast hweight.2))
    · have hfloor := (Int.floor_le x).trans hle
      exact_mod_cast hfloor

theorem proper_of_validated {runtime : Runtime} {mapping : PyJson} {counts : Counts}
    (h : validateDistributionMapping runtime mapping = .ok counts) : Proper counts := by
  unfold validateDistributionMapping at h
  split at h
  next member members =>
    split at h
    · cases h
    next validated hread =>
      dsimp only at h
      obtain ⟨hnodup, hfrom, -⟩ := readTokens_ok hread List.nodup_nil
      obtain ⟨rfl, hlength, htotal⟩ := checkCounts_ok h
      refine ⟨?_, ?_, ?_, h⟩
      · rw [List.map_map]
        exact hnodup
      · intro e he
        obtain ⟨number, hmem, rfl⟩ := List.mem_map.mp he
        rcases hfrom number hmem with hnil | ⟨raw, v, htoken, -⟩
        · cases hnil
        · exact (acceptedToken_ok htoken).2.2
      · intro e he
        obtain ⟨number, hmem, rfl⟩ := List.mem_map.mp he
        rcases hfrom number hmem with hnil | ⟨raw, v, -, hvalue⟩
        · cases hnil
        · dsimp only
          split_ifs with hany
          · exact scaled_range runtime number.2
          · refine toInt_range hvalue (Bool.eq_false_iff.mpr fun hweight => hany ?_)
            exact List.any_eq_true.mpr ⟨number, hmem, hweight⟩
  · cases h

/-! ## Reading back -/

theorem acceptedCount_int {n : ℤ} (h : 0 < n ∧ n ≤ maxTokenCount) : acceptedCount (.int n) = .ok n :=
  if_pos h

theorem readTokens_counts {seen rest : Counts}
    (hnodup : ((seen ++ rest).map Prod.fst).Nodup) (htokens : ∀ e ∈ rest, acceptedToken e.1 = .ok e.1)
    (hpositive : ∀ e ∈ rest, 0 < e.2 ∧ e.2 ≤ maxTokenCount) :
    readTokens acceptedCount seen (rest.map fun e => (e.1, .int e.2)) = .ok (seen ++ rest) := by
  induction rest generalizing seen with
  | nil => rw [List.append_nil]; rfl
  | cons e rest ih =>
      rw [List.forall_mem_cons] at htokens hpositive
      have hsplit : seen ++ e :: rest = seen ++ [e] ++ rest := by
        rw [List.append_assoc, List.singleton_append]
      have hnew : e.1 ∉ seen.map Prod.fst := by
        rw [List.map_append, List.map_cons] at hnodup
        exact fun hmem => (List.disjoint_of_nodup_append hnodup) hmem List.mem_cons_self
      rw [List.map_cons, readTokens_cons, htokens.1]
      dsimp only
      rw [acceptedCount_int hpositive.1]
      dsimp only
      rw [if_neg hnew, hsplit]
      exact ih (hsplit ▸ hnodup) htokens.2 hpositive.2

theorem Proper.read {counts : Counts} (h : Proper counts) :
    readTokens acceptedCount [] (counts.map fun e => (e.1, .int e.2)) = .ok counts :=
  readTokens_counts h.nodup h.tokens h.positive

theorem loadCounts_payload (runtime : Runtime) {counts : Counts} (h : Proper counts)
    {members : List (PyString × PyJson)}
    (hget : PyJson.get members "counts" = some (.dict (counts.map fun e => (e.1, .int e.2)))) :
    loadCounts runtime members = .ok counts := by
  unfold loadCounts
  rw [hget]
  dsimp only
  rw [h.read]
  exact h.checked

theorem decimal_length_le {n k : ℕ} (hk : 0 < k) (h : n < 10 ^ k) : (decimal n).length ≤ k := by
  unfold decimal digitsOf
  rw [List.length_map]
  split_ifs with hzero
  · exact hk
  · rw [List.length_reverse]
    exact (Nat.digits_length_le_iff (by decide) n).mpr h

theorem writable_int {floatRepr : Points → String} {n : ℤ} (hpos : 0 ≤ n) (h : n ≤ maxTotal) :
    Writable floatRepr (.int n) := by
  have hlt : n.natAbs < 10 ^ 15 := by
    unfold maxTotal at h
    omega
  have hlength := decimal_length_le (by decide) hlt
  show (decimal n.natAbs).length ≤ maxStrDigits
  exact hlength.trans (by decide)

theorem membersWritable_iff {floatRepr : Points → String} {members : List (PyString × PyJson)} :
    MembersWritable floatRepr members ↔
      ∀ member ∈ members, Unpaired member.1.points ∧ Writable floatRepr member.2 := by
  induction members with
  | nil =>
      rw [MembersWritable]
      exact iff_of_true trivial (List.forall_mem_nil _)
  | cons member members ih => rw [MembersWritable, List.forall_mem_cons, ih, and_assoc]

theorem unpaired_of_acceptedToken {raw token : PyString} (h : acceptedToken raw = .ok token) :
    Unpaired raw.points := unpaired_of_encodable (acceptedToken_ok h).2.1

theorem Proper.writable {floatRepr : Points → String} {counts : Counts} (h : Proper counts) :
    Writable floatRepr (.dict (counts.map fun e => (e.1, .int e.2))) := by
  rw [Writable, membersWritable_iff, List.map_map]
  refine ⟨h.nodup, fun member hmember => ?_⟩
  obtain ⟨e, he, rfl⟩ := List.mem_map.mp hmember
  obtain ⟨hpos, hle⟩ := h.positive e he
  exact ⟨unpaired_of_acceptedToken (h.tokens e he),
    writable_int (Int.le_of_lt hpos) (hle.trans (by decide))⟩

theorem Proper.total_nonneg {counts : Counts} (h : Proper counts) : 0 ≤ counts.total := by
  apply List.sum_nonneg
  intro n hn
  obtain ⟨e, he, rfl⟩ := List.mem_map.mp hn
  exact Int.le_of_lt (h.positive e he).1

/-- A mapping that was validated can be written. -/
theorem writable_of_validated {runtime : Runtime} (hruntime : runtime.ReadsBack)
    {members : List (PyString × PyJson)} {counts : Counts}
    (h : validateDistributionMapping runtime (.dict members) = .ok counts)
    (hmade : Made (fun _ => True) (fun r => r ∈ ["nan", "inf", "-inf"] ∨ ∃ t, r = runtime.floatRepr t)
      (.dict members)) :
    Writable runtime.floatRepr (.dict members) := by
  rw [Made, membersMade_iff] at hmade
  rw [Writable, membersWritable_iff]
  refine ⟨hmade.1, fun member hmember => ?_⟩
  unfold validateDistributionMapping at h
  split at h
  next first rest heq =>
    cases heq
    split at h
    · cases h
    next validated hread =>
      obtain ⟨token, number, htoken, hnumber⟩ :=
        (readTokens_ok hread List.nodup_nil).2.2 member hmember
      refine ⟨unpaired_of_acceptedToken htoken, ?_⟩
      have hvalue := (hmade.2 member hmember).2
      obtain ⟨n, hn, -, hpos, hle⟩ | ⟨r, x, hr, hx, -, -, -⟩ := acceptedNumber_ok hnumber
      · rw [hn]
        exact writable_int (Int.le_of_lt hpos) (hle.trans (by decide))
      · rw [hr] at hvalue ⊢
        rcases hvalue with hname | ⟨t, ht⟩
        · simp only [List.mem_cons, List.not_mem_nil, or_false] at hname
          rw [Writable]
          tauto
        · rw [ht] at hx ⊢
          rw [Writable]
          exact .inr (.inr (.inr (hruntime t x hx)))
  · cases h

section
variable {runtime : Runtime} {counts : Counts} {distribution : Option PyJson}
  {model : Option PyString}

/-- A model that a file can name. -/
structure Nameable (model : PyString) : Prop where
  trimmed : model.strip = model
  nonempty : model.points.isEmpty = false
  unpaired : Unpaired model.points

theorem writable_payload (h : Proper counts)
    (hdistribution : ∀ d ∈ distribution, Writable runtime.floatRepr d)
    (hmodel : ∀ m ∈ model, Nameable m) :
    Writable runtime.floatRepr (payload counts distribution model) := by
  have htotal : Writable runtime.floatRepr (.int counts.total) :=
    writable_int h.total_nonneg (checkCounts_ok h.checked).2.2
  have hvocab : Writable runtime.floatRepr (.int counts.length) := by
    apply writable_int (Int.natCast_nonneg _)
    have hlength := (checkCounts_ok h.checked).2.1
    unfold maxVocabulary at hlength
    unfold maxTotal
    omega
  have hcounts := @Proper.writable runtime.floatRepr _ h
  have hplain : ∀ key ∈ ["counts", "total", "vocab", "distribution", "model"],
      Unpaired (PyString.ofString key).points := by
    intro key hkey
    apply unpaired_of_encodable
    simp only [List.mem_cons, List.not_mem_nil, or_false] at hkey
    rcases hkey with rfl | rfl | rfl | rfl | rfl <;> decide
  have hkeys : (["counts", "total", "vocab", "distribution", "model"].map PyString.ofString).Nodup := by
    decide
  unfold payload
  rw [Writable, membersWritable_iff]
  constructor
  · refine List.Nodup.sublist ?_ hkeys
    cases distribution with
    | none =>
        cases model with
        | none => exact List.sublist_append_left (["counts", "total", "vocab"].map PyString.ofString) _
        | some m =>
            exact (List.Sublist.refl (["counts", "total", "vocab"].map PyString.ofString)).append
              (List.sublist_cons_self _ _)
    | some d =>
        cases model with
        | none =>
            exact List.sublist_append_left
              (["counts", "total", "vocab", "distribution"].map PyString.ofString) _
        | some m => exact List.Sublist.refl _
  · intro member hmember
    rcases List.mem_append.mp hmember with hmember | hmember
    · rcases List.mem_append.mp hmember with hmember | hmember
      · simp only [List.mem_cons, List.not_mem_nil, or_false] at hmember
        rcases hmember with rfl | rfl | rfl
        · exact ⟨hplain "counts" (by decide), h.writable⟩
        · exact ⟨hplain "total" (by decide), htotal⟩
        · exact ⟨hplain "vocab" (by decide), hvocab⟩
      · obtain ⟨d, hd, rfl⟩ := Option.map_eq_some_iff.mp (Option.mem_toList.mp hmember)
        exact ⟨hplain "distribution" (by decide), hdistribution d hd⟩
    · obtain ⟨m, hm, rfl⟩ := Option.map_eq_some_iff.mp (Option.mem_toList.mp hmember)
      exact ⟨hplain "model" (by decide), (hmodel m hm).unpaired⟩

theorem recordedModel_payload (hmodel : ∀ m ∈ model, Nameable m) {members : List (PyString × PyJson)}
    (hmembers : payload counts distribution model = .dict members) : recordedModel members = model := by
  cases hmembers
  cases model with
  | none =>
      cases distribution with
      | none => rfl
      | some d => rfl
  | some m =>
      obtain ⟨htrim, hne, -⟩ := hmodel m rfl
      have hrecorded : (if m.strip.points.isEmpty then none else some m.strip) = some m := by
        rw [htrim, hne]
        rfl
      cases distribution with
      | none => exact hrecorded
      | some d => exact hrecorded

/-- What is written within the bound is loaded again. -/
theorem load_written (h : Proper counts)
    (hdistribution : ∀ d ∈ distribution, Writable runtime.floatRepr d)
    (hmodel : ∀ m ∈ model, Nameable m) {bytes : Bytes}
    (hbytes : writeBaseline counts distribution model = some bytes)
    (hsize : bytes.length ≤ maxFileBytes) :
    loadBaseline runtime (some bytes) = .ok counts ∧
      loadBaselineModel runtime (some bytes) = .ok model := by
  have hwritable := writable_payload h hdistribution hmodel
  have hdecode : decodeStrict bytes = some (textAt (indented 2) 0 (payload counts distribution model)) := by
    unfold writeBaseline at hbytes
    rw [dumps_of_writable hwritable] at hbytes
    rw [← Option.some.inj hbytes]
    exact decodeStrict_ofAscii (ascii_textAt hwritable 0)
  obtain ⟨members, hmembers⟩ : ∃ members, payload counts distribution model = .dict members :=
    ⟨_, rfl⟩
  have hloads : loads runtime.floatRepr (textAt (indented 2) 0 (payload counts distribution model)) =
      some (.dict members) := by
    rw [loads_textAt hwritable, hmembers]
  constructor
  · unfold loadBaseline
    dsimp only
    rw [if_neg (not_lt.mpr hsize), hdecode]
    dsimp only
    rw [hloads]
    apply loadCounts_payload runtime h
    cases hmembers
    rfl
  · unfold loadBaselineModel
    dsimp only
    rw [hdecode]
    dsimp only
    rw [hloads]
    exact congrArg Except.ok (recordedModel_payload hmodel hmembers)

/-! ## The model of a file -/

theorem unpaired_strip {m : PyString} (h : Unpaired m.points) : Unpaired m.strip.points :=
  List.IsChain.prefix (h.suffix (List.dropWhile_suffix _)) (List.rdropWhile_prefix _ _)

theorem nameable_of_named {v : PyJson} {m : PyString}
    (h : validateBaselineModel runtime v = .ok (some m)) : Nameable m := by
  unfold validateBaselineModel at h
  split at h
  · cases h
  next value =>
    dsimp only at h
    split_ifs at h with hempty
    · cases h
    · split at h
      · cases h
      next n hn =>
        split_ifs at h
        cases h
        refine ⟨PyString.strip_strip value, Bool.eq_false_iff.mpr hempty, ?_⟩
        apply unpaired_of_encodable
        by_contra hnot
        rw [PyString.encodedLength_of_not_encodable hnot] at hn
        cases hn
  · cases h

/-- A file is decoded without surrogates, so that its strings are written back as they are. -/
theorem nameable_of_recorded {file : Option Bytes} {m : PyString}
    (h : loadBaselineModel runtime file = .ok (some m)) : Nameable m := by
  unfold loadBaselineModel at h
  split at h
  · cases h
  next bytes =>
    split at h
    · cases h
    next text htext =>
      split at h
      · split_ifs at h
        cases h
      next data hloads =>
        have hmade : Made (fun s => Unpaired s.points) (fun _ => True) (.dict data) :=
          @made_loads _ _ _ (fun t => (PyString.mk t).Encodable)
            (fun hs ht c hc => ht c (hs.subset hc)) (fun ht hread => (unpaired_readChars ht hread).1)
            (fun _ => trivial) (fun _ _ => trivial) _ _ (encodable_of_decodeStrict htext) hloads
        have hmodel := Except.ok.inj h
        unfold recordedModel at hmodel
        split at hmodel
        next model hget =>
          split_ifs at hmodel with hempty
          cases hmodel
          have hunpaired : Unpaired model.points := made_get hmade hget
          exact ⟨PyString.strip_strip model, Bool.eq_false_iff.mpr hempty, unpaired_strip hunpaired⟩
        · cases hmodel
      · cases h

theorem nameable_of_attributed {file : Option Bytes} {named : Option PyString}
    (hnamed : ∀ m ∈ named, Nameable m)
    (h : attributedModel runtime file named counts = .ok model) : ∀ m ∈ model, Nameable m := by
  unfold attributedModel at h
  split at h
  next m =>
    cases h
    exact hnamed
  · split at h
    · cases h
    · cases h
      intro m hm
      cases hm
    next recorded hrecorded =>
      have hrec := nameable_of_recorded hrecorded
      split at h
      · have hmodel := Except.ok.inj h
        intro m hm
        rw [← hmodel] at hm
        split_ifs at hm
        · cases hm
          exact hrec
        · cases hm
      · cases h
      · cases h
        intro m hm
        cases hm

/-! ## One request -/

theorem made_body {raw : Bytes} {body : List (PyString × PyJson)}
    (h : readBody runtime raw = .ok (some body)) :
    Made (fun _ => True) (fun r => r ∈ ["nan", "inf", "-inf"] ∨ ∃ t, r = runtime.floatRepr t)
      (.dict body) := by
  unfold readBody at h
  split_ifs at h
  · cases h
  · split at h
    · cases h
    next text htext =>
      split at h
      · cases h
      next members hloads =>
        cases h
        exact @made_loads _ _ _ (fun _ => True) (fun _ _ => trivial) (fun _ _ => trivial)
          (fun t => .inr ⟨t, rfl⟩) (fun _ hr => .inl hr) _ _ trivial hloads
      · cases h

theorem given_eq_some {v w : PyJson} (h : given v = some w) : v = w := by
  cases v with
  | none => cases h
  | _ => exact Option.some.inj h

theorem get_of_postedMapping {body : List (PyString × PyJson)} {mapping : PyJson}
    (h : (postedMapping body).1 = some mapping) :
    ∃ key, PyJson.get body key = some mapping := by
  unfold postedMapping at h
  split at h
  next v hv => exact ⟨"distribution", hv.trans (congrArg some (given_eq_some h))⟩
  · obtain ⟨v, hv, hgiven⟩ := Option.bind_eq_some_iff.mp h
    exact ⟨"counts", hv.trans (congrArg some (given_eq_some hgiven))⟩

/-- A posted mapping replaces the file by one that is loaded as the validated counts. -/
theorem replaceBaseline_mapping (hruntime : runtime.ReadsBack) {file next : Option Bytes}
    {raw : Bytes} {body : List (PyString × PyJson)} {mapping : PyJson}
    (hbody : readBody runtime raw = .ok (some body)) (hposted : (postedMapping body).1 = some mapping)
    (h : replaceBaseline runtime file body = .ok next) :
    ∃ counts model bytes, validateDistributionMapping runtime mapping = .ok counts ∧
      next = some bytes ∧ (bytes.length ≤ maxFileBytes →
        loadBaseline runtime next = .ok counts ∧ loadBaselineModel runtime next = .ok model) := by
  unfold replaceBaseline at h
  split at h
  · cases h
  next named hnamed =>
    split at h
    next heq =>
      rw [heq] at hposted
      cases hposted
    next mapping' isDistribution heq =>
      rw [heq] at hposted
      cases hposted
      split at h
      · cases h
      next counts hcounts =>
        split at h
        · cases h
        next model hmodel =>
          split at h
          · cases h
          next bytes hbytes =>
            cases h
            have hnameable : ∀ m ∈ model, Nameable m := by
              apply nameable_of_attributed _ hmodel
              intro m hm
              cases hm
              exact nameable_of_named hnamed
            have hwritable : ∀ d ∈ (if isDistribution then some mapping else none),
                Writable runtime.floatRepr d := by
              intro d hd
              split_ifs at hd
              · cases hd
                obtain ⟨key, hkey⟩ := get_of_postedMapping (by rw [heq])
                have hmade := made_get (made_body hbody) hkey
                cases hmapping : mapping with
                | dict members =>
                    rw [hmapping] at hcounts hmade
                    exact writable_of_validated hruntime hcounts hmade
                | _ =>
                    rw [hmapping] at hcounts
                    cases hcounts
              · cases hd
            exact ⟨counts, model, bytes, hcounts, rfl,
              load_written (proper_of_validated hcounts) hwritable hnameable hbytes⟩

theorem nextFile_ok {file next : Option Bytes} {raw : Bytes}
    (h : nextFile runtime file raw = .ok next) :
    next = file ∧ (∀ body, readBody runtime raw = .ok (some body) → (postedMapping body).1 = none) ∨
      ∃ body mapping, readBody runtime raw = .ok (some body) ∧
        (postedMapping body).1 = some mapping ∧ replaceBaseline runtime file body = .ok next := by
  unfold nextFile at h
  split at h
  · cases h
  next hbody =>
    left
    refine ⟨(Except.ok.inj h).symm, fun body hsome => ?_⟩
    rw [hbody] at hsome
    cases hsome
  next body hbody =>
    cases hposted : (postedMapping body).1 with
    | some mapping => exact .inr ⟨body, mapping, hbody, hposted, h⟩
    | none =>
        left
        constructor
        · unfold replaceBaseline at h
          split at h
          · cases h
          · split at h
            · exact (Except.ok.inj h).symm
            next heq =>
              rw [heq] at hposted
              cases hposted
        · intro body' hbody'
          cases hbody.symm.trans hbody'
          exact hposted

variable {adminToken : Option PyString} {s : Service} {r : ReloadRequest}

theorem restarts_iff : Restarts runtime s ↔
    loadBaseline runtime s.file = .ok s.counts ∧ loadBaselineModel runtime s.file = .ok s.model := by
  unfold Restarts start
  cases hcounts : loadBaseline runtime s.file with
  | error e => exact iff_of_false (fun h => nomatch h) (fun h => nomatch h.1)
  | ok counts =>
      cases hmodel : loadBaselineModel runtime s.file with
      | error e => exact iff_of_false (fun h => nomatch h) (fun h => nomatch h.2)
      | ok model =>
          constructor
          · intro h
            rw [← Except.ok.inj h]
            exact ⟨rfl, rfl⟩
          · rintro ⟨hc, hm⟩
            rw [Except.ok.inj hc, Except.ok.inj hm]

theorem reloadFile_of_loaded {model : Option PyString}
    (hcounts : loadBaseline runtime s.file = .ok counts)
    (hmodel : loadBaselineModel runtime s.file = .ok model) :
    reloadFile runtime s = (⟨s.file, counts, model⟩, .ok ⟨counts.length, model⟩) := by
  unfold reloadFile
  rw [hcounts]
  dsimp only
  rw [hmodel]

/-- What a request does to a service that can be restarted. -/
theorem reload_cases (hruntime : runtime.ReadsBack) (hs : Restarts runtime s)
    (hfits : Fits runtime adminToken s r) :
    ((reload runtime adminToken s r).1 = s ∧
      ∀ body mapping reply, readBody runtime r.body = .ok (some body) →
        (postedMapping body).1 = some mapping →
        (reload runtime adminToken s r).2 ≠ .ok reply) ∨
    ∃ body mapping counts, readBody runtime r.body = .ok (some body) ∧
      (postedMapping body).1 = some mapping ∧
      validateDistributionMapping runtime mapping = .ok counts ∧
      (reload runtime adminToken s r).1.counts = counts ∧
      (∃ reply, (reload runtime adminToken s r).2 = .ok reply) ∧
      Restarts runtime (reload runtime adminToken s r).1 := by
  unfold Fits written at hfits
  unfold reload
  cases hadmin : requireAdmin adminToken r.authorization with
  | some rejection => exact .inl ⟨rfl, fun _ _ _ _ _ h => nomatch h⟩
  | none =>
      dsimp only
      cases hnext : nextFile runtime s.file r.body with
      | error rejection => exact .inl ⟨rfl, fun _ _ _ _ _ h => nomatch h⟩
      | ok next =>
          obtain ⟨rfl, hnone⟩ | ⟨body, mapping, hbody, hposted, hreplace⟩ := nextFile_ok hnext
          · left
            obtain ⟨hcounts, hmodel⟩ := restarts_iff.mp hs
            dsimp only
            rw [show ({ s with file := s.file } : Service) = s from rfl,
              reloadFile_of_loaded hcounts hmodel]
            refine ⟨rfl, fun body mapping _ hbody hposted => ?_⟩
            rw [hnone body hbody] at hposted
            cases hposted
          · right
            obtain ⟨counts, model, bytes, hvalid, rfl, hload⟩ :=
              replaceBaseline_mapping hruntime hbody hposted hreplace
            rw [hadmin, hnext] at hfits
            obtain ⟨hcounts, hmodel⟩ := hload (hfits bytes rfl)
            dsimp only
            rw [reloadFile_of_loaded (s := { s with file := some bytes }) hcounts hmodel]
            exact ⟨body, mapping, counts, hbody, hposted, hvalid, rfl, ⟨_, rfl⟩,
              restarts_iff.mpr ⟨hcounts, hmodel⟩⟩

theorem atomic_of_fits (hruntime : runtime.ReadsBack) (hs : Restarts runtime s)
    (hfits : Fits runtime adminToken s r) :
    Atomic runtime adminToken s r ∧ Restarts runtime (reload runtime adminToken s r).1 := by
  obtain ⟨hsame, hnone⟩ | ⟨body, mapping, counts, hbody, hposted, hvalid, hmemory, ⟨reply, hreply⟩,
    hnext⟩ := reload_cases hruntime hs hfits
  · refine ⟨⟨fun _ _ => hsame, ?_⟩, hsame.symm ▸ hs⟩
    intro body mapping reply hbody hposted hreply
    exact absurd hreply (hnone body mapping reply hbody hposted)
  · refine ⟨⟨?_, ?_⟩, hnext⟩
    · intro rejection hrejected
      rw [hreply] at hrejected
      cases hrejected
    · intro body' mapping' _ hbody' hposted' _
      cases hbody.symm.trans hbody'
      cases hposted.symm.trans hposted'
      refine ⟨counts, hvalid, hmemory, ?_⟩
      rw [(restarts_iff.mp hnext).1, hmemory]

/-- A request that has too much written is rejected with the file replaced. -/
theorem fits_of_atomic (hs : Restarts runtime s) (h : Atomic runtime adminToken s r) :
    Fits runtime adminToken s r := by
  intro bytes hbytes
  by_contra hlong
  have hload : loadBaseline runtime (some bytes) = .error .fileTooLarge :=
    if_pos (not_le.mp hlong)
  unfold written at hbytes
  split at hbytes
  · cases hbytes
  next hadmin =>
    split at hbytes
    · cases hbytes
    next file hnext =>
    cases hbytes
    have hreload : reload runtime adminToken s r =
        ({ s with file := some bytes }, .error Failure.fileTooLarge.rejection) := by
      unfold reload
      rw [hadmin]
      dsimp only
      rw [hnext]
      dsimp only
      unfold reloadFile
      rw [hload]
    have hsame := h.rejected _ (by rw [hreload])
    rw [hreload] at hsame
    have hfile : s.file = some bytes := (congrArg Service.file hsame).symm
    have hcounts := (restarts_iff.mp hs).1
    rw [hfile, hload] at hcounts
    cases hcounts

theorem keepsBaseline_iff (hruntime : runtime.ReadsBack) (hs : Restarts runtime s)
    (requests : List ReloadRequest) :
    KeepsBaseline runtime adminToken s requests ↔ AllFit runtime adminToken s requests := by
  induction requests generalizing s with
  | nil => exact iff_of_true hs trivial
  | cons r rs ih =>
      rw [KeepsBaseline, AllFit]
      constructor
      · rintro ⟨-, hatomic, hrest⟩
        have hfits := fits_of_atomic hs hatomic
        exact ⟨hfits, (ih (atomic_of_fits hruntime hs hfits).2).mp hrest⟩
      · rintro ⟨hfits, hrest⟩
        obtain ⟨hatomic, hnext⟩ := atomic_of_fits hruntime hs hfits
        exact ⟨hs, hatomic, (ih hnext).mpr hrest⟩

end

/-- In a run of a service that was started, every request is atomic and every accepted
mapping is found again, just if what is written stays within the bound of the file. -/
theorem reloads_keep_baseline_iff {runtime : Runtime} (hruntime : runtime.ReadsBack)
    {adminToken : Option PyString} {file : Option Bytes} {s : Service}
    (hstart : start runtime file = .ok s) (requests : List ReloadRequest) :
    KeepsBaseline runtime adminToken s requests ↔ AllFit runtime adminToken s requests := by
  have hfile : s.file = file := by
    unfold start at hstart
    split at hstart
    · cases hstart
    · split at hstart
      · cases hstart
      · rw [← Except.ok.inj hstart]
  have hs : Restarts runtime s := by
    unfold Restarts
    rw [hfile, hstart]
  exact keepsBaseline_iff hruntime hs requests

/-- A runtime that knows one float. -/
def sampleRuntime : Runtime where
  floatRepr t := if t = chars "0.5" then "0.5" else "nan"
  value r := if r = "0.5" then some (1 / 2) else none
  thousandfold x := ⌊x * 1000 + 1 / 2⌋
  near a b c d := |(a : ℚ) / b - (c : ℚ) / d| ≤ 1 / 1000000
  isPrintable c := 0x20 ≤ c.val && c.val ≤ 0x7E
  isDecodeError _ := true

theorem sampleRuntime_readsBack : sampleRuntime.ReadsBack := by
  intro t x h
  show readNumber sampleRuntime.floatRepr (chars (if t = chars "0.5" then "0.5" else "nan")) = _
  have hrepr : sampleRuntime.floatRepr t = if t = chars "0.5" then "0.5" else "nan" := rfl
  rw [hrepr] at h ⊢
  split_ifs at h ⊢
  · rfl
  · cases h

def sampleToken : PyString := .ofString "0123456789abcdef"

def sampleRequest (body : String) : ReloadRequest :=
  ⟨.ofString "Bearer 0123456789abcdef", Bytes.ofString body⟩

theorem reloads_keep_baseline_weights :
    KeepsBaseline sampleRuntime (some sampleToken) ⟨none, [], none⟩
      [sampleRequest "\x7b\"distribution\": \x7b\" a \": 0.5, \"b\": 2\x7d, \"model\": \"m\"\x7d",
        sampleRequest "\x7b\"counts\": \x7b\"a\": 0\x7d\x7d", sampleRequest ""] :=
  (@reloads_keep_baseline_iff _ sampleRuntime_readsBack _ none _ rfl _).mpr (by decide +kernel)


/-! ## A request that is too large for the file -/

theorem detectEncoding_ascii {bs : Bytes} (h : ∀ b ∈ bs, 0 < b.toNat ∧ b.toNat < 0x80) :
    detectEncoding bs = .utf8 := by
  have hmark : ∀ first : UInt8, ¬ (0 < first.toNat ∧ first.toNat < 0x80) → ∀ more : Bytes,
      (first :: more).isPrefixOf bs = false := by
    intro first hfirst more
    apply Bool.eq_false_iff.mpr
    intro hinitial
    obtain ⟨rest, hrest⟩ := List.isPrefixOf_iff_prefix.mp hinitial
    exact hfirst (h first (by rw [← hrest]; exact List.mem_append_left _ List.mem_cons_self))
  have hne : ∀ b ∈ bs, b ≠ 0 := by
    rintro b hb rfl
    exact absurd (h 0 hb).1 (by decide)
  unfold detectEncoding
  simp only [hmark 0x00 (by decide), hmark 0xFF (by decide), hmark 0xFE (by decide),
    hmark 0xEF (by decide), Bool.false_eq_true, if_false]
  split
  next a b c d t =>
    rw [if_neg (hne a (by simp)), if_neg (hne b (by simp))]
  next a b =>
    rw [if_neg (hne a (by simp)), if_neg (hne b (by simp))]
  · rfl

/-- A value that was written in one line is read off a body. -/
theorem readBody_textAt {runtime : Runtime} {members : List (PyString × PyJson)}
    (h : Writable runtime.floatRepr (.dict members)) :
    readBody runtime (Bytes.ofAscii (textAt compact 0 (.dict members))) = .ok (some members) := by
  have hascii := @ascii_textAt _ compact _ h 0
  have hprintable := printable_compact h 0
  have hopen : (0x7B : UInt8) ∈ Bytes.ofAscii (textAt compact 0 (.dict members)) := by
    cases members with
    | nil => exact List.mem_cons_self
    | cons member members => exact List.mem_cons_self
  have hstrip : ¬ (Bytes.strip (Bytes.ofAscii (textAt compact 0 (.dict members)))).isEmpty = true := by
    rw [List.isEmpty_iff]
    exact List.ne_nil_of_mem ((mem_trimBoth (by decide)).mpr hopen)
  have hencoding : detectEncoding (Bytes.ofAscii (textAt compact 0 (.dict members))) = .utf8 := by
    apply detectEncoding_ascii
    intro b hb
    obtain ⟨c, hc, rfl⟩ := List.mem_map.mp hb
    have hrange := hprintable c hc
    unfold Printable at hrange
    rw [Utf8.toNat_ofNat_of_lt (by omega)]
    omega
  have hdecode : (detectEncoding (Bytes.ofAscii (textAt compact 0 (.dict members)))).decode
      (Bytes.ofAscii (textAt compact 0 (.dict members))) = some (textAt compact 0 (.dict members)) := by
    rw [hencoding]
    exact decodeUtf8_ofAscii hascii
  unfold readBody
  rw [if_neg hstrip, hdecode]
  dsimp only
  rw [loads_textAt h]

/-- A token behind blanks. -/
def paddedToken (n : ℕ) : PyString := ⟨List.replicate n 0x20 ++ [0x61]⟩

def paddedMapping (n : ℕ) : PyJson := .dict [(paddedToken n, .int 1)]

def paddedRequest (n : ℕ) : ReloadRequest :=
  ⟨.ofString "Bearer 0123456789abcdef", Bytes.ofAscii (textAt compact 0
    (.dict [(PyString.ofString "distribution", paddedMapping n)]))⟩

theorem strip_paddedToken (n : ℕ) : (paddedToken n).strip = ⟨[0x61]⟩ := by
  have hdrop : (List.replicate n (0x20 : CodePoint) ++ [0x61]).dropWhile PyString.isSpace = [0x61] := by
    rw [List.dropWhile_append_of_pos]
    · rfl
    · intro c hc
      rw [List.eq_of_mem_replicate hc]
      rfl
  unfold PyString.strip trimBoth paddedToken
  dsimp only
  rw [hdrop]
  rfl

theorem encodable_paddedToken (n : ℕ) : (paddedToken n).Encodable := by
  intro c hc
  rcases List.mem_append.mp hc with hc | hc
  · rw [List.eq_of_mem_replicate hc]
    rfl
  · rw [List.mem_singleton.mp hc]
    rfl

theorem validate_paddedMapping (runtime : Runtime) (n : ℕ) :
    validateDistributionMapping runtime (paddedMapping n) = .ok [(⟨[0x61]⟩, 1)] := by
  have htoken : acceptedToken (paddedToken n) = .ok ⟨[0x61]⟩ := by
    unfold acceptedToken
    rw [strip_paddedToken]
    rfl
  have hnumber : acceptedNumber runtime (.int 1) = .ok (.int 1) := by
    have hoverflow : overflows 1 = false := by decide +kernel
    unfold acceptedNumber
    dsimp only
    rw [hoverflow]
    rfl
  have hread : readTokens (acceptedNumber runtime) [] [(paddedToken n, .int 1)] =
      .ok [(⟨[0x61]⟩, .int 1)] := by
    rw [readTokens_cons, htoken]
    dsimp only
    rw [hnumber]
    rfl
  unfold validateDistributionMapping paddedMapping
  dsimp only
  rw [hread]
  rfl

theorem writable_paddedMapping (floatRepr : Points → String) (n : ℕ) :
    Writable floatRepr (paddedMapping n) :=
  ⟨List.nodup_singleton _, unpaired_of_encodable (encodable_paddedToken n),
    writable_int (by decide) (by decide), trivial⟩

theorem length_textAt_dict {level : ℕ} {layout : Layout} {key : PyString} {v : PyJson}
    {members : List (PyString × PyJson)} :
    (membersAt layout (level + 1) ((key, v) :: members)).length <
      (textAt layout level (.dict ((key, v) :: members))).length := by
  rw [textAt, List.length_cons, List.length_append, List.length_append]
  · omega
  · exact List.cons_ne_nil _ _

/-- The mapping is written as it was posted. -/
theorem length_writeBaseline {n : ℕ} {counts : Counts} {bytes : Bytes}
    (h : writeBaseline counts (some (paddedMapping n)) none = some bytes) : n < bytes.length := by
  unfold writeBaseline at h
  obtain ⟨text, htext, rfl⟩ := Option.map_eq_some_iff.mp h
  unfold dumps at htext
  split_ifs at htext
  rw [← Option.some.inj htext]
  show n < (List.map _ _).length
  rw [List.length_map]
  have hkey : n < (textAt (indented 2) 1 (paddedMapping n)).length := by
    have hlength := (@length_membersAt_cons (indented 2) (1 + 1) (paddedToken n) (.int 1) []).1
    have htoken : (paddedToken n).points.length = n + 1 := by
      unfold paddedToken
      rw [List.length_append, List.length_replicate, List.length_singleton]
    have hdict := @length_textAt_dict 1 (indented 2) (paddedToken n) (.int 1) []
    unfold paddedMapping
    omega
  have hpayload : payload counts (some (paddedMapping n)) none =
      .dict [(PyString.ofString "counts", .dict (counts.map fun e => (e.1, .int e.2))),
        (PyString.ofString "total", .int counts.total),
        (PyString.ofString "vocab", .int counts.length),
        (PyString.ofString "distribution", paddedMapping n)] := rfl
  rw [hpayload]
  refine Nat.lt_trans ?_ length_textAt_dict
  have h4 := (@length_membersAt_cons (indented 2) 1 (PyString.ofString "distribution")
    (paddedMapping n) []).2.1
  refine Nat.lt_trans ?_ ((length_membersAt_cons _ _ _ _).2.2 (List.cons_ne_nil _ _))
  refine Nat.lt_trans ?_ ((length_membersAt_cons _ _ _ _).2.2 (List.cons_ne_nil _ _))
  refine Nat.lt_trans ?_ ((length_membersAt_cons _ _ _ _).2.2 (List.cons_ne_nil _ _))
  exact Nat.lt_trans hkey h4

theorem written_paddedRequest {n : ℕ} : ∃ bytes,
    written sampleRuntime (some sampleToken) ⟨none, [], none⟩ (paddedRequest n) = some bytes ∧
      n < bytes.length := by
  have hwritable : Writable sampleRuntime.floatRepr
      (.dict [(PyString.ofString "distribution", paddedMapping n)]) :=
    ⟨List.nodup_singleton _, unpaired_of_encodable (by decide), writable_paddedMapping _ n, trivial⟩
  have hbody := readBody_textAt hwritable
  have hproper := proper_of_validated (validate_paddedMapping sampleRuntime n)
  have hpayload : Writable sampleRuntime.floatRepr
      (payload [(⟨[0x61]⟩, 1)] (some (paddedMapping n)) none) := by
    apply writable_payload hproper
    · intro d hd
      cases hd
      exact writable_paddedMapping _ n
    · intro m hm
      cases hm
  have hwrite : writeBaseline [(⟨[0x61]⟩, 1)] (some (paddedMapping n)) none =
      some (Bytes.ofAscii (textAt (indented 2) 0
        (payload [(⟨[0x61]⟩, 1)] (some (paddedMapping n)) none))) := by
    unfold writeBaseline
    rw [dumps_of_writable hpayload]
    rfl
  refine ⟨_, ?_, length_writeBaseline hwrite⟩
  have hadmin : requireAdmin (some sampleToken)
      (PyString.ofString "Bearer 0123456789abcdef") = none := by decide
  have hnext : nextFile sampleRuntime none (paddedRequest n).body = .ok (some (Bytes.ofAscii
      (textAt (indented 2) 0 (payload [(⟨[0x61]⟩, 1)] (some (paddedMapping n)) none)))) := by
    unfold nextFile paddedRequest
    rw [hbody]
    unfold replaceBaseline
    dsimp only
    have hposted : postedMapping [(PyString.ofString "distribution", paddedMapping n)] =
        (some (paddedMapping n), true) := rfl
    have hnamed : validateBaselineModel sampleRuntime ((PyJson.get
        [(PyString.ofString "distribution", paddedMapping n)] "model").getD .none) = .ok none := rfl
    rw [hnamed, hposted]
    dsimp only
    rw [validate_paddedMapping]
    dsimp only
    rw [show attributedModel sampleRuntime none none [(⟨[0x61]⟩, 1)] = .ok none from rfl]
    dsimp only
    rw [if_pos rfl, hwrite]
  unfold written
  rw [show (paddedRequest n).authorization = PyString.ofString "Bearer 0123456789abcdef" from rfl,
    hadmin]
  dsimp only
  rw [hnext]

/-- The request is rejected, and the service cannot be started again. -/
theorem large_mapping_replaces_file :
    ¬ KeepsBaseline sampleRuntime (some sampleToken) ⟨none, [], none⟩ [paddedRequest 16777216] := by
  rintro ⟨hs, hatomic, -⟩
  obtain ⟨bytes, hbytes, hlong⟩ := @written_paddedRequest 16777216
  have hfits := fits_of_atomic hs hatomic bytes hbytes
  unfold maxFileBytes at hfits
  omega

end Baseline

end BlackMonolith.TraceAudit
