import Mathlib
import BlackMonolith.Library.PyJsonRoundTrip

/-!
# The printed plan

The plan shows the agent's MCP configuration with its secrets replaced by marks, which
tell no more than a length. The replacing is done in a copy, made through a JSON text;
the configuration itself is only read. `lower` is `str.lower`.
-/
namespace BlackMonolith.Launcher
namespace Plan

open Library PyJsonText

abbrev Members := List (PyString × PyJson)

/-! ## What the launcher does -/

def planVisibleEnv : List PyString :=
  ["MONOLITH_DASHBOARD_URL", "MONOLITH_EVENT_OUTBOX_PATH", "MCP_SHIELD_BASELINE",
    "MCP_SHIELD_MODE", "MONOLITH_TENANT_ID", "MONOLITH_AGENT_ID", "MONOLITH_SESSION_ID",
    "MONOLITH_VECTOR_ANCHOR_URL"].map PyString.ofString

def secretArgFlags : List Points :=
  ["key", "token", "secret", "password", "passwd", "credential", "auth"].map chars

def secretArgSegments : List Points := ["pat", "bearer", "pw", "pwd", "pass"].map chars

def dash : CodePoint := 0x2D
def equals : CodePoint := 0x3D
def underscore : CodePoint := 0x5F

/-- `<redacted: n characters>`. -/
def redactedText (n : ℕ) : Points := chars "<redacted: " ++ decimal n ++ chars " characters>"

def redactedMark : PyJson := .str (PyString.ofString "<redacted>")
def emptyMark : PyJson := .str (PyString.ofString "<empty>")

section
variable (lower : Points → Points)

def isSecretArgFlag (flag : Points) : Bool :=
  let lowered := (lower flag).dropWhile (· = dash)
  secretArgFlags.any (fun marker => decide (marker <:+: lowered)) ||
    ((lowered.map fun c => if c = underscore then dash else c).splitOn dash).any fun segment =>
      secretArgSegments.contains segment

def redactValue : PyJson → PyJson
  | .str s => if s.points = [] then emptyMark else .str ⟨redactedText s.points.length⟩
  | _ => redactedMark

def redactEnv (env : Members) : Members :=
  env.map fun (name, value) =>
    if name ∈ planVisibleEnv then (name, value) else (name, redactValue value)

/-- The parts of an argument before and after its first equals sign. -/
def partition (arg : Points) : Points × Points :=
  (arg.takeWhile (· ≠ equals), (arg.dropWhile (· ≠ equals)).tail)

/-- The arguments that are left; `redact` tells that the next text is a flag's value. -/
def redactArgs : Bool → List PyJson → List PyJson
  | _, [] => []
  | redact, .str arg :: args =>
      if redact then redactedMark :: redactArgs false args
      else if arg.points.head? = some dash ∧ equals ∈ arg.points then
        (if isSecretArgFlag lower (partition arg.points).1 ∧ (partition arg.points).2 ≠ [] then
          .str ⟨(partition arg.points).1 ++
            equals :: redactedText (partition arg.points).2.length⟩
        else .str arg) :: redactArgs false args
      else if arg.points.head? = some dash ∧ isSecretArgFlag lower arg.points then
        .str arg :: redactArgs true args
      else .str arg :: redactArgs false args
  | redact, arg :: args => arg :: redactArgs redact args

def redactField : PyString × PyJson → PyString × PyJson
  | (key, .dict env) =>
      if key = PyString.ofString "env" then (key, .dict (redactEnv env)) else (key, .dict env)
  | (key, .list args) =>
      if key = PyString.ofString "args" then (key, .list (redactArgs lower false args))
      else (key, .list args)
  | field => field

def redactServer : PyString × PyJson → PyString × PyJson
  | (name, .dict spec) => (name, .dict (spec.map (redactField lower)))
  | server => server

/-- `or {}`. -/
def falsy : PyJson → Bool
  | .none => true
  | .bool b => !b
  | .int n => n = 0
  | .float r => r = "0.0" || r = "-0.0"
  | .str s => s.points.isEmpty
  | .list items => items.isEmpty
  | .dict members => members.isEmpty

def serversKey : PyString := PyString.ofString "mcpServers"

/-- The servers' entries, with `none` for an `AttributeError`. -/
def redactServers (config : Members) : Option Members :=
  match InsertionMap.lookupIn serversKey config with
  | none => some config
  | some (.dict _) => some (config.map fun (key, value) =>
      match value with
      | .dict servers =>
          if key = serversKey then (key, .dict (servers.map (redactServer lower)))
          else (key, value)
      | _ => (key, value))
  | some value => if falsy value then some config else none

/-- The copy with its secrets redacted, with `none` for an exception. No white space of
the text is kept. -/
def redactConfigSecrets (floatRepr : Points → String) (config : Members) : Option Members :=
  match (dumps compact (.dict config)).bind (loads floatRepr) with
  | some (.dict redacted) => redactServers lower redacted
  | _ => none

/-! ## What a plan may show -/

/-- A mark in the place of a value: of a text it may tell the length. -/
def Hidden (value mark : PyJson) : Prop :=
  mark = redactedMark ∨
    match value with
    | .str s => mark = .str ⟨redactedText s.points.length⟩ ∨ s.points = [] ∧ mark = emptyMark
    | _ => False

/-- A flag whose value is the argument that follows. -/
def isFlag : PyJson → Bool
  | .str arg => decide (arg.points.head? = some dash) && decide (equals ∉ arg.points) &&
      isSecretArgFlag lower arg.points
  | _ => false

/-- An argument that is no value: all of it is shown but a value attached to a secret flag. -/
def Shown (arg shown : PyJson) : Prop :=
  match arg with
  | .str s =>
      if s.points.head? = some dash ∧ equals ∈ s.points ∧
          isSecretArgFlag lower (partition s.points).1 ∧ (partition s.points).2 ≠ [] then
        ∃ mark : PyString, Hidden (.str ⟨(partition s.points).2⟩) (.str mark) ∧
          shown = .str ⟨(partition s.points).1 ++ equals :: mark.points⟩
      else shown = arg
  | _ => shown = arg

/-- The values of secret flags are hidden, the other arguments are shown. `follows` tells
that a secret flag stands before the first. -/
def ArgsHidden : Bool → List PyJson → List PyJson → Prop
  | _, [], shown => shown = []
  | _, _ :: _, [] => False
  | follows, arg :: args, out :: shown =>
      (if follows then Hidden arg out else Shown lower arg out) ∧
        ArgsHidden (isFlag lower arg) args shown

def EnvHidden (env shown : Members) : Prop :=
  List.Forall₂ (fun (name, value) (name', value') => name' = name ∧
    if name ∈ planVisibleEnv then value' = value else Hidden value value') env shown

def HeadersHidden (headers shown : Members) : Prop :=
  List.Forall₂ (fun (name, value) (name', value') => name' = name ∧ Hidden value value')
    headers shown

/-- One member of a server's entry. -/
def FieldHidden (field shown : PyString × PyJson) : Prop :=
  shown.1 = field.1 ∧
    match field.2 with
    | .dict members =>
        if field.1 = PyString.ofString "env" then
          ∃ out, shown.2 = .dict out ∧ EnvHidden members out
        else if field.1 = PyString.ofString "headers" then
          ∃ out, shown.2 = .dict out ∧ HeadersHidden members out
        else shown.2 = field.2
    | .list args =>
        if field.1 = PyString.ofString "args" then
          ∃ out, shown.2 = .list out ∧ ArgsHidden lower false args out
        else shown.2 = field.2
    | _ => shown.2 = field.2

def ServerHidden (server shown : PyString × PyJson) : Prop :=
  shown.1 = server.1 ∧
    match server.2 with
    | .dict spec => ∃ out, shown.2 = .dict out ∧ List.Forall₂ (FieldHidden lower) spec out
    | _ => shown.2 = server.2

/-- The secrets of a configuration are hidden, and every other part is as it was. -/
def ConfigHidden (config shown : Members) : Prop :=
  List.Forall₂ (fun (key, value) (key', value') => key' = key ∧
    match value with
    | .dict servers =>
        if key = serversKey then
          ∃ out, value' = .dict out ∧ List.Forall₂ (ServerHidden lower) servers out
        else value' = value
    | _ => value' = value) config shown

/-! ## When it does -/

/-- A text is the value of every secret flag that has one, and where the value is a secret
flag itself, what comes after it is nothing or a mark already. -/
def ArgsCovered (args : List PyJson) : Prop :=
  ∀ before flag value after, args = before ++ flag :: value :: after → isFlag lower flag = true →
    (∃ s, value = .str s) ∧
      (isFlag lower value = true → ∀ next ∈ after.head?, Hidden next next)

def FieldCovered (field : PyString × PyJson) : Prop :=
  match field.2 with
  | .dict headers => field.1 = PyString.ofString "headers" → ∀ header ∈ headers,
      Hidden header.2 header.2
  | .list args => field.1 = PyString.ofString "args" → ArgsCovered lower args
  | _ => True

def ServersCovered (value : PyJson) : Prop :=
  match value with
  | .dict servers => ∀ server ∈ servers, ∀ spec, server.2 = .dict spec →
      ∀ field ∈ spec, FieldCovered lower field
  | other => falsy other = true

/-- The servers are an object, if there are any, no header has a value, and the values of
secret flags are plain texts. -/
def ConfigCovered (config : Members) : Prop :=
  ∀ value, (serversKey, value) ∈ config → ServersCovered lower value

/-! ## Arguments -/

section
variable {lower} {arg : PyJson} {args : List PyJson}

/-- A mark begins with an angle bracket. -/
theorem not_dash_of_hidden {value : PyJson} {s : PyString} (h : Hidden value (.str s)) :
    s.points.head? ≠ some dash := by
  have hmarks : ∀ t : Points, t.head? = some 0x3C → t.head? ≠ some dash := by
    intro t ht
    rw [ht]
    decide
  rcases h with h | h
  · rw [PyJson.str.inj h]
    decide
  · cases value with
    | str v =>
        rcases h with h | h
        · rw [PyJson.str.inj h]
          exact hmarks _ rfl
        · rw [PyJson.str.inj h.2]
          decide
    | none | bool b | int n | float r | list items | dict members => exact h.elim

theorem exists_str_of_hidden {value mark : PyJson} (h : Hidden value mark) :
    ∃ s, mark = .str s := by
  rcases h with h | h
  · exact ⟨_, h⟩
  · cases value with
    | str v => exact h.elim (fun h => ⟨_, h⟩) fun h => ⟨_, h.2⟩
    | none | bool b | int n | float r | list items | dict members => exact h.elim

theorem dash_of_isFlag {s : PyString} (h : isFlag lower (.str s) = true) :
    s.points.head? = some dash ∧ equals ∉ s.points := by
  simp only [isFlag, Bool.and_eq_true, decide_eq_true_eq] at h
  exact h.1

theorem isFlag_of_hidden {value : PyJson} (h : Hidden value arg) : isFlag lower arg = false := by
  obtain ⟨s, rfl⟩ := exists_str_of_hidden h
  apply Bool.eq_false_iff.mpr
  intro hflag
  exact not_dash_of_hidden h (dash_of_isFlag hflag).1

/-- What the first argument after a flag has to be. -/
def ValueCovered (lower : Points → Points) (args : List PyJson) : Prop :=
  ∀ value after, args = value :: after →
    (∃ s, value = .str s) ∧
      (isFlag lower value = true → ∀ next ∈ after.head?, Hidden next next)

theorem argsCovered_nil : ArgsCovered lower [] := by
  intro before flag value after heq
  cases before <;> cases heq

theorem argsCovered_cons : ArgsCovered lower (arg :: args) ↔
    (isFlag lower arg = true → ValueCovered lower args) ∧ ArgsCovered lower args := by
  constructor
  · intro h
    refine ⟨fun hflag value after heq => h [] arg value after (by rw [heq]; rfl) hflag, ?_⟩
    intro before flag value after heq hflag
    exact h (arg :: before) flag value after (by rw [heq]; rfl) hflag
  · rintro ⟨hfirst, hrest⟩ before flag value after heq hflag
    cases before with
    | nil =>
        obtain ⟨rfl, rfl⟩ := List.cons.inj heq
        exact hfirst hflag value after rfl
    | cons first before =>
        obtain ⟨rfl, hargs⟩ := List.cons.inj heq
        exact hrest before flag value after hargs hflag

/-- Every argument but a text is passed over, and the flag before it still waits. -/
theorem redactArgs_other (h : ∀ s, arg ≠ .str s) (redact : Bool) :
    redactArgs lower redact (arg :: args) = arg :: redactArgs lower redact args := by
  cases arg with
  | str s => exact absurd rfl (h s)
  | none | bool b | int n | float r | list items | dict members => rfl

theorem shown_other (h : ∀ s, arg ≠ .str s) : Shown lower arg arg := by
  cases arg with
  | str s => exact absurd rfl (h s)
  | none | bool b | int n | float r | list items | dict members => rfl

theorem isFlag_other (h : ∀ s, arg ≠ .str s) : isFlag lower arg = false := by
  cases arg with
  | str s => exact absurd rfl (h s)
  | none | bool b | int n | float r | list items | dict members => rfl

theorem redactArgs_value (s : PyString) :
    redactArgs lower true (.str s :: args) = redactedMark :: redactArgs lower false args := rfl

theorem redactArgs_unmarked (s : PyString) : redactArgs lower false (.str s :: args) =
    if s.points.head? = some dash ∧ equals ∈ s.points then
      (if isSecretArgFlag lower (partition s.points).1 ∧ (partition s.points).2 ≠ [] then
        .str ⟨(partition s.points).1 ++ equals :: redactedText (partition s.points).2.length⟩
      else .str s) :: redactArgs lower false args
    else if s.points.head? = some dash ∧ isSecretArgFlag lower s.points then
      .str s :: redactArgs lower true args
    else .str s :: redactArgs lower false args := rfl

theorem head?_partition {t : Points} (h : t.head? = some dash) (rest : Points) :
    ((partition t).1 ++ rest).head? = some dash := by
  cases t with
  | nil => cases h
  | cons c t =>
      cases h
      rfl

theorem shown_text_of_not {s : PyString} (h : ¬ (s.points.head? = some dash ∧ equals ∈ s.points ∧
    isSecretArgFlag lower (partition s.points).1 ∧ (partition s.points).2 ≠ [])) :
    Shown lower (.str s) (.str s) := by
  unfold Shown
  dsimp only
  rw [if_neg h]

/-- A text that is no value: what is printed for it, and whether it waits for one. -/
theorem redactArgs_text (s : PyString) (args : List PyJson) : ∃ out : PyString,
    redactArgs lower false (.str s :: args) =
        .str out :: redactArgs lower (isFlag lower (.str s)) args ∧
      Shown lower (.str s) (.str out) ∧
      (s.points.head? = some dash → out.points.head? = some dash) ∧
      (s.points.head? ≠ some dash → out = s) := by
  rw [redactArgs_unmarked]
  by_cases hattached : s.points.head? = some dash ∧ equals ∈ s.points
  · have hflag : isFlag lower (.str s) = false := by
      apply Bool.eq_false_iff.mpr
      intro hflag
      exact (dash_of_isFlag hflag).2 hattached.2
    rw [if_pos hattached, hflag]
    by_cases hsecret : isSecretArgFlag lower (partition s.points).1 ∧ (partition s.points).2 ≠ []
    · rw [if_pos hsecret]
      refine ⟨_, rfl, ?_, fun hdash => head?_partition hdash _,
        fun hdash => absurd hattached.1 hdash⟩
      unfold Shown
      dsimp only
      rw [if_pos ⟨hattached.1, hattached.2, hsecret⟩]
      exact ⟨⟨redactedText (partition s.points).2.length⟩, Or.inr (Or.inl rfl), rfl⟩
    · rw [if_neg hsecret]
      exact ⟨s, rfl, shown_text_of_not fun h => hsecret h.2.2, id, fun _ => rfl⟩
  · have hshown : Shown lower (.str s) (.str s) :=
      shown_text_of_not fun h => hattached ⟨h.1, h.2.1⟩
    rw [if_neg hattached]
    by_cases hwaits : s.points.head? = some dash ∧ isSecretArgFlag lower s.points
    · have hflag : isFlag lower (.str s) = true := by
        simp only [isFlag, Bool.and_eq_true, decide_eq_true_eq]
        exact ⟨⟨hwaits.1, fun hequals => hattached ⟨hwaits.1, hequals⟩⟩, hwaits.2⟩
      rw [if_pos hwaits, hflag]
      exact ⟨s, rfl, hshown, id, fun _ => rfl⟩
    · have hflag : isFlag lower (.str s) = false := by
        apply Bool.eq_false_iff.mpr
        intro hflag
        simp only [isFlag, Bool.and_eq_true, decide_eq_true_eq] at hflag
        exact hwaits ⟨hflag.1.1, hflag.2⟩
      rw [if_neg hwaits, hflag]
      exact ⟨s, rfl, hshown, id, fun _ => rfl⟩

theorem argsHidden_cons {follows : Bool} {out : PyJson} {shown : List PyJson} :
    ArgsHidden lower follows (arg :: args) (out :: shown) ↔
      (if follows then Hidden arg out else Shown lower arg out) ∧
        ArgsHidden lower (isFlag lower arg) args shown := Iff.rfl

theorem not_hidden_self (h : ∀ s, arg ≠ .str s) : ¬ Hidden arg arg := by
  intro hself
  obtain ⟨s, hs⟩ := exists_str_of_hidden hself
  exact h s hs

theorem valueCovered_cons : ValueCovered lower (arg :: args) ↔ (∃ s, arg = .str s) ∧
    (isFlag lower arg = true → ∀ next ∈ args.head?, Hidden next next) := by
  constructor
  · intro h
    exact h arg args rfl
  · rintro h value after heq
    obtain ⟨rfl, rfl⟩ := List.cons.inj heq
    exact h

/-- A mark is no flag, and so covers what follows a flag. -/
theorem valueCovered_of_hidden (h : ∀ next ∈ args.head?, Hidden next next) :
    ValueCovered lower args := by
  intro value after heq
  rw [heq] at h
  have hvalue := h value rfl
  refine ⟨exists_str_of_hidden hvalue, fun hflag => ?_⟩
  rw [isFlag_of_hidden hvalue] at hflag
  cases hflag

/-- The scan goes as far as the flags and their values are where it takes them to be: at an
argument, at the value of a flag, and at the value of a flag that was taken for a value. -/
theorem argsHidden_iff (args : List PyJson) :
    (ArgsHidden lower false args (redactArgs lower false args) ↔ ArgsCovered lower args) ∧
    (ArgsHidden lower true args (redactArgs lower true args) ↔
      ValueCovered lower args ∧ ArgsCovered lower args) ∧
    (ArgsHidden lower true args (redactArgs lower false args) ↔
      (∀ next ∈ args.head?, Hidden next next) ∧ ArgsCovered lower args) := by
  induction args with
  | nil =>
      have hnone : ValueCovered lower [] := fun _ _ heq => nomatch heq
      exact ⟨⟨fun _ => argsCovered_nil, fun _ => rfl⟩,
        ⟨fun _ => ⟨hnone, argsCovered_nil⟩, fun _ => rfl⟩,
        ⟨fun _ => ⟨fun _ h => (nomatch h), argsCovered_nil⟩, fun _ => rfl⟩⟩
  | cons arg args ih =>
      obtain ⟨ihPlain, ihValue, ihTaken⟩ := ih
      by_cases htext : ∃ s, arg = .str s
      · obtain ⟨s, rfl⟩ := htext
        obtain ⟨out, hout, hshown, hdash, hplain⟩ := @redactArgs_text lower s args
        have hrest : ∀ flag : Bool, ArgsHidden lower flag args (redactArgs lower flag args) ↔
            (flag = true → ValueCovered lower args) ∧ ArgsCovered lower args := by
          intro flag
          cases flag with
          | true => rw [ihValue, forall_prop_of_true rfl]
          | false => rw [ihPlain, forall_prop_of_false Bool.false_ne_true, true_and]
        have hself : Hidden (.str s) (.str out) ↔ Hidden (.str s) (.str s) := by
          by_cases hs : s.points.head? = some dash
          · exact ⟨fun h => absurd (hdash hs) (not_dash_of_hidden h),
              fun h => absurd hs (not_dash_of_hidden h)⟩
          · rw [hplain hs]
        have hhead : (∀ next ∈ (PyJson.str s :: args).head?, Hidden next next) ↔
            Hidden (.str s) (.str s) := by
          simp only [List.head?_cons, Option.mem_some_iff, forall_eq']
        refine ⟨?_, ?_, ?_⟩
        · rw [hout, argsHidden_cons, hrest, argsCovered_cons, if_neg Bool.false_ne_true,
            and_iff_right hshown]
        · have hmark : Hidden (.str s) redactedMark := Or.inl rfl
          have hstr : ∃ t, PyJson.str s = .str t := ⟨s, rfl⟩
          rw [redactArgs_value, argsHidden_cons, argsCovered_cons, valueCovered_cons, if_pos rfl,
            and_iff_right hmark, and_iff_right hstr]
          cases isFlag lower (.str s) with
          | true =>
              rw [ihTaken, forall_prop_of_true rfl, forall_prop_of_true rfl]
              exact ⟨fun h => ⟨h.1, valueCovered_of_hidden h.1, h.2⟩, fun h => ⟨h.1, h.2.2⟩⟩
          | false =>
              rw [ihPlain, forall_prop_of_false Bool.false_ne_true,
                forall_prop_of_false Bool.false_ne_true, true_and, true_and]
        · rw [hout, argsHidden_cons, hrest, argsCovered_cons, if_pos rfl, hself, hhead]
      · rw [not_exists] at htext
        have hhead : ¬ ∀ next ∈ (arg :: args).head?, Hidden next next := fun h =>
          not_hidden_self htext (h arg rfl)
        refine ⟨?_, ?_, ?_⟩
        · rw [redactArgs_other htext, argsHidden_cons, isFlag_other htext, argsCovered_cons,
            isFlag_other htext, if_neg Bool.false_ne_true, and_iff_right (shown_other htext), ihPlain,
            forall_prop_of_false Bool.false_ne_true, true_and]
        · rw [redactArgs_other htext, argsHidden_cons, if_pos rfl, valueCovered_cons]
          exact ⟨fun h => absurd h.1 (not_hidden_self htext),
            fun h => absurd h.1.1 (not_exists.mpr htext)⟩
        · rw [redactArgs_other htext, argsHidden_cons, if_pos rfl]
          exact ⟨fun h => absurd h.1 (not_hidden_self htext), fun h => absurd h.1 hhead⟩

end

/-! ## Configurations -/

section
variable {lower} {floatRepr : Points → String}

theorem hidden_redactValue (value : PyJson) : Hidden value (redactValue value) := by
  cases value with
  | str s =>
      unfold redactValue
      dsimp only
      split_ifs with hempty
      · exact .inr (.inr ⟨hempty, rfl⟩)
      · exact .inr (.inl rfl)
  | none | bool b | int n | float r | list items | dict members => exact .inl rfl

theorem forall₂_map_iff {α : Type} {R : α → α → Prop} {f : α → α} {xs : List α} :
    List.Forall₂ R xs (xs.map f) ↔ ∀ x ∈ xs, R x (f x) := by
  rw [List.forall₂_map_right_iff, List.forall₂_same]

theorem envHidden_redactEnv (env : Members) : EnvHidden env (redactEnv env) := by
  unfold EnvHidden redactEnv
  rw [forall₂_map_iff]
  rintro ⟨name, value⟩ _
  dsimp only
  split_ifs with hvisible
  · exact ⟨rfl, rfl⟩
  · exact ⟨rfl, hidden_redactValue value⟩

theorem headersHidden_self_iff {headers : Members} :
    HeadersHidden headers headers ↔ ∀ header ∈ headers, Hidden header.2 header.2 := by
  unfold HeadersHidden
  rw [List.forall₂_same]
  exact forall₂_congr fun header _ => and_iff_right rfl

/-- One member of an entry: the environment is always hidden, headers never are. -/
theorem fieldHidden_iff (field : PyString × PyJson) :
    FieldHidden lower field (redactField lower field) ↔ FieldCovered lower field := by
  obtain ⟨key, value⟩ := field
  cases value with
  | dict members =>
      unfold FieldHidden FieldCovered redactField
      dsimp only
      by_cases henv : key = PyString.ofString "env"
      · have hne : key ≠ PyString.ofString "headers" := by
          rw [henv]
          decide
        rw [if_pos henv, if_pos henv, forall_prop_of_false hne]
        exact ⟨fun _ => trivial, fun _ => ⟨rfl, _, rfl, envHidden_redactEnv members⟩⟩
      · rw [if_neg henv, if_neg henv]
        by_cases hheaders : key = PyString.ofString "headers"
        · rw [if_pos hheaders, forall_prop_of_true hheaders, ← headersHidden_self_iff]
          constructor
          · rintro ⟨_, out, hout, hhidden⟩
            rw [← PyJson.dict.inj hout] at hhidden
            exact hhidden
          · intro hhidden
            exact ⟨rfl, members, rfl, hhidden⟩
        · rw [if_neg hheaders, forall_prop_of_false hheaders]
          exact ⟨fun _ => trivial, fun _ => ⟨rfl, rfl⟩⟩
  | list args =>
      unfold FieldHidden FieldCovered redactField
      dsimp only
      by_cases hargs : key = PyString.ofString "args"
      · rw [if_pos hargs, if_pos hargs, forall_prop_of_true hargs, ← (argsHidden_iff args).1]
        constructor
        · rintro ⟨_, out, hout, hhidden⟩
          rw [← PyJson.list.inj hout] at hhidden
          exact hhidden
        · intro hhidden
          exact ⟨rfl, _, rfl, hhidden⟩
      · rw [if_neg hargs, if_neg hargs, forall_prop_of_false hargs]
        exact ⟨fun _ => trivial, fun _ => ⟨rfl, rfl⟩⟩
  | none | bool b | int n | float r | str s => exact ⟨fun _ => trivial, fun _ => ⟨rfl, rfl⟩⟩

theorem serverHidden_iff (server : PyString × PyJson) :
    ServerHidden lower server (redactServer lower server) ↔
      ∀ spec, server.2 = .dict spec → ∀ field ∈ spec, FieldCovered lower field := by
  obtain ⟨name, value⟩ := server
  cases value with
  | dict spec =>
      have hspec : List.Forall₂ (FieldHidden lower) spec (spec.map (redactField lower)) ↔
          ∀ field ∈ spec, FieldCovered lower field := by
        rw [forall₂_map_iff]
        exact forall₂_congr fun field _ => fieldHidden_iff field
      constructor
      · rintro ⟨_, out, hout, hhidden⟩ spec' hspec'
        rw [← PyJson.dict.inj hspec']
        rw [← PyJson.dict.inj hout] at hhidden
        exact hspec.mp hhidden
      · intro h
        exact ⟨rfl, _, rfl, hspec.mpr (h spec rfl)⟩
  | none | bool b | int n | float r | str s | list items =>
      exact ⟨fun _ _ heq => (nomatch heq), fun _ => ⟨rfl, rfl⟩⟩

theorem configCovered_of_lookup {config : Members} (hn : (config.map Prod.fst).Nodup)
    {value : PyJson} (h : InsertionMap.lookupIn serversKey config = some value) :
    ConfigCovered lower config ↔ ServersCovered lower value := by
  have hmem := (InsertionMap.lookupIn_eq_some_iff hn).mp h
  constructor
  · intro hcovered
    exact hcovered value hmem
  · intro hcovered value' hvalue'
    have hsame := (InsertionMap.lookupIn_eq_some_iff hn).mpr hvalue'
    rw [h] at hsame
    rw [← Option.some.inj hsame]
    exact hcovered

/-- A configuration hides its secrets as it is, if it has no servers. -/
theorem configHidden_self {config : Members}
    (h : ∀ servers, (serversKey, PyJson.dict servers) ∉ config) :
    ConfigHidden lower config config := by
  unfold ConfigHidden
  rw [List.forall₂_same]
  rintro ⟨key, value⟩ hmember
  refine ⟨rfl, ?_⟩
  cases value with
  | dict servers =>
      dsimp only
      rw [if_neg]
      rintro rfl
      exact h servers hmember
  | none | bool b | int n | float r | str s | list items => rfl

theorem copy_of_writable {config : Members} (hconfig : Writable floatRepr (.dict config)) :
    redactConfigSecrets lower floatRepr config = redactServers lower config := by
  unfold redactConfigSecrets
  rw [dumps_of_writable hconfig, Option.bind_some, loads_textAt hconfig]

/-- The copy hides every secret, and shows the rest, just if the configuration keeps its
secrets where the scan looks for them. -/
theorem plan_hides_secrets_iff {config : Members} (hconfig : Writable floatRepr (.dict config)) :
    (∃ shown, redactConfigSecrets lower floatRepr config = some shown ∧
      ConfigHidden lower config shown) ↔ ConfigCovered lower config := by
  have hn : (config.map Prod.fst).Nodup := hconfig.1
  rw [copy_of_writable hconfig]
  unfold redactServers
  cases hlookup : InsertionMap.lookupIn serversKey config with
  | none =>
      have hnone : ∀ value, (serversKey, value) ∉ config := by
        intro value hmem
        rw [(InsertionMap.lookupIn_eq_some_iff hn).mpr hmem] at hlookup
        cases hlookup
      exact ⟨fun _ value hmem => absurd hmem (hnone value),
        fun _ => ⟨config, rfl, configHidden_self fun servers => hnone _⟩⟩
  | some value =>
      rw [configCovered_of_lookup hn hlookup]
      have hmem := (InsertionMap.lookupIn_eq_some_iff hn).mp hlookup
      cases value with
      | dict servers =>
          have hservers : List.Forall₂ (ServerHidden lower) servers
              (servers.map (redactServer lower)) ↔ ServersCovered lower (.dict servers) := by
            rw [forall₂_map_iff]
            exact forall₂_congr fun server _ => serverHidden_iff server
          constructor
          · rintro ⟨shown, hshown, hhidden⟩
            rw [← Option.some.inj hshown] at hhidden
            obtain ⟨_, hhidden⟩ := forall₂_map_iff.mp hhidden _ hmem
            dsimp only at hhidden
            rw [if_pos rfl] at hhidden
            obtain ⟨out, hout, hhidden⟩ := hhidden
            rw [← PyJson.dict.inj hout] at hhidden
            exact hservers.mp hhidden
          · intro hcovered
            refine ⟨_, rfl, forall₂_map_iff.mpr ?_⟩
            rintro ⟨key, value⟩ hmember
            cases value with
            | dict servers' =>
                dsimp only
                by_cases hkey : key = serversKey
                · have hsame := (InsertionMap.lookupIn_eq_some_iff hn).mpr (hkey ▸ hmember)
                  rw [hlookup] at hsame
                  rw [if_pos hkey, if_pos hkey, ← PyJson.dict.inj (Option.some.inj hsame)]
                  exact ⟨rfl, _, rfl, hservers.mpr hcovered⟩
                · rw [if_neg hkey, if_neg hkey]
                  exact ⟨rfl, rfl⟩
            | none | bool b | int n | float r | str s | list items => exact ⟨rfl, rfl⟩
      | none | bool b | int n | float r | str s | list items =>
          have hself : ConfigHidden lower config config := by
            apply configHidden_self
            intro servers hservers
            rw [(InsertionMap.lookupIn_eq_some_iff hn).mpr hservers] at hlookup
            cases hlookup
          dsimp only
          split_ifs with hfalsy
          · exact ⟨fun _ => hfalsy, fun _ => ⟨config, rfl, hself⟩⟩
          · exact ⟨fun ⟨_, hnone, _⟩ => (nomatch hnone), fun h => absurd h hfalsy⟩

end

end

/-! ## Plans that print a secret -/

def asciiLower (t : Points) : Points :=
  t.map fun c => if 0x41 ≤ c.val ∧ c.val ≤ 0x5A then Fin.ofNat 0x110000 (c.val + 0x20) else c

def plain (s : String) : PyJson := .str (PyString.ofString s)

def configOf (entry : List (String × PyJson)) : Members :=
  [(serversKey, .dict [(PyString.ofString "files",
    .dict (entry.map fun field => (PyString.ofString field.1, field.2)))])]

theorem unpaired_ofString (s : String) : Unpaired (PyString.ofString s).points := by
  apply unpaired_of_encodable
  intro c hc
  obtain ⟨d, -, rfl⟩ := List.mem_map.mp hc
  have hvalid : d.toNat < 0xD800 ∨ 0xDFFF < d.toNat ∧ d.toNat < 0x110000 := d.valid
  unfold PyString.isSurrogate
  dsimp only
  rw [Bool.and_eq_false_iff, decide_eq_false_iff_not, decide_eq_false_iff_not]
  omega

theorem writable_configOf {entry : List (String × PyJson)}
    (hkeys : ((entry.map fun field => PyString.ofString field.1)).Nodup)
    (hvalues : ∀ field ∈ entry, Writable (fun _ => "0.0") field.2) :
    Writable (fun _ => "0.0") (.dict (configOf entry)) := by
  have hentry : ∀ entry : List (String × PyJson),
      (∀ field ∈ entry, Writable (fun _ => "0.0") field.2) →
      MembersWritable (fun _ => "0.0")
        (entry.map fun field => (PyString.ofString field.1, field.2)) := by
    intro entry h
    induction entry with
    | nil => trivial
    | cons field entry ih =>
        rw [List.forall_mem_cons] at h
        exact ⟨unpaired_ofString _, h.1, ih h.2⟩
  refine ⟨List.nodup_singleton _, unpaired_ofString _, ⟨List.nodup_singleton _,
    unpaired_ofString _, ⟨?_, hentry entry hvalues⟩, trivial⟩, trivial⟩
  rw [List.map_map]
  exact hkeys

def tokenEntry : List (String × PyJson) :=
  [("command", plain "npx"), ("args", .list [plain "--token", plain "hunter2"]),
    ("env", .dict [(PyString.ofString "API_KEY", plain "hunter3")])]

def remoteEntry : List (String × PyJson) :=
  [("url", plain "https://mcp.example"),
    ("headers", .dict [(PyString.ofString "Authorization", plain "Bearer hunter2")])]

def flagsEntry (second : String) : List (String × PyJson) :=
  [("command", plain "npx"), ("args", .list [plain "--auth", plain second, plain "hunter2"])]

theorem plan_hides_secrets_of_token : ∃ shown,
    redactConfigSecrets asciiLower (fun _ => "0.0") (configOf tokenEntry) = some shown ∧
      ConfigHidden asciiLower (configOf tokenEntry) shown := by
  have hwritable : Writable (fun _ => "0.0") (.dict (configOf tokenEntry)) := by
    apply writable_configOf (by decide)
    intro field hfield
    simp only [tokenEntry, List.mem_cons, List.not_mem_nil, or_false] at hfield
    rcases hfield with rfl | rfl | rfl
    · exact unpaired_ofString _
    · exact ⟨unpaired_ofString _, unpaired_ofString _, trivial⟩
    · exact ⟨List.nodup_singleton _, unpaired_ofString _, unpaired_ofString _, trivial⟩
  apply (plan_hides_secrets_iff hwritable).mpr
  intro value hvalue
  rw [configOf, List.mem_singleton] at hvalue
  rw [(Prod.mk.inj hvalue).2]
  intro server hserver spec hspec field hfield
  rw [List.mem_singleton] at hserver
  rw [hserver] at hspec
  rw [← PyJson.dict.inj hspec] at hfield
  simp only [tokenEntry, List.map_cons, List.map_nil, List.mem_cons, List.not_mem_nil,
    or_false] at hfield
  rcases hfield with rfl | rfl | rfl
  · trivial
  · intro _
    have hplain : isFlag asciiLower (plain "hunter2") ≠ true := by decide
    rw [argsCovered_cons, argsCovered_cons, valueCovered_cons]
    exact ⟨fun _ => ⟨⟨_, rfl⟩, fun h => absurd h hplain⟩, fun h => absurd h hplain, argsCovered_nil⟩
  · intro hheaders
    exact absurd hheaders (by decide)

/-- The credential of a remote server stands in its headers, and a flag that is taken for
the value of the one before it leaves its own value in the plan. -/
theorem plan_prints_headers_and_second_values :
    redactConfigSecrets asciiLower (fun _ => "0.0") (configOf remoteEntry) =
      some (configOf remoteEntry) ∧
    redactConfigSecrets asciiLower (fun _ => "0.0") (configOf (flagsEntry "--token")) =
      some (configOf (flagsEntry "<redacted>")) := by
  constructor
  · have hwritable : Writable (fun _ => "0.0") (.dict (configOf remoteEntry)) := by
      apply writable_configOf (by decide)
      intro field hfield
      simp only [remoteEntry, List.mem_cons, List.not_mem_nil, or_false] at hfield
      rcases hfield with rfl | rfl
      · exact unpaired_ofString _
      · exact ⟨List.nodup_singleton _, unpaired_ofString _, unpaired_ofString _, trivial⟩
    rw [copy_of_writable hwritable]
    rfl
  · have hwritable : Writable (fun _ => "0.0") (.dict (configOf (flagsEntry "--token"))) := by
      apply writable_configOf (by decide)
      intro field hfield
      simp only [flagsEntry, List.mem_cons, List.not_mem_nil, or_false] at hfield
      rcases hfield with rfl | rfl
      · exact unpaired_ofString _
      · exact ⟨unpaired_ofString _, unpaired_ofString _, unpaired_ofString _, trivial⟩
    rw [copy_of_writable hwritable]
    rfl

end Plan
end BlackMonolith.Launcher
