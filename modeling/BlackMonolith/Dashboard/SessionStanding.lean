import BlackMonolith.Dashboard.OperatorSessions

/-!
# What a session stands for

Over sign-ins, sign-outs and requests in any order, the row of a digest says what its token is
good for: nothing before a sign-in, the operator until the session expires, nothing after it was
signed out. No row is ever removed.
-/
namespace BlackMonolith.Dashboard.OperatorSessions
open Library Library.RowSecurity RowPolicies

section
variable {δ : Type}
  {others : (i : TableName) → Tables (TableRow δ) → TableRow δ i → Bool}
  {console : Console} {db db' : Tables (TableRow δ)} {c : DatabaseContext}

inductive SessionAction
  | signIn (identity : OperatorIdentity) (token : JsString) (now : ℕ)
  | signOut (token : JsString) (now : ℕ)
  | request (token : JsString) (now : ℕ)

/-- The tables after an operation that may throw. -/
def tablesOf {α : Type} (db : Tables (TableRow δ)) (result : Option (Tables (TableRow δ) × α)) :
    Tables (TableRow δ) :=
  (result.map Prod.fst).getD db

theorem tablesOf_update {α : Type} (rows : List OperatorSession) (value : α) :
    tablesOf db (some (Function.update db .operatorSessions rows, value)) .operatorSessions =
      rows := by
  have hupdated : Function.update db .operatorSessions rows .operatorSessions = rows :=
    Function.update_self _ _ _
  exact hupdated

def act (others : (i : TableName) → Tables (TableRow δ) → TableRow δ i → Bool)
    (console : Console) (db : Tables (TableRow δ)) : SessionAction → Tables (TableRow δ)
  | .signIn identity token now =>
      tablesOf db (createOperatorSession others console db identity token now)
  | .signOut token now => tablesOf db (revokeOperatorSession others console db token now)
  | .request token now => tablesOf db (authenticateSession others console db token now)

/-- What a session is for: a token stands for the operator who has signed in with it, until it
expires or is signed out, and never stands for anyone again. -/
inductive Standing
  | unknown
  | live (identity : OperatorIdentity) (expiresAt : ℕ)
  | signedOut
deriving DecidableEq

def Standing.after (console : Console) (digest : Digest) : Standing → SessionAction → Standing
  | .unknown, .signIn identity token now =>
      if accepts identity = true ∧ console.sha256 token = digest then
        .live { identity with authType := .session }
          (now + 1000 * sessionTtlSeconds console.sessionTtl)
      else .unknown
  | .live identity expiresAt, .signOut token _ =>
      if token.units ≠ [] ∧ console.sha256 token = digest then .signedOut
      else .live identity expiresAt
  | standing, _ => standing

def standing (console : Console) (digest : Digest) (history : List SessionAction) : Standing :=
  history.foldl (Standing.after console digest) .unknown

def Standing.identityAt (now : ℕ) : Standing → Option OperatorIdentity
  | .live identity expiresAt => if now < expiresAt then some identity else none
  | _ => none

/-- The row of a digest says where it stands. -/
def Standing.Row : Standing → Option OperatorSession → Prop
  | .unknown, row => row = none
  | .live identity expiresAt, row => ∃ r, row = some r ∧ identityOf r = identity ∧
      r.expiresAt = expiresAt ∧ r.revokedAt = none
  | .signedOut, row => ∃ r, row = some r ∧ r.revokedAt.isSome = true

structure Tracks (console : Console) (rows : List OperatorSession)
    (stands : Digest → Standing) : Prop where
  keyed : Keyed rows
  checked : ∀ row ∈ rows, sessionChecks row = true
  standing : ∀ digest : Digest,
    (stands digest).Row (rows.find? fun row => row.sessionHash = (digest : String))

theorem find?_map_of_hash {rows : List OperatorSession} {f : OperatorSession → OperatorSession}
    (hf : ∀ row, (f row).sessionHash = row.sessionHash) (sessionHash : String) :
    ((rows.map f).find? fun row => row.sessionHash = sessionHash) =
      (rows.find? fun row => row.sessionHash = sessionHash).map f := by
  rw [List.find?_map]
  congr 1
  congr 1
  funext row
  dsimp only [Function.comp]
  rw [hf]

section
variable {rows : List OperatorSession} {stands : Digest → Standing}

/-- A digest that stands for no one has no row. -/
theorem Tracks.unknown_iff (h : Tracks console rows stands) (digest : Digest) :
    stands digest = .unknown ↔ (digest : String) ∉ rows.map OperatorSession.sessionHash := by
  have hnone : (rows.find? fun row => row.sessionHash = (digest : String)) = none ↔
      (digest : String) ∉ rows.map OperatorSession.sessionHash := by
    rw [List.find?_eq_none, List.mem_map, not_exists]
    apply forall_congr'
    intro row
    rw [not_and, decide_eq_true_iff]
  rw [← hnone]
  have hrow := h.standing digest
  cases hstands : stands digest with
  | unknown =>
      rw [hstands] at hrow
      exact iff_of_true rfl hrow
  | live identity expiresAt =>
      rw [hstands] at hrow
      obtain ⟨r, hr, -⟩ := hrow
      rw [hr]
      exact iff_of_false (fun h => (by cases h)) (fun h => (by cases h))
  | signedOut =>
      rw [hstands] at hrow
      obtain ⟨r, hr, -⟩ := hrow
      rw [hr]
      exact iff_of_false (fun h => (by cases h)) (fun h => (by cases h))

theorem after_signIn_of_ne {digest : Digest} {identity : OperatorIdentity} {token : JsString}
    {now : ℕ} (hne : ¬ (stands digest = .unknown ∧ accepts identity = true ∧
      console.sha256 token = digest)) :
    (stands digest).after console digest (.signIn identity token now) = stands digest := by
  cases hstands : stands digest with
  | unknown => exact if_neg fun h => hne ⟨hstands, h⟩
  | live identity expiresAt => rfl
  | signedOut => rfl

theorem Tracks.signIn (h : Tracks console (db .operatorSessions) stands)
    (hdatabase : console.databaseUrl = true) (identity : OperatorIdentity) (token : JsString)
    (now : ℕ) :
    Tracks console (act others console db (.signIn identity token now) .operatorSessions)
      fun digest => (stands digest).after console digest (.signIn identity token now) := by
  rw [act, createOperatorSession_eq h.keyed hdatabase]
  by_cases hnew : accepts identity = true ∧ (console.sha256 token : String) ∉
      (db .operatorSessions).map OperatorSession.sessionHash
  · rw [if_pos hnew, tablesOf_update]
    refine ⟨?_, ?_, fun digest => ?_⟩
    · unfold Keyed
      rw [List.map_append]
      exact h.keyed.append (List.nodup_singleton _) (List.disjoint_singleton.mpr hnew.2)
    · rw [List.forall_mem_append, List.forall_mem_singleton, sessionChecks_new]
      exact ⟨h.checked, (accepts_iff.mp hnew.1).2⟩
    · have hhash : (newSession console identity token now).sessionHash = console.sha256 token :=
        rfl
      rw [List.find?_append, List.find?_singleton, hhash]
      by_cases hdigest : console.sha256 token = digest
      · subst hdigest
        have hunknown := (h.unknown_iff _).mpr hnew.2
        have hrow := h.standing (console.sha256 token)
        rw [hunknown] at hrow ⊢
        rw [show (db .operatorSessions).find? _ = none from hrow, Standing.after,
          if_pos ⟨hnew.1, rfl⟩, Option.none_or, if_pos (decide_eq_true rfl)]
        exact ⟨_, rfl, rfl, rfl, rfl⟩
      · rw [if_neg (fun heq => hdigest (Subtype.ext (of_decide_eq_true heq))), Option.or_none,
          after_signIn_of_ne (fun h => hdigest h.2.2)]
        exact h.standing digest
  · rw [if_neg hnew, tablesOf, Option.map_none, Option.getD_none]
    refine ⟨h.keyed, h.checked, fun digest => ?_⟩
    rw [after_signIn_of_ne]
    · exact h.standing digest
    · rintro ⟨hunknown, haccepts, rfl⟩
      exact hnew ⟨haccepts, (h.unknown_iff _).mp hunknown⟩

theorem Tracks.signOut (h : Tracks console (db .operatorSessions) stands)
    (hdatabase : console.databaseUrl = true) (token : JsString) (now : ℕ) :
    Tracks console (act others console db (.signOut token now) .operatorSessions)
      fun digest => (stands digest).after console digest (.signOut token now) := by
  rw [act]
  by_cases htoken : token.units = []
  · rw [revokeOperatorSession, if_pos htoken, tablesOf, Option.map_some, Option.getD_some]
    refine ⟨h.keyed, h.checked, fun digest => ?_⟩
    have hsame : (stands digest).after console digest (.signOut token now) = stands digest := by
      cases stands digest with
      | unknown => rfl
      | live identity expiresAt => exact if_neg fun hboth => hboth.1 htoken
      | signedOut => rfl
    rw [hsame]
    exact h.standing digest
  · rw [revokeOperatorSession_eq h.keyed h.checked hdatabase htoken, tablesOf_update]
    have hhash : ∀ row : OperatorSession, (if row.sessionHash = (console.sha256 token : String)
        then signOutAt now row else row).sessionHash = row.sessionHash := by
      intro row
      split_ifs
      · rfl
      · rfl
    refine ⟨keyed_map hhash h.keyed, fun row hrow => ?_, fun digest => ?_⟩
    · obtain ⟨old, hold, rfl⟩ := List.mem_map.mp hrow
      have hchecked := h.checked old hold
      split_ifs
      · exact hchecked
      · exact hchecked
    · rw [find?_map_of_hash hhash]
      have hrow := h.standing digest
      have hfound : ∀ {r : OperatorSession}, (db .operatorSessions).find?
          (fun row => row.sessionHash = (digest : String)) = some r →
            r.sessionHash = digest := by
        intro r hr
        have hheld := List.find?_some hr
        exact of_decide_eq_true hheld
      cases hstands : stands digest with
      | unknown =>
          rw [hstands] at hrow
          rw [show (db .operatorSessions).find? _ = none from hrow]
          rfl
      | live identity expiresAt =>
          rw [hstands] at hrow
          obtain ⟨r, hr, hidentity, hexpires, hrevoked⟩ := hrow
          rw [hr, Option.map_some, hfound hr, Standing.after]
          by_cases hdigest : console.sha256 token = digest
          · rw [if_pos ⟨htoken, hdigest⟩, if_pos (congrArg Subtype.val hdigest.symm)]
            exact ⟨_, rfl, rfl⟩
          · rw [if_neg (fun hboth => hdigest hboth.2),
              if_neg (fun heq => hdigest (Subtype.ext heq.symm))]
            exact ⟨r, rfl, hidentity, hexpires, hrevoked⟩
      | signedOut =>
          rw [hstands] at hrow
          obtain ⟨r, hr, hrevoked⟩ := hrow
          rw [hr, Option.map_some]
          refine ⟨_, rfl, ?_⟩
          split_ifs
          · rfl
          · exact hrevoked

/-- That a session was seen makes no difference. -/
theorem Tracks.touched (h : Tracks console rows stands) (now : ℕ)
    {f : OperatorSession → OperatorSession} (hf : ∀ row, f row = touch now row ∨ f row = row) :
    Tracks console (rows.map f) stands := by
  have hhash : ∀ row, (f row).sessionHash = row.sessionHash := by
    intro row
    rcases hf row with hrow | hrow
    · rw [hrow]; rfl
    · rw [hrow]
  refine ⟨keyed_map hhash h.keyed, fun row hrow => ?_, fun digest => ?_⟩
  · obtain ⟨old, hold, rfl⟩ := List.mem_map.mp hrow
    have hchecked := h.checked old hold
    rcases hf old with hrow | hrow
    · rw [hrow]; exact hchecked
    · rw [hrow]; exact hchecked
  · rw [find?_map_of_hash hhash]
    have hrow := h.standing digest
    cases hstands : stands digest with
    | unknown =>
        rw [hstands] at hrow
        rw [show rows.find? _ = none from hrow]
        rfl
    | live identity expiresAt =>
        rw [hstands] at hrow
        obtain ⟨r, hr, hlive⟩ := hrow
        rw [hr]
        refine ⟨f r, rfl, ?_⟩
        rcases hf r with hrow | hrow
        · rw [hrow]; exact hlive
        · rw [hrow]; exact hlive
    | signedOut =>
        rw [hstands] at hrow
        obtain ⟨r, hr, hrevoked⟩ := hrow
        rw [hr]
        refine ⟨f r, rfl, ?_⟩
        rcases hf r with hrow | hrow
        · rw [hrow]; exact hrevoked
        · rw [hrow]; exact hrevoked

theorem Tracks.request (h : Tracks console (db .operatorSessions) stands)
    (hdatabase : console.databaseUrl = true) (token : JsString) (now : ℕ) :
    Tracks console (act others console db (.request token now) .operatorSessions) stands := by
  rw [act]
  by_cases htoken : token.units = [] ∨ 128 < token.length
  · rw [authenticateSession, if_pos htoken, tablesOf, Option.map_some, Option.getD_some]
    exact h
  · rw [authenticateSession_eq h.keyed h.checked hdatabase htoken, tablesOf_update]
    apply h.touched now
    intro row
    split_ifs
    · exact Or.inl rfl
    · exact Or.inr rfl

theorem Tracks.act (h : Tracks console (db .operatorSessions) stands)
    (hdatabase : console.databaseUrl = true) (action : SessionAction) :
    Tracks console (act others console db action .operatorSessions)
      fun digest => (stands digest).after console digest action := by
  cases action with
  | signIn identity token now => exact h.signIn hdatabase identity token now
  | signOut token now => exact h.signOut hdatabase token now
  | request token now =>
      have hsame : (fun digest => (stands digest).after console digest (.request token now)) =
          stands := by
        funext digest
        cases stands digest with
        | unknown => rfl
        | live identity expiresAt => rfl
        | signedOut => rfl
      rw [hsame]
      exact h.request hdatabase token now

theorem tracks_run (h : Tracks console (db .operatorSessions) stands)
    (hdatabase : console.databaseUrl = true) (history : List SessionAction) :
    Tracks console (history.foldl (OperatorSessions.act others console) db .operatorSessions)
      fun digest => history.foldl (Standing.after console digest) (stands digest) := by
  induction history generalizing db stands with
  | nil => exact h
  | cons action history ih => exact ih (h.act hdatabase action)

theorem tracks_start (console : Console) : Tracks console [] fun _ => .unknown :=
  ⟨List.nodup_nil, fun _ hrow => absurd hrow List.not_mem_nil, fun _ => rfl⟩

/-- A digest has one row. -/
theorem find?_isValid (h : Keyed rows) (sessionHash : String) (now : ℕ) :
    rows.find? (OperatorSession.isValid sessionHash now) =
      (rows.find? fun row => row.sessionHash = sessionHash).filter
        (OperatorSession.isValid sessionHash now) := by
  induction rows with
  | nil => rfl
  | cons row rows ih =>
      obtain ⟨hfirst, hrest⟩ := List.nodup_cons.mp h
      rw [List.find?_cons, List.find?_cons]
      by_cases hhash : row.sessionHash = sessionHash
      · rw [decide_eq_true hhash, Option.filter_some]
        cases hvalid : OperatorSession.isValid sessionHash now row with
        | true => rfl
        | false =>
            apply List.find?_eq_none.mpr
            intro other hother hheld
            have hsame : other.sessionHash = sessionHash := by
              unfold OperatorSession.isValid at hheld
              rw [Bool.and_eq_true, Bool.and_eq_true, decide_eq_true_iff] at hheld
              exact hheld.1.1
            exact hfirst (List.mem_map.mpr ⟨other, hother, hsame.trans hhash.symm⟩)
      · have hvalid : OperatorSession.isValid sessionHash now row = false := by
          unfold OperatorSession.isValid
          rw [decide_eq_false hhash]
          rfl
        rw [hvalid, decide_eq_false hhash]
        exact ih hrest

/-- The session of a token is that for which its digest stands. -/
theorem Tracks.find_valid (h : Tracks console rows stands) (digest : Digest) (now : ℕ) :
    (rows.find? (OperatorSession.isValid digest now)).map identityOf =
      (stands digest).identityAt now := by
  rw [find?_isValid h.keyed]
  have hrow := h.standing digest
  cases hstands : stands digest with
  | unknown =>
      rw [hstands] at hrow
      rw [show rows.find? _ = none from hrow]
      rfl
  | live identity expiresAt =>
      rw [hstands] at hrow
      obtain ⟨r, hr, rfl, rfl, hrevoked⟩ := hrow
      have hheld := List.find?_some hr
      rw [hr, Option.filter_some, OperatorSession.isValid, hheld, hrevoked]
      by_cases hexpires : now < r.expiresAt
      · rw [decide_eq_true hexpires, Standing.identityAt, if_pos hexpires]
        rfl
      · rw [decide_eq_false hexpires, Standing.identityAt, if_neg hexpires]
        rfl
  | signedOut =>
      rw [hstands] at hrow
      obtain ⟨r, hr, hrevoked⟩ := hrow
      have hended : r.revokedAt.isNone = false := by
        rw [← Option.not_isSome, hrevoked]
        rfl
      rw [hr, Option.filter_some, OperatorSession.isValid, hended, Bool.and_false,
        Bool.false_and]
      rfl

variable (others)

/-- Of a run that begins without sessions. -/
theorem authenticateSession_run (hstart : db .operatorSessions = [])
    (hdatabase : console.databaseUrl = true) (history : List SessionAction) {token : JsString}
    (htoken : ¬ (token.units = [] ∨ 128 < token.length)) (now : ℕ) :
    ∃ db', authenticateSession others console
        (history.foldl (OperatorSessions.act others console) db) token now =
      some (db', (standing console (console.sha256 token) history).identityAt now) := by
  have htracks : Tracks console (db .operatorSessions) fun _ => .unknown :=
    hstart ▸ tracks_start console
  have hrun : Tracks console
      (history.foldl (OperatorSessions.act others console) db .operatorSessions)
        fun digest => standing console digest history := tracks_run htracks hdatabase history
  rw [authenticateSession_eq hrun.keyed hrun.checked hdatabase htoken, hrun.find_valid]
  exact ⟨_, rfl⟩

theorem bearerIdentity_authType {req : Request} {identity : OperatorIdentity}
    (h : bearerIdentity console req = .ok (some identity)) : identity.authType = .bearer := by
  unfold bearerIdentity at h
  split at h
  · cases h
  · next found _ =>
      obtain ⟨⟨actor, role, tenantId⟩, -, rfl⟩ := Option.map_eq_some_iff.mp (Except.ok.inj h)
      rfl

theorem answerOperator_eq_ok {req : Request} {minimum : OperatorRole} {identity : OperatorIdentity}
    {found : Except AuthError (Option OperatorIdentity)} (hsession : identity.authType = .session) :
    answerOperator console req minimum found = .ok identity ↔
      found = .ok (some identity) ∧ requireSameOrigin console req = none ∧
        hasRole identity minimum = true := by
  constructor
  · intro h
    unfold answerOperator at h
    split at h
    · cases h
    · cases h
    · cases h
    · next other =>
        split at h
        · cases h
        · next hrefusal =>
            split_ifs at h with hrole
            cases h
            rw [if_pos hsession] at hrefusal
            exact ⟨rfl, hrefusal, hrole⟩
  · rintro ⟨rfl, horigin, hrole⟩
    rw [answerOperator, if_pos hsession, horigin]
    exact if_neg (not_not.mpr hrole)

theorem authenticateOperator_eq_session (hstart : db .operatorSessions = [])
    (history : List SessionAction) (req : Request) (now : ℕ) {identity : OperatorIdentity}
    (hsession : identity.authType = .session) :
    let token := cookieValue console req operatorSessionCookie
    (authenticateOperator others console
        (history.foldl (OperatorSessions.act others console) db) req now).2 =
        .ok (some identity) ↔
      console.databaseUrl = true ∧ ¬ (token.units = [] ∨ 128 < token.length) ∧
        (standing console (console.sha256 token) history).identityAt now = some identity := by
  intro token
  have hbearer : bearerIdentity console req ≠ .ok (some identity) := by
    intro hfound
    rw [bearerIdentity_authType hfound] at hsession
    cases hsession
  unfold authenticateOperator
  dsimp only
  change (if token.units = [] then _ else _ : Tables (TableRow δ) × _).2 = _ ↔ _
  by_cases hempty : token.units = []
  · rw [if_pos hempty]
    exact iff_of_false hbearer fun hall => hall.2.1 (Or.inl hempty)
  rw [if_neg hempty]
  by_cases hlong : 128 < token.length
  · rw [authenticateSession, if_pos (Or.inr hlong)]
    exact iff_of_false hbearer fun hall => hall.2.1 (Or.inr hlong)
  have htoken : ¬ (token.units = [] ∨ 128 < token.length) := not_or.mpr ⟨hempty, hlong⟩
  cases hdatabase : console.databaseUrl with
  | false =>
      rw [authenticateSession, if_neg htoken, hdatabase]
      exact iff_of_false (fun h => (by cases h)) (fun hall => (by cases hall.1))
  | true =>
      obtain ⟨db', hanswer⟩ := authenticateSession_run others hstart hdatabase history
        htoken now
      rw [hanswer]
      cases hstands : (standing console (console.sha256 token) history).identityAt now with
      | none => exact iff_of_false hbearer fun hall => (by cases hall.2.2)
      | some found =>
          constructor
          · intro h
            cases h
            exact ⟨rfl, htoken, rfl⟩
          · rintro ⟨-, -, hfound⟩
            cases hfound
            rfl

/-- What a session is good for, whatever sign-ins, sign-outs and requests came before: a request
is let in with it as the operator for whom its token stands, if it comes from the same origin and
the role is high enough. -/
theorem session_admits (hstart : db .operatorSessions = []) (history : List SessionAction)
    (req : Request) (minimum : OperatorRole) (now : ℕ) {identity : OperatorIdentity}
    (hsession : identity.authType = .session) :
    let token := cookieValue console req operatorSessionCookie
    (requireOperator others console (history.foldl (OperatorSessions.act others console) db) req
        minimum now).2 = .ok identity ↔
      console.authDisabled = false ∧ console.databaseUrl = true ∧
        ¬ (token.units = [] ∨ 128 < token.length) ∧
        (standing console (console.sha256 token) history).identityAt now = some identity ∧
        requireSameOrigin console req = none ∧ hasRole identity minimum = true := by
  intro token
  unfold requireOperator
  cases hdisabled : console.authDisabled with
  | true =>
      refine iff_of_false (fun h => ?_) (fun hall => (by cases hall.1))
      cases h
      cases hsession
  | false =>
      rw [if_neg Bool.false_ne_true]
      have hanswer : (authenticateOperator others console
          (history.foldl (OperatorSessions.act others console) db) req now).2 =
          .ok (some identity) ↔ _ :=
        authenticateOperator_eq_session others hstart history req now hsession
      dsimp only
      rw [answerOperator_eq_ok hsession, hanswer]
      tauto

/-- Every session that was ever issued is still in the table, also when it has expired or was
signed out, whatever the clean-up of later sign-ins asks for. -/
theorem sessions_kept (hstart : db .operatorSessions = []) (hdatabase : console.databaseUrl = true)
    (history : List SessionAction) (digest : Digest) :
    (digest : String) ∈ ((history.foldl (OperatorSessions.act others console) db)
        .operatorSessions).map OperatorSession.sessionHash ↔
      standing console digest history ≠ .unknown := by
  have htracks : Tracks console (db .operatorSessions) fun _ => .unknown :=
    hstart ▸ tracks_start console
  have hrun : Tracks console
      (history.foldl (OperatorSessions.act others console) db .operatorSessions)
        fun digest => standing console digest history := tracks_run htracks hdatabase history
  have hunknown : standing console digest history = .unknown ↔ _ := hrun.unknown_iff digest
  rw [Ne, hunknown, not_not]

def oneDigest : Digest :=
  ⟨"aaaaaaaaaaaaaaaaaaaaaaaaaaaaaaaaaaaaaaaaaaaaaaaaaaaaaaaaaaaaaaaa", by unfold IsDigest; decide⟩

def oneConsole : Console where
  authDisabled := false
  tenantId := ""
  databaseUrl := true
  sessionTtl := some 300
  trustProxyHeaders := false
  sha256 := fun _ => oneDigest
  decodeURIComponent := some
  parseUrl := fun _ => none
  credential := fun _ => .ok none

def analyst : OperatorIdentity := ⟨"ana", .analyst, "default", .session⟩

/-- A sign-in, and after its time another one with a token of the same digest. -/
def twoSignIns : List SessionAction :=
  [.signIn analyst (.ofString "token") 0, .signIn analyst (.ofString "token") 400000]

def readsIncidents : Request where
  method := "GET"
  url := .ofString "http://localhost:3000/api/incidents"
  cookie := some (.ofString "theme=dark; monolith-session=token")

def noTables : Tables (TableRow Unit) := fun
  | .operatorSessions => []
  | _ => []

theorem session_admits_in_time :
    (requireOperator (fun _ _ _ => true) oneConsole
        (twoSignIns.foldl (OperatorSessions.act (fun _ _ _ => true) oneConsole) noTables)
        readsIncidents .viewer 299999).2 = .ok analyst ∧
      (requireOperator (fun _ _ _ => true) oneConsole
        (twoSignIns.foldl (OperatorSessions.act (fun _ _ _ => true) oneConsole) noTables)
        readsIncidents .viewer 300000).2 ≠ .ok analyst := by
  have hadmits : ∀ now, (requireOperator (fun _ _ _ => true) oneConsole
      (twoSignIns.foldl (OperatorSessions.act (fun _ _ _ => true) oneConsole) noTables)
      readsIncidents .viewer now).2 = .ok analyst ↔ _ :=
    fun now => session_admits (fun _ _ _ => true) rfl twoSignIns readsIncidents .viewer now rfl
  refine ⟨(hadmits _).mpr ?_, fun h => ?_⟩
  · refine ⟨rfl, rfl, ?_, ?_, ?_, ?_⟩
    · decide
    · decide
    · decide +kernel
    · decide
  · have hstands := ((hadmits _).mp h).2.2.2.1
    revert hstands
    decide

theorem sessions_kept_after_expiry :
    (oneDigest : String) ∈ ((twoSignIns.foldl
        (OperatorSessions.act (fun _ _ _ => true) oneConsole) noTables)
          .operatorSessions).map OperatorSession.sessionHash :=
  (sessions_kept (fun _ _ _ => true) rfl rfl twoSignIns oneDigest).mpr
    (by decide)

end

end

end BlackMonolith.Dashboard.OperatorSessions
