import BlackMonolith.Dashboard.RowPolicies

/-!
# The sessions of operators

Signing in trades an operator's credential for an opaque token, of which the table holds the
digest. A request with the token is answered as the operator, until the session expires or is
signed out. The statements run under the row policies, under which the clean-up at a sign-in
sees no row. SHA-256, `decodeURIComponent`, the URL parser and the check of a bearer credential
are parameters.
-/
namespace BlackMonolith.Dashboard.OperatorSessions
open Library Library.RowSecurity RowPolicies

/-- The text of a SHA-256 digest. -/
def IsDigest (s : String) : Prop :=
  (s.length = 64 && s.toList.all fun ch => ch.isDigit || ('a' ≤ ch && ch ≤ 'f')) = true

abbrev Digest := { s : String // IsDigest s }

inductive AuthType
  | bearer
  | session
deriving DecidableEq

structure OperatorIdentity where
  actor : String
  role : OperatorRole
  tenantId : String
  authType : AuthType
deriving DecidableEq

def roleRank : OperatorRole → ℕ
  | .viewer => 0
  | .analyst => 1
  | .admin => 2

def roleText : OperatorRole → String
  | .viewer => "viewer"
  | .analyst => "analyst"
  | .admin => "admin"

def hasRole (identity : OperatorIdentity) (minimum : OperatorRole) : Bool :=
  roleRank minimum ≤ roleRank identity.role

def defaultSessionTtlSeconds : ℕ := 8 * 60 * 60

/-- `configured` is what `Math.trunc` makes of the setting, if it is a finite number. -/
def sessionTtlSeconds (configured : Option ℤ) : ℕ :=
  match configured with
  | none => defaultSessionTtlSeconds
  | some seconds => (max (5 * 60) (min seconds (24 * 60 * 60))).toNat

/-- What a request says of itself. -/
structure Request where
  method : String
  url : JsString
  cookie : Option JsString := none
  authorization : Option JsString := none
  secFetchSite : Option JsString := none
  origin : Option JsString := none
  host : Option JsString := none
  forwardedHost : Option JsString := none
  forwardedProto : Option JsString := none

structure Url where
  protocol : JsString
  username : JsString
  password : JsString
  origin : JsString

/-- What a sign-in or a check of a credential may throw. -/
inductive AuthError
  | misconfigured
  | failed

structure Console where
  authDisabled : Bool
  tenantId : String
  databaseUrl : Bool
  sessionTtl : Option ℤ
  trustProxyHeaders : Bool
  sha256 : JsString → Digest
  decodeURIComponent : JsString → Option JsString
  parseUrl : JsString → Option Url
  credential : JsString → Except AuthError (Option (String × OperatorRole × String))

def operatorSessionCookie : JsString := .ofString "monolith-session"

/-- The value of the first pair of that name. -/
def cookieValue (console : Console) (req : Request) (name : JsString) : JsString :=
  let raw := (req.cookie.getD ⟨[]⟩).units
  let pairs := (raw.splitOn 59).map fun pair => (JsString.trim ⟨pair⟩).units.splitOn 61
  match pairs.find? (·.head? = some name.units) with
  | some (_ :: parts) => (console.decodeURIComponent ⟨[61].intercalate parts⟩).getD ⟨[]⟩
  | _ => ⟨[]⟩

/-! ## The origin of a request -/

def lastForwardedValue (raw : Option JsString) : Option JsString :=
  let values := ((raw.getD ⟨[]⟩).units.splitOn 44).map fun value => JsString.trim ⟨value⟩
  (values.filter fun value => 0 < value.length).getLast?

def https : JsString := .ofString "https"

def requestIsHttps (console : Console) (req : Request) : Bool :=
  (console.trustProxyHeaders &&
    (lastForwardedValue req.forwardedProto).map JsString.asciiLowercase = some https) ||
  (console.parseUrl req.url).map Url.protocol = some (.ofString "https:")

/-- The characters `[@\s/?#\\]`. -/
def isHostBreak (u : UInt16) : Bool :=
  u == 64 || JsString.isWhitespace u || u == 47 || u == 63 || u == 35 || u == 92

def isPlausibleHost (host : JsString) : Bool :=
  0 < host.length && host.length ≤ 255 && !host.units.any isHostBreak

def present (header : Option JsString) : Option JsString := header.filter (0 < ·.length)

def hostCandidate (console : Console) (req : Request) : Option JsString :=
  (if console.trustProxyHeaders then lastForwardedValue req.forwardedHost else none) <|>
    present req.host

def originOf (console : Console) (raw : JsString) : Option JsString :=
  match console.parseUrl raw with
  | none => none
  | some url => if 0 < url.username.length || 0 < url.password.length then none else some url.origin

def requestOrigin (console : Console) (req : Request) : Option JsString :=
  match hostCandidate console req with
  | none => none
  | some host =>
      if ¬ isPlausibleHost host then none
      else
        let scheme : JsString := .ofString (if requestIsHttps console req then "https" else "http")
        some ⟨scheme.units ++ (JsString.ofString "://").units ++ host.units⟩

def expectedOrigin (console : Console) (req : Request) : Option JsString :=
  match hostCandidate console req with
  | none => originOf console req.url
  | some _ => (requestOrigin console req).bind (originOf console)

structure Refusal where
  status : ℕ
  error : String
deriving DecidableEq

def requireSameOrigin (console : Console) (req : Request) : Option Refusal :=
  if ["GET", "HEAD", "OPTIONS"].contains req.method.toUpper then none
  else if req.secFetchSite = some (.ofString "cross-site") then
    some ⟨403, "cross-site mutation rejected"⟩
  else
    match present req.origin with
    | none => none
    | some origin =>
        match expectedOrigin console req, originOf console origin with
        | some expected, some actual =>
            if actual ≠ expected then some ⟨403, "request origin is not allowed"⟩ else none
        | _, _ => some ⟨403, "request origin is invalid"⟩

/-! ## The table -/

section
variable {δ : Type}

/-- What a text column with a check on its length takes; no text has a U+0000. -/
def isNameText (s : String) : Bool :=
  1 ≤ s.length && s.length ≤ 128 && Char.ofNat 0 ∉ s.toList

/-- The checks of the table. -/
def sessionChecks (row : OperatorSession) : Bool :=
  isNameText row.actor && isNameText row.tenantId && row.issuedAt < row.expiresAt

/-- `others` are the constraints of the other tables. -/
def demands (others : (i : TableName) → Tables (TableRow δ) → TableRow δ i → Bool) :
    (i : TableName) → Tables (TableRow δ) → TableRow δ i → Bool
  | .operatorSessions, _, row => sessionChecks row
  | i, db, row => others i db row

variable (others : (i : TableName) → Tables (TableRow δ) → TableRow δ i → Bool)

/-- `withTenantDb` and `withSessionDb`; `none` where they throw. -/
def withDatabaseContext {α : Type} (db : Tables (TableRow δ)) (scope : Scope) (now : ℕ)
    (operation : Work (TableRow δ) α) : Option (Tables (TableRow δ) × α) :=
  (scope.context now).bind fun c => (schema (demands others)).perform c db operation

def newSession (console : Console) (identity : OperatorIdentity) (token : JsString) (now : ℕ) :
    OperatorSession where
  sessionHash := console.sha256 token
  actor := identity.actor
  role := identity.role
  tenantId := identity.tenantId
  issuedAt := now
  expiresAt := now + 1000 * sessionTtlSeconds console.sessionTtl
  lastSeenAt := now

def createOperatorSession (console : Console) (db : Tables (TableRow δ))
    (identity : OperatorIdentity) (token : JsString) (now : ℕ) :
    Option (Tables (TableRow δ) × Unit) :=
  if ¬ console.databaseUrl then some (db, ())
  else
    withDatabaseContext others db (.tenant identity.tenantId) now
      (.statement (.delete .operatorSessions (fun _ (row : OperatorSession) =>
        row.tenantId = identity.tenantId && (row.expiresAt ≤ now || row.revokedAt.isSome)) true)
        fun _ =>
      .statement (.insert .operatorSessions
        (fun _ => [newSession console identity token now]) .refuse false) fun _ =>
      .done ())

def OperatorSession.isValid (sessionHash : String) (now : ℕ) (row : OperatorSession) : Bool :=
  row.sessionHash = sessionHash && row.revokedAt.isNone && now < row.expiresAt

def fiveMinutes : ℕ := 5 * 60 * 1000

def identityOf (row : OperatorSession) : OperatorIdentity where
  actor := row.actor
  role := row.role
  tenantId := row.tenantId
  authType := .session

/-- The session in a row of a reply. -/
def sessionIn : (Σ i, TableRow δ i) → Option OperatorSession
  | ⟨.operatorSessions, row⟩ => some row
  | _ => none

def touch (now : ℕ) (row : OperatorSession) : OperatorSession := { row with lastSeenAt := now }

def authenticateSession (console : Console) (db : Tables (TableRow δ)) (token : JsString)
    (now : ℕ) : Option (Tables (TableRow δ) × Option OperatorIdentity) :=
  if token.units = [] ∨ 128 < token.length then some (db, none)
  else if ¬ console.databaseUrl then none
  else
    let hash : String := console.sha256 token
    withDatabaseContext others db (.session hash) now
      (.statement (.select .operatorSessions fun _ row => OperatorSession.isValid hash now row)
        fun valid =>
      .statement (.update .operatorSessions (fun _ (row : OperatorSession) =>
        OperatorSession.isValid hash now row && row.lastSeenAt + fiveMinutes < now)
        (fun _ => touch now) true) fun _ =>
      .done ((valid.rows.head?.bind sessionIn).map identityOf))

def signOutAt (now : ℕ) (row : OperatorSession) : OperatorSession :=
  { row with revokedAt := some (row.revokedAt.getD now) }

/-- `revokeOperatorSession`, with the value of the cookie. -/
def revokeOperatorSession (console : Console) (db : Tables (TableRow δ)) (token : JsString)
    (now : ℕ) : Option (Tables (TableRow δ) × Unit) :=
  if token.units = [] then some (db, ())
  else if ¬ console.databaseUrl then none
  else
    let hash : String := console.sha256 token
    withDatabaseContext others db (.session hash) now
      (.statement (.update .operatorSessions
        (fun _ (row : OperatorSession) => row.sessionHash = hash) (fun _ => signOutAt now) true)
        fun _ =>
      .done ())

def bearerOf (req : Request) : JsString :=
  let header := (req.authorization.getD ⟨[]⟩).units
  let scheme := (JsString.ofString "Bearer ").units
  ⟨if scheme.isPrefixOf header then header.drop scheme.length else []⟩

def bearerIdentity (console : Console) (req : Request) :
    Except AuthError (Option OperatorIdentity) :=
  match console.credential (bearerOf req) with
  | .error error => .error error
  | .ok found => .ok (found.map fun (actor, role, tenantId) => ⟨actor, role, tenantId, .bearer⟩)

def authenticateOperator (console : Console) (db : Tables (TableRow δ)) (req : Request)
    (now : ℕ) : Tables (TableRow δ) × Except AuthError (Option OperatorIdentity) :=
  let session := cookieValue console req operatorSessionCookie
  if session.units = [] then (db, bearerIdentity console req)
  else
    match authenticateSession others console db session now with
    | none => (db, .error .failed)
    | some (db, some identity) => (db, .ok (some identity))
    | some (db, none) => (db, bearerIdentity console req)

def demoIdentity (console : Console) : OperatorIdentity where
  actor := "auth-disabled"
  role := .admin
  tenantId := if console.tenantId = "" then "default" else console.tenantId
  authType := .bearer

/-- What `requireOperator` makes of the answer of the authenticator. -/
def answerOperator (console : Console) (req : Request) (minimum : OperatorRole) :
    Except AuthError (Option OperatorIdentity) → Except Refusal OperatorIdentity
  | .error .misconfigured => .error ⟨503, "operator authentication is unavailable"⟩
  | .error .failed => .error ⟨503, "session validation is temporarily unavailable"⟩
  | .ok none => .error ⟨401, "operator authentication is required"⟩
  | .ok (some identity) =>
      match if identity.authType = .session then requireSameOrigin console req else none with
      | some refusal => .error refusal
      | none =>
          if ¬ hasRole identity minimum then .error ⟨403, roleText minimum ++ " role is required"⟩
          else .ok identity

def requireOperator (console : Console) (db : Tables (TableRow δ)) (req : Request)
    (minimum : OperatorRole) (now : ℕ) :
    Tables (TableRow δ) × Except Refusal OperatorIdentity :=
  if console.authDisabled then (db, .ok (demoIdentity console))
  else
    ((authenticateOperator others console db req now).1,
      answerOperator console req minimum (authenticateOperator others console db req now).2)

/-! ## What the statements do -/

variable {others} {console : Console} {db db' : Tables (TableRow δ)} {c : DatabaseContext}

def Keyed (rows : List OperatorSession) : Prop := (rows.map OperatorSession.sessionHash).Nodup

theorem keyed_iff {rows : List OperatorSession} :
    (rows.map ((schema (demands others)).key .operatorSessions)).Nodup ↔ Keyed rows := by
  have hkey : rows.map ((schema (demands others)).key .operatorSessions) =
      (rows.map OperatorSession.sessionHash).map fun sessionHash => ([sessionHash], 0) := by
    rw [List.map_map]
    rfl
  rw [hkey]
  apply List.nodup_map_iff
  intro a b hab
  exact (List.cons.inj (Prod.mk.inj hab).1).1

theorem keep_sessions {rows : List OperatorSession} (h : Keyed rows)
    (reply : Reply (TableRow δ)) :
    (schema (demands others)).keep db .operatorSessions rows reply =
      .ok (Function.update db .operatorSessions rows, reply) :=
  if_pos (keyed_iff.mpr h)

theorem sessionKey_eq {row row' : OperatorSession} :
    (schema (demands others)).key .operatorSessions row =
      (schema (demands others)).key .operatorSessions row' ↔
        row.sessionHash = row'.sessionHash := by
  constructor
  · intro h
    exact (List.cons.inj (Prod.mk.inj h).1).1
  · intro h
    exact congrArg (fun sessionHash => ([sessionHash], 0)) h

/-- The clean-up of a sign-in runs in a tenant's context, in which no session can be read. -/
theorem run_delete_sessions (hkeyed : Keyed (db .operatorSessions))
    (hc : nullif c.sessionHash = none)
    (condition : Tables (TableRow δ) → OperatorSession → Bool) :
    (schema (demands others)).run c db (.delete .operatorSessions condition true) =
      .ok (db, ⟨[], 0⟩) := by
  have hnone : ∀ row : OperatorSession,
      (schema (demands others)).deletes (i := .operatorSessions) c db condition true row =
        false := by
    intro row
    have hread : (schema (demands others)).mayRead (i := .operatorSessions) c db row = false :=
      decide_eq_false (by rw [hc]; exact fun h => (by cases h))
    unfold Schema.deletes
    rw [hread, Bool.not_true, Bool.or_false, Bool.and_false, Bool.false_and]
  have hrows : ((db .operatorSessions).filter fun row =>
      !(schema (demands others)).deletes c db condition true row) = db .operatorSessions := by
    apply List.filter_eq_self.mpr
    intro row _
    rw [hnone]
    rfl
  have hremoved : (db .operatorSessions).filter
      ((schema (demands others)).deletes c db condition true) = [] := by
    apply List.filter_eq_nil_iff.mpr
    intro row _
    rw [hnone]
    exact Bool.false_ne_true
  rw [Schema.run, if_neg (by exact Bool.false_ne_true), hrows, hremoved, keep_sessions hkeyed,
    Function.update_eq_self]
  rfl

theorem insertRow_session (row : OperatorSession) (table : List OperatorSession) :
    (schema (demands others)).insertRow (i := .operatorSessions) c db .refuse false (table, [])
        row =
      if c.tenantIs row.tenantId = false then .error .rowSecurity
      else if sessionChecks row = false then .error .constraint
      else if row.sessionHash ∈ table.map OperatorSession.sessionHash then .error .uniqueness
      else .ok (table ++ [row], [row]) := by
  have hinsert : (schema (demands others)).mayInsert (i := .operatorSessions) c db row =
    c.tenantIs row.tenantId := rfl
  have hconstraint : (schema (demands others)).constraint .operatorSessions db row =
    sessionChecks row := rfl
  unfold Schema.insertRow
  rw [hinsert, hconstraint]
  cases c.tenantIs row.tenantId with
  | false => rfl
  | true =>
      cases sessionChecks row with
      | false => rfl
      | true =>
          simp only [OnConflict.reads, Bool.or_self, Bool.not_false, Bool.true_or, Bool.and_self,
            not_true_eq_false, if_false, Bool.true_eq_false]
          split
          · next hnone =>
              rw [if_neg]
              · rfl
              · intro hmem
                obtain ⟨old, hold, heq⟩ := List.mem_map.mp hmem
                have hne := List.findIdx?_eq_none_iff.mp hnone old hold
                exact of_decide_eq_false hne (sessionKey_eq.mpr heq)
          · next j hsome =>
              obtain ⟨hj, hkey, -⟩ := List.findIdx?_eq_some_iff_getElem.mp hsome
              rw [if_pos]
              exact List.mem_map.mpr ⟨table[j], List.getElem_mem hj,
                sessionKey_eq.mp (of_decide_eq_true hkey)⟩

theorem run_insert_session {row : OperatorSession} (hkeyed : Keyed (db .operatorSessions)) :
    (schema (demands others)).run c db
        (.insert .operatorSessions (fun _ => [row]) .refuse false) =
      if c.tenantIs row.tenantId = false then .error .rowSecurity
      else if sessionChecks row = false then .error .constraint
      else if row.sessionHash ∈ (db .operatorSessions).map OperatorSession.sessionHash then
        .error .uniqueness
      else .ok (Function.update db .operatorSessions (db .operatorSessions ++ [row]), ⟨[], 1⟩) := by
  rw [Schema.run, if_neg (by exact Bool.false_ne_true), Schema.insertRows, insertRow_session]
  by_cases htenant : c.tenantIs row.tenantId = false
  · rw [if_pos htenant, if_pos htenant]
  rw [if_neg htenant, if_neg htenant]
  by_cases hdemands : sessionChecks row = false
  · rw [if_pos hdemands, if_pos hdemands]
  rw [if_neg hdemands, if_neg hdemands]
  by_cases hmem : row.sessionHash ∈ (db .operatorSessions).map OperatorSession.sessionHash
  · rw [if_pos hmem, if_pos hmem]
  rw [if_neg hmem, if_neg hmem]
  have hnew : Keyed (db .operatorSessions ++ [row]) := by
    unfold Keyed
    rw [List.map_append]
    exact hkeyed.append (List.nodup_singleton _)
      (List.disjoint_singleton.mpr hmem)
  dsimp only [Schema.insertRows]
  exact keep_sessions hnew _

theorem run_select_sessions (condition : OperatorSession → Bool) :
    (schema (demands others)).run c db (.select .operatorSessions fun _ row => condition row) =
      .ok (db, .ofRows true ((db .operatorSessions).filter fun (row : OperatorSession) =>
        c.sessionIs row.sessionHash && condition row)) := by
  rw [Schema.run, if_neg (by exact Bool.false_ne_true)]
  have hrows : ((schema (demands others)).visible c db .operatorSessions).filter condition =
      (db .operatorSessions).filter fun (row : OperatorSession) =>
        c.sessionIs row.sessionHash && condition row := by
    unfold Schema.visible
    rw [List.filter_filter]
    apply List.filter_congr
    intro row _
    exact Bool.and_comm _ _
  exact congrArg (fun rows => Except.ok (db, Reply.ofRows true rows)) hrows

theorem keyed_map {rows : List OperatorSession} {f : OperatorSession → OperatorSession}
    (hf : ∀ row, (f row).sessionHash = row.sessionHash) (h : Keyed rows) : Keyed (rows.map f) := by
  have hhash : OperatorSession.sessionHash ∘ f = OperatorSession.sessionHash := funext hf
  unfold Keyed
  rw [List.map_map, hhash]
  exact h

/-- An update in a session's context that leaves the digest as it is. -/
theorem run_update_sessions (hkeyed : Keyed (db .operatorSessions))
    (condition : OperatorSession → Bool) (set : OperatorSession → OperatorSession)
    (hdemands : ∀ row ∈ db .operatorSessions, c.sessionIs row.sessionHash = true →
      sessionChecks (set row) = true)
    (hset : ∀ row, (set row).sessionHash = row.sessionHash) :
    ∃ reply, (schema (demands others)).run c db
      (.update .operatorSessions (fun _ row => condition row) (fun _ => set) true) =
        .ok (Function.update db .operatorSessions ((db .operatorSessions).map fun row =>
          if c.sessionIs row.sessionHash && condition row then set row else row), reply) := by
  have hupdates : ∀ row : OperatorSession, (schema (demands others)).updates
      (i := .operatorSessions) c db (fun _ row => condition row) true row =
        (c.sessionIs row.sessionHash && condition row) := by
    intro row
    have hupdate : (schema (demands others)).mayUpdate (i := .operatorSessions) c db row =
      c.sessionIs row.sessionHash := rfl
    have hread : (schema (demands others)).mayRead (i := .operatorSessions) c db row =
      c.sessionIs row.sessionHash := rfl
    unfold Schema.updates
    rw [hupdate, hread, Bool.not_true, Bool.false_or, Bool.and_self]
  have htouched : ∀ {P : OperatorSession → Prop},
      (∀ row ∈ db .operatorSessions, c.sessionIs row.sessionHash = true → P (set row)) →
      ∀ new ∈ ((db .operatorSessions).filter ((schema (demands others)).updates c db
        (fun _ row => condition row) true)).map set, P new := by
    intro P hP new hnew
    obtain ⟨row, hrow, rfl⟩ := List.mem_map.mp hnew
    obtain ⟨hmem, hupdated⟩ := List.mem_filter.mp hrow
    rw [hupdates, Bool.and_eq_true] at hupdated
    exact hP row hmem hupdated.1
  have hwritten : (((db .operatorSessions).filter ((schema (demands others)).updates c db
      (fun _ row => condition row) true)).map set).all (fun row =>
        (schema (demands others)).mayWrite (i := .operatorSessions) c db row &&
          (!true || (schema (demands others)).mayRead (i := .operatorSessions) c db row)) =
      true := by
    apply List.all_eq_true.mpr
    apply htouched
    intro row _ hsession
    have hnew : c.sessionIs (set row).sessionHash = true := by rw [hset, hsession]
    rw [Bool.not_true, Bool.false_or, Bool.and_eq_true]
    exact ⟨hnew, hnew⟩
  have hchecked : (((db .operatorSessions).filter ((schema (demands others)).updates c db
      (fun _ row => condition row) true)).map set).all
        ((schema (demands others)).constraint .operatorSessions db) = true :=
    List.all_eq_true.mpr (htouched hdemands)
  rw [Schema.run, if_neg (by exact Bool.false_ne_true)]
  dsimp only
  rw [if_neg (not_not.mpr hwritten), if_neg (not_not.mpr hchecked)]
  have hmap : ((db .operatorSessions).map fun row =>
      if (schema (demands others)).updates (i := .operatorSessions) c db
        (fun _ row => condition row) true row then set row else row) =
      (db .operatorSessions).map fun row =>
        if c.sessionIs row.sessionHash && condition row then set row else row := by
    apply List.map_congr_left
    intro row _
    rw [hupdates]
  have hnew : Keyed ((db .operatorSessions).map fun row =>
      if c.sessionIs row.sessionHash && condition row then set row else row) := by
    apply keyed_map _ hkeyed
    intro row
    split_ifs
    · exact hset row
    · rfl
  rw [hmap]
  exact ⟨_, keep_sessions hnew _⟩

/-! ## What the operations do -/

/-- What a sign-in demands of an identity. -/
def accepts (identity : OperatorIdentity) : Bool :=
  identity.tenantId ≠ "" && (JsString.ofString identity.tenantId).length ≤ 128 &&
    isNameText identity.actor && isNameText identity.tenantId

theorem sessionTtlSeconds_pos (configured : Option ℤ) : 0 < sessionTtlSeconds configured := by
  unfold sessionTtlSeconds
  cases configured with
  | none => decide
  | some seconds =>
      dsimp only
      omega

theorem sessionChecks_new (console : Console) (identity : OperatorIdentity) (token : JsString)
    (now : ℕ) : sessionChecks (newSession console identity token now) =
      (isNameText identity.actor && isNameText identity.tenantId) := by
  have hexpires : decide (now < now + 1000 * sessionTtlSeconds console.sessionTtl) = true :=
    decide_eq_true (by have hpos := sessionTtlSeconds_pos console.sessionTtl; omega)
  unfold sessionChecks newSession
  dsimp only
  rw [hexpires, Bool.and_true]

theorem accepts_iff {identity : OperatorIdentity} : accepts identity = true ↔
    ¬ (identity.tenantId = "" || 128 < (JsString.ofString identity.tenantId).length) = true ∧
      (isNameText identity.actor && isNameText identity.tenantId) = true := by
  unfold accepts
  simp only [Bool.and_eq_true, Bool.or_eq_true, decide_eq_true_eq, not_or, not_lt, and_assoc]

/-- A sign-in adds a row, and removes none. -/
theorem createOperatorSession_eq (hkeyed : Keyed (db .operatorSessions))
    (hdatabase : console.databaseUrl = true) (identity : OperatorIdentity) (token : JsString)
    (now : ℕ) : createOperatorSession others console db identity token now =
      if accepts identity = true ∧ (console.sha256 token : String) ∉
          (db .operatorSessions).map OperatorSession.sessionHash then
        some (Function.update db .operatorSessions
          (db .operatorSessions ++ [newSession console identity token now]), ())
      else none := by
  unfold createOperatorSession withDatabaseContext
  rw [if_neg (not_not.mpr hdatabase), Scope.context]
  by_cases hscope : (identity.tenantId = "" ||
      128 < (JsString.ofString identity.tenantId).length) = true
  · rw [if_pos hscope, Option.bind_none, if_neg]
    exact fun haccepts => (accepts_iff.mp haccepts.1).1 hscope
  · have hne : identity.tenantId ≠ "" := by
      intro hempty
      exact hscope (by rw [hempty]; rfl)
    have htenant : ({ tenantId := identity.tenantId, now } : DatabaseContext).tenantIs
        (newSession console identity token now).tenantId = true :=
      tenantIs_iff.mpr (if_neg hne)
    rw [if_neg hscope, Option.bind_some, Schema.perform,
      run_delete_sessions hkeyed (by rfl)]
    dsimp only
    rw [Schema.perform, run_insert_session hkeyed, sessionChecks_new, htenant,
      if_neg Bool.true_eq_false.mp]
    by_cases hchecks : (isNameText identity.actor && isNameText identity.tenantId) = true
    · rw [if_neg (by rw [hchecks]; exact Bool.true_eq_false.mp)]
      by_cases hmem : (newSession console identity token now).sessionHash ∈
          (db .operatorSessions).map OperatorSession.sessionHash
      · rw [if_pos hmem, if_neg (fun haccepts => haccepts.2 hmem)]
      · rw [if_neg hmem, if_pos ⟨accepts_iff.mpr ⟨hscope, hchecks⟩, hmem⟩]
        rfl
    · rw [if_pos (Bool.eq_false_iff.mpr hchecks),
        if_neg (fun haccepts => hchecks (accepts_iff.mp haccepts.1).2)]

theorem digest_ne (digest : Digest) : (digest : String) ≠ "" := by
  intro hempty
  have hdigest := digest.2
  rw [hempty] at hdigest
  exact absurd hdigest (by unfold IsDigest; decide)

theorem context_session (digest : Digest) (now : ℕ) :
    (Scope.session digest).context now = some { sessionHash := digest, now } := if_pos digest.2

theorem sessionIs_digest (digest : Digest) (now : ℕ) (sessionHash : String) :
    ({ sessionHash := digest, now } : DatabaseContext).sessionIs sessionHash =
      decide (sessionHash = digest) := by
  unfold DatabaseContext.sessionIs
  rw [nullif, if_neg (digest_ne digest)]
  exact decide_eq_decide.mpr (Option.some_inj.trans eq_comm)

/-- The rows of a reply are read back. -/
theorem head_ofRows (rows : List OperatorSession) :
    ((@Reply.ofRows _ (TableRow δ) .operatorSessions true rows).rows.head?.bind
      sessionIn) = rows.head? := by
  cases rows with
  | nil => rfl
  | cons row rows => rfl

/-- A request that shows a token changes nothing but the time the session was seen. -/
theorem authenticateSession_eq (hkeyed : Keyed (db .operatorSessions))
    (hchecked : ∀ row ∈ db .operatorSessions, sessionChecks row = true)
    (hdatabase : console.databaseUrl = true) {token : JsString}
    (htoken : ¬ (token.units = [] ∨ 128 < token.length)) (now : ℕ) :
    authenticateSession others console db token now =
      some (Function.update db .operatorSessions ((db .operatorSessions).map fun row =>
          if OperatorSession.isValid (console.sha256 token) now row &&
            row.lastSeenAt + fiveMinutes < now then touch now row else row),
        ((db .operatorSessions).find?
          (OperatorSession.isValid (console.sha256 token) now)).map identityOf) := by
  have hvalid : ∀ (rest : Bool) (row : OperatorSession),
      (decide (row.sessionHash = console.sha256 token) &&
        (OperatorSession.isValid (console.sha256 token) now row && rest)) =
          (OperatorSession.isValid (console.sha256 token) now row && rest) := by
    intro rest row
    unfold OperatorSession.isValid
    cases decide (row.sessionHash = console.sha256 token) with
    | false => rfl
    | true => rfl
  unfold authenticateSession withDatabaseContext
  rw [if_neg htoken, if_neg (not_not.mpr hdatabase)]
  dsimp only
  rw [context_session, Option.bind_some, Schema.perform, run_select_sessions]
  dsimp only
  obtain ⟨reply, hupdate⟩ := run_update_sessions hkeyed
    (fun row => OperatorSession.isValid (console.sha256 token) now row &&
      row.lastSeenAt + fiveMinutes < now) (touch now)
    (fun row hrow _ => hchecked row hrow) (fun _ => rfl)
  rw [Schema.perform, hupdate]
  dsimp only
  rw [Schema.perform, head_ofRows, List.head?_filter]
  have hfound : (fun row : OperatorSession => decide (row.sessionHash = console.sha256 token) &&
      OperatorSession.isValid (console.sha256 token) now row) =
        OperatorSession.isValid (console.sha256 token) now := by
    funext row
    have hrow := hvalid true row
    rw [Bool.and_true] at hrow
    exact hrow
  simp only [sessionIs_digest, hvalid, hfound]

/-- A sign-out changes the row of its session, if there is one. -/
theorem revokeOperatorSession_eq (hkeyed : Keyed (db .operatorSessions))
    (hchecked : ∀ row ∈ db .operatorSessions, sessionChecks row = true)
    (hdatabase : console.databaseUrl = true) {token : JsString} (htoken : token.units ≠ [])
    (now : ℕ) :
    revokeOperatorSession others console db token now =
      some (Function.update db .operatorSessions ((db .operatorSessions).map fun row =>
        if row.sessionHash = (console.sha256 token : String) then signOutAt now row else row),
          ()) := by
  unfold revokeOperatorSession withDatabaseContext
  rw [if_neg htoken, if_neg (not_not.mpr hdatabase)]
  dsimp only
  obtain ⟨reply, hupdate⟩ := run_update_sessions hkeyed
    (fun row => row.sessionHash = (console.sha256 token : String)) (signOutAt now)
    (fun row hrow _ => hchecked row hrow) (fun _ => rfl)
  rw [context_session, Option.bind_some, Schema.perform, hupdate]
  dsimp only
  rw [Schema.perform]
  simp only [sessionIs_digest, Bool.and_self, decide_eq_true_eq]

end

end BlackMonolith.Dashboard.OperatorSessions
