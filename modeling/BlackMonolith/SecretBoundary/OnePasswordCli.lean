import BlackMonolith.Library.Utf8
import BlackMonolith.SecretBoundary.Broker
import BlackMonolith.SecretBoundary.ConfigAgreement
import BlackMonolith.SecretBoundary.SecretReference

/-!
# The 1Password CLI provider

The provider starts the program, collects what it writes up to a bound and turns
it into a secret or an error. A call that panics has no result, which is what
`none` stands for; the broker's call then unwinds with it, before its event is
written.
-/
namespace BlackMonolith.SecretBoundary
open Library Text

structure SubprocessOutput where
  exitCode : Option ℤ
  success : Bool
  stdout : List UInt8
  stderr : List UInt8
deriving Repr, DecidableEq

/-- The arguments are the program, its arguments and environment, the timeout in
seconds and the bound on the output. -/
abbrev SubprocessRunner :=
  String → List String → List (String × String) → ℕ → ℕ → Except BoundaryError SubprocessOutput

/-- What becomes of the process. Its output is given in the pieces it is read in. -/
inductive Process
  | notSpawned (e : String)
  | pollFailed (e : String)
  | timedOut
  | exited (code : Option ℤ) (stdout stderr : List (List UInt8))
deriving Repr, DecidableEq

/-- Reading a pipe up to a bound; the flag says that there was more. -/
def drainPipe (limit : ℕ) : List UInt8 → List (List UInt8) → List UInt8 × Bool
  | buf, [] => (buf, false)
  | buf, chunk :: chunks =>
      if limit < buf.length + chunk.length then (buf ++ chunk.take (limit - buf.length), true)
      else drainPipe limit (buf ++ chunk) chunks

def stderrLimit : ℕ := 4096

def stdoutExceeded (maxOutputBytes : ℕ) : BoundaryError :=
  .providerError s!"1Password CLI stdout exceeded maximum allowed size of {maxOutputBytes} bytes"

/-- `StandardSubprocessRunner::run`, for one process. -/
def standardRunner (process : Process) : SubprocessRunner :=
  fun program _ _ timeout maxOutputBytes =>
    match process with
    | .notSpawned e => .error (.providerError
        s!"Failed to spawn 1Password CLI binary '{program}': {e}")
    | .pollFailed e => .error (.providerError s!"Error polling child process: {e}")
    | .timedOut => .error (.providerError
        s!"1Password CLI command timed out after {timeout} seconds and was terminated")
    | .exited code stdout stderr =>
        let (stdout, exceeded) := drainPipe (maxOutputBytes + 1) [] stdout
        if exceeded || maxOutputBytes < stdout.length then .error (stdoutExceeded maxOutputBytes)
        else .ok ⟨code, code == some 0, stdout, (drainPipe stderrLimit [] stderr).1⟩

def childEnvironmentAllowlist : List String :=
  ["PATH", "SYSTEMROOT", "SYSTEMDRIVE", "WINDIR", "USERPROFILE", "HOME", "APPDATA",
    "LOCALAPPDATA", "TEMP", "TMP", "USER", "TMPDIR", "XDG_CONFIG_HOME", "XDG_DATA_HOME"]

/-- A token of the host environment, under the name the message gives it. -/
def environmentToken (hostEnv : String → Option String) (what name : String) :
    Except BoundaryError String :=
  match hostEnv name with
  | none => .error (.configurationError
      s!"{what} environment variable '{name}' is not set in host environment")
  | some token =>
      if (trim token).isEmpty then
        .error (.configurationError s!"{what} environment variable '{name}' is empty")
      else .ok token

/-- `build_child_environment`. -/
def buildChildEnvironment (hostEnv : String → Option String) (config : OnePasswordCliConfig) :
    Except BoundaryError (List (String × String)) :=
  let envs := childEnvironmentAllowlist.filterMap fun key => (hostEnv key).map (key, ·)
  match config.authMode with
  | .systemAuth => .ok envs
  | .serviceAccount envVar =>
      (environmentToken hostEnv "Service account" envVar).map fun token =>
        envs ++ [("OP_SERVICE_ACCOUNT_TOKEN", token)]
  | .sessionToken account =>
      (environmentToken hostEnv "Session token" ("OP_SESSION_" ++ account)).map fun token =>
        envs ++ [("OP_SESSION_" ++ account, token)]

/-- One line end at the end does not belong to the secret. -/
def stripNewline (bytes : List UInt8) : List UInt8 :=
  if [13, 10].isSuffixOf bytes then bytes.take (bytes.length - 2)
  else if [10].isSuffixOf bytes then bytes.take (bytes.length - 1)
  else bytes

/-- `SecretString::from_bytes`. -/
def fromBytes (bytes : List UInt8) : Except BoundaryError String :=
  match Utf8.decode (stripNewline bytes) with
  | none => .error (.providerError "Secret bytes contained invalid UTF-8")
  | some cs => .ok (String.ofList cs)

/-- The `{:?}` of an exit code. -/
def debugExitCode : Option ℤ → String
  | none => "None"
  | some code => s!"Some({code})"

/-- What an error says of standard error. Cutting the text inside a character panics. -/
def boundedStderr (stderr : List UInt8) : Option String :=
  let trimmed := trimList (Utf8.decodeLossy stderr)
  (if 256 < (Utf8.encode trimmed).length then Utf8.takeBytes 256 trimmed else some trimmed).map
    String.ofList

/-- What the output of the program is turned into. -/
def outputSecret (config : OnePasswordCliConfig) (secretRef : String) (output : SubprocessOutput) :
    Option (Except BoundaryError String) :=
  if !output.success then
    (boundedStderr output.stderr).map fun bounded => .error (.providerError
      s!"1Password CLI error for ref '{secretRef}' (exit code {debugExitCode output.exitCode}): {bounded}")
  else if config.maxOutputBytes < output.stdout.length then
    some (.error (stdoutExceeded config.maxOutputBytes))
  else some (fromBytes output.stdout)

/-- `OnePasswordCliProvider::get_secret`. -/
def getSecret (runner : SubprocessRunner) (hostEnv : String → Option String)
    (config : OnePasswordCliConfig) (secretRef : String) : Option (Except BoundaryError String) :=
  if !config.enabled then
    some (.error (.providerError "1Password CLI provider is disabled by default in configuration"))
  else
    match validateSecretReference secretRef with
    | .error e => some (.error e)
    | .ok _ =>
        match config.account.elim (.ok ()) validateAccountIdentifier with
        | .error e => some (.error e)
        | .ok () =>
            let args := ["read", "--no-newline", secretRef] ++
              config.account.elim [] fun account => ["--account", account]
            match buildChildEnvironment hostEnv config with
            | .error e => some (.error e)
            | .ok envs =>
                match runner config.cliPath args envs config.timeoutSeconds
                  config.maxOutputBytes with
                | .error e => some (.error e)
                | .ok output => outputSecret config secretRef output

/-- `SecretBoundaryBroker::execute` over a provider that may panic. -/
def SecretBoundaryBroker.executeUnwinding (broker : SecretBoundaryBroker)
    (getSecret : String → Option (Except BoundaryError String)) (m : Moment)
    (request : OperationRequest) : Option Outcome :=
  match evaluate broker.platform broker.rules request m.now with
  | .error _ => some (broker.execute m request)
  | .ok rule => (getSecret rule.approvedCredentialRef).map fun answer =>
      SecretBoundaryBroker.execute { broker with getSecret := fun _ => answer } m request

/-! ## One call -/

/-- An enabled provider as it was built, a valid reference, and an environment that
resolves. -/
structure Ready (crates : Crates) (hostEnv : String → Option String)
    (config : OnePasswordCliConfig) (secretRef : String) : Prop where
  built : ∃ provider, newOnePasswordCli crates config = .ok provider
  enabled : config.enabled = true
  valid : ∃ parsed, validateSecretReference secretRef = .ok parsed
  resolved : ∃ envs, buildChildEnvironment hostEnv config = .ok envs

/-- The text an error takes from standard error is cut inside a character. -/
def CutsCharacter (config : OnePasswordCliConfig) : Process → Prop
  | .exited code stdout stderr =>
      let text := trimList (Utf8.decodeLossy (stderr.flatten.take stderrLimit))
      code ≠ some 0 ∧ stdout.flatten.length ≤ config.maxOutputBytes ∧
        256 < (Utf8.encode text).length ∧
        ∀ front, front <+: text → (Utf8.encode front).length ≠ 256
  | _ => False

/-- The same process, but for the bytes of its standard output: their number and
whether they are text. -/
inductive Alike : Process → Process → Prop
  | same (process : Process) : Alike process process
  | exited (code : Option ℤ) {stdout stdout' : List (List UInt8)} (stderr : List (List UInt8))
      (length : stdout.flatten.length = stdout'.flatten.length)
      (valid : (Utf8.decode stdout.flatten).isSome = (Utf8.decode stdout'.flatten).isSome) :
      Alike (.exited code stdout stderr) (.exited code stdout' stderr)

/-- The call comes back with the secret or a provider error, the error reads no byte
of standard output, and a broker leaves its one event. -/
structure Reported (hostEnv : String → Option String) (config : OnePasswordCliConfig)
    (secretRef : String) (process : Process) : Prop where
  returns : (∃ secret stdout stderr, process = .exited (some 0) stdout stderr ∧
      Text.bytes secret = stripNewline stdout.flatten ∧
      getSecret (standardRunner process) hostEnv config secretRef = some (.ok secret)) ∨
    ∃ message, getSecret (standardRunner process) hostEnv config secretRef =
      some (.error (.providerError message))
  blind : ∀ process' e, Alike process process' →
    getSecret (standardRunner process) hostEnv config secretRef = some (.error e) →
    getSecret (standardRunner process') hostEnv config secretRef = some (.error e)
  audited : ∀ (broker : SecretBoundaryBroker) m request rule,
    evaluate broker.platform broker.rules request m.now = .ok rule →
    rule.approvedCredentialRef = secretRef →
    ∃ outcome event, broker.executeUnwinding
      (getSecret (standardRunner process) hostEnv config) m request = some outcome ∧
      outcome.events = [event]

theorem drainPipe_eq (limit : ℕ) (buf : List UInt8) (chunks : List (List UInt8))
    (h : buf.length ≤ limit) :
    drainPipe limit buf chunks =
      ((buf ++ chunks.flatten).take limit, decide (limit < (buf ++ chunks.flatten).length)) := by
  induction chunks generalizing buf with
  | nil => simp [drainPipe, List.take_of_length_le h, h]
  | cons chunk chunks ih =>
      rw [drainPipe]
      split_ifs with hmore
      · simp only [List.flatten_cons, List.take_append, List.length_append, Prod.mk.injEq,
          List.take_of_length_le h]
        have hrest : limit - buf.length - chunk.length = 0 := by omega
        refine ⟨by simp [hrest], ?_⟩
        rw [eq_comm, decide_eq_true_eq]
        omega
      · rw [ih (buf ++ chunk) (by rw [List.length_append]; omega), List.flatten_cons,
          List.append_assoc]

theorem standardRunner_exited (code : Option ℤ) (stdout stderr : List (List UInt8))
    (program : String) (args : List String) (envs : List (String × String))
    (timeout maxOutputBytes : ℕ) :
    standardRunner (.exited code stdout stderr) program args envs timeout maxOutputBytes =
      if maxOutputBytes < stdout.flatten.length then .error (stdoutExceeded maxOutputBytes)
      else .ok ⟨code, code == some 0, stdout.flatten, stderr.flatten.take stderrLimit⟩ := by
  simp only [standardRunner, drainPipe_eq _ [] _ (Nat.zero_le _), List.nil_append,
    List.length_take]
  by_cases hlong : maxOutputBytes < stdout.flatten.length
  · have hreads : maxOutputBytes < min (maxOutputBytes + 1) stdout.flatten.length := by omega
    simp only [hreads, hlong, decide_true, Bool.or_true, if_true]
  · have hreads : ¬maxOutputBytes < min (maxOutputBytes + 1) stdout.flatten.length := by omega
    have hfits : ¬maxOutputBytes + 1 < stdout.flatten.length := by omega
    simp only [hreads, hfits, hlong, decide_false, Bool.or_false, Bool.false_eq_true, if_false]
    rw [List.take_of_length_le (by omega)]

theorem stripNewline_decodes_iff (bytes : List UInt8) :
    (Utf8.decode (stripNewline bytes)).isSome = true ↔ (Utf8.decode bytes).isSome = true := by
  have hfeed (bytes : List UInt8) := Utf8.decode_concat_isSome_iff
    (show String.utf8EncodeChar '\n' = [10] by decide) (by decide) bytes
  have hreturn (bytes : List UInt8) := Utf8.decode_concat_isSome_iff
    (show String.utf8EncodeChar '\r' = [13] by decide) (by decide) bytes
  unfold stripNewline
  split_ifs with hcrlf hlf
  · obtain ⟨front, rfl⟩ := List.isSuffixOf_iff_suffix.mp hcrlf
    have hsplit : front ++ [13, 10] = (front ++ [13]) ++ [10] := by simp
    simp only [List.length_append, List.length_cons, List.length_nil, Nat.add_sub_cancel,
      List.take_left']
    rw [hsplit, hfeed, hreturn]
  · obtain ⟨front, rfl⟩ := List.isSuffixOf_iff_suffix.mp hlf
    simp only [List.length_append, List.length_cons, List.length_nil, Nat.add_sub_cancel,
      List.take_left']
    exact (hfeed front).symm
  · rfl

theorem boundedStderr_eq_none_iff (stderr : List UInt8) :
    boundedStderr stderr = none ↔
      256 < (Utf8.encode (trimList (Utf8.decodeLossy stderr))).length ∧
        ∀ front, front <+: trimList (Utf8.decodeLossy stderr) →
          (Utf8.encode front).length ≠ 256 := by
  simp only [boundedStderr, Option.map_eq_none_iff]
  split_ifs with hlong
  · rw [Option.eq_none_iff_forall_ne_some]
    simp [hlong, Utf8.takeBytes_eq_some_iff]
  · simp [hlong]

theorem fromBytes_error_iff (bytes : List UInt8) (e : BoundaryError) :
    fromBytes bytes = .error e ↔ (Utf8.decode bytes).isSome = false ∧
      e = .providerError "Secret bytes contained invalid UTF-8" := by
  rw [← Bool.not_eq_true, ← stripNewline_decodes_iff, fromBytes]
  cases Utf8.decode (stripNewline bytes) with
  | none => simp [eq_comm]
  | some cs => simp

/-- A call of the broker that comes back has written one event. -/
theorem execute_event (broker : SecretBoundaryBroker) (m : Moment) (request : OperationRequest) :
    ∃ event, (broker.execute m request).events = [event] := by
  unfold SecretBoundaryBroker.execute
  dsimp only
  split
  · exact ⟨_, rfl⟩
  · split
    · exact ⟨_, rfl⟩
    · split
      all_goals exact ⟨_, rfl⟩

theorem account_valid {crates : Crates} {config : OnePasswordCliConfig} {provider : SecretProvider}
    (h : newOnePasswordCli crates config = .ok provider) :
    config.account.elim (.ok ()) validateAccountIdentifier = .ok () := by
  cases haccount : config.account with
  | none => rfl
  | some account =>
      rw [Option.elim_some]
      cases hvalid : validateAccountIdentifier account with
      | ok => rfl
      | error e =>
          simp only [newOnePasswordCli, haccount, hvalid, bind, Except.bind, throw, throwThe,
            MonadExceptOf.throw] at h
          split at h
          · cases h
          · split_ifs at h

section
variable {crates : Crates} {hostEnv : String → Option String} {config : OnePasswordCliConfig}
  {secretRef : String} (ready : Ready crates hostEnv config secretRef)
include ready

/-- A call of a ready provider is a run of the program and the reading of its output. -/
theorem getSecret_ready (process : Process) :
    getSecret (standardRunner process) hostEnv config secretRef =
      match standardRunner process config.cliPath [] [] config.timeoutSeconds
        config.maxOutputBytes with
      | .error e => some (.error e)
      | .ok output => outputSecret config secretRef output := by
  obtain ⟨provider, hbuilt⟩ := ready.built
  obtain ⟨parsed, hvalid⟩ := ready.valid
  obtain ⟨envs, henvs⟩ := ready.resolved
  unfold getSecret
  simp only [ready.enabled, hvalid, account_valid hbuilt, henvs, Bool.not_true, Bool.false_eq_true,
    if_false]
  rfl

theorem getSecret_exited (code : Option ℤ) (stdout stderr : List (List UInt8)) :
    getSecret (standardRunner (.exited code stdout stderr)) hostEnv config secretRef =
      if config.maxOutputBytes < stdout.flatten.length then
        some (.error (stdoutExceeded config.maxOutputBytes))
      else if code = some 0 then some (fromBytes stdout.flatten)
      else (boundedStderr (stderr.flatten.take stderrLimit)).map fun bounded =>
        .error (.providerError
          s!"1Password CLI error for ref '{secretRef}' (exit code {debugExitCode code}): {bounded}") := by
  rw [getSecret_ready ready, standardRunner_exited]
  by_cases hlong : config.maxOutputBytes < stdout.flatten.length
  · rw [if_pos hlong, if_pos hlong]
  · rw [if_neg hlong, if_neg hlong]
    by_cases hcode : code = some 0
    · simp only [outputSecret, hcode, beq_self_eq_true, Bool.not_true, Bool.false_eq_true,
        if_false, if_true, if_neg hlong]
    · simp only [outputSecret, beq_eq_false_iff_ne.mpr hcode, Bool.not_false, if_true, if_neg hcode]

/-- The call panics where it cuts a character, and only there. -/
theorem getSecret_eq_none_iff (process : Process) :
    getSecret (standardRunner process) hostEnv config secretRef = none ↔
      CutsCharacter config process := by
  cases process with
  | exited code stdout stderr =>
      rw [getSecret_exited ready, CutsCharacter]
      split_ifs with hlong hcode
      · simp [-List.length_flatten, Nat.not_le.mpr hlong]
      · simp [hcode]
      · rw [Option.map_eq_none_iff, boundedStderr_eq_none_iff]
        simp [-List.length_flatten, hcode, Nat.not_lt.mp hlong]
  | _ => simp [getSecret_ready ready, standardRunner, CutsCharacter]

theorem returns_of_not_cuts {process : Process} (hcuts : ¬CutsCharacter config process) :
    (∃ secret stdout stderr, process = .exited (some 0) stdout stderr ∧
      Text.bytes secret = stripNewline stdout.flatten ∧
      getSecret (standardRunner process) hostEnv config secretRef = some (.ok secret)) ∨
    ∃ message, getSecret (standardRunner process) hostEnv config secretRef =
      some (.error (.providerError message)) := by
  cases process with
  | exited code stdout stderr =>
      have hreturns := mt (getSecret_eq_none_iff ready _).mp hcuts
      rw [getSecret_exited ready] at hreturns ⊢
      split_ifs with hlong hcode
      · exact .inr ⟨_, rfl⟩
      · cases hdecode : Utf8.decode (stripNewline stdout.flatten) with
        | none => exact .inr ⟨_, by rw [fromBytes, hdecode]⟩
        | some cs =>
            have hbytes : Text.bytes (String.ofList cs) = stripNewline stdout.flatten := by
              rw [Text.bytes, String.toList_ofList]
              exact (Utf8.decode_eq_some_iff.mp hdecode).symm
            exact .inl ⟨String.ofList cs, stdout, stderr, by rw [hcode], hbytes,
              by rw [fromBytes, hdecode]⟩
      · rw [if_neg hlong, if_neg hcode] at hreturns
        obtain ⟨answer, hanswer⟩ := Option.ne_none_iff_exists'.mp hreturns
        obtain ⟨bounded, -, rfl⟩ := Option.map_eq_some_iff.mp hanswer
        exact .inr ⟨_, hanswer⟩
  | _ => exact .inr ⟨_, getSecret_ready ready _⟩

theorem error_of_alike {process process' : Process} {e : BoundaryError}
    (halike : Alike process process')
    (h : getSecret (standardRunner process) hostEnv config secretRef = some (.error e)) :
    getSecret (standardRunner process') hostEnv config secretRef = some (.error e) := by
  cases halike with
  | same => exact h
  | exited code stderr hlength hvalid =>
      rw [getSecret_exited ready] at h ⊢
      rw [← hlength]
      split_ifs at h ⊢
      · exact h
      · have hinvalid := (fromBytes_error_iff _ _).mp (Option.some.inj h)
        exact congrArg some ((fromBytes_error_iff _ _).mpr ⟨hvalid ▸ hinvalid.1, hinvalid.2⟩)
      · exact h

/-- Failures of the program are reported unless the text of the error is cut inside a
character. -/
theorem getSecret_reported_iff (process : Process) :
    Reported hostEnv config secretRef process ↔ ¬CutsCharacter config process := by
  constructor
  · intro hreported hcuts
    have hnone := (getSecret_eq_none_iff ready process).mpr hcuts
    rcases hreported.returns with ⟨_, _, _, -, -, hsome⟩ | ⟨_, hsome⟩
    all_goals
      rw [hnone] at hsome
      cases hsome
  · intro hcuts
    have hreturns := returns_of_not_cuts ready hcuts
    refine ⟨hreturns, fun process' e halike => error_of_alike ready halike, ?_⟩
    rintro broker m request rule hrule rfl
    obtain ⟨answer, hanswer⟩ := Option.ne_none_iff_exists'.mp
      (mt (getSecret_eq_none_iff ready process).mp hcuts)
    obtain ⟨event, hevent⟩ :=
      execute_event { broker with getSecret := fun _ => answer } m request
    refine ⟨_, event, ?_, hevent⟩
    simp only [SecretBoundaryBroker.executeUnwinding, hrule, hanswer, Option.map_some]

end

def enabledCli : OnePasswordCliConfig := { enabled := true }

theorem enabledCli_ready :
    Ready weatherCrates (fun _ => none) enabledCli "op://vault/item/field" where
  built := ⟨.onePasswordCli enabledCli, rfl⟩
  enabled := rfl
  valid := ⟨⟨"op://vault/item/field", "vault", "item", none, "field"⟩, by decide +kernel⟩
  resolved := ⟨[], rfl⟩

/-- A program that fails with part of a secret on one stream and `no é` on the other. -/
def deniedFailure : Process :=
  .exited (some 1) [[115, 51]] [[110, 111], [32, 0xC3], [0xA9, 10]]

theorem getSecret_reported_denied :
    Reported (fun _ => none) enabledCli "op://vault/item/field" deniedFailure :=
  (getSecret_reported_iff enabledCli_ready _).mpr fun h => absurd h.2.2.1 (by decide)

/-- A program that fails with 255 letters and an accented one. -/
def accentedFailure : Process :=
  .exited (some 1) [] [List.replicate 255 97 ++ [0xC3, 0xA9]]

theorem accented_failure_not_reported :
    Ready weatherCrates (fun _ => none) enabledCli "op://vault/item/field" ∧
      ¬Reported (fun _ => none) enabledCli "op://vault/item/field" accentedFailure := by
  have hpanics : (getSecret (standardRunner accentedFailure) (fun _ => none) enabledCli
      "op://vault/item/field").isNone = true := by decide +kernel
  refine ⟨enabledCli_ready, fun hreported => ?_⟩
  rcases hreported.returns with ⟨_, _, _, -, -, hsome⟩ | ⟨_, hsome⟩
  all_goals
    rw [hsome] at hpanics
    cases hpanics

end BlackMonolith.SecretBoundary
