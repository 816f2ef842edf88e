import BlackMonolith.Baseline.Interference
import BlackMonolith.Baseline.ListingSafety
import BlackMonolith.Library.Unwinding

/-!
# The isolation of wrapped servers

The launcher gives all shields one baseline, and the baseline does not say whose
tools it holds. As long as no other server of the file lists a name of one
server's tools, what the agent receives from that server is what it would
receive whatever the others list; when two servers list one name, the second is
served, or measured against, the schema of the first.
-/
namespace BlackMonolith.Baseline
open Json JsonRpc Library Launcher

section
variable {ι δ : Type} [DecidableEq ι] [DecidableEq δ] {fleet : Fleet ι} {fmt : Format δ} {j : ι}
  {names : Set String} {sys : FleetState ι δ} {event : FleetEvent ι}

/-- The file can be loaded, and the shields that keep it are told the names by
the server they belong to only. -/
def Apart (fleet : Fleet ι) (fmt : Format δ) (j : ι) (names : Set String) (sys : FleetState ι δ)
    (event : FleetEvent ι) : Prop :=
  fleet.path event.server = fleet.path j →
    (load fmt (fleet.hmac event.server) (sys.files (fleet.path j))).isOk ∧
      ∀ item ∈ event.items fleet, item.isWithheld = false → (item.name ∈ names ↔ event.server = j)

/-- What a server owns under the names, in the file and in its store. -/
def FleetState.owned (fleet : Fleet ι) (j : ι) (names : Set String) (sys : FleetState ι δ) :
    Excerpt names × Option (StoreView names) :=
  ((recorded (sys.files (fleet.path j))).excerpt names, (sys.stores j).map (·.viewed names))

/-- The names are in the hands of one server. -/
structure Partitioned (fleet : Fleet ι) (fmt : Format δ) (j : ι) (names : Set String)
    (sys : FleetState ι δ) : Prop where
  own : ∀ store, sys.stores j = some store →
    Own ((fleet.cfg j).firstContact = .approve) ((recorded (sys.files (fleet.path j))).excerpt names)
      (store.viewed names)
  foreign : ∀ i, i ≠ j → fleet.path i = fleet.path j → ∀ store, sys.stores i = some store →
    Foreign fmt names (sys.files (fleet.path j)) store
  unseen : ∀ i, fleet.path i = fleet.path j → ∀ store, sys.stores i = some store →
    sys.files (fleet.path j) = none → store.diskDigest = none

omit [DecidableEq ι] [DecidableEq δ] in
theorem Partitioned.init (files : String → Option Contents) :
    Partitioned fleet fmt j names { files } := by
  refine ⟨?_, ?_, ?_⟩
  · intro store hstore
    cases hstore
  · intro i _ _ store hstore
    cases hstore
  · intro i _ store hstore
    cases hstore

/-! ## A start -/

theorem loaded_of_start (sys : FleetState ι δ) {server : ι} {store : BaselineStore δ}
    (h : (fleetStep fleet fmt sys (.start server)).1.stores server = some store) :
    load fmt (fleet.hmac server) (sys.files (fleet.path server)) = .ok store := by
  have hloaded : (load fmt (fleet.hmac server) (sys.files (fleet.path server))).toOption =
      some store := (Function.update_self server _ sys.stores).symm.trans h
  cases hload : load fmt (fleet.hmac server) (sys.files (fleet.path server)) with
  | error error =>
      rw [hload] at hloaded
      cases hloaded
  | ok loaded =>
      rw [hload] at hloaded
      cases hloaded
      rfl

omit [DecidableEq δ] in
theorem Own.of_load {approving : Prop} {hmac : String → Except String String} {disk : Option Contents}
    {store : BaselineStore δ} (h : load fmt hmac disk = .ok store) :
    Own approving ((recorded disk).excerpt names) (store.viewed names) := by
  refine .of_eq (UpToDate.of_load h).excerpt ?_
  intro n hn
  have hempty : store.unpersisted = ∅ := by
    rcases load_ok h with ⟨-, hstore⟩ | ⟨_, -, -, hempty, -⟩
    · rw [hstore]
    · exact hempty
  have hmem : n.1 ∈ store.unpersisted := hn
  rw [hempty] at hmem
  exact Finset.notMem_empty _ hmem

theorem Partitioned.start (hdigest : Function.Injective fmt.digest)
    (h : Partitioned fleet fmt j names sys) (server : ι) :
    Partitioned fleet fmt j names (fleetStep fleet fmt sys (.start server)).1 := by
  refine ⟨?_, ?_, ?_⟩
  · intro store hstore
    by_cases heq : j = server
    · subst heq
      exact .of_load (loaded_of_start sys hstore)
    · exact h.own store ((Function.update_of_ne heq _ _).symm.trans hstore)
  · intro i hi hpath store hstore
    by_cases heq : i = server
    · subst heq
      have hload := loaded_of_start sys hstore
      rw [hpath] at hload
      exact (UpToDate.of_load hload).foreign hdigest
    · exact h.foreign i hi hpath store ((Function.update_of_ne heq _ _).symm.trans hstore)
  · intro i hpath store hstore hnone
    by_cases heq : i = server
    · subst heq
      have hload := loaded_of_start sys hstore
      rw [hpath] at hload
      have hseen : store.diskDigest = (sys.files (fleet.path j)).map fmt.digest :=
        (@UpToDate.of_load Set.univ _ _ _ _ _ hload).digest
      rw [hseen, show sys.files (fleet.path j) = none from hnone]
      rfl
    · exact h.unseen i hpath store ((Function.update_of_ne heq _ _).symm.trans hstore) hnone

/-! ## An answer -/

section
variable {server : ι} {env : Surroundings} {msg : JsonRpcMessage} {store : BaselineStore δ}

/-- The analysis of an answer. -/
def answer (fleet : Fleet ι) (fmt : Format δ) (sys : FleetState ι δ) (server : ι)
    (env : Surroundings) (msg : JsonRpcMessage) (store : BaselineStore δ) : Analysis δ :=
  analyzeToolsListWithBoundary (fleet.cfg server) fmt (fleet.hmac server) env msg store
    (sys.files (fleet.path server))

theorem respond_of_none (h : sys.stores server = none) :
    fleetStep fleet fmt sys (.respond server env msg) = (sys, none) := by
  simp only [fleetStep, h]

theorem respond_of_some (h : sys.stores server = some store) :
    fleetStep fleet fmt sys (.respond server env msg) =
      ({ files := Function.update sys.files (fleet.path server)
           (answer fleet fmt sys server env msg store).disk
         stores := Function.update sys.stores server
           (some (answer fleet fmt sys server env msg store).store) },
        some ((answer fleet fmt sys server env msg store).delivered msg)) := by
  simp only [fleetStep, h, answer]

theorem respond_file (h : sys.stores server = some store) :
    (fleetStep fleet fmt sys (.respond server env msg)).1.files (fleet.path server) =
      (answer fleet fmt sys server env msg store).disk := by
  rw [respond_of_some h]
  exact Function.update_self _ _ _

theorem respond_store (h : sys.stores server = some store) :
    (fleetStep fleet fmt sys (.respond server env msg)).1.stores server =
      some (answer fleet fmt sys server env msg store).store := by
  rw [respond_of_some h]
  exact Function.update_self _ _ _

theorem respond_rest (h : sys.stores server = some store) {i : ι} (hi : i ≠ server) :
    (fleetStep fleet fmt sys (.respond server env msg)).1.stores i = sys.stores i := by
  rw [respond_of_some h]
  exact Function.update_of_ne hi _ _

omit [DecidableEq δ] in
/-- An answer through another file. -/
theorem Partitioned.elsewhere (h : Partitioned fleet fmt j names sys)
    (hpath : fleet.path server ≠ fleet.path j) (disk : Option Contents) (written : BaselineStore δ) :
    let sys' : FleetState ι δ :=
      { files := Function.update sys.files (fleet.path server) disk
        stores := Function.update sys.stores server (some written) }
    Partitioned fleet fmt j names sys' ∧ sys'.owned fleet j names = sys.owned fleet j names := by
  intro sys'
  have hfile : sys'.files (fleet.path j) = sys.files (fleet.path j) :=
    Function.update_of_ne (Ne.symm hpath) _ _
  have hstore : ∀ i, fleet.path i = fleet.path j → sys'.stores i = sys.stores i := by
    intro i hi
    refine Function.update_of_ne ?_ _ _
    intro heq
    exact hpath (heq ▸ hi)
  constructor
  · refine ⟨?_, ?_, ?_⟩
    · intro store hheld
      rw [hfile]
      exact h.own store ((hstore j rfl).symm.trans hheld)
    · intro i hi hsame store hheld
      rw [hfile]
      exact h.foreign i hi hsame store ((hstore i hsame).symm.trans hheld)
    · intro i hsame store hheld hnone
      exact h.unseen i hsame store ((hstore i hsame).symm.trans hheld) (hfile.symm.trans hnone)
  · unfold FleetState.owned
    rw [hfile, hstore j rfl]

/-- An answer of another server through the same file. -/
theorem Partitioned.byOther (hdigest : Function.Injective fmt.digest)
    (h : Partitioned fleet fmt j names sys) (hstore : sys.stores server = some store)
    (hserver : server ≠ j) (hpath : fleet.path server = fleet.path j)
    (hapart : Apart fleet fmt j names sys (.respond server env msg)) :
    let sys' := (fleetStep fleet fmt sys (.respond server env msg)).1
    Partitioned fleet fmt j names sys' ∧ sys'.owned fleet j names = sys.owned fleet j names := by
  intro sys'
  obtain ⟨hloads, hitems⟩ := hapart hpath
  have hforeign := h.foreign server hserver hpath store hstore
  have hunseen := h.unseen server hpath store hstore
  rw [← hpath] at hloads hforeign hunseen
  obtain ⟨hexcerpt, hafter⟩ := @Foreign.analysis _ _ (fleet.cfg server) _ _ _ _ _ env msg hdigest
    hforeign hloads hunseen
    (fun item hitem hserved hn => hserver ((hitems item hitem hserved).mp hn))
  have hfile : sys'.files (fleet.path j) = (answer fleet fmt sys server env msg store).disk := by
    rw [← hpath]
    exact respond_file hstore
  have hsame : (recorded (sys'.files (fleet.path j))).excerpt names =
      (recorded (sys.files (fleet.path j))).excerpt names := by
    rw [hfile, ← hpath]
    exact hexcerpt
  constructor
  · refine ⟨?_, ?_, ?_⟩
    · intro own hown
      rw [hsame]
      exact h.own own ((respond_rest hstore (Ne.symm hserver)).symm.trans hown)
    · intro i hi hipath held hheld
      by_cases heq : i = server
      · subst heq
        cases Option.some.inj ((respond_store hstore).symm.trans hheld)
        rw [hfile]
        exact hafter
      · exact (h.foreign i hi hipath held ((respond_rest hstore heq).symm.trans hheld)).mono
          (.of_eq hsame.symm)
    · intro i hipath held hheld hnone
      rw [hfile] at hnone
      by_cases heq : i = server
      · subst heq
        cases Option.some.inj ((respond_store hstore).symm.trans hheld)
        exact analysis_unseen hunseen hnone
      · refine h.unseen i hipath held ((respond_rest hstore heq).symm.trans hheld) ?_
        rw [← hpath]
        exact analysis_disk_none hnone
  · unfold FleetState.owned
    rw [hsame, respond_rest hstore (Ne.symm hserver)]

/-- An answer of the server itself. -/
theorem Partitioned.bySelf (h : Partitioned fleet fmt j names sys) (hstore : sys.stores j = some store)
    (hapart : Apart fleet fmt j names sys (.respond j env msg)) :
    Partitioned fleet fmt j names (fleetStep fleet fmt sys (.respond j env msg)).1 := by
  obtain ⟨-, hitems⟩ := hapart rfl
  have hunseen := h.unseen j rfl store hstore
  obtain ⟨hown, hwithin⟩ := @Own.analysis _ _ (fleet.cfg j) fmt (fleet.hmac j) _ _ _ env msg
    (h.own store hstore) hunseen (fun item hitem hserved => (hitems item hitem hserved).mpr rfl)
  refine ⟨?_, ?_, ?_⟩
  · intro own hheld
    cases Option.some.inj ((respond_store hstore).symm.trans hheld)
    rw [respond_file hstore]
    exact hown
  · intro i hi hipath held hheld
    rw [respond_file hstore]
    exact (h.foreign i hi hipath held ((respond_rest hstore hi).symm.trans hheld)).mono hwithin
  · intro i hipath held hheld hnone
    rw [respond_file hstore] at hnone
    by_cases heq : i = j
    · subst heq
      cases Option.some.inj ((respond_store hstore).symm.trans hheld)
      exact analysis_unseen hunseen hnone
    · exact h.unseen i hipath held ((respond_rest hstore heq).symm.trans hheld)
        (analysis_disk_none hnone)

end

/-! ## Runs -/

theorem partitioned_step (hdigest : Function.Injective fmt.digest)
    (h : Partitioned fleet fmt j names sys) (hapart : Apart fleet fmt j names sys event) :
    Partitioned fleet fmt j names (fleetStep fleet fmt sys event).1 := by
  cases event with
  | start server => exact h.start hdigest server
  | respond server env msg =>
      cases hstore : sys.stores server with
      | none =>
          rw [respond_of_none hstore]
          exact h
      | some store =>
          by_cases hpath : fleet.path server = fleet.path j
          · by_cases hserver : server = j
            · subst hserver
              exact h.bySelf hstore hapart
            · exact (h.byOther hdigest hstore hserver hpath hapart).1
          · rw [respond_of_some hstore]
            exact (h.elsewhere hpath _ _).1

/-- The events of the others leave what the server owns alone. -/
theorem owned_of_other (hdigest : Function.Injective fmt.digest)
    (h : Partitioned fleet fmt j names sys) (hapart : Apart fleet fmt j names sys event)
    (hother : event.server ≠ j) :
    (fleetStep fleet fmt sys event).1.owned fleet j names = sys.owned fleet j names := by
  cases event with
  | start server =>
      unfold FleetState.owned
      have hrest : (fleetStep fleet fmt sys (.start server)).1.stores j = sys.stores j :=
        Function.update_of_ne (Ne.symm hother) _ _
      rw [hrest]
      rfl
  | respond server env msg =>
      cases hstore : sys.stores server with
      | none => rw [respond_of_none hstore]
      | some store =>
          by_cases hpath : fleet.path server = fleet.path j
          · exact (h.byOther hdigest hstore hother hpath hapart).2
          · rw [respond_of_some hstore]
            exact (h.elsewhere hpath _ _).2

theorem start_owned
    (h : (load fmt (fleet.hmac j) (sys.files (fleet.path j)) : Except LoadError (BaselineStore δ)).isOk) :
    (fleetStep fleet fmt sys (.start j)).1.owned fleet j names =
      ((recorded (sys.files (fleet.path j))).excerpt names,
        some ⟨(recorded (sys.files (fleet.path j))).excerpt names, fun _ => False, false⟩) := by
  cases hload : (load fmt (fleet.hmac j) (sys.files (fleet.path j)) :
      Except LoadError (BaselineStore δ)) with
  | error error =>
      rw [hload] at h
      cases h
  | ok store =>
      have hstore : (fleetStep fleet fmt sys (.start j)).1.stores j = some store :=
        (Function.update_self _ _ _).trans (congrArg Except.toOption hload)
      have hview : store.viewed names =
          ⟨(recorded (sys.files (fleet.path j))).excerpt names, fun _ => False, false⟩ := by
        have hfresh : store.unpersisted = ∅ ∧ store.dirty = false := by
          rcases load_ok hload with ⟨-, hempty⟩ | ⟨_, -, hdirty, hempty, -⟩
          · rw [hempty]
            exact ⟨rfl, rfl⟩
          · exact ⟨hempty, hdirty⟩
        unfold BaselineStore.viewed
        rw [(UpToDate.of_load hload).excerpt, hfresh.1, hfresh.2]
        congr 1
        funext n
        exact eq_false (Finset.notMem_empty n.1)
      unfold FleetState.owned
      rw [hstore, Option.map_some, hview]
      rfl

/-- An event of the server answers, and changes what the server owns, according
to what it owns. -/
theorem owned_of_self {sys' : FleetState ι δ} (h : Partitioned fleet fmt j names sys)
    (h' : Partitioned fleet fmt j names sys') (hapart : Apart fleet fmt j names sys event)
    (hapart' : Apart fleet fmt j names sys' event) (hself : event.server = j)
    (howned : sys.owned fleet j names = sys'.owned fleet j names) :
    (fleetStep fleet fmt sys event).1.owned fleet j names =
        (fleetStep fleet fmt sys' event).1.owned fleet j names ∧
      (fleetStep fleet fmt sys event).2 = (fleetStep fleet fmt sys' event).2 := by
  obtain ⟨hdisk, hview⟩ := Prod.mk.inj howned
  cases event with
  | start server =>
      have hserver : server = j := hself
      subst hserver
      refine ⟨?_, rfl⟩
      rw [@start_owned _ _ _ _ fleet fmt server names sys (hapart rfl).1,
        @start_owned _ _ _ _ fleet fmt server names sys' (hapart' rfl).1, hdisk]
  | respond server env msg =>
      have hserver : server = j := hself
      subst hserver
      cases hstore : sys.stores server with
      | none =>
          rw [hstore] at hview
          have hstore' : sys'.stores server = none := Option.map_eq_none_iff.mp hview.symm
          rw [respond_of_none hstore, respond_of_none hstore']
          exact ⟨howned, rfl⟩
      | some store =>
          rw [hstore] at hview
          obtain ⟨store', hstore', hviewed⟩ := Option.map_eq_some_iff.mp hview.symm
          obtain ⟨hdelivered, hafter, hfile⟩ := @analysis_viewed _ _ (fleet.cfg server) fmt
            (fleet.hmac server) _ _ _ _ env msg _ hviewed hdisk.symm (h.own store hstore)
            (h.unseen server rfl store hstore) (h'.unseen server rfl store' hstore')
            (fun item hitem hserved => ((hapart rfl).2 item hitem hserved).mpr rfl)
          constructor
          · unfold FleetState.owned
            rw [respond_file hstore, respond_file hstore', respond_store hstore,
              respond_store hstore']
            exact Prod.ext hfile.symm (congrArg some hafter.symm)
          · rw [respond_of_some hstore, respond_of_some hstore']
            exact congrArg some hdelivered.symm

def ofServer (j : ι) (event : FleetEvent ι) : Bool := event.server = j

theorem fleet_unwinding (hdigest : Function.Injective fmt.digest) :
    Unwinding (fleetStep fleet fmt) (Apart fleet fmt j names) (Partitioned fleet fmt j names)
      (ofServer j) (FleetState.owned fleet j names) where
  invariant _ _ h hapart := partitioned_step hdigest h hapart
  others _ _ h hapart hother := owned_of_other hdigest h hapart (of_decide_eq_false hother)
  own _ _ _ h h' hapart hapart' hself howned :=
    owned_of_self h h' hapart hapart' (of_decide_eq_true hself) howned

end

/-- The shields of a launch keep one file. While no shield of that file but one
server's is told a name of its tools, and the file can be loaded, two runs in which
that server is started and answers alike give its agent the same messages, whatever
the other servers list and when. -/
theorem wrapped_servers_isolated {δ : Type} [DecidableEq δ] {fmt : Format δ}
    (hdigest : Function.Injective fmt.digest) (host : Host) (launch : Launch)
    (pyStr : Value → String) (servers : InsertionMap String Value)
    (shield vectorAnchorUrl python script : String) :
    let config := buildMcpConfig pyStr servers (some shield) (buildShieldEnv launch) vectorAnchorUrl
      python script
    let fleet := host.fleet config
    (∀ server, fleet.path server = launch.workdir ++ "/mcp-shield-baseline.json") ∧
    ∀ (j : Shielded config) (names : Set String) (files : String → Option Contents)
      (events events' : List (FleetEvent (Shielded config))) (sys sys' : FleetState _ δ),
      Path (advance (fleetStep fleet fmt)) (Apart fleet fmt j names) { files } events sys →
      Path (advance (fleetStep fleet fmt)) (Apart fleet fmt j names) { files } events' sys' →
      events.filter (ofServer j) = events'.filter (ofServer j) →
      outputs (fleetStep fleet fmt) (ofServer j) { files } events =
        outputs (fleetStep fleet fmt) (ofServer j) { files } events' := by
  intro config fleet
  constructor
  · exact launched_path host launch pyStr servers shield vectorAnchorUrl python script
  · intro j names files events events' sys sys' hpath hpath' hown
    exact ((fleet_unwinding hdigest).noninterference (.init files) (.init files) rfl hpath hpath'
      hown).2

/-! ## Two servers with a tool of one name -/

def sampleLaunch : Launch where
  dashboardUrl := "http://localhost:3000/"
  workdir := "/tmp/monolith-wrap"
  tenantId := "default"
  agentId := "claude-code"
  sessionId := "session"
  eventToken := some "token"
  shieldKey := some "key"
  allowInsecureDashboard := false

def sampleHost : Host where
  inherited _ := none
  boundary _ := none
  hmacSha256 _ := plainHmac
  unicode := Text.asciiOnly
  debugStr := id
  contentSha256 := id
  displayLoadError _ := ""

def command (name : String) : Value := .object [("command", .string name)]

/-- A configuration of two servers. -/
def sampleConfig : InsertionMap String McpServer :=
  buildMcpConfig Value.toString
    ((InsertionMap.empty.set "files" (command "npx")).set "notes" (command "uvx"))
    (some "mcp-shield") (buildShieldEnv sampleLaunch) "http://localhost:8001" "python" "mcp_server.py"

def filesServer : Shielded sampleConfig := ⟨"files", by decide⟩
def notesServer : Shielded sampleConfig := ⟨"notes", by decide⟩

def sampleFleet : Fleet (Shielded sampleConfig) := sampleHost.fleet sampleConfig

/-- A listing of no tools. -/
def noTools : JsonRpcMessage where
  jsonrpc := some "2.0"
  id := some (number 1)
  result := some (.object [("tools", .array [])])

/-- Both servers start; one lists a message, then the other. -/
def listInTurn (first second : JsonRpcMessage) : List (FleetEvent (Shielded sampleConfig)) :=
  [.start filesServer, .start notesServer, .respond filesServer plainSurroundings first,
    .respond notesServer plainSurroundings second]

/-- What the agent receives from the second server. -/
def fromNotes (first second : JsonRpcMessage) : List (Option JsonRpcMessage) :=
  outputs (fleetStep sampleFleet plainFormat) (ofServer notesServer) {} (listInTurn first second)

/-- The schema of one server's tool is served as the other's. -/
theorem foreign_schema_served :
    fromNotes benign (readFile "Reads a note.") = [none, some benign] ∧
      fromNotes noTools (readFile "Reads a note.") = [none, some (readFile "Reads a note.")] := by
  decide

/-- The listing of one tool of another name. -/
def listNotes : JsonRpcMessage where
  jsonrpc := some "2.0"
  id := some (number 1)
  result := some (.object [("tools", .array [.object
    [("description", .string "Lists the notes."), ("inputSchema", .object []),
      ("name", .string "list_notes")]])])

/-- The test of the guard for one name. -/
def isApart (sys : FleetState (Shielded sampleConfig) Contents)
    (event : FleetEvent (Shielded sampleConfig)) : Bool :=
  (load plainFormat (sampleFleet.hmac event.server)
      (sys.files (sampleFleet.path notesServer)) : Except LoadError (BaselineStore Contents)).isOk &&
    (event.items sampleFleet).all fun item => item.isWithheld ||
      decide (item.name = "list_notes") == decide (event.server = notesServer)

theorem apart_of_isApart {sys : FleetState (Shielded sampleConfig) Contents}
    {event : FleetEvent (Shielded sampleConfig)} (h : isApart sys event = true) :
    Apart sampleFleet plainFormat notesServer {"list_notes"} sys event := by
  obtain ⟨hloads, hitems⟩ := (Bool.and_eq_true _ _).mp h
  intro _
  refine ⟨hloads, ?_⟩
  intro item hitem hserved
  have hsame := List.all_eq_true.mp hitems item hitem
  rw [hserved, Bool.false_or, beq_iff_eq, decide_eq_decide] at hsame
  exact hsame

theorem apart_path {events : List (FleetEvent (Shielded sampleConfig))}
    (h : (executeGuarded (advance (fleetStep sampleFleet plainFormat)) isApart {} events).isSome) :
    ∃ sys, Path (advance (fleetStep sampleFleet plainFormat))
      (Apart sampleFleet plainFormat notesServer {"list_notes"}) {} events sys := by
  obtain ⟨sys, hsys⟩ := Option.isSome_iff_exists.mp h
  exact ⟨sys, (Path.of_executeGuarded hsys).mono fun _ _ => apart_of_isApart⟩

/-- A tool of its own name is served whatever the other server lists. -/
theorem wrapped_servers_isolated_notes : fromNotes benign listNotes = fromNotes noTools listNotes := by
  obtain ⟨sys, hpath⟩ := @apart_path (listInTurn benign listNotes) (by decide)
  obtain ⟨sys', hpath'⟩ := @apart_path (listInTurn noTools listNotes) (by decide)
  have hisolated := @wrapped_servers_isolated _ _ plainFormat Function.injective_id sampleHost
    sampleLaunch Value.toString
    ((InsertionMap.empty.set "files" (command "npx")).set "notes" (command "uvx")) "mcp-shield"
    "http://localhost:8001" "python" "mcp_server.py"
  exact hisolated.2 notesServer {"list_notes"} (fun _ => none) _ _ _ _ hpath hpath' rfl

end BlackMonolith.Baseline
