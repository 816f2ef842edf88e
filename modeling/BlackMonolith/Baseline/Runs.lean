import BlackMonolith.Baseline.ToolsList
import BlackMonolith.Library.Paths

/-!
# The baseline file between a proxy and its operators

The proxy loads the file when it starts and then analyses listings one after the
other, each between taking the lock and releasing it. An operator command is a
process of its own: it loads the file, takes the lock, changes what it loaded
and writes it back.
-/
namespace BlackMonolith.Baseline
open Json JsonRpc Library

inductive Command
  | approve (tool : String)
  | revoke (tool : String)
deriving Repr, DecidableEq

def Command.tool : Command → String
  | .approve tool => tool
  | .revoke tool => tool

/-- An operator process that has loaded the file. -/
structure Operator (δ : Type) where
  command : Command
  store : BaselineStore δ

inductive Holder
  | proxy
  | operator (id : ℕ)
deriving Repr, DecidableEq

/-- Where the proxy is in its cycle; `finished` when nothing is left but the lock. -/
inductive Phase
  | idle
  | locked
  | reloaded
  | analysed
  | finished
deriving Repr, DecidableEq

/-- The file, its lock, the processes, and the latest successful command on each name. -/
structure System (δ : Type) where
  disk : Option Contents := none
  lock : Option Holder := none
  proxy : Option (BaselineStore δ) := none
  phase : Phase := .idle
  operators : ℕ → Option (Operator δ) := fun _ => none
  decisions : String → Option Command := fun _ => none

inductive Action
  | start
  | acquire
  | reload (cfg : Shield)
  | analyse (cfg : Shield) (clock : ℕ → ℕ) (msg : JsonRpcMessage)
  | save (outcome : Except String ℕ)
  | release
  | operatorLoad (id : ℕ) (command : Command)
  | operatorLock (id : ℕ)
  | operatorCommit (id : ℕ) (outcome : Except String ℕ)

section
variable {δ : Type} [DecidableEq δ] (fmt : Format δ) (hmac : String → Except String String)

/-- The change a command makes to what it loaded, and whether it applies. -/
def Command.apply (command : Command) (store : BaselineStore δ) : BaselineStore δ × Bool :=
  match command with
  | .approve tool => store.approve tool
  | .revoke tool => store.revoke tool

/-- The process exits and the lock with it. -/
def System.exitOperator (sys : System δ) (id : ℕ) : System δ :=
  { sys with lock := none, operators := Function.update sys.operators id none }

/-- A command that does not apply, or cannot be written, fails. -/
def System.commit (sys : System δ) (id : ℕ) (operator : Operator δ) (outcome : Except String ℕ) :
    System δ :=
  let changed := operator.command.apply operator.store
  if changed.2 then
    let saved := changed.1.saveIfDirty fmt outcome sys.disk
    match saved.2.2 with
    | .error _ => sys.exitOperator id
    | .ok _ =>
        { sys.exitOperator id with
          disk := saved.2.1
          decisions := Function.update sys.decisions operator.command.tool (some operator.command) }
  else sys.exitOperator id

def systemStep (sys : System δ) : Action → Option (System δ)
  | .start =>
      match load fmt hmac sys.disk with
      | .error _ => none
      | .ok store =>
          some
            { sys with
              proxy := some store
              phase := .idle
              lock := if sys.lock = some .proxy then none else sys.lock }
  | .acquire =>
      if sys.phase = .idle ∧ sys.proxy.isSome ∧ sys.lock = none then
        some { sys with lock := some .proxy, phase := .locked }
      else none
  | .reload cfg =>
      match sys.phase, sys.proxy with
      | .locked, some store =>
          some { sys with proxy := some (reload cfg fmt hmac sys.disk store).1, phase := .reloaded }
      | _, _ => none
  | .analyse cfg clock msg =>
      match sys.phase, sys.proxy, listedTools msg with
      | .reloaded, some store, some tools =>
          let judged := judgeListing cfg hmac clock msg tools store
          some
            { sys with
              proxy := some judged.store
              phase := match judged.response with
                | .ok _ => .analysed
                | .error _ => .finished }
      | _, _, _ => none
  | .save outcome =>
      match sys.phase, sys.proxy with
      | .analysed, some store =>
          let saved := persist fmt outcome sys.disk store
          some { sys with proxy := some saved.1, disk := saved.2.1, phase := .finished }
      | _, _ => none
  | .release =>
      if sys.lock = some .proxy then some { sys with lock := none, phase := .idle } else none
  | .operatorLoad id command =>
      match sys.operators id, load fmt hmac sys.disk with
      | none, .ok store =>
          some { sys with operators := Function.update sys.operators id (some ⟨command, store⟩) }
      | _, _ => none
  | .operatorLock id =>
      if (sys.operators id).isSome ∧ sys.lock = none then
        some { sys with lock := some (.operator id) }
      else none
  | .operatorCommit id outcome =>
      match sys.operators id with
      | some operator =>
          if sys.lock = some (.operator id) then some (sys.commit fmt id operator outcome) else none
      | none => none

/-- A cycle of the proxy is an analysis. -/
theorem analysis_cycle (cfg : Shield) (env : Surroundings) {msg : JsonRpcMessage} {tools : List Value}
    {sys : System δ} {store : BaselineStore δ} (htools : listedTools msg = some tools)
    (hphase : sys.phase = .idle) (hlock : sys.lock = none) (hproxy : sys.proxy = some store)
    {response : Option JsonRpcMessage × Bool}
    (hjudged : (judgeListing cfg hmac env.clock msg tools
      (reload cfg fmt hmac sys.disk store).1).response = .ok response) :
    execute (systemStep fmt hmac) sys
        [.acquire, .reload cfg, .analyse cfg env.clock msg, .save env.write, .release] =
      some
        { sys with
          proxy := some
            (analyzeToolsListWithBoundary cfg fmt hmac env msg store sys.disk).store
          disk := (analyzeToolsListWithBoundary cfg fmt hmac env msg store sys.disk).disk } := by
  obtain ⟨disk, lock, proxy, phase, operators, decisions⟩ := sys
  dsimp only at hphase hlock hproxy hjudged ⊢
  subst hphase hlock hproxy
  simp only [execute, systemStep, analyzeToolsListWithBoundary, htools, hjudged, Option.isSome_some,
    and_self, if_true, Option.bind_some]

end

end BlackMonolith.Baseline
