import BlackMonolith.Correlation

/-!
# The queues of outstanding requests

A queue holds the keys, or the inspections, of requests without an answer. A request enters
it at the end in place of an older one with its key, and pushes out the oldest entry of a
full queue; an answer takes the entry with its key.
-/
namespace BlackMonolith.PendingQueues
open JsonRpc Library

inductive Operation (α : Type*)
  | track (entry : α)
  | take (key : String)
deriving Repr

section
variable {α : Type*} (trackIn : List α → α → List α × Option α)
  (takeFrom : List α → String → List α × Bool)

/-- The queue after one operation. -/
def step (queue : List α) : Operation α → List α
  | .track entry => (trackIn queue entry).1
  | .take key => (takeFrom queue key).1

@[simp] theorem step_track (queue : List α) (entry : α) :
    step trackIn takeFrom queue (.track entry) = (trackIn queue entry).1 := rfl

@[simp] theorem step_take (queue : List α) (key : String) :
    step trackIn takeFrom queue (.take key) = (takeFrom queue key).1 := rfl

/-- The queue after a sequence of operations. -/
def run (operations : List (Operation α)) : List α := operations.foldl (step trackIn takeFrom) []

variable (key : α → String) (queue : List α)

/-- An entry that an operation loses was taken by its key, or was the oldest of a full queue
that a new key entered. -/
def Lost (operation : Operation α) (entry : α) : Prop :=
  operation = .take (key entry) ∨
    ∃ new, operation = .track new ∧ key new ∉ queue.map key ∧
      queue.length = maxPendingToolsList ∧ queue.head? = some entry ∧
      (trackIn queue new).2 = some entry

/-- The laws of a queue in one state. -/
structure Laws : Prop where
  bounded : queue.length ≤ maxPendingToolsList
  distinct : (queue.map key).Nodup
  loses : ∀ operation, ∀ entry ∈ queue,
    key entry ∉ (step trackIn takeFrom queue operation).map key →
      Lost trackIn key queue operation entry
  entered : ∀ new, (trackIn queue new).1.getLast? = some new
  found : ∀ k, (takeFrom queue k).2 = true ↔ k ∈ queue.map key
  rest : ∀ k, (takeFrom queue k).1 = queue.filter (key · ≠ k)

end

/-! ## One operation -/

/-- What a queue keeps. -/
structure Kept {α : Type*} (key : α → String) (queue : List α) : Prop where
  bounded : queue.length ≤ maxPendingToolsList
  distinct : (queue.map key).Nodup

section
variable {α : Type*} {key : α → String} {queue : List α}

theorem kept_nil : Kept key [] := ⟨Nat.zero_le _, List.nodup_nil⟩

theorem eraseP_of_new {entry : α} (h : key entry ∉ queue.map key) :
    (queue.eraseP fun e => key e == key entry) = queue := by
  apply List.eraseP_of_forall_not
  intro e he hkey
  exact h (List.mem_map.mpr ⟨e, he, beq_iff_eq.mp hkey⟩)

theorem length_eraseP_of_old {entry : α} (h : key entry ∈ queue.map key) :
    (queue.eraseP fun e => key e == key entry).length + 1 = queue.length := by
  obtain ⟨e, he, hkey⟩ := List.mem_map.mp h
  have hpositive := List.length_pos_of_mem he
  have hsame : (key e == key entry) = true := beq_iff_eq.mpr hkey
  rw [List.length_eraseP_of_mem he hsame]
  omega

/-- A request with a new key in a full queue pushes the oldest out; any other one takes the
place of the entry with its key. -/
theorem track_cases (h : Kept key queue) (entry : α) :
    (key entry ∉ queue.map key ∧ queue.length = maxPendingToolsList ∧
      ∃ oldest others, queue = oldest :: others ∧
        track key queue entry = (others ++ [entry], some oldest)) ∨
    ((key entry ∈ queue.map key ∨ queue.length < maxPendingToolsList) ∧
      track key queue entry = ((queue.eraseP fun e => key e == key entry) ++ [entry], none)) := by
  have hlength := h.bounded
  unfold track
  by_cases hmem : key entry ∈ queue.map key
  · refine Or.inr ⟨Or.inl hmem, ?_⟩
    rw [if_neg]
    rw [List.length_append, List.length_singleton, length_eraseP_of_old hmem]
    omega
  · rw [eraseP_of_new hmem]
    by_cases hfull : queue.length = maxPendingToolsList
    · left
      cases queue with
      | nil =>
        have hpositive : 0 ≠ maxPendingToolsList := by decide
        exact absurd hfull hpositive
      | cons oldest others =>
        refine ⟨hmem, hfull, oldest, others, rfl, ?_⟩
        rw [if_pos]
        · rfl
        · rw [List.length_append, List.length_singleton]
          omega
    · refine Or.inr ⟨Or.inr (by omega), ?_⟩
      rw [if_neg]
      rw [List.length_append, List.length_singleton]
      omega

theorem Kept.track (h : Kept key queue) (entry : α) :
    Kept key (JsonRpc.track key queue entry).1 := by
  have hpushed := nodup_push h.distinct entry
  rcases track_cases h entry with
    ⟨hnew, hfull, oldest, others, hqueue, htrack⟩ | ⟨hroom, htrack⟩
  · rw [htrack]
    rw [eraseP_of_new hnew, hqueue] at hpushed
    rw [hqueue] at hfull
    constructor
    · rw [List.length_append, ← hfull]
      exact le_rfl
    · exact hpushed.of_cons
  · rw [htrack]
    refine ⟨?_, hpushed⟩
    rw [List.length_append, List.length_singleton]
    rcases hroom with hmem | hroom
    · rw [length_eraseP_of_old hmem]
      exact h.bounded
    · have hle : (queue.eraseP fun e => key e == key entry).length ≤ queue.length :=
        (List.eraseP_sublist).length_le
      omega

theorem Kept.take (h : Kept key queue) (k : String) : Kept key (JsonRpc.take key queue k).1 := by
  have hsublist : (queue.eraseP fun e => key e == k).Sublist queue := List.eraseP_sublist
  exact ⟨hsublist.length_le.trans h.bounded, h.distinct.sublist (hsublist.map key)⟩

theorem take_found_iff (k : String) :
    (JsonRpc.take key queue k).2.isSome = true ↔ k ∈ queue.map key := by
  unfold JsonRpc.take
  rw [List.find?_isSome, List.mem_map]
  constructor
  · intro ⟨e, he, hkey⟩
    exact ⟨e, he, beq_iff_eq.mp hkey⟩
  · intro ⟨e, he, hkey⟩
    exact ⟨e, he, beq_iff_eq.mpr hkey⟩

/-- The entry that an answer takes is one with its key. -/
theorem take_eq_some {k : String} {e : α} (h : (JsonRpc.take key queue k).2 = some e) :
    e ∈ queue ∧ key e = k :=
  ⟨List.mem_of_find?_eq_some h, beq_iff_eq.mp (List.find?_some (p := fun e => key e == k) h)⟩

theorem track_last (h : Kept key queue) (entry : α) :
    (JsonRpc.track key queue entry).1.getLast? = some entry := by
  rcases track_cases h entry with ⟨_, _, oldest, others, _, htrack⟩ | ⟨_, htrack⟩
  · rw [htrack]
    exact List.getLast?_concat
  · rw [htrack]
    exact List.getLast?_concat

/-! ## Every sequence of operations -/

variable {takeFrom : List α → String → List α × Bool}

theorem Kept.step (htake : ∀ queue k, (takeFrom queue k).1 = (JsonRpc.take key queue k).1)
    (h : Kept key queue) (operation : Operation α) :
    Kept key (step (JsonRpc.track key) takeFrom queue operation) := by
  cases operation with
  | track entry => exact h.track entry
  | take k =>
    rw [step_take, htake]
    exact h.take k

theorem kept_run (htake : ∀ queue k, (takeFrom queue k).1 = (JsonRpc.take key queue k).1)
    (operations : List (Operation α)) :
    Kept key (run (JsonRpc.track key) takeFrom operations) := by
  induction operations using List.reverseRecOn with
  | nil => exact kept_nil
  | append_singleton operations operation ih =>
    unfold run
    rw [List.foldl_append]
    exact ih.step htake operation

/-- An entry that an operation loses was taken by its key or pushed out as the oldest. -/
theorem lost_of_notMem (htake : ∀ queue k, (takeFrom queue k).1 = (JsonRpc.take key queue k).1)
    (h : Kept key queue) {operation : Operation α} {entry : α} (hmem : entry ∈ queue)
    (hlost : key entry ∉ (step (JsonRpc.track key) takeFrom queue operation).map key) :
    Lost (JsonRpc.track key) key queue operation entry := by
  have hkey : key entry ∈ queue.map key := List.mem_map_of_mem hmem
  cases operation with
  | take k =>
    left
    rw [step_take, htake] at hlost
    by_contra hother
    exact hlost ((mem_keys_eraseP h.distinct).mpr ⟨hkey, fun heq => hother (heq ▸ rfl)⟩)
  | track new =>
    right
    rw [step_track] at hlost
    rcases track_cases h new with ⟨hnew, hfull, oldest, others, hqueue, htrack⟩ | ⟨-, htrack⟩
    · rw [htrack] at hlost
      rw [hqueue] at hmem
      rcases List.mem_cons.mp hmem with rfl | hmem
      · exact ⟨new, rfl, hnew, hfull, by rw [hqueue]; rfl, by rw [htrack]⟩
      · exact absurd (List.mem_map_of_mem (List.mem_append_left _ hmem)) hlost
    · rw [htrack, List.map_append, List.mem_append, not_or] at hlost
      have hsame : key entry = key new := by
        by_contra hother
        exact hlost.1 ((mem_keys_eraseP h.distinct).mpr ⟨hkey, hother⟩)
      exact absurd (List.mem_singleton.mpr hsame) hlost.2

theorem laws_run (htake : ∀ queue k, (takeFrom queue k).1 = (JsonRpc.take key queue k).1)
    (hfound : ∀ queue k, (takeFrom queue k).2 = (JsonRpc.take key queue k).2.isSome)
    (operations : List (Operation α)) :
    Laws (JsonRpc.track key) takeFrom key (run (JsonRpc.track key) takeFrom operations) := by
  have hkept : Kept key (run (JsonRpc.track key) takeFrom operations) := kept_run htake operations
  constructor
  · exact hkept.bounded
  · exact hkept.distinct
  · exact fun operation entry hmem hlost => lost_of_notMem htake hkept hmem hlost
  · exact track_last hkept
  · intro k
    rw [hfound]
    exact take_found_iff k
  · intro k
    rw [htake]
    refine (eraseP_eq_filter_key hkept.distinct k).trans (List.filter_congr ?_)
    intro e _
    by_cases hk : key e = k <;> simp [hk]

end

/-- `takeInspection`, with only whether there was an inspection. -/
def takesInspection (queue : List PendingInspection) (key : String) :
    List PendingInspection × Bool :=
  ((takeInspection queue key).1, (takeInspection queue key).2.isSome)

/-! ## The queues of a running proxy -/

section
open Json Baseline AgentToServer ServerToAgent Correlation

/-- Both queues of the proxy are bounded and hold each key once. -/
structure ProxyKept (p : Proxy) : Prop where
  toolsList : Kept id p.pendingToolsList
  inspections : Kept PendingInspection.key p.pendingInspections

variable {δ : Type} {cfg : Correlation.Config} {fmt : Format δ}
  {hmac : String → Except String String} {p p' : Proxy}

theorem ProxyKept.congr (h : ProxyKept p) (hp : SamePending p p') : ProxyKept p' := by
  constructor
  · rw [hp.toolsList]
    exact h.toolsList
  · rw [hp.inspections]
    exact h.inspections

/-- A request is tracked in one queue. -/
theorem ProxyKept.trackRequest (h : ProxyKept p) (msg : JsonRpcMessage) :
    ProxyKept (AgentToServer.trackRequest p msg).1 := by
  unfold AgentToServer.trackRequest
  split
  · exact h
  · split
    · exact h
    · next key _ =>
      split
      · exact ⟨h.toolsList.track key, h.inspections⟩
      · split
        · exact h
        · exact ⟨h.toolsList, h.inspections.track _⟩

/-- A response is taken from one queue. -/
theorem ProxyKept.routeResponse (h : ProxyKept p) (msg : JsonRpcMessage) :
    ProxyKept (ServerToAgent.routeResponse p msg).1 := by
  rcases routeResponse_cases p msg with ⟨_, hroute⟩ | ⟨key, _, hroute⟩
  · rw [hroute]
    exact h
  · rw [hroute]
    split
    · exact ⟨h.toolsList.take key, h.inspections⟩
    · split
      · exact ⟨h.toolsList, h.inspections.take key⟩
      · exact h

def QueuesKept (s : Correlation.State δ) : Prop := ProxyKept s.proxy

variable [DecidableEq δ]

theorem step_queuesKept (s : Correlation.State δ) (input : Correlation.Input)
    (s' : Correlation.State δ) (h : QueuesKept s)
    (hstep : Correlation.step cfg fmt hmac s input = some s') : QueuesKept s' := by
  unfold QueuesKept at h ⊢
  cases input with
  | snapshot body =>
    cases hstep
    refine h.congr ?_
    unfold observeRevokedSessions
    split <;> exact ⟨rfl, rfl⟩
  | agent line =>
    simp only [Correlation.step] at hstep
    split_ifs at hstep
    · cases hstep
      exact h
    · split at hstep
      · cases hstep
        exact h
      · next msg _ =>
        cases hstep
        rcases @handleMessage_pending cfg.agent s.proxy msg line with
          ⟨_, hsame⟩ | ⟨_, p', hsame, htracked⟩
        · exact h.congr hsame
        · dsimp only
          rw [htracked]
          exact (h.congr hsame).trackRequest msg
  | server line env disk =>
    simp only [Correlation.step] at hstep
    split_ifs at hstep
    · cases hstep
      exact h
    · split at hstep
      · cases hstep
        exact h
      · next msg _ =>
        cases hstep
        dsimp only
        rw [(forward_route env).1]
        exact h.routeResponse msg

theorem run_queuesKept {store : BaselineStore δ} {s : Correlation.State δ}
    {inputs : List Correlation.Input}
    (h : Path (Correlation.step cfg fmt hmac) unguarded (Correlation.State.init store) inputs s) :
    QueuesKept s :=
  h.invariant (fun s input s' hkept _ hstep => step_queuesKept s input s' hkept hstep)
    ⟨kept_nil, kept_nil⟩

/-- The laws of both queues, after every sequence of operations; and in every run of the
proxy, however many requests the agent leaves open, both are bounded and hold each key once. -/
theorem pending_queue_laws :
    (∀ operations : List (Operation String),
      Laws trackPending takePending id (run trackPending takePending operations)) ∧
    (∀ operations : List (Operation PendingInspection),
      Laws trackInspection takesInspection PendingInspection.key
        (run trackInspection takesInspection operations)) ∧
    (∀ queue key inspection, (takeInspection queue key).2 = some inspection →
      inspection ∈ queue ∧ inspection.key = key) ∧
    ∀ (cfg : Correlation.Config) (fmt : Format δ) (hmac : String → Except String String)
      (store : BaselineStore δ) (inputs : List Correlation.Input) (s : Correlation.State δ),
      Path (Correlation.step cfg fmt hmac) unguarded (Correlation.State.init store) inputs s →
        QueuesKept s :=
  ⟨laws_run (fun _ _ => rfl) fun _ _ => rfl, laws_run (fun _ _ => rfl) fun _ _ => rfl,
    fun _ _ _ => take_eq_some, fun _ _ _ _ _ _ h => run_queuesKept h⟩

end

end BlackMonolith.PendingQueues
