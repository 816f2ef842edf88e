import BlackMonolith.RemoteBridge

/-!
# The requests of the remote bridge

A message that was accepted has a task until its answer is taken; what is known of a task holds
of the answer it leaves.
-/
namespace BlackMonolith.RemoteBridge
open Library Json HttpTransport

/-! ## What becomes of the requests -/

/-- The message in a line, if it is handed on and the bridge goes on. -/
def messageOf (fromStr : List UInt8 → Option Value) (bytes : List UInt8) : Option Value :=
  match Utf8.decode (lineText bytes) with
  | none => none
  | some text =>
      if Text.trimList text = [] then none else (fromStr (lineText bytes)).filter validateJsonrpc

/-- A request whose task ends well was answered: by the one message of a JSON body, or by a
stream that ends with its response. -/
def Fulfils (message : Value) (answer : Answer) : Prop :=
  answer.2 = none → (message.get "id").isSome → ∃ front last, answer.1 = front ++ [last] ∧
    (front = [] ∧ validateJsonrpc last = true ∨ isTerminal (message.get "id") last = true)

def Task.wasSent (task : Task) : Bool :=
  match task.phase with
  | .spawned => false
  | _ => true

section
variable {fromStr : List UInt8 → Option Value} {requestId : Option Value}

theorem readEvent_terminal {event : List UInt8} {emitted : List Value}
    (h : readEvent fromStr requestId event = (emitted, some none)) :
    ∃ last, emitted = [last] ∧ isTerminal requestId last = true := by
  unfold readEvent at h
  split at h
  · cases h
  · unfold readData at h
    split at h
    · cases h
    · next value _ =>
        split_ifs at h with hrpc hterminal
        · cases h
          exact ⟨value, rfl, hterminal⟩
        · cases h
        · cases h

theorem drain_terminal {pending : List UInt8} {emitted : List Value}
    (h : drain fromStr requestId pending = (emitted, .ended none)) :
    ∃ front last, emitted = front ++ [last] ∧ isTerminal requestId last = true := by
  induction hlength : pending.length using Nat.strong_induction_on generalizing pending emitted with
  | _ n ih =>
      cases hnext : nextSseEvent pending with
      | none =>
          rw [drain_of_none hnext] at h
          cases h
      | some found =>
          obtain ⟨rawEvent, consumed⟩ := found
          rw [drain_of_some hnext] at h
          cases hread : readEvent fromStr requestId (pending.take rawEvent) with
          | mk first stop =>
              rw [hread] at h
              cases stop with
              | some error =>
                  cases h
                  obtain ⟨last, rfl, hlast⟩ := readEvent_terminal hread
                  exact ⟨[], last, rfl, hlast⟩
              | none =>
                  obtain ⟨hemitted, hended⟩ := Prod.mk.inj h
                  have hshorter : (pending.drop consumed).length < n := by
                    have hfirst := nextSseEvent_some hnext
                    have hpos := hfirst.pos
                    have hle := hfirst.le
                    rw [List.length_drop]
                    omega
                  obtain ⟨front, last, hrest, hlast⟩ :=
                    ih _ hshorter (Prod.ext rfl hended) rfl
                  refine ⟨first ++ front, last, ?_, hlast⟩
                  rw [← hemitted, List.append_assoc]
                  exact congrArg (first ++ ·) hrest

theorem consumeFrom_terminal (hid : requestId.isSome = true) {pending : List UInt8}
    {chunks : List (List UInt8)} {emitted : List Value}
    (h : consumeFrom fromStr requestId pending chunks = (emitted, none)) :
    ∃ front last, emitted = front ++ [last] ∧ isTerminal requestId last = true := by
  induction chunks generalizing pending emitted with
  | nil =>
      rw [consumeFrom, if_pos hid] at h
      cases h
  | cons chunk chunks ih =>
      rw [consumeFrom] at h
      split_ifs at h
      · cases h
      · split at h
        · next first error hdrain =>
            cases h
            exact drain_terminal hdrain
        · next first rest hdrain =>
            obtain ⟨hemitted, hnone⟩ := Prod.mk.inj h
            obtain ⟨front, last, hrest, hlast⟩ := ih (Prod.ext rfl hnone)
            refine ⟨first ++ front, last, ?_, hlast⟩
            rw [← hemitted, List.append_assoc]
            exact congrArg (first ++ ·) hrest
      · cases h

theorem fulfils_readBody (message : Value) (head : ResponseHead) (chunks : List (List UInt8)) :
    Fulfils message (readBody fromStr (message.get "id") head chunks) := by
  intro hfine hid
  unfold readBody at hfine ⊢
  split_ifs at hfine ⊢ with hstatus hjson hstream
  · split at hfine
    · cases hfine
    · split at hfine
      · cases hfine
      · next value _ =>
          split_ifs at hfine ⊢ with hrpc
          exact ⟨[], value, rfl, Or.inl ⟨rfl, hrpc⟩⟩
  · have hnone : (consumeSse fromStr (message.get "id") chunks).2 = none :=
      Option.map_eq_none_iff.mp hfine
    obtain ⟨front, last, hemitted, hlast⟩ := consumeFrom_terminal hid (Prod.ext rfl hnone)
    exact ⟨front, last, hemitted, Or.inr hlast⟩
  · split at hfine
    · cases hfine
    · cases hfine

end

/-- A list around one of its elements. -/
theorem exists_around {α : Type} {xs : List α} {i : ℕ} {x : α} (h : xs[i]? = some x) :
    ∃ front back, xs = front ++ x :: back ∧ (∀ y, xs.set i y = front ++ y :: back) ∧
      xs.eraseIdx i = front ++ back := by
  obtain ⟨hi, hx⟩ := List.getElem?_eq_some_iff.mp h
  refine ⟨xs.take i, xs.drop (i + 1), ?_, fun y => ?_,
    List.eraseIdx_eq_take_drop_succ _ _⟩
  · rw [← hx, List.getElem_cons_drop, List.take_append_drop]
  · rw [List.set_eq_take_append_cons_drop, if_pos hi]

theorem perm_middle_append (front back rest : List ℕ) (n : ℕ) :
    (front ++ n :: back ++ rest).Perm (front ++ back ++ (rest ++ [n])) := by
  rw [List.append_assoc, List.cons_append]
  refine List.perm_middle.trans ?_
  rw [← List.append_assoc, ← List.append_assoc]
  exact (List.perm_append_singleton _ _).symm

namespace Bridge
variable {fromStr : List UInt8 → Option Value} {b b' : Bridge}

/-- Every message that was accepted has one task, or its task is over. -/
structure RequestsSound (fromStr : List UInt8 → Option Value) (b : Bridge) : Prop where
  bounded : b.tasks.length ≤ maxConcurrentRequests
  accepted : b.journal.accepted = b.journal.lines.filterMap (messageOf fromStr)
  numbers : (b.tasks.map Task.number ++ b.journal.answers.map Prod.fst).Perm
    (List.range b.journal.accepted.length)
  posted : (b.journal.posted.map Posted.number).Perm
    ((b.tasks.filter Task.wasSent).map Task.number ++ b.journal.answers.map Prod.fst)
  messages : ∀ task ∈ b.tasks, b.journal.accepted[task.number]? = some task.message ∧
    ∀ answer, task.phase = .done answer → Fulfils task.message answer
  answers : ∀ x ∈ b.journal.answers, ∃ message, b.journal.accepted[x.1]? = some message ∧
    Fulfils message x.2
  bodies : ∀ p ∈ b.journal.posted, b.journal.accepted[p.number]? = some p.message
  sessions : ∀ p ∈ b.journal.posted, p.session = none ∨ p.session = b.session
  fine : (∀ error, b.outcome ≠ some (.error error)) → ∀ x ∈ b.journal.answers, x.2.2 = none
  ended : b.outcome = some (.ok ()) →
    b.draining = true ∧ b.tasks = [] ∧ b.journal.deleted = b.session
  deleted : b.outcome ≠ some (.ok ()) → b.journal.deleted = none

theorem RequestsSound.fail (h : b.RequestsSound fromStr) (hout : b.outcome = none)
    (error : RunError) : (b.fail error).RequestsSound fromStr := by
  refine ⟨h.bounded, h.accepted, h.numbers, h.posted, h.messages, h.answers, h.bodies,
    h.sessions, fun hfine => absurd rfl (hfine error), fun hended => (by cases hended), fun _ => ?_⟩
  apply h.deleted
  rw [hout]
  exact fun hended => (by cases hended)

theorem requests_handOn (h : b.RequestsSound fromStr) (hout : b.outcome = none)
    (hroom : canAcceptRequest b.tasks.length = true) (bytes : List UInt8) :
    (handOn fromStr b bytes).RequestsSound fromStr := by
  have hlines : (b.withLine bytes).journal.lines = b.journal.lines ++ [bytes] := by
    rw [Journal.lines, withLine, List.filterMap_append]
    rfl
  have hwith : messageOf fromStr bytes = none → (b.withLine bytes).RequestsSound fromStr := by
    intro hnone
    refine ⟨h.bounded, ?_, h.numbers, h.posted, h.messages, h.answers, h.bodies, h.sessions, h.fine,
      h.ended, h.deleted⟩
    rw [hlines, List.filterMap_append, List.filterMap_cons, hnone, List.filterMap_nil,
      List.append_nil]
    exact h.accepted
  have hopen : (b.withLine bytes).outcome = none := hout
  unfold handOn
  change (match Utf8.decode (lineText bytes) with
    | none => (b.withLine bytes).fail .lineNotUtf8
    | some text => _).RequestsSound fromStr
  unfold messageOf at hwith
  cases hdecode : Utf8.decode (lineText bytes) with
  | none =>
      rw [hdecode] at hwith
      exact (hwith rfl).fail hopen _
  | some text =>
      rw [hdecode] at hwith
      dsimp only at hwith ⊢
      by_cases hblank : Text.trimList text = []
      · rw [if_pos hblank] at hwith ⊢
        exact hwith rfl
      rw [if_neg hblank] at hwith ⊢
      cases hparse : fromStr (lineText bytes) with
      | none =>
          rw [hparse] at hwith
          exact (hwith rfl).fail hopen _
      | some message =>
          rw [hparse, Option.filter_some] at hwith
          dsimp only
          by_cases hrpc : validateJsonrpc message = true
          · rw [if_pos hrpc]
            have hmessage : messageOf fromStr bytes = some message := by
              unfold messageOf
              rw [hdecode]
              dsimp only
              rw [if_neg hblank, hparse, Option.filter_some, if_pos hrpc]
            have hkept : ∀ (n : ℕ) m, b.journal.accepted[n]? = some m →
                (b.journal.accepted ++ [message])[n]? = some m := by
              intro n m hm
              rw [List.getElem?_append_left (List.getElem?_eq_some_iff.mp hm).1, hm]
            refine ⟨?_, ?_, ?_, ?_, ?_, ?_, fun p hp => hkept _ _ (h.bodies p hp), h.sessions,
              h.fine, ?_, h.deleted⟩
            · rw [List.length_append, List.length_singleton]
              exact of_decide_eq_true hroom
            · have haccepted : b.journal.accepted ++ [message] =
                  (b.journal.lines ++ [bytes]).filterMap (messageOf fromStr) := by
                rw [List.filterMap_append, List.filterMap_cons, hmessage, List.filterMap_nil,
                  ← h.accepted]
              exact haccepted.trans (congrArg _ hlines.symm)
            · rw [List.length_append, List.length_singleton, List.range_succ, List.map_append,
                List.map_singleton, List.append_assoc]
              refine (List.Perm.append_left _ List.perm_append_comm).trans ?_
              rw [← List.append_assoc]
              exact h.numbers.append_right _
            · rw [List.filter_append, List.filter_cons_of_neg Bool.false_ne_true, List.filter_nil,
                List.append_nil]
              exact h.posted
            · intro task htask
              rcases List.mem_append.mp htask with hold | hnew
              · exact ⟨hkept _ _ (h.messages task hold).1, (h.messages task hold).2⟩
              · rw [List.mem_singleton.mp hnew]
                exact ⟨List.getElem?_concat_length, fun answer hphase => (by cases hphase)⟩
            · intro x hx
              obtain ⟨m, hm, hfulfils⟩ := h.answers x hx
              exact ⟨m, hkept _ _ hm, hfulfils⟩
            · intro hended
              rw [hout] at hended
              cases hended
          · rw [if_neg hrpc] at hwith ⊢
            exact (hwith rfl).fail hopen _

/-- A task goes on; what is known of its old phase and of the new one carries over. -/
theorem RequestsSound.setPhase (h : b.RequestsSound fromStr) {i : ℕ} {task : Task} {phase : Phase}
    (htask : b.tasks[i]? = some task) (hout : b.outcome = none)
    (hsent : Task.wasSent { task with phase } = task.wasSent)
    (hdone : ∀ answer, phase = .done answer → Fulfils task.message answer) :
    (b.setPhase i task phase).RequestsSound fromStr := by
  obtain ⟨front, back, hsplit, hset, -⟩ := exists_around htask
  have htasks : (b.setPhase i task phase).tasks = front ++ { task with phase } :: back := hset _
  have hmem : task ∈ b.tasks := List.mem_of_getElem? htask
  have hnumbers := h.numbers
  have hposted := h.posted
  rw [hsplit] at hnumbers hposted
  refine ⟨?_, h.accepted, ?_, ?_, ?_, h.answers, h.bodies, h.sessions, h.fine, ?_, h.deleted⟩
  · rw [Bridge.setPhase, List.length_set]
    exact h.bounded
  · rw [htasks, List.map_append, List.map_cons]
    rw [List.map_append, List.map_cons] at hnumbers
    exact hnumbers
  · rw [htasks, List.filter_append, List.filter_cons, hsent, List.map_append]
    rw [List.filter_append, List.filter_cons, List.map_append] at hposted
    split_ifs at hposted ⊢ with hwas
    · exact hposted
    · exact hposted
  · intro other hother
    rw [htasks] at hother
    rcases List.mem_append.mp hother with hfront | hrest
    · exact h.messages other (hsplit ▸ List.mem_append_left _ hfront)
    · rcases List.mem_cons.mp hrest with rfl | hback
      · exact ⟨(h.messages task hmem).1, hdone⟩
      · exact h.messages other (hsplit ▸ List.mem_append_right _ (List.mem_cons_of_mem _ hback))
  · intro hended
    rw [Bridge.setPhase, hout] at hended
    cases hended

theorem wasSent_of_ne {task : Task} (h : task.phase ≠ .spawned) : task.wasSent = true := by
  unfold Task.wasSent
  split
  · next hspawned => exact absurd hspawned h
  · rfl

theorem RequestsSound.send (h : b.RequestsSound fromStr) {i : ℕ} {task : Task}
    (htask : b.tasks[i]? = some task) (hphase : task.phase = .spawned) (hout : b.outcome = none) :
    ({ b.setPhase i task .sent with
      journal.posted := b.journal.posted ++ [⟨task.number, task.message, b.session⟩] } :
        Bridge).RequestsSound fromStr := by
  obtain ⟨front, back, hsplit, hset, -⟩ := exists_around htask
  have htasks : (b.setPhase i task .sent).tasks = front ++ { task with phase := .sent } :: back :=
    hset _
  have hmem : task ∈ b.tasks := List.mem_of_getElem? htask
  have hunsent : task.wasSent = false := by
    unfold Task.wasSent
    rw [hphase]
  have hnumbers := h.numbers
  have hposted := h.posted
  rw [hsplit] at hnumbers hposted
  refine ⟨?_, h.accepted, ?_, ?_, ?_, h.answers, ?_, ?_, h.fine, ?_, h.deleted⟩
  · rw [Bridge.setPhase, List.length_set]
    exact h.bounded
  · rw [htasks, List.map_append, List.map_cons]
    rw [List.map_append, List.map_cons] at hnumbers
    exact hnumbers
  · rw [List.filter_append, List.filter_cons_of_neg (hunsent ▸ Bool.false_ne_true),
      List.map_append] at hposted
    rw [htasks, List.filter_append, List.filter_cons_of_pos rfl, List.map_append, List.map_append]
    refine ((hposted.append_right [task.number]).trans ?_)
    rw [List.append_assoc]
    exact (perm_middle_append _ _ _ _).symm
  · intro other hother
    rw [htasks] at hother
    rcases List.mem_append.mp hother with hfront | hrest
    · exact h.messages other (hsplit ▸ List.mem_append_left _ hfront)
    · rcases List.mem_cons.mp hrest with rfl | hback
      · exact ⟨(h.messages task hmem).1, fun answer hanswer => (by cases hanswer)⟩
      · exact h.messages other (hsplit ▸ List.mem_append_right _ (List.mem_cons_of_mem _ hback))
  · intro p hp
    rcases List.mem_append.mp hp with hold | hnew
    · exact h.bodies p hold
    · rw [List.mem_singleton.mp hnew]
      exact (h.messages task hmem).1
  · intro p hp
    rcases List.mem_append.mp hp with hold | hnew
    · exact h.sessions p hold
    · rw [List.mem_singleton.mp hnew]
      exact Or.inr rfl
  · intro hended
    rw [Bridge.setPhase, hout] at hended
    cases hended

theorem RequestsSound.take (h : b.RequestsSound fromStr) {i : ℕ} {task : Task} {answer : Answer}
    (htask : b.tasks[i]? = some task) (hphase : task.phase = .done answer)
    (hout : b.outcome = none) : (b.take i task answer).RequestsSound fromStr := by
  obtain ⟨front, back, hsplit, -, herase⟩ := exists_around htask
  have hmem : task ∈ b.tasks := List.mem_of_getElem? htask
  have hsent : task.wasSent = true := wasSent_of_ne (fun hspawned => by
    rw [hphase] at hspawned
    cases hspawned)
  have hlines : (b.journal.segments ++
      (if b.line = [] then [] else [Segment.dropped b.line])).filterMap Segment.handedOn =
        b.journal.lines := by
    rw [List.filterMap_append]
    split_ifs
    · exact List.append_nil _
    · exact List.append_nil _
  have hnumbers := h.numbers
  have hposted := h.posted
  rw [hsplit] at hnumbers hposted
  rw [List.filter_append, List.filter_cons_of_pos hsent, List.map_append, List.map_cons] at hposted
  rw [List.map_append, List.map_cons] at hnumbers
  have hothers : ∀ other ∈ front ++ back, other ∈ b.tasks := by
    intro other hother
    rw [hsplit]
    exact List.mem_append.mpr ((List.mem_append.mp hother).imp_right (List.mem_cons_of_mem _))
  have htaken : ∀ outcome : Option (Except RunError Unit),
      outcome ≠ some (.ok ()) → (outcome = none → answer.2 = none) →
      ({ b with
        tasks := b.tasks.eraseIdx i
        line := []
        journal.segments := b.journal.segments ++ (if b.line = [] then [] else [.dropped b.line])
        journal.answers := b.journal.answers ++ [(task.number, answer)]
        outcome } : Bridge).RequestsSound fromStr := by
    intro outcome hrunning hfine
    refine ⟨?_, ?_, ?_, ?_, ?_, ?_, h.bodies, h.sessions, ?_, fun hended => absurd hended hrunning,
      fun _ => h.deleted (by rw [hout]; exact fun hended => (by cases hended))⟩
    · exact (List.length_eraseIdx_le _ _).trans h.bounded
    · exact h.accepted.trans (congrArg _ hlines.symm)
    · rw [herase, List.map_append, List.map_append, List.map_singleton]
      exact (perm_middle_append _ _ _ _).symm.trans hnumbers
    · rw [herase, List.filter_append, List.map_append, List.map_append, List.map_singleton]
      exact hposted.trans (perm_middle_append _ _ _ _)
    · intro other hother
      rw [herase] at hother
      exact h.messages other (hothers other hother)
    · intro x hx
      rcases List.mem_append.mp hx with hold | hnew
      · exact h.answers x hold
      · rw [List.mem_singleton.mp hnew]
        exact ⟨task.message, (h.messages task hmem).1, (h.messages task hmem).2 answer hphase⟩
    · intro hnoError x hx
      rcases List.mem_append.mp hx with hold | hnew
      · exact h.fine (fun error => by rw [hout]; exact fun hended => (by cases hended)) x hold
      · rw [List.mem_singleton.mp hnew]
        cases houtcome : outcome with
        | none => exact hfine houtcome
        | some result =>
            cases result with
            | ok _ => exact absurd houtcome hrunning
            | error error => exact absurd houtcome (hnoError error)
  unfold Bridge.take
  dsimp only
  split
  · next error _ =>
      exact htaken (some (.error (.task error))) (fun hended => (by cases hended))
        (fun hnone => (by cases hnone))
  · next hnone =>
      have hstill := htaken b.outcome (by rw [hout]; exact fun hended => (by cases hended))
        (fun _ => hnone)
      exact hstill

theorem RequestsSound.receive (h : b.RequestsSound fromStr) {i : ℕ} {task : Task}
    (htask : b.tasks[i]? = some task) (hphase : task.phase = .sent) (hout : b.outcome = none)
    (head : ResponseHead) : (b.receive i task head).RequestsSound fromStr := by
  have hsent : task.wasSent = true := wasSent_of_ne (fun hspawned => by
    rw [hphase] at hspawned
    cases hspawned)
  unfold Bridge.receive
  cases hremember : b.rememberSession head.session with
  | none =>
      exact h.setPhase htask hout hsent.symm (fun answer hanswer hfine => by
        cases hanswer
        cases hfine)
  | some found =>
      obtain ⟨session, rfl, hkept, -⟩ := rememberSession_eq hremember
      have hfound : ({ b with session } : Bridge).RequestsSound fromStr := by
        refine ⟨h.bounded, h.accepted, h.numbers, h.posted, h.messages, h.answers, h.bodies, ?_,
          h.fine, fun hended => ?_, h.deleted⟩
        · intro p hp
          rcases h.sessions p hp with hnone | hsame
          · exact Or.inl hnone
          · cases hsession : p.session with
            | none => exact Or.inl rfl
            | some v =>
                rw [hsession] at hsame
                exact Or.inr (hkept v hsame.symm).symm
        · rw [show b.outcome = some (.ok ()) from hended] at hout
          cases hout
      dsimp only
      by_cases haccepted : head.status = 202
      · rw [if_pos haccepted]
        refine hfound.setPhase htask hout ?_ (fun answer hanswer hfine hid => ?_)
        · exact hsent.symm
        · cases hanswer
          rw [show task.requestId.isSome = true from hid] at hfine
          cases hfine
      · rw [if_neg haccepted]
        refine hfound.setPhase htask hout ?_ (fun answer hanswer => (by cases hanswer))
        exact hsent.symm

/-- A task that ends with an error owes no answer. -/
theorem RequestsSound.failBody (h : b.RequestsSound fromStr) {i : ℕ} {task : Task}
    (htask : b.tasks[i]? = some task) {head : ResponseHead} (hphase : task.phase = .receiving head)
    (hout : b.outcome = none) {answer : Answer} (herror : answer.2 ≠ none) :
    (b.setPhase i task (.done answer)).RequestsSound fromStr := by
  have hsent : task.wasSent = true := wasSent_of_ne (fun hspawned => by
    rw [hphase] at hspawned
    cases hspawned)
  exact h.setPhase htask hout hsent.symm (fun answer' hanswer hfine => by
    cases hanswer
    exact absurd hfine herror)

theorem requests_step {action : BridgeAction} (h : b.RequestsSound fromStr)
    (hstep : b.step fromStr action = some b') : b'.RequestsSound fromStr := by
  obtain ⟨hout, hact⟩ := act_of_step hstep
  cases action with
  | arrive bytes =>
      rw [act] at hact
      split_ifs at hact
      cases hact
      exact ⟨h.bounded, h.accepted, h.numbers, h.posted, h.messages, h.answers, h.bodies,
        h.sessions, h.fine, h.ended, h.deleted⟩
  | close =>
      cases hact
      exact ⟨h.bounded, h.accepted, h.numbers, h.posted, h.messages, h.answers, h.bodies,
        h.sessions, h.fine, h.ended, h.deleted⟩
  | read count =>
      obtain ⟨⟨-, hroom, -⟩, ⟨-, rfl⟩ | ⟨bytes, -, rfl⟩ | ⟨bytes, rest, -, rfl⟩⟩ := act_read hact
      · exact h.fail hout _
      · exact ⟨h.bounded, h.accepted, h.numbers, h.posted, h.messages, h.answers, h.bodies,
          h.sessions, h.fine, h.ended, h.deleted⟩
      · have hread : ({ b with stdin := rest ++ b.stdin.drop count } : Bridge).RequestsSound
            fromStr :=
          ⟨h.bounded, h.accepted, h.numbers, h.posted, h.messages, h.answers, h.bodies,
            h.sessions, h.fine, h.ended, h.deleted⟩
        exact requests_handOn hread hout hroom bytes
  | readEnd =>
      obtain ⟨⟨-, hroom, -⟩, ⟨-, rfl⟩ | ⟨-, rfl⟩⟩ := act_readEnd hact
      · refine ⟨h.bounded, h.accepted, h.numbers, h.posted, h.messages, h.answers, h.bodies,
          h.sessions, h.fine, fun hended => ?_, h.deleted⟩
        rw [show b.outcome = some (.ok ()) from hended] at hout
        cases hout
      · exact requests_handOn h hout hroom b.line
  | readFails =>
      rw [act_readFails hact]
      exact h.fail hout _
  | send i =>
      obtain ⟨task, htask, hphase, rfl⟩ := act_send hact
      exact h.send htask hphase hout
  | sendFails i =>
      obtain ⟨task, htask, hphase, rfl⟩ := act_sendFails hact
      have hsent : task.wasSent = true := wasSent_of_ne (fun hspawned => by
        rw [hphase] at hspawned
        cases hspawned)
      exact h.setPhase htask hout hsent.symm (fun answer hanswer hfine => by
        cases hanswer
        cases hfine)
  | headers i head =>
      obtain ⟨task, htask, hphase, rfl⟩ := act_headers hact
      exact h.receive htask hphase hout head
  | body i chunks =>
      obtain ⟨task, head, htask, hphase, rfl⟩ := act_body hact
      have hsent : task.wasSent = true := wasSent_of_ne (fun hspawned => by
        rw [hphase] at hspawned
        cases hspawned)
      exact h.setPhase htask hout hsent.symm (fun answer hanswer => by
        cases hanswer
        exact fulfils_readBody task.message head chunks)
  | bodyFails i chunks =>
      obtain ⟨task, head, answer, htask, hphase, herror, rfl⟩ :=
        @act_fails _ _ _ _ _ 0 (Or.inl hact)
      exact h.failBody htask hphase hout herror
  | emitFails i chunks written =>
      obtain ⟨task, head, answer, htask, hphase, herror, rfl⟩ := act_fails (Or.inr hact)
      exact h.failBody htask hphase hout herror
  | join i =>
      obtain ⟨task, answer, htask, hphase, rfl⟩ := act_join hact
      exact h.take htask hphase hout
  | finish =>
      obtain ⟨⟨hdraining, htasks⟩, rfl⟩ := act_finish hact
      refine ⟨h.bounded, h.accepted, h.numbers, h.posted, h.messages, h.answers, h.bodies,
        h.sessions, fun _ => h.fine (fun error => ?_), fun _ => ⟨hdraining, htasks, rfl⟩,
        fun hnot => absurd rfl hnot⟩
      rw [hout]
      exact fun hended => (by cases hended)

/-! ## Runs -/

/-- What a client and a server see of the bridge. -/
structure HandlesRequests (fromStr : List UInt8 → Option Value) (b : Bridge) : Prop where
  bounded : b.tasks.length ≤ maxConcurrentRequests
  accepted : b.journal.accepted = b.journal.lines.filterMap (messageOf fromStr)
  once : (b.journal.posted.map Posted.number).Nodup
  bodies : ∀ p ∈ b.journal.posted, b.journal.accepted[p.number]? = some p.message
  sessions : ∀ p ∈ b.journal.posted, p.session = none ∨ p.session = b.session
  all : b.outcome = some (.ok ()) →
    (b.journal.posted.map Posted.number).Perm (List.range b.journal.accepted.length)
  answered : b.outcome = some (.ok ()) → ∀ (n : ℕ) message,
    b.journal.accepted[n]? = some message →
      ∃ answer, (n, answer) ∈ b.journal.answers ∧ answer.2 = none ∧ Fulfils message answer
  deleted : b.journal.deleted = if b.outcome = some (.ok ()) then b.session else none

theorem requests_start (fromStr : List UInt8 → Option Value) :
    ({} : Bridge).RequestsSound fromStr := by
  have hnone : ∀ {α : Type} {P : α → Prop}, ∀ x ∈ ([] : List α), P x :=
    fun _ hx => absurd hx List.not_mem_nil
  exact ⟨Nat.zero_le _, rfl, List.Perm.refl _, List.Perm.refl _, hnone, hnone, hnone, hnone,
    fun _ => hnone, fun hended => (by cases hended), fun _ => rfl⟩

theorem RequestsSound.once (h : b.RequestsSound fromStr) :
    (b.journal.posted.map Posted.number).Nodup := by
  have hnumbers : (b.tasks.map Task.number ++ b.journal.answers.map Prod.fst).Nodup :=
    h.numbers.nodup_iff.mpr List.nodup_range
  have hsent : ((b.tasks.filter Task.wasSent).map Task.number).Sublist
      (b.tasks.map Task.number) := List.filter_sublist.map _
  exact h.posted.nodup_iff.mpr ((hsent.append_right _).nodup hnumbers)

theorem RequestsSound.answered (h : b.RequestsSound fromStr) (hended : b.outcome = some (.ok ()))
    {n : ℕ} {message : Value} (hmessage : b.journal.accepted[n]? = some message) :
    ∃ answer, (n, answer) ∈ b.journal.answers ∧ answer.2 = none ∧ Fulfils message answer := by
  have hnumbers := h.numbers
  rw [(h.ended hended).2.1, List.map_nil, List.nil_append] at hnumbers
  have hmem : n ∈ b.journal.answers.map Prod.fst :=
    hnumbers.mem_iff.mpr (List.mem_range.mpr (List.getElem?_eq_some_iff.mp hmessage).1)
  obtain ⟨⟨n', answer⟩, hanswer, rfl⟩ := List.mem_map.mp hmem
  obtain ⟨message', hmessage', hfulfils⟩ := h.answers _ hanswer
  rw [hmessage'] at hmessage
  cases hmessage
  refine ⟨answer, hanswer, h.fine (fun error herror => ?_) _ hanswer, hfulfils⟩
  rw [hended] at herror
  cases herror

/-- In every order in which lines are read and tasks go on: no more than 64 requests are under
way, every message that was read is posted at most once, with the session of the bridge or none,
and if the bridge ends well every one of them was posted and answered. -/
theorem requests_of_run {actions : List BridgeAction}
    (h : Path (step fromStr) unguarded {} actions b) : b.HandlesRequests fromStr := by
  have hsound : b.RequestsSound fromStr :=
    h.invariant (fun _ _ _ hs _ hstep => requests_step hs hstep) (requests_start fromStr)
  refine ⟨hsound.bounded, hsound.accepted, hsound.once, hsound.bodies, hsound.sessions,
    fun hended => ?_, fun hended n message => hsound.answered hended, ?_⟩
  · have hposted := hsound.posted
    have hnumbers := hsound.numbers
    rw [(hsound.ended hended).2.1] at hposted hnumbers
    exact hposted.trans hnumbers
  · split_ifs with hended
    · exact (hsound.ended hended).2.2
    · exact hsound.deleted hended

/-- A parser for one request. -/
def anyRequest (_ : List UInt8) : Option Value :=
  some (.object [("jsonrpc", .string "2.0"), ("id", .null), ("result", .null)])

/-- Two requests at a time; the answer to the second one comes first and sets the session. -/
def overlappingRequests : List BridgeAction :=
  [.arrive [97, 10, 98, 10], .close, .read 4, .read 2, .send 0, .readEnd, .send 1,
    .headers 1 { status := 200, session := some [115], contentType := some "application/json" },
    .body 1 [[97]], .join 1,
    .headers 0 { status := 200, contentType := some "application/json; charset=utf-8" },
    .body 0 [[97], [98]], .join 0, .finish]

theorem requests_of_run_overlapping :
    ∃ b, execute (step anyRequest) {} overlappingRequests = some b ∧
      b.HandlesRequests anyRequest ∧ b.outcome = some (.ok ()) ∧
      b.journal.answers.map Prod.fst = [1, 0] ∧ b.journal.deleted = some [115] := by
  have hrun : ((execute (step anyRequest) {} overlappingRequests).any fun b =>
      b.journal.answers.map Prod.fst == [1, 0] && b.journal.deleted == some [115]) = true := by
    decide +kernel
  obtain ⟨b, hb, hread⟩ := (Option.any_eq_true _ _).mp hrun
  simp only [Bool.and_eq_true, beq_iff_eq] at hread
  have hhandles := requests_of_run (Path.of_execute hb)
  refine ⟨b, hb, hhandles, ?_, hread⟩
  by_contra hrunning
  have hdeleted := hhandles.deleted
  rw [if_neg hrunning, hread.2] at hdeleted
  cases hdeleted

end Bridge

end BlackMonolith.RemoteBridge
