import BlackMonolith.Baseline.Decisions
import BlackMonolith.Baseline.Revocation

/-!
# The first sighting of a tool

Where first contact needs an approval, a name that nobody trusts is parked with the schema
it was first seen with. While operators write back files that have not changed since they
were loaded, a parked entry that has reached the file is the only entry of its name from
then on: pending, or trusted once it is approved.
-/
namespace BlackMonolith.Baseline
open Json JsonRpc Library Sanitizer

/-! ## The entries of a name -/

/-- The record in a file; without one nothing is known. -/
def recordOf : Option Contents → BaselineFile
  | some (.json file _) => file
  | _ => ⟨∅, ∅, ∅⟩

/-- The entry stands under the name, trusted or pending. -/
def BaselineFile.Knows (file : BaselineFile) (name : String) (entry : BaselineEntry) : Prop :=
  file.tools.lookup name = some entry ∨ file.pending.lookup name = some entry

/-- No name has two entries. -/
def BaselineFile.Single (file : BaselineFile) : Prop :=
  ∀ name entry entry', file.Knows name entry → file.Knows name entry' → entry = entry'

section
variable {file file' : BaselineFile}

theorem BaselineFile.Single.mono (h : file.Single)
    (hsub : ∀ name entry, file'.Knows name entry → file.Knows name entry) : file'.Single :=
  fun name entry entry' hentry hentry' =>
    h name entry entry' (hsub name entry hentry) (hsub name entry' hentry')

theorem not_knows_empty {name : String} {entry : BaselineEntry} :
    ¬ BaselineFile.Knows ⟨∅, ∅, ∅⟩ name entry := by
  rintro (h | h)
  · exact absurd (Finmap.mem_of_lookup_eq_some h) Finmap.notMem_empty
  · exact absurd (Finmap.mem_of_lookup_eq_some h) Finmap.notMem_empty

end

section
variable {δ : Type} {cfg : Shield} {fmt : Format δ} {hmac : String → Except String String}
  {store store' : BaselineStore δ} {disk : Option Contents} {item : Listed}

theorem recordOf_of_load (h : load fmt hmac disk = .ok store) : recordOf disk = store.file := by
  rcases load_ok h with ⟨rfl, rfl⟩ | ⟨order, rfl, -, -, -⟩
  · rfl
  · rfl

theorem unpersisted_of_load (h : load fmt hmac disk = .ok store) : store.unpersisted = ∅ := by
  rcases load_ok h with ⟨-, rfl⟩ | ⟨order, -, -, hunpersisted, -⟩
  · rfl
  · exact hunpersisted

/-- A command moves an entry, and no other is lost while no name has two. -/
theorem apply_knows {command : Command} (hsingle : store.file.Single)
    (h : (command.apply store).2 = true) (name : String) (entry : BaselineEntry) :
    (command.apply store).1.file.Knows name entry ↔ store.file.Knows name entry := by
  cases command with
  | approve tool =>
      simp only [Command.apply, BaselineStore.approve] at h ⊢
      split at h
      · cases h
      · next parked hparked =>
          by_cases hname : name = tool
          · subst hname
            simp only [BaselineFile.Knows, BaselineStore.file, Finmap.lookup_insert,
              Finmap.lookup_erase, reduceCtorEq, or_false, Option.some.injEq]
            constructor
            · rintro rfl
              exact Or.inr hparked
            · exact fun hknows => hsingle name parked entry (Or.inr hparked) hknows
          · simp only [BaselineFile.Knows, BaselineStore.file,
              Finmap.lookup_insert_of_ne _ hname, Finmap.lookup_erase_ne hname]
  | revoke tool =>
      simp only [Command.apply, BaselineStore.revoke] at h ⊢
      split at h
      · cases h
      · next trusted htrusted =>
          by_cases hname : name = tool
          · subst hname
            have hknown : store.file.Knows name trusted := Or.inl htrusted
            have hpending : (if name ∈ store.pending then store.pending
                else store.pending.insert name trusted).lookup name = some trusted := by
              split_ifs with hmem
              · obtain ⟨parked, hparked⟩ := Finmap.mem_iff.mp hmem
                rw [hparked, hsingle name parked trusted (Or.inr hparked) hknown]
              · exact Finmap.lookup_insert _
            simp only [BaselineFile.Knows, BaselineStore.file, Finmap.lookup_erase, hpending,
              reduceCtorEq, false_or, Option.some.injEq]
            constructor
            · rintro rfl
              exact hknown
            · exact fun hknows => hsingle name trusted entry hknown hknows
          · have hpending : (if tool ∈ store.pending then store.pending
                else store.pending.insert tool trusted).lookup name =
                  store.pending.lookup name := by
              split_ifs
              · rfl
              · exact Finmap.lookup_insert_of_ne _ hname
            simp only [BaselineFile.Knows, BaselineStore.file, Finmap.lookup_erase_ne hname,
              hpending]

/-- A command gives no name but its own a trusted entry. -/
theorem apply_trusts {command : Command} {name : String} (hname : name ≠ command.tool)
    (h : name ∈ (command.apply store).1.tools) : name ∈ store.tools := by
  cases command with
  | approve tool =>
      simp only [Command.apply, BaselineStore.approve] at h
      split at h
      · exact h
      · exact (Finmap.mem_insert.mp h).resolve_left hname
  | revoke tool =>
      simp only [Command.apply, BaselineStore.revoke] at h
      split at h
      · exact h
      · exact (Finmap.mem_erase.mp h).2

/-! ## Listings under the approval policy -/

/-- What a listing adds under the approval policy: entries of tools of the listing, for
names without one. -/
structure Parks (hmac : String → Except String String) (items : List Listed)
    (store store' : BaselineStore δ) : Prop where
  tools : store'.tools = store.tools
  unpersisted : store'.unpersisted = store.unpersisted
  kept : ∀ name entry, store.pending.lookup name = some entry →
    store'.pending.lookup name = some entry
  sighted : ∀ name entry, store'.pending.lookup name = some entry →
    store.pending.lookup name = some entry ∨
      name ∉ store.tools ∧ name ∉ store.pending ∧ ∃ item ∈ items, item.name = name ∧
        entry.tool = item.tool ∧ entry.description = descriptionOf item.tool ∧
          fingerprintTool hmac item.tool = .ok entry.hash

theorem Parks.rfl' (items : List Listed) (store : BaselineStore δ) :
    Parks hmac items store store :=
  ⟨rfl, rfl, fun _ _ h => h, fun _ _ h => Or.inl h⟩

theorem analyzeTool_parks {items : List Listed} (happrove : cfg.firstContact = .approve)
    (hsettled : store.unpersisted = ∅) (hitem : item ∈ items) (h : Parks hmac items store store') :
    Parks hmac items store (analyzeTool cfg hmac store' item).1 := by
  have hsettled' : store'.unpersisted = ∅ := h.unpersisted.trans hsettled
  rcases analyzeTool_cases cfg hmac store' item with ⟨hash, hcompared⟩ |
    ⟨hash, events, hpark, hparked⟩ | ⟨hsame, -⟩
  · obtain ⟨hmem, -⟩ := BaselineStore.contains_iff.mp (hcompared.approved happrove)
    obtain ⟨entry, hentry⟩ := Finmap.mem_iff.mp hmem
    rw [analyzeTool_of_compared hcompared, compare_some hentry]
    exact h
  · rw [hparked]
    unfold BaselineStore.registerPending
    split
    · exact h
    · next hfree =>
        have hunknown : item.name ∉ store.tools := by
          intro hmem
          have hcontains : store'.contains item.name = true := by
            rw [BaselineStore.contains_iff, h.tools, hsettled']
            exact ⟨hmem, Finset.notMem_empty _⟩
          rw [hpark.unknown] at hcontains
          cases hcontains
        have hunparked : item.name ∉ store.pending := by
          intro hmem
          obtain ⟨entry, hentry⟩ := Finmap.mem_iff.mp hmem
          exact hfree (Finmap.mem_of_lookup_eq_some (h.kept item.name entry hentry))
        refine ⟨h.tools, h.unpersisted, fun name entry hentry => ?_, fun name entry hentry => ?_⟩
        · have hne : name ≠ item.name := by
            rintro rfl
            exact hunparked (Finmap.mem_of_lookup_eq_some hentry)
          exact (Finmap.lookup_insert_of_ne _ hne).trans (h.kept name entry hentry)
        · dsimp only at hentry
          by_cases hname : name = item.name
          · subst hname
            rw [Finmap.lookup_insert] at hentry
            cases hentry
            exact Or.inr ⟨hunknown, hunparked, item, hitem, rfl, rfl, rfl, hpark.hashed⟩
          · rw [Finmap.lookup_insert_of_ne _ hname] at hentry
            exact h.sighted name entry hentry
  · rw [hsame]
    exact h

/-- What a listing parks it has seen first. -/
theorem judgeListing_parks {clock : ℕ → ℕ} {msg : JsonRpcMessage} {tools : List Value}
    (happrove : cfg.firstContact = .approve) (hsettled : store.unpersisted = ∅) :
    Parks hmac (listing cfg clock tools) store
      (judgeListing cfg hmac clock msg tools store).store := by
  rw [judgeListing_store]
  exact @Sweep.invariant _ _ _ _ _ _ _
    (fun s : BaselineStore δ => Parks hmac (listing cfg clock tools) store s)
    (fun s item hitem hs => analyzeTool_parks happrove hsettled hitem hs) (.rfl' _ store)

theorem Parks.knows {items : List Listed} (h : Parks hmac items store store') {name : String}
    {entry : BaselineEntry} (hknows : store.file.Knows name entry) :
    store'.file.Knows name entry := by
  cases hknows with
  | inl htools => exact Or.inl ((congrArg (Finmap.lookup name) h.tools).trans htools)
  | inr hpending => exact Or.inr (h.kept name entry hpending)

theorem Parks.single {items : List Listed} (h : Parks hmac items store store')
    (hsingle : store.file.Single) : store'.file.Single := by
  have hcases : ∀ name entry, store'.file.Knows name entry → store.file.Knows name entry ∨
      (name ∉ store.tools ∧ name ∉ store.pending) ∧ store'.pending.lookup name = some entry := by
    intro name entry hknows
    cases hknows with
    | inl htools =>
        exact Or.inl (Or.inl ((congrArg (Finmap.lookup name) h.tools).symm.trans htools))
    | inr hpending =>
        rcases h.sighted name entry hpending with hold | ⟨htools, hfree, -⟩
        · exact Or.inl (Or.inr hold)
        · exact Or.inr ⟨⟨htools, hfree⟩, hpending⟩
  have hunknown : ∀ name entry, store.file.Knows name entry →
      ¬ (name ∉ store.tools ∧ name ∉ store.pending) := by
    rintro name entry (htools | hpending) ⟨hnot, hfree⟩
    · exact hnot (Finmap.mem_of_lookup_eq_some htools)
    · exact hfree (Finmap.mem_of_lookup_eq_some hpending)
  intro name entry entry' hentry hentry'
  rcases hcases name entry hentry with hold | ⟨hnew, hpending⟩
  · rcases hcases name entry' hentry' with hold' | ⟨hnew', -⟩
    · exact hsingle name entry entry' hold hold'
    · exact absurd hnew' (hunknown name entry hold)
  · rcases hcases name entry' hentry' with hold' | ⟨-, hpending'⟩
    · exact absurd hnew (hunknown name entry' hold')
    · exact Option.some.inj (hpending.symm.trans hpending')

end

/-! ## Runs -/

section
variable {δ : Type} {cfg : Shield} {fmt : Format δ} {hmac : String → Except String String}
  {store store' : BaselineStore δ} {disk : Option Contents} {name : String}
  {entry : BaselineEntry}

/-- Listings are judged under the approval policy, and an operator writes back the record
that is in the file. -/
def approvalGuard (sys : System δ) (action : Action) : Prop :=
  match action with
  | .analyse cfg _ _ => cfg.firstContact = .approve
  | .operatorCommit id _ => ∀ operator, sys.operators id = some operator →
      recordOf sys.disk = operator.store.file
  | _ => True

/-- A copy of the record has one entry of a name at most, every entry of the record, and
registrations that are on disk. -/
structure Retains (record : BaselineFile) (store : BaselineStore δ) : Prop where
  single : store.file.Single
  covers : ∀ name entry, record.Knows name entry → store.file.Knows name entry
  settled : store.unpersisted = ∅

/-- The invariant of runs under the approval policy; nothing is trusted that no operator
has decided. -/
structure System.Pins (sys : System δ) : Prop where
  disk : (recordOf sys.disk).Single
  proxy : ∀ store, sys.proxy = some store → Retains (recordOf sys.disk) store
  undecided : ∀ name, sys.decisions name = none → name ∉ (recordOf sys.disk).tools ∧
    ∀ store, sys.proxy = some store → name ∉ store.tools

theorem System.init_pins : ({} : System δ).Pins where
  disk := fun _ _ _ hentry _ => absurd hentry not_knows_empty
  proxy := fun _ h => nomatch h
  undecided := fun _ _ => ⟨Finmap.notMem_empty, fun _ h => nomatch h⟩

theorem SameBaseline.retains {record : BaselineFile} (h : SameBaseline store store')
    (hholds : Retains record store) : Retains record store' := by
  obtain ⟨hsingle, hcovers, hsettled⟩ := hholds
  refine ⟨?_, ?_, h.unpersisted.trans hsettled⟩
  · rw [h.file]
    exact hsingle
  · rw [h.file]
    exact hcovers

theorem SameBaseline.tools (h : SameBaseline store store') : store'.tools = store.tools :=
  congrArg BaselineFile.tools h.file

/-- What is merged was in memory, which holds what is on disk. -/
theorem merge_retains {reloaded : BaselineStore δ} (h : Retains reloaded.file store) :
    Retains reloaded.file (store.merge reloaded) := by
  have hmerged : ∀ name entry, (store.merge reloaded).file.Knows name entry →
      reloaded.file.Knows name entry ∨ store.file.Knows name entry := by
    rintro name entry (htools | hpending)
    · have hlookup : (reloaded.tools ∪ store.tools).lookup name = some entry := htools
      rw [lookup_union, Option.or_eq_some_iff] at hlookup
      rcases hlookup with hdisk | ⟨-, hmemory⟩
      · exact Or.inl (Or.inl hdisk)
      · exact Or.inr (Or.inl hmemory)
    · have hlookup : (reloaded.pending ∪ (store.pending \ (reloaded.tools ∪ store.tools))).lookup
          name = some entry := hpending
      rw [lookup_union, Option.or_eq_some_iff] at hlookup
      rcases hlookup with hdisk | ⟨-, hmemory⟩
      · exact Or.inl (Or.inr hdisk)
      · exact Or.inr (Or.inr (lookup_sdiff_some hmemory))
  refine ⟨h.single.mono fun name entry hknows => ?_, fun name entry hknows => ?_, ?_⟩
  · exact (hmerged name entry hknows).elim (h.covers name entry) id
  · cases hknows with
    | inl htools =>
        refine Or.inl ?_
        change (reloaded.tools ∪ store.tools).lookup name = some entry
        rw [lookup_union, show reloaded.tools.lookup name = some entry from htools]
        rfl
    | inr hpending =>
        refine Or.inr ?_
        change (reloaded.pending ∪ (store.pending \ (reloaded.tools ∪ store.tools))).lookup name =
          some entry
        rw [lookup_union, show reloaded.pending.lookup name = some entry from hpending]
        rfl
  · change store.unpersisted.filter (· ∉ reloaded.tools) = ∅
    rw [h.settled]
    rfl

variable [DecidableEq δ]

theorem reload_retains (hdisk : (recordOf disk).Single) (h : Retains (recordOf disk) store) :
    Retains (recordOf disk) (reload cfg fmt hmac disk store).1 ∧
      ∀ name ∈ (reload cfg fmt hmac disk store).1.tools,
        name ∈ (recordOf disk).tools ∨ name ∈ store.tools := by
  cases @reload_cases _ cfg fmt hmac store disk _ with
  | current _ hsame =>
      refine ⟨hsame.retains h, fun name hname => Or.inr ?_⟩
      rw [hsame.tools] at hname
      exact hname
  | cleared hnone _ hsame =>
      have hempty : Retains (recordOf disk) ({} : BaselineStore δ) := by
        rw [hnone]
        exact ⟨fun _ _ _ hentry _ => absurd hentry not_knows_empty, fun _ _ hknows => hknows, rfl⟩
      refine ⟨hsame.retains hempty, fun name hname => ?_⟩
      rw [hsame.tools] at hname
      exact absurd hname Finmap.notMem_empty
  | read reloaded hload _ _ hsame =>
      rw [recordOf_of_load hload] at h hdisk ⊢
      rw [hsame.tools]
      cases hdirty : store.dirty with
      | true =>
          rw [hdirty, if_pos rfl] at hsame
          exact ⟨hsame.retains (merge_retains h), fun name hname => Finmap.mem_union.mp hname⟩
      | false =>
          rw [hdirty, if_neg Bool.false_ne_true] at hsame
          exact ⟨hsame.retains ⟨hdisk, fun _ _ hknows => hknows, rfl⟩,
            fun name hname => Or.inl hname⟩

/-- What one step preserves. -/
theorem step_pins (sys : System δ) (action : Action) (sys' : System δ) (h : sys.Pins)
    (hguard : approvalGuard sys action) (hstep : systemStep fmt hmac sys action = some sys') :
    sys'.Pins := by
  cases step_cases hstep with
  | start store lock hload hlock =>
      have hrecord := recordOf_of_load hload
      refine ⟨h.disk, fun store' heq => ?_, fun name hname => ⟨(h.undecided name hname).1, ?_⟩⟩
      · cases heq
        refine ⟨hrecord ▸ h.disk, fun name entry hknows => ?_, unpersisted_of_load hload⟩
        rw [← hrecord]
        exact hknows
      · intro store' heq hmem
        cases heq
        have htools : (recordOf sys.disk).tools = store.tools :=
          congrArg BaselineFile.tools hrecord
        exact (h.undecided name hname).1 (htools ▸ hmem)
  | reload cfg store hphase hproxy =>
      obtain ⟨hholds, htools⟩ := @reload_retains _ cfg fmt hmac store sys.disk _ h.disk
        (h.proxy store hproxy)
      refine ⟨h.disk, fun store' heq => ?_, fun name hname => ⟨(h.undecided name hname).1, ?_⟩⟩
      · cases heq
        exact hholds
      · intro store' heq hmem
        cases heq
        obtain ⟨hdisk, hmemory⟩ := h.undecided name hname
        exact (htools name hmem).elim hdisk (hmemory store hproxy)
  | analyse cfg clock msg store tools phase hphase hproxy htools hnext =>
      obtain ⟨hsingle, hcovers, hsettled⟩ := h.proxy store hproxy
      have hparks := @judgeListing_parks _ cfg hmac store clock msg tools hguard hsettled
      refine ⟨h.disk, fun store' heq => ?_, fun name hname => ⟨(h.undecided name hname).1, ?_⟩⟩
      · cases heq
        exact ⟨hparks.single hsingle, fun name entry hknows =>
          hparks.knows (hcovers name entry hknows), hparks.unpersisted.trans hsettled⟩
      · intro store' heq hmem
        cases heq
        rw [hparks.tools] at hmem
        exact (h.undecided name hname).2 store hproxy hmem
  | save outcome store hphase hproxy =>
      have hholds := h.proxy store hproxy
      rcases @persist_cases _ fmt store outcome sys.disk with ⟨hsame, hdisk⟩ | ⟨order, hwritten⟩
      · rw [hdisk]
        refine ⟨h.disk, fun store' heq => ?_, fun name hname => ⟨(h.undecided name hname).1, ?_⟩⟩
        · cases heq
          exact hsame.retains hholds
        · intro store' heq hmem
          cases heq
          rw [hsame.tools] at hmem
          exact (h.undecided name hname).2 store hproxy hmem
      · rw [hwritten.disk]
        have hfile := hwritten.file
        have htools : (persist fmt outcome sys.disk store).1.tools = store.tools :=
          congrArg BaselineFile.tools hfile
        refine ⟨hholds.single, fun store' heq => ?_, fun name hname => ⟨?_, ?_⟩⟩
        · cases heq
          refine ⟨hfile ▸ hholds.single, fun name entry hknows => ?_, hwritten.unpersisted⟩
          rw [hfile]
          exact hknows
        · exact (h.undecided name hname).2 store hproxy
        · intro store' heq hmem
          cases heq
          rw [htools] at hmem
          exact (h.undecided name hname).2 store hproxy hmem
  | operatorCommit id outcome operator hoperator hlock =>
      have hrecord : recordOf sys.disk = operator.store.file := hguard operator hoperator
      rcases @commit_cases _ fmt sys id operator outcome with hcommit | ⟨order, happly, hcommit⟩
      · rw [hcommit]
        exact ⟨h.disk, h.proxy, h.undecided⟩
      · rw [hcommit]
        have hsingle : operator.store.file.Single := hrecord ▸ h.disk
        have hknows := apply_knows hsingle happly
        refine ⟨hsingle.mono fun name entry hknown => (hknows name entry).mp hknown,
          fun store hproxy => ?_, fun name hname => ?_⟩
        · obtain ⟨hsingle', hcovers, hsettled⟩ := h.proxy store hproxy
          refine ⟨hsingle', fun name entry hknown => hcovers name entry ?_, hsettled⟩
          rw [hrecord]
          exact (hknows name entry).mp hknown
        · dsimp only at hname
          have hne : name ≠ operator.command.tool := by
            rintro rfl
            rw [Function.update_self] at hname
            cases hname
          rw [Function.update_of_ne hne] at hname
          obtain ⟨hdisk, hproxy⟩ := h.undecided name hname
          refine ⟨fun hmem => hdisk ?_, hproxy⟩
          rw [hrecord]
          exact apply_trusts hne hmem
  | acquire hidle hlock => exact ⟨h.disk, h.proxy, h.undecided⟩
  | release hlock => exact ⟨h.disk, h.proxy, h.undecided⟩
  | operatorLoad id command store hfree hload => exact ⟨h.disk, h.proxy, h.undecided⟩
  | operatorLock id hlock => exact ⟨h.disk, h.proxy, h.undecided⟩

/-- An entry that has reached the file stays in it. -/
theorem step_knows (sys : System δ) (action : Action) (sys' : System δ) (h : sys.Pins)
    (hguard : approvalGuard sys action) (hstep : systemStep fmt hmac sys action = some sys')
    (hknows : (recordOf sys.disk).Knows name entry) : (recordOf sys'.disk).Knows name entry := by
  cases step_cases hstep with
  | save outcome store hphase hproxy =>
      rcases @persist_cases _ fmt store outcome sys.disk with ⟨-, hdisk⟩ | ⟨order, hwritten⟩
      · rw [hdisk]
        exact hknows
      · rw [hwritten.disk]
        exact (h.proxy store hproxy).covers name entry hknows
  | operatorCommit id outcome operator hoperator hlock =>
      have hrecord : recordOf sys.disk = operator.store.file := hguard operator hoperator
      rcases @commit_cases _ fmt sys id operator outcome with hcommit | ⟨order, happly, hcommit⟩
      · rw [hcommit]
        exact hknows
      · rw [hcommit]
        rw [hrecord] at hknows
        exact (apply_knows (hrecord ▸ h.disk) happly name entry).mpr hknows
  | start store lock hload hlock => exact hknows
  | acquire hidle hlock => exact hknows
  | reload cfg store hphase hproxy => exact hknows
  | analyse cfg clock msg store tools phase hphase hproxy htools hnext => exact hknows
  | release hlock => exact hknows
  | operatorLoad id command store hfree hload => exact hknows
  | operatorLock id hlock => exact hknows

/-- A store that has read or written a file trusts what the file trusts. -/
def KeepsTrust (fmt : Format δ) (store : BaselineStore δ) : Prop :=
  ∀ file order, store.diskDigest = some (fmt.digest (.json file order)) →
    ∀ name ∈ file.tools, name ∈ store.tools

omit [DecidableEq δ] in
theorem keepsTrust_of_digest (hinjective : Function.Injective fmt.digest) {file : BaselineFile}
    {order : ℕ} (hdigest : store.diskDigest = some (fmt.digest (.json file order)))
    (htools : ∀ name ∈ file.tools, name ∈ store.tools) : KeepsTrust fmt store := by
  intro file' order' heq
  rw [hdigest] at heq
  cases hinjective (Option.some.inj heq)
  exact htools

omit [DecidableEq δ] in
theorem KeepsTrust.mono (h : KeepsTrust fmt store) (hdigest : store'.diskDigest = store.diskDigest)
    (htools : ∀ name ∈ store.tools, name ∈ store'.tools) : KeepsTrust fmt store' := by
  intro file order heq name hmem
  rw [hdigest] at heq
  exact htools name (h file order heq name hmem)

omit [DecidableEq δ] in
theorem keepsTrust_of_load (hinjective : Function.Injective fmt.digest)
    (h : load fmt hmac disk = .ok store) : KeepsTrust fmt store := by
  rcases load_ok h with ⟨-, rfl⟩ | ⟨order, -, -, -, hdigest⟩
  · intro file order heq
    cases heq
  · exact keepsTrust_of_digest hinjective hdigest fun _ hmem => hmem

theorem reload_keepsTrust (hinjective : Function.Injective fmt.digest)
    (h : KeepsTrust fmt store) : KeepsTrust fmt (reload cfg fmt hmac disk store).1 := by
  cases @reload_cases _ cfg fmt hmac store disk _ with
  | current _ hsame => exact h.mono hsame.diskDigest fun name hmem => hsame.tools ▸ hmem
  | cleared _ _ hsame =>
      intro file order heq
      rw [hsame.diskDigest] at heq
      cases heq
  | read reloaded hload hdisk _ hsame =>
      rcases load_ok hload with ⟨hnone, -⟩ | ⟨order, -, -, -, hdigest⟩
      · exact absurd hnone hdisk
      · apply KeepsTrust.mono _ hsame.diskDigest fun name hmem => hsame.tools ▸ hmem
        split
        · exact keepsTrust_of_digest hinjective hdigest fun name hmem =>
            Finmap.mem_union.mpr (Or.inl hmem)
        · exact keepsTrust_of_digest hinjective hdigest fun _ hmem => hmem

/-- The proxy trusts what the file it has seen trusts. -/
def System.KeepsTrust (fmt : Format δ) (sys : System δ) : Prop :=
  ∀ store, sys.proxy = some store → Baseline.KeepsTrust fmt store

theorem step_keepsTrust (hinjective : Function.Injective fmt.digest) (sys : System δ)
    (action : Action) (sys' : System δ) (h : sys.KeepsTrust fmt)
    (hstep : systemStep fmt hmac sys action = some sys') : sys'.KeepsTrust fmt := by
  intro store' hproxy'
  cases step_cases hstep with
  | start store lock hload hlock =>
      cases hproxy'
      exact keepsTrust_of_load hinjective hload
  | reload cfg store hphase hproxy =>
      cases hproxy'
      exact reload_keepsTrust hinjective (h store hproxy)
  | analyse cfg clock msg store tools phase hphase hproxy htools hnext =>
      cases hproxy'
      have hgrows : Grows store (judgeListing cfg hmac clock msg tools store).store :=
        judgeListing_grows
      apply (h store hproxy).mono hgrows.diskDigest
      intro name hmem
      obtain ⟨entry, hentry⟩ := Finmap.mem_iff.mp hmem
      exact Finmap.mem_of_lookup_eq_some (hgrows.tools name entry hentry)
  | save outcome store hphase hproxy =>
      cases hproxy'
      rcases @persist_cases _ fmt store outcome sys.disk with ⟨hsame, -⟩ | ⟨order, hwritten⟩
      · exact (h store hproxy).mono hsame.diskDigest fun name hmem => hsame.tools ▸ hmem
      · have htools : (persist fmt outcome sys.disk store).1.tools = store.tools :=
          congrArg BaselineFile.tools hwritten.file
        exact keepsTrust_of_digest hinjective hwritten.diskDigest fun name hmem => htools ▸ hmem
  | operatorCommit id outcome operator hoperator hlock =>
      rcases @commit_cases _ fmt sys id operator outcome with hcommit | ⟨order, -, hcommit⟩
      · rw [hcommit] at hproxy'
        exact h store' hproxy'
      · rw [hcommit] at hproxy'
        exact h store' hproxy'
  | acquire hidle hlock => exact h store' hproxy'
  | release hlock => exact h store' hproxy'
  | operatorLoad id command store hfree hload => exact h store' hproxy'
  | operatorLock id hlock => exact h store' hproxy'

end

/-! ## What a listing of the name comes to -/

section
variable {δ : Type} {cfg : Shield} {fmt : Format δ} {hmac : String → Except String String}
  {store : BaselineStore δ} {clock : ℕ → ℕ} {tools : List Value} {msg : JsonRpcMessage}
  {name : String} {entry : BaselineEntry} {item : Listed}

def nameOf (tool : Value) : Option String := (tool.get "name").bind Value.asStr

/-- The agent gets no tool of the name, unless it is one of the boundary's. -/
def WithheldFrom (cfg : Shield) (name : String) (msg : JsonRpcMessage) : Prop :=
  ∀ tool ∈ entriesOf msg, tool ∈ cfg.descriptors ∨ nameOf tool ≠ some name

/-- The events of a listing report that the tool of the name has another schema than the
entry, whatever became of the response. -/
def ReportsMismatch (name hash : String) (entry : BaselineEntry)
    (events : List DeferredEvent) : Prop :=
  ∀ applied, ∃ event ∈ emitDeferred applied events, event.eventType = "schema_mismatch" ∧
    eventTool event = some name ∧
    event.details.get "baseline_hash" = some (.string entry.hash) ∧
    event.details.get "current_hash" = some (.string hash)

/-- Nothing keeps the item from being compared with the entry of its name. -/
structure Comparable (cfg : Shield) (store : BaselineStore δ) (item : Listed) : Prop where
  served : item.isWithheld = false
  unshadowed : cfg.boundary.any (·.isSecretTool item.name) = false
  unrevoked : item.name ∉ store.revoked

/-- What is served for a tool has the name of the tool. -/
theorem name_of_served (hsound : SoundFile hmac store.file)
    (hreadable : item.isWithheld = false → ∃ identity, Readable item.tool identity)
    {out : Disposition × List DeferredEvent} {x : Value}
    (hout : (analyzeTool cfg hmac store item).2 = .ok out) (hx : served item.tool out.1 = some x) :
    nameOf x = some item.name := by
  obtain ⟨hash, hthrough⟩ := (served_iff_letThrough hout).mp ⟨x, hx⟩
  obtain ⟨identity, hnamed⟩ := hreadable hthrough.compared.served
  obtain ⟨events, houtcome⟩ := outcome_of_compared hthrough.compared
  rw [hout] at houtcome
  rw [Except.ok.inj houtcome] at hx
  dsimp only at hx
  cases hfate : (judge cfg item (scanDescription cfg.unicode (descriptionOf item.tool)) hash
      (store.compare item hash).2).1 with
  | kept =>
      rw [hfate] at hx
      cases hx
      exact hnamed.name
  | blocked =>
      rw [hfate] at hx
      cases hx
  | restored tool =>
      rw [hfate] at hx
      cases hx
      obtain ⟨baseline, hverdict, rfl⟩ := mismatch_of_restored hfate
      cases hlookup : store.tools.lookup item.name with
      | none =>
          rw [compare_none hlookup] at hverdict
          cases hverdict
      | some entry =>
          rw [compare_some hlookup] at hverdict
          dsimp only at hverdict
          split_ifs at hverdict
          rw [← Verdict.mismatch.inj hverdict]
          exact (hsound.tools item.name entry hlookup).named

/-- Under the approval policy, a name without a trusted entry is withheld. -/
theorem withheld_of_untrusted (happrove : cfg.firstContact = .approve)
    (hsound : SoundFile hmac store.file) (htotal : ∀ text, ∃ hash, hmac text = .ok hash)
    (htools : listedTools msg = some tools) (hname : name ∉ store.tools) :
    WithheldFrom cfg name ((judgeListing cfg hmac clock msg tools store).delivered msg) := by
  intro tool htool
  rw [judged_delivered htotal htools, List.mem_append] at htool
  cases htool with
  | inr hdescriptor => exact Or.inl hdescriptor
  | inl hdelivered =>
      right
      obtain ⟨p, hp, hserved⟩ := mem_deliveredTools.mp hdelivered
      have hspec := (@outcomes_spec _ cfg hmac store clock tools htotal).1
      have houtcome := (List.forall₂_iff_zip.mp hspec).2 hp
      have hreadable := @served_readable cfg p.1 clock tools (List.of_mem_zip hp).1
      rw [name_of_served hsound hreadable houtcome hserved]
      obtain ⟨hash, hthrough⟩ := (served_iff_letThrough houtcome).mp ⟨tool, hserved⟩
      have hcontains := hthrough.compared.approved happrove
      intro heq
      rw [Option.some.inj heq] at hcontains
      exact hname (BaselineStore.contains_iff.mp hcontains).1

/-- Whether an enforcement was applied changes the action of an event only. -/
theorem emitted_of_mem {e : DeferredEvent} {events : List DeferredEvent}
    {members : List (String × Value)} (hmem : e ∈ events)
    (hmembers : e.event.details = .object members) (applied : Bool) :
    ∃ event ∈ emitDeferred applied events, event.eventType = e.event.eventType ∧
      ∀ key, key ≠ "action" → event.details.get key = e.event.details.get key := by
  unfold emitDeferred
  refine ⟨_, List.mem_map.mpr ⟨e, hmem, rfl⟩, ?_, ?_⟩
  · split
    · rfl
    · rfl
  · intro key hkey
    split
    · rw [hmembers]
      exact Value.lookup_insertMember_ne hkey _ _
    · rfl

theorem judgeListing_deferred
    (hnone : (sweep (analyzeTool cfg hmac) store (listing cfg clock tools)).2.2 = none) :
    (judgeListing cfg hmac clock msg tools store).deferred =
      (outcomes cfg hmac store clock tools).flatMap (·.2) := by
  unfold judgeListing outcomes
  simp only [hnone]
  split
  · rfl
  · rfl

/-- The event of a mismatch names the tool and both fingerprints. -/
theorem judge_mismatch (findings : List Finding) (hash : String) :
    ∃ e ∈ (judge cfg item findings hash (.mismatch entry)).2, ∃ members,
      e.event = ⟨"schema_mismatch", .critical, .object members⟩ ∧
        members.lookup "tool" = some (.string item.name) ∧
        members.lookup "baseline_hash" = some (.string entry.hash) ∧
        members.lookup "current_hash" = some (.string hash) :=
  ⟨_, List.mem_append_left _ (List.mem_singleton_self _), _, rfl, rfl, rfl, rfl⟩

/-- A trusted name is compared with its entry, and another schema reported. -/
theorem mismatch_reported (hsettled : store.unpersisted = ∅) (hsound : SoundFile hmac store.file)
    (htotal : ∀ text, ∃ hash, hmac text = .ok hash)
    (hinjective : ∀ text text' hash, hmac text = .ok hash → hmac text' = .ok hash → text = text')
    (hitem : item ∈ listing cfg clock tools) (hcomparable : Comparable cfg store item)
    (hentry : store.tools.lookup item.name = some entry)
    (hschema : canonicalize item.tool ≠ canonicalize entry.tool) :
    ∃ hash, fingerprintTool hmac item.tool = .ok hash ∧
      ReportsMismatch item.name hash entry
        (judgeListing cfg hmac clock msg tools store).deferred := by
  obtain ⟨hash, hhash⟩ := htotal (canonicalize item.tool)
  have hcontains : store.contains item.name = true := by
    rw [BaselineStore.contains_iff, hsettled]
    exact ⟨Finmap.mem_of_lookup_eq_some hentry, Finset.notMem_empty _⟩
  have hcompared : Compared cfg hmac store item hash :=
    ⟨hcomparable.served, hcomparable.unshadowed, hcomparable.unrevoked, hhash,
      fun _ _ => hcontains, fun _ => hcontains⟩
  have hne : entry.hash ≠ hash := by
    intro heq
    have htrusted : hmac (canonicalize entry.tool) = .ok entry.hash :=
      (hsound.tools item.name entry hentry).hash
    rw [heq] at htrusted
    exact hschema (hinjective _ _ hash hhash htrusted)
  obtain ⟨hspec, hnone⟩ := @outcomes_spec _ cfg hmac store clock tools htotal
  obtain ⟨out, hout⟩ := exists_zip_of_forall₂ hspec hitem
  have houtcome := (List.forall₂_iff_zip.mp hspec).2 hout
  rw [analyzeTool_of_compared hcompared, compare_some hentry, if_neg hne] at houtcome
  have hevents : out.2 = defectEvents item ++ (judge cfg item
      (scanDescription cfg.unicode (descriptionOf item.tool)) hash (.mismatch entry)).2 :=
    congrArg Prod.snd (Except.ok.inj houtcome).symm
  obtain ⟨e, he, members, hevent, htool, hbaseline, hcurrent⟩ := @judge_mismatch cfg entry item
    (scanDescription cfg.unicode (descriptionOf item.tool)) hash
  have hmem : e ∈ (judgeListing cfg hmac clock msg tools store).deferred := by
    rw [judgeListing_deferred hnone]
    refine List.mem_flatMap.mpr ⟨out, (List.of_mem_zip hout).2, ?_⟩
    rw [hevents]
    exact List.mem_append_right _ he
  have hdetails : e.event.details = .object members := by rw [hevent]
  refine ⟨hash, hhash, fun applied => ?_⟩
  obtain ⟨event, hemitted, htype, hget⟩ := emitted_of_mem hmem hdetails applied
  refine ⟨event, hemitted, ?_, ?_, ?_, ?_⟩
  · rw [htype, hevent]
  · rw [eventTool, hget "tool" (by decide), hdetails, Value.get_object, htool]
    rfl
  · rw [hget "baseline_hash" (by decide), hdetails, Value.get_object, hbaseline]
  · rw [hget "current_hash" (by decide), hdetails, Value.get_object, hcurrent]

end

/-! ## From the first sighting on -/

section
variable {δ : Type} [DecidableEq δ] {fmt : Format δ} {hmac : String → Except String String}
  {name : String} {entry : BaselineEntry}

/-- What holds of a name whose entry has reached the file. A name that no operator has
decided is not trusted; what is listed under a trusted name is compared unless it is
withheld before. -/
structure System.Pinned (fmt : Format δ) (hmac : String → Except String String) (sys : System δ)
    (name : String) (entry : BaselineEntry) : Prop where
  file : ∀ other, (recordOf sys.disk).Knows name other ↔ other = entry
  memory : ∀ store, sys.proxy = some store → ∀ other, store.file.Knows name other ↔ other = entry
  approved : ∀ id outcome operator sys', sys.operators id = some operator →
    operator.command = .approve name → approvalGuard sys (.operatorCommit id outcome) →
      systemStep fmt hmac sys (.operatorCommit id outcome) = some sys' →
        sys'.disk = sys.disk ∨ (recordOf sys'.disk).tools.lookup name = some entry
  trusted : ∀ store, sys.proxy = some store → name ∈ (recordOf sys.disk).tools →
    store.diskDigest = sys.disk.map fmt.digest → store.tools.lookup name = some entry
  withheld : ∀ cfg clock msg tools store, sys.proxy = some store →
    listedTools msg = some tools → cfg.firstContact = .approve →
      sys.decisions name = none ∨ name ∉ store.tools →
        WithheldFrom cfg name ((judgeListing cfg hmac clock msg tools store).delivered msg)
  reported : ∀ cfg clock msg tools store, sys.proxy = some store →
    listedTools msg = some tools → name ∈ store.tools →
      ∀ item ∈ listing cfg clock tools, item.name = name → Comparable cfg store item →
        canonicalize item.tool ≠ canonicalize entry.tool →
          ∃ hash, fingerprintTool hmac item.tool = .ok hash ∧
            ReportsMismatch name hash entry
              (judgeListing cfg hmac clock msg tools store).deferred

theorem pinned_of_pins {sys : System δ} (hpins : sys.Pins) (hsound : sys.Sound hmac)
    (hkeeps : sys.KeepsTrust fmt) (htotal : ∀ text, ∃ hash, hmac text = .ok hash)
    (hinjective : ∀ text text' hash, hmac text = .ok hash → hmac text' = .ok hash → text = text')
    (hknows : (recordOf sys.disk).Knows name entry) : sys.Pinned fmt hmac name entry := by
  have hmemory : ∀ store, sys.proxy = some store → ∀ other,
      store.file.Knows name other ↔ other = entry := by
    intro store hproxy other
    obtain ⟨hsingle, hcovers, -⟩ := hpins.proxy store hproxy
    constructor
    · exact fun hother => hsingle name other entry hother (hcovers name entry hknows)
    · rintro rfl
      exact hcovers name other hknows
  have htrusted : ∀ store, sys.proxy = some store → name ∈ store.tools →
      store.tools.lookup name = some entry := by
    intro store hproxy hmem
    obtain ⟨other, hother⟩ := Finmap.mem_iff.mp hmem
    rw [hother, (hmemory store hproxy other).mp (Or.inl hother)]
  refine ⟨fun other => ⟨fun hother => hpins.disk name other entry hother hknows, ?_⟩, hmemory,
    ?_, ?_, ?_, ?_⟩
  · rintro rfl
    exact hknows
  · intro id outcome operator sys' hoperator hcommand hguard hstep
    have hrecord : recordOf sys.disk = operator.store.file := hguard operator hoperator
    cases step_cases hstep with
    | operatorCommit _ _ operator' hoperator' _ =>
        rw [hoperator] at hoperator'
        cases hoperator'
        rcases @commit_cases _ fmt sys id operator outcome with hcommit | ⟨order, happly, hcommit⟩
        · rw [hcommit]
          exact Or.inl rfl
        · rw [hcommit]
          right
          have hhonours := (apply_honours happly).1
          rw [hcommand] at hhonours
          obtain ⟨other, hother⟩ := Finmap.mem_iff.mp hhonours.1
          rw [← hcommand] at hother
          have hold := (apply_knows (hrecord ▸ hpins.disk) happly name other).mp (Or.inl hother)
          rw [← hrecord] at hold
          rw [← hpins.disk name other entry hold hknows]
          exact hother
  · intro store hproxy hmem hdigest
    cases hdisk : sys.disk with
    | none =>
        rw [hdisk] at hmem
        exact absurd hmem Finmap.notMem_empty
    | some contents =>
        rw [hdisk] at hmem hdigest
        cases contents with
        | other text => exact absurd hmem Finmap.notMem_empty
        | json file order =>
            exact htrusted store hproxy (hkeeps store hproxy file order hdigest name hmem)
  · intro cfg clock msg tools store hproxy htools happrove hname
    apply withheld_of_untrusted happrove (hsound.proxy store hproxy) htotal htools
    cases hname with
    | inl hundecided => exact (hpins.undecided name hundecided).2 store hproxy
    | inr huntrusted => exact huntrusted
  · intro cfg clock msg tools store hproxy htools hmem item hitem hname hcomparable hschema
    subst hname
    exact mismatch_reported (hpins.proxy store hproxy).settled (hsound.proxy store hproxy) htotal
      hinjective hitem hcomparable (htrusted store hproxy hmem) hschema

/-- In every run under the approval policy, an entry that is pending in the file stays the
one entry of its name: the tool is withheld until an operator approves it, what is trusted
then is the entry, and another schema of the name is reported. -/
theorem first_sighting_pinned (hdigest : Function.Injective fmt.digest)
    (htotal : ∀ text, ∃ hash, hmac text = .ok hash)
    (hinjective : ∀ text text' hash, hmac text = .ok hash → hmac text' = .ok hash → text = text')
    {sys₀ sys : System δ} {before after : List Action}
    (hbefore : Path (systemStep fmt hmac) approvalGuard {} before sys₀)
    (hpending : (recordOf sys₀.disk).pending.lookup name = some entry)
    (hafter : Path (systemStep fmt hmac) approvalGuard sys₀ after sys) :
    sys.Pinned fmt hmac name entry := by
  have hpins₀ : sys₀.Pins := hbefore.invariant step_pins System.init_pins
  have hstep : ∀ (s : System δ) (action : Action) (t : System δ),
      s.Pins ∧ (recordOf s.disk).Knows name entry → approvalGuard s action →
        systemStep fmt hmac s action = some t → t.Pins ∧ (recordOf t.disk).Knows name entry :=
    fun s action t hs hguard hst => ⟨step_pins s action t hs.1 hguard hst,
      step_knows s action t hs.1 hguard hst hs.2⟩
  obtain ⟨hpins, hknows⟩ := hafter.invariant hstep ⟨hpins₀, Or.inr hpending⟩
  have hall : Path (systemStep fmt hmac) unguarded {} (before ++ after) sys :=
    (hbefore.append hafter).mono fun _ _ _ => trivial
  have hkeeps : sys.KeepsTrust fmt :=
    hall.invariant (fun s action t hs _ => step_keepsTrust hdigest s action t hs)
      fun store heq => nomatch heq
  exact pinned_of_pins hpins (hall.invariant step_sound System.init_sound) hkeeps htotal hinjective
    hknows

end

/-! ## A name listed twice -/

/-- An operator approves the tool that was parked first. -/
def approveRead : List Action :=
  [.operatorLoad 0 (.approve "read"), .operatorLock 0, .operatorCommit 0 (.ok 0)]

def beginApproved : List Action := [.acquire, .reload approvalShield]

/-- The tool with another schema. -/
def changedRead : Value :=
  .object [("description", .string "Reads another file."), ("inputSchema", .object []),
    ("name", .string "read")]

def listed (entries : List Value) : JsonRpcMessage where
  jsonrpc := some "2.0"
  id := some (number 1)
  result := some (.object [("tools", .array entries)])

/-- Both entries are withheld, and no mismatch is reported. -/
theorem repeated_name_not_compared :
    ∃ sys store, execute (systemStep plainFormat plainHmac) {}
        (parkTwo ++ approveRead ++ beginApproved) = some sys ∧
      sys.phase = .reloaded ∧ sys.proxy = some store ∧
      (store.tools.lookup "read").any (fun entry =>
        canonicalize changedRead ≠ canonicalize entry.tool) ∧
      ∀ applied, ∀ event ∈ emitDeferred applied (judgeListing approvalShield plainHmac (fun _ => 0)
        (listed [changedRead, changedRead]) [changedRead, changedRead] store).deferred,
          event.eventType = "tool_malformed" := by
  refine ⟨_, _, rfl, rfl, rfl, by decide, ?_⟩
  intro applied
  cases applied
  · decide
  · decide

/-- The guard, for a system whose files are compared whole. -/
def keepsRecord (sys : System Contents) : Action → Bool
  | .analyse cfg _ _ => cfg.firstContact = .approve
  | .operatorCommit id _ =>
      (sys.operators id).all fun operator => decide (recordOf sys.disk = operator.store.file)
  | _ => true

theorem approvalGuard_of_keepsRecord {sys : System Contents} {action : Action}
    (h : keepsRecord sys action = true) : approvalGuard sys action := by
  cases action with
  | analyse cfg clock msg =>
      have hmode : cfg.firstContact = .approve := of_decide_eq_true h
      exact hmode
  | operatorCommit id outcome =>
      intro operator hoperator
      simp only [keepsRecord, hoperator, Option.all_some, decide_eq_true_iff] at h
      exact h
  | start => trivial
  | acquire => trivial
  | reload cfg => trivial
  | save outcome => trivial
  | release => trivial
  | operatorLoad id command => trivial
  | operatorLock id => trivial

/-- The system after both tools were parked. -/
def parkedSystem : System Contents :=
  (execute (systemStep plainFormat plainHmac) {} parkTwo).getD {}

/-- The system that is about to judge a listing after the approval. -/
def approvedSystem : System Contents :=
  (execute (systemStep plainFormat plainHmac) parkedSystem (approveRead ++ beginApproved)).getD {}

/-- Listed once, the changed tool is reported. -/
theorem first_sighting_pinned_read : ∃ store entry hash,
    execute (systemStep plainFormat plainHmac) {} parkTwo = some parkedSystem ∧
    (recordOf parkedSystem.disk).pending.lookup "read" = some entry ∧
    execute (systemStep plainFormat plainHmac) parkedSystem (approveRead ++ beginApproved) =
      some approvedSystem ∧
    approvedSystem.proxy = some store ∧ store.tools.lookup "read" = some entry ∧
    ReportsMismatch "read" hash entry (judgeListing approvalShield plainHmac (fun _ => 0)
      (listed [changedRead]) [changedRead] store).deferred := by
  have hbefore : executeGuarded (systemStep plainFormat plainHmac) keepsRecord {} parkTwo =
      some parkedSystem := rfl
  have hafter : executeGuarded (systemStep plainFormat plainHmac) keepsRecord parkedSystem
      (approveRead ++ beginApproved) = some approvedSystem := rfl
  have hmem : "read" ∈ (recordOf parkedSystem.disk).pending := by decide
  obtain ⟨entry, hpending⟩ := Finmap.mem_iff.mp hmem
  have hpinned := @first_sighting_pinned _ _ plainFormat plainHmac "read" entry
    Function.injective_id (fun text => ⟨text, rfl⟩)
    (fun text text' hash h h' => (Except.ok.inj h).trans (Except.ok.inj h').symm) _ _ _ _
    ((Path.of_executeGuarded hbefore).mono fun _ _ h => approvalGuard_of_keepsRecord h) hpending
    ((Path.of_executeGuarded hafter).mono fun _ _ h => approvalGuard_of_keepsRecord h)
  have hproxy : approvedSystem.proxy.isSome = true := by decide
  obtain ⟨store, hstore⟩ := Option.isSome_iff_exists.mp hproxy
  have hcurrent : approvedSystem.proxy.all (fun store => decide ("read" ∉ store.revoked ∧
      store.diskDigest = approvedSystem.disk.map plainFormat.digest)) = true := by decide
  rw [hstore, Option.all_some, decide_eq_true_iff] at hcurrent
  have htrusted := hpinned.trusted store hstore (by decide) hcurrent.2
  have hschema : ((recordOf parkedSystem.disk).pending.lookup "read").all (fun entry =>
      decide (canonicalize changedRead ≠ canonicalize entry.tool)) = true := by decide
  rw [hpending, Option.all_some, decide_eq_true_iff] at hschema
  obtain ⟨hash, -, hreports⟩ := hpinned.reported approvalShield (fun _ => 0)
    (listed [changedRead]) [changedRead] store hstore rfl
    (Finmap.mem_of_lookup_eq_some htrusted) ⟨changedRead, none, 0⟩ (List.mem_singleton.mpr rfl) rfl
    ⟨rfl, rfl, hcurrent.1⟩ hschema
  exact ⟨store, entry, hash, rfl, hpending, rfl, hstore, htrusted, hreports⟩

end BlackMonolith.Baseline
