import BlackMonolith.Baseline.SharedBaseline
import BlackMonolith.Library.FiniteMaps

/-!
# What one server's shield owes to the others

Entries are kept under the name of a tool alone. While no other server lists a
name that one server lists, the entries under its names are its own: no reload
or save of another shield changes them, and what its agent receives depends on
its own listings only.
-/
namespace BlackMonolith.Baseline
open Json JsonRpc Library Launcher

variable {names : Set String}

/-! ## The part of a store under some names -/

/-- The entries of a record under some names, and all its revocations. -/
structure Excerpt (names : Set String) where
  tools : names → Option BaselineEntry
  pending : names → Option BaselineEntry
  revoked : Finset String

@[ext] theorem Excerpt.ext {e e' : Excerpt names} (htools : ∀ n, e.tools n = e'.tools n)
    (hpending : ∀ n, e.pending n = e'.pending n) (hrevoked : e.revoked = e'.revoked) : e = e' := by
  obtain ⟨tools, pending, revoked⟩ := e
  obtain ⟨tools', pending', revoked'⟩ := e'
  cases funext htools
  cases funext hpending
  cases hrevoked
  rfl

def BaselineFile.excerpt (names : Set String) (file : BaselineFile) : Excerpt names where
  tools n := file.tools.lookup n.1
  pending n := file.pending.lookup n.1
  revoked := file.revoked

/-- The record in a file; without one, the empty record. -/
def recorded : Option Contents → BaselineFile
  | some (.json file _) => file
  | _ => ⟨∅, ∅, ∅⟩

/-- What a store decides about some names. -/
structure StoreView (names : Set String) where
  file : Excerpt names
  unpersisted : names → Prop
  dirty : Bool

def BaselineStore.viewed {δ : Type} (names : Set String) (store : BaselineStore δ) :
    StoreView names where
  file := store.file.excerpt names
  unpersisted n := n.1 ∈ store.unpersisted
  dirty := store.dirty

section
variable {δ : Type} {cfg : Shield} {fmt : Format δ} {hmac : String → Except String String}
  {store store' : BaselineStore δ} {disk : Option Contents} {item : Listed}

theorem viewed_eq_iff : store'.viewed names = store.viewed names ↔
    (∀ n ∈ names, SameAt n store store') ∧ store'.revoked = store.revoked ∧
      store'.dirty = store.dirty := by
  constructor
  · intro h
    have hfile : store'.file.excerpt names = store.file.excerpt names := congrArg StoreView.file h
    have hrevoked : store'.revoked = store.revoked := congrArg Excerpt.revoked hfile
    refine ⟨fun n hn => ⟨?_, ?_, hrevoked, ?_⟩, hrevoked, congrArg StoreView.dirty h⟩
    · exact congrFun (congrArg Excerpt.tools hfile) ⟨n, hn⟩
    · exact congrFun (congrArg Excerpt.pending hfile) ⟨n, hn⟩
    · exact iff_of_eq (congrFun (congrArg StoreView.unpersisted h) ⟨n, hn⟩)
  · intro h
    obtain ⟨hsame, hrevoked, hdirty⟩ := h
    have hfile : store'.file.excerpt names = store.file.excerpt names :=
      Excerpt.ext (fun n => (hsame n.1 n.2).tools) (fun n => (hsame n.1 n.2).pending) hrevoked
    have hunpersisted : (fun n : names => n.1 ∈ store'.unpersisted) =
        fun n : names => n.1 ∈ store.unpersisted :=
      funext fun n => propext (hsame n.1 n.2).unpersisted
    unfold BaselineStore.viewed
    rw [hfile, hunpersisted, hdirty]

theorem SameBaseline.viewed (h : SameBaseline store store') :
    store'.viewed names = store.viewed names := by
  unfold BaselineStore.viewed
  rw [h.file, h.unpersisted, h.dirty]

/-! ## One tool -/

theorem check_viewed {name hash description : String} {now : ℕ} {tool : Value} (hn : name ∈ names)
    (h : store'.viewed names = store.viewed names) :
    (store'.check name hash description now tool).1.viewed names =
      (store.check name hash description now tool).1.viewed names := by
  obtain ⟨hsame, hrevoked, hdirty⟩ := viewed_eq_iff.mp h
  unfold BaselineStore.check
  rw [(hsame name hn).tools]
  split
  · refine viewed_eq_iff.mpr ⟨fun n hmem => ⟨?_, (hsame n hmem).pending, hrevoked, ?_⟩, hrevoked, rfl⟩
    · unfold BaselineStore.register
      by_cases heq : n = name
      · rw [heq, Finmap.lookup_insert, Finmap.lookup_insert]
      · rw [Finmap.lookup_insert_of_ne _ heq, Finmap.lookup_insert_of_ne _ heq]
        exact (hsame n hmem).tools
    · unfold BaselineStore.register
      rw [Finset.mem_insert, Finset.mem_insert, (hsame n hmem).unpersisted]
  · exact h

theorem registerPending_viewed {name hash description : String} {now : ℕ} {tool : Value}
    (hn : name ∈ names) (h : store'.viewed names = store.viewed names) :
    (store'.registerPending name hash description now tool).1.viewed names =
      (store.registerPending name hash description now tool).1.viewed names := by
  obtain ⟨hsame, hrevoked, hdirty⟩ := viewed_eq_iff.mp h
  have hpending : name ∈ store'.pending ↔ name ∈ store.pending := by
    rw [← Finmap.lookup_isSome, ← Finmap.lookup_isSome, (hsame name hn).pending]
  unfold BaselineStore.registerPending
  by_cases hmem : name ∈ store.pending
  · rw [if_pos hmem, if_pos (hpending.mpr hmem)]
    exact h
  · rw [if_neg hmem, if_neg fun hmem' => hmem (hpending.mp hmem')]
    refine viewed_eq_iff.mpr ⟨fun n hn' => ⟨(hsame n hn').tools, ?_, hrevoked, (hsame n hn').unpersisted⟩,
      hrevoked, rfl⟩
    by_cases heq : n = name
    · rw [heq, Finmap.lookup_insert, Finmap.lookup_insert]
    · rw [Finmap.lookup_insert_of_ne _ heq, Finmap.lookup_insert_of_ne _ heq]
      exact (hsame n hn').pending

/-- A tool is treated alike by stores that look alike under its name, and they
look alike afterwards. -/
theorem analyzeTool_viewed (hitem : item.isWithheld = false → item.name ∈ names)
    (h : store'.viewed names = store.viewed names) :
    (analyzeTool cfg hmac store' item).2 = (analyzeTool cfg hmac store item).2 ∧
      (analyzeTool cfg hmac store' item).1.viewed names =
        (analyzeTool cfg hmac store item).1.viewed names := by
  cases hserved : item.isWithheld with
  | true =>
      unfold analyzeTool
      simp only [hserved, if_true, true_and]
      exact h
  | false =>
      have hn := hitem hserved
      have hsame := (viewed_eq_iff.mp h).1 item.name hn
      refine ⟨analyzeTool_congr hsame, ?_⟩
      have hrevoked : store'.isRevoked item.name = store.isRevoked item.name := by
        unfold BaselineStore.isRevoked
        rw [hsame.revoked]
      unfold analyzeTool
      simp only [hrevoked, hsame.contains]
      split
      · exact h
      · split
        · exact h
        · split
          · exact h
          · split
            · exact h
            · split
              · exact h
              · split
                · exact registerPending_viewed hn h
                · exact check_viewed hn h

/-- Without the approval gate nothing is parked. -/
theorem analyzeTool_of_trust (h : cfg.firstContact ≠ .approve) :
    (analyzeTool cfg hmac store item).1.pending = store.pending ∧
      ((analyzeTool cfg hmac store item).1 = store ∨ item.isWithheld = false ∧
        ∃ hash, (analyzeTool cfg hmac store item).1 = (store.compare item hash).1) := by
  have hcompare : ∀ hash, (store.compare item hash).1.pending = store.pending := by
    intro hash
    unfold BaselineStore.compare BaselineStore.check
    split
    · rfl
    · rfl
  rcases analyzeTool_cases cfg hmac store item with ⟨hash, hcompared⟩ | ⟨hash, events, hpark, -⟩ |
    ⟨hsame, -⟩
  · rw [analyzeTool_of_compared hcompared]
    exact ⟨hcompare hash, Or.inr ⟨hcompared.served, hash, rfl⟩⟩
  · exact absurd hpark.approving h
  · rw [hsame]
    exact ⟨rfl, Or.inl rfl⟩

/-- With it, a tool that is not trusted is parked at most. -/
theorem analyzeTool_of_approve (h : cfg.firstContact = .approve) :
    (analyzeTool cfg hmac store item).1 = store ∨
      item.isWithheld = false ∧ store.contains item.name = false ∧
        ∃ hash, (analyzeTool cfg hmac store item).1 =
          (store.registerPending item.name hash (descriptionOf item.tool) item.now item.tool).1 := by
  rcases analyzeTool_cases cfg hmac store item with ⟨hash, hcompared⟩ | ⟨hash, events, hpark, hparked⟩ |
    ⟨hsame, -⟩
  · rw [analyzeTool_of_compared hcompared]
    have hmem := (BaselineStore.contains_iff.mp (hcompared.approved h)).1
    obtain ⟨entry, hentry⟩ := Finmap.mem_iff.mp hmem
    unfold BaselineStore.compare BaselineStore.check
    rw [hentry]
    exact Or.inl rfl
  · rw [hparked]
    exact Or.inr ⟨hpark.served, hpark.unknown, hash, rfl⟩
  · rw [hsame]
    exact Or.inl rfl

end

/-! ## The entries of one server -/

structure Excerpt.Within (e e' : Excerpt names) : Prop where
  tools : ∀ n entry, e.tools n = some entry → e'.tools n = some entry
  pending : ∀ n entry, e.pending n = some entry → e'.pending n = some entry
  revoked : e'.revoked = e.revoked

theorem Excerpt.Within.of_eq {e e' : Excerpt names} (h : e = e') : e.Within e' := by
  subst h
  exact ⟨fun _ _ h => h, fun _ _ h => h, rfl⟩

theorem Excerpt.Within.tools_none {e e' : Excerpt names} (h : e.Within e') {n : names}
    (hnone : e'.tools n = none) : e.tools n = none := by
  rw [Option.eq_none_iff_forall_ne_some]
  intro entry hentry
  rw [h.tools n entry hentry] at hnone
  cases hnone

theorem Excerpt.Within.pending_none {e e' : Excerpt names} (h : e.Within e') {n : names}
    (hnone : e'.pending n = none) : e.pending n = none := by
  rw [Option.eq_none_iff_forall_ne_some]
  intro entry hentry
  rw [h.pending n entry hentry] at hnone
  cases hnone

theorem Excerpt.Within.trans {e e' e'' : Excerpt names} (h : e.Within e') (h' : e'.Within e'') :
    e.Within e'' :=
  ⟨fun n entry hentry => h'.tools n entry (h.tools n entry hentry),
    fun n entry hentry => h'.pending n entry (h.pending n entry hentry), h'.revoked.trans h.revoked⟩

/-- What the store of the server that lists the names holds against its file:
whatever the file has, and what is new since. -/
structure Own (approving : Prop) (disk : Excerpt names) (view : StoreView names) : Prop where
  within : disk.Within view.file
  unpersisted : ∀ n, view.unpersisted n → disk.tools n = none
  parked : ∀ n, view.file.pending n = none ∨ disk.pending n ≠ none ∨ view.file.tools n = none
  clean : view.dirty = false → view.file = disk ∧ ∀ n, ¬view.unpersisted n
  trusted : ¬approving → view.file.pending = disk.pending
  approved : approving → ∀ n, ¬view.unpersisted n

/-- A store that has just been read or written. -/
theorem Own.of_eq {approving : Prop} {disk : Excerpt names} {view : StoreView names}
    (hfile : view.file = disk) (hunpersisted : ∀ n, ¬view.unpersisted n) :
    Own approving disk view := by
  refine ⟨.of_eq hfile.symm, fun n hn => absurd hn (hunpersisted n), ?_,
    fun _ => ⟨hfile, hunpersisted⟩, fun _ => congrArg Excerpt.pending hfile, fun _ => hunpersisted⟩
  intro n
  rw [hfile]
  cases disk.pending n with
  | none => exact Or.inl rfl
  | some entry => exact Or.inr (Or.inl (Option.some_ne_none entry))

section
variable {δ : Type} {cfg : Shield} {fmt : Format δ} {hmac : String → Except String String}
  {store store' : BaselineStore δ} {disk : Option Contents} {item : Listed}

theorem Own.registerPending {excerpt : Excerpt names} {name hash description : String} {now : ℕ}
    {tool : Value} (h : Own True excerpt (store.viewed names)) (hn : name ∈ names)
    (hcontains : store.contains name = false) :
    Own True excerpt ((store.registerPending name hash description now tool).1.viewed names) := by
  unfold BaselineStore.registerPending
  split
  · exact h
  · next hfresh =>
      have hnone : store.pending.lookup name = none := Finmap.lookup_eq_none.mpr hfresh
      have htool : store.tools.lookup name = none := by
        have hpersisted : name ∉ store.unpersisted := h.approved trivial ⟨name, hn⟩
        rw [Finmap.lookup_eq_none]
        intro hmem
        rw [BaselineStore.contains_iff.mpr ⟨hmem, hpersisted⟩] at hcontains
        cases hcontains
      have hpending : ∀ n : names, n.1 ≠ name →
          (store.pending.insert name ⟨hash, description, now, tool⟩).lookup n.1 =
            store.pending.lookup n.1 :=
        fun n hne => Finmap.lookup_insert_of_ne _ hne
      refine ⟨⟨h.within.tools, ?_, h.within.revoked⟩, h.unpersisted, ?_, ?_, ?_, h.approved⟩
      · intro n entry hentry
        have hold : store.pending.lookup n.1 = some entry := h.within.pending n entry hentry
        have hne : n.1 ≠ name := by
          intro heq
          rw [heq, hnone] at hold
          cases hold
        exact (hpending n hne).trans hold
      · intro n
        by_cases heq : n.1 = name
        · refine Or.inr (Or.inr ?_)
          show store.tools.lookup n.1 = none
          rw [heq]
          exact htool
        · rcases h.parked n with hold | hold | hold
          · exact Or.inl ((hpending n heq).trans hold)
          · exact Or.inr (Or.inl hold)
          · exact Or.inr (Or.inr hold)
      · intro hclean
        cases hclean
      · exact fun hnot => absurd trivial hnot

theorem Own.check {excerpt : Excerpt names} {name hash description : String} {now : ℕ} {tool : Value}
    (h : Own False excerpt (store.viewed names)) :
    Own False excerpt ((store.check name hash description now tool).1.viewed names) := by
  unfold BaselineStore.check
  split
  · next hnone =>
      have htools : ∀ n : names, n.1 ≠ name →
          (store.tools.insert name ⟨hash, description, now, tool⟩).lookup n.1 =
            store.tools.lookup n.1 :=
        fun n hne => Finmap.lookup_insert_of_ne _ hne
      refine ⟨⟨?_, h.within.pending, h.within.revoked⟩, ?_, ?_, ?_, h.trusted, ?_⟩
      · intro n entry hentry
        have hold : store.tools.lookup n.1 = some entry := h.within.tools n entry hentry
        have hne : n.1 ≠ name := by
          intro heq
          rw [heq, hnone] at hold
          cases hold
        exact (htools n hne).trans hold
      · intro n hn
        rcases Finset.mem_insert.mp hn with heq | hold
        · refine h.within.tools_none ?_
          show store.tools.lookup n.1 = none
          rw [heq]
          exact hnone
        · exact h.unpersisted n hold
      · intro n
        have hsame : store.pending.lookup n.1 = excerpt.pending n :=
          congrFun (h.trusted not_false) n
        cases hentry : excerpt.pending n with
        | none => exact Or.inl (hsame.trans hentry)
        | some entry => exact Or.inr (Or.inl (Option.some_ne_none entry))
      · intro hclean
        cases hclean
      · exact fun hfalse => absurd hfalse not_false
  · exact h

theorem Own.analyzeTool {excerpt : Excerpt names}
    (h : Own (cfg.firstContact = .approve) excerpt (store.viewed names))
    (hitem : item.isWithheld = false → item.name ∈ names) :
    Own (cfg.firstContact = .approve) excerpt ((analyzeTool cfg hmac store item).1.viewed names) := by
  by_cases hpolicy : cfg.firstContact = .approve
  · have htrue : (cfg.firstContact = .approve) = True := eq_true hpolicy
    rcases @analyzeTool_of_approve _ cfg hmac store item hpolicy with hsame |
      ⟨hserved, hcontains, hash, hparked⟩
    · rw [hsame]
      exact h
    · rw [hparked]
      rw [htrue] at h ⊢
      exact h.registerPending (hitem hserved) hcontains
  · have hfalse : (cfg.firstContact = .approve) = False := eq_false hpolicy
    obtain ⟨-, hsame | ⟨-, hash, hcompared⟩⟩ := @analyzeTool_of_trust _ cfg hmac store item hpolicy
    · rw [hsame]
      exact h
    · rw [hcompared]
      rw [hfalse] at h ⊢
      exact h.check

/-! ## Reading the shared file -/

/-- What merging the file into a store leaves under a name. -/
theorem merge_tools (reloaded : BaselineStore δ) (n : names) :
    (store.merge reloaded).tools.lookup n.1 =
      (reloaded.tools.lookup n.1).or (store.tools.lookup n.1) := lookup_union

theorem merge_pending (reloaded : BaselineStore δ) (n : names)
    (h : store.pending.lookup n.1 = none ∨ (store.merge reloaded).tools.lookup n.1 = none) :
    (store.merge reloaded).pending.lookup n.1 =
      (reloaded.pending.lookup n.1).or (store.pending.lookup n.1) := by
  unfold BaselineStore.merge at h ⊢
  dsimp only at h ⊢
  rw [lookup_union]
  rcases h with hpending | htools
  · have hnone : (store.pending \ (reloaded.tools ∪ store.tools)).lookup n.1 = none := by
      rw [Option.eq_none_iff_forall_ne_some]
      intro entry hentry
      rw [lookup_sdiff_some hentry] at hpending
      cases hpending
    rw [hnone, hpending]
  · rw [lookup_sdiff_of_notMem (Finmap.lookup_eq_none.mp htools)]

/-- Merging adds nothing to a store that has all the file has. -/
theorem Own.merge {approving : Prop} {reloaded : BaselineStore δ}
    (h : Own approving (reloaded.file.excerpt names) (store.viewed names)) :
    (store.merge reloaded).viewed names = store.viewed names := by
  have htools : ∀ n : names, (store.merge reloaded).tools.lookup n.1 = store.tools.lookup n.1 := by
    intro n
    rw [merge_tools]
    cases hentry : reloaded.tools.lookup n.1 with
    | none => rw [Option.none_or]
    | some entry =>
        rw [Option.some_or]
        exact (h.within.tools n entry hentry).symm
  have hrevoked : reloaded.revoked ∪ store.revoked = store.revoked := by
    rw [show store.revoked = reloaded.revoked from h.within.revoked, Finset.union_self]
  refine viewed_eq_iff.mpr ⟨fun n hn => ⟨htools ⟨n, hn⟩, ?_, hrevoked, ?_⟩, hrevoked, rfl⟩
  · cases hentry : reloaded.pending.lookup n with
    | none =>
        rw [merge_pending reloaded ⟨n, hn⟩, hentry, Option.none_or]
        rcases h.parked ⟨n, hn⟩ with hnone | hsome | hnone
        · exact Or.inl hnone
        · exact absurd hentry hsome
        · exact Or.inr ((htools ⟨n, hn⟩).trans hnone)
    | some entry =>
        have hown : store.pending.lookup n = some entry := h.within.pending ⟨n, hn⟩ entry hentry
        unfold BaselineStore.merge
        rw [lookup_union, hentry, hown, Option.some_or]
  · show n ∈ store.unpersisted.filter _ ↔ n ∈ store.unpersisted
    rw [Finset.mem_filter, and_iff_left_iff_imp]
    intro hunpersisted
    exact Finmap.lookup_eq_none.mp (h.unpersisted ⟨n, hn⟩ hunpersisted)

/-! ## The other shields -/

/-- What the store of another shield of the file holds under the names: nothing
but what the file had when it was last read or written. -/
structure Foreign (fmt : Format δ) (names : Set String) (disk : Option Contents)
    (store : BaselineStore δ) : Prop where
  within : (store.file.excerpt names).Within ((recorded disk).excerpt names)
  seen : ∀ contents : Option Contents, store.diskDigest = contents.map fmt.digest →
    store.file.excerpt names = (recorded contents).excerpt names

/-- A store that has just read or written the file. -/
structure UpToDate (fmt : Format δ) (names : Set String) (disk : Option Contents)
    (store : BaselineStore δ) : Prop where
  excerpt : store.file.excerpt names = (recorded disk).excerpt names
  digest : store.diskDigest = disk.map fmt.digest

theorem UpToDate.foreign (hdigest : Function.Injective fmt.digest)
    (h : UpToDate fmt names disk store) : Foreign fmt names disk store := by
  refine ⟨.of_eq h.excerpt, ?_⟩
  intro contents hseen
  have heq : disk = contents := Option.map_injective hdigest (h.digest.symm.trans hseen)
  rw [← heq]
  exact h.excerpt

theorem Foreign.mono {disk' : Option Contents} (h : Foreign fmt names disk store)
    (hwithin : ((recorded disk).excerpt names).Within ((recorded disk').excerpt names)) :
    Foreign fmt names disk' store := ⟨h.within.trans hwithin, h.seen⟩

theorem UpToDate.of_load (h : load fmt hmac disk = .ok store) : UpToDate fmt names disk store := by
  rcases load_ok h with ⟨hnone, hstore⟩ | ⟨order, hdisk, -, -, hdigest⟩
  · rw [hnone, hstore]
    exact ⟨rfl, rfl⟩
  · refine ⟨?_, ?_⟩
    · rw [hdisk]
      rfl
    · rw [hdigest, hdisk]
      rfl

theorem Foreign.merge {reloaded : BaselineStore δ}
    (h : (store.file.excerpt names).Within (reloaded.file.excerpt names)) :
    (store.merge reloaded).file.excerpt names = reloaded.file.excerpt names := by
  apply Excerpt.ext
  · intro n
    refine (merge_tools reloaded n).trans ?_
    cases hentry : reloaded.tools.lookup n.1 with
    | none => exact (h.tools_none hentry).trans hentry.symm
    | some entry => exact hentry.symm
  · intro n
    cases hentry : reloaded.pending.lookup n.1 with
    | none =>
        have hnone : store.pending.lookup n.1 = none := h.pending_none hentry
        refine (merge_pending reloaded n (Or.inl hnone)).trans ?_
        rw [hentry, hnone]
        exact hentry.symm
    | some entry =>
        refine Eq.trans ?_ hentry.symm
        show (reloaded.pending ∪ _).lookup n.1 = some entry
        rw [lookup_union, hentry, Option.some_or]
  · have hrevoked : reloaded.revoked = store.revoked := h.revoked
    show reloaded.revoked ∪ store.revoked = reloaded.revoked
    rw [← hrevoked, Finset.union_self]

/-! ## Reloads -/

variable [DecidableEq δ]

/-- The server does not notice whether its shield reads the file again. -/
theorem Own.reloaded {approving : Prop}
    (h : Own approving ((recorded disk).excerpt names) (store.viewed names))
    (hunseen : disk = none → store.diskDigest = none) :
    (reload cfg fmt hmac disk store).1.viewed names = store.viewed names := by
  cases @reload_cases _ cfg fmt hmac store disk _ with
  | current _ hsame => exact hsame.viewed
  | cleared hnone hdigest _ => exact absurd (hunseen hnone) hdigest
  | read reloaded hload hne _ hsame =>
      rcases load_ok hload with ⟨hnone, -⟩ | ⟨order, hdisk, -, -, -⟩
      · exact absurd hnone hne
      · rw [hsame.viewed]
        rw [hdisk] at h
        cases hdirty : store.dirty with
        | true =>
            rw [if_pos rfl]
            exact h.merge
        | false =>
            rw [if_neg Bool.false_ne_true]
            obtain ⟨hfile, hunpersisted⟩ := h.clean hdirty
            have hreplaced : (store.replace reloaded).file.excerpt names =
                store.file.excerpt names := hfile.symm
            have hempty : ((store.replace reloaded).viewed names).unpersisted =
                (store.viewed names).unpersisted := by
              funext n
              exact propext ⟨fun hn => absurd hn (Finset.notMem_empty _),
                fun hn => absurd hn (hunpersisted n)⟩
            unfold BaselineStore.viewed at hempty ⊢
            rw [hreplaced]
            exact congrArg (fun u => (⟨_, u, _⟩ : StoreView names)) hempty

/-- A reload brings another store up to date. -/
theorem Foreign.upToDate (h : Foreign fmt names disk store)
    (hloads : (load fmt hmac disk).isOk) (hunseen : disk = none → store.diskDigest = none) :
    UpToDate fmt names disk (reload cfg fmt hmac disk store).1 := by
  have hdigest : (reload cfg fmt hmac disk store).1.diskDigest = disk.map fmt.digest := by
    cases @current_of_reload _ cfg fmt hmac store disk _ with
    | missing hnone hdigest =>
        rw [hdigest, hnone]
        rfl
    | seen contents hdisk hdigest =>
        rw [hdigest, hdisk]
        rfl
    | broken error _ herror =>
        rw [herror] at hloads
        cases hloads
  refine ⟨?_, hdigest⟩
  cases @reload_cases _ cfg fmt hmac store disk _ with
  | current hcurrent hsame =>
      rw [hsame.file]
      exact h.seen disk (hsame.diskDigest.symm.trans hdigest)
  | cleared hnone hdigest' _ => exact absurd (hunseen hnone) hdigest'
  | read reloaded hload hne _ hsame =>
      have hreloaded : reloaded.file.excerpt names = (recorded disk).excerpt names :=
        (UpToDate.of_load hload).excerpt
      rw [hsame.file, ← hreloaded]
      split
      · exact Foreign.merge (hreloaded ▸ h.within)
      · rfl

/-! ## An analysis -/

section
variable {env : Surroundings} {msg : JsonRpcMessage}

/-- The store that an analysis of a listing ends with before it is saved. -/
def judgedStore (cfg : Shield) (fmt : Format δ) (hmac : String → Except String String)
    (env : Surroundings) (msg : JsonRpcMessage) (tools : List Value) (store : BaselineStore δ)
    (disk : Option Contents) : BaselineStore δ :=
  (judgeListing cfg hmac env.clock msg tools (reload cfg fmt hmac disk store).1).store

/-- An analysis changes nothing, or leaves the file alone, or writes the store to it. -/
theorem analysis_cases :
    let a := analyzeToolsListWithBoundary cfg fmt hmac env msg store disk
    (listedTools msg = none ∧ a.store = store ∧ a.disk = disk) ∨
      ∃ tools, listedTools msg = some tools ∧
        (SameBaseline (judgedStore cfg fmt hmac env msg tools store disk) a.store ∧ a.disk = disk ∨
          ∃ order, Written fmt (judgedStore cfg fmt hmac env msg tools store disk) a.store a.disk
            order) := by
  unfold analyzeToolsListWithBoundary
  cases htools : listedTools msg with
  | none => exact Or.inl ⟨rfl, rfl, rfl⟩
  | some tools =>
      refine Or.inr ⟨tools, rfl, ?_⟩
      dsimp only
      split
      · exact Or.inl ⟨⟨rfl, rfl, rfl, rfl⟩, rfl⟩
      · exact persist_cases _ _ _

theorem judgedStore_digest {tools : List Value} :
    (judgedStore cfg fmt hmac env msg tools store disk).diskDigest =
      (reload cfg fmt hmac disk store).1.diskDigest := judgeListing_grows.diskDigest

/-- A store that has seen no file has seen none after an analysis that leaves none. -/
theorem analysis_unseen (hunseen : disk = none → store.diskDigest = none)
    (h : (analyzeToolsListWithBoundary cfg fmt hmac env msg store disk).disk = none) :
    (analyzeToolsListWithBoundary cfg fmt hmac env msg store disk).store.diskDigest = none := by
  rcases @analysis_cases _ cfg fmt hmac store disk _ env msg with ⟨-, hstore, hdisk⟩ |
    ⟨tools, -, ⟨hsame, hdisk⟩ | ⟨order, hwritten⟩⟩
  · rw [hstore]
    exact hunseen (hdisk.symm.trans h)
  · rw [hsame.diskDigest, judgedStore_digest]
    have hnone : disk = none := hdisk.symm.trans h
    cases @current_of_reload _ cfg fmt hmac store disk _ with
    | missing _ hdigest => exact hdigest
    | seen contents hcontents _ =>
        rw [hnone] at hcontents
        cases hcontents
    | broken error hne _ => exact absurd hnone hne
  · rw [hwritten.disk] at h
    cases h

theorem analysis_disk_none
    (h : (analyzeToolsListWithBoundary cfg fmt hmac env msg store disk).disk = none) : disk = none := by
  rcases @analysis_cases _ cfg fmt hmac store disk _ env msg with ⟨-, -, hdisk⟩ |
    ⟨tools, -, ⟨-, hdisk⟩ | ⟨order, hwritten⟩⟩
  · exact hdisk.symm.trans h
  · exact hdisk.symm.trans h
  · rw [hwritten.disk] at h
    cases h

/-! ### By another shield -/

theorem judgedStore_excerpt {tools : List Value} (htools : listedTools msg = some tools)
    (hitems : ∀ item ∈ listedItems cfg env msg, item.isWithheld = false → item.name ∉ names) :
    (judgedStore cfg fmt hmac env msg tools store disk).file.excerpt names =
      (reload cfg fmt hmac disk store).1.file.excerpt names := by
  have hlisting : listedItems cfg env msg = listing cfg env.clock tools := by
    unfold listedItems
    rw [htools]
    rfl
  have hrevoked : (judgedStore cfg fmt hmac env msg tools store disk).revoked =
      (reload cfg fmt hmac disk store).1.revoked := judgeListing_grows.revoked
  have hsame : ∀ n ∈ names, SameAt n (reload cfg fmt hmac disk store).1
      (judgedStore cfg fmt hmac env msg tools store disk) := by
    intro n hn
    unfold judgedStore
    rw [judgeListing_store]
    refine @Sweep.invariant _ _ _ _ _ _ _
      (fun s => SameAt n (reload cfg fmt hmac disk store).1 s) ?_ (.rfl' n _)
    intro s item hitem hs
    have hstep : SameAt n s (Baseline.analyzeTool cfg hmac s item).1 := by
      apply analyzeTool_sameAt
      intro hserved heq
      exact hitems item (hlisting ▸ hitem) hserved (heq ▸ hn)
    exact ⟨hstep.tools.trans hs.tools, hstep.pending.trans hs.pending,
      hstep.revoked.trans hs.revoked, hstep.unpersisted.trans hs.unpersisted⟩
  exact Excerpt.ext (fun n => (hsame n.1 n.2).tools) (fun n => (hsame n.1 n.2).pending) hrevoked

/-- Another shield leaves the entries under the names as they are. -/
theorem Foreign.analysis (hdigest : Function.Injective fmt.digest)
    (h : Foreign fmt names disk store) (hloads : (load fmt hmac disk).isOk)
    (hunseen : disk = none → store.diskDigest = none)
    (hitems : ∀ item ∈ listedItems cfg env msg, item.isWithheld = false → item.name ∉ names) :
    let a := analyzeToolsListWithBoundary cfg fmt hmac env msg store disk
    (recorded a.disk).excerpt names = (recorded disk).excerpt names ∧
      Foreign fmt names a.disk a.store := by
  intro a
  rcases @analysis_cases _ cfg fmt hmac store disk _ env msg with ⟨-, hstore, hdisk⟩ |
    ⟨tools, htools, hjudged⟩
  · refine ⟨by rw [hdisk], ?_⟩
    rw [show a.store = store from hstore, show a.disk = disk from hdisk]
    exact h
  · have hcurrent : UpToDate fmt names disk (judgedStore cfg fmt hmac env msg tools store disk) := by
      have hreloaded := @Foreign.upToDate _ _ cfg fmt hmac store disk _ h hloads hunseen
      exact ⟨(judgedStore_excerpt htools hitems).trans hreloaded.excerpt,
        judgedStore_digest.trans hreloaded.digest⟩
    rcases hjudged with ⟨hsame, hdisk⟩ | ⟨order, hwritten⟩
    · have hdisk' : a.disk = disk := hdisk
      have hupToDate : UpToDate fmt names disk a.store := by
        refine ⟨?_, hsame.diskDigest.trans hcurrent.digest⟩
        rw [show a.store.file = _ from hsame.file]
        exact hcurrent.excerpt
      rw [hdisk']
      exact ⟨rfl, hupToDate.foreign hdigest⟩
    · have hdisk' : a.disk = some (.json (judgedStore cfg fmt hmac env msg tools store disk).file
          order) := hwritten.disk
      have hupToDate : UpToDate fmt names a.disk a.store := by
        rw [hdisk']
        refine ⟨?_, hwritten.diskDigest⟩
        rw [show a.store.file = _ from hwritten.file]
        rfl
      refine ⟨?_, hupToDate.foreign hdigest⟩
      rw [hdisk']
      exact hcurrent.excerpt

/-! ### By the server's own shield -/

omit [DecidableEq δ] in
theorem Own.judged {excerpt : Excerpt names} {tools : List Value}
    (h : Own (cfg.firstContact = .approve) excerpt (store.viewed names))
    (hitems : ∀ item ∈ listing cfg env.clock tools, item.isWithheld = false → item.name ∈ names) :
    Own (cfg.firstContact = .approve) excerpt
      ((judgeListing cfg hmac env.clock msg tools store).store.viewed names) := by
  rw [judgeListing_store]
  exact @Sweep.invariant _ _ _ _ _ _ _
    (fun s : BaselineStore δ => Own (cfg.firstContact = .approve) excerpt (s.viewed names))
    (fun s item hitem hs => hs.analyzeTool (hitems item hitem)) h

theorem Own.analysis
    (h : Own (cfg.firstContact = .approve) ((recorded disk).excerpt names) (store.viewed names))
    (hunseen : disk = none → store.diskDigest = none)
    (hitems : ∀ item ∈ listedItems cfg env msg, item.isWithheld = false → item.name ∈ names) :
    let a := analyzeToolsListWithBoundary cfg fmt hmac env msg store disk
    Own (cfg.firstContact = .approve) ((recorded a.disk).excerpt names) (a.store.viewed names) ∧
      ((recorded disk).excerpt names).Within ((recorded a.disk).excerpt names) := by
  intro a
  rcases @analysis_cases _ cfg fmt hmac store disk _ env msg with ⟨-, hstore, hdisk⟩ |
    ⟨tools, htools, hjudged⟩
  · rw [show a.store = store from hstore, show a.disk = disk from hdisk]
    exact ⟨h, .of_eq rfl⟩
  · have hlisting : listedItems cfg env msg = listing cfg env.clock tools := by
      unfold listedItems
      rw [htools]
      rfl
    have hown : Own (cfg.firstContact = .approve) ((recorded disk).excerpt names)
        ((judgedStore cfg fmt hmac env msg tools store disk).viewed names) := by
      rw [← @Own.reloaded _ _ cfg fmt hmac store disk _ _ h hunseen] at h
      exact h.judged (hlisting ▸ hitems)
    rcases hjudged with ⟨hsame, hdisk⟩ | ⟨order, hwritten⟩
    · rw [show a.disk = disk from hdisk, hsame.viewed]
      exact ⟨hown, .of_eq rfl⟩
    · rw [show a.disk = some (.json _ order) from hwritten.disk]
      refine ⟨.of_eq (congrArg (BaselineFile.excerpt names) hwritten.file) ?_, hown.within⟩
      intro n hn
      have hempty : n.1 ∈ a.store.unpersisted := hn
      rw [show a.store.unpersisted = ∅ from hwritten.unpersisted] at hempty
      exact Finset.notMem_empty _ hempty

/-! ### In two runs -/

omit [DecidableEq δ] in
theorem judgeListing_viewed {tools : List Value} (h : store'.viewed names = store.viewed names)
    (hitems : ∀ item ∈ listing cfg env.clock tools, item.isWithheld = false → item.name ∈ names) :
    (judgeListing cfg hmac env.clock msg tools store').response =
        (judgeListing cfg hmac env.clock msg tools store).response ∧
      (judgeListing cfg hmac env.clock msg tools store').store.viewed names =
        (judgeListing cfg hmac env.clock msg tools store).store.viewed names := by
  obtain ⟨hsame, hviewed⟩ := @Sweep.simulation _ _ _ _ (Baseline.analyzeTool cfg hmac) store
    (listing cfg env.clock tools) (fun s s' : BaselineStore δ => s'.viewed names = s.viewed names)
    store' (fun s s' item hitem hs => analyzeTool_viewed (hitems item hitem) hs) h
  refine ⟨?_, by rw [judgeListing_store, judgeListing_store, hviewed]⟩
  unfold judgeListing
  dsimp only
  rw [hsame]
  split
  · rfl
  · split
    · rfl
    · rfl

omit [DecidableEq δ] in
theorem persist_viewed {disk' : Option Contents} (outcome : Except String ℕ)
    (h : store'.viewed names = store.viewed names)
    (hdisk : (recorded disk').excerpt names = (recorded disk).excerpt names) :
    (persist fmt outcome disk' store').1.viewed names =
        (persist fmt outcome disk store).1.viewed names ∧
      (recorded (persist fmt outcome disk' store').2.1).excerpt names =
        (recorded (persist fmt outcome disk store).2.1).excerpt names := by
  have hdirty : store'.dirty = store.dirty := congrArg StoreView.dirty h
  have hclean : ∀ (s : BaselineStore δ) d, s.dirty = false → persist fmt outcome d s = (s, d, []) := by
    intro s d hs
    unfold persist BaselineStore.saveIfDirty
    rw [hs, if_neg Bool.false_ne_true]
  cases hs : store.dirty with
  | false =>
      rw [hclean store disk hs, hclean store' disk' (hdirty.trans hs)]
      exact ⟨h, hdisk⟩
  | true =>
      cases outcome with
      | error error =>
          have hfailed : ∀ (s : BaselineStore δ) d, s.dirty = true →
              SameBaseline s (persist fmt (.error error) d s).1 ∧
                (persist fmt (.error error) d s).2.1 = d := by
            intro s d hs
            unfold persist BaselineStore.saveIfDirty
            rw [hs, if_pos rfl]
            rcases @save_cases _ fmt s (.error error) d with ⟨_, hsame, hsaved⟩ | ⟨_, _, hok⟩
            · simp only [hsaved]
              exact ⟨hsame.trans (takePersistFailure_same _), rfl⟩
            · unfold BaselineStore.save BaselineStore.writeStore at hok
              dsimp only at hok
              split_ifs at hok
          obtain ⟨hsame, hfile⟩ := hfailed store disk hs
          obtain ⟨hsame', hfile'⟩ := hfailed store' disk' (hdirty.trans hs)
          rw [hsame.viewed, hsame'.viewed, hfile, hfile']
          exact ⟨h, hdisk⟩
      | ok order =>
          have hexcerpt : store'.file.excerpt names = store.file.excerpt names :=
            congrArg StoreView.file h
          have hwritten : ∀ (s : BaselineStore δ) d, s.dirty = true →
              (persist fmt (.ok order) d s).1.viewed names =
                  ⟨s.file.excerpt names, fun n => n.1 ∈ (∅ : Finset String), false⟩ ∧
                (persist fmt (.ok order) d s).2.1 = some (.json s.file order) := by
            intro s d hs
            unfold persist BaselineStore.saveIfDirty
            rw [hs, if_pos rfl]
            exact ⟨rfl, rfl⟩
          obtain ⟨hview, hfile⟩ := hwritten store disk hs
          obtain ⟨hview', hfile'⟩ := hwritten store' disk' (hdirty.trans hs)
          rw [hview, hview', hfile, hfile', hexcerpt]
          exact ⟨rfl, hexcerpt⟩

/-- What the agent receives depends on what the store and the file have under the names. -/
theorem analysis_viewed {disk' : Option Contents}
    (h : store'.viewed names = store.viewed names)
    (hdisk : (recorded disk').excerpt names = (recorded disk).excerpt names)
    (hown : Own (cfg.firstContact = .approve) ((recorded disk).excerpt names) (store.viewed names))
    (hunseen : disk = none → store.diskDigest = none)
    (hunseen' : disk' = none → store'.diskDigest = none)
    (hitems : ∀ item ∈ listedItems cfg env msg, item.isWithheld = false → item.name ∈ names) :
    let a := analyzeToolsListWithBoundary cfg fmt hmac env msg store disk
    let a' := analyzeToolsListWithBoundary cfg fmt hmac env msg store' disk'
    a'.delivered msg = a.delivered msg ∧ a'.store.viewed names = a.store.viewed names ∧
      (recorded a'.disk).excerpt names = (recorded a.disk).excerpt names := by
  unfold analyzeToolsListWithBoundary
  cases htools : listedTools msg with
  | none => exact ⟨rfl, h, hdisk⟩
  | some tools =>
      have hlisting : listedItems cfg env msg = listing cfg env.clock tools := by
        unfold listedItems
        rw [htools]
        rfl
      have hown' : Own (cfg.firstContact = .approve) ((recorded disk').excerpt names)
          (store'.viewed names) := by
        rw [h, hdisk]
        exact hown
      have hreloaded : (reload cfg fmt hmac disk' store').1.viewed names =
          (reload cfg fmt hmac disk store).1.viewed names := by
        rw [hown'.reloaded hunseen', hown.reloaded hunseen, h]
      obtain ⟨hresponse, hviewed⟩ := @judgeListing_viewed _ _ cfg hmac _ _ env msg tools hreloaded
        (hlisting ▸ hitems)
      dsimp only
      rw [hresponse]
      split
      · exact ⟨rfl, hviewed, hdisk⟩
      · obtain ⟨hstore, hfile⟩ := persist_viewed env.write hviewed hdisk
        exact ⟨rfl, hstore, hfile⟩

end

end

end BlackMonolith.Baseline
