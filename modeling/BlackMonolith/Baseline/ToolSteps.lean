import BlackMonolith.Baseline.ToolsList
import BlackMonolith.Library.Lists

/-!
# What one tool of a listing does

Of the tools that are not withheld no two have one name, and each is compared
with, or registered under, its own name only; so what becomes of a tool does not
depend on the tools before it.
-/
namespace BlackMonolith.Baseline
open Json JsonRpc Library Sanitizer

/-! ## Readable tools -/

/-- A tool that can be vouched for if no other tool claims its identity. -/
structure Readable (tool : Value) (identity : String) : Prop where
  named : toolIdentity tool = some identity
  short : Text.len identity ≤ maxToolNameLength
  described : (tool.get "description").any (·.asStr.isNone) = false

theorem toolIdentity_some {tool : Value} {identity : String} (h : toolIdentity tool = some identity) :
    ∃ name, (tool.get "name").bind Value.asStr = some name ∧ identity = Text.trim name := by
  unfold toolIdentity at h
  obtain ⟨hmap, -⟩ := Option.filter_eq_some_iff.mp h
  obtain ⟨name, hname, rfl⟩ := Option.map_eq_some_iff.mp hmap
  exact ⟨name, hname, rfl⟩

/-- Two tools of one name have one identity. -/
theorem toolIdentity_congr {tool tool' : Value}
    (h : (tool.get "name").bind Value.asStr = (tool'.get "name").bind Value.asStr) :
    toolIdentity tool = toolIdentity tool' := by
  unfold toolIdentity
  rw [h]

theorem withheld_iff (debugStr : String → String) (identities : List String) (index : ℕ)
    (tool : Value) :
    (inspectToolEntry debugStr identities index tool).any (·.withhold) = false ↔
      ∃ identity, Readable tool identity ∧ identities.count identity ≤ 1 := by
  cases tool with
  | object members =>
      cases hnamed : toolIdentity (.object members) with
      | none =>
          simp only [inspectToolEntry, Value.asObject, hnamed, Option.any_some, Bool.true_eq_false,
            false_iff, not_exists, not_and]
          intro identity hreadable
          rw [hreadable.named] at hnamed
          cases hnamed
      | some name =>
          have hunique : (∃ identity, Readable (.object members) identity ∧
              identities.count identity ≤ 1) ↔
                Readable (.object members) name ∧ identities.count name ≤ 1 := by
            constructor
            · intro h
              obtain ⟨identity, hreadable, hcount⟩ := h
              have heq : identity = name := by
                rw [hreadable.named] at hnamed
                exact Option.some.inj hnamed
              exact heq ▸ ⟨hreadable, hcount⟩
            · exact fun h => ⟨name, h⟩
          rw [hunique]
          simp only [inspectToolEntry, Value.asObject, hnamed]
          split_ifs with hlong hdup hdesc hschema
          · simp only [Option.any_some, Bool.true_eq_false, false_iff, not_and]
            intro hreadable
            have hshort := hreadable.short
            omega
          · simp only [Option.any_some, Bool.true_eq_false, false_iff, not_and]
            omega
          · simp only [Option.any_some, Bool.true_eq_false, false_iff, not_and]
            intro hreadable
            have hdescribed := hreadable.described
            rw [Value.get_object, hdesc] at hdescribed
            cases hdescribed
          all_goals
            simp only [Option.any_some, Option.any_none, true_iff]
            refine ⟨⟨hnamed, by omega, ?_⟩, by omega⟩
            exact Bool.eq_false_iff.mpr hdesc
  | null | bool _ | number _ | string _ | array _ =>
      simp only [inspectToolEntry, Value.asObject, Option.any_some, Bool.true_eq_false, false_iff,
        not_exists, not_and]
      intro identity hreadable
      have hnamed := hreadable.named
      cases hnamed

/-! ## The items of a listing -/

section
variable {cfg : Shield} {clock : ℕ → ℕ} {tools : List Value}

theorem listing_eq : listing cfg clock tools = tools.zipIdx.map fun p =>
    ⟨p.1, inspectToolEntry cfg.debugStr (tools.filterMap toolIdentity) p.2 p.1, clock p.2⟩ := by
  refine List.ext_getElem ?_ fun i h h' => ?_
  · simp [listing, inspectToolEntries]
  · simp [listing, inspectToolEntries]

theorem listing_tools : (listing cfg clock tools).map (·.tool) = tools := by
  rw [listing_eq, List.map_map]
  exact List.zipIdx_map_fst 0 tools

theorem served_iff {item : Listed} (h : item ∈ listing cfg clock tools) :
    item.isWithheld = false ↔ ∃ identity, Readable item.tool identity ∧
      (tools.filterMap toolIdentity).count identity ≤ 1 := by
  rw [listing_eq] at h
  obtain ⟨p, -, rfl⟩ := List.mem_map.mp h
  exact withheld_iff _ _ _ _

/-- The name of a readable tool. -/
theorem Readable.name {item : Listed} {identity : String} (h : Readable item.tool identity) :
    (item.tool.get "name").bind Value.asStr = some item.name := by
  obtain ⟨name, hname, -⟩ := toolIdentity_some h.named
  unfold Listed.name
  rw [hname, Option.getD_some]

/-- No two tools that are not withheld have one name. -/
theorem listing_names : (listing cfg clock tools).Pairwise fun a b =>
    a.isWithheld = false → b.isWithheld = false → a.name ≠ b.name := by
  rw [List.pairwise_iff_getElem]
  intro i j hi hj hij ha hb heq
  obtain ⟨identity, hreadable, hcount⟩ := (served_iff (List.getElem_mem hi)).mp ha
  obtain ⟨identity', hreadable', -⟩ := (served_iff (List.getElem_mem hj)).mp hb
  have hsame := toolIdentity_congr ((hreadable.name.trans (congrArg some heq)).trans
    hreadable'.name.symm)
  have hitems : ((listing cfg clock tools).countP fun item =>
      toolIdentity item.tool = some identity) ≤ 1 := by
    have hcountP : tools.countP (fun tool => toolIdentity tool = some identity) =
        (tools.filterMap toolIdentity).count identity := by
      rw [List.count, List.countP_filterMap]
      refine List.countP_congr fun tool _ => ?_
      cases toolIdentity tool with
      | none => simp
      | some x => simp
    rw [← hcountP, ← @listing_tools cfg clock tools, List.countP_map] at hcount
    exact hcount
  refine List.pairwise_iff_getElem.mp (pairwise_of_countP_le_one hitems) i j hi hj hij ⟨?_, ?_⟩
  · exact decide_eq_true hreadable.named
  · exact decide_eq_true (hsame ▸ hreadable.named)

end

section
variable {δ : Type} {cfg : Shield} {hmac : String → Except String String}
  {store : BaselineStore δ} {item : Listed}

/-! ## One tool -/

/-- The tool gets as far as the comparison with its baseline. -/
structure Compared (cfg : Shield) (hmac : String → Except String String)
    (store : BaselineStore δ) (item : Listed) (hash : String) : Prop where
  served : item.isWithheld = false
  unshadowed : cfg.boundary.any (·.isSecretTool item.name) = false
  unrevoked : item.name ∉ store.revoked
  hashed : fingerprintTool hmac item.tool = .ok hash
  scanned : cfg.mode = .enforce → scanDescription cfg.unicode (descriptionOf item.tool) ≠ [] →
    store.contains item.name
  approved : cfg.firstContact = .approve → store.contains item.name

/-- The tool is parked for approval. -/
structure Parked (cfg : Shield) (hmac : String → Except String String)
    (store : BaselineStore δ) (item : Listed) (hash : String) : Prop where
  served : item.isWithheld = false
  unrevoked : item.name ∉ store.revoked
  hashed : fingerprintTool hmac item.tool = .ok hash
  approving : cfg.firstContact = .approve
  unknown : store.contains item.name = false

/-- The comparison of an item. -/
def BaselineStore.compare (store : BaselineStore δ) (item : Listed) (hash : String) :
    BaselineStore δ × Verdict :=
  store.check item.name hash (descriptionOf item.tool) item.now item.tool

theorem analyzeTool_of_compared {hash : String} (h : Compared cfg hmac store item hash) :
    analyzeTool cfg hmac store item =
      ((store.compare item hash).1,
        .ok ((judge cfg item (scanDescription cfg.unicode (descriptionOf item.tool)) hash
            (store.compare item hash).2).1,
          defectEvents item ++ (judge cfg item
            (scanDescription cfg.unicode (descriptionOf item.tool)) hash
              (store.compare item hash).2).2)) := by
  have hrevoked : store.isRevoked item.name = false := decide_eq_false h.unrevoked
  have hfirst : (decide (cfg.mode = .enforce) &&
      !(scanDescription cfg.unicode (descriptionOf item.tool)).isEmpty &&
        !store.contains item.name) = false := by
    cases hcontains : store.contains item.name with
    | true => simp
    | false =>
        have hscanned := h.scanned
        simp only [hcontains, Bool.false_eq_true, imp_false, not_not] at hscanned
        simp only [Bool.not_false, Bool.and_true, Bool.and_eq_false_iff, decide_eq_false_iff_not,
          Bool.not_eq_false', List.isEmpty_iff]
        exact Classical.or_iff_not_imp_left.mpr fun hmode => hscanned (not_not.mp hmode)
  have happrove : (decide (cfg.firstContact = .approve) && !store.contains item.name) = false := by
    cases hcontains : store.contains item.name with
    | true => simp
    | false =>
        have happroved := h.approved
        simp only [hcontains, Bool.false_eq_true, imp_false] at happroved
        simp [happroved]
  unfold analyzeTool
  simp only [h.served, h.unshadowed, hrevoked, hfirst, h.hashed, happrove, Bool.false_eq_true,
    if_false]
  rfl

/-- A tool is compared, or parked and blocked, or changes nothing and is not served. -/
theorem analyzeTool_cases (cfg : Shield) (hmac : String → Except String String)
    (store : BaselineStore δ) (item : Listed) :
    (∃ hash, Compared cfg hmac store item hash) ∨
      (∃ hash events, Parked cfg hmac store item hash ∧
        analyzeTool cfg hmac store item =
          ((store.registerPending item.name hash (descriptionOf item.tool) item.now item.tool).1,
            .ok (.blocked, events))) ∨
      (analyzeTool cfg hmac store item).1 = store ∧
        ∀ o, (analyzeTool cfg hmac store item).2 = .ok o → o.1 = .blocked := by
  unfold analyzeTool
  dsimp only
  split
  · refine Or.inr (Or.inr ⟨rfl, ?_⟩)
    intro o ho
    cases ho
    rfl
  · next hserved =>
    split
    · refine Or.inr (Or.inr ⟨rfl, ?_⟩)
      intro o ho
      cases ho
      rfl
    · next hshadow =>
      split
      · refine Or.inr (Or.inr ⟨rfl, ?_⟩)
        intro o ho
        cases ho
        rfl
      · next hrevoked =>
        split
        · refine Or.inr (Or.inr ⟨rfl, ?_⟩)
          intro o ho
          cases ho
          rfl
        · next hfirst =>
          split
          · refine Or.inr (Or.inr ⟨rfl, ?_⟩)
            intro o ho
            cases ho
          · next hash hhash =>
            split
            · next happrove =>
              obtain ⟨hpolicy, hunknown⟩ := (Bool.and_eq_true _ _).mp happrove
              refine Or.inr (Or.inl ⟨hash, _, ⟨Bool.eq_false_iff.mpr hserved, ?_, hhash,
                of_decide_eq_true hpolicy, Bool.not_eq_true' _ ▸ hunknown⟩, rfl⟩)
              exact fun hmem => hrevoked (decide_eq_true hmem)
            · next happrove =>
              refine Or.inl ⟨hash, Bool.eq_false_iff.mpr hserved, Bool.eq_false_iff.mpr hshadow, ?_,
                hhash, ?_, ?_⟩
              · exact fun hmem => hrevoked (decide_eq_true hmem)
              · intro hmode hfindings
                by_contra hcontains
                rw [Bool.not_eq_true] at hcontains
                refine hfirst ?_
                simp [hmode, hcontains, hfindings]
              · intro hpolicy
                by_contra hcontains
                rw [Bool.not_eq_true] at hcontains
                refine happrove ?_
                simp [hpolicy, hcontains]

/-- The stores agree on a name. -/
structure SameAt (name : String) (store store' : BaselineStore δ) : Prop where
  tools : store'.tools.lookup name = store.tools.lookup name
  pending : store'.pending.lookup name = store.pending.lookup name
  revoked : store'.revoked = store.revoked
  unpersisted : name ∈ store'.unpersisted ↔ name ∈ store.unpersisted

theorem SameAt.contains {name : String} {store' : BaselineStore δ} (h : SameAt name store store') :
    store'.contains name = store.contains name := by
  have htools : name ∈ store'.tools ↔ name ∈ store.tools := by
    rw [← Finmap.lookup_isSome, ← Finmap.lookup_isSome, h.tools]
  rw [Bool.eq_iff_iff, BaselineStore.contains_iff, BaselineStore.contains_iff, htools,
    h.unpersisted]

theorem SameAt.rfl' (name : String) (store : BaselineStore δ) : SameAt name store store :=
  ⟨rfl, rfl, rfl, Iff.rfl⟩

theorem SameAt.trans {name : String} {store' store'' : BaselineStore δ}
    (h : SameAt name store store') (h' : SameAt name store' store'') : SameAt name store store'' :=
  ⟨h'.tools.trans h.tools, h'.pending.trans h.pending, h'.revoked.trans h.revoked,
    h'.unpersisted.trans h.unpersisted⟩

theorem check_sameAt {name other hash description : String} {now : ℕ} {tool : Value}
    (hne : name ≠ other) :
    SameAt name store (store.check other hash description now tool).1 := by
  unfold BaselineStore.check
  split
  · refine ⟨Finmap.lookup_insert_of_ne _ hne, rfl, rfl, ?_⟩
    simp only [BaselineStore.register, Finset.mem_insert, hne, false_or]
  · exact .rfl' name store

theorem registerPending_sameAt {name other hash description : String} {now : ℕ} {tool : Value}
    (hne : name ≠ other) :
    SameAt name store (store.registerPending other hash description now tool).1 := by
  unfold BaselineStore.registerPending
  split
  · exact .rfl' name store
  · exact ⟨rfl, Finmap.lookup_insert_of_ne _ hne, rfl, Iff.rfl⟩

/-- A tool that is not withheld touches its own name only, and one that is, none. -/
theorem analyzeTool_sameAt {name : String} (h : item.isWithheld = false → name ≠ item.name) :
    SameAt name store (analyzeTool cfg hmac store item).1 := by
  rcases analyzeTool_cases cfg hmac store item with ⟨hash, hcompared⟩ |
    ⟨hash, events, hpark, hparked⟩ | ⟨hsame, -⟩
  · rw [analyzeTool_of_compared hcompared]
    exact check_sameAt (h hcompared.served)
  · rw [hparked]
    exact registerPending_sameAt (h hpark.served)
  · rw [hsame]
    exact .rfl' name store

/-- What becomes of a tool depends on what the store holds under its name. -/
theorem analyzeTool_congr {store' : BaselineStore δ} (h : SameAt item.name store store') :
    (analyzeTool cfg hmac store' item).2 = (analyzeTool cfg hmac store item).2 := by
  have hrevoked : store'.isRevoked item.name = store.isRevoked item.name := by
    unfold BaselineStore.isRevoked
    rw [h.revoked]
  have hpending : item.name ∈ store'.pending ↔ item.name ∈ store.pending := by
    rw [← Finmap.lookup_isSome, ← Finmap.lookup_isSome, h.pending]
  have hparked : ∀ hash description now tool,
      (store'.registerPending item.name hash description now tool).2 =
        (store.registerPending item.name hash description now tool).2 := by
    intro hash description now tool
    unfold BaselineStore.registerPending
    by_cases hmem : item.name ∈ store.pending
    · rw [if_pos hmem, if_pos (hpending.mpr hmem)]
    · rw [if_neg hmem, if_neg fun hmem' => hmem (hpending.mp hmem')]
  have hverdict : ∀ hash description now tool,
      (store'.check item.name hash description now tool).2 =
        (store.check item.name hash description now tool).2 := by
    intro hash description now tool
    unfold BaselineStore.check
    rw [h.tools]
    split
    · rfl
    · rfl
  unfold analyzeTool
  simp only [hrevoked, h.contains]
  split
  · rfl
  · split
    · rfl
    · split
      · rfl
      · split
        · rfl
        · split
          · rfl
          · split
            · simp only [hparked]
            · simp only [hverdict]

/-- No tool of a listing changes what becomes of a later one. -/
theorem listing_independent {clock : ℕ → ℕ} {tools : List Value} :
    Sweep.Independent (analyzeTool (δ := δ) cfg hmac) (listing cfg clock tools) := by
  refine listing_names.imp fun {a b} hne store => ?_
  cases hb : b.isWithheld with
  | true =>
      unfold analyzeTool
      simp only [hb, if_true]
  | false =>
      refine analyzeTool_congr (analyzeTool_sameAt fun ha => ?_)
      exact (hne ha hb).symm

/-! ## A listing -/

/-- What a list of tools without a name twice does to a name: nothing, or what the one
tool of the name does. -/
theorem sweep_at {items : List Listed}
    (hnames : items.Pairwise fun a b =>
      a.isWithheld = false → b.isWithheld = false → a.name ≠ b.name)
    (name : String) (store : BaselineStore δ) :
    SameAt name store (sweep (analyzeTool cfg hmac) store items).1 ∨
      ∃ item ∈ items, item.isWithheld = false ∧ item.name = name ∧ ∃ before,
        SameAt name store before ∧
          SameAt name (analyzeTool cfg hmac before item).1
            (sweep (analyzeTool cfg hmac) store items).1 := by
  induction items generalizing store with
  | nil => exact Or.inl (.rfl' name store)
  | cons a items ih =>
      obtain ⟨hfirst, hrest⟩ := List.pairwise_cons.mp hnames
      have hhead : ∀ after, SameAt name (analyzeTool cfg hmac store a).1 after →
          SameAt name store after ∨ ∃ item ∈ a :: items, item.isWithheld = false ∧
            item.name = name ∧ ∃ before, SameAt name store before ∧
              SameAt name (analyzeTool cfg hmac before item).1 after := by
        intro after hafter
        by_cases hits : a.isWithheld = false ∧ a.name = name
        · exact Or.inr ⟨a, List.mem_cons_self, hits.1, hits.2, store, .rfl' name store, hafter⟩
        · refine Or.inl (SameAt.trans (analyzeTool_sameAt fun hserved heq => ?_) hafter)
          exact hits ⟨hserved, heq.symm⟩
      cases houtcome : (analyzeTool cfg hmac store a).2 with
      | error e =>
          rw [Sweep.cons_error houtcome]
          exact hhead _ (.rfl' name _)
      | ok b =>
          rw [Sweep.cons_ok houtcome]
          rcases ih hrest (analyzeTool cfg hmac store a).1 with hsame |
            ⟨item, hitem, hserved, heq, before, hbefore, hafter⟩
          · exact hhead _ hsame
          · have hother : SameAt name store (analyzeTool cfg hmac store a).1 :=
              analyzeTool_sameAt fun ha hname =>
                hfirst item hitem ha hserved (hname.symm.trans heq.symm)
            exact Or.inr ⟨item, List.mem_cons_of_mem a hitem, hserved, heq, before,
              hother.trans hbefore, hafter⟩

theorem judgeListing_store {clock : ℕ → ℕ} {msg : JsonRpcMessage} {tools : List Value} :
    (judgeListing cfg hmac clock msg tools store).store =
      (sweep (Baseline.analyzeTool cfg hmac) store (listing cfg clock tools)).1 := by
  unfold judgeListing
  dsimp only
  split
  · rfl
  · split
    · rfl
    · rfl

theorem judgeListing_at {clock : ℕ → ℕ} {msg : JsonRpcMessage} {tools : List Value}
    (name : String) :
    SameAt name store (judgeListing cfg hmac clock msg tools store).store ∨
      ∃ item ∈ listing cfg clock tools, item.isWithheld = false ∧ item.name = name ∧ ∃ before,
        SameAt name store before ∧ SameAt name (analyzeTool cfg hmac before item).1
          (judgeListing cfg hmac clock msg tools store).store := by
  rw [judgeListing_store]
  exact sweep_at listing_names name store

/-- The store only gains trusted names, and none that is revoked. -/
structure Grows (store store' : BaselineStore δ) : Prop where
  tools : ∀ name entry, store.tools.lookup name = some entry →
    store'.tools.lookup name = some entry
  registered : ∀ name, name ∈ store'.tools → name ∈ store.tools ∨ name ∉ store.revoked
  revoked : store'.revoked = store.revoked
  contains : ∀ name, store.contains name → store'.contains name
  diskDigest : store'.diskDigest = store.diskDigest

theorem Grows.refl (store : BaselineStore δ) : Grows store store :=
  ⟨fun _ _ h => h, fun _ h => Or.inl h, rfl, fun _ h => h, rfl⟩

theorem Grows.trans {store' store'' : BaselineStore δ} (h : Grows store store')
    (h' : Grows store' store'') : Grows store store'' := by
  refine ⟨fun name entry hentry => h'.tools name entry (h.tools name entry hentry), ?_,
    h'.revoked.trans h.revoked, fun name hname => h'.contains name (h.contains name hname),
    h'.diskDigest.trans h.diskDigest⟩
  intro name hname
  rcases h'.registered name hname with hmem | hnot
  · exact h.registered name hmem
  · exact Or.inr (h.revoked ▸ hnot)

theorem compare_grows {hash : String} (hunrevoked : item.name ∉ store.revoked) :
    Grows store (store.compare item hash).1 := by
  unfold BaselineStore.compare BaselineStore.check
  split
  · next hnone =>
      have hne : ∀ name, name ∈ store.tools → name ≠ item.name := by
        rintro name hmem rfl
        exact Finmap.lookup_eq_none.mp hnone hmem
      constructor
      · intro name entry hentry
        have hmem := Finmap.mem_of_lookup_eq_some hentry
        exact (Finmap.lookup_insert_of_ne _ (hne name hmem)).trans hentry
      · intro name hmem
        rcases Finmap.mem_insert.mp hmem with rfl | hmem
        · exact Or.inr hunrevoked
        · exact Or.inl hmem
      · rfl
      · intro name hname
        obtain ⟨hmem, hpersisted⟩ := BaselineStore.contains_iff.mp hname
        refine BaselineStore.contains_iff.mpr ⟨Finmap.mem_insert.mpr (Or.inr hmem), ?_⟩
        simp only [BaselineStore.register, Finset.mem_insert, not_or]
        exact ⟨hne name hmem, hpersisted⟩
      · rfl
  · exact .refl store

theorem registerPending_grows {name hash description : String} {now : ℕ} {tool : Value} :
    Grows store (store.registerPending name hash description now tool).1 := by
  unfold BaselineStore.registerPending
  split
  · exact .refl store
  · exact ⟨fun _ _ h => h, fun _ h => Or.inl h, rfl, fun _ h => h, rfl⟩

theorem analyzeTool_grows : Grows store (analyzeTool cfg hmac store item).1 := by
  rcases analyzeTool_cases cfg hmac store item with ⟨hash, hcompared⟩ |
    ⟨hash, events, -, hparked⟩ | ⟨hsame, -⟩
  · rw [analyzeTool_of_compared hcompared]
    exact compare_grows hcompared.unrevoked
  · rw [hparked]
    exact registerPending_grows
  · rw [hsame]
    exact .refl store

theorem judgeListing_grows {clock : ℕ → ℕ} {msg : JsonRpcMessage} {tools : List Value} :
    Grows store (judgeListing cfg hmac clock msg tools store).store := by
  rw [judgeListing_store]
  exact @Sweep.invariant _ _ _ _ _ _ _ (fun s : BaselineStore δ => Grows store s)
    (fun s item _ hs => hs.trans analyzeTool_grows) (.refl store)

end

end BlackMonolith.Baseline
