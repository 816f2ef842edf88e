import BlackMonolith.Baseline.Persistence
import BlackMonolith.JsonText

/-!
# Canonical forms

The canonical form is the text of the value whose object members are sorted by key
at every depth, so two values have one form exactly when they differ in the order
of members only.
-/
namespace BlackMonolith.Json.Value

/-! ## Members in order -/

def byKey (a b : String × Value) : Prop := a.1 ≤ b.1

instance : DecidableRel byKey := fun a b => inferInstanceAs (Decidable (a.1 ≤ b.1))
instance : Std.Total byKey := ⟨fun a b => le_total a.1 b.1⟩
instance : IsTrans (String × Value) byKey := ⟨fun _ _ _ h h' => le_trans h h'⟩

mutual
/-- The value with the members of its objects sorted. -/
def sorted : Value → Value
  | .array items => .array (sortedItems items)
  | .object members => .object ((sortedMembers members).insertionSort byKey)
  | other => other

def sortedItems : List Value → List Value
  | [] => []
  | item :: items => sorted item :: sortedItems items

def sortedMembers : List (String × Value) → List (String × Value)
  | [] => []
  | (key, value) :: members => (key, sorted value) :: sortedMembers members
end

theorem sortedMembers_keys (members : List (String × Value)) :
    (sortedMembers members).map Prod.fst = members.map Prod.fst := by
  induction members with
  | nil => rfl
  | cons member members ih =>
      obtain ⟨key, value⟩ := member
      rw [sortedMembers, List.map_cons, List.map_cons, ih]

theorem sortedMembers_lookup (members : List (String × Value)) (key : String) :
    (sortedMembers members).lookup key = (members.lookup key).map sorted := by
  induction members with
  | nil => rfl
  | cons member members ih =>
      obtain ⟨key', value⟩ := member
      rw [sortedMembers, List.lookup_cons, List.lookup_cons]
      split
      · rfl
      · exact ih

theorem membersPrinted_iff (members : List (String × Value)) :
    MembersPrinted members ↔ ∀ member ∈ members, member.2.Printed := by
  induction members with
  | nil => simp [MembersPrinted]
  | cons member members ih => rw [MembersPrinted, ih, List.forall_mem_cons]

mutual
theorem Printed.sorted : (v : Value) → v.Printed → v.sorted.Printed
  | .array items, h => ItemsPrinted.sorted items h
  | .object members, h => by
      have hperm := List.perm_insertionSort byKey (sortedMembers members)
      refine ⟨?_, (membersPrinted_iff _).mpr fun member hmember => ?_⟩
      · rw [(hperm.map Prod.fst).nodup_iff, sortedMembers_keys]
        exact h.1
      · exact (membersPrinted_iff _).mp (MembersPrinted.sorted members h.2) member
          (hperm.mem_iff.mp hmember)
  | .null, h | .bool _, h | .number _, h | .string _, h => h

theorem ItemsPrinted.sorted : (items : List Value) → ItemsPrinted items →
    ItemsPrinted (sortedItems items)
  | [], h => h
  | item :: items, h => ⟨Printed.sorted item h.1, ItemsPrinted.sorted items h.2⟩

theorem MembersPrinted.sorted : (members : List (String × Value)) → MembersPrinted members →
    MembersPrinted (sortedMembers members)
  | [], h => h
  | (_, value) :: members, h => ⟨Printed.sorted value h.1, MembersPrinted.sorted members h.2⟩
end

/-! ## Values alike up to order -/

mutual
/-- The values differ in the order of object members only. -/
def Alike : Value → Value → Prop
  | .array items, w => ∃ items', w = .array items' ∧ ItemsAlike items items'
  | .object members, w => ∃ members', w = .object members' ∧
      (members.map Prod.fst).Perm (members'.map Prod.fst) ∧ MembersAlike members members'
  | v, w => v = w

def ItemsAlike : List Value → List Value → Prop
  | [], [] => True
  | item :: items, item' :: items' => Alike item item' ∧ ItemsAlike items items'
  | _, _ => False

/-- Every member has a counterpart of its key. -/
def MembersAlike : List (String × Value) → List (String × Value) → Prop
  | [], _ => True
  | (key, value) :: members, members' =>
      (∃ value', members'.lookup key = some value' ∧ Alike value value') ∧
        MembersAlike members members'
end

theorem lookup_iff_mem {members : List (String × Value)} (h : (members.map Prod.fst).Nodup)
    {key : String} {value : Value} : members.lookup key = some value ↔ (key, value) ∈ members := by
  induction members with
  | nil => simp
  | cons member members ih =>
      obtain ⟨key', value'⟩ := member
      obtain ⟨hfresh, hnodup⟩ := List.nodup_cons.mp h
      rw [List.lookup_cons, List.mem_cons]
      by_cases hkey : key = key'
      · subst hkey
        have hnot : (key, value) ∉ members := by
          intro hmem
          exact hfresh (List.mem_map.mpr ⟨_, hmem, rfl⟩)
        simp [hnot, eq_comm]
      · simp [hkey, beq_false_of_ne hkey, ih hnodup]

/-- Members with distinct keys are in one order as soon as they are the same. -/
theorem insertionSort_eq_iff {members members' : List (String × Value)}
    (h : (members.map Prod.fst).Nodup) :
    members.insertionSort byKey = members'.insertionSort byKey ↔ members.Perm members' := by
  have hperm := List.perm_insertionSort byKey members
  have hperm' := List.perm_insertionSort byKey members'
  constructor
  · intro heq
    rw [heq] at hperm
    exact hperm.symm.trans hperm'
  · intro hsame
    refine List.Perm.eq_of_pairwise ?_ (List.pairwise_insertionSort byKey members)
      (List.pairwise_insertionSort byKey members') (hperm.trans (hsame.trans hperm'.symm))
    rintro ⟨key, value⟩ ⟨key', value'⟩ hmem hmem' hle hle'
    obtain rfl : key = key' := le_antisymm hle hle'
    have hvalue := (lookup_iff_mem h).mpr (hperm.mem_iff.mp hmem)
    have hvalue' := (lookup_iff_mem h).mpr (hsame.mem_iff.mpr (hperm'.mem_iff.mp hmem'))
    rw [hvalue, Option.some_inj] at hvalue'
    rw [hvalue']

/-- Lists of members are the same up to order when their keys are and each member is
found under its key. -/
theorem perm_iff_lookup {members members' : List (String × Value)}
    (h : (members.map Prod.fst).Nodup) (h' : (members'.map Prod.fst).Nodup) :
    members.Perm members' ↔ (members.map Prod.fst).Perm (members'.map Prod.fst) ∧
      ∀ member ∈ members, members'.lookup member.1 = some member.2 := by
  constructor
  · intro hperm
    refine ⟨hperm.map Prod.fst, fun member hmember => ?_⟩
    exact (lookup_iff_mem h').mpr (hperm.mem_iff.mp hmember)
  · rintro ⟨hkeys, hfound⟩
    have hsubset : members ⊆ members' := fun member hmember =>
      (lookup_iff_mem h').mp (hfound member hmember)
    have hlength : members'.length ≤ members.length := by
      have hsame := hkeys.length_eq
      rw [List.length_map, List.length_map] at hsame
      exact hsame.ge
    exact (List.subperm_of_subset h.of_map hsubset).perm_of_length_le hlength

mutual
theorem sorted_eq_iff : (v w : Value) → v.Printed → w.Printed → (v.sorted = w.sorted ↔ Alike v w)
  | .array items, w, hv, hw => by
      cases w with
      | array items' =>
          have hitems := sortedItems_eq_iff items items' hv hw
          simp only [sorted, array.injEq, Alike, hitems, exists_eq_left']
      | null | bool _ | number _ | string _ | object _ => simp [sorted, Alike]
  | .object members, w, hv, hw => by
      cases w with
      | object members' =>
          have hmembers := sortedMembers_found_iff members members' hv.2 hw.2
          have hnodup := hv.1
          have hnodup' := hw.1
          rw [← sortedMembers_keys] at hnodup hnodup'
          simp only [sorted, object.injEq, Alike, exists_eq_left', insertionSort_eq_iff hnodup,
            perm_iff_lookup hnodup hnodup', sortedMembers_keys, hmembers]
      | null | bool _ | number _ | string _ | array _ => simp [sorted, Alike]
  | .null, w, _, _ => by cases w <;> simp [sorted, Alike]
  | .bool _, w, _, _ => by cases w <;> simp [sorted, Alike]
  | .number _, w, _, _ => by cases w <;> simp [sorted, Alike]
  | .string _, w, _, _ => by cases w <;> simp [sorted, Alike]

theorem sortedItems_eq_iff : (vs ws : List Value) → ItemsPrinted vs → ItemsPrinted ws →
    (sortedItems vs = sortedItems ws ↔ ItemsAlike vs ws)
  | [], [], _, _ => by simp [ItemsAlike]
  | [], _ :: _, _, _ => by simp [sortedItems, ItemsAlike]
  | _ :: _, [], _, _ => by simp [sortedItems, ItemsAlike]
  | v :: vs, w :: ws, hv, hw => by
      rw [sortedItems, sortedItems, List.cons.injEq, ItemsAlike, sorted_eq_iff v w hv.1 hw.1,
        sortedItems_eq_iff vs ws hv.2 hw.2]

theorem sortedMembers_found_iff : (vs ws : List (String × Value)) → MembersPrinted vs →
    MembersPrinted ws →
    ((∀ member ∈ sortedMembers vs, (sortedMembers ws).lookup member.1 = some member.2) ↔
      MembersAlike vs ws)
  | [], _, _, _ => by simp [sortedMembers, MembersAlike]
  | (key, v) :: vs, ws, hv, hw => by
      have hrest := sortedMembers_found_iff vs ws hv.2 hw
      have hhead : (sortedMembers ws).lookup key = some v.sorted ↔
          ∃ w, ws.lookup key = some w ∧ Alike v w := by
        rw [sortedMembers_lookup, Option.map_eq_some_iff]
        refine exists_congr fun w => and_congr_right fun hlookup => ?_
        have hprinted : w.Printed := by
          obtain ⟨before, after, hsplit, -⟩ := List.lookup_eq_some_iff.mp hlookup
          refine (membersPrinted_iff ws).mp hw (key, w) ?_
          rw [hsplit]
          exact List.mem_append_right _ List.mem_cons_self
        rw [eq_comm, sorted_eq_iff v w hv.1 hprinted]
      rw [sortedMembers, List.forall_mem_cons, MembersAlike, hrest, hhead]
end

/-! ## Values read back -/

section
variable {reread : String → String}

mutual
/-- Reading back keeps the order of members, so a value like the one written is that one. -/
theorem asRead_eq_of_alike : (v : Value) → v.Printed → Alike (v.asRead reread) v →
    v.asRead reread = v
  | .array items, hv, h => by
      obtain ⟨items', hsame, hitems⟩ := h
      cases hsame
      rw [asRead, itemsAsRead_eq_of_alike items hv hitems]
  | .object members, hv, h => by
      obtain ⟨members', hsame, -, hmembers⟩ := h
      cases hsame
      rw [asRead, membersAsRead_eq_of_alike members members hv.1 (fun _ => id) hv.2 hmembers]
  | .number (.float _), _, h | .number (.int _), _, h | .null, _, h | .bool _, _, h
  | .string _, _, h => h

theorem itemsAsRead_eq_of_alike : (items : List Value) → ItemsPrinted items →
    ItemsAlike (itemsAsRead reread items) items → itemsAsRead reread items = items
  | [], _, _ => rfl
  | item :: items, hprinted, h => by
      rw [itemsAsRead, asRead_eq_of_alike item hprinted.1 h.1,
        itemsAsRead_eq_of_alike items hprinted.2 h.2]

theorem membersAsRead_eq_of_alike : (members all : List (String × Value)) →
    (all.map Prod.fst).Nodup → (∀ member ∈ members, member ∈ all) → MembersPrinted members →
    MembersAlike (membersAsRead reread members) all → membersAsRead reread members = members
  | [], _, _, _, _, _ => rfl
  | (key, value) :: members, all, hnodup, hsub, hprinted, h => by
      obtain ⟨⟨value', hlookup, halike⟩, hrest⟩ := h
      have hvalue : all.lookup key = some value :=
        (lookup_iff_mem hnodup).mpr (hsub _ List.mem_cons_self)
      rw [Option.some.inj (hlookup.symm.trans hvalue)] at halike
      rw [membersAsRead, asRead_eq_of_alike value hprinted.1 halike,
        membersAsRead_eq_of_alike members all hnodup
          (fun member hmem => hsub member (List.mem_cons_of_mem _ hmem)) hprinted.2 hrest]
end

end

theorem toStringItems_eq (items : List Value) : toStringItems items = items.map toString := by
  induction items with
  | nil => rfl
  | cons item items ih => rw [toStringItems, ih, List.map_cons]

theorem toStringMembers_eq (members : List (String × Value)) :
    toStringMembers members = members.map fun p => quote p.1 ++ ":" ++ p.2.toString := by
  induction members with
  | nil => rfl
  | cons member members ih => rw [toStringMembers, ih, List.map_cons]

end BlackMonolith.Json.Value

namespace BlackMonolith.Baseline
open Json JsonRpc Library

/-! ## The canonical form -/

mutual
theorem canonicalize_eq : (v : Value) → canonicalize v = v.sorted.toString
  | .array items => by
      rw [canonicalize, canonicalItems_eq items, Value.sorted, Value.toString,
        Value.toStringItems_eq]
  | .object members => by
      have hsorted : sortMembers ((Value.sortedMembers members).map fun p => (p.1, p.2.toString)) =
          ((Value.sortedMembers members).insertionSort Value.byKey).map
            fun p => (p.1, p.2.toString) := by
        rw [@List.map_insertionSort _ _ Value.byKey (fun a b : String × String => a.1 ≤ b.1) _ _
          (fun p => (p.1, p.2.toString)) (Value.sortedMembers members) fun _ _ _ _ => Iff.rfl]
        rfl
      rw [canonicalize, canonicalMembers_eq members, hsorted, List.map_map, Value.sorted,
        Value.toString, Value.toStringMembers_eq]
      rfl
  | .null | .bool _ | .number _ | .string _ => rfl

theorem canonicalItems_eq : (items : List Value) →
    canonicalItems items = (Value.sortedItems items).map Value.toString
  | [] => rfl
  | item :: items => by
      rw [canonicalItems, canonicalize_eq item, canonicalItems_eq items]
      rfl

theorem canonicalMembers_eq : (members : List (String × Value)) →
    canonicalMembers members =
      (Value.sortedMembers members).map fun p => (p.1, p.2.toString)
  | [] => rfl
  | (key, value) :: members => by
      rw [canonicalMembers, canonicalize_eq value, canonicalMembers_eq members]
      rfl
end

theorem canonicalize_eq_iff {v w : Value} (hv : v.Printed) (hw : w.Printed) :
    canonicalize v = canonicalize w ↔ v.Alike w := by
  rw [canonicalize_eq, canonicalize_eq, ← Value.sorted_eq_iff v w hv hw]
  constructor
  · exact Value.toString_injective (Value.Printed.sorted v hv) (Value.Printed.sorted w hw)
  · exact congrArg Value.toString

/-! ## Mismatches -/

section
variable {δ : Type} [DecidableEq δ] {fmt : Format δ} {hmac : String → Except String String}
  {store : BaselineStore δ}

/-- Two schemas have one fingerprint when they are alike. -/
theorem fingerprint_eq_iff
    (hcollision : ∀ s t hash, hmac s = .ok hash → hmac t = .ok hash → s = t) {v w : Value}
    {hash hash' : String} (hv : v.Printed) (hw : w.Printed) (hhash : fingerprintTool hmac v = .ok hash)
    (hhash' : fingerprintTool hmac w = .ok hash') : hash = hash' ↔ v.Alike w := by
  rw [← canonicalize_eq_iff hv hw]
  constructor
  · rintro rfl
    exact hcollision _ _ hash hhash hhash'
  · intro hsame
    unfold fingerprintTool at hhash hhash'
    rw [hsame, hhash'] at hhash
    exact (Except.ok.inj hhash).symm

omit [DecidableEq δ] in
/-- What a load checks of an entry as it is read excludes, but for a collision, that a number
was read as another one. -/
theorem SoundEntry.asRead_eq
    (hcollision : ∀ s t hash, hmac s = .ok hash → hmac t = .ok hash → s = t) {name : String}
    {entry : BaselineEntry} (h : SoundEntry hmac name entry) (hprinted : entry.tool.Printed)
    (hread : (entry.asRead fmt).tool.Printed)
    (hauthentic : entryIsAuthentic hmac name (entry.asRead fmt) = true) :
    entry.asRead fmt = entry := by
  unfold entryIsAuthentic at hauthentic
  rw [Bool.and_eq_true] at hauthentic
  cases hhash : fingerprintTool hmac (entry.asRead fmt).tool with
  | error error =>
      rw [hhash] at hauthentic
      cases hauthentic.2
  | ok hash =>
      rw [hhash] at hauthentic
      have hsame : hash = entry.hash := beq_iff_eq.mp hauthentic.2
      have halike := (fingerprint_eq_iff hcollision hread hprinted hhash h.hash).mp hsame
      exact BaselineEntry.asRead_eq_iff.mpr (Value.asRead_eq_of_alike entry.tool hprinted halike)

/-- The canonical form forgets the order of members and nothing else, and whatever store
a run reaches, a tool is a mismatch exactly when it differs from the stored schema in more
than that. A float is the text it is printed as, so 0.0 and -0.0 differ. -/
theorem canonicalize_exact :
    (∀ v w : Value, v.Printed → w.Printed → (canonicalize v = canonicalize w ↔ v.Alike w)) ∧
    ((∀ s t hash, hmac s = .ok hash → hmac t = .ok hash → s = t) →
      ∀ (sys : System δ) (actions : List Action),
        Path (systemStep fmt hmac) unguarded {} actions sys → sys.Holds store →
      ∀ name entry tool hash description now, store.tools.lookup name = some entry →
        entry.tool.Printed → tool.Printed → fingerprintTool hmac tool = .ok hash →
        ((store.check name hash description now tool).2 = .mismatch entry ↔
          ¬entry.tool.Alike tool)) := by
  refine ⟨fun v w => canonicalize_eq_iff, ?_⟩
  intro hcollision sys actions hpath hstore name entry tool hash description now hentry hprinted
    hprinted' hhash
  have hsound : SoundFile hmac store.file :=
    System.Sound.holds (hpath.invariant step_sound System.init_sound) hstore
  have hstored := (hsound.tools name entry hentry).hash
  rw [← fingerprint_eq_iff hcollision hprinted hprinted' hstored hhash]
  unfold BaselineStore.check
  rw [hentry]
  dsimp only
  split_ifs with hsame <;> simp [hsame]

end

/-- The tool of a benign listing, with its members in another order, and with another
schema. -/
def registered : Value :=
  .object [("description", .string "Reads a file."), ("inputSchema", .object []),
    ("name", .string "read_file")]

def reordered : Value :=
  .object [("name", .string "read_file"), ("inputSchema", .object []),
    ("description", .string "Reads a file.")]

def altered : Value :=
  .object [("description", .string "Reads a file."), ("inputSchema", .object [("x", .null)]),
    ("name", .string "read_file")]

/-- After a benign listing the reordered tool is no mismatch, and the altered one is. -/
theorem canonicalize_exact_benign :
    ∃ sys store entry, execute (systemStep plainFormat plainHmac) {} (register benign) = some sys ∧
      sys.proxy = some store ∧ store.tools.lookup "read_file" = some entry ∧
      (store.check "read_file" (canonicalize reordered) "" 0 reordered).2 ≠ .mismatch entry ∧
      (store.check "read_file" (canonicalize altered) "" 0 altered).2 = .mismatch entry := by
  have hrun : execute (systemStep plainFormat plainHmac) {} (register benign) = some _ := rfl
  have hmismatch := (@canonicalize_exact _ _ plainFormat plainHmac _).2
    (fun s t hash hs ht => (Except.ok.inj hs).trans (Except.ok.inj ht).symm) _ _
    (Path.of_execute hrun) (Or.inl rfl)
  have hprinted : registered.Printed := by
    simp [registered, Value.Printed, Value.MembersPrinted]
  have halike : registered.Alike reordered := by
    refine ⟨_, rfl, by decide, ?_⟩
    simp [Value.MembersAlike, Value.Alike, List.lookup]
  have hdiffer : ¬registered.Alike altered := by
    simp [registered, altered, Value.MembersAlike, Value.Alike, List.lookup]
  refine ⟨_, _, _, hrun, rfl, rfl, fun h => ?_, ?_⟩
  · refine (hmismatch "read_file" _ reordered _ "" 0 rfl hprinted ?_ rfl).mp h halike
    simp [reordered, Value.Printed, Value.MembersPrinted]
  · refine (hmismatch "read_file" _ altered _ "" 0 rfl hprinted ?_ rfl).mpr hdiffer
    simp [altered, Value.Printed, Value.MembersPrinted]

end BlackMonolith.Baseline
