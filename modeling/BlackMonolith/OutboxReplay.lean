import BlackMonolith.OutboxFiles

/-!
# The replay of dead letters

A replay is refused when the pending file with the dead letters as they stand would
exceed a bound. What is written are the dead letters as they start over, and the bound
is enforced on these.
-/
namespace BlackMonolith.Outbox
open Json Library

structure Files where
  pending : File
  dead : File
deriving DecidableEq

section
variable (parser : Parser)

/-- `Outbox::replay_dead_letters`. -/
def replayDeadLetterFiles (tenant : Option String) (now : ℕ) (files : Files) :
    Except String ℕ × Files :=
  match readRecords parser files.dead with
  | .error error => (.error error, files)
  | .ok deadRecords =>
      let selected := (selectDead parser.serde tenant deadRecords).1
      let leftBehind := (selectDead parser.serde tenant deadRecords).2
      if deadRecords.isEmpty || selected.isEmpty then (.ok 0, files)
      else
        match readRecords parser files.pending with
        | .error error => (.error error, files)
        | .ok pending =>
            let projectedRecords := pending.length + selected.length
            let projectedBytes := fileSize parser.serde (pending ++ selected)
            if maxSpoolRecords < projectedRecords || maxSpoolBytes < projectedBytes then
              (.error s!"the outbox spool is at its bound ({projectedRecords} records, {projectedBytes} bytes); the dead letters were not replayed and no pending event was discarded",
                files)
            else
              (.ok selected.length,
                ⟨writeRecords (enforced parser.serde (pending ++ selected.map (·.replayed now))).file,
                  writeRecords leftBehind⟩)

end

/-! ## All or nothing -/

/-- The records a replay is for: those of the tenant, or all of them. -/
def Chosen (serde : Serde) (tenant : Option String) (r : SpoolRecord) : Prop :=
  ∀ scope ∈ tenant, recordTenant serde r = some scope

instance (serde : Serde) (tenant : Option String) : DecidablePred (Chosen serde tenant) :=
  fun r => inferInstanceAs (Decidable (∀ scope ∈ tenant, recordTenant serde r = some scope))

/-- Either the files stay as they are, after an error or since nothing is chosen, or the
chosen records have moved behind the pending ones, and nothing else has. -/
def AllOrNothing (parser : Parser) (tenant : Option String) (now : ℕ) (files : Files) : Prop :=
  (∃ error, replayDeadLetterFiles parser tenant now files = (.error error, files)) ∨
  ∃ dead, readRecords parser files.dead = .ok dead ∧
    ((∀ r ∈ dead, ¬Chosen parser.serde tenant r) ∧
        replayDeadLetterFiles parser tenant now files = (.ok 0, files) ∨
      ∃ pending after count, readRecords parser files.pending = .ok pending ∧
        replayDeadLetterFiles parser tenant now files = (.ok count, after) ∧
        count = (dead.filter fun r => Chosen parser.serde tenant r).length ∧
        readRecords parser after.pending = .ok (pending ++
          (dead.filter fun r => Chosen parser.serde tenant r).map (·.replayed now)) ∧
        readRecords parser after.dead = .ok (dead.filter fun r => ¬Chosen parser.serde tenant r))

section
variable {parser : Parser} {tenant : Option String}

theorem selectDead_eq (serde : Serde) (dead : List SpoolRecord) :
    selectDead serde tenant dead =
      (dead.filter fun r => Chosen serde tenant r, dead.filter fun r => ¬Chosen serde tenant r) := by
  unfold selectDead
  cases tenant with
  | none => simp [Chosen]
  | some scope =>
      dsimp only
      rw [List.partition_eq_filter_filter]
      congr 1
      · refine List.filter_congr fun r _ => ?_
        simp [Chosen, beq_eq_decide]
      · refine List.filter_congr fun r _ => ?_
        simp [Chosen, beq_eq_decide]

/-- A record whose tenant cannot be read is chosen by no tenant. -/
theorem not_chosen_of_unreadable {serde : Serde} {scope : String} {r : SpoolRecord}
    (h : recordTenant serde r = none) : ¬Chosen serde (some scope) r := by
  intro hchosen
  rw [hchosen scope rfl] at h
  cases h

theorem fits_of_readLines {lines : List (List UInt8)} {records : List SpoolRecord}
    (h : readLines parser lines = .ok records) : ∀ r ∈ records, r.Fits := by
  induction lines generalizing records with
  | nil =>
      rw [← Except.ok.inj h]
      exact fun r hr => absurd hr List.not_mem_nil
  | cons line rest ih =>
      rw [readLines] at h
      cases hdecode : Utf8.decode line with
      | none =>
          rw [hdecode] at h
          cases h
      | some cs =>
          rw [hdecode] at h
          dsimp only at h
          cases hrest : readLines parser rest with
          | error error =>
              rw [hrest] at h
              cases h
          | ok others =>
              rw [hrest] at h
              have hothers := ih hrest
              rw [← Except.ok.inj h]
              intro r hr
              split_ifs at hr with hblank
              · exact hothers r hr
              · rcases List.mem_append.mp hr with hr | hr
                · exact parser.fits _ r (Option.mem_toList.mp hr)
                · exact hothers r hr

theorem SpoolRecord.Fits.replayed {r : SpoolRecord} (h : r.Fits) {now : ℕ} (hnow : now < 2 ^ 128) :
    (r.replayed now).Fits := by
  refine ⟨Nat.two_pow_pos 32, Nat.two_pow_pos 128, ?_⟩
  unfold SpoolRecord.replayed
  dsimp only
  split_ifs
  · exact hnow
  · exact h.createdMs

section
variable {now : ℕ} {files : Files} {dead pending : List SpoolRecord}

theorem replay_of_none (hdead : readRecords parser files.dead = .ok dead)
    (hchosen : (dead.filter fun r => Chosen parser.serde tenant r) = []) :
    replayDeadLetterFiles parser tenant now files = (.ok 0, files) := by
  unfold replayDeadLetterFiles
  simp only [hdead, selectDead_eq, hchosen, List.isEmpty_nil, Bool.or_true, if_true]

theorem isEmpty_of_chosen {serde : Serde}
    (hchosen : (dead.filter fun r => Chosen serde tenant r) ≠ []) :
    dead.isEmpty = false ∧ (dead.filter fun r => Chosen serde tenant r).isEmpty = false := by
  refine ⟨?_, ?_⟩
  · cases dead with
    | nil => exact absurd rfl hchosen
    | cons r rs => rfl
  · rw [Bool.eq_false_iff, ne_eq, List.isEmpty_iff]
    exact hchosen

theorem replay_of_unreadable {error : String} (hdead : readRecords parser files.dead = .ok dead)
    (hpending : readRecords parser files.pending = .error error)
    (hchosen : (dead.filter fun r => Chosen parser.serde tenant r) ≠ []) :
    replayDeadLetterFiles parser tenant now files = (.error error, files) := by
  obtain ⟨hne, hsome⟩ := isEmpty_of_chosen hchosen
  unfold replayDeadLetterFiles
  simp only [hdead, hpending, selectDead_eq, hne, hsome, Bool.or_false, Bool.false_eq_true, if_false]

/-- With something to replay the files follow the replay of the records they hold. -/
theorem replay_of_some (hdead : readRecords parser files.dead = .ok dead)
    (hpending : readRecords parser files.pending = .ok pending)
    (hchosen : (dead.filter fun r => Chosen parser.serde tenant r) ≠ []) :
    replayDeadLetterFiles parser tenant now files =
      match replayDeadLetters parser.serde tenant now ⟨pending, dead⟩ with
      | .error error => (.error error, files)
      | .ok r => (.ok r.count, ⟨writeRecords r.pending.file, writeRecords r.dead⟩) := by
  obtain ⟨hne, hsome⟩ := isEmpty_of_chosen hchosen
  unfold replayDeadLetterFiles replayDeadLetters
  simp only [hdead, hpending, selectDead_eq, hne, hsome, Bool.or_false, Bool.false_eq_true, if_false]
  split_ifs
  · rfl
  · rfl

theorem replayDeadLetters_of_some {serde : Serde}
    (hchosen : (dead.filter fun r => Chosen serde tenant r) ≠ []) :
    (withinBounds serde maxSpoolRecords maxSpoolBytes
        (pending ++ dead.filter fun r => Chosen serde tenant r) = false →
      ∃ error, replayDeadLetters serde tenant now ⟨pending, dead⟩ = .error error) ∧
    (withinBounds serde maxSpoolRecords maxSpoolBytes
        (pending ++ dead.filter fun r => Chosen serde tenant r) = true →
      replayDeadLetters serde tenant now ⟨pending, dead⟩ =
        .ok ⟨(dead.filter fun r => Chosen serde tenant r).length,
          enforced serde (pending ++
            (dead.filter fun r => Chosen serde tenant r).map (·.replayed now)),
          dead.filter fun r => ¬Chosen serde tenant r⟩) := by
  obtain ⟨hne, hsome⟩ := isEmpty_of_chosen hchosen
  unfold replayDeadLetters withinBounds
  simp only [selectDead_eq, hne, hsome, Bool.or_false, Bool.false_eq_true, if_false,
    List.length_append, Bool.and_eq_false_iff, Bool.and_eq_true, decide_eq_false_iff_not,
    decide_eq_true_eq, Bool.or_eq_true, Nat.not_le]
  constructor
  · intro hover
    exact ⟨_, if_pos hover⟩
  · rintro ⟨hrecords, hbytes⟩
    rw [if_neg (by omega)]

theorem fits_replayed (hnow : now < 2 ^ 128) (hdead : readRecords parser files.dead = .ok dead)
    (hpending : readRecords parser files.pending = .ok pending) :
    ∀ r ∈ pending ++ (dead.filter fun r => Chosen parser.serde tenant r).map (·.replayed now),
      r.Fits := by
  intro r hr
  rcases List.mem_append.mp hr with hr | hr
  · exact fits_of_readLines hpending r hr
  · obtain ⟨q, hq, rfl⟩ := List.mem_map.mp hr
    exact (fits_of_readLines hdead q (List.mem_of_mem_filter hq)).replayed hnow

/-- What is not refused is moved whole only if it fits once it starts over. -/
theorem within_of_allOrNothing (hnow : now < 2 ^ 128) (h : AllOrNothing parser tenant now files)
    (hdead : readRecords parser files.dead = .ok dead)
    (hpending : readRecords parser files.pending = .ok pending)
    (hchosen : (dead.filter fun r => Chosen parser.serde tenant r) ≠ [])
    (hbounds : withinBounds parser.serde maxSpoolRecords maxSpoolBytes
      (pending ++ dead.filter fun r => Chosen parser.serde tenant r)) :
    withinBounds parser.serde maxSpoolRecords maxSpoolBytes
      (pending ++ (dead.filter fun r => Chosen parser.serde tenant r).map (·.replayed now)) := by
  have hreplay := @replay_of_some _ _ now _ _ _ hdead hpending hchosen
  rw [(replayDeadLetters_of_some hchosen).2 hbounds] at hreplay
  rcases h with ⟨error, herror⟩ | ⟨dead', hdead', hend⟩
  · rw [hreplay] at herror
    cases herror
  · rw [hdead] at hdead'
    obtain rfl := Except.ok.inj hdead'
    rcases hend with ⟨hnone, -⟩ | ⟨pending', after, count, hpending', hmoved, -, hafter, -⟩
    · refine absurd (List.filter_eq_nil_iff.mpr fun r hr => ?_) hchosen
      rw [decide_eq_true_eq]
      exact hnone r hr
    · rw [hpending] at hpending'
      obtain rfl := Except.ok.inj hpending'
      rw [hreplay] at hmoved
      rw [← (Prod.mk.inj hmoved).2] at hafter
      exact (rewritten_iff (fits_replayed hnow hdead hpending) (by simp [hchosen])).mp hafter

/-- A replay is all or nothing exactly when the chosen records still fit once they start
over, wherever they fit as they stand. -/
theorem replay_all_or_nothing_iff (hnow : now < 2 ^ 128) :
    AllOrNothing parser tenant now files ↔
      ∀ dead pending, readRecords parser files.dead = .ok dead →
        readRecords parser files.pending = .ok pending →
        (dead.filter fun r => Chosen parser.serde tenant r) ≠ [] →
        withinBounds parser.serde maxSpoolRecords maxSpoolBytes
          (pending ++ dead.filter fun r => Chosen parser.serde tenant r) →
        withinBounds parser.serde maxSpoolRecords maxSpoolBytes
          (pending ++ (dead.filter fun r => Chosen parser.serde tenant r).map (·.replayed now)) := by
  constructor
  · intro h dead pending
    exact within_of_allOrNothing hnow h
  · intro hfits
    cases hdead : readRecords parser files.dead with
    | error error =>
        refine Or.inl ⟨error, ?_⟩
        unfold replayDeadLetterFiles
        rw [hdead]
    | ok dead =>
        by_cases hchosen : (dead.filter fun r => Chosen parser.serde tenant r) = []
        · refine Or.inr ⟨dead, hdead, Or.inl ⟨fun r hr => ?_, replay_of_none hdead hchosen⟩⟩
          have hnot := List.filter_eq_nil_iff.mp hchosen r hr
          rwa [decide_eq_true_eq] at hnot
        · cases hpending : readRecords parser files.pending with
          | error error => exact Or.inl ⟨error, replay_of_unreadable hdead hpending hchosen⟩
          | ok pending =>
              have hreplay := @replay_of_some _ _ now _ _ _ hdead hpending hchosen
              cases hbounds : withinBounds parser.serde maxSpoolRecords maxSpoolBytes
                  (pending ++ dead.filter fun r => Chosen parser.serde tenant r) with
              | false =>
                  obtain ⟨error, herror⟩ := (@replayDeadLetters_of_some _ now _ _ _ hchosen).1 hbounds
                  rw [herror] at hreplay
                  exact Or.inl ⟨error, hreplay⟩
              | true =>
                  have hkept := hfits dead pending hdead hpending hchosen hbounds
                  rw [(replayDeadLetters_of_some hchosen).2 hbounds] at hreplay
                  refine Or.inr ⟨dead, hdead, Or.inr ⟨pending, _, _, hpending, hreplay, rfl, ?_, ?_⟩⟩
                  · exact (rewritten_iff (fits_replayed hnow hdead hpending) (by simp [hchosen])).mpr hkept
                  · exact readRecords_writeRecords fun r hr =>
                      fits_of_readLines hdead r (List.mem_of_mem_filter hr)

end

end

/-! ## Records that start over -/

/-- A record that starts over has a line no longer than before when it knows its time of
creation, or the error it starts over from makes up for the time. -/
theorem lineSize_replayed_le {parser : Parser} {r : SpoolRecord} {now : ℕ}
    (h : r.createdMs ≠ 0 ∨ r.lastError ≠ none ∧ now < 10 ^ 16) :
    lineSize parser.serde (r.replayed now) ≤ lineSize parser.serde r := by
  have hzero : width (number 0) = 1 := width_number 0
  have hattempts := width_number_pos r.attempts
  have hnext := width_number_pos r.nextAttemptMs
  have hcreated := width_number_pos r.createdMs
  rw [lineSize_eq, lineSize_eq, recordText_parts, recordText_parts]
  simp only [SpoolRecord.replayed, width_append, lastErrorText, width_nil, hzero]
  rcases h with hknown | ⟨herror, hnow⟩
  · rw [if_neg hknown]
    omega
  · obtain ⟨error, heq⟩ := Option.ne_none_iff_exists'.mp herror
    have hquoted := width_quoted error.toList
    have hfield : width (field ',' "last_error") = 14 := by decide
    have hlength := width_number_le (by decide : 0 < 16) hnow
    rw [heq]
    simp only [width_append, hfield]
    split_ifs
    · omega
    · omega

/-- Records that know when they were made, or what they failed with, still fit once they
start over. -/
theorem withinBounds_replayed {parser : Parser} {pending chosen : List SpoolRecord} {now : ℕ}
    (hknown : ∀ r ∈ chosen, r.createdMs ≠ 0 ∨ r.lastError ≠ none ∧ now < 10 ^ 16)
    (h : withinBounds parser.serde maxSpoolRecords maxSpoolBytes (pending ++ chosen)) :
    withinBounds parser.serde maxSpoolRecords maxSpoolBytes
      (pending ++ chosen.map (·.replayed now)) := by
  have hsize : fileSize parser.serde (chosen.map (·.replayed now)) ≤
      fileSize parser.serde chosen := by
    unfold fileSize
    rw [List.map_map]
    exact List.sum_le_sum fun r hr => lineSize_replayed_le (hknown r hr)
  have hsplit : ∀ records more : List SpoolRecord, fileSize parser.serde (records ++ more) =
      fileSize parser.serde records + fileSize parser.serde more := by
    intro records more
    unfold fileSize
    rw [List.map_append, List.sum_append]
  unfold withinBounds at h ⊢
  simp only [Bool.and_eq_true, decide_eq_true_eq, List.length_append, List.length_map,
    hsplit] at h ⊢
  omega

/-! ## A pending event dropped by a replay -/

/-- A pending record with a payload of the length, and a dead one of an earlier version. -/
def longRecord (n : ℕ) : SpoolRecord := ⟨"a", String.ofList (List.replicate n 'a'), 0, 0, none, 1⟩

def bareRecord : SpoolRecord := ⟨"b", "\x7b\x7d", 0, 0, none, 0⟩

theorem lineSize_longRecord (parser : Parser) (n : ℕ) :
    lineSize parser.serde (longRecord n) = lineSize parser.serde (longRecord 0) + n := by
  have hplain : (List.replicate n 'a').flatMap Value.escapeChar = List.replicate n 'a' := by
    induction n with
    | zero => rfl
    | succ n ih =>
        rw [List.replicate_succ, List.flatMap_cons, ih]
        rfl
  have hascii : width (List.replicate n 'a') = n := by
    have hletter : ∀ c ∈ List.replicate n 'a', c.toNat < 0x80 := by
      intro c hc
      rw [List.eq_of_mem_replicate hc]
      decide
    rw [width_of_ascii hletter, List.length_replicate]
  have hempty : width (List.flatMap Value.escapeChar (List.replicate 0 'a')) = 0 := rfl
  rw [lineSize_eq, lineSize_eq, recordText_parts, recordText_parts]
  simp only [longRecord, width_append, width_quoted, String.toList_ofList, hplain, hascii, hempty]
  omega

theorem filter_chosen_none (serde : Serde) (dead : List SpoolRecord) :
    (dead.filter fun r => Chosen serde none r) = dead ∧
      (dead.filter fun r => ¬Chosen serde none r) = [] := by
  constructor
  · exact List.filter_eq_self.mpr fun r _ => decide_eq_true fun scope hscope => nomatch hscope
  · refine List.filter_eq_nil_iff.mpr fun r _ hr => ?_
    exact of_decide_eq_true hr fun scope hscope => nomatch hscope

/-- With a pending file that the dead record just fills, the pending event is dropped. -/
theorem drops_of_full {n : ℕ} (hn : n + 158 = maxSpoolBytes) (parser : Parser) :
    replayDeadLetterFiles parser none 1000000000000
        ⟨some (complete [longRecord n]), some (complete [bareRecord])⟩ =
      (.ok 1, ⟨writeRecords [bareRecord.replayed 1000000000000], none⟩) ∧
    ¬AllOrNothing parser none 1000000000000
      ⟨some (complete [longRecord n]), some (complete [bareRecord])⟩ := by
  have hlong : lineSize parser.serde (longRecord n) = 78 + n := by
    have hshort : width (recordText (longRecord 0)).toList + 1 = 78 := by decide
    rw [lineSize_longRecord, lineSize_eq, hshort]
  have hbare : lineSize parser.serde bareRecord = 80 := by
    rw [lineSize_eq]
    decide
  have hreplayed : lineSize parser.serde (bareRecord.replayed 1000000000000) = 92 := by
    rw [lineSize_eq]
    decide
  have hfits : ∀ r ∈ [longRecord n], r.Fits := by
    intro r hr
    rw [List.mem_singleton.mp hr]
    exact ⟨Nat.two_pow_pos 32, Nat.two_pow_pos 128, Nat.one_lt_two_pow (by decide)⟩
  have hfits' : ∀ r ∈ [bareRecord], r.Fits := by
    intro r hr
    rw [List.mem_singleton.mp hr]
    exact ⟨Nat.two_pow_pos 32, Nat.two_pow_pos 128, Nat.two_pow_pos 128⟩
  obtain ⟨hchosen, hleft⟩ := filter_chosen_none parser.serde [bareRecord]
  have hdead := @readRecords_whole parser _ hfits'
  have hpending := @readRecords_whole parser _ hfits
  have hne : ([bareRecord].filter fun r => Chosen parser.serde none r) ≠ [] := by
    rw [hchosen]
    exact List.cons_ne_nil _ _
  have hbounds : withinBounds parser.serde maxSpoolRecords maxSpoolBytes
      ([longRecord n] ++ [bareRecord].filter fun r => Chosen parser.serde none r) = true := by
    rw [hchosen]
    simp [withinBounds, fileSize, hlong, hbare, maxSpoolRecords]
    omega
  have hover : withinBounds parser.serde maxSpoolRecords maxSpoolBytes
      [longRecord n, bareRecord.replayed 1000000000000] = false := by
    simp [withinBounds, fileSize, hlong, hreplayed, maxSpoolRecords]
    omega
  have hlast : withinBounds parser.serde maxSpoolRecords maxSpoolBytes
      [bareRecord.replayed 1000000000000] = true := by
    simp [withinBounds, fileSize, hreplayed, maxSpoolRecords, maxSpoolBytes]
  constructor
  · have hreplay := @replay_of_some parser none 1000000000000
      ⟨some (complete [longRecord n]), some (complete [bareRecord])⟩ _ _ hdead hpending hne
    rw [(replayDeadLetters_of_some hne).2 hbounds, hchosen, hleft] at hreplay
    have hfile : (enforced parser.serde
        ([longRecord n] ++ [bareRecord].map (·.replayed 1000000000000))).file =
          [bareRecord.replayed 1000000000000] := by
      rw [enforced_file]
      simp only [List.map_cons, List.map_nil, List.singleton_append, longestSuffix, hover, hlast,
        Bool.false_eq_true, if_false, if_true]
    rw [hreplay]
    dsimp only
    rw [hfile]
    rfl
  · intro hall
    have hwithin := within_of_allOrNothing (by decide) hall hdead hpending hne hbounds
    rw [hchosen] at hwithin
    exact Bool.false_ne_true (hover.symm.trans hwithin)

theorem replay_drops_pending :
    ∃ pending dead : SpoolRecord, pending.Fits ∧ dead.Fits ∧ ∀ parser : Parser,
      replayDeadLetterFiles parser none 1000000000000
          ⟨some (complete [pending]), some (complete [dead])⟩ =
        (.ok 1, ⟨writeRecords [dead.replayed 1000000000000], none⟩) ∧
      ¬AllOrNothing parser none 1000000000000 ⟨some (complete [pending]), some (complete [dead])⟩ := by
  refine ⟨longRecord 16777058, bareRecord, ?_, ?_, fun parser => drops_of_full (by decide) parser⟩
  · exact ⟨Nat.two_pow_pos 32, Nat.two_pow_pos 128, Nat.one_lt_two_pow (by decide)⟩
  · exact ⟨Nat.two_pow_pos 32, Nat.two_pow_pos 128, Nat.two_pow_pos 128⟩

/-- A replay into an empty spool moves the record. -/
theorem replay_all_or_nothing_bare :
    AllOrNothing plainParser none 0 ⟨none, some (complete [bareRecord])⟩ := by
  refine (replay_all_or_nothing_iff (Nat.two_pow_pos 128)).mpr ?_
  intro dead pending hdead hpending _ _
  have hfits : ∀ r ∈ [bareRecord], r.Fits := by
    intro r hr
    rw [List.mem_singleton.mp hr]
    exact ⟨Nat.two_pow_pos 32, Nat.two_pow_pos 128, Nat.two_pow_pos 128⟩
  rw [readRecords_whole hfits] at hdead
  obtain rfl := Except.ok.inj hdead
  obtain rfl := Except.ok.inj hpending
  rw [(filter_chosen_none plainParser.serde [bareRecord]).1]
  decide

end BlackMonolith.Outbox
