import BlackMonolith.TraceAudit.BackendStream

/-!
# Backend streams and their network chunks

A stream is read alike however it is cut, except around the lines that are passed over
without being decoded. The bound on a line is checked for such a line only while it is
in progress at the end of a chunk, so that one of more than 256 KiB is either read over
or an error. It makes no difference where an error follows before another token.
-/
namespace BlackMonolith.TraceAudit
open Library PyJsonText

/-- The same tokens and the same kind of end. -/
def SameAnswer (first second : List PyString × Option BackendError) : Prop :=
  first.1 = second.1 ∧ first.2.isSome = second.2.isSome

def ChunkIndependent (stream : List Bytes → List PyString × Option BackendError)
    (bytes : Bytes) : Prop :=
  ∀ first second, first.flatten = bytes → second.flatten = bytes →
    SameAnswer (stream first) (stream second)

/-- The lines that are not decoded and have no bound of their own. -/
def Backend.PassesOver : Backend → Bytes → Prop
  | ollama, line => line.strip.isEmpty
  | openai, line => line.strip.isEmpty ∨ line.strip.startsWith ":" ∨ line.strip.startsWith "event:"

section
variable (floatRepr : Points → String) (backend : Backend) (maxTokens : ℤ) (rest : Bytes)

/-- An error comes before another token and before the end. -/
def RaisesNext (yielded : ℕ) : List Bytes → Prop
  | [] =>
      maxOllamaLineBytes < rest.length ∨
        ¬ rest.strip.isEmpty ∧ ∃ e, readLine floatRepr backend maxTokens yielded rest = .error e
  | line :: lines =>
      (∃ e, readLine floatRepr backend maxTokens yielded line = .error e) ∨
        readLine floatRepr backend maxTokens yielded line = .ok ([], false) ∧
          yielded < maxTokens ∧ RaisesNext yielded lines

/-- Each overlong line that is passed over before the stream stops is followed by an error. -/
def Settled : ℕ → List Bytes → Prop
  | _, [] => True
  | yielded, line :: lines =>
      ∀ tokens done, readLine floatRepr backend maxTokens yielded line = .ok (tokens, done) →
        (backend.PassesOver line → maxOllamaLineBytes < line.length →
          yielded < maxTokens ∧ RaisesNext floatRepr backend maxTokens rest yielded lines) ∧
        ((yielded + tokens.length : ℕ) < maxTokens → done = false →
          Settled (yielded + tokens.length) lines)

/-- What a stream answers when it arrives in one piece. -/
def wholeAnswer (yielded : ℕ) (lines : List Bytes) : List PyString × Option BackendError :=
  match readLines floatRepr backend maxTokens yielded lines with
  | (tokens, .stopped raised) => (tokens, raised)
  | (tokens, .on yielded) =>
      if maxOllamaLineBytes < rest.length then (tokens, some (.lineTooLong backend))
      else
        let (more, raised) := readLast floatRepr backend maxTokens yielded rest
        (tokens ++ more, raised)

end

/-! ## Lines -/

section
variable {floatRepr : Points → String} {backend : Backend} {maxTokens : ℤ} {yielded : ℕ}
  {line rest : Bytes} {lines : List Bytes} {tokens : List PyString} {done : Bool}

theorem parseLine_passesOver (h : backend.PassesOver line) :
    backend.parseLine floatRepr line = .ok ([], false) := by
  cases backend with
  | ollama => exact if_pos h
  | openai =>
      apply if_pos
      rw [Bool.or_eq_true, Bool.or_eq_true, or_assoc]
      exact h

theorem parseLine_long (h : ¬ backend.PassesOver line) (hlong : maxOllamaLineBytes < line.length) :
    backend.parseLine floatRepr line = .error (.lineTooLong backend) := by
  cases backend with
  | ollama => exact (if_neg h).trans (if_pos hlong)
  | openai =>
      refine (if_neg ?_).trans (if_pos hlong)
      rw [Bool.or_eq_true, Bool.or_eq_true, or_assoc]
      exact h

theorem readLine_passesOver (h : backend.PassesOver line) :
    readLine floatRepr backend maxTokens yielded line = .ok ([], false) := by
  have hbounded : boundedOllamaTokens [] (maxTokens - yielded) = .ok [] := by
    unfold boundedOllamaTokens
    rw [List.take_nil]
    rfl
  unfold readLine
  rw [parseLine_passesOver h]
  dsimp only
  rw [hbounded]

theorem readLine_long (h : ¬ backend.PassesOver line) (hlong : maxOllamaLineBytes < line.length) :
    readLine floatRepr backend maxTokens yielded line = .error (.lineTooLong backend) := by
  unfold readLine
  rw [parseLine_long h hlong]

theorem boundedOllamaTokens_length {selected : List PyString} {remaining : ℤ}
    (h : boundedOllamaTokens tokens remaining = .ok selected) :
    (selected.length : ℤ) ≤ max remaining 0 := by
  unfold boundedOllamaTokens at h
  dsimp only at h
  split at h
  · cases h
  · cases h
    have hlen := List.length_take_le (max remaining 0).toNat tokens
    omega

theorem readLine_length (h : readLine floatRepr backend maxTokens yielded line = .ok (tokens, done)) :
    (yielded + tokens.length : ℕ) ≤ max maxTokens yielded := by
  unfold readLine at h
  split at h
  · cases h
  next selected last hparse =>
    split at h
    · cases h
    next bounded hbounded =>
      cases h
      have hlen := boundedOllamaTokens_length hbounded
      omega

/-! ## The lines of a chunk -/

theorem readLines_error {e : BackendError}
    (h : readLine floatRepr backend maxTokens yielded line = .error e) :
    readLines floatRepr backend maxTokens yielded (line :: lines) = ([], .stopped (some e)) := by
  rw [readLines, h]

theorem readLines_stopped
    (h : readLine floatRepr backend maxTokens yielded line = .ok (tokens, done))
    (hstop : maxTokens ≤ (yielded + tokens.length : ℕ) ∨ done = true) :
    readLines floatRepr backend maxTokens yielded (line :: lines) = (tokens, .stopped none) := by
  rw [readLines, h]
  exact if_pos hstop

theorem readLines_on (h : readLine floatRepr backend maxTokens yielded line = .ok (tokens, false))
    (hmore : (yielded + tokens.length : ℕ) < maxTokens) :
    readLines floatRepr backend maxTokens yielded (line :: lines) =
      (tokens ++ (readLines floatRepr backend maxTokens (yielded + tokens.length) lines).1,
        (readLines floatRepr backend maxTokens (yielded + tokens.length) lines).2) := by
  rw [readLines, h]
  apply if_neg
  rintro (hle | hdone)
  · omega
  · cases hdone

/-- What a line does: it raises, or it is the last one, or reading goes on after it. -/
theorem readLine_cases (floatRepr : Points → String) (backend : Backend) (maxTokens : ℤ)
    (yielded : ℕ) (line : Bytes) :
    (∃ e, readLine floatRepr backend maxTokens yielded line = .error e) ∨
      (∃ tokens done, readLine floatRepr backend maxTokens yielded line = .ok (tokens, done) ∧
        (maxTokens ≤ (yielded + tokens.length : ℕ) ∨ done = true)) ∨
      ∃ tokens, readLine floatRepr backend maxTokens yielded line = .ok (tokens, false) ∧
        (yielded + tokens.length : ℕ) < maxTokens := by
  cases hline : readLine floatRepr backend maxTokens yielded line with
  | error e => exact .inl ⟨e, rfl⟩
  | ok content =>
      right
      by_cases hstop : maxTokens ≤ (yielded + content.1.length : ℕ) ∨ content.2 = true
      · exact .inl ⟨content.1, content.2, rfl, hstop⟩
      · obtain ⟨hmore, hdone⟩ := not_or.mp hstop
        refine .inr ⟨content.1, ?_, by omega⟩
        rw [← Bool.eq_false_iff.mpr hdone]

theorem readLines_append_on {before after : List Bytes} {next : ℕ}
    (h : readLines floatRepr backend maxTokens yielded before = (tokens, .on next)) :
    readLines floatRepr backend maxTokens yielded (before ++ after) =
      (tokens ++ (readLines floatRepr backend maxTokens next after).1,
        (readLines floatRepr backend maxTokens next after).2) := by
  induction before generalizing yielded tokens with
  | nil =>
      cases h
      rfl
  | cons line before ih =>
      rw [List.cons_append]
      obtain ⟨e, hline⟩ | ⟨read, done, hline, hstop⟩ | ⟨read, hline, hmore⟩ :=
        readLine_cases floatRepr backend maxTokens yielded line
      · rw [readLines_error hline] at h
        cases h
      · rw [readLines_stopped hline hstop] at h
        cases h
      · rw [readLines_on hline hmore] at h ⊢
        have hnext : readLines floatRepr backend maxTokens (yielded + read.length) before =
            ((readLines floatRepr backend maxTokens (yielded + read.length) before).1, .on next) :=
          Prod.ext rfl (Prod.mk.inj h).2
        rw [ih hnext, ← (Prod.mk.inj h).1, List.append_assoc]

theorem readLines_append_stopped {before after : List Bytes} {raised : Option BackendError}
    (h : readLines floatRepr backend maxTokens yielded before = (tokens, .stopped raised)) :
    readLines floatRepr backend maxTokens yielded (before ++ after) = (tokens, .stopped raised) := by
  induction before generalizing yielded tokens with
  | nil => cases h
  | cons line before ih =>
      rw [List.cons_append]
      obtain ⟨e, hline⟩ | ⟨read, done, hline, hstop⟩ | ⟨read, hline, hmore⟩ :=
        readLine_cases floatRepr backend maxTokens yielded line
      · rw [readLines_error hline] at h ⊢
        exact h
      · rw [readLines_stopped hline hstop] at h ⊢
        exact h
      · rw [readLines_on hline hmore] at h ⊢
        have hnext : readLines floatRepr backend maxTokens (yielded + read.length) before =
            ((readLines floatRepr backend maxTokens (yielded + read.length) before).1,
              .stopped raised) := Prod.ext rfl (Prod.mk.inj h).2
        rw [ih hnext]
        exact Prod.ext (Prod.mk.inj h).1 rfl

/-! ## The answer to a whole stream -/

theorem wholeAnswer_error {e : BackendError}
    (h : readLine floatRepr backend maxTokens yielded line = .error e) :
    wholeAnswer floatRepr backend maxTokens rest yielded (line :: lines) = ([], some e) := by
  unfold wholeAnswer
  rw [readLines_error h]

theorem wholeAnswer_stopped
    (h : readLine floatRepr backend maxTokens yielded line = .ok (tokens, done))
    (hstop : maxTokens ≤ (yielded + tokens.length : ℕ) ∨ done = true) :
    wholeAnswer floatRepr backend maxTokens rest yielded (line :: lines) = (tokens, none) := by
  unfold wholeAnswer
  rw [readLines_stopped h hstop]

theorem wholeAnswer_append_on {before after : List Bytes} {next : ℕ}
    (h : readLines floatRepr backend maxTokens yielded before = (tokens, .on next)) :
    wholeAnswer floatRepr backend maxTokens rest yielded (before ++ after) =
      (tokens ++ (wholeAnswer floatRepr backend maxTokens rest next after).1,
        (wholeAnswer floatRepr backend maxTokens rest next after).2) := by
  unfold wholeAnswer
  rw [readLines_append_on h]
  cases readLines floatRepr backend maxTokens next after with
  | mk more progress =>
      cases progress with
      | stopped raised => rfl
      | on last =>
          dsimp only
          split
          · rfl
          · rw [List.append_assoc]

theorem wholeAnswer_on (h : readLine floatRepr backend maxTokens yielded line = .ok (tokens, false))
    (hmore : (yielded + tokens.length : ℕ) < maxTokens) :
    wholeAnswer floatRepr backend maxTokens rest yielded (line :: lines) =
      (tokens ++ (wholeAnswer floatRepr backend maxTokens rest (yielded + tokens.length) lines).1,
        (wholeAnswer floatRepr backend maxTokens rest (yielded + tokens.length) lines).2) := by
  have hline : readLines floatRepr backend maxTokens yielded [line] =
      (tokens, .on (yielded + tokens.length)) := by
    rw [readLines_on h hmore]
    exact Prod.ext (List.append_nil tokens) rfl
  exact wholeAnswer_append_on hline

theorem raisesNext_iff :
    RaisesNext floatRepr backend maxTokens rest yielded lines ↔
      (wholeAnswer floatRepr backend maxTokens rest yielded lines).1 = [] ∧
        (wholeAnswer floatRepr backend maxTokens rest yielded lines).2.isSome := by
  induction lines with
  | nil =>
      unfold RaisesNext wholeAnswer readLast
      rw [readLines]
      dsimp only
      by_cases hlong : maxOllamaLineBytes < rest.length
      · rw [if_pos hlong]
        exact iff_of_true (.inl hlong) ⟨rfl, rfl⟩
      · rw [if_neg hlong]
        by_cases hblank : rest.strip.isEmpty = true
        · rw [if_pos hblank]
          apply iff_of_false
          · rintro (hmore | ⟨hnot, _⟩)
            · exact hlong hmore
            · exact hnot hblank
          · rintro ⟨_, hsome⟩
            cases hsome
        · rw [if_neg hblank]
          cases hread : readLine floatRepr backend maxTokens yielded rest with
          | error e => exact iff_of_true (.inr ⟨hblank, e, rfl⟩) ⟨rfl, rfl⟩
          | ok content =>
              apply iff_of_false
              · rintro (hmore | ⟨_, e, he⟩)
                · exact hlong hmore
                · cases he
              · rintro ⟨_, hsome⟩
                cases hsome
  | cons line lines ih =>
      rw [RaisesNext]
      obtain ⟨e, hline⟩ | ⟨read, done, hline, hstop⟩ | ⟨read, hline, hmore⟩ :=
        readLine_cases floatRepr backend maxTokens yielded line
      · rw [wholeAnswer_error hline]
        exact iff_of_true (.inl ⟨e, hline⟩) ⟨rfl, rfl⟩
      · rw [wholeAnswer_stopped hline hstop]
        apply iff_of_false
        · rintro (⟨e, he⟩ | ⟨hok, hlt, _⟩)
          · rw [hline] at he
            cases he
          · rw [hline] at hok
            cases hok
            rcases hstop with hle | hdone
            · exact absurd hlt (not_lt.mpr hle)
            · cases hdone
        · rintro ⟨_, hsome⟩
          cases hsome
      · rw [wholeAnswer_on hline hmore]
        cases read with
        | nil =>
            rw [List.nil_append, List.length_nil, Nat.add_zero, ← ih]
            constructor
            · rintro (⟨e, he⟩ | ⟨_, _, hnext⟩)
              · rw [hline] at he
                cases he
              · exact hnext
            · intro hnext
              exact .inr ⟨hline, hmore, hnext⟩
        | cons token read =>
            apply iff_of_false
            · rintro (⟨e, he⟩ | ⟨hok, _⟩)
              · rw [hline] at he
                cases he
              · rw [hline] at hok
                cases hok
            · rintro ⟨hempty, _⟩
              cases hempty

/-- The condition, said of every line that is reached. -/
theorem settled_iff : Settled floatRepr backend maxTokens rest yielded lines ↔
    ∀ before line after tokens next, lines = before ++ line :: after →
      readLines floatRepr backend maxTokens yielded before = (tokens, .on next) →
      maxOllamaLineBytes < line.length →
      RaisesNext floatRepr backend maxTokens rest next (line :: after) := by
  induction lines generalizing yielded with
  | nil =>
      rw [Settled]
      apply iff_of_true trivial
      intro before line after tokens next hsplit
      cases before with
      | nil => cases hsplit
      | cons first before => cases hsplit
  | cons line lines ih =>
      rw [Settled]
      constructor
      · intro h before long after tokens next hsplit hreach hlong
        cases before with
        | nil =>
            cases hreach
            obtain ⟨rfl, rfl⟩ := List.cons.inj hsplit
            by_cases hpass : backend.PassesOver line
            · have hline := @readLine_passesOver floatRepr _ maxTokens yielded _ hpass
              obtain ⟨hlt, hnext⟩ := (h [] false hline).1 hpass hlong
              exact .inr ⟨hline, hlt, hnext⟩
            · exact .inl ⟨_, readLine_long hpass hlong⟩
        | cons first before =>
            obtain ⟨rfl, rfl⟩ := List.cons.inj hsplit
            obtain ⟨e, hline⟩ | ⟨read, done, hline, hstop⟩ | ⟨read, hline, hmore⟩ :=
              readLine_cases floatRepr backend maxTokens yielded line
            · rw [readLines_error hline] at hreach
              cases hreach
            · rw [readLines_stopped hline hstop] at hreach
              cases hreach
            · rw [readLines_on hline hmore] at hreach
              exact ih.mp ((h read false hline).2 hmore rfl) before long after _ next rfl
                (Prod.ext rfl (Prod.mk.inj hreach).2) hlong
      · intro h tokens done hline
        constructor
        · intro hpass hlong
          cases (readLine_passesOver hpass).symm.trans hline
          rcases h [] line lines [] yielded rfl rfl hlong with ⟨e, he⟩ | ⟨_, hnext⟩
          · rw [hline] at he
            cases he
          · exact hnext
        · intro hmore hdone
          cases hdone
          apply ih.mpr
          intro before long after more next hsplit hreach hlong
          apply h (line :: before) long after (tokens ++ more) next (congrArg (line :: ·) hsplit)
          · rw [readLines_on hline hmore, hreach]
          · exact hlong

/-! ## Chunks -/

theorem takeLines_append (held more : Bytes) :
    takeLines (held ++ more) =
      ((takeLines held).1 ++ (takeLines ((takeLines held).2 ++ more)).1,
        (takeLines ((takeLines held).2 ++ more)).2) :=
  Prod.ext (Framing.completed_append held more) (Framing.unfinished_append held more)

theorem takeLines_rest (held : Bytes) : takeLines (takeLines held).2 = ([], (takeLines held).2) := by
  have happend := takeLines_append held []
  rw [List.append_nil, List.append_nil] at happend
  have hlines := List.self_eq_append_right.mp (congrArg Prod.fst happend)
  exact Prod.ext hlines (congrArg Prod.snd happend).symm

/-- The first line that is completed begins with what was in progress. -/
theorem prefix_of_takeLines {held more line : Bytes} (hheld : takeLines held = ([], held))
    (h : takeLines (held ++ more) = (line :: lines, rest)) : held <+: line := by
  have hframes : Framing.frames endsLine held more = ([] ++ line :: lines, rest) := by
    have happend := @Framing.frames_append _ endsLine [] held more
    rw [show Framing.frames endsLine [] held = ([], held) from hheld] at happend
    exact (happend.symm.trans h)
  obtain ⟨front, c, back, u, _, hfront, hends⟩ := Framing.frames_split hframes
  have hu : u = held ++ front := Framing.rest_of_frames_nil hfront
  unfold endsLine at hends
  split_ifs at hends
  rw [← Option.some.inj hends, List.dropLast_concat, hu]
  exact List.prefix_append held front

theorem readChunks_sameAnswer (chunks : List Bytes) {pending : Bytes}
    (hpending : takeLines pending = ([], pending)) (hshort : pending.length ≤ maxOllamaLineBytes)
    (htake : takeLines (pending ++ chunks.flatten) = (lines, rest))
    (h : Settled floatRepr backend maxTokens rest yielded lines) :
    SameAnswer (readChunks floatRepr backend maxTokens yielded pending chunks)
      (wholeAnswer floatRepr backend maxTokens rest yielded lines) := by
  induction chunks generalizing pending yielded lines with
  | nil =>
      rw [List.flatten_nil, List.append_nil, hpending] at htake
      cases htake
      unfold wholeAnswer
      rw [readLines, readChunks]
      dsimp only
      rw [if_neg (not_lt.mpr hshort)]
      exact ⟨rfl, rfl⟩
  | cons chunk chunks ih =>
      rw [List.flatten_cons, ← List.append_assoc, takeLines_append] at htake
      rw [readChunks]
      have hrest := takeLines_rest (pending ++ chunk)
      cases htaken : takeLines (pending ++ chunk) with
      | mk front held =>
          rw [htaken] at htake hrest
          cases hlast : takeLines (held ++ chunks.flatten) with
          | mk back last =>
              rw [hlast] at htake
              obtain ⟨rfl, rfl⟩ := Prod.mk.inj htake
              dsimp only
              cases hread : readLines floatRepr backend maxTokens yielded front with
              | mk tokens progress =>
                  cases progress with
                  | stopped raised =>
                      unfold wholeAnswer
                      rw [readLines_append_stopped hread]
                      exact ⟨rfl, rfl⟩
                  | on next =>
                      rw [wholeAnswer_append_on hread]
                      have hsettled := settled_iff.mp h
                      dsimp only
                      split_ifs with hlong
                      · -- The line in progress is too long, so that an error is next in one piece too.
                        have hraises : RaisesNext floatRepr backend maxTokens last next back := by
                          cases back with
                          | nil =>
                              left
                              rw [Framing.rest_of_frames_nil hlast, List.nil_append,
                                List.length_append]
                              omega
                          | cons line back =>
                              have hinitial := prefix_of_takeLines hrest hlast
                              exact hsettled front line back tokens next rfl hread
                                (lt_of_lt_of_le hlong hinitial.length_le)
                        obtain ⟨hempty, hsome⟩ := raisesNext_iff.mp hraises
                        exact ⟨by rw [hempty, List.append_nil], hsome.symm⟩
                      · have hback : Settled floatRepr backend maxTokens last next back := by
                          apply settled_iff.mpr
                          intro before long after more later hsplit hreach
                          apply hsettled (front ++ before) long after (tokens ++ more) later
                          · rw [hsplit, List.append_assoc]
                          · rw [readLines_append_on hread, hreach]
                        obtain ⟨htokens, hend⟩ := ih hrest (not_lt.mp hlong) hlast hback
                        exact ⟨congrArg (tokens ++ ·) htokens, hend⟩

theorem readChunks_one (bytes : Bytes) :
    readChunks floatRepr backend maxTokens yielded [] [bytes] =
      wholeAnswer floatRepr backend maxTokens (takeLines bytes).2 yielded (takeLines bytes).1 := by
  rw [readChunks, List.nil_append, wholeAnswer]
  rfl

/-- A cut at the end of an overlong line makes an error of it. -/
theorem readChunks_cut {bytes : Bytes} {before after : List Bytes} {next : ℕ}
    (htake : takeLines bytes = (before ++ line :: after, rest))
    (hreach : readLines floatRepr backend maxTokens yielded before = (tokens, .on next))
    (hlong : maxOllamaLineBytes < line.length) :
    ∃ chunks : List Bytes, chunks.flatten = bytes ∧
      readChunks floatRepr backend maxTokens yielded [] chunks =
        (tokens, some (.lineTooLong backend)) := by
  obtain ⟨front, c, back, u, rfl, hfront, hends⟩ := Framing.frames_split htake
  have hu : u = line := by
    unfold endsLine at hends
    split_ifs at hends
    rw [← Option.some.inj hends, List.dropLast_concat]
  refine ⟨[front, c :: back], by simp only [List.flatten_cons, List.flatten_nil, List.append_nil], ?_⟩
  rw [readChunks, List.nil_append, takeLines, hfront]
  dsimp only
  rw [hreach, hu]
  exact if_pos hlong

/-! ## The bound on the tokens -/

theorem readLines_length :
    (yielded + (readLines floatRepr backend maxTokens yielded lines).1.length : ℕ) ≤
        max maxTokens yielded ∧
      ∀ next, (readLines floatRepr backend maxTokens yielded lines).2 = .on next →
        next = yielded + (readLines floatRepr backend maxTokens yielded lines).1.length := by
  induction lines generalizing yielded with
  | nil =>
      rw [readLines]
      constructor
      · exact le_max_right _ _
      · intro next hnext
        exact (Progress.on.inj hnext).symm
  | cons line lines ih =>
      obtain ⟨e, hline⟩ | ⟨read, done, hline, hstop⟩ | ⟨read, hline, hmore⟩ :=
        readLine_cases floatRepr backend maxTokens yielded line
      · rw [readLines_error hline]
        constructor
        · exact le_max_right _ _
        · intro next hnext
          cases hnext
      · rw [readLines_stopped hline hstop]
        constructor
        · exact readLine_length hline
        · intro next hnext
          cases hnext
      · obtain ⟨hbound, hnext⟩ := @ih (yielded + read.length)
        rw [readLines_on hline hmore]
        dsimp only
        rw [List.length_append, ← Nat.add_assoc]
        constructor
        · omega
        · exact hnext

theorem readLast_length (pending : Bytes) :
    (yielded + (readLast floatRepr backend maxTokens yielded pending).1.length : ℕ) ≤
      max maxTokens yielded := by
  unfold readLast
  split
  · exact le_max_right _ _
  · cases hline : readLine floatRepr backend maxTokens yielded pending with
    | error e => exact le_max_right _ _
    | ok content => exact readLine_length hline

theorem readChunks_length (chunks : List Bytes) (pending : Bytes) :
    (yielded + (readChunks floatRepr backend maxTokens yielded pending chunks).1.length : ℕ) ≤
      max maxTokens yielded := by
  induction chunks generalizing yielded pending with
  | nil => exact readLast_length pending
  | cons chunk chunks ih =>
      rw [readChunks]
      dsimp only
      have hlines := @readLines_length floatRepr backend maxTokens yielded
        (takeLines (pending ++ chunk)).1
      cases hread : readLines floatRepr backend maxTokens yielded
          (takeLines (pending ++ chunk)).1 with
      | mk tokens progress =>
          rw [hread] at hlines
          obtain ⟨hbound, hnext⟩ := hlines
          cases progress with
          | stopped raised => exact hbound
          | on next =>
              have hmore := @ih next (takeLines (pending ++ chunk)).2
              dsimp only at hbound ⊢
              split
              · exact hbound
              · dsimp only
                rw [List.length_append, ← Nat.add_assoc, ← hnext next rfl]
                rw [← hnext next rfl] at hbound
                omega

theorem backendStream_eq (maxTokens : ℤ) (chunks : List Bytes) :
    backendStream floatRepr backend maxTokens chunks =
      readChunks floatRepr backend maxTokens 0 [] chunks := by
  cases backend <;> rfl

theorem settled_of_chunkIndependent {bytes : Bytes}
    (h : ChunkIndependent (backendStream floatRepr backend maxTokens) bytes) :
    Settled floatRepr backend maxTokens (takeLines bytes).2 0 (takeLines bytes).1 := by
  apply settled_iff.mpr
  intro before line after tokens next hsplit hreach hlong
  obtain ⟨chunks, hchunks, hcut⟩ := readChunks_cut (Prod.ext hsplit rfl) hreach hlong
  have hsame := h [bytes] chunks List.flatten_singleton hchunks
  rw [backendStream_eq, backendStream_eq, readChunks_one, hsplit, wholeAnswer_append_on hreach,
    hcut] at hsame
  exact raisesNext_iff.mpr ⟨List.append_right_eq_self.mp hsame.1, hsame.2⟩

theorem chunkIndependent_of_settled {bytes : Bytes}
    (h : Settled floatRepr backend maxTokens (takeLines bytes).2 0 (takeLines bytes).1) :
    ChunkIndependent (backendStream floatRepr backend maxTokens) bytes := by
  have hwhole : ∀ chunks : List Bytes, chunks.flatten = bytes →
      SameAnswer (backendStream floatRepr backend maxTokens chunks)
        (wholeAnswer floatRepr backend maxTokens (takeLines bytes).2 0 (takeLines bytes).1) := by
    intro chunks hchunks
    rw [backendStream_eq]
    apply readChunks_sameAnswer chunks rfl (Nat.zero_le _)
    · rw [hchunks]
      rfl
    · exact h
  intro first second hfirst hsecond
  obtain ⟨htokens, hend⟩ := hwhole first hfirst
  obtain ⟨htokens', hend'⟩ := hwhole second hsecond
  exact ⟨htokens.trans htokens'.symm, hend.trans hend'.symm⟩

/-- No overlong line is passed over where those that are passed over are short. -/
theorem settled_of_short (h : ∀ line ∈ lines, backend.PassesOver line →
    line.length ≤ maxOllamaLineBytes) : Settled floatRepr backend maxTokens rest yielded lines := by
  induction lines generalizing yielded with
  | nil => trivial
  | cons line lines ih =>
      rw [List.forall_mem_cons] at h
      intro tokens done _
      exact ⟨fun hpass hlong => absurd hlong (not_lt.mpr (h.1 hpass)), fun _ _ => ih h.2⟩

/-! ## An overlong blank line -/

theorem takeLines_line (h : 0x0A ∉ line) : takeLines (line ++ [0x0A]) = ([line], []) := by
  have hline : Framing.frames endsLine [] line = ([], line) := by
    apply Framing.frames_of_none
    intro n _ _
    apply if_neg
    intro hlast
    exact h (List.mem_of_mem_take (List.mem_of_getLast? hlast))
  have hends : endsLine (line ++ [0x0A]) = some line := by
    unfold endsLine
    rw [if_pos List.getLast?_concat, List.dropLast_concat]
  rw [takeLines, Framing.frames_append, hline, Framing.frames_cons_of_some hends]
  rfl

theorem not_settled_of_passesOver (hpass : backend.PassesOver line)
    (hlong : maxOllamaLineBytes < line.length) :
    ¬ Settled floatRepr backend maxTokens [] 0 [line] := by
  intro h
  rcases ((h [] false (readLine_passesOver hpass)).1 hpass hlong).2 with hover | ⟨hblank, _⟩
  · exact absurd hover (Nat.not_lt_zero _)
  · exact hblank rfl

end

/-- A line of blanks. -/
def blankLine (n : ℕ) : Bytes := List.replicate n 0x20 ++ [0x0A]

theorem blankLine_cut (floatRepr : Points → String) (backend : Backend) {n : ℕ}
    (hn : maxOllamaLineBytes < n) :
    ¬ ChunkIndependent (backendStream floatRepr backend 1) (blankLine n) := by
  intro h
  have hsettled := settled_of_chunkIndependent h
  have hblank : (List.replicate n (0x20 : UInt8)).dropWhile Bytes.isSpace = [] := by
    apply List.dropWhile_eq_nil_iff.mpr
    intro b hb
    rw [List.eq_of_mem_replicate hb]
    rfl
  have hempty : (Bytes.strip (List.replicate n 0x20)).isEmpty := by
    unfold Bytes.strip trimBoth
    rw [hblank]
    rfl
  have hpass : backend.PassesOver (List.replicate n 0x20) := by
    cases backend with
    | ollama => exact hempty
    | openai => exact .inl hempty
  have hfeed : (0x0A : UInt8) ∉ List.replicate n (0x20 : UInt8) := by
    intro hmem
    exact absurd (List.eq_of_mem_replicate hmem) (by decide)
  rw [blankLine, takeLines_line hfeed] at hsettled
  exact not_settled_of_passesOver hpass (by rwa [List.length_replicate]) hsettled

end BlackMonolith.TraceAudit
