import Roster.Proofs.Report.Printable
import Roster.Proofs.Text.Split

/-!
# Reading a Report

A report in which the members of both sides are numbered says which worker each job has and
who is left over, whatever the costs are: it can be read back.

No line holds a line end, so the lines come back by splitting the text. Each kind of line
begins with a letter of its own. In the line of a job the entry stands behind the arrow, and
its digits end at a blank; in the last line the workers stand between commas. The costs stand
behind what is read, and the total has a line for itself, so neither is looked at.

## Main definitions

* `Summary.listed`: A matching and the workers left over as data.
* `Report.decode`: The matching and the workers left over that a text spells.
* `Report.SpellsEntry`: The line of a job by its entry.
* `Report.Lists`: The lines of a report.

## Theorems

* `Report.readWhole_integer`: An integer is read back from its text.
* `Report.lineEntry_of_spells`, `Report.idleEntries_idleText`: Lines are read back.
* `Report.lines_listed_eq_ok_iff`: When there are lines, and which.
* `Report.Lists.splitOn_eq`, `Report.Lists.decode_eq`: Lines are found in the text and read back.
* `Report.exists_render_iff`: When there is a report.
* `Report.render_determines`: A report says of what it is.
-/

namespace Roster

/-- A matching and the workers left over, with a total, as data. -/
def Summary.listed (total : Datum) (M : Matching) (idle : List Int) : Summary where
  total := total
  workerOf := .list (M.map fun w => .number (.whole w))
  idle := .list (idle.map fun w => .number (.whole w))

namespace Report

/-! ### Numbers in a text -/

/-- The integer that some characters begin with. -/
def readWhole : List Char → Int
  | '-' :: cs => -(Nat.ofDigitChars 10 (cs.takeWhile Char.isDigit) 0 : Nat)
  | cs => (Nat.ofDigitChars 10 (cs.takeWhile Char.isDigit) 0 : Nat)

theorem toList_digits (n : Nat) : (Decimal.digits n).toList = Nat.toDigits 10 n :=
  String.toList_ofList

theorem isDigit_of_mem_digits {n : Nat} {c : Char} (h : c ∈ (Decimal.digits n).toList) :
    c.isDigit = true := by
  rw [toList_digits] at h
  exact Nat.isDigit_of_mem_toDigits (by decide) (by decide) h

variable {rest : List Char}

/-- Digits are read up to the first other character. -/
theorem takeWhile_digits (n : Nat) (hrest : rest.takeWhile Char.isDigit = []) :
    ((Decimal.digits n).toList ++ rest).takeWhile Char.isDigit = Nat.toDigits 10 n := by
  rw [List.takeWhile_append_of_pos fun c hc => isDigit_of_mem_digits hc, hrest, List.append_nil,
    toList_digits]

/-- Digits come first in a natural number, and no sign. -/
theorem head?_digits_ne (n : Nat) (rest : List Char) :
    ((Decimal.digits n).toList ++ rest).head? ≠ some '-' := by
  cases hdigits : (Decimal.digits n).toList with
  | nil =>
      rw [toList_digits] at hdigits
      exact absurd hdigits Nat.toDigits_ne_nil
  | cons c cs =>
      -- The first character is a digit, and the sign is none.
      have hc : c.isDigit = true := isDigit_of_mem_digits (n := n) (by simp [hdigits])
      intro hsign
      rcases Option.some.inj hsign with rfl
      exact absurd hc (by decide)

theorem readWhole_unsigned {cs : List Char} (h : cs.head? ≠ some '-') :
    readWhole cs = (Nat.ofDigitChars 10 (cs.takeWhile Char.isDigit) 0 : Nat) := by
  unfold readWhole
  split
  · exact absurd rfl h
  · rfl

theorem readWhole_integer (i : Int) (hrest : rest.takeWhile Char.isDigit = []) :
    readWhole ((Decimal.integer i).toList ++ rest) = i := by
  have hread : (Nat.ofDigitChars 10
      (((Decimal.digits i.natAbs).toList ++ rest).takeWhile Char.isDigit) 0) = i.natAbs := by
    rw [takeWhile_digits _ hrest]
    exact Nat.ofDigitChars_ten_toDigits
  unfold Decimal.integer
  split
  -- A sign is taken off first. Without one the digits are read at once.
  · rw [String.toList_append, List.append_assoc, show "-".toList = ['-'] from rfl,
      List.singleton_append, readWhole, hread]
    omega
  · rw [readWhole_unsigned (head?_digits_ne _ _), hread]
    omega

/-! ### Line ends -/

theorem mem_integer {i : Int} {c : Char} (h : c ∈ (Decimal.integer i).toList) :
    c.isDigit = true ∨ c = '-' := by
  unfold Decimal.integer at h
  split at h
  · rw [String.toList_append, List.mem_append] at h
    rcases h with h | h
    · exact Or.inr (by simpa using h)
    · exact Or.inl (isDigit_of_mem_digits h)
  · exact Or.inl (isDigit_of_mem_digits h)

theorem mem_withPoint {places : Nat} {text : String} {c : Char}
    (h : c ∈ (Decimal.withPoint places text).toList) : c ∈ text.toList ∨ c = '0' ∨ c = '.' := by
  -- The text is padded with zeros first and then parted by the point, so both sides of it are
  -- parts of the padded text.
  have hpadded : ∀ width, c ∈ (Decimal.padZeros width text).toList → c = '0' ∨ c ∈ text.toList := by
    intro width hc
    rw [Decimal.padZeros, Decimal.zeros, String.toList_append, String.toList_ofList,
      List.mem_append] at hc
    exact hc.imp_left List.eq_of_mem_replicate
  unfold Decimal.withPoint at h
  split at h
  · exact Or.inl h
  · rw [String.toList_ofList, List.mem_append, List.mem_cons] at h
    rcases h with h | rfl | h
    · exact (hpadded _ (List.mem_of_mem_take h)).elim (fun h => Or.inr (Or.inl h)) Or.inl
    · exact Or.inr (Or.inr rfl)
    · exact (hpadded _ (List.mem_of_mem_drop h)).elim (fun h => Or.inr (Or.inl h)) Or.inl

/-- A double has a text without a line end, also if it is no number. -/
theorem lineEnd_not_mem_fixed (places : Nat) (x : Float) :
    '\n' ∉ (Decimal.fixed places x).toList := by
  unfold Decimal.fixed Decimal.signed
  split
  · decide
  · split <;> decide
  -- What is neither infinite nor no number is a sign, digits and a point.
  · rw [String.toList_append, List.mem_append]
    rintro (h | h)
    · split at h
      · exact absurd h (by decide)
      · exact absurd h (by decide)
    · rcases mem_withPoint h with h | h | h
      · exact absurd (isDigit_of_mem_digits h) (by decide)
      · exact absurd h (by decide)
      · exact absurd h (by decide)

theorem lineEnd_not_mem_integer (i : Int) : '\n' ∉ (Decimal.integer i).toList := by
  intro h
  rcases mem_integer h with h | h
  · exact absurd h (by decide)
  · exact absurd h (by decide)

/-! ### Lines -/

/-- The label of a member of a numbered side. -/
def numbered (noun : String) (i : Int) : String := noun ++ " " ++ Decimal.integer i

/-- What the line of a job begins with. -/
def jobText (j : Nat) : String := numbered "Job" j ++ " -> "

/-- The line of a job with an entry of a matching. -/
def SpellsEntry (j : Nat) (w : Int) (line : String) : Prop :=
  w < 0 ∧ line = jobText j ++ "unassigned" ∨
  0 ≤ w ∧ ∃ cost : Float,
    line = jobText j ++ numbered "Worker" w ++ " (Cost = " ++ Decimal.fixed 2 cost ++ ")"

/-- The line of the workers left over. -/
def idleText (idle : List Int) : String :=
  "Unmatched workers: " ++ ", ".intercalate (idle.map (numbered "Worker"))

/-- The entry of a matching in the line of a job: the number of a worker behind the arrow, or a
    word. -/
def lineEntry (line : List Char) : Int :=
  let behind := (line.dropWhile (· != '>')).drop 2
  if behind.head? == some 'u' then -1 else readWhole (behind.drop 7)

/-- The workers in the line of those left over, between commas. -/
def idleEntries (line : List Char) : List Int :=
  ((line.drop 19).splitOn ',').map fun part =>
    readWhole (part.dropWhile fun c => !(c.isDigit || c == '-'))

/-- What a report says about the matching and the workers left over. The first letter of a line
    tells of what kind it is. -/
def decode (text : String) : Matching × List Int :=
  let rows := text.toList.splitOn '\n'
  ((rows.filter fun row => row.head? == some 'J').map lineEntry,
    (rows.filter fun row => row.head? == some 'U').flatMap idleEntries)

theorem dropWhile_jobText (j : Nat) (cs : List Char) :
    (((jobText j).toList ++ cs).dropWhile (· != '>')).drop 2 = cs := by
  have hword : "Job ".toList.all (· != '>') = true := by decide
  have hdash : " -".toList.all (· != '>') = true := by decide
  -- The dash of the arrow stands in front of its head, and so may the sign of a number.
  have hfront : ∀ c ∈ "Job ".toList ++ (Decimal.integer j).toList ++ " -".toList,
      (c != '>') = true := by
    intro c hc
    rw [List.mem_append, List.mem_append] at hc
    rcases hc with (hc | hc) | hc
    · exact List.all_eq_true.mp hword c hc
    · rcases mem_integer hc with hc | rfl
      · exact bne_iff_ne.mpr fun h => absurd (h ▸ hc) (by decide)
      · decide
    · exact List.all_eq_true.mp hdash c hc
  have hparts : (jobText j).toList ++ cs =
      ("Job ".toList ++ (Decimal.integer j).toList ++ " -".toList) ++ ('>' :: ' ' :: cs) := by
    simp [jobText, numbered]
  rw [hparts, List.dropWhile_append_of_pos hfront]
  rfl

theorem lineEntry_of_spells {j : Nat} {w : Int} {line : String} (h : SpellsEntry j w line)
    (hw : -1 ≤ w) : lineEntry line.toList = w := by
  rcases h with ⟨hneg, rfl⟩ | ⟨hpos, cost, rfl⟩
  -- A word behind the arrow is read as minus one, the only entry below zero here.
  · rw [lineEntry, String.toList_append, dropWhile_jobText]
    exact (by omega : -1 = w)
  -- The blank in front of the cost ends the digits, so the cost is not looked at.
  · have hparts : (jobText j ++ numbered "Worker" w ++ " (Cost = " ++ Decimal.fixed 2 cost ++
        ")").toList = (jobText j).toList ++ ("Worker ".toList ++ ((Decimal.integer w).toList ++
          (" (Cost = " ++ Decimal.fixed 2 cost ++ ")").toList)) := by
      simp [numbered]
    rw [lineEntry, hparts, dropWhile_jobText]
    exact readWhole_integer w (by simp)

/-- Between marks of two characters, the second belongs to the part behind it. -/
theorem intercalate_pair {α : Type} (a b : α) (part : List α) (parts : List (List α)) :
    [a, b].intercalate (part :: parts) = [a].intercalate (part :: parts.map (b :: ·)) := by
  induction parts generalizing part with
  | nil => rfl
  | cons next parts ih =>
      -- What is in front of the first part is in front of the whole, with parts behind it or not.
      have hfront : ∀ (p : List α) (ps : List (List α)),
          [a].intercalate ((b :: p) :: ps) = b :: [a].intercalate (p :: ps) := by
        intro p ps
        cases ps with
        | nil => simp
        | cons q ps => simp [List.intercalate_cons_cons]
      rw [List.map_cons, List.intercalate_cons_cons, List.intercalate_cons_cons, ih, hfront]
      simp

/-- The number in a part of the last line stands behind what is no number. -/
theorem readWhole_part {front : List Char}
    (hfront : front.all (fun c => !(c.isDigit || c == '-')) = true) (i : Int) :
    readWhole ((front ++ (Decimal.integer i).toList).dropWhile
      fun c => !(c.isDigit || c == '-')) = i := by
  have hread : readWhole ((Decimal.integer i).toList ++ []) = i := readWhole_integer i rfl
  rw [List.append_nil] at hread
  rw [List.dropWhile_append_of_pos (List.all_eq_true.mp hfront)]
  -- A number begins with a sign or a digit, so no more is dropped.
  cases hcs : (Decimal.integer i).toList with
  | nil =>
      rw [hcs] at hread
      exact hread
  | cons c cs =>
      have hkept : (!(c.isDigit || c == '-')) = false := by
        rcases mem_integer (hcs ▸ List.mem_cons_self : c ∈ (Decimal.integer i).toList) with hc | hc
        · simp [hc]
        · simp [hc]
      rw [List.dropWhile_cons, hkept, if_neg Bool.false_ne_true, ← hcs, hread]

theorem toList_numbered (noun : String) (i : Int) :
    (numbered noun i).toList = (noun ++ " ").toList ++ (Decimal.integer i).toList :=
  String.toList_append

theorem comma_not_mem_numbered (i : Int) : ',' ∉ (numbered "Worker" i).toList := by
  intro h
  rw [toList_numbered, List.mem_append] at h
  rcases h with h | h
  · simp at h
  · rcases mem_integer h with h | h
    · exact absurd h (by decide)
    · exact absurd h (by decide)

/-- The blank behind a comma belongs to the next worker. -/
theorem toList_idleText (first : Int) (later : List Int) :
    (idleText (first :: later)).toList = "Unmatched workers: ".toList ++
      [','].intercalate ((numbered "Worker" first).toList ::
        later.map fun i => ' ' :: (numbered "Worker" i).toList) := by
  have hmark : ", ".toList = [',', ' '] := rfl
  unfold idleText
  rw [String.toList_append, String.toList_intercalate, hmark, List.map_map, List.map_cons,
    intercalate_pair, List.map_map]
  rfl

theorem idleEntries_idleText {idle : List Int} (hidle : idle ≠ []) :
    idleEntries (idleText idle).toList = idle := by
  obtain ⟨first, later, rfl⟩ := List.exists_cons_of_ne_nil hidle
  have hline := congrArg (List.drop 19) (toList_idleText first later)
  rw [List.drop_left' (show "Unmatched workers: ".toList.length = 19 from rfl)] at hline
  have hparts : ∀ part ∈ (numbered "Worker" first).toList ::
      later.map fun i => ' ' :: (numbered "Worker" i).toList, ',' ∉ part := by
    rw [List.forall_mem_cons, List.forall_mem_map]
    refine ⟨comma_not_mem_numbered first, fun i _ h => ?_⟩
    exact (List.mem_cons.mp h).elim (by decide) (comma_not_mem_numbered i)
  -- No part has a comma of its own, so the parts come back. All but the first begin with a blank.
  have hsplit := List.splitOn_intercalate ',' hparts (List.cons_ne_nil _ _)
  rw [idleEntries, hline, hsplit, List.map_cons, List.map_map]
  congr 1
  · rw [toList_numbered]
    exact readWhole_part (by decide) first
  · refine List.map_id'' (fun i => ?_) later
    rw [Function.comp_apply, toList_numbered]
    have hfront : (' ' :: ("Worker" ++ " ").toList).all (fun c => !(c.isDigit || c == '-')) =
        true := by
      decide
    exact readWhole_part hfront i

/-! ### The lines of a report -/

variable {costs : Tensor} {M : Matching} {idle : List Int}

/-- An integer that is not too long to be written. -/
def IsWritable (i : Int) : Prop := (Number.whole i).isWritable = true

instance (i : Int) : Decidable (IsWritable i) :=
  inferInstanceAs (Decidable ((Number.whole i).isWritable = true))

theorem label_numbered (noun : String) (i : Int) : label none noun (.number (.whole i)) =
    if IsWritable i then .ok (.text (numbered noun i))
    else .error (.overlongInteger none) := rfl

/-- The line of a job step by step. -/
theorem jobLine_numbered (costs : Tensor) (j : Nat) (w : Int) :
    jobLine costs none none j (.number (.whole w)) =
      if IsWritable j then
        if w < 0 then .ok (jobText j ++ "unassigned")
        else if IsWritable w then
          (costText costs (.number (.whole w)) j).map fun cost =>
            jobText j ++ numbered "Worker" w ++ " (Cost = " ++ cost ++ ")"
        else .error (.overlongInteger none)
      else .error (.overlongInteger none) := by
  unfold jobLine
  rw [label_numbered, label_numbered, isWorker_whole]
  by_cases hj : IsWritable j
  · rw [if_pos hj, if_pos hj]
    by_cases hw : w < 0
    -- Without a worker neither a label nor a cost is looked up.
    · have hopen : jobText j ++ "unassigned" = numbered "Job" j ++ " -> unassigned" := by
        rw [jobText, String.append_assoc]
        rfl
      rw [if_pos hw, decide_eq_false (not_le.mpr hw), hopen]
      rfl
    · rw [if_neg hw, decide_eq_true (not_lt.mp hw)]
      by_cases hwritable : IsWritable w
      · rw [if_pos hwritable, if_pos hwritable]
        cases costText costs (.number (.whole w)) j <;> rfl
      · rw [if_neg hwritable, if_neg hwritable]
        rfl
  · rw [if_neg hj, if_neg hj]
    rfl

theorem exists_of_costText {row : Datum} {j : Nat} {text : String}
    (h : costText costs row j = .ok text) : ∃ cost : Float, text = Decimal.fixed 2 cost := by
  unfold costText at h
  split at h
  · split at h
    · exact absurd h nofun
    · split at h
      · exact absurd h nofun
      · split at h
        · rename_i cost _
          exact ⟨cost, (Except.ok.inj h).symm⟩
        · exact absurd h nofun
  · exact absurd h nofun
  · exact absurd h nofun

theorem spells_of_jobLine {j : Nat} {w : Int} {line : String}
    (h : jobLine costs none none j (.number (.whole w)) = .ok line) : SpellsEntry j w line := by
  rw [jobLine_numbered] at h
  split at h
  · split at h
    · rename_i hneg
      exact Or.inl ⟨hneg, (Except.ok.inj h).symm⟩
    · rename_i hpos
      split at h
      · rcases map_eq_ok_iff.mp h with ⟨text, htext, hline⟩
        rcases exists_of_costText htext with ⟨cost, rfl⟩
        exact Or.inr ⟨not_lt.mp hpos, cost, hline.symm⟩
      · exact absurd h nofun
  · exact absurd h nofun

/-- One line for each job, in job order. -/
theorem spells_of_jobLines {j : Nat} {rows : List String}
    (h : jobLines costs none none j (M.map fun w => .number (.whole w)) = .ok rows) :
    List.Forall₂ (fun x row => SpellsEntry x.2 x.1 row) (M.zipIdx j) rows := by
  induction M generalizing j rows with
  | nil =>
      rcases Except.ok.inj h with rfl
      exact .nil
  -- The lines of the later jobs are numbered from the next job on, which is why `j` varies.
  | cons w later ih =>
      rw [List.map_cons, jobLines, bind_eq_ok_iff] at h
      rcases h with ⟨line, hline, h⟩
      rw [bind_eq_ok_iff] at h
      rcases h with ⟨others, hothers, h⟩
      rcases Except.ok.inj h with rfl
      exact .cons (spells_of_jobLine hline) (ih hothers)

/-- The integers in the line of a job with its entry can be written. -/
def IsWritten (x : Int × Nat) : Prop :=
  IsWritable x.2 ∧ (0 ≤ x.1 → IsWritable x.1)

instance (x : Int × Nat) : Decidable (IsWritten x) :=
  inferInstanceAs (Decidable (IsWritable x.2 ∧ (0 ≤ x.1 → IsWritable x.1)))

theorem exists_jobLine_iff {x : Int × Nat}
    (hcell : 0 ≤ x.1 → ∃ text, costText costs (.number (.whole x.1)) x.2 = .ok text) :
    (∃ line, jobLine costs none none x.2 (.number (.whole x.1)) = .ok line) ↔ IsWritten x := by
  rw [jobLine_numbered, IsWritten]
  by_cases hj : IsWritable x.2
  · rw [if_pos hj, and_iff_right hj]
    by_cases hw : x.1 < 0
    · rw [if_pos hw]
      exact iff_of_true ⟨_, rfl⟩ fun hpos => absurd hw (not_lt.mpr hpos)
    -- The cost is there, so the line only takes a worker whose number can be written.
    · rcases hcell (not_lt.mp hw) with ⟨text, htext⟩
      rw [if_neg hw, htext, forall_prop_of_true (not_lt.mp hw)]
      split
      · rename_i hwritable
        exact iff_of_true ⟨_, rfl⟩ hwritable
      · rename_i hwritable
        exact iff_of_false nofun hwritable
  · rw [if_neg hj]
    exact iff_of_false nofun fun h => hj h.1

theorem exists_jobLines_iff {j : Nat} (hcells : ∀ x ∈ M.zipIdx j, 0 ≤ x.1 →
      ∃ text, costText costs (.number (.whole x.1)) x.2 = .ok text) :
    (∃ rows, jobLines costs none none j (M.map fun w => .number (.whole w)) = .ok rows) ↔
      ∀ x ∈ M.zipIdx j, IsWritten x := by
  induction M generalizing j with
  | nil => exact iff_of_true ⟨[], rfl⟩ nofun
  | cons w later ih =>
      rw [List.zipIdx_cons, List.forall_mem_cons] at hcells ⊢
      -- A line for this job and lines for the later ones are asked for one by one.
      rw [← exists_jobLine_iff hcells.1, ← ih hcells.2, List.map_cons, jobLines]
      constructor
      · rintro ⟨rows, h⟩
        rw [bind_eq_ok_iff] at h
        rcases h with ⟨line, hline, h⟩
        rw [bind_eq_ok_iff] at h
        rcases h with ⟨others, hothers, _⟩
        exact ⟨⟨line, hline⟩, others, hothers⟩
      · rintro ⟨⟨line, hline⟩, others, hothers⟩
        exact ⟨line :: others, by simp only [hline, hothers, bind, Except.bind, pure, Except.pure]⟩

theorem label_answersIf (noun : String) (i : Int) :
    AnswersIf (IsWritable i) (.overlongInteger none)
      (label none noun (.number (.whole i))) := by
  rw [label_numbered]
  split
  · rename_i h
    exact Or.inl ⟨h, _, rfl⟩
  · rename_i h
    exact Or.inr ⟨h, rfl⟩

theorem idleLabels_answersIf (idle : List Int) :
    AnswersIf (∀ w ∈ idle, IsWritable w) (.overlongInteger none)
      ((idle.map fun w => Datum.number (.whole w)).mapM (label none "Worker")) := by
  rw [List.mapM_map]
  refine AnswersIf.mapM fun w _ => ?_
  rw [Function.comp_apply]
  exact label_answersIf "Worker" w

theorem idleLabels_eq (h : ∀ w ∈ idle, IsWritable w) :
    (idle.map fun w => Datum.number (.whole w)).mapM (label none "Worker") =
      .ok (idle.map fun w => .text (numbered "Worker" w)) := by
  rw [List.mapM_map]
  refine mapM_eq_map fun w hw => ?_
  rw [Function.comp_apply, label_numbered, if_pos (h w hw)]

theorem idleLine_eq_ok_iff {line : String} :
    idleLine none (idle.map fun w => .number (.whole w)) = .ok line ↔
      (∀ w ∈ idle, IsWritable w) ∧ line = idleText idle := by
  -- Numbered labels are texts, so they can be joined as soon as there are all of them.
  rcases idleLabels_answersIf idle with ⟨hall, _⟩ | ⟨hnone, hfault⟩
  · have htexts : (idle.map fun w => Datum.text (numbered "Worker" w)).mapM asText =
        .ok (idle.map (numbered "Worker")) := by
      rw [List.mapM_map]
      exact mapM_eq_map fun w _ => rfl
    have hline : idleLine none (idle.map fun w => .number (.whole w)) = .ok (idleText idle) := by
      unfold idleLine
      rw [idleLabels_eq hall]
      simp only [bind, Except.bind, htexts]
      rfl
    rw [hline, and_iff_right hall, Except.ok.injEq, eq_comm]
  · have hline : idleLine none (idle.map fun w => .number (.whole w)) =
        .error (.overlongInteger none) := by
      unfold idleLine
      rw [hfault]
      rfl
    rw [hline]
    exact iff_of_false nofun fun h => hnone h.1

/-! ### Reports -/

/-- The last line of a report, if anybody is left over. -/
def lastLines (idle : List Int) : List String := if idle = [] then [] else [idleText idle]

theorem lines_listed_eq_ok_iff {total : Datum} {rows : List String} :
    lines (.listed total M idle) costs none none true = .ok rows ↔
      ∃ totalRow jobs, totalText total = .ok totalRow ∧
        jobLines costs none none 0 (M.map fun w => .number (.whole w)) = .ok jobs ∧
        (∀ w ∈ idle, IsWritable w) ∧
        rows = ("Minimum total cost = " ++ totalRow) :: jobs ++ lastLines idle := by
  have htotal : (Summary.listed total M idle).total = total := rfl
  have hentries : (Summary.listed total M idle).entries =
      .ok (M.map fun w => .number (.whole w)) := rfl
  have hitems : (Summary.listed total M idle).idleItems =
      .ok (idle.map fun w => .number (.whole w)) := rfl
  -- There is a last line if the list of workers counts as true, as all but the empty one do.
  have htruthy : (true && (Summary.listed total M idle).idle.truthy) = !decide (idle = []) := by
    cases idle <;> rfl
  unfold lines
  rw [htotal, hentries, hitems, htruthy, bind_eq_ok_iff]
  refine exists_congr fun totalRow => ?_
  rw [exists_and_left]
  refine and_congr_right fun _ => ?_
  simp only [bind, Except.bind]
  -- The lines of the jobs come before the last one, and a fault in them is told first.
  cases jobLines costs none none 0 (M.map fun w => .number (.whole w)) with
  | error fault => exact iff_of_false nofun fun ⟨_, h, _⟩ => absurd h nofun
  | ok jobs =>
      by_cases hidle : idle = []
      · simp [hidle, lastLines, pure, Except.pure, eq_comm]
      · simp only [hidle, decide_false, Bool.not_false, if_true]
        cases hline : idleLine none (idle.map fun w => .number (.whole w)) with
        | error fault =>
            refine iff_of_false nofun fun ⟨_, _, hall, _⟩ => ?_
            have hidleLine := idleLine_eq_ok_iff.mpr ⟨hall, rfl⟩
            rw [hline] at hidleLine
            exact absurd hidleLine nofun
        | ok line =>
            rcases idleLine_eq_ok_iff.mp hline with ⟨hall, rfl⟩
            rw [lastLines, if_neg hidle]
            constructor
            · intro h
              exact ⟨jobs, rfl, hall, (Except.ok.inj h).symm⟩
            · rintro ⟨_, hjobs, _, rfl⟩
              rcases Except.ok.inj hjobs with rfl
              rfl

/-- When there is a report, and which. -/
theorem render_listed_eq_ok_iff {total : Datum} {input : CostInput} {text : String} :
    render (.listed total M idle) input .null .null true = .ok text ↔
      ∃ costs, costArray input = .ok costs ∧ ∃ rows,
        lines (.listed total M idle) costs none none true = .ok rows ∧
          "\n".intercalate rows = text := by
  unfold render
  rw [bind_eq_ok_iff]
  refine exists_congr fun costs => and_congr_right fun _ => ?_
  exact map_eq_ok_iff (a := lines (.listed total M idle) costs none none true)

theorem lineEnd_not_mem_total {total : Datum} {text : String} (h : totalText total = .ok text) :
    '\n' ∉ text.toList := by
  unfold totalText at h
  split at h
  · split at h
    · rcases Except.ok.inj h with rfl
      exact lineEnd_not_mem_fixed 3 _
    · exact absurd h nofun
  · exact absurd h nofun
  · exact absurd h nofun
  · exact absurd h nofun

/-! ### Reading a report back -/

/-- The lines of a report: one for the total, one for each job in job order, and one for the
    workers left over if there are any. -/
structure Lists (M : Matching) (idle : List Int) (rows : List String) : Prop where
  parts : ∃ total jobs, rows = ("Minimum total cost = " ++ total) :: jobs ++ lastLines idle ∧
    '\n' ∉ total.toList ∧ List.Forall₂ (fun x row => SpellsEntry x.2 x.1 row) M.zipIdx jobs

/-- The row of a job spells an entry of the matching. -/
theorem exists_spells {jobs : List String} {row : String}
    (h : List.Forall₂ (fun x row => SpellsEntry x.2 x.1 row) M.zipIdx jobs) (hrow : row ∈ jobs) :
    ∃ j w, SpellsEntry j w row := by
  rcases List.mem_iff_getElem.mp hrow with ⟨k, hk, rfl⟩
  exact ⟨_, _, h.get (h.length_eq ▸ hk) hk⟩

theorem eq_of_mem_lastLines {row : String} (h : row ∈ lastLines idle) : row = idleText idle := by
  unfold lastLines at h
  split at h
  · exact absurd h List.not_mem_nil
  · exact List.mem_singleton.mp h

theorem head?_spells {j : Nat} {w : Int} {row : String} (h : SpellsEntry j w row) :
    row.toList.head? = some 'J' := by
  rcases h with ⟨_, rfl⟩ | ⟨_, _, rfl⟩
  · simp [jobText, numbered]
  · simp [jobText, numbered]

theorem head?_idleText (idle : List Int) : (idleText idle).toList.head? = some 'U' := by
  unfold idleText
  simp

theorem lineEnd_not_mem_spells {j : Nat} {w : Int} {row : String} (h : SpellsEntry j w row) :
    '\n' ∉ row.toList := by
  have hj := lineEnd_not_mem_integer j
  rcases h with ⟨_, rfl⟩ | ⟨_, cost, rfl⟩
  · simp [jobText, numbered, hj]
  · simp [jobText, numbered, hj, lineEnd_not_mem_integer w, lineEnd_not_mem_fixed 2 cost]

theorem not_mem_intercalate {c : Char} {mark : List Char} {parts : List (List Char)}
    (hmark : c ∉ mark) (h : ∀ part ∈ parts, c ∉ part) : c ∉ mark.intercalate parts := by
  induction parts with
  | nil => simp
  | cons part parts ih =>
      rw [List.forall_mem_cons] at h
      cases parts with
      | nil => simpa using h.1
      | cons next parts =>
          rw [List.intercalate_cons_cons, List.mem_append, List.mem_append]
          -- A character of the whole is one of the first part, of the mark, or of the parts behind.
          rintro ((hc | hc) | hc)
          · exact h.1 hc
          · exact hmark hc
          · exact ih h.2 hc

theorem lineEnd_not_mem_idleText (idle : List Int) : '\n' ∉ (idleText idle).toList := by
  intro h
  unfold idleText at h
  rw [String.toList_append, String.toList_intercalate, List.mem_append] at h
  rcases h with h | h
  · simp at h
  · refine not_mem_intercalate (by simp) ?_ h
    intro part hpart
    rw [List.mem_map] at hpart
    rcases hpart with ⟨text, htext, rfl⟩
    rcases List.mem_map.mp htext with ⟨w, _, rfl⟩
    simp [numbered, lineEnd_not_mem_integer w]

variable {rows : List String}

theorem Lists.lineEnd_not_mem (h : Lists M idle rows) : ∀ row ∈ rows, '\n' ∉ row.toList := by
  rcases h.parts with ⟨total, jobs, rfl, htotal, hjobs⟩
  intro row hrow
  -- Each kind of line has its own reason to be without a line end.
  rw [List.cons_append, List.mem_cons, List.mem_append] at hrow
  rcases hrow with rfl | hrow | hrow
  · simp [htotal]
  · rcases exists_spells hjobs hrow with ⟨_, _, hspells⟩
    exact lineEnd_not_mem_spells hspells
  · rw [eq_of_mem_lastLines hrow]
    exact lineEnd_not_mem_idleText idle

/-- The lines come back by splitting the text. -/
theorem Lists.splitOn_eq (h : Lists M idle rows) :
    ("\n".intercalate rows).toList.splitOn '\n' = rows.map String.toList := by
  have hne : rows.map String.toList ≠ [] := by
    rcases h.parts with ⟨total, jobs, rfl, _⟩
    exact List.cons_ne_nil _ _
  rw [String.toList_intercalate]
  refine List.splitOn_intercalate '\n' ?_ hne
  rw [List.forall_mem_map]
  exact h.lineEnd_not_mem

theorem map_lineEntry {jobs : List String} (hM : ∀ w ∈ M, -1 ≤ w)
    (h : List.Forall₂ (fun x row => SpellsEntry x.2 x.1 row) M.zipIdx jobs) :
    (jobs.map String.toList).map lineEntry = M := by
  have hlength : M.length = jobs.length := by simpa using h.length_eq
  refine List.ext_getElem (by simp [hlength]) fun k hk hk' => ?_
  -- Entry by entry, since the line of a job knows its number and its worker.
  have hspells := h.get (i := k) (by simpa using hk') (hlength ▸ hk')
  simp only [List.get_eq_getElem, List.getElem_zipIdx] at hspells
  rw [List.getElem_map, List.getElem_map]
  exact lineEntry_of_spells hspells (hM _ (List.getElem_mem hk'))

/-- Lines are told apart by their first letters. -/
theorem filter_lines {header : String} {jobs : List String}
    (hjobs : List.Forall₂ (fun x row => SpellsEntry x.2 x.1 row) M.zipIdx jobs)
    (hheader : header.toList.head? = some 'M') :
    (header :: jobs ++ lastLines idle).filter (fun row => row.toList.head? == some 'J') = jobs ∧
      (header :: jobs ++ lastLines idle).filter (fun row => row.toList.head? == some 'U') =
        lastLines idle := by
  -- The first line begins with an M, so neither filter keeps it.
  have hjob : ∀ row ∈ jobs, row.toList.head? = some 'J' := by
    intro row hrow
    rcases exists_spells hjobs hrow with ⟨_, _, hspells⟩
    exact head?_spells hspells
  have hlast : ∀ row ∈ lastLines idle, row.toList.head? = some 'U' := by
    intro row hrow
    rw [eq_of_mem_lastLines hrow]
    exact head?_idleText idle
  constructor
  · rw [List.cons_append, List.filter_cons, hheader, List.filter_append,
      List.filter_eq_self.mpr fun row hrow => beq_iff_eq.mpr (hjob row hrow),
      List.filter_eq_nil_iff.mpr fun row hrow => by rw [hlast row hrow]; decide]
    simp
  · rw [List.cons_append, List.filter_cons, hheader, List.filter_append,
      List.filter_eq_nil_iff.mpr fun row hrow => by rw [hjob row hrow]; decide,
      List.filter_eq_self.mpr fun row hrow => beq_iff_eq.mpr (hlast row hrow)]
    simp

theorem flatMap_idleEntries (idle : List Int) :
    ((lastLines idle).map String.toList).flatMap idleEntries = idle := by
  unfold lastLines
  split
  · rename_i hnone
    rw [hnone]
    rfl
  · rename_i hsome
    simpa using idleEntries_idleText hsome

theorem Lists.decode_eq (h : Lists M idle rows) (hM : ∀ w ∈ M, -1 ≤ w) :
    decode ("\n".intercalate rows) = (M, idle) := by
  have hsplit := h.splitOn_eq
  -- Split the text first. Then each filter leaves one kind of line, which is read entry by entry.
  rcases h.parts with ⟨total, jobs, rfl, _, hjobs⟩
  have htotal : ("Minimum total cost = " ++ total).toList.head? = some 'M' := by simp
  rcases @filter_lines M idle _ _ hjobs htotal with ⟨hentries, hidle⟩
  unfold decode
  simp only [hsplit, List.filter_map]
  refine Prod.ext ?_ ?_
  · exact (congrArg (fun rows => (rows.map String.toList).map lineEntry) hentries).trans
      (map_lineEntry hM hjobs)
  · exact (congrArg (fun rows => (rows.map String.toList).flatMap idleEntries) hidle).trans
      (flatMap_idleEntries idle)

theorem exists_lists_of_render {total : Datum} {input : CostInput} {text : String}
    (h : render (.listed total M idle) input .null .null true = .ok text) :
    ∃ rows, Lists M idle rows ∧ text = "\n".intercalate rows := by
  rcases render_listed_eq_ok_iff.mp h with ⟨costs, _, rows, hrows, rfl⟩
  rcases lines_listed_eq_ok_iff.mp hrows with ⟨totalRow, jobs, htotal, hjobs, _, hall⟩
  exact ⟨rows, ⟨totalRow, jobs, hall, lineEnd_not_mem_total htotal, spells_of_jobLines hjobs⟩, rfl⟩

theorem decode_of_render {total : Datum} {input : CostInput} {text : String}
    (hM : ∀ w ∈ M, -1 ≤ w) (h : render (.listed total M idle) input .null .null true = .ok text) :
    decode text = (M, idle) := by
  rcases exists_lists_of_render h with ⟨rows, hrows, rfl⟩
  exact hrows.decode_eq hM

/-- With a cell for each worker in the matching, there is a report if its integers can be
    written. -/
theorem exists_render_iff {input : CostInput} {g : Grid Float} (total : Float)
    (hinput : costArray input = .ok g.tensor)
    (hcells : ∀ (j w : Nat), M[j]? = some (w : Int) → w < g.height ∧ j < g.width) :
    (∃ text, render (.listed (.number (.real total)) M idle) input .null .null true = .ok text) ↔
      (∀ x ∈ M.zipIdx, IsWritten x) ∧ ∀ w ∈ idle, IsWritable w := by
  have hcosts : ∀ x ∈ M.zipIdx, 0 ≤ x.1 →
      ∃ text, costText g.tensor (.number (.whole x.1)) x.2 = .ok text := by
    intro x hx hpos
    obtain ⟨w, hw⟩ := Int.eq_ofNat_of_zero_le hpos
    rcases hcells x.2 w (hw ▸ List.mem_zipIdx_iff_getElem?.mp hx) with ⟨hrow, hcolumn⟩
    rw [hw]
    exact exists_costText g hrow hcolumn
  rw [← exists_jobLines_iff hcosts]
  constructor
  -- The table that was rendered is the one at hand.
  · rintro ⟨text, htext⟩
    rcases render_listed_eq_ok_iff.mp htext with ⟨costs, hcosts, rows, hrows, _⟩
    rcases lines_listed_eq_ok_iff.mp hrows with ⟨_, jobs, _, hjobs, hidle, _⟩
    rw [hinput] at hcosts
    rcases Except.ok.inj hcosts with rfl
    exact ⟨⟨jobs, hjobs⟩, hidle⟩
  · rintro ⟨⟨jobs, hjobs⟩, hidle⟩
    exact ⟨_, render_listed_eq_ok_iff.mpr ⟨g.tensor, hinput, _,
      lines_listed_eq_ok_iff.mpr ⟨_, jobs, rfl, hjobs, hidle, rfl⟩, rfl⟩⟩

/-- Whatever the total and the costs are, a report of numbered workers and jobs has one line for
    each job between the first line and the last, and says what matching and what workers left
    over it is of. -/
theorem render_determines (hM : ∀ w ∈ M, -1 ≤ w) (idle : List Int) (input : CostInput) :
    (∀ (total : Datum) (text : String),
      render (.listed total M idle) input .null .null true = .ok text →
        decode text = (M, idle) ∧
        (∃ header jobs, text.splitOn "\n" = header :: jobs ++ lastLines idle ∧
          List.Forall₂ (fun x row => SpellsEntry x.2 x.1 row) M.zipIdx jobs) ∧
        ∀ (total' : Datum) (M' : Matching) (idle' : List Int) (input' : CostInput),
          (∀ w ∈ M', -1 ≤ w) →
          render (.listed total' M' idle') input' .null .null true = .ok text →
            M' = M ∧ idle' = idle) ∧
    ∀ g : Grid Float, costArray input = .ok g.tensor →
      (∀ (j w : Nat), M[j]? = some (w : Int) → w < g.height ∧ j < g.width) →
      ∀ total : Float,
        ((∃ text, render (.listed (.number (.real total)) M idle) input .null .null true =
          .ok text) ↔ (∀ x ∈ M.zipIdx, IsWritten x) ∧ ∀ w ∈ idle, IsWritable w) := by
  refine ⟨fun total text h => ?_, fun g hinput hcells total =>
    exists_render_iff total hinput hcells⟩
  have hdecode := decode_of_render hM h
  refine ⟨hdecode, ?_, fun total' M' idle' input' hM' h' => ?_⟩
  -- Splitting as a text and splitting as characters give the same lines.
  · rcases exists_lists_of_render h with ⟨rows, hrows, rfl⟩
    have hsplit : ("\n".intercalate rows).splitOn "\n" = rows := by
      have hmark : "\n" = String.singleton '\n' := rfl
      conv_lhs => rw [hmark, splitOn_singleton, ← hmark, hrows.splitOn_eq]
      simp
    rcases hrows.parts with ⟨total, jobs, hparts, _, hjobs⟩
    exact ⟨_, jobs, hsplit.trans hparts, hjobs⟩
  -- Two reports with one text decode to one matching.
  · have hsame := hdecode.symm.trans (decode_of_render hM' h')
    exact ⟨(congrArg Prod.fst hsame).symm, (congrArg Prod.snd hsame).symm⟩

/-- Three workers and jobs, of which one is open, with no number for a total. -/
theorem render_determines_openJob :
    (∀ w ∈ ([1, -1, 0] : Matching), -1 ≤ w) ∧
      ∃ text, render (.listed (.number (.real (0.0 / 0.0))) [1, -1, 0] [2])
          (CostMatrix.gridInput (Grid.ofFn 3 3 fun _ _ => 1.0)) .null .null true = .ok text ∧
        decode text = ([1, -1, 0], [2]) := by
  have hM : ∀ w ∈ ([1, -1, 0] : Matching), -1 ≤ w := by decide
  rcases render_determines hM [2] (CostMatrix.gridInput (Grid.ofFn 3 3 fun _ _ => 1.0)) with
    ⟨hreads, hexists⟩
  have hcells : ∀ (j w : Nat), ([1, -1, 0] : Matching)[j]? = some (w : Int) →
      w < 3 ∧ j < 3 := by
    intro j w h
    have hj : j < 3 := (List.getElem?_eq_some_iff.mp h).1
    have hw := List.mem_of_getElem? h
    simp only [List.mem_cons, List.not_mem_nil, or_false] at hw
    omega
  have htext := (hexists (Grid.ofFn 3 3 fun _ _ => 1.0) rfl hcells (0.0 / 0.0)).mpr
    (by decide +kernel)
  rcases htext with ⟨text, htext⟩
  exact ⟨hM, text, htext, (hreads _ text htext).1⟩

end Report

end Roster
