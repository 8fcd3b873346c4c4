import DiceScript.Log
import DiceScript.Proofs.Text.Bytes

/-!
What a log in memory holds. Every line that is written becomes one entry, in the order of writing,
and nothing but clearing the log takes an entry away. A line that is written in chunks of bytes is
an entry while it is still being written: finishing it later changes nothing that can be read.
-/

namespace DiceScript.Journal

variable {j : Journal}

/-! ## Single operations -/

theorem lines_eq (j : Journal) :
    j.lines = j.finished.toList ++ if j.pending.isEmpty then [] else [lineOf j.pending] := by
  unfold lines finish
  cases j.pending.isEmpty <;> simp

theorem finish_pending (j : Journal) : j.finish.pending = [] := by
  unfold finish
  split
  case isTrue h => exact List.isEmpty_iff.1 h
  case isFalse => rfl

theorem lines_writeLine (j : Journal) (text : String) :
    (j.writeLine text).lines = j.lines ++ [text] := by
  rw [lines_eq, writeLine, finish_pending, Array.toList_push]
  exact List.append_nil _

theorem lines_write (j : Journal) (chunks : List (List UInt8)) :
    (j.write chunks).lines =
      j.lines ++ if chunks.flatten.isEmpty then [] else [lineOf chunks.flatten] := by
  rw [lines_eq, write]
  rfl

/-- A text with a line break behind it makes the same entry as the text written as a line, however
its bytes are cut into chunks. -/
theorem lines_write_text {chunks : List (List UInt8)} {text : String}
    (h : chunks.flatten = Text.bytes (text.toList ++ ['\n'])) (j : Journal) :
    (j.write chunks).lines = (j.writeLine text).lines := by
  have hread : Text.decodeLossy chunks.flatten = text.toList ++ ['\n'] := by
    rw [h, ← List.append_nil (Text.bytes _), Text.decodeLossy_bytes, Text.decodeLossy,
      List.append_nil]
  have hline : lineOf chunks.flatten = text := by
    rw [lineOf, hread, List.getLast?_concat, if_pos rfl, List.dropLast_concat,
      String.ofList_toList]
  have hbytes : chunks.flatten.isEmpty = false := by
    cases hflat : chunks.flatten with
    | cons b bs => rfl
    | nil =>
      rw [hflat, Text.decodeLossy] at hread
      cases List.append_ne_nil_of_right_ne_nil _ (List.cons_ne_nil _ _) hread.symm
  rw [lines_write, lines_writeLine, hbytes, hline]
  rfl

theorem isEmpty_iff (j : Journal) : j.isEmpty = true ↔ j.lines = [] := by
  rw [lines_eq, isEmpty, Bool.and_eq_true, List.append_eq_nil_iff, Array.toList_eq_nil_iff,
    Array.isEmpty_iff]
  cases j.pending.isEmpty <;> simp

/-! ## Operations one after another -/

/-- Something that is done to a log. -/
inductive Operation
  | line (text : String)
  /-- Asking for a writer, and writing chunks of bytes to it. -/
  | chunks (written : List (List UInt8))
  | clear

namespace Operation

def isClear : Operation → Bool
  | clear => true
  | _ => false

/-- Whether the operation writes a line. A writer that no byte is written to writes none. -/
def writes : Operation → Bool
  | line _ => true
  | chunks written => written.any (· ≠ [])
  | clear => false

/-- The entry that an operation makes: the text of a line as it is, or what the bytes of all chunks
read as, without a line break at the end. -/
inductive Entry : Operation → String → Prop
  | line (text : String) : Entry (line text) text
  | broken {written : List (List UInt8)} {text : String} :
    Text.decodeLossy written.flatten = text.toList ++ ['\n'] → Entry (chunks written) text
  | unbroken {written : List (List UInt8)} {text : String} :
    Text.decodeLossy written.flatten = text.toList → text.toList.getLast? ≠ some '\n' →
      Entry (chunks written) text

/-- The entry as the log makes it. -/
def recorded? : Operation → Option String
  | line text => some text
  | chunks written => if written.flatten.isEmpty then none else some (lineOf written.flatten)
  | clear => none

theorem entry_lineOf (written : List (List UInt8)) :
    Entry (chunks written) (lineOf written.flatten) := by
  unfold lineOf
  dsimp only
  split
  case isTrue h =>
    refine .broken ?_
    rw [String.toList_ofList, List.dropLast_append_getLast? _ h]
  case isFalse h => exact .unbroken (String.toList_ofList).symm (by rwa [String.toList_ofList])

/-- The operations that write a line, with the entries that they make. -/
theorem forall₂_entries (ops : List Operation) :
    List.Forall₂ Entry (ops.filter writes) (ops.filterMap recorded?) := by
  induction ops with
  | nil => exact .nil
  | cons op ops ih =>
    cases op with
    | line text => exact .cons (.line text) ih
    | clear => exact ih
    | chunks written =>
      by_cases hempty : written.flatten.isEmpty = true
      · have hwrites : (chunks written).writes = false := by
          simpa [writes] using hempty
        rw [List.filter_cons_of_neg (by simp [hwrites]),
          List.filterMap_cons_none (by rw [recorded?, if_pos hempty])]
        exact ih
      · have hwrites : (chunks written).writes = true := by
          simpa [writes] using hempty
        rw [List.filter_cons_of_pos hwrites,
          List.filterMap_cons_some (by rw [recorded?, if_neg hempty])]
        exact .cons (entry_lineOf written) ih

end Operation

/-- The log after an operation. A cleared log is a new one. -/
def perform (j : Journal) : Operation → Journal
  | .line text => j.writeLine text
  | .chunks written => j.write written
  | .clear => empty

/-- A new log after some operations. -/
def after (ops : List Operation) : Journal := ops.foldl perform empty

/-- The operations behind the last clearing. -/
def sinceClear (ops : List Operation) : List Operation := ops.rtakeWhile (!·.isClear)

/-- An operation adds its entry at the end, unless it clears the log. -/
theorem lines_perform {op : Operation} (h : op.isClear = false) (j : Journal) :
    (j.perform op).lines = j.lines ++ op.recorded?.toList := by
  cases op with
  | line text => exact lines_writeLine j text
  | chunks written =>
    rw [perform, lines_write, Operation.recorded?]
    cases written.flatten.isEmpty <;> rfl
  | clear => cases h

theorem lines_foldl_perform {ops : List Operation} (h : ∀ op ∈ ops, op.isClear = false)
    (j : Journal) : (ops.foldl perform j).lines = j.lines ++ ops.filterMap Operation.recorded? := by
  induction ops generalizing j with
  | nil => simp
  | cons op ops ih =>
    rw [List.foldl_cons, ih fun other hother => h other (List.mem_cons_of_mem _ hother),
      lines_perform (h op List.mem_cons_self)]
    cases hentry : op.recorded? <;> simp [hentry]

theorem lines_after (ops : List Operation) :
    (after ops).lines = (sinceClear ops).filterMap Operation.recorded? := by
  induction ops using List.reverseRecOn with
  | nil => rfl
  | append_singleton ops op ih =>
    rw [after, List.foldl_concat, ← after, sinceClear]
    by_cases hclear : op.isClear = true
    · rw [List.rtakeWhile_concat_neg _ _ _ (by simp [hclear])]
      cases op with
      | clear => rfl
      | _ => cases hclear
    · rw [Bool.not_eq_true] at hclear
      rw [List.rtakeWhile_concat_pos _ _ _ (by simp [hclear]), lines_perform hclear, ih,
        List.filterMap_append, sinceClear]
      cases hentry : op.recorded? <;> simp [hentry]

/-- The lines of a log are the entries of the operations that wrote one since it was last cleared,
in order. It counts as empty exactly when it has no lines, and as long as it is not cleared, the
lines that it has now are the first of those that it has later. A text that is written as bytes,
with a line break behind it, is an entry as it is. -/
theorem log_loses_nothing (ops : List Operation) :
    List.Forall₂ Operation.Entry ((sinceClear ops).filter Operation.writes) (after ops).lines ∧
      ((after ops).isEmpty = true ↔ (after ops).lines = []) ∧
      (∀ later : List Operation, later.all (!·.isClear) = true →
        (after ops).lines <+: (after (ops ++ later)).lines) ∧
      ∀ (written : List (List UInt8)) (text : String),
        written.flatten = Text.bytes (text.toList ++ ['\n']) →
          (after (ops ++ [.chunks written])).lines = (after ops).lines ++ [text] := by
  refine ⟨?_, isEmpty_iff _, fun later hlater => ?_, fun written text hwritten => ?_⟩
  · rw [lines_after]
    exact Operation.forall₂_entries _
  · have hkept : ∀ op ∈ later, op.isClear = false := fun op hop => by
      simpa using List.all_eq_true.1 hlater op hop
    rw [after, after, List.foldl_append, lines_foldl_perform hkept]
    exact List.prefix_append _ _
  · rw [after, after, List.foldl_concat, perform, lines_write_text hwritten, lines_writeLine]

/-- A line that is still being written is an entry already, and stays one. -/
theorem open_line_stays :
    [Operation.line "next"].all (!·.isClear) = true ∧
      [[104], [105, 10]].flatten = Text.bytes ("hi".toList ++ ['\n']) ∧
      (after ([.line "a\nb", .chunks []] ++ [.chunks [[104], [105, 10]]])).lines =
        (after [.line "a\nb", .chunks []]).lines ++ ["hi"] ∧
      (after [.line "a\nb", .chunks [], .chunks [[104], [105, 10]]]).lines = ["a\nb", "hi"] ∧
      (after [.line "a\nb", .chunks [], .chunks [[104], [105, 10]]]).lines <+:
        (after ([.line "a\nb", .chunks [], .chunks [[104], [105, 10]]] ++ [.line "next"])).lines :=
  ⟨by decide, by decide, (log_loses_nothing _).2.2.2 _ "hi" (by decide), by decide,
    (log_loses_nothing _).2.2.1 [.line "next"] (by decide)⟩

end DiceScript.Journal
