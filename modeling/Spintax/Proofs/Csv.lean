import Mathlib.Data.List.Basic
import Spintax.Csv

namespace Spintax.Csv

/-- Where a reader is in a record. Behind a quote in a quoted field it is open whether the field
ends there. Behind a carriage return outside of quotes a line feed has to come. -/
inductive Place where
  | start
  | plain
  | quoted
  | quote
  | lineBreak
deriving DecidableEq, Repr

/-- What was read: the records, the fields of the record that is being read, and the characters of
its field, each of them last first. -/
structure Reading where
  records : List (List String)
  fields : List String
  letters : List Char
  place : Place
deriving DecidableEq, Repr

namespace Reading

def start : Reading := ⟨[], [], [], .start⟩

def endField (r : Reading) : Reading :=
  ⟨r.records, .ofList r.letters.reverse :: r.fields, [], .start⟩

def endRecord (r : Reading) : Reading :=
  ⟨r.endField.fields.reverse :: r.records, [], [], .start⟩

def stop? (r : Reading) (c : Char) : Option Reading :=
  if c = ',' then some r.endField
  else if c = '\n' then some r.endRecord
  else if c = '\r' then some { r with place := .lineBreak }
  else none

def plain? (r : Reading) (c : Char) : Option Reading :=
  if c = '"' then none
  else (r.stop? c).or (some { r with letters := c :: r.letters, place := .plain })

def step? (r : Reading) (c : Char) : Option Reading :=
  match r.place with
  | .start => if c = '"' then some { r with place := .quoted } else r.plain? c
  | .plain => r.plain? c
  | .quoted =>
    if c = '"' then some { r with place := .quote } else some { r with letters := c :: r.letters }
  | .quote =>
    if c = '"' then some { r with letters := c :: r.letters, place := .quoted } else r.stop? c
  | .lineBreak => if c = '\n' then some r.endRecord else none

def finish? (r : Reading) : Option (List (List String)) :=
  match r.place with
  | .quoted | .lineBreak => none
  | .start =>
    if r.fields = [] then some r.records.reverse else some r.endRecord.records.reverse
  | .plain | .quote => some r.endRecord.records.reverse

end Reading

def read? (text : String) : Option (List (List String)) :=
  (text.toList.foldlM Reading.step? .start).bind Reading.finish?

example : read? "a,\"b\r\n\"\"\"\r\n,c" = some [["a", "b\r\n\""], ["", "c"]] := by decide

variable {records : List (List String)} {fields : List String} {letters cs : List Char}
  {place : Place}

theorem foldlM_plain (h : ∀ c ∈ cs, needsQuotes c = false) (hne : cs ≠ [])
    (hp : place = .start ∨ place = .plain) :
    cs.foldlM Reading.step? ⟨records, fields, letters, place⟩ =
      some ⟨records, fields, cs.reverse ++ letters, .plain⟩ := by
  induction cs generalizing letters place with
  | nil => exact absurd rfl hne
  | cons c cs ih =>
    obtain ⟨hc, h⟩ := List.forall_mem_cons.mp h
    simp only [needsQuotes, Bool.or_eq_false_iff, decide_eq_false_iff_not] at hc
    have hstep : Reading.step? ⟨records, fields, letters, place⟩ c =
        some ⟨records, fields, c :: letters, .plain⟩ := by
      obtain rfl | rfl := hp <;> simp [Reading.step?, Reading.plain?, Reading.stop?, hc]
    rw [List.foldlM_cons, hstep, Option.bind_eq_bind, Option.bind_some]
    cases cs with
    | nil => rfl
    | cons d cs =>
      rw [ih h (List.cons_ne_nil d cs) (.inr rfl)]
      simp

theorem foldlM_quoted (cs letters : List Char) :
    (cs.flatMap fun c => if c = '"' then ['"', '"'] else [c]).foldlM Reading.step?
        ⟨records, fields, letters, .quoted⟩ =
      some ⟨records, fields, cs.reverse ++ letters, .quoted⟩ := by
  induction cs generalizing letters with
  | nil => rfl
  | cons c cs ih =>
    have hstep : (if c = '"' then ['"', '"'] else [c]).foldlM Reading.step?
        ⟨records, fields, letters, .quoted⟩ = some ⟨records, fields, c :: letters, .quoted⟩ := by
      by_cases hc : c = '"' <;> simp [hc, Reading.step?]
    rw [List.flatMap_cons, List.foldlM_append, hstep, Option.bind_eq_bind, Option.bind_some, ih]
    simp

/-- Behind a field that was written, its characters are known, and it is not within quotes. -/
theorem exists_foldlM_field (records : List (List String)) (fields : List String)
    (cs : List Char) : ∃ place, place ≠ .quoted ∧ place ≠ .lineBreak ∧
      (field cs).foldlM Reading.step? ⟨records, fields, [], .start⟩ =
        some ⟨records, fields, cs.reverse, place⟩ := by
  rw [field]
  split
  · have hquote : Reading.step? ⟨records, fields, cs.reverse, .quoted⟩ '"' =
        some ⟨records, fields, cs.reverse, .quote⟩ := rfl
    refine ⟨.quote, by simp, by simp, ?_⟩
    have hopen : Reading.step? ⟨records, fields, [], .start⟩ '"' =
        some ⟨records, fields, [], .quoted⟩ := rfl
    rw [List.foldlM_cons, hopen, Option.bind_eq_bind, Option.bind_some, List.foldlM_append,
      foldlM_quoted, List.append_nil, Option.bind_eq_bind, Option.bind_some, List.foldlM_cons,
      hquote]
    rfl
  · next hnone =>
    cases cs with
    | nil => exact ⟨.start, by simp, by simp, rfl⟩
    | cons c cs =>
      refine ⟨.plain, by simp, by simp, ?_⟩
      have hplain : ∀ d ∈ c :: cs, needsQuotes d = false := by simpa using hnone
      rw [foldlM_plain hplain (List.cons_ne_nil c cs) (.inl rfl), List.append_nil]

theorem step?_eq_stop? (hquoted : place ≠ .quoted) (hbreak : place ≠ .lineBreak) {c : Char}
    (hc : c = ',' ∨ c = '\n') : Reading.step? ⟨records, fields, letters, place⟩ c =
      Reading.stop? ⟨records, fields, letters, place⟩ c := by
  obtain rfl | rfl := hc <;> cases place <;>
    simp [Reading.step?, Reading.plain?, Reading.stop?] at hquoted hbreak ⊢

theorem foldlM_field_stop {c : Char} (hc : c = ',' ∨ c = '\n') (cs rest : List Char) :
    (field cs ++ c :: rest).foldlM Reading.step? ⟨records, fields, [], .start⟩ =
      (Reading.stop? ⟨records, fields, cs.reverse, .start⟩ c).bind
        (rest.foldlM Reading.step? ·) := by
  obtain ⟨place, hquoted, hbreak, hfield⟩ := exists_foldlM_field records fields cs
  rw [List.foldlM_append, hfield, Option.bind_eq_bind, Option.bind_some, List.foldlM_cons,
    step?_eq_stop? hquoted hbreak hc]
  obtain rfl | rfl := hc <;> rfl

theorem foldlM_record {row : List String} (h : row ≠ []) (fields : List String)
    (rest : List Char) :
    (record (row.map String.toList) ++ rest).foldlM Reading.step? ⟨records, fields, [], .start⟩ =
      rest.foldlM Reading.step? ⟨(fields.reverse ++ row) :: records, [], [], .start⟩ := by
  induction row generalizing fields with
  | nil => exact absurd rfl h
  | cons s row ih =>
    cases row with
    | nil =>
      have hrecord : record ([s].map String.toList) ++ rest =
          field s.toList ++ '\n' :: rest := by simp [record]
      rw [hrecord, foldlM_field_stop (.inr rfl)]
      simp [Reading.stop?, Reading.endRecord, Reading.endField]
    | cons s' row =>
      have hrecord : record ((s :: s' :: row).map String.toList) ++ rest =
          field s.toList ++ ',' :: (record ((s' :: row).map String.toList) ++ rest) := by
        simp [record]
      rw [hrecord, foldlM_field_stop (.inl rfl)]
      simp only [Reading.stop?, if_true, Option.bind_some, Reading.endField, List.reverse_reverse,
        String.ofList_toList]
      rw [ih (List.cons_ne_nil s' row)]
      simp

theorem read?_write {rows : List (List String)} (h : ∀ row ∈ rows, row ≠ []) :
    read? (write rows) = some rows := by
  have hrows : ∀ records, (rows.flatMap fun row => record (row.map String.toList)).foldlM
      Reading.step? ⟨records, [], [], .start⟩ =
        some ⟨rows.reverse ++ records, [], [], .start⟩ := by
    induction rows with
    | nil => exact fun _ => rfl
    | cons row rows ih =>
      intro records
      obtain ⟨hrow, h⟩ := List.forall_mem_cons.mp h
      rw [List.flatMap_cons, foldlM_record hrow, List.reverse_nil, List.nil_append, ih h]
      simp
  rw [read?, write, String.toList_ofList, Reading.start, hrows, Option.bind_some]
  simp [Reading.finish?]

end Spintax.Csv
