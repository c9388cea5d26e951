import Spintax.Proofs.Mailing.Rosters

namespace Spintax.Roster

def isText (l : List UInt8) : Bool :=
  (Text.ofUtf8? l).isSome

variable {ls : List (List UInt8)} {x : List UInt8}

theorem texts_append (h : ∀ l ∈ ls, isText l) (ms : List (List UInt8)) :
    texts (ls ++ ms) = texts ls ++ texts ms := by
  induction ls with
  | nil => rfl
  | cons l ls ih =>
    obtain ⟨hl, h⟩ := List.forall_mem_cons.mp h
    obtain ⟨text, htext⟩ := Option.isSome_iff_exists.mp hl
    simp only [List.cons_append, texts, htext, ih h]

theorem texts_append_of_exists (h : ∃ l ∈ ls, isText l = false) (ms : List (List UInt8)) :
    texts (ls ++ ms) = texts ls := by
  induction ls with
  | nil => simp at h
  | cons l ls ih =>
    simp only [List.cons_append, texts]
    cases htext : Text.ofUtf8? l with
    | none => rfl
    | some text =>
      have hrest : ∃ l ∈ ls, isText l = false := by
        obtain ⟨l', hl', hbad⟩ := h
        obtain rfl | hl' := List.mem_cons.mp hl'
        · simp [isText, htext] at hbad
        · exact ⟨l', hl', hbad⟩
      rw [ih hrest]

theorem texts_takeWhile (ls : List (List UInt8)) : texts (ls.takeWhile isText) = texts ls := by
  induction ls with
  | nil => rfl
  | cons l ls ih =>
    rw [List.takeWhile_cons, isText]
    cases htext : Text.ofUtf8? l with
    | none => simp [texts, htext]
    | some text => simp [texts, htext, ih]

theorem ofBytes_append (hx : Text.Ended x) (h : ∀ l ∈ Text.lines x, isText l) (y : List UInt8) :
    ofBytes (x ++ y) = ofBytes x ++ ofBytes y := by
  rw [ofBytes, hx.lines_append, texts_append h, List.filterMap_append]
  rfl

theorem ofBytes_append_of_exists (hx : Text.Ended x)
    (h : ∃ l ∈ Text.lines x, isText l = false) (y : List UInt8) :
    ofBytes (x ++ y) = ofBytes x := by
  rw [ofBytes, hx.lines_append, texts_append_of_exists h]
  rfl

theorem ofBytes_takeWhile (x : List UInt8) :
    ofBytes (Text.joined ((Text.lines x).takeWhile isText)) = ofBytes x := by
  have hfeed : ∀ l ∈ (Text.lines x).takeWhile isText, 10 ∉ l := fun l hl =>
    Text.stop_notMem_pieces x l ((List.takeWhile_sublist _).subset hl)
  rw [ofBytes, Text.lines_joined hfeed, texts_takeWhile]
  rfl

theorem ofBytes_line {l : String} (hl : '\n' ∉ l.toList) {r : Recipient}
    (hr : ofLine? l = some r) (y : List UInt8) :
    ofBytes (Text.bytes l ++ 10 :: y) = r :: ofBytes y ∧ ofBytes (Text.bytes l) = [r] := by
  have hfeed := Text.lineFeed_notMem_bytes hl
  have hlines : Text.lines (Text.bytes l ++ 10 :: y) = Text.bytes l :: Text.lines y :=
    Text.pieces_append hfeed
  have hne : l ≠ "" := by
    rintro rfl
    rw [ofLine?_of_blank (by simp)] at hr
    cases hr
  have hline : Text.lines (Text.bytes l) = [Text.bytes l] :=
    Text.pieces_of_notMem hfeed (Text.bytes_ne_nil hne)
  constructor
  · rw [ofBytes, hlines, texts, Text.ofUtf8?_bytes]
    exact List.filterMap_cons_some hr
  · rw [ofBytes, hline, texts, Text.ofUtf8?_bytes, texts]
    exact List.filterMap_cons_some hr

/-- What a portion gives does not depend on what comes after it, and a line gives its recipient
wherever it stands, unless one before it is no text. -/
theorem ofBytes_portions (hx : Text.Ended x) (y : List UInt8) :
    ((∀ l ∈ Text.lines x, isText l) → ofBytes (x ++ y) = ofBytes x ++ ofBytes y) ∧
    ((∃ l ∈ Text.lines x, isText l = false) → ofBytes (x ++ y) = ofBytes x ∧
      ofBytes x = ofBytes (Text.joined ((Text.lines x).takeWhile isText))) ∧
    ∀ (r : Recipient) (l : String), r.OnLine l → '\n' ∉ l.toList →
      (∀ l ∈ Text.lines x, isText l) → ∃ r', r.Alike r' ∧
        ofBytes (x ++ (Text.bytes l ++ 10 :: y)) = ofBytes x ++ r' :: ofBytes y ∧
        ofBytes (x ++ Text.bytes l) = ofBytes x ++ [r'] := by
  refine ⟨fun h => ofBytes_append hx h y, fun h => ?_, fun r l hr hl h => ?_⟩
  · exact ⟨ofBytes_append_of_exists hx h y, (ofBytes_takeWhile x).symm⟩
  · obtain ⟨r', hr', halike⟩ := ofLine?_of_onLine hr
    obtain ⟨hline, hlast⟩ := ofBytes_line hl hr' y
    refine ⟨r', halike, ?_, ?_⟩
    · rw [ofBytes_append hx h, hline]
    · rw [ofBytes_append hx h, hlast]

/-- The line for `a` stands between one that is no recipient and one that is no text. -/
theorem ofBytes_portions_between : Text.Ended [120, 13, 10] ∧
    ofBytes ([120, 13, 10] ++ [255]) = ofBytes [120, 13, 10] ++ ofBytes [255] ∧
    (∃ r', Recipient.Alike ⟨"a", .empty⟩ r' ∧
      ofBytes ([120, 13, 10] ++
        (Text.bytes (" " ++ (Recipient.toJson ⟨"a", .empty⟩).compact ++ "\r") ++ 10 :: [255])) =
          ofBytes [120, 13, 10] ++ r' :: ofBytes [255]) ∧
    Text.Ended [255, 10] ∧ ofBytes ([255, 10] ++ [120]) = ofBytes [255, 10] := by
  have hended : Text.Ended [120, 13, 10] := .inr rfl
  have hlines : ∀ l ∈ Text.lines [120, 13, 10], isText l := by decide
  have hline : Recipient.OnLine ⟨"a", .empty⟩
      (" " ++ (Recipient.toJson ⟨"a", .empty⟩).compact ++ "\r") :=
    (Recipient.fills_line _ (by simp [Text.isBlank]) (by simp [Text.isBlank])).onLine
  have hfeed : '\n' ∉ (" " ++ (Recipient.toJson ⟨"a", .empty⟩).compact ++ "\r").toList := by
    simp [Recipient.lineFeed_notMem_line]
  obtain ⟨r', halike, hr', -⟩ :=
    (ofBytes_portions hended [255]).2.2 ⟨"a", .empty⟩ _ hline hfeed hlines
  have hbad : Text.Ended [255, 10] := .inr rfl
  have hnone : ∃ l ∈ Text.lines [255, 10], isText l = false := ⟨[255], by decide, by decide⟩
  exact ⟨hended, (ofBytes_portions hended [255]).1 hlines, ⟨r', halike, hr'⟩, hbad,
    ((ofBytes_portions hbad [120]).2.1 hnone).1⟩

end Spintax.Roster
