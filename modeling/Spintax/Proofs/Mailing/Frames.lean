import Spintax.Proofs.Json.RoundTrip
import Spintax.Proofs.Mailing.Deliveries
import Spintax.Proofs.Text.Lines

namespace Spintax

namespace Text

theorem splitOn_joined {ls : List (List UInt8)} {rest : List UInt8} (h : ∀ l ∈ ls, 10 ∉ l)
    (hrest : 10 ∉ rest) : (joined ls ++ rest).splitOn 10 = ls ++ [rest] := by
  induction ls with
  | nil => exact List.splitOn_eq_singleton hrest
  | cons l ls ih =>
    obtain ⟨hl, h⟩ := List.forall_mem_cons.mp h
    have hsplit : joined (l :: ls) ++ rest = l ++ 10 :: (joined ls ++ rest) := by simp [joined]
    rw [hsplit, List.splitOn_append_cons_self_of_not_mem hl, ih h]
    rfl

theorem joined_concat (ls : List (List UInt8)) (l : List UInt8) :
    joined (ls ++ [l]) = joined ls ++ (l ++ [10]) := by
  simp [joined]

end Text

namespace Message

theorem lineFeed_notMem_compact (m : Message) : '\n' ∉ m.toJson.compact.toList := by
  have hpath : '\n' ∉ (Json.Value.compactItems (m.path.map .ofNat)).toList := by
    refine Json.lineFeed_notMem_items fun v hv => ?_
    obtain ⟨n, -, rfl⟩ := List.mem_map.mp hv
    exact Json.lineFeed_notMem_natural n
  simp [toJson, Json.Value.compact, Json.Value.compactMembers, Json.lineFeed_notMem_quote, hpath]

def line (m : Message) : List UInt8 :=
  Text.bytes m.toJson.compact

theorem lineFeed_notMem_lines (ms : List Message) : ∀ l ∈ ms.map line, 10 ∉ l := by
  intro l hl
  obtain ⟨m, -, rfl⟩ := List.mem_map.mp hl
  exact Text.lineFeed_notMem_bytes m.lineFeed_notMem_compact

/-- Whoever reads the line as JSON gets the fields of the message and no others. -/
def OnLine (depth : Nat) (m : Message) (l : List UInt8) : Prop :=
  ∃ text, Text.ofUtf8? l = some text ∧ (Json.Reader.any depth).decode text = .ok (.object
    [("recipient_id", .text m.recipient), ("text", .text m.text),
      ("path", .list (m.path.map .ofNat))])

theorem returns {m : Message} (h : ∀ n ∈ m.path, n < UInt64.size) (depth : Nat) :
    m.toJson.Returns (depth + 2) m.toJson := by
  have hpath : (Json.Value.list (m.path.map .ofNat)).Returns (depth + 1)
      (.list (m.path.map .ofNat)) := by
    refine Json.returns_list (List.forall₂_same.mpr fun v hv => ?_)
    obtain ⟨n, hn, rfl⟩ := List.mem_map.mp hv
    exact Json.returns_natural depth (h n hn)
  refine Json.returns_object ?_ (by simp)
  exact .cons ⟨rfl, Json.returns_text _ _⟩ (.cons ⟨rfl, Json.returns_text _ _⟩
    (.cons ⟨rfl, hpath⟩ .nil))

theorem onLine {m : Message} (h : ∀ n ∈ m.path, n < UInt64.size) (depth : Nat) :
    m.OnLine (depth + 2) m.line :=
  ⟨m.toJson.compact, Text.ofUtf8?_bytes _, (returns h depth).decode⟩

end Message

def Answered.taken? : Answered → Option Message
  | (.succeeded m, .ok _) => some m
  | _ => none

theorem Answered.taken_eq {es : List Answered} (h : ∀ e ∈ es, e.2.isOk) :
    es.filterMap taken? = Outcome.messages (es.map Prod.fst) := by
  rw [Outcome.messages, List.filterMap_map]
  refine List.filterMap_congr fun e he => ?_
  obtain ⟨m | f, e | u⟩ := e
  · cases h _ he
  all_goals rfl

theorem Answered.mem_of_taken {es : List Answered} {m : Message} (h : m ∈ es.filterMap taken?) :
    m ∈ Outcome.messages (es.map Prod.fst) := by
  obtain ⟨e, he, htaken⟩ := List.mem_filterMap.mp h
  refine List.mem_filterMap.mpr ⟨e.1, List.mem_map_of_mem he, ?_⟩
  obtain ⟨m' | f, e | u⟩ := e
  · cases htaken
  · exact htaken
  all_goals cases htaken

namespace Medium

theorem write_cases (bytes : ByteArray) (m : Medium) :
    (∃ m', m.write bytes = (.ok (), m') ∧ m'.written.toList = m.written.toList ++ bytes.toList ∧
      (m.room = some 0 → bytes.size = 0) ∧ (m.room = none → m'.room = none)) ∨
    ∃ n e m', m.write bytes = (.error e, m') ∧ m.room = some n ∧ n < bytes.size ∧
      m'.written.toList = m.written.toList ++ bytes.toList.take n ∧ m'.room = some 0 := by
  obtain ⟨written, room⟩ := m
  cases room with
  | none => exact .inl ⟨_, rfl, Text.toList_append _ _, by simp, fun _ => rfl⟩
  | some n =>
    by_cases hfits : bytes.size ≤ n
    · refine .inl ⟨_, if_pos hfits, Text.toList_append _ _, fun h => ?_, by simp⟩
      cases h
      exact Nat.le_zero.mp hfits
    · refine .inr ⟨n, _, _, if_neg hfits, rfl, Nat.lt_of_not_le hfits, ?_, rfl⟩
      rw [Text.toList_append, Text.toList_extract]

/-- On the medium are the lines of the messages. After one that was cut off nothing more fits. -/
structure Framed (ms : List Message) (rest : List UInt8) (m : Medium) : Prop where
  written : m.written.toList = Text.joined (ms.map Message.line) ++ rest
  lineFeed : 10 ∉ rest
  room : rest = [] ∨ m.room = some 0

end Medium

namespace Sink

variable {ms : List Message} {rest : List UInt8} {medium : Medium}

theorem deliver_framed (h : medium.Framed ms rest) (m : Message) :
    (∃ medium', jsonLines.deliver m medium = (.ok (), medium') ∧ rest = [] ∧
      medium'.Framed (ms ++ [m]) [] ∧ (medium.room = none → medium'.room = none)) ∨
    ∃ e medium' rest', jsonLines.deliver m medium = (.error e, medium') ∧
      medium'.Framed ms rest' ∧ medium.room ≠ none := by
  have hbytes : (m.toJson.compact ++ "\n").toUTF8.toList = m.line ++ [10] := by
    have hfeed : Text.bytes "\n" = [10] := by decide
    rw [Text.toList_toUTF8, Text.bytes_append, hfeed, Message.line]
  have hsize : (m.toJson.compact ++ "\n").toUTF8.size = m.line.length + 1 := by
    have hlength := congrArg List.length hbytes
    rw [Text.toList_eq] at hlength
    simpa using hlength
  have hline : 10 ∉ m.line := Text.lineFeed_notMem_bytes m.lineFeed_notMem_compact
  obtain ⟨m', hwrite, hwritten, hfits, hnone⟩ | ⟨n, e, m', hwrite, hroom, hn, hwritten, hfull⟩ :=
    Medium.write_cases (m.toJson.compact ++ "\n").toUTF8 medium
  · have hrest : rest = [] := by
      refine h.room.resolve_right fun hroom => ?_
      have hzero := hfits hroom
      omega
    refine .inl ⟨m', hwrite, hrest, ⟨?_, by simp, .inl rfl⟩, hnone⟩
    rw [hwritten, h.written, hbytes, hrest, List.map_append, List.map_singleton,
      Text.joined_concat, List.append_nil, List.append_nil]
  · refine .inr ⟨e, m', rest ++ m.line.take n, hwrite, ⟨?_, ?_, .inr hfull⟩, by simp [hroom]⟩
    · rw [hwritten, h.written, hbytes, List.take_append_of_le_length (by omega), List.append_assoc]
    · rw [List.mem_append, not_or]
      exact ⟨h.lineFeed, fun hmem => hline (List.mem_of_mem_take hmem)⟩

theorem answers_framed (h : medium.Framed ms rest) (os : List Outcome) :
    let (es, medium') := jsonLines.answers os medium
    ∃ rest', medium'.Framed (ms ++ es.filterMap Answered.taken?) rest' ∧
      ((∀ e ∈ es, e.2.isOk) → rest' = rest) ∧ (medium.room = none → ∀ e ∈ es, e.2.isOk) := by
  induction os generalizing ms rest medium with
  | nil => exact ⟨rest, by simpa [answers] using h, fun _ => rfl, by simp⟩
  | cons o os ih =>
    cases o with
    | failed f =>
      obtain ⟨rest', h', hrest, hok⟩ := ih h
      refine ⟨rest', h', fun hes => hrest fun e he => hes e (List.mem_cons_of_mem _ he), ?_⟩
      exact fun hnone => List.forall_mem_cons.mpr ⟨rfl, hok hnone⟩
    | succeeded m =>
      simp only [answers, offer]
      obtain ⟨medium', hm, hnil, h', hroom⟩ | ⟨e, medium', rest', hm, h', hnone⟩ :=
        deliver_framed h m
      · obtain ⟨rest', hframed, hrest, hok⟩ := ih h'
        rw [hm]
        refine ⟨rest', ?_, fun hes => ?_, fun hnone => ?_⟩
        · rw [List.append_assoc] at hframed
          exact hframed
        · rw [hnil]
          exact hrest fun e he => hes e (List.mem_cons_of_mem _ he)
        · exact List.forall_mem_cons.mpr ⟨rfl, hok (hroom hnone)⟩
      · obtain ⟨rest'', hframed, -, -⟩ := ih h'
        rw [hm]
        refine ⟨rest'', ?_, fun hes => ?_, fun h => absurd h hnone⟩
        · exact hframed
        · cases hes _ List.mem_cons_self

/-- Each message that the sink takes is a line from which it can be read again. What is behind the
last line is part of a message that did not fit. -/
theorem jsonLines_frames {os : List Outcome}
    (h : ∀ m ∈ Outcome.messages os, ∀ n ∈ m.path, n < UInt64.size) (room : Option Nat)
    (depth : Nat) :
    let (es, medium) := jsonLines.answers os ⟨.empty, room⟩
    ∃ ls rest, medium.written.toList.splitOn 10 = ls ++ [rest] ∧
      List.Forall₂ (Message.OnLine (depth + 2)) (es.filterMap Answered.taken?) ls ∧
      ((∀ e ∈ es, e.2.isOk) → es.filterMap Answered.taken? = Outcome.messages os ∧ rest = []) ∧
      (room = none → ∀ e ∈ es, e.2.isOk) := by
  have hempty : Medium.Framed [] [] ⟨.empty, room⟩ :=
    ⟨Text.toList_eq .empty, List.not_mem_nil, .inl rfl⟩
  obtain ⟨rest, hframed, hrest, hok⟩ := answers_framed hempty os
  let taken := (jsonLines.answers os ⟨.empty, room⟩).1.filterMap Answered.taken?
  refine ⟨taken.map Message.line, rest, ?_, ?_, fun hes => ⟨?_, hrest hes⟩, hok⟩
  · rw [hframed.written]
    exact Text.splitOn_joined (Message.lineFeed_notMem_lines _) hframed.lineFeed
  · refine List.forall₂_map_right_iff.mpr (List.forall₂_same.mpr fun m hm => ?_)
    have hmem : m ∈ Outcome.messages os := by
      have hoffered := Answered.mem_of_taken hm
      rwa [map_fst_answers] at hoffered
    exact Message.onLine (h m hmem) depth
  · rw [Answered.taken_eq hes, map_fst_answers]

/-- There is room for the first message and for a part of the second one. -/
theorem jsonLines_frames_cut :
    let os : List Outcome := [.succeeded ⟨"a\"\n", "\\", [3, 0]⟩, .failed ⟨"b", .lostWorker "w"⟩,
      .succeeded ⟨"c", "\x01é", []⟩]
    let (es, medium) := jsonLines.answers os ⟨.empty, some 70⟩
    (∀ m ∈ Outcome.messages os, ∀ n ∈ m.path, n < UInt64.size) ∧
      ∃ ls rest, medium.written.toList.splitOn 10 = ls ++ [rest] ∧
        List.Forall₂ (Message.OnLine 127) (es.filterMap Answered.taken?) ls := by
  intro os
  have hpaths : ∀ m ∈ Outcome.messages os, ∀ n ∈ m.path, n < UInt64.size := by decide
  obtain ⟨ls, rest, hsplit, hls, -⟩ := jsonLines_frames hpaths (some 70) 125
  exact ⟨hpaths, ls, rest, hsplit, hls⟩

end Sink

end Spintax
