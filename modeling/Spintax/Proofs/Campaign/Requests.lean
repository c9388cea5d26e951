import Mathlib.Data.List.DropRight
import Mathlib.Data.String.Basic
import Spintax.Campaign.Export

namespace Spintax.Tracker

inductive Request where
  | record (now : Timestamp) (writer : Nat) (campaign : String) (choices : List Choice)
  | snapshot (now : Timestamp) (campaign : String)
  | write (now : Timestamp) (campaign : String) (format : ExportFormat)
  | reset (now : Timestamp) (campaign : String)
deriving DecidableEq, Repr

inductive Answer where
  | recorded
  | seen (s : Option Statistics)
  | written (r : Except TrackerError String)
  | closed (s : Option Statistics)

def step (t : Tracker) : Request → Answer × Tracker
  | .record now writer campaign choices => (.recorded, t.record now writer campaign choices)
  | .snapshot now campaign => (.seen (t.snapshot now campaign), t)
  | .write now campaign format => (.written (t.export now campaign format), t)
  | .reset now campaign => (.closed (t.reset now campaign).2, (t.reset now campaign).1)

def run : List Request → Tracker → List Answer × Tracker
  | [], t => ([], t)
  | r :: rs, t =>
    let (a, t) := t.step r
    let (as, t) := run rs t
    (a :: as, t)

namespace Request

def campaign : Request → String
  | record _ _ campaign _ | snapshot _ campaign | write _ campaign _ | reset _ campaign => campaign

def message? (campaign : String) : Request → Option (List Choice)
  | record _ _ c choices => if c = campaign then some choices else none
  | _ => none

def closes (campaign : String) : Request → Bool
  | reset _ c => c = campaign
  | _ => false

end Request

def Answer.closed? (campaign : String) : Answer → Option Statistics
  | closed (some s) => if s.campaign = campaign then some s else none
  | _ => none

def messages (campaign : String) (rs : List Request) : List (List Choice) :=
  rs.filterMap (·.message? campaign)

/-- The messages that are recorded for a campaign after its books were closed for the last
time. -/
def current (campaign : String) (rs : List Request) : List (List Choice) :=
  messages campaign (rs.rtakeWhile fun r => !r.closes campaign)

variable {campaign : String} {l : Ledger} {r : Request} {ls : List (String × Ledger)}

theorem messages_cons (campaign : String) (r : Request) (rs : List Request) :
    messages campaign (r :: rs) = (r.message? campaign).toList ++ messages campaign rs := by
  rw [messages, List.filterMap_cons]
  cases r.message? campaign <;> rfl

theorem current_concat (campaign : String) (rs : List Request) (r : Request) :
    current campaign (rs ++ [r]) =
      if r.closes campaign then [] else current campaign rs ++ (r.message? campaign).toList := by
  rw [current, List.rtakeWhile_concat]
  cases r.closes campaign with
  | true => rfl
  | false =>
    simp only [Bool.not_false, if_true, Bool.false_eq_true, if_false]
    rw [messages, List.filterMap_append, List.filterMap_cons]
    cases r.message? campaign <;> rfl

theorem current_record (campaign : String) (rs : List Request) (now : Timestamp) (writer : Nat)
    (c : String) (cs : List Choice) : current campaign (rs ++ [.record now writer c cs]) =
      if c = campaign then current campaign rs ++ [cs] else current campaign rs := by
  rw [current_concat]
  by_cases hc : c = campaign <;> simp [Request.closes, Request.message?, hc]

theorem current_snapshot (campaign : String) (rs : List Request) (now : Timestamp) (c : String) :
    current campaign (rs ++ [.snapshot now c]) = current campaign rs := by
  simp [current_concat, Request.closes, Request.message?]

theorem current_write (campaign : String) (rs : List Request) (now : Timestamp) (c : String)
    (format : ExportFormat) :
    current campaign (rs ++ [.write now c format]) = current campaign rs := by
  simp [current_concat, Request.closes, Request.message?]

theorem current_reset (campaign : String) (rs : List Request) (now : Timestamp) (c : String) :
    current campaign (rs ++ [.reset now c]) = if c = campaign then [] else current campaign rs := by
  rw [current_concat]
  by_cases hc : c = campaign <;> simp [Request.closes, Request.message?, hc]

theorem mem_place {p : String × Ledger} (h : p ∈ place campaign l ls) :
    p = (campaign, l) ∨ p ∈ ls := by
  induction ls with
  | nil => exact .inl (List.mem_singleton.mp h)
  | cons e ls ih =>
    rw [place] at h
    split at h
    · obtain h | h := List.mem_cons.mp h
      · exact .inl h
      · exact .inr (List.mem_cons_of_mem e h)
    · split at h
      · exact List.mem_cons.mp h
      · obtain rfl | h := List.mem_cons.mp h
        · exact .inr List.mem_cons_self
        · exact (ih h).imp_right (List.mem_cons_of_mem e)

theorem ascending_place (h : (ls.map Prod.fst).Pairwise (· < ·)) (campaign : String)
    (l : Ledger) : ((place campaign l ls).map Prod.fst).Pairwise (· < ·) := by
  rw [List.pairwise_map] at h ⊢
  induction ls with
  | nil => exact List.pairwise_singleton _ _
  | cons e ls ih =>
    obtain ⟨he, hls⟩ := List.pairwise_cons.mp h
    rw [place]
    split
    · next hc =>
      subst hc
      exact List.pairwise_cons.mpr ⟨he, hls⟩
    · next hc =>
      split
      · next hlt =>
        refine List.pairwise_cons.mpr ⟨fun p hp => ?_, h⟩
        obtain rfl | hp := List.mem_cons.mp hp
        · exact hlt
        · exact lt_trans hlt (he p hp)
      · next hlt =>
        refine List.pairwise_cons.mpr ⟨fun p hp => ?_, ih hls⟩
        obtain rfl | hp := mem_place hp
        · exact lt_of_le_of_ne (not_lt.mp hlt) (Ne.symm hc)
        · exact he p hp

theorem lookup_place (c campaign : String) (l : Ledger) (ls : List (String × Ledger)) :
    (place c l ls).lookup campaign = if campaign = c then some l else ls.lookup campaign := by
  induction ls with
  | nil => rw [place, Entries.lookup_cons, List.lookup_nil]
  | cons e ls ih =>
    rw [place]
    split
    · next hc =>
      rw [Entries.lookup_cons, Entries.lookup_cons, hc]
      split <;> rfl
    · next hc =>
      split
      · rw [Entries.lookup_cons]
      · rw [Entries.lookup_cons, Entries.lookup_cons, ih]
        by_cases he : campaign = e.1
        · have hne : campaign ≠ c := fun h => hc (h.symm.trans he)
          rw [if_pos he, if_neg hne, if_pos he]
        · rw [if_neg he, if_neg he]

theorem lookup_filter_ne (c campaign : String) (ls : List (String × Ledger)) :
    (ls.filter (·.1 ≠ c)).lookup campaign =
      if campaign = c then none else ls.lookup campaign := by
  induction ls with
  | nil => simp [List.lookup_nil]
  | cons e ls ih =>
    by_cases he : e.1 = c
    · rw [List.filter_cons_of_neg (by simpa using he), ih, Entries.lookup_cons, he]
      by_cases hc : campaign = c
      · rw [if_pos hc, if_pos hc]
      · rw [if_neg hc, if_neg hc, if_neg hc]
    · rw [List.filter_cons_of_pos (by simpa using he), Entries.lookup_cons, ih,
        Entries.lookup_cons]
      by_cases hc : campaign = e.1
      · have hne : campaign ≠ c := fun h => he (hc.symm.trans h)
        rw [if_pos hc, if_pos hc, if_neg hne]
      · rw [if_neg hc, if_neg hc]

theorem ledger?_record (t : Tracker) (now : Timestamp) (writer : Nat) (c campaign : String)
    (cs : List Choice) : (t.record now writer c cs).ledger? campaign =
      if campaign = c then some (((t.ledger? c).getD (.openAt now)).enter writer cs)
      else t.ledger? campaign := by
  rw [record]
  split
  · next l hl =>
    rw [hl]
    exact lookup_place c campaign _ _
  · next hl =>
    rw [hl]
    exact lookup_place c campaign _ _

theorem ledger?_reset (t : Tracker) (now : Timestamp) (c campaign : String) :
    (t.reset now c).1.ledger? campaign = if campaign = c then none else t.ledger? campaign := by
  rw [reset]
  split
  · exact lookup_filter_ne c campaign _
  · next hnone =>
    split
    · next hc =>
      rw [hc]
      simpa [snapshot] using hnone
    · rfl

theorem reset_eq_snapshot (t : Tracker) (now : Timestamp) (campaign : String) :
    (t.reset now campaign).2 = t.snapshot now campaign := by
  rw [reset]
  split <;> next h => exact h.symm

theorem ledger?_step_of_ne (t : Tracker) (h : r.campaign ≠ campaign) :
    (t.step r).2.ledger? campaign = t.ledger? campaign := by
  cases r with
  | record now writer c cs =>
    rw [step, ledger?_record]
    exact if_neg fun hc => h hc.symm
  | snapshot | write => rfl
  | reset now c =>
    rw [step, ledger?_reset]
    exact if_neg fun hc => h hc.symm

end Spintax.Tracker
