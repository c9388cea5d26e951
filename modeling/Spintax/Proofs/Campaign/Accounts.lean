import Spintax.Proofs.Campaign.Requests
import Spintax.Proofs.Campaign.Summaries
import Spintax.Proofs.Text.ByteOrder

namespace Spintax.Tracker

variable {t t' : Tracker} {campaign : String} {rs rs' : List Request} {now : Timestamp}

inductive Open : Option Ledger → List (List Choice) → Prop
  | none : Open none []
  | some {l : Ledger} {ms : List (List Choice)} (h : l.Holds ms) (hne : ms ≠ []) :
      Open (some l) ms

theorem Open.enter {o : Option Ledger} {ms : List (List Choice)} (h : Open o ms)
    (now : Timestamp) (writer : Nat) (cs : List Choice) :
    Open (.some ((o.getD (.openAt now)).enter writer cs)) (ms ++ [cs]) := by
  refine .some ?_ (by simp)
  cases h with
  | none => exact (Ledger.holds_openAt now).enter writer cs
  | some h => exact h.enter writer cs

/-- The tracker after some requests. -/
structure Accounts (t : Tracker) (rs : List Request) : Prop where
  ascending : (t.ledgers.map Prod.fst).Pairwise (· < ·)
  books : ∀ campaign, Open (t.ledger? campaign) (current campaign rs)

namespace Accounts

theorem empty : Accounts .empty [] where
  ascending := List.Pairwise.nil
  books _ := .none

theorem step (h : Accounts t rs) (r : Request) : Accounts (t.step r).2 (rs ++ [r]) := by
  obtain ⟨hasc, hbooks⟩ := h
  constructor
  case ascending =>
    cases r with
    | record now writer c cs =>
      rw [Tracker.step, record]
      split <;> exact ascending_place hasc _ _
    | snapshot | write => exact hasc
    | reset now c =>
      rw [Tracker.step, reset]
      split
      · exact hasc.sublist (List.filter_sublist.map Prod.fst)
      · exact hasc
  case books =>
    intro campaign
    have hb := hbooks campaign
    cases r with
    | record now writer c cs =>
      rw [current_record, Tracker.step, ledger?_record]
      by_cases hc : campaign = c
      · subst hc
        rw [if_pos rfl, if_pos rfl]
        exact hb.enter now writer cs
      · rw [if_neg hc, if_neg (Ne.symm hc)]
        exact hb
    | snapshot now c =>
      rw [current_snapshot]
      exact hb
    | write now c format =>
      rw [current_write]
      exact hb
    | reset now c =>
      rw [current_reset, Tracker.step, ledger?_reset]
      by_cases hc : campaign = c
      · rw [if_pos hc, if_pos hc.symm]
        exact .none
      · rw [if_neg hc, if_neg (Ne.symm hc)]
        exact hb

theorem run (h : Accounts t rs) (rs' : List Request) :
    Accounts (run rs' t).2 (rs ++ rs') := by
  induction rs' generalizing t rs with
  | nil => rwa [List.append_nil]
  | cons r rs' ih =>
    rw [List.append_cons]
    exact ih (h.step r)

theorem snapshot_eq_none (h : Accounts t rs) :
    t.snapshot now campaign = none ↔ current campaign rs = [] := by
  have hb := h.books campaign
  rw [snapshot]
  generalize t.ledger? campaign = o at hb
  generalize current campaign rs = ms at hb
  cases hb with
  | none => simp
  | some h hne => simpa using hne

theorem mem_campaigns (h : Accounts t rs) :
    campaign ∈ t.campaigns ↔ current campaign rs ≠ [] := by
  have hnone : t.snapshot "" campaign = none ↔ current campaign rs = [] := h.snapshot_eq_none
  rw [← not_iff_not, not_ne_iff, ← hnone, snapshot, Option.map_eq_none_iff, ledger?,
    List.lookup_eq_none_iff, campaigns, List.mem_map]
  constructor
  · intro hc p hp
    have hne : campaign ≠ p.1 := fun heq => hc ⟨p, hp, heq.symm⟩
    simpa using hne
  · rintro hc ⟨p, hp, rfl⟩
    simpa using hc p hp

theorem tells_snapshot (h : Accounts t rs) {s : Statistics}
    (hs : t.snapshot now campaign = some s) :
    s.campaign = campaign ∧ s.Tells (current campaign rs) := by
  have hb := h.books campaign
  rw [snapshot] at hs
  generalize t.ledger? campaign = o at hb hs
  generalize current campaign rs = ms at hb
  cases hb with
  | none => cases hs
  | some h hne =>
    cases hs
    exact ⟨rfl, Statistics.tells_ofLedger h campaign now⟩

theorem figures_snapshot (h : Accounts t rs) (h' : Accounts t' rs')
    (hp : (current campaign rs).Perm (current campaign rs')) (now now' : Timestamp) :
    (t.snapshot now campaign).map Statistics.figures =
      (t'.snapshot now' campaign).map Statistics.figures := by
  have hb := h.books campaign
  have hb' := h'.books campaign
  rw [snapshot, snapshot]
  generalize t.ledger? campaign = o at hb
  generalize t'.ledger? campaign = o' at hb'
  generalize current campaign rs = ms at hp hb
  generalize current campaign rs' = ms' at hp hb'
  cases hb with
  | none =>
    cases hb' with
    | none => rfl
    | some h' hne => exact absurd (List.nil_perm.mp hp) hne
  | some h hne =>
    cases hb' with
    | none => exact absurd (List.perm_nil.mp hp) hne
    | some h' _ => exact congrArg some (Statistics.figures_ofLedger h h' hp campaign now now')

/-- At a request, the current messages of a campaign are closed or go on being current. -/
theorem closed_step (h : Accounts t rs) (r : Request) (campaign : String) :
    ∃ mss, List.Forall₂ Statistics.Tells ((t.step r).1.closed? campaign).toList mss ∧
      mss.flatten ++ current campaign (rs ++ [r]) =
        current campaign rs ++ (r.message? campaign).toList := by
  cases r with
  | record now writer c cs =>
    refine ⟨[], List.Forall₂.nil, ?_⟩
    rw [current_record, Request.message?]
    by_cases hc : c = campaign <;> simp [hc]
  | snapshot now c =>
    refine ⟨[], List.Forall₂.nil, ?_⟩
    simp [current_snapshot, Request.message?]
  | write now c format =>
    refine ⟨[], List.Forall₂.nil, ?_⟩
    simp [current_write, Request.message?]
  | reset now c =>
    have hmessage : (Request.reset now c).message? campaign = none := rfl
    rw [Tracker.step, reset_eq_snapshot, current_reset, hmessage, Option.toList_none,
      List.append_nil]
    cases hs : t.snapshot now c with
    | none =>
      refine ⟨[], List.Forall₂.nil, ?_⟩
      by_cases hc : c = campaign
      · subst hc
        rw [if_pos rfl, h.snapshot_eq_none.mp hs]
        rfl
      · rw [if_neg hc]
        rfl
    | some s =>
      obtain ⟨hname, htells⟩ := h.tells_snapshot hs
      rw [Answer.closed?, hname]
      by_cases hc : c = campaign
      · subst hc
        rw [if_pos rfl, if_pos rfl]
        exact ⟨[current c rs], .cons htells .nil, by simp⟩
      · rw [if_neg hc, if_neg hc]
        exact ⟨[], List.Forall₂.nil, rfl⟩

theorem closed_run (h : Accounts t rs) (rs' : List Request) (campaign : String) :
    ∃ mss, List.Forall₂ Statistics.Tells
        ((Tracker.run rs' t).1.filterMap (·.closed? campaign)) mss ∧
      mss.flatten ++ current campaign (rs ++ rs') =
        current campaign rs ++ messages campaign rs' := by
  induction rs' generalizing t rs with
  | nil => exact ⟨[], List.Forall₂.nil, by simp [messages]⟩
  | cons r rs' ih =>
    obtain ⟨mss₁, htells₁, heq₁⟩ := h.closed_step r campaign
    obtain ⟨mss₂, htells₂, heq₂⟩ := ih (h.step r)
    refine ⟨mss₁ ++ mss₂, ?_, ?_⟩
    · have hrun : (Tracker.run (r :: rs') t).1.filterMap (·.closed? campaign) =
          ((t.step r).1.closed? campaign).toList ++
            (Tracker.run rs' (t.step r).2).1.filterMap (·.closed? campaign) := by
        rw [Tracker.run, List.filterMap_cons]
        cases (t.step r).1.closed? campaign <;> rfl
      rw [hrun]
      exact List.rel_append htells₁ htells₂
    · rw [List.append_cons, List.flatten_append, List.append_assoc, heq₂, ← List.append_assoc,
        heq₁, List.append_assoc, messages_cons]

theorem known (h : Accounts (Tracker.run rs .empty).2 rs) (campaign : String) (now : Timestamp) :
    ∃ mss, List.Forall₂ Statistics.Tells
        ((Tracker.run rs .empty).1.filterMap (·.closed? campaign) ++
          ((Tracker.run rs .empty).2.snapshot now campaign).toList) mss ∧
      mss.flatten = messages campaign rs := by
  obtain ⟨mss, htells, heq⟩ := Accounts.empty.closed_run rs campaign
  have heq : mss.flatten ++ current campaign rs = messages campaign rs := heq
  cases hs : (Tracker.run rs .empty).2.snapshot now campaign with
  | none =>
    rw [h.snapshot_eq_none.mp hs, List.append_nil] at heq
    refine ⟨mss, ?_, heq⟩
    rwa [Option.toList_none, List.append_nil]
  | some s =>
    refine ⟨mss ++ [current campaign rs], ?_, by simpa using heq⟩
    exact List.rel_append htells (.cons (h.tells_snapshot hs).2 .nil)

end Accounts

theorem sum_renders {ss : List Statistics} {mss : List (List (List Choice))}
    (h : List.Forall₂ Statistics.Tells ss mss) :
    (ss.map (·.renders)).sum = mss.flatten.length := by
  induction h with
  | nil => rfl
  | cons htells _ ih =>
    rw [List.map_cons, List.sum_cons, List.flatten_cons, List.length_append, ih, htells.renders]

theorem sum_counts {ss : List Statistics} {mss : List (List (List Choice))}
    (h : List.Forall₂ Statistics.Tells ss mss) (g b : Nat) :
    (ss.map (·.count g b)).sum = mss.flatten.flatten.count ⟨g, b⟩ := by
  induction h with
  | nil => rfl
  | cons htells _ ih =>
    rw [List.map_cons, List.sum_cons, List.flatten_cons, List.flatten_append, List.count_append,
      ih, htells.counts]

/-- Any requests are made of a new tracker, one after another. The writers, who choose the
shards, are any numbers. -/
theorem counted_once (rs : List Request) (campaign : String) (now : Timestamp) :
    let t := (run rs .empty).2
    (t.snapshot now campaign = none ↔ current campaign rs = []) ∧
    (∀ s, t.snapshot now campaign = some s →
      s.campaign = campaign ∧ s.Tells (current campaign rs)) ∧
    (∀ rs' now', (current campaign rs).Perm (current campaign rs') →
      (t.snapshot now campaign).map Statistics.figures =
        ((run rs' .empty).2.snapshot now' campaign).map Statistics.figures) ∧
    (∀ r : Request, r.campaign ≠ campaign →
      (t.step r).2.snapshot now campaign = t.snapshot now campaign) ∧
    t.campaigns.Pairwise (fun c d => Text.bytes c < Text.bytes d) ∧
    (∀ c, c ∈ t.campaigns ↔ current c rs ≠ []) ∧
    let known := (run rs .empty).1.filterMap (·.closed? campaign) ++
      (t.snapshot now campaign).toList
    (known.map (·.renders)).sum = (messages campaign rs).length ∧
    ∀ g b, (known.map (·.count g b)).sum = (messages campaign rs).flatten.count ⟨g, b⟩ := by
  intro t
  have h : Accounts t rs := Accounts.empty.run rs
  refine ⟨h.snapshot_eq_none, fun s => h.tells_snapshot, ?_, ?_, ?_, fun c => h.mem_campaigns, ?_⟩
  · intro rs' now' hp
    exact h.figures_snapshot (Accounts.empty.run rs') hp now now'
  · intro r hr
    rw [snapshot, snapshot, ledger?_step_of_ne t hr]
  · exact h.ascending.imp Text.bytes_lt_bytes
  · obtain ⟨mss, htells, hmss⟩ := h.known campaign now
    rw [← hmss]
    exact ⟨sum_renders htells, sum_counts htells⟩

theorem counted_once_twice :
    let rs : List Request := [.record "1" 3 "a" [⟨0, 1⟩, ⟨1, 0⟩], .record "2" 4 "b" [],
      .record "3" 19 "a" [⟨0, 1⟩], .reset "4" "b"]
    let rs' : List Request := [.record "1" 0 "a" [], .reset "2" "a", .record "3" 1 "a" [⟨0, 1⟩],
      .record "4" 2 "a" [⟨0, 1⟩, ⟨1, 0⟩]]
    let t := (run rs .empty).2
    (current "a" rs).Perm (current "a" rs') ∧
      (∃ s, t.snapshot "5" "a" = some s ∧ s.Tells [[⟨0, 1⟩, ⟨1, 0⟩], [⟨0, 1⟩]]) ∧
      (t.snapshot "5" "a").map Statistics.figures =
        ((run rs' .empty).2.snapshot "6" "a").map Statistics.figures ∧
      (t.step (.reset "7" "b")).2.snapshot "5" "a" = t.snapshot "5" "a" := by
  intro rs rs' t
  have hperm : (current "a" rs).Perm (current "a" rs') := by decide
  have hne : (Request.reset "7" "b").campaign ≠ "a" := by decide
  obtain ⟨hnone, htells, horder, hframe, -⟩ := counted_once rs "a" "5"
  refine ⟨hperm, ?_, horder rs' "6" hperm, hframe (.reset "7" "b") hne⟩
  cases hs : t.snapshot "5" "a" with
  | none => exact absurd (hnone.mp hs) (by decide)
  | some s => exact ⟨s, rfl, (htells s hs).2⟩

end Spintax.Tracker
