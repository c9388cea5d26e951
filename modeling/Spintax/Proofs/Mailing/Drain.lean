import Mathlib
import Spintax.Proofs.Mailing.Turns

namespace Spintax

namespace Outcome

def choices? : Drawn (Except RenderError Rendered) → Option (List Choice)
  | .ok (.ok m, _) => some m.choices
  | _ => none

theorem isSuccess_ofDrawn (id : String) (drawn : Drawn (Except RenderError Rendered)) :
    (ofDrawn id drawn).isSuccess = (choices? drawn).isSome := by
  obtain e | ⟨e | m, s⟩ := drawn <;> rfl

end Outcome

structure Rendering where
  now : Timestamp
  writer : Nat
  recipient : Recipient

/-- A mailing as it is asked for, and what each recipient draws. -/
structure Plan where
  campaign : String
  limit : Nat
  recipients : List Recipient
  drawn : Recipient → Drawn (Except RenderError Rendered)

def Task.rendered? (t : Task) : Option Recipient :=
  t.stage.outcome?.map fun _ => t.recipient

namespace Plan

def outcome (p : Plan) (r : Recipient) : Outcome :=
  .ofDrawn r.id (p.drawn r)

def enter (p : Plan) (tracker : Tracker) (e : Rendering) : Tracker :=
  match Outcome.choices? (p.drawn e.recipient) with
  | some choices => tracker.record e.now e.writer p.campaign choices
  | none => tracker

variable {p : Plan} {s s' : Shift} {now : Timestamp} {o : Option Outcome} {tracker : Tracker}
  {done : List Recipient} {made : List Rendering}

/-- The mailing is the one that is asked for, and nothing has gone wrong with it. -/
structure Governs (p : Plan) (s : Shift) : Prop where
  campaign : s.run.campaign = p.campaign
  limit : s.run.limit = p.limit
  source : ∀ i, s.run.source i = p.recipients[i]?
  drawn : ∀ n r, s.run.template.renderRandom s.mailer.policy r.values (s.mailer.supply n) =
    p.drawn r
  cancelled : s.run.cancelled = false
  numbered : s.run.Numbered
  room : s.run.tasks.length ≤ p.limit
  taken : s.run.taken ≤ p.recipients.length
  exhausted : s.run.exhausted = true → s.run.taken = p.recipients.length
  closed : s.run.closed = true → s.run.exhausted = true ∧ s.run.tasks = []
  outcomes : ∀ t ∈ s.run.tasks, ∀ o, t.stage.outcome? = some o → o = p.outcome t.recipient

/-- Those who are done and those at work are the recipients that were taken, and the tracker has
the renderings that were made for them. -/
structure Accounts (p : Plan) (tracker : Tracker) (done : List Recipient)
    (made : List Rendering) (s : Shift) : Prop where
  everyone : (done ++ s.run.tasks.map (·.recipient)).Perm (p.recipients.take s.run.taken)
  order : p.limit = 1 →
    done ++ s.run.tasks.map (·.recipient) = p.recipients.take s.run.taken
  rendered : (made.map (·.recipient)).Perm (done ++ s.run.tasks.filterMap Task.rendered?)
  entered : s.mailer.tracker = made.foldl p.enter tracker

theorem Governs.not_closed (hs : p.Governs s) {l us : List Task} {t : Task}
    (ht : s.run.tasks = l ++ t :: us) : ¬ s.run.closed = true := by
  intro hc
  rw [(hs.closed hc).2] at ht
  simp at ht

theorem Governs.turn (hs : p.Governs s) (h : s.Turn now o s') : p.Governs s' := by
  have hnum := h.numbered hs.numbered
  have hroom := hs.room
  have hout := hs.outcomes
  cases h with
  | @schedule r hcancel he hlt hr =>
    rw [hs.source] at hr
    have htaken := (List.getElem?_eq_some_iff.mp hr).1
    refine { hs with numbered := hnum, room := ?_, taken := htaken, exhausted := ?_,
                     closed := ?_, outcomes := ?_ }
    · simpa [hs.limit] using hlt
    · simp [he]
    · intro hc
      rw [(hs.closed hc).1] at he
      cases he
    · intro t ht o ho
      obtain ht | ht := List.mem_append.mp ht
      · exact hout t ht o ho
      · cases List.mem_singleton.mp ht
        cases ho
  | exhaust he hr =>
    rw [hs.source, List.getElem?_eq_none_iff] at hr
    refine { hs with numbered := hnum, exhausted := ?_, closed := ?_ }
    · exact fun _ => Nat.le_antisymm hs.taken hr
    · exact fun hc => ⟨rfl, (hs.closed hc).2⟩
  | @advance l us t stage progress ht ho hr hp =>
    rw [ht, List.forall_mem_append, List.forall_mem_cons] at hout
    rw [ht] at hroom
    obtain ⟨hl, hout, hus⟩ := hout
    refine { hs with numbered := hnum, room := by simpa using hroom, outcomes := ?_,
                     closed := fun hc => absurd hc (hs.not_closed ht) }
    rw [List.forall_mem_append, List.forall_mem_cons]
    exact ⟨hl, fun o hstage => hout o (ho ▸ hstage), hus⟩
  | @render l us t o mailer writer ht hst hm =>
    rw [ht, List.forall_mem_append, List.forall_mem_cons] at hout
    rw [ht] at hroom
    obtain ⟨hl, -, hus⟩ := hout
    simp only [Mailer.render, Prod.mk.injEq, hs.drawn] at hm
    obtain ⟨rfl, rfl⟩ := hm
    refine { hs with numbered := hnum, room := by simpa using hroom, outcomes := ?_,
                     closed := fun hc => absurd hc (hs.not_closed ht) }
    rw [List.forall_mem_append, List.forall_mem_cons]
    refine ⟨hl, fun o hstage => ?_, hus⟩
    cases hstage
    rfl
  | @yield l us t o ht hst =>
    rw [ht, List.forall_mem_append, List.forall_mem_cons] at hout
    rw [ht] at hroom
    obtain ⟨hl, -, hus⟩ := hout
    refine { hs with numbered := hnum, room := ?_,
                     outcomes := List.forall_mem_append.mpr ⟨hl, hus⟩,
                     closed := fun hc => absurd hc (hs.not_closed ht) }
    simp only [List.length_append, List.length_cons] at hroom ⊢
    omega
  | close he ht =>
    exact { hs with numbered := hnum, closed := fun _ => ⟨he, ht⟩ }

theorem perm_insert {α : Type} {xs ys l us : List α} (a : α) (h : xs.Perm (ys ++ (l ++ us))) :
    (xs ++ [a]).Perm (ys ++ (l ++ a :: us)) :=
  calc
    (xs ++ [a]).Perm (a :: xs) := List.perm_append_singleton a xs
    List.Perm _ (a :: (ys ++ (l ++ us))) := h.cons a
    List.Perm _ (ys ++ a :: (l ++ us)) := List.perm_middle.symm
    List.Perm _ (ys ++ (l ++ a :: us)) := List.perm_middle.symm.append_left ys

theorem Accounts.turn (hs : p.Governs s) (ha : p.Accounts tracker done made s)
    (h : s.Turn now o s') : ∃ done' made', p.Accounts tracker (done ++ done') made' s' ∧
      o.toList = done'.map p.outcome := by
  obtain ⟨heveryone, horder, hrendered, hentered⟩ := ha
  cases h with
  | @schedule r hcancel he hlt hr =>
    rw [hs.source] at hr
    have htasks : ∀ u : Task, done ++ (s.run.tasks ++ [u]).map (·.recipient) =
        (done ++ s.run.tasks.map (·.recipient)) ++ [u.recipient] := by simp
    have htake : p.recipients.take (s.run.taken + 1) = p.recipients.take s.run.taken ++ [r] := by
      rw [List.take_add_one, hr, Option.toList_some]
    refine ⟨[], made, ⟨?_, fun h1 => ?_, ?_, hentered⟩, rfl⟩
    · rw [List.append_nil, htasks, htake]
      exact heveryone.append_right [r]
    · rw [List.append_nil, htasks, htake, horder h1]
    · simpa [List.filterMap_cons, Task.rendered?, TaskStage.outcome?] using hrendered
  | exhaust | close =>
    refine ⟨[], made, ?_, rfl⟩
    rw [List.append_nil]
    exact ⟨heveryone, horder, hrendered, hentered⟩
  | @advance l us t stage progress ht ho hr hp =>
    rw [ht] at heveryone horder hrendered
    refine ⟨[], made, ⟨?_, fun h1 => ?_, ?_, hentered⟩, rfl⟩
    · simpa using heveryone
    · simpa using horder h1
    · simpa [List.filterMap_cons, Task.rendered?, ho] using hrendered
  | @render l us t o mailer writer ht hst hm =>
    rw [ht] at heveryone horder hrendered
    simp only [Mailer.render, Prod.mk.injEq] at hm
    obtain ⟨rfl, rfl⟩ := hm
    have hbefore : t.rendered? = none := by simp [Task.rendered?, hst, TaskStage.outcome?]
    rw [List.filterMap_append, List.filterMap_cons_none hbefore] at hrendered
    refine ⟨[], made ++ [⟨now, writer, t.recipient⟩], ⟨?_, fun h1 => ?_, ?_, ?_⟩, rfl⟩
    · simpa using heveryone
    · simpa using horder h1
    · have hperm := perm_insert t.recipient hrendered
      simpa [List.filterMap_cons, Task.rendered?, TaskStage.outcome?] using hperm
    · rw [List.foldl_append, ← hentered]
      simp only [Mailer.record, hs.drawn, hs.campaign, List.foldl_cons, List.foldl_nil, enter]
      obtain e | ⟨e | m, u⟩ := p.drawn t.recipient <;> rfl
  | @yield l us t o ht hst =>
    have hroom := hs.room
    have hout := hs.outcomes t (by simp [ht]) o (by rw [hst]; rfl)
    have hafter : t.rendered? = some t.recipient := by
      simp [Task.rendered?, hst, TaskStage.outcome?]
    rw [ht] at heveryone horder hrendered hroom
    rw [List.filterMap_append, List.filterMap_cons_some hafter] at hrendered
    simp only [List.map_append, List.map_cons] at heveryone horder
    refine ⟨[t.recipient], made, ⟨?_, fun h1 => ?_, ?_, hentered⟩, by simp [hout]⟩
    · rw [List.append_assoc, List.singleton_append, List.map_append]
      exact (List.perm_middle.symm.append_left done).trans heveryone
    · have hl : l = [] ∧ us = [] := by
        simp only [List.length_append, List.length_cons, h1] at hroom
        exact ⟨List.eq_nil_of_length_eq_zero (by omega), List.eq_nil_of_length_eq_zero (by omega)⟩
      simpa [hl] using horder h1
    · rw [List.append_assoc, List.singleton_append, List.filterMap_append]
      exact hrendered.trans (List.perm_middle.append_left done)

theorem turn_of_step {a : Step} (hs : p.Governs s) (ha : a.Works)
    (h : s.step now a = some (o, s')) : s.Turn now o s' :=
  Shift.turn_of_step hs.numbered (fun _ => hs.cancelled) ha h

theorem Governs.follow (hs : p.Governs s) {as : List (Timestamp × Step)}
    (has : ∀ a ∈ as, a.2.Works) : p.Governs (s.follow as).2 := by
  induction as generalizing s with
  | nil => exact hs
  | cons a as ih =>
    obtain ⟨now, a⟩ := a
    obtain ⟨ha, has⟩ := List.forall_mem_cons.mp has
    rw [Shift.follow]
    split
    · exact ih hs has
    · next hstep => exact ih (hs.turn (turn_of_step hs ha hstep)) has

theorem Accounts.follow (hs : p.Governs s) (hac : p.Accounts tracker done made s)
    {as : List (Timestamp × Step)} (has : ∀ a ∈ as, a.2.Works) :
    ∃ done' made', p.Accounts tracker (done ++ done') made' (s.follow as).2 ∧
      (s.follow as).1 = done'.map p.outcome := by
  induction as generalizing s done made with
  | nil => exact ⟨[], made, by rwa [List.append_nil], rfl⟩
  | cons a as ih =>
    obtain ⟨now, a⟩ := a
    obtain ⟨ha, has⟩ := List.forall_mem_cons.mp has
    rw [Shift.follow]
    split
    · exact ih hs hac has
    · next hstep =>
      have hturn := turn_of_step hs ha hstep
      obtain ⟨done₁, made₁, hac₁, ho⟩ := hac.turn hs hturn
      obtain ⟨done₂, made₂, hac₂, hos⟩ := ih (hs.turn hturn) hac₁ has
      refine ⟨done₁ ++ done₂, made₂, by rwa [← List.append_assoc], ?_⟩
      rw [ho, hos, List.map_append]

/-- What is left to do: six steps for each recipient to come, the rest of the steps for those at
work, and one step each to find the end and to close. -/
def left (p : Plan) (s : Shift) : Nat :=
  6 * (p.recipients.length - s.run.taken) + (s.run.tasks.map (·.stage.rank)).sum +
    (!s.run.exhausted).toNat + (!s.run.closed).toNat

theorem left_lt (hs : p.Governs s) (hc : s.run.closed = false) (h : s.Turn now o s') :
    p.left s' < p.left s := by
  cases h with
  | schedule hcancel he hlt hr =>
    rw [hs.source] at hr
    have htaken := (List.getElem?_eq_some_iff.mp hr).1
    simp [left, TaskStage.rank]
    omega
  | exhaust he => simp [left, he]
  | advance ht ho hr =>
    simp [left, ht]
    omega
  | render writer ht hst =>
    simp [left, ht, hst, TaskStage.rank]
  | yield ht hst =>
    simp [left, ht, hst, TaskStage.rank]
  | close => simp [left, hc]

/-- Each step brings the mailing closer to its end, and there is always one to take. -/
theorem Governs.exists_drain (hs : p.Governs s) (hlimit : 1 ≤ p.limit) (now : Timestamp) :
    ∃ as : List (Timestamp × Step), (∀ a ∈ as, a.2.Works) ∧ (s.follow as).2.run.closed = true := by
  induction hleft : p.left s using Nat.strong_induction_on generalizing s with
  | _ n ih =>
    by_cases hc : s.run.closed = true
    · exact ⟨[], by simp, hc⟩
    · rw [Bool.not_eq_true] at hc
      obtain ⟨a, ha, o, s', hstep⟩ := s.exists_step now (hs.limit.symm ▸ hlimit)
      have hturn := turn_of_step hs ha hstep
      obtain ⟨as, has, hclosed⟩ := ih _ (hleft ▸ left_lt hs hc hturn) (hs.turn hturn) rfl
      refine ⟨(now, a) :: as, List.forall_mem_cons.mpr ⟨ha, has⟩, ?_⟩
      rw [Shift.follow, hstep]
      exact hclosed

theorem governs_start {m : Mailer} {supply : Supply} (hsupply : ∀ n, m.supply n = supply)
    (campaign : String) (t : Template) (limit : Nat) (recipients : List Recipient) :
    Governs ⟨campaign, limit, recipients, fun r => t.renderRandom m.policy r.values supply⟩
      ⟨m, .start campaign t limit (recipients[·]?)⟩ where
  campaign := rfl
  limit := rfl
  source _ := rfl
  drawn n r := by
    rw [hsupply]
    rfl
  cancelled := rfl
  numbered := ⟨List.nodup_nil, by simp [Run.start]⟩
  room := Nat.zero_le _
  taken := Nat.zero_le _
  exhausted h := by cases h
  closed h := by cases h
  outcomes t ht := by cases ht

theorem accounts_start (p : Plan) (m : Mailer) (t : Template) (source : Nat → Option Recipient) :
    p.Accounts m.tracker [] [] ⟨m, .start p.campaign t p.limit source⟩ where
  everyone := List.Perm.refl _
  order _ := rfl
  rendered := List.Perm.refl _
  entered := rfl

theorem Accounts.drained (hac : p.Accounts tracker done made s) (hs : p.Governs s)
    (hc : s.run.closed = true) : done.Perm p.recipients ∧ (p.limit = 1 → done = p.recipients) ∧
      (made.map (·.recipient)).Perm p.recipients := by
  obtain ⟨he, htasks⟩ := hs.closed hc
  obtain ⟨heveryone, horder, hrendered, -⟩ := hac
  rw [htasks] at heveryone horder hrendered
  simp only [List.map_nil, List.filterMap_nil, List.append_nil, hs.exhausted he,
    List.take_length] at heveryone horder hrendered
  exact ⟨heveryone, horder, hrendered.trans heveryone⟩

def records (p : Plan) (made : List Rendering) : List (Timestamp × Nat × List Choice) :=
  made.filterMap fun e =>
    (Outcome.choices? (p.drawn e.recipient)).map fun choices => (e.now, e.writer, choices)

theorem foldl_enter (made : List Rendering) (tracker : Tracker) :
    made.foldl p.enter tracker = (p.records made).foldl
      (fun tracker e => tracker.record e.1 e.2.1 p.campaign e.2.2) tracker := by
  rw [records, List.foldl_filterMap]
  congr 1
  funext tracker e
  unfold enter
  cases Outcome.choices? (p.drawn e.recipient) <;> rfl

theorem map_records (made : List Rendering) : (p.records made).map (·.2.2) =
    (made.map (·.recipient)).filterMap fun r => Outcome.choices? (p.drawn r) := by
  rw [records, List.map_filterMap, List.filterMap_map]
  congr 1
  funext e
  simp [Function.comp_def]

theorem length_choices (done : List Recipient) :
    (done.filterMap fun r => Outcome.choices? (p.drawn r)).length =
      (done.map p.outcome).countP Outcome.isSuccess := by
  rw [List.length_filterMap_eq_countP, List.countP_map]
  congr 1
  funext r
  exact (Outcome.isSuccess_ofDrawn r.id (p.drawn r)).symm

end Plan

/-- A mailing that nobody cancels can always be brought to its end. Its outcomes are then those
that the recipients get alone, in some order, and one after the other where there is only room
for one. The tracker has one record for each of the messages and no other. -/
theorem Shift.follow_drained {m : Mailer} {supply : Supply} (hsupply : ∀ n, m.supply n = supply)
    (campaign : String) (t : Template) {limit : Nat} (hlimit : 1 ≤ limit)
    (recipients : List Recipient) {as : List (Timestamp × Step)} (has : ∀ a ∈ as, a.2.Works) :
    let drawn := fun r : Recipient => t.renderRandom m.policy r.values supply
    let s := Shift.follow as ⟨m, .start campaign t limit (recipients[·]?)⟩
    (∃ bs : List (Timestamp × Step), (∀ b ∈ bs, b.2.Works) ∧
      (s.2.follow bs).2.run.closed = true) ∧
    (s.2.run.closed = true →
      s.1.length = recipients.length ∧
      s.1.Perm (recipients.map fun r => .ofDrawn r.id (drawn r)) ∧
      (limit = 1 → s.1 = recipients.map fun r => .ofDrawn r.id (drawn r)) ∧
      ∃ records : List (Timestamp × Nat × List Choice),
        s.2.mailer.tracker = records.foldl
          (fun tracker e => tracker.record e.1 e.2.1 campaign e.2.2) m.tracker ∧
        (records.map (·.2.2)).Perm (recipients.filterMap fun r => Outcome.choices? (drawn r)) ∧
        records.length = s.1.countP Outcome.isSuccess) := by
  intro drawn s
  have hstart := Plan.governs_start hsupply campaign t limit recipients
  have hgoverns : Plan.Governs ⟨campaign, limit, recipients, drawn⟩ s.2 := hstart.follow has
  refine ⟨hgoverns.exists_drain hlimit "", fun hc => ?_⟩
  obtain ⟨done, made, hac, hos⟩ := (Plan.accounts_start _ m t _).follow hstart has
  obtain ⟨hdone, horder, hmade⟩ := hac.drained hgoverns hc
  have hall : s.1 = done.map fun r => .ofDrawn r.id (drawn r) := hos
  rw [List.nil_append] at hdone horder
  rw [hall]
  refine ⟨by simpa using hdone.length_eq, hdone.map _, fun h1 => ?_, ?_⟩
  · rw [horder h1]
  · have hrecords := hmade.filterMap fun r => Outcome.choices? (drawn r)
    rw [← Plan.map_records (p := ⟨campaign, limit, recipients, drawn⟩)] at hrecords
    refine ⟨_, hac.entered.trans (Plan.foldl_enter made m.tracker), hrecords, ?_⟩
    have hlen := hrecords.length_eq
    rw [List.length_map] at hlen
    rw [hlen, ← (hdone.filterMap _).length_eq]
    exact Plan.length_choices (p := ⟨campaign, limit, recipients, drawn⟩) done

theorem Shift.follow_drained_two :
    let m : Mailer := .start (.empty .standard fun _ => 0) .strict .standard fun _ => .splitMix 7
    let recipients : List Recipient := [⟨"1", .ofList [("x", "y")]⟩, ⟨"1", .empty⟩]
    let as : List (Timestamp × Step) :=
      [.schedule, .schedule, .begin 1, .begin 0, .render 1 0, .render 0 1, .leave 0, .leave 1,
        .finish 1, .yield 1, .schedule, .finish 0, .yield 0, .close].map ("now", ·)
    ∃ t, Template.parse "{a|b}{{x}}" = .ok t ∧ (∀ a ∈ as, a.2.Works) ∧
      (Shift.follow as ⟨m, .start "c" t 2 (recipients[·]?)⟩).2.run.closed = true ∧
      (Shift.follow as ⟨m, .start "c" t 2 (recipients[·]?)⟩).1.Perm
        (recipients.map fun r =>
          .ofDrawn r.id (t.renderRandom .strict r.values (.splitMix 7))) := by
  intro m recipients as
  have has : ∀ a ∈ as, a.2.Works := by simp [as, Step.Works]
  obtain ⟨t, ht, hc⟩ : ∃ t, Template.parse "{a|b}{{x}}" = .ok t ∧
      (Shift.follow as ⟨m, .start "c" t 2 (recipients[·]?)⟩).2.run.closed = true :=
    ⟨_, by cbv, by cbv⟩
  have hsupply : ∀ n, m.supply n = .splitMix 7 := fun _ => rfl
  refine ⟨t, ht, has, hc, ?_⟩
  clear_value recipients as
  have h := Shift.follow_drained hsupply "c" t (Nat.le_succ 1) recipients has
  exact (h.2 hc).2.1

end Spintax
