import Mathlib.Data.List.Nodup
import Spintax.Mailing.Run

namespace Spintax

namespace TaskStage

def outcome? : TaskStage → Option Outcome
  | .waiting | .rendering => none
  | .rendered o | .leaving o | .finished o => some o

def rank : TaskStage → Nat
  | .waiting => 5
  | .rendering => 4
  | .rendered _ => 3
  | .leaving _ => 2
  | .finished _ => 1

end TaskStage

/-- The outcome for a recipient whose worker is lost before it starts. -/
def Recipient.lost (r : Recipient) : Outcome :=
  .failed ⟨r.id, .lostWorker "cancelled"⟩

def Step.number? : Step → Option Nat
  | .begin n | .render n _ | .leave n | .finish n | .lose n | .yield n => some n
  | .schedule | .cancel | .close => none

/-- The step neither cancels the mailing nor loses a worker. -/
def Step.Works : Step → Prop
  | .cancel | .lose _ => False
  | _ => True

namespace Run

variable {r : Run} {n : Nat} {t : Task}

/-- The numbers of the tasks are different, and the next task gets one of its own. -/
structure Numbered (r : Run) : Prop where
  nodup : (r.tasks.map (·.number)).Nodup
  lt : ∀ k ∈ r.tasks.map (·.number), k < r.progress.scheduled

theorem Numbered.others (h : r.Numbered) {l us : List Task} (ht : r.tasks = l ++ t :: us) :
    ∀ u ∈ l ++ us, u.number ≠ t.number := by
  have hnodup := h.nodup
  rw [ht, List.map_append, List.map_cons, List.nodup_middle, List.nodup_cons,
    ← List.map_append] at hnodup
  exact fun u hu he => hnodup.1 (he ▸ List.mem_map_of_mem hu)

theorem filter_others {us : List Task} (h : ∀ u ∈ us, u.number ≠ n) :
    us.filter (·.number ≠ n) = us :=
  List.filter_eq_self.mpr (by simpa using h)

theorem map_others {us : List Task} (h : ∀ u ∈ us, u.number ≠ n) (stage : TaskStage) :
    us.map (fun u => if u.number = n then { u with stage } else u) = us := by
  refine (List.map_congr_left fun u hu => ?_).trans (List.map_id' us)
  rw [if_neg (h u hu)]

theorem Numbered.split (h : r.Numbered) (ht : r.task? n = some t) :
    ∃ l us, r.tasks = l ++ t :: us ∧ r.tasks.filter (·.number ≠ n) = l ++ us ∧
      ∀ stage, r.move n stage = { r with tasks := l ++ { t with stage } :: us } := by
  obtain ⟨htn, l, us, htasks, -⟩ := List.find?_eq_some_iff_append.mp ht
  have htn : t.number = n := by simpa using htn
  subst htn
  obtain ⟨hl, hus⟩ := List.forall_mem_append.mp (h.others htasks)
  refine ⟨l, us, htasks, ?_, fun stage => ?_⟩
  · rw [htasks, List.filter_append, List.filter_cons_of_neg (by simp), filter_others hl,
      filter_others hus]
  · rw [move, htasks, List.map_append, List.map_cons, map_others hl, map_others hus, if_pos rfl]

end Run

namespace Shift

variable {s s' : Shift} {now : Timestamp} {a : Step} {o : Option Outcome}

/-- When each step can be taken, and what it does. -/
inductive Does (s : Shift) (now : Timestamp) : Step → Option Outcome → Shift → Prop
  | schedule {p : Recipient} (he : s.run.exhausted = false)
      (hroom : s.run.tasks.length < s.run.limit) (hp : s.run.source s.run.taken = some p)
      (hc : s.run.cancelled = false) :
      Does s now .schedule none
        { s with run :=
          { s.run with
            taken := s.run.taken + 1
            tasks := s.run.tasks ++ [⟨s.run.progress.scheduled, p, .waiting⟩]
            progress := s.run.progress.schedule } }
  | refuse {p : Recipient} (he : s.run.exhausted = false)
      (hroom : s.run.tasks.length < s.run.limit) (hp : s.run.source s.run.taken = some p)
      (hc : s.run.cancelled = true) :
      Does s now .schedule none
        { s with run := { s.run with taken := s.run.taken + 1, exhausted := true } }
  | exhaust (he : s.run.exhausted = false) (hroom : s.run.tasks.length < s.run.limit)
      (hp : s.run.source s.run.taken = none) :
      Does s now .schedule none { s with run := { s.run with exhausted := true } }
  | begin {l us : List Task} {n : Nat} {r : Recipient}
      (ht : s.run.tasks = l ++ ⟨n, r, .waiting⟩ :: us) :
      Does s now (.begin n) none
        { s with run :=
          { s.run with tasks := l ++ ⟨n, r, .rendering⟩ :: us, progress := s.run.progress.enter } }
  | render {l us : List Task} {n : Nat} {r : Recipient} {o : Outcome} {mailer : Mailer}
      (writer : Nat) (ht : s.run.tasks = l ++ ⟨n, r, .rendering⟩ :: us)
      (hm : s.mailer.render now writer s.run.campaign s.run.template r.id r.values =
        (o, mailer)) :
      Does s now (.render n writer) none
        ⟨mailer, { s.run with tasks := l ++ ⟨n, r, .rendered o⟩ :: us }⟩
  | leave {l us : List Task} {n : Nat} {r : Recipient} {o : Outcome}
      (ht : s.run.tasks = l ++ ⟨n, r, .rendered o⟩ :: us) :
      Does s now (.leave n) none
        { s with run :=
          { s.run with tasks := l ++ ⟨n, r, .leaving o⟩ :: us, progress := s.run.progress.leave } }
  | finish {l us : List Task} {n : Nat} {r : Recipient} {o : Outcome}
      (ht : s.run.tasks = l ++ ⟨n, r, .leaving o⟩ :: us) :
      Does s now (.finish n) none
        { s with run :=
          { s.run with
            tasks := l ++ ⟨n, r, .finished o⟩ :: us
            progress := s.run.progress.finish o.isSuccess } }
  | lose {l us : List Task} {n : Nat} {r : Recipient}
      (ht : s.run.tasks = l ++ ⟨n, r, .waiting⟩ :: us) :
      Does s now (.lose n) none
        ⟨{ s.mailer with meter := s.mailer.meter.count r.lost },
          { s.run with tasks := l ++ ⟨n, r, .leaving r.lost⟩ :: us }⟩
  | yield {l us : List Task} {n : Nat} {r : Recipient} {o : Outcome}
      (ht : s.run.tasks = l ++ ⟨n, r, .finished o⟩ :: us) :
      Does s now (.yield n) (some o)
        { s with run := { s.run with tasks := l ++ us, yielded := s.run.yielded + 1 } }
  | cancel : Does s now .cancel none { s with run := { s.run with cancelled := true } }
  | close (he : s.run.exhausted = true) (ht : s.run.tasks = []) (hc : s.run.closed = false) :
      Does s now .close none
        ⟨{ s.mailer with meter :=
          { s.mailer.meter with
            cancelled := s.mailer.meter.cancelled + s.run.cancelled.toNat
            sizes := s.run.yielded :: s.mailer.meter.sizes } },
          { s.run with closed := true }⟩
  | rest (he : s.run.exhausted = true) (ht : s.run.tasks = []) (hc : s.run.closed = true) :
      Does s now .close none s

theorem does_of_taskStep {n : Nat} {t : Task} (hn : s.run.Numbered)
    (ht : s.run.task? n = some t) (ha : a.number? = some n)
    (h : s.taskStep now n t a = some (o, s')) : s.Does now a o s' := by
  obtain ⟨l, us, htasks, hfilter, hmove⟩ := hn.split ht
  have hnumber : t.number = n := by simpa using List.find?_some ht
  obtain ⟨number, recipient, stage⟩ := t
  cases hnumber
  cases a with
  | schedule | cancel | close => cases ha
  | begin =>
    cases ha
    cases stage <;> cases h
    rw [hmove]
    exact .begin htasks
  | render _ writer =>
    cases ha
    cases stage <;> cases h
    rw [hmove]
    exact .render writer htasks rfl
  | leave =>
    cases ha
    cases stage <;> cases h
    rw [hmove]
    exact .leave htasks
  | finish =>
    cases ha
    cases stage <;> cases h
    rw [hmove]
    exact .finish htasks
  | lose =>
    cases ha
    cases stage <;> cases h
    rw [hmove]
    exact .lose htasks
  | yield =>
    cases ha
    cases stage <;> cases h
    rw [hfilter]
    exact .yield htasks

/-- Everything that is shown of the steps of a mailing rests on this. -/
theorem does_of_step (hn : s.run.Numbered) (h : s.step now a = some (o, s')) :
    s.Does now a o s' := by
  cases a with
  | schedule =>
    simp only [step] at h
    split at h
    · cases h
    · next hroom =>
      cases h
      simp only [Bool.or_eq_true, decide_eq_true_eq, not_or, Bool.not_eq_true, Nat.not_le] at hroom
      obtain ⟨he, hroom⟩ := hroom
      rw [Run.schedule]
      split
      · next hp => exact .exhaust he hroom hp
      · next p hp =>
        split
        · next hc => exact .refuse he hroom hp hc
        · next hc => exact .schedule he hroom hp (Bool.eq_false_iff.mpr hc)
  | cancel =>
    cases h
    exact .cancel
  | close =>
    simp only [step] at h
    split at h
    · next he =>
      cases h
      rw [Bool.and_eq_true, List.isEmpty_iff] at he
      rw [Run.close]
      split
      · next hc => exact .rest he.1 he.2 hc
      · next hc => exact .close he.1 he.2 (Bool.eq_false_iff.mpr hc)
    · cases h
  | begin n | render n | leave n | finish n | lose n | yield n =>
    simp only [step] at h
    split at h
    · next t ht => exact does_of_taskStep hn ht rfl h
    · cases h

/-- What a step of a mailing that goes its way can do: what it yields, and what it leaves. -/
inductive Turn (s : Shift) (now : Timestamp) : Option Outcome → Shift → Prop
  | schedule {p : Recipient} (hc : s.run.cancelled = false) (he : s.run.exhausted = false)
      (hroom : s.run.tasks.length < s.run.limit) (hp : s.run.source s.run.taken = some p) :
      Turn s now none
        { s with run :=
          { s.run with
            taken := s.run.taken + 1
            tasks := s.run.tasks ++ [⟨s.run.progress.scheduled, p, .waiting⟩]
            progress := s.run.progress.schedule } }
  | exhaust (he : s.run.exhausted = false) (hp : s.run.source s.run.taken = none) :
      Turn s now none { s with run := { s.run with exhausted := true } }
  | advance {l us : List Task} {t : Task} {stage : TaskStage} {progress : Progress}
      (ht : s.run.tasks = l ++ t :: us) (ho : stage.outcome? = t.stage.outcome?)
      (hr : stage.rank < t.stage.rank) (hp : progress.scheduled = s.run.progress.scheduled) :
      Turn s now none
        { s with run := { s.run with tasks := l ++ { t with stage } :: us, progress } }
  | render {l us : List Task} {t : Task} {o : Outcome} {mailer : Mailer} (writer : Nat)
      (ht : s.run.tasks = l ++ t :: us) (hs : t.stage = .rendering)
      (hm : s.mailer.render now writer s.run.campaign s.run.template t.recipient.id
        t.recipient.values = (o, mailer)) :
      Turn s now none
        ⟨mailer, { s.run with tasks := l ++ { t with stage := .rendered o } :: us }⟩
  | yield {l us : List Task} {t : Task} {o : Outcome} (ht : s.run.tasks = l ++ t :: us)
      (hs : t.stage = .finished o) :
      Turn s now (some o)
        { s with run := { s.run with tasks := l ++ us, yielded := s.run.yielded + 1 } }
  | close {meter : MailerMeter} (he : s.run.exhausted = true) (ht : s.run.tasks = []) :
      Turn s now none ⟨{ s.mailer with meter }, { s.run with closed := true }⟩

theorem Turn.numbered (h : s.Turn now o s') (hn : s.run.Numbered) : s'.run.Numbered := by
  obtain ⟨hnodup, hlt⟩ := hn
  cases h with
  | @schedule p =>
    have hmap : (s.run.tasks ++ [Task.mk s.run.progress.scheduled p .waiting]).map (·.number) =
        s.run.tasks.map (·.number) ++ [s.run.progress.scheduled] := List.map_append
    constructor
    · rw [hmap, List.nodup_append]
      refine ⟨hnodup, List.nodup_singleton _, fun k hk k' hk' => ?_⟩
      cases List.mem_singleton.mp hk'
      exact Nat.ne_of_lt (hlt k hk)
    · rw [hmap]
      intro k hk
      obtain hk | hk := List.mem_append.mp hk
      · exact Nat.lt_succ_of_lt (hlt k hk)
      · cases List.mem_singleton.mp hk
        exact Nat.lt_succ_self _
  | exhaust | close => exact ⟨hnodup, hlt⟩
  | advance ht ho hr hp =>
    rw [ht] at hnodup hlt
    exact ⟨by simpa using hnodup, by simpa [hp] using hlt⟩
  | render writer ht =>
    rw [ht] at hnodup hlt
    exact ⟨by simpa using hnodup, by simpa using hlt⟩
  | @yield l us t o ht =>
    have hsub : (l ++ us).Sublist s.run.tasks := by
      rw [ht]
      exact (List.sublist_cons_self t us).append_left l
    have hsub := hsub.map (·.number)
    exact ⟨hnodup.sublist hsub, fun k hk => hlt k (hsub.subset hk)⟩

theorem Does.turn (h : s.Does now a o s') (hc : a = .schedule → s.run.cancelled = false)
    (ha : a.Works) : s.Turn now o s' := by
  cases h with
  | cancel | lose => cases ha
  | schedule he hroom hp hcancel => exact .schedule hcancel he hroom hp
  | refuse he hroom hp hcancel => exact absurd ((hc rfl).symm.trans hcancel) Bool.false_ne_true
  | exhaust he hroom hp => exact .exhaust he hp
  | begin ht | leave ht => exact .advance ht rfl (Nat.lt_succ_self _) rfl
  | finish ht =>
    refine .advance ht rfl (Nat.lt_succ_self _) ?_
    unfold Progress.finish
    split <;> rfl
  | render writer ht hm => exact .render writer ht rfl hm
  | yield ht => exact .yield ht rfl
  | close he ht => exact .close he ht
  | rest he ht hclosed =>
    obtain ⟨mailer, run⟩ := s
    have hrun : run = { run with closed := true } := by rw [← hclosed]
    rw [hrun]
    exact .close he ht

theorem turn_of_step (hn : s.run.Numbered) (hc : a = .schedule → s.run.cancelled = false)
    (ha : a.Works) (h : s.step now a = some (o, s')) : s.Turn now o s' :=
  (does_of_step hn h).turn hc ha

theorem exists_step (now : Timestamp) (hlimit : 1 ≤ s.run.limit) :
    ∃ a, a.Works ∧ ∃ o s', s.step now a = some (o, s') := by
  cases htasks : s.run.tasks with
  | nil =>
    cases he : s.run.exhausted with
    | true => exact ⟨.close, trivial, by simp [step, he, htasks]⟩
    | false =>
      have hroom : ¬ s.run.limit = 0 := by omega
      exact ⟨.schedule, trivial, by simp [step, he, htasks, hroom]⟩
  | cons t us =>
    have ht : s.run.task? t.number = some t := by simp [Run.task?, htasks]
    obtain ⟨number, recipient, stage⟩ := t
    cases stage with
    | waiting => exact ⟨.begin number, trivial, by simp [step, ht, taskStep]⟩
    | rendering => exact ⟨.render number 0, trivial, by simp [step, ht, taskStep]⟩
    | rendered o => exact ⟨.leave number, trivial, by simp [step, ht, taskStep]⟩
    | leaving o => exact ⟨.finish number, trivial, by simp [step, ht, taskStep]⟩
    | finished o => exact ⟨.yield number, trivial, by simp [step, ht, taskStep]⟩

/-- Take some steps, each at its own time, and collect what they yield. One that cannot be taken
is passed over. -/
def follow : List (Timestamp × Step) → Shift → List Outcome × Shift
  | [], s => ([], s)
  | (now, a) :: as, s =>
    match s.step now a with
    | none => follow as s
    | some (o, s) => (o.toList ++ (follow as s).1, (follow as s).2)

theorem perform_eq_follow (now : Timestamp) (as : List Step) (s : Shift) :
    perform now as s = follow (as.map (now, ·)) s := by
  induction as generalizing s with
  | nil => rfl
  | cons a as ih =>
    rw [perform, List.map_cons, follow]
    cases s.step now a with
    | none => exact ih s
    | some os =>
      obtain ⟨o, s⟩ := os
      simp only [ih]

end Shift

end Spintax
