import Spintax.Command.Execute
import Spintax.Proofs.Mailing.Frames
import Spintax.Proofs.Mailing.Jobs
import Spintax.Proofs.Mailing.Sequence

namespace Spintax

theorem Template.outcome_congr {t : Template} (ht : t.groupCount = 0) (policy : Policy)
    {rs rs' : List Recipient} (h : List.Forall₂ Recipient.Alike rs rs') :
    rs.map (t.outcome policy) = rs'.map (t.outcome policy) := by
  induction h with
  | nil => rfl
  | @cons r r' rs rs' hr _ ih =>
    have houtcome : t.outcome policy r = t.outcome policy r' := by
      rw [outcome_eq ht, outcome_eq ht, render_congr ht policy hr.values, hr.id]
    rw [List.map_cons, List.map_cons, houtcome, ih]

theorem Mailer.accept_start (limits : Cache.Limits) (fingerprint : String → UInt32)
    (policy : Policy) {concurrency : Concurrency} (supply : Nat → Supply) {text : String}
    {t : Template} {request : Option Nat} {limit : Nat} (ht : Template.parse text = .ok t)
    (hl : concurrency.limit request = .ok limit) :
    ∃ m, (start (.empty limits fingerprint) policy concurrency supply).accept 0 text request =
        (.ok (limit, t), m) ∧ m.policy = policy ∧ m.tracker = .empty := by
  have hfind : ∀ key, Cache.Store.empty.find? key text = none := fun _ => rfl
  have hresolve : ∃ c, (Cache.empty limits fingerprint).resolve 0 text = (.ok ⟨0, t⟩, c) := by
    simp [Cache.resolve, Cache.get, Cache.lookup, Cache.empty, hfind, Cache.lead, Cache.miss,
      Cache.parseAndKeep, Cache.parse, ht, Cache.Stats.zero]
  obtain ⟨c, hresolve⟩ := hresolve
  simp only [accept, start, hl, hresolve]
  exact ⟨_, rfl, rfl, rfl⟩

namespace Command

def account (summary : Summary) (format : ExportFormat) (now : Timestamp) (runId : String) :
    String :=
  let tracker := Tracker.empty.recordAll summary.campaign
    (List.replicate summary.succeeded (now, 0, []))
  (match tracker.export now summary.campaign format with
    | .ok text => text ++ "\n"
    | .error _ => "") ++ (summary.toJson runId).pretty ++ "\n"

theorem send_plain (w : World) (shift : Shift) {rs : List Recipient} (h : shift.run.Awaits rs)
    (ht : shift.run.template.groupCount = 0) (hempty : shift.mailer.tracker = .empty)
    (format : ExportFormat) :
    let os := rs.map (shift.run.template.outcome shift.mailer.policy)
    send w shift rs.length format = ⟨0, (Message.lines (Outcome.messages os)).toUTF8,
      account (.ofOutcomes shift.run.campaign os) format w.now w.runId⟩ := by
  intro os
  obtain ⟨s', hdeliver, htracker⟩ := Shift.deliverTo_plain h ht w.now
  rw [hempty] at htracker
  rw [send, hdeliver]
  dsimp only
  rw [htracker, List.map_const']
  rfl

/-- The command line asks for a job with one worker, and maybe for the recipients in a file. All
that the job needs is there. -/
structure Asks (w : World) (words : List String) (s : Settings) (job : Job) (list : Option String)
    (format : ExportFormat) : Prop where
  prepared : ∃ filter, prepare w = .ok (s, filter)
  limits : ∃ limits, Cache.Limits.make s.capacity (s.maxAgeSeconds * 1000) = .ok limits
  invoked : ∃ file text request wanted,
    Invocation.ofWords? w.env words = some (.run file list request wanted) ∧
    w.files.text file = .ok text ∧ job.Holds text ∧
    s.concurrency.limit (request <|> job.concurrency) = .ok 1 ∧
    wanted.getD s.exportFormat = format

def listed (w : World) (list : Option String) : Except FileError (List Recipient) :=
  match list with
  | some name => (w.files.bytes name).map Roster.ofBytes
  | none => .ok []

variable {w w' : World} {words words' : List String} {s : Settings} {format : ExportFormat}
  {t : Template}

/-- What a command leaves behind depends on its recipients in their order. -/
theorem Asks.execute {job : Job} {list : Option String} {rs back : List Recipient}
    (h : Asks w words s job list format) (hrs : listed w list = .ok rs)
    (hback : List.Forall₂ Recipient.Alike back rs) (ht : Template.parse job.template = .ok t)
    (hgroups : t.groupCount = 0) :
    let os := (job.recipients ++ back).map (t.outcome s.policy)
    execute w words = ⟨0, (Message.lines (Outcome.messages os)).toUTF8,
      account (.ofOutcomes job.campaign os) format w.now w.runId⟩ := by
  intro os
  obtain ⟨filter, hprepare⟩ := h.prepared
  obtain ⟨limits, hlimits⟩ := h.limits
  obtain ⟨file, text, request, wanted, hwords, hfile, hholds, hlimit, hformat⟩ := h.invoked
  obtain ⟨⟨campaign, template, n, front⟩, hjob, halike⟩ := hholds.exists_read
  obtain ⟨hcampaign, htemplate, hn, hfront⟩ := halike
  dsimp only at hcampaign htemplate hn hfront
  have hos : os = (front ++ rs).map (t.outcome s.policy) :=
    t.outcome_congr hgroups s.policy (List.rel_append hfront hback)
  rw [htemplate] at ht
  rw [hn] at hlimit
  obtain ⟨m, haccept, hpolicy, hempty⟩ := Mailer.accept_start limits Text.crc32
    s.policy w.supply ht hlimit
  have hrun : run w s file list request wanted = .ok (send w
      ⟨m, .start campaign t 1 ((front ++ rs)[·]?)⟩ (front ++ rs).length format) := by
    cases list with
    | none =>
      cases hrs
      simp only [run, hfile, withFile, Except.mapError, bind, Except.bind, hjob, hlimits, haccept,
        hformat, List.size_toArray, List.getElem?_toArray]
      rfl
    | some name =>
      obtain ⟨bytes, hbytes, rfl⟩ := Result.map_eq_ok.mp hrs
      simp only [run, hfile, withFile, Except.mapError, bind, Except.bind, hjob, hlimits, haccept,
        hformat, hbytes, Except.map, List.size_toArray, List.getElem?_toArray]
      rfl
  have hsend := send_plain w ⟨m, .start campaign t 1 ((front ++ rs)[·]?)⟩
    (Run.awaits_start _ _ _) hgroups hempty format
  rw [Command.execute, hwords, hprepare, hos, hcampaign]
  simp only [perform, hrun]
  rw [hsend]
  dsimp only
  rw [hpolicy]
  rfl

end Command

end Spintax
