import Spintax.Mailing.Recipient

namespace Spintax

/-- What to send to whom, and how many messages may be in the making at once. -/
structure Job where
  campaign : String
  template : String
  concurrency : Option Nat
  recipients : List Recipient
deriving DecidableEq, Repr

namespace Job

open Json

structure Draft where
  campaign : Option String
  template : Option String
  concurrency : Option (Option Nat)
  recipients : Option (List Recipient)

def Draft.empty : Draft := ⟨none, none, none, none⟩

def campaignReader (d : Draft) : Reader Draft :=
  Reader.text.map fun name => { d with campaign := some name }

def templateReader (d : Draft) : Reader Draft :=
  Reader.text.map fun body => { d with template := some body }

def concurrencyReader (d : Draft) : Reader Draft :=
  (Reader.optional .natural).map fun limit => { d with concurrency := some limit }

def recipientsReader (d : Draft) : Reader Draft :=
  (Reader.list Recipient.reader).map fun list => { d with recipients := some list }

def once (name : String) (known : Bool) (read : Reader Draft) :
    Except ReadError (Reader Draft) :=
  if known then .error (.mismatch (.duplicate name)) else .ok read

def member (d : Draft) (name : String) : Except ReadError (Reader Draft) :=
  if name = "campaign_id" then once name d.campaign.isSome (campaignReader d)
  else if name = "template" then once name d.template.isSome (templateReader d)
  else if name = "concurrency" then once name d.concurrency.isSome (concurrencyReader d)
  else if name = "recipients" then once name d.recipients.isSome (recipientsReader d)
  else .ok (Reader.skip.map fun _ => d)

def field (d : Draft) : Nat → Option (Reader Draft)
  | 0 => some (campaignReader d)
  | 1 => some (templateReader d)
  | 2 => some (concurrencyReader d)
  | 3 => some (recipientsReader d)
  | _ => none

/-- The job that the fields make up. Only its campaign and its template must be
given. -/
def ofDraft (noCampaign noTemplate : Mismatch) (d : Draft) : Except ReadError Job :=
  match d.campaign, d.template with
  | some campaign, some template =>
    .ok ⟨campaign, template, d.concurrency.getD none, d.recipients.getD []⟩
  | none, _ => .error (.mismatch noCampaign)
  | some _, none => .error (.mismatch noTemplate)

def reader : Reader Job :=
  let wanted := "struct CampaignJob with 4 elements"
  .record "struct CampaignJob" member field .empty
    (ofDraft (.missing "campaign_id") (.missing "template"))
    (ofDraft (.wrongLength 0 wanted) (.wrongLength 1 wanted))

def ofJson (text : String) : Except ReadError Job :=
  reader.decode text

end Job

end Spintax
