import Spintax.Logging.Directive
import Spintax.Logging.Event
import Spintax.Logging.Pattern.Automaton
import Spintax.Text.Lines

namespace Spintax.Logging

abbrev Filter := List Directive

def Sample.fits : Sample → Datum → Bool
  | count n, .count m => n = m
  | pattern _ t, .text s | pattern _ t, .shown s => t.isMatch s.toList
  | _, _ => false

namespace Directive

def asksValue (d : Directive) : Bool :=
  d.field.any (·.sample.isSome)

/-- Directives without the name of a span and without a value speak of events. -/
def isForEvents (d : Directive) : Bool :=
  d.span.isNone && !d.asksValue

/-- Directives with the name of a span or with a field speak of spans. -/
def isForSpans (d : Directive) : Bool :=
  d.span.isSome || d.field.isSome

def hasTarget (d : Directive) (target : String) : Bool :=
  d.target.all fun start => start.toList.isPrefixOf target.toList

def concernsEvent (d : Directive) (e : Event) : Bool :=
  d.isForEvents && d.hasTarget e.target && d.field.all fun f => e.fieldNames.contains f.name

def concernsSpan (d : Directive) (s : Span) : Bool :=
  d.isForSpans && d.hasTarget s.target && d.span.all (· = s.name) &&
    d.field.all fun f =>
      match s.fields.lookup f.name, f.sample with
      | none, _ => false
      | some _, none => true
      | some v, some sample => sample.fits v

/-- Longer targets go before shorter ones, a field before none, and later names of fields before
earlier ones. -/
def isMoreSpecific (d e : Directive) : Bool :=
  let length := fun d : Directive => (d.target.map (·.length + 1)).getD 0
  length e < length d ||
    (length d = length e && d.field.any fun f => e.field.all (·.name < f.name))

/-- Do two directives differ in nothing but their levels? The later one takes the place of the
earlier one. -/
def hasSameAim (d e : Directive) : Bool :=
  { d with level := .off } = { e with level := .off }

end Directive

namespace Filter

def ofText (text : String) : Except FilterError Filter :=
  ((Text.pieces ',' text.toList).filter (!·.isEmpty)).mapM Directive.ofText

def current : Filter → Filter
  | [] => []
  | d :: ds => if ds.any d.hasSameAim then current ds else d :: current ds

def highest (ds : List Directive) : Level :=
  ds.foldl (fun l d => l.max d.level) .off

/-- Nothing above this level is looked at, and no span above it is known. All spans have to be
known if they are asked for values. -/
def ceiling (f : Filter) : Level :=
  if f.any (·.asksValue) then .trace else highest f

/-- The most specific directive decides on an event. -/
def admitsEvent (f : Filter) (e : Event) : Bool :=
  let best := fun (best : Option Directive) d =>
    if best.any (·.isMoreSpecific d) then best else some d
  ((f.current.filter (·.concernsEvent e)).foldl best none).any (·.level.admits e.level)

/-- Within a span, all directives that speak of it count. -/
def admitsWithin (f : Filter) (level : Level) (s : Span) : Bool :=
  f.ceiling.admits s.level && (highest (f.current.filter (·.concernsSpan s))).admits level

def admits (f : Filter) (e : Event) : Bool :=
  f.ceiling.admits e.level && (f.admitsEvent e || e.spans.any (f.admitsWithin e.level))

end Filter

end Spintax.Logging
