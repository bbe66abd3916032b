import CrateAudit.Settings
import CrateAudit.SourceMap

namespace CrateAudit

inductive Origin where
  | notMacro
  | localMacro
  | externalMacro
  | deriveMacro
deriving DecidableEq

namespace Origin

def word : Origin → String
  | notMacro => "NotMacro"
  | localMacro => "LocalMacro"
  | externalMacro => "ExternalMacro"
  | deriveMacro => "DeriveMacro"

def all : List Origin :=
  [notMacro, localMacro, externalMacro, deriveMacro]

end Origin

namespace SourceMap

open Crate

/-- A macro is external unless it is written `name!(…)` and its definition, found in the source,
starts like one. -/
def isExternal (m : SourceMap) (settings : Settings) (e : Expansion) : Except SourceError Bool :=
  match e.format, e.defSite with
  | .bang, some site => do
    match ← m.snippet? site with
    | some code => return !settings.definitionKeywords.any fun k => k.toList.isPrefixOf code.toList
    | none => return true
  | _, _ => .ok true

/-- The text at the span itself or, failing that, where the macro was called. -/
def siteText (m : SourceMap) (s : Span) (e : Expansion) : Except SourceError String := do
  match ← m.snippet? s, e.callSite with
  | some text, _ => return text
  | none, some site => return (← m.snippet? site).getD ""
  | none, none => return ""

def origin (m : SourceMap) (settings : Settings) (s : Span) : Except SourceError Origin :=
  match m.expansion? s with
  | none => .ok .notMacro
  | some e => do
    if !(← m.isExternal settings e) then return .localMacro
    if settings.isDeriveName (← m.siteText s e) then return .deriveMacro
    return .externalMacro

def definitionNotes (m : SourceMap) (e : Expansion) : List Log.Entry :=
  match e.format, e.defSite with
  | .bang, some site =>
    match m.snippet? site with
    | .ok none =>
      [⟨.debug, .origins,
        "Definition of expansion " ++ toString e.id ++ " has no source text", none⟩]
    | _ => []
  | _, _ => []

def originNotes (m : SourceMap) (s : Span) : List Log.Entry :=
  m.expansionNotes s ++ ((m.expansion? s).map m.definitionNotes).getD []

end SourceMap

end CrateAudit
