/-
  RuleTree.Importer.Builder — importers and how they are put together.

  The schema of an importer is one that is given, else the text of the options, else their
  file; text and file together are refused. Hooks are attached last, in order.
-/

import RuleTree.Convert.Import
import RuleTree.Ids
import RuleTree.Importer.Config
import RuleTree.Schema.Load

namespace RuleTree

inductive BuildError where
  /-- Text and file of a schema are both set. -/
  | twoSources
  | load (cause : LoadError)
  | schema (cause : SchemaError)
  | missingSchema
deriving DecidableEq, Repr

def BuildError.message (detail : String) : BuildError → String
  | twoSources => "Configuration error: Both schema content and schema file are set"
  | load cause => "Import error: " ++ cause.message detail
  | schema cause => "Schema error: " ++ cause.message
  | missingSchema => "No schema configured"

structure Importer where
  converter : Converter
  config : Config
  customFields : Bool
  customWidgets : Bool

structure Builder where
  config : Config := {}
  schema : Option Schema := none
  hooks : List (String × Hook) := []
  fields : Option Resolver := none
  widgetFor : Option (String → String → Option String) := none
  format : Option (Instant → String → String) := none

/-! ## Building -/

/-- The schema the options name. -/
def Config.loadSchema (c : Config) (files : String → Option ByteArray) :
    Except BuildError Schema :=
  match c.schemaContent, c.schemaFile with
  | some _, some _ => .error .twoSources
  | some text, none => (Schema.ofText text).mapError .load
  | none, some path => (Schema.ofFile files path).mapError .load
  | none, none => .error .missingSchema

/-- Hooks attached in order. -/
def Schema.attachAll (s : Schema) (hooks : List (String × Hook)) : Except SchemaError Hooks :=
  hooks.foldlM (fun acc (func, hook) => acc.attach s func hook) []

/-- A converter with collaborators in place of the schema's own. -/
def Converter.withCollaborators (c : Converter) (fields : Option Resolver)
    (widgetFor : Option (String → String → Option String))
    (format : Option (Instant → String → String)) : Converter :=
  { c with
    fields := fields.getD c.fields
    widgetFor := widgetFor.getD c.widgetFor
    format := format.getD c.format }

def Builder.build (b : Builder) (files : String → Option ByteArray) :
    Except BuildError Importer := do
  let s ← match b.schema with
    | some s => pure s
    | none => b.config.loadSchema files
  let hooks ← (s.attachAll b.hooks).mapError .schema
  return {
    converter := (Converter.ofSchema s hooks).withCollaborators b.fields b.widgetFor b.format
    config := b.config
    customFields := b.fields.isSome
    customWidgets := b.widgetFor.isSome }

/-! ## Importing -/

namespace Importer

def schema (i : Importer) : Schema := i.converter.schema

/-- The names of the nodes of one import; the seed serves random ones. -/
def ids (i : Importer) (seed : UInt64) : Nat → String :=
  if i.config.deterministicIds then Ids.sequential "" else Ids.random seed

def importExpr (i : Importer) (seed : UInt64) (e : Json) : Option (Outcome String) :=
  i.converter.importTree (i.ids seed) 0 e

def report (i : Importer) : String :=
  Config.shownMembers "Importer" [
    ("fields", toString i.schema.fields.length),
    ("custom_field_resolver", Config.shownBool i.customFields),
    ("custom_widget_selector", Config.shownBool i.customWidgets),
    ("config", i.config.report)]

end Importer
end RuleTree
