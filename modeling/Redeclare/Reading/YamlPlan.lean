import Redeclare.Reading.Yaml
import Redeclare.Transformer.Plan

/-!
# Reading plans from YAML texts

There are two ways to write a variant with content in YAML: with a tag in front
of the content, or as a mapping with the name of the variant as its only key.
A variant without content is its name alone.
-/

namespace Redeclare

open Yaml

namespace Yaml.Place

/-- A variant in a document: its name, and its content if it has any. -/
abbrev Variant := String × Option Place

/-- Whether the place is the root of a document without any node. -/
def isAbsent (p : Place) : Bool :=
  p.document.root.isNone

/-- Reads the node that an alias stands for as if it stood here. -/
def throughAlias {α : Type} (read : Place → ReadM α) (p : Place) : ReadM α :=
  match p.node with
  | .alias _ =>
    locate p.path do
      read (← p.follow)
  | _ => read p

/-- Reads the content of a variant that has none: nothing, or one of the texts of nothing. -/
def readNothing (p : Place) : ReadM Unit :=
  locate p.path do
    match p.node with
    | .scalar _ _ text style =>
      if style = .plain && (text.isEmpty || isNull text) then pure ()
      else refuse (.invalidValue (.str text) .nullText)
    | node => refuse (wrongKind node .unit)

/-! ## Tags -/

/-- A variant that a tag names.  Without a tag a scalar is the name of a variant. -/
def taggedVariant (p : Place) : ReadM Variant :=
  match p.node with
  | .scalar _ tag text _ =>
    match localTag? tag with
    | some name => pure (name, some p)
    | none => pure (text, none)
  | .sequence _ tag _ | .mapping _ tag _ =>
    match localTag? tag with
    | some name => pure (name, some p)
    | none => locate p.path (refuse (wrongKind p.node .tag))
  | .alias _ => refuse .tooManyAliases

/-- Refuses the name of a variant.  A name that is a tag is not yet at a place of its own. -/
def refuseTagged {α : Type} (p : Place) (variant : Variant) (known : List String) : ReadM α :=
  let fault := .unknownVariant variant.1 known
  if variant.2.isSome then refuse fault else locate p.path (refuse fault)

/-! ## Keys -/

/-- A variant that the only key of a mapping names, with the rest of the mapping.  A text without
a mapping is the name of a variant. -/
def keyedVariant (kind : VariantKind) (p : Place) : ReadM (Variant × List (Place × Place)) := do
  if p.isAbsent then refuse (.invalidType .absent (.variant kind))
  else
    let tagged := .invalidType .tagged (.variant kind)
    match p.node with
    | .scalar _ tag text style =>
      if (localTag? tag).isSome then refuse tagged
      else
        match scalarValue tag text style with
        | .ok (.str name) => return ((name, none), [])
        | .ok value => refuse (.invalidType (.ofValue value) (.variant kind))
        | .error fault => refuse fault
    | .sequence _ tag _ =>
      if (localTag? tag).isSome then refuse tagged
      else
        let _ ← p.items
        refuse (.invalidType .seq (.variant kind))
    | .mapping _ tag _ =>
      if (localTag? tag).isSome then refuse tagged
      else
        match ← p.pairs (.variant kind) with
        | [] => refuse (.invalidValue .map .singleKey)
        | (key, content) :: rest =>
          let name ← key.readText .variantName anyText
          return ((name, some content), rest)
    | .alias _ => refuse .tooManyAliases

/-- Reads the content of a variant that is written as a mapping, which must not have a second
key. -/
def readOnly {α : Type} (read : Place → ReadM α) (content : Place) (rest : List (Place × Place)) :
    ReadM α := do
  let a ← read content
  if rest.isEmpty then return a else refuse (.invalidValue .map .singleKey)

end Yaml.Place

/-! ## Named choices -/

namespace ModifierName

/-- Reads a named choice that may be a tag. -/
def readTagged : Place → ReadM ModifierName :=
  Place.throughAlias fun p => do
    let variant ← p.taggedVariant
    match ofText? variant.1, variant.2 with
    | none, _ => p.refuseTagged variant (all.map text)
    | some n, none => return n
    | some n, some content =>
      content.readNothing
      return n

/-- Reads a named choice that may be the key of a mapping. -/
def readKeyed (p : Place) : ReadM ModifierName :=
  locate p.path do
    let p ← p.follow
    let (variant, _) ← p.keyedVariant .modifierName
    match ofText? variant.1, variant.2 with
    | none, _ => refuse (.unknownVariant variant.1 (all.map text))
    | some n, none => return n
    | some _, some _ => refuse (.invalidType .map .unitVariant)

end ModifierName

/-! ## Plans -/

namespace Plan

/-- A plan with content where there is none. -/
def lacksContent : Fault := .invalidType .unitVariant .newtypeVariant

/-- Reads a plan whose variants are tags.  `fuel` bounds how deep plans nest. -/
def readTaggedPlace : Nat → Place → ReadM Plan
  | 0, _ => refuse .tooDeep
  | fuel + 1, p => p.throughAlias fun p => do
    if p.isAbsent then refuse .endOfDocument
    else
      let variant ← p.taggedVariant
      match variant with
      | ("noop", none) => return .noop
      | ("noop", some content) =>
        content.readNothing
        return .noop
      | ("override", some content) => .override <$> content.readList ModifierName.readTagged
      | ("chain", some content) => .chain <$> content.readList (readTaggedPlace fuel)
      | ("override", none) | ("chain", none) => locate p.path (refuse lacksContent)
      | _ => p.refuseTagged variant variants

/-- Reads a plan whose variants are the keys of mappings.  `fuel` bounds how deep plans nest. -/
def readKeyedPlace : Nat → Place → ReadM Plan
  | 0, _ => refuse .tooDeep
  | fuel + 1, p =>
    locate p.path do
      let p ← p.follow
      let (variant, rest) ← p.keyedVariant .plan
      match variant with
      | ("noop", none) => return .noop
      | ("noop", some _) => refuse (.invalidType .map .unitVariant)
      | ("override", some content) =>
        .override <$> Place.readOnly (Place.readList ModifierName.readKeyed) content rest
      | ("chain", some content) =>
        .chain <$> Place.readOnly (Place.readList (readKeyedPlace fuel)) content rest
      | ("override", none) | ("chain", none) => refuse lacksContent
      | (name, _) => refuse (.unknownVariant name variants)

/-- Reads a plan from a text in YAML that names variants by tags. -/
def readTagged (text : String) : Except TextFault Plan :=
  readDocument (fun d => readTaggedPlace (maxDepth + 1) d.rootPlace) text

/-- Reads a plan from a text in YAML that names variants by keys. -/
def readKeyed (text : String) : Except TextFault Plan :=
  readDocument (fun d => readKeyedPlace (maxDepth + 1) d.rootPlace) text

end Plan

end Redeclare
