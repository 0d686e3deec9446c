import MetaBlocks.Load
import MetaBlocks.Settings

/-!
Settings written in YAML: a mapping with a section for each group. What is not written keeps its
default, and no field may be unknown or written twice.
-/

set_option autoImplicit false
set_option relaxedAutoImplicit false

namespace MetaBlocks.Settings

open Yaml Yaml.Decode

def neighborNames : List (String × Neighbors) := [("both", .both), ("either", .either)]

def detectionFields : List (RecordField DetectionRules) := [
  .of "rule_neighbors" (choice neighborNames) fun v s => { s with neighbors := v },
  .of "missing_neighbor_is_blank" boolean fun v s => { s with missingIsBlank := v }]

def foldingFields : List (RecordField FoldingSettings) := [
  .of "placeholder" text fun v s => { s with placeholder := v },
  .of "preserve_collapsed" boolean fun v s => { s with preserveCollapsed := v }]

def styleFields : List (RecordField Styles) := [
  .of "block_background" word fun v s => { s with blockBackground := v },
  .of "delimiter" word fun v s => { s with delimiter := v },
  .of "scope_keyword" word fun v s => { s with scopeKeyword := v },
  .of "quill_keyword" word fun v s => { s with quillKeyword := v },
  .of "identifier" word fun v s => { s with identifier := v },
  .of "yaml_key" word fun v s => { s with yamlKey := v },
  .of "yaml_string" word fun v s => { s with yamlString := v },
  .of "yaml_number" word fun v s => { s with yamlNumber := v },
  .of "yaml_boolean" word fun v s => { s with yamlBoolean := v }]

def sections : List (RecordField Settings) := [
  .of "detection" (record "struct DetectionConfig" detectionFields {})
    fun v s => { s with detection := v },
  .of "folding" (record "struct FoldingConfig" foldingFields {})
    fun v s => { s with folding := v },
  .of "styles" (record "struct MetaStyles" styleFields {})
    fun v s => { s with styles := v }]

def decode : Decoder Settings := record "struct EngineConfig" sections {}

def ofYaml (text : List Char) : Except LoadError Settings := do
  let s := (← Yaml.load? decode text).getD {}
  if s.isUsable then return s else throw .blankPlaceholder

def ofFile (f : FileBytes) : Except LoadError Settings := do
  ofYaml (← f.text.mapError LoadError.unreadable)

end MetaBlocks.Settings
