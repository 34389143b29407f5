import CallProtocol.Text.Fields
import CallProtocol.Toml.Document

/-!
# Compiler settings

How much the compiler optimises and whether it verifies what it generates. The
settings are read from a TOML document. Keys it does not know are ignored.
-/

namespace CallProtocol

inductive OptLevel where
  | none
  | speed
  | speedAndSize
  deriving DecidableEq

namespace OptLevel

def all : List OptLevel := [.none, .speed, .speedAndSize]

def key : OptLevel → String
  | none => "none"
  | speed => "speed"
  | speedAndSize => "speed_and_size"

def name : OptLevel → String
  | none => "None"
  | speed => "Speed"
  | speedAndSize => "SpeedAndSize"

def ofKey? (s : String) : Option OptLevel := all.find? (·.key == s)

@[simp] theorem ofKey?_key (l : OptLevel) : ofKey? l.key = some l := by
  cases l <;> decide

end OptLevel

structure Settings where
  optLevel : OptLevel := .speed
  verify : Bool := true
  deriving DecidableEq

namespace Settings

open Toml (Item Entries)

def isEmptyItem : Item → Bool
  | .array [] => true
  | .inlineTable _ [] => true
  | .table _ [] => true
  | _ => false

/-- A level is given by its name, or by a table whose one key is its name. -/
def optLevelOf? : Item → Option OptLevel
  | .string s => OptLevel.ofKey? s
  | .inlineTable _ [(s, item)] => if isEmptyItem item then OptLevel.ofKey? s else none
  | .table _ [(s, item)] => if isEmptyItem item then OptLevel.ofKey? s else none
  | _ => none

def boolOf? : Item → Option Bool
  | .boolean b => some b
  | _ => none

def setting {α : Type} (es : Entries) (key : String) (fallback : α) (read : Item → Option α) :
    Option α :=
  match es.get? key with
  | some item => read item
  | none => some fallback

def ofToml? (text : String) : Option Settings := do
  let root ← Toml.parse? text
  let standard : Settings := {}
  return {
    optLevel := ← setting root "opt_level" standard.optLevel optLevelOf?
    verify := ← setting root "verify" standard.verify boolOf? }

def details (s : Settings) : String :=
  Text.fields "CodegenSettings"
    [("opt_level", s.optLevel.name), ("verify", Text.bool s.verify)]

end Settings

end CallProtocol
