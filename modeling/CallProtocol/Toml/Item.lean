/-!
# TOML items

The values of a TOML document, and the rules by which its lines build tables. A
table remembers how it came about, because that decides what may still be added
to it: a table with a header of its own is complete, one that only lies on the
way to another may still get its own header, and one made by dotted keys grows by
dotted keys alone.

Numbers and dates are recognised but their values are not needed, except for the
size of an integer.
-/

namespace CallProtocol.Toml

inductive Origin where
  /-- By a header, or as the root. -/
  | header
  /-- On the way to the table of a header. -/
  | implied
  /-- On the way of a dotted key. -/
  | dotted
  deriving DecidableEq

inductive Item where
  | string (s : String)
  | boolean (b : Bool)
  | integer
  | float
  | datetime
  | array (items : List Item)
  /-- A table in braces. -/
  | inlineTable (origin : Origin) (entries : List (String × Item))
  | table (origin : Origin) (entries : List (String × Item))
  /-- The tables of a repeated header, the latest one first. -/
  | tables (latest : List (String × Item)) (earlier : List (List (String × Item)))

abbrev Entries := List (String × Item)

namespace Entries

def get? (es : Entries) (key : String) : Option Item := (es.find? (·.1 == key)).map (·.2)

def put (es : Entries) (key : String) (item : Item) : Entries :=
  if es.any (·.1 == key) then es.map fun e => if e.1 == key then (key, item) else e
  else es ++ [(key, item)]

def add (es : Entries) (key : String) (item : Item) : Option Entries :=
  if es.any (·.1 == key) then none else some (es ++ [(key, item)])

def below (f : Origin → Entries → Option Entries) : List String → Origin → Entries → Option Entries
  | [], origin, es => f origin es
  | key :: keys, _, es =>
    match es.get? key with
    | none => (below f keys .implied []).map fun sub => es.put key (.table .implied sub)
    | some (.table origin sub) =>
      (below f keys origin sub).map fun sub => es.put key (.table origin sub)
    | some (.tables latest earlier) =>
      (below f keys .header latest).map fun latest => es.put key (.tables latest earlier)
    | some _ => none

/-- Add an item under a dotted key. The tables on its way are made by dotted
keys, or are found and were not made by a header. -/
def addDotted (item : Item) : List String → String → Origin → Entries → Option Entries
  | [], last, _, es => es.add last item
  | key :: keys, last, _, es =>
    match es.get? key with
    | none => (addDotted item keys last .dotted []).map fun sub => es.put key (.table .dotted sub)
    | some (.table origin sub) =>
      if origin = .header ∨ (keys = [] ∧ origin ≠ .dotted) then none
      else (addDotted item keys last origin sub).map fun sub => es.put key (.table origin sub)
    | some (.tables latest earlier) =>
      if keys = [] then none
      else (addDotted item keys last .header latest).map fun latest =>
        es.put key (.tables latest earlier)
    | some _ => none

def addInline (item : Item) : List String → String → Entries → Option Entries
  | [], last, es => es.add last item
  | key :: keys, last, es =>
    match es.get? key with
    | none => (addInline item keys last []).map fun sub => es.put key (.inlineTable .dotted sub)
    | some (.inlineTable .dotted sub) =>
      (addInline item keys last sub).map fun sub => es.put key (.inlineTable .dotted sub)
    | some _ => none

end Entries

structure KeyPath where
  way : List String
  last : String

inductive Line where
  | blank
  | entry (key : KeyPath) (item : Item)
  | header (key : KeyPath)
  | repeatedHeader (key : KeyPath)

abbrev Section := List (KeyPath × Item)

def Section.fill (s : Section) (es : Entries) : Option Entries :=
  s.foldlM (fun es e => es.addDotted e.2 e.1.way e.1.last .header) es

/-- Open the table of a header and fill it. A table that is there already must
not have had a header. -/
def Entries.addSection (root : Entries) (key : KeyPath) (s : Section) : Option Entries :=
  root.below
    (fun _ es =>
      match es.get? key.last with
      | none => (s.fill []).map fun sub => es.put key.last (.table .header sub)
      | some (.table .implied sub) =>
        (s.fill sub).map fun sub => es.put key.last (.table .header sub)
      | some _ => none)
    key.way .header

def Entries.addRepeated (root : Entries) (key : KeyPath) (s : Section) : Option Entries :=
  root.below
    (fun _ es =>
      match es.get? key.last with
      | none => (s.fill []).map fun sub => es.put key.last (.tables sub [])
      | some (.tables latest earlier) =>
        (s.fill []).map fun sub => es.put key.last (.tables sub (latest :: earlier))
      | some _ => none)
    key.way .header

def splitSection : List Line → Section × List Line
  | [] => ([], [])
  | .blank :: ls => splitSection ls
  | .entry key item :: ls =>
    let (s, rest) := splitSection ls
    ((key, item) :: s, rest)
  | l :: ls => ([], l :: ls)

def addSections : Entries → List Line → Option Entries
  | root, [] => some root
  | root, .header key :: ls => do
    let root ← root.addSection key (splitSection ls).1
    addSections root ls
  | root, .repeatedHeader key :: ls => do
    let root ← root.addRepeated key (splitSection ls).1
    addSections root ls
  | root, _ :: ls => addSections root ls

def rootOfLines (ls : List Line) : Option Entries := do
  let root ← Section.fill (splitSection ls).1 []
  addSections root ls

end CallProtocol.Toml
