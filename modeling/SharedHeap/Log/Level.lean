import SharedHeap.Text.Blank
import SharedHeap.Text.Quoted

/-!
# Severity levels

The five levels of a log record, most severe first, and the reading of a level's name. A name is
read without regard to ASCII case and to white space around it.
-/

namespace SharedHeap.Log

inductive Level
  | error
  | warn
  | info
  | debug
  | trace
deriving DecidableEq, Repr, Inhabited

namespace Level

/-- The rank of a level: the more severe the smaller. -/
def rank : Level → Nat
  | error => 0
  | warn => 1
  | info => 2
  | debug => 3
  | trace => 4

/-- `l ≤ m`: a filter at `m` lets a record at `l` pass. -/
instance : LE Level := ⟨fun l m => l.rank ≤ m.rank⟩

instance (l m : Level) : Decidable (l ≤ m) := inferInstanceAs (Decidable (l.rank ≤ m.rank))

instance : Ord Level := ⟨fun l m => compare l.rank m.rank⟩

theorem le_trace (l : Level) : l ≤ trace := by cases l <;> decide

def all : List Level := [error, warn, info, debug, trace]

theorem mem_all (l : Level) : l ∈ all := by cases l <;> decide

/-- The name in a record, in upper case. -/
def name : Level → String
  | error => "ERROR"
  | warn => "WARN"
  | info => "INFO"
  | debug => "DEBUG"
  | trace => "TRACE"

/-- The name on five columns. -/
def padded (l : Level) : String := l.name ++ String.ofList (.replicate (5 - l.name.length) ' ')

/-- The constructor's own name, as it stands in a shown value. -/
def shown : Level → String
  | error => "Error"
  | warn => "Warn"
  | info => "Info"
  | debug => "Debug"
  | trace => "Trace"

/-- A text that names no level: the text without the white space around it. -/
structure Unknown where
  text : String
deriving DecidableEq, Repr, Inhabited

def Unknown.message (u : Unknown) : String :=
  s!"invalid log level '{u.text}': expected error, warn, info, debug or trace"

def Unknown.shown (u : Unknown) : String :=
  "ParseLevelError \x7b input: " ++ Text.quoted u.text ++ " \x7d"

/-- Two texts that differ in the case of ASCII letters only. -/
def sameIgnoringCase (s t : List Char) : Bool := s.map Char.toLower == t.map Char.toLower

/-- The level that a text names. -/
def parse (s : String) : Except Unknown Level :=
  let t := Text.trim s.toList
  match all.find? fun l => sameIgnoringCase l.name.toList t with
  | some l => .ok l
  | none => .error ⟨.ofList t⟩

/-- A text names the level whose name it is, read without regard to case. -/
theorem parse_eq_ok_iff {s : String} {l : Level} :
    parse s = .ok l ↔ sameIgnoringCase l.name.toList (Text.trim s.toList) := by
  have apart : ∀ l m : Level, sameIgnoringCase l.name.toList (Text.trim s.toList) →
      sameIgnoringCase m.name.toList (Text.trim s.toList) → l = m := by
    intro l m hl hm
    simp only [sameIgnoringCase, beq_iff_eq] at hl hm
    have h := hl.trans hm.symm
    cases l <;> cases m <;> first | rfl | (exact absurd h (by decide))
  simp only [parse]
  split
  · next m hm =>
    have hm' := List.find?_some hm
    constructor
    · rintro ⟨⟩
      exact hm'
    · intro hl
      rw [apart l m hl hm']
  · next hnone =>
    constructor
    · intro h
      cases h
    · intro hl
      exact absurd hl (List.find?_eq_none.1 hnone l (mem_all l))

/-- A text that is no level's name is reported without the white space around it. -/
theorem text_of_parse_eq_error {s : String} {u : Unknown} (h : parse s = .error u) :
    u.text = Text.trimmed s := by
  simp only [parse] at h
  split at h <;> cases h
  rfl

end Level

end SharedHeap.Log
