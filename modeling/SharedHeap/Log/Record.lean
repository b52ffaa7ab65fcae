import SharedHeap.Log.Level

/-!
# Log records

What there is to tell is a list of `Event`s, in order: records, and changes of the level in between.
`play` runs a list of events through a filter: a record passes when its level is at most the level
in effect at that moment, and a change of level holds for the records behind it.
-/

namespace SharedHeap.Log

/-- One line of text with its severity and the part of the library that speaks. -/
structure Record where
  level : Level
  target : String
  text : String
deriving DecidableEq, Repr, Inhabited

def Record.line (r : Record) : String := s!"[{r.level.padded}] {r.target}: {r.text}"

inductive Event
  | record (r : Record)
  | level (l : Level)
deriving DecidableEq, Repr, Inhabited

def Event.say (level : Level) (target text : String) : Event := .record ⟨level, target, text⟩

/-- The level in effect after some events, and the records that passed. -/
def play : Level → List Event → Level × List Record
  | l, [] => (l, [])
  | l, .record r :: es =>
    let (l', rs) := play l es
    (l', if r.level ≤ l then r :: rs else rs)
  | _, .level l :: es => play l es

theorem play_append (l : Level) (es fs : List Event) :
    play l (es ++ fs) =
      ((play (play l es).1 fs).1, (play l es).2 ++ (play (play l es).1 fs).2) := by
  induction es generalizing l with
  | nil => rfl
  | cons e es ih =>
    cases e with
    | record r =>
      simp only [List.cons_append, play, ih]
      split <;> rfl
    | level m => simp only [List.cons_append, play, ih]

/-- Without a change of level the filter keeps its level and passes what is severe enough. -/
theorem play_records (l : Level) (rs : List Record) :
    play l (rs.map .record) = (l, rs.filter fun r => r.level ≤ l) := by
  induction rs with
  | nil => rfl
  | cons r rs ih =>
    simp only [List.map_cons, play, ih, List.filter_cons]
    split <;> simp_all

/-- The level that a text sets, or why it sets none. -/
def setLevel (s : String) : Except Level.Unknown (List Event) :=
  (Level.parse s).map fun l => [.level l]

/-- The variable of the environment that names the level to start with. -/
def levelVariable : String := "SHMREF_LOG"

/-- Takes over the level that the environment names; a text that names none is reported. -/
def fromEnvironment (value : Option String) : List Event :=
  match value with
  | none => []
  | some s =>
    match Level.parse s with
    | .ok l => [.level l]
    | .error u => [.say .warn "shmref_log" s!"ignoring {levelVariable}: {u.message}"]

/-- The lines of a list of records; a record whose text has line breaks takes several. -/
def lines (rs : List Record) : List String :=
  rs.flatMap fun r => r.line.splitOn "\n"

end SharedHeap.Log
