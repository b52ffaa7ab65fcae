import SharedHeap.Log.Record

/-!
# Loggers

A logger holds the level in effect as a byte. It is called to set the level that a text names, to
take over the level that the environment names, and to tell a record. What passes its filter goes
to the error output, with an end of line behind each record.
-/

namespace SharedHeap.Log

namespace Level

/-- The byte that stands for a level. -/
def byte (l : Level) : UInt8 := .ofNat l.rank

/-- The level that a byte stands for. -/
def ofByte (b : UInt8) : Level :=
  match b.toNat with
  | 0 => error
  | 1 => warn
  | 2 => info
  | 3 => debug
  | _ => trace

@[simp] theorem ofByte_byte (l : Level) : ofByte l.byte = l := by cases l <;> rfl

theorem byte_le_byte_iff {l m : Level} : l.byte ≤ m.byte ↔ l ≤ m := by
  cases l <;> cases m <;> decide

end Level

/-- A filter for records. -/
structure Logger where
  byte : UInt8
deriving DecidableEq, Repr, Inhabited

/-- What a logger is called for. -/
inductive Call
  /-- To set the level that a text names. -/
  | setLevel (text : String)
  /-- To take over the level that the environment names. The value of its variable is bytes, and if
  they are no text, that is as if there were none. -/
  | fromEnvironment (value : Option ByteArray)
  | tell (r : Record)
deriving Inhabited

/-- What a call answers. -/
inductive Reply
  | done
  /-- The text names no level. -/
  | refused (u : Level.Unknown)
  | level (l : Level)
deriving DecidableEq, Repr, Inhabited

/-- What was answered, the logger that is left, and what was written to the error output. -/
structure Heard (α : Type) where
  reply : α
  logger : Logger
  written : String
deriving DecidableEq, Repr, Inhabited

namespace Logger

def new (l : Level) : Logger := ⟨l.byte⟩

/-- The level in effect. -/
def level (g : Logger) : Level := .ofByte g.byte

def setLevel (g : Logger) (l : Level) : Logger := { g with byte := l.byte }

/-- Records at the level are written. -/
def enabled (g : Logger) (l : Level) : Bool := l.byte ≤ g.byte

/-- What is written of a record. -/
def write (g : Logger) (r : Record) : String := if g.enabled r.level then r.line ++ "\n" else ""

/-- What is written of a record that is put together only if somebody listens. -/
def tell (g : Logger) (r : Record) : String := if g.enabled r.level then g.write r else ""

/-- What is left and written of some events. -/
def hear : Logger → List Event → Heard Unit
  | g, [] => ⟨(), g, ""⟩
  | g, .record r :: es =>
    let rest := g.hear es
    { rest with written := g.tell r ++ rest.written }
  | g, .level l :: es => (g.setLevel l).hear es

end Logger

namespace Call

/-- What a logger is to hear of a call. -/
def events : Call → List Event
  | setLevel text => (Log.setLevel text).toOption.getD []
  | fromEnvironment value => Log.fromEnvironment (value.bind String.fromUTF8?)
  | tell r => [.record r]

/-- What a logger answers that has heard of a call. -/
def reply (g : Logger) : Call → Reply
  | setLevel text =>
    match Log.setLevel text with
    | .ok _ => .done
    | .error u => .refused u
  | fromEnvironment _ => .level g.level
  | tell _ => .done

end Call

namespace Logger

def call (g : Logger) (c : Call) : Heard Reply :=
  let heard := g.hear c.events
  ⟨c.reply heard.logger, heard.logger, heard.written⟩

/-- Calls one after the other. -/
def run : Logger → List Call → Heard (List Reply)
  | g, [] => ⟨[], g, ""⟩
  | g, c :: cs =>
    let first := g.call c
    let rest := first.logger.run cs
    ⟨first.reply :: rest.reply, rest.logger, first.written ++ rest.written⟩

end Logger

end SharedHeap.Log
