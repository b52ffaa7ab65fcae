import Mathlib.Data.List.Basic
import Mathlib.Data.List.Forall2
import Mathlib.Data.List.Induction
import SharedHeap.Log.Logger
import SharedHeap.Proofs.Texts

/-!
# Runs of a logger

A logger is called to set levels and to tell records, in any order. The level in effect is the one
that was named last (`Log.InEffect`), and a record passes if it is severe enough for the level in
effect when it is told (`Log.Passes`). Both are said of the calls alone, and a logger keeps to them
whatever it is called for (`Log.Logger.attentive`). On the way, a logger, which holds a byte, is
shown to do what the filter `Log.play` does (`Log.Logger.run_new`).
-/

namespace SharedHeap.Log

open Text

/-! ## Names of levels -/

namespace Level

variable {s : String} {l m : Level}

/-- Without the white space at its ends the text is the level's name, in letters of either case. -/
def Names (l : Level) (s : String) : Prop :=
  ∃ t, Trims s t ∧ List.Forall₂ SameLetter t.toList l.name.toList

theorem sameIgnoringCase_iff {cs ds : List Char} :
    sameIgnoringCase cs ds ↔ List.Forall₂ SameLetter ds cs := by
  have hsame : SameLetter = fun c d => c.toLower = d.toLower := by
    funext c d
    exact propext sameLetter_iff
  rw [sameIgnoringCase, beq_iff_eq, eq_comm, ← List.forall₂_eq_eq_eq, List.forall₂_map_left_iff,
    List.forall₂_map_right_iff, hsame]

theorem names_iff : l.Names s ↔ parse s = .ok l := by
  simp only [Names, trims_iff, exists_eq_left, trimmed, String.toList_ofList]
  rw [parse_eq_ok_iff, sameIgnoringCase_iff]

theorem parse_eq_error_iff {u : Unknown} :
    parse s = .error u ↔ (∀ l : Level, ¬ l.Names s) ∧ Trims s u.text := by
  constructor
  · intro h
    refine ⟨fun l hl => ?_, trims_iff.2 (text_of_parse_eq_error h)⟩
    rw [names_iff.1 hl] at h
    cases h
  · rintro ⟨hno, ht⟩
    cases hparse : parse s with
    | ok l => exact absurd (names_iff.2 hparse) (hno l)
    | error v =>
      have htext : v.text = u.text :=
        (text_of_parse_eq_error hparse).trans (trims_iff.1 ht).symm
      exact congrArg _ (congrArg Unknown.mk htext)

theorem padded_columns (l : Level) :
    l.padded.length = 5 ∧ ∃ n, l.padded = l.name ++ .ofList (.replicate n ' ') := by
  refine ⟨?_, 5 - l.name.length, rfl⟩
  cases l <;> decide

end Level

/-! ## Calls -/

/-- What is told of a text in the environment that names no level. The text has no white space at
its ends. -/
def complaint (t : String) : Record :=
  ⟨.warn, "shmref_log", "ignoring SHMREF_LOG: invalid log level '" ++ t ++
    "': expected error, warn, info, debug or trace"⟩

theorem complaint_eq (u : Level.Unknown) :
    complaint u.text = ⟨.warn, "shmref_log", s!"ignoring {levelVariable}: {u.message}"⟩ := by
  have hhead : "ignoring SHMREF_LOG: invalid log level '" =
      "ignoring " ++ levelVariable ++ ": " ++ "invalid log level '" := by decide +kernel
  have htail : u.message = "invalid log level '" ++ (u.text ++
      "': expected error, warn, info, debug or trace") := String.append_assoc
  rw [complaint, hhead, htail, String.append_assoc, String.append_assoc]
  rfl

namespace Call

variable {c : Call} {m : Level} {r : Record} {s : String}

/-- The call applies a text that names the level. -/
inductive Sets : Call → Level → Prop
  | name {s : String} {m : Level} (h : m.Names s) : Sets (setLevel s) m
  | environment {s : String} {m : Level} (h : m.Names s) :
    Sets (fromEnvironment (some s.toUTF8)) m

/-- The call tells the record. -/
inductive Tells : Call → Record → Prop
  | record {r : Record} : Tells (tell r) r
  | complaint {s t : String} (hno : ∀ m : Level, ¬ m.Names s) (ht : Trims s t) :
    Tells (fromEnvironment (some s.toUTF8)) (complaint t)

theorem events_environment :
    (fromEnvironment (some s.toUTF8)).events = Log.fromEnvironment (some s) := by
  rw [events, Option.bind_some, fromUTF8?_eq_some_iff.2 rfl]

theorem Sets.events_eq (h : c.Sets m) : c.events = [.level m] := by
  cases h with
  | name h =>
    rw [events, Log.setLevel, Level.names_iff.1 h]
    rfl
  | environment h =>
    rw [events_environment, Log.fromEnvironment, Level.names_iff.1 h]

theorem Tells.events_eq (h : c.Tells r) : c.events = [.record r] := by
  cases h with
  | record => rfl
  | complaint hno ht =>
    rename_i s t
    have hparse : Level.parse s = .error ⟨t⟩ := Level.parse_eq_error_iff.2 ⟨hno, ht⟩
    rw [events_environment, Log.fromEnvironment, hparse, complaint_eq]
    rfl

/-- A call that sets no level and tells no record makes nothing heard. -/
theorem sets_or_tells (c : Call) : (∃ m, c.Sets m) ∨ (∃ r, c.Tells r) ∨ c.events = [] := by
  cases c with
  | setLevel s =>
    cases hparse : Level.parse s with
    | ok m => exact .inl ⟨m, .name (Level.names_iff.2 hparse)⟩
    | error u =>
      refine .inr (.inr ?_)
      rw [events, Log.setLevel, hparse]
      rfl
  | fromEnvironment value =>
    cases hs : value.bind String.fromUTF8? with
    | none =>
      refine .inr (.inr ?_)
      rw [events, hs]
      rfl
    | some s =>
      obtain ⟨bs, rfl, hbs⟩ := Option.bind_eq_some_iff.1 hs
      obtain rfl := fromUTF8?_eq_some_iff.1 hbs
      cases hparse : Level.parse s with
      | ok m => exact .inl ⟨m, .environment (Level.names_iff.2 hparse)⟩
      | error u =>
        obtain ⟨hno, ht⟩ := Level.parse_eq_error_iff.1 hparse
        exact .inr (.inl ⟨_, .complaint hno ht⟩)
  | tell r => exact .inr (.inl ⟨r, .record⟩)

theorem Sets.unique {k : Level} (h : c.Sets m) (h' : c.Sets k) : m = k := by
  have he := h.events_eq.symm.trans h'.events_eq
  cases he
  rfl

theorem Tells.unique {q : Record} (h : c.Tells r) (h' : c.Tells q) : r = q := by
  have he := h.events_eq.symm.trans h'.events_eq
  cases he
  rfl

theorem Sets.not_tells (h : c.Sets m) : ¬ c.Tells r := by
  intro h'
  have he := h.events_eq.symm.trans h'.events_eq
  cases he

end Call

/-! ## The level in effect -/

/-- The level in effect behind some calls, if it was `l` at first. -/
inductive InEffect (l : Level) : List Call → Level → Prop
  /-- No text named a level. -/
  | initial {calls : List Call} (h : ∀ c ∈ calls, ∀ k, ¬ c.Sets k) : InEffect l calls l
  /-- A text named the level, and none named one later on. -/
  | named {before after : List Call} {c : Call} {m : Level} (hc : c.Sets m)
    (h : ∀ d ∈ after, ∀ k, ¬ d.Sets k) : InEffect l (before ++ c :: after) m

section

variable {l m k : Level} {calls : List Call} {c : Call}

theorem inEffect_nil_iff : InEffect l [] m ↔ l = m := by
  constructor
  · intro h
    generalize hnil : ([] : List Call) = calls at h
    cases h with
    | initial => rfl
    | named => simp at hnil
  · rintro rfl
    exact .initial nofun

theorem inEffect_concat_iff : InEffect l (calls ++ [c]) m ↔
    c.Sets m ∨ ((∀ k, ¬ c.Sets k) ∧ InEffect l calls m) := by
  constructor
  · intro h
    -- the call that named the level is the last one or stands before it
    generalize hcalls : calls ++ [c] = all at h
    cases h with
    | initial h =>
      subst hcalls
      have hc := h c (by simp)
      exact .inr ⟨hc, .initial fun d hd => h d (List.mem_append_left _ hd)⟩
    | @named before after d m hd h =>
      rcases List.eq_nil_or_concat after with rfl | ⟨after, e, rfl⟩
      · obtain ⟨rfl, he⟩ := List.append_inj' hcalls rfl
        cases he
        exact .inl hd
      · rw [List.concat_eq_append, ← List.cons_append, ← List.append_assoc] at hcalls
        obtain ⟨rfl, he⟩ := List.append_inj' hcalls rfl
        cases he
        refine .inr ⟨h c (by simp), .named hd fun e he => h e (by simp [he])⟩
  · rintro (hc | ⟨hc, h⟩)
    · exact .named hc nofun
    · cases h with
      | initial h =>
        refine .initial (List.forall_mem_append.2 ⟨h, fun d hd => ?_⟩)
        rw [List.mem_singleton.1 hd]
        exact hc
      | @named before after d m hd h =>
        rw [List.append_assoc, List.cons_append]
        refine .named hd (List.forall_mem_append.2 ⟨h, fun e he => ?_⟩)
        rw [List.mem_singleton.1 he]
        exact hc

/-- What one call does to the level in effect. -/
theorem play_events_fst_iff :
    (play k c.events).1 = m ↔ c.Sets m ∨ ((∀ j, ¬ c.Sets j) ∧ k = m) := by
  rcases c.sets_or_tells with ⟨j, hj⟩ | ⟨r, hr⟩ | he
  · rw [hj.events_eq]
    constructor
    · rintro rfl
      exact .inl hj
    · rintro (hm | ⟨hno, -⟩)
      · exact hj.unique hm
      · exact absurd hj (hno j)
  · have hno : ∀ j, ¬ c.Sets j := fun j hj => hj.not_tells hr
    rw [hr.events_eq]
    exact ⟨fun h => .inr ⟨hno, h⟩, fun h => (h.resolve_left (hno m)).2⟩
  · have hno : ∀ j, ¬ c.Sets j := by
      intro j hj
      rw [hj.events_eq] at he
      cases he
    rw [he]
    exact ⟨fun h => .inr ⟨hno, h⟩, fun h => (h.resolve_left (hno m)).2⟩

/-- The filter has the level in effect. -/
theorem inEffect_iff : InEffect l calls m ↔ (play l (calls.flatMap Call.events)).1 = m := by
  induction calls using List.reverseRecOn generalizing m with
  | nil => exact inEffect_nil_iff
  | append_singleton calls c ih =>
    rw [inEffect_concat_iff, ih, List.flatMap_append, List.flatMap_singleton, play_append,
      play_events_fst_iff]

theorem InEffect.unique (h : InEffect l calls m) (h' : InEffect l calls k) : m = k :=
  (inEffect_iff.1 h).symm.trans (inEffect_iff.1 h')

/-! ## The records that pass -/

theorem play_events_snd_eq_nil (h : ∀ r, ¬ c.Tells r) : (play k c.events).2 = [] := by
  rcases c.sets_or_tells with ⟨j, hj⟩ | ⟨r, hr⟩ | he
  · rw [hj.events_eq]
    rfl
  · exact absurd hr (h r)
  · rw [he]
    rfl

/-- The records that pass, of calls behind the calls `before`, if the level was `l` at first: those
that are severe enough for the level in effect when they are told. -/
inductive Passes (l : Level) : List Call → List Call → List Record → Prop
  | nil {before : List Call} : Passes l before [] []
  | shown {before calls : List Call} {c : Call} {m : Level} {r : Record} {rs : List Record}
    (hm : InEffect l before m) (hr : c.Tells r) (hle : r.level ≤ m)
    (h : Passes l (before ++ [c]) calls rs) : Passes l before (c :: calls) (r :: rs)
  | hidden {before calls : List Call} {c : Call} {m : Level} {r : Record} {rs : List Record}
    (hm : InEffect l before m) (hr : c.Tells r) (hle : ¬ r.level ≤ m)
    (h : Passes l (before ++ [c]) calls rs) : Passes l before (c :: calls) rs
  | silent {before calls : List Call} {c : Call} {rs : List Record} (hno : ∀ r, ¬ c.Tells r)
    (h : Passes l (before ++ [c]) calls rs) : Passes l before (c :: calls) rs

variable {before : List Call} {r : Record} {rs : List Record}

theorem passes_nil_iff : Passes l before [] rs ↔ rs = [] := by
  constructor
  · rintro ⟨⟩
    rfl
  · rintro rfl
    exact .nil

theorem passes_cons_iff_of_le (hm : InEffect l before m) (hr : c.Tells r) (hle : r.level ≤ m) :
    Passes l before (c :: calls) rs ↔
      ∃ rest, rs = r :: rest ∧ Passes l (before ++ [c]) calls rest := by
  constructor
  · intro h
    cases h with
    | shown _ hr' _ h => exact ⟨_, congrArg (· :: _) (hr'.unique hr), h⟩
    | hidden hm' hr' hno =>
      rw [hr'.unique hr, hm'.unique hm] at hno
      exact absurd hle hno
    | silent hno => exact absurd hr (hno r)
  · rintro ⟨rest, rfl, h⟩
    exact .shown hm hr hle h

theorem passes_cons_iff_of_not_le (hm : InEffect l before m) (hr : c.Tells r)
    (hno : ¬ r.level ≤ m) :
    Passes l before (c :: calls) rs ↔ Passes l (before ++ [c]) calls rs := by
  constructor
  · intro h
    cases h with
    | shown hm' hr' hle =>
      rw [hr'.unique hr, hm'.unique hm] at hle
      exact absurd hle hno
    | hidden _ _ _ h => exact h
    | silent hsilent => exact absurd hr (hsilent r)
  · exact .hidden hm hr hno

theorem passes_cons_iff_of_silent (hno : ∀ r, ¬ c.Tells r) :
    Passes l before (c :: calls) rs ↔ Passes l (before ++ [c]) calls rs := by
  constructor
  · intro h
    cases h with
    | shown _ hr | hidden _ hr => exact absurd hr (hno _)
    | silent _ h => exact h
  · exact .silent hno

/-- The filter passes just those records. -/
theorem passes_iff : Passes l before calls rs ↔
    rs = (play (play l (before.flatMap Call.events)).1 (calls.flatMap Call.events)).2 := by
  induction calls generalizing before rs with
  | nil => exact passes_nil_iff
  | cons c calls ih =>
    have ih {rs} := @ih (before ++ [c]) rs
    simp only [List.flatMap_append, List.flatMap_singleton, play_append] at ih
    simp only [List.flatMap_cons, play_append]
    -- the filter holds the level in effect, whichever that is
    generalize hk : (play l (before.flatMap Call.events)).1 = k at ih ⊢
    have hin : InEffect l before k := inEffect_iff.2 hk
    by_cases hc : ∃ r, c.Tells r
    · obtain ⟨r, hr⟩ := hc
      rw [hr.events_eq] at ih ⊢
      by_cases hle : r.level ≤ k
      · have hone : (play k [.record r]).2 = [r] := if_pos hle
        simp only [passes_cons_iff_of_le hin hr hle, ih, hone, exists_eq_right,
          List.singleton_append]
      · have hnone : (play k [.record r]).2 = [] := if_neg hle
        rw [passes_cons_iff_of_not_le hin hr hle, ih, hnone, List.nil_append]
    · have hno : ∀ r, ¬ c.Tells r := not_exists.1 hc
      rw [passes_cons_iff_of_silent hno, ih, play_events_snd_eq_nil hno, List.nil_append]

end

/-! ## Loggers -/

/-- The text of records, each with an end of line behind it. -/
def output (rs : List Record) : String := .join (rs.map fun r => r.line ++ "\n")

namespace Logger

variable {l k m : Level} {calls : List Call}

@[simp] theorem level_new (l : Level) : (new l).level = l := Level.ofByte_byte l

theorem enabled_new_iff : (new l).enabled k ↔ k ≤ l := by
  rw [enabled, decide_eq_true_iff]
  exact Level.byte_le_byte_iff

/-- It does not matter that the level is looked at twice. -/
theorem tell_new (l : Level) (r : Record) :
    (new l).tell r = if r.level ≤ l then r.line ++ "\n" else "" := by
  simp only [tell, write, enabled_new_iff]
  split <;> rfl

/-- A logger does as the filter of levels does. -/
theorem hear_new (l : Level) (es : List Event) :
    (new l).hear es = ⟨(), new (play l es).1, output (play l es).2⟩ := by
  induction es generalizing l with
  | nil => rfl
  | cons e es ih =>
    cases e with
    | record r =>
      simp only [hear, ih, tell_new, play]
      split
      · rw [output, output, List.map_cons, String.join_cons]
      · rw [String.empty_append]
    | level k => exact ih k

theorem hear_record (g : Logger) (r : Record) : g.hear [.record r] = ⟨(), g, g.tell r⟩ := by
  simp only [hear, String.append_empty]

theorem call_new (l : Level) (c : Call) : (new l).call c =
    ⟨c.reply (new (play l c.events).1), new (play l c.events).1, output (play l c.events).2⟩ := by
  rw [call, hear_new]

section

variable {s t : String}

theorem call_setLevel (k : Level) (h : m.Names s) :
    (new k).call (.setLevel s) = ⟨.done, new m, ""⟩ := by
  rw [call_new, (Call.Sets.name h).events_eq, Call.reply, Log.setLevel, Level.names_iff.1 h]
  rfl

theorem call_setLevel_refused (k : Level) (hno : ∀ m : Level, ¬ m.Names s) (ht : Trims s t) :
    (new k).call (.setLevel s) = ⟨.refused ⟨t⟩, new k, ""⟩ := by
  have hparse : Level.parse s = .error ⟨t⟩ := Level.parse_eq_error_iff.2 ⟨hno, ht⟩
  rw [call_new, Call.reply, Call.events, Log.setLevel, hparse]
  rfl

theorem call_environment (k : Level) (h : m.Names s) :
    (new k).call (.fromEnvironment (some s.toUTF8)) = ⟨.level m, new m, ""⟩ := by
  rw [call_new, (Call.Sets.environment h).events_eq, Call.reply, level_new]
  rfl

theorem call_environment_complaint (k : Level) (hno : ∀ m : Level, ¬ m.Names s)
    (ht : Trims s t) : (new k).call (.fromEnvironment (some s.toUTF8)) =
      ⟨.level k, new k, if .warn ≤ k then (complaint t).line ++ "\n" else ""⟩ := by
  rw [call, (Call.Tells.complaint hno ht).events_eq, hear_record, tell_new, Call.reply, level_new]
  rfl

theorem call_environment_none (k : Level) {value : Option ByteArray}
    (h : ∀ s : String, value ≠ some s.toUTF8) :
    (new k).call (.fromEnvironment value) = ⟨.level k, new k, ""⟩ := by
  have hnone : value.bind String.fromUTF8? = none := by
    rw [Option.eq_none_iff_forall_ne_some]
    intro s hs
    obtain ⟨bs, rfl, hbs⟩ := Option.bind_eq_some_iff.1 hs
    exact h s (congrArg some (fromUTF8?_eq_some_iff.1 hbs))
  rw [call_new, Call.reply, Call.events, hnone, level_new]
  rfl

theorem call_tell (k : Level) (r : Record) : (new k).call (.tell r) =
    ⟨.done, new k, if r.level ≤ k then r.line ++ "\n" else ""⟩ := by
  rw [call, Call.events, hear_record, tell_new]
  rfl

end

theorem run_append (g : Logger) (xs ys : List Call) : g.run (xs ++ ys) =
    ⟨(g.run xs).reply ++ ((g.run xs).logger.run ys).reply, ((g.run xs).logger.run ys).logger,
      (g.run xs).written ++ ((g.run xs).logger.run ys).written⟩ := by
  induction xs generalizing g with
  | nil => simp only [List.nil_append, run, String.empty_append]
  | cons x xs ih => simp only [List.cons_append, run, ih, String.append_assoc]

theorem length_run (g : Logger) (calls : List Call) :
    (g.run calls).reply.length = calls.length := by
  induction calls generalizing g with
  | nil => rfl
  | cons c calls ih => simp only [run, List.length_cons, ih]

/-- The filter of levels tells what calls leave and what they write. -/
theorem run_new (l : Level) (calls : List Call) :
    ((new l).run calls).logger = new (play l (calls.flatMap Call.events)).1 ∧
      ((new l).run calls).written = output (play l (calls.flatMap Call.events)).2 := by
  induction calls generalizing l with
  | nil => exact ⟨rfl, rfl⟩
  | cons c calls ih =>
    obtain ⟨hlogger, hwritten⟩ := ih (play l c.events).1
    simp only [run, call_new, List.flatMap_cons, play_append, hlogger, hwritten, true_and]
    rw [output, output, output, List.map_append, String.join_append]

/-- The logger behind some calls. -/
def behind (l : Level) (calls : List Call) : Logger := ((new l).run calls).logger

theorem behind_eq (l : Level) (calls : List Call) :
    behind l calls = new (play l (calls.flatMap Call.events)).1 := (run_new l calls).1

/-- What a logger that was at the level `l` did in the course of some calls, and does then. -/
structure Attentive (l : Level) (calls : List Call) : Prop where
  /-- The level in effect is the one that was named last. -/
  level : ∀ m, (behind l calls).level = m ↔ InEffect l calls m
  /-- Records are written of the levels that are severe enough. -/
  enabled : ∀ k, (behind l calls).enabled k ↔ k ≤ (behind l calls).level
  /-- A text that names a level sets it. -/
  sets : ∀ s m, m.Names s → (behind l calls).call (.setLevel s) = ⟨.done, new m, ""⟩
  /-- Any other text changes nothing, and is given back without the white space at its ends. -/
  refuses : ∀ s, (∀ m : Level, ¬ m.Names s) → ∃ t, Trims s t ∧
    (behind l calls).call (.setLevel s) = ⟨.refused ⟨t⟩, behind l calls, ""⟩
  /-- A level that the environment names is set, and answered. -/
  takesOver : ∀ s m, m.Names s →
    (behind l calls).call (.fromEnvironment (some s.toUTF8)) = ⟨.level m, new m, ""⟩
  /-- Of any other text there, one record is told, which is written if warnings are, and nothing
  else happens. -/
  complains : ∀ s, (∀ m : Level, ¬ m.Names s) → ∃ t, Trims s t ∧
    (behind l calls).call (.fromEnvironment (some s.toUTF8)) =
      ⟨.level (behind l calls).level, behind l calls,
        if (behind l calls).enabled .warn then (complaint t).line ++ "\n" else ""⟩
  /-- A variable that is not set, or holds no text, is passed over. -/
  passesOver : ∀ value, (∀ s : String, value ≠ some s.toUTF8) →
    (behind l calls).call (.fromEnvironment value) =
      ⟨.level (behind l calls).level, behind l calls, ""⟩
  /-- A record is written if it is severe enough, and leaves the level. -/
  tells : ∀ r, (behind l calls).call (.tell r) =
    ⟨.done, behind l calls, if r.level ≤ (behind l calls).level then r.line ++ "\n" else ""⟩
  /-- Each call was answered as the logger behind the earlier ones answers it. -/
  replies : ∀ before c after, calls = before ++ c :: after →
    ((new l).run calls).reply[before.length]? = some ((behind l before).call c).reply
  /-- In all, just the records that pass were written, in order. -/
  written : ∃ rs, (∀ rs', Passes l [] calls rs' ↔ rs' = rs) ∧
    ((new l).run calls).written =
      .join (rs.map fun r => s!"[{r.level.padded}] {r.target}: {r.text}\n")
  /-- The names of levels take five columns. -/
  columns : ∀ k : Level, k.padded.length = 5 ∧ ∃ n, k.padded = k.name ++ .ofList (.replicate n ' ')
  /-- The filter `play` comes to the same level, and passes the same records. -/
  played : (behind l calls).level = (play l (calls.flatMap Call.events)).1 ∧
    Passes l [] calls (play l (calls.flatMap Call.events)).2

/-- A logger attends to every call, whatever was called before. -/
theorem attentive (l : Level) (calls : List Call) : Attentive l calls := by
  have hpasses {rs : List Record} := @passes_iff l calls [] rs
  have hbehind := behind_eq l calls
  have hplayed : (behind l calls).level = (play l (calls.flatMap Call.events)).1 := by
    rw [hbehind, level_new]
  constructor
  case level =>
    intro m
    rw [hplayed, inEffect_iff]
  case enabled =>
    intro k
    rw [hplayed, hbehind, enabled_new_iff]
  case sets =>
    intro s m h
    rw [hbehind, call_setLevel _ h]
  case refuses =>
    intro s hno
    have ht : Trims s (trimmed s) := trims_iff.2 rfl
    refine ⟨trimmed s, ht, ?_⟩
    rw [hbehind, call_setLevel_refused _ hno ht]
  case takesOver =>
    intro s m h
    rw [hbehind, call_environment _ h]
  case complains =>
    intro s hno
    have ht : Trims s (trimmed s) := trims_iff.2 rfl
    refine ⟨trimmed s, ht, ?_⟩
    simp only [hbehind, call_environment_complaint _ hno ht, level_new, enabled_new_iff]
  case passesOver =>
    intro value h
    rw [hplayed, hbehind, call_environment_none _ h]
  case tells =>
    intro r
    rw [hplayed, hbehind, call_tell]
  case replies =>
    intro before c after h
    rw [h, run_append, List.getElem?_append_right (length_run ..).le, length_run, Nat.sub_self]
    rfl
  case written => exact ⟨_, fun rs => hpasses, (run_new l calls).2⟩
  case columns => exact Level.padded_columns
  case played => exact ⟨hplayed, hpasses.2 rfl⟩

/-- A name is read as it stands between white space, and what names no level changes nothing. -/
example : (new .info).run [.setLevel "loud ", .tell ⟨.debug, "a", "b"⟩, .setLevel "\u2003deBUG\n",
      .tell ⟨.debug, "a", "b"⟩, .fromEnvironment (some " lou d".toUTF8), .fromEnvironment none,
      .fromEnvironment (some "Error".toUTF8), .fromEnvironment (some "loud".toUTF8)] =
    ⟨[.refused ⟨"loud"⟩, .done, .done, .done, .level .debug, .level .debug, .level .error,
        .level .error], new .error, "[DEBUG] a: b\n" ++ (complaint "lou d").line ++ "\n"⟩ := by
  decide +kernel

end Logger

end SharedHeap.Log
