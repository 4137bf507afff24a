import Mathlib.Tactic.Choose
import TypedIR.Proofs.RingTails
import TypedIR.Proofs.TextLines

/-
  Events as records of a stream.

  A reader of a stream takes a line for an event, so an event has to be written on one
  line. JSON escapes line breaks wherever they stand, so an event written as JSON always
  is one. A listing writes names, details and entries as they are: the event is one line
  exactly if there is no line break in these (`Event.Flat`), and a function can have any
  name. What is proved (`Event.records`):

    1. an event is written as one line, with the only line break at its end, exactly if
       it is written as JSON or is flat;
    2. the texts of events one after the other are as many lines as there are events
       exactly if this is so for each of them: what one event has too many, no other
       event has too few;
    3. what a stream writes is such a text, of the events that pass its level.

  `broken_record` is an event that is two lines.
-/

namespace TypedIR

namespace Trace

open Text

namespace Event

/-- There is no line break in the texts that an event brings along. -/
structure Flat (e : Event) : Prop where
  name : OneLine e.name
  detail : OneLine e.detail
  extra : ∀ p ∈ e.extra, OneLine p.1 ∧ OneLine p.2

theorem oneLine_mark (k : EventKind) : OneLine k.mark := by
  unfold EventKind.mark
  split <;> decide

theorem oneLine_scope (s : Scope) : OneLine s.name := by
  unfold Scope.name
  split <;> decide

theorem json_eq (e : Event) : ∃ line, OneLine line ∧ e.json = line ++ "\n" := by
  refine ⟨_, oneLine_jsonObject ?_, rfl⟩
  have hextra : OneLine (jsonObject (e.extra.map fun p => (p.1, jsonString p.2))) := by
    refine oneLine_jsonObject fun m hm => ?_
    obtain ⟨p, -, rfl⟩ := List.mem_map.1 hm
    exact oneLine_jsonString _
  have hwhen (b : Bool) {m : String × String} (h : OneLine m.2) :
      ∀ x ∈ (if b then [] else [m]), OneLine x.2 := by
    cases b <;> simp [h]
  simp only [List.forall_mem_append, List.forall_mem_cons, oneLine_jsonString, oneLine_decimalNat,
    List.not_mem_nil, false_imp_iff, implies_true, true_and, and_true]
  exact ⟨⟨⟨hwhen _ (oneLine_decimalNat _), hwhen _ (oneLine_decimalNat _)⟩,
    hwhen _ (oneLine_jsonString _)⟩, hwhen _ hextra⟩

theorem text_eq (e : Event) : ∃ line, (OneLine line ↔ e.Flat) ∧ e.text = line ++ "\n" := by
  have hparent : OneLine (if e.parent = 0 then "" else "  ") := by split <;> decide
  have hdetail : OneLine (if e.detail = "" then "" else " (" ++ e.detail ++ ")") ↔
      OneLine e.detail := by
    have hbrackets : OneLine " (" ∧ OneLine ")" := by decide
    split
    · rename_i hempty
      rw [hempty]
    · simp [hbrackets]
  have hextra : OneLine (if e.extra.isEmpty then "" else " \x7b" ++
        String.intercalate ", " (e.extra.map fun p => p.1 ++ "=" ++ p.2) ++ "\x7d") ↔
      ∀ p ∈ e.extra, OneLine p.1 ∧ OneLine p.2 := by
    have hbraces : OneLine " \x7b" ∧ OneLine "\x7d" ∧ OneLine "=" ∧ OneLine "" := by decide
    split
    · rename_i hempty
      simp [List.isEmpty_iff.1 hempty, hbraces]
    · simp only [oneLine_append, hbraces, oneLine_intercalate (by decide : OneLine ", "),
        List.forall_mem_map, true_and, and_true]
  have hmarks : OneLine "#" ∧ OneLine " " := by decide
  refine ⟨_, ?_, rfl⟩
  simp only [oneLine_append, oneLine_padRight, oneLine_decimalNat, oneLine_scope, oneLine_mark,
    hparent, hdetail, hextra, hmarks, true_and, and_assoc]
  exact ⟨fun h => ⟨h.1, h.2.1, h.2.2⟩, fun h => ⟨h.1, h.2, h.3⟩⟩

/-- The text of an event ends with a line break, and the text before it has one exactly if
the event is written as it is and brings one along. -/
theorem render_eq (e : Event) (format : EventFormat) :
    ∃ line, (OneLine line ↔ format = .ndjson ∨ e.Flat) ∧ e.render format = line ++ "\n" := by
  unfold render
  split
  · rename_i hjson
    obtain ⟨line, hline, heq⟩ := e.json_eq
    exact ⟨line, by simp [hline, hjson], heq⟩
  · rename_i htext
    obtain ⟨line, hline, heq⟩ := e.text_eq
    exact ⟨line, by simp [hline, htext], heq⟩

theorem isLines_renders (format : EventFormat) (es : List Event) :
    IsLines (String.join (es.map (·.render format))) es.length ↔
      ∀ e ∈ es, format = .ndjson ∨ e.Flat := by
  choose line hline heq using fun e : Event => e.render_eq format
  have hsame : IsLines (String.join ((es.map line).map (· ++ "\n"))) (es.map line).length ↔
      ∀ s ∈ es.map line, OneLine s := isLines_join
  rw [List.length_map, List.map_map] at hsame
  simpa [heq, hline, Function.comp_def] using hsame

theorem isLines_render (format : EventFormat) (e : Event) :
    IsLines (e.render format) 1 ↔ format = .ndjson ∨ e.Flat := by
  simpa using isLines_renders format [e]

end Event

namespace Tracing

variable {t : Tracing} {id : TracerId} {s : Stream}

theorem tracer_deliver_stream (hstream : t.tracer id = .stream s) (hbuffer : s.file = none)
    (e : Event) :
    (t.deliver id e).tracer id =
      .stream (if s.level.keeps e then { s with text := s.text ++ e.render s.format } else s) := by
  simp only [deliver, deliverWithin, hstream, writeEvent, hbuffer, Option.isNone_none, if_true]
  split
  · exact tracer_update (by simp [hstream]) _
  · exact hstream

theorem stream_delivered (es : List Event) (hstream : t.tracer id = .stream s)
    (hbuffer : s.file = none) :
    (es.foldl (·.deliver id ·) t).tracer id = .stream { s with
      text := s.text ++ String.join ((es.filter s.level.keeps).map (·.render s.format)) } := by
  induction es generalizing t s with
  | nil => simpa using hstream
  | cons e es ih =>
    have hnext := tracer_deliver_stream hstream hbuffer e
    rw [List.foldl_cons, List.filter_cons]
    by_cases hkept : s.level.keeps e
    · rw [if_pos hkept] at hnext ⊢
      simpa [String.append_assoc] using ih hnext hbuffer
    · rw [if_neg hkept] at hnext ⊢
      exact ih hnext hbuffer

end Tracing

/-- One event is one record, as JSON always, and in a listing exactly if there is no line
break in the name, the detail and the entries. The same goes for any number of events one
after the other, and for what a stream has written of the events it was given. -/
theorem Event.records (format : EventFormat) :
    (∀ e : Event, IsLines (e.render format) 1 ↔ format = .ndjson ∨ e.Flat) ∧
    (∀ es : List Event, IsLines (String.join (es.map (·.render format))) es.length ↔
      ∀ e ∈ es, format = .ndjson ∨ e.Flat) ∧
    ∀ (t : Tracing) (level : Level) (es : List Event),
      let id := (t.add (.stream { level, format })).1
      let started := (t.add (.stream { level, format })).2
      let kept := es.filter level.keeps
      ∃ s, (es.foldl (·.deliver id ·) started).tracer id = .stream s ∧
        (IsLines s.text kept.length ↔ ∀ e ∈ kept, format = .ndjson ∨ e.Flat) := by
  refine ⟨isLines_render format, isLines_renders format, fun t level es => ?_⟩
  refine ⟨_, Tracing.stream_delivered es (Tracing.tracer_add ..) rfl, ?_⟩
  simpa using isLines_renders format (es.filter level.keeps)

/-- A function whose name has a line break in it makes two lines of an event. -/
theorem Event.broken_record :
    ¬ IsLines (Event.render { seq := 1, kind := .point, scope := .function, name := "a\nb" }
      .text) 1 := by
  rw [isLines_render]
  rintro (hjson | hflat)
  · exact EventFormat.noConfusion hjson
  · exact absurd hflat.name (by decide)

end Trace

end TypedIR
