import DataFlash.Proofs.Written
import DataFlash.Text.Lines

namespace DataFlash

/-- A message is defined, or values come in for a message that is. A binary message may be longer
than its values need; what fills it up is no part of the text. -/
inductive Event where
  | definition (d : Definition)
  | data (d : Definition) (values : List Value) (padding : List UInt8)

namespace Event

def layout : Event → Definition
  | definition _ => .defining
  | data d _ _ => d

def values : Event → List Value
  | definition d => d.spelled
  | data _ values _ => values

def padding : Event → List UInt8
  | definition _ => []
  | data _ _ padding => padding

def defined : Event → List Definition
  | definition d => [d]
  | data .. => []

def payload (e : Event) : List UInt8 :=
  Definition.encodeFields e.layout.format.toList e.values ++ e.padding

def bytes (e : Event) : List UInt8 := LogKind.sync ++ e.layout.typeId :: e.payload

def line (e : Event) : String := ", ".intercalate (e.layout.name :: e.values.map Value.display)

def record (e : Event) : Record :=
  { name := e.layout.name, fields := e.layout.columns.zip e.values }

/-- An event that can follow some definitions, the newest first. Type ids and names go together,
and data have the newest definition of their type, a value for each of its characters, and its
length. -/
def Fits (earlier : List Definition) : Event → Prop
  | definition d => d.Plain ∧ ∀ e ∈ earlier, e.typeId = d.typeId ↔ e.name = d.name
  | data d values padding =>
    (earlier.find? fun e => e.typeId == d.typeId) = some d ∧
      List.Forall₂ DataFlash.Fits d.format.toList values ∧ (∀ v ∈ values, v.Clean) ∧
      d.needed + padding.length = d.length

def Legal (earlier : List Definition) : List Event → Prop
  | [] => True
  | e :: more => e.Fits earlier ∧ Legal (e.defined ++ earlier) more

instance (earlier : List Definition) : (e : Event) → Decidable (e.Fits earlier)
  | definition _ => inferInstanceAs (Decidable (_ ∧ _))
  | data .. => inferInstanceAs (Decidable (_ ∧ _ ∧ _ ∧ _))

instance decidableLegal : (earlier : List Definition) → (events : List Event) →
    Decidable (Legal earlier events)
  | _, [] => isTrue trivial
  | earlier, e :: more =>
    have := decidableLegal (e.defined ++ earlier) more
    inferInstanceAs (Decidable (_ ∧ _))

def binaryLog (events : List Event) : List UInt8 := events.flatMap bytes

def textLog (events : List Event) : List UInt8 :=
  Utf8.encode (String.join (events.map fun e => e.line ++ "\n"))

variable {earlier : List Definition} {e : Event}

theorem Fits.forall₂ (h : e.Fits earlier) :
    List.Forall₂ DataFlash.Fits e.layout.format.toList e.values := by
  cases e with
  | definition d => exact h.1.fits_spelled
  | data d values padding => exact h.2.1

theorem Fits.length_payload (h : e.Fits earlier) :
    e.payload.length + headerSize = e.layout.length := by
  have hfields := Definition.length_encodeFields h.forall₂
  rw [payload, List.length_append, hfields]
  cases e with
  | definition d =>
    show Definition.defining.payloadSize + 0 + headerSize = Definition.defining.length
    decide
  | data d values padding =>
    have hlen := h.2.2.2
    unfold Definition.needed Definition.payloadSize at hlen
    simp only [layout, Event.padding]
    omega

theorem Fits.decode_payload (h : e.Fits earlier) :
    e.layout.decode e.payload = .ok (e.layout.columns.zip e.values) :=
  Definition.decodeFields_encodeFields h.forall₂ e.layout.columns e.padding

open BinaryLog (Message Segment written Quiet Legible)

def segment (e : Event) : Segment where
  noise := []
  message := match e with
    | definition d => .definition e.payload d
    | data d _ _ => .data d e.payload

@[simp] theorem noise_segment (e : Event) : e.segment.noise = [] := rfl

@[simp] theorem layout_segment (e : Event) : e.segment.message.layout = e.layout := by
  cases e <;> rfl

@[simp] theorem payload_segment (e : Event) : e.segment.message.payload = e.payload := by
  cases e <;> rfl

@[simp] theorem learned_segment (e : Event) : e.segment.message.learned = e.defined := by
  cases e <;> rfl

theorem Fits.message (h : e.Fits earlier) : e.segment.message.Fits earlier := by
  cases e with
  | definition d =>
    exact ⟨h.length_payload, h.1.typeId, _, h.decode_payload, h.1.ofRecord_spelled⟩
  | data d values padding => exact ⟨h.1, h.length_payload⟩

theorem Fits.record_message (h : e.Fits earlier) : e.segment.message.record = .ok e.record := by
  simp [Message.record, h.decode_payload, Except.map, record]

theorem legible_segments {events : List Event} (h : Legal earlier events) :
    Legible earlier (events.map segment) [] := by
  induction events generalizing earlier with
  | nil =>
    intro i hi
    simp at hi
  | cons e more ih =>
    refine ⟨?_, h.1.message, ?_⟩
    · intro i hi
      simp at hi
    · rw [learned_segment]
      exact ih h.2

theorem written_segments (events : List Event) :
    written (events.map segment) [] = binaryLog events := by
  induction events with
  | nil => rfl
  | cons e more ih =>
    simp [written, Message.bytes, binaryLog, bytes, ih]

theorem records_segments {events : List Event} (h : Legal earlier events) :
    (events.map segment).map (·.message.record) = events.map (Except.ok ∘ record) := by
  induction events generalizing earlier with
  | nil => rfl
  | cons e more ih =>
    simp only [List.map_cons, h.1.record_message, ih h.2, Function.comp]

theorem results_binaryLog {events : List Event} (h : Legal [] events) :
    Feed.results (BinaryLog.ofBytes (binaryLog events)) = events.map (Except.ok ∘ record) := by
  have hfollows := BinaryLog.follows_ofBytes (binaryLog events)
  have hrun := hfollows.run (legible_segments h) (written_segments events).symm
  exact hrun.1.trans (records_segments h)

end Event

end DataFlash
